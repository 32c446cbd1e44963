import PortalPonder.Historical.Ledger

/-!
# Children are stored with their interval

When the chunks of an interval are there its children are known, so that the flush takes those that
are not stored; on the other path the RPC historical sync inserts what the flush does not have.
What is lost is lost where a step is not harmless: by a scan that comes behind the flush of a
delegated interval, by a child map that remembers what a rollback forgets, and by a flush that is
forgotten before it is committed.
-/

namespace PortalPonder.Historical

open Discovery

namespace Durable

variable {F A T R K : Type} [DecidableEq F] [DecidableEq A] {s : Durable F A T R K}
  {interval : Interval}

/-! ## The flush -/

/-- What is taken for an interval. -/
def taken (s : Durable F A T R K) (interval : Interval) : Flush F A :=
  (s.disc.takePendingInRange interval.1 interval.2).1

/-- What stays in the queue. -/
def rest (s : Durable F A T R K) (interval : Interval) : OrdMap (F × A) Int :=
  (s.disc.takePendingInRange interval.1 interval.2).2.pendingChildren

/-- What the queue holds of an interval is taken, and nothing else. -/
theorem taken_flush {k : F × A} {v : Int} :
    (k, v) ∈ (s.taken interval).entries ↔ s.queue k = some v ∧ Inside interval v := by
  have lookup : (s.taken interval).get? k =
      (s.queue k).filter fun block =>
        decide (block ≥ (interval.1 : Int) ∧ block ≤ (interval.2 : Int)) :=
    OrdMap.get?_filter _ _ k
  constructor
  · intro entry
    have here := OrdMap.get?_of_mem _ entry
    rw [lookup, Option.filter_eq_some_iff, decide_eq_true_eq] at here
    exact here
  · rintro ⟨pending, inside⟩
    refine OrdMap.mem_of_get? _ ?_
    rw [lookup, Option.filter_eq_some_iff, decide_eq_true_eq]
    exact ⟨pending, inside⟩

theorem taken_rest {k : F × A} {v : Int} :
    (s.rest interval).get? k = some v ↔
      s.queue k = some v ∧ ¬Inside interval v := by
  have lookup : (s.rest interval).get? k =
      (s.queue k).filter fun block =>
        decide ¬(block ≥ (interval.1 : Int) ∧ block ≤ (interval.2 : Int)) :=
    OrdMap.get?_filter _ _ k
  rw [lookup, Option.filter_eq_some_iff, decide_eq_true_eq]
  exact Iff.rfl

variable [DecidableEq T] {sources : Sources F A T R} {settings : Settings} {chain : Chain A T}
  {storeKey : F → K} {tx tx' : Transaction F A K} {i : Nat}

/-- What the RPC historical sync has found lies in the interval. -/
theorem TxSound.found (sound : TxSound sources chain storeKey s tx)
    (live : tx.stage.isRolledBack = false) {e : (F × A) × Int} (mem : e ∈ tx.found) :
    Inside tx.interval e.2 := by
  unfold TxSound at sound
  cases stage : tx.stage with
  | delegated todo =>
      rw [stage] at sound
      exact sound.1 e mem
  | served =>
      rw [stage] at sound
      exact sound.1 e mem
  | committed =>
      rw [stage] at sound
      exact sound.1 e mem
  | rolledBack =>
      rw [stage] at live
      cases live
  | _ =>
      rw [stage] at sound
      rw [sound.1] at mem
      cases mem

/-- What is known from an interval is stored or queued, when its transaction has not flushed. -/
theorem Ledger.pending (ledger : Ledger sources settings chain storeKey s)
    (here : s.transactions[i]? = some tx) (live : tx.stage.isRolledBack = false)
    (none_ : s.pendingFlushes.get? tx.interval = none) (nothing : tx.found = []) {k : F × A}
    {m : Int} (factory : k.1 ∈ sources.factories) (known : s.known k = some m)
    (inside : Inside tx.interval m) : Inserted storeKey s.store k m ∨ s.queue k = some m := by
  cases ledger.books.accounted k factory m known with
  | stored inserted => exact .inl inserted
  | queued pending => exact .inr pending
  | @flushed other flush remembered entry =>
      exfalso
      obtain ⟨⟨owner, mem, rfl⟩, within, _⟩ := ledger.books.flushes other flush remembered
      rcases ledger.others here live mem with rfl | ⟨same, _⟩ | apart
      · rw [none_] at remembered
        cases remembered
      · rw [same, none_] at remembered
        cases remembered
      · exact apart.outside (within _ entry) inside
  | @found owner mem open_ entry =>
      exfalso
      rcases ledger.others here live mem with rfl | ⟨_, rolled⟩ | apart
      · rw [nothing] at entry
        cases entry
      · rw [open_] at rolled
        cases rolled
      · exact apart.outside ((ledger.transactions owner mem).found open_ entry) inside

/-! ## Turns that take nothing -/

/-- The sync moves and records nothing, and a transaction goes on. -/
theorem Ledger.synced (ledger : Ledger sources settings chain storeKey s)
    (here : s.transactions[i]? = some tx) (live : tx.stage.isRolledBack = false)
    {sync : RangeSync F A T R} (sound : RangeSync.Sound sources settings chain sync)
    (spanned : sync.cache.Spanned (sources.syncDeps settings chain))
    (proceeds : RangeSync.Proceeds (fun _ _ _ => False) s.sync sync)
    (same : tx'.interval = tx.interval)
    (found : ∀ e ∈ tx.found, e ∈ tx'.found ∧ tx'.stage.isRolledBack = false)
    (mine : TxSound sources chain storeKey { s with sync } tx') :
    Ledger sources settings chain storeKey (({ s with sync } : Durable F A T R K).set i tx') :=
  ledger.turned here live rfl same
    ((ledger.books.sync sound spanned proceeds.queues).set here same found)
    (.sync proceeds tx.interval) mine

theorem Ledger.set (ledger : Ledger sources settings chain storeKey s)
    (here : s.transactions[i]? = some tx) (live : tx.stage.isRolledBack = false)
    (same : tx'.interval = tx.interval)
    (found : ∀ e ∈ tx.found, e ∈ tx'.found ∧ tx'.stage.isRolledBack = false)
    (mine : TxSound sources chain storeKey s tx') :
    Ledger sources settings chain storeKey (s.set i tx') :=
  ledger.synced here live ledger.books.sound ledger.books.spanned (.moved (.of_eq rfl)) same found
    mine

/-- What a transaction owes when it has taken its flush: on the Portal path every child of the
interval is known. -/
theorem Ledger.owes (ledger : Ledger sources settings chain storeKey s)
    (here : s.transactions[i]? = some tx) (live : tx.stage.isRolledBack = false)
    (none_ : s.pendingFlushes.get? tx.interval = none) (nothing : tx.found = [])
    {attempt : Option Nat}
    (informed : ∀ k ∈ attempt, ∀ log ∈ sources.factoryLogs chain tx.interval,
      ∃ m ≤ (log.2.1 : Int), s.known (log.1, log.2.2) = some m) :
    Owes sources chain storeKey s tx
      (s.taken tx.interval).entries attempt := by
  have tracks : Tracks sources storeKey s tx (s.taken tx.interval).entries := by
    intro k factory m known inside
    rcases ledger.pending here live none_ nothing factory known inside with inserted | pending
    · exact .inl (inserted.mono fun r mem => List.mem_append_left _ mem)
    · exact .inr ⟨m, Int.le_refl m, taken_flush.2 ⟨pending, inside⟩⟩
  cases attempt with
  | none => exact tracks
  | some a =>
      intro log mem
      obtain ⟨factory, inside, _⟩ := mem_factoryLogs.1 mem
      obtain ⟨m, le, known⟩ := informed a rfl log mem
      by_cases early : m < tx.interval.1
      · exact .inr ⟨m, known, early⟩
      · have within : Inside tx.interval m := ⟨Int.not_lt.1 early, Int.le_trans le inside.2⟩
        exact .inl ((tracks _ factory m known within).le le)

/-- Behind the flush, with nothing left of it. -/
theorem flushed_sound (tx : Transaction F A K) {attempt : Option Nat} (nothing : tx.found = [])
    (remembers : Remembers storeKey s tx) (owes : Owes sources chain storeKey s tx [] attempt) :
    TxSound sources chain storeKey s
      { tx with stage := flushed sources chain tx.interval attempt } := by
  cases attempt with
  | none =>
      refine ⟨fun e mem => ?_, remembers, owes, fun log mem => mem, fun log mem => .inl mem⟩
      have mem : e ∈ tx.found := mem
      rw [nothing] at mem
      cases mem
  | some k => exact ⟨nothing, remembers, owes⟩

theorem flushed_live (attempt : Option Nat) (interval : Interval) :
    (flushed sources chain interval attempt : Stage F A K).isRolledBack = false := by
  cases attempt <;> rfl

/-- When a flush is one too many for a transaction that is open: what goes with the oldest one is
stored. -/
theorem Ledger.evicted (ledger : Ledger sources settings chain storeKey s)
    (here : s.transactions[i]? = some tx) (live : tx.stage.isRolledBack = false)
    (open_ : tx.stage.isCommitted = false)
    (none_ : s.pendingFlushes.get? tx.interval = none)
    (harmless : MAX_PENDING_FLUSHES ≤ s.pendingFlushes.size →
      ∀ oldest ∈ s.pendingFlushes.keys.head?, ∃ other ∈ s.transactions,
        other.interval = oldest ∧ other.stage.isCommitted = true) {own flush : Flush F A}
    (remembered : (s.pendingFlushes.set tx.interval own).get? interval = some flush)
    (many : MAX_PENDING_FLUSHES < (s.pendingFlushes.set tx.interval own).size)
    (first : (s.pendingFlushes.set tx.interval own).keys.head? = some interval) :
    interval ≠ tx.interval ∧ ∀ e ∈ flush.entries, Inserted storeKey s.store e.1 e.2 := by
  rw [OrdMap.size_set, none_] at many
  have many : MAX_PENDING_FLUSHES ≤ s.pendingFlushes.size := Nat.lt_succ_iff.1 many
  cases oldest : s.pendingFlushes.keys.head? with
  | none =>
      have empty : s.pendingFlushes.size = 0 := by
        rw [OrdMap.size, ← List.length_map Prod.fst]
        exact congrArg List.length (List.head?_eq_none_iff.1 oldest)
      rw [empty] at many
      cases many
  | some oldest' =>
      rw [OrdMap.head?_keys_set oldest] at first
      cases first
      obtain ⟨owner, mem, rfl, committed⟩ := harmless many interval oldest
      have stage := Stage.eq_committed committed
      have apart : owner.interval ≠ tx.interval := by
        rcases ledger.others here live mem with rfl | ⟨_, rolled⟩ | apart
        · rw [open_] at committed
          cases committed
        · rw [stage] at rolled
          cases rolled
        · exact apart.ne (ledger.ordered tx (List.mem_of_getElem? here))
      refine ⟨apart, ?_⟩
      rw [OrdMap.get?_set_of_ne _ _ apart] at remembered
      have kept := ledger.transactions owner mem
      unfold TxSound at kept
      rw [stage] at kept
      exact kept.2.1 flush remembered

/-- The queue is drained, and the flush is remembered. -/
theorem Ledger.drained (ledger : Ledger sources settings chain storeKey s)
    (here : s.transactions[i]? = some tx) (live : tx.stage.isRolledBack = false)
    (open_ : tx.stage.isCommitted = false)
    (none_ : s.pendingFlushes.get? tx.interval = none)
    (harmless : MAX_PENDING_FLUSHES ≤ s.pendingFlushes.size →
      ∀ oldest ∈ s.pendingFlushes.keys.head?, ∃ other ∈ s.transactions,
        other.interval = oldest ∧ other.stage.isCommitted = true) :
    Books sources settings chain storeKey
      { s with
        sync := s.sync.requeue (s.rest tx.interval)
        pendingFlushes := pruned (s.pendingFlushes.set tx.interval (s.taken tx.interval)) } := by
  obtain ⟨sound, spanned, loaded, queued, flushes, accounted⟩ := ledger.books
  refine ⟨sound.requeue _, spanned.same rfl rfl, loaded,
    fun k v pending => queued k v (taken_rest.1 pending).1, fun other flush remembered => ?_,
    fun k factory m known => ?_⟩
  · have remembered := get?_of_pruned remembered
    rw [OrdMap.get?_set] at remembered
    split at remembered
    · next same =>
        cases remembered
        subst same
        exact ⟨⟨tx, List.mem_of_getElem? here, rfl⟩, fun e mem => (taken_flush.1 mem).2,
          fun e mem => queued e.1 e.2 (taken_flush.1 mem).1⟩
    · obtain ⟨owner, inside, known⟩ := flushes other flush remembered
      exact ⟨owner, inside, known⟩
  · cases accounted k factory m known with
    | stored inserted => exact .stored inserted
    | queued pending =>
        by_cases inside : Inside tx.interval m
        · have entry := taken_flush.2 ⟨pending, inside⟩
          have set_ := OrdMap.get?_set_self s.pendingFlushes tx.interval (s.taken tx.interval)
          rcases get?_pruned set_ with kept | ⟨many, first⟩
          · exact .flushed kept entry
          · exact absurd rfl (ledger.evicted here live open_ none_ harmless set_ many first).1
        · exact .queued (taken_rest.2 ⟨pending, inside⟩)
    | @flushed other flush remembered entry =>
        have ne : other ≠ tx.interval := by
          rintro rfl
          rw [none_] at remembered
          cases remembered
        have set_ := (OrdMap.get?_set_of_ne _ (s.taken tx.interval) ne).trans remembered
        rcases get?_pruned set_ with kept | ⟨many, first⟩
        · exact .flushed kept entry
        · exact .stored
            ((ledger.evicted here live open_ none_ harmless set_ many first).2 _ entry)
    | found mem open_ entry => exact .found mem open_ entry

/-! ## Every turn keeps the ledger -/

theorem TxSound.unfold {stage : Stage F A K} (sound : TxSound sources chain storeKey s tx)
    (is : tx.stage = stage) : TxSound sources chain storeKey s { tx with stage } := by
  subst is
  exact sound

/-- Whatever the attempts do by themselves. -/
theorem Ledger.moved (on : settings.checks ≠ .off) (stored : Stored sources chain)
    (ledger : Ledger sources settings chain storeKey s) {a : SyncAction F A}
    (may : s.sync.Allowed sources chain a) {sync : RangeSync F A T R}
    (taken : s.sync.step sources settings chain a = some sync) :
    RangeSync.Sound sources settings chain sync ∧
      sync.cache.Spanned (sources.syncDeps settings chain) :=
  ⟨ledger.books.sound.step on stored may taken,
    ledger.books.sound.spanned on ledger.books.spanned may taken⟩

theorem Ledger.serve (on : settings.checks ≠ .off) (stored : Stored sources chain)
    (ledger : Ledger sources settings chain storeKey s) (here : s.transactions[i]? = some tx)
    (stage : tx.stage = .entered) (may : s.sync.Allowed sources chain (.serve tx.interval))
    {sync : RangeSync F A T R}
    (taken : s.sync.serve sources settings chain tx.interval = some sync) :
    Ledger sources settings chain storeKey (({ s with sync } : Durable F A T R K).set i
      { tx with stage := .fetching s.sync.attempts.length }) := by
  obtain ⟨sound, spanned⟩ := ledger.moved on stored may taken
  have mine := (ledger.transactions tx (List.mem_of_getElem? here)).unfold stage
  refine ledger.synced here (by rw [stage]; rfl) sound spanned (.serve on taken) rfl ?_
    ⟨mine.1, mine.2, ?_⟩
  · exact fun e mem => ⟨mem, rfl⟩
  · unfold RangeSync.serve at taken
    split at taken
    · cases taken
    · split at taken
      · cases taken
      · cases taken
        refine ⟨_, List.getElem?_concat_length, ?_⟩
        split <;> rfl

/-- Behind the flush, whether there is one or not. -/
theorem Ledger.persist (ledger : Ledger sources settings chain storeKey s)
    (here : s.transactions[i]? = some tx) (live : tx.stage.isRolledBack = false)
    (open_ : tx.stage.isCommitted = false) (nothing : tx.found = [])
    (none_ : s.pendingFlushes.get? tx.interval = none)
    (harmless : (s.taken tx.interval).entries ≠ [] →
      MAX_PENDING_FLUSHES ≤ s.pendingFlushes.size →
        ∀ oldest ∈ s.pendingFlushes.keys.head?, ∃ other ∈ s.transactions,
          other.interval = oldest ∧ other.stage.isCommitted = true) {attempt : Option Nat}
    (informed : ∀ k ∈ attempt, ∀ log ∈ sources.factoryLogs chain tx.interval,
      ∃ m ≤ (log.2.1 : Int), s.known (log.1, log.2.2) = some m) :
    Ledger sources settings chain storeKey
      (s.persistPendingChildren sources chain i tx attempt) := by
  have owes := ledger.owes here live none_ nothing informed
  unfold persistPendingChildren
  dsimp only
  split
  · next empty =>
      have empty : (s.taken tx.interval).entries = [] := List.isEmpty_iff.1 empty
      rw [empty] at owes
      -- nothing leaves the queue
      have proceeds : RangeSync.Proceeds (fun _ _ _ => False) s.sync
          (s.sync.requeue (s.rest tx.interval)) := by
        refine ⟨fun f c => .inl ⟨rfl, Option.ext fun v => ?_⟩, fun k att here => ⟨att, here, rfl⟩⟩
        show (s.rest tx.interval).get? (f, c) = some v ↔ s.queue (f, c) = some v
        rw [taken_rest]
        refine ⟨fun both => both.1, fun pending => ⟨pending, fun inside => ?_⟩⟩
        have entry := taken_flush.2 ⟨pending, inside⟩
        rw [empty] at entry
        cases entry
      refine ledger.synced here live (ledger.books.sound.requeue _)
        (ledger.books.spanned.same rfl rfl) proceeds rfl
        (fun e mem => ⟨mem, flushed_live attempt tx.interval⟩)
        (flushed_sound tx nothing (fun flush remembered => ?_) ?_)
      · rw [none_] at remembered
        cases remembered
      · exact (show Owes sources chain storeKey s tx [] attempt from owes)
  · next some_ =>
      have some_ : (s.taken tx.interval).entries ≠ [] := fun empty =>
        some_ (List.isEmpty_iff.2 empty)
      have books := ledger.drained here live open_ none_ (harmless some_)
      refine ledger.turned here live rfl rfl
        (books.set here rfl fun e mem => ⟨mem, rfl⟩) ?_ ⟨nothing, ⟨fun e mem => ?_, ?_⟩, ?_⟩
      · refine ⟨fun _ mem => mem, fun other ne flush remembered => ?_,
          fun k att here => ⟨att, here, rfl⟩, fun k m known => ⟨m, Int.le_refl m, known⟩,
          fun k m known => .inl known⟩
        have remembered := get?_of_pruned remembered
        rw [OrdMap.get?_set_of_ne _ _ ne] at remembered
        exact remembered
      · exact ledger.books.queued e.1 e.2 (taken_flush.1 mem).1
      · intro other remembered
        have remembered := get?_of_pruned remembered
        rw [OrdMap.get?_set_self] at remembered
        exact (Option.some.inj remembered).symm
      · cases attempt with
        | none => exact owes
        | some k => exact owes

/-- The chunks of an attempt are there: the children of its interval are known. -/
theorem Ledger.informed (ledger : Ledger sources settings chain storeKey s)
    (here : s.transactions[i]? = some tx) {k : Nat} {att : Attempt A T}
    (stage : tx.stage = .fetching k) (at_ : s.sync.attempts[k]? = some att)
    (waits : att.status = .waiting)
    (done : ∀ call ∈ att.calls, s.sync.cache.promiseOf call = some .done) :
    ∀ log ∈ sources.factoryLogs chain tx.interval,
      ∃ m ≤ (log.2.1 : Int), s.known (log.1, log.2.2) = some m := by
  intro log mem
  have inTable := List.mem_of_getElem? here
  obtain ⟨_, _, att', at_', same⟩ := (ledger.transactions tx inTable).unfold stage
  cases at_.symm.trans at_'
  have same : att.interval = tx.interval := same
  obtain ⟨factory, inside, created⟩ := mem_factoryLogs.1 mem
  obtain ⟨b, known, reach⟩ := ledger.books.sound.discovered ledger.books.spanned
    (List.mem_of_getElem? at_) waits done
  have within : (log.2.1 : Int) ≤ b := by
    have high : (log.2.1 : Int) ≤ tx.interval.2 := inside.2
    rcases reach with le | ⟨n, isEnd, le⟩
    · rw [same] at le
      omega
    · have ended := ledger.ends tx inTable n isEnd
      omega
  obtain ⟨m, has, le⟩ := known log.1 factory log.2.1 within log.2.2 created
  exact ⟨m, le, has_iff.1 has⟩

/-- What is owed with a flush is owed without it once it is inserted. -/
theorem Owes.inserted {left : List ((F × A) × Int)} {attempt : Option Nat}
    {rows : List (StoredChild K A)} (owes : Owes sources chain storeKey s tx left attempt)
    (inserted : ∀ e ∈ left, Inserted storeKey (s.store ++ (tx.rows ++ rows)) e.1 e.2) :
    Owes sources chain storeKey s { tx with rows := tx.rows ++ rows } [] attempt := by
  cases attempt with
  | none =>
      exact fun k factory m known inside =>
        .inl ((owes k factory m known inside).inserted inserted)
  | some a =>
      exact fun log mem => (owes log mem).imp_left fun holds => .inl (holds.inserted inserted)

theorem Ledger.insert (ledger : Ledger sources settings chain storeKey s)
    (here : s.transactions[i]? = some tx) {attempt : Option Nat} {flush : Flush F A}
    {rows : List (StoredChild K A)} (stage : tx.stage = .inserting attempt flush rows) :
    Ledger sources settings chain storeKey (s.set i { tx with
      rows := tx.rows ++ rows
      stage := flushed sources chain tx.interval attempt }) := by
  obtain ⟨nothing, flushing, owes, inserted⟩ :=
    (ledger.transactions tx (List.mem_of_getElem? here)).unfold stage
  have owes : Owes sources chain storeKey s tx flush.entries attempt := by
    cases attempt with
    | none => exact owes
    | some k => exact owes
  refine ledger.set here (by rw [stage]; rfl) rfl
    (fun e mem => ⟨mem, flushed_live attempt tx.interval⟩)
    (flushed_sound { tx with rows := tx.rows ++ rows } nothing
      (fun other remembered e mem => ?_) (owes.inserted inserted))
  cases flushing.remembered other remembered
  exact inserted e mem

/-- An attempt fails, if there is one. -/
theorem abort_proceeds (s : Durable F A T R K) (attempt : Option Nat) :
    RangeSync.Proceeds (fun _ _ _ => False) s.sync (s.abort attempt) := by
  cases attempt with
  | none => exact .moved (.of_eq rfl)
  | some k =>
      rw [abort]
      cases aborted : s.sync.abort k with
      | none => exact .moved (.of_eq rfl)
      | some sync => exact .abort aborted

theorem Ledger.aborted (on : settings.checks ≠ .off) (stored : Stored sources chain)
    (ledger : Ledger sources settings chain storeKey s) (attempt : Option Nat) :
    RangeSync.Sound sources settings chain (s.abort attempt) ∧
      (s.abort attempt).cache.Spanned (sources.syncDeps settings chain) ∧
      RangeSync.Proceeds (fun _ _ _ => False) s.sync (s.abort attempt) := by
  refine and_assoc.1 ⟨?_, abort_proceeds s attempt⟩
  cases attempt with
  | none => exact ⟨ledger.books.sound, ledger.books.spanned⟩
  | some k =>
      rw [abort]
      cases aborted : s.sync.abort k with
      | none => exact ⟨ledger.books.sound, ledger.books.spanned⟩
      | some sync => exact ledger.moved on stored (a := .abort k) trivial aborted

/-- The read or an insert throws: the flush is queued again. -/
theorem Ledger.reject (on : settings.checks ≠ .off) (stored : Stored sources chain)
    (ledger : Ledger sources settings chain storeKey s) (here : s.transactions[i]? = some tx)
    {attempt : Option Nat} {flush : Flush F A} (live : tx.stage.isRolledBack = false)
    (nothing : tx.found = []) (flushing : Flushing s tx flush) :
    Ledger sources settings chain storeKey
      ((({ s with sync := s.abort attempt } : Durable F A T R K).restore tx.interval flush).set i
        { tx with stage := .rolledBack }) := by
  obtain ⟨sound, spanned, proceeds⟩ := ledger.aborted on stored attempt
  have books := ledger.books.sync sound spanned proceeds.queues
  have restored : Books sources settings chain storeKey
      (({ s with sync := s.abort attempt } : Durable F A T R K).restore tx.interval flush) :=
    books.restore (fun e mem => by
      obtain ⟨m, le, known⟩ := flushing.known e mem
      obtain ⟨m', lower, known'⟩ := Queued.lower proceeds.queues e.1 known
      exact ⟨m', Int.le_trans lower le, known'⟩)
    flushing.remembered
  refine ledger.turned here live rfl rfl (restored.set here rfl fun e mem => ?_)
    ((Frame.sync proceeds tx.interval).trans (.restore _ _ _)) trivial
  rw [nothing] at mem
  cases mem

/-! ## The RPC historical sync -/

/-- The RPC historical sync records a child. -/
def shared (s : Durable F A T R K) (f : F) (b : Nat) (c : A) : Durable F A T R K :=
  { s with sync := { s.sync with cache := s.sync.cache.share f b c } }

omit [DecidableEq T] in
theorem known_shared {f : F} {b : Nat} {c : A} (unknown : s.known (f, c) = none) (k : F × A) :
    (s.shared f b c).known k = if k = (f, c) then some (b : Int) else s.known k := by
  have absent : (s.sync.cache.disc.disc.childAddresses f).get? c = none := unknown
  show ((s.sync.cache.disc.disc.record f b c).childAddresses k.1).get? k.2 = _
  rw [record_children, absent]
  by_cases same : k = (f, c)
  · rw [if_pos same, if_pos (Prod.mk.inj same)]
    rfl
  · rw [if_neg same, if_neg fun both => same (Prod.ext both.1 both.2)]
    rfl

omit [DecidableEq T] in
theorem known_shared_of {f : F} {b : Nat} {c : A} (unknown : s.known (f, c) = none) {k : F × A}
    {m : Int} (known : s.known k = some m) : (s.shared f b c).known k = some m := by
  have other : k ≠ (f, c) := by
    rintro rfl
    rw [unknown] at known
    cases known
  rw [known_shared unknown, if_neg other]
  exact known

theorem Books.shared (books : Books sources settings chain storeKey s) {f : F} {b : Nat} {c : A}
    (unknown : s.known (f, c) = none)
    (sound : RangeSync.Sound sources settings chain (s.shared f b c).sync)
    (spanned : (s.shared f b c).sync.cache.Spanned (sources.syncDeps settings chain))
    (mem : tx ∈ s.transactions) (live : tx.stage.isRolledBack = false)
    (entry : ((f, c), (b : Int)) ∈ tx.found) :
    Books sources settings chain storeKey (s.shared f b c) := by
  refine ⟨sound, spanned, books.loaded, fun k v pending => ?_, fun other flush remembered => ?_,
    fun k factory m known => ?_⟩
  · obtain ⟨m, le, known⟩ := books.queued k v pending
    exact ⟨m, le, known_shared_of unknown known⟩
  · obtain ⟨owner, inside, known⟩ := books.flushes other flush remembered
    refine ⟨owner, inside, fun e mem => ?_⟩
    obtain ⟨m, le, known⟩ := known e mem
    exact ⟨m, le, known_shared_of unknown known⟩
  · rw [known_shared unknown] at known
    split at known
    · next same =>
        cases known
        subst same
        exact .found mem live entry
    · cases books.accounted k factory m known with
      | stored inserted => exact .stored inserted
      | queued pending => exact .queued pending
      | flushed remembered entry => exact .flushed remembered entry
      | found mem live entry => exact .found mem live entry

omit [DecidableEq T] in
theorem Frame.shared {f : F} {b : Nat} {c : A} (unknown : s.known (f, c) = none)
    (inside : Inside interval b) : Frame s (s.shared f b c) interval := by
  refine ⟨fun _ mem => mem, fun _ _ _ here => here, fun k att here => ⟨att, here, rfl⟩,
    fun k m known => ⟨m, Int.le_refl m, known_shared_of unknown known⟩, fun k m known => ?_⟩
  rw [known_shared unknown] at known
  split at known
  · cases known
    exact .inr inside
  · exact .inl known

/-- A log that is taken up leaves the others. -/
theorem mem_eraseIdx {α : Type} {l : List α} {j : Nat} {x y : α} (at_ : l[j]? = some x)
    (mem : y ∈ l) : y = x ∨ y ∈ l.eraseIdx j := by
  obtain ⟨m, there⟩ := List.mem_iff_getElem?.1 mem
  by_cases same : m = j
  · subst same
    exact .inl (Option.some.inj (there.symm.trans at_))
  · exact .inr (List.mem_eraseIdx_iff_getElem?.2 ⟨m, same, there⟩)

/-- The RPC historical sync takes up a factory log: the child is inserted, or it is known from no
later block, and then it is held or known from below the interval. -/
theorem Ledger.record (on : settings.checks ≠ .off) (stored : Stored sources chain)
    (ledger : Ledger sources settings chain storeKey s) (here : s.transactions[i]? = some tx)
    {todo : List (F × Nat × A)} {j : Nat} {f : F} {b : Nat} {c : A}
    (stage : tx.stage = .delegated todo) (at_ : todo[j]? = some (f, b, c))
    (harmless : ∀ m ∈ s.known (f, c), m ≤ (b : Int)) :
    Ledger sources settings chain storeKey (s.takeUp storeKey i tx (todo.eraseIdx j) f b c) := by
  have live : tx.stage.isRolledBack = false := by rw [stage]; rfl
  obtain ⟨found, remembers, tracks, ofInterval, covers⟩ :=
    (ledger.transactions tx (List.mem_of_getElem? here)).unfold stage
  have isLog := ofInterval _ (List.mem_of_getElem? at_)
  obtain ⟨factory, inside, created⟩ := mem_factoryLogs.1 isLog
  have ofRest : ∀ log ∈ todo.eraseIdx j, log ∈ sources.factoryLogs chain tx.interval :=
    fun log mem => ofInterval log (List.mem_of_mem_eraseIdx mem)
  cases known : s.known (f, c) with
  | some m =>
      have skip : s.takeUp storeKey i tx (todo.eraseIdx j) f b c =
          s.set i { tx with stage := .delegated (todo.eraseIdx j) } := by
        have present : ((s.disc.childAddresses f).get? c).isSome = true := by
          rw [show (s.disc.childAddresses f).get? c = some m from known]
          rfl
        rw [takeUp, if_pos present]
      rw [skip]
      refine ledger.set here live rfl (fun e mem => ⟨mem, rfl⟩)
        ⟨found, remembers, tracks, ofRest, fun log mem => ?_⟩
      rcases covers log mem with waits | covered
      · rcases mem_eraseIdx at_ waits with rfl | later
        · refine .inr ?_
          have le := harmless m known
          by_cases early : m < tx.interval.1
          · exact .inr ⟨m, known, early⟩
          · have within : Inside tx.interval m :=
              ⟨Int.not_lt.1 early, Int.le_trans le inside.2⟩
            exact .inl ((tracks _ factory m known within).le le)
        · exact .inl later
      · exact .inr covered
  | none =>
      have fresh : s.takeUp storeKey i tx (todo.eraseIdx j) f b c =
          (s.shared f b c).set i { tx with
            stage := .delegated (todo.eraseIdx j)
            rows := tx.rows ++ [((storeKey f, c), (b : Int))]
            found := tx.found ++ [((f, c), (b : Int))] } := by
        have absent : ¬((s.disc.childAddresses f).get? c).isSome = true := by
          rw [show (s.disc.childAddresses f).get? c = none from known]
          exact Bool.false_ne_true
        rw [takeUp, if_neg absent]
        rfl
      rw [fresh]
      have row : ∀ r ∈ s.store ++ tx.rows,
          r ∈ s.store ++ (tx.rows ++ [((storeKey f, c), (b : Int))]) := by
        intro r mem
        rw [← List.append_assoc]
        exact List.mem_append_left _ mem
      have own : Inserted storeKey (s.store ++ (tx.rows ++ [((storeKey f, c), (b : Int))]))
          (f, c) b := ⟨b, Int.le_refl _, by simp⟩
      obtain ⟨sound, spanned⟩ := ledger.moved on stored (a := .share f b c) created rfl
      have books : Books sources settings chain storeKey (s.set i { tx with
          stage := .delegated (todo.eraseIdx j)
          rows := tx.rows ++ [((storeKey f, c), (b : Int))]
          found := tx.found ++ [((f, c), (b : Int))] }) :=
        ledger.books.set here rfl fun e mem => ⟨List.mem_append_left _ mem, rfl⟩
      refine ledger.turned here live rfl rfl
        (Books.shared books known sound spanned (List.mem_of_getElem?
          (List.getElem?_set_self (List.getElem?_eq_some_iff.1 here).1)) rfl
          (List.mem_append_right _ (List.mem_singleton.2 rfl)))
        (.shared known inside) ⟨fun e mem => ?_, fun flush remembered e mem => ?_,
          fun k itsFactory m isKnown within => ?_, ofRest, fun log mem => ?_⟩
      · rcases List.mem_append.1 mem with old | new
        · exact found e old
        · rw [List.mem_singleton.1 new]
          exact inside
      · exact (remembers flush remembered e mem).mono row
      · rw [known_shared known] at isKnown
        split at isKnown
        · next same =>
            cases isKnown
            subst same
            exact .inl own
        · exact (tracks k itsFactory m isKnown within).mono row
      · rcases covers log mem with waits | covered
        · rcases mem_eraseIdx at_ waits with rfl | later
          · exact .inr (.inl (.inl own))
          · exact .inl later
        · exact .inr (covered.mono row rfl fun k m before =>
            ⟨m, Int.le_refl m, known_shared_of known before⟩)

/-! ## The end of a transaction -/

/-- The attempt assembles its rows, or it fails. -/
theorem Ledger.finish (on : settings.checks ≠ .off) (stored : Stored sources chain)
    (ledger : Ledger sources settings chain storeKey s) (here : s.transactions[i]? = some tx)
    {k : Nat} (stage : tx.stage = .assembling k) {saturated : Bool} {sync : RangeSync F A T R}
    (taken : s.sync.finish sources settings chain k saturated = some sync) :
    Ledger sources settings chain storeKey (({ s with sync } : Durable F A T R K).set i
      { tx with stage := if isResolved sync k = true then .served else .rolledBack }) := by
  have live : tx.stage.isRolledBack = false := by rw [stage]; rfl
  obtain ⟨sound, spanned⟩ := ledger.moved on stored (a := .finish k saturated) trivial taken
  have proceeds : RangeSync.Proceeds (fun _ _ _ => False) s.sync sync := .finish on taken
  obtain ⟨nothing, remembers, owes⟩ :=
    (ledger.transactions tx (List.mem_of_getElem? here)).unfold stage
  have none_ : ∀ e ∈ tx.found, False := fun e mem => by
    have nothing : tx.found = [] := nothing
    rw [nothing] at mem
    cases mem
  refine ledger.synced here live sound spanned proceeds rfl (fun e mem => (none_ e mem).elim) ?_
  by_cases resolved : isResolved sync k = true
  · rw [if_pos resolved]
    exact ⟨fun e mem => (none_ e mem).elim, remembers, fun log mem =>
      (owes log mem).mono (fun r row => row) rfl (Frame.sync proceeds tx.interval).lower⟩
  · rw [if_neg resolved]
    trivial

/-- The RPC historical sync has taken up every log. -/
theorem Ledger.resolve (ledger : Ledger sources settings chain storeKey s)
    (here : s.transactions[i]? = some tx) (stage : tx.stage = .delegated []) :
    Ledger sources settings chain storeKey (s.set i { tx with stage := .served }) := by
  obtain ⟨found, remembers, _, _, covers⟩ :=
    (ledger.transactions tx (List.mem_of_getElem? here)).unfold stage
  refine ledger.set here (by rw [stage]; rfl) rfl (fun e mem => ⟨mem, rfl⟩)
    ⟨found, remembers, fun log mem => (covers log mem).resolve_left List.not_mem_nil⟩

/-- A child of an interval that is served is stored when it is committed. -/
theorem Ledger.kept (ledger : Ledger sources settings chain storeKey s)
    (here : s.transactions[i]? = some tx) (stage : tx.stage = .served) {log : F × Nat × A}
    (mem : log ∈ sources.factoryLogs chain tx.interval)
    (harmless : (∀ r ∈ tx.rows, r.1 = (storeKey log.1, log.2.2) → (log.2.1 : Int) < r.2) →
      ∀ m ∈ s.known (log.1, log.2.2), m < (tx.interval.1 : Int) →
        ∃ n < tx.interval.1, sources.preloaded.Has log.1 log.2.2 n ∨
          log.2.2 ∈ sources.creations chain log.1 n ∧ s.isCommittedAt n = true) :
    Inserted storeKey (s.store ++ tx.rows) (log.1, log.2.2) log.2.1 := by
  obtain ⟨_, _, covers⟩ := (ledger.transactions tx (List.mem_of_getElem? here)).unfold stage
  obtain ⟨factory, inside, _⟩ := mem_factoryLogs.1 mem
  rcases covers log mem with holds | ⟨m, known, early⟩
  · exact holds.resolve_right fun ⟨_, _, never⟩ => List.not_mem_nil never
  · by_cases own : ∀ r ∈ tx.rows, r.1 = (storeKey log.1, log.2.2) → (log.2.1 : Int) < r.2
    · obtain ⟨n, below, has⟩ := harmless own m known early
      have le : (n : Int) ≤ log.2.1 := by
        have low : (tx.interval.1 : Int) ≤ log.2.1 := inside.1
        omega
      rcases has with loaded | ⟨created, committed⟩
      · exact ((ledger.books.loaded log.1 factory log.2.2 n loaded).le le).mono fun r row =>
          List.mem_append_left _ row
      · obtain ⟨other, inTable, is⟩ := List.any_eq_true.1 committed
        rw [Bool.and_eq_true, decide_eq_true_eq] at is
        obtain ⟨_, _, all⟩ :=
          (ledger.transactions other inTable).unfold (Stage.eq_committed is.1)
        have itsLog : (log.1, n, log.2.2) ∈ sources.factoryLogs chain other.interval :=
          mem_factoryLogs.2 ⟨factory, ⟨Int.ofNat_le.2 is.2.1, Int.ofNat_le.2 is.2.2⟩, created⟩
        exact ((all _ itsLog).le le).mono fun r row => List.mem_append_left _ row
    · simp only [not_forall, Int.not_lt] at own
      obtain ⟨r, row, same, le⟩ := own
      exact ⟨r.2, le, List.mem_append_right _ (by rw [← same]; exact row)⟩

theorem Books.commit (books : Books sources settings chain storeKey s)
    (rows : List (StoredChild K A)) :
    Books sources settings chain storeKey { s with store := s.store ++ rows } := by
  refine ⟨books.sound, books.spanned, fun f factory c m loaded => ?_, books.queued,
    fun other flush remembered => ?_, fun k factory m known => ?_⟩
  · exact (books.loaded f factory c m loaded).mono fun r row => List.mem_append_left _ row
  · obtain ⟨owner, inside, known⟩ := books.flushes other flush remembered
    exact ⟨owner, inside, known⟩
  · cases books.accounted k factory m known with
    | stored inserted => exact .stored (inserted.mono fun r row => List.mem_append_left _ row)
    | queued pending => exact .queued pending
    | flushed remembered entry => exact .flushed remembered entry
    | found mem live entry => exact .found mem live entry

theorem Ledger.commit (ledger : Ledger sources settings chain storeKey s)
    (here : s.transactions[i]? = some tx) (stage : tx.stage = .served)
    (harmless : ∀ log ∈ sources.factoryLogs chain tx.interval,
      (∀ r ∈ tx.rows, r.1 = (storeKey log.1, log.2.2) → (log.2.1 : Int) < r.2) →
        ∀ m ∈ s.known (log.1, log.2.2), m < (tx.interval.1 : Int) →
          ∃ n < tx.interval.1, sources.preloaded.Has log.1 log.2.2 n ∨
            log.2.2 ∈ sources.creations chain log.1 n ∧ s.isCommittedAt n = true) :
    Ledger sources settings chain storeKey
      (({ s with store := s.store ++ tx.rows } : Durable F A T R K).set i
        { tx with stage := .committed }) := by
  obtain ⟨found, remembers, _⟩ :=
    (ledger.transactions tx (List.mem_of_getElem? here)).unfold stage
  exact ledger.turned here (by rw [stage]; rfl) rfl rfl
    ((ledger.books.commit tx.rows).set here rfl fun e mem => ⟨mem, rfl⟩)
    (.stored s tx.interval tx.rows)
    ⟨found, remembers, fun log mem => ledger.kept here stage mem (harmless log mem)⟩

/-- A transaction is rolled back, and the RPC historical sync has recorded nothing for it. -/
theorem Ledger.rollback (on : settings.checks ≠ .off) (stored : Stored sources chain)
    (ledger : Ledger sources settings chain storeKey s) (here : s.transactions[i]? = some tx)
    (live : tx.stage.isRolledBack = false) (nothing : tx.found = []) (attempt : Option Nat) :
    Ledger sources settings chain storeKey
      (({ s with sync := s.abort attempt } : Durable F A T R K).set i
        { tx with stage := .rolledBack }) := by
  obtain ⟨sound, spanned, proceeds⟩ := ledger.aborted on stored attempt
  refine ledger.synced here live sound spanned proceeds rfl (fun e mem => ?_) trivial
  rw [nothing] at mem
  cases mem

/-! ## What a turn does -/

section Turn

variable [DecidableEq K] (sources settings chain storeKey) (s i tx)

/-- What a turn can do. -/
inductive Took : Turn → Durable F A T R K → Prop where
  | serve {sync : RangeSync F A T R} (stage : tx.stage = .entered)
      (moved : s.sync.serve sources settings chain tx.interval = some sync) :
      Took .serve (({ s with sync } : Durable F A T R K).set i
        { tx with stage := .fetching s.sync.attempts.length })
  | delegate (stage : tx.stage = .entered) :
      Took .delegate (s.persistPendingChildren sources chain i tx none)
  | persist {k : Nat} {att : Attempt A T} (stage : tx.stage = .fetching k)
      (here : s.sync.attempts[k]? = some att) (waits : att.status = .waiting)
      (done : ∀ call ∈ att.calls, s.sync.cache.promiseOf call = some .done) :
      Took .persist (s.persistPendingChildren sources chain i tx (some k))
  | read {attempt : Option Nat} {flush : Flush F A} (stage : tx.stage = .reading attempt flush) :
      Took .read (s.set i { tx with
        stage := .inserting attempt flush (dedupeAgainst storeKey flush (s.store ++ tx.rows)) })
  | insert {attempt : Option Nat} {flush : Flush F A} {rows : List (StoredChild K A)}
      (stage : tx.stage = .inserting attempt flush rows) :
      Took .insert (s.set i { tx with
        rows := tx.rows ++ rows
        stage := flushed sources chain tx.interval attempt })
  | reject {attempt : Option Nat} {flush : Flush F A}
      (stage : tx.stage = .reading attempt flush ∨
        ∃ rows, tx.stage = .inserting attempt flush rows) :
      Took .reject ((({ s with sync := s.abort attempt } : Durable F A T R K).restore tx.interval
        flush).set i { tx with stage := .rolledBack })
  | record {j : Nat} {todo : List (F × Nat × A)} {f : F} {b : Nat} {c : A}
      (stage : tx.stage = .delegated todo) (at_ : todo[j]? = some (f, b, c)) :
      Took (.record j) (s.takeUp storeKey i tx (todo.eraseIdx j) f b c)
  | finish {k : Nat} {saturated : Bool} {sync : RangeSync F A T R}
      (stage : tx.stage = .assembling k)
      (moved : s.sync.finish sources settings chain k saturated = some sync) :
      Took (.finish saturated) (({ s with sync } : Durable F A T R K).set i
        { tx with stage := if isResolved sync k = true then .served else .rolledBack })
  | resolve (stage : tx.stage = .delegated []) :
      Took .resolve (s.set i { tx with stage := .served })
  | commit (stage : tx.stage = .served) :
      Took .commit (({ s with store := s.store ++ tx.rows } : Durable F A T R K).set i
        { tx with stage := .committed })
  | drop (stage : tx.stage = .entered ∨ (∃ todo, tx.stage = .delegated todo) ∨ tx.stage = .served) :
      Took .rollback (s.set i { tx with stage := .rolledBack })
  | abort {k : Nat} {sync : RangeSync F A T R} (stage : tx.stage = .fetching k)
      (moved : s.sync.abort k = some sync) :
      Took .rollback (({ s with sync } : Durable F A T R K).set i
        { tx with stage := .rolledBack })
  | fail {k : Nat} (stage : tx.stage = .assembling k) :
      Took .rollback (({ s with sync := s.abort (some k) } : Durable F A T R K).set i
        { tx with stage := .rolledBack })

variable {sources settings chain storeKey s i tx} {t : Durable F A T R K} {turn : Turn}

theorem turn_cases (taken : s.turn sources settings chain storeKey i tx turn = some t) :
    s.Took sources settings chain storeKey tx i turn t := by
  cases turn with
  | serve =>
      cases stage : tx.stage <;> simp only [Durable.turn, stage, reduceCtorEq] at taken
      obtain ⟨sync, moved, rfl⟩ := Option.map_eq_some_iff.1 taken
      exact .serve stage moved
  | delegate =>
      cases stage : tx.stage <;> simp only [Durable.turn, stage, reduceCtorEq] at taken
      split at taken
      · cases taken
        exact .delegate stage
      · cases taken
  | persist =>
      cases stage : tx.stage <;> simp only [Durable.turn, stage, reduceCtorEq] at taken
      split at taken
      · cases taken
      · next att here =>
          split at taken
          · next can =>
              cases taken
              refine .persist stage here can.1 fun call inCalls => ?_
              have is := List.all_eq_true.1 can.2 call inCalls
              split at is
              · assumption
              · cases is
          · cases taken
  | read =>
      cases stage : tx.stage <;> simp only [Durable.turn, stage, reduceCtorEq] at taken
      cases taken
      exact .read stage
  | insert =>
      cases stage : tx.stage <;> simp only [Durable.turn, stage, reduceCtorEq] at taken
      cases taken
      exact .insert stage
  | reject =>
      cases stage : tx.stage with
      | reading attempt flush =>
          simp only [Durable.turn, stage] at taken
          cases taken
          exact .reject (.inl stage)
      | inserting attempt flush rows =>
          simp only [Durable.turn, stage] at taken
          cases taken
          exact .reject (.inr ⟨rows, stage⟩)
      | _ => simp only [Durable.turn, stage, reduceCtorEq] at taken
  | record j =>
      cases stage : tx.stage <;> simp only [Durable.turn, stage, reduceCtorEq] at taken
      split at taken
      · cases taken
      · next at_ =>
          cases taken
          exact .record stage at_
  | finish saturated =>
      cases stage : tx.stage <;> simp only [Durable.turn, stage, reduceCtorEq] at taken
      obtain ⟨sync, moved, rfl⟩ := Option.map_eq_some_iff.1 taken
      exact .finish stage moved
  | resolve =>
      cases stage : tx.stage with
      | delegated todo =>
          cases todo with
          | nil =>
              simp only [Durable.turn, stage] at taken
              cases taken
              exact .resolve stage
          | cons log rest => simp only [Durable.turn, stage, reduceCtorEq] at taken
      | _ => simp only [Durable.turn, stage, reduceCtorEq] at taken
  | commit =>
      cases stage : tx.stage <;> simp only [Durable.turn, stage, reduceCtorEq] at taken
      cases taken
      exact .commit stage
  | rollback =>
      cases stage : tx.stage with
      | entered =>
          simp only [Durable.turn, stage] at taken
          cases taken
          exact .drop (.inl stage)
      | delegated todo =>
          simp only [Durable.turn, stage] at taken
          cases taken
          exact .drop (.inr (.inl ⟨todo, stage⟩))
      | served =>
          simp only [Durable.turn, stage] at taken
          cases taken
          exact .drop (.inr (.inr stage))
      | fetching k =>
          simp only [Durable.turn, stage] at taken
          obtain ⟨sync, moved, rfl⟩ := Option.map_eq_some_iff.1 taken
          exact .abort stage moved
      | assembling k =>
          simp only [Durable.turn, stage] at taken
          cases taken
          exact .fail stage
      | _ => simp only [Durable.turn, stage, reduceCtorEq] at taken

theorem Ledger.read (ledger : Ledger sources settings chain storeKey s)
    (here : s.transactions[i]? = some tx) {attempt : Option Nat} {flush : Flush F A}
    (stage : tx.stage = .reading attempt flush) :
    Ledger sources settings chain storeKey (s.set i { tx with
      stage := .inserting attempt flush
        (dedupeAgainst storeKey flush (s.store ++ tx.rows)) }) := by
  obtain ⟨nothing, flushing, owes⟩ :=
    (ledger.transactions tx (List.mem_of_getElem? here)).unfold stage
  refine ledger.set here (by rw [stage]; rfl) rfl (fun e mem => ⟨mem, rfl⟩)
    ⟨nothing, ⟨flushing.known, flushing.remembered⟩, ?_, fun e mem => ?_⟩
  · cases attempt with
    | none => exact owes
    | some k => exact owes
  · rw [← List.append_assoc]
    exact dedupeAgainst_inserted storeKey flush (s.store ++ tx.rows) mem

/-- Every harmless turn keeps the ledger. -/
theorem Ledger.took (on : settings.checks ≠ .off) (stored : Stored sources chain)
    (ledger : Ledger sources settings chain storeKey s) (here : s.transactions[i]? = some tx)
    (may : turn = .serve → s.sync.Allowed sources chain (.serve tx.interval))
    (harmless : s.HarmlessTurn sources chain storeKey tx turn)
    (taken : s.turn sources settings chain storeKey i tx turn = some t) :
    Ledger sources settings chain storeKey t := by
  have sound := ledger.transactions tx (List.mem_of_getElem? here)
  cases turn_cases taken with
  | serve stage moved => exact ledger.serve on stored here stage (may rfl) moved
  | delegate stage =>
      obtain ⟨nothing, none_⟩ := sound.unfold stage
      exact ledger.persist here (by rw [stage]; rfl) (by rw [stage]; rfl) nothing none_ harmless
        fun _ never => nomatch never
  | persist stage at_ waits done =>
      obtain ⟨nothing, none_, _⟩ := sound.unfold stage
      exact ledger.persist here (by rw [stage]; rfl) (by rw [stage]; rfl) nothing none_ harmless
        fun _ _ => ledger.informed here stage at_ waits done
  | read stage => exact ledger.read here stage
  | insert stage => exact ledger.insert here stage
  | reject stage =>
      rcases stage with stage | ⟨rows, stage⟩
      · obtain ⟨nothing, flushing, _⟩ := sound.unfold stage
        exact ledger.reject on stored here (by rw [stage]; rfl) nothing
          ⟨flushing.known, flushing.remembered⟩
      · obtain ⟨nothing, flushing, _⟩ := sound.unfold stage
        exact ledger.reject on stored here (by rw [stage]; rfl) nothing
          ⟨flushing.known, flushing.remembered⟩
  | @record j todo f b c stage at_ =>
      have log : (f, b, c) ∈ tx.stage.todo[j]? := by
        rw [stage]
        exact at_
      exact ledger.record on stored here stage at_ fun m known => harmless (f, b, c) log m known
  | finish stage moved => exact ledger.finish on stored here stage moved
  | resolve stage => exact ledger.resolve here stage
  | commit stage => exact ledger.commit here stage harmless
  | drop stage =>
      refine ledger.rollback on stored here ?_ harmless none
      rcases stage with stage | ⟨todo, stage⟩ | stage <;> rw [stage] <;> rfl
  | @abort k sync stage moved =>
      have is : s.abort (some k) = sync := by rw [abort, moved]; rfl
      rw [← is]
      exact ledger.rollback on stored here (by rw [stage]; rfl) harmless (some k)
  | fail stage => exact ledger.rollback on stored here (by rw [stage]; rfl) harmless _

end Turn

/-! ## Runs -/

theorem Books.enter (books : Books sources settings chain storeKey s)
    (new : Transaction F A K) :
    Books sources settings chain storeKey { s with transactions := s.transactions ++ [new] } := by
  refine ⟨books.sound, books.spanned, books.loaded, books.queued,
    fun other flush remembered => ?_, fun k factory m known => ?_⟩
  · obtain ⟨⟨owner, mem, isOwner⟩, inside, known⟩ := books.flushes other flush remembered
    exact ⟨⟨owner, List.mem_append_left _ mem, isOwner⟩, inside, known⟩
  · cases books.accounted k factory m known with
    | stored inserted => exact .stored inserted
    | queued pending => exact .queued pending
    | flushed remembered entry => exact .flushed remembered entry
    | found mem live entry => exact .found (List.mem_append_left _ mem) live entry

/-- An interval is entered, once its flush is queued again. -/
theorem Ledger.entered (ledger : Ledger sources settings chain storeKey s)
    (ordered : interval.1 ≤ interval.2) (ended : ∀ last ∈ sources.backfillEnd, interval.2 ≤ last)
    (others : ∀ tx ∈ s.transactions, Apart tx.interval interval ∨
      tx.interval = interval ∧ tx.stage.isRolledBack = true) {t : Durable F A T R K}
    (table : t.transactions = s.transactions)
    (books : Books sources settings chain storeKey t) (frame : Frame s t interval)
    (none_ : t.pendingFlushes.get? interval = none) :
    Ledger sources settings chain storeKey
      { t with transactions := s.transactions ++ [⟨interval, .entered, [], []⟩] } := by
  have inTable : ∀ (j : Nat) (x : Transaction F A K),
      (s.transactions ++ [(⟨interval, .entered, [], []⟩ : Transaction F A K)])[j]? = some x →
        s.transactions[j]? = some x ∨ j = s.transactions.length ∧ x.interval = interval := by
    intro j x at_
    rcases Nat.lt_or_ge j s.transactions.length with old | new
    · exact .inl ((List.getElem?_append_left old).symm.trans at_)
    · rw [List.getElem?_append_right new] at at_
      obtain ⟨within, rfl⟩ := List.getElem?_eq_some_iff.1 at_
      have last : j - s.transactions.length = 0 := Nat.lt_one_iff.1 within
      exact .inr ⟨by omega, by simp [last]⟩
  have members : ∀ x ∈ s.transactions ++ [(⟨interval, .entered, [], []⟩ : Transaction F A K)],
      x ∈ s.transactions ∨ x = ⟨interval, .entered, [], []⟩ := fun x mem =>
    (List.mem_append.1 mem).imp_right List.mem_singleton.1
  refine ⟨table ▸ books.enter _, fun j l one two ne isOne isTwo => ?_, fun x mem => ?_,
    fun x mem => ?_, fun x mem => ?_⟩
  · rcases inTable j one isOne with oldOne | ⟨isLast, newOne⟩
    · rcases inTable l two isTwo with oldTwo | ⟨_, newTwo⟩
      · exact ledger.apart j l one two ne oldOne oldTwo
      · rw [newTwo]
        exact (others one (List.mem_of_getElem? oldOne)).imp_right fun ⟨same, rolled⟩ =>
          ⟨same, .inl rolled⟩
    · rcases inTable l two isTwo with oldTwo | ⟨isLast', _⟩
      · rw [newOne]
        exact (others two (List.mem_of_getElem? oldTwo)).imp Apart.symm fun ⟨same, rolled⟩ =>
          ⟨same.symm, .inr rolled⟩
      · exact absurd (isLast.trans isLast'.symm) ne
  · rcases members x mem with old | rfl
    · exact ledger.ordered x old
    · exact ordered
  · rcases members x mem with old | rfl
    · exact ledger.ends x old
    · exact ended
  · rcases members x mem with old | rfl
    · rcases others x old with apart | ⟨_, rolled⟩
      · exact ((frame.table _).onto ordered apart).sound (ledger.transactions x old)
      · exact .over rolled
    · exact ⟨rfl, none_⟩

theorem Ledger.enter (ledger : Ledger sources settings chain storeKey s)
    (may : s.Allowed sources chain (.enter interval)) :
    Ledger sources settings chain storeKey (s.enter interval) := by
  obtain ⟨ordered, ended, others⟩ := may
  unfold Durable.enter
  cases remembered : s.pendingFlushes.get? interval with
  | none =>
      exact ledger.entered ordered ended others rfl ledger.books
        ((Frame.sync (.moved (.of_eq rfl)) interval : Frame s s interval)) remembered
  | some flush =>
      refine ledger.entered ordered ended others rfl
        (ledger.books.restore (ledger.books.flushes interval flush remembered).known
          fun other here => Option.some.inj (here.symm.trans remembered))
        (.restore s interval flush) ?_
      exact OrdMap.get?_delete_self _ _

/-- A scan finds nothing in an interval that is delegated. -/
theorem Ledger.background (on : settings.checks ≠ .off) (stored : Stored sources chain)
    (ledger : Ledger sources settings chain storeKey s) {a : CacheAction}
    (harmless : s.Harmless sources chain storeKey (.background a)) {sync : RangeSync F A T R}
    (taken : s.sync.step sources settings chain (.cache a) = some sync) :
    Ledger sources settings chain storeKey { s with sync } := by
  obtain ⟨sound, spanned⟩ := ledger.moved on stored (a := .cache a) trivial taken
  have proceeds := RangeSync.Proceeds.cache on taken
  refine ⟨ledger.books.sync sound spanned proceeds.queues, ledger.apart, ledger.ordered,
    ledger.ends, fun tx mem => ?_⟩
  have onto : Onto s { s with sync } tx := by
    refine ⟨fun _ mem => mem, fun _ here => here, proceeds.attempts,
      fun k _ known => Queued.lower proceeds.queues k known, fun delegated k m known inside => ?_⟩
    rcases proceeds.queues k.1 k.2 with ⟨same, _⟩ | ⟨b, ⟨delivered, created⟩, isKnown, _, earlier⟩
    · exact same.symm.trans known
    · cases isKnown.symm.trans known
      have news : isNews ((s.disc.childAddresses k.1).get? k.2) m = true := by
        cases before : (s.disc.childAddresses k.1).get? k.2 with
        | none => rfl
        | some n => exact decide_eq_true (earlier n before)
      exact absurd inside (harmless (k.1, m) delivered k.2 created news tx mem delegated)
  exact onto.sound (ledger.transactions tx mem)

section Run

variable [DecidableEq K] {t : Durable F A T R K}

/-- The children that are loaded are known, and none is queued. -/
theorem init_disc (sources : Sources F A T R) (settings : Settings) (chain : Chain A T) :
    (RangeSync.init sources settings chain).cache.disc.disc.childAddresses = sources.preloaded ∧
      (RangeSync.init sources settings chain).cache.disc.disc.pendingChildren = OrdMap.empty := by
  show (Cache.init (sources.syncDeps settings chain)).disc.disc.childAddresses = _ ∧
    (Cache.init (sources.syncDeps settings chain)).disc.disc.pendingChildren = _
  unfold Cache.init Cache.pinDiscoveryFloor
  split <;> exact ⟨rfl, rfl⟩

omit [DecidableEq K] in
/-- A process starts with the children of the store. -/
theorem Ledger.start (settings : Settings) (storeKey : F → K) {store : List (StoredChild K A)}
    (loaded : ∀ f ∈ sources.factories, ∀ c m, sources.preloaded.Has f c m →
      Inserted storeKey store (f, c) m) :
    Ledger sources settings chain storeKey
      ⟨RangeSync.init sources settings chain, OrdMap.empty, [], store⟩ := by
  have disc := init_disc sources settings chain
  refine ⟨⟨.init settings, ?_, loaded, fun k v pending => ?_, fun interval flush none_ => ?_,
    fun k factory m known => ?_⟩, fun i j one two _ isOne _ => ?_, fun tx mem => ?_,
    fun tx mem => ?_, fun tx mem => ?_⟩
  · have none_ : (Cache.init (sources.syncDeps settings chain)).entries = [] ∧
        (Cache.init (sources.syncDeps settings chain)).calls = [] := by
      unfold Cache.init Cache.pinDiscoveryFloor
      split <;> exact ⟨rfl, rfl⟩
    refine ⟨fun e mem => ?_, fun call mem => ?_⟩
    · have mem : e ∈ (Cache.init (sources.syncDeps settings chain)).entries := mem
      rw [none_.1] at mem
      cases mem
    · have mem : call ∈ (Cache.init (sources.syncDeps settings chain)).calls := mem
      rw [none_.2] at mem
      cases mem
  · unfold Durable.queue Durable.disc at pending
    rw [disc.2] at pending
    cases pending
  · cases none_
  · unfold Durable.known Durable.disc at known
    rw [disc.1] at known
    exact .stored (loaded k.1 factory k.2 m (has_iff.2 known))
  · cases isOne
  · cases mem
  · cases mem
  · cases mem

omit [DecidableEq K] in
theorem Ledger.init (settings : Settings) (storeKey : F → K) :
    Ledger sources settings chain storeKey (Durable.init sources settings chain storeKey) :=
  .start settings storeKey fun f factory c m has => ⟨m, Int.le_refl m,
    List.mem_flatMap.2 ⟨f, factory, List.mem_map.2 ⟨(c, m), has, rfl⟩⟩⟩

theorem Ledger.step (on : settings.checks ≠ .off) (stored : Stored sources chain)
    (ledger : Ledger sources settings chain storeKey s) {a : DurableAction}
    (may : s.Allowed sources chain a) (harmless : s.Harmless sources chain storeKey a)
    (taken : s.step sources settings chain storeKey a = some t) :
    Ledger sources settings chain storeKey t := by
  cases a with
  | background a =>
      obtain ⟨sync, moved, rfl⟩ := Option.map_eq_some_iff.1 taken
      exact ledger.background on stored harmless moved
  | enter interval =>
      cases taken
      exact ledger.enter may
  | turn i turn =>
      cases here : s.transactions[i]? with
      | none =>
          rw [Durable.step, here] at taken
          cases taken
      | some tx =>
          rw [Durable.step, here] at taken
          refine ledger.took on stored here ?_ (harmless tx here) taken
          rintro rfl
          exact may tx here

end Run

end Durable

variable {F A T R K : Type} [DecidableEq F] [DecidableEq A] [DecidableEq T] [DecidableEq K]
  {sources : Sources F A T R} {settings : Settings} {chain : Chain A T} {storeKey : F → K}

/-- The children are inserted, the transaction is rolled back, and its interval is entered again. -/
def retriedActions : List DurableAction :=
  [.background (.refreshPortalHead 9), .background (.ensureChunkSize none), .enter (2, 5),
    .turn 0 .serve, .background (.discovery (.start 0))] ++
  List.replicate 4 (.background (.discovery (.deliver 0 0))) ++
  [.background (.discovery (.resolve 0)), .background (.pass 0 0)] ++
  List.replicate 9 (.background (.advance 0 0)) ++
  [.turn 0 .persist, .turn 0 .read, .turn 0 .insert, .turn 0 .rollback, .enter (2, 5),
    .turn 1 .serve, .turn 1 .persist, .turn 1 .read, .turn 1 .insert, .turn 1 (.finish false),
    .turn 1 .commit]

def retriedEnd : Durable Unit Nat Nat Unit Unit :=
  (Machine.replay (Durable.step childSources childSettings childChain fun _ => ())
    (Durable.init childSources childSettings childChain fun _ => ()) retriedActions).get
      (by decide +kernel)

def retriedTransaction : Transaction Unit Nat Unit :=
  retriedEnd.transactions.get ⟨1, by decide +kernel⟩

def racedSettings : Settings where
  chunkBlocks := 2
  chunkFixed := true
  traceChunkBlocks := 2
  warmupBlocks := 2
  readahead := 1
  discoveryWindows := 1
  finalizedHead := none
  checks := .on
  chunkPos := by decide
  tracePos := by decide

/-- The read-ahead of the first interval scans the second one, which ends past the head. -/
def racedActions : List DurableAction :=
  [.background (.refreshPortalHead 3), .background (.ensureChunkSize none), .enter (0, 1),
    .turn 0 .serve, .background (.discovery (.start 0)),
    .background (.discovery (.deliver 0 0)), .background (.discovery (.deliver 0 0)),
    .background (.discovery (.resolve 0)), .background (.pass 0 0)] ++
  List.replicate 4 (.background (.advance 0 0)) ++
  [.turn 0 .persist, .turn 0 (.finish false), .background (.discovery (.start 1)),
    .background (.discovery (.deliver 1 0)), .enter (2, 5), .turn 1 .delegate,
    .background (.discovery (.deliver 1 0)), .turn 1 (.record 0), .turn 1 .resolve,
    .turn 1 .commit]

def racedEnd : Durable Unit Nat Nat Unit Unit :=
  (Machine.replay (Durable.step childSources racedSettings childChain fun _ => ())
    (Durable.init childSources racedSettings childChain fun _ => ()) racedActions).get
      (by decide +kernel)

end PortalPonder.Historical
