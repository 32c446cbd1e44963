import PortalPonder.Historical.Durable

/-!
# Sessions

A process that stops leaves the committed children behind, and the next one starts from what the
store reads back. What is committed once is not fetched again, so that a session relies on those
before it for every child that was created below its first interval. Nothing but what was created
is ever stored, and nothing of a committed interval is missing.
-/

namespace PortalPonder.Historical

open Discovery

/-! ## What is stored was created -/

section Created

variable {F A T R K : Type} [DecidableEq F] [DecidableEq A] [DecidableEq T]

/-- A row is for a child that a stored factory created in the block. -/
def RowCreated (sources : Sources F A T R) (chain : Chain A T) (storeKey : F → K)
    (r : StoredChild K A) : Prop :=
  ∃ f, storeKey f = r.1.1 ∧ r.1.2 ∈ sources.creations chain f r.2

def Stage.flush : Stage F A K → List ((F × A) × Int)
  | .reading _ flush | .inserting _ flush _ => flush.entries
  | _ => []

/-- The rows that are about to be inserted. -/
def Stage.rows : Stage F A K → List (StoredChild K A)
  | .inserting _ _ rows => rows
  | _ => []

namespace Durable

variable (sources : Sources F A T R) (chain : Chain A T) (storeKey : F → K)

structure TxCreated (tx : Transaction F A K) : Prop where
  flush : ∀ e ∈ tx.stage.flush, e.1.2 ∈ sources.creations chain e.1.1 e.2
  rows : ∀ r ∈ tx.rows ++ tx.stage.rows, RowCreated sources chain storeKey r
  todo : ∀ log ∈ tx.stage.todo, log.2.2 ∈ sources.creations chain log.1 log.2.1

/-- What is queued, in a flush, inserted or stored was created; and what was loaded is known. -/
structure Created (s : Durable F A T R K) : Prop where
  queued : ∀ k v, s.queue k = some v → k.2 ∈ sources.creations chain k.1 v
  flushes : ∀ interval flush, s.pendingFlushes.get? interval = some flush →
    ∀ e ∈ flush.entries, e.1.2 ∈ sources.creations chain e.1.1 e.2
  transactions : ∀ tx ∈ s.transactions, TxCreated sources chain storeKey tx
  store : ∀ r ∈ s.store, RowCreated sources chain storeKey r
  loaded : ∀ f c m, sources.preloaded.Has f c m → ∃ m' ≤ m, s.known (f, c) = some m'

variable {sources chain storeKey} {s : Durable F A T R K} {tx tx' : Transaction F A K} {i : Nat}
  {flush : Flush F A} {interval : Interval}

omit [DecidableEq F] in
/-- A transaction that is over, or has its work before it. -/
theorem TxCreated.idle (created : TxCreated sources chain storeKey tx) {stage : Stage F A K}
    (flush : stage.flush = []) (rows : stage.rows = []) (todo : stage.todo = []) :
    TxCreated sources chain storeKey { tx with stage } := by
  refine ⟨fun e mem => ?_, fun r mem => ?_, fun log mem => ?_⟩
  · rw [show ({ tx with stage } : Transaction F A K).stage.flush = [] from flush] at mem
    cases mem
  · rw [show ({ tx with stage } : Transaction F A K).stage.rows = [] from rows,
      List.append_nil] at mem
    exact created.rows r (List.mem_append_left _ mem)
  · rw [show ({ tx with stage } : Transaction F A K).stage.todo = [] from todo] at mem
    cases mem

/-- Behind the flush the transaction assembles its rows, or the RPC historical sync has the logs of
the interval to take up. -/
theorem TxCreated.flushed (tx : Transaction F A K)
    (rows : ∀ r ∈ tx.rows, RowCreated sources chain storeKey r) (attempt : Option Nat) :
    TxCreated sources chain storeKey
      { tx with stage := flushed sources chain tx.interval attempt } := by
  cases attempt with
  | none =>
      refine ⟨(fun _ mem => nomatch mem), fun r mem => ?_,
        fun log mem => (mem_factoryLogs.1 mem).2.2⟩
      rcases List.mem_append.1 mem with old | none_
      · exact rows r old
      · cases none_
  | some k =>
      refine ⟨(fun _ mem => nomatch mem), fun r mem => ?_, fun _ mem => nomatch mem⟩
      rcases List.mem_append.1 mem with old | none_
      · exact rows r old
      · cases none_

theorem Created.set (created : Created sources chain storeKey s)
    (mine : TxCreated sources chain storeKey tx') : Created sources chain storeKey (s.set i tx') :=
  ⟨created.queued, created.flushes, fun x mem => by
    rcases List.mem_or_eq_of_mem_set mem with old | rfl
    · exact created.transactions x old
    · exact mine, created.store, created.loaded⟩

/-- The sync moves; what it queues was created. -/
theorem Created.sync {news : F → A → Int → Prop} (created : Created sources chain storeKey s)
    {sync : RangeSync F A T R} (queues : s.sync.cache.Queues news sync.cache)
    (told : ∀ f c b, news f c b → c ∈ sources.creations chain f b) :
    Created sources chain storeKey { s with sync } := by
  refine ⟨fun k v here => ?_, created.flushes, created.transactions, created.store,
    fun f c m has => ?_⟩
  · rcases queues k.1 k.2 with ⟨_, pending⟩ | ⟨b, isNews, _, pending, _⟩
    · exact created.queued k v (pending.symm.trans here)
    · cases pending.symm.trans here
      exact told k.1 k.2 v isNews
  · obtain ⟨m', le, known⟩ := created.loaded f c m has
    obtain ⟨m'', lower, known'⟩ := Queued.lower queues (f, c) known
    exact ⟨m'', Int.le_trans lower le, known'⟩

theorem Created.proceeds (created : Created sources chain storeKey s) {sync : RangeSync F A T R}
    (proceeds : RangeSync.Proceeds (fun _ _ _ => False) s.sync sync) :
    Created sources chain storeKey { s with sync } :=
  created.sync proceeds.queues fun _ _ _ never => never.elim

theorem Created.restore (created : Created sources chain storeKey s)
    (flushed : ∀ e ∈ flush.entries, e.1.2 ∈ sources.creations chain e.1.1 e.2) :
    Created sources chain storeKey (s.restore interval flush) := by
  refine ⟨fun k v here => ?_, fun other flush' here => ?_, created.transactions, created.store,
    created.loaded⟩
  · have here : (lowerAll s.disc.pendingChildren flush.entries).get? k = some v := here
    rcases lowerAll_origin here with old | entry
    · exact created.queued k v old
    · exact flushed _ entry
  · have here : (s.pendingFlushes.delete interval).get? other = some flush' := here
    rw [OrdMap.get?_delete] at here
    split at here
    · cases here
    · exact created.flushes other flush' here

/-- The queue is drained for an interval. -/
theorem Created.persist (created : Created sources chain storeKey s)
    (mem : tx ∈ s.transactions) (attempt : Option Nat) :
    Created sources chain storeKey (s.persistPendingChildren sources chain i tx attempt) := by
  have taken : ∀ e ∈ (s.taken tx.interval).entries,
      e.1.2 ∈ sources.creations chain e.1.1 e.2 :=
    fun e entry => created.queued e.1 e.2 (taken_flush.1 entry).1
  have rest : ∀ k v, (s.rest tx.interval).get? k = some v →
      k.2 ∈ sources.creations chain k.1 v :=
    fun k v here => created.queued k v (taken_rest.1 here).1
  have rows : ∀ r ∈ tx.rows, RowCreated sources chain storeKey r := fun r own =>
    (created.transactions tx mem).rows r (List.mem_append_left _ own)
  unfold persistPendingChildren
  dsimp only
  split
  · exact Created.set (s := { s with sync := s.sync.requeue (s.rest tx.interval) })
      ⟨rest, created.flushes, created.transactions, created.store, created.loaded⟩
      (.flushed tx rows attempt)
  · refine Created.set (s := { s with
        sync := s.sync.requeue (s.rest tx.interval)
        pendingFlushes := pruned (s.pendingFlushes.set tx.interval (s.taken tx.interval)) })
      ⟨rest, fun other flush here => ?_, created.transactions, created.store, created.loaded⟩
      ⟨taken, fun r own => ?_, fun log mem => absurd mem List.not_mem_nil⟩
    · have here := get?_of_pruned here
      rw [OrdMap.get?_set] at here
      split at here
      · cases here
        exact taken
      · exact created.flushes other flush here
    · rcases List.mem_append.1 own with old | none_
      · exact rows r old
      · cases none_

variable [DecidableEq K]

omit [DecidableEq F] in
/-- What is inserted comes from the flush. -/
theorem dedupeAgainst_created (flushed : ∀ e ∈ flush.entries,
      e.1.2 ∈ sources.creations chain e.1.1 e.2) (stored : List (StoredChild K A))
    {r : StoredChild K A} (mem : r ∈ dedupeAgainst storeKey flush stored) :
    RowCreated sources chain storeKey r := by
  have least := OrdMap.get?_of_mem _ (List.mem_filter.1 mem).1
  rcases lowerAll_origin least with never | entry
  · cases never
  · obtain ⟨e, inFlush, is⟩ := List.mem_map.1 entry
    obtain ⟨key, block⟩ := Prod.mk.inj is
    refine ⟨e.1.1, (Prod.mk.inj key).1, ?_⟩
    rw [← (Prod.mk.inj key).2, ← block]
    exact flushed e inFlush

omit [DecidableEq K] in
/-- The RPC historical sync records and inserts what was created. -/
theorem Created.takeUp (created : Created sources chain storeKey s) (mem : tx ∈ s.transactions)
    {todo : List (F × Nat × A)} {f : F} {b : Nat} {c : A}
    (stage : tx.stage = .delegated todo) {j : Nat} (at_ : todo[j]? = some (f, b, c)) :
    Created sources chain storeKey (s.takeUp storeKey i tx (todo.eraseIdx j) f b c) := by
  have sound := created.transactions tx mem
  have isTodo : tx.stage.todo = todo := by rw [stage]; rfl
  have ofRest : ∀ log ∈ todo.eraseIdx j, log.2.2 ∈ sources.creations chain log.1 log.2.1 :=
    fun log later => sound.todo log (isTodo ▸ List.mem_of_mem_eraseIdx later)
  have own : c ∈ sources.creations chain f b :=
    sound.todo (f, b, c) (isTodo ▸ List.mem_of_getElem? at_)
  have rows : ∀ r ∈ tx.rows, RowCreated sources chain storeKey r := fun r row =>
    sound.rows r (List.mem_append_left _ row)
  unfold Durable.takeUp
  split
  · refine created.set ⟨(fun _ none_ => absurd none_ List.not_mem_nil), fun r row => ?_, ofRest⟩
    rcases List.mem_append.1 row with old | none_
    · exact rows r old
    · cases none_
  · next absent =>
      have unknown : s.known (f, c) = none := Option.not_isSome_iff_eq_none.1 absent
      have shared : Created sources chain storeKey (s.shared f b c) := by
        refine ⟨created.queued, created.flushes, created.transactions, created.store,
          fun g x m has => ?_⟩
        obtain ⟨m', le, known⟩ := created.loaded g x m has
        exact ⟨m', le, known_shared_of unknown known⟩
      refine shared.set ⟨(fun _ none_ => absurd none_ List.not_mem_nil), fun r row => ?_, ofRest⟩
      rcases List.mem_append.1 row with new | none_
      · rcases List.mem_append.1 new with old | is
        · exact rows r old
        · rw [List.mem_singleton.1 is]
          exact ⟨f, rfl, own⟩
      · cases none_

theorem Created.took {settings : Settings} (on : settings.checks ≠ .off)
    (created : Created sources chain storeKey s) (here : s.transactions[i]? = some tx)
    {turn : Turn} {t : Durable F A T R K}
    (taken : s.turn sources settings chain storeKey i tx turn = some t) :
    Created sources chain storeKey t := by
  have mem := List.mem_of_getElem? here
  have sound := created.transactions tx mem
  cases turn_cases taken with
  | serve stage moved => exact (created.proceeds (.serve on moved)).set (sound.idle rfl rfl rfl)
  | delegate stage => exact created.persist mem none
  | persist stage at_ waits done => exact created.persist mem _
  | @read attempt flush stage =>
      have flushed : ∀ e ∈ flush.entries, e.1.2 ∈ sources.creations chain e.1.1 e.2 :=
        fun e entry => sound.flush e (by rw [stage]; exact entry)
      refine created.set ⟨flushed, fun r row => ?_, fun _ none_ => nomatch none_⟩
      rcases List.mem_append.1 row with old | new
      · exact sound.rows r (List.mem_append_left _ old)
      · exact dedupeAgainst_created flushed _ new
  | @insert attempt flush rows stage =>
      refine created.set (.flushed { tx with rows := tx.rows ++ rows } (fun r row => ?_) attempt)
      refine sound.rows r ?_
      rw [stage]
      exact row
  | @reject attempt flush stage =>
      have flushed : ∀ e ∈ flush.entries, e.1.2 ∈ sources.creations chain e.1.1 e.2 := by
        intro e entry
        refine sound.flush e ?_
        rcases stage with stage | ⟨rows, stage⟩ <;> rw [stage] <;> exact entry
      exact ((created.proceeds (abort_proceeds s attempt)).restore flushed).set
        (sound.idle rfl rfl rfl)
  | record stage at_ => exact created.takeUp mem stage at_
  | finish stage moved =>
      refine (created.proceeds (.finish on moved)).set ?_
      split <;> exact sound.idle rfl rfl rfl
  | resolve stage => exact created.set (sound.idle rfl rfl rfl)
  | commit stage =>
      refine Created.set (s := { s with store := s.store ++ tx.rows })
        ⟨created.queued, created.flushes, created.transactions, fun r row => ?_, created.loaded⟩
        (sound.idle rfl rfl rfl)
      rcases List.mem_append.1 row with old | new
      · exact created.store r old
      · exact sound.rows r (List.mem_append_left _ new)
  | drop stage => exact created.set (sound.idle rfl rfl rfl)
  | abort stage moved => exact (created.proceeds (.abort moved)).set (sound.idle rfl rfl rfl)
  | fail stage => exact (created.proceeds (abort_proceeds s _)).set (sound.idle rfl rfl rfl)

theorem Created.step {settings : Settings} (on : settings.checks ≠ .off)
    (created : Created sources chain storeKey s) {a : DurableAction} {t : Durable F A T R K}
    (taken : s.step sources settings chain storeKey a = some t) :
    Created sources chain storeKey t := by
  cases a with
  | background a =>
      obtain ⟨sync, moved, rfl⟩ := Option.map_eq_some_iff.1 taken
      exact created.sync (RangeSync.Proceeds.cache on moved).queues fun _ _ _ told => told.2
  | enter interval =>
      cases taken
      have entered : ∀ u : Durable F A T R K, Created sources chain storeKey u →
          u.transactions = s.transactions → Created sources chain storeKey
            { u with transactions := s.transactions ++ [⟨interval, .entered, [], []⟩] } := by
        intro u created' table
        refine ⟨created'.queued, created'.flushes, fun tx mem => ?_, created'.store,
          created'.loaded⟩
        rcases List.mem_append.1 mem with old | new
        · exact created'.transactions tx (table ▸ old)
        · rw [List.mem_singleton.1 new]
          exact ⟨(fun _ none_ => nomatch none_), (fun _ none_ => nomatch none_),
            fun _ none_ => nomatch none_⟩
      unfold Durable.enter
      cases remembered : s.pendingFlushes.get? interval with
      | none => exact entered s created rfl
      | some flush =>
          exact entered _ (created.restore (created.flushes interval flush remembered)) rfl
  | turn i turn =>
      cases here : s.transactions[i]? with
      | none =>
          rw [Durable.step, here] at taken
          cases taken
      | some tx =>
          rw [Durable.step, here] at taken
          exact created.took on here taken

end Durable

end Created

/-! ## One session after the other -/

variable {F A T R K : Type} [DecidableEq F] [DecidableEq A] [DecidableEq T] [DecidableEq K]

/-- What the store reads back for a factory: the least block of each child. -/
def getChildAddresses (storeKey : F → K) (store : List (StoredChild K A)) : Children F A := fun f =>
  lowerAll OrdMap.empty
    ((store.filter fun r => r.1.1 = storeKey f).map fun r => (r.1.2, r.2))

/-- The sources of a process that starts with the store. -/
def Sources.restarted (sources : Sources F A T R) (storeKey : F → K)
    (store : List (StoredChild K A)) : Sources F A T R :=
  { sources with preloaded := getChildAddresses storeKey store }

namespace Durable

/-- The intervals that are committed. -/
def committed (s : Durable F A T R K) : List Interval :=
  (s.transactions.filter fun tx => tx.stage.isCommitted).map Transaction.interval

/-- A process starts: of the one before, only the store is left. -/
def restart (sources : Sources F A T R) (settings : Settings) (chain : Chain A T)
    (storeKey : F → K) (store : List (StoredChild K A)) : Durable F A T R K :=
  ⟨RangeSync.init (sources.restarted storeKey store) settings chain, OrdMap.empty, [], store⟩

/-- What was created below an interval lies in an interval that an earlier session has committed,
or it is known. -/
def Resumes (sources : Sources F A T R) (chain : Chain A T) (before : List Interval)
    (s : Durable F A T R K) (interval : Interval) : Prop :=
  ∀ f ∈ sources.factories, ∀ m < interval.1, ∀ c ∈ sources.creations chain f m,
    (∃ earlier ∈ before, earlier.1 ≤ m ∧ m ≤ earlier.2) ∨
      isAddressMatched c m (s.disc.childAddresses f) = true

/-- Intervals are dispatched in turn, the first one behind what is committed; the rest is as in one
session. -/
def Permitted (sources : Sources F A T R) (chain : Chain A T) (before : List Interval)
    (s : Durable F A T R K) : DurableAction → Prop
  | .turn i .serve => ∀ tx ∈ s.transactions[i]?, s.sync.Dispatched tx.interval ∧
      (s.sync.attempts.isEmpty = true → s.Resumes sources chain before tx.interval)
  | a => s.Allowed sources chain a

instance (sources : Sources F A T R) (chain : Chain A T) (before : List Interval)
    (s : Durable F A T R K) (interval : Interval) :
    Decidable (s.Resumes sources chain before interval) := by
  unfold Resumes
  infer_instance

instance (sources : Sources F A T R) (chain : Chain A T) (before : List Interval)
    (s : Durable F A T R K) (a : DurableAction) :
    Decidable (s.Permitted sources chain before a) := by
  unfold Permitted
  match a with
  | .turn i .serve => infer_instance
  | .background _ | .enter _ | .turn _ .delegate | .turn _ .persist | .turn _ .read
  | .turn _ .insert | .turn _ .reject | .turn _ (.record _) | .turn _ (.finish _)
  | .turn _ .resolve | .turn _ .commit | .turn _ .rollback => infer_instance

/-- The states of a session that starts with a store, behind the intervals committed before. -/
def InSession (sources : Sources F A T R) (settings : Settings) (chain : Chain A T)
    (storeKey : F → K) (store : List (StoredChild K A)) (before : List Interval) :
    Durable F A T R K → Prop :=
  Machine.Reach (step (sources.restarted storeKey store) settings chain storeKey)
    (fun s a => s.Permitted sources chain before a ∧
      s.Harmless (sources.restarted storeKey store) chain storeKey a)
    (restart sources settings chain storeKey store)

end Durable

/-- What a process can find: the store, and the intervals that are committed. It has stopped at any
point, and its settings are its own. -/
inductive Sessions (sources : Sources F A T R) (chain : Chain A T) (storeKey : F → K) :
    List (StoredChild K A) → List Interval → Prop where
  | fresh : Sessions sources chain storeKey [] []
  | stop {store : List (StoredChild K A)} {before : List Interval} {settings : Settings}
      {s : Durable F A T R K} (sessions : Sessions sources chain storeKey store before)
      (on : settings.checks ≠ .off)
      (run : Durable.InSession sources settings chain storeKey store before s) :
      Sessions sources chain storeKey s.store (before ++ s.committed)

/-- Factories that are one row of the store have the same children. -/
def Keyed (sources : Sources F A T R) (storeKey : F → K) : Prop :=
  ∀ f g, storeKey f = storeKey g →
    sources.factory f = sources.factory g ∧ sources.childAddress f = sources.childAddress g

section ReadBack

variable {storeKey : F → K} {store : List (StoredChild K A)} {f : F} {c : A} {m b : Int}

omit [DecidableEq F] in
theorem stored_of_readBack (found : (getChildAddresses storeKey store f).get? c = some m) :
    ((storeKey f, c), m) ∈ store := by
  rcases lowerAll_origin found with never | entry
  · cases never
  · obtain ⟨r, row, is⟩ := List.mem_map.1 entry
    obtain ⟨inStore, key⟩ := List.mem_filter.1 row
    cases is
    rw [← of_decide_eq_true key]
    exact inStore

omit [DecidableEq F] in
theorem Inserted.readBack (inserted : Inserted storeKey store (f, c) b) :
    ∃ m ≤ b, (getChildAddresses storeKey store f).get? c = some m := by
  obtain ⟨b', le, row⟩ := inserted
  have taken : (c, b') ∈
      (store.filter fun r => r.1.1 = storeKey f).map fun r => (r.1.2, r.2) :=
    List.mem_map.2 ⟨_, List.mem_filter.2 ⟨row, decide_eq_true rfl⟩, rfl⟩
  obtain ⟨m, lower, found⟩ : ∃ m ≤ b', (getChildAddresses storeKey store f).get? c = some m :=
    lowerAll_takes taken
  exact ⟨m, Int.le_trans lower le, found⟩

end ReadBack

section Resume

variable {sources : Sources F A T R} {settings : Settings} {chain : Chain A T} {storeKey : F → K}
  {store : List (StoredChild K A)} {before : List Interval} {s : Durable F A T R K}

omit [DecidableEq F] [DecidableEq K] in
theorem Keyed.creations (keyed : Keyed sources storeKey) {f g : F}
    (same : storeKey f = storeKey g) : sources.creations chain f = sources.creations chain g := by
  obtain ⟨factory, address⟩ := keyed f g same
  funext b
  unfold Sources.creations
  rw [factory, address]

/-- A store that has nothing but what was created, and all of it in the committed intervals. -/
structure StoreComplete (sources : Sources F A T R) (chain : Chain A T) (storeKey : F → K)
    (store : List (StoredChild K A)) (before : List Interval) : Prop where
  created : ∀ r ∈ store, RowCreated sources chain storeKey r
  stored : ∀ interval ∈ before, ∀ log ∈ sources.factoryLogs chain interval,
    Inserted storeKey store (log.1, log.2.2) log.2.1

/-- What is loaded was created. -/
theorem StoreComplete.genuine (complete : StoreComplete sources chain storeKey store before)
    (keyed : Keyed sources storeKey) : Stored (sources.restarted storeKey store) chain := by
  intro f c m loaded
  obtain ⟨g, same, created⟩ := complete.created _ (stored_of_readBack (has_iff.1 loaded))
  show c ∈ sources.creations chain f m
  rw [← keyed.creations same]
  exact created

namespace Durable

theorem Ledger.restart (settings : Settings) :
    Ledger (sources.restarted storeKey store) settings chain storeKey
      (restart sources settings chain storeKey store) :=
  .start settings storeKey fun _ _ _ m loaded =>
    ⟨m, Int.le_refl m, stored_of_readBack (has_iff.1 loaded)⟩

theorem Created.restart (complete : StoreComplete sources chain storeKey store before)
    (settings : Settings) : Created (sources.restarted storeKey store) chain storeKey
      (restart sources settings chain storeKey store) := by
  have disc := init_disc (sources.restarted storeKey store) settings chain
  refine ⟨fun k v pending => ?_, (fun _ _ none_ => nomatch none_), (fun _ none_ => nomatch none_),
    complete.created, fun f c m has => ⟨m, Int.le_refl m, ?_⟩⟩
  · unfold Durable.queue Durable.disc Durable.restart at pending
    rw [disc.2] at pending
    cases pending
  · unfold Durable.known Durable.disc Durable.restart
    rw [disc.1]
    exact has_iff.1 has

/-- The children below the first interval are known: those of committed intervals were loaded. -/
theorem Resumes.vouched {interval : Interval}
    (complete : StoreComplete sources chain storeKey store before)
    (created : Created (sources.restarted storeKey store) chain storeKey s)
    (resumes : s.Resumes sources chain before interval) :
    RangeSync.Vouched (sources.restarted storeKey store) chain s.disc.childAddresses
      interval.1 := by
  intro f factory m below c born
  rcases resumes f factory m below c born with ⟨earlier, mem, low, high⟩ | known
  · have log : (f, m, c) ∈ sources.factoryLogs chain earlier :=
      mem_factoryLogs.2 ⟨factory, ⟨Int.ofNat_le.2 low, Int.ofNat_le.2 high⟩, born⟩
    obtain ⟨b, le, loaded⟩ := (complete.stored earlier mem _ log).readBack
    obtain ⟨b', lower, known⟩ := created.loaded f c b (has_iff.2 loaded)
    exact isAddressMatched_iff.2 ⟨b', known, Int.le_trans lower le⟩
  · exact known

/-- What a session may do, one session alone may do. -/
theorem Ledger.allowed (complete : StoreComplete sources chain storeKey store before)
    (ledger : Ledger (sources.restarted storeKey store) settings chain storeKey s)
    (created : Created (sources.restarted storeKey store) chain storeKey s) {a : DurableAction}
    (may : s.Permitted sources chain before a) :
    s.Allowed (sources.restarted storeKey store) chain a := by
  cases a with
  | background a => trivial
  | enter interval => exact may
  | turn i turn =>
      cases turn with
      | serve =>
          intro tx here
          obtain ⟨dispatched, resumes⟩ := may tx here
          exact ⟨ledger.ordered tx (List.mem_of_getElem? here), dispatched,
            fun first => (resumes first).vouched complete created⟩
      | _ => trivial

/-- What every state of a session keeps. -/
theorem InSession.kept (keyed : Keyed sources storeKey) (on : settings.checks ≠ .off)
    (complete : StoreComplete sources chain storeKey store before)
    (run : InSession sources settings chain storeKey store before s) :
    Ledger (sources.restarted storeKey store) settings chain storeKey s ∧
      Created (sources.restarted storeKey store) chain storeKey s := by
  refine run.invariant (I := fun s =>
    Ledger (sources.restarted storeKey store) settings chain storeKey s ∧
      Created (sources.restarted storeKey store) chain storeKey s)
    ⟨.restart settings, .restart complete settings⟩ ?_
  rintro s a t - ⟨ledger, created⟩ ⟨may, harmless⟩ taken
  exact ⟨ledger.step on (complete.genuine keyed) (ledger.allowed complete created may) harmless
    taken, created.step on taken⟩

/-- What was committed stays, and what is committed is added. -/
theorem InSession.complete (keyed : Keyed sources storeKey) (on : settings.checks ≠ .off)
    (complete : StoreComplete sources chain storeKey store before)
    (run : InSession sources settings chain storeKey store before s) :
    StoreComplete sources chain storeKey s.store (before ++ s.committed) := by
  obtain ⟨ledger, created⟩ := run.kept keyed on complete
  refine ⟨created.store, fun interval mem log inLogs => ?_⟩
  rcases List.mem_append.1 mem with earlier | now
  · obtain ⟨b, le, loaded⟩ := (complete.stored interval earlier log inLogs).readBack
    exact (ledger.books.loaded log.1 (mem_factoryLogs.1 inLogs).1 log.2.2 b
      (has_iff.2 loaded)).le le
  · obtain ⟨tx, inTable, rfl⟩ := List.mem_map.1 now
    obtain ⟨mem, committed⟩ := List.mem_filter.1 inTable
    obtain ⟨_, _, all⟩ := (ledger.transactions tx mem).unfold (Stage.eq_committed committed)
    exact all log inLogs

end Durable

theorem Sessions.complete (keyed : Keyed sources storeKey)
    (sessions : Sessions sources chain storeKey store before) :
    StoreComplete sources chain storeKey store before := by
  induction sessions with
  | fresh => exact ⟨(fun _ none_ => nomatch none_), fun _ none_ => nomatch none_⟩
  | stop _ on run ih => exact run.complete keyed on ih

end Resume

section Main

variable {sources : Sources F A T R} {settings : Settings} {chain : Chain A T} {storeKey : F → K}
  {store : List (StoredChild K A)} {before : List Interval} {s : Durable F A T R K}

/-- Whatever sessions there were: of a child that was first created in a committed interval, the
store reads back just this block. -/
theorem restarted_children (keyed : Keyed sources storeKey)
    (sessions : Sessions sources chain storeKey store before) {f : F}
    (factory : f ∈ sources.factories) {c : A} {b : Nat}
    (created : c ∈ sources.creations chain f b)
    (first : ∀ m < b, c ∉ sources.creations chain f m)
    (committed : ∃ interval ∈ before, interval.1 ≤ b ∧ b ≤ interval.2) :
    (getChildAddresses storeKey store f).get? c = some (b : Int) := by
  have complete := sessions.complete keyed
  obtain ⟨interval, mem, low, high⟩ := committed
  have log : (f, b, c) ∈ sources.factoryLogs chain interval :=
    Durable.mem_factoryLogs.2 ⟨factory, ⟨Int.ofNat_le.2 low, Int.ofNat_le.2 high⟩, created⟩
  obtain ⟨m, le, found⟩ := (complete.stored interval mem _ log).readBack
  have born : c ∈ sources.creations chain f m :=
    complete.genuine keyed f c m (has_iff.2 found)
  obtain ⟨n, rfl⟩ := Sources.creations_nonneg born
  have notBelow : ¬n < b := fun below => first n below born
  have same : n = b := Nat.le_antisymm (Int.ofNat_le.1 le) (Nat.not_lt.1 notBelow)
  rw [found, same]

/-- Whatever sessions there were before: a call that resolves returns exactly the logs of its
interval that a filter matches on chain. -/
theorem restarted_rows (keyed : Keyed sources storeKey)
    (sessions : Sessions sources chain storeKey store before) (on : settings.checks ≠ .off)
    (run : Durable.InSession sources settings chain storeKey store before s)
    {att : Attempt A T} (mem : att ∈ s.sync.attempts) {logs : List (Nat × ChainLog A T)}
    (resolved : att.status = .resolved logs) (bn : Nat) (log : ChainLog A T) :
    (bn, log) ∈ logs ↔ att.interval.1 ≤ bn ∧ bn ≤ att.interval.2 ∧ log ∈ chain bn ∧
      ∃ filter ∈ sources.logFilters, isLogFilterMatched filter log bn = true ∧
        ∀ id, filter.address = .factory id →
          ∃ m ≤ bn, log.address ∈ sources.creations chain id m := by
  obtain ⟨ledger, _⟩ := run.kept keyed on (sessions.complete keyed)
  have sound := ledger.books.sound.attempts att mem
  unfold AttemptSound at sound
  rw [resolved] at sound
  exact sound.2 bn log

end Main

/-! ## Two sessions -/

/-- Block 3 creates child 7, and in block 7 two addresses emit the same event. -/
def sessionChain : Chain Nat Nat := fun bn =>
  if bn = 3 then [⟨0, 1, [100, 7], ""⟩]
  else if bn = 7 then [⟨0, 7, [200], ""⟩, ⟨1, 8, [200], ""⟩]
  else []

/-- A session that is sent one interval: its scan has so many blocks, its stream so many steps. -/
def sessionActions (interval : Interval) (blocks advances : Nat) (persist : List Turn) :
    List DurableAction :=
  [.background (.refreshPortalHead 9), .background (.ensureChunkSize none), .enter interval,
    .turn 0 .serve, .background (.discovery (.start 0))] ++
  List.replicate blocks (.background (.discovery (.deliver 0 0))) ++
  [.background (.discovery (.resolve 0)), .background (.pass 0 0)] ++
  List.replicate advances (.background (.advance 0 0)) ++
  persist.map (.turn 0) ++ [.turn 0 (.finish false), .turn 0 .commit]

def firstSession : Durable Unit Nat Nat Unit Unit :=
  (Machine.replay (Durable.step (childSources.restarted (fun _ => ()) []) childSettings sessionChain
    fun _ => ()) (Durable.restart childSources childSettings sessionChain (fun _ => ()) [])
      (sessionActions (2, 5) 4 9 [.persist, .read, .insert])).get (by decide +kernel)

theorem firstSession_run :
    Durable.InSession childSources childSettings sessionChain (fun _ => ()) [] [] firstSession :=
  Machine.Reach.init.replay (by decide +kernel) (Option.some_get (by decide +kernel)).symm

theorem childSources_keyed : Keyed childSources fun _ => () := fun _ _ _ => ⟨rfl, rfl⟩

theorem firstSession_on : childSettings.checks ≠ .off := by decide

theorem restarted_children_first :
    (getChildAddresses (fun _ => ()) firstSession.store ()).get? 7 = some ((3 : Nat) : Int) :=
  restarted_children childSources_keyed
    (Sessions.fresh.stop firstSession_on firstSession_run)
    (f := ()) (by decide) (b := 3) (by decide) (by decide) (by decide +kernel)

/-- The child that the second session knows from the store alone. -/
def secondSession : Durable Unit Nat Nat Unit Unit :=
  (Machine.replay (Durable.step (childSources.restarted (fun _ => ()) firstSession.store)
    childSettings sessionChain fun _ => ())
    (Durable.restart childSources childSettings sessionChain (fun _ => ()) firstSession.store)
      (sessionActions (6, 8) 3 8 [.persist])).get (by decide +kernel)

def secondAttempt : Attempt Nat Nat := secondSession.sync.attempts.get ⟨0, by decide +kernel⟩

theorem restarted_rows_second :
    secondAttempt.status = .resolved [(7, ⟨0, 7, [200], ""⟩)] ∧
      ∀ bn log, (bn, log) ∈ [(7, (⟨0, 7, [200], ""⟩ : ChainLog Nat Nat))] ↔
        secondAttempt.interval.1 ≤ bn ∧ bn ≤ secondAttempt.interval.2 ∧ log ∈ sessionChain bn ∧
          ∃ filter ∈ childSources.logFilters, isLogFilterMatched filter log bn = true ∧
            ∀ id, filter.address = .factory id →
              ∃ m ≤ bn, log.address ∈ childSources.creations sessionChain id m := by
  have sessions : Sessions childSources sessionChain (fun _ => ()) firstSession.store
      ([] ++ firstSession.committed) :=
    Sessions.fresh.stop firstSession_on firstSession_run
  have run : Durable.InSession childSources childSettings sessionChain (fun _ => ())
      firstSession.store ([] ++ firstSession.committed) secondSession :=
    Machine.Reach.init.replay (by decide +kernel) (Option.some_get (by decide +kernel)).symm
  have resolved : secondAttempt.status = .resolved [(7, ⟨0, 7, [200], ""⟩)] := by decide +kernel
  exact ⟨resolved, restarted_rows childSources_keyed sessions (by decide) run (List.get_mem _ _)
    resolved⟩

end PortalPonder.Historical
