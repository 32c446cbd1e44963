import PortalPonder.Historical.Transactions

/-!
# The children are accounted for

Every child that the child map holds is accounted for: it is stored, or queued, or in a flush that
is remembered, or the RPC historical sync has inserted it. What is known of a transaction depends
on its stage; the steps of the others leave it as it is.
-/

namespace PortalPonder.Historical

open Discovery

/-! ## Rows -/

section Rows

variable {F A K : Type} {storeKey : F → K} {rows rows' : List (StoredChild K A)} {k : F × A}
  {b b' : Int}

/-- There is a row for a child, at a block or below it. -/
def Inserted (storeKey : F → K) (rows : List (StoredChild K A)) (k : F × A) (b : Int) : Prop :=
  ∃ b' ≤ b, ((storeKey k.1, k.2), b') ∈ rows

theorem Inserted.le (inserted : Inserted storeKey rows k b') (le : b' ≤ b) :
    Inserted storeKey rows k b := by
  obtain ⟨m, below, row⟩ := inserted
  exact ⟨m, Int.le_trans below le, row⟩

theorem Inserted.mono (inserted : Inserted storeKey rows k b) (sub : ∀ r ∈ rows, r ∈ rows') :
    Inserted storeKey rows' k b := by
  obtain ⟨m, below, row⟩ := inserted
  exact ⟨m, below, sub _ row⟩

/-- What is not inserted is stored already. -/
theorem dedupeAgainst_inserted [DecidableEq A] [DecidableEq K] (storeKey : F → K)
    (flush : Flush F A) (stored : List (StoredChild K A)) {e : (F × A) × Int}
    (mem : e ∈ flush.entries) :
    Inserted storeKey (stored ++ dedupeAgainst storeKey flush stored) e.1 e.2 := by
  obtain ⟨b, le, least⟩ : ∃ b ≤ e.2, (lowerAll OrdMap.empty (flush.entries.map fun e =>
      ((storeKey e.1.1, e.1.2), e.2))).get? (storeKey e.1.1, e.1.2) = some b :=
    lowerAll_takes (List.mem_map.2 ⟨e, mem, rfl⟩)
  have entry := OrdMap.mem_of_get? _ least
  by_cases absent : stored.all (fun r => r.1 ≠ (storeKey e.1.1, e.1.2) || b < r.2) = true
  · exact ⟨b, le, List.mem_append_right _ (List.mem_filter.2 ⟨entry, absent⟩)⟩
  · obtain ⟨r, row, present⟩ := List.all_eq_false.1 (Bool.eq_false_iff.2 absent)
    simp only [Bool.or_eq_true, decide_eq_true_eq, not_or, not_not, not_lt] at present
    refine ⟨r.2, Int.le_trans present.2 le, List.mem_append_left _ ?_⟩
    rw [← present.1]
    exact row

end Rows

/-! ## The flushes that are remembered -/

section Flushes

variable {F A : Type} {flushes : OrdMap Interval (Flush F A)} {interval : Interval}
  {flush : Flush F A}

theorem get?_of_pruned (found : (pruned flushes).get? interval = some flush) :
    flushes.get? interval = some flush := by
  unfold pruned at found
  split at found
  · split at found
    · exact found
    · next oldest _ =>
        rw [OrdMap.get?_delete] at found
        split at found
        · cases found
        · exact found
  · exact found

/-- A flush is there still, unless it was the oldest of too many. -/
theorem get?_pruned (found : flushes.get? interval = some flush) :
    (pruned flushes).get? interval = some flush ∨
      MAX_PENDING_FLUSHES < flushes.size ∧ flushes.keys.head? = some interval := by
  unfold pruned
  split
  · next many =>
      split
      · exact .inl found
      · next oldest first =>
          by_cases same : interval = oldest
          · exact .inr ⟨many, same ▸ first⟩
          · rw [OrdMap.get?_delete_of_ne _ same]
            exact .inl found
  · exact .inl found

end Flushes

/-! ## Intervals -/

def Inside (interval : Interval) (b : Int) : Prop := (interval.1 : Int) ≤ b ∧ b ≤ interval.2

theorem Apart.outside {one two : Interval} (apart : Apart one two) {b : Int}
    (inside : Inside one b) : ¬Inside two b := by
  unfold Apart at apart
  unfold Inside at inside ⊢
  omega

theorem Apart.ne {one two : Interval} (apart : Apart one two) (ordered : two.1 ≤ two.2) :
    one ≠ two := by
  rintro rfl
  unfold Apart at apart
  omega

theorem Apart.symm {one two : Interval} (apart : Apart one two) : Apart two one := Or.symm apart

theorem Stage.eq_committed {F A K : Type} {stage : Stage F A K}
    (committed : stage.isCommitted = true) : stage = .committed := by
  cases stage <;> first | rfl | cases committed

namespace Durable

variable {F A T R K : Type} [DecidableEq A] {storeKey : F → K} {s t u : Durable F A T R K}
  {tx tx' : Transaction F A K} {left : List ((F × A) × Int)} {interval : Interval}

/-- The block a child is known from. -/
def known (s : Durable F A T R K) (k : F × A) : Option Int := (s.disc.childAddresses k.1).get? k.2

/-- A child is stored or inserted by a transaction, or it is in what is left of its flush. -/
def Holds (storeKey : F → K) (s : Durable F A T R K) (tx : Transaction F A K)
    (left : List ((F × A) × Int)) (k : F × A) (b : Int) : Prop :=
  Inserted storeKey (s.store ++ tx.rows) k b ∨ ∃ b' ≤ b, (k, b') ∈ left

/-- The child of a factory log is held, or known from below the interval. -/
def Covers (storeKey : F → K) (s : Durable F A T R K) (tx : Transaction F A K)
    (left : List ((F × A) × Int)) (log : F × Nat × A) : Prop :=
  Holds storeKey s tx left (log.1, log.2.2) log.2.1 ∨
    ∃ m, s.known (log.1, log.2.2) = some m ∧ m < tx.interval.1

/-- The flush that is remembered for the interval is inserted. -/
def Remembers (storeKey : F → K) (s : Durable F A T R K) (tx : Transaction F A K) : Prop :=
  ∀ flush, s.pendingFlushes.get? tx.interval = some flush →
    ∀ e ∈ flush.entries, Inserted storeKey (s.store ++ tx.rows) e.1 e.2

/-- The flush of a transaction is the one that is remembered. -/
structure Flushing (s : Durable F A T R K) (tx : Transaction F A K) (flush : Flush F A) : Prop where
  known : ∀ e ∈ flush.entries, ∃ m ≤ e.2, s.known e.1 = some m
  remembered : ∀ other, s.pendingFlushes.get? tx.interval = some other → other = flush

/-! ## What the others see -/

/-- What a transaction sees of the steps of others. -/
structure Onto (s t : Durable F A T R K) (tx : Transaction F A K) : Prop where
  store : ∀ r ∈ s.store, r ∈ t.store
  flushes : ∀ flush, t.pendingFlushes.get? tx.interval = some flush →
    s.pendingFlushes.get? tx.interval = some flush
  attempts : ∀ (k : Nat) (att : Attempt A T), s.sync.attempts[k]? = some att →
    ∃ att', t.sync.attempts[k]? = some att' ∧ att'.interval = att.interval
  lower : ∀ k m, s.known k = some m → ∃ m' ≤ m, t.known k = some m'
  inside : tx.stage.isDelegated = true → ∀ k m, t.known k = some m → Inside tx.interval m →
    s.known k = some m

omit [DecidableEq A] in
theorem Holds.le {k : F × A} {b b' : Int} (holds : Holds storeKey s tx left k b')
    (le : b' ≤ b) : Holds storeKey s tx left k b := by
  rcases holds with inserted | ⟨m, below, entry⟩
  · exact .inl (inserted.le le)
  · exact .inr ⟨m, Int.le_trans below le, entry⟩

omit [DecidableEq A] in
/-- Nothing is left of a flush that is inserted. -/
theorem Holds.inserted {rows : List (StoredChild K A)} {k : F × A} {b : Int}
    (holds : Holds storeKey s tx left k b)
    (inserted : ∀ e ∈ left, Inserted storeKey (s.store ++ (tx.rows ++ rows)) e.1 e.2) :
    Inserted storeKey (s.store ++ (tx.rows ++ rows)) k b := by
  rcases holds with before | ⟨m, below, entry⟩
  · refine before.mono fun r mem => ?_
    rw [← List.append_assoc]
    exact List.mem_append_left _ mem
  · exact (inserted _ entry).le below

omit [DecidableEq A] in
theorem Holds.mono {k : F × A} {b : Int} (holds : Holds storeKey s tx left k b)
    (sub : ∀ r ∈ s.store ++ tx.rows, r ∈ t.store ++ tx'.rows) :
    Holds storeKey t tx' left k b :=
  holds.imp_left fun inserted => inserted.mono sub

theorem Covers.mono {log : F × Nat × A} (covers : Covers storeKey s tx left log)
    (sub : ∀ r ∈ s.store ++ tx.rows, r ∈ t.store ++ tx'.rows) (same : tx'.interval = tx.interval)
    (lower : ∀ k m, s.known k = some m → ∃ m' ≤ m, t.known k = some m') :
    Covers storeKey t tx' left log := by
  rcases covers with holds | ⟨m, known, below⟩
  · exact .inl (holds.mono sub)
  · obtain ⟨m', le, known'⟩ := lower _ m known
    exact .inr ⟨m', known', by rw [same]; omega⟩

namespace Onto

theorem sub (onto : Onto s t tx) (rows : List (StoredChild K A)) :
    ∀ r ∈ s.store ++ rows, r ∈ t.store ++ rows := by
  intro r mem
  rcases List.mem_append.1 mem with stored | own
  · exact List.mem_append_left _ (onto.store r stored)
  · exact List.mem_append_right _ own

theorem none (onto : Onto s t tx) (none_ : s.pendingFlushes.get? tx.interval = Option.none) :
    t.pendingFlushes.get? tx.interval = Option.none := by
  cases here : t.pendingFlushes.get? tx.interval with
  | none => rfl
  | some flush =>
      rw [onto.flushes flush here] at none_
      cases none_

theorem flushing (onto : Onto s t tx) {flush : Flush F A} (flushing : Flushing s tx flush) :
    Flushing t tx flush := by
  refine ⟨fun e mem => ?_, fun other here => flushing.remembered other (onto.flushes other here)⟩
  obtain ⟨m, le, known⟩ := flushing.known e mem
  obtain ⟨m', lower, known'⟩ := onto.lower _ m known
  exact ⟨m', Int.le_trans lower le, known'⟩

theorem remembers (onto : Onto s t tx) (remembers : Remembers storeKey s tx) :
    Remembers storeKey t tx := fun flush here e mem =>
  (remembers flush (onto.flushes flush here) e mem).mono (onto.sub _)

theorem covers (onto : Onto s t tx) {log : F × Nat × A} (covers : Covers storeKey s tx left log) :
    Covers storeKey t tx left log := covers.mono (onto.sub _) rfl onto.lower

end Onto

/-- No transaction looks at the table. -/
theorem Onto.table (s : Durable F A T R K) (table : List (Transaction F A K))
    (tx : Transaction F A K) : Onto s { s with transactions := table } tx :=
  ⟨fun _ mem => mem, fun _ here => here, fun _ att here => ⟨att, here, rfl⟩,
    fun _ m known => ⟨m, Int.le_refl m, known⟩, fun _ _ _ known _ => known⟩

/-- What the step of one transaction changes. -/
structure Frame (s t : Durable F A T R K) (interval : Interval) : Prop where
  store : ∀ r ∈ s.store, r ∈ t.store
  flushes : ∀ other ≠ interval, ∀ flush, t.pendingFlushes.get? other = some flush →
    s.pendingFlushes.get? other = some flush
  attempts : ∀ (k : Nat) (att : Attempt A T), s.sync.attempts[k]? = some att →
    ∃ att', t.sync.attempts[k]? = some att' ∧ att'.interval = att.interval
  lower : ∀ k m, s.known k = some m → ∃ m' ≤ m, t.known k = some m'
  inside : ∀ k m, t.known k = some m → s.known k = some m ∨ Inside interval m

theorem Frame.trans (one : Frame s t interval) (two : Frame t u interval) :
    Frame s u interval := by
  refine ⟨fun r mem => two.store r (one.store r mem),
    fun other ne flush here => one.flushes other ne flush (two.flushes other ne flush here),
    fun k att here => ?_, fun k m known => ?_, fun k m known => ?_⟩
  · obtain ⟨att', here', same⟩ := one.attempts k att here
    obtain ⟨att'', here'', same'⟩ := two.attempts k att' here'
    exact ⟨att'', here'', same'.trans same⟩
  · obtain ⟨m', le, known'⟩ := one.lower k m known
    obtain ⟨m'', le', known''⟩ := two.lower k m' known'
    exact ⟨m'', Int.le_trans le' le, known''⟩
  · exact (two.inside k m known).elim (one.inside k m) .inr

theorem Frame.onto (frame : Frame s t interval) (ordered : interval.1 ≤ interval.2)
    (apart : Apart tx.interval interval) : Onto s t tx :=
  ⟨frame.store, frame.flushes tx.interval (apart.ne ordered), frame.attempts, frame.lower,
    fun _ k m known inside => (frame.inside k m known).resolve_right (apart.outside inside)⟩

theorem Frame.table (frame : Frame s t interval) (table : List (Transaction F A K)) :
    Frame s { t with transactions := table } interval :=
  ⟨frame.store, frame.flushes, frame.attempts, frame.lower, frame.inside⟩

/-- Nothing but the store changes, which grows. -/
theorem Frame.stored (s : Durable F A T R K) (interval : Interval) (rows : List (StoredChild K A)) :
    Frame s { s with store := s.store ++ rows } interval :=
  ⟨fun _ mem => List.mem_append_left _ mem, fun _ _ _ here => here,
    fun _ att here => ⟨att, here, rfl⟩, fun _ m known => ⟨m, Int.le_refl m, known⟩,
    fun _ _ known => .inl known⟩

variable [DecidableEq F]

theorem Frame.restore (s : Durable F A T R K) (interval : Interval) (flush : Flush F A) :
    Frame s (s.restore interval flush) interval := by
  refine ⟨fun _ mem => mem, fun other ne flush' here => ?_, fun k att here => ⟨att, here, rfl⟩,
    fun k m known => ⟨m, Int.le_refl m, known⟩, fun k m known => .inl known⟩
  have here : (s.pendingFlushes.delete interval).get? other = some flush' := here
  rw [OrdMap.get?_delete_of_ne _ ne] at here
  exact here

theorem Frame.sync {sync : RangeSync F A T R}
    (proceeds : RangeSync.Proceeds (fun _ _ _ => False) s.sync sync) (interval : Interval) :
    Frame s { s with sync } interval :=
  ⟨fun _ mem => mem, fun _ _ _ here => here, proceeds.attempts,
    fun k _ known => Queued.lower proceeds.queues k known,
    fun k _ known => .inl ((Queued.same proceeds.queues k).1.symm.trans known)⟩

variable [DecidableEq T] {sources : Sources F A T R} {settings : Settings} {chain : Chain A T}

/-! ## What every run keeps -/

theorem mem_factoryLogs {log : F × Nat × A} :
    log ∈ sources.factoryLogs chain interval ↔ log.1 ∈ sources.factories ∧
      Inside interval log.2.1 ∧ log.2.2 ∈ sources.creations chain log.1 log.2.1 := by
  unfold Sources.factoryLogs Inside
  simp only [List.mem_flatMap, List.mem_map, List.mem_range]
  constructor
  · rintro ⟨f, factory, i, within, c, created, rfl⟩
    exact ⟨factory, by dsimp only; omega, created⟩
  · rintro ⟨factory, ⟨low, high⟩, created⟩
    have block : interval.1 + (log.2.1 - interval.1) = log.2.1 := by omega
    refine ⟨log.1, factory, log.2.1 - interval.1, by omega, log.2.2, ?_, ?_⟩
    · rw [block]
      exact created
    · rw [block]

/-- The children that are known from the interval are held. -/
def Tracks (sources : Sources F A T R) (storeKey : F → K) (s : Durable F A T R K)
    (tx : Transaction F A K) (left : List ((F × A) × Int)) : Prop :=
  ∀ k, k.1 ∈ sources.factories → ∀ m, s.known k = some m → Inside tx.interval m →
    Holds storeKey s tx left k m

/-- What holds behind the flush. On the Portal path the children of the interval are known. -/
def Owes (sources : Sources F A T R) (chain : Chain A T) (storeKey : F → K)
    (s : Durable F A T R K) (tx : Transaction F A K) (left : List ((F × A) × Int)) :
    Option Nat → Prop
  | some _ => ∀ log ∈ sources.factoryLogs chain tx.interval, Covers storeKey s tx left log
  | none => Tracks sources storeKey s tx left

/-- What is known of a transaction. -/
def TxSound (sources : Sources F A T R) (chain : Chain A T) (storeKey : F → K)
    (s : Durable F A T R K) (tx : Transaction F A K) : Prop :=
  match tx.stage with
  | .entered => tx.found = [] ∧ s.pendingFlushes.get? tx.interval = none
  | .fetching k =>
      tx.found = [] ∧ s.pendingFlushes.get? tx.interval = none ∧
        ∃ att, s.sync.attempts[k]? = some att ∧ att.interval = tx.interval
  | .reading attempt flush =>
      tx.found = [] ∧ Flushing s tx flush ∧
        Owes sources chain storeKey s tx flush.entries attempt
  | .inserting attempt flush rows =>
      tx.found = [] ∧ Flushing s tx flush ∧
        Owes sources chain storeKey s tx flush.entries attempt ∧
          ∀ e ∈ flush.entries, Inserted storeKey (s.store ++ (tx.rows ++ rows)) e.1 e.2
  | .assembling k =>
      tx.found = [] ∧ Remembers storeKey s tx ∧ Owes sources chain storeKey s tx [] (some k)
  | .delegated todo =>
      (∀ e ∈ tx.found, Inside tx.interval e.2) ∧ Remembers storeKey s tx ∧
        Tracks sources storeKey s tx [] ∧
          (∀ log ∈ todo, log ∈ sources.factoryLogs chain tx.interval) ∧
          ∀ log ∈ sources.factoryLogs chain tx.interval,
            log ∈ todo ∨ Covers storeKey s tx [] log
  | .served =>
      (∀ e ∈ tx.found, Inside tx.interval e.2) ∧ Remembers storeKey s tx ∧
        ∀ log ∈ sources.factoryLogs chain tx.interval, Covers storeKey s tx [] log
  | .committed =>
      (∀ e ∈ tx.found, Inside tx.interval e.2) ∧
        (∀ flush, s.pendingFlushes.get? tx.interval = some flush →
          ∀ e ∈ flush.entries, Inserted storeKey s.store e.1 e.2) ∧
        ∀ log ∈ sources.factoryLogs chain tx.interval,
          Inserted storeKey s.store (log.1, log.2.2) log.2.1
  | .rolledBack => True

def queue (s : Durable F A T R K) (k : F × A) : Option Int := s.disc.pendingChildren.get? k

/-- Where a child is that is known from a block. -/
inductive Accounted (storeKey : F → K) (s : Durable F A T R K) (k : F × A) (m : Int) : Prop where
  | stored (inserted : Inserted storeKey s.store k m)
  | queued (here : s.queue k = some m)
  | flushed {interval : Interval} {flush : Flush F A}
      (remembered : s.pendingFlushes.get? interval = some flush) (entry : (k, m) ∈ flush.entries)
  | found {tx : Transaction F A K} (mem : tx ∈ s.transactions)
      (live : tx.stage.isRolledBack = false) (entry : (k, m) ∈ tx.found)

/-- A flush that is remembered for an interval. -/
structure FlushOf (s : Durable F A T R K) (interval : Interval) (flush : Flush F A) : Prop where
  owner : ∃ tx ∈ s.transactions, tx.interval = interval
  inside : ∀ e ∈ flush.entries, Inside interval e.2
  known : ∀ e ∈ flush.entries, ∃ m ≤ e.2, s.known e.1 = some m

/-- What is kept of the child map, the queue, the flushes and the store. -/
structure Books (sources : Sources F A T R) (settings : Settings)
    (chain : Chain A T) (storeKey : F → K) (s : Durable F A T R K) : Prop where
  sound : RangeSync.Sound sources settings chain s.sync
  spanned : s.sync.cache.Spanned (sources.syncDeps settings chain)
  loaded : ∀ f ∈ sources.factories, ∀ c m, sources.preloaded.Has f c m →
    Inserted storeKey s.store (f, c) m
  queued : ∀ k v, s.queue k = some v → ∃ m ≤ v, s.known k = some m
  flushes : ∀ interval flush, s.pendingFlushes.get? interval = some flush →
    FlushOf s interval flush
  accounted : ∀ k, k.1 ∈ sources.factories → ∀ m, s.known k = some m →
    Accounted storeKey s k m

/-- What every run keeps. Two transactions of one interval are not both open. -/
structure Ledger (sources : Sources F A T R) (settings : Settings)
    (chain : Chain A T) (storeKey : F → K) (s : Durable F A T R K) : Prop where
  books : Books sources settings chain storeKey s
  apart : ∀ (i j : Nat) (one two : Transaction F A K), i ≠ j → s.transactions[i]? = some one →
    s.transactions[j]? = some two → Apart one.interval two.interval ∨
      one.interval = two.interval ∧
        (one.stage.isRolledBack = true ∨ two.stage.isRolledBack = true)
  ordered : ∀ tx ∈ s.transactions, tx.interval.1 ≤ tx.interval.2
  ends : ∀ tx ∈ s.transactions, ∀ last ∈ sources.backfillEnd, tx.interval.2 ≤ last
  transactions : ∀ tx ∈ s.transactions, TxSound sources chain storeKey s tx

namespace Onto

omit [DecidableEq T] in
theorem tracks (onto : Onto s t tx) (delegated : tx.stage.isDelegated = true)
    (tracks : Tracks sources storeKey s tx left) : Tracks sources storeKey t tx left :=
  fun k factory m known inside =>
    (tracks k factory m (onto.inside delegated k m known inside) inside).mono (onto.sub _)

theorem owes (onto : Onto s t tx) {attempt : Option Nat}
    (delegated : attempt = Option.none → tx.stage.isDelegated = true)
    (owes : Owes sources chain storeKey s tx left attempt) :
    Owes sources chain storeKey t tx left attempt := by
  cases attempt with
  | none => exact onto.tracks (delegated rfl) owes
  | some k => exact fun log mem => onto.covers (owes log mem)

/-- What is known of a transaction stays so. -/
theorem sound (onto : Onto s t tx) (sound : TxSound sources chain storeKey s tx) :
    TxSound sources chain storeKey t tx := by
  unfold TxSound at sound ⊢
  cases stage : tx.stage with
  | entered =>
      rw [stage] at sound
      exact ⟨sound.1, onto.none sound.2⟩
  | fetching k =>
      rw [stage] at sound
      obtain ⟨found, none_, att, here, same⟩ := sound
      obtain ⟨att', here', same'⟩ := onto.attempts k att here
      exact ⟨found, onto.none none_, att', here', same'.trans same⟩
  | reading attempt flush =>
      rw [stage] at sound
      obtain ⟨found, flushing, owes⟩ := sound
      exact ⟨found, onto.flushing flushing, onto.owes (fun none_ => by rw [stage, none_]; rfl) owes⟩
  | inserting attempt flush rows =>
      rw [stage] at sound
      obtain ⟨found, flushing, owes, inserted⟩ := sound
      exact ⟨found, onto.flushing flushing, onto.owes (fun none_ => by rw [stage, none_]; rfl) owes,
        fun e mem => (inserted e mem).mono (onto.sub _)⟩
  | assembling k =>
      rw [stage] at sound
      obtain ⟨found, remembers, owes⟩ := sound
      exact ⟨found, onto.remembers remembers, fun log mem => onto.covers (owes log mem)⟩
  | delegated todo =>
      rw [stage] at sound
      obtain ⟨found, remembers, tracks, todo, covers⟩ := sound
      exact ⟨found, onto.remembers remembers, onto.tracks (by rw [stage]; rfl) tracks, todo,
        fun log mem => (covers log mem).imp_right onto.covers⟩
  | served =>
      rw [stage] at sound
      obtain ⟨found, remembers, covers⟩ := sound
      exact ⟨found, onto.remembers remembers, fun log mem => onto.covers (covers log mem)⟩
  | committed =>
      rw [stage] at sound
      obtain ⟨found, remembers, inserted⟩ := sound
      exact ⟨found, fun flush here e mem =>
        (remembers flush (onto.flushes flush here) e mem).mono onto.store,
        fun log mem => (inserted log mem).mono onto.store⟩
  | rolledBack => trivial

end Onto

theorem TxSound.over (rolled : tx.stage.isRolledBack = true) :
    TxSound sources chain storeKey s tx := by
  unfold TxSound
  cases stage : tx.stage with
  | rolledBack => trivial
  | _ =>
      rw [stage] at rolled
      cases rolled

/-! ## The books -/

/-- The sync moves; what it records it queues. -/
theorem Books.sync {news : F → A → Int → Prop} (books : Books sources settings chain storeKey s)
    {sync : RangeSync F A T R} (sound : RangeSync.Sound sources settings chain sync)
    (spanned : sync.cache.Spanned (sources.syncDeps settings chain))
    (queues : s.sync.cache.Queues news sync.cache) :
    Books sources settings chain storeKey { s with sync } := by
  refine ⟨sound, spanned, books.loaded, fun k v here => ?_, fun interval flush here => ?_,
    fun k factory m known => ?_⟩
  · rcases queues k.1 k.2 with ⟨same, pending⟩ | ⟨b, _, known, pending, _⟩
    · obtain ⟨m, le, known⟩ := books.queued k v (pending.symm.trans here)
      exact ⟨m, le, same.trans known⟩
    · cases pending.symm.trans here
      exact ⟨v, Int.le_refl v, known⟩
  · obtain ⟨owner, inside, known⟩ := books.flushes interval flush here
    refine ⟨owner, inside, fun e mem => ?_⟩
    obtain ⟨m, le, known⟩ := known e mem
    obtain ⟨m', lower, known'⟩ := Queued.lower queues e.1 known
    exact ⟨m', Int.le_trans lower le, known'⟩
  · rcases queues k.1 k.2 with ⟨same, pending⟩ | ⟨b, _, known', pending, _⟩
    · cases books.accounted k factory m (same.symm.trans known) with
      | stored inserted => exact .stored inserted
      | queued here => exact .queued (pending.trans here)
      | flushed remembered entry => exact .flushed remembered entry
      | found mem live entry => exact .found mem live entry
    · cases known'.symm.trans known
      exact .queued pending

/-- A flush goes back into the queue, and it is forgotten. -/
theorem Books.restore (books : Books sources settings chain storeKey s) {flush : Flush F A}
    (known : ∀ e ∈ flush.entries, ∃ m ≤ e.2, s.known e.1 = some m)
    (remembered : ∀ other, s.pendingFlushes.get? interval = some other → other = flush) :
    Books sources settings chain storeKey (s.restore interval flush) := by
  have queue : ∀ k, (s.restore interval flush).queue k =
      (lowerAll s.disc.pendingChildren flush.entries).get? k := fun k => by
    show (s.disc.restorePending flush).pendingChildren.get? k = _
    rw [restorePending_eq]
  have queued : ∀ k v, (s.restore interval flush).queue k = some v →
      ∃ m ≤ v, s.known k = some m := by
    intro k v here
    rw [queue] at here
    rcases lowerAll_origin here with old | entry
    · exact books.queued k v old
    · exact known _ entry
  -- a child is queued no later than it was, and no earlier than it is known
  have exact_ : ∀ k m, s.known k = some m →
      (∃ b ≤ m, (s.restore interval flush).queue k = some b) →
        (s.restore interval flush).queue k = some m := by
    rintro k m here ⟨b, le, pending⟩
    obtain ⟨m', lower, known'⟩ := queued k b pending
    cases here.symm.trans known'
    rw [pending, Int.le_antisymm le lower]
  refine ⟨books.sound.requeue _, books.spanned.same rfl rfl, books.loaded, queued,
    fun other flush' here => ?_, fun k factory m here => ?_⟩
  · have here : (s.pendingFlushes.delete interval).get? other = some flush' := here
    rw [OrdMap.get?_delete] at here
    split at here
    · cases here
    · obtain ⟨owner, inside, known⟩ := books.flushes other flush' here
      exact ⟨owner, inside, known⟩
  · cases books.accounted k factory m here with
    | stored inserted => exact .stored inserted
    | queued pending =>
        refine .queued (exact_ k m here ?_)
        simp only [queue]
        exact lowerAll_keeps pending
    | @flushed other flush' isOther entry =>
        by_cases same : other = interval
        · subst same
          cases remembered flush' isOther
          refine .queued (exact_ k m here ?_)
          simp only [queue]
          exact lowerAll_takes entry
        · have kept : (s.pendingFlushes.delete interval).get? other = some flush' :=
            (OrdMap.get?_delete_of_ne _ same).trans isOther
          exact .flushed kept entry
    | found mem live entry => exact .found mem live entry

theorem mem_or_mem_set {α : Type} {l : List α} {i : Nat} {a b x : α} (here : l[i]? = some a)
    (mem : x ∈ l) : x = a ∨ x ∈ l.set i b := by
  obtain ⟨j, there⟩ := List.mem_iff_getElem?.1 mem
  by_cases same : i = j
  · subst same
    exact .inl (Option.some.inj (there.symm.trans here))
  · exact .inr (List.mem_of_getElem? ((List.getElem?_set_ne same).trans there))

/-- A transaction is replaced, with what it has found. -/
theorem Books.set (books : Books sources settings chain storeKey s) {i : Nat}
    (here : s.transactions[i]? = some tx) (same : tx'.interval = tx.interval)
    (found : ∀ e ∈ tx.found, e ∈ tx'.found ∧ tx'.stage.isRolledBack = false) :
    Books sources settings chain storeKey (s.set i tx') := by
  have self : tx' ∈ (s.set i tx').transactions :=
    List.mem_of_getElem? (List.getElem?_set_self (List.getElem?_eq_some_iff.1 here).1)
  refine ⟨books.sound, books.spanned, books.loaded, books.queued, fun interval flush isFlush => ?_,
    fun k factory m known => ?_⟩
  · obtain ⟨⟨owner, mem, isOwner⟩, inside, known⟩ := books.flushes interval flush isFlush
    refine ⟨?_, inside, known⟩
    rcases mem_or_mem_set here mem with rfl | other
    · exact ⟨tx', self, same.trans isOwner⟩
    · exact ⟨owner, other, isOwner⟩
  · cases books.accounted k factory m known with
    | stored inserted => exact .stored inserted
    | queued pending => exact .queued pending
    | flushed remembered entry => exact .flushed remembered entry
    | found mem live entry =>
        rcases mem_or_mem_set here mem with rfl | other
        · exact .found self (found _ entry).2 (found _ entry).1
        · exact .found other live entry

/-- An open transaction and the others. -/
theorem Ledger.others (ledger : Ledger sources settings chain storeKey s) {i : Nat}
    (here : s.transactions[i]? = some tx) (live : tx.stage.isRolledBack = false)
    {other : Transaction F A K} (mem : other ∈ s.transactions) :
    other = tx ∨ other.interval = tx.interval ∧ other.stage.isRolledBack = true ∨
      Apart other.interval tx.interval := by
  obtain ⟨j, at_⟩ := List.mem_iff_getElem?.1 mem
  by_cases same : j = i
  · subst same
    exact .inl (Option.some.inj (at_.symm.trans here))
  · rcases ledger.apart j i other tx same at_ here with apart | ⟨is, rolled⟩
    · exact .inr (.inr apart)
    · exact .inr (.inl ⟨is, rolled.resolve_right (by rw [live]; exact Bool.false_ne_true)⟩)

/-- One transaction takes a turn: the others are as they were. -/
theorem Ledger.turned (ledger : Ledger sources settings chain storeKey s) {i : Nat}
    (here : s.transactions[i]? = some tx) (live : tx.stage.isRolledBack = false)
    (table : t.transactions = s.transactions) (same : tx'.interval = tx.interval)
    (books : Books sources settings chain storeKey (t.set i tx')) (frame : Frame s t tx.interval)
    (mine : TxSound sources chain storeKey t tx') :
    Ledger sources settings chain storeKey (t.set i tx') := by
  have mem := List.mem_of_getElem? here
  have at_ : ∀ (j : Nat) (x : Transaction F A K), (t.set i tx').transactions[j]? = some x →
      (i = j ∧ x = tx') ∨ (i ≠ j ∧ s.transactions[j]? = some x) := by
    intro j x there
    have there : (t.transactions.set i tx')[j]? = some x := there
    rw [table] at there
    by_cases isI : i = j
    · subst isI
      rw [List.getElem?_set_self (List.getElem?_eq_some_iff.1 here).1] at there
      exact .inl ⟨rfl, (Option.some.inj there).symm⟩
    · rw [List.getElem?_set_ne isI] at there
      exact .inr ⟨isI, there⟩
  have inSet : ∀ x ∈ (t.set i tx').transactions,
      x = tx' ∨ ∃ j, i ≠ j ∧ s.transactions[j]? = some x := by
    intro x inT
    obtain ⟨j, there⟩ := List.mem_iff_getElem?.1 inT
    rcases at_ j x there with ⟨_, rfl⟩ | ⟨ne, old⟩
    · exact .inl rfl
    · exact .inr ⟨j, ne, old⟩
  refine ⟨books, fun j l one two ne isOne isTwo => ?_, fun x inT => ?_, fun x inT => ?_,
    fun x inT => ?_⟩
  · rcases at_ j one isOne with ⟨rfl, rfl⟩ | ⟨neJ, oldOne⟩
    · rcases at_ l two isTwo with ⟨rfl, rfl⟩ | ⟨neL, oldTwo⟩
      · exact absurd rfl ne
      · rw [same]
        exact (ledger.apart i l tx two neL here oldTwo).imp_right fun ⟨is, rolled⟩ =>
          ⟨is, .inr (rolled.resolve_left (by rw [live]; exact Bool.false_ne_true))⟩
    · rcases at_ l two isTwo with ⟨rfl, rfl⟩ | ⟨neL, oldTwo⟩
      · rw [same]
        exact (ledger.apart j i one tx (Ne.symm neJ) oldOne here).imp_right fun ⟨is, rolled⟩ =>
          ⟨is, .inl (rolled.resolve_right (by rw [live]; exact Bool.false_ne_true))⟩
      · exact ledger.apart j l one two ne oldOne oldTwo
  · rcases inSet x inT with rfl | ⟨j, _, old⟩
    · rw [same]
      exact ledger.ordered tx mem
    · exact ledger.ordered x (List.mem_of_getElem? old)
  · rcases inSet x inT with rfl | ⟨j, _, old⟩
    · rw [same]
      exact ledger.ends tx mem
    · exact ledger.ends x (List.mem_of_getElem? old)
  · rcases inSet x inT with rfl | ⟨j, ne, old⟩
    · exact (Onto.table t _ x).sound mine
    · have sound := ledger.transactions x (List.mem_of_getElem? old)
      rcases ledger.apart j i x tx (Ne.symm ne) old here with apart | ⟨_, rolled⟩
      · exact ((frame.table _).onto (ledger.ordered tx mem) apart).sound sound
      · -- a transaction of the same interval that is over
        exact .over (rolled.resolve_right (by rw [live]; exact Bool.false_ne_true))

end Durable

end PortalPonder.Historical
