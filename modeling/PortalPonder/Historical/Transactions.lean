import PortalPonder.Historical.Discovered
import PortalPonder.Historical.Queue

/-!
# Intervals and their transactions

`syncBlockRangeData` runs inside the transaction that marks its interval cached. The children that
were discovered in the interval are taken from the queue and inserted by that transaction, on both
serving paths; a flush is remembered until the interval is entered again, so that the retry of a
transaction that was rolled back can insert it. Intervals are pipelined, so that several
transactions are open at once, and scans run between any two steps.

The RPC historical sync serves an interval past the head. It takes up the factory logs of the
interval one after the other, and inserts the children that are not in the child map it shares.
-/

namespace PortalPonder.Historical

open Discovery

/-- Two intervals do not meet. -/
def Apart (one two : Interval) : Prop := one.2 < two.1 ∨ two.2 < one.1

instance (one two : Interval) : Decidable (Apart one two) :=
  inferInstanceAs (Decidable (_ ∨ _))

abbrev Flush (F A : Type) := OrdMap (F × A) Int

/-- A row of the store: a child of a stored factory, and its block. -/
abbrev StoredChild (K A : Type) := (K × A) × Int

/-- Where a transaction stands. On the Portal path it has an attempt, else the interval is
delegated. -/
inductive Stage (F A K : Type) where
  /-- the head and the chunk size are awaited -/
  | entered
  /-- the chunks are awaited -/
  | fetching (attempt : Nat)
  /-- a flush is compared with the stored children -/
  | reading (attempt : Option Nat) (flush : Flush F A)
  | inserting (attempt : Option Nat) (flush : Flush F A) (rows : List (StoredChild K A))
  | assembling (attempt : Nat)
  /-- factory logs that are still to be taken up -/
  | delegated (todo : List (F × Nat × A))
  | served
  | committed
  | rolledBack

namespace Stage

variable {F A K : Type}

def isCommitted : Stage F A K → Bool
  | .committed => true
  | _ => false

def isRolledBack : Stage F A K → Bool
  | .rolledBack => true
  | _ => false

/-- Delegated, and what was queued is taken. -/
def isDelegated : Stage F A K → Bool
  | .reading none _ | .inserting none _ _ | .delegated _ => true
  | _ => false

def todo : Stage F A K → List (F × Nat × A)
  | .delegated todo => todo
  | _ => []

end Stage

structure Transaction (F A K : Type) where
  interval : Interval
  stage : Stage F A K
  /-- inserted by the transaction -/
  rows : List (StoredChild K A)
  /-- what the RPC historical sync has recorded in the child map, and inserted -/
  found : List ((F × A) × Int)

structure Durable (F A T R K : Type) where
  sync : RangeSync F A T R
  pendingFlushes : OrdMap Interval (Flush F A)
  transactions : List (Transaction F A K)
  /-- the committed children -/
  store : List (StoredChild K A)

/-- What one transaction can do next. -/
inductive Turn where
  | serve
  | delegate
  /-- the chunks are there -/
  | persist
  | read
  | insert
  /-- the read or an insert throws -/
  | reject
  /-- the RPC historical sync takes up a factory log -/
  | record (j : Nat)
  | finish (saturated : Bool)
  /-- the RPC historical sync resolves -/
  | resolve
  | commit
  | rollback
  deriving DecidableEq, Repr

inductive DurableAction where
  /-- the event loop, with the scans -/
  | background (a : CacheAction)
  | enter (interval : Interval)
  | turn (i : Nat) (turn : Turn)
  deriving DecidableEq, Repr

def MAX_PENDING_FLUSHES : Nat := 32

variable {F A T R K : Type}

/-- The oldest entry goes when there are too many. -/
def pruned (flushes : OrdMap Interval (Flush F A)) : OrdMap Interval (Flush F A) :=
  if flushes.size > MAX_PENDING_FLUSHES then
    match flushes.keys.head? with
    | none => flushes
    | some oldest => flushes.delete oldest
  else flushes

/-- The least block of each child of a stored factory, where it is absent or strictly earlier. -/
def dedupeAgainst [DecidableEq A] [DecidableEq K] (storeKey : F → K) (flush : Flush F A)
    (stored : List (StoredChild K A)) : List (StoredChild K A) :=
  (lowerAll OrdMap.empty
    (flush.entries.map fun e => ((storeKey e.1.1, e.1.2), e.2))).entries.filter fun e =>
      stored.all fun r => r.1 ≠ e.1 || e.2 < r.2

variable [DecidableEq F] [DecidableEq A] [DecidableEq T] [DecidableEq K]

/-- The factory logs of an interval. -/
def Sources.factoryLogs (sources : Sources F A T R) (chain : Chain A T) (interval : Interval) :
    List (F × Nat × A) :=
  sources.factories.flatMap fun f =>
    (List.range (interval.2 + 1 - interval.1)).flatMap fun i =>
      (sources.creations chain f (interval.1 + i : Nat)).map fun c => (f, interval.1 + i, c)

namespace Durable

variable (sources : Sources F A T R) (settings : Settings) (chain : Chain A T) (storeKey : F → K)

def init : Durable F A T R K where
  sync := RangeSync.init sources settings chain
  pendingFlushes := OrdMap.empty
  transactions := []
  store := sources.factories.flatMap fun f =>
    (sources.preloaded f).entries.map fun e => ((storeKey f, e.1), e.2)

variable (s : Durable F A T R K)

def disc : Discovery F A := s.sync.cache.disc.disc

def set (i : Nat) (tx : Transaction F A K) : Durable F A T R K :=
  { s with transactions := s.transactions.set i tx }

/-- A flush goes back into the queue. -/
def restore (interval : Interval) (flush : Flush F A) : Durable F A T R K :=
  { s with
    sync := s.sync.requeue (s.disc.restorePending flush).pendingChildren
    pendingFlushes := s.pendingFlushes.delete interval }

/-- The same interval is entered again after a rollback: its flush is restored. -/
def enter (interval : Interval) : Durable F A T R K :=
  let restored :=
    match s.pendingFlushes.get? interval with
    | none => s
    | some flush => s.restore interval flush
  { restored with transactions := s.transactions ++ [⟨interval, .entered, [], []⟩] }

/-- Behind the flush. -/
def flushed (interval : Interval) : Option Nat → Stage F A K
  | some k => .assembling k
  | none => .delegated (sources.factoryLogs chain interval)

def persistPendingChildren (i : Nat) (tx : Transaction F A K) (attempt : Option Nat) :
    Durable F A T R K :=
  let taken := s.disc.takePendingInRange tx.interval.1 tx.interval.2
  let s := { s with sync := s.sync.requeue taken.2.pendingChildren }
  if taken.1.entries.isEmpty = true then
    s.set i { tx with stage := flushed sources chain tx.interval attempt }
  else
    { s with pendingFlushes := pruned (s.pendingFlushes.set tx.interval taken.1) }.set i
      { tx with stage := .reading attempt taken.1 }

/-- A rejected chunk, or a later failure, fails the attempt. -/
def abort : Option Nat → RangeSync F A T R
  | none => s.sync
  | some k => (s.sync.abort k).getD s.sync

/-- The RPC historical sync records and inserts a child that is not in the child map. -/
def takeUp (i : Nat) (tx : Transaction F A K) (todo : List (F × Nat × A)) (f : F) (b : Nat) (c : A) :
    Durable F A T R K :=
  if ((s.disc.childAddresses f).get? c).isSome = true then
    s.set i { tx with stage := .delegated todo }
  else
    { s with sync := { s.sync with cache := s.sync.cache.share f b c } }.set i
      { tx with
        stage := .delegated todo
        rows := tx.rows ++ [((storeKey f, c), (b : Int))]
        found := tx.found ++ [((f, c), (b : Int))] }

def isResolved (sync : RangeSync F A T R) (k : Nat) : Bool :=
  (sync.attempts[k]?).any fun att => att.status.isResolved

def turn (i : Nat) (tx : Transaction F A K) : Turn → Option (Durable F A T R K)
  | .serve =>
      match tx.stage with
      | .entered =>
          (s.sync.serve sources settings chain tx.interval).map fun sync =>
            { s with sync }.set i { tx with stage := .fetching s.sync.attempts.length }
      | _ => none
  | .delegate =>
      match tx.stage with
      | .entered =>
          if s.sync.cache.portalHead.all (isFinalityGap tx.interval.2) = true then
            some (s.persistPendingChildren sources chain i tx none)
          else none
      | _ => none
  | .persist =>
      match tx.stage with
      | .fetching k =>
          match s.sync.attempts[k]? with
          | none => none
          | some att =>
              if att.status = .waiting ∧
                  (att.calls.all fun call => s.sync.cache.promiseOf call matches some .done) = true
              then some (s.persistPendingChildren sources chain i tx (some k))
              else none
      | _ => none
  | .read =>
      match tx.stage with
      | .reading attempt flush =>
          some (s.set i { tx with
            stage := .inserting attempt flush (dedupeAgainst storeKey flush (s.store ++ tx.rows)) })
      | _ => none
  | .insert =>
      match tx.stage with
      | .inserting attempt _ rows =>
          some (s.set i { tx with
            rows := tx.rows ++ rows
            stage := flushed sources chain tx.interval attempt })
      | _ => none
  | .reject =>
      match tx.stage with
      | .reading attempt flush | .inserting attempt flush _ =>
          some (({ s with sync := s.abort attempt }.restore tx.interval flush).set i
            { tx with stage := .rolledBack })
      | _ => none
  | .record j =>
      match tx.stage with
      | .delegated todo =>
          match todo[j]? with
          | none => none
          | some (f, b, c) => some (s.takeUp storeKey i tx (todo.eraseIdx j) f b c)
      | _ => none
  | .finish saturated =>
      match tx.stage with
      | .assembling k =>
          (s.sync.finish sources settings chain k saturated).map fun sync =>
            { s with sync }.set i
              { tx with stage := if isResolved sync k = true then .served else .rolledBack }
      | _ => none
  | .resolve =>
      match tx.stage with
      | .delegated [] => some (s.set i { tx with stage := .served })
      | _ => none
  | .commit =>
      match tx.stage with
      | .served =>
          some ({ s with store := s.store ++ tx.rows }.set i { tx with stage := .committed })
      | _ => none
  | .rollback =>
      match tx.stage with
      | .entered | .delegated _ | .served => some (s.set i { tx with stage := .rolledBack })
      | .fetching k =>
          (s.sync.abort k).map fun sync => { s with sync }.set i { tx with stage := .rolledBack }
      | .assembling k =>
          some ({ s with sync := s.abort (some k) }.set i { tx with stage := .rolledBack })
      | _ => none

def step (s : Durable F A T R K) : DurableAction → Option (Durable F A T R K)
  | .background a =>
      (s.sync.step sources settings chain (.cache a)).map fun sync => { s with sync }
  | .enter interval => some (s.enter interval)
  | .turn i turn =>
      match s.transactions[i]? with
      | none => none
      | some tx => s.turn sources settings chain storeKey i tx turn

/-! ## The environment -/

def isCommittedAt (s : Durable F A T R K) (b : Nat) : Bool :=
  s.transactions.any fun tx =>
    tx.stage.isCommitted && decide (tx.interval.1 ≤ b ∧ b ≤ tx.interval.2)

/-- Intervals lie within the backfill and do not overlap, and an interval is entered again only
when its transaction has been rolled back. They are dispatched in turn. -/
def Allowed (s : Durable F A T R K) : DurableAction → Prop
  | .background _ => True
  | .enter interval =>
      interval.1 ≤ interval.2 ∧ (∀ last ∈ sources.backfillEnd, interval.2 ≤ last) ∧
        ∀ tx ∈ s.transactions, Apart tx.interval interval ∨
          tx.interval = interval ∧ tx.stage.isRolledBack = true
  | .turn i .serve =>
      ∀ tx ∈ s.transactions[i]?, s.sync.Allowed sources chain (.serve tx.interval)
  | .turn _ _ => True

/-- When a turn loses no child. -/
def HarmlessTurn (s : Durable F A T R K) (tx : Transaction F A K) : Turn → Prop
  | .persist | .delegate =>
      -- the flush that is forgotten is committed
      (s.disc.takePendingInRange tx.interval.1 tx.interval.2).1.entries ≠ [] →
        MAX_PENDING_FLUSHES ≤ s.pendingFlushes.size →
          ∀ oldest ∈ s.pendingFlushes.keys.head?, ∃ other ∈ s.transactions,
            other.interval = oldest ∧ other.stage.isCommitted = true
  | .record j =>
      -- the child is not known from a later block
      ∀ log ∈ tx.stage.todo[j]?, ∀ m ∈ (s.disc.childAddresses log.1).get? log.2.2,
        m ≤ (log.2.1 : Int)
  | .rollback => tx.found = []
  | .commit =>
      -- a child of the interval that is known from below it was loaded, or created in an interval
      -- that is committed
      ∀ log ∈ sources.factoryLogs chain tx.interval,
        (∀ r ∈ tx.rows, r.1 = (storeKey log.1, log.2.2) → (log.2.1 : Int) < r.2) →
          ∀ m ∈ (s.disc.childAddresses log.1).get? log.2.2, m < (tx.interval.1 : Int) →
            ∃ n < tx.interval.1, sources.preloaded.Has log.1 log.2.2 n ∨
              log.2.2 ∈ sources.creations chain log.1 n ∧ s.isCommittedAt n = true
  | _ => True

/-- When a step loses no child. -/
def Harmless (s : Durable F A T R K) : DurableAction → Prop
  | .background a =>
      -- no child is found in an interval that is delegated
      ∀ d ∈ s.sync.cache.delivered a, ∀ c ∈ sources.creations chain d.1 d.2,
        isNews ((s.disc.childAddresses d.1).get? c) d.2 = true →
          ∀ tx ∈ s.transactions, tx.stage.isDelegated = true →
            ¬((tx.interval.1 : Int) ≤ d.2 ∧ d.2 ≤ tx.interval.2)
  | .enter _ => True
  | .turn i turn => ∀ tx ∈ s.transactions[i]?, s.HarmlessTurn sources chain storeKey tx turn

instance (s : Durable F A T R K) (a : DurableAction) : Decidable (s.Allowed sources chain a) := by
  unfold Allowed
  split <;> infer_instance

instance (s : Durable F A T R K) (tx : Transaction F A K) (turn : Turn) :
    Decidable (s.HarmlessTurn sources chain storeKey tx turn) := by
  unfold HarmlessTurn Children.Has
  split <;> infer_instance

instance (s : Durable F A T R K) (a : DurableAction) :
    Decidable (s.Harmless sources chain storeKey a) := by
  unfold Harmless
  split <;> infer_instance

end Durable

end PortalPonder.Historical
