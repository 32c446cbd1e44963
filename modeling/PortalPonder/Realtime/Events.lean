import PortalPonder.Lib.Gen
import PortalPonder.Checks
import PortalPonder.Realtime.Reconcile

/-!
# The realtime event producer

`portalRealtimeEvents` turns the items of the block stream into ponder's realtime events. Its
variables are the unfinalized window, the anchor, and the clocks of the finalize cadence, of the
deferral bound and of the delivery watchdog. Everything it reads from outside during one turn
(the wall clock, the probe of the finalized head, the consumer's redelivery predicate) is part
of the turn's input.
-/

namespace PortalPonder.Realtime

/-- The finalized-head probe. Without a hash only the number is checked. -/
structure FinalizedHead where
  number : Int
  hash : Option Hash
  deriving DecidableEq, Repr

/-- One delivered batch of the block stream. -/
structure HotBatch where
  header : RawHeader
  logs : List RawLog
  transactions : List RawTx
  batchId : Option Nat
  batchSize : Option Nat
  deriving DecidableEq, Repr

inductive HotItem where
  | block (batch : HotBatch)
  | tick
  deriving DecidableEq, Repr

inductive PortalRealtimeEvent where
  | block (block : SyncBlockHeader) (logs : List SyncLog) (transactions : List SyncTransaction)
      (hasMatchedFilter : Bool) (batchId batchSize : Option Nat)
  | reorg (block : Light) (reorgedBlocks : List Light)
  | finalize (block : Light)
  deriving DecidableEq, Repr

/-- What the generator throws, with the values its message quotes. -/
inductive RealtimeError where
  /-- the finalized head climbed past the highest delivered block while nothing was delivered -/
  | deliveryStalled (head baseline silentMs : Int)
  /-- the local block at the finalized height has another hash -/
  | losingFork (localBlock : Light) (canonical : Hash)
  /-- the hash-carrying finalized head has been above the window for the whole bound -/
  | finalityDeferred (head : Int) (hash : Hash) (deferredMs localTip : Int)
  /-- the streamed block attaches neither to the window nor to the anchor -/
  | unknownParent (block : Light)
  | violation (v : InvariantViolation)
  deriving DecidableEq, Repr

/-- The arguments of the generator, with their defaults. A block filter is given by the test
that the runtime's matcher makes of it. -/
structure EventArgs where
  finalizePollMs : Int := 4000
  finalizeDeferMaxMs : Int := 600000
  deliveryProgressMaxMs : Int := 600000
  deliveryProgressThreshold : Int := 16
  blockFilters : Option (List (SyncBlockHeader → Bool)) := none
  checks : CheckMode := .on

/-- What one turn reads from outside. -/
structure Env where
  /-- the consumer's redelivery handshake -/
  shouldRedeliver : Hash → Bool := fun _ => false
  /-- the clock when a block is delivered -/
  deliveredAt : Int
  /-- the clock when the finalize cadence runs -/
  now : Int
  /-- the finalized-head probe; `none` when it fails -/
  finalizedHead : Option FinalizedHead

/-- The generator's variables. -/
structure EventState where
  unfinalized : List Light
  anchor : Light
  lastFinalizePoll : Int
  deferStreakStart : Option Int
  lastDeliveryMs : Int
  deliveryBaseline : Option Int
  firstProbeAdopted : Bool
  deriving DecidableEq, Repr

/-- The variables at loop entry. -/
def EventState.start (anchor : Light) (now : Int) : EventState where
  unfinalized := []
  anchor := anchor
  lastFinalizePoll := 0
  deferStreakStart := none
  lastDeliveryMs := now
  deliveryBaseline := none
  firstProbeAdopted := false

abbrev EventGen := Gen EventState PortalRealtimeEvent RealtimeError

def blockEventHasMatchedFilter (logs : List SyncLog)
    (blockFilters : Option (List (SyncBlockHeader → Bool))) (block : SyncBlockHeader) : Bool :=
  if 0 < logs.length then true
  else
    match blockFilters with
    | none => false
    | some filters => filters.any fun filter => filter block

/-- `Math.max(baseline ?? n, n)`. -/
def raiseBaseline (baseline : Option Int) (n : Int) : Int := max (baseline.getD n) n

/-! ## The finalize cadence -/

/-- The delivery-progress watchdog, on the head this poll probed. -/
def checkDelivery (args : EventArgs) (now head : Int) : EventGen Unit := do
  let s ← Gen.get
  if s.firstProbeAdopted = false then
    Gen.modify fun s =>
      { s with firstProbeAdopted := true
               deliveryBaseline := some (raiseBaseline s.deliveryBaseline head) }
  else
    match s.deliveryBaseline with
    -- a comparison with `undefined` is false
    | none => pure ()
    | some baseline =>
        if head - baseline ≥ args.deliveryProgressThreshold ∧
            now - s.lastDeliveryMs ≥ args.deliveryProgressMaxMs then
          Gen.throw (.deliveryStalled head baseline (now - s.lastDeliveryMs))
        else pure ()

/-- Advance the anchor to the finalized tip and announce it. -/
def commitFinalized (tip : Light) (remaining : List Light) : EventGen Unit := do
  Gen.modify fun s =>
    { s with deferStreakStart := none, anchor := tip, unfinalized := remaining }
  Gen.yield (.finalize tip)

/-- The head sits above the window: no local block can be checked against its hash. -/
def deferFinalize (args : EventArgs) (now : Int) (tip : Light) (head : Int) (hash : Hash) :
    EventGen Unit := do
  let s ← Gen.get
  match s.deferStreakStart with
  | none => Gen.modify fun s => { s with deferStreakStart := some now }
  | some start =>
      if now - start ≥ args.finalizeDeferMaxMs then
        Gen.throw (.finalityDeferred head hash (now - start) tip.number)
      else pure ()

/-- Finalize at the probed head, after the wrong-fork guard. -/
def finalizeAt (args : EventArgs) (now : Int) (fh : FinalizedHead) : EventGen Unit := do
  let s ← Gen.get
  let split := takeFinalized s.unfinalized fh.number
  match split.finalizedTip with
  | none => Gen.modify fun s => { s with deferStreakStart := none }
  | some tip =>
      match fh.hash with
      | none => commitFinalized tip split.remaining
      | some hash =>
          if tip.number = fh.number then
            if tip.hash ≠ hash then Gen.throw (.losingFork tip hash)
            else commitFinalized tip split.remaining
          else if tip.number < fh.number then deferFinalize args now tip fh.number hash
          else commitFinalized tip split.remaining

/-- Poll the finalized head on a cadence, not on every block. -/
def runFinalizeCadence (args : EventArgs) (env : Env) : EventGen Unit := do
  let s ← Gen.get
  if env.now - s.lastFinalizePoll ≥ args.finalizePollMs then
    Gen.modify fun s => { s with lastFinalizePoll := env.now }
    match env.finalizedHead with
    | none => Gen.modify fun s => { s with deferStreakStart := none }
    | some fh =>
        checkDelivery args env.now fh.number
        finalizeAt args env.now fh
  else pure ()

/-! ## Delivery -/

/-- Drop the blocks above a height from the end of the window. -/
def trimAbove (n : Int) (unfinalized : List Light) : List Light :=
  (unfinalized.reverse.dropWhile fun b => n < b.number).reverse

/-- Popping stops at the first block from the end that is not above the height. -/
theorem trimAbove_append {n : Int} {kept reorged : List Light}
    (above : ∀ b ∈ reorged, n < b.number)
    (top : ∀ x, kept.getLast? = some x → x.number ≤ n) :
    trimAbove n (kept ++ reorged) = kept := by
  have popped : (reorged.reverse ++ kept.reverse).dropWhile (fun b => n < b.number) =
      kept.reverse := by
    rw [List.dropWhile_append_of_pos (by simpa using above)]
    rcases List.eq_nil_or_concat kept with rfl | ⟨pre, x, rfl⟩
    · rfl
    · have stop := top x (by simp)
      simp [stop]
  rw [trimAbove, List.reverse_append, popped, List.reverse_reverse]

theorem trimAbove_subset {n : Int} {window : List Light} :
    ∀ b ∈ trimAbove n window, b ∈ window := by
  intro b mem
  have inRest := List.mem_reverse.1 mem
  exact List.mem_reverse.1 ((List.dropWhile_sublist _).subset inRest)

/-- The first transaction of each hash, in order. -/
def dedupeTxs (seen : List Hash) : List RawTx → List RawTx
  | [] => []
  | t :: rest =>
      match t.hash with
      | none => t :: dedupeTxs seen rest
      | some h => if h ∈ seen then dedupeTxs seen rest else t :: dedupeTxs (h :: seen) rest

/-- The INV-10 condition; an empty window has no tip to check against. -/
def linkHolds (unfinalized : List Light) (light : Light) : Bool :=
  match unfinalized.getLast? with
  | none => true
  | some tip => light.parentHash = tip.hash ∧ light.number > tip.number

/-- INV-10: append, keeping the window parent-linked and strictly increasing. -/
def appendBlock (args : EventArgs) (light : Light) : EventGen Unit := do
  let s ← Gen.get
  match invariant args.checks "INV-10" (linkHolds s.unfinalized light)
      "unfinalized chain link broken on append" with
  | .error v => Gen.throw (.violation v)
  | .ok () => Gen.modify fun s => { s with unfinalized := s.unfinalized ++ [light] }

/-- The block event of a delivered batch. -/
def blockEvent (args : EventArgs) (batch : HotBatch) : PortalRealtimeEvent :=
  let block := toSyncBlockHeader batch.header
  let logs := batch.logs.map fun l => toSyncLog l batch.header
  let txs := (dedupeTxs [] batch.transactions).map fun t => toSyncTransaction t batch.header
  .block block logs txs (blockEventHasMatchedFilter logs args.blockFilters block)
    batch.batchId (if batch.batchId.isSome then batch.batchSize else none)

/-- Emit a delivered block and stamp the delivery watchdog. -/
def emitBlock (args : EventArgs) (env : Env) (batch : HotBatch) : EventGen Unit := do
  Gen.modify fun s =>
    { s with lastDeliveryMs := env.deliveredAt
             deliveryBaseline := some (raiseBaseline s.deliveryBaseline batch.header.number) }
  Gen.yield (blockEvent args batch)

/-- The delivery branch of the loop. -/
def deliver (args : EventArgs) (env : Env) (batch : HotBatch) : EventGen Unit := do
  let light := toLight batch.header
  let s ← Gen.get
  match reconcile s.unfinalized light s.anchor with
  | .duplicate =>
      -- only a block the consumer awaits is emitted again; it already is the tip
      if env.shouldRedeliver light.hash then do
        emitBlock args env batch
        runFinalizeCadence args env
      else pure ()
  | .gap => Gen.throw (.unknownParent light)
  | .append => do
      appendBlock args light
      emitBlock args env batch
      runFinalizeCadence args env
  | .reorg commonAncestor reorgedBlocks => do
      Gen.modify fun s =>
        { s with unfinalized := trimAbove commonAncestor.number s.unfinalized }
      Gen.yield (.reorg commonAncestor reorgedBlocks)
      appendBlock args light
      emitBlock args env batch
      runFinalizeCadence args env

/-- One turn of the loop. -/
def turn (args : EventArgs) (input : HotItem × Env) : EventGen Unit :=
  match input.1 with
  | .tick => runFinalizeCadence args input.2
  | .block batch => deliver args input.2 batch

/-- The generator over a sequence of items. -/
def portalRealtimeEvents (args : EventArgs) (inputs : List (HotItem × Env)) : EventGen Unit :=
  Gen.forEach (turn args) inputs

end PortalPonder.Realtime
