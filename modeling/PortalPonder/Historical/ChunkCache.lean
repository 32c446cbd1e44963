import PortalPonder.Checks
import PortalPonder.Historical.Chunks
import PortalPonder.Historical.Watermark

/-!
# The chunk cache

The data cache of the historical sync. An entry is filled by a chain of operations, each of which
streams one range into the chunk data of the entry: the initial fetch, then prefix repairs and
extends. `coveredFrom` and `coveredTo` move when an operation is planned, before its data
arrives. The promise of an entry is its last operation, and an entry stays in `entries` after it
has left the cache: the promises that were handed out are still awaited.

The four sources of a fetch are streamed one after the other, and the queries of a source are
computed from the child map when its turn comes.
-/

namespace PortalPonder.Historical

open Discovery

/-- What one fetch streams, in this order. -/
inductive Source where
  | logs
  | traces
  | blocks
  | txs
  deriving DecidableEq, Repr

namespace Source

def next : Source → Option Source
  | .logs => some .traces
  | .traces => some .blocks
  | .blocks => some .txs
  | .txs => none

def all : List Source := [.logs, .traces, .blocks, .txs]

/-- The sources up to one of them. -/
def upTo : Source → List Source
  | .logs => [.logs]
  | .traces => [.logs, .traces]
  | .blocks => [.logs, .traces, .blocks]
  | .txs => all

@[simp] theorem upTo_next {source source' : Source} (turn : source.next = some source') :
    source'.upTo = source.upTo ++ [source'] := by
  cases source <;> cases turn <;> rfl

@[simp] theorem upTo_last {source : Source} (turn : source.next = none) : source.upTo = all := by
  cases source <;> first | rfl | cases turn

end Source

/-- The compiled fetch-spec and the settings. -/
structure SyncDeps (F A Q : Type) where
  factories : List F
  creations : Creations F A
  discoveryWindows : Nat
  preloaded : Children F A
  /-- the earliest block at which a factory can create a child -/
  discFloorBlock : Option Nat
  /-- the queries of a source; a request that cannot be split throws -/
  queries : Source → Children F A → Except String (List Q)
  backfillStart : Nat
  backfillEnd : Option Nat
  /-- trace sources, or a whole-block scan -/
  dense : Bool
  chunkBlocks : Nat
  chunkFixed : Bool
  traceChunkBlocks : Nat
  warmupBlocks : Nat
  finalizedHead : Option Nat
  checks : CheckMode

structure EnsureOpts where
  chunkBlocks : Nat
  endHint : Nat
  deriving DecidableEq, Repr

inductive OpStatus (Q : Type) where
  /-- awaits the operation before it -/
  | waiting
  /-- awaits a promise of discovery -/
  | gated (promise : Option Nat)
  /-- streams the first query of `todo`, from block `next` on -/
  | streaming (source : Source) (todo : List Q) (next : Nat)
  | done
  | failed
  /-- failed, and its handler has run -/
  | handled
  deriving DecidableEq, Repr

/-- The turn of a source: the child map at that time, and the queries computed from it. -/
structure Opened (F A Q : Type) where
  source : Source
  known : Children F A
  queries : List Q

/-- One fetch into the chunk data of an entry. -/
structure Op (F A Q : Type) where
  fromBlock : Nat
  toBlock : Nat
  opts : EnsureOpts
  status : OpStatus Q
  /-- the sources whose turn has come -/
  opened : List (Opened F A Q)
  /-- what it has merged into the chunk data: a query's rows of a block -/
  rows : List (Q × Nat)

structure Entry (F A Q : Type) where
  idx : Nat
  /-- the grid it was cached under -/
  chunkBlocks : Nat
  coveredFrom : Nat
  coveredTo : Nat
  ops : List (Op F A Q)

/-- A promise that was returned: an operation of an entry. -/
structure ChunkCall where
  idx : Nat
  need : Option Interval
  entry : Nat
  op : Nat
  deriving DecidableEq, Repr

structure Cache (F A Q : Type) where
  chunkBlocks : Nat
  /-- `ensureChunkSize` has settled -/
  sized : Bool
  fetchQuantum : Quantum
  portalHead : Option Nat
  disc : Traced F A
  /-- the cached entries, by their position in `entries` -/
  dataCache : OrdMap Nat Nat
  entries : List (Entry F A Q)
  /-- the calls of `dataChunk` that returned a promise -/
  calls : List ChunkCall

variable {F A Q : Type}

/-- A quantum that is disabled by 0. -/
def warmupQuantum (warmupBlocks : Nat) : Quantum :=
  if warmupBlocks = 0 then none else some warmupBlocks

def SyncDeps.discovery (deps : SyncDeps F A Q) : DiscoveryDeps F A where
  factories := deps.factories
  creations := deps.creations
  discoveryWindows := deps.discoveryWindows
  initialQuantum := warmupQuantum deps.warmupBlocks
  preloaded := deps.preloaded

/-- Without warm-up a chunk is fetched whole, whatever is needed of it. -/
def SyncDeps.activeNeed (deps : SyncDeps F A Q) (need : Option Interval) : Option Interval :=
  if deps.warmupBlocks = 0 then none else need

/-- The block up to which a call must be served. -/
def SyncDeps.needTo (deps : SyncDeps F A Q) (need : Option Interval) (desiredTo : Nat) : Nat :=
  match deps.activeNeed need with
  | none => desiredTo
  | some need => need.2

/-- What discovery does on its own. -/
def background : Action → Bool
  | .start _ | .propagate _ | .deliver _ _ | .resolve _ | .fail _ | .handle _ => true
  | .setFloor _ | .seed _ | .reset | .ensure _ _ _ => false

inductive CacheAction where
  | dataChunk (idx : Nat) (need : Option Interval)
  | enter (id k : Nat)
  | pass (id k : Nat)
  | advance (id k : Nat)
  | fail (id k : Nat)
  | handle (id k : Nat)
  | refreshPortalHead (h : Nat)
  | ensureChunkSize (h : Option Nat)
  | capGrid
  | pinDiscoveryFloor
  | seed (throughBlock : Int)
  | evictBehind (intervalStart : Nat)
  | discovery (a : Action)
  deriving DecidableEq, Repr

/-- The lower of two heights, each of which may be missing. -/
def minEnd : Option Nat → Option Nat → Option Nat
  | none, b => b
  | some a, none => some a
  | some a, some b => some (min a b)

def maxHead : Option Nat → Nat → Nat
  | none, h => h
  | some head, h => max head h

namespace Op

def planned (fromBlock toBlock : Nat) (opts : EnsureOpts) (status : OpStatus Q) : Op F A Q where
  fromBlock := fromBlock
  toBlock := toBlock
  opts := opts
  status := status
  opened := []
  rows := []

/-- The turn of a source comes: its queries are computed. -/
def openSource (deps : SyncDeps F A Q) (known : Children F A) (op : Op F A Q) (source : Source) :
    Op F A Q :=
  match deps.queries source known with
  | .error _ => { op with status := .failed }
  | .ok queries =>
      { op with
        opened := op.opened ++ [⟨source, known, queries⟩]
        status := .streaming source queries op.fromBlock }

/-- `runStreams`: the next block of the current query, or the next query, or the next source. -/
def advance (deps : SyncDeps F A Q) (known : Children F A) (op : Op F A Q) : Option (Op F A Q) :=
  match op.status with
  | .streaming source (q :: todo) next =>
      if next ≤ op.toBlock then
        some { op with
          rows := op.rows ++ [(q, next)]
          status := .streaming source (q :: todo) (next + 1) }
      else some { op with status := .streaming source todo op.fromBlock }
  | .streaming source [] _ =>
      match source.next with
      | some source' => some (op.openSource deps known source')
      | none => some { op with status := .done }
  | _ => none

end Op

namespace Entry

/-- The chunk data: what the operations have merged into it, one after the other. -/
def cd (e : Entry F A Q) : List (Q × Nat) := e.ops.flatMap Op.rows

def push (e : Entry F A Q) (op : Op F A Q) : Entry F A Q := { e with ops := e.ops ++ [op] }

/-- Fetch what lies between the need and an entry that starts inside it. -/
def repairPrefix (e : Entry F A Q) (activeNeed : Option Interval) (opts : EnsureOpts) :
    Entry F A Q :=
  match activeNeed with
  | none => e
  | some need =>
      if need.1 < e.coveredFrom ∧ need.2 ≥ e.coveredFrom then
        { e with coveredFrom := need.1 }.push (.planned need.1 (e.coveredFrom - 1) opts .waiting)
      else e

/-- Fetch the tail behind `coveredTo`. -/
def extend (e : Entry F A Q) (desiredTo needTo quantum : Nat) (opts : EnsureOpts) :
    Entry F A Q :=
  let extendTo := min desiredTo (max needTo (e.coveredTo + quantum))
  { e with coveredTo := extendTo }.push (.planned (e.coveredTo + 1) extendTo opts .waiting)

/-- Serve a need from the entry: a hit, or an extend. -/
def serve (e : Entry F A Q) (desiredTo needTo quantum : Nat) (opts : EnsureOpts) : Entry F A Q :=
  if needTo ≤ e.coveredTo then e else e.extend desiredTo needTo quantum opts

/-- The position of the promise. -/
def last (e : Entry F A Q) : Nat := e.ops.length - 1

def statusOf (e : Entry F A Q) (k : Nat) : Option (OpStatus Q) := (e.ops[k]?).map Op.status

/-- The status of the operation that operation `k` awaits. -/
def statusBefore (e : Entry F A Q) (k : Nat) : Option (OpStatus Q) :=
  if k = 0 then none else e.statusOf (k - 1)

def setOp (e : Entry F A Q) (k : Nat) (op : Op F A Q) : Entry F A Q :=
  { e with ops := e.ops.set k op }

end Entry

namespace Cache

def dataEnd (deps : SyncDeps F A Q) (s : Cache F A Q) : Option Nat :=
  minEnd deps.backfillEnd s.portalHead

def growFetchQuantum (deps : SyncDeps F A Q) (s : Cache F A Q) : Cache F A Q :=
  if deps.warmupBlocks = 0 then s
  else
    { s with
      fetchQuantum := some (match s.fetchQuantum with
        | none => s.chunkBlocks
        | some q => min (q * 2) s.chunkBlocks) }

/-- `min(fetchQuantum, chunkBlocks)` -/
def quantum (s : Cache F A Q) : Nat :=
  match s.fetchQuantum with
  | none => s.chunkBlocks
  | some q => min q s.chunkBlocks

def refreshPortalHead (deps : SyncDeps F A Q) (s : Cache F A Q) (h : Nat) : Cache F A Q :=
  { s with
    portalHead := match deps.finalizedHead with
      | some pin => some pin
      | none => some (maxHead s.portalHead h) }

/-- Scale the grid by the density of the chain; a failed probe changes nothing. -/
def ensureChunkSize (deps : SyncDeps F A Q) (s : Cache F A Q) (h : Option Nat) : Cache F A Q :=
  match deps.chunkFixed, h with
  | false, some h =>
      { s with
        sized := true
        portalHead := if deps.finalizedHead = none then some (maxHead s.portalHead h)
          else s.portalHead
        chunkBlocks := scaleChunkBlocks deps.chunkBlocks h }
  | _, _ => { s with sized := true }

/-- A step of discovery that always succeeds. -/
def onDiscovery (deps : SyncDeps F A Q) (s : Cache F A Q) (disc : Discovery F A) (a : Action) :
    Cache F A Q :=
  { s with disc := s.disc.remember deps.discovery disc a }

def pinDiscoveryFloor (deps : SyncDeps F A Q) (s : Cache F A Q) : Cache F A Q :=
  match deps.discFloorBlock with
  | none => s
  | some block =>
      let floorBlock := idxOf block s.chunkBlocks * s.chunkBlocks
      s.onDiscovery deps (s.disc.disc.setFloor floorBlock) (.setFloor floorBlock)

def seed (deps : SyncDeps F A Q) (s : Cache F A Q) (throughBlock : Int) : Cache F A Q :=
  if deps.warmupBlocks ≠ 0 ∧ deps.factories.isEmpty = false then
    s.onDiscovery deps (s.disc.disc.seed throughBlock) (.seed throughBlock)
  else s

/-- Cap the grid for dense sources; a change resets it. -/
def capGrid (deps : SyncDeps F A Q) (s : Cache F A Q) : Cache F A Q :=
  let capped := traceSafeChunkBlocks s.chunkBlocks deps.dense deps.traceChunkBlocks
  if capped ≠ s.chunkBlocks then
    { s with chunkBlocks := capped, dataCache := OrdMap.empty }.onDiscovery deps
      (s.disc.disc.reset deps.discovery) .reset
  else s

/-- A chunk below the floor awaits the floor, unless the watermark is there. -/
def discoveryEnsureTarget (deps : SyncDeps F A Q) (s : Cache F A Q) (target : Nat) : Nat :=
  if deps.factories.isEmpty then target
  else if target < s.disc.disc.floor ∧ s.disc.disc.through < s.disc.disc.floor then
    s.disc.disc.floor.toNat
  else target

def discoveryReady (deps : SyncDeps F A Q) (s : Cache F A Q) (target : Nat) : Bool :=
  if deps.factories.isEmpty then true
  else target < s.disc.disc.floor ∨ s.disc.disc.through ≥ target

/-- `await discovery.ensure(...)`, up to the `await`. -/
def ensure (deps : SyncDeps F A Q) (s : Cache F A Q) (target : Nat) (opts : EnsureOpts) :
    Cache F A Q × Option Nat :=
  let needTo := s.discoveryEnsureTarget deps target
  let planned := s.disc.disc.ensure deps.discovery needTo opts.chunkBlocks opts.endHint
  (s.onDiscovery deps planned.1 (.ensure needTo opts.chunkBlocks opts.endHint), planned.2)

/-- The entry that is cached for a chunk. -/
def cached (s : Cache F A Q) (idx : Nat) : Option (Nat × Entry F A Q) :=
  (s.dataCache.get? idx).bind fun id => (s.entries[id]?).map fun e => (id, e)

def setEntry (s : Cache F A Q) (id : Nat) (e : Entry F A Q) : Cache F A Q :=
  { s with entries := s.entries.set id e }

/-- The first fetch of a chunk. -/
def initialFetch (deps : SyncDeps F A Q) (s : Cache F A Q) (idx : Nat) (bounds : Interval)
    (opts : EnsureOpts) : Cache F A Q :=
  let ensured := s.ensure deps bounds.2 opts
  let entry : Entry F A Q :=
    { idx := idx
      chunkBlocks := s.chunkBlocks
      coveredFrom := bounds.1
      coveredTo := bounds.2
      ops := [.planned bounds.1 bounds.2 opts (.gated ensured.2)] }
  { ensured.1 with
    dataCache := s.dataCache.set idx s.entries.length
    entries := s.entries ++ [entry] }

/-- The state after a call, and the operation whose promise it returns. -/
def dataChunk (deps : SyncDeps F A Q) (s : Cache F A Q) (idx : Nat) (need : Option Interval) :
    Except InvariantViolation (Cache F A Q × Nat × Nat) := do
  let range := chunkRange idx s.chunkBlocks deps.backfillStart (s.dataEnd deps)
  let desiredTo := range.2
  invariant deps.checks "INV-9" (s.portalHead.all fun head => desiredTo ≤ head)
    "data request targets past the Portal finalized head"
  let activeNeed := deps.activeNeed need
  let needTo := deps.needTo need desiredTo
  let opts : EnsureOpts := ⟨s.chunkBlocks, (s.dataEnd deps).getD desiredTo⟩
  match s.cached idx with
  | some (id, e) =>
      let e := e.repairPrefix activeNeed opts
      invariant deps.checks "INV-19" (activeNeed.all fun need => need.1 ≥ e.coveredFrom)
        "cache entry starts after requested interval"
      let e := e.serve desiredTo needTo s.quantum opts
      pure (s.setEntry id e, id, e.last)
  | none =>
      let bounds := fetchBounds range.1 desiredTo activeNeed s.quantum
      pure (s.initialFetch deps idx bounds opts, s.entries.length, 0)

/-- Drop the cached chunks behind an interval. -/
def evictBehind (s : Cache F A Q) (intervalStart : Nat) : Cache F A Q :=
  { s with
    dataCache := (evictionPlan s.dataCache.keys s.chunkBlocks intervalStart).foldl
      OrdMap.delete s.dataCache }

/-! ## The steps of an operation -/

/-- The operation before has resolved: discovery is ensured. -/
def enter (deps : SyncDeps F A Q) (s : Cache F A Q) (id k : Nat) : Option (Cache F A Q) := do
  let e ← s.entries[id]?
  let op ← e.ops[k]?
  match op.status, e.statusBefore k with
  | .waiting, some .done =>
      let ensured := s.ensure deps op.toBlock op.opts
      some (ensured.1.setEntry id (e.setOp k { op with status := .gated ensured.2 }))
  | _, _ => none

/-- Discovery is awaited: the first source is opened, unless its watermark is stale. -/
def pass (deps : SyncDeps F A Q) (s : Cache F A Q) (id k : Nat) : Option (Cache F A Q) := do
  let e ← s.entries[id]?
  let op ← e.ops[k]?
  match op.status with
  | .gated promise =>
      if s.disc.disc.isResolved promise = true then
        match invariant deps.checks "INV-3" (s.discoveryReady deps op.toBlock)
          "data fetch under a stale discovery watermark" with
        | .ok _ =>
            some (s.setEntry id (e.setOp k
              (op.openSource deps s.disc.disc.childAddresses .logs)))
        | .error _ => some (s.setEntry id (e.setOp k { op with status := .failed }))
      else none
  | _ => none

def advance (deps : SyncDeps F A Q) (s : Cache F A Q) (id k : Nat) : Option (Cache F A Q) := do
  let e ← s.entries[id]?
  let op ← e.ops[k]?
  let op' ← op.advance deps s.disc.disc.childAddresses
  let s' := s.setEntry id (e.setOp k op')
  match op'.status with
  | .done => some (s'.growFetchQuantum deps)
  | _ => some s'

/-- An operation fails: what it awaits was rejected, or a stream throws. -/
def fail (s : Cache F A Q) (id k : Nat) : Option (Cache F A Q) := do
  let e ← s.entries[id]?
  let op ← e.ops[k]?
  let failed := s.setEntry id (e.setOp k { op with status := .failed })
  match op.status with
  | .waiting => if (e.statusBefore k matches some .handled) = true then some failed else none
  | .gated promise =>
      if promise.bind s.disc.disc.scanStatus = some .handled then some failed else none
  | .streaming .. => some failed
  | _ => none

/-- The handler of a failed operation: the entry leaves the cache if it is still the one there. -/
def handle (s : Cache F A Q) (id k : Nat) : Option (Cache F A Q) := do
  let e ← s.entries[id]?
  let op ← e.ops[k]?
  match op.status with
  | .failed =>
      let s' := s.setEntry id (e.setOp k { op with status := .handled })
      some (if s.dataCache.get? e.idx = some id then
          { s' with dataCache := s.dataCache.delete e.idx }
        else s')
  | _ => none

/-! ## Runs -/

/-- At construction the floor of discovery is pinned. -/
def init (deps : SyncDeps F A Q) : Cache F A Q :=
  pinDiscoveryFloor deps
    { chunkBlocks := deps.chunkBlocks
      sized := false
      fetchQuantum := warmupQuantum deps.warmupBlocks
      portalHead := deps.finalizedHead
      disc := Traced.init deps.discovery
      dataCache := OrdMap.empty
      entries := []
      calls := [] }

/-- A call of `dataChunk`, remembered when it returns a promise. -/
def call (deps : SyncDeps F A Q) (s : Cache F A Q) (idx : Nat) (need : Option Interval) :
    Cache F A Q :=
  match s.dataChunk deps idx need with
  | .error _ => s
  | .ok (s', id, k) => { s' with calls := s'.calls ++ [⟨idx, need, id, k⟩] }

/-- The status of the operation whose promise a call returned. -/
def promiseOf (s : Cache F A Q) (call : ChunkCall) : Option (OpStatus Q) :=
  (s.entries[call.entry]?).bind fun e => e.statusOf call.op

variable [DecidableEq F] [DecidableEq A]

def step (deps : SyncDeps F A Q) (s : Cache F A Q) : CacheAction → Option (Cache F A Q)
  | .dataChunk idx need => if s.sized = true then some (s.call deps idx need) else none
  | .enter id k => s.enter deps id k
  | .pass id k => s.pass deps id k
  | .advance id k => s.advance deps id k
  | .fail id k => s.fail id k
  | .handle id k => s.handle id k
  | .refreshPortalHead h => some (s.refreshPortalHead deps h)
  | .ensureChunkSize h => if s.sized = true then none else some (s.ensureChunkSize deps h)
  | .capGrid => if s.sized = true then some (s.capGrid deps) else none
  | .pinDiscoveryFloor => some (s.pinDiscoveryFloor deps)
  | .seed throughBlock => some (s.seed deps throughBlock)
  | .evictBehind intervalStart => some (s.evictBehind intervalStart)
  | .discovery a =>
      if background a = true then
        (s.disc.step deps.discovery a).map fun disc => { s with disc }
      else none

/-- What the caller of `dataChunk` promises: the head is known, and a need lies in the chunk and
at or below the head. -/
def Promised (s : Cache F A Q) : CacheAction → Prop
  | .dataChunk idx need =>
      ∃ head ∈ s.portalHead, ∀ n ∈ need, idx * s.chunkBlocks ≤ n.1 ∧ n.1 ≤ n.2 ∧
        n.2 < idx * s.chunkBlocks + s.chunkBlocks ∧ n.2 ≤ head
  | _ => True

instance (s : Cache F A Q) (a : CacheAction) : Decidable (Promised s a) := by
  cases a <;> unfold Promised <;> infer_instance

end Cache

end PortalPonder.Historical
