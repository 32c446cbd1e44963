import PortalPonder.Historical.Assemble
import PortalPonder.Historical.ChunkCoverage

/-!
# Syncing an interval

`syncBlockRangeData` on the Portal path, over the chunk cache and discovery: an attempt pins the
discovery floor, seeds the watermark, calls `dataChunk` for every chunk of its interval, awaits
them all, plans the read-ahead, and assembles the logs of the interval. Attempts of several
intervals overlap, and any of them can fail. Persisting the children and inserting the rows read
and write nothing that is read here; they are the places where an attempt can fail at the end.
-/

namespace PortalPonder.Historical

/-- The validated settings. -/
structure Settings where
  chunkBlocks : Nat
  chunkFixed : Bool
  traceChunkBlocks : Nat
  warmupBlocks : Nat
  readahead : Nat
  discoveryWindows : Nat
  finalizedHead : Option Nat
  checks : CheckMode
  chunkPos : 0 < chunkBlocks
  tracePos : 0 < traceChunkBlocks

/-- The filters of a chain. Of those that are no log filters it matters what they add to the
factories, the backfill range and the queries. -/
structure Sources (F A T R : Type) where
  factory : F → Factory A T
  /-- `getChildAddress` -/
  childAddress : F → ChainLog A T → A
  logFilters : List (LogFilter F A T)
  otherFactories : List F
  otherRanges : List (Option Nat × Option Nat)
  otherQueries : Source → Children F A → Except String (List R)
  /-- the length of the serialized log query with these requests -/
  bodySize : List (LogRequest A T) → Nat
  /-- trace or block sources -/
  dense : Bool
  /-- the children that were stored before -/
  preloaded : Children F A

variable {F A T R : Type} [DecidableEq F] [DecidableEq A] [DecidableEq T]

namespace Sources

def factoryOf (filter : LogFilter F A T) : Option F :=
  match filter.address with
  | .factory id => some id
  | _ => none

/-- `uniqueFactories` -/
def factories (sources : Sources F A T R) : List F :=
  (sources.logFilters.filterMap factoryOf ++ sources.otherFactories).eraseDups

def discFloorBlock (sources : Sources F A T R) : Option Nat :=
  (sources.factories.map fun f => (sources.factory f).fromBlock.getD 0).min?

def froms (sources : Sources F A T R) : List (Option Nat) :=
  sources.logFilters.map LogFilter.fromBlock ++ sources.otherRanges.map Prod.fst

def tos (sources : Sources F A T R) : List (Option Nat) :=
  sources.logFilters.map LogFilter.toBlock ++ sources.otherRanges.map Prod.snd

/-- A source without a first block starts at genesis. -/
def backfillStart (sources : Sources F A T R) : Nat :=
  if sources.froms.all Option.isSome = true then ((sources.froms.filterMap id).min?).getD 0 else 0

/-- A source without a last block has no end. -/
def backfillEnd (sources : Sources F A T R) : Option Nat :=
  if sources.tos.all Option.isSome = true then (sources.tos.filterMap id).max? else none

/-- The children a factory creates in a block: those of the logs that match it. -/
def creations (sources : Sources F A T R) (chain : Chain A T) : Creations F A := fun f b =>
  if b < 0 then []
  else ((chain b.toNat).filter fun log => isLogFactoryMatched (sources.factory f) log b.toNat).map
    (sources.childAddress f)

def logQueryShards (sources : Sources F A T R) (checks : CheckMode) (known : Children F A) :
    Except String (List (Query A T R)) :=
  match shardLogs checks sources.bodySize (mergedLogRequests sources.logFilters known) with
  | .error violation => .error violation.msg
  | .ok shards => .ok (shards.map Sum.inl)

def queries (sources : Sources F A T R) (checks : CheckMode) (source : Source)
    (known : Children F A) : Except String (List (Query A T R)) :=
  match source with
  | .logs => sources.logQueryShards checks known
  | other => (sources.otherQueries other known).map fun rs => rs.map Sum.inr

/-- `compileFetchSpec` with the settings, on a chain. -/
def syncDeps (sources : Sources F A T R) (settings : Settings) (chain : Chain A T) :
    SyncDeps F A (Query A T R) where
  factories := sources.factories
  creations := sources.creations chain
  discoveryWindows := settings.discoveryWindows
  preloaded := sources.preloaded
  discFloorBlock := sources.discFloorBlock
  queries := sources.queries settings.checks
  backfillStart := sources.backfillStart
  backfillEnd := sources.backfillEnd
  dense := sources.dense
  chunkBlocks := settings.chunkBlocks
  chunkFixed := settings.chunkFixed
  traceChunkBlocks := settings.traceChunkBlocks
  warmupBlocks := settings.warmupBlocks
  finalizedHead := settings.finalizedHead
  checks := settings.checks

end Sources

def isFinalityGap (intervalEnd head : Nat) : Bool := intervalEnd > head

/-- The chunks of an interval, each with the part of the interval that lies in it. -/
def chunkNeeds (interval : Interval) (chunkBlocks : Nat) : List (Nat × Option Interval) :=
  (List.range (idxOf interval.2 chunkBlocks + 1 - idxOf interval.1 chunkBlocks)).map fun i =>
    let idx := idxOf interval.1 chunkBlocks + i
    (idx, some (max interval.1 (idx * chunkBlocks),
      min interval.2 (idx * chunkBlocks + chunkBlocks - 1)))

namespace Cache

variable {Q : Type}

/-- Calls of `dataChunk` in a row; the first that throws ends it. -/
def callAll (deps : SyncDeps F A Q) :
    Cache F A Q → List (Nat × Option Interval) → Cache F A Q × Option (List ChunkCall)
  | s, [] => (s, some [])
  | s, (idx, need) :: rest =>
      match s.dataChunk deps idx need with
      | .error _ => (s, none)
      | .ok (_, id, k) =>
          let called := callAll deps (s.call deps idx need) rest
          (called.1, called.2.map fun calls => ⟨idx, need, id, k⟩ :: calls)

/-- The chunk data a resolved call returns. -/
def chunkData (s : Cache F A Q) (call : ChunkCall) : List (Q × Nat) :=
  ((s.entries[call.entry]?).map Entry.cd).getD []

/-- The actions that no attempt takes. -/
def ofLoop : CacheAction → Bool
  | .enter _ _ | .pass _ _ | .advance _ _ | .fail _ _ | .handle _ _ | .refreshPortalHead _
  | .ensureChunkSize _ | .discovery _ => true
  | .dataChunk _ _ | .capGrid | .pinDiscoveryFloor | .seed _ | .evictBehind _ => false

/-- What a call does before it fetches: cap the grid, pin the floor. -/
def pinned (deps : SyncDeps F A Q) (s : Cache F A Q) : Cache F A Q :=
  (s.capGrid deps).pinDiscoveryFloor deps

/-- The RPC historical sync, which serves the intervals past the head, records a child. -/
def share (s : Cache F A Q) (f : F) (bn : Nat) (child : A) : Cache F A Q :=
  { s with disc := { s.disc with disc := s.disc.disc.share f bn child } }

end Cache

inductive AttemptStatus (A T : Type) where
  | waiting
  | failed
  | resolved (logs : List (Nat × ChainLog A T))
  deriving DecidableEq

def AttemptStatus.isResolved : AttemptStatus A T → Bool
  | .resolved _ => true
  | _ => false

/-- A call of `syncBlockRangeData` that has called `dataChunk`. -/
structure Attempt (A T : Type) where
  interval : Interval
  calls : List ChunkCall
  status : AttemptStatus A T

structure RangeSync (F A T R : Type) where
  cache : Cache F A (Query A T R)
  attempts : List (Attempt A T)

inductive SyncAction (F A : Type) where
  | cache (a : CacheAction)
  | share (f : F) (bn : Nat) (child : A)
  | serve (interval : Interval)
  | finish (i : Nat) (saturated : Bool)
  | abort (i : Nat)
  deriving DecidableEq, Repr

namespace RangeSync

variable (sources : Sources F A T R) (settings : Settings) (chain : Chain A T)

def init : RangeSync F A T R := ⟨Cache.init (sources.syncDeps settings chain), []⟩

/-- The cache when an attempt calls `dataChunk`: pinned, and seeded. -/
def ready (s : RangeSync F A T R) (interval : Interval) : Cache F A (Query A T R) :=
  (s.cache.pinned (sources.syncDeps settings chain)).seed (sources.syncDeps settings chain)
    ((interval.1 : Int) - 1)

/-- An interval at or below the head, once the chunk size is known. -/
def serve (s : RangeSync F A T R) (interval : Interval) : Option (RangeSync F A T R) :=
  let deps := sources.syncDeps settings chain
  match s.cache.portalHead with
  | none => none
  | some head =>
      if isFinalityGap interval.2 head = true ∨ s.cache.sized = false then none
      else
        let ready := s.ready sources settings chain interval
        let called := ready.callAll deps (chunkNeeds interval ready.chunkBlocks)
        some
          { cache := called.1
            attempts := s.attempts ++ [match called.2 with
              | none => ⟨interval, [], .failed⟩
              | some calls => ⟨interval, calls, .waiting⟩] }

def setStatus (s : RangeSync F A T R) (i : Nat) (att : Attempt A T) (status : AttemptStatus A T) :
    RangeSync F A T R :=
  { s with attempts := s.attempts.set i { att with status := status } }

/-- Every chunk is there: plan the read-ahead, assemble, evict. The read-ahead plans operations
and streams nothing, so the chunk data is what it was before. -/
def finish (s : RangeSync F A T R) (i : Nat) (saturated : Bool) : Option (RangeSync F A T R) :=
  let deps := sources.syncDeps settings chain
  match s.attempts[i]? with
  | none => none
  | some att =>
      if att.status = .waiting ∧
          (att.calls.all fun call => s.cache.promiseOf call matches some .done) = true then
        let plan := readAheadPlan (idxOf att.interval.2 s.cache.chunkBlocks) s.cache.chunkBlocks
          (s.cache.dataEnd deps) settings.readahead saturated
        let called := s.cache.callAll deps (plan.map fun d => (d, none))
        match called.2 with
        | none => some ({ s with cache := called.1 }.setStatus i att .failed)
        | some _ =>
            some ({ s with cache := called.1.evictBehind att.interval.1 }.setStatus i att
              (.resolved (assembledLogs chain sources.logFilters s.cache.disc.disc.childAddresses
                (att.calls.map s.cache.chunkData) att.interval)))
      else none

/-- A chunk was rejected; or all are there, and the children or the rows cannot be stored. -/
def abort (s : RangeSync F A T R) (i : Nat) : Option (RangeSync F A T R) :=
  match s.attempts[i]? with
  | none => none
  | some att =>
      if att.status = .waiting ∧
          ((att.calls.any fun call => s.cache.promiseOf call matches some .handled) = true ∨
            (att.calls.all fun call => s.cache.promiseOf call matches some .done) = true) then
        some (s.setStatus i att .failed)
      else none

def step (s : RangeSync F A T R) : SyncAction F A → Option (RangeSync F A T R)
  | .cache a =>
      if Cache.ofLoop a = true then
        (s.cache.step (sources.syncDeps settings chain) a).map fun cache => { s with cache }
      else none
  | .share f bn child => some { s with cache := s.cache.share f bn child }
  | .serve interval => s.serve sources settings chain interval
  | .finish i saturated => s.finish sources settings chain i saturated
  | .abort i => s.abort i

/-- The children created below a block are known. -/
def Vouched (known : Children F A) (b : Nat) : Prop :=
  ∀ f ∈ sources.factories, ∀ m < b, ∀ c ∈ sources.creations chain f m,
    isAddressMatched c m (known f) = true

instance (known : Children F A) (b : Nat) : Decidable (Vouched sources chain known b) :=
  inferInstanceAs (Decidable (∀ f ∈ sources.factories, ∀ m < b, ∀ c ∈ sources.creations chain f m,
    isAddressMatched c m (known f) = true))

/-- The next interval is dispatched once the call for the one before has resolved; until then the
first one is tried again. -/
def Dispatched (s : RangeSync F A T R) (interval : Interval) : Prop :=
  ∀ first ∈ s.attempts.head?, interval.1 ≤ first.interval.1 ∨
    ∃ att ∈ s.attempts, att.status.isResolved = true

instance (s : RangeSync F A T R) (interval : Interval) : Decidable (s.Dispatched interval) :=
  inferInstanceAs (Decidable (∀ first ∈ s.attempts.head?, _ ∨ ∃ att ∈ s.attempts, _))

/-- The children created below the first interval are loaded, intervals are dispatched in turn,
and the RPC historical sync records what was created. -/
def Allowed (s : RangeSync F A T R) : SyncAction F A → Prop
  | .serve interval =>
      interval.1 ≤ interval.2 ∧ s.Dispatched interval ∧
        (s.attempts.isEmpty = true →
          Vouched sources chain s.cache.disc.disc.childAddresses interval.1)
  | .share f bn child => child ∈ sources.creations chain f bn
  | .cache _ | .finish _ _ | .abort _ => True

instance (s : RangeSync F A T R) (a : SyncAction F A) : Decidable (s.Allowed sources chain a) := by
  cases a <;> unfold Allowed <;> infer_instance

end RangeSync

end PortalPonder.Historical
