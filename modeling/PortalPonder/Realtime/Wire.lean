import PortalPonder.Assembly.Range
import PortalPonder.Realtime.Events
import PortalPonder.Realtime.WireRequests

/-!
# The realtime wire

`getPortalRealtimeEventGenerator` stands between the event producer and ponder. It discovers the
children of a block before it forwards it. If the block may lack logs of a new child, it is held
back, the subscription is widened, and the block is awaited once more; a finalize that reaches the
awaited block is held until the block was forwarded. A reorg takes back the children it orphans.

The producer asks `shouldRedeliver` before it delivers a block twice: `Pipe` runs the two together,
one event at a time.
-/

namespace PortalPonder.Realtime

open Historical (Children)
open Assembly (chainLog)

structure LightBlock where
  number : Hex
  hash : Hash
  parentHash : Hash
  timestamp : Hex
  deriving DecidableEq, Repr

def lightToLightBlock (l : Light) : LightBlock where
  number := hx (.num l.number.toNat)
  hash := l.hash
  parentHash := l.parentHash
  timestamp := hx (.num l.timestamp)

/-- What ponder receives. Receipts and traces are never served. -/
inductive RealtimeSyncEvent (F : Type) where
  | block (hasMatchedFilter : Bool) (block : SyncBlockHeader) (logs : List SyncLog)
      (transactions : List SyncTransaction) (childAddresses : List (F × List Address))
  | reorg (block : LightBlock) (reorgedBlocks : List LightBlock)
  | finalize (block : LightBlock)
  deriving DecidableEq

structure WireArgs (F : Type) where
  logFilters : List (LogFilter F Address Hex)
  blockFilters : List (SyncBlockHeader → Bool)
  factoryOf : F → Factory Address Hex
  /-- `none` where it throws -/
  getChildAddress : F → SyncLog → Option Address
  startupFinalized : Int
  endBlock : Option Nat

structure Awaiting where
  hash : Hash
  number : Int
  deriving DecidableEq, Repr

structure WireState (F : Type) where
  childAddresses : Children F Address
  logs : List (LogRequest Address Hex)
  logsRevision : Nat
  wildcardLogKeys : List (WildcardLogRequestKey Hex)
  awaiting : Option Awaiting
  heldFinalize : Option Light
  lastFinalized : Int

inductive WireStop where
  /-- the block after the awaited one arrived in its place -/
  | lostRedelivery (awaited : Awaiting) (number : Nat) (hash : Hash)
  /-- the end block was forwarded -/
  | completed
  deriving DecidableEq, Repr

variable {F : Type} [DecidableEq F]

def WireArgs.factories (args : WireArgs F) : List F := uniqueFactories args.logFilters

/-! ## Discovery -/

/-- The child that a log creates. -/
def childOf (args : WireArgs F) (factory : F) (log : SyncLog) : Option Address :=
  if isLogFactoryMatched (args.factoryOf factory) (chainLog log) (hexToNumber log.blockNumber) then
    (args.getChildAddress factory log).map String.toLower
  else none

/-- The children of a block, by factory. -/
def discoverChildAddresses (args : WireArgs F) (logs : List SyncLog) : List (F × List Address) :=
  (args.factories.map fun f => (f, (logs.filterMap (childOf args f)).eraseDups)).filter
    fun found => !found.2.isEmpty

/-- A child that is known keeps its creation block. -/
def addChild (blockNumber : Int) (acc : Children F Address × Bool) (found : F × Address) :
    Children F Address × Bool :=
  match (acc.1 found.1).get? found.2 with
  | some _ => acc
  | none =>
      (fun f => if f = found.1 then (acc.1 f).set found.2 blockNumber else acc.1 f, true)

/-- Fold the children of a block into the running map, and tell whether one is new. -/
def applyDiscovered (discovered : List (F × List Address)) (known : Children F Address)
    (blockNumber : Int) : Children F Address × Bool :=
  (discovered.flatMap fun found => found.2.map fun child => (found.1, child)).foldl
    (addChild blockNumber) (known, false)

def liveChildren (args : WireArgs F) (known : Children F Address) : List Address :=
  args.factories.flatMap fun f => (known f).keys

def isDiscoveryLogRequest (args : WireArgs F) : LogRequest Address Hex → Bool :=
  isDiscoveryLogRequestFor (args.factories.map args.factoryOf)

def WireArgs.requests (args : WireArgs F) (known : Children F Address) :
    List (LogRequest Address Hex) :=
  buildPortalLogRequests args.logFilters args.factoryOf known

/-! ## Trimming -/

def logMatchesLiveChildFilter (args : WireArgs F) (known : Children F Address) (log : SyncLog) :
    Bool :=
  let blockNumber := hexToNumber log.blockNumber
  args.logFilters.any fun f => isLogFilterMatched f (chainLog log) blockNumber &&
    factoryAddrOk f.address known log.address.toLower blockNumber

def logMatchesDiscovery (args : WireArgs F) (log : SyncLog) : Bool :=
  args.factories.any fun f =>
    isLogFactoryMatched (args.factoryOf f) (chainLog log) (hexToNumber log.blockNumber)

/-- What an address-filtered subscription would have delivered of the logs and of their
transactions. -/
structure TrimmedEvent where
  logs : List SyncLog
  transactions : List SyncTransaction
  hasMatchedFilter : Bool
  deriving DecidableEq, Repr

def trimWildcardRealtimeEvent (args : WireArgs F) (known : Children F Address)
    (block : SyncBlockHeader) (logs : List SyncLog) (transactions : List SyncTransaction) :
    TrimmedEvent :=
  let kept := logs.filter fun log =>
    logMatchesLiveChildFilter args known log || logMatchesDiscovery args log
  let transactionHashes := kept.filterMap fun log => log.transactionHash
  { logs := kept
    transactions := transactions.filter fun tx => tx.hash.any fun hash => hash ∈ transactionHashes
    hasMatchedFilter := blockEventHasMatchedFilter kept (some args.blockFilters) block }

/-! ## The event loop -/

abbrev WireGen (F : Type) := Gen (WireState F) (RealtimeSyncEvent F) WireStop

/-- Skip what would take ponder's finalized checkpoint back. -/
def emitFinalize (args : WireArgs F) (block : Light) : WireGen F Unit := do
  let s ← Gen.get
  if block.number ≤ args.startupFinalized ∨ block.number ≤ s.lastFinalized then pure ()
  else do
    Gen.modify fun s => { s with lastFinalized := block.number }
    Gen.yield (.finalize (lightToLightBlock block))

/-- Rebuild the requests for the children that are known now; the stream reopens. -/
def WireState.rebuildLogs (args : WireArgs F) (s : WireState F) : WireState F :=
  { s with logs := args.requests s.childAddresses, logsRevision := s.logsRevision + 1 }

def onFinalize (args : WireArgs F) (block : Light) : WireGen F Unit := do
  let s ← Gen.get
  if s.awaiting.any fun a => a.number ≤ block.number then
    -- a finalize of the awaited block or of one above it waits, and the highest one counts
    if s.heldFinalize.all fun held => held.number < block.number then
      Gen.modify fun s => { s with heldFinalize := some block }
    else pure ()
  else emitFinalize args block

/-- The awaited block is gone: it is no longer awaited. -/
def WireState.forget (reorgedBlocks : List Light) (s : WireState F) : WireState F :=
  if s.awaiting.any fun a => reorgedBlocks.any fun b => b.hash = a.hash then
    { s with awaiting := none, heldFinalize := none }
  else s

/-- The children that were created above the common ancestor are gone. -/
def WireState.prune (args : WireArgs F) (ancestor : Int) (s : WireState F) : WireState F :=
  let pruned := args.factories.any fun f => (s.childAddresses f).entries.any fun e => ancestor < e.2
  let s := { s with
    childAddresses := fun f => (s.childAddresses f).filter fun _ created => ¬ ancestor < created }
  if pruned then s.rebuildLogs args else s

def onReorg (args : WireArgs F) (ancestor : Light) (reorgedBlocks : List Light) :
    WireGen F Unit := do
  Gen.modify fun s => (s.forget reorgedBlocks).prune args ancestor.number
  Gen.yield (.reorg (lightToLightBlock ancestor) (reorgedBlocks.map lightToLightBlock))

/-- Forward a block, then the finalize that waited for it. -/
def forwardBlock (args : WireArgs F) (block : SyncBlockHeader) (logs : List SyncLog)
    (transactions : List SyncTransaction) (hasMatchedFilter : Bool)
    (discovered : List (F × List Address)) : WireGen F Unit := do
  let s ← Gen.get
  let sent : TrimmedEvent :=
    if s.wildcardLogKeys.isEmpty then ⟨logs, transactions, hasMatchedFilter⟩
    else trimWildcardRealtimeEvent args s.childAddresses block logs transactions
  Gen.yield (.block sent.hasMatchedFilter block sent.logs sent.transactions discovered)
  match s.heldFinalize with
  | none => pure ()
  | some held => do
      Gen.modify fun s => { s with heldFinalize := none }
      emitFinalize args held
  if args.endBlock.any fun endBlock => endBlock ≤ hexToNumber block.number then
    Gen.throw .completed
  else pure ()

/-- A new child may have logs in this block that were not asked for. -/
def WireState.incomplete (args : WireArgs F) (s : WireState F) : Bool :=
  hasAddressFilteredFactoryRequests (args.requests s.childAddresses)
    (liveChildren args s.childAddresses) s.wildcardLogKeys (isDiscoveryLogRequest args)

/-- Fold in the children of a block, and hold it back if it may be incomplete. -/
def acceptBlock (args : WireArgs F) (block : SyncBlockHeader) (logs : List SyncLog)
    (transactions : List SyncTransaction) (hasMatchedFilter : Bool) : WireGen F Unit := do
  Gen.modify fun s => { s with awaiting := none }
  let discovered := discoverChildAddresses args logs
  let s ← Gen.get
  let (known, added) := applyDiscovered discovered s.childAddresses (hexToNumber block.number)
  Gen.modify fun s => { s with childAddresses := known }
  let s ← Gen.get
  if added = true ∧ s.incomplete args = true then
    Gen.modify fun s => { s.rebuildLogs args with
      awaiting := some ⟨block.hash, hexToNumber block.number⟩ }
  else forwardBlock args block logs transactions hasMatchedFilter discovered

def onBlock (args : WireArgs F) (block : SyncBlockHeader) (logs : List SyncLog)
    (transactions : List SyncTransaction) (hasMatchedFilter : Bool) : WireGen F Unit := do
  let s ← Gen.get
  match s.awaiting.filter fun a => block.hash ≠ a.hash with
  | some a => Gen.throw (.lostRedelivery a (hexToNumber block.number) block.hash)
  | none => acceptBlock args block logs transactions hasMatchedFilter

def onEvent (args : WireArgs F) : PortalRealtimeEvent → WireGen F Unit
  | .finalize block => onFinalize args block
  | .reorg ancestor reorgedBlocks => onReorg args ancestor reorgedBlocks
  | .block block logs transactions hasMatchedFilter _ _ =>
      onBlock args block logs transactions hasMatchedFilter

/-- One pass of the loop. The stream may have widened requests since the last one. -/
def wirePass (args : WireArgs F)
    (input : List (WildcardLogRequestKey Hex) × PortalRealtimeEvent) : WireGen F Unit := do
  Gen.modify fun s => { s with wildcardLogKeys := input.1 }
  onEvent args input.2

def getPortalRealtimeEventGenerator (args : WireArgs F)
    (inputs : List (List (WildcardLogRequestKey Hex) × PortalRealtimeEvent)) : WireGen F Unit :=
  Gen.forEach (wirePass args) inputs

def WireState.start (args : WireArgs F) (base : Children F Address) : WireState F where
  childAddresses := base
  logs := args.requests base
  logsRevision := 0
  wildcardLogKeys := []
  awaiting := none
  heldFinalize := none
  lastFinalized := args.startupFinalized

end PortalPonder.Realtime
