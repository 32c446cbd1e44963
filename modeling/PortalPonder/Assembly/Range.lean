import PortalPonder.Assembly.Traces
import PortalPonder.Historical.Assemble
import PortalPonder.Lib.Folds

/-!
# Assembling the rows of an interval

The chunks that cover an interval hold the raw rows of its blocks by source. `assembleRange` turns
them into the rows of the store: each raw row is matched again, a transaction and a receipt is
emitted once for each hash, and a block once for each number.
-/

namespace PortalPonder.Assembly

open Historical (Children entriesInRange mem_entriesInRange)

structure RawBlock where
  header : RawHeader
  logs : List RawLog
  transactions : List RawTx
  traces : List RawTrace
  deriving DecidableEq, Repr

structure TraceBlock where
  header : RawHeader
  traces : List RawTrace
  txs : List RawTx
  deriving DecidableEq, Repr

structure TxBlock where
  header : RawHeader
  txs : List RawTx
  deriving DecidableEq, Repr

/-- What was fetched of a chunk, by source and block number. -/
structure ChunkData where
  headers : OrdMap Nat RawHeader
  logs : OrdMap Nat (List RawLog)
  txs : OrdMap Nat (List RawTx)
  traceBlocks : OrdMap Nat TraceBlock
  blockHeaders : OrdMap Nat RawHeader
  txBlocks : OrdMap Nat TxBlock

def createChunkData : ChunkData where
  headers := OrdMap.empty
  logs := OrdMap.empty
  txs := OrdMap.empty
  traceBlocks := OrdMap.empty
  blockHeaders := OrdMap.empty
  txBlocks := OrdMap.empty

/-- The filters of a chain and the matchers of its traces. -/
abbrev Spec (F : Type) := FetchSpec F Address Hex

variable {F : Type}

/-! ## Matchers -/

/-- A stored log as the matchers read it. -/
def chainLog (log : SyncLog) : ChainLog Address Hex where
  logIndex := hexToNumber log.logIndex
  address := log.address
  topics := log.topics.map String.toLower
  data := log.data

def logMatched (spec : Spec F) (known : Children F Address) (log : SyncLog) (bn : Nat) : Bool :=
  spec.logFilters.any fun f =>
    isLogFilterMatched f (chainLog log) (hexToNumber log.blockNumber) &&
      factoryAddrOk f.address known log.address bn

def traceMatched (spec : Spec F) (upstream : TraceMatching F) (known : Children F Address)
    (frame : CallFrame) (bn : Nat) : Bool :=
  (spec.transferFilters.any fun f =>
    upstream.isTransferFilterMatched f frame bn && factorySideOk f.fromAddress known frame.from bn &&
      factorySideOk f.toAddress known frame.to bn) ||
  spec.traceFilters.any fun f =>
    upstream.isTraceFilterMatched f frame bn && factorySideOk f.fromAddress known frame.from bn &&
      factorySideOk f.toAddress known frame.to bn

def txFilterMatched (spec : Spec F) (known : Children F Address) (tx : SyncTransaction) (bn : Nat) :
    Bool :=
  spec.transactionFilters.any fun f =>
    isTransactionFilterMatched f tx.from tx.to (hexToNumber tx.blockNumber) &&
      factorySideOk f.fromAddress known tx.from bn && factorySideOk f.toAddress known tx.to bn

def buildRawLogMatcher (spec : Spec F) (known : Children F Address) (raw : RawLog) (hdr : RawHeader)
    (bn : Nat) : Bool :=
  logMatched spec known (toSyncLog raw hdr) bn

def buildRawTraceMatcher (spec : Spec F) (upstream : TraceMatching F) (known : Children F Address)
    (raw : RawTrace) (bn : Nat) : Bool :=
  if raw.transactionIndex = none ∨ raw.type = some "reward" then false
  else (parityToCallFrame raw 0).any fun frame => traceMatched spec upstream known frame bn

def buildRawTxMatcher (spec : Spec F) (known : Children F Address) (raw : RawTx) (hdr : RawHeader)
    (bn : Nat) : Bool :=
  txFilterMatched spec known (toSyncTransaction raw hdr) bn

/-! ## Traces of a chunk -/

/-- The transaction of a trace, or its place in the block if it was not delivered. -/
inductive TraceTransaction where
  | full (tx : SyncTransaction)
  | indexOnly (transactionIndex : Hex)
  deriving DecidableEq, Repr

structure TraceRow where
  frame : CallFrame
  transactionHash : Option Hash
  block : SyncBlockHeader
  transaction : TraceTransaction
  deriving DecidableEq, Repr

/-- A matched trace with what its receipt is made of. -/
structure MatchedTrace where
  row : TraceRow
  parent : Option RawTx
  header : RawHeader

/-- The traces that belong to a transaction: no block rewards. -/
def RawTrace.ranked (t : RawTrace) : Bool := t.transactionIndex.isSome && t.type != some "reward"

/-- The root frame has the gas limit of its transaction. -/
def withRootGas (parent : Option RawTx) (r : RankedTrace) : CallFrame :=
  match parent.map fun tx => prop tx.props "gas" with
  | none | some .undefined | some .null => r.frame
  | some gas => if r.traceAddress = [] then { r.frame with gas := hx gas } else r.frame

/-- The traces of one block that match, transaction by transaction. -/
def blockTraces (spec : Spec F) (upstream : TraceMatching F) (known : Children F Address)
    (bn : Nat) (tb : TraceBlock) : List MatchedTrace :=
  let ranked := tb.traces.filter RawTrace.ranked
  ((ranked.map RawTrace.transactionIndex).eraseDups).flatMap fun k =>
    -- the last transaction with this index, as in a map
    let parent := tb.txs.reverse.find? fun tx => tx.transactionIndex = k
    (rankTraces (ranked.filter fun t => t.transactionIndex = k)).filterMap fun r =>
      let frame := withRootGas parent r
      if traceMatched spec upstream known frame bn then
        some {
          row := {
            frame
            transactionHash := parent.bind RawTx.hash
            block := toSyncBlockHeader tb.header
            transaction :=
              match parent with
              | some tx => .full (toSyncTransaction tx tb.header)
              | none => .indexOnly (hx (ofIndex k)) }
          parent
          header := tb.header }
      else none

def buildTraces (spec : Spec F) (upstream : TraceMatching F) (known : Children F Address)
    (lo hi : Nat) (cd : ChunkData) : List MatchedTrace :=
  (cd.traceBlocks.entries.filter fun e => lo ≤ e.1 ∧ e.1 ≤ hi).flatMap fun e =>
    blockTraces spec upstream known e.1 e.2

/-! ## The rows of a range -/

/-- The rows collected so far, and the hashes for which there is one. -/
structure Rows where
  logs : List SyncLog
  blocksByNumber : OrdMap Nat SyncBlockHeader
  txs : List SyncTransaction
  receipts : List SyncTransactionReceipt
  seenTx : List Hash
  seenReceipt : List Hash

namespace Rows

def empty : Rows where
  logs := []
  blocksByNumber := OrdMap.empty
  txs := []
  receipts := []
  seenTx := []
  seenReceipt := []

def pushReceipt (rows : Rows) (raw : RawTx) (hdr : RawHeader) : Rows :=
  match truthy raw.hash with
  | none => rows
  | some h =>
      if h ∈ rows.seenReceipt then rows
      else
        { rows with
          receipts := rows.receipts ++ [toSyncReceipt raw hdr]
          seenReceipt := h :: rows.seenReceipt }

def sawTx (rows : Rows) (raw : RawTx) : Bool := (truthy raw.hash).any fun h => h ∈ rows.seenTx

def pushTx (rows : Rows) (raw : RawTx) (hdr : RawHeader) : Rows :=
  { rows with
    txs := rows.txs ++ [toSyncTransaction raw hdr]
    seenTx := (truthy raw.hash).toList ++ rows.seenTx }

end Rows

/-- The entries of a map with a key in a range. -/
def mapEntries {V : Type} (m : OrdMap Nat V) (lo hi : Nat) : List (Nat × V) :=
  (entriesInRange m.keys lo hi).filterMap fun bn => (m.get? bn).map fun v => (bn, v)

/-- A parent transaction of a kept log. -/
def parentTx (spec : Spec F) (hdr : RawHeader) (keptTxHashes : List Hash) (rows : Rows)
    (tx : RawTx) : Rows :=
  if ((truthy tx.hash).any fun h => h ∈ keptTxHashes) && !rows.sawTx tx then
    let rows := rows.pushTx tx hdr
    if spec.needReceipts then rows.pushReceipt tx hdr else rows
  else rows

def keptLogs (spec : Spec F) (known : Children F Address) (cd : ChunkData) (bn : Nat)
    (hdr : RawHeader) : List RawLog :=
  ((cd.logs.get? bn).getD []).filter fun raw => logMatched spec known (toSyncLog raw hdr) bn

def logBlock (spec : Spec F) (known : Children F Address) (rows : Rows)
    (e : ChunkData × Nat × RawHeader) : Rows :=
  let kept := keptLogs spec known e.1 e.2.1 e.2.2
  if kept.isEmpty then rows
  else
    let rows := { rows with
      logs := rows.logs ++ kept.map fun raw => toSyncLog raw e.2.2
      blocksByNumber := rows.blocksByNumber.set e.2.1 (toSyncBlockHeader e.2.2) }
    ((e.1.txs.get? e.2.1).getD []).foldl
      (parentTx spec e.2.2 (kept.filterMap fun raw => truthy raw.transactionHash)) rows

def headerBlock (rows : Rows) (e : Nat × RawHeader) : Rows :=
  if (rows.blocksByNumber.get? e.1).isSome then rows
  else { rows with blocksByNumber := rows.blocksByNumber.set e.1 (toSyncBlockHeader e.2) }

/-- An account transaction; its receipt is emitted even if a log has emitted the transaction. -/
def accountTx (spec : Spec F) (known : Children F Address) (bn : Nat) (header : RawHeader)
    (rows : Rows) (raw : RawTx) : Rows :=
  if txFilterMatched spec known (toSyncTransaction raw header) bn then
    let rows := rows.pushReceipt raw header
    if rows.sawTx raw then rows
    else
      { rows.pushTx raw header with
        blocksByNumber := rows.blocksByNumber.set bn (toSyncBlockHeader header) }
  else rows

def txBlock (spec : Spec F) (known : Children F Address) (rows : Rows) (e : Nat × TxBlock) : Rows :=
  e.2.txs.foldl (accountTx spec known e.1 e.2.header) rows

def traceReceipt (rows : Rows) (t : MatchedTrace) : Rows :=
  match t.parent with
  | none => rows
  | some raw => rows.pushReceipt raw t.header

def needTraceReceipts (spec : Spec F) : Bool :=
  (spec.traceFilters.any fun f => f.hasTransactionReceipt) ||
    spec.transferFilters.any fun f => f.hasTransactionReceipt

/-- The highest block, with the block itself. -/
def closestOf (blocks : List (Nat × SyncBlockHeader)) : Option (Nat × SyncBlockHeader) :=
  blocks.foldl (fun best e => if best.all fun b => b.1 < e.1 then some e else best) none

structure AssembledRange where
  logs : List SyncLog
  blocks : List SyncBlockHeader
  txs : List SyncTransaction
  receipts : List SyncTransactionReceipt
  traces : List TraceRow
  closest : Option SyncBlockHeader

/-- The rows of the log, block and transaction sources, in the order of the source. -/
def sourceRows (chunks : List ChunkData) (lo hi : Nat) (spec : Spec F) (known : Children F Address) :
    Rows :=
  let rows := (chunks.flatMap fun cd => (mapEntries cd.headers lo hi).map fun e => (cd, e)).foldl
    (logBlock spec known) Rows.empty
  let rows := if spec.needBlocks then
      (chunks.flatMap fun cd => mapEntries cd.blockHeaders lo hi).foldl headerBlock rows
    else rows
  if spec.needTxFilter then
    (chunks.flatMap fun cd => mapEntries cd.txBlocks lo hi).foldl (txBlock spec known) rows
  else rows

def matchedTraces (chunks : List ChunkData) (lo hi : Nat) (spec : Spec F)
    (upstream : TraceMatching F) (known : Children F Address) : List MatchedTrace :=
  if spec.needTraces then chunks.flatMap (buildTraces spec upstream known lo hi) else []

def assembleRange (chunks : List ChunkData) (interval : Nat × Nat) (spec : Spec F)
    (upstream : TraceMatching F) (known : Children F Address) : AssembledRange :=
  let rows := sourceRows chunks interval.1 interval.2 spec known
  let traces := matchedTraces chunks interval.1 interval.2 spec upstream known
  let receipts := if needTraceReceipts spec then (traces.foldl traceReceipt rows).receipts
    else rows.receipts
  { logs := rows.logs
    blocks := rows.blocksByNumber.entries.map Prod.snd
    txs := rows.txs
    receipts
    traces := traces.map MatchedTrace.row
    closest := (closestOf (rows.blocksByNumber.entries ++
      traces.map fun t => (hexToNumber t.row.block.number, t.row.block))).map Prod.snd }

end PortalPonder.Assembly
