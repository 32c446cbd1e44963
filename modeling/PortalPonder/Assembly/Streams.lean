import PortalPonder.Assembly.Range
import PortalPonder.Client.Stream

/-!
# Streaming a chunk

`runStreams` drains the queries of a range one after the other, merges the blocks they deliver
into the chunk data, and counts the rows that assembly will keep. A column that had to be dropped
although it is needed is an error when such rows were added; a stream that fails fails the chunk.
-/

namespace PortalPonder.Assembly

open Historical (Children)
open Client (FieldKey)

variable {F : Type}

/-- What one stream came to: the batches it yielded, the columns it recorded as missing, each with
the tag of the error, and the error that ended it. -/
structure Streamed where
  batches : List (List RawBlock)
  missing : List (FieldKey × String)
  failed : Option Client.StreamError

def Streamed.blocks (s : Streamed) : List RawBlock := s.batches.flatten

/-- The streams of one call, shard by shard. -/
structure Streams where
  logShards : List Streamed
  traces : Streamed
  blocks : Streamed
  txShards : List Streamed

def isBlockFilterMatched (filter : BlockFilter) (bn : Nat) : Bool :=
  isBlockInRange filter.fromBlock filter.toBlock bn &&
    ((bn : Int) - filter.offset) % (filter.interval : Int) = 0

/-! ## Merging a block -/

def mergeLogs (cd : ChunkData) (b : RawBlock) : ChunkData :=
  if b.logs.isEmpty then cd
  else
    let bn := b.header.number
    { cd with
      headers := cd.headers.set bn b.header
      logs := cd.logs.set bn ((cd.logs.get? bn).getD [] ++ b.logs)
      txs := if b.transactions.isEmpty then cd.txs
        else cd.txs.set bn ((cd.txs.get? bn).getD [] ++ b.transactions) }

def mergeTraces (cd : ChunkData) (b : RawBlock) : ChunkData :=
  if b.traces.isEmpty then cd
  else
    let bn := b.header.number
    { cd with
      traceBlocks := cd.traceBlocks.set bn
        (match cd.traceBlocks.get? bn with
        | some ex => { ex with traces := ex.traces ++ b.traces, txs := ex.txs ++ b.transactions }
        | none => { header := b.header, traces := b.traces, txs := b.transactions }) }

/-- Only the headers a block filter asks for are kept. -/
def mergeHeader (spec : Spec F) (cd : ChunkData) (b : RawBlock) : ChunkData :=
  if spec.blockFilters.any fun f => isBlockFilterMatched f b.header.number then
    { cd with blockHeaders := cd.blockHeaders.set b.header.number b.header }
  else cd

def mergeTxs (cd : ChunkData) (b : RawBlock) : ChunkData :=
  if b.transactions.isEmpty then cd
  else
    let bn := b.header.number
    { cd with
      txBlocks := cd.txBlocks.set bn
        (match cd.txBlocks.get? bn with
        | some ex => { ex with txs := ex.txs ++ b.transactions }
        | none => { header := b.header, txs := b.transactions }) }

/-! ## Rows that assembly keeps -/

def keptLogCount (spec : Spec F) (known : Children F Address) (b : RawBlock) : Nat :=
  b.logs.countP fun raw => buildRawLogMatcher spec known raw b.header b.header.number

def keptTraceCount (spec : Spec F) (upstream : TraceMatching F) (known : Children F Address)
    (b : RawBlock) : Nat :=
  b.traces.countP fun raw => buildRawTraceMatcher spec upstream known raw b.header.number

def keptTxCount (spec : Spec F) (known : Children F Address) (b : RawBlock) : Nat :=
  b.transactions.countP fun raw => buildRawTxMatcher spec known raw b.header b.header.number

/-! ## The call -/

structure Run where
  cd : ChunkData
  neededMissing : List (FieldKey × String)
  matchedLogsAdded : Nat
  matchedTracesAdded : Nat
  matchedTxsAdded : Nat

inductive StreamsError where
  | stream (e : Client.StreamError)
  /-- the dataset lacks needed columns on blocks that contain matched data -/
  | missingColumns (neededMissing : List (FieldKey × String)) (fromBlock toBlock : Nat)
  deriving DecidableEq, Repr

def logPass (spec : Spec F) (known : Children F Address) (run : Run) (b : RawBlock) : Run :=
  { run with
    cd := mergeLogs run.cd b
    matchedLogsAdded := run.matchedLogsAdded + keptLogCount spec known b }

def tracePass (spec : Spec F) (upstream : TraceMatching F) (known : Children F Address) (run : Run)
    (b : RawBlock) : Run :=
  { run with
    cd := mergeTraces run.cd b
    matchedTracesAdded := run.matchedTracesAdded + keptTraceCount spec upstream known b }

def headerPass (spec : Spec F) (run : Run) (b : RawBlock) : Run :=
  { run with cd := mergeHeader spec run.cd b }

def txPass (spec : Spec F) (known : Children F Address) (run : Run) (b : RawBlock) : Run :=
  { run with
    cd := mergeTxs run.cd b
    matchedTxsAdded := run.matchedTxsAdded + keptTxCount spec known b }

/-- Drain a stream. What it has recorded stays recorded; its error is the error of the call. -/
def drain (pass : Run → RawBlock → Run) (run : Run) (s : Streamed) : Except StreamsError Run :=
  match s.failed with
  | some e => .error (.stream e)
  | none =>
      .ok { s.blocks.foldl pass run with
        neededMissing := (run.neededMissing ++ s.missing).eraseDups }

def RECEIPT_FIELDS : List String :=
  ["status", "cumulativeGasUsed", "effectiveGasPrice", "gasUsed", "contractAddress", "logsBloom"]

/-- `RECEIPT_FIELD_KEYS.has(fieldKey)` -/
def isReceiptField (key : FieldKey) : Bool := key.table = "transaction" && key.field ∈ RECEIPT_FIELDS

def drainAll (spec : Spec F) (upstream : TraceMatching F) (known : Children F Address)
    (streams : Streams) (cd : ChunkData) : Except StreamsError Run := do
  let run : Run :=
    { cd, neededMissing := [], matchedLogsAdded := 0, matchedTracesAdded := 0, matchedTxsAdded := 0 }
  let run ← streams.logShards.foldlM (drain (logPass spec known)) run
  let run ← if spec.needTraces then drain (tracePass spec upstream known) run streams.traces else pure run
  let run ← if spec.needBlocks then drain (headerPass spec) run streams.blocks else pure run
  if spec.needTxFilter then streams.txShards.foldlM (drain (txPass spec known)) run else pure run

/-- A column that no receipt has is needed by any row that was added. -/
def nonReceiptArmed (before : ChunkData) (run : Run) : Bool :=
  0 < run.matchedLogsAdded || 0 < run.matchedTracesAdded || 0 < run.matchedTxsAdded ||
    before.blockHeaders.size < run.cd.blockHeaders.size

/-- A receipt column is needed by a row whose source emits receipts. -/
def receiptArmed (spec : Spec F) (run : Run) : Bool :=
  spec.needReceipts && 0 < run.matchedLogsAdded ||
    needTraceReceipts spec && 0 < run.matchedTracesAdded || 0 < run.matchedTxsAdded

def columnsMissing (spec : Spec F) (before : ChunkData) (run : Run) : Bool :=
  let receiptMissing := run.neededMissing.filter fun e => isReceiptField e.1
  let nonReceiptMissing := run.neededMissing.length - receiptMissing.length
  0 < nonReceiptMissing && nonReceiptArmed before run ||
    0 < receiptMissing.length && receiptArmed spec run

def runStreams (spec : Spec F) (upstream : TraceMatching F) (known : Children F Address)
    (streams : Streams) (cd : ChunkData) (fromBlock toBlock : Nat) :
    Except StreamsError ChunkData := do
  let run ← drainAll spec upstream known streams cd
  if columnsMissing spec cd run then throw (.missingColumns run.neededMissing fromBlock toBlock)
  else pure run.cd

end PortalPonder.Assembly
