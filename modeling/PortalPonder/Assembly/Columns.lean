import PortalPonder.Assembly.Projection

/-!
# Columns that a server does not serve

A server may reject any column of a request; the client then asks without it. The data path
consults what the client has recorded, but only when a row that it received still matches. The
discovery scan consults nothing: a factory log without its topics is no factory log, and the scan
confirms its range. The batches are what `client.stream` yields (`stream_streamed`), and each consumer
ends in an error for the reasons given here only.
-/

namespace PortalPonder.Assembly

open Historical (Children Discovery)
open Client (FieldKey ColumnBatch ColumnStream DROPPABLE_FIELDS StreamError)

variable {F : Type}

/-- The blocks of a batch, as they arrive. -/
def delivered (b : ColumnBatch RawBlock) : List RawBlock := b.blocks.map (RawBlock.without b.dropped)

/-! ## The data path -/

/-- A stream as `runStreams` sees it. -/
def toStreamed (s : ColumnStream RawBlock) : Streamed where
  batches := s.batches.map delivered
  missing := s.missing
  failed := s.failed

structure ColumnStreams where
  logShards : List (ColumnStream RawBlock)
  traces : ColumnStream RawBlock
  blocks : ColumnStream RawBlock
  txShards : List (ColumnStream RawBlock)

def ColumnStreams.toStreams (streams : ColumnStreams) : Streams where
  logShards := streams.logShards.map toStreamed
  traces := toStreamed streams.traces
  blocks := toStreamed streams.blocks
  txShards := streams.txShards.map toStreamed

inductive DataError where
  | streams (e : StreamsError)
  /-- `toSyncLog` lower-cases an address, or `BigInt` takes a block number, that is `undefined` -/
  | typeError

/-- The matcher of traces gets to the number of the block. -/
def reachesMatcher (raw : RawTrace) : Bool := raw.ranked && (parityToCallFrame raw 0).isSome

/-- A row that its matcher cannot read: a log without its address, a trace or a header without the
number of its block. -/
def unreadable (spec : Spec F) (streams : ColumnStreams) : Bool :=
  (!spec.logFilters.isEmpty && streams.logShards.any fun s => s.batches.any fun b =>
    decide (addressColumn ∈ b.dropped) && b.blocks.any fun blk => !blk.logs.isEmpty) ||
  (spec.needTraces && streams.traces.batches.any fun b =>
    decide (numberColumn ∈ b.dropped) && b.blocks.any fun blk =>
      blk.traces.any fun raw => reachesMatcher (raw.without b.dropped)) ||
  (spec.needBlocks && streams.blocks.batches.any fun b =>
    decide (numberColumn ∈ b.dropped) && !b.blocks.isEmpty)

/-- `runStreams` over the batches as they arrive. A stream that fails before a row that cannot be
read gives its own error; the call ends in an error all the same. -/
def runColumns (spec : Spec F) (upstream : TraceMatching F) (known : Children F Address)
    (streams : ColumnStreams) (cd : ChunkData) (fromBlock toBlock : Nat) :
    Except DataError ChunkData :=
  if unreadable spec streams then .error .typeError
  else (runStreams spec upstream known streams.toStreams cd fromBlock toBlock).mapError .streams

/-! ### The client's streams -/

section Clients

variable {bodyLength : Client.Request → Nat} {query : Client.Fields} {fromBlock toBlock : Nat}
  {answers : Nat → Client.Request → Except Client.FetchError Client.Response}
  {parse : Client.RawBlock → RawBlock}

/-- Every answer is what is left of some blocks without the columns that were not asked for. -/
def Serves (bodyLength : Client.Request → Nat) (query : Client.Fields) (toBlock : Nat)
    (answers : Nat → Client.Request → Except Client.FetchError Client.Response)
    (parse : Client.RawBlock → RawBlock) : Prop :=
  ∀ b : ColumnBatch Client.RawBlock, b.Answered bodyLength query toBlock answers →
    ∃ blocks : List RawBlock, b.blocks.map parse = blocks.map (RawBlock.without b.dropped)

theorem exists_batches {batches : List (ColumnBatch Client.RawBlock)}
    (left : ∀ b ∈ batches, ∃ blocks : List RawBlock,
      b.blocks.map parse = blocks.map (RawBlock.without b.dropped)) :
    ∃ served : List (ColumnBatch RawBlock),
      served.map ColumnBatch.dropped = batches.map ColumnBatch.dropped ∧
        served.map delivered = batches.map fun b => b.blocks.map parse := by
  induction batches with
  | nil => exact ⟨[], rfl, rfl⟩
  | cons b rest ih =>
      obtain ⟨blocks, here⟩ := left b List.mem_cons_self
      obtain ⟨served, dropped, same⟩ := ih fun b' mem => left b' (List.mem_cons_of_mem b mem)
      refine ⟨⟨b.dropped, blocks⟩ :: served, ?_, ?_⟩
      · rw [List.map_cons, List.map_cons, dropped]
      · rw [List.map_cons, List.map_cons, same, here]
        rfl

/-- What `runStreams` sees of a call of `client.stream` is a stream with columns: the client's own
record of what is missing, and batches that lack what the client has dropped. -/
theorem stream_streamed {n : Nat} {ended : Client.StreamEnd}
    (ends : Client.stream bodyLength query fromBlock toBlock answers n = .error ended)
    (serves : Serves bodyLength query toBlock answers parse) :
    ∃ s, Client.EndsIn bodyLength query fromBlock toBlock answers s ended ∧
      ∃ c : ColumnStream RawBlock, c.dropped = s.dropped ∧
        toStreamed c = ⟨ended.yielded.map (List.map parse), s.neededMissing, ended.failed⟩ := by
  obtain ⟨s, last, c, dropped, missing, yielded, failed, answered⟩ := Client.stream_columns ends
  obtain ⟨served, columns, same⟩ := exists_batches fun b mem => serves b (answered b mem)
  have within : ∀ b ∈ served, b.dropped ⊆ c.dropped := by
    intro b mem
    have here : b.dropped ∈ c.batches.map ColumnBatch.dropped :=
      columns ▸ List.mem_map.2 ⟨b, mem, rfl⟩
    obtain ⟨b', mem', same'⟩ := List.mem_map.1 here
    exact same' ▸ c.within b' mem'
  refine ⟨s, last, ⟨served, c.dropped, c.missing, c.failed, within, c.recorded, c.needed⟩, dropped,
    ?_⟩
  show (⟨served.map delivered, c.missing, c.failed⟩ : Streamed) = _
  rw [same, missing, failed, ← yielded, List.map_map]
  rfl

end Clients

/-! ## The discovery scan -/

/-- What a scan reads of a factory, and the upstream function that reads a child out of a log: out of
its data, where it can always cut an address, or out of its topics. -/
structure ScanFactory (F : Type) where
  id : F
  factory : Factory Address Hex
  /-- the child stands in the data of the log, not in a topic -/
  needsData : Bool
  getChildAddress : ChainLog Address Hex → Option Address
  child_data : needsData = true → ∀ log, (getChildAddress log).isSome = true
  child_topics : needsData = false →
    ∀ a b : ChainLog Address Hex, a.topics = b.topics → getChildAddress a = getChildAddress b

inductive ScanError where
  | stream (e : StreamError)
  /-- `getChildAddress` reads a topic that the log does not have -/
  | typeError

/-- A factory, and the stream of its logs over one window. -/
structure ScanWork (F : Type) where
  factory : ScanFactory F
  stream : ColumnStream RawBlock

section Scan

variable [DecidableEq F]

/-- The log that a factory is matched against. Its place in the block is not read. -/
def scannedLog (raw : RawLog) : ChainLog Address Hex where
  logIndex := 0
  address := raw.address.toLower
  topics := (raw.topics.getD []).map String.toLower
  data := raw.data.getD "0x"

/-- An address that was left out is `undefined`, which is the address of no factory. -/
def scanMatched (f : ScanFactory F) (dropped : List FieldKey) (bn : Nat) (raw : RawLog) : Bool :=
  (f.factory.address.isNone || addressColumn ∉ dropped) &&
    isLogFactoryMatched f.factory (scannedLog raw) bn

def scanLog (f : ScanFactory F) (dropped : List FieldKey) (bn : Nat) (d : Discovery F Address)
    (raw : RawLog) : Discovery F Address × Option ScanError :=
  if scanMatched f dropped bn raw then
    match f.getChildAddress (scannedLog raw) with
    | none => (d, some .typeError)
    | some child =>
        -- without its number a child is recorded at `undefined`, which is before and after no block
        (if numberColumn ∈ dropped then d else d.record f.id bn child.toLower, none)
  else (d, none)

def scanBlock (f : ScanFactory F) (dropped : List FieldKey) (d : Discovery F Address)
    (b : RawBlock) : Discovery F Address × Option ScanError :=
  Folds.runUntil (scanLog f dropped b.header.number) d b.logs

def scanBatch (f : ScanFactory F) (d : Discovery F Address) (b : ColumnBatch RawBlock) :
    Discovery F Address × Option ScanError :=
  Folds.runUntil (scanBlock f b.dropped) d (delivered b)

/-- What the stream has recorded as missing is not asked for. -/
def scanFactory (d : Discovery F Address) (work : ScanWork F) :
    Discovery F Address × Option ScanError :=
  match Folds.runUntil (scanBatch work.factory) d work.stream.batches with
  | (d, some e) => (d, some e)
  | (d, none) => (d, work.stream.failed.map .stream)

def scanWindow (d : Discovery F Address) (works : List (ScanWork F)) :
    Discovery F Address × Option ScanError :=
  Folds.runUntil scanFactory d works

/-- The windows of an extension. One that fails does not stop the others. -/
def scanWindows (d : Discovery F Address) (windows : List (List (ScanWork F))) :
    Discovery F Address × Option ScanError :=
  windows.foldl (fun acc works =>
    let done := scanWindow acc.1 works
    (done.1, acc.2.or done.2)) (d, none)

/-- An extension up to `toBlock`: its watermark is confirmed when every window was drained, and
rolled back when one has failed. -/
def scanThrough (d : Discovery F Address) (toBlock : Int) (windows : List (List (ScanWork F))) :
    Discovery F Address × Option ScanError :=
  match scanWindows d windows with
  | (d, none) => ({ d with confirmed := toBlock, quantum := d.quantum.map (2 * ·) }, none)
  | (d, some e) => ({ d with through := d.confirmed }, some e)

end Scan

/-! ## What a missing column loses -/

/-- A needed column that the rows have was left out. -/
def LeavesOut (has : FieldKey → Prop) (dropped : List FieldKey) : Prop :=
  ∃ key ∈ dropped, key ∉ DROPPABLE_FIELDS ∧ has key

/-- A batch lacks a needed column that its rows have, and the dataset has a row there that is
kept. -/
def Gap (s : ColumnStream RawBlock) (has : FieldKey → Prop) (kept : RawBlock → Prop) : Prop :=
  ∃ b ∈ s.batches, LeavesOut has b.dropped ∧ ∃ blk ∈ b.blocks, kept blk

/-- A row has the columns of a receipt only if its source emits receipts. -/
def Emits (receipts : Bool) (key : FieldKey) : Prop := isReceiptField key = true → receipts = true

/-- A row that the data path would keep lacks a needed column. -/
def DataLost (spec : Spec F) (upstream : TraceMatching F) (known : Children F Address)
    (streams : ColumnStreams) : Prop :=
  (∃ s ∈ streams.logShards,
      Gap s (Emits spec.needReceipts) fun b => 0 < keptLogCount spec known b) ∨
    (spec.needTraces = true ∧ Gap streams.traces (Emits (needTraceReceipts spec)) fun b =>
      0 < keptTraceCount spec upstream known b) ∨
    (spec.needBlocks = true ∧
      Gap streams.blocks (Emits false) fun b => wantsHeader spec b = true) ∨
    (spec.needTxFilter = true ∧ ∃ s ∈ streams.txShards, Gap s (Emits true) fun b =>
      0 < keptTxCount spec known b)

/-- The columns that finding a child takes. -/
def ScanFactory.needs (f : ScanFactory F) : List FieldKey :=
  [topicsColumn, numberColumn] ++ (if f.factory.address.isSome then [addressColumn] else []) ++
    if f.needsData then [⟨"log", "data"⟩] else []

/-- A log that creates a child of the factory. -/
def ScanFactory.Creates (f : ScanFactory F) (bn : Nat) (raw : RawLog) : Prop :=
  isLogFactoryMatched f.factory (scannedLog raw) bn = true ∧
    (f.getChildAddress (scannedLog raw)).isSome = true

/-- A creation log lacks a column that finding its child takes. -/
def ScanLost (windows : List (List (ScanWork F))) : Prop :=
  ∃ works ∈ windows, ∃ work ∈ works, ∃ b ∈ work.stream.batches,
    (∃ key ∈ b.dropped, key ∈ work.factory.needs) ∧
    ∃ blk ∈ b.blocks, ∃ raw ∈ blk.logs, work.factory.Creates blk.header.number raw

/-! ## When a call ends in an error -/

theorem runColumns_error_iff {spec : Spec F} {upstream : TraceMatching F}
    {known : Children F Address} {streams : ColumnStreams} {cd : ChunkData}
    {fromBlock toBlock : Nat} :
    (∃ error, runColumns spec upstream known streams cd fromBlock toBlock = .error error) ↔
      ¬ streams.toStreams.Complete spec ∨ unreadable spec streams = true ∨
        CheckFires spec upstream known streams.toStreams cd := by
  unfold runColumns
  by_cases bad : unreadable spec streams = true
  · rw [if_pos bad]
    exact iff_of_true ⟨_, rfl⟩ (.inr (.inl bad))
  · rw [if_neg bad]
    have mapped : (∃ error, (runStreams spec upstream known streams.toStreams cd fromBlock
        toBlock).mapError DataError.streams = .error error) ↔
        ∃ error, runStreams spec upstream known streams.toStreams cd fromBlock toBlock =
          .error error := by
      cases runStreams spec upstream known streams.toStreams cd fromBlock toBlock with
      | error e => exact iff_of_true ⟨_, rfl⟩ ⟨_, rfl⟩
      | ok cd =>
          exact iff_of_false (fun ⟨_, error⟩ => (nomatch error)) fun ⟨_, error⟩ => (nomatch error)
    rw [mapped, runStreams_error_iff]
    simp [bad]

section Scan

variable [DecidableEq F]

/-- The scan of a factory over a window fails: its stream does, or a log has no child to read. -/
def WorkFails (work : ScanWork F) : Prop :=
  (∃ b ∈ work.stream.batches, ∃ blk ∈ delivered b, ∃ raw ∈ blk.logs,
      scanMatched work.factory b.dropped blk.header.number raw = true ∧
        work.factory.getChildAddress (scannedLog raw) = none) ∨
    work.stream.failed.isSome = true

def ScanFails (windows : List (List (ScanWork F))) : Prop :=
  ∃ works ∈ windows, ∃ work ∈ works, WorkFails work

theorem scanLog_fails (f : ScanFactory F) (dropped : List FieldKey) (bn : Nat)
    (d : Discovery F Address) (raw : RawLog) :
    (scanLog f dropped bn d raw).2.isSome = true ↔
      scanMatched f dropped bn raw = true ∧ f.getChildAddress (scannedLog raw) = none := by
  unfold scanLog
  split
  · next matched =>
      cases f.getChildAddress (scannedLog raw) with
      | none => simp [matched]
      | some child => simp
  · next other => simp [other]

theorem scanFactory_fails (d : Discovery F Address) (work : ScanWork F) :
    (scanFactory d work).2.isSome = true ↔ WorkFails work := by
  have blocks := fun (b : ColumnBatch RawBlock) (d : Discovery F Address) (blk : RawBlock) =>
    Folds.runUntil_fails (scanLog_fails work.factory b.dropped blk.header.number) blk.logs d
  have batches := fun (d : Discovery F Address) (b : ColumnBatch RawBlock) =>
    Folds.runUntil_fails (blocks b) (delivered b) d
  have stream := Folds.runUntil_fails batches work.stream.batches d
  unfold scanFactory WorkFails
  rw [← stream]
  show _ ↔ (Folds.runUntil (scanBatch work.factory) d work.stream.batches).2.isSome = true ∨ _
  cases Folds.runUntil (scanBatch work.factory) d work.stream.batches with
  | mk d' failed =>
      cases failed with
      | some e => simp
      | none => simp

/-- A window only ever records children: the watermark stays. -/
theorem scanWindow_confirmed (d : Discovery F Address) (works : List (ScanWork F)) :
    (scanWindow d works).1.confirmed = d.confirmed := by
  have log : ∀ f dropped bn (d' : Discovery F Address) raw, d'.confirmed = d.confirmed →
      (scanLog f dropped bn d' raw).1.confirmed = d.confirmed := by
    intro f dropped bn d' raw same
    unfold scanLog
    split
    · split
      · exact same
      · show (if numberColumn ∈ dropped then d' else _).confirmed = d.confirmed
        split
        · exact same
        · unfold Discovery.record
          split <;> exact same
    · exact same
  let kept := fun d' : Discovery F Address => d'.confirmed = d.confirmed
  refine Folds.runUntil_keeps kept (fun d' work _ same => ?_) rfl
  have batches : (Folds.runUntil (scanBatch work.factory) d'
      work.stream.batches).1.confirmed = d.confirmed :=
    Folds.runUntil_keeps kept (fun s b _ same =>
      Folds.runUntil_keeps kept (fun s blk _ same =>
        Folds.runUntil_keeps kept (fun s raw _ same => log _ _ _ s raw same) same) same) same
  unfold scanFactory
  cases done : Folds.runUntil (scanBatch work.factory) d'
    work.stream.batches with
  | mk d'' failed =>
      rw [done] at batches
      cases failed with
      | some e => exact batches
      | none => exact batches

theorem scanWindows_spec (d : Discovery F Address) (windows : List (List (ScanWork F))) :
    ((scanWindows d windows).2.isSome = true ↔
        ScanFails windows) ∧
      (scanWindows d windows).1.confirmed = d.confirmed := by
  have run : ∀ acc : Discovery F Address × Option ScanError, acc.1.confirmed = d.confirmed →
      let done := windows.foldl (fun acc works =>
        ((scanWindow acc.1 works).1,
          acc.2.or (scanWindow acc.1 works).2)) acc
      (done.2.isSome = true ↔ acc.2.isSome = true ∨ ScanFails windows) ∧
        done.1.confirmed = d.confirmed := by
    induction windows with
    | nil =>
        intro acc same
        exact ⟨by simp [ScanFails], same⟩
    | cons works rest ih =>
        intro acc same
        obtain ⟨fails, kept⟩ := ih ((scanWindow acc.1 works).1,
          acc.2.or (scanWindow acc.1 works).2)
          ((scanWindow_confirmed acc.1 works).trans same)
        refine ⟨fails.trans ?_, kept⟩
        have here : (scanWindow acc.1 works).2.isSome = true ↔
            ∃ work ∈ works, WorkFails work :=
          Folds.runUntil_fails scanFactory_fails works acc.1
        simp only [Option.isSome_or, Bool.or_eq_true, here, ScanFails, List.mem_cons,
          exists_eq_or_imp, or_assoc]
  obtain ⟨fails, kept⟩ := run (d, none) rfl
  exact ⟨fails.trans (by simp), kept⟩

/-- A scan fails for a reason of its own only, and then confirms nothing. -/
theorem scanThrough_spec (d : Discovery F Address) (toBlock : Int)
    (windows : List (List (ScanWork F))) :
    ((scanThrough d toBlock windows).2.isSome = true ↔
        ScanFails windows) ∧
      (scanThrough d toBlock windows).1.confirmed =
        if (scanThrough d toBlock windows).2.isSome then d.confirmed
        else toBlock := by
  obtain ⟨fails, kept⟩ := scanWindows_spec d windows
  unfold scanThrough
  cases done : scanWindows d windows with
  | mk d' failed =>
      rw [done] at fails kept
      cases failed with
      | some e => exact ⟨fails, kept⟩
      | none => exact ⟨fails, rfl⟩

end Scan

end PortalPonder.Assembly
