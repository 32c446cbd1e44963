import PortalPonder.Assembly.Columns

/-!
# Losses in silence

Which columns the requests left out decides what is lost without an error, whatever the dataset: on
the data path those without which a kept row is no longer kept, in a scan every column that finding a
child takes. Where such a column is missing, one block shows the loss: the call that has no other
completes.
-/

namespace PortalPonder.Assembly

open Historical (Children Discovery)
open Client (FieldKey ColumnBatch ColumnStream DROPPABLE_FIELDS)

variable {F : Type}

/-! ## Which columns must be served -/

/-- The columns that the requests of one stream left out, answer by answer. -/
def dropsOf (s : ColumnStream RawBlock) : List (List FieldKey) := s.batches.map ColumnBatch.dropped

/-- The columns that the requests of a call left out. -/
structure Drops where
  logShards : List (List (List FieldKey))
  traces : List (List FieldKey)
  blocks : List (List FieldKey)
  txShards : List (List (List FieldKey))

def ColumnStreams.drops (streams : ColumnStreams) : Drops where
  logShards := streams.logShards.map dropsOf
  traces := dropsOf streams.traces
  blocks := dropsOf streams.blocks
  txShards := streams.txShards.map dropsOf

section Seen

variable (spec : Spec F) (upstream : TraceMatching F) (known : Children F Address)

/-- What is left of a log is kept, or cannot be read at all. -/
def LogSeen (dropped : List FieldKey) (header : RawHeader) (log : RawLog) : Prop :=
  addressColumn ∈ dropped ∨
    buildRawLogMatcher spec known (log.without dropped) (header.without dropped)
      (header.without dropped).number = true

def TraceSeen (dropped : List FieldKey) (header : RawHeader) (trace : RawTrace) : Prop :=
  if numberColumn ∈ dropped then reachesMatcher (trace.without dropped) = true
  else buildRawTraceMatcher spec upstream known (trace.without dropped) header.number = true

def TxSeen (dropped : List FieldKey) (header : RawHeader) (tx : RawTx) : Prop :=
  buildRawTxMatcher spec known (tx.without dropped) (header.without dropped)
    (header.without dropped).number = true

/-- Where a needed column was left out, what is left of every row that the matchers keep is still
seen. A header is: its matcher reads the number only, and cannot do without it. -/
structure RowsSeen (drops : Drops) : Prop where
  logs : ∀ shard ∈ drops.logShards, ∀ dropped ∈ shard, LeavesOut (Emits spec.needReceipts) dropped →
    ∀ header log, buildRawLogMatcher spec known log header header.number = true →
      LogSeen spec known dropped header log
  traces : spec.needTraces = true → ∀ dropped ∈ drops.traces,
    LeavesOut (Emits (needTraceReceipts spec)) dropped →
    ∀ header trace, buildRawTraceMatcher spec upstream known trace header.number = true →
      TraceSeen spec upstream known dropped header trace
  txs : spec.needTxFilter = true → ∀ shard ∈ drops.txShards, ∀ dropped ∈ shard,
    LeavesOut (Emits true) dropped →
    ∀ header tx, buildRawTxMatcher spec known tx header header.number = true →
      TxSeen spec known dropped header tx

/-- The columns that the matchers read, of each table. -/
def MATCHED_COLUMNS : List FieldKey :=
  [topicsColumn, numberColumn, ⟨"transaction", "from"⟩, ⟨"transaction", "to"⟩] ++
    MATCHED_TRACE_COLUMNS.map (⟨"trace", ·⟩)

variable {spec upstream known}

/-- Every row is seen if no request left out a column that a matcher reads. -/
theorem rowsSeen_of_asked {drops : Drops}
    (asked : ∀ dropped ∈ drops.logShards.flatten ++ drops.traces ++ drops.txShards.flatten,
      ∀ key ∈ MATCHED_COLUMNS, key ∉ dropped) : RowsSeen spec upstream known drops where
  logs := by
    intro shard mem dropped here _ header log kept
    have reads := asked dropped (by
      simp only [List.mem_append, List.mem_flatten]
      exact .inl (.inl ⟨shard, mem, here⟩))
    by_cases address : addressColumn ∈ dropped
    · exact .inl address
    · refine .inr ?_
      rw [rawLogMatcher_without log (reads _ (by decide)) address (reads _ (by decide))]
      exact kept
  traces := by
    intro _ dropped here _ header trace kept
    have reads := asked dropped (by
      simp only [List.mem_append]
      exact .inl (.inr here))
    have columns : ∀ name ∈ MATCHED_TRACE_COLUMNS, ⟨"trace", name⟩ ∉ dropped := fun name mem =>
      reads _ (List.mem_append_right _ (List.mem_map.2 ⟨name, mem, rfl⟩))
    unfold TraceSeen
    rw [if_neg (reads numberColumn (by decide)), rawTraceMatcher_without columns]
    exact kept
  txs := by
    intro _ shard mem dropped here _ header tx kept
    have reads := asked dropped (by
      simp only [List.mem_append, List.mem_flatten]
      exact .inr ⟨shard, mem, here⟩)
    unfold TxSeen
    rw [rawTxMatcher_without tx (reads _ (by decide)) (reads _ (by decide)) (reads _ (by decide))]
    exact kept

end Seen

/-- A factory of a window, and the columns that its requests left out. -/
def ScanWork.columns (work : ScanWork F) : ScanFactory F × List (List FieldKey) :=
  (work.factory, dropsOf work.stream)

def scansOf (windows : List (List (ScanWork F))) :
    List (List (ScanFactory F × List (List FieldKey))) := windows.map (List.map ScanWork.columns)

/-- No column is left out that finding a child takes, unless the factory has no children. -/
def NeededServed (scans : List (List (ScanFactory F × List (List FieldKey)))) : Prop :=
  ∀ works ∈ scans, ∀ scan ∈ works, ∀ dropped ∈ scan.2, (∃ key ∈ dropped, key ∈ scan.1.needs) →
    ¬ ∃ bn raw, scan.1.Creates bn raw

/-! ## What is seen fails -/

theorem mem_toStreamed {s : ColumnStream RawBlock} {left : RawBlock} :
    left ∈ (toStreamed s).blocks ↔
      ∃ b ∈ s.batches, ∃ blk ∈ b.blocks, blk.without b.dropped = left := by
  unfold Streamed.blocks toStreamed delivered
  simp only [List.mem_flatten, List.mem_map, exists_exists_and_eq_and]

/-- What was dropped is recorded, whichever stream of the call it is. -/
theorem recorded_of_dropped {spec : Spec F} {streams : ColumnStreams} {s : ColumnStream RawBlock}
    (used : toStreamed s ∈ streams.toStreams.used spec) {b : ColumnBatch RawBlock}
    (mem : b ∈ s.batches) {key : FieldKey} (dropped : key ∈ b.dropped)
    (needed : key ∉ DROPPABLE_FIELDS) : ∃ e ∈ streams.toStreams.recorded spec, e.1 = key := by
  obtain ⟨tag, missing⟩ := s.recorded key (s.within b mem dropped) needed
  exact ⟨(key, tag), List.mem_flatMap.2 ⟨_, used, missing⟩, rfl⟩

/-- The call fetches no header that the chunk has. The chunk cache sees to it. -/
def FreshHeaders (cd : ChunkData) (streams : ColumnStreams) : Prop :=
  ∀ b ∈ streams.blocks.batches, ∀ blk ∈ b.blocks, cd.blockHeaders.get? blk.header.number = none

section Fails

variable {spec : Spec F} {upstream : TraceMatching F} {known : Children F Address}
  {streams : ColumnStreams} {cd : ChunkData} {fromBlock toBlock : Nat}

/-- A recorded column arms the check by a row of its own stream. -/
theorem fires_of_row {s : ColumnStream RawBlock} {b : ColumnBatch RawBlock} {key : FieldKey}
    (used : toStreamed s ∈ streams.toStreams.used spec) (mem : b ∈ s.batches)
    (dropped : key ∈ b.dropped) (needed : key ∉ DROPPABLE_FIELDS)
    (row : RowAdded spec upstream known streams.toStreams cd)
    (receiptRow : isReceiptField key = true →
      ReceiptRowAdded spec upstream known streams.toStreams) :
    CheckFires spec upstream known streams.toStreams cd := by
  obtain ⟨e, recorded, same⟩ := recorded_of_dropped used mem dropped needed
  cases receipt : isReceiptField key with
  | false => exact .inl ⟨⟨e, recorded, by rw [same, receipt]⟩, row⟩
  | true => exact .inr ⟨⟨e, recorded, by rw [same, receipt]⟩, receiptRow receipt⟩

theorem seen_log_fails (seen : RowsSeen spec upstream known streams.drops)
    {s : ColumnStream RawBlock} (shard : s ∈ streams.logShards)
    (gap : Gap s (Emits spec.needReceipts) fun b => 0 < keptLogCount spec known b) :
    unreadable spec streams = true ∨ CheckFires spec upstream known streams.toStreams cd := by
  obtain ⟨b, mem, left, blk, here, kept⟩ := gap
  obtain ⟨log, inLogs, matched⟩ := List.countP_pos_iff.1 kept
  have logSeen := seen.logs (dropsOf s) (List.mem_map.2 ⟨s, shard, rfl⟩) b.dropped
    (List.mem_map.2 ⟨b, mem, rfl⟩) left blk.header log matched
  rcases logSeen with address | stillKept
  · -- the matcher lower-cases the address that is not there
    have filters : spec.logFilters.isEmpty = false := by
      cases none_ : spec.logFilters with
      | nil =>
          unfold buildRawLogMatcher logMatched at matched
          rw [none_] at matched
          cases matched
      | cons f rest => rfl
    refine .inl ?_
    unfold unreadable
    simp only [Bool.or_eq_true, Bool.and_eq_true, filters, Bool.not_false, List.any_eq_true,
      decide_eq_true_eq, true_and]
    exact .inl (.inl ⟨s, shard, b, mem, address, blk, here, by
      rw [List.isEmpty_eq_false_iff.2 (List.ne_nil_of_mem inLogs)]
      rfl⟩)
  · obtain ⟨key, dropped, needed, emits⟩ := left
    have inShards : toStreamed s ∈ streams.toStreams.logShards := List.mem_map.2 ⟨s, shard, rfl⟩
    have row : 0 < (streams.toStreams.logBlocks.map (keptLogCount spec known)).sum := by
      refine sum_map_pos.2 ⟨blk.without b.dropped, List.mem_flatMap.2 ⟨_, inShards,
        mem_toStreamed.2 ⟨b, mem, blk, here, rfl⟩⟩, ?_⟩
      exact List.countP_pos_iff.2 ⟨_, List.mem_map.2 ⟨log, inLogs, rfl⟩, stillKept⟩
    exact .inr (fires_of_row (by simp [Streams.used, inShards]) mem dropped needed (.inl row)
      fun receipt => .inl ⟨emits receipt, row⟩)

theorem seen_trace_fails (seen : RowsSeen spec upstream known streams.drops)
    (need : spec.needTraces = true)
    (gap : Gap streams.traces (Emits (needTraceReceipts spec)) fun b =>
      0 < keptTraceCount spec upstream known b) :
    unreadable spec streams = true ∨ CheckFires spec upstream known streams.toStreams cd := by
  obtain ⟨b, mem, left, blk, here, kept⟩ := gap
  obtain ⟨trace, inTraces, matched⟩ := List.countP_pos_iff.1 kept
  have traceSeen := seen.traces need b.dropped (List.mem_map.2 ⟨b, mem, rfl⟩) left blk.header
    trace matched
  unfold TraceSeen at traceSeen
  split at traceSeen
  · next number =>
      -- `BigInt` takes the number that is not there
      refine .inl ?_
      unfold unreadable
      simp only [Bool.or_eq_true, Bool.and_eq_true, need, List.any_eq_true, decide_eq_true_eq,
        true_and]
      exact .inl (.inr ⟨b, mem, number, blk, here, trace, inTraces, traceSeen⟩)
  · next number =>
      obtain ⟨key, dropped, needed, emits⟩ := left
      have shards : streams.toStreams.traceShards spec = [toStreamed streams.traces] := by
        unfold Streams.traceShards
        rw [if_pos need]
        rfl
      have sameNumber : (blk.without b.dropped).header.number = blk.header.number := if_neg number
      have row : 0 < ((streams.toStreams.traceBlocks spec).map
          (keptTraceCount spec upstream known)).sum := by
        unfold Streams.traceBlocks
        rw [shards]
        refine sum_map_pos.2 ⟨blk.without b.dropped, List.mem_flatMap.2 ⟨_, List.mem_singleton.2 rfl,
          mem_toStreamed.2 ⟨b, mem, blk, here, rfl⟩⟩, ?_⟩
        refine List.countP_pos_iff.2 ⟨_, List.mem_map.2 ⟨trace, inTraces, rfl⟩, ?_⟩
        rw [sameNumber]
        exact traceSeen
      exact .inr (fires_of_row (by simp [Streams.used, shards]) mem dropped needed (.inr (.inl row))
        fun receipt => .inr (.inl ⟨emits receipt, row⟩))

/-- A header that is wanted and new is always seen. -/
theorem header_fails (fresh : FreshHeaders cd streams) (need : spec.needBlocks = true)
    (gap : Gap streams.blocks (Emits false) fun b => wantsHeader spec b = true) :
    unreadable spec streams = true ∨ CheckFires spec upstream known streams.toStreams cd := by
  obtain ⟨b, mem, ⟨key, dropped, needed, emits⟩, blk, here, wanted⟩ := gap
  by_cases number : numberColumn ∈ b.dropped
  · refine .inl ?_
    unfold unreadable
    simp only [Bool.or_eq_true, Bool.and_eq_true, need, List.any_eq_true, decide_eq_true_eq, true_and]
    refine .inr ⟨b, mem, number, ?_⟩
    rw [List.isEmpty_eq_false_iff.2 (List.ne_nil_of_mem here)]
    rfl
  · have shards : streams.toStreams.headerShards spec = [toStreamed streams.blocks] := by
      unfold Streams.headerShards
      rw [if_pos need]
      rfl
    have sameNumber : (blk.without b.dropped).header.number = blk.header.number := if_neg number
    have inHeaders : blk.without b.dropped ∈ streams.toStreams.headerBlocks spec := by
      unfold Streams.headerBlocks
      rw [shards]
      exact List.mem_flatMap.2 ⟨_, List.mem_singleton.2 rfl,
        mem_toStreamed.2 ⟨b, mem, blk, here, rfl⟩⟩
    have wanted' : wantsHeader spec (blk.without b.dropped) = true := by
      unfold wantsHeader
      rw [sameNumber]
      exact wanted
    have new : cd.blockHeaders.get? (blk.without b.dropped).header.number = none := by
      rw [sameNumber]
      exact fresh b mem blk here
    exact .inr (fires_of_row (by simp [Streams.used, shards]) mem dropped needed
      (.inr (.inr (.inr ⟨_, inHeaders, wanted', new⟩))) fun receipt => absurd (emits receipt) (by simp))

theorem seen_tx_fails (seen : RowsSeen spec upstream known streams.drops)
    (need : spec.needTxFilter = true) {s : ColumnStream RawBlock} (shard : s ∈ streams.txShards)
    (gap : Gap s (Emits true) fun b => 0 < keptTxCount spec known b) :
    CheckFires spec upstream known streams.toStreams cd := by
  obtain ⟨b, mem, left, blk, here, kept⟩ := gap
  obtain ⟨tx, inTxs, matched⟩ := List.countP_pos_iff.1 kept
  have txSeen := seen.txs need (dropsOf s) (List.mem_map.2 ⟨s, shard, rfl⟩) b.dropped
    (List.mem_map.2 ⟨b, mem, rfl⟩) left blk.header tx matched
  obtain ⟨key, dropped, needed, _⟩ := left
  have shards : streams.toStreams.usedTxShards spec = streams.txShards.map toStreamed := by
    unfold Streams.usedTxShards
    rw [if_pos need]
    rfl
  have inShards : toStreamed s ∈ streams.txShards.map toStreamed := List.mem_map.2 ⟨s, shard, rfl⟩
  have row : 0 < ((streams.toStreams.txBlocks spec).map (keptTxCount spec known)).sum := by
    unfold Streams.txBlocks
    rw [shards]
    refine sum_map_pos.2 ⟨blk.without b.dropped, List.mem_flatMap.2 ⟨_, inShards,
      mem_toStreamed.2 ⟨b, mem, blk, here, rfl⟩⟩, ?_⟩
    exact List.countP_pos_iff.2 ⟨_, List.mem_map.2 ⟨tx, inTxs, rfl⟩, txSeen⟩
  have isUsed : toStreamed s ∈ streams.toStreams.used spec := by
    unfold Streams.used
    rw [shards]
    exact List.mem_append_right _ inShards
  exact fires_of_row isUsed mem dropped needed (.inr (.inr (.inl row))) fun _ => .inr (.inr row)

/-- Whatever a call loses of rows that are seen, it ends in an error. -/
theorem seen_fails (seen : RowsSeen spec upstream known streams.drops)
    (fresh : FreshHeaders cd streams) (lost : DataLost spec upstream known streams) :
    ∃ error, runColumns spec upstream known streams cd fromBlock toBlock = .error error := by
  refine runColumns_error_iff.2 (.inr ?_)
  rcases lost with ⟨s, shard, gap⟩ | ⟨need, gap⟩ | ⟨need, gap⟩ | ⟨need, s, shard, gap⟩
  · exact seen_log_fails seen shard gap
  · exact seen_trace_fails seen need gap
  · exact header_fails fresh need gap
  · exact .inr (seen_tx_fails seen need shard gap)

end Fails

/-! ## What is not seen is lost in silence -/

/-- A list with one item of interest over every list that has its image. -/
theorem exists_map_eq {α β : Type} {f : β → α} (quiet : α → β) (same : ∀ a, f (quiet a) = a)
    {xs : List α} (y : β) (mem : f y ∈ xs) :
    ∃ ys : List β, ys.map f = xs ∧ y ∈ ys ∧ ∀ z ∈ ys, z = y ∨ ∃ a, z = quiet a := by
  obtain ⟨before, after, rfl⟩ := List.append_of_mem mem
  refine ⟨before.map quiet ++ y :: after.map quiet, ?_, by simp, ?_⟩
  · simp [Function.comp_def, same]
  · intro z inList
    rcases List.mem_append.1 inList with early | late
    · obtain ⟨a, _, rfl⟩ := List.mem_map.1 early
      exact .inr ⟨a, rfl⟩
    · rcases List.mem_cons.1 late with rfl | late
      · exact .inl rfl
      · obtain ⟨a, _, rfl⟩ := List.mem_map.1 late
        exact .inr ⟨a, rfl⟩

/-- A stream that has recorded what its batches lack, and does not fail. -/
def ofBatches (batches : List (ColumnBatch RawBlock)) : ColumnStream RawBlock where
  batches
  dropped := batches.flatMap ColumnBatch.dropped
  missing := ((batches.flatMap ColumnBatch.dropped).filter fun key => key ∉ DROPPABLE_FIELDS).map
    fun key => (key, key.field)
  failed := none
  within := fun b mem key here => List.mem_flatMap.2 ⟨b, mem, here⟩
  recorded := fun key mem needed =>
    ⟨key.field, List.mem_map.2 ⟨key, List.mem_filter.2 ⟨mem, decide_eq_true needed⟩, rfl⟩⟩
  needed := by
    intro e mem
    obtain ⟨key, inFilter, rfl⟩ := List.mem_map.1 mem
    obtain ⟨here, needed⟩ := List.mem_filter.1 inFilter
    exact ⟨here, of_decide_eq_true needed⟩

/-- Requests that no block answers. -/
def quietStream (drops : List (List FieldKey)) : ColumnStream RawBlock :=
  ofBatches (drops.map fun dropped => ⟨dropped, []⟩)

theorem dropsOf_quietStream (drops : List (List FieldKey)) : dropsOf (quietStream drops) = drops := by
  unfold dropsOf quietStream ofBatches
  simp [Function.comp_def]

/-- The stream does not fail, and has no block but the one, in answers without these columns. -/
structure Serving (dropped : List FieldKey) (blk : RawBlock) (s : ColumnStream RawBlock) : Prop where
  whole : s.failed = none
  only : ∀ b ∈ s.batches, ∀ blk' ∈ b.blocks, b.dropped = dropped ∧ blk' = blk

theorem quietStream_serving (drops : List (List FieldKey)) (dropped : List FieldKey)
    (blk : RawBlock) : Serving dropped blk (quietStream drops) where
  whole := rfl
  only := by
    intro b mem blk' here
    obtain ⟨_, _, rfl⟩ := List.mem_map.1 mem
    cases here

theorem exists_stream {drops : List (List FieldKey)} {dropped : List FieldKey}
    (mem : dropped ∈ drops) (blk : RawBlock) :
    ∃ s, dropsOf s = drops ∧ ⟨dropped, [blk]⟩ ∈ s.batches ∧ Serving dropped blk s := by
  obtain ⟨batches, columns, here, others⟩ := exists_map_eq (f := ColumnBatch.dropped)
    (fun dropped => ⟨dropped, ([] : List RawBlock)⟩) (fun _ => rfl) ⟨dropped, [blk]⟩ mem
  refine ⟨ofBatches batches, columns, here, rfl, ?_⟩
  intro b inBatches blk' inBlocks
  rcases others b inBatches with rfl | ⟨_, rfl⟩
  · exact ⟨rfl, List.mem_singleton.1 inBlocks⟩
  · cases inBlocks

theorem exists_shards {shards : List (List (List FieldKey))} {shard : List (List FieldKey)}
    (inShards : shard ∈ shards) {dropped : List FieldKey} (mem : dropped ∈ shard) (blk : RawBlock) :
    ∃ streams : List (ColumnStream RawBlock), streams.map dropsOf = shards ∧
      (∃ s ∈ streams, ⟨dropped, [blk]⟩ ∈ s.batches) ∧ ∀ s ∈ streams, Serving dropped blk s := by
  obtain ⟨s, columns, here, serving⟩ := exists_stream mem blk
  subst columns
  obtain ⟨streams, all, inStreams, others⟩ :=
    exists_map_eq (f := dropsOf) quietStream dropsOf_quietStream s inShards
  refine ⟨streams, all, ⟨s, inStreams, here⟩, ?_⟩
  intro s' mem'
  rcases others s' mem' with rfl | ⟨drops, rfl⟩
  · exact serving
  · exact quietStream_serving drops dropped blk

section Unseen

variable (spec : Spec F) (upstream : TraceMatching F) (known : Children F Address)

/-- No row of the block is kept in the form in which it arrives, and none is unreadable. -/
structure UnseenBlock (dropped : List FieldKey) (blk : RawBlock) : Prop where
  readable : addressColumn ∈ dropped → blk.logs = []
  keptLogs : keptLogCount spec known (blk.without dropped) = 0
  reached : numberColumn ∈ dropped → ∀ raw ∈ blk.traces, reachesMatcher (raw.without dropped) = false
  keptTraces : keptTraceCount spec upstream known (blk.without dropped) = 0
  keptTxs : keptTxCount spec known (blk.without dropped) = 0

/-- The streams of a call that has one block, and no header. -/
structure OneBlock (dropped : List FieldKey) (blk : RawBlock) (streams : ColumnStreams) : Prop where
  logs : ∀ s ∈ streams.logShards, Serving dropped blk s
  traces : Serving dropped blk streams.traces
  headers : ∃ drops, streams.blocks = quietStream drops
  txs : ∀ s ∈ streams.txShards, Serving dropped blk s

variable {spec upstream known} {streams : ColumnStreams} {cd : ChunkData} {fromBlock toBlock : Nat}
  {dropped : List FieldKey} {blk : RawBlock}

theorem OneBlock.noHeader (one : OneBlock dropped blk streams) :
    ∀ b ∈ streams.blocks.batches, b.blocks = [] := by
  obtain ⟨drops, quiet⟩ := one.headers
  rw [quiet]
  intro b mem
  obtain ⟨_, _, rfl⟩ := List.mem_map.1 mem
  rfl

theorem OneBlock.complete (one : OneBlock dropped blk streams) : streams.toStreams.Complete spec := by
  intro s used
  unfold Streams.used Streams.traceShards Streams.headerShards Streams.usedTxShards at used
  simp only [List.mem_append, List.mem_ite_nil_right, List.mem_singleton] at used
  rcases used with ((log | ⟨_, rfl⟩) | ⟨_, rfl⟩) | ⟨_, tx⟩
  · obtain ⟨s, mem, rfl⟩ := List.mem_map.1 log
    exact (one.logs s mem).whole
  · exact one.traces.whole
  · obtain ⟨drops, quiet⟩ := one.headers
    show streams.blocks.failed = none
    rw [quiet]
    rfl
  · obtain ⟨s, mem, rfl⟩ := List.mem_map.1 tx
    exact (one.txs s mem).whole

theorem UnseenBlock.notUnreadable (unseen : UnseenBlock spec upstream known dropped blk)
    (one : OneBlock dropped blk streams) : unreadable spec streams ≠ true := by
  intro bad
  unfold unreadable at bad
  simp only [Bool.or_eq_true, Bool.and_eq_true, List.any_eq_true, decide_eq_true_eq] at bad
  rcases bad with (⟨_, s, shard, b, mem, address, blk', here, logs⟩ |
    ⟨_, b, mem, number, blk', here, raw, inTraces, reached⟩) | ⟨_, b, mem, _, blocks⟩
  · obtain ⟨same, rfl⟩ := (one.logs s shard).only b mem blk' here
    rw [unseen.readable (same ▸ address)] at logs
    cases logs
  · obtain ⟨same, rfl⟩ := one.traces.only b mem blk' here
    rw [same, unseen.reached (same ▸ number) raw inTraces] at reached
    cases reached
  · rw [one.noHeader b mem] at blocks
    cases blocks

theorem reaches_of_kept {raw : RawTrace} {bn : Nat}
    (kept : buildRawTraceMatcher spec upstream known raw bn = true) : reachesMatcher raw = true := by
  unfold buildRawTraceMatcher at kept
  split at kept
  · cases kept
  · next ranked =>
      unfold reachesMatcher
      rw [ranked_iff.2 ranked]
      cases isFrame : parityToCallFrame raw 0 with
      | none =>
          rw [isFrame] at kept
          cases kept
      | some frame => rfl

/-- A call in which nothing is seen completes. -/
theorem UnseenBlock.completes (unseen : UnseenBlock spec upstream known dropped blk)
    (one : OneBlock dropped blk streams) :
    ¬ ∃ error, runColumns spec upstream known streams cd fromBlock toBlock = .error error := by
  have logs : ¬ 0 < (streams.toStreams.logBlocks.map (keptLogCount spec known)).sum := by
    intro row
    obtain ⟨_, inLogs, kept⟩ := sum_map_pos.1 row
    obtain ⟨_, inShards, inBlocks⟩ := List.mem_flatMap.1 inLogs
    obtain ⟨s, shard, rfl⟩ := List.mem_map.1 inShards
    obtain ⟨b, mem, blk', here, rfl⟩ := mem_toStreamed.1 inBlocks
    obtain ⟨same, rfl⟩ := (one.logs s shard).only b mem blk' here
    rw [same, unseen.keptLogs] at kept
    exact absurd kept (Nat.lt_irrefl 0)
  have traces : ¬ 0 < ((streams.toStreams.traceBlocks spec).map
      (keptTraceCount spec upstream known)).sum := by
    intro row
    obtain ⟨_, inTraces, kept⟩ := sum_map_pos.1 row
    obtain ⟨_, inShards, inBlocks⟩ := List.mem_flatMap.1 inTraces
    obtain ⟨_, rfl⟩ := List.mem_ite_nil_right.1 inShards |>.imp_right List.mem_singleton.1
    obtain ⟨b, mem, blk', here, rfl⟩ := mem_toStreamed.1 inBlocks
    obtain ⟨same, rfl⟩ := one.traces.only b mem blk' here
    rw [same, unseen.keptTraces] at kept
    exact absurd kept (Nat.lt_irrefl 0)
  have txs : ¬ 0 < ((streams.toStreams.txBlocks spec).map (keptTxCount spec known)).sum := by
    intro row
    obtain ⟨_, inTxs, kept⟩ := sum_map_pos.1 row
    obtain ⟨_, inShards, inBlocks⟩ := List.mem_flatMap.1 inTxs
    obtain ⟨s, shard, rfl⟩ := List.mem_map.1 (List.mem_ite_nil_right.1 inShards).2
    obtain ⟨b, mem, blk', here, rfl⟩ := mem_toStreamed.1 inBlocks
    obtain ⟨same, rfl⟩ := (one.txs s shard).only b mem blk' here
    rw [same, unseen.keptTxs] at kept
    exact absurd kept (Nat.lt_irrefl 0)
  have headers : ∀ left, left ∉ streams.toStreams.headerBlocks spec := by
    intro left inHeaders
    obtain ⟨_, inShards, inBlocks⟩ := List.mem_flatMap.1 inHeaders
    obtain ⟨_, rfl⟩ := List.mem_ite_nil_right.1 inShards |>.imp_right List.mem_singleton.1
    obtain ⟨b, mem, blk', here, _⟩ := mem_toStreamed.1 inBlocks
    rw [one.noHeader b mem] at here
    cases here
  rw [runColumns_error_iff]
  rintro (incomplete | bad | ⟨_, log | trace | tx | ⟨b, mem, _⟩⟩ | ⟨_, log | trace | tx⟩)
  · exact incomplete one.complete
  · exact unseen.notUnreadable one bad
  · exact logs log
  · exact traces trace
  · exact txs tx
  · exact headers b mem
  · exact logs log.2
  · exact traces trace.2
  · exact txs tx

end Unseen

section Losses

variable (spec : Spec F) (upstream : TraceMatching F) (known : Children F Address) (drops : Drops)
  (cd : ChunkData) (fromBlock toBlock : Nat)

/-- Whatever the dataset, a call that leaves out these columns ends in an error where it loses a
row. -/
def LossesFail : Prop :=
  ∀ streams : ColumnStreams, streams.drops = drops → FreshHeaders cd streams →
    DataLost spec upstream known streams →
    ∃ error, runColumns spec upstream known streams cd fromBlock toBlock = .error error

variable {spec upstream known drops cd fromBlock toBlock}

theorem OneBlock.fresh {streams : ColumnStreams} {dropped : List FieldKey} {blk : RawBlock}
    (one : OneBlock dropped blk streams) : FreshHeaders cd streams := by
  intro b mem blk' here
  rw [one.noHeader b mem] at here
  cases here

theorem log_seen (fails : LossesFail spec upstream known drops cd fromBlock toBlock)
    {shard : List (List FieldKey)} (inShards : shard ∈ drops.logShards) {dropped : List FieldKey}
    (mem : dropped ∈ shard) (left : LeavesOut (Emits spec.needReceipts) dropped)
    {header : RawHeader} {log : RawLog}
    (kept : buildRawLogMatcher spec known log header header.number = true) :
    LogSeen spec known dropped header log := by
  by_contra unseen
  obtain ⟨address, lost⟩ := not_or.1 unseen
  let blk : RawBlock := ⟨header, [log], [], []⟩
  obtain ⟨logShards, columns, ⟨s, here, served⟩, serving⟩ := exists_shards inShards mem blk
  let streams : ColumnStreams :=
    ⟨logShards, quietStream drops.traces, quietStream drops.blocks, drops.txShards.map quietStream⟩
  have one : OneBlock dropped blk streams := by
    refine ⟨serving, quietStream_serving _ _ _, ⟨_, rfl⟩, ?_⟩
    intro s mem
    obtain ⟨_, _, rfl⟩ := List.mem_map.1 mem
    exact quietStream_serving _ _ _
  have unseenBlock : UnseenBlock spec upstream known dropped blk :=
    ⟨fun dropped => absurd dropped address,
      List.countP_eq_zero.2 fun raw mem => by rw [List.mem_singleton.1 mem]; exact lost,
      fun _ raw mem => (nomatch mem), rfl, rfl⟩
  have sameDrops : streams.drops = drops := by
    show Drops.mk _ _ _ _ = drops
    rw [columns, List.map_map]
    simp [Function.comp_def, streams, dropsOf_quietStream]
  have isLost : DataLost spec upstream known streams :=
    .inl ⟨s, here, _, served, left, blk, List.mem_singleton.2 rfl,
      List.countP_pos_iff.2 ⟨log, List.mem_singleton.2 rfl, kept⟩⟩
  exact unseenBlock.completes one (fails streams sameDrops one.fresh isLost)

theorem trace_seen (fails : LossesFail spec upstream known drops cd fromBlock toBlock)
    (need : spec.needTraces = true) {dropped : List FieldKey} (mem : dropped ∈ drops.traces)
    (left : LeavesOut (Emits (needTraceReceipts spec)) dropped) {header : RawHeader}
    {trace : RawTrace}
    (kept : buildRawTraceMatcher spec upstream known trace header.number = true) :
    TraceSeen spec upstream known dropped header trace := by
  by_contra unseen
  let blk : RawBlock := ⟨header, [], [], [trace]⟩
  obtain ⟨s, columns, served, serving⟩ := exists_stream mem blk
  let streams : ColumnStreams :=
    ⟨drops.logShards.map quietStream, s, quietStream drops.blocks, drops.txShards.map quietStream⟩
  have quiet : ∀ shards : List (List (List FieldKey)), ∀ s ∈ shards.map quietStream,
      Serving dropped blk s := by
    intro shards s mem
    obtain ⟨_, _, rfl⟩ := List.mem_map.1 mem
    exact quietStream_serving _ _ _
  have one : OneBlock dropped blk streams := ⟨quiet _, serving, ⟨_, rfl⟩, quiet _⟩
  have unseenBlock : UnseenBlock spec upstream known dropped blk := by
    refine ⟨fun _ => rfl, rfl, fun number raw mem => ?_, ?_, rfl⟩
    · rw [List.mem_singleton.1 mem]
      unfold TraceSeen at unseen
      rw [if_pos number] at unseen
      exact Bool.eq_false_of_not_eq_true unseen
    · refine List.countP_eq_zero.2 fun raw mem stillKept => unseen ?_
      rw [List.mem_singleton.1 mem] at stillKept
      unfold TraceSeen
      split
      · exact reaches_of_kept stillKept
      · next number =>
          have sameNumber : (header.without dropped).number = header.number := if_neg number
          rw [← sameNumber]
          exact stillKept
  have sameDrops : streams.drops = drops := by
    show Drops.mk _ _ _ _ = drops
    rw [columns]
    simp [Function.comp_def, streams, dropsOf_quietStream]
  have isLost : DataLost spec upstream known streams :=
    .inr (.inl ⟨need, _, served, left, blk, List.mem_singleton.2 rfl,
      List.countP_pos_iff.2 ⟨trace, List.mem_singleton.2 rfl, kept⟩⟩)
  exact unseenBlock.completes one (fails streams sameDrops one.fresh isLost)

theorem tx_seen (fails : LossesFail spec upstream known drops cd fromBlock toBlock)
    (need : spec.needTxFilter = true) {shard : List (List FieldKey)}
    (inShards : shard ∈ drops.txShards) {dropped : List FieldKey} (mem : dropped ∈ shard)
    (left : LeavesOut (Emits true) dropped) {header : RawHeader} {tx : RawTx}
    (kept : buildRawTxMatcher spec known tx header header.number = true) :
    TxSeen spec known dropped header tx := by
  by_contra unseen
  let blk : RawBlock := ⟨header, [], [tx], []⟩
  obtain ⟨txShards, columns, ⟨s, here, served⟩, serving⟩ := exists_shards inShards mem blk
  let streams : ColumnStreams :=
    ⟨drops.logShards.map quietStream, quietStream drops.traces, quietStream drops.blocks, txShards⟩
  have one : OneBlock dropped blk streams := by
    refine ⟨?_, quietStream_serving _ _ _, ⟨_, rfl⟩, serving⟩
    intro s mem
    obtain ⟨_, _, rfl⟩ := List.mem_map.1 mem
    exact quietStream_serving _ _ _
  have unseenBlock : UnseenBlock spec upstream known dropped blk :=
    ⟨fun _ => rfl, rfl, fun _ raw mem => (nomatch mem), rfl,
      List.countP_eq_zero.2 fun raw mem => by rw [List.mem_singleton.1 mem]; exact unseen⟩
  have sameDrops : streams.drops = drops := by
    show Drops.mk _ _ _ _ = drops
    rw [columns]
    simp [Function.comp_def, streams, dropsOf_quietStream]
  have isLost : DataLost spec upstream known streams :=
    .inr (.inr (.inr ⟨need, s, here, _, served, left, blk, List.mem_singleton.2 rfl,
      List.countP_pos_iff.2 ⟨tx, List.mem_singleton.2 rfl, kept⟩⟩))
  exact unseenBlock.completes one (fails streams sameDrops one.fresh isLost)

/-- On the data path every loss fails exactly when what is left of every kept row is seen. -/
theorem lossesFail_iff :
    LossesFail spec upstream known drops cd fromBlock toBlock ↔
      RowsSeen spec upstream known drops := by
  constructor
  · intro fails
    exact ⟨fun _ shard _ mem left _ _ kept => log_seen fails shard mem left kept,
      fun need _ mem left _ _ kept => trace_seen fails need mem left kept,
      fun need _ shard _ mem left _ _ kept => tx_seen fails need shard mem left kept⟩
  · intro seen streams same fresh lost
    exact seen_fails (same ▸ seen) fresh lost

end Losses

/-! ## What a scan loses -/

/-- A creation log never makes a scan fail, whatever it lacks: either it is no factory log any more,
or some child is read out of it. -/
theorem creates_not_fails {f : ScanFactory F} {dropped : List FieldKey} {header : RawHeader}
    {raw : RawLog} (creates : f.Creates header.number raw) :
    ¬ (scanMatched f dropped (header.without dropped).number (raw.without dropped) = true ∧
      f.getChildAddress (scannedLog (raw.without dropped)) = none) := by
  rintro ⟨matched, none_⟩
  unfold scanMatched at matched
  obtain ⟨address, factoryLog⟩ := Bool.and_eq_true_iff.1 matched
  have topics : topicsColumn ∉ dropped := by
    intro left
    have noTopics : (raw.without dropped).topics = none := if_pos left
    unfold isLogFactoryMatched scannedLog at factoryLog
    rw [noTopics] at factoryLog
    simp at factoryLog
  cases inData : f.needsData with
  | true =>
      have some_ := f.child_data inData (scannedLog (raw.without dropped))
      rw [none_] at some_
      cases some_
  | false =>
      -- the child stands in the topics, and they are there
      have sameTopics : (raw.without dropped).topics = raw.topics := if_neg topics
      have same := f.child_topics inData (scannedLog (raw.without dropped)) (scannedLog raw)
        (by unfold scannedLog; rw [sameTopics])
      have some_ := creates.2
      rw [← same, none_] at some_
      cases some_

section ScanLosses

variable [DecidableEq F]

/-- Whatever the dataset, an extension of the watermark by these scans fails where it loses a child,
and confirms nothing. -/
def ScanLossesFail (d : Discovery F Address) (through : Int)
    (scans : List (List (ScanFactory F × List (List FieldKey)))) : Prop :=
  ∀ windows, scansOf windows = scans → ScanLost windows →
    (scanThrough d through windows).2.isSome = true ∧
      (scanThrough d through windows).1.confirmed = d.confirmed

/-- In a scan every loss fails exactly when no column is left out that a factory needs. -/
theorem scanLossesFail_iff {d : Discovery F Address} {through : Int}
    {scans : List (List (ScanFactory F × List (List FieldKey)))} :
    ScanLossesFail d through scans ↔ NeededServed scans := by
  constructor
  · rintro fails works inScans ⟨f, drops⟩ inWorks dropped mem ⟨key, inDropped, needed⟩
      ⟨bn, raw, creates⟩
    let blk : RawBlock := ⟨⟨bn, "", "", 0, []⟩, [raw], [], []⟩
    obtain ⟨s, columns, served, serving⟩ := exists_stream mem blk
    let quietWork : ScanFactory F × List (List FieldKey) → ScanWork F :=
      fun scan => ⟨scan.1, quietStream scan.2⟩
    have quietColumns : ∀ scan, (quietWork scan).columns = scan :=
      fun scan => congrArg (Prod.mk scan.1) (dropsOf_quietStream scan.2)
    have isScan : ScanWork.columns ⟨f, s⟩ = (f, drops) := congrArg (Prod.mk f) columns
    obtain ⟨window, sameWindow, inWindow, others⟩ :=
      exists_map_eq quietWork quietColumns ⟨f, s⟩ (isScan ▸ inWorks)
    have quietWindow : ∀ works : List (ScanFactory F × List (List FieldKey)),
        (works.map quietWork).map ScanWork.columns = works := by
      intro works
      simp [Function.comp_def, quietColumns]
    obtain ⟨windows, sameWindows, inWindows, otherWindows⟩ :=
      exists_map_eq (f := List.map ScanWork.columns) (List.map quietWork) quietWindow window
        (sameWindow ▸ inScans)
    have lost : ScanLost windows :=
      ⟨window, inWindows, ⟨f, s⟩, inWindow, _, served, ⟨key, inDropped, needed⟩, blk,
        List.mem_singleton.2 rfl, raw, List.mem_singleton.2 rfl, creates⟩
    have quietFails : ∀ scan, ¬ WorkFails (quietWork scan) := by
      rintro scan (⟨b, mem, _, here, _⟩ | failed)
      · obtain ⟨_, _, rfl⟩ := List.mem_map.1 mem
        cases here
      · cases failed
    have workFails : ¬ WorkFails (⟨f, s⟩ : ScanWork F) := by
      rintro (⟨b, mem, _, here, raw', inLogs, unread⟩ | failed)
      · obtain ⟨blk', inBlocks, rfl⟩ := List.mem_map.1 here
        obtain ⟨same, rfl⟩ := serving.only b mem blk' inBlocks
        obtain ⟨raw'', inBlk, rfl⟩ := List.mem_map.1 inLogs
        obtain rfl := List.mem_singleton.1 inBlk
        rw [same] at unread
        exact creates_not_fails creates unread
      · rw [serving.whole] at failed
        cases failed
    have noFailure : ¬ ScanFails windows := by
      rintro ⟨works', inWindows', work, inWorks', failed⟩
      rcases otherWindows works' inWindows' with rfl | ⟨quiet, rfl⟩
      · rcases others work inWorks' with rfl | ⟨scan, rfl⟩
        · exact workFails failed
        · exact quietFails scan failed
      · obtain ⟨scan, _, rfl⟩ := List.mem_map.1 inWorks'
        exact quietFails scan failed
    exact noFailure ((scanThrough_spec d through windows).1.1 (fails windows sameWindows lost).1)
  · rintro served windows rfl ⟨works, inWindows, work, inWorks, b, mem, lacks, blk, here, raw, inLogs,
      creates⟩
    refine absurd ⟨blk.header.number, raw, creates⟩ (served (works.map ScanWork.columns)
      (List.mem_map.2 ⟨works, inWindows, rfl⟩) work.columns (List.mem_map.2 ⟨work, inWorks, rfl⟩)
      b.dropped (List.mem_map.2 ⟨b, mem, rfl⟩) lacks)

end ScanLosses

/-- Which columns were left out decides whether both consumers end in an error over every range that
loses rows: on the data path what is left of a kept row must still be seen, and a scan must have
every column that finding a child takes. -/
theorem losses_fail_iff [DecidableEq F] (spec : Spec F) (upstream : TraceMatching F)
    (known : Children F Address) (drops : Drops) (cd : ChunkData) (fromBlock toBlock : Nat)
    (d : Discovery F Address) (through : Int)
    (scans : List (List (ScanFactory F × List (List FieldKey)))) :
    LossesFail spec upstream known drops cd fromBlock toBlock ∧ ScanLossesFail d through scans ↔
      RowsSeen spec upstream known drops ∧ NeededServed scans := by
  rw [lossesFail_iff, scanLossesFail_iff]

/-! ## A chain whose topics cannot be asked for -/

def creationLog : RawLog := ⟨"0xfac", some ["0x5e1", "0xc1d"], some "0x", some "0xaa", some 0, some 0⟩

/-- The factory names a child in the first topic behind the selector. -/
def topicFactory : ScanFactory String where
  id := "factory"
  factory := ⟨some ["0xfac"], "0x5e1", none, none⟩
  needsData := false
  getChildAddress := fun log => log.topics[1]?
  child_data := by
    intro inData
    cases inData
  child_topics := by
    intro _ a b same
    rw [same]

/-- The server rejects `topics`; one creation log is in the range. -/
def topiclessWork : ScanWork String where
  factory := topicFactory
  stream := ofBatches [⟨[topicsColumn], [⟨⟨5, "0xb5", "0xb4", 60, []⟩, [creationLog], [], []⟩]⟩]

def freshDiscovery : Discovery String Address :=
  Historical.createDiscovery ⟨["factory"], fun _ _ => [], 1, none, fun _ => OrdMap.empty⟩

/-- The scan of a factory whose only creation log arrives without its topics: it ends, confirms the
range, and has found no child. -/
theorem topicless_scan_confirms :
    ¬ (LossesFail (compileFetchSpec []) sampleMatching (fun _ => OrdMap.empty) ⟨[], [], [], []⟩
        createChunkData 0 9 ∧
      ScanLossesFail freshDiscovery 9 [[(topicFactory, [[topicsColumn]])]]) := by
  rintro ⟨_, scan⟩
  have lost : ScanLost [[topiclessWork]] :=
    ⟨_, List.mem_singleton.2 rfl, _, List.mem_singleton.2 rfl, _, List.mem_singleton.2 rfl,
      ⟨topicsColumn, List.mem_singleton.2 rfl, by decide⟩,
      _, List.mem_singleton.2 rfl, creationLog, List.mem_singleton.2 rfl, by decide +kernel,
      by decide +kernel⟩
  have confirms : (scanThrough freshDiscovery 9 [[topiclessWork]]).1.confirmed = 9 := by
    decide +kernel
  have stays := (scan [[topiclessWork]] rfl lost).2
  rw [confirms] at stays
  exact absurd stays (by decide)

end PortalPonder.Assembly
