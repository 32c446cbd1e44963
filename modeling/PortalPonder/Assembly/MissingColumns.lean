import PortalPonder.Assembly.StreamRows
import PortalPonder.Assembly.TraceRows

/-!
# The check for missing columns

A column that a stream could not be asked for is an error only if rows were added that use it. The
check counts the rows the raw matchers keep; `assembleRange` keeps the same ones, so no gap passes
unnoticed. The other direction fails: a column of one table is an error because of the kept rows
of another, which never read it.
-/

namespace PortalPonder.Assembly

open Historical (Children)
open Client (FieldKey)

variable {F : Type}

theorem sum_map_pos {α : Type} {f : α → Nat} {items : List α} :
    0 < (items.map f).sum ↔ ∃ a ∈ items, 0 < f a := by
  induction items with
  | nil => simp
  | cons a rest ih =>
      rw [List.map_cons, List.sum_cons, Nat.add_pos_iff_pos_or_pos, ih]
      simp

theorem sum_countP_pos {α β : Type} {blocks : List α} {rows : α → List β} {p : α → β → Bool} :
    0 < (blocks.map fun b => (rows b).countP (p b)).sum ↔
      ∃ b ∈ blocks, ∃ row ∈ rows b, p b row = true := by
  simp only [sum_map_pos, List.countP_pos_iff]

/-! ## Rows that a call adds -/

section Added

variable (spec : Spec F) (upstream : TraceMatching F) (known : Children F Address)
  (streams : Streams)

/-- The blocks that the streams of a call yield. -/
def Streams.yielded : List RawBlock := (streams.used spec).flatMap Streamed.blocks

/-- The rows that a call adds. -/
def Streams.added : ChunkData := streams.merged spec createChunkData

variable {spec upstream known streams}

theorem mem_yielded {b : RawBlock} : b ∈ streams.yielded spec ↔
    b ∈ streams.logBlocks ∨ b ∈ streams.traceBlocks spec ∨ b ∈ streams.headerBlocks spec ∨
      b ∈ streams.txBlocks spec := by
  unfold Streams.yielded Streams.used Streams.logBlocks Streams.traceBlocks Streams.headerBlocks
    Streams.txBlocks
  simp only [List.flatMap_append, List.mem_append, or_assoc]

/-- The matchers read nothing of a header but its number. -/
theorem rawLogMatcher_header (raw : RawLog) {h₁ h₂ : RawHeader} (same : h₁.number = h₂.number)
    (bn : Nat) :
    buildRawLogMatcher spec known raw h₁ bn = buildRawLogMatcher spec known raw h₂ bn := by
  unfold buildRawLogMatcher logMatched chainLog toSyncLog
  rw [same]

theorem rawTxMatcher_header (raw : RawTx) {h₁ h₂ : RawHeader} (same : h₁.number = h₂.number)
    (bn : Nat) :
    buildRawTxMatcher spec known raw h₁ bn = buildRawTxMatcher spec known raw h₂ bn := by
  unfold buildRawTxMatcher txFilterMatched toSyncTransaction
  rw [same]

theorem added_logsAt {bn : Nat} {raw : RawLog} : raw ∈ (streams.added spec).logsAt bn ↔
    ∃ b ∈ streams.logBlocks, b.header.number = bn ∧ raw ∈ b.logs := by
  unfold Streams.added
  rw [merged_logsAt]
  show raw ∈ [] ++ _ ↔ _
  simp [and_assoc]

theorem added_header {bn : Nat} {hdr : RawHeader}
    (found : (streams.added spec).headers.get? bn = some hdr) : hdr.number = bn := by
  unfold Streams.added at found
  rw [merged_headers_at] at found
  rcases Option.or_eq_some_iff.1 found with last | ⟨_, none_⟩
  · obtain ⟨b, isLast, rfl⟩ := Option.map_eq_some_iff.1 last
    have mem := List.mem_filter.1 (List.mem_of_getLast? isLast)
    exact (of_decide_eq_true mem.2).1
  · cases none_

variable (spec) in
theorem added_header_of_log {b : RawBlock} (mem : b ∈ streams.logBlocks) {raw : RawLog}
    (log : raw ∈ b.logs) : ∃ hdr, (streams.added spec).headers.get? b.header.number = some hdr := by
  unfold Streams.added
  rw [merged_headers_at]
  have some_ : b ∈ streams.logBlocks.filter fun b' =>
      b'.header.number = b.header.number ∧ b'.logs ≠ [] :=
    List.mem_filter.2 ⟨mem, decide_eq_true ⟨rfl, List.ne_nil_of_mem log⟩⟩
  cases last : (streams.logBlocks.filter fun b' =>
      b'.header.number = b.header.number ∧ b'.logs ≠ []).getLast? with
  | none =>
      rw [List.getLast?_eq_none_iff.1 last] at some_
      cases some_
  | some b' => exact ⟨b'.header, rfl⟩

/-- The traces of a block so far. -/
def tracesOf (ex : Option TraceBlock) : List RawTrace := (ex.map TraceBlock.traces).getD []

def txsOf (ex : Option TxBlock) : List RawTx := (ex.map TxBlock.txs).getD []

theorem foldl_joinTraces_traces (blocks : List RawBlock) (ex : Option TraceBlock) :
    tracesOf (blocks.foldl joinTraces ex) = tracesOf ex ++ blocks.flatMap RawBlock.traces := by
  induction blocks generalizing ex with
  | nil => simp
  | cons b rest ih =>
      rw [List.foldl_cons, ih, List.flatMap_cons, ← List.append_assoc]
      congr 1
      unfold joinTraces tracesOf
      cases b.traces with
      | nil => simp
      | cons t ts => cases ex <;> rfl

theorem foldl_joinTxs_txs (blocks : List RawBlock) (ex : Option TxBlock) :
    txsOf (blocks.foldl joinTxs ex) = txsOf ex ++ blocks.flatMap RawBlock.transactions := by
  induction blocks generalizing ex with
  | nil => simp
  | cons b rest ih =>
      rw [List.foldl_cons, ih, List.flatMap_cons, ← List.append_assoc]
      congr 1
      unfold joinTxs txsOf
      cases b.transactions with
      | nil => simp
      | cons t ts => cases ex <;> rfl

/-- The header of the account transactions of a block is one that came with them. -/
theorem foldl_joinTxs_header {blocks : List RawBlock} {tb : TxBlock}
    (found : blocks.foldl joinTxs none = some tb) : ∃ b ∈ blocks, tb.header = b.header := by
  have all : ∀ tb, blocks.foldl joinTxs none = some tb → ∃ b ∈ blocks, tb.header = b.header := by
    refine Folds.foldl_keeps (fun ex : Option TxBlock =>
      ∀ tb, ex = some tb → ∃ b ∈ blocks, tb.header = b.header) ?_ fun _ none_ => by cases none_
    intro ex b mem before tb joined
    unfold joinTxs at joined
    split at joined
    · exact before tb joined
    · cases ex with
      | none =>
          cases joined
          exact ⟨b, mem, rfl⟩
      | some ex =>
          cases joined
          exact before ex rfl
  exact all tb found

/-! ### The counts -/

variable {lo hi : Nat}

/-- The interval has every block of the call. -/
def Covers (spec : Spec F) (streams : Streams) (lo hi : Nat) : Prop :=
  ∀ b ∈ streams.yielded spec, lo ≤ b.header.number ∧ b.header.number ≤ hi

theorem exists_keptLog (covers : Covers spec streams lo hi) :
    (∃ cd bn hdr raw, KeptLog [streams.added spec] lo hi spec known cd bn hdr raw) ↔
      0 < (streams.logBlocks.map (keptLogCount spec known)).sum := by
  refine Iff.trans ?_ sum_countP_pos.symm
  constructor
  · rintro ⟨cd, bn, hdr, raw, log⟩
    obtain rfl := List.mem_singleton.1 log.chunk
    obtain ⟨here, kept⟩ := List.mem_filter.1 log.kept
    obtain ⟨b, mem, number, inLogs⟩ := added_logsAt.1 here
    refine ⟨b, mem, raw, inLogs, ?_⟩
    subst number
    rw [rawLogMatcher_header raw (added_header log.header).symm]
    exact kept
  · rintro ⟨b, mem, raw, inLogs, kept⟩
    obtain ⟨hdr, header⟩ := added_header_of_log spec mem inLogs
    obtain ⟨low, high⟩ := covers b (mem_yielded.2 (.inl mem))
    refine ⟨_, b.header.number, hdr, raw, List.mem_singleton.2 rfl, header, low, high, ?_⟩
    refine List.mem_filter.2 ⟨added_logsAt.2 ⟨b, mem, rfl, inLogs⟩, ?_⟩
    rw [rawLogMatcher_header raw (added_header header).symm] at kept
    exact kept

theorem needTraces_of_mem {b : RawBlock} (mem : b ∈ streams.traceBlocks spec) :
    spec.needTraces = true := by
  unfold Streams.traceBlocks Streams.traceShards at mem
  split at mem
  · next need => exact need
  · cases mem

theorem exists_keptTrace (covers : Covers spec streams lo hi) :
    (∃ bn tb t, KeptTrace upstream spec known [streams.added spec] lo hi bn tb t) ↔
      0 < ((streams.traceBlocks spec).map (keptTraceCount spec upstream known)).sum := by
  refine Iff.trans ?_ sum_countP_pos.symm
  have at_ : ∀ bn, tracesOf ((streams.added spec).traceBlocks.get? bn) =
      ((streams.traceBlocks spec).filter fun b => b.header.number = bn).flatMap RawBlock.traces := by
    intro bn
    unfold Streams.added
    rw [merged_traceBlocks_at, foldl_joinTraces_traces]
    rfl
  constructor
  · rintro ⟨bn, tb, t, trace⟩
    obtain ⟨cd, inChunks, found⟩ := trace.chunk
    obtain rfl := List.mem_singleton.1 inChunks
    have here := at_ bn
    rw [found] at here
    have mem : t ∈ tracesOf (some tb) := trace.here
    rw [here] at mem
    obtain ⟨b, mem, inTraces⟩ := List.mem_flatMap.1 mem
    obtain ⟨mem, number⟩ := List.mem_filter.1 mem
    refine ⟨b, mem, t, inTraces, ?_⟩
    rw [of_decide_eq_true number]
    exact trace.kept
  · rintro ⟨b, mem, t, inTraces, kept⟩
    obtain ⟨low, high⟩ := covers b (mem_yielded.2 (.inr (.inl mem)))
    have here : t ∈ tracesOf ((streams.added spec).traceBlocks.get? b.header.number) := by
      rw [at_]
      exact List.mem_flatMap.2 ⟨b, List.mem_filter.2 ⟨mem, decide_eq_true rfl⟩, inTraces⟩
    cases found : (streams.added spec).traceBlocks.get? b.header.number with
    | none =>
        rw [found] at here
        cases here
    | some tb =>
        rw [found] at here
        exact ⟨b.header.number, tb, t, needTraces_of_mem mem,
          ⟨_, List.mem_singleton.2 rfl, found⟩, low, high, here, kept⟩

theorem needTxFilter_of_mem {b : RawBlock} (mem : b ∈ streams.txBlocks spec) :
    spec.needTxFilter = true := by
  unfold Streams.txBlocks Streams.usedTxShards at mem
  split at mem
  · next need => exact need
  · cases mem

theorem exists_accountTx (covers : Covers spec streams lo hi) :
    (∃ bn t hdr, AccountTx [streams.added spec] lo hi spec known bn t hdr) ↔
      0 < ((streams.txBlocks spec).map (keptTxCount spec known)).sum := by
  refine Iff.trans ?_ sum_countP_pos.symm
  have fold : ∀ bn, (streams.added spec).txBlocks.get? bn =
      ((streams.txBlocks spec).filter fun b => b.header.number = bn).foldl joinTxs none := by
    intro bn
    unfold Streams.added
    rw [merged_txBlocks_at]
    rfl
  have header : ∀ bn tb, (streams.added spec).txBlocks.get? bn = some tb →
      tb.header.number = bn := by
    intro bn tb found
    rw [fold] at found
    obtain ⟨b, mem, same⟩ := foldl_joinTxs_header found
    rw [same]
    exact of_decide_eq_true (List.mem_filter.1 mem).2
  have at_ : ∀ bn, txsOf ((streams.added spec).txBlocks.get? bn) =
      ((streams.txBlocks spec).filter fun b => b.header.number = bn).flatMap
        RawBlock.transactions := by
    intro bn
    rw [fold, foldl_joinTxs_txs]
    rfl
  constructor
  · rintro ⟨bn, t, _, need, cd, inChunks, tb, found, low, high, rfl, inTxs, matched⟩
    obtain rfl := List.mem_singleton.1 inChunks
    have mem : t ∈ txsOf (some tb) := inTxs
    rw [← found, at_] at mem
    obtain ⟨b, mem, inTxs⟩ := List.mem_flatMap.1 mem
    obtain ⟨mem, number⟩ := List.mem_filter.1 mem
    have number := of_decide_eq_true number
    refine ⟨b, mem, t, inTxs, ?_⟩
    rw [number, rawTxMatcher_header t (number.trans (header bn tb found).symm)]
    exact matched
  · rintro ⟨b, mem, t, inTxs, kept⟩
    obtain ⟨low, high⟩ := covers b (mem_yielded.2 (.inr (.inr (.inr mem))))
    have here : t ∈ txsOf ((streams.added spec).txBlocks.get? b.header.number) := by
      rw [at_]
      exact List.mem_flatMap.2 ⟨b, List.mem_filter.2 ⟨mem, decide_eq_true rfl⟩, inTxs⟩
    cases found : (streams.added spec).txBlocks.get? b.header.number with
    | none =>
        rw [found] at here
        cases here
    | some tb =>
        rw [found] at here
        rw [rawTxMatcher_header t (header _ tb found).symm] at kept
        exact ⟨b.header.number, t, tb.header, needTxFilter_of_mem mem, _, List.mem_singleton.2 rfl,
          tb, found, low, high, rfl, here, kept⟩

variable (spec) in
/-- The header map grows by the wanted blocks that it does not have. -/
theorem foldl_mergeHeader_size (blocks : List RawBlock) (cd : ChunkData) :
    cd.blockHeaders.size ≤ (blocks.foldl (mergeHeader spec) cd).blockHeaders.size ∧
      (cd.blockHeaders.size < (blocks.foldl (mergeHeader spec) cd).blockHeaders.size ↔
        ∃ b ∈ blocks, wantsHeader spec b = true ∧
          cd.blockHeaders.get? b.header.number = none) := by
  induction blocks generalizing cd with
  | nil => simp
  | cons b rest ih =>
      rw [List.foldl_cons]
      obtain ⟨grows, larger⟩ := ih (mergeHeader spec cd b)
      have size : (mergeHeader spec cd b).blockHeaders.size =
          if wantsHeader spec b = true ∧ cd.blockHeaders.get? b.header.number = none then
            cd.blockHeaders.size + 1 else cd.blockHeaders.size := by
        unfold mergeHeader
        change (if wantsHeader spec b = true then _ else cd).blockHeaders.size = _
        by_cases wanted : wantsHeader spec b = true
        · rw [if_pos wanted]
          show (cd.blockHeaders.set b.header.number b.header).size = _
          rw [OrdMap.size_set]
          cases found : cd.blockHeaders.get? b.header.number with
          | none => simp [wanted]
          | some hdr => simp
        · simp [wanted]
      by_cases new : wantsHeader spec b = true ∧ cd.blockHeaders.get? b.header.number = none
      · rw [if_pos new] at size
        exact ⟨by omega, fun _ => ⟨b, List.mem_cons_self, new⟩, fun _ => by omega⟩
      · rw [if_neg new] at size
        refine ⟨by omega, ?_⟩
        rw [← size, larger]
        -- the block itself is not new, and the others are new with it or without it
        constructor
        · rintro ⟨b', mem, wanted, absent⟩
          rw [mergeHeader_at] at absent
          split at absent
          · cases absent
          · exact ⟨b', List.mem_cons_of_mem b mem, wanted, absent⟩
        · rintro ⟨b', mem, wanted, absent⟩
          rcases List.mem_cons.1 mem with rfl | later
          · exact absurd ⟨wanted, absent⟩ new
          · refine ⟨b', later, wanted, ?_⟩
            rw [mergeHeader_at, if_neg ?_]
            · exact absent
            · rintro ⟨same, wantedToo⟩
              exact new ⟨wantedToo, same ▸ absent⟩

theorem exists_filteredHeader (covers : Covers spec streams lo hi) :
    (∃ bn hdr, FilteredHeader [streams.added spec] lo hi spec bn hdr) ↔
      ∃ b ∈ streams.headerBlocks spec, wantsHeader spec b = true := by
  have at_ : ∀ bn, (streams.added spec).blockHeaders.get? bn =
      ((((streams.headerBlocks spec).filter fun b =>
        b.header.number = bn ∧ wantsHeader spec b = true).getLast?).map RawBlock.header) := by
    intro bn
    unfold Streams.added
    rw [merged_blockHeaders_at]
    exact Option.or_none
  constructor
  · rintro ⟨bn, hdr, need, cd, inChunks, found, low, high⟩
    obtain rfl := List.mem_singleton.1 inChunks
    rw [at_] at found
    obtain ⟨b, last, _⟩ := Option.map_eq_some_iff.1 found
    obtain ⟨mem, wanted⟩ := List.mem_filter.1 (List.mem_of_getLast? last)
    exact ⟨b, mem, (of_decide_eq_true wanted).2⟩
  · rintro ⟨b, mem, wanted⟩
    obtain ⟨low, high⟩ := covers b (mem_yielded.2 (.inr (.inr (.inl mem))))
    have need : spec.needBlocks = true := by
      unfold Streams.headerBlocks Streams.headerShards at mem
      split at mem
      · next need => exact need
      · cases mem
    have here : b ∈ (streams.headerBlocks spec).filter fun b' =>
        b'.header.number = b.header.number ∧ wantsHeader spec b' = true :=
      List.mem_filter.2 ⟨mem, decide_eq_true ⟨rfl, wanted⟩⟩
    cases found : (streams.added spec).blockHeaders.get? b.header.number with
    | none =>
        rw [at_, Option.map_eq_none_iff, List.getLast?_eq_none_iff] at found
        rw [found] at here
        cases here
    | some hdr => exact ⟨b.header.number, hdr, need, _, List.mem_singleton.2 rfl, found, low, high⟩

end Added

/-! ## Who uses a column -/

def TraceTransaction.isFull : TraceTransaction → Bool
  | full _ => true
  | indexOnly _ => false

/-- A row of the range has the column: a log, a trace, a block, a receipt or a transaction, by the
table of the column. -/
def AssembledRange.uses (range : AssembledRange) (key : FieldKey) : Prop :=
  key.table = "log" ∧ range.logs ≠ [] ∨
  key.table = "trace" ∧ range.traces ≠ [] ∨
  key.table = "block" ∧ (range.blocks ≠ [] ∨ range.traces ≠ []) ∨
  isReceiptField key = true ∧ range.receipts ≠ [] ∨
  key.table = "transaction" ∧ isReceiptField key = false ∧
    (range.txs ≠ [] ∨ ∃ t ∈ range.traces, t.transaction.isFull = true)

section Check

variable (spec : Spec F) (upstream : TraceMatching F) (known : Children F Address)
  (streams : Streams) (lo hi : Nat)

/-- The columns that the streams of a call could not be asked for. -/
def Streams.recorded : List (FieldKey × String) := (streams.used spec).flatMap Streamed.missing

/-! The rows of the call that are kept, by what they are of. -/

def LogKept : Prop :=
  ∃ cd bn hdr raw, KeptLog [streams.added spec] lo hi spec known cd bn hdr raw

def TraceKept : Prop :=
  ∃ bn tb t, KeptTrace upstream spec known [streams.added spec] lo hi bn tb t

def AccountKept : Prop :=
  ∃ bn t hdr, AccountTx [streams.added spec] lo hi spec known bn t hdr

def HeaderKept : Prop := ∃ bn hdr, FilteredHeader [streams.added spec] lo hi spec bn hdr

/-- Any row at all is kept. -/
def RowKept : Prop :=
  LogKept spec known streams lo hi ∨ TraceKept spec upstream known streams lo hi ∨
    AccountKept spec known streams lo hi ∨ HeaderKept spec streams lo hi

/-- A row is kept whose source emits receipts. -/
def ReceiptSourceKept : Prop :=
  spec.needReceipts = true ∧ LogKept spec known streams lo hi ∨
    needTraceReceipts spec = true ∧ TraceKept spec upstream known streams lo hi ∨
    AccountKept spec known streams lo hi

/-- The rows that make the check fail: any row for a column that no receipt has, any row of a
source that emits receipts for the others. -/
def Armed : Prop :=
  (∃ e ∈ streams.recorded spec, isReceiptField e.1 = false) ∧
      RowKept spec upstream known streams lo hi ∨
    (∃ e ∈ streams.recorded spec, isReceiptField e.1 = true) ∧
      ReceiptSourceKept spec upstream known streams lo hi

/-- A kept row of the table that the column belongs to. -/
def KeptOf (key : FieldKey) : Prop :=
  key.table = "log" ∧ LogKept spec known streams lo hi ∨
  key.table = "trace" ∧ TraceKept spec upstream known streams lo hi ∨
  key.table = "block" ∧ RowKept spec upstream known streams lo hi ∨
  isReceiptField key = true ∧ (∃ t hdr, ReceiptOf [streams.added spec] lo hi spec upstream known t hdr ∧
    (truthy t.hash).isSome = true) ∨
  key.table = "transaction" ∧ isReceiptField key = false ∧
    ∃ t hdr, TxOf [streams.added spec] lo hi spec known t hdr ∨
      TraceParent [streams.added spec] lo hi spec upstream known t hdr

/-- Assembly keeps a row of the call that has one of the columns that are missing. -/
def Consumed : Prop :=
  ∃ e ∈ streams.recorded spec,
    (assembleRange [streams.added spec] (lo, hi) spec upstream known).uses e.1

/-- The call ends in the error for missing columns. -/
def ThrowsMissing (cd : ChunkData) (fromBlock toBlock : Nat) : Prop :=
  ∃ missing, runStreams spec upstream known streams cd fromBlock toBlock =
    .error (.missingColumns missing fromBlock toBlock)

variable {spec upstream known streams lo hi}

section Uses

variable {chunks : List ChunkData}

theorem blockTraces_full {bn : Nat} {tb : TraceBlock} {m : MatchedTrace}
    (mem : m ∈ blockTraces spec upstream known bn tb) :
    m.row.transaction.isFull = m.parent.isSome := by
  unfold blockTraces at mem
  obtain ⟨k, _, mem⟩ := List.mem_flatMap.1 mem
  obtain ⟨r, _, kept⟩ := List.mem_filterMap.1 mem
  dsimp only at kept
  split at kept
  · cases kept
    cases tb.txs.reverse.find? fun tx => tx.transactionIndex = k with
    | none => rfl
    | some tx => rfl
  · cases kept

theorem matchedTraces_full {m : MatchedTrace}
    (mem : m ∈ matchedTraces chunks lo hi spec upstream known) :
    m.row.transaction.isFull = m.parent.isSome := by
  unfold matchedTraces at mem
  split at mem
  · obtain ⟨cd, _, mem⟩ := List.mem_flatMap.1 mem
    obtain ⟨e, _, mem⟩ := List.mem_flatMap.1 mem
    exact blockTraces_full mem
  · cases mem

theorem fullTrace_iff :
    (∃ t ∈ (assembleRange chunks (lo, hi) spec upstream known).traces,
      t.transaction.isFull = true) ↔
      ∃ t hdr, TraceParent chunks lo hi spec upstream known t hdr := by
  constructor
  · rintro ⟨_, inRange, full⟩
    obtain ⟨m, mem, rfl⟩ := List.mem_map.1 inRange
    rw [matchedTraces_full mem] at full
    obtain ⟨t, isParent⟩ := Option.isSome_iff_exists.1 full
    obtain ⟨bn, tb, raw, kept, parent, _⟩ := mem_matchedTraces mem
    exact ⟨t, tb.header, bn, tb, raw, kept, parent.symm.trans isParent, rfl⟩
  · rintro ⟨t, hdr, bn, tb, raw, kept, isParent, _⟩
    obtain ⟨m, mem, parent, _⟩ := exists_matchedTraces kept
    refine ⟨m.row, List.mem_map.2 ⟨m, mem, rfl⟩, ?_⟩
    rw [matchedTraces_full mem, parent, isParent]
    rfl

end Uses

/-- What assembly keeps uses a column exactly when a kept row is of its table. -/
theorem uses_iff (key : FieldKey) :
    (assembleRange [streams.added spec] (lo, hi) spec upstream known).uses key ↔
      KeptOf spec upstream known streams lo hi key := by
  have block : (assembleRange [streams.added spec] (lo, hi) spec upstream known).blocks ≠ [] ∨
      (assembleRange [streams.added spec] (lo, hi) spec upstream known).traces ≠ [] ↔
        RowKept spec upstream known streams lo hi := by
    rw [blocks_ne_nil, traces_ne_nil]
    constructor
    · rintro ((log | header | account) | trace)
      exacts [.inl log, .inr (.inr (.inr header)), .inr (.inr (.inl account)), .inr (.inl trace)]
    · rintro (log | trace | account | header)
      exacts [.inl (.inl log), .inr trace, .inl (.inr (.inr account)), .inl (.inr (.inl header))]
  have transaction : (assembleRange [streams.added spec] (lo, hi) spec upstream known).txs ≠ [] ∨
      (∃ t ∈ (assembleRange [streams.added spec] (lo, hi) spec upstream known).traces,
        t.transaction.isFull = true) ↔
      ∃ t hdr, TxOf [streams.added spec] lo hi spec known t hdr ∨
        TraceParent [streams.added spec] lo hi spec upstream known t hdr := by
    rw [txs_ne_nil, fullTrace_iff]
    simp only [exists_or]
  unfold AssembledRange.uses KeptOf
  rw [logs_ne_nil, block, receipts_ne_nil, transaction, traces_ne_nil]
  rfl

theorem consumed_iff : Consumed spec upstream known streams lo hi ↔
    ∃ e ∈ streams.recorded spec, KeptOf spec upstream known streams lo hi e.1 := by
  unfold Consumed
  simp only [uses_iff]

/-- The call adds a row that the matchers keep; a header counts when the chunk does not have it. -/
def RowAdded (spec : Spec F) (upstream : TraceMatching F) (known : Children F Address)
    (streams : Streams) (cd : ChunkData) : Prop :=
  0 < (streams.logBlocks.map (keptLogCount spec known)).sum ∨
    0 < ((streams.traceBlocks spec).map (keptTraceCount spec upstream known)).sum ∨
    0 < ((streams.txBlocks spec).map (keptTxCount spec known)).sum ∨
    ∃ b ∈ streams.headerBlocks spec, wantsHeader spec b = true ∧
      cd.blockHeaders.get? b.header.number = none

/-- The call adds a row whose source emits receipts. -/
def ReceiptRowAdded (spec : Spec F) (upstream : TraceMatching F) (known : Children F Address)
    (streams : Streams) : Prop :=
  spec.needReceipts = true ∧ 0 < (streams.logBlocks.map (keptLogCount spec known)).sum ∨
    needTraceReceipts spec = true ∧
      0 < ((streams.traceBlocks spec).map (keptTraceCount spec upstream known)).sum ∨
    0 < ((streams.txBlocks spec).map (keptTxCount spec known)).sum

/-- What the check looks for, in the blocks as they were delivered. -/
def CheckFires (spec : Spec F) (upstream : TraceMatching F) (known : Children F Address)
    (streams : Streams) (cd : ChunkData) : Prop :=
  (∃ e ∈ streams.recorded spec, isReceiptField e.1 = false) ∧
      RowAdded spec upstream known streams cd ∨
    (∃ e ∈ streams.recorded spec, isReceiptField e.1 = true) ∧
      ReceiptRowAdded spec upstream known streams

theorem columnsMissing_iff {cd : ChunkData} {run : Run}
    (drained : Drained spec upstream known streams cd run) :
    columnsMissing spec cd run = true ↔ CheckFires spec upstream known streams cd := by
  have headers : cd.blockHeaders.size < run.cd.blockHeaders.size ↔
      ∃ b ∈ streams.headerBlocks spec, wantsHeader spec b = true ∧
        cd.blockHeaders.get? b.header.number = none := by
    rw [drained.cd, merged_blockHeaders]
    exact (foldl_mergeHeader_size spec (streams.headerBlocks spec) cd).2
  have receiptMissing : 0 < (run.neededMissing.filter fun e => isReceiptField e.1).length ↔
      ∃ e ∈ streams.recorded spec, isReceiptField e.1 = true := by
    rw [List.length_pos_iff, ne_nil_iff]
    simp only [List.mem_filter, drained.missing]
    rfl
  have nonReceiptMissing : 0 < run.neededMissing.length -
      (run.neededMissing.filter fun e => isReceiptField e.1).length ↔
      ∃ e ∈ streams.recorded spec, isReceiptField e.1 = false := by
    have parts := List.length_eq_length_filter_add (l := run.neededMissing)
      fun e => isReceiptField e.1
    rw [parts, Nat.add_sub_cancel_left, List.length_pos_iff, ne_nil_iff]
    simp only [List.mem_filter, drained.missing, Bool.not_eq_true']
    rfl
  unfold columnsMissing nonReceiptArmed receiptArmed CheckFires RowAdded ReceiptRowAdded
  simp only [Bool.or_eq_true, Bool.and_eq_true, decide_eq_true_eq, nonReceiptMissing,
    receiptMissing, headers, drained.logs, drained.traces, drained.txs, or_assoc]

/-- The check of a call whose streams all end. -/
theorem throws_iff {cd : ChunkData} {fromBlock toBlock : Nat} (complete : streams.Complete spec)
    (covers : Covers spec streams lo hi)
    (fresh : ∀ b ∈ streams.headerBlocks spec, cd.blockHeaders.get? b.header.number = none) :
    ThrowsMissing spec upstream known streams cd fromBlock toBlock ↔
      Armed spec upstream known streams lo hi := by
  obtain ⟨run, done, drained⟩ := drainAll_complete upstream known cd complete
  have newHeaders : (∃ b ∈ streams.headerBlocks spec, wantsHeader spec b = true ∧
      cd.blockHeaders.get? b.header.number = none) ↔ HeaderKept spec streams lo hi := by
    refine Iff.trans ?_ (exists_filteredHeader covers).symm
    constructor
    · rintro ⟨b, mem, wanted, _⟩
      exact ⟨b, mem, wanted⟩
    · rintro ⟨b, mem, wanted⟩
      exact ⟨b, mem, wanted, fresh b mem⟩
  have check : columnsMissing spec cd run = true ↔ Armed spec upstream known streams lo hi := by
    rw [columnsMissing_iff drained]
    unfold CheckFires RowAdded ReceiptRowAdded Armed RowKept ReceiptSourceKept LogKept TraceKept
      AccountKept
    rw [newHeaders, exists_keptLog covers, exists_keptTrace covers, exists_accountTx covers]
  unfold ThrowsMissing runStreams
  rw [done, ← check]
  show (∃ missing, (if columnsMissing spec cd run = true then _ else _) = _) ↔ _
  split
  · next throws => exact ⟨fun _ => throws, fun _ => ⟨_, rfl⟩⟩
  · next passes => exact ⟨fun ⟨_, error⟩ => (nomatch error), fun throws => absurd throws passes⟩

/-- A call ends in an error exactly when one of its streams fails or the check fires. -/
theorem runStreams_error_iff {cd : ChunkData} {fromBlock toBlock : Nat} :
    (∃ error, runStreams spec upstream known streams cd fromBlock toBlock = .error error) ↔
      ¬ streams.Complete spec ∨ CheckFires spec upstream known streams cd := by
  by_cases complete : streams.Complete spec
  · obtain ⟨run, done, drained⟩ := drainAll_complete upstream known cd complete
    rw [← columnsMissing_iff drained]
    unfold runStreams
    rw [done]
    show (∃ error, (if columnsMissing spec cd run = true then _ else _) = _) ↔ _
    split
    · next throws => exact ⟨fun _ => .inr throws, fun _ => ⟨_, rfl⟩⟩
    · next passes =>
        constructor
        · exact fun ⟨_, error⟩ => (nomatch error)
        · rintro (incomplete | throws)
          exacts [absurd complete incomplete, absurd throws passes]
  · refine iff_of_true ?_ (.inl complete)
    cases done : drainAll spec upstream known streams cd with
    | ok run => exact absurd (complete_of_drainAll done) complete
    | error error =>
        unfold runStreams
        rw [done]
        exact ⟨error, rfl⟩

/-- No gap passes unnoticed: a kept row that has a missing column makes the check fail. -/
theorem armed_of_keptOf {e : FieldKey × String} (recorded : e ∈ streams.recorded spec)
    (kept : KeptOf spec upstream known streams lo hi e.1) :
    Armed spec upstream known streams lo hi := by
  have notReceipt : ∀ {table : String}, e.1.table = table → table ≠ "transaction" →
      isReceiptField e.1 = false := by
    intro table same other
    unfold isReceiptField
    rw [same]
    simp [other]
  rcases kept with ⟨table, log⟩ | ⟨table, trace⟩ | ⟨table, row⟩ | ⟨receipt, t, hdr, of, _⟩ |
    ⟨_, other, t, hdr, of⟩
  · exact .inl ⟨⟨e, recorded, notReceipt table (by decide)⟩, .inl log⟩
  · exact .inl ⟨⟨e, recorded, notReceipt table (by decide)⟩, .inr (.inl trace)⟩
  · exact .inl ⟨⟨e, recorded, notReceipt table (by decide)⟩, row⟩
  · refine .inr ⟨⟨e, recorded, receipt⟩, ?_⟩
    rcases of with (⟨receipts, cd, bn, raw, h, log, _⟩ | ⟨bn, account⟩) | ⟨receipts, bn, tb, raw, kept, _⟩
    · exact .inl ⟨receipts, cd, bn, hdr, raw, log⟩
    · exact .inr (.inr ⟨bn, t, hdr, account⟩)
    · exact .inr (.inl ⟨receipts, bn, tb, raw, kept⟩)
  · refine .inl ⟨⟨e, recorded, other⟩, ?_⟩
    rcases of with (⟨cd, bn, raw, h, log, _⟩ | ⟨bn, account⟩) | ⟨bn, tb, raw, kept, _⟩
    · exact .inl ⟨cd, bn, hdr, raw, log⟩
    · exact .inr (.inr (.inl ⟨bn, t, hdr, account⟩))
    · exact .inr (.inl ⟨bn, tb, raw, kept⟩)

/-- The check agrees with assembly exactly when, in a call that it fails, one of the missing
columns is of a table that a kept row has. -/
theorem check_agrees_iff {cd : ChunkData} {fromBlock toBlock : Nat}
    (complete : streams.Complete spec) (covers : Covers spec streams lo hi)
    (fresh : ∀ b ∈ streams.headerBlocks spec, cd.blockHeaders.get? b.header.number = none) :
    (ThrowsMissing spec upstream known streams cd fromBlock toBlock ↔
        Consumed spec upstream known streams lo hi) ↔
      (Armed spec upstream known streams lo hi →
        ∃ e ∈ streams.recorded spec, KeptOf spec upstream known streams lo hi e.1) := by
  rw [throws_iff complete covers fresh, consumed_iff]
  constructor
  · exact fun agrees armed => agrees.1 armed
  · exact fun kept => ⟨kept, fun ⟨_, recorded, keptOf⟩ => armed_of_keptOf recorded keptOf⟩

end Check

/-! ## A column of a table without rows -/

/-- The matchers on filters that name no selector. -/
def sampleMatching : TraceMatching String where
  isTraceFilterMatched f frame bn := isBlockInRange f.fromBlock f.toBlock bn &&
    addressValueMatched f.fromAddress frame.from && addressValueMatched f.toAddress frame.to &&
    f.callType.all fun type => frame.type = type
  isTransferFilterMatched f frame bn := isBlockInRange f.fromBlock f.toBlock bn &&
    addressValueMatched f.fromAddress frame.from && addressValueMatched f.toAddress frame.to &&
    frame.value.any fun value => 0 < hexToNumber value
  trace_call := by
    rintro f a b bn ⟨type, sender, recipient, _⟩
    rw [type, sender, recipient]
  transfer_call := by
    rintro f a b bn ⟨_, sender, recipient, value, _⟩
    rw [value, sender, recipient]

/-- All logs, and the calls to one address. -/
def mixedSpec : Spec String := compileFetchSpec [
  .log ⟨.any, none, none, none, none, none, none⟩ false,
  .trace ⟨.any, .oneOf ["0xc0de"], none, none, false, none, none⟩]

def sampleLog : RawLog := ⟨"0xa11ce", some ["0x01"], some "0x", some "0xaa", some 0, some 0⟩

def sampleBlock : RawBlock := ⟨⟨5, "0xb5", "0xb4", 60, []⟩, [sampleLog], [], []⟩

/-- One block with a log, and no trace; the streams could not ask for the given columns. -/
def sampleStreams (logMissing traceMissing : List FieldKey) : Streams where
  logShards := [⟨[[sampleBlock]], logMissing.map fun key => (key, "log"), none⟩]
  traces := ⟨[], traceMissing.map fun key => (key, "trace"), none⟩
  blocks := ⟨[], [], none⟩
  txShards := []

theorem sampleStreams_complete (logMissing traceMissing : List FieldKey) :
    (sampleStreams logMissing traceMissing).Complete mixedSpec := by
  intro s used
  have cases_ : s ∈ [(sampleStreams logMissing traceMissing).logShards.head (by simp [sampleStreams]),
      (sampleStreams logMissing traceMissing).traces] := used
  simp only [List.mem_cons, List.not_mem_nil, or_false] at cases_
  rcases cases_ with rfl | rfl <;> rfl

theorem sampleStreams_covers (logMissing traceMissing : List FieldKey) :
    Covers mixedSpec (sampleStreams logMissing traceMissing) 0 9 := by
  intro b mem
  have same : b ∈ [sampleBlock] := mem
  rw [List.mem_singleton.1 same]
  decide

theorem sampleStreams_logKept (logMissing traceMissing : List FieldKey) :
    LogKept mixedSpec (fun _ => OrdMap.empty) (sampleStreams logMissing traceMissing) 0 9 :=
  (exists_keptLog (sampleStreams_covers logMissing traceMissing)).2
    (show 0 < ([sampleBlock].map (keptLogCount mixedSpec fun _ => OrdMap.empty)).sum by
      decide +kernel)

theorem check_agrees_iff_sample :
    ThrowsMissing mixedSpec sampleMatching (fun _ => OrdMap.empty)
        (sampleStreams [⟨"log", "data"⟩] []) createChunkData 0 9 ↔
      Consumed mixedSpec sampleMatching (fun _ => OrdMap.empty)
        (sampleStreams [⟨"log", "data"⟩] []) 0 9 :=
  (check_agrees_iff (sampleStreams_complete _ _) (sampleStreams_covers _ _)
    fun _ mem => by cases mem).2 fun _ =>
      ⟨(⟨"log", "data"⟩, "log"), List.mem_singleton.2 rfl, .inl ⟨rfl, sampleStreams_logKept _ _⟩⟩

/-- A trace column is missing where no trace matches, and a matched log, which has no such column,
makes the check fail. -/
theorem check_overfires :
    ¬ (ThrowsMissing mixedSpec sampleMatching (fun _ => OrdMap.empty)
        (sampleStreams [] [⟨"trace", "revertReason"⟩]) createChunkData 0 9 ↔
      Consumed mixedSpec sampleMatching (fun _ => OrdMap.empty)
        (sampleStreams [] [⟨"trace", "revertReason"⟩]) 0 9) := by
  intro agrees
  have covers := sampleStreams_covers [] [⟨"trace", "revertReason"⟩]
  have throws : ThrowsMissing mixedSpec sampleMatching (fun _ => OrdMap.empty)
      (sampleStreams [] [⟨"trace", "revertReason"⟩]) createChunkData 0 9 :=
    (throws_iff (sampleStreams_complete _ _) covers fun _ mem => by cases mem).2
      (.inl ⟨⟨_, List.mem_singleton.2 rfl, rfl⟩, .inl (sampleStreams_logKept _ _)⟩)
  obtain ⟨e, recorded, kept⟩ := consumed_iff.1 (agrees.1 throws)
  obtain rfl := List.mem_singleton.1 recorded
  have noTrace : ¬ TraceKept mixedSpec sampleMatching (fun _ => OrdMap.empty)
      (sampleStreams [] [⟨"trace", "revertReason"⟩]) 0 9 := by
    intro trace
    exact absurd ((exists_keptTrace covers).1 trace) (by decide +kernel)
  rcases kept with ⟨table, _⟩ | ⟨_, trace⟩ | ⟨table, _⟩ | ⟨receipt, _⟩ | ⟨table, _⟩
  · exact absurd table (by decide)
  · exact noTrace trace
  · exact absurd table (by decide)
  · exact absurd receipt (by decide)
  · exact absurd table (by decide)

end PortalPonder.Assembly
