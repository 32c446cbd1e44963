import PortalPonder.Assembly.Server
import PortalPonder.Assembly.MissingColumns

/-!
# The contents of a chunk

A chunk as sets of rows: which logs, transactions, traces and headers it has, without the order
they came in or how often they came. A call adds what its requests ask for, and the chunk data that
its streams leave has exactly that.
-/

namespace PortalPonder.Assembly

open Historical (Children)

variable {F : Type}

structure Contents where
  logs : Nat → RawLog → Prop
  /-- the transactions that came with the logs -/
  txs : Nat → RawTx → Prop
  traceBlocks : Nat → Option TraceBlock
  blockHeaders : Nat → Prop
  accountTxs : Nat → RawTx → Prop

def Contents.empty : Contents where
  logs _ _ := False
  txs _ _ := False
  traceBlocks _ := none
  blockHeaders _ := False
  accountTxs _ _ := False

/-- The chunk data has these rows, all of them rows of the chain. -/
structure Has (chain : Chain) (cd : ChunkData) (c : Contents) : Prop where
  headers : ∀ bn hdr, cd.headers.get? bn = some hdr ↔
    hdr = (chain.block bn).header ∧ ∃ l, c.logs bn l
  logs : ∀ bn l, l ∈ cd.logsAt bn ↔ c.logs bn l
  txs : ∀ bn t, t ∈ cd.txsAt bn ↔ c.txs bn t
  traceBlocks : ∀ bn, cd.traceBlocks.get? bn = c.traceBlocks bn
  blockHeaders : ∀ bn hdr, cd.blockHeaders.get? bn = some hdr ↔
    hdr = (chain.block bn).header ∧ c.blockHeaders bn
  txHeaders : ∀ bn tb, cd.txBlocks.get? bn = some tb → tb.header = (chain.block bn).header
  accountTxs : ∀ bn t, t ∈ txsOf (cd.txBlocks.get? bn) ↔ c.accountTxs bn t

theorem has_createChunkData (chain : Chain) : Has chain createChunkData .empty where
  headers bn hdr := ⟨fun found => (nomatch found), fun ⟨_, _, mem⟩ => mem.elim⟩
  logs bn l := ⟨fun mem => (nomatch mem), False.elim⟩
  txs bn t := ⟨fun mem => (nomatch mem), False.elim⟩
  traceBlocks bn := rfl
  blockHeaders bn hdr := ⟨fun found => (nomatch found), fun ⟨_, mem⟩ => mem.elim⟩
  txHeaders bn tb found := by cases found
  accountTxs bn t := ⟨fun mem => (nomatch mem), False.elim⟩

/-! ## What a call asks for -/

/-- A request of one of the shards matches the log. -/
def LogAsked (shards : List LogShard) (b : RawBlock) (l : RawLog) : Prop :=
  l ∈ b.logs ∧ ∃ r ∈ shards.flatten, requestMatched r (servedLog b l) = true

def TxAsked (shards : List TxShard) (b : RawBlock) (t : RawTx) : Prop :=
  t ∈ b.transactions ∧ ∃ r ∈ shards.flatten,
    txRequestMatched r (t.from.map String.toLower) ((truthy t.to).map String.toLower) = true

/-- The contents with what a call over a range asks for. -/
def Contents.call (c : Contents) (chain : Chain) (spec : Spec F) (fromBlock toBlock : Nat)
    (logs : RawBlock → RawLog → Prop) (txs : RawBlock → RawTx → Prop) : Contents where
  logs bn l := c.logs bn l ∨ (fromBlock ≤ bn ∧ bn ≤ toBlock) ∧ logs (chain.block bn) l
  txs bn t := c.txs bn t ∨ (fromBlock ≤ bn ∧ bn ≤ toBlock) ∧ t ∈ (chain.block bn).transactions ∧
    ∃ l, logs (chain.block bn) l ∧ l.transactionIndex = t.transactionIndex
  traceBlocks bn :=
    if spec.needTraces = true ∧ fromBlock ≤ bn ∧ bn ≤ toBlock then
      joinTraces (c.traceBlocks bn) (serveTraces (chain.block bn))
    else c.traceBlocks bn
  blockHeaders bn := c.blockHeaders bn ∨ (fromBlock ≤ bn ∧ bn ≤ toBlock) ∧
    spec.needBlocks = true ∧ wantsHeader spec (chain.block bn) = true
  accountTxs bn t := c.accountTxs bn t ∨ (fromBlock ≤ bn ∧ bn ≤ toBlock) ∧
    spec.needTxFilter = true ∧ txs (chain.block bn) t

theorem mem_requestedLogs {requests : LogShard} {b : RawBlock} {l : RawLog} :
    l ∈ requestedLogs requests b ↔
      l ∈ b.logs ∧ ∃ r ∈ requests, requestMatched r (servedLog b l) = true := by
  simp only [requestedLogs, List.mem_filter, List.any_eq_true]

theorem logAsked_iff {shards : List LogShard} {b : RawBlock} {l : RawLog} :
    LogAsked shards b l ↔ ∃ requests ∈ shards, l ∈ requestedLogs requests b := by
  simp only [LogAsked, mem_requestedLogs, List.mem_flatten]
  constructor
  · rintro ⟨mem, r, ⟨requests, isShard, inShard⟩, hit⟩
    exact ⟨requests, isShard, mem, r, inShard, hit⟩
  · rintro ⟨requests, isShard, mem, r, inShard, hit⟩
    exact ⟨mem, r, ⟨requests, isShard, inShard⟩, hit⟩

theorem txAsked_iff {shards : List TxShard} {b : RawBlock} {t : RawTx} :
    TxAsked shards b t ↔ ∃ requests ∈ shards, t ∈ requestedTxs requests b := by
  simp only [TxAsked, requestedTxs, List.mem_filter, List.any_eq_true, List.mem_flatten]
  constructor
  · rintro ⟨mem, r, ⟨requests, isShard, inShard⟩, hit⟩
    exact ⟨requests, isShard, mem, r, inShard, hit⟩
  · rintro ⟨requests, isShard, mem, r, inShard, hit⟩
    exact ⟨mem, r, ⟨requests, isShard, inShard⟩, hit⟩

/-! ## What the streams of a call deliver -/

section Delivered

variable {chain : Chain} {spec : Spec F} {fromBlock toBlock : Nat} {logShards : List LogShard}
  {txShards : List TxShard} {streams : Streams}

/-- The log blocks of a call are what its shards are served. -/
theorem mem_logBlocks (asked : Asked chain fromBlock toBlock logShards txShards streams)
    (complete : streams.Complete spec) {b : RawBlock} (mem : b ∈ streams.logBlocks) :
    ∃ requests ∈ logShards, ∃ n, fromBlock ≤ n ∧ n ≤ toBlock ∧ b = serveLogs requests (chain.block n) := by
  obtain ⟨s, isStream, inStream⟩ := List.mem_flatMap.1 mem
  obtain ⟨requests, isShard, answers⟩ := exists_of_forall₂ asked.logs.flip s isStream
  have ended : s.failed = none := complete s (by simp [Streams.used, isStream])
  exact ⟨requests, isShard, mem_of_answers answers ended inStream⟩

theorem logBlocks_mem (asked : Asked chain fromBlock toBlock logShards txShards streams)
    (complete : streams.Complete spec) {requests : LogShard} (isShard : requests ∈ logShards) {n : Nat}
    (low : fromBlock ≤ n) (high : n ≤ toBlock) {l : RawLog}
    (mem : l ∈ requestedLogs requests (chain.block n)) :
    serveLogs requests (chain.block n) ∈ streams.logBlocks := by
  obtain ⟨s, isStream, answers⟩ := exists_of_forall₂ asked.logs requests isShard
  have ended : s.failed = none := complete s (by simp [Streams.used, isStream])
  exact List.mem_flatMap.2 ⟨s, isStream,
    mem_answers answers ended low high (.inr (.inl (List.ne_nil_of_mem mem)))⟩

theorem delivered_logs (asked : Asked chain fromBlock toBlock logShards txShards streams)
    (complete : streams.Complete spec) (bn : Nat) (l : RawLog) :
    l ∈ (streams.logBlocks.filter fun b => b.header.number = bn).flatMap RawBlock.logs ↔
      (fromBlock ≤ bn ∧ bn ≤ toBlock) ∧ LogAsked logShards (chain.block bn) l := by
  rw [logAsked_iff]
  constructor
  · intro mem
    obtain ⟨b, mem, inLogs⟩ := List.mem_flatMap.1 mem
    obtain ⟨mem, number⟩ := List.mem_filter.1 mem
    obtain ⟨requests, isShard, n, low, high, rfl⟩ := mem_logBlocks asked complete mem
    obtain rfl : n = bn := (chain.number n).symm.trans (of_decide_eq_true number)
    exact ⟨⟨low, high⟩, requests, isShard, inLogs⟩
  · rintro ⟨⟨low, high⟩, requests, isShard, inLogs⟩
    exact List.mem_flatMap.2 ⟨_, List.mem_filter.2
      ⟨logBlocks_mem asked complete isShard low high inLogs, decide_eq_true (chain.number bn)⟩, inLogs⟩

theorem delivered_logTxs (asked : Asked chain fromBlock toBlock logShards txShards streams)
    (complete : streams.Complete spec) (bn : Nat) (t : RawTx) :
    t ∈ (streams.logBlocks.filter fun b =>
        b.header.number = bn ∧ b.logs ≠ []).flatMap RawBlock.transactions ↔
      (fromBlock ≤ bn ∧ bn ≤ toBlock) ∧ t ∈ (chain.block bn).transactions ∧
        ∃ l, LogAsked logShards (chain.block bn) l ∧ l.transactionIndex = t.transactionIndex := by
  simp only [logAsked_iff]
  constructor
  · intro mem
    obtain ⟨b, mem, inTxs⟩ := List.mem_flatMap.1 mem
    obtain ⟨mem, number⟩ := List.mem_filter.1 mem
    obtain ⟨requests, isShard, n, low, high, rfl⟩ := mem_logBlocks asked complete mem
    obtain rfl : n = bn := (chain.number n).symm.trans (of_decide_eq_true number).1
    obtain ⟨inBlock, parent⟩ := List.mem_filter.1 inTxs
    obtain ⟨l, inLogs, index⟩ := List.any_eq_true.1 parent
    exact ⟨⟨low, high⟩, inBlock, l, ⟨requests, isShard, inLogs⟩, of_decide_eq_true index⟩
  · rintro ⟨⟨low, high⟩, inBlock, l, ⟨requests, isShard, inLogs⟩, index⟩
    refine List.mem_flatMap.2 ⟨serveLogs requests (chain.block bn), List.mem_filter.2
      ⟨logBlocks_mem asked complete isShard low high inLogs,
        decide_eq_true ⟨chain.number bn, List.ne_nil_of_mem inLogs⟩⟩, ?_⟩
    exact List.mem_filter.2 ⟨inBlock, List.any_eq_true.2 ⟨l, inLogs, decide_eq_true index⟩⟩

/-- The last of some blocks with one header. -/
theorem getLast?_header {blocks : List RawBlock} {header : RawHeader}
    (same : ∀ b ∈ blocks, b.header = header) (hdr : RawHeader) :
    blocks.getLast?.map RawBlock.header = some hdr ↔ hdr = header ∧ ∃ b, b ∈ blocks := by
  constructor
  · intro found
    obtain ⟨b, last, rfl⟩ := Option.map_eq_some_iff.1 found
    have mem := List.mem_of_getLast? last
    exact ⟨same b mem, b, mem⟩
  · rintro ⟨rfl, b, mem⟩
    cases last : blocks.getLast? with
    | none =>
        rw [List.getLast?_eq_none_iff.1 last] at mem
        cases mem
    | some b' => exact congrArg some (same b' (List.mem_of_getLast? last))

theorem delivered_header (asked : Asked chain fromBlock toBlock logShards txShards streams)
    (complete : streams.Complete spec) (bn : Nat) (hdr : RawHeader) :
    ((streams.logBlocks.filter fun b => b.header.number = bn ∧ b.logs ≠ []).getLast?).map
        RawBlock.header = some hdr ↔
      hdr = (chain.block bn).header ∧ (fromBlock ≤ bn ∧ bn ≤ toBlock) ∧
        ∃ l, LogAsked logShards (chain.block bn) l := by
  have same : ∀ b ∈ streams.logBlocks.filter (fun b => b.header.number = bn ∧ b.logs ≠ []),
      b.header = (chain.block bn).header := by
    intro b mem
    obtain ⟨mem, number⟩ := List.mem_filter.1 mem
    obtain ⟨requests, isShard, n, low, high, rfl⟩ := mem_logBlocks asked complete mem
    obtain rfl : n = bn := (chain.number n).symm.trans (of_decide_eq_true number).1
    rfl
  rw [getLast?_header same]
  refine and_congr_right fun _ => ?_
  simp only [logAsked_iff]
  constructor
  · rintro ⟨b, mem⟩
    obtain ⟨mem, number⟩ := List.mem_filter.1 mem
    obtain ⟨number, some_⟩ := of_decide_eq_true number
    obtain ⟨requests, isShard, n, low, high, rfl⟩ := mem_logBlocks asked complete mem
    obtain rfl : n = bn := (chain.number n).symm.trans number
    obtain ⟨l, inLogs⟩ := List.exists_mem_of_ne_nil _ some_
    exact ⟨⟨low, high⟩, l, requests, isShard, inLogs⟩
  · rintro ⟨⟨low, high⟩, l, requests, isShard, inLogs⟩
    exact ⟨_, List.mem_filter.2 ⟨logBlocks_mem asked complete isShard low high inLogs,
      decide_eq_true ⟨chain.number bn, List.ne_nil_of_mem inLogs⟩⟩⟩

/-- The account transactions of a call, and the headers they come with. -/
theorem mem_txBlocks (asked : Asked chain fromBlock toBlock logShards txShards streams)
    (complete : streams.Complete spec) {b : RawBlock} (mem : b ∈ streams.txBlocks spec) :
    ∃ requests ∈ txShards, ∃ n, fromBlock ≤ n ∧ n ≤ toBlock ∧ b = serveTxs requests (chain.block n) := by
  obtain ⟨s, isUsed, inStream⟩ := List.mem_flatMap.1 mem
  have ended : s.failed = none := complete s (by simp [Streams.used, isUsed])
  have isStream : s ∈ streams.txShards := by
    unfold Streams.usedTxShards at isUsed
    split at isUsed
    · exact isUsed
    · cases isUsed
  obtain ⟨requests, isShard, answers⟩ := exists_of_forall₂ asked.txs.flip s isStream
  exact ⟨requests, isShard, mem_of_answers answers ended inStream⟩

theorem delivered_txs (asked : Asked chain fromBlock toBlock logShards txShards streams)
    (complete : streams.Complete spec) (bn : Nat) (t : RawTx) :
    t ∈ ((streams.txBlocks spec).filter fun b => b.header.number = bn).flatMap
        RawBlock.transactions ↔
      (fromBlock ≤ bn ∧ bn ≤ toBlock) ∧ spec.needTxFilter = true ∧
        TxAsked txShards (chain.block bn) t := by
  rw [txAsked_iff]
  constructor
  · intro mem
    obtain ⟨b, mem, inTxs⟩ := List.mem_flatMap.1 mem
    obtain ⟨mem, number⟩ := List.mem_filter.1 mem
    have need := needTxFilter_of_mem mem
    obtain ⟨requests, isShard, n, low, high, rfl⟩ := mem_txBlocks asked complete mem
    obtain rfl : n = bn := (chain.number n).symm.trans (of_decide_eq_true number)
    exact ⟨⟨low, high⟩, need, requests, isShard, inTxs⟩
  · rintro ⟨⟨low, high⟩, need, requests, isShard, inTxs⟩
    obtain ⟨s, isStream, answers⟩ := exists_of_forall₂ asked.txs requests isShard
    have isUsed : s ∈ streams.usedTxShards spec := by
      unfold Streams.usedTxShards
      rw [if_pos need]
      exact isStream
    have ended : s.failed = none := complete s (by simp [Streams.used, isUsed])
    refine List.mem_flatMap.2 ⟨serveTxs requests (chain.block bn), List.mem_filter.2
      ⟨List.mem_flatMap.2 ⟨s, isUsed, ?_⟩, decide_eq_true (chain.number bn)⟩, inTxs⟩
    exact mem_answers answers ended low high (.inr (.inr (.inl (List.ne_nil_of_mem inTxs))))

/-- The traces of a block come in one piece. -/
theorem delivered_traces (asked : Asked chain fromBlock toBlock logShards txShards streams)
    (complete : streams.Complete spec) (bn : Nat) (ex : Option TraceBlock) :
    ((streams.traceBlocks spec).filter fun b => b.header.number = bn).foldl joinTraces ex =
      if spec.needTraces = true ∧ fromBlock ≤ bn ∧ bn ≤ toBlock then
        joinTraces ex (serveTraces (chain.block bn))
      else ex := by
  by_cases need : spec.needTraces = true
  · have isUsed : streams.traces ∈ streams.used spec := by
      simp [Streams.used, Streams.traceShards, need]
    have blocks : streams.traceBlocks spec = streams.traces.blocks := by
      simp [Streams.traceBlocks, Streams.traceShards, need]
    rw [blocks]
    rcases filter_answers asked.traces (complete _ isUsed) (fun _ => rfl) bn with
      ⟨absent, skipped⟩ | ⟨here, range⟩
    · rw [absent]
      split
      · next inside =>
          -- a block of the range that did not come has no traces
          have noTraces : (serveTraces (chain.block bn)).traces = [] := by
            by_contra some_
            exact skipped ⟨inside.2.1, inside.2.2, .inr (.inr (.inr some_))⟩
          unfold joinTraces
          rw [noTraces]
          rfl
      · rfl
    · rw [here, if_pos ⟨need, range⟩]
      rfl
  · have blocks : streams.traceBlocks spec = [] := by
      simp [Streams.traceBlocks, Streams.traceShards, need]
    rw [blocks, if_neg fun inside => need inside.1]
    rfl

theorem delivered_blockHeader (asked : Asked chain fromBlock toBlock logShards txShards streams)
    (complete : streams.Complete spec) (bn : Nat) (hdr : RawHeader) :
    (((streams.headerBlocks spec).filter fun b =>
        b.header.number = bn ∧ wantsHeader spec b = true).getLast?).map RawBlock.header = some hdr ↔
      hdr = (chain.block bn).header ∧ (fromBlock ≤ bn ∧ bn ≤ toBlock) ∧ spec.needBlocks = true ∧
        wantsHeader spec (chain.block bn) = true := by
  by_cases need : spec.needBlocks = true
  · have isUsed : streams.blocks ∈ streams.used spec := by
      simp [Streams.used, Streams.headerShards, need]
    have blocks : streams.headerBlocks spec = streams.blocks.blocks := by
      simp [Streams.headerBlocks, Streams.headerShards, need]
    have ended := complete _ isUsed
    have same : ∀ b ∈ streams.headerBlocks spec, b.header.number = bn →
        b.header = (chain.block bn).header ∧ fromBlock ≤ bn ∧ bn ≤ toBlock := by
      intro b mem number
      rw [blocks] at mem
      obtain ⟨n, low, high, rfl⟩ := mem_of_answers asked.blocks ended mem
      obtain rfl : n = bn := (chain.number n).symm.trans number
      exact ⟨rfl, low, high⟩
    rw [getLast?_header fun b mem =>
      (same b (List.mem_filter.1 mem).1 (of_decide_eq_true (List.mem_filter.1 mem).2).1).1]
    refine and_congr_right fun _ => ?_
    constructor
    · rintro ⟨b, mem⟩
      obtain ⟨mem, wanted⟩ := List.mem_filter.1 mem
      obtain ⟨number, wanted⟩ := of_decide_eq_true wanted
      obtain ⟨header, range⟩ := same b mem number
      refine ⟨range, need, ?_⟩
      unfold wantsHeader at wanted ⊢
      rw [← header]
      exact wanted
    · rintro ⟨⟨low, high⟩, _, wanted⟩
      refine ⟨serveHeader (chain.block bn), List.mem_filter.2 ⟨?_,
        decide_eq_true ⟨chain.number bn, wanted⟩⟩⟩
      rw [blocks]
      exact mem_answers asked.blocks ended low high (.inl rfl)
  · have blocks : streams.headerBlocks spec = [] := by
      simp [Streams.headerBlocks, Streams.headerShards, need]
    rw [blocks]
    constructor
    · intro found
      cases found
    · intro inside
      exact absurd inside.2.2.1 need

end Delivered

/-! ## The call -/

theorem or_header {x y : Option RawHeader} {header : RawHeader} {P Q : Prop}
    (first : ∀ hdr, x = some hdr ↔ hdr = header ∧ P) (second : ∀ hdr, y = some hdr ↔ hdr = header ∧ Q)
    (hdr : RawHeader) : x.or y = some hdr ↔ hdr = header ∧ (Q ∨ P) := by
  cases x with
  | some found =>
      obtain ⟨rfl, here⟩ := (first found).1 rfl
      show some found = some hdr ↔ _
      exact ⟨fun same => ⟨(Option.some.inj same).symm, .inr here⟩, fun ⟨same, _⟩ => congrArg some same.symm⟩
  | none =>
      have absent : ¬ P := fun here => nomatch (first header).2 ⟨rfl, here⟩
      show y = some hdr ↔ _
      rw [second, or_iff_left absent]

theorem foldl_joinTxs_header_keeps {blocks : List RawBlock} {header : RawHeader}
    {ex : Option TxBlock} (same : ∀ b ∈ blocks, b.header = header)
    (before : ∀ tb, ex = some tb → tb.header = header) :
    ∀ tb, blocks.foldl joinTxs ex = some tb → tb.header = header := by
  refine Folds.foldl_keeps (fun ex : Option TxBlock => ∀ tb, ex = some tb → tb.header = header)
    (fun ex b mem before tb joined => ?_) before
  unfold joinTxs at joined
  split at joined
  · exact before tb joined
  · cases ex with
    | none =>
        cases joined
        exact same b mem
    | some ex =>
        cases joined
        exact before ex rfl

/-- A call adds what its requests ask for. -/
theorem Has.call {chain : Chain} {spec : Spec F} {fromBlock toBlock : Nat} {logShards : List LogShard}
    {txShards : List TxShard} {streams : Streams} {cd : ChunkData} {c : Contents}
    (has : Has chain cd c) (asked : Asked chain fromBlock toBlock logShards txShards streams)
    (complete : streams.Complete spec) :
    Has chain (streams.merged spec cd)
      (c.call chain spec fromBlock toBlock (LogAsked logShards) (TxAsked txShards)) where
  headers bn hdr := by
    rw [merged_headers_at, or_header (delivered_header asked complete bn) (has.headers bn)]
    refine and_congr_right fun _ => ?_
    show _ ↔ ∃ l, c.logs bn l ∨ _ ∧ LogAsked logShards (chain.block bn) l
    rw [exists_or, exists_and_left]
  logs bn l := by
    rw [merged_logsAt, List.mem_append, has.logs, delivered_logs asked complete]
    rfl
  txs bn t := by
    rw [merged_txsAt, List.mem_append, has.txs, delivered_logTxs asked complete]
    rfl
  traceBlocks bn := by
    rw [merged_traceBlocks_at, has.traceBlocks, delivered_traces asked complete]
    rfl
  blockHeaders bn hdr := by
    rw [merged_blockHeaders_at,
      or_header (delivered_blockHeader asked complete bn) (has.blockHeaders bn)]
    rfl
  txHeaders bn tb found := by
    rw [merged_txBlocks_at] at found
    refine foldl_joinTxs_header_keeps ?_ (has.txHeaders bn) tb found
    intro b mem
    obtain ⟨mem, number⟩ := List.mem_filter.1 mem
    obtain ⟨requests, _, n, _, _, rfl⟩ := mem_txBlocks asked complete mem
    obtain rfl : n = bn := (chain.number n).symm.trans (of_decide_eq_true number)
    rfl
  accountTxs bn t := by
    rw [merged_txBlocks_at, foldl_joinTxs_txs, List.mem_append, has.accountTxs,
      delivered_txs asked complete]
    rfl

end PortalPonder.Assembly
