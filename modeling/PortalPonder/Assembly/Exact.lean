import PortalPonder.Assembly.Additivity
import PortalPonder.Assembly.StreamRows

/-!
# Exactly the rows of an interval

`assembleRange` against a search of the interval block by block: each delivered log and trace that
matches has one row; each transaction, receipt and block that the specification matches or refers to
has one row for its hash or number, and there are no others.
-/

namespace PortalPonder.Assembly

open Historical (Children)
open Fibers

variable {F : Type}

/-! ## Traces -/

section Traces

variable {spec : Spec F} {upstream : TraceMatching F} {known : Children F Address}

/-- The row of a trace: its call, with the block and the transaction that were delivered with it. -/
structure TraceRowOf (tb : TraceBlock) (t : RawTrace) (row : TraceRow) : Prop where
  call : ∃ frame, parityToCallFrame t 0 = some frame ∧ SameCall row.frame frame
  block : row.block = toSyncBlockHeader tb.header
  transactionHash : row.transactionHash = (traceParent tb t).bind RawTx.hash
  full : ∀ tx, traceParent tb t = some tx → row.transaction = .full (toSyncTransaction tx tb.header)
  indexOnly : traceParent tb t = none →
    row.transaction = .indexOnly (hx (ofIndex t.transactionIndex))

theorem nodup_eraseDups {α : Type} [BEq α] [LawfulBEq α] (items : List α) : items.eraseDups.Nodup := by
  induction hn : items.length using Nat.strong_induction_on generalizing items with
  | _ n ih =>
      cases items with
      | nil => exact List.nodup_nil
      | cons a rest =>
          rw [List.eraseDups_cons, List.nodup_cons]
          constructor
          · rw [List.mem_eraseDups, List.mem_filter]
            simp
          · have shorter := List.length_filter_le (fun b => !b == a) rest
            rw [List.length_cons] at hn
            exact ih _ (by omega) _ rfl

variable (spec upstream known) in
/-- What `blockTraces` makes of a ranked trace of the transaction with index `k`. -/
def matchedRow (bn : Nat) (tb : TraceBlock) (k : Option Nat) (r : RankedTrace) :
    Option MatchedTrace :=
  let parent := tb.txs.reverse.find? fun tx => tx.transactionIndex = k
  let frame := withRootGas parent r
  if traceMatched spec upstream known frame bn then
    some {
      row := {
        frame
        transactionHash := parent.bind RawTx.hash
        block := toSyncBlockHeader tb.header
        transaction :=
          match parent with
          | some tx => .full (toSyncTransaction tx tb.header)
          | none => .indexOnly (hx (ofIndex k)) }
      parent
      header := tb.header }
  else none

theorem blockTraces_eq (bn : Nat) (tb : TraceBlock) : blockTraces spec upstream known bn tb =
    (((tb.traces.filter RawTrace.ranked).map RawTrace.transactionIndex).eraseDups).flatMap fun k =>
      (rankTraces (fiber RawTrace.transactionIndex k (tb.traces.filter RawTrace.ranked))).filterMap
        (matchedRow spec upstream known bn tb k) := rfl

theorem matchedRow_some {bn : Nat} {tb : TraceBlock} {t : RawTrace} {r : RankedTrace}
    {frame : CallFrame} (isFrame : parityToCallFrame t 0 = some frame) (call : SameCall r.frame frame)
    (matched : traceMatched spec upstream known frame bn = true) :
    ∃ m, matchedRow spec upstream known bn tb t.transactionIndex r = some m ∧
      TraceRowOf tb t m.row := by
  have same := (withRootGas_call (tb.txs.reverse.find? fun tx =>
    tx.transactionIndex = t.transactionIndex) r).trans call
  rw [← traceMatched_call same bn] at matched
  unfold matchedRow
  rw [if_pos matched]
  refine ⟨_, rfl, ⟨frame, isFrame, same⟩, rfl, rfl, fun tx is => ?_, fun none_ => ?_⟩
  · unfold traceParent at is
    dsimp only
    rw [is]
  · unfold traceParent at none_
    dsimp only
    rw [none_]

theorem matchedRow_none {bn : Nat} {tb : TraceBlock} {k : Option Nat} {r : RankedTrace}
    {frame : CallFrame} (call : SameCall r.frame frame)
    (unmatched : traceMatched spec upstream known frame bn = false) :
    matchedRow spec upstream known bn tb k r = none := by
  have same := (withRootGas_call (tb.txs.reverse.find? fun tx => tx.transactionIndex = k) r).trans call
  rw [← traceMatched_call same bn] at unmatched
  unfold matchedRow
  exact if_neg (by rw [unmatched]; decide)

theorem rawMatcher_of_ranked {bn : Nat} {t : RawTrace} (ranked : t.ranked = true) :
    buildRawTraceMatcher spec upstream known t bn =
      (parityToCallFrame t 0).any fun frame => traceMatched spec upstream known frame bn :=
  if_neg (ranked_iff.1 ranked)

/-- The traces of one transaction: each that the raw matcher keeps has its row. -/
theorem group_pairing (bn : Nat) (tb : TraceBlock) (k : Option Nat) {traces : List RawTrace}
    (group : ∀ t ∈ traces, t.ranked = true ∧ t.transactionIndex = k) :
    Pairing (fun t m => TraceRowOf tb t (MatchedTrace.row m))
      (traces.filter fun t => buildRawTraceMatcher spec upstream known t bn)
      ((rankTraces traces).filterMap (matchedRow spec upstream known bn tb k)) := by
  refine ⟨(sortTraces traces).filter fun t => buildRawTraceMatcher spec upstream known t bn,
    (List.mergeSort_perm _ _).filter _, ?_⟩
  unfold rankTraces
  rw [List.filterMap_filterMap]
  refine Pairing.zipIdx (fun t mem i keeps => ?_) (fun t mem i drops => ?_) 0
  · obtain ⟨ranked, rfl⟩ := group t (mem_sortTraces.1 mem)
    rw [rawMatcher_of_ranked ranked] at keeps
    obtain ⟨frame, isFrame, matched⟩ := (Option.any_eq_true _ _).1 keeps
    rw [parityToCallFrame_index t i 0, isFrame]
    exact matchedRow_some isFrame (withError_call _ _ { frame with index := i }) matched
  · obtain ⟨ranked, rfl⟩ := group t (mem_sortTraces.1 mem)
    rw [rawMatcher_of_ranked ranked] at drops
    rw [parityToCallFrame_index t i 0]
    cases isFrame : parityToCallFrame t 0 with
    | none => rfl
    | some frame =>
        have call : SameCall (withError (cascadeTraceErrors (sortTraces traces)) t.path
            { frame with index := i }) frame := withError_call _ _ _
        rw [isFrame] at drops
        exact matchedRow_none call drops

/-- The traces of a block: each that the raw matcher keeps has its row. -/
theorem block_pairing (bn : Nat) (tb : TraceBlock) :
    Pairing (fun t m => TraceRowOf tb t (MatchedTrace.row m))
      (tb.traces.filter fun t => buildRawTraceMatcher spec upstream known t bn)
      (blockTraces spec upstream known bn tb) := by
  have whole : ((((tb.traces.filter RawTrace.ranked).map RawTrace.transactionIndex).eraseDups).flatMap
      fun k => fiber RawTrace.transactionIndex k (tb.traces.filter RawTrace.ranked)).Perm
        (tb.traces.filter RawTrace.ranked) :=
    perm_flatMap_fiber (nodup_eraseDups _) fun t mem =>
      List.mem_eraseDups.2 (List.mem_map.2 ⟨t, mem, rfl⟩)
  have kept : ((tb.traces.filter RawTrace.ranked).filter fun t =>
      buildRawTraceMatcher spec upstream known t bn) =
        tb.traces.filter fun t => buildRawTraceMatcher spec upstream known t bn := by
    rw [List.filter_filter]
    refine List.filter_congr fun t _ => ?_
    cases ranked : t.ranked with
    | true => exact Bool.and_true _
    | false =>
        have skipped : buildRawTraceMatcher spec upstream known t bn = false := by
          refine if_pos (not_not.1 fun other => ?_)
          rw [ranked_iff.2 other] at ranked
          cases ranked
        rw [skipped]
        rfl
  have filtered := whole.filter fun t => buildRawTraceMatcher spec upstream known t bn
  rw [kept, List.filter_flatMap] at filtered
  rw [blockTraces_eq]
  refine Pairing.perm_left (Pairing.flatMap fun k _ => group_pairing bn tb k fun t mem => ?_) filtered
  obtain ⟨inRanked, index⟩ := mem_fiber.1 mem
  exact ⟨(List.mem_filter.1 inRanked).2, index⟩

end Traces

/-! ## One row for each hash -/

/-- The hashes of the rows are those that were seen, each once. -/
structure Rows.Once (rows : Rows) : Prop where
  txs : rows.txs.filterMap (fun tx => truthy tx.hash) = rows.seenTx.reverse
  receipts : rows.receipts.filterMap (fun r => truthy r.transactionHash) = rows.seenReceipt.reverse
  seenTx : rows.seenTx.Nodup
  seenReceipt : rows.seenReceipt.Nodup

namespace Rows.Once

variable {rows : Rows} {spec : Spec F} {known : Children F Address}

theorem empty : Rows.Once Rows.empty := ⟨rfl, rfl, List.nodup_nil, List.nodup_nil⟩

theorem pushReceipt (once : rows.Once) (raw : RawTx) (hdr : RawHeader) :
    (rows.pushReceipt raw hdr).Once := by
  unfold Rows.pushReceipt
  cases hash : truthy raw.hash with
  | none => exact once
  | some h =>
      dsimp only
      split
      · exact once
      · next new =>
          refine { once with receipts := ?_, seenReceipt := List.nodup_cons.2 ⟨new, once.seenReceipt⟩ }
          have is : [toSyncReceipt raw hdr].filterMap (fun r => truthy r.transactionHash) = [h] := by
            simp [toSyncReceipt, hash]
          dsimp only
          rw [List.filterMap_append, once.receipts, List.reverse_cons, is]

theorem pushTx (once : rows.Once) {raw : RawTx} (new : ¬ rows.sawTx raw = true) (hdr : RawHeader) :
    (rows.pushTx raw hdr).Once := by
  unfold Rows.pushTx
  unfold Rows.sawTx at new
  cases hash : truthy raw.hash with
  | none =>
      have is : [toSyncTransaction raw hdr].filterMap (fun tx => truthy tx.hash) = [] := by
        simp [toSyncTransaction, hash]
      refine { once with txs := ?_ }
      dsimp only
      rw [List.filterMap_append, once.txs, is]
      exact List.append_nil _
  | some h =>
      have is : [toSyncTransaction raw hdr].filterMap (fun tx => truthy tx.hash) = [h] := by
        simp [toSyncTransaction, hash]
      rw [hash] at new
      have new : h ∉ rows.seenTx := fun mem => new (decide_eq_true mem)
      refine { once with txs := ?_, seenTx := List.nodup_cons.2 ⟨new, once.seenTx⟩ }
      show _ = (h :: rows.seenTx).reverse
      rw [List.filterMap_append, once.txs, is, List.reverse_cons]

theorem parentTx (once : rows.Once) (hdr : RawHeader) (hashes : List Hash) (raw : RawTx) :
    (Assembly.parentTx spec hdr hashes rows raw).Once := by
  unfold Assembly.parentTx
  split
  · next kept =>
      rw [Bool.and_eq_true, Bool.not_eq_true'] at kept
      have pushed := once.pushTx (show ¬ rows.sawTx raw = true by rw [kept.2]; decide) hdr
      dsimp only
      split
      · exact pushed.pushReceipt raw hdr
      · exact pushed
  · exact once

theorem logBlock (once : rows.Once) (e : ChunkData × Nat × RawHeader) :
    (Assembly.logBlock spec known rows e).Once := by
  unfold Assembly.logBlock
  dsimp only
  split
  · exact once
  · exact Folds.foldl_keeps Rows.Once (fun _ t _ once => once.parentTx e.2.2 _ t) { once with }

theorem headerBlock (once : rows.Once) (e : Nat × RawHeader) :
    (Assembly.headerBlock rows e).Once := by
  unfold Assembly.headerBlock
  split
  · exact once
  · exact { once with }

theorem accountTx (once : rows.Once) (bn : Nat) (header : RawHeader) (raw : RawTx) :
    (Assembly.accountTx spec known bn header rows raw).Once := by
  unfold Assembly.accountTx
  split
  · dsimp only
    split
    · exact once.pushReceipt raw header
    · next new => exact { (once.pushReceipt raw header).pushTx new header with }
  · exact once

theorem txBlock (once : rows.Once) (e : Nat × TxBlock) :
    (Assembly.txBlock spec known rows e).Once :=
  Folds.foldl_keeps Rows.Once (fun _ t _ once => once.accountTx e.1 e.2.header t) once

theorem traceReceipt (once : rows.Once) (m : MatchedTrace) :
    (Assembly.traceReceipt rows m).Once := by
  unfold Assembly.traceReceipt
  split
  · exact once
  · exact once.pushReceipt _ _

end Rows.Once

section Range

variable {chunks : List ChunkData} {lo hi : Nat} {spec : Spec F} {upstream : TraceMatching F}
  {known : Children F Address}

theorem sourceRows_once : (sourceRows chunks lo hi spec known).Once := by
  have logs : (logRows chunks lo hi spec known).Once :=
    Folds.foldl_keeps Rows.Once (fun _ e _ once => once.logBlock e) Rows.Once.empty
  have headers : (headerRows chunks lo hi spec known).Once := by
    unfold headerRows
    split
    · exact Folds.foldl_keeps Rows.Once (fun _ e _ once => once.headerBlock e) logs
    · exact logs
  rw [sourceRows_eq]
  split
  · exact Folds.foldl_keeps Rows.Once (fun _ e _ once => once.txBlock e) headers
  · exact headers

theorem receiptRows_once : (receiptRows chunks lo hi spec upstream known).Once := by
  unfold receiptRows
  split
  · exact Folds.foldl_keeps Rows.Once (fun _ m _ once => once.traceReceipt m) sourceRows_once
  · exact sourceRows_once

/-- Transactions with the same hash are one. -/
theorem txs_once : ((assembled chunks spec upstream known lo hi).txs.filterMap fun tx =>
    truthy tx.hash).Nodup := by
  have once : (sourceRows chunks lo hi spec known).Once := sourceRows_once
  show ((sourceRows chunks lo hi spec known).txs.filterMap fun tx => truthy tx.hash).Nodup
  rw [once.txs]
  exact List.nodup_reverse.2 once.seenTx

theorem receipts_once : ((assembled chunks spec upstream known lo hi).receipts.filterMap fun r =>
    truthy r.transactionHash).Nodup := by
  have once : (receiptRows chunks lo hi spec upstream known).Once := receiptRows_once
  rw [assembleRange_receipts, once.receipts]
  exact List.nodup_reverse.2 once.seenReceipt

/-! ## Exactness -/

/-- Chunk data as `runStreams` builds it: of the block source only the headers that a filter asks
for. -/
structure ChunkData.FetchedBy (spec : Spec F) (cd : ChunkData) : Prop extends cd.Numbered where
  filtered : ∀ bn hdr, cd.blockHeaders.get? bn = some hdr →
    (spec.blockFilters.any fun f => isBlockFilterMatched f bn) = true

theorem fetchedBy_createChunkData (spec : Spec F) : createChunkData.FetchedBy spec where
  headers _ _ found := by cases found
  traceBlocks _ _ found := by cases found
  blockHeaders _ _ found := by cases found
  txBlocks _ _ found := by cases found
  filtered _ _ found := by cases found

/-- A map whose new entry has what all entries have. -/
theorem set_keeps {V : Type} {P : Nat → V → Prop} {m : OrdMap Nat V}
    (all : ∀ bn v, m.get? bn = some v → P bn v) {k : Nat} {v : V} (new : P k v) :
    ∀ bn w, (m.set k v).get? bn = some w → P bn w := by
  intro bn w found
  rw [OrdMap.get?_set] at found
  split at found
  · next same =>
      cases found
      rw [same]
      exact new
  · exact all bn w found

/-- A call of `runStreams` keeps it. -/
theorem ChunkData.FetchedBy.merged {cd : ChunkData} (fetched : cd.FetchedBy spec)
    (streams : Streams) : (streams.merged spec cd).FetchedBy spec := by
  refine Folds.foldl_keeps (ChunkData.FetchedBy spec) (fun cd b _ fetched => ?_)
    (Folds.foldl_keeps (ChunkData.FetchedBy spec) (fun cd b _ fetched => ?_)
      (Folds.foldl_keeps (ChunkData.FetchedBy spec) (fun cd b _ fetched => ?_)
        (Folds.foldl_keeps (ChunkData.FetchedBy spec) (fun cd b _ fetched => ?_) fetched)))
  · unfold mergeTxs
    split
    · exact fetched
    · refine { fetched with txBlocks := set_keeps fetched.txBlocks ?_ }
      cases found : cd.txBlocks.get? b.header.number with
      | none => rfl
      | some ex => exact fetched.txBlocks _ ex found
  · unfold mergeHeader
    split
    · next wanted =>
        exact { fetched with
          blockHeaders := set_keeps fetched.blockHeaders rfl
          filtered := set_keeps fetched.filtered wanted }
    · exact fetched
  · unfold mergeTraces
    split
    · exact fetched
    · refine { fetched with traceBlocks := set_keeps fetched.traceBlocks ?_ }
      cases found : cd.traceBlocks.get? b.header.number with
      | none => rfl
      | some ex => exact fetched.traceBlocks _ ex found
  · unfold mergeLogs
    split
    · exact fetched
    · exact { fetched with headers := set_keeps fetched.headers rfl }

variable (chunks lo hi spec upstream known)

/-- The logs that match, block by block. -/
def matchedLogs : List SyncLog :=
  (List.range' lo (hi + 1 - lo)).flatMap fun bn => chunks.flatMap fun cd =>
    (cd.headers.get? bn).toList.flatMap fun hdr =>
      (((cd.logs.get? bn).getD []).filter fun raw => buildRawLogMatcher spec known raw hdr bn).map
        fun raw => toSyncLog raw hdr

/-- The traces that match, block by block, each with what was delivered of its block. -/
def matchedRawTraces : List (TraceBlock × RawTrace) :=
  (List.range' lo (hi + 1 - lo)).flatMap fun bn => chunks.flatMap fun cd =>
    (cd.traceBlocks.get? bn).toList.flatMap fun tb =>
      (tb.traces.filter fun t => buildRawTraceMatcher spec upstream known t bn).map fun t => (tb, t)

/-- A block that the specification refers to: of a kept log, of a block filter, or of a transaction
that a filter matches. -/
def ReferencedBlock (bn : Nat) (hdr : RawHeader) : Prop :=
  (∃ cd raw, KeptLog chunks lo hi spec known cd bn hdr raw) ∨
    (FilteredHeader chunks lo hi spec bn hdr ∧
      (spec.blockFilters.any fun f => isBlockFilterMatched f bn) = true) ∨
    ∃ t, AccountTx chunks lo hi spec known bn t hdr

/-- The rows of an interval: for each delivered log or trace that matches one, for each transaction,
receipt and block that is referred to one by its hash or number, and no others. -/
structure Exact (range : AssembledRange) : Prop where
  logs : range.logs.Perm (matchedLogs chunks lo hi spec known)
  traces : Pairing (fun e row => TraceRowOf e.1 e.2 row)
    (matchedRawTraces chunks lo hi spec upstream known) range.traces
  tx_of : ∀ tx ∈ range.txs, ∃ t hdr, TxOf chunks lo hi spec known t hdr ∧ tx = toSyncTransaction t hdr
  tx : ∀ t hdr, TxOf chunks lo hi spec known t hdr → ∃ tx ∈ range.txs,
    truthy tx.hash = truthy t.hash ∧ (truthy t.hash = none → tx = toSyncTransaction t hdr)
  txs_once : (range.txs.filterMap fun tx => truthy tx.hash).Nodup
  receipt_of : ∀ r ∈ range.receipts, ∃ t hdr, ReceiptOf chunks lo hi spec upstream known t hdr ∧
    (truthy t.hash).isSome = true ∧ r = toSyncReceipt t hdr
  receipt : ∀ t hdr h, ReceiptOf chunks lo hi spec upstream known t hdr → truthy t.hash = some h →
    ∃ r ∈ range.receipts, truthy r.transactionHash = some h
  receipts_once : (range.receipts.filterMap fun r => truthy r.transactionHash).Nodup
  block_of : ∀ b ∈ range.blocks, ∃ bn hdr, ReferencedBlock chunks lo hi spec known bn hdr ∧
    b = toSyncBlockHeader hdr
  block : ∀ bn hdr, ReferencedBlock chunks lo hi spec known bn hdr →
    ∃ b ∈ range.blocks, headerNumber b = bn
  blocks_once : (range.blocks.map headerNumber).Nodup

variable {chunks lo hi spec upstream known}

theorem logs_perm (chain : OfChain chunks) :
    (assembled chunks spec upstream known lo hi).logs.Perm (matchedLogs chunks lo hi spec known) := by
  refine ((logs_local chain).blockwise lo hi).trans (.of_eq ?_)
  unfold matchedLogs
  congr 1
  funext bn
  unfold logBlocksAt logEntriesAt
  rw [List.flatMap_map, List.flatMap_assoc]
  congr 1
  funext cd
  unfold entryAt
  cases cd.headers.get? bn <;> rfl

theorem rawMatcher_unneeded (unneeded : ¬ spec.needTraces = true) (t : RawTrace) (bn : Nat) :
    buildRawTraceMatcher spec upstream known t bn = false := by
  have none_ : ¬ 0 < spec.traceFilters.length + spec.transferFilters.length :=
    fun some_ => unneeded (decide_eq_true some_)
  have noTraces : spec.traceFilters = [] := List.eq_nil_of_length_eq_zero (by omega)
  have noTransfers : spec.transferFilters = [] := List.eq_nil_of_length_eq_zero (by omega)
  unfold buildRawTraceMatcher traceMatched
  rw [noTraces, noTransfers]
  split
  · rfl
  · simp

theorem traces_pairing (chain : OfChain chunks) :
    Pairing (fun e row => TraceRowOf e.1 e.2 row) (matchedRawTraces chunks lo hi spec upstream known)
      (assembled chunks spec upstream known lo hi).traces := by
  refine Pairing.perm_right ?_ ((traces_local chain).blockwise lo hi).symm
  refine Pairing.flatMap fun bn _ => ?_
  unfold tracesOfBlock
  split
  · rw [List.map_flatMap]
    refine Pairing.flatMap fun cd _ => ?_
    unfold entryAt
    cases cd.traceBlocks.get? bn with
    | none => exact Pairing.nil
    | some tb =>
        rw [Option.toList_some, List.flatMap_singleton, List.map_singleton, List.flatMap_singleton]
        exact (block_pairing bn tb).map fun _ _ of => of
  · next unneeded =>
      have none_ : ∀ tb : TraceBlock, (tb.traces.filter fun t =>
          buildRawTraceMatcher spec upstream known t bn) = [] := fun tb =>
        List.filter_eq_nil_iff.2 fun t _ => by rw [rawMatcher_unneeded unneeded]; decide
      have empty : (chunks.flatMap fun cd => (cd.traceBlocks.get? bn).toList.flatMap fun tb =>
          (tb.traces.filter fun t => buildRawTraceMatcher spec upstream known t bn).map
            fun t => (tb, t)) = [] := by
        refine List.flatMap_eq_nil_iff.2 fun cd _ => List.flatMap_eq_nil_iff.2 fun tb _ => ?_
        rw [none_, List.map_nil]
      rw [empty]
      exact Pairing.nil

theorem delivered_of_account {bn : Nat} {t : RawTx} {hdr : RawHeader}
    (account : AccountTx chunks lo hi spec known bn t hdr) : DeliveredTx chunks bn t := by
  obtain ⟨-, cd, inChunks, tb, found, -, -, -, inTxs, -⟩ := account
  exact ⟨cd, inChunks, .inr (.inl ⟨tb, found, inTxs⟩)⟩

theorem delivered_of_txAt {bn : Nat} {t : RawTx} (isTx : TxAt chunks lo hi spec known bn t) :
    DeliveredTx chunks bn t := by
  rcases isTx with ⟨cd, hdr, raw, log, inTxs⟩ | ⟨hdr, account⟩
  · exact ⟨cd, log.chunk, .inl inTxs⟩
  · exact delivered_of_account account

/-- A transaction that was seen before has its block, if it was seen in the same one. -/
theorem account_block {bn : Nat} {t : RawTx} {hdr : RawHeader}
    (account : AccountTx chunks lo hi spec known bn t hdr)
    (only : ∀ h, truthy t.hash = some h → ∀ m, HashAt chunks m h → m = bn) :
    ((sourceRows chunks lo hi spec known).blocksByNumber.get? bn).isSome := by
  rcases (sourceRows_account account).block with here | ⟨h, seen, hash⟩
  · exact here
  · obtain ⟨bn', t', isTx, hash', here⟩ := sourceRows_housed h seen
    rw [only h hash bn' ⟨t', delivered_of_txAt isTx, hash'⟩] at here
    exact here

theorem block_of_get {bn : Nat} (numbered : ∀ cd ∈ chunks, cd.Numbered)
    (here : ((sourceRows chunks lo hi spec known).blocksByNumber.get? bn).isSome) :
    ∃ b ∈ (assembled chunks spec upstream known lo hi).blocks, headerNumber b = bn := by
  obtain ⟨b, found⟩ := Option.isSome_iff_exists.1 here
  have mem := OrdMap.mem_of_get? _ found
  exact ⟨b, List.mem_map.2 ⟨(bn, b), mem, rfl⟩, entries_number numbered mem⟩

theorem blocks_once (chain : OfChain chunks) :
    ((assembled chunks spec upstream known lo hi).blocks.map headerNumber).Nodup := by
  have keys : ((sourceRows chunks lo hi spec known).blocksByNumber.entries.map Prod.snd).map
      headerNumber = (sourceRows chunks lo hi spec known).blocksByNumber.entries.map Prod.fst := by
    rw [List.map_map]
    exact List.map_congr_left fun e mem => entries_number chain.numbered mem
  show (((sourceRows chunks lo hi spec known).blocksByNumber.entries.map Prod.snd).map
    headerNumber).Nodup
  rw [keys]
  exact OrdMap.nodup _

/-- Chunks of one chain that were fetched for a specification. -/
structure Covering (spec : Spec F) (chunks : List ChunkData) : Prop where
  fetched : ∀ cd ∈ chunks, cd.FetchedBy spec
  once : ∀ m n h, HashAt chunks m h → HashAt chunks n h → m = n

theorem Covering.chain (covering : Covering spec chunks) : OfChain chunks :=
  ⟨fun cd mem => (covering.fetched cd mem).toNumbered, covering.once⟩

theorem Covering.exact (covering : Covering spec chunks) :
    Exact chunks lo hi spec upstream known (assembleRange chunks (lo, hi) spec upstream known) where
  logs := logs_perm covering.chain
  traces := traces_pairing covering.chain
  tx_of _ mem := assembleRange_tx_of mem
  tx _ _ of := assembleRange_tx upstream of
  txs_once := txs_once
  receipt_of _ mem := assembleRange_receipt_of mem
  receipt _ _ _ of hash := assembleRange_receipt of hash
  receipts_once := receipts_once
  block_of b mem := by
    obtain ⟨⟨bn, b⟩, entry, rfl⟩ := List.mem_map.1 mem
    obtain ⟨hdr, of, same⟩ := sourceRows_from.blocks bn b (OrdMap.get?_of_mem _ entry)
    refine ⟨bn, hdr, ?_, same⟩
    rcases of with log | ⟨needed, cd, inChunks, found, within⟩ | account
    · exact .inl log
    · exact .inr (.inl ⟨⟨needed, cd, inChunks, found, within⟩,
        (covering.fetched cd inChunks).filtered bn hdr found⟩)
    · exact .inr (.inr account)
  block bn hdr referenced := by
    refine block_of_get covering.chain.numbered ?_
    rcases referenced with ⟨cd, raw, log⟩ | ⟨header, -⟩ | ⟨t, account⟩
    · exact sourceRows_log log
    · exact sourceRows_header header
    · exact account_block account fun h hash m occurs =>
        covering.once m bn h occurs ⟨t, delivered_of_account account, hash⟩
  blocks_once := blocks_once covering.chain

variable (upstream known) in
/-- The rows of every interval are exact; an interval that is cut into parts has the rows of the
parts and the last closest block among theirs; and what the chunks hold outside the interval, which
decides whether a map is walked or scanned, changes nothing but the order of the rows. The ranges of
the chunks need not be disjoint for this. -/
theorem assembleRange_exact (covering : Covering spec chunks) :
    (∀ lo hi, Exact chunks lo hi spec upstream known
      (assembleRange chunks (lo, hi) spec upstream known)) ∧
    (∀ lo hi parts, Consecutive lo hi parts →
      SumOf (parts.map fun i => assembleRange chunks i spec upstream known)
        (assembleRange chunks (lo, hi) spec upstream known)) ∧
    ∀ chunks' lo hi, Covering spec chunks' →
      (∀ n, lo ≤ n → n ≤ hi → List.Forall₂ (SameBlock n) chunks chunks') →
      SameRows (assembleRange chunks (lo, hi) spec upstream known)
        (assembleRange chunks' (lo, hi) spec upstream known) :=
  ⟨fun _ _ => covering.exact, fun _ _ _ split => sumOf_consecutive covering.chain split,
    fun _ _ _ covering' same => sameRows_of_sameBlock covering.chain covering'.chain same⟩

end Range

/-! ### Two sources of one transaction -/

/-- A log filter and a filter of all transactions. -/
def eventSpec : Spec String := compileFetchSpec [
  .log ⟨.oneOf ["0xaa"], none, none, none, none, none, none⟩ true,
  .transaction ⟨.any, .any, none, none⟩]

def eventTx (hash : Hash) : RawTx := ⟨some 0, some hash, some "0xcc", none, .undefined, []⟩

def eventHeader (n : Nat) : RawHeader := ⟨n, "0xb", "0xa", 60, []⟩

/-- The transaction of a log is delivered with it and as an account transaction; another block has
one of its own. -/
def eventStreams : Streams where
  logShards := [⟨[[⟨eventHeader 5, [⟨"0xaa", none, none, some "0xf5", some 0, some 0⟩],
    [eventTx "0xf5"], []⟩]], [], none⟩]
  traces := ⟨[], [], none⟩
  blocks := ⟨[], [], none⟩
  txShards := [⟨[[⟨eventHeader 5, [], [eventTx "0xf5"], []⟩, ⟨eventHeader 7, [], [eventTx "0xf7"], []⟩]],
    [], none⟩]

def eventChunk : ChunkData := eventStreams.merged eventSpec createChunkData

def noMatching : TraceMatching String where
  isTraceFilterMatched _ _ _ := false
  isTransferFilterMatched _ _ _ := false
  trace_call _ _ _ _ _ := rfl
  transfer_call _ _ _ _ _ := rfl

theorem assembleRange_exact_sample :
    SumOf ([(4, 5), (6, 9)].map fun i =>
        assembleRange [eventChunk] i eventSpec noMatching fun _ => OrdMap.empty)
      (assembleRange [eventChunk] (4, 9) eventSpec noMatching fun _ => OrdMap.empty) ∧
      (assembleRange [eventChunk] (4, 9) eventSpec noMatching fun _ => OrdMap.empty).txs.map
        SyncTransaction.hash = [some "0xf5", some "0xf7"] := by
  have covering : Covering eventSpec [eventChunk] := by
    refine ⟨fun cd mem => ?_, once_of_deliveredTxs (by decide +kernel)⟩
    rw [List.mem_singleton.1 mem]
    exact (fetchedBy_createChunkData eventSpec).merged eventStreams
  exact ⟨(assembleRange_exact noMatching _ covering).2.1 4 9 _
    ⟨rfl, by decide, by decide, rfl, by decide, by decide, rfl⟩, by decide +kernel⟩

end PortalPonder.Assembly
