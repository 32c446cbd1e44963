import PortalPonder.Assembly.BlockRows

/-!
# Assembling an interval in parts

Each list that `assembleRange` returns has, of a block of the interval, the same rows in the same
order whatever the interval is. So an interval can be cut anywhere: the parts have the rows of the
whole, and the last part with a block has its closest one. Nor does it matter what else the chunks
hold, or in which order, and so whether the keys of a map are walked or scanned.
-/

namespace PortalPonder.Assembly

open Historical (Children)
open Fibers

variable {F : Type}

/-! ## The entries of the sources -/

section Entries

variable (chunks : List ChunkData) (spec : Spec F)

def logBlocksIn (lo hi : Nat) : List LogBlock := (logEntries chunks lo hi).map LogBlock.of

def headersIn (lo hi : Nat) : List (Nat × RawHeader) :=
  if spec.needBlocks then chunks.flatMap fun cd => mapEntries cd.blockHeaders lo hi else []

def txBlocksIn (lo hi : Nat) : List (Nat × TxBlock) :=
  if spec.needTxFilter then chunks.flatMap fun cd => mapEntries cd.txBlocks lo hi else []

theorem sourceRows_eq_collect (lo hi : Nat) (known : Children F Address) :
    sourceRows chunks lo hi spec known =
      collect spec known (logBlocksIn chunks lo hi) (headersIn chunks spec lo hi)
        (txBlocksIn chunks spec lo hi) := by
  have logs : logRows chunks lo hi spec known =
      (logBlocksIn chunks lo hi).foldl (logStep spec known) Rows.empty := by
    unfold logBlocksIn
    rw [List.foldl_map]
    rfl
  have headers : headerRows chunks lo hi spec known =
      (headersIn chunks spec lo hi).foldl headerBlock (logRows chunks lo hi spec known) := by
    unfold headerRows headersIn
    split
    · rfl
    · rfl
  unfold collect
  rw [sourceRows_eq, ← logs, ← headers]
  unfold txBlocksIn
  split
  · rfl
  · rfl

/-- The entry of a map at a block, if it has one. -/
def entryAt {V : Type} (m : OrdMap Nat V) (n : Nat) : List (Nat × V) :=
  (m.get? n).toList.map fun v => (n, v)

def logEntriesAt (n : Nat) : List (ChunkData × Nat × RawHeader) :=
  chunks.flatMap fun cd => (entryAt cd.headers n).map fun e => (cd, e)

def logBlocksAt (n : Nat) : List LogBlock := (logEntriesAt chunks n).map LogBlock.of

def headersAt (n : Nat) : List (Nat × RawHeader) :=
  if spec.needBlocks then chunks.flatMap fun cd => entryAt cd.blockHeaders n else []

def txBlocksAt (n : Nat) : List (Nat × TxBlock) :=
  if spec.needTxFilter then chunks.flatMap fun cd => entryAt cd.txBlocks n else []

theorem logEntries_local :
    Local (fun e => e.2.1) (logEntries chunks) (logEntriesAt chunks) :=
  Local.join fun cd _ => (mapEntries_local cd.headers).map fun _ _ _ _ => rfl

theorem logBlocksIn_local : Local LogBlock.number (logBlocksIn chunks) (logBlocksAt chunks) :=
  (logEntries_local chunks).map fun _ _ _ _ => rfl

theorem headersIn_local : Local Prod.fst (headersIn chunks spec) (headersAt chunks spec) := by
  unfold headersIn headersAt
  split
  · exact Local.join fun cd _ => mapEntries_local cd.blockHeaders
  · exact Local.nil

theorem txBlocksIn_local : Local Prod.fst (txBlocksIn chunks spec) (txBlocksAt chunks spec) := by
  unfold txBlocksIn txBlocksAt
  split
  · exact Local.join fun cd _ => mapEntries_local cd.txBlocks
  · exact Local.nil

variable {chunks spec}

theorem OfChain.logBlock (chain : OfChain chunks) {lo hi : Nat} {b : LogBlock}
    (mem : b ∈ logBlocksIn chunks lo hi) : b.Delivered chunks := by
  obtain ⟨⟨cd, bn, hdr⟩, entry, rfl⟩ := List.mem_map.1 mem
  obtain ⟨inChunks, header, -⟩ := mem_logEntries.1 entry
  exact ⟨(chain.numbered cd inChunks).headers bn hdr header, fun t inTxs => ⟨cd, inChunks, .inl inTxs⟩⟩

theorem OfChain.txBlock (chain : OfChain chunks) {lo hi : Nat} {e : Nat × TxBlock}
    (mem : e ∈ txBlocksIn chunks spec lo hi) : DeliveredTxs chunks e := by
  unfold txBlocksIn at mem
  split at mem
  · obtain ⟨cd, inChunks, mem⟩ := List.mem_flatMap.1 mem
    obtain ⟨found, -⟩ := mem_mapEntries.1 (show (e.1, e.2) ∈ mapEntries cd.txBlocks lo hi from mem)
    exact ⟨(chain.numbered cd inChunks).txBlocks e.1 e.2 found,
      fun t inTxs => ⟨cd, inChunks, .inr (.inl ⟨e.2, found, inTxs⟩)⟩⟩
  · cases mem

end Entries

/-! ## The rows of a block -/

section Blocks

variable (chunks : List ChunkData) (spec : Spec F) (upstream : TraceMatching F)
  (known : Children F Address)

def blockRows (n : Nat) : Rows :=
  collect spec known (logBlocksAt chunks n) (headersAt chunks spec n) (txBlocksAt chunks spec n)

def tracesOfBlock (n : Nat) : List MatchedTrace :=
  if spec.needTraces then
    chunks.flatMap fun cd => (entryAt cd.traceBlocks n).flatMap fun e =>
      blockTraces spec upstream known e.1 e.2
  else []

def blockReceiptRows (n : Nat) : Rows :=
  if needTraceReceipts spec then
    (tracesOfBlock chunks spec upstream known n).foldl traceReceipt (blockRows chunks spec known n)
  else blockRows chunks spec known n

/-- What is seen at block `n` of the rows of an interval. -/
def seenAt (block : Nat → Rows) (lo hi n : Nat) : Rows :=
  if lo ≤ n ∧ n ≤ hi then block n else Rows.empty

variable {chunks spec upstream known}

theorem sourceRows_sameAt (chain : OfChain chunks) (lo hi n : Nat) :
    SameAt (HashAt chunks n) n (sourceRows chunks lo hi spec known)
      (seenAt (blockRows chunks spec known) lo hi n) := by
  have same : SameAt (HashAt chunks n) n
      (collect spec known (logBlocksIn chunks lo hi) (headersIn chunks spec lo hi)
        (txBlocksIn chunks spec lo hi)) _ :=
    collect_sameAt chain (fun b mem => chain.logBlock mem) (fun e mem => chain.txBlock mem) n
  rw [sourceRows_eq_collect]
  rw [logBlocksIn_local, headersIn_local, txBlocksIn_local] at same
  unfold seenAt
  split
  · next within =>
      rw [if_pos within, if_pos within, if_pos within] at same
      exact same
  · next outside =>
      rw [if_neg outside, if_neg outside, if_neg outside] at same
      exact same

/-! ### Traces -/

/-- What a matched trace carries of its block and its transaction. -/
structure MatchedTrace.Carries (m : MatchedTrace) : Prop where
  block : m.row.block = toSyncBlockHeader m.header
  transaction : ∀ t, m.parent = some t → m.row.transaction = .full (toSyncTransaction t m.header)

theorem blockTraces_carries {bn : Nat} {tb : TraceBlock} {m : MatchedTrace}
    (mem : m ∈ blockTraces spec upstream known bn tb) : m.header = tb.header ∧ m.Carries := by
  unfold blockTraces at mem
  obtain ⟨k, -, mem⟩ := List.mem_flatMap.1 mem
  obtain ⟨r, -, kept⟩ := List.mem_filterMap.1 mem
  dsimp only at kept
  split at kept
  · cases kept
    refine ⟨rfl, rfl, fun t parent => ?_⟩
    dsimp only at parent ⊢
    rw [parent]
  · cases kept

theorem matchedTraces_carries {lo hi : Nat} {m : MatchedTrace}
    (mem : m ∈ matchedTraces chunks lo hi spec upstream known) : m.Carries := by
  unfold matchedTraces at mem
  split at mem
  · obtain ⟨cd, -, mem⟩ := List.mem_flatMap.1 mem
    obtain ⟨e, -, mem⟩ := List.mem_flatMap.1 mem
    exact (blockTraces_carries mem).2
  · cases mem

def MatchedTrace.number (m : MatchedTrace) : Nat := m.header.number

/-- The scanned entries of an interval. -/
theorem scan_local {V : Type} (m : OrdMap Nat V) :
    Local Prod.fst (fun lo hi => m.entries.filter fun e => lo ≤ e.1 ∧ e.1 ≤ hi) (entryAt m) := by
  intro lo hi n
  have swap : fiber Prod.fst n (m.entries.filter fun e => lo ≤ e.1 ∧ e.1 ≤ hi) =
      (fiber Prod.fst n m.entries).filter fun e => lo ≤ e.1 ∧ e.1 ≤ hi := by
    unfold fiber
    rw [List.filter_filter, List.filter_filter]
    exact List.filter_congr fun e _ => Bool.and_comm _ _
  dsimp only
  rw [swap, fiber_entries]
  split
  · next within =>
      refine List.filter_eq_self.2 fun e mem => ?_
      obtain ⟨v, -, rfl⟩ := List.mem_map.1 mem
      exact decide_eq_true within
  · next outside =>
      refine List.filter_eq_nil_iff.2 fun e mem => ?_
      obtain ⟨v, -, rfl⟩ := List.mem_map.1 mem
      exact fun within => outside (of_decide_eq_true within)

theorem matchedTraces_local (chain : OfChain chunks) :
    Local MatchedTrace.number (fun lo hi => matchedTraces chunks lo hi spec upstream known)
      (tracesOfBlock chunks spec upstream known) := by
  unfold matchedTraces tracesOfBlock
  split
  · refine Local.join fun cd inChunks => (scan_local cd.traceBlocks).flatMap _
      fun lo hi e entry m mem => ?_
    have found := cd.traceBlocks.get?_of_mem (List.mem_filter.1 entry).1
    show m.header.number = e.1
    rw [(blockTraces_carries mem).1]
    exact (chain.numbered cd inChunks).traceBlocks e.1 e.2 found
  · exact Local.nil

/-- The parent of a matched trace was delivered with its block. -/
theorem OfChain.traceParent (chain : OfChain chunks) {lo hi : Nat} {m : MatchedTrace}
    (mem : m ∈ matchedTraces chunks lo hi spec upstream known) {t : RawTx} (parent : m.parent = some t) :
    DeliveredTx chunks m.number t := by
  obtain ⟨bn, tb, raw, kept, isParent, header⟩ := mem_matchedTraces mem
  obtain ⟨cd, inChunks, found⟩ := kept.chunk
  have number : m.number = bn := by
    unfold MatchedTrace.number
    rw [header]
    exact (chain.numbered cd inChunks).traceBlocks bn tb found
  rw [number]
  refine ⟨cd, inChunks, .inr (.inr ⟨tb, found, ?_⟩)⟩
  exact List.mem_reverse.1 (List.mem_of_find?_eq_some (isParent.symm.trans parent))

theorem receiptRows_sameAt (chain : OfChain chunks) (lo hi n : Nat) :
    SameAt (HashAt chunks n) n (receiptRows chunks lo hi spec upstream known)
      (seenAt (blockReceiptRows chunks spec upstream known) lo hi n) := by
  have sources : SameAt (HashAt chunks n) n (sourceRows chunks lo hi spec known) _ :=
    sourceRows_sameAt chain lo hi n
  unfold receiptRows blockReceiptRows
  split
  · have same : SameAt (HashAt chunks n) n
        ((matchedTraces chunks lo hi spec upstream known).foldl traceReceipt
          (sourceRows chunks lo hi spec known))
        ((fiber MatchedTrace.number n (matchedTraces chunks lo hi spec upstream known)).foldl
          traceReceipt (seenAt (blockRows chunks spec known) lo hi n)) := by
      refine foldl_fiber (fun s t m mem here same => ?_) (fun s t m mem apart same => ?_) sources
      · refine same.traceReceipt fun t parent => own_of_delivered ?_
        have delivered := chain.traceParent mem parent
        rw [here] at delivered
        exact delivered
      · exact same.traceReceipt_apart
          (fun t parent => foreign_of_delivered chain (chain.traceParent mem parent) apart) apart
    rw [matchedTraces_local chain lo hi n] at same
    unfold seenAt at same ⊢
    split
    · next within =>
        rw [if_pos within, if_pos within] at same
        exact same
    · next outside =>
        rw [if_neg outside, if_neg outside] at same
        exact same
  · exact sources

end Blocks

/-! ## The lists of an interval -/

section Lists

variable (chunks : List ChunkData) (spec : Spec F) (upstream : TraceMatching F)
  (known : Children F Address)

/-- The interval that is assembled. -/
abbrev assembled (lo hi : Nat) : AssembledRange := assembleRange chunks (lo, hi) spec upstream known

/-- The blocks among which the closest one is sought. -/
def closestCandidates (lo hi : Nat) : List (Nat × SyncBlockHeader) :=
  (sourceRows chunks lo hi spec known).blocksByNumber.entries ++
    (matchedTraces chunks lo hi spec upstream known).map fun t =>
      (hexToNumber t.row.block.number, t.row.block)

theorem assembled_closest (lo hi : Nat) :
    (assembled chunks spec upstream known lo hi).closest =
      (firstMax Prod.fst (closestCandidates chunks spec upstream known lo hi)).map Prod.snd := rfl

variable {chunks spec upstream known}

/-- The logs of a block that match. -/
def LogBlock.kept (spec : Spec F) (known : Children F Address) (b : LogBlock) : List SyncLog :=
  (b.logs.filter fun raw => logMatched spec known (toSyncLog raw b.header) b.number).map
    fun raw => toSyncLog raw b.header

theorem assembled_logs (lo hi : Nat) : (assembled chunks spec upstream known lo hi).logs =
    (logBlocksIn chunks lo hi).flatMap (LogBlock.kept spec known) := by
  unfold logBlocksIn
  rw [List.flatMap_map]
  exact sourceRows_logs

theorem logs_local (chain : OfChain chunks) :
    Local logNumber (fun lo hi => (assembled chunks spec upstream known lo hi).logs)
      fun n => (logBlocksAt chunks n).flatMap (LogBlock.kept spec known) := by
  simp only [assembled_logs]
  refine (logBlocksIn_local chunks).flatMap _ fun lo hi b mem log kept => ?_
  obtain ⟨raw, -, rfl⟩ := List.mem_map.1 kept
  rw [logNumber_toSyncLog]
  exact (chain.logBlock mem).number

/-- A list of the rows, of which a block sees its own. -/
theorem local_of_sameAt {α : Type} {key : α → Nat} {rows : Nat → Nat → Rows} {block : Nat → Rows}
    (list : Rows → List α) (empty : list Rows.empty = [])
    (same : ∀ lo hi n, fiber key n (list (rows lo hi)) = fiber key n (list (seenAt block lo hi n))) :
    Local key (fun lo hi => list (rows lo hi)) fun n => fiber key n (list (block n)) := by
  intro lo hi n
  refine (same lo hi n).trans ?_
  unfold seenAt
  split
  · rfl
  · rw [empty]
    rfl

theorem txs_local (chain : OfChain chunks) :
    Local txNumber (fun lo hi => (assembled chunks spec upstream known lo hi).txs)
      fun n => fiber txNumber n (blockRows chunks spec known n).txs :=
  local_of_sameAt Rows.txs rfl fun lo hi n => (sourceRows_sameAt chain lo hi n).txs

theorem receipts_local (chain : OfChain chunks) :
    Local receiptNumber (fun lo hi => (assembled chunks spec upstream known lo hi).receipts)
      fun n => fiber receiptNumber n (blockReceiptRows chunks spec upstream known n).receipts := by
  have receipts : (fun lo hi => (assembled chunks spec upstream known lo hi).receipts) =
      fun lo hi => (receiptRows chunks lo hi spec upstream known).receipts := by
    funext lo hi
    exact assembleRange_receipts
  rw [receipts]
  exact local_of_sameAt Rows.receipts rfl fun lo hi n => (receiptRows_sameAt chain lo hi n).receipts

theorem block_of_matched {lo hi : Nat} {m : MatchedTrace}
    (mem : m ∈ matchedTraces chunks lo hi spec upstream known) :
    headerNumber m.row.block = m.number := by
  rw [(matchedTraces_carries mem).block, headerNumber_toSyncBlockHeader]
  rfl

def traceNumber (t : TraceRow) : Nat := headerNumber t.block

theorem traces_local (chain : OfChain chunks) :
    Local traceNumber (fun lo hi => (assembled chunks spec upstream known lo hi).traces)
      fun n => (tracesOfBlock chunks spec upstream known n).map MatchedTrace.row :=
  (matchedTraces_local chain).map fun _ _ _ mem => block_of_matched mem

theorem number_of_blockOf (numbered : ∀ cd ∈ chunks, cd.Numbered) {lo hi bn : Nat} {hdr : RawHeader}
    (of : BlockOf chunks lo hi spec known bn hdr) : hdr.number = bn := by
  rcases of with ⟨cd, raw, log⟩ | ⟨-, cd, inChunks, found, -⟩ |
    ⟨t, -, cd, inChunks, tb, found, -, -, rfl, -⟩
  · exact (numbered cd log.chunk).headers bn hdr log.header
  · exact (numbered cd inChunks).blockHeaders bn hdr found
  · exact (numbered cd inChunks).txBlocks bn tb found

theorem entries_number (numbered : ∀ cd ∈ chunks, cd.Numbered) {lo hi : Nat} {e : Nat × SyncBlockHeader}
    (mem : e ∈ (sourceRows chunks lo hi spec known).blocksByNumber.entries) :
    headerNumber e.2 = e.1 := by
  obtain ⟨hdr, of, same⟩ := sourceRows_from.blocks e.1 e.2 (OrdMap.get?_of_mem _ mem)
  rw [same, headerNumber_toSyncBlockHeader]
  exact number_of_blockOf numbered of

theorem entries_local (chain : OfChain chunks) :
    Local Prod.fst (fun lo hi => (sourceRows chunks lo hi spec known).blocksByNumber.entries)
      fun n => entryAt (blockRows chunks spec known n).blocksByNumber n := by
  intro lo hi n
  dsimp only
  rw [fiber_entries, (sourceRows_sameAt chain lo hi n).block]
  unfold seenAt
  split
  · rfl
  · rfl

theorem blocks_local (chain : OfChain chunks) :
    Local headerNumber (fun lo hi => (assembled chunks spec upstream known lo hi).blocks)
      fun n => (entryAt (blockRows chunks spec known n).blocksByNumber n).map Prod.snd :=
  (entries_local chain).map fun _ _ _ mem => entries_number chain.numbered mem

theorem closestCandidates_local (chain : OfChain chunks) :
    Local Prod.fst (closestCandidates chunks spec upstream known)
      fun n => entryAt (blockRows chunks spec known n).blocksByNumber n ++
        (tracesOfBlock chunks spec upstream known n).map fun t =>
          (hexToNumber t.row.block.number, t.row.block) :=
  (entries_local chain).both ((matchedTraces_local chain).map fun _ _ _ mem => block_of_matched mem)

/-! ## Parts -/

/-- The rows of the parts, one after the other, are those of the whole, and the last closest block
that there is is that of the whole. -/
structure SumOf (parts : List AssembledRange) (whole : AssembledRange) : Prop where
  logs : (parts.flatMap AssembledRange.logs).Perm whole.logs
  blocks : (parts.flatMap AssembledRange.blocks).Perm whole.blocks
  txs : (parts.flatMap AssembledRange.txs).Perm whole.txs
  receipts : (parts.flatMap AssembledRange.receipts).Perm whole.receipts
  traces : (parts.flatMap AssembledRange.traces).Perm whole.traces
  closest : (parts.filterMap AssembledRange.closest).getLast? = whole.closest

theorem sumOf_consecutive (chain : OfChain chunks) {lo hi : Nat} {parts : List (Nat × Nat)}
    (split : Consecutive lo hi parts) :
    SumOf (parts.map fun i => assembleRange chunks i spec upstream known)
      (assembleRange chunks (lo, hi) spec upstream known) := by
  refine ⟨?_, ?_, ?_, ?_, ?_, ?_⟩
  · rw [List.flatMap_map]
    exact (logs_local chain).consecutive split
  · rw [List.flatMap_map]
    exact (blocks_local chain).consecutive split
  · rw [List.flatMap_map]
    exact (txs_local chain).consecutive split
  · rw [List.flatMap_map]
    exact (receipts_local chain).consecutive split
  · rw [List.flatMap_map]
    exact (traces_local chain).consecutive split
  · have last : (parts.filterMap fun i => firstMax Prod.fst
        (closestCandidates chunks spec upstream known i.1 i.2)).getLast? = _ :=
      (closestCandidates_local chain).firstMax_consecutive split
    have closest := congrArg (Option.map Prod.snd) last
    rw [← List.getLast?_map, List.map_filterMap] at closest
    rw [List.filterMap_map]
    exact closest

/-! ## What else the chunks hold -/

/-- The same is held of a block. -/
structure SameBlock (n : Nat) (cd cd' : ChunkData) : Prop where
  headers : cd.headers.get? n = cd'.headers.get? n
  logs : cd.logs.get? n = cd'.logs.get? n
  txs : cd.txs.get? n = cd'.txs.get? n
  traceBlocks : cd.traceBlocks.get? n = cd'.traceBlocks.get? n
  blockHeaders : cd.blockHeaders.get? n = cd'.blockHeaders.get? n
  txBlocks : cd.txBlocks.get? n = cd'.txBlocks.get? n

theorem flatMap_alike {α β γ : Type} {f : α → List γ} {g : β → List γ} {xs : List α} {ys : List β}
    (alike : List.Forall₂ (fun a b => f a = g b) xs ys) : xs.flatMap f = ys.flatMap g := by
  induction alike with
  | nil => rfl
  | cons same _ ih => rw [List.flatMap_cons, List.flatMap_cons, same, ih]

variable {chunks' : List ChunkData} {n : Nat}

theorem logBlocksAt_alike (same : List.Forall₂ (SameBlock n) chunks chunks') :
    logBlocksAt chunks n = logBlocksAt chunks' n := by
  unfold logBlocksAt logEntriesAt
  rw [List.map_flatMap, List.map_flatMap]
  refine flatMap_alike (same.imp fun cd cd' same => ?_)
  unfold entryAt
  rw [same.headers, List.map_map, List.map_map]
  rw [List.map_map, List.map_map]
  refine List.map_congr_left fun hdr _ => ?_
  show LogBlock.of (cd, n, hdr) = LogBlock.of (cd', n, hdr)
  unfold LogBlock.of
  rw [same.logs, same.txs]

theorem blockRows_alike (same : List.Forall₂ (SameBlock n) chunks chunks') :
    blockRows chunks spec known n = blockRows chunks' spec known n := by
  have headers : headersAt chunks spec n = headersAt chunks' spec n := by
    unfold headersAt entryAt
    rw [flatMap_alike (same.imp fun cd cd' same => by rw [same.blockHeaders])]
  have txBlocks : txBlocksAt chunks spec n = txBlocksAt chunks' spec n := by
    unfold txBlocksAt entryAt
    rw [flatMap_alike (same.imp fun cd cd' same => by rw [same.txBlocks])]
  unfold blockRows
  rw [logBlocksAt_alike same, headers, txBlocks]

theorem tracesOfBlock_alike (same : List.Forall₂ (SameBlock n) chunks chunks') :
    tracesOfBlock chunks spec upstream known n = tracesOfBlock chunks' spec upstream known n := by
  unfold tracesOfBlock entryAt
  rw [flatMap_alike (same.imp fun cd cd' same => by rw [same.traceBlocks])]

/-- Two results with the same rows, in whatever order, and the same closest block. -/
structure SameRows (range other : AssembledRange) : Prop where
  logs : range.logs.Perm other.logs
  blocks : range.blocks.Perm other.blocks
  txs : range.txs.Perm other.txs
  receipts : range.receipts.Perm other.receipts
  traces : range.traces.Perm other.traces
  closest : range.closest = other.closest

/-- Only the blocks of the interval matter, and not how their entries are found. -/
theorem sameRows_of_sameBlock (chain : OfChain chunks) (chain' : OfChain chunks') {lo hi : Nat}
    (same : ∀ n, lo ≤ n → n ≤ hi → List.Forall₂ (SameBlock n) chunks chunks') :
    SameRows (assembleRange chunks (lo, hi) spec upstream known)
      (assembleRange chunks' (lo, hi) spec upstream known) := by
  have rows : ∀ n, lo ≤ n → n ≤ hi → blockRows chunks spec known n = blockRows chunks' spec known n :=
    fun n low high => blockRows_alike (same n low high)
  have traces : ∀ n, lo ≤ n → n ≤ hi → tracesOfBlock chunks spec upstream known n =
      tracesOfBlock chunks' spec upstream known n :=
    fun n low high => tracesOfBlock_alike (same n low high)
  refine ⟨?_, ?_, ?_, ?_, ?_, ?_⟩
  · refine perm_of_fiber logNumber ((logs_local chain).same_fibers (logs_local chain')
      fun n low high => ?_)
    rw [logBlocksAt_alike (same n low high)]
  · refine perm_of_fiber headerNumber ((blocks_local chain).same_fibers (blocks_local chain')
      fun n low high => ?_)
    rw [rows n low high]
  · refine perm_of_fiber txNumber ((txs_local chain).same_fibers (txs_local chain')
      fun n low high => ?_)
    rw [rows n low high]
  · refine perm_of_fiber receiptNumber ((receipts_local chain).same_fibers (receipts_local chain')
      fun n low high => ?_)
    unfold blockReceiptRows
    rw [rows n low high, traces n low high]
  · refine perm_of_fiber traceNumber ((traces_local chain).same_fibers (traces_local chain')
      fun n low high => ?_)
    rw [traces n low high]
  · rw [assembled_closest, assembled_closest]
    refine congrArg (Option.map Prod.snd) (firstMax_congr ?_)
    refine (closestCandidates_local chain).same_fibers (closestCandidates_local chain')
      fun n low high => ?_
    rw [rows n low high, traces n low high]

end Lists

end PortalPonder.Assembly
