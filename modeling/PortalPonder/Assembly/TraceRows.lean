import PortalPonder.Assembly.RangeRows

/-!
# Traces and receipts of a range

A trace is kept in a range exactly when the raw matcher keeps it, whatever rank, gas or error its
frame is given. The receipts of a range are those of its transactions, and those of the parents of
its traces where a trace filter wants them.
-/

namespace PortalPonder.Assembly

open Historical (Children)

variable {F : Type}

/-! ## Traces -/

section Traces

variable {upstream : TraceMatching F} {spec : Spec F} {known : Children F Address}

theorem traceMatched_call {a b : CallFrame} (same : SameCall a b) (bn : Nat) :
    traceMatched spec upstream known a bn = traceMatched spec upstream known b bn := by
  have sender : a.from = b.from := same.2.1
  have recipient : a.to = b.to := same.2.2.1
  unfold traceMatched
  simp only [sender, recipient, upstream.transfer_call _ a b bn same,
    upstream.trace_call _ a b bn same]

theorem withRootGas_call (parent : Option RawTx) (r : RankedTrace) :
    SameCall (withRootGas parent r) r.frame := by
  unfold withRootGas
  split
  · exact ⟨rfl, rfl, rfl, rfl, rfl⟩
  · exact ⟨rfl, rfl, rfl, rfl, rfl⟩
  · exact ⟨rfl, rfl, rfl, rfl, rfl⟩
  · split
    · exact ⟨rfl, rfl, rfl, rfl, rfl⟩
    · exact ⟨rfl, rfl, rfl, rfl, rfl⟩

theorem SameCall.trans {a b c : CallFrame} (first : SameCall a b) (second : SameCall b c) :
    SameCall a c :=
  ⟨first.1.trans second.1, first.2.1.trans second.2.1, first.2.2.1.trans second.2.2.1,
    first.2.2.2.1.trans second.2.2.2.1, first.2.2.2.2.trans second.2.2.2.2⟩

/-- The transaction that a trace is of, if it was delivered. -/
def traceParent (tb : TraceBlock) (t : RawTrace) : Option RawTx :=
  tb.txs.reverse.find? fun tx => tx.transactionIndex = t.transactionIndex

theorem ranked_iff {t : RawTrace} : t.ranked = true ↔
    ¬ (t.transactionIndex = none ∨ t.type = some "reward") := by
  unfold RawTrace.ranked
  cases t.transactionIndex <;> simp

/-- The traces of a block that are kept are those the raw matcher keeps. -/
theorem mem_blockTraces {bn : Nat} {tb : TraceBlock} {m : MatchedTrace}
    (mem : m ∈ blockTraces spec upstream known bn tb) :
    ∃ t ∈ tb.traces, buildRawTraceMatcher spec upstream known t bn = true ∧
      m.parent = traceParent tb t ∧ m.header = tb.header := by
  unfold blockTraces at mem
  obtain ⟨k, _, mem⟩ := List.mem_flatMap.1 mem
  obtain ⟨r, inRanked, kept⟩ := List.mem_filterMap.1 mem
  obtain ⟨t, inGroup, frame, isFrame, same⟩ := mem_rankTraces inRanked
  obtain ⟨inRanked', index⟩ := List.mem_filter.1 inGroup
  obtain ⟨here, ranked⟩ := List.mem_filter.1 inRanked'
  have index : t.transactionIndex = k := of_decide_eq_true index
  dsimp only at kept
  split at kept
  · next matched =>
      cases kept
      refine ⟨t, here, ?_, ?_, rfl⟩
      · unfold buildRawTraceMatcher
        rw [if_neg (ranked_iff.1 ranked), isFrame]
        rw [traceMatched_call ((withRootGas_call _ r).trans same) bn] at matched
        exact matched
      · unfold traceParent
        rw [index]
  · cases kept

theorem exists_blockTraces {bn : Nat} {tb : TraceBlock} {t : RawTrace} (here : t ∈ tb.traces)
    (kept : buildRawTraceMatcher spec upstream known t bn = true) :
    ∃ m ∈ blockTraces spec upstream known bn tb, m.parent = traceParent tb t ∧ m.header = tb.header := by
  unfold buildRawTraceMatcher at kept
  split at kept
  · cases kept
  · next skipped =>
      obtain ⟨frame, isFrame, matched⟩ := (Option.any_eq_true _ _).1 kept
      have inRanked : t ∈ tb.traces.filter RawTrace.ranked :=
        List.mem_filter.2 ⟨here, ranked_iff.2 skipped⟩
      have inGroup : t ∈ (tb.traces.filter RawTrace.ranked).filter fun t' =>
          t'.transactionIndex = t.transactionIndex := List.mem_filter.2 ⟨inRanked, decide_eq_true rfl⟩
      obtain ⟨r, isRanked, same⟩ := exists_rankTraces inGroup isFrame
      have matched' : traceMatched spec upstream known (withRootGas (traceParent tb t) r) bn = true := by
        rw [traceMatched_call ((withRootGas_call _ r).trans same) bn]
        exact matched
      refine ⟨_, List.mem_flatMap.2 ⟨t.transactionIndex, List.mem_eraseDups.2
        (List.mem_map.2 ⟨t, inRanked, rfl⟩), List.mem_filterMap.2 ⟨r, isRanked, if_pos matched'⟩⟩, rfl, rfl⟩

variable (chunks : List ChunkData) (lo hi : Nat) (spec upstream known)

/-- A trace of the range that is kept. -/
structure KeptTrace (bn : Nat) (tb : TraceBlock) (t : RawTrace) : Prop where
  needed : spec.needTraces = true
  chunk : ∃ cd ∈ chunks, cd.traceBlocks.get? bn = some tb
  low : lo ≤ bn
  high : bn ≤ hi
  here : t ∈ tb.traces
  kept : buildRawTraceMatcher spec upstream known t bn = true

variable {chunks lo hi spec upstream known}

theorem mem_matchedTraces {m : MatchedTrace}
    (mem : m ∈ matchedTraces chunks lo hi spec upstream known) :
    ∃ bn tb t, KeptTrace upstream spec known chunks lo hi bn tb t ∧ m.parent = traceParent tb t ∧
      m.header = tb.header := by
  unfold matchedTraces at mem
  split at mem
  · next needed =>
      obtain ⟨cd, inChunks, mem⟩ := List.mem_flatMap.1 mem
      obtain ⟨⟨bn, tb⟩, entry, mem⟩ := List.mem_flatMap.1 mem
      obtain ⟨entry, range⟩ := List.mem_filter.1 entry
      obtain ⟨low, high⟩ := of_decide_eq_true range
      obtain ⟨t, here, kept, parent, header⟩ := mem_blockTraces mem
      exact ⟨bn, tb, t, ⟨needed, ⟨cd, inChunks, cd.traceBlocks.get?_of_mem entry⟩, low, high, here, kept⟩,
        parent, header⟩
  · cases mem

theorem exists_matchedTraces {bn : Nat} {tb : TraceBlock} {t : RawTrace}
    (trace : KeptTrace upstream spec known chunks lo hi bn tb t) :
    ∃ m ∈ matchedTraces chunks lo hi spec upstream known, m.parent = traceParent tb t ∧
      m.header = tb.header := by
  obtain ⟨m, mem, parent, header⟩ := exists_blockTraces trace.here trace.kept
  obtain ⟨cd, inChunks, found⟩ := trace.chunk
  unfold matchedTraces
  rw [if_pos trace.needed]
  refine ⟨m, List.mem_flatMap.2 ⟨cd, inChunks, List.mem_flatMap.2 ⟨(bn, tb), ?_, mem⟩⟩, parent, header⟩
  exact List.mem_filter.2 ⟨cd.traceBlocks.mem_of_get? found, decide_eq_true ⟨trace.low, trace.high⟩⟩

end Traces

/-! ## The rows of `assembleRange` -/

theorem Rows.From.mono {origins wider : Origins} {rows : Rows} (sound : Rows.From origins rows)
    (txs : ∀ t hdr, origins.tx t hdr → wider.tx t hdr)
    (receipts : ∀ t hdr, origins.receipt t hdr → wider.receipt t hdr)
    (blocks : ∀ bn hdr, origins.block bn hdr → wider.block bn hdr) : Rows.From wider rows where
  txs tx mem := by
    obtain ⟨t, hdr, origin, same⟩ := sound.txs tx mem
    exact ⟨t, hdr, txs t hdr origin, same⟩
  receipts r mem := by
    obtain ⟨t, hdr, origin, same⟩ := sound.receipts r mem
    exact ⟨t, hdr, receipts t hdr origin, same⟩
  blocks bn b found := by
    obtain ⟨hdr, origin, same⟩ := sound.blocks bn b found
    exact ⟨hdr, blocks bn hdr origin, same⟩
  seenTx := sound.seenTx
  seenReceipt := sound.seenReceipt

theorem traceReceipt_grows (rows : Rows) (m : MatchedTrace) : rows.Grows (traceReceipt rows m) := by
  unfold traceReceipt
  split
  · exact .refl rows
  · exact rows.pushReceipt_grows _ _

theorem traceReceipt_has (rows : Rows) {m : MatchedTrace} {t : RawTx} {h : Hash}
    (parent : m.parent = some t) (hash : truthy t.hash = some h) :
    h ∈ (traceReceipt rows m).seenReceipt := by
  unfold traceReceipt
  rw [parent]
  exact rows.pushReceipt_seen hash m.header

theorem traceReceipt_from {origins : Origins} {rows : Rows} (sound : Rows.From origins rows)
    {m : MatchedTrace} (origin : ∀ t, m.parent = some t → origins.receipt t m.header) :
    Rows.From origins (traceReceipt rows m) := by
  unfold traceReceipt
  split
  · exact sound
  · next t parent => exact sound.pushReceipt (origin t parent)

section Range

variable (chunks : List ChunkData) (lo hi : Nat) (spec : Spec F) (upstream : TraceMatching F)
  (known : Children F Address)

/-- A transaction that has a row: the parent of a kept log, or an account transaction. -/
def TxOf (t : RawTx) (hdr : RawHeader) : Prop := (origins chunks lo hi spec known).tx t hdr

/-- The transaction of a kept trace. -/
def TraceParent (t : RawTx) (hdr : RawHeader) : Prop :=
  ∃ bn tb raw, KeptTrace upstream spec known chunks lo hi bn tb raw ∧ traceParent tb raw = some t ∧
    tb.header = hdr

/-- A transaction whose receipt has a row, if it has a hash. -/
def ReceiptOf (t : RawTx) (hdr : RawHeader) : Prop :=
  (origins chunks lo hi spec known).receipt t hdr ∨
    needTraceReceipts spec = true ∧ TraceParent chunks lo hi spec upstream known t hdr

/-- A block that has a row. -/
def BlockOf (bn : Nat) (hdr : RawHeader) : Prop := (origins chunks lo hi spec known).block bn hdr

def rangeOrigins : Origins :=
  { origins chunks lo hi spec known with receipt := ReceiptOf chunks lo hi spec upstream known }

/-- The rows with the receipts of the traces. -/
def receiptRows : Rows :=
  if needTraceReceipts spec then
    (matchedTraces chunks lo hi spec upstream known).foldl traceReceipt
      (sourceRows chunks lo hi spec known)
  else sourceRows chunks lo hi spec known

variable {chunks lo hi spec upstream known}

theorem assembleRange_receipts : (assembleRange chunks (lo, hi) spec upstream known).receipts =
    (receiptRows chunks lo hi spec upstream known).receipts := by
  unfold assembleRange receiptRows
  dsimp only
  split
  · rfl
  · rfl

theorem receiptRows_from : Rows.From (rangeOrigins chunks lo hi spec upstream known)
    (receiptRows chunks lo hi spec upstream known) := by
  have sources : Rows.From (rangeOrigins chunks lo hi spec upstream known)
      (sourceRows chunks lo hi spec known) :=
    sourceRows_from.mono (fun _ _ origin => origin) (fun _ _ origin => .inl origin)
      fun _ _ origin => origin
  unfold receiptRows
  split
  · next receipts =>
      refine Folds.foldl_keeps (Rows.From (rangeOrigins chunks lo hi spec upstream known))
        (fun s m mem sound => traceReceipt_from sound fun t isParent => ?_) sources
      obtain ⟨bn, tb, raw, kept, parent, header⟩ := mem_matchedTraces mem
      exact .inr ⟨receipts, bn, tb, raw, kept, parent.symm.trans isParent, header.symm⟩
  · exact sources

theorem receiptRows_grows : (sourceRows chunks lo hi spec known).Grows
    (receiptRows chunks lo hi spec upstream known) := by
  unfold receiptRows
  split
  · exact Rows.foldl_grows traceReceipt_grows _ _
  · exact .refl _

theorem receiptRows_has {t : RawTx} {hdr : RawHeader} {h : Hash}
    (of : ReceiptOf chunks lo hi spec upstream known t hdr) (hash : truthy t.hash = some h) :
    h ∈ (receiptRows chunks lo hi spec upstream known).seenReceipt := by
  rcases of with (⟨receipts, parent⟩ | ⟨bn, account⟩) | ⟨receipts, bn, tb, raw, kept, isParent, _⟩
  · exact receiptRows_grows.seenReceipt ((sourceRows_parent parent).2 receipts h hash)
  · exact receiptRows_grows.seenReceipt ((sourceRows_account account).receipt h hash)
  · obtain ⟨m, mem, parent, _⟩ := exists_matchedTraces kept
    unfold receiptRows
    rw [if_pos receipts]
    let Q : MatchedTrace → Rows → Prop := fun m rows => m.parent = some t → h ∈ rows.seenReceipt
    exact Folds.foldl_does (fun _ => True) Q (fun _ _ _ _ => trivial)
      (fun rows m _ _ parent => traceReceipt_has rows parent hash)
      (fun rows m b _ (has : Q m rows) parent => (traceReceipt_grows rows b).seenReceipt (has parent))
      trivial m mem (parent.trans isParent)

/-- Every receipt is that of a transaction with a hash. -/
theorem assembleRange_receipt_of {r : SyncTransactionReceipt}
    (mem : r ∈ (assembleRange chunks (lo, hi) spec upstream known).receipts) :
    ∃ t hdr, ReceiptOf chunks lo hi spec upstream known t hdr ∧ (truthy t.hash).isSome ∧
      r = toSyncReceipt t hdr := by
  rw [assembleRange_receipts] at mem
  exact receiptRows_from.receipts r mem

theorem assembleRange_receipt {t : RawTx} {hdr : RawHeader} {h : Hash}
    (of : ReceiptOf chunks lo hi spec upstream known t hdr) (hash : truthy t.hash = some h) :
    ∃ r ∈ (assembleRange chunks (lo, hi) spec upstream known).receipts,
      truthy r.transactionHash = some h := by
  rw [assembleRange_receipts]
  exact receiptRows_from.seenReceipt h (receiptRows_has of hash)

theorem assembleRange_tx_of {tx : SyncTransaction}
    (mem : tx ∈ (assembleRange chunks (lo, hi) spec upstream known).txs) :
    ∃ t hdr, TxOf chunks lo hi spec known t hdr ∧ tx = toSyncTransaction t hdr :=
  sourceRows_from.txs tx mem

variable (upstream) in
/-- A transaction has its row, or one with its hash. -/
theorem assembleRange_tx {t : RawTx} {hdr : RawHeader} (of : TxOf chunks lo hi spec known t hdr) :
    ∃ tx ∈ (assembleRange chunks (lo, hi) spec upstream known).txs,
      truthy tx.hash = truthy t.hash ∧
        (truthy t.hash = none → tx = toSyncTransaction t hdr) := by
  have has : (sourceRows chunks lo hi spec known).HasTx t hdr := by
    rcases of with parent | ⟨bn, account⟩
    · exact (sourceRows_parent parent).1
    · exact (sourceRows_account account).tx
  unfold Rows.HasTx at has
  split at has
  · exact ⟨_, has, rfl, fun _ => rfl⟩
  · next h hash =>
      obtain ⟨tx, mem, same⟩ := sourceRows_from.seenTx h has
      refine ⟨tx, mem, same.trans hash.symm, fun none_ => ?_⟩
      rw [none_] at hash
      cases hash

/-! ### Which rows there are at all -/

theorem ne_nil_iff {α : Type} {xs : List α} : xs ≠ [] ↔ ∃ x, x ∈ xs :=
  ⟨List.exists_mem_of_ne_nil xs, fun ⟨_, mem⟩ => List.ne_nil_of_mem mem⟩

theorem logs_ne_nil : (assembleRange chunks (lo, hi) spec upstream known).logs ≠ [] ↔
    ∃ cd bn hdr raw, KeptLog chunks lo hi spec known cd bn hdr raw := by
  show (sourceRows chunks lo hi spec known).logs ≠ [] ↔ _
  rw [ne_nil_iff]
  simp only [mem_sourceRows_logs]
  constructor
  · rintro ⟨_, cd, bn, hdr, raw, kept, _⟩
    exact ⟨cd, bn, hdr, raw, kept⟩
  · rintro ⟨cd, bn, hdr, raw, kept⟩
    exact ⟨_, cd, bn, hdr, raw, kept, rfl⟩

theorem traces_ne_nil : (assembleRange chunks (lo, hi) spec upstream known).traces ≠ [] ↔
    ∃ bn tb t, KeptTrace upstream spec known chunks lo hi bn tb t := by
  show (matchedTraces chunks lo hi spec upstream known).map MatchedTrace.row ≠ [] ↔ _
  rw [Ne, List.map_eq_nil_iff, ← Ne, ne_nil_iff]
  constructor
  · rintro ⟨m, mem⟩
    obtain ⟨bn, tb, t, kept, _⟩ := mem_matchedTraces mem
    exact ⟨bn, tb, t, kept⟩
  · rintro ⟨bn, tb, t, kept⟩
    obtain ⟨m, mem, _⟩ := exists_matchedTraces kept
    exact ⟨m, mem⟩

theorem txs_ne_nil : (assembleRange chunks (lo, hi) spec upstream known).txs ≠ [] ↔
    ∃ t hdr, TxOf chunks lo hi spec known t hdr := by
  rw [ne_nil_iff]
  constructor
  · rintro ⟨tx, mem⟩
    obtain ⟨t, hdr, of, _⟩ := assembleRange_tx_of mem
    exact ⟨t, hdr, of⟩
  · rintro ⟨t, hdr, of⟩
    obtain ⟨tx, mem, _⟩ := assembleRange_tx upstream of
    exact ⟨tx, mem⟩

theorem receipts_ne_nil : (assembleRange chunks (lo, hi) spec upstream known).receipts ≠ [] ↔
    ∃ t hdr, ReceiptOf chunks lo hi spec upstream known t hdr ∧ (truthy t.hash).isSome = true := by
  rw [ne_nil_iff]
  constructor
  · rintro ⟨r, mem⟩
    obtain ⟨t, hdr, of, hash, _⟩ := assembleRange_receipt_of mem
    exact ⟨t, hdr, of, hash⟩
  · rintro ⟨t, hdr, of, hash⟩
    obtain ⟨h, hash⟩ := Option.isSome_iff_exists.1 hash
    obtain ⟨r, mem, _⟩ := assembleRange_receipt of hash
    exact ⟨r, mem⟩

theorem blocks_ne_nil : (assembleRange chunks (lo, hi) spec upstream known).blocks ≠ [] ↔
    (∃ cd bn hdr raw, KeptLog chunks lo hi spec known cd bn hdr raw) ∨
      (∃ bn hdr, FilteredHeader chunks lo hi spec bn hdr) ∨
      ∃ bn t hdr, AccountTx chunks lo hi spec known bn t hdr := by
  show (sourceRows chunks lo hi spec known).blocksByNumber.entries.map Prod.snd ≠ [] ↔ _
  rw [Ne, List.map_eq_nil_iff, ← Ne, ne_nil_iff]
  have entry : ∀ {bn}, ((sourceRows chunks lo hi spec known).blocksByNumber.get? bn).isSome = true →
      ∃ e, e ∈ (sourceRows chunks lo hi spec known).blocksByNumber.entries := by
    intro bn some_
    obtain ⟨b, found⟩ := Option.isSome_iff_exists.1 some_
    exact ⟨(bn, b), OrdMap.mem_of_get? _ found⟩
  constructor
  · rintro ⟨⟨bn, b⟩, mem⟩
    obtain ⟨hdr, origin, _⟩ := sourceRows_from.blocks bn b (OrdMap.get?_of_mem _ mem)
    rcases origin with ⟨cd, raw, log⟩ | header | ⟨t, account⟩
    · exact .inl ⟨cd, bn, hdr, raw, log⟩
    · exact .inr (.inl ⟨bn, hdr, header⟩)
    · exact .inr (.inr ⟨bn, t, hdr, account⟩)
  · rintro (⟨cd, bn, hdr, raw, log⟩ | ⟨bn, hdr, header⟩ | ⟨bn, t, hdr, account⟩)
    · exact entry (sourceRows_log log)
    · exact entry (sourceRows_header header)
    · rcases (sourceRows_account account).block with here | ⟨h, seen, _⟩
      · exact entry here
      · obtain ⟨_, _, _, _, here⟩ := sourceRows_housed h seen
        exact entry here

end Range

end PortalPonder.Assembly
