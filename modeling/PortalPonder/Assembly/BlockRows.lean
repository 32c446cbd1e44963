import PortalPonder.Assembly.TraceRows
import PortalPonder.Lib.Fibers

/-!
# The rows of one block

What `assembleRange` collects for an interval is, block by block, what it collects for the block. The
loops share the hashes they have seen, but a transaction occurs in one block only, so what one block
adds is nothing to another; and whether the keys of a map are walked or scanned, the entry of a block
is met once.
-/

namespace PortalPonder.Assembly

open Historical (Children entriesInRange mem_entriesInRange)
open Fibers

variable {F : Type}

/-! ## Chunk data -/

/-- Every map is keyed by the number of the block. -/
structure ChunkData.Numbered (cd : ChunkData) : Prop where
  headers : ∀ bn hdr, cd.headers.get? bn = some hdr → hdr.number = bn
  traceBlocks : ∀ bn tb, cd.traceBlocks.get? bn = some tb → tb.header.number = bn
  blockHeaders : ∀ bn hdr, cd.blockHeaders.get? bn = some hdr → hdr.number = bn
  txBlocks : ∀ bn tb, cd.txBlocks.get? bn = some tb → tb.header.number = bn

/-- A transaction that was delivered with a block, by whichever stream. -/
def DeliveredTx (chunks : List ChunkData) (bn : Nat) (t : RawTx) : Prop :=
  ∃ cd ∈ chunks, t ∈ (cd.txs.get? bn).getD [] ∨
    (∃ tb, cd.txBlocks.get? bn = some tb ∧ t ∈ tb.txs) ∨
    ∃ tb, cd.traceBlocks.get? bn = some tb ∧ t ∈ tb.txs

/-- A hash that occurs in a block. -/
def HashAt (chunks : List ChunkData) (bn : Nat) (h : Hash) : Prop :=
  ∃ t, DeliveredTx chunks bn t ∧ truthy t.hash = some h

/-- Chunk data of a chain: a hash occurs in one block only. -/
structure OfChain (chunks : List ChunkData) : Prop where
  numbered : ∀ cd ∈ chunks, cd.Numbered
  once : ∀ m n h, HashAt chunks m h → HashAt chunks n h → m = n

/-- The transactions of a chunk, each with the number of its block. -/
def ChunkData.deliveredTxs (cd : ChunkData) : List (Nat × RawTx) :=
  (cd.txs.entries.flatMap fun e => e.2.map fun t => (e.1, t)) ++
    (cd.txBlocks.entries.flatMap fun e => e.2.txs.map fun t => (e.1, t)) ++
    cd.traceBlocks.entries.flatMap fun e => e.2.txs.map fun t => (e.1, t)

theorem DeliveredTx.mem {chunks : List ChunkData} {bn : Nat} {t : RawTx}
    (delivered : DeliveredTx chunks bn t) : (bn, t) ∈ chunks.flatMap ChunkData.deliveredTxs := by
  obtain ⟨cd, inChunks, source⟩ := delivered
  refine List.mem_flatMap.2 ⟨cd, inChunks, ?_⟩
  unfold ChunkData.deliveredTxs
  rw [List.mem_append, List.mem_append]
  rcases source with inTxs | ⟨tb, found, inTxs⟩ | ⟨tb, found, inTxs⟩
  · cases found : cd.txs.get? bn with
    | none =>
        rw [found] at inTxs
        cases inTxs
    | some txs =>
        rw [found] at inTxs
        exact .inl (.inl (List.mem_flatMap.2 ⟨(bn, txs), cd.txs.mem_of_get? found,
          List.mem_map.2 ⟨t, inTxs, rfl⟩⟩))
  · exact .inl (.inr (List.mem_flatMap.2 ⟨(bn, tb), cd.txBlocks.mem_of_get? found,
      List.mem_map.2 ⟨t, inTxs, rfl⟩⟩))
  · exact .inr (List.mem_flatMap.2 ⟨(bn, tb), cd.traceBlocks.mem_of_get? found,
      List.mem_map.2 ⟨t, inTxs, rfl⟩⟩)

/-- That a hash occurs in one block only can be decided. -/
theorem once_of_deliveredTxs {chunks : List ChunkData}
    (once : ∀ e ∈ chunks.flatMap ChunkData.deliveredTxs, ∀ e' ∈ chunks.flatMap ChunkData.deliveredTxs,
      (truthy e.2.hash).isSome = true → truthy e.2.hash = truthy e'.2.hash → e.1 = e'.1)
    (m n : Nat) (h : Hash) (first : HashAt chunks m h) (second : HashAt chunks n h) : m = n := by
  obtain ⟨t, delivered, hash⟩ := first
  obtain ⟨t', delivered', hash'⟩ := second
  exact once (m, t) delivered.mem (n, t') delivered'.mem (Option.isSome_of_eq_some hash)
    (hash.trans hash'.symm)

/-! ## Numbers of rows -/

def logNumber (log : SyncLog) : Nat := hexToNumber log.blockNumber

def txNumber (tx : SyncTransaction) : Nat := hexToNumber tx.blockNumber

def receiptNumber (r : SyncTransactionReceipt) : Nat := hexToNumber r.blockNumber

def headerNumber (b : SyncBlockHeader) : Nat := hexToNumber b.number

@[simp] theorem logNumber_toSyncLog (raw : RawLog) (hdr : RawHeader) :
    logNumber (toSyncLog raw hdr) = hdr.number := hexToNumber_numberToHex _

@[simp] theorem txNumber_toSyncTransaction (raw : RawTx) (hdr : RawHeader) :
    txNumber (toSyncTransaction raw hdr) = hdr.number := hexToNumber_numberToHex _

@[simp] theorem receiptNumber_toSyncReceipt (raw : RawTx) (hdr : RawHeader) :
    receiptNumber (toSyncReceipt raw hdr) = hdr.number := hexToNumber_numberToHex _

@[simp] theorem headerNumber_toSyncBlockHeader (hdr : RawHeader) :
    headerNumber (toSyncBlockHeader hdr) = hdr.number := hexToNumber_numberToHex _

/-! ## Rows that are alike at a block -/

/-- The same transactions, receipts and header of block `n`, and the same seen of the hashes that
occur in it. -/
structure SameAt (occurs : Hash → Prop) (n : Nat) (rows other : Rows) : Prop where
  txs : fiber txNumber n rows.txs = fiber txNumber n other.txs
  receipts : fiber receiptNumber n rows.receipts =
    fiber receiptNumber n other.receipts
  block : rows.blocksByNumber.get? n = other.blocksByNumber.get? n
  seenTx : ∀ h, occurs h → (h ∈ rows.seenTx ↔ h ∈ other.seenTx)
  seenReceipt : ∀ h, occurs h → (h ∈ rows.seenReceipt ↔ h ∈ other.seenReceipt)

/-- A transaction of the block. -/
def Own (occurs : Hash → Prop) (raw : RawTx) : Prop := ∀ h, truthy raw.hash = some h → occurs h

/-- A transaction of another block. -/
def Foreign (occurs : Hash → Prop) (raw : RawTx) : Prop := ∀ h, truthy raw.hash = some h → ¬ occurs h

section Steps

variable {spec : Spec F} {known : Children F Address} {occurs : Hash → Prop} {n : Nat}
  {rows other : Rows} {raw : RawTx} {hdr : RawHeader}

namespace SameAt

theorem refl (rows : Rows) : SameAt occurs n rows rows :=
  ⟨rfl, rfl, rfl, fun _ _ => Iff.rfl, fun _ _ => Iff.rfl⟩

theorem sawTx (same : SameAt occurs n rows other) (own : Own occurs raw) :
    rows.sawTx raw = other.sawTx raw := by
  unfold Rows.sawTx
  cases hash : truthy raw.hash with
  | none => rfl
  | some h =>
      show decide (h ∈ rows.seenTx) = decide (h ∈ other.seenTx)
      exact decide_eq_decide.2 (same.seenTx h (own h hash))

theorem pushReceipt (same : SameAt occurs n rows other) (own : Own occurs raw) (hdr : RawHeader) :
    SameAt occurs n (rows.pushReceipt raw hdr) (other.pushReceipt raw hdr) := by
  unfold Rows.pushReceipt
  cases hash : truthy raw.hash with
  | none => exact same
  | some h =>
      have seen := same.seenReceipt h (own h hash)
      by_cases there : h ∈ other.seenReceipt
      · dsimp only
        rw [if_pos there, if_pos (seen.2 there)]
        exact same
      · dsimp only
        rw [if_neg there, if_neg fun here => there (seen.1 here)]
        refine { same with receipts := ?_, seenReceipt := fun h' occ => ?_ }
        · rw [fiber_append, fiber_append, same.receipts]
        · rw [List.mem_cons, List.mem_cons, same.seenReceipt h' occ]

theorem pushTx (same : SameAt occurs n rows other) (raw : RawTx) (hdr : RawHeader) :
    SameAt occurs n (rows.pushTx raw hdr) (other.pushTx raw hdr) := by
  unfold Rows.pushTx
  refine { same with txs := ?_, seenTx := fun h occ => ?_ }
  · rw [fiber_append, fiber_append, same.txs]
  · rw [List.mem_append, List.mem_append, same.seenTx h occ]

theorem setBlock (same : SameAt occurs n rows other) (bn : Nat) (b : SyncBlockHeader) :
    SameAt occurs n { rows with blocksByNumber := rows.blocksByNumber.set bn b }
      { other with blocksByNumber := other.blocksByNumber.set bn b } := by
  refine { same with block := ?_ }
  dsimp only
  rw [OrdMap.get?_set, OrdMap.get?_set, same.block]

/-! What another block adds is not seen. -/

theorem pushReceipt_apart (same : SameAt occurs n rows other) (foreign : Foreign occurs raw)
    (apart : hdr.number ≠ n) : SameAt occurs n (rows.pushReceipt raw hdr) other := by
  unfold Rows.pushReceipt
  cases hash : truthy raw.hash with
  | none => exact same
  | some h =>
      dsimp only
      split
      · exact same
      · refine { same with receipts := ?_, seenReceipt := fun h' occ => ?_ }
        · have none_ : fiber receiptNumber n [toSyncReceipt raw hdr] = [] :=
            fiber_eq_nil fun r mem => by
              rw [List.mem_singleton.1 mem, receiptNumber_toSyncReceipt]
              exact apart
          rw [fiber_append, none_, List.append_nil, same.receipts]
        · rw [List.mem_cons, same.seenReceipt h' occ]
          exact or_iff_right fun is => foreign h hash (is ▸ occ)

theorem pushTx_apart (same : SameAt occurs n rows other) (foreign : Foreign occurs raw)
    (apart : hdr.number ≠ n) : SameAt occurs n (rows.pushTx raw hdr) other := by
  unfold Rows.pushTx
  refine { same with txs := ?_, seenTx := fun h occ => ?_ }
  · have none_ : fiber txNumber n [toSyncTransaction raw hdr] = [] :=
      fiber_eq_nil fun tx mem => by
        rw [List.mem_singleton.1 mem, txNumber_toSyncTransaction]
        exact apart
    rw [fiber_append, none_, List.append_nil, same.txs]
  · rw [List.mem_append, same.seenTx h occ]
    exact or_iff_right fun mem => foreign h (Option.mem_toList.1 mem) occ

theorem setBlock_apart (same : SameAt occurs n rows other) {bn : Nat} (apart : bn ≠ n)
    (b : SyncBlockHeader) :
    SameAt occurs n { rows with blocksByNumber := rows.blocksByNumber.set bn b } other := by
  refine { same with block := ?_ }
  dsimp only
  rw [OrdMap.get?_set_of_ne _ _ apart.symm, same.block]

/-! The steps of the loops. -/

theorem parentTx (same : SameAt occurs n rows other) (own : Own occurs raw) (hdr : RawHeader)
    (hashes : List Hash) :
    SameAt occurs n (Assembly.parentTx spec hdr hashes rows raw)
      (Assembly.parentTx spec hdr hashes other raw) := by
  unfold Assembly.parentTx
  rw [same.sawTx own]
  split
  · dsimp only
    split
    · exact (same.pushTx raw hdr).pushReceipt own hdr
    · exact same.pushTx raw hdr
  · exact same

theorem parentTx_apart (same : SameAt occurs n rows other) (foreign : Foreign occurs raw)
    (apart : hdr.number ≠ n) (hashes : List Hash) :
    SameAt occurs n (Assembly.parentTx spec hdr hashes rows raw) other := by
  unfold Assembly.parentTx
  split
  · dsimp only
    split
    · exact (same.pushTx_apart foreign apart).pushReceipt_apart foreign apart
    · exact same.pushTx_apart foreign apart
  · exact same

theorem headerBlock (same : SameAt occurs n rows other) {e : Nat × RawHeader} (here : e.1 = n) :
    SameAt occurs n (Assembly.headerBlock rows e) (Assembly.headerBlock other e) := by
  unfold Assembly.headerBlock
  rw [here, same.block]
  split
  · exact same
  · exact same.setBlock n _

theorem headerBlock_apart (same : SameAt occurs n rows other) {e : Nat × RawHeader}
    (apart : e.1 ≠ n) : SameAt occurs n (Assembly.headerBlock rows e) other := by
  unfold Assembly.headerBlock
  split
  · exact same
  · exact same.setBlock_apart apart _

theorem accountTx (same : SameAt occurs n rows other) (own : Own occurs raw) (bn : Nat)
    (hdr : RawHeader) :
    SameAt occurs n (Assembly.accountTx spec known bn hdr rows raw)
      (Assembly.accountTx spec known bn hdr other raw) := by
  unfold Assembly.accountTx
  split
  · have receipt := same.pushReceipt own hdr
    dsimp only
    rw [receipt.sawTx own]
    split
    · exact receipt
    · refine { receipt.pushTx raw hdr with block := ?_ }
      dsimp only
      rw [OrdMap.get?_set, OrdMap.get?_set, receipt.block]
  · exact same

theorem accountTx_apart (same : SameAt occurs n rows other) (foreign : Foreign occurs raw) {bn : Nat}
    (apart : bn ≠ n) (number : hdr.number = bn) :
    SameAt occurs n (Assembly.accountTx spec known bn hdr rows raw) other := by
  have other_ : hdr.number ≠ n := number ▸ apart
  unfold Assembly.accountTx
  split
  · have receipt := same.pushReceipt_apart foreign other_
    dsimp only
    split
    · exact receipt
    · refine { receipt.pushTx_apart foreign other_ with block := ?_ }
      dsimp only
      rw [OrdMap.get?_set_of_ne _ _ apart.symm, receipt.block]
  · exact same

theorem txBlock (same : SameAt occurs n rows other) {e : Nat × TxBlock}
    (own : ∀ t ∈ e.2.txs, Own occurs t) :
    SameAt occurs n (Assembly.txBlock spec known rows e) (Assembly.txBlock spec known other e) :=
  foldl_alike (fun _ _ t mem same => same.accountTx (own t mem) e.1 e.2.header) same

theorem txBlock_apart (same : SameAt occurs n rows other) {e : Nat × TxBlock}
    (foreign : ∀ t ∈ e.2.txs, Foreign occurs t) (apart : e.1 ≠ n) (number : e.2.header.number = e.1) :
    SameAt occurs n (Assembly.txBlock spec known rows e) other :=
  Folds.foldl_keeps (fun s => SameAt occurs n s other)
    (fun _ t mem same => same.accountTx_apart (foreign t mem) apart number) same

theorem traceReceipt (same : SameAt occurs n rows other) {m : MatchedTrace}
    (own : ∀ t, m.parent = some t → Own occurs t) :
    SameAt occurs n (Assembly.traceReceipt rows m) (Assembly.traceReceipt other m) := by
  unfold Assembly.traceReceipt
  cases parent : m.parent with
  | none => exact same
  | some t => exact same.pushReceipt (own t parent) m.header

theorem traceReceipt_apart (same : SameAt occurs n rows other) {m : MatchedTrace}
    (foreign : ∀ t, m.parent = some t → Foreign occurs t) (apart : m.header.number ≠ n) :
    SameAt occurs n (Assembly.traceReceipt rows m) other := by
  unfold Assembly.traceReceipt
  cases parent : m.parent with
  | none => exact same
  | some t => exact same.pushReceipt_apart (foreign t parent) apart

end SameAt

end Steps

/-! ## What is collected -/

/-- A block of the log source, with what was delivered of it. -/
structure LogBlock where
  number : Nat
  header : RawHeader
  logs : List RawLog
  txs : List RawTx

def LogBlock.of (e : ChunkData × Nat × RawHeader) : LogBlock where
  number := e.2.1
  header := e.2.2
  logs := (e.1.logs.get? e.2.1).getD []
  txs := (e.1.txs.get? e.2.1).getD []

/-- `logBlock` reads of a chunk what was delivered of the block. -/
def logStep (spec : Spec F) (known : Children F Address) (rows : Rows) (b : LogBlock) : Rows :=
  let kept := b.logs.filter fun raw => logMatched spec known (toSyncLog raw b.header) b.number
  if kept.isEmpty then rows
  else
    let rows := { rows with
      logs := rows.logs ++ kept.map fun raw => toSyncLog raw b.header
      blocksByNumber := rows.blocksByNumber.set b.number (toSyncBlockHeader b.header) }
    b.txs.foldl (parentTx spec b.header (kept.filterMap fun raw => truthy raw.transactionHash)) rows

def collect (spec : Spec F) (known : Children F Address) (logBlocks : List LogBlock)
    (headers : List (Nat × RawHeader)) (txBlocks : List (Nat × TxBlock)) : Rows :=
  txBlocks.foldl (txBlock spec known)
    (headers.foldl headerBlock (logBlocks.foldl (logStep spec known) Rows.empty))

section Collect

variable {spec : Spec F} {known : Children F Address} {occurs : Hash → Prop} {n : Nat}
  {rows other : Rows}

theorem SameAt.logStep (same : SameAt occurs n rows other) {b : LogBlock}
    (own : ∀ t ∈ b.txs, Own occurs t) :
    SameAt occurs n (Assembly.logStep spec known rows b) (Assembly.logStep spec known other b) := by
  unfold Assembly.logStep
  dsimp only
  split
  · exact same
  · exact foldl_alike (fun _ _ t mem same => same.parentTx (own t mem) b.header _)
      { same.setBlock b.number _ with }

theorem SameAt.logStep_apart (same : SameAt occurs n rows other) {b : LogBlock}
    (foreign : ∀ t ∈ b.txs, Foreign occurs t) (apart : b.number ≠ n)
    (number : b.header.number = b.number) :
    SameAt occurs n (Assembly.logStep spec known rows b) other := by
  have other_ : b.header.number ≠ n := number ▸ apart
  unfold Assembly.logStep
  dsimp only
  split
  · exact same
  · exact Folds.foldl_keeps (fun s => SameAt occurs n s other)
      (fun _ t mem same => same.parentTx_apart (foreign t mem) other_ _)
      { same.setBlock_apart apart _ with }

variable {chunks : List ChunkData}

theorem own_of_delivered {t : RawTx} (delivered : DeliveredTx chunks n t) :
    Own (HashAt chunks n) t := fun _ hash => ⟨t, delivered, hash⟩

theorem foreign_of_delivered (chain : OfChain chunks) {m : Nat} {t : RawTx}
    (delivered : DeliveredTx chunks m t) (apart : m ≠ n) : Foreign (HashAt chunks n) t :=
  fun h hash occurs => apart (chain.once m n h ⟨t, delivered, hash⟩ occurs)

/-- A block of the log source that is one of the chunks. -/
structure LogBlock.Delivered (chunks : List ChunkData) (b : LogBlock) : Prop where
  number : b.header.number = b.number
  txs : ∀ t ∈ b.txs, DeliveredTx chunks b.number t

structure DeliveredTxs (chunks : List ChunkData) (e : Nat × TxBlock) : Prop where
  number : e.2.header.number = e.1
  txs : ∀ t ∈ e.2.txs, DeliveredTx chunks e.1 t

/-- At a block, what is collected is what is collected of it. -/
theorem collect_sameAt (chain : OfChain chunks) {logBlocks : List LogBlock}
    {headers : List (Nat × RawHeader)} {txBlocks : List (Nat × TxBlock)}
    (logs : ∀ b ∈ logBlocks, b.Delivered chunks) (txs : ∀ e ∈ txBlocks, DeliveredTxs chunks e)
    (n : Nat) :
    SameAt (HashAt chunks n) n (collect spec known logBlocks headers txBlocks)
      (collect spec known (fiber LogBlock.number n logBlocks) (fiber Prod.fst n headers)
        (fiber Prod.fst n txBlocks)) := by
  unfold collect
  refine foldl_fiber (fun s t e mem here same => ?_) (fun s t e mem apart same => ?_)
    (foldl_fiber (fun s t e mem here same => same.headerBlock here)
      (fun s t e mem apart same => same.headerBlock_apart apart)
      (foldl_fiber (fun s t b mem here same => ?_) (fun s t b mem apart same => ?_)
        (SameAt.refl Rows.empty)))
  · have delivered := (txs e mem).txs
    rw [here] at delivered
    exact same.txBlock fun t mem => own_of_delivered (delivered t mem)
  · exact same.txBlock_apart (fun t inTxs => foreign_of_delivered chain ((txs e mem).txs t inTxs) apart)
      apart (txs e mem).number
  · have delivered := (logs b mem).txs
    rw [here] at delivered
    exact same.logStep fun t mem => own_of_delivered (delivered t mem)
  · exact same.logStep_apart (fun t inTxs => foreign_of_delivered chain ((logs b mem).txs t inTxs) apart)
      apart (logs b mem).number

end Collect

/-! ## The entries of an interval -/

theorem fiber_entries {κ V : Type} [DecidableEq κ] (m : OrdMap κ V) (k : κ) :
    fiber Prod.fst k m.entries = (m.get? k).toList.map fun v => (k, v) := by
  cases found : m.get? k with
  | none =>
      refine fiber_eq_nil fun e mem same => ?_
      have is := m.get?_of_mem (k := e.1) (v := e.2) mem
      rw [same, found] at is
      cases is
  | some v =>
      refine fiber_eq_singleton (a := (k, v)) (List.Nodup.of_map Prod.fst m.nodup)
        (m.mem_of_get? found) fun e mem same => ?_
      have is := m.get?_of_mem (k := e.1) (v := e.2) mem
      rw [show e.1 = k from same, found] at is
      exact Prod.ext same (Option.some.inj is).symm

/-- Walked or scanned, a key is met once. -/
theorem entriesInRange_nodup {keys : List Nat} (nodup : keys.Nodup) (lo hi : Nat) :
    (entriesInRange keys lo hi).Nodup := by
  unfold entriesInRange
  split
  · refine List.Nodup.filter _ (List.Nodup.map (fun i j same => ?_) List.nodup_range)
    have same : lo + i = lo + j := same
    omega
  · exact nodup.filter _

theorem mapEntries_nodup {V : Type} (m : OrdMap Nat V) (lo hi : Nat) : (mapEntries m lo hi).Nodup := by
  refine List.Nodup.filterMap (fun i j e first second => ?_) (entriesInRange_nodup m.nodup lo hi)
  obtain ⟨v, -, rfl⟩ := Option.map_eq_some_iff.1 first
  obtain ⟨w, -, same⟩ := Option.map_eq_some_iff.1 second
  exact (congrArg Prod.fst same).symm

theorem mapEntries_local {V : Type} (m : OrdMap Nat V) :
    Local Prod.fst (mapEntries m) fun n => (m.get? n).toList.map fun v => (n, v) := by
  intro lo hi n
  show fiber Prod.fst n (mapEntries m lo hi) =
    if lo ≤ n ∧ n ≤ hi then (m.get? n).toList.map fun v => (n, v) else []
  split
  · next within =>
      cases found : m.get? n with
      | none =>
          refine fiber_eq_nil fun e mem same => ?_
          obtain ⟨is, -⟩ := mem_mapEntries.1 (show (e.1, e.2) ∈ mapEntries m lo hi from mem)
          rw [same, found] at is
          cases is
      | some v =>
          refine fiber_eq_singleton (a := (n, v)) (mapEntries_nodup m lo hi)
            (mem_mapEntries.2 ⟨found, within⟩) fun e mem same => ?_
          obtain ⟨is, -⟩ := mem_mapEntries.1 (show (e.1, e.2) ∈ mapEntries m lo hi from mem)
          rw [show e.1 = n from same, found] at is
          exact Prod.ext same (Option.some.inj is).symm
  · next outside =>
      refine fiber_eq_nil fun e mem same => outside ?_
      obtain ⟨-, within⟩ := mem_mapEntries.1 (show (e.1, e.2) ∈ mapEntries m lo hi from mem)
      rw [← same]
      exact within

end PortalPonder.Assembly
