import PortalPonder.Assembly.Exact
import PortalPonder.Assembly.Stash

/-!
# What an interval stores

The rows that `syncBlockData` inserts of what `syncBlockRangeData` has stashed: nothing that a row
refers to is missing, no hash comes twice, and the block that is returned is the highest one. A
transaction is known by its hash, here as in the source: one that was delivered without a hash has no
receipt, and one whose hash was seen in another block is not looked at again.
-/

namespace PortalPonder.Assembly

open Historical (Children)
open Fibers

variable {F : Type}

/-! ## Rows collected by a key -/

section Collect

variable {κ α : Type} [DecidableEq κ] (key : α → κ) (items : List α)

/-- The last item of each key, as a map collects them. -/
def lastByKey : List α :=
  (items.foldl (fun m a => m.set (key a) a) (OrdMap.empty : OrdMap κ α)).entries.map Prod.snd

variable {key items}

theorem lastByKey_entries {e : κ × α}
    (mem : e ∈ (items.foldl (fun m a => m.set (key a) a) (OrdMap.empty : OrdMap κ α)).entries) :
    key e.2 = e.1 ∧ e.2 ∈ items := by
  have all : ∀ k a, (items.foldl (fun m a => m.set (key a) a)
      (OrdMap.empty : OrdMap κ α)).get? k = some a → key a = k ∧ a ∈ items := by
    refine Folds.foldl_keeps (fun m : OrdMap κ α => ∀ k a, m.get? k = some a → key a = k ∧ a ∈ items)
      (fun m b inItems all k a found => ?_) fun _ _ found => by cases found
    rw [OrdMap.get?_set] at found
    split at found
    · next same =>
        cases found
        exact ⟨same.symm, inItems⟩
    · exact all k a found
  exact all e.1 e.2 (OrdMap.get?_of_mem _ mem)

theorem mem_of_lastByKey {a : α} (mem : a ∈ lastByKey key items) : a ∈ items := by
  obtain ⟨e, entry, rfl⟩ := List.mem_map.1 mem
  exact (lastByKey_entries entry).2

/-- No key comes twice. -/
theorem lastByKey_nodup : ((lastByKey key items).map key).Nodup := by
  have keys : (lastByKey key items).map key = (items.foldl (fun m a => m.set (key a) a)
      (OrdMap.empty : OrdMap κ α)).entries.map Prod.fst := by
    unfold lastByKey
    rw [List.map_map]
    exact List.map_congr_left fun e entry => (lastByKey_entries entry).1
  rw [keys]
  exact OrdMap.nodup _

end Collect

/-! ## What refers to what -/

section Inserts

variable (chunks : List ChunkData) (lo hi : Nat) (spec : Spec F) (upstream : TraceMatching F)
  (known : Children F Address)

/-- What `syncBlockData` inserts of the interval. -/
def inserts : StoreRows := (assembleRange chunks (lo, hi) spec upstream known).stash.storeRows

/-- What it returns. -/
def closest : Option SyncBlockHeader :=
  (assembleRange chunks (lo, hi) spec upstream known).stash.closest

/-- The receipts of the transactions that are asked for: each has one. -/
def OneReceipt (rows : StoreRows) (t : RawTx) : Prop :=
  (rows.receipts.countP fun r => r.transactionHash = t.hash) = 1

/-- What holds of the inserts without regard to hashes that are missing or come again. -/
structure Consistent (rows : StoreRows) (last : Option SyncBlockHeader) : Prop where
  log_block : ∀ cd bn hdr raw, KeptLog chunks lo hi spec known cd bn hdr raw →
    ∃ b ∈ rows.blocks, headerNumber b = bn
  trace_block : ∀ bn tb t, KeptTrace upstream spec known chunks lo hi bn tb t →
    ∃ b ∈ rows.blocks, headerNumber b = bn
  log_parent : ∀ t hdr, LogParent chunks lo hi spec known t hdr → ∃ tx ∈ rows.txs, tx.hash = t.hash
  tx_hashes : (rows.txs.map SyncTransaction.hash).Nodup
  receipt_hashes : (rows.receipts.map SyncTransactionReceipt.transactionHash).Nodup
  last_none : last = none → rows.blocks = []
  last_top : ∀ b, last = some b → ∀ b' ∈ rows.blocks, headerNumber b' ≤ headerNumber b

/-- Every reference of a row is inserted, and the block that is returned is the highest inserted. -/
structure Referential (rows : StoreRows) (last : Option SyncBlockHeader) : Prop
    extends Consistent chunks lo hi spec upstream known rows last where
  tx_block : ∀ bn t hdr, AccountTx chunks lo hi spec known bn t hdr →
    ∃ b ∈ rows.blocks, headerNumber b = bn
  trace_tx : ∀ t hdr, TraceParent chunks lo hi spec upstream known t hdr →
    ∃ tx ∈ rows.txs, tx.hash = t.hash
  receipts : ∀ t hdr, ReceiptOf chunks lo hi spec upstream known t hdr → OneReceipt rows t
  last_mem : ∀ b, last = some b → b ∈ rows.blocks

/-- A header that was delivered for a block, by whichever stream. -/
def HeaderAt (bn : Nat) (hdr : RawHeader) : Prop :=
  ∃ cd ∈ chunks, cd.headers.get? bn = some hdr ∨ cd.blockHeaders.get? bn = some hdr ∨
    (∃ tb, cd.txBlocks.get? bn = some tb ∧ tb.header = hdr) ∨
    ∃ tb, cd.traceBlocks.get? bn = some tb ∧ tb.header = hdr

/-- All streams deliver one header for a block. -/
def OneHeader (bn : Nat) : Prop :=
  ∀ hdr hdr', HeaderAt chunks bn hdr → HeaderAt chunks bn hdr' →
    toSyncBlockHeader hdr = toSyncBlockHeader hdr'

/-- The same, for transactions that have a hash, and with the block of an account transaction whose
hash does not occur in another block; the block that is returned is the inserted row if the streams
agree on it. -/
structure ReferentialByHash (rows : StoreRows) (last : Option SyncBlockHeader) : Prop
    extends Consistent chunks lo hi spec upstream known rows last where
  tx_block : ∀ bn t hdr, AccountTx chunks lo hi spec known bn t hdr →
    (∀ h, truthy t.hash = some h → ∀ m, HashAt chunks m h → m = bn) →
    ∃ b ∈ rows.blocks, headerNumber b = bn
  trace_tx : ∀ t hdr, TraceParent chunks lo hi spec upstream known t hdr →
    (truthy t.hash).isSome = true → ∃ tx ∈ rows.txs, tx.hash = t.hash
  receipts : ∀ t hdr, ReceiptOf chunks lo hi spec upstream known t hdr →
    (truthy t.hash).isSome = true → OneReceipt rows t
  last_number : ∀ b, last = some b → ∃ b' ∈ rows.blocks, headerNumber b' = headerNumber b
  last_mem : ∀ b, last = some b → OneHeader chunks (headerNumber b) → b ∈ rows.blocks

variable {chunks lo hi spec upstream known}

/-! ## The inserted rows -/

theorem inserts_storedIn : (assembled chunks spec upstream known lo hi).stash.StoredIn
    (inserts chunks lo hi spec upstream known) := stash_storedIn chunks lo hi spec upstream known

theorem hash_of_truthy {v : Option String} {h : String} (is : truthy v = some h) : v = some h := by
  unfold truthy at is
  rw [Option.filter_eq_some_iff] at is
  exact is.1

theorem inserts_block_of {b : SyncBlockHeader}
    (mem : b ∈ (inserts chunks lo hi spec upstream known).blocks) :
    b ∈ (assembled chunks spec upstream known lo hi).blocks ++
      (assembled chunks spec upstream known lo hi).traces.map TraceRow.block := by
  unfold inserts StashEntry.storeRows at mem
  split at mem
  · cases mem
  · exact mem_of_lastByKey mem

theorem inserts_tx_hashes :
    ((inserts chunks lo hi spec upstream known).txs.map SyncTransaction.hash).Nodup := by
  unfold inserts StashEntry.storeRows
  split
  · exact List.nodup_nil
  · exact lastByKey_nodup

theorem inserts_receipt_hashes : ((inserts chunks lo hi spec upstream known).receipts.map
    SyncTransactionReceipt.transactionHash).Nodup := by
  have same : (inserts chunks lo hi spec upstream known).receipts =
      (assembled chunks spec upstream known lo hi).receipts := inserts_storedIn.receipts
  have hashes : (assembled chunks spec upstream known lo hi).receipts.map
      SyncTransactionReceipt.transactionHash =
      ((assembled chunks spec upstream known lo hi).receipts.filterMap fun r =>
        truthy r.transactionHash).map some := by
    rw [List.map_filterMap, ← List.filterMap_eq_map]
    refine List.filterMap_congr fun r mem => ?_
    obtain ⟨t, hdr, -, hash, rfl⟩ := assembleRange_receipt_of mem
    obtain ⟨h, hash⟩ := Option.isSome_iff_exists.1 hash
    show some t.hash = (truthy t.hash).map some
    rw [hash, hash_of_truthy hash]
    rfl
  rw [same, hashes]
  exact List.Nodup.map (fun _ _ same => Option.some.inj same) receipts_once

theorem inserts_receipt {t : RawTx} {hdr : RawHeader}
    (of : ReceiptOf chunks lo hi spec upstream known t hdr) (hash : (truthy t.hash).isSome = true) :
    OneReceipt (inserts chunks lo hi spec upstream known) t := by
  obtain ⟨h, hash⟩ := Option.isSome_iff_exists.1 hash
  obtain ⟨r, mem, same⟩ := assembleRange_receipt of hash
  have stored : (inserts chunks lo hi spec upstream known).receipts =
      (assembled chunks spec upstream known lo hi).receipts := inserts_storedIn.receipts
  have there : t.hash ∈ (inserts chunks lo hi spec upstream known).receipts.map
      SyncTransactionReceipt.transactionHash := by
    rw [stored, hash_of_truthy hash, ← hash_of_truthy same]
    exact List.mem_map.2 ⟨r, mem, rfl⟩
  have one := List.count_eq_one_of_mem inserts_receipt_hashes there
  unfold OneReceipt
  rw [List.count_eq_countP, List.countP_map] at one
  refine (List.countP_congr fun r _ => ?_).trans one
  simp

theorem inserts_block {b : SyncBlockHeader}
    (mem : b ∈ (assembled chunks spec upstream known lo hi).blocks ++
      (assembled chunks spec upstream known lo hi).traces.map TraceRow.block) :
    ∃ b' ∈ (inserts chunks lo hi spec upstream known).blocks, headerNumber b' = headerNumber b := by
  obtain ⟨b', mem', same⟩ := inserts_storedIn.blocks b mem
  exact ⟨b', mem', congrArg hexToNumber same⟩

theorem inserts_tx {tx : SyncTransaction}
    (mem : tx ∈ (assembled chunks spec upstream known lo hi).txs ++
      (assembled chunks spec upstream known lo hi).traces.filterMap StashEntry.traceTx) :
    ∃ tx' ∈ (inserts chunks lo hi spec upstream known).txs, tx'.hash = tx.hash :=
  inserts_storedIn.txs tx mem

/-! ## The references of the rows -/

theorem headerAt_of_blockOf {bn : Nat} {hdr : RawHeader}
    (of : BlockOf chunks lo hi spec known bn hdr) : HeaderAt chunks bn hdr := by
  rcases of with ⟨cd, raw, log⟩ | ⟨-, cd, inChunks, found, -⟩ |
    ⟨t, -, cd, inChunks, tb, found, -, -, same, -⟩
  · exact ⟨cd, log.chunk, .inl log.header⟩
  · exact ⟨cd, inChunks, .inr (.inl found)⟩
  · exact ⟨cd, inChunks, .inr (.inr (.inl ⟨tb, found, same⟩))⟩

section Numbered

variable (numbered : ∀ cd ∈ chunks, cd.Numbered)
include numbered

theorem inserts_of_get {bn : Nat}
    (here : ((sourceRows chunks lo hi spec known).blocksByNumber.get? bn).isSome) :
    ∃ b ∈ (inserts chunks lo hi spec upstream known).blocks, headerNumber b = bn := by
  obtain ⟨b, mem, rfl⟩ : ∃ b ∈ (assembled chunks spec upstream known lo hi).blocks,
    headerNumber b = bn := block_of_get numbered here
  exact inserts_block (List.mem_append_left _ mem)

theorem inserts_trace_block {bn : Nat} {tb : TraceBlock} {t : RawTrace}
    (kept : KeptTrace upstream spec known chunks lo hi bn tb t) :
    ∃ b ∈ (inserts chunks lo hi spec upstream known).blocks, headerNumber b = bn := by
  obtain ⟨m, mem, -, header⟩ := exists_matchedTraces kept
  obtain ⟨cd, inChunks, found⟩ := kept.chunk
  have inTraces : m.row.block ∈ (assembled chunks spec upstream known lo hi).traces.map
      TraceRow.block := List.mem_map.2 ⟨m.row, List.mem_map.2 ⟨m, mem, rfl⟩, rfl⟩
  obtain ⟨b, there, same⟩ := inserts_block (List.mem_append_right _ inTraces)
  refine ⟨b, there, same.trans ((block_of_matched mem).trans ?_)⟩
  unfold MatchedTrace.number
  rw [header]
  exact (numbered cd inChunks).traceBlocks bn tb found

/-- The closest block is the highest of those that are inserted. -/
theorem closest_eq : closest chunks lo hi spec upstream known = firstMax headerNumber
    ((assembled chunks spec upstream known lo hi).blocks ++
      (assembled chunks spec upstream known lo hi).traces.map TraceRow.block) := by
  have candidates : closestCandidates chunks spec upstream known lo hi =
      ((assembled chunks spec upstream known lo hi).blocks ++
        (assembled chunks spec upstream known lo hi).traces.map TraceRow.block).map
          fun b => (headerNumber b, b) := by
    have entries : (sourceRows chunks lo hi spec known).blocksByNumber.entries =
        (assembled chunks spec upstream known lo hi).blocks.map fun b => (headerNumber b, b) := by
      show _ = (List.map Prod.snd _).map _
      rw [List.map_map]
      exact (List.map_id _).symm.trans
        (List.map_congr_left fun e mem => Prod.ext (entries_number numbered mem).symm rfl)
    unfold closestCandidates
    rw [entries, List.map_append]
    refine congrArg _ ?_
    show _ = ((List.map MatchedTrace.row _).map TraceRow.block).map _
    rw [List.map_map, List.map_map]
    rfl
  show (assembled chunks spec upstream known lo hi).closest = _
  rw [assembled_closest, candidates, firstMax_map, Option.map_map]
  exact Option.map_id_apply

theorem headerAt_of_mem {b : SyncBlockHeader}
    (mem : b ∈ (assembled chunks spec upstream known lo hi).blocks ++
      (assembled chunks spec upstream known lo hi).traces.map TraceRow.block) :
    ∃ hdr, HeaderAt chunks (headerNumber b) hdr ∧ b = toSyncBlockHeader hdr := by
  rcases List.mem_append.1 mem with mem | mem
  · obtain ⟨e, entry, rfl⟩ := List.mem_map.1 mem
    obtain ⟨hdr, of, same⟩ := sourceRows_from.blocks e.1 e.2 (OrdMap.get?_of_mem _ entry)
    rw [entries_number numbered entry]
    exact ⟨hdr, headerAt_of_blockOf of, same⟩
  · obtain ⟨row, inTraces, rfl⟩ := List.mem_map.1 mem
    obtain ⟨m, matched, rfl⟩ := List.mem_map.1 inTraces
    obtain ⟨bn, tb, raw, kept, -, header⟩ := mem_matchedTraces matched
    obtain ⟨cd, inChunks, found⟩ := kept.chunk
    have number : m.number = bn := by
      unfold MatchedTrace.number
      rw [header]
      exact (numbered cd inChunks).traceBlocks bn tb found
    rw [block_of_matched matched, number]
    exact ⟨m.header, ⟨cd, inChunks, .inr (.inr (.inr ⟨tb, found, header.symm⟩))⟩,
      (matchedTraces_carries matched).block⟩

/-- Nothing that an inserted row refers to is missing. -/
theorem inserts_consistent : Consistent chunks lo hi spec upstream known
    (inserts chunks lo hi spec upstream known) (closest chunks lo hi spec upstream known) where
  log_block _ _ _ _ log := inserts_of_get numbered (sourceRows_log log)
  trace_block _ _ _ kept := inserts_trace_block numbered kept
  log_parent t hdr parent := by
    obtain ⟨cd, bn, raw, h, log, inTxs, hash, same⟩ := parent
    obtain ⟨tx, mem, hash', -⟩ := assembleRange_tx upstream
      (show TxOf chunks lo hi spec known t hdr from .inl ⟨cd, bn, raw, h, log, inTxs, hash, same⟩)
    obtain ⟨tx', there, is⟩ := inserts_tx (List.mem_append_left _ mem)
    rw [hash] at hash'
    exact ⟨tx', there, is.trans ((hash_of_truthy hash').trans (hash_of_truthy hash).symm)⟩
  tx_hashes := inserts_tx_hashes
  receipt_hashes := inserts_receipt_hashes
  last_none none_ := by
    rw [closest_eq numbered, firstMax_eq_none] at none_
    refine List.eq_nil_iff_forall_not_mem.2 fun b mem => ?_
    have from_ := inserts_block_of mem
    rw [none_] at from_
    cases from_
  last_top b is b' mem := by
    rw [closest_eq numbered] at is
    exact (firstMax_spec is).1 b' (inserts_block_of mem)

/-- What an interval stores is referentially complete, each hash comes once, and the returned block
is the highest. -/
theorem inserts_referential : ReferentialByHash chunks lo hi spec upstream known
    (inserts chunks lo hi spec upstream known) (closest chunks lo hi spec upstream known) where
  toConsistent := inserts_consistent numbered
  tx_block _ _ _ account only := inserts_of_get numbered (account_block account only)
  trace_tx t hdr parent hash := by
    obtain ⟨bn, tb, raw, kept, isParent, header⟩ := parent
    obtain ⟨m, mem, parent, -⟩ := exists_matchedTraces kept
    have full := (matchedTraces_carries mem).transaction t (parent.trans isParent)
    have isTx : StashEntry.traceTx m.row = some (toSyncTransaction t m.header) := by
      unfold StashEntry.traceTx
      rw [full]
      exact if_pos hash
    obtain ⟨tx, there, is⟩ := inserts_tx (List.mem_append_right _
      (List.mem_filterMap.2 ⟨m.row, List.mem_map.2 ⟨m, mem, rfl⟩, isTx⟩))
    exact ⟨tx, there, is⟩
  receipts _ _ of hash := inserts_receipt of hash
  last_number b is := by
    rw [closest_eq numbered] at is
    exact inserts_block (mem_fiber.1 (List.mem_of_mem_head? (firstMax_spec is).2)).1
  last_mem b is one := by
    rw [closest_eq numbered] at is
    have mem := (mem_fiber.1 (List.mem_of_mem_head? (firstMax_spec is).2)).1
    obtain ⟨b', there, same⟩ := inserts_block mem
    obtain ⟨hdr, at_, rfl⟩ := headerAt_of_mem numbered mem
    obtain ⟨hdr', at', rfl⟩ := headerAt_of_mem numbered (inserts_block_of there)
    rw [same] at at'
    rw [one hdr hdr' at_ at']
    exact there

end Numbered

end Inserts

/-! ### A log, its transaction and another one -/

theorem inserts_referential_sample :
    ReferentialByHash [eventChunk] 4 9 eventSpec noMatching (fun _ => OrdMap.empty)
        (inserts [eventChunk] 4 9 eventSpec noMatching fun _ => OrdMap.empty)
        (closest [eventChunk] 4 9 eventSpec noMatching fun _ => OrdMap.empty) ∧
      (inserts [eventChunk] 4 9 eventSpec noMatching fun _ => OrdMap.empty).blocks.map
        SyncBlockHeader.number = ["0x5", "0x7"] := by
  have numbered : ∀ cd ∈ [eventChunk], cd.Numbered := fun cd mem => by
    rw [List.mem_singleton.1 mem]
    exact ((fetchedBy_createChunkData eventSpec).merged eventStreams).toNumbered
  exact ⟨inserts_referential numbered, by decide +kernel⟩

/-! ### Where a hash does not tell transactions apart -/

/-- Account transactions, each with the number of its block. -/
def accountChunk (txs : List (Nat × RawTx)) : ChunkData :=
  txs.foldl (fun cd e => mergeTxs cd ⟨eventHeader e.1, [], [e.2], []⟩) createChunkData

def hashlessTx : RawTx := ⟨some 0, none, some "0xcc", none, .undefined, []⟩

def eventCall : RawTrace := ⟨some 0, some [], some "call", [], [], []⟩

/-- A log filter and a filter of all traces. -/
def callSpec : Spec String := compileFetchSpec [
  .log ⟨.oneOf ["0xaa"], none, none, none, none, none, none⟩ false,
  .trace ⟨.any, .any, none, none, false, none, none⟩]

/-- Two streams deliver block 5 with different headers. -/
def twoHeaders : ChunkData :=
  mergeTraces
    (mergeLogs createChunkData ⟨eventHeader 5, [⟨"0xaa", none, none, some "0xf5", some 0, some 0⟩], [], []⟩)
    ⟨{ eventHeader 5 with timestamp := 61 }, [], [hashlessTx], [eventCall]⟩

def allMatching : TraceMatching String where
  isTraceFilterMatched _ _ _ := true
  isTransferFilterMatched _ _ _ := true
  trace_call _ _ _ _ _ := rfl
  transfer_call _ _ _ _ _ := rfl

def noChildren : Children String Address := fun _ => OrdMap.empty

def callBlock : TraceBlock := ⟨{ eventHeader 5 with timestamp := 61 }, [eventCall], [hashlessTx]⟩

def callRank : RankedTrace := ⟨(parityToCallFrame eventCall 0).get (by decide +kernel), 0, []⟩

def callTrace : MatchedTrace :=
  (matchedRow callSpec allMatching noChildren 5 callBlock (some 0) callRank).get (by decide +kernel)

theorem twoHeaders_traces :
    matchedTraces [twoHeaders] 5 5 callSpec allMatching noChildren = [callTrace] := by
  have ranked : rankTraces [eventCall] = [callRank] := by
    unfold rankTraces sortTraces
    rw [List.mergeSort_singleton]
    decide +kernel
  have block : blockTraces callSpec allMatching noChildren 5 callBlock = [callTrace] := by
    show ([some 0].flatMap fun k => (rankTraces [eventCall]).filterMap
      (matchedRow callSpec allMatching noChildren 5 callBlock k)) = _
    rw [ranked]
    rfl
  show ([(5, callBlock)].flatMap fun e => blockTraces callSpec allMatching noChildren e.1 e.2) ++ [] = _
  rw [List.flatMap_singleton, block]
  rfl

/-- A transaction without a hash has no receipt; one whose hash was seen in another block leaves its
block out; and where two streams deliver different headers, the returned row is not the inserted. -/
theorem references_without_hash :
    ¬ Referential [accountChunk [(5, hashlessTx)]] 5 5 eventSpec noMatching noChildren
      (inserts [accountChunk [(5, hashlessTx)]] 5 5 eventSpec noMatching noChildren)
      (closest [accountChunk [(5, hashlessTx)]] 5 5 eventSpec noMatching noChildren) ∧
    ¬ Referential [accountChunk [(5, eventTx "0xf5"), (6, eventTx "0xf5")]] 5 6 eventSpec noMatching
      noChildren
      (inserts [accountChunk [(5, eventTx "0xf5"), (6, eventTx "0xf5")]] 5 6 eventSpec noMatching
        noChildren)
      (closest [accountChunk [(5, eventTx "0xf5"), (6, eventTx "0xf5")]] 5 6 eventSpec noMatching
        noChildren) ∧
    ¬ Referential [twoHeaders] 5 5 callSpec allMatching noChildren
      (inserts [twoHeaders] 5 5 callSpec allMatching noChildren)
      (closest [twoHeaders] 5 5 callSpec allMatching noChildren) := by
  refine ⟨fun all => ?_, fun all => ?_, fun all => ?_⟩
  · have account : AccountTx [accountChunk [(5, hashlessTx)]] 5 5 eventSpec noChildren 5 hashlessTx
        (eventHeader 5) :=
      ⟨rfl, _, List.mem_singleton_self _, ⟨eventHeader 5, [hashlessTx]⟩, rfl, Nat.le_refl 5,
        Nat.le_refl 5, rfl, List.mem_singleton_self _, by decide +kernel⟩
    have one := all.receipts hashlessTx (eventHeader 5) (.inl (.inr ⟨5, account⟩))
    exact absurd one (by unfold OneReceipt; decide +kernel)
  · have account : AccountTx [accountChunk [(5, eventTx "0xf5"), (6, eventTx "0xf5")]] 5 6 eventSpec
        noChildren 6 (eventTx "0xf5") (eventHeader 6) :=
      ⟨rfl, _, List.mem_singleton_self _, ⟨eventHeader 6, [eventTx "0xf5"]⟩, rfl, by decide,
        Nat.le_refl 6, rfl, List.mem_singleton_self _, by decide +kernel⟩
    have block := all.tx_block 6 (eventTx "0xf5") (eventHeader 6) account
    exact absurd block (by decide +kernel)
  · have mem := all.last_mem (toSyncBlockHeader (eventHeader 5)) (by
      unfold closest assembleRange
      rw [twoHeaders_traces]
      decide +kernel)
    refine absurd mem ?_
    unfold inserts assembleRange
    rw [twoHeaders_traces]
    decide +kernel

end PortalPonder.Assembly
