import PortalPonder.Assembly.TraceRows

/-!
# The stash of an interval

`syncBlockRangeData` inserts the logs of an interval and stashes its other rows; `syncBlockData`
takes them out and inserts them, the blocks and transactions of the traces among them. It inserts
nothing when there is no block, and then there is no other row either.
-/

namespace PortalPonder.Assembly

open Historical (Children)

variable {F : Type}

structure StashEntry where
  blocks : List SyncBlockHeader
  txs : List SyncTransaction
  receipts : List SyncTransactionReceipt
  traces : List TraceRow
  closest : Option SyncBlockHeader

def AssembledRange.stash (range : AssembledRange) : StashEntry where
  blocks := range.blocks
  txs := range.txs
  receipts := range.receipts
  traces := range.traces
  closest := range.closest

/-- The rows that are inserted into the store. -/
structure StoreRows where
  blocks : List SyncBlockHeader
  txs : List SyncTransaction
  receipts : List SyncTransactionReceipt
  traces : List TraceRow

namespace StashEntry

def blocksByNumber (s : StashEntry) : OrdMap Hex SyncBlockHeader :=
  (s.blocks ++ s.traces.map TraceRow.block).foldl (fun blocks b => blocks.set b.number b) OrdMap.empty

/-- The transaction of a trace, if it has a hash. -/
def traceTx (t : TraceRow) : Option SyncTransaction :=
  match t.transaction with
  | .full tx => if (truthy tx.hash).isSome then some tx else none
  | .indexOnly _ => none

def txsByHash (s : StashEntry) : OrdMap (Option Hash) SyncTransaction :=
  (s.txs ++ s.traces.filterMap traceTx).foldl (fun txs tx => txs.set tx.hash tx) OrdMap.empty

/-- What `syncBlockData` inserts of an entry. -/
def storeRows (s : StashEntry) : StoreRows :=
  if s.blocksByNumber.entries.isEmpty then { blocks := [], txs := [], receipts := [], traces := [] }
  else
    { blocks := s.blocksByNumber.entries.map Prod.snd
      txs := s.txsByHash.entries.map Prod.snd
      receipts := s.receipts
      traces := s.traces }

/-- Every row of the entry is inserted, a block by its number and a transaction by its hash. -/
structure StoredIn (s : StashEntry) (rows : StoreRows) : Prop where
  blocks : ∀ b ∈ s.blocks ++ s.traces.map TraceRow.block, ∃ b' ∈ rows.blocks, b'.number = b.number
  txs : ∀ tx ∈ s.txs ++ s.traces.filterMap traceTx, ∃ tx' ∈ rows.txs, tx'.hash = tx.hash
  receipts : rows.receipts = s.receipts
  traces : rows.traces = s.traces

end StashEntry

/-- A map that is filled by a key of its values has a value for the key of every item. -/
theorem collect_has {κ α : Type} [DecidableEq κ] (key : α → κ) (items : List α) :
    ∀ a ∈ items, ∃ b ∈ (items.foldl (fun m a => m.set (key a) a)
      (OrdMap.empty : OrdMap κ α)).entries.map Prod.snd, key b = key a := by
  have keyed : ∀ k b, (items.foldl (fun m a => m.set (key a) a)
      (OrdMap.empty : OrdMap κ α)).get? k = some b → key b = k := by
    refine Folds.foldl_keeps (fun m : OrdMap κ α => ∀ k b, m.get? k = some b → key b = k)
      (fun m a _ keyed k b found => ?_) fun _ _ found => by cases found
    rw [OrdMap.get?_set] at found
    split at found
    · next same =>
        cases found
        exact same.symm
    · exact keyed k b found
  intro a mem
  have present : ((items.foldl (fun m a => m.set (key a) a)
      (OrdMap.empty : OrdMap κ α)).get? (key a)).isSome := by
    refine Folds.foldl_does (fun _ => True) (fun a (m : OrdMap κ α) => (m.get? (key a)).isSome)
      (fun _ _ _ _ => trivial) (fun m a _ _ => ?_) (fun m a b _ has => ?_) trivial a mem
    · rw [OrdMap.get?_set_self]
      rfl
    · rw [OrdMap.get?_set]
      split
      · rfl
      · exact has
  obtain ⟨b, found⟩ := Option.isSome_iff_exists.1 present
  exact ⟨b, List.mem_map.2 ⟨(key a, b), OrdMap.mem_of_get? _ found, rfl⟩, keyed (key a) b found⟩

/-- Without a block and a trace there is no row. -/
theorem no_rows {chunks : List ChunkData} {lo hi : Nat} {spec : Spec F}
    {upstream : TraceMatching F} {known : Children F Address}
    (noBlocks : (assembleRange chunks (lo, hi) spec upstream known).blocks = [])
    (noTraces : (assembleRange chunks (lo, hi) spec upstream known).traces = []) :
    (assembleRange chunks (lo, hi) spec upstream known).txs = [] ∧
      (assembleRange chunks (lo, hi) spec upstream known).receipts = [] := by
  have noLog : ¬ ∃ cd bn hdr raw, KeptLog chunks lo hi spec known cd bn hdr raw :=
    fun log => blocks_ne_nil.2 (.inl log) noBlocks
  have noAccount : ¬ ∃ bn t hdr, AccountTx chunks lo hi spec known bn t hdr :=
    fun account => blocks_ne_nil.2 (.inr (.inr account)) noBlocks
  have noTrace : ¬ ∃ bn tb t, KeptTrace upstream spec known chunks lo hi bn tb t :=
    fun trace => traces_ne_nil.2 trace noTraces
  constructor
  · by_contra some_
    obtain ⟨t, hdr, ⟨cd, bn, raw, _, log, _⟩ | ⟨bn, account⟩⟩ := txs_ne_nil.1 some_
    · exact noLog ⟨cd, bn, hdr, raw, log⟩
    · exact noAccount ⟨bn, t, hdr, account⟩
  · by_contra some_
    obtain ⟨t, hdr, of, _⟩ := receipts_ne_nil.1 some_
    rcases of with (⟨_, cd, bn, raw, _, log, _⟩ | ⟨bn, account⟩) | ⟨_, bn, tb, raw, trace, _⟩
    · exact noLog ⟨cd, bn, hdr, raw, log⟩
    · exact noAccount ⟨bn, t, hdr, account⟩
    · exact noTrace ⟨bn, tb, raw, trace⟩

/-- Nothing that assembly stashes is left out. -/
theorem stash_storedIn (chunks : List ChunkData) (lo hi : Nat) (spec : Spec F)
    (upstream : TraceMatching F) (known : Children F Address) :
    (assembleRange chunks (lo, hi) spec upstream known).stash.StoredIn
      (assembleRange chunks (lo, hi) spec upstream known).stash.storeRows := by
  let range := assembleRange chunks (lo, hi) spec upstream known
  show range.stash.StoredIn range.stash.storeRows
  unfold StashEntry.storeRows
  split
  · next empty =>
      -- every block and every trace would be in the map
      have none_ : range.stash.blocks ++ range.stash.traces.map TraceRow.block = [] := by
        refine List.eq_nil_iff_forall_not_mem.2 fun b mem => ?_
        obtain ⟨_, there, _⟩ := collect_has SyncBlockHeader.number _ b mem
        have noEntries := List.isEmpty_iff.1 empty
        unfold StashEntry.blocksByNumber at noEntries
        rw [noEntries] at there
        cases there
      obtain ⟨noBlocks, noTraces⟩ := List.append_eq_nil_iff.1 none_
      have noTraces : range.stash.traces = [] := List.map_eq_nil_iff.1 noTraces
      obtain ⟨noTxs, noReceipts⟩ := no_rows noBlocks noTraces
      have noTxs : range.stash.txs = [] := noTxs
      refine ⟨fun b mem => ?_, fun tx mem => ?_, noReceipts.symm, noTraces.symm⟩
      · rw [none_] at mem
        cases mem
      · rw [noTxs, noTraces] at mem
        cases mem
  · exact ⟨collect_has SyncBlockHeader.number _, collect_has SyncTransaction.hash _, rfl, rfl⟩

end PortalPonder.Assembly
