import PortalPonder.ChildDedupe

/-!
# The writers of the children

The historical sync inserts the children of its queue with an interval, and the realtime sync those
of the blocks that it finalizes. Both compare what they have with the store first, so that it does
not matter which of them comes when, or how often: a row is only added where its block is strictly
below all that was stored before.
-/

namespace PortalPonder.ChildDedupe

open LeastMap

deriving instance DecidableEq for Factory

/-- What is left of the children of the finalized blocks, as a map from factories. -/
def dedupeFinalizeChildAddresses (childAddresses : ChildFlush)
    (getChildAddresses : Factory → OrdMap String Nat) : OrdMap Factory (OrdMap String Nat) :=
  (dedupeChildAddressesAgainstStore childAddresses getChildAddresses).foldl
    (fun m e => m.set e.1 e.2) OrdMap.empty

/-- The insert of `handleRealtimeSyncEvent`, in one transaction with the reads. -/
def finalize {σ : Type} (store : SyncStore σ) (s : σ) (childAddresses : ChildFlush) : σ :=
  (dedupeFinalizeChildAddresses childAddresses (store.getChildAddresses s)).entries.foldl
    (fun s e => store.insertChildAddresses s e.1 e.2) s

inductive Writer where
  | historical
  | realtime
  deriving DecidableEq, Repr

/-- A transaction of one of the writers. -/
structure Write where
  writer : Writer
  flush : ChildFlush
  committed : Bool

section Run

variable {σ : Type} (store : SyncStore σ)

def Write.insert (s : σ) (w : Write) : σ :=
  match w.writer with
  | .historical => persist store s w.flush
  | .realtime => finalize store s w.flush

/-- A transaction that is rolled back leaves the store as it was. -/
def Write.apply (s : σ) (w : Write) : σ := if w.committed = true then w.insert store s else s

def writeAll (s : σ) (ws : List Write) : σ := ws.foldl (Write.apply store) s

/-- What the committed transactions say of the children of one row of the store. -/
def writtenFor (ws : List Write) (f : Factory) : List (String × Nat) :=
  ws.flatMap fun w => if w.committed = true then flushedFor w.flush f else []

end Run

/-! ## The writers agree -/

/-- No group is lost when the groups become a map. -/
theorem dedupeFinalizeChildAddresses_entries (flush : ChildFlush)
    (get : Factory → OrdMap String Nat) :
    (dedupeFinalizeChildAddresses flush get).entries =
      dedupeChildAddressesAgainstStore flush get :=
  OrdMap.entries_foldl_set _ _ ((dedupe_pairwise flush get).imp fun differ same =>
    differ (congrArg Factory.rest same))

section Writers

variable {σ : Type} {store : SyncStore σ} {s : σ}

/-- Both writers insert the same. -/
theorem Write.insert_eq (s : σ) (w : Write) : w.insert store s = persist store s w.flush := by
  unfold Write.insert
  cases w.writer with
  | historical => rfl
  | realtime =>
      show finalize store s w.flush = _
      unfold finalize
      rw [dedupeFinalizeChildAddresses_entries]
      rfl

theorem writeAll_append (s : σ) (ws : List Write) (w : Write) :
    writeAll store s (ws ++ [w]) = w.apply store (writeAll store s ws) := by
  unfold writeAll
  rw [List.foldl_append]
  rfl

theorem writtenFor_append (ws : List Write) (w : Write) (f : Factory) :
    writtenFor (ws ++ [w]) f =
      writtenFor ws f ++ if w.committed = true then flushedFor w.flush f else [] := by
  unfold writtenFor
  rw [List.flatMap_append]
  exact congrArg _ (List.append_nil _)

/-! ## Runs of transactions -/

/-- Every child that is flushed is in lower case. -/
def AllLowered (ws : List Write) : Prop := ∀ w ∈ ws, Lowered w.flush

theorem readBack_writeAll {ws : List Write} (lowered : AllLowered ws) (s : σ) (f : Factory)
    (a : String) :
    readBack store (writeAll store s ws) f a = readBack store s f a ⊓ least (writtenFor ws f) a := by
  induction ws using List.reverseRecOn with
  | nil => exact (inf_top_eq _).symm
  | append_singleton ws w ih =>
      have before := ih fun w' mem => lowered w' (List.mem_append_left _ mem)
      rw [writeAll_append, writtenFor_append, least_append]
      unfold Write.apply
      by_cases committed : w.committed = true
      · -- a committed transaction takes the least of what it finds and what it has
        rw [if_pos committed, if_pos committed, Write.insert_eq,
          readBack_persist (lowered w (List.mem_append_right _ List.mem_cons_self)), before,
          inf_assoc]
      · rw [if_neg committed, if_neg committed, least_nil, inf_top_eq]
        exact before

/-- The factories of one row read back the same. -/
theorem readBack_congr {f g : Factory} (same : f.rest = g.rest) (s : σ) (a : String) :
    readBack store s f a = readBack store s g a := by
  rw [readBack_eq, readBack_eq]
  unfold loweredFor rowsFor
  rw [same]

/-- A row that is inserted is strictly below what was read. -/
theorem insertedRows_below {flush : ChildFlush} {r : ChildRow}
    (mem : r ∈ insertedRows (dedupeChildAddressesAgainstStore flush (store.getChildAddresses s)))
    {f : Factory} (factory : r.factory = f.rest) :
    WithTop.some r.block < readBack store s f r.address := by
  obtain ⟨e, inserted, row⟩ := List.mem_flatMap.1 mem
  obtain ⟨c, entry, rfl⟩ := List.mem_map.1 row
  obtain ⟨g, -, -, is, -⟩ := mem_dedupe.1 inserted
  have kept := e.2.get?_of_mem entry
  rw [is, get?_toInsert] at kept
  obtain ⟨-, earlier⟩ := Option.filter_eq_some_iff.1 kept
  rw [← readBack_congr (show e.1.rest = f.rest from factory)]
  exact of_decide_eq_true earlier

/-- The children are inserted in lower case. -/
theorem insertedRows_lowered {flush : ChildFlush} (lowered : Lowered flush)
    (get : Factory → OrdMap String Nat) {r : ChildRow}
    (mem : r ∈ insertedRows (dedupeChildAddressesAgainstStore flush get)) :
    r.address.toLower = r.address := by
  obtain ⟨e, inserted, row⟩ := List.mem_flatMap.1 mem
  obtain ⟨c, entry, rfl⟩ := List.mem_map.1 row
  obtain ⟨g, found, -, is, -⟩ := mem_dedupe.1 inserted
  rw [is] at entry
  have child : c.1 ∈ g.2.keys := List.mem_map.2 ⟨c, (List.mem_filter.1 entry).1, rfl⟩
  obtain ⟨e', inFlush, here⟩ := (grouped_groupsOf flush).children _ g found c.1 child
  exact lowered e' inFlush c.1 here

/-- What is no earlier than what the store has is not inserted. -/
theorem dedupe_nothing {flush : ChildFlush}
    (known : ∀ f a, readBack store s f a ≤ least (flushedFor flush f) a) :
    dedupeChildAddressesAgainstStore flush (store.getChildAddresses s) = [] := by
  refine List.eq_nil_iff_forall_not_mem.2 fun e mem => ?_
  obtain ⟨g, found, -, is, some_⟩ := mem_dedupe.1 mem
  obtain ⟨⟨a, n⟩, entry⟩ := List.exists_mem_of_ne_nil _ some_
  have inserted := e.2.get?_of_mem entry
  rw [is, get?_toInsert] at inserted
  obtain ⟨child, earlier⟩ := Option.filter_eq_some_iff.1 inserted
  have below : readBack store s e.1 a ≤ WithTop.some n := by
    refine (known e.1 a).trans ?_
    rw [(grouped_groupsOf flush).blocks e.1 a, found, Option.elim_some]
    unfold value
    rw [child]
  exact absurd (of_decide_eq_true earlier) (not_lt.2 below)

/-- The rows that a run of transactions adds, in their order. -/
def addedRows (store : SyncStore σ) : σ → List Write → List ChildRow
  | _, [] => []
  | s, w :: ws =>
      (if w.committed = true then
        insertedRows (dedupeChildAddressesAgainstStore w.flush (store.getChildAddresses s)) else []) ++
        addedRows store (w.apply store s) ws

theorem rows_writeAll (s : σ) (ws : List Write) :
    (store.rows (writeAll store s ws)).Perm (store.rows s ++ addedRows store s ws) := by
  induction ws generalizing s with
  | nil => exact List.Perm.of_eq (List.append_nil _).symm
  | cons w ws ih =>
      show (store.rows (writeAll store (w.apply store s) ws)).Perm _
      refine (ih _).trans ?_
      rw [addedRows, ← List.append_assoc]
      refine List.Perm.append_right _ ?_
      unfold Write.apply
      by_cases committed : w.committed = true
      · rw [if_pos committed, if_pos committed, Write.insert_eq]
        exact rows_foldl _ s
      · rw [if_neg committed, if_neg committed]
        exact List.Perm.of_eq (List.append_nil _).symm

/-- A row that is added is strictly below what was read at the start. -/
theorem addedRows_below {ws : List Write} (lowered : AllLowered ws) {r : ChildRow}
    (mem : r ∈ addedRows store s ws) {f : Factory} (factory : r.factory = f.rest) :
    WithTop.some r.block < readBack store s f r.address := by
  induction ws generalizing s with
  | nil => cases mem
  | cons w ws ih =>
      have rest : AllLowered ws := fun w' later => lowered w' (List.mem_cons_of_mem w later)
      rw [addedRows] at mem
      rcases List.mem_append.1 mem with now | later
      · split at now
        · exact insertedRows_below now factory
        · cases now
      · refine lt_of_lt_of_le (ih rest later) ?_
        unfold Write.apply
        split
        · rw [Write.insert_eq, readBack_persist (lowered w List.mem_cons_self)]
          exact inf_le_left
        · exact le_refl _

/-- What is inserted is read back. -/
theorem readBack_le_inserted {flush : ChildFlush} (lowered : Lowered flush) {r : ChildRow}
    (mem : r ∈ insertedRows (dedupeChildAddressesAgainstStore flush (store.getChildAddresses s)))
    {f : Factory} (factory : r.factory = f.rest) :
    readBack store (persist store s flush) f r.address ≤ WithTop.some r.block := by
  rw [readBack_eq]
  refine least_le (mem_loweredFor.2 ⟨r, ?_, factory, insertedRows_lowered lowered _ mem, rfl⟩)
  exact (rows_foldl _ s).mem_iff.2 (List.mem_append_right _ mem)

/-- The blocks of a child only get lower. -/
theorem addedRows_descend {ws : List Write} (lowered : AllLowered ws) (s : σ) :
    (addedRows store s ws).Pairwise fun r r' =>
      r.factory = r'.factory → r.address = r'.address → r'.block < r.block := by
  induction ws generalizing s with
  | nil => exact List.Pairwise.nil
  | cons w ws ih =>
      have rest : AllLowered ws := fun w' later => lowered w' (List.mem_cons_of_mem w later)
      rw [addedRows]
      by_cases committed : w.committed = true
      · rw [if_pos committed]
        refine List.pairwise_append.2 ⟨?_, ih rest _, fun r now r' later factory address => ?_⟩
        · -- a transaction adds one row for a child at most
          refine (List.pairwise_map.1 (insertedRows_nodup w.flush _)).imp ?_
          intro r r' differ factory address
          exact absurd (Prod.ext factory address) differ
        · obtain ⟨e, inserted, row⟩ := List.mem_flatMap.1 now
          obtain ⟨c, entry, rfl⟩ := List.mem_map.1 row
          have below := addedRows_below (f := e.1) rest later factory.symm
          have stored := readBack_le_inserted (f := e.1) (lowered w List.mem_cons_self) now rfl
          unfold Write.apply at below
          rw [if_pos committed, Write.insert_eq, ← address] at below
          exact WithTop.coe_lt_coe.1 (lt_of_lt_of_le below stored)
      · rw [if_neg committed]
        exact ih rest _

/-- Transactions that have nothing earlier than the store leave it as it is. -/
theorem writeAll_nothing {ws : List Write}
    (known : ∀ f a, readBack store s f a ≤ least (writtenFor ws f) a) :
    writeAll store s ws = s := by
  induction ws with
  | nil => rfl
  | cons w ws ih =>
      have split : ∀ f a, readBack store s f a ≤
          least (if w.committed = true then flushedFor w.flush f else []) a ⊓
            least (writtenFor ws f) a := by
        intro f a
        rw [← least_append]
        exact known f a
      have first : w.apply store s = s := by
        unfold Write.apply
        by_cases committed : w.committed = true
        · rw [if_pos committed, Write.insert_eq]
          show (dedupeChildAddressesAgainstStore w.flush _).foldl _ _ = _
          rw [dedupe_nothing fun f a => ?_]
          · rfl
          · have le := (split f a).trans inf_le_left
            rw [if_pos committed] at le
            exact le
        · rw [if_neg committed]
      show writeAll store (w.apply store s) ws = s
      rw [first]
      exact ih fun f a => (split f a).trans inf_le_right

end Writers

/-- For every run of transactions of both writers, committed or rolled back: the store reads back
the least of what it had and what was committed; the rows that are added for one child get strictly
lower, and lie strictly below what the store had; and writers that come again with what was
committed add nothing. -/
theorem writers_idempotent {σ : Type} (store : SyncStore σ) (s : σ) {ws : List Write}
    (lowered : AllLowered ws) :
    (∀ f a, readBack store (writeAll store s ws) f a =
      readBack store s f a ⊓ least (writtenFor ws f) a) ∧
    (∃ rows : List ChildRow, (store.rows (writeAll store s ws)).Perm (store.rows s ++ rows) ∧
      rows.Pairwise (fun r r' => r.factory = r'.factory → r.address = r'.address →
        r'.block < r.block) ∧
      ∀ r ∈ rows, ∀ f : Factory, r.factory = f.rest →
        WithTop.some r.block < readBack store s f r.address) ∧
    ∀ again : List Write, (∀ f, writtenFor again f ⊆ writtenFor ws f) →
      writeAll store (writeAll store s ws) again = writeAll store s ws := by
  refine ⟨readBack_writeAll lowered s, ⟨_, rows_writeAll s ws, addedRows_descend lowered s,
    fun r mem f factory => addedRows_below lowered mem factory⟩, fun again repeated => ?_⟩
  refine writeAll_nothing fun f a => ?_
  rw [readBack_writeAll lowered]
  refine inf_le_right.trans (le_least fun n mem => ?_)
  exact least_le (repeated f mem)

/-- The historical sync inserts a child, the realtime sync finds it again and finds another one
earlier, and then both come again. -/
def sampleWrites : List Write :=
  [⟨.historical, sampleFlush, true⟩, ⟨.realtime, [(sampleAlias, leastRows [("0xcd", 3)])], false⟩,
    ⟨.realtime, [(sampleAlias, leastRows [("0xab", 7), ("0xcd", 5)])], true⟩]

theorem writers_idempotent_sample :
    readBack rowStore (writeAll rowStore sampleRows sampleWrites) sampleFactory "0xcd" =
        WithTop.some 5 ∧
      writeAll rowStore (writeAll rowStore sampleRows sampleWrites) sampleWrites =
        writeAll rowStore sampleRows sampleWrites := by
  have lowered : AllLowered sampleWrites := by
    unfold AllLowered Lowered
    decide +kernel
  have all := writers_idempotent rowStore sampleRows lowered
  refine ⟨?_, all.2.2 sampleWrites fun f => List.Subset.refl _⟩
  rw [all.1]
  decide +kernel

end PortalPonder.ChildDedupe
