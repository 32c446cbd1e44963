import PortalPonder.Lib.LeastMap
import PortalPonder.Lib.Readable

/-!
# Children against the store

The store takes a child again each time it is inserted, so a flush is first compared with what the
store has: factories that are one row of the store are taken together, and a child is inserted if
it is absent or was created strictly before. `dedupe_least` says what the store then reads back.

A store is any state with the two calls of upstream's `syncStore`; what is assumed of them are the
laws of `SyncStore`.
-/

namespace PortalPonder.ChildDedupe

open JSON (Written)
open LeastMap

/-! ## Factories -/

/-- A value of a factory's member. -/
inductive FactoryValue where
  | text (us : List Nat)
  | number (n : Nat)
  | texts (items : List (List Nat))
  deriving DecidableEq, Repr

def FactoryValue.toJson : FactoryValue → JSON.Value
  | .text us => .str us
  | .number n => JSON.ofNat n
  | .texts items => .arr (items.map JSON.Value.str)

/-- A factory, as an object: its members in their order, `none` for `undefined`. -/
structure Factory where
  members : List (List Nat × Option FactoryValue)
  distinct : (members.map Prod.fst).Nodup

/-- Members that the store does not see. -/
def isAlias (key : List Nat) : Bool := key = JSON.units "id" || key = JSON.units "sourceId"

/-- The members that are left, sorted by key. -/
def Factory.rest (f : Factory) : List (List Nat × FactoryValue) :=
  (f.members.insertionSort fun a b => a.1 ≤ b.1).filterMap fun m =>
    if isAlias m.1 then none else m.2.map fun v => (m.1, v)

def storeFactoryKey (f : Factory) : List Nat :=
  JSON.stringify (.obj (f.rest.map fun m => (m.1, m.2.toJson)))

theorem toJson_written (v : FactoryValue) : Written v.toJson := by
  cases v with
  | text us => trivial
  | number n =>
      refine ⟨?_, fun c mem => JSON.isNumericUnit_digit ?_⟩
      · intro empty
        have pos : 0 < (Nat.toDigits 10 n).length := Nat.length_toDigits_pos
        rw [empty] at pos
        exact absurd pos (Nat.lt_irrefl 0)
      · exact Nat.isDigit_of_mem_toDigits (by decide) (by decide) mem
  | texts items =>
      show JSON.ItemsWritten (items.map JSON.Value.str)
      induction items with
      | nil => trivial
      | cons us rest ih => exact ⟨trivial, ih⟩

theorem toJson_injective {v w : FactoryValue} (same : v.toJson = w.toJson) : v = w := by
  cases v with
  | text us =>
      cases w with
      | text us' => exact congrArg FactoryValue.text (JSON.Value.str.inj same)
      | number n => cases same
      | texts items => cases same
  | number n =>
      cases w with
      | text us' => cases same
      | number n' =>
          have digits : Nat.toDigits 10 n = Nat.toDigits 10 n' := JSON.Value.num.inj same
          rw [JSON.toDigits_injective digits]
      | texts items => cases same
  | texts items =>
      cases w with
      | text us' => cases same
      | number n => cases same
      | texts items' =>
          have units := JSON.Value.arr.inj same
          rw [List.map_inj_right fun _ _ => JSON.Value.str.inj] at units
          rw [units]

theorem rest_written (ms : List (List Nat × FactoryValue)) :
    Written (.obj (ms.map fun m => (m.1, m.2.toJson))) := by
  show JSON.MembersWritten (ms.map fun m => (m.1, m.2.toJson))
  induction ms with
  | nil => trivial
  | cons m rest ih => exact ⟨toJson_written m.2, ih⟩

/-- Two factories have one key if and only if they are one row of the store. -/
theorem storeFactoryKey_inj {f g : Factory} :
    storeFactoryKey f = storeFactoryKey g ↔ f.rest = g.rest := by
  constructor
  · intro same
    have objects := JSON.stringify_injective (rest_written f.rest) (rest_written g.rest) same
    refine List.map_injective_iff.2 ?_ (JSON.Value.obj.inj objects)
    intro m m' is
    obtain ⟨keys, values⟩ := Prod.mk.inj is
    exact Prod.ext keys (toJson_injective values)
  · intro same
    unfold storeFactoryKey
    rw [same]

/-- What is left of a member. -/
def keptMember (m : List Nat × Option FactoryValue) : Option (List Nat × FactoryValue) :=
  if isAlias m.1 then none else m.2.map fun v => (m.1, v)

theorem keptMember_key {m : List Nat × Option FactoryValue} {k : List Nat × FactoryValue}
    (kept : keptMember m = some k) : k.1 = m.1 := by
  unfold keptMember at kept
  split at kept
  · cases kept
  · obtain ⟨v, -, rfl⟩ := Option.map_eq_some_iff.1 kept
    rfl

theorem filterMap_keptMember (ms : List (List Nat × Option FactoryValue)) :
    ms.filterMap keptMember = (ms.filter fun m => !isAlias m.1).filterMap keptMember := by
  rw [List.filterMap_filter]
  refine List.filterMap_congr fun m _ => ?_
  unfold keptMember
  cases isAlias m.1 <;> rfl

theorem rest_perm (f : Factory) : f.rest.Perm (f.members.filterMap keptMember) :=
  (List.perm_insertionSort _ f.members).filterMap keptMember

theorem rest_sorted (f : Factory) : f.rest.Pairwise fun a b => a.1 < b.1 := by
  have total : Std.Total fun a b : List Nat × Option FactoryValue => a.1 ≤ b.1 :=
    ⟨fun a b => le_total a.1 b.1⟩
  have trans : IsTrans (List Nat × Option FactoryValue) fun a b => a.1 ≤ b.1 :=
    ⟨fun a b c => le_trans⟩
  have sorted : (f.members.insertionSort fun a b => a.1 ≤ b.1).Pairwise fun a b => a.1 ≤ b.1 :=
    List.pairwise_insertionSort _ f.members
  have distinct : (f.members.insertionSort fun a b => a.1 ≤ b.1).Pairwise fun a b => a.1 ≠ b.1 :=
    List.pairwise_map.1 (((List.perm_insertionSort _ f.members).map Prod.fst).nodup_iff.2 f.distinct)
  refine List.Pairwise.filterMap keptMember ?_ (sorted.and distinct)
  intro a b order k isK l isL
  rw [keptMember_key isK, keptMember_key isL]
  exact lt_of_le_of_ne order.1 order.2

/-- The order of the members and the aliased ones do not matter. -/
theorem rest_eq_of_perm {f g : Factory}
    (perm : (f.members.filter fun m => !isAlias m.1).Perm (g.members.filter fun m => !isAlias m.1)) :
    f.rest = g.rest := by
  refine List.Perm.eq_of_pairwise ?_ (rest_sorted f) (rest_sorted g) ?_
  · intro a b _ _ lt gt
    exact absurd (lt_trans lt gt) (lt_irrefl _)
  · refine (rest_perm f).trans (List.Perm.trans ?_ (rest_perm g).symm)
    rw [filterMap_keptMember f.members, filterMap_keptMember g.members]
    exact perm.filterMap keptMember

/-! ## The store -/

/-- A row of the children. -/
structure ChildRow where
  factory : List (List Nat × FactoryValue)
  address : String
  block : Nat
  deriving DecidableEq, Repr

/-- A store as upstream treats it: the factory of a row is the value without its aliased members,
`getChildAddresses` gives the least block of each stored text, and `insertChildAddresses` adds rows
to those there are. -/
structure SyncStore (σ : Type) where
  rows : σ → List ChildRow
  getChildAddresses : σ → Factory → OrdMap String Nat
  insertChildAddresses : σ → Factory → OrdMap String Nat → σ
  reads : ∀ s f a, value (getChildAddresses s f) a =
    least (((rows s).filter fun r => r.factory = f.rest).map fun r => (r.address, r.block)) a
  inserts : ∀ s f children, (rows (insertChildAddresses s f children)).Perm
    (rows s ++ children.entries.map fun e => ⟨f.rest, e.1, e.2⟩)

/-! ## The comparison -/

abbrev ChildFlush := List (Factory × OrdMap String Nat)

/-- The groups of a flush: a factory that stands for each key, and the least block of each child. -/
abbrev Groups := OrdMap (List Nat) (Factory × OrdMap String Nat)

def groupStep (groups : Groups) (e : Factory × OrdMap String Nat) : Groups :=
  let key := storeFactoryKey e.1
  let group := (groups.get? key).getD (e.1, OrdMap.empty)
  groups.set key (group.1, e.2.entries.foldl (fun m c => setLeast m c.1 c.2) group.2)

def groupsOf (flush : ChildFlush) : Groups := flush.foldl groupStep OrdMap.empty

/-- The least block of each address, letter case aside. -/
def foldCase (persisted : OrdMap String Nat) : OrdMap String Nat :=
  persisted.entries.foldl (fun m e => setLeast m e.1.toLower e.2) OrdMap.empty

/-- The children that are absent or strictly earlier. -/
def toInsert (children persistedLower : OrdMap String Nat) : OrdMap String Nat :=
  children.filter fun address block =>
    match persistedLower.get? address with
    | none => true
    | some prev => !decide (prev ≤ block)

def dedupeChildAddressesAgainstStore (flush : ChildFlush)
    (getChildAddresses : Factory → OrdMap String Nat) : ChildFlush :=
  (groupsOf flush).entries.filterMap fun e =>
    let inserted := toInsert e.2.2 (foldCase (getChildAddresses e.2.1))
    if inserted.entries = [] then none else some (e.2.1, inserted)

/-- The insert of `persistPendingChildren`, in one transaction with the reads. -/
def persist {σ : Type} (store : SyncStore σ) (s : σ) (flush : ChildFlush) : σ :=
  (dedupeChildAddressesAgainstStore flush (store.getChildAddresses s)).foldl
    (fun s e => store.insertChildAddresses s e.1 e.2) s

/-! ## Groups -/

/-- What a flush says of the children of one row of the store. -/
def flushedFor (flush : ChildFlush) (f : Factory) : List (String × Nat) :=
  (flush.filter fun e => e.1.rest = f.rest).flatMap fun e => e.2.entries

theorem flushedFor_concat (flush : ChildFlush) (e : Factory × OrdMap String Nat) (f : Factory) :
    flushedFor (flush ++ [e]) f =
      flushedFor flush f ++ if e.1.rest = f.rest then e.2.entries else [] := by
  unfold flushedFor
  rw [List.filter_append, List.flatMap_append]
  congr 1
  by_cases same : e.1.rest = f.rest
  · rw [List.filter_singleton, decide_eq_true same, if_pos same]
    simp
  · rw [List.filter_singleton, decide_eq_false same, if_neg same]
    simp

/-- The groups of a flush: one for each key that the flush has, with the least blocks. -/
structure Grouped (flush : ChildFlush) (groups : Groups) : Prop where
  key : ∀ k g, groups.get? k = some g → storeFactoryKey g.1 = k
  blocks : ∀ f a, least (flushedFor flush f) a =
    (groups.get? (storeFactoryKey f)).elim ⊤ fun g => value g.2 a
  children : ∀ k g, groups.get? k = some g → ∀ a, a ∈ g.2.keys →
    ∃ e ∈ flush, a ∈ e.2.keys

theorem mem_keys_foldl {m : OrdMap String Nat} {cs : List (String × Nat)} {a : String}
    (mem : a ∈ (cs.foldl (fun m c => setLeast m c.1 c.2) m).keys) :
    a ∈ m.keys ∨ a ∈ cs.map Prod.fst := by
  rw [mem_keys_iff_value, value_foldl Prod.fst Prod.snd, List.map_id'] at mem
  by_cases old : value m a = ⊤
  · rw [old, top_inf_eq] at mem
    exact .inr (mem_of_least mem)
  · exact .inl ((mem_keys_iff_value m a).2 old)

theorem Grouped.step {flush : ChildFlush} {groups : Groups} (grouped : Grouped flush groups)
    (e : Factory × OrdMap String Nat) : Grouped (flush ++ [e]) (groupStep groups e) := by
  have shared : ∀ f : Factory, storeFactoryKey f = storeFactoryKey e.1 ↔ e.1.rest = f.rest :=
    fun f => storeFactoryKey_inj.trans eq_comm
  unfold groupStep
  dsimp only
  constructor
  · intro k g found
    rw [OrdMap.get?_set] at found
    split at found
    · next same =>
        cases found
        rw [same]
        dsimp only
        cases old : groups.get? (storeFactoryKey e.1) with
        | none => rfl
        | some g => exact grouped.key _ g old
    · exact grouped.key k g found
  · intro f a
    rw [flushedFor_concat, least_append, grouped.blocks f a, OrdMap.get?_set]
    by_cases same : storeFactoryKey f = storeFactoryKey e.1
    · rw [if_pos same, if_pos ((shared f).1 same), same, Option.elim_some, value_foldl]
      congr 1
      · cases groups.get? (storeFactoryKey e.1) <;> rfl
      · rw [List.map_id']
    · rw [if_neg same, if_neg fun is => same ((shared f).2 is), least_nil, inf_top_eq]
  · intro k g found a mem
    rw [OrdMap.get?_set] at found
    split at found
    · next same =>
        cases found
        rcases mem_keys_foldl mem with old | new
        · cases there : groups.get? (storeFactoryKey e.1) with
          | none =>
              rw [there] at old
              cases old
          | some g =>
              rw [there] at old
              obtain ⟨e', inFlush, here⟩ := grouped.children _ g there a old
              exact ⟨e', List.mem_append_left _ inFlush, here⟩
        · exact ⟨e, List.mem_append_right _ (List.mem_singleton.2 rfl), new⟩
    · obtain ⟨e', inFlush, here⟩ := grouped.children k g found a mem
      exact ⟨e', List.mem_append_left _ inFlush, here⟩

theorem grouped_groupsOf (flush : ChildFlush) : Grouped flush (groupsOf flush) := by
  unfold groupsOf
  induction flush using List.reverseRecOn with
  | nil =>
      refine ⟨?_, fun _ _ => rfl, ?_⟩
      · intro k g found
        cases found
      · intro k g found
        cases found
  | append_singleton flush e ih =>
      rw [List.foldl_append]
      exact ih.step e

/-! ## What is read back -/

section Store

variable {σ : Type} {store : SyncStore σ} {s : σ}

/-- The rows of a factory, with their addresses as texts. -/
def rowsFor (rows : List ChildRow) (f : Factory) : List (String × Nat) :=
  (rows.filter fun r => r.factory = f.rest).map fun r => (r.address, r.block)

/-- The least block that the store gives an address, letter case aside. -/
def readBack (store : SyncStore σ) (s : σ) (f : Factory) (a : String) : WithTop Nat :=
  value (foldCase (store.getChildAddresses s f)) a

/-- The rows of a factory, with their addresses in lower case. -/
def loweredFor (rows : List ChildRow) (f : Factory) : List (String × Nat) :=
  (rowsFor rows f).map fun e => (e.1.toLower, e.2)

theorem readBack_eq (s : σ) (f : Factory) (a : String) :
    readBack store s f a = least (loweredFor (store.rows s) f) a := by
  unfold readBack foldCase loweredFor
  rw [value_foldl (fun e : String × Nat => e.1.toLower) Prod.snd, value_empty, top_inf_eq]
  refine least_map_congr String.toLower (fun k => ?_) a
  rw [← value_eq_least]
  exact store.reads s f k

theorem loweredFor_append (rows rows' : List ChildRow) (f : Factory) :
    loweredFor (rows ++ rows') f = loweredFor rows f ++ loweredFor rows' f := by
  unfold loweredFor rowsFor
  rw [List.filter_append, List.map_append, List.map_append]

theorem loweredFor_perm {rows rows' : List ChildRow} (perm : rows.Perm rows') (f : Factory) :
    (loweredFor rows f).Perm (loweredFor rows' f) :=
  ((perm.filter _).map _).map _

theorem mem_loweredFor {rows : List ChildRow} {f : Factory} {a : String} {n : Nat} :
    (a, n) ∈ loweredFor rows f ↔
      ∃ r ∈ rows, r.factory = f.rest ∧ r.address.toLower = a ∧ r.block = n := by
  unfold loweredFor rowsFor
  rw [List.map_map, List.mem_map]
  constructor
  · rintro ⟨r, mem, is⟩
    obtain ⟨here, factory⟩ := List.mem_filter.1 mem
    cases is
    exact ⟨r, here, of_decide_eq_true factory, rfl, rfl⟩
  · rintro ⟨r, here, factory, rfl, rfl⟩
    exact ⟨r, List.mem_filter.2 ⟨here, decide_eq_true factory⟩, rfl⟩

/-! ## One flush -/

/-- The rows of a list of inserts. -/
def insertedRows (inserts : ChildFlush) : List ChildRow :=
  inserts.flatMap fun e => e.2.entries.map fun c => ⟨e.1.rest, c.1, c.2⟩

theorem rows_foldl (inserts : ChildFlush) (s : σ) :
    (store.rows (inserts.foldl (fun s e => store.insertChildAddresses s e.1 e.2) s)).Perm
      (store.rows s ++ insertedRows inserts) := by
  induction inserts generalizing s with
  | nil =>
      rw [List.foldl_nil]
      exact List.Perm.of_eq (List.append_nil _).symm
  | cons e rest ih =>
      rw [List.foldl_cons]
      refine (ih _).trans (((store.inserts s e.1 e.2).append_right _).trans ?_)
      rw [List.append_assoc]
      rfl

/-- What a flush inserts: for each group the children that are absent or strictly earlier. -/
theorem mem_dedupe {flush : ChildFlush} {get : Factory → OrdMap String Nat}
    {e : Factory × OrdMap String Nat} :
    e ∈ dedupeChildAddressesAgainstStore flush get ↔
      ∃ g, (groupsOf flush).get? (storeFactoryKey e.1) = some g ∧ g.1 = e.1 ∧
        e.2 = toInsert g.2 (foldCase (get e.1)) ∧ e.2.entries ≠ [] := by
  unfold dedupeChildAddressesAgainstStore
  rw [List.mem_filterMap]
  constructor
  · rintro ⟨⟨k, g⟩, entry, is⟩
    have found := (groupsOf flush).get?_of_mem entry
    dsimp only at is
    split at is
    · cases is
    · next some_ =>
        cases is
        dsimp only
        rw [(grouped_groupsOf flush).key k g found]
        exact ⟨g, found, rfl, rfl, some_⟩
  · rintro ⟨g, found, same, inserted, some_⟩
    refine ⟨(_, g), (groupsOf flush).mem_of_get? found, ?_⟩
    dsimp only
    rw [same, ← inserted, if_neg some_]

theorem get?_toInsert (children persistedLower : OrdMap String Nat) (a : String) :
    (toInsert children persistedLower).get? a = (children.get? a).filter fun block : Nat =>
      decide (WithTop.some block < value persistedLower a) := by
  unfold toInsert
  rw [OrdMap.get?_filter]
  congr 1
  funext block
  unfold value
  cases persistedLower.get? a with
  | none => exact (decide_eq_true (WithTop.coe_lt_top block)).symm
  | some prev =>
      dsimp only
      rw [← decide_not]
      refine decide_eq_decide.2 ?_
      rw [not_le, WithTop.coe_lt_coe]

/-- Against what is read back it makes no difference which children were left out. -/
theorem value_toInsert (children persistedLower : OrdMap String Nat) (a : String) :
    value persistedLower a ⊓ value (toInsert children persistedLower) a =
      value persistedLower a ⊓ value children a := by
  have inserted := get?_toInsert children persistedLower a
  cases has : children.get? a with
  | none =>
      have same : value (toInsert children persistedLower) a = value children a := by
        unfold value
        rw [inserted, has]
        rfl
      rw [same]
  | some n =>
      rw [has, Option.filter_some] at inserted
      have is : value children a = WithTop.some n := by
        unfold value
        rw [has]
      by_cases earlier : WithTop.some n < value persistedLower a
      · rw [if_pos (decide_eq_true earlier)] at inserted
        have same : value (toInsert children persistedLower) a = WithTop.some n := by
          unfold value
          rw [inserted]
        rw [same, is]
      · rw [if_neg fun yes => earlier (of_decide_eq_true yes)] at inserted
        have gone : value (toInsert children persistedLower) a = ⊤ := by
          unfold value
          rw [inserted]
        rw [gone, is, inf_top_eq, inf_eq_left.2 (not_lt.1 earlier)]

/-- Discovery gives every child in lower case. -/
def Lowered (flush : ChildFlush) : Prop := ∀ e ∈ flush, ∀ a ∈ e.2.keys, a.toLower = a

/-- What the inserted rows of a factory say is what its group inserts. -/
theorem least_insertedRows {flush : ChildFlush} (lowered : Lowered flush)
    (get : Factory → OrdMap String Nat)
    (f : Factory) (a : String) :
    least (loweredFor (insertedRows (dedupeChildAddressesAgainstStore flush get)) f) a =
      ((groupsOf flush).get? (storeFactoryKey f)).elim ⊤ fun g =>
        value (toInsert g.2 (foldCase (get g.1))) a := by
  have grouped := grouped_groupsOf flush
  apply le_antisymm
  · cases found : (groupsOf flush).get? (storeFactoryKey f) with
    | none => exact le_top
    | some g =>
        rw [Option.elim_some, value_eq_least]
        refine le_least fun n mem => least_le ?_
        have same : storeFactoryKey g.1 = storeFactoryKey f := grouped.key _ g found
        have lower : a.toLower = a := by
          have child : a ∈ g.2.keys :=
            List.mem_map.2 ⟨(a, n), (List.mem_filter.1 mem).1, rfl⟩
          obtain ⟨e, inFlush, here⟩ := grouped.children _ g found a child
          exact lowered e inFlush a here
        refine mem_loweredFor.2 ⟨⟨g.1.rest, a, n⟩, ?_, storeFactoryKey_inj.1 same, lower, rfl⟩
        refine List.mem_flatMap.2 ⟨(g.1, toInsert g.2 (foldCase (get g.1))), ?_,
          List.mem_map.2 ⟨(a, n), mem, rfl⟩⟩
        exact mem_dedupe.2 ⟨g, by rw [same]; exact found, rfl, rfl, List.ne_nil_of_mem mem⟩
  · refine le_least fun n mem => ?_
    obtain ⟨r, inRows, factory, lower, rfl⟩ := mem_loweredFor.1 mem
    obtain ⟨e, inserted, row⟩ := List.mem_flatMap.1 inRows
    obtain ⟨c, entry, rfl⟩ := List.mem_map.1 row
    obtain ⟨g, found, same, is, -⟩ := mem_dedupe.1 inserted
    have child : c.1 ∈ g.2.keys := by
      rw [is] at entry
      exact List.mem_map.2 ⟨c, (List.mem_filter.1 entry).1, rfl⟩
    obtain ⟨e', inFlush, here⟩ := grouped.children _ g found c.1 child
    have key : storeFactoryKey e.1 = storeFactoryKey f := storeFactoryKey_inj.2 factory
    rw [key] at found
    rw [found, Option.elim_some, same, ← is, value_eq_least, ← lower, lowered e' inFlush c.1 here]
    exact least_le entry

/-- What is read back after a flush: the least of what was read before and what is flushed. -/
theorem readBack_persist {flush : ChildFlush} (lowered : Lowered flush) (s : σ) (f : Factory)
    (a : String) :
    readBack store (persist store s flush) f a = readBack store s f a ⊓ least (flushedFor flush f) a := by
  have grouped := grouped_groupsOf flush
  unfold persist
  rw [readBack_eq, least_perm (loweredFor_perm (rows_foldl _ s) f), loweredFor_append, least_append,
    ← readBack_eq, least_insertedRows lowered, grouped.blocks f a]
  cases found : (groupsOf flush).get? (storeFactoryKey f) with
  | none => rfl
  | some g =>
      rw [Option.elim_some, Option.elim_some]
      have alias_ : readBack store s f a = value (foldCase (store.getChildAddresses s g.1)) a := by
        have same : g.1.rest = f.rest := storeFactoryKey_inj.1 (grouped.key _ g found)
        show _ = readBack store s g.1 a
        rw [readBack_eq, readBack_eq]
        unfold loweredFor rowsFor
        rw [same]
      rw [alias_]
      exact value_toInsert _ _ _

/-- The groups of a flush are of different rows of the store. -/
theorem dedupe_pairwise (flush : ChildFlush) (get : Factory → OrdMap String Nat) :
    (dedupeChildAddressesAgainstStore flush get).Pairwise fun e e' => e.1.rest ≠ e'.1.rest := by
  have grouped := grouped_groupsOf flush
  have keys : (groupsOf flush).entries.Pairwise fun x y => x.1 ≠ y.1 :=
    List.pairwise_map.1 (groupsOf flush).nodup
  have apart : (groupsOf flush).entries.Pairwise fun x y => x.2.1.rest ≠ y.2.1.rest := by
    refine keys.imp_of_mem fun {x y} memX memY differ same => differ ?_
    rw [← grouped.key _ _ ((groupsOf flush).get?_of_mem memX),
      ← grouped.key _ _ ((groupsOf flush).get?_of_mem memY)]
    exact storeFactoryKey_inj.2 same
  unfold dedupeChildAddressesAgainstStore
  refine List.Pairwise.filterMap _ ?_ apart
  intro x y differ e isE e' isE'
  dsimp only at isE isE'
  split at isE
  · cases isE
  · cases isE
    split at isE'
    · cases isE'
    · cases isE'
      exact differ

/-- A child gets one new row at most. -/
theorem insertedRows_nodup (flush : ChildFlush) (get : Factory → OrdMap String Nat) :
    ((insertedRows (dedupeChildAddressesAgainstStore flush get)).map fun r =>
      (r.factory, r.address)).Nodup := by
  unfold insertedRows
  rw [List.map_flatMap, List.nodup_flatMap]
  constructor
  · intro e _
    rw [List.map_map]
    have same : e.2.entries.map ((fun r : ChildRow => (r.factory, r.address)) ∘
        fun c => ⟨e.1.rest, c.1, c.2⟩) = e.2.keys.map fun a => (e.1.rest, a) := by
      unfold OrdMap.keys
      rw [List.map_map]
      rfl
    rw [same]
    exact e.2.nodup.map fun a a' is => (Prod.mk.inj is).2
  · refine (dedupe_pairwise flush get).imp fun {e e'} differ => ?_
    intro pair mem mem'
    obtain ⟨r, inRows, rfl⟩ := List.mem_map.1 mem
    obtain ⟨r', inRows', is⟩ := List.mem_map.1 mem'
    obtain ⟨c, -, rfl⟩ := List.mem_map.1 inRows
    obtain ⟨c', -, rfl⟩ := List.mem_map.1 inRows'
    exact differ (Prod.mk.inj is).1.symm

/-- A flush that was persisted has nothing to insert. -/
theorem dedupe_again {flush : ChildFlush} (lowered : Lowered flush) (s : σ) :
    dedupeChildAddressesAgainstStore flush (store.getChildAddresses (persist store s flush)) = [] := by
  refine List.eq_nil_iff_forall_not_mem.2 fun e mem => ?_
  obtain ⟨g, found, -, is, some_⟩ := mem_dedupe.1 mem
  obtain ⟨⟨a, n⟩, entry⟩ := List.exists_mem_of_ne_nil _ some_
  have inserted := e.2.get?_of_mem entry
  rw [is, get?_toInsert] at inserted
  obtain ⟨child, earlier⟩ := Option.filter_eq_some_iff.1 inserted
  have below : readBack store (persist store s flush) e.1 a ≤ WithTop.some n := by
    rw [readBack_persist lowered, (grouped_groupsOf flush).blocks e.1 a, found, Option.elim_some]
    refine inf_le_right.trans ?_
    unfold value
    rw [child]
  exact absurd (of_decide_eq_true earlier) (not_lt.2 below)

end Store

/-- A flush leaves the least of what the store had and what it says: pointwise, for every row of the
factories and whatever the letter case of the store; a child gets one new row at most, the same
flush again inserts nothing, and the order of two flushes does not matter. -/
theorem dedupe_least {σ : Type} (store : SyncStore σ) (s : σ) {flush flush' : ChildFlush}
    (lowered : Lowered flush) (lowered' : Lowered flush') :
    (∀ f a, readBack store (persist store s flush) f a =
      readBack store s f a ⊓ least (flushedFor flush f) a) ∧
    (∃ rows : List ChildRow, (store.rows (persist store s flush)).Perm (store.rows s ++ rows) ∧
      (rows.map fun r => (r.factory, r.address)).Nodup) ∧
    persist store (persist store s flush) flush = persist store s flush ∧
    ∀ f a, readBack store (persist store (persist store s flush) flush') f a =
      readBack store (persist store (persist store s flush') flush) f a := by
  refine ⟨readBack_persist lowered s, ⟨_, rows_foldl _ s, insertedRows_nodup flush _⟩, ?_, ?_⟩
  · show (dedupeChildAddressesAgainstStore flush _).foldl _ _ = _
    rw [dedupe_again lowered s]
    rfl
  · intro f a
    rw [readBack_persist lowered', readBack_persist lowered, readBack_persist lowered,
      readBack_persist lowered', inf_right_comm]

/-! ## A store of rows -/

/-- The least block of each text. -/
def leastRows (rows : List (String × Nat)) : OrdMap String Nat :=
  rows.foldl (fun m e => setLeast m e.1 e.2) OrdMap.empty

/-- A list of rows is a store. -/
def rowStore : SyncStore (List ChildRow) where
  rows := id
  getChildAddresses rows f := leastRows (rowsFor rows f)
  insertChildAddresses rows f children :=
    rows ++ children.entries.map fun e => ⟨f.rest, e.1, e.2⟩
  reads := by
    intro rows f a
    unfold leastRows
    rw [value_foldl Prod.fst Prod.snd, List.map_id', value_empty, top_inf_eq]
    rfl
  inserts := fun _ _ _ => List.Perm.refl _

def sampleFactory : Factory where
  members := [(JSON.units "id", some (.text (JSON.units "a"))),
    (JSON.units "type", some (.text (JSON.units "log"))),
    (JSON.units "address", some (.texts [[0x30], [0x31]])),
    (JSON.units "fromBlock", some (.number 5)), (JSON.units "toBlock", none)]
  distinct := by decide +kernel

/-- The same factory under another source, its members in another order. -/
def sampleAlias : Factory where
  members := [(JSON.units "address", some (.texts [[0x30], [0x31]])),
    (JSON.units "fromBlock", some (.number 5)), (JSON.units "sourceId", some (.text (JSON.units "b"))),
    (JSON.units "type", some (.text (JSON.units "log")))]
  distinct := by decide +kernel

def sampleFlush : ChildFlush :=
  [(sampleFactory, leastRows [("0xab", 7), ("0xcd", 12)]), (sampleAlias, leastRows [("0xcd", 11)])]

/-- A child that the store has twice, in another letter case and at a later block. -/
def sampleRows : List ChildRow :=
  [⟨sampleFactory.rest, "0xAB", 9⟩, ⟨sampleFactory.rest, "0xAB", 9⟩]

theorem dedupe_least_sample :
    readBack rowStore (persist rowStore sampleRows sampleFlush) sampleAlias "0xab" = WithTop.some 7 ∧
      readBack rowStore (persist rowStore sampleRows sampleFlush) sampleAlias "0xcd" = WithTop.some 11 ∧
      persist rowStore (persist rowStore sampleRows sampleFlush) sampleFlush =
        persist rowStore sampleRows sampleFlush := by
  have lowered : Lowered sampleFlush := by
    unfold Lowered
    decide +kernel
  have least := dedupe_least rowStore sampleRows lowered lowered
  refine ⟨?_, ?_, least.2.2.1⟩
  · rw [least.1]
    decide +kernel
  · rw [least.1]
    decide +kernel

end PortalPonder.ChildDedupe
