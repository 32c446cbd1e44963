import Mathlib.Data.Finmap

/-!
# Lists in the order of their keys

A list whose keys ascend strictly is a map laid out in order. Two such lists are joined by one walk
that always takes the smaller head, and what the walk meets is told by lookups in the two maps. A
cursor resumes such a list: the entries behind the key of the last one taken are the rest.
-/

namespace Keyed

variable {α κ : Type} {key : α → κ}

/-! ## Maps -/

section

variable [DecidableEq κ]

variable (key) in
/-- The entry of each key. -/
def toMap (as : List α) : Finmap (fun _ : κ => α) :=
  (as.map fun a => (⟨key a, a⟩ : Sigma fun _ : κ => α)).toFinmap

theorem lookup_cons (k : κ) (a : α) (as : List α) :
    (toMap key (a :: as)).lookup k = if k = key a then some a else (toMap key as).lookup k := by
  unfold toMap
  rw [List.map_cons, Finmap.toFinmap_cons]
  by_cases same : k = key a
  · subst same
    rw [Finmap.lookup_insert, if_pos rfl]
  · rw [Finmap.lookup_insert_of_ne _ same, if_neg same]

@[simp] theorem lookup_nil (k : κ) : (toMap key []).lookup k = none := rfl

theorem lookup_absent {k : κ} {as : List α} (absent : ∀ a ∈ as, k ≠ key a) :
    (toMap key as).lookup k = none := by
  induction as with
  | nil => rfl
  | cons a rest ih =>
      rw [lookup_cons, if_neg (absent a List.mem_cons_self)]
      exact ih fun b mem => absent b (List.mem_cons_of_mem a mem)

theorem lookup_some {as : List α} (unique : (as.map key).Nodup) {k : κ} {a : α} :
    (toMap key as).lookup k = some a ↔ a ∈ as ∧ key a = k := by
  induction as with
  | nil => simp
  | cons b rest ih =>
      rw [List.map_cons, List.nodup_cons] at unique
      rw [lookup_cons]
      by_cases same : k = key b
      · rw [if_pos same, Option.some.injEq]
        constructor
        · rintro rfl
          exact ⟨List.mem_cons_self, same.symm⟩
        · rintro ⟨mem, at_⟩
          rcases List.mem_cons.1 mem with rfl | later
          · rfl
          · exact absurd (List.mem_map.2 ⟨a, later, at_.trans same⟩) unique.1
      · rw [if_neg same, ih unique.2]
        constructor
        · rintro ⟨mem, at_⟩
          exact ⟨List.mem_cons_of_mem b mem, at_⟩
        · rintro ⟨mem, at_⟩
          rcases List.mem_cons.1 mem with rfl | later
          · exact absurd at_.symm same
          · exact ⟨later, at_⟩

theorem lookup_self {as : List α} (unique : (as.map key).Nodup) {a : α} (mem : a ∈ as) :
    (toMap key as).lookup (key a) = some a := (lookup_some unique).2 ⟨mem, rfl⟩

/-- The map does not tell in which order the list was. -/
theorem toMap_perm {as bs : List α} (unique : (as.map key).Nodup) (perm : as.Perm bs) :
    toMap key as = toMap key bs := by
  have unique' : (bs.map key).Nodup := (perm.map key).nodup_iff.1 unique
  apply Finmap.ext_lookup
  intro k
  ext a
  rw [lookup_some unique, lookup_some unique', perm.mem_iff]

theorem keys_toMap (as : List α) : (toMap key as).keys = (as.map key).toFinset := by
  ext k
  rw [Finmap.mem_keys, toMap, Finmap.mem_list_toFinmap, List.mem_toFinset, List.mem_map]
  constructor
  · rintro ⟨a, mem⟩
    obtain ⟨b, there, eq⟩ := List.mem_map.1 mem
    cases eq
    exact ⟨a, there, rfl⟩
  · rintro ⟨a, mem, rfl⟩
    exact ⟨a, List.mem_map.2 ⟨a, mem, rfl⟩⟩

/-- Keys are counted by counting entries. -/
theorem card_keys_filter {as : List α} (unique : (as.map key).Nodup) (p : κ → Prop)
    [DecidablePred p] :
    ((toMap key as).keys.filter p).card = as.countP fun a => p (key a) := by
  have listed : (as.map key).toFinset.filter p = ((as.map key).filter fun k => p k).toFinset := by
    ext k
    simp
  rw [keys_toMap, listed, List.toFinset_card_of_nodup (unique.filter _),
    ← List.countP_eq_length_filter, List.countP_map]
  rfl

variable (key) in
/-- An entry of the left list with the one of the right list that has its key. -/
def paired (bs : List α) (a : α) : Option (α × α) :=
  ((toMap key bs).lookup (key a)).map fun b => (a, b)

theorem mem_keys_lookup {as : List α} {k : κ} :
    k ∈ (toMap key as).keys ↔ ((toMap key as).lookup k).isSome = true := by
  rw [Finmap.mem_keys, Finmap.lookup_isSome]

/-- Keys of the left map only. -/
theorem card_sdiff {as : List α} (unique : (as.map key).Nodup) (bs : List α) :
    ((toMap key as).keys \ (toMap key bs).keys).card =
      (as.filter fun a => ((toMap key bs).lookup (key a)).isNone).length := by
  rw [Finset.sdiff_eq_filter, card_keys_filter unique, List.countP_eq_length_filter]
  congr 1
  apply List.filter_congr
  intro a _
  simp only [mem_keys_lookup]
  cases (toMap key bs).lookup (key a) <;> rfl

/-- Keys of both maps. -/
theorem card_inter {as : List α} (unique : (as.map key).Nodup) (bs : List α) :
    ((toMap key as).keys ∩ (toMap key bs).keys).card = (as.filterMap (paired key bs)).length := by
  rw [← Finset.filter_mem_eq_inter, card_keys_filter unique, List.length_filterMap_eq_countP]
  apply List.countP_congr
  intro a _
  simp [mem_keys_lookup, paired]

end

/-! ## Order -/

variable [LinearOrder κ]

variable (key) in
def Ascending (as : List α) : Prop := as.Pairwise fun a b => key a < key b

theorem Ascending.tail {a : α} {as : List α} (asc : Ascending key (a :: as)) : Ascending key as :=
  (List.pairwise_cons.1 asc).2

theorem Ascending.below {a : α} {as : List α} (asc : Ascending key (a :: as)) :
    ∀ b ∈ as, key a < key b := (List.pairwise_cons.1 asc).1

theorem Ascending.nodup {as : List α} (asc : Ascending key as) : (as.map key).Nodup := by
  rw [List.Nodup, List.pairwise_map]
  exact asc.imp fun lt => ne_of_lt lt

/-- Behind the last entry of a first part stands the rest. -/
theorem Ascending.after {as page rest : List α} {last : α} (asc : Ascending key as)
    (split : as = page ++ rest) (tail : page.getLast? = some last) {behind : α → Bool}
    (is : ∀ a, behind a = true ↔ key last < key a) : as.filter behind = rest := by
  obtain ⟨front, rfl⟩ := List.getLast?_eq_some_iff.1 tail
  subst split
  obtain ⟨taken, _, apart⟩ := List.pairwise_append.1 asc
  have before : ∀ a ∈ front ++ [last], ¬ key last < key a := by
    intro a mem
    rcases List.mem_append.1 mem with early | at_
    · exact not_lt.2 (le_of_lt ((List.pairwise_append.1 taken).2.2 a early last (by simp)))
    · rw [List.mem_singleton.1 at_]
      exact lt_irrefl _
  rw [List.filter_append, List.filter_eq_nil_iff.2, List.nil_append, List.filter_eq_self.2]
  · intro a mem
    exact (is a).2 (apart last (by simp) a mem)
  · intro a mem yes
    exact before a mem ((is a).1 yes)

/-! ## The join -/

variable [DecidableEq κ]

/-- What one turn of the walk meets. -/
inductive Meeting (α : Type) where
  | left (a : α)
  | right (b : α)
  | both (a b : α)
  deriving DecidableEq

namespace Meeting

def left? : Meeting α → Option α
  | .left a => some a
  | _ => none

def right? : Meeting α → Option α
  | .right b => some b
  | _ => none

def both? : Meeting α → Option (α × α)
  | .both a b => some (a, b)
  | _ => none

end Meeting

variable (key) in
def join : List α → List α → List (Meeting α)
  | [], bs => bs.map .right
  | a :: as, [] => (a :: as).map .left
  | a :: as, b :: bs =>
      if key a < key b then .left a :: join as (b :: bs)
      else if key b < key a then .right b :: join (a :: as) bs
      else .both a b :: join as bs

theorem lookup_below {k : κ} {as : List α} (below : ∀ a ∈ as, k < key a) :
    (toMap key as).lookup k = none := lookup_absent fun a mem => ne_of_lt (below a mem)

/-- A head that is smaller than every key of the other list is not found there. -/
theorem Ascending.lookup_smaller {k : κ} {b : α} {bs : List α} (asc : Ascending key (b :: bs))
    (lt : k < key b) : (toMap key (b :: bs)).lookup k = none := by
  apply lookup_below
  intro c mem
  rcases List.mem_cons.1 mem with rfl | later
  · exact lt
  · exact lt.trans (asc.below c later)

/-- A key that is passed does not matter to the lookups that are left. -/
theorem Ascending.lookup_passed {b c : α} {cs bs : List α} (asc : Ascending key (c :: cs))
    (lt : key b < key c) : ∀ a ∈ c :: cs,
      (toMap key (b :: bs)).lookup (key a) = (toMap key bs).lookup (key a) := by
  intro a mem
  have later : key b < key a := by
    rcases List.mem_cons.1 mem with rfl | behind
    · exact lt
    · exact lt.trans (asc.below a behind)
  rw [lookup_cons, if_neg (ne_of_gt later)]

theorem Ascending.lookup_passed_tail {b c : α} {cs bs : List α} (asc : Ascending key (c :: cs))
    (eq : key b = key c) : ∀ a ∈ cs,
      (toMap key (b :: bs)).lookup (key a) = (toMap key bs).lookup (key a) := by
  intro a mem
  have later : key b < key a := eq ▸ asc.below a mem
  rw [lookup_cons, if_neg (ne_of_gt later)]

theorem join_left {as bs : List α} (ascA : Ascending key as) (ascB : Ascending key bs) :
    (join key as bs).filterMap Meeting.left? =
      as.filter fun a => ((toMap key bs).lookup (key a)).isNone := by
  fun_induction join key as bs with
  | case1 bs => simp [List.filterMap_map, Meeting.left?, Function.comp_def]
  | case2 a as => simp [List.filterMap_map, Meeting.left?, Function.comp_def]
  | case3 a as b bs lt ih =>
      have head : Meeting.left? (.left a) = some a := rfl
      rw [List.filterMap_cons_some head, ih ascA.tail ascB, List.filter_cons_of_pos]
      rw [ascB.lookup_smaller lt, Option.isNone_none]
  | case4 a as b bs _ gt ih =>
      rw [List.filterMap_cons_none rfl, ih ascA ascB.tail]
      apply List.filter_congr
      intro c mem
      rw [ascA.lookup_passed gt c mem]
  | case5 a as b bs notLt notGt ih =>
      have same : key b = key a := le_antisymm (not_lt.1 notLt) (not_lt.1 notGt)
      rw [List.filterMap_cons_none rfl, ih ascA.tail ascB.tail, List.filter_cons_of_neg]
      · apply List.filter_congr
        intro c mem
        rw [ascA.lookup_passed_tail same c mem]
      · rw [lookup_cons, if_pos same.symm]
        simp

theorem join_right {as bs : List α} (ascA : Ascending key as) (ascB : Ascending key bs) :
    (join key as bs).filterMap Meeting.right? =
      bs.filter fun b => ((toMap key as).lookup (key b)).isNone := by
  fun_induction join key as bs with
  | case1 bs => simp [List.filterMap_map, Meeting.right?, Function.comp_def]
  | case2 a as => simp [Meeting.right?]
  | case3 a as b bs lt ih =>
      rw [List.filterMap_cons_none rfl, ih ascA.tail ascB]
      apply List.filter_congr
      intro c mem
      rw [ascB.lookup_passed lt c mem]
  | case4 a as b bs _ gt ih =>
      have head : Meeting.right? (.right b) = some b := rfl
      rw [List.filterMap_cons_some head, ih ascA ascB.tail, List.filter_cons_of_pos]
      rw [ascA.lookup_smaller gt, Option.isNone_none]
  | case5 a as b bs notLt notGt ih =>
      have same : key a = key b := le_antisymm (not_lt.1 notGt) (not_lt.1 notLt)
      rw [List.filterMap_cons_none rfl, ih ascA.tail ascB.tail, List.filter_cons_of_neg]
      · apply List.filter_congr
        intro c mem
        rw [ascB.lookup_passed_tail same c mem]
      · rw [lookup_cons, if_pos same.symm]
        simp

theorem join_both {as bs : List α} (ascA : Ascending key as) (ascB : Ascending key bs) :
    (join key as bs).filterMap Meeting.both? = as.filterMap (paired key bs) := by
  fun_induction join key as bs with
  | case1 bs => simp [Meeting.both?]
  | case2 a as =>
      have alone : ∀ cs : List α, cs.filterMap (paired key []) = [] := by
        intro cs
        simp [paired]
      have unmet : ∀ cs : List α, (cs.map Meeting.left).filterMap Meeting.both? = [] := by
        intro cs
        simp [Meeting.both?]
      rw [unmet, alone]
  | case3 a as b bs lt ih =>
      rw [List.filterMap_cons_none rfl, ih ascA.tail ascB, List.filterMap_cons_none]
      rw [paired, ascB.lookup_smaller lt, Option.map_none]
  | case4 a as b bs _ gt ih =>
      rw [List.filterMap_cons_none rfl, ih ascA ascB.tail]
      apply List.filterMap_congr
      intro c mem
      rw [paired, paired, ascA.lookup_passed gt c mem]
  | case5 a as b bs notLt notGt ih =>
      have same : key b = key a := le_antisymm (not_lt.1 notLt) (not_lt.1 notGt)
      have head : Meeting.both? (.both a b) = some (a, b) := rfl
      have found : paired key (b :: bs) a = some (a, b) := by
        rw [paired, lookup_cons, if_pos same.symm, Option.map_some]
      rw [List.filterMap_cons_some head, ih ascA.tail ascB.tail, List.filterMap_cons_some found]
      congr 1
      apply List.filterMap_congr
      intro c mem
      rw [paired, paired, ascA.lookup_passed_tail same c mem]

end Keyed
