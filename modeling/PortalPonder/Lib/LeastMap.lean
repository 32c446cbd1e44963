import Mathlib
import PortalPonder.Lib.OrdMap

/-!
# Maps that keep the least value

A map in which a key keeps the least number it was given. A key without a number has `⊤`, so that
what a list of entries gives a key is an infimum: it does not depend on the order of the entries,
and entries taken twice count once.
-/

namespace LeastMap

variable {κ : Type} [DecidableEq κ]

/-- The number of a key. -/
def value (m : OrdMap κ Nat) (k : κ) : WithTop Nat :=
  match m.get? k with
  | none => ⊤
  | some n => WithTop.some n

/-- Set a key unless it has a number that is no greater. -/
def setLeast (m : OrdMap κ Nat) (k : κ) (n : Nat) : OrdMap κ Nat :=
  match m.get? k with
  | none => m.set k n
  | some prev => if prev > n then m.set k n else m

/-- What a list of entries gives a key. -/
def least (es : List (κ × Nat)) (k : κ) : WithTop Nat :=
  es.foldr (fun e acc => if e.1 = k then WithTop.some e.2 ⊓ acc else acc) ⊤

@[simp] theorem least_nil (k : κ) : least [] k = ⊤ := rfl

@[simp] theorem least_cons (e : κ × Nat) (es : List (κ × Nat)) (k : κ) :
    least (e :: es) k = if e.1 = k then WithTop.some e.2 ⊓ least es k else least es k := rfl

theorem least_append (es es' : List (κ × Nat)) (k : κ) :
    least (es ++ es') k = least es k ⊓ least es' k := by
  induction es with
  | nil => rw [List.nil_append, least_nil, top_inf_eq]
  | cons e es ih =>
      rw [List.cons_append, least_cons, least_cons, ih]
      by_cases same : e.1 = k
      · rw [if_pos same, if_pos same, inf_assoc]
      · rw [if_neg same, if_neg same]

theorem least_perm {es es' : List (κ × Nat)} (perm : es.Perm es') (k : κ) :
    least es k = least es' k := by
  induction perm with
  | nil => rfl
  | cons e _ ih => rw [least_cons, least_cons, ih]
  | swap e e' es =>
      simp only [least_cons]
      by_cases first : e.1 = k
      · by_cases second : e'.1 = k
        · simp only [if_pos first, if_pos second]
          exact inf_left_comm _ _ _
        · simp only [if_pos first, if_neg second]
      · simp only [if_neg first]
  | trans _ _ first second => exact first.trans second

theorem least_le {es : List (κ × Nat)} {k : κ} {n : Nat} (mem : (k, n) ∈ es) :
    least es k ≤ WithTop.some n := by
  induction es with
  | nil => cases mem
  | cons e es ih =>
      rw [least_cons]
      rcases List.mem_cons.1 mem with rfl | later
      · rw [if_pos rfl]
        exact inf_le_left
      · by_cases same : e.1 = k
        · rw [if_pos same]
          exact inf_le_right.trans (ih later)
        · rw [if_neg same]
          exact ih later

theorem le_least {es : List (κ × Nat)} {k : κ} {b : WithTop Nat}
    (all : ∀ n, (k, n) ∈ es → b ≤ WithTop.some n) : b ≤ least es k := by
  induction es with
  | nil => exact le_top
  | cons e es ih =>
      have rest : b ≤ least es k := ih fun n mem => all n (List.mem_cons_of_mem _ mem)
      rw [least_cons]
      by_cases same : e.1 = k
      · rw [if_pos same]
        subst same
        exact le_inf (all e.2 List.mem_cons_self) rest
      · rw [if_neg same]
        exact rest

/-- A map gives a key what its entries give it. -/
theorem value_eq_least (m : OrdMap κ Nat) (k : κ) : value m k = least m.entries k := by
  apply le_antisymm
  · refine le_least fun n mem => ?_
    unfold value
    rw [m.get?_of_mem mem]
  · unfold value
    cases found : m.get? k with
    | none => exact le_top
    | some n => exact least_le (m.mem_of_get? found)

theorem mem_of_least {es : List (κ × Nat)} {k : κ} (has : least es k ≠ ⊤) :
    k ∈ es.map Prod.fst := by
  by_contra absent
  refine has (top_le_iff.1 (le_least fun n mem => ?_))
  exact absurd (List.mem_map.2 ⟨(k, n), mem, rfl⟩) absent

theorem mem_keys_iff_value (m : OrdMap κ Nat) (k : κ) : k ∈ m.keys ↔ value m k ≠ ⊤ := by
  constructor
  · intro mem
    obtain ⟨e, entry, rfl⟩ := List.mem_map.1 mem
    rw [value_eq_least]
    exact ne_top_of_le_ne_top WithTop.coe_ne_top (least_le (n := e.2) entry)
  · intro has
    rw [value_eq_least] at has
    exact mem_of_least has

@[simp] theorem value_empty (k : κ) : value (OrdMap.empty : OrdMap κ Nat) k = ⊤ := rfl

theorem value_setLeast (m : OrdMap κ Nat) (k q : κ) (n : Nat) :
    value (setLeast m k n) q = if k = q then value m q ⊓ WithTop.some n else value m q := by
  unfold setLeast
  by_cases same : k = q
  · subst same
    rw [if_pos rfl]
    cases found : m.get? k with
    | none =>
        unfold value
        rw [found]
        dsimp only
        rw [OrdMap.get?_set_self, top_inf_eq]
    | some prev =>
        unfold value
        rw [found]
        dsimp only
        by_cases above : prev > n
        · rw [if_pos above, OrdMap.get?_set_self, inf_eq_right.2 (WithTop.coe_le_coe.2 (le_of_lt above))]
        · rw [if_neg above, found, inf_eq_left.2 (WithTop.coe_le_coe.2 (not_lt.1 above))]
  · rw [if_neg same]
    unfold value
    cases m.get? k with
    | none => rw [OrdMap.get?_set_of_ne _ _ (Ne.symm same)]
    | some prev =>
        dsimp only
        by_cases above : prev > n
        · rw [if_pos above, OrdMap.get?_set_of_ne _ _ (Ne.symm same)]
        · rw [if_neg above]

/-- Entries set one after the other. -/
theorem value_foldl {α : Type} (key : α → κ) (number : α → Nat) (items : List α)
    (m : OrdMap κ Nat) (q : κ) :
    value (items.foldl (fun m a => setLeast m (key a) (number a)) m) q =
      value m q ⊓ least (items.map fun a => (key a, number a)) q := by
  induction items generalizing m with
  | nil => rw [List.foldl_nil, List.map_nil, least_nil, inf_top_eq]
  | cons a rest ih =>
      rw [List.foldl_cons, ih, value_setLeast, List.map_cons, least_cons]
      by_cases same : key a = q
      · rw [if_pos same, if_pos same, inf_assoc]
      · rw [if_neg same, if_neg same]

/-- Entries are told apart by their new keys no more than the lists were by the old ones. -/
theorem least_map_congr {ι : Type} [DecidableEq ι] {es es' : List (κ × Nat)} (g : κ → ι)
    (same : ∀ k, least es k = least es' k) (q : ι) :
    least (es.map fun e => (g e.1, e.2)) q = least (es'.map fun e => (g e.1, e.2)) q := by
  have below : ∀ (as bs : List (κ × Nat)), (∀ k, least as k = least bs k) →
      least (as.map fun e => (g e.1, e.2)) q ≤ least (bs.map fun e => (g e.1, e.2)) q := by
    intro as bs same
    refine le_least fun n mem => ?_
    obtain ⟨⟨k, n'⟩, entry, is⟩ := List.mem_map.1 mem
    cases is
    refine le_trans ?_ ((same k).trans_le (least_le entry))
    exact le_least fun n' mem' => least_le (List.mem_map.2 ⟨(k, n'), mem', rfl⟩)
  exact le_antisymm (below es es' same) (below es' es fun k => (same k).symm)

end LeastMap
