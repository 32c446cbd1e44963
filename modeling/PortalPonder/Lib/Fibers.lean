import Mathlib.Data.List.Basic
import Mathlib.Data.List.Nodup
import Mathlib.Data.List.Induction
import Mathlib.Data.List.Perm.Basic

/-!
# Rows by their keys

The fiber of a list at a key is its items with that key, in their order. Lists with the same fibers
are the same up to order, and a loop whose items change only what belongs to their key is, seen at a
key, the loop over the fiber. Rows that are collected for an interval of keys are local if their
fiber at a key of the interval does not depend on the interval; such rows can be collected piece by
piece.
-/

namespace Fibers

section Fiber

variable {α β κ σ : Type} [DecidableEq κ]

/-- The items with a key. -/
def fiber (key : α → κ) (k : κ) (items : List α) : List α := items.filter fun a => key a = k

variable {key : α → κ} {k : κ}

@[simp] theorem fiber_nil : fiber key k [] = [] := rfl

@[simp] theorem fiber_append (xs ys : List α) :
    fiber key k (xs ++ ys) = fiber key k xs ++ fiber key k ys := List.filter_append xs ys

theorem fiber_cons (a : α) (items : List α) : fiber key k (a :: items) =
    if key a = k then a :: fiber key k items else fiber key k items := by
  unfold fiber
  rw [List.filter_cons]
  simp only [decide_eq_true_eq]

@[simp] theorem mem_fiber {items : List α} {a : α} :
    a ∈ fiber key k items ↔ a ∈ items ∧ key a = k := by
  unfold fiber
  rw [List.mem_filter, decide_eq_true_eq]

theorem fiber_flatMap (items : List β) (f : β → List α) :
    fiber key k (items.flatMap f) = items.flatMap fun b => fiber key k (f b) := List.filter_flatMap

theorem fiber_map (items : List β) (f : β → α) :
    fiber key k (items.map f) = (fiber (key ∘ f) k items).map f := List.filter_map

/-- All items have the key. -/
theorem fiber_eq_self {items : List α} (all : ∀ a ∈ items, key a = k) :
    fiber key k items = items :=
  List.filter_eq_self.2 fun a mem => decide_eq_true (all a mem)

/-- No item has the key. -/
theorem fiber_eq_nil {items : List α} (none_ : ∀ a ∈ items, key a ≠ k) : fiber key k items = [] :=
  List.filter_eq_nil_iff.2 fun a mem is => none_ a mem (of_decide_eq_true is)

/-- Items that all have one key are the fiber there, and no other fiber has any. -/
theorem fiber_of_key {items : List α} {j : κ} (all : ∀ a ∈ items, key a = j) :
    fiber key k items = if j = k then items else [] := by
  split
  · next same => exact fiber_eq_self fun a mem => (all a mem).trans same
  · next other => exact fiber_eq_nil fun a mem is => other ((all a mem).symm.trans is)

/-- The only item with a key. -/
theorem fiber_eq_singleton {items : List α} {a : α} (nodup : items.Nodup) (mem : a ∈ items)
    (unique : ∀ b ∈ items, key b = key a → b = a) : fiber key (key a) items = [a] := by
  refine List.perm_singleton.1 ((List.perm_ext_iff_of_nodup (nodup.filter _)
    (List.nodup_singleton a)).2 fun b => ?_)
  rw [List.mem_singleton]
  refine mem_fiber.trans ⟨fun ⟨mem, same⟩ => unique b mem same, ?_⟩
  rintro rfl
  exact ⟨mem, rfl⟩

/-- The fibers are a list, up to the order of its keys. -/
theorem perm_of_fiber (key : α → κ) {xs ys : List α} (same : ∀ k, fiber key k xs = fiber key k ys) :
    xs.Perm ys := by
  classical
  refine List.perm_iff_count.2 fun a => ?_
  have inFiber : ∀ items : List α, List.count a (fiber key (key a) items) = List.count a items :=
    fun items => List.count_filter (decide_eq_true rfl)
  rw [← inFiber xs, ← inFiber ys, same]

theorem flatMap_unique {keys : List κ} (nodup : keys.Nodup) (j : κ) (xs : List α) :
    (keys.flatMap fun k => if k = j then xs else []) = if j ∈ keys then xs else [] := by
  induction keys with
  | nil => rfl
  | cons k rest ih =>
      obtain ⟨new, nodup⟩ := List.nodup_cons.1 nodup
      rw [List.flatMap_cons, ih nodup]
      by_cases same : k = j
      · subst same
        rw [if_pos rfl, if_neg new, if_pos List.mem_cons_self, List.append_nil]
      · rw [if_neg same, List.nil_append]
        exact if_congr (by simp [Ne.symm same]) rfl rfl

/-- The fibers at the keys of a list are the list, up to order. -/
theorem perm_flatMap_fiber {keys : List κ} {items : List α} (nodup : keys.Nodup)
    (covered : ∀ a ∈ items, key a ∈ keys) :
    (keys.flatMap fun k => fiber key k items).Perm items := by
  refine perm_of_fiber key fun j => ?_
  have one : ∀ k, fiber key j (fiber key k items) = if k = j then fiber key j items else [] := by
    intro k
    rw [fiber_of_key fun a mem => (mem_fiber.1 mem).2]
    split
    · next same => rw [same]
    · rfl
  rw [fiber_flatMap]
  simp only [one]
  rw [flatMap_unique nodup]
  split
  · rfl
  · next absent =>
      refine (fiber_eq_nil fun a mem same => absent ?_).symm
      rw [← same]
      exact covered a mem

theorem eq_nil_of_fiber {xs : List α} (none_ : ∀ k, fiber key k xs = []) : xs = [] :=
  List.perm_nil.1 (perm_of_fiber key fun k => (none_ k).trans fiber_nil.symm)

/-- Seen at a key, a loop is the loop over the fiber. -/
theorem foldl_fiber {step : σ → α → σ} {Alike : σ → σ → Prop} {items : List α}
    (here : ∀ s t, ∀ a ∈ items, key a = k → Alike s t → Alike (step s a) (step t a))
    (apart : ∀ s t, ∀ a ∈ items, key a ≠ k → Alike s t → Alike (step s a) t) {s t : σ}
    (start : Alike s t) : Alike (items.foldl step s) ((fiber key k items).foldl step t) := by
  induction items generalizing s t with
  | nil => exact start
  | cons a rest ih =>
      have ih := @ih (fun s t b mem => here s t b (List.mem_cons_of_mem a mem))
        (fun s t b mem => apart s t b (List.mem_cons_of_mem a mem))
      rw [fiber_cons]
      by_cases same : key a = k
      · rw [if_pos same]
        exact ih (here s t a List.mem_cons_self same start)
      · rw [if_neg same]
        exact ih (apart s t a List.mem_cons_self same start)

/-- Two loops over the same list. -/
theorem foldl_alike {step : σ → α → σ} {Alike : σ → σ → Prop} {items : List α}
    (alike : ∀ s t, ∀ a ∈ items, Alike s t → Alike (step s a) (step t a)) {s t : σ}
    (start : Alike s t) : Alike (items.foldl step s) (items.foldl step t) := by
  induction items generalizing s t with
  | nil => exact start
  | cons a rest ih =>
      exact ih (fun s t b mem => alike s t b (List.mem_cons_of_mem a mem))
        (alike s t a List.mem_cons_self start)

end Fiber

/-! ## The first of the highest items -/

section FirstMax

variable {α : Type} {key : α → Nat}

/-- An item is taken if it is higher than the one before. -/
def firstMax (key : α → Nat) (items : List α) : Option α :=
  items.foldl (fun best a => if best.all fun b => key b < key a then some a else best) none

theorem firstMax_concat (items : List α) (a : α) :
    firstMax key (items ++ [a]) =
      if (firstMax key items).all fun b => key b < key a then some a else firstMax key items := by
  unfold firstMax
  rw [List.foldl_append]
  rfl

theorem firstMax_map {β : Type} {keyOf : β → Nat} (f : α → β) (items : List α) :
    firstMax keyOf (items.map f) = (firstMax (keyOf ∘ f) items).map f := by
  induction items using List.reverseRecOn with
  | nil => rfl
  | append_singleton items a ih =>
      rw [List.map_append, List.map_singleton, firstMax_concat, firstMax_concat, ih]
      cases firstMax (keyOf ∘ f) items with
      | none => rfl
      | some b =>
          simp only [Option.map_some, Option.all_some, Function.comp_apply]
          split
          · rfl
          · rfl

theorem firstMax_eq_none {items : List α} : firstMax key items = none ↔ items = [] := by
  induction items using List.reverseRecOn with
  | nil => exact iff_of_true rfl rfl
  | append_singleton items a ih =>
      rw [firstMax_concat]
      refine iff_of_false ?_ (by simp)
      split
      · simp
      · next lower =>
          intro none_
          rw [none_] at lower
          exact lower rfl

/-- It is the first item at its key, and no key is higher. -/
theorem firstMax_spec {items : List α} {e : α} (is : firstMax key items = some e) :
    (∀ a ∈ items, key a ≤ key e) ∧ (fiber key (key e) items).head? = some e := by
  induction items using List.reverseRecOn generalizing e with
  | nil => cases is
  | append_singleton items a ih =>
      rw [firstMax_concat] at is
      rw [fiber_append]
      split at is
      · next higher =>
          cases is
          cases before : firstMax key items with
          | none =>
              rw [firstMax_eq_none.1 before]
              simp [fiber]
          | some b =>
              rw [before] at higher
              have higher : key b < key a := of_decide_eq_true higher
              obtain ⟨top, -⟩ := ih before
              have absent : fiber key (key a) items = [] := fiber_eq_nil fun c mem same => by
                have := top c mem
                omega
              rw [absent]
              refine ⟨fun c mem => ?_, by simp [fiber]⟩
              rcases List.mem_append.1 mem with old | new
              · have := top c old
                omega
              · exact Nat.le_of_eq (congrArg key (List.mem_singleton.1 new))
      · next lower =>
          obtain ⟨top, first⟩ := ih is
          rw [is] at lower
          have lower : ¬ key e < key a := fun less => lower (decide_eq_true less)
          refine ⟨fun c mem => ?_, ?_⟩
          · rcases List.mem_append.1 mem with old | new
            · exact top c old
            · rw [List.mem_singleton.1 new]
              omega
          · rw [List.head?_append, first]
            rfl

theorem firstMax_eq_some {items : List α} {e : α} : firstMax key items = some e ↔
    (∀ a ∈ items, key a ≤ key e) ∧ (fiber key (key e) items).head? = some e := by
  refine ⟨firstMax_spec, fun ⟨top, first⟩ => ?_⟩
  have mem : e ∈ items := (mem_fiber.1 (List.mem_of_mem_head? first)).1
  cases is : firstMax key items with
  | none =>
      rw [firstMax_eq_none.1 is] at mem
      cases mem
  | some e' =>
      obtain ⟨top', first'⟩ := firstMax_spec is
      have mem' : e' ∈ items := (mem_fiber.1 (List.mem_of_mem_head? first')).1
      have same : key e' = key e := Nat.le_antisymm (top e' mem') (top' e mem)
      rw [same, first] at first'
      exact first'.symm

theorem firstMax_congr {xs ys : List α} (same : ∀ k, fiber key k xs = fiber key k ys) :
    firstMax key xs = firstMax key ys := by
  have perm := perm_of_fiber key same
  cases is : firstMax key xs with
  | none =>
      rw [firstMax_eq_none.1 is] at perm
      exact (firstMax_eq_none.2 (List.nil_perm.1 perm)).symm
  | some e =>
      obtain ⟨top, first⟩ := firstMax_spec is
      refine (firstMax_eq_some.2 ⟨fun a mem => top a (perm.mem_iff.2 mem), ?_⟩).symm
      rw [← same]
      exact first

end FirstMax

/-! ## Rows that stand for items -/

section Pairing

variable {α β γ : Type} {Stands : α → β → Prop}

/-- The rows stand for the items, one for each, in whatever order. -/
def Pairing (Stands : α → β → Prop) (items : List α) (rows : List β) : Prop :=
  ∃ ordered, ordered.Perm items ∧ List.Forall₂ Stands ordered rows

namespace Pairing

theorem nil : Pairing Stands [] [] := ⟨[], .refl _, .nil⟩

theorem perm_left {items others : List α} {rows : List β} (pairing : Pairing Stands items rows)
    (perm : items.Perm others) : Pairing Stands others rows := by
  obtain ⟨ordered, same, pairs⟩ := pairing
  exact ⟨ordered, same.trans perm, pairs⟩

theorem perm_right {items : List α} {rows others : List β} (pairing : Pairing Stands items rows)
    (perm : rows.Perm others) : Pairing Stands items others := by
  obtain ⟨ordered, same, pairs⟩ := pairing
  obtain ⟨again, pairs', perm'⟩ := List.perm_comp_forall₂ perm.symm pairs.flip
  exact ⟨again, perm'.trans same, pairs'.flip⟩

theorem append {items items' : List α} {rows rows' : List β} (first : Pairing Stands items rows)
    (second : Pairing Stands items' rows') : Pairing Stands (items ++ items') (rows ++ rows') := by
  obtain ⟨ordered, same, pairs⟩ := first
  obtain ⟨ordered', same', pairs'⟩ := second
  exact ⟨ordered ++ ordered', same.append same', List.rel_append pairs pairs'⟩

theorem flatMap {sources : List γ} {items : γ → List α} {rows : γ → List β}
    (each : ∀ c ∈ sources, Pairing Stands (items c) (rows c)) :
    Pairing Stands (sources.flatMap items) (sources.flatMap rows) := by
  induction sources with
  | nil => exact nil
  | cons c rest ih =>
      rw [List.flatMap_cons, List.flatMap_cons]
      exact (each c List.mem_cons_self).append (ih fun d mem => each d (List.mem_cons_of_mem c mem))

theorem map {γ δ : Type} {items : List α} {rows : List β} {Other : γ → δ → Prop} {f : α → γ}
    {g : β → δ} (pairing : Pairing Stands items rows) (stands : ∀ a b, Stands a b → Other (f a) (g b)) :
    Pairing Other (items.map f) (rows.map g) := by
  obtain ⟨ordered, same, pairs⟩ := pairing
  exact ⟨ordered.map f, same.map f,
    List.forall₂_map_left_iff.2 (List.forall₂_map_right_iff.2 (pairs.imp stands))⟩

/-- A numbered list of which some items give a row. -/
theorem zipIdx {keep : α → Bool} {row : α × Nat → Option β} {items : List α}
    (kept : ∀ a ∈ items, ∀ i, keep a = true → ∃ b, row (a, i) = some b ∧ Stands a b)
    (left : ∀ a ∈ items, ∀ i, keep a = false → row (a, i) = none) (start : Nat) :
    List.Forall₂ Stands (items.filter keep) ((items.zipIdx start).filterMap row) := by
  induction items generalizing start with
  | nil => exact .nil
  | cons a rest ih =>
      have later := ih (fun b mem => kept b (List.mem_cons_of_mem a mem))
        (fun b mem => left b (List.mem_cons_of_mem a mem)) (start + 1)
      rw [List.zipIdx_cons]
      cases keeps : keep a with
      | true =>
          obtain ⟨b, is, stands⟩ := kept a List.mem_cons_self start keeps
          rw [List.filter_cons_of_pos keeps, List.filterMap_cons_some is]
          exact .cons stands later
      | false =>
          rw [List.filter_cons_of_neg (by simp [keeps]),
            List.filterMap_cons_none (left a List.mem_cons_self start keeps)]
          exact later

end Pairing

end Pairing

/-! ## Rows of an interval of keys -/

section Local

variable {α : Type} {key : α → Nat} {rows : Nat → Nat → List α} {block : Nat → List α}

/-- The rows with a key of the interval are those of the key, whatever the interval. -/
def Local (key : α → Nat) (rows : Nat → Nat → List α) (block : Nat → List α) : Prop :=
  ∀ lo hi n, fiber key n (rows lo hi) = if lo ≤ n ∧ n ≤ hi then block n else []

/-- Intervals that follow each other from `lo` to `hi`. -/
def Consecutive (lo hi : Nat) : List (Nat × Nat) → Prop
  | [] => lo = hi + 1
  | part :: rest => part.1 = lo ∧ lo ≤ part.2 ∧ part.2 ≤ hi ∧ Consecutive (part.2 + 1) hi rest

namespace Local

theorem empty (rowsLocal : Local key rows block) {lo hi : Nat} (none_ : hi < lo) :
    rows lo hi = [] :=
  eq_nil_of_fiber fun n => by
    rw [rowsLocal]
    exact if_neg (by omega)

theorem key_mem (rowsLocal : Local key rows block) {lo hi : Nat} {a : α} (mem : a ∈ rows lo hi) :
    lo ≤ key a ∧ key a ≤ hi := by
  have inFiber : a ∈ fiber key (key a) (rows lo hi) := mem_fiber.2 ⟨mem, rfl⟩
  rw [rowsLocal] at inFiber
  split at inFiber
  · assumption
  · cases inFiber

theorem flatMap {β : Type} {keyOf : β → Nat} {items : Nat → Nat → List β} {at_ : Nat → List β}
    (itemsLocal : Local keyOf items at_) (f : β → List α)
    (keys : ∀ lo hi, ∀ b ∈ items lo hi, ∀ a ∈ f b, key a = keyOf b) :
    Local key (fun lo hi => (items lo hi).flatMap f) fun n => (at_ n).flatMap f := by
  intro lo hi n
  have pick : ∀ bs : List β, (∀ b ∈ bs, ∀ a ∈ f b, key a = keyOf b) →
      (bs.flatMap fun b => fiber key n (f b)) = (fiber keyOf n bs).flatMap f := by
    intro bs keys
    induction bs with
    | nil => rfl
    | cons b rest ih =>
        rw [List.flatMap_cons, fiber_of_key (keys b List.mem_cons_self), fiber_cons,
          ih fun c mem => keys c (List.mem_cons_of_mem b mem)]
        split
        · rw [List.flatMap_cons]
        · rfl
  dsimp only
  rw [fiber_flatMap, pick _ (keys lo hi), itemsLocal]
  split
  · rfl
  · rfl

/-- Rows that several sources have. -/
theorem join {γ : Type} {sources : List γ} {rowsOf : γ → Nat → Nat → List α}
    {at_ : γ → Nat → List α} (each : ∀ c ∈ sources, Local key (rowsOf c) (at_ c)) :
    Local key (fun lo hi => sources.flatMap fun c => rowsOf c lo hi)
      fun n => sources.flatMap fun c => at_ c n := by
  intro lo hi n
  dsimp only
  rw [fiber_flatMap]
  induction sources with
  | nil =>
      split
      · rfl
      · rfl
  | cons c rest ih =>
      rw [List.flatMap_cons, each c List.mem_cons_self lo hi n,
        ih fun d mem => each d (List.mem_cons_of_mem c mem)]
      split
      · rw [List.flatMap_cons]
      · rfl

theorem map {β : Type} {keyOf : β → Nat} {items : Nat → Nat → List β} {at_ : Nat → List β}
    (itemsLocal : Local keyOf items at_) {f : β → α}
    (keys : ∀ lo hi, ∀ b ∈ items lo hi, key (f b) = keyOf b) :
    Local key (fun lo hi => (items lo hi).map f) fun n => (at_ n).map f := by
  intro lo hi n
  have same : fiber (key ∘ f) n (items lo hi) = fiber keyOf n (items lo hi) :=
    List.filter_congr fun b mem => by
      rw [Function.comp_apply, keys lo hi b mem]
  dsimp only
  rw [fiber_map, same, itemsLocal]
  split
  · rfl
  · rfl

/-- Rows of two kinds. -/
theorem both {others : Nat → Nat → List α} {other : Nat → List α} (first : Local key rows block)
    (second : Local key others other) :
    Local key (fun lo hi => rows lo hi ++ others lo hi) fun n => block n ++ other n := by
  intro lo hi n
  dsimp only
  rw [fiber_append, first, second]
  split
  · rfl
  · rfl

theorem nil : Local key (fun _ _ => []) fun _ => [] := by
  intro lo hi n
  split
  · rfl
  · rfl

/-- An interval is its two parts. -/
theorem append (rowsLocal : Local key rows block) {lo m hi : Nat} (low : lo ≤ m + 1) (high : m ≤ hi) :
    (rows lo m ++ rows (m + 1) hi).Perm (rows lo hi) := by
  refine perm_of_fiber key fun n => ?_
  rw [fiber_append, rowsLocal, rowsLocal, rowsLocal]
  by_cases left : n ≤ m
  · rw [if_neg (show ¬ (m + 1 ≤ n ∧ n ≤ hi) by omega), List.append_nil]
    exact if_congr (by omega) rfl rfl
  · rw [if_neg (show ¬ (lo ≤ n ∧ n ≤ m) by omega), List.nil_append]
    exact if_congr (by omega) rfl rfl

/-- The highest row is in the right part, if there is a row in it. -/
theorem firstMax_append (rowsLocal : Local key rows block) {lo m hi : Nat} (low : lo ≤ m + 1)
    (high : m ≤ hi) : firstMax key (rows lo hi) =
      (firstMax key (rows (m + 1) hi)).or (firstMax key (rows lo m)) := by
  have whole := rowsLocal.append low high
  cases right : firstMax key (rows (m + 1) hi) with
  | some e =>
      obtain ⟨top, first⟩ := firstMax_spec right
      have here := rowsLocal.key_mem (mem_fiber.1 (List.mem_of_mem_head? first)).1
      rw [Option.some_or]
      refine firstMax_eq_some.2 ⟨fun a mem => ?_, ?_⟩
      · rcases List.mem_append.1 (whole.mem_iff.2 mem) with left | right
        · have := rowsLocal.key_mem left
          omega
        · exact top a right
      · rw [rowsLocal, if_pos here] at first
        rw [rowsLocal, if_pos (by omega)]
        exact first
  | none =>
      rw [Option.none_or]
      have none_ := firstMax_eq_none.1 right
      rw [none_, List.append_nil] at whole
      cases left : firstMax key (rows lo m) with
      | none =>
          rw [firstMax_eq_none.1 left] at whole
          exact firstMax_eq_none.2 (List.nil_perm.1 whole)
      | some e =>
          obtain ⟨top, first⟩ := firstMax_spec left
          have here := rowsLocal.key_mem (mem_fiber.1 (List.mem_of_mem_head? first)).1
          refine firstMax_eq_some.2 ⟨fun a mem => top a (whole.mem_iff.2 mem), ?_⟩
          rw [rowsLocal, if_pos here] at first
          rw [rowsLocal, if_pos (by omega)]
          exact first

/-- The rows of consecutive intervals are the rows of the whole. -/
theorem consecutive (rowsLocal : Local key rows block) {lo hi : Nat} {parts : List (Nat × Nat)}
    (split : Consecutive lo hi parts) :
    (parts.flatMap fun i => rows i.1 i.2).Perm (rows lo hi) := by
  induction parts generalizing lo with
  | nil =>
      have split : lo = hi + 1 := split
      rw [rowsLocal.empty (by omega)]
      exact .refl _
  | cons part rest ih =>
      obtain ⟨rfl, low, high, split⟩ := split
      exact ((ih split).append_left (rows part.1 part.2)).trans (rowsLocal.append (by omega) high)

/-- The highest row of the whole is that of the last interval that has one. -/
theorem firstMax_consecutive (rowsLocal : Local key rows block) {lo hi : Nat}
    {parts : List (Nat × Nat)} (split : Consecutive lo hi parts) :
    (parts.filterMap fun i => firstMax key (rows i.1 i.2)).getLast? =
      firstMax key (rows lo hi) := by
  induction parts generalizing lo with
  | nil =>
      have split : lo = hi + 1 := split
      rw [rowsLocal.empty (by omega)]
      rfl
  | cons part rest ih =>
      obtain ⟨rfl, low, high, split⟩ := split
      rw [rowsLocal.firstMax_append (m := part.2) (by omega) high, ← ih split]
      cases first : firstMax key (rows part.1 part.2) with
      | none =>
          simp only [List.filterMap_cons, first]
          rw [Option.or_none]
      | some e =>
          simp only [List.filterMap_cons, first]
          rw [List.getLast?_cons]
          cases (rest.filterMap fun i => firstMax key (rows i.1 i.2)).getLast? <;> rfl

/-- Rows that are the same at every key of the interval. -/
theorem same_fibers {others : Nat → Nat → List α} {other : Nat → List α} (first : Local key rows block)
    (second : Local key others other) {lo hi : Nat}
    (same : ∀ n, lo ≤ n → n ≤ hi → block n = other n) (k : Nat) :
    fiber key k (rows lo hi) = fiber key k (others lo hi) := by
  rw [first, second]
  split
  · next within => exact same k within.1 within.2
  · rfl

theorem flatMap_range' (n lo len : Nat) (xs : List α) :
    ((List.range' lo len).flatMap fun m => if m = n then xs else []) =
      if lo ≤ n ∧ n < lo + len then xs else [] := by
  induction len generalizing lo with
  | zero => exact (if_neg (by omega)).symm
  | succ len ih =>
      rw [List.range'_succ, List.flatMap_cons, ih]
      by_cases first : lo = n
      · rw [if_pos first, if_neg (by omega), if_pos (by omega), List.append_nil]
      · rw [if_neg first, List.nil_append]
        exact if_congr (by omega) rfl rfl

/-- Local rows are those of the keys one after the other. -/
theorem blockwise (rowsLocal : Local key rows block) (lo hi : Nat) :
    (rows lo hi).Perm ((List.range' lo (hi + 1 - lo)).flatMap block) := by
  refine perm_of_fiber key fun n => ?_
  have one : ∀ m, fiber key n (block m) = if m = n then block n else [] := by
    intro m
    have own : fiber key m (rows m m) = block m := (rowsLocal m m m).trans (if_pos (by omega))
    have keys : ∀ a ∈ block m, key a = m := fun a mem => by
      rw [← own] at mem
      exact (mem_fiber.1 mem).2
    rw [fiber_of_key keys]
    split
    · next same => rw [same]
    · rfl
  rw [rowsLocal, fiber_flatMap]
  simp only [one]
  rw [flatMap_range']
  exact if_congr (by omega) rfl rfl

end Local

end Local

end Fibers
