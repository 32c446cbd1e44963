import Mathlib.Init

/-!
# Greedy packing

Consecutive items are packed into bins: an item joins the open bin if the bin still fits with
it, and opens a new one otherwise. An item that is rejected ends the packing. Nothing is lost,
nothing is moved.
-/

namespace Packing

variable {α ε : Type} (fits : List α → Bool) (accepts : α → Except ε Unit)

/-- Pack the items that are left; `current` is the open bin. -/
def pack : List α → List α → Except ε (List (List α))
  | current, [] => .ok (if current.isEmpty then [] else [current])
  | current, item :: rest => do
      accepts item
      if current.isEmpty ∨ fits (current ++ [item]) then pack (current ++ [item]) rest
      else
        let bins ← pack [item] rest
        pure (current :: bins)

variable {fits accepts}

/-- The bins are the items, in order. -/
theorem pack_flatten {current items : List α} {bins : List (List α)}
    (packed : pack fits accepts current items = .ok bins) : bins.flatten = current ++ items := by
  induction items generalizing current bins with
  | nil =>
      cases packed
      cases current with
      | nil => rfl
      | cons item current => simp
  | cons item rest ih =>
      unfold pack at packed
      cases accepted : accepts item with
      | error e =>
          rw [accepted] at packed
          cases packed
      | ok _ =>
          rw [accepted] at packed
          dsimp only [bind, Except.bind] at packed
          split at packed
          · rw [ih packed, List.append_assoc]
            rfl
          · cases later : pack fits accepts [item] rest with
            | error e =>
                rw [later] at packed
                cases packed
            | ok bins' =>
                rw [later] at packed
                cases packed
                rw [List.flatten_cons, ih later]
                rfl

/-- Every bin fits, when an item that is accepted fits alone. -/
theorem pack_fits {current items : List α} {bins : List (List α)}
    (alone : ∀ item u, accepts item = .ok u → fits [item] = true)
    (opened : current = [] ∨ fits current = true)
    (packed : pack fits accepts current items = .ok bins) : ∀ bin ∈ bins, fits bin = true := by
  induction items generalizing current bins with
  | nil =>
      cases packed
      cases current with
      | nil =>
          intro bin mem
          cases mem
      | cons item current =>
          intro bin mem
          obtain rfl := List.mem_singleton.1 mem
          exact opened.resolve_left (by simp)
  | cons item rest ih =>
      unfold pack at packed
      cases accepted : accepts item with
      | error e =>
          rw [accepted] at packed
          cases packed
      | ok u =>
          rw [accepted] at packed
          dsimp only [bind, Except.bind] at packed
          have single := alone item u accepted
          by_cases joins : current.isEmpty = true ∨ fits (current ++ [item]) = true
          · rw [if_pos joins] at packed
            refine ih (.inr ?_) packed
            rcases joins with empty | fit
            · rw [List.isEmpty_iff.1 empty]
              exact single
            · exact fit
          · rw [if_neg joins] at packed
            cases later : pack fits accepts [item] rest with
            | error e =>
                rw [later] at packed
                cases packed
            | ok bins' =>
                rw [later] at packed
                cases packed
                rintro bin (_ | ⟨_, mem⟩)
                · refine opened.resolve_left ?_
                  rintro rfl
                  exact joins (.inl rfl)
                · exact ih (.inr single) later bin mem

/-- The packing ends exactly when an item is rejected. -/
theorem pack_error_iff {current items : List α} :
    (∃ e, pack fits accepts current items = .error e) ↔
      ∃ item ∈ items, ∃ e, accepts item = .error e := by
  induction items generalizing current with
  | nil => simp [pack]
  | cons item rest ih =>
      unfold pack
      cases accepted : accepts item with
      | error e => exact ⟨fun _ => ⟨item, List.mem_cons_self, e, accepted⟩, fun _ => ⟨e, rfl⟩⟩
      | ok u =>
          have others : (∃ i ∈ item :: rest, ∃ e, accepts i = .error e) ↔
              ∃ i ∈ rest, ∃ e, accepts i = .error e := by
            simp [accepted]
          rw [others]
          dsimp only [bind, Except.bind]
          by_cases joins : current.isEmpty = true ∨ fits (current ++ [item]) = true
          · rw [if_pos joins]
            exact ih
          · have tail : (∃ e, pack fits accepts [item] rest = .error e) ↔
                ∃ i ∈ rest, ∃ e, accepts i = .error e := ih
            rw [if_neg joins, ← tail]
            cases later : pack fits accepts [item] rest with
            | error e => simp
            | ok bins => simp [pure, Except.pure]

end Packing
