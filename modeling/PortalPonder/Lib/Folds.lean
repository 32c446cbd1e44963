import Mathlib.Init

/-!
# Loops over a list

What every pass of a loop keeps holds after it; what each item brings about, and no other item
undoes, holds of every item after it. `runUntil` is a loop that an item may stop: what it has
done until then stays done.
-/

namespace Folds

variable {α σ : Type} {step : σ → α → σ}

theorem foldl_keeps (P : σ → Prop) {items : List α}
    (keeps : ∀ s, ∀ a ∈ items, P s → P (step s a)) {s : σ} (start : P s) :
    P (items.foldl step s) := by
  induction items generalizing s with
  | nil => exact start
  | cons a rest ih =>
      exact ih (fun s b mem => keeps s b (List.mem_cons_of_mem a mem))
        (keeps s a List.mem_cons_self start)

/-- Each item of the list brings about its `Q`, given what the loop keeps. -/
theorem foldl_does (P : σ → Prop) (Q : α → σ → Prop) {items : List α}
    (keeps : ∀ s, ∀ a ∈ items, P s → P (step s a))
    (does : ∀ s, ∀ a ∈ items, P s → Q a (step s a))
    (stays : ∀ s a, ∀ b ∈ items, Q a s → Q a (step s b)) {s : σ} (start : P s) :
    ∀ a ∈ items, Q a (items.foldl step s) := by
  induction items generalizing s with
  | nil =>
      intro a mem
      cases mem
  | cons b rest ih =>
      have stays' : ∀ s a, ∀ c ∈ rest, Q a s → Q a (step s c) :=
        fun s a c mem => stays s a c (List.mem_cons_of_mem b mem)
      intro a mem
      rcases List.mem_cons.1 mem with rfl | later
      · have first := does s a List.mem_cons_self start
        exact foldl_keeps (Q a) (fun s c mem => stays' s a c mem) first
      · exact ih (fun s c mem => keeps s c (List.mem_cons_of_mem b mem))
          (fun s c mem => does s c (List.mem_cons_of_mem b mem)) stays'
          (keeps s b List.mem_cons_self start) a later

/-! ## Loops that stop -/

variable {ε : Type}

/-- The loop up to the first item that fails. -/
def runUntil (step : σ → α → σ × Option ε) : σ → List α → σ × Option ε
  | s, [] => (s, none)
  | s, a :: rest =>
      match step s a with
      | (s, some e) => (s, some e)
      | (s, none) => runUntil step s rest

theorem runUntil_keeps {step : σ → α → σ × Option ε} (P : σ → Prop) {items : List α}
    (keeps : ∀ s, ∀ a ∈ items, P s → P (step s a).1) {s : σ} (start : P s) :
    P (runUntil step s items).1 := by
  induction items generalizing s with
  | nil => exact start
  | cons a rest ih =>
      have first := keeps s a List.mem_cons_self start
      unfold runUntil
      cases done : step s a with
      | mk t failed =>
          rw [done] at first
          cases failed with
          | some e => exact first
          | none => exact ih (fun s b mem => keeps s b (List.mem_cons_of_mem a mem)) first

/-- If what fails does not depend on the state, the loop fails when one of its items does. -/
theorem runUntil_fails {step : σ → α → σ × Option ε} {fails : α → Prop}
    (alike : ∀ s a, (step s a).2.isSome = true ↔ fails a) (items : List α) (s : σ) :
    (runUntil step s items).2.isSome = true ↔ ∃ a ∈ items, fails a := by
  induction items generalizing s with
  | nil => simp [runUntil]
  | cons a rest ih =>
      have first := alike s a
      simp only [List.mem_cons, exists_eq_or_imp]
      unfold runUntil
      cases done : step s a with
      | mk t failed =>
          rw [done] at first
          cases failed with
          | some e => exact iff_of_true rfl (.inl (first.1 rfl))
          | none =>
              have passes : ¬ fails a := fun bad => absurd (first.2 bad) (by simp)
              exact (ih t).trans (or_iff_right passes).symm

end Folds
