import Mathlib.Init

/-!
# Machines that take actions

A machine is a partial step function: `step s a = some t` when action `a` can be taken in `s`.
The order of actions is up to the environment; `allowed` says which of them it may choose.
Invariants are proved over `Reach`; `replay` runs a given list of actions, for traces that are
to be evaluated.
-/

namespace Machine

variable {σ α : Type} (step : σ → α → Option σ) (allowed : σ → α → Prop) (init : σ)

/-- The states the machine can be in. -/
inductive Reach : σ → Prop
  | init : Reach init
  | step {s t : σ} {a : α} (before : Reach s) (may : allowed s a) (taken : step s a = some t) :
      Reach t

/-- The state after a list of actions. -/
def replay : σ → List α → Option σ
  | s, [] => some s
  | s, a :: as =>
      match step s a with
      | none => none
      | some t => replay t as

/-- Every action of the list is allowed where it is taken. -/
def AllAllowed : σ → List α → Prop
  | _, [] => True
  | s, a :: as =>
      allowed s a ∧
        match step s a with
        | none => True
        | some t => AllAllowed t as

instance decidableAllAllowed [∀ s a, Decidable (allowed s a)] :
    ∀ (s : σ) (as : List α), Decidable (AllAllowed step allowed s as)
  | _, [] => isTrue trivial
  | s, a :: as =>
      have : Decidable (match step s a with
          | none => True
          | some t => AllAllowed step allowed t as) :=
        match step s a with
        | none => isTrue trivial
        | some t => decidableAllAllowed t as
      inferInstanceAs (Decidable (_ ∧ _))

variable {step allowed init}

/-- A condition on the actions alone is added. -/
theorem AllAllowed.and {s : σ} {as : List α} (may : AllAllowed step allowed s as) {P : α → Prop}
    (each : ∀ a ∈ as, P a) : AllAllowed step (fun s a => allowed s a ∧ P a) s as := by
  induction as generalizing s with
  | nil => trivial
  | cons a as ih =>
      refine ⟨⟨may.1, each a List.mem_cons_self⟩, ?_⟩
      have rest := may.2
      revert rest
      cases step s a with
      | none => exact fun _ => trivial
      | some t => exact fun rest => ih rest fun b mem => each b (List.mem_cons_of_mem a mem)

/-- What holds at the start and is kept by every allowed action holds in every state. -/
theorem Reach.invariant {I : σ → Prop} (start : I init)
    (keeps : ∀ s a t, Reach step allowed init s → I s → allowed s a → step s a = some t → I t)
    {s : σ} (reached : Reach step allowed init s) : I s := by
  induction reached with
  | init => exact start
  | step before may taken ih => exact keeps _ _ _ before ih may taken

/-- What is reached under a stricter environment is reached. -/
theorem Reach.mono {may : σ → α → Prop} {s : σ} (reached : Reach step allowed init s)
    (weaker : ∀ s a, allowed s a → may s a) : Reach step may init s :=
  reached.invariant (I := fun s => Reach step may init s) .init
    fun s a _ _ inv ok taken => .step inv (weaker s a ok) taken

theorem Reach.replay {s t : σ} {as : List α} (before : Reach step allowed init s)
    (may : AllAllowed step allowed s as) (run : replay step s as = some t) :
    Reach step allowed init t := by
  induction as generalizing s with
  | nil =>
      cases run
      exact before
  | cons a as ih =>
      cases taken : step s a with
      | none =>
          rw [Machine.replay, taken] at run
          cases run
      | some u =>
          rw [Machine.replay, taken] at run
          rw [AllAllowed, taken] at may
          exact ih (.step before may.1 taken) may.2 run

end Machine
