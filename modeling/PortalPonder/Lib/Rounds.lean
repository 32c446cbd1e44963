import Mathlib.Init

/-!
# Loops answered from outside

A loop whose body may fail and whose every round is answered by an environment that nobody
controls: `rounds step answers n s` is the state after `n` answers, or the failure that ended
the loop before. The rules say when such a loop must fail, and when it cannot.
-/

namespace Rounds

variable {σ ι ρ : Type} (step : ι → σ → Except ρ σ) (answers : Nat → ι)

/-- The state after `n` rounds. A failed loop stays failed. -/
def rounds : Nat → σ → Except ρ σ
  | 0, s => .ok s
  | n + 1, s =>
      match rounds n s with
      | .error r => .error r
      | .ok t => step (answers n) t

variable {step answers} {s : σ}

@[simp] theorem rounds_zero : rounds step answers 0 s = .ok s := rfl

theorem rounds_succ_ok {n : Nat} {t : σ} (before : rounds step answers n s = .ok t) :
    rounds step answers (n + 1) s = step (answers n) t := by
  rw [rounds, before]

theorem rounds_succ_inv {n : Nat} {u : σ} (after : rounds step answers (n + 1) s = .ok u) :
    ∃ t, rounds step answers n s = .ok t ∧ step (answers n) t = .ok u := by
  cases before : rounds step answers n s with
  | error r =>
      rw [rounds, before] at after
      cases after
  | ok t => exact ⟨t, rfl, (rounds_succ_ok before).symm.trans after⟩

/-- A failure is the failure of one round. -/
theorem rounds_error_inv {n : Nat} {r : ρ} (failed : rounds step answers n s = .error r) :
    ∃ m t, m < n ∧ rounds step answers m s = .ok t ∧ step (answers m) t = .error r := by
  induction n with
  | zero => cases failed
  | succ n ih =>
      cases before : rounds step answers n s with
      | error r' =>
          rw [rounds, before] at failed
          cases failed
          obtain ⟨m, t, lt, reached, last⟩ := ih before
          exact ⟨m, t, Nat.lt_succ_of_lt lt, reached, last⟩
      | ok t => exact ⟨n, t, Nat.lt_succ_self n, before, (rounds_succ_ok before).symm.trans failed⟩

/-- A failure is final. -/
theorem rounds_error_mono {n m : Nat} {r : ρ} (failed : rounds step answers n s = .error r)
    (le : n ≤ m) : rounds step answers m s = .error r := by
  induction m with
  | zero =>
      obtain rfl : n = 0 := Nat.le_zero.1 le
      exact failed
  | succ m ih =>
      rcases Nat.lt_or_ge n (m + 1) with lt | ge
      · rw [rounds, ih (Nat.le_of_lt_succ lt)]
      · rw [← Nat.le_antisymm le ge]
        exact failed

/-- An invariant of successful rounds holds in every state reached. -/
theorem rounds_invariant {I : Nat → σ → Prop} (start : I 0 s)
    (keeps : ∀ n t u, rounds step answers n s = .ok t → I n t → step (answers n) t = .ok u →
      I (n + 1) u) :
    ∀ n t, rounds step answers n s = .ok t → I n t := by
  intro n
  induction n with
  | zero =>
      intro t reached
      rw [← Except.ok.inj reached]
      exact start
  | succ n ih =>
      intro u reached
      obtain ⟨t, before, last⟩ := rounds_succ_inv reached
      exact keeps n t u before (ih t before) last

/-- If an invariant also makes the next round succeed, the loop never fails. -/
theorem rounds_total {I : Nat → σ → Prop} (start : I 0 s)
    (goes : ∀ n t, rounds step answers n s = .ok t → I n t →
      ∃ u, step (answers n) t = .ok u ∧ I (n + 1) u) :
    ∀ n, ∃ t, rounds step answers n s = .ok t ∧ I n t := by
  intro n
  induction n with
  | zero => exact ⟨s, rfl, start⟩
  | succ n ih =>
      obtain ⟨t, reached, inv⟩ := ih
      obtain ⟨u, next, inv'⟩ := goes n t reached inv
      exact ⟨u, (rounds_succ_ok reached).trans next, inv'⟩

/-- A rank that every round after the `N`-th lowers ends the loop. -/
theorem fails_of_rank (rank : σ → Nat) (N : Nat)
    (lowers : ∀ n t u, N ≤ n → rounds step answers n s = .ok t → step (answers n) t = .ok u →
      rank u < rank t) :
    ∃ n r, rounds step answers n s = .error r := by
  cases atN : rounds step answers N s with
  | error r => exact ⟨N, r, atN⟩
  | ok t =>
      -- after `k` more rounds the rank has dropped by `k`
      have drop : ∀ k u, rounds step answers (N + k) s = .ok u → rank u + k ≤ rank t := by
        intro k
        induction k with
        | zero =>
            intro u reached
            rw [Nat.add_zero, atN] at reached
            rw [← Except.ok.inj reached]
            exact Nat.le_refl _
        | succ k ih =>
            intro u reached
            obtain ⟨v, before, last⟩ := rounds_succ_inv reached
            have lower := lowers (N + k) v u (Nat.le_add_right N k) before last
            have bound := ih v before
            omega
      cases atEnd : rounds step answers (N + (rank t + 1)) s with
      | error r => exact ⟨_, r, atEnd⟩
      | ok u =>
          have bound := drop (rank t + 1) u atEnd
          omega

/-- A loop that never fails and whose rank falls in every round that is not yet done gets
done. -/
theorem reaches_of_rank {Done : σ → Prop} (rank : σ → Nat)
    (total : ∀ n, ∃ t, rounds step answers n s = .ok t)
    (lowers : ∀ n t u, rounds step answers n s = .ok t → ¬ Done t →
      step (answers n) t = .ok u → rank u < rank t) :
    ∃ n t, rounds step answers n s = .ok t ∧ Done t := by
  refine Classical.byContradiction fun never => ?_
  have open_ : ∀ n t, rounds step answers n s = .ok t → ¬ Done t :=
    fun n t reached done => never ⟨n, t, reached, done⟩
  obtain ⟨n, r, failed⟩ := fails_of_rank (s := s) rank 0
    fun n t u _ reached next => lowers n t u reached (open_ n t reached) next
  obtain ⟨t, reached⟩ := total n
  rw [failed] at reached
  cases reached

/-- Two loops that go on alike end alike, if every way the first one ends is one of the second or
is excused. -/
theorem rounds_agree {step' : ι → σ → Except ρ σ} (Excused : ρ → Prop)
    (goesOn : ∀ i s t, step i s = .ok t → step' i s = .ok t)
    (ends : ∀ i s r, step i s = .error r → Excused r ∨ step' i s = .error r)
    {n : Nat} {r : ρ} (ended : rounds step answers n s = .error r) :
    Excused r ∨ rounds step' answers n s = .error r := by
  have alike : ∀ n t, rounds step answers n s = .ok t → rounds step' answers n s = .ok t :=
    rounds_invariant (I := fun n t => rounds step' answers n s = .ok t) rfl
      fun n t u _ before next => (rounds_succ_ok before).trans (goesOn _ t u next)
  obtain ⟨m, t, lt, reached, last⟩ := rounds_error_inv ended
  rcases ends _ t r last with excused | failed
  · exact .inl excused
  · exact .inr (rounds_error_mono ((rounds_succ_ok (alike m t reached)).trans failed) lt)

end Rounds
