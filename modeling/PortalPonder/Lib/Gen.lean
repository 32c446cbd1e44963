import Mathlib.Init

/-!
# Generators with events

A suspended generator is resumed by an input, may yield events, changes its own variables
and either runs to its next suspension point or throws. `Gen` is the monad of such
computations: what was yielded and assigned before a `throw` stays, and every yield records
the variables at that moment. The second half is the rule set used to compare a generator with
a *view*: a consumer that holds a value of its own and only ever sees the events.
-/

/-- What one activation leaves behind: the events it yielded, each with the variables at its
yield, then the variables and the outcome at its end. -/
structure Turn (σ ε ρ α : Type) where
  trace : List (ε × σ)
  state : σ
  outcome : Except ρ α

/-- The events alone. -/
def Turn.events {σ ε ρ α : Type} (t : Turn σ ε ρ α) : List ε := t.trace.map Prod.fst

/-- A computation on variables `σ` that yields events `ε` and may throw a `ρ`. -/
def Gen (σ ε ρ α : Type) : Type := σ → Turn σ ε ρ α

namespace Gen

variable {σ ε ρ α β : Type}

/-- Run a computation on the current variables. -/
def run (m : Gen σ ε ρ α) (s : σ) : Turn σ ε ρ α := m s

def pure (a : α) : Gen σ ε ρ α := fun s => ⟨[], s, .ok a⟩

def bind (m : Gen σ ε ρ α) (f : α → Gen σ ε ρ β) : Gen σ ε ρ β := fun s =>
  match m s with
  | ⟨es, s', .error r⟩ => ⟨es, s', .error r⟩
  | ⟨es, s', .ok a⟩ =>
      let rest := f a s'
      ⟨es ++ rest.trace, rest.state, rest.outcome⟩

instance : Monad (Gen σ ε ρ) where
  pure := pure
  bind := bind

/-- The current variables. -/
def get : Gen σ ε ρ σ := fun s => ⟨[], s, .ok s⟩

/-- Assign variables. -/
def modify (f : σ → σ) : Gen σ ε ρ Unit := fun s => ⟨[], f s, .ok ()⟩

/-- Yield one event. -/
def yield (e : ε) : Gen σ ε ρ Unit := fun s => ⟨[(e, s)], s, .ok ()⟩

/-- Throw: the generator is finished. -/
def throw (r : ρ) : Gen σ ε ρ α := fun s => ⟨[], s, .error r⟩

/-- Feed a list of inputs to the body of a loop, stopping at the first throw. -/
def forEach {ι : Type} (body : ι → Gen σ ε ρ Unit) : List ι → Gen σ ε ρ Unit
  | [] => Pure.pure ()
  | i :: rest => body i >>= fun _ => forEach body rest

@[simp] theorem run_pure (a : α) (s : σ) :
    (Pure.pure a : Gen σ ε ρ α).run s = ⟨[], s, .ok a⟩ := rfl

@[simp] theorem run_get (s : σ) : (get : Gen σ ε ρ σ).run s = ⟨[], s, .ok s⟩ := rfl

@[simp] theorem run_modify (f : σ → σ) (s : σ) :
    (modify f : Gen σ ε ρ Unit).run s = ⟨[], f s, .ok ()⟩ := rfl

@[simp] theorem run_yield (e : ε) (s : σ) :
    (yield e : Gen σ ε ρ Unit).run s = ⟨[(e, s)], s, .ok ()⟩ := rfl

@[simp] theorem run_throw (r : ρ) (s : σ) :
    (throw r : Gen σ ε ρ α).run s = ⟨[], s, .error r⟩ := rfl

instance : LawfulMonad (Gen σ ε ρ) := by
  have assoc : ∀ {α β γ : Type} (m : Gen σ ε ρ α) (f : α → Gen σ ε ρ β) (g : β → Gen σ ε ρ γ),
      m >>= f >>= g = m >>= fun a => f a >>= g := by
    intro α β γ m f g
    funext s
    show bind (bind m f) g s = bind m (fun a => bind (f a) g) s
    unfold bind
    rcases m s with ⟨es, s', r | a⟩
    · rfl
    · dsimp only
      rcases f a s' with ⟨fs, s'', r | b⟩
      · rfl
      · simp only [List.append_assoc]
  refine .mk' (Gen σ ε ρ) ?_ (fun _ _ => rfl) assoc
  intro α m
  funext s
  show bind m pure s = m s
  unfold bind
  rcases m s with ⟨es, s', r | a⟩
  · rfl
  · show Turn.mk (es ++ []) s' (.ok a) = _
    rw [List.append_nil]

/-- A sequence, as the evaluation of its first half goes on. -/
theorem run_bind (m : Gen σ ε ρ α) (f : α → Gen σ ε ρ β) (s : σ) :
    (m >>= f).run s =
      match m.run s with
      | ⟨es, s', .error r⟩ => ⟨es, s', .error r⟩
      | ⟨es, s', .ok a⟩ =>
          ⟨es ++ ((f a).run s').trace, ((f a).run s').state, ((f a).run s').outcome⟩ := rfl

/-- The first half of a sequence fixes how it goes on. -/
theorem run_bind_ok {m : Gen σ ε ρ α} {f : α → Gen σ ε ρ β} {s s' : σ} {es : List (ε × σ)}
    {a : α} (first : m.run s = ⟨es, s', .ok a⟩) :
    (m >>= f).run s =
      ⟨es ++ ((f a).run s').trace, ((f a).run s').state, ((f a).run s').outcome⟩ := by
  change bind m f s = _
  unfold bind
  rw [show m s = _ from first]
  rfl

theorem run_bind_error {m : Gen σ ε ρ α} {f : α → Gen σ ε ρ β} {s s' : σ} {es : List (ε × σ)}
    {r : ρ} (first : m.run s = ⟨es, s', .error r⟩) : (m >>= f).run s = ⟨es, s', .error r⟩ := by
  change bind m f s = _
  unfold bind
  rw [show m s = _ from first]

/-- A loop over one more input resumes where the loop over the earlier ones stopped. -/
theorem run_forEach_concat {ι : Type} {body : ι → Gen σ ε ρ Unit} {inputs : List ι} {i : ι}
    {s s' : σ} {es : List (ε × σ)} (before : (forEach body inputs).run s = ⟨es, s', .ok ()⟩) :
    (forEach body (inputs ++ [i])).run s =
      ⟨es ++ ((body i).run s').trace, ((body i).run s').state, ((body i).run s').outcome⟩ := by
  induction inputs generalizing s es with
  | nil =>
      have start : es = [] ∧ s' = s := by
        injection before with trace state
        exact ⟨trace.symm, state.symm⟩
      obtain ⟨rfl, rfl⟩ := start
      cases turn : (body i).run s' with
      | mk fs s'' outcome =>
          cases outcome with
          | error r => exact run_bind_error turn
          | ok a =>
              have once : (forEach body ([] ++ [i])).run s' = _ := run_bind_ok turn
              rw [once]
              simp [forEach]
  | cons j rest ih =>
      cases turn : (body j).run s with
      | mk fs s'' outcome =>
          cases outcome with
          | error r =>
              have stop : (forEach body (j :: rest)).run s = _ := run_bind_error turn
              rw [stop] at before
              cases before
          | ok a =>
              have go : (forEach body (j :: rest)).run s = _ := run_bind_ok turn
              rw [go] at before
              have tail : (forEach body rest).run s'' =
                  ⟨((forEach body rest).run s'').trace, s', .ok ()⟩ := by
                injection before with trace state outcome
                rw [← state, ← outcome]
              have next := ih tail
              have whole : (forEach body (j :: rest ++ [i])).run s = _ := run_bind_ok turn
              rw [whole]
              change Turn.mk (fs ++ ((forEach body (rest ++ [i])).run s'').trace)
                ((forEach body (rest ++ [i])).run s'').state
                ((forEach body (rest ++ [i])).run s'').outcome = _
              rw [next]
              injection before with trace
              rw [← trace, List.append_assoc]

/-! ## Views -/

/-- A consumer's side: how an event changes its value, and when an event is legal. -/
structure View (ε ν : Type) where
  apply : ν → ε → ν
  Legal : ν → ε → Prop

namespace View

variable {ν : Type}

/-- The consumer's value after a list of events. -/
def fold (V : View ε ν) (v : ν) (es : List ε) : ν := es.foldl V.apply v

/-- Every event is legal for the consumer that saw the events before it, and at every yield the
generator's variables match (`Shows`) what the consumer makes of the event. -/
def Lockstep (V : View ε ν) (Shows : ν → σ → Prop) : ν → List (ε × σ) → Prop
  | _, [] => True
  | v, (e, s) :: rest =>
      V.Legal v e ∧ Shows (V.apply v e) s ∧ V.Lockstep Shows (V.apply v e) rest

@[simp] theorem fold_nil (V : View ε ν) (v : ν) : V.fold v [] = v := rfl

@[simp] theorem fold_cons (V : View ε ν) (v : ν) (e : ε) (es : List ε) :
    V.fold v (e :: es) = V.fold (V.apply v e) es := rfl

theorem fold_append (V : View ε ν) (v : ν) (es fs : List ε) :
    V.fold v (es ++ fs) = V.fold (V.fold v es) fs := List.foldl_append

variable {V : View ε ν} {Shows : ν → σ → Prop}

theorem lockstep_append {v : ν} {es fs : List (ε × σ)} :
    V.Lockstep Shows v (es ++ fs) ↔
      V.Lockstep Shows v es ∧ V.Lockstep Shows (V.fold v (es.map Prod.fst)) fs := by
  induction es generalizing v with
  | nil => simp [Lockstep]
  | cons e rest ih => simp [Lockstep, ih, and_assoc]

/-- A property that legal events preserve holds along a trace in lockstep. -/
theorem Lockstep.preserves {P : ν → Prop} (step : ∀ v e, P v → V.Legal v e → P (V.apply v e))
    {v : ν} {es : List (ε × σ)} (lock : V.Lockstep Shows v es) (start : P v) :
    P (V.fold v (es.map Prod.fst)) := by
  induction es generalizing v with
  | nil => exact start
  | cons e rest ih => exact ih lock.2.2 (step v e.1 start lock.1)

/-- At any yield: the event is legal for the fold so far, and the variables show the fold
with it. -/
theorem Lockstep.at_yield {v : ν} {es fs : List (ε × σ)} {e : ε} {s : σ}
    (lock : V.Lockstep Shows v (es ++ (e, s) :: fs)) :
    V.Legal (V.fold v (es.map Prod.fst)) e ∧
      Shows (V.fold v (es.map Prod.fst ++ [e])) s := by
  obtain ⟨legal, shown, -⟩ := (lockstep_append.1 lock).2
  refine ⟨legal, ?_⟩
  rw [fold_append]
  exact shown

end View

/-! ## Specifications against a view

`Spec V Shows P m Q E`: whenever the consumer's value and the variables satisfy `P`, the trace of
`m` is in lockstep with the consumer, and the consumer's value after the events and the final
variables satisfy `Q` when `m` returns and `E` when it throws. Between two yields the two sides
may differ, as `P` and `Q` say. -/

section Spec

variable {ν : Type} (V : View ε ν) (Shows : ν → σ → Prop)

def Spec (P : ν → σ → Prop) (m : Gen σ ε ρ α) (Q : α → ν → σ → Prop) (E : ν → σ → Prop) :
    Prop :=
  ∀ v s, P v s →
    V.Lockstep Shows v (m.run s).trace ∧
      match (m.run s).outcome with
      | .ok a => Q a (V.fold v (m.run s).events) (m.run s).state
      | .error _ => E (V.fold v (m.run s).events) (m.run s).state

variable {V Shows} {P P' : ν → σ → Prop} {E : ν → σ → Prop}

theorem Spec.pure {Q : α → ν → σ → Prop} {a : α} (holds : ∀ v s, P v s → Q a v s) :
    Spec V Shows P (Pure.pure a : Gen σ ε ρ α) Q E :=
  fun v s start => ⟨trivial, holds v s start⟩

/-- Reading the variables: the rest may use that it starts in what was read. -/
theorem Spec.get_bind {f : σ → Gen σ ε ρ β} {R : β → ν → σ → Prop}
    (rest : ∀ a, Spec V Shows (fun v s => P v s ∧ s = a) (f a) R E) :
    Spec V Shows P (Gen.get >>= f) R E := by
  intro v s start
  have next := rest s v s ⟨start, rfl⟩
  rw [run_bind_ok (run_get s)]
  exact next

theorem Spec.throw {Q : α → ν → σ → Prop} {r : ρ} (holds : ∀ v s, P v s → E v s) :
    Spec V Shows P (Gen.throw r) Q E :=
  fun v s start => ⟨trivial, holds v s start⟩

theorem Spec.modify {Q : Unit → ν → σ → Prop} {f : σ → σ}
    (holds : ∀ v s, P v s → Q () v (f s)) :
    Spec V Shows P (Gen.modify f : Gen σ ε ρ Unit) Q E :=
  fun v s start => ⟨trivial, holds v s start⟩

theorem Spec.yield {Q : Unit → ν → σ → Prop} {e : ε}
    (legal : ∀ v s, P v s → V.Legal v e) (shown : ∀ v s, P v s → Shows (V.apply v e) s)
    (holds : ∀ v s, P v s → Q () (V.apply v e) s) :
    Spec V Shows P (Gen.yield e : Gen σ ε ρ Unit) Q E :=
  fun v s start => ⟨⟨legal v s start, shown v s start, trivial⟩, holds v s start⟩

theorem Spec.bind {m : Gen σ ε ρ α} {f : α → Gen σ ε ρ β} {Q : α → ν → σ → Prop}
    {R : β → ν → σ → Prop} (first : Spec V Shows P m Q E)
    (rest : ∀ a, Spec V Shows (Q a) (f a) R E) : Spec V Shows P (m >>= f) R E := by
  intro v s start
  obtain ⟨lock, after⟩ := first v s start
  cases turn : m.run s with
  | mk es s' outcome =>
      rw [turn] at lock after
      cases outcome with
      | error r =>
          rw [run_bind_error turn]
          exact ⟨lock, after⟩
      | ok a =>
          rw [run_bind_ok turn]
          obtain ⟨lock', after'⟩ := rest a _ s' after
          refine ⟨View.lockstep_append.2 ⟨lock, lock'⟩, ?_⟩
          simp only [Turn.events, List.map_append, View.fold_append] at after' ⊢
          exact after'

theorem Spec.strengthen {m : Gen σ ε ρ α} {Q : α → ν → σ → Prop} (spec : Spec V Shows P m Q E)
    (before : ∀ v s, P' v s → P v s) : Spec V Shows P' m Q E :=
  fun v s start => spec v s (before v s start)

/-- A loop keeps what its body keeps. -/
theorem Spec.forEach {ι : Type} {body : ι → Gen σ ε ρ Unit} {I : ν → σ → Prop}
    {inputs : List ι} (step : ∀ i ∈ inputs, Spec V Shows I (body i) (fun _ => I) E) :
    Spec V Shows I (Gen.forEach body inputs) (fun _ => I) E := by
  induction inputs with
  | nil => exact Spec.pure fun _ _ h => h
  | cons i rest ih =>
      exact Spec.bind (step i List.mem_cons_self)
        fun _ => ih fun j mem => step j (List.mem_cons_of_mem _ mem)

/-- What holds both on return and on throw holds at the end. -/
theorem Spec.final {m : Gen σ ε ρ α} {I : ν → σ → Prop} (spec : Spec V Shows P m (fun _ => I) I)
    {v : ν} {s : σ} (start : P v s) : I (V.fold v (m.run s).events) (m.run s).state := by
  obtain ⟨-, post⟩ := spec v s start
  cases outcome : (m.run s).outcome with
  | ok a =>
      rw [outcome] at post
      exact post
  | error r =>
      rw [outcome] at post
      exact post

end Spec

/-! ## What can be thrown -/

/-- Whatever the computation throws satisfies `P`. -/
def ThrowsOnly (P : ρ → Prop) (m : Gen σ ε ρ α) : Prop :=
  ∀ s r, (m.run s).outcome = .error r → P r

section ThrowsOnly

variable {P : ρ → Prop}

theorem throwsOnly_pure (a : α) : ThrowsOnly P (Pure.pure a : Gen σ ε ρ α) := by
  intro s r thrown
  cases thrown

theorem throwsOnly_get : ThrowsOnly P (get : Gen σ ε ρ σ) := by
  intro s r thrown
  cases thrown

theorem throwsOnly_modify (f : σ → σ) : ThrowsOnly P (modify f : Gen σ ε ρ Unit) := by
  intro s r thrown
  cases thrown

theorem throwsOnly_yield (e : ε) : ThrowsOnly P (yield e : Gen σ ε ρ Unit) := by
  intro s r thrown
  cases thrown

theorem throwsOnly_throw {r : ρ} (here : P r) : ThrowsOnly P (throw r : Gen σ ε ρ α) := by
  intro s q thrown
  cases thrown
  exact here

theorem ThrowsOnly.bind {m : Gen σ ε ρ α} {f : α → Gen σ ε ρ β} (first : ThrowsOnly P m)
    (rest : ∀ a, ThrowsOnly P (f a)) : ThrowsOnly P (m >>= f) := by
  intro s r thrown
  cases turn : m.run s with
  | mk es s' outcome =>
      cases outcome with
      | error q =>
          rw [run_bind_error turn] at thrown
          cases thrown
          exact first s r (by rw [turn])
      | ok a =>
          rw [run_bind_ok turn] at thrown
          exact rest a s' r thrown

end ThrowsOnly

end Gen
