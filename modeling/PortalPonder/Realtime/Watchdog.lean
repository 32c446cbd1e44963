import PortalPonder.Realtime.EventLog

/-!
# The delivery watchdog

INV-24. A turn of the producer is cut in two: what it does before its finalize cadence, and the
cadence. The journal notes from outside what was emitted, when, and which finalized heads were
probed; `WatchInv` says that the watchdog's variables are those of the journal, whatever the order
of deliveries, duplicates, reorgs and polls.
-/

namespace PortalPonder.Realtime

/-- A turn up to its finalize cadence, and whether it comes to it. -/
def beforeCadence (args : EventArgs) (env : Env) : HotItem → EventGen Bool
  | .tick => pure true
  | .block batch => do
      let light := toLight batch.header
      let s ← Gen.get
      match reconcile s.unfinalized light s.anchor with
      | .duplicate =>
          if env.shouldRedeliver light.hash then do
            emitBlock args env batch
            pure true
          else pure false
      | .gap => Gen.throw (.unknownParent light)
      | .append => do
          appendBlock args light
          emitBlock args env batch
          pure true
      | .reorg commonAncestor reorgedBlocks => do
          Gen.modify fun s =>
            { s with unfinalized := trimAbove commonAncestor.number s.unfinalized }
          Gen.yield (.reorg commonAncestor reorgedBlocks)
          appendBlock args light
          emitBlock args env batch
          pure true

/-- A turn is that, and then the cadence. -/
theorem turn_eq (args : EventArgs) (item : HotItem) (env : Env) :
    turn args (item, env) =
      beforeCadence args env item >>= fun comes =>
        if comes then runFinalizeCadence args env else pure () := by
  cases item with
  | tick =>
      rw [beforeCadence, pure_bind]
      rfl
  | block batch =>
      unfold turn deliver beforeCadence
      dsimp only
      rw [bind_assoc]
      congr 1
      funext s
      cases reconcile s.unfinalized (toLight batch.header) s.anchor with
      | duplicate =>
          dsimp only
          split
          · rw [bind_assoc]
            rfl
          · rw [pure_bind]
            rfl
      | gap => rfl
      | append =>
          simp only [bind_assoc, pure_bind]
          rfl
      | reorg =>
          simp only [bind_assoc, pure_bind]
          rfl

/-- The variables at the start of the cadence, if the turn polls the finalized head. -/
def polling (args : EventArgs) (s : EventState) (input : HotItem × Env) : Option EventState :=
  match (beforeCadence args input.2 input.1).run s with
  | ⟨_, s', .ok true⟩ =>
      if input.2.now - s'.lastFinalizePoll ≥ args.finalizePollMs then some s' else none
  | _ => none

/-! ## The journal -/

/-- What was emitted, with its time, and the heads of the successful polls. -/
structure Journal where
  emitted : List (Int × Int)
  heads : List Int

/-- The number of an emitted block. -/
def PortalRealtimeEvent.emitted? : PortalRealtimeEvent → Option Int
  | .block b .. => some (ofBlock b).number
  | _ => none

/-- The numbers of the blocks among some events. -/
def emittedNumbers (events : List PortalRealtimeEvent) : List Int :=
  events.filterMap PortalRealtimeEvent.emitted?

/-- The blocks that a turn emits. -/
def Journal.emits (args : EventArgs) (s : EventState) (input : HotItem × Env) (j : Journal) :
    Journal :=
  { j with
    emitted := j.emitted ++ (emittedNumbers ((turn args input).run s).events).map fun n =>
      (n, input.2.deliveredAt) }

/-- The head that a turn probes. -/
def Journal.probes (args : EventArgs) (s : EventState) (input : HotItem × Env) (j : Journal) :
    Journal :=
  match polling args s input with
  | none => j
  | some _ => { j with heads := j.heads ++ (input.2.finalizedHead.map FinalizedHead.number).toList }

/-- The journal of a run. -/
def journal (args : EventArgs) : EventState → List (HotItem × Env) → Journal → Journal
  | _, [], j => j
  | s, input :: rest, j =>
      journal args ((turn args input).run s).state rest
        ((j.emits args s input).probes args s input)

/-- The highest block emitted, or the first head if that is higher. -/
def Journal.highest (first : Int) (j : Journal) : Int := (j.emitted.map Prod.fst).foldl max first

/-- The time of the last emission, or of the loop entry. -/
def Journal.lastAt (entered : Int) (j : Journal) : Int := (j.emitted.getLast?.map Prod.snd).getD entered

/-! ## The watchdog's variables -/

/-- The baseline that belongs to a journal. -/
def Journal.baseline (j : Journal) : Option Int :=
  match j.heads, j.emitted with
  | first :: _, _ => some (j.highest first)
  | [], [] => none
  | [], e :: _ => some (j.highest e.1)

structure WatchInv (entered : Int) (j : Journal) (s : EventState) : Prop where
  baseline : s.deliveryBaseline = j.baseline
  adopted : s.firstProbeAdopted = !j.heads.isEmpty
  lastAt : s.lastDeliveryMs = j.lastAt entered

/-- The variables that the watchdog reads are the same. -/
structure SameWatch (s t : EventState) : Prop where
  baseline : t.deliveryBaseline = s.deliveryBaseline
  adopted : t.firstProbeAdopted = s.firstProbeAdopted
  lastAt : t.lastDeliveryMs = s.lastDeliveryMs

section Turns

variable {args : EventArgs} {env : Env} {item : HotItem} {s t : EventState} {entered : Int}
  {j : Journal}

theorem SameWatch.refl (s : EventState) : SameWatch s s := ⟨rfl, rfl, rfl⟩

theorem SameWatch.trans {u : EventState} (first : SameWatch s t) (next : SameWatch t u) :
    SameWatch s u :=
  ⟨next.baseline.trans first.baseline, next.adopted.trans first.adopted,
    next.lastAt.trans first.lastAt⟩

theorem WatchInv.same (inv : WatchInv entered j s) (same : SameWatch s t) : WatchInv entered j t :=
  ⟨same.baseline.trans inv.baseline, same.adopted.trans inv.adopted, same.lastAt.trans inv.lastAt⟩

theorem emittedNumbers_append (es fs : List PortalRealtimeEvent) :
    emittedNumbers (es ++ fs) = emittedNumbers es ++ emittedNumbers fs := List.filterMap_append

/-- A higher number raises the baseline of the journal. -/
theorem baseline_emitted (j : Journal) (n at_ : Int) :
    Journal.baseline { j with emitted := j.emitted ++ [(n, at_)] } =
      some (raiseBaseline j.baseline n) := by
  unfold Journal.baseline Journal.highest raiseBaseline
  rcases j with ⟨emitted, heads⟩
  cases heads with
  | cons first rest => simp [List.foldl_append]
  | nil =>
      cases emitted with
      | nil => simp
      | cons e es => simp [List.foldl_append]

theorem foldl_max_comm (a b : Int) (ns : List Int) :
    ns.foldl max (max a b) = max (ns.foldl max a) b := by
  induction ns generalizing a with
  | nil => rfl
  | cons n ns ih =>
      have swap : max (max a b) n = max (max a n) b := by omega
      rw [List.foldl_cons, List.foldl_cons, swap, ih]

/-- The first head is folded in, whether or not something was emitted before it. -/
theorem baseline_first (emitted : List (Int × Int)) (h : Int) :
    Journal.baseline ⟨emitted, [h]⟩ =
      some (raiseBaseline (Journal.baseline ⟨emitted, []⟩) h) := by
  unfold Journal.baseline Journal.highest raiseBaseline
  cases emitted with
  | nil => simp
  | cons e es =>
      simp only [List.map_cons, List.foldl_cons, Option.getD_some, Int.max_self]
      rw [Int.max_comm h e.1, foldl_max_comm]

/-- Later heads do not move the baseline. -/
theorem baseline_later (j : Journal) {hs : List Int} (some_ : j.heads ≠ []) :
    Journal.baseline { j with heads := j.heads ++ hs } = j.baseline := by
  obtain ⟨emitted, heads⟩ := j
  cases heads with
  | nil => exact absurd rfl some_
  | cons first rest => rfl

/-! ### Before the cadence -/

/-- What the first part of a turn does to the watchdog: nothing, or it emits one block. -/
inductive Emits (env : Env) (s t : EventState) : List PortalRealtimeEvent → Prop
  | nothing {es : List PortalRealtimeEvent} (none_ : emittedNumbers es = [])
      (same : SameWatch s t) : Emits env s t es
  | block {es : List PortalRealtimeEvent} (n : Int)
      (one : emittedNumbers es = [n])
      (baseline : t.deliveryBaseline = some (raiseBaseline s.deliveryBaseline n))
      (adopted : t.firstProbeAdopted = s.firstProbeAdopted)
      (lastAt : t.lastDeliveryMs = env.deliveredAt) : Emits env s t es

theorem emitted?_blockEvent (args : EventArgs) (batch : HotBatch) :
    (blockEvent args batch).emitted? = some (batch.header.number : Int) := by
  simp only [blockEvent, PortalRealtimeEvent.emitted?, ofBlock_toSyncBlockHeader]
  rfl

/-- An append changes nothing but the window. -/
theorem appendBlock_same (args : EventArgs) (s : EventState) (light : Light) :
    ((appendBlock args light).run s).events = [] ∧
      SameWatch s ((appendBlock args light).run s).state := by
  unfold appendBlock
  rw [Gen.run_bind_ok (Gen.run_get s)]
  cases invariant args.checks "INV-10" (linkHolds s.unfinalized light)
      "unfinalized chain link broken on append" with
  | error v => exact ⟨rfl, .refl s⟩
  | ok _ => exact ⟨rfl, ⟨rfl, rfl, rfl⟩⟩

/-- Emitting a block, behind something that only made way for it. -/
theorem emitBlock_emits (batch : HotBatch) (es : List PortalRealtimeEvent) {u : EventState}
    (same : SameWatch s u) (none_ : emittedNumbers es = []) :
    Emits env s ((emitBlock args env batch).run u).state
      (es ++ ((emitBlock args env batch).run u).events) := by
  refine .block batch.header.number ?_ ?_ same.adopted rfl
  · show emittedNumbers (es ++ [blockEvent args batch]) = _
    rw [emittedNumbers_append, none_, List.nil_append, emittedNumbers, List.filterMap_cons,
      emitted?_blockEvent]
    rfl
  · show some (raiseBaseline u.deliveryBaseline _) = _
    rw [same.baseline]

theorem append_emits (batch : HotBatch) (es : List PortalRealtimeEvent) {u : EventState}
    (same : SameWatch s u) (none_ : emittedNumbers es = []) :
    let whole := (do
      appendBlock args (toLight batch.header)
      emitBlock args env batch
      pure true : EventGen Bool)
    Emits env s (whole.run u).state (es ++ (whole.run u).events) := by
  intro whole
  have quiet := appendBlock_same args u (toLight batch.header)
  cases appended : (appendBlock args (toLight batch.header)).run u with
  | mk fs v outcome =>
      rw [appended] at quiet
      obtain ⟨events, here⟩ := quiet
      obtain rfl : fs = [] := List.map_eq_nil_iff.1 events
      cases outcome with
      | error e =>
          have stop : whole.run u = _ := Gen.run_bind_error appended
          rw [stop]
          refine .nothing ?_ (same.trans here)
          rw [Turn.events, List.map_nil, List.append_nil, none_]
      | ok a =>
          have go : whole.run u = _ := Gen.run_bind_ok appended
          rw [go]
          exact emitBlock_emits batch es (same.trans here) none_

theorem beforeCadence_emits (args : EventArgs) (env : Env) (item : HotItem) (s : EventState) :
    Emits env s ((beforeCadence args env item).run s).state
      ((beforeCadence args env item).run s).events := by
  cases item with
  | tick => exact .nothing rfl (.refl s)
  | block batch =>
      unfold beforeCadence
      rw [Gen.run_bind_ok (Gen.run_get s)]
      cases reconcile s.unfinalized (toLight batch.header) s.anchor with
      | duplicate =>
          dsimp only
          split
          · exact emitBlock_emits batch [] (.refl s) rfl
          · exact .nothing rfl (.refl s)
      | gap => exact .nothing rfl (.refl s)
      | append => exact append_emits batch [] (.refl s) rfl
      | reorg ancestor reorged =>
          exact append_emits batch [.reorg ancestor reorged] ⟨rfl, rfl, rfl⟩ rfl

/-! ### The cadence -/

/-- The turn ends in the stalled-delivery error. -/
def StopsStalled {α : Type} (t : Turn EventState PortalRealtimeEvent RealtimeError α) : Prop :=
  ∃ head baseline silentMs, t.outcome = .error (.deliveryStalled head baseline silentMs)

/-- The watchdog's condition, for a head that is not the first one. -/
def Stalled (args : EventArgs) (now head : Int) (s : EventState) : Prop :=
  s.firstProbeAdopted = true ∧ ∃ baseline, s.deliveryBaseline = some baseline ∧
    head - baseline ≥ args.deliveryProgressThreshold ∧
      now - s.lastDeliveryMs ≥ args.deliveryProgressMaxMs

/-- What a head does to the watchdog's variables. -/
structure Folds (head : Int) (s t : EventState) : Prop where
  baseline : t.deliveryBaseline =
    if s.firstProbeAdopted = true then s.deliveryBaseline
    else some (raiseBaseline s.deliveryBaseline head)
  adopted : t.firstProbeAdopted = true
  lastAt : t.lastDeliveryMs = s.lastDeliveryMs

theorem Folds.same {head : Int} {u : EventState} (folds : Folds head s t) (same : SameWatch t u) :
    Folds head s u :=
  ⟨same.baseline.trans folds.baseline, same.adopted.trans folds.adopted,
    same.lastAt.trans folds.lastAt⟩

theorem checkDelivery_folds (args : EventArgs) (s : EventState) (now head : Int) :
    (Stalled args now head s ∧ StopsStalled ((checkDelivery args now head).run s)) ∨
      ¬Stalled args now head s ∧ ∃ t, (checkDelivery args now head).run s = ⟨[], t, .ok ()⟩ ∧
        Folds head s t := by
  unfold checkDelivery
  rw [Gen.run_bind_ok (Gen.run_get s)]
  cases adopted : s.firstProbeAdopted with
  | false =>
      refine .inr ⟨fun stalled => ?_, _, rfl, ?_, rfl, rfl⟩
      · rw [stalled.1] at adopted
        cases adopted
      · rw [adopted]
        rfl
  | true =>
      rw [if_neg (by decide)]
      cases baseline : s.deliveryBaseline with
      | none =>
          refine .inr ⟨fun stalled => ?_, s, rfl, ?_, adopted, rfl⟩
          · obtain ⟨_, b, isSome, _⟩ := stalled
            rw [baseline] at isSome
            cases isSome
          · rw [if_pos adopted]
      | some b =>
          dsimp only
          by_cases stalled : head - b ≥ args.deliveryProgressThreshold ∧
              now - s.lastDeliveryMs ≥ args.deliveryProgressMaxMs
          · rw [if_pos stalled]
            exact .inl ⟨⟨adopted, b, baseline, stalled⟩, _, _, _, rfl⟩
          · rw [if_neg stalled]
            refine .inr ⟨fun fatal => ?_, s, rfl, ?_, adopted, rfl⟩
            · obtain ⟨_, b', isSome, both⟩ := fatal
              rw [baseline] at isSome
              cases isSome
              exact stalled both
            · rw [if_pos adopted]

/-- Finalizing leaves the watchdog alone. -/
theorem finalizeAt_same (args : EventArgs) (s : EventState) (now : Int) (fh : FinalizedHead) :
    SameWatch s ((finalizeAt args now fh).run s).state ∧
      ¬StopsStalled ((finalizeAt args now fh).run s) := by
  have commit : ∀ tip remaining, SameWatch s ((commitFinalized tip remaining).run s).state ∧
      ¬StopsStalled ((commitFinalized tip remaining).run s) :=
    fun _ _ => ⟨⟨rfl, rfl, rfl⟩, nofun⟩
  have postpone : ∀ tip head hash, SameWatch s ((deferFinalize args now tip head hash).run s).state ∧
      ¬StopsStalled ((deferFinalize args now tip head hash).run s) := by
    intro tip head hash
    unfold deferFinalize
    rw [Gen.run_bind_ok (Gen.run_get s)]
    dsimp only
    split
    · exact ⟨⟨rfl, rfl, rfl⟩, nofun⟩
    · split
      · exact ⟨.refl s, nofun⟩
      · exact ⟨.refl s, nofun⟩
  unfold finalizeAt
  rw [Gen.run_bind_ok (Gen.run_get s)]
  dsimp only
  split
  · exact ⟨⟨rfl, rfl, rfl⟩, nofun⟩
  · split
    · exact commit _ _
    · split
      · split
        · exact ⟨.refl s, nofun⟩
        · exact commit _ _
      · split
        · exact postpone _ _ _
        · exact commit _ _

/-- A poll that brings a head: the watchdog ends the turn, or folds the head in. -/
theorem cadence_probed {fh : FinalizedHead}
    (due : env.now - s.lastFinalizePoll ≥ args.finalizePollMs)
    (probed : env.finalizedHead = some fh) :
    (StopsStalled ((runFinalizeCadence args env).run s) ↔ Stalled args env.now fh.number s) ∧
      (¬Stalled args env.now fh.number s →
        Folds fh.number s ((runFinalizeCadence args env).run s).state) := by
  have polled : (runFinalizeCadence args env).run s =
      (checkDelivery args env.now fh.number >>= fun _ => finalizeAt args env.now fh).run
        { s with lastFinalizePoll := env.now } := by
    unfold runFinalizeCadence
    rw [Gen.run_bind_ok (Gen.run_get s), if_pos due, probed]
    rfl
  rw [polled]
  have watch : Stalled args env.now fh.number { s with lastFinalizePoll := env.now } ↔
      Stalled args env.now fh.number s := Iff.rfl
  rcases checkDelivery_folds args { s with lastFinalizePoll := env.now } env.now fh.number with
    ⟨fatal, head, baseline, silentMs, stops⟩ | ⟨passes, t, checked, folds⟩
  · cases ended : (checkDelivery args env.now fh.number).run
        { s with lastFinalizePoll := env.now } with
    | mk es u outcome =>
        rw [ended] at stops
        subst stops
        rw [Gen.run_bind_error ended]
        exact ⟨⟨fun _ => watch.1 fatal, fun _ => ⟨_, _, _, rfl⟩⟩, fun not => absurd fatal not⟩
  · rw [Gen.run_bind_ok checked]
    obtain ⟨same, passes'⟩ := finalizeAt_same args t env.now fh
    exact ⟨⟨fun stops => absurd stops passes', fun fatal => absurd fatal passes⟩,
      fun _ => Folds.same ⟨folds.baseline, folds.adopted, folds.lastAt⟩ same⟩

/-- A turn without a head leaves the watchdog alone. -/
theorem cadence_silent (args : EventArgs) (env : Env) (s : EventState)
    (none_ : env.now - s.lastFinalizePoll ≥ args.finalizePollMs → env.finalizedHead = none) :
    SameWatch s ((runFinalizeCadence args env).run s).state ∧
      ¬StopsStalled ((runFinalizeCadence args env).run s) := by
  unfold runFinalizeCadence
  rw [Gen.run_bind_ok (Gen.run_get s)]
  by_cases due : env.now - s.lastFinalizePoll ≥ args.finalizePollMs
  · rw [if_pos due, none_ due]
    exact ⟨⟨rfl, rfl, rfl⟩, nofun⟩
  · rw [if_neg due]
    exact ⟨.refl s, nofun⟩

/-- The cadence emits no block. -/
theorem cadence_emittedNumbers (args : EventArgs) (env : Env) (s : EventState) :
    emittedNumbers ((runFinalizeCadence args env).run s).events = [] := by
  let view : Gen.View PortalRealtimeEvent (List Int) :=
    ⟨fun ns e => ns ++ emittedNumbers [e], fun _ _ => True⟩
  let R : List Int → EventState → Prop := fun ns _ => ns = []
  have free : ClockFree R R := ⟨fun held _ _ => held, fun _ _ held => held⟩
  have spec : Gen.Spec view (fun _ _ => True) R (runFinalizeCadence args env) (fun _ => R) R :=
    spec_runFinalizeCadence free fun fh a tip _ _ =>
      Gen.Spec.bind (Q := fun _ => R) (Gen.Spec.modify fun _ _ held => held.1) fun _ =>
        Gen.Spec.yield (fun _ _ _ => trivial) (fun _ _ _ => trivial) fun ns _ held => by
          show ns ++ [] = []
          rw [List.append_nil]
          exact held
  have folded : ∀ (es : List PortalRealtimeEvent) (ns : List Int),
      view.fold ns es = ns ++ emittedNumbers es := by
    intro es
    induction es with
    | nil => exact fun ns => (List.append_nil ns).symm
    | cons e es ih =>
        intro ns
        rw [Gen.View.fold_cons, ih, List.append_assoc, ← emittedNumbers_append]
        rfl
  have final : view.fold [] ((runFinalizeCadence args env).run s).events = [] :=
    spec.final (v := []) (s := s) rfl
  rw [folded] at final
  exact final

/-! ### Turns -/

/-- What is thrown before the cadence is no stall. -/
theorem beforeCadence_throws (args : EventArgs) (env : Env) (item : HotItem) :
    Gen.ThrowsOnly (fun r => ∀ head baseline silentMs, r ≠ .deliveryStalled head baseline silentMs)
      (beforeCadence args env item) := by
  have emit : ∀ batch, Gen.ThrowsOnly (fun r => ∀ head baseline silentMs,
      r ≠ .deliveryStalled head baseline silentMs) (emitBlock args env batch) := fun batch =>
    (Gen.throwsOnly_modify _).bind fun _ => Gen.throwsOnly_yield _
  have append : ∀ light, Gen.ThrowsOnly (fun r => ∀ head baseline silentMs,
      r ≠ .deliveryStalled head baseline silentMs) (appendBlock args light) := by
    intro light
    refine Gen.throwsOnly_get.bind fun a => ?_
    split
    · exact Gen.throwsOnly_throw nofun
    · exact Gen.throwsOnly_modify _
  cases item with
  | tick => exact Gen.throwsOnly_pure _
  | block batch =>
      refine Gen.throwsOnly_get.bind fun a => ?_
      split
      · split
        · exact (emit batch).bind fun _ => Gen.throwsOnly_pure _
        · exact Gen.throwsOnly_pure _
      · exact Gen.throwsOnly_throw nofun
      · exact (append _).bind fun _ => (emit batch).bind fun _ => Gen.throwsOnly_pure _
      · exact (Gen.throwsOnly_modify _).bind fun _ => (Gen.throwsOnly_yield _).bind fun _ =>
          (append _).bind fun _ => (emit batch).bind fun _ => Gen.throwsOnly_pure _

/-- How a turn goes on behind its first part: a cadence that polls, or nothing of note. -/
inductive GoesOn (args : EventArgs) (s : EventState) (input : HotItem × Env)
    (whole : Turn EventState PortalRealtimeEvent RealtimeError Unit) : Prop
  | polls (u : EventState) (es : List (PortalRealtimeEvent × EventState))
      (first : (beforeCadence args input.2 input.1).run s = ⟨es, u, .ok true⟩)
      (polling : polling args s input = some u)
      (due : input.2.now - u.lastFinalizePoll ≥ args.finalizePollMs)
      (state : whole.state = ((runFinalizeCadence args input.2).run u).state)
      (outcome : whole.outcome = ((runFinalizeCadence args input.2).run u).outcome)
  | quiet (polling : polling args s input = none)
      (same : SameWatch ((beforeCadence args input.2 input.1).run s).state whole.state)
      (passes : ¬StopsStalled whole)

theorem turn_goesOn (args : EventArgs) (s : EventState) (input : HotItem × Env) :
    GoesOn args s input ((turn args input).run s) := by
  have throws := beforeCadence_throws args input.2 input.1 s
  rw [show turn args input = _ from turn_eq args input.1 input.2]
  cases first : (beforeCadence args input.2 input.1).run s with
  | mk es u outcome =>
      rw [first] at throws
      rcases outcome with r | _ | _
      · rw [Gen.run_bind_error first]
        refine .quiet (by rw [polling, first]) (by rw [first]; exact .refl u) ?_
        rintro ⟨head, baseline, silentMs, stops⟩
        cases stops
        exact throws _ rfl _ _ _ rfl
      · rw [Gen.run_bind_ok first]
        exact .quiet (by rw [polling, first]) (by rw [first]; exact .refl u) nofun
      · rw [Gen.run_bind_ok first]
        by_cases due : input.2.now - u.lastFinalizePoll ≥ args.finalizePollMs
        · refine .polls u es first ?_ due rfl rfl
          rw [polling, first]
          exact if_pos due
        · obtain ⟨same, passes⟩ := cadence_silent args input.2 u
            fun isDue => absurd isDue due
          refine .quiet ?_ ?_ passes
          · rw [polling, first]
            exact if_neg due
          · rw [first]
            exact same

theorem turn_emittedNumbers (args : EventArgs) (s : EventState) (input : HotItem × Env) :
    emittedNumbers ((turn args input).run s).events =
      emittedNumbers ((beforeCadence args input.2 input.1).run s).events := by
  rw [show turn args input = _ from turn_eq args input.1 input.2]
  cases first : (beforeCadence args input.2 input.1).run s with
  | mk es u outcome =>
      rcases outcome with r | _ | _
      · rw [Gen.run_bind_error first]
        rfl
      · rw [Gen.run_bind_ok first]
        show emittedNumbers ((es ++ []).map Prod.fst) = _
        rw [List.append_nil]
        rfl
      · rw [Gen.run_bind_ok first]
        show emittedNumbers ((es ++ ((runFinalizeCadence args input.2).run u).trace).map Prod.fst) = _
        rw [List.map_append, emittedNumbers_append]
        have none_ := cadence_emittedNumbers args input.2 u
        rw [Turn.events] at none_
        rw [none_, List.append_nil]
        rfl

theorem WatchInv.emits (inv : WatchInv entered j s) (args : EventArgs) (input : HotItem × Env) :
    WatchInv entered (j.emits args s input) ((beforeCadence args input.2 input.1).run s).state := by
  have did := beforeCadence_emits args input.2 input.1 s
  unfold Journal.emits
  rw [turn_emittedNumbers]
  generalize ((beforeCadence args input.2 input.1).run s).events = es at did ⊢
  cases did with
  | nothing none_ same =>
      rw [none_, List.map_nil, List.append_nil]
      exact inv.same same
  | block n one baseline adopted lastAt =>
      rw [one]
      refine ⟨?_, adopted.trans inv.adopted, ?_⟩
      · rw [baseline, inv.baseline]
        exact (baseline_emitted j n _).symm
      · rw [lastAt]
        simp [Journal.lastAt]

/-- A head that is folded in is noted as the first one, or as a later one. -/
theorem WatchInv.folds {head : Int} (inv : WatchInv entered j s) (folds : Folds head s t) :
    WatchInv entered { j with heads := j.heads ++ [head] } t := by
  obtain ⟨emitted, heads⟩ := j
  refine ⟨?_, ?_, folds.lastAt.trans inv.lastAt⟩
  · rw [folds.baseline, inv.adopted]
    cases heads with
    | nil =>
        rw [inv.baseline]
        exact (baseline_first emitted head).symm
    | cons first later =>
        exact inv.baseline.trans (baseline_later ⟨emitted, first :: later⟩ (by simp)).symm
  · rw [folds.adopted]
    simp

theorem WatchInv.afterTurn {input : HotItem × Env} (inv : WatchInv entered j s)
    (passes : ¬StopsStalled ((turn args input).run s)) :
    WatchInv entered ((j.emits args s input).probes args s input) ((turn args input).run s).state := by
  have inv' := inv.emits args input
  unfold Journal.probes
  cases turn_goesOn args s input with
  | quiet none_ same _ =>
      rw [none_]
      exact inv'.same same
  | polls u es first polls due state outcome =>
      rw [polls, state]
      rw [first] at inv'
      dsimp only
      cases probed : input.2.finalizedHead with
      | none =>
          have same := (cadence_silent args input.2 u fun _ => probed).1
          rw [Option.map_none, Option.toList_none, List.append_nil]
          exact inv'.same same
      | some fh =>
          obtain ⟨stops, folds⟩ := cadence_probed due probed
          refine inv'.folds (folds fun stalled => passes ?_)
          obtain ⟨head, baseline, silentMs, is⟩ := stops.2 stalled
          exact ⟨head, baseline, silentMs, outcome.trans is⟩

/-- The watchdog's variables are those of the journal after every run. -/
theorem WatchInv.afterRun {inputs : List (HotItem × Env)} {es : List (PortalRealtimeEvent × EventState)}
    (inv : WatchInv entered j s) (run : (portalRealtimeEvents args inputs).run s = ⟨es, t, .ok ()⟩) :
    WatchInv entered (journal args s inputs j) t := by
  induction inputs generalizing s j es with
  | nil =>
      cases run
      exact inv
  | cons input rest ih =>
      cases first : (turn args input).run s with
      | mk fs u outcome =>
          cases outcome with
          | error r =>
              have stop : (portalRealtimeEvents args (input :: rest)).run s = _ :=
                Gen.run_bind_error first
              rw [stop] at run
              cases run
          | ok _ =>
              have go : (portalRealtimeEvents args (input :: rest)).run s = _ := Gen.run_bind_ok first
              rw [go] at run
              have passes : ¬StopsStalled ((turn args input).run s) := by
                rw [first]
                exact nofun
              have inv' := inv.afterTurn passes
              rw [first] at inv'
              rw [journal, first]
              have after : (portalRealtimeEvents args rest).run u =
                  ⟨((portalRealtimeEvents args rest).run u).trace, t, .ok ()⟩ := by
                injection run with _ state ended
                rw [← state, ← ended]
                rfl
              exact ih inv' after

end Turns

/-- At every poll behind the first successful one the baseline is the highest block emitted so
far, or the first head if that is higher; and a turn ends in the stalled-delivery error if and
only if it makes such a poll, the head is the threshold above that, and the last emission (or the
loop entry) is the bound ago. -/
theorem watchdog_exact (args : EventArgs) (anchor : Light) (entered : Int)
    (inputs : List (HotItem × Env)) {es : List (PortalRealtimeEvent × EventState)} {s : EventState}
    (run : (portalRealtimeEvents args inputs).run (.start anchor entered) = ⟨es, s, .ok ()⟩)
    (input : HotItem × Env) :
    let j := (journal args (.start anchor entered) inputs ⟨[], []⟩).emits args s input
    (∀ u first later, polling args s input = some u → j.heads = first :: later →
      u.deliveryBaseline = some (j.highest first)) ∧
    (StopsStalled ((turn args input).run s) ↔
      ∃ u fh first later, polling args s input = some u ∧ input.2.finalizedHead = some fh ∧
        j.heads = first :: later ∧
        fh.number - j.highest first ≥ args.deliveryProgressThreshold ∧
        input.2.now - j.lastAt entered ≥ args.deliveryProgressMaxMs) := by
  intro j
  have start : WatchInv entered ⟨[], []⟩ (.start anchor entered) := ⟨rfl, rfl, rfl⟩
  have inv : WatchInv entered j ((beforeCadence args input.2 input.1).run s).state :=
    (start.afterRun run).emits args input
  cases turn_goesOn args s input with
  | quiet none_ _ passes =>
      rw [none_]
      refine ⟨nofun, fun stops => absurd stops passes, ?_⟩
      rintro ⟨u, fh, first, later, polls, _⟩
      cases polls
  | polls u fs first polls due _ outcome =>
      rw [first] at inv
      have isU : ∀ v, polling args s input = some v → v = u := fun v is =>
        Option.some.inj (is.symm.trans polls)
      have baseline : ∀ h later, j.heads = h :: later →
          u.deliveryBaseline = some (j.highest h) := by
        intro h later heads
        have is := inv.baseline
        rw [Journal.baseline, heads] at is
        exact is
      refine ⟨fun v h later is heads => ?_, fun stops => ?_, ?_⟩
      · rw [isU v is]
        exact baseline h later heads
      · cases probed : input.2.finalizedHead with
        | none =>
            obtain ⟨head, b, silentMs, is⟩ := stops
            exact absurd ⟨head, b, silentMs, outcome.symm.trans is⟩
              (cadence_silent args input.2 u fun _ => probed).2
        | some fh =>
            obtain ⟨head, b, silentMs, is⟩ := stops
            obtain ⟨adopted, b', isB, behind, silent⟩ :=
              (cadence_probed due probed).1.1 ⟨head, b, silentMs, outcome.symm.trans is⟩
            rw [inv.adopted] at adopted
            cases heads : j.heads with
            | nil =>
                rw [heads] at adopted
                cases adopted
            | cons h later =>
                rw [baseline h later heads] at isB
                cases isB
                rw [inv.lastAt] at silent
                exact ⟨u, fh, h, later, polls, rfl, rfl, behind, silent⟩
      · rintro ⟨v, fh, h, later, _, probed, heads, behind, silent⟩
        rw [← inv.lastAt] at silent
        have adopted : u.firstProbeAdopted = true := by
          rw [inv.adopted, heads]
          rfl
        obtain ⟨head, b, silentMs, is⟩ := (cadence_probed due probed).1.2
          ⟨adopted, _, baseline h later heads, behind, silent⟩
        exact ⟨head, b, silentMs, outcome.trans is⟩

/-- Ten minutes behind the last block, sixteen blocks above it. -/
def stalledEnv : Env :=
  { deliveredAt := 605000, now := 605000, finalizedHead := some ⟨118, some "0x118"⟩ }

/-- The sample run emits two blocks before its first poll, and a reorg. -/
theorem watchdog_exact_sample :
    StopsStalled ((turn {} (.tick, stalledEnv)).run
      ((portalRealtimeEvents {} sampleRun).run (.start sampleAnchor 0)).state) := by
  have ran : (portalRealtimeEvents {} sampleRun).run (.start sampleAnchor 0) =
      ⟨((portalRealtimeEvents {} sampleRun).run (.start sampleAnchor 0)).trace,
        ((portalRealtimeEvents {} sampleRun).run (.start sampleAnchor 0)).state, .ok ()⟩ := rfl
  exact (watchdog_exact {} sampleAnchor 0 sampleRun ran (.tick, stalledEnv)).2.2
    ⟨_, _, 101, [], rfl, rfl, by decide, by decide, by decide⟩

end PortalPonder.Realtime
