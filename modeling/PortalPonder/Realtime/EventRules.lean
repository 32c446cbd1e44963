import PortalPonder.Realtime.Events
import Mathlib.Tactic.Common

/-!
# Proof rules for the event producer

Every result about the producer compares it with some consumer of its events, through a relation
between the consumer's value and the generator's variables. The rules here walk through the
producer's code once: a relation that does not depend on the clocks is kept by the finalize
cadence as soon as it is kept by committing a finalizable tip, and by a whole turn as soon as it
is kept by emitting, appending and reorging.
-/

namespace PortalPonder.Realtime

/-- What the guards of the cadence have established when it finalizes `tip`: the tip is the
window's block at the probed height, or just below it, and a probed hash is the tip's own. -/
structure Finalizable (fh : FinalizedHead) (window : List Light) (tip : Light) : Prop where
  found : (takeFinalized window fh.number).finalizedTip = some tip
  verified : ∀ hash, fh.hash = some hash → tip.number = fh.number ∧ tip.hash = hash

section Rules

variable {ν : Type} {V : Gen.View PortalRealtimeEvent ν} {Shows : ν → EventState → Prop}
variable {R E : ν → EventState → Prop} {args : EventArgs} {env : Env}

/-- The relation reads the window and the anchor only, and survives a throw. -/
structure ClockFree (R E : ν → EventState → Prop) : Prop where
  frame : ∀ {v s s'}, R v s → s'.unfinalized = s.unfinalized → s'.anchor = s.anchor → R v s'
  throws : ∀ v s, R v s → E v s

/-- The precondition after a read: the relation holds of what was read. -/
def At (R : ν → EventState → Prop) (a : EventState) (v : ν) (s : EventState) : Prop :=
  R v s ∧ s = a

theorem At.rel {a : EventState} : ∀ v s, At R a v s → R v s := fun _ _ h => h.1

theorem spec_modify_clocks {P : ν → EventState → Prop} {f : EventState → EventState}
    (free : ClockFree R E) (start : ∀ v s, P v s → R v s)
    (window : ∀ s, (f s).unfinalized = s.unfinalized) (anchor : ∀ s, (f s).anchor = s.anchor) :
    Gen.Spec V Shows P (Gen.modify f : EventGen Unit) (fun _ => R) E :=
  Gen.Spec.modify fun v s pre => free.frame (start v s pre) (window s) (anchor s)

theorem spec_throw {P : ν → EventState → Prop} {Q : Unit → ν → EventState → Prop}
    (free : ClockFree R E) (start : ∀ v s, P v s → R v s) (r : RealtimeError) :
    Gen.Spec V Shows P (Gen.throw r : EventGen Unit) Q E :=
  Gen.Spec.throw fun v s pre => free.throws v s (start v s pre)

theorem spec_checkDelivery (free : ClockFree R E) (now head : Int) :
    Gen.Spec V Shows R (checkDelivery args now head) (fun _ => R) E := by
  refine Gen.Spec.get_bind fun a => ?_
  by_cases first : a.firstProbeAdopted = false
  · rw [if_pos first]
    exact spec_modify_clocks free (At.rel (a := a)) (fun _ => rfl) (fun _ => rfl)
  · rw [if_neg first]
    cases a.deliveryBaseline with
    | none => exact Gen.Spec.pure (At.rel (a := a))
    | some baseline =>
        simp only
        by_cases stalled : head - baseline ≥ args.deliveryProgressThreshold ∧
            now - a.lastDeliveryMs ≥ args.deliveryProgressMaxMs
        · rw [if_pos stalled]
          exact spec_throw free (At.rel (a := a)) _
        · rw [if_neg stalled]
          exact Gen.Spec.pure (At.rel (a := a))

theorem spec_deferFinalize (free : ClockFree R E) (now : Int) (tip : Light) (head : Int)
    (hash : Hash) :
    Gen.Spec V Shows R (deferFinalize args now tip head hash) (fun _ => R) E := by
  refine Gen.Spec.get_bind fun a => ?_
  cases a.deferStreakStart with
  | none => exact spec_modify_clocks free (At.rel (a := a)) (fun _ => rfl) (fun _ => rfl)
  | some start =>
      simp only
      by_cases expired : now - start ≥ args.finalizeDeferMaxMs
      · rw [if_pos expired]
        exact spec_throw free (At.rel (a := a)) _
      · rw [if_neg expired]
        exact Gen.Spec.pure (At.rel (a := a))

/-- The wrong-fork guard lets only a finalizable tip through. -/
theorem spec_finalizeAt (free : ClockFree R E) (now : Int) (fh : FinalizedHead)
    (commit : ∀ a tip, Finalizable fh a.unfinalized tip →
      Gen.Spec V Shows (At R a)
        (commitFinalized tip (takeFinalized a.unfinalized fh.number).remaining) (fun _ => R) E) :
    Gen.Spec V Shows R (finalizeAt args now fh) (fun _ => R) E := by
  refine Gen.Spec.get_bind fun a => ?_
  simp only
  cases found : (takeFinalized a.unfinalized fh.number).finalizedTip with
  | none => exact spec_modify_clocks free (At.rel (a := a)) (fun _ => rfl) (fun _ => rfl)
  | some tip =>
      simp only
      cases probed : fh.hash with
      | none => exact commit a tip ⟨found, by simp [probed]⟩
      | some hash =>
          simp only
          by_cases atHead : tip.number = fh.number
          · rw [if_pos atHead]
            by_cases diverges : tip.hash ≠ hash
            · rw [if_pos diverges]
              exact spec_throw free (At.rel (a := a)) _
            · rw [if_neg diverges]
              have same : tip.hash = hash := not_not.1 diverges
              exact commit a tip ⟨found, by simp [probed, atHead, same]⟩
          · rw [if_neg atHead]
            -- the tip is at or below the probed height, so it is below it
            have below : tip.number < fh.number := by
              have low := (takeFinalized_mem found).2
              omega
            rw [if_pos below]
            exact (spec_deferFinalize free now tip fh.number hash).strengthen At.rel

theorem spec_runFinalizeCadence (free : ClockFree R E)
    (commit : ∀ fh a tip, env.finalizedHead = some fh → Finalizable fh a.unfinalized tip →
      Gen.Spec V Shows (At R a)
        (commitFinalized tip (takeFinalized a.unfinalized fh.number).remaining) (fun _ => R) E) :
    Gen.Spec V Shows R (runFinalizeCadence args env) (fun _ => R) E := by
  refine Gen.Spec.get_bind fun a => ?_
  by_cases due : env.now - a.lastFinalizePoll ≥ args.finalizePollMs
  · rw [if_pos due]
    refine Gen.Spec.bind (spec_modify_clocks free (At.rel (a := a)) (fun _ => rfl)
      (fun _ => rfl)) fun _ => ?_
    cases probed : env.finalizedHead with
    | none => exact spec_modify_clocks free (fun _ _ h => h) (fun _ => rfl) (fun _ => rfl)
    | some fh =>
        exact Gen.Spec.bind (spec_checkDelivery free env.now fh.number)
          fun _ => spec_finalizeAt free env.now fh fun a tip ok => commit fh a tip probed ok
  · rw [if_neg due]
    exact Gen.Spec.pure (At.rel (a := a))

/-- The assignment and the yield of a reorg. -/
def surfaceReorg (ancestor : Light) (reorged : List Light) : EventGen Unit := do
  Gen.modify fun s => { s with unfinalized := trimAbove ancestor.number s.unfinalized }
  Gen.yield (.reorg ancestor reorged)

/-- What a delivery owes to a relation. `Appending` and `Emitting` are the states before the
append and before the yield of the block. -/
structure DeliverRules (V : Gen.View PortalRealtimeEvent ν) (Shows : ν → EventState → Prop)
    (R E : ν → EventState → Prop) (args : EventArgs) (env : Env) (batch : HotBatch)
    (Appending Emitting : ν → EventState → Prop) : Prop where
  free : ClockFree R E
  cadence : Gen.Spec V Shows R (runFinalizeCadence args env) (fun _ => R) E
  emit : Gen.Spec V Shows Emitting (emitBlock args env batch) (fun _ => R) E
  append : Gen.Spec V Shows Appending (appendBlock args (toLight batch.header))
    (fun _ => Emitting) E
  redeliver : ∀ v s, R v s → (toLight batch.header).hash = (tipOf s.anchor s.unfinalized).hash →
    Emitting v s
  extend : ∀ v s, R v s →
    (toLight batch.header).parentHash = (tipOf s.anchor s.unfinalized).hash → Appending v s
  reorg : ∀ a kept reorged, a.unfinalized = kept ++ reorged → reorged ≠ [] →
    (toLight batch.header).parentHash = (tipOf a.anchor kept).hash →
    (kept = [] → ∀ b ∈ a.unfinalized, (toLight batch.header).parentHash ≠ b.hash) →
    Gen.Spec V Shows (At R a) (surfaceReorg (tipOf a.anchor kept) reorged) (fun _ => Appending) E

theorem spec_deliver {batch : HotBatch} {Appending Emitting : ν → EventState → Prop}
    (rules : DeliverRules V Shows R E args env batch Appending Emitting) :
    Gen.Spec V Shows R (deliver args env batch) (fun _ => R) E := by
  refine Gen.Spec.get_bind fun a => ?_
  have answers := reconcile_cases a.unfinalized (toLight batch.header) a.anchor
  generalize reconcile a.unfinalized (toLight batch.header) a.anchor = answer at answers
  have emitted : Gen.Spec V Shows Emitting
      (emitBlock args env batch >>= fun _ => runFinalizeCadence args env) (fun _ => R) E :=
    Gen.Spec.bind rules.emit fun _ => rules.cadence
  have appended : Gen.Spec V Shows Appending
      (appendBlock args (toLight batch.header) >>= fun _ =>
        emitBlock args env batch >>= fun _ => runFinalizeCadence args env) (fun _ => R) E :=
    Gen.Spec.bind rules.append fun _ => emitted
  cases answers with
  | duplicate dup =>
      simp only
      by_cases awaited : env.shouldRedeliver (toLight batch.header).hash
      · rw [if_pos awaited]
        refine emitted.strengthen ?_
        rintro v s ⟨rel, rfl⟩
        exact rules.redeliver v s rel dup
      · rw [if_neg awaited]
        exact Gen.Spec.pure (At.rel (a := a))
  | gap notTip orphan => exact spec_throw rules.free (At.rel (a := a)) _
  | append notTip parent =>
      refine appended.strengthen ?_
      rintro v s ⟨rel, rfl⟩
      exact rules.extend v s rel parent
  | @reorg kept reorged notTip splits nonempty parent noParent =>
      have surfaced := rules.reorg a kept reorged splits nonempty parent noParent
      intro v s start
      -- the two yields of the branch, regrouped
      have regroup := Gen.Spec.bind surfaced (fun _ => appended) v s start
      exact regroup

/-- A relation that ticks and deliveries keep is kept by the whole run. -/
theorem spec_portalRealtimeEvents (inputs : List (HotItem × Env))
    (tick : ∀ env, (HotItem.tick, env) ∈ inputs →
      Gen.Spec V Shows R (runFinalizeCadence args env) (fun _ => R) E)
    (block : ∀ batch env, (HotItem.block batch, env) ∈ inputs →
      Gen.Spec V Shows R (deliver args env batch) (fun _ => R) E) :
    Gen.Spec V Shows R (portalRealtimeEvents args inputs) (fun _ => R) E := by
  refine Gen.Spec.forEach ?_
  rintro ⟨item, env⟩ mem
  cases item with
  | tick => exact tick env mem
  | block batch => exact block batch env mem

end Rules

end PortalPonder.Realtime
