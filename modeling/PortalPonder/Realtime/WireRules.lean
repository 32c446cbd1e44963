import PortalPonder.Realtime.Wire
import Mathlib.Tactic.Common

/-!
# What one event does to the wire

`Handled` lists every way in which the wire takes an event: what it forwards, its next state, and
whether it stops. `onEvent_handled` says that the list is complete; nothing later unfolds the
event loop.
-/

namespace PortalPonder.Realtime

open Historical (Children)

variable {F : Type} [DecidableEq F] {args : WireArgs F} {s : WireState F}

/-- The error of a turn. -/
def Turn.stop {σ ε ρ α : Type} (t : Turn σ ε ρ α) : Option ρ :=
  match t.outcome with
  | .ok _ => none
  | .error r => some r

/-- A finalize that would take ponder back. -/
def Stale (args : WireArgs F) (s : WireState F) (block : Light) : Prop :=
  block.number ≤ args.startupFinalized ∨ block.number ≤ s.lastFinalized

instance (args : WireArgs F) (s : WireState F) (block : Light) : Decidable (Stale args s block) :=
  inferInstanceAs (Decidable (_ ∨ _))

/-- What a finalize makes of the wire. -/
def emitted (args : WireArgs F) (s : WireState F) (block : Light) :
    List (RealtimeSyncEvent F) × WireState F :=
  if Stale args s block then ([], s)
  else ([.finalize (lightToLightBlock block)], { s with lastFinalized := block.number })

/-- The held finalize is let go. -/
def released (args : WireArgs F) (s : WireState F) : List (RealtimeSyncEvent F) × WireState F :=
  match s.heldFinalize with
  | none => ([], s)
  | some held => emitted args { s with heldFinalize := none } held

/-- The children of a block are folded in, and it is awaited no more. -/
def WireState.discover (args : WireArgs F) (s : WireState F) (block : SyncBlockHeader)
    (logs : List SyncLog) : WireState F :=
  { s with
    awaiting := none
    childAddresses := (applyDiscovered (discoverChildAddresses args logs) s.childAddresses
      (hexToNumber block.number)).1 }

/-- What is forwarded of a block: it is trimmed when some request was widened. -/
def sentEvent (args : WireArgs F) (s : WireState F) (block : SyncBlockHeader) (logs : List SyncLog)
    (transactions : List SyncTransaction) (hasMatchedFilter : Bool) : TrimmedEvent :=
  if s.wildcardLogKeys.isEmpty then ⟨logs, transactions, hasMatchedFilter⟩
  else trimWildcardRealtimeEvent args s.childAddresses block logs transactions

/-- The block event that ponder receives. -/
def sentBlock (args : WireArgs F) (s : WireState F) (block : SyncBlockHeader) (logs : List SyncLog)
    (transactions : List SyncTransaction) (hasMatchedFilter : Bool) : RealtimeSyncEvent F :=
  let sent := sentEvent args (s.discover args block logs) block logs transactions hasMatchedFilter
  .block sent.hasMatchedFilter block sent.logs sent.transactions (discoverChildAddresses args logs)

inductive Handled (args : WireArgs F) (s : WireState F) :
    PortalRealtimeEvent → List (RealtimeSyncEvent F) → WireState F → Option WireStop → Prop
  | /-- the finalize waits for the awaited block -/
    held {block : Light} {a : Awaiting} (awaits : s.awaiting = some a)
      (reaches : a.number ≤ block.number) :
      Handled args s (.finalize block) []
        { s with heldFinalize :=
            if s.heldFinalize.all fun held => held.number < block.number then some block
            else s.heldFinalize } none
  | finalized {block : Light} (below : ∀ a, s.awaiting = some a → block.number < a.number) :
      Handled args s (.finalize block) (emitted args s block).1 (emitted args s block).2 none
  | reorged {ancestor : Light} {reorgedBlocks : List Light} :
      Handled args s (.reorg ancestor reorgedBlocks)
        [.reorg (lightToLightBlock ancestor) (reorgedBlocks.map lightToLightBlock)]
        ((s.forget reorgedBlocks).prune args ancestor.number) none
  | /-- another block arrived in place of the awaited one -/
    lost {block logs transactions hasMatchedFilter batchId batchSize} {a : Awaiting}
      (awaits : s.awaiting = some a) (other : block.hash ≠ a.hash) :
      Handled args s (.block block logs transactions hasMatchedFilter batchId batchSize) [] s
        (some (.lostRedelivery a (hexToNumber block.number) block.hash))
  | /-- the block is held back, and awaited -/
    suppressed {block logs transactions hasMatchedFilter batchId batchSize}
      (awaited : ∀ a, s.awaiting = some a → block.hash = a.hash)
      (incomplete : (s.discover args block logs).incomplete args = true) :
      Handled args s (.block block logs transactions hasMatchedFilter batchId batchSize) []
        { (s.discover args block logs).rebuildLogs args with
          awaiting := some ⟨block.hash, hexToNumber block.number⟩ } none
  | forwarded {block logs transactions hasMatchedFilter batchId batchSize}
      (awaited : ∀ a, s.awaiting = some a → block.hash = a.hash)
      (complete : (applyDiscovered (discoverChildAddresses args logs) s.childAddresses
          (hexToNumber block.number)).2 = true →
        (s.discover args block logs).incomplete args = false) :
      Handled args s (.block block logs transactions hasMatchedFilter batchId batchSize)
        (sentBlock args s block logs transactions hasMatchedFilter ::
          (released args (s.discover args block logs)).1)
        (released args (s.discover args block logs)).2
        (if args.endBlock.any fun endBlock => endBlock ≤ hexToNumber block.number then
          some .completed else none)

omit [DecidableEq F] in
variable (args s) in
theorem emitFinalize_run (block : Light) : ∃ trace,
    (emitFinalize args block).run s = ⟨trace, (emitted args s block).2, .ok ()⟩ ∧
      trace.map Prod.fst = (emitted args s block).1 := by
  unfold emitFinalize emitted
  simp only [Gen.run_bind, Gen.run_get, List.nil_append]
  by_cases stale : Stale args s block
  · rw [if_pos stale, if_pos (show _ ∨ _ from stale)]
    exact ⟨[], rfl, rfl⟩
  · rw [if_neg stale, if_neg (show ¬ (_ ∨ _) from stale)]
    exact ⟨_, rfl, rfl⟩

theorem onFinalize_handled (block : Light) :
    Handled args s (.finalize block) ((onFinalize args block).run s).events
      ((onFinalize args block).run s).state (Turn.stop ((onFinalize args block).run s)) := by
  unfold onFinalize
  simp only [Gen.run_bind, Gen.run_get, List.nil_append]
  by_cases reaches : (s.awaiting.any fun a => a.number ≤ block.number) = true
  · rw [if_pos reaches]
    obtain ⟨a, awaits, le⟩ := (Option.any_eq_true ..).1 reaches
    have handled : Handled args s _ _ _ _ := .held awaits (of_decide_eq_true le)
    by_cases higher : (s.heldFinalize.all fun held => held.number < block.number) = true
    · rw [if_pos higher] at handled ⊢
      exact handled
    · rw [if_neg higher] at handled ⊢
      exact handled
  · rw [if_neg reaches]
    obtain ⟨trace, run, events⟩ := emitFinalize_run args s block
    rw [run]
    show Handled args s (.finalize block) (trace.map Prod.fst) _ none
    rw [events]
    refine .finalized fun a awaits => ?_
    rw [awaits] at reaches
    have notBelow : ¬ a.number ≤ block.number := fun le => reaches (decide_eq_true le)
    omega

variable (args s) in
theorem forwardBlock_run (block : SyncBlockHeader) (logs : List SyncLog)
    (transactions : List SyncTransaction) (hasMatchedFilter : Bool)
    (discovered : List (F × List Address)) :
    let t := (forwardBlock args block logs transactions hasMatchedFilter discovered).run s
    let sent := sentEvent args s block logs transactions hasMatchedFilter
    t.events = .block sent.hasMatchedFilter block sent.logs sent.transactions discovered ::
        (released args s).1 ∧
      t.state = (released args s).2 ∧
      Turn.stop t = if args.endBlock.any fun endBlock => endBlock ≤ hexToNumber block.number then
        some .completed else none := by
  intro t sent
  have tail : ∀ s' : WireState F,
      ((if args.endBlock.any fun endBlock => endBlock ≤ hexToNumber block.number then
          Gen.throw .completed else pure () : WireGen F Unit).run s') =
        ⟨[], s', if args.endBlock.any fun endBlock => endBlock ≤ hexToNumber block.number then
          .error .completed else .ok ()⟩ := by
    intro s'
    split <;> rfl
  have stops : ∀ o : Bool, Turn.stop (⟨[], s, if o = true then .error .completed else .ok ()⟩ :
      Turn (WireState F) (RealtimeSyncEvent F) WireStop Unit) =
        if o = true then some .completed else none := by
    intro o
    cases o <;> rfl
  cases held : s.heldFinalize with
  | none =>
      have run : t = ⟨[(.block sent.hasMatchedFilter block sent.logs sent.transactions discovered,
          s)], s, if args.endBlock.any fun endBlock => endBlock ≤ hexToNumber block.number then
          .error .completed else .ok ()⟩ := by
        show (forwardBlock args block logs transactions hasMatchedFilter discovered).run s = _
        unfold forwardBlock
        simp only [Gen.run_bind, Gen.run_get, Gen.run_yield, held, tail,
          List.nil_append, List.append_nil]
        rfl
      unfold released
      rw [held, run]
      exact ⟨rfl, rfl, stops _⟩
  | some b =>
      obtain ⟨trace, emits, events⟩ := emitFinalize_run args { s with heldFinalize := none } b
      have run : t = ⟨(.block sent.hasMatchedFilter block sent.logs sent.transactions discovered,
          s) :: trace, (emitted args { s with heldFinalize := none } b).2,
          if args.endBlock.any fun endBlock => endBlock ≤ hexToNumber block.number then
          .error .completed else .ok ()⟩ := by
        show (forwardBlock args block logs transactions hasMatchedFilter discovered).run s = _
        unfold forwardBlock
        simp only [Gen.run_bind, Gen.run_get, Gen.run_yield, held, Gen.run_modify, emits, tail,
          List.nil_append, List.append_nil]
        rfl
      unfold released
      rw [held, run]
      refine ⟨?_, rfl, stops _⟩
      show _ :: trace.map Prod.fst = _
      rw [events]

theorem acceptBlock_run {block : SyncBlockHeader} {logs : List SyncLog}
    {transactions : List SyncTransaction} {hasMatchedFilter : Bool} :
    (acceptBlock args block logs transactions hasMatchedFilter).run s =
      if (applyDiscovered (discoverChildAddresses args logs) s.childAddresses
            (hexToNumber block.number)).2 = true ∧
          (s.discover args block logs).incomplete args = true then
        ⟨[], { (s.discover args block logs).rebuildLogs args with
          awaiting := some ⟨block.hash, hexToNumber block.number⟩ }, .ok ()⟩
      else (forwardBlock args block logs transactions hasMatchedFilter
        (discoverChildAddresses args logs)).run (s.discover args block logs) := by
  unfold acceptBlock WireState.discover
  simp only [Gen.run_bind, Gen.run_get, Gen.run_modify, List.nil_append]
  split
  · rfl
  · generalize (forwardBlock args block logs transactions hasMatchedFilter
      (discoverChildAddresses args logs)).run _ = t
    cases t with
    | mk trace state outcome => cases outcome <;> rfl

theorem onBlock_handled {block : SyncBlockHeader} {logs : List SyncLog}
    {transactions : List SyncTransaction} {hasMatchedFilter : Bool}
    (batchId batchSize : Option Nat) :
    let t := (onBlock args block logs transactions hasMatchedFilter).run s
    Handled args s (.block block logs transactions hasMatchedFilter batchId batchSize) t.events
      t.state (Turn.stop t) := by
  intro t
  cases other : s.awaiting.filter fun a => block.hash ≠ a.hash with
  | some a =>
      obtain ⟨awaits, differs⟩ := Option.filter_eq_some_iff.1 other
      have run : t = ⟨[], s, .error (.lostRedelivery a (hexToNumber block.number) block.hash)⟩ := by
        show (onBlock args block logs transactions hasMatchedFilter).run s = _
        unfold onBlock
        simp only [Gen.run_bind, Gen.run_get, other, Gen.run_throw, List.nil_append]
      rw [run]
      exact .lost awaits (of_decide_eq_true differs)
  | none =>
      have awaited : ∀ a, s.awaiting = some a → block.hash = a.hash := by
        intro a awaits
        rw [awaits] at other
        by_contra differs
        rw [Option.filter_some, if_pos (decide_eq_true differs)] at other
        cases other
      have run : t = (acceptBlock args block logs transactions hasMatchedFilter).run s := by
        show (onBlock args block logs transactions hasMatchedFilter).run s = _
        unfold onBlock
        simp only [Gen.run_bind, Gen.run_get, other, List.nil_append]
      rw [run, acceptBlock_run]
      split
      · next holds => exact .suppressed awaited holds.2
      · next fails =>
        obtain ⟨events, state, stop⟩ := forwardBlock_run args (s.discover args block logs) block
          logs transactions hasMatchedFilter (discoverChildAddresses args logs)
        rw [events, state, stop]
        refine .forwarded awaited fun added => ?_
        cases incomplete : (s.discover args block logs).incomplete args with
        | false => rfl
        | true => exact absurd ⟨added, incomplete⟩ fails

/-- Every way in which the wire takes an event. -/
theorem onEvent_handled (e : PortalRealtimeEvent) :
    Handled args s e ((onEvent args e).run s).events ((onEvent args e).run s).state
      (Turn.stop ((onEvent args e).run s)) := by
  cases e with
  | finalize block => exact onFinalize_handled block
  | reorg ancestor reorgedBlocks => exact .reorged
  | block block logs transactions hasMatchedFilter batchId batchSize =>
      exact onBlock_handled batchId batchSize

end PortalPonder.Realtime
