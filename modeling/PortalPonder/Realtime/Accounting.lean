import PortalPonder.Realtime.WireOrder
import PortalPonder.Realtime.Children

/-!
# The account of a run

Over every run of the producer and the wire, what the wire has forwarded is the surviving chain
but for the awaited block, and every finalize that it has taken was forwarded, in order, or is
held.
-/

namespace PortalPonder.Realtime

variable {F : Type} [DecidableEq F]

/-! ## The invariant of the pipe -/

/-- What was taken is accounted for, and what is pending may be taken next. -/
structure PipeInv (K : Light → Prop) (args : WireArgs F) (startup : Light) (p : Pipe F) :
    Prop where
  wire : WireInv K args startup p.consumed p.forwarded p.wire
  known : ∀ e ∈ p.pending, Known K e
  offered : ¬ Lost p.stop →
    Offered p.wire.awaits (p.consumed.foldl EventLog.apply ⟨[], startup⟩) p.pending
  tracks : ¬ Lost p.stop →
    Tracks K ((p.consumed ++ p.pending).foldl EventLog.apply ⟨[], startup⟩) p.producer

section Invariant

variable {K : Light → Prop} {eventArgs : EventArgs} {args : WireArgs F} {startup : Light}
  {p q : Pipe F}

theorem PipeInv.start (base : Historical.Children F Address) (now : Int) (known : K startup)
    (same : args.startupFinalized = startup.number) :
    PipeInv K args startup (.start args base startup now) := by
  refine ⟨⟨?_, ?_, ?_, rfl⟩, ?_, fun _ => trivial, fun _ => ?_⟩
  · refine ⟨.nil startup, ?_, ?_, [], rfl, rfl⟩
    · intro b mem
      rw [List.mem_singleton.1 mem]
      exact known
    · intro b mem
      cases mem
  · exact .even rfl rfl rfl same
  · refine ⟨Int.le_of_eq same.symm, List.pairwise_singleton _ _, ?_, ?_⟩
    · intro n mem
      cases mem
    · intro pre block post splits
      change [] = _ at splits
      simp at splits
  · intro e mem
    cases mem
  · refine ⟨rfl, .nil startup, ?_⟩
    intro b mem
    rw [List.mem_singleton.1 mem]
    exact known

omit [DecidableEq F] in
/-- A turn of the producer. The wire stands still. -/
theorem PipeInv.turn (coherent : Coherent K) (inv : PipeInv K args startup p) {item : HotItem}
    {env : Env} {keys : List (WildcardLogRequestKey Hex)}
    (delivers : Pipe.Delivers K p (.turn item env keys))
    (taken : p.onTurn eventArgs item env keys = some q) : PipeInv K args startup q := by
  obtain ⟨drained, running, rfl⟩ := onTurn_cases taken
  have notLost : ¬ Lost p.stop := by
    rw [running]
    exact id
  have known : ∀ b, item.light? = some b → K b := by
    intro b isLight
    cases item with
    | tick => cases isLight
    | block batch =>
        obtain rfl := Option.some.inj isLight
        exact delivers
  have tracks := inv.tracks notLost
  rw [drained, List.append_nil] at tracks
  obtain ⟨offered, tracks'⟩ :=
    offered_turn coherent eventArgs (Pipe.handshake p.wire env) tracks known
  refine ⟨⟨inv.wire.chained, inv.wire.mode.of_same rfl rfl rfl, inv.wire.finals,
    inv.wire.accounted⟩, ?_, fun _ => offered, fun _ => ?_⟩
  · exact known_turn eventArgs (Pipe.handshake p.wire env) p.producer known
  · rw [List.foldl_append]
    exact tracks'

/-- A refused block changes nothing. -/
theorem Handled.refused {w w' : WireState F} {e : PortalRealtimeEvent}
    {outs : List (RealtimeSyncEvent F)} {stop : Option WireStop}
    (handled : Handled args w e outs w' stop) (lost : Lost stop) : outs = [] ∧ w' = w := by
  cases handled with
  | lost awaits other => exact ⟨rfl, rfl⟩
  | held awaits reaches => cases lost
  | finalized below => cases lost
  | reorged => cases lost
  | suppressed awaited incomplete => cases lost
  | forwarded awaited complete =>
      split at lost
      · cases lost
      · cases lost

/-- A wire that still takes events has not refused a block. -/
theorem running_of_onConsume (taken : p.onConsume args = some q) : ¬ Lost p.stop := by
  unfold Pipe.onConsume at taken
  intro lost
  rw [if_pos] at taken
  · cases taken
  · intro none_
    rw [none_] at lost
    exact lost

/-- The wire takes an event. -/
theorem PipeInv.consume (coherent : Coherent K) (start : args.startupFinalized = startup.number)
    (inv : PipeInv K args startup p) (taken : p.onConsume args = some q) :
    PipeInv K args startup q := by
  have running := running_of_onConsume taken
  obtain ⟨e, rest, outs, w', stop, pending, handled, rfl⟩ := onConsume_cases taken
  have knownAll := inv.known
  have offered := inv.offered running
  have tracks := inv.tracks running
  rw [pending] at knownAll offered tracks
  obtain ⟨legal, fresh, tail⟩ := offered
  have laterKnown : ∀ x ∈ rest, Known K x := fun x mem => knownAll x (List.mem_cons_of_mem e mem)
  by_cases lost : Lost stop
  · obtain ⟨rfl, rfl⟩ := handled.refused lost
    refine ⟨?_, laterKnown, fun kept => absurd lost kept, fun kept => absurd lost kept⟩
    show WireInv K args startup (if Lost stop then _ else _) (p.forwarded ++ []) p.wire
    rw [if_pos lost, List.append_nil]
    exact inv.wire
  · refine ⟨?_, laterKnown, fun _ => ?_, fun _ => ?_⟩
    · show WireInv K args startup (if Lost stop then _ else _) _ _
      rw [if_neg lost]
      exact inv.wire.step coherent start legal fresh (knownAll e List.mem_cons_self) handled lost
    · show Offered _ (List.foldl _ _ (if Lost stop then _ else _)) rest
      rw [if_neg lost, foldLog_snoc]
      exact tail.offered _
    · show Tracks K (List.foldl _ _ ((if Lost stop then _ else _) ++ rest)) p.producer
      rw [if_neg lost, List.append_assoc]
      exact tracks

theorem pipeInv_of_reach (coherent : Coherent K) (start : args.startupFinalized = startup.number)
    (known : K startup) {base : Historical.Children F Address} {now : Int}
    (reached : Machine.Reach (Pipe.step eventArgs args) (Pipe.Delivers K)
      (.start args base startup now) p) : PipeInv K args startup p := by
  refine reached.invariant (.start base now known start) fun p a q _ inv delivers taken => ?_
  cases a with
  | turn item env keys => exact inv.turn coherent delivers taken
  | consume => exact inv.consume coherent start taken

/-! ## The account -/

/-- What has been forwarded, at any moment of a run. -/
structure Accounts (startup : Light) (p : Pipe F) : Prop where
  /-- finalizes rise above the startup boundary -/
  rising : (startup.number :: finalizeNumbers p.forwarded).Pairwise (· < ·)
  /-- a finalize follows its block, which was not rolled back -/
  grounded : ∀ pre block post, p.forwarded = pre ++ .finalize block :: post →
    ∃ b ∈ receivedBlocks pre, lightToLightBlock b = block
  /-- no finalize is lost -/
  accounted : (consumedFinalizes p.consumed).map lightToLightBlock =
    receivedFinalizes p.forwarded ++ p.wire.heldFinalize.toList.map lightToLightBlock
  /-- only the finalize of the awaited block is held -/
  held : ∀ b, p.wire.heldFinalize = some b → p.wire.awaiting = some ⟨b.hash, b.number⟩
  /-- the blocks are the surviving chain, but for the awaited one -/
  blocks : ∃ awaited, survivingChain p.consumed = receivedBlocks p.forwarded ++ awaited ∧
    awaited.map (fun b => Awaiting.mk b.hash b.number) = p.wire.awaiting.toList
  linked : Linked startup (survivingChain p.consumed)
  /-- each hash once -/
  distinct : (survivingChain p.consumed).Pairwise fun a b => a.hash ≠ b.hash

/-- What happens to a finalize when the wire takes one event. -/
structure FinalizeKept (p q : Pipe F) : Prop where
  /-- a finalize that reaches the awaited block is its finalize, and waits -/
  waits : ∀ a b rest, p.wire.awaiting = some a → p.pending = .finalize b :: rest →
    a.number ≤ b.number →
      a = ⟨b.hash, b.number⟩ ∧ q.forwarded = p.forwarded ∧ q.wire.heldFinalize = some b
  /-- a finalize below the awaited block does not wait -/
  passes : ∀ a b rest, p.wire.awaiting = some a → p.pending = .finalize b :: rest →
    b.number < a.number → q.forwarded = p.forwarded ++ [.finalize (lightToLightBlock b)]
  /-- a finalize that waits goes on waiting, or goes out right after its block -/
  follows : ∀ b, p.wire.heldFinalize = some b →
    q.forwarded = p.forwarded ∧ q.wire.heldFinalize = some b ∨
      ∃ matched block logs transactions children, ofBlock block = b ∧
        q.forwarded = p.forwarded ++ [.block matched block logs transactions children,
          .finalize (lightToLightBlock b)]

omit [DecidableEq F] in
theorem PipeInv.accounts (coherent : Coherent K) (inv : PipeInv K args startup p) :
    Accounts startup p := by
  obtain ⟨chained, mode, finals, accounted⟩ := inv.wire
  refine ⟨finals.rising, finals.grounded, accounted, ?_, ?_, chained.linked,
    chained.distinct coherent⟩
  · intro b isHeld
    cases mode with
    | even free held => rw [held] at isHeld; cases isHeld
    | awaits x awaiting held => rw [held] at isHeld; cases isHeld
    | holds x awaiting held =>
        rw [held] at isHeld
        obtain rfl := Option.some.inj isHeld
        exact awaiting
  · cases awaits : p.wire.awaiting with
    | none => exact ⟨[], by rw [List.append_nil]; exact (mode.free awaits).2.1, rfl⟩
    | some a =>
        obtain ⟨x, rfl, splits, -⟩ := mode.awaited awaits
        exact ⟨[x], splits, rfl⟩

omit [DecidableEq F] in
/-- While a finalize is held, its block is final and the producer's newest. -/
theorem PipeInv.holds (inv : PipeInv K args startup p) {b : Light}
    (isHeld : p.wire.heldFinalize = some b) :
    (p.consumed.foldl EventLog.apply ⟨[], startup⟩).window = [] ∧
      p.wire.awaiting = some ⟨b.hash, b.number⟩ ∧ b ∈ survivingChain p.consumed ∧
      p.wire.lastFinalized < b.number := by
  cases inv.wire.mode with
  | even free held => rw [held] at isHeld; cases isHeld
  | awaits x awaiting held => rw [held] at isHeld; cases isHeld
  | holds x awaiting held splits window anchor last =>
      rw [held] at isHeld
      obtain rfl := Option.some.inj isHeld
      refine ⟨window, awaiting, ?_, last⟩
      rw [splits]
      exact List.mem_append_right _ (List.mem_singleton.2 rfl)

omit [DecidableEq F] in
/-- A finalize is final above the boundary that was reached, so it is not stale. -/
theorem PipeInv.finalize_cases (start : args.startupFinalized = startup.number)
    (inv : PipeInv K args startup p) (running : ¬ Lost p.stop) {a : Awaiting} {b : Light}
    {rest : List PortalRealtimeEvent} (awaits : p.wire.awaiting = some a)
    (pending : p.pending = .finalize b :: rest) :
    p.wire.heldFinalize = none ∧ ¬ Stale args p.wire b := by
  have offered := inv.offered running
  rw [pending] at offered
  obtain ⟨⟨⟨mid, splits⟩, rises⟩, -⟩ := offered
  have fromStartup := inv.wire.chained.anchor_startup
  cases held : p.wire.heldFinalize with
  | some x =>
      obtain ⟨window, -⟩ := inv.holds held
      rw [window] at splits
      cases mid <;> cases splits
  | none =>
      obtain ⟨x, -, -, -, current⟩ := inv.wire.mode.awaited awaits
      have last := current held
      exact ⟨rfl, not_stale start (by omega) (by omega)⟩

/-- What the wire does with the finalizes when it takes one event. -/
theorem PipeInv.finalizeKept (coherent : Coherent K)
    (start : args.startupFinalized = startup.number) (inv : PipeInv K args startup p)
    (taken : p.onConsume args = some q) : FinalizeKept p q := by
  have running := running_of_onConsume taken
  have inv' := inv.consume coherent start taken
  obtain ⟨e, tail, outs, w', stop, pending, handled, rfl⟩ := onConsume_cases taken
  refine ⟨?_, ?_, ?_⟩
  · intro a b rest awaits isNext reaches
    obtain ⟨none_, -⟩ := inv.finalize_cases start running awaits isNext
    obtain ⟨rfl, rfl⟩ := List.cons.inj (pending.symm.trans isNext)
    cases handled with
    | finalized below => exact absurd (below a awaits) (by omega)
    | held awaits' =>
        have keeps : (if p.wire.heldFinalize.all fun held => held.number < b.number then some b
            else p.wire.heldFinalize) = some b := by
          rw [none_]
          rfl
        obtain ⟨-, awaiting, -⟩ := inv'.holds keeps
        exact ⟨Option.some.inj (awaits.symm.trans awaiting), List.append_nil _, keeps⟩
  · intro a b rest awaits isNext below
    obtain ⟨-, fresh⟩ := inv.finalize_cases start running awaits isNext
    obtain ⟨rfl, rfl⟩ := List.cons.inj (pending.symm.trans isNext)
    cases handled with
    | held awaits' reaches =>
        obtain rfl := Option.some.inj (awaits.symm.trans awaits')
        exact absurd reaches (by omega)
    | finalized =>
        show p.forwarded ++ (emitted args p.wire b).1 = _
        rw [emitted_fresh fresh]
  · intro b held
    obtain ⟨window, awaiting, inChain, last⟩ := inv.holds held
    have offered := inv.offered running
    have knownAll := inv.known
    rw [pending] at offered knownAll
    obtain ⟨legal, -, -⟩ := offered
    cases handled with
    | held =>
        obtain ⟨⟨mid, splits⟩, -⟩ := legal
        rw [window] at splits
        cases mid <;> cases splits
    | finalized =>
        obtain ⟨⟨mid, splits⟩, -⟩ := legal
        rw [window] at splits
        cases mid <;> cases splits
    | reorged =>
        obtain ⟨kept, splits, -, nonempty, -⟩ := legal
        rw [window] at splits
        exact absurd (List.append_eq_nil_iff.1 splits.symm).2 nonempty
    | lost => exact .inl ⟨List.append_nil _, held⟩
    | suppressed => exact .inl ⟨List.append_nil _, held⟩
    | @forwarded block logs transactions hasMatchedFilter batchId batchSize awaited =>
        have bKnown : K b := inv.wire.chained.known b (List.mem_cons_of_mem _ inChain)
        have isBlock : ofBlock block = b :=
          coherent.hashDetermines _ (knownAll _ List.mem_cons_self) b bKnown (awaited _ awaiting)
        have goes : p.forwarded ++ sentBlock args p.wire block logs transactions hasMatchedFilter ::
            (released args (p.wire.discover args block logs)).1 =
          p.forwarded ++ [sentBlock args p.wire block logs transactions hasMatchedFilter,
            .finalize (lightToLightBlock b)] := by
          rw [released_held start held (inv.wire.chained.linked.anchor_lt inChain) last]
        exact .inr ⟨_, block, _, _, _, isBlock, goes⟩

end Invariant

/-- In every run of the producer and the wire, the account is right at every moment, and a
finalize of the awaited block waits for it and follows it. -/
theorem wire_accounts (eventArgs : EventArgs) (args : WireArgs F)
    (base : Historical.Children F Address) (startup : Light) (now : Int) {K : Light → Prop}
    (coherent : Coherent K) (known : K startup) (start : args.startupFinalized = startup.number)
    (p : Pipe F) (reached : Machine.Reach (Pipe.step eventArgs args) (Pipe.Delivers K)
      (.start args base startup now) p) :
    Accounts startup p ∧
      ∀ q, p.step eventArgs args .consume = some q → FinalizeKept p q := by
  have inv := pipeInv_of_reach coherent start known reached
  exact ⟨inv.accounts coherent, fun q taken => inv.finalizeKept coherent start taken⟩

/-! Block 102 creates a child and is awaited when the finalize of 101 comes; the finalize of 102
comes before the redelivery. -/

instance {K : Light → Prop} [DecidablePred K] (p : Pipe F) :
    (a : PipeAction) → Decidable (Pipe.Delivers K p a)
  | .turn (.block batch) _ _ => inferInstanceAs (Decidable (K (toLight batch.header)))
  | .turn .tick _ _ => isTrue trivial
  | .consume => isTrue trivial

def sampleChain : List Light :=
  [sampleAnchor, ⟨101, "0x101", "0x100", 101⟩, ⟨102, "0x102", "0x101", 102⟩]

/-- Block 102 with one creation log. -/
def creationBatch : HotItem :=
  .block ⟨⟨102, "0x102", "0x101", 102, []⟩,
    [⟨"0xfac", some ["0x5e1", "0xc1"], none, none, none, none⟩], [], none, none⟩

def sampleTurn (item : HotItem) (now head : Int) : PipeAction :=
  .turn item { deliveredAt := now, now := now, finalizedHead := some ⟨head, none⟩ } []

/-- The next event is the finalize of 101. -/
def awaitedActions : List PipeAction :=
  [sampleTurn (sampleBatch 101 "0x101" "0x100") 10 100, .consume,
    sampleTurn creationBatch 5000 101, .consume]

/-- The next event is the redelivery of 102. -/
def heldActions : List PipeAction :=
  awaitedActions ++ [.consume, sampleTurn .tick 10000 102, .consume,
    sampleTurn creationBatch 10010 102]

def sampleStart : Pipe String :=
  .start sampleArgs (fun _ => OrdMap.empty) sampleAnchor 0

def runPipe (actions : List PipeAction) : Option (Pipe String) :=
  Machine.replay (Pipe.step {} sampleArgs) sampleStart actions

def awaitedEnd : Pipe String := (runPipe awaitedActions).get (by decide +kernel)

def passedEnd : Pipe String := (awaitedEnd.onConsume sampleArgs).get (by decide +kernel)

def heldEnd : Pipe String := (runPipe heldActions).get (by decide +kernel)

def followedEnd : Pipe String := (heldEnd.onConsume sampleArgs).get (by decide +kernel)

theorem wire_accounts_sample :
    Accounts sampleAnchor heldEnd ∧ FinalizeKept heldEnd followedEnd ∧
      heldEnd.wire.heldFinalize = some ⟨102, "0x102", "0x101", 102⟩ ∧
      finalizeNumbers heldEnd.forwarded = [101] ∧
      finalizeNumbers followedEnd.forwarded = [101, 102] := by
  have agrees : Machine.AllAllowed (Pipe.step {} sampleArgs) (Pipe.Delivers (· ∈ sampleChain))
      sampleStart heldActions := by decide +kernel
  have reached : Machine.Reach (Pipe.step {} sampleArgs) (Pipe.Delivers (· ∈ sampleChain))
      sampleStart heldEnd :=
    Machine.Reach.init.replay agrees (Option.some_get (by decide +kernel)).symm
  obtain ⟨accounts, kept⟩ := wire_accounts {} sampleArgs _ sampleAnchor 0
    (K := (· ∈ sampleChain)) ⟨by decide +kernel, by decide +kernel⟩ List.mem_cons_self rfl heldEnd
    reached
  exact ⟨accounts, kept _ (Option.some_get (by decide +kernel)).symm, by decide +kernel,
    by decide +kernel, by decide +kernel⟩

/-- A finalize that comes while a block is awaited need not wait for it. -/
theorem finalize_below_awaited_passes :
    ¬ ∀ p, Machine.Reach (Pipe.step {} sampleArgs) (Pipe.Delivers (· ∈ sampleChain)) sampleStart p →
      ∀ q, p.step {} sampleArgs .consume = some q →
        ∀ a b rest, p.wire.awaiting = some a → p.pending = .finalize b :: rest →
          q.forwarded = p.forwarded := by
  intro all
  have agrees : Machine.AllAllowed (Pipe.step {} sampleArgs) (Pipe.Delivers (· ∈ sampleChain))
      sampleStart awaitedActions := by decide +kernel
  have reached : Machine.Reach (Pipe.step {} sampleArgs) (Pipe.Delivers (· ∈ sampleChain))
      sampleStart awaitedEnd :=
    Machine.Reach.init.replay agrees (Option.some_get (by decide +kernel)).symm
  have awaits : awaitedEnd.wire.awaiting = some ⟨"0x102", 102⟩ := by decide +kernel
  have isNext : awaitedEnd.pending = [.finalize ⟨101, "0x101", "0x100", 101⟩] := by decide +kernel
  have waits := all awaitedEnd reached passedEnd (Option.some_get (by decide +kernel)).symm _ _ _
    awaits isNext
  have longer : passedEnd.forwarded.length ≠ awaitedEnd.forwarded.length := by decide +kernel
  exact longer (congrArg List.length waits)

end PortalPonder.Realtime
