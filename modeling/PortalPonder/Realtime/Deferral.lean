import PortalPonder.Realtime.Finality
import PortalPonder.Realtime.Lossless
import PortalPonder.Realtime.Watchdog

/-!
# How long finality is deferred

A hash-carrying head above the local tip cannot be checked against a local block, and the poll that
probed it defers. On a chain that does not fork, this file says exactly when that ends the run, or
stops the anchor: when the polls of a whole deferral bound all find the head above the tip. It does
not help that each of these heads has been delivered by the next poll.
-/

namespace PortalPonder.Realtime

/-! ## Polls -/

/-- A poll: its time, the head it probed, and the local tip and the anchor behind it. -/
structure Poll where
  now : Int
  head : Option Int
  tip : Int
  anchor : Int
  deriving DecidableEq

/-- The head was at the local tip, or below it. -/
def Poll.CaughtUp (p : Poll) : Prop := ∃ h, p.head = some h ∧ h ≤ p.tip

/-- The head was above the local tip. -/
def Poll.Lags (p : Poll) : Prop := ∃ h, p.head = some h ∧ p.tip < h

/-- The poll of a turn that polls in `u`. -/
def pollIn (args : EventArgs) (s : EventState) (input : HotItem × Env) (u : EventState) : Poll where
  now := input.2.now
  head := input.2.finalizedHead.map FinalizedHead.number
  tip := u.tip.number
  anchor := ((turn args input).run s).state.anchor.number

/-- The poll of a turn, unless the delivery watchdog ends it. -/
def pollOf (args : EventArgs) (s : EventState) (input : HotItem × Env) : List Poll :=
  match polling args s input, ((turn args input).run s).outcome with
  | none, _ => []
  | some _, .error (.deliveryStalled _ _ _) => []
  | some u, _ => [pollIn args s input u]

/-- The polls of a run. -/
def pollLog (args : EventArgs) : EventState → List (HotItem × Env) → List Poll
  | _, [] => []
  | s, input :: rest =>
      pollOf args s input ++
        match ((turn args input).run s).outcome with
        | .ok _ => pollLog args ((turn args input).run s).state rest
        | .error _ => []

/-- The first and the last poll are this far apart. -/
def Lasts (ms : Int) (stretch : List Poll) : Prop :=
  ∃ first last, stretch.head? = some first ∧ stretch.getLast? = some last ∧
    last.now - first.now ≥ ms

/-- Polls one after the other that last the deferral bound, some of them with a head. -/
def Stretch (args : EventArgs) (polls stretch : List Poll) : Prop :=
  stretch <:+: polls ∧ Lasts args.finalizeDeferMaxMs stretch ∧ ∃ p ∈ stretch, p.head ≠ none

/-- The run is not ended by the deferral bound, and the anchor comes to at least the lowest head of
every such stretch. -/
structure Finalizes (args : EventArgs) (s : EventState) (inputs : List (HotItem × Env)) : Prop where
  goesOn : ∀ head hash deferredMs localTip,
    ((portalRealtimeEvents args inputs).run s).outcome ≠
      .error (.finalityDeferred head hash deferredMs localTip)
  advances : ∀ stretch, Stretch args (pollLog args s inputs) stretch → ∀ n,
    (∀ p ∈ stretch, ∀ h, p.head = some h → n ≤ h) →
      ∀ last, stretch.getLast? = some last → n ≤ last.anchor

/-- In every such stretch some poll finds the head at the local tip, or below it. -/
def CatchesUp (args : EventArgs) (polls : List Poll) : Prop :=
  ∀ stretch, Stretch args polls stretch → ∃ p ∈ stretch, p.CaughtUp

/-! ## The chain -/

/-- Every delivered block is the tip again, or the block after it. -/
def DeliversFrom (canon : Int → Option Light) : Int → List (HotItem × Env) → Prop
  | _, [] => True
  | tip, (.tick, _) :: rest => DeliversFrom canon tip rest
  | tip, (.block batch, _) :: rest =>
      OnChain canon (toLight batch.header) ∧
        ((toLight batch.header).number = tip + 1 ∧ DeliversFrom canon (tip + 1) rest ∨
          (toLight batch.header).number = tip ∧ DeliversFrom canon tip rest)

/-- A run on a chain that does not fork, with hash-carrying probes of it. -/
structure OnOneChain (canon : Int → Option Light) (anchor : Light)
    (inputs : List (HotItem × Env)) : Prop where
  chain : NeverForks canon anchor
  delivers : DeliversFrom canon anchor.number inputs
  probes : ∀ input ∈ inputs, ∀ fh, input.2.finalizedHead = some fh →
    NamesCanonical (OnChain canon) fh

section Cadence

variable {canon : Int → Option Light} {args : EventArgs} {env : Env} {s u t : EventState}

/-- What finality reads besides the window. -/
structure SameFinality (s t : EventState) : Prop where
  anchor : t.anchor = s.anchor
  streak : t.deferStreakStart = s.deferStreakStart

/-- The watchdog passes, or ends the turn; the rest stays. -/
theorem checkDelivery_window (args : EventArgs) (now head : Int) (s : EventState) :
    ∃ t, t.unfinalized = s.unfinalized ∧ SameFinality s t ∧
      ((checkDelivery args now head).run s = ⟨[], t, .ok ()⟩ ∨
        ∃ h b m, (checkDelivery args now head).run s = ⟨[], t, .error (.deliveryStalled h b m)⟩) := by
  unfold checkDelivery
  rw [Gen.run_bind_ok (Gen.run_get s)]
  split
  · exact ⟨{ s with
      firstProbeAdopted := true
      deliveryBaseline := some (raiseBaseline s.deliveryBaseline head) }, rfl, ⟨rfl, rfl⟩, .inl rfl⟩
  · split
    · exact ⟨s, rfl, ⟨rfl, rfl⟩, .inl rfl⟩
    · split
      · exact ⟨s, rfl, ⟨rfl, rfl⟩, .inr ⟨_, _, _, rfl⟩⟩
      · exact ⟨s, rfl, ⟨rfl, rfl⟩, .inl rfl⟩

/-- Behind the finalized tip of a contiguous window, the next block is above the head. -/
theorem takeFinalized_top {anchor tip : Light} {window : List Light} {n : Int}
    (contiguous : Contiguous anchor window)
    (found : (takeFinalized window n).finalizedTip = some tip) (below : tip.number < n) :
    tipOf anchor window = tip := by
  have rising := (linked_of_contiguous contiguous).rising
  obtain ⟨pre, split, _, above⟩ := takeFinalized_some rising found
  cases rest : (takeFinalized window n).remaining with
  | nil =>
      rw [rest] at split
      rw [split, tipOf_append_singleton]
  | cons b bs =>
      rw [rest] at split above
      have chain := contiguous
      rw [Contiguous, split, ← List.cons_append, List.isChain_append] at chain
      have next := (List.isChain_cons_cons.1 chain.2.1).1.2
      have high := above b List.mem_cons_self
      omega

/-- With nothing to finalize, the head is not above the anchor or the window is empty. -/
theorem takeFinalized_none {anchor : Light} {window : List Light} {n : Int}
    (contiguous : Contiguous anchor window)
    (none_ : (takeFinalized window n).finalizedTip = none) :
    window = [] ∨ n ≤ anchor.number := by
  cases window with
  | nil => exact .inl rfl
  | cons b bs =>
      have next := (List.isChain_cons_cons.1 contiguous).1.2
      refine .inr ?_
      by_contra above
      rw [takeFinalized_eq] at none_
      have low : b ∈ (b :: bs).filter fun b => b.number ≤ n :=
        List.mem_filter.2 ⟨List.mem_cons_self, decide_eq_true (by omega)⟩
      rw [List.getLast?_eq_none_iff.1 none_] at low
      exact absurd low List.not_mem_nil

/-- What a poll can come to, from the local tip, the anchor and the start of the streak. -/
inductive PollCase (args : EventArgs) (env : Env) (tip : Int) (anchor : Light) (streak : Option Int)
    (after : EventState) (outcome : Except RealtimeError Unit) : Prop
  | stalled (head baseline silentMs : Int)
      (ended : outcome = .error (.deliveryStalled head baseline silentMs))
  | missed (none_ : env.finalizedHead = none) (ended : outcome = .ok ())
      (stays : after.anchor = anchor) (cleared : after.deferStreakStart = none)
  | caught (fh : FinalizedHead) (probed : env.finalizedHead = some fh)
      (reached : fh.number ≤ tip) (ended : outcome = .ok ())
      (finalized : fh.number ≤ after.anchor.number)
      (rises : anchor.number ≤ after.anchor.number)
      (cleared : after.deferStreakStart = none)
  | early (fh : FinalizedHead) (probed : env.finalizedHead = some fh)
      (ahead : tip < fh.number) (ended : outcome = .ok ())
      (stays : after.anchor = anchor) (cleared : after.deferStreakStart = none)
  | lags (fh : FinalizedHead) (probed : env.finalizedHead = some fh)
      (ahead : tip < fh.number) (ended : outcome = .ok ())
      (stays : after.anchor = anchor)
      (kept : streak = none ∧ after.deferStreakStart = some env.now ∨
        after.deferStreakStart = streak)
  | fatal (fh : FinalizedHead) (probed : env.finalizedHead = some fh)
      (ahead : tip < fh.number) (start : Int) (started : streak = some start)
      (expired : env.now - start ≥ args.finalizeDeferMaxMs)
      (stays : after.anchor = anchor) (hash : Hash) (localTip : Int)
      (ended : outcome =
        .error (.finalityDeferred fh.number hash (env.now - start) localTip))

theorem finalizeAt_case (args : EventArgs) (on : OnCanon canon u) {fh : FinalizedHead} (probed : env.finalizedHead = some fh)
    (names : NamesCanonical (OnChain canon) fh) :
    PollCase args env u.tip.number u.anchor u.deferStreakStart
      ((finalizeAt args env.now fh).run u).state ((finalizeAt args env.now fh).run u).outcome := by
  obtain ⟨c, onC, hash, number⟩ := names
  have contiguous := on.contiguous
  have linked := linked_of_contiguous contiguous
  unfold finalizeAt
  rw [Gen.run_bind_ok (Gen.run_get u)]
  dsimp only
  cases found : (takeFinalized u.unfinalized fh.number).finalizedTip with
  | none =>
      by_cases reached : fh.number ≤ u.tip.number
      · refine .caught fh probed reached rfl ?_ (Int.le_refl _) rfl
        rcases takeFinalized_none contiguous found with empty | low
        · have isAnchor : u.tip = u.anchor := by rw [EventState.tip, empty, tipOf_nil]
          rw [isAnchor] at reached
          exact reached
        · exact low
      · exact .early fh probed (Int.not_le.1 reached) rfl rfl rfl
  | some tip =>
      obtain ⟨mem, low⟩ := takeFinalized_mem found
      rw [hash]
      dsimp only
      by_cases atHead : tip.number = fh.number
      · -- the block at the head's height is the canonical one
        have onTip := on.onChain tip (List.mem_cons_of_mem _ mem)
        have same : tip = c := by
          have both : canon tip.number = canon c.number := by rw [atHead, number]
          rw [onTip, onC] at both
          exact Option.some.inj both
        rw [if_pos atHead, if_neg (not_not.2 (congrArg Light.hash same))]
        refine .caught fh probed ?_ rfl (Int.le_of_eq atHead.symm) ?_ rfl
        · rw [← atHead]
          exact linked.le_tip (List.mem_cons_of_mem _ mem)
        · exact Int.le_of_lt (linked.anchor_lt mem)
      · have below : tip.number < fh.number := by omega
        have isTip : u.tip = tip := takeFinalized_top contiguous found below
        rw [if_neg atHead, if_pos below]
        have ahead : u.tip.number < fh.number := by rw [isTip]; exact below
        unfold deferFinalize
        rw [Gen.run_bind_ok (Gen.run_get u)]
        dsimp only
        cases streak : u.deferStreakStart with
        | none => exact .lags fh probed ahead rfl rfl (.inl ⟨rfl, rfl⟩)
        | some start =>
            dsimp only
            by_cases expired : env.now - start ≥ args.finalizeDeferMaxMs
            · rw [if_pos expired]
              exact .fatal fh probed ahead start rfl expired rfl c.hash tip.number rfl
            · rw [if_neg expired]
              exact .lags fh probed ahead rfl rfl (.inr streak)

/-- The cadence of a turn that polls. -/
theorem cadence_case (on : OnCanon canon u) (due : env.now - u.lastFinalizePoll ≥ args.finalizePollMs)
    (names : ∀ fh, env.finalizedHead = some fh → NamesCanonical (OnChain canon) fh) :
    PollCase args env u.tip.number u.anchor u.deferStreakStart
      ((runFinalizeCadence args env).run u).state ((runFinalizeCadence args env).run u).outcome := by
  unfold runFinalizeCadence
  rw [Gen.run_bind_ok (Gen.run_get u), if_pos due]
  cases probed : env.finalizedHead with
  | none => exact .missed probed rfl rfl rfl
  | some fh =>
      obtain ⟨t, window, same, passes | ⟨h, b, m, stops⟩⟩ :=
        checkDelivery_window args env.now fh.number { u with lastFinalizePoll := env.now }
      · have isTip : t.tip = u.tip := by rw [EventState.tip, window, same.anchor]; rfl
        have onT : OnCanon canon t := by
          refine ⟨?_, ?_⟩
          · rw [same.anchor, window]
            exact on.contiguous
          · rw [same.anchor, window]
            exact on.onChain
        have final := finalizeAt_case args onT probed (names fh probed)
        rw [isTip, same.anchor, same.streak] at final
        have go : ((Gen.modify fun s => { s with lastFinalizePoll := env.now }) >>= fun _ =>
            checkDelivery args env.now fh.number >>= fun _ =>
              finalizeAt args env.now fh : EventGen Unit).run u =
            (finalizeAt args env.now fh).run t := by
          rw [Gen.run_bind_ok (Gen.run_modify _ _), Gen.run_bind_ok passes]
          rfl
        rw [← go] at final
        exact final
      · refine .stalled h b m ?_
        have stop : ((Gen.modify fun s => { s with lastFinalizePoll := env.now }) >>= fun _ =>
            checkDelivery args env.now fh.number >>= fun _ =>
              finalizeAt args env.now fh : EventGen Unit).run u =
            ⟨[], t, .error (.deliveryStalled h b m)⟩ := by
          rw [Gen.run_bind_ok (Gen.run_modify _ _), Gen.run_bind_error stops]
          rfl
        exact congrArg Turn.outcome stop

/-! ## Turns on the chain -/

/-- On the chain, the first part of a turn takes the block, or leaves the tip. -/
theorem beforeCadence_chain (args : EventArgs) {base : Light} (fork : NeverForks canon base) (on : OnCanon canon s)
    (above : base.number ≤ s.tip.number) {input : HotItem × Env} {rest : List (HotItem × Env)}
    (delivers : DeliversFrom canon s.tip.number (input :: rest)) :
    ∃ es u comes, (beforeCadence args input.2 input.1).run s = ⟨es, u, .ok comes⟩ ∧
      OnCanon canon u ∧ SameFinality s u ∧ base.number ≤ u.tip.number ∧
        DeliversFrom canon u.tip.number rest := by
  obtain ⟨item, env⟩ := input
  cases item with
  | tick => exact ⟨[], s, true, rfl, on, ⟨rfl, rfl⟩, above, delivers⟩
  | block batch =>
      obtain ⟨onB, ⟨number, later⟩ | ⟨number, later⟩⟩ := delivers
      · obtain ⟨next, notTip⟩ := next_onChain fork on.tip above onB number
        have ext : Extends (tipOf s.anchor s.unfinalized) (toLight batch.header) :=
          ⟨next.1, by have := next.2; unfold EventState.tip at this; omega⟩
        have answer := reconcile_append notTip ext.1
        let v := delivering { s with unfinalized := s.unfinalized ++ [toLight batch.header] } env batch
        have onU := on.push next onB
        have isTip : v.tip = toLight batch.header := tipOf_append_singleton _ _ _
        refine ⟨[(blockEvent args batch, v)], v, true, ?_, ⟨onU.contiguous, onU.onChain⟩,
          ⟨rfl, rfl⟩, ?_, ?_⟩
        · unfold beforeCadence
          rw [Gen.run_bind_ok (Gen.run_get s)]
          simp only [answer, List.nil_append]
          rw [Gen.run_bind_ok (appendBlock_run ext)]
          rfl
        · rw [isTip, number]
          omega
        · rw [isTip, number]
          exact later
      · have same : toLight batch.header = s.tip := by
          have both := onB
          rw [OnChain, number, on.tip] at both
          exact (Option.some.inj both).symm
        have answer := reconcile_duplicate_iff.2 (congrArg Light.hash same)
        by_cases awaited : env.shouldRedeliver (toLight batch.header).hash = true
        · refine ⟨[(blockEvent args batch, delivering s env batch)], delivering s env batch, true, ?_,
            ⟨on.contiguous, on.onChain⟩, ⟨rfl, rfl⟩, above, later⟩
          unfold beforeCadence
          rw [Gen.run_bind_ok (Gen.run_get s)]
          simp only [answer, List.nil_append, if_pos awaited]
          rfl
        · refine ⟨[], s, false, ?_, on, ⟨rfl, rfl⟩, above, later⟩
          unfold beforeCadence
          rw [Gen.run_bind_ok (Gen.run_get s)]
          simp only [answer, List.nil_append, if_neg awaited]
          rfl

/-- What a turn on the chain comes to. -/
structure TurnCase (canon : Int → Option Light) (args : EventArgs) (base : Light) (s : EventState)
    (input : HotItem × Env) (rest : List (HotItem × Env)) (u : EventState) : Prop where
  on : OnCanon canon ((turn args input).run s).state
  above : base.number ≤ ((turn args input).run s).state.tip.number
  delivers : DeliversFrom canon ((turn args input).run s).state.tip.number rest
  isTip : ((turn args input).run s).state.tip = u.tip
  polls : polling args s input = none ∧ ((turn args input).run s).outcome = .ok () ∧
      SameFinality s ((turn args input).run s).state ∨
    polling args s input = some u ∧ s.anchor.number ≤ u.tip.number ∧
      PollCase args input.2 u.tip.number s.anchor s.deferStreakStart
        ((turn args input).run s).state ((turn args input).run s).outcome

theorem turn_chain (args : EventArgs) {base : Light} (fork : NeverForks canon base) (on : OnCanon canon s)
    (above : base.number ≤ s.tip.number) {input : HotItem × Env} {rest : List (HotItem × Env)}
    (delivers : DeliversFrom canon s.tip.number (input :: rest))
    (names : ∀ fh, input.2.finalizedHead = some fh → NamesCanonical (OnChain canon) fh) :
    ∃ u, TurnCase canon args base s input rest u := by
  obtain ⟨es, u, comes, first, onU, same, aboveU, later⟩ :=
    beforeCadence_chain args fork on above delivers
  have whole : turn args input = _ := turn_eq args input.1 input.2
  have low : s.anchor.number ≤ u.tip.number := by
    rw [← same.anchor]
    exact onU.anchor_le
  by_cases polls : comes = true ∧ input.2.now - u.lastFinalizePoll ≥ args.finalizePollMs
  · obtain ⟨rfl, due⟩ := polls
    obtain ⟨onT, isTip⟩ := onU.cadence args input.2
    have cases_ := cadence_case onU due names
    rw [same.anchor, same.streak] at cases_
    refine ⟨u, ?_⟩
    constructor
    all_goals rw [whole, Gen.run_bind_ok first]
    · exact onT
    · show base.number ≤ ((runFinalizeCadence args input.2).run u).state.tip.number
      rw [isTip]
      exact aboveU
    · show DeliversFrom canon ((runFinalizeCadence args input.2).run u).state.tip.number rest
      rw [isTip]
      exact later
    · exact isTip
    · refine .inr ⟨?_, low, cases_⟩
      rw [polling, first]
      exact if_pos due
  · have none_ : polling args s input = none := by
      rw [polling, first]
      cases comes with
      | false => rfl
      | true => exact if_neg fun due => polls ⟨rfl, due⟩
    have quiet : (turn args input).run s = ⟨es ++ [], u, .ok ()⟩ := by
      rw [whole, Gen.run_bind_ok first]
      cases comes with
      | false => rfl
      | true =>
          have notDue : ¬input.2.now - u.lastFinalizePoll ≥ args.finalizePollMs :=
            fun due => polls ⟨rfl, due⟩
          rw [if_pos rfl]
          unfold runFinalizeCadence
          rw [Gen.run_bind_ok (Gen.run_get u), if_neg notDue]
          rfl
    refine ⟨u, ?_⟩
    constructor
    all_goals rw [quiet]
    · exact onU
    · exact aboveU
    · exact later
    · exact .inl ⟨none_, rfl, same⟩

/-! ## The log of the polls -/

/-- The anchor moves at polls that are caught up, and comes to their head. -/
structure Orderly (log : List Poll) : Prop where
  bounds : ∀ p ∈ log, p.anchor ≤ p.tip ∧ ∀ h, p.head = some h → h ≤ p.tip → h ≤ p.anchor
  moves : log.IsChain fun p q => p.anchor ≤ q.anchor ∧ (¬q.CaughtUp → p.anchor = q.anchor)

/-- The log knows the anchor, and a streak of deferrals is a streak of polls that lag. -/
structure LogInv (log : List Poll) (s : EventState) : Prop where
  orderly : Orderly log
  last : ∀ p, log.getLast? = some p → p.anchor = s.anchor.number
  streak : ∀ start, s.deferStreakStart = some start →
    ∃ pre first more, log = pre ++ first :: more ∧ first.now = start ∧ ∀ p ∈ first :: more, p.Lags

/-- The log ends in polls that lag, for the whole deferral bound. -/
def LagsLong (args : EventArgs) (log : List Poll) : Prop :=
  ∃ pre stretch, log = pre ++ stretch ∧ Lasts args.finalizeDeferMaxMs stretch ∧
    ∀ p ∈ stretch, p.Lags

variable {log : List Poll}

theorem LogInv.push (inv : LogInv log s) {p : Poll}
    (bounds : p.anchor ≤ p.tip ∧ ∀ h, p.head = some h → h ≤ p.tip → h ≤ p.anchor)
    (moves : s.anchor.number ≤ p.anchor ∧ (¬p.CaughtUp → s.anchor.number = p.anchor)) :
    Orderly (log ++ [p]) := by
  refine ⟨fun q mem => ?_, ?_⟩
  · rcases List.mem_append.1 mem with old | new
    · exact inv.orderly.bounds q old
    · rw [List.mem_singleton.1 new]
      exact bounds
  · refine List.isChain_append.2 ⟨inv.orderly.moves, List.isChain_singleton p, ?_⟩
    intro q isLast r isHead
    cases isHead
    rw [inv.last q isLast]
    exact moves

theorem pollIn_head (args : EventArgs) (s u : EventState) {input : HotItem × Env}
    {fh : FinalizedHead} (probed : input.2.finalizedHead = some fh) :
    (pollIn args s input u).head = some fh.number := by
  rw [pollIn, probed]
  rfl

theorem pollOf_polling {input : HotItem × Env} (polls : polling args s input = some u)
    (passes : ∀ h b m, ((turn args input).run s).outcome ≠ .error (.deliveryStalled h b m)) :
    pollOf args s input = [pollIn args s input u] := by
  unfold pollOf
  rw [polls]
  split
  next is => cases is
  next stops => exact absurd stops (passes _ _ _)
  next is _ =>
    cases is
    rfl

/-- A poll that lags and leaves the anchor where it is. -/
theorem LogInv.push_lag (inv : LogInv log s) {p : Poll} {h : Int} (isHead : p.head = some h)
    (ahead : p.tip < h) (low : s.anchor.number ≤ p.tip) (stays : p.anchor = s.anchor.number) :
    Orderly (log ++ [p]) := by
  refine inv.push ⟨?_, fun h' is reached => ?_⟩ ⟨?_, fun _ => stays.symm⟩
  · rw [stays]
    exact low
  · rw [isHead] at is
    cases is
    exact absurd reached (Int.not_le.2 ahead)
  · rw [stays]

/-- What a turn adds to the log. -/
structure Logged (args : EventArgs) (log : List Poll) (s : EventState) (input : HotItem × Env) :
    Prop where
  orderly : Orderly (log ++ pollOf args s input)
  goesOn : ((turn args input).run s).outcome = .ok () →
    LogInv (log ++ pollOf args s input) ((turn args input).run s).state
  fatal : ∀ head hash deferredMs localTip,
    ((turn args input).run s).outcome = .error (.finalityDeferred head hash deferredMs localTip) →
    LagsLong args (log ++ pollOf args s input)

/-- A poll that leaves no streak. -/
theorem Logged.cleared {input : HotItem × Env} {p : Poll} (isPoll : pollOf args s input = [p])
    (orderly : Orderly (log ++ [p]))
    (ended : ((turn args input).run s).outcome = .ok ())
    (isAnchor : p.anchor = ((turn args input).run s).state.anchor.number)
    (cleared : ((turn args input).run s).state.deferStreakStart = none) :
    Logged args log s input := by
  constructor
  · rw [isPoll]
    exact orderly
  · intro _
    rw [isPoll]
    refine ⟨orderly, fun q isLast => ?_, fun start started => ?_⟩
    · rw [List.getLast?_append, List.getLast?_singleton, Option.some_or] at isLast
      cases isLast
      exact isAnchor
    · rw [cleared] at started
      cases started
  · intro _ _ _ _ fatal
    rw [ended] at fatal
    cases fatal

theorem LogInv.logged {base : Light} {input : HotItem × Env} {rest : List (HotItem × Env)}
    (inv : LogInv log s) (case_ : TurnCase canon args base s input rest u) :
    Logged args log s input := by
  rcases case_.polls with ⟨none_, ended, same⟩ | ⟨polls, low, poll⟩
  · have empty : pollOf args s input = [] := by
      unfold pollOf
      rw [none_]
    constructor
    · rw [empty, List.append_nil]
      exact inv.orderly
    · intro _
      rw [empty, List.append_nil]
      refine ⟨inv.orderly, fun p isLast => ?_, fun start started => ?_⟩
      · rw [same.anchor]
        exact inv.last p isLast
      · rw [same.streak] at started
        exact inv.streak start started
    · intro _ _ _ _ fatal
      rw [ended] at fatal
      cases fatal
  · cases poll with
    | stalled h b m ended =>
        have empty : pollOf args s input = [] := by
          unfold pollOf
          rw [polls, ended]
        constructor
        · rw [empty, List.append_nil]
          exact inv.orderly
        · intro ok
          rw [ended] at ok
          cases ok
        · intro _ _ _ _ fatal
          rw [ended] at fatal
          cases fatal
    | missed none_ ended stays cleared =>
        have isPoll := pollOf_polling polls (by rw [ended]; exact nofun)
        have same : (pollIn args s input u).anchor = s.anchor.number := congrArg Light.number stays
        refine .cleared isPoll (inv.push ⟨?_, ?_⟩ ⟨?_, fun _ => same.symm⟩) ended rfl cleared
        · rw [same]
          exact low
        · rw [pollIn, none_]
          exact nofun
        · rw [same]
    | caught fh probed reached ended finalized rises cleared =>
        have isPoll := pollOf_polling polls (by rw [ended]; exact nofun)
        have isHead := pollIn_head args s u probed
        have caughtUp : (pollIn args s input u).CaughtUp := ⟨fh.number, isHead, reached⟩
        refine .cleared isPoll (inv.push ⟨?_, ?_⟩ ⟨rises, fun not => absurd caughtUp not⟩)
          ended rfl cleared
        · have le := case_.on.anchor_le
          rw [case_.isTip] at le
          exact le
        · rw [isHead]
          intro h isH _
          cases isH
          exact finalized
    | early fh probed ahead ended stays cleared =>
        have isPoll := pollOf_polling polls (by rw [ended]; exact nofun)
        exact .cleared isPoll (inv.push_lag (pollIn_head args s u probed) ahead low
          (congrArg Light.number stays)) ended rfl cleared
    | lags fh probed ahead ended stays kept =>
        have isPoll := pollOf_polling polls (by rw [ended]; exact nofun)
        have isHead := pollIn_head args s u probed
        have orderly := inv.push_lag isHead ahead low (congrArg Light.number stays)
        constructor
        · rw [isPoll]
          exact orderly
        · intro _
          rw [isPoll]
          refine ⟨orderly, fun q isLast => ?_, fun start started => ?_⟩
          · rw [List.getLast?_append, List.getLast?_singleton, Option.some_or] at isLast
            cases isLast
            rfl
          · rcases kept with ⟨_, begins⟩ | goesOn
            · rw [begins] at started
              cases started
              refine ⟨log, _, [], rfl, rfl, fun q mem => ?_⟩
              rw [List.mem_singleton.1 mem]
              exact ⟨fh.number, isHead, ahead⟩
            · rw [goesOn] at started
              obtain ⟨pre, first, more, rfl, isStart, lag⟩ := inv.streak start started
              refine ⟨pre, first, more ++ [pollIn args s input u], List.append_assoc _ _ _, isStart, fun q mem => ?_⟩
              rw [← List.cons_append, List.mem_append, List.mem_singleton] at mem
              rcases mem with old | rfl
              · exact lag q old
              · exact ⟨fh.number, isHead, ahead⟩
        · intro _ _ _ _ fatal
          rw [ended] at fatal
          cases fatal
    | fatal fh probed ahead start started expired stays hash localTip ended =>
        have isPoll := pollOf_polling polls (by rw [ended]; exact nofun)
        have isHead := pollIn_head args s u probed
        constructor
        · rw [isPoll]
          exact inv.push_lag isHead ahead low (congrArg Light.number stays)
        · intro ok
          rw [ended] at ok
          cases ok
        · intro _ _ _ _ _
          rw [isPoll]
          obtain ⟨pre, first, more, rfl, isStart, lag⟩ := inv.streak start started
          refine ⟨pre, first :: (more ++ [pollIn args s input u]), List.append_assoc _ _ _,
            ⟨first, pollIn args s input u, rfl, ?_, ?_⟩, fun q mem => ?_⟩
          · exact List.getLast?_concat (l := first :: more)
          · rw [isStart]
            exact expired
          · rw [← List.cons_append, List.mem_append, List.mem_singleton] at mem
            rcases mem with old | rfl
            · exact lag q old
            · exact ⟨fh.number, isHead, ahead⟩

/-- The log of a whole run. -/
theorem log_run (args : EventArgs) {base : Light} (fork : NeverForks canon base) {inputs : List (HotItem × Env)}
    (on : OnCanon canon s) (above : base.number ≤ s.tip.number)
    (delivers : DeliversFrom canon s.tip.number inputs)
    (names : ∀ input ∈ inputs, ∀ fh, input.2.finalizedHead = some fh →
      NamesCanonical (OnChain canon) fh) (inv : LogInv log s) :
    Orderly (log ++ pollLog args s inputs) ∧
      ∀ head hash deferredMs localTip, ((portalRealtimeEvents args inputs).run s).outcome =
        .error (.finalityDeferred head hash deferredMs localTip) →
          LagsLong args (log ++ pollLog args s inputs) := by
  induction inputs generalizing s log with
  | nil =>
      refine ⟨?_, nofun⟩
      rw [pollLog, List.append_nil]
      exact inv.orderly
  | cons input rest ih =>
      obtain ⟨u, case_⟩ := turn_chain args fork on above delivers
        (names input List.mem_cons_self)
      have logged := inv.logged case_
      cases ran : (turn args input).run s with
      | mk es t outcome =>
          have outcomeIs : ((turn args input).run s).outcome = outcome := by rw [ran]
          cases outcome with
          | error r =>
              have stop : (portalRealtimeEvents args (input :: rest)).run s = _ :=
                Gen.run_bind_error ran
              have whole : pollLog args s (input :: rest) = pollOf args s input := by
                rw [pollLog, outcomeIs, List.append_nil]
              rw [whole, stop]
              refine ⟨logged.orderly, fun head hash deferredMs localTip fatal => ?_⟩
              exact logged.fatal head hash deferredMs localTip (outcomeIs.trans fatal)
          | ok _ =>
              have go : (portalRealtimeEvents args (input :: rest)).run s = _ :=
                Gen.run_bind_ok ran
              have whole : pollLog args s (input :: rest) =
                  pollOf args s input ++ pollLog args ((turn args input).run s).state rest := by
                rw [pollLog, outcomeIs]
              have later := ih case_.on case_.above case_.delivers
                (fun i mem => names i (List.mem_cons_of_mem _ mem)) (logged.goesOn outcomeIs)
              rw [whole, go, ← List.append_assoc]
              rw [ran] at later ⊢
              exact later

/-- The last poll of a list is related to each of its polls. -/
theorem isChain_last {r : Int → Int → Prop} (refl : ∀ a, r a a)
    (trans : ∀ a b c, r a b → r b c → r a c) {polls : List Poll}
    (chain : polls.IsChain fun p q => r p.anchor q.anchor) {p last : Poll} (mem : p ∈ polls)
    (isLast : polls.getLast? = some last) : r p.anchor last.anchor := by
  induction polls generalizing p with
  | nil => cases mem
  | cons first rest ih =>
      cases rest with
      | nil =>
          cases isLast
          rw [List.mem_singleton.1 mem]
          exact refl _
      | cons second more =>
          obtain ⟨step, tail⟩ := List.isChain_cons_cons.1 chain
          rcases List.mem_cons.1 mem with rfl | later
          · exact trans _ _ _ step (ih tail List.mem_cons_self isLast)
          · exact ih tail later isLast

end Cadence

/-- On a chain that does not fork, with hash-carrying probes: the deferral bound does not end the
run and the anchor keeps advancing if and only if no stretch of polls that lasts the bound finds
every head above the local tip. -/
theorem deferral_exact (args : EventArgs) (canon : Int → Option Light) (anchor : Light)
    (entered : Int) (inputs : List (HotItem × Env)) (run : OnOneChain canon anchor inputs) :
    Finalizes args (.start anchor entered) inputs ↔
      CatchesUp args (pollLog args (.start anchor entered) inputs) := by
  have on : OnCanon canon (.start anchor entered) := by
    refine ⟨List.isChain_singleton _, fun b mem => ?_⟩
    rw [List.mem_singleton.1 mem]
    exact run.chain.anchored
  have isTip : (EventState.start anchor entered).tip = anchor := tipOf_nil _
  obtain ⟨orderly, fatal⟩ := log_run args run.chain on
    (Int.le_of_eq (by rw [isTip])) (by rw [isTip]; exact run.delivers) run.probes
    ⟨⟨fun _ mem => absurd mem List.not_mem_nil, List.isChain_nil⟩, nofun, nofun⟩
  rw [List.nil_append] at orderly fatal
  constructor
  · intro finalizes stretch isStretch
    obtain ⟨part, ⟨first, last, isFirst, isLast, lasts⟩, probed⟩ := isStretch
    by_contra never
    have lag : ∀ p ∈ stretch, ¬p.CaughtUp := fun p mem caught => never ⟨p, mem, caught⟩
    -- the anchor has not moved, and every head is above it
    have moves := List.IsChain.infix orderly.moves part
    have still : stretch.IsChain fun p q => p.anchor = q.anchor :=
      moves.imp_of_mem_imp fun p q _ mem both => both.2 (lag q mem)
    have stays : ∀ p ∈ stretch, p.anchor = last.anchor := fun p mem =>
      isChain_last (r := fun a b => a = b) (fun _ => rfl) (fun _ _ _ => Eq.trans) still mem isLast
    have low := finalizes.advances stretch ⟨part, ⟨first, last, isFirst, isLast, lasts⟩, probed⟩
      (last.anchor + 1) (fun p mem h isHead => ?_) last isLast
    · omega
    · have above : p.tip < h := by
        by_contra reached
        exact lag p mem ⟨h, isHead, Int.not_lt.1 reached⟩
      have bound := (orderly.bounds p (part.subset mem)).1
      rw [stays p mem] at bound
      omega
  · intro catchesUp
    refine ⟨fun head hash deferredMs localTip ended => ?_, fun stretch isStretch n low last isLast => ?_⟩
    · obtain ⟨pre, stretch, split, lasts, lag⟩ := fatal head hash deferredMs localTip ended
      have ends := lasts
      obtain ⟨first, _, isFirst, _⟩ := ends
      have mem := List.mem_of_head? isFirst
      obtain ⟨h, isHead, _⟩ := lag first mem
      obtain ⟨p, mem', h', isHead', reached⟩ := catchesUp stretch
        ⟨⟨pre, [], by rw [split, List.append_nil]⟩, lasts, first, mem, by rw [isHead]; exact nofun⟩
      obtain ⟨h'', isHead'', ahead⟩ := lag p mem'
      rw [isHead'] at isHead''
      cases isHead''
      omega
    · obtain ⟨p, mem, h, isHead, reached⟩ := catchesUp stretch isStretch
      have came := (orderly.bounds p (isStretch.1.subset mem)).2 h isHead reached
      have moves := List.IsChain.infix orderly.moves isStretch.1
      have rises := isChain_last (r := fun a b => a ≤ b) Int.le_refl (fun _ _ _ => Int.le_trans)
        (moves.imp fun _ _ both => both.1) mem isLast
      have lowest := low p mem h isHead
      omega

/-! ## One block behind -/

/-- At each poll the tip has reached the head of the poll before. -/
def KeepsUp (polls : List Poll) : Prop := polls.IsChain fun p q => ∀ h ∈ p.head, h ≤ q.tip

instance (polls : List Poll) : Decidable (KeepsUp polls) :=
  inferInstanceAs (Decidable (polls.IsChain _))

def fastHash (n : Nat) : Hash := String.ofList [Char.ofNat n]

def fastBlock (n : Nat) : Light := ⟨n, fastHash n, fastHash (n - 1), 0⟩

/-- A chain of a thousand blocks from 100 on. -/
def fastChain (h : Int) : Option Light :=
  if 100 ≤ h ∧ h < 1100 then some (fastBlock h.toNat) else none

/-- Every four seconds a block, and a probe that is one block ahead. -/
def fastRun (n : Nat) : Nat → List (HotItem × Env)
  | 0 => []
  | k + 1 =>
      (.block ⟨⟨n + 1, fastHash (n + 1), fastHash n, 0, []⟩, [], [], none, none⟩,
        { deliveredAt := 4000 * (n - 99)
          now := 4000 * (n - 99)
          finalizedHead := some ⟨(n + 2 : Nat), some (fastHash (n + 2))⟩ }) :: fastRun (n + 1) k

theorem fastHash_inj {m n : Nat} (small : m < 1100) (small' : n < 1100)
    (same : fastHash m = fastHash n) : m = n := by
  have chars := congrArg (List.map Char.toNat) (String.ofList_injective same)
  have code : ∀ k < 1100, (Char.ofNat k).toNat = k := by decide +kernel
  simp only [List.map_cons, List.map_nil, code m small, code n small'] at chars
  exact (List.cons.inj chars).1

/-- What is on the chain. -/
theorem fastChain_some {h : Int} {b : Light} :
    fastChain h = some b ↔ ∃ n : Nat, 100 ≤ n ∧ n < 1100 ∧ h = n ∧ b = fastBlock n := by
  unfold fastChain
  constructor
  · intro found
    split at found
    next range =>
      cases found
      exact ⟨h.toNat, by omega, by omega, by omega, rfl⟩
    next => cases found
  · rintro ⟨n, low, high, rfl, rfl⟩
    rw [if_pos (by omega)]
    rfl

theorem onFastChain (n : Nat) (low : 100 ≤ n) (high : n < 1100) : OnChain fastChain (fastBlock n) :=
  fastChain_some.2 ⟨n, low, high, rfl, rfl⟩

theorem fastChain_neverForks : NeverForks fastChain (fastBlock 100) := by
  refine ⟨⟨?_, ?_⟩, onFastChain 100 (by decide) (by decide), ?_⟩
  · intro h b found
    obtain ⟨n, _, _, rfl, rfl⟩ := fastChain_some.1 found
    rfl
  · intro h b above found
    obtain ⟨n, low, high, rfl, rfl⟩ := fastChain_some.1 found
    have base : (100 : Int) < n := above
    exact ⟨fastBlock (n - 1), fastChain_some.2 ⟨n - 1, by omega, by omega, by omega, rfl⟩, rfl⟩
  · intro a b onA onB same
    obtain ⟨m, _, highM, _, rfl⟩ := fastChain_some.1 onA
    obtain ⟨n, _, highN, _, rfl⟩ := fastChain_some.1 onB
    rw [fastHash_inj highM highN same]

theorem fastRun_delivers (n k : Nat) (low : 100 ≤ n) (high : n + k < 1100) :
    DeliversFrom fastChain n (fastRun n k) := by
  induction k generalizing n with
  | zero => exact trivial
  | succ k ih =>
      refine ⟨onFastChain (n + 1) (by omega) (by omega), .inl ⟨rfl, ?_⟩⟩
      exact ih (n + 1) (by omega) (by omega)

theorem fastRun_probes (n k : Nat) (low : 100 ≤ n) (high : n + k < 1098) :
    ∀ input ∈ fastRun n k, ∀ fh, input.2.finalizedHead = some fh →
      NamesCanonical (OnChain fastChain) fh := by
  induction k generalizing n with
  | zero => exact fun _ mem => absurd mem List.not_mem_nil
  | succ k ih =>
      intro input mem fh probed
      rcases List.mem_cons.1 mem with rfl | later
      · cases probed
        exact ⟨fastBlock (n + 2), onFastChain (n + 2) (by omega) (by omega), rfl, rfl⟩
      · exact ih (n + 1) (by omega) (by omega) input later fh probed

theorem fastRun_onOneChain : OnOneChain fastChain (fastBlock 100) (fastRun 100 151) where
  chain := fastChain_neverForks
  delivers := fastRun_delivers 100 151 (by decide) (by decide)
  probes := fastRun_probes 100 151 (by decide) (by decide)

/-- Each head is reached by the next poll, and the run still dies of the deferral bound. -/
theorem keeping_up_is_fatal :
    OnOneChain fastChain (fastBlock 100) (fastRun 100 151) ∧
      KeepsUp (pollLog {} (.start (fastBlock 100) 0) (fastRun 100 151)) ∧
      ((portalRealtimeEvents {} (fastRun 100 151)).run (.start (fastBlock 100) 0)).outcome =
        .error (.finalityDeferred 252 (fastHash 252) 600000 251) :=
  ⟨fastRun_onOneChain, by decide +kernel, by decide +kernel⟩

/-- A short run at this distance goes on, since its polls do not last the bound; in the long one no
poll catches up. -/
theorem deferral_exact_sample :
    Finalizes {} (.start (fastBlock 100) 0) (fastRun 100 3) ∧
      ¬CatchesUp {} (pollLog {} (.start (fastBlock 100) 0) (fastRun 100 151)) := by
  constructor
  · refine (deferral_exact {} fastChain (fastBlock 100) 0 (fastRun 100 3)
      ⟨fastChain_neverForks, fastRun_delivers 100 3 (by decide) (by decide),
        fastRun_probes 100 3 (by decide) (by decide)⟩).2 ?_
    rintro stretch ⟨part, ⟨first, last, isFirst, isLast, lasts⟩, _⟩
    have short : ∀ p ∈ pollLog {} (.start (fastBlock 100) 0) (fastRun 100 3),
        ∀ q ∈ pollLog {} (.start (fastBlock 100) 0) (fastRun 100 3), q.now - p.now < 600000 := by
      decide +kernel
    have within := short first (part.subset (List.mem_of_head? isFirst)) last
      (part.subset (List.mem_of_getLast? isLast))
    exact absurd lasts (Int.not_le.2 within)
  · intro catchesUp
    have finalizes := (deferral_exact {} fastChain (fastBlock 100) 0 (fastRun 100 151)
      fastRun_onOneChain).2 catchesUp
    exact finalizes.goesOn 252 (fastHash 252) 600000 251 (by decide +kernel)

end PortalPonder.Realtime
