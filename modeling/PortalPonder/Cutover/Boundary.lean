import PortalPonder.Cutover.Guard

/-!
# The finality boundary at the cutover

A cutover round refetches the finalized block of the chains it probes, clamps each to the Portal's
finalized head, and adopts the results when one chain has advanced by more than its finality block
count. The boundary a chain had before is the floor of its clamp.
-/

namespace PortalPonder.Cutover

structure Chain where
  name : String
  /-- the Portal of the chain, as it may be logged -/
  portalUrlForLog : String
  /-- `isPortalRealtime` -/
  portalRealtime : Bool
  endBlock : Option Nat
  finalizedBlock : Nat
  finalityBlockCount : Nat
  deriving DecidableEq, Repr

/-- What a chain is told in a round: its refetched finalized block, and the answers to its probes
of `/finalized-head`. -/
structure Answer where
  rpcFinalized : Nat
  portalProbes : List (Option Nat)
  deriving DecidableEq, Repr

/-- The pin, or the first of three probes that is answered. -/
def portalFinalizedHead (pin : Option Nat) (probes : List (Option Nat)) : Option Nat :=
  match pin with
  | some head => some head
  | none => (probes.take 3).findSome? id

/-- The Portal's head, raised to the floor. -/
def flooredHead (head : Nat) (floor : Option Nat) : Nat :=
  match floor with
  | some f => if head < f then f else head
  | none => head

def clampFinalizedToPortalHead (chain : Chain) (pin : Option Nat) (probes : List (Option Nat))
    (finalizedBlock : Nat) (floor : Option Nat) : Except String Nat :=
  if chain.portalRealtime = false then .ok finalizedBlock
  else
    match portalFinalizedHead pin probes with
    | none => .error ("Portal " ++ chain.name ++ ": /finalized-head probe failed in stream mode " ++
        "(PORTAL_REALTIME=stream) — cannot establish the finality boundary. " ++
        "Check Portal connectivity for " ++ chain.portalUrlForLog ++ ".")
    | some head =>
        let boundary := flooredHead head floor
        -- never raise the boundary
        if finalizedBlock ≤ boundary then .ok finalizedBlock else .ok boundary

/-- In the omnichain loop some events may be parked. -/
inductive Ordering where
  | omnichain (pendingCount : Nat)
  | multichain
  deriving DecidableEq, Repr

structure Round where
  ordering : Ordering
  answers : Nat → Answer

namespace Round

variable (pin : Option Nat) (r : Round) (chains : List Chain)

def progress (chains : List Chain) : List (Option CutoverSyncProgress) :=
  chains.map fun c => some { endBlock := c.endBlock, finalized := c.finalizedBlock }

def skips : Bool :=
  match r.ordering with
  | .omnichain pendingCount => shouldSkipOmnichainCutoverRound (progress chains) pendingCount
  | .multichain => shouldSkipCutoverRound (progress chains)

def probeIndices : List Nat :=
  match r.ordering with
  | .omnichain pendingCount => omnichainCutoverProbeIndices (progress chains) pendingCount
  | .multichain => cutoverProbeIndices (progress chains)

/-- The chains that are probed once another one has advanced: there is a second phase in the
omnichain loop only. -/
def secondPhase : List Nat :=
  match r.ordering with
  | .omnichain _ => cutoverExcludedIndices chains.length (r.probeIndices chains)
  | .multichain => []

/-- The boundary a chain had before is its floor. -/
def clampProbed (c : Chain) (i : Nat) : Except String Nat :=
  clampFinalizedToPortalHead c pin (r.answers i).portalProbes (r.answers i).rpcFinalized
    (some c.finalizedBlock)

/-- A chain that is not probed passes its block through. -/
def clampOne (which : List Nat) (e : (Chain × Nat) × Nat) : Except String Nat :=
  if e.1.2 ∈ which then r.clampProbed pin e.1.1 e.1.2 else .ok e.2

/-- The chains in order; the first failure ends the round. -/
def clampEach (which : List Nat) : List ((Chain × Nat) × Nat) → Except String (List Nat)
  | [] => .ok []
  | e :: rest => do
      let clamped ← r.clampOne pin which e
      let others ← clampEach which rest
      pure (clamped :: others)

def shouldCatchup (finalizedBlocks : List Nat) : Bool :=
  (chains.zip finalizedBlocks).any fun e => e.1.finalizedBlock + e.1.finalityBlockCount < e.2

/-- The chains with the boundaries they have after a round. A round that does not catch up leaves
them, and ends the loop. -/
def run : Except String (List Chain) :=
  if r.skips chains then .ok chains
  else do
    let probed ← r.clampEach pin (r.probeIndices chains)
      (chains.zipIdx.zip (chains.map Chain.finalizedBlock))
    if shouldCatchup chains probed then
      let adopted ← r.clampEach pin (r.secondPhase chains) (chains.zipIdx.zip probed)
      pure (List.zipWith (fun c block => { c with finalizedBlock := block }) chains adopted)
    else pure chains

variable {pin r chains}

/-- A chain advances when its refetched block and, with a Portal, the Portal's head lie more than
its finality block count ahead. -/
def Advances (pin : Option Nat) (c : Chain) (a : Answer) : Prop :=
  c.finalizedBlock + c.finalityBlockCount < a.rpcFinalized ∧
    (c.portalRealtime = true → ∃ head, portalFinalizedHead pin a.portalProbes = some head ∧
      c.finalizedBlock + c.finalityBlockCount < head)

/-- The chains of a round, one by one, are not moved back. -/
def Held (chains after : List Chain) : Prop :=
  ∀ (i : Nat) (c : Chain), chains[i]? = some c →
    ∃ c' : Chain, after[i]? = some c' ∧ c.finalizedBlock ≤ c'.finalizedBlock

/-- If a probed chain advances, no chain that is asked in one of the phases is told a finalized
block behind its boundary. -/
def AnswersAhead (pin : Option Nat) (r : Round) (chains : List Chain) : Prop :=
  (∃ i c, chains[i]? = some c ∧ i ∈ r.probeIndices chains ∧ Advances pin c (r.answers i)) →
    ∀ i c, chains[i]? = some c → i ∈ r.probeIndices chains ∨ i ∈ r.secondPhase chains →
      c.finalizedBlock ≤ (r.answers i).rpcFinalized

theorem clampProbed_cases {c : Chain} {i v : Nat} (clamped : r.clampProbed pin c i = .ok v) :
    c.portalRealtime = false ∧ v = (r.answers i).rpcFinalized ∨
      c.portalRealtime = true ∧ ∃ head,
        portalFinalizedHead pin (r.answers i).portalProbes = some head ∧
          v = min (r.answers i).rpcFinalized (max head c.finalizedBlock) := by
  unfold clampProbed clampFinalizedToPortalHead at clamped
  by_cases portal : c.portalRealtime = false
  · rw [if_pos portal] at clamped
    exact .inl ⟨portal, (Except.ok.inj clamped).symm⟩
  · rw [if_neg portal] at clamped
    refine .inr ⟨by simpa using portal, ?_⟩
    cases found : portalFinalizedHead pin (r.answers i).portalProbes with
    | none =>
        rw [found] at clamped
        cases clamped
    | some head =>
        rw [found] at clamped
        have boundary : flooredHead head (some c.finalizedBlock) = max head c.finalizedBlock := by
          simp only [flooredHead]
          split <;> omega
        simp only [boundary] at clamped
        refine ⟨head, rfl, ?_⟩
        split at clamped
        · have := Except.ok.inj clamped
          omega
        · have := Except.ok.inj clamped
          omega

/-- The clamp neither raises a block nor lowers it below the floor. -/
theorem clampProbed_floor {c : Chain} {i v : Nat} (clamped : r.clampProbed pin c i = .ok v) :
    c.finalizedBlock ≤ v ↔ c.finalizedBlock ≤ (r.answers i).rpcFinalized := by
  rcases clampProbed_cases clamped with ⟨_, rfl⟩ | ⟨_, head, _, rfl⟩
  · exact Iff.rfl
  · omega

theorem clampProbed_advances {c : Chain} {i v : Nat} (clamped : r.clampProbed pin c i = .ok v) :
    c.finalizedBlock + c.finalityBlockCount < v ↔ Advances pin c (r.answers i) := by
  unfold Advances
  rcases clampProbed_cases clamped with ⟨plain, rfl⟩ | ⟨portal, head, found, rfl⟩
  · simp [plain]
  · simp only [portal, found, Option.some.injEq, exists_eq_left', true_implies]
    omega

theorem clampEach_at {which : List Nat} {es : List ((Chain × Nat) × Nat)} {blocks : List Nat}
    (done : r.clampEach pin which es = .ok blocks) {k : Nat} {c : Chain} {i block : Nat}
    (here : es[k]? = some ((c, i), block)) :
    ∃ v, blocks[k]? = some v ∧
      (i ∈ which → r.clampProbed pin c i = .ok v) ∧ (i ∉ which → v = block) := by
  induction es generalizing blocks k with
  | nil => cases here
  | cons e rest ih =>
      unfold clampEach at done
      cases first : r.clampOne pin which e with
      | error e =>
          rw [first] at done
          cases done
      | ok v =>
          cases others : r.clampEach pin which rest with
          | error e =>
              rw [first, others] at done
              cases done
          | ok blocks' =>
              rw [first, others] at done
              cases done
              cases k with
              | zero =>
                  cases here
                  unfold clampOne at first
                  refine ⟨v, rfl, fun mem => ?_, fun out => ?_⟩
                  · rw [if_pos mem] at first
                    exact first
                  · rw [if_neg out] at first
                    exact (Except.ok.inj first).symm
              | succ k => exact ih others here

theorem zipped_at {c : Chain} {i block : Nat} {blocks : List Nat} (here : chains[i]? = some c)
    (at_ : blocks[i]? = some block) :
    (chains.zipIdx.zip blocks)[i]? = some ((c, i), block) := by
  rw [List.getElem?_zip_eq_some]
  exact ⟨by simp [List.getElem?_zipIdx, here], at_⟩

/-- The first phase: a probed chain has its clamped block, any other its boundary. -/
theorem probed_at {probed : List Nat}
    (done : r.clampEach pin (r.probeIndices chains)
      (chains.zipIdx.zip (chains.map Chain.finalizedBlock)) = .ok probed)
    {i : Nat} {c : Chain} (here : chains[i]? = some c) :
    ∃ v, probed[i]? = some v ∧ (i ∈ r.probeIndices chains → r.clampProbed pin c i = .ok v) ∧
      (i ∉ r.probeIndices chains → v = c.finalizedBlock) :=
  clampEach_at done (zipped_at here (by simp [here]))

/-- The round catches up when a probed chain advances. -/
theorem shouldCatchup_iff {probed : List Nat}
    (done : r.clampEach pin (r.probeIndices chains)
      (chains.zipIdx.zip (chains.map Chain.finalizedBlock)) = .ok probed) :
    shouldCatchup chains probed = true ↔
      ∃ i c, chains[i]? = some c ∧ i ∈ r.probeIndices chains ∧ Advances pin c (r.answers i) := by
  unfold shouldCatchup
  simp only [List.any_eq_true, decide_eq_true_eq]
  constructor
  · rintro ⟨⟨c, v⟩, mem, advanced⟩
    obtain ⟨i, at_⟩ := List.mem_iff_getElem?.1 mem
    obtain ⟨here, found⟩ := List.getElem?_zip_eq_some.1 at_
    obtain ⟨v', found', clamped, passed⟩ := probed_at done here
    obtain rfl : v' = v := Option.some.inj (found'.symm.trans found)
    by_cases asked : i ∈ r.probeIndices chains
    · exact ⟨i, c, here, asked, (clampProbed_advances (clamped asked)).1 advanced⟩
    · have same := passed asked
      have advanced : c.finalizedBlock + c.finalityBlockCount < v' := advanced
      omega
  · rintro ⟨i, c, here, asked, advances⟩
    obtain ⟨v, found, clamped, _⟩ := probed_at done here
    refine ⟨(c, v), List.mem_iff_getElem?.2 ⟨i, ?_⟩, (clampProbed_advances (clamped asked)).2 advances⟩
    exact List.getElem?_zip_eq_some.2 ⟨here, found⟩

theorem held_refl (chains : List Chain) : Held chains chains :=
  fun _ c here => ⟨c, here, Nat.le_refl _⟩

/-- A round that is skipped has nobody to ask. -/
theorem probeIndices_of_skips (skip : r.skips chains = true) : r.probeIndices chains = [] := by
  unfold skips at skip
  unfold probeIndices
  cases kind : r.ordering with
  | omnichain pendingCount =>
      rw [kind] at skip
      unfold shouldSkipOmnichainCutoverRound at skip
      simp only [Bool.and_eq_true, decide_eq_true_eq] at skip
      show omnichainCutoverProbeIndices (progress chains) pendingCount = []
      rw [skip.1]
      exact List.isEmpty_iff.1 skip.2
  | multichain =>
      rw [kind] at skip
      exact List.isEmpty_iff.1 skip

/-- A round that completes moves no boundary back exactly when it was told nothing behind one. -/
theorem run_held_iff {after : List Chain} (completes : r.run pin chains = .ok after) :
    Held chains after ↔ AnswersAhead pin r chains := by
  unfold run at completes
  split at completes
  · next skip =>
      cases completes
      refine ⟨fun _ catchup => ?_, fun _ => held_refl chains⟩
      obtain ⟨i, _, _, asked, _⟩ := catchup
      rw [probeIndices_of_skips skip] at asked
      cases asked
  · cases first : r.clampEach pin (r.probeIndices chains)
        (chains.zipIdx.zip (chains.map Chain.finalizedBlock)) with
    | error e =>
        rw [first] at completes
        cases completes
    | ok probed =>
        rw [first] at completes
        have catchup := shouldCatchup_iff first
        dsimp only [bind, Except.bind, pure, Except.pure] at completes
        split at completes
        · next catches =>
            cases second : r.clampEach pin (r.secondPhase chains) (chains.zipIdx.zip probed) with
            | error e =>
                rw [second] at completes
                cases completes
            | ok adopted =>
                rw [second] at completes
                cases completes
                -- what each chain adopts, and when it is no step back
                have each : ∀ i c, chains[i]? = some c → ∃ v, adopted[i]? = some v ∧
                    (c.finalizedBlock ≤ v ↔
                      (i ∈ r.probeIndices chains ∨ i ∈ r.secondPhase chains →
                        c.finalizedBlock ≤ (r.answers i).rpcFinalized)) := by
                  intro i c here
                  obtain ⟨v, found, clamped, passed⟩ := probed_at first here
                  obtain ⟨v', found', clamped', passed'⟩ := clampEach_at second (zipped_at here found)
                  refine ⟨v', found', ?_⟩
                  by_cases again : i ∈ r.secondPhase chains
                  · simp [clampProbed_floor (clamped' again), again]
                  · by_cases asked : i ∈ r.probeIndices chains
                    · simp [passed' again, clampProbed_floor (clamped asked), asked]
                    · simp [passed' again, passed asked, again, asked]
                constructor
                · intro held _ i c here asked
                  obtain ⟨v, found, back⟩ := each i c here
                  obtain ⟨c', at_, le⟩ := held i c here
                  rw [List.getElem?_zipWith, here, found] at at_
                  cases at_
                  exact back.1 le asked
                · intro ahead i c here
                  obtain ⟨v, found, back⟩ := each i c here
                  refine ⟨{ c with finalizedBlock := v }, ?_, back.2 (ahead (catchup.1 catches) i c here)⟩
                  rw [List.getElem?_zipWith, here, found]
        · next still =>
            cases completes
            exact ⟨fun _ catches => absurd (catchup.2 catches) still, fun _ => held_refl chains⟩

/-! ## Runs of rounds -/

/-- What the `n`-th round of a run does to the boundaries it finds. -/
def AtEach (pin : Option Nat) (rounds : Nat → Round) (chains : List Chain)
    (holds : Round → List Chain → List Chain → Prop) : Prop :=
  ∀ n before after,
    Rounds.rounds (fun (r : Round) => r.run pin) rounds n chains = .ok before →
    (rounds n).run pin before = .ok after → holds (rounds n) before after

/-- In a run of rounds no boundary is ever moved back exactly when each round that catches up is
told nothing behind one. -/
theorem boundary_monotone_iff (pin : Option Nat) (rounds : Nat → Round) (chains : List Chain) :
    AtEach pin rounds chains (fun _ before after => Held before after) ↔
      AtEach pin rounds chains (fun r before _ => AnswersAhead pin r before) := by
  constructor
  · intro held n before after reached completes
    exact (run_held_iff completes).1 (held n before after reached completes)
  · intro ahead n before after reached completes
    exact (run_held_iff completes).2 (ahead n before after reached completes)

def finalizedChain (name : String) : Chain where
  name := name
  portalUrlForLog := "portal"
  portalRealtime := true
  endBlock := none
  finalizedBlock := 100
  finalityBlockCount := 10

/-- The first chain is told 200, the second `rpcFinalized`. -/
def lateRound (rpcFinalized : Nat) : Round where
  ordering := .multichain
  answers := fun i =>
    if i = 0 then { rpcFinalized := 200, portalProbes := [some 200] }
    else { rpcFinalized, portalProbes := [none, some 120] }

/-- A node whose finalized block is behind moves the boundary back. -/
theorem boundary_regresses :
    ¬ ∀ (pin : Option Nat) (rounds : Nat → Round) (chains : List Chain),
      AtEach pin rounds chains fun _ before after => Held before after := by
  intro held
  obtain ⟨c, found, le⟩ := held none (fun _ => lateRound 90) [finalizedChain "a", finalizedChain "b"] 0
    _ _ rfl rfl 1 (finalizedChain "b") rfl
  cases found
  exact absurd le (by decide)

end Round

end PortalPonder.Cutover
