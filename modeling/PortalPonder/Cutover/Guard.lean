import PortalPonder.Lib.Rounds
import Mathlib.Data.List.Basic

/-!
# The cutover guard

Before realtime starts, the historical loop asks every chain for its head once more. A chain whose
configured end is finalized already is not asked: phase 1 of a round leaves it out unless events
are parked, phase 2 asks it after all once another chain has advanced. The loop around the guard
is that of the whole-loop model of the guard's tests, with the answers of a chain's probes in the
order in which they are given.
-/

namespace PortalPonder.Cutover

structure CutoverSyncProgress where
  endBlock : Option Nat
  finalized : Nat
  deriving DecidableEq, Repr

def isEndCappedAtCutover (syncProgress : CutoverSyncProgress) : Bool :=
  syncProgress.endBlock.any fun e => e ≤ syncProgress.finalized

/-! ## Probe sets

The progress of each chain, in order; a chain without an entry is probed. -/

def probeable (entry : Option CutoverSyncProgress) : Bool :=
  entry.all fun syncProgress => !isEndCappedAtCutover syncProgress

def cutoverProbeIndices (chains : List (Option CutoverSyncProgress)) : List Nat :=
  (List.range chains.length).filter fun i => (chains[i]?).any probeable

def shouldSkipCutoverRound (chains : List (Option CutoverSyncProgress)) : Bool :=
  (cutoverProbeIndices chains).isEmpty

def shouldSkipOmnichainCutoverRound (chains : List (Option CutoverSyncProgress))
    (pendingCount : Nat) : Bool :=
  pendingCount = 0 && shouldSkipCutoverRound chains

def omnichainCutoverProbeIndices (chains : List (Option CutoverSyncProgress))
    (pendingCount : Nat) : List Nat :=
  if 0 < pendingCount then List.range chains.length else cutoverProbeIndices chains

def cutoverExcludedIndices (chains : Nat) (probeIndices : List Nat) : List Nat :=
  (List.range chains).filter fun i => i ∉ probeIndices

theorem mem_cutoverProbeIndices {chains : List (Option CutoverSyncProgress)} {i : Nat} :
    i ∈ cutoverProbeIndices chains ↔ ∃ entry, chains[i]? = some entry ∧ probeable entry = true := by
  unfold cutoverProbeIndices
  simp only [List.mem_filter, List.mem_range, Option.any_eq_true]
  constructor
  · rintro ⟨_, entry, here, probe⟩
    exact ⟨entry, here, probe⟩
  · rintro ⟨entry, here, probe⟩
    exact ⟨(List.getElem?_eq_some_iff.1 here).1, entry, here, probe⟩

theorem cutoverExcludedIndices_complement {chains : Nat} {probeIndices : List Nat} {i : Nat}
    (within : i < chains) : i ∈ cutoverExcludedIndices chains probeIndices ↔ i ∉ probeIndices := by
  simp [cutoverExcludedIndices, within]

/-- Only when every chain is end-capped is the round skipped. -/
theorem shouldSkipCutoverRound_iff {chains : List (Option CutoverSyncProgress)} :
    shouldSkipCutoverRound chains = true ↔ ∀ entry ∈ chains, probeable entry = false := by
  unfold shouldSkipCutoverRound
  rw [List.isEmpty_iff, List.eq_nil_iff_forall_not_mem]
  constructor
  · intro none_ entry mem
    obtain ⟨i, within, here⟩ := List.getElem_of_mem mem
    refine Bool.eq_false_iff.2 fun probe => none_ i (mem_cutoverProbeIndices.2 ⟨entry, ?_, probe⟩)
    rw [List.getElem?_eq_getElem within, here]
  · intro capped i mem
    obtain ⟨entry, here, probe⟩ := mem_cutoverProbeIndices.1 mem
    rw [capped entry (List.mem_of_getElem? here)] at probe
    cases probe

/-! ## The loop -/

structure LoopChain where
  endBlock : Option Nat
  finalized : Nat
  finalityBlockCount : Nat
  /-- the highest block already extracted -/
  cursor : Nat
  /-- the blocks with an event -/
  events : List Nat
  /-- the answers of its probes -/
  heads : Nat → Nat
  /-- how many there have been -/
  probes : Nat

/-- The chains in order, and the parked events, each with its chain. -/
structure Loop where
  chains : List LoopChain
  pending : List (Nat × Nat)

namespace LoopChain

def progress (c : LoopChain) : CutoverSyncProgress where
  endBlock := c.endBlock
  finalized := c.finalized

/-- `min(finalized, end)` -/
def target (c : LoopChain) : Nat :=
  match c.endBlock with
  | none => c.finalized
  | some e => min c.finalized e

/-- What a probe returns now. -/
def trueFinalized (c : LoopChain) : Nat := c.heads c.probes

end LoopChain

/-- `b > omnichainTo`: above the least finalized block, or above every end. -/
def parks (chains : List LoopChain) (b : Nat) : Bool :=
  (chains.any fun c => c.finalized < b) || chains.all fun c => c.endBlock.any fun e => e < b

namespace Loop

def progress (s : Loop) : List (Option CutoverSyncProgress) :=
  s.chains.map fun c => some c.progress

/-- The events in `(cursor, to]` of each chain that are to be parked. -/
def newlyParked (s : Loop) : List (Nat × Nat) :=
  s.chains.zipIdx.flatMap fun e =>
    (e.1.events.filter fun b => e.1.cursor < b && b ≤ e.1.target && parks s.chains b).map fun b =>
      (e.2, b)

/-- Extract up to the target of each chain; what is no longer above the checkpoint drains. -/
def extract (s : Loop) : Loop where
  chains := s.chains.map fun c => { c with cursor := max c.cursor c.target }
  pending := (s.pending ++ s.newlyParked).eraseDups.filter fun e => parks s.chains e.2

/-- One chain advanced by more than its finality block count. -/
def catchesUp (s : Loop) (finalizedAfter : Nat → LoopChain → Nat) : Bool :=
  s.chains.zipIdx.any fun e => e.1.finalized + e.1.finalityBlockCount < finalizedAfter e.2 e.1

/-- A round with both phases. An `error` is the `break`, with what is left. -/
def guardedRound (_ : Unit) (before : Loop) : Except Loop Loop :=
  let s := before.extract
  if shouldSkipOmnichainCutoverRound s.progress s.pending.length then .error s
  else
    let probeSet := omnichainCutoverProbeIndices s.progress s.pending.length
    let finalizedAfter := fun i (c : LoopChain) => if i ∈ probeSet then c.trueFinalized else c.finalized
    let counted := fun i (c : LoopChain) => if i ∈ probeSet then c.probes + 1 else c.probes
    if s.catchesUp finalizedAfter then
      let excluded := cutoverExcludedIndices s.chains.length probeSet
      .ok { s with
        chains := s.chains.mapIdx fun i c =>
          { c with
            finalized := if i ∈ excluded then c.trueFinalized else finalizedAfter i c
            probes := if i ∈ excluded then c.probes + 1 else counted i c } }
    else .error { s with chains := s.chains.mapIdx fun i c => { c with probes := counted i c } }

/-- The round of the loop without the guard: every chain is probed and adopted. -/
def upstreamRound (_ : Unit) (before : Loop) : Except Loop Loop :=
  let s := before.extract
  if s.catchesUp fun _ c => c.trueFinalized then
    .ok { s with
      chains := s.chains.map fun c => { c with finalized := c.trueFinalized, probes := c.probes + 1 } }
  else .error { s with chains := s.chains.map fun c => { c with probes := c.probes + 1 } }

/-- The loop with rounds of a kind breaks after `n` of them at the latest, and leaves `last`. -/
def Ends (round : Unit → Loop → Except Loop Loop) (s : Loop) (n : Nat) (last : Loop) : Prop :=
  Rounds.rounds round (fun _ => ()) n s = .error last

/-- A parked event is handed to realtime, which drops it on an end-capped chain. -/
def HandsOver (round : Unit → Loop → Except Loop Loop) (s : Loop) (event : Nat × Nat) : Prop :=
  ∃ n last, Ends round s n last ∧ event ∈ last.pending

/-! ## The guard changes nothing that is handed over -/

theorem progress_length (s : Loop) : s.progress.length = s.chains.length := by
  simp [progress]

/-- With events parked every chain is in the first phase. -/
theorem mem_probe_of_pending {s : Loop} (parked : s.pending ≠ []) {i : Nat}
    (within : i < s.chains.length) :
    i ∈ omnichainCutoverProbeIndices s.progress s.pending.length := by
  unfold omnichainCutoverProbeIndices
  rw [if_pos (List.length_pos_of_ne_nil parked), progress_length]
  exact List.mem_range.2 within

/-- A chain that is passed through has not advanced. -/
theorem catchesUp_of_passed {s : Loop} {probeSet : List Nat}
    (catchup : s.catchesUp (fun i c => if i ∈ probeSet then c.trueFinalized else c.finalized) = true) :
    s.catchesUp (fun _ c => c.trueFinalized) = true := by
  unfold catchesUp at catchup ⊢
  obtain ⟨e, mem, advanced⟩ := List.any_eq_true.1 catchup
  refine List.any_eq_true.2 ⟨e, mem, ?_⟩
  simp only [decide_eq_true_eq] at advanced ⊢
  split at advanced
  · exact advanced
  · omega

/-- After both phases every chain was asked once, and its answer is adopted. -/
theorem adopted_all (chains : List LoopChain) (probeSet : List Nat) :
    (chains.mapIdx fun i c =>
      { c with
        finalized := if i ∈ cutoverExcludedIndices chains.length probeSet then c.trueFinalized
          else if i ∈ probeSet then c.trueFinalized else c.finalized
        probes := if i ∈ cutoverExcludedIndices chains.length probeSet then c.probes + 1
          else if i ∈ probeSet then c.probes + 1 else c.probes }) =
      chains.map fun c => { c with finalized := c.trueFinalized, probes := c.probes + 1 } := by
  refine List.ext_getElem (by simp) fun i within _ => ?_
  have within : i < chains.length := by simpa using within
  rw [List.getElem_mapIdx, List.getElem_map]
  by_cases probed : i ∈ probeSet
  · have included : i ∉ cutoverExcludedIndices chains.length probeSet :=
      fun mem => (cutoverExcludedIndices_complement within).1 mem probed
    rw [if_neg included, if_pos probed, if_neg included, if_pos probed]
  · have excluded := (cutoverExcludedIndices_complement within).2 probed
    rw [if_pos excluded, if_pos excluded]

/-- A guarded round that goes on is a round of the loop without the guard. -/
theorem guardedRound_goesOn {before after : Loop} (goesOn : guardedRound () before = .ok after) :
    upstreamRound () before = .ok after := by
  unfold guardedRound at goesOn
  dsimp only at goesOn
  split at goesOn
  · cases goesOn
  · split at goesOn
    · next catchup =>
        cases goesOn
        unfold upstreamRound
        dsimp only
        rw [if_pos (catchesUp_of_passed catchup), adopted_all]
    · cases goesOn

/-- A guarded round that breaks leaves nothing parked, or breaks as the loop without the guard. -/
theorem guardedRound_ends {before last : Loop} (ends : guardedRound () before = .error last) :
    last.pending = [] ∨ upstreamRound () before = .error last := by
  unfold guardedRound at ends
  dsimp only at ends
  split at ends
  · next skip =>
      cases ends
      unfold shouldSkipOmnichainCutoverRound at skip
      rw [Bool.and_eq_true, decide_eq_true_eq] at skip
      exact .inl (List.eq_nil_of_length_eq_zero skip.1)
  · split at ends
    · cases ends
    · next still =>
        cases ends
        by_cases parked : before.extract.pending = []
        · exact .inl parked
        · -- every chain was probed, as without the guard
          right
          have all : ∀ e ∈ before.extract.chains.zipIdx,
              e.2 ∈ omnichainCutoverProbeIndices before.extract.progress
                before.extract.pending.length :=
            fun e mem => mem_probe_of_pending parked (List.snd_lt_of_mem_zipIdx mem)
          unfold upstreamRound
          dsimp only
          rw [if_neg]
          · congr 2
            refine List.ext_getElem (by simp) fun i within _ => ?_
            have within : i < before.extract.chains.length := by simpa using within
            rw [List.getElem_mapIdx, List.getElem_map, if_pos (mem_probe_of_pending parked within)]
          · intro catchup
            refine still ?_
            obtain ⟨e, mem, advanced⟩ := List.any_eq_true.1 catchup
            refine List.any_eq_true.2 ⟨e, mem, ?_⟩
            simp only [decide_eq_true_eq, if_pos (all e mem)] at advanced ⊢
            exact advanced

/-- Extracting moves no boundary and no end. -/
theorem extract_progress (s : Loop) : s.extract.progress = s.progress := by
  simp [progress, extract, LoopChain.progress, Function.comp_def]

/-- When every chain is end-capped and nothing is parked, the round breaks before any probe. -/
theorem guardedRound_capped {s : Loop}
    (capped : ∀ c ∈ s.chains, isEndCappedAtCutover c.progress = true)
    (nothing : s.extract.pending = []) : guardedRound () s = .error s.extract := by
  have skip : shouldSkipOmnichainCutoverRound s.extract.progress s.extract.pending.length = true := by
    rw [nothing, extract_progress]
    show shouldSkipCutoverRound s.progress = true
    refine shouldSkipCutoverRound_iff.2 fun entry mem => ?_
    obtain ⟨c, inChains, rfl⟩ := List.mem_map.1 mem
    simp [probeable, capped c inChains]
  unfold guardedRound
  rw [if_pos skip]

/-- The guarded loop hands over no parked event that the loop without the guard does not hand
over as well; where every chain is end-capped and nothing is parked it makes no probe. -/
theorem guarded_drops_nothing (s : Loop) :
    (∀ event, HandsOver guardedRound s event → HandsOver upstreamRound s event) ∧
    ((∀ c ∈ s.chains, isEndCappedAtCutover c.progress = true) → s.extract.pending = [] →
      ∃ last, (∀ n, 0 < n → Ends guardedRound s n last) ∧
        last.chains.map LoopChain.probes = s.chains.map LoopChain.probes ∧ last.pending = []) := by
  constructor
  · rintro event ⟨n, last, ended, mem⟩
    have agree : last.pending = [] ∨ Ends upstreamRound s n last :=
      Rounds.rounds_agree (fun last : Loop => last.pending = [])
        (fun _ _ _ goesOn => guardedRound_goesOn goesOn) (fun _ _ _ ends => guardedRound_ends ends)
        ended
    rcases agree with nothing | same
    · rw [nothing] at mem
      cases mem
    · exact ⟨n, last, same, mem⟩
  · intro capped nothing
    refine ⟨s.extract, fun n pos => ?_, by simp [extract, Function.comp_def], nothing⟩
    have first : Ends guardedRound s 1 s.extract := guardedRound_capped capped nothing
    exact Rounds.rounds_error_mono first pos

/-- Two end-capped chains: the boundary of the first keeps an event of the second parked, and its
head has not advanced enough to move it. -/
def parkedLoop : Loop where
  chains := [
    { endBlock := some 110, finalized := 110, finalityBlockCount := 10, cursor := 110, events := [],
      heads := fun _ => 115, probes := 0 },
    { endBlock := some 200, finalized := 200, finalityBlockCount := 10, cursor := 200, events := [],
      heads := fun _ => 200, probes := 0 }]
  pending := [(1, 150)]

theorem guarded_drops_nothing_sample :
    HandsOver upstreamRound parkedLoop (1, 150) ∧
      ∃ last, Ends guardedRound { parkedLoop with pending := [] } 1 last ∧
        last.chains.map LoopChain.probes = [0, 0] ∧ last.pending = [] := by
  constructor
  · exact (guarded_drops_nothing parkedLoop).1 (1, 150) ⟨1, _, rfl, by decide⟩
  · have capped : ∀ c ∈ parkedLoop.chains, isEndCappedAtCutover c.progress = true := by
      simp [parkedLoop, isEndCappedAtCutover, LoopChain.progress]
    obtain ⟨last, ends, probes, nothing⟩ :=
      (guarded_drops_nothing { parkedLoop with pending := [] }).2 capped (by decide)
    exact ⟨last, ends 1 Nat.one_pos, probes, nothing⟩

end Loop

end PortalPonder.Cutover
