import Mathlib.Data.List.Forall2
import Mathlib.Data.List.MinMax
import Mathlib.Data.Nat.Basic
import Mathlib.Order.Monotone.Defs
import PortalPonder.Cutover.Boundary
import PortalPonder.Lib.Machine

/-!
# The finality floor

When the process starts again it asks the Portal for its finalized head anew, and a replica that
lags may name one below what was final before. The rows of final blocks cannot be reverted any
more, so the boundary must not fall below them: the persisted checkpoint gives a floor. In the
omnichain order that checkpoint may be another chain's, and only its timestamp means something
here.
-/

namespace PortalPonder.Cutover

/-- A block of the sync store. -/
structure StoredBlock where
  number : Nat
  timestamp : Nat
  deriving DecidableEq, Repr

/-- What `decodeCheckpoint` reads off a checkpoint. -/
structure Checkpoint where
  blockTimestamp : Nat
  chainId : Nat
  blockNumber : Nat
  deriving DecidableEq, Repr

def checkpointBlockNumber (checkpoint : Option Checkpoint) (chainId : Nat) : Option Nat :=
  match checkpoint with
  | none => none
  | some decoded => if decoded.chainId ≠ chainId then none else some decoded.blockNumber

def deriveFinalityFloor (checkpoint : Option Checkpoint) (chainId : Nat)
    (getSafeCrashRecoveryBlock : Option (Nat → Option StoredBlock)) : Option Nat :=
  match checkpoint with
  | none => none
  | some decoded =>
      match checkpointBlockNumber checkpoint chainId with
      | some sameChain => some sameChain
      | none =>
          match getSafeCrashRecoveryBlock with
          | none => none
          | some lookup => (lookup decoded.blockTimestamp).map StoredBlock.number

/-- The query of the sync store: the greatest block with an earlier timestamp. -/
structure FindsSafeBlock (lookup : List StoredBlock → Nat → Option StoredBlock) : Prop where
  found : ∀ stored timestamp b, lookup stored timestamp = some b →
    b ∈ stored ∧ b.timestamp < timestamp ∧
      ∀ other ∈ stored, other.timestamp < timestamp → other.number ≤ b.number
  missing : ∀ stored timestamp, lookup stored timestamp = none →
    ∀ b ∈ stored, ¬ b.timestamp < timestamp

/-! ## Chains that are restarted -/

structure ChainState where
  chainId : Nat
  /-- with `syncProgress.finalized` as its finalized block -/
  chain : Chain
  stored : List StoredBlock
  /-- the persisted safe checkpoint of the chain -/
  row : Option Checkpoint
  /-- the blocks whose rows cannot be reverted any more -/
  final : List StoredBlock
  /-- the highest boundary there has been -/
  peak : Nat

/-- The block is final under a checkpoint: at or below the chain's own one, or earlier than that of
another chain. -/
def IsFinal (chainId : Nat) (checkpoint : Checkpoint) (b : StoredBlock) : Prop :=
  if checkpoint.chainId = chainId then b.number ≤ checkpoint.blockNumber
  else b.timestamp < checkpoint.blockTimestamp

instance (chainId : Nat) (checkpoint : Checkpoint) (b : StoredBlock) :
    Decidable (IsFinal chainId checkpoint b) :=
  inferInstanceAs (Decidable (ite _ _ _))

namespace ChainState

def boundary (cs : ChainState) : Nat := cs.chain.finalizedBlock

def setBoundary (cs : ChainState) (block : Nat) : ChainState :=
  { cs with chain := { cs.chain with finalizedBlock := block }, peak := max cs.peak block }

variable (pin : Option Nat) (lookup : List StoredBlock → Nat → Option StoredBlock)

def floor (cs : ChainState) : Option Nat :=
  deriveFinalityFloor cs.row cs.chainId (some (lookup cs.stored))

/-- `getLocalSyncProgress`: the boundary from which a process goes on. -/
def getLocalSyncProgress (cs : ChainState) (answer : Answer) : Except String ChainState :=
  match clampFinalizedToPortalHead cs.chain pin answer.portalProbes answer.rpcFinalized
      (cs.floor lookup) with
  | .error e => .error e
  | .ok block => .ok (cs.setBoundary block)

end ChainState

inductive FinalityAction where
  | store (i number : Nat)
  | finalize (i number : Nat)
  | persist (i : Nat) (checkpoint : Checkpoint)
  | cutover (r : Round)
  /-- the process stops, and every chain starts again -/
  | restart (answers : Nat → Answer)

section

variable (pin : Option Nat) (lookup : List StoredBlock → Nat → Option StoredBlock)
  (time : Nat → Nat → Nat)

def onChain (s : List ChainState) (i : Nat) (f : ChainState → ChainState) :
    Option (List ChainState) :=
  (s[i]?).map fun cs => s.set i (f cs)

def restartAll (answers : Nat → Answer) : List ChainState → Except String (List ChainState)
  | [] => .ok []
  | cs :: rest =>
      match cs.getLocalSyncProgress pin lookup (answers cs.chainId) with
      | .error e => .error e
      | .ok cs' =>
          match restartAll answers rest with
          | .error e => .error e
          | .ok rest' => .ok (cs' :: rest')

def cutoverAll (r : Round) (s : List ChainState) : Option (List ChainState) :=
  match r.run pin (s.map ChainState.chain) with
  | .error _ => none
  | .ok after => some (List.zipWith (fun cs c => cs.setBoundary c.finalizedBlock) s after)

def finalityStep (s : List ChainState) : FinalityAction → Option (List ChainState)
  | .store i number => onChain s i fun cs =>
      { cs with stored := cs.stored ++ [⟨number, time cs.chainId number⟩] }
  | .finalize i number => onChain s i fun cs => cs.setBoundary number
  | .persist i checkpoint => onChain s i fun cs =>
      { cs with
        row := some checkpoint
        final := cs.final ++ cs.stored.filter fun b => IsFinal cs.chainId checkpoint b }
  | .cutover r => cutoverAll pin r s
  | .restart answers => (restartAll pin lookup answers s).toOption

end

/-- The order of checkpoints. -/
def Checkpoint.Before (a b : Checkpoint) : Prop :=
  a.blockTimestamp < b.blockTimestamp ∨ a.blockTimestamp = b.blockTimestamp ∧
    (a.chainId < b.chainId ∨ a.chainId = b.chainId ∧ a.blockNumber ≤ b.blockNumber)

/-- A checkpoint covers nothing of the chain that lies above its boundary. -/
def Covers (time : Nat → Nat → Nat) (cs : ChainState) (top : Nat) (cp : Checkpoint) : Prop :=
  if cp.chainId = cs.chainId then
    cp.blockNumber ≤ top ∧ cp.blockTimestamp = time cs.chainId cp.blockNumber
  else ∀ n, time cs.chainId n < cp.blockTimestamp → n ≤ top

/-- Checkpoints are persisted in their order and behind finality. A checkpoint of another chain
has a later timestamp than the chain's own one before. -/
def MayPersist (time : Nat → Nat → Nat) (cs : ChainState) (cp : Checkpoint) : Prop :=
  Covers time cs cs.boundary cp ∧
    ∀ old ∈ cs.row, old.Before cp ∧
      (old.chainId = cs.chainId → cp.chainId ≠ cs.chainId → old.blockTimestamp ≠ cp.blockTimestamp)

/-- Finality advances, a node is not asked behind it, and checkpoints come in order. -/
def FinalityAllowed (pin : Option Nat) (time : Nat → Nat → Nat) (s : List ChainState) :
    FinalityAction → Prop
  | .store _ _ => True
  | .finalize i number => ∀ cs ∈ s[i]?, cs.boundary ≤ number
  | .persist i checkpoint => ∀ cs ∈ s[i]?, MayPersist time cs checkpoint
  | .cutover r => Round.AnswersAhead pin r (s.map ChainState.chain)
  | .restart answers => ∀ cs ∈ s, ∀ b ∈ cs.final, b.number ≤ (answers cs.chainId).rpcFinalized

/-! ## The floor -/

section

variable {pin : Option Nat} {lookup : List StoredBlock → Nat → Option StoredBlock}
  {time : Nat → Nat → Nat} {cs : ChainState}

/-- What every chain keeps. -/
structure FloorSound (time : Nat → Nat → Nat) (cs : ChainState) : Prop where
  times : ∀ b ∈ cs.stored, b.timestamp = time cs.chainId b.number
  final : ∀ b ∈ cs.final, b ∈ cs.stored ∧ ∃ cp ∈ cs.row, IsFinal cs.chainId cp b
  below : ∀ b ∈ cs.final, b.number ≤ cs.boundary
  covers : ∀ cp ∈ cs.row, Covers time cs cs.peak cp
  top : cs.boundary ≤ cs.peak

theorem Covers.mono {top top' : Nat} {cp : Checkpoint} (covers : Covers time cs top cp)
    (le : top ≤ top') : Covers time cs top' cp := by
  unfold Covers at covers ⊢
  split
  · next own =>
      rw [if_pos own] at covers
      exact ⟨Nat.le_trans covers.1 le, covers.2⟩
  · next foreign =>
      rw [if_neg foreign] at covers
      exact fun n earlier => Nat.le_trans (covers n earlier) le

/-- What a checkpoint makes final lies at or below what it covers. -/
theorem Covers.isFinal {top : Nat} {cp : Checkpoint} (covers : Covers time cs top cp)
    {b : StoredBlock} (isFinal : IsFinal cs.chainId cp b)
    (timed : b.timestamp = time cs.chainId b.number) : b.number ≤ top := by
  unfold Covers at covers
  unfold IsFinal at isFinal
  by_cases own : cp.chainId = cs.chainId
  · rw [if_pos own] at covers isFinal
    exact Nat.le_trans isFinal covers.1
  · rw [if_neg own] at covers isFinal
    exact covers b.number (timed ▸ isFinal)

/-- A checkpoint of the chain itself is its own floor, another one that of its timestamp. -/
theorem floor_cases {cp : Checkpoint} (row : cs.row = some cp) :
    cs.floor lookup = if cp.chainId = cs.chainId then some cp.blockNumber
      else (lookup cs.stored cp.blockTimestamp).map StoredBlock.number := by
  unfold ChainState.floor deriveFinalityFloor checkpointBlockNumber
  rw [row]
  by_cases own : cp.chainId = cs.chainId
  · simp [own]
  · simp [own]

/-- The floor lies at or above every final block. -/
theorem FloorSound.floor_above (finds : FindsSafeBlock lookup) (sound : FloorSound time cs)
    {b : StoredBlock} (mem : b ∈ cs.final) : ∃ floor ∈ cs.floor lookup, b.number ≤ floor := by
  obtain ⟨stored, cp, row, isFinal⟩ := sound.final b mem
  rw [floor_cases row]
  unfold IsFinal at isFinal
  by_cases own : cp.chainId = cs.chainId
  · rw [if_pos own] at isFinal ⊢
    exact ⟨_, rfl, isFinal⟩
  · rw [if_neg own] at isFinal ⊢
    cases found : lookup cs.stored cp.blockTimestamp with
    | none => exact absurd isFinal (finds.missing _ _ found b stored)
    | some safe => exact ⟨safe.number, rfl, (finds.found _ _ _ found).2.2 b stored isFinal⟩

/-- The floor never lies above what was a boundary once. -/
theorem FloorSound.floor_le (finds : FindsSafeBlock lookup) (sound : FloorSound time cs) :
    ∀ floor ∈ cs.floor lookup, floor ≤ cs.peak := by
  intro floor is
  cases row : cs.row with
  | none =>
      unfold ChainState.floor deriveFinalityFloor at is
      rw [row] at is
      cases is
  | some cp =>
      have covers := sound.covers cp row
      rw [floor_cases row] at is
      by_cases own : cp.chainId = cs.chainId
      · rw [if_pos own] at is
        cases is
        unfold Covers at covers
        rw [if_pos own] at covers
        exact covers.1
      · rw [if_neg own] at is
        obtain ⟨safe, found, rfl⟩ := Option.map_eq_some_iff.1 is
        obtain ⟨stored, earlier, -⟩ := finds.found _ _ _ found
        have isFinal : IsFinal cs.chainId cp safe := by
          unfold IsFinal
          rw [if_neg own]
          exact earlier
        exact covers.isFinal isFinal (sound.times safe stored)

/-! ## Steps -/

theorem FloorSound.setBoundary (sound : FloorSound time cs) {block : Nat}
    (above : ∀ b ∈ cs.final, b.number ≤ block) : FloorSound time (cs.setBoundary block) := by
  refine ⟨sound.times, sound.final, above, fun cp row => ?_, Nat.le_max_right _ _⟩
  exact (sound.covers cp row).mono (Nat.le_max_left _ _)

theorem FloorSound.store (sound : FloorSound time cs) (number : Nat) :
    FloorSound time { cs with stored := cs.stored ++ [⟨number, time cs.chainId number⟩] } := by
  refine ⟨fun b mem => ?_, fun b mem => ?_, sound.below, sound.covers, sound.top⟩
  · rcases List.mem_append.1 mem with old | new
    · exact sound.times b old
    · rw [List.mem_singleton.1 new]
  · obtain ⟨stored, row⟩ := sound.final b mem
    exact ⟨List.mem_append_left _ stored, row⟩

/-- What was final before is final under the next checkpoint. -/
theorem IsFinal.next (mono : Monotone (time cs.chainId)) {old cp : Checkpoint} {b : StoredBlock}
    (timed : b.timestamp = time cs.chainId b.number) {top : Nat} (before : Covers time cs top old)
    (now : Covers time cs top cp) (order : old.Before cp)
    (noTie : old.chainId = cs.chainId → cp.chainId ≠ cs.chainId →
      old.blockTimestamp ≠ cp.blockTimestamp)
    (isFinal : IsFinal cs.chainId old b) : IsFinal cs.chainId cp b := by
  unfold Covers at before now
  unfold IsFinal at isFinal ⊢
  unfold Checkpoint.Before at order
  by_cases own : old.chainId = cs.chainId
  · rw [if_pos own] at before isFinal
    have earlier : b.timestamp ≤ old.blockTimestamp := by
      rw [timed, before.2]
      exact mono isFinal
    by_cases own' : cp.chainId = cs.chainId
    · rw [if_pos own'] at now ⊢
      -- a later timestamp of the same chain is a later block
      by_contra above
      have late : time cs.chainId cp.blockNumber ≤ time cs.chainId old.blockNumber :=
        mono (by omega)
      rw [← now.2, ← before.2] at late
      omega
    · rw [if_neg own']
      have differ := noTie own own'
      omega
  · rw [if_neg own] at before isFinal
    by_cases own' : cp.chainId = cs.chainId
    · rw [if_pos own'] at now ⊢
      by_contra above
      have late : time cs.chainId cp.blockNumber ≤ time cs.chainId b.number := mono (by omega)
      rw [← now.2, ← timed] at late
      omega
    · rw [if_neg own']
      omega

theorem FloorSound.persist (mono : Monotone (time cs.chainId)) (sound : FloorSound time cs)
    {cp : Checkpoint} (may : MayPersist time cs cp) :
    FloorSound time { cs with
      row := some cp
      final := cs.final ++ cs.stored.filter fun b => IsFinal cs.chainId cp b } := by
  obtain ⟨covers, order⟩ := may
  have high := covers.mono sound.top
  refine ⟨sound.times, fun b mem => ?_, fun b mem => ?_, fun cp' row => ?_, sound.top⟩
  · rcases List.mem_append.1 mem with old | new
    · obtain ⟨stored, before, row, isFinal⟩ := sound.final b old
      obtain ⟨inOrder, noTie⟩ := order before row
      exact ⟨stored, cp, rfl, isFinal.next mono (sound.times b stored) (sound.covers before row) high
        inOrder noTie⟩
    · obtain ⟨stored, isFinal⟩ := List.mem_filter.1 new
      exact ⟨stored, cp, rfl, of_decide_eq_true isFinal⟩
  · rcases List.mem_append.1 mem with old | new
    · exact sound.below b old
    · obtain ⟨stored, isFinal⟩ := List.mem_filter.1 new
      exact covers.isFinal (of_decide_eq_true isFinal) (sound.times b stored)
  · cases row
    exact high

/-- The Portal's head, raised to the floor, and never above what the node calls final. -/
theorem clamp_cases {c : Chain} {probes : List (Option Nat)} {rpcFinalized block : Nat}
    {floor : Option Nat}
    (clamped : clampFinalizedToPortalHead c pin probes rpcFinalized floor = .ok block) :
    c.portalRealtime = false ∧ block = rpcFinalized ∨
      c.portalRealtime = true ∧ ∃ head, portalFinalizedHead pin probes = some head ∧
        block = min rpcFinalized (max head (floor.getD head)) := by
  unfold clampFinalizedToPortalHead at clamped
  cases kind : c.portalRealtime with
  | false =>
      rw [if_pos kind] at clamped
      exact .inl ⟨rfl, (Except.ok.inj clamped).symm⟩
  | true =>
      rw [if_neg (by simp [kind])] at clamped
      refine .inr ⟨rfl, ?_⟩
      cases probed : portalFinalizedHead pin probes with
      | none =>
          rw [probed] at clamped
          cases clamped
      | some head =>
          rw [probed] at clamped
          refine ⟨head, rfl, ?_⟩
          have raised : flooredHead head floor = max head (floor.getD head) := by
            unfold flooredHead
            cases floor with
            | none => simp
            | some f =>
                simp only [Option.getD_some]
                split <;> omega
          simp only [raised] at clamped
          split at clamped
          · have := Except.ok.inj clamped
            omega
          · have := Except.ok.inj clamped
            omega

/-- The boundary from which a process goes on. -/
theorem getLocalSyncProgress_cases {answer : Answer} {cs' : ChainState}
    (went : cs.getLocalSyncProgress pin lookup answer = .ok cs') :
    ∃ block, cs' = cs.setBoundary block ∧
      (cs.chain.portalRealtime = false ∧ block = answer.rpcFinalized ∨
        cs.chain.portalRealtime = true ∧
          ∃ head, portalFinalizedHead pin answer.portalProbes = some head ∧
            block = min answer.rpcFinalized (max head ((cs.floor lookup).getD head))) := by
  unfold ChainState.getLocalSyncProgress at went
  cases clamped : clampFinalizedToPortalHead cs.chain pin answer.portalProbes
      answer.rpcFinalized (cs.floor lookup) with
  | error e =>
      rw [clamped] at went
      cases went
  | ok block =>
      rw [clamped] at went
      cases went
      exact ⟨block, rfl, clamp_cases clamped⟩

/-- A process goes on from no lower than the final blocks and from no higher than what the node
calls final, nor than the Portal's head and the boundaries there have been. -/
theorem FloorSound.between (finds : FindsSafeBlock lookup) (sound : FloorSound time cs)
    {answer : Answer} (ahead : ∀ b ∈ cs.final, b.number ≤ answer.rpcFinalized) {cs' : ChainState}
    (went : cs.getLocalSyncProgress pin lookup answer = .ok cs') :
    (∀ b ∈ cs.final, b.number ≤ cs'.boundary) ∧ cs'.boundary ≤ answer.rpcFinalized ∧
      (cs.chain.portalRealtime = true → ∃ head,
        portalFinalizedHead pin answer.portalProbes = some head ∧
          cs'.boundary ≤ max head cs.peak) := by
  obtain ⟨block, rfl, ⟨plain, is⟩ | ⟨portal, head, probed, is⟩⟩ := getLocalSyncProgress_cases went
  · refine ⟨fun b mem => ?_, Nat.le_of_eq is, fun portal => ?_⟩
    · rw [ChainState.setBoundary, ChainState.boundary, is]
      exact ahead b mem
    · rw [plain] at portal
      cases portal
  · have isBoundary : (cs.setBoundary block).boundary = block := rfl
    refine ⟨fun b mem => ?_, ?_, fun _ => ⟨head, probed, ?_⟩⟩
    · obtain ⟨floor, isFloor, above⟩ := sound.floor_above finds mem
      have low := ahead b mem
      rw [isFloor] at is
      simp only [Option.getD_some] at is
      omega
    · omega
    · cases isFloor : cs.floor lookup with
      | none =>
          rw [isFloor] at is
          simp only [Option.getD_none] at is
          omega
      | some floor =>
          have low := sound.floor_le finds floor isFloor
          rw [isFloor] at is
          simp only [Option.getD_some] at is
          omega

theorem FloorSound.restart (finds : FindsSafeBlock lookup) (sound : FloorSound time cs)
    {answer : Answer} (ahead : ∀ b ∈ cs.final, b.number ≤ answer.rpcFinalized) {cs' : ChainState}
    (went : cs.getLocalSyncProgress pin lookup answer = .ok cs') : FloorSound time cs' := by
  have above := (sound.between finds ahead went).1
  obtain ⟨block, rfl, -⟩ := getLocalSyncProgress_cases went
  exact sound.setBoundary above

end

/-! ## Runs -/

section

variable {pin : Option Nat} {lookup : List StoredBlock → Nat → Option StoredBlock}
  {time : Nat → Nat → Nat} {s t : List ChainState}

theorem onChain_forall {P Q : ChainState → Prop} {i : Nat} {f : ChainState → ChainState}
    (each : ∀ cs ∈ s, P cs) (old : ∀ cs ∈ s, P cs → Q cs) (new : ∀ cs ∈ s[i]?, P cs → Q (f cs))
    (taken : onChain s i f = some t) : ∀ cs ∈ t, Q cs := by
  obtain ⟨cs, here, rfl⟩ := Option.map_eq_some_iff.1 taken
  intro cs' mem
  rcases List.mem_or_eq_of_mem_set mem with mem | rfl
  · exact old cs' mem (each cs' mem)
  · exact new cs here (each cs (List.mem_of_getElem? here))

/-- Every chain goes on from its own state and its own answer. -/
theorem restartAll_each {answers : Nat → Answer} (went : restartAll pin lookup answers s = .ok t) :
    List.Forall₂ (fun cs cs' => cs.getLocalSyncProgress pin lookup (answers cs.chainId) = .ok cs')
      s t := by
  induction s generalizing t with
  | nil =>
      cases went
      exact .nil
  | cons cs rest ih =>
      unfold restartAll at went
      cases first : cs.getLocalSyncProgress pin lookup (answers cs.chainId) with
      | error e =>
          rw [first] at went
          cases went
      | ok cs' =>
          cases others : restartAll pin lookup answers rest with
          | error e =>
              rw [first, others] at went
              cases went
          | ok rest' =>
              rw [first, others] at went
              cases went
              exact .cons first (ih others)

theorem restart_each {answers : Nat → Answer}
    (taken : finalityStep pin lookup time s (.restart answers) = some t) :
    List.Forall₂ (fun cs cs' => cs.getLocalSyncProgress pin lookup (answers cs.chainId) = .ok cs')
      s t := by
  have taken : (restartAll pin lookup answers s).toOption = some t := taken
  cases went : restartAll pin lookup answers s with
  | error e =>
      rw [went] at taken
      cases taken
  | ok t' =>
      rw [went] at taken
      cases taken
      exact restartAll_each went

/-- A related list has nothing that comes from nowhere. -/
theorem mem_of_forall₂ {α β : Type} {R : α → β → Prop} {as : List α} {bs : List β}
    (each : List.Forall₂ R as bs) : ∀ b ∈ bs, ∃ a ∈ as, R a b := by
  induction each with
  | nil =>
      intro b mem
      cases mem
  | cons rel _ ih =>
      intro b mem
      rcases List.mem_cons.1 mem with rfl | mem
      · exact ⟨_, List.mem_cons_self, rel⟩
      · obtain ⟨a, here, rel⟩ := ih b mem
        exact ⟨a, List.mem_cons_of_mem _ here, rel⟩

/-- A cutover round that was told nothing behind a boundary keeps every floor sound. -/
theorem cutoverAll_sound {r : Round} (ahead : Round.AnswersAhead pin r (s.map ChainState.chain))
    (each : ∀ cs ∈ s, FloorSound time cs) (taken : cutoverAll pin r s = some t) :
    ∀ cs ∈ t, FloorSound time cs := by
  unfold cutoverAll at taken
  cases run : r.run pin (s.map ChainState.chain) with
  | error e =>
      rw [run] at taken
      cases taken
  | ok after =>
      rw [run] at taken
      cases taken
      intro cs' mem
      obtain ⟨i, at_⟩ := List.mem_iff_getElem?.1 mem
      obtain ⟨cs, c, here, there, rfl⟩ := List.getElem?_zipWith_eq_some.1 at_
      have sound := each cs (List.mem_of_getElem? here)
      have held := (Round.run_held_iff run).2 ahead
      obtain ⟨c', there', le⟩ := held i cs.chain (by simp [here])
      obtain rfl : c' = c := Option.some.inj (there'.symm.trans there)
      exact sound.setBoundary fun b mem => Nat.le_trans (sound.below b mem) le

theorem finalityStep_sound (finds : FindsSafeBlock lookup) (mono : ∀ c, Monotone (time c))
    {a : FinalityAction} (may : FinalityAllowed pin time s a)
    (taken : finalityStep pin lookup time s a = some t) (each : ∀ cs ∈ s, FloorSound time cs) :
    ∀ cs ∈ t, FloorSound time cs := by
  cases a with
  | store i number =>
      exact onChain_forall each (fun _ _ sound => sound) (fun _ _ sound => sound.store number) taken
  | finalize i number =>
      refine onChain_forall each (fun _ _ sound => sound) (fun cs here sound => ?_) taken
      exact sound.setBoundary fun b mem => Nat.le_trans (sound.below b mem) (may cs here)
  | persist i checkpoint =>
      refine onChain_forall each (fun _ _ sound => sound) (fun cs here sound => ?_) taken
      exact sound.persist (mono cs.chainId) (may cs here)
  | cutover r => exact cutoverAll_sound may each taken
  | restart answers =>
      intro cs' mem
      obtain ⟨cs, here, went⟩ := mem_of_forall₂ (restart_each taken) cs' mem
      exact (each cs here).restart finds (may cs here) went

/-- A chain that has been stored nothing of. -/
def ChainState.fresh (chainId : Nat) (chain : Chain) : ChainState where
  chainId := chainId
  chain := chain
  stored := []
  row := none
  final := []
  peak := chain.finalizedBlock

theorem ChainState.fresh_sound (chainId : Nat) (chain : Chain) :
    FloorSound time (fresh chainId chain) := by
  refine ⟨fun b mem => ?_, fun b mem => ?_, fun b mem => ?_, fun cp row => ?_, Nat.le_refl _⟩
  · cases mem
  · cases mem
  · cases mem
  · cases row

theorem sound_of_reach (finds : FindsSafeBlock lookup) (mono : ∀ c, Monotone (time c))
    {chains : List (Nat × Chain)}
    (reached : Machine.Reach (finalityStep pin lookup time) (FinalityAllowed pin time)
      (chains.map fun c => ChainState.fresh c.1 c.2) s) : ∀ cs ∈ s, FloorSound time cs := by
  refine reached.invariant (I := fun s => ∀ cs ∈ s, FloorSound time cs) (fun cs mem => ?_)
    fun s a t _ each may taken => finalityStep_sound finds mono may taken each
  obtain ⟨c, -, rfl⟩ := List.mem_map.1 mem
  exact ChainState.fresh_sound c.1 c.2

/-- Over any run of stores, finalizations, checkpoints of this or another chain, cutover rounds and
restarts, no final block lies above the boundary that realtime starts from. A restart comes back
between the final blocks and the node's finalized block, and goes beyond the Portal's head only as
far as a boundary there has been. -/
theorem finality_survives_restarts (finds : FindsSafeBlock lookup)
    (mono : ∀ c, Monotone (time c)) (chains : List (Nat × Chain))
    (reached : Machine.Reach (finalityStep pin lookup time) (FinalityAllowed pin time)
      (chains.map fun c => ChainState.fresh c.1 c.2) s) :
    (∀ cs ∈ s, ∀ b ∈ cs.final, b.number ≤ cs.boundary) ∧
      ∀ answers t, FinalityAllowed pin time s (.restart answers) →
        finalityStep pin lookup time s (.restart answers) = some t →
        List.Forall₂ (fun cs cs' =>
          (∀ b ∈ cs.final, b.number ≤ cs'.boundary) ∧
            cs'.boundary ≤ (answers cs.chainId).rpcFinalized ∧
            (cs.chain.portalRealtime = true → ∃ head,
              portalFinalizedHead pin (answers cs.chainId).portalProbes = some head ∧
                cs'.boundary ≤ max head cs.peak)) s t := by
  have each := sound_of_reach finds mono reached
  refine ⟨fun cs mem => (each cs mem).below, fun answers t may taken => ?_⟩
  have went := restart_each taken
  rw [List.forall₂_iff_get] at went ⊢
  refine ⟨went.1, fun i here there => ?_⟩
  exact (each _ (List.get_mem _ _)).between finds (may _ (List.get_mem _ _)) (went.2 i here there)

end

/-! ## A run -/

/-- The query, by the greatest number. -/
def safeBlock (stored : List StoredBlock) (timestamp : Nat) : Option StoredBlock :=
  List.argmax StoredBlock.number (stored.filter fun b => b.timestamp < timestamp)

theorem findsSafeBlock_safeBlock : FindsSafeBlock safeBlock where
  found := by
    intro stored timestamp b is
    obtain ⟨mem, earlier⟩ := List.mem_filter.1 (List.argmax_mem is)
    refine ⟨mem, of_decide_eq_true earlier, fun other stored earlier => ?_⟩
    exact List.le_of_mem_argmax (List.mem_filter.2 ⟨stored, decide_eq_true earlier⟩) is
  missing := by
    intro stored timestamp is b mem earlier
    have none := List.argmax_eq_none.1 is
    have kept : b ∈ stored.filter fun b => b.timestamp < timestamp :=
      List.mem_filter.2 ⟨mem, decide_eq_true earlier⟩
    rw [none] at kept
    cases kept

def freshChain : List ChainState := [ChainState.fresh 1 (Round.finalizedChain "a")]

/-- After the block 90 has become final by a checkpoint of chain 2. -/
def foreignCheckpoint : List ChainState :=
  [{ ChainState.fresh 1 (Round.finalizedChain "a") with
    stored := [⟨90, 90⟩]
    row := some ⟨95, 2, 40⟩
    final := [⟨90, 90⟩] }]

/-- A replica that lags. -/
def staleHead : Nat → Answer := fun _ => { rpcFinalized := 120, portalProbes := [none, some 60] }

theorem foreignCheckpoint_reached :
    Machine.Reach (finalityStep none safeBlock fun _ n => n) (FinalityAllowed none fun _ n => n)
      freshChain foreignCheckpoint := by
  have stored : finalityStep none safeBlock (fun _ n => n) freshChain (.store 0 90) =
      some [{ ChainState.fresh 1 (Round.finalizedChain "a") with stored := [⟨90, 90⟩] }] := rfl
  refine .step (.step .init (a := .store 0 90) trivial stored) (a := .persist 0 ⟨95, 2, 40⟩) ?_ rfl
  intro cs here
  obtain rfl := Option.some.inj (Option.mem_def.1 here)
  refine ⟨?_, fun old row => ?_⟩
  · unfold Covers
    rw [if_neg (by decide)]
    -- the boundary is 100
    show ∀ n, n < 95 → n ≤ 100
    intro n earlier
    omega
  · cases row

/-- The chain goes on from its block 90 although the replica names 60. -/
theorem finality_survives_restarts_stale :
    (∀ cs ∈ foreignCheckpoint, ∀ b ∈ cs.final, b.number ≤ cs.boundary) ∧
      ∃ t, finalityStep none safeBlock (fun _ n => n) foreignCheckpoint (.restart staleHead) =
          some t ∧ t.map ChainState.boundary = [90] ∧
        List.Forall₂ (fun cs cs' =>
          (∀ b ∈ cs.final, b.number ≤ cs'.boundary) ∧
            cs'.boundary ≤ (staleHead cs.chainId).rpcFinalized ∧
            (cs.chain.portalRealtime = true → ∃ head,
              portalFinalizedHead none (staleHead cs.chainId).portalProbes = some head ∧
                cs'.boundary ≤ max head cs.peak)) foreignCheckpoint t := by
  have holds := finality_survives_restarts findsSafeBlock_safeBlock (fun _ _ _ le => le)
    [(1, Round.finalizedChain "a")] foreignCheckpoint_reached
  refine ⟨holds.1, _, rfl, by decide, holds.2 staleHead _ ?_ rfl⟩
  show ∀ cs ∈ foreignCheckpoint, ∀ b ∈ cs.final, b.number ≤ (staleHead cs.chainId).rpcFinalized
  decide

/-- After a checkpoint of chain 2 with the same timestamp as the chain's own one before, the
query passes over the block of the own one. -/
theorem tied_checkpoint_lowers_floor :
    ∃ t, Machine.replay (finalityStep none safeBlock fun _ n => n) freshChain
        [.store 0 90, .store 0 95, .persist 0 ⟨95, 1, 95⟩, .persist 0 ⟨95, 2, 40⟩,
          .restart staleHead] = some t ∧
      ∃ cs ∈ t, ∃ b ∈ cs.final, cs.boundary < b.number :=
  ⟨_, rfl, _, List.mem_cons_self, ⟨95, 95⟩, by decide, by decide⟩

end PortalPonder.Cutover
