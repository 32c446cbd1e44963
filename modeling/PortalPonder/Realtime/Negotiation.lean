import PortalPonder.Lib.OrdMap
import PortalPonder.Lib.Rounds
import PortalPonder.Transform
import Mathlib.Data.List.Induction
import Mathlib.Tactic.Common

/-!
# Fork negotiation of the block stream

Every request of the block stream carries the hash the client last saw at `cursor - 1`, read
from the ring of delivered hashes. A server that considers it orphaned answers 409 with a sample
of its canonical blocks; the client rewinds to the highest entry its ring confirms, or steps
down by one. This file models the loop top (`resumeParent`), the 409 branch (`negotiate409`) and
the ring, and settles when the negotiation stops.
-/

namespace PortalPonder.Realtime

/-- A `{number, hash}` pair as seen on the wire. -/
structure NumberedHash where
  number : Int
  hash : Hash
  deriving DecidableEq, Repr

/-- The delivered-hash ring: height to last delivered hash. -/
abbrev Ring := OrdMap Int Hash

/-- Max delivered-hash ring entries kept. -/
def RING_CAP : Nat := 8192

/-- Max consecutive 409 rounds without cursor progress. -/
def MAX_CONSECUTIVE_409 : Nat := 10

/-- The variables of the stream that the negotiation reads and writes. -/
structure Shell where
  cursor : Int
  ring : Ring
  consecutive409 : Nat
  /-- a seed was wired, so every request must carry a parent hash -/
  armed : Bool

inductive HotError where
  /-- no ring entry for the resume parent -/
  | noResumeParent (parent cursor floor : Int)
  /-- the fork point is at or below the finalized floor -/
  | forkBelowFloor (floor cursor : Int)
  /-- too many 409 rounds without cursor progress -/
  | noProgress (rounds : Nat) (cursor floor : Int)
  deriving DecidableEq, Repr

/-- Drop the heights below the finalized floor, then the lowest ones above the cap. -/
def pruneRing (lo : Int) (ring : Ring) : Ring :=
  let kept := ring.filter fun n _ => ¬ n < lo
  if kept.size > RING_CAP then
    let heights := kept.keys.mergeSort (· ≤ ·)
    (heights.take (heights.length - RING_CAP)).foldl OrdMap.delete kept
  else kept

/-- What a delivered block does to the shell; the 200 that carried it cleared the count. -/
def recordDelivery (lo : Int) (s : Shell) (num : Int) (hash : Hash) : Shell :=
  { s with cursor := num + 1, ring := pruneRing lo (s.ring.set num hash), consecutive409 := 0 }

/-- Without size eviction, pruning only forgets what is below the floor. -/
theorem get?_pruneRing {lo n : Int} {ring : Ring}
    (fits : (ring.filter fun n _ => ¬ n < lo).size ≤ RING_CAP) (above : lo ≤ n) :
    (pruneRing lo ring).get? n = ring.get? n := by
  unfold pruneRing
  simp only
  rw [if_neg (Nat.not_lt.2 fits), OrdMap.get?_filter]
  cases ring.get? n <;> simp [Option.filter, above]

/-- What pruning leaves was there before, at or above the floor. -/
theorem get?_of_pruneRing {lo n : Int} {ring : Ring} {h : Hash}
    (left : (pruneRing lo ring).get? n = some h) : lo ≤ n ∧ ring.get? n = some h := by
  have kept : (ring.filter fun n _ => ¬ n < lo).get? n = some h := by
    unfold pruneRing at left
    simp only at left
    split at left
    · rw [OrdMap.get?_foldl_delete] at left
      split at left
      · cases left
      · exact left
    · exact left
  rw [OrdMap.get?_filter, Option.filter_eq_some_iff] at kept
  exact ⟨by simpa using kept.2, kept.1⟩

/-- Size eviction takes the lowest heights, so the two highest are safe from it. -/
theorem get?_pruneRing_top {lo n : Int} {ring : Ring} (above : lo ≤ n)
    (top : ∀ k h, ring.get? k = some h → k ≤ n + 1) :
    (pruneRing lo ring).get? n = ring.get? n := by
  have low : (ring.filter fun n _ => ¬ n < lo).get? n = ring.get? n := by
    rw [OrdMap.get?_filter]
    cases ring.get? n <;> simp [Option.filter, above]
  unfold pruneRing
  simp only
  generalize kept : ring.filter (fun n _ => ¬ n < lo) = m at low
  split
  · rename_i large
    rw [OrdMap.get?_foldl_delete, if_neg, low]
    intro evicted
    generalize sorted : m.keys.mergeSort (· ≤ ·) = heights at evicted
    have perm : heights.Perm m.keys := by
      rw [← sorted]
      exact List.mergeSort_perm _ _
    have order : heights.Pairwise (· ≤ ·) := by
      rw [← sorted]
      refine (List.pairwise_mergeSort ?_ ?_ m.keys).imp fun le => of_decide_eq_true le
      · intro a b c ab bc
        exact decide_eq_true (Int.le_trans (of_decide_eq_true ab) (of_decide_eq_true bc))
      · intro a b
        simpa using Int.le_total a b
    have distinct : heights.Nodup := perm.nodup_iff.2 m.nodup
    -- an evicted height is below the whole rest, which holds the cap
    have split := List.take_append_drop (heights.length - RING_CAP) heights
    have rest : (heights.drop (heights.length - RING_CAP)).length = RING_CAP := by
      have size : heights.length = m.size := perm.length_eq.trans (List.length_map _)
      rw [List.length_drop]
      omega
    have same : ∀ k ∈ heights.drop (heights.length - RING_CAP), k = n + 1 := by
      intro k mem
      have le : n ≤ k := by
        rw [← split] at order
        exact (List.pairwise_append.1 order).2.2 n evicted k mem
      have ne : n ≠ k := by
        rw [← split] at distinct
        exact (List.nodup_append.1 distinct).2.2 n evicted k mem
      have known : (m.get? k).isSome :=
        (m.mem_keys_iff k).1 (perm.mem_iff.1 (List.drop_subset _ _ mem))
      obtain ⟨h, found⟩ := Option.isSome_iff_exists.1 known
      rw [← kept, OrdMap.get?_filter, Option.filter_eq_some_iff] at found
      have bound := top k h found.1
      omega
    have one : (heights.drop (heights.length - RING_CAP)).length ≤ 1 := by
      have dropped : (heights.drop (heights.length - RING_CAP)).Nodup :=
        distinct.sublist (List.drop_sublist _ _)
      rw [List.eq_replicate_of_mem same] at dropped
      exact List.nodup_replicate.1 dropped
    rw [rest] at one
    exact absurd one (by decide)
  · exact low

/-- The parent hash of the next request. -/
def resumeParent (lo : Int) (s : Shell) : Except HotError (Option Hash) :=
  let parentBlockHash := s.ring.get? (s.cursor - 1)
  if s.armed = true ∧ parentBlockHash = none then
    .error (.noResumeParent (s.cursor - 1) s.cursor lo)
  else .ok parentBlockHash

/-- The highest sample entry that the ring confirms at or above the floor. -/
def rewindTo (ring : Ring) (lo : Int) (previousBlocks : List NumberedHash) : Option Int :=
  previousBlocks.foldl
    (fun best pb =>
      if pb.number < lo then best
      else if ring.get? pb.number ≠ some pb.hash then best
      else
        match best with
        | none => some pb.number
        | some n => if pb.number > n then some pb.number else some n)
    none

/-- The 409 branch. `previousBlocks` is `none` when the body could not be read. -/
def negotiate409 (lo : Int) (s : Shell) (previousBlocks : Option (List NumberedHash)) :
    Except HotError Shell :=
  let sample := previousBlocks.getD []
  let moved : Except HotError Int :=
    match rewindTo s.ring lo sample with
    | some n => .ok (n + 1)
    | none =>
        let belowFloor := sample.any fun pb => pb.number < lo
        if belowFloor = true ∨ s.cursor - 1 ≤ lo then .error (.forkBelowFloor lo s.cursor)
        else .ok (s.cursor - 1)
  match moved with
  | .error e => .error e
  | .ok cursor =>
      if cursor < s.cursor then .ok { s with cursor := cursor, consecutive409 := 0 }
      else if s.consecutive409 + 1 > MAX_CONSECUTIVE_409 then
        .error (.noProgress (s.consecutive409 + 1) cursor lo)
      else .ok { s with cursor := cursor, consecutive409 := s.consecutive409 + 1 }

/-- One round of the loop that is answered with a 409. -/
def round409 (lo : Int) (previousBlocks : Option (List NumberedHash)) (s : Shell) :
    Except HotError Shell :=
  match resumeParent lo s with
  | .error e => .error e
  | .ok _ => negotiate409 lo s previousBlocks

/-! ## What a round does -/

/-- An entry that counts for the rewind: at or above the floor, and confirmed by the ring. -/
def Confirms (ring : Ring) (lo : Int) (pb : NumberedHash) : Prop :=
  lo ≤ pb.number ∧ ring.get? pb.number = some pb.hash

instance (ring : Ring) (lo : Int) (pb : NumberedHash) : Decidable (Confirms ring lo pb) :=
  inferInstanceAs (Decidable (_ ∧ _))

theorem rewindTo_append (ring : Ring) (lo : Int) (sample : List NumberedHash)
    (pb : NumberedHash) :
    rewindTo ring lo (sample ++ [pb]) =
      if Confirms ring lo pb then
        some (max ((rewindTo ring lo sample).getD pb.number) pb.number)
      else rewindTo ring lo sample := by
  rw [rewindTo, List.foldl_append, ← rewindTo, List.foldl_cons, List.foldl_nil]
  by_cases below : pb.number < lo
  · have no : ¬ Confirms ring lo pb := fun yes => Int.not_lt.2 yes.1 below
    rw [if_pos below, if_neg no]
  rw [if_neg below]
  by_cases miss : ring.get? pb.number ≠ some pb.hash
  · have no : ¬ Confirms ring lo pb := fun yes => miss yes.2
    rw [if_pos miss, if_neg no]
  rw [if_neg miss, if_pos ⟨Int.not_lt.1 below, not_not.1 miss⟩]
  cases rewindTo ring lo sample with
  | none => simp
  | some n =>
      simp only [Option.getD_some]
      by_cases higher : pb.number > n
      · rw [if_pos higher]
        congr 1
        omega
      · rw [if_neg higher]
        congr 1
        omega

theorem rewindTo_none {ring : Ring} {lo : Int} {sample : List NumberedHash} :
    rewindTo ring lo sample = none ↔ ∀ pb ∈ sample, ¬ Confirms ring lo pb := by
  induction sample using List.reverseRecOn with
  | nil => simp [rewindTo]
  | append_singleton rest pb ih =>
      rw [rewindTo_append]
      by_cases yes : Confirms ring lo pb
      · rw [if_pos yes]
        constructor
        · intro none
          cases none
        · intro all
          exact absurd yes (all pb (by simp))
      · rw [if_neg yes, ih]
        constructor
        · intro all q mem
          rcases List.mem_append.1 mem with old | new
          · exact all q old
          · rw [List.mem_singleton.1 new]
            exact yes
        · exact fun all q mem => all q (List.mem_append_left _ mem)

/-- The rewind goes to a confirmed entry, the highest one. -/
theorem rewindTo_some {ring : Ring} {lo n : Int} {sample : List NumberedHash}
    (found : rewindTo ring lo sample = some n) :
    (∃ pb ∈ sample, pb.number = n ∧ Confirms ring lo pb) ∧
      ∀ pb ∈ sample, Confirms ring lo pb → pb.number ≤ n := by
  induction sample using List.reverseRecOn generalizing n with
  | nil => cases found
  | append_singleton rest pb ih =>
      rw [rewindTo_append] at found
      by_cases yes : Confirms ring lo pb
      · rw [if_pos yes, Option.some.injEq] at found
        cases earlier : rewindTo ring lo rest with
        | none =>
            rw [earlier] at found
            simp only [Option.getD_none, Int.max_self] at found
            subst found
            refine ⟨⟨pb, by simp, rfl, yes⟩, ?_⟩
            intro q mem conf
            rcases List.mem_append.1 mem with old | new
            · -- nothing of the rest was confirmed
              have none' := rewindTo_none.1 earlier q old
              exact absurd conf none'
            · obtain rfl := List.mem_singleton.1 new
              exact Int.le_refl _
        | some k =>
            rw [earlier] at found
            simp only [Option.getD_some] at found
            obtain ⟨⟨q, qMem, qNumber, qConf⟩, highest⟩ := ih earlier
            constructor
            · by_cases higher : k ≤ pb.number
              · exact ⟨pb, by simp, by omega, yes⟩
              · exact ⟨q, List.mem_append_left _ qMem, by omega, qConf⟩
            · intro r mem conf
              rcases List.mem_append.1 mem with old | new
              · have le := highest r old conf
                omega
              · rw [List.mem_singleton.1 new]
                omega
      · rw [if_neg yes] at found
        obtain ⟨⟨q, qMem, qFacts⟩, highest⟩ := ih found
        refine ⟨⟨q, List.mem_append_left _ qMem, qFacts⟩, ?_⟩
        intro r mem conf
        rcases List.mem_append.1 mem with old | new
        · exact highest r old conf
        · rw [List.mem_singleton.1 new] at conf
          exact absurd conf yes

/-- Where a 409 moves the cursor: above the highest confirmed entry, or one down. -/
inductive Moves (lo : Int) (sample : List NumberedHash) (s : Shell) (cursor : Int) : Prop
  | rewind {n : Int} : rewindTo s.ring lo sample = some n → cursor = n + 1 →
      Moves lo sample s cursor
  | stepDown : rewindTo s.ring lo sample = none → (∀ pb ∈ sample, lo ≤ pb.number) →
      lo < s.cursor - 1 → cursor = s.cursor - 1 → Moves lo sample s cursor

theorem negotiate409_ok {lo : Int} {s t : Shell} {prev : Option (List NumberedHash)}
    (ok : negotiate409 lo s prev = .ok t) :
    Moves lo (prev.getD []) s t.cursor ∧ t.ring = s.ring ∧ t.armed = s.armed ∧
      (t.cursor < s.cursor ∨
        s.cursor ≤ t.cursor ∧ t.consecutive409 = s.consecutive409 + 1 ∧
          t.consecutive409 ≤ MAX_CONSECUTIVE_409) := by
  have settle : ∀ cursor, Moves lo (prev.getD []) s cursor →
      (if cursor < s.cursor then
          (.ok { s with cursor := cursor, consecutive409 := 0 } : Except HotError Shell)
        else if s.consecutive409 + 1 > MAX_CONSECUTIVE_409 then
          .error (.noProgress (s.consecutive409 + 1) cursor lo)
        else .ok { s with cursor := cursor, consecutive409 := s.consecutive409 + 1 }) = .ok t →
      Moves lo (prev.getD []) s t.cursor ∧ t.ring = s.ring ∧ t.armed = s.armed ∧
        (t.cursor < s.cursor ∨
          s.cursor ≤ t.cursor ∧ t.consecutive409 = s.consecutive409 + 1 ∧
            t.consecutive409 ≤ MAX_CONSECUTIVE_409) := by
    intro cursor moves after
    by_cases progress : cursor < s.cursor
    · rw [if_pos progress] at after
      rw [← Except.ok.inj after]
      exact ⟨moves, rfl, rfl, .inl progress⟩
    · rw [if_neg progress] at after
      by_cases stuck : s.consecutive409 + 1 > MAX_CONSECUTIVE_409
      · rw [if_pos stuck] at after
        cases after
      · rw [if_neg stuck] at after
        rw [← Except.ok.inj after]
        exact ⟨moves, rfl, rfl, .inr ⟨Int.not_lt.1 progress, rfl, Nat.not_lt.1 stuck⟩⟩
  unfold negotiate409 at ok
  cases found : rewindTo s.ring lo (prev.getD []) with
  | some n =>
      simp only [found] at ok
      exact settle (n + 1) (.rewind found rfl) ok
  | none =>
      simp only [found] at ok
      by_cases fatal : (prev.getD []).any (fun pb => pb.number < lo) = true ∨ s.cursor - 1 ≤ lo
      · rw [if_pos fatal] at ok
        cases ok
      · rw [if_neg fatal] at ok
        obtain ⟨noneBelow, above⟩ := not_or.1 fatal
        refine settle (s.cursor - 1) (.stepDown found ?_ (Int.not_le.1 above) rfl) ok
        intro pb mem
        have notBelow : ¬ pb.number < lo := fun below =>
          noneBelow (List.any_eq_true.2 ⟨pb, mem, decide_eq_true below⟩)
        exact Int.not_lt.1 notBelow

/-- A move that lowers the cursor is made, and clears the no-progress count. -/
theorem negotiate409_of_moves {lo cursor : Int} {s : Shell} {sample : List NumberedHash}
    (moves : Moves lo sample s cursor) (lower : cursor < s.cursor) :
    negotiate409 lo s (some sample) =
      .ok { s with cursor := cursor, consecutive409 := 0 } := by
  unfold negotiate409
  cases moves with
  | rewind found eq =>
      subst eq
      simp only [Option.getD_some, found, if_pos lower]
  | stepDown found above floor eq =>
      subst eq
      have noneBelow : ¬ (sample.any fun pb => pb.number < lo) = true := by
        intro some
        obtain ⟨pb, mem, below⟩ := List.any_eq_true.1 some
        exact Int.not_lt.2 (above pb mem) (of_decide_eq_true below)
      have pass : ¬ ((sample.any fun pb => pb.number < lo) = true ∨ s.cursor - 1 ≤ lo) :=
        not_or.2 ⟨noneBelow, Int.not_le.2 floor⟩
      simp only [Option.getD_some, found, if_neg pass, if_pos lower]

/-- The cursor stays above the floor after any 409. -/
theorem Moves.above_floor {lo cursor : Int} {sample : List NumberedHash} {s : Shell}
    (moves : Moves lo sample s cursor) : lo < cursor := by
  cases moves with
  | rewind found eq =>
      obtain ⟨⟨pb, -, number, floor, -⟩, -⟩ := rewindTo_some found
      omega
  | stepDown _ _ above eq => omega

/-- A sample raises the cursor when its highest confirmed entry is at or above it. -/
def Raises (lo : Int) (s : Shell) (prev : Option (List NumberedHash)) : Prop :=
  ∃ pb ∈ prev.getD [], Confirms s.ring lo pb ∧ s.cursor ≤ pb.number

theorem Moves.le_of_not_raises {lo cursor : Int} {s : Shell}
    {prev : Option (List NumberedHash)} (moves : Moves lo (prev.getD []) s cursor)
    (calm : ¬ Raises lo s prev) : cursor ≤ s.cursor := by
  cases moves with
  | rewind found eq =>
      obtain ⟨⟨pb, mem, number, conf⟩, -⟩ := rewindTo_some found
      have below : ¬ s.cursor ≤ pb.number := fun above => calm ⟨pb, mem, conf, above⟩
      omega
  | stepDown _ _ _ eq => omega

theorem round409_ok {lo : Int} {s t : Shell} {prev : Option (List NumberedHash)}
    (ok : round409 lo prev s = .ok t) : negotiate409 lo s prev = .ok t := by
  unfold round409 at ok
  cases parent : resumeParent lo s with
  | error e =>
      rw [parent] at ok
      cases ok
  | ok _ =>
      rw [parent] at ok
      exact ok

/-! ## Termination

The cursor falls strictly, or the no-progress count rises; only a sample that raises the cursor
escapes both. The rank counts the heights above the floor first and the rounds left under the
cap second. -/

def negotiationRank (lo : Int) (s : Shell) : Nat :=
  (s.cursor - lo).toNat * (MAX_CONSECUTIVE_409 + 1) + (MAX_CONSECUTIVE_409 - s.consecutive409)

theorem negotiationRank_lowers {lo : Int} {s t : Shell} {prev : Option (List NumberedHash)}
    (calm : ¬ Raises lo s prev) (ok : round409 lo prev s = .ok t) :
    negotiationRank lo t < negotiationRank lo s := by
  obtain ⟨moves, -, -, progress⟩ := negotiate409_ok (round409_ok ok)
  have floor := moves.above_floor
  have notRaised := moves.le_of_not_raises calm
  unfold negotiationRank MAX_CONSECUTIVE_409 at *
  rcases progress with lower | ⟨same, count, cap⟩
  · have fewer : (t.cursor - lo).toNat + 1 ≤ (s.cursor - lo).toNat := by omega
    omega
  · have level : t.cursor = s.cursor := Int.le_antisymm notRaised same
    rw [level]
    omega

/-- A negotiation of 409s only ends in a throw exactly when finitely many of its samples raise
the cursor. -/
theorem negotiation_throws_iff (lo : Int) (s : Shell)
    (samples : Nat → Option (List NumberedHash)) :
    (∃ n e, Rounds.rounds (round409 lo) samples n s = .error e) ↔
      ∃ N, ∀ n, N ≤ n → ∀ t, Rounds.rounds (round409 lo) samples n s = .ok t →
        ¬ Raises lo t (samples n) := by
  constructor
  · rintro ⟨N, e, failed⟩
    refine ⟨N, ?_⟩
    intro n le t reached
    rw [Rounds.rounds_error_mono failed le] at reached
    cases reached
  · rintro ⟨N, calm⟩
    exact Rounds.fails_of_rank (negotiationRank lo) N
      fun n t u le reached next => negotiationRank_lowers (calm n le t reached) next

/-! An alternation that never throws: an empty sample steps down from 103 to 102, then the hash
remembered at 102 raises the cursor back to 103. -/

def alternatingShell (consecutive409 : Nat) : Shell where
  cursor := 103
  ring := ((OrdMap.empty.set 100 "0x100").set 101 "0x101").set 102 "0x102"
  consecutive409 := consecutive409
  armed := true

def alternatingSamples (n : Nat) : Option (List NumberedHash) :=
  if n % 2 = 0 then some [] else some [⟨102, "0x102"⟩]

theorem alternating_rounds (k : Nat) :
    Rounds.rounds (round409 100) alternatingSamples (2 * k + 2) (alternatingShell 0) =
      .ok (alternatingShell 1) := by
  have down : ∀ c, round409 100 (some []) (alternatingShell c) =
      .ok { alternatingShell 0 with cursor := 102 } := fun _ => rfl
  have up : round409 100 (some [⟨102, "0x102"⟩]) { alternatingShell 0 with cursor := 102 } =
      .ok (alternatingShell 1) := rfl
  have pair : ∀ n c, n % 2 = 0 →
      Rounds.rounds (round409 100) alternatingSamples n (alternatingShell 0) =
        .ok (alternatingShell c) →
      Rounds.rounds (round409 100) alternatingSamples (n + 2) (alternatingShell 0) =
        .ok (alternatingShell 1) := by
    intro n c even reached
    have first : alternatingSamples n = some [] := if_pos even
    have odd : ¬ (n + 1) % 2 = 0 := by omega
    have second : alternatingSamples (n + 1) = some [⟨102, "0x102"⟩] := if_neg odd
    have half := Rounds.rounds_succ_ok reached
    rw [first, down] at half
    have whole := Rounds.rounds_succ_ok half
    rw [second, up] at whole
    exact whole
  induction k with
  | zero => exact pair 0 0 rfl rfl
  | succ k ih => exact pair (2 * k + 2) 1 (by omega) ih

/-- The negotiation need not end: the claim that it always throws fails. -/
theorem negotiation_runs_forever :
    ¬ ∀ lo s samples, ∃ n e, Rounds.rounds (round409 lo) samples n s = .error e := by
  intro ends
  obtain ⟨n, e, failed⟩ := ends 100 (alternatingShell 0) alternatingSamples
  have still := Rounds.rounds_error_mono failed (show n ≤ 2 * n + 2 by omega)
  rw [alternating_rounds n] at still
  cases still

end PortalPonder.Realtime
