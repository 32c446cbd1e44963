import PortalPonder.Realtime.Negotiation
import PortalPonder.Realtime.EventLog

/-!
# The negotiation finds the fork point

An honest server answers 409 exactly when the hash the client sends is not canonical, with any
sample of canonical blocks below the cursor. Against it, a client whose ring holds the hashes of
its window and anchor descends to a block that both chains share, and the block served next
attaches there. The one case left out is a sample that reaches below the floor and names nothing
the ring confirms: the client takes it for a fork below finality and stops.
-/

namespace PortalPonder.Realtime

/-- `c` is the block right after `p`. -/
def NextTo (p c : Light) : Prop := c.parentHash = p.hash ∧ c.number = p.number + 1

instance (p c : Light) : Decidable (NextTo p c) := inferInstanceAs (Decidable (_ ∧ _))

/-- The local chain: every block of the window is the next after the one before. -/
def Contiguous (anchor : Light) (window : List Light) : Prop :=
  List.IsChain NextTo (anchor :: window)

/-- A fixed canonical chain by height, parent-linked above `base`. -/
structure CanonicalChain (canon : Int → Option Light) (base : Int) : Prop where
  number : ∀ h b, canon h = some b → b.number = h
  parent : ∀ h b, base < h → canon h = some b →
    ∃ p, canon (h - 1) = some p ∧ b.parentHash = p.hash

/-- The block is the canonical one at its height. -/
def OnChain (canon : Int → Option Light) (b : Light) : Prop := canon b.number = some b

/-- The client's side of a negotiation: a contiguous local chain, and a ring that holds its
hashes from the floor to just below the cursor. -/
structure Aligned (lo : Int) (anchor : Light) (window : List Light) (s : Shell) : Prop where
  contiguous : Contiguous anchor window
  floor : anchor.number ≤ lo
  above : lo < s.cursor
  ring : ∀ h, lo ≤ h → h < s.cursor →
    ∃ b ∈ anchor :: window, b.number = h ∧ s.ring.get? h = some b.hash

/-- The server rejects the parent hash it was sent. -/
def Conflicts (canon : Int → Option Light) (s : Shell) : Prop :=
  (canon (s.cursor - 1)).map Light.hash ≠ s.ring.get? (s.cursor - 1)

instance (canon : Int → Option Light) (s : Shell) : Decidable (Conflicts canon s) :=
  inferInstanceAs (Decidable (_ ≠ _))

/-- A sample of canonical blocks at or below `cursor - 1`. -/
def HonestSample (canon : Int → Option Light) (s : Shell) (sample : List NumberedHash) : Prop :=
  ∀ pb ∈ sample, pb.number ≤ s.cursor - 1 ∧ (canon pb.number).map Light.hash = some pb.hash

/-- A sample that reaches below the floor also names a block the ring confirms. -/
def ReachesFloor (lo : Int) (s : Shell) (sample : List NumberedHash) : Prop :=
  (∃ pb ∈ sample, pb.number < lo) → ∃ pb ∈ sample, Confirms s.ring lo pb

/-- One round against the server: a 409 with the given sample, or an open connection. -/
def serverRound (canon : Int → Option Light) (lo : Int) (sample : List NumberedHash) (s : Shell) :
    Except HotError Shell :=
  if Conflicts canon s then round409 lo (some sample) s
  else
    match resumeParent lo s with
    | .error e => .error e
    | .ok _ => .ok s

/-! ## The local chain against the canonical one -/

section Chains

variable {canon : Int → Option Light} {anchor : Light} {window : List Light}

theorem contiguous_number_le {b : Light} (contiguous : Contiguous anchor window)
    (mem : b ∈ anchor :: window) : anchor.number ≤ b.number := by
  induction window generalizing anchor with
  | nil =>
      obtain rfl := List.mem_singleton.1 mem
      exact Int.le_refl _
  | cons c rest ih =>
      obtain ⟨next, tail⟩ := List.isChain_cons_cons.1 contiguous
      have step := next.2
      rcases List.mem_cons.1 mem with here | there
      · subst here
        exact Int.le_refl _
      · have low := ih tail there
        omega

theorem contiguous_le_last {pre : List Light} {last b : Light}
    (chain : List.IsChain NextTo (pre ++ [last])) (mem : b ∈ pre ++ [last]) :
    b.number ≤ last.number := by
  induction pre generalizing b with
  | nil =>
      obtain rfl := List.mem_singleton.1 mem
      exact Int.le_refl _
  | cons first rest ih =>
      have tail := List.IsChain.tail chain
      rcases List.mem_cons.1 mem with here | there
      · obtain ⟨next, link, nextMem⟩ : ∃ next, NextTo first next ∧ next ∈ rest ++ [last] := by
          cases rest with
          | nil => exact ⟨last, (List.isChain_cons_cons.1 chain).1, by simp⟩
          | cons second others =>
              exact ⟨second, (List.isChain_cons_cons.1 chain).1, by simp⟩
        have high := ih tail nextMem
        have step := link.2
        rw [here]
        omega
      · exact ih tail there

/-- Heights name the blocks of the local chain. -/
theorem contiguous_unique {a b : Light} (contiguous : Contiguous anchor window)
    (memA : a ∈ anchor :: window) (memB : b ∈ anchor :: window) (same : a.number = b.number) :
    a = b := by
  induction window generalizing anchor with
  | nil => rw [List.mem_singleton.1 memA, List.mem_singleton.1 memB]
  | cons c rest ih =>
      obtain ⟨next, tail⟩ := List.isChain_cons_cons.1 contiguous
      have step := next.2
      rcases List.mem_cons.1 memA with atA | inA
      · rcases List.mem_cons.1 memB with atB | inB
        · rw [atA, atB]
        · have low := contiguous_number_le tail inB
          rw [atA] at same
          omega
      · rcases List.mem_cons.1 memB with atB | inB
        · have low := contiguous_number_le tail inA
          rw [atB] at same
          omega
        · exact ih tail inA inB

/-- Below a shared block, the local chain is canonical. -/
theorem onChain_below (chain : CanonicalChain canon anchor.number)
    (determined : ∀ b ∈ anchor :: window, ∀ h c, canon h = some c → b.hash = c.hash → b = c)
    (contiguous : Contiguous anchor window) {top b : Light} (topMem : top ∈ anchor :: window)
    (shared : OnChain canon top) (mem : b ∈ anchor :: window) (low : b.number ≤ top.number) :
    OnChain canon b := by
  -- walk down from `top`, one height at a time
  have walk : ∀ k : Nat, ∀ a ∈ anchor :: window, a.number + k = top.number → OnChain canon a := by
    intro k
    induction k with
    | zero =>
        intro a aMem level
        have same : a.number = top.number := by omega
        rw [contiguous_unique contiguous aMem topMem same]
        exact shared
    | succ k ih =>
        intro a aMem level
        -- `a` is not the tip, so the chain has a block right after it
        obtain ⟨pre, suf, splits⟩ := List.append_of_mem aMem
        cases suf with
        | nil =>
            have all := contiguous
            rw [Contiguous, splits] at all
            have topLow : top.number ≤ a.number := by
              have topIn := topMem
              rw [splits] at topIn
              exact contiguous_le_last all topIn
            omega
        | cons next rest =>
            have all := contiguous
            rw [Contiguous, splits, List.isChain_append] at all
            obtain ⟨link, height⟩ := (List.isChain_cons_cons.1 all.2.1).1
            have nextMem : next ∈ anchor :: window := by rw [splits]; simp
            have nextOn := ih next nextMem (by omega)
            have aLow := contiguous_number_le contiguous aMem
            obtain ⟨p, atA, parent⟩ := chain.parent next.number next (by omega) nextOn
            have isA : a = p := determined a aMem _ p atA (link.symm.trans parent)
            have level' : next.number - 1 = a.number := by omega
            rw [level'] at atA
            rw [OnChain, atA, isA]
  obtain ⟨k, level⟩ : ∃ k : Nat, b.number + k = top.number :=
    ⟨(top.number - b.number).toNat, by omega⟩
  exact walk k b mem level

end Chains

theorem linked_of_contiguous {anchor : Light} {window : List Light}
    (contiguous : Contiguous anchor window) : Linked anchor window := by
  refine List.IsChain.imp ?_ contiguous
  intro p c next
  have height := next.2
  exact ⟨next.1, by omega⟩

/-! ## One round -/

section Round

variable {canon : Int → Option Light} {anchor : Light} {window : List Light} {lo : Int}
  {s : Shell} {sample : List NumberedHash}

/-- The client never misses its resume parent. -/
theorem Aligned.resumeParent (aligned : Aligned lo anchor window s) :
    ∃ b ∈ anchor :: window, b.number = s.cursor - 1 ∧
      s.ring.get? (s.cursor - 1) = some b.hash ∧ resumeParent lo s = .ok (some b.hash) := by
  have above := aligned.above
  obtain ⟨b, mem, number, held⟩ := aligned.ring (s.cursor - 1) (by omega) (by omega)
  refine ⟨b, mem, number, held, ?_⟩
  simp [Realtime.resumeParent, held]

/-- A lower cursor above the floor stays aligned. -/
theorem Aligned.lower {cursor : Int} {count : Nat} (aligned : Aligned lo anchor window s)
    (above : lo < cursor) (lower : cursor < s.cursor) :
    Aligned lo anchor window { s with cursor := cursor, consecutive409 := count } where
  contiguous := aligned.contiguous
  floor := aligned.floor
  above := above
  ring := fun h low high => aligned.ring h low (Int.lt_trans high lower)

/-- Without a conflict, the block below the cursor is a common ancestor. -/
theorem common_of_open (aligned : Aligned lo anchor window s)
    (determined : ∀ b ∈ anchor :: window, ∀ h c, canon h = some c → b.hash = c.hash → b = c)
    (agrees : ¬ Conflicts canon s) :
    ∃ p ∈ anchor :: window, p.number = s.cursor - 1 ∧ lo ≤ p.number ∧ OnChain canon p := by
  obtain ⟨p, mem, number, held, -⟩ := aligned.resumeParent
  have same : (canon (s.cursor - 1)).map Light.hash = some p.hash :=
    (not_not.1 agrees).trans held
  obtain ⟨c, atHeight, hash⟩ := Option.map_eq_some_iff.1 same
  have isC : p = c := determined p mem _ c atHeight hash.symm
  have above := aligned.above
  refine ⟨p, mem, number, by omega, ?_⟩
  rw [OnChain, number, atHeight, isC]

/-- A 409 of the honest server lowers the cursor. -/
theorem conflict_lowers (aligned : Aligned lo anchor window s)
    (chain : CanonicalChain canon anchor.number)
    (determined : ∀ b ∈ anchor :: window, ∀ h c, canon h = some c → b.hash = c.hash → b = c)
    (shared : ∃ b ∈ anchor :: window, lo ≤ b.number ∧ OnChain canon b)
    (conflict : Conflicts canon s) (honest : HonestSample canon s sample)
    (reaches : ReachesFloor lo s sample) :
    ∃ cursor, lo < cursor ∧ cursor < s.cursor ∧
      round409 lo (some sample) s = .ok { s with cursor := cursor, consecutive409 := 0 } := by
  obtain ⟨b, bMem, bNumber, held, parent⟩ := aligned.resumeParent
  obtain ⟨cursor, moves, lower⟩ : ∃ cursor, Moves lo sample s cursor ∧ cursor < s.cursor := by
    cases found : rewindTo s.ring lo sample with
    | some n =>
        obtain ⟨⟨pb, mem, number, conf⟩, -⟩ := rewindTo_some found
        obtain ⟨below, isCanonical⟩ := honest pb mem
        refine ⟨n + 1, .rewind found rfl, ?_⟩
        -- at `cursor - 1` the ring's hash is the rejected one
        have apart : pb.number ≠ s.cursor - 1 := by
          intro atParent
          rw [atParent] at isCanonical
          have ringHash := conf.2
          rw [atParent] at ringHash
          exact conflict (isCanonical.trans ringHash.symm)
        omega
    | none =>
        have unconfirmed := rewindTo_none.1 found
        have noneBelow : ∀ pb ∈ sample, lo ≤ pb.number := by
          intro pb mem
          by_contra below
          obtain ⟨q, qMem, conf⟩ := reaches ⟨pb, mem, Int.not_le.1 below⟩
          exact unconfirmed q qMem conf
        refine ⟨s.cursor - 1, .stepDown found noneBelow ?_ rfl, by omega⟩
        -- at the floor the two chains agree, so there would be no conflict
        by_contra atFloor
        have above := aligned.above
        obtain ⟨top, topMem, topFloor, topOn⟩ := shared
        have bOn := onChain_below chain determined aligned.contiguous topMem topOn bMem
          (by omega)
        rw [OnChain, bNumber] at bOn
        exact conflict (by rw [bOn, held]; rfl)
  refine ⟨cursor, moves.above_floor, lower, ?_⟩
  rw [round409, parent]
  exact negotiate409_of_moves moves lower

end Round

/-! ## The negotiation -/

/-- What a negotiation owes: it never throws, it re-opens just above a common ancestor at or
above the floor, and the next block served attaches to the window or the anchor. -/
structure FindsForkPoint (canon : Int → Option Light) (lo : Int) (anchor : Light)
    (window : List Light) (samples : Nat → List NumberedHash) (s : Shell) : Prop where
  total : ∀ n, ∃ t, Rounds.rounds (serverRound canon lo) samples n s = .ok t
  reopens : ∃ n t, Rounds.rounds (serverRound canon lo) samples n s = .ok t ∧
    ¬ Conflicts canon t ∧
    (∃ p ∈ anchor :: window, p.number = t.cursor - 1 ∧ lo ≤ p.number ∧ OnChain canon p) ∧
    ∀ b, canon t.cursor = some b → reconcile window b anchor ≠ .gap ∧
      (Conflicts canon s → reconcile window b anchor = .append ∨
        ∃ ancestor reorged, reconcile window b anchor = .reorg ancestor reorged)

/-- The server's answers along the rounds are honest. -/
def HonestRun (canon : Int → Option Light) (lo : Int) (samples : Nat → List NumberedHash)
    (s : Shell) : Prop :=
  ∀ n t, Rounds.rounds (serverRound canon lo) samples n s = .ok t → Conflicts canon t →
    HonestSample canon t (samples n)

theorem negotiation_finds_fork_point {canon : Int → Option Light} {lo : Int} {anchor : Light}
    {window : List Light} {samples : Nat → List NumberedHash} {s : Shell}
    (aligned : Aligned lo anchor window s) (chain : CanonicalChain canon anchor.number)
    (determined : ∀ b ∈ anchor :: window, ∀ h c, canon h = some c → b.hash = c.hash → b = c)
    (shared : ∃ b ∈ anchor :: window, lo ≤ b.number ∧ OnChain canon b)
    (honest : HonestRun canon lo samples s)
    (reaches : ∀ n t, Rounds.rounds (serverRound canon lo) samples n s = .ok t →
      Conflicts canon t → ReachesFloor lo t (samples n)) :
    FindsForkPoint canon lo anchor window samples s := by
  -- what one round does in an aligned state
  have step : ∀ n t, Rounds.rounds (serverRound canon lo) samples n s = .ok t →
      Aligned lo anchor window t → ∃ u, serverRound canon lo (samples n) t = .ok u ∧
        Aligned lo anchor window u ∧ (Conflicts canon t → lo < u.cursor ∧ u.cursor < t.cursor) := by
    intro n t reached inv
    by_cases conflict : Conflicts canon t
    · obtain ⟨cursor, above, lower, went⟩ := conflict_lowers inv chain determined shared conflict
        (honest n t reached conflict) (reaches n t reached conflict)
      exact ⟨_, (if_pos conflict).trans went, inv.lower above lower, fun _ => ⟨above, lower⟩⟩
    · obtain ⟨b, -, -, -, parent⟩ := inv.resumeParent
      refine ⟨t, ?_, inv, fun yes => absurd yes conflict⟩
      rw [serverRound, if_neg conflict, parent]
  have total := Rounds.rounds_total (I := fun _ => Aligned lo anchor window) aligned
    fun n t reached inv => by
      obtain ⟨u, next, inv', -⟩ := step n t reached inv
      exact ⟨u, next, inv'⟩
  have alignedAt : ∀ n t, Rounds.rounds (serverRound canon lo) samples n s = .ok t →
      Aligned lo anchor window t := by
    intro n t reached
    obtain ⟨u, same, inv⟩ := total n
    rw [reached] at same
    rw [Except.ok.inj same]
    exact inv
  have opens : ∃ n t, Rounds.rounds (serverRound canon lo) samples n s = .ok t ∧
      ¬ Conflicts canon t := by
    refine Rounds.reaches_of_rank (fun t : Shell => (t.cursor - lo).toNat)
      (fun n => (total n).imp fun _ h => h.1) ?_
    intro n t u reached conflict next
    obtain ⟨v, went, -, falls⟩ := step n t reached (alignedAt n t reached)
    rw [next] at went
    obtain ⟨above, lower⟩ := falls (not_not.1 conflict)
    rw [← Except.ok.inj went] at above lower
    omega
  obtain ⟨n, t, reached, open_⟩ := opens
  refine ⟨fun n => (total n).imp fun _ h => h.1, n, t, reached, open_, ?_, ?_⟩
  · exact common_of_open (alignedAt n t reached) determined open_
  · intro b served
    obtain ⟨p, pMem, pNumber, pFloor, pOn⟩ :=
      common_of_open (alignedAt n t reached) determined open_
    have floor := (alignedAt n t reached).floor
    have above := (alignedAt n t reached).above
    -- the served block's parent is the common ancestor
    obtain ⟨q, atParent, parent⟩ := chain.parent t.cursor b (by omega) served
    have isP : q = p := by
      rw [OnChain, pNumber, atParent] at pOn
      exact Option.some.inj pOn
    rw [isP] at parent
    have noGap : reconcile window b anchor ≠ .gap := by
      intro gap
      exact (reconcile_gap_iff.1 gap).2 p pMem parent
    refine ⟨noGap, fun conflict => ?_⟩
    have answers := reconcile_cases window b anchor
    generalize reconcile window b anchor = answer at answers noGap
    cases answers with
    | append => exact .inl rfl
    | reorg => exact .inr ⟨_, _, rfl⟩
    | gap => exact absurd rfl noGap
    | duplicate dup =>
        -- were the served block the tip, nothing of the window would have conflicted
        have tipMem := tipOf_mem anchor window
        have isTip := determined _ tipMem _ b served dup.symm
        have number := chain.number _ _ served
        have tipOn : OnChain canon (tipOf anchor window) := by
          rw [OnChain, isTip, number, served]
        obtain ⟨r, rMem, rNumber, held, -⟩ := aligned.resumeParent
        have rLow : r.number ≤ (tipOf anchor window).number := by
          exact (linked_of_contiguous aligned.contiguous).le_tip rMem
        have rOn := onChain_below chain determined aligned.contiguous tipMem tipOn rMem rLow
        rw [OnChain, rNumber] at rOn
        exact absurd (by rw [rOn, held]; rfl) conflict

/-! ## Where alignment comes from

A client whose ring has never been size-evicted is aligned in every state it can reach: the seed
aligns the empty window, and deliveries at the cursor, finalizes, re-opens and honest 409s keep
it. -/

/-- The window after a delivered block, as the producer leaves it. -/
inductive Delivered (anchor : Light) (window : List Light) (b : Light) : List Light → Prop
  | duplicate : b = tipOf anchor window → Delivered anchor window b window
  | append : reconcile window b anchor = .append → NextTo (tipOf anchor window) b →
      Delivered anchor window b (window ++ [b])
  | reorg {ancestor : Light} {reorged : List Light} :
      reconcile window b anchor = .reorg ancestor reorged → NextTo ancestor b →
      Delivered anchor window b (trimAbove ancestor.number window ++ [b])

inductive Session : Light → List Light → Shell → Prop
  | start (anchor : Light) :
      Session anchor []
        { cursor := anchor.number + 1
          ring := OrdMap.empty.set anchor.number anchor.hash
          consecutive409 := 0
          armed := true }
  | conflict {anchor : Light} {window : List Light} {s t : Shell}
      {prev : Option (List NumberedHash)} : Session anchor window s →
      round409 anchor.number prev s = .ok t → t.cursor < s.cursor → Session anchor window t
  | deliver {anchor b : Light} {window window' : List Light} {s : Shell} :
      Session anchor window s → b.number = s.cursor → Delivered anchor window b window' →
      ((s.ring.set b.number b.hash).filter fun n _ => ¬ n < anchor.number).size ≤ RING_CAP →
      Session anchor window' (recordDelivery anchor.number s b.number b.hash)
  | reopen {anchor : Light} {window : List Light} {s : Shell} {cursor : Int} :
      Session anchor window s → anchor.number < cursor → cursor < s.cursor →
      Session anchor window { s with cursor := cursor }
  | finalize {anchor tip : Light} {pre window : List Light} {s : Shell} :
      Session anchor (pre ++ tip :: window) s → tip.number < s.cursor → Session tip window s

section Session

variable {anchor b : Light} {window window' : List Light}

theorem Contiguous.push (contiguous : Contiguous anchor window)
    (next : NextTo (tipOf anchor window) b) : Contiguous anchor (window ++ [b]) := by
  rw [Contiguous, ← List.cons_append, List.isChain_append]
  refine ⟨contiguous, List.isChain_singleton _, ?_⟩
  intro x last y head
  have isTip : tipOf anchor window = x := by
    rw [List.getLast?_cons] at last
    exact Option.some.inj last
  simp only [List.head?_cons, Option.mem_some_iff] at head
  rw [← head, ← isTip]
  exact next

/-- A delivery leaves a contiguous window with the new block, and keeps what is below it. -/
theorem Delivered.keeps (contiguous : Contiguous anchor window)
    (delivered : Delivered anchor window b window') :
    Contiguous anchor window' ∧ b ∈ anchor :: window' ∧
      ∀ x ∈ anchor :: window, x.number < b.number → x ∈ anchor :: window' := by
  cases delivered with
  | duplicate isTip =>
      refine ⟨contiguous, ?_, fun _ mem _ => mem⟩
      rw [isTip]
      exact tipOf_mem anchor window
  | append _ next =>
      refine ⟨contiguous.push next, by simp, ?_⟩
      intro x mem _
      rw [← List.cons_append]
      exact List.mem_append_left _ mem
  | reorg answer next =>
      have answers := reconcile_cases window b anchor
      rw [answer] at answers
      cases answers with
      | @reorg kept reorged notTip splits nonempty parent _ =>
          have linked := linked_of_contiguous contiguous
          rw [splits] at linked
          have split := linked_append.1 linked
          have cut : trimAbove (tipOf anchor kept).number window = kept := by
            rw [splits]
            exact trimAbove_linked linked
          have all := contiguous
          rw [Contiguous, splits, ← List.cons_append] at all
          have keptContiguous : Contiguous anchor kept := (List.isChain_append.1 all).1
          rw [cut]
          refine ⟨keptContiguous.push next, by simp, ?_⟩
          intro x mem below
          rw [splits, ← List.cons_append] at mem
          rw [← List.cons_append]
          rcases List.mem_append.1 mem with old | gone
          · exact List.mem_append_left _ old
          · have above := split.2.anchor_lt gone
            have height := next.2
            omega

theorem Aligned.deliver {lo : Int} {s : Shell} (aligned : Aligned lo anchor window s)
    (number : b.number = s.cursor) (delivered : Delivered anchor window b window')
    (fits : ((s.ring.set b.number b.hash).filter fun n _ => ¬ n < lo).size ≤ RING_CAP) :
    Aligned lo anchor window' (recordDelivery lo s b.number b.hash) := by
  obtain ⟨contiguous, mem, keeps⟩ := delivered.keeps aligned.contiguous
  have above := aligned.above
  refine ⟨contiguous, aligned.floor, ?_, ?_⟩
  · simp only [recordDelivery]
    omega
  · intro h low high
    simp only [recordDelivery] at high ⊢
    rw [get?_pruneRing fits low, OrdMap.get?_set]
    by_cases atBlock : h = b.number
    · exact ⟨b, mem, atBlock.symm, if_pos atBlock⟩
    · obtain ⟨x, xMem, xNumber, held⟩ := aligned.ring h low (by omega)
      exact ⟨x, keeps x xMem (by omega), xNumber, by rw [if_neg atBlock, held]⟩

theorem Aligned.finalize {pre : List Light} {tip : Light} {s : Shell}
    (aligned : Aligned anchor.number anchor (pre ++ tip :: window) s)
    (low : tip.number < s.cursor) : Aligned tip.number tip window s := by
  have all := aligned.contiguous
  have linked := linked_of_contiguous aligned.contiguous
  rw [Contiguous, ← List.cons_append] at all
  refine ⟨(List.isChain_append.1 all).2.1, Int.le_refl _, low, ?_⟩
  intro h atLeast below
  have rise := linked.anchor_lt (List.mem_append_right pre List.mem_cons_self)
  obtain ⟨x, mem, number, held⟩ := aligned.ring h (by omega) below
  refine ⟨x, ?_, number, held⟩
  rw [← List.cons_append] at mem
  rcases List.mem_append.1 mem with before | after
  · -- the blocks before the tip are below it
    have order := linked.pairwise
    rw [← List.cons_append] at order
    have under := (List.pairwise_append.1 order).2.2 x before tip List.mem_cons_self
    omega
  · exact after

theorem Session.aligned {s : Shell} (session : Session anchor window s) :
    Aligned anchor.number anchor window s := by
  induction session with
  | start anchor =>
      refine ⟨List.isChain_singleton _, Int.le_refl _, ?_, ?_⟩
      · simp only
        omega
      · intro h low high
        simp only at high
        have height : h = anchor.number := by omega
        exact ⟨anchor, List.mem_cons_self, height.symm, by rw [height, OrdMap.get?_set_self]⟩
  | conflict _ went lower aligned =>
      obtain ⟨moves, ring, -, -⟩ := negotiate409_ok (round409_ok went)
      refine ⟨aligned.contiguous, aligned.floor, moves.above_floor, ?_⟩
      intro h low high
      rw [ring]
      exact aligned.ring h low (Int.lt_trans high lower)
  | deliver _ number delivered fits aligned => exact aligned.deliver number delivered fits
  | reopen _ above lower aligned => exact aligned.lower above lower
  | finalize _ low aligned => exact aligned.finalize low

end Session

/-! A fork at 103 under the floor 100. With an honest sample of 101 the client finds 101; with an
honest sample of 99 and 104 it throws, although the chains share 100 to 102. -/

def forkedAnchor : Light := ⟨100, "0x100", "0x99", 100⟩

def forkedWindow : List Light :=
  [⟨101, "0x101", "0x100", 101⟩, ⟨102, "0x102", "0x101", 102⟩, ⟨103, "0x103a", "0x102", 103⟩,
    ⟨104, "0x104a", "0x103a", 104⟩]

def forkedCanon (h : Int) : Option Light :=
  [⟨99, "0x99", "0x98", 99⟩, ⟨100, "0x100", "0x99", 100⟩, ⟨101, "0x101", "0x100", 101⟩,
    ⟨102, "0x102", "0x101", 102⟩, ⟨103, "0x103b", "0x102", 103⟩,
    ⟨104, "0x104b", "0x103b", 104⟩].find? fun b : Light => b.number = h

def forkedShell : Shell where
  cursor := 105
  ring := (forkedAnchor :: forkedWindow).foldl (fun r b => r.set b.number b.hash) OrdMap.empty
  consecutive409 := 0
  armed := true

theorem forkedCanon_mem {h : Int} {b : Light} (found : forkedCanon h = some b) :
    b.number = h ∧ 99 ≤ h ∧ h ≤ 104 := by
  have number : b.number = h := by simpa using List.find?_some found
  have mem := List.mem_of_find?_eq_some found
  have bounds : ∀ c ∈ [(⟨99, "0x99", "0x98", 99⟩ : Light), ⟨100, "0x100", "0x99", 100⟩,
      ⟨101, "0x101", "0x100", 101⟩, ⟨102, "0x102", "0x101", 102⟩, ⟨103, "0x103b", "0x102", 103⟩,
      ⟨104, "0x104b", "0x103b", 104⟩], 99 ≤ c.number ∧ c.number ≤ 104 := by decide
  have range := bounds b mem
  omega

theorem forked_canonical : CanonicalChain forkedCanon forkedAnchor.number where
  number := fun _ _ found => (forkedCanon_mem found).1
  parent := by
    intro h b above found
    obtain ⟨number, -, high⟩ := forkedCanon_mem found
    simp only [forkedAnchor] at above
    have cases : h = 101 ∨ h = 102 ∨ h = 103 ∨ h = 104 := by omega
    rcases cases with rfl | rfl | rfl | rfl
    all_goals
      cases found
      exact ⟨_, rfl, rfl⟩

theorem forked_determined : ∀ b ∈ forkedAnchor :: forkedWindow, ∀ h c, forkedCanon h = some c →
    b.hash = c.hash → b = c := by
  intro b mem h c found same
  obtain ⟨-, low, high⟩ := forkedCanon_mem found
  have all : ∀ b ∈ forkedAnchor :: forkedWindow, ∀ k : Fin 6, ∀ c,
      forkedCanon (99 + (k : Nat)) = some c → b.hash = c.hash → b = c := by decide
  have height : h = 99 + ((⟨(h - 99).toNat, by omega⟩ : Fin 6) : Nat) := by
    simp only
    omega
  rw [height] at found
  exact all b mem _ c found same

theorem forked_aligned : Aligned 100 forkedAnchor forkedWindow forkedShell where
  contiguous := by
    unfold Contiguous
    decide
  floor := by decide
  above := by decide
  ring := by
    intro h low high
    have all : ∀ k : Fin 5, ∃ b ∈ forkedAnchor :: forkedWindow, b.number = 100 + (k : Nat) ∧
        forkedShell.ring.get? (100 + (k : Nat)) = some b.hash := by decide
    have high' : h < 105 := high
    have height : h = 100 + ((⟨(h - 100).toNat, by omega⟩ : Fin 5) : Nat) := by
      simp only
      omega
    rw [height]
    exact all _

theorem forked_shared : ∃ b ∈ forkedAnchor :: forkedWindow, 100 ≤ b.number ∧
    OnChain forkedCanon b := ⟨forkedAnchor, by decide, by decide, rfl⟩

/-- The stream re-opened at 102. -/
def reopenedShell : Shell := { forkedShell with cursor := 102 }

theorem forked_rounds (n : Nat) :
    Rounds.rounds (serverRound forkedCanon 100) (fun _ => [⟨101, "0x101"⟩]) (n + 1) forkedShell =
      .ok reopenedShell := by
  induction n with
  | zero => rfl
  | succ n ih => exact (Rounds.rounds_succ_ok ih).trans rfl

theorem negotiation_finds_fork_point_forked :
    FindsForkPoint forkedCanon 100 forkedAnchor forkedWindow (fun _ => [⟨101, "0x101"⟩])
        forkedShell ∧
      reconcile forkedWindow ⟨102, "0x102", "0x101", 102⟩ forkedAnchor =
        .reorg ⟨101, "0x101", "0x100", 101⟩ (forkedWindow.drop 1) := by
  -- only the first round conflicts
  have first : ∀ n t, Rounds.rounds (serverRound forkedCanon 100)
      (fun _ => [⟨101, "0x101"⟩]) n forkedShell = .ok t → Conflicts forkedCanon t →
        t = forkedShell := by
    intro n t reached conflict
    cases n with
    | zero => exact (Except.ok.inj reached).symm
    | succ n =>
        rw [forked_rounds n] at reached
        rw [← Except.ok.inj reached] at conflict
        exact absurd rfl conflict
  refine ⟨negotiation_finds_fork_point forked_aligned forked_canonical forked_determined
    forked_shared ?_ ?_, by decide⟩
  · intro n t reached conflict pb mem
    rw [first n t reached conflict, List.mem_singleton.1 mem]
    exact ⟨by decide, rfl⟩
  · rintro n t reached conflict ⟨pb, mem, below⟩
    rw [List.mem_singleton.1 mem] at below
    exact absurd below (by decide)

/-- An honest sample that reaches below the floor without a confirmed entry is fatal, although
the chains share blocks at and above the floor. -/
theorem negotiation_misses_fork_point :
    Aligned 100 forkedAnchor forkedWindow forkedShell ∧
      CanonicalChain forkedCanon forkedAnchor.number ∧
      (∀ b ∈ forkedAnchor :: forkedWindow, ∀ h c, forkedCanon h = some c → b.hash = c.hash →
        b = c) ∧
      (∃ b ∈ forkedAnchor :: forkedWindow, 100 ≤ b.number ∧ OnChain forkedCanon b) ∧
      HonestRun forkedCanon 100 (fun _ => [⟨99, "0x99"⟩, ⟨104, "0x104b"⟩]) forkedShell ∧
      Rounds.rounds (serverRound forkedCanon 100) (fun _ => [⟨99, "0x99"⟩, ⟨104, "0x104b"⟩]) 1
        forkedShell = .error (.forkBelowFloor 100 105) ∧
      ¬ FindsForkPoint forkedCanon 100 forkedAnchor forkedWindow
        (fun _ => [⟨99, "0x99"⟩, ⟨104, "0x104b"⟩]) forkedShell := by
  have fatal : Rounds.rounds (serverRound forkedCanon 100)
      (fun _ => [⟨99, "0x99"⟩, ⟨104, "0x104b"⟩]) 1 forkedShell =
        .error (.forkBelowFloor 100 105) := rfl
  refine ⟨forked_aligned, forked_canonical, forked_determined, forked_shared, ?_, fatal, ?_⟩
  · intro n t reached conflict
    cases n with
    | succ n =>
        rw [Rounds.rounds_error_mono fatal (Nat.le_add_left 1 n)] at reached
        cases reached
    | zero =>
        rw [← Except.ok.inj reached]
        intro pb mem
        simp only [List.mem_cons, List.not_mem_nil, or_false] at mem
        rcases mem with rfl | rfl
        · exact ⟨by decide, rfl⟩
        · exact ⟨by decide, rfl⟩
  · intro finds
    obtain ⟨t, reached⟩ := finds.total 1
    rw [fatal] at reached
    cases reached

end PortalPonder.Realtime
