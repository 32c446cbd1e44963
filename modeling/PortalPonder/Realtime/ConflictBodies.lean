import PortalPonder.Client.HeadProbe
import PortalPonder.Realtime.ForkPoint

/-!
# The bodies of a negotiation

A 409 carries its sample of canonical blocks in a body that may stall or be cut like any other.
`parsePreviousBlocks` then gives nothing, or an empty list, but never a sample that was not sent:
the round steps down by one block instead of rewinding. The negotiation still ends at a common
ancestor, within as many rounds as the cursor is above the floor.
-/

namespace PortalPonder.Realtime

open Client (ResponseBody member readTextWithIdle)
open JSON (Text Value)

/-! ## The sample of a body -/

section

variable (toNumber : Text → Int) (toHash : List Nat → Hash)

/-- An entry that has a number and a hash. -/
def numberedHash (e : Value) : Option NumberedHash :=
  match member "number" e, member "hash" e with
  | some (.num lexeme), some (.str hash) => some ⟨toNumber lexeme, toHash hash⟩
  | _, _ => none

/-- `parsed?.previousBlocks`, when it is an array. -/
def previousBlocksOf (parsed : Value) : List NumberedHash :=
  match member "previousBlocks" parsed with
  | some (.arr raw) => raw.filterMap (numberedHash toNumber toHash)
  | _ => []

/-- `none` where the text does not parse; the negotiation goes on without a sample. -/
def parsePreviousBlocks (body : ResponseBody) : Option (List NumberedHash) :=
  (JSON.parse (readTextWithIdle body)).map (previousBlocksOf toNumber toHash)

/-- One round against the server: a 409 with a body, or an open connection. -/
def bodyRound (canon : Int → Option Light) (lo : Int) (body : ResponseBody) (s : Shell) :
    Except HotError Shell :=
  if Conflicts canon s then round409 lo (parsePreviousBlocks toNumber toHash body) s
  else
    match resumeParent lo s with
    | .error e => .error e
    | .ok _ => .ok s

end

section

variable {toNumber : Text → Int} {toHash : List Nat → Hash}

theorem previousBlocksOf_other {w : Value} (other : w.isObject = false) :
    previousBlocksOf toNumber toHash w = [] := by
  cases w with
  | obj members => cases other
  | _ => rfl

/-- The sample of a body that was cut is the one that was sent, or it is empty. -/
theorem parsePreviousBlocks_sent (toNumber : Text → Int) (toHash : List Nat → Hash)
    {sent : Value → Prop} {body : ResponseBody} (sends : body.Sends sent) :
    (parsePreviousBlocks toNumber toHash body).getD [] = [] ∨
      ∃ v, sent v ∧ (parsePreviousBlocks toNumber toHash body).getD [] =
        previousBlocksOf toNumber toHash v := by
  unfold parsePreviousBlocks
  cases read : JSON.parse (readTextWithIdle body) with
  | none => exact .inl rfl
  | some w =>
      cases object : w.isObject with
      | true => exact .inr ⟨w, sends.object read object, rfl⟩
      | false =>
          left
          show previousBlocksOf toNumber toHash w = []
          exact previousBlocksOf_other object

/-- A sample that could not be read counts as an empty one. -/
theorem round409_getD (lo : Int) (previousBlocks : Option (List NumberedHash)) (s : Shell) :
    round409 lo previousBlocks s = round409 lo (some (previousBlocks.getD [])) s := by
  cases previousBlocks <;> rfl

end

/-! ## The negotiation over bodies -/

section

variable {canon : Int → Option Light} {lo : Int} {anchor : Light} {window : List Light}
  {toNumber : Text → Int} {toHash : List Nat → Hash} {bodies : Nat → ResponseBody} {s : Shell}

/-- A value whose sample an honest server sends in a state. -/
def HonestValue (canon : Int → Option Light) (lo : Int) (toNumber : Text → Int)
    (toHash : List Nat → Hash) (s : Shell) (v : Value) : Prop :=
  HonestSample canon s (previousBlocksOf toNumber toHash v) ∧
    ReachesFloor lo s (previousBlocksOf toNumber toHash v)

/-- Every 409 is the text of an honest value, of which any part may get lost. -/
def HonestBodies (canon : Int → Option Light) (lo : Int) (toNumber : Text → Int)
    (toHash : List Nat → Hash) (bodies : Nat → ResponseBody) (s : Shell) : Prop :=
  ∀ n t, Rounds.rounds (bodyRound toNumber toHash canon lo) bodies n s = .ok t →
    Conflicts canon t → (bodies n).Sends (HonestValue canon lo toNumber toHash t)

/-- What is read is honest, whatever got lost. -/
theorem honest_of_sends {body : ResponseBody}
    (sends : body.Sends (HonestValue canon lo toNumber toHash s)) :
    HonestSample canon s ((parsePreviousBlocks toNumber toHash body).getD []) ∧
      ReachesFloor lo s ((parsePreviousBlocks toNumber toHash body).getD []) := by
  rcases parsePreviousBlocks_sent toNumber toHash sends with empty | ⟨v, honest, is⟩
  · rw [empty]
    refine ⟨fun pb mem => absurd mem List.not_mem_nil, fun below => ?_⟩
    obtain ⟨pb, mem, -⟩ := below
    exact absurd mem List.not_mem_nil
  · rw [is]
    exact honest

/-- A round in conflict lowers the cursor, and stays above the floor. -/
theorem bodyRound_lowers (aligned : Aligned lo anchor window s)
    (chain : CanonicalChain canon anchor.number)
    (determined : ∀ b ∈ anchor :: window, ∀ h c, canon h = some c → b.hash = c.hash → b = c)
    (shared : ∃ b ∈ anchor :: window, lo ≤ b.number ∧ OnChain canon b)
    (conflict : Conflicts canon s) {body : ResponseBody}
    (sends : body.Sends (HonestValue canon lo toNumber toHash s)) :
    ∃ t, bodyRound toNumber toHash canon lo body s = .ok t ∧ Aligned lo anchor window t ∧
      t.cursor < s.cursor := by
  obtain ⟨honest, reaches⟩ := honest_of_sends sends
  obtain ⟨cursor, above, lower, went⟩ :=
    conflict_lowers aligned chain determined shared conflict honest reaches
  refine ⟨{ s with cursor := cursor, consecutive409 := 0 }, ?_, aligned.lower above lower, lower⟩
  rw [bodyRound, if_pos conflict, round409_getD]
  exact went

/-- An open connection stays open. -/
theorem bodyRound_open (aligned : Aligned lo anchor window s) (agrees : ¬ Conflicts canon s)
    (body : ResponseBody) : bodyRound toNumber toHash canon lo body s = .ok s := by
  obtain ⟨b, -, -, -, parent⟩ := aligned.resumeParent
  rw [bodyRound, if_neg agrees, parent]

/-- Against an honest server whose 409 bodies stall or are cut at any byte, the negotiation never
throws, and after as many rounds as the cursor is above the floor the stream is open, just above
an ancestor that both chains share. -/
theorem negotiation_survives_cut_bodies (aligned : Aligned lo anchor window s)
    (chain : CanonicalChain canon anchor.number)
    (determined : ∀ b ∈ anchor :: window, ∀ h c, canon h = some c → b.hash = c.hash → b = c)
    (shared : ∃ b ∈ anchor :: window, lo ≤ b.number ∧ OnChain canon b)
    (honest : HonestBodies canon lo toNumber toHash bodies s) :
    (∀ n, ∃ t, Rounds.rounds (bodyRound toNumber toHash canon lo) bodies n s = .ok t) ∧
    ∃ t, Rounds.rounds (bodyRound toNumber toHash canon lo) bodies (s.cursor - lo).toNat s = .ok t ∧
      ¬ Conflicts canon t ∧ t.cursor ≤ s.cursor ∧
      ∃ p ∈ anchor :: window, p.number = t.cursor - 1 ∧ lo ≤ p.number ∧ OnChain canon p := by
  -- until the stream is open, every round has lowered the cursor
  have total : ∀ n, ∃ t, Rounds.rounds (bodyRound toNumber toHash canon lo) bodies n s = .ok t ∧
      Aligned lo anchor window t ∧ t.cursor ≤ s.cursor ∧
      (Conflicts canon t → t.cursor + n ≤ s.cursor) := by
    refine Rounds.rounds_total (I := fun n t => Aligned lo anchor window t ∧
      t.cursor ≤ s.cursor ∧ (Conflicts canon t → t.cursor + n ≤ s.cursor)) ?_ ?_
    · exact ⟨aligned, Int.le_refl _, fun _ => by simp⟩
    · intro n t reached ⟨inv, below, falls⟩
      by_cases conflict : Conflicts canon t
      · obtain ⟨u, went, kept, lower⟩ := bodyRound_lowers inv chain determined shared conflict
          (honest n t reached conflict)
        have fallen := falls conflict
        exact ⟨u, went, kept, by omega, fun _ => by omega⟩
      · exact ⟨t, bodyRound_open inv conflict (bodies n), inv, below,
          fun yes => absurd yes conflict⟩
  refine ⟨fun n => (total n).imp fun _ here => here.1, ?_⟩
  obtain ⟨t, reached, inv, below, falls⟩ := total (s.cursor - lo).toNat
  have agrees : ¬ Conflicts canon t := by
    intro conflict
    have fallen := falls conflict
    have above := inv.above
    omega
  exact ⟨t, reached, agrees, below, common_of_open inv determined agrees⟩

end

/-! The first 409 stalls, so that the cursor steps down to 104; the second one is read. -/

def conflictText : Text :=
  "\x7b\"previousBlocks\":[\x7b\"number\":101,\"hash\":\"0x101\"\x7d]\x7d".toList

def conflictValue : Value := (JSON.parse conflictText).get (by decide +kernel)

theorem conflictText_parses : JSON.parse conflictText = some conflictValue := by
  unfold conflictValue
  exact (Option.some_get _).symm

def conflictBodies : Nat → ResponseBody
  | 0 => .stream [(Utf8.encode conflictText).take 40] .stalled
  | _ + 1 => .stream [(Utf8.encode conflictText).take 40, (Utf8.encode conflictText).drop 40] .done

def decimal (digits : Text) : Int := (Nat.ofDigitChars 10 digits 0 : Nat)

def ascii (units : List Nat) : Hash := String.ofList (units.map Char.ofNat)

theorem conflictBodies_read (n : Nat) :
    parsePreviousBlocks decimal ascii (conflictBodies n) =
      if n = 0 then none else some [⟨101, "0x101"⟩] := by
  cases n with
  | zero => decide +kernel
  | succ n =>
      have read : parsePreviousBlocks decimal ascii (conflictBodies 1) =
          some [⟨101, "0x101"⟩] := by decide +kernel
      exact read

theorem conflictBodies_first :
    Rounds.rounds (bodyRound decimal ascii forkedCanon 100) conflictBodies 1 forkedShell =
      .ok { forkedShell with cursor := 104 } := by
  rw [Rounds.rounds_succ_ok Rounds.rounds_zero, bodyRound, conflictBodies_read]
  rfl

theorem conflictBodies_rounds (n : Nat) :
    Rounds.rounds (bodyRound decimal ascii forkedCanon 100) conflictBodies (n + 2) forkedShell =
      .ok reopenedShell := by
  induction n with
  | zero =>
      rw [Rounds.rounds_succ_ok conflictBodies_first, bodyRound, conflictBodies_read]
      rfl
  | succ n ih =>
      rw [Rounds.rounds_succ_ok ih]
      rfl

/-- Only the first two rounds conflict. -/
theorem conflictBodies_above {n : Nat} {t : Shell}
    (reached : Rounds.rounds (bodyRound decimal ascii forkedCanon 100) conflictBodies n
      forkedShell = .ok t) (conflict : Conflicts forkedCanon t) : 104 ≤ t.cursor := by
  rcases n with _ | _ | n
  · rw [Rounds.rounds_zero] at reached
    cases reached
    exact (by decide : (104 : Int) ≤ 105)
  · have is := conflictBodies_first.symm.trans reached
    cases is
    exact Int.le_refl 104
  · have is := (conflictBodies_rounds n).symm.trans reached
    cases is
    exact absurd rfl conflict

theorem conflictBodies_honest :
    HonestBodies forkedCanon 100 decimal ascii conflictBodies forkedShell := by
  intro n t reached conflict
  have above := conflictBodies_above reached conflict
  have sample : previousBlocksOf decimal ascii conflictValue = [⟨101, "0x101"⟩] := by
    decide +kernel
  have honest : HonestValue forkedCanon 100 decimal ascii t conflictValue := by
    unfold HonestValue
    rw [sample]
    refine ⟨fun pb mem => ?_, fun below => ?_⟩
    · rw [List.mem_singleton.1 mem]
      exact ⟨show (101 : Int) ≤ t.cursor - 1 by omega, rfl⟩
    · obtain ⟨pb, mem, low⟩ := below
      rw [List.mem_singleton.1 mem] at low
      exact absurd low (by decide)
  cases n with
  | zero => exact .stalled conflictText_parses honest 40
  | succ n => exact .inTwo conflictText_parses honest 40

theorem negotiation_survives_cut_bodies_forked :
    ∃ t, Rounds.rounds (bodyRound decimal ascii forkedCanon 100) conflictBodies 5 forkedShell =
        .ok t ∧ ¬ Conflicts forkedCanon t ∧ t.cursor ≤ 105 ∧
      ∃ p ∈ forkedAnchor :: forkedWindow, p.number = t.cursor - 1 ∧ 100 ≤ p.number ∧
        OnChain forkedCanon p :=
  (negotiation_survives_cut_bodies forked_aligned forked_canonical forked_determined forked_shared
    conflictBodies_honest).2

end PortalPonder.Realtime
