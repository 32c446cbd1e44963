import PortalPonder.Lib.Folds
import PortalPonder.Lib.Keyed
import PortalPonder.Harness.Rows

/-!
# The streaming diff

`streamingDiff` walks two key-ordered streams of rows at once, with one row of each in hand, and
counts what it meets. What it counts is what a comparison of the two maps from keys to rows finds,
key by key.

An async iterator is the list of the rows it yields.
-/

namespace PortalPonder.Harness

open JSON (units)
open Keyed

inductive Mode where
  | strict
  | blocks
  | transactions
  deriving DecidableEq, Repr

structure Counts where
  fail : Bool
  aCount : Nat
  bCount : Nat
  onlyA : Nat
  onlyB : Nat
  mismatch : Nat
  sizeTolerated : Nat
  baseFeeTolerated : Nat
  accessListTolerated : Nat
  shared : Nat
  deriving DecidableEq, Repr

structure Res extends Counts where
  samples : List (List Nat)

/-- The result so far, and the rows `onOnlyB`, when there is one, was called with. -/
structure Walk where
  res : Res
  observed : List Row

def Counts.zero : Counts := ⟨false, 0, 0, 0, 0, 0, 0, 0, 0, 0⟩

def Walk.start : Walk := ⟨⟨Counts.zero, []⟩, []⟩

def Res.sample (res : Res) (kind : String) (text : List Nat) : Res :=
  if res.samples.length < 6 then
    { res with samples := res.samples ++ [units kind ++ units ": " ++ text.take 300] }
  else res

section

variable (drop : List String) (mode : Mode)

def Res.addOnlyA (res : Res) (a : Row) : Res :=
  let res := { res with aCount := res.aCount + 1, onlyA := res.onlyA + 1 }
  if mode = .strict ∨ mode = .blocks ∨ mode = .transactions then
    { res with fail := true }.sample "A-only" (normRow a drop)
  else res

def Res.addOnlyB (res : Res) (b : Row) : Res :=
  let res := { res with bCount := res.bCount + 1, onlyB := res.onlyB + 1 }
  if mode = .strict ∨ mode = .transactions then
    { res with fail := true }.sample "B-only" (normRow b drop)
  else res

def Res.addShared (res : Res) (a b : Row) : Res :=
  let res := { res with
    aCount := res.aCount + 1, bCount := res.bCount + 1, shared := res.shared + 1 }
  let na := normRow a drop
  let nb := normRow b drop
  -- what `JSON.parse` makes of the two texts
  let p := normObject a drop
  let r := normObject b drop
  if na ≠ nb then
    if mode = .blocks ∧ sizeOnlyDiffTolerated p r = true then
      { res with sizeTolerated := res.sizeTolerated + 1 }
    else if mode = .blocks ∧ baseFeeNullVsZeroTolerated p r = true then
      { res with baseFeeTolerated := res.baseFeeTolerated + 1 }
    else if mode = .transactions ∧ accessListColumnGapTolerated p r = true then
      { res with accessListTolerated := res.accessListTolerated + 1 }
    else
      ({ res with mismatch := res.mismatch + 1, fail := true }.sample "A" na).sample "B" nb
  else res

def Walk.addOnlyA (w : Walk) (a : Row) : Walk := { w with res := w.res.addOnlyA drop mode a }

def Walk.addOnlyB (w : Walk) (b : Row) : Walk :=
  { res := w.res.addOnlyB drop mode b, observed := w.observed ++ [b] }

def Walk.addShared (w : Walk) (a b : Row) : Walk := { w with res := w.res.addShared drop mode a b }

variable {κ : Type} [LinearOrder κ] (keyFn : Row → Option (List κ))

/-- The loop. A key that cannot be made of a row throws. -/
def walk : List Row → List Row → Walk → Option Walk
  | [], [], w => some w
  | a :: as, [], w => do
      let _ ← keyFn a
      walk as [] (w.addOnlyA drop mode a)
  | [], b :: bs, w => do
      let _ ← keyFn b
      walk [] bs (w.addOnlyB drop mode b)
  | a :: as, b :: bs, w => do
      let ka ← keyFn a
      let kb ← keyFn b
      let step := cmpKey ka kb
      if step < 0 then walk as (b :: bs) (w.addOnlyA drop mode a)
      else if 0 < step then walk (a :: as) bs (w.addOnlyB drop mode b)
      else walk as bs (w.addShared drop mode a b)
termination_by as bs => as.length + bs.length

def streamingDiff (iterA iterB : List Row) : Option Walk := walk drop mode keyFn iterA iterB .start

/-! ## The comparison of two maps -/

/-- What there is to say of two rows with one key. -/
inductive Finding where
  | same
  | sizeTolerated
  | baseFeeTolerated
  | accessListTolerated
  | mismatch
  deriving DecidableEq, Repr

def finding (a b : Row) : Finding :=
  let p := normObject a drop
  let r := normObject b drop
  if p = r then .same
  else
    match mode with
    | .strict => .mismatch
    | .blocks =>
        if sizeOnlyDiffTolerated p r then .sizeTolerated
        else if baseFeeNullVsZeroTolerated p r then .baseFeeTolerated
        else .mismatch
    | .transactions =>
        if accessListColumnGapTolerated p r then .accessListTolerated else .mismatch

/-- A table: the row of each key. -/
abbrev RowMap (κ : Type) := Finmap (fun _ : List κ => Row)

def findingAt (A B : RowMap κ) (k : List κ) : Option Finding := do
  let a ← A.lookup k
  let b ← B.lookup k
  some (finding drop mode a b)

/-- The keys of both tables with one finding. -/
def found (A B : RowMap κ) (f : Finding) : Finset (List κ) :=
  (A.keys ∩ B.keys).filter fun k => findingAt drop mode A B k = some f

/-- The verdict. Rows that only B has are inert in `blocks` mode. -/
def Fails (A B : RowMap κ) : Prop :=
  (A.keys \ B.keys).Nonempty ∨ (mode ≠ .blocks ∧ (B.keys \ A.keys).Nonempty) ∨
    (found drop mode A B .mismatch).Nonempty

instance (A B : RowMap κ) : Decidable (Fails drop mode A B) := by
  unfold Fails
  infer_instance

def compareMaps (A B : RowMap κ) : Counts where
  fail := decide (Fails drop mode A B)
  aCount := A.keys.card
  bCount := B.keys.card
  onlyA := (A.keys \ B.keys).card
  onlyB := (B.keys \ A.keys).card
  mismatch := (found drop mode A B .mismatch).card
  sizeTolerated := (found drop mode A B .sizeTolerated).card
  baseFeeTolerated := (found drop mode A B .baseFeeTolerated).card
  accessListTolerated := (found drop mode A B .accessListTolerated).card
  shared := (A.keys ∩ B.keys).card

/-! ## What a walk counts -/

def Counts.add (c d : Counts) : Counts where
  fail := c.fail || d.fail
  aCount := c.aCount + d.aCount
  bCount := c.bCount + d.bCount
  onlyA := c.onlyA + d.onlyA
  onlyB := c.onlyB + d.onlyB
  mismatch := c.mismatch + d.mismatch
  sizeTolerated := c.sizeTolerated + d.sizeTolerated
  baseFeeTolerated := c.baseFeeTolerated + d.baseFeeTolerated
  accessListTolerated := c.accessListTolerated + d.accessListTolerated
  shared := c.shared + d.shared

theorem Counts.zero_add (c : Counts) : Counts.zero.add c = c := by
  simp [Counts.add, Counts.zero]

theorem Counts.add_zero (c : Counts) : c.add Counts.zero = c := by
  simp [Counts.add, Counts.zero]

theorem Counts.add_assoc (c d e : Counts) : (c.add d).add e = c.add (d.add e) := by
  simp [Counts.add, Nat.add_assoc, Bool.or_assoc]

/-- One row of A only. -/
def Counts.oneA : Counts := { Counts.zero with fail := true, aCount := 1, onlyA := 1 }

def Counts.oneB : Counts :=
  { Counts.zero with fail := decide (mode ≠ .blocks), bCount := 1, onlyB := 1 }

/-- One shared key with its finding. -/
def Counts.one (f : Finding) : Counts where
  fail := decide (f = .mismatch)
  aCount := 1
  bCount := 1
  onlyA := 0
  onlyB := 0
  mismatch := if f = .mismatch then 1 else 0
  sizeTolerated := if f = .sizeTolerated then 1 else 0
  baseFeeTolerated := if f = .baseFeeTolerated then 1 else 0
  accessListTolerated := if f = .accessListTolerated then 1 else 0
  shared := 1

@[simp] theorem Res.sample_counts (res : Res) (kind : String) (text : List Nat) :
    (res.sample kind text).toCounts = res.toCounts := by
  unfold Res.sample
  split <;> rfl

theorem Res.addOnlyA_counts (res : Res) (a : Row) :
    (res.addOnlyA drop mode a).toCounts = res.toCounts.add .oneA := by
  have every : mode = .strict ∨ mode = .blocks ∨ mode = .transactions := by
    cases mode <;> simp
  unfold Res.addOnlyA
  rw [if_pos every, Res.sample_counts]
  simp [Counts.add, Counts.oneA, Counts.zero]

theorem Res.addOnlyB_counts (res : Res) (b : Row) :
    (res.addOnlyB drop mode b).toCounts = res.toCounts.add (.oneB mode) := by
  cases mode <;> simp [Res.addOnlyB, Counts.add, Counts.oneB, Counts.zero]

theorem Res.addShared_counts (res : Res) (a b : Row) :
    (res.addShared drop mode a b).toCounts = res.toCounts.add (.one (finding drop mode a b)) := by
  unfold Res.addShared finding
  by_cases same : normObject a drop = normObject b drop
  · have texts : ¬ normRow a drop ≠ normRow b drop := not_not.2 (normRow_inj.2 same)
    simp only [texts, same, if_true, if_false]
    simp [Counts.add, Counts.one]
  · have texts : normRow a drop ≠ normRow b drop := fun eq => same (normRow_inj.1 eq)
    simp only [texts, same, if_true, if_false, ne_eq, not_false_eq_true]
    cases mode with
    | strict => simp [Counts.add, Counts.one]
    | blocks =>
        cases sizeOnlyDiffTolerated (normObject a drop) (normObject b drop) with
        | true => simp [Counts.add, Counts.one]
        | false =>
            cases baseFeeNullVsZeroTolerated (normObject a drop) (normObject b drop) <;>
              simp [Counts.add, Counts.one]
    | transactions =>
        cases accessListColumnGapTolerated (normObject a drop) (normObject b drop) <;>
          simp [Counts.add, Counts.one]

def Walk.meet (w : Walk) : Meeting Row → Walk
  | .left a => w.addOnlyA drop mode a
  | .right b => w.addOnlyB drop mode b
  | .both a b => w.addShared drop mode a b

variable {drop mode keyFn} {key : Row → List κ}

theorem walk_left {as : List Row} (keyed : ∀ a ∈ as, keyFn a = some (key a)) (w : Walk) :
    walk drop mode keyFn as [] w = some ((as.map .left).foldl (Walk.meet drop mode) w) := by
  induction as generalizing w with
  | nil => rw [walk]; rfl
  | cons a rest ih =>
      rw [walk, keyed a List.mem_cons_self]
      exact ih (fun b mem => keyed b (List.mem_cons_of_mem a mem)) _

theorem walk_right {bs : List Row} (keyed : ∀ b ∈ bs, keyFn b = some (key b)) (w : Walk) :
    walk drop mode keyFn [] bs w = some ((bs.map .right).foldl (Walk.meet drop mode) w) := by
  induction bs generalizing w with
  | nil => rw [walk]; rfl
  | cons b rest ih =>
      rw [walk, keyed b List.mem_cons_self]
      exact ih (fun c mem => keyed c (List.mem_cons_of_mem b mem)) _

/-- The loop meets what a join of the two lists meets. -/
theorem walk_join {as bs : List Row} (keyedA : ∀ a ∈ as, keyFn a = some (key a))
    (keyedB : ∀ b ∈ bs, keyFn b = some (key b)) (w : Walk) :
    walk drop mode keyFn as bs w = some ((join key as bs).foldl (Walk.meet drop mode) w) := by
  fun_induction join key as bs generalizing w with
  | case1 bs => exact walk_right keyedB w
  | case2 a as => exact walk_left keyedA w
  | case3 a as b bs lt ih =>
      rw [walk, keyedA a List.mem_cons_self, keyedB b List.mem_cons_self]
      show (if cmpKey (key a) (key b) < 0 then _ else _) = _
      rw [if_pos (cmpKey_neg.2 lt)]
      exact ih (fun c mem => keyedA c (List.mem_cons_of_mem a mem)) keyedB _
  | case4 a as b bs notLt gt ih =>
      rw [walk, keyedA a List.mem_cons_self, keyedB b List.mem_cons_self]
      show (if cmpKey (key a) (key b) < 0 then _ else
        if 0 < cmpKey (key a) (key b) then _ else _) = _
      rw [if_neg (fun neg => notLt (cmpKey_neg.1 neg)), if_pos (cmpKey_pos.2 gt)]
      exact ih keyedA (fun c mem => keyedB c (List.mem_cons_of_mem b mem)) _
  | case5 a as b bs notLt notGt ih =>
      rw [walk, keyedA a List.mem_cons_self, keyedB b List.mem_cons_self]
      show (if cmpKey (key a) (key b) < 0 then _ else
        if 0 < cmpKey (key a) (key b) then _ else _) = _
      rw [if_neg (fun neg => notLt (cmpKey_neg.1 neg)),
        if_neg (fun pos => notGt (cmpKey_pos.1 pos))]
      exact ih (fun c mem => keyedA c (List.mem_cons_of_mem a mem))
        (fun c mem => keyedB c (List.mem_cons_of_mem b mem)) _

variable (drop mode)

/-- The pairs with one finding. -/
def having (boths : List (Row × Row)) (f : Finding) : Nat :=
  boths.countP fun m => finding drop mode m.1 m.2 = f

theorem having_cons (m : Row × Row) (boths : List (Row × Row)) (f : Finding) :
    having drop mode (m :: boths) f =
      having drop mode boths f + if finding drop mode m.1 m.2 = f then 1 else 0 := by
  unfold having
  rw [List.countP_cons]
  simp

/-- The counts of the rows of A only, the rows of B only and the shared pairs. -/
def Counts.ofParts (lefts rights : List Row) (boths : List (Row × Row)) : Counts where
  fail := decide (lefts ≠ [] ∨ (mode ≠ .blocks ∧ rights ≠ []) ∨
    having drop mode boths .mismatch ≠ 0)
  aCount := lefts.length + boths.length
  bCount := rights.length + boths.length
  onlyA := lefts.length
  onlyB := rights.length
  mismatch := having drop mode boths .mismatch
  sizeTolerated := having drop mode boths .sizeTolerated
  baseFeeTolerated := having drop mode boths .baseFeeTolerated
  accessListTolerated := having drop mode boths .accessListTolerated
  shared := boths.length

theorem Counts.ofParts_left (a : Row) (lefts rights : List Row) (boths : List (Row × Row)) :
    ofParts drop mode (a :: lefts) rights boths =
      oneA.add (ofParts drop mode lefts rights boths) := by
  simp [ofParts, add, oneA, zero]
  omega

theorem Counts.ofParts_right (b : Row) (lefts rights : List Row) (boths : List (Row × Row)) :
    ofParts drop mode lefts (b :: rights) boths =
      (oneB mode).add (ofParts drop mode lefts rights boths) := by
  cases mode <;> simp [ofParts, add, oneB, zero] <;> omega

theorem Counts.ofParts_both (m : Row × Row) (lefts rights : List Row) (boths : List (Row × Row)) :
    ofParts drop mode lefts rights (m :: boths) =
      (one (finding drop mode m.1 m.2)).add (ofParts drop mode lefts rights boths) := by
  cases is : finding drop mode m.1 m.2 <;>
    simp [ofParts, add, one, having_cons, is] <;> omega

theorem foldl_counts (ms : List (Meeting Row)) (w : Walk) :
    (ms.foldl (Walk.meet drop mode) w).res.toCounts =
      w.res.toCounts.add (Counts.ofParts drop mode (ms.filterMap Meeting.left?)
        (ms.filterMap Meeting.right?) (ms.filterMap Meeting.both?)) := by
  induction ms generalizing w with
  | nil =>
      have nothing : Counts.ofParts drop mode [] [] [] = Counts.zero := by
        simp [Counts.ofParts, Counts.zero, having]
      exact (nothing ▸ Counts.add_zero _).symm
  | cons m rest ih =>
      rw [List.foldl_cons, ih]
      cases m with
      | left a =>
          have step : (w.meet drop mode (.left a)).res.toCounts = w.res.toCounts.add .oneA :=
            Res.addOnlyA_counts drop mode w.res a
          rw [step, Counts.add_assoc, ← Counts.ofParts_left]
          rfl
      | right b =>
          have step : (w.meet drop mode (.right b)).res.toCounts =
              w.res.toCounts.add (.oneB mode) := Res.addOnlyB_counts drop mode w.res b
          rw [step, Counts.add_assoc, ← Counts.ofParts_right]
          rfl
      | both a b =>
          have step : (w.meet drop mode (.both a b)).res.toCounts =
              w.res.toCounts.add (.one (finding drop mode a b)) :=
            Res.addShared_counts drop mode w.res a b
          rw [step, Counts.add_assoc, ← Counts.ofParts_both drop mode (a, b)]
          rfl

/-! ## The walk and the maps -/

variable {drop mode}

/-- The pairs of a join with one finding are the shared keys with it. -/
theorem having_found {as : List Row} (unique : (as.map key).Nodup) (bs : List Row) (f : Finding) :
    having drop mode (as.filterMap (paired key bs)) f =
      (found drop mode (toMap key as) (toMap key bs) f).card := by
  have shared : found drop mode (toMap key as) (toMap key bs) f =
      (toMap key as).keys.filter fun k =>
        findingAt drop mode (toMap key as) (toMap key bs) k = some f := by
    unfold found
    ext k
    rw [Finset.mem_filter, Finset.mem_filter, Finset.mem_inter]
    constructor
    · rintro ⟨⟨inA, _⟩, is⟩
      exact ⟨inA, is⟩
    · rintro ⟨inA, is⟩
      refine ⟨⟨inA, mem_keys_lookup.2 ?_⟩, is⟩
      unfold findingAt at is
      cases inB : (toMap key bs).lookup k with
      | some b => rfl
      | none =>
          rw [inB] at is
          cases inA : (toMap key as).lookup k with
          | none => rw [inA] at is; cases is
          | some a => rw [inA] at is; cases is
  rw [shared, card_keys_filter unique, having, List.countP_filterMap]
  apply List.countP_congr
  intro a mem
  unfold findingAt paired
  rw [lookup_self unique mem]
  cases (toMap key bs).lookup (key a) with
  | none => simp
  | some b => simp

theorem ofParts_compare {as bs : List Row} (uniqueA : (as.map key).Nodup)
    (uniqueB : (bs.map key).Nodup) :
    Counts.ofParts drop mode (as.filter fun a => ((toMap key bs).lookup (key a)).isNone)
      (bs.filter fun b => ((toMap key as).lookup (key b)).isNone) (as.filterMap (paired key bs)) =
      compareMaps drop mode (toMap key as) (toMap key bs) := by
  have split : ∀ S T : Finset (List κ), S.card = (S \ T).card + (S ∩ T).card := fun S T =>
    (Finset.card_sdiff_add_card_inter S T).symm
  have crossed : (toMap key as).keys ∩ (toMap key bs).keys =
      (toMap key bs).keys ∩ (toMap key as).keys := Finset.inter_comm _ _
  have some_ : ∀ {α : Type} (l : List α) (S : Finset (List κ)), S.card = l.length →
      (l ≠ [] ↔ S.Nonempty) := by
    intro α l S size
    rw [← Finset.card_pos, size, List.length_pos_iff]
  unfold Counts.ofParts compareMaps
  simp only [having_found uniqueA, ← card_inter uniqueA, ← card_sdiff uniqueA, ← card_sdiff uniqueB]
  congr 1
  · apply decide_eq_decide.2
    rw [some_ _ _ (card_sdiff uniqueA bs), some_ _ _ (card_sdiff uniqueB as), Fails,
      Finset.card_ne_zero]
  · exact (split _ _).symm
  · rw [crossed]
    exact (split _ _).symm

theorem foldl_observed (ms : List (Meeting Row)) (w : Walk) :
    (ms.foldl (Walk.meet drop mode) w).observed = w.observed ++ ms.filterMap Meeting.right? := by
  induction ms generalizing w with
  | nil => exact (List.append_nil _).symm
  | cons m rest ih =>
      rw [List.foldl_cons, ih]
      cases m with
      | left a => rfl
      | right b => exact List.append_assoc w.observed [b] _
      | both a b => rfl

variable (drop mode) in
/-- Over two streams in the order of their keys the diff counts what a comparison of the two maps
finds, and shows `onOnlyB` the rows of B only, in order. -/
theorem streamingDiff_sorted {as bs : List Row} (keyedA : ∀ a ∈ as, keyFn a = some (key a))
    (keyedB : ∀ b ∈ bs, keyFn b = some (key b)) (ascA : Ascending key as)
    (ascB : Ascending key bs) :
    ∃ w, streamingDiff drop mode keyFn as bs = some w ∧
      w.res.toCounts = compareMaps drop mode (toMap key as) (toMap key bs) ∧
      w.observed = bs.filter fun b => ((toMap key as).lookup (key b)).isNone := by
  refine ⟨_, walk_join keyedA keyedB .start, ?_, ?_⟩
  · have counts := foldl_counts drop mode (join key as bs) .start
    rw [join_left ascA ascB, join_right ascA ascB, join_both ascA ascB,
      ofParts_compare ascA.nodup ascB.nodup] at counts
    rw [counts]
    exact Counts.zero_add _
  · rw [foldl_observed, join_right ascA ascB]
    rfl

/-- A strict comparison passes if and only if the two tables have the same keys, with the same
normalized row at each. -/
theorem compareMaps_strict (A B : RowMap κ) :
    (compareMaps drop .strict A B).fail = false ↔
      A.keys = B.keys ∧ ∀ k a b, A.lookup k = some a → B.lookup k = some b →
        normRow a drop = normRow b drop := by
  have verdict : (compareMaps drop .strict A B).fail = false ↔ ¬ Fails drop .strict A B :=
    decide_eq_false_iff_not
  have is : ∀ a b, finding drop .strict a b = .mismatch ↔ normRow a drop ≠ normRow b drop := by
    intro a b
    unfold finding
    rw [ne_eq, normRow_inj]
    split <;> simp_all
  rw [verdict, Fails, not_or, not_or]
  constructor
  · rintro ⟨noneA, noneB, noMismatch⟩
    have keys : A.keys = B.keys := by
      apply Finset.Subset.antisymm
      · exact Finset.sdiff_eq_empty_iff_subset.1 (Finset.not_nonempty_iff_eq_empty.1 noneA)
      · refine Finset.sdiff_eq_empty_iff_subset.1 (Finset.not_nonempty_iff_eq_empty.1 ?_)
        exact fun some_ => noneB ⟨by decide, some_⟩
    refine ⟨keys, fun k a b atA atB => ?_⟩
    by_contra differ
    refine noMismatch ⟨k, Finset.mem_filter.2 ⟨?_, ?_⟩⟩
    · have inA : k ∈ A.keys := Finmap.mem_keys.2 (Finmap.mem_of_lookup_eq_some atA)
      exact Finset.mem_inter.2 ⟨inA, keys ▸ inA⟩
    · rw [findingAt, atA, atB]
      exact congrArg some ((is a b).2 differ)
  · rintro ⟨keys, rows⟩
    rw [keys]
    refine ⟨by simp, by simp, ?_⟩
    rintro ⟨k, mem⟩
    obtain ⟨_, at_⟩ := Finset.mem_filter.1 mem
    unfold findingAt at at_
    cases atA : A.lookup k with
    | none => rw [atA] at at_; cases at_
    | some a =>
        cases atB : B.lookup k with
        | none => rw [atA, atB] at at_; cases at_
        | some b =>
            rw [atA, atB] at at_
            exact (is a b).1 (Option.some.inj at_) (rows k a b atA atB)

/-! ## Samples -/

/-- Few samples, whatever is met. -/
def Res.Few (res : Res) : Prop := res.samples.length ≤ 6

theorem Res.Few.sample {res : Res} (few : res.Few) (kind : String) (text : List Nat) :
    (res.sample kind text).Few := by
  unfold Res.sample
  split
  next room =>
    show (res.samples ++ [_]).length ≤ 6
    rw [List.length_append, List.length_singleton]
    omega
  next => exact few

theorem Res.Few.addOnlyA {res : Res} (few : res.Few) (a : Row) :
    (res.addOnlyA drop mode a).Few := by
  unfold Res.addOnlyA
  split
  · apply Res.Few.sample
    exact few
  · exact few

theorem Res.Few.addOnlyB {res : Res} (few : res.Few) (b : Row) :
    (res.addOnlyB drop mode b).Few := by
  unfold Res.addOnlyB
  split
  · apply Res.Few.sample
    exact few
  · exact few

theorem Res.Few.addShared {res : Res} (few : res.Few) (a b : Row) :
    (res.addShared drop mode a b).Few := by
  unfold Res.addShared
  dsimp only
  split
  · split
    · exact few
    · split
      · exact few
      · split
        · exact few
        · apply Res.Few.sample
          apply Res.Few.sample
          exact few
  · exact few

/-- The diff keeps at most six samples, over any two streams. -/
theorem streamingDiff_few {as bs : List Row} (keyedA : ∀ a ∈ as, keyFn a = some (key a))
    (keyedB : ∀ b ∈ bs, keyFn b = some (key b)) {w : Walk}
    (walked : streamingDiff drop mode keyFn as bs = some w) : w.res.Few := by
  have run : walk drop mode keyFn as bs .start = _ := walk_join keyedA keyedB .start
  rw [← streamingDiff, walked, Option.some.injEq] at run
  rw [run]
  apply Folds.foldl_keeps (fun w : Walk => w.res.Few)
  · intro w m _ few
    cases m with
    | left a => exact few.addOnlyA a
    | right b => exact few.addOnlyB b
    | both a b => exact few.addShared a b
  · exact Nat.zero_le 6

end

end PortalPonder.Harness
