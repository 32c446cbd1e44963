import Mathlib.Data.List.Lex
import Mathlib.Data.List.Sort
import PortalPonder.Lib.OrdMap
import PortalPonder.Lib.Readable

/-!
# Rows of the sync store

What a query of the store diff gives for a row, the text a row is compared by, the key it is ordered
by, and the differences between two rows that are known and tolerated.

Texts are sequences of UTF-16 units. The columns of the sync store hold no other numbers than
integers.
-/

namespace PortalPonder.Harness

open JSON (Value units stringify)

inductive Cell where
  | null
  | bool (b : Bool)
  | number (n : Int)
  | bigint (n : Int)
  | text (us : List Nat)
  | bytes (data : List UInt8)
  deriving DecidableEq, Repr

abbrev Row := OrdMap String Cell

/-- An integer as it is written. -/
def decimal (n : Int) : JSON.Text :=
  if n < 0 then '-' :: Nat.toDigits 10 n.natAbs else Nat.toDigits 10 n.natAbs

def hex (data : List UInt8) : JSON.Text :=
  data.flatMap fun b => [Nat.digitChar (b.toNat / 16), Nat.digitChar (b.toNat % 16)]

/-! ## The text of a row -/

/-- A cell of a normalized row. -/
inductive Scalar where
  | null
  | bool (b : Bool)
  | num (n : Int)
  | str (us : List Nat)
  deriving DecidableEq, Repr

namespace Scalar

def toJson : Scalar → Value
  | .null => .null
  | .bool b => .bool b
  | .num n => .num (decimal n)
  | .str us => .str us

end Scalar

def normCell : Cell → Scalar
  | .null => .null
  | .bool b => .bool b
  | .number n => .num n
  | .bigint n => .str ((decimal n).map Char.toNat)
  | .text us => .str us
  | .bytes data => .str ((hex data).map Char.toNat)

/-- A normalized row: the columns that are not dropped, sorted by name. -/
abbrev NormObject := List (List Nat × Scalar)

def normObject (row : Row) (drop : List String) : NormObject :=
  ((row.entries.filter fun e => e.1 ∉ drop).map fun e => (units e.1, normCell e.2)).insertionSort
    fun e f => e.1 ≤ f.1

def textOf (o : NormObject) : List Nat := stringify (.obj (o.map fun e => (e.1, e.2.toJson)))

def normRow (row : Row) (drop : List String) : List Nat := textOf (normObject row drop)

/-- `o[name]` -/
def field (o : NormObject) (name : String) : Option Scalar :=
  (o.find? fun e => e.1 = units name).map Prod.snd

/-! ## Keys -/

section

variable {κ : Type} [LinearOrder κ]

/-- Lexicographic compare of two composite keys. -/
def cmpKey : List κ → List κ → Int
  | x :: a, y :: b => if x < y then -1 else if y < x then 1 else cmpKey a b
  | a, b => a.length - b.length

theorem cmpKey_cons (x y : κ) (a b : List κ) :
    cmpKey (x :: a) (y :: b) = if x < y then -1 else if y < x then 1 else cmpKey a b := rfl

/-- The comparison is the order of the keys as lists. -/
theorem cmpKey_spec (a b : List κ) :
    (cmpKey a b < 0 ↔ a < b) ∧ (0 < cmpKey a b ↔ b < a) := by
  induction a generalizing b with
  | nil =>
      cases b with
      | nil => simp [cmpKey]
      | cons y b =>
          have shorter : cmpKey [] (y :: b) = -((b.length : Int) + 1) := by simp [cmpKey]
          rw [shorter]
          refine ⟨⟨fun _ => List.nil_lt_cons y b, fun _ => by omega⟩, ?_, ?_⟩
          · intro pos
            omega
          · intro lt
            exact absurd lt (List.not_lt_nil _)
  | cons x a ih =>
      cases b with
      | nil =>
          have longer : cmpKey (x :: a) [] = (a.length : Int) + 1 := by simp [cmpKey]
          rw [longer]
          refine ⟨⟨fun neg => by omega, ?_⟩, fun _ => List.nil_lt_cons x a, fun _ => by omega⟩
          intro lt
          exact absurd lt (List.not_lt_nil _)
      | cons y b =>
          obtain ⟨below, above⟩ := ih b
          rw [cmpKey_cons, List.cons_lt_cons_iff, List.cons_lt_cons_iff]
          rcases lt_trichotomy x y with lt | rfl | gt
          · rw [if_pos lt]
            have notAbove : ¬ y < x := lt_asymm lt
            have apart : y ≠ x := ne_of_gt lt
            simp [lt, notAbove, apart]
          · rw [if_neg (lt_irrefl x), if_neg (lt_irrefl x)]
            simp [below, above]
          · have notBelow : ¬ x < y := lt_asymm gt
            have apart : x ≠ y := ne_of_gt gt
            rw [if_neg notBelow, if_pos gt]
            simp [gt, notBelow, apart]

theorem cmpKey_neg {a b : List κ} : cmpKey a b < 0 ↔ a < b := (cmpKey_spec a b).1

theorem cmpKey_pos {a b : List κ} : 0 < cmpKey a b ↔ b < a := (cmpKey_spec a b).2

end

/-- White space and line ends of ECMAScript. -/
def isBlank (u : Nat) : Bool :=
  (0x09 ≤ u && u ≤ 0x0D) || u = 0x20 || u = 0xA0 || u = 0x1680 || (0x2000 ≤ u && u ≤ 0x200A) ||
    u = 0x2028 || u = 0x2029 || u = 0x202F || u = 0x205F || u = 0x3000 || u = 0xFEFF

def trim (us : List Nat) : List Nat :=
  ((us.dropWhile isBlank).reverse.dropWhile isBlank).reverse

def digit (base u : Nat) : Option Nat :=
  let d :=
    if '0'.toNat ≤ u ∧ u ≤ '9'.toNat then some (u - '0'.toNat)
    else if 'a'.toNat ≤ u ∧ u ≤ 'z'.toNat then some (u - 'a'.toNat + 10)
    else if 'A'.toNat ≤ u ∧ u ≤ 'Z'.toNat then some (u - 'A'.toNat + 10)
    else none
  d.filter (· < base)

/-- One digit or more. -/
def digits (base : Nat) (us : List Nat) : Option Int :=
  if us = [] then none
  else (us.mapM (digit base)).map fun ds => ((ds.foldl (fun n d => n * base + d) 0 : Nat) : Int)

/-- The integer a text stands for, as `BigInt` reads it. -/
def readInt (text : List Nat) : Option Int :=
  match trim text with
  | [] => some 0
  | z :: p :: us =>
      if z = '0'.toNat ∧ (p = 'x'.toNat ∨ p = 'X'.toNat) then digits 16 us
      else if z = '0'.toNat ∧ (p = 'o'.toNat ∨ p = 'O'.toNat) then digits 8 us
      else if z = '0'.toNat ∧ (p = 'b'.toNat ∨ p = 'B'.toNat) then digits 2 us
      else if z = '-'.toNat then (digits 10 (p :: us)).map fun n => -n
      else if z = '+'.toNat then digits 10 (p :: us)
      else digits 10 (z :: p :: us)
  | us => digits 10 us

/-- `toBig`: `BigInt`, which throws on `null` and on a text that is no integer. It reads an array of
bytes as the text of the array. -/
def toBig : Cell → Option Int
  | .bigint n => some n
  | .number n => some n
  | .bool b => some (if b then 1 else 0)
  | .text us => readInt us
  | .bytes data =>
      readInt (List.intercalate [','.toNat]
        (data.map fun b => (Nat.toDigits 10 b.toNat).map Char.toNat))
  | .null => none

/-- `keyFnFor` -/
def keyFnFor (keys : List String) (row : Row) : Option (List Int) :=
  keys.mapM fun k => (row.get? k).bind toBig

/-! ## Tolerated differences -/

/-- The only field in which two normalized rows differ. -/
def soleDiffField (p r : NormObject) : Option (List Nat) :=
  match ((p.map Prod.fst ++ r.map Prod.fst).eraseDups).filter fun k =>
      (p.find? fun e => e.1 = k).map Prod.snd ≠ (r.find? fun e => e.1 = k).map Prod.snd with
  | [k] => some k
  | _ => none

/-- Both rows carry a present, equal `hash`. -/
def anchored (p r : NormObject) : Bool :=
  field p "hash" ≠ some .null && field p "hash" ≠ none && field p "hash" ≠ some (.str []) &&
    field p "hash" = field r "hash"

/-- `Number` of a chain id. A text with a point or an exponent is none. -/
def chainNumber : Option Scalar → Option Int
  | none => none
  | some .null => some 0
  | some (.bool b) => some (if b then 1 else 0)
  | some (.num n) => some n
  | some (.str us) => readInt us

def sizeOnlyDiffTolerated (p r : NormObject) : Bool :=
  soleDiffField p r = some (units "size") && anchored p r

/-- The chains on which an absent base fee is coerced to 0 by the RPC sync. -/
def BASE_FEE_PRELONDON_CHAINS : List Int := [1]

def baseFeeNullVsZeroTolerated (p r : NormObject) : Bool :=
  (chainNumber (field p "chain_id")).any (· ∈ BASE_FEE_PRELONDON_CHAINS) &&
    soleDiffField p r = some (units "base_fee_per_gas") &&
    field p "base_fee_per_gas" = some .null &&
    field r "base_fee_per_gas" = some (.str (units "0")) && anchored p r

/-- The chains whose dataset drops `transactions.access_list`. -/
def ACCESS_LIST_GAP_CHAINS : List Int := [8453, 42161, 43114]

def accessListColumnGapTolerated (p r : NormObject) : Bool :=
  (chainNumber (field p "chain_id")).any (· ∈ ACCESS_LIST_GAP_CHAINS) &&
    soleDiffField p r = some (units "access_list") && field p "access_list" = some .null

/-! ## The text tells the row -/

theorem decimal_written (n : Int) : JSON.Written (.num (decimal n)) := by
  have digit : ∀ c ∈ Nat.toDigits 10 n.natAbs, JSON.isNumericUnit c.toNat = true := fun c mem =>
    JSON.isNumericUnit_digit (Nat.isDigit_of_mem_toDigits (by decide) (by decide) mem)
  have some_ : Nat.toDigits 10 n.natAbs ≠ [] := by
    intro empty
    have pos : 0 < (Nat.toDigits 10 n.natAbs).length := Nat.length_toDigits_pos
    rw [empty] at pos
    exact absurd pos (Nat.lt_irrefl 0)
  unfold decimal
  by_cases neg : n < 0
  · rw [if_pos neg]
    refine ⟨by simp, fun c mem => ?_⟩
    rcases List.mem_cons.1 mem with rfl | later
    · rfl
    · exact digit c later
  · rw [if_neg neg]
    exact ⟨some_, digit⟩

theorem decimal_injective {n m : Int} (same : decimal n = decimal m) : n = m := by
  have noSign : ∀ k : Nat, '-' ∉ Nat.toDigits 10 k := by
    intro k mem
    have digit := Nat.isDigit_of_mem_toDigits (by decide) (by decide) mem
    revert digit
    decide
  unfold decimal at same
  by_cases neg : n < 0
  · by_cases neg' : m < 0
    · rw [if_pos neg, if_pos neg'] at same
      have abs := JSON.toDigits_injective (List.cons.inj same).2
      omega
    · rw [if_pos neg, if_neg neg'] at same
      have sign : '-' ∈ Nat.toDigits 10 m.natAbs := by
        rw [← same]
        exact List.mem_cons_self
      exact absurd sign (noSign m.natAbs)
  · by_cases neg' : m < 0
    · rw [if_neg neg, if_pos neg'] at same
      have sign : '-' ∈ Nat.toDigits 10 n.natAbs := by
        rw [same]
        exact List.mem_cons_self
      exact absurd sign (noSign n.natAbs)
    · rw [if_neg neg, if_neg neg'] at same
      have abs := JSON.toDigits_injective same
      omega

namespace Scalar

theorem toJson_written (s : Scalar) : JSON.Written s.toJson := by
  cases s with
  | null => trivial
  | bool b => trivial
  | num n => exact decimal_written n
  | str us => trivial

theorem toJson_injective {s t : Scalar} (same : s.toJson = t.toJson) : s = t := by
  cases s with
  | null => cases t <;> first | rfl | cases same
  | bool b =>
      cases t with
      | bool b' => exact congrArg Scalar.bool (Value.bool.inj same)
      | null | num _ | str _ => cases same
  | num n =>
      cases t with
      | num n' => exact congrArg Scalar.num (decimal_injective (Value.num.inj same))
      | null | bool _ | str _ => cases same
  | str us =>
      cases t with
      | str us' => exact congrArg Scalar.str (Value.str.inj same)
      | null | bool _ | num _ => cases same

end Scalar

theorem textOf_written (o : NormObject) :
    JSON.Written (.obj (o.map fun e => (e.1, e.2.toJson))) := by
  show JSON.MembersWritten (o.map fun e => (e.1, e.2.toJson))
  induction o with
  | nil => trivial
  | cons e rest ih => exact ⟨e.2.toJson_written, ih⟩

/-- Two normalized rows of one text are one: what `JSON.parse` makes of the text is the row. -/
theorem textOf_injective {o o' : NormObject} (same : textOf o = textOf o') : o = o' := by
  have objects := JSON.stringify_injective (textOf_written o) (textOf_written o') same
  refine List.map_injective_iff.2 ?_ (Value.obj.inj objects)
  intro e f is
  obtain ⟨names, cells⟩ := Prod.mk.inj is
  exact Prod.ext names (Scalar.toJson_injective cells)

theorem normRow_inj {row row' : Row} {drop drop' : List String} :
    normRow row drop = normRow row' drop' ↔ normObject row drop = normObject row' drop' :=
  ⟨textOf_injective, congrArg textOf⟩

end PortalPonder.Harness
