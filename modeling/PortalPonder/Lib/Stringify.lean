import Mathlib.Algebra.BigOperators.Group.List.Basic
import PortalPonder.Lib.Json

/-!
# Writing JSON

`JSON.stringify` as the language's standard describes it, without white space. The text is a
sequence of UTF-16 units. What is said of it is its length: the length of a list or of an object
is told by the lengths of its parts.
-/

namespace JSON

/-- A unit in four hexadecimal digits. -/
def hexUnits (u : Nat) : List Nat :=
  [u / 0x1000 % 16, u / 0x100 % 16, u / 0x10 % 16, u % 16].map fun d =>
    if d < 10 then '0'.toNat + d else 'a'.toNat + (d - 10)

def isHighSurrogate (u : Nat) : Bool := 0xD800 ≤ u && u ≤ 0xDBFF

def isLowSurrogate (u : Nat) : Bool := 0xDC00 ≤ u && u ≤ 0xDFFF

/-- A unit that stands alone. -/
def escapeUnit (u : Nat) : List Nat :=
  if u = '"'.toNat ∨ u = '\\'.toNat then ['\\'.toNat, u]
  else if u = 0x08 then ['\\'.toNat, 'b'.toNat]
  else if u = 0x09 then ['\\'.toNat, 't'.toNat]
  else if u = 0x0A then ['\\'.toNat, 'n'.toNat]
  else if u = 0x0C then ['\\'.toNat, 'f'.toNat]
  else if u = 0x0D then ['\\'.toNat, 'r'.toNat]
  else if u < 0x20 ∨ isHighSurrogate u = true ∨ isLowSurrogate u = true then
    ['\\'.toNat, 'u'.toNat] ++ hexUnits u
  else [u]

/-- The units of a string between its quotes. -/
def escaped : List Nat → List Nat
  | [] => []
  | [u] => escapeUnit u
  | u :: l :: us =>
      if isHighSurrogate u = true ∧ isLowSurrogate l = true then u :: l :: escaped us
      else escapeUnit u ++ escaped (l :: us)

def quoted (us : List Nat) : List Nat := '"'.toNat :: escaped us ++ ['"'.toNat]

/-- Parts between brackets, with commas between them. -/
def bracketed (opening closing : Char) (parts : List (List Nat)) : List Nat :=
  opening.toNat :: List.intercalate [','.toNat] parts ++ [closing.toNat]

mutual

def stringify : Value → List Nat
  | .null => units "null"
  | .bool true => units "true"
  | .bool false => units "false"
  | .num lexeme => lexeme.map Char.toNat
  | .str us => quoted us
  | .arr items => bracketed '[' ']' (itemTexts items)
  | .obj members => bracketed '{' '}' (memberTexts members)

def itemTexts : List Value → List (List Nat)
  | [] => []
  | v :: rest => stringify v :: itemTexts rest

def memberTexts : List (List Nat × Value) → List (List Nat)
  | [] => []
  | (key, v) :: rest => (quoted key ++ ':'.toNat :: stringify v) :: memberTexts rest

end

/-- A natural number, as it is written. -/
def ofNat (n : Nat) : Value := .num (Nat.toDigits 10 n)

/-! ## Lengths -/

/-- The parts, each with a separator. -/
def partsLength : List (List Nat) → Nat
  | [] => 0
  | p :: rest => p.length + 1 + partsLength rest

@[simp] theorem partsLength_nil : partsLength [] = 0 := rfl

@[simp] theorem partsLength_cons (p : List Nat) (rest : List (List Nat)) :
    partsLength (p :: rest) = p.length + 1 + partsLength rest := rfl

@[simp] theorem partsLength_append (a b : List (List Nat)) :
    partsLength (a ++ b) = partsLength a + partsLength b := by
  induction a with
  | nil => simp
  | cons p rest ih =>
      rw [List.cons_append, partsLength_cons, partsLength_cons, ih]
      omega

theorem intercalate_length (p : List Nat) (rest : List (List Nat)) :
    (List.intercalate [','.toNat] (p :: rest)).length + 1 = partsLength (p :: rest) := by
  induction rest generalizing p with
  | nil => simp [List.intercalate]
  | cons q rest ih =>
      have tail := ih q
      rw [List.intercalate_cons_of_ne_nil (by simp), partsLength_cons]
      simp only [List.length_append, List.length_singleton]
      omega

theorem bracketed_length (opening closing : Char) {parts : List (List Nat)} (some_ : parts ≠ []) :
    (bracketed opening closing parts).length = partsLength parts + 1 := by
  cases parts with
  | nil => exact absurd rfl some_
  | cons p rest =>
      have inner := intercalate_length p rest
      simp only [bracketed, List.length_cons, List.length_append, List.length_nil]
      omega

theorem bracketed_nil_length (opening closing : Char) :
    (bracketed opening closing []).length = 2 := rfl

/-- Fewer or shorter parts give a shorter text. -/
theorem bracketed_length_le (opening closing : Char) {parts parts' : List (List Nat)}
    (le : partsLength parts ≤ partsLength parts') :
    (bracketed opening closing parts).length ≤ (bracketed opening closing parts').length := by
  cases parts with
  | nil =>
      rw [bracketed_nil_length]
      cases parts' with
      | nil => exact Nat.le_refl 2
      | cons p rest =>
          rw [bracketed_length _ _ (by simp)]
          simp only [partsLength_cons]
          omega
  | cons p rest =>
      have some_ : parts' ≠ [] := by
        rintro rfl
        simp at le
      rw [bracketed_length _ _ (by simp), bracketed_length _ _ some_]
      omega

theorem part_length_le (opening closing : Char) {parts : List (List Nat)} {p : List Nat}
    (mem : p ∈ parts) : p.length ≤ (bracketed opening closing parts).length := by
  have inside : p.length ≤ partsLength parts := by
    induction parts with
    | nil => cases mem
    | cons q rest ih =>
        rw [partsLength_cons]
        rcases List.mem_cons.1 mem with rfl | later
        · omega
        · have tail := ih later
          omega
  rw [bracketed_length _ _ (List.ne_nil_of_mem mem)]
  omega

theorem mem_memberTexts {ms : List (List Nat × Value)} {key : List Nat} {v : Value}
    (mem : (key, v) ∈ ms) : quoted key ++ ':'.toNat :: stringify v ∈ memberTexts ms := by
  induction ms with
  | nil => cases mem
  | cons m rest ih =>
      rcases List.mem_cons.1 mem with rfl | later
      · exact List.mem_cons_self
      · exact List.mem_cons_of_mem _ (ih later)

theorem mem_itemTexts {vs : List Value} {v : Value} (mem : v ∈ vs) :
    stringify v ∈ itemTexts vs := by
  induction vs with
  | nil => cases mem
  | cons w rest ih =>
      rcases List.mem_cons.1 mem with rfl | later
      · exact List.mem_cons_self
      · exact List.mem_cons_of_mem _ (ih later)

/-- A member is no longer than its object. -/
theorem member_length_le {ms : List (List Nat × Value)} {key : List Nat} {v : Value}
    (mem : (key, v) ∈ ms) : (stringify v).length ≤ (stringify (.obj ms)).length := by
  have part := part_length_le '{' '}' (mem_memberTexts mem)
  simp only [List.length_append, List.length_cons] at part
  exact Nat.le_trans (by omega) part

/-- An item is no longer than its list. -/
theorem item_length_le {vs : List Value} {v : Value} (mem : v ∈ vs) :
    (stringify v).length ≤ (stringify (.arr vs)).length :=
  part_length_le '[' ']' (mem_itemTexts mem)

theorem itemTexts_replicate (n : Nat) (v : Value) :
    partsLength (itemTexts (List.replicate n v)) = n * ((stringify v).length + 1) := by
  induction n with
  | zero => simp [itemTexts]
  | succ n ih =>
      rw [List.replicate_succ, itemTexts, partsLength_cons, ih, Nat.succ_mul]
      omega

theorem memberTexts_append (a b : List (List Nat × Value)) :
    memberTexts (a ++ b) = memberTexts a ++ memberTexts b := by
  induction a with
  | nil => simp [memberTexts]
  | cons m rest ih => simp [memberTexts, ih]

theorem ofNat_length {n k : Nat} (pos : 0 < k) (small : n < 10 ^ k) :
    (stringify (ofNat n)).length ≤ k := by
  rw [ofNat, stringify, List.length_map]
  exact (Nat.length_toDigits_le_iff (by decide) pos).2 small

end JSON
