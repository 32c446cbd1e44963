import PortalPonder.Lib.Stringify

/-!
# JSON texts are uniquely readable

What `JSON.stringify` writes tells the value and where it ends: two values with the same text are
the same, also when something follows the texts. Strings are read back by `unescape`; a number ends
where no character of a number follows, which is why what follows must not start with one.
-/

namespace JSON

/-! ## Strings -/

def unhex (d : Nat) : Nat := if d < 'a'.toNat then d - '0'.toNat else d - 'a'.toNat + 10

/-- The unit of a one-letter escape. -/
def unescapeLetter (e : Nat) : Nat :=
  if e = 'b'.toNat then 0x08
  else if e = 't'.toNat then 0x09
  else if e = 'n'.toNat then 0x0A
  else if e = 'f'.toNat then 0x0C
  else if e = 'r'.toNat then 0x0D
  else e

/-- The units up to the closing quote, and what follows it. -/
def unescape : List Nat → Option (List Nat × List Nat)
  | [] => none
  | c :: s =>
      if c = '"'.toNat then some ([], s)
      else if c = '\\'.toNat then
        match s with
        | [] => none
        | e :: s =>
            if e = 'u'.toNat then
              match s with
              | a :: b :: c :: d :: s =>
                  (unescape s).map fun t =>
                    ((((unhex a * 16 + unhex b) * 16 + unhex c) * 16 + unhex d) :: t.1, t.2)
              | _ => none
            else (unescape s).map fun t => (unescapeLetter e :: t.1, t.2)
      else (unescape s).map fun t => (c :: t.1, t.2)

theorem unhex_hexUnits {u : Nat} (small : u < 0x10000) :
    ∃ a b c d, hexUnits u = [a, b, c, d] ∧
      ((unhex a * 16 + unhex b) * 16 + unhex c) * 16 + unhex d = u := by
  have digit : ∀ d < 16, unhex (if d < 10 then '0'.toNat + d else 'a'.toNat + (d - 10)) = d := by
    decide
  refine ⟨_, _, _, _, rfl, ?_⟩
  rw [digit _ (Nat.mod_lt _ (by decide)), digit _ (Nat.mod_lt _ (by decide)),
    digit _ (Nat.mod_lt _ (by decide)), digit _ (Nat.mod_lt _ (by decide))]
  omega

theorem unescape_plain {u : Nat} (quote : u ≠ '"'.toNat) (slash : u ≠ '\\'.toNat) (s : List Nat) :
    unescape (u :: s) = (unescape s).map fun t => (u :: t.1, t.2) := by
  rw [unescape.eq_def]
  dsimp only
  rw [if_neg quote, if_neg slash]

theorem unescape_quote (s : List Nat) : unescape ('"'.toNat :: s) = some ([], s) := by
  rw [unescape.eq_def]
  dsimp only
  rw [if_pos rfl]

theorem unescape_letter {e : Nat} (other : e ≠ 'u'.toNat) (s : List Nat) :
    unescape ('\\'.toNat :: e :: s) = (unescape s).map fun t => (unescapeLetter e :: t.1, t.2) := by
  rw [unescape.eq_def]
  dsimp only
  rw [if_neg (by decide), if_pos rfl, if_neg other]

/-- The token of a unit is read back as the unit. -/
theorem unescape_escapeUnit (u : Nat) (s : List Nat) :
    unescape (escapeUnit u ++ s) = (unescape s).map fun t => (u :: t.1, t.2) := by
  unfold escapeUnit
  by_cases quote : u = '"'.toNat ∨ u = '\\'.toNat
  · rw [if_pos quote]
    have other : u ≠ 'u'.toNat := by
      rcases quote with rfl | rfl <;> decide
    have same : unescapeLetter u = u := by
      rcases quote with rfl | rfl <;> decide
    rw [List.cons_append, List.cons_append, List.nil_append, unescape_letter other, same]
  rw [if_neg quote]
  obtain ⟨noQuote, noSlash⟩ := not_or.1 quote
  by_cases isB : u = 0x08
  · subst isB
    exact unescape_letter (by decide) s
  rw [if_neg isB]
  by_cases isT : u = 0x09
  · subst isT
    exact unescape_letter (by decide) s
  rw [if_neg isT]
  by_cases isN : u = 0x0A
  · subst isN
    exact unescape_letter (by decide) s
  rw [if_neg isN]
  by_cases isF : u = 0x0C
  · subst isF
    exact unescape_letter (by decide) s
  rw [if_neg isF]
  by_cases isR : u = 0x0D
  · subst isR
    exact unescape_letter (by decide) s
  rw [if_neg isR]
  by_cases hex : u < 0x20 ∨ isHighSurrogate u = true ∨ isLowSurrogate u = true
  · rw [if_pos hex]
    have small : u < 0x10000 := by
      unfold isHighSurrogate isLowSurrogate at hex
      simp only [Bool.and_eq_true, decide_eq_true_eq] at hex
      omega
    obtain ⟨a, b, c, d, is, back⟩ := unhex_hexUnits small
    rw [is]
    show unescape ('\\'.toNat :: 'u'.toNat :: a :: b :: c :: d :: s) = _
    rw [unescape.eq_def]
    dsimp only
    rw [if_neg (by decide), if_pos rfl, if_pos rfl, back]
  · rw [if_neg hex]
    exact unescape_plain noQuote noSlash s

/-- The text of a string is read back. -/
theorem unescape_escaped (us s : List Nat) :
    unescape (escaped us ++ '"'.toNat :: s) = some (us, s) := by
  induction us using escaped.induct with
  | case1 => exact unescape_quote s
  | case2 u =>
      unfold escaped
      rw [unescape_escapeUnit, unescape_quote]
      rfl
  | case3 u l us pair ih =>
      unfold escaped
      rw [if_pos pair]
      have plain : ∀ x, isHighSurrogate x = true ∨ isLowSurrogate x = true →
          x ≠ '"'.toNat ∧ x ≠ '\\'.toNat := by
        intro x surrogate
        unfold isHighSurrogate isLowSurrogate at surrogate
        simp only [Bool.and_eq_true, decide_eq_true_eq] at surrogate
        have quote : '"'.toNat = 34 := rfl
        have slash : '\\'.toNat = 92 := rfl
        omega
      rw [List.cons_append, List.cons_append, unescape_plain (plain u (.inl pair.1)).1
        (plain u (.inl pair.1)).2, unescape_plain (plain l (.inr pair.2)).1
        (plain l (.inr pair.2)).2, ih]
      rfl
  | case4 u l us single ih =>
      unfold escaped
      rw [if_neg single, List.append_assoc, unescape_escapeUnit, ih]
      rfl

/-- A quoted string ends where it is closed. -/
theorem quoted_unique {us us' s s' : List Nat} (same : quoted us ++ s = quoted us' ++ s') :
    us = us' ∧ s = s' := by
  unfold quoted at same
  rw [List.cons_append, List.cons_append, List.append_assoc, List.append_assoc] at same
  have inner : escaped us ++ '"'.toNat :: s = escaped us' ++ '"'.toNat :: s' :=
    List.tail_eq_of_cons_eq same
  have read := congrArg unescape inner
  rw [unescape_escaped, unescape_escaped, Option.some.injEq, Prod.mk.injEq] at read
  exact read

/-! ## Values -/

/-- A unit of a number. -/
def isNumericUnit (u : Nat) : Bool :=
  ('0'.toNat ≤ u && u ≤ '9'.toNat) || u = '-'.toNat || u = '+'.toNat || u = '.'.toNat ||
    u = 'e'.toNat || u = 'E'.toNat

theorem isNumericUnit_digit {c : Char} (digit : c.isDigit = true) :
    isNumericUnit c.toNat = true := by
  unfold Char.isDigit at digit
  simp only [Bool.and_eq_true, decide_eq_true_eq] at digit
  have low : '0'.toNat ≤ c.toNat := digit.1
  have high : c.toNat ≤ '9'.toNat := digit.2
  unfold isNumericUnit
  simp only [Bool.or_eq_true, Bool.and_eq_true, decide_eq_true_eq]
  exact .inl (.inl (.inl (.inl (.inl ⟨low, high⟩))))

theorem toDigits_injective {n m : Nat} (same : Nat.toDigits 10 n = Nat.toDigits 10 m) : n = m := by
  have back : Nat.ofDigitChars 10 (Nat.toDigits 10 n) 0 =
      Nat.ofDigitChars 10 (Nat.toDigits 10 m) 0 := by
    rw [same]
  rw [Nat.ofDigitChars_ten_toDigits, Nat.ofDigitChars_ten_toDigits] at back
  exact back

/-- What follows does not go on with a number. -/
def Stops (s : List Nat) : Prop := ∀ u ∈ s.head?, isNumericUnit u = false

mutual

/-- Every number has a lexeme, of the characters of numbers. -/
def Written : Value → Prop
  | .null => True
  | .bool _ => True
  | .num lexeme => lexeme ≠ [] ∧ ∀ c ∈ lexeme, isNumericUnit c.toNat = true
  | .str _ => True
  | .arr items => ItemsWritten items
  | .obj members => MembersWritten members

def ItemsWritten : List Value → Prop
  | [] => True
  | v :: rest => Written v ∧ ItemsWritten rest

def MembersWritten : List (List Nat × Value) → Prop
  | [] => True
  | (_, v) :: rest => Written v ∧ MembersWritten rest

end

/-- What comes behind the first item of a list, or behind the opening bracket of one that has none:
the items to come, each behind a comma, and the closing bracket. -/
def closing (bracket : Char) : List (List Nat) → List Nat
  | [] => [bracket.toNat]
  | part :: rest => ','.toNat :: part ++ closing bracket rest

theorem bracketed_cons (left right : Char) (part : List Nat) (rest : List (List Nat)) :
    bracketed left right (part :: rest) = left.toNat :: (part ++ closing right rest) := by
  unfold bracketed
  rw [List.cons_append]
  congr 1
  induction rest generalizing part with
  | nil => simp [closing, List.intercalate]
  | cons next rest ih =>
      have tail := ih next
      rw [List.intercalate_cons_of_ne_nil (by simp), List.append_assoc, List.append_assoc, tail]
      rfl

theorem bracketed_nil (left right : Char) :
    bracketed left right [] = left.toNat :: closing right [] := rfl

/-- The unit that a value starts with tells its kind. -/
inductive Opens : Value → Nat → Prop
  | null : Opens .null 'n'.toNat
  | yes : Opens (.bool true) 't'.toNat
  | no : Opens (.bool false) 'f'.toNat
  | num {lexeme : Text} {u : Nat} (numeric : isNumericUnit u = true) : Opens (.num lexeme) u
  | str {us : List Nat} : Opens (.str us) '"'.toNat
  | arr {items : List Value} : Opens (.arr items) '['.toNat
  | obj {members : List (List Nat × Value)} : Opens (.obj members) '{'.toNat

theorem opens_stringify {v : Value} (written : Written v) :
    ∃ u s, stringify v = u :: s ∧ Opens v u := by
  cases v with
  | null => exact ⟨_, _, rfl, .null⟩
  | bool b =>
      cases b with
      | true => exact ⟨_, _, rfl, .yes⟩
      | false => exact ⟨_, _, rfl, .no⟩
  | num lexeme =>
      unfold Written at written
      cases lexeme with
      | nil => exact absurd rfl written.1
      | cons c cs => exact ⟨_, _, rfl, .num (written.2 c List.mem_cons_self)⟩
  | str us => exact ⟨_, _, rfl, .str⟩
  | arr items => exact ⟨_, _, rfl, .arr⟩
  | obj members => exact ⟨_, _, rfl, .obj⟩

/-- A number ends where what follows stops. -/
theorem numeric_unique {us us' s s' : List Nat} (numeric : ∀ u ∈ us, isNumericUnit u = true)
    (numeric' : ∀ u ∈ us', isNumericUnit u = true) (stops : Stops s) (stops' : Stops s')
    (same : us ++ s = us' ++ s') : us = us' ∧ s = s' := by
  induction us generalizing us' with
  | nil =>
      cases us' with
      | nil => exact ⟨rfl, same⟩
      | cons u us' =>
          rw [List.nil_append, List.cons_append] at same
          have here := stops u (by rw [same]; rfl)
          rw [numeric' u List.mem_cons_self] at here
          cases here
  | cons u us ih =>
      cases us' with
      | nil =>
          rw [List.nil_append, List.cons_append] at same
          have here := stops' u (by rw [← same]; rfl)
          rw [numeric u List.mem_cons_self] at here
          cases here
      | cons u' us' =>
          obtain ⟨rfl, rest⟩ := List.cons.inj same
          obtain ⟨rfl, rfl⟩ := ih (fun u mem => numeric u (List.mem_cons_of_mem _ mem))
            (fun u mem => numeric' u (List.mem_cons_of_mem _ mem)) rest
          exact ⟨rfl, rfl⟩

/-- Two values that start alike are of one kind. -/
inductive SameKind : Value → Value → Prop
  | null : SameKind .null .null
  | bool (b : Bool) : SameKind (.bool b) (.bool b)
  | num (lexeme lexeme' : Text) : SameKind (.num lexeme) (.num lexeme')
  | str (us us' : List Nat) : SameKind (.str us) (.str us')
  | arr (items items' : List Value) : SameKind (.arr items) (.arr items')
  | obj (members members' : List (List Nat × Value)) : SameKind (.obj members) (.obj members')

theorem sameKind_of_opens {v w : Value} {u : Nat} (opens : Opens v u) (opens' : Opens w u) :
    SameKind v w := by
  cases opens with
  | num is =>
      cases opens' with
      | num is' => exact .num _ _
      | _ => cases is
  | null => cases opens' with
      | null => exact .null
      | num is' => cases is'
  | yes => cases opens' with
      | yes => exact .bool true
      | num is' => cases is'
  | no => cases opens' with
      | no => exact .bool false
      | num is' => cases is'
  | str => cases opens' with
      | str => exact .str _ _
      | num is' => cases is'
  | arr => cases opens' with
      | arr => exact .arr _ _
      | num is' => cases is'
  | obj => cases opens' with
      | obj => exact .obj _ _
      | num is' => cases is'

theorem sameKind_of_texts {v w : Value} (written : Written v) (written' : Written w)
    {s s' : List Nat} (same : stringify v ++ s = stringify w ++ s') : SameKind v w := by
  obtain ⟨u, t, is, opens⟩ := opens_stringify written
  obtain ⟨u', t', is', opens'⟩ := opens_stringify written'
  rw [is, is'] at same
  obtain ⟨rfl, -⟩ := List.cons.inj same
  exact sameKind_of_opens opens opens'

theorem closing_stops {bracket : Char} (other : isNumericUnit bracket.toNat = false)
    (parts : List (List Nat)) (s : List Nat) : Stops (closing bracket parts ++ s) := by
  intro u head
  cases parts with
  | nil =>
      cases head
      exact other
  | cons part rest =>
      cases head
      decide

/-- A part does not start as the closing bracket. -/
theorem closing_of_bracketed {left right : Char} {parts parts' : List (List Nat)} {s s' : List Nat}
    (opens : ∀ part ∈ parts, ∃ u t, part = u :: t ∧ u ≠ right.toNat)
    (opens' : ∀ part ∈ parts', ∃ u t, part = u :: t ∧ u ≠ right.toNat)
    (same : bracketed left right parts ++ s = bracketed left right parts' ++ s') :
    closing right parts ++ s = closing right parts' ++ s' := by
  cases parts with
  | nil =>
      cases parts' with
      | nil => exact (List.cons.inj same).2
      | cons part rest =>
          obtain ⟨u, t, rfl, differs⟩ := opens' part List.mem_cons_self
          rw [bracketed_nil, bracketed_cons] at same
          exact absurd (List.cons.inj (List.cons.inj same).2).1.symm differs
  | cons part rest =>
      cases parts' with
      | nil =>
          obtain ⟨u, t, rfl, differs⟩ := opens part List.mem_cons_self
          rw [bracketed_nil, bracketed_cons] at same
          exact absurd (List.cons.inj (List.cons.inj same).2).1 differs
      | cons part' rest' =>
          rw [bracketed_cons, bracketed_cons] at same
          exact congrArg (','.toNat :: ·) (List.cons.inj same).2

theorem itemTexts_opens {items : List Value} (written : ItemsWritten items) :
    ∀ part ∈ itemTexts items, ∃ u t, part = u :: t ∧ u ≠ ']'.toNat := by
  induction items with
  | nil =>
      intro part mem
      cases mem
  | cons v rest ih =>
      unfold ItemsWritten at written
      intro part mem
      rcases List.mem_cons.1 mem with rfl | later
      · obtain ⟨u, t, is, opens⟩ := opens_stringify written.1
        refine ⟨u, t, is, ?_⟩
        rintro rfl
        cases opens with
        | num numeric => cases numeric
      · exact ih written.2 part later

theorem memberTexts_opens {members : List (List Nat × Value)} :
    ∀ part ∈ memberTexts members, ∃ u t, part = u :: t ∧ u ≠ '\x7d'.toNat := by
  induction members with
  | nil =>
      intro part mem
      cases mem
  | cons m rest ih =>
      obtain ⟨key, v⟩ := m
      intro part mem
      rcases List.mem_cons.1 mem with rfl | later
      · exact ⟨_, _, rfl, by decide⟩
      · exact ih part later

theorem map_toNat_inj {a b : Text} (same : a.map Char.toNat = b.map Char.toNat) : a = b :=
  List.map_injective_iff.2 (fun _ _ => Char.toNat_inj.1) same

mutual

/-- A text is one of one value, and it ends at one place. -/
theorem stringify_unique (v w : Value) (written : Written v) (written' : Written w)
    (s s' : List Nat) (stops : Stops s) (stops' : Stops s')
    (same : stringify v ++ s = stringify w ++ s') : v = w ∧ s = s' := by
  match v, w, sameKind_of_texts written written' same with
  | _, _, .null => exact ⟨rfl, List.append_cancel_left same⟩
  | _, _, .bool b => exact ⟨rfl, List.append_cancel_left same⟩
  | _, _, .num lexeme lexeme' =>
      unfold Written at written written'
      have numeric : ∀ (l : Text), (∀ c ∈ l, isNumericUnit c.toNat = true) →
          ∀ u ∈ l.map Char.toNat, isNumericUnit u = true := by
        intro l all u mem
        obtain ⟨c, here, rfl⟩ := List.mem_map.1 mem
        exact all c here
      obtain ⟨lexemes, rest⟩ := numeric_unique (numeric _ written.2) (numeric _ written'.2) stops
        stops' same
      exact ⟨congrArg Value.num (map_toNat_inj lexemes), rest⟩
  | _, _, .str us us' =>
      obtain ⟨rfl, rest⟩ := quoted_unique same
      exact ⟨rfl, rest⟩
  | _, _, .arr items items' =>
      unfold Written at written written'
      obtain ⟨rfl, rest⟩ := items_unique items items' written written' s s'
        (closing_of_bracketed (itemTexts_opens written) (itemTexts_opens written') same)
      exact ⟨rfl, rest⟩
  | _, _, .obj members members' =>
      unfold Written at written written'
      obtain ⟨rfl, rest⟩ := members_unique members members' written written' s s'
        (closing_of_bracketed memberTexts_opens memberTexts_opens same)
      exact ⟨rfl, rest⟩

theorem items_unique (items items' : List Value) (written : ItemsWritten items)
    (written' : ItemsWritten items') (s s' : List Nat)
    (same : closing ']' (itemTexts items) ++ s = closing ']' (itemTexts items') ++ s') :
    items = items' ∧ s = s' := by
  match items, items' with
  | [], [] => exact ⟨rfl, (List.cons.inj same).2⟩
  | [], _ :: _ => exact absurd (List.cons.inj same).1 (by decide)
  | _ :: _, [] => exact absurd (List.cons.inj same).1 (by decide)
  | v :: rest, w :: rest' =>
      unfold ItemsWritten at written written'
      simp only [itemTexts, closing, List.cons_append, List.append_assoc, List.cons.injEq,
        true_and] at same
      obtain ⟨rfl, later⟩ := stringify_unique v w written.1 written'.1 _ _
        (closing_stops (by decide) _ _) (closing_stops (by decide) _ _) same
      obtain ⟨rfl, after⟩ := items_unique rest rest' written.2 written'.2 s s' later
      exact ⟨rfl, after⟩

theorem members_unique (members members' : List (List Nat × Value)) (written : MembersWritten members)
    (written' : MembersWritten members') (s s' : List Nat)
    (same : closing '\x7d' (memberTexts members) ++ s =
      closing '\x7d' (memberTexts members') ++ s') : members = members' ∧ s = s' := by
  match members, members' with
  | [], [] => exact ⟨rfl, (List.cons.inj same).2⟩
  | [], _ :: _ => exact absurd (List.cons.inj same).1 (by decide)
  | _ :: _, [] => exact absurd (List.cons.inj same).1 (by decide)
  | (key, v) :: rest, (key', w) :: rest' =>
      unfold MembersWritten at written written'
      simp only [memberTexts, closing, List.cons_append, List.append_assoc, List.cons.injEq,
        true_and] at same
      obtain ⟨rfl, colon⟩ := quoted_unique same
      obtain ⟨rfl, later⟩ := stringify_unique v w written.1 written'.1 _ _
        (closing_stops (by decide) _ _) (closing_stops (by decide) _ _) (List.cons.inj colon).2
      obtain ⟨rfl, after⟩ := members_unique rest rest' written.2 written'.2 s s' later
      exact ⟨rfl, after⟩

end

/-- Written values with the same text are the same. -/
theorem stringify_injective {v w : Value} (written : Written v) (written' : Written w)
    (same : stringify v = stringify w) : v = w := by
  have nothing : Stops [] := fun u head => by cases head
  exact (stringify_unique v w written written' [] [] nothing nothing (by rw [same])).1

end JSON
