import Mathlib.Data.List.TakeWhile

/-!
# JSON texts

`JSON.parse` as the language's standard describes it: one value, surrounded by white space only.
Strings are sequences of UTF-16 units, and a number keeps its lexeme.

The parsers are built from a few combinators, and each of the three things said about them is
proved combinator by combinator:

* `Stable` / `Closed`: what a parser read does not change when the text goes on;
* `EndsIn`: which characters can be the last one that was read;
* `Sub`: more fuel never takes a result back.

Together they say what cutting a text can do (`parse_cut`, `parse_replacement`).
-/

namespace JSON

abbrev Text := List Char

/-- A parsed value. The members of an object are in the order of the text. -/
inductive Value where
  | null
  | bool (b : Bool)
  | num (lexeme : Text)
  | str (units : List Nat)
  | arr (items : List Value)
  | obj (members : List (List Nat × Value))
  deriving Repr

/-! ## Combinators -/

/-- What is read, and the text left. -/
abbrev Parser (α : Type) := Text → Option (α × Text)

namespace Parser

variable {α β : Type}

def pure (a : α) : Parser α := fun s => some (a, s)

def fail : Parser α := fun _ => none

def bind (p : Parser α) (f : α → Parser β) : Parser β := fun s =>
  match p s with
  | none => none
  | some (a, r) => f a r

def map (f : α → β) (p : Parser α) : Parser β := bind p fun a => pure (f a)

def isSpace (c : Char) : Bool := c = ' ' || c = '\t' || c = '\n' || c = '\r'

def skipSpace (s : Text) : Text := s.dropWhile isSpace

/-- Past white space, `p` after the character `c`, else `q` from where the text stands. -/
def ifToken (c : Char) (p q : Parser α) : Parser α := fun s =>
  match skipSpace s with
  | [] => none
  | d :: r => if d = c then p r else q (d :: r)

end Parser

open JSON.Parser

/-! ## Lexemes -/

def hexDigit (c : Char) : Option Nat :=
  if '0' ≤ c ∧ c ≤ '9' then some (c.toNat - '0'.toNat)
  else if 'a' ≤ c ∧ c ≤ 'f' then some (c.toNat - 'a'.toNat + 10)
  else if 'A' ≤ c ∧ c ≤ 'F' then some (c.toNat - 'A'.toNat + 10)
  else none

/-- The unit a one-letter escape stands for. -/
def escape (c : Char) : Option Nat :=
  if c = '"' ∨ c = '\\' ∨ c = '/' then some c.toNat
  else if c = 'b' then some 0x08
  else if c = 'f' then some 0x0C
  else if c = 'n' then some 0x0A
  else if c = 'r' then some 0x0D
  else if c = 't' then some 0x09
  else none

/-- The UTF-16 units of a character. -/
def utf16 (c : Char) : List Nat :=
  if c.toNat < 0x10000 then [c.toNat]
  else [0xD800 + (c.toNat - 0x10000) / 0x400, 0xDC00 + (c.toNat - 0x10000) % 0x400]

def units (s : String) : List Nat := s.toList.flatMap utf16

/-- The rest of a string, after its opening quote. -/
def string : Parser (List Nat)
  | [] => none
  | '"' :: r => some ([], r)
  | '\\' :: 'u' :: a :: b :: c :: d :: r =>
      match hexDigit a, hexDigit b, hexDigit c, hexDigit d, string r with
      | some a, some b, some c, some d, some (us, r') =>
          some ((((a * 16 + b) * 16 + c) * 16 + d) :: us, r')
      | _, _, _, _, _ => none
  | '\\' :: e :: r =>
      match escape e, string r with
      | some u, some (us, r') => some (u :: us, r')
      | _, _ => none
  | c :: r =>
      if c.toNat < 0x20 ∨ c = '\\' then none
      else
        match string r with
        | some (us, r') => some (utf16 c ++ us, r')
        | none => none

/-- The letters left of a literal name. -/
def keyword {α : Type} (letters : Text) (a : α) : Parser α := fun s =>
  match letters, s with
  | [], s => some (a, s)
  | _ :: _, [] => none
  | c :: cs, d :: r => if d = c then keyword cs a r else none

def isNumeric (c : Char) : Bool := c.isDigit || c = '-' || c = '+' || c = '.' || c = 'e' || c = 'E'

/-- One digit or more, dropped. -/
def digits1 : Text → Option Text
  | [] => none
  | c :: r => if c.isDigit then some (r.dropWhile Char.isDigit) else none

def intPart : Text → Option Text
  | '0' :: r => some r
  | s => digits1 s

def fracPart : Text → Option Text
  | '.' :: r => digits1 r
  | s => some s

def expPart : Text → Option Text
  | [] => some []
  | c :: r =>
      if c = 'e' ∨ c = 'E' then
        match r with
        | '+' :: r' => digits1 r'
        | '-' :: r' => digits1 r'
        | r => digits1 r
      else some (c :: r)

/-- The grammar of number lexemes. -/
def isNumeral (lexeme : Text) : Bool :=
  let unsigned := match lexeme with
    | '-' :: r => r
    | s => s
  match ((intPart unsigned).bind fracPart).bind expPart with
  | some [] => true
  | _ => false

/-- A number takes every character a number can hold. -/
def number : Parser Value := fun s =>
  let lexeme := s.takeWhile isNumeric
  if isNumeral lexeme then some (.num lexeme, s.dropWhile isNumeric) else none

/-! ## Values -/

mutual

def value : Nat → Parser Value
  | 0 => fail
  | n + 1 =>
      ifToken '{' (ifToken '}' (pure (.obj [])) (map .obj (members n)))
      (ifToken '[' (ifToken ']' (pure (.arr [])) (map .arr (elements n)))
      (ifToken '"' (map .str string)
      (ifToken 't' (keyword ['r', 'u', 'e'] (.bool true))
      (ifToken 'f' (keyword ['a', 'l', 's', 'e'] (.bool false))
      (ifToken 'n' (keyword ['u', 'l', 'l'] .null)
      number)))))

/-- The members of an object, with its closing brace. -/
def members : Nat → Parser (List (List Nat × Value))
  | 0 => fail
  | n + 1 =>
      ifToken '"'
        (bind string fun k =>
          ifToken ':'
            (bind (value n) fun v =>
              ifToken ',' (map ((k, v) :: ·) (members n)) (ifToken '}' (pure [(k, v)]) fail))
            fail)
        fail

/-- The items of an array, with its closing bracket. -/
def elements : Nat → Parser (List Value)
  | 0 => fail
  | n + 1 =>
      bind (value n) fun v =>
        ifToken ',' (map (v :: ·) (elements n)) (ifToken ']' (pure [v]) fail)

end

/-- Every call of `value` or `members` takes a character, so twice the length is fuel enough. -/
def parse (text : Text) : Option Value :=
  match value (2 * text.length + 2) text with
  | some (v, r) => if skipSpace r = [] then some v else none
  | none => none
/-! ## Reading on -/

namespace Parser

variable {α β : Type}

/-- A parser that stopped before the end of the text stops there in every longer text. -/
def Stable (p : Parser α) : Prop :=
  ∀ s a r t, p s = some (a, r) → r ≠ [] → p (s ++ t) = some (a, r ++ t)

/-- A parser that sees itself where it has to stop. -/
def Closed (p : Parser α) : Prop :=
  ∀ s a r t, p s = some (a, r) → p (s ++ t) = some (a, r ++ t)

theorem Closed.stable {p : Parser α} (closed : Closed p) : Stable p :=
  fun s a r t read _ => closed s a r t read

theorem closed_pure (a : α) : Closed (pure a) := by
  intro s b r t read
  cases read
  rfl

theorem closed_fail : Closed (fail : Parser α) := by
  intro s a r t read
  cases read

theorem bind_some {p : Parser α} {f : α → Parser β} {s r : Text} {b : β}
    (read : bind p f s = some (b, r)) : ∃ a m, p s = some (a, m) ∧ f a m = some (b, r) := by
  cases first : p s with
  | none =>
      rw [bind, first] at read
      cases read
  | some am =>
      rw [bind, first] at read
      exact ⟨am.1, am.2, rfl, read⟩

theorem bind_of_some {p : Parser α} {f : α → Parser β} {s m : Text} {a : α}
    (first : p s = some (a, m)) : bind p f s = f a m := by
  rw [bind, first]

/-- A second parser that needs a character closes a first one that is only stable. -/
theorem Stable.bind_closed {p : Parser α} {f : α → Parser β} (first : Stable p)
    (second : ∀ a, Closed (f a)) (needs : ∀ a, f a [] = none) : Closed (bind p f) := by
  intro s b r t read
  obtain ⟨a, m, here, there⟩ := bind_some read
  have left : m ≠ [] := by
    intro nil
    rw [nil, needs] at there
    cases there
  rw [bind_of_some (first s a m t here left)]
  exact second a m b r t there

theorem Closed.bind {p : Parser α} {f : α → Parser β} (first : Closed p)
    (second : ∀ a, Closed (f a)) : Closed (bind p f) := by
  intro s b r t read
  obtain ⟨a, m, here, there⟩ := bind_some read
  rw [bind_of_some (first s a m t here)]
  exact second a m b r t there

theorem Closed.map {p : Parser α} (f : α → β) (closed : Closed p) : Closed (map f p) :=
  closed.bind fun a => closed_pure (f a)

/-- White space that ends before the text does ends there in every longer text. -/
theorem skipSpace_append {s r : Text} {c : Char} (t : Text) (left : skipSpace s = c :: r) :
    skipSpace (s ++ t) = c :: r ++ t := by
  unfold skipSpace at left ⊢
  rw [List.dropWhile_append, left]
  rfl

theorem ifToken_some {c : Char} {p q : Parser α} {s r : Text} {a : α}
    (read : ifToken c p q s = some (a, r)) :
    ∃ d m, skipSpace s = d :: m ∧
      ((d = c ∧ p m = some (a, r)) ∨ (d ≠ c ∧ q (d :: m) = some (a, r))) := by
  unfold ifToken at read
  cases left : skipSpace s with
  | nil =>
      rw [left] at read
      cases read
  | cons d m =>
      rw [left] at read
      refine ⟨d, m, rfl, ?_⟩
      by_cases same : d = c
      · simp only [if_pos same] at read
        exact .inl ⟨same, read⟩
      · simp only [if_neg same] at read
        exact .inr ⟨same, read⟩

theorem ifToken_yes {c : Char} {p q : Parser α} {s m : Text} (left : skipSpace s = c :: m) :
    ifToken c p q s = p m := by
  rw [ifToken, left]
  exact if_pos rfl

theorem ifToken_no {c d : Char} {p q : Parser α} {s m : Text} (left : skipSpace s = d :: m)
    (other : d ≠ c) : ifToken c p q s = q (d :: m) := by
  rw [ifToken, left]
  exact if_neg other

theorem Stable.ifToken {c : Char} {p q : Parser α} (yes : Stable p) (no : Stable q) :
    Stable (ifToken c p q) := by
  intro s a r t read left
  obtain ⟨d, m, here, ⟨same, there⟩ | ⟨other, there⟩⟩ := ifToken_some read
  · subst same
    rw [ifToken_yes (skipSpace_append t here)]
    exact yes m a r t there left
  · rw [ifToken_no (skipSpace_append t here) other]
    exact no (d :: m) a r t there left

theorem Closed.ifToken {c : Char} {p q : Parser α} (yes : Closed p) (no : Closed q) :
    Closed (ifToken c p q) := by
  intro s a r t read
  obtain ⟨d, m, here, ⟨same, there⟩ | ⟨other, there⟩⟩ := ifToken_some read
  · subst same
    rw [ifToken_yes (skipSpace_append t here)]
    exact yes m a r t there
  · rw [ifToken_no (skipSpace_append t here) other]
    exact no (d :: m) a r t there

end Parser

/-- No letter escape is a `u`, so the two escape forms do not overlap. -/
theorem string_escape {e : Char} {u : Nat} {us : List Nat} {r m : Text} (unit : escape e = some u)
    (rest : string r = some (us, m)) : string ('\\' :: e :: r) = some (u :: us, m) := by
  have letter : e ≠ 'u' := by
    rintro rfl
    have nothing : escape 'u' = none := by decide
    rw [nothing] at unit
    cases unit
  rw [string.eq_4 e r fun a b c d r' same _ => letter same, unit, rest]

theorem string_char {c : Char} {us : List Nat} {r m : Text} (quote : c ≠ '"')
    (plain : ¬(c.toNat < 0x20 ∨ c = '\\')) (rest : string r = some (us, m)) :
    string (c :: r) = some (utf16 c ++ us, m) := by
  have slash : c ≠ '\\' := fun same => plain (.inr same)
  rw [string.eq_5 c r quote (fun a b d e r' same _ => slash same) (fun e r' same _ => slash same),
    if_neg plain, rest]

theorem closed_string : Closed string := by
  intro s
  fun_induction string s with
  | case1 | case4 | case6 | case7 | case9 =>
      intro us r t read
      cases read
  | case2 r =>
      intro us m t read
      cases read
      rfl
  | case3 a b c d r a' b' c' d' us m rest hd hc hb ha ih =>
      intro us' m' t read
      cases read
      show string ('\\' :: 'u' :: a :: b :: c :: d :: (r ++ t)) = _
      rw [string, ha, hb, hc, hd, ih us m t rest]
  | case5 e r _ u us m rest unit ih =>
      intro us' m' t read
      cases read
      exact string_escape unit (ih us m t rest)
  | case8 c r quote _ _ plain us m rest ih =>
      intro us' m' t read
      cases read
      exact string_char quote plain (ih us m t rest)

theorem closed_keyword {α : Type} (letters : Text) (a : α) : Closed (keyword letters a) := by
  induction letters with
  | nil =>
      intro s b r t read
      unfold keyword at read
      cases read
      cases s <;> rfl
  | cons c cs ih =>
      intro s b r t read
      cases s with
      | nil =>
          unfold keyword at read
          cases read
      | cons d s =>
          unfold keyword at read
          split at read
          case isTrue same =>
              show keyword (c :: cs) a (d :: (s ++ t)) = _
              rw [keyword, if_pos same]
              exact ih s b r t read
          case isFalse => cases read

theorem stable_number : Stable number := by
  intro s v r t read left
  unfold number at read ⊢
  simp only at read ⊢
  split at read
  case isFalse => cases read
  case isTrue numeral =>
      cases read
      have stops : s.dropWhile isNumeric ≠ [] := left
      have same : (s ++ t).takeWhile isNumeric = s.takeWhile isNumeric := by
        rw [List.takeWhile_append, if_neg]
        intro full
        have nothing := congrArg List.length (List.takeWhile_append_dropWhile (p := isNumeric) (l := s))
        rw [List.length_append, full] at nothing
        exact stops (List.length_eq_zero_iff.1 (by omega))
      rw [same, if_pos numeral, List.dropWhile_append, if_neg]
      rw [List.isEmpty_iff]
      exact stops

/-- What a value is does not change when the text goes on behind it; the members of an object
and the items of an array find their own end. -/
theorem value_stable (n : Nat) :
    Stable (value n) ∧ Closed (members n) ∧ Closed (elements n) := by
  induction n with
  | zero => exact ⟨closed_fail.stable, closed_fail, closed_fail⟩
  | succ n ih =>
      obtain ⟨values, inner, items⟩ := ih
      refine ⟨?_, ?_, ?_⟩
      · rw [value]
        refine (((closed_pure _).ifToken (inner.map _)).stable).ifToken ?_
        refine (((closed_pure _).ifToken (items.map _)).stable).ifToken ?_
        refine (closed_string.map _).stable.ifToken ?_
        refine (closed_keyword _ _).stable.ifToken ?_
        refine (closed_keyword _ _).stable.ifToken ?_
        exact (closed_keyword _ _).stable.ifToken stable_number
      · rw [members]
        refine Closed.ifToken (closed_string.bind fun k => ?_) closed_fail
        refine Closed.ifToken (values.bind_closed (fun v => ?_) fun v => rfl) closed_fail
        exact (inner.map _).ifToken ((closed_pure _).ifToken closed_fail)
      · rw [elements]
        refine values.bind_closed (fun v => ?_) fun v => rfl
        exact (items.map _).ifToken ((closed_pure _).ifToken closed_fail)

/-! ## Last characters -/

namespace Parser

variable {α β : Type} {P : Char → Prop}

/-- `p` reads some text, whose last character is in `P`. -/
def EndsIn (P : Char → Prop) (p : Parser α) : Prop :=
  ∀ s a r, p s = some (a, r) → ∃ u c, s = u ++ c :: r ∧ P c

/-- `p` reads a text, maybe the empty one. -/
def Reads (p : Parser α) : Prop := ∀ s a r, p s = some (a, r) → ∃ u, s = u ++ r

theorem EndsIn.reads {p : Parser α} (ends : EndsIn P p) : Reads p := by
  intro s a r read
  obtain ⟨u, c, rfl, _⟩ := ends s a r read
  exact ⟨u ++ [c], by rw [List.append_assoc]; rfl⟩

theorem endsIn_fail : EndsIn P (fail : Parser α) := by
  intro s a r read
  cases read

theorem EndsIn.bind {p : Parser α} {f : α → Parser β} (first : Reads p)
    (second : ∀ a, EndsIn P (f a)) : EndsIn P (bind p f) := by
  intro s b r read
  obtain ⟨a, m, here, there⟩ := bind_some read
  obtain ⟨u, rfl⟩ := first s a m here
  obtain ⟨v, c, rfl, inP⟩ := second a m b r there
  exact ⟨u ++ v, c, (List.append_assoc u v (c :: r)).symm, inP⟩

theorem EndsIn.map {p : Parser α} (f : α → β) (ends : EndsIn P p) : EndsIn P (map f p) := by
  intro s b r read
  obtain ⟨a, m, here, there⟩ := bind_some read
  cases there
  exact ends s a r here

theorem skipSpace_reads (s : Text) : ∃ u, s = u ++ skipSpace s :=
  ⟨s.takeWhile isSpace, List.takeWhile_append_dropWhile.symm⟩

theorem EndsIn.ifToken {c : Char} {p q : Parser α} (yes : EndsIn P p) (no : EndsIn P q) :
    EndsIn P (ifToken c p q) := by
  intro s a r read
  obtain ⟨d, m, here, there⟩ := ifToken_some read
  obtain ⟨u, split⟩ := skipSpace_reads s
  rw [here] at split
  rcases there with ⟨_, there⟩ | ⟨_, there⟩
  · obtain ⟨v, e, rfl, inP⟩ := yes m a r there
    exact ⟨u ++ d :: v, e, by rw [split, List.append_assoc]; rfl, inP⟩
  · obtain ⟨v, e, same, inP⟩ := no (d :: m) a r there
    exact ⟨u ++ v, e, by rw [split, same, List.append_assoc], inP⟩

theorem endsIn_ifToken_pure {c : Char} {a : α} {q : Parser α} (here : P c) (no : EndsIn P q) :
    EndsIn P (ifToken c (pure a) q) := by
  intro s b r read
  obtain ⟨d, m, left, ⟨same, there⟩ | ⟨_, there⟩⟩ := ifToken_some read
  · obtain ⟨u, split⟩ := skipSpace_reads s
    subst same
    cases there
    exact ⟨u, d, split.trans (by rw [left]), here⟩
  · obtain ⟨u, split⟩ := skipSpace_reads s
    rw [left] at split
    obtain ⟨v, e, same, inP⟩ := no (d :: m) b r there
    exact ⟨u ++ v, e, by rw [split, same, List.append_assoc], inP⟩

end Parser

/-- A character that can be the last one of a value. -/
def Final (c : Char) : Prop := c ∈ ['}', ']', '"', 'e', 'l'] ∨ isNumeric c = true

theorem string_endsIn : EndsIn Final string := by
  intro s
  fun_induction string s with
  | case1 | case4 | case6 | case7 | case9 =>
      intro us r read
      cases read
  | case2 r =>
      intro us m read
      cases read
      exact ⟨[], '"', rfl, .inl (by decide)⟩
  | case3 a b c d r a' b' c' d' us m rest hd hc hb ha ih =>
      intro us' m' read
      cases read
      obtain ⟨u, e, rfl, final⟩ := ih us m rest
      exact ⟨'\\' :: 'u' :: a :: b :: c :: d :: u, e, rfl, final⟩
  | case5 e r _ u us m rest unit ih =>
      intro us' m' read
      cases read
      obtain ⟨v, d, rfl, final⟩ := ih us m rest
      exact ⟨'\\' :: e :: v, d, rfl, final⟩
  | case8 c r quote _ _ plain us m rest ih =>
      intro us' m' read
      cases read
      obtain ⟨v, d, rfl, final⟩ := ih us m rest
      exact ⟨c :: v, d, rfl, final⟩

theorem keyword_endsIn {α : Type} (letters : Text) {last : Char} {a : α} (final : Final last) :
    EndsIn Final (keyword (letters ++ [last]) a) := by
  induction letters with
  | nil =>
      intro s b r read
      cases s with
      | nil =>
          unfold keyword at read
          cases read
      | cons d s =>
          show ∃ u c, d :: s = u ++ c :: r ∧ Final c
          simp only [List.nil_append, keyword] at read
          split at read
          case isTrue same =>
              subst same
              have here : s = r := by cases s <;> cases read <;> rfl
              rw [here]
              exact ⟨[], d, rfl, final⟩
          case isFalse => cases read
  | cons c cs ih =>
      intro s b r read
      cases s with
      | nil =>
          simp only [List.cons_append, keyword] at read
          cases read
      | cons d s =>
          simp only [List.cons_append, keyword] at read
          split at read
          case isTrue =>
              obtain ⟨u, e, rfl, inP⟩ := ih s b r read
              exact ⟨d :: u, e, rfl, inP⟩
          case isFalse => cases read

theorem number_endsIn : EndsIn Final number := by
  intro s v r read
  unfold number at read
  simp only at read
  split at read
  case isFalse => cases read
  case isTrue numeral =>
      cases read
      have some_ : s.takeWhile isNumeric ≠ [] := by
        intro nil
        rw [nil] at numeral
        exact absurd numeral (by decide)
      refine ⟨(s.takeWhile isNumeric).dropLast, (s.takeWhile isNumeric).getLast some_, ?_,
        .inr ?_⟩
      · rw [List.append_cons, List.dropLast_concat_getLast, List.takeWhile_append_dropWhile]
      · exact List.mem_takeWhile_imp (List.getLast_mem some_)

theorem value_endsIn (n : Nat) :
    EndsIn Final (value n) ∧ EndsIn Final (members n) ∧ EndsIn Final (elements n) := by
  induction n with
  | zero => exact ⟨endsIn_fail, endsIn_fail, endsIn_fail⟩
  | succ n ih =>
      obtain ⟨values, inner, items⟩ := ih
      refine ⟨?_, ?_, ?_⟩
      · rw [value]
        refine EndsIn.ifToken (endsIn_ifToken_pure (.inl (by decide)) (inner.map _)) ?_
        refine EndsIn.ifToken (endsIn_ifToken_pure (.inl (by decide)) (items.map _)) ?_
        refine EndsIn.ifToken (string_endsIn.map _) ?_
        refine EndsIn.ifToken (keyword_endsIn ['r', 'u'] (.inl (by decide))) ?_
        refine EndsIn.ifToken (keyword_endsIn ['a', 'l', 's'] (.inl (by decide))) ?_
        exact EndsIn.ifToken (keyword_endsIn ['u', 'l'] (.inl (by decide)))
          number_endsIn
      · rw [members]
        refine EndsIn.ifToken (EndsIn.bind string_endsIn.reads fun k => ?_) endsIn_fail
        refine EndsIn.ifToken (EndsIn.bind values.reads fun v => ?_) endsIn_fail
        exact (inner.map _).ifToken (endsIn_ifToken_pure (.inl (by decide)) endsIn_fail)
      · rw [elements]
        refine EndsIn.bind values.reads fun v => ?_
        exact (items.map _).ifToken (endsIn_ifToken_pure (.inl (by decide)) endsIn_fail)

/-! ## Fuel -/

namespace Parser

variable {α β : Type}

/-- Every result of `p` is one of `q`. -/
def Sub (p q : Parser α) : Prop := ∀ s x, p s = some x → q s = some x

theorem Sub.refl (p : Parser α) : Sub p p := fun _ _ read => read

theorem Sub.bind {p q : Parser α} {f g : α → Parser β} (first : Sub p q)
    (second : ∀ a, Sub (f a) (g a)) : Sub (bind p f) (bind q g) := by
  rintro s ⟨b, r⟩ read
  obtain ⟨a, m, here, there⟩ := bind_some read
  rw [bind_of_some (first s _ here)]
  exact second a m _ there

theorem Sub.map {p q : Parser α} (f : α → β) (sub : Sub p q) : Sub (map f p) (map f q) :=
  sub.bind fun _ => Sub.refl _

theorem Sub.ifToken {c : Char} {p p' q q' : Parser α} (yes : Sub p p') (no : Sub q q') :
    Sub (ifToken c p q) (ifToken c p' q') := by
  rintro s ⟨a, r⟩ read
  obtain ⟨d, m, here, ⟨same, there⟩ | ⟨other, there⟩⟩ := ifToken_some read
  · subst same
    rw [ifToken_yes here]
    exact yes m _ there
  · rw [ifToken_no here other]
    exact no (d :: m) _ there

end Parser

theorem value_more_fuel (n : Nat) :
    Sub (value n) (value (n + 1)) ∧ Sub (members n) (members (n + 1)) ∧
      Sub (elements n) (elements (n + 1)) := by
  induction n with
  | zero => exact ⟨fun s x read => (by cases read), fun s x read => (by cases read),
      fun s x read => (by cases read)⟩
  | succ n ih =>
      obtain ⟨values, inner, items⟩ := ih
      refine ⟨?_, ?_, ?_⟩
      · rw [value, value]
        refine Sub.ifToken ((Sub.refl _).ifToken (inner.map _)) ?_
        exact Sub.ifToken ((Sub.refl _).ifToken (items.map _)) (Sub.refl _)
      · rw [members, members]
        refine Sub.ifToken (Sub.bind (Sub.refl _) fun k => ?_) (Sub.refl _)
        refine Sub.ifToken (values.bind fun v => ?_) (Sub.refl _)
        exact (inner.map _).ifToken (Sub.refl _)
      · rw [elements, elements]
        exact values.bind fun v => (items.map _).ifToken (Sub.refl _)

theorem value_le {n m : Nat} (le : n ≤ m) : Sub (value n) (value m) := by
  induction le with
  | refl => exact Sub.refl _
  | step _ ih => exact fun s x read => (value_more_fuel _).1 s x (ih s x read)

/-! ## Cut texts -/

theorem parse_some {text : Text} {v : Value} (parsed : parse text = some v) :
    ∃ r, value (2 * text.length + 2) text = some (v, r) ∧ skipSpace r = [] := by
  unfold parse at parsed
  split at parsed
  next v' r read =>
    split at parsed
    next blank =>
      cases parsed
      exact ⟨r, read, blank⟩
    next => cases parsed
  next => cases parsed

theorem space_of_skipSpace {r : Text} (blank : skipSpace r = []) : ∀ c ∈ r, isSpace c = true := by
  intro c mem
  have all := List.takeWhile_append_dropWhile (p := isSpace) (l := r)
  unfold skipSpace at blank
  rw [blank, List.append_nil] at all
  rw [← all] at mem
  exact List.mem_takeWhile_imp mem

/-- The replacement character is never the last one of an accepted text. -/
theorem parse_replacement (s : Text) : parse (s ++ ['\uFFFD']) = none := by
  cases parsed : parse (s ++ ['\uFFFD']) with
  | none => rfl
  | some v =>
      obtain ⟨r, read, blank⟩ := parse_some parsed
      obtain ⟨u, c, split, final⟩ := (value_endsIn _).1 _ v r read
      rcases List.eq_nil_or_concat r with rfl | ⟨r', z, rfl⟩
      · have last := (List.append_inj' split rfl).2
        rw [List.cons.injEq] at last
        rw [← last.1] at final
        exact absurd final (by unfold Final; decide)
      · rw [List.concat_eq_append, ← List.cons_append, ← List.append_assoc] at split
        have last := (List.append_inj' split rfl).2
        have space := space_of_skipSpace blank z (by simp)
        rw [List.cons.injEq] at last
        rw [← last.1] at space
        exact absurd space (by decide)

namespace Parser

variable {α β : Type} {Q : α → Prop}

/-- Every result of `p` is in `Q`. -/
def Gives (Q : α → Prop) (p : Parser α) : Prop := ∀ s a r, p s = some (a, r) → Q a

theorem gives_map {f : β → α} (all : ∀ b, Q (f b)) (p : Parser β) : Gives Q (map f p) := by
  intro s a r read
  obtain ⟨b, m, _, there⟩ := bind_some read
  cases there
  exact all b

theorem gives_pure {a : α} (here : Q a) : Gives Q (pure a) := by
  intro s b r read
  cases read
  exact here

theorem Gives.ifToken {c : Char} {p q : Parser α} (yes : Gives Q p) (no : Gives Q q) :
    Gives Q (ifToken c p q) := by
  intro s a r read
  obtain ⟨d, m, _, ⟨_, there⟩ | ⟨_, there⟩⟩ := ifToken_some read
  · exact yes m a r there
  · exact no (d :: m) a r there

theorem gives_keyword {a : α} (letters : Text) (here : Q a) : Gives Q (keyword letters a) := by
  induction letters with
  | nil =>
      intro s b r read
      cases s <;> cases read <;> exact here
  | cons c cs ih =>
      intro s b r read
      cases s with
      | nil => cases read
      | cons d s =>
          unfold keyword at read
          split at read
          case isTrue => exact ih s b r read
          case isFalse => cases read

end Parser

def Value.isObject : Value → Bool
  | .obj _ => true
  | _ => false

theorem value_nothing {n : Nat} {s : Text} (blank : skipSpace s = []) : value n s = none := by
  cases n with
  | zero => rfl
  | succ n => rw [value, ifToken, blank]

/-- An object begins with its brace. -/
theorem value_object_head {n : Nat} {s r : Text} {v : Value} (read : value n s = some (v, r))
    (object : v.isObject = true) : ∃ m, skipSpace s = '{' :: m := by
  cases n with
  | zero => cases read
  | succ n =>
      rw [value] at read
      obtain ⟨d, m, here, ⟨same, _⟩ | ⟨_, other⟩⟩ := ifToken_some read
      · exact ⟨m, by rw [here, same]⟩
      · -- no other branch makes an object
        have none_ : Gives (fun v : Value => v.isObject = false)
            (ifToken '[' (ifToken ']' (pure (.arr [])) (map .arr (elements n)))
              (ifToken '"' (map .str string)
              (ifToken 't' (keyword ['r', 'u', 'e'] (.bool true))
              (ifToken 'f' (keyword ['a', 'l', 's', 'e'] (.bool false))
              (ifToken 'n' (keyword ['u', 'l', 'l'] .null) number))))) := by
          refine Gives.ifToken (Gives.ifToken ?_ ?_) (Gives.ifToken ?_ (Gives.ifToken ?_
            (Gives.ifToken ?_ (Gives.ifToken ?_ ?_))))
          · exact gives_pure rfl
          · refine gives_map (fun _ => ?_) _
            rfl
          · refine gives_map (fun _ => ?_) _
            rfl
          · exact gives_keyword _ rfl
          · exact gives_keyword _ rfl
          · exact gives_keyword _ rfl
          intro s v r read
          unfold number at read
          simp only at read
          split at read
          case isTrue =>
              cases read
              rfl
          case isFalse => cases read
        rw [none_ _ v r other] at object
        cases object

/-- An object finds its own end. -/
theorem value_object_closed {n : Nat} {s m r t : Text} {v : Value}
    (head : skipSpace s = '{' :: m) (read : value n s = some (v, r)) :
    value n (s ++ t) = some (v, r ++ t) := by
  cases n with
  | zero => cases read
  | succ n =>
      rw [value, ifToken_yes head] at read
      rw [value, ifToken_yes (skipSpace_append t head)]
      have inner := (closed_pure (Value.obj [])).ifToken (c := '}')
        ((value_stable n).2.1.map Value.obj)
      exact inner m v r t read

/-- A cut of an object's text that is accepted all the same has the whole object: only white space
was cut off. -/
theorem parse_cut {s t : Text} {v w : Value} (object : v.isObject = true)
    (whole : parse (s ++ t) = some v) (cut : parse s = some w) :
    w = v ∧ ∀ c ∈ t, isSpace c = true := by
  obtain ⟨r, read, _⟩ := parse_some cut
  obtain ⟨r', read', blank⟩ := parse_some whole
  obtain ⟨m, head⟩ := value_object_head read' object
  have brace : ∃ m', skipSpace s = '{' :: m' := by
    cases left : skipSpace s with
    | nil =>
        rw [value_nothing left] at read
        cases read
    | cons d m' =>
        rw [skipSpace_append t left, List.cons_append] at head
        exact ⟨m', by rw [(List.cons.inj head).1]⟩
  obtain ⟨m', head'⟩ := brace
  have longer : 2 * s.length + 2 ≤ 2 * (s ++ t).length + 2 := by
    rw [List.length_append]
    omega
  have same := value_le longer _ _ (value_object_closed (t := t) head' read)
  rw [read'] at same
  cases same
  exact ⟨rfl, fun c mem => space_of_skipSpace blank c (List.mem_append_right r mem)⟩

/-- The text of an object is not empty, and begins with white space or with its brace. -/
theorem parse_object_head {s : Text} {v : Value} (object : v.isObject = true)
    (parsed : parse s = some v) : ∃ c cs, s = c :: cs ∧ (isSpace c = true ∨ c = '{') := by
  obtain ⟨r, read, _⟩ := parse_some parsed
  obtain ⟨m, head⟩ := value_object_head read object
  cases s with
  | nil => cases head
  | cons c cs =>
      refine ⟨c, cs, rfl, ?_⟩
      by_cases space : isSpace c = true
      · exact .inl space
      · rw [skipSpace, List.dropWhile_cons_of_neg space] at head
        exact .inr (List.cons.inj head).1

/-- Where a cut of any accepted text is accepted as an object, it is the object of the whole. -/
theorem parse_cut_object {s t : Text} {v w : Value} (whole : parse (s ++ t) = some v)
    (cut : parse s = some w) (object : w.isObject = true) : v = w := by
  obtain ⟨r, read, _⟩ := parse_some cut
  obtain ⟨r', read', _⟩ := parse_some whole
  obtain ⟨m, head⟩ := value_object_head read object
  have longer : 2 * s.length + 2 ≤ 2 * (s ++ t).length + 2 := by
    rw [List.length_append]
    omega
  have same := value_le longer _ _ (value_object_closed (t := t) head read)
  rw [read'] at same
  cases same
  rfl

/-- An accepted text begins with no byte order mark. -/
theorem parse_unmarked {s : Text} {v : Value} (parsed : parse s = some v) :
    s.head? ≠ some '\uFEFF' := by
  intro marked
  obtain ⟨cs, rfl⟩ := List.head?_eq_some_iff.1 marked
  obtain ⟨r, read, _⟩ := parse_some parsed
  have left : skipSpace ('\uFEFF' :: cs) = '\uFEFF' :: cs :=
    List.dropWhile_cons_of_neg (by decide)
  rw [value, ifToken_no left (by decide), ifToken_no left (by decide), ifToken_no left (by decide),
    ifToken_no left (by decide), ifToken_no left (by decide), ifToken_no left (by decide)] at read
  -- no branch is left but that of the numbers
  have none_ : List.takeWhile isNumeric ('\uFEFF' :: cs) = [] :=
    List.takeWhile_cons_of_neg (by decide)
  unfold number at read
  simp only [none_] at read
  cases read

end JSON
