import Mathlib.Tactic.Common

/-!
# UTF-8 in pieces

The UTF-8 decoder of the Encoding Standard, as a text decoder runs it: byte by byte, with a state
that is kept from one piece of the input to the next. Malformed sequences are replaced, and a byte
order mark at the very start is taken away. Where the input is divided makes no difference, and
the encoding of a text, cut at any byte, gives the characters before the cut.
-/

namespace Utf8

/-- What a text decoder remembers: whether it has put out anything, and the bytes that are still
needed for the current character, with the range the next one has to be in. -/
structure Decoder where
  started : Bool
  needed : Nat
  point : Nat
  lower : Nat
  upper : Nat
  deriving DecidableEq, Repr

def byteOrderMark : Char := '\uFEFF'

def replacement : Char := '\uFFFD'

namespace Decoder

def init : Decoder := ⟨false, 0, 0, 0x80, 0xBF⟩

/-- A character is put out, and the next one begins. -/
def emit (d : Decoder) (c : Char) : Decoder × List Char :=
  (⟨true, 0, 0, 0x80, 0xBF⟩, if d.started = false ∧ c = byteOrderMark then [] else [c])

/-- The first byte of a character. -/
def lead (d : Decoder) (b : Nat) : Decoder × List Char :=
  if b ≤ 0x7F then d.emit (Char.ofNat b)
  else if 0xC2 ≤ b ∧ b ≤ 0xDF then
    ({ d with needed := 1, point := b % 0x20, lower := 0x80, upper := 0xBF }, [])
  else if 0xE0 ≤ b ∧ b ≤ 0xEF then
    ({ d with
      needed := 2
      point := b % 0x10
      lower := if b = 0xE0 then 0xA0 else 0x80
      upper := if b = 0xED then 0x9F else 0xBF }, [])
  else if 0xF0 ≤ b ∧ b ≤ 0xF4 then
    ({ d with
      needed := 3
      point := b % 0x08
      lower := if b = 0xF0 then 0x90 else 0x80
      upper := if b = 0xF4 then 0x8F else 0xBF }, [])
  else d.emit replacement

/-- One byte. A byte that does not go on with the current character ends it, and is read again. -/
def feed (d : Decoder) (b : Nat) : Decoder × List Char :=
  if d.needed = 0 then d.lead b
  else if d.lower ≤ b ∧ b ≤ d.upper then
    if d.needed = 1 then d.emit (Char.ofNat (d.point * 0x40 + b % 0x40))
    else
      ({ d with
        needed := d.needed - 1
        point := d.point * 0x40 + b % 0x40
        lower := 0x80
        upper := 0xBF }, [])
  else
    let ended := d.emit replacement
    let read := ended.1.lead b
    (read.1, ended.2 ++ read.2)

def feedAll : Decoder → List UInt8 → Decoder × List Char
  | d, [] => (d, [])
  | d, b :: bs =>
      let fed := d.feed b.toNat
      let rest := feedAll fed.1 bs
      (rest.1, fed.2 ++ rest.2)

/-- The pieces of a stream, each with the text it gives. -/
def stream : Decoder → List (List UInt8) → Decoder × List (List Char)
  | d, [] => (d, [])
  | d, read :: reads =>
      let fed := d.feedAll read
      let rest := stream fed.1 reads
      (rest.1, fed.2 :: rest.2)

/-- What the end of the input gives. -/
def flush (d : Decoder) : List Char := if d.needed = 0 then [] else [replacement]

end Decoder

/-- A whole byte string. -/
def decode (bytes : List UInt8) : List Char :=
  let fed := Decoder.init.feedAll bytes
  fed.2 ++ fed.1.flush

def encode (text : List Char) : List UInt8 := text.flatMap String.utf8EncodeChar

/-! ## Pieces -/

variable {d : Decoder}

theorem feedAll_append (as bs : List UInt8) :
    d.feedAll (as ++ bs) =
      (((d.feedAll as).1.feedAll bs).1, (d.feedAll as).2 ++ ((d.feedAll as).1.feedAll bs).2) := by
  induction as generalizing d with
  | nil => rfl
  | cons a as ih =>
      rw [List.cons_append, Decoder.feedAll, Decoder.feedAll]
      simp only [ih, List.append_assoc]

/-- The pieces together are read as the whole. -/
theorem stream_flatten (reads : List (List UInt8)) :
    (d.stream reads).1 = (d.feedAll reads.flatten).1 ∧
      (d.stream reads).2.flatten = (d.feedAll reads.flatten).2 := by
  induction reads generalizing d with
  | nil => exact ⟨rfl, rfl⟩
  | cons read reads ih =>
      rw [Decoder.stream, List.flatten_cons, feedAll_append]
      exact ⟨ih.1, by rw [List.flatten_cons, ih.2]⟩

/-! ## The encoding of a character -/

theorem feed_lead {b : Nat} (idle : d.needed = 0) : d.feed b = d.lead b := by
  rw [Decoder.feed, if_pos idle]

/-- A byte in the middle of a character. -/
theorem feed_more {b n : Nat} (owed : d.needed = n + 2) (low : d.lower ≤ b) (high : b ≤ d.upper) :
    d.feed b = (⟨d.started, n + 1, d.point * 0x40 + b % 0x40, 0x80, 0xBF⟩, []) := by
  rw [Decoder.feed, if_neg (by omega), if_pos ⟨low, high⟩, if_neg (by omega), owed]
  rfl

/-- The last byte of a character. -/
theorem feed_last {b : Nat} (owed : d.needed = 1) (low : d.lower ≤ b) (high : b ≤ d.upper) :
    d.feed b = d.emit (Char.ofNat (d.point * 0x40 + b % 0x40)) := by
  rw [Decoder.feed, if_neg (by omega), if_pos ⟨low, high⟩, if_pos owed]

/-- Only whether something was put out matters for the next character. -/
theorem emit_of_started {d' : Decoder} (same : d'.started = d.started) (c : Char) :
    d'.emit c = d.emit c := by
  unfold Decoder.emit
  rw [same]

theorem toNat_ofNat {n : Nat} (small : n < 256) : (UInt8.ofNat n).toNat = n := by
  rw [UInt8.toNat_ofNat']
  exact Nat.mod_eq_of_lt small

/-- What the bytes of a character do: nothing until the last one. -/
structure Spells (d : Decoder) (bytes : List UInt8) (c : Char) : Prop where
  whole : d.feedAll bytes = d.emit c
  part : ∀ k, 0 < k → k < bytes.length →
    (d.feedAll (bytes.take k)).2 = [] ∧ (d.feedAll (bytes.take k)).1.needed ≠ 0

/-- A byte after which the character goes on. -/
theorem Spells.cons {e : Decoder} {b : UInt8} {bs : List UInt8} {c : Char}
    (fed : d.feed b.toNat = (e, [])) (owed : e.needed ≠ 0) (same : e.started = d.started)
    (rest : Spells e bs c) : Spells d (b :: bs) c := by
  constructor
  · rw [Decoder.feedAll, fed]
    dsimp only
    rw [rest.whole, emit_of_started same, List.nil_append]
  · intro k pos short
    obtain ⟨k, rfl⟩ := Nat.exists_eq_succ_of_ne_zero (Nat.ne_of_gt pos)
    rw [List.take_succ_cons, Decoder.feedAll, fed]
    dsimp only
    rw [List.nil_append]
    rcases Nat.eq_zero_or_pos k with rfl | pos'
    · exact ⟨rfl, owed⟩
    · exact rest.part k pos' (Nat.lt_of_succ_lt_succ short)

theorem Spells.last {b : UInt8} {c : Char} (fed : d.feed b.toNat = d.emit c) : Spells d [b] c := by
  constructor
  · rw [Decoder.feedAll, fed]
    show ((d.emit c).1, (d.emit c).2 ++ []) = _
    rw [List.append_nil]
  · intro k pos short
    exact absurd short (by rw [List.length_singleton]; omega)

/-- The bytes of a character that are still needed, most significant first. -/
theorem Spells.tail {v : Nat} {c : Char} (is : Char.ofNat v = c) (owed : d.needed = 1)
    (point : d.point = v / 0x40) (low : d.lower ≤ v % 0x40 + 0x80)
    (high : v % 0x40 + 0x80 ≤ d.upper) : Spells d [UInt8.ofNat (v % 0x40 + 0x80)] c := by
  refine .last ?_
  rw [toNat_ofNat (by omega), feed_last owed low high, point]
  have back : v / 0x40 * 0x40 + (v % 0x40 + 0x80) % 0x40 = v := by omega
  rw [back, is]

theorem Spells.tail₂ {v : Nat} {c : Char} (is : Char.ofNat v = c) (owed : d.needed = 2)
    (point : d.point = v / 4096) (low : d.lower ≤ v / 64 % 0x40 + 0x80)
    (high : v / 64 % 0x40 + 0x80 ≤ d.upper) :
    Spells d [UInt8.ofNat (v / 64 % 0x40 + 0x80), UInt8.ofNat (v % 0x40 + 0x80)] c := by
  refine .cons (e := ⟨d.started, 1, v / 64, 0x80, 0xBF⟩) ?_ (Nat.succ_ne_zero 0) rfl
    (.tail is rfl rfl (Nat.le_add_left _ _) (show _ ≤ 0xBF by omega))
  rw [toNat_ofNat (by omega), feed_more owed low high, point]
  have shifted : v / 4096 * 0x40 + (v / 64 % 0x40 + 0x80) % 0x40 = v / 64 := by omega
  rw [shifted]

theorem Spells.tail₃ {v : Nat} {c : Char} (is : Char.ofNat v = c) (owed : d.needed = 3)
    (point : d.point = v / 262144) (low : d.lower ≤ v / 4096 % 0x40 + 0x80)
    (high : v / 4096 % 0x40 + 0x80 ≤ d.upper) :
    Spells d [UInt8.ofNat (v / 4096 % 0x40 + 0x80), UInt8.ofNat (v / 64 % 0x40 + 0x80),
      UInt8.ofNat (v % 0x40 + 0x80)] c := by
  refine .cons (e := ⟨d.started, 2, v / 4096, 0x80, 0xBF⟩) ?_ (Nat.succ_ne_zero 1) rfl
    (.tail₂ is rfl rfl (Nat.le_add_left _ _) (show _ ≤ 0xBF by omega))
  rw [toNat_ofNat (by omega), feed_more owed low high, point]
  have shifted : v / 262144 * 0x40 + (v / 4096 % 0x40 + 0x80) % 0x40 = v / 4096 := by omega
  rw [shifted]

theorem spells_encodeChar (idle : d.needed = 0) (c : Char) :
    Spells d (String.utf8EncodeChar c) c := by
  have valid : c.val.toNat < 0xD800 ∨ 0xDFFF < c.val.toNat ∧ c.val.toNat < 0x110000 := c.valid
  have is : Char.ofNat c.val.toNat = c := Char.ofNat_toNat c
  unfold String.utf8EncodeChar
  generalize c.val.toNat = v at valid is
  dsimp only
  by_cases one : v ≤ 0x7F
  · rw [if_pos one]
    refine .last ?_
    rw [toNat_ofNat (by omega), feed_lead idle, Decoder.lead, if_pos one, is]
  · rw [if_neg one]
    by_cases two : v ≤ 0x7FF
    · rw [if_pos two]
      refine .cons (e := ⟨d.started, 1, v / 64, 0x80, 0xBF⟩) ?_ (Nat.succ_ne_zero 0) rfl
        (.tail is rfl rfl (Nat.le_add_left _ _) (show _ ≤ 0xBF by omega))
      rw [toNat_ofNat (by omega), feed_lead idle, Decoder.lead, if_neg (by omega),
        if_pos (by omega)]
      have point : (v / 64 % 0x20 + 0xC0) % 0x20 = v / 64 := by omega
      rw [point]
    · rw [if_neg two]
      by_cases three : v ≤ 0xFFFF
      · rw [if_pos three]
        refine .cons (e := ⟨d.started, 2, v / 4096, if v / 4096 = 0 then 0xA0 else 0x80,
          if v / 4096 = 0xD then 0x9F else 0xBF⟩) ?_ (Nat.succ_ne_zero 1) rfl
          (.tail₂ is rfl rfl (show ite _ _ _ ≤ _ by split <;> omega)
            (show _ ≤ ite _ _ _ by split <;> omega))
        rw [toNat_ofNat (by omega), feed_lead idle, Decoder.lead, if_neg (by omega),
          if_neg (by omega), if_pos (by omega)]
        have point : (v / 4096 % 0x10 + 0xE0) % 0x10 = v / 4096 := by omega
        have lower : (v / 4096 % 0x10 + 0xE0 = 0xE0) = (v / 4096 = 0) := by
          rw [eq_iff_iff]
          omega
        have upper : (v / 4096 % 0x10 + 0xE0 = 0xED) = (v / 4096 = 0xD) := by
          rw [eq_iff_iff]
          omega
        simp only [point, lower, upper]
      · rw [if_neg three]
        refine .cons (e := ⟨d.started, 3, v / 262144, if v / 262144 = 0 then 0x90 else 0x80,
          if v / 262144 = 4 then 0x8F else 0xBF⟩) ?_ (Nat.succ_ne_zero 2) rfl
          (.tail₃ is rfl rfl (show ite _ _ _ ≤ _ by split <;> omega)
            (show _ ≤ ite _ _ _ by split <;> omega))
        rw [toNat_ofNat (by omega), feed_lead idle, Decoder.lead, if_neg (by omega),
          if_neg (by omega), if_neg (by omega), if_pos (by omega)]
        have point : (v / 262144 % 0x08 + 0xF0) % 0x08 = v / 262144 := by omega
        have lower : (v / 262144 % 0x08 + 0xF0 = 0xF0) = (v / 262144 = 0) := by
          rw [eq_iff_iff]
          omega
        have upper : (v / 262144 % 0x08 + 0xF0 = 0xF4) = (v / 262144 = 4) := by
          rw [eq_iff_iff]
          omega
        simp only [point, lower, upper]

/-! ## Texts that are cut -/

/-- The characters before byte `k`, and whether `k` is inside the next one. -/
def charsBefore : Nat → List Char → List Char × Bool
  | _, [] => ([], false)
  | k, c :: cs =>
      if c.utf8Size ≤ k then
        let rest := charsBefore (k - c.utf8Size) cs
        (c :: rest.1, rest.2)
      else ([], k ≠ 0)

/-- The decoder has put something out, or the text begins with no byte order mark. -/
def Unmarked (d : Decoder) (text : List Char) : Prop :=
  d.started = true ∨ text.head? ≠ some byteOrderMark

theorem emit_unmarked {c : Char} {cs : List Char} (plain : Unmarked d (c :: cs)) :
    (d.emit c).2 = [c] := by
  refine if_neg fun both => ?_
  rcases plain with started | other
  · rw [both.1] at started
    cases started
  · exact other (congrArg some both.2)

/-- The encoding of a text, cut at byte `k`: what comes out, and what the end adds. -/
theorem feedAll_encode (idle : d.needed = 0) {text : List Char} (plain : Unmarked d text)
    (k : Nat) :
    (d.feedAll ((encode text).take k)).2 = (charsBefore k text).1 ∧
      (d.feedAll ((encode text).take k)).1.flush =
        if (charsBefore k text).2 = true then [replacement] else [] := by
  induction text generalizing d k with
  | nil =>
      have none_ : (encode []).take k = [] := List.take_nil
      rw [none_]
      exact ⟨rfl, if_pos idle⟩
  | cons c cs ih =>
      have spells := spells_encodeChar idle c
      have size : (String.utf8EncodeChar c).length = c.utf8Size := String.length_utf8EncodeChar c
      have split : encode (c :: cs) = String.utf8EncodeChar c ++ encode cs := rfl
      rw [split, charsBefore]
      by_cases inside : c.utf8Size ≤ k
      · rw [if_pos inside, List.take_append, size, List.take_of_length_le (by omega),
          feedAll_append, spells.whole]
        obtain ⟨out, end_⟩ := ih (d := (d.emit c).1) rfl (.inl rfl) (k - c.utf8Size)
        exact ⟨by rw [out, emit_unmarked plain]; rfl, end_⟩
      · rw [if_neg inside, List.take_append_of_le_length (by omega)]
        rcases Nat.eq_zero_or_pos k with rfl | pos
        · rw [List.take_zero]
          exact ⟨rfl, if_pos idle⟩
        · obtain ⟨nothing, owed⟩ := spells.part k pos (by omega)
          refine ⟨nothing, ?_⟩
          rw [if_pos (decide_eq_true (Nat.ne_of_gt pos))]
          exact if_neg owed

end Utf8
