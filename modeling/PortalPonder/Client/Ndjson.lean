import PortalPonder.Lib.Json
import Mathlib.Tactic.Common

/-!
# NDJSON bodies

A response body arrives as bytes, in reads of any size, and may be cut at any byte.
`decodeBytes` is what the streaming text decoder makes of the bytes before the cut;
`ndjsonLines` is the line splitter of the client, which buffers across reads. The results are
about bodies that are lists of lines: `lines_of_cut` says that a cut body still splits into whole
lines of the list, and at most one piece of the next line.
-/

namespace PortalPonder.Client

open JSON (Text)

/-- A failed `fetch`, or a failed read of a body, as the classification reads it. -/
structure FetchError where
  name : String
  message : String
  code : String
  causeMessage : String
  causeCode : String
  deriving DecidableEq, Repr

/-- A decoded body: the text of each read, what the decoder flushes at the end of the bytes, and
the error that ended the reading in place of a clean end. -/
structure Body where
  reads : List Text
  flush : Text
  failure : Option FetchError
  deriving DecidableEq, Repr

/-- The decoder's text for the first `k` bytes of a text, and its flush: one replacement
character when the last byte is inside a character. -/
def decodeBytes : Nat → Text → Text × Text
  | _, [] => ([], [])
  | k, c :: cs =>
      if c.utf8Size ≤ k then
        let (read, flush) := decodeBytes (k - c.utf8Size) cs
        (c :: read, flush)
      else if k = 0 then ([], [])
      else ([], ['\uFFFD'])

/-- A text in reads of the given sizes, and one for what is left. -/
def inReads : List Nat → Text → List Text
  | [], text => [text]
  | n :: sizes, text => text.take n :: inReads sizes (text.drop n)

/-- The inner loop: the complete lines of the buffer, without the empty ones, and what stays
buffered. `buf` is the buffer up to the next character, last character first. -/
def drain : Text → Text → List Text × Text
  | buf, [] => ([], buf.reverse)
  | buf, c :: cs =>
      if c = '\n' then
        let (lines, rest) := drain [] cs
        (if buf = [] then lines else buf.reverse :: lines, rest)
      else drain (c :: buf) cs

/-- The reads of a body, one after the other. -/
def drainReads (buf : Text) : List Text → List Text × Text
  | [] => ([], buf)
  | read :: reads =>
      let (lines, rest) := drain buf.reverse read
      let (lines', rest') := drainReads rest reads
      (lines ++ lines', rest')

/-- The lines of a body. A body that fails has no flush. -/
def ndjsonLines (body : Body) : List Text :=
  let (lines, buf) := drainReads [] body.reads
  match body.failure with
  | some _ => lines
  | none => if buf ++ body.flush = [] then lines else lines ++ [buf ++ body.flush]

/-- The whole text of a body, for error messages. -/
def Body.text (body : Body) : Text :=
  body.reads.flatten ++ (if body.failure = none then body.flush else [])

/-- Every line is ended by a newline. -/
def joinLines (lines : List Text) : Text := lines.flatMap fun line => line ++ ['\n']

/-! ## Reads do not matter -/

theorem drain_append (buf s t : Text) :
    drain buf (s ++ t) =
      ((drain buf s).1 ++ (drain (drain buf s).2.reverse t).1,
        (drain (drain buf s).2.reverse t).2) := by
  induction s generalizing buf with
  | nil =>
      show drain buf t = (_, _)
      simp only [drain, List.reverse_reverse, List.nil_append]
  | cons c cs ih =>
      rw [List.cons_append, drain, drain]
      by_cases newline : c = '\n'
      · simp only [if_pos newline]
        rw [ih []]
        by_cases empty : buf = [] <;> simp [empty]
      · simp only [if_neg newline]
        exact ih (c :: buf)

theorem drain_nil (buf : Text) : drain buf [] = ([], buf.reverse) := by
  cases buf <;> rfl

/-- Only the text of the reads counts, not where one read ends and the next begins. -/
theorem drainReads_flatten (buf : Text) (reads : List Text) :
    drainReads buf reads = drain buf.reverse reads.flatten := by
  induction reads generalizing buf with
  | nil =>
      show ([], buf) = drain buf.reverse []
      rw [drain_nil, List.reverse_reverse]
  | cons read reads ih =>
      rw [List.flatten_cons, drain_append, drainReads]
      simp only [ih]

@[simp] theorem inReads_flatten (sizes : List Nat) (text : Text) :
    (inReads sizes text).flatten = text := by
  induction sizes generalizing text with
  | nil => exact List.append_nil text
  | cons n sizes ih => rw [inReads, List.flatten_cons, ih, List.take_append_drop]

/-! ## Cut bodies -/

/-- The decoded part is a prefix of the text, and the flush is empty or a replacement. -/
theorem decodeBytes_prefix (k : Nat) (text : Text) :
    (decodeBytes k text).1 <+: text ∧
      ((decodeBytes k text).2 = [] ∨ (decodeBytes k text).2 = ['\uFFFD']) := by
  induction text generalizing k with
  | nil => exact ⟨List.prefix_refl _, .inl rfl⟩
  | cons c cs ih =>
      rw [decodeBytes]
      split
      · exact ⟨List.cons_prefix_cons.2 ⟨rfl, (ih _).1⟩, (ih _).2⟩
      · split
        · exact ⟨List.nil_prefix, .inl rfl⟩
        · exact ⟨List.nil_prefix, .inr rfl⟩

/-- A line without its newline only fills the buffer. -/
theorem drain_line {line : Text} (oneLine : '\n' ∉ line) (buf : Text) :
    drain buf line = ([], buf.reverse ++ line) := by
  induction line generalizing buf with
  | nil => rw [drain_nil, List.append_nil]
  | cons c cs ih =>
      have other : c ≠ '\n' := fun same => oneLine (same ▸ List.mem_cons_self)
      have rest : '\n' ∉ cs := fun mem => oneLine (List.mem_cons_of_mem c mem)
      rw [drain, if_neg other, ih rest, List.reverse_cons, List.append_assoc]
      rfl

/-- A prefix of a list of lines splits into the first lines of the list, and the beginning of
the next one. -/
theorem lines_of_prefix {lines : List Text} {text : Text}
    (proper : ∀ line ∈ lines, line ≠ [] ∧ '\n' ∉ line) (cut : text <+: joinLines lines) :
    ∃ whole more part, lines = whole ++ more ∧ drain [] text = (whole, part) ∧
      (part = [] ∨ ∃ next rest tail, more = next :: rest ∧ next = part ++ tail) := by
  induction lines generalizing text with
  | nil =>
      have empty : text = [] := List.prefix_nil.1 cut
      subst empty
      exact ⟨[], [], [], rfl, rfl, .inl rfl⟩
  | cons line lines ih =>
      have here := proper line List.mem_cons_self
      have joined : joinLines (line :: lines) = line ++ '\n' :: joinLines lines := by
        show (line ++ ['\n']) ++ joinLines lines = _
        rw [List.append_assoc]
        rfl
      rw [joined] at cut
      rcases Nat.lt_or_ge line.length text.length with long | short
      · -- the cut is behind the first line
        obtain ⟨after, split⟩ : ∃ after, text = line ++ '\n' :: after := by
          obtain ⟨tail, whole⟩ := cut
          have front : line ++ ['\n'] <+: text := by
            refine List.prefix_of_prefix_length_le ⟨joinLines lines, ?_⟩ ⟨tail, whole⟩ ?_
            · rw [List.append_assoc]
              rfl
            · rw [List.length_append]
              exact long
          obtain ⟨after, rfl⟩ := front
          exact ⟨after, by rw [List.append_assoc]; rfl⟩
        subst split
        have cut' : after <+: joinLines lines := by
          have bare := (List.prefix_append_right_inj line).1 cut
          exact (List.cons_prefix_cons.1 bare).2
        obtain ⟨whole, more, part, same, drained, last⟩ :=
          ih (fun l mem => proper l (List.mem_cons_of_mem line mem)) cut'
        refine ⟨line :: whole, more, part, by rw [same]; rfl, ?_, last⟩
        rw [drain_append, drain_line here.2]
        have filled : line.reverse ≠ [] := by
          intro nil
          exact here.1 (List.reverse_eq_nil_iff.1 nil)
        simp only [List.reverse_nil, List.nil_append, drain, if_true, if_neg filled, drained,
          List.reverse_reverse]
      · -- the cut is inside the first line
        have front : text <+: line :=
          List.prefix_of_prefix_length_le cut (List.prefix_append _ _) short
        obtain ⟨tail, whole⟩ := front
        refine ⟨[], line :: lines, text, rfl, ?_, .inr ⟨line, lines, tail, rfl, whole.symm⟩⟩
        refine drain_line (fun mem => here.2 ?_) []
        rw [← whole]
        exact List.mem_append_left _ mem

/-- What a body of lines splits into when it is cut at a byte and arrives in any reads: the first
lines, and a last piece that is neither empty nor ended. -/
theorem lines_of_cut {lines : List Text} (proper : ∀ line ∈ lines, line ≠ [] ∧ '\n' ∉ line)
    (k : Nat) (sizes : List Nat) (failure : Option FetchError) :
    ∃ whole more, lines = whole ++ more ∧
      let read := decodeBytes k (joinLines lines)
      let split := ndjsonLines ⟨inReads sizes read.1, read.2, failure⟩
      split = whole ∨
        ∃ part, split = whole ++ [part] ∧
          ((∃ s, part = s ++ ['\uFFFD']) ∨
            ∃ next rest tail, more = next :: rest ∧ next = part ++ tail) := by
  obtain ⟨cut, flush⟩ := decodeBytes_prefix k (joinLines lines)
  obtain ⟨whole, more, part, same, drained, last⟩ := lines_of_prefix proper cut
  refine ⟨whole, more, same, ?_⟩
  unfold ndjsonLines
  simp only [drainReads_flatten, inReads_flatten, List.reverse_nil, drained]
  cases failure with
  | some e => exact .inl rfl
  | none =>
      rcases flush with none_ | one
      · rw [none_, List.append_nil]
        by_cases empty : part = []
        · exact .inl (if_pos empty)
        · refine .inr ⟨part, if_neg empty, .inr ?_⟩
          exact last.resolve_left empty
      · rw [one]
        refine .inr ⟨part ++ ['\uFFFD'], if_neg ?_, .inl ⟨part, rfl⟩⟩
        exact List.append_ne_nil_of_right_ne_nil part (List.cons_ne_nil _ _)

end PortalPonder.Client
