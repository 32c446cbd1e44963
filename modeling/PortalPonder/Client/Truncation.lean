import PortalPonder.Client.Coverage
import PortalPonder.Lib.Utf8

/-!
# Truncated bodies

A body of bytes, in any reads. `ndjsonLines_pieces` says that the reads make no difference, not
even inside a character. A body of JSON objects that is cut at a byte is read as the objects that
are complete before the cut, or not at all: an object finds its own end, so that no proper part of
one is accepted.
-/

namespace PortalPonder.Client

open JSON (Text Value)

/-- What the text decoder makes of the bytes of a response that ends cleanly. -/
def Body.ofBytes (reads : List (List UInt8)) : Body :=
  let decoded := Utf8.Decoder.init.stream reads
  ⟨decoded.2, decoded.1.flush, none⟩

/-- The pieces between newlines that are not empty. -/
def pieces (text : Text) : List Text := (text.splitOn '\n').filter fun line => line ≠ []

/-! ## Lines -/

/-- The pieces are those the line loop takes out of the buffer, and what stays in it. -/
theorem drain_pieces (buf text : Text) :
    (drain buf text).1 ++ (if (drain buf text).2 = [] then [] else [(drain buf text).2]) =
      (text.splitOnPPrepend (fun c => c == '\n') buf).filter fun line => line ≠ [] := by
  induction text generalizing buf with
  | nil =>
      rw [drain_nil, List.splitOnPPrepend_nil]
      by_cases empty : buf.reverse = []
      · simp [empty]
      · simp [empty]
  | cons c cs ih =>
      rw [drain]
      by_cases newline : c = '\n'
      · have splits : (fun c : Char => c == '\n') c = true := beq_iff_eq.2 newline
        rw [if_pos newline, List.splitOnPPrepend_cons_pos (p := fun c => c == '\n') splits]
        have rest := ih []
        by_cases empty : buf = []
        · subst empty
          rw [List.filter_cons_of_neg (by simp)]
          exact rest
        · rw [List.filter_cons_of_pos (by simpa using empty)]
          simp only [if_neg empty, List.cons_append]
          exact congrArg _ rest
      · have goesOn : (fun c : Char => c == '\n') c = false := beq_false_of_ne newline
        rw [if_neg newline, List.splitOnPPrepend_cons_neg (p := fun c => c == '\n') goesOn]
        exact ih (c :: buf)

theorem flush_oneLine (d : Utf8.Decoder) : '\n' ∉ d.flush := by
  unfold Utf8.Decoder.flush
  split
  · exact List.not_mem_nil
  · decide

/-- The lines of a body are the pieces of its decoded text, whatever the reads. -/
theorem ndjsonLines_pieces (reads : List (List UInt8)) :
    ndjsonLines (Body.ofBytes reads) = pieces (Utf8.decode reads.flatten) := by
  obtain ⟨state, text⟩ := Utf8.stream_flatten (d := Utf8.Decoder.init) reads
  have flushed := flush_oneLine (Utf8.Decoder.init.feedAll reads.flatten).1
  show _ = ((Utf8.decode reads.flatten).splitOnPPrepend (· == '\n') []).filter _
  unfold ndjsonLines Body.ofBytes Utf8.decode
  rw [← drain_pieces]
  simp only [drainReads_flatten, List.reverse_nil, state, text]
  rw [drain_append, drain_line flushed, List.reverse_reverse, List.append_nil]
  split
  · rw [List.append_nil]
  · rfl

/-! ## Objects -/

/-- A line that is one JSON object. -/
structure ObjectLine where
  line : Text
  value : Value
  parses : JSON.parse line = some value
  object : value.isObject = true
  oneLine : '\n' ∉ line

/-- The bytes of a body that ends every line with a newline. -/
def bodyBytes (objects : List ObjectLine) : List UInt8 :=
  Utf8.encode (joinLines (objects.map ObjectLine.line))

def byteSize (text : Text) : Nat := (Utf8.encode text).length

/-- A line up to the last brace of its object. -/
def ObjectLine.upToBrace (o : ObjectLine) : Text := (o.line.reverse.dropWhile JSON.Parser.isSpace).reverse

/-- The objects that end at byte `cut` at the latest. -/
def completeObjects : Nat → List ObjectLine → List ObjectLine
  | _, [] => []
  | cut, o :: objects =>
      if byteSize o.upToBrace ≤ cut then
        o :: completeObjects (cut - (byteSize o.line + 1)) objects
      else []

/-! ## Cutting a text -/

theorem byteSize_append (s t : Text) : byteSize (s ++ t) = byteSize s + byteSize t := by
  unfold byteSize Utf8.encode
  rw [List.flatMap_append, List.length_append]

theorem byteSize_cons (c : Char) (cs : Text) : byteSize (c :: cs) = c.utf8Size + byteSize cs := by
  unfold byteSize Utf8.encode
  rw [List.flatMap_cons, List.length_append, String.length_utf8EncodeChar]

theorem byteSize_pos {text : Text} (some_ : text ≠ []) : 0 < byteSize text := by
  cases text with
  | nil => exact absurd rfl some_
  | cons c cs =>
      rw [byteSize_cons]
      exact Nat.add_pos_left c.utf8Size_pos _

/-- A cut behind a text leaves it whole. -/
theorem charsBefore_append {s t : Text} {k : Nat} (behind : byteSize s ≤ k) :
    Utf8.charsBefore k (s ++ t) =
      (s ++ (Utf8.charsBefore (k - byteSize s) t).1, (Utf8.charsBefore (k - byteSize s) t).2) := by
  induction s generalizing k with
  | nil => rfl
  | cons c cs ih =>
      rw [byteSize_cons] at behind ⊢
      rw [List.cons_append, Utf8.charsBefore, if_pos (by omega), ih (by omega), Nat.sub_sub]
      rfl

/-- A cut inside a text, or at its end: a part of it, of just that size unless it is inside a
character. -/
theorem charsBefore_inside {s : Text} (t : Text) {k : Nat} (inside : k ≤ byteSize s) :
    ∃ rest, s = (Utf8.charsBefore k (s ++ t)).1 ++ rest ∧
      ((Utf8.charsBefore k (s ++ t)).2 = false → byteSize (Utf8.charsBefore k (s ++ t)).1 = k) := by
  induction s generalizing k with
  | nil =>
      obtain rfl : k = 0 := Nat.le_zero.1 inside
      have none_ : Utf8.charsBefore 0 ([] ++ t) = ([], false) := by
        cases t with
        | nil => rfl
        | cons c cs =>
            rw [List.nil_append, Utf8.charsBefore, if_neg (by have := c.utf8Size_pos; omega)]
            rfl
      exact ⟨[], by rw [none_]; rfl, fun _ => by rw [none_]; rfl⟩
  | cons c cs ih =>
      rw [byteSize_cons] at inside
      rw [List.cons_append, Utf8.charsBefore]
      by_cases first : c.utf8Size ≤ k
      · obtain ⟨rest, split, size⟩ := ih (k := k - c.utf8Size) (by omega)
        rw [if_pos first]
        refine ⟨rest, ?_, fun clean => ?_⟩
        · rw [List.cons_append, ← split]
        · show byteSize (c :: _) = k
          rw [byteSize_cons, size clean]
          omega
      · rw [if_neg first]
        refine ⟨c :: cs, rfl, fun clean => ?_⟩
        have zero : k = 0 := not_not.1 (of_decide_eq_false clean)
        rw [zero]
        rfl

/-! ## Reading what is left -/

namespace ObjectLine

theorem line_ne_nil (o : ObjectLine) : o.line ≠ [] := by
  obtain ⟨c, cs, split, _⟩ := JSON.parse_object_head o.object o.parses
  rw [split]
  exact List.cons_ne_nil c cs

/-- Behind the last brace there is only white space. -/
theorem upToBrace_append (o : ObjectLine) :
    ∃ space, o.line = o.upToBrace ++ space ∧ ∀ c ∈ space, JSON.Parser.isSpace c = true := by
  refine ⟨(o.line.reverse.takeWhile JSON.Parser.isSpace).reverse, ?_, fun c mem => ?_⟩
  · unfold upToBrace
    rw [← List.reverse_append, List.takeWhile_append_dropWhile, List.reverse_reverse]
  · exact List.mem_takeWhile_imp (List.mem_reverse.1 mem)

/-- A part of the line that has lost only white space goes up to the last brace. -/
theorem upToBrace_size_le (o : ObjectLine) {part rest : Text} (split : o.line = part ++ rest)
    (blank : ∀ c ∈ rest, JSON.Parser.isSpace c = true) : byteSize o.upToBrace ≤ byteSize part := by
  have kept : ∃ lost, part.reverse = lost ++ o.line.reverse.dropWhile JSON.Parser.isSpace := by
    rw [split, List.reverse_append, List.dropWhile_append_of_pos]
    · exact ⟨part.reverse.takeWhile JSON.Parser.isSpace, List.takeWhile_append_dropWhile.symm⟩
    · exact fun c mem => blank c (List.mem_reverse.1 mem)
  obtain ⟨lost, kept⟩ := kept
  have whole : part = o.upToBrace ++ lost.reverse := by
    have turned := congrArg List.reverse kept
    rw [List.reverse_reverse, List.reverse_append] at turned
    exact turned
  rw [whole, byteSize_append]
  exact Nat.le_add_right _ _

theorem upToBrace_pos (o : ObjectLine) : 0 < byteSize o.upToBrace := by
  refine byteSize_pos fun nil => ?_
  obtain ⟨space, split, blank⟩ := o.upToBrace_append
  rw [nil, List.nil_append] at split
  have parsed := o.parses
  have skipped : JSON.Parser.skipSpace o.line = [] := by
    rw [split, JSON.Parser.skipSpace, List.dropWhile_eq_nil_iff]
    exact blank
  rw [JSON.parse, JSON.value_nothing skipped] at parsed
  cases parsed

end ObjectLine

/-- Nothing is complete before the first byte. -/
theorem completeObjects_zero (objects : List ObjectLine) : completeObjects 0 objects = [] := by
  cases objects with
  | nil => rfl
  | cons o objects => exact if_neg (Nat.not_le.2 o.upToBrace_pos)

/-! ## The pieces of a cut body -/

theorem pieces_drain (text : Text) :
    pieces text = (drain [] text).1 ++ if (drain [] text).2 = [] then [] else [(drain [] text).2] :=
  (drain_pieces [] text).symm

/-- What has no newline is one piece. -/
theorem pieces_line {line : Text} (some_ : line ≠ []) (oneLine : '\n' ∉ line) :
    pieces line = [line] := by
  rw [pieces_drain, drain_line oneLine, List.reverse_nil, List.nil_append]
  exact if_neg some_

theorem pieces_cons {line : Text} (some_ : line ≠ []) (oneLine : '\n' ∉ line) (text : Text) :
    pieces (line ++ '\n' :: text) = line :: pieces text := by
  rw [pieces_drain, pieces_drain text, drain_append, drain_line oneLine]
  have filled : line.reverse ≠ [] := fun nil => some_ (List.reverse_eq_nil_iff.1 nil)
  simp only [List.reverse_nil, List.nil_append, drain, if_true, if_neg filled, List.reverse_reverse,
    List.cons_append]

/-- The text of a body of objects that is cut at byte `cut`. -/
def cutText (cut : Nat) (objects : List ObjectLine) : Text :=
  let before := Utf8.charsBefore cut (joinLines (objects.map ObjectLine.line))
  before.1 ++ if before.2 = true then [Utf8.replacement] else []

theorem joinLines_cons (line : Text) (lines : List Text) :
    joinLines (line :: lines) = (line ++ ['\n']) ++ joinLines lines := rfl

theorem ObjectLine.byteSize_ended (o : ObjectLine) :
    byteSize (o.line ++ ['\n']) = byteSize o.line + 1 := by
  rw [byteSize_append]
  rfl

/-- A cut behind the first object. -/
theorem cutText_behind {cut : Nat} {o : ObjectLine} (objects : List ObjectLine)
    (behind : byteSize o.line + 1 ≤ cut) :
    cutText cut (o :: objects) =
      o.line ++ '\n' :: cutText (cut - (byteSize o.line + 1)) objects := by
  unfold cutText
  rw [List.map_cons, joinLines_cons, charsBefore_append (by rwa [o.byteSize_ended]),
    o.byteSize_ended]
  simp only [List.append_assoc, List.cons_append, List.nil_append]

/-- A cut in the first object: a replacement character ends the text, or the text is just as long
as the cut says. -/
theorem cutText_inside {cut : Nat} {o : ObjectLine} (objects : List ObjectLine)
    (inside : cut ≤ byteSize o.line) :
    ∃ part rest, o.line = part ++ rest ∧
      (cutText cut (o :: objects) = part ++ [Utf8.replacement] ∨
        cutText cut (o :: objects) = part ∧ byteSize part = cut) := by
  have joined : joinLines ((o :: objects).map ObjectLine.line) =
      o.line ++ ('\n' :: joinLines (objects.map ObjectLine.line)) := by
    rw [List.map_cons, joinLines_cons, List.append_assoc]
    rfl
  obtain ⟨rest, split, size⟩ :=
    charsBefore_inside ('\n' :: joinLines (objects.map ObjectLine.line)) inside
  rw [← joined] at split size
  refine ⟨_, rest, split, ?_⟩
  unfold cutText
  cases torn : (Utf8.charsBefore cut (joinLines ((o :: objects).map ObjectLine.line))).2 with
  | true => exact .inl (congrArg _ (if_pos torn))
  | false =>
      refine .inr ⟨?_, size torn⟩
      dsimp only
      rw [torn]
      exact List.append_nil _

theorem ObjectLine.ne_null (o : ObjectLine) : o.value ≠ .null := by
  intro null
  have object := o.object
  rw [null] at object
  cases object

theorem readBlocks_value (cursor last : Nat) {line : Text} {v : Value} (lines : List Text)
    (parses : JSON.parse line = some v) (notNull : v ≠ .null) :
    ∃ last', readBlocks cursor (line :: lines) last =
      (readBlocks cursor lines last').map fun batch => { batch with blocks := v :: batch.blocks } := by
  refine ⟨(headerNumber v).elim last fun n => if n > last then n else last, ?_⟩
  cases v with
  | null => exact absurd rfl notNull
  | bool | num | str | arr | obj =>
      rw [readBlocks, parses]
      dsimp only
      generalize headerNumber _ = number
      cases number with
      | none =>
          rw [Option.elim_none]
          cases readBlocks cursor lines last <;> rfl
      | some n =>
          rw [Option.elim_some]
          cases readBlocks cursor lines (if n > last then n else last) <;> rfl

/-- What a read of the lines of a cut body comes to. -/
def ReadsComplete (cursor cut : Nat) (objects : List ObjectLine) (read : Except PortalError Batch) :
    Prop :=
  read = .error (.truncatedBody cursor) ∨
    ∃ last, read = .ok ⟨(completeObjects cut objects).map ObjectLine.value, last⟩

theorem completeObjects_behind {cut : Nat} {o : ObjectLine} (objects : List ObjectLine)
    (behind : byteSize o.upToBrace ≤ cut) :
    completeObjects cut (o :: objects) =
      o :: completeObjects (cut - (byteSize o.line + 1)) objects := if_pos behind

theorem ObjectLine.upToBrace_le (o : ObjectLine) : byteSize o.upToBrace ≤ byteSize o.line :=
  o.upToBrace_size_le (List.append_nil _).symm fun _ mem => absurd mem List.not_mem_nil

/-- A cut body is read as its complete objects, or not at all. -/
theorem readBlocks_cutText (cursor : Nat) (objects : List ObjectLine) (cut last : Nat) :
    ReadsComplete cursor cut objects (readBlocks cursor (pieces (cutText cut objects)) last) := by
  induction objects generalizing cut last with
  | nil => exact .inr ⟨last, rfl⟩
  | cons o objects ih =>
      rcases Nat.lt_or_ge (byteSize o.line) cut with behind | inside
      · rw [cutText_behind objects behind, pieces_cons o.line_ne_nil o.oneLine]
        obtain ⟨last', read⟩ := readBlocks_value cursor last
          (pieces (cutText (cut - (byteSize o.line + 1)) objects)) o.parses o.ne_null
        have whole := o.upToBrace_le
        unfold ReadsComplete
        rw [read, completeObjects_behind objects (by omega)]
        rcases ih (cut - (byteSize o.line + 1)) last' with failed | ⟨last'', read⟩
        · rw [failed]
          exact .inl rfl
        · rw [read]
          exact .inr ⟨last'', rfl⟩
      · obtain ⟨part, rest, split, torn | ⟨clean, size⟩⟩ := cutText_inside objects inside
        · -- inside a character
          have oneLine : '\n' ∉ part ++ [Utf8.replacement] := by
            intro mem
            rcases List.mem_append.1 mem with mem | mem
            · exact o.oneLine (split ▸ List.mem_append_left rest mem)
            · exact absurd mem (by decide)
          rw [torn, pieces_line (List.append_ne_nil_of_right_ne_nil part (List.cons_ne_nil _ _))
            oneLine, Utf8.replacement, readBlocks_truncated (JSON.parse_replacement part)]
          exact .inl rfl
        · rw [clean]
          by_cases empty : part = []
          · subst empty
            obtain rfl : cut = 0 := size.symm
            refine .inr ⟨last, ?_⟩
            rw [completeObjects_zero]
            rfl
          · have oneLine : '\n' ∉ part := fun mem =>
              o.oneLine (split ▸ List.mem_append_left rest mem)
            rw [pieces_line empty oneLine]
            cases parsed : JSON.parse part with
            | none =>
                rw [readBlocks_truncated parsed]
                exact .inl rfl
            | some w =>
                -- only white space is missing
                have whole := o.parses
                rw [split] at whole
                obtain ⟨rfl, blank⟩ := JSON.parse_cut o.object whole parsed
                have complete := o.upToBrace_size_le split blank
                obtain ⟨last', read⟩ := readBlocks_value cursor last [] parsed o.ne_null
                refine .inr ⟨last', ?_⟩
                have none_ : cut - (byteSize o.line + 1) = 0 := by omega
                rw [read, completeObjects_behind objects (by omega), none_, completeObjects_zero]
                rfl

/-! ## The batch -/

/-- A body of objects begins with no byte order mark. -/
theorem joinLines_unmarked (objects : List ObjectLine) :
    Utf8.Unmarked Utf8.Decoder.init (joinLines (objects.map ObjectLine.line)) := by
  refine .inr ?_
  cases objects with
  | nil => exact nofun
  | cons o objects =>
      obtain ⟨c, cs, split, first⟩ := JSON.parse_object_head o.object o.parses
      rw [List.map_cons, joinLines_cons, split]
      intro marked
      cases marked
      exact absurd first (by decide)

theorem decode_cut (objects : List ObjectLine) (cut : Nat) :
    Utf8.decode ((bodyBytes objects).take cut) = cutText cut objects := by
  obtain ⟨text, end_⟩ := Utf8.feedAll_encode (d := .init) rfl (joinLines_unmarked objects) cut
  unfold Utf8.decode bodyBytes cutText
  dsimp only
  rw [text, end_]

/-- A response to an allowed request, read as lines. -/
theorem fetchBatch_readBlocks {bodyLength : Request → Nat} {req : Request} {res : Response}
    (fits : bodyLength req ≤ MAX_RAW_QUERY_SIZE) (ok : 200 ≤ res.status ∧ res.status ≤ 299)
    (content : res.status ≠ 204) (ends : res.body.failure = none) :
    fetchBatch bodyLength req (.ok res) =
      match readBlocks req.fromBlock (ndjsonLines res.body) req.fromBlock with
      | .error e => .error e
      | .ok batch =>
          if batch.blocks = [] then .error (.truncatedBody req.fromBlock) else .ok batch := by
  have small : ¬ bodyLength req > MAX_RAW_QUERY_SIZE := by omega
  have some_ : ¬ (res.status = 204 ∧ req.fromBlock ≤ req.toBlock) := fun none_ => content none_.1
  have served : ¬ (res.status ≥ 500 ∨ res.status = 429 ∨ res.status = 409) := by omega
  unfold fetchBatch
  simp only [if_neg small, if_neg some_, if_neg served, if_neg (not_not.2 ok)]
  cases readBlocks req.fromBlock (ndjsonLines res.body) req.fromBlock with
  | error e => rfl
  | ok batch => rw [ends]

/-- Lines are the pieces between newlines of the decoded bytes, whatever the reads; and a body of
objects, cut at any byte, gives the objects that are complete before the cut, or is taken for
truncated. -/
theorem fetchBatch_cut :
    (∀ reads : List (List UInt8),
      ndjsonLines (Body.ofBytes reads) = pieces (Utf8.decode reads.flatten)) ∧
    ∀ (bodyLength : Request → Nat) (req : Request) (status : Nat) (retryAfterMs : Option Nat)
      (objects : List ObjectLine) (cut : Nat) (reads : List (List UInt8)),
      bodyLength req ≤ MAX_RAW_QUERY_SIZE → 200 ≤ status ∧ status ≤ 299 → status ≠ 204 →
      reads.flatten = (bodyBytes objects).take cut →
      let fetched := fetchBatch bodyLength req (.ok ⟨status, retryAfterMs, Body.ofBytes reads⟩)
      fetched = .error (.truncatedBody req.fromBlock) ∨
        ∃ batch, fetched = .ok batch ∧
          batch.blocks = (completeObjects cut objects).map ObjectLine.value := by
  refine ⟨ndjsonLines_pieces, ?_⟩
  intro bodyLength req status retryAfterMs objects cut reads fits ok content bytes
  dsimp only
  rw [fetchBatch_readBlocks fits ok content rfl, ndjsonLines_pieces, bytes, decode_cut]
  rcases readBlocks_cutText req.fromBlock objects cut req.fromBlock with failed | ⟨last, read⟩
  · rw [failed]
    exact .inl rfl
  · rw [read]
    dsimp only
    split
    · exact .inl rfl
    · exact .inr ⟨_, rfl, rfl⟩

def ObjectLine.ofLine (line : Text) (accepted : (JSON.parse line).isSome)
    (object : ((JSON.parse line).get accepted).isObject = true) (oneLine : '\n' ∉ line) :
    ObjectLine where
  line := line
  value := (JSON.parse line).get accepted
  parses := (Option.some_get accepted).symm
  object := object
  oneLine := oneLine

/-- An object with a character of two bytes. -/
def sampleObject : ObjectLine :=
  .ofLine "\x7b\"name\":\"é\"\x7d".toList (by decide +kernel) (by decide +kernel)
    (by decide +kernel)

/-- The first read ends inside the first such character, the last one inside the second. -/
def sampleBytes : List (List UInt8) :=
  [(bodyBytes [sampleObject, sampleObject]).take 10,
    ((bodyBytes [sampleObject, sampleObject]).take 24).drop 10]

theorem fetchBatch_cut_sample :
    let fetched := fetchBatch (fun _ => 100) ⟨[], 5, 9⟩ (.ok ⟨200, none, Body.ofBytes sampleBytes⟩)
    fetched = .error (.truncatedBody 5) ∨
      ∃ batch, fetched = .ok batch ∧
        batch.blocks =
          (completeObjects 24 [sampleObject, sampleObject]).map ObjectLine.value :=
  fetchBatch_cut.2 (fun _ => 100) ⟨[], 5, 9⟩ 200 none [sampleObject, sampleObject] 24 sampleBytes
    (by decide) (by decide) (by decide) (by decide +kernel)

end PortalPonder.Client
