import PortalPonder.Client.Termination
import Mathlib.Data.List.Forall2

/-!
# What the stream covers

A server lists the blocks of a query in ascending order, from the first block of its dataset on.
Its answers are adversarial: any prefix of the blocks asked for, cut at any byte, or any of the
errors the client handles. `stream_exact` says that what is yielded is a prefix of the list of
blocks asked for, that a stream which finishes has yielded all of it, and that every stream ends.
-/

namespace PortalPonder.Client

open JSON (Text)
open Rounds

/-- A block of the query. Its line depends on the fields that are asked for, its number does
not. -/
structure ServedBlock where
  number : Nat
  line : Fields → Text
  row : Fields → RawBlock
  parses : ∀ fields, JSON.parse (line fields) = some (row fields)
  object : ∀ fields, (row fields).isObject = true
  numbered : ∀ fields, headerNumber (row fields) = some number
  oneLine : ∀ fields, '\n' ∉ line fields

structure Server where
  startsAt : Nat
  blocks : List ServedBlock
  ascending : blocks.Pairwise fun a b => a.number < b.number
  started : ∀ b ∈ blocks, startsAt ≤ b.number
  /-- the columns its 400s can name, each with its table -/
  columns : List (String × String)

/-- The blocks of a range. -/
def Server.listed (srv : Server) (lo hi : Nat) : List ServedBlock :=
  srv.blocks.filter fun b => lo ≤ b.number ∧ b.number ≤ hi

inductive Reply where
  /-- 200: the first `count` blocks asked for, the body cut behind `cut` bytes and read in pieces
  of the sizes `reads`; `failure` when the connection failed in place of a clean end -/
  | blocks (count cut : Nat) (reads : List Nat) (failure : Option FetchError)
  | noContent
  | throttle (status : Nat) (retryAfterMs : Option Nat)
  | networkError (cause : FetchError)
  | badRequest (body : Body)

def Server.answer (srv : Server) (reply : Reply) (req : Request) : Except FetchError Response :=
  match reply with
  | .blocks count cut reads failure =>
      let lines := ((srv.listed req.fromBlock req.toBlock).take count).map (·.line req.fields)
      let text := decodeBytes cut (joinLines lines)
      .ok ⟨200, none, ⟨inReads reads text.1, text.2, failure⟩⟩
  | .noContent => .ok ⟨204, none, ⟨[], [], none⟩⟩
  | .throttle status retryAfterMs => .ok ⟨status, retryAfterMs, ⟨[], [], none⟩⟩
  | .networkError cause => .error cause
  | .badRequest body => .ok ⟨400, none, body⟩

/-- A 400 that names a missing column. -/
def Server.NamesColumn (srv : Server) (text : Text) : Prop :=
  ∃ ct ∈ srv.columns, columnNotFound text = some ct ∨
    (columnNotFound text = none ∧ unknownField text = some ct.1)

/-- A 400 that names the first block of the dataset. -/
def Server.NamesStart (srv : Server) (text : Text) : Prop :=
  columnNotFound text = none ∧ unknownField text = none ∧
    datasetStartsAt text = some srv.startsAt

/-- The answers the server can give. -/
def Server.Allows (srv : Server) : Reply → Prop
  | .blocks _ _ _ _ => True
  | .noContent => True
  | .throttle status _ => status = 429 ∨ status = 409 ∨ 500 ≤ status
  | .networkError _ => True
  | .badRequest body =>
      srv.NamesColumn (body.text.take 300) ∨ srv.NamesStart (body.text.take 300)

/-- The rows are those of the blocks, in order, each read with some of the fields dropped. -/
def Shows (query : Fields) (rows : List RawBlock) (blocks : List ServedBlock) : Prop :=
  List.Forall₂ (fun row b => ∃ dropped, row = b.row (stripFields query dropped)) rows blocks

/-! ## Ranges -/

theorem mem_listed {srv : Server} {lo hi : Nat} {b : ServedBlock} :
    b ∈ srv.listed lo hi ↔ b ∈ srv.blocks ∧ lo ≤ b.number ∧ b.number ≤ hi := by
  unfold Server.listed
  rw [List.mem_filter, decide_eq_true_eq]

theorem listed_ascending (srv : Server) (lo hi : Nat) :
    (srv.listed lo hi).Pairwise fun a b => a.number < b.number :=
  srv.ascending.sublist List.filter_sublist

/-- A bound inside the range only drops the blocks below it. -/
theorem listed_of_le {srv : Server} {lo mid hi : Nat} (le : lo ≤ mid) :
    srv.listed mid hi = (srv.listed lo hi).filter fun b => mid ≤ b.number := by
  unfold Server.listed
  rw [List.filter_filter]
  refine List.filter_congr fun b _ => ?_
  rw [← Bool.decide_and, decide_eq_decide]
  omega

theorem listed_empty {srv : Server} {lo hi : Nat} (above : hi < lo) : srv.listed lo hi = [] := by
  refine List.filter_eq_nil_iff.2 fun b _ both => ?_
  rw [decide_eq_true_eq] at both
  omega

/-- Nothing is listed below the first block of the dataset. -/
theorem listed_from_start (srv : Server) (lo hi : Nat) :
    srv.listed (max lo srv.startsAt) hi = srv.listed lo hi := by
  rw [listed_of_le (Nat.le_max_left lo srv.startsAt), List.filter_eq_self]
  intro b mem
  obtain ⟨listed, low, _⟩ := mem_listed.1 mem
  exact decide_eq_true (Nat.max_le.2 ⟨low, srv.started b listed⟩)

/-- Behind the last block of a batch, exactly the rest of the range is listed. -/
theorem listed_behind {srv : Server} {lo hi : Nat} {init more : List ServedBlock}
    {b : ServedBlock} (split : srv.listed lo hi = init ++ b :: more) :
    srv.listed (b.number + 1) hi = more := by
  have here : b ∈ srv.listed lo hi := by
    rw [split]
    exact List.mem_append_right _ List.mem_cons_self
  have low := (mem_listed.1 here).2.1
  have asc := listed_ascending srv lo hi
  rw [split, List.pairwise_append] at asc
  obtain ⟨_, tail, across⟩ := asc
  rw [listed_of_le (Nat.le_succ_of_le low), split, List.filter_append, List.filter_cons_of_neg,
    List.filter_eq_nil_iff.2, List.filter_eq_self.2, List.nil_append]
  · intro c mem
    exact decide_eq_true ((List.pairwise_cons.1 tail).1 c mem)
  · intro c mem keep
    have below := across c mem b List.mem_cons_self
    have above := of_decide_eq_true keep
    omega
  · intro keep
    have above := of_decide_eq_true keep
    omega

/-! ## Reading a cut batch -/

theorem ServedBlock.line_ne_nil (b : ServedBlock) (fields : Fields) : b.line fields ≠ [] := by
  intro nil
  have parsed := b.parses fields
  rw [nil] at parsed
  cases parsed

/-- The last number of a list of blocks. -/
def lastNumber (last : Nat) (blocks : List ServedBlock) : Nat :=
  blocks.foldl (fun _ b => b.number) last

theorem lastNumber_le {last n : Nat} {blocks : List ServedBlock} (le : last ≤ n)
    (below : ∀ b ∈ blocks, b.number ≤ n) : lastNumber last blocks ≤ n := by
  induction blocks generalizing last with
  | nil => exact le
  | cons b blocks ih =>
      exact ih (below b List.mem_cons_self) fun c mem => below c (List.mem_cons_of_mem b mem)

def Batch.prepend (rows : List RawBlock) (batch : Batch) : Batch :=
  { batch with blocks := rows ++ batch.blocks }

/-- Whole lines are read as the rows they stand for; what follows them is read from there. -/
theorem readBlocks_lines {cursor last : Nat} {fields : Fields} {blocks : List ServedBlock}
    (above : ∀ b ∈ blocks, last ≤ b.number)
    (asc : blocks.Pairwise fun a b => a.number < b.number) (more : List Text) :
    readBlocks cursor (blocks.map (·.line fields) ++ more) last =
      (readBlocks cursor more (lastNumber last blocks)).map
        (Batch.prepend (blocks.map (·.row fields))) := by
  induction blocks generalizing last with
  | nil =>
      show readBlocks cursor more last = (readBlocks cursor more last).map (Batch.prepend [])
      cases readBlocks cursor more last <;> rfl
  | cons b blocks ih =>
      obtain ⟨first, rest⟩ := List.pairwise_cons.1 asc
      have low := above b List.mem_cons_self
      have moved : (if b.number > last then b.number else last) = b.number := by
        split <;> omega
      have tail := ih (fun c mem => Nat.le_of_lt (first c mem)) rest
      rw [List.map_cons, List.cons_append, readBlocks, b.parses fields]
      have object := b.object fields
      cases row : b.row fields with
      | obj members =>
          have number := b.numbered fields
          rw [row] at number
          simp only [number, moved, tail, List.map_cons, row]
          show _ = (readBlocks cursor more (lastNumber b.number blocks)).map _
          cases readBlocks cursor more (lastNumber b.number blocks) <;> rfl
      | null | bool | num | str | arr =>
          rw [row] at object
          cases object

/-- A line that does not parse is read as a truncation. -/
theorem readBlocks_truncated {cursor last : Nat} {line : Text} (bad : JSON.parse line = none) :
    readBlocks cursor [line] last = .error (.truncatedBody cursor) := by
  rw [readBlocks, bad]

/-- Only the parsed value of a line counts. -/
theorem readBlocks_congr {cursor last : Nat} {line line' : Text}
    (same : JSON.parse line = JSON.parse line') :
    readBlocks cursor [line] last = readBlocks cursor [line'] last := by
  rw [readBlocks, readBlocks, same]

/-- A cut batch is read as a prefix of its blocks, or not at all. -/
theorem readBlocks_cut {cursor : Nat} {fields : Fields} {blocks : List ServedBlock} {k : Nat}
    {reads : List Nat} {failure : Option FetchError} {batch : Batch}
    (above : ∀ b ∈ blocks, cursor ≤ b.number)
    (asc : blocks.Pairwise fun a b => a.number < b.number)
    (read : readBlocks cursor
      (ndjsonLines ⟨inReads reads (decodeBytes k (joinLines (blocks.map (·.line fields)))).1,
        (decodeBytes k (joinLines (blocks.map (·.line fields)))).2, failure⟩) cursor =
      .ok batch) :
    ∃ whole more, blocks = whole ++ more ∧ batch.blocks = whole.map (·.row fields) ∧
      batch.last = lastNumber cursor whole := by
  have proper : ∀ line ∈ blocks.map (·.line fields), line ≠ [] ∧ '\n' ∉ line := by
    intro line mem
    obtain ⟨b, _, rfl⟩ := List.mem_map.1 mem
    exact ⟨b.line_ne_nil fields, b.oneLine fields⟩
  obtain ⟨lines, rest, split, pieces⟩ := lines_of_cut proper k reads failure
  obtain ⟨whole, more, rfl, rfl, rfl⟩ := List.map_eq_append_iff.1 split
  have wholeAbove : ∀ b ∈ whole, cursor ≤ b.number :=
    fun b mem => above b (List.mem_append_left more mem)
  have wholeAsc := (List.pairwise_append.1 asc).1
  simp only at pieces
  rcases pieces with exact_ | ⟨part, exact_, cut⟩
  · -- only whole lines
    rw [exact_, ← List.append_nil (whole.map _), readBlocks_lines wholeAbove wholeAsc] at read
    cases read
    exact ⟨whole, more, rfl, List.append_nil _, rfl⟩
  · rw [exact_, readBlocks_lines wholeAbove wholeAsc] at read
    have bad : JSON.parse part ≠ none := by
      intro none_
      rw [readBlocks_truncated none_] at read
      cases read
    rcases cut with ⟨s, rfl⟩ | ⟨next, rest, tail, same, front⟩
    · exact absurd (JSON.parse_replacement s) bad
    · -- the last piece is the next line after all
      obtain ⟨b, more', rfl, rfl, rfl⟩ := List.map_eq_cons_iff.1 same
      obtain ⟨w, parsed⟩ := Option.ne_none_iff_exists'.1 bad
      have whole_ := b.parses fields
      rw [front] at whole_
      have value := (JSON.parse_cut (b.object fields) whole_ parsed).1
      have asLine : JSON.parse part = JSON.parse (b.line fields) := by
        rw [parsed, value, b.parses fields]
      have low : ∀ c ∈ [b], lastNumber cursor whole ≤ c.number := by
        intro c mem
        rw [List.mem_singleton.1 mem]
        refine lastNumber_le (above b ?_) fun d mem' => Nat.le_of_lt ?_
        · exact List.mem_append_right whole List.mem_cons_self
        · exact (List.pairwise_append.1 asc).2.2 d mem' b List.mem_cons_self
      have one : readBlocks cursor ([b].map (·.line fields) ++ []) (lastNumber cursor whole) = _ :=
        readBlocks_lines low (List.pairwise_singleton _ b) []
      rw [readBlocks_congr asLine] at read
      rw [List.map_cons, List.map_nil, List.append_nil] at one
      rw [one] at read
      cases read
      refine ⟨whole ++ [b], more', List.append_cons whole b more', ?_, ?_⟩
      · show whole.map _ ++ ([b.row fields] ++ []) = _
        rw [List.append_nil, List.map_append]
        rfl
      · unfold lastNumber
        rw [List.foldl_append]
        rfl

/-! ## One round -/

/-- The fields that can be dropped over a whole stream. -/
def Server.fieldKeys (srv : Server) : List FieldKey :=
  srv.columns.flatMap fun ct =>
    colToFieldKey ct.1 ct.2 :: fieldTables.map fun table => ⟨table, ct.1⟩

/-- Everything a round can do. -/
inductive RoundCase (srv : Server) (query : Fields) (toBlock : Nat) (s : StreamState) :
    Except StreamEnd StreamState → Prop where
  /-- a nonempty beginning of the rest is yielded -/
  | batch (whole more : List ServedBlock) (b : ServedBlock) (rows : List RawBlock)
      (listed : srv.listed s.cursor toBlock = whole ++ b :: more)
      (shows_ : Shows query rows (whole ++ [b])) :
      RoundCase srv query toBlock s (onBatch toBlock s ⟨rows, b.number⟩)
  | beforeDataset (starts : toBlock < srv.startsAt) :
      RoundCase srv query toBlock s (.error s.finish)
  | skipped (ahead : s.cursor < srv.startsAt) (inside : srv.startsAt ≤ toBlock) :
      RoundCase srv query toBlock s (.ok { s with cursor := srv.startsAt })
  | dropped (fieldKey : FieldKey) (missing : List (FieldKey × String))
      (known : fieldKey ∈ srv.fieldKeys) (new : fieldKey ∉ s.triedCols) :
      RoundCase srv query toBlock s (.ok { s with
        triedCols := fieldKey :: s.triedCols
        dropped := fieldKey :: s.dropped
        neededMissing := missing })
  | retried (left : s.attempt < MAX_TRANSIENT_RETRIES) :
      RoundCase srv query toBlock s (.ok { s with attempt := s.attempt + 1 })
  | threw (e : StreamError) : RoundCase srv query toBlock s (.error (s.throw e))

variable {srv : Server} {query : Fields} {fromBlock toBlock : Nat} {s : StreamState}

theorem onTransient_case (e : PortalError) :
    RoundCase srv query toBlock s (onTransient s e) := by
  unfold onTransient
  split
  case isTrue =>
      cases e <;> exact .threw _
  case isFalse more => exact .retried (Nat.lt_of_not_ge more)

theorem onSchemaField_case {fieldKey : FieldKey} (known : fieldKey ∈ srv.fieldKeys) (tag : String)
    (e : PortalError) : RoundCase srv query toBlock s (onSchemaField s fieldKey tag e) := by
  unfold onSchemaField
  split
  case isTrue => exact .threw _
  case isFalse new => exact .dropped fieldKey _ known new

theorem onDatasetStart_case (e : PortalError) :
    RoundCase srv query toBlock s (onDatasetStart toBlock s srv.startsAt e) := by
  unfold onDatasetStart
  split
  case isTrue starts => exact .beforeDataset starts
  case isFalse inside =>
      split
      case isTrue ahead => exact .skipped ahead (Nat.le_of_not_lt inside)
      case isFalse => exact .threw _

/-- What a 400 of the server is taken for. -/
theorem badResponse_column {req : Request} {body : Body}
    (names : srv.NamesColumn (body.text.take 300)) :
    ∃ fieldKey ∈ srv.fieldKeys, ∃ tableKey tag,
      badResponse req ⟨400, none, body⟩ = .schemaField fieldKey tableKey tag := by
  obtain ⟨ct, known, column | ⟨other, field⟩⟩ := names
  · refine ⟨colToFieldKey ct.1 ct.2, List.mem_flatMap.2 ⟨ct, known, List.mem_cons_self⟩,
      TABLE_TO_KEY ct.2, ct.1, ?_⟩
    unfold badResponse parseSchemaFieldError
    simp only [column]
    rfl
  · -- the table the field is looked up in is one of four
    let table := (fieldTables.find? fun t => req.fields.requests t ct.1).getD "transaction"
    have one : table ∈ fieldTables := by
      cases found : fieldTables.find? fun t => req.fields.requests t ct.1 with
      | none =>
          simp only [table, found]
          exact List.mem_cons_self
      | some t =>
          simp only [table, found]
          exact List.mem_of_find?_eq_some found
    refine ⟨⟨table, ct.1⟩, List.mem_flatMap.2 ⟨ct, known, List.mem_cons_of_mem _
      (List.mem_map.2 ⟨table, one, rfl⟩)⟩, table, ct.1, ?_⟩
    unfold badResponse parseSchemaFieldError
    simp only [other, field]
    rfl

theorem badResponse_start {req : Request} {body : Body}
    (names : srv.NamesStart (body.text.take 300)) :
    badResponse req ⟨400, none, body⟩ = .datasetStart srv.startsAt := by
  obtain ⟨column, field, starts⟩ := names
  unfold badResponse parseSchemaFieldError
  simp only [column, field, starts]
  rfl

theorem onError_plain {e : PortalError} (plain : Plain e) :
    RoundCase srv query toBlock s (onError toBlock s e) := by
  cases e with
  | queryTooLarge | missingTable | datasetStart | schemaField => exact plain.elim
  | requestTooLarge | network | incompleteRange | throttle | http | truncatedBody | nullBlock =>
      unfold onError
      simp only
      split
      · exact onTransient_case _
      · exact .threw _

/-- What a request can bring. -/
inductive FetchCase (srv : Server) (req : Request) : Except PortalError Batch → Prop where
  | batch (whole more : List ServedBlock) (b : ServedBlock)
      (listed : srv.listed req.fromBlock req.toBlock = whole ++ b :: more) :
      FetchCase srv req (.ok ⟨(whole ++ [b]).map (·.row req.fields), b.number⟩)
  | column (fieldKey : FieldKey) (tableKey tag : String) (known : fieldKey ∈ srv.fieldKeys) :
      FetchCase srv req (.error (.schemaField fieldKey tableKey tag))
  | start : FetchCase srv req (.error (.datasetStart srv.startsAt))
  | plain (e : PortalError) (plain : Plain e) : FetchCase srv req (.error e)

/-- What is read from an answer of blocks. -/
theorem readBlocks_answer {req : Request} {count cut : Nat} {reads : List Nat}
    {failure : Option FetchError} {batch : Batch}
    (read : readBlocks req.fromBlock
      (let lines := ((srv.listed req.fromBlock req.toBlock).take count).map (·.line req.fields)
      let text := decodeBytes cut (joinLines lines)
      ndjsonLines ⟨inReads reads text.1, text.2, failure⟩) req.fromBlock = .ok batch)
    (nonempty : batch.blocks ≠ []) : FetchCase srv req (.ok batch) := by
  have asc := listed_ascending srv req.fromBlock req.toBlock
  have front := List.take_append_drop count (srv.listed req.fromBlock req.toBlock)
  obtain ⟨whole, more, split, rows, last⟩ := readBlocks_cut
    (fun b mem => (mem_listed.1 (List.mem_of_mem_take mem)).2.1)
    (asc.sublist (List.take_sublist _ _)) read
  rcases List.eq_nil_or_concat whole with rfl | ⟨init, b, rfl⟩
  · exact absurd rows nonempty
  · rw [List.concat_eq_append] at split rows last
    rw [split, List.append_assoc, List.append_assoc] at front
    have number : batch.last = b.number := by
      unfold lastNumber at last
      rw [List.foldl_append] at last
      exact last
    have same : batch = ⟨(init ++ [b]).map (·.row req.fields), b.number⟩ := by
      rw [← rows, ← number]
    rw [same]
    exact .batch init _ b front.symm

theorem fetchBatch_case (bodyLength : Request → Nat) {reply : Reply} (req : Request)
    (allowed : srv.Allows reply) (open_ : req.fromBlock ≤ req.toBlock) :
    FetchCase srv req (fetchBatch bodyLength req (srv.answer reply req)) := by
  unfold fetchBatch
  simp only
  split
  case isTrue => exact .plain _ trivial
  case isFalse =>
      cases reply with
      | blocks count cut reads failure =>
          simp only [Server.answer]
          rw [if_neg (fun both => absurd both.1 (by decide)), if_neg (by decide),
            if_neg (by decide)]
          split
          next e failed => exact .plain _ (readBlocks_plain failed)
          next batch read =>
            cases failure with
            | some cause => exact .plain _ trivial
            | none =>
                simp only
                split
                case isTrue => exact .plain _ trivial
                case isFalse nonempty => exact readBlocks_answer read nonempty
      | noContent =>
          simp only [Server.answer]
          rw [if_pos ⟨trivial, open_⟩]
          exact .plain _ trivial
      | throttle status retryAfterMs =>
          have other : ¬(status = 204 ∧ req.fromBlock ≤ req.toBlock) := by
            rintro ⟨rfl, _⟩
            have never : (204 : Nat) = 429 ∨ 204 = 409 ∨ 500 ≤ 204 := allowed
            omega
          have busy : status ≥ 500 ∨ status = 429 ∨ status = 409 := by
            rcases allowed with same | same | high
            · exact .inr (.inl same)
            · exact .inr (.inr same)
            · exact .inl high
          simp only [Server.answer]
          rw [if_neg other, if_pos busy]
          exact .plain _ trivial
      | networkError cause => exact .plain _ trivial
      | badRequest body =>
          simp only [Server.answer]
          rw [if_neg (fun both => absurd both.1 (by decide)), if_neg (by decide),
            if_pos (by decide)]
          rcases allowed with column | start
          · obtain ⟨fieldKey, known, tableKey, tag, same⟩ := badResponse_column column
            rw [same]
            exact .column fieldKey tableKey tag known
          · rw [badResponse_start start]
            exact .start

theorem streamRound_case (bodyLength : Request → Nat) (query : Fields) {reply : Reply}
    (allowed : srv.Allows reply) (open_ : s.cursor ≤ toBlock) :
    RoundCase srv query toBlock s
      (streamRound bodyLength query toBlock (srv.answer reply) s) := by
  unfold streamRound
  simp only
  have fetched := fetchBatch_case bodyLength (s.request query toBlock) allowed open_
  generalize fetchBatch bodyLength (s.request query toBlock)
    (srv.answer reply (s.request query toBlock)) = result at fetched
  cases fetched with
  | batch whole more b listed =>
      refine .batch whole more b _ listed ?_
      unfold Shows
      rw [List.forall₂_map_left_iff]
      exact List.forall₂_same.2 fun c _ => ⟨s.dropped, rfl⟩
  | column fieldKey tableKey tag known => exact onSchemaField_case known tag _
  | start => exact onDatasetStart_case _
  | plain e plain => exact onError_plain plain

/-! ## Whole streams -/

/-- What an open stream has yielded is what its cursor has left behind. -/
structure Covers (srv : Server) (query : Fields) (fromBlock toBlock : Nat) (s : StreamState) :
    Prop where
  open_ : s.cursor ≤ toBlock
  behind : ∃ shown, srv.listed fromBlock toBlock = shown ++ srv.listed s.cursor toBlock ∧
    Shows query s.yielded.flatten shown

/-- What an ended stream has yielded: everything, or a prefix if it threw. -/
def Covered (query : Fields) (asked : List ServedBlock) (last : StreamEnd) : Prop :=
  match last.outcome with
  | .ok () => Shows query last.yielded.flatten asked
  | .error _ => ∃ shown, shown <+: asked ∧ Shows query last.yielded.flatten shown

theorem Covers.initial (covers : Covers srv query fromBlock toBlock s) :
    ∃ shown, shown <+: srv.listed fromBlock toBlock ∧ Shows query s.yielded.flatten shown := by
  obtain ⟨shown, split, rows⟩ := covers.behind
  exact ⟨shown, ⟨_, split.symm⟩, rows⟩

theorem Covers.threw (covers : Covers srv query fromBlock toBlock s) (e : StreamError) :
    Covered query (srv.listed fromBlock toBlock) (s.throw e) := covers.initial

/-- A stream finishes only with nothing left to list. -/
theorem Covers.finished {cursor : Nat} {yielded : List (List RawBlock)}
    {shown : List ServedBlock} (none_ : srv.listed cursor toBlock = [])
    (split : srv.listed fromBlock toBlock = shown ++ srv.listed cursor toBlock)
    (rows : Shows query yielded.flatten shown) :
    Covered query (srv.listed fromBlock toBlock) ⟨yielded, .ok ()⟩ := by
  rw [split, none_, List.append_nil]
  exact rows

/-- The invariant, behind a round that may have ended the stream. -/
def Progressed (srv : Server) (query : Fields) (fromBlock toBlock : Nat) :
    Except StreamEnd StreamState → Prop
  | .ok s => Covers srv query fromBlock toBlock s
  | .error last => Covered query (srv.listed fromBlock toBlock) last

theorem Covers.round (covers : Covers srv query fromBlock toBlock s)
    {result : Except StreamEnd StreamState} (round : RoundCase srv query toBlock s result) :
    Progressed srv query fromBlock toBlock result := by
  obtain ⟨shown, split, shownRows⟩ := covers.behind
  cases round with
  | batch whole more b rows listed newRows =>
      have split' : srv.listed fromBlock toBlock =
          (shown ++ (whole ++ [b])) ++ srv.listed (b.number + 1) toBlock := by
        rw [split, listed_behind listed, listed, List.append_assoc, List.append_assoc]
        rfl
      have rows' : Shows query (s.yielded ++ [rows]).flatten (shown ++ (whole ++ [b])) := by
        rw [List.flatten_append, List.flatten_cons, List.flatten_nil, List.append_nil]
        exact List.rel_append shownRows newRows
      unfold onBatch
      simp only
      by_cases more : b.number + 1 ≤ toBlock
      · rw [if_pos more]
        exact ⟨more, _, split', rows'⟩
      · rw [if_neg more]
        exact Covers.finished (listed_empty (Nat.lt_of_not_le more)) split' rows'
  | beforeDataset starts =>
      refine Covers.finished ?_ split shownRows
      refine List.eq_nil_iff_forall_not_mem.2 fun b mem => ?_
      obtain ⟨listed, _, high⟩ := mem_listed.1 mem
      exact absurd (srv.started b listed) (by omega)
  | skipped ahead inside =>
      refine ⟨inside, shown, ?_, shownRows⟩
      show _ = shown ++ srv.listed srv.startsAt toBlock
      rw [split, ← listed_from_start srv s.cursor, Nat.max_eq_right (Nat.le_of_lt ahead)]
  | dropped => exact ⟨covers.open_, shown, split, shownRows⟩
  | retried => exact ⟨covers.open_, shown, split, shownRows⟩
  | threw e => exact covers.threw e

/-- For every sequence of answers the stream ends. What it yields is at every moment a prefix of
the blocks asked for, and all of them when it finishes. -/
theorem stream_exact (srv : Server) (bodyLength : Request → Nat) (query : Fields)
    (fromBlock toBlock : Nat) (le : fromBlock ≤ toBlock) (answers : Nat → Reply)
    (allowed : ∀ n, srv.Allows (answers n)) :
    let run := stream bodyLength query fromBlock toBlock fun n => srv.answer (answers n)
    let asked := srv.listed (max fromBlock srv.startsAt) toBlock
    (∃ n last, run n = .error last) ∧
    (∀ n s, run n = .ok s → ∃ shown, shown <+: asked ∧ Shows query s.yielded.flatten shown) ∧
    ∀ n last, run n = .error last → Covered query asked last := by
  intro run asked
  have same : asked = srv.listed fromBlock toBlock := listed_from_start srv fromBlock toBlock
  have loop : ∀ n, run n = rounds (streamRound bodyLength query toBlock)
      (fun n => srv.answer (answers n)) n (streamStart fromBlock) := fun n => if_pos le
  have start : Covers srv query fromBlock toBlock (streamStart fromBlock) :=
    ⟨le, [], rfl, List.Forall₂.nil⟩
  have covers : ∀ n s, rounds (streamRound bodyLength query toBlock)
      (fun n => srv.answer (answers n)) n (streamStart fromBlock) = .ok s →
      Covers srv query fromBlock toBlock s := by
    refine rounds_invariant (I := fun _ s => Covers srv query fromBlock toBlock s) start ?_
    intro n s u _ inv next
    have round := streamRound_case bodyLength query (allowed n) inv.open_
    rw [next] at round
    exact inv.round round
  refine ⟨?_, ?_, ?_⟩
  · refine stream_ends srv.fieldKeys fun n req open_ until_ fieldKey tableKey tag failed => ?_
    have fetched := fetchBatch_case bodyLength req (allowed n) (until_ ▸ open_)
    rw [failed] at fetched
    cases fetched with
    | column _ _ _ known => exact known
    | plain _ plain => exact plain.elim
  · intro n s reached
    rw [same]
    exact (covers n s ((loop n).symm.trans reached)).initial
  · intro n last ended
    obtain ⟨m, s, _, reached, final⟩ := rounds_error_inv ((loop n).symm.trans ended)
    have inv := covers m s reached
    have round := streamRound_case bodyLength query (allowed m) inv.open_
    rw [final] at round
    rw [same]
    exact inv.round round

/-- A block whose line does not depend on the fields. -/
def ServedBlock.ofLine (number : Nat) (line : Text) (accepted : (JSON.parse line).isSome = true)
    (object : ((JSON.parse line).get accepted).isObject = true)
    (numbered : headerNumber ((JSON.parse line).get accepted) = some number)
    (oneLine : '\n' ∉ line) : ServedBlock where
  number := number
  line := fun _ => line
  row := fun _ => (JSON.parse line).get accepted
  parses := fun _ => (Option.some_get accepted).symm
  object := fun _ => object
  numbered := fun _ => numbered
  oneLine := fun _ => oneLine

def sampleServer : Server where
  startsAt := 4
  blocks :=
    [.ofLine 5 "\x7b\"header\":\x7b\"number\":5\x7d\x7d".toList (by decide +kernel) (by decide +kernel)
        (by decide +kernel) (by decide +kernel),
      .ofLine 7 "\x7b\"header\":\x7b\"number\":7\x7d,\"logs\":[]\x7d".toList (by decide +kernel)
        (by decide +kernel) (by decide +kernel) (by decide +kernel)]
  ascending := by decide +kernel
  started := by decide +kernel
  columns := [("nonce", "blocks")]

/-- A missing column, a dataset start, a cut in the second line, a throttle, and the rest. -/
def sampleReplies : Nat → Reply
  | 0 => .badRequest ⟨["column 'nonce' is not found in 'blocks'".toList], [], none⟩
  | 1 => .badRequest ⟨["dataset starts at block 4".toList], [], none⟩
  | 2 => .blocks 2 30 [7] none
  | 3 => .throttle 503 none
  | _ => .blocks 2 1000 [] none

theorem stream_exact_sample :
    ∃ n last, stream (fun _ => 0) [("block", ["nonce"])] 1 7
      (fun n => sampleServer.answer (sampleReplies n)) n = .error last := by
  refine (stream_exact sampleServer (fun _ => 0) [("block", ["nonce"])] 1 7 (by decide)
    sampleReplies ?_).1
  intro n
  match n with
  | 0 => exact .inl ⟨("nonce", "blocks"), List.mem_cons_self, .inl (by decide)⟩
  | 1 => exact .inr ⟨by decide, by decide, by decide⟩
  | 2 => exact trivial
  | 3 => exact .inr (.inr (by decide))
  | n + 4 => exact trivial

end PortalPonder.Client
