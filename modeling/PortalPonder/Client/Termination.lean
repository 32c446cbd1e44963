import PortalPonder.Client.Stream

/-!
# Every stream ends

The answers of the server are arbitrary here. A round that goes on moves the cursor up, drops a
field that was not dropped before, or uses up one of the retries of the current batch:
`roundsLeft` counts the three, in this order of weight. A 400 for a missing column has to name one
of finitely many fields; `stream_terminates` takes those of the query.
-/

namespace PortalPonder.Client

open JSON (Text)
open Rounds

variable {keys : List FieldKey} {toBlock : Nat} {s u : StreamState}

/-- What is left of the range, then of the fields that can be dropped, then of the retries. -/
def roundsLeft (keys : List FieldKey) (toBlock : Nat) (s : StreamState) : Nat :=
  let left := keys.filter fun k => k ∉ s.triedCols
  ((toBlock + 1 - s.cursor) * (keys.length + 1) + left.length) *
    (MAX_TRANSIENT_RETRIES + 1) + (MAX_TRANSIENT_RETRIES - s.attempt)

/-- A field that is tried for the first time leaves fewer to try. -/
theorem left_lowers {tried : List FieldKey} {fieldKey : FieldKey} (known : fieldKey ∈ keys)
    (new : fieldKey ∉ tried) :
    (keys.filter fun k => k ∉ fieldKey :: tried).length < (keys.filter fun k => k ∉ tried).length := by
  have both : (keys.filter fun k => k ∉ fieldKey :: tried) =
      (keys.filter fun k => k ∉ tried).filter fun k => k ≠ fieldKey := by
    rw [List.filter_filter]
    refine List.filter_congr fun k _ => ?_
    rw [← Bool.decide_and, decide_eq_decide, List.mem_cons, not_or]
  rw [both]
  refine List.length_filter_lt_length_iff_exists.2 ⟨fieldKey, ?_, ?_⟩
  · exact List.mem_filter.2 ⟨known, decide_eq_true new⟩
  · simp

/-- A cursor that moves up outweighs everything else. -/
theorem roundsLeft_cursor (open_ : s.cursor ≤ toBlock) (up : s.cursor < u.cursor)
    (tried : u.triedCols = s.triedCols) :
    roundsLeft keys toBlock u < roundsLeft keys toBlock s := by
  unfold roundsLeft
  simp only [tried]
  have fewer : toBlock + 1 - u.cursor + 1 ≤ toBlock + 1 - s.cursor := by omega
  have scaled := Nat.mul_le_mul_right (keys.length + 1) fewer
  rw [Nat.succ_mul] at scaled
  have retries : MAX_TRANSIENT_RETRIES = 10 := rfl
  rw [retries]
  omega

/-- So does, at one cursor, a field that is dropped. -/
theorem roundsLeft_dropped {fieldKey : FieldKey} (known : fieldKey ∈ keys)
    (new : fieldKey ∉ s.triedCols) (cursor : u.cursor = s.cursor)
    (tried : u.triedCols = fieldKey :: s.triedCols) :
    roundsLeft keys toBlock u < roundsLeft keys toBlock s := by
  have fewer := left_lowers known new
  have retries : MAX_TRANSIENT_RETRIES = 10 := rfl
  unfold roundsLeft
  simp only [cursor, tried, retries]
  omega

theorem roundsLeft_retried (left : s.attempt < MAX_TRANSIENT_RETRIES) :
    roundsLeft keys toBlock { s with attempt := s.attempt + 1 } < roundsLeft keys toBlock s := by
  unfold roundsLeft
  simp only
  omega

/-! ## One round -/

/-- The last block of a batch is not below the cursor it was asked from. -/
theorem readBlocks_last {cursor last : Nat} {lines : List Text} {batch : Batch}
    (read : readBlocks cursor lines last = .ok batch) : last ≤ batch.last := by
  induction lines generalizing last batch with
  | nil =>
      cases read
      exact Nat.le_refl _
  | cons line lines ih =>
      rw [readBlocks] at read
      split at read
      next => cases read
      next => cases read
      next b _ _ =>
          dsimp only at read
          split at read
          next => cases read
          next batch' rest =>
              cases read
              have later := ih rest
              dsimp only
              split at later
              · split at later <;> omega
              · exact later

theorem fetchBatch_last {bodyLength : Request → Nat} {req : Request}
    {answer : Except FetchError Response} {batch : Batch}
    (fetched : fetchBatch bodyLength req answer = .ok batch) : req.fromBlock ≤ batch.last := by
  unfold fetchBatch at fetched
  dsimp only at fetched
  split at fetched
  · cases fetched
  · split at fetched
    · cases fetched
    · split at fetched
      · cases fetched
      · split at fetched
        · cases fetched
        · split at fetched
          · cases fetched
          · split at fetched
            · cases fetched
            · next batch' read =>
                split at fetched
                · cases fetched
                · split at fetched
                  · cases fetched
                  · cases fetched
                    exact readBlocks_last read

/-- An error without a handler of its own. -/
def Plain : PortalError → Prop
  | .queryTooLarge _ | .missingTable _ | .datasetStart _ | .schemaField _ _ _ => False
  | _ => True

/-- The line loop ends in no other errors. -/
theorem readBlocks_plain {cursor last : Nat} {lines : List Text} {e : PortalError}
    (failed : readBlocks cursor lines last = .error e) : Plain e := by
  induction lines generalizing last with
  | nil => cases failed
  | cons line lines ih =>
      unfold readBlocks at failed
      split at failed
      next =>
        cases failed
        exact trivial
      next =>
        cases failed
        exact trivial
      next =>
        simp only at failed
        split at failed
        next rest =>
          cases failed
          exact ih rest
        next => cases failed

/-- A round that goes on stays in the range and leaves fewer rounds. -/
def Lowers (keys : List FieldKey) (toBlock : Nat) (s u : StreamState) : Prop :=
  u.cursor ≤ toBlock ∧ roundsLeft keys toBlock u < roundsLeft keys toBlock s

theorem onBatch_lowers (open_ : s.cursor ≤ toBlock) {batch : Batch} (above : s.cursor ≤ batch.last)
    (next : onBatch toBlock s batch = .ok u) : Lowers keys toBlock s u := by
  unfold onBatch at next
  dsimp only at next
  split at next
  case isTrue inside =>
      cases next
      exact ⟨inside, roundsLeft_cursor open_ (Nat.lt_succ_of_le above) rfl⟩
  case isFalse => cases next

theorem onSchemaField_lowers (open_ : s.cursor ≤ toBlock) {fieldKey : FieldKey} {tag : String}
    {e : PortalError} (known : fieldKey ∈ keys) (next : onSchemaField s fieldKey tag e = .ok u) :
    Lowers keys toBlock s u := by
  unfold onSchemaField at next
  split at next
  case isTrue => cases next
  case isFalse new =>
      cases next
      exact ⟨open_, roundsLeft_dropped known new rfl rfl⟩

theorem onDatasetStart_lowers (open_ : s.cursor ≤ toBlock) {startsAt : Nat} {e : PortalError}
    (next : onDatasetStart toBlock s startsAt e = .ok u) : Lowers keys toBlock s u := by
  unfold onDatasetStart at next
  split at next
  case isTrue => cases next
  case isFalse inside =>
      split at next
      case isTrue ahead =>
          cases next
          exact ⟨Nat.le_of_not_lt inside, roundsLeft_cursor open_ ahead rfl⟩
      case isFalse => cases next

theorem onTransient_lowers (open_ : s.cursor ≤ toBlock) {e : PortalError}
    (next : onTransient s e = .ok u) : Lowers keys toBlock s u := by
  unfold onTransient at next
  split at next
  case isTrue => cases e <;> cases next
  case isFalse left =>
      cases next
      exact ⟨open_, roundsLeft_retried (Nat.lt_of_not_le left)⟩

theorem onError_lowers (open_ : s.cursor ≤ toBlock) {e : PortalError}
    (known : ∀ fieldKey tableKey tag, e = .schemaField fieldKey tableKey tag → fieldKey ∈ keys)
    (next : onError toBlock s e = .ok u) : Lowers keys toBlock s u := by
  unfold onError at next
  split at next
  next => cases next
  next => cases next
  next => exact onDatasetStart_lowers open_ next
  next fieldKey tableKey tag => exact onSchemaField_lowers open_ (known _ _ _ rfl) next
  next =>
    split at next
    · exact onTransient_lowers open_ next
    · cases next

/-! ## Every stream ends -/

/-- With finitely many fields to name, every stream ends. -/
theorem stream_ends (keys : List FieldKey) {bodyLength : Request → Nat} {query : Fields}
    {fromBlock : Nat} {answers : Nat → Request → Except FetchError Response}
    (known : ∀ n req, req.fromBlock ≤ toBlock → req.toBlock = toBlock →
      ∀ fieldKey tableKey tag, fetchBatch bodyLength req (answers n req) =
        .error (.schemaField fieldKey tableKey tag) → fieldKey ∈ keys) :
    ∃ n last, stream bodyLength query fromBlock toBlock answers n = .error last := by
  unfold stream
  split
  case isFalse => exact ⟨0, _, rfl⟩
  case isTrue le =>
      have lowers : ∀ n s u, s.cursor ≤ toBlock →
          streamRound bodyLength query toBlock (answers n) s = .ok u → Lowers keys toBlock s u := by
        intro n s u open_ next
        unfold streamRound at next
        dsimp only at next
        split at next
        next batch fetched => exact onBatch_lowers open_ (fetchBatch_last fetched) next
        next e failed =>
            refine onError_lowers open_ (fun fieldKey tableKey tag same => ?_) next
            rw [same] at failed
            exact known n _ open_ rfl fieldKey tableKey tag failed
      have inside : ∀ n s, rounds (streamRound bodyLength query toBlock) answers n
          (streamStart fromBlock) = .ok s → s.cursor ≤ toBlock :=
        rounds_invariant (I := fun _ s => s.cursor ≤ toBlock) le
          fun n s u _ open_ next => (lowers n s u open_ next).1
      exact fails_of_rank (roundsLeft keys toBlock) 0
        fun n s u _ reached next => (lowers n s u (inside n s reached) next).2

/-- A 400 for a missing column names one of the query, dropped before or not. -/
def NamesQueryColumn (query : Fields) (text : Text) : Prop :=
  (∀ column table, columnNotFound text = some (column, table) →
    query.requests (colToFieldKey column table).table (colToFieldKey column table).field = true) ∧
  (columnNotFound text = none → ∀ field, unknownField text = some field →
    ∃ table, query.requests table field = true)

/-- The fields such a 400 can make the client drop. A field that no table asks for any more is
dropped from the transactions. -/
def nameableFields (query : Fields) : List FieldKey :=
  query.flatMap fun t => t.2.flatMap fun field =>
    ⟨t.1, field⟩ :: fieldTables.map fun table => ⟨table, field⟩

theorem mem_nameableFields {query : Fields} {table field : String}
    (requested : query.requests table field = true) :
    ⟨table, field⟩ ∈ nameableFields query ∧
      ∀ other ∈ fieldTables, ⟨other, field⟩ ∈ nameableFields query := by
  unfold Fields.requests at requested
  obtain ⟨t, mem, both⟩ := List.any_eq_true.1 requested
  rw [Bool.and_eq_true, decide_eq_true_eq, List.contains_iff_mem] at both
  obtain ⟨rfl, listed⟩ := both
  have here : ∀ key ∈ (⟨t.1, field⟩ :: fieldTables.map fun table => ⟨table, field⟩ : List FieldKey),
      key ∈ nameableFields query := fun key mem' =>
    List.mem_flatMap.2 ⟨t, mem, List.mem_flatMap.2 ⟨field, listed, mem'⟩⟩
  exact ⟨here _ List.mem_cons_self, fun other mem' =>
    here _ (List.mem_cons_of_mem _ (List.mem_map.2 ⟨other, mem', rfl⟩))⟩

theorem parseSchemaFieldError_nameable {query fields : Fields} {status : Nat} {text : Text}
    {fieldKey : FieldKey} {tableKey tag : String} (names : NamesQueryColumn query text)
    (parsed : parseSchemaFieldError status text fields =
      some (.schemaField fieldKey tableKey tag)) : fieldKey ∈ nameableFields query := by
  unfold parseSchemaFieldError at parsed
  split at parsed
  · cases parsed
  · split at parsed
    next column table found =>
        cases parsed
        exact (mem_nameableFields (names.1 _ _ found)).1
    next none_ =>
        split at parsed
        next field' unknown =>
            cases parsed
            obtain ⟨table, requested⟩ := names.2 none_ _ unknown
            refine (mem_nameableFields requested).2 _ ?_
            cases first : fieldTables.find? fun t => fields.requests t tag with
            | none => exact List.mem_cons_self
            | some other => exact List.mem_of_find?_eq_some first
        next => cases parsed

theorem badResponse_schemaField {req : Request} {res : Response} {fieldKey : FieldKey}
    {tableKey tag : String} (same : badResponse req res = .schemaField fieldKey tableKey tag) :
    parseSchemaFieldError res.status (res.body.text.take 300) req.fields =
      some (.schemaField fieldKey tableKey tag) := by
  unfold badResponse at same
  dsimp only at same
  split at same
  next e parsed => rw [parsed, same]
  next =>
    split at same
    · cases same
    · split at same
      · cases same
      · split at same
        · cases same
        · split at same <;> cases same

/-- Only a 400 makes a schema error. -/
theorem fetchBatch_schemaField {bodyLength : Request → Nat} {req : Request}
    {answer : Except FetchError Response} {fieldKey : FieldKey} {tableKey tag : String}
    (failed : fetchBatch bodyLength req answer = .error (.schemaField fieldKey tableKey tag)) :
    ∃ res, answer = .ok res ∧ parseSchemaFieldError res.status (res.body.text.take 300) req.fields =
      some (.schemaField fieldKey tableKey tag) := by
  unfold fetchBatch at failed
  dsimp only at failed
  split at failed
  · cases failed
  · split at failed
    · cases failed
    next res =>
      refine ⟨res, rfl, ?_⟩
      split at failed
      · cases failed
      · split at failed
        · cases failed
        · split at failed
          · exact badResponse_schemaField (Except.error.inj failed)
          · split at failed
            next e bad =>
              cases failed
              exact (readBlocks_plain bad).elim
            next =>
              split at failed
              · cases failed
              · split at failed <;> cases failed

/-- Whatever the answers are, a stream ends after finitely many requests, as long as its 400s for a
missing column name columns of the query. -/
theorem stream_terminates (bodyLength : Request → Nat) (query : Fields) (fromBlock toBlock : Nat)
    (answers : Nat → Request → Except FetchError Response)
    (names : ∀ n req res, answers n req = .ok res → res.status = 400 →
      NamesQueryColumn query (res.body.text.take 300)) :
    ∃ n last, stream bodyLength query fromBlock toBlock answers n = .error last := by
  refine stream_ends (nameableFields query) fun n req _ _ fieldKey tableKey tag failed => ?_
  obtain ⟨res, answered, parsed⟩ := fetchBatch_schemaField failed
  refine parseSchemaFieldError_nameable (names n req res answered ?_) parsed
  by_contra other
  rw [parseSchemaFieldError, if_pos other] at parsed
  cases parsed

/-- A block out of range, an empty body, a start of the dataset, and for ever the same missing
column. -/
def sampleAnswers : Nat → Request → Except FetchError Response
  | 0, _ => .ok ⟨200, none, ⟨["\x7b\"header\":\x7b\"number\":3\x7d\x7d".toList], [], none⟩⟩
  | 1, _ => .ok ⟨200, none, ⟨[], [], none⟩⟩
  | 2, _ => .ok ⟨400, none, ⟨["dataset starts at block 7".toList], [], none⟩⟩
  | _, _ => .ok ⟨400, none, ⟨["column 'nonce' is not found in 'blocks'".toList], [], none⟩⟩

theorem stream_terminates_sample :
    ∃ n last, stream (fun _ => 0) [("block", ["nonce"])] 5 9 sampleAnswers n = .error last := by
  refine stream_terminates (fun _ => 0) [("block", ["nonce"])] 5 9 sampleAnswers ?_
  intro n req res answered bad
  match n with
  | 0 =>
      cases answered
      cases bad
  | 1 =>
      cases answered
      cases bad
  | 2 =>
      cases answered
      exact ⟨nofun, fun _ => nofun⟩
  | n + 3 =>
      cases answered
      refine ⟨fun column table found => ?_, fun none_ => ?_⟩
      · cases found
        decide
      · cases none_

end PortalPonder.Client
