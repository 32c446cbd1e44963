import PortalPonder.Client.Dropped
import PortalPonder.Client.Termination
import Mathlib.Data.List.Basic

/-!
# Columns that a dataset lacks

A dataset refuses a request for columns it lacks, and names one of them at a time: with its table,
or as an unknown field without one. The table of an unknown field is looked up in the request, and
the first table that asks for the name is taken. `Dataset.attributed` says which column that is;
`stream_exact_iff` says when what a stream leaves out is exactly what the dataset lacks.
-/

namespace PortalPonder.Client

open JSON (Text)
open Rounds

/-! ## The projections -/

def REQUIRED_BLOCK_FIELDS : List String :=
  ["number", "hash", "parentHash", "timestamp", "logsBloom", "miner", "gasUsed", "gasLimit",
    "stateRoot", "receiptsRoot", "transactionsRoot", "size", "difficulty", "extraData"]

def NULLABLE_BLOCK_FIELDS : List String :=
  ["baseFeePerGas", "nonce", "mixHash", "sha3Uncles", "totalDifficulty"]

/-- The header columns of every query. -/
def BLOCK_FIELDS : List String := REQUIRED_BLOCK_FIELDS ++ NULLABLE_BLOCK_FIELDS

def LOG_FIELDS : List String :=
  ["address", "topics", "data", "transactionHash", "transactionIndex", "logIndex"]

def TX_FIELDS : List String :=
  ["transactionIndex", "hash", "from", "to", "input", "value", "nonce", "gas", "gasPrice",
    "maxFeePerGas", "maxPriorityFeePerGas", "type", "r", "s", "v", "yParity", "accessList"]

/-- Receipts ride on the transactions. -/
def RECEIPT_FIELDS : List String :=
  ["status", "cumulativeGasUsed", "effectiveGasPrice", "gasUsed", "contractAddress", "logsBloom"]

def TRACE_FIELDS : List String :=
  ["transactionIndex", "traceAddress", "type", "subtraces", "error", "revertReason", "callFrom",
    "callTo", "callValue", "callGas", "callInput", "callSighash", "callCallType",
    "callResultGasUsed", "callResultOutput", "createFrom", "createValue", "createGas", "createInit",
    "createResultGasUsed", "createResultCode", "createResultAddress", "suicideAddress",
    "suicideRefundAddress", "suicideBalance"]

/-- All columns there are to ask for. -/
def ALL_FIELDS : Fields :=
  [("block", BLOCK_FIELDS), ("log", LOG_FIELDS), ("transaction", TX_FIELDS ++ RECEIPT_FIELDS),
    ("trace", TRACE_FIELDS)]

/-! ## Requested columns -/

/-- A column that a request asks for. -/
def Fields.Asks (fields : Fields) (key : FieldKey) : Prop :=
  fields.requests key.table key.field = true

instance (fields : Fields) (key : FieldKey) : Decidable (fields.Asks key) :=
  inferInstanceAs (Decidable (fields.requests key.table key.field = true))

theorem Fields.asks_iff {fields : Fields} {key : FieldKey} :
    fields.Asks key ↔ ∃ t ∈ fields, t.1 = key.table ∧ key.field ∈ t.2 := by
  unfold Fields.Asks Fields.requests
  simp

theorem asks_stripFields {fields : Fields} {dropped : List FieldKey} {key : FieldKey} :
    (stripFields fields dropped).Asks key ↔ fields.Asks key ∧ key ∉ dropped := by
  rw [Fields.asks_iff, Fields.asks_iff]
  constructor
  · rintro ⟨t, mem, table, field⟩
    obtain ⟨t', mem', rfl⟩ := List.mem_map.1 mem
    obtain ⟨asked, kept⟩ := List.mem_filter.1 field
    have here : (⟨t'.1, key.field⟩ : FieldKey) = key := congrArg (FieldKey.mk · key.field) table
    rw [decide_eq_true_eq, here] at kept
    exact ⟨⟨t', mem', table, asked⟩, kept⟩
  · rintro ⟨⟨t, mem, table, field⟩, kept⟩
    refine ⟨_, List.mem_map.2 ⟨t, mem, rfl⟩, table, List.mem_filter.2 ⟨field, ?_⟩⟩
    have here : (⟨t.1, key.field⟩ : FieldKey) = key := congrArg (FieldKey.mk · key.field) table
    rw [decide_eq_true_eq, here]
    exact kept

/-- The columns of a query, table by table, of the tables there are. -/
structure Projection where
  fields : Fields
  known : ∀ t ∈ fields, t.1 ∈ fieldTables

theorem Projection.table_known {q : Projection} {key : FieldKey} (asks : q.fields.Asks key) :
    key.table ∈ fieldTables := by
  obtain ⟨t, mem, table, -⟩ := Fields.asks_iff.1 asks
  rw [← table]
  exact q.known t mem

/-- The columns of a query, one by one. -/
def Fields.keys (fields : Fields) : List FieldKey := fields.flatMap fun t => t.2.map (FieldKey.mk t.1)

theorem Fields.mem_keys {fields : Fields} {key : FieldKey} : key ∈ fields.keys ↔ fields.Asks key := by
  rw [Fields.asks_iff]
  unfold Fields.keys
  simp only [List.mem_flatMap, List.mem_map]
  constructor
  · rintro ⟨t, mem, f, field, rfl⟩
    exact ⟨t, mem, rfl, field⟩
  · rintro ⟨t, mem, table, field⟩
    exact ⟨t, mem, key.field, field, congrArg (FieldKey.mk · key.field) table⟩

/-- A capital becomes `_` and its small letter. -/
def snake (field : Text) : Text :=
  field.flatMap fun c => if c.isUpper then ['_', c.toLower] else [c]

/-- How the dataset calls a column: its table in the plural, the field in snake case, and one
derived column. -/
def portalColumn (key : FieldKey) : String × String :=
  (if key.field = "accessList" then "access_list_size" else String.ofList (snake key.field.toList),
    key.table ++ "s")

/-- The column of a field is read back as the field. -/
theorem colToFieldKey_portalColumn :
    ∀ key ∈ ALL_FIELDS.keys, colToFieldKey (portalColumn key).1 (portalColumn key).2 = key := by
  decide +kernel

/-! ## The reports of a dataset -/

/-- A text that names the column, in one of the two shapes. -/
inductive Names (text : Text) (key : FieldKey) : Prop
  | column (col table : String) (read : columnNotFound text = some (col, table))
      (maps : colToFieldKey col table = key)
  | unknown (other : columnNotFound text = none) (read : unknownField text = some key.field)

/-- The part of a refusal that is read. -/
def Body.refusal (body : Body) : Text := body.text.take 300

/-- What a dataset says of the columns it lacks. -/
structure Dataset where
  reports : FieldKey → Body → Prop
  names : ∀ key body, reports key body → Names body.refusal key

/-- The dataset lacks a column of which it has something to say. -/
def Dataset.Lacks (d : Dataset) (key : FieldKey) : Prop := ∃ body, d.reports key body

/-- An answer to a request: if it names a column, then one that is asked for and is missing; and it
is not served while one is. -/
structure Dataset.Answers (d : Dataset) (fields : Fields) (status : Nat) (body : Body) : Prop where
  refuses : ∀ e, parseSchemaFieldError status body.refusal fields = some e →
    ∃ key, fields.Asks key ∧ d.reports key body
  complete : 200 ≤ status → status ≤ 299 → ∀ key, fields.Asks key → ¬ d.Lacks key

/-- The table comes before the other one when the table of an unknown field is looked up. -/
def Before (table other : String) : Prop := fieldTables.idxOf table < fieldTables.idxOf other

instance (table other : String) : Decidable (Before table other) :=
  inferInstanceAs (Decidable (_ < _))

/-- A column that is reported without its table is not mistaken for one the dataset has: whatever
table asks for the same name and comes before it lacks it as well. -/
def Dataset.Attributable (d : Dataset) (fields : Fields) : Prop :=
  ∀ key body, fields.Asks key → d.reports key body → columnNotFound body.refusal = none →
    ∀ table, Before table key.table → fields.Asks ⟨table, key.field⟩ → d.Lacks ⟨table, key.field⟩

/-! ## Attribution -/

/-- The first of a list that has the property. -/
theorem find?_first {α : Type} [DecidableEq α] {l : List α} {p : α → Bool} {a : α} (mem : a ∈ l)
    (has : p a = true) :
    ∃ b ∈ l, l.find? p = some b ∧ p b = true ∧ (b = a ∨ l.idxOf b < l.idxOf a) ∧
      ∀ c, l.idxOf c < l.idxOf b → p c = false := by
  induction l with
  | nil => cases mem
  | cons x rest ih =>
      cases first : p x with
      | true =>
          refine ⟨x, List.mem_cons_self, by rw [List.find?_cons, first], first, ?_, ?_⟩
          · by_cases same : x = a
            · exact .inl same
            · rw [List.idxOf_cons_self, List.idxOf_cons_ne _ same]
              exact .inr (Nat.succ_pos _)
          · intro c before
            rw [List.idxOf_cons_self] at before
            exact absurd before (Nat.not_lt_zero _)
      | false =>
          have other : x ≠ a := by
            rintro rfl
            rw [has] at first
            cases first
          obtain ⟨b, inside, found, has', place, earlier⟩ :=
            ih ((List.mem_cons.1 mem).resolve_left (Ne.symm other))
          have notFirst : x ≠ b := by
            rintro rfl
            rw [has'] at first
            cases first
          refine ⟨b, List.mem_cons_of_mem _ inside, by rw [List.find?_cons, first]; exact found,
            has', ?_, ?_⟩
          · refine place.imp_right fun before => ?_
            rw [List.idxOf_cons_ne _ notFirst, List.idxOf_cons_ne _ other]
            exact Nat.succ_lt_succ before
          · intro c before
            by_cases same : x = c
            · rw [← same]
              exact first
            · rw [List.idxOf_cons_ne _ same, List.idxOf_cons_ne _ notFirst] at before
              exact earlier c (Nat.lt_of_succ_lt_succ before)

/-- Which column a refusal is taken to name: the one it is about, or the same name in a table that
comes before and asks for it. -/
inductive Attributed (fields : Fields) (text : Text) (key : FieldKey) : FieldKey → Prop
  | self (first : columnNotFound text = none →
      ∀ other, Before other key.table → ¬ fields.Asks ⟨other, key.field⟩) :
      Attributed fields text key key
  | earlier (table : String) (shape : columnNotFound text = none)
      (before : Before table key.table) (asks : fields.Asks ⟨table, key.field⟩)
      (first : ∀ other, Before other table → ¬ fields.Asks ⟨other, key.field⟩) :
      Attributed fields text key ⟨table, key.field⟩

theorem parse_some {status : Nat} {text : Text} {fields : Fields} {e : PortalError}
    (parsed : parseSchemaFieldError status text fields = some e) :
    status = 400 ∧ ∃ key table tag, e = .schemaField key table tag := by
  unfold parseSchemaFieldError at parsed
  split at parsed
  · cases parsed
  · next is400 =>
      refine ⟨Decidable.not_not.1 is400, ?_⟩
      split at parsed
      · cases parsed
        exact ⟨_, _, _, rfl⟩
      · split at parsed
        · cases parsed
          exact ⟨_, _, _, rfl⟩
        · cases parsed

/-- A refusal that names a requested column is read as the error of a requested column. -/
theorem parse_names {text : Text} {fields : Fields} {key : FieldKey} (names : Names text key)
    (asks : fields.Asks key) (known : key.table ∈ fieldTables) :
    ∃ key' table tag, parseSchemaFieldError 400 text fields = some (.schemaField key' table tag) ∧
      fields.Asks key' ∧ Attributed fields text key key' := by
  unfold parseSchemaFieldError
  rw [if_neg (fun differs => differs rfl)]
  cases names with
  | column col table read maps =>
      refine ⟨key, TABLE_TO_KEY table, col, ?_, asks, .self fun shape => ?_⟩
      · rw [read, ← maps]
      · rw [read] at shape
        cases shape
  | unknown other read =>
      rw [other, read]
      obtain ⟨table, -, found, asked, place, earlier⟩ :=
        find?_first (p := fun t => fields.requests t key.field) known asks
      refine ⟨_, _, _, rfl, ?_, ?_⟩
      · rw [found]
        exact asked
      · rw [found, Option.getD_some]
        have first : ∀ t, Before t table → ¬ fields.Asks ⟨t, key.field⟩ := by
          intro t before asks'
          have none_ := earlier t before
          rw [asks'] at none_
          cases none_
        rcases place with rfl | before
        · exact .self fun _ => first
        · exact .earlier table other before asked first

/-- Under the condition, what a refusal is taken to name is missing. -/
theorem Dataset.attributed {d : Dataset} {query fields : Fields} {key key' : FieldKey} {body : Body}
    (clear : d.Attributable query) (within : ∀ k, fields.Asks k → query.Asks k)
    (asks : fields.Asks key) (reported : d.reports key body)
    (attributed : Attributed fields body.refusal key key') : d.Lacks key' := by
  cases attributed with
  | self first => exact ⟨body, reported⟩
  | earlier table shape before asked first =>
      exact clear key body (within key asks) reported shape table before (within _ asked)

/-! ## The stream -/

/-- Every answer is one of the dataset. -/
def Dataset.Honest (d : Dataset) (answers : Nat → Request → Except FetchError Response) : Prop :=
  ∀ n req res, answers n req = .ok res → d.Answers req.fields res.status res.body

section Stream

variable {d : Dataset} {q : Projection} {bodyLength : Request → Nat} {fromBlock toBlock : Nat}
  {answers : Nat → Request → Except FetchError Response}

/-- What a run of the stream has dropped: requested columns, each once. -/
structure Degraded (q : Projection) (s : StreamState) : Prop where
  asked : ∀ key ∈ s.dropped, q.fields.Asks key
  tried : s.triedCols = s.dropped
  needed : ∀ e ∈ s.neededMissing, e.1 ∈ s.dropped ∧ e.1 ∉ DROPPABLE_FIELDS

/-- What a dataset's refusal does to the columns. -/
theorem schemaField_attributed (honest : d.Honest answers) {n : Nat} {s : StreamState}
    {key : FieldKey} {table tag : String}
    (failed : fetchBatch bodyLength (s.request q.fields toBlock)
      (answers n (s.request q.fields toBlock)) = .error (.schemaField key table tag)) :
    q.fields.Asks key ∧ key ∉ s.dropped ∧
      ∃ about body, (s.request q.fields toBlock).fields.Asks about ∧ d.reports about body ∧
        Attributed (s.request q.fields toBlock).fields body.refusal about key := by
  obtain ⟨res, answered, parsed⟩ := fetchBatch_schemaField failed
  rw [← Body.refusal] at parsed
  obtain ⟨about, asks, reported⟩ := (honest n _ res answered).refuses _ parsed
  have known : about.table ∈ fieldTables := q.table_known (asks_stripFields.1 asks).1
  obtain ⟨is400, -⟩ := parse_some parsed
  obtain ⟨key', table', tag', read, asks', attributed⟩ :=
    parse_names (d.names about res.body reported) asks known
  rw [is400, read] at parsed
  cases parsed
  obtain ⟨asked, kept⟩ := asks_stripFields.1 asks'
  exact ⟨asked, kept, about, res.body, asks, reported, attributed⟩

/-- What one round does to the columns: nothing, or it drops what a refusal is taken to name. -/
inductive Degrades (d : Dataset) (q : Projection) (s : StreamState) : StreamState → Prop
  | same {t : StreamState} (dropped : t.dropped = s.dropped) (tried : t.triedCols = s.triedCols)
      (missing : t.neededMissing = s.neededMissing) : Degrades d q s t
  | drops {t : StreamState} (key about : FieldKey) (body : Body) (tag : String)
      (asks : q.fields.Asks key) (kept : key ∉ s.dropped)
      (asked : (stripFields q.fields s.dropped).Asks about) (reported : d.reports about body)
      (attributed : Attributed (stripFields q.fields s.dropped) body.refusal about key)
      (dropped : t.dropped = key :: s.dropped) (tried : t.triedCols = key :: s.triedCols)
      (missing : t.neededMissing =
        if key ∈ DROPPABLE_FIELDS then s.neededMissing else (key, tag) :: s.neededMissing) :
      Degrades d q s t

/-- The rest of `onError`, which leaves the columns alone. -/
theorem onError_other {s t : StreamState} {e : PortalError}
    (other : ∀ key table tag, e ≠ .schemaField key table tag) (next : onError toBlock s e = .ok t) :
    Degrades d q s t := by
  unfold onError at next
  split at next
  · cases next
  · cases next
  · unfold onDatasetStart at next
    split at next
    · cases next
    · split at next
      · cases next
        exact .same rfl rfl rfl
      · cases next
  · exact absurd rfl (other _ _ _)
  · split at next
    · unfold onTransient at next
      split at next
      · split at next <;> cases next
      · cases next
        exact .same rfl rfl rfl
    · cases next

theorem degrades_of_round (honest : d.Honest answers) {n : Nat} {s t : StreamState}
    (next : streamRound bodyLength q.fields toBlock (answers n) s = .ok t) : Degrades d q s t := by
  unfold streamRound at next
  dsimp only at next
  cases fetched : fetchBatch bodyLength (s.request q.fields toBlock)
      (answers n (s.request q.fields toBlock)) with
  | ok batch =>
      rw [fetched] at next
      dsimp only [onBatch] at next
      split at next
      · cases next
        exact .same rfl rfl rfl
      · cases next
  | error e =>
      rw [fetched] at next
      dsimp only at next
      by_cases schema : ∃ key table tag, e = .schemaField key table tag
      · obtain ⟨key, table, tag, rfl⟩ := schema
        obtain ⟨asks, kept, about, body, asked, reported, attributed⟩ :=
          schemaField_attributed honest fetched
        unfold onError onSchemaField at next
        dsimp only at next
        split at next
        · cases next
        · cases next
          exact .drops key about body tag asks kept asked reported attributed rfl rfl rfl
      · exact onError_other (fun key table tag is => schema ⟨key, table, tag, is⟩) next

/-- No schema error ends a stream: what a refusal names was not dropped before. -/
theorem round_no_schemaField (honest : d.Honest answers) {n : Nat} {s : StreamState}
    (degraded : Degraded q s) {ended : StreamEnd}
    (last : streamRound bodyLength q.fields toBlock (answers n) s = .error ended) :
    ∀ key table tag, ended.outcome ≠ .error (.portal (.schemaField key table tag)) := by
  unfold streamRound at last
  dsimp only at last
  cases fetched : fetchBatch bodyLength (s.request q.fields toBlock)
      (answers n (s.request q.fields toBlock)) with
  | ok batch =>
      rw [fetched] at last
      dsimp only [onBatch] at last
      split at last
      · cases last
      · cases last
        intro key table tag fails
        cases fails
  | error e =>
      rw [fetched] at last
      dsimp only at last
      intro key table tag fails
      have schema : e = .schemaField key table tag := by
        cases e with
        | schemaField key' table' tag' =>
            unfold onError onSchemaField at last
            dsimp only at last
            split at last
            · cases last
              cases fails
              rfl
            · cases last
        | datasetStart startsAt =>
            unfold onError onDatasetStart at last
            dsimp only at last
            repeat' split at last
            all_goals cases last
            all_goals cases fails
        | _ =>
            unfold onError onTransient at last
            dsimp only at last
            repeat' split at last
            all_goals cases last
            all_goals cases fails
      cases schema
      obtain ⟨-, kept, -⟩ := schemaField_attributed honest fetched
      unfold onError onSchemaField at last
      rw [degraded.tried] at last
      dsimp only at last
      rw [if_neg kept] at last
      cases last

theorem Degraded.round {s t : StreamState} (degraded : Degraded q s) (step : Degrades d q s t) :
    Degraded q t := by
  cases step with
  | same dropped tried missing =>
      refine ⟨?_, ?_, ?_⟩
      · rw [dropped]
        exact degraded.asked
      · rw [dropped, tried]
        exact degraded.tried
      · rw [dropped, missing]
        exact degraded.needed
  | drops key about body tag asks kept asked reported attributed dropped tried missing =>
      refine ⟨?_, ?_, ?_⟩
      · intro k mem
        rw [dropped] at mem
        rcases List.mem_cons.1 mem with rfl | old
        · exact asks
        · exact degraded.asked k old
      · rw [dropped, tried, degraded.tried]
      · intro e mem
        have old : e ∈ s.neededMissing → e.1 ∈ t.dropped ∧ e.1 ∉ DROPPABLE_FIELDS := by
          intro mem
          rw [dropped]
          exact ⟨List.mem_cons_of_mem key (degraded.needed e mem).1, (degraded.needed e mem).2⟩
        rw [missing] at mem
        split at mem
        · exact old mem
        · next needed =>
            rcases List.mem_cons.1 mem with rfl | mem
            · rw [dropped]
              exact ⟨List.mem_cons_self, needed⟩
            · exact old mem

theorem degraded_start : Degraded q (streamStart fromBlock) where
  asked := by
    intro key mem
    cases mem
  tried := rfl
  needed := by
    intro e mem
    cases mem

theorem degraded_rounds (honest : d.Honest answers) {n : Nat} {s : StreamState}
    (reached : rounds (streamRound bodyLength q.fields toBlock) answers n (streamStart fromBlock) =
      .ok s) : Degraded q s :=
  rounds_invariant (I := fun _ s => Degraded q s) degraded_start
    (fun _ _ _ _ degraded next => degraded.round (degrades_of_round honest next)) n s reached

/-- Under the condition nothing is dropped that the dataset has. -/
theorem lacks_of_dropped (clear : d.Attributable q.fields) (honest : d.Honest answers) {n : Nat}
    {s : StreamState}
    (reached : rounds (streamRound bodyLength q.fields toBlock) answers n (streamStart fromBlock) =
      .ok s) : ∀ key ∈ s.dropped, d.Lacks key := by
  refine rounds_invariant (I := fun _ s => ∀ key ∈ s.dropped, d.Lacks key) ?_ ?_ n s reached
  · intro key mem
    cases mem
  · intro n s t _ lacks next
    cases degrades_of_round honest next with
    | same dropped tried missing =>
        rw [dropped]
        exact lacks
    | drops key about body tag asks kept asked reported attributed dropped tried missing =>
        rw [dropped]
        intro k mem
        rcases List.mem_cons.1 mem with rfl | old
        · exact d.attributed clear (fun k asks => (asks_stripFields.1 asks).1) asked reported
            attributed
        · exact lacks k old

end Stream

/-- The columns of the query that a request leaves out. -/
def Fields.Removed (query request : Fields) (key : FieldKey) : Prop :=
  query.Asks key ∧ ¬ request.Asks key

theorem removed_stripFields {query : Fields} {dropped : List FieldKey} {key : FieldKey} :
    query.Removed (stripFields query dropped) key ↔ query.Asks key ∧ key ∈ dropped := by
  unfold Fields.Removed
  rw [asks_stripFields]
  refine and_congr_right fun asks => ?_
  rw [not_and, not_not]
  exact ⟨fun all => all asks, fun mem _ => mem⟩

/-- A stream gets past the schema errors with exactly the missing columns removed, and harmless
ones cost nothing. -/
structure StreamExact (d : Dataset) (q : Projection) : Prop where
  exact_ : ∀ bodyLength fromBlock toBlock answers, d.Honest answers → ∀ n s batch,
    stream bodyLength q.fields fromBlock toBlock answers n = .ok s →
    fetchBatch bodyLength (s.request q.fields toBlock) (answers n (s.request q.fields toBlock)) =
      .ok batch →
    ∀ key, q.fields.Removed (s.request q.fields toBlock).fields key ↔
      q.fields.Asks key ∧ d.Lacks key
  harmless : (∀ key, q.fields.Asks key → d.Lacks key → key ∈ DROPPABLE_FIELDS) →
    ∀ bodyLength fromBlock toBlock answers, d.Honest answers → ∀ n,
      (∀ s, stream bodyLength q.fields fromBlock toBlock answers n = .ok s → s.neededMissing = []) ∧
      ∀ ended, stream bodyLength q.fields fromBlock toBlock answers n = .error ended →
        ∀ key table tag, ended.outcome ≠ .error (.portal (.schemaField key table tag))

/-- A batch answers a request that was served. -/
theorem fetchBatch_ok {bodyLength : Request → Nat} {req : Request}
    {answer : Except FetchError Response} {batch : Batch}
    (fetched : fetchBatch bodyLength req answer = .ok batch) :
    ∃ res, answer = .ok res ∧ 200 ≤ res.status ∧ res.status ≤ 299 := by
  unfold fetchBatch at fetched
  dsimp only at fetched
  split at fetched
  · cases fetched
  · split at fetched
    · cases fetched
    · next res =>
        split at fetched
        · cases fetched
        · split at fetched
          · cases fetched
          · split at fetched
            · cases fetched
            · next served => exact ⟨res, rfl, Decidable.not_not.1 served⟩

theorem StreamExact.of_attributable {d : Dataset} {q : Projection}
    (clear : d.Attributable q.fields) : StreamExact d q := by
  constructor
  · intro bodyLength fromBlock toBlock answers honest n s batch reached fetched key
    unfold stream at reached
    split at reached
    · obtain ⟨res, answered, served, top⟩ := fetchBatch_ok fetched
      have complete := (honest n _ res answered).complete served top
      show q.fields.Removed (stripFields q.fields s.dropped) key ↔ _
      rw [removed_stripFields]
      refine and_congr_right fun asks => ⟨lacks_of_dropped clear honest reached key, ?_⟩
      intro lacks
      by_contra kept
      exact complete key (asks_stripFields.2 ⟨asks, kept⟩) lacks
    · cases reached
  · intro harmless bodyLength fromBlock toBlock answers honest n
    constructor
    · intro s reached
      unfold stream at reached
      split at reached
      · have degraded := degraded_rounds honest reached
        have lacks := lacks_of_dropped clear honest reached
        refine List.eq_nil_iff_forall_not_mem.2 fun e mem => ?_
        obtain ⟨dropped, needed⟩ := degraded.needed e mem
        exact needed (harmless e.1 (degraded.asked e.1 dropped) (lacks e.1 dropped))
      · cases reached
    · intro ended ends
      unfold stream at ends
      split at ends
      · obtain ⟨m, s, -, reached, last⟩ := rounds_error_inv ends
        exact round_no_schemaField honest (degraded_rounds honest reached) last
      · cases ends
        intro key table tag fails
        cases fails

/-! ## A dataset that insists on one column -/

/-- One block without a header. -/
def servedBlock : Response := ⟨200, none, ⟨["{}".toList], [], none⟩⟩

open Classical in
/-- A column is reported in one way as long as it is asked for, and any other one after that. -/
noncomputable def Dataset.insisting (d : Dataset) (about : FieldKey) (body : Body)
    (req : Request) : Response :=
  if req.fields.Asks about then ⟨400, none, body⟩
  else if missing : ∃ key b, req.fields.Asks key ∧ d.reports key b then
    ⟨400, none, missing.choose_spec.choose⟩
  else servedBlock

section Insisting

variable {d : Dataset} {q : Projection} {about : FieldKey} {body : Body}

/-- What is insisted on is asked for no longer, or it is what the refusal is about. -/
theorem insisting_cases (reported : d.reports about body) (req : Request) :
    (∃ key b, req.fields.Asks key ∧ d.reports key b ∧ d.insisting about body req = ⟨400, none, b⟩ ∧
      (req.fields.Asks about → key = about ∧ b = body)) ∨
      (∀ key, req.fields.Asks key → ¬ d.Lacks key) ∧ d.insisting about body req = servedBlock := by
  unfold Dataset.insisting
  by_cases asks : req.fields.Asks about
  · rw [if_pos asks]
    exact .inl ⟨about, body, asks, reported, rfl, fun _ => ⟨rfl, rfl⟩⟩
  · rw [if_neg asks]
    by_cases missing : ∃ key b, req.fields.Asks key ∧ d.reports key b
    · rw [dif_pos missing]
      obtain ⟨asked, said⟩ := missing.choose_spec.choose_spec
      exact .inl ⟨_, _, asked, said, rfl, fun asks' => absurd asks' asks⟩
    · rw [dif_neg missing]
      exact .inr ⟨fun key asked ⟨b, said⟩ => missing ⟨key, b, asked, said⟩, rfl⟩

theorem insisting_honest (reported : d.reports about body) :
    d.Honest fun _ req => .ok (d.insisting about body req) := by
  intro n req res answered
  cases answered
  rcases insisting_cases reported req with ⟨key, b, asks, said, is, -⟩ | ⟨complete, is⟩
  · rw [is]
    refine ⟨fun e _ => ⟨key, asks, said⟩, fun _ top => ?_⟩
    exact absurd top (show ¬ 400 ≤ 299 by decide)
  · rw [is]
    refine ⟨fun e parsed => ?_, fun _ _ => complete⟩
    exact absurd (parse_some parsed).1 (show ¬ 200 = 400 by decide)

/-- The columns that are still asked for. -/
def Fields.left (fields : Fields) (dropped : List FieldKey) : Nat :=
  (fields.keys.filter fun key => key ∉ dropped).length

theorem Fields.left_drop {fields : Fields} {dropped : List FieldKey} {key : FieldKey}
    (asks : fields.Asks key) (kept : key ∉ dropped) :
    fields.left (key :: dropped) < fields.left dropped := by
  have later : fields.keys.filter (fun k => k ∉ key :: dropped) =
      (fields.keys.filter fun k => k ∉ dropped).filter fun k => k ≠ key := by
    rw [List.filter_filter]
    refine List.filter_congr fun k _ => ?_
    simp [not_or]
  unfold Fields.left
  rw [later]
  refine List.length_filter_lt_length_iff_exists.2 ⟨key, ?_, by simp⟩
  exact List.mem_filter.2 ⟨Fields.mem_keys.2 asks, decide_eq_true kept⟩

/-- The state after a schema error. -/
theorem streamRound_refused {s : StreamState} (degraded : Degraded q s) {key : FieldKey} {b : Body}
    (said : d.reports key b) (asks : (s.request q.fields 0).fields.Asks key) :
    ∃ key' t, streamRound (fun _ => 0) q.fields 0 (fun _ => .ok ⟨400, none, b⟩) s = .ok t ∧
      t.dropped = key' :: s.dropped ∧ q.fields.Asks key' ∧ key' ∉ s.dropped ∧
      Attributed (stripFields q.fields s.dropped) b.refusal key key' := by
  have known : key.table ∈ fieldTables := q.table_known (asks_stripFields.1 asks).1
  obtain ⟨key', table, tag, parsed, asks', attributed⟩ := parse_names (d.names key b said) asks known
  obtain ⟨asked, kept⟩ := asks_stripFields.1 asks'
  have bad : badResponse (s.request q.fields 0) ⟨400, none, b⟩ = .schemaField key' table tag := by
    unfold Body.refusal at parsed
    unfold badResponse
    dsimp only
    rw [parsed]
  have fetched : fetchBatch (fun _ => 0) (s.request q.fields 0) (.ok ⟨400, none, b⟩) =
      .error (.schemaField key' table tag) := by
    unfold fetchBatch
    simp only [Nat.not_lt_zero, gt_iff_lt, if_false]
    rw [if_neg (fun empty => absurd empty.1 (by decide)), if_neg (by decide), if_pos (by decide), bad]
  unfold streamRound
  dsimp only
  rw [fetched]
  dsimp only [onError, onSchemaField]
  rw [degraded.tried, if_neg kept]
  exact ⟨key', _, rfl, rfl, asked, kept, attributed⟩

theorem fetchBatch_servedBlock (req : Request) :
    fetchBatch (fun _ => 0) req (.ok servedBlock) = .ok ⟨[.obj []], req.fromBlock⟩ := by
  rfl

/-- A round of the dataset that insists: a column is dropped, or the request is served. -/
theorem insisting_round (reported : d.reports about body) {s : StreamState}
    (degraded : Degraded q s) :
    (∃ key key' b t, streamRound (fun _ => 0) q.fields 0
        (fun req => .ok (d.insisting about body req)) s = .ok t ∧
      t.dropped = key' :: s.dropped ∧ q.fields.Asks key' ∧ key' ∉ s.dropped ∧
      Attributed (stripFields q.fields s.dropped) (Body.refusal b) key key' ∧
      ((stripFields q.fields s.dropped).Asks about → key = about ∧ b = body)) ∨
    ¬ (stripFields q.fields s.dropped).Asks about ∧
      fetchBatch (fun _ => 0) (s.request q.fields 0)
        (.ok (d.insisting about body (s.request q.fields 0))) = .ok ⟨[.obj []], s.cursor⟩ := by
  rcases insisting_cases reported (s.request q.fields 0) with
    ⟨key, b, asks, said, is, first⟩ | ⟨complete, is⟩
  · obtain ⟨key', t, next, dropped, asked, kept, attributed⟩ := streamRound_refused degraded said asks
    refine .inl ⟨key, key', b, t, ?_, dropped, asked, kept, attributed, first⟩
    unfold streamRound at next ⊢
    dsimp only at next ⊢
    rw [is]
    exact next
  · refine .inr ⟨fun asks => complete about asks ⟨body, reported⟩, ?_⟩
    rw [is]
    exact fetchBatch_servedBlock _

/-- What is insisted on is not dropped before the same name in an earlier table. -/
theorem earlier_dropped_first {dropped : List FieldKey} {table : String} {key' : FieldKey}
    (shape : columnNotFound body.refusal = none) (before : Before table about.table)
    (asks : q.fields.Asks ⟨table, about.field⟩)
    (attributed : Attributed (stripFields q.fields dropped) body.refusal about key')
    (is : key' = about) : (⟨table, about.field⟩ : FieldKey) ∈ dropped := by
  by_contra kept
  have asks' : (stripFields q.fields dropped).Asks ⟨table, about.field⟩ :=
    asks_stripFields.2 ⟨asks, kept⟩
  cases attributed with
  | self first => exact first shape table before asks'
  | earlier other _ before' _ _ =>
      have same : other = about.table := congrArg FieldKey.table is
      rw [same] at before'
      exact Nat.lt_irrefl _ before'

theorem StreamExact.attributable (exact_ : StreamExact d q) : d.Attributable q.fields := by
  intro about body asks reported shape table before asks'
  by_contra present
  have honest := insisting_honest reported
  have degraded : ∀ n s, rounds (streamRound (fun _ => 0) q.fields 0)
      (fun _ req => .ok (d.insisting about body req)) n (streamStart 0) = .ok s → Degraded q s :=
    fun n s reached => degraded_rounds honest reached
  -- every round that goes on asks for fewer columns
  obtain ⟨n, ended, ends⟩ := fails_of_rank (fun s : StreamState => q.fields.left s.dropped) 0
    fun n s t _ reached next => by
      rcases insisting_round reported (degraded n s reached) with
        ⟨key, key', b, t', next', dropped, asked, kept, -, -⟩ | ⟨-, fetched⟩
      · rw [next'] at next
        cases next
        show q.fields.left t.dropped < _
        rw [dropped]
        exact Fields.left_drop asked kept
      · unfold streamRound at next
        dsimp only at next
        rw [fetched] at next
        dsimp only [onBatch] at next
        split at next
        · next room => exact absurd room (by simp)
        · cases next
  obtain ⟨m, s, -, reached, last⟩ := rounds_error_inv ends
  rcases insisting_round reported (degraded m s reached) with
    ⟨key, key', b, t, next, -⟩ | ⟨silent, fetched⟩
  · rw [next] at last
    cases last
  -- the stream is past the errors, and the column of the other table went first
  have first : about ∈ s.dropped → (⟨table, about.field⟩ : FieldKey) ∈ s.dropped := by
    refine rounds_invariant (I := fun _ s => about ∈ s.dropped →
      (⟨table, about.field⟩ : FieldKey) ∈ s.dropped) ?_ ?_ m s reached
    · intro mem
      cases mem
    · intro n s t reached kept next mem
      rcases insisting_round reported (degraded n s reached) with
        ⟨key, key', b, t', next', dropped, -, -, attributed, insists⟩ | ⟨-, fetched⟩
      · rw [next'] at next
        cases next
        rw [dropped] at mem ⊢
        by_cases old : about ∈ s.dropped
        · exact List.mem_cons_of_mem _ (kept old)
        · have is : about = key' := (List.mem_cons.1 mem).resolve_right old
          obtain ⟨rfl, rfl⟩ := insists (asks_stripFields.2 ⟨asks, old⟩)
          exact List.mem_cons_of_mem _
            (earlier_dropped_first shape before asks' attributed is.symm)
      · unfold streamRound at next
        dsimp only at next
        rw [fetched] at next
        dsimp only [onBatch] at next
        split at next
        · next room => exact absurd room (by simp)
        · cases next
  have gone : about ∈ s.dropped := by
    by_contra kept
    exact silent (asks_stripFields.2 ⟨asks, kept⟩)
  have streamed : stream (fun _ => 0) q.fields 0 0
      (fun _ req => .ok (d.insisting about body req)) m = .ok s := reached
  have removed := exact_.exact_ _ 0 0 _ honest m s _ streamed fetched ⟨table, about.field⟩
  exact present (removed.1 (removed_stripFields.2 ⟨asks', first gone⟩)).2

end Insisting

/-- A stream removes exactly what the dataset lacks if and only if no report without a table can be
taken for a column that the dataset has. -/
theorem stream_exact_iff (d : Dataset) (q : Projection) :
    StreamExact d q ↔ d.Attributable q.fields :=
  ⟨StreamExact.attributable, StreamExact.of_attributable⟩

end PortalPonder.Client
