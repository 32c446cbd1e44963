import PortalPonder.Client.Degradation

/-!
# Columns that the realtime stream drops

`streamHotBlocks` drops a column only if its absence is harmless, and throws on any other refusal.
The request is kept from round to round and built again when one of its inputs changes. The rounds
are those of its loop, as far as they decide which columns are asked for: the fork negotiation and
the lines of an open stream are left out.
-/

namespace PortalPonder.Realtime

open Client (FieldKey Fields Body Dataset Projection DROPPABLE_FIELDS StreamExact stripFields
  fieldTables parseSchemaFieldError Attributed asks_stripFields removed_stripFields Before)
open Rounds

/-- The columns that a stream is asked for. -/
structure HotFields where
  blockFields : List String
  logFields : List String
  txFields : Option (List String)
  deriving DecidableEq, Repr

def projectFields (droppedFields : List FieldKey) (fields : List String) (table : String) :
    List String :=
  fields.filter fun f => ⟨table, f⟩ ∉ droppedFields

/-- The `fields` of a request. -/
def HotFields.request (args : HotFields) (droppedFields : List FieldKey) : Fields :=
  [("block", projectFields droppedFields args.blockFields "block"), ("log", args.logFields)] ++
    match args.txFields with
    | none => []
    | some txFields => [("transaction", projectFields droppedFields txFields "transaction")]

/-- The variables of the loop. `K` is what else a body is made from: the cursor, the revision of
the filters and the parent hash. -/
structure HotState (K : Type) where
  droppedFields : List FieldKey
  /-- the last body, with its key -/
  cached : Option ((K × Nat) × Fields)

/-- The refusal that ends the loop, and the column it is taken to name. -/
structure HotRefusal where
  status : Nat
  schemaErr : Option FieldKey
  deriving DecidableEq, Repr

section Rounds

variable {K : Type} [DecidableEq K]

/-- The body of a round: the cached one, if nothing changed. -/
def HotState.body (args : HotFields) (s : HotState K) (inputs : K) : Fields :=
  match s.cached with
  | some (key, fields) =>
      if key = (inputs, s.droppedFields.length) then fields else args.request s.droppedFields
  | none => args.request s.droppedFields

/-- The 4xx branch. -/
def onRefused (s : HotState K) (fields : Fields) (status : Nat) (body : Body) :
    Except HotRefusal (HotState K) :=
  match parseSchemaFieldError status body.refusal fields with
  | some (.schemaField fieldKey _ _) =>
      if fieldKey ∈ DROPPABLE_FIELDS ∧ fieldKey ∉ s.droppedFields then
        .ok { s with droppedFields := fieldKey :: s.droppedFields }
      else .error ⟨status, some fieldKey⟩
  | _ => .error ⟨status, none⟩

/-- A response that opens the stream. -/
def Opens (status : Nat) : Prop := 200 ≤ status ∧ status ≤ 299 ∧ status ≠ 204

/-- One pass of the loop. `answer` is what the fetch of a body comes to, nothing if it throws. -/
def hotRound (args : HotFields) (round : K × (Fields → Option (Nat × Body))) (s : HotState K) :
    Except HotRefusal (HotState K) :=
  let fields := s.body args round.1
  let s := { s with cached := some ((round.1, s.droppedFields.length), fields) }
  match round.2 fields with
  | none => .ok s
  | some (status, body) =>
      if status = 204 ∨ status = 409 then .ok s
      else if ¬(200 ≤ status ∧ status ≤ 299) then
        if 400 ≤ status ∧ status < 500 ∧ status ≠ 429 then onRefused s fields status body else .ok s
      else .ok s

/-- The loop after `n` rounds. -/
def hotRounds (args : HotFields) (answers : Nat → K × (Fields → Option (Nat × Body))) (n : Nat) :
    Except HotRefusal (HotState K) :=
  rounds (hotRound args) answers n ⟨[], none⟩

end Rounds

/-! ## The request -/

variable {args : HotFields}

/-- All columns of the arguments. -/
def HotFields.projection (args : HotFields) : Projection where
  fields := args.request []
  known := by
    intro t mem
    unfold request at mem
    have tables : t.1 = "block" ∨ t.1 = "log" ∨ t.1 = "transaction" := by
      rcases List.mem_append.1 mem with fixed | tx
      · rcases List.mem_cons.1 fixed with rfl | rest
        · exact .inl rfl
        · rw [List.mem_singleton.1 rest]
          exact .inr (.inl rfl)
      · cases has : args.txFields with
        | none =>
            rw [has] at tx
            cases tx
        | some txFields =>
            rw [has] at tx
            rw [List.mem_singleton.1 tx]
            exact .inr (.inr rfl)
    rcases tables with is | is | is <;> rw [is] <;> decide

/-- As long as only harmless columns are dropped, the projection is the one of the historical
client. -/
theorem request_eq_stripFields {dropped : List FieldKey}
    (harmless : ∀ key ∈ dropped, key ∈ DROPPABLE_FIELDS) :
    args.request dropped = stripFields (args.request []) dropped := by
  have logs : args.logFields.filter (fun f => decide (⟨"log", f⟩ ∉ dropped)) = args.logFields := by
    refine List.filter_eq_self.2 fun f _ => decide_eq_true fun mem => ?_
    have table : ∀ key ∈ DROPPABLE_FIELDS, key.table ≠ "log" := by decide
    exact table _ (harmless _ mem) rfl
  unfold HotFields.request stripFields
  simp only [decide_not] at logs
  cases args.txFields with
  | none => simp [projectFields, logs]
  | some txFields => simp [projectFields, logs]

/-! ## A run -/

section Run

variable {K : Type} [DecidableEq K] {d : Dataset}
  {answers : Nat → K × (Fields → Option (Nat × Body))} {s t : HotState K}

/-- Every answer is one of the dataset. -/
def HonestHot (d : Dataset) (answers : Nat → K × (Fields → Option (Nat × Body))) : Prop :=
  ∀ n fields status body, (answers n).2 fields = some (status, body) → d.Answers fields status body

/-- Only harmless columns that were asked for are dropped, and a cached body is the one that would
be built for its key. -/
structure Projected (args : HotFields) (s : HotState K) : Prop where
  harmless : ∀ key ∈ s.droppedFields, key ∈ DROPPABLE_FIELDS
  asked : ∀ key ∈ s.droppedFields, (args.request []).Asks key
  fresh : ∀ k size fields, s.cached = some ((k, size), fields) → size ≤ s.droppedFields.length ∧
    (size = s.droppedFields.length → fields = args.request s.droppedFields)

theorem Projected.body (projected : Projected args s) (inputs : K) :
    s.body args inputs = stripFields (args.request []) s.droppedFields := by
  rw [← request_eq_stripFields projected.harmless]
  unfold HotState.body
  cases has : s.cached with
  | none => rfl
  | some c =>
      obtain ⟨⟨k, size⟩, fields⟩ := c
      dsimp only
      by_cases same : (k, size) = (inputs, s.droppedFields.length)
      · rw [if_pos same]
        exact (projected.fresh k size fields has).2 (congrArg Prod.snd same)
      · rw [if_neg same]

/-- What one round does: it drops what a refusal is taken to name, or nothing. -/
inductive HotDegrades (d : Dataset) (args : HotFields) (s : HotState K) : HotState K → Prop
  | same (c : (K × Nat) × Fields) (key : c.1.2 = s.droppedFields.length)
      (fresh : c.2 = args.request s.droppedFields) :
      HotDegrades d args s { s with cached := some c }
  | drops (c : (K × Nat) × Fields) (key : c.1.2 = s.droppedFields.length)
      (fieldKey about : FieldKey) (body : Body) (harmless : fieldKey ∈ DROPPABLE_FIELDS)
      (asks : (args.request []).Asks fieldKey)
      (asked : (stripFields (args.request []) s.droppedFields).Asks about)
      (reported : d.reports about body)
      (attributed : Attributed (stripFields (args.request []) s.droppedFields) body.refusal about
        fieldKey) :
      HotDegrades d args s
        { s with cached := some c, droppedFields := fieldKey :: s.droppedFields }

/-- A refusal that names a column is about one that is asked for. -/
theorem refusal_attributed {status : Nat} {body : Body} {fieldKey : FieldKey} {table tag : String}
    {dropped : List FieldKey}
    (honest : d.Answers (stripFields (args.request []) dropped) status body)
    (parsed : parseSchemaFieldError status body.refusal (stripFields (args.request []) dropped) =
      some (.schemaField fieldKey table tag)) :
    ((args.request []).Asks fieldKey ∧ fieldKey ∉ dropped) ∧
      ∃ about, (stripFields (args.request []) dropped).Asks about ∧ d.reports about body ∧
        Attributed (stripFields (args.request []) dropped) body.refusal about fieldKey := by
  obtain ⟨about, asks, reported⟩ := honest.refuses _ parsed
  have known : about.table ∈ fieldTables := args.projection.table_known (asks_stripFields.1 asks).1
  obtain ⟨is400, -⟩ := Client.parse_some parsed
  obtain ⟨key', table', tag', read, asks', attributed⟩ :=
    Client.parse_names (d.names about body reported) asks known
  rw [is400, read] at parsed
  cases parsed
  exact ⟨asks_stripFields.1 asks', about, asks, reported, attributed⟩

/-- A round goes on with what it dropped, or a refusal ends it whose column is not harmless. -/
theorem hotRound_cases (honest : HonestHot d answers) (projected : Projected args s) (n : Nat) :
    (∃ t, hotRound args (answers n) s = .ok t ∧ HotDegrades d args s t) ∨
      ∃ failed, hotRound args (answers n) s = .error failed ∧
        ∀ fieldKey, failed.schemaErr = some fieldKey → fieldKey ∉ DROPPABLE_FIELDS ∧
          ∃ about body, (stripFields (args.request []) s.droppedFields).Asks about ∧
            d.reports about body ∧ Attributed (stripFields (args.request []) s.droppedFields)
              body.refusal about fieldKey := by
  have same : HotDegrades d args s
      { s with cached := some (((answers n).1, s.droppedFields.length), s.body args (answers n).1) } :=
    .same _ rfl ((projected.body _).trans (request_eq_stripFields projected.harmless).symm)
  unfold hotRound
  dsimp only
  cases answered : (answers n).2 (s.body args (answers n).1) with
  | none => exact .inl ⟨_, rfl, same⟩
  | some response =>
      obtain ⟨status, body⟩ := response
      have honest := honest n _ status body answered
      rw [projected.body] at honest
      dsimp only
      by_cases quiet : status = 204 ∨ status = 409
      · rw [if_pos quiet]
        exact .inl ⟨_, rfl, same⟩
      by_cases bad : ¬(200 ≤ status ∧ status ≤ 299)
      · rw [if_neg quiet, if_pos bad]
        by_cases final : 400 ≤ status ∧ status < 500 ∧ status ≠ 429
        · rw [if_pos final]
          unfold onRefused
          rw [projected.body]
          split
          · next fieldKey table tag parsed =>
              obtain ⟨⟨asks, kept⟩, about, asked, reported, attributed⟩ :=
                refusal_attributed honest parsed
              by_cases drops : fieldKey ∈ DROPPABLE_FIELDS ∧ fieldKey ∉ s.droppedFields
              · rw [if_pos drops]
                exact .inl ⟨_, rfl, .drops _ rfl fieldKey about body drops.1 asks asked reported
                  attributed⟩
              · rw [if_neg drops]
                refine .inr ⟨_, rfl, fun key is => ?_⟩
                obtain rfl : fieldKey = key := Option.some.inj is
                exact ⟨fun harmless => drops ⟨harmless, kept⟩, about, body, asked, reported,
                  attributed⟩
          · refine .inr ⟨_, rfl, fun key is => ?_⟩
            cases is
        · rw [if_neg final]
          exact .inl ⟨_, rfl, same⟩
      · rw [if_neg quiet, if_neg bad]
        exact .inl ⟨_, rfl, same⟩

omit [DecidableEq K] in
theorem Projected.round (projected : Projected args s) (step : HotDegrades d args s t) :
    Projected args t := by
  cases step with
  | same c key fresh =>
      refine ⟨projected.harmless, projected.asked, ?_⟩
      rintro k size fields is
      cases is
      exact ⟨Nat.le_of_eq key, fun _ => fresh⟩
  | drops c key fieldKey about body harmless asks asked reported attributed =>
      refine ⟨?_, ?_, ?_⟩
      · intro k mem
        rcases List.mem_cons.1 mem with rfl | old
        · exact harmless
        · exact projected.harmless k old
      · intro k mem
        rcases List.mem_cons.1 mem with rfl | old
        · exact asks
        · exact projected.asked k old
      · -- the cached body is the one before the drop
        rintro k size fields is
        cases is
        dsimp only at key
        refine ⟨?_, fun same => ?_⟩
        · rw [key]
          exact Nat.le_succ _
        · rw [key, List.length_cons] at same
          exact absurd same (Nat.ne_of_lt (Nat.lt_succ_self _))

theorem projected_rounds (honest : HonestHot d answers) {n : Nat}
    (reached : hotRounds args answers n = .ok s) : Projected args s := by
  refine rounds_invariant (I := fun _ s => Projected args s) ⟨?_, ?_, ?_⟩ ?_ n s reached
  · intro key mem
    cases mem
  · intro key mem
    cases mem
  · intro k size fields is
    cases is
  · intro n s t _ projected next
    rcases hotRound_cases honest projected n with ⟨t', is, step⟩ | ⟨failed, is, -⟩
    · rw [is] at next
      cases next
      exact projected.round step
    · rw [is] at next
      cases next

/-- Under the condition nothing is dropped that the dataset has. -/
theorem hot_lacks_of_dropped (clear : d.Attributable (args.request [])) (honest : HonestHot d answers)
    {n : Nat} (reached : hotRounds args answers n = .ok s) : ∀ key ∈ s.droppedFields, d.Lacks key := by
  refine rounds_invariant (I := fun _ s => ∀ key ∈ s.droppedFields, d.Lacks key) ?_ ?_ n s reached
  · intro key mem
    cases mem
  · intro n s t before lacks next
    rcases hotRound_cases honest (projected_rounds honest before) n with
      ⟨t', is, step⟩ | ⟨failed, is, -⟩
    · rw [is] at next
      cases next
      cases step with
      | same c key fresh => exact lacks
      | drops c key fieldKey about body harmless asks asked reported attributed =>
          intro k mem
          rcases List.mem_cons.1 mem with rfl | old
          · exact d.attributed clear (fun k asks => (asks_stripFields.1 asks).1) asked reported
              attributed
          · exact lacks k old
    · rw [is] at next
      cases next

end Run

/-- The realtime stream opens with exactly the missing columns removed, and harmless ones are never
the reason why it ends. -/
structure HotExact (d : Dataset) (args : HotFields) : Prop where
  exact_ : ∀ (K : Type) [DecidableEq K] (answers : Nat → K × (Fields → Option (Nat × Body))),
    HonestHot d answers → ∀ n s status body, hotRounds args answers n = .ok s →
    (answers n).2 (s.body args (answers n).1) = some (status, body) → Opens status →
    ∀ key, (args.request []).Removed (s.body args (answers n).1) key ↔
      (args.request []).Asks key ∧ d.Lacks key
  harmless : (∀ key, (args.request []).Asks key → d.Lacks key → key ∈ DROPPABLE_FIELDS) →
    ∀ (K : Type) [DecidableEq K] (answers : Nat → K × (Fields → Option (Nat × Body))),
    HonestHot d answers → ∀ n failed, hotRounds args answers n = .error failed →
      failed.schemaErr = none

variable {d : Dataset}

theorem HotExact.of_attributable (clear : d.Attributable (args.request [])) : HotExact d args := by
  constructor
  · intro K _ answers honest n s status body reached answered opens key
    have projected := projected_rounds honest reached
    have complete := (honest n _ status body answered).complete opens.1 opens.2.1
    rw [projected.body] at complete ⊢
    rw [removed_stripFields]
    refine and_congr_right fun asks => ⟨hot_lacks_of_dropped clear honest reached key, ?_⟩
    intro lacks
    by_contra kept
    exact complete key (asks_stripFields.2 ⟨asks, kept⟩) lacks
  · intro harmless K _ answers honest n failed ends
    obtain ⟨m, s, -, reached, last⟩ := rounds_error_inv ends
    rcases hotRound_cases honest (projected_rounds honest reached) m with
      ⟨t, is, -⟩ | ⟨failed', is, reason⟩
    · rw [is] at last
      cases last
    · rw [is] at last
      cases last
      cases named : failed.schemaErr with
      | none => rfl
      | some fieldKey =>
          obtain ⟨needed, about, body, asked, reported, attributed⟩ := reason fieldKey named
          have lacks := d.attributed clear (fun k asks => (asks_stripFields.1 asks).1) asked reported
            attributed
          refine absurd (harmless fieldKey ?_ lacks) needed
          cases attributed with
          | self first => exact (asks_stripFields.1 asked).1
          | earlier table shape before asks first => exact (asks_stripFields.1 asks).1

/-- A stream that must fail is never opened. -/
theorem HotExact.of_needed {key : FieldKey} (asks : (args.request []).Asks key)
    (lacks : d.Lacks key) (needed : key ∉ DROPPABLE_FIELDS) : HotExact d args := by
  constructor
  · intro K _ answers honest n s status body reached answered opens
    have projected := projected_rounds honest reached
    have complete := (honest n _ status body answered).complete opens.1 opens.2.1
    rw [projected.body] at complete
    refine absurd lacks (complete key (asks_stripFields.2 ⟨asks, fun mem => ?_⟩))
    exact needed (projected.harmless key mem)
  · intro harmless
    exact absurd (harmless key asks lacks) needed

/-- The only table before that of a harmless column is the one of the transactions. -/
theorem before_droppable : ∀ key ∈ DROPPABLE_FIELDS, ∀ table ∈ fieldTables,
    Before table key.table → table = "transaction" ∧ ⟨table, key.field⟩ ∉ DROPPABLE_FIELDS := by
  decide

theorem HotExact.attributable (exact_ : HotExact d args)
    (harmless : ∀ key, (args.request []).Asks key → d.Lacks key → key ∈ DROPPABLE_FIELDS) :
    d.Attributable (args.request []) := by
  intro about body asks reported shape table before asks'
  exfalso
  have droppable : about ∈ DROPPABLE_FIELDS := harmless about asks ⟨body, reported⟩
  have known : about.table ∈ fieldTables := args.projection.table_known asks
  have known' : table ∈ fieldTables := args.projection.table_known asks'
  obtain ⟨key', table', tag, parsed, -, attributed⟩ :=
    Client.parse_names (d.names about body reported) asks known
  -- the refusal is taken to name the column of the transactions
  have needed : key' ∉ DROPPABLE_FIELDS := by
    cases attributed with
    | self first => exact absurd asks' (first shape table before)
    | earlier other shape before' asks'' first =>
        have known'' : other ∈ fieldTables := args.projection.table_known asks''
        exact (before_droppable about droppable other known'' before').2
  let answers : Nat → Unit × (Fields → Option (Nat × Body)) := fun _ =>
    ((), fun fields => if fields.Asks about then some (400, body) else none)
  have honest : HonestHot d answers := by
    intro n fields status b answered
    dsimp only [answers] at answered
    by_cases asked : fields.Asks about
    · rw [if_pos asked] at answered
      cases answered
      exact ⟨fun _ _ => ⟨about, asked, reported⟩, fun _ top => absurd top (by decide)⟩
    · rw [if_neg asked] at answered
      cases answered
  have ends : hotRounds args answers 1 = .error ⟨400, some key'⟩ := by
    show hotRound args (answers 0) ⟨[], none⟩ = _
    unfold hotRound
    dsimp only [HotState.body, answers]
    rw [if_pos asks]
    dsimp only
    rw [if_neg (by decide), if_pos (by decide), if_pos (by decide)]
    unfold onRefused
    rw [parsed]
    dsimp only
    rw [if_neg fun drops => needed drops.1]
  have silent := exact_.harmless harmless Unit answers honest 1 _ ends
  cases silent

/-- When the columns that a stream leaves out are exactly those the dataset lacks: the historical
one if and only if no report without a table can be taken for a column that the dataset has, the
realtime one also where a needed column is missing, since it is never opened then. -/
theorem degradation_exact_iff (d : Dataset) (q : Projection) (args : HotFields) :
    (StreamExact d q ↔ d.Attributable q.fields) ∧
    (HotExact d args ↔ (d.Attributable (args.request []) ∨
      ∃ key, (args.request []).Asks key ∧ d.Lacks key ∧ key ∉ DROPPABLE_FIELDS)) := by
  refine ⟨Client.stream_exact_iff d q, fun exact_ => ?_, ?_⟩
  · by_cases needed : ∃ key, (args.request []).Asks key ∧ d.Lacks key ∧ key ∉ DROPPABLE_FIELDS
    · exact .inr needed
    · refine .inl (exact_.attributable fun key asks lacks => ?_)
      by_contra out
      exact needed ⟨key, asks, lacks, out⟩
  · rintro (clear | ⟨key, asks, lacks, needed⟩)
    · exact .of_attributable clear
    · exact .of_needed asks lacks needed

/-! ## One name in two tables -/

/-- The columns of a query for logs, with their transactions. -/
def logFields : HotFields := ⟨Client.BLOCK_FIELDS, Client.LOG_FIELDS, some Client.TX_FIELDS⟩

/-- What a parser says of a name it does not know. -/
def unknownNonce : Body where
  reads := ["request cannot be read: unknown field ".toList ++ Client.backquote :: "nonce".toList ++
    [Client.backquote]]
  flush := []
  failure := none

/-- A dataset whose blocks have no nonce. -/
def noBlockNonce : Dataset where
  reports key body := key = ⟨"block", "nonce"⟩ ∧ body = unknownNonce
  names := by
    rintro _ _ ⟨rfl, rfl⟩
    exact .unknown (by decide +kernel) (by decide +kernel)

/-- It refuses a request for the nonce of a block. -/
def nonceAnswer (fields : Fields) : Option (Nat × Body) :=
  if fields.Asks ⟨"block", "nonce"⟩ then some (400, unknownNonce) else none

theorem noBlockNonce_harmless {key : FieldKey} (lacks : noBlockNonce.Lacks key) :
    key ∈ DROPPABLE_FIELDS := by
  obtain ⟨body, rfl, -⟩ := lacks
  decide

theorem noBlockNonce_answers {fields : Fields} {status : Nat} {body : Body}
    (answered : nonceAnswer fields = some (status, body)) :
    noBlockNonce.Answers fields status body := by
  unfold nonceAnswer at answered
  split at answered
  · next asks =>
      cases answered
      refine ⟨fun _ _ => ⟨_, asks, rfl, rfl⟩, fun _ top => ?_⟩
      exact absurd top (by decide)
  · cases answered

def nonceStream (_ : Nat) (req : Client.Request) : Except Client.FetchError Client.Response :=
  match nonceAnswer req.fields with
  | some (status, body) => .ok ⟨status, none, body⟩
  | none => .ok Client.servedBlock

theorem nonceStream_honest : noBlockNonce.Honest nonceStream := by
  intro n req res answered
  unfold nonceStream at answered
  cases is : nonceAnswer req.fields with
  | some response =>
      rw [is] at answered
      cases answered
      exact noBlockNonce_answers is
  | none =>
      rw [is] at answered
      cases answered
      unfold nonceAnswer at is
      split at is
      · cases is
      · next silent =>
          refine ⟨fun e parsed => ?_, ?_⟩
          · exact absurd (Client.parse_some parsed).1 (show ¬ 200 = 400 by decide)
          · rintro - - key asks ⟨body, rfl, -⟩
            exact silent asks

/-- Only the nonce of the blocks is missing, which is harmless. The historical client drops the one
of the transactions first and records it as needed, and the realtime stream throws. -/
theorem nonce_misattributed :
    (∃ s batch, Client.stream (fun _ => 0) (logFields.request []) 0 0 nonceStream 2 = .ok s ∧
        Client.fetchBatch (fun _ => 0) (s.request (logFields.request []) 0)
          (nonceStream 2 (s.request (logFields.request []) 0)) = .ok batch ∧
        s.dropped = [⟨"block", "nonce"⟩, ⟨"transaction", "nonce"⟩] ∧
        s.neededMissing = [(⟨"transaction", "nonce"⟩, "nonce")]) ∧
      hotRounds logFields (fun _ => ((), nonceAnswer)) 1 =
        .error ⟨400, some ⟨"transaction", "nonce"⟩⟩ ∧
      ¬ StreamExact noBlockNonce logFields.projection ∧ ¬ HotExact noBlockNonce logFields := by
  have streamed : (Client.stream (fun _ => 0) (logFields.request []) 0 0 nonceStream 2).toOption.map
      (fun s => (s.cursor, s.dropped, s.neededMissing)) =
      some (0, [⟨"block", "nonce"⟩, ⟨"transaction", "nonce"⟩],
        [(⟨"transaction", "nonce"⟩, "nonce")]) := by
    decide +kernel
  have refused : hotRounds logFields (fun _ => ((), nonceAnswer)) 1 =
      .error ⟨400, some ⟨"transaction", "nonce"⟩⟩ := by
    rfl
  obtain ⟨s, reached, is⟩ : ∃ s,
      Client.stream (fun _ => 0) (logFields.request []) 0 0 nonceStream 2 = .ok s ∧
      (s.cursor, s.dropped, s.neededMissing) =
        (0, [⟨"block", "nonce"⟩, ⟨"transaction", "nonce"⟩],
          [(⟨"transaction", "nonce"⟩, "nonce")]) := by
    cases reached : Client.stream (fun _ => 0) (logFields.request []) 0 0 nonceStream 2 with
    | error ended =>
        rw [reached] at streamed
        cases streamed
    | ok s =>
        rw [reached] at streamed
        exact ⟨s, rfl, Option.some.inj streamed⟩
  obtain ⟨-, dropped, missing⟩ : s.cursor = 0 ∧ _ ∧ _ := by
    rw [Prod.mk.injEq, Prod.mk.injEq] at is
    exact is
  have silent : nonceAnswer (s.request (logFields.request []) 0).fields = none := by
    show nonceAnswer (stripFields (logFields.request []) s.dropped) = none
    rw [dropped]
    decide +kernel
  have served : nonceStream 2 (s.request (logFields.request []) 0) = .ok Client.servedBlock := by
    unfold nonceStream
    rw [silent]
  refine ⟨⟨s, ⟨[.obj []], s.cursor⟩, reached, ?_, dropped, missing⟩, refused, ?_, ?_⟩
  · rw [served]
    exact Client.fetchBatch_servedBlock _
  · intro exact_
    have none_ := (exact_.harmless (fun _ _ => noBlockNonce_harmless) _ 0 0 _ nonceStream_honest
      2).1 s reached
    rw [none_] at missing
    cases missing
  · intro exact_
    have none_ := exact_.harmless (fun _ _ => noBlockNonce_harmless) Unit
      (fun _ => ((), nonceAnswer)) (fun _ _ _ _ => noBlockNonce_answers) 1 _ refused
    cases none_

end PortalPonder.Realtime
