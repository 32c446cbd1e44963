import PortalPonder.Assembly.MissingColumns
import PortalPonder.Client.Dropped

/-!
# Rows without columns

What is left of a block when columns of it were not asked for, as the consumers read it: a list or a
property that was left out is absent, a number is 0 and a string empty. A matcher that reads none of
the columns that were left out decides as before.
-/

namespace PortalPonder

open Client (FieldKey)

def addressColumn : FieldKey := ⟨"log", "address"⟩
def topicsColumn : FieldKey := ⟨"log", "topics"⟩
def numberColumn : FieldKey := ⟨"block", "number"⟩

/-! ## What is left of a row -/

/-- The value of a column, unless it was left out. -/
def unlessDropped {α : Type} (dropped : List FieldKey) (key : FieldKey) (absent value : α) : α :=
  if key ∈ dropped then absent else value

/-- The properties of a row, by the columns that fill them. -/
def leftProps (dropped : List FieldKey) (column : String → Option FieldKey)
    (props : List (String × JsVal)) : List (String × JsVal) :=
  props.filter fun e => (column e.1).all fun key => key ∉ dropped

/-- A flat property is a column. -/
def flatColumn (table name : String) : Option FieldKey := some ⟨table, name⟩

/-- `hx(undefined)` is `0x0`: a number that was left out reads as 0, before any child. -/
def RawHeader.without (dropped : List FieldKey) (h : RawHeader) : RawHeader where
  number := unlessDropped dropped numberColumn 0 h.number
  hash := unlessDropped dropped ⟨"block", "hash"⟩ "" h.hash
  parentHash := unlessDropped dropped ⟨"block", "parentHash"⟩ "" h.parentHash
  timestamp := unlessDropped dropped ⟨"block", "timestamp"⟩ 0 h.timestamp
  props := leftProps dropped (flatColumn "block") h.props

def RawLog.without (dropped : List FieldKey) (l : RawLog) : RawLog where
  address := unlessDropped dropped addressColumn "" l.address
  topics := unlessDropped dropped topicsColumn none l.topics
  data := unlessDropped dropped ⟨"log", "data"⟩ none l.data
  transactionHash := unlessDropped dropped ⟨"log", "transactionHash"⟩ none l.transactionHash
  transactionIndex := unlessDropped dropped ⟨"log", "transactionIndex"⟩ none l.transactionIndex
  logIndex := unlessDropped dropped ⟨"log", "logIndex"⟩ none l.logIndex

def RawTx.without (dropped : List FieldKey) (tx : RawTx) : RawTx where
  transactionIndex := unlessDropped dropped ⟨"transaction", "transactionIndex"⟩ none
    tx.transactionIndex
  hash := unlessDropped dropped ⟨"transaction", "hash"⟩ none tx.hash
  «from» := unlessDropped dropped ⟨"transaction", "from"⟩ none tx.from
  «to» := unlessDropped dropped ⟨"transaction", "to"⟩ none tx.to
  type := unlessDropped dropped ⟨"transaction", "type"⟩ .undefined tx.type
  props := leftProps dropped (flatColumn "transaction") tx.props

namespace Assembly

open Historical (Children)

/-- The columns that stand in the `action` of a trace, by its type. -/
def actionColumns : Option String → List (String × String)
  | some "call" =>
      [("from", "callFrom"), ("to", "callTo"), ("value", "callValue"), ("gas", "callGas"),
        ("input", "callInput"), ("callType", "callCallType"), ("type", "callCallType")]
  | some "create" =>
      [("from", "createFrom"), ("value", "createValue"), ("gas", "createGas"),
        ("init", "createInit")]
  | some "suicide" =>
      [("address", "suicideAddress"), ("refundAddress", "suicideRefundAddress"),
        ("balance", "suicideBalance")]
  | _ => []

/-- The columns that stand in its `result`. -/
def resultColumns : Option String → List (String × String)
  | some "call" => [("gasUsed", "callResultGasUsed"), ("output", "callResultOutput")]
  | some "create" =>
      [("gasUsed", "createResultGasUsed"), ("code", "createResultCode"),
        ("address", "createResultAddress")]
  | _ => []

def nestedColumn (columns : List (String × String)) (name : String) : Option FieldKey :=
  (columns.lookup name).map fun column => ⟨"trace", column⟩

/-- A column of a call is left out wherever it stands, nested or flat. -/
def RawTrace.without (dropped : List FieldKey) (t : RawTrace) : RawTrace where
  transactionIndex := unlessDropped dropped ⟨"trace", "transactionIndex"⟩ none t.transactionIndex
  traceAddress := unlessDropped dropped ⟨"trace", "traceAddress"⟩ none t.traceAddress
  type := unlessDropped dropped ⟨"trace", "type"⟩ none t.type
  action := leftProps dropped (nestedColumn (actionColumns t.type)) t.action
  result := leftProps dropped (nestedColumn (resultColumns t.type)) t.result
  props := leftProps dropped (flatColumn "trace") t.props

def RawBlock.without (dropped : List FieldKey) (b : RawBlock) : RawBlock where
  header := b.header.without dropped
  logs := b.logs.map (RawLog.without dropped)
  transactions := b.transactions.map (RawTx.without dropped)
  traces := b.traces.map (RawTrace.without dropped)

/-! ## Matchers that do not read what was left out -/

section Matchers

variable {F : Type} {spec : Spec F} {upstream : TraceMatching F} {known : Children F Address}
  {dropped : List FieldKey}

theorem prop_leftProps {column : String → Option FieldKey} {name : String}
    (asked : ∀ key, column name = some key → key ∉ dropped) (props : List (String × JsVal)) :
    prop (leftProps dropped column props) name = prop props name := by
  unfold prop leftProps
  congr 1
  induction props with
  | nil => rfl
  | cons e rest ih =>
      rw [List.lookup_cons, List.filter_cons, ← ih]
      by_cases same : name = e.1
      · have stays : (column e.1).all (fun key => key ∉ dropped) = true := by
          rw [← same]
          cases isColumn : column name with
          | none => rfl
          | some key => simpa using asked key isColumn
        rw [if_pos stays, List.lookup_cons]
      · have other : (name == e.1) = false := by simp [same]
        rw [other]
        split
        · rw [List.lookup_cons, other]
        · rfl

theorem rawLogMatcher_without {header : RawHeader} (log : RawLog) (number : numberColumn ∉ dropped)
    (address : addressColumn ∉ dropped) (topics : topicsColumn ∉ dropped) :
    buildRawLogMatcher spec known (log.without dropped) (header.without dropped)
      (header.without dropped).number =
      buildRawLogMatcher spec known log header header.number := by
  have sameNumber : (header.without dropped).number = header.number := if_neg number
  have sameAddress : (log.without dropped).address = log.address := if_neg address
  have sameTopics : (log.without dropped).topics = log.topics := if_neg topics
  unfold buildRawLogMatcher logMatched chainLog toSyncLog isLogFilterMatched
  rw [sameNumber, sameAddress, sameTopics]

theorem rawTxMatcher_without {header : RawHeader} (tx : RawTx) (number : numberColumn ∉ dropped)
    (sender : ⟨"transaction", "from"⟩ ∉ dropped) (recipient : ⟨"transaction", "to"⟩ ∉ dropped) :
    buildRawTxMatcher spec known (tx.without dropped) (header.without dropped)
      (header.without dropped).number =
      buildRawTxMatcher spec known tx header header.number := by
  have sameNumber : (header.without dropped).number = header.number := if_neg number
  have sameSender : (tx.without dropped).from = tx.from := if_neg sender
  have sameRecipient : (tx.without dropped).to = tx.to := if_neg recipient
  unfold buildRawTxMatcher txFilterMatched toSyncTransaction
  rw [sameNumber, sameSender, sameRecipient]

/-- The columns that the matchers of traces read. -/
def MATCHED_TRACE_COLUMNS : List String :=
  ["transactionIndex", "type", "callCallType", "callType", "callFrom", "callTo", "callValue",
    "callInput", "createFrom", "createResultAddress", "createValue", "createInit", "suicideAddress",
    "suicideRefundAddress", "suicideBalance"]

section Trace

variable {t : RawTrace}

theorem prop_nested {columns : List (String × String)} (nested : List (String × JsVal))
    {name flat : String} (same : nestedColumn columns name = some ⟨"trace", flat⟩)
    (asked : ⟨"trace", flat⟩ ∉ dropped) :
    prop (leftProps dropped (nestedColumn columns) nested) name = prop nested name := by
  refine prop_leftProps (fun key isColumn => ?_) nested
  rw [same] at isColumn
  cases isColumn
  exact asked

theorem prop_flat {name : String} (asked : ⟨"trace", name⟩ ∉ dropped) :
    prop (t.without dropped).props name = prop t.props name := by
  refine prop_leftProps (fun key isColumn => ?_) t.props
  cases isColumn
  exact asked

theorem firstOf_without {columns : List (String × String)} (nested : List (String × JsVal))
    {name flat : String} (same : nestedColumn columns name = some ⟨"trace", flat⟩)
    (asked : ⟨"trace", flat⟩ ∉ dropped) :
    firstOf (t.without dropped) (leftProps dropped (nestedColumn columns) nested) name flat =
      firstOf t nested name flat := by
  unfold firstOf
  rw [prop_nested nested same asked, prop_flat asked]

theorem action_without {kind : String} (isKind : t.type = some kind) :
    (t.without dropped).action =
      leftProps dropped (nestedColumn (actionColumns (some kind))) t.action := by
  rw [← isKind]
  rfl

theorem result_without {kind : String} (isKind : t.type = some kind) :
    (t.without dropped).result =
      leftProps dropped (nestedColumn (resultColumns (some kind))) t.result := by
  rw [← isKind]
  rfl

/-- The frame is the same call. -/
theorem parityToCallFrame_without
    (asked : ∀ name ∈ MATCHED_TRACE_COLUMNS, ⟨"trace", name⟩ ∉ dropped) (index : Nat) :
    Option.Rel SameCall (parityToCallFrame (t.without dropped) index)
      (parityToCallFrame t index) := by
  have type_ : (t.without dropped).type = t.type := if_neg (asked "type" (by decide))
  unfold parityToCallFrame
  rw [type_]
  dsimp only
  split
  · next isCall =>
      rw [action_without isCall]
      refine .some ⟨?_, ?_, ?_, ?_, ?_⟩
      · show CALL_TYPE _ = CALL_TYPE _
        rw [prop_nested t.action rfl (asked "callCallType" (by decide)),
          prop_nested t.action rfl (asked "callCallType" (by decide)),
          prop_flat (asked "callCallType" (by decide)), prop_flat (asked "callType" (by decide))]
      · exact congrArg lowered (firstOf_without t.action rfl (asked "callFrom" (by decide)))
      · exact congrArg (fun v => truthy (lowered v))
          (firstOf_without t.action rfl (asked "callTo" (by decide)))
      · exact congrArg opt (firstOf_without t.action rfl (asked "callValue" (by decide)))
      · exact congrArg (fun v : JsVal => v.orElse (.str "0x"))
          (firstOf_without t.action rfl (asked "callInput" (by decide)))
  · next isCreate =>
      rw [action_without isCreate, result_without isCreate]
      refine .some ⟨rfl, ?_, ?_, ?_, ?_⟩
      · exact congrArg lowered (firstOf_without t.action rfl (asked "createFrom" (by decide)))
      · exact congrArg (fun v => truthy (lowered v))
          (firstOf_without t.result rfl (asked "createResultAddress" (by decide)))
      · exact congrArg opt (firstOf_without t.action rfl (asked "createValue" (by decide)))
      · exact congrArg (fun v : JsVal => v.orElse (.str "0x"))
          (firstOf_without t.action rfl (asked "createInit" (by decide)))
  · next isSuicide =>
      rw [action_without isSuicide]
      refine .some ⟨rfl, ?_, ?_, ?_, rfl⟩
      · exact congrArg lowered (firstOf_without t.action rfl (asked "suicideAddress" (by decide)))
      · exact congrArg (fun v => truthy (lowered v))
          (firstOf_without t.action rfl (asked "suicideRefundAddress" (by decide)))
      · exact congrArg opt (firstOf_without t.action rfl (asked "suicideBalance" (by decide)))
  · exact .none

theorem rawTraceMatcher_without
    (asked : ∀ name ∈ MATCHED_TRACE_COLUMNS, ⟨"trace", name⟩ ∉ dropped) (bn : Nat) :
    buildRawTraceMatcher spec upstream known (t.without dropped) bn =
      buildRawTraceMatcher spec upstream known t bn := by
  have type_ : (t.without dropped).type = t.type := if_neg (asked "type" (by decide))
  have index : (t.without dropped).transactionIndex = t.transactionIndex :=
    if_neg (asked "transactionIndex" (by decide))
  have frames := parityToCallFrame_without (t := t) asked 0
  unfold buildRawTraceMatcher
  rw [type_, index]
  split
  · rfl
  · generalize parityToCallFrame (t.without dropped) 0 = left at frames ⊢
    generalize parityToCallFrame t 0 = right at frames ⊢
    cases frames with
    | some same => exact traceMatched_call same bn
    | none => rfl

end Trace

end Matchers

end Assembly

end PortalPonder
