import PortalPonder.ShardBodies

/-!
# The union query of the stand-alone package

`buildPortalQuery` turns all filters of a range into one query: a log filter becomes an element of
`logs`, or several where it has more addresses than one request may hold, a trace filter becomes an
element of `traces`, and the columns are those the elements need.

Hex strings are sequences of UTF-16 units, as `JSON.parse` gives them.
-/

namespace PortalPonder.PortalSync

abbrev Hex := List Nat

/-- On the ASCII letters: hex strings have no others. -/
def toLowerCase (s : Hex) : Hex := s.map fun u => if 65 ≤ u ∧ u ≤ 90 then u + 32 else u

@[simp] theorem toLowerCase_idem (s : Hex) : toLowerCase (toLowerCase s) = toLowerCase s := by
  unfold toLowerCase
  rw [List.map_map]
  apply List.map_congr_left
  intro u _
  simp only [Function.comp_apply]
  by_cases capital : 65 ≤ u ∧ u ≤ 90
  · rw [if_pos capital, if_neg (by omega)]
  · rw [if_neg capital, if_neg capital]

/-- `string | string[] | null | undefined` -/
inductive Topic where
  | absent
  | one (value : Hex)
  | many (values : List Hex)
  deriving DecidableEq, Repr

def asArray : Topic → Option (List Hex)
  | .absent => none
  | .one value => some [value]
  | .many values => some values

structure LogFilter where
  address : Topic
  topic0 : Topic
  topic1 : Topic
  topic2 : Topic
  topic3 : Topic
  includeTransaction : Bool
  deriving DecidableEq, Repr

structure TraceFilter where
  fromAddress : Option (List Hex)
  toAddress : Option (List Hex)
  functionSelector : Option (List Hex)
  deriving DecidableEq, Repr

/-- A cap of no address at all would never come to the end of a list, and is no option. -/
structure BuildOptions where
  receipts : Bool
  traces : Option (List TraceFilter)
  maxAddresses : Option { n : Nat // 0 < n }

def BuildOptions.default : BuildOptions := ⟨false, none, none⟩

structure TraceRequest where
  callFrom : Option (List Hex)
  callTo : Option (List Hex)
  callSighash : Option (List Hex)
  transaction : Bool
  deriving DecidableEq, Repr

/-- The columns of each table, of those that are asked for. -/
structure FieldSelection where
  block : List String
  log : List String
  transaction : Option (List String)
  trace : Option (List String)
  deriving DecidableEq, Repr

structure PortalEvmQuery where
  fromBlock : Nat
  toBlock : Nat
  fields : FieldSelection
  logs : Option (List (LogRequest Hex Hex))
  traces : Option (List TraceRequest)
  deriving DecidableEq, Repr

namespace FIELDS

def block : List String :=
  ["number", "hash", "parentHash", "timestamp", "logsBloom", "miner", "gasUsed", "gasLimit",
    "baseFeePerGas", "nonce", "mixHash", "stateRoot", "receiptsRoot", "transactionsRoot",
    "sha3Uncles", "size", "difficulty", "totalDifficulty", "extraData"]

def log : List String :=
  ["address", "topics", "data", "transactionHash", "transactionIndex", "logIndex"]

def transactionBase : List String :=
  ["transactionIndex", "hash", "from", "to", "input", "value", "nonce", "gas", "gasPrice",
    "maxFeePerGas", "maxPriorityFeePerGas", "type", "r", "s", "v", "yParity"]

def receipt : List String :=
  ["status", "gasUsed", "cumulativeGasUsed", "effectiveGasPrice", "contractAddress", "logsBloom"]

def trace : List String :=
  ["transactionIndex", "traceAddress", "subtraces", "type", "error", "revertReason", "callFrom",
    "callTo", "callValue", "callGas", "callInput", "callSighash", "callType",
    "callResultGasUsed", "callResultOutput", "createFrom", "createValue", "createGas",
    "createInit", "createResultGasUsed", "createResultCode", "createResultAddress"]

end FIELDS

/-! ## Requests -/

/-- Slices of at most `width`, in order. -/
def addressSlices (width : Nat) (addrs : List Hex) : List (List Hex) :=
  (List.range ((addrs.length + (width - 1)) / width)).map fun i =>
    (addrs.drop (i * width)).take width

def loweredTopic (topic : Topic) : Option (List Hex) := (asArray topic).map fun ts => ts.map toLowerCase

/-- The topics of a filter, for any address. -/
def topicsRequest (f : LogFilter) : LogRequest Hex Hex where
  address := none
  topic0 := loweredTopic f.topic0
  topic1 := loweredTopic f.topic1
  topic2 := loweredTopic f.topic2
  topic3 := loweredTopic f.topic3
  transaction := f.includeTransaction

/-- A factory without children contributes nothing. -/
def expandLogFilter (f : LogFilter) (maxAddresses : Nat) : List (LogRequest Hex Hex) :=
  match asArray f.address with
  | none => [topicsRequest f]
  | some [] => []
  | some (a :: as) =>
      (addressSlices maxAddresses ((a :: as).map toLowerCase)).map fun addrs =>
        { topicsRequest f with address := some addrs }

/-- An empty list is no restriction. -/
def restriction : Option (List Hex) → Option (List Hex)
  | some (v :: vs) => some ((v :: vs).map toLowerCase)
  | _ => none

def expandTraceFilter (f : TraceFilter) : TraceRequest where
  callFrom := restriction f.fromAddress
  callTo := restriction f.toAddress
  callSighash := restriction f.functionSelector
  transaction := true

/-- `{ ...a, ...b }` -/
def spread (a b : List String) : List String := a ++ b.filter fun c => c ∉ a

def cap (opts : BuildOptions) : Nat :=
  match opts.maxAddresses with
  | some n => n.1
  | none => PORTAL_MAX_ADDRESSES

/-- An empty list is no key of the query. -/
def keyed {α : Type} : List α → Option (List α)
  | [] => none
  | a :: as => some (a :: as)

def buildPortalQuery (interval : Nat × Nat) (logFilters : List LogFilter) (opts : BuildOptions) :
    PortalEvmQuery :=
  let traces := opts.traces.getD []
  let needTx := logFilters.any (fun f => f.includeTransaction) || !traces.isEmpty
  let columns :=
    if opts.receipts then spread FIELDS.transactionBase FIELDS.receipt else FIELDS.transactionBase
  { fromBlock := interval.1
    toBlock := interval.2
    fields :=
      { block := FIELDS.block
        log := FIELDS.log
        transaction := if needTx then some columns else none
        trace := if traces.isEmpty then none else some FIELDS.trace }
    logs := keyed (logFilters.flatMap fun f => expandLogFilter f (cap opts))
    traces := keyed (traces.map expandTraceFilter) }

/-! ## What filters and requests match -/

/-- A log as the server emits it. -/
structure EmittedLog where
  address : Hex
  topics : List Hex
  data : Hex
  deriving DecidableEq, Repr

/-- Whether a value is among those listed, whatever the case of its letters. -/
def listed (values : Option (List Hex)) (v : Option Hex) : Bool :=
  isValueMatched (values.map fun vs => vs.map toLowerCase) (v.map toLowerCase)

def requestMatchesLog (request : LogRequest Hex Hex) (log : EmittedLog) : Bool :=
  listed request.address (some log.address) &&
    listed request.topic0 log.topics[0]? &&
    listed request.topic1 log.topics[1]? &&
    listed request.topic2 log.topics[2]? &&
    listed request.topic3 log.topics[3]?

def PortalEvmQuery.asksFor (query : PortalEvmQuery) (log : EmittedLog) : Bool :=
  (query.logs.getD []).any fun request => requestMatchesLog request log

def filterMatchesLog (f : LogFilter) (log : EmittedLog) : Bool :=
  listed (asArray f.address) (some log.address) &&
    listed (asArray f.topic0) log.topics[0]? &&
    listed (asArray f.topic1) log.topics[1]? &&
    listed (asArray f.topic2) log.topics[2]? &&
    listed (asArray f.topic3) log.topics[3]?

/-! ## One filter -/

theorem addressSlices_flatten {width : Nat} (pos : 0 < width) (addrs : List Hex) :
    (addressSlices width addrs).flatten = addrs := by
  unfold addressSlices
  rw [batches_flatten, List.take_of_length_le]
  -- the slices are as many as it takes
  have whole := Nat.div_add_mod (addrs.length + (width - 1)) width
  have rest := Nat.mod_lt (addrs.length + (width - 1)) pos
  rw [Nat.mul_comm]
  omega

theorem length_le_of_mem_addressSlices {width : Nat} {addrs slice : List Hex}
    (mem : slice ∈ addressSlices width addrs) : slice.length ≤ width := by
  unfold addressSlices at mem
  obtain ⟨i, -, rfl⟩ := List.mem_map.1 mem
  simp

theorem keyed_getD {α : Type} (l : List α) : (keyed l).getD [] = l := by cases l <;> rfl

theorem listed_loweredTopic (topic : Topic) (v : Option Hex) :
    listed (loweredTopic topic) v = listed (asArray topic) v := by
  unfold listed loweredTopic
  rw [Option.map_map]
  congr 2
  funext vs
  simp

theorem listed_some {values : List Hex} {v : Hex} :
    listed (some values) (some v) = true ↔ ∃ a ∈ values, toLowerCase a = toLowerCase v := by
  simp [listed, isValueMatched]

theorem requestMatchesLog_topics {f : LogFilter} (address : Option (List Hex)) (log : EmittedLog) :
    requestMatchesLog { topicsRequest f with address := address } log =
      (listed address (some log.address) && requestMatchesLog (topicsRequest f) log) := by
  have any : listed none (some log.address) = true := rfl
  simp [requestMatchesLog, topicsRequest, any, Bool.and_assoc]

theorem filterMatchesLog_topics (f : LogFilter) (log : EmittedLog) :
    filterMatchesLog f log =
      (listed (asArray f.address) (some log.address) &&
        requestMatchesLog (topicsRequest f) log) := by
  have any : listed none (some log.address) = true := rfl
  simp [requestMatchesLog, filterMatchesLog, topicsRequest, any, listed_loweredTopic, Bool.and_assoc]

/-- Some slice lists an address just when the whole list does. -/
theorem any_slice_listed {width : Nat} (pos : 0 < width) (addrs : List Hex) (a : Hex) :
    (addressSlices width (addrs.map toLowerCase)).any (fun slice => listed (some slice) (some a)) =
      listed (some addrs) (some a) := by
  rw [Bool.eq_iff_iff, List.any_eq_true]
  simp only [listed_some]
  constructor
  · rintro ⟨slice, isSlice, b, mem, same⟩
    have whole : b ∈ addrs.map toLowerCase := by
      rw [← addressSlices_flatten pos (addrs.map toLowerCase)]
      exact List.mem_flatten.2 ⟨slice, isSlice, mem⟩
    obtain ⟨c, memC, rfl⟩ := List.mem_map.1 whole
    exact ⟨c, memC, by simpa using same⟩
  · rintro ⟨c, mem, same⟩
    have whole := List.mem_map_of_mem (f := toLowerCase) mem
    rw [← addressSlices_flatten pos (addrs.map toLowerCase)] at whole
    obtain ⟨slice, isSlice, here⟩ := List.mem_flatten.1 whole
    exact ⟨slice, isSlice, _, here, by simpa using same⟩

theorem expandLogFilter_matches {maxAddresses : Nat} (pos : 0 < maxAddresses) (f : LogFilter)
    (log : EmittedLog) :
    (expandLogFilter f maxAddresses).any (fun request => requestMatchesLog request log) =
      filterMatchesLog f log := by
  rw [filterMatchesLog_topics]
  unfold expandLogFilter
  split
  next any =>
    have every : listed none (some log.address) = true := rfl
    simp [any, every]
  next none_ =>
    have nothing : listed (some []) (some log.address) = false := rfl
    simp [none_, nothing]
  next a as some_ =>
    rw [some_, List.any_map, ← any_slice_listed pos (a :: as), List.and_any_distrib_right]
    congr 1
    funext addrs
    exact requestMatchesLog_topics (some addrs) log

theorem ne_nil_of_mem_addressSlices {width : Nat} (pos : 0 < width) {addrs slice : List Hex}
    (mem : slice ∈ addressSlices width addrs) : slice ≠ [] := by
  unfold addressSlices at mem
  obtain ⟨i, inside, rfl⟩ := List.mem_map.1 mem
  rw [List.mem_range, Nat.lt_div_iff_mul_lt pos] at inside
  simp only [ne_eq, List.take_eq_nil_iff, List.drop_eq_nil_iff]
  omega

/-- A request comes from one filter, has an address list just when the filter has one, and then
lists some addresses, but no more than it may. -/
theorem mem_expandLogFilter {f : LogFilter} {maxAddresses : Nat} (pos : 0 < maxAddresses)
    {request : LogRequest Hex Hex} (mem : request ∈ expandLogFilter f maxAddresses) :
    request.transaction = f.includeTransaction ∧
      request.address.isSome = (asArray f.address).isSome ∧
      ∀ addrs, request.address = some addrs → addrs ≠ [] ∧ addrs.length ≤ maxAddresses := by
  unfold expandLogFilter at mem
  split at mem
  next any =>
    rw [List.mem_singleton.1 mem, any]
    exact ⟨rfl, rfl, nofun⟩
  next => simp at mem
  next a as some_ =>
    obtain ⟨slice, isSlice, rfl⟩ := List.mem_map.1 mem
    rw [some_]
    refine ⟨rfl, rfl, ?_⟩
    intro addrs same
    cases same
    exact ⟨ne_nil_of_mem_addressSlices pos isSlice, length_le_of_mem_addressSlices isSlice⟩

/-- The requests of a filter list its addresses in order, none lost and none twice. -/
theorem expandLogFilter_addresses {f : LogFilter} {maxAddresses : Nat} (pos : 0 < maxAddresses) :
    ((expandLogFilter f maxAddresses).flatMap fun request => request.address.getD []) =
      ((asArray f.address).getD []).map toLowerCase := by
  unfold expandLogFilter
  split
  next any => simp [any, topicsRequest]
  next none_ => simp [none_]
  next a as some_ =>
    rw [some_, List.flatMap_map]
    exact List.flatMap_id.trans (addressSlices_flatten pos _)

/-! ## The whole query -/

theorem cap_pos (opts : BuildOptions) : 0 < cap opts := by
  unfold cap
  split
  next n _ => exact n.2
  next => decide

/-- The query asks for the logs that a filter matches, and for no others. -/
theorem buildPortalQuery_asksFor (interval : Nat × Nat) (logFilters : List LogFilter)
    (opts : BuildOptions) (log : EmittedLog) :
    (buildPortalQuery interval logFilters opts).asksFor log =
      logFilters.any fun f => filterMatchesLog f log := by
  unfold PortalEvmQuery.asksFor buildPortalQuery
  simp only [keyed_getD, List.any_flatMap]
  congr 1
  funext f
  exact expandLogFilter_matches (cap_pos opts) f log

/-- The columns a query asks for are those that its requests need. -/
structure Projected (query : PortalEvmQuery) (receipts : Bool) : Prop where
  /-- who asks for the transactions of its matches has their columns -/
  transaction : ((∃ request ∈ query.logs.getD [], request.transaction = true) ∨
      ∃ request ∈ query.traces.getD [], request.transaction = true) →
    ∃ columns, query.fields.transaction = some columns ∧ FIELDS.transactionBase ⊆ columns ∧
      (receipts = true → FIELDS.receipt ⊆ columns)
  trace : query.fields.trace = some FIELDS.trace ↔ query.traces.getD [] ≠ []
  /-- neither list is there when it is empty -/
  noEmpty : query.logs ≠ some [] ∧ query.traces ≠ some []

theorem keyed_ne_nil {α : Type} (l : List α) : keyed l ≠ some [] := by cases l <;> simp [keyed]

theorem subset_spread (a b : List String) : a ⊆ spread a b ∧ b ⊆ spread a b := by
  unfold spread
  constructor
  · exact List.subset_append_left ..
  · intro c mem
    by_cases here : c ∈ a
    · exact List.mem_append_left _ here
    · exact List.mem_append_right _ (List.mem_filter.2 ⟨mem, by simpa using here⟩)

theorem buildPortalQuery_projected (interval : Nat × Nat) (logFilters : List LogFilter)
    (opts : BuildOptions) :
    Projected (buildPortalQuery interval logFilters opts) opts.receipts where
  transaction := by
    intro asks
    have need : (logFilters.any (fun f => f.includeTransaction) ||
        !(opts.traces.getD []).isEmpty) = true := by
      rw [Bool.or_eq_true]
      rcases asks with ⟨request, mem, tx⟩ | ⟨request, mem, -⟩
      · left
        simp only [buildPortalQuery, keyed_getD] at mem
        obtain ⟨f, memF, mem⟩ := List.mem_flatMap.1 mem
        exact List.any_eq_true.2 ⟨f, memF, (mem_expandLogFilter (cap_pos opts) mem).1 ▸ tx⟩
      · right
        simp only [buildPortalQuery, keyed_getD] at mem
        obtain ⟨f, memF, -⟩ := List.mem_map.1 mem
        have some_ := List.ne_nil_of_mem memF
        simpa using some_
    refine ⟨_, if_pos need, ?_, ?_⟩
    · split
      · exact (subset_spread ..).1
      · exact List.Subset.refl _
    · intro on
      rw [if_pos on]
      exact (subset_spread ..).2
  trace := by
    simp only [buildPortalQuery, keyed_getD]
    cases opts.traces.getD [] <;> simp
  noEmpty := ⟨keyed_ne_nil _, keyed_ne_nil _⟩

/-- What the one query of a range is, for any filters and options. It asks for the logs that a
filter matches and for no others, and has the columns its requests need. A request stands for one
filter: it lists addresses just when the filter does, at least one and no more than the cap, so that a
filter whose list is empty never becomes a request for every address; and together the requests of
a filter list its addresses in order. -/
theorem buildPortalQuery_exact (interval : Nat × Nat) (logFilters : List LogFilter)
    (opts : BuildOptions) :
    let query := buildPortalQuery interval logFilters opts
    (∀ log, query.asksFor log = logFilters.any fun f => filterMatchesLog f log) ∧
      Projected query opts.receipts ∧
      ∃ parts : List (LogFilter × List (LogRequest Hex Hex)),
        parts.map Prod.fst = logFilters ∧ parts.flatMap Prod.snd = query.logs.getD [] ∧
        ∀ part ∈ parts,
          (part.2.flatMap fun request => request.address.getD []) =
              ((asArray part.1.address).getD []).map toLowerCase ∧
          ∀ request ∈ part.2,
            request.transaction = part.1.includeTransaction ∧
            request.address.isSome = (asArray part.1.address).isSome ∧
            ∀ addrs, request.address = some addrs → addrs ≠ [] ∧ addrs.length ≤ cap opts := by
  intro query
  refine ⟨buildPortalQuery_asksFor interval logFilters opts, buildPortalQuery_projected .., ?_⟩
  refine ⟨logFilters.map fun f => (f, expandLogFilter f (cap opts)), ?_, ?_, ?_⟩
  · rw [List.map_map]
    exact List.map_id logFilters
  · show _ = (keyed _).getD []
    rw [keyed_getD, List.flatMap_map]
  · intro part mem
    obtain ⟨f, -, rfl⟩ := List.mem_map.1 mem
    exact ⟨expandLogFilter_addresses (cap_pos opts),
      fun request => mem_expandLogFilter (cap_pos opts)⟩

end PortalPonder.PortalSync
