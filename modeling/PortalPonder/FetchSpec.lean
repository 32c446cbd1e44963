import PortalPonder.Filters

/-!
# The fetch spec of a chain

Everything the indexer asks of a chain, frozen once: the filters by kind, the requests the log
and transaction sources are turned into, and the range of blocks they span. A transaction request
lists the senders and the recipients; a request that would be too large is cut along its longer
side, and the pieces are packed like the log requests.
-/

namespace PortalPonder

open Historical (Children)

structure TransactionFilter (F A : Type) where
  fromAddress : AddressFilter F A
  toAddress : AddressFilter F A
  fromBlock : Option Nat
  toBlock : Option Nat
  deriving DecidableEq, Repr

structure TraceFilter (F A : Type) where
  fromAddress : AddressFilter F A
  toAddress : AddressFilter F A
  callType : Option String
  functionSelector : Option (List String)
  hasTransactionReceipt : Bool
  fromBlock : Option Nat
  toBlock : Option Nat
  deriving DecidableEq, Repr

structure TransferFilter (F A : Type) where
  fromAddress : AddressFilter F A
  toAddress : AddressFilter F A
  hasTransactionReceipt : Bool
  fromBlock : Option Nat
  toBlock : Option Nat
  deriving DecidableEq, Repr

structure BlockFilter where
  interval : Nat
  offset : Nat
  fromBlock : Option Nat
  toBlock : Option Nat
  deriving DecidableEq, Repr

/-- A transaction filter always wants receipts, a block filter never does. -/
inductive Filter (F A T : Type) where
  | log (filter : LogFilter F A T) (hasTransactionReceipt : Bool)
  | trace (filter : TraceFilter F A)
  | transfer (filter : TransferFilter F A)
  | block (filter : BlockFilter)
  | transaction (filter : TransactionFilter F A)
  deriving DecidableEq, Repr

structure FetchSpec (F A T : Type) where
  logFilters : List (LogFilter F A T)
  traceFilters : List (TraceFilter F A)
  transferFilters : List (TransferFilter F A)
  blockFilters : List BlockFilter
  transactionFilters : List (TransactionFilter F A)
  needReceipts : Bool
  backfillStart : Nat
  backfillEnd : Option Nat
  deriving DecidableEq, Repr

structure TxRequest (A : Type) where
  «from» : Option (List A)
  «to» : Option (List A)
  deriving DecidableEq, Repr

namespace Filter

variable {F A T : Type}

def fromBlock : Filter F A T → Option Nat
  | log filter _ => filter.fromBlock
  | trace filter => filter.fromBlock
  | transfer filter => filter.fromBlock
  | block filter => filter.fromBlock
  | transaction filter => filter.fromBlock

def toBlock : Filter F A T → Option Nat
  | log filter _ => filter.toBlock
  | trace filter => filter.toBlock
  | transfer filter => filter.toBlock
  | block filter => filter.toBlock
  | transaction filter => filter.toBlock

def hasTransactionReceipt : Filter F A T → Bool
  | log _ receipt => receipt
  | trace filter => filter.hasTransactionReceipt
  | transfer filter => filter.hasTransactionReceipt
  | block _ => false
  | transaction _ => true

def log? : Filter F A T → Option (LogFilter F A T)
  | log filter _ => some filter
  | _ => none

def trace? : Filter F A T → Option (TraceFilter F A)
  | trace filter => some filter
  | _ => none

def transfer? : Filter F A T → Option (TransferFilter F A)
  | transfer filter => some filter
  | _ => none

def block? : Filter F A T → Option BlockFilter
  | block filter => some filter
  | _ => none

def transaction? : Filter F A T → Option (TransactionFilter F A)
  | transaction filter => some filter
  | _ => none

end Filter

/-! ## The range of a spec -/

/-- The least first block; a source without one starts at genesis. -/
def earliestFrom (froms : List (Option Nat)) : Nat :=
  if froms.all Option.isSome = true then ((froms.filterMap id).min?).getD 0 else 0

/-- The greatest last block; a source without one has no end. -/
def latestTo (tos : List (Option Nat)) : Option Nat :=
  if tos.all Option.isSome = true then (tos.filterMap id).max? else none

theorem earliestFrom_le {froms : List (Option Nat)} {first : Option Nat} (mem : first ∈ froms) :
    earliestFrom froms ≤ first.getD 0 := by
  unfold earliestFrom
  split
  · next all =>
      obtain ⟨n, rfl⟩ := Option.isSome_iff_exists.1 (List.all_eq_true.1 all first mem)
      have inside : n ∈ froms.filterMap id := List.mem_filterMap.2 ⟨some n, mem, rfl⟩
      cases least : (froms.filterMap id).min? with
      | none =>
          rw [List.min?_eq_none_iff.1 least] at inside
          cases inside
      | some m => exact (List.min?_eq_some_iff.1 least).2 n inside
  · exact Nat.zero_le _

theorem le_latestTo {tos : List (Option Nat)} {last : Option Nat} (mem : last ∈ tos) {n : Nat}
    (bound : latestTo tos = some n) : ∃ m, last = some m ∧ m ≤ n := by
  unfold latestTo at bound
  split at bound
  · next all =>
      obtain ⟨m, rfl⟩ := Option.isSome_iff_exists.1 (List.all_eq_true.1 all last mem)
      have inside : m ∈ tos.filterMap id := List.mem_filterMap.2 ⟨some m, mem, rfl⟩
      exact ⟨m, rfl, (List.max?_eq_some_iff.1 bound).2 m inside⟩
  · cases bound

/-! ## The spec -/

def compileFetchSpec {F A T : Type} (fs : List (Filter F A T)) : FetchSpec F A T where
  logFilters := fs.filterMap Filter.log?
  traceFilters := fs.filterMap Filter.trace?
  transferFilters := fs.filterMap Filter.transfer?
  blockFilters := fs.filterMap Filter.block?
  transactionFilters := fs.filterMap Filter.transaction?
  needReceipts := fs.any Filter.hasTransactionReceipt
  backfillStart := earliestFrom (fs.map Filter.fromBlock)
  backfillEnd := latestTo (fs.map Filter.toBlock)

namespace FetchSpec

variable {F A T : Type}

def needBlocks (spec : FetchSpec F A T) : Bool := !spec.blockFilters.isEmpty

def needTxFilter (spec : FetchSpec F A T) : Bool := !spec.transactionFilters.isEmpty

def needTraces (spec : FetchSpec F A T) : Bool :=
  0 < spec.traceFilters.length + spec.transferFilters.length

end FetchSpec

variable {F A T : Type} [DecidableEq A] [DecidableEq T]

/-! ## Transaction filters -/

/-- An address of a filter that is not a factory's. -/
def addressValueMatched (filterAddr : AddressFilter F A) (address : Option A) : Bool :=
  match filterAddr with
  | .oneOf addresses => isValueMatched (some addresses) address
  | _ => true

def isTransactionFilterMatched (filter : TransactionFilter F A) (sender recipient : Option A)
    (bn : Nat) : Bool :=
  isBlockInRange filter.fromBlock filter.toBlock bn &&
    addressValueMatched filter.fromAddress sender &&
    addressValueMatched filter.toAddress recipient

/-- `factoryAddrOk`, for an address that may be missing: no child is missing. -/
def factorySideOk (filterAddr : AddressFilter F A) (known : Children F A) (address : Option A)
    (bn : Nat) : Bool :=
  match filterAddr with
  | .factory id => address.any fun a => isAddressMatched a bn (known id)
  | _ => true

def transactionMatched (filter : TransactionFilter F A) (known : Children F A)
    (sender recipient : Option A) (bn : Nat) : Bool :=
  isTransactionFilterMatched filter sender recipient bn &&
    factorySideOk filter.fromAddress known sender bn &&
    factorySideOk filter.toAddress known recipient bn

def txFilterMatched (filters : List (TransactionFilter F A)) (known : Children F A)
    (sender recipient : Option A) (bn : Nat) : Bool :=
  filters.any fun f => transactionMatched f known sender recipient bn

/-- What the server matches a transaction request against: both of its sides. -/
def txRequestMatched (request : TxRequest A) (sender recipient : Option A) : Bool :=
  isValueMatched request.from sender && isValueMatched request.to recipient

/-! ## Transaction requests -/

/-- The addresses of one side, if it restricts them at all. -/
def addrsOf (filterAddr : AddressFilter F A) (known : Children F A) : Option (List A) :=
  match filterAddr with
  | .any => none
  | .oneOf addresses => some addresses
  | .factory id => some (known id).keys

/-- A side without addresses is left out. -/
def requestSide (filterAddr : AddressFilter F A) (known : Children F A) : Option (List A) :=
  (addrsOf filterAddr known).filter fun addresses => !addresses.isEmpty

def txRequestFor (filter : TransactionFilter F A) (known : Children F A) : TxRequest A where
  «from» := requestSide filter.fromAddress known
  «to» := requestSide filter.toAddress known

/-- A request with neither side would fetch every transaction. -/
def txRequestsFor (filters : List (TransactionFilter F A)) (known : Children F A) :
    List (TxRequest A) :=
  (filters.map fun f => txRequestFor f known).filter fun r => r.from.isSome || r.to.isSome

/-- Cut a request that is too large along its longer side. -/
def chunkTxRequest (bodySize : List (TxRequest A) → Nat) (req : TxRequest A) :
    List (TxRequest A) :=
  if bodySize [req] < SHARD_BODY_BUDGET then [req]
  else
    let fromLen := (req.from.map List.length).getD 0
    let toLen := (req.to.map List.length).getD 0
    if toLen ≤ fromLen then
      match req.from.filter fun side => !side.isEmpty with
      | none => [req]
      | some side => (addressBatches side).map fun batch => { req with «from» := some batch }
    else
      match req.to.filter fun side => !side.isEmpty with
      | none => [req]
      | some side => (addressBatches side).map fun batch => { req with «to» := some batch }

/-- Split the requests so that each body stays within the budget; `bodySize` is the length of the
serialized query with these requests. -/
def shardTxRequests (checks : CheckMode) (bodySize : List (TxRequest A) → Nat)
    (transactions : List (TxRequest A)) : Except InvariantViolation (List (List (TxRequest A))) :=
  if transactions.isEmpty then .ok []
  else if bodySize transactions < SHARD_BODY_BUDGET then .ok [transactions]
  else
    Packing.pack (fun shard => bodySize shard < SHARD_BODY_BUDGET)
      (fun entry => invariant checks "#196" (bodySize [entry] < SHARD_BODY_BUDGET)
        "a single tx-filter request exceeds SHARD_BODY_BUDGET after chunking")
      [] (transactions.flatMap (chunkTxRequest bodySize))

namespace FetchSpec

def logQueryShards (spec : FetchSpec F A T) (checks : CheckMode)
    (bodySize : List (LogRequest A T) → Nat) (known : Children F A) :
    Except InvariantViolation (List (List (LogRequest A T))) :=
  shardLogs checks bodySize (mergedLogRequests spec.logFilters known)

def txQueryShards (spec : FetchSpec F A T) (checks : CheckMode)
    (bodySize : List (TxRequest A) → Nat) (known : Children F A) :
    Except InvariantViolation (List (List (TxRequest A))) :=
  shardTxRequests checks bodySize (txRequestsFor spec.transactionFilters known)

end FetchSpec

namespace FetchSpec

/-- The log requests in one query. -/
def logQuery (spec : FetchSpec F A T) (known : Children F A) : Option (List (LogRequest A T)) :=
  let logs := mergedLogRequests spec.logFilters known
  if logs.isEmpty then none else some logs

def txQuery (spec : FetchSpec F A T) (known : Children F A) : Option (List (TxRequest A)) :=
  if !spec.needTxFilter then none
  else
    let transactions := txRequestsFor spec.transactionFilters known
    if transactions.isEmpty then none else some transactions

end FetchSpec

/-! ## Log requests, batch by batch -/

/-- What a filter asks for before its addresses are batched. -/
def wholeRequest (filter : LogFilter F A T) (known : Children F A) : LogRequest A T :=
  { baseRequest filter with address := addrsOf filter.address known }

omit [DecidableEq A] in
theorem mem_of_addressBatches {addresses batch : List A} (isBatch : batch ∈ addressBatches addresses)
    {a : A} (mem : a ∈ batch) : a ∈ addresses := by
  obtain ⟨i, _, rfl⟩ := List.mem_map.1 isBatch
  exact List.mem_of_mem_drop (List.mem_of_mem_take mem)

/-- One of the batches matches an address exactly when the addresses do. -/
theorem addressBatches_matched (addresses : List A) (v : Option A) :
    (∃ batch ∈ addressBatches addresses, isValueMatched (some batch) v = true) ↔
      isValueMatched (some addresses) v = true := by
  cases v with
  | none => simp [isValueMatched]
  | some a =>
      simp only [isValueMatched_some]
      constructor
      · rintro ⟨batch, isBatch, mem⟩
        exact mem_of_addressBatches isBatch mem
      · exact mem_addressBatches

theorem logRequestsFor_matched (filter : LogFilter F A T) (known : Children F A)
    (log : ChainLog A T) :
    (∃ r ∈ logRequestsFor filter known, requestMatched r log = true) ↔
      requestMatched (wholeRequest filter known) log = true := by
  have batched : ∀ addresses : List A,
      (∃ r ∈ (addressBatches addresses).map fun batch =>
        { baseRequest filter with address := some batch }, requestMatched r log = true) ↔
      requestMatched { baseRequest filter with address := some addresses } log = true := by
    intro addresses
    have batches := addressBatches_matched addresses (some log.address)
    simp only [List.mem_map, exists_exists_and_eq_and, requestMatched, Bool.and_eq_true, and_assoc, ← batches]
    constructor
    · rintro ⟨batch, isBatch, address, rest⟩
      exact ⟨⟨batch, isBatch, address⟩, rest⟩
    · rintro ⟨⟨batch, isBatch, address⟩, rest⟩
      exact ⟨batch, isBatch, address, rest⟩
  unfold logRequestsFor wholeRequest addrsOf
  cases filter.address with
  | any => simp [baseRequest]
  | oneOf addresses => exact batched addresses
  | factory id => exact batched (known id).keys

/-- The merged requests match what the filters ask for, one by one. -/
theorem mergedLogRequests_matched (filters : List (LogFilter F A T)) (known : Children F A)
    (log : ChainLog A T) :
    (∃ r ∈ mergedLogRequests filters known, requestMatched r log = true) ↔
      ∃ f ∈ filters, requestMatched (wholeRequest f known) log = true := by
  have merged := mergeLogRequests_matched (filters.flatMap fun f => logRequestsFor f known) log
  have marked : (∃ r ∈ mergedLogRequests filters known, requestMatched r log = true) ↔
      ∃ g ∈ mergeLogRequests (filters.flatMap fun f => logRequestsFor f known),
        requestMatched g log = true := by
    simp only [mergedLogRequests, List.mem_map, exists_exists_and_eq_and]
    rfl
  rw [marked, merged]
  constructor
  · rintro ⟨r, inRequests, hit⟩
    obtain ⟨f, mem, inOwn⟩ := List.mem_flatMap.1 inRequests
    exact ⟨f, mem, (logRequestsFor_matched f known log).1 ⟨r, inOwn, hit⟩⟩
  · rintro ⟨f, mem, hit⟩
    obtain ⟨r, inOwn, hit⟩ := (logRequestsFor_matched f known log).2 hit
    exact ⟨r, List.mem_flatMap.2 ⟨f, mem, inOwn⟩, hit⟩

omit [DecidableEq T] in
theorem isAddressMatched_mem {address : A} {bn : Nat} {childAddresses : OrdMap A Int}
    (matched : isAddressMatched address bn childAddresses = true) :
    address ∈ childAddresses.keys := by
  obtain ⟨created, found, _⟩ := isAddressMatched_iff.1 matched
  rw [OrdMap.mem_keys_iff, found]
  rfl

/-- What is kept of the logs is asked for. -/
theorem logMatched_whole {filters : List (LogFilter F A T)} {known : Children F A}
    {log : ChainLog A T} {bn : Nat} (kept : logMatched filters known log bn = true) :
    ∃ f ∈ filters, requestMatched (wholeRequest f known) log = true := by
  obtain ⟨f, mem, matched, child⟩ := logMatched_iff.1 kept
  have covered := logRequestsFor_covers matched fun id kind => isAddressMatched_mem (child id kind)
  exact ⟨f, mem, (logRequestsFor_matched f known log).1 covered⟩

/-! ## Transaction requests, piece by piece -/

theorem chunkTxRequest_matched (bodySize : List (TxRequest A) → Nat) (req : TxRequest A)
    (sender recipient : Option A) :
    (∃ r ∈ chunkTxRequest bodySize req, txRequestMatched r sender recipient = true) ↔
      txRequestMatched req sender recipient = true := by
  have whole : (∃ r ∈ [req], txRequestMatched r sender recipient = true) ↔
      txRequestMatched req sender recipient = true := by
    simp only [List.mem_singleton, exists_eq_left]
  unfold chunkTxRequest
  split
  · exact whole
  · dsimp only
    split
    · cases side : req.from.filter fun side => !side.isEmpty with
      | none => exact whole
      | some addresses =>
          have isFrom : req.from = some addresses := (Option.filter_eq_some_iff.1 side).1
          have batches := addressBatches_matched addresses sender
          simp only [List.mem_map, exists_exists_and_eq_and, txRequestMatched, Bool.and_eq_true, isFrom, ← batches]
          constructor
          · rintro ⟨batch, isBatch, hit, rest⟩
            exact ⟨⟨batch, isBatch, hit⟩, rest⟩
          · rintro ⟨⟨batch, isBatch, hit⟩, rest⟩
            exact ⟨batch, isBatch, hit, rest⟩
    · cases side : req.to.filter fun side => !side.isEmpty with
      | none => exact whole
      | some addresses =>
          have isTo : req.to = some addresses := (Option.filter_eq_some_iff.1 side).1
          have batches := addressBatches_matched addresses recipient
          simp only [List.mem_map, exists_exists_and_eq_and, txRequestMatched, Bool.and_eq_true, isTo, ← batches]
          constructor
          · rintro ⟨batch, isBatch, rest, hit⟩
            exact ⟨rest, batch, isBatch, hit⟩
          · rintro ⟨rest, batch, isBatch, hit⟩
            exact ⟨batch, isBatch, rest, hit⟩

/-- Cutting and packing the requests changes nothing of what they match. -/
theorem shardTxRequests_matched {checks : CheckMode} {bodySize : List (TxRequest A) → Nat}
    {transactions : List (TxRequest A)} {shards : List (List (TxRequest A))}
    (sharded : shardTxRequests checks bodySize transactions = .ok shards)
    (sender recipient : Option A) :
    (∃ r ∈ shards.flatten, txRequestMatched r sender recipient = true) ↔
      ∃ r ∈ transactions, txRequestMatched r sender recipient = true := by
  unfold shardTxRequests at sharded
  split at sharded
  · next empty =>
      cases sharded
      rw [List.isEmpty_iff.1 empty]
      rfl
  · split at sharded
    · cases sharded
      simp
    · rw [Packing.pack_flatten sharded, List.nil_append]
      constructor
      · rintro ⟨r, mem, hit⟩
        obtain ⟨req, inRequests, isPiece⟩ := List.mem_flatMap.1 mem
        exact ⟨req, inRequests,
          (chunkTxRequest_matched bodySize req sender recipient).1 ⟨r, isPiece, hit⟩⟩
      · rintro ⟨req, inRequests, hit⟩
        obtain ⟨r, isPiece, hit⟩ := (chunkTxRequest_matched bodySize req sender recipient).2 hit
        exact ⟨r, List.mem_flatMap.2 ⟨req, inRequests, isPiece⟩, hit⟩

omit [DecidableEq T] in
/-- A side that the filter accepts is matched by the request, and restricts it if it restricts
the filter. -/
theorem requestSide_matched {filterAddr : AddressFilter F A} {known : Children F A}
    {address : Option A} {bn : Nat} (value : addressValueMatched filterAddr address = true)
    (child : factorySideOk filterAddr known address bn = true) :
    isValueMatched (requestSide filterAddr known) address = true ∧
      (filterAddr ≠ .any → (requestSide filterAddr known).isSome = true) := by
  have listed : ∀ addresses : List A, isValueMatched (some addresses) address = true →
      (some addresses).filter (fun addresses => !addresses.isEmpty) = some addresses := by
    intro addresses hit
    cases addresses with
    | nil => cases address <;> simp [isValueMatched] at hit
    | cons a rest => rfl
  cases filterAddr with
  | any => exact ⟨rfl, fun restricts => absurd rfl restricts⟩
  | oneOf addresses =>
      have hit : isValueMatched (some addresses) address = true := value
      show isValueMatched ((some addresses).filter _) address = true ∧ _
      rw [requestSide, addrsOf, listed addresses hit]
      exact ⟨hit, fun _ => rfl⟩
  | factory id =>
      cases address with
      | none => cases child
      | some a =>
          have hit : isValueMatched (some (known id).keys) (some a) = true :=
            isValueMatched_some.2 (isAddressMatched_mem child)
          rw [requestSide, addrsOf, listed (known id).keys hit]
          exact ⟨hit, fun _ => rfl⟩

omit [DecidableEq T] in
/-- What is kept of the transactions is asked for, if the filter restricts a side. -/
theorem transactionMatched_requested {filters : List (TransactionFilter F A)}
    {filter : TransactionFilter F A} (mem : filter ∈ filters)
    (sided : filter.fromAddress ≠ .any ∨ filter.toAddress ≠ .any) {known : Children F A}
    {sender recipient : Option A} {bn : Nat}
    (kept : transactionMatched filter known sender recipient bn = true) :
    ∃ r ∈ txRequestsFor filters known, txRequestMatched r sender recipient = true := by
  unfold transactionMatched isTransactionFilterMatched at kept
  simp only [Bool.and_eq_true] at kept
  obtain ⟨⟨⟨⟨_, fromValue⟩, toValue⟩, fromChild⟩, toChild⟩ := kept
  obtain ⟨fromHit, fromSome⟩ := requestSide_matched fromValue fromChild
  obtain ⟨toHit, toSome⟩ := requestSide_matched toValue toChild
  refine ⟨txRequestFor filter known, List.mem_filter.2 ⟨List.mem_map.2 ⟨filter, mem, rfl⟩, ?_⟩, ?_⟩
  · show (requestSide filter.fromAddress known).isSome ||
      (requestSide filter.toAddress known).isSome
    rw [Bool.or_eq_true]
    exact sided.imp fromSome toSome
  · show (isValueMatched (requestSide filter.fromAddress known) sender &&
      isValueMatched (requestSide filter.toAddress known) recipient) = true
    rw [fromHit, toHit]
    rfl

/-! ## The requests of a spec -/

namespace FetchSpec

theorem logQueryShards_matched {spec : FetchSpec F A T} {checks : CheckMode}
    {bodySize : List (LogRequest A T) → Nat} {known : Children F A}
    {shards : List (List (LogRequest A T))}
    (sharded : spec.logQueryShards checks bodySize known = .ok shards) (log : ChainLog A T) :
    (∃ r ∈ shards.flatten, requestMatched r log = true) ↔
      ∃ f ∈ spec.logFilters, requestMatched (wholeRequest f known) log = true := by
  rw [shardLogs_flatten sharded]
  exact mergedLogRequests_matched spec.logFilters known log

theorem logQuery_flatten (spec : FetchSpec F A T) (known : Children F A) :
    (spec.logQuery known).toList.flatten = mergedLogRequests spec.logFilters known := by
  unfold logQuery
  dsimp only
  split
  · next empty => exact (List.isEmpty_iff.1 empty).symm
  · simp

omit [DecidableEq A] [DecidableEq T] in
theorem txQuery_flatten (spec : FetchSpec F A T) (known : Children F A) :
    (spec.txQuery known).toList.flatten = txRequestsFor spec.transactionFilters known := by
  unfold txQuery needTxFilter
  split
  · next unneeded =>
      have none_ : spec.transactionFilters = [] := by simpa using unneeded
      rw [none_]
      rfl
  · dsimp only
    split
    · next empty => exact (List.isEmpty_iff.1 empty).symm
    · simp

/-- The requests of a spec ask for all that its filters keep, the log requests ask for exactly
what the log filters ask for one by one, and the range of the spec contains that of each filter. -/
theorem requests_cover (fs : List (Filter F A T)) (known : Children F A) (checks : CheckMode)
    (logSize : List (LogRequest A T) → Nat) (txSize : List (TxRequest A) → Nat) :
    (∀ shards, (compileFetchSpec fs).logQueryShards checks logSize known = .ok shards →
      (∀ log bn, logMatched (compileFetchSpec fs).logFilters known log bn = true →
        ∃ r ∈ shards.flatten, requestMatched r log = true) ∧
      ∀ log, (∃ r ∈ shards.flatten, requestMatched r log = true) ↔
        ∃ f ∈ (compileFetchSpec fs).logFilters,
          requestMatched (wholeRequest f known) log = true) ∧
    (∀ shards, (compileFetchSpec fs).txQueryShards checks txSize known = .ok shards →
      ∀ f ∈ (compileFetchSpec fs).transactionFilters,
        f.fromAddress ≠ .any ∨ f.toAddress ≠ .any →
        ∀ sender recipient bn, transactionMatched f known sender recipient bn = true →
          ∃ r ∈ shards.flatten, txRequestMatched r sender recipient = true) ∧
    ∀ f ∈ fs, (compileFetchSpec fs).backfillStart ≤ f.fromBlock.getD 0 ∧
      ∀ n, (compileFetchSpec fs).backfillEnd = some n → ∃ m, f.toBlock = some m ∧ m ≤ n := by
  refine ⟨fun shards sharded => ⟨fun log bn kept => ?_, logQueryShards_matched sharded⟩, ?_, ?_⟩
  · exact (logQueryShards_matched sharded log).2 (logMatched_whole kept)
  · intro shards sharded f mem sided sender recipient bn kept
    exact (shardTxRequests_matched sharded sender recipient).2
      (transactionMatched_requested mem sided kept)
  · intro f mem
    exact ⟨earliestFrom_le (List.mem_map.2 ⟨f, mem, rfl⟩),
      fun n bound => le_latestTo (List.mem_map.2 ⟨f, mem, rfl⟩) bound⟩

def sampleChildLogs : LogFilter Unit Nat Nat where
  address := .factory ()
  topic0 := some [2]
  topic1 := none
  topic2 := none
  topic3 := none
  fromBlock := some 7
  toBlock := some 80

def sampleChildTxs : TransactionFilter Unit Nat where
  fromAddress := .factory ()
  toAddress := .any
  fromBlock := some 6
  toBlock := some 99

/-- A plain filter, one over the children of a factory, and the transactions those children send. -/
def sampleFilters : List (Filter Unit Nat Nat) :=
  [.log { sampleChildLogs with address := .oneOf [10, 11], topic0 := some [1] } false,
    .log sampleChildLogs true, .transaction sampleChildTxs]

def sampleKnown : Children Unit Nat := fun _ => OrdMap.empty.set 20 8

/-- Two requests exceed the budget, one does not. -/
def sampleSize {α : Type} (requests : List α) : Nat := 200000 * requests.length

theorem requests_cover_sample :
    ∃ logShards txShards,
      (compileFetchSpec sampleFilters).logQueryShards .on sampleSize sampleKnown = .ok logShards ∧
      (compileFetchSpec sampleFilters).txQueryShards .on sampleSize sampleKnown = .ok txShards ∧
      logShards.length = 2 ∧
      (∃ r ∈ logShards.flatten,
        requestMatched r { logIndex := 0, address := 20, topics := [2], data := "" } = true) ∧
      (∃ r ∈ txShards.flatten, txRequestMatched r (some 20) none = true) ∧
      ∃ m, sampleChildLogs.toBlock = some m ∧ m ≤ 99 := by
  have covers := requests_cover sampleFilters sampleKnown .on sampleSize sampleSize
  refine ⟨_, _, rfl, rfl, rfl, ?_, ?_, ?_⟩
  · exact (covers.1 _ rfl).1 _ 8 (by decide)
  · exact covers.2.1 _ rfl sampleChildTxs (by decide) (.inl (by decide)) (some 20) none 8 (by decide)
  · exact (covers.2.2 (.log sampleChildLogs true) (by decide)).2 99 rfl

end FetchSpec

end PortalPonder
