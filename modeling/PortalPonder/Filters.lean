import PortalPonder.Checks
import PortalPonder.Historical.Discovery
import PortalPonder.Lib.Packing

/-!
# Log filters and their requests

Log filters and factories, the matchers of the indexer, and the requests a set of filters is
turned into: factory addresses are expanded to the known children, requests that share their
addresses and further topics are merged, and a body that would be too large is split.

Addresses and topics are compared in lower case: `A` and `T` are the lower-cased ones. A factory
is known by its id, so the attributes of factories are functions of it.
-/

namespace PortalPonder

open Historical (Children)

/-- The address of a filter: any, some, or the children of a factory. -/
inductive AddressFilter (F A : Type) where
  | any
  | oneOf (addresses : List A)
  | factory (id : F)
  deriving DecidableEq, Repr

structure LogFilter (F A T : Type) where
  address : AddressFilter F A
  topic0 : Option (List T)
  topic1 : Option (List T)
  topic2 : Option (List T)
  topic3 : Option (List T)
  fromBlock : Option Nat
  toBlock : Option Nat
  deriving DecidableEq, Repr

structure Factory (A T : Type) where
  address : Option (List A)
  eventSelector : T
  fromBlock : Option Nat
  toBlock : Option Nat
  deriving DecidableEq, Repr

structure ChainLog (A T : Type) where
  logIndex : Nat
  address : A
  topics : List T
  data : String
  deriving DecidableEq, Repr

structure LogRequest (A T : Type) where
  address : Option (List A)
  topic0 : Option (List T)
  topic1 : Option (List T)
  topic2 : Option (List T)
  topic3 : Option (List T)
  transaction : Bool
  deriving DecidableEq, Repr

variable {F A T V : Type} [DecidableEq A] [DecidableEq T] [DecidableEq V]

/-! ## Matchers -/

/-- Without a filter value everything matches, and a missing value matches nothing else. -/
def isValueMatched (filterValue : Option (List V)) (eventValue : Option V) : Bool :=
  match filterValue with
  | none => true
  | some values => eventValue.any fun v => v ∈ values

def isBlockInRange (fromBlock toBlock : Option Nat) (bn : Nat) : Bool :=
  fromBlock.getD 0 ≤ bn ∧ toBlock.all fun e => bn ≤ e

/-- Range, topics, and an address that is not a factory's. -/
def isLogFilterMatched (filter : LogFilter F A T) (log : ChainLog A T) (bn : Nat) : Bool :=
  isBlockInRange filter.fromBlock filter.toBlock bn &&
    isValueMatched filter.topic0 log.topics[0]? &&
    isValueMatched filter.topic1 log.topics[1]? &&
    isValueMatched filter.topic2 log.topics[2]? &&
    isValueMatched filter.topic3 log.topics[3]? &&
    match filter.address with
    | .any => true
    | .oneOf addresses => isValueMatched (some addresses) (some log.address)
    | .factory _ => true

def isLogFactoryMatched (factory : Factory A T) (log : ChainLog A T) (bn : Nat) : Bool :=
  isBlockInRange factory.fromBlock factory.toBlock bn &&
    isValueMatched factory.address (some log.address) &&
    log.topics[0]? = some factory.eventSelector

/-- A child counts from its creation block on. -/
def isAddressMatched (address : A) (bn : Nat) (childAddresses : OrdMap A Int) : Bool :=
  (childAddresses.get? address).any fun created => created ≤ (bn : Int)

def factoryAddrOk (filterAddr : AddressFilter F A) (known : Children F A) (address : A) (bn : Nat) :
    Bool :=
  match filterAddr with
  | .factory id => isAddressMatched address bn (known id)
  | _ => true

def logMatched (filters : List (LogFilter F A T)) (known : Children F A) (log : ChainLog A T)
    (bn : Nat) : Bool :=
  filters.any fun f => isLogFilterMatched f log bn && factoryAddrOk f.address known log.address bn

/-- What the server matches a request against. -/
def requestMatched (request : LogRequest A T) (log : ChainLog A T) : Bool :=
  isValueMatched request.address (some log.address) &&
    isValueMatched request.topic0 log.topics[0]? &&
    isValueMatched request.topic1 log.topics[1]? &&
    isValueMatched request.topic2 log.topics[2]? &&
    isValueMatched request.topic3 log.topics[3]?

/-! ## Requests -/

def PORTAL_MAX_ADDRESSES : Nat := 1000

/-- Slices of at most `PORTAL_MAX_ADDRESSES`, in order. -/
def addressBatches (addresses : List A) : List (List A) :=
  (List.range ((addresses.length + (PORTAL_MAX_ADDRESSES - 1)) / PORTAL_MAX_ADDRESSES)).map fun i =>
    (addresses.drop (i * PORTAL_MAX_ADDRESSES)).take PORTAL_MAX_ADDRESSES

/-- The topics of a filter, for any address. -/
def baseRequest (filter : LogFilter F A T) : LogRequest A T where
  address := none
  topic0 := filter.topic0
  topic1 := filter.topic1
  topic2 := filter.topic2
  topic3 := filter.topic3
  transaction := false

/-- A factory address expands to the known children; no children is no request, never a
match-all. -/
def logRequestsFor (filter : LogFilter F A T) (known : Children F A) : List (LogRequest A T) :=
  let batched := fun addresses : List A =>
    (addressBatches addresses).map fun batch => { baseRequest filter with address := some batch }
  match filter.address with
  | .any => [baseRequest filter]
  | .oneOf addresses => batched addresses
  | .factory id => batched (known id).keys

/-- Equal merge keys: the same addresses in some order, and the same further topics. -/
def sameGroup (g r : LogRequest A T) : Bool :=
  (match g.address, r.address with
    | none, none => true
    | some a, some b => a.isPerm b
    | _, _ => false) &&
    g.topic1 = r.topic1 && g.topic2 = r.topic2 && g.topic3 = r.topic3

/-- One side without topic absorbs the other. -/
def unionTopic0 : Option (List T) → Option (List T) → Option (List T)
  | some a, some b => some (a ++ b).eraseDups
  | _, _ => none

/-- A request joins its group, or opens one. -/
def absorbRequest : List (LogRequest A T) → LogRequest A T → List (LogRequest A T)
  | [], r => [{ r with topic0 := r.topic0.map List.eraseDups }]
  | g :: groups, r =>
      if sameGroup g r = true then { g with topic0 := unionTopic0 g.topic0 r.topic0 } :: groups
      else g :: absorbRequest groups r

def mergeLogRequests (requests : List (LogRequest A T)) : List (LogRequest A T) :=
  requests.foldl absorbRequest []

def mergedLogRequests (filters : List (LogFilter F A T)) (known : Children F A) :
    List (LogRequest A T) :=
  (mergeLogRequests (filters.flatMap fun f => logRequestsFor f known)).map fun r =>
    { r with transaction := true }

def MAX_RAW_QUERY_SIZE : Nat := 256 * 1024
def SHARD_SAFETY_MARGIN : Nat := 8 * 1024
def SHARD_BODY_BUDGET : Nat := MAX_RAW_QUERY_SIZE - SHARD_SAFETY_MARGIN

/-- The greedy pass: `current` is the open shard. -/
def packLogs (checks : CheckMode) (bodySize : List (LogRequest A T) → Nat) :
    List (LogRequest A T) → List (LogRequest A T) →
      Except InvariantViolation (List (List (LogRequest A T)))
  | current, [] => .ok (if current.isEmpty then [] else [current])
  | current, entry :: rest => do
      invariant checks "#194" (bodySize [entry] < SHARD_BODY_BUDGET)
        "a single merged log-request element exceeds SHARD_BODY_BUDGET"
      if current.isEmpty ∨ bodySize (current ++ [entry]) < SHARD_BODY_BUDGET then
        packLogs checks bodySize (current ++ [entry]) rest
      else
        let shards ← packLogs checks bodySize [entry] rest
        pure (current :: shards)

/-- Split the requests so that each body stays within the budget; `bodySize` is the length of the
serialized query with these requests. -/
def shardLogs (checks : CheckMode) (bodySize : List (LogRequest A T) → Nat)
    (logs : List (LogRequest A T)) : Except InvariantViolation (List (List (LogRequest A T))) :=
  if logs.isEmpty then .ok []
  else if bodySize logs < SHARD_BODY_BUDGET then .ok [logs]
  else packLogs checks bodySize [] logs

/-! ## Requests cover their filters -/

omit [DecidableEq A] in
theorem mem_addressBatches {a : A} {addresses : List A} (mem : a ∈ addresses) :
    ∃ batch ∈ addressBatches addresses, a ∈ batch := by
  obtain ⟨j, within, at_⟩ := List.getElem_of_mem mem
  have pos : 0 < PORTAL_MAX_ADDRESSES := by decide
  have split := Nat.div_add_mod j PORTAL_MAX_ADDRESSES
  have small := Nat.mod_lt j pos
  refine ⟨(addresses.drop (j / PORTAL_MAX_ADDRESSES * PORTAL_MAX_ADDRESSES)).take
    PORTAL_MAX_ADDRESSES, List.mem_map.2 ⟨j / PORTAL_MAX_ADDRESSES, ?_, rfl⟩, ?_⟩
  · rw [List.mem_range, Nat.lt_div_iff_mul_lt pos]
    have : j / PORTAL_MAX_ADDRESSES * PORTAL_MAX_ADDRESSES ≤ j := Nat.div_mul_le_self _ _
    omega
  · refine List.mem_of_getElem? (i := j % PORTAL_MAX_ADDRESSES) ?_
    rw [List.getElem?_take_of_lt small, List.getElem?_drop, Nat.mul_comm, split,
      List.getElem?_eq_getElem within, at_]

@[simp] theorem isValueMatched_none (v : Option V) : isValueMatched none v = true := rfl

theorem isValueMatched_some {values : List V} {v : V} :
    isValueMatched (some values) (some v) = true ↔ v ∈ values := decide_eq_true_iff

omit [DecidableEq T] in
theorem isAddressMatched_iff {address : A} {bn : Nat} {childAddresses : OrdMap A Int} :
    isAddressMatched address bn childAddresses = true ↔
      ∃ created, childAddresses.get? address = some created ∧ created ≤ (bn : Int) := by
  unfold isAddressMatched
  cases childAddresses.get? address with
  | none => simp
  | some created => simp

theorem logMatched_iff {filters : List (LogFilter F A T)} {known : Children F A}
    {log : ChainLog A T} {bn : Nat} :
    logMatched filters known log bn = true ↔
      ∃ f ∈ filters, isLogFilterMatched f log bn = true ∧
        ∀ id, f.address = .factory id → isAddressMatched log.address bn (known id) = true := by
  unfold logMatched factoryAddrOk
  simp only [List.any_eq_true, Bool.and_eq_true]
  refine exists_congr fun f => and_congr_right fun _ => and_congr_right fun _ => ?_
  cases f.address with
  | any => simp
  | oneOf addresses => simp
  | factory id => simp

/-- What a filter matches, its requests match; an address that is a factory's must be known. -/
theorem logRequestsFor_covers {filter : LogFilter F A T} {known : Children F A}
    {log : ChainLog A T} {bn : Nat} (matched : isLogFilterMatched filter log bn = true)
    (child : ∀ id, filter.address = .factory id → log.address ∈ (known id).keys) :
    ∃ r ∈ logRequestsFor filter known, requestMatched r log = true := by
  unfold isLogFilterMatched at matched
  simp only [Bool.and_eq_true] at matched
  obtain ⟨⟨⟨⟨⟨_, zero⟩, one⟩, two⟩, three⟩, address⟩ := matched
  have batched : ∀ addresses : List A, log.address ∈ addresses →
      ∃ r ∈ (addressBatches addresses).map fun batch =>
        { baseRequest filter with address := some batch }, requestMatched r log = true := by
    intro addresses mem
    obtain ⟨batch, inBatches, inBatch⟩ := mem_addressBatches mem
    refine ⟨_, List.mem_map.2 ⟨batch, inBatches, rfl⟩, ?_⟩
    have here := isValueMatched_some.2 inBatch
    simp [requestMatched, baseRequest, here, zero, one, two, three]
  unfold logRequestsFor
  cases kind : filter.address with
  | any =>
      refine ⟨baseRequest filter, List.mem_singleton.2 rfl, ?_⟩
      simp [requestMatched, baseRequest, zero, one, two, three]
  | oneOf addresses =>
      rw [kind] at address
      exact batched addresses (isValueMatched_some.1 address)
  | factory id => exact batched (known id).keys (child id kind)

/-! ## Merging is exact -/

theorem unionTopic0_matched (a b : Option (List T)) (v : Option T) :
    isValueMatched (unionTopic0 a b) v = true ↔
      isValueMatched a v = true ∨ isValueMatched b v = true := by
  cases a with
  | none => simp [unionTopic0]
  | some a =>
      cases b with
      | none => simp [unionTopic0]
      | some b =>
          cases v with
          | none => simp [unionTopic0, isValueMatched]
          | some v =>
              simp only [unionTopic0, isValueMatched_some, List.mem_eraseDups, List.mem_append]

theorem eraseDups_matched (a : Option (List T)) (v : Option T) :
    isValueMatched (a.map List.eraseDups) v = isValueMatched a v := by
  cases a with
  | none => rfl
  | some a =>
      cases v with
      | none => rfl
      | some v =>
          rw [Bool.eq_iff_iff]
          simp only [Option.map_some, isValueMatched_some, List.mem_eraseDups]

/-- Members of one group differ in their first topic only. -/
theorem sameGroup_matched {g r : LogRequest A T} (same : sameGroup g r = true)
    (log : ChainLog A T) :
    isValueMatched g.address (some log.address) = isValueMatched r.address (some log.address) ∧
      g.topic1 = r.topic1 ∧ g.topic2 = r.topic2 ∧ g.topic3 = r.topic3 := by
  unfold sameGroup at same
  simp only [Bool.and_eq_true, decide_eq_true_eq] at same
  obtain ⟨⟨⟨address, one⟩, two⟩, three⟩ := same
  refine ⟨?_, one, two, three⟩
  cases hg : g.address with
  | none =>
      cases hr : r.address with
      | none => rfl
      | some b => simp [hg, hr] at address
  | some a =>
      cases hr : r.address with
      | none => simp [hg, hr] at address
      | some b =>
          simp only [hg, hr, List.isPerm_iff] at address
          rw [Bool.eq_iff_iff, isValueMatched_some, isValueMatched_some]
          exact address.mem_iff

theorem absorbRequest_matched (groups : List (LogRequest A T)) (r : LogRequest A T)
    (log : ChainLog A T) :
    (∃ g ∈ absorbRequest groups r, requestMatched g log = true) ↔
      (∃ g ∈ groups, requestMatched g log = true) ∨ requestMatched r log = true := by
  induction groups with
  | nil =>
      simp only [absorbRequest, List.mem_singleton, exists_eq_left, List.not_mem_nil, false_and,
        exists_false, false_or]
      simp only [requestMatched, eraseDups_matched]
  | cons g groups ih =>
      unfold absorbRequest
      by_cases same : sameGroup g r = true
      · rw [if_pos same]
        obtain ⟨address, one, two, three⟩ := sameGroup_matched same log
        have joined : requestMatched { g with topic0 := unionTopic0 g.topic0 r.topic0 } log = true ↔
            requestMatched g log = true ∨ requestMatched r log = true := by
          simp only [requestMatched, Bool.and_eq_true, unionTopic0_matched, address, one, two, three]
          tauto
        simp only [List.mem_cons, exists_eq_or_imp, joined]
        exact or_right_comm
      · rw [if_neg same]
        simp only [List.mem_cons, exists_eq_or_imp, ih]
        exact or_assoc.symm

/-- The merged requests match exactly the logs that the requests match. -/
theorem mergeLogRequests_matched (requests : List (LogRequest A T)) (log : ChainLog A T) :
    (∃ g ∈ mergeLogRequests requests, requestMatched g log = true) ↔
      ∃ r ∈ requests, requestMatched r log = true := by
  have grown : ∀ groups : List (LogRequest A T),
      (∃ g ∈ requests.foldl absorbRequest groups, requestMatched g log = true) ↔
        (∃ g ∈ groups, requestMatched g log = true) ∨ ∃ r ∈ requests, requestMatched r log = true := by
    induction requests with
    | nil => simp
    | cons r requests ih =>
        intro groups
        rw [List.foldl_cons, ih, absorbRequest_matched]
        simp only [List.mem_cons, exists_eq_or_imp]
        exact or_assoc
  have whole := grown []
  simpa [mergeLogRequests] using whole

theorem mergedLogRequests_covers {filters : List (LogFilter F A T)} {filter : LogFilter F A T}
    (mem : filter ∈ filters) {known : Children F A} {log : ChainLog A T} {bn : Nat}
    (matched : isLogFilterMatched filter log bn = true)
    (child : ∀ id, filter.address = .factory id → log.address ∈ (known id).keys) :
    ∃ r ∈ mergedLogRequests filters known, requestMatched r log = true := by
  obtain ⟨r, inRequests, hit⟩ := logRequestsFor_covers matched child
  have merged := mergeLogRequests_matched (filters.flatMap fun f => logRequestsFor f known) log
  obtain ⟨g, inGroups, hit'⟩ := merged.2
    ⟨r, List.mem_flatMap.2 ⟨filter, mem, inRequests⟩, hit⟩
  exact ⟨_, List.mem_map.2 ⟨g, inGroups, rfl⟩, hit'⟩

/-! ## Shards -/

omit [DecidableEq A] [DecidableEq T] in
theorem packLogs_eq_pack (checks : CheckMode) (bodySize : List (LogRequest A T) → Nat)
    (current logs : List (LogRequest A T)) :
    packLogs checks bodySize current logs =
      Packing.pack (fun shard => bodySize shard < SHARD_BODY_BUDGET)
        (fun entry => invariant checks "#194" (bodySize [entry] < SHARD_BODY_BUDGET)
          "a single merged log-request element exceeds SHARD_BODY_BUDGET") current logs := by
  induction logs generalizing current with
  | nil => rfl
  | cons entry rest ih =>
      unfold packLogs Packing.pack
      simp only [ih, decide_eq_true_eq]

omit [DecidableEq A] [DecidableEq T] in
theorem packLogs_flatten {checks : CheckMode} {bodySize : List (LogRequest A T) → Nat}
    {current logs : List (LogRequest A T)} {shards : List (List (LogRequest A T))}
    (packed : packLogs checks bodySize current logs = .ok shards) :
    shards.flatten = current ++ logs := by
  rw [packLogs_eq_pack] at packed
  exact Packing.pack_flatten packed

omit [DecidableEq A] [DecidableEq T] in
/-- The shards partition the requests, in order. -/
theorem shardLogs_flatten {checks : CheckMode} {bodySize : List (LogRequest A T) → Nat}
    {logs : List (LogRequest A T)} {shards : List (List (LogRequest A T))}
    (sharded : shardLogs checks bodySize logs = .ok shards) : shards.flatten = logs := by
  unfold shardLogs at sharded
  split at sharded
  · next empty =>
      cases sharded
      exact (List.isEmpty_iff.1 empty).symm
  · split at sharded
    · cases sharded
      simp
    · exact packLogs_flatten sharded

end PortalPonder
