import PortalPonder.Filters

/-!
# The requests of the realtime stream

The subscription of a chain is the merged requests of its log filters and one discovery request
for each factory. A body over the budget is cut by taking the addresses away from requests, key by
key; the keys are kept, and the wire trims what comes in addition. `isDiscoveryLogRequestFor`
tells by its topics and addresses which requests stand for a factory. Keys are compared here without
the order of their topics, which are in one case already; `Wildcards` has the source's own keys.
-/

namespace PortalPonder.Realtime

open Historical (Children)

variable {F A T : Type} [DecidableEq F] [DecidableEq A] [DecidableEq T]

def filterFactory (filter : LogFilter F A T) : Option F :=
  match filter.address with
  | .factory id => some id
  | _ => none

/-- The factories of the filters, each once. -/
def uniqueFactories (filters : List (LogFilter F A T)) : List F :=
  (filters.filterMap filterFactory).eraseDups

def discoveryRequest (factory : Factory A T) : LogRequest A T where
  address := factory.address
  topic0 := some [factory.eventSelector]
  topic1 := none
  topic2 := none
  topic3 := none
  transaction := false

/-- The requests of the filters for the children that are known, and one for each factory. -/
def buildPortalLogRequests (filters : List (LogFilter F A T)) (factoryOf : F → Factory A T)
    (known : Children F A) : List (LogRequest A T) :=
  mergeLogRequests ((filters.flatMap fun f => logRequestsFor f known) ++
    (uniqueFactories filters).map fun f => discoveryRequest (factoryOf f))

/-! ## Wildcards -/

/-- The topics of a request, each in any order. -/
structure WildcardLogRequestKey (T : Type) where
  topic0 : Option (List T)
  topic1 : Option (List T)
  topic2 : Option (List T)
  topic3 : Option (List T)
  deriving DecidableEq, Repr

def wildcardLogRequestKey (request : LogRequest A T) : WildcardLogRequestKey T :=
  ⟨request.topic0, request.topic1, request.topic2, request.topic3⟩

def sameKeyPart (a b : Option (List T)) : Bool :=
  match a, b with
  | none, none => true
  | some a, some b => a.isPerm b
  | _, _ => false

/-- The key is in the set: topics are compared without their order. -/
def hasKey (keys : List (WildcardLogRequestKey T)) (key : WildcardLogRequestKey T) : Bool :=
  keys.any fun k => sameKeyPart k.topic0 key.topic0 && sameKeyPart k.topic1 key.topic1 &&
    sameKeyPart k.topic2 key.topic2 && sameKeyPart k.topic3 key.topic3

def withoutAddress (request : LogRequest A T) : LogRequest A T := { request with address := none }

/-- Requests with a wildcard key lose their addresses, unless they stand for a factory. -/
def stripKeys (isDiscovery : LogRequest A T → Bool) (wildcard : List (WildcardLogRequestKey T))
    (requests : List (LogRequest A T)) : List (LogRequest A T) :=
  requests.map fun r =>
    if isDiscovery r = false ∧ hasKey wildcard (wildcardLogRequestKey r) = true then withoutAddress r
    else r

structure WildcardLogFlip (T : Type) where
  key : WildcardLogRequestKey T
  addressCount : Nat
  deriving DecidableEq, Repr

structure WildcardLogRequestsResult (A T : Type) where
  requests : List (LogRequest A T)
  wildcard : List (WildcardLogRequestKey T)
  flipped : List (WildcardLogFlip T)
  deriving DecidableEq, Repr

def addressCount (request : LogRequest A T) : Nat := (request.address.map List.length).getD 0

/-- The keys that can still be widened, most addresses first. -/
def wildcardCandidates (isDiscovery : LogRequest A T → Bool)
    (wildcard : List (WildcardLogRequestKey T)) (requests : List (LogRequest A T)) :
    List (WildcardLogFlip T) :=
  ((requests.filter fun r => 0 < addressCount r && !hasKey wildcard (wildcardLogRequestKey r) &&
    !isDiscovery r).map fun r => ⟨wildcardLogRequestKey r, addressCount r⟩).mergeSort
      fun a b => b.addressCount ≤ a.addressCount

/-- Widen one candidate after the other until the body fits. -/
def flipUntil (isDiscovery : LogRequest A T → Bool) (fits : List (LogRequest A T) → Bool)
    (requests : List (LogRequest A T)) (wildcard : List (WildcardLogRequestKey T))
    (flipped : List (WildcardLogFlip T)) :
    List (WildcardLogFlip T) → WildcardLogRequestsResult A T × Bool
  | [] =>
      let stripped := stripKeys isDiscovery wildcard requests
      (⟨stripped, wildcard, flipped⟩, fits stripped)
  | candidate :: rest =>
      if hasKey wildcard candidate.key then
        flipUntil isDiscovery fits requests wildcard flipped rest
      else
        let wildcard := wildcard ++ [candidate.key]
        let flipped := flipped ++ [candidate]
        let stripped := stripKeys isDiscovery wildcard requests
        if fits stripped then (⟨stripped, wildcard, flipped⟩, true)
        else flipUntil isDiscovery fits requests wildcard flipped rest

def overBudget (size : Nat) : String :=
  s!"#196: realtime log request remains {size}B after every non-discovery address filter was stripped to topic-only"

/-- `bodySize` is the length of the serialized query with these requests. -/
def stripLogAddressesOverBudget (checks : CheckMode) (isDiscovery : LogRequest A T → Bool)
    (bodySize : List (LogRequest A T) → Nat) (wildcard : List (WildcardLogRequestKey T))
    (requests : List (LogRequest A T)) :
    Except InvariantViolation (WildcardLogRequestsResult A T) := do
  let fits := fun requests => decide (bodySize requests < SHARD_BODY_BUDGET)
  let stripped := stripKeys isDiscovery wildcard requests
  if fits stripped then pure ⟨stripped, wildcard, []⟩
  else
    let (result, fitsNow) := flipUntil isDiscovery fits requests wildcard []
      (wildcardCandidates isDiscovery wildcard requests)
    invariant checks "#196" fitsNow (overBudget (bodySize result.requests))
    pure result

/-! ## Telling the requests of factories -/

def isDiscoveryLogRequestFor (factories : List (Factory A T)) (request : LogRequest A T) : Bool :=
  factories.any fun factory =>
    request.topic0.any (fun topics => factory.eventSelector ∈ topics) &&
      match factory.address with
      | none => true
      | some addresses => request.address.any fun as => as.any fun a => a ∈ addresses

/-- Some request that stands for no factory still names children, so that what it delivered of a
new child may be incomplete. -/
def hasAddressFilteredFactoryRequests (requests : List (LogRequest A T)) (liveChildren : List A)
    (wildcard : List (WildcardLogRequestKey T)) (isDiscovery : LogRequest A T → Bool) : Bool :=
  !liveChildren.isEmpty && requests.any fun r =>
    !isDiscovery r && (r.address.any fun as => as.any fun a => a ∈ liveChildren) &&
      !hasKey wildcard (wildcardLogRequestKey r)

end PortalPonder.Realtime
