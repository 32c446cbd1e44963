import PortalPonder.Realtime.Wire

/-!
# What a subscription delivers

A server delivers of each block the logs that some request of the connection matches, and the
transactions that these logs stand in. The requests ask for what a filter asks for but for its
block bounds; to widen them only adds to what is delivered.
-/

namespace PortalPonder.Realtime

open Historical (Children)
open Assembly (chainLog)

/-! ## What the filters ask for -/

section Asking

variable {F A T : Type} [DecidableEq A] [DecidableEq T]

/-- The filter on every block. -/
def unbounded (filter : LogFilter F A T) : LogFilter F A T :=
  { filter with fromBlock := none, toBlock := none }

/-- A filter asks for a log of any block, when the address is one of its own or of its children. -/
def Asks (filter : LogFilter F A T) (known : Children F A) (log : ChainLog A T) : Prop :=
  isLogFilterMatched (unbounded filter) log 0 = true ∧
    ∀ id, filter.address = .factory id → log.address ∈ (known id).keys

/-- A factory asks for its creation logs in any block. -/
def Discovers (factory : Factory A T) (log : ChainLog A T) : Prop :=
  isLogFactoryMatched { factory with fromBlock := none, toBlock := none } log 0 = true

theorem isLogFilterMatched_iff {filter : LogFilter F A T} {log : ChainLog A T} {bn : Nat} :
    isLogFilterMatched filter log bn = true ↔
      isBlockInRange filter.fromBlock filter.toBlock bn = true ∧
        isLogFilterMatched (unbounded filter) log 0 = true := by
  unfold isLogFilterMatched unbounded
  have always : isBlockInRange none none 0 = true := by decide
  simp only [always, Bool.true_and, Bool.and_eq_true, and_assoc]

theorem isLogFactoryMatched_iff {factory : Factory A T} {log : ChainLog A T} {bn : Nat} :
    isLogFactoryMatched factory log bn = true ↔
      isBlockInRange factory.fromBlock factory.toBlock bn = true ∧ Discovers factory log := by
  unfold Discovers isLogFactoryMatched
  have always : isBlockInRange none none 0 = true := by decide
  simp only [always, Bool.true_and, Bool.and_eq_true, and_assoc]

omit [DecidableEq A] in
theorem mem_of_addressBatches {addresses batch : List A} {a : A}
    (isBatch : batch ∈ addressBatches addresses) (mem : a ∈ batch) : a ∈ addresses := by
  obtain ⟨i, -, rfl⟩ := List.mem_map.1 isBatch
  exact List.mem_of_mem_drop (List.mem_of_mem_take mem)

/-- The requests of a filter match what it asks for. -/
theorem logRequestsFor_matched (filter : LogFilter F A T) (known : Children F A)
    (log : ChainLog A T) :
    (∃ r ∈ logRequestsFor filter known, requestMatched r log = true) ↔ Asks filter known log := by
  constructor
  · rintro ⟨r, mem, matched⟩
    have topics : requestMatched (baseRequest filter) log = true →
        (∀ addresses, filter.address = .oneOf addresses → log.address ∈ addresses) →
        isLogFilterMatched (unbounded filter) log 0 = true := by
      intro base address
      have always : isBlockInRange none none 0 = true := by decide
      unfold requestMatched baseRequest at base
      simp only [Bool.and_eq_true] at base
      obtain ⟨⟨⟨⟨-, zero⟩, one⟩, two⟩, three⟩ := base
      unfold isLogFilterMatched unbounded
      simp only [always, zero, one, two, three, Bool.true_and]
      cases kind : filter.address with
      | any => rfl
      | oneOf addresses => exact isValueMatched_some.2 (address addresses kind)
      | factory id => rfl
    have batched : ∀ addresses : List A,
        (r ∈ (addressBatches addresses).map fun batch =>
          { baseRequest filter with address := some batch }) →
        log.address ∈ addresses ∧ requestMatched (baseRequest filter) log = true := by
      intro addresses inBatches
      obtain ⟨batch, isBatch, rfl⟩ := List.mem_map.1 inBatches
      unfold requestMatched at matched ⊢
      simp only [Bool.and_eq_true, isValueMatched_some] at matched
      obtain ⟨⟨⟨⟨inBatch, zero⟩, one⟩, two⟩, three⟩ := matched
      refine ⟨mem_of_addressBatches isBatch inBatch, ?_⟩
      simp only [Bool.and_eq_true]
      exact ⟨⟨⟨⟨rfl, zero⟩, one⟩, two⟩, three⟩
    unfold logRequestsFor at mem
    unfold Asks
    cases kind : filter.address with
    | any =>
        rw [kind] at mem topics
        obtain rfl := List.mem_singleton.1 mem
        refine ⟨topics matched (fun _ same => by cases same), fun id same => by cases same⟩
    | oneOf addresses =>
        rw [kind] at mem topics
        obtain ⟨inAddresses, base⟩ := batched addresses mem
        refine ⟨topics base fun others same => ?_, fun id same => by cases same⟩
        obtain rfl := AddressFilter.oneOf.inj same
        exact inAddresses
    | factory id =>
        rw [kind] at mem topics
        obtain ⟨isChild, base⟩ := batched (known id).keys mem
        refine ⟨topics base (fun _ same => by cases same), fun other same => ?_⟩
        obtain rfl := AddressFilter.factory.inj same
        exact isChild
  · rintro ⟨matched, child⟩
    have covers : ∃ r ∈ logRequestsFor (unbounded filter) known, requestMatched r log = true :=
      logRequestsFor_covers matched child
    exact covers

theorem discoveryRequest_matched (factory : Factory A T) (log : ChainLog A T) :
    requestMatched (discoveryRequest factory) log = true ↔ Discovers factory log := by
  have always : isBlockInRange none none 0 = true := by decide
  unfold requestMatched discoveryRequest Discovers isLogFactoryMatched
  simp only [always, isValueMatched_none, Bool.true_and, Bool.and_true, Bool.and_eq_true,
    decide_eq_true_eq]
  refine and_congr_right fun _ => ?_
  cases log.topics[0]? with
  | none => simp [isValueMatched]
  | some topic => rw [isValueMatched_some, List.mem_singleton, Option.some_inj]

variable [DecidableEq F]

/-- The requests of a subscription match what its filters and its factories ask for. -/
theorem buildPortalLogRequests_matched (filters : List (LogFilter F A T))
    (factoryOf : F → Factory A T) (known : Children F A) (log : ChainLog A T) :
    (∃ r ∈ buildPortalLogRequests filters factoryOf known, requestMatched r log = true) ↔
      (∃ f ∈ filters, Asks f known log) ∨
        ∃ f ∈ uniqueFactories filters, Discovers (factoryOf f) log := by
  unfold buildPortalLogRequests
  rw [mergeLogRequests_matched]
  constructor
  · rintro ⟨r, mem, matched⟩
    rcases List.mem_append.1 mem with ofFilter | ofFactory
    · obtain ⟨f, inFilters, mem⟩ := List.mem_flatMap.1 ofFilter
      exact .inl ⟨f, inFilters, (logRequestsFor_matched f known log).1 ⟨r, mem, matched⟩⟩
    · obtain ⟨f, inFactories, rfl⟩ := List.mem_map.1 ofFactory
      exact .inr ⟨f, inFactories, (discoveryRequest_matched _ log).1 matched⟩
  · rintro (⟨f, inFilters, asks⟩ | ⟨f, inFactories, discovers⟩)
    · obtain ⟨r, mem, matched⟩ := (logRequestsFor_matched f known log).2 asks
      exact ⟨r, List.mem_append_left _ (List.mem_flatMap.2 ⟨f, inFilters, mem⟩), matched⟩
    · exact ⟨_, List.mem_append_right _ (List.mem_map.2 ⟨f, inFactories, rfl⟩),
        (discoveryRequest_matched _ log).2 discovers⟩

end Asking

/-! ## Widening -/

section Widening

variable {A T : Type} [DecidableEq A] [DecidableEq T] {isDiscovery : LogRequest A T → Bool}

/-- Widened requests match what the requests match. -/
theorem stripKeys_covers (isDiscovery : LogRequest A T → Bool)
    (wildcard : List (WildcardLogRequestKey T)) {requests : List (LogRequest A T)}
    {log : ChainLog A T} (matched : ∃ r ∈ requests, requestMatched r log = true) :
    ∃ r ∈ stripKeys isDiscovery wildcard requests, requestMatched r log = true := by
  obtain ⟨r, mem, hit⟩ := matched
  refine ⟨_, List.mem_map.2 ⟨r, mem, rfl⟩, ?_⟩
  split
  · unfold requestMatched at hit
    simp only [Bool.and_eq_true] at hit
    obtain ⟨⟨⟨⟨-, zero⟩, one⟩, two⟩, three⟩ := hit
    unfold requestMatched withoutAddress
    simp only [isValueMatched_none, zero, one, two, three, Bool.and_true]
  · exact hit

omit [DecidableEq A] in
theorem flipUntil_strips (fits : List (LogRequest A T) → Bool) (requests : List (LogRequest A T))
    (candidates flipped : List (WildcardLogFlip T)) (wildcard : List (WildcardLogRequestKey T)) :
    (flipUntil isDiscovery fits requests wildcard flipped candidates).1.requests =
      stripKeys isDiscovery
        (flipUntil isDiscovery fits requests wildcard flipped candidates).1.wildcard requests := by
  induction candidates generalizing wildcard flipped with
  | nil => rfl
  | cons candidate rest ih =>
      unfold flipUntil
      split
      · exact ih ..
      · dsimp only
        split
        · rfl
        · exact ih ..

omit [DecidableEq A] in
theorem flipUntil_keys (fits : List (LogRequest A T) → Bool) (requests : List (LogRequest A T))
    (candidates flipped : List (WildcardLogFlip T)) (wildcard : List (WildcardLogRequestKey T)) :
    wildcard ⊆ (flipUntil isDiscovery fits requests wildcard flipped candidates).1.wildcard := by
  induction candidates generalizing wildcard flipped with
  | nil => exact List.Subset.refl wildcard
  | cons candidate rest ih =>
      unfold flipUntil
      split
      · exact ih ..
      · dsimp only
        split
        · exact List.subset_append_left ..
        · exact fun key mem => ih _ _ (List.mem_append_left _ mem)

omit [DecidableEq A] in
/-- The body of a connection is the requests, stripped of the addresses of the wildcard keys; no
key is given up. -/
theorem stripLogAddressesOverBudget_strips {checks : CheckMode}
    {bodySize : List (LogRequest A T) → Nat} {wildcard : List (WildcardLogRequestKey T)}
    {requests : List (LogRequest A T)} {result : WildcardLogRequestsResult A T}
    (stripped : stripLogAddressesOverBudget checks isDiscovery bodySize wildcard requests =
      .ok result) :
    result.requests = stripKeys isDiscovery result.wildcard requests ∧
      wildcard ⊆ result.wildcard := by
  unfold stripLogAddressesOverBudget at stripped
  dsimp only at stripped
  split at stripped
  · cases stripped
    exact ⟨rfl, List.Subset.refl wildcard⟩
  · generalize flipped : flipUntil isDiscovery
      (fun requests => decide (bodySize requests < SHARD_BODY_BUDGET)) requests wildcard []
      (wildcardCandidates isDiscovery wildcard requests) = outcome at stripped
    cases checked : invariant checks "#196" outcome.2 (overBudget (bodySize outcome.1.requests)) with
    | error v =>
        rw [checked] at stripped
        cases stripped
    | ok _ =>
        rw [checked] at stripped
        obtain rfl := Except.ok.inj stripped
        rw [← flipped]
        exact ⟨flipUntil_strips .., flipUntil_keys ..⟩

end Widening

/-! ## Deliveries -/

/-- A streamed log as the server and the matchers read it. -/
def streamedLog (header : RawHeader) (log : RawLog) : ChainLog Address Hex :=
  chainLog (toSyncLog log header)

/-- What the server delivers of a block: the logs that some request matches, and the transactions
that they stand in. -/
def delivered (requests : List (LogRequest Address Hex)) (block : HotBatch) : HotBatch :=
  let logs := block.logs.filter fun log =>
    requests.any fun r => requestMatched r (streamedLog block.header log)
  { block with
    logs := logs
    transactions := block.transactions.filter fun tx =>
      tx.hash.any fun hash => hash ∈ logs.filterMap fun log => log.transactionHash }

/-- A log of a block that the requests match is delivered, and no other. -/
theorem mem_delivered {requests : List (LogRequest Address Hex)} {block : HotBatch} {log : RawLog} :
    log ∈ (delivered requests block).logs ↔ log ∈ block.logs ∧
      ∃ r ∈ requests, requestMatched r (streamedLog block.header log) = true := by
  show log ∈ block.logs.filter _ ↔ _
  rw [List.mem_filter, List.any_eq_true]

end PortalPonder.Realtime
