import Mathlib.Data.List.Induction
import PortalPonder.Filters
import PortalPonder.Lib.Folds
import PortalPonder.Transform

/-!
# The filtered logs of a block

A block whose unfiltered `eth_getLogs` is too large is read by one request for each address and
first topic that a filter or a factory names. The children of a factory are not asked for by
address: they may be created in this very block. Requests are told apart by a text, and in it an
empty list of addresses and no address at all look alike.
-/

namespace PortalPonder.Realtime.BlockLogs

open Historical (Children)

/-! ## Filters and factories -/

/-- A lower-case hex text of `n` characters. -/
structure HexText (n : Nat) where
  text : String
  length : text.length = n
  deriving DecidableEq, Repr

abbrev AddressText := HexText 42
abbrev TopicText := HexText 66

/-- `Address | Address[] | undefined` -/
inductive Addresses where
  | undefined
  | one (address : AddressText)
  | many (addresses : List AddressText)
  deriving DecidableEq, Repr

inductive FilterAddress (F : Type) where
  | plain (address : Addresses)
  | factory (id : F)
  deriving DecidableEq, Repr

structure EventFilter (F : Type) where
  address : FilterAddress F
  topic0 : TopicText
  topic1 : Option (List TopicText)
  topic2 : Option (List TopicText)
  topic3 : Option (List TopicText)
  fromBlock : Option Nat
  toBlock : Option Nat

structure EventFactory where
  address : Addresses
  eventSelector : TopicText
  fromBlock : Option Nat
  toBlock : Option Nat

abbrev Log := ChainLog AddressText TopicText

/-- The values an address is compared with, if it is compared. -/
def Addresses.values : Addresses → Option (List AddressText)
  | .undefined => none
  | .one a => some [a]
  | .many as => some as

variable {F : Type}

def FilterAddress.toAddressFilter : FilterAddress F → AddressFilter F AddressText
  | .plain .undefined => .any
  | .plain (.one a) => .oneOf [a]
  | .plain (.many as) => .oneOf as
  | .factory id => .factory id

def EventFilter.toLogFilter (f : EventFilter F) : LogFilter F AddressText TopicText where
  address := f.address.toAddressFilter
  topic0 := some [f.topic0]
  topic1 := f.topic1
  topic2 := f.topic2
  topic3 := f.topic3
  fromBlock := f.fromBlock
  toBlock := f.toBlock

def EventFactory.toFactory (f : EventFactory) : Factory AddressText TopicText where
  address := f.address.values
  eventSelector := f.eventSelector
  fromBlock := f.fromBlock
  toBlock := f.toBlock

/-! ## Requests -/

structure FilteredRequest where
  address : Addresses
  topic0 : TopicText
  deriving DecidableEq, Repr

def addressKey : Addresses → String
  | .undefined => ""
  | .one a => a.text
  | .many as => ",".intercalate ((as.map HexText.text).mergeSort fun a b => a ≤ b)

def FilteredRequest.key (r : FilteredRequest) : String :=
  addressKey r.address ++ "|" ++ r.topic0.text

/-- The keys seen and the requests made. -/
structure Requested where
  seen : List String
  requests : List FilteredRequest

def Requested.push (acc : Requested) (r : FilteredRequest) : Requested :=
  if r.key ∈ acc.seen then acc
  else { seen := r.key :: acc.seen, requests := acc.requests ++ [r] }

/-- A factory's children are found in the logs of the block, so any address is asked for. -/
def EventFilter.request (f : EventFilter F) : FilteredRequest where
  address := match f.address with
    | .factory _ => .undefined
    | .plain address => address
  topic0 := f.topic0

def EventFactory.request (f : EventFactory) : FilteredRequest where
  address := f.address
  topic0 := f.eventSelector

/-- What is pushed, filters first. -/
def pushedRequests (logFilters : List (EventFilter F)) (factories : List EventFactory) :
    List FilteredRequest :=
  logFilters.map EventFilter.request ++ factories.map EventFactory.request

def buildFilteredBlockLogRequests (logFilters : List (EventFilter F))
    (factories : List EventFactory) : List FilteredRequest :=
  ((pushedRequests logFilters factories).foldl Requested.push ⟨[], []⟩).requests

/-! ## The fetch -/

/-- The logs of a block have distinct indices, and stand in their order. -/
structure Block where
  hash : Hash
  number : Nat
  logs : List Log
  ascending : logs.Pairwise fun a b => a.logIndex < b.logIndex

/-- Whether a request asks for a log. A list of addresses is sent in chunks, so that an empty list is
not sent at all, and asks for nothing. -/
def asksFor (r : FilteredRequest) (log : Log) : Bool :=
  log.topics[0]? = some r.topic0 && isValueMatched r.address.values (some log.address)

/-- A node that answers a request with the logs it asks for, in some order. -/
structure Node (block : Block) where
  eth_getLogs : FilteredRequest → List Log
  exact : ∀ r, (eth_getLogs r).Perm (block.logs.filter (asksFor r))

def setLog (blockHash : Hash) (byKey : OrdMap (Hash × Nat) Log) (log : Log) :
    OrdMap (Hash × Nat) Log :=
  byKey.set (blockHash, log.logIndex) log

/-- Every answer is about the block of this hash. -/
def eth_getFilteredBlockLogs (eth_getLogs : FilteredRequest → List Log) (blockHash : Hash)
    (logFilters : List (EventFilter F)) (factories : List EventFactory) : List Log :=
  let requests := buildFilteredBlockLogRequests logFilters factories
  if requests.isEmpty then []
  else
    let results := requests.map eth_getLogs
    let byKey := results.foldl (fun byKey logs => logs.foldl (setLog blockHash) byKey) OrdMap.empty
    (byKey.entries.map Prod.snd).mergeSort fun a b => a.logIndex ≤ b.logIndex

/-- An error, known by its name and those of its causes. -/
structure RpcError where
  names : List String
  deriving DecidableEq, Repr

def isResponseBodyTooLargeError (error : RpcError) : Bool :=
  error.names.any fun name => name = "ResponseBodyTooLargeError"

/-- The fetch of `createRealtimeSync`: `whole` is what the unfiltered request came to. An empty
fallback is not validated, since the logs bloom of the block need not be empty then. -/
def fetchLogs (validateLogsAndBlock : List Log → Except RpcError Unit)
    (whole : Except RpcError (List Log)) (fallback : List Log) : Except RpcError (List Log) :=
  match whole with
  | .ok logs => do
      validateLogsAndBlock logs
      pure logs
  | .error error =>
      if isResponseBodyTooLargeError error then
        if fallback.isEmpty then pure fallback
        else do
          validateLogsAndBlock fallback
          pure fallback
      else .error error

/-! ## Keys -/

/-- The addresses of a key. -/
def keyTexts : Addresses → List String
  | .undefined => []
  | .one a => [a.text]
  | .many as => (as.map HexText.text).mergeSort fun a b => a ≤ b

/-- A request for an address. -/
def Addresses.Names (address : Addresses) (a : AddressText) : Prop :=
  ∃ values, address.values = some values ∧ a ∈ values

theorem addressKey_eq (address : Addresses) :
    addressKey address = ",".intercalate (keyTexts address) := by
  cases address with
  | undefined => simp [addressKey, keyTexts]
  | one a => simp [addressKey, keyTexts]
  | many as => rfl

theorem HexText.ext_text {n : Nat} {a b : HexText n} (same : a.text = b.text) : a = b := by
  cases a
  cases b
  cases same
  rfl

theorem keyTexts_length {address : Addresses} {t : String} (mem : t ∈ keyTexts address) :
    t.length = 42 := by
  cases address with
  | undefined => cases mem
  | one a =>
      rw [List.mem_singleton.1 mem]
      exact a.length
  | many as =>
      simp only [keyTexts, List.mem_mergeSort, List.mem_map] at mem
      obtain ⟨a, -, rfl⟩ := mem
      exact a.length

theorem names_iff (address : Addresses) (a : AddressText) :
    address.Names a ↔ a.text ∈ keyTexts address := by
  have texts : ∀ as : List AddressText, a.text ∈ as.map HexText.text ↔ a ∈ as := by
    intro as
    rw [List.mem_map]
    constructor
    · rintro ⟨b, mem, same⟩
      exact HexText.ext_text same ▸ mem
    · exact fun mem => ⟨a, mem, rfl⟩
  cases address with
  | undefined => simp [Addresses.Names, Addresses.values, keyTexts]
  | one b =>
      have single := texts [b]
      simpa [Addresses.Names, Addresses.values, keyTexts] using single.symm
  | many as =>
      simp only [Addresses.Names, Addresses.values, keyTexts, List.mem_mergeSort, texts]
      simp

theorem keyTexts_eq_nil {address : Addresses} :
    keyTexts address = [] ↔ address = .undefined ∨ address = .many [] := by
  cases address with
  | undefined => simp [keyTexts]
  | one a => simp [keyTexts]
  | many as =>
      have len : (keyTexts (.many as)).length = as.length := by
        simp [keyTexts, List.length_mergeSort]
      rw [← List.length_eq_zero_iff, len, List.length_eq_zero_iff]
      simp

/-- Texts of one length are read back from their joined text. -/
theorem intercalate_inj {n : Nat} (pos : 0 < n) {xs ys : List String}
    (lenX : ∀ x ∈ xs, x.length = n) (lenY : ∀ y ∈ ys, y.length = n)
    (same : ",".intercalate xs = ",".intercalate ys) : xs = ys := by
  -- the head is told off by its length, and then a comma or nothing follows
  have longer : ∀ (z : String) (zs : List String), z.length = n →
      n ≤ (",".intercalate (z :: zs)).length ∧
        (zs ≠ [] → n < (",".intercalate (z :: zs)).length) := by
    intro z zs len
    cases zs with
    | nil => simp [len]
    | cons w ws =>
        rw [String.intercalate_cons_cons]
        simp only [String.length_append, len]
        have comma : ",".length = 1 := rfl
        omega
  induction xs generalizing ys with
  | nil =>
      cases ys with
      | nil => rfl
      | cons y ys =>
          have long := (longer y ys (lenY y List.mem_cons_self)).1
          rw [← same, String.intercalate_nil] at long
          simp at long
          omega
  | cons x xs ih =>
      cases ys with
      | nil =>
          have long := (longer x xs (lenX x List.mem_cons_self)).1
          rw [same, String.intercalate_nil] at long
          simp at long
          omega
      | cons y ys =>
          have lx := lenX x List.mem_cons_self
          have ly := lenY y List.mem_cons_self
          have restX := fun z mem => lenX z (List.mem_cons_of_mem x mem)
          have restY := fun z mem => lenY z (List.mem_cons_of_mem y mem)
          cases xs with
          | nil =>
              cases ys with
              | nil => simpa using same
              | cons w ws =>
                  have long := (longer y (w :: ws) ly).2 (by simp)
                  rw [← same, String.intercalate_singleton] at long
                  omega
          | cons v vs =>
              cases ys with
              | nil =>
                  have long := (longer x (v :: vs) lx).2 (by simp)
                  rw [same, String.intercalate_singleton] at long
                  omega
              | cons w ws =>
                  rw [String.intercalate_cons_cons, String.intercalate_cons_cons] at same
                  have chars := congrArg String.toList same
                  simp only [String.toList_append, List.append_assoc] at chars
                  have lens : x.toList.length = y.toList.length := by
                    rw [String.length_toList, String.length_toList, lx, ly]
                  obtain ⟨head, rest⟩ := List.append_inj chars lens
                  have tails := List.append_cancel_left rest
                  rw [String.toList_inj.1 head, ih restX restY (String.toList_inj.1 tails)]

/-- Requests of one key ask for the same first topic and addresses; but no address at all and none
of an empty list are not told apart. -/
theorem key_eq_iff {q r : FilteredRequest} :
    q.key = r.key ↔ keyTexts q.address = keyTexts r.address ∧ q.topic0 = r.topic0 := by
  constructor
  · intro same
    have chars := congrArg String.toList same
    simp only [FilteredRequest.key, String.toList_append] at chars
    have lens : q.topic0.text.toList.length = r.topic0.text.toList.length := by
      rw [String.length_toList, String.length_toList, q.topic0.length, r.topic0.length]
    obtain ⟨front, topic⟩ := List.append_inj' chars lens
    have address : addressKey q.address = addressKey r.address :=
      String.toList_inj.1 (List.append_cancel_right front)
    rw [addressKey_eq, addressKey_eq] at address
    have texts := intercalate_inj (by decide : 0 < 42) (fun t => keyTexts_length)
      (fun t => keyTexts_length) address
    exact ⟨texts, HexText.ext_text (String.toList_inj.1 topic)⟩
  · rintro ⟨address, topic⟩
    rw [FilteredRequest.key, FilteredRequest.key, addressKey_eq, addressKey_eq, address, topic]

/-! ## The first request of each key -/

theorem push_all (pushes : List FilteredRequest) :
    (∀ k, k ∈ (pushes.foldl Requested.push ⟨[], []⟩).seen ↔ ∃ q ∈ pushes, q.key = k) ∧
      ∀ r, r ∈ (pushes.foldl Requested.push ⟨[], []⟩).requests ↔
        pushes.find? (fun q => q.key = r.key) = some r := by
  induction pushes using List.reverseRecOn with
  | nil => simp
  | append_singleton pushes p ih =>
      obtain ⟨seen, requests⟩ := ih
      simp only [List.foldl_append, List.foldl_cons, List.foldl_nil]
      generalize pushes.foldl Requested.push ⟨[], []⟩ = acc at seen requests
      have before : p.key ∈ acc.seen → ∃ q, pushes.find? (fun q => q.key = p.key) = some q := by
        intro known
        obtain ⟨q, mem, same⟩ := (seen p.key).1 known
        exact Option.isSome_iff_exists.1 (List.find?_isSome.2 ⟨q, mem, decide_eq_true same⟩)
      have fresh : ∀ r : FilteredRequest, p.key ∉ acc.seen → p.key = r.key →
          pushes.find? (fun q => q.key = r.key) = none := by
        intro r new same
        rw [List.find?_eq_none]
        intro q mem hit
        exact new ((seen p.key).2 ⟨q, mem, (of_decide_eq_true hit).trans same.symm⟩)
      unfold Requested.push
      by_cases known : p.key ∈ acc.seen
      · rw [if_pos known]
        refine ⟨fun k => ?_, fun r => ?_⟩
        · rw [seen]
          constructor
          · rintro ⟨q, mem, same⟩
            exact ⟨q, List.mem_append_left _ mem, same⟩
          · rintro ⟨q, mem, same⟩
            rcases List.mem_append.1 mem with old | last
            · exact ⟨q, old, same⟩
            · rw [List.mem_singleton.1 last] at same
              exact (seen k).1 (same ▸ known)
        · rw [requests, List.find?_append]
          by_cases same : p.key = r.key
          · obtain ⟨q, found⟩ := before known
            rw [same] at found
            simp [found]
          · simp [same]
      · rw [if_neg known]
        refine ⟨fun k => ?_, fun r => ?_⟩
        · rw [List.mem_cons, seen]
          constructor
          · rintro (rfl | ⟨q, mem, same⟩)
            · exact ⟨p, List.mem_append_right _ List.mem_cons_self, rfl⟩
            · exact ⟨q, List.mem_append_left _ mem, same⟩
          · rintro ⟨q, mem, same⟩
            rcases List.mem_append.1 mem with old | last
            · exact .inr ⟨q, old, same⟩
            · rw [List.mem_singleton.1 last] at same
              exact .inl same.symm
        · rw [List.mem_append, requests, List.mem_singleton, List.find?_append]
          by_cases same : p.key = r.key
          · rw [fresh r known same]
            simp [same, eq_comm]
          · have apart : ¬ r = p := fun eq => same (congrArg FilteredRequest.key eq.symm)
            simp [same, apart]

variable {logFilters : List (EventFilter F)} {factories : List EventFactory}

theorem mem_requests {r : FilteredRequest} :
    r ∈ buildFilteredBlockLogRequests logFilters factories ↔
      (pushedRequests logFilters factories).find? (fun q => q.key = r.key) = some r :=
  (push_all _).2 r

/-- Of what is pushed, a request of the same key is made. -/
theorem exists_request {r : FilteredRequest} (mem : r ∈ pushedRequests logFilters factories) :
    ∃ q ∈ buildFilteredBlockLogRequests logFilters factories, q.key = r.key := by
  have hit : ((pushedRequests logFilters factories).find? fun q => q.key = r.key).isSome := by
    rw [List.find?_isSome]
    exact ⟨r, mem, decide_eq_true rfl⟩
  obtain ⟨q, found⟩ := Option.isSome_iff_exists.1 hit
  have same : q.key = r.key := by simpa using List.find?_some found
  refine ⟨q, mem_requests.2 ?_, same⟩
  rw [same, found]

theorem request_pushed {r : FilteredRequest}
    (mem : r ∈ buildFilteredBlockLogRequests logFilters factories) :
    r ∈ pushedRequests logFilters factories := List.mem_of_find?_eq_some (mem_requests.1 mem)

/-! ## What the requests ask for -/

/-- No address at all, or none of an empty list. -/
def Addresses.blank (address : Addresses) : Bool :=
  address = .undefined ∨ address = .many []

/-- No list names the address of the log, and an empty list stands before every request that asks
for its first topic at any address. -/
def Shadowed (pushes : List FilteredRequest) (log : Log) : Prop :=
  (∀ r ∈ pushes, log.topics[0]? = some r.topic0 → ¬ r.address.Names log.address) ∧
    ∃ r, pushes.find? (fun r => r.address.blank && log.topics[0]? = some r.topic0) = some r ∧
      r.address = .many []

theorem asksFor_iff {r : FilteredRequest} {log : Log} :
    asksFor r log = true ↔ log.topics[0]? = some r.topic0 ∧
      (r.address = .undefined ∨ r.address.Names log.address) := by
  unfold asksFor Addresses.Names
  cases r.address with
  | undefined => simp [Addresses.values, isValueMatched]
  | one a => simp [Addresses.values, isValueMatched]
  | many as => simp [Addresses.values, isValueMatched]

theorem names_of_key {q r : FilteredRequest} (same : q.key = r.key) (a : AddressText) :
    q.address.Names a ↔ r.address.Names a := by
  rw [names_iff, names_iff, (key_eq_iff.1 same).1]

theorem blank_iff {address : Addresses} : address.blank = true ↔ keyTexts address = [] := by
  simp [Addresses.blank, keyTexts_eq_nil]

theorem blank_of_key {q r : FilteredRequest} (same : q.key = r.key) :
    q.address.blank = r.address.blank := by
  rw [Bool.eq_iff_iff, blank_iff, blank_iff, (key_eq_iff.1 same).1]

/-- Among blank requests, the key is the first topic. -/
theorem blank_key_iff {q r : FilteredRequest} (blank : r.address.blank = true) :
    q.key = r.key ↔ q.address.blank = true ∧ q.topic0 = r.topic0 := by
  rw [key_eq_iff, blank_iff.1 blank, blank_iff]

theorem asked_iff {log : Log} :
    (∃ r ∈ buildFilteredBlockLogRequests logFilters factories, asksFor r log = true) ↔
      (∃ r ∈ pushedRequests logFilters factories, asksFor r log = true) ∧
        ¬ Shadowed (pushedRequests logFilters factories) log := by
  constructor
  · rintro ⟨r, mem, asks⟩
    refine ⟨⟨r, request_pushed mem, asks⟩, ?_⟩
    obtain ⟨topic, address⟩ := asksFor_iff.1 asks
    rcases address with any | names
    · rintro ⟨-, s, first, isEmpty⟩
      -- the request made is the first blank one of its topic
      have blank : r.address.blank = true := by simp [Addresses.blank, any]
      have own := mem_requests.1 mem
      have alike : (fun q : FilteredRequest => decide (q.key = r.key)) = fun q =>
          q.address.blank && decide (log.topics[0]? = some q.topic0) := by
        funext q
        rw [Bool.eq_iff_iff, Bool.and_eq_true, decide_eq_true_iff, decide_eq_true_iff,
          blank_key_iff blank, topic, Option.some.injEq, eq_comm (a := r.topic0)]
      rw [alike, first] at own
      cases own
      rw [any] at isEmpty
      cases isEmpty
    · rintro ⟨unnamed, -⟩
      exact unnamed r (request_pushed mem) topic names
  · rintro ⟨⟨r, mem, asks⟩, clear⟩
    obtain ⟨topic, address⟩ := asksFor_iff.1 asks
    obtain ⟨q, made, same⟩ := exists_request mem
    have topicQ : log.topics[0]? = some q.topic0 := by rw [topic, (key_eq_iff.1 same).2]
    by_cases names : ∃ r ∈ pushedRequests logFilters factories,
        log.topics[0]? = some r.topic0 ∧ r.address.Names log.address
    · obtain ⟨r, mem, topic, names⟩ := names
      obtain ⟨q, made, same⟩ := exists_request mem
      refine ⟨q, made, asksFor_iff.2 ⟨?_, .inr ((names_of_key same _).2 names)⟩⟩
      rw [topic, (key_eq_iff.1 same).2]
    · have any : r.address = .undefined := by
        refine address.resolve_right fun named => ?_
        exact names ⟨r, mem, topic, named⟩
      have blank : r.address.blank = true := by simp [Addresses.blank, any]
      have blankQ : q.address.blank = true := (blank_of_key same).trans blank
      refine ⟨q, made, asksFor_iff.2 ⟨topicQ, ?_⟩⟩
      simp only [Addresses.blank, Bool.decide_or, Bool.or_eq_true, decide_eq_true_eq] at blankQ
      rcases blankQ with any | empty
      · exact .inl any
      · -- the list is empty, so that it hides the log
        refine absurd ⟨fun r mem topic named => names ⟨r, mem, topic, named⟩, q, ?_, empty⟩ clear
        have own := mem_requests.1 made
        rw [← own]
        congr 1
        funext s
        have blankQ : q.address.blank = true := by simp [Addresses.blank, empty]
        rw [Bool.eq_iff_iff, Bool.and_eq_true, decide_eq_true_iff, decide_eq_true_iff,
          blank_key_iff blankQ, topicQ, Option.some.injEq, eq_comm (a := q.topic0)]

/-! ## The logs that are fetched -/

theorem Block.unique (block : Block) {a b : Log} (memA : a ∈ block.logs) (memB : b ∈ block.logs)
    (same : a.logIndex = b.logIndex) : a = b := by
  have indices : (block.logs.map ChainLog.logIndex).Nodup := by
    rw [List.nodup_iff_pairwise_ne, List.pairwise_map]
    exact block.ascending.imp Nat.ne_of_lt
  exact List.inj_on_of_nodup_map indices memA memB same

/-- The map holds each log under its own key. -/
theorem setLogs_get {block : Block} {logs : List Log} (inBlock : ∀ log ∈ logs, log ∈ block.logs) :
    let byKey := logs.foldl (setLog block.hash) OrdMap.empty
    (∀ e ∈ byKey.entries, e.2 ∈ logs ∧ e.1 = (block.hash, e.2.logIndex)) ∧
      ∀ log ∈ logs, byKey.get? (block.hash, log.logIndex) = some log := by
  intro byKey
  constructor
  · have held : ∀ k v, byKey.get? k = some v → v ∈ logs ∧ k = (block.hash, v.logIndex) := by
      refine Folds.foldl_keeps
        (fun byKey : OrdMap (Hash × Nat) Log =>
          ∀ k v, byKey.get? k = some v → v ∈ logs ∧ k = (block.hash, v.logIndex))
        ?_ ?_
      · intro byKey log memLog held k v found
        rw [setLog, OrdMap.get?_set] at found
        by_cases here : k = (block.hash, log.logIndex)
        · rw [if_pos here] at found
          cases found
          exact ⟨memLog, here⟩
        · rw [if_neg here] at found
          exact held k v found
      · intro k v found
        cases found
    exact fun e mem => held e.1 e.2 (OrdMap.get?_of_mem _ mem)
  · have held : ∀ log ∈ logs, log ∈ logs → byKey.get? (block.hash, log.logIndex) = some log := by
      refine Folds.foldl_does (fun _ => True)
        (fun log (byKey : OrdMap (Hash × Nat) Log) =>
          log ∈ logs → byKey.get? (block.hash, log.logIndex) = some log)
        (fun _ _ _ _ => trivial) ?_ ?_ trivial
      · intro byKey a _ _ _
        exact OrdMap.get?_set_self _ _ _
      · intro byKey a b memB held memA
        rw [setLog, OrdMap.get?_set]
        by_cases here : (block.hash, a.logIndex) = (block.hash, b.logIndex)
        · rw [if_pos here, block.unique (inBlock a memA) (inBlock b memB) (Prod.mk.inj here).2]
        · rw [if_neg here]
          exact held memA
    exact fun log mem => held log mem mem

/-- The values of the map, sorted, are the collected logs in the order of the block. -/
theorem sorted_logs {block : Block} {logs : List Log} (inBlock : ∀ log ∈ logs, log ∈ block.logs)
    (asked : Log → Bool) (exact_ : ∀ log ∈ block.logs, log ∈ logs ↔ asked log = true) :
    ((logs.foldl (setLog block.hash) OrdMap.empty).entries.map Prod.snd).mergeSort
      (fun a b => a.logIndex ≤ b.logIndex) = block.logs.filter asked := by
  obtain ⟨keyed, held⟩ := setLogs_get inBlock
  generalize logs.foldl (setLog block.hash) OrdMap.empty = byKey at keyed held
  have keys : byKey.entries.map Prod.fst =
      (byKey.entries.map Prod.snd).map fun log => (block.hash, log.logIndex) := by
    rw [List.map_map]
    exact List.map_congr_left fun e mem => (keyed e mem).2
  have nodup : (byKey.entries.map Prod.snd).Nodup := (keys ▸ byKey.nodup).of_map _
  have strict : (block.logs.filter asked).Pairwise fun a b => a.logIndex < b.logIndex :=
    block.ascending.sublist List.filter_sublist
  have distinct : (block.logs.filter asked).Nodup := by
    refine strict.imp fun lt eq => ?_
    rw [eq] at lt
    exact Nat.lt_irrefl _ lt
  have perm : (byKey.entries.map Prod.snd).Perm (block.logs.filter asked) := by
    rw [List.perm_ext_iff_of_nodup nodup distinct]
    intro log
    rw [List.mem_map, List.mem_filter]
    constructor
    · rintro ⟨e, mem, rfl⟩
      have memLog := (keyed e mem).1
      exact ⟨inBlock _ memLog, (exact_ _ (inBlock _ memLog)).1 memLog⟩
    · rintro ⟨memBlock, isAsked⟩
      have found := held log ((exact_ log memBlock).2 isAsked)
      exact ⟨_, byKey.mem_of_get? found, rfl⟩
  have sorted : ((byKey.entries.map Prod.snd).mergeSort fun a b => a.logIndex ≤ b.logIndex).Pairwise
      fun a b => decide (a.logIndex ≤ b.logIndex) = true := List.pairwise_mergeSort
    (fun a b c ab bc => by simp only [decide_eq_true_eq] at ab bc ⊢; omega)
    (fun a b => by simp only [Bool.or_eq_true, decide_eq_true_eq]; omega)
    (byKey.entries.map Prod.snd)
  refine List.Perm.eq_of_pairwise ?_ sorted (strict.imp fun lt => ?_)
    ((List.mergeSort_perm _ _).trans perm)
  · intro a b memA memB le ge
    rw [List.mem_mergeSort] at memA
    have inA := List.mem_filter.1 (perm.mem_iff.1 memA)
    have inB := List.mem_filter.1 memB
    simp only [decide_eq_true_eq] at le ge
    exact block.unique inA.1 inB.1 (by omega)
  · exact decide_eq_true (by omega)

/-- The logs of the block that a request asks for, each once and in log-index order. -/
theorem eth_getFilteredBlockLogs_eq {block : Block} (node : Node block) :
    eth_getFilteredBlockLogs node.eth_getLogs block.hash logFilters factories =
      block.logs.filter fun log =>
        (buildFilteredBlockLogRequests logFilters factories).any fun r => asksFor r log := by
  unfold eth_getFilteredBlockLogs
  generalize buildFilteredBlockLogRequests logFilters factories = requests
  by_cases none_ : requests.isEmpty = true
  · rw [if_pos none_, List.isEmpty_iff.1 none_]
    simp
  · rw [if_neg none_]
    simp only [← List.foldl_flatten]
    have answered : ∀ log, log ∈ (requests.map node.eth_getLogs).flatten ↔
        log ∈ block.logs ∧ (requests.any fun r => asksFor r log) = true := by
      intro log
      rw [List.mem_flatten, List.any_eq_true]
      constructor
      · rintro ⟨answer, mem, memLog⟩
        obtain ⟨r, memR, rfl⟩ := List.mem_map.1 mem
        obtain ⟨inBlock, asks⟩ := List.mem_filter.1 ((node.exact r).mem_iff.1 memLog)
        exact ⟨inBlock, r, memR, asks⟩
      · rintro ⟨inBlock, r, memR, asks⟩
        exact ⟨_, List.mem_map_of_mem memR,
          (node.exact r).mem_iff.2 (List.mem_filter.2 ⟨inBlock, asks⟩)⟩
    exact sorted_logs (fun log mem => ((answered log).1 mem).1) _ fun log inBlock =>
      ⟨fun mem => ((answered log).1 mem).2, fun asks => (answered log).2 ⟨inBlock, asks⟩⟩

/-! ## What is built of the logs -/

structure Indexed (F : Type) where
  logFilters : List (EventFilter F)
  factories : List F
  factoryOf : F → EventFactory
  /-- `none` where it throws -/
  getChildAddress : F → Log → Option AddressText

variable [DecidableEq F]

/-- The child that a log creates. -/
def Indexed.childOf (ix : Indexed F) (bn : Nat) (factory : F) (log : Log) : Option AddressText :=
  if isLogFactoryMatched (ix.factoryOf factory).toFactory log bn then ix.getChildAddress factory log
  else none

def Indexed.discovered (ix : Indexed F) (bn : Nat) (logs : List Log) :
    List (F × List AddressText) :=
  ix.factories.map fun factory => (factory, (logs.filterMap (ix.childOf bn factory)).eraseDups)

/-- A child that is known keeps its creation block. -/
def addChild (bn : Nat) (known : Children F AddressText) (found : F × AddressText) :
    Children F AddressText :=
  if ((known found.1).get? found.2).isSome then known
  else fun f => if f = found.1 then (known f).set found.2 bn else known f

def Indexed.childAddresses (ix : Indexed F) (known : Children F AddressText) (bn : Nat)
    (logs : List Log) : Children F AddressText :=
  ((ix.discovered bn logs).flatMap fun found => found.2.map fun child => (found.1, child)).foldl
    (addChild bn) known

/-- The logs of the events of a block, its own children among the known ones. -/
def Indexed.matchedEvents (ix : Indexed F) (known : Children F AddressText) (bn : Nat)
    (logs : List Log) : List Log :=
  logs.filter fun log => logMatched (ix.logFilters.map EventFilter.toLogFilter)
    (ix.childAddresses known bn logs) log bn

/-- A filter or a factory matches the log. -/
def Indexed.Wants (ix : Indexed F) (known : Children F AddressText) (block : Block) (log : Log) :
    Prop :=
  logMatched (ix.logFilters.map EventFilter.toLogFilter)
      (ix.childAddresses known block.number block.logs) log block.number = true ∨
    ∃ factory ∈ ix.factories,
      isLogFactoryMatched (ix.factoryOf factory).toFactory log block.number = true

def Indexed.fallback (ix : Indexed F) {block : Block} (node : Node block) : List Log :=
  eth_getFilteredBlockLogs node.eth_getLogs block.hash ix.logFilters
    (ix.factories.map ix.factoryOf)

/-- The logs serve as well as the unfiltered ones of the block. -/
structure Indexed.SameAsUnfiltered (ix : Indexed F) (known : Children F AddressText) (block : Block)
    (logs : List Log) : Prop where
  ofBlock : ∀ log ∈ logs, log ∈ block.logs
  /-- each once, in log-index order -/
  ascending : logs.Pairwise fun a b => a.logIndex < b.logIndex
  complete : ∀ log ∈ block.logs, ix.Wants known block log → log ∈ logs
  discovered : ix.discovered block.number logs = ix.discovered block.number block.logs
  matchedEvents : ix.matchedEvents known block.number logs =
    ix.matchedEvents known block.number block.logs

/-! ## Matched logs are asked for -/

theorem topic_of_matched {t : TopicText} {topic : Option TopicText}
    (matched : isValueMatched (some [t]) topic = true) : topic = some t := by
  cases topic with
  | none => cases matched
  | some u =>
      rw [isValueMatched_some, List.mem_singleton] at matched
      rw [matched]

omit [DecidableEq F] in
theorem EventFilter.request_asks {f : EventFilter F} {log : Log} {bn : Nat}
    (matched : isLogFilterMatched f.toLogFilter log bn = true) :
    asksFor f.request log = true := by
  unfold isLogFilterMatched at matched
  simp only [Bool.and_eq_true] at matched
  obtain ⟨⟨⟨⟨⟨-, zero⟩, -⟩, -⟩, -⟩, address⟩ := matched
  refine asksFor_iff.2 ⟨topic_of_matched zero, ?_⟩
  simp only [EventFilter.toLogFilter, EventFilter.request] at address ⊢
  cases kind : f.address with
  | factory id => exact .inl rfl
  | plain value =>
      rw [kind] at address
      cases value with
      | undefined => exact .inl rfl
      | one a => exact .inr ⟨[a], rfl, isValueMatched_some.1 address⟩
      | many as => exact .inr ⟨as, rfl, isValueMatched_some.1 address⟩

theorem EventFactory.request_asks {f : EventFactory} {log : Log} {bn : Nat}
    (matched : isLogFactoryMatched f.toFactory log bn = true) :
    asksFor f.request log = true := by
  unfold isLogFactoryMatched at matched
  simp only [Bool.and_eq_true, decide_eq_true_eq] at matched
  obtain ⟨⟨-, address⟩, zero⟩ := matched
  refine asksFor_iff.2 ⟨zero, ?_⟩
  simp only [EventFactory.toFactory, EventFactory.request] at address ⊢
  cases kind : f.address with
  | undefined => exact .inl rfl
  | one a =>
      rw [kind] at address
      exact .inr ⟨[a], rfl, isValueMatched_some.1 address⟩
  | many as =>
      rw [kind] at address
      exact .inr ⟨as, rfl, isValueMatched_some.1 address⟩

theorem Indexed.wanted_pushed {ix : Indexed F} {known : Children F AddressText}
    {block : Block} {log : Log} (wanted : ix.Wants known block log) :
    ∃ r ∈ pushedRequests ix.logFilters (ix.factories.map ix.factoryOf),
      asksFor r log = true := by
  rcases wanted with matched | ⟨factory, mem, matched⟩
  · obtain ⟨f', mem', matched, -⟩ := logMatched_iff.1 matched
    obtain ⟨f, mem, rfl⟩ := List.mem_map.1 mem'
    exact ⟨f.request, List.mem_append_left _ (List.mem_map_of_mem mem), f.request_asks matched⟩
  · exact ⟨_, List.mem_append_right _ (List.mem_map_of_mem (List.mem_map_of_mem mem)),
      EventFactory.request_asks matched⟩

/-! ## What is built of a selection that keeps the wanted logs -/

/-- Dropping items without an image changes no image. -/
theorem filterMap_filter_of_kept {α β : Type} (image : α → Option β) (keep : α → Bool)
    {items : List α} (kept : ∀ a ∈ items, (image a).isSome = true → keep a = true) :
    (items.filter keep).filterMap image = items.filterMap image := by
  rw [List.filterMap_filter]
  refine List.filterMap_congr fun a mem => ?_
  by_cases keeps : keep a = true
  · rw [if_pos keeps]
  · rw [if_neg keeps]
    cases at_ : image a with
    | none => rfl
    | some b => exact absurd (kept a mem (by rw [at_]; rfl)) keeps

theorem Indexed.childOf_wanted {ix : Indexed F} {known : Children F AddressText} {block : Block}
    {factory : F} (mem : factory ∈ ix.factories) {log : Log}
    (some_ : (ix.childOf block.number factory log).isSome = true) : ix.Wants known block log := by
  unfold childOf at some_
  by_cases matched :
      isLogFactoryMatched (ix.factoryOf factory).toFactory log block.number = true
  · exact .inr ⟨factory, mem, matched⟩
  · rw [if_neg matched] at some_
    cases some_

theorem Indexed.sameAsUnfiltered_filter {ix : Indexed F} {known : Children F AddressText}
    {block : Block} {keep : Log → Bool}
    (kept : ∀ log ∈ block.logs, ix.Wants known block log → keep log = true) :
    ix.SameAsUnfiltered known block (block.logs.filter keep) := by
  have discovered : ix.discovered block.number (block.logs.filter keep) =
      ix.discovered block.number block.logs := by
    refine List.map_congr_left fun factory mem => ?_
    rw [filterMap_filter_of_kept _ _ fun log inBlock some_ =>
      kept log inBlock (childOf_wanted mem some_)]
  refine ⟨fun log mem => List.mem_of_mem_filter mem, block.ascending.sublist List.filter_sublist,
    fun log mem wanted => List.mem_filter.2 ⟨mem, kept log mem wanted⟩, discovered, ?_⟩
  -- the children are the same, so the same logs match
  unfold matchedEvents childAddresses
  rw [discovered, List.filter_filter]
  refine List.filter_congr fun log mem => ?_
  rw [Bool.and_eq_left_iff_imp]
  exact fun matched => kept log mem (.inl matched)

/-- The filtered logs of a block serve as well as the unfiltered ones exactly if no wanted log is
shadowed. -/
theorem filtered_logs_exact (ix : Indexed F) (known : Children F AddressText) (block : Block)
    (node : Node block) :
    ix.SameAsUnfiltered known block (ix.fallback node) ↔
      ∀ log ∈ block.logs, ix.Wants known block log →
        ¬ Shadowed (pushedRequests ix.logFilters (ix.factories.map ix.factoryOf)) log := by
  unfold Indexed.fallback
  rw [eth_getFilteredBlockLogs_eq node]
  constructor
  · intro same log mem wanted
    obtain ⟨-, asked⟩ := List.mem_filter.1 (same.complete log mem wanted)
    exact (asked_iff.1 (List.any_eq_true.1 asked)).2
  · intro clear
    refine Indexed.sameAsUnfiltered_filter fun log mem wanted => ?_
    exact List.any_eq_true.2 (asked_iff.2 ⟨ix.wanted_pushed wanted, clear log mem wanted⟩)

/-- A node that answers in the order of the block. -/
def orderedNode (block : Block) : Node block where
  eth_getLogs := fun r => block.logs.filter (asksFor r)
  exact := fun _ => .refl _

def transferTopic : TopicText :=
  ⟨"0xddf252ad1be2c89b69c2b068fc378daa952ba7f163c4a11628f55a4df523b3ef", by decide⟩

def transferLog : Log where
  logIndex := 3
  address := ⟨"0x00000000000000000000000000000000000000aa", by decide⟩
  topics := [transferTopic]
  data := "0x"

def transferBlock : Block where
  hash := "0x01"
  number := 7
  logs := [transferLog]
  ascending := List.pairwise_singleton _ _

def transferFilter (address : Addresses) : EventFilter String where
  address := .plain address
  topic0 := transferTopic
  topic1 := none
  topic2 := none
  topic3 := none
  fromBlock := none
  toBlock := none

/-- A contract without addresses yet, and the same event of any contract. -/
def transferIndexed : Indexed String where
  logFilters := [transferFilter (.many []), transferFilter .undefined]
  factories := []
  factoryOf := fun _ => ⟨.undefined, transferTopic, none, none⟩
  getChildAddress := fun _ _ => none

/-- The request of the second filter has the key of the first one, and is never made. -/
theorem empty_list_hides_wildcard :
    (transferIndexed.fallback (orderedNode transferBlock) = [] ∧
      transferIndexed.matchedEvents (fun _ => .empty) 7 transferBlock.logs = [transferLog]) ∧
    ¬ transferIndexed.SameAsUnfiltered (fun _ => .empty) transferBlock
      (transferIndexed.fallback (orderedNode transferBlock)) := by
  have lost : transferIndexed.fallback (orderedNode transferBlock) = [] ∧
      transferIndexed.matchedEvents (fun _ => .empty) 7 transferBlock.logs = [transferLog] := by
    decide +kernel
  refine ⟨lost, fun same => ?_⟩
  have events := same.matchedEvents
  rw [lost.1] at events
  exact absurd (events.trans lost.2) (by decide)

omit [DecidableEq F] in
/-- Where the unfiltered logs are too large, a block is built of the filtered ones. -/
theorem fetchLogs_fallback {validateLogsAndBlock : List Log → Except RpcError Unit}
    {error : RpcError} (tooLarge : isResponseBodyTooLargeError error = true) {ix : Indexed F}
    {block : Block} (node : Node block)
    (valid : ∀ logs ≠ [], (∀ log ∈ logs, log ∈ block.logs) → validateLogsAndBlock logs = .ok ()) :
    fetchLogs validateLogsAndBlock (.error error) (ix.fallback node) = .ok (ix.fallback node) := by
  have ofBlock : ∀ log ∈ ix.fallback node, log ∈ block.logs := by
    unfold Indexed.fallback
    rw [eth_getFilteredBlockLogs_eq node]
    exact fun log mem => List.mem_of_mem_filter mem
  generalize ix.fallback node = logs at ofBlock
  simp only [fetchLogs, tooLarge, if_true]
  by_cases none_ : logs.isEmpty = true
  · rw [if_pos none_]
    rfl
  · rw [if_neg none_, valid logs (fun eq => none_ (List.isEmpty_iff.2 eq)) ofBlock]
    rfl

end PortalPonder.Realtime.BlockLogs
