import PortalPonder.Client.Bodies
import PortalPonder.FetchSpec

/-!
# The bodies of shards

The queries a source is split into: what their envelopes are, that each body stays within the size
limit with everything that is added to it, and when the split throws.
-/

namespace PortalPonder

open Client (PortalQuery Fields MAX_SAFE_BLOCK stripFields)
open JSON (Value)

variable {A T : Type}

/-! ## Envelopes -/

/-- The members of an address side or of topics; a missing list is no member. -/
def listMember {V : Type} (text : V → List Nat) (key : String) (values : Option (List V)) :
    List (List Nat × Value) :=
  (values.map fun vs => (JSON.units key, .arr (vs.map fun v => .str (text v)))).toList

def TxRequest.toJson (hex : A → List Nat) (req : TxRequest A) : Value :=
  .obj (listMember hex "from" req.from ++ listMember hex "to" req.to)

def LogRequest.toJson (hex : A → List Nat) (topic : T → List Nat) (req : LogRequest A T) : Value :=
  .obj (listMember hex "address" req.address ++ listMember topic "topic0" req.topic0 ++
    listMember topic "topic1" req.topic1 ++ listMember topic "topic2" req.topic2 ++
    listMember topic "topic3" req.topic3 ++ [(JSON.units "transaction", .bool req.transaction)])

def evmType : List Nat × Value := (JSON.units "type", .str (JSON.units "evm"))

def logEnvelope (hex : A → List Nat) (topic : T → List Nat) (fields : Fields)
    (logs : List (LogRequest A T)) : PortalQuery where
  head := [evmType]
  fields := fields
  rest := [(JSON.units "logs", .arr (logs.map (LogRequest.toJson hex topic)))]

def txEnvelope (hex : A → List Nat) (fields : Fields) (transactions : List (TxRequest A)) :
    PortalQuery where
  head := [evmType]
  fields := fields
  rest := [(JSON.units "transactions", .arr (transactions.map (TxRequest.toJson hex)))]

/-- The length of the serialized envelope. -/
def envelopeSize {R : Type} (envelope : List R → PortalQuery) (requests : List R) : Nat :=
  (envelope requests).text.length

/-! ## What a split guarantees -/

/-- A split of `input`, whose elements are `chunked` where a request is cut. -/
structure Sharded {R : Type} (envelope : List R → PortalQuery) (input chunked : List R)
    (result : Except InvariantViolation (List (List R))) : Prop where
  none : input = [] → result = .ok []
  /-- one shard when everything fits -/
  whole : input ≠ [] → envelopeSize envelope input < SHARD_BODY_BUDGET → result = .ok [input]
  /-- else the shards are the requests, in order -/
  partition : ∀ shards, result = .ok shards → SHARD_BODY_BUDGET ≤ envelopeSize envelope input →
    shards.flatten = chunked
  small : ∀ shards, result = .ok shards → ∀ shard ∈ shards,
    envelopeSize envelope shard < SHARD_BODY_BUDGET
  /-- the body of a shard passes the size guard of a request, wherever the stream stands -/
  guarded : ∀ shards, result = .ok shards → ∀ shard ∈ shards, ∀ dropped fromBlock toBlock,
    fromBlock ≤ MAX_SAFE_BLOCK → toBlock ≤ MAX_SAFE_BLOCK →
    ¬ ((envelope shard).body ⟨stripFields (envelope shard).fields dropped, fromBlock,
      toBlock⟩).length > Client.MAX_RAW_QUERY_SIZE
  throws : (∃ v, result = .error v) ↔ SHARD_BODY_BUDGET ≤ envelopeSize envelope input ∧
    ∃ e ∈ chunked, SHARD_BODY_BUDGET ≤ envelopeSize envelope [e]

section Split

variable {R : Type} {checks : CheckMode} {envelope : List R → PortalQuery}

/-- The margin of the budget is larger than what a request adds. -/
theorem guarded_of_small {shard : List R} (small : envelopeSize envelope shard < SHARD_BODY_BUDGET)
    (dropped : List Client.FieldKey) {fromBlock toBlock : Nat} (low : fromBlock ≤ MAX_SAFE_BLOCK)
    (high : toBlock ≤ MAX_SAFE_BLOCK) :
    ¬ ((envelope shard).body ⟨stripFields (envelope shard).fields dropped, fromBlock,
      toBlock⟩).length > Client.MAX_RAW_QUERY_SIZE := by
  have margin : SHARD_BODY_BUDGET + Client.RANGE_LENGTH ≤ Client.MAX_RAW_QUERY_SIZE := by decide
  have room : (envelope shard).text.length + Client.RANGE_LENGTH ≤ Client.MAX_RAW_QUERY_SIZE := by
    have under : (envelope shard).text.length < SHARD_BODY_BUDGET := small
    omega
  exact Nat.not_lt.2 (Client.body_within _ dropped low high room)

/-- The greedy pass, and the two cases before it. -/
def shardRequests (accepts : R → Except InvariantViolation Unit)
    (envelope : List R → PortalQuery) (input chunked : List R) :
    Except InvariantViolation (List (List R)) :=
  if input.isEmpty then .ok []
  else if envelopeSize envelope input < SHARD_BODY_BUDGET then .ok [input]
  else
    Packing.pack (fun shard => envelopeSize envelope shard < SHARD_BODY_BUDGET) accepts [] chunked

theorem shardRequests_sharded (on : checks ≠ .off) (id msg : String) (input chunked : List R)
    (pieces : input = [] → chunked = []) :
    Sharded envelope input chunked
      (shardRequests (fun e => invariant checks id (envelopeSize envelope [e] < SHARD_BODY_BUDGET)
        msg) envelope input chunked) := by
  have accepted : ∀ e u, invariant checks id (envelopeSize envelope [e] < SHARD_BODY_BUDGET) msg =
      .ok u → decide (envelopeSize envelope [e] < SHARD_BODY_BUDGET) = true :=
    fun e _ passed => holds_of_invariant on passed
  have rejected : ∀ e, (∃ v, invariant checks id
      (envelopeSize envelope [e] < SHARD_BODY_BUDGET) msg = .error v) ↔
      SHARD_BODY_BUDGET ≤ envelopeSize envelope [e] := by
    intro e
    unfold invariant
    rw [if_neg on]
    by_cases fit : envelopeSize envelope [e] < SHARD_BODY_BUDGET
    · simp [fit, Nat.not_le.2 fit]
    · simp [fit, Nat.not_lt.1 fit]
  have small : ∀ shards, shardRequests (fun e => invariant checks id
      (envelopeSize envelope [e] < SHARD_BODY_BUDGET) msg) envelope input chunked = .ok shards →
      ∀ shard ∈ shards, envelopeSize envelope shard < SHARD_BODY_BUDGET := by
    intro shards ok
    unfold shardRequests at ok
    split at ok
    · cases ok
      intro shard mem
      cases mem
    · split at ok
      · next fit =>
          cases ok
          intro shard mem
          rw [List.mem_singleton.1 mem]
          exact fit
      · intro shard mem
        exact of_decide_eq_true (Packing.pack_fits accepted (.inl rfl) ok shard mem)
  refine ⟨?_, ?_, ?_, small, ?_, ?_⟩
  · rintro rfl
    rfl
  · intro some_ fit
    rw [shardRequests, if_neg (by simpa using some_), if_pos fit]
  · intro shards ok exceeds
    unfold shardRequests at ok
    split at ok
    · next empty =>
        cases ok
        rw [pieces (List.isEmpty_iff.1 empty)]
        rfl
    · rw [if_neg (Nat.not_lt.2 exceeds)] at ok
      exact Packing.pack_flatten ok
  · intro shards ok shard mem dropped fromBlock toBlock low high
    exact guarded_of_small (small shards ok shard mem) dropped low high
  · unfold shardRequests
    split
    · next empty => simp [pieces (List.isEmpty_iff.1 empty)]
    · split
      · next fit => simp [Nat.not_le.2 fit]
      · next exceeds =>
          rw [Packing.pack_error_iff]
          simp only [rejected, Nat.not_lt.1 exceeds, true_and]

end Split

section Shards

variable {checks : CheckMode}

theorem shardLogs_sharded (on : checks ≠ .off)
    (envelope : List (LogRequest A T) → PortalQuery) (logs : List (LogRequest A T)) :
    Sharded envelope logs logs (shardLogs checks (envelopeSize envelope) logs) := by
  have same : shardLogs checks (envelopeSize envelope) logs =
      shardRequests (fun e => invariant checks "#194"
        (envelopeSize envelope [e] < SHARD_BODY_BUDGET)
        "a single merged log-request element exceeds SHARD_BODY_BUDGET") envelope logs logs := by
    unfold shardLogs shardRequests
    rw [packLogs_eq_pack]
  rw [same]
  exact shardRequests_sharded on _ _ logs logs id

theorem shardTxRequests_sharded (on : checks ≠ .off)
    (envelope : List (TxRequest A) → PortalQuery) (transactions : List (TxRequest A)) :
    Sharded envelope transactions
      (transactions.flatMap (chunkTxRequest (envelopeSize envelope)))
      (shardTxRequests checks (envelopeSize envelope) transactions) := by
  refine shardRequests_sharded on "#196"
    "a single tx-filter request exceeds SHARD_BODY_BUDGET after chunking" transactions _ ?_
  rintro rfl
  rfl

end Shards

/-! ## The chunks of a request -/

section Chunks

theorem batches_flatten (w k : Nat) (l : List A) :
    ((List.range k).map fun i => (l.drop (i * w)).take w).flatten = l.take (k * w) := by
  induction k with
  | zero => simp
  | succ k ih =>
      rw [List.range_succ, List.map_append, List.flatten_append, ih, Nat.succ_mul,
        List.take_add]
      simp

theorem addressBatches_flatten (addresses : List A) :
    (addressBatches addresses).flatten = addresses := by
  unfold addressBatches
  rw [batches_flatten, List.take_of_length_le]
  have pos : PORTAL_MAX_ADDRESSES = 1000 := rfl
  rw [pos]
  omega

variable [DecidableEq A]

/-- An address that stands once is in one batch. -/
theorem countP_batches {a : A} (batches : List (List A)) (once : batches.flatten.Nodup) :
    (batches.countP fun batch => a ∈ batch) = if a ∈ batches.flatten then 1 else 0 := by
  induction batches with
  | nil => rfl
  | cons batch rest ih =>
      rw [List.flatten_cons, List.nodup_append] at once
      obtain ⟨-, restOnce, apart⟩ := once
      rw [List.countP_cons, ih restOnce, List.flatten_cons]
      by_cases here : a ∈ batch
      · have later : a ∉ rest.flatten := fun mem => apart a here a mem rfl
        simp only [here, later, decide_true, if_true, if_false, List.mem_append, true_or]
      · simp only [here, decide_false, Bool.false_eq_true, if_false, List.mem_append, false_or,
          Nat.add_zero]

/-- The side along which a request is cut. -/
def cutSide (req : TxRequest A) : Option (List A) :=
  if (req.to.map List.length).getD 0 ≤ (req.from.map List.length).getD 0 then req.from else req.to

theorem countP_matched (addresses : List A) (v : Option A) (once : addresses.Nodup) :
    ((addressBatches addresses).countP fun batch => isValueMatched (some batch) v) =
      if isValueMatched (some addresses) v = true then 1 else 0 := by
  cases v with
  | none => simp [isValueMatched]
  | some a =>
      have batches := countP_batches (a := a) (addressBatches addresses)
        (by rw [addressBatches_flatten]; exact once)
      rw [addressBatches_flatten] at batches
      simpa [isValueMatched] using batches

/-- Where the side that is cut lists no address twice, a transaction that a request matches is
matched by one of its chunks, and one only. -/
theorem chunkTxRequest_once (bodySize : List (TxRequest A) → Nat) (req : TxRequest A)
    (once : ∀ side ∈ cutSide req, side.Nodup) (sender recipient : Option A) :
    ((chunkTxRequest bodySize req).countP fun r => txRequestMatched r sender recipient) =
      if txRequestMatched req sender recipient = true then 1 else 0 := by
  have whole : ([req].countP fun r => txRequestMatched r sender recipient) =
      if txRequestMatched req sender recipient = true then 1 else 0 := by
    rw [List.countP_singleton]
  unfold chunkTxRequest
  split
  · exact whole
  · dsimp only
    unfold cutSide at once
    by_cases longer : (req.to.map List.length).getD 0 ≤ (req.from.map List.length).getD 0
    · rw [if_pos longer] at once ⊢
      cases side : req.from.filter fun side => !side.isEmpty with
      | none => exact whole
      | some addresses =>
          have isFrom : req.from = some addresses := (Option.filter_eq_some_iff.1 side).1
          have batches := countP_matched addresses sender (once addresses isFrom)
          rw [List.countP_map]
          unfold txRequestMatched
          rw [isFrom]
          cases other : isValueMatched req.to recipient with
          | true => simpa [Function.comp_def, other] using batches
          | false => simp [Function.comp_def, other]
    · rw [if_neg longer] at once ⊢
      cases side : req.to.filter fun side => !side.isEmpty with
      | none => exact whole
      | some addresses =>
          have isTo : req.to = some addresses := (Option.filter_eq_some_iff.1 side).1
          have batches := countP_matched addresses recipient (once addresses isTo)
          rw [List.countP_map]
          unfold txRequestMatched
          rw [isTo]
          cases other : isValueMatched req.from sender with
          | true => simpa [Function.comp_def, other] using batches
          | false => simp [Function.comp_def, other]

/-- Shards partition the requests within the size limit, and the split throws when a piece does
not fit alone. A transaction that a request matches is matched by one of its chunks, and by one only
where the side that is cut lists no address twice. -/
theorem shard_bodies {T : Type} {checks : CheckMode} (on : checks ≠ .off) :
    (∀ (envelope : List (LogRequest A T) → PortalQuery) (logs : List (LogRequest A T)),
      Sharded envelope logs logs (shardLogs checks (envelopeSize envelope) logs)) ∧
    (∀ (envelope : List (TxRequest A) → PortalQuery) (transactions : List (TxRequest A)),
      Sharded envelope transactions
        (transactions.flatMap (chunkTxRequest (envelopeSize envelope)))
        (shardTxRequests checks (envelopeSize envelope) transactions)) ∧
    ∀ (bodySize : List (TxRequest A) → Nat) (req : TxRequest A) (sender recipient : Option A),
      ((∃ r ∈ chunkTxRequest bodySize req, txRequestMatched r sender recipient = true) ↔
        txRequestMatched req sender recipient = true) ∧
      ((∀ side ∈ cutSide req, side.Nodup) →
        ((chunkTxRequest bodySize req).countP fun r => txRequestMatched r sender recipient) =
          if txRequestMatched req sender recipient = true then 1 else 0) :=
  ⟨shardLogs_sharded on, shardTxRequests_sharded on, fun bodySize req sender recipient =>
    ⟨chunkTxRequest_matched bodySize req sender recipient,
      fun once => chunkTxRequest_once bodySize req once sender recipient⟩⟩

end Chunks

/-! ## Instances -/

/-- An address of the examples. -/
def sampleHex (n : Nat) : List Nat :=
  JSON.units "0x00000000000000000000000000000000000000" ++ [48 + n / 10 % 10, 48 + n % 10]

def sampleFields : Fields := [("block", ["number", "hash"]), ("transaction", ["from", "to"])]

/-- Two small requests fit one body. -/
theorem shard_bodies_sample :
    (∃ shards, shardTxRequests .on (envelopeSize (txEnvelope sampleHex sampleFields))
        [⟨some [1, 2], none⟩, ⟨none, some [3]⟩] = .ok shards ∧
      shards = [[⟨some [1, 2], none⟩, ⟨none, some [3]⟩]]) ∧
    ((chunkTxRequest (fun _ => 300000) ⟨some [1, 2], some [3]⟩).countP fun r =>
      txRequestMatched r (some 2) (some 3)) = 1 := by
  have sound := @shard_bodies Nat _ Nat .on (by decide)
  refine ⟨⟨_, (sound.2.1 (txEnvelope sampleHex sampleFields) _).whole (by simp) (by decide +kernel),
    rfl⟩, ?_⟩
  exact ((sound.2.2 (fun _ => 300000) ⟨some [1, 2], some [3]⟩ (some 2) (some 3)).2
    (by decide)).trans (by decide)

/-- One sender, many times. -/
def sendersRequest (count : Nat) : TxRequest Nat := ⟨some (List.replicate count 7), none⟩

theorem sendersRequest_json (count : Nat) : (sendersRequest count).toJson sampleHex =
    .obj [(JSON.units "from", .arr (List.replicate count (.str (sampleHex 7))))] := by
  simp [sendersRequest, TxRequest.toJson, listMember]

theorem sendersRequest_large :
    SHARD_BODY_BUDGET ≤ envelopeSize (txEnvelope sampleHex sampleFields) [sendersRequest 6000] := by
  have address : (JSON.stringify (.str (sampleHex 7))).length = 44 := by decide +kernel
  have list : (JSON.stringify (.arr (List.replicate 6000 (.str (sampleHex 7))))).length =
      6000 * 45 + 1 := by
    rw [JSON.stringify, JSON.bracketed_length, JSON.itemTexts_replicate, address]
    rw [List.replicate_succ, JSON.itemTexts]
    exact List.cons_ne_nil _ _
  have request := JSON.member_length_le (List.mem_singleton.2 (Eq.refl
    (JSON.units "from", JSON.Value.arr (List.replicate 6000 (.str (sampleHex 7))))))
  have requests := JSON.item_length_le
    (List.mem_singleton.2 (Eq.refl ((sendersRequest 6000).toJson sampleHex)))
  have query : (JSON.stringify (.arr [(sendersRequest 6000).toJson sampleHex])).length ≤
      envelopeSize (txEnvelope sampleHex sampleFields) [sendersRequest 6000] :=
    have member : (JSON.units "transactions",
        JSON.Value.arr [(sendersRequest 6000).toJson sampleHex]) ∈
        (txEnvelope sampleHex sampleFields [sendersRequest 6000]).members := by
      simp [PortalQuery.members, txEnvelope]
    JSON.member_length_le member
  rw [← sendersRequest_json] at request
  have budget : SHARD_BODY_BUDGET = 253952 := by decide
  omega

/-- A request of senders only is cut into the batches of its senders. -/
theorem chunk_senders {bodySize : List (TxRequest Nat) → Nat} {senders : List Nat}
    (some_ : senders ≠ []) (large : SHARD_BODY_BUDGET ≤ bodySize [⟨some senders, none⟩]) :
    chunkTxRequest bodySize ⟨some senders, none⟩ =
      (addressBatches senders).map fun batch => ⟨some batch, none⟩ := by
  cases senders with
  | nil => exact absurd rfl some_
  | cons a rest =>
      unfold chunkTxRequest
      rw [if_neg (Nat.not_lt.2 large)]
      rfl

/-- Each chunk has the sender. -/
theorem sendersRequest_chunks {bodySize : List (TxRequest Nat) → Nat}
    (large : SHARD_BODY_BUDGET ≤ bodySize [sendersRequest 6000]) :
    ((chunkTxRequest bodySize (sendersRequest 6000)).countP fun r =>
      txRequestMatched r (some 7) none) = 6 := by
  have chunks : chunkTxRequest bodySize (sendersRequest 6000) =
      (addressBatches (List.replicate 6000 7)).map fun batch => ⟨some batch, none⟩ :=
    chunk_senders (mt (List.replicate_eq_nil_iff 7).1 (by decide)) large
  have each : ∀ batch ∈ addressBatches (List.replicate 6000 7), 7 ∈ batch := by
    intro batch isBatch
    obtain ⟨i, inRange, rfl⟩ := List.mem_map.1 isBatch
    have small : i < (List.length (List.replicate 6000 7) + (PORTAL_MAX_ADDRESSES - 1)) /
        PORTAL_MAX_ADDRESSES := List.mem_range.1 inRange
    rw [List.length_replicate] at small
    have width : PORTAL_MAX_ADDRESSES = 1000 := rfl
    rw [width] at small ⊢
    rw [List.drop_replicate, List.take_replicate, List.mem_replicate]
    exact ⟨by omega, rfl⟩
  rw [chunks, List.countP_map, List.countP_eq_length.2]
  · unfold addressBatches
    rw [List.length_map, List.length_range, List.length_replicate]
    rfl
  · intro batch isBatch
    simp [txRequestMatched, isValueMatched, each batch isBatch]

/-- No requests are no shard, although their envelope fits; and a sender that is listed many times
is in many chunks. -/
theorem shard_bodies_repeated :
    (shardTxRequests .on (envelopeSize (txEnvelope sampleHex sampleFields)) [] = .ok [] ∧
      envelopeSize (txEnvelope sampleHex sampleFields) [] < SHARD_BODY_BUDGET) ∧
    (shardLogs (A := Nat) (T := Nat) .on
        (envelopeSize (logEnvelope sampleHex sampleHex sampleFields)) [] = .ok [] ∧
      envelopeSize (logEnvelope sampleHex sampleHex sampleFields) [] < SHARD_BODY_BUDGET) ∧
    ((chunkTxRequest (envelopeSize (txEnvelope sampleHex sampleFields))
        (sendersRequest 6000)).countP fun r => txRequestMatched r (some 7) none) = 6 :=
  ⟨⟨rfl, by decide +kernel⟩, ⟨rfl, by decide +kernel⟩, sendersRequest_chunks sendersRequest_large⟩

end PortalPonder
