import PortalPonder.Client.Gate
import PortalPonder.Client.Stream

/-!
# The slots of requests

`fetchBatch` with its calls of the gate: a slot is acquired behind the size guard, congestion and
clean responses are reported, and the `finally` releases the slot.
-/

namespace PortalPonder.Client

open JSON (Text)

/-- What a request calls on the gate. -/
inductive SlotCall where
  | acquire
  | onOk
  | onThrottle
  | release
  deriving DecidableEq, Repr

/-- The message of an error that holds text of the server. -/
def serverMessage : PortalError → Option Text
  | .schemaField fieldKey _ tag =>
      some ("Portal 400: dataset cannot serve ".toList ++ fieldKey.table.toList ++
        '.' :: fieldKey.field.toList ++ " (".toList ++ tag.toList ++ ")".toList)
  | .missingTable table =>
      some ("Portal 400: table '".toList ++ table.toList ++ "' does not exist".toList)
  | .http status cursor body => some (httpMessage status cursor body)
  | _ => none

/-- What the `catch` takes for congestion. -/
def backsOff : PortalError → Bool
  | .truncatedBody _ => true
  | .network cause => isNetworkError cause
  | e => (serverMessage e).any fun m => isNetworkError (ofMessage m)

/-- The `try`: how it ends, and what it calls on the gate. -/
def tryBatch (req : Request) (answer : Except FetchError Response) :
    Except PortalError Batch × List SlotCall :=
  let cursor := req.fromBlock
  match answer with
  | .error cause => (.error (.network cause), [])
  | .ok res =>
      if res.status = 204 ∧ cursor ≤ req.toBlock then
        (.error (.incompleteRange cursor req.toBlock), [.onThrottle])
      else if res.status ≥ 500 ∨ res.status = 429 ∨ res.status = 409 then
        (.error (.throttle res.status res.retryAfterMs), [.onThrottle])
      else if ¬(200 ≤ res.status ∧ res.status ≤ 299) then (.error (badResponse req res), [])
      else
        match readBlocks cursor (ndjsonLines res.body) cursor with
        | .error e => (.error e, [])
        | .ok batch =>
            match res.body.failure with
            | some cause => (.error (.network cause), [])
            | none =>
                if batch.blocks = [] then (.error (.truncatedBody cursor), [])
                else (.ok batch, [.onOk])

/-- The `catch`: the error is thrown on. -/
def catchBatch : Except PortalError Batch → List SlotCall
  | .error e => if backsOff e = true then [.onThrottle] else []
  | .ok _ => []

/-- `fetchBatch`, with its calls of the gate in their order. -/
def fetchBatchSlots (bodyLength : Request → Nat) (req : Request)
    (answer : Except FetchError Response) : Except PortalError Batch × List SlotCall :=
  if bodyLength req > MAX_RAW_QUERY_SIZE then (.error (.requestTooLarge req.fromBlock), [])
  else
    let tried := tryBatch req answer
    (tried.1, .acquire :: tried.2 ++ catchBatch tried.1 ++ [.release])

/-- A request without a slot, or one that holds its slot from its first call to its last. -/
inductive OneSlot : List SlotCall → Prop
  | none : OneSlot []
  | held {reports : List SlotCall} (only : ∀ c ∈ reports, c = .onOk ∨ c = .onThrottle) :
      OneSlot (.acquire :: reports ++ [.release])

theorem reports_of_tryBatch (req : Request) (answer : Except FetchError Response) :
    ∀ c ∈ (tryBatch req answer).2, c = .onOk ∨ c = .onThrottle := by
  unfold tryBatch
  intro c mem
  cases answer with
  | error cause => cases mem
  | ok res =>
      dsimp only at mem
      repeat' split at mem
      all_goals simp_all

theorem reports_of_catchBatch (result : Except PortalError Batch) :
    ∀ c ∈ catchBatch result, c = .onOk ∨ c = .onThrottle := by
  intro c mem
  cases result with
  | ok batch => cases mem
  | error e =>
      unfold catchBatch at mem
      dsimp only at mem
      by_cases backs : backsOff e = true
      · rw [if_pos backs] at mem
        exact .inr (List.mem_singleton.1 mem)
      · rw [if_neg backs] at mem
        cases mem

/-- Every path releases the slot it acquired, and nothing else. -/
theorem oneSlot_of_fetchBatch (bodyLength : Request → Nat) (req : Request)
    (answer : Except FetchError Response) :
    OneSlot (fetchBatchSlots bodyLength req answer).2 := by
  unfold fetchBatchSlots
  split
  · exact .none
  · show OneSlot (.acquire :: ((tryBatch req answer).2 ++ _) ++ [.release])
    refine .held fun c mem => ?_
    rcases List.mem_append.1 mem with tried | caught
    · exact reports_of_tryBatch req answer c tried
    · exact reports_of_catchBatch _ c caught

/-- The calls of the gate aside, this is `fetchBatch`. -/
theorem fetchBatchSlots_result (bodyLength : Request → Nat) (req : Request)
    (answer : Except FetchError Response) :
    (fetchBatchSlots bodyLength req answer).1 = fetchBatch bodyLength req answer := by
  unfold fetchBatchSlots fetchBatch tryBatch
  dsimp only
  split
  · rfl
  · cases answer with
    | error cause => rfl
    | ok res =>
        by_cases empty : res.status = 204 ∧ req.fromBlock ≤ req.toBlock
        · simp only [if_pos empty]
        by_cases busy : res.status ≥ 500 ∨ res.status = 429 ∨ res.status = 409
        · simp only [if_neg empty, if_pos busy]
        by_cases refused : ¬ (200 ≤ res.status ∧ res.status ≤ 299)
        · simp only [if_neg empty, if_neg busy, if_pos refused]
        simp only [if_neg empty, if_neg busy, if_neg refused]
        cases readBlocks req.fromBlock (ndjsonLines res.body) req.fromBlock with
        | error e => rfl
        | ok batch =>
            dsimp only
            cases res.body.failure with
            | some cause => rfl
            | none =>
                by_cases none_ : batch.blocks = []
                · simp only [if_pos none_]
                · simp only [if_neg none_]

/-! ## The gate of the settings -/

section Settings

variable {number : String → Option Int} {env : String → Option String} {cfg : GateConfig}

theorem GateConfig.Read.min_le_iff (read : cfg.Read number env) :
    cfg.minConcurrency ≤ 48 ↔
      ∀ raw n, env "PORTAL_MIN_CONCURRENCY" = some raw → number raw = some n → n ≤ 48 := by
  rcases intKnob_spec read.low with ⟨unset, default⟩ | ⟨raw, set_, reads, -, -⟩
  · rw [default, unset]
    constructor
    · intro _ raw n set_
      cases set_
    · intro _
      decide
  · rw [set_]
    constructor
    · intro le raw' n set' reads'
      cases set'
      rw [reads] at reads'
      cases reads'
      exact le
    · intro le
      exact le raw _ rfl reads

/-- The gate is fair in every run, and every request returns the slot it took, unless the upper
limit is left at its default below the lower one. -/
theorem gate_fair_iff (bodyLength : Request → Nat)
    (loaded : loadPortalConfig number env = .ok cfg) (mode : CheckMode) :
    ((∀ s, Machine.Reach (Traffic.step mode) Traffic.May (Traffic.init cfg) s →
        s.Fair cfg.limits) ∧
      ∀ req answer, OneSlot (fetchBatchSlots bodyLength req answer).2 ∧
        (fetchBatchSlots bodyLength req answer).1 = fetchBatch bodyLength req answer) ↔
      (env "PORTAL_MAX_CONCURRENCY" = none →
        ∀ raw n, env "PORTAL_MIN_CONCURRENCY" = some raw → number raw = some n → n ≤ 48) := by
  have read := loadPortalConfig_read loaded
  rw [← read.min_le_iff, ← read.ordered_iff]
  constructor
  · rintro ⟨fair, -⟩
    obtain ⟨low, high⟩ := (fair _ .init).bounded
    exact Int.le_trans low high
  · intro ordered
    refine ⟨fun s reached => Traffic.fair_of_reach read.pos ordered reached, fun req answer => ?_⟩
    exact ⟨oneSlot_of_fetchBatch bodyLength req answer,
      fetchBatchSlots_result bodyLength req answer⟩

/-- The lower limit alone is set, to 64. -/
def lowerLimitOnly (name : String) : Option String :=
  if name = "PORTAL_MIN_CONCURRENCY" then some "64" else none

/-- The integers of the examples. -/
def sampleNumber (raw : String) : Option Int := if raw = "64" then some 64 else none

/-- The lower limit alone is set, to 20. -/
def lowerLimitBelow (name : String) : Option String :=
  if name = "PORTAL_MIN_CONCURRENCY" then some "20" else none

def sampleNumber20 (raw : String) : Option Int := if raw = "20" then some 20 else none

theorem gate_fair_below_default :
    (∀ s, Machine.Reach (Traffic.step .on) Traffic.May
        (Traffic.init ⟨20, 48, 16, 250000⟩) s → s.Fair ⟨20, 48, 250000⟩) ∧
      ∀ req answer, OneSlot (fetchBatchSlots (fun _ => 100) req answer).2 ∧
        (fetchBatchSlots (fun _ => 100) req answer).1 = fetchBatch (fun _ => 100) req answer := by
  have loaded : loadPortalConfig sampleNumber20 lowerLimitBelow = .ok ⟨20, 48, 16, 250000⟩ := by
    decide +kernel
  refine (gate_fair_iff (fun _ => 100) loaded .on).2 ?_
  intro _ raw n set_ reads
  cases set_
  cases reads
  decide

/-- With a lower limit of 64 the default upper limit is below it: the limit starts under its
minimum, the first caller is turned away by the check, and it stays in the queue. -/
theorem gate_limit_below_minimum :
    loadPortalConfig sampleNumber lowerLimitOnly = .ok ⟨64, 48, 16, 250000⟩ ∧
      ∃ s, Machine.Reach (Traffic.step .on) Traffic.May (Traffic.init ⟨64, 48, 16, 250000⟩) s ∧
        s.gate.state.limit < 64 ∧ s.gate.waiters = [0] ∧
        s.gate.state.active < s.gate.state.limit ∧ ¬ s.Fair ⟨64, 48, 250000⟩ := by
  refine ⟨by decide +kernel,
    (Traffic.step .on (Traffic.init ⟨64, 48, 16, 250000⟩) .acquire).get (by decide +kernel),
    .step (a := .acquire) .init trivial (Option.some_get (by decide +kernel)).symm, by decide +kernel,
    by decide +kernel, by decide +kernel, ?_⟩
  intro fair
  exact absurd fair.bounded.1 (by decide +kernel)

end Settings

end PortalPonder.Client
