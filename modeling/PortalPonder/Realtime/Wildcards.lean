import PortalPonder.Realtime.Subscription

/-!
# Stripping addresses over the budget

A realtime body over the budget is cut by taking the addresses away from the requests of a key, the
largest first, until it fits. The function is the source's own: keys are topics in one case and
one order, requests are told apart by their positions, and the keys that were widened before are
widened again. The strip that `WireRequests` gives the wire is the same on topics in one case
(`stripLogAddressesOverBudget_wire`).
-/

namespace PortalPonder.Realtime.Wildcards

variable {A T : Type} [LinearOrder T]

/-- Topics in one case, in one order. -/
def normalizedTopicKeyPart (lower : T → T) (xs : Option (List T)) : Option (List T) :=
  xs.map fun xs => (xs.map lower).mergeSort fun a b => a ≤ b

def wildcardLogRequestKey (lower : T → T) (request : LogRequest A T) : WildcardLogRequestKey T :=
  ⟨normalizedTopicKeyPart lower request.topic0, normalizedTopicKeyPart lower request.topic1,
    normalizedTopicKeyPart lower request.topic2, normalizedTopicKeyPart lower request.topic3⟩

/-- The arguments that stay fixed during a call. -/
structure StripArgs (A T : Type) where
  lower : T → T
  isDiscovery : LogRequest A T → Nat → Bool
  /-- the length of the serialized envelope of some requests -/
  bodySize : List (LogRequest A T) → Nat
  budget : Nat
  requests : List (LogRequest A T)

namespace StripArgs

def key (args : StripArgs A T) (request : LogRequest A T) : WildcardLogRequestKey T :=
  wildcardLogRequestKey args.lower request

def fits (args : StripArgs A T) (requests : List (LogRequest A T)) : Bool :=
  args.bodySize requests < args.budget

/-- `stripKey` from position `index` on: `rest` of the given requests, `output` of the current ones. -/
def stripKeyFrom (args : StripArgs A T) (key : WildcardLogRequestKey T) :
    Nat → List (LogRequest A T) → List (LogRequest A T) → List (LogRequest A T)
  | index, request :: rest, current :: output =>
      (if args.isDiscovery request index = true then current
        else if args.key request ≠ key then current
        else if request.address = none then current
        else withoutAddress request) :: args.stripKeyFrom key (index + 1) rest output
  | _, _, output => output

def stripKey (args : StripArgs A T) (input : List (LogRequest A T))
    (key : WildcardLogRequestKey T) : List (LogRequest A T) :=
  args.stripKeyFrom key 0 args.requests input

/-- The keys that are widened already. -/
def stripPrior (args : StripArgs A T) (wildcard : List (WildcardLogRequestKey T)) :
    Nat → List (LogRequest A T) → List (LogRequest A T) → List (LogRequest A T)
  | _, [], requests => requests
  | index, request :: rest, requests =>
      args.stripPrior wildcard (index + 1) rest
        (if args.isDiscovery request index = true then requests
          else if args.key request ∈ wildcard then args.stripKey requests (args.key request)
          else requests)

structure Candidate (T : Type) where
  index : Nat
  key : WildcardLogRequestKey T
  addressCount : Nat

/-- Most addresses first, then the first position. -/
def Candidate.before (a b : Candidate T) : Bool :=
  if a.addressCount ≠ b.addressCount then b.addressCount < a.addressCount else a.index ≤ b.index

def candidates (args : StripArgs A T) (wildcard : List (WildcardLogRequestKey T)) :
    List (Candidate T) :=
  ((args.requests.zipIdx.filter fun r =>
      addressCount r.1 ≠ 0 && decide (args.key r.1 ∉ wildcard) && !args.isDiscovery r.1 r.2).map
    fun r => ⟨r.2, args.key r.1, addressCount r.1⟩).mergeSort Candidate.before

/-- The loop over the candidates; `none` when none of them makes the body fit. -/
def flip (args : StripArgs A T) :
    List (Candidate T) → WildcardLogRequestsResult A T →
      WildcardLogRequestsResult A T × Bool
  | [], s => (s, false)
  | candidate :: rest, s =>
      if candidate.key ∈ s.wildcard then args.flip rest s
      else
        let s : WildcardLogRequestsResult A T :=
          { requests := args.stripKey s.requests candidate.key
            wildcard := s.wildcard ++ [candidate.key]
            flipped := s.flipped ++ [⟨candidate.key, candidate.addressCount⟩] }
        if args.fits s.requests = true then (s, true) else args.flip rest s

end StripArgs

def stripLogAddressesOverBudget (checks : CheckMode) (args : StripArgs A T)
    (wildcard : List (WildcardLogRequestKey T)) :
    Except InvariantViolation (WildcardLogRequestsResult A T) :=
  let requests := args.stripPrior wildcard 0 args.requests args.requests
  if args.fits requests = true then .ok ⟨requests, wildcard, []⟩
  else
    let outcome := args.flip (args.candidates wildcard) ⟨requests, wildcard, []⟩
    if outcome.2 = true then .ok outcome.1
    else do
      let size := args.bodySize outcome.1.requests
      invariant checks "#196" (size < args.budget) (overBudget size)
      pure outcome.1

/-! ## What is stripped -/

namespace StripArgs

variable {args : StripArgs A T}

/-- A request once the keys are widened. -/
def widened (args : StripArgs A T) (keys : List (WildcardLogRequestKey T))
    (request : LogRequest A T) (index : Nat) : LogRequest A T :=
  if args.isDiscovery request index = false ∧ args.key request ∈ keys then withoutAddress request
  else request

/-- The requests once the keys are widened. -/
def strippedFrom (args : StripArgs A T) (keys : List (WildcardLogRequestKey T)) :
    Nat → List (LogRequest A T) → List (LogRequest A T)
  | _, [] => []
  | index, request :: rest =>
      args.widened keys request index :: args.strippedFrom keys (index + 1) rest

def stripped (args : StripArgs A T) (keys : List (WildcardLogRequestKey T)) :
    List (LogRequest A T) :=
  args.strippedFrom keys 0 args.requests

omit [LinearOrder T] in
theorem withoutAddress_of_none {request : LogRequest A T} (none_ : request.address = none) :
    withoutAddress request = request := by
  cases request
  cases none_
  rfl

/-- One more key. -/
theorem stripKeyFrom_strippedFrom (key : WildcardLogRequestKey T)
    (keys : List (WildcardLogRequestKey T)) (index : Nat) (rest : List (LogRequest A T)) :
    args.stripKeyFrom key index rest (args.strippedFrom keys index rest) =
      args.strippedFrom (keys ++ [key]) index rest := by
  induction rest generalizing index with
  | nil => rfl
  | cons request rest ih =>
      simp only [strippedFrom, stripKeyFrom, ih, widened, List.mem_append, List.mem_singleton]
      cases discovery : args.isDiscovery request index with
      | true => simp
      | false =>
          by_cases same : args.key request = key
          · by_cases none_ : request.address = none
            · simp [same, none_, withoutAddress_of_none]
            · simp [same, none_]
          · simp [same]

theorem stripKey_stripped (key : WildcardLogRequestKey T)
    (keys : List (WildcardLogRequestKey T)) :
    args.stripKey (args.stripped keys) key = args.stripped (keys ++ [key]) :=
  stripKeyFrom_strippedFrom key keys 0 args.requests

/-- Only membership in the keys counts, and only for the keys of requests. -/
theorem strippedFrom_congr {keys keys' : List (WildcardLogRequestKey T)} {index : Nat}
    {rest : List (LogRequest A T)}
    (same : ∀ i r, rest[i]? = some r → args.isDiscovery r (index + i) = false →
      (args.key r ∈ keys ↔ args.key r ∈ keys')) :
    args.strippedFrom keys index rest = args.strippedFrom keys' index rest := by
  induction rest generalizing index with
  | nil => rfl
  | cons request rest ih =>
      have tail : args.strippedFrom keys (index + 1) rest =
          args.strippedFrom keys' (index + 1) rest := by
        refine ih fun i r at_ off => same (i + 1) r at_ ?_
        rw [← off]
        congr 1
        omega
      have head := same 0 request rfl
      unfold strippedFrom
      rw [tail]
      congr 1
      unfold widened
      cases discovery : args.isDiscovery request index with
      | true => simp
      | false => simp only [head discovery, true_and]

theorem stripped_nil : args.stripped [] = args.requests := by
  have all : ∀ index rest, args.strippedFrom [] index rest = rest := by
    intro index rest
    induction rest generalizing index with
    | nil => rfl
    | cons request rest ih => simp [strippedFrom, widened, ih]
  exact all 0 args.requests

/-- The keys of the requests from `index` on that are widened already. -/
def priorKeys (args : StripArgs A T) (wildcard : List (WildcardLogRequestKey T)) :
    Nat → List (LogRequest A T) → List (WildcardLogRequestKey T)
  | _, [] => []
  | index, request :: rest =>
      (if args.isDiscovery request index = true then []
        else if args.key request ∈ wildcard then [args.key request] else []) ++
        args.priorKeys wildcard (index + 1) rest

theorem stripPrior_stripped (wildcard keys : List (WildcardLogRequestKey T)) (index : Nat)
    (rest : List (LogRequest A T)) :
    args.stripPrior wildcard index rest (args.stripped keys) =
      args.stripped (keys ++ args.priorKeys wildcard index rest) := by
  induction rest generalizing index keys with
  | nil => simp [stripPrior, priorKeys]
  | cons request rest ih =>
      unfold stripPrior priorKeys
      by_cases discovery : args.isDiscovery request index = true
      · simp only [if_pos discovery, List.nil_append]
        exact ih keys (index + 1)
      · simp only [if_neg discovery]
        by_cases known : args.key request ∈ wildcard
        · simp only [if_pos known]
          rw [stripKey_stripped, ih, List.append_assoc]
        · simp only [if_neg known, List.nil_append]
          exact ih keys (index + 1)

theorem mem_priorKeys {wildcard : List (WildcardLogRequestKey T)} {index : Nat}
    {rest : List (LogRequest A T)} {key : WildcardLogRequestKey T}
    (mem : key ∈ args.priorKeys wildcard index rest) : key ∈ wildcard := by
  induction rest generalizing index with
  | nil => cases mem
  | cons request rest ih =>
      rcases List.mem_append.1 mem with here | later
      · split at here
        · cases here
        · split at here
          · rename_i known
            rw [List.mem_singleton.1 here]
            exact known
          · cases here
      · exact ih later

theorem priorKeys_mem {wildcard : List (WildcardLogRequestKey T)} {index i : Nat}
    {rest : List (LogRequest A T)} {request : LogRequest A T} (at_ : rest[i]? = some request)
    (off : args.isDiscovery request (index + i) = false) (known : args.key request ∈ wildcard) :
    args.key request ∈ args.priorKeys wildcard index rest := by
  induction rest generalizing index i with
  | nil => cases at_
  | cons first rest ih =>
      unfold priorKeys
      cases i with
      | zero =>
          cases at_
          have off' : args.isDiscovery request index = false := off
          simp [off', known]
      | succ i =>
          refine List.mem_append_right _ (ih at_ ?_)
          rw [← off]
          congr 1
          omega

/-- The first loop widens the prior keys. -/
theorem stripPrior_eq (wildcard : List (WildcardLogRequestKey T)) :
    args.stripPrior wildcard 0 args.requests args.requests = args.stripped wildcard := by
  have loop : args.stripPrior wildcard 0 args.requests (args.stripped []) =
      args.stripped ([] ++ args.priorKeys wildcard 0 args.requests) :=
    stripPrior_stripped wildcard [] 0 args.requests
  rw [stripped_nil, List.nil_append] at loop
  rw [loop]
  refine strippedFrom_congr fun i r at_ off => ⟨mem_priorKeys, fun known => ?_⟩
  exact priorKeys_mem at_ off known

/-! ## The loop over the candidates -/

/-- A state of the loop: what is widened, and that every key was needed. -/
structure Widened (args : StripArgs A T) (prior : List (WildcardLogRequestKey T))
    (s : WildcardLogRequestsResult A T) : Prop where
  requests : s.requests = args.stripped s.wildcard
  keys : s.wildcard = prior ++ s.flipped.map WildcardLogFlip.key
  /-- before each key the body did not fit -/
  needed : ∀ j < s.flipped.length, args.budget ≤
    args.bodySize (args.stripped (prior ++ (s.flipped.take j).map WildcardLogFlip.key))

variable {prior : List (WildcardLogRequestKey T)} {s : WildcardLogRequestsResult A T}

theorem Widened.push (widened : Widened args prior s)
    (exceeds : ¬ args.fits s.requests = true) (candidate : Candidate T) :
    Widened args prior
      { requests := args.stripKey s.requests candidate.key
        wildcard := s.wildcard ++ [candidate.key]
        flipped := s.flipped ++ [⟨candidate.key, candidate.addressCount⟩] } where
  requests := by
    show args.stripKey s.requests candidate.key = _
    rw [widened.requests, stripKey_stripped]
  keys := by
    show s.wildcard ++ [candidate.key] = _
    rw [widened.keys, List.map_append, List.append_assoc]
    rfl
  needed := by
    intro j inside
    by_cases old : j < s.flipped.length
    · rw [List.take_append_of_le_length (Nat.le_of_lt old)]
      exact widened.needed j old
    · have last : j = s.flipped.length := by
        have bound : j < s.flipped.length + 1 := by simpa using inside
        omega
      have here : ∀ flip : WildcardLogFlip T, (s.flipped ++ [flip]).take j = s.flipped := by
        intro flip
        rw [last, List.take_left]
      rw [here, ← widened.keys, ← widened.requests]
      exact Nat.not_lt.1 fun small => exceeds (decide_eq_true small)

/-- How the loop ends: the body fits, or all candidates are widened and it does not. -/
theorem flip_spec (cs : List (Candidate T)) (widened : Widened args prior s)
    (exceeds : ¬ args.fits s.requests = true) :
    Widened args prior (args.flip cs s).1 ∧
      ((args.flip cs s).2 = true → args.fits (args.flip cs s).1.requests = true) ∧
      ((args.flip cs s).2 = false → ¬ args.fits (args.flip cs s).1.requests = true ∧
        (∀ k ∈ s.wildcard, k ∈ (args.flip cs s).1.wildcard) ∧
        ∀ c ∈ cs, c.key ∈ (args.flip cs s).1.wildcard) := by
  induction cs generalizing s with
  | nil =>
      refine ⟨widened, ?_, fun _ => ⟨exceeds, fun _ mem => mem, ?_⟩⟩
      · intro ended
        cases ended
      · intro c mem
        cases mem
  | cons candidate rest ih =>
      unfold flip
      by_cases known : candidate.key ∈ s.wildcard
      · simp only [if_pos known]
        obtain ⟨kept, fits, ended⟩ := ih widened exceeds
        refine ⟨kept, fits, fun out => ?_⟩
        obtain ⟨exceeds', old, all⟩ := ended out
        refine ⟨exceeds', old, ?_⟩
        rintro c (_ | ⟨_, mem⟩)
        · exact old _ known
        · exact all c mem
      · simp only [if_neg known]
        have next := widened.push exceeds candidate
        by_cases fitsNow : args.fits (args.stripKey s.requests candidate.key) = true
        · simp only [if_pos fitsNow]
          refine ⟨next, fun _ => fitsNow, ?_⟩
          intro out
          cases out
        · simp only [if_neg fitsNow]
          obtain ⟨kept, fits, ended⟩ := ih next fitsNow
          refine ⟨kept, fits, fun out => ?_⟩
          obtain ⟨exceeds', old, all⟩ := ended out
          refine ⟨exceeds', fun k mem => old k (List.mem_append_left _ mem), ?_⟩
          rintro c (_ | ⟨_, mem⟩)
          · exact old _ (List.mem_append_right _ (List.mem_singleton.2 rfl))
          · exact all c mem

theorem mem_candidates {wildcard : List (WildcardLogRequestKey T)} {i : Nat}
    {request : LogRequest A T} (at_ : args.requests[i]? = some request)
    (off : args.isDiscovery request i = false) (some_ : addressCount request ≠ 0)
    (fresh : args.key request ∉ wildcard) :
    ∃ c ∈ args.candidates wildcard, c.key = args.key request := by
  refine ⟨⟨i, args.key request, addressCount request⟩, ?_, rfl⟩
  unfold candidates
  rw [List.mem_mergeSort, List.mem_map]
  refine ⟨(request, i), ?_, rfl⟩
  rw [List.mem_filter]
  refine ⟨List.mem_zipIdx_iff_getElem?.2 at_, ?_⟩
  simp [some_, fresh, off]

/-! ## Requests after the loop -/

theorem strippedFrom_at {keys : List (WildcardLogRequestKey T)} {index i : Nat}
    {rest : List (LogRequest A T)} :
    (args.strippedFrom keys index rest)[i]? =
      (rest[i]?).map fun r => args.widened keys r (index + i) := by
  induction rest generalizing index i with
  | nil => rfl
  | cons request rest ih =>
      cases i with
      | zero => rfl
      | succ i =>
          show (args.strippedFrom keys (index + 1) rest)[i]? = _
          rw [ih]
          simp only [List.getElem?_cons_succ]
          congr 1
          funext r
          congr 1
          omega

theorem stripped_at (keys : List (WildcardLogRequestKey T)) (i : Nat) :
    (args.stripped keys)[i]? = (args.requests[i]?).map fun r => args.widened keys r i := by
  unfold stripped
  rw [strippedFrom_at]
  simp only [Nat.zero_add]

theorem strippedFrom_length (keys : List (WildcardLogRequestKey T)) (index : Nat)
    (rest : List (LogRequest A T)) : (args.strippedFrom keys index rest).length = rest.length := by
  induction rest generalizing index with
  | nil => rfl
  | cons request rest ih => simp [strippedFrom, ih]

theorem widened_matches [DecidableEq A] (keys : List (WildcardLogRequestKey T))
    {request : LogRequest A T} (index : Nat) {log : ChainLog A T}
    (matched : requestMatched request log = true) :
    requestMatched (args.widened keys request index) log = true := by
  unfold widened
  split
  · unfold requestMatched at matched
    simp only [Bool.and_eq_true] at matched
    obtain ⟨⟨⟨⟨-, zero⟩, one⟩, two⟩, three⟩ := matched
    unfold requestMatched withoutAddress
    simp only [isValueMatched_none, zero, one, two, three, Bool.and_true]
  · exact matched

end StripArgs

/-- What a call that returns guarantees. -/
structure Stripped [DecidableEq A] (checks : CheckMode) (args : StripArgs A T)
    (prior : List (WildcardLogRequestKey T)) (result : WildcardLogRequestsResult A T) : Prop where
  fits : args.bodySize result.requests < args.budget
  /-- a request that matches a log still does -/
  covers : ∀ (i : Nat) (r : LogRequest A T), args.requests[i]? = some r →
    ∃ r', result.requests[i]? = some r' ∧
      ∀ log, requestMatched r log = true → requestMatched r' log = true
  length : result.requests.length = args.requests.length
  /-- the requests of factories stay, and those whose key is not widened -/
  kept : ∀ (i : Nat) (r : LogRequest A T), args.requests[i]? = some r →
    args.isDiscovery r i = true ∨ args.key r ∉ result.wildcard → result.requests[i]? = some r
  grown : result.wildcard = prior ++ result.flipped.map WildcardLogFlip.key
  needed : ∀ j < result.flipped.length, args.budget ≤
    args.bodySize (args.stripped (prior ++ (result.flipped.take j).map WildcardLogFlip.key))
  /-- with the returned keys the same requests are returned, and no key is added -/
  stable : stripLogAddressesOverBudget checks args result.wildcard =
    .ok ⟨result.requests, result.wildcard, []⟩

/-- What a call that throws has tried: every address list that may be stripped is. -/
structure Exhausted (args : StripArgs A T) (prior : List (WildcardLogRequestKey T))
    (v : InvariantViolation) : Prop where
  exceeds : ∃ keys, (∀ (i : Nat) (r : LogRequest A T), args.requests[i]? = some r →
      args.isDiscovery r i = false → addressCount r ≠ 0 → args.key r ∈ prior ++ keys) ∧
    args.budget ≤ args.bodySize (args.stripped (prior ++ keys)) ∧
    v = ⟨"#196", overBudget (args.bodySize (args.stripped (prior ++ keys)))⟩

open StripArgs

variable [DecidableEq A] {checks : CheckMode} {args : StripArgs A T}
  {prior : List (WildcardLogRequestKey T)} {result : WildcardLogRequestsResult A T}

theorem stripped_of_widened (widened : Widened args prior result)
    (fits : args.fits result.requests = true) : Stripped checks args prior result where
  fits := of_decide_eq_true fits
  covers := by
    intro i r at_
    rw [widened.requests, stripped_at, at_]
    exact ⟨_, rfl, fun log matched => widened_matches _ i matched⟩
  length := by
    rw [widened.requests]
    exact strippedFrom_length ..
  kept := by
    intro i r at_ stays
    rw [widened.requests, stripped_at, at_, Option.map_some]
    refine congrArg some (if_neg ?_)
    rintro ⟨off, known⟩
    rcases stays with discovery | fresh
    · rw [off] at discovery
      cases discovery
    · exact fresh known
  grown := widened.keys
  needed := widened.needed
  stable := by
    unfold stripLogAddressesOverBudget
    dsimp only
    rw [stripPrior_eq, ← widened.requests, if_pos fits]

/-- It returns requests that fit, or throws when nothing more can be stripped. -/
theorem stripLogAddressesOverBudget_sound (on : checks ≠ .off) (args : StripArgs A T)
    (prior : List (WildcardLogRequestKey T)) :
    (∃ result, stripLogAddressesOverBudget checks args prior = .ok result ∧
        Stripped checks args prior result) ∨
      ∃ v, stripLogAddressesOverBudget checks args prior = .error v ∧ Exhausted args prior v := by
  have start : Widened args prior ⟨args.stripped prior, prior, []⟩ :=
    ⟨rfl, (List.append_nil prior).symm, by simp⟩
  unfold stripLogAddressesOverBudget
  dsimp only
  rw [stripPrior_eq]
  by_cases fits : args.fits (args.stripped prior) = true
  · rw [if_pos fits]
    exact .inl ⟨_, rfl, stripped_of_widened start fits⟩
  · rw [if_neg fits]
    have spec := flip_spec (args.candidates prior) start fits
    generalize args.flip (args.candidates prior) ⟨args.stripped prior, prior, []⟩ = outcome at spec
    obtain ⟨widened, fitted, ended⟩ := spec
    by_cases done : outcome.2 = true
    · rw [if_pos done]
      exact .inl ⟨_, rfl, stripped_of_widened widened (fitted done)⟩
    · rw [if_neg done]
      obtain ⟨exceeds, old, all⟩ := ended (Bool.eq_false_iff.2 done)
      have large : ¬ args.bodySize outcome.1.requests < args.budget :=
        fun small => exceeds (decide_eq_true small)
      refine .inr ⟨⟨"#196", overBudget (args.bodySize outcome.1.requests)⟩, ?_,
        outcome.1.flipped.map WildcardLogFlip.key, ?_⟩
      · simp only [invariant, if_neg on, large, decide_false, Bool.false_eq_true, if_false]
        rfl
      · rw [← widened.keys, ← widened.requests]
        refine ⟨?_, Nat.not_lt.1 large, rfl⟩
        intro i r at_ off some_
        by_cases known : args.key r ∈ prior
        · exact old _ known
        · obtain ⟨c, mem, same⟩ := mem_candidates at_ off some_ known
          exact same ▸ all c mem

/-! ## The sticky keys of a connection -/

/-- The requests of the next body, and the keys that are kept for later ones. -/
def bodyLogs (checks : CheckMode) (args : StripArgs A T)
    (wildcardKeys : Option (List (WildcardLogRequestKey T))) :
    Except InvariantViolation (List (LogRequest A T) × Option (List (WildcardLogRequestKey T))) :=
  match wildcardKeys with
  | none => .ok (args.requests, none)
  | some keys =>
      match stripLogAddressesOverBudget checks args keys with
      | .error v => .error v
      | .ok wildcarded =>
          .ok (wildcarded.requests,
            some (if wildcarded.flipped.isEmpty then keys else wildcarded.wildcard))

omit [DecidableEq A] in
/-- Nothing is left to widen once all candidates are. -/
theorem candidates_exhausted {keys : List (WildcardLogRequestKey T)}
    (old : ∀ k ∈ prior, k ∈ keys) (all : ∀ c ∈ args.candidates prior, c.key ∈ keys) :
    args.candidates keys = [] := by
  rw [List.eq_nil_iff_forall_not_mem]
  intro c mem
  unfold candidates at mem
  rw [List.mem_mergeSort, List.mem_map] at mem
  obtain ⟨⟨request, i⟩, passes, -⟩ := mem
  obtain ⟨at_, open_⟩ := List.mem_filter.1 passes
  simp only [Bool.and_eq_true, decide_eq_true_eq, Bool.not_eq_true'] at open_
  obtain ⟨⟨some_, fresh⟩, off⟩ := open_
  by_cases known : args.key request ∈ prior
  · exact fresh (old _ known)
  · obtain ⟨c, mem, same⟩ := mem_candidates (List.mem_zipIdx_iff_getElem?.1 at_) off
      (by simpa using some_) known
    exact fresh (same ▸ all c mem)

omit [DecidableEq A] in
/-- With the keys it returned, a call returns the same requests and widens nothing more. -/
theorem stripLogAddressesOverBudget_again
    (ok : stripLogAddressesOverBudget checks args prior = .ok result) :
    stripLogAddressesOverBudget checks args result.wildcard =
      .ok ⟨result.requests, result.wildcard, []⟩ := by
  have start : Widened args prior ⟨args.stripped prior, prior, []⟩ :=
    ⟨rfl, (List.append_nil prior).symm, by simp⟩
  have fitting : ∀ s : WildcardLogRequestsResult A T, Widened args prior s →
      args.fits s.requests = true → stripLogAddressesOverBudget checks args s.wildcard =
        .ok ⟨s.requests, s.wildcard, []⟩ := by
    intro s widened fits
    unfold stripLogAddressesOverBudget
    dsimp only
    rw [stripPrior_eq, ← widened.requests, if_pos fits]
  unfold stripLogAddressesOverBudget at ok
  dsimp only at ok
  rw [stripPrior_eq] at ok
  by_cases fits : args.fits (args.stripped prior) = true
  · rw [if_pos fits] at ok
    cases ok
    exact fitting _ start fits
  · rw [if_neg fits] at ok
    have spec := flip_spec (args.candidates prior) start fits
    generalize args.flip (args.candidates prior) ⟨args.stripped prior, prior, []⟩ = outcome
      at spec ok
    obtain ⟨widened, fitted, ended⟩ := spec
    by_cases done : outcome.2 = true
    · rw [if_pos done] at ok
      cases ok
      exact fitting _ widened (fitted done)
    · rw [if_neg done] at ok
      obtain ⟨exceeds, old, all⟩ := ended (Bool.eq_false_iff.2 done)
      have large : ¬ args.bodySize outcome.1.requests < args.budget :=
        fun small => exceeds (decide_eq_true small)
      -- it was let through by checks that are off, and nothing is left to widen
      by_cases off : checks = .off
      · have same : outcome.1 = result := by
          simp only [invariant, if_pos off] at ok
          exact Except.ok.inj ok
        rw [← same]
        unfold stripLogAddressesOverBudget
        dsimp only
        rw [stripPrior_eq, ← widened.requests, if_neg exceeds, candidates_exhausted old all]
        simp only [StripArgs.flip, Bool.false_eq_true, if_false, invariant, if_pos off]
        rfl
      · simp only [invariant, if_neg off, large, decide_false, Bool.false_eq_true, if_false] at ok
        cases ok

omit [DecidableEq A] in
/-- A body that was built is built again with the keys it left, which stay. -/
theorem bodyLogs_stable {keys : List (WildcardLogRequestKey T)}
    {body : List (LogRequest A T)} {keys' : Option (List (WildcardLogRequestKey T))}
    (built : bodyLogs checks args (some keys) = .ok (body, keys')) :
    bodyLogs checks args keys' = .ok (body, keys') := by
  unfold bodyLogs at built
  cases stripped : stripLogAddressesOverBudget checks args keys with
  | error v =>
      simp only [stripped] at built
      cases built
  | ok result =>
      have again := stripLogAddressesOverBudget_again stripped
      simp only [stripped] at built
      cases built
      by_cases none_ : result.flipped.isEmpty = true
      · simp only [bodyLogs, none_, if_true, stripped]
      · simp only [bodyLogs, none_, Bool.false_eq_true, if_false, again, List.isEmpty_nil, if_true]

/-! ## The strip of the wire -/

/-- The keys of `WireRequests`, in the source's form. -/
def normalizedKey (lower : T → T) (key : WildcardLogRequestKey T) : WildcardLogRequestKey T :=
  ⟨normalizedTopicKeyPart lower key.topic0, normalizedTopicKeyPart lower key.topic1,
    normalizedTopicKeyPart lower key.topic2, normalizedTopicKeyPart lower key.topic3⟩

def normalizedFlip (lower : T → T) (flip : WildcardLogFlip T) : WildcardLogFlip T :=
  ⟨normalizedKey lower flip.key, flip.addressCount⟩

def normalizedResult (lower : T → T) (result : WildcardLogRequestsResult A T) :
    WildcardLogRequestsResult A T where
  requests := result.requests
  wildcard := result.wildcard.map (normalizedKey lower)
  flipped := result.flipped.map (normalizedFlip lower)

/-- The topics are in one case. -/
def Lowered (lower : T → T) (key : WildcardLogRequestKey T) : Prop :=
  ∀ part ∈ [key.topic0, key.topic1, key.topic2, key.topic3], ∀ xs ∈ part, xs.map lower = xs

section Wire

omit [DecidableEq A]

variable {lower : T → T} {isDiscovery : LogRequest A T → Bool}
  {bodySize : List (LogRequest A T) → Nat} {requests : List (LogRequest A T)}

/-- In one order, lists are the same when they are permutations. -/
theorem mergeSort_eq_iff_perm {xs ys : List T} :
    xs.mergeSort (fun a b => a ≤ b) = ys.mergeSort (fun a b => a ≤ b) ↔ xs.Perm ys := by
  have sorted : ∀ zs : List T, (zs.mergeSort fun a b => a ≤ b).Pairwise fun a b => a ≤ b := by
    intro zs
    have trans : ∀ a b c : T, decide (a ≤ b) = true → decide (b ≤ c) = true →
        decide (a ≤ c) = true := by
      intro a b c ab bc
      exact decide_eq_true (le_trans (of_decide_eq_true ab) (of_decide_eq_true bc))
    have total : ∀ a b : T, (decide (a ≤ b) || decide (b ≤ a)) = true := by
      intro a b
      simpa using le_total a b
    have ordered := List.pairwise_mergeSort trans total zs
    exact ordered.imp fun le => of_decide_eq_true le
  constructor
  · intro same
    have left := (List.mergeSort_perm xs fun a b => decide (a ≤ b)).symm
    exact left.trans (same ▸ List.mergeSort_perm ys fun a b => decide (a ≤ b))
  · intro perm
    refine List.Perm.eq_of_pairwise (fun a b _ _ => le_antisymm) (sorted xs) (sorted ys) ?_
    exact (List.mergeSort_perm xs _).trans (perm.trans (List.mergeSort_perm ys _).symm)

theorem sameKeyPart_iff (lower : T → T) {a b : Option (List T)} (lowerA : ∀ xs ∈ a, xs.map lower = xs)
    (lowerB : ∀ xs ∈ b, xs.map lower = xs) :
    sameKeyPart a b = true ↔ normalizedTopicKeyPart lower a = normalizedTopicKeyPart lower b := by
  cases a with
  | none => cases b <;> simp [sameKeyPart, normalizedTopicKeyPart]
  | some xs =>
      cases b with
      | none => simp [sameKeyPart, normalizedTopicKeyPart]
      | some ys =>
          show xs.isPerm ys = true ↔
            some ((xs.map lower).mergeSort _) = some ((ys.map lower).mergeSort _)
          rw [lowerA xs rfl, lowerB ys rfl, Option.some.injEq, mergeSort_eq_iff_perm,
            List.isPerm_iff]

/-- A key is in the set exactly when its source form is in the source's set. -/
theorem hasKey_iff {keys : List (WildcardLogRequestKey T)} {key : WildcardLogRequestKey T}
    (lowerKeys : ∀ k ∈ keys, Lowered lower k) (lowerKey : Lowered lower key) :
    hasKey keys key = true ↔ normalizedKey lower key ∈ keys.map (normalizedKey lower) := by
  unfold hasKey
  simp only [List.any_eq_true, List.mem_map, Bool.and_eq_true]
  refine exists_congr fun k => and_congr_right fun mem => ?_
  have lowerK := lowerKeys k mem
  rw [sameKeyPart_iff lower (lowerK _ (by simp)) (lowerKey _ (by simp)),
    sameKeyPart_iff lower (lowerK _ (by simp)) (lowerKey _ (by simp)),
    sameKeyPart_iff lower (lowerK _ (by simp)) (lowerKey _ (by simp)),
    sameKeyPart_iff lower (lowerK _ (by simp)) (lowerKey _ (by simp))]
  unfold normalizedKey
  rw [WildcardLogRequestKey.mk.injEq]
  exact ⟨fun ⟨⟨⟨zero, one⟩, two⟩, three⟩ => ⟨zero, one, two, three⟩,
    fun ⟨zero, one, two, three⟩ => ⟨⟨⟨zero, one⟩, two⟩, three⟩⟩

omit [LinearOrder T] in
/-- By number of addresses, as `WireRequests` sorts, which is stable: among the same numbers the
first position comes first, as the source sorts. -/
theorem mergeSort_before {cs : List (Candidate T)}
    (increasing : cs.Pairwise fun a b => a.index < b.index) :
    cs.mergeSort Candidate.before =
      cs.mergeSort fun a b => decide (b.addressCount ≤ a.addressCount) := by
  have inOrder : ∀ a ∈ cs.zipIdx, ∀ b ∈ cs.zipIdx,
      List.zipIdxLE (fun a b : Candidate T => decide (b.addressCount ≤ a.addressCount)) a b =
        Candidate.before a.1 b.1 := by
    intro a inA b inB
    obtain ⟨insideA, atA⟩ := List.getElem?_eq_some_iff.1 (List.mem_zipIdx_iff_getElem?.1 inA)
    obtain ⟨insideB, atB⟩ := List.getElem?_eq_some_iff.1 (List.mem_zipIdx_iff_getElem?.1 inB)
    -- the positions in the list are in the order of the positions among the requests
    have indexes : a.2 ≤ b.2 ↔ a.1.index ≤ b.1.index := by
      have ordered := List.pairwise_iff_getElem.1 increasing
      rw [← atA, ← atB]
      constructor
      · intro le
        rcases Nat.lt_or_eq_of_le le with lt | same
        · exact Nat.le_of_lt (ordered _ _ insideA insideB lt)
        · simp only [same, Nat.le_refl]
      · intro le
        by_contra gt
        exact absurd (ordered _ _ insideB insideA (Nat.lt_of_not_le gt)) (Nat.not_lt.2 le)
    unfold List.zipIdxLE Candidate.before
    rcases Nat.lt_trichotomy a.1.addressCount b.1.addressCount with fewer | same | more
    · simp [Nat.not_le.2 fewer, Nat.ne_of_lt fewer, Nat.le_of_lt fewer]
    · simp [same, indexes]
    · simp [Nat.le_of_lt more, Nat.ne_of_gt more, more]
  have stable : (cs.zipIdx.mergeSort (List.zipIdxLE fun a b : Candidate T =>
      decide (b.addressCount ≤ a.addressCount))).map (·.1) =
        cs.mergeSort fun a b => decide (b.addressCount ≤ a.addressCount) :=
    List.mergeSort_zipIdx
  rw [← stable, List.map_mergeSort inOrder]
  exact congrArg (fun cs : List (Candidate T) => cs.mergeSort Candidate.before)
    (List.zipIdx_map_fst 0 cs).symm

/-- The call of the wire, as the source makes it. -/
def wireArgs (lower : T → T) (isDiscovery : LogRequest A T → Bool)
    (bodySize : List (LogRequest A T) → Nat) (requests : List (LogRequest A T)) : StripArgs A T where
  lower
  isDiscovery := fun request _ => isDiscovery request
  bodySize
  budget := SHARD_BODY_BUDGET
  requests

theorem stripped_wire {keys : List (WildcardLogRequestKey T)}
    (lowerRequests : ∀ r ∈ requests, Lowered lower (Realtime.wildcardLogRequestKey r))
    (lowerKeys : ∀ k ∈ keys, Lowered lower k) :
    (wireArgs lower isDiscovery bodySize requests).stripped (keys.map (normalizedKey lower)) =
      stripKeys isDiscovery keys requests := by
  have from_ : ∀ index rest, rest ⊆ requests →
      (wireArgs lower isDiscovery bodySize requests).strippedFrom (keys.map (normalizedKey lower))
        index rest = stripKeys isDiscovery keys rest := by
    intro index rest
    induction rest generalizing index with
    | nil => exact fun _ => rfl
    | cons r rest ih =>
        intro sub
        have here := hasKey_iff lowerKeys (lowerRequests r (sub List.mem_cons_self))
        unfold strippedFrom stripKeys
        rw [ih (index + 1) fun r' mem => sub (List.mem_cons_of_mem r mem), List.map_cons]
        congr 1
        unfold StripArgs.widened
        exact if_congr (and_congr_right fun _ => here.symm) rfl rfl
  exact from_ 0 requests (List.Subset.refl requests)

/-- What a candidate is recorded as. -/
def StripArgs.Candidate.flip (candidate : Candidate T) : WildcardLogFlip T :=
  ⟨candidate.key, candidate.addressCount⟩

/-- A request whose addresses can still be taken away. -/
def canFlip (isDiscovery : LogRequest A T → Bool) (keys : List (WildcardLogRequestKey T))
    (r : LogRequest A T) : Bool :=
  0 < addressCount r && !hasKey keys (Realtime.wildcardLogRequestKey r) && !isDiscovery r

/-- A request at its position, as the source lists it. -/
def candidateAt (lower : T → T) (r : LogRequest A T × Nat) : Candidate T :=
  ⟨r.2, normalizedKey lower (Realtime.wildcardLogRequestKey r.1), addressCount r.1⟩

/-- The source lists the same requests. -/
theorem candidates_eq {keys : List (WildcardLogRequestKey T)}
    (lowerRequests : ∀ r ∈ requests, Lowered lower (Realtime.wildcardLogRequestKey r))
    (lowerKeys : ∀ k ∈ keys, Lowered lower k) :
    (wireArgs lower isDiscovery bodySize requests).candidates (keys.map (normalizedKey lower)) =
      ((requests.zipIdx.filter fun r => canFlip isDiscovery keys r.1).map
        (candidateAt lower)).mergeSort Candidate.before := by
  have same : (requests.zipIdx.filter fun r => addressCount r.1 ≠ 0 &&
        decide (normalizedKey lower (Realtime.wildcardLogRequestKey r.1) ∉
          keys.map (normalizedKey lower)) && !isDiscovery r.1) =
      requests.zipIdx.filter fun r => canFlip isDiscovery keys r.1 := by
    apply List.filter_congr
    intro r mem
    have here := hasKey_iff lowerKeys (lowerRequests r.1 (List.fst_mem_of_mem_zipIdx mem))
    have some_ : (addressCount r.1 ≠ 0) = (0 < addressCount r.1) :=
      propext Nat.pos_iff_ne_zero.symm
    unfold canFlip
    simp only [some_, ← here, Bool.not_eq_true, Bool.decide_eq_false]
  exact congrArg (fun rs => (rs.map (candidateAt lower)).mergeSort Candidate.before) same

theorem candidates_increasing (p : LogRequest A T × Nat → Bool) :
    ((requests.zipIdx.filter p).map (candidateAt lower)).Pairwise
      fun a b => a.index < b.index := by
  rw [List.pairwise_map]
  refine List.Pairwise.filter p ?_
  show requests.zipIdx.Pairwise fun a b => a.2 < b.2
  rw [← List.pairwise_map (f := Prod.snd) (R := fun a b : Nat => a < b), List.zipIdx_map_snd]
  exact List.pairwise_lt_range'

/-- The candidates are the same, in the same order. -/
theorem candidates_wire {keys : List (WildcardLogRequestKey T)}
    (lowerRequests : ∀ r ∈ requests, Lowered lower (Realtime.wildcardLogRequestKey r))
    (lowerKeys : ∀ k ∈ keys, Lowered lower k) :
    ((wireArgs lower isDiscovery bodySize requests).candidates
        (keys.map (normalizedKey lower))).map Candidate.flip =
      (wildcardCandidates isDiscovery keys requests).map (normalizedFlip lower) := by
  -- without the positions, both sort one list
  have forget : ((requests.zipIdx.filter fun r => canFlip isDiscovery keys r.1).map
        (candidateAt lower)).map Candidate.flip =
      ((requests.filter (canFlip isDiscovery keys)).map fun r =>
        (⟨Realtime.wildcardLogRequestKey r, addressCount r⟩ : WildcardLogFlip T)).map
          (normalizedFlip lower) := by
    conv => rhs; rw [← List.zipIdx_map_fst 0 requests, List.filter_map]
    simp only [List.map_map]
    rfl
  rw [candidates_eq lowerRequests lowerKeys, mergeSort_before (candidates_increasing _),
    List.map_mergeSort (r := fun a b : Candidate T => decide (b.addressCount ≤ a.addressCount))
      (s := fun a b : WildcardLogFlip T => decide (b.addressCount ≤ a.addressCount))
      fun a _ b _ => rfl, forget]
  exact (List.map_mergeSort (f := normalizedFlip lower) fun a _ b _ => rfl).symm

/-- The loop says whether what it ends with fits. -/
theorem flipUntil_fits (isDiscovery : LogRequest A T → Bool)
    (fits : List (LogRequest A T) → Bool) (requests : List (LogRequest A T))
    (keys : List (WildcardLogRequestKey T)) (flipped fs : List (WildcardLogFlip T)) :
    (flipUntil isDiscovery fits requests keys flipped fs).2 =
      fits (flipUntil isDiscovery fits requests keys flipped fs).1.requests := by
  induction fs generalizing keys flipped with
  | nil => rfl
  | cons f fs ih =>
      unfold flipUntil
      by_cases has : hasKey keys f.key = true
      · rw [if_pos has]
        exact ih keys flipped
      · rw [if_neg has]
        by_cases now : fits (stripKeys isDiscovery (keys ++ [f.key]) requests) = true
        · simp only [now, if_true]
        · rw [if_neg now]
          exact ih (keys ++ [f.key]) (flipped ++ [f])

/-- The loops end alike. -/
theorem flip_wire {keys : List (WildcardLogRequestKey T)} {flipped fs : List (WildcardLogFlip T)}
    (lowerRequests : ∀ r ∈ requests, Lowered lower (Realtime.wildcardLogRequestKey r))
    (lowerKeys : ∀ k ∈ keys, Lowered lower k) (lowerFlips : ∀ f ∈ fs, Lowered lower f.key)
    {cs : List (Candidate T)} (same : cs.map Candidate.flip = fs.map (normalizedFlip lower))
    (exceeds : ¬ bodySize (stripKeys isDiscovery keys requests) < SHARD_BODY_BUDGET) :
    (wireArgs lower isDiscovery bodySize requests).flip cs
        (normalizedResult lower ⟨stripKeys isDiscovery keys requests, keys, flipped⟩) =
      (flipUntil isDiscovery (fun requests => decide (bodySize requests < SHARD_BODY_BUDGET))
        requests keys flipped fs).map (normalizedResult lower) id := by
  induction fs generalizing cs keys flipped with
  | nil =>
      cases List.map_eq_nil_iff.1 same
      show _ = (_, decide (bodySize (stripKeys isDiscovery keys requests) < SHARD_BODY_BUDGET))
      rw [decide_eq_false exceeds]
      rfl
  | cons f fs ih =>
      cases cs with
      | nil => cases same
      | cons c cs =>
          rw [List.map_cons, List.map_cons, List.cons.injEq] at same
          obtain ⟨here, rest⟩ := same
          have lowerHere := lowerFlips f List.mem_cons_self
          have lowerRest : ∀ f ∈ fs, Lowered lower f.key := fun f mem =>
            lowerFlips f (List.mem_cons_of_mem _ mem)
          have key : c.key = normalizedKey lower f.key := congrArg WildcardLogFlip.key here
          have count : c.addressCount = f.addressCount := congrArg WildcardLogFlip.addressCount here
          have known := hasKey_iff lowerKeys lowerHere
          have lowerMore : ∀ k ∈ keys ++ [f.key], Lowered lower k := by
            intro k mem
            rcases List.mem_append.1 mem with old | new
            · exact lowerKeys k old
            · rw [List.mem_singleton.1 new]
              exact lowerHere
          have more : (keys ++ [f.key]).map (normalizedKey lower) =
              keys.map (normalizedKey lower) ++ [normalizedKey lower f.key] := by
            rw [List.map_append]
            rfl
          have strip : (wireArgs lower isDiscovery bodySize requests).stripKey
              (stripKeys isDiscovery keys requests) (normalizedKey lower f.key) =
                stripKeys isDiscovery (keys ++ [f.key]) requests := by
            rw [← stripped_wire lowerRequests lowerKeys, stripKey_stripped, ← more,
              stripped_wire lowerRequests lowerMore]
          unfold StripArgs.flip flipUntil
          simp only [normalizedResult, key, count, strip]
          by_cases has : hasKey keys f.key = true
          · rw [if_pos (known.1 has), if_pos has]
            exact ih lowerKeys lowerRest rest exceeds
          · rw [if_neg fun mem => has (known.2 mem), if_neg has]
            by_cases fits : bodySize (stripKeys isDiscovery (keys ++ [f.key]) requests) <
                SHARD_BODY_BUDGET
            · simp only [decide_eq_true fits, if_true]
              rw [if_pos (show (wireArgs lower isDiscovery bodySize requests).fits _ = true from
                decide_eq_true fits)]
              simp [normalizedResult, normalizedFlip]
            · simp only [decide_eq_false fits, Bool.false_eq_true, if_false]
              rw [if_neg (show ¬ (wireArgs lower isDiscovery bodySize requests).fits _ = true from
                fun fits' => fits (of_decide_eq_true fits'))]
              refine Eq.trans ?_ (ih lowerMore lowerRest rest fits)
              simp [normalizedResult, normalizedFlip]

/-- On topics in one case, the strip of `WireRequests` is the source's, key for key. -/
theorem stripLogAddressesOverBudget_wire {wildcard : List (WildcardLogRequestKey T)}
    (lowerRequests : ∀ r ∈ requests, Lowered lower (Realtime.wildcardLogRequestKey r))
    (lowerKeys : ∀ k ∈ wildcard, Lowered lower k) (checks : CheckMode) :
    stripLogAddressesOverBudget checks (wireArgs lower isDiscovery bodySize requests)
        (wildcard.map (normalizedKey lower)) =
      (Realtime.stripLogAddressesOverBudget checks isDiscovery bodySize wildcard requests).map
        (normalizedResult lower) := by
  have lowerFlips : ∀ f ∈ wildcardCandidates isDiscovery wildcard requests,
      Lowered lower f.key := by
    intro f mem
    unfold wildcardCandidates at mem
    rw [List.mem_mergeSort, List.mem_map] at mem
    obtain ⟨r, passes, rfl⟩ := mem
    exact lowerRequests r (List.mem_filter.1 passes).1
  unfold stripLogAddressesOverBudget Realtime.stripLogAddressesOverBudget
  dsimp only
  rw [stripPrior_eq, stripped_wire lowerRequests lowerKeys]
  by_cases fits : bodySize (stripKeys isDiscovery wildcard requests) < SHARD_BODY_BUDGET
  · rw [if_pos (show (wireArgs lower isDiscovery bodySize requests).fits _ = true from
      decide_eq_true fits), if_pos (decide_eq_true fits)]
    rfl
  · rw [if_neg (show ¬ (wireArgs lower isDiscovery bodySize requests).fits _ = true from
      fun fits' => fits (of_decide_eq_true fits')), if_neg fun fits' => fits (of_decide_eq_true fits')]
    have loop : (wireArgs lower isDiscovery bodySize requests).flip
        ((wireArgs lower isDiscovery bodySize requests).candidates
          (wildcard.map (normalizedKey lower)))
        (normalizedResult lower ⟨stripKeys isDiscovery wildcard requests, wildcard, []⟩) = _ :=
      flip_wire lowerRequests lowerKeys lowerFlips (candidates_wire lowerRequests lowerKeys) fits
    have fitted := flipUntil_fits isDiscovery
      (fun requests => decide (bodySize requests < SHARD_BODY_BUDGET)) requests wildcard []
      (wildcardCandidates isDiscovery wildcard requests)
    have start : (⟨stripKeys isDiscovery wildcard requests, wildcard.map (normalizedKey lower), []⟩ :
        WildcardLogRequestsResult A T) =
        normalizedResult lower ⟨stripKeys isDiscovery wildcard requests, wildcard, []⟩ := rfl
    rw [start, loop]
    generalize flipUntil isDiscovery _ requests wildcard []
      (wildcardCandidates isDiscovery wildcard requests) = outcome at fitted
    obtain ⟨result, fitsNow⟩ := outcome
    cases fitsNow with
    | true =>
        show _ = Except.map _ (do invariant checks "#196" true _; pure result)
        rw [invariant_of_holds]
        rfl
    | false =>
        show (do
          invariant checks "#196" (decide (bodySize result.requests < SHARD_BODY_BUDGET))
            (overBudget (bodySize result.requests))
          pure (normalizedResult lower result)) =
            Except.map _ (do invariant checks "#196" false _; pure result)
        rw [← fitted]
        cases invariant checks "#196" false (overBudget (bodySize result.requests)) <;> rfl

end Wire

/-! ## A body over the budget -/

/-- A discovery request, two requests of one key and a larger one of another. -/
def sampleArgs : StripArgs Nat Nat where
  lower := fun t => if t < 50 then t + 50 else t
  isDiscovery := fun _ index => index = 0
  bodySize := fun requests => (requests.map fun r => 10 + 10 * addressCount r).sum
  budget := 80
  requests := [⟨some [1], some [7], none, none, none, true⟩,
    ⟨some [1, 2], some [7], none, none, none, true⟩,
    ⟨some [3], some [57], none, none, none, true⟩,
    ⟨some [4, 5, 6], some [8, 9], none, none, none, true⟩]

/-- With both keys widened the body fits, so that the call returns. -/
theorem stripLogAddressesOverBudget_sample :
    ∃ result, stripLogAddressesOverBudget .on sampleArgs [] = .ok result ∧
      Stripped .on sampleArgs [] result := by
  rcases stripLogAddressesOverBudget_sound (show CheckMode.on ≠ .off by decide) sampleArgs [] with
    returns | ⟨v, -, ⟨keys, all, exceeds, -⟩⟩
  · exact returns
  · have second := all 1 _ rfl rfl (by decide)
    have third := all 2 _ rfl rfl (by decide)
    have fourth := all 3 _ rfl rfl (by decide)
    rw [List.nil_append] at exceeds second third fourth
    have small : sampleArgs.bodySize (sampleArgs.stripped keys) = 50 := by
      show sampleArgs.bodySize [sampleArgs.widened keys _ 0, sampleArgs.widened keys _ 1,
        sampleArgs.widened keys _ 2, sampleArgs.widened keys _ 3] = 50
      simp only [widened, second, third, fourth]
      simp [sampleArgs, addressCount, withoutAddress]
    rw [small] at exceeds
    exact absurd exceeds (by decide)

end PortalPonder.Realtime.Wildcards
