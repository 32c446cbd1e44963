import Mathlib.Algebra.BigOperators.Fin
import PortalPonder.Client.Gate
import PortalPonder.Historical.ChunkCoverage

/-!
# The row budget

The rows that the chunk caches of all chains hold are counted by the gate they share. The token of
an entry counts the rows its fetches registered, and is freed when the entry leaves the cache: by
eviction, by a rejected fetch, or by a reset of the grid. A failed check of the gate ends the run.
-/

namespace PortalPonder.Historical

open Client (GateState GateEvent GateLimits gateReduce gateInit)

structure RowToken where
  rows : Nat
  freed : Bool
  deriving DecidableEq, Repr

/-- The sync of one chain: its cache, and the token of each entry by its position. -/
structure ChainSync (F A Q : Type) where
  cache : Cache F A Q
  tokens : List RowToken

/-- A call of `gate.freeRows` for an entry of a chain, and the count before it. -/
structure FreeRows (n : Nat) where
  chain : Fin n
  entry : Nat
  rows : Nat
  before : Int

def FreeRows.token {n : Nat} (f : FreeRows n) : Fin n × Nat := (f.chain, f.entry)

/-- The gate and the chains that share it. -/
structure Budget (F A Q : Type) (n : Nat) where
  gate : GateState
  chains : Fin n → ChainSync F A Q
  /-- the calls of `gate.freeRows` -/
  frees : List (FreeRows n)
  /-- a request has been admitted -/
  admitted : Bool

inductive BudgetAction (n : Nat) where
  | cache (c : Fin n) (a : CacheAction)
  /-- `count` rows arrive for operation `k` of an entry -/
  | batch (c : Fin n) (entry k count : Nat)
  /-- what requests do to the gate -/
  | request (e : GateEvent)

/-- An operation of the entry has failed, and its handler has run. -/
def Entry.Rejected {F A Q : Type} (e : Entry F A Q) : Prop := ∃ op ∈ e.ops, op.status = .handled

namespace ChainSync

variable {F A Q : Type}

/-- The rows of the tokens that are not freed. -/
def buffered (tokens : List RowToken) : Nat :=
  ((tokens.filter fun t => t.freed = false).map RowToken.rows).sum

/-- The entry is in the cache. -/
def Live (s : Cache F A Q) (id : Nat) : Prop := ∃ idx, s.dataCache.get? idx = some id

/-- A new entry comes with its token. -/
def withTokens (cache : Cache F A Q) (tokens : List RowToken) : ChainSync F A Q where
  cache := cache
  tokens := if tokens.length < cache.entries.length then tokens ++ [⟨0, false⟩] else tokens

/-- The operation is streaming. -/
def streams (s : ChainSync F A Q) (id k : Nat) : Bool :=
  match (s.cache.entries[id]?).bind fun e => e.statusOf k with
  | some (.streaming ..) => true
  | _ => false

/-- The entries whose tokens a step of the cache frees, in its order. -/
def freedBy (deps : SyncDeps F A Q) (s : Cache F A Q) : CacheAction → List Nat
  | .handle id _ => [id]
  | .evictBehind intervalStart =>
      (evictionPlan s.dataCache.keys s.chunkBlocks intervalStart).filterMap s.dataCache.get?
  | .capGrid =>
      if traceSafeChunkBlocks s.chunkBlocks deps.dense deps.traceChunkBlocks ≠ s.chunkBlocks then
        s.dataCache.entries.map Prod.snd
      else []
  | _ => []

end ChainSync

namespace Budget

variable {F A Q : Type} {n : Nat}

def setChain (s : Budget F A Q n) (c : Fin n) (chain : ChainSync F A Q) : Budget F A Q n :=
  { s with chains := Function.update s.chains c chain }

/-- The token of an entry of chain `c`, with what it counts. -/
def setToken (s : Budget F A Q n) (c : Fin n) (id : Nat) (t : RowToken) : Budget F A Q n :=
  s.setChain c { s.chains c with tokens := (s.chains c).tokens.set id t }

/-- `freeToken` -/
def freeToken (mode : CheckMode) (c : Fin n) (s : Budget F A Q n) (id : Nat) :
    Option (Budget F A Q n) :=
  match (s.chains c).tokens[id]? with
  | none => none
  | some t =>
      if t.freed = true then some s
      else
        match gateReduce mode s.gate (.freeRows t.rows) with
        | .error _ => none
        | .ok gate =>
            some { s.setToken c id { t with freed := true } with
              gate := gate
              frees := s.frees ++ [⟨c, id, t.rows, s.gate.rows⟩] }

/-- `onRows`: a freed token counts nothing. -/
def onRows (mode : CheckMode) (s : Budget F A Q n) (c : Fin n) (id count : Nat) :
    Option (Budget F A Q n) :=
  match (s.chains c).tokens[id]? with
  | none => none
  | some t =>
      if t.freed = true then some s
      else
        match gateReduce mode s.gate (.addRows count) with
        | .error _ => none
        | .ok gate =>
            some { s.setToken c id { t with rows := t.rows + count } with gate := gate }

def freeTokens (mode : CheckMode) (c : Fin n) : Budget F A Q n → List Nat → Option (Budget F A Q n)
  | s, [] => some s
  | s, id :: ids => (s.freeToken mode c id).bind fun t => t.freeTokens mode c ids

/-- What a request does to the gate; the rows are the syncs' own. -/
def ofRequest : GateEvent → Bool
  | .admitted | .release | .ok | .throttle => true
  | .addRows _ | .freeRows _ => false

variable [DecidableEq F] [DecidableEq A]

def step (mode : CheckMode) (deps : Fin n → SyncDeps F A Q) (s : Budget F A Q n) :
    BudgetAction n → Option (Budget F A Q n)
  | .cache c a =>
      match (s.chains c).cache.step (deps c) a with
      | none => none
      | some cache =>
          (s.setChain c (.withTokens cache (s.chains c).tokens)).freeTokens mode c
            (ChainSync.freedBy (deps c) (s.chains c).cache a)
  | .batch c id k count =>
      if (s.chains c).streams id k = true ∧ s.admitted = true then s.onRows mode c id count
      else none
  | .request e =>
      if ofRequest e = true then
        match gateReduce mode s.gate e with
        | .error _ => none
        | .ok gate => some { s with gate := gate, admitted := s.admitted || e = .admitted }
      else none

def init (deps : Fin n → SyncDeps F A Q) (limits : GateLimits) (start : Int) : Budget F A Q n where
  gate := gateInit limits start
  chains := fun c => ⟨.init (deps c), []⟩
  frees := []
  admitted := false

/-- The rows that the gate should count. -/
def buffered (s : Budget F A Q n) : Nat := ∑ c, ChainSync.buffered (s.chains c).tokens

/-- The accounts are right. -/
structure Settled (s : Budget F A Q n) : Prop where
  /-- the count is the rows of the tokens that are not freed -/
  counted : s.gate.rows = s.buffered
  /-- these are the tokens of the cached entries -/
  live : ∀ c id t, (s.chains c).tokens[id]? = some t → 
    (t.freed = false ↔ ChainSync.Live (s.chains c).cache id)
  /-- every entry has a token -/
  paired : ∀ c, (s.chains c).tokens.length = (s.chains c).cache.entries.length
  /-- a token is freed once -/
  once : (s.frees.map FreeRows.token).Nodup
  freed : ∀ c id t, (s.chains c).tokens[id]? = some t →
    (t.freed = true ↔ (c, id) ∈ s.frees.map FreeRows.token)
  /-- the count is large enough for what is freed -/
  unclamped : ∀ f ∈ s.frees, (f.rows : Int) ≤ f.before

end Budget

/-! ## Which entries are cached -/

namespace ChainSync

variable {F A Q : Type} {deps : SyncDeps F A Q} {s t : Cache F A Q}

/-- A cached entry has the index it is cached under, and none of its fetches is rejected. -/
def Keyed (s : Cache F A Q) : Prop :=
  ∀ idx id, s.dataCache.get? idx = some id →
    ∃ e, s.entries[id]? = some e ∧ e.idx = idx ∧ ¬ e.Rejected

/-- An entry after a step that rejects none of its fetches. -/
def Follows (e e' : Entry F A Q) : Prop := e'.idx = e.idx ∧ (e'.Rejected → e.Rejected)

theorem follows_refl (e : Entry F A Q) : Follows e e := ⟨rfl, id⟩

theorem follows_push {e : Entry F A Q} {op : Op F A Q} (fresh : op.status ≠ .handled) :
    Follows e (e.push op) := by
  refine ⟨rfl, ?_⟩
  rintro ⟨op', mem, handled⟩
  rcases List.mem_append.1 mem with old | new
  · exact ⟨op', old, handled⟩
  · rw [List.mem_singleton.1 new] at handled
    exact absurd handled fresh

theorem follows_setOp {e : Entry F A Q} (k : Nat) {op : Op F A Q} (fresh : op.status ≠ .handled) :
    Follows e (e.setOp k op) := by
  refine ⟨rfl, ?_⟩
  rintro ⟨op', mem, handled⟩
  rcases List.mem_or_eq_of_mem_set mem with old | new
  · exact ⟨op', old, handled⟩
  · rw [new] at handled
    exact absurd handled fresh

theorem follows_repairPrefix (e : Entry F A Q) (activeNeed : Option Interval) (opts : EnsureOpts) :
    Follows e (e.repairPrefix activeNeed opts) := by
  unfold Entry.repairPrefix
  cases activeNeed with
  | none => exact follows_refl e
  | some need =>
      by_cases inside : need.1 < e.coveredFrom ∧ need.2 ≥ e.coveredFrom
      · simp only [if_pos inside]
        exact follows_push (e := { e with coveredFrom := need.1 }) (by simp [Op.planned])
      · simp only [if_neg inside]
        exact follows_refl e

theorem follows_serve (e : Entry F A Q) (desiredTo needTo quantum : Nat) (opts : EnsureOpts) :
    Follows e (e.serve desiredTo needTo quantum opts) := by
  unfold Entry.serve
  by_cases hit : needTo ≤ e.coveredTo
  · rw [if_pos hit]
    exact follows_refl e
  · rw [if_neg hit]
    exact follows_push (e := { e with coveredTo := _ }) (by simp [Op.planned])

/-- A step that caches nothing, drops nothing and rejects nothing. -/
structure Still (s t : Cache F A Q) : Prop where
  length : t.entries.length = s.entries.length
  entries : ∀ (id : Nat) (e : Entry F A Q), s.entries[id]? = some e →
    ∃ e' : Entry F A Q, t.entries[id]? = some e' ∧ Follows e e'
  dataCache : t.dataCache = s.dataCache

theorem Still.of_eq (entries : t.entries = s.entries) (dataCache : t.dataCache = s.dataCache) :
    Still s t where
  length := by rw [entries]
  entries := fun _ e at_ => ⟨e, entries ▸ at_, follows_refl e⟩
  dataCache := dataCache

theorem Still.setEntry {u : Cache F A Q} (same : Still s u) {id : Nat} {e e' : Entry F A Q}
    (here : s.entries[id]? = some e) (follows : Follows e e') : Still s (u.setEntry id e') where
  length := by
    show (u.entries.set id e').length = s.entries.length
    rw [List.length_set]
    exact same.length
  entries := by
    intro id' e₀ at_
    show ∃ e'', (u.entries.set id e')[id']? = some e'' ∧ _
    by_cases this : id = id'
    · subst this
      rw [here] at at_
      cases at_
      have inside := (List.getElem?_eq_some_iff.1 here).1
      exact ⟨e', List.getElem?_set_self (same.length ▸ inside), follows⟩
    · rw [List.getElem?_set_ne this]
      exact same.entries id' e₀ at_
  dataCache := same.dataCache

theorem Still.keyed (still : Still s t) (keyed : Keyed s) : Keyed t := by
  intro idx id found
  rw [still.dataCache] at found
  obtain ⟨e, here, at_, kept⟩ := keyed idx id found
  obtain ⟨e', here', idx', rejected⟩ := still.entries id e here
  exact ⟨e', here', idx'.trans at_, fun r => kept (rejected r)⟩

/-- What a step makes of the cached entries. -/
structure Moved (deps : SyncDeps F A Q) (s : Cache F A Q) (a : CacheAction) (t : Cache F A Q) :
    Prop where
  keyed : Keyed t
  /-- an entry stays cached unless its token is freed -/
  old : ∀ id < s.entries.length, (Live t id ↔ Live s id ∧ id ∉ freedBy deps s a)
  /-- a new entry is cached -/
  grown : t.entries.length = s.entries.length ∨
    t.entries.length = s.entries.length + 1 ∧ Live t s.entries.length
  freed : ∀ id ∈ freedBy deps s a, id < s.entries.length

theorem Still.moved (still : Still s t) (keyed : Keyed s) {a : CacheAction}
    (none_ : freedBy deps s a = []) : Moved deps s a t where
  keyed := still.keyed keyed
  old := by
    intro id _
    rw [none_]
    simp only [Live, still.dataCache, List.not_mem_nil, not_false_eq_true, and_true]
  grown := .inl still.length
  freed := by
    rw [none_]
    intro id mem
    cases mem

theorem Keyed.inside (keyed : Keyed s) {id : Nat} (live : Live s id) : id < s.entries.length := by
  obtain ⟨idx, found⟩ := live
  obtain ⟨e, here, -⟩ := keyed idx id found
  exact (List.getElem?_eq_some_iff.1 here).1

/-- An entry is cached under one index. -/
theorem Keyed.unique (keyed : Keyed s) {idx idx' id : Nat} (found : s.dataCache.get? idx = some id)
    (found' : s.dataCache.get? idx' = some id) : idx = idx' := by
  obtain ⟨e, here, at_, -⟩ := keyed idx id found
  obtain ⟨e', here', at', -⟩ := keyed idx' id found'
  rw [here] at here'
  cases here'
  exact at_.symm.trans at'

/-- A step that drops entries from the cache, those it frees. -/
theorem moved_of_dropped {a : CacheAction} (keyed : Keyed s)
    (length : t.entries.length = s.entries.length)
    (found : ∀ idx id, t.dataCache.get? idx = some id ↔
      s.dataCache.get? idx = some id ∧ id ∉ freedBy deps s a)
    (kept : ∀ id e, id ∉ freedBy deps s a → s.entries[id]? = some e →
      ∃ e', t.entries[id]? = some e' ∧ Follows e e')
    (freed : ∀ id ∈ freedBy deps s a, id < s.entries.length) : Moved deps s a t where
  keyed := by
    intro idx id at_
    obtain ⟨e, here, isIdx, fine⟩ := keyed idx id ((found idx id).1 at_).1
    obtain ⟨e', here', idx', rejected⟩ := kept id e ((found idx id).1 at_).2 here
    exact ⟨e', here', idx'.trans isIdx, fun r => fine (rejected r)⟩
  old := by
    intro id _
    constructor
    · rintro ⟨idx, at_⟩
      exact ⟨⟨idx, ((found idx id).1 at_).1⟩, ((found idx id).1 at_).2⟩
    · rintro ⟨⟨idx, at_⟩, out⟩
      exact ⟨idx, (found idx id).2 ⟨at_, out⟩⟩
  grown := .inl length
  freed := freed

theorem moved_handle {id k : Nat} (keyed : Keyed s) (taken : s.handle id k = some t) :
    Moved deps s (.handle id k) t := by
  obtain ⟨e, op, here, acts⟩ := Cache.lookup taken
  have isFailed : op.status = .failed := by
    cases status : op.status with
    | failed => rfl
    | _ =>
        rw [status] at acts
        cases acts
  rw [isFailed] at acts
  have gone : t = if s.dataCache.get? e.idx = some id then
      { s.setEntry id (e.setOp k { op with status := .handled }) with
        dataCache := s.dataCache.delete e.idx }
    else s.setEntry id (e.setOp k { op with status := .handled }) := (Option.some.inj acts).symm
  have entries : t.entries = s.entries.set id (e.setOp k { op with status := .handled }) := by
    rw [gone]
    split <;> rfl
  have inside := (List.getElem?_eq_some_iff.1 here.entry).1
  refine moved_of_dropped keyed ?_ ?_ ?_ ?_
  · rw [entries, List.length_set]
  · intro idx id'
    -- the entry can only be cached under its own index
    have own : s.dataCache.get? idx = some id → idx = e.idx := by
      intro at_
      obtain ⟨e', here', isIdx, -⟩ := keyed idx id at_
      rw [here.entry] at here'
      cases here'
      exact isIdx.symm
    simp only [freedBy, List.mem_singleton]
    by_cases cached : s.dataCache.get? e.idx = some id
    · have dropped : t.dataCache = s.dataCache.delete e.idx := by rw [gone, if_pos cached]
      rw [dropped, OrdMap.get?_delete]
      by_cases isIdx : idx = e.idx
      · rw [if_pos isIdx, isIdx, cached]
        constructor
        · intro none_
          cases none_
        · rintro ⟨same, other⟩
          exact absurd (Option.some.inj same).symm other
      · rw [if_neg isIdx]
        refine ⟨fun at_ => ⟨at_, ?_⟩, And.left⟩
        rintro rfl
        exact isIdx (own at_)
    · have same : t.dataCache = s.dataCache := by
        rw [gone, if_neg cached]
        rfl
      rw [same]
      refine ⟨fun at_ => ⟨at_, ?_⟩, And.left⟩
      rintro rfl
      exact cached (own at_ ▸ at_)
  · intro id' e' out here'
    have other : id' ≠ id := fun same => out (List.mem_singleton.2 same)
    refine ⟨e', ?_, follows_refl e'⟩
    rw [entries, List.getElem?_set_ne (Ne.symm other)]
    exact here'
  · intro id' mem
    rw [List.mem_singleton.1 mem]
    exact inside

theorem get?_deleteAll (keys : List Nat) (m : OrdMap Nat Nat) (idx : Nat) :
    (keys.foldl OrdMap.delete m).get? idx = if idx ∈ keys then none else m.get? idx := by
  induction keys generalizing m with
  | nil => rfl
  | cons key keys ih =>
      rw [List.foldl_cons, ih, OrdMap.get?_delete]
      by_cases later : idx ∈ keys
      · rw [if_pos later, if_pos (List.mem_cons_of_mem _ later)]
      · by_cases here : idx = key
        · rw [if_neg later, if_pos here, if_pos (List.mem_cons.2 (.inl here))]
        · have out : idx ∉ key :: keys := by
            rintro (_ | ⟨_, mem⟩)
            · exact here rfl
            · exact later mem
          rw [if_neg later, if_neg here, if_neg out]

theorem moved_evictBehind (keyed : Keyed s) (intervalStart : Nat) :
    Moved deps s (.evictBehind intervalStart) (s.evictBehind intervalStart) := by
  refine moved_of_dropped keyed rfl ?_ (fun _ e _ here => ⟨e, here, follows_refl e⟩) ?_
  · intro idx id
    have drops := get?_deleteAll (evictionPlan s.dataCache.keys s.chunkBlocks intervalStart)
      s.dataCache idx
    show ((evictionPlan _ _ _).foldl OrdMap.delete s.dataCache).get? idx = some id ↔ _
    rw [drops]
    simp only [freedBy, List.mem_filterMap, not_exists, not_and]
    by_cases planned : idx ∈ evictionPlan s.dataCache.keys s.chunkBlocks intervalStart
    · rw [if_pos planned]
      constructor
      · intro none_
        cases none_
      · rintro ⟨at_, out⟩
        exact absurd at_ (out idx planned)
    · rw [if_neg planned]
      refine ⟨fun at_ => ⟨at_, ?_⟩, And.left⟩
      intro idx' planned' at'
      exact planned (keyed.unique at_ at' ▸ planned')
  · intro id mem
    obtain ⟨idx, -, at_⟩ := List.mem_filterMap.1 mem
    exact keyed.inside ⟨idx, at_⟩

theorem moved_capGrid (keyed : Keyed s) : Moved deps s .capGrid (s.capGrid deps) := by
  by_cases capped :
      traceSafeChunkBlocks s.chunkBlocks deps.dense deps.traceChunkBlocks ≠ s.chunkBlocks
  · have frees : freedBy deps s .capGrid = s.dataCache.entries.map Prod.snd := if_pos capped
    have cleared : (s.capGrid deps).dataCache = OrdMap.empty := by
      unfold Cache.capGrid
      rw [if_pos capped]
      rfl
    have entries : (s.capGrid deps).entries = s.entries := by
      unfold Cache.capGrid
      rw [if_pos capped]
      rfl
    refine moved_of_dropped keyed (by rw [entries]) ?_
      (fun _ e _ here => ⟨e, entries ▸ here, follows_refl e⟩) ?_
    · intro idx id
      rw [cleared, frees]
      constructor
      · intro at_
        cases at_
      · rintro ⟨at_, out⟩
        exact absurd (List.mem_map.2 ⟨(idx, id), s.dataCache.mem_of_get? at_, rfl⟩) out
    · intro id mem
      rw [frees] at mem
      obtain ⟨⟨idx, id'⟩, inMap, rfl⟩ := List.mem_map.1 mem
      exact keyed.inside ⟨idx, s.dataCache.get?_of_mem inMap⟩
  · have same : s.capGrid deps = s := by
      unfold Cache.capGrid
      rw [if_neg capped]
    rw [same]
    exact Still.moved (.of_eq rfl rfl) keyed (if_neg capped)

theorem moved_initialFetch (keyed : Keyed s) {idx : Nat} (free : s.dataCache.get? idx = none)
    (need : Option Interval) (bounds : Interval) (opts : EnsureOpts)
    (entries : t.entries = (s.initialFetch deps idx bounds opts).entries)
    (dataCache : t.dataCache = (s.initialFetch deps idx bounds opts).dataCache) :
    Moved deps s (.dataChunk idx need) t := by
  have found : ∀ idx', t.dataCache.get? idx' =
      if idx' = idx then some s.entries.length else s.dataCache.get? idx' := by
    intro idx'
    rw [dataCache]
    exact s.dataCache.get?_set idx s.entries.length idx'
  have old : ∀ id < s.entries.length, t.entries[id]? = s.entries[id]? := by
    intro id inside
    rw [entries]
    exact List.getElem?_append_left inside
  refine ⟨?_, ?_, .inr ⟨?_, idx, ?_⟩, ?_⟩
  · intro idx' id at_
    rw [found] at at_
    by_cases isNew : idx' = idx
    · rw [if_pos isNew] at at_
      cases at_
      refine ⟨{ idx := idx
                chunkBlocks := s.chunkBlocks
                coveredFrom := bounds.1
                coveredTo := bounds.2
                ops := [.planned bounds.1 bounds.2 opts (.gated (s.ensure deps bounds.2 opts).2)] },
        ?_, isNew.symm, ?_⟩
      · rw [entries]
        exact List.getElem?_concat_length
      · rintro ⟨op, mem, handled⟩
        rw [List.mem_singleton.1 mem] at handled
        cases handled
    · rw [if_neg isNew] at at_
      rw [old id (keyed.inside ⟨idx', at_⟩)]
      exact keyed idx' id at_
  · intro id inside
    simp only [freedBy, List.not_mem_nil, not_false_eq_true, and_true]
    constructor
    · rintro ⟨idx', at_⟩
      rw [found] at at_
      by_cases isNew : idx' = idx
      · rw [if_pos isNew] at at_
        cases at_
        exact absurd inside (Nat.lt_irrefl _)
      · rw [if_neg isNew] at at_
        exact ⟨idx', at_⟩
    · rintro ⟨idx', at_⟩
      refine ⟨idx', ?_⟩
      rw [found, if_neg]
      · exact at_
      · rintro rfl
        rw [free] at at_
        cases at_
  · rw [entries]
    exact List.length_append
  · rw [found, if_pos rfl]
  · intro id mem
    cases mem

theorem cached_none (keyed : Keyed s) {idx : Nat} (none_ : s.cached idx = none) :
    s.dataCache.get? idx = none := by
  cases found : s.dataCache.get? idx with
  | none => rfl
  | some id =>
      obtain ⟨e, here, -⟩ := keyed idx id found
      simp [Cache.cached, found, here] at none_

/-- A call that returns a promise. -/
inductive Called (deps : SyncDeps F A Q) (s : Cache F A Q) (idx : Nat) : Cache F A Q → Prop
  | fromCache {id e e'} (here : s.cached idx = some (id, e)) (follows : Follows e e') :
      Called deps s idx (s.setEntry id e')
  | fetched {bounds opts} (absent : s.cached idx = none) :
      Called deps s idx (s.initialFetch deps idx bounds opts)

theorem dataChunk_called {idx : Nat} {need : Option Interval} {result : Cache F A Q × Nat × Nat}
    (ok : s.dataChunk deps idx need = .ok result) : Called deps s idx result.1 := by
  unfold Cache.dataChunk at ok
  dsimp only at ok
  generalize chunkRange idx s.chunkBlocks deps.backfillStart (s.dataEnd deps) = range at ok
  cases nine : invariant deps.checks "INV-9" (s.portalHead.all fun head => range.2 ≤ head)
      "data request targets past the Portal finalized head" with
  | error violation =>
      rw [nine] at ok
      cases ok
  | ok _ =>
      rw [nine] at ok
      cases found : s.cached idx with
      | none =>
          rw [found] at ok
          cases ok
          exact .fetched found
      | some hit =>
          obtain ⟨id, e⟩ := hit
          rw [found] at ok
          dsimp only at ok
          have repaired := follows_repairPrefix e (deps.activeNeed need)
            ⟨s.chunkBlocks, (s.dataEnd deps).getD range.2⟩
          generalize e.repairPrefix (deps.activeNeed need) _ = e₁ at ok repaired
          cases nineteen : invariant deps.checks "INV-19"
              ((deps.activeNeed need).all fun n => n.1 ≥ e₁.coveredFrom)
              "cache entry starts after requested interval" with
          | error violation =>
              simp only [nineteen] at ok
              cases ok
          | ok _ =>
              simp only [nineteen] at ok
              cases ok
              refine .fromCache found ?_
              obtain ⟨idx', rejected⟩ := follows_serve e₁ range.2 (deps.needTo need range.2)
                s.quantum ⟨s.chunkBlocks, (s.dataEnd deps).getD range.2⟩
              exact ⟨idx'.trans repaired.1, fun r => repaired.2 (rejected r)⟩

theorem moved_call (keyed : Keyed s) (idx : Nat) (need : Option Interval) :
    Moved deps s (.dataChunk idx need) (s.call deps idx need) := by
  unfold Cache.call
  cases result : s.dataChunk deps idx need with
  | error v => exact Still.moved (.of_eq rfl rfl) keyed rfl
  | ok r =>
      obtain ⟨s', id, k⟩ := r
      dsimp only
      have called := dataChunk_called result
      dsimp only at called
      cases called with
      | fetched absent => exact moved_initialFetch keyed (cached_none keyed absent) need _ _ rfl rfl
      | @fromCache id e e' here follows =>
          have entry : s.entries[id]? = some e := by
            obtain ⟨id', -, rest⟩ := Option.bind_eq_some_iff.1 here
            obtain ⟨e₀, at_, same⟩ := Option.map_eq_some_iff.1 rest
            cases same
            exact at_
          have still : Still s (s.setEntry id e') := Still.setEntry (.of_eq rfl rfl) entry follows
          refine Still.moved ?_ keyed rfl
          exact ⟨still.length, still.entries, still.dataCache⟩

theorem moved_setOp {id k : Nat} {e : Entry F A Q} {op : Op F A Q} {u : Cache F A Q}
    {a : CacheAction} (keyed : Keyed s) (same : Still s u) (here : s.entries[id]? = some e)
    (fresh : op.status ≠ .handled) (none_ : freedBy deps s a = []) :
    Moved deps s a (u.setEntry id (e.setOp k op)) :=
  (same.setEntry here (follows_setOp k fresh)).moved keyed none_

theorem openSource_fresh (known : Children F A) (op : Op F A Q) (source : Source) :
    (op.openSource deps known source).status ≠ .handled := by
  unfold Op.openSource
  split <;> simp

theorem moved_pass {id k : Nat} (keyed : Keyed s) (taken : s.pass deps id k = some t) :
    Moved deps s (.pass id k) t := by
  obtain ⟨e, op, here, acts⟩ := Cache.lookup taken
  cases gate : op.status with
  | gated promise =>
      rw [gate] at acts
      by_cases resolved : s.disc.disc.isResolved promise = true
      · simp only [if_pos resolved] at acts
        split at acts
        · cases acts
          exact moved_setOp keyed (.of_eq rfl rfl) here.entry (openSource_fresh _ _ _) rfl
        · cases acts
          exact moved_setOp keyed (.of_eq rfl rfl) here.entry (by simp) rfl
      · simp only [if_neg resolved] at acts
        cases acts
  | _ =>
      rw [gate] at acts
      cases acts

theorem advanced_fresh {known : Children F A} {op op' : Op F A Q}
    (advanced : op.advance deps known = some op') : op'.status ≠ .handled := by
  cases advance_cases advanced with
  | _ => first | exact openSource_fresh _ _ _ | simp

theorem moved_advance {id k : Nat} (keyed : Keyed s) (taken : s.advance deps id k = some t) :
    Moved deps s (.advance id k) t := by
  obtain ⟨e, op, here, acts⟩ := Cache.lookup taken
  obtain ⟨op', moved, rest⟩ := Option.bind_eq_some_iff.1 acts
  have base : Still s (s.setEntry id (e.setOp k op')) :=
    Still.setEntry (.of_eq rfl rfl) here.entry (follows_setOp k (advanced_fresh moved))
  split at rest
  · cases rest
    refine Still.moved ?_ keyed rfl
    unfold Cache.growFetchQuantum
    split
    · exact base
    · exact ⟨base.length, base.entries, base.dataCache⟩
  · cases rest
    exact base.moved keyed rfl

variable [DecidableEq F] [DecidableEq A]

/-- One step of the cache. -/
theorem moved_step (keyed : Keyed s) {a : CacheAction} (taken : s.step deps a = some t) :
    Moved deps s a t := by
  cases a with
  | dataChunk idx need =>
      by_cases sized : s.sized = true
      · rw [Cache.step, if_pos sized] at taken
        cases taken
        exact moved_call keyed idx need
      · rw [Cache.step, if_neg sized] at taken
        cases taken
  | enter id k =>
      obtain ⟨e, op, here, -, -, rfl⟩ := Cache.enter_cases taken
      exact moved_setOp keyed (.of_eq rfl rfl) here.entry (by simp) rfl
  | pass id k => exact moved_pass keyed taken
  | advance id k => exact moved_advance keyed taken
  | fail id k =>
      obtain ⟨e, op, here, -, rfl⟩ := Cache.fail_cases taken
      exact moved_setOp keyed (.of_eq rfl rfl) here.entry (by simp) rfl
  | handle id k => exact moved_handle keyed taken
  | refreshPortalHead h =>
      cases taken
      refine Still.moved ?_ keyed rfl
      exact .of_eq rfl rfl
  | ensureChunkSize h =>
      by_cases sized : s.sized = true
      · rw [Cache.step, if_pos sized] at taken
        cases taken
      · rw [Cache.step, if_neg sized] at taken
        cases taken
        refine Still.moved ?_ keyed rfl
        unfold Cache.ensureChunkSize
        split <;> exact .of_eq rfl rfl
  | capGrid =>
      by_cases sized : s.sized = true
      · rw [Cache.step, if_pos sized] at taken
        cases taken
        exact moved_capGrid keyed
      · rw [Cache.step, if_neg sized] at taken
        cases taken
  | pinDiscoveryFloor =>
      cases taken
      refine Still.moved ?_ keyed rfl
      unfold Cache.pinDiscoveryFloor
      split <;> exact .of_eq rfl rfl
  | seed throughBlock =>
      cases taken
      refine Still.moved ?_ keyed rfl
      unfold Cache.seed
      split <;> exact .of_eq rfl rfl
  | evictBehind intervalStart =>
      cases taken
      exact moved_evictBehind keyed intervalStart
  | discovery a =>
      by_cases own : background a = true
      · rw [Cache.step, if_pos own] at taken
        obtain ⟨disc, _, rfl⟩ := Option.map_eq_some_iff.1 taken
        refine Still.moved ?_ keyed rfl
        exact .of_eq rfl rfl
      · rw [Cache.step, if_neg own] at taken
        cases taken

end ChainSync

/-! ## The accounts -/

/-- What a token contributes to the count. -/
def RowToken.held (t : RowToken) : Nat := if t.freed = true then 0 else t.rows

namespace ChainSync

theorem buffered_eq (tokens : List RowToken) :
    buffered tokens = (tokens.map RowToken.held).sum := by
  induction tokens with
  | nil => rfl
  | cons t rest ih =>
      unfold buffered at ih ⊢
      rw [List.map_cons, List.sum_cons, ← ih]
      cases freed : t.freed with
      | true => simp [freed, RowToken.held]
      | false => simp [freed, RowToken.held]

/-- Replacing a token moves the rows by what it contributes. -/
theorem buffered_set {tokens : List RowToken} {id : Nat} {t : RowToken} (t' : RowToken)
    (here : tokens[id]? = some t) :
    buffered (tokens.set id t') + t.held = buffered tokens + t'.held := by
  simp only [buffered_eq]
  induction tokens generalizing id with
  | nil => cases here
  | cons x rest ih =>
      cases id with
      | zero =>
          cases here
          simp only [List.set_cons_zero, List.map_cons, List.sum_cons]
          omega
      | succ id =>
          have tail : ((rest.set id t').map RowToken.held).sum + t.held =
              (rest.map RowToken.held).sum + t'.held := ih here
          simp only [List.set_cons_succ, List.map_cons, List.sum_cons]
          omega

theorem buffered_concat (tokens : List RowToken) : buffered (tokens ++ [⟨0, false⟩]) = buffered tokens := by
  rw [buffered_eq, buffered_eq, List.map_append, List.sum_append]
  rfl

end ChainSync

namespace Budget

variable {F A Q : Type} {n : Nat} {mode : CheckMode} {c : Fin n} {s t : Budget F A Q n}

theorem setChain_self (chain : ChainSync F A Q) : (s.setChain c chain).chains c = chain :=
  Function.update_self ..

theorem setChain_of_ne {c' : Fin n} (chain : ChainSync F A Q) (other : c' ≠ c) :
    (s.setChain c chain).chains c' = s.chains c' :=
  Function.update_of_ne other ..

/-- The rows of all chains after one chain has changed. -/
theorem buffered_setChain (chain : ChainSync F A Q) :
    (s.setChain c chain).buffered + ChainSync.buffered (s.chains c).tokens =
      s.buffered + ChainSync.buffered chain.tokens := by
  have split : ∀ f : Fin n → Nat, f c + ∑ c' ∈ Finset.univ.erase c, f c' = ∑ c', f c' :=
    fun f => Finset.add_sum_erase _ f (Finset.mem_univ c)
  have rest : ∑ c' ∈ Finset.univ.erase c,
      ChainSync.buffered ((s.setChain c chain).chains c').tokens =
      ∑ c' ∈ Finset.univ.erase c, ChainSync.buffered (s.chains c').tokens := by
    refine Finset.sum_congr rfl fun c' mem => ?_
    rw [setChain_of_ne chain (Finset.ne_of_mem_erase mem)]
  have after := split fun c' => ChainSync.buffered ((s.setChain c chain).chains c').tokens
  have before := split fun c' => ChainSync.buffered (s.chains c').tokens
  rw [rest, setChain_self] at after
  unfold buffered
  omega

theorem buffered_setToken {id : Nat} {x : RowToken} (x' : RowToken)
    (here : (s.chains c).tokens[id]? = some x) :
    (s.setToken c id x').buffered + x.held = s.buffered + x'.held := by
  have token := ChainSync.buffered_set x' here
  have chain : (s.setToken c id x').buffered + ChainSync.buffered (s.chains c).tokens =
      s.buffered + ChainSync.buffered ((s.chains c).tokens.set id x') := buffered_setChain _
  omega

/-- The count and the log of frees. -/
structure Balanced (s : Budget F A Q n) : Prop where
  counted : s.gate.rows = s.buffered
  once : (s.frees.map FreeRows.token).Nodup
  freed : ∀ c id t, (s.chains c).tokens[id]? = some t →
    (t.freed = true ↔ (c, id) ∈ s.frees.map FreeRows.token)
  inside : ∀ f ∈ s.frees, f.entry < (s.chains f.chain).tokens.length
  unclamped : ∀ f ∈ s.frees, (f.rows : Int) ≤ f.before

theorem tokens_setToken_self {id : Nat} {x : RowToken} (x' : RowToken)
    (here : (s.chains c).tokens[id]? = some x) :
    ((s.setToken c id x').chains c).tokens[id]? = some x' := by
  unfold setToken
  rw [setChain_self]
  exact List.getElem?_set_self (List.getElem?_eq_some_iff.1 here).1

theorem tokens_setToken_of_ne {id id' : Nat} (x : RowToken) {c' : Fin n}
    (other : (c', id') ≠ (c, id)) :
    ((s.setToken c id x).chains c').tokens[id']? = (s.chains c').tokens[id']? := by
  unfold setToken
  by_cases same : c' = c
  · subst same
    have apart : id ≠ id' := fun eq => other (eq ▸ rfl)
    rw [setChain_self]
    exact List.getElem?_set_ne apart
  · rw [setChain_of_ne _ same]

theorem length_setToken {id : Nat} (x : RowToken) (c' : Fin n) :
    ((s.setToken c id x).chains c').tokens.length = (s.chains c').tokens.length := by
  unfold setToken
  by_cases same : c' = c
  · subst same
    rw [setChain_self]
    exact List.length_set
  · rw [setChain_of_ne _ same]

theorem cache_setToken {id : Nat} (x : RowToken) (c' : Fin n) :
    ((s.setToken c id x).chains c').cache = (s.chains c').cache := by
  unfold setToken
  by_cases same : c' = c
  · subst same
    rw [setChain_self]
  · rw [setChain_of_ne _ same]

/-- What freeing some entries of a chain does. -/
structure Freeing (c : Fin n) (ids : List Nat) (s t : Budget F A Q n) : Prop where
  cache : ∀ c', (t.chains c').cache = (s.chains c').cache
  length : ∀ c', (t.chains c').tokens.length = (s.chains c').tokens.length
  others : ∀ c' ≠ c, (t.chains c').tokens = (s.chains c').tokens
  tokens : ∀ (id : Nat) (x : RowToken), (s.chains c).tokens[id]? = some x →
    ∃ x', (t.chains c).tokens[id]? = some x' ∧ (x'.freed = true ↔ x.freed = true ∨ id ∈ ids)

theorem Freeing.refl (c : Fin n) (s : Budget F A Q n) : Freeing c [] s s where
  cache := fun _ => rfl
  length := fun _ => rfl
  others := fun _ _ => rfl
  tokens := fun id x here => ⟨x, here, by simp⟩

theorem Freeing.trans {id : Nat} {ids : List Nat} {u : Budget F A Q n}
    (one : Freeing c [id] s t) (rest : Freeing c ids t u) : Freeing c (id :: ids) s u where
  cache := fun c' => (rest.cache c').trans (one.cache c')
  length := fun c' => (rest.length c').trans (one.length c')
  others := fun c' other => (rest.others c' other).trans (one.others c' other)
  tokens := by
    intro id' x here
    obtain ⟨x', here', first⟩ := one.tokens id' x here
    obtain ⟨x'', here'', then_⟩ := rest.tokens id' x' here'
    refine ⟨x'', here'', ?_⟩
    rw [then_, first, List.mem_singleton, List.mem_cons, or_assoc]

theorem Balanced.congr (balanced : Balanced s) (rows : t.gate.rows = s.gate.rows)
    (chains : t.chains = s.chains) (frees : t.frees = s.frees) : Balanced t where
  counted := by
    rw [rows, balanced.counted]
    unfold buffered
    rw [chains]
  once := frees ▸ balanced.once
  freed := by
    rw [chains, frees]
    exact balanced.freed
  inside := by
    rw [chains, frees]
    exact balanced.inside
  unclamped := frees ▸ balanced.unclamped

/-- One token is freed, or had been before. -/
theorem freeing_of_freeToken {id : Nat} (balanced : Balanced s)
    (freed : s.freeToken mode c id = some t) : Freeing c [id] s t ∧ Balanced t := by
  unfold freeToken at freed
  cases here : (s.chains c).tokens[id]? with
  | none =>
      rw [here] at freed
      cases freed
  | some x =>
      rw [here] at freed
      dsimp only at freed
      by_cases already : x.freed = true
      · rw [if_pos already] at freed
        cases freed
        refine ⟨⟨fun _ => rfl, fun _ => rfl, fun _ _ => rfl, ?_⟩, balanced⟩
        intro id' x' here'
        refine ⟨x', here', Or.inl, ?_⟩
        rintro (same | same)
        · exact same
        · rw [List.mem_singleton.1 same, here] at here'
          cases here'
          exact already
      · rw [if_neg already] at freed
        cases reduces : gateReduce mode s.gate (.freeRows x.rows) with
        | error v =>
            rw [reduces] at freed
            cases freed
        | ok gate =>
            rw [reduces] at freed
            cases freed
            have isNext := GateState.next_of_reduce reduces
            have held : x.held = x.rows := if_neg already
            have sum := buffered_setToken ⟨x.rows, true⟩ here
            have counted := balanced.counted
            have none_ : (⟨x.rows, true⟩ : RowToken).held = 0 := rfl
            have out : (c, id) ∉ s.frees.map FreeRows.token := fun mem =>
              already ((balanced.freed c id x here).2 mem)
            refine ⟨⟨cache_setToken _, length_setToken _, ?_, ?_⟩, ?_, ?_, ?_, ?_, ?_⟩
            · intro c' other
              exact congrArg ChainSync.tokens (setChain_of_ne _ other)
            · intro id' x' here'
              by_cases same : id' = id
              · subst same
                exact ⟨_, tokens_setToken_self _ here, by simp⟩
              · refine ⟨x', ?_, by simp [same]⟩
                rw [← here']
                exact tokens_setToken_of_ne _ (by simp [same])
            · show gate.rows = ((s.setToken c id ⟨x.rows, true⟩).buffered : Int)
              rw [isNext]
              show max 0 (s.gate.rows - x.rows) = _
              omega
            · show ((s.frees ++ [_]).map FreeRows.token).Nodup
              rw [List.map_append, List.nodup_append]
              refine ⟨balanced.once, List.nodup_singleton _, ?_⟩
              intro a old b new same
              rw [same, List.mem_singleton.1 new] at old
              exact out old
            · intro c' id' x' here'
              have at_ : ((s.setToken c id ⟨x.rows, true⟩).chains c').tokens[id']? = some x' := here'
              show x'.freed = true ↔ (c', id') ∈ (s.frees ++ [_]).map FreeRows.token
              rw [List.map_append, List.mem_append]
              by_cases same : (c', id') = (c, id)
              · cases same
                rw [tokens_setToken_self _ here] at at_
                cases at_
                exact ⟨fun _ => .inr (List.mem_singleton.2 rfl), fun _ => rfl⟩
              · rw [tokens_setToken_of_ne _ same] at at_
                rw [balanced.freed c' id' x' at_]
                refine ⟨Or.inl, ?_⟩
                rintro (old | new)
                · exact old
                · exact absurd (List.mem_singleton.1 new) same
            · intro f mem
              show f.entry < ((s.setToken c id ⟨x.rows, true⟩).chains f.chain).tokens.length
              rw [length_setToken]
              rcases List.mem_append.1 mem with old | new
              · exact balanced.inside f old
              · rw [List.mem_singleton.1 new]
                exact (List.getElem?_eq_some_iff.1 here).1
            · intro f mem
              rcases List.mem_append.1 mem with old | new
              · exact balanced.unclamped f old
              · rw [List.mem_singleton.1 new]
                show (x.rows : Int) ≤ s.gate.rows
                omega

theorem freeing_of_freeTokens {ids : List Nat} (balanced : Balanced s)
    (freed : s.freeTokens mode c ids = some t) : Freeing c ids s t ∧ Balanced t := by
  induction ids generalizing s with
  | nil =>
      cases freed
      exact ⟨.refl c _, balanced⟩
  | cons id ids ih =>
      obtain ⟨u, first, rest⟩ := Option.bind_eq_some_iff.1 freed
      obtain ⟨one, kept⟩ := freeing_of_freeToken balanced first
      obtain ⟨more, done⟩ := ih kept rest
      exact ⟨one.trans more, done⟩

/-- Rows that arrive are counted by their token and by the gate, or by neither. -/
theorem onRows_cases {id count : Nat} (arrived : s.onRows mode c id count = some t) :
    t = s ∨ ∃ x gate, (s.chains c).tokens[id]? = some x ∧ x.freed = false ∧
      gate = s.gate.next (.addRows count) ∧
      t = { s.setToken c id { x with rows := x.rows + count } with gate := gate } := by
  unfold onRows at arrived
  cases here : (s.chains c).tokens[id]? with
  | none =>
      rw [here] at arrived
      cases arrived
  | some x =>
      rw [here] at arrived
      dsimp only at arrived
      by_cases freed : x.freed = true
      · rw [if_pos freed] at arrived
        cases arrived
        exact .inl rfl
      · rw [if_neg freed] at arrived
        cases reduces : gateReduce mode s.gate (.addRows count) with
        | error v =>
            rw [reduces] at arrived
            cases arrived
        | ok gate =>
            rw [reduces] at arrived
            cases arrived
            exact .inr ⟨x, gate, rfl, Bool.eq_false_iff.2 freed, GateState.next_of_reduce reduces,
              rfl⟩

/-- The invariant of the accounts. -/
structure Kept (s : Budget F A Q n) : Prop where
  balanced : Balanced s
  keyed : ∀ c, ChainSync.Keyed (s.chains c).cache
  paired : ∀ c, (s.chains c).tokens.length = (s.chains c).cache.entries.length
  live : ∀ c id t, (s.chains c).tokens[id]? = some t →
    (t.freed = false ↔ ChainSync.Live (s.chains c).cache id)

theorem Kept.settled (kept : Kept s) : s.Settled where
  counted := kept.balanced.counted
  live := kept.live
  paired := kept.paired
  once := kept.balanced.once
  freed := kept.balanced.freed
  unclamped := kept.balanced.unclamped

theorem Kept.onRows {id count : Nat} (kept : Kept s)
    (arrived : s.onRows mode c id count = some t) : Kept t := by
  rcases onRows_cases arrived with rfl | ⟨x, gate, here, live, rfl, rfl⟩
  · exact kept
  · have sum := buffered_setToken { x with rows := x.rows + count } here
    have counted := kept.balanced.counted
    have held : x.held = x.rows := if_neg (by rw [live]; exact Bool.false_ne_true)
    have held' : RowToken.held { x with rows := x.rows + count } = x.rows + count :=
      if_neg (by rw [live]; exact Bool.false_ne_true)
    -- a token keeps its flag
    have flag : ∀ (c' : Fin n) (id' : Nat) (x' : RowToken),
        ((s.setToken c id { x with rows := x.rows + count }).chains c').tokens[id']? = some x' →
        ∃ x₀ : RowToken, (s.chains c').tokens[id']? = some x₀ ∧ x'.freed = x₀.freed := by
      intro c' id' x' at_
      by_cases same : (c', id') = (c, id)
      · cases same
        rw [tokens_setToken_self _ here] at at_
        cases at_
        exact ⟨x, here, rfl⟩
      · rw [tokens_setToken_of_ne _ same] at at_
        exact ⟨x', at_, rfl⟩
    refine ⟨⟨?_, kept.balanced.once, ?_, ?_, kept.balanced.unclamped⟩, ?_, ?_, ?_⟩
    · show s.gate.rows + count =
        ((s.setToken c id { x with rows := x.rows + count }).buffered : Int)
      omega
    · intro c' id' x' at_
      obtain ⟨x₀, at₀, same⟩ := flag c' id' x' at_
      rw [same]
      exact kept.balanced.freed c' id' x₀ at₀
    · intro f mem
      exact (length_setToken _ f.chain).symm ▸ kept.balanced.inside f mem
    · intro c'
      exact (cache_setToken _ c').symm ▸ kept.keyed c'
    · intro c'
      rw [cache_setToken]
      exact (length_setToken _ c').trans (kept.paired c')
    · intro c' id' x' at_
      obtain ⟨x₀, at₀, same⟩ := flag c' id' x' at_
      rw [same]
      show _ ↔ ChainSync.Live ((s.setToken c id { x with rows := x.rows + count }).chains c').cache id'
      rw [cache_setToken]
      exact kept.live c' id' x₀ at₀

/-- The tokens of the old entries, and one that counts nothing for a new entry. -/
inductive Extended (s : Budget F A Q n) (c : Fin n) (chain : ChainSync F A Q) : Prop
  | same (tokens : chain.tokens = (s.chains c).tokens)
      (length : chain.cache.entries.length = (s.chains c).tokens.length)
  | more (tokens : chain.tokens = (s.chains c).tokens ++ [⟨0, false⟩])
      (length : chain.cache.entries.length = (s.chains c).tokens.length + 1)
      (live : ChainSync.Live chain.cache (s.chains c).tokens.length)

theorem Extended.paired {chain : ChainSync F A Q} (ext : Extended s c chain) :
    chain.tokens.length = chain.cache.entries.length := by
  cases ext with
  | same tokens length => rw [tokens, length]
  | more tokens length _ => rw [tokens, length, List.length_append, List.length_singleton]

/-- A token of the extended list is old, or new and counts nothing. -/
theorem Extended.lookup {chain : ChainSync F A Q} (ext : Extended s c chain) {id : Nat}
    {x : RowToken} (here : chain.tokens[id]? = some x) :
    (s.chains c).tokens[id]? = some x ∨
      id = (s.chains c).tokens.length ∧ x = ⟨0, false⟩ ∧ ChainSync.Live chain.cache id := by
  cases ext with
  | same tokens _ => exact .inl (tokens ▸ here)
  | more tokens _ live =>
      rw [tokens, List.getElem?_append] at here
      by_cases old : id < (s.chains c).tokens.length
      · rw [if_pos old] at here
        exact .inl here
      · rw [if_neg old] at here
        obtain ⟨inside, is⟩ := List.getElem?_eq_some_iff.1 here
        have isNew : id = (s.chains c).tokens.length := by
          have one : id - (s.chains c).tokens.length < 1 := inside
          omega
        refine .inr ⟨isNew, ?_, isNew ▸ live⟩
        rw [← is]
        simp

theorem Extended.balanced {chain : ChainSync F A Q} (ext : Extended s c chain)
    (balanced : Balanced s) : Balanced (s.setChain c chain) where
  counted := by
    have sum := buffered_setChain (s := s) (c := c) chain
    have same : ChainSync.buffered chain.tokens = ChainSync.buffered (s.chains c).tokens := by
      cases ext with
      | same tokens _ => rw [tokens]
      | more tokens _ _ => rw [tokens, ChainSync.buffered_concat]
    have counted := balanced.counted
    show s.gate.rows = ((s.setChain c chain).buffered : Int)
    omega
  once := balanced.once
  freed := by
    intro c' id x here
    show _ ↔ (c', id) ∈ s.frees.map FreeRows.token
    by_cases isC : c' = c
    · subst isC
      rw [setChain_self] at here
      rcases ext.lookup here with old | ⟨isNew, rfl, -⟩
      · exact balanced.freed c' id x old
      · have out : (c', id) ∉ s.frees.map FreeRows.token := by
          intro mem
          obtain ⟨f, inLog, isToken⟩ := List.mem_map.1 mem
          have inside := balanced.inside f inLog
          cases isToken
          exact absurd (isNew ▸ inside) (Nat.lt_irrefl _)
        exact iff_of_false Bool.false_ne_true out
    · rw [setChain_of_ne chain isC] at here
      exact balanced.freed c' id x here
  inside := by
    intro f mem
    have inside := balanced.inside f mem
    by_cases isC : f.chain = c
    · subst isC
      rw [setChain_self]
      cases ext with
      | same tokens _ => rw [tokens]; exact inside
      | more tokens _ _ =>
          rw [tokens, List.length_append]
          exact Nat.lt_add_right _ inside
    · rw [setChain_of_ne chain isC]
      exact inside
  unclamped := balanced.unclamped

variable {deps : Fin n → SyncDeps F A Q}

theorem extended_step {a : CacheAction} {cache : Cache F A Q} (kept : Kept s)
    (moved : ChainSync.Moved (deps c) (s.chains c).cache a cache) :
    Extended s c (.withTokens cache (s.chains c).tokens) := by
  have paired := kept.paired c
  rcases moved.grown with same | ⟨more, live⟩
  · exact .same (if_neg (by omega)) (same.trans paired.symm)
  · refine .more (if_pos (by omega)) ?_ (paired.symm ▸ live)
    show cache.entries.length = _
    omega

variable [DecidableEq F] [DecidableEq A]

/-- The cache of a chain makes a step, and the tokens of what it drops are freed. -/
theorem Kept.cacheStep {a : CacheAction} {cache : Cache F A Q} (kept : Kept s)
    (taken : (s.chains c).cache.step (deps c) a = some cache)
    (freed : (s.setChain c (.withTokens cache (s.chains c).tokens)).freeTokens mode c
      (ChainSync.freedBy (deps c) (s.chains c).cache a) = some t) : Kept t := by
  have moved := ChainSync.moved_step (kept.keyed c) taken
  have ext := extended_step kept moved
  have isCache : (ChainSync.withTokens cache (s.chains c).tokens).cache = cache := rfl
  generalize ChainSync.withTokens cache (s.chains c).tokens = chain at freed ext isCache
  subst isCache
  obtain ⟨freeing, balanced⟩ := freeing_of_freeTokens (ext.balanced kept.balanced) freed
  have cacheOf : ∀ c', (t.chains c').cache = ((s.setChain c chain).chains c').cache := freeing.cache
  refine ⟨balanced, ?_, ?_, ?_⟩
  · intro c'
    rw [cacheOf]
    by_cases isC : c' = c
    · subst isC
      rw [setChain_self]
      exact moved.keyed
    · rw [setChain_of_ne chain isC]
      exact kept.keyed c'
  · intro c'
    rw [cacheOf, freeing.length]
    by_cases isC : c' = c
    · subst isC
      rw [setChain_self]
      exact ext.paired
    · rw [setChain_of_ne chain isC]
      exact kept.paired c'
  · intro c' id x here
    rw [cacheOf]
    by_cases isC : c' = c
    · subst isC
      have inside : id < ((s.setChain c' chain).chains c').tokens.length :=
        freeing.length c' ▸ (List.getElem?_eq_some_iff.1 here).1
      obtain ⟨x₀, at₀⟩ : ∃ x₀, ((s.setChain c' chain).chains c').tokens[id]? = some x₀ :=
        ⟨_, List.getElem?_eq_getElem inside⟩
      obtain ⟨x', at', flag⟩ := freeing.tokens id x₀ at₀
      rw [here] at at'
      cases at'
      rw [setChain_self] at at₀ ⊢
      have unfreed : x.freed = false ↔
          x₀.freed = false ∧ id ∉ ChainSync.freedBy (deps c') (s.chains c').cache a := by
        rw [← Bool.not_eq_true, flag, not_or, Bool.not_eq_true]
      rcases ext.lookup at₀ with old | ⟨isNew, rfl, live⟩
      · have oldId : id < (s.chains c').cache.entries.length :=
          kept.paired c' ▸ (List.getElem?_eq_some_iff.1 old).1
        rw [unfreed, kept.live c' id x₀ old, moved.old id oldId]
      · rw [unfreed]
        refine ⟨fun _ => live, fun _ => ⟨rfl, fun mem => ?_⟩⟩
        have before := moved.freed id mem
        rw [← kept.paired c', ← isNew] at before
        exact Nat.lt_irrefl _ before
    · rw [setChain_of_ne chain isC]
      rw [freeing.others c' isC, setChain_of_ne chain isC] at here
      exact kept.live c' id x here

theorem next_rows {g : GateState} {e : GateEvent} (own : ofRequest e = true) :
    (g.next e).rows = g.rows := by
  cases e with
  | admitted => rfl
  | release => rfl
  | ok =>
      simp only [GateState.next]
      split <;> rfl
  | throttle => rfl
  | addRows n => cases own
  | freeRows n => cases own

theorem Kept.step {a : BudgetAction n} (kept : Kept s) (taken : s.step mode deps a = some t) :
    Kept t := by
  cases a with
  | cache c a =>
      cases moves : (s.chains c).cache.step (deps c) a with
      | none =>
          rw [Budget.step, moves] at taken
          cases taken
      | some cache =>
          rw [Budget.step, moves] at taken
          exact kept.cacheStep moves taken
  | batch c id k count =>
      by_cases arrives : (s.chains c).streams id k = true ∧ s.admitted = true
      · rw [Budget.step, if_pos arrives] at taken
        exact kept.onRows taken
      · rw [Budget.step, if_neg arrives] at taken
        cases taken
  | request e =>
      by_cases own : ofRequest e = true
      · rw [Budget.step, if_pos own] at taken
        cases reduces : gateReduce mode s.gate e with
        | error v =>
            rw [reduces] at taken
            cases taken
        | ok gate =>
            rw [reduces] at taken
            cases taken
            have rows : gate.rows = s.gate.rows := by
              rw [GateState.next_of_reduce reduces]
              exact next_rows own
            exact ⟨kept.balanced.congr rows rfl rfl, kept.keyed, kept.paired, kept.live⟩
      · rw [Budget.step, if_neg own] at taken
        cases taken

omit [DecidableEq F] [DecidableEq A] in
theorem Kept.init (deps : Fin n → SyncDeps F A Q) (limits : GateLimits) (start : Int) :
    Kept (Budget.init deps limits start) := by
  have entries : ∀ c, ((Budget.init deps limits start).chains c).cache.entries = [] := by
    intro c
    show (Cache.init (deps c)).entries = []
    unfold Cache.init Cache.pinDiscoveryFloor
    split <;> rfl
  have dataCache : ∀ c, ((Budget.init deps limits start).chains c).cache.dataCache = OrdMap.empty := by
    intro c
    show (Cache.init (deps c)).dataCache = OrdMap.empty
    unfold Cache.init Cache.pinDiscoveryFloor
    split <;> rfl
  refine ⟨⟨?_, List.nodup_nil, ?_, ?_, ?_⟩, ?_, ?_, ?_⟩
  · have none_ : ∑ _c : Fin n, ChainSync.buffered [] = 0 := Finset.sum_eq_zero fun _ _ => rfl
    show (0 : Int) = ((∑ _c : Fin n, ChainSync.buffered [] : Nat) : Int)
    rw [none_]
    rfl
  · intro c id x here
    cases here
  · intro f mem
    cases mem
  · intro f mem
    cases mem
  · intro c idx id found
    rw [dataCache] at found
    cases found
  · intro c
    rw [entries]
    rfl
  · intro c id x here
    cases here

theorem kept_of_reach {limits : GateLimits} {start : Int}
    (reached : Machine.Reach (Budget.step mode deps) (fun _ _ => True) (init deps limits start) s) :
    Kept s :=
  reached.invariant (I := Kept) (Kept.init deps limits start)
    fun _ _ _ _ kept _ taken => kept.step taken

omit [DecidableEq F] [DecidableEq A] in
/-- Tokens that are all freed count nothing. -/
theorem Kept.rows_zero (kept : Kept s)
    (gone : ∀ c id, ¬ ChainSync.Live (s.chains c).cache id) : s.gate.rows = 0 := by
  rw [kept.balanced.counted]
  unfold buffered
  rw [Finset.sum_eq_zero]
  · rfl
  · intro c _
    rw [ChainSync.buffered, List.filter_eq_nil_iff.2]
    · rfl
    · intro x mem unfreed
      obtain ⟨id, at_⟩ := List.getElem?_of_mem mem
      exact gone c id ((kept.live c id x at_).1 (of_decide_eq_true unfreed))

/-- In every run of any number of chains that share a gate, the count is the rows of the cached
entries' tokens, each token is freed once, and nothing is clamped. Once every entry has left the
cache or has failed, the count is 0. -/
theorem rows_settled {limits : GateLimits} {start : Int}
    (reached : Machine.Reach (Budget.step mode deps) (fun _ _ => True)
      (Budget.init deps limits start) s) :
    s.Settled ∧
      ((∀ c id e, (s.chains c).cache.entries[id]? = some e →
        ¬ ChainSync.Live (s.chains c).cache id ∨ e.Rejected) → s.gate.rows = 0) := by
  have kept := kept_of_reach reached
  refine ⟨kept.settled, fun ended => kept.rows_zero fun c id live => ?_⟩
  obtain ⟨idx, found⟩ := live
  obtain ⟨e, here, -, fine⟩ := kept.keyed c idx id found
  rcases ended c id e here with out | rejected
  · exact out ⟨idx, found⟩
  · exact fine rejected

end Budget

/-! ## A run of two chains -/

/-- A chain with one log query. -/
def oneQueryDeps : SyncDeps Unit Nat Nat where
  factories := []
  creations := fun _ _ => []
  discoveryWindows := 1
  preloaded := fun _ => OrdMap.empty
  discFloorBlock := none
  queries := fun source _ => match source with
    | .logs => .ok [1]
    | .traces | .blocks | .txs => .ok []
  backfillStart := 0
  backfillEnd := none
  dense := false
  chunkBlocks := 10
  chunkFixed := false
  traceChunkBlocks := 10
  warmupBlocks := 0
  finalizedHead := none
  checks := .on

/-- A chunk of the first chain is evicted while it streams, and more rows arrive for it; a chunk of
the second chain fails. -/
def twoChainActions : List (BudgetAction 2) :=
  [.cache 0 (.ensureChunkSize (some 99)), .cache 1 (.ensureChunkSize (some 99)), .request .admitted,
    .cache 0 (.dataChunk 0 (some (0, 9))), .cache 1 (.dataChunk 0 (some (0, 9))),
    .cache 0 (.pass 0 0), .cache 1 (.pass 0 0), .batch 0 0 0 5, .batch 1 0 0 3, .request .ok,
    .cache 0 (.evictBehind 10), .batch 0 0 0 4, .cache 0 (.dataChunk 0 (some (0, 9))),
    .cache 0 (.pass 1 0), .batch 0 1 0 2, .cache 1 (.fail 0 0), .cache 1 (.handle 0 0),
    .cache 0 (.evictBehind 20)]

def twoChainEnd : Budget Unit Nat Nat 2 :=
  (Machine.replay (Budget.step .on fun _ => oneQueryDeps)
    (Budget.init (fun _ => oneQueryDeps) ⟨8, 48, 250000⟩ 16) twoChainActions).get
    (by decide +kernel)

theorem rows_settled_two_chains :
    twoChainEnd.frees.map FreeRows.rows = [5, 3, 2] ∧ twoChainEnd.Settled ∧
      twoChainEnd.gate.rows = 0 := by
  have reached : Machine.Reach (Budget.step .on fun _ => oneQueryDeps) (fun _ _ => True)
      (Budget.init (fun _ => oneQueryDeps) ⟨8, 48, 250000⟩ 16) twoChainEnd := by
    have free : Machine.AllAllowed (Budget.step .on fun _ => oneQueryDeps) (fun _ _ => True)
        (Budget.init (fun _ => oneQueryDeps) ⟨8, 48, 250000⟩ 16) twoChainActions := by
      decide +kernel
    exact Machine.Reach.init.replay free (Option.some_get (by decide +kernel)).symm
  have dropped : ∀ c, (twoChainEnd.chains c).cache.dataCache.entries = [] := by decide +kernel
  refine ⟨by decide +kernel, (Budget.rows_settled reached).1, (Budget.rows_settled reached).2 ?_⟩
  rintro c id e -
  refine .inl ?_
  rintro ⟨idx, found⟩
  have mem := OrdMap.mem_of_get? _ found
  rw [dropped c] at mem
  cases mem

end PortalPonder.Historical
