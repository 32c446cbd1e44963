import PortalPonder.Historical.ChunkEntries

/-!
# What the chunk cache covers

Every step keeps the entries as they should be, and the calls answered: in every run a promise
that has resolved has every block of its need exactly once.
-/

namespace PortalPonder.Historical

open Discovery

variable {F A Q : Type} {deps : SyncDeps F A Q}

/-! ## One step of the cache -/

namespace Cache

/-- What `dataChunk` can do when it returns a promise. -/
inductive Served (deps : SyncDeps F A Q) (s : Cache F A Q) (idx : Nat) (need : Option Interval)
    (range : Interval) : Cache F A Q × Nat × Nat → Prop
  | fromCache {id e repaired served opts} (here : s.cached idx = some (id, e))
      (prefix_ : repaired = e.repairPrefix (deps.activeNeed need) opts)
      (after : ∀ n ∈ deps.activeNeed need, repaired.coveredFrom ≤ n.1)
      (extended : served = repaired.serve range.2 (deps.needTo need range.2) s.quantum opts) :
      Served deps s idx need range (s.setEntry id served, id, served.last)
  | fetched {bounds opts} (absent : s.cached idx = none)
      (window : bounds = fetchBounds range.1 range.2 (deps.activeNeed need) s.quantum) :
      Served deps s idx need range (s.initialFetch deps idx bounds opts, s.entries.length, 0)

theorem dataChunk_cases (on : deps.checks ≠ .off) {s : Cache F A Q} {idx : Nat}
    {need : Option Interval} {result : Cache F A Q × Nat × Nat}
    (ok : s.dataChunk deps idx need = .ok result) :
    Served deps s idx need
      (chunkRange idx s.chunkBlocks deps.backfillStart (s.dataEnd deps)) result := by
  unfold dataChunk at ok
  generalize chunkRange idx s.chunkBlocks deps.backfillStart (s.dataEnd deps) = range at ok ⊢
  dsimp only at ok
  cases nine : invariant deps.checks "INV-9" (s.portalHead.all fun head => range.2 ≤ head)
      "data request targets past the Portal finalized head" with
  | error violation =>
      rw [nine] at ok
      cases ok
  | ok _ =>
      rw [nine] at ok
      cases found : s.cached idx with
      | none =>
          rw [found] at ok
          cases ok
          exact .fetched found rfl
      | some hit =>
          obtain ⟨id, e⟩ := hit
          rw [found] at ok
          dsimp only at ok
          generalize eq : e.repairPrefix (deps.activeNeed need) _ = repaired at ok
          cases nineteen : invariant deps.checks "INV-19"
              ((deps.activeNeed need).all fun n => n.1 ≥ repaired.coveredFrom)
              "cache entry starts after requested interval" with
          | error violation =>
              simp only [nineteen] at ok
              cases ok
          | ok _ =>
              simp only [nineteen] at ok
              cases ok
              refine .fromCache found eq.symm ?_ rfl
              intro n given
              have holds := holds_of_invariant on nineteen
              rw [given] at holds
              exact of_decide_eq_true holds

/-- What the cache keeps in every run. -/
structure Kept (deps : SyncDeps F A Q) (s : Cache F A Q) : Prop where
  pinned : ∀ pin ∈ deps.finalizedHead, s.portalHead = some pin
  entries : ∀ e ∈ s.entries, ∃ head ∈ s.portalHead, EntryKept deps head e
  cached : ∀ idx id, s.dataCache.get? idx = some id →
    ∃ e, s.entries[id]? = some e ∧ e.idx = idx ∧ e.chunkBlocks = s.chunkBlocks
  unsized : s.sized = false → ∀ idx, s.dataCache.get? idx = none
  legacy : deps.warmupBlocks = 0 → s.fetchQuantum = none
  calls : ∀ call ∈ s.calls, ∃ e, s.entries[call.entry]? = some e ∧ Answers deps e call

/-- Discovery and the quantum do not matter. -/
theorem Kept.same {s t : Cache F A Q} (kept : Kept deps s) (head : t.portalHead = s.portalHead)
    (entries : t.entries = s.entries) (dataCache : t.dataCache = s.dataCache)
    (grid : t.chunkBlocks = s.chunkBlocks) (sized : t.sized = s.sized)
    (calls : t.calls = s.calls) (quantum : deps.warmupBlocks = 0 → t.fetchQuantum = s.fetchQuantum) :
    Kept deps t := by
  constructor
  · rw [head]
    exact kept.pinned
  · rw [entries, head]
    exact kept.entries
  · rw [dataCache, entries, grid]
    exact kept.cached
  · rw [sized, dataCache]
    exact kept.unsized
  · intro zero
    exact (quantum zero).trans (kept.legacy zero)
  · rw [calls, entries]
    exact kept.calls

/-- An entry moves. -/
theorem Kept.setEntry {s : Cache F A Q} (kept : Kept deps s) {id : Nat} {e e' : Entry F A Q}
    (here : s.entries[id]? = some e) (grown : e.Grown e')
    (keeps : ∃ head ∈ s.portalHead, EntryKept deps head e') : Kept deps (s.setEntry id e') := by
  have within : id < s.entries.length := (List.getElem?_eq_some_iff.1 here).1
  have moves : ∀ (i : Nat) (ei : Entry F A Q), s.entries[i]? = some ei →
      ∃ ei' : Entry F A Q, (s.entries.set id e')[i]? = some ei' ∧ ei.Grown ei' := by
    intro i ei at_
    by_cases same : id = i
    · subst same
      cases here.symm.trans at_
      exact ⟨e', List.getElem?_set_self within, grown⟩
    · exact ⟨ei, by rw [List.getElem?_set_ne same]; exact at_, .refl ei⟩
  refine ⟨kept.pinned, ?_, ?_, kept.unsized, kept.legacy, ?_⟩
  · intro ei mem
    rcases List.mem_or_eq_of_mem_set mem with old | rfl
    · exact kept.entries ei old
    · exact keeps
  · intro idx i found
    obtain ⟨ei, at_, isIdx, grid⟩ := kept.cached idx i found
    obtain ⟨ei', at', grown'⟩ := moves i ei at_
    exact ⟨ei', at', grown'.1.trans isIdx, grown'.2.1.trans grid⟩
  · intro call mem
    obtain ⟨ei, at_, answers⟩ := kept.calls call mem
    obtain ⟨ei', at', grown'⟩ := moves call.entry ei at_
    exact ⟨ei', at', answers.grown grown'⟩

/-- An operation moves within its range. -/
theorem Kept.setOp {s : Cache F A Q} (kept : Kept deps s) {id k : Nat} {e : Entry F A Q}
    {op op' : Op F A Q} (here : s.entries[id]? = some e) (at_ : e.ops[k]? = some op)
    (range : op'.fromBlock = op.fromBlock ∧ op'.toBlock = op.toBlock)
    (sound : op.Sound deps → op'.Sound deps)
    (order : op'.status.started = true → e.Chained → ∀ j < k, e.statusOf j = some .done)
    (undone : op.status ≠ .done) : Kept deps (s.setEntry id (e.setOp k op')) := by
  obtain ⟨head, known, entry⟩ := kept.entries e (List.mem_of_getElem? here)
  exact kept.setEntry here (.setOp at_ range) ⟨head, known, entry.setOp at_ range
    (sound (entry.sound op (List.mem_of_getElem? at_))) (fun started => order started entry.chained)
    undone⟩

theorem cached_some {s : Cache F A Q} {idx id : Nat} {e : Entry F A Q}
    (found : s.cached idx = some (id, e)) :
    s.dataCache.get? idx = some id ∧ s.entries[id]? = some e := by
  unfold Cache.cached at found
  cases there : s.dataCache.get? idx with
  | none =>
      rw [there] at found
      cases found
  | some i =>
      rw [there] at found
      cases at_ : s.entries[i]? with
      | none => simp [at_] at found
      | some ei =>
          simp only [Option.bind_some, at_, Option.map_some, Option.some.injEq,
            Prod.mk.injEq] at found
          obtain ⟨rfl, rfl⟩ := found
          exact ⟨rfl, at_⟩

/-- An entry that is there serves a call. -/
theorem Kept.fromCache {s : Cache F A Q} (kept : Kept deps s) {idx id head : Nat}
    {need : Option Interval} {range : Interval} {e repaired served : Entry F A Q}
    {opts : EnsureOpts} (known : s.portalHead = some head)
    (promised : ∀ n ∈ need, idx * s.chunkBlocks ≤ n.1 ∧ n.1 ≤ n.2 ∧
      n.2 < idx * s.chunkBlocks + s.chunkBlocks ∧ n.2 ≤ head)
    (desired : range = chunkRange idx s.chunkBlocks deps.backfillStart
      (minEnd deps.backfillEnd (some head)))
    (here : s.cached idx = some (id, e))
    (prefix_ : repaired = e.repairPrefix (deps.activeNeed need) opts)
    (after : ∀ n ∈ deps.activeNeed need, repaired.coveredFrom ≤ n.1)
    (extended : served = repaired.serve range.2 (deps.needTo need range.2) s.quantum opts) :
    Kept deps (s.setEntry id served) ∧ Answers deps served ⟨idx, need, id, served.last⟩ := by
  obtain ⟨found, at_⟩ := cached_some here
  obtain ⟨e', at', isIdx, grid⟩ := kept.cached idx id found
  cases at_.symm.trans at'
  have grownA : e.Grown repaired := prefix_ ▸ .repairPrefix e _ opts
  have grownB : repaired.Grown served := extended ▸ .serve repaired _ _ _ opts
  have grown := grownA.trans grownB
  have isIdx' : served.idx = idx := grown.1.trans isIdx
  have grid' : served.chunkBlocks = s.chunkBlocks := grown.2.1.trans grid
  obtain ⟨head', known', entry⟩ := kept.entries e (List.mem_of_getElem? at_)
  cases known.symm.trans known'
  have entryA : EntryKept deps head repaired := prefix_ ▸
    entry.repairPrefix opts fun n given => (promised n given).2.2.2
  have entryB : EntryKept deps head served := extended ▸
    entryA.serve _ _ opts (by rw [grownA.1, isIdx, grownA.2.1, grid, desired])
  refine ⟨kept.setEntry at_ grown ⟨head, known, entryB⟩, ?_⟩
  refine entryB.answers isIdx' (by rw [grid']; exact promised) ?_ ?_
  · intro n given b low _
    have start : served.coveredFrom = repaired.coveredFrom := by
      rw [extended, Entry.serve]
      split <;> rfl
    exact start ▸ Nat.le_trans (after n given) low
  · intro _
    rw [isIdx', grid', ← desired, extended, Entry.serve]
    split
    · next hit => exact .inl hit
    · next miss =>
        show _ ≤ min _ _ ∨ _ ≤ min _ _
        omega

/-- The first fetch reaches what is needed, or as far as there is data. -/
theorem Kept.reaches {s : Cache F A Q} (kept : Kept deps s) {idx : Nat} {n : Interval}
    {endBlock : Option Nat} {range : Interval}
    (desired : range = chunkRange idx s.chunkBlocks deps.backfillStart endBlock) :
    deps.needTo (some n) range.2 ≤
        (fetchBounds range.1 range.2 (deps.activeNeed (some n)) s.quantum).2 ∨
      range.2 ≤ (fetchBounds range.1 range.2 (deps.activeNeed (some n)) s.quantum).2 := by
  by_cases zero : deps.warmupBlocks = 0
  · have whole : s.quantum = s.chunkBlocks := by rw [Cache.quantum, kept.legacy zero]
    have low : idx * s.chunkBlocks ≤ range.1 := desired ▸ Nat.le_max_left _ _
    have high : range.2 ≤ idx * s.chunkBlocks + s.chunkBlocks - 1 := desired ▸ clampEnd_le _ _
    rw [SyncDeps.activeNeed, if_pos zero, fetchBounds_none, whole]
    show _ ∨ range.2 ≤ min _ _
    omega
  · rw [SyncDeps.needTo, SyncDeps.activeNeed, if_neg zero, fetchBounds_some]
    show n.2 ≤ min _ _ ∨ range.2 ≤ min _ _
    omega

/-- A new entry serves a call. -/
theorem Kept.fetched {s : Cache F A Q} (kept : Kept deps s) (opts : EnsureOpts)
    (sized : s.sized = true) {idx head : Nat} {need : Option Interval} {range bounds : Interval}
    (known : s.portalHead = some head)
    (promised : ∀ n ∈ need, idx * s.chunkBlocks ≤ n.1 ∧ n.1 ≤ n.2 ∧
      n.2 < idx * s.chunkBlocks + s.chunkBlocks ∧ n.2 ≤ head)
    (desired : range = chunkRange idx s.chunkBlocks deps.backfillStart
      (minEnd deps.backfillEnd (some head)))
    (window : bounds = fetchBounds range.1 range.2 (deps.activeNeed need) s.quantum) :
    Kept deps (s.initialFetch deps idx bounds opts) ∧
      ∃ e, (s.initialFetch deps idx bounds opts).entries[s.entries.length]? = some e ∧
        Answers deps e ⟨idx, need, s.entries.length, 0⟩ := by
  have entry : EntryKept deps head _ := EntryKept.initial opts
    (s.ensure deps bounds.2 opts).2 promised desired window
  have old : ∀ (i : Nat) (ei : Entry F A Q), s.entries[i]? = some ei →
      (s.initialFetch deps idx bounds opts).entries[i]? = some ei := by
    intro i ei at_
    exact (List.getElem?_append_left (List.getElem?_eq_some_iff.1 at_).1).trans at_
  have new : (s.initialFetch deps idx bounds opts).entries[s.entries.length]? = some _ :=
    List.getElem?_concat_length
  refine ⟨⟨kept.pinned, ?_, ?_, ?_, kept.legacy, ?_⟩, _, new, entry.answers rfl promised ?_ ?_⟩
  · intro e mem
    rcases List.mem_append.1 mem with before | last
    · exact kept.entries e before
    · rw [List.mem_singleton.1 last]
      exact ⟨head, known, entry⟩
  · intro i id found
    have found' : (s.dataCache.set idx s.entries.length).get? i = some id := found
    rw [OrdMap.get?_set] at found'
    by_cases same : i = idx
    · rw [if_pos same] at found'
      cases found'
      exact ⟨_, new, same.symm, rfl⟩
    · rw [if_neg same] at found'
      obtain ⟨e, at_, rest⟩ := kept.cached i id found'
      exact ⟨e, old id e at_, rest⟩
  · intro isUnsized
    cases sized.symm.trans isUnsized
  · intro call mem
    obtain ⟨e, at_, answers⟩ := kept.calls call mem
    exact ⟨e, old call.entry e at_, answers⟩
  · intro n given b low first
    have isNeed : deps.activeNeed need = some n := given
    show bounds.1 ≤ b
    rw [window, isNeed, fetchBounds_some, desired]
    exact Nat.max_le.2 ⟨first, low⟩
  · intro needed
    cases need with
    | none => cases needed
    | some n =>
        rw [window]
        show _ ≤ (fetchBounds _ _ _ _).2 ∨ _ ≤ (fetchBounds _ _ _ _).2
        exact desired ▸ kept.reaches desired

theorem Kept.call (on : deps.checks ≠ .off) {s : Cache F A Q} (kept : Kept deps s) {idx : Nat}
    {need : Option Interval} (promised : Promised s (.dataChunk idx need)) (sized : s.sized = true) :
    Kept deps (s.call deps idx need) := by
  obtain ⟨head, known, promised⟩ := promised
  unfold Cache.call
  cases ok : s.dataChunk deps idx need with
  | error violation => exact kept
  | ok result =>
      have desired : chunkRange idx s.chunkBlocks deps.backfillStart (s.dataEnd deps) =
          chunkRange idx s.chunkBlocks deps.backfillStart (minEnd deps.backfillEnd (some head)) := by
        rw [Cache.dataEnd, Option.mem_def.1 known]
      cases dataChunk_cases on ok with
      | fromCache here prefix_ after extended =>
          rename_i id e repaired served opts
          obtain ⟨base, answers⟩ :=
            kept.fromCache known promised desired here prefix_ after extended
          refine ⟨base.pinned, base.entries, base.cached, base.unsized, base.legacy, ?_⟩
          intro call mem
          rcases List.mem_append.1 mem with old | new
          · exact base.calls call old
          · rw [List.mem_singleton.1 new]
            have within := (List.getElem?_eq_some_iff.1 (cached_some here).2).1
            exact ⟨served, List.getElem?_set_self within, answers⟩
      | fetched absent window =>
          rename_i bounds opts
          obtain ⟨base, e, at_, answers⟩ := kept.fetched opts sized known promised desired window
          refine ⟨base.pinned, base.entries, base.cached, base.unsized, base.legacy, ?_⟩
          intro call mem
          rcases List.mem_append.1 mem with old | new
          · exact base.calls call old
          · rw [List.mem_singleton.1 new]
            exact ⟨e, at_, answers⟩

/-- Entries only leave the cache. -/
theorem Kept.drop {s : Cache F A Q} (kept : Kept deps s) {dataCache : OrdMap Nat Nat}
    (fewer : ∀ idx id, dataCache.get? idx = some id → s.dataCache.get? idx = some id) :
    Kept deps { s with dataCache } := by
  refine ⟨kept.pinned, kept.entries, fun idx id found => kept.cached idx id (fewer idx id found),
    ?_, kept.legacy, kept.calls⟩
  intro unsized idx
  show dataCache.get? idx = none
  cases found : dataCache.get? idx with
  | none => rfl
  | some id =>
      have there := fewer idx id found
      rw [kept.unsized unsized idx] at there
      cases there

/-- The head advances. -/
theorem Kept.head {s : Cache F A Q} (kept : Kept deps s) {h : Nat}
    (rises : ∀ head ∈ s.portalHead, head ≤ h) (pinned : ∀ pin ∈ deps.finalizedHead, h = pin) :
    Kept deps { s with portalHead := some h } := by
  refine ⟨fun pin mem => congrArg some (pinned pin mem), ?_, kept.cached, kept.unsized, kept.legacy,
    kept.calls⟩
  intro e mem
  obtain ⟨head, known, entry⟩ := kept.entries e mem
  exact ⟨h, rfl, entry.mono (rises head known)⟩

theorem le_maxHead {portalHead : Option Nat} (h : Nat) : ∀ head ∈ portalHead, head ≤ maxHead portalHead h := by
  intro head known
  cases known
  exact Nat.le_max_left head h

theorem Kept.refreshPortalHead {s : Cache F A Q} (kept : Kept deps s) (h : Nat) :
    Kept deps (s.refreshPortalHead deps h) := by
  unfold Cache.refreshPortalHead
  cases pin : deps.finalizedHead with
  | some p =>
      refine kept.head ?_ ?_
      · intro head known
        rw [kept.pinned p pin] at known
        cases known
        exact Nat.le_refl _
      · intro p' isPin
        cases pin.symm.trans isPin
        rfl
  | none =>
      refine kept.head (le_maxHead h) ?_
      intro p isPin
      cases pin.symm.trans isPin

theorem Kept.ensureChunkSize {s : Cache F A Q} (kept : Kept deps s) (unsized : s.sized = false)
    (h : Option Nat) : Kept deps (s.ensureChunkSize deps h) := by
  have empty := kept.unsized unsized
  have settled : ∀ {t : Cache F A Q}, Kept deps t → t.dataCache = s.dataCache → ∀ n,
      Kept deps { t with sized := true, chunkBlocks := n } := by
    intro t kept' same n
    refine ⟨kept'.pinned, kept'.entries, ?_, fun isUnsized => absurd isUnsized (by simp),
      kept'.legacy, kept'.calls⟩
    intro idx id found
    have found' : s.dataCache.get? idx = some id := same ▸ found
    rw [empty idx] at found'
    cases found'
  unfold Cache.ensureChunkSize
  cases deps.chunkFixed with
  | true => exact settled kept rfl s.chunkBlocks
  | false =>
      cases h with
      | none => exact settled kept rfl s.chunkBlocks
      | some h =>
          by_cases free : deps.finalizedHead = none
          · have raised := kept.head (le_maxHead h) fun pin isPin => by
              rw [free] at isPin
              cases isPin
            simp only [if_pos free]
            exact settled raised rfl _
          · simp only [if_neg free]
            exact settled kept rfl _

theorem Kept.capGrid {s : Cache F A Q} (kept : Kept deps s) : Kept deps (s.capGrid deps) := by
  unfold Cache.capGrid
  by_cases changes : traceSafeChunkBlocks s.chunkBlocks deps.dense deps.traceChunkBlocks ≠ s.chunkBlocks
  · simp only [if_pos changes]
    refine ⟨kept.pinned, kept.entries, ?_, fun _ _ => rfl, kept.legacy, kept.calls⟩
    intro idx id found
    cases found
  · simp only [if_neg changes]
    exact kept

theorem Kept.pinDiscoveryFloor {s : Cache F A Q} (kept : Kept deps s) :
    Kept deps (s.pinDiscoveryFloor deps) := by
  unfold Cache.pinDiscoveryFloor
  split
  · exact kept
  · exact kept.same rfl rfl rfl rfl rfl rfl fun _ => rfl

theorem Kept.seed {s : Cache F A Q} (kept : Kept deps s) (throughBlock : Int) :
    Kept deps (s.seed deps throughBlock) := by
  unfold Cache.seed
  split
  · exact kept.same rfl rfl rfl rfl rfl rfl fun _ => rfl
  · exact kept

theorem Kept.ensure {s : Cache F A Q} (kept : Kept deps s) (target : Nat) (opts : EnsureOpts) :
    Kept deps (s.ensure deps target opts).1 :=
  kept.same rfl rfl rfl rfl rfl rfl fun _ => rfl

theorem foldl_delete_found {keys : List Nat} {m : OrdMap Nat Nat} {idx id : Nat}
    (found : (keys.foldl OrdMap.delete m).get? idx = some id) : m.get? idx = some id := by
  induction keys generalizing m with
  | nil => exact found
  | cons key keys ih =>
      have step := ih found
      rw [OrdMap.get?_delete] at step
      split at step
      · cases step
      · exact step

theorem Kept.evictBehind {s : Cache F A Q} (kept : Kept deps s) (intervalStart : Nat) :
    Kept deps (s.evictBehind intervalStart) :=
  kept.drop fun _ _ found => foldl_delete_found found

/-! ### Steps of an operation -/

/-- An operation of an entry. -/
structure Here (s : Cache F A Q) (id k : Nat) (e : Entry F A Q) (op : Op F A Q) : Prop where
  entry : s.entries[id]? = some e
  op : e.ops[k]? = some op

/-- The step functions look the operation up first. -/
theorem lookup {s t : Cache F A Q} {id k : Nat} {act : Entry F A Q → Op F A Q → Option (Cache F A Q)}
    (taken : ((s.entries[id]?).bind fun e => (e.ops[k]?).bind fun op => act e op) = some t) :
    ∃ e op, Here s id k e op ∧ act e op = some t := by
  obtain ⟨e, here, rest⟩ := Option.bind_eq_some_iff.1 taken
  obtain ⟨op, at_, acts⟩ := Option.bind_eq_some_iff.1 rest
  exact ⟨e, op, ⟨here, at_⟩, acts⟩

theorem enter_cases {s t : Cache F A Q} {id k : Nat} (taken : s.enter deps id k = some t) :
    ∃ e op, Here s id k e op ∧ op.status = .waiting ∧ e.statusBefore k = some .done ∧
      t = (s.ensure deps op.toBlock op.opts).1.setEntry id
        (e.setOp k { op with status := .gated (s.ensure deps op.toBlock op.opts).2 }) := by
  obtain ⟨e, op, here, acts⟩ := lookup taken
  refine ⟨e, op, here, ?_⟩
  split at acts
  · next waits done => exact ⟨waits, done, (Option.some.inj acts).symm⟩
  · cases acts

theorem pass_cases (on : deps.checks ≠ .off) {s t : Cache F A Q} {id k : Nat}
    (taken : s.pass deps id k = some t) :
    ∃ e op promise, Here s id k e op ∧ op.status = .gated promise ∧
      s.disc.disc.isResolved promise = true ∧
      (s.discoveryReady deps op.toBlock = true ∧ t = s.setEntry id
          (e.setOp k (op.openSource deps s.disc.disc.childAddresses .logs)) ∨
        t = s.setEntry id (e.setOp k { op with status := .failed })) := by
  obtain ⟨e, op, here, acts⟩ := lookup taken
  cases gate : op.status with
  | gated promise =>
      rw [gate] at acts
      by_cases resolved : s.disc.disc.isResolved promise = true
      · simp only [if_pos resolved] at acts
        refine ⟨e, op, promise, here, gate, resolved, ?_⟩
        split at acts
        · next ready => exact .inl ⟨holds_of_invariant on ready, (Option.some.inj acts).symm⟩
        · exact .inr (Option.some.inj acts).symm
      · simp only [if_neg resolved] at acts
        cases acts
  | _ =>
      rw [gate] at acts
      cases acts

theorem advance_inv {s t : Cache F A Q} {id k : Nat} (taken : s.advance deps id k = some t) :
    ∃ e op op', Here s id k e op ∧ Advanced deps s.disc.disc.childAddresses op op' ∧
      (t = s.setEntry id (e.setOp k op') ∨
        t = (s.setEntry id (e.setOp k op')).growFetchQuantum deps) := by
  obtain ⟨e, op, here, acts⟩ := lookup taken
  obtain ⟨op', moved, rest⟩ := Option.bind_eq_some_iff.1 acts
  refine ⟨e, op, op', here, advance_cases moved, ?_⟩
  split at rest
  · exact .inr (Option.some.inj rest).symm
  · exact .inl (Option.some.inj rest).symm

theorem fail_cases {s t : Cache F A Q} {id k : Nat} (taken : s.fail id k = some t) :
    ∃ e op, Here s id k e op ∧ op.status ≠ .done ∧
      t = s.setEntry id (e.setOp k { op with status := .failed }) := by
  obtain ⟨e, op, here, acts⟩ := lookup taken
  refine ⟨e, op, here, ?_⟩
  dsimp only at acts
  split at acts
  · next waits =>
      split at acts
      · exact ⟨by rw [waits]; simp, (Option.some.inj acts).symm⟩
      · cases acts
  · next gate =>
      split at acts
      · exact ⟨by rw [gate]; simp, (Option.some.inj acts).symm⟩
      · cases acts
  · next streams => exact ⟨by rw [streams]; simp, (Option.some.inj acts).symm⟩
  · cases acts

theorem handle_cases {s t : Cache F A Q} {id k : Nat} (taken : s.handle id k = some t) :
    ∃ e op, Here s id k e op ∧ op.status = .failed ∧
      (t = s.setEntry id (e.setOp k { op with status := .handled }) ∨
        t = { s.setEntry id (e.setOp k { op with status := .handled }) with
          dataCache := s.dataCache.delete e.idx }) := by
  obtain ⟨e, op, here, acts⟩ := lookup taken
  refine ⟨e, op, here, ?_⟩
  split at acts
  · next failed =>
      refine ⟨failed, ?_⟩
      split at acts
      · exact .inr (Option.some.inj acts).symm
      · exact .inl (Option.some.inj acts).symm
  · cases acts

/-- What comes after a finished operation comes after finished ones. -/
theorem chained_before {e : Entry F A Q} (chained : e.Chained) {k : Nat}
    (done : e.statusBefore k = some .done) : ∀ j < k, e.statusOf j = some .done := by
  intro j before
  have pos : k ≠ 0 := by omega
  rw [Entry.statusBefore, if_neg pos] at done
  by_cases last : j = k - 1
  · rw [last]
    exact done
  · rw [Entry.statusOf] at done
    cases at_ : e.ops[k - 1]? with
    | none => simp [at_] at done
    | some op =>
        rw [at_] at done
        have isDone : op.status = .done := Option.some.inj done
        exact chained (k - 1) op at_ (by rw [isDone]; rfl) j (by omega)

/-- What a finished operation awaited is finished. -/
theorem chained_done {e : Entry F A Q} (chained : e.Chained) {j k : Nat} {op : Op F A Q}
    (isDone : e.statusOf k = some .done) (le : j ≤ k) (at_ : e.ops[j]? = some op) :
    op.status = .done := by
  rcases Nat.lt_or_eq_of_le le with before | last
  · cases lastOp : e.ops[k]? with
    | none => simp [Entry.statusOf, lastOp] at isDone
    | some opk =>
        rw [Entry.statusOf, lastOp] at isDone
        have started : opk.status.started = true := by
          rw [Option.some.inj isDone]
          rfl
        have status := chained k opk lastOp started j before
        rw [Entry.statusOf, at_] at status
        exact Option.some.inj status
  · rw [← last, Entry.statusOf, at_] at isDone
    exact Option.some.inj isDone

theorem Kept.enter {s t : Cache F A Q} (kept : Kept deps s) {id k : Nat}
    (taken : s.enter deps id k = some t) : Kept deps t := by
  obtain ⟨e, op, here, waits, done, rfl⟩ := enter_cases taken
  refine (kept.ensure op.toBlock op.opts).setOp here.entry here.op ⟨rfl, rfl⟩ ?_ ?_ ?_
  · intro sound
    have idle := sound.progress
    rw [waits] at idle
    exact sound.status idle
  · exact fun _ chained => chained_before chained done
  · rw [waits]
    simp

theorem Kept.pass (on : deps.checks ≠ .off) {s t : Cache F A Q} (kept : Kept deps s) {id k : Nat}
    (taken : s.pass deps id k = some t) : Kept deps t := by
  obtain ⟨e, op, promise, here, gate, _, ⟨_, rfl⟩ | rfl⟩ := pass_cases on taken
  · refine kept.setOp here.entry here.op (openSource_range _ _ _) ?_ ?_ (by rw [gate]; simp)
    · intro sound
      have idle := sound.progress
      rw [gate] at idle
      refine sound.openSource _ ?_ ?_
      · rw [idle.1]
        rfl
      · intro b _
        rw [Op.rowsAt, idle.1, idle.2]
        rfl
    · intro _ chained
      exact chained k op here.op (by rw [gate]; rfl)
  · exact kept.setOp here.entry here.op ⟨rfl, rfl⟩ (fun sound => sound.status trivial)
      (fun started => by cases started) (by rw [gate]; simp)

theorem Kept.advance {s t : Cache F A Q} (kept : Kept deps s) {id k : Nat}
    (taken : s.advance deps id k = some t) : Kept deps t := by
  obtain ⟨e, op, op', here, moved, went⟩ := advance_inv taken
  obtain ⟨fromBlock, toBlock, source, todo, next, running⟩ := moved.range
  have base : Kept deps (s.setEntry id (e.setOp k op')) := by
    refine kept.setOp here.entry here.op ⟨fromBlock, toBlock⟩ (fun sound => sound.advance moved) ?_ ?_
    · intro _ chained
      exact chained k op here.op (by rw [running]; rfl)
    · rw [running]
      simp
  rcases went with rfl | rfl
  · exact base
  · unfold Cache.growFetchQuantum
    by_cases zero : deps.warmupBlocks = 0
    · rw [if_pos zero]
      exact base
    · rw [if_neg zero]
      exact base.same rfl rfl rfl rfl rfl rfl fun isZero => absurd isZero zero

theorem Kept.fail {s t : Cache F A Q} (kept : Kept deps s) {id k : Nat}
    (taken : s.fail id k = some t) : Kept deps t := by
  obtain ⟨e, op, here, undone, rfl⟩ := fail_cases taken
  exact kept.setOp here.entry here.op ⟨rfl, rfl⟩ (fun sound => sound.status trivial)
    (fun started => by cases started) undone

theorem Kept.handle {s t : Cache F A Q} (kept : Kept deps s) {id k : Nat}
    (taken : s.handle id k = some t) : Kept deps t := by
  obtain ⟨e, op, here, failed, went⟩ := handle_cases taken
  have base : Kept deps (s.setEntry id (e.setOp k { op with status := .handled })) :=
    kept.setOp here.entry here.op ⟨rfl, rfl⟩ (fun sound => sound.status trivial)
      (fun started => by cases started) (by rw [failed]; simp)
  rcases went with rfl | rfl
  · exact base
  · refine base.drop ?_
    intro idx id' found
    rw [OrdMap.get?_delete] at found
    split at found
    · cases found
    · exact found

/-! ## Runs -/

theorem Kept.init (deps : SyncDeps F A Q) : Kept deps (Cache.init deps) := by
  refine Kept.pinDiscoveryFloor ⟨fun pin known => known, ?_, ?_, fun _ _ => rfl, ?_, ?_⟩
  · intro e mem
    cases mem
  · intro idx id found
    cases found
  · intro zero
    exact if_pos zero
  · intro call mem
    cases mem

section

variable [DecidableEq F] [DecidableEq A]

theorem Kept.step (on : deps.checks ≠ .off) {s t : Cache F A Q} (kept : Kept deps s)
    {a : CacheAction} (promised : Promised s a) (taken : s.step deps a = some t) : Kept deps t := by
  cases a with
  | dataChunk idx need =>
      by_cases sized : s.sized = true
      · rw [Cache.step, if_pos sized] at taken
        cases taken
        exact kept.call on promised sized
      · rw [Cache.step, if_neg sized] at taken
        cases taken
  | enter id k => exact kept.enter taken
  | pass id k => exact kept.pass on taken
  | advance id k => exact kept.advance taken
  | fail id k => exact kept.fail taken
  | handle id k => exact kept.handle taken
  | refreshPortalHead h =>
      cases taken
      exact kept.refreshPortalHead h
  | ensureChunkSize h =>
      by_cases sized : s.sized = true
      · rw [Cache.step, if_pos sized] at taken
        cases taken
      · rw [Cache.step, if_neg sized] at taken
        cases taken
        exact kept.ensureChunkSize (Bool.eq_false_iff.2 sized) h
  | capGrid =>
      by_cases sized : s.sized = true
      · rw [Cache.step, if_pos sized] at taken
        cases taken
        exact kept.capGrid
      · rw [Cache.step, if_neg sized] at taken
        cases taken
  | pinDiscoveryFloor =>
      cases taken
      exact kept.pinDiscoveryFloor
  | seed throughBlock =>
      cases taken
      exact kept.seed throughBlock
  | evictBehind intervalStart =>
      cases taken
      exact kept.evictBehind intervalStart
  | discovery a =>
      by_cases own : background a = true
      · rw [Cache.step, if_pos own] at taken
        obtain ⟨disc, _, rfl⟩ := Option.map_eq_some_iff.1 taken
        exact kept.same rfl rfl rfl rfl rfl rfl fun _ => rfl
      · rw [Cache.step, if_neg own] at taken
        cases taken

theorem kept_of_reach (on : deps.checks ≠ .off) {s : Cache F A Q}
    (reached : Machine.Reach (Cache.step deps) Promised (Cache.init deps) s) : Kept deps s :=
  reached.invariant (I := Kept deps) (Kept.init deps)
    fun _ _ _ _ kept promised taken => kept.step on promised taken

end

end Cache

/-- A call that has resolved: each block of its need that lies in the backfill and at or below the
head is in the chunk data as one finished operation streamed it. -/
theorem Cache.Kept.served {s : Cache F A Q} (kept : Cache.Kept deps s) {call : ChunkCall}
    (mem : call ∈ s.calls) (resolved : s.promiseOf call = some .done) {need : Interval}
    (given : need ∈ call.need) {b : Nat} (low : need.1 ≤ b) (high : b ≤ need.2)
    (first : deps.backfillStart ≤ b) (last : ∀ n ∈ s.dataEnd deps, b ≤ n) :
    ∃ e op, s.entries[call.entry]? = some e ∧ op ∈ e.ops ∧ op.status = .done ∧ op.Covers b ∧
      op.opened.map Opened.source = Source.all ∧
      e.cd.filter (fun r => r.2 = b) = servedAt op.opened b := by
  obtain ⟨e, here, answers⟩ := kept.calls call mem
  obtain ⟨head, known, entry⟩ := kept.entries e (List.mem_of_getElem? here)
  have inBackfill : ∀ n ∈ deps.backfillEnd, b ≤ n := by
    intro n isEnd
    have limit : s.dataEnd deps = some (min n head) := by
      rw [Cache.dataEnd, Option.mem_def.1 known, Option.mem_def.1 isEnd]
      rfl
    exact Nat.le_trans (last _ limit) (Nat.min_le_left n head)
  obtain ⟨low', high', j, op, le, at_, covers⟩ := answers need given b low high first inBackfill
  have isDone : e.statusOf call.op = some .done := by
    rw [Cache.promiseOf, here] at resolved
    exact resolved
  have done := chained_done entry.chained isDone le at_
  obtain ⟨sources, rows⟩ := entry.streamed low' high' (List.mem_of_getElem? at_) done covers
  exact ⟨e, op, here, List.mem_of_getElem? at_, done, covers, sources, rows⟩

section

variable [DecidableEq F] [DecidableEq A]

/-- In every run: when a call of `dataChunk` has resolved, every block of its need that lies in
the backfill and at or below the head is in the chunk data exactly once, under every query of the
four sources as one operation computed them; and no operation reaches above the head. -/
theorem dataChunk_covers (on : deps.checks ≠ .off) {s : Cache F A Q}
    (reached : Machine.Reach (Cache.step deps) Cache.Promised (Cache.init deps) s) :
    (∀ call ∈ s.calls, s.promiseOf call = some .done → ∀ need ∈ call.need, ∀ b,
      need.1 ≤ b → b ≤ need.2 → deps.backfillStart ≤ b → (∀ n ∈ s.dataEnd deps, b ≤ n) →
      ∃ e op, s.entries[call.entry]? = some e ∧ op ∈ e.ops ∧ op.Covers b ∧
        op.opened.map Opened.source = Source.all ∧
        (∀ o ∈ op.opened, deps.queries o.source o.known = .ok o.queries) ∧
        e.cd.filter (fun r => r.2 = b) =
          op.opened.flatMap fun o => o.queries.map fun q => (q, b)) ∧
    ∀ e ∈ s.entries, ∀ op ∈ e.ops, ∃ head ∈ s.portalHead, op.toBlock ≤ head := by
  have kept := Cache.kept_of_reach on reached
  refine ⟨?_, ?_⟩
  · intro call mem resolved need given b low high first last
    obtain ⟨e, op, here, inOps, _, covers, sources, rows⟩ :=
      kept.served mem resolved given low high first last
    obtain ⟨head, _, entry⟩ := kept.entries e (List.mem_of_getElem? here)
    exact ⟨e, op, here, inOps, covers, sources, (entry.sound op inOps).computed, rows⟩
  · intro e mem op inOps
    obtain ⟨head, known, entry⟩ := kept.entries e mem
    exact ⟨head, known, entry.below op inOps⟩

end

/-! ## A run -/

/-- Two log queries once child 7 is known, and a transaction query. -/
def warmDeps : SyncDeps Unit Nat Nat where
  factories := [()]
  creations := fun _ b => if b = 3 then [7] else []
  discoveryWindows := 1
  preloaded := fun _ => OrdMap.empty
  discFloorBlock := some 0
  queries := fun source known => match source with
    | .logs => .ok (if (known ()).get? 7 = some 3 then [1, 2] else [1])
    | .traces => .ok []
    | .blocks => .ok []
    | .txs => .ok [3]
  backfillStart := 0
  backfillEnd := none
  dense := false
  chunkBlocks := 10
  chunkFixed := false
  traceChunkBlocks := 10
  warmupBlocks := 2
  finalizedHead := none
  checks := .on

/-- A first fetch of blocks 4 and 5, then a prefix repair and an extend for blocks 2 to 7. -/
def warmActions : List CacheAction :=
  [.ensureChunkSize (some 9), .capGrid, .pinDiscoveryFloor, .dataChunk 0 (some (4, 5)),
    .discovery (.start 0)] ++ List.replicate 6 (.discovery (.deliver 0 0)) ++
  [.discovery (.resolve 0), .pass 0 0] ++ List.replicate 13 (.advance 0 0) ++
  [.dataChunk 0 (some (2, 7)), .enter 0 1, .pass 0 1] ++ List.replicate 13 (.advance 0 1) ++
  [.enter 0 2, .discovery (.start 1)] ++ List.replicate 4 (.discovery (.deliver 1 0)) ++
  [.discovery (.resolve 1), .pass 0 2] ++ List.replicate 19 (.advance 0 2)

def warmEnd : Cache Unit Nat Nat :=
  (Machine.replay (Cache.step warmDeps) (Cache.init warmDeps) warmActions).get (by decide +kernel)

theorem dataChunk_covers_sample :
    warmEnd.promiseOf ⟨0, some (2, 7), 0, 2⟩ = some .done ∧
      ∀ b, 2 ≤ b → b ≤ 7 → ∃ e op, warmEnd.entries[0]? = some e ∧ op ∈ e.ops ∧ op.Covers b ∧
        op.opened.map Opened.source = Source.all ∧
        (∀ o ∈ op.opened, warmDeps.queries o.source o.known = .ok o.queries) ∧
        e.cd.filter (fun r => r.2 = b) =
          op.opened.flatMap fun o => o.queries.map fun q => (q, b) := by
  have reached : Machine.Reach (Cache.step warmDeps) Cache.Promised (Cache.init warmDeps) warmEnd :=
    Machine.Reach.init.replay (by decide +kernel) (Option.some_get (by decide +kernel)).symm
  have resolved : warmEnd.promiseOf ⟨0, some (2, 7), 0, 2⟩ = some .done := by decide +kernel
  have limit : warmEnd.dataEnd warmDeps = some 9 := by decide +kernel
  refine ⟨resolved, ?_⟩
  intro b low high
  refine (dataChunk_covers (by decide) reached).1 ⟨0, some (2, 7), 0, 2⟩ (by decide +kernel) resolved
    (2, 7) rfl b low high (Nat.zero_le b) ?_
  intro n isEnd
  rw [limit] at isEnd
  cases isEnd
  omega

end PortalPonder.Historical
