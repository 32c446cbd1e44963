import PortalPonder.Historical.Completeness

/-!
# Discovery reaches the end of an interval

Every range that is called for ends at or below the end of an operation that its promise awaits,
also where nothing of the range is in the backfill: the factories may begin below it. So when the
chunks of an interval are there, every child created in it is known, unless the backfill ends
before the interval does.
-/

namespace PortalPonder.Historical

open Discovery

variable {F A Q : Type} {deps : SyncDeps F A Q}

namespace Entry

/-- An operation goes as far as the entry covers. -/
def Carried (e : Entry F A Q) : Prop := ∃ op ∈ e.ops, e.coveredTo ≤ op.toBlock

/-- An operation up to the `k`-th goes as far as a block, or as the backfill. -/
def Spans (deps : SyncDeps F A Q) (e : Entry F A Q) (k b : Nat) : Prop :=
  ∃ j op, j ≤ k ∧ e.ops[j]? = some op ∧
    (b ≤ op.toBlock ∨ ∃ n ∈ deps.backfillEnd, n ≤ op.toBlock)

/-- Operations are only added, and their ends stay. -/
def Lengthened (e e' : Entry F A Q) : Prop :=
  ∀ (j : Nat) (op : Op F A Q), e.ops[j]? = some op →
    ∃ op', e'.ops[j]? = some op' ∧ op'.toBlock = op.toBlock

theorem Lengthened.refl (e : Entry F A Q) : e.Lengthened e := fun _ op at_ => ⟨op, at_, rfl⟩

theorem Lengthened.push (e : Entry F A Q) (op : Op F A Q) : e.Lengthened (e.push op) := by
  intro j op' at_
  refine ⟨op', ?_, rfl⟩
  show (e.ops ++ [op])[j]? = some op'
  rw [List.getElem?_append_left (List.getElem?_eq_some_iff.1 at_).1]
  exact at_

theorem Lengthened.trans {e e' e'' : Entry F A Q} (one : e.Lengthened e')
    (two : e'.Lengthened e'') : e.Lengthened e'' := by
  intro j op at_
  obtain ⟨op', at', same⟩ := one j op at_
  obtain ⟨op'', at'', same'⟩ := two j op' at'
  exact ⟨op'', at'', same'.trans same⟩

theorem Lengthened.setOp {e : Entry F A Q} {k : Nat} {op op' : Op F A Q}
    (here : e.ops[k]? = some op) (same : op'.toBlock = op.toBlock) :
    e.Lengthened (e.setOp k op') := by
  intro j opj at_
  by_cases isK : k = j
  · subst isK
    cases here.symm.trans at_
    exact ⟨op', List.getElem?_set_self (List.getElem?_eq_some_iff.1 here).1, same⟩
  · exact ⟨opj, (List.getElem?_set_ne isK).trans at_, rfl⟩

theorem Carried.lengthened {e e' : Entry F A Q} (carried : e.Carried)
    (longer : e.Lengthened e') (same : e'.coveredTo = e.coveredTo) : e'.Carried := by
  obtain ⟨op, mem, le⟩ := carried
  obtain ⟨j, at_⟩ := List.mem_iff_getElem?.1 mem
  obtain ⟨op', at', toBlock⟩ := longer j op at_
  exact ⟨op', List.mem_of_getElem? at', by rw [same, toBlock]; exact le⟩

theorem Spans.lengthened {e e' : Entry F A Q} {k b : Nat} (spans : e.Spans deps k b)
    (longer : e.Lengthened e') : e'.Spans deps k b := by
  obtain ⟨j, op, le, at_, reach⟩ := spans
  obtain ⟨op', at', toBlock⟩ := longer j op at_
  exact ⟨j, op', le, at', by rw [toBlock]; exact reach⟩

theorem repairPrefix_carried {e : Entry F A Q} (carried : e.Carried) (need : Option Interval)
    (opts : EnsureOpts) :
    (e.repairPrefix need opts).Carried ∧ e.Lengthened (e.repairPrefix need opts) := by
  unfold Entry.repairPrefix
  cases need with
  | none => exact ⟨carried, .refl e⟩
  | some n =>
      dsimp only
      split
      · have longer := Lengthened.push { e with coveredFrom := n.1 }
          (Op.planned n.1 (e.coveredFrom - 1) opts .waiting)
        exact ⟨carried.lengthened longer rfl, longer⟩
      · exact ⟨carried, .refl e⟩

/-- An entry that has served a need goes as far as the need, or as there is data. -/
theorem serve_carried {e : Entry F A Q} (carried : e.Carried) (desiredTo needTo quantum : Nat)
    (opts : EnsureOpts) :
    (e.serve desiredTo needTo quantum opts).Carried ∧
      e.Lengthened (e.serve desiredTo needTo quantum opts) ∧
      ∃ op ∈ (e.serve desiredTo needTo quantum opts).ops,
        needTo ≤ op.toBlock ∨ desiredTo ≤ op.toBlock := by
  unfold Entry.serve
  split
  · next hit =>
      obtain ⟨op, mem, le⟩ := carried
      exact ⟨⟨op, mem, le⟩, .refl e, op, mem, .inl (Nat.le_trans hit le)⟩
  · have last : Op.planned (e.coveredTo + 1)
        (min desiredTo (max needTo (e.coveredTo + quantum))) opts .waiting ∈
          (e.extend desiredTo needTo quantum opts).ops :=
      List.mem_append_right _ (List.mem_singleton.2 rfl)
    refine ⟨⟨_, last, Nat.le_refl _⟩, Lengthened.push { e with coveredTo := _ } _, _, last, ?_⟩
    show needTo ≤ min _ _ ∨ desiredTo ≤ min _ _
    omega

end Entry

namespace Cache

/-- What every run keeps of the ends of the operations. -/
structure Spanned (deps : SyncDeps F A Q) (s : Cache F A Q) : Prop where
  entries : ∀ e ∈ s.entries, e.Carried
  calls : ∀ call ∈ s.calls, ∃ e, s.entries[call.entry]? = some e ∧
    ∀ need ∈ call.need, e.Spans deps call.op need.2

variable {s t : Cache F A Q}

theorem Spanned.same (spanned : Spanned deps s) (entries : t.entries = s.entries)
    (calls : t.calls = s.calls) : Spanned deps t := by
  refine ⟨by rw [entries]; exact spanned.entries, fun call mem => ?_⟩
  rw [calls] at mem
  rw [entries]
  exact spanned.calls call mem

theorem Spanned.setEntry (spanned : Spanned deps s) {id : Nat} {e e' : Entry F A Q}
    (here : s.entries[id]? = some e) (carried : e'.Carried) (longer : e.Lengthened e') :
    Spanned deps (s.setEntry id e') := by
  refine ⟨fun other mem => ?_, fun call mem => ?_⟩
  · rcases List.mem_or_eq_of_mem_set mem with old | rfl
    · exact spanned.entries other old
    · exact carried
  · obtain ⟨ec, at_, spans⟩ := spanned.calls call mem
    show ∃ ec', (s.entries.set id e')[call.entry]? = some ec' ∧ _
    by_cases same : id = call.entry
    · subst same
      cases here.symm.trans at_
      exact ⟨e', List.getElem?_set_self (List.getElem?_eq_some_iff.1 here).1,
        fun need given => (spans need given).lengthened longer⟩
    · exact ⟨ec, (List.getElem?_set_ne same).trans at_, spans⟩

theorem Spanned.setOp (spanned : Spanned deps s) {id k : Nat} {e : Entry F A Q} {op op' : Op F A Q}
    (here : Here s id k e op) (same : op'.toBlock = op.toBlock) :
    Spanned deps (s.setEntry id (e.setOp k op')) := by
  have longer := Entry.Lengthened.setOp here.op same
  exact spanned.setEntry here.entry
    ((spanned.entries e (List.mem_of_getElem? here.entry)).lengthened longer rfl) longer

/-! ## Calls -/

/-- What is needed of a chunk lies within what is called for, or the backfill ends there. -/
theorem needTo_within {idx chunkBlocks head : Nat} {need : Interval} {range : Interval}
    (desired : range = chunkRange idx chunkBlocks deps.backfillStart
      (minEnd deps.backfillEnd (some head)))
    (high : need.2 < idx * chunkBlocks + chunkBlocks) (below : need.2 ≤ head) {toBlock : Nat}
    (reach : deps.needTo (some need) range.2 ≤ toBlock ∨ range.2 ≤ toBlock) :
    need.2 ≤ toBlock ∨ ∃ n ∈ deps.backfillEnd, n ≤ toBlock := by
  have toEnd : range.2 ≤ toBlock → need.2 ≤ toBlock ∨ ∃ n ∈ deps.backfillEnd, n ≤ toBlock := by
    intro le
    rw [desired] at le
    cases limit : deps.backfillEnd with
    | none =>
        rw [limit] at le
        have le : min (idx * chunkBlocks + chunkBlocks - 1) head ≤ toBlock := le
        exact .inl (by omega)
    | some n =>
        rw [limit] at le
        have le : min (idx * chunkBlocks + chunkBlocks - 1) (min n head) ≤ toBlock := le
        by_cases ended : n ≤ toBlock
        · exact .inr ⟨n, rfl, ended⟩
        · exact .inl (by omega)
  rcases reach with needed | whole
  · unfold SyncDeps.needTo SyncDeps.activeNeed at needed
    by_cases zero : deps.warmupBlocks = 0
    · rw [if_pos zero] at needed
      exact toEnd needed
    · rw [if_neg zero] at needed
      exact .inl needed
  · exact toEnd whole

theorem Spanned.call (on : deps.checks ≠ .off) (spanned : Spanned deps s) (kept : Kept deps s)
    {idx : Nat} {need : Option Interval} (promised : Promised s (.dataChunk idx need)) :
    Spanned deps (s.call deps idx need) := by
  obtain ⟨head, known, promised⟩ := promised
  unfold Cache.call
  cases ok : s.dataChunk deps idx need with
  | error violation => exact spanned
  | ok result =>
      have desired : chunkRange idx s.chunkBlocks deps.backfillStart (s.dataEnd deps) =
          chunkRange idx s.chunkBlocks deps.backfillStart (minEnd deps.backfillEnd (some head)) := by
        rw [Cache.dataEnd, Option.mem_def.1 known]
      cases dataChunk_cases on ok with
      | fromCache here prefix_ after extended =>
          rename_i id e repaired served opts
          have entry := (cached_some here).2
          obtain ⟨carried, longer⟩ := Entry.repairPrefix_carried
            (spanned.entries e (List.mem_of_getElem? entry)) (deps.activeNeed need) opts
          rw [← prefix_] at carried longer
          obtain ⟨carried', longer', op, mem, reach⟩ :
              served.Carried ∧ repaired.Lengthened served ∧ ∃ op ∈ served.ops,
                deps.needTo need _ ≤ op.toBlock ∨ _ ≤ op.toBlock :=
            extended ▸ Entry.serve_carried carried _ _ s.quantum opts
          have base := spanned.setEntry entry carried' (longer.trans longer')
          refine ⟨base.entries, fun call inCalls => ?_⟩
          rcases List.mem_append.1 inCalls with old | new
          · exact base.calls call old
          · rw [List.mem_singleton.1 new]
            refine ⟨served, List.getElem?_set_self (List.getElem?_eq_some_iff.1 entry).1, ?_⟩
            intro n given
            obtain rfl : need = some n := given
            obtain ⟨_, _, high, below⟩ := promised n rfl
            obtain ⟨j, within, at_⟩ := List.getElem_of_mem mem
            exact ⟨j, op, Nat.le_pred_of_lt within, by rw [List.getElem?_eq_getElem within, at_],
              needTo_within desired high below reach⟩
      | fetched absent window =>
          rename_i bounds opts
          have kept' : ∀ (i : Nat) (ei : Entry F A Q), s.entries[i]? = some ei →
              (s.initialFetch deps idx bounds opts).entries[i]? = some ei := fun i ei at_ =>
            (List.getElem?_append_left (List.getElem?_eq_some_iff.1 at_).1).trans at_
          refine ⟨fun e mem => ?_, fun call inCalls => ?_⟩
          · rcases List.mem_append.1 mem with old | new
            · exact spanned.entries e old
            · rw [List.mem_singleton.1 new]
              exact ⟨_, List.mem_singleton.2 rfl, Nat.le_refl _⟩
          · rcases List.mem_append.1 inCalls with old | new
            · obtain ⟨e, at_, spans⟩ := spanned.calls call old
              exact ⟨e, kept' _ e at_, spans⟩
            · rw [List.mem_singleton.1 new]
              refine ⟨_, List.getElem?_concat_length, fun n given => ?_⟩
              obtain rfl : need = some n := given
              obtain ⟨_, _, high, below⟩ := promised n rfl
              refine ⟨0, _, Nat.le_refl 0, rfl, needTo_within desired high below ?_⟩
              show _ ≤ bounds.2 ∨ _ ≤ bounds.2
              rw [window]
              exact kept.reaches rfl

theorem Spanned.callAll (on : deps.checks ≠ .off) (spanned : Spanned deps s) (kept : Kept deps s)
    (sized : s.sized = true) (needs : List (Nat × Option Interval))
    (promised : ∀ n ∈ needs, Promised s (.dataChunk n.1 n.2)) :
    Spanned deps (s.callAll deps needs).1 := by
  induction needs generalizing s with
  | nil => exact spanned
  | cons n rest ih =>
      unfold Cache.callAll
      cases ok : s.dataChunk deps n.1 n.2 with
      | error violation => exact spanned
      | ok result =>
          obtain ⟨same, _, _⟩ := call_same on s n.1 n.2
          have here := promised n List.mem_cons_self
          refine ih (spanned.call on kept here) (kept.call on here sized) (same.sized.trans sized) ?_
          intro m inRest
          have before := promised m (List.mem_cons_of_mem _ inRest)
          unfold Promised at before ⊢
          rw [same.head, same.chunkBlocks]
          exact before

/-! ## Steps -/

/-- The event loop plans nothing, and no operation changes its range. -/
theorem Spanned.loop [DecidableEq F] [DecidableEq A] (on : deps.checks ≠ .off)
    (spanned : Spanned deps s) {a : CacheAction} (own : ofLoop a = true)
    (taken : s.step deps a = some t) : Spanned deps t := by
  cases a with
  | dataChunk idx need => cases own
  | capGrid => cases own
  | pinDiscoveryFloor => cases own
  | seed throughBlock => cases own
  | evictBehind intervalStart => cases own
  | enter id k =>
      obtain ⟨e, op, here, _, _, rfl⟩ := enter_cases taken
      have base : Spanned deps (s.ensure deps op.toBlock op.opts).1 := spanned.same rfl rfl
      exact base.setOp (e := e) ⟨here.entry, here.op⟩ rfl
  | pass id k =>
      obtain ⟨e, op, promise, here, _, _, went⟩ := pass_cases on taken
      rcases went with ⟨_, rfl⟩ | rfl
      · exact spanned.setOp here (openSource_range _ _ _).2
      · exact spanned.setOp here rfl
  | advance id k =>
      obtain ⟨e, op, op', here, moved, went⟩ := advance_inv taken
      have base := spanned.setOp here moved.range.2.1
      rcases went with rfl | rfl
      · exact base
      · refine base.same (growFetchQuantum_disc deps _).2 ?_
        unfold Cache.growFetchQuantum
        split <;> rfl
  | fail id k =>
      obtain ⟨e, op, here, _, rfl⟩ := fail_cases taken
      exact spanned.setOp here rfl
  | handle id k =>
      obtain ⟨e, op, here, _, went⟩ := handle_cases taken
      have base : Spanned deps (s.setEntry id (e.setOp k { op with status := .handled })) :=
        spanned.setOp here rfl
      rcases went with rfl | rfl
      · exact base
      · exact base.same rfl rfl
  | refreshPortalHead h =>
      cases taken
      exact spanned.same rfl rfl
  | ensureChunkSize h =>
      by_cases sized : s.sized = true
      · rw [Cache.step, if_pos sized] at taken
        cases taken
      · rw [Cache.step, if_neg sized] at taken
        cases taken
        unfold Cache.ensureChunkSize
        split <;> exact spanned.same rfl rfl
  | discovery a =>
      by_cases isOwn : Historical.background a = true
      · rw [Cache.step, if_pos isOwn] at taken
        obtain ⟨disc, _, rfl⟩ := Option.map_eq_some_iff.1 taken
        exact spanned.same rfl rfl
      · rw [Cache.step, if_neg isOwn] at taken
        cases taken

/-- A call that has resolved: the children created up to the end of what it was called for are
known, as far as the backfill goes. -/
theorem Good.discovered (good : Good deps s) (spanned : Spanned deps s) {call : ChunkCall}
    (handed : call ∈ s.calls) (done : s.promiseOf call = some .done) {need : Interval}
    (given : need ∈ call.need) :
    ∃ b : Nat, KnownTo deps s.disc.disc.childAddresses b ∧
      (need.2 ≤ b ∨ ∃ n ∈ deps.backfillEnd, n ≤ b) := by
  obtain ⟨e, here, spans⟩ := spanned.calls call handed
  obtain ⟨j, op, le, at_, reach⟩ := spans need given
  have inEntries := List.mem_of_getElem? here
  have inOps := List.mem_of_getElem? at_
  obtain ⟨head, _, entry⟩ := good.kept.entries e inEntries
  rw [promiseOf, here] at done
  have status : op.status = .done := chained_done entry.chained done le at_
  have progress := (entry.sound op inOps).progress
  rw [status] at progress
  have logs : Source.logs ∈ op.opened.map Opened.source := by
    rw [progress.1]
    exact List.mem_cons_self
  obtain ⟨o, opened, isLogs⟩ := List.mem_map.1 logs
  exact ⟨op.toBlock, ((good.informed.ops e inEntries op inOps).opened o opened isLogs).2, reach⟩

end Cache

/-! ## Intervals -/

namespace RangeSync

variable {T R : Type} [DecidableEq F] [DecidableEq A] [DecidableEq T] {sources : Sources F A T R}
  {settings : Settings} {chain : Chain A T} {s t : RangeSync F A T R}

theorem ready_same (sources : Sources F A T R) (settings : Settings) (chain : Chain A T)
    (s : RangeSync F A T R) (interval : Interval) :
    (s.ready sources settings chain interval).entries = s.cache.entries ∧
      (s.ready sources settings chain interval).calls = s.cache.calls := by
  unfold RangeSync.ready Cache.seed Cache.pinned Cache.pinDiscoveryFloor Cache.capGrid
  dsimp only
  split_ifs <;> split <;> exact ⟨rfl, rfl⟩

theorem Sound.spanned (on : settings.checks ≠ .off) (sound : Sound sources settings chain s)
    (spanned : s.cache.Spanned (sources.syncDeps settings chain)) {a : SyncAction F A}
    (may : s.Allowed sources chain a) (taken : s.step sources settings chain a = some t) :
    t.cache.Spanned (sources.syncDeps settings chain) := by
  cases a with
  | cache a =>
      by_cases own : Cache.ofLoop a = true
      · rw [RangeSync.step, if_pos own] at taken
        obtain ⟨cache, moved, rfl⟩ := Option.map_eq_some_iff.1 taken
        exact spanned.loop on own moved
      · rw [RangeSync.step, if_neg own] at taken
        cases taken
  | share f bn child =>
      cases taken
      exact spanned.same rfl rfl
  | serve interval =>
      change s.serve sources settings chain interval = some t at taken
      unfold RangeSync.serve at taken
      cases known : s.cache.portalHead with
      | none =>
          simp only [known] at taken
          cases taken
      | some head =>
          simp only [known] at taken
          split at taken
          · cases taken
          · next can =>
              rw [not_or, isFinalityGap, decide_eq_true_eq, Bool.not_eq_false] at can
              obtain ⟨good, gridded, isHead, _, _⟩ := sound.ready may can.2 known
              have same := ready_same sources settings chain s interval
              cases taken
              exact (spanned.same same.1 same.2).callAll on good.kept gridded.sized _ fun n mem =>
                ⟨head, isHead, fun need given => by
                  obtain ⟨a, b, c, d⟩ := chunkNeeds_within good.grid may.1 mem given
                  exact ⟨a, b, c, by omega⟩⟩
  | finish i saturated =>
      change s.finish sources settings chain i saturated = some t at taken
      unfold RangeSync.finish at taken
      cases here : s.attempts[i]? with
      | none =>
          simp only [here] at taken
          cases taken
      | some att =>
          simp only [here] at taken
          split at taken
          case isFalse => cases taken
          case isTrue can =>
              have mem := List.mem_of_getElem? here
              have attSound := sound.attempts att mem
              unfold AttemptSound at attSound
              rw [can.1] at attSound
              obtain ⟨_, _, _, head, known, _⟩ := attSound
              have gridded : s.cache.Gridded (sources.syncDeps settings chain) :=
                sound.stage.resolve_left fun idle => by
                  rw [idle.1] at mem
                  cases mem
              have called := spanned.callAll on sound.good.kept gridded.sized
                ((readAheadPlan (idxOf att.interval.2 s.cache.chunkBlocks) s.cache.chunkBlocks
                  (s.cache.dataEnd (sources.syncDeps settings chain)) settings.readahead
                  saturated).map fun d => (d, none)) fun n inPlan =>
                    ⟨head, known, fun need given => by
                      obtain ⟨d, _, rfl⟩ := List.mem_map.1 inPlan
                      cases given⟩
              split at taken <;> cases taken
              · exact called
              · exact called.same rfl rfl
  | abort i =>
      change s.abort i = some t at taken
      unfold RangeSync.abort at taken
      split at taken
      · cases taken
      · split at taken <;> cases taken
        exact spanned

/-- When the chunks of an interval are there: the children created up to its end are known, as far
as the backfill goes. -/
theorem Sound.discovered (sound : Sound sources settings chain s)
    (spanned : s.cache.Spanned (sources.syncDeps settings chain)) {att : Attempt A T}
    (mem : att ∈ s.attempts) (waits : att.status = .waiting)
    (done : ∀ call ∈ att.calls, s.cache.promiseOf call = some .done) :
    ∃ b : Nat, KnownTo (sources.syncDeps settings chain) s.cache.disc.disc.childAddresses b ∧
      (att.interval.2 ≤ b ∨ ∃ n ∈ sources.backfillEnd, n ≤ b) := by
  have attSound := sound.attempts att mem
  unfold AttemptSound at attSound
  rw [waits] at attSound
  obtain ⟨order, handed, covers, _⟩ := attSound
  obtain ⟨call, inCalls, need, given, _, last⟩ := covers att.interval.2 order (Nat.le_refl _)
  obtain ⟨b, known, reach⟩ :=
    sound.good.discovered spanned (handed call inCalls) (done call inCalls) given
  exact ⟨b, known, reach.imp_left (Nat.le_trans last)⟩

end RangeSync

end PortalPonder.Historical
