import PortalPonder.Historical.Informed
import PortalPonder.Historical.RangeSync

/-!
# The cache between attempts

What every step of the historical sync keeps of the chunk cache, and what an attempt finds there:
nothing was planned before the first one, and from then on the grid and the floor stay as the
first one has settled them.
-/

namespace PortalPonder.Historical

open Discovery

variable {F A Q : Type} {deps : SyncDeps F A Q}

namespace Cache

/-- What holds of the cache in every state. -/
structure Good (deps : SyncDeps F A Q) (s : Cache F A Q) : Prop where
  kept : Kept deps s
  informed : Informed deps s
  floor : FloorGood deps s.disc.disc.floor
  grid : 0 < s.chunkBlocks

/-- Nothing was planned yet. -/
structure Idle (s : Cache F A Q) : Prop where
  entries : s.entries = []
  scans : s.disc.disc.scans = []
  ensured : s.disc.calls = []
  through : s.disc.disc.through < 0

/-- The grid is capped, the floor is pinned to it, and the head is known. -/
structure Gridded (deps : SyncDeps F A Q) (s : Cache F A Q) : Prop where
  sized : s.sized = true
  capped : traceSafeChunkBlocks s.chunkBlocks deps.dense deps.traceChunkBlocks = s.chunkBlocks
  floor : ∀ n ∈ deps.discFloorBlock,
    s.disc.disc.floor = ((idxOf n s.chunkBlocks * s.chunkBlocks : Nat) : Int)
  head : ∃ head, s.portalHead = some head

/-- What later states keep of an earlier one. -/
structure Later (deps : SyncDeps F A Q) (s t : Cache F A Q) : Prop where
  calls : ∀ call ∈ s.calls, call ∈ t.calls
  head : ∀ head ∈ s.portalHead, ∃ head' ∈ t.portalHead, head ≤ head'
  onward : Onward deps s.disc.disc t.disc.disc

theorem Later.refl (s : Cache F A Q) : Later deps s s :=
  ⟨fun _ mem => mem, fun head known => ⟨head, known, Nat.le_refl head⟩, ⟨Improves.rfl _, id⟩⟩

theorem Later.trans {s t u : Cache F A Q} (a : Later deps s t) (b : Later deps t u) :
    Later deps s u := by
  refine ⟨fun call mem => b.calls call (a.calls call mem), fun head known => ?_,
    ⟨a.onward.better.trans b.onward.better, fun sure => b.onward.sure (a.onward.sure sure)⟩⟩
  obtain ⟨head', known', le⟩ := a.head head known
  obtain ⟨head'', known'', le'⟩ := b.head head' known'
  exact ⟨head'', known'', Nat.le_trans le le'⟩

/-- The grid, the floor and the head are untouched. -/
structure SameGrid (s t : Cache F A Q) : Prop where
  chunkBlocks : t.chunkBlocks = s.chunkBlocks
  sized : t.sized = s.sized
  head : t.portalHead = s.portalHead
  floor : t.disc.disc.floor = s.disc.disc.floor

theorem SameGrid.gridded {s t : Cache F A Q} (same : SameGrid s t) (gridded : Gridded deps s) :
    Gridded deps t := by
  obtain ⟨chunkBlocks, sized, head, floor⟩ := same
  exact ⟨sized.trans gridded.sized, by rw [chunkBlocks]; exact gridded.capped,
    by rw [chunkBlocks, floor]; exact gridded.floor, by rw [head]; exact gridded.head⟩

theorem SameGrid.trans {s t u : Cache F A Q} (a : SameGrid s t) (b : SameGrid t u) :
    SameGrid s u :=
  ⟨b.chunkBlocks.trans a.chunkBlocks, b.sized.trans a.sized, b.head.trans a.head,
    b.floor.trans a.floor⟩

/-! ## Calls -/

/-- What a call of `dataChunk` leaves alone. -/
theorem call_same (on : deps.checks ≠ .off) (s : Cache F A Q) (idx : Nat) (need : Option Interval) :
    SameGrid s (s.call deps idx need) ∧ Later deps s (s.call deps idx need) ∧
      ∀ result, s.dataChunk deps idx need = .ok result →
        ⟨idx, need, result.2.1, result.2.2⟩ ∈ (s.call deps idx need).calls := by
  unfold Cache.call
  cases ok : s.dataChunk deps idx need with
  | error violation => exact ⟨⟨rfl, rfl, rfl, rfl⟩, .refl s, fun result none_ => by cases none_⟩
  | ok result =>
      refine ⟨?_, ?_, ?_⟩
      · cases dataChunk_cases on ok with
        | fromCache here prefix_ after extended => exact ⟨rfl, rfl, rfl, rfl⟩
        | fetched absent window => exact ⟨rfl, rfl, rfl, (ensure_kept _ _ _ _ _).2.1⟩
      · cases dataChunk_cases on ok with
        | fromCache here prefix_ after extended =>
            exact ⟨fun call mem => List.mem_append_left _ mem,
              fun head known => ⟨head, known, Nat.le_refl head⟩, ⟨Improves.rfl _, id⟩⟩
        | fetched absent window =>
            rename_i bounds opts
            obtain ⟨children, _, confirmed⟩ := ensure_kept s.disc.disc deps.discovery
              (s.discoveryEnsureTarget deps bounds.2) opts.chunkBlocks opts.endHint
            refine ⟨fun call mem => List.mem_append_left _ mem,
              fun head known => ⟨head, known, Nat.le_refl head⟩, ⟨.of_eq children, ?_⟩⟩
            unfold Confirmed
            exact fun sure => confirmed ▸ sure
      · intro other same
        cases same
        exact List.mem_append_right _ (List.mem_singleton.2 rfl)

/-- What calls in a row leave behind. -/
structure Called (deps : SyncDeps F A Q) (s : Cache F A Q) (needs : List (Nat × Option Interval))
    (called : Cache F A Q × Option (List ChunkCall)) : Prop where
  good : Good deps called.1
  same : SameGrid s called.1
  later : Later deps s called.1
  calls : ∀ calls ∈ called.2, (∀ call ∈ calls, call ∈ called.1.calls) ∧
    calls.map (fun call => (call.idx, call.need)) = needs

theorem Good.callAll (on : deps.checks ≠ .off) {s : Cache F A Q} (good : Good deps s)
    (sized : s.sized = true) (needs : List (Nat × Option Interval))
    (promised : ∀ n ∈ needs, Promised s (.dataChunk n.1 n.2)) :
    Called deps s needs (s.callAll deps needs) := by
  induction needs generalizing s with
  | nil =>
      refine ⟨good, ⟨rfl, rfl, rfl, rfl⟩, .refl s, fun calls none_ => ?_⟩
      cases none_
      refine ⟨fun call mem => ?_, rfl⟩
      cases mem
  | cons n rest ih =>
      obtain ⟨idx, need⟩ := n
      unfold Cache.callAll
      cases ok : s.dataChunk deps idx need with
      | error violation =>
          exact ⟨good, ⟨rfl, rfl, rfl, rfl⟩, .refl s, fun calls none_ => by cases none_⟩
      | ok result =>
          obtain ⟨t, id, k⟩ := result
          obtain ⟨same, later, mem⟩ := call_same on s idx need
          have kept := good.kept.call on (promised _ List.mem_cons_self) sized
          have informed := (good.informed.call on good.floor idx need).1
          have here := ih ⟨kept, informed, by rw [same.floor]; exact good.floor,
            by rw [same.chunkBlocks]; exact good.grid⟩ (same.sized.trans sized) (by
              intro m inRest
              have before := promised m (List.mem_cons_of_mem _ inRest)
              unfold Promised at before ⊢
              rw [same.head, same.chunkBlocks]
              exact before)
          refine ⟨here.good, same.trans here.same, later.trans here.later, ?_⟩
          intro calls isSome
          obtain ⟨calls', isCalls, rfl⟩ := Option.map_eq_some_iff.1 isSome
          obtain ⟨all, shape⟩ := here.calls calls' isCalls
          refine ⟨?_, by rw [List.map_cons, shape]⟩
          intro call inCalls
          rcases List.mem_cons.1 inCalls with rfl | later'
          · exact here.later.calls _ (mem _ ok)
          · exact all call later'

/-! ## What goes on between the attempts -/

theorem Later.of_onward {s t : Cache F A Q} (calls : t.calls = s.calls)
    (head : t.portalHead = s.portalHead) (onward : Onward deps s.disc.disc t.disc.disc) :
    Later deps s t :=
  ⟨fun _ mem => calls ▸ mem, fun h known => ⟨h, head ▸ known, Nat.le_refl h⟩, onward⟩

/-- A step keeps the cache as it should be, and what was settled. -/
structure Steps (deps : SyncDeps F A Q) (s t : Cache F A Q) : Prop where
  good : Good deps t
  later : Later deps s t
  idle : s.Idle → t.Idle
  gridded : Gridded deps s → Gridded deps t

/-- An operation moves: there was one. -/
theorem Steps.operation {s t : Cache F A Q} (good : Good deps s) {id k : Nat} {e : Entry F A Q}
    {op : Op F A Q} (here : Here s id k e op) (kept : Kept deps t) (informed : Informed deps t)
    (same : SameGrid s t) (later : Later deps s t) : Steps deps s t := by
  refine ⟨⟨kept, informed, by rw [same.floor]; exact good.floor,
    by rw [same.chunkBlocks]; exact good.grid⟩, later, fun idle => ?_, same.gridded⟩
  have entry := here.entry
  rw [idle.entries] at entry
  cases entry

theorem Good.enter {s t : Cache F A Q} (good : Good deps s) {id k : Nat}
    (taken : s.enter deps id k = some t) : Steps deps s t := by
  have kept := good.kept.enter taken
  obtain ⟨informed, floor⟩ := good.informed.enter good.floor taken
  obtain ⟨e, op, here, _, _, rfl⟩ := enter_cases taken
  obtain ⟨children, _, confirmed⟩ := ensure_kept s.disc.disc deps.discovery
    (s.discoveryEnsureTarget deps op.toBlock) op.opts.chunkBlocks op.opts.endHint
  refine .operation good here kept informed ⟨rfl, rfl, rfl, floor⟩
    (.of_onward rfl rfl ⟨.of_eq children, ?_⟩)
  unfold Confirmed
  exact fun sure => confirmed ▸ sure

/-- Discovery stays as it is. -/
theorem Steps.still {s t : Cache F A Q} (good : Good deps s) {id k : Nat} {e : Entry F A Q}
    {op : Op F A Q} (here : Here s id k e op) (kept : Kept deps t) (informed : Informed deps t)
    (disc : t.disc = s.disc) (chunkBlocks : t.chunkBlocks = s.chunkBlocks)
    (sized : t.sized = s.sized) (head : t.portalHead = s.portalHead) (calls : t.calls = s.calls) :
    Steps deps s t := by
  refine .operation good here kept informed ⟨chunkBlocks, sized, head, by rw [disc]⟩
    (.of_onward calls head ?_)
  rw [disc]
  exact ⟨Improves.rfl _, fun sure => sure⟩

theorem Good.pass (on : deps.checks ≠ .off) (floored : Floored deps) {s t : Cache F A Q}
    (good : Good deps s) {id k : Nat} (taken : s.pass deps id k = some t) : Steps deps s t := by
  have kept := good.kept.pass on taken
  obtain ⟨informed, disc⟩ := good.informed.pass on floored taken
  obtain ⟨e, op, promise, here, _, _, ⟨_, rfl⟩ | rfl⟩ := pass_cases on taken
  · exact .still good here kept informed disc rfl rfl rfl rfl
  · exact .still good here kept informed disc rfl rfl rfl rfl

theorem Good.advance {s t : Cache F A Q} (good : Good deps s) {id k : Nat}
    (taken : s.advance deps id k = some t) : Steps deps s t := by
  have kept := good.kept.advance taken
  obtain ⟨informed, disc⟩ := good.informed.advance taken
  obtain ⟨e, op, op', here, _, rfl | rfl⟩ := advance_inv taken
  · exact .still good here kept informed disc rfl rfl rfl rfl
  · have same : ∀ u : Cache F A Q, (u.growFetchQuantum deps).chunkBlocks = u.chunkBlocks ∧
        (u.growFetchQuantum deps).sized = u.sized ∧
        (u.growFetchQuantum deps).portalHead = u.portalHead ∧
        (u.growFetchQuantum deps).calls = u.calls := by
      intro u
      unfold Cache.growFetchQuantum
      split <;> exact ⟨rfl, rfl, rfl, rfl⟩
    obtain ⟨chunkBlocks, sized, head, calls⟩ := same (s.setEntry id (e.setOp k op'))
    exact .still good here kept informed disc chunkBlocks sized head calls

theorem Good.fail {s t : Cache F A Q} (good : Good deps s) {id k : Nat}
    (taken : s.fail id k = some t) : Steps deps s t := by
  have kept := good.kept.fail taken
  obtain ⟨informed, disc⟩ := good.informed.fail taken
  obtain ⟨e, op, here, _, rfl⟩ := fail_cases taken
  exact .still good here kept informed disc rfl rfl rfl rfl

theorem Good.handle {s t : Cache F A Q} (good : Good deps s) {id k : Nat}
    (taken : s.handle id k = some t) : Steps deps s t := by
  have kept := good.kept.handle taken
  obtain ⟨informed, disc⟩ := good.informed.handle taken
  obtain ⟨e, op, here, _, rfl | rfl⟩ := handle_cases taken
  · exact .still good here kept informed disc rfl rfl rfl rfl
  · exact .still good here kept informed disc rfl rfl rfl rfl

theorem Good.refreshPortalHead {s : Cache F A Q} (good : Good deps s) (h : Nat) :
    Steps deps s (s.refreshPortalHead deps h) := by
  have kept := good.kept.refreshPortalHead h
  unfold Cache.refreshPortalHead at kept ⊢
  refine ⟨⟨kept, good.informed.same rfl rfl, good.floor, good.grid⟩,
    ⟨fun call mem => mem, ?_, ⟨Improves.rfl _, id⟩⟩,
    fun idle => ⟨idle.entries, idle.scans, idle.ensured, idle.through⟩,
    fun gridded => ⟨gridded.sized, gridded.capped, gridded.floor, ?_⟩⟩
  · intro head known
    cases pin : deps.finalizedHead with
    | some p =>
        rw [good.kept.pinned p pin] at known
        exact ⟨head, known, Nat.le_refl head⟩
    | none => exact ⟨_, rfl, le_maxHead h head known⟩
  · cases deps.finalizedHead with
    | some p => exact ⟨p, rfl⟩
    | none => exact ⟨_, rfl⟩

/-- The chunk size settles before anything was planned. -/
theorem Good.ensureChunkSize {s : Cache F A Q} (good : Good deps s) (pos : 0 < deps.chunkBlocks)
    (unsized : s.sized = false) (h : Option Nat) : Steps deps s (s.ensureChunkSize deps h) := by
  have kept := good.kept.ensureChunkSize unsized h
  have none_ : ¬ Gridded deps s := by
    intro gridded
    rw [gridded.sized] at unsized
    cases unsized
  unfold Cache.ensureChunkSize at kept ⊢
  split at kept
  · refine ⟨⟨kept, good.informed.same rfl rfl, good.floor, scaleChunkBlocks_pos pos _⟩,
      ⟨fun call mem => mem, ?_, ⟨Improves.rfl _, id⟩⟩,
      fun idle => ⟨idle.entries, idle.scans, idle.ensured, idle.through⟩,
      fun gridded => absurd gridded none_⟩
    intro head known
    show ∃ head' ∈ (if deps.finalizedHead = none then _ else _), head ≤ head'
    split
    · exact ⟨_, rfl, le_maxHead _ head known⟩
    · exact ⟨head, known, Nat.le_refl head⟩
  · exact ⟨⟨kept, good.informed.same rfl rfl, good.floor, good.grid⟩,
      .of_onward rfl rfl ⟨Improves.rfl _, id⟩,
      fun idle => ⟨idle.entries, idle.scans, idle.ensured, idle.through⟩,
      fun gridded => absurd gridded none_⟩

section

variable [DecidableEq F] [DecidableEq A]

theorem Good.background {s : Cache F A Q} (good : Good deps s) {a : Action}
    (own : Historical.background a = true) {disc : Traced F A}
    (taken : s.disc.step deps.discovery a = some disc) : Steps deps s { s with disc } := by
  obtain ⟨start, marked⟩ := good.informed.marked
  obtain ⟨informed, went⟩ := good.informed.background own taken
  have same : SameGrid s { s with disc } := ⟨rfl, rfl, rfl, went.floor⟩
  refine ⟨⟨good.kept.same rfl rfl rfl rfl rfl rfl fun _ => rfl, informed, ?_, good.grid⟩,
    .of_onward rfl rfl ⟨went.better, fun sure => sure.background marked.covering went⟩,
    fun idle => absurd idle.scans went.scans, same.gridded⟩
  show FloorGood deps disc.disc.floor
  rw [went.floor]
  exact good.floor

/-- Whatever the event loop runs next. -/
theorem Good.loop (on : deps.checks ≠ .off) (floored : Floored deps) (pos : 0 < deps.chunkBlocks)
    {s t : Cache F A Q} (good : Good deps s) {a : CacheAction} (own : ofLoop a = true)
    (taken : s.step deps a = some t) : Steps deps s t := by
  cases a with
  | dataChunk idx need => cases own
  | capGrid => cases own
  | pinDiscoveryFloor => cases own
  | seed throughBlock => cases own
  | evictBehind intervalStart => cases own
  | enter id k => exact good.enter taken
  | pass id k => exact good.pass on floored taken
  | advance id k => exact good.advance taken
  | fail id k => exact good.fail taken
  | handle id k => exact good.handle taken
  | refreshPortalHead h =>
      cases taken
      exact good.refreshPortalHead h
  | ensureChunkSize h =>
      by_cases sized : s.sized = true
      · rw [Cache.step, if_pos sized] at taken
        cases taken
      · rw [Cache.step, if_neg sized] at taken
        cases taken
        exact good.ensureChunkSize pos (Bool.eq_false_iff.2 sized) h
  | discovery a =>
      by_cases isOwn : Historical.background a = true
      · rw [Cache.step, if_pos isOwn] at taken
        obtain ⟨disc, moved, rfl⟩ := Option.map_eq_some_iff.1 taken
        exact good.background isOwn moved
      · rw [Cache.step, if_neg isOwn] at taken
        cases taken

end

/-! ## What an attempt does first -/

/-- Once the grid is settled, settling it again changes nothing. -/
theorem Gridded.pinned {s : Cache F A Q} (gridded : Gridded deps s) : s.pinned deps = s := by
  have capped : s.capGrid deps = s := by
    unfold Cache.capGrid
    simp only [gridded.capped, ne_eq, not_true_eq_false, if_false]
  unfold Cache.pinned
  rw [capped]
  unfold Cache.pinDiscoveryFloor
  split
  · rfl
  · next n isFloor =>
      have same := gridded.floor n isFloor
      show { s with disc := { s.disc with disc := s.disc.disc.setFloor _ } } = s
      unfold Discovery.setFloor
      rw [← same]

theorem capGrid_same (deps : SyncDeps F A Q) (s : Cache F A Q) :
    (s.capGrid deps).chunkBlocks =
        traceSafeChunkBlocks s.chunkBlocks deps.dense deps.traceChunkBlocks ∧
      (s.capGrid deps).sized = s.sized ∧ (s.capGrid deps).portalHead = s.portalHead ∧
      (s.capGrid deps).disc.disc.childAddresses = s.disc.disc.childAddresses ∧
      (s.disc.disc.through < 0 → (s.capGrid deps).disc.disc.through < 0) := by
  unfold Cache.capGrid
  simp only
  split
  · exact ⟨rfl, rfl, rfl, rfl, fun _ => show (-1 : Int) < 0 by simp⟩
  · next same => exact ⟨(not_not.1 same).symm, rfl, rfl, rfl, id⟩

theorem pinDiscoveryFloor_same (deps : SyncDeps F A Q) (s : Cache F A Q) :
    (s.pinDiscoveryFloor deps).chunkBlocks = s.chunkBlocks ∧
      (s.pinDiscoveryFloor deps).sized = s.sized ∧
      (s.pinDiscoveryFloor deps).portalHead = s.portalHead ∧
      (s.pinDiscoveryFloor deps).disc.disc.childAddresses = s.disc.disc.childAddresses ∧
      ∀ n ∈ deps.discFloorBlock, (s.pinDiscoveryFloor deps).disc.disc.floor =
        ((idxOf n s.chunkBlocks * s.chunkBlocks : Nat) : Int) := by
  unfold Cache.pinDiscoveryFloor
  split
  · next none_ => exact ⟨rfl, rfl, rfl, rfl, fun n isFloor => by rw [none_] at isFloor; cases isFloor⟩
  · next n isFloor =>
      refine ⟨rfl, rfl, rfl, rfl, fun n' isFloor' => ?_⟩
      cases isFloor.symm.trans isFloor'
      rfl

/-- The first attempt settles the grid. -/
theorem Good.pinned (floored : Floored deps)
    (none_ : deps.discFloorBlock = none → deps.factories = []) (capPos : 0 < deps.traceChunkBlocks)
    {s : Cache F A Q} (good : Good deps s) (idle : s.Idle) (sized : s.sized = true) {head : Nat}
    (known : s.portalHead = some head) :
    Good deps (s.pinned deps) ∧ Gridded deps (s.pinned deps) ∧
      (s.pinned deps).portalHead = some head ∧
      (s.pinned deps).disc.disc.childAddresses = s.disc.disc.childAddresses := by
  obtain ⟨grid, sized', head', children, unset⟩ := capGrid_same deps s
  obtain ⟨grid₂, sized₂, head₂, children₂, floor⟩ := pinDiscoveryFloor_same deps (s.capGrid deps)
  have informed : Informed deps (s.pinned deps) :=
    (good.informed.capGrid floored fun _ => ⟨idle.entries, idle.scans, idle.ensured⟩).pin
      fun n _ => .inl (unset idle.through)
  refine ⟨⟨good.kept.capGrid.pinDiscoveryFloor, informed,
    pinDiscoveryFloor_good (s.capGrid deps) none_, ?_⟩, ⟨?_, ?_, ?_, head, ?_⟩, ?_, ?_⟩
  · show 0 < ((s.capGrid deps).pinDiscoveryFloor deps).chunkBlocks
    rw [grid₂, grid]
    exact traceSafeChunkBlocks_pos good.grid capPos _
  · exact sized₂.trans (sized'.trans sized)
  · show traceSafeChunkBlocks ((s.capGrid deps).pinDiscoveryFloor deps).chunkBlocks _ _ =
      ((s.capGrid deps).pinDiscoveryFloor deps).chunkBlocks
    rw [grid₂, grid]
    exact traceSafeChunkBlocks_idem _ _ _
  · intro n isFloor
    show _ = ((idxOf n ((s.capGrid deps).pinDiscoveryFloor deps).chunkBlocks *
      ((s.capGrid deps).pinDiscoveryFloor deps).chunkBlocks : Nat) : Int)
    rw [grid₂]
    exact floor n isFloor
  · exact head₂.trans (head'.trans known)
  · exact head₂.trans (head'.trans known)
  · exact children₂.trans children

/-- A seed that is adopted is vouched for. -/
theorem Good.seed {s : Cache F A Q} (good : Good deps s) (gridded : Gridded deps s)
    (throughBlock : Int)
    (vouched : deps.factories.isEmpty = false → s.disc.disc.confirmed = -1 →
      KnownTo deps s.disc.disc.childAddresses throughBlock) :
    Good deps (s.seed deps throughBlock) ∧ Gridded deps (s.seed deps throughBlock) ∧
      Later deps s (s.seed deps throughBlock) ∧
      (s.seed deps throughBlock).chunkBlocks = s.chunkBlocks ∧
      (s.seed deps throughBlock).portalHead = s.portalHead := by
  have kept := good.kept.seed throughBlock
  have informed : Informed deps (s.seed deps throughBlock) :=
    good.informed.seed fun _ some_ seeds => vouched some_ seeds.2.2.1
  unfold Cache.seed at kept informed ⊢
  by_cases warm : deps.warmupBlocks ≠ 0 ∧ deps.factories.isEmpty = false
  · rw [if_pos warm] at kept informed ⊢
    obtain ⟨scans, generation, floor, children⟩ := s.disc.disc.seed_same throughBlock
    have disc : (s.onDiscovery deps (s.disc.disc.seed throughBlock) (.seed throughBlock)).disc.disc =
        s.disc.disc.seed throughBlock := by
      unfold Cache.onDiscovery Traced.remember
      dsimp only
      split <;> rfl
    have same : SameGrid s
        (s.onDiscovery deps (s.disc.disc.seed throughBlock) (.seed throughBlock)) :=
      ⟨rfl, rfl, rfl, by rw [disc, floor]⟩
    refine ⟨⟨kept, informed, by rw [same.floor]; exact good.floor, good.grid⟩,
      same.gridded gridded, .of_onward rfl rfl ?_, rfl, rfl⟩
    rw [disc]
    exact ⟨.of_eq children, fun sure => sure.seed throughBlock⟩
  · rw [if_neg warm]
    exact ⟨good, gridded, .refl s, rfl, rfl⟩

/-! ## The other historical sync -/

section

variable [DecidableEq F] [DecidableEq A]

/-- A child that was created is shared. -/
theorem Good.share {s : Cache F A Q} (good : Good deps s) {f : F} {bn : Nat} {child : A}
    (created : child ∈ deps.creations f bn) : Steps deps s (s.share f bn child) := by
  obtain ⟨start, marked⟩ := good.informed.marked
  obtain ⟨scans, floor, through, confirmed, inflight, generation⟩ :=
    record_unrecorded (d := s.disc.disc) f bn child
  have better : Improves s.disc.disc (s.disc.disc.share f bn child) :=
    record_improves (d := s.disc.disc) f bn child
  have sure : Confirmed deps.discovery s.disc.disc →
      Confirmed deps.discovery (s.disc.disc.share f bn child) := by
    unfold Confirmed
    exact fun sure => sure.imp_right fun set_ => show 0 ≤ (s.disc.disc.record f bn child).confirmed by
      rw [confirmed]
      exact set_
  have same : SameGrid s (s.share f bn child) := ⟨rfl, rfl, rfl, floor⟩
  have informed : Informed deps (s.share f bn child) :=
    good.informed.discovery ⟨start, marked.shared created⟩
      (good.informed.fresh.same scans generation rfl sure) ⟨better, sure⟩ rfl rfl rfl
  refine ⟨⟨good.kept.same rfl rfl rfl rfl rfl rfl fun _ => rfl, informed, ?_, good.grid⟩,
    .of_onward rfl rfl ⟨better, sure⟩, fun idle => ⟨idle.entries, ?_, idle.ensured, ?_⟩,
    same.gridded⟩
  · show FloorGood deps (s.disc.disc.record f bn child).floor
    rw [floor]
    exact good.floor
  · show (s.disc.disc.record f bn child).scans = []
    rw [scans]
    exact idle.scans
  · show (s.disc.disc.record f bn child).through < 0
    rw [through]
    exact idle.through

end

end Cache

/-! ## The chunks of an interval -/

/-- The needs of an interval lie in their chunks, and cover the interval. -/
theorem chunkNeeds_within {interval : Interval} {chunkBlocks : Nat} (pos : 0 < chunkBlocks)
    (order : interval.1 ≤ interval.2) {n : Nat × Option Interval}
    (mem : n ∈ chunkNeeds interval chunkBlocks) {need : Interval} (given : need ∈ n.2) :
    n.1 * chunkBlocks ≤ need.1 ∧ need.1 ≤ need.2 ∧ need.2 < n.1 * chunkBlocks + chunkBlocks ∧
      need.2 ≤ interval.2 := by
  obtain ⟨i, small, rfl⟩ := List.mem_map.1 mem
  cases given
  rw [List.mem_range] at small
  have first := Nat.div_add_mod interval.1 chunkBlocks
  have firstLt := Nat.mod_lt interval.1 pos
  have last := Nat.div_mul_le_self interval.2 chunkBlocks
  unfold idxOf at small ⊢
  -- the last chunk begins within the interval
  have upto : (interval.1 / chunkBlocks + i) * chunkBlocks ≤ interval.2 :=
    Nat.le_trans (Nat.mul_le_mul_right chunkBlocks (by omega)) last
  have begins : interval.1 < (interval.1 / chunkBlocks + i) * chunkBlocks + chunkBlocks := by
    have mono := Nat.mul_le_mul_right chunkBlocks (Nat.le_add_right (interval.1 / chunkBlocks) i)
    rw [Nat.mul_comm] at first
    omega
  refine ⟨Nat.le_max_right _ _, ?_, ?_, Nat.min_le_left _ _⟩
  · show max _ _ ≤ min _ _
    omega
  · show min _ _ < (interval.1 / chunkBlocks + i) * chunkBlocks + chunkBlocks
    omega

theorem chunkNeeds_cover {interval : Interval} {chunkBlocks : Nat} (pos : 0 < chunkBlocks) {b : Nat}
    (low : interval.1 ≤ b) (high : b ≤ interval.2) :
    ∃ n ∈ chunkNeeds interval chunkBlocks, ∃ need ∈ n.2, need.1 ≤ b ∧ b ≤ need.2 := by
  have mono := Nat.div_le_div_right (c := chunkBlocks) low
  have mono' := Nat.div_le_div_right (c := chunkBlocks) high
  have split := Nat.div_add_mod b chunkBlocks
  have small := Nat.mod_lt b pos
  rw [Nat.mul_comm] at split
  have idx : interval.1 / chunkBlocks + (b / chunkBlocks - interval.1 / chunkBlocks) =
      b / chunkBlocks := by omega
  refine ⟨_, List.mem_map.2 ⟨b / chunkBlocks - interval.1 / chunkBlocks, ?_, rfl⟩, _, rfl, ?_, ?_⟩
  · rw [List.mem_range]
    unfold idxOf
    omega
  · show max _ _ ≤ b
    unfold idxOf
    rw [idx]
    omega
  · show b ≤ min _ _
    unfold idxOf
    rw [idx]
    omega

end PortalPonder.Historical
