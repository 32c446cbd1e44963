import PortalPonder.Historical.Adoption
import PortalPonder.Historical.ChunkCoverage

/-!
# Fetches are informed

An operation computes its log queries from a child map that has every child created up to the end
of its range: it awaits a promise of `ensure` that reaches this end, and a resolved promise
certifies that the children are known.
-/

namespace PortalPonder.Historical

open Discovery

variable {F A Q : Type} {deps : SyncDeps F A Q}

/-- Every child created up to block `b` is known, from its creation block on at the latest. -/
def KnownTo (deps : SyncDeps F A Q) (known : Children F A) (b : Int) : Prop :=
  ∀ f ∈ deps.factories, ∀ m ≤ b, ∀ c ∈ deps.creations f m, ∃ m', known.Has f c m' ∧ m' ≤ m

theorem KnownTo.mono {d d' : Discovery F A} {b : Int} (known : KnownTo deps d.childAddresses b)
    (better : Improves d d') : KnownTo deps d'.childAddresses b := by
  intro f factory m low c created
  obtain ⟨m', here, le⟩ := known f factory m low c created
  obtain ⟨m'', here', le'⟩ := better f c m' here
  exact ⟨m'', here', Int.le_trans le' le⟩

/-- No factory creates a child below `discFloorBlock`. -/
def Floored (deps : SyncDeps F A Q) : Prop :=
  ∀ f ∈ deps.factories, ∀ m, ∀ c ∈ deps.creations f m, ∃ n ∈ deps.discFloorBlock, (n : Int) ≤ m

/-- The floor is set, at or below `discFloorBlock`. -/
def FloorGood (deps : SyncDeps F A Q) (floor : Int) : Prop :=
  deps.factories = [] ∨ 0 ≤ floor ∧ ∀ n ∈ deps.discFloorBlock, floor ≤ n

/-- A promise was returned by an `ensure` for the end of a range. -/
def GatedBy (deps : SyncDeps F A Q) (disc : Traced F A) (toBlock : Nat) (promise : Option Nat) :
    Prop :=
  ∃ call ∈ disc.calls, call.promise = promise ∧
    (deps.factories = [] ∨ 0 ≤ call.floor ∧ (∀ n ∈ deps.discFloorBlock, call.floor ≤ n) ∧
      ((toBlock : Int) < call.floor ∨ call.needTo = toBlock))

/-- The log queries were computed from the children created up to the end of the range, which
stay known, and discovery had confirmed something by then. -/
structure OpInformed (deps : SyncDeps F A Q) (disc : Traced F A) (op : Op F A Q) : Prop where
  gate : ∀ promise, op.status = .gated promise → GatedBy deps disc op.toBlock promise
  opened : ∀ o ∈ op.opened, o.source = .logs →
    KnownTo deps o.known op.toBlock ∧ KnownTo deps disc.disc.childAddresses op.toBlock
  sure : (op.opened ≠ [] ∨ ∃ source todo next, op.status = .streaming source todo next) →
    Confirmed deps.discovery disc.disc

structure Informed (deps : SyncDeps F A Q) (s : Cache F A Q) : Prop where
  marked : ∃ start, Watermark deps.discovery s.disc start
  fresh : Fresh deps.discovery s.disc
  seeded : KnownTo deps s.disc.disc.childAddresses s.disc.seeded
  calls : ∀ call ∈ s.disc.calls, KnownTo deps s.disc.disc.childAddresses call.seeded
  ops : ∀ e ∈ s.entries, ∀ op ∈ e.ops, OpInformed deps s.disc op

/-- Children stay known, and the confirmed watermark stays set. -/
structure Onward (deps : SyncDeps F A Q) (d d' : Discovery F A) : Prop where
  better : Improves d d'
  sure : Confirmed deps.discovery d → Confirmed deps.discovery d'

theorem OpInformed.mono {disc disc' : Traced F A} {op : Op F A Q}
    (informed : OpInformed deps disc op) (onward : Onward deps disc.disc disc'.disc)
    (more : ∀ call ∈ disc.calls, call ∈ disc'.calls) : OpInformed deps disc' op := by
  refine ⟨fun promise gate => ?_, fun o mem logs => ?_, fun went => onward.sure (informed.sure went)⟩
  · obtain ⟨call, mem, rest⟩ := informed.gate promise gate
    exact ⟨call, more call mem, rest⟩
  · obtain ⟨then_, now⟩ := informed.opened o mem logs
    exact ⟨then_, now.mono onward.better⟩

/-- The entries change, and discovery does not. -/
theorem Informed.entries {s t : Cache F A Q} (informed : Informed deps s) (disc : t.disc = s.disc)
    (ops : ∀ e ∈ t.entries, ∀ op ∈ e.ops,
      (∃ e' ∈ s.entries, op ∈ e'.ops) ∨ OpInformed deps s.disc op) : Informed deps t := by
  refine ⟨by rw [disc]; exact informed.marked, by rw [disc]; exact informed.fresh,
    by rw [disc]; exact informed.seeded, by rw [disc]; exact informed.calls, ?_⟩
  intro e mem op inOps
  rw [disc]
  rcases ops e mem op inOps with ⟨e', mem', inOps'⟩ | new
  · exact informed.ops e' mem' op inOps'
  · exact new

theorem Informed.same {s t : Cache F A Q} (informed : Informed deps s) (disc : t.disc = s.disc)
    (entries : t.entries = s.entries) : Informed deps t :=
  informed.entries disc fun e mem _ inOps => .inl ⟨e, entries ▸ mem, inOps⟩

/-- Discovery moves on without a call of `ensure` and without a seed. -/
theorem Informed.discovery {s t : Cache F A Q} (informed : Informed deps s)
    (marked : ∃ start, Watermark deps.discovery t.disc start)
    (fresh : Fresh deps.discovery t.disc) (onward : Onward deps s.disc.disc t.disc.disc)
    (seeded : t.disc.seeded = s.disc.seeded) (calls : t.disc.calls = s.disc.calls)
    (entries : t.entries = s.entries) : Informed deps t := by
  refine ⟨marked, fresh, ?_, ?_, ?_⟩
  · rw [seeded]
    exact informed.seeded.mono onward.better
  · intro call mem
    rw [calls] at mem
    exact (informed.calls call mem).mono onward.better
  · intro e mem op inOps
    rw [entries] at mem
    exact (informed.ops e mem op inOps).mono onward fun call mem => calls ▸ mem

/-! ## Operations -/

/-- An operation of an entry is replaced. -/
theorem Informed.setOp {s : Cache F A Q} (informed : Informed deps s) {id k : Nat}
    {e : Entry F A Q} {op' : Op F A Q} (here : s.entries[id]? = some e)
    (new : OpInformed deps s.disc op') : Informed deps (s.setEntry id (e.setOp k op')) := by
  refine informed.entries rfl ?_
  intro ei mem op inOps
  rcases List.mem_or_eq_of_mem_set mem with old | rfl
  · exact .inl ⟨ei, old, inOps⟩
  · rcases List.mem_or_eq_of_mem_set inOps with old | rfl
    · exact .inl ⟨e, List.mem_of_getElem? here, old⟩
    · exact .inr new

/-- An operation that has opened nothing and awaits no promise. -/
theorem OpInformed.idle {disc : Traced F A} {op : Op F A Q} (opened : op.opened = [])
    (status : op.status = .waiting) : OpInformed deps disc op := by
  refine ⟨fun promise gate => ?_, fun o mem => ?_, fun went => ?_⟩
  · rw [status] at gate
    cases gate
  · rw [opened] at mem
    cases mem
  · simp [opened, status] at went

/-- The status is set to one that neither awaits nor streams. -/
theorem OpInformed.status {disc : Traced F A} {op : Op F A Q} (old : OpInformed deps disc op)
    {status : OpStatus Q} (gate : ∀ promise, status ≠ .gated promise)
    (idle : ∀ source todo next, status ≠ .streaming source todo next) :
    OpInformed deps disc { op with status } := by
  refine ⟨fun promise is => absurd is (gate promise), old.opened, fun went => old.sure ?_⟩
  exact went.imp_right fun ⟨source, todo, next, is⟩ => absurd is (idle source todo next)

theorem repairPrefix_ops {e : Entry F A Q} {activeNeed : Option Interval} {opts : EnsureOpts} :
    ∀ op ∈ (e.repairPrefix activeNeed opts).ops,
      op ∈ e.ops ∨ op.opened = [] ∧ op.status = .waiting := by
  intro op mem
  unfold Entry.repairPrefix at mem
  split at mem
  · exact .inl mem
  · split at mem
    · rcases List.mem_append.1 mem with old | new
      · exact .inl old
      · rw [List.mem_singleton.1 new]
        exact .inr ⟨rfl, rfl⟩
    · exact .inl mem

theorem serve_ops {e : Entry F A Q} {desiredTo needTo quantum : Nat} {opts : EnsureOpts} :
    ∀ op ∈ (e.serve desiredTo needTo quantum opts).ops,
      op ∈ e.ops ∨ op.opened = [] ∧ op.status = .waiting := by
  intro op mem
  unfold Entry.serve at mem
  split at mem
  · exact .inl mem
  · rcases List.mem_append.1 mem with old | new
    · exact .inl old
    · rw [List.mem_singleton.1 new]
      exact .inr ⟨rfl, rfl⟩

/-! ## Discovery is ensured -/

theorem ensure_kept (d : Discovery F A) (ddeps : DiscoveryDeps F A) (needTo : Int)
    (chunkBlocks : Nat) (endHint : Int) :
    (d.ensure ddeps needTo chunkBlocks endHint).1.childAddresses = d.childAddresses ∧
      (d.ensure ddeps needTo chunkBlocks endHint).1.floor = d.floor ∧
      (d.ensure ddeps needTo chunkBlocks endHint).1.confirmed = d.confirmed := by
  unfold Discovery.ensure
  split
  · exact ⟨rfl, rfl, rfl⟩
  · split <;> exact ⟨rfl, rfl, rfl⟩

/-- After `ensure` for the end of a range, its promise gates the range. -/
theorem Informed.ensure {s : Cache F A Q} (informed : Informed deps s)
    (floored : FloorGood deps s.disc.disc.floor) (target : Nat) (opts : EnsureOpts) :
    Informed deps (s.ensure deps target opts).1 ∧
      GatedBy deps (s.ensure deps target opts).1.disc target (s.ensure deps target opts).2 := by
  obtain ⟨start, marked⟩ := informed.marked
  have onward : Onward deps s.disc.disc (s.ensure deps target opts).1.disc.disc := by
    obtain ⟨children, _, confirmed⟩ := ensure_kept s.disc.disc deps.discovery
      (s.discoveryEnsureTarget deps target) opts.chunkBlocks opts.endHint
    refine ⟨.of_eq children, ?_⟩
    unfold Confirmed
    exact fun sure => confirmed ▸ sure
  refine ⟨⟨marked.ensure _ _ _, informed.fresh.ensure marked _ _ _,
    informed.seeded.mono onward.better, ?_, ?_⟩, ?_⟩
  · intro call mem
    rcases List.mem_append.1 mem with old | new
    · exact (informed.calls call old).mono onward.better
    · rw [List.mem_singleton.1 new]
      exact informed.seeded.mono onward.better
  · intro e mem op inOps
    exact (informed.ops e mem op inOps).mono onward fun call mem => List.mem_append_left _ mem
  · refine ⟨⟨s.discoveryEnsureTarget deps target, s.disc.disc.floor, s.disc.seeded,
      (s.ensure deps target opts).2⟩, List.mem_append_right _ (List.mem_singleton.2 rfl), rfl, ?_⟩
    rcases floored with none_ | ⟨set_, low⟩
    · exact .inl none_
    · refine .inr ⟨set_, low, ?_⟩
      show (target : Int) < s.disc.disc.floor ∨ s.discoveryEnsureTarget deps target = target
      unfold Cache.discoveryEnsureTarget
      split
      · exact .inr rfl
      · split
        · next below => exact .inl below.1
        · exact .inr rfl

/-- A range whose promise has resolved: the children created up to its end are known. -/
theorem Informed.known {s : Cache F A Q} (informed : Informed deps s) (floored : Floored deps)
    {toBlock : Nat} {promise : Option Nat} (gated : GatedBy deps s.disc toBlock promise)
    (resolved : s.disc.disc.isResolved promise = true) :
    KnownTo deps s.disc.disc.childAddresses toBlock := by
  obtain ⟨start, marked⟩ := informed.marked
  obtain ⟨call, mem, isPromise, gate⟩ := gated
  intro f factory m low c created
  obtain ⟨n, isFloor, above⟩ := floored f factory m c created
  rcases gate with none_ | ⟨set_, lowest, reach⟩
  · rw [none_] at factory
    cases factory
  · have from_ : call.floor ≤ m := Int.le_trans (lowest n isFloor) above
    rcases reach with below | needTo
    · omega
    · by_cases vouched : m ≤ call.seeded
      · exact informed.calls call mem f factory m vouched c created
      · exact marked.certifies mem (isPromise ▸ resolved) set_ (factory : f ∈ deps.discovery.factories)
          from_ (by omega) (by omega) c created

theorem Informed.confirmed {s : Cache F A Q} (informed : Informed deps s) {toBlock : Nat}
    {promise : Option Nat} (gated : GatedBy deps s.disc toBlock promise)
    (resolved : s.disc.disc.isResolved promise = true) : Confirmed deps.discovery s.disc.disc := by
  obtain ⟨call, mem, isPromise, gate⟩ := gated
  rcases gate with none_ | ⟨set_, _⟩
  · exact .inl none_
  · exact informed.fresh.calls call mem set_ (isPromise ▸ resolved)

namespace Cache

theorem ensure_floor (s : Cache F A Q) (target : Nat) (opts : EnsureOpts) :
    (s.ensure deps target opts).1.disc.disc.floor = s.disc.disc.floor :=
  (ensure_kept _ _ _ _ _).2.1

end Cache

theorem Informed.enter {s t : Cache F A Q} (informed : Informed deps s)
    (floored : FloorGood deps s.disc.disc.floor) {id k : Nat} (taken : s.enter deps id k = some t) :
    Informed deps t ∧ t.disc.disc.floor = s.disc.disc.floor := by
  obtain ⟨e, op, here, waits, _, rfl⟩ := Cache.enter_cases taken
  obtain ⟨base, gated⟩ := informed.ensure floored op.toBlock op.opts
  have old := base.ops e (List.mem_of_getElem? here.entry) op (List.mem_of_getElem? here.op)
  refine ⟨base.setOp here.entry ⟨fun promise gate => ?_, old.opened, fun went => old.sure ?_⟩,
    Cache.ensure_floor s op.toBlock op.opts⟩
  · cases gate
    exact gated
  · exact went.imp_right (by simp)

theorem openSource_informed {disc : Traced F A} {op : Op F A Q} {known : Children F A}
    {source : Source} (old : ∀ o ∈ op.opened, o.source = .logs →
      KnownTo deps o.known op.toBlock ∧ KnownTo deps disc.disc.childAddresses op.toBlock)
    (new : source = .logs →
      KnownTo deps known op.toBlock ∧ KnownTo deps disc.disc.childAddresses op.toBlock)
    (sure : Confirmed deps.discovery disc.disc) :
    OpInformed deps disc (op.openSource deps known source) := by
  unfold Op.openSource
  split
  · refine ⟨fun promise gate => ?_, old, fun _ => sure⟩
    cases gate
  · refine ⟨fun promise gate => ?_, ?_, fun _ => sure⟩
    · cases gate
    · intro o mem
      rcases List.mem_append.1 mem with before | last
      · exact old o before
      · rw [List.mem_singleton.1 last]
        exact new

theorem Informed.pass (on : deps.checks ≠ .off) {s t : Cache F A Q} (informed : Informed deps s)
    (floored : Floored deps) {id k : Nat} (taken : s.pass deps id k = some t) :
    Informed deps t ∧ t.disc = s.disc := by
  obtain ⟨e, op, promise, here, gate, resolved, went⟩ := Cache.pass_cases on taken
  have old := informed.ops e (List.mem_of_getElem? here.entry) op (List.mem_of_getElem? here.op)
  rcases went with ⟨_, rfl⟩ | rfl
  · have known := informed.known floored (old.gate promise gate) resolved
    exact ⟨informed.setOp here.entry (openSource_informed old.opened (fun _ => ⟨known, known⟩)
      (informed.confirmed (old.gate promise gate) resolved)), rfl⟩
  · exact ⟨informed.setOp here.entry (old.status (by simp) (by simp)), rfl⟩

/-- A later source is no log source. -/
theorem Source.next_not_logs {source source' : Source} (turn : source.next = some source') :
    source' ≠ .logs := by
  cases source <;> cases turn <;> simp

theorem Advanced.informed {disc : Traced F A} {known : Children F A} {op op' : Op F A Q}
    (moved : Advanced deps known op op') (old : OpInformed deps disc op) :
    OpInformed deps disc op' := by
  cases moved with
  | deliver running left =>
      refine ⟨fun promise gate => ?_, old.opened, fun _ => old.sure (.inr ⟨_, _, _, running⟩)⟩
      cases gate
  | query running drained =>
      refine ⟨fun promise gate => ?_, old.opened, fun _ => old.sure (.inr ⟨_, _, _, running⟩)⟩
      cases gate
  | source running turn =>
      exact openSource_informed old.opened (fun logs => absurd logs (Source.next_not_logs turn))
        (old.sure (.inr ⟨_, _, _, running⟩))
  | finish running turn =>
      exact old.status (by simp) (by simp)

theorem growFetchQuantum_disc (deps : SyncDeps F A Q) (s : Cache F A Q) :
    (s.growFetchQuantum deps).disc = s.disc ∧ (s.growFetchQuantum deps).entries = s.entries := by
  unfold Cache.growFetchQuantum
  split <;> exact ⟨rfl, rfl⟩

theorem Informed.advance {s t : Cache F A Q} (informed : Informed deps s) {id k : Nat}
    (taken : s.advance deps id k = some t) : Informed deps t ∧ t.disc = s.disc := by
  obtain ⟨e, op, op', here, moved, went⟩ := Cache.advance_inv taken
  have old := informed.ops e (List.mem_of_getElem? here.entry) op (List.mem_of_getElem? here.op)
  have base : Informed deps (s.setEntry id (e.setOp k op')) :=
    informed.setOp here.entry (moved.informed old)
  rcases went with rfl | rfl
  · exact ⟨base, rfl⟩
  · have same := growFetchQuantum_disc deps (s.setEntry id (e.setOp k op'))
    exact ⟨base.same same.1 same.2, same.1⟩

theorem Informed.fail {s t : Cache F A Q} (informed : Informed deps s) {id k : Nat}
    (taken : s.fail id k = some t) : Informed deps t ∧ t.disc = s.disc := by
  obtain ⟨e, op, here, _, rfl⟩ := Cache.fail_cases taken
  have old := informed.ops e (List.mem_of_getElem? here.entry) op (List.mem_of_getElem? here.op)
  exact ⟨informed.setOp here.entry (old.status (by simp) (by simp)), rfl⟩

theorem Informed.handle {s t : Cache F A Q} (informed : Informed deps s) {id k : Nat}
    (taken : s.handle id k = some t) : Informed deps t ∧ t.disc = s.disc := by
  obtain ⟨e, op, here, _, went⟩ := Cache.handle_cases taken
  have old := informed.ops e (List.mem_of_getElem? here.entry) op (List.mem_of_getElem? here.op)
  have base : Informed deps (s.setEntry id (e.setOp k { op with status := .handled })) :=
    informed.setOp here.entry (old.status (by simp) (by simp))
  rcases went with rfl | rfl
  · exact ⟨base, rfl⟩
  · exact ⟨base.same rfl rfl, rfl⟩

/-! ## Calls -/

theorem Informed.call (on : deps.checks ≠ .off) {s : Cache F A Q} (informed : Informed deps s)
    (floored : FloorGood deps s.disc.disc.floor) (idx : Nat) (need : Option Interval) :
    Informed deps (s.call deps idx need) ∧
      (s.call deps idx need).disc.disc.floor = s.disc.disc.floor := by
  unfold Cache.call
  cases ok : s.dataChunk deps idx need with
  | error violation => exact ⟨informed, rfl⟩
  | ok result =>
      cases Cache.dataChunk_cases on ok with
      | fromCache here prefix_ after extended =>
          rename_i id e repaired served opts
          refine ⟨informed.entries rfl ?_, rfl⟩
          intro ei mem op inOps
          rcases List.mem_or_eq_of_mem_set mem with old | rfl
          · exact .inl ⟨ei, old, inOps⟩
          · rw [extended] at inOps
            rcases serve_ops op inOps with inRepaired | ⟨opened, waits⟩
            · rw [prefix_] at inRepaired
              rcases repairPrefix_ops op inRepaired with old | ⟨opened, waits⟩
              · exact .inl ⟨e, List.mem_of_getElem? (Cache.cached_some here).2, old⟩
              · exact .inr (.idle opened waits)
            · exact .inr (.idle opened waits)
      | fetched absent window =>
          rename_i bounds opts
          obtain ⟨base, gated⟩ := informed.ensure floored bounds.2 opts
          refine ⟨base.entries rfl ?_, Cache.ensure_floor s bounds.2 opts⟩
          intro ei mem op inOps
          rcases List.mem_append.1 mem with old | new
          · exact .inl ⟨ei, old, inOps⟩
          · rw [List.mem_singleton.1 new] at inOps
            rw [List.mem_singleton.1 inOps]
            refine .inr ⟨fun promise gate => ?_, fun o mem => ?_, fun went => ?_⟩
            · cases gate
              exact gated
            · cases mem
            · simp [Op.planned] at went

/-! ## Discovery moves on -/

theorem Floored.below (floored : Floored deps) {known : Children F A} {b : Int} (negative : b < 0) :
    KnownTo deps known b := by
  intro f factory m low c created
  obtain ⟨n, _, le⟩ := floored f factory m c created
  have : (0 : Int) ≤ n := Int.natCast_nonneg n
  omega

theorem Informed.pin {s : Cache F A Q} (informed : Informed deps s)
    (keeps : ∀ n ∈ deps.discFloorBlock, s.disc.disc.through < 0 ∨
      s.disc.disc.floor = idxOf n s.chunkBlocks * s.chunkBlocks) :
    Informed deps (s.pinDiscoveryFloor deps) := by
  unfold Cache.pinDiscoveryFloor
  split
  · exact informed
  · next n isFloor =>
      obtain ⟨start, marked⟩ := informed.marked
      have kept : s.disc.FloorKept (.setFloor (idxOf n s.chunkBlocks * s.chunkBlocks)) := by
        rcases keeps n isFloor with unset | same
        · exact .inl unset
        · by_cases unset : s.disc.disc.through < 0
          · exact .inl unset
          · have first := marked.ahead.floor (Int.not_lt.1 unset)
            show _ ∨ _ ∨ _
            push_cast
            omega
      exact informed.discovery ⟨start, marked.setFloor kept⟩ (informed.fresh.same rfl rfl rfl id)
        ⟨.of_eq rfl, id⟩ rfl rfl rfl

theorem pinDiscoveryFloor_good (s : Cache F A Q)
    (none_ : deps.discFloorBlock = none → deps.factories = []) :
    FloorGood deps (s.pinDiscoveryFloor deps).disc.disc.floor := by
  unfold Cache.pinDiscoveryFloor
  split
  · next isNone => exact .inl (none_ isNone)
  · next n isFloor =>
      refine .inr ⟨Int.natCast_nonneg _, fun n' isFloor' => ?_⟩
      cases isFloor.symm.trans isFloor'
      exact Int.ofNat_le.2 (Nat.div_mul_le_self n s.chunkBlocks)

/-- The grid is reset before anything was planned. -/
theorem Informed.capGrid (floored : Floored deps) {s : Cache F A Q} (informed : Informed deps s)
    (planned : traceSafeChunkBlocks s.chunkBlocks deps.dense deps.traceChunkBlocks ≠ s.chunkBlocks →
      s.entries = [] ∧ s.disc.disc.scans = [] ∧ s.disc.calls = []) :
    Informed deps (s.capGrid deps) := by
  unfold Cache.capGrid
  simp only
  split
  · next changes =>
      obtain ⟨entries, scans, calls⟩ := planned changes
      obtain ⟨start, marked⟩ := informed.marked
      refine ⟨⟨start, marked.reset⟩, ⟨fun i scan here => ?_, fun call mem => ?_⟩,
        floored.below (show (-1 : Int) < 0 by simp), fun call mem => ?_, fun e mem => ?_⟩
      · have here' : s.disc.disc.scans[i]? = some scan := here
        simp [scans] at here'
      · have mem' : call ∈ s.disc.calls := mem
        simp [calls] at mem'
      · have mem' : call ∈ s.disc.calls := mem
        simp [calls] at mem'
      · have mem' : e ∈ s.entries := mem
        simp [entries] at mem'
  · exact informed

/-- A seed that is adopted is vouched for. -/
theorem Informed.seed {s : Cache F A Q} (informed : Informed deps s) {throughBlock : Int}
    (vouched : deps.warmupBlocks ≠ 0 → deps.factories.isEmpty = false →
      Traced.Seeds s.disc.disc throughBlock → KnownTo deps s.disc.disc.childAddresses throughBlock) :
    Informed deps (s.seed deps throughBlock) := by
  unfold Cache.seed
  split
  · next warm =>
      obtain ⟨start, marked⟩ := informed.marked
      have marked := marked.seed throughBlock
      obtain ⟨scans, generation, _, children⟩ := s.disc.disc.seed_same throughBlock
      have onward : Onward deps s.disc.disc (s.disc.disc.seed throughBlock) :=
        ⟨.of_eq children, fun sure => sure.seed throughBlock⟩
      unfold Cache.onDiscovery Traced.remember at *
      dsimp only at *
      by_cases seeds : Traced.Seeds s.disc.disc throughBlock
      · rw [if_pos seeds] at *
        exact ⟨⟨start, marked⟩, informed.fresh.same scans generation rfl onward.sure,
          (vouched warm.1 warm.2 seeds).mono onward.better,
          fun call mem => (informed.calls call mem).mono onward.better,
          fun e mem op inOps => (informed.ops e mem op inOps).mono onward fun call old => old⟩
      · rw [if_neg seeds] at *
        exact informed.discovery ⟨start, marked⟩
          (informed.fresh.same scans generation rfl onward.sure) onward rfl rfl rfl
  · exact informed

theorem Informed.init (floored : Floored deps) : Informed deps (Cache.init deps) := by
  refine Informed.pin ⟨⟨fun _ => 0, .init deps.discovery _⟩, ⟨fun i scan here => ?_,
    fun call mem => ?_⟩, floored.below (show (-1 : Int) < 0 by simp), fun call mem => ?_,
    fun e mem => ?_⟩ fun n _ => .inl (show (-1 : Int) < 0 by simp)
  · cases here
  · cases mem
  · cases mem
  · cases mem

theorem Informed.background [DecidableEq F] [DecidableEq A] {s : Cache F A Q}
    (informed : Informed deps s) {a : Action} (own : Historical.background a = true)
    {disc : Traced F A} (taken : s.disc.step deps.discovery a = some disc) :
    Informed deps { s with disc } ∧ Background s.disc.disc disc.disc := by
  obtain ⟨start, marked⟩ := informed.marked
  have kept : s.disc.FloorKept a := by
    cases a with
    | setFloor floor => cases own
    | _ => trivial
  have next := marked.step kept taken
  obtain ⟨d', moved, rfl⟩ := Option.map_eq_some_iff.1 taken
  have went := background_cases own moved
  have quiet : s.disc.remember deps.discovery d' a = { s.disc with disc := d' } := by
    cases a <;> first | rfl | cases own
  rw [quiet] at next ⊢
  exact ⟨informed.discovery next (informed.fresh.background marked went)
    ⟨went.better, fun sure => sure.background marked.covering went⟩ rfl rfl rfl, went⟩

end PortalPonder.Historical
