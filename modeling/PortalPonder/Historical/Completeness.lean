import PortalPonder.FetchSpec
import PortalPonder.Historical.Pipeline

/-!
# Completeness of an interval

Every attempt that resolves returns exactly the logs of its interval that a filter matches, where
a factory filter matches the logs of the children its factory has created by then: whatever the
settings, the order in which scans and fetches complete, and the attempts that fail on the way.
-/

namespace PortalPonder.Historical

open Discovery

variable {F A T R : Type} [DecidableEq F] [DecidableEq A] [DecidableEq T]

namespace Sources

variable (sources : Sources F A T R) (chain : Chain A T)

/-- The full child map: a factory has created the address by block `bn`. -/
def Created (f : F) (address : A) (bn : Nat) : Prop :=
  ∃ m ≤ bn, address ∈ sources.creations chain f m

/-- What a filter matches on chain. -/
def Matches (filter : LogFilter F A T) (log : ChainLog A T) (bn : Nat) : Prop :=
  isLogFilterMatched filter log bn = true ∧
    ∀ id, filter.address = .factory id → sources.Created chain id log.address bn

variable {sources chain}

omit [DecidableEq A] [DecidableEq T] in
theorem mem_factories {filter : LogFilter F A T} (mem : filter ∈ sources.logFilters) {id : F}
    (kind : filter.address = .factory id) : id ∈ sources.factories := by
  refine List.mem_eraseDups.2 (List.mem_append_left _ (List.mem_filterMap.2 ⟨filter, mem, ?_⟩))
  simp [factoryOf, kind]

omit [DecidableEq F] in
theorem creations_nonneg {f : F} {m : Int} {c : A} (created : c ∈ sources.creations chain f m) :
    ∃ n : Nat, m = n := by
  unfold creations at created
  split at created
  · cases created
  · next nonneg => exact ⟨m.toNat, (Int.toNat_of_nonneg (Int.not_lt.1 nonneg)).symm⟩

theorem le_min?_of_mem {xs : List Nat} {n x : Nat} (least : n ∈ xs.min?) (mem : x ∈ xs) : n ≤ x :=
  (List.min?_eq_some_iff.1 least).2 x mem

/-- A child is created where its factory is in range. -/
theorem floored (settings : Settings) : Floored (sources.syncDeps settings chain) := by
  intro f factory m c created
  have here : f ∈ sources.factories := factory
  have created : c ∈ sources.creations chain f m := created
  obtain ⟨n, rfl⟩ := creations_nonneg created
  unfold creations at created
  rw [if_neg (Int.not_lt.2 (Int.natCast_nonneg n)), Int.toNat_natCast] at created
  obtain ⟨log, mem, _⟩ := List.mem_map.1 created
  have matched := (List.mem_filter.1 mem).2
  simp only [isLogFactoryMatched, isBlockInRange, Bool.and_eq_true, decide_eq_true_eq] at matched
  show ∃ n' ∈ sources.discFloorBlock, (n' : Int) ≤ n
  unfold discFloorBlock
  have inside : (sources.factory f).fromBlock.getD 0 ∈
      sources.factories.map fun f => (sources.factory f).fromBlock.getD 0 :=
    List.mem_map.2 ⟨f, here, rfl⟩
  cases least : (sources.factories.map fun f => (sources.factory f).fromBlock.getD 0).min? with
  | none =>
      rw [List.min?_eq_none_iff] at least
      rw [least] at inside
      cases inside
  | some n' =>
      exact ⟨n', rfl, Int.ofNat_le.2 (Nat.le_trans (le_min?_of_mem least inside) matched.1.1.1)⟩

theorem discFloorBlock_none (settings : Settings) :
    (sources.syncDeps settings chain).discFloorBlock = none →
      (sources.syncDeps settings chain).factories = [] := by
  intro none_
  have none_ : (sources.factories.map fun f => (sources.factory f).fromBlock.getD 0).min? = none :=
    none_
  exact List.map_eq_nil_iff.1 (List.min?_eq_none_iff.1 none_)

omit [DecidableEq F] in
/-- A log that a filter matches lies in the backfill range. -/
theorem backfill_matched {filter : LogFilter F A T} (mem : filter ∈ sources.logFilters)
    {log : ChainLog A T} {bn : Nat} (matched : isLogFilterMatched filter log bn = true) :
    sources.backfillStart ≤ bn ∧ ∀ n ∈ sources.backfillEnd, bn ≤ n := by
  simp only [isLogFilterMatched, isBlockInRange, Bool.and_eq_true, decide_eq_true_eq] at matched
  obtain ⟨low, high⟩ := matched.1.1.1.1.1
  have isFrom : filter.fromBlock ∈ sources.froms :=
    List.mem_append_left _ (List.mem_map.2 ⟨filter, mem, rfl⟩)
  have isTo : filter.toBlock ∈ sources.tos :=
    List.mem_append_left _ (List.mem_map.2 ⟨filter, mem, rfl⟩)
  constructor
  · show earliestFrom sources.froms ≤ bn
    exact Nat.le_trans (earliestFrom_le isFrom) low
  · intro n isEnd
    obtain ⟨m, bound, le⟩ := le_latestTo isTo isEnd
    rw [bound] at high
    have high : bn ≤ m := by simpa using high
    exact Nat.le_trans high le

end Sources

variable {sources : Sources F A T R} {settings : Settings} {chain : Chain A T}

/-! ## One interval -/

/-- The logs of an interval that a filter matches on chain. -/
def Complete (sources : Sources F A T R) (chain : Chain A T) (interval : Interval)
    (logs : List (Nat × ChainLog A T)) : Prop :=
  ∀ bn log, (bn, log) ∈ logs ↔ interval.1 ≤ bn ∧ bn ≤ interval.2 ∧ log ∈ chain bn ∧
    ∃ filter ∈ sources.logFilters, sources.Matches chain filter log bn

/-- The stored children are children that were created. -/
def Stored (sources : Sources F A T R) (chain : Chain A T) : Prop :=
  ∀ f c m, sources.preloaded.Has f c m → c ∈ sources.creations chain f m

namespace Cache

variable {s : Cache F A (Query A T R)}

/-- What the child map accepts has been created. -/
theorem Good.created (good : Good (sources.syncDeps settings chain) s)
    (stored : Stored sources chain) {id : F} {address : A} {bn : Nat}
    (matched : isAddressMatched address bn (s.disc.disc.childAddresses id) = true) :
    sources.Created chain id address bn := by
  obtain ⟨m, found, le⟩ := isAddressMatched_iff.1 matched
  obtain ⟨start, marked⟩ := good.informed.marked
  have created : address ∈ sources.creations chain id m := by
    rcases marked.genuine id address m (has_iff.2 found) with loaded | created
    · exact stored id address m loaded
    · exact created
  obtain ⟨n, rfl⟩ := Sources.creations_nonneg created
  exact ⟨n, Int.ofNat_le.1 le, created⟩

/-- A child that has been created by a block is accepted there, once everything created up to
this block is known. -/
theorem Known.accepted {known : Children F A} {toBlock bn : Nat} {id : F} {address : A}
    (informed : KnownTo (sources.syncDeps settings chain) known toBlock)
    (factory : id ∈ sources.factories) (created : sources.Created chain id address bn)
    (within : bn ≤ toBlock) :
    isAddressMatched address bn (known id) = true ∧ address ∈ (known id).keys := by
  obtain ⟨m, le, created⟩ := created
  obtain ⟨m', here, lower⟩ := informed id factory m (by omega) address created
  refine ⟨isAddressMatched_iff.2 ⟨m', has_iff.1 here, by omega⟩, ?_⟩
  rw [OrdMap.mem_keys_iff, has_iff.1 here]
  rfl

/-- The chunks of an interval have everything its filters match. -/
theorem Good.served (good : Good (sources.syncDeps settings chain) s) {interval : Interval}
    {calls : List ChunkCall} (handed : ∀ call ∈ calls, call ∈ s.calls)
    (covers : ∀ b, interval.1 ≤ b → b ≤ interval.2 →
      ∃ call ∈ calls, ∃ need ∈ call.need, need.1 ≤ b ∧ b ≤ need.2)
    (below : ∃ head ∈ s.portalHead, interval.2 ≤ head)
    (done : ∀ call ∈ calls, s.promiseOf call = some .done) {bn : Nat} {log : ChainLog A T}
    (low : interval.1 ≤ bn) (high : bn ≤ interval.2) (onChain : log ∈ chain bn)
    {filter : LogFilter F A T} (mem : filter ∈ sources.logFilters)
    (matched : sources.Matches chain filter log bn) :
    logMatched sources.logFilters s.disc.disc.childAddresses log bn = true ∧
      ∃ cd ∈ calls.map s.chunkData, log ∈ rawLogs chain cd bn := by
  obtain ⟨call, inCalls, need, given, first, last⟩ := covers bn low high
  obtain ⟨head, known, le⟩ := below
  obtain ⟨afterStart, beforeEnd⟩ := Sources.backfill_matched mem matched.1
  have ended : ∀ n ∈ s.dataEnd (sources.syncDeps settings chain), bn ≤ n := by
    intro n isEnd
    have isEnd : minEnd sources.backfillEnd s.portalHead = some n := isEnd
    rw [Option.mem_def.1 known] at isEnd
    cases limit : sources.backfillEnd with
    | none =>
        rw [limit] at isEnd
        cases isEnd
        omega
    | some e =>
        rw [limit] at isEnd
        cases isEnd
        have := beforeEnd e limit
        exact Nat.le_min.2 ⟨this, by omega⟩
  obtain ⟨e, op, entry, inOps, _, covered, all, rows⟩ :=
    good.kept.served (handed call inCalls) (done call inCalls) given first last afterStart ended
  -- the log queries of the operation that fetched the block
  have logs : Source.logs ∈ op.opened.map Opened.source := by simp [all, Source.all]
  obtain ⟨o, opened, isLogs⟩ := List.mem_map.1 logs
  have inEntries := List.mem_of_getElem? entry
  obtain ⟨then_, now⟩ := (good.informed.ops e inEntries op inOps).opened o opened isLogs
  have child : ∀ id, filter.address = .factory id →
      isAddressMatched log.address bn (s.disc.disc.childAddresses id) = true ∧
        log.address ∈ (o.known id).keys := by
    intro id kind
    have factory := Sources.mem_factories mem kind
    have created := matched.2 id kind
    exact ⟨(Known.accepted now factory created covered.2).1,
      (Known.accepted then_ factory created covered.2).2⟩
  refine ⟨logMatched_iff.2 ⟨filter, mem, matched.1, fun id kind => (child id kind).1⟩, ?_⟩
  obtain ⟨r, inMerged, hit⟩ := mergedLogRequests_covers mem matched.1 fun id kind => (child id kind).2
  obtain ⟨head', _, keptEntry⟩ := good.kept.entries e inEntries
  have computed : sources.queries settings.checks o.source o.known = .ok o.queries :=
    (keptEntry.sound op inOps).computed o opened
  rw [isLogs] at computed
  have computed : sources.logQueryShards settings.checks o.known = .ok o.queries := computed
  unfold Sources.logQueryShards at computed
  cases sharded : shardLogs settings.checks sources.bodySize
      (mergedLogRequests sources.logFilters o.known) with
  | error violation =>
      rw [sharded] at computed
      cases computed
  | ok shards =>
      rw [sharded] at computed
      have queries : o.queries = shards.map Sum.inl := (Except.ok.inj computed).symm
      rw [← shardLogs_flatten sharded] at inMerged
      obtain ⟨shard, inShards, inShard⟩ := List.mem_flatten.1 inMerged
      refine ⟨e.cd, List.mem_map.2 ⟨call, inCalls, by simp [chunkData, entry]⟩, ?_⟩
      refine mem_rawLogs.2 ⟨shard, ?_, mem_servedLogs.2 ⟨onChain, r, inShard, hit⟩⟩
      have served : ((.inl shard, bn) : Query A T R × Nat) ∈ servedAt op.opened bn := by
        refine List.mem_flatMap.2 ⟨o, opened, List.mem_map.2 ⟨.inl shard, ?_, rfl⟩⟩
        rw [queries]
        exact List.mem_map.2 ⟨shard, inShards, rfl⟩
      rw [← rows] at served
      exact (List.mem_filter.1 served).1

/-- What an attempt assembles is complete. -/
theorem Good.complete (good : Good (sources.syncDeps settings chain) s)
    (stored : Stored sources chain) {interval : Interval} {calls : List ChunkCall}
    (handed : ∀ call ∈ calls, call ∈ s.calls)
    (covers : ∀ b, interval.1 ≤ b → b ≤ interval.2 →
      ∃ call ∈ calls, ∃ need ∈ call.need, need.1 ≤ b ∧ b ≤ need.2)
    (below : ∃ head ∈ s.portalHead, interval.2 ≤ head)
    (done : ∀ call ∈ calls, s.promiseOf call = some .done) :
    Complete sources chain interval (assembledLogs chain sources.logFilters
      s.disc.disc.childAddresses (calls.map s.chunkData) interval) := by
  intro bn log
  rw [mem_assembledLogs]
  constructor
  · rintro ⟨low, high, matched, cd, _, raw⟩
    obtain ⟨requests, _, served⟩ := mem_rawLogs.1 raw
    obtain ⟨filter, mem, isMatched, child⟩ := logMatched_iff.1 matched
    exact ⟨low, high, (mem_servedLogs.1 served).1, filter, mem, isMatched,
      fun id kind => good.created stored (child id kind)⟩
  · rintro ⟨low, high, onChain, filter, mem, matched⟩
    obtain ⟨isMatched, served⟩ :=
      good.served handed covers below done low high onChain mem matched
    exact ⟨low, high, isMatched, served⟩

/-- A resolved call has made discovery confirm something. -/
theorem Good.confirmed {F A Q : Type} {deps : SyncDeps F A Q} {s : Cache F A Q}
    (good : Good deps s) {call : ChunkCall} (handed : call ∈ s.calls)
    (done : s.promiseOf call = some .done) : Confirmed deps.discovery s.disc.disc := by
  obtain ⟨e, here, _⟩ := good.kept.calls call handed
  have inEntries := List.mem_of_getElem? here
  rw [promiseOf, here] at done
  obtain ⟨op, at_, status⟩ := Option.map_eq_some_iff.1 (show (e.ops[call.op]?).map Op.status =
    some .done from done)
  have inOps := List.mem_of_getElem? at_
  obtain ⟨head, _, kept⟩ := good.kept.entries e inEntries
  have progress := (kept.sound op inOps).progress
  rw [status] at progress
  refine (good.informed.ops e inEntries op inOps).sure (.inl fun none_ => ?_)
  have all := progress.1
  rw [none_] at all
  cases all

end Cache

/-! ## Runs -/

/-- What is known of an attempt. -/
def AttemptSound (sources : Sources F A T R) (settings : Settings) (chain : Chain A T)
    (cache : Cache F A (Query A T R)) (att : Attempt A T) : Prop :=
  match att.status with
  | .waiting =>
      att.interval.1 ≤ att.interval.2 ∧ (∀ call ∈ att.calls, call ∈ cache.calls) ∧
        (∀ b, att.interval.1 ≤ b → b ≤ att.interval.2 →
          ∃ call ∈ att.calls, ∃ need ∈ call.need, need.1 ≤ b ∧ b ≤ need.2) ∧
        ∃ head ∈ cache.portalHead, att.interval.2 ≤ head
  | .failed => True
  | .resolved logs =>
      Confirmed (sources.syncDeps settings chain).discovery cache.disc.disc ∧
        Complete sources chain att.interval logs

theorem AttemptSound.later {cache cache' : Cache F A (Query A T R)} {att : Attempt A T}
    (sound : AttemptSound sources settings chain cache att)
    (later : cache.Later (sources.syncDeps settings chain) cache') :
    AttemptSound sources settings chain cache' att := by
  unfold AttemptSound at sound ⊢
  cases kind : att.status with
  | waiting =>
      rw [kind] at sound
      obtain ⟨order, handed, covers, head, known, le⟩ := sound
      obtain ⟨head', known', le'⟩ := later.head head known
      exact ⟨order, fun call mem => later.calls call (handed call mem), covers, head', known',
        Nat.le_trans le le'⟩
  | failed => trivial
  | resolved logs =>
      rw [kind] at sound
      exact ⟨later.onward.sure sound.1, sound.2⟩

namespace RangeSync

/-- What every run keeps. -/
structure Sound (sources : Sources F A T R) (settings : Settings) (chain : Chain A T)
    (s : RangeSync F A T R) : Prop where
  good : s.cache.Good (sources.syncDeps settings chain)
  stage : s.attempts = [] ∧ s.cache.Idle ∨ s.cache.Gridded (sources.syncDeps settings chain)
  vouched : ∀ first ∈ s.attempts.head?, KnownTo (sources.syncDeps settings chain)
    s.cache.disc.disc.childAddresses ((first.interval.1 : Int) - 1)
  attempts : ∀ att ∈ s.attempts, AttemptSound sources settings chain s.cache att

variable {s t : RangeSync F A T R}

/-- The cache moves, with the grid settled. -/
theorem Sound.settled (sound : Sound sources settings chain s) {cache : Cache F A (Query A T R)}
    (good : cache.Good (sources.syncDeps settings chain))
    (gridded : cache.Gridded (sources.syncDeps settings chain))
    (later : s.cache.Later (sources.syncDeps settings chain) cache) :
    Sound sources settings chain { s with cache } :=
  ⟨good, .inr gridded, fun first mem => (sound.vouched first mem).mono later.onward.better,
    fun att mem => (sound.attempts att mem).later later⟩

/-- Between the attempts only the cache moves. -/
theorem Sound.moved (sound : Sound sources settings chain s) {cache : Cache F A (Query A T R)}
    (steps : s.cache.Steps (sources.syncDeps settings chain) cache) :
    Sound sources settings chain { s with cache } := by
  refine ⟨steps.good, ?_, fun first mem => (sound.vouched first mem).mono steps.later.onward.better,
    fun att mem => (sound.attempts att mem).later steps.later⟩
  exact sound.stage.imp (fun ⟨none_, idle⟩ => ⟨none_, steps.idle idle⟩) steps.gridded

theorem vouched_known (settings : Settings) {known : Children F A} {b : Nat}
    (vouched : Vouched sources chain known b) :
    KnownTo (sources.syncDeps settings chain) known ((b : Int) - 1) := by
  intro f factory m low c created
  have created : c ∈ sources.creations chain f m := created
  obtain ⟨n, rfl⟩ := Sources.creations_nonneg created
  obtain ⟨m', found, le⟩ := isAddressMatched_iff.1 (vouched f factory n (by omega) c created)
  exact ⟨m', has_iff.2 found, le⟩

/-- The status of an attempt is set. -/
theorem Sound.setStatus (sound : Sound sources settings chain s) {i : Nat} {att : Attempt A T}
    (here : s.attempts[i]? = some att) {status : AttemptStatus A T}
    (isSound : AttemptSound sources settings chain s.cache { att with status }) :
    Sound sources settings chain (s.setStatus i att status) := by
  refine ⟨sound.good, ?_, ?_, ?_⟩
  · refine sound.stage.imp_left fun ⟨none_, _⟩ => ?_
    rw [none_] at here
    cases here
  · intro first isFirst
    have isFirst : first ∈ (s.attempts.set i { att with status }).head? := isFirst
    cases all : s.attempts with
    | nil =>
        rw [all] at here
        cases here
    | cons head rest =>
        have old := sound.vouched head (by rw [all]; rfl)
        rw [all] at isFirst here
        cases i with
        | zero =>
            cases here
            cases isFirst
            exact old
        | succ i =>
            cases isFirst
            exact old
  · intro other mem
    rcases List.mem_or_eq_of_mem_set mem with old | rfl
    · exact sound.attempts other old
    · exact isSound

theorem Sound.pinned (sound : Sound sources settings chain s) (sized : s.cache.sized = true)
    {head : Nat} (known : s.cache.portalHead = some head) :
    Cache.Good (sources.syncDeps settings chain) (s.cache.pinned (sources.syncDeps settings chain)) ∧
      Cache.Gridded (sources.syncDeps settings chain)
        (s.cache.pinned (sources.syncDeps settings chain)) ∧
      (s.cache.pinned (sources.syncDeps settings chain)).portalHead = some head ∧
      (s.cache.pinned (sources.syncDeps settings chain)).disc.disc.childAddresses =
        s.cache.disc.disc.childAddresses := by
  rcases sound.stage with ⟨_, idle⟩ | gridded
  · exact sound.good.pinned (Sources.floored settings) (Sources.discFloorBlock_none settings)
      settings.tracePos idle sized known
  · rw [gridded.pinned]
    exact ⟨sound.good, gridded, known, rfl⟩

/-- A seed is vouched for: nothing has resolved before, and the first interval is tried again. -/
theorem Sound.seedable (sound : Sound sources settings chain s) {interval : Interval}
    (may : s.Allowed sources chain (.serve interval))
    (some_ : sources.factories.isEmpty = false)
    (unset : s.attempts ≠ [] → s.cache.disc.disc.confirmed = -1) :
    KnownTo (sources.syncDeps settings chain) s.cache.disc.disc.childAddresses
      ((interval.1 : Int) - 1) := by
  obtain ⟨_, dispatched, loaded⟩ := may
  cases all : s.attempts with
  | nil => exact vouched_known settings (loaded (by simp [all]))
  | cons first rest =>
      rcases dispatched first (by rw [all]; rfl) with again | ⟨att, mem, resolved⟩
      · intro f factory m low c created
        exact sound.vouched first (by rw [all]; rfl) f factory m (by omega) c created
      · have attSound := sound.attempts att mem
        unfold AttemptSound at attSound
        cases kind : att.status with
        | waiting =>
            rw [kind] at resolved
            cases resolved
        | failed =>
            rw [kind] at resolved
            cases resolved
        | resolved logs =>
            rw [kind] at attSound
            have minusOne := unset (by simp [all])
            rcases attSound.1 with empty | set_
            · have empty : sources.factories = [] := empty
              rw [empty] at some_
              cases some_
            · omega

/-- The cache an attempt calls `dataChunk` on. -/
theorem Sound.ready (sound : Sound sources settings chain s) {interval : Interval}
    (may : s.Allowed sources chain (.serve interval)) (sized : s.cache.sized = true) {head : Nat}
    (known : s.cache.portalHead = some head) :
    Cache.Good (sources.syncDeps settings chain) (s.ready sources settings chain interval) ∧
      Cache.Gridded (sources.syncDeps settings chain) (s.ready sources settings chain interval) ∧
      (s.ready sources settings chain interval).portalHead = some head ∧
      Improves s.cache.disc.disc (s.ready sources settings chain interval).disc.disc ∧
      (s.attempts ≠ [] → Cache.Later (sources.syncDeps settings chain) s.cache
        (s.ready sources settings chain interval)) := by
  obtain ⟨good, gridded, isHead, children⟩ := sound.pinned sized known
  have same : s.attempts ≠ [] → s.cache.pinned (sources.syncDeps settings chain) = s.cache :=
    fun some_ => (sound.stage.resolve_left fun idle => some_ idle.1).pinned
  obtain ⟨seeded, gridded', later, _, head'⟩ :=
    good.seed gridded ((interval.1 : Int) - 1) fun some_ unset => by
      rw [children]
      exact sound.seedable may some_ fun tried => same tried ▸ unset
  refine ⟨seeded, gridded', head'.trans isHead, ?_, fun tried => ?_⟩
  · intro f c m here
    exact later.onward.better f c m (by rw [children]; exact here)
  · have later := later
    rw [same tried] at later
    rw [RangeSync.ready, same tried]
    exact later

/-- An attempt begins. -/
theorem Sound.serve (on : settings.checks ≠ .off) (sound : Sound sources settings chain s)
    {interval : Interval} (may : s.Allowed sources chain (.serve interval))
    (taken : s.serve sources settings chain interval = some t) :
    Sound sources settings chain t := by
  unfold RangeSync.serve at taken
  cases known : s.cache.portalHead with
  | none =>
      simp only [known] at taken
      cases taken
  | some head =>
      simp only [known] at taken
      split at taken
      · cases taken
      · next can =>
          rw [not_or, isFinalityGap, decide_eq_true_eq, Bool.not_eq_false] at can
          obtain ⟨good, gridded, isHead, better, later⟩ := sound.ready may can.2 known
          have called := good.callAll on gridded.sized
            (chunkNeeds interval (s.ready sources settings chain interval).chunkBlocks)
            fun n mem => ⟨head, isHead, fun need given => by
              obtain ⟨a, b, c, d⟩ := chunkNeeds_within good.grid may.1 mem given
              exact ⟨a, b, c, by omega⟩⟩
          cases taken
          have improved : Improves s.cache.disc.disc _ := better.trans called.later.onward.better
          refine ⟨called.good, .inr (called.same.gridded gridded), ?_, ?_⟩
          · intro first isFirst
            cases all : s.attempts with
            | nil =>
                have vouched := (vouched_known settings
                  (may.2.2 (by simp [all]))).mono improved
                rw [all] at isFirst
                have isFirst : first.interval = interval := by
                  have := Option.some.inj isFirst
                  rw [← this]
                  split <;> rfl
                rw [isFirst]
                exact vouched
            | cons head' rest =>
                rw [all] at isFirst
                cases isFirst
                exact (sound.vouched first (by rw [all]; rfl)).mono improved
          · intro att mem
            rcases List.mem_append.1 mem with old | new
            · exact (sound.attempts att old).later
                ((later (List.ne_nil_of_mem old)).trans called.later)
            · rw [List.mem_singleton.1 new]
              cases handed : ((s.ready sources settings chain interval).callAll
                  (sources.syncDeps settings chain) (chunkNeeds interval
                    (s.ready sources settings chain interval).chunkBlocks)).2 with
              | none => trivial
              | some calls =>
                  obtain ⟨inCache, shape⟩ := called.calls calls handed
                  refine ⟨may.1, inCache, ?_, head, by rw [called.same.head]; exact isHead,
                    show interval.2 ≤ head by omega⟩
                  intro b low high
                  obtain ⟨n, mem, need, given, inside⟩ := chunkNeeds_cover good.grid low high
                  rw [← shape] at mem
                  obtain ⟨call, inCalls, rfl⟩ := List.mem_map.1 mem
                  exact ⟨call, inCalls, need, given, inside⟩

/-- An attempt resolves, or the read-ahead throws. -/
theorem Sound.finish (on : settings.checks ≠ .off) (stored : Stored sources chain)
    (sound : Sound sources settings chain s) {i : Nat} {saturated : Bool}
    (taken : s.finish sources settings chain i saturated = some t) :
    Sound sources settings chain t := by
  unfold RangeSync.finish at taken
  cases here : s.attempts[i]? with
  | none =>
      simp only [here] at taken
      cases taken
  | some att =>
      simp only [here] at taken
      split at taken
      case isFalse => cases taken
      case isTrue can =>
          obtain ⟨waits, done⟩ := can
          have mem := List.mem_of_getElem? here
          have attSound := sound.attempts att mem
          unfold AttemptSound at attSound
          rw [waits] at attSound
          obtain ⟨order, handed, covers, head, known, le⟩ := attSound
          have gridded : s.cache.Gridded (sources.syncDeps settings chain) :=
            sound.stage.resolve_left fun idle => by
              rw [idle.1] at mem
              cases mem
          have called := sound.good.callAll on gridded.sized
            ((readAheadPlan (idxOf att.interval.2 s.cache.chunkBlocks) s.cache.chunkBlocks
              (s.cache.dataEnd (sources.syncDeps settings chain)) settings.readahead saturated).map
                fun d => (d, none)) fun n inPlan => ⟨head, known, fun need given => by
              obtain ⟨d, _, rfl⟩ := List.mem_map.1 inPlan
              cases given⟩
          have gridded' := called.same.gridded gridded
          have done : ∀ call ∈ att.calls, s.cache.promiseOf call = some .done := by
            intro call inCalls
            have is := List.all_eq_true.1 done call inCalls
            split at is
            · assumption
            · cases is
          -- what is assembled, from the cache before the read-ahead
          have whole : Complete sources chain att.interval _ :=
            sound.good.complete stored handed covers ⟨head, known, le⟩ done
          obtain ⟨call, inCalls, _⟩ := covers _ (Nat.le_refl _) order
          have sure : Confirmed (sources.syncDeps settings chain).discovery s.cache.disc.disc :=
            sound.good.confirmed (handed call inCalls) (done call inCalls)
          cases thrown : (s.cache.callAll (sources.syncDeps settings chain)
              ((readAheadPlan (idxOf att.interval.2 s.cache.chunkBlocks) s.cache.chunkBlocks
                (s.cache.dataEnd (sources.syncDeps settings chain)) settings.readahead saturated).map
                  fun d => (d, none))).2 with
          | none =>
              simp only [thrown] at taken
              cases taken
              exact (sound.settled called.good gridded' called.later).setStatus here trivial
          | some calls =>
              simp only [thrown] at taken
              cases taken
              have good : Cache.Good (sources.syncDeps settings chain) (Cache.evictBehind _ _) :=
                ⟨called.good.kept.evictBehind att.interval.1, called.good.informed.same rfl rfl,
                  called.good.floor, called.good.grid⟩
              refine (sound.settled good ⟨gridded'.sized, gridded'.capped, gridded'.floor,
                gridded'.head⟩ (called.later.trans (.of_onward rfl rfl
                  ⟨Improves.rfl _, fun sure => sure⟩))).setStatus here ?_
              exact ⟨called.later.onward.sure sure, whole⟩

theorem Sound.abort (sound : Sound sources settings chain s) {i : Nat}
    (taken : s.abort i = some t) : Sound sources settings chain t := by
  unfold RangeSync.abort at taken
  cases here : s.attempts[i]? with
  | none =>
      simp only [here] at taken
      cases taken
  | some att =>
      simp only [here] at taken
      split at taken
      · cases taken
        exact sound.setStatus here trivial
      · cases taken

theorem Sound.init (settings : Settings) :
    Sound sources settings chain (RangeSync.init sources settings chain) := by
  have floored : Floored (sources.syncDeps settings chain) := Sources.floored settings
  refine ⟨⟨Cache.Kept.init _, .init floored, pinDiscoveryFloor_good _
    (Sources.discFloorBlock_none settings), ?_⟩, .inl ⟨rfl, ?_⟩, fun first none_ => ?_,
    fun att mem => ?_⟩
  · show 0 < (Cache.init (sources.syncDeps settings chain)).chunkBlocks
    unfold Cache.init
    rw [(Cache.pinDiscoveryFloor_same _ _).1]
    exact settings.chunkPos
  · show (Cache.init (sources.syncDeps settings chain)).Idle
    unfold Cache.init Cache.pinDiscoveryFloor
    split
    · exact ⟨rfl, rfl, rfl, show (-1 : Int) < 0 by simp⟩
    · exact ⟨rfl, rfl, rfl, show (-1 : Int) < 0 by simp⟩
  · cases none_
  · cases mem

theorem Sound.step (on : settings.checks ≠ .off) (stored : Stored sources chain)
    (sound : Sound sources settings chain s) {a : SyncAction F A} (may : s.Allowed sources chain a)
    (taken : s.step sources settings chain a = some t) : Sound sources settings chain t := by
  cases a with
  | cache a =>
      by_cases own : Cache.ofLoop a = true
      · rw [RangeSync.step, if_pos own] at taken
        obtain ⟨cache, moved, rfl⟩ := Option.map_eq_some_iff.1 taken
        exact sound.moved (sound.good.loop on (Sources.floored settings) settings.chunkPos own moved)
      · rw [RangeSync.step, if_neg own] at taken
        cases taken
  | share f bn child =>
      cases taken
      exact sound.moved (sound.good.share may)
  | serve interval => exact sound.serve on may taken
  | finish i saturated => exact sound.finish on stored taken
  | abort i => exact sound.abort taken

end RangeSync

/-- In every run of intervals that are dispatched in turn, with the children created below the
first one loaded: a call that resolves returns exactly the logs of its interval that a filter
matches on chain. None of the settings appears on the right. -/
theorem syncBlockRangeData_complete (on : settings.checks ≠ .off) (stored : Stored sources chain)
    {s : RangeSync F A T R}
    (reached : Machine.Reach (RangeSync.step sources settings chain)
      (RangeSync.Allowed sources chain) (RangeSync.init sources settings chain) s)
    {att : Attempt A T} (mem : att ∈ s.attempts) {logs : List (Nat × ChainLog A T)}
    (resolved : att.status = .resolved logs) (bn : Nat) (log : ChainLog A T) :
    (bn, log) ∈ logs ↔ att.interval.1 ≤ bn ∧ bn ≤ att.interval.2 ∧ log ∈ chain bn ∧
      ∃ filter ∈ sources.logFilters, isLogFilterMatched filter log bn = true ∧
        ∀ id, filter.address = .factory id →
          ∃ m ≤ bn, log.address ∈ sources.creations chain id m := by
  have sound : RangeSync.Sound sources settings chain s :=
    reached.invariant (I := RangeSync.Sound sources settings chain) (.init settings)
      fun _ _ _ _ sound may taken => sound.step on stored may taken
  have attSound := sound.attempts att mem
  unfold AttemptSound at attSound
  rw [resolved] at attSound
  exact attSound.2 bn log

/-! ## A run -/

/-- One filter, for the children of one factory. -/
def childSources : Sources Unit Nat Nat Unit where
  factory := fun _ => ⟨some [1], 100, none, none⟩
  childAddress := fun _ log => log.topics[1]?.getD 0
  logFilters := [⟨.factory (), some [200], none, none, none, none, none⟩]
  otherFactories := []
  otherRanges := []
  otherQueries := fun _ _ => .ok []
  bodySize := fun requests => requests.length
  dense := false
  preloaded := fun _ => OrdMap.empty

def childSettings : Settings where
  chunkBlocks := 10
  chunkFixed := true
  traceChunkBlocks := 10
  warmupBlocks := 2
  readahead := 1
  discoveryWindows := 1
  finalizedHead := none
  checks := .on
  chunkPos := by decide
  tracePos := by decide

/-- Block 3 creates child 7, and in block 4 two addresses emit the same event. -/
def childChain : Chain Nat Nat := fun bn =>
  if bn = 3 then [⟨0, 1, [100, 7], ""⟩]
  else if bn = 4 then [⟨0, 7, [200], ""⟩, ⟨1, 8, [200], ""⟩]
  else []

def childActions : List (SyncAction Unit Nat) :=
  [.cache (.refreshPortalHead 9), .cache (.ensureChunkSize none), .serve (2, 5),
    .cache (.discovery (.start 0))] ++
  List.replicate 4 (.cache (.discovery (.deliver 0 0))) ++
  [.cache (.discovery (.resolve 0)), .cache (.pass 0 0)] ++
  List.replicate 9 (.cache (.advance 0 0)) ++ [.finish 0 false]

def childEnd : RangeSync Unit Nat Nat Unit :=
  (Machine.replay (RangeSync.step childSources childSettings childChain)
    (RangeSync.init childSources childSettings childChain) childActions).get (by decide +kernel)

def childAttempt : Attempt Nat Nat := childEnd.attempts.get ⟨0, by decide +kernel⟩

theorem syncBlockRangeData_complete_sample :
    childAttempt.status = .resolved [(4, ⟨0, 7, [200], ""⟩)] ∧
      ∀ bn log, (bn, log) ∈ [(4, (⟨0, 7, [200], ""⟩ : ChainLog Nat Nat))] ↔
        childAttempt.interval.1 ≤ bn ∧ bn ≤ childAttempt.interval.2 ∧ log ∈ childChain bn ∧
          ∃ filter ∈ childSources.logFilters, isLogFilterMatched filter log bn = true ∧
            ∀ id, filter.address = .factory id →
              ∃ m ≤ bn, log.address ∈ childSources.creations childChain id m := by
  have reached : Machine.Reach (RangeSync.step childSources childSettings childChain)
      (RangeSync.Allowed childSources childChain)
      (RangeSync.init childSources childSettings childChain) childEnd :=
    Machine.Reach.init.replay (by decide +kernel) (Option.some_get (by decide +kernel)).symm
  have stored : Stored childSources childChain := by
    intro f c m loaded
    cases loaded
  have resolved : childAttempt.status = .resolved [(4, ⟨0, 7, [200], ""⟩)] := by decide +kernel
  exact ⟨resolved, syncBlockRangeData_complete (by decide) stored reached (List.get_mem _ _)
    resolved⟩

/-! ## Without the checks

`INV-19` is what stops a request below the fetched part of its chunk. Where the operator turns the
checks off, such a request counts as fetched, and the interval resolves without its logs. -/

/-- One filter, for the logs of one address. -/
def addressSources : Sources Unit Nat Nat Unit :=
  { childSources with logFilters := [⟨.oneOf [7], some [200], none, none, none, none, none⟩] }

def uncheckedSettings : Settings := { childSettings with checks := .off }

/-- Block 1 has a log of the address. -/
def addressChain : Chain Nat Nat := fun bn => if bn = 1 then [⟨0, 7, [200], ""⟩] else []

/-- The first interval is (4,5); the one before it is asked for once that has resolved. -/
def uncheckedActions : List (SyncAction Unit Nat) :=
  [.cache (.refreshPortalHead 9), .cache (.ensureChunkSize none), .serve (4, 5),
    .cache (.pass 0 0)] ++
  List.replicate 7 (.cache (.advance 0 0)) ++ [.finish 0 true, .serve (0, 1), .finish 1 true]

def uncheckedEnd : RangeSync Unit Nat Nat Unit :=
  (Machine.replay (RangeSync.step addressSources uncheckedSettings addressChain)
    (RangeSync.init addressSources uncheckedSettings addressChain) uncheckedActions).get
      (by decide +kernel)

def uncheckedAttempt : Attempt Nat Nat := uncheckedEnd.attempts.get ⟨1, by decide +kernel⟩

/-- The second interval is served from the chunk that the first one has fetched from block 4 on:
it resolves with no logs, although a filter matches the log of block 1. -/
theorem unchecked_interval_misses_log :
    Stored addressSources addressChain ∧
      Machine.Reach (RangeSync.step addressSources uncheckedSettings addressChain)
        (RangeSync.Allowed addressSources addressChain)
        (RangeSync.init addressSources uncheckedSettings addressChain) uncheckedEnd ∧
      uncheckedAttempt ∈ uncheckedEnd.attempts ∧ uncheckedAttempt.status = .resolved [] ∧
      uncheckedAttempt.interval = (0, 1) ∧
      ∃ log ∈ addressChain 1, ∃ filter ∈ addressSources.logFilters,
        isLogFilterMatched filter log 1 = true ∧ ∀ id, filter.address ≠ .factory id := by
  have stored : Stored addressSources addressChain := by
    intro f c m loaded
    cases loaded
  have reached : Machine.Reach (RangeSync.step addressSources uncheckedSettings addressChain)
      (RangeSync.Allowed addressSources addressChain)
      (RangeSync.init addressSources uncheckedSettings addressChain) uncheckedEnd :=
    Machine.Reach.init.replay (by decide +kernel) (Option.some_get (by decide +kernel)).symm
  have nothing : uncheckedAttempt.status = .resolved [] := by decide +kernel
  refine ⟨stored, reached, List.get_mem _ _, nothing, by decide +kernel, ?_⟩
  -- the one log of the chain, and the one filter
  refine ⟨⟨0, 7, [200], ""⟩, by simp [addressChain], _, List.mem_singleton_self _, by decide, ?_⟩
  intro id kind
  cases kind

end PortalPonder.Historical
