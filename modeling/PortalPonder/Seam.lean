import PortalPonder.Historical.Sessions
import PortalPonder.Realtime.Branch

/-!
# The seam

The historical sync serves the finalized blocks and stores the children that it finds; realtime
takes these children over and streams the blocks above. Both read the same filters and factories.
What is kept on either side of the boundary is what is matched on one chain: the finalized blocks,
with the branch that ponder has received on top of them. A child that a finalized block created is
followed above the boundary.
-/

namespace PortalPonder

open Historical Realtime
open Assembly (chainLog)

variable {F R K : Type} [DecidableEq F] [DecidableEq K]

/-- Both halves are built from the same filters and factories. -/
structure SameSources (sources : Sources F Address Hex R) (args : WireArgs F) : Prop where
  logFilters : sources.logFilters = args.logFilters
  factory : sources.factory = args.factoryOf
  /-- `getChildAddress`, which throws on no creation log -/
  child : ∀ f log,
    isLogFactoryMatched (args.factoryOf f) (chainLog log) (hexToNumber log.blockNumber) = true →
      (args.getChildAddress f log).map String.toLower = some (sources.childAddress f (chainLog log))

/-- The map that realtime starts with: the children that are stored, and no child that no finalized
block has created. -/
structure StartsFrom (sources : Sources F Address Hex R) (history : Chain Address Hex)
    (storeKey : F → K) (store : List (StoredChild K Address)) (base : Children F Address) : Prop where
  loaded : ∀ f c m, (getChildAddresses storeKey store f).get? c = some m →
    ∃ m', (base f).get? c = some m'
  created : ∀ f c m, (base f).get? c = some m → c ∈ sources.creations history f m

/-- The logs of a block, as the matchers read them. -/
def blockLogs (batch : HotBatch) : List (ChainLog Address Hex) :=
  batch.logs.map (streamedLog batch.header)

/-- The finalized blocks up to the boundary, and the branch on top of them. -/
def joinedChain (history : Chain Address Hex) (full : Hash → HotBatch) (startup : Light)
    (branch : List Light) : Chain Address Hex := fun n =>
  if (n : Int) ≤ startup.number then history n
  else (branch.filter fun b => b.number = (n : Int)).flatMap fun b => blockLogs (full b.hash)

/-- A log of the chain that a filter matches, of a child that was created by then if the filter is
for a factory. -/
def MatchedIn (sources : Sources F Address Hex R) (chain : Chain Address Hex) (bn : Nat)
    (log : ChainLog Address Hex) : Prop :=
  log ∈ chain bn ∧ ∃ filter ∈ sources.logFilters, isLogFilterMatched filter log bn = true ∧
    ∀ id, filter.address = .factory id →
      ∃ m ≤ bn, log.address ∈ sources.creations chain id m

section Start

variable {sources : Sources F Address Hex R} {history : Chain Address Hex} {storeKey : F → K}
  {store : List (StoredChild K Address)} {before : List Interval}

/-- A process that finds everything committed starts from what it reads back. -/
theorem startsFrom_store (keyed : Keyed sources storeKey)
    (sessions : Sessions sources history storeKey store before) :
    StartsFrom sources history storeKey store (getChildAddresses storeKey store) where
  loaded := fun _ _ m found => ⟨m, found⟩
  created := fun f c m found => (sessions.complete keyed).genuine keyed f c m (Discovery.has_iff.2 found)

/-- The children that realtime knows at its start are those of the finalized blocks. -/
theorem StartsFrom.child_iff (keyed : Keyed sources storeKey)
    (sessions : Sessions sources history storeKey store before) {base : Children F Address}
    (starts : StartsFrom sources history storeKey store base) {f : F} (factory : f ∈ sources.factories)
    (committed : ∀ n, sources.creations history f n ≠ [] →
      ∃ interval ∈ before, (interval.1 : Int) ≤ n ∧ n ≤ interval.2) {c : Address} :
    (∃ m, (base f).get? c = some m) ↔ ∃ n : Nat, c ∈ sources.creations history f n := by
  constructor
  · rintro ⟨m, found⟩
    have created := starts.created f c m found
    obtain ⟨n, rfl⟩ := Sources.creations_nonneg created
    exact ⟨n, created⟩
  · rintro ⟨n, created⟩
    obtain ⟨interval, mem, inside⟩ := committed n (List.ne_nil_of_mem created)
    have log : (f, n, c) ∈ sources.factoryLogs history interval :=
      Durable.mem_factoryLogs.2 ⟨factory, inside, created⟩
    obtain ⟨m, -, found⟩ := ((sessions.complete keyed).stored interval mem _ log).readBack
    exact starts.loaded f c m found

end Start

section Joined

variable {sources : Sources F Address Hex R} {args : WireArgs F} {history : Chain Address Hex}
  {full : Hash → HotBatch} {startup b : Light} {branch : List Light}

omit [DecidableEq F] in
/-- At and below the boundary the chain is the finalized one. -/
theorem joinedChain_history {n : Nat} (low : (n : Int) ≤ startup.number) :
    joinedChain history full startup branch n = history n := if_pos low

omit [DecidableEq F] in
theorem creations_history {f : F} {n : Nat} (low : (n : Int) ≤ startup.number) :
    sources.creations (joinedChain history full startup branch) f n =
      sources.creations history f n := by
  unfold Sources.creations
  rw [Int.toNat_natCast, joinedChain_history low]

omit [DecidableEq F] in
theorem matchedIn_history {n : Nat} (low : (n : Int) ≤ startup.number) {log : ChainLog Address Hex} :
    MatchedIn sources (joinedChain history full startup branch) n log ↔
      MatchedIn sources history n log := by
  unfold MatchedIn
  rw [joinedChain_history low]
  refine and_congr_right fun _ => exists_congr fun filter => and_congr_right fun _ =>
    and_congr_right fun _ => forall_congr' fun id => imp_congr_right fun _ =>
      exists_congr fun m => and_congr_right fun le => ?_
  rw [creations_history (by omega)]

omit [DecidableEq F] in
/-- Above it, it is the branch. -/
theorem mem_joinedChain {n : Nat} (high : startup.number < n) {log : ChainLog Address Hex} :
    log ∈ joinedChain history full startup branch n ↔
      ∃ x ∈ branch, x.number = n ∧ ∃ raw ∈ (full x.hash).logs,
        streamedLog (full x.hash).header raw = log := by
  unfold joinedChain blockLogs
  rw [if_neg (by omega)]
  simp only [List.mem_flatMap, List.mem_filter, decide_eq_true_eq, List.mem_map, and_assoc]

/-- A block of the branch creates what its logs create on the chain. -/
theorem creates_iff (same : SameSources sources args) {x : Light}
    (isHeader : toLight (full x.hash).header = x) {f : F} (factory : f ∈ args.factories)
    {c : Address} :
    creates args f c (whole full x) = true ↔ ∃ raw ∈ (full x.hash).logs,
      isLogFactoryMatched (sources.factory f) (streamedLog (full x.hash).header raw)
          x.number.toNat = true ∧
        sources.childAddress f (streamedLog (full x.hash).header raw) = c := by
  have number : (full x.hash).header.number = x.number.toNat := by
    have is := congrArg Light.number isHeader
    simp only [toLight] at is
    omega
  have synced : ∀ raw, hexToNumber (toSyncLog raw (full x.hash).header).blockNumber =
      x.number.toNat := by
    intro raw
    rw [← number]
    exact hexToNumber_numberToHex _
  have child : ∀ raw, childOf args f (toSyncLog raw (full x.hash).header) = some c ↔
      isLogFactoryMatched (sources.factory f) (streamedLog (full x.hash).header raw)
          x.number.toNat = true ∧
        sources.childAddress f (streamedLog (full x.hash).header raw) = c := by
    intro raw
    have found := same.child f (toSyncLog raw (full x.hash).header)
    unfold childOf
    rw [synced] at found ⊢
    rw [same.factory]
    show (if isLogFactoryMatched _ (streamedLog (full x.hash).header raw) _ = true then _ else _) =
      some c ↔ _
    by_cases matched : isLogFactoryMatched (args.factoryOf f)
        (streamedLog (full x.hash).header raw) x.number.toNat = true
    · rw [if_pos matched, found matched, Option.some.injEq]
      exact ⟨fun is => ⟨matched, is⟩, fun is => is.2⟩
    · rw [if_neg matched]
      exact ⟨fun none_ => (by cases none_), fun is => absurd is.1 matched⟩
  unfold creates whole syncLogs
  simp only [Bool.and_eq_true, decide_eq_true_eq, factory, true_and, List.any_eq_true,
    List.mem_map, exists_exists_and_eq_and, child]

omit [DecidableEq F] in
theorem mem_creations {chain : Chain Address Hex} {f : F} {n : Nat} {c : Address} :
    c ∈ sources.creations chain f n ↔ ∃ log ∈ chain n,
      isLogFactoryMatched (sources.factory f) log n = true ∧ sources.childAddress f log = c := by
  unfold Sources.creations
  rw [if_neg (by omega), Int.toNat_natCast]
  simp only [List.mem_map, List.mem_filter, and_assoc]

/-- What a block of the branch creates is created on the chain. -/
theorem creates_iff_creations (history : Chain Address Hex) (same : SameSources sources args)
    (linked : Linked startup branch) (headers : ∀ x ∈ branch, toLight (full x.hash).header = x)
    {f : F} (factory : f ∈ args.factories) {c : Address} {n : Int} :
    (∃ x ∈ branch, x.number ≤ n ∧ creates args f c (whole full x) = true) ↔
      ∃ m : Nat, startup.number < m ∧ (m : Int) ≤ n ∧
        c ∈ sources.creations (joinedChain history full startup branch) f m := by
  constructor
  · rintro ⟨x, mem, le, created⟩
    obtain ⟨raw, inBlock, matched, child⟩ := (creates_iff same (headers x mem) factory).1 created
    have above := linked.anchor_lt mem
    have nonneg : ((x.number.toNat : Nat) : Int) = x.number := by
      have is := congrArg Light.number (headers x mem)
      simp only [toLight] at is
      omega
    refine ⟨x.number.toNat, by omega, by omega, mem_creations.2 ⟨_, ?_, matched, child⟩⟩
    exact (mem_joinedChain (by omega)).2 ⟨x, mem, nonneg.symm, raw, inBlock, rfl⟩
  · rintro ⟨m, above, le, created⟩
    obtain ⟨log, here, matched, child⟩ := mem_creations.1 created
    obtain ⟨x, mem, number, raw, inBlock, rfl⟩ := (mem_joinedChain above).1 here
    refine ⟨x, mem, by omega, (creates_iff same (headers x mem) factory).2 ⟨raw, inBlock, ?_, child⟩⟩
    rw [number, Int.toNat_natCast]
    exact matched

theorem mem_factories {filter : LogFilter F Address Hex} {id : F} (mem : filter ∈ args.logFilters)
    (address : filter.address = .factory id) (same : SameSources sources args) :
    id ∈ args.factories ∧ id ∈ sources.factories := by
  constructor
  · unfold WireArgs.factories uniqueFactories
    refine List.mem_eraseDups.2 (List.mem_filterMap.2 ⟨filter, mem, ?_⟩)
    unfold filterFactory
    rw [address]
  · unfold Sources.factories
    refine List.mem_eraseDups.2 (List.mem_append_left _ (List.mem_filterMap.2 ⟨filter, ?_, ?_⟩))
    · rw [same.logFilters]
      exact mem
    · unfold Sources.factoryOf
      rw [address]

end Joined

/-! ## Both sides -/

section Both

variable {sources : Sources F Address Hex R} {args : WireArgs F} {settings : Settings}
  {history : Chain Address Hex} {storeKey : F → K} {store : List (StoredChild K Address)}
  {before : List Interval} {h : Durable F Address Hex R K} {full : Hash → HotBatch}
  {startup b : Light} {branch : List Light} {base : Children F Address}

omit [DecidableEq F] in
/-- Nothing was created above the boundary when realtime starts. -/
theorem StartsFrom.older (starts : StartsFrom sources history storeKey store base)
    (finalized : ∀ n : Nat, startup.number < n → history n = []) (f : F) (child : Address)
    (created : Int) (found : (base f).get? child = some created) : created ≤ startup.number := by
  have mem := starts.created f child created found
  obtain ⟨n, rfl⟩ := Sources.creations_nonneg mem
  obtain ⟨log, here, -⟩ := mem_creations.1 mem
  by_contra high
  rw [finalized n (by omega)] at here
  cases here

/-- A child of the base or of the branch was created on the chain. -/
theorem child_iff_creations (same : SameSources sources args) (keyed : Keyed sources storeKey)
    (sessions : Sessions sources history storeKey store before)
    (finalized : ∀ n : Nat, startup.number < n → history n = [])
    (committed : ∀ f ∈ sources.factories, ∀ n, sources.creations history f n ≠ [] →
      ∃ interval ∈ before, (interval.1 : Int) ≤ n ∧ n ≤ interval.2)
    (starts : StartsFrom sources history storeKey store base) (linked : Linked startup branch)
    (headers : ∀ x ∈ branch, toLight (full x.hash).header = x) (above : startup.number < b.number)
    (nonneg : 0 ≤ b.number) {filter : LogFilter F Address Hex} (mem : filter ∈ args.logFilters) {id : F}
    (address : filter.address = .factory id) {c : Address} :
    ((∃ m, (base id).get? c = some m) ∨
        ∃ x ∈ branch, x.number ≤ b.number ∧ creates args id c (whole full x) = true) ↔
      ∃ m ≤ b.number.toNat, c ∈ sources.creations (joinedChain history full startup branch) id m := by
  obtain ⟨inArgs, inSources⟩ := mem_factories mem address same
  rw [starts.child_iff keyed sessions inSources (committed id inSources),
    creates_iff_creations history same linked headers inArgs]
  constructor
  · rintro (⟨n, created⟩ | ⟨m, -, le, created⟩)
    · have low : (n : Int) ≤ startup.number := by
        obtain ⟨log, here, -⟩ := mem_creations.1 created
        by_contra high
        rw [finalized n (by omega)] at here
        cases here
      refine ⟨n, by omega, ?_⟩
      rw [creations_history low]
      exact created
    · exact ⟨m, by omega, created⟩
  · rintro ⟨m, le, created⟩
    by_cases low : (m : Int) ≤ startup.number
    · rw [creations_history low] at created
      exact .inl ⟨m, created⟩
    · exact .inr ⟨m, by omega, by omega, created⟩

/-- What is matched on the branch is what is matched in the chain. -/
theorem matchedOn_iff (same : SameSources sources args) (keyed : Keyed sources storeKey)
    (sessions : Sessions sources history storeKey store before)
    (finalized : ∀ n : Nat, startup.number < n → history n = [])
    (committed : ∀ f ∈ sources.factories, ∀ n, sources.creations history f n ≠ [] →
      ∃ interval ∈ before, (interval.1 : Int) ≤ n ∧ n ≤ interval.2)
    (starts : StartsFrom sources history storeKey store base) (linked : Linked startup branch)
    (headers : ∀ x ∈ branch, toLight (full x.hash).header = x) (mem : b ∈ branch)
    (log : ChainLog Address Hex) :
    (∃ raw ∈ (full b.hash).logs, streamedLog (full b.hash).header raw = log ∧
        MatchedOn args full base branch b raw) ↔
      MatchedIn sources (joinedChain history full startup branch) b.number.toNat log := by
  have above := linked.anchor_lt mem
  have nonneg : ((b.number.toNat : Nat) : Int) = b.number := by
    have is := congrArg Light.number (headers b mem)
    simp only [toLight] at is
    omega
  have only : ∀ x ∈ branch, x.number = b.number → x = b := by
    intro x inBranch number
    by_contra other
    have apart : branch.Pairwise fun a c => a.number ≠ c.number := linked.rising.imp Int.ne_of_lt
    have symm : Std.Symm fun a c : Light => a.number ≠ c.number := ⟨fun _ _ ne => ne.symm⟩
    exact apart.forall inBranch mem other number
  unfold MatchedIn MatchedOn
  rw [mem_joinedChain (by omega), nonneg, same.logFilters]
  constructor
  · rintro ⟨raw, inBlock, rfl, filter, inFilters, matched, child⟩
    refine ⟨⟨b, mem, rfl, raw, inBlock, rfl⟩, filter, inFilters, matched, fun id address => ?_⟩
    exact (child_iff_creations same keyed sessions finalized committed starts linked headers above
      (by omega) inFilters address).1 (child id address)
  · rintro ⟨⟨x, inBranch, number, raw, inBlock, rfl⟩, filter, inFilters, matched, child⟩
    obtain rfl := only x inBranch number
    refine ⟨raw, inBlock, rfl, filter, inFilters, matched, fun id address => ?_⟩
    exact (child_iff_creations same keyed sessions finalized committed starts linked headers above
      (by omega) inFilters address).2 (child id address)

end Both

/-! A child that block 3 creates has a log in block 4 and, above the boundary at 9, in block 10. -/

def seamArgs : WireArgs String where
  logFilters := [⟨.factory "pool", some ["0xe7"], none, none, none, none, none⟩]
  blockFilters := []
  factoryOf _ := ⟨none, "0x5e1", none, none⟩
  getChildAddress _ log := some (log.topics[1]?.getD "")
  startupFinalized := 9
  endBlock := none

def seamSources : Sources String Address Hex Unit where
  factory := seamArgs.factoryOf
  childAddress _ log := log.topics[1]?.getD ""
  logFilters := seamArgs.logFilters
  otherFactories := []
  otherRanges := []
  otherQueries := fun _ _ => .ok []
  bodySize := fun requests => requests.length
  dense := false
  preloaded := fun _ => OrdMap.empty

theorem seamSources_same : SameSources seamSources seamArgs where
  logFilters := rfl
  factory := rfl
  child := by
    intro f log _
    show some (log.topics[1]?.getD "").toLower = some ((log.topics.map String.toLower)[1]?.getD "")
    rw [List.getElem?_map]
    cases log.topics[1]? with
    | none =>
        have nothing : "".toLower = "" := by decide +kernel
        rw [Option.getD_none, Option.map_none, Option.getD_none, nothing]
    | some topic => rfl

def seamHistory : Chain Address Hex := fun bn =>
  if bn = 3 then [⟨0, "0xfac", ["0x5e1", "0xc1"], "0x"⟩]
  else if bn = 4 then [⟨0, "0xc1", ["0xe7"], "0x"⟩]
  else []

def seamSession : Durable String Address Hex Unit String :=
  (Machine.replay (Durable.step (seamSources.restarted id []) childSettings seamHistory id)
    (Durable.restart seamSources childSettings seamHistory id [])
      (sessionActions (2, 5) 4 9 [.persist, .read, .insert])).get (by decide +kernel)

theorem seamSession_run :
    Durable.InSession seamSources childSettings seamHistory id [] [] seamSession :=
  Machine.Reach.init.replay (by decide +kernel) (Option.some_get (by decide +kernel)).symm

def seamAttempt : Attempt Address Hex := seamSession.sync.attempts.get ⟨0, by decide +kernel⟩

def seamAnchor : Light := ⟨9, "0x9", "0x8", 9⟩

def seamBlock : HotBatch :=
  ⟨⟨10, "0xa", "0x9", 10, []⟩, [⟨"0xc1", some ["0xe7"], none, none, none, none⟩,
    ⟨"0xc2", some ["0xe7"], none, none, none, none⟩], [], none, none⟩

def seamActions : List LinkAction :=
  [.open .on fun _ => 0,
    .deliver seamBlock { deliveredAt := 20, now := 20, finalizedHead := none }, .consume]

def seamStart : Link String :=
  .start seamArgs (getChildAddresses id seamSession.store) seamAnchor 0

def seamEnd : Link String :=
  (Machine.replay (Link.step {} seamArgs) seamStart seamActions).get (by decide +kernel)

theorem seamEnd_reached :
    Machine.Reach (Link.step {} seamArgs)
      (Feeds (· ∈ [seamAnchor, toLight seamBlock.header]) (fun _ => seamBlock) seamArgs)
      seamStart seamEnd := by
  have redelivers : Machine.AllAllowed (Link.step {} seamArgs)
      (fun s _ => s.redelivers seamArgs = true) seamStart seamActions := by
    decide +kernel
  have blocks : ∀ a ∈ seamActions, ∀ block env, a = .deliver block env → block = seamBlock := by
    intro a mem block env is
    subst is
    simp only [seamActions, List.mem_cons, reduceCtorEq, LinkAction.deliver.injEq, false_or,
      List.not_mem_nil, or_false] at mem
    exact mem.1
  have reached := Machine.Reach.init.replay (redelivers.and blocks)
    (Option.some_get (by decide +kernel)).symm
  refine reached.mono fun s a may => ?_
  cases a with
  | «open» checks bodySize => trivial
  | deliver block env =>
      obtain rfl := may.2 block env rfl
      exact ⟨by decide, rfl⟩
  | tick env => trivial
  | consume => exact steady_of_redelivers may.1 .consume

end PortalPonder
