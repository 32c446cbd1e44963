import PortalPonder.Realtime.Subscription
import PortalPonder.Realtime.WireRules

/-!
# Wildcard parity

A widened subscription delivers more, and the wire trims it to what the filters match. What is
left is what the subscription would have delivered without widening, but for two things. The server
knows no block bounds, while the trim keeps to them. And a block that creates a child is held back
and delivered again unless the requests of its children are widened already, which need not mean
that the open connection has them.
-/

namespace PortalPonder.Realtime

open Historical (Children)
open Assembly (chainLog)

variable {F : Type} [DecidableEq F]

/-- Some filter or some factory asks for the log. -/
def Asked (args : WireArgs F) (known : Children F Address) (log : ChainLog Address Hex) : Prop :=
  (∃ f ∈ args.logFilters, Asks f known log) ∨
    ∃ f ∈ args.factories, Discovers (args.factoryOf f) log

/-- One of them has the block within its bounds; the child was created by then. -/
def AskedWithin (args : WireArgs F) (known : Children F Address) (log : ChainLog Address Hex)
    (bn : Nat) : Prop :=
  (∃ f ∈ args.logFilters, Asks f known log ∧ isBlockInRange f.fromBlock f.toBlock bn = true ∧
      ∀ id, f.address = .factory id → isAddressMatched log.address bn (known id) = true) ∨
    ∃ f ∈ args.factories, Discovers (args.factoryOf f) log ∧
      isBlockInRange (args.factoryOf f).fromBlock (args.factoryOf f).toBlock bn = true

/-- No log of the block is asked for, with the children of one map, by filters and factories only
whose bounds it misses, with those of the other. -/
def WithinBounds (args : WireArgs F) (asking known : Children F Address) (block : HotBatch) : Prop :=
  ∀ log ∈ block.logs, Asked args asking (streamedLog block.header log) →
    AskedWithin args known (streamedLog block.header log) block.header.number

/-! ## What the trim keeps -/

theorem char_toLower_toLower (c : Char) : c.toLower.toLower = c.toLower := by
  unfold Char.toLower
  by_cases upper : c.val ≥ 'A'.val ∧ c.val ≤ 'Z'.val
  · rw [dif_pos upper, dif_neg]
    obtain ⟨low, high⟩ := upper
    rintro ⟨-, lower⟩
    simp only [UInt32.le_iff_toNat_le, UInt32.toNat_add, ge_iff_le] at low high lower
    change 65 ≤ c.val.toNat at low
    change c.val.toNat ≤ 90 at high
    change (c.val.toNat + 32) % 2 ^ 32 ≤ 90 at lower
    omega
  · rw [dif_neg upper, dif_neg upper]

theorem toLower_toLower (s : String) : s.toLower.toLower = s.toLower := by
  unfold String.toLower
  rw [String.map_map]
  exact congrArg (fun f => s.map f) (funext char_toLower_toLower)

variable {args : WireArgs F} {known : Children F Address}

omit [DecidableEq F] in
theorem mem_keys_of_matched {id : F} {address : Address} {bn : Nat}
    (matched : isAddressMatched address bn (known id) = true) : address ∈ (known id).keys := by
  obtain ⟨created, found, -⟩ := isAddressMatched_iff.1 matched
  rw [OrdMap.mem_keys_iff, found]
  rfl

/-- The trim keeps what is asked for within the bounds. -/
theorem kept_iff (header : RawHeader) (log : RawLog) :
    (logMatchesLiveChildFilter args known (toSyncLog log header) ||
        logMatchesDiscovery args (toSyncLog log header)) = true ↔
      AskedWithin args known (streamedLog header log) header.number := by
  have number : hexToNumber (toSyncLog log header).blockNumber = header.number :=
    hexToNumber_numberToHex _
  have lower : (toSyncLog log header).address.toLower = (streamedLog header log).address :=
    toLower_toLower _
  unfold logMatchesLiveChildFilter logMatchesDiscovery AskedWithin
  simp only [Bool.or_eq_true, List.any_eq_true, Bool.and_eq_true, number, lower,
    isLogFactoryMatched_iff]
  refine or_congr (exists_congr fun f => and_congr_right fun _ => ?_)
    (exists_congr fun f => and_congr_right fun _ => and_comm)
  rw [isLogFilterMatched_iff]
  constructor
  · rintro ⟨⟨inRange, matched⟩, child⟩
    have created : ∀ id, f.address = .factory id →
        isAddressMatched (streamedLog header log).address header.number (known id) = true := by
      intro id kind
      rw [kind] at child
      exact child
    exact ⟨⟨matched, fun id kind => mem_keys_of_matched (created id kind)⟩, inRange, created⟩
  · rintro ⟨⟨matched, -⟩, inRange, created⟩
    refine ⟨⟨inRange, matched⟩, ?_⟩
    unfold factoryAddrOk
    cases kind : f.address with
    | any => rfl
    | oneOf addresses => rfl
    | factory id => exact created id kind

/-- The trim of a streamed log. -/
def keeps (args : WireArgs F) (known : Children F Address) (header : RawHeader) (log : RawLog) :
    Bool :=
  logMatchesLiveChildFilter args known (toSyncLog log header) ||
    logMatchesDiscovery args (toSyncLog log header)

def matchesAny (requests : List (LogRequest Address Hex)) (header : RawHeader) (log : RawLog) :
    Bool :=
  requests.any fun r => requestMatched r (streamedLog header log)

theorem matchesAny_requests (header : RawHeader) (log : RawLog) :
    matchesAny (args.requests known) header log = true ↔
      Asked args known (streamedLog header log) := by
  unfold matchesAny
  rw [List.any_eq_true]
  exact buildPortalLogRequests_matched ..

theorem AskedWithin.asked {log : ChainLog Address Hex} {bn : Nat}
    (within : AskedWithin args known log bn) : Asked args known log := by
  rcases within with ⟨f, mem, asks, -⟩ | ⟨f, mem, discovers, -⟩
  · exact .inl ⟨f, mem, asks⟩
  · exact .inr ⟨f, mem, discovers⟩

theorem keeps_iff (header : RawHeader) (log : RawLog) :
    keeps args known header log = true ↔
      AskedWithin args known (streamedLog header log) header.number := kept_iff header log

theorem withinBounds_iff {asking : Children F Address} {block : HotBatch} :
    WithinBounds args asking known block ↔
      ∀ log ∈ block.logs, matchesAny (args.requests asking) block.header log = true →
        keeps args known block.header log = true := by
  unfold WithinBounds
  simp only [matchesAny_requests, keeps_iff]

/-- Filters and factories without bounds, and children that are no younger than the block, are
within bounds. -/
theorem withinBounds_of_inRange {block : HotBatch}
    (filters : ∀ f ∈ args.logFilters, isBlockInRange f.fromBlock f.toBlock block.header.number = true)
    (factories : ∀ f ∈ args.factories, isBlockInRange (args.factoryOf f).fromBlock
      (args.factoryOf f).toBlock block.header.number = true)
    (children : ∀ id address created, (known id).get? address = some created →
      created ≤ (block.header.number : Int)) : WithinBounds args known known block := by
  rintro log - (⟨f, mem, asks⟩ | ⟨f, mem, discovers⟩)
  · refine .inl ⟨f, mem, asks, filters f mem, fun id kind => ?_⟩
    obtain ⟨created, found⟩ := Option.isSome_iff_exists.1
      ((OrdMap.mem_keys_iff _ _).1 (asks.2 id kind))
    exact isAddressMatched_iff.2 ⟨created, found, children id _ created found⟩
  · exact .inr ⟨f, mem, discovers, factories f mem⟩

/-! ## Lists that are filtered twice -/

/-- Two choices that look only at the image select the same images if and only if they agree. -/
theorem map_filter_eq_iff {α β : Type} {f : α → β} {p q : β → Bool} {items : List α} :
    (items.filter fun x => p (f x)).map f = (items.filter fun x => q (f x)).map f ↔
      ∀ x ∈ items, p (f x) = q (f x) := by
  have images : ∀ p : β → Bool, (items.filter fun x => p (f x)).map f = (items.map f).filter p :=
    fun p => List.filter_map.symm
  constructor
  · intro same x mem
    rw [images, images] at same
    have here : f x ∈ items.map f := List.mem_map_of_mem mem
    rw [Bool.eq_iff_iff]
    constructor
    · intro chosen
      exact (List.mem_filter.1 (same ▸ List.mem_filter.2 ⟨here, chosen⟩)).2
    · intro chosen
      exact (List.mem_filter.1 (same ▸ List.mem_filter.2 ⟨here, chosen⟩)).2
  · intro agree
    exact congrArg (List.map f) (List.filter_congr agree)

/-- Duplicates go before or after a filter that looks at the hash only. -/
theorem dedupeTxs_filter (keep : Option Hash → Bool) (seen seen' : List Hash)
    (same : ∀ h, keep (some h) = true → (h ∈ seen ↔ h ∈ seen')) (txs : List RawTx) :
    (dedupeTxs seen txs).filter (fun tx => keep tx.hash) =
      dedupeTxs seen' (txs.filter fun tx => keep tx.hash) := by
  induction txs generalizing seen seen' with
  | nil => rfl
  | cons tx rest ih =>
      cases hash : tx.hash with
      | none =>
          by_cases kept : keep none = true
          · rw [List.filter_cons_of_pos (by rw [hash]; exact kept)]
            simp only [dedupeTxs, hash]
            rw [List.filter_cons_of_pos (by rw [hash]; exact kept), ih seen seen' same]
          · rw [List.filter_cons_of_neg (by rw [hash]; exact kept)]
            simp only [dedupeTxs, hash]
            rw [List.filter_cons_of_neg (by rw [hash]; exact kept), ih seen seen' same]
      | some h =>
          by_cases kept : keep (some h) = true
          · rw [List.filter_cons_of_pos (by rw [hash]; exact kept)]
            simp only [dedupeTxs, hash]
            by_cases dup : h ∈ seen
            · rw [if_pos dup, if_pos ((same h kept).1 dup)]
              exact ih seen seen' same
            · rw [if_neg dup, if_neg fun dup' => dup ((same h kept).2 dup'),
                List.filter_cons_of_pos (by rw [hash]; exact kept)]
              refine congrArg _ (ih _ _ fun k keptK => ?_)
              rw [List.mem_cons, List.mem_cons, same k keptK]
          · rw [List.filter_cons_of_neg (by rw [hash]; exact kept)]
            simp only [dedupeTxs, hash]
            split
            · exact ih seen seen' same
            · rw [List.filter_cons_of_neg (by rw [hash]; exact kept)]
              refine ih _ _ fun k keptK => ?_
              have other : k ≠ h := by
                rintro rfl
                exact kept keptK
              rw [List.mem_cons, same k keptK]
              exact or_iff_right other

/-! ## What ponder receives -/

def syncLogs (batch : HotBatch) : List SyncLog := batch.logs.map fun l => toSyncLog l batch.header

def syncTransactions (batch : HotBatch) : List SyncTransaction :=
  (dedupeTxs [] batch.transactions).map fun t => toSyncTransaction t batch.header

/-- The event that ponder receives for a delivered block, when the wire forwards it. -/
def sentOf (args : WireArgs F) (w : WireState F) (batch : HotBatch) : RealtimeSyncEvent F :=
  sentBlock args w (toSyncBlockHeader batch.header) (syncLogs batch) (syncTransactions batch)
    (blockEventHasMatchedFilter (syncLogs batch) (some args.blockFilters)
      (toSyncBlockHeader batch.header))

/-- The children that are known once the block is processed. -/
def childrenWith (args : WireArgs F) (w : WireState F) (batch : HotBatch) : Children F Address :=
  (w.discover args (toSyncBlockHeader batch.header) (syncLogs batch)).childAddresses

/-- The requests ask for every log of the block that creates a child. -/
def CoversCreations (args : WireArgs F) (requests : List (LogRequest Address Hex))
    (block : HotBatch) : Prop :=
  ∀ log ∈ block.logs, (∃ f ∈ args.factories,
      Discovers (args.factoryOf f) (streamedLog block.header log)) →
    matchesAny requests block.header log = true

theorem requests_coversCreations (args : WireArgs F) (known : Children F Address)
    (block : HotBatch) : CoversCreations args (args.requests known) block :=
  fun _ _ creates => (matchesAny_requests ..).2 (.inr creates)

omit [DecidableEq F] in
/-- Widened requests match what the requests match. -/
theorem matchesAny_strip {isDiscovery : LogRequest Address Hex → Bool}
    {keys : List (WildcardLogRequestKey Hex)} {requests : List (LogRequest Address Hex)}
    {header : RawHeader} {log : RawLog} (matched : matchesAny requests header log = true) :
    matchesAny (stripKeys isDiscovery keys requests) header log = true := by
  unfold matchesAny at matched ⊢
  rw [List.any_eq_true] at matched ⊢
  exact stripKeys_covers _ _ matched

theorem CoversCreations.strip {requests : List (LogRequest Address Hex)} {block : HotBatch}
    (covers : CoversCreations args requests block) {isDiscovery : LogRequest Address Hex → Bool}
    {keys : List (WildcardLogRequestKey Hex)} :
    CoversCreations args (stripKeys isDiscovery keys requests) block :=
  fun log mem creates => matchesAny_strip (covers log mem creates)

/-- The creation logs of the block are delivered, so its children are found. -/
theorem discoverChildAddresses_delivered {requests : List (LogRequest Address Hex)}
    {block : HotBatch} (covers : CoversCreations args requests block) :
    discoverChildAddresses args (syncLogs (delivered requests block)) =
      discoverChildAddresses args (syncLogs block) := by
  unfold discoverChildAddresses
  refine congrArg (List.filter _) (List.map_congr_left fun f inFactories => ?_)
  refine congrArg (fun found => (f, List.eraseDups found)) ?_
  show ((block.logs.filter (matchesAny requests block.header)).map fun l =>
      toSyncLog l block.header).filterMap (childOf args f) = _
  unfold syncLogs
  rw [List.filterMap_map, List.filterMap_map, List.filterMap_filter]
  refine List.filterMap_congr fun log mem => ?_
  by_cases delivers : matchesAny requests block.header log = true
  · rw [if_pos delivers]
  · -- what is not delivered is no creation log
    have none_ : ¬ isLogFactoryMatched (args.factoryOf f) (streamedLog block.header log)
        (hexToNumber (toSyncLog log block.header).blockNumber) = true := by
      intro matched
      exact delivers (covers log mem ⟨f, inFactories, (isLogFactoryMatched_iff.1 matched).2⟩)
    rw [if_neg delivers]
    exact (if_neg none_).symm

theorem discover_delivered {w : WireState F} {requests : List (LogRequest Address Hex)}
    {block : HotBatch} (covers : CoversCreations args requests block) :
    childrenWith args w (delivered requests block) = childrenWith args w block := by
  unfold childrenWith WireState.discover
  dsimp only
  rw [discoverChildAddresses_delivered covers]
  rfl

/-- What is left of a wide delivery: of its logs those that the trim keeps, and their
transactions. -/
theorem trim_delivered (args : WireArgs F) (known : Children F Address)
    (wide : List (LogRequest Address Hex)) (block : HotBatch) :
    let trimmed := trimWildcardRealtimeEvent args known (toSyncBlockHeader block.header)
      (syncLogs (delivered wide block)) (syncTransactions (delivered wide block))
    let kept := block.logs.filter fun log =>
      matchesAny wide block.header log && keeps args known block.header log
    trimmed.logs = kept.map (fun l => toSyncLog l block.header) ∧
      trimmed.transactions = (dedupeTxs [] (block.transactions.filter fun tx =>
        tx.hash.any fun hash => hash ∈ kept.filterMap fun log => log.transactionHash)).map
          fun t => toSyncTransaction t block.header := by
  intro trimmed kept
  have logs : trimmed.logs = kept.map fun l => toSyncLog l block.header := by
    show ((block.logs.filter (matchesAny wide block.header)).map fun l =>
      toSyncLog l block.header).filter _ = _
    rw [List.filter_map, List.filter_filter]
    refine congrArg (List.map _) (List.filter_congr fun log _ => ?_)
    exact Bool.and_comm (keeps args known block.header log) (matchesAny wide block.header log)
  refine ⟨logs, ?_⟩
  -- of the transactions of the wide delivery, those of a kept log
  let standsIn := fun (logs : List RawLog) (hash : Option Hash) =>
    hash.any fun h => h ∈ logs.filterMap fun log => log.transactionHash
  have hashes : trimmed.logs.filterMap (fun log => log.transactionHash) =
      kept.filterMap fun log => log.transactionHash := by
    rw [logs, List.filterMap_map]
    rfl
  show ((dedupeTxs [] (block.transactions.filter fun tx =>
      standsIn (block.logs.filter (matchesAny wide block.header)) tx.hash)).map fun t =>
        toSyncTransaction t block.header).filter (fun tx => tx.hash.any fun hash =>
          hash ∈ trimmed.logs.filterMap fun log => log.transactionHash) = _
  rw [hashes, List.filter_map]
  refine congrArg (List.map _) ?_
  refine (dedupeTxs_filter (standsIn kept) [] [] (fun _ _ => Iff.rfl) _).trans ?_
  rw [List.filter_filter]
  refine congrArg (dedupeTxs []) (List.filter_congr fun tx _ => ?_)
  show (standsIn kept tx.hash &&
    standsIn (block.logs.filter (matchesAny wide block.header)) tx.hash) = standsIn kept tx.hash
  rw [Bool.and_eq_left_iff_imp]
  intro stands
  obtain ⟨h, isHash, mem⟩ := (Option.any_eq_true ..).1 stands
  refine (Option.any_eq_true ..).2 ⟨h, isHash, decide_eq_true ?_⟩
  obtain ⟨log, inKept, ofLog⟩ := List.mem_filterMap.1 (of_decide_eq_true mem)
  obtain ⟨inBlock, isKept⟩ := List.mem_filter.1 inKept
  rw [Bool.and_eq_true] at isKept
  exact List.mem_filterMap.2 ⟨log, List.mem_filter.2 ⟨inBlock, isKept.1⟩, ofLog⟩

/-- The event of a subscription that was not widened. -/
theorem sentOf_narrow (w : WireState F) (batch : HotBatch) :
    sentOf args { w with wildcardLogKeys := [] } batch =
      .block (blockEventHasMatchedFilter (syncLogs batch) (some args.blockFilters)
          (toSyncBlockHeader batch.header)) (toSyncBlockHeader batch.header) (syncLogs batch)
        (syncTransactions batch) (discoverChildAddresses args (syncLogs batch)) := rfl

/-- The event of a widened one. -/
theorem sentOf_wide {w : WireState F} {keys : List (WildcardLogRequestKey Hex)} {batch : HotBatch}
    (widened : keys.isEmpty = false) (isKnown : childrenWith args w batch = known) :
    let trimmed := trimWildcardRealtimeEvent args known (toSyncBlockHeader batch.header)
      (syncLogs batch) (syncTransactions batch)
    sentOf args { w with wildcardLogKeys := keys } batch =
      .block trimmed.hasMatchedFilter (toSyncBlockHeader batch.header) trimmed.logs
        trimmed.transactions (discoverChildAddresses args (syncLogs batch)) := by
  intro trimmed
  have notEmpty : ¬ (WireState.discover args { w with wildcardLogKeys := keys }
      (toSyncBlockHeader batch.header) (syncLogs batch)).wildcardLogKeys.isEmpty = true := by
    show ¬ keys.isEmpty = true
    rw [widened]
    exact Bool.false_ne_true
  have trims : sentEvent args (WireState.discover args { w with wildcardLogKeys := keys }
      (toSyncBlockHeader batch.header) (syncLogs batch)) (toSyncBlockHeader batch.header)
      (syncLogs batch) (syncTransactions batch) (blockEventHasMatchedFilter (syncLogs batch)
        (some args.blockFilters) (toSyncBlockHeader batch.header)) = trimmed := by
    unfold sentEvent
    rw [if_neg notEmpty]
    show trimWildcardRealtimeEvent args (childrenWith args w batch) _ _ _ = _
    rw [isKnown]
  unfold sentOf sentBlock
  rw [trims]

/-- A widened delivery and one that is not make the same event if and only if the trim keeps of the
one just what the other has. -/
theorem sentOf_eq_iff {w w' : WireState F} {keys : List (WildcardLogRequestKey Hex)}
    {wide narrow : List (LogRequest Address Hex)} {block : HotBatch}
    (widened : keys.isEmpty = false) (isKnown : childrenWith args w block = known)
    (wideCovers : CoversCreations args wide block)
    (narrowCovers : CoversCreations args narrow block) :
    sentOf args { w with wildcardLogKeys := keys } (delivered wide block) =
        sentOf args { w' with wildcardLogKeys := [] } (delivered narrow block) ↔
      ∀ log ∈ block.logs, (matchesAny wide block.header log &&
          keeps args known block.header log) = matchesAny narrow block.header log := by
  obtain ⟨logs, transactions⟩ := trim_delivered args known wide block
  rw [sentOf_narrow, sentOf_wide widened ((discover_delivered wideCovers).trans isKnown),
    discoverChildAddresses_delivered wideCovers, discoverChildAddresses_delivered narrowCovers]
  constructor
  · intro same
    have sameLogs := (RealtimeSyncEvent.block.inj same).2.2.1
    exact map_filter_eq_iff (f := fun l => toSyncLog l block.header)
      (p := fun l => (wide.any fun r => requestMatched r (chainLog l)) &&
        (logMatchesLiveChildFilter args known l || logMatchesDiscovery args l))
      (q := fun l => narrow.any fun r => requestMatched r (chainLog l)) |>.1
        (logs.symm.trans sameLogs)
  · intro agree
    have sameKept : (block.logs.filter fun log =>
        matchesAny wide block.header log && keeps args known block.header log) =
          (delivered narrow block).logs := List.filter_congr agree
    rw [sameKept] at logs transactions
    have sameFlag : (trimWildcardRealtimeEvent args known (toSyncBlockHeader block.header)
        (syncLogs (delivered wide block)) (syncTransactions (delivered wide block))).hasMatchedFilter =
          blockEventHasMatchedFilter (syncLogs (delivered narrow block)) (some args.blockFilters)
            (toSyncBlockHeader block.header) :=
      congrArg (fun logs => blockEventHasMatchedFilter logs (some args.blockFilters)
        (toSyncBlockHeader block.header)) logs
    rw [RealtimeSyncEvent.block.injEq]
    exact ⟨sameFlag, rfl, logs, transactions, rfl⟩

/-! ## Held back and delivered again -/

/-- A delivered block is held back: it creates a child, and its logs of that child may not have
been asked for. -/
def WireState.holdsBack (args : WireArgs F) (w : WireState F) (batch : HotBatch) : Bool :=
  (applyDiscovered (discoverChildAddresses args (syncLogs batch)) w.childAddresses
      (hexToNumber (toSyncBlockHeader batch.header).number)).2 &&
    (w.discover args (toSyncBlockHeader batch.header) (syncLogs batch)).incomplete args

theorem holdsBack_delivered {w : WireState F} {requests : List (LogRequest Address Hex)}
    {block : HotBatch} (covers : CoversCreations args requests block) :
    w.holdsBack args (delivered requests block) = w.holdsBack args block := by
  unfold WireState.holdsBack WireState.discover
  rw [discoverChildAddresses_delivered covers]
  rfl

theorem addChild_known {bn : Int} {acc : Children F Address × Bool}
    {found : F × Address} (isKnown : ((acc.1 found.1).get? found.2).isSome = true) :
    addChild bn acc found = acc := by
  obtain ⟨created, at_⟩ := Option.isSome_iff_exists.1 isKnown
  unfold addChild
  rw [at_]

theorem addChild_keeps {bn : Int} {acc : Children F Address × Bool} {found : F × Address} {f : F}
    {child : Address} (isKnown : ((acc.1 f).get? child).isSome = true) :
    (((addChild bn acc found).1 f).get? child).isSome = true := by
  unfold addChild
  split
  · exact isKnown
  · dsimp only
    split
    · next same =>
      subst same
      rw [OrdMap.get?_set]
      split
      · rfl
      · exact isKnown
    · exact isKnown

theorem addChild_adds {bn : Int} {acc : Children F Address × Bool} {found : F × Address} :
    (((addChild bn acc found).1 found.1).get? found.2).isSome = true := by
  unfold addChild
  cases at_ : (acc.1 found.1).get? found.2 with
  | some created => simp [at_]
  | none => simp

/-- The children of a block that is delivered again are known. -/
theorem applyDiscovered_again (discovered : List (F × List Address)) (known : Children F Address)
    (bn bn' : Int) :
    applyDiscovered discovered (applyDiscovered discovered known bn).1 bn' =
      ((applyDiscovered discovered known bn).1, false) := by
  unfold applyDiscovered
  generalize discovered.flatMap (fun found => found.2.map fun child => (found.1, child)) = items
  have held : ∀ found : F × Address, found ∈ items →
      (((items.foldl (addChild bn) (known, false)).1 found.1).get? found.2).isSome = true :=
    Folds.foldl_does (fun _ => True)
      (fun (found : F × Address) (acc : Children F Address × Bool) => ((acc.1 found.1).get? found.2).isSome = true)
      (fun _ _ _ _ => trivial) (fun _ _ _ _ => addChild_adds)
      (fun _ _ _ _ isKnown => addChild_keeps isKnown) trivial
  generalize (items.foldl (addChild bn) (known, false)).1 = after at held
  induction items with
  | nil => rfl
  | cons found rest ih =>
      rw [List.foldl_cons, addChild_known (held found List.mem_cons_self)]
      exact ih fun other mem => held other (List.mem_cons_of_mem found mem)

theorem childrenWith_again (w w' : WireState F) (block : HotBatch)
    (children : w'.childAddresses = childrenWith args w block) :
    childrenWith args w' block = childrenWith args w block := by
  show (applyDiscovered _ w'.childAddresses _).1 = _
  rw [children]
  have again := applyDiscovered_again (discoverChildAddresses args (syncLogs block))
    w.childAddresses (hexToNumber (toSyncBlockHeader block.header).number)
    (hexToNumber (toSyncBlockHeader block.header).number)
  have same := congrArg Prod.fst again
  exact same

/-- The second time the block is not held back. -/
theorem holdsBack_again (w w' : WireState F) (block : HotBatch)
    (children : w'.childAddresses = childrenWith args w block) :
    w'.holdsBack args block = false := by
  have again := applyDiscovered_again (discoverChildAddresses args (syncLogs block))
    w.childAddresses (hexToNumber (toSyncBlockHeader block.header).number)
    (hexToNumber (toSyncBlockHeader block.header).number)
  have nothing : (applyDiscovered (discoverChildAddresses args (syncLogs block))
      (childrenWith args w block) (hexToNumber (toSyncBlockHeader block.header).number)).2 = false :=
    congrArg Prod.snd again
  unfold WireState.holdsBack
  rw [children, nothing, Bool.false_and]

/-- What the wire does with a delivered block: it yields its event first, or it yields nothing,
knows the children of the block, and awaits it on a connection that is opened anew. -/
theorem onBlock_delivered {w : WireState F} (batch : HotBatch)
    (awaited : ∀ a ∈ w.awaiting, batch.header.hash = a.hash) :
    let t := (onBlock args (toSyncBlockHeader batch.header) (syncLogs batch) (syncTransactions batch)
      (blockEventHasMatchedFilter (syncLogs batch) (some args.blockFilters)
        (toSyncBlockHeader batch.header))).run w
    (w.holdsBack args batch = false → t.events.head? = some (sentOf args w batch)) ∧
      (w.holdsBack args batch = true → t.events = [] ∧
        t.state.childAddresses = childrenWith args w batch ∧
        t.state.logs = args.requests (childrenWith args w batch) ∧
        t.state.logsRevision = w.logsRevision + 1 ∧
        t.state.awaiting.map Awaiting.hash = some batch.header.hash) := by
  intro t
  have accepts : t = (acceptBlock args (toSyncBlockHeader batch.header) (syncLogs batch)
      (syncTransactions batch) (blockEventHasMatchedFilter (syncLogs batch)
        (some args.blockFilters) (toSyncBlockHeader batch.header))).run w := by
    have same : w.awaiting.filter (fun a => (toSyncBlockHeader batch.header).hash ≠ a.hash) =
        none := by
      cases waits : w.awaiting with
      | none => rfl
      | some a =>
          have isHash : (toSyncBlockHeader batch.header).hash = a.hash := awaited a waits
          simp [isHash]
    show (onBlock args _ _ _ _).run w = _
    unfold onBlock
    simp only [Gen.run_bind, Gen.run_get, same, List.nil_append]
  rw [accepts, acceptBlock_run]
  unfold WireState.holdsBack
  constructor
  · intro passes
    rw [if_neg (by simpa [Bool.and_eq_false_iff] using passes)]
    rw [(forwardBlock_run ..).1]
    rfl
  · intro holds
    rw [if_pos (by simpa using holds)]
    exact ⟨rfl, rfl, rfl, rfl, rfl⟩

/-! ## Subscriptions -/

/-- How the body of a connection is built, from the wildcard keys and the requests. -/
abbrev BuildBody := List (WildcardLogRequestKey Hex) → List (LogRequest Address Hex) →
  Except InvariantViolation (WildcardLogRequestsResult Address Hex)

/-- Over the budget requests lose their addresses. -/
def widening (args : WireArgs F) (checks : CheckMode)
    (bodySize : List (LogRequest Address Hex) → Nat) : BuildBody :=
  stripLogAddressesOverBudget checks (isDiscoveryLogRequest args) bodySize

/-- The requests are sent as they are. -/
def addressFiltered : BuildBody := fun _ requests => .ok ⟨requests, [], []⟩

/-- A block that was delivered as `batch`. If it is held back, the connection that is opened next
delivers it again. -/
def batchEvent (args : WireArgs F) (body : BuildBody) (w : WireState F) (block batch : HotBatch) :
    Except InvariantViolation (List (WildcardLogRequestKey Hex) × RealtimeSyncEvent F) :=
  if w.holdsBack args batch = true then
    (body w.wildcardLogKeys (args.requests (childrenWith args w batch))).map fun reopened =>
      (reopened.wildcard, sentOf args { w with
        childAddresses := childrenWith args w batch
        wildcardLogKeys := reopened.wildcard } (delivered reopened.requests block))
  else .ok (w.wildcardLogKeys, sentOf args w batch)

/-- The event that ponder receives of a block, and the wildcard keys by then. The connection asks for
the children that are known before the block. -/
def subscriptionEvent (args : WireArgs F) (body : BuildBody) (w : WireState F) (block : HotBatch) :
    Except InvariantViolation (List (WildcardLogRequestKey Hex) × RealtimeSyncEvent F) :=
  match body w.wildcardLogKeys (args.requests w.childAddresses) with
  | .error violation => .error violation
  | .ok opened =>
      batchEvent args body { w with wildcardLogKeys := opened.wildcard } block
        (delivered opened.requests block)

/-- Whether the wire holds back a block when it has these wildcard keys. -/
def WireState.holdsBackWith (args : WireArgs F) (w : WireState F)
    (keys : List (WildcardLogRequestKey Hex)) (block : HotBatch) : Bool :=
  { w with wildcardLogKeys := keys }.holdsBack args block

/-- The children that a subscription asks for when it delivers the block that is forwarded. -/
def askedChildren (args : WireArgs F) (w : WireState F) (keys : List (WildcardLogRequestKey Hex))
    (block : HotBatch) : Children F Address :=
  if w.holdsBackWith args keys block = true then childrenWith args w block else w.childAddresses

/-- The trim keeps what the address-filtered subscription delivers; `keys` are those the connection
was opened with. -/
structure SameAsked (args : WireArgs F) (w : WireState F) (keys : List (WildcardLogRequestKey Hex))
    (block : HotBatch) : Prop where
  /-- no log is asked for out of bounds only -/
  bounds : WithinBounds args (askedChildren args w [] block) (childrenWith args w block) block
  /-- for a log that is asked for on account of a new child only, the address-filtered block is held
  back just when the widened one is, or the connection asks for the log anyway -/
  newChildren : ∀ log ∈ block.logs,
    AskedWithin args (childrenWith args w block) (streamedLog block.header log) block.header.number →
    ¬ Asked args w.childAddresses (streamedLog block.header log) →
      (w.holdsBackWith args [] block = true ↔ w.holdsBackWith args keys block = true ∨
        matchesAny (stripKeys (isDiscoveryLogRequest args) keys (args.requests w.childAddresses))
          block.header log = true)

/-- More wildcard keys hold back less. -/
theorem holdsBackWith_nil {w : WireState F} {keys : List (WildcardLogRequestKey Hex)}
    {block : HotBatch} (holds : w.holdsBackWith args keys block = true) :
    w.holdsBackWith args [] block = true := by
  unfold WireState.holdsBackWith WireState.holdsBack at holds ⊢
  rw [Bool.and_eq_true] at holds ⊢
  refine ⟨holds.1, ?_⟩
  have incomplete := holds.2
  unfold WireState.incomplete hasAddressFilteredFactoryRequests WireState.discover at incomplete ⊢
  rw [Bool.and_eq_true, List.any_eq_true] at incomplete ⊢
  obtain ⟨some_, r, mem, asks⟩ := incomplete
  refine ⟨some_, r, mem, ?_⟩
  rw [Bool.and_eq_true] at asks ⊢
  exact ⟨asks.1, rfl⟩

/-- The address-filtered event. -/
theorem addressFiltered_event (args : WireArgs F) (w : WireState F) (block : HotBatch) :
    ∃ w' : WireState F, subscriptionEvent args addressFiltered w block =
      .ok ([], sentOf args { w' with wildcardLogKeys := [] }
        (delivered (args.requests (askedChildren args w [] block)) block)) := by
  have holds : ({ w with wildcardLogKeys := [] } : WireState F).holdsBack args
      (delivered (args.requests w.childAddresses) block) = w.holdsBackWith args [] block :=
    holdsBack_delivered (requests_coversCreations args w.childAddresses block)
  have children : childrenWith args { w with wildcardLogKeys := [] }
      (delivered (args.requests w.childAddresses) block) = childrenWith args w block :=
    discover_delivered (requests_coversCreations args w.childAddresses block)
  unfold askedChildren
  by_cases held : w.holdsBackWith args [] block = true
  · rw [if_pos held]
    refine ⟨{ w with childAddresses := childrenWith args w block }, ?_⟩
    rw [← children]
    exact if_pos (holds.trans held)
  · rw [if_neg held]
    exact ⟨w, if_neg fun yes => held (holds.symm.trans yes)⟩

/-- The widened event: of a connection that asks for the same children, or for fewer where the block
is not held back. -/
theorem widening_event {w : WireState F} {block : HotBatch} {checks : CheckMode}
    {bodySize : List (LogRequest Address Hex) → Nat}
    {opened : WildcardLogRequestsResult Address Hex}
    {result : List (WildcardLogRequestKey Hex) × RealtimeSyncEvent F}
    (opens : widening args checks bodySize w.wildcardLogKeys (args.requests w.childAddresses) =
      .ok opened)
    (widened : subscriptionEvent args (widening args checks bodySize) w block = .ok result) :
    opened.wildcard ⊆ result.1 ∧
      (w.holdsBackWith args opened.wildcard block = false → result.1 = opened.wildcard) ∧
      ∃ w' : WireState F, childrenWith args w' block = childrenWith args w block ∧
        result.2 = sentOf args { w' with wildcardLogKeys := result.1 }
          (delivered (stripKeys (isDiscoveryLogRequest args) result.1
            (args.requests (askedChildren args w opened.wildcard block))) block) := by
  obtain ⟨strips, -⟩ := stripLogAddressesOverBudget_strips opens
  have covers : CoversCreations args opened.requests block := by
    rw [strips]
    exact CoversCreations.strip (requests_coversCreations args w.childAddresses block)
  have holds : ({ w with wildcardLogKeys := opened.wildcard } : WireState F).holdsBack args
      (delivered opened.requests block) = w.holdsBackWith args opened.wildcard block :=
    holdsBack_delivered covers
  have children : childrenWith args { w with wildcardLogKeys := opened.wildcard }
      (delivered opened.requests block) = childrenWith args w block := discover_delivered covers
  unfold subscriptionEvent at widened
  rw [opens] at widened
  change (if ({ w with wildcardLogKeys := opened.wildcard } : WireState F).holdsBack args
    (delivered opened.requests block) = true then _ else _) = _ at widened
  rw [holds, children] at widened
  unfold askedChildren
  by_cases held : w.holdsBackWith args opened.wildcard block = true
  · rw [if_pos held]
    rw [if_pos held] at widened
    cases again : widening args checks bodySize opened.wildcard
        (args.requests (childrenWith args w block)) with
    | error v =>
        rw [again] at widened
        cases widened
    | ok reopened =>
        rw [again] at widened
        cases widened
        obtain ⟨strips', sticky⟩ := stripLogAddressesOverBudget_strips again
        refine ⟨sticky, fun unheld => ?_, { w with childAddresses := childrenWith args w block },
          childrenWith_again _ _ _ rfl, ?_⟩
        · rw [held] at unheld
          cases unheld
        · rw [← strips']
  · rw [if_neg held]
    rw [if_neg held] at widened
    cases widened
    exact ⟨List.Subset.refl _, fun _ => rfl, w, rfl, by rw [← strips]⟩

omit [DecidableEq F] in
theorem stripKeys_nil {A T : Type} [DecidableEq T] (isDiscovery : LogRequest A T → Bool)
    (requests : List (LogRequest A T)) : stripKeys isDiscovery [] requests = requests := by
  unfold stripKeys
  refine (List.map_congr_left fun r _ => if_neg ?_).trans (List.map_id _)
  rintro ⟨-, has⟩
  cases has

/-- Log by log: the trim of the widened delivery is the address-filtered one. -/
theorem sameAsked_agree {w : WireState F} {keys last : List (WildcardLogRequestKey Hex)}
    {block : HotBatch} (stays : w.holdsBackWith args keys block = false → last = keys) :
    (∀ log ∈ block.logs,
      (matchesAny (stripKeys (isDiscoveryLogRequest args) last
          (args.requests (askedChildren args w keys block))) block.header log &&
        keeps args (childrenWith args w block) block.header log) =
      matchesAny (args.requests (askedChildren args w [] block)) block.header log) ↔
      SameAsked args w keys block := by
  have strips : ∀ known log, Asked args known (streamedLog block.header log) →
      matchesAny (stripKeys (isDiscoveryLogRequest args) last (args.requests known))
        block.header log = true :=
    fun known log asked => matchesAny_strip ((matchesAny_requests ..).2 asked)
  have split : SameAsked args w keys block ↔ ∀ log ∈ block.logs,
      (Asked args (askedChildren args w [] block) (streamedLog block.header log) →
        AskedWithin args (childrenWith args w block) (streamedLog block.header log)
          block.header.number) ∧
      (AskedWithin args (childrenWith args w block) (streamedLog block.header log)
          block.header.number → ¬ Asked args w.childAddresses (streamedLog block.header log) →
        (w.holdsBackWith args [] block = true ↔ w.holdsBackWith args keys block = true ∨
          matchesAny (stripKeys (isDiscoveryLogRequest args) keys (args.requests w.childAddresses))
            block.header log = true)) :=
    ⟨fun same log mem => ⟨same.bounds log mem, same.newChildren log mem⟩,
      fun each => ⟨fun log mem => (each log mem).1, fun log mem => (each log mem).2⟩⟩
  rw [split]
  refine forall₂_congr fun log _ => ?_
  rw [Bool.eq_iff_iff, Bool.and_eq_true, keeps_iff, matchesAny_requests]
  unfold askedChildren
  -- whether the one block is held back, and the other
  by_cases wide : w.holdsBackWith args keys block = true
  · have narrow := holdsBackWith_nil wide
    simp only [wide, narrow, if_true, true_or]
    constructor
    · exact fun agree => ⟨fun asked => (agree.2 asked).2, fun _ _ => trivial⟩
    · exact fun same => ⟨fun both => both.2.asked, fun asked => ⟨strips _ log asked, same.1 asked⟩⟩
  · obtain rfl := stays (Bool.eq_false_iff.2 wide)
    rw [if_neg wide]
    by_cases narrow : w.holdsBackWith args [] block = true
    · simp only [wide, narrow, if_true, Bool.false_eq_true, false_or, true_iff]
      constructor
      · intro agree
        exact ⟨fun asked => (agree.2 asked).2, fun within _ => (agree.2 within.asked).1⟩
      · intro same
        refine ⟨fun both => both.2.asked, fun asked => ⟨?_, same.1 asked⟩⟩
        by_cases before : Asked args w.childAddresses (streamedLog block.header log)
        · exact strips _ log before
        · exact same.2 (same.1 asked) before
    · simp only [wide, narrow, Bool.false_eq_true, if_false, false_or, false_iff]
      constructor
      · intro agree
        exact ⟨fun asked => (agree.2 asked).2,
          fun within before matched => before (agree.1 ⟨matched, within⟩)⟩
      · intro same
        refine ⟨fun both => ?_, fun asked => ⟨strips _ log asked, same.1 asked⟩⟩
        by_contra before
        exact same.2 both.2 before both.1

/-- The condition, as it is computed. -/
theorem sameAsked_iff {w : WireState F} {keys : List (WildcardLogRequestKey Hex)}
    {block : HotBatch} : SameAsked args w keys block ↔
      (∀ log ∈ block.logs, matchesAny (args.requests (askedChildren args w [] block)) block.header
          log = true → keeps args (childrenWith args w block) block.header log = true) ∧
        ∀ log ∈ block.logs, keeps args (childrenWith args w block) block.header log = true →
          ¬ matchesAny (args.requests w.childAddresses) block.header log = true →
            (w.holdsBackWith args [] block = true ↔ w.holdsBackWith args keys block = true ∨
              matchesAny (stripKeys (isDiscoveryLogRequest args) keys
                (args.requests w.childAddresses)) block.header log = true) := by
  rw [← withinBounds_iff]
  simp only [keeps_iff, matchesAny_requests]
  exact ⟨fun same => ⟨same.bounds, same.newChildren⟩, fun both => ⟨both.1, both.2⟩⟩

/-- A block within all bounds that creates no new child meets it. -/
theorem sameAsked_of_nothing_new {w : WireState F} {keys : List (WildcardLogRequestKey Hex)}
    {block : HotBatch} (nothing : childrenWith args w block = w.childAddresses)
    (within : WithinBounds args w.childAddresses w.childAddresses block) :
    SameAsked args w keys block := by
  have asked : askedChildren args w [] block = w.childAddresses := by
    unfold askedChildren
    rw [nothing, ite_self]
  refine ⟨?_, fun log _ isWithin fresh => ?_⟩
  · rw [asked, nothing]
    exact within
  · rw [nothing] at isWithin
    exact absurd isWithin.asked fresh

/-! A filter that begins at some block, in block 150. The body is over the budget while it names
an address. -/

def beginningAt (fromBlock : Nat) : WireArgs String where
  logFilters := [⟨.oneOf ["0xa"], some ["0xe7"], none, none, none, some fromBlock, none⟩]
  blockFilters := []
  factoryOf _ := ⟨none, "0x5e1", none, none⟩
  getChildAddress _ _ := none
  startupFinalized := 100
  endBlock := none

def addressedSize (requests : List (LogRequest Address Hex)) : Nat :=
  if requests.any fun r => r.address.isSome then SHARD_BODY_BUDGET else 0

/-- One log of the filter's address, and one of another. -/
def twoLogs : HotBatch :=
  ⟨⟨150, "0x150", "0x149", 150, []⟩,
    [⟨"0xa", some ["0xe7"], none, some "0x7a", some 0, some 0⟩,
      ⟨"0xb", some ["0xe7"], none, some "0x7b", some 1, some 1⟩],
    [⟨some 0, some "0x7a", none, none, .undefined, []⟩,
      ⟨some 1, some "0x7b", none, none, .undefined, []⟩], none, none⟩

def topicOnly : WildcardLogRequestsResult Address Hex :=
  ⟨[⟨none, some ["0xe7"], none, none, none, false⟩], [⟨some ["0xe7"], none, none, none⟩],
    [⟨⟨some ["0xe7"], none, none, none⟩, 1⟩]⟩

def startOf (args : WireArgs String) : WireState String := .start args fun _ => OrdMap.empty

def widenedEvent : List (WildcardLogRequestKey Hex) × RealtimeSyncEvent String :=
  (subscriptionEvent (beginningAt 0) (widening (beginningAt 0) .on addressedSize)
    (startOf (beginningAt 0)) twoLogs).toOption.get (by decide +kernel)

def childArgs : WireArgs String where
  logFilters := [⟨.factory "f", some ["0xe7"], none, none, none, none, none⟩]
  blockFilters := []
  factoryOf _ := ⟨some ["0xfac"], "0x5e1", none, none⟩
  getChildAddress _ log := log.topics[1]?
  startupFinalized := 100
  endBlock := none

/-- The block creates a child, which emits in it. -/
def createdBlock : HotBatch :=
  ⟨⟨101, "0x101", "0x100", 101, []⟩,
    [⟨"0xfac", some ["0x5e1", "0xc1"], none, none, some 0, some 0⟩,
      ⟨"0xc1", some ["0xe7"], none, none, some 0, some 1⟩], [], none, none⟩

-- the block is not held back, although the open connection has no request for the children
example : ¬ SameAsked childArgs (startOf childArgs) topicOnly.wildcard createdBlock := by
  rw [sameAsked_iff]
  decide +kernel

end PortalPonder.Realtime
