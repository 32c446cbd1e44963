import PortalPonder.Realtime.Accounting
import PortalPonder.Realtime.Link

/-!
# Blocks on their branch

A block that ponder has received stands on a branch, which is rolled back and grown anew. What its
matchers keep of the block is compared with all logs of the block and with the children that the
branch itself has created, up to that block: nothing of an orphaned branch plays a part, and no
log is missing, whatever the subscription was when the block was delivered.
-/

namespace PortalPonder.Realtime

open Historical (Children)
open Assembly (chainLog)

variable {F : Type} [DecidableEq F]

/-- The blocks that ponder has and that were not rolled back, with the logs it was given. -/
def receive (blocks : List Delivery) : RealtimeSyncEvent F → List Delivery
  | .block _ block logs _ _ => blocks ++ [⟨ofBlock block, logs⟩]
  | .reorg _ reorgedBlocks =>
      blocks.filter fun d => d.light.hash ∉ reorgedBlocks.map LightBlock.hash
  | .finalize _ => blocks

def receivedDeliveries (outs : List (RealtimeSyncEvent F)) : List Delivery := outs.foldl receive []

/-- A block with all its logs. -/
def whole (full : Hash → HotBatch) (b : Light) : Delivery := ⟨b, syncLogs (full b.hash)⟩

/-- A filter matches the log. For a factory the address is a child, of the base or of a block of
the branch up to this one. -/
def MatchedOn (args : WireArgs F) (full : Hash → HotBatch) (base : Children F Address)
    (branch : List Light) (b : Light) (log : RawLog) : Prop :=
  ∃ f ∈ args.logFilters,
    isLogFilterMatched f (streamedLog (full b.hash).header log) b.number.toNat = true ∧
      ∀ id, f.address = .factory id →
        (∃ m, (base id).get? (streamedLog (full b.hash).header log).address = some m) ∨
          ∃ x ∈ branch, x.number ≤ b.number ∧
            creates args id (streamedLog (full b.hash).header log).address (whole full x) = true

/-- A hash determines its block with all its logs, and a block that creates children is either
redelivered or was asked for in full already. -/
def Feeds (K : Light → Prop) (full : Hash → HotBatch) (args : WireArgs F) (s : Link F) :
    LinkAction → Prop
  | .deliver block _ => K (toLight block.header) ∧ full block.header.hash = block
  | .consume => Steady args s .consume
  | _ => True

theorem Feeds.steady {K : Light → Prop} {full : Hash → HotBatch} {args : WireArgs F} {s : Link F}
    {a : LinkAction} (feeds : Feeds K full args s a) : Steady args s a := by
  cases a with
  | consume => exact feeds
  | «open» checks bodySize => trivial
  | deliver block env => trivial
  | tick env => trivial

/-! ## What ponder has received -/

section Received

omit [DecidableEq F]

theorem receivedDeliveries_append (outs more : List (RealtimeSyncEvent F)) :
    receivedDeliveries (outs ++ more) = more.foldl receive (receivedDeliveries outs) :=
  List.foldl_append

theorem foldl_receive_lights (outs : List (RealtimeSyncEvent F)) (blocks : List Delivery) :
    (outs.foldl receive blocks).map Delivery.light =
      outs.foldl received (blocks.map Delivery.light) := by
  induction outs generalizing blocks with
  | nil => rfl
  | cons out rest ih =>
      rw [List.foldl_cons, List.foldl_cons, ih]
      congr 1
      cases out with
      | block matched block logs transactions children => simp [receive, received]
      | reorg ancestor reorgedBlocks => simp [receive, received, List.filter_map, Function.comp_def]
      | finalize block => rfl

theorem receivedDeliveries_lights (outs : List (RealtimeSyncEvent F)) :
    (receivedDeliveries outs).map Delivery.light = receivedBlocks outs := foldl_receive_lights outs []

/-- The finalize of a block adds no block. -/
theorem receive_released (args : WireArgs F) (w : WireState F) (blocks : List Delivery) :
    (released args w).1.foldl receive blocks = blocks := by
  unfold released
  split
  · rfl
  · unfold emitted
    split <;> rfl

theorem receive_emitted (args : WireArgs F) (w : WireState F) (block : Light)
    (blocks : List Delivery) : (emitted args w block).1.foldl receive blocks = blocks := by
  unfold emitted
  split <;> rfl

end Received

/-! ## The children of a branch -/

section Children

variable {args : WireArgs F} {full : Hash → HotBatch} {base known : Children F Address}
  {branch branch' : List Light} {startup b : Light} {log : RawLog}

/-- The blocks up to this one decide. -/
theorem MatchedOn.congr
    (same : ∀ x, x.number ≤ b.number → (x ∈ branch ↔ x ∈ branch')) :
    MatchedOn args full base branch b log ↔ MatchedOn args full base branch' b log := by
  unfold MatchedOn
  refine exists_congr fun f => and_congr_right fun _ => and_congr_right fun _ =>
    forall_congr' fun id => imp_congr_right fun _ => or_congr_right (exists_congr fun x => ?_)
  constructor
  · rintro ⟨mem, low, created⟩
    exact ⟨(same x low).1 mem, low, created⟩
  · rintro ⟨mem, low, created⟩
    exact ⟨(same x low).2 mem, low, created⟩

/-- On a rising branch a child is known from the first block that creates it. -/
theorem firstCreation_le_iff (linked : Linked startup branch) {f : F} {child : Address} {n : Int} :
    (∃ m, firstCreation args (branch.map (whole full)) f child = some m ∧ m ≤ n) ↔
      ∃ x ∈ branch, x.number ≤ n ∧ creates args f child (whole full x) = true := by
  unfold firstCreation
  constructor
  · rintro ⟨m, first, le⟩
    obtain ⟨d, found, rfl⟩ := Option.map_eq_some_iff.1 first
    obtain ⟨x, mem, rfl⟩ := List.mem_map.1 (List.mem_of_find?_eq_some found)
    exact ⟨x, mem, le, by simpa using List.find?_some found⟩
  · rintro ⟨x, mem, le, created⟩
    have rising := linked.rising
    clear linked
    induction branch with
    | nil => cases mem
    | cons y rest ih =>
        obtain ⟨above, tail⟩ := List.pairwise_cons.1 rising
        rw [List.map_cons, List.find?_cons]
        cases here : creates args f child (whole full y) with
        | true =>
            refine ⟨y.number, rfl, ?_⟩
            rcases List.mem_cons.1 mem with rfl | later
            · exact le
            · have := above x later
              omega
        | false =>
            rcases List.mem_cons.1 mem with rfl | later
            · rw [created] at here
              cases here
            · exact ih later tail

/-- With the children of the branch known, the matchers keep what is matched on it. -/
theorem logMatches_iff (linked : Linked startup branch)
    (older : ∀ f child created, (base f).get? child = some created → created ≤ startup.number)
    (map : MapOf args base (branch.map (whole full)) known) (above : startup.number < b.number)
    (isHeader : toLight (full b.hash).header = b) :
    logMatchesLiveChildFilter args known (toSyncLog log (full b.hash).header) = true ↔
      MatchedOn args full base branch b log := by
  have number : (full b.hash).header.number = b.number.toNat := by
    have is := congrArg Light.number isHeader
    simp only [toLight] at is
    omega
  have synced : hexToNumber (toSyncLog log (full b.hash).header).blockNumber = b.number.toNat := by
    rw [← number]
    exact hexToNumber_numberToHex _
  have nonneg : ((b.number.toNat : Nat) : Int) = b.number := by
    have is := congrArg Light.number isHeader
    simp only [toLight] at is
    omega
  have lower : (toSyncLog log (full b.hash).header).address.toLower =
      (streamedLog (full b.hash).header log).address := toLower_toLower _
  unfold logMatchesLiveChildFilter MatchedOn
  simp only [List.any_eq_true, Bool.and_eq_true, synced, lower]
  refine exists_congr fun f => and_congr_right fun _ => and_congr_right fun _ => ?_
  unfold factoryAddrOk
  cases kind : f.address with
  | any => simp
  | oneOf addresses => simp
  | factory id =>
      simp only [AddressFilter.factory.injEq, forall_eq']
      rw [isAddressMatched_iff, map, nonneg]
      cases inBase : (base id).get? (streamedLog (full b.hash).header log).address with
      | some m =>
          have low := older id _ m inBase
          simp only [Option.some_or, Option.some.injEq, exists_eq_left', exists_eq', true_or,
            iff_true]
          omega
      | none =>
          simp only [Option.none_or, reduceCtorEq, exists_false, false_or]
          exact firstCreation_le_iff linked

/-- A delivery of a block: nothing but logs of the block, and all that are matched. -/
structure Delivers (args : WireArgs F) (full : Hash → HotBatch) (base : Children F Address)
    (branch : List Light) (d : Delivery) : Prop where
  logs : ∀ log ∈ d.logs, ∃ raw ∈ (full d.light.hash).logs,
    toSyncLog raw (full d.light.hash).header = log
  matched : ∀ raw ∈ (full d.light.hash).logs, MatchedOn args full base branch d.light raw →
    toSyncLog raw (full d.light.hash).header ∈ d.logs

theorem Delivers.congr {d : Delivery} (delivers : Delivers args full base branch d)
    (same : ∀ x, x.number ≤ d.light.number → (x ∈ branch ↔ x ∈ branch')) :
    Delivers args full base branch' d :=
  ⟨delivers.logs, fun raw mem isMatched =>
    delivers.matched raw mem ((MatchedOn.congr same).2 isMatched)⟩

/-- A block adds its children at its place, once. -/
theorem MapOf.surviving (map : MapOf args base (branch.map (whole full)) known)
    (block : SyncBlockHeader) (logs : List SyncLog) (transactions : List SyncTransaction)
    (hasMatchedFilter : Bool) (batchId batchSize : Option Nat) :
    MapOf args base
      ((surviving branch (.block block logs transactions hasMatchedFilter batchId batchSize)).map
        (whole full))
      (applyDiscovered (discoverChildAddresses args (syncLogs (full block.hash))) known
        (ofBlock block).number).1 := by
  intro f child
  refine (applyDiscovered_get known (whole full (ofBlock block)) f child).trans ?_
  rw [map, Option.or_assoc]
  congr 1
  show _ = firstCreation args (List.map (whole full)
    (if ofBlock block ∈ branch then branch else branch ++ [ofBlock block])) f child
  by_cases again : ofBlock block ∈ branch
  · -- the block is redelivered: what it creates is known from it at the latest
    rw [if_pos again]
    by_cases created : creates args f child (whole full (ofBlock block)) = true
    · have found : (firstCreation args (branch.map (whole full)) f child).isSome := by
        unfold firstCreation
        rw [Option.isSome_map, List.find?_isSome]
        exact ⟨_, List.mem_map.2 ⟨_, again, rfl⟩, created⟩
      obtain ⟨m, first⟩ := Option.isSome_iff_exists.1 found
      rw [first, Option.some_or]
    · rw [if_neg created, Option.or_none]
  · rw [if_neg again, List.map_append, List.map_singleton, firstCreation_snoc]

/-- A reorg takes back the children of the blocks above the common ancestor. -/
theorem MapOf.cut {below reorgedBlocks : List Light} (linked : Linked startup branch)
    (older : ∀ f child created, (base f).get? child = some created → created ≤ startup.number)
    (map : MapOf args base (branch.map (whole full)) known)
    (splits : branch = below ++ reorgedBlocks) :
    MapOf args base (below.map (whole full)) fun f =>
      (known f).filter fun _ created => ¬ (tipOf startup below).number < created := by
  intro f child
  rw [splits] at linked
  obtain ⟨low, high⟩ := linked_append.1 linked
  have kept : below.map (whole full) = (branch.map (whole full)).filter
      fun d => ¬ (tipOf startup below).number < d.light.number := by
    rw [splits, List.map_append, List.filter_append, List.filter_eq_self.2, List.filter_eq_nil_iff.2,
      List.append_nil]
    · intro d mem
      obtain ⟨x, inReorged, rfl⟩ := List.mem_map.1 mem
      have above := high.anchor_lt inReorged
      simpa [whole] using above
    · intro d mem
      obtain ⟨x, inBelow, rfl⟩ := List.mem_map.1 mem
      have le := low.le_tip (List.mem_cons_of_mem _ inBelow)
      simpa [whole] using le
  have rising : (branch.map (whole full)).Pairwise fun d d' => d.light.number ≤ d'.light.number := by
    rw [splits, List.pairwise_map]
    exact linked.rising.imp Int.le_of_lt
  have filtered : firstCreation args (below.map (whole full)) f child =
      (firstCreation args (branch.map (whole full)) f child).filter
        fun created => ¬ (tipOf startup below).number < created := by
    unfold firstCreation
    rw [kept, find?_filter_below rising]
    cases (branch.map (whole full)).find? (creates args f child) with
    | none => rfl
    | some d => simp [Option.filter_some, apply_ite]
  have tip := low.le_tip List.mem_cons_self
  show ((known f).filter fun _ created => ¬ (tipOf startup below).number < created).get? child = _
  rw [OrdMap.get?_filter, map f child, filtered]
  cases inBase : (base f).get? child with
  | none => rfl
  | some created =>
      have le := older f child created inBase
      have stays : ¬ (tipOf startup below).number < created := by omega
      simp [Option.filter_some, stays]

end Children

/-! ## The invariant -/

structure BranchInv (K : Light → Prop) (full : Hash → HotBatch) (eventArgs : EventArgs)
    (args : WireArgs F) (base : Children F Address) (startup : Light) (s : Link F) : Prop where
  link : LinkInv eventArgs args s
  pipe : PipeInv K args startup s.pipe
  last : ∀ block, s.block = some block → full block.header.hash = block
  headers : ∀ b ∈ survivingChain s.pipe.consumed, toLight (full b.hash).header = b
  map : MapOf args base ((survivingChain s.pipe.consumed).map (whole full))
    s.pipe.wire.childAddresses
  rows : ∀ d ∈ receivedDeliveries s.pipe.forwarded,
    Delivers args full base (survivingChain s.pipe.consumed) d

section Steps

variable {K : Light → Prop} {full : Hash → HotBatch} {eventArgs : EventArgs} {args : WireArgs F}
  {base : Children F Address} {startup : Light} {s t : Link F}

theorem BranchInv.start (now : Int) (known : K startup)
    (same : args.startupFinalized = startup.number) :
    BranchInv K full eventArgs args base startup (.start args base startup now) := by
  refine ⟨.start base startup now, .start base now known same, ?_, ?_, ?_, ?_⟩
  · intro block is
    cases is
  · intro b mem
    cases mem
  · intro f child
    exact (Option.or_none ..).symm
  · intro d mem
    cases mem

/-- What ponder has stands on the surviving chain. -/
theorem BranchInv.mem_chain (coherent : Coherent K)
    (inv : BranchInv K full eventArgs args base startup s) {d : Delivery}
    (mem : d ∈ receivedDeliveries s.pipe.forwarded) : d.light ∈ survivingChain s.pipe.consumed := by
  obtain ⟨awaited, splits, -⟩ := (inv.pipe.accounts coherent).blocks
  rw [splits, ← receivedDeliveries_lights]
  exact List.mem_append_left _ (List.mem_map.2 ⟨d, mem, rfl⟩)

/-- A connection is opened. -/
theorem BranchInv.open (inv : BranchInv K full eventArgs args base startup s) {checks : CheckMode}
    {bodySize : List (LogRequest Address Hex) → Nat}
    (taken : s.onOpen args checks bodySize = some t) :
    BranchInv K full eventArgs args base startup t := by
  have link := inv.link.open taken
  unfold Link.onOpen at taken
  split at taken
  · cases taken
  · split at taken
    · cases taken
    · cases taken
      refine ⟨link, ?_, inv.last, inv.headers, inv.map, inv.rows⟩
      obtain ⟨wire, known, offered, tracks⟩ := inv.pipe
      exact ⟨⟨wire.chained, wire.mode.of_same rfl rfl rfl, wire.finals, wire.accounted⟩, known,
        offered, tracks⟩

/-- The producer runs through an item of the stream. -/
theorem BranchInv.turn (coherent : Coherent K)
    (inv : BranchInv K full eventArgs args base startup s) {item : HotItem} {env : Env}
    {keys : List (WildcardLogRequestKey Hex)} {p : Pipe F} {block : Option HotBatch}
    (delivers : Pipe.Delivers K s.pipe (.turn item env keys))
    (taken : s.pipe.onTurn eventArgs item env keys = some p)
    (link : LinkInv eventArgs args { s with pipe := p, block := block })
    (last : ∀ b, block = some b → full b.header.hash = b) :
    BranchInv K full eventArgs args base startup { s with pipe := p, block := block } := by
  have pipe := inv.pipe.turn coherent delivers taken
  obtain ⟨-, -, rfl⟩ := onTurn_cases taken
  exact ⟨link, pipe, last, inv.headers, inv.map, inv.rows⟩

theorem BranchInv.deliver (coherent : Coherent K)
    (inv : BranchInv K full eventArgs args base startup s) {block : HotBatch} {env : Env}
    (known : K (toLight block.header)) (isFull : full block.header.hash = block)
    (taken : s.onDeliver eventArgs block env = some t) :
    BranchInv K full eventArgs args base startup t := by
  have link := inv.link.deliver taken
  unfold Link.onDeliver at taken
  split at taken
  · cases taken
  · next c isOpen =>
    have delivers : Pipe.Delivers K s.pipe
        (.turn (.block (delivered c.requests block)) env s.pipe.wire.wildcardLogKeys) := known
    split at taken
    · obtain ⟨p, turned, rfl⟩ := Option.map_eq_some_iff.1 taken
      refine inv.turn coherent delivers turned link fun b is => ?_
      cases is
      exact isFull
    · cases taken

/-- The common ancestor is where the surviving chain is cut. -/
theorem ancestor_eq_tip {log : EventLog} {chain below reorgedBlocks : List Light} {ancestor : Light}
    (chained : Chained K startup log chain) (legal : log.Legal (.reorg ancestor reorgedBlocks))
    (splits : chain = below ++ reorgedBlocks) : ancestor = tipOf startup below := by
  obtain ⟨kept, windowSplits, isTip, -, -, -⟩ := legal
  obtain ⟨pre, chainSplits, anchor⟩ := chained.window
  rw [windowSplits, ← List.append_assoc, splits] at chainSplits
  rw [isTip, anchor, ← tipOf_append, List.append_cancel_right chainSplits]

/-- The wire takes a finalize: blocks and children stay. -/
theorem BranchInv.finalize (inv : BranchInv K full eventArgs args base startup s) {b : Light}
    {outs : List (RealtimeSyncEvent F)} {w' : WireState F} {stop : Option WireStop}
    (handled : Handled args s.pipe.wire (.finalize b) outs w' stop) :
    MapOf args base ((survivingChain (s.pipe.consumed ++ [.finalize b])).map (whole full))
        w'.childAddresses ∧
      survivingChain (s.pipe.consumed ++ [.finalize b]) = survivingChain s.pipe.consumed ∧
      receivedDeliveries (s.pipe.forwarded ++ outs) = receivedDeliveries s.pipe.forwarded := by
  have same : survivingChain (s.pipe.consumed ++ [PortalRealtimeEvent.finalize b]) =
      survivingChain s.pipe.consumed := survivingChain_snoc _ _
  refine ⟨?_, same, ?_⟩
  · rw [same, handled.finalize_requests.2]
    exact inv.map
  · rw [receivedDeliveries_append]
    cases handled with
    | held awaits reaches => rfl
    | finalized below => exact receive_emitted ..

/-- The wire takes a reorg: what is above the common ancestor is gone, on both sides. -/
theorem BranchInv.reorg (coherent : Coherent K)
    (older : ∀ f child created, (base f).get? child = some created → created ≤ startup.number)
    (inv : BranchInv K full eventArgs args base startup s) {ancestor : Light}
    {reorgedBlocks : List Light}
    (legal : (s.pipe.consumed.foldl EventLog.apply ⟨[], startup⟩).Legal
      (.reorg ancestor reorgedBlocks))
    {outs : List (RealtimeSyncEvent F)} {w' : WireState F} {stop : Option WireStop}
    (handled : Handled args s.pipe.wire (.reorg ancestor reorgedBlocks) outs w' stop) :
    MapOf args base
        ((survivingChain (s.pipe.consumed ++ [.reorg ancestor reorgedBlocks])).map (whole full))
        w'.childAddresses ∧
      (∀ b ∈ survivingChain (s.pipe.consumed ++ [.reorg ancestor reorgedBlocks]),
        b ∈ survivingChain s.pipe.consumed) ∧
      ∀ d ∈ receivedDeliveries (s.pipe.forwarded ++ outs),
        Delivers args full base
          (survivingChain (s.pipe.consumed ++ [.reorg ancestor reorgedBlocks])) d := by
  obtain ⟨below, splits, -, survives, -, -⟩ := inv.pipe.wire.chained.cut coherent legal
  have isTip := ancestor_eq_tip inv.pipe.wire.chained legal splits
  have linked := inv.pipe.wire.chained.linked
  rw [survivingChain_snoc, survives]
  refine ⟨?_, ?_, ?_⟩
  · cases handled with
    | reorged =>
        rw [prune_children, forget_children, isTip]
        exact MapOf.cut linked older inv.map splits
  · intro b mem
    rw [splits]
    exact List.mem_append_left _ mem
  · intro d mem
    have isOut : outs = [.reorg (lightToLightBlock ancestor) (reorgedBlocks.map lightToLightBlock)] := by
      cases handled with
      | reorged => rfl
    rw [receivedDeliveries_append, isOut] at mem
    obtain ⟨old, stays⟩ := List.mem_filter.1 mem
    refine (inv.rows d old).congr fun x low => ?_
    have inChain := inv.mem_chain coherent old
    rw [splits] at inChain linked ⊢
    -- the block is not one of those that were taken back, so it is below them
    have inBelow : d.light ∈ below := by
      rcases List.mem_append.1 inChain with here | gone
      · exact here
      · have gone' : d.light.hash ∈ (reorgedBlocks.map lightToLightBlock).map LightBlock.hash := by
          rw [List.map_map]
          exact List.mem_map.2 ⟨d.light, gone, rfl⟩
        exact absurd gone' (of_decide_eq_true stays)
    have rising := (List.pairwise_append.1 linked.rising).2.2
    constructor
    · intro xIn
      rcases List.mem_append.1 xIn with here | gone
      · exact here
      · have higher := rising d.light inBelow x gone
        omega
    · exact List.mem_append_left _

/-- The trim takes logs away. -/
theorem sentEvent_subset {w : WireState F} {block : SyncBlockHeader} {logs : List SyncLog}
    {transactions : List SyncTransaction} {hasMatchedFilter : Bool} {log : SyncLog}
    (sent : log ∈ (sentEvent args w block logs transactions hasMatchedFilter).logs) :
    log ∈ logs := by
  unfold sentEvent at sent
  split at sent
  · exact sent
  · exact (List.mem_filter.1 sent).1

/-- The wire takes a block: it is forwarded with all that is matched, or held back. -/
theorem BranchInv.block (coherent : Coherent K)
    (older : ∀ f child created, (base f).get? child = some created → created ≤ startup.number)
    (inv : BranchInv K full eventArgs args base startup s) (steady : Steady args s .consume)
    {block : SyncBlockHeader} {logs : List SyncLog} {transactions : List SyncTransaction}
    {hasMatchedFilter : Bool} {batchId batchSize : Option Nat} {p : Pipe F}
    {outs : List (RealtimeSyncEvent F)} {rest : List PortalRealtimeEvent}
    (taken : s.pipe.onConsume args = some p) (kept : ¬ Lost p.stop)
    (pending : s.pipe.pending =
      .block block logs transactions hasMatchedFilter batchId batchSize :: rest)
    (consumed : p.consumed = s.pipe.consumed ++
      [.block block logs transactions hasMatchedFilter batchId batchSize])
    (forwarded : p.forwarded = s.pipe.forwarded ++ outs)
    (handled : Handled args s.pipe.wire
      (.block block logs transactions hasMatchedFilter batchId batchSize) outs w' stop)
    (pipe : PipeInv K args startup p) :
    MapOf args base ((survivingChain p.consumed).map (whole full)) p.wire.childAddresses ∧
      (∀ b ∈ survivingChain p.consumed, toLight (full b.hash).header = b) ∧
      ∀ d ∈ receivedDeliveries p.forwarded, Delivers args full base (survivingChain p.consumed) d := by
  obtain ⟨c, batch, isOpen, isLast, isBlock, isLogs, -⟩ := inv.link.pending.block pending
  have complete := inv.link.blockComplete steady taken
  have isFull : full block.hash = batch := by
    rw [isBlock]
    exact inv.last batch isLast
  have isLight : ofBlock block = toLight batch.header := by
    rw [isBlock, ofBlock_toSyncBlockHeader]
  have chainIs : survivingChain p.consumed = (if ofBlock block ∈ survivingChain s.pipe.consumed then
      survivingChain s.pipe.consumed else survivingChain s.pipe.consumed ++ [ofBlock block]) := by
    rw [consumed, survivingChain_snoc]
    rfl
  have linked := pipe.wire.chained.linked
  have headers : ∀ b ∈ survivingChain p.consumed, toLight (full b.hash).header = b := by
    intro b mem
    rw [chainIs] at mem
    split at mem
    · exact inv.headers b mem
    · rcases List.mem_append.1 mem with old | new
      · exact inv.headers b old
      · rw [List.mem_singleton.1 new, show (ofBlock block).hash = block.hash from rfl, isFull, isLight]
  have map : MapOf args base ((survivingChain p.consumed).map (whole full)) p.wire.childAddresses := by
    obtain ⟨batch', isLast', children⟩ := complete.known _ _ _ _ _ _ _ pending kept
    obtain rfl : batch' = batch := Option.some.inj (isLast'.symm.trans isLast)
    rw [show p.wire.childAddresses = childrenWith args s.pipe.wire batch' from children, chainIs]
    have adds := inv.map.surviving block logs transactions hasMatchedFilter batchId batchSize
    rw [isFull] at adds
    unfold childrenWith WireState.discover
    rw [← isBlock]
    exact adds
  refine ⟨map, headers, ?_⟩
  have before : ∀ d ∈ receivedDeliveries s.pipe.forwarded,
      Delivers args full base (survivingChain p.consumed) d := by
    intro d mem
    refine (inv.rows d mem).congr fun x low => ?_
    have inChain := inv.mem_chain coherent mem
    rw [chainIs] at linked ⊢
    split at linked
    · next again => rw [if_pos again]
    · next fresh =>
        -- a new block is above all that ponder has
        rw [if_neg fresh]
        have higher := (List.pairwise_append.1 linked.rising).2.2 d.light inChain (ofBlock block)
          (List.mem_singleton.2 rfl)
        constructor
        · exact List.mem_append_left _
        · intro xIn
          rcases List.mem_append.1 xIn with old | new
          · exact old
          · rw [List.mem_singleton.1 new] at low
            omega
  intro d mem
  rw [forwarded, receivedDeliveries_append] at mem
  cases handled with
  | lost awaits other => exact before d mem
  | suppressed awaited incomplete => exact before d mem
  | forwarded awaited whole_ =>
      rw [List.foldl_cons, receive_released] at mem
      rcases List.mem_append.1 mem with old | new
      · exact before d old
      · rw [List.mem_singleton.1 new]
        have inChain : ofBlock block ∈ survivingChain p.consumed := by
          rw [chainIs]
          split
          · next again => exact again
          · exact List.mem_append_right _ (List.mem_singleton.2 rfl)
        have hash : full (ofBlock block).hash = batch := isFull
        refine ⟨fun log sent => ?_, fun raw mem isMatched => ?_⟩
        · have inLogs := sentEvent_subset sent
          rw [isLogs] at inLogs
          obtain ⟨raw, inDelivery, rfl⟩ := List.mem_map.1 inLogs
          rw [hash]
          exact ⟨raw, (mem_delivered.1 inDelivery).1, rfl⟩
        · obtain ⟨batch', isLast', -, all⟩ := complete.forwards _ _ _ _ _ _ forwarded
          obtain rfl : batch' = batch := Option.some.inj (isLast'.symm.trans isLast)
          have keeps := (logMatches_iff linked older map (linked.anchor_lt inChain)
            (headers _ inChain)).2 isMatched
          rw [hash] at mem keeps ⊢
          exact all raw mem keeps

theorem BranchInv.consume (coherent : Coherent K) (start : args.startupFinalized = startup.number)
    (older : ∀ f child created, (base f).get? child = some created → created ≤ startup.number)
    (inv : BranchInv K full eventArgs args base startup s) (steady : Steady args s .consume)
    {p : Pipe F} (taken : s.pipe.onConsume args = some p) :
    BranchInv K full eventArgs args base startup { s with pipe := p } := by
  have running := running_of_onConsume taken
  have link := inv.link.consume steady taken
  have pipe := inv.pipe.consume coherent start taken
  obtain ⟨e, rest, outs, w', stop, pending, handled, isNext⟩ := onConsume_cases taken
  have legal := inv.pipe.offered running
  rw [pending] at legal
  by_cases lost : Lost stop
  · obtain ⟨rfl, rfl⟩ := handled.refused lost
    rw [if_pos lost, List.append_nil] at isNext
    subst isNext
    exact ⟨link, pipe, inv.last, inv.headers, inv.map, inv.rows⟩
  · rw [if_neg lost] at isNext
    cases e with
    | finalize b =>
        obtain ⟨map, same, received⟩ := inv.finalize handled
        subst isNext
        refine ⟨link, pipe, inv.last, fun b mem => ?_, map, fun d mem => ?_⟩
        · exact inv.headers b (same ▸ mem)
        · exact same ▸ inv.rows d (received ▸ mem)
    | reorg ancestor reorgedBlocks =>
        obtain ⟨map, older, rows⟩ := inv.reorg coherent older legal.1 handled
        subst isNext
        exact ⟨link, pipe, inv.last, fun b mem => inv.headers b (older b mem), map, rows⟩
    | block block logs transactions hasMatchedFilter batchId batchSize =>
        have kept : ¬ Lost p.stop := by
          rw [isNext]
          exact lost
        obtain ⟨map, headers, rows⟩ := inv.block coherent older steady taken kept pending
          (by rw [isNext]) (by rw [isNext]) handled pipe
        exact ⟨link, pipe, inv.last, headers, map, rows⟩

theorem branchInv_of_reach (coherent : Coherent K) (known : K startup)
    (start : args.startupFinalized = startup.number)
    (older : ∀ f child created, (base f).get? child = some created → created ≤ startup.number)
    {now : Int} (reached : Machine.Reach (Link.step eventArgs args) (Feeds K full args)
      (.start args base startup now) s) : BranchInv K full eventArgs args base startup s := by
  refine reached.invariant (.start now known start) fun s a t _ inv feeds taken => ?_
  cases a with
  | «open» checks bodySize => exact inv.open taken
  | deliver block env =>
      exact inv.deliver coherent feeds.1 feeds.2 taken
  | tick env =>
      obtain ⟨p, turned, rfl⟩ := Option.map_eq_some_iff.1 taken
      have delivers : Pipe.Delivers K s.pipe (.turn .tick env s.pipe.wire.wildcardLogKeys) := trivial
      exact inv.turn coherent delivers turned (inv.link.tick turned) inv.last
  | consume =>
      obtain ⟨p, consumed, rfl⟩ := Option.map_eq_some_iff.1 taken
      exact inv.consume coherent start older feeds consumed

end Steps

/-! ## What ponder keeps -/

/-- The logs of a block that the matchers keep, with the children that are known now. -/
def keptLogs (args : WireArgs F) (known : Children F Address) (d : Delivery) : List SyncLog :=
  d.logs.filter (logMatchesLiveChildFilter args known)

section Kept

variable {K : Light → Prop} {full : Hash → HotBatch} {eventArgs : EventArgs} {args : WireArgs F}
  {base : Children F Address} {startup : Light} {s : Link F}

theorem BranchInv.linked (coherent : Coherent K)
    (inv : BranchInv K full eventArgs args base startup s) :
    Linked startup (receivedBlocks s.pipe.forwarded) := by
  obtain ⟨awaited, splits, -⟩ := (inv.pipe.accounts coherent).blocks
  have linked := inv.pipe.wire.chained.linked
  rw [splits] at linked
  exact (linked_append.1 linked).1

/-- An awaited block is above the blocks that were received. -/
theorem BranchInv.mem_received_iff (coherent : Coherent K)
    (inv : BranchInv K full eventArgs args base startup s) {d : Delivery}
    (mem : d ∈ receivedDeliveries s.pipe.forwarded) {x : Light} (low : x.number ≤ d.light.number) :
    x ∈ survivingChain s.pipe.consumed ↔ x ∈ receivedBlocks s.pipe.forwarded := by
  obtain ⟨awaited, splits, -⟩ := (inv.pipe.accounts coherent).blocks
  have linked := inv.pipe.wire.chained.linked
  rw [splits] at linked ⊢
  have here : d.light ∈ receivedBlocks s.pipe.forwarded := by
    rw [← receivedDeliveries_lights]
    exact List.mem_map.2 ⟨d, mem, rfl⟩
  constructor
  · intro xIn
    rcases List.mem_append.1 xIn with old | later
    · exact old
    · have higher := (List.pairwise_append.1 linked.rising).2.2 d.light here x later
      omega
  · exact List.mem_append_left _

/-- Of a received block the matchers keep what is matched on its branch. -/
theorem BranchInv.kept_iff (coherent : Coherent K)
    (older : ∀ f child created, (base f).get? child = some created → created ≤ startup.number)
    (inv : BranchInv K full eventArgs args base startup s) {d : Delivery}
    (mem : d ∈ receivedDeliveries s.pipe.forwarded) (log : SyncLog) :
    log ∈ keptLogs args s.pipe.wire.childAddresses d ↔
      ∃ raw ∈ (full d.light.hash).logs, toSyncLog raw (full d.light.hash).header = log ∧
        MatchedOn args full base (receivedBlocks s.pipe.forwarded) d.light raw := by
  have linked := inv.pipe.wire.chained.linked
  have inChain := inv.mem_chain coherent mem
  have keeps : ∀ raw, logMatchesLiveChildFilter args s.pipe.wire.childAddresses
      (toSyncLog raw (full d.light.hash).header) = true ↔
        MatchedOn args full base (survivingChain s.pipe.consumed) d.light raw :=
    fun _ => logMatches_iff linked older inv.map (linked.anchor_lt inChain) (inv.headers _ inChain)
  have same := fun x low => inv.mem_received_iff coherent mem (x := x) low
  unfold keptLogs
  rw [List.mem_filter]
  constructor
  · rintro ⟨given, matched⟩
    obtain ⟨raw, inBlock, rfl⟩ := (inv.rows d mem).logs log given
    exact ⟨raw, inBlock, rfl, (MatchedOn.congr same).1 ((keeps raw).1 matched)⟩
  · rintro ⟨raw, inBlock, rfl, isMatched⟩
    have matched := (MatchedOn.congr same).2 isMatched
    exact ⟨(inv.rows d mem).matched raw inBlock matched, (keeps raw).2 matched⟩

end Kept

/-- Over every run of deliveries, reorgs, redeliveries and reopened connections: the blocks that
ponder has stand in a chain from the startup block, and of each it keeps exactly the logs that are
matched on the branch of these blocks. -/
theorem received_exact {K : Light → Prop} (full : Hash → HotBatch) (eventArgs : EventArgs)
    (args : WireArgs F) (base : Children F Address) (startup : Light) (now : Int)
    (coherent : Coherent K) (known : K startup) (start : args.startupFinalized = startup.number)
    (older : ∀ f child created, (base f).get? child = some created → created ≤ startup.number)
    {s : Link F} (reached : Machine.Reach (Link.step eventArgs args) (Feeds K full args)
      (.start args base startup now) s) :
    Linked startup (receivedBlocks s.pipe.forwarded) ∧
      ∀ d ∈ receivedDeliveries s.pipe.forwarded, ∀ log,
        log ∈ keptLogs args s.pipe.wire.childAddresses d ↔
          ∃ raw ∈ (full d.light.hash).logs, toSyncLog raw (full d.light.hash).header = log ∧
            MatchedOn args full base (receivedBlocks s.pipe.forwarded) d.light raw := by
  have inv := branchInv_of_reach coherent known start older reached
  exact ⟨inv.linked coherent, fun d mem log => inv.kept_iff coherent older mem log⟩

/-! Block 102 creates a child and is held back; the block that replaces it has a log of that
child, which the connection asked for. -/

def orphanedBlock : HotBatch :=
  ⟨⟨102, "0x102a", "0x101", 102, []⟩,
    [⟨"0xfac", some ["0x5e1", "0xc2"], none, none, none, none⟩], [], none, none⟩

def replacingBlock : HotBatch :=
  ⟨⟨102, "0x102b", "0x101", 102, []⟩, [childLog, ⟨"0xc2", some ["0xe7"], none, none, none, none⟩],
    [], none, none⟩

def forkedBlocks (hash : Hash) : HotBatch :=
  if hash = "0x101" then childBlock else if hash = "0x102a" then orphanedBlock else replacingBlock

def forkedLights : List Light :=
  [sampleAnchor, toLight childBlock.header, toLight orphanedBlock.header,
    toLight replacingBlock.header]

def forkedActions : List LinkAction :=
  secondDelivery ++
    [.consume, .deliver orphanedBlock { deliveredAt := 20, now := 20, finalizedHead := none },
      .consume, .open .on fun _ => 0,
      .deliver replacingBlock { deliveredAt := 30, now := 30, finalizedHead := none }, .consume,
      .consume]

def forkedEnd : Link String :=
  (Machine.replay (Link.step {} sampleArgs) (linkStart sampleArgs) forkedActions).get
    (by decide +kernel)

/-- The blocks of the run are those of the two branches. -/
def FromFork : LinkAction → Prop
  | .deliver block _ => toLight block.header ∈ forkedLights ∧ forkedBlocks block.header.hash = block
  | _ => True

instance : DecidablePred FromFork
  | .deliver _ _ => inferInstanceAs (Decidable (_ ∧ _))
  | .open _ _ | .tick _ | .consume => isTrue trivial

theorem forkedEnd_reached :
    Machine.Reach (Link.step {} sampleArgs) (Feeds (· ∈ forkedLights) forkedBlocks sampleArgs)
      (linkStart sampleArgs) forkedEnd := by
  have redelivers : Machine.AllAllowed (Link.step {} sampleArgs)
      (fun s _ => s.redelivers sampleArgs = true) (linkStart sampleArgs) forkedActions := by
    decide +kernel
  have reached := Machine.Reach.init.replay (redelivers.and (P := FromFork) (by decide +kernel))
    (Option.some_get (by decide +kernel)).symm
  refine reached.mono fun s a may => ?_
  cases a with
  | «open» checks bodySize => trivial
  | deliver block env => exact may.2
  | tick env => trivial
  | consume => exact steady_of_redelivers may.1 .consume

theorem received_exact_forked :
    (receivedDeliveries forkedEnd.pipe.forwarded).map (fun d => (d.light.hash,
        d.logs.map SyncLog.address,
        (keptLogs sampleArgs forkedEnd.pipe.wire.childAddresses d).map SyncLog.address)) =
      [("0x101", ["0xfac", "0xc1"], ["0xc1"]), ("0x102b", ["0xc1", "0xc2"], ["0xc1"])] ∧
    Linked sampleAnchor (receivedBlocks forkedEnd.pipe.forwarded) ∧
      ∀ d ∈ receivedDeliveries forkedEnd.pipe.forwarded, ∀ log,
        log ∈ keptLogs sampleArgs forkedEnd.pipe.wire.childAddresses d ↔
          ∃ raw ∈ (forkedBlocks d.light.hash).logs,
            toSyncLog raw (forkedBlocks d.light.hash).header = log ∧
              MatchedOn sampleArgs forkedBlocks (fun _ => OrdMap.empty)
                (receivedBlocks forkedEnd.pipe.forwarded) d.light raw := by
  refine ⟨by decide +kernel, received_exact forkedBlocks {} sampleArgs (fun _ => OrdMap.empty)
    sampleAnchor 0 (K := (· ∈ forkedLights)) ⟨by decide +kernel, by decide +kernel⟩
    List.mem_cons_self rfl ?_ forkedEnd_reached⟩
  intro f child created found
  cases found

end PortalPonder.Realtime
