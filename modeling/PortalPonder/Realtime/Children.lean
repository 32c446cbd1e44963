import PortalPonder.Realtime.Pipe

/-!
# The running child map

The wire folds the children of each block into a map that it never rebuilds: a reorg deletes what
was created above the common ancestor. `children_path_independent` says that the map is nevertheless
the one that the surviving chain alone would give: the base, and each further child at the first
surviving block that creates it.
-/

namespace PortalPonder.Realtime

open Historical (Children)

variable {F : Type} [DecidableEq F] {args : WireArgs F}

/-- The block creates the child. -/
def creates (args : WireArgs F) (factory : F) (child : Address) (d : Delivery) : Bool :=
  factory ∈ args.factories && d.logs.any fun log => childOf args factory log = some child

/-- The block in which a chain creates a child first. -/
def firstCreation (args : WireArgs F) (chain : List Delivery) (factory : F) (child : Address) :
    Option Int :=
  (chain.find? (creates args factory child)).map fun d => d.light.number

/-- Process a chain block by block, without any reorg. -/
def processChain (args : WireArgs F) (base : Children F Address) (chain : List Delivery) :
    Children F Address :=
  chain.foldl (fun known d =>
    (applyDiscovered (discoverChildAddresses args d.logs) known d.light.number).1) base

/-! ## One block -/

/-- A child is added at its block, unless it is known. -/
theorem addChild_get (bn : Int) (acc : Children F Address × Bool) (found : F × Address)
    (factory : F) (child : Address) :
    ((addChild bn acc found).1 factory).get? child =
      ((acc.1 factory).get? child).or (if (factory, child) = found then some bn else none) := by
  obtain ⟨f, c⟩ := found
  unfold addChild
  dsimp only
  cases present : (acc.1 f).get? c with
  | some created =>
      dsimp only
      by_cases here : (factory, child) = (f, c)
      · obtain ⟨rfl, rfl⟩ := Prod.mk.inj here
        simp [present]
      · simp [here]
  | none =>
      dsimp only
      by_cases sameFactory : factory = f
      · subst sameFactory
        rw [if_pos rfl]
        by_cases sameChild : child = c
        · subst sameChild
          simp [present]
        · rw [OrdMap.get?_set_of_ne _ bn sameChild]
          simp [sameChild]
      · rw [if_neg sameFactory]
        simp [sameFactory]

theorem foldl_addChild_get (bn : Int) (found : List (F × Address))
    (acc : Children F Address × Bool) (factory : F) (child : Address) :
    ((found.foldl (addChild bn) acc).1 factory).get? child =
      ((acc.1 factory).get? child).or (if (factory, child) ∈ found then some bn else none) := by
  induction found generalizing acc with
  | nil => simp
  | cons head rest ih =>
      rw [List.foldl_cons, ih, addChild_get, Option.or_assoc]
      congr 1
      by_cases here : (factory, child) = head
      · simp [here]
      · simp [here]

theorem mem_discovered {logs : List SyncLog} {factory : F} {child : Address} :
    (factory, child) ∈ (discoverChildAddresses args logs).flatMap
        (fun found => found.2.map fun child => (found.1, child)) ↔
      factory ∈ args.factories ∧ ∃ log ∈ logs, childOf args factory log = some child := by
  unfold discoverChildAddresses
  constructor
  · intro mem
    obtain ⟨found, inFound, mem⟩ := List.mem_flatMap.1 mem
    obtain ⟨c, inChildren, same⟩ := List.mem_map.1 mem
    obtain ⟨rfl, rfl⟩ := Prod.mk.inj same
    obtain ⟨f, isFactory, rfl⟩ := List.mem_map.1 (List.mem_filter.1 inFound).1
    exact ⟨isFactory, List.mem_filterMap.1 (List.mem_eraseDups.1 inChildren)⟩
  · rintro ⟨isFactory, inLogs⟩
    have inChildren : child ∈ (logs.filterMap (childOf args factory)).eraseDups :=
      List.mem_eraseDups.2 (List.mem_filterMap.2 inLogs)
    refine List.mem_flatMap.2 ⟨(factory, _), List.mem_filter.2 ⟨List.mem_map.2
      ⟨factory, isFactory, rfl⟩, ?_⟩, List.mem_map.2 ⟨child, inChildren, rfl⟩⟩
    simp [List.ne_nil_of_mem inChildren]

/-- A block adds the children it creates, and leaves those that are known. -/
theorem applyDiscovered_get (known : Children F Address) (d : Delivery) (factory : F)
    (child : Address) :
    ((applyDiscovered (discoverChildAddresses args d.logs) known d.light.number).1 factory).get?
        child =
      ((known factory).get? child).or
        (if creates args factory child d then some d.light.number else none) := by
  unfold applyDiscovered
  rw [foldl_addChild_get]
  congr 1
  have same : (factory, child) ∈ (discoverChildAddresses args d.logs).flatMap
      (fun found => found.2.map fun child => (found.1, child)) ↔
        creates args factory child d = true := by
    rw [mem_discovered]
    simp [creates]
  exact if_congr same rfl rfl

theorem firstCreation_snoc (chain : List Delivery) (d : Delivery) (factory : F) (child : Address) :
    firstCreation args (chain ++ [d]) factory child =
      (firstCreation args chain factory child).or
        (if creates args factory child d then some d.light.number else none) := by
  unfold firstCreation
  rw [List.find?_append]
  cases chain.find? (creates args factory child) with
  | some first => rfl
  | none =>
      by_cases here : creates args factory child d = true
      · simp [here]
      · simp [here]

/-- What processing a chain directly gives. -/
theorem processChain_get (base : Children F Address) (chain : List Delivery) (factory : F)
    (child : Address) :
    ((processChain args base chain) factory).get? child =
      ((base factory).get? child).or (firstCreation args chain factory child) := by
  induction chain using List.reverseRecOn with
  | nil => simp [processChain, firstCreation]
  | append_singleton chain d ih =>
      rw [processChain, List.foldl_append, List.foldl_cons, List.foldl_nil, applyDiscovered_get]
      rw [show chain.foldl _ base = processChain args base chain from rfl, ih, firstCreation_snoc,
        Option.or_assoc]

/-! ## A reorg -/

/-- On a rising chain, what lies above a height was created after what does not. -/
theorem find?_filter_below {chain : List Delivery} {p : Delivery → Bool} {height : Int}
    (rising : chain.Pairwise fun d d' => d.light.number ≤ d'.light.number) :
    (chain.filter fun d => ¬ height < d.light.number).find? p =
      (chain.find? p).filter fun d => ¬ height < d.light.number := by
  induction chain with
  | nil => rfl
  | cons d rest ih =>
      obtain ⟨low, tail⟩ := List.pairwise_cons.1 rising
      by_cases high : height < d.light.number
      · -- the rest is as high as the first block of it
        have none_ : rest.filter (fun d => ¬ height < d.light.number) = [] := by
          refine List.filter_eq_nil_iff.2 fun x mem => ?_
          have le := low x mem
          simp
          omega
        have gone : ∀ x, (d :: rest).find? p = some x → height < x.light.number := by
          intro x found
          rcases List.mem_cons.1 (List.mem_of_find?_eq_some found) with rfl | later
          · exact high
          · have le := low x later
            omega
        rw [List.filter_cons_of_neg (by simpa using high), none_]
        cases found : (d :: rest).find? p with
        | none => rfl
        | some x => simp [Option.filter_some, gone x found]
      · rw [List.filter_cons_of_pos (by simpa using high), List.find?_cons, List.find?_cons]
        cases p d with
        | true => simp [Option.filter_some, high]
        | false => exact ih tail

/-- What the wire does to its child map on an event that it does not refuse. -/
def childrenAfter (args : WireArgs F) (known : Children F Address) :
    PortalRealtimeEvent → Children F Address
  | .finalize _ => known
  | .reorg ancestor _ => fun f => (known f).filter fun _ created => ¬ ancestor.number < created
  | .block block logs .. =>
      (applyDiscovered (discoverChildAddresses args logs) known (hexToNumber block.number)).1

omit [DecidableEq F] in
theorem emitted_children (s : WireState F) (block : Light) :
    (emitted args s block).2.childAddresses = s.childAddresses := by
  unfold emitted
  split <;> rfl

omit [DecidableEq F] in
theorem released_children (s : WireState F) :
    (released args s).2.childAddresses = s.childAddresses := by
  unfold released
  split
  · rfl
  · exact emitted_children _ _

theorem prune_children (s : WireState F) (ancestor : Int) :
    (s.prune args ancestor).childAddresses =
      fun f => (s.childAddresses f).filter fun _ created => ¬ ancestor < created := by
  unfold WireState.prune
  dsimp only
  split <;> rfl

omit [DecidableEq F] in
theorem forget_children (s : WireState F) (reorgedBlocks : List Light) :
    (s.forget reorgedBlocks).childAddresses = s.childAddresses := by
  unfold WireState.forget
  split <;> rfl

theorem Handled.children {s s' : WireState F} {e : PortalRealtimeEvent}
    {outs : List (RealtimeSyncEvent F)} {stop : Option WireStop}
    (handled : Handled args s e outs s' stop) (taken : ¬ Lost stop) :
    s'.childAddresses = childrenAfter args s.childAddresses e := by
  cases handled with
  | held => rfl
  | finalized => exact emitted_children s _
  | reorged =>
      rw [prune_children, forget_children]
      rfl
  | lost => exact absurd trivial taken
  | suppressed => rfl
  | forwarded => exact released_children _

/-! ## A run -/

/-- The map is the base, and the first creations of the survivors. -/
def MapOf (args : WireArgs F) (base : Children F Address) (chain : List Delivery)
    (known : Children F Address) : Prop :=
  ∀ factory child, (known factory).get? child =
    ((base factory).get? child).or (firstCreation args chain factory child)

/-- One event keeps the map. -/
theorem MapOf.step {K : Light → Prop} (coherent : Coherent K) {base known : Children F Address}
    {log : EventLog} {chain : List Delivery} (survives : Survives K log chain)
    (older : ∀ factory child created, (base factory).get? child = some created →
      created ≤ log.anchor.number)
    (map : MapOf args base chain known) {e : PortalRealtimeEvent} (legal : log.Legal e) :
    MapOf args base (survive chain e) (childrenAfter args known e) := by
  intro factory child
  cases e with
  | block block logs transactions hasMatchedFilter batchId batchSize =>
      refine (applyDiscovered_get known ⟨ofBlock block, logs⟩ factory child).trans ?_
      rw [map factory child, Option.or_assoc]
      exact congrArg _ (firstCreation_snoc chain ⟨ofBlock block, logs⟩ factory child).symm
  | reorg ancestor reorgedBlocks =>
      have above := fun {d : Delivery} => survives.reorg_above coherent legal (d := d)
      have chainIs : survive chain (.reorg ancestor reorgedBlocks) =
          chain.filter fun d => ¬ ancestor.number < d.light.number := by
        refine List.filter_congr fun d mem => ?_
        rw [decide_eq_decide, above mem]
      obtain ⟨kept, splits, isTip, -, -, -⟩ := legal
      have anchorLow : log.anchor.number ≤ ancestor.number := by
        have linked := survives.linked
        rw [splits] at linked
        rw [isTip]
        exact (linked_append.1 linked).1.le_tip List.mem_cons_self
      have filtered : firstCreation args (survive chain (.reorg ancestor reorgedBlocks)) factory
          child = (firstCreation args chain factory child).filter
            fun created => ¬ ancestor.number < created := by
        unfold firstCreation
        rw [chainIs, find?_filter_below survives.rising]
        cases chain.find? (creates args factory child) with
        | none => rfl
        | some d =>
            simp [Option.filter_some, apply_ite]
      show ((known factory).filter fun _ created => ¬ ancestor.number < created).get? child = _
      rw [OrdMap.get?_filter, map factory child, filtered]
      cases inBase : (base factory).get? child with
      | none => rfl
      | some created =>
          have low := older factory child created inBase
          have stays : ¬ ancestor.number < created := by omega
          simp [Option.filter_some, stays]
  | finalize b => exact map factory child

/-- A chain without its redeliveries. -/
def oncePerBlock : List Delivery → List Delivery
  | [] => []
  | d :: rest => d :: (oncePerBlock rest).filter fun d' => d'.light.hash ≠ d.light.hash

theorem find?_filter_of_refused {α : Type} {items : List α} {keep p : α → Bool}
    (refused : ∀ a ∈ items, keep a = false → p a = false) :
    (items.filter keep).find? p = items.find? p := by
  induction items with
  | nil => rfl
  | cons a rest ih =>
      have tail := ih fun b mem => refused b (List.mem_cons_of_mem a mem)
      cases kept : keep a with
      | true => rw [List.filter_cons_of_pos kept, List.find?_cons, List.find?_cons, tail]
      | false =>
          rw [List.filter_cons_of_neg (by simp [kept]), tail, List.find?_cons,
            refused a List.mem_cons_self kept]

theorem find?_oncePerBlock {p : Delivery → Bool} {chain : List Delivery}
    (agree : ∀ d ∈ chain, ∀ d' ∈ chain, d.light.hash = d'.light.hash → p d = p d') :
    (oncePerBlock chain).find? p = chain.find? p := by
  have sub : ∀ chain : List Delivery, ∀ d ∈ oncePerBlock chain, d ∈ chain := by
    intro chain
    induction chain with
    | nil => exact fun _ mem => mem
    | cons d rest ih =>
        intro x mem
        rcases List.mem_cons.1 mem with rfl | later
        · exact List.mem_cons_self
        · exact List.mem_cons_of_mem d (ih x (List.mem_filter.1 later).1)
  induction chain with
  | nil => rfl
  | cons d rest ih =>
      have tail := ih fun x mem y mem' =>
        agree x (List.mem_cons_of_mem d mem) y (List.mem_cons_of_mem d mem')
      unfold oncePerBlock
      rw [List.find?_cons, List.find?_cons]
      cases here : p d with
      | true => rfl
      | false =>
          -- what the filter drops is this block again, which the test refuses as well
          refine (find?_filter_of_refused fun x mem again => ?_).trans tail
          have same : x.light.hash = d.light.hash := by simpa using again
          exact (agree x (List.mem_cons_of_mem d (sub rest x mem)) d List.mem_cons_self same).trans here

/-- Every event was taken by the wire; the last one may have completed it. -/
structure Consumed (args : WireArgs F) (base : Children F Address)
    (inputs : List (List (WildcardLogRequestKey Hex) × PortalRealtimeEvent))
    (s : WireState F) : Prop where
  state : ((getPortalRealtimeEventGenerator args inputs).run (.start args base)).state = s
  taken : ¬ Lost (Turn.stop ((getPortalRealtimeEventGenerator args inputs).run (.start args base)))
  before : Turn.stop ((getPortalRealtimeEventGenerator args inputs.dropLast).run
    (.start args base)) = none

theorem wirePass_children (args : WireArgs F) (s : WireState F)
    (input : List (WildcardLogRequestKey Hex) × PortalRealtimeEvent)
    (taken : ¬ Lost (Turn.stop ((wirePass args input).run s))) :
    ((wirePass args input).run s).state.childAddresses =
      childrenAfter args s.childAddresses input.2 := by
  have run : (wirePass args input).run s =
      (onEvent args input.2).run { s with wildcardLogKeys := input.1 } := by
    unfold wirePass
    simp only [Gen.run_bind, Gen.run_modify, List.nil_append]
  rw [run] at taken ⊢
  exact (onEvent_handled input.2).children taken

theorem passes_children (args : WireArgs F)
    (inputs : List (List (WildcardLogRequestKey Hex) × PortalRealtimeEvent)) (s : WireState F)
    (done : Turn.stop ((getPortalRealtimeEventGenerator args inputs).run s) = none) :
    ((getPortalRealtimeEventGenerator args inputs).run s).state.childAddresses =
      (inputs.map Prod.snd).foldl (childrenAfter args) s.childAddresses := by
  induction inputs generalizing s with
  | nil => rfl
  | cons input rest ih =>
      have first := wirePass_children args s input
      unfold getPortalRealtimeEventGenerator Gen.forEach at done ⊢
      rw [Gen.run_bind] at done ⊢
      cases turn : (wirePass args input).run s with
      | mk trace s' outcome =>
          rw [turn] at first done
          cases outcome with
          | error stop => cases done
          | ok _ =>
              have step : s'.childAddresses = childrenAfter args s.childAddresses input.2 :=
                first fun lost => lost
              rw [List.map_cons, List.foldl_cons, ← step]
              exact ih s' done

/-- The map after events that were all taken is the fold of the map over them. -/
theorem Consumed.children {base : Children F Address}
    {inputs : List (List (WildcardLogRequestKey Hex) × PortalRealtimeEvent)} {s : WireState F}
    (consumed : Consumed args base inputs s) :
    s.childAddresses = (inputs.map Prod.snd).foldl (childrenAfter args) base := by
  obtain ⟨rfl, taken, before⟩ := consumed
  rcases List.eq_nil_or_concat inputs with rfl | ⟨pre, last, rfl⟩
  · rfl
  · rw [List.concat_eq_append] at taken before ⊢
    rw [List.dropLast_concat] at before
    have earlier := passes_children args pre (.start args base) before
    cases turn : (getPortalRealtimeEventGenerator args pre).run (.start args base) with
    | mk trace s' outcome =>
        rw [turn] at before earlier
        cases outcome with
        | error stop => cases before
        | ok _ =>
            have whole := Gen.run_forEach_concat (i := last) turn
            unfold getPortalRealtimeEventGenerator at taken ⊢
            rw [whole] at taken ⊢
            replace earlier : s'.childAddresses = (pre.map Prod.snd).foldl (childrenAfter args) base :=
              earlier
            rw [List.map_append, List.foldl_append, ← earlier]
            exact wirePass_children args s' last taken

/-- The running child map is the base united with the first creations of the surviving chain. -/
structure PathIndependent (args : WireArgs F) (base : Children F Address) (chain : List Delivery)
    (known : Children F Address) : Prop where
  fold : ∀ factory child, (known factory).get? child =
    ((base factory).get? child).or (firstCreation args chain factory child)
  /-- processing the surviving deliveries directly gives the same map -/
  direct : ∀ factory child, (known factory).get? child =
    ((processChain args base chain) factory).get? child
  /-- and so does each surviving block once, if its deliveries create the same children -/
  once : (∀ factory child, ∀ d ∈ chain, ∀ d' ∈ chain, d.light.hash = d'.light.hash →
      creates args factory child d = creates args factory child d') →
    ∀ factory child, (known factory).get? child =
      ((processChain args base (oncePerBlock chain)) factory).get? child

theorem MapOf.pathIndependent {base known : Children F Address} {chain : List Delivery}
    (map : MapOf args base chain known) : PathIndependent args base chain known where
  fold := map
  direct := by
    intro factory child
    rw [map factory child, processChain_get]
  once := by
    intro agree factory child
    rw [map factory child, processChain_get]
    unfold firstCreation
    rw [find?_oncePerBlock (agree factory child)]

/-- No event lowers the anchor. -/
theorem EventLog.Legal.anchor_le {log : EventLog} {e : PortalRealtimeEvent} (legal : log.Legal e) :
    log.anchor.number ≤ (log.apply e).anchor.number := by
  cases e with
  | block block logs transactions hasMatchedFilter batchId batchSize =>
      simp only [EventLog.apply]
      split <;> exact Int.le_refl _
  | reorg ancestor reorgedBlocks =>
      simp only [EventLog.apply]
      split <;> exact Int.le_refl _
  | finalize b => exact Int.le_of_lt legal.2

/-- Along a legal run the folded map is the map of the survivors. -/
theorem mapOf_of_legalRun {K : Light → Prop} (coherent : Coherent K) {base : Children F Address}
    {anchor : Light} {events : List PortalRealtimeEvent}
    (legal : LegalRun ⟨[], anchor⟩ events) (known : ∀ b ∈ eventBlocks anchor events, K b)
    (startup : ∀ factory child created, (base factory).get? child = some created →
      created ≤ anchor.number) :
    MapOf args base (survivors events) (events.foldl (childrenAfter args) base) ∧
      anchor.number ≤ (events.foldl EventLog.apply ⟨[], anchor⟩).anchor.number := by
  induction events using List.reverseRecOn with
  | nil =>
      refine ⟨?_, Int.le_refl _⟩
      intro factory child
      simp [survivors, firstCreation]
  | append_singleton events e ih =>
      obtain ⟨before, last⟩ := legalRun_append.1 legal
      have earlier : ∀ b ∈ eventBlocks anchor events, K b :=
        fun b mem => known b (eventBlocks_append_left mem)
      obtain ⟨map, low⟩ := ih before earlier
      have survives := survives_of_legalRun coherent before earlier
      rw [survivors, List.foldl_append, List.foldl_append, List.foldl_append]
      refine ⟨map.step coherent survives ?_ last.1, Int.le_trans low last.1.anchor_le⟩
      exact fun factory child created inBase =>
        Int.le_trans (startup factory child created inBase) low

/-- For every sequence of blocks, redeliveries and reorgs that the producer can yield, the child
map of the wire is the one of the surviving chain. -/
theorem children_path_independent (args : WireArgs F) (base : Children F Address) (anchor : Light)
    (inputs : List (List (WildcardLogRequestKey Hex) × PortalRealtimeEvent)) (s : WireState F)
    (consumed : Consumed args base inputs s)
    (legal : LegalRun ⟨[], anchor⟩ (inputs.map Prod.snd))
    (coherent : Coherent (· ∈ eventBlocks anchor (inputs.map Prod.snd)))
    (startup : ∀ factory child created, (base factory).get? child = some created →
      created ≤ anchor.number) :
    PathIndependent args base (survivors (inputs.map Prod.snd)) s.childAddresses := by
  rw [consumed.children]
  exact (mapOf_of_legalRun coherent legal (fun _ mem => mem) startup).1.pathIndependent

/-! A child of an orphaned block, delivered twice, and one of the block that replaces it. -/

def sampleArgs : WireArgs String where
  logFilters := [⟨.factory "pool", some ["0xe7"], none, none, none, none, none⟩]
  blockFilters := []
  factoryOf _ := ⟨none, "0x5e1", none, none⟩
  getChildAddress _ log := log.topics[1]?
  startupFinalized := 100
  endBlock := none

def sampleHeader (number : Nat) (hash parentHash : Hash) : SyncBlockHeader :=
  toSyncBlockHeader ⟨number, hash, parentHash, number, []⟩

def creationOf (child : Address) (header : SyncBlockHeader) : SyncLog :=
  ⟨"0xfac", ["0x5e1", child], "0x", header.number, header.hash, none, "0x0", "0x0", false⟩

/-- A block with one creation log. -/
def creationBlock (number : Nat) (hash parentHash : Hash) (child : Address) :
    List (WildcardLogRequestKey Hex) × PortalRealtimeEvent :=
  let header := sampleHeader number hash parentHash
  ([], .block header [creationOf child header] [] true none none)

def sampleInputs : List (List (WildcardLogRequestKey Hex) × PortalRealtimeEvent) :=
  [creationBlock 101 "0x101a" "0x100" "0xc1", creationBlock 101 "0x101a" "0x100" "0xc1",
    ([], .reorg ⟨100, "0x100", "0x099", 0⟩ [⟨101, "0x101a", "0x100", 101⟩]),
    creationBlock 101 "0x101b" "0x100" "0xc2"]

def sampleEnd : WireState String :=
  ((getPortalRealtimeEventGenerator sampleArgs sampleInputs).run
    (.start sampleArgs fun _ => OrdMap.empty)).state

theorem children_path_independent_sample :
    PathIndependent sampleArgs (fun _ => OrdMap.empty) (survivors (sampleInputs.map Prod.snd))
        sampleEnd.childAddresses ∧
      (sampleEnd.childAddresses "pool").entries = [("0xc2", 101)] := by
  refine ⟨children_path_independent sampleArgs _ ⟨100, "0x100", "0x099", 0⟩ sampleInputs sampleEnd
    ⟨rfl, ?_, ?_⟩ ?_ ⟨?_, ?_⟩ ?_, ?_⟩
  · have runs : Turn.stop ((getPortalRealtimeEventGenerator sampleArgs sampleInputs).run
        (.start sampleArgs fun _ => OrdMap.empty)) = none := by
      decide +kernel
    rw [runs]
    exact fun lost => lost
  · decide +kernel
  · exact ⟨.inr ⟨by decide +kernel, by decide +kernel⟩, .inl (by decide +kernel),
      ⟨[], by decide +kernel, rfl, by decide, by decide +kernel, by decide⟩,
      .inr ⟨by decide +kernel, by decide +kernel⟩, trivial⟩
  · decide +kernel
  · decide +kernel
  · intro factory child created found
    cases found
  · decide +kernel

end PortalPonder.Realtime
