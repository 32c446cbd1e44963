import PortalPonder.Realtime.Pipe

/-!
# The order of the wire

What ponder receives is compared with the surviving chain of the producer: the two agree but for
the block that is awaited. A finalize that reaches the awaited block is held, and follows it; no
other finalize waits. The invariant has three modes: nothing is awaited, a block is awaited, or a
block is awaited and its finalize is held.
-/

namespace PortalPonder.Realtime

variable {F : Type} [DecidableEq F]

/-- The surviving chain: each delivered block once, without those that were rolled back. -/
def surviving (chain : List Light) : PortalRealtimeEvent → List Light
  | .block block .. => if ofBlock block ∈ chain then chain else chain ++ [ofBlock block]
  | .reorg _ reorgedBlocks => chain.filter fun b => b.hash ∉ reorgedBlocks.map Light.hash
  | .finalize _ => chain

def survivingChain (events : List PortalRealtimeEvent) : List Light := events.foldl surviving []

/-- The blocks that ponder has and that were not rolled back. -/
def received (blocks : List Light) : RealtimeSyncEvent F → List Light
  | .block _ block _ _ _ => blocks ++ [ofBlock block]
  | .reorg _ reorgedBlocks => blocks.filter fun b => b.hash ∉ reorgedBlocks.map LightBlock.hash
  | .finalize _ => blocks

def receivedBlocks (outs : List (RealtimeSyncEvent F)) : List Light := outs.foldl received []

def receivedFinalizes (outs : List (RealtimeSyncEvent F)) : List LightBlock :=
  outs.filterMap fun out =>
    match out with
    | .finalize block => some block
    | _ => none

def consumedFinalizes (events : List PortalRealtimeEvent) : List Light :=
  events.filterMap fun e =>
    match e with
    | .finalize block => some block
    | _ => none

def finalizeNumbers (outs : List (RealtimeSyncEvent F)) : List Int :=
  (receivedFinalizes outs).map fun block => (hexToNumber block.number : Int)

/-! ## Finalizes -/

/-- The finalizes that ponder has received: they rise from the startup boundary up to the last
one, and each names a block that ponder has at that moment. -/
structure Finals (startup : Light) (outs : List (RealtimeSyncEvent F)) (last : Int) : Prop where
  startup_le : startup.number ≤ last
  rising : (startup.number :: finalizeNumbers outs).Pairwise (· < ·)
  below : ∀ n ∈ finalizeNumbers outs, n ≤ last
  grounded : ∀ pre block post, outs = pre ++ .finalize block :: post →
    ∃ b ∈ receivedBlocks pre, lightToLightBlock b = block

section Finals

variable {startup : Light} {outs : List (RealtimeSyncEvent F)} {last : Int}

omit [DecidableEq F] in
theorem lightToLightBlock_number {b : Light} (nonneg : 0 ≤ b.number) :
    (hexToNumber (lightToLightBlock b).number : Int) = b.number := by
  show (hexToNumber (numberToHex b.number.toNat) : Int) = b.number
  rw [hexToNumber_numberToHex]
  exact Int.toNat_of_nonneg nonneg

omit [DecidableEq F] in
/-- A new last event, in a list that splits at a finalize. -/
theorem split_snoc {pre post : List (RealtimeSyncEvent F)} {out : RealtimeSyncEvent F}
    {block : LightBlock} (splits : outs ++ [out] = pre ++ .finalize block :: post) :
    (∃ post', outs = pre ++ .finalize block :: post') ∨ pre = outs ∧ out = .finalize block := by
  rcases List.eq_nil_or_concat post with rfl | ⟨post', x, rfl⟩
  · obtain ⟨same, isLast⟩ := List.append_inj' splits rfl
    exact .inr ⟨same.symm, List.head_eq_of_cons_eq isLast⟩
  · rw [List.concat_eq_append, ← List.cons_append, ← List.append_assoc] at splits
    exact .inl ⟨post', (List.append_inj' splits rfl).1⟩

omit [DecidableEq F] in
theorem Finals.snoc_other (finals : Finals startup outs last) {out : RealtimeSyncEvent F}
    (other : ∀ block, out ≠ .finalize block) : Finals startup (outs ++ [out]) last := by
  have same : finalizeNumbers (outs ++ [out]) = finalizeNumbers outs := by
    unfold finalizeNumbers receivedFinalizes
    rw [List.filterMap_append]
    cases out with
    | finalize block => exact absurd rfl (other block)
    | block matched block logs transactions children => simp
    | reorg block reorgedBlocks => simp
  refine ⟨finals.startup_le, by rw [same]; exact finals.rising, by rw [same]; exact finals.below, ?_⟩
  intro pre block post splits
  rcases split_snoc splits with ⟨post', earlier⟩ | ⟨_, isFinalize⟩
  · exact finals.grounded pre block post' earlier
  · exact absurd isFinalize (other block)

omit [DecidableEq F] in
theorem Finals.snoc_finalize (finals : Finals startup outs last) {b : Light}
    (higher : last < b.number) (nonneg : 0 ≤ b.number) (has : b ∈ receivedBlocks outs) :
    Finals startup (outs ++ [.finalize (lightToLightBlock b)]) b.number := by
  have numbers : finalizeNumbers (outs ++ [.finalize (lightToLightBlock b)]) =
      finalizeNumbers outs ++ [b.number] := by
    unfold finalizeNumbers receivedFinalizes
    rw [List.filterMap_append, List.map_append]
    show _ ++ [(hexToNumber (lightToLightBlock b).number : Int)] = _
    rw [lightToLightBlock_number nonneg]
  have low := finals.startup_le
  refine ⟨by omega, ?_, ?_, ?_⟩
  · rw [numbers, ← List.cons_append]
    refine List.pairwise_append.2 ⟨finals.rising, List.pairwise_singleton _ _, ?_⟩
    intro n mem m last
    rw [List.mem_singleton.1 last]
    rcases List.mem_cons.1 mem with rfl | earlier
    · omega
    · have le := finals.below n earlier
      omega
  · intro n mem
    rw [numbers] at mem
    rcases List.mem_append.1 mem with earlier | last
    · have le := finals.below n earlier
      omega
    · rw [List.mem_singleton.1 last]
  · intro pre block post splits
    rcases split_snoc splits with ⟨post', earlier⟩ | ⟨rfl, isLast⟩
    · exact finals.grounded pre block post' earlier
    · exact ⟨b, has, RealtimeSyncEvent.finalize.inj isLast⟩

end Finals

/-! ## The surviving chain -/

/-- The surviving chain is linked from the startup block; the window of the log is its end. -/
structure Chained (K : Light → Prop) (startup : Light) (log : EventLog) (chain : List Light) :
    Prop where
  linked : Linked startup chain
  known : ∀ b ∈ startup :: chain, K b
  nonneg : ∀ b ∈ chain, 0 ≤ b.number
  window : ∃ pre, chain = pre ++ log.window ∧ log.anchor = tipOf startup pre

section Chained

variable {K : Light → Prop} {startup : Light} {log : EventLog} {chain : List Light}

theorem tipOf_append (anchor : Light) (pre suf : List Light) :
    tipOf anchor (pre ++ suf) = tipOf (tipOf anchor pre) suf := by
  induction pre generalizing anchor with
  | nil => rfl
  | cons b rest ih => rw [List.cons_append, tipOf_cons, tipOf_cons, ih]

theorem Chained.tip (chained : Chained K startup log chain) :
    tipOf log.anchor log.window = tipOf startup chain := by
  obtain ⟨pre, splits, anchor⟩ := chained.window
  rw [splits, tipOf_append, anchor]

theorem Chained.windowLinked (chained : Chained K startup log chain) :
    Linked log.anchor log.window := by
  obtain ⟨pre, splits, anchor⟩ := chained.window
  have linked := chained.linked
  rw [splits] at linked
  rw [anchor]
  exact (linked_append.1 linked).2

theorem Chained.windowKnown (chained : Chained K startup log chain) :
    ∀ b ∈ log.anchor :: log.window, K b := by
  obtain ⟨pre, splits, anchor⟩ := chained.window
  intro b mem
  refine chained.known b ?_
  rw [splits, ← List.cons_append]
  rcases List.mem_cons.1 mem with rfl | inWindow
  · rw [anchor]
    exact List.mem_append_left _ (tipOf_mem startup pre)
  · exact List.mem_append_right _ inWindow

theorem Chained.anchor_startup (chained : Chained K startup log chain) :
    startup.number ≤ log.anchor.number := by
  obtain ⟨pre, splits, anchor⟩ := chained.window
  have linked := chained.linked
  rw [splits] at linked
  rw [anchor]
  exact (linked_append.1 linked).1.le_tip List.mem_cons_self

theorem Chained.mem_of_window (chained : Chained K startup log chain) {b : Light}
    (mem : b ∈ log.window) : b ∈ chain := by
  obtain ⟨pre, splits, _⟩ := chained.window
  rw [splits]
  exact List.mem_append_right _ mem

/-- The hashes of the chain are distinct. -/
theorem Chained.distinct (coherent : Coherent K) (chained : Chained K startup log chain) :
    chain.Pairwise fun a b => a.hash ≠ b.hash :=
  (List.pairwise_cons.1 (hash_ne_of_linked coherent chained.linked chained.known)).2

/-- A new block goes to the end of the chain. -/
theorem Chained.push (coherent : Coherent K) (chained : Chained K startup log chain)
    {block : SyncBlockHeader} (known : K (ofBlock block))
    (ext : Extends (tipOf log.anchor log.window) (ofBlock block)) (logs : List SyncLog)
    (transactions : List SyncTransaction) (hasMatchedFilter : Bool)
    (batchId batchSize : Option Nat) :
    let e := .block block logs transactions hasMatchedFilter batchId batchSize
    surviving chain e = chain ++ [ofBlock block] ∧
      log.apply e = ⟨log.window ++ [ofBlock block], log.anchor⟩ ∧
      Chained K startup (log.apply e) (surviving chain e) := by
  intro e
  have rise := ext.2
  have fresh : ∀ b, b.number ≤ (tipOf log.anchor log.window).number → K b →
      (ofBlock block).hash ≠ b.hash := by
    intro b le bKnown same
    have eq := coherent.hashDetermines _ known b bKnown same
    rw [eq] at rise
    omega
  have new : ofBlock block ∉ chain := by
    intro mem
    have le := chained.linked.le_tip (List.mem_cons_of_mem _ mem)
    rw [← chained.tip] at le
    omega
  have survives : surviving chain e = chain ++ [ofBlock block] := if_neg new
  have folded : log.apply e = ⟨log.window ++ [ofBlock block], log.anchor⟩ := by
    refine if_neg (not_or.2 ⟨?_, ?_⟩)
    · exact fresh _ (Int.le_refl _) (chained.windowKnown _ (tipOf_mem _ _))
    · exact fresh _ (chained.windowLinked.le_tip List.mem_cons_self)
        (chained.windowKnown _ List.mem_cons_self)
  refine ⟨survives, folded, ?_⟩
  rw [survives, folded]
  refine ⟨?_, ?_, ?_, ?_⟩
  · rw [chained.tip] at ext
    exact chained.linked.push ext
  · intro b mem
    rw [← List.cons_append] at mem
    rcases List.mem_append.1 mem with old | last
    · exact chained.known b old
    · rw [List.mem_singleton.1 last]
      exact known
  · intro b mem
    rcases List.mem_append.1 mem with old | last
    · exact chained.nonneg b old
    · rw [List.mem_singleton.1 last]
      exact Int.natCast_nonneg _
  · obtain ⟨pre, splits, anchor⟩ := chained.window
    exact ⟨pre, by rw [splits, List.append_assoc], anchor⟩

/-- The tip again changes nothing. -/
theorem Chained.again (coherent : Coherent K) (chained : Chained K startup log chain)
    {block : SyncBlockHeader} (known : K (ofBlock block)) {x : Light} (inChain : x ∈ chain)
    (same : (ofBlock block).hash = x.hash)
    (isTip : (ofBlock block).hash = (tipOf log.anchor log.window).hash) (logs : List SyncLog)
    (transactions : List SyncTransaction) (hasMatchedFilter : Bool)
    (batchId batchSize : Option Nat) :
    let e := .block block logs transactions hasMatchedFilter batchId batchSize
    ofBlock block = x ∧ surviving chain e = chain ∧ log.apply e = log := by
  intro e
  have eq := coherent.hashDetermines _ known x
    (chained.known x (List.mem_cons_of_mem _ inChain)) same
  refine ⟨eq, ?_, if_pos (.inl isTip)⟩
  exact if_pos (by rw [eq]; exact inChain)

/-- A reorg cuts the chain above the common ancestor. -/
theorem Chained.cut (coherent : Coherent K) (chained : Chained K startup log chain)
    {ancestor : Light} {reorgedBlocks : List Light}
    (legal : log.Legal (.reorg ancestor reorgedBlocks)) :
    ∃ below, chain = below ++ reorgedBlocks ∧ reorgedBlocks ≠ [] ∧
      surviving chain (.reorg ancestor reorgedBlocks) = below ∧
      (log.apply (.reorg ancestor reorgedBlocks)).anchor = log.anchor ∧
      Chained K startup (log.apply (.reorg ancestor reorgedBlocks)) below := by
  obtain ⟨kept, windowSplits, isTip, nonempty, folded, -⟩ := legal
  obtain ⟨pre, splits, anchor⟩ := chained.window
  rw [windowSplits, ← List.append_assoc] at splits
  have anchorSame : (log.apply (.reorg ancestor reorgedBlocks)).anchor = log.anchor := by
    simp only [EventLog.apply]
    split <;> rfl
  have distinct := chained.distinct coherent
  rw [splits] at distinct
  have apart := (List.pairwise_append.1 distinct).2.2
  refine ⟨pre ++ kept, splits, nonempty, ?_, anchorSame, ?_, ?_, ?_, pre, ?_, ?_⟩
  · show chain.filter _ = _
    rw [splits, List.filter_append]
    have all : (pre ++ kept).filter (fun b => b.hash ∉ reorgedBlocks.map Light.hash) = pre ++ kept := by
      refine List.filter_eq_self.2 fun b mem => decide_eq_true ?_
      intro hash
      obtain ⟨r, inReorged, same⟩ := List.mem_map.1 hash
      exact apart b mem r inReorged same.symm
    have none_ : reorgedBlocks.filter (fun b => b.hash ∉ reorgedBlocks.map Light.hash) = [] := by
      refine List.filter_eq_nil_iff.2 fun b mem => ?_
      simpa using ⟨b, mem, rfl⟩
    rw [all, none_, List.append_nil]
  · have linked := chained.linked
    rw [splits] at linked
    exact (linked_append.1 linked).1
  · intro b mem
    refine chained.known b ?_
    rw [splits, ← List.cons_append]
    exact List.mem_append_left _ mem
  · intro b mem
    refine chained.nonneg b ?_
    rw [splits]
    exact List.mem_append_left _ mem
  · rw [folded]
  · rw [anchorSame]
    exact anchor

/-- A finalize moves the anchor along the chain. -/
theorem Chained.anchored (chained : Chained K startup log chain) {b : Light}
    (legal : log.Legal (.finalize b)) : b ∈ log.window ∧ b ∈ chain ∧
      Chained K startup (log.apply (.finalize b)) chain := by
  obtain ⟨⟨mid, windowSplits⟩, _⟩ := legal
  obtain ⟨pre, splits, anchor⟩ := chained.window
  have inWindow : b ∈ log.window := by
    rw [windowSplits]
    exact List.mem_append_right _ List.mem_cons_self
  refine ⟨inWindow, chained.mem_of_window inWindow, chained.linked, chained.known, chained.nonneg,
    pre ++ mid ++ [b], ?_, ?_⟩
  · rw [splits, windowSplits]
    simp
  · rw [tipOf_append_singleton]
    rfl

end Chained

/-! ## The three modes -/

/-- How the blocks that ponder has compare with the surviving chain. -/
inductive Mode (log : EventLog) (chain blocks : List Light) (w : WireState F) : Prop
  | /-- nothing is awaited -/
    even (free : w.awaiting = none) (held : w.heldFinalize = none) (same : chain = blocks)
      (last : w.lastFinalized = log.anchor.number)
  | /-- the newest block is awaited -/
    awaits (x : Light) (awaiting : w.awaiting = some ⟨x.hash, x.number⟩)
      (held : w.heldFinalize = none) (splits : chain = blocks ++ [x]) (inWindow : x ∈ log.window)
      (last : w.lastFinalized = log.anchor.number)
  | /-- the newest block is awaited, and it is final -/
    holds (x : Light) (awaiting : w.awaiting = some ⟨x.hash, x.number⟩)
      (held : w.heldFinalize = some x) (splits : chain = blocks ++ [x]) (window : log.window = [])
      (anchor : log.anchor = x) (last : w.lastFinalized < x.number)

/-- The invariant of the wire, over the events that it has taken and forwarded. -/
structure WireInv (K : Light → Prop) (args : WireArgs F) (startup : Light)
    (consumed : List PortalRealtimeEvent) (forwarded : List (RealtimeSyncEvent F))
    (w : WireState F) : Prop where
  chained : Chained K startup (consumed.foldl EventLog.apply ⟨[], startup⟩)
    (survivingChain consumed)
  mode : Mode (consumed.foldl EventLog.apply ⟨[], startup⟩) (survivingChain consumed)
    (receivedBlocks forwarded) w
  finals : Finals startup forwarded w.lastFinalized
  accounted : (consumedFinalizes consumed).map lightToLightBlock =
    receivedFinalizes forwarded ++ w.heldFinalize.toList.map lightToLightBlock

section Step

variable {K : Light → Prop} {args : WireArgs F} {startup : Light} {log : EventLog}
  {chain blocks : List Light} {w : WireState F}

omit [DecidableEq F] in
theorem receivedBlocks_snoc (outs : List (RealtimeSyncEvent F)) (out : RealtimeSyncEvent F) :
    receivedBlocks (outs ++ [out]) = received (receivedBlocks outs) out := by
  unfold receivedBlocks
  rw [List.foldl_append]
  rfl

omit [DecidableEq F] in
theorem receivedFinalizes_snoc (outs : List (RealtimeSyncEvent F)) (block : LightBlock) :
    receivedFinalizes (outs ++ [.finalize block]) = receivedFinalizes outs ++ [block] := by
  unfold receivedFinalizes
  rw [List.filterMap_append]
  rfl

omit [DecidableEq F] in
theorem receivedFinalizes_other (outs : List (RealtimeSyncEvent F)) {out : RealtimeSyncEvent F}
    (other : ∀ block, out ≠ .finalize block) :
    receivedFinalizes (outs ++ [out]) = receivedFinalizes outs := by
  unfold receivedFinalizes
  rw [List.filterMap_append]
  cases out with
  | finalize block => exact absurd rfl (other block)
  | block matched block logs transactions children => simp
  | reorg block reorgedBlocks => simp

theorem consumedFinalizes_snoc (events : List PortalRealtimeEvent) (e : PortalRealtimeEvent) :
    consumedFinalizes (events ++ [e]) =
      consumedFinalizes events ++ match e with
        | .finalize block => [block]
        | _ => [] := by
  unfold consumedFinalizes
  rw [List.filterMap_append]
  cases e <;> rfl

omit [DecidableEq F] in
/-- Below the boundary that is reached a finalize is not stale. -/
theorem not_stale (start : args.startupFinalized = startup.number) {b : Light}
    (above : startup.number < b.number) (higher : w.lastFinalized < b.number) :
    ¬ Stale args w b := by
  unfold Stale
  omega

variable {consumed : List PortalRealtimeEvent} {forwarded : List (RealtimeSyncEvent F)}

omit [DecidableEq F] in
/-- A finalize that is not stale goes out. -/
theorem emitted_fresh {b : Light} (fresh : ¬ Stale args w b) :
    emitted args w b =
      ([.finalize (lightToLightBlock b)], { w with lastFinalized := b.number }) :=
  if_neg fresh

theorem WireInv.finalize (start : args.startupFinalized = startup.number)
    (inv : WireInv K args startup consumed forwarded w) {b : Light} {w' : WireState F}
    {outs : List (RealtimeSyncEvent F)} {stop : Option WireStop}
    (legal : (consumed.foldl EventLog.apply ⟨[], startup⟩).Legal (.finalize b))
    (handled : Handled args w (.finalize b) outs w' stop) :
    WireInv K args startup (consumed ++ [.finalize b]) (forwarded ++ outs) w' := by
  obtain ⟨chained, mode, finals, accounted⟩ := inv
  obtain ⟨inWindow, inChain, chained'⟩ := chained.anchored legal
  have chainSame : survivingChain (consumed ++ [PortalRealtimeEvent.finalize b]) =
      survivingChain consumed := by
    unfold survivingChain
    rw [List.foldl_append]
    rfl
  have logIs : (consumed ++ [PortalRealtimeEvent.finalize b]).foldl EventLog.apply ⟨[], startup⟩ =
      (consumed.foldl EventLog.apply ⟨[], startup⟩).apply (.finalize b) := List.foldl_append
  have rises := legal.2
  have nonneg := chained.nonneg b inChain
  have fromStartup := chained.anchor_startup
  -- a finalize that goes out at once, of a block that ponder has
  have now : w.heldFinalize = none →
      w.lastFinalized = (consumed.foldl EventLog.apply ⟨[], startup⟩).anchor.number →
      b ∈ receivedBlocks forwarded →
      outs = [RealtimeSyncEvent.finalize (lightToLightBlock b)] → w' = { w with lastFinalized := b.number } →
      receivedBlocks (forwarded ++ outs) = receivedBlocks forwarded ∧
        Finals startup (forwarded ++ outs) w'.lastFinalized ∧
        (consumedFinalizes (consumed ++ [PortalRealtimeEvent.finalize b])).map lightToLightBlock =
          receivedFinalizes (forwarded ++ outs) ++ w'.heldFinalize.toList.map lightToLightBlock := by
    rintro held last has rfl rfl
    refine ⟨receivedBlocks_snoc _ _, finals.snoc_finalize (by omega) nonneg has, ?_⟩
    rw [consumedFinalizes_snoc, List.map_append, accounted, receivedFinalizes_snoc, held]
    simp
  cases handled with
  | @held block a awaits reaches =>
      cases mode with
      | even free => rw [free] at awaits; cases awaits
      | holds x awaiting isHeld splits window =>
          rw [window] at inWindow
          cases inWindow
      | awaits x awaiting isHeld splits xIn last =>
          -- the finalize reaches the awaited block, so it is its finalize
          obtain rfl : a = ⟨x.hash, x.number⟩ := Option.some.inj (awaits.symm.trans awaiting)
          have isTip : b = x := by
            rw [splits] at inChain
            rcases List.mem_append.1 inChain with older | isLast
            · have linked := chained.linked.pairwise
              rw [splits] at linked
              have below := (List.pairwise_append.1 (List.pairwise_cons.1 linked).2).2.2 b older x
                (List.mem_singleton.2 rfl)
              have reaches : x.number ≤ b.number := reaches
              omega
            · exact List.mem_singleton.1 isLast
          subst isTip
          have noneAbove : ((consumed.foldl EventLog.apply ⟨[], startup⟩).apply (.finalize b)).window
              = [] := by
            refine List.eq_nil_iff_forall_not_mem.2 fun y mem => ?_
            have above : b.number < y.number := chained'.windowLinked.anchor_lt mem
            have le := chained.linked.le_tip
              (List.mem_cons_of_mem _ (chained'.mem_of_window mem))
            rw [splits, tipOf_append_singleton] at le
            omega
          refine ⟨?_, ?_, ?_, ?_⟩
          · rw [chainSame, logIs]
            exact chained'
          · rw [chainSame, logIs, List.append_nil]
            refine .holds b awaiting ?_ splits noneAbove rfl ?_
            · simp [isHeld]
            · show w.lastFinalized < b.number
              omega
          · rw [List.append_nil]
            exact finals
          · rw [consumedFinalizes_snoc, List.map_append, accounted, List.append_nil]
            simp [isHeld]
  | finalized below =>
      have fresh : w.lastFinalized = (consumed.foldl EventLog.apply ⟨[], startup⟩).anchor.number →
          ¬ Stale args w b := fun last => not_stale start (by omega) (by omega)
      cases mode with
      | even free held same last =>
          have emits := emitted_fresh (fresh last)
          have has : b ∈ receivedBlocks forwarded := same ▸ inChain
          obtain ⟨blocks, finals', accounted'⟩ := now held last has
            (congrArg Prod.fst emits) (congrArg Prod.snd emits)
          refine ⟨?_, ?_, finals', accounted'⟩
          · rw [chainSame, logIs]
            exact chained'
          · rw [chainSame, logIs, blocks, emits]
            exact .even free held same rfl
      | awaits x awaiting held splits xIn last =>
          have emits := emitted_fresh (fresh last)
          have lower : b.number < x.number := below ⟨x.hash, x.number⟩ awaiting
          have has : b ∈ receivedBlocks forwarded := by
            rw [splits] at inChain
            rcases List.mem_append.1 inChain with older | isLast
            · exact older
            · rw [List.mem_singleton.1 isLast] at lower
              omega
          obtain ⟨blocks, finals', accounted'⟩ := now held last has
            (congrArg Prod.fst emits) (congrArg Prod.snd emits)
          refine ⟨?_, ?_, finals', accounted'⟩
          · rw [chainSame, logIs]
            exact chained'
          · rw [chainSame, logIs, blocks, emits]
            refine .awaits x awaiting held splits ?_ rfl
            obtain ⟨⟨mid, windowSplits⟩, _⟩ := legal
            have order := chained.windowLinked.pairwise
            rw [windowSplits] at xIn order
            rcases List.mem_append.1 xIn with inMid | here
            · have under := (List.pairwise_append.1 (List.pairwise_cons.1 order).2).2.2 x inMid b
                List.mem_cons_self
              omega
            · rcases List.mem_cons.1 here with rfl | later
              · omega
              · exact later
      | holds x awaiting held splits window =>
          rw [window] at inWindow
          cases inWindow

/-! ### Reorgs -/

@[simp] theorem prune_awaiting (ancestor : Int) :
    (w.prune args ancestor).awaiting = w.awaiting := by
  unfold WireState.prune
  dsimp only
  split <;> rfl

@[simp] theorem prune_heldFinalize (ancestor : Int) :
    (w.prune args ancestor).heldFinalize = w.heldFinalize := by
  unfold WireState.prune
  dsimp only
  split <;> rfl

@[simp] theorem prune_lastFinalized (ancestor : Int) :
    (w.prune args ancestor).lastFinalized = w.lastFinalized := by
  unfold WireState.prune
  dsimp only
  split <;> rfl

omit [DecidableEq F] in
@[simp] theorem forget_lastFinalized (reorgedBlocks : List Light) :
    (w.forget reorgedBlocks).lastFinalized = w.lastFinalized := by
  unfold WireState.forget
  split <;> rfl

omit [DecidableEq F] in
theorem received_reorg (blocks : List Light) (ancestor : Light) (reorgedBlocks : List Light) :
    received blocks (.reorg (lightToLightBlock ancestor) (reorgedBlocks.map lightToLightBlock) :
      RealtimeSyncEvent F) = surviving blocks (.reorg ancestor reorgedBlocks) := by
  unfold received surviving
  simp only [List.map_map]
  rfl

theorem WireInv.reorg (coherent : Coherent K) (inv : WireInv K args startup consumed forwarded w)
    {ancestor : Light} {reorgedBlocks : List Light} {w' : WireState F}
    {outs : List (RealtimeSyncEvent F)} {stop : Option WireStop}
    (legal : (consumed.foldl EventLog.apply ⟨[], startup⟩).Legal (.reorg ancestor reorgedBlocks))
    (handled : Handled args w (.reorg ancestor reorgedBlocks) outs w' stop) :
    WireInv K args startup (consumed ++ [.reorg ancestor reorgedBlocks]) (forwarded ++ outs) w' := by
  obtain ⟨chained, mode, finals, accounted⟩ := inv
  obtain ⟨below, cut, nonempty, survives, anchor, chained'⟩ := chained.cut coherent legal
  have chainIs : survivingChain (consumed ++ [PortalRealtimeEvent.reorg ancestor reorgedBlocks]) =
      below := by
    rw [← survives]
    unfold survivingChain
    rw [List.foldl_append]
    rfl
  have logIs : (consumed ++ [PortalRealtimeEvent.reorg ancestor reorgedBlocks]).foldl
      EventLog.apply ⟨[], startup⟩ =
      (consumed.foldl EventLog.apply ⟨[], startup⟩).apply (.reorg ancestor reorgedBlocks) :=
    List.foldl_append
  cases handled with
  | reorged =>
      have freed : w.heldFinalize = none →
          ((w.forget reorgedBlocks).prune args ancestor.number).heldFinalize = none := by
        intro held
        rw [prune_heldFinalize]
        unfold WireState.forget
        split
        · rfl
        · exact held
      have blocksAre : receivedBlocks (forwarded ++ [RealtimeSyncEvent.reorg
          (lightToLightBlock ancestor) (reorgedBlocks.map lightToLightBlock)]) =
          surviving (receivedBlocks forwarded) (.reorg ancestor reorgedBlocks) := by
        rw [receivedBlocks_snoc, received_reorg]
      have even : w.heldFinalize = none →
          w.lastFinalized = (consumed.foldl EventLog.apply ⟨[], startup⟩).anchor.number →
          (w.forget reorgedBlocks).awaiting = none →
          surviving (receivedBlocks forwarded) (.reorg ancestor reorgedBlocks) = below →
          WireInv K args startup (consumed ++ [.reorg ancestor reorgedBlocks])
            (forwarded ++ [.reorg (lightToLightBlock ancestor) (reorgedBlocks.map lightToLightBlock)])
            ((w.forget reorgedBlocks).prune args ancestor.number) := by
        intro held last free rolled
        refine ⟨?_, ?_, ?_, ?_⟩
        · rw [chainIs, logIs]
          exact chained'
        · rw [chainIs, logIs, blocksAre, rolled]
          refine .even ?_ (freed held) rfl ?_
          · rw [prune_awaiting, free]
          · rw [prune_lastFinalized, forget_lastFinalized, anchor, last]
        · rw [prune_lastFinalized, forget_lastFinalized]
          exact finals.snoc_other fun block => by intro same; cases same
        · rw [consumedFinalizes_snoc, List.append_nil, accounted, freed held, held]
          rw [receivedFinalizes_other _ fun block => by intro same; cases same]
      cases mode with
      | even free held same last =>
          refine even held last ?_ (by rw [← same]; exact survives)
          unfold WireState.forget
          rw [free]
          exact free
      | awaits x awaiting held splits xIn last =>
          -- the awaited block is the newest one, so it is among those that go
          have gone : x ∈ reorgedBlocks := by
            obtain ⟨front, y, rfl⟩ := (List.eq_nil_or_concat reorgedBlocks).resolve_left nonempty
            rw [splits, List.concat_eq_append, ← List.append_assoc] at cut
            rw [List.concat_eq_append, List.singleton_inj.1 (List.append_inj' cut rfl).2]
            exact List.mem_append_right _ (List.mem_singleton.2 rfl)
          refine even held last ?_ ?_
          · have hit : (w.awaiting.any fun a => reorgedBlocks.any fun b => b.hash = a.hash) = true := by
              rw [awaiting]
              exact List.any_eq_true.2 ⟨x, gone, decide_eq_true rfl⟩
            unfold WireState.forget
            rw [if_pos hit]
          · rw [← survives, splits]
            show (receivedBlocks forwarded).filter _ = (receivedBlocks forwarded ++ [x]).filter _
            rw [List.filter_append, List.filter_cons_of_neg, List.filter_nil, List.append_nil]
            simpa using ⟨x, gone, rfl⟩
      | holds x awaiting held splits window =>
          obtain ⟨kept, windowSplits, -, reorgedNonempty, -⟩ := legal
          rw [window] at windowSplits
          exact absurd (List.append_eq_nil_iff.1 windowSplits.symm).2 reorgedNonempty

/-! ### Blocks -/

@[simp] theorem sentBlock_received (blocks : List Light) (block : SyncBlockHeader)
    (logs : List SyncLog) (transactions : List SyncTransaction) (hasMatchedFilter : Bool) :
    received blocks (sentBlock args w block logs transactions hasMatchedFilter) =
      blocks ++ [ofBlock block] := rfl

/-- Events other than a finalize leave the finalizes alone. -/
theorem consumedFinalizes_other {e : PortalRealtimeEvent} (other : ¬ IsFinalize e) :
    consumedFinalizes (consumed ++ [e]) = consumedFinalizes consumed := by
  rw [consumedFinalizes_snoc]
  cases e with
  | finalize b => exact absurd trivial other
  | block block logs transactions hasMatchedFilter batchId batchSize => exact List.append_nil _
  | reorg ancestor reorgedBlocks => exact List.append_nil _

/-- The finalize that waited for a block goes out after it. -/
theorem released_held (start : args.startupFinalized = startup.number) {b : Light}
    (held : w.heldFinalize = some b) (above : startup.number < b.number)
    (higher : w.lastFinalized < b.number) (block : SyncBlockHeader) (logs : List SyncLog) :
    released args (w.discover args block logs) =
      ([.finalize (lightToLightBlock b)],
        { w.discover args block logs with
          heldFinalize := none
          lastFinalized := b.number }) := by
  have fresh : ¬ Stale args { w.discover args block logs with heldFinalize := none } b :=
    not_stale start above higher
  unfold released
  rw [show (w.discover args block logs).heldFinalize = some b from held]
  exact emitted_fresh fresh

/-- Ponder gets the newest block of the chain, and the finalize that waited for it. -/
theorem WireInv.forward (start : args.startupFinalized = startup.number)
    (inv : WireInv K args startup consumed forwarded w) {e : PortalRealtimeEvent}
    (other : ¬ IsFinalize e) {block : SyncBlockHeader} {logs : List SyncLog}
    {transactions : List SyncTransaction} {hasMatchedFilter : Bool}
    (chained' : Chained K startup ((consumed ++ [e]).foldl EventLog.apply ⟨[], startup⟩)
      (survivingChain (consumed ++ [e])))
    (newest : survivingChain (consumed ++ [e]) = receivedBlocks forwarded ++ [ofBlock block])
    (anchor : ((consumed ++ [e]).foldl EventLog.apply ⟨[], startup⟩).anchor =
      (consumed.foldl EventLog.apply ⟨[], startup⟩).anchor)
    (waits : ∀ held, w.heldFinalize = some held → held = ofBlock block ∧
      (consumed.foldl EventLog.apply ⟨[], startup⟩).anchor = ofBlock block ∧
      w.lastFinalized < (ofBlock block).number)
    (current : w.heldFinalize = none →
      w.lastFinalized = (consumed.foldl EventLog.apply ⟨[], startup⟩).anchor.number) :
    WireInv K args startup (consumed ++ [e])
      (forwarded ++ sentBlock args w block logs transactions hasMatchedFilter ::
        (released args (w.discover args block logs)).1)
      (released args (w.discover args block logs)).2 := by
  have nonneg : 0 ≤ (ofBlock block).number := Int.natCast_nonneg _
  have above : startup.number < (ofBlock block).number := by
    refine chained'.linked.anchor_lt ?_
    rw [newest]
    exact List.mem_append_right _ (List.mem_singleton.2 rfl)
  have isBlock : ∀ b, sentBlock args w block logs transactions hasMatchedFilter ≠ .finalize b := by
    intro b same
    cases same
  have sent := inv.finals.snoc_other isBlock
  have blocksAre : receivedBlocks (forwarded ++
      [sentBlock args w block logs transactions hasMatchedFilter]) =
        receivedBlocks forwarded ++ [ofBlock block] := receivedBlocks_snoc _ _
  have finalizesAre : receivedFinalizes (forwarded ++
      [sentBlock args w block logs transactions hasMatchedFilter]) = receivedFinalizes forwarded :=
    receivedFinalizes_other _ isBlock
  rw [show forwarded ++ sentBlock args w block logs transactions hasMatchedFilter ::
      (released args (w.discover args block logs)).1 =
    forwarded ++ [sentBlock args w block logs transactions hasMatchedFilter] ++
      (released args (w.discover args block logs)).1 from List.append_cons ..]
  cases held : w.heldFinalize with
  | none =>
      have nothing : released args (w.discover args block logs) =
          ([], w.discover args block logs) := by
        unfold released
        rw [show (w.discover args block logs).heldFinalize = none from held]
      rw [nothing, List.append_nil]
      refine ⟨chained', ?_, sent, ?_⟩
      · rw [newest, blocksAre]
        exact .even rfl held rfl ((current held).trans (congrArg Light.number anchor.symm))
      · rw [consumedFinalizes_other other, inv.accounted, finalizesAre]
        rfl
  | some b =>
      obtain ⟨rfl, anchored, higher⟩ := waits b held
      rw [released_held start held above higher]
      refine ⟨chained', ?_, ?_, ?_⟩
      · rw [newest, receivedBlocks_snoc, blocksAre]
        refine .even rfl rfl rfl ?_
        rw [anchor, anchored]
      · refine sent.snoc_finalize higher nonneg ?_
        rw [blocksAre]
        exact List.mem_append_right _ (List.mem_singleton.2 rfl)
      · rw [consumedFinalizes_other other, inv.accounted, receivedFinalizes_snoc, finalizesAre,
          held]
        simp

omit [DecidableEq F] in
/-- A block is held back: what ponder has is what it was. -/
theorem WireInv.suppress (inv : WireInv K args startup consumed forwarded w)
    {e : PortalRealtimeEvent} (other : ¬ IsFinalize e) {w' : WireState F}
    (chained' : Chained K startup ((consumed ++ [e]).foldl EventLog.apply ⟨[], startup⟩)
      (survivingChain (consumed ++ [e])))
    (mode' : Mode ((consumed ++ [e]).foldl EventLog.apply ⟨[], startup⟩)
      (survivingChain (consumed ++ [e])) (receivedBlocks forwarded) w')
    (last : w'.lastFinalized = w.lastFinalized) (held : w'.heldFinalize = w.heldFinalize) :
    WireInv K args startup (consumed ++ [e]) (forwarded ++ []) w' := by
  rw [List.append_nil]
  refine ⟨chained', mode', ?_, ?_⟩
  · rw [last]
    exact inv.finals
  · rw [consumedFinalizes_other other, inv.accounted, held]

omit [DecidableEq F] in
/-- The awaited block is the tip of the surviving chain, and its finalize is the only one that
waits. -/
theorem Mode.awaited (mode : Mode log chain blocks w) {a : Awaiting} (awaits : w.awaiting = some a) :
    ∃ x, a = ⟨x.hash, x.number⟩ ∧ chain = blocks ++ [x] ∧
      (∀ held, w.heldFinalize = some held →
        held = x ∧ log.anchor = x ∧ w.lastFinalized < x.number) ∧
      (w.heldFinalize = none → w.lastFinalized = log.anchor.number) := by
  cases mode with
  | even free => rw [free] at awaits; cases awaits
  | awaits x awaiting held splits inWindow last =>
      refine ⟨x, Option.some.inj (awaits.symm.trans awaiting), splits, ?_, fun _ => last⟩
      intro b isHeld
      rw [held] at isHeld
      cases isHeld
  | holds x awaiting held splits window anchor last =>
      refine ⟨x, Option.some.inj (awaits.symm.trans awaiting), splits, ?_, ?_⟩
      · intro b isHeld
        exact ⟨Option.some.inj (isHeld.symm.trans held), anchor, last⟩
      · intro none_
        rw [none_] at held
        cases held

omit [DecidableEq F] in
/-- The requests of the wire play no part. -/
theorem Mode.of_same (mode : Mode log chain blocks w) {w' : WireState F}
    (awaiting' : w'.awaiting = w.awaiting) (held' : w'.heldFinalize = w.heldFinalize)
    (last' : w'.lastFinalized = w.lastFinalized) : Mode log chain blocks w' := by
  cases mode with
  | even free held same last =>
      exact .even (awaiting'.trans free) (held'.trans held) same (last'.trans last)
  | awaits x awaiting held splits inWindow last =>
      exact .awaits x (awaiting'.trans awaiting) (held'.trans held) splits inWindow
        (last'.trans last)
  | holds x awaiting held splits window anchor last =>
      exact .holds x (awaiting'.trans awaiting) (held'.trans held) splits window anchor
        (last' ▸ last)

omit [DecidableEq F] in
theorem Mode.free (mode : Mode log chain blocks w) (free : w.awaiting = none) :
    w.heldFinalize = none ∧ chain = blocks ∧ w.lastFinalized = log.anchor.number := by
  cases mode with
  | even _ held same last => exact ⟨held, same, last⟩
  | awaits x awaiting => rw [free] at awaiting; cases awaiting
  | holds x awaiting => rw [free] at awaiting; cases awaiting

theorem survivingChain_snoc (events : List PortalRealtimeEvent) (e : PortalRealtimeEvent) :
    survivingChain (events ++ [e]) = surviving (survivingChain events) e := by
  unfold survivingChain
  rw [List.foldl_append]
  rfl

theorem foldLog_snoc (log : EventLog) (events : List PortalRealtimeEvent)
    (e : PortalRealtimeEvent) :
    (events ++ [e]).foldl EventLog.apply log = (events.foldl EventLog.apply log).apply e :=
  List.foldl_append

/-- A new block, while none is awaited. -/
theorem WireInv.newBlock (coherent : Coherent K) (start : args.startupFinalized = startup.number)
    (inv : WireInv K args startup consumed forwarded w) (free : w.awaiting = none)
    {block : SyncBlockHeader} {logs : List SyncLog} {transactions : List SyncTransaction}
    {hasMatchedFilter : Bool} {batchId batchSize : Option Nat} {w' : WireState F}
    {outs : List (RealtimeSyncEvent F)} {stop : Option WireStop} (known : K (ofBlock block))
    (new : Extends (tipOf (consumed.foldl EventLog.apply ⟨[], startup⟩).anchor
      (consumed.foldl EventLog.apply ⟨[], startup⟩).window) (ofBlock block))
    (handled : Handled args w (.block block logs transactions hasMatchedFilter batchId batchSize)
      outs w' stop) :
    WireInv K args startup (consumed ++ [.block block logs transactions hasMatchedFilter batchId
      batchSize]) (forwarded ++ outs) w' := by
  obtain ⟨held, same, last⟩ := inv.mode.free free
  obtain ⟨survives, folded, chained'⟩ := inv.chained.push coherent known new logs transactions
    hasMatchedFilter batchId batchSize
  rw [← survivingChain_snoc, ← foldLog_snoc] at chained'
  rw [← survivingChain_snoc, same] at survives
  rw [← foldLog_snoc] at folded
  cases handled with
  | lost awaits => rw [free] at awaits; cases awaits
  | suppressed =>
      refine inv.suppress id chained' (.awaits (ofBlock block) rfl held survives ?_ ?_) rfl rfl
      · rw [folded]
        exact List.mem_append_right _ (List.mem_singleton.2 rfl)
      · rw [folded]
        exact last
  | forwarded =>
      refine inv.forward start id chained' survives (by rw [folded]) ?_ fun _ => last
      intro b isHeld
      rw [held] at isHeld
      cases isHeld

/-- The awaited block once more. -/
theorem WireInv.redelivery (coherent : Coherent K) (start : args.startupFinalized = startup.number)
    (inv : WireInv K args startup consumed forwarded w) {a : Awaiting}
    (awaits : w.awaiting = some a) {block : SyncBlockHeader} (again : block.hash = a.hash)
    {logs : List SyncLog} {transactions : List SyncTransaction} {hasMatchedFilter : Bool}
    {batchId batchSize : Option Nat} {w' : WireState F} {outs : List (RealtimeSyncEvent F)}
    {stop : Option WireStop} (known : K (ofBlock block))
    (isTip : (ofBlock block).hash = (tipOf (consumed.foldl EventLog.apply ⟨[], startup⟩).anchor
      (consumed.foldl EventLog.apply ⟨[], startup⟩).window).hash)
    (handled : Handled args w (.block block logs transactions hasMatchedFilter batchId batchSize)
      outs w' stop) :
    WireInv K args startup (consumed ++ [.block block logs transactions hasMatchedFilter batchId
      batchSize]) (forwarded ++ outs) w' := by
  obtain ⟨x, rfl, splits, waits, current⟩ := inv.mode.awaited awaits
  have inChain : x ∈ survivingChain consumed := by
    rw [splits]
    exact List.mem_append_right _ (List.mem_singleton.2 rfl)
  obtain ⟨rfl, survives, folded⟩ := inv.chained.again coherent known inChain again isTip logs
    transactions hasMatchedFilter batchId batchSize
  rw [← survivingChain_snoc] at survives
  rw [← foldLog_snoc] at folded
  have chained' := inv.chained
  rw [← survives, ← folded] at chained'
  cases handled with
  | lost awaits' other =>
      obtain rfl := Option.some.inj (awaits'.symm.trans awaits)
      exact absurd again other
  | suppressed =>
      refine inv.suppress id chained' ?_ rfl rfl
      rw [survives, folded]
      exact inv.mode.of_same awaits.symm rfl rfl
  | forwarded =>
      exact inv.forward start id chained' (survives.trans splits) (congrArg EventLog.anchor folded)
        waits current

/-- One event that the producer offers, taken by the wire. -/
theorem WireInv.step (coherent : Coherent K) (start : args.startupFinalized = startup.number)
    (inv : WireInv K args startup consumed forwarded w) {e : PortalRealtimeEvent}
    {w' : WireState F} {outs : List (RealtimeSyncEvent F)} {stop : Option WireStop}
    (legal : (consumed.foldl EventLog.apply ⟨[], startup⟩).Legal e)
    (offered : FreshOrAwaited w.awaits (consumed.foldl EventLog.apply ⟨[], startup⟩) e)
    (known : Known K e) (handled : Handled args w e outs w' stop) (kept : ¬ Lost stop) :
    WireInv K args startup (consumed ++ [e]) (forwarded ++ outs) w' := by
  cases e with
  | finalize b => exact inv.finalize start legal handled
  | reorg ancestor reorgedBlocks => exact inv.reorg coherent legal handled
  | block block logs transactions hasMatchedFilter batchId batchSize =>
      have blockKnown : K (ofBlock block) := known
      rcases offered with new | ⟨isTip, awaited⟩
      · cases awaits : w.awaiting with
        | none => exact inv.newBlock coherent start awaits blockKnown new handled
        | some a =>
            -- another block than the awaited one is refused
            obtain ⟨x, rfl, splits, -⟩ := inv.mode.awaited awaits
            have isTip := inv.chained.tip
            rw [splits, tipOf_append_singleton] at isTip
            rw [isTip] at new
            have other : block.hash ≠ x.hash := by
              intro same
              have rise := new.2
              have xKnown : K x := by
                refine inv.chained.known x (List.mem_cons_of_mem _ ?_)
                rw [splits]
                exact List.mem_append_right _ (List.mem_singleton.2 rfl)
              rw [coherent.hashDetermines _ blockKnown x xKnown same] at rise
              omega
            cases handled with
            | lost => exact absurd trivial kept
            | suppressed same => exact absurd (same _ awaits) other
            | forwarded same => exact absurd (same _ awaits) other
      · obtain ⟨a, awaits, same⟩ := (Option.any_eq_true ..).1 awaited
        exact inv.redelivery coherent start awaits (of_decide_eq_true same).symm blockKnown isTip
          handled

end Step

end PortalPonder.Realtime
