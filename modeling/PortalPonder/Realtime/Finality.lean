import PortalPonder.Realtime.EventLog
import Mathlib.Logic.Relation

/-!
# No finalization on the wrong fork

The consumer of this file keeps every block event that no reorg has rolled back, and the anchor.
Against a canonical chain, and with probes that carry the hash of a canonical block, a finalize
names a canonical block and everything kept at or below it is its ancestor. The window itself
may be on an orphaned fork at any time: the guard of the cadence compares hashes at the probed
height only, and the ancestors follow from the parent links of the window.
-/

namespace PortalPonder.Realtime

/-- `c` names `p` as its parent. -/
def ParentOf (p c : Light) : Prop := c.parentHash = p.hash

instance (p c : Light) : Decidable (ParentOf p c) :=
  inferInstanceAs (Decidable (c.parentHash = p.hash))

/-- A canonical chain `C`, relative to the known blocks `K`: a canonical hash determines its
block, the parent of a canonical block is canonical, and numbers grow along it. -/
structure Canonical (K C : Light → Prop) : Prop where
  hashDetermines : ∀ b, K b → ∀ c, C c → b.hash = c.hash → b = c
  parent : ∀ c, C c → ∀ b, K b → ParentOf b c → C b
  rises : ∀ c, C c → ∀ b, C b → ParentOf b c → b.number < c.number

/-- `b` is `c`, or one of the canonical blocks below it. -/
def Ancestor (C : Light → Prop) (b c : Light) : Prop :=
  C b ∧ Relation.ReflTransGen (fun p q => C q ∧ ParentOf p q) b c

/-- The probe carries a hash and names a canonical block. -/
def NamesCanonical (C : Light → Prop) (fh : FinalizedHead) : Prop :=
  ∃ c, C c ∧ fh.hash = some c.hash ∧ fh.number = c.number

/-- The blocks emitted and not rolled back, in order, and the anchor. -/
structure ForkLog where
  blocks : List Light
  anchor : Light

def ForkLog.apply (log : ForkLog) : PortalRealtimeEvent → ForkLog
  | .block block .. => { log with blocks := log.blocks ++ [ofBlock block] }
  | .reorg _ reorged =>
      { log with blocks := log.blocks.filter fun b => b.hash ∉ reorged.map Light.hash }
  | .finalize b => { log with anchor := b }

/-- A finalize names a canonical block above the anchor, and finalizes its ancestors only. -/
def ForkLog.Legal (C : Light → Prop) (log : ForkLog) : PortalRealtimeEvent → Prop
  | .finalize b =>
      C b ∧ log.anchor.number < b.number ∧
        ∀ x ∈ log.blocks, x.number ≤ b.number → Ancestor C x b
  | _ => True

def forkView (C : Light → Prop) : Gen.View PortalRealtimeEvent ForkLog where
  apply := ForkLog.apply
  Legal := ForkLog.Legal C

def SameAnchor (log : ForkLog) (s : EventState) : Prop := log.anchor = s.anchor

/-- The window is parent-linked from the anchor and rises; a kept block stands in it or is a
canonical ancestor of the anchor. -/
structure ForkInv (K C : Light → Prop) (log : ForkLog) (s : EventState) : Prop where
  anchor : log.anchor = s.anchor
  parentLinked : List.IsChain ParentOf (s.anchor :: s.unfinalized)
  rising : s.unfinalized.Pairwise fun a b => a.number < b.number
  known : ∀ b ∈ s.anchor :: s.unfinalized, K b
  kept : ∀ b ∈ log.blocks, b ∈ s.anchor :: s.unfinalized ∨ Ancestor C b s.anchor

section Chain

variable {K C : Light → Prop}

/-- Everything below a canonical block on a parent-linked list of known blocks is one of its
ancestors, at a lower height. -/
theorem ancestors_of_chain (canonical : Canonical K C) {tip : Light} (isCanonical : C tip)
    {below : List Light} (chain : List.IsChain ParentOf (below ++ [tip]))
    (known : ∀ b ∈ below, K b) : ∀ b ∈ below, Ancestor C b tip ∧ b.number < tip.number := by
  induction below with
  | nil => simp
  | cons first rest ih =>
      have tail := ih (List.IsChain.tail chain) fun b mem => known b (List.mem_cons_of_mem _ mem)
      -- the block after `first` is canonical: it is `tip` or one of the rest
      obtain ⟨next, link, nextCanonical, path, low⟩ : ∃ next, ParentOf first next ∧ C next ∧
          Relation.ReflTransGen (fun p q => C q ∧ ParentOf p q) next tip ∧
            next.number ≤ tip.number := by
        cases rest with
        | nil =>
            exact ⟨tip, (List.isChain_cons_cons.1 chain).1, isCanonical, .refl, Int.le_refl _⟩
        | cons second others =>
            obtain ⟨⟨canon, path⟩, lt⟩ := tail second List.mem_cons_self
            exact ⟨second, (List.isChain_cons_cons.1 chain).1, canon, path, Int.le_of_lt lt⟩
      have firstCanonical := canonical.parent next nextCanonical first
        (known first List.mem_cons_self) link
      have rise := canonical.rises next nextCanonical first firstCanonical link
      intro b mem
      rcases List.mem_cons.1 mem with here | there
      · subst here
        refine ⟨⟨firstCanonical, .head ⟨nextCanonical, link⟩ path⟩, ?_⟩
        omega
      · exact tail b there

theorem Ancestor.trans {a b c : Light} (ab : Ancestor C a b) (bc : Ancestor C b c) :
    Ancestor C a c := ⟨ab.1, ab.2.trans bc.2⟩

/-- Where a parent is always lower than its child, parent links make a linked window. -/
theorem linked_of_parentLinked
    (below : ∀ a, K a → ∀ b, K b → a.parentHash = b.hash → b.number < a.number)
    {anchor : Light} {window : List Light}
    (chain : List.IsChain ParentOf (anchor :: window)) (known : ∀ b ∈ anchor :: window, K b) :
    Linked anchor window := by
  induction window generalizing anchor with
  | nil => exact Linked.nil anchor
  | cons b rest ih =>
      obtain ⟨link, tail⟩ := List.isChain_cons_cons.1 chain
      have bKnown := known b (by simp)
      have anchorKnown := known anchor (by simp)
      exact linked_cons.2 ⟨⟨link, below b bKnown anchor anchorKnown link⟩,
        ih tail fun c mem => known c (List.mem_cons_of_mem _ mem)⟩

end Chain

/-! ## The producer keeps the invariant -/

section Producer

variable {K C : Light → Prop} {args : EventArgs} {env : Env}

/-- With the checks off, nothing but the chain data itself keeps the window rising. -/
def Ordered (args : EventArgs) (K : Light → Prop) : Prop :=
  args.checks = .off → ∀ a, K a → ∀ b, K b → a.parentHash = b.hash → b.number < a.number

theorem fork_clockFree : ClockFree (ForkInv K C) SameAnchor where
  frame := by
    rintro log s s' ⟨anchor, parentLinked, rising, known, kept⟩ window sAnchor
    exact ⟨by rw [sAnchor, anchor], by rw [sAnchor, window]; exact parentLinked,
      by rw [window]; exact rising, by rw [sAnchor, window]; exact known,
      by rw [sAnchor, window]; exact kept⟩
  throws := fun _ _ inv => inv.anchor

/-- Just before a yield: the event is legal, and the invariant holds once the log has it. -/
structure Ready (K C : Light → Prop) (e : PortalRealtimeEvent) (log : ForkLog)
    (s : EventState) : Prop where
  legal : log.Legal C e
  after : ForkInv K C (log.apply e) s

theorem fork_yield (e : PortalRealtimeEvent) :
    Gen.Spec (forkView C) SameAnchor (Ready K C e) (Gen.yield e : EventGen Unit)
      (fun _ => ForkInv K C) SameAnchor :=
  Gen.Spec.yield (fun _ _ ready => ready.legal) (fun _ _ ready => ready.after.anchor)
    fun _ _ ready => ready.after

theorem fork_commitFinalized (canonical : Canonical K C) {a : EventState} {fh : FinalizedHead}
    {tip : Light} (names : NamesCanonical C fh) (ok : Finalizable fh a.unfinalized tip) :
    Gen.Spec (forkView C) SameAnchor (At (ForkInv K C) a)
      (commitFinalized tip (takeFinalized a.unfinalized fh.number).remaining)
      (fun _ => ForkInv K C) SameAnchor := by
  refine Gen.Spec.bind (Q := fun _ => Ready K C (.finalize tip)) ?_ fun _ => fork_yield _
  refine Gen.Spec.modify ?_
  rintro log s ⟨inv, rfl⟩
  obtain ⟨c, cCanonical, hash, number⟩ := names
  obtain ⟨atHead, sameHash⟩ := ok.verified c.hash hash
  have tipKnown := inv.known tip (List.mem_cons_of_mem _ (takeFinalized_mem ok.found).1)
  have tipCanonical : C tip := by
    rw [canonical.hashDetermines tip tipKnown c cCanonical sameHash]
    exact cCanonical
  obtain ⟨pre, splits, -, above⟩ := takeFinalized_some inv.rising ok.found
  generalize (takeFinalized s.unfinalized fh.number).remaining = remaining at splits above ⊢
  have chain := inv.parentLinked
  have known := inv.known
  have rising := inv.rising
  rw [splits, List.append_cons, ← List.cons_append] at chain
  rw [splits] at known rising
  obtain ⟨belowChain, restChain, -⟩ := List.isChain_append.1 chain
  have ancestors := ancestors_of_chain canonical tipCanonical belowChain
    fun b mem => known b (by
      rw [← List.cons_append]
      exact List.mem_append_left _ mem)
  have self : Ancestor C tip tip := ⟨tipCanonical, .refl⟩
  have anchorBelow := ancestors s.anchor List.mem_cons_self
  -- a block of the old window is an ancestor of the tip, or stays in the window
  have sorts : ∀ b ∈ log.blocks, b ∈ remaining ∨ Ancestor C b tip := by
    intro b mem
    rcases inv.kept b mem with inWindow | old
    · rw [splits, ← List.cons_append] at inWindow
      rcases List.mem_append.1 inWindow with low | rest
      · exact .inr (ancestors b low).1
      rcases List.mem_cons.1 rest with here | high
      · exact .inr (here ▸ self)
      · exact .inl high
    · exact .inr (old.trans anchorBelow.1)
  refine ⟨⟨tipCanonical, ?_, ?_⟩, rfl, ?_, ?_, ?_, ?_⟩
  · rw [inv.anchor]
    exact anchorBelow.2
  · intro x mem low
    rcases sorts x mem with high | ancestor
    · have gt := above x high
      omega
    · exact ancestor
  · have suffix := inv.parentLinked
    rw [splits, ← List.cons_append] at suffix
    exact (List.isChain_append.1 suffix).2.1
  · exact (List.pairwise_cons.1 (List.pairwise_append.1 rising).2.1).2
  · exact fun b mem => known b (List.mem_cons_of_mem _ (List.mem_append_right _ mem))
  · intro b mem
    rcases sorts b mem with high | ancestor
    · exact .inl (List.mem_cons_of_mem _ high)
    · exact .inr ancestor

theorem fork_cadence (canonical : Canonical K C)
    (names : ∀ fh, env.finalizedHead = some fh → NamesCanonical C fh) :
    Gen.Spec (forkView C) SameAnchor (ForkInv K C) (runFinalizeCadence args env)
      (fun _ => ForkInv K C) SameAnchor :=
  spec_runFinalizeCadence fork_clockFree
    fun fh _ _ probed ok => fork_commitFinalized canonical (names fh probed) ok

/-! ### Delivery -/

/-- Before the append of a delivered block: it hangs off the tip, or the INV-10 tripwire is
about to fire. -/
inductive ForkAppending (args : EventArgs) (K C : Light → Prop) (light : Light) (log : ForkLog)
    (s : EventState) : Prop
  | links : ForkInv K C log s → light.parentHash = (tipOf s.anchor s.unfinalized).hash →
      ForkAppending args K C light log s
  | trips : log.anchor = s.anchor → args.checks ≠ .off →
      linkHolds s.unfinalized light = false → ForkAppending args K C light log s

theorem ForkAppending.anchor {light : Light} {log : ForkLog} {s : EventState}
    (app : ForkAppending args K C light log s) : log.anchor = s.anchor := by
  cases app with
  | links inv _ => exact inv.anchor
  | trips anchor _ _ => exact anchor

theorem apply_fork_blockEvent (args : EventArgs) (log : ForkLog) (batch : HotBatch) :
    log.apply (blockEvent args batch) =
      { log with blocks := log.blocks ++ [toLight batch.header] } := by
  simp only [blockEvent, ForkLog.apply, ofBlock_toSyncBlockHeader]

/-- Emitting a block that stands in the window or is the anchor. -/
theorem ForkInv.emit {log : ForkLog} {s : EventState} {batch : HotBatch} (inv : ForkInv K C log s)
    (mem : toLight batch.header ∈ s.anchor :: s.unfinalized) :
    Ready K C (blockEvent args batch) log s := by
  refine ⟨trivial, ?_⟩
  rw [apply_fork_blockEvent]
  refine ⟨inv.anchor, inv.parentLinked, inv.rising, inv.known, ?_⟩
  intro b inBlocks
  rcases List.mem_append.1 inBlocks with old | new
  · exact inv.kept b old
  · rw [List.mem_singleton.1 new]
    exact .inl mem

theorem fork_emitBlock (batch : HotBatch) :
    Gen.Spec (forkView C) SameAnchor (Ready K C (blockEvent args batch))
      (emitBlock args env batch) (fun _ => ForkInv K C) SameAnchor := by
  refine Gen.Spec.bind (Q := fun _ => Ready K C (blockEvent args batch)) ?_ fun _ => fork_yield _
  exact Gen.Spec.modify fun _ _ ready => ⟨ready.legal, fork_clockFree.frame ready.after rfl rfl⟩

/-- A passed check, or ordered chain data, puts the new block above the window. -/
theorem rising_push (ordered : Ordered args K) {s : EventState} {light : Light}
    (passed : invariant args.checks "INV-10" (linkHolds s.unfinalized light)
      "unfinalized chain link broken on append" = .ok ())
    (rising : s.unfinalized.Pairwise fun a b => a.number < b.number)
    (known : ∀ b ∈ s.anchor :: s.unfinalized, K b) (lightKnown : K light)
    (parent : light.parentHash = (tipOf s.anchor s.unfinalized).hash) :
    (s.unfinalized ++ [light]).Pairwise fun a b => a.number < b.number := by
  rw [List.pairwise_append]
  refine ⟨rising, List.pairwise_singleton _ _, ?_⟩
  intro b mem c isLight
  rw [List.mem_singleton.1 isLight]
  rcases List.eq_nil_or_concat s.unfinalized with none | ⟨pre, tip, splits⟩
  · simp [none] at mem
  rw [List.concat_eq_append] at splits
  have tipIs : tipOf s.anchor s.unfinalized = tip := by rw [splits, tipOf_append_singleton]
  have aboveTip : tip.number < light.number := by
    by_cases off : args.checks = .off
    · have tipKnown := known tip (tipIs ▸ tipOf_mem s.anchor s.unfinalized)
      exact ordered off light lightKnown tip tipKnown (tipIs ▸ parent)
    · have holds := holds_of_invariant off passed
      unfold linkHolds at holds
      rw [splits, List.getLast?_concat] at holds
      exact (of_decide_eq_true holds).2
  rw [splits] at rising mem
  rcases List.mem_append.1 mem with low | atTip
  · have belowTip := (List.pairwise_append.1 rising).2.2 b low tip List.mem_cons_self
    omega
  · rw [List.mem_singleton.1 atTip]
    exact aboveTip

theorem fork_appendBlock (ordered : Ordered args K) (batch : HotBatch)
    (lightKnown : K (toLight batch.header)) :
    Gen.Spec (forkView C) SameAnchor (ForkAppending args K C (toLight batch.header))
      (appendBlock args (toLight batch.header))
      (fun _ => Ready K C (blockEvent args batch)) SameAnchor := by
  refine Gen.Spec.get_bind fun a => ?_
  cases passed : invariant args.checks "INV-10" (linkHolds a.unfinalized (toLight batch.header))
      "unfinalized chain link broken on append" with
  | error v => exact Gen.Spec.throw fun _ _ app => app.1.anchor
  | ok _ =>
      refine Gen.Spec.modify ?_
      rintro log s ⟨app, rfl⟩
      cases app with
      | trips _ enabled broken =>
          have holds := holds_of_invariant enabled passed
          rw [broken] at holds
          cases holds
      | links inv parent =>
          refine ForkInv.emit ?_ (by simp)
          refine ⟨inv.anchor, ?_, ?_, ?_, ?_⟩
          · simp only
            rw [← List.cons_append, List.isChain_append]
            refine ⟨inv.parentLinked, List.isChain_singleton _, ?_⟩
            intro x last y head
            have isTip : tipOf s.anchor s.unfinalized = x := by
              rw [List.getLast?_cons] at last
              exact Option.some.inj last
            simp only [List.head?_cons, Option.mem_some_iff] at head
            rw [← head, ← isTip]
            exact parent
          · exact rising_push ordered passed inv.rising inv.known lightKnown parent
          · intro b mem
            rw [← List.cons_append] at mem
            rcases List.mem_append.1 mem with old | new
            · exact inv.known b old
            · rw [List.mem_singleton.1 new]
              exact lightKnown
          · intro b mem
            rcases inv.kept b mem with inWindow | old
            · refine .inl ?_
              rw [← List.cons_append]
              exact List.mem_append_left _ inWindow
            · exact .inr old

/-- A fork off the anchor pops the whole window, unless a window block is not above the anchor;
then the tripwire fires on the next append. -/
theorem trimmed_at_anchor (ordered : Ordered args K) {s : EventState} {light : Light}
    (chain : List.IsChain ParentOf (s.anchor :: s.unfinalized))
    (known : ∀ b ∈ s.anchor :: s.unfinalized, K b)
    (noParent : ∀ b ∈ s.unfinalized, light.parentHash ≠ b.hash) :
    trimAbove s.anchor.number s.unfinalized = [] ∨
      args.checks ≠ .off ∧
        linkHolds (trimAbove s.anchor.number s.unfinalized) light = false := by
  by_cases off : args.checks = .off
  · have linked := linked_of_parentLinked (ordered off) chain known
    have above : ∀ b ∈ s.unfinalized, s.anchor.number < b.number := fun _ mem =>
      linked.anchor_lt mem
    exact .inl (@trimAbove_append _ [] _ above nofun)
  · rcases List.eq_nil_or_concat (trimAbove s.anchor.number s.unfinalized) with
      none | ⟨pre, tip, splits⟩
    · exact .inl none
    · have inWindow : tip ∈ s.unfinalized := 
        trimAbove_subset (n := s.anchor.number) tip (by simp [splits])
      refine .inr ⟨off, ?_⟩
      rw [List.concat_eq_append] at splits
      unfold linkHolds
      rw [splits, List.getLast?_concat]
      exact decide_eq_false fun both => noParent tip inWindow both.1

/-- Rolling back the reorged blocks keeps what hangs off the kept part. -/
theorem ForkInv.rollback {log : ForkLog} {s s' : EventState} {ancestor : Light}
    {kept reorged : List Light} (inv : ForkInv K C log s) (splits : s.unfinalized = kept ++ reorged)
    (anchor : s'.anchor = s.anchor) (window : s'.unfinalized = kept) :
    ForkInv K C (log.apply (.reorg ancestor reorged)) s' := by
  have chain := inv.parentLinked
  have rising := inv.rising
  have known := inv.known
  rw [splits] at rising
  rw [splits, ← List.cons_append] at chain known
  refine ⟨inv.anchor.trans anchor.symm, ?_, ?_, ?_, ?_⟩
  · rw [anchor, window]
    exact (List.isChain_append.1 chain).1
  · rw [window]
    exact (List.pairwise_append.1 rising).1
  · rw [anchor, window]
    exact fun b mem => known b (List.mem_append_left _ mem)
  · intro b mem
    obtain ⟨inBlocks, survives⟩ := List.mem_filter.1 mem
    rw [anchor, window]
    rcases inv.kept b inBlocks with inWindow | old
    · rw [splits, ← List.cons_append] at inWindow
      rcases List.mem_append.1 inWindow with low | high
      · exact .inl low
      · have gone := of_decide_eq_true survives
        exact absurd (List.mem_map.2 ⟨b, high, rfl⟩) gone
    · exact .inr old

theorem fork_reorg (ordered : Ordered args K) {a : EventState} {light : Light}
    {kept reorged : List Light} (splits : a.unfinalized = kept ++ reorged)
    (parent : light.parentHash = (tipOf a.anchor kept).hash)
    (noParent : kept = [] → ∀ b ∈ a.unfinalized, light.parentHash ≠ b.hash) :
    Gen.Spec (forkView C) SameAnchor (At (ForkInv K C) a)
      (surfaceReorg (tipOf a.anchor kept) reorged)
      (fun _ => ForkAppending args K C light) SameAnchor := by
  refine Gen.Spec.bind (Q := fun _ log s =>
    ForkAppending args K C light (log.apply (.reorg (tipOf a.anchor kept) reorged)) s) ?_
    fun _ => ?_
  · refine Gen.Spec.modify ?_
    rintro log s ⟨inv, rfl⟩
    rcases List.eq_nil_or_concat kept with rfl | ⟨pre, x, rfl⟩
    · rcases trimmed_at_anchor ordered inv.parentLinked inv.known (noParent rfl) with
        all | ⟨enabled, broken⟩
      · refine .links (inv.rollback splits rfl all) ?_
        simp only [tipOf_nil] at parent ⊢
        rw [all]
        exact parent
      · exact .trips inv.anchor enabled broken
    · rw [List.concat_eq_append] at splits parent ⊢
      rw [tipOf_append_singleton] at parent ⊢
      have rising := inv.rising
      rw [splits, List.append_assoc] at rising
      have above := (List.pairwise_append.1 rising).2.1
      rw [List.singleton_append, List.pairwise_cons] at above
      have trimmed : trimAbove x.number s.unfinalized = pre ++ [x] := by
        rw [splits]
        exact trimAbove_append above.1 (by simp)
      refine .links (inv.rollback splits rfl trimmed) ?_
      simp only [trimmed, tipOf_append_singleton]
      exact parent
  · exact Gen.Spec.yield (fun _ _ _ => trivial) (fun _ _ app => app.anchor) fun _ _ app => app

theorem fork_deliver (unique : ∀ a, K a → ∀ b, K b → a.hash = b.hash → a = b)
    (canonical : Canonical K C) (ordered : Ordered args K)
    (names : ∀ fh, env.finalizedHead = some fh → NamesCanonical C fh) (batch : HotBatch)
    (lightKnown : K (toLight batch.header)) :
    Gen.Spec (forkView C) SameAnchor (ForkInv K C) (deliver args env batch)
      (fun _ => ForkInv K C) SameAnchor :=
  have rules : DeliverRules (forkView C) SameAnchor (ForkInv K C) SameAnchor args env batch
      (ForkAppending args K C (toLight batch.header)) (Ready K C (blockEvent args batch)) :=
    { free := fork_clockFree
      cadence := fork_cadence canonical names
      emit := fork_emitBlock batch
      append := fork_appendBlock ordered batch lightKnown
      redeliver := by
        intro log s inv dup
        refine inv.emit ?_
        have tipMem := tipOf_mem s.anchor s.unfinalized
        rw [unique _ lightKnown _ (inv.known _ tipMem) dup]
        exact tipMem
      extend := fun _ _ inv parent => .links inv parent
      reorg := fun _ _ _ splits _ parent noParent => fork_reorg ordered splits parent noParent }
  spec_deliver rules

end Producer

/-! ## Along a run -/

/-- The anchors a trace shows never go down. -/
theorem anchors_rise {C : Light → Prop} {log : ForkLog}
    {trace : List (PortalRealtimeEvent × EventState)}
    (lock : (forkView C).Lockstep SameAnchor log trace) :
    (log.anchor.number :: trace.map fun p => p.2.anchor.number).Pairwise (· ≤ ·) := by
  induction trace generalizing log with
  | nil => simp
  | cons head rest ih =>
      obtain ⟨e, s⟩ := head
      obtain ⟨legal, shown, tail⟩ := lock
      have later := ih tail
      have here : s.anchor = (log.apply e).anchor := Eq.symm shown
      have step : log.anchor.number ≤ (log.apply e).anchor.number := by
        cases e with
        | block => exact Int.le_refl _
        | reorg => exact Int.le_refl _
        | finalize b => exact Int.le_of_lt legal.2.1
      rw [List.map_cons, here]
      refine List.pairwise_cons.2 ⟨?_, later⟩
      intro n mem
      rcases List.mem_cons.1 mem with rfl | above
      · exact step
      · exact Int.le_trans step ((List.pairwise_cons.1 later).1 n above)

/-- What the run's events say about finality, given the canonical chain. -/
structure FinalizesCanonically (C : Light → Prop) (anchor : Light)
    (t : Turn EventState PortalRealtimeEvent RealtimeError Unit) : Prop where
  /-- a finalize names a canonical block, and every block emitted before it and not rolled back
  that lies at or below it is its ancestor -/
  finalizes : ∀ es b s fs, t.trace = es ++ (.finalize b, s) :: fs →
    C b ∧ ∀ x ∈ ((forkView C).fold ⟨[], anchor⟩ (es.map Prod.fst)).blocks,
      x.number ≤ b.number → Ancestor C x b
  /-- the anchor never moves to a lower block -/
  anchors : (anchor.number :: t.trace.map fun p => p.2.anchor.number).Pairwise (· ≤ ·)
  /-- and it moves with the finalize events only -/
  final : t.state.anchor = ((forkView C).fold ⟨[], anchor⟩ t.events).anchor

/-- With probes that carry the hash of a canonical block, no run finalizes the wrong fork. -/
theorem portalRealtimeEvents_finalizes_canonically (args : EventArgs) (anchor : Light) (now : Int)
    (inputs : List (HotItem × Env)) (C : Light → Prop)
    (unique : ∀ a ∈ seenBlocks anchor inputs, ∀ b ∈ seenBlocks anchor inputs,
      a.hash = b.hash → a = b)
    (canonical : Canonical (· ∈ seenBlocks anchor inputs) C)
    (ordered : Ordered args (· ∈ seenBlocks anchor inputs))
    (probes : ∀ input ∈ inputs, ∀ fh, input.2.finalizedHead = some fh → NamesCanonical C fh) :
    FinalizesCanonically C anchor
      ((portalRealtimeEvents args inputs).run (.start anchor now)) := by
  have spec : Gen.Spec (forkView C) SameAnchor (ForkInv (· ∈ seenBlocks anchor inputs) C)
      (portalRealtimeEvents args inputs)
      (fun _ => ForkInv (· ∈ seenBlocks anchor inputs) C) SameAnchor :=
    spec_portalRealtimeEvents inputs
      (fun env mem => fork_cadence canonical (probes (.tick, env) mem))
      fun batch env mem => fork_deliver unique canonical ordered
        (probes (.block batch, env) mem) batch (mem_seenBlocks mem)
  have start : ForkInv (· ∈ seenBlocks anchor inputs) C ⟨[], anchor⟩ (.start anchor now) := by
    refine ⟨rfl, List.isChain_singleton _, List.Pairwise.nil, ?_, by simp⟩
    intro b mem
    rw [List.mem_singleton.1 mem]
    exact List.mem_cons_self
  obtain ⟨lock, post⟩ := spec _ _ start
  refine ⟨?_, anchors_rise lock, ?_⟩
  · intro es b s fs split
    rw [split] at lock
    obtain ⟨⟨isCanonical, -, ancestors⟩, -⟩ := lock.at_yield
    exact ⟨isCanonical, ancestors⟩
  · cases outcome : ((portalRealtimeEvents args inputs).run (.start anchor now)).outcome with
    | ok _ =>
        rw [outcome] at post
        exact post.anchor.symm
    | error _ =>
        rw [outcome] at post
        exact Eq.symm post

/-- The sample run: probes name 101, which stays canonical while 102 forks. -/
theorem portalRealtimeEvents_finalizes_canonically_sample :
    FinalizesCanonically
        (· ∈ [sampleAnchor, ⟨101, "0x101", "0x100", 101⟩, ⟨102, "0x102b", "0x101", 102⟩])
        sampleAnchor ((portalRealtimeEvents {} sampleRun).run (.start sampleAnchor 0)) ∧
      finalizedNumbers ((portalRealtimeEvents {} sampleRun).run (.start sampleAnchor 0)).events =
        [101] := by
  refine ⟨portalRealtimeEvents_finalizes_canonically {} sampleAnchor 0 sampleRun _ (by decide)
    ⟨by decide, by decide, by decide⟩ (by intro off; cases off) ?_, by decide⟩
  intro input mem fh probed
  have head : fh = ⟨101, some "0x101"⟩ := by
    simp only [sampleRun, List.mem_cons, List.not_mem_nil, or_false] at mem
    rcases mem with rfl | rfl | rfl | rfl <;> exact (Option.some.inj probed).symm
  subst head
  exact ⟨⟨101, "0x101", "0x100", 101⟩, by decide, rfl, rfl⟩

end PortalPonder.Realtime
