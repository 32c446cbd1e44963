import PortalPonder.Realtime.EventRules

/-!
# The event log as a fold

Downstream sees the events and nothing else. `EventLog` is what it can rebuild from them: a
block event pushes, a reorg truncates to the common ancestor, a finalize drops the prefix up to
its block and makes it the anchor. This file runs that fold against the generator as a view:
every event is legal for the consumer, and at every yield the consumer holds exactly the
generator's window and anchor.
-/

namespace PortalPonder.Realtime

/-- What a consumer of the events holds. -/
structure EventLog where
  window : List Light
  anchor : Light
  deriving DecidableEq, Repr

/-- The window through the block with this hash. -/
def keepThrough (h : Hash) (window : List Light) : List Light :=
  window.take (window.findIdx (fun b => b.hash = h) + 1)

/-- The window after the block with this hash. -/
def dropThrough (h : Hash) (window : List Light) : List Light :=
  window.drop (window.findIdx (fun b => b.hash = h) + 1)

/-- Fold one event into the log. -/
def EventLog.apply (log : EventLog) : PortalRealtimeEvent → EventLog
  | .block block .. =>
      let b := ofBlock block
      if b.hash = (tipOf log.anchor log.window).hash ∨ b.hash = log.anchor.hash then log
      else { log with window := log.window ++ [b] }
  | .reorg ancestor _ =>
      if ancestor.hash = log.anchor.hash then { log with window := [] }
      else { log with window := keepThrough ancestor.hash log.window }
  | .finalize b => { window := dropThrough b.hash log.window, anchor := b }

/-- What the log promises about an event: a block is the tip or extends it, the reorged blocks
are exactly the part of the window above the common ancestor and lie above the anchor, a
finalized block is one of the window, lies above the anchor and leaves what is above it. -/
def EventLog.Legal (log : EventLog) : PortalRealtimeEvent → Prop
  | .block block .. =>
      (ofBlock block).hash = (tipOf log.anchor log.window).hash ∨
        Extends (tipOf log.anchor log.window) (ofBlock block)
  | .reorg ancestor reorged =>
      ∃ kept, log.window = kept ++ reorged ∧ ancestor = tipOf log.anchor kept ∧ reorged ≠ [] ∧
        (log.apply (.reorg ancestor reorged)).window = kept ∧
          ∀ b ∈ reorged, log.anchor.number < b.number
  | .finalize b =>
      (∃ pre, log.window = pre ++ b :: (log.apply (.finalize b)).window) ∧
        log.anchor.number < b.number

def eventView : Gen.View PortalRealtimeEvent EventLog where
  apply := EventLog.apply
  Legal := EventLog.Legal

/-- The generator's own copy of the log. -/
def EventState.log (s : EventState) : EventLog := ⟨s.unfinalized, s.anchor⟩

/-- The consumer holds the generator's copy. -/
def Agrees (log : EventLog) (s : EventState) : Prop := log = s.log

/-- The assumption on the chain data, over a set of blocks: a hash determines its block, and a
block's number is greater than its parent's. -/
structure Coherent (K : Light → Prop) : Prop where
  hashDetermines : ∀ a, K a → ∀ b, K b → a.hash = b.hash → a = b
  parentBelow : ∀ a, K a → ∀ b, K b → a.parentHash = b.hash → b.number < a.number

/-- The block of a delivered item. -/
def HotItem.light? : HotItem → Option Light
  | .block batch => some (toLight batch.header)
  | .tick => none

/-- The blocks a run has seen: the startup anchor and everything delivered. -/
def seenBlocks (anchor : Light) (inputs : List (HotItem × Env)) : List Light :=
  anchor :: inputs.filterMap fun input => input.1.light?

theorem mem_seenBlocks {anchor : Light} {inputs : List (HotItem × Env)} {batch : HotBatch}
    {env : Env} (mem : (HotItem.block batch, env) ∈ inputs) :
    toLight batch.header ∈ seenBlocks anchor inputs :=
  List.mem_cons_of_mem _ (List.mem_filterMap.2 ⟨_, mem, rfl⟩)

/-- The window invariant: the chain above the anchor is linked and consists of known blocks. -/
structure WindowInv (K : Light → Prop) (s : EventState) : Prop where
  linked : Linked s.anchor s.unfinalized
  known : ∀ b ∈ s.anchor :: s.unfinalized, K b

/-- The log and the variables agree, and the window invariant holds. -/
def Tracks (K : Light → Prop) (log : EventLog) (s : EventState) : Prop :=
  Agrees log s ∧ WindowInv K s

/-! ## The fold on a linked window -/

section Fold

variable {K : Light → Prop} {anchor x : Light} {pre suf : List Light}

/-- Coherent blocks of a linked chain have distinct hashes. -/
theorem hash_ne_of_linked (coherent : Coherent K) {window : List Light}
    (linked : Linked anchor window) (known : ∀ b ∈ anchor :: window, K b) :
    (anchor :: window).Pairwise fun a b => a.hash ≠ b.hash := by
  refine linked.pairwise.imp_of_mem ?_
  intro a b memA memB rise same
  have eq := coherent.hashDetermines a (known a memA) b (known b memB) same
  rw [eq] at rise
  exact absurd rise (Int.lt_irrefl _)

theorem findIdx_hash (distinct : (anchor :: (pre ++ x :: suf)).Pairwise fun a b => a.hash ≠ b.hash) :
    (pre ++ x :: suf).findIdx (fun b => b.hash = x.hash) = pre.length := by
  rw [List.findIdx_append]
  have miss : ∀ b ∈ pre, ¬ b.hash = x.hash := by
    intro b mem
    have apart := (List.pairwise_append.1 (List.pairwise_cons.1 distinct).2).2.2
    exact apart b mem x List.mem_cons_self
  have none : pre.findIdx (fun b => b.hash = x.hash) = pre.length :=
    List.findIdx_eq_length.2 (by simpa using miss)
  simp [none, List.findIdx_cons]

theorem keepThrough_of_distinct
    (distinct : (anchor :: (pre ++ x :: suf)).Pairwise fun a b => a.hash ≠ b.hash) :
    keepThrough x.hash (pre ++ x :: suf) = pre ++ [x] := by
  rw [keepThrough, findIdx_hash distinct, List.take_length_add_append]
  simp

theorem dropThrough_of_distinct
    (distinct : (anchor :: (pre ++ x :: suf)).Pairwise fun a b => a.hash ≠ b.hash) :
    dropThrough x.hash (pre ++ x :: suf) = suf := by
  rw [dropThrough, findIdx_hash distinct, List.drop_length_add_append]
  simp

/-- Truncating the log to the common ancestor leaves exactly the kept part. -/
theorem apply_reorg (coherent : Coherent K) {kept reorged : List Light}
    (linked : Linked anchor (kept ++ reorged)) (known : ∀ b ∈ anchor :: (kept ++ reorged), K b) :
    EventLog.apply ⟨kept ++ reorged, anchor⟩ (.reorg (tipOf anchor kept) reorged) =
      ⟨kept, anchor⟩ := by
  have distinct := hash_ne_of_linked coherent linked known
  rcases List.eq_nil_or_concat kept with rfl | ⟨pre, x, rfl⟩
  · simp [EventLog.apply]
  · rw [List.concat_eq_append, List.append_assoc] at distinct ⊢
    have above : ¬ x.hash = anchor.hash := by
      have fromAnchor := (List.pairwise_cons.1 distinct).1 x (by simp)
      exact fun same => fromAnchor same.symm
    simp only [EventLog.apply, tipOf_append_singleton, above, if_false]
    exact congrArg (EventLog.mk · anchor) (keepThrough_of_distinct distinct)

/-- Popping the blocks above the common ancestor leaves exactly the kept part. -/
theorem trimAbove_linked {kept reorged : List Light} (linked : Linked anchor (kept ++ reorged)) :
    trimAbove (tipOf anchor kept).number (kept ++ reorged) = kept := by
  refine trimAbove_append ?_ ?_
  · intro b mem
    exact (linked_append.1 linked).2.anchor_lt mem
  · intro x last
    simp [tipOf, last]

end Fold

/-! ## The generator against the log -/

section Generator

variable {K : Light → Prop} {args : EventArgs} {env : Env}

theorem tracks_clockFree : ClockFree (Tracks K) (Tracks K) where
  frame := by
    rintro log s s' ⟨rfl, linked, known⟩ window anchor
    refine ⟨?_, ?_, ?_⟩
    · simp [Agrees, EventState.log, window, anchor]
    · rw [window, anchor]
      exact linked
    · rw [window, anchor]
      exact known
  throws := fun _ _ h => h

/-- Between the assignment and the yield of a finalize: the log still holds the dropped prefix. -/
structure Finalizing (K : Light → Prop) (tip : Light) (remaining : List Light) (log : EventLog)
    (s : EventState) : Prop where
  splits : ∃ pre, log.window = pre ++ tip :: remaining
  linked : Linked log.anchor log.window
  known : ∀ b ∈ log.anchor :: log.window, K b
  window : s.unfinalized = remaining
  anchor : s.anchor = tip

theorem Finalizing.shown (coherent : Coherent K) {tip : Light} {remaining : List Light}
    {log : EventLog} {s : EventState} (mid : Finalizing K tip remaining log s) :
    log.apply (.finalize tip) = s.log := by
  obtain ⟨⟨pre, splits⟩, linked, known, window, anchor⟩ := mid
  have distinct := hash_ne_of_linked coherent linked known
  rw [splits] at distinct
  rw [EventState.log, EventLog.apply, splits, dropThrough_of_distinct distinct, window, anchor]

/-- Finalizing a block of the window: the log drops the same prefix. -/
theorem tracks_commitFinalized (coherent : Coherent K) {a : EventState} {fh : FinalizedHead}
    {tip : Light} (ok : Finalizable fh a.unfinalized tip) :
    Gen.Spec eventView Agrees (At (Tracks K) a)
      (commitFinalized tip (takeFinalized a.unfinalized fh.number).remaining)
      (fun _ => Tracks K) (Tracks K) := by
  refine Gen.Spec.bind
    (Q := fun _ => Finalizing K tip (takeFinalized a.unfinalized fh.number).remaining) ?_
    fun _ => ?_
  · refine Gen.Spec.modify ?_
    rintro log s ⟨⟨rfl, inv⟩, rfl⟩
    obtain ⟨pre, splits, -⟩ := takeFinalized_some inv.linked.rising ok.found
    exact ⟨⟨pre, splits⟩, inv.linked, inv.known, rfl, rfl⟩
  · refine Gen.Spec.yield ?_ (fun log s mid => mid.shown coherent) ?_
    · intro log s mid
      obtain ⟨pre, splits⟩ := mid.splits
      have mem : tip ∈ log.window := by simp [splits]
      refine ⟨⟨pre, ?_⟩, mid.linked.anchor_lt mem⟩
      rw [mid.shown coherent, splits, EventState.log, mid.window]
    · intro log s mid
      obtain ⟨pre, splits⟩ := mid.splits
      have linked := mid.linked
      have known := mid.known
      rw [splits] at linked known
      refine ⟨mid.shown coherent, ?_, ?_⟩
      · rw [mid.window, mid.anchor]
        exact (linked_cons.1 (linked_append.1 linked).2).2
      · rw [mid.window, mid.anchor]
        intro b mem
        exact known b (List.mem_cons_of_mem _ (List.mem_append_right _ mem))

theorem tracks_cadence (coherent : Coherent K) :
    Gen.Spec eventView Agrees (Tracks K) (runFinalizeCadence args env)
      (fun _ => Tracks K) (Tracks K) :=
  spec_runFinalizeCadence tracks_clockFree
    fun _ _ _ _ ok => tracks_commitFinalized coherent ok

/-! ### Delivery -/

theorem apply_blockEvent (args : EventArgs) (log : EventLog) (batch : HotBatch) :
    log.apply (blockEvent args batch) =
      if (toLight batch.header).hash = (tipOf log.anchor log.window).hash ∨
          (toLight batch.header).hash = log.anchor.hash then log
      else { log with window := log.window ++ [toLight batch.header] } := by
  simp only [blockEvent, EventLog.apply, ofBlock_toSyncBlockHeader]

theorem legal_blockEvent {args : EventArgs} {log : EventLog} {batch : HotBatch} :
    log.Legal (blockEvent args batch) ↔
      (toLight batch.header).hash = (tipOf log.anchor log.window).hash ∨
        Extends (tipOf log.anchor log.window) (toLight batch.header) := by
  simp only [blockEvent, EventLog.Legal, ofBlock_toSyncBlockHeader]

/-- Before the yield of a block: the variables already show what the event will tell the log. -/
structure Emitting (K : Light → Prop) (e : PortalRealtimeEvent) (log : EventLog)
    (s : EventState) : Prop where
  legal : log.Legal e
  shown : log.apply e = s.log
  inv : WindowInv K s

theorem tracks_emitBlock (batch : HotBatch) :
    Gen.Spec eventView Agrees (Emitting K (blockEvent args batch))
      (emitBlock args env batch) (fun _ => Tracks K) (Tracks K) := by
  refine Gen.Spec.bind (Q := fun _ => Emitting K (blockEvent args batch)) ?_ fun _ => ?_
  · refine Gen.Spec.modify ?_
    intro log s mid
    exact ⟨mid.legal, mid.shown, mid.inv.linked, mid.inv.known⟩
  · exact Gen.Spec.yield (fun _ _ mid => mid.legal) (fun _ _ mid => mid.shown)
      (fun _ _ mid => ⟨mid.shown, mid.inv⟩)

/-- Before an append: the log is tracked and the new block extends the tip. -/
structure Appending (K : Light → Prop) (light : Light) (log : EventLog) (s : EventState) :
    Prop where
  tracks : Tracks K log s
  extends_tip : Extends (tipOf s.anchor s.unfinalized) light
  known : K light

/-- The INV-10 tripwire does not fire on a block that extends the tip. -/
theorem appendBlock_run {a : EventState} {light : Light}
    (ext : Extends (tipOf a.anchor a.unfinalized) light) :
    (appendBlock args light).run a =
      ⟨[], { a with unfinalized := a.unfinalized ++ [light] }, .ok ()⟩ := by
  have linked : linkHolds a.unfinalized light = true := by
    unfold linkHolds
    cases last : a.unfinalized.getLast? with
    | none => rfl
    | some tip =>
        have tipIs : tipOf a.anchor a.unfinalized = tip := by simp [tipOf, last]
        rw [tipIs] at ext
        exact decide_eq_true ⟨ext.1, ext.2⟩
  unfold appendBlock
  rw [Gen.run_bind_ok (Gen.run_get a), linked, invariant_of_holds]
  rfl

theorem tracks_appendBlock (coherent : Coherent K) (batch : HotBatch) :
    Gen.Spec eventView Agrees (Appending K (toLight batch.header))
      (appendBlock args (toLight batch.header))
      (fun _ => Emitting K (blockEvent args batch)) (Tracks K) := by
  rintro log s ⟨⟨rfl, inv⟩, ext, known⟩
  rw [appendBlock_run ext]
  refine ⟨trivial, ?_, ?_, ?_, ?_⟩
  · exact legal_blockEvent.2 (.inr ext)
  · -- the new block is above the whole chain, so its hash is new
    have fresh : ∀ b ∈ s.anchor :: s.unfinalized, (toLight batch.header).hash ≠ b.hash := by
      intro b mem same
      have eq := coherent.hashDetermines _ known b (inv.known b mem) same
      have below := inv.linked.le_tip mem
      have above := ext.2
      rw [eq] at above
      omega
    have notTip := fresh _ (tipOf_mem s.anchor s.unfinalized)
    have notAnchor := fresh _ List.mem_cons_self
    exact (apply_blockEvent args s.log batch).trans (if_neg (not_or.2 ⟨notTip, notAnchor⟩))
  · exact inv.linked.push ext
  · intro b mem
    rw [← List.cons_append, List.mem_append, List.mem_singleton] at mem
    rcases mem with old | rfl
    · exact inv.known b old
    · exact known

/-- Between the assignment and the yield of a reorg. -/
structure Trimmed (K : Light → Prop) (kept reorged : List Light) (anchor : Light)
    (log : EventLog) (s : EventState) : Prop where
  before : log = ⟨kept ++ reorged, anchor⟩
  linked : Linked anchor (kept ++ reorged)
  known : ∀ b ∈ anchor :: (kept ++ reorged), K b
  after : s.log = ⟨kept, anchor⟩

theorem Trimmed.shown (coherent : Coherent K) {kept reorged : List Light} {anchor : Light}
    {log : EventLog} {s : EventState} (mid : Trimmed K kept reorged anchor log s) :
    log.apply (.reorg (tipOf anchor kept) reorged) = s.log := by
  rw [mid.before, mid.after]
  exact apply_reorg coherent mid.linked mid.known

theorem tracks_reorg (coherent : Coherent K) {a : EventState} {light : Light}
    {kept reorged : List Light} (splits : a.unfinalized = kept ++ reorged)
    (nonempty : reorged ≠ []) (parent : light.parentHash = (tipOf a.anchor kept).hash)
    (known : K light) :
    Gen.Spec eventView Agrees (At (Tracks K) a) (surfaceReorg (tipOf a.anchor kept) reorged)
      (fun _ => Appending K light) (Tracks K) := by
  refine Gen.Spec.bind (Q := fun _ => Trimmed K kept reorged a.anchor) ?_ fun _ => ?_
  · refine Gen.Spec.modify ?_
    rintro log s ⟨⟨rfl, inv⟩, rfl⟩
    have linked := inv.linked
    have knownAll := inv.known
    rw [splits] at linked knownAll
    refine ⟨by rw [EventState.log, splits], linked, knownAll, ?_⟩
    simp only [EventState.log, splits, trimAbove_linked linked]
  · refine Gen.Spec.yield ?_ (fun log s mid => mid.shown coherent) ?_
    · intro log s mid
      refine ⟨kept, by rw [mid.before], by rw [mid.before], nonempty, ?_, ?_⟩
      · rw [mid.shown coherent, mid.after]
      · rw [mid.before]
        exact fun b mem => mid.linked.anchor_lt (List.mem_append_right _ mem)
    · intro log s mid
      have window : s.unfinalized = kept := congrArg EventLog.window mid.after
      have anchor : s.anchor = a.anchor := congrArg EventLog.anchor mid.after
      have keptKnown : ∀ b ∈ a.anchor :: kept, K b := by
        intro b mem
        have all := mid.known
        rw [← List.cons_append] at all
        exact all b (List.mem_append_left _ mem)
      refine ⟨⟨mid.shown coherent, ?_, ?_⟩, ?_, known⟩
      · rw [window, anchor]
        exact (linked_append.1 mid.linked).1
      · rw [window, anchor]
        exact keptKnown
      · rw [window, anchor]
        exact ⟨parent, coherent.parentBelow _ known _ (keptKnown _ (tipOf_mem _ _)) parent⟩

theorem tracks_deliver (coherent : Coherent K) (batch : HotBatch)
    (known : K (toLight batch.header)) :
    Gen.Spec eventView Agrees (Tracks K) (deliver args env batch) (fun _ => Tracks K)
      (Tracks K) :=
  have rules : DeliverRules eventView Agrees (Tracks K) (Tracks K) args env batch
      (Appending K (toLight batch.header)) (Emitting K (blockEvent args batch)) :=
    { free := tracks_clockFree
      cadence := tracks_cadence coherent
      emit := tracks_emitBlock batch
      append := tracks_appendBlock coherent batch
      redeliver := by
        rintro log s ⟨rfl, inv⟩ dup
        exact ⟨legal_blockEvent.2 (.inl dup),
          (apply_blockEvent args s.log batch).trans (if_pos (.inl dup)), inv⟩
      extend := by
        intro log s tracks parent
        have tipKnown := tracks.2.known _ (tipOf_mem s.anchor s.unfinalized)
        exact ⟨tracks, ⟨parent, coherent.parentBelow _ known _ tipKnown parent⟩, known⟩
      reorg := fun _ _ _ splits nonempty parent _ =>
        tracks_reorg coherent splits nonempty parent known }
  spec_deliver rules

theorem tracks_portalRealtimeEvents (args : EventArgs) (coherent : Coherent K)
    (inputs : List (HotItem × Env))
    (known : ∀ batch env, (HotItem.block batch, env) ∈ inputs → K (toLight batch.header)) :
    Gen.Spec eventView Agrees (Tracks K) (portalRealtimeEvents args inputs)
      (fun _ => Tracks K) (Tracks K) :=
  spec_portalRealtimeEvents inputs (fun _ _ => tracks_cadence coherent)
    fun batch env mem => tracks_deliver coherent batch (known batch env mem)

end Generator

/-! ## Along a run -/

/-- A legal event keeps the log's window linked from its anchor. -/
theorem EventLog.Legal.linked {log : EventLog} {e : PortalRealtimeEvent}
    (linked : Linked log.anchor log.window) (legal : log.Legal e) :
    Linked (log.apply e).anchor (log.apply e).window := by
  cases e with
  | block block logs txs matched batchId batchSize =>
      simp only [EventLog.apply]
      by_cases known : (ofBlock block).hash = (tipOf log.anchor log.window).hash ∨
          (ofBlock block).hash = log.anchor.hash
      · rw [if_pos known]
        exact linked
      · rw [if_neg known]
        rcases legal with dup | ext
        · exact absurd (.inl dup) known
        · exact linked.push ext
  | reorg ancestor reorged =>
      obtain ⟨kept, splits, -, -, folded, -⟩ := legal
      have anchor : (log.apply (.reorg ancestor reorged)).anchor = log.anchor := by
        simp only [EventLog.apply]
        split <;> rfl
      rw [anchor, folded]
      rw [splits] at linked
      exact (linked_append.1 linked).1
  | finalize b =>
      obtain ⟨⟨pre, splits⟩, -⟩ := legal
      rw [splits] at linked
      exact (linked_cons.1 (linked_append.1 linked).2).2

/-- The heights of the finalize events, in order. -/
def finalizedNumbers (events : List PortalRealtimeEvent) : List Int :=
  events.filterMap fun e =>
    match e with
    | .finalize b => some b.number
    | _ => none

/-- Only a finalize moves the anchor, and it moves it up. -/
theorem finalizedNumbers_increasing {Shows : EventLog → EventState → Prop} {log : EventLog}
    {trace : List (PortalRealtimeEvent × EventState)}
    (lock : eventView.Lockstep Shows log trace) :
    (log.anchor.number :: finalizedNumbers (trace.map Prod.fst)).Pairwise (· < ·) := by
  induction trace generalizing log with
  | nil => simp [finalizedNumbers]
  | cons head rest ih =>
      obtain ⟨e, s⟩ := head
      obtain ⟨legal, -, tail⟩ := lock
      have later := ih tail
      cases e with
      | block block logs txs matched batchId batchSize =>
          have anchor : (log.apply (.block block logs txs matched batchId batchSize)).anchor =
              log.anchor := by
            simp only [EventLog.apply]
            split <;> rfl
          rw [show eventView.apply = EventLog.apply from rfl, anchor] at later
          exact later
      | reorg ancestor reorged =>
          have anchor : (log.apply (.reorg ancestor reorged)).anchor = log.anchor := by
            simp only [EventLog.apply]
            split <;> rfl
          rw [show eventView.apply = EventLog.apply from rfl, anchor] at later
          exact later
      | finalize b =>
          have rise : log.anchor.number < b.number := legal.2
          refine List.pairwise_cons.2 ⟨?_, later⟩
          intro n mem
          rcases List.mem_cons.1 mem with rfl | above
          · exact rise
          · exact Int.lt_trans rise ((List.pairwise_cons.1 later).1 n above)

/-- The events of a turn are a faithful account of what it did to window and anchor. -/
structure FaithfulLog (anchor : Light)
    (t : Turn EventState PortalRealtimeEvent RealtimeError Unit) : Prop where
  /-- folding the events gives the generator's window and anchor -/
  folds : t.state.log = eventView.fold ⟨[], anchor⟩ t.events
  /-- and it does so at every yield -/
  folds_at_yield : ∀ es e s fs, t.trace = es ++ (e, s) :: fs →
    s.log = eventView.fold ⟨[], anchor⟩ (es.map Prod.fst ++ [e])
  linked : Linked t.state.anchor t.state.unfinalized
  linked_at_yield : ∀ es e s fs, t.trace = es ++ (e, s) :: fs → Linked s.anchor s.unfinalized
  /-- the reorged blocks are the suffix removed, all of it above the anchor -/
  reorgs : ∀ es ancestor reorged s fs, t.trace = es ++ (.reorg ancestor reorged, s) :: fs →
    (eventView.fold ⟨[], anchor⟩ (es.map Prod.fst)).window = s.unfinalized ++ reorged ∧
      ancestor = tipOf s.anchor s.unfinalized ∧ ∀ b ∈ reorged, s.anchor.number < b.number
  /-- a finalize names a block of the window -/
  finalizes : ∀ es b s fs, t.trace = es ++ (.finalize b, s) :: fs →
    b ∈ (eventView.fold ⟨[], anchor⟩ (es.map Prod.fst)).window
  increasing : (finalizedNumbers t.events).Pairwise (· < ·)

theorem faithfulLog_of_lockstep {K : Light → Prop} {anchor : Light}
    {t : Turn EventState PortalRealtimeEvent RealtimeError Unit}
    (lock : eventView.Lockstep Agrees ⟨[], anchor⟩ t.trace)
    (final : Tracks K (eventView.fold ⟨[], anchor⟩ t.events) t.state) : FaithfulLog anchor t where
  folds := final.1.symm
  folds_at_yield := by
    intro es e s fs split
    rw [split] at lock
    exact lock.at_yield.2.symm
  linked := final.2.linked
  linked_at_yield := by
    intro es e s fs split
    rw [split] at lock
    have before : eventView.Lockstep Agrees ⟨[], anchor⟩ (es ++ [(e, s)]) := by
      rw [List.append_cons] at lock
      exact (Gen.View.lockstep_append.1 lock).1
    have shown := lock.at_yield.2
    have linked := before.preserves (P := fun log => Linked log.anchor log.window)
      (fun _ _ held legal => EventLog.Legal.linked held legal) (Linked.nil anchor)
    rw [List.map_append, List.map_singleton, show _ = s.log from shown] at linked
    exact linked
  reorgs := by
    intro es ancestor reorged s fs split
    rw [split] at lock
    obtain ⟨⟨kept, splits, isTip, -, folded, above⟩, shown⟩ := lock.at_yield
    rw [Gen.View.fold_append] at shown
    have window : s.unfinalized = kept := (congrArg EventLog.window shown.symm).trans folded
    have sAnchor : s.anchor = (eventView.fold ⟨[], anchor⟩ (es.map Prod.fst)).anchor := by
      refine (congrArg EventLog.anchor shown.symm).trans ?_
      simp only [Gen.View.fold_cons, Gen.View.fold_nil, eventView, EventLog.apply]
      split <;> rfl
    rw [window, sAnchor]
    exact ⟨splits, isTip, above⟩
  finalizes := by
    intro es b s fs split
    rw [split] at lock
    obtain ⟨⟨⟨pre, splits⟩, -⟩, -⟩ := lock.at_yield
    rw [splits]
    simp
  increasing := (List.pairwise_cons.1 (finalizedNumbers_increasing lock)).2

theorem start_tracks (anchor : Light) (now : Int) (inputs : List (HotItem × Env)) :
    Tracks (· ∈ seenBlocks anchor inputs) ⟨[], anchor⟩ (EventState.start anchor now) := by
  refine ⟨rfl, Linked.nil anchor, ?_⟩
  intro b mem
  rw [List.mem_singleton.1 mem]
  exact List.mem_cons_self

/-- A block that is not the tip and whose parent is neither in the window nor the anchor stops
the generator, without an event. -/
theorem turn_unknownParent {args : EventArgs} {env : Env} {batch : HotBatch} {s : EventState}
    (notTip : (toLight batch.header).hash ≠ (tipOf s.anchor s.unfinalized).hash)
    (orphan : ∀ b ∈ s.anchor :: s.unfinalized, (toLight batch.header).parentHash ≠ b.hash) :
    (turn args (.block batch, env)).run s =
      ⟨[], s, .error (.unknownParent (toLight batch.header))⟩ := by
  have gap := reconcile_gap_iff.2 ⟨notTip, orphan⟩
  unfold turn deliver
  simp only
  rw [Gen.run_bind_ok (Gen.run_get s)]
  simp only [gap, Gen.run_throw, List.nil_append]

/-- The realtime event log is a faithful fold of the generator's window and anchor. -/
theorem portalRealtimeEvents_faithful (args : EventArgs) (anchor : Light) (now : Int)
    (inputs : List (HotItem × Env)) (coherent : Coherent (· ∈ seenBlocks anchor inputs)) :
    FaithfulLog anchor ((portalRealtimeEvents args inputs).run (.start anchor now)) ∧
      ∀ s trace batch env,
        (portalRealtimeEvents args inputs).run (.start anchor now) = ⟨trace, s, .ok ()⟩ →
        (toLight batch.header).hash ≠ (tipOf s.anchor s.unfinalized).hash →
        (∀ b ∈ s.anchor :: s.unfinalized, (toLight batch.header).parentHash ≠ b.hash) →
        (portalRealtimeEvents args (inputs ++ [(.block batch, env)])).run (.start anchor now) =
          ⟨trace, s, .error (.unknownParent (toLight batch.header))⟩ := by
  constructor
  · have spec := tracks_portalRealtimeEvents args coherent inputs
      fun _ _ mem => mem_seenBlocks mem
    have start := start_tracks anchor now inputs
    exact faithfulLog_of_lockstep (spec _ _ start).1 (spec.final start)
  · intro s trace batch env before notTip orphan
    rw [portalRealtimeEvents, Gen.run_forEach_concat before, turn_unknownParent notTip orphan,
      List.append_nil]

/-! A run with a fork at height 102, a duplicate, and a finalize of 101. -/

def sampleAnchor : Light := ⟨100, "0x100", "0x099", 0⟩

def sampleBatch (number : Nat) (hash parentHash : Hash) : HotItem :=
  .block ⟨⟨number, hash, parentHash, number, []⟩, [], [], none, none⟩

def sampleEnv (now : Int) : Env :=
  { deliveredAt := now, now := now, finalizedHead := some ⟨101, some "0x101"⟩ }

def sampleRun : List (HotItem × Env) :=
  [(sampleBatch 101 "0x101" "0x100", sampleEnv 10),
   (sampleBatch 102 "0x102a" "0x101", sampleEnv 20),
   (sampleBatch 102 "0x102a" "0x101", sampleEnv 30),
   (sampleBatch 102 "0x102b" "0x101", sampleEnv 5000)]

theorem portalRealtimeEvents_faithful_sample :
    FaithfulLog sampleAnchor ((portalRealtimeEvents {} sampleRun).run (.start sampleAnchor 0)) ∧
      finalizedNumbers ((portalRealtimeEvents {} sampleRun).run (.start sampleAnchor 0)).events =
        [101] ∧
      ((portalRealtimeEvents {}
          (sampleRun ++ [(sampleBatch 104 "0x104" "0x103", sampleEnv 5010)])).run
            (.start sampleAnchor 0)).outcome =
        .error (.unknownParent ⟨104, "0x104", "0x103", 104⟩) := by
  obtain ⟨faithful, stops⟩ := portalRealtimeEvents_faithful {} sampleAnchor 0 sampleRun
    ⟨by decide, by decide⟩
  refine ⟨faithful, by decide, ?_⟩
  have stop := stops _ _ ⟨⟨104, "0x104", "0x103", 104, []⟩, [], [], none, none⟩ (sampleEnv 5010)
    rfl (by decide) (by decide)
  exact congrArg Turn.outcome stop

end PortalPonder.Realtime
