import PortalPonder.Realtime.EventLog

/-!
# The surviving chain

What a consumer of block and reorg events has of the chain: the deliveries that no reorg has
taken back. Over a legal sequence of events the survivors rise, and a reorg removes exactly what
is above the common ancestor, however deliveries are repeated.
-/

namespace PortalPonder.Realtime

/-- A block as it was delivered. -/
structure Delivery where
  light : Light
  logs : List SyncLog

/-- The deliveries that no reorg has taken back, in order. -/
def survive (chain : List Delivery) : PortalRealtimeEvent → List Delivery
  | .block block logs .. => chain ++ [⟨ofBlock block, logs⟩]
  | .reorg _ reorgedBlocks => chain.filter fun d => d.light.hash ∉ reorgedBlocks.map Light.hash
  | .finalize _ => chain

def survivors (events : List PortalRealtimeEvent) : List Delivery := events.foldl survive []

/-- Each event is legal for the log of the events before it. -/
def LegalRun : EventLog → List PortalRealtimeEvent → Prop
  | _, [] => True
  | log, e :: rest => log.Legal e ∧ LegalRun (log.apply e) rest

theorem legalRun_append {log : EventLog} {es fs : List PortalRealtimeEvent} :
    LegalRun log (es ++ fs) ↔ LegalRun log es ∧ LegalRun (es.foldl EventLog.apply log) fs := by
  induction es generalizing log with
  | nil => simp [LegalRun]
  | cons e rest ih => simp only [List.cons_append, LegalRun, List.foldl_cons, ih, and_assoc]

/-- The events of the producer are a legal run. -/
theorem legalRun_of_lockstep {Shows : EventLog → EventState → Prop} {log : EventLog}
    {trace : List (PortalRealtimeEvent × EventState)}
    (lock : eventView.Lockstep Shows log trace) : LegalRun log (trace.map Prod.fst) := by
  induction trace generalizing log with
  | nil => trivial
  | cons head rest ih => exact ⟨lock.1, ih lock.2.2⟩

/-- The blocks of a sequence of events, and the startup anchor. -/
def eventBlocks (anchor : Light) (events : List PortalRealtimeEvent) : List Light :=
  anchor :: events.filterMap fun e =>
    match e with
    | .block block .. => some (ofBlock block)
    | _ => none

theorem mem_eventBlocks {anchor : Light} {events : List PortalRealtimeEvent}
    {block : SyncBlockHeader} {logs : List SyncLog} {transactions : List SyncTransaction}
    {hasMatchedFilter : Bool} {batchId batchSize : Option Nat}
    (mem : .block block logs transactions hasMatchedFilter batchId batchSize ∈ events) :
    ofBlock block ∈ eventBlocks anchor events :=
  List.mem_cons_of_mem _ (List.mem_filterMap.2 ⟨_, mem, rfl⟩)

theorem eventBlocks_append_left {anchor b : Light} {es fs : List PortalRealtimeEvent}
    (mem : b ∈ eventBlocks anchor es) : b ∈ eventBlocks anchor (es ++ fs) := by
  unfold eventBlocks at mem ⊢
  rw [List.filterMap_append, ← List.cons_append]
  exact List.mem_append_left _ mem

/-! ## Survivors against the log -/

/-- A survivor stands in the window or is as old as the anchor, and survivors rise. -/
structure Survives (K : Light → Prop) (log : EventLog) (chain : List Delivery) : Prop where
  linked : Linked log.anchor log.window
  known : ∀ b ∈ log.anchor :: log.window, K b
  chainKnown : ∀ d ∈ chain, K d.light
  placed : ∀ d ∈ chain, d.light.number ≤ log.anchor.number ∨ d.light ∈ log.window
  rising : chain.Pairwise fun d d' => d.light.number ≤ d'.light.number

section Steps

variable {K : Light → Prop} {log : EventLog} {chain : List Delivery}

theorem Survives.le_tip (survives : Survives K log chain) {d : Delivery} (mem : d ∈ chain) :
    d.light.number ≤ (tipOf log.anchor log.window).number := by
  rcases survives.placed d mem with old | inWindow
  · exact Int.le_trans old (survives.linked.le_tip List.mem_cons_self)
  · exact survives.linked.le_tip (List.mem_cons_of_mem _ inWindow)

/-- A block that is the tip again, or extends it. -/
theorem Survives.block_cases (coherent : Coherent K) (survives : Survives K log chain)
    {block : SyncBlockHeader} {logs : List SyncLog} {transactions : List SyncTransaction}
    {hasMatchedFilter : Bool} {batchId batchSize : Option Nat} (known : K (ofBlock block))
    (legal : log.Legal (.block block logs transactions hasMatchedFilter batchId batchSize)) :
    ofBlock block = tipOf log.anchor log.window ∧
        log.apply (.block block logs transactions hasMatchedFilter batchId batchSize) = log ∨
      Extends (tipOf log.anchor log.window) (ofBlock block) ∧
        log.apply (.block block logs transactions hasMatchedFilter batchId batchSize) =
          ⟨log.window ++ [ofBlock block], log.anchor⟩ := by
  have tipKnown := survives.known _ (tipOf_mem log.anchor log.window)
  rcases legal with dup | ext
  · refine .inl ⟨coherent.hashDetermines _ known _ tipKnown dup, ?_⟩
    exact if_pos (.inl dup)
  · refine .inr ⟨ext, ?_⟩
    have above : ∀ b ∈ log.anchor :: log.window, (ofBlock block).hash ≠ b.hash := by
      intro b mem same
      have eq := coherent.hashDetermines _ known b (survives.known b mem) same
      have le := survives.linked.le_tip mem
      have rise := ext.2
      rw [eq] at rise
      omega
    exact if_neg (not_or.2 ⟨above _ (tipOf_mem _ _), above _ List.mem_cons_self⟩)

/-- A reorg takes back exactly the survivors above the common ancestor. -/
theorem Survives.reorg_above (coherent : Coherent K) (survives : Survives K log chain)
    {ancestor : Light} {reorgedBlocks : List Light}
    (legal : log.Legal (.reorg ancestor reorgedBlocks)) {d : Delivery} (mem : d ∈ chain) :
    d.light.hash ∈ reorgedBlocks.map Light.hash ↔ ancestor.number < d.light.number := by
  obtain ⟨kept, splits, isTip, -, -, above⟩ := legal
  have linked := survives.linked
  have known := survives.known
  rw [splits] at linked known
  have higher : ∀ b ∈ reorgedBlocks, ancestor.number < b.number := by
    intro b inReorged
    rw [isTip]
    exact (linked_append.1 linked).2.anchor_lt inReorged
  constructor
  · intro hash
    obtain ⟨b, inReorged, same⟩ := List.mem_map.1 hash
    have eq := coherent.hashDetermines _ (survives.chainKnown d mem) b
      (known b (List.mem_cons_of_mem _ (List.mem_append_right _ inReorged))) same.symm
    rw [eq]
    exact higher b inReorged
  · intro high
    have anchorLow : log.anchor.number ≤ ancestor.number := by
      rw [isTip]
      exact (linked_append.1 linked).1.le_tip List.mem_cons_self
    rcases survives.placed d mem with old | inWindow
    · omega
    · rw [splits] at inWindow
      rcases List.mem_append.1 inWindow with inKept | inReorged
      · have low := (linked_append.1 linked).1.le_tip (List.mem_cons_of_mem _ inKept)
        rw [← isTip] at low
        omega
      · exact List.mem_map.2 ⟨_, inReorged, rfl⟩

/-- One legal event keeps the account of the survivors. -/
theorem Survives.step (coherent : Coherent K) (survives : Survives K log chain)
    {e : PortalRealtimeEvent} (legal : log.Legal e)
    (known : ∀ b ∈ (eventBlocks log.anchor [e]), K b) :
    Survives K (log.apply e) (survive chain e) := by
  have linked := EventLog.Legal.linked survives.linked legal
  cases e with
  | block block logs transactions hasMatchedFilter batchId batchSize =>
      have blockKnown : K (ofBlock block) :=
        known _ (mem_eventBlocks (List.mem_singleton.2 rfl))
      have low : ∀ d ∈ chain, d.light.number ≤ (ofBlock block).number := by
        intro d mem
        have le := survives.le_tip mem
        rcases survives.block_cases coherent blockKnown legal with ⟨same, -⟩ | ⟨ext, -⟩
        · rw [same]
          exact le
        · have rise := ext.2
          omega
      refine ⟨linked, ?_, ?_, ?_, ?_⟩
      · intro b mem
        rcases survives.block_cases coherent blockKnown legal with ⟨-, folded⟩ | ⟨-, folded⟩
        · rw [folded] at mem
          exact survives.known b mem
        · rw [folded, ← List.cons_append] at mem
          rcases List.mem_append.1 mem with old | new
          · exact survives.known b old
          · rw [List.mem_singleton.1 new]
            exact blockKnown
      · intro d mem
        rcases List.mem_append.1 mem with old | new
        · exact survives.chainKnown d old
        · rw [List.mem_singleton.1 new]
          exact blockKnown
      · intro d mem
        rcases survives.block_cases coherent blockKnown legal with ⟨same, folded⟩ | ⟨-, folded⟩
        · rw [folded]
          rcases List.mem_append.1 mem with old | new
          · exact survives.placed d old
          · rw [List.mem_singleton.1 new]
            show (ofBlock block).number ≤ _ ∨ ofBlock block ∈ log.window
            rw [same]
            rcases List.mem_cons.1 (tipOf_mem log.anchor log.window) with isAnchor | inWindow
            · rw [isAnchor]
              exact .inl (Int.le_refl _)
            · exact .inr inWindow
        · rw [folded]
          rcases List.mem_append.1 mem with old | new
          · exact (survives.placed d old).imp_right (List.mem_append_left _)
          · rw [List.mem_singleton.1 new]
            exact .inr (List.mem_append_right _ (List.mem_singleton.2 rfl))
      · refine List.pairwise_append.2 ⟨survives.rising, List.pairwise_singleton _ _, ?_⟩
        intro d mem d' last
        rw [List.mem_singleton.1 last]
        exact low d mem
  | reorg ancestor reorgedBlocks =>
      have above := fun {d : Delivery} => survives.reorg_above coherent legal (d := d)
      obtain ⟨kept, splits, isTip, -, folded, -⟩ := legal
      have anchor : (log.apply (.reorg ancestor reorgedBlocks)).anchor = log.anchor := by
        simp only [EventLog.apply]
        split <;> rfl
      refine ⟨linked, ?_, ?_, ?_, ?_⟩
      · intro b mem
        rw [anchor, folded] at mem
        refine survives.known b ?_
        rw [splits, ← List.cons_append]
        exact List.mem_append_left _ mem
      · intro d mem
        exact survives.chainKnown d (List.mem_filter.1 mem).1
      · intro d mem
        obtain ⟨mem, stays⟩ := List.mem_filter.1 mem
        rw [anchor, folded]
        refine (survives.placed d mem).imp_right fun inWindow => ?_
        rw [splits] at inWindow
        rcases List.mem_append.1 inWindow with inKept | inReorged
        · exact inKept
        · exact absurd (List.mem_map.2 ⟨_, inReorged, rfl⟩) (of_decide_eq_true stays)
      · exact survives.rising.filter _
  | finalize b =>
      obtain ⟨⟨pre, splits⟩, rises⟩ := legal
      have linkedBefore := survives.linked
      rw [splits] at linkedBefore
      refine ⟨linked, ?_, survives.chainKnown, ?_, survives.rising⟩
      · intro x mem
        refine survives.known x (List.mem_cons_of_mem _ ?_)
        rw [splits]
        exact List.mem_append_right _ mem
      · intro d mem
        show _ ≤ b.number ∨ _
        rcases survives.placed d mem with old | inWindow
        · exact .inl (by omega)
        · rw [splits] at inWindow
          rcases List.mem_append.1 inWindow with below | here
          · -- what is below the finalized block in the window is below it in height
            have order := (List.pairwise_append.1 (List.pairwise_cons.1 linkedBefore.pairwise).2).2.2
            exact .inl (Int.le_of_lt (order _ below b List.mem_cons_self))
          · rcases List.mem_cons.1 here with isTip | later
            · rw [isTip]
              exact .inl (Int.le_refl _)
            · exact .inr later

end Steps

/-- The account of a legal run, from the startup anchor. -/
theorem survives_of_legalRun {K : Light → Prop} (coherent : Coherent K) {anchor : Light}
    {events : List PortalRealtimeEvent} (legal : LegalRun ⟨[], anchor⟩ events)
    (known : ∀ b ∈ eventBlocks anchor events, K b) :
    Survives K (events.foldl EventLog.apply ⟨[], anchor⟩) (survivors events) := by
  induction events using List.reverseRecOn with
  | nil =>
      refine ⟨Linked.nil anchor, known, ?_, ?_, List.Pairwise.nil⟩
      · intro d mem
        cases mem
      · intro d mem
        cases mem
  | append_singleton events e ih =>
      obtain ⟨before, last⟩ := legalRun_append.1 legal
      have earlier : ∀ b ∈ eventBlocks anchor events, K b :=
        fun b mem => known b (eventBlocks_append_left mem)
      have survives := ih before earlier
      rw [List.foldl_append, survivors, List.foldl_append]
      refine survives.step coherent last.1 fun b mem => ?_
      rcases List.mem_cons.1 mem with isAnchor | inEvent
      · rw [isAnchor]
        exact survives.known _ List.mem_cons_self
      · obtain ⟨x, inEvent, same⟩ := List.mem_filterMap.1 inEvent
        exact known b (List.mem_cons_of_mem _ (List.mem_filterMap.2
          ⟨x, List.mem_append_right _ inEvent, same⟩))

end PortalPonder.Realtime
