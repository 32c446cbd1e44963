import PortalPonder.Transform
import Mathlib.Data.List.Chain

/-!
# The pure reorg / finalize core

`reconcile` places a newly streamed block against the local unfinalized chain, `takeFinalized`
splits that chain at a finalized height. Both are stated over the window (oldest to newest) and
the anchor, the last finalized block. The lemmas read the window together with its anchor as one
chain, `anchor :: window`: its last block is the tip, and every answer of `reconcile` is a
statement about that chain.
-/

namespace PortalPonder.Realtime

/-- The minimum a block needs for chain reconciliation. -/
structure Light where
  number : Int
  hash : Hash
  parentHash : Hash
  timestamp : Nat
  deriving DecidableEq, Repr

inductive Reconcile where
  /-- extends the tip (normal case) -/
  | append
  /-- already the tip (idempotent re-delivery) -/
  | duplicate
  /-- forks off an earlier block -/
  | reorg (commonAncestor : Light) (reorgedBlocks : List Light)
  /-- parent unknown: beyond the window, or a skipped block -/
  | gap
  deriving DecidableEq, Repr

/-- Reconcile a newly streamed block against the local unfinalized chain. -/
def reconcile (unfinalized : List Light) (next anchor : Light) : Reconcile :=
  match unfinalized.getLast? with
  | none =>
      if next.hash = anchor.hash then .duplicate
      else if next.parentHash = anchor.hash then .append
      else .gap
  | some tip =>
      if next.hash = tip.hash then .duplicate
      else if next.parentHash = tip.hash then .append
      else
        match unfinalized.findIdx? fun b => b.hash = next.parentHash with
        | none =>
            -- a fork at the finality boundary: the whole window is the reorged suffix
            if next.parentHash = anchor.hash then .reorg anchor unfinalized else .gap
        | some idx => .reorg (unfinalized.getD idx tip) (unfinalized.drop (idx + 1))

/-- The result of splitting the window at a finalized height. -/
structure Finalized where
  finalizedTip : Option Light
  remaining : List Light
  deriving DecidableEq, Repr

/-- Split the unfinalized chain at a newly finalized block number. -/
def takeFinalized (unfinalized : List Light) (finalizedNumber : Int) : Finalized :=
  unfinalized.foldl
    (fun split b =>
      if b.number ≤ finalizedNumber then { split with finalizedTip := some b }
      else { split with remaining := split.remaining ++ [b] })
    { finalizedTip := none, remaining := [] }

def toLight (h : RawHeader) : Light where
  number := h.number
  hash := h.hash
  parentHash := h.parentHash
  timestamp := h.timestamp

/-- The light block a consumer reads back out of a stored header. -/
def ofBlock (b : SyncBlockHeader) : Light where
  number := hexToNumber b.number
  hash := b.hash
  parentHash := b.parentHash
  timestamp := hexToNumber b.timestamp

@[simp] theorem ofBlock_toSyncBlockHeader (h : RawHeader) :
    ofBlock (toSyncBlockHeader h) = toLight h := by
  simp [ofBlock, toSyncBlockHeader, toLight, hx]

/-! ## The chain above the anchor -/

/-- `child` is the block after `parent`. -/
def Extends (parent child : Light) : Prop :=
  child.parentHash = parent.hash ∧ parent.number < child.number

/-- The window is parent-linked from the anchor, with strictly increasing numbers. -/
def Linked (anchor : Light) (window : List Light) : Prop :=
  List.IsChain Extends (anchor :: window)

/-- The newest block: the anchor when the window is empty. -/
def tipOf (anchor : Light) (window : List Light) : Light :=
  (window.getLast?).getD anchor

@[simp] theorem tipOf_nil (anchor : Light) : tipOf anchor [] = anchor := rfl

@[simp] theorem tipOf_append_singleton (anchor : Light) (window : List Light) (b : Light) :
    tipOf anchor (window ++ [b]) = b := by
  simp [tipOf]

theorem tipOf_cons (anchor b : Light) (rest : List Light) :
    tipOf anchor (b :: rest) = tipOf b rest := by
  cases rest with
  | nil => rfl
  | cons c rest => simp [tipOf, List.getLast?_cons]

theorem tipOf_mem (anchor : Light) (window : List Light) :
    tipOf anchor window ∈ anchor :: window := by
  induction window generalizing anchor with
  | nil => simp
  | cons b rest ih =>
      rw [tipOf_cons]
      exact List.mem_cons_of_mem _ (ih b)

theorem Linked.nil (anchor : Light) : Linked anchor [] := List.isChain_singleton _

theorem linked_cons {anchor b : Light} {rest : List Light} :
    Linked anchor (b :: rest) ↔ Extends anchor b ∧ Linked b rest :=
  List.isChain_cons_cons

/-- A chain splits at any of its blocks. -/
theorem linked_append {anchor : Light} {pre suf : List Light} :
    Linked anchor (pre ++ suf) ↔ Linked anchor pre ∧ Linked (tipOf anchor pre) suf := by
  induction pre generalizing anchor with
  | nil => simp [Linked.nil]
  | cons b rest ih => rw [List.cons_append, linked_cons, linked_cons, ih, tipOf_cons, and_assoc]

theorem Linked.push {anchor b : Light} {window : List Light} (linked : Linked anchor window)
    (ext : Extends (tipOf anchor window) b) : Linked anchor (window ++ [b]) :=
  linked_append.2 ⟨linked, linked_cons.2 ⟨ext, Linked.nil b⟩⟩

/-- Numbers grow along the chain. -/
theorem Linked.pairwise {anchor : Light} {window : List Light} (linked : Linked anchor window) :
    (anchor :: window).Pairwise fun a b => a.number < b.number := by
  have numbers : List.IsChain (fun a b : Light => a.number < b.number) (anchor :: window) :=
    linked.imp fun _ _ ext => ext.2
  exact numbers.pairwise

theorem Linked.rising {anchor : Light} {window : List Light} (linked : Linked anchor window) :
    window.Pairwise fun a b => a.number < b.number :=
  (List.pairwise_cons.1 linked.pairwise).2

theorem Linked.anchor_lt {anchor b : Light} {window : List Light} (linked : Linked anchor window)
    (mem : b ∈ window) : anchor.number < b.number :=
  (List.pairwise_cons.1 linked.pairwise).1 b mem

theorem Linked.le_tip {anchor b : Light} {window : List Light} (linked : Linked anchor window)
    (mem : b ∈ anchor :: window) : b.number ≤ (tipOf anchor window).number := by
  induction window generalizing anchor b with
  | nil =>
      rw [List.mem_singleton] at mem
      subst mem
      exact Int.le_refl _
  | cons c rest ih =>
      obtain ⟨ext, below⟩ := linked_cons.1 linked
      rw [tipOf_cons]
      rcases List.mem_cons.1 mem with here | there
      · have first := ih below List.mem_cons_self
        have rise := ext.2
        rw [here]
        omega
      · exact ih below there

/-! ## What `reconcile` answers -/

theorem findIdx?_split {window : List Light} {p : Light → Bool} {idx : Nat}
    (found : window.findIdx? p = some idx) (fallback : Light) :
    ∃ pre, window = pre ++ window.getD idx fallback :: window.drop (idx + 1) ∧
      p (window.getD idx fallback) = true := by
  obtain ⟨bound, hit, -⟩ := List.findIdx?_eq_some_iff_getElem.1 found
  have value : window.getD idx fallback = window[idx] := by simp [bound]
  rw [value]
  refine ⟨window.take idx, ?_, hit⟩
  rw [List.getElem_cons_drop]
  exact (List.take_append_drop idx window).symm

/-- The four answers, read off the chain `anchor :: window`. -/
inductive ReconcileCase (window : List Light) (next anchor : Light) : Reconcile → Prop
  | duplicate : next.hash = (tipOf anchor window).hash →
      ReconcileCase window next anchor .duplicate
  | append : next.hash ≠ (tipOf anchor window).hash →
      next.parentHash = (tipOf anchor window).hash → ReconcileCase window next anchor .append
  | reorg {kept reorged : List Light} : next.hash ≠ (tipOf anchor window).hash →
      window = kept ++ reorged → reorged ≠ [] → next.parentHash = (tipOf anchor kept).hash →
      (kept = [] → ∀ b ∈ window, next.parentHash ≠ b.hash) →
      ReconcileCase window next anchor (.reorg (tipOf anchor kept) reorged)
  | gap : next.hash ≠ (tipOf anchor window).hash →
      (∀ b ∈ anchor :: window, next.parentHash ≠ b.hash) → ReconcileCase window next anchor .gap

theorem reconcile_cases (window : List Light) (next anchor : Light) :
    ReconcileCase window next anchor (reconcile window next anchor) := by
  unfold reconcile
  cases last : window.getLast? with
  | none =>
      rw [List.getLast?_eq_none_iff] at last
      subst last
      by_cases dup : next.hash = anchor.hash
      · simp only [dup, if_true]
        exact .duplicate dup
      · by_cases ext : next.parentHash = anchor.hash
        · simp only [dup, ext, if_true, if_false]
          exact .append dup ext
        · simp only [dup, ext, if_false]
          exact .gap dup (by simpa using ext)
  | some tip =>
      have tipIs : tipOf anchor window = tip := by simp [tipOf, last]
      by_cases dup : next.hash = tip.hash
      · simp only [dup, if_true]
        exact .duplicate (tipIs ▸ dup)
      by_cases ext : next.parentHash = tip.hash
      · simp only [dup, ext, if_true, if_false]
        exact .append (tipIs ▸ dup) (tipIs ▸ ext)
      simp only [dup, ext, if_false]
      cases found : window.findIdx? fun b => b.hash = next.parentHash with
      | none =>
          have miss := List.findIdx?_eq_none_iff.1 found
          by_cases boundary : next.parentHash = anchor.hash
          · simp only [boundary, if_true]
            have nonempty : window ≠ [] := by
              rintro rfl
              simp at last
            refine @ReconcileCase.reorg _ _ _ [] _ (tipIs ▸ dup) rfl nonempty boundary ?_
            intro _ b mem parent
            simpa [parent] using miss b mem
          · simp only [boundary, if_false]
            refine .gap (tipIs ▸ dup) fun b mem parent => ?_
            rcases List.mem_cons.1 mem with here | there
            · exact boundary (here ▸ parent)
            · simpa [parent] using miss b there
      | some idx =>
          obtain ⟨pre, splits, hit⟩ := findIdx?_split found tip
          have parent : next.parentHash = (window.getD idx tip).hash :=
            (of_decide_eq_true hit).symm
          have kept : window = (pre ++ [window.getD idx tip]) ++ window.drop (idx + 1) := by
            rw [List.append_assoc]
            exact splits
          -- were nothing above it, the parent would be the tip
          have nonempty : window.drop (idx + 1) ≠ [] := by
            intro none
            rw [none, List.append_nil] at kept
            rw [kept, List.getLast?_concat, Option.some.injEq] at last
            exact ext (last ▸ parent)
          have ancestor : window.getD idx tip =
              tipOf anchor (pre ++ [window.getD idx tip]) :=
            (tipOf_append_singleton _ _ _).symm
          simp only
          rw [ancestor] at parent ⊢
          exact .reorg (tipIs ▸ dup) kept nonempty parent (by simp)

theorem reconcile_duplicate_iff {window : List Light} {next anchor : Light} :
    reconcile window next anchor = .duplicate ↔ next.hash = (tipOf anchor window).hash := by
  have answers := reconcile_cases window next anchor
  generalize reconcile window next anchor = answer at answers
  cases answers with
  | duplicate dup => simp [dup]
  | append notTip _ => simp [notTip]
  | reorg notTip _ _ _ _ => simp [notTip]
  | gap notTip _ => simp [notTip]

theorem reconcile_append {window : List Light} {next anchor : Light}
    (notTip : next.hash ≠ (tipOf anchor window).hash)
    (parent : next.parentHash = (tipOf anchor window).hash) :
    reconcile window next anchor = .append := by
  unfold reconcile
  cases last : window.getLast? with
  | none =>
      have tip : tipOf anchor window = anchor := by simp [tipOf, last]
      rw [tip] at notTip parent
      simp only [if_neg notTip, if_pos parent]
  | some b =>
      have tip : tipOf anchor window = b := by simp [tipOf, last]
      rw [tip] at notTip parent
      simp only [if_neg notTip, if_pos parent]

/-- A gap: the block is not the tip and its parent is neither in the window nor the anchor. -/
theorem reconcile_gap_iff {window : List Light} {next anchor : Light} :
    reconcile window next anchor = .gap ↔
      next.hash ≠ (tipOf anchor window).hash ∧
        ∀ b ∈ anchor :: window, next.parentHash ≠ b.hash := by
  have answers := reconcile_cases window next anchor
  generalize reconcile window next anchor = answer at answers
  cases answers with
  | duplicate dup => simp [dup]
  | append notTip parent =>
      have inChain := tipOf_mem anchor window
      refine ⟨nofun, fun orphan => absurd parent (orphan.2 _ inChain)⟩
  | @reorg kept reorged notTip splits nonempty parent _ =>
      have inChain : tipOf anchor kept ∈ anchor :: window := by
        rw [splits, ← List.cons_append]
        exact List.mem_append_left _ (tipOf_mem anchor kept)
      exact ⟨nofun, fun orphan => absurd parent (orphan.2 _ inChain)⟩
  | gap notTip orphan => exact ⟨fun _ => ⟨notTip, orphan⟩, fun _ => rfl⟩

/-! ## What `takeFinalized` splits -/

theorem takeFinalized_eq (window : List Light) (n : Int) :
    takeFinalized window n =
      { finalizedTip := (window.filter fun b => b.number ≤ n).getLast?
        remaining := window.filter fun b => n < b.number } := by
  induction window using List.reverseRecOn with
  | nil => rfl
  | append_singleton rest b ih =>
      rw [takeFinalized, List.foldl_append, ← takeFinalized, ih, List.foldl_cons, List.foldl_nil]
      by_cases low : b.number ≤ n
      · simp [low]
      · simp [low, Int.not_le.1 low]

theorem takeFinalized_mem {window : List Light} {tip : Light} {n : Int}
    (found : (takeFinalized window n).finalizedTip = some tip) :
    tip ∈ window ∧ tip.number ≤ n := by
  rw [takeFinalized_eq] at found
  have mem := List.mem_filter.1 (List.mem_of_getLast? found)
  exact ⟨mem.1, of_decide_eq_true mem.2⟩

/-- On a rising window the split is a prefix, ending in the finalized tip, and the rest. -/
theorem takeFinalized_some {window : List Light} {tip : Light} {n : Int}
    (rising : window.Pairwise fun a b => a.number < b.number)
    (found : (takeFinalized window n).finalizedTip = some tip) :
    ∃ pre, window = pre ++ tip :: (takeFinalized window n).remaining ∧ tip.number ≤ n ∧
      ∀ b ∈ (takeFinalized window n).remaining, n < b.number := by
  rw [takeFinalized_eq] at found ⊢
  simp only at found ⊢
  have high : ∀ b ∈ window.filter fun b => n < b.number, n < b.number := by
    intro b mem
    simpa using (List.mem_filter.1 mem).2
  induction window with
  | nil => simp at found
  | cons b rest ih =>
      obtain ⟨above, below⟩ := List.pairwise_cons.1 rising
      by_cases low : b.number ≤ n
      · have notHigh : ¬ n < b.number := Int.not_lt.2 low
        simp only [List.filter_cons, low, notHigh, decide_true, decide_false, if_true] at found high ⊢
        cases tailTip : (rest.filter fun b => b.number ≤ n).getLast? with
        | none =>
            -- nothing of the rest is finalized: `b` is the tip
            have noneLow : rest.filter (fun b => b.number ≤ n) = [] :=
              List.getLast?_eq_none_iff.1 tailTip
            rw [noneLow] at found
            simp only [List.getLast?_singleton, Option.some.injEq] at found
            have allHigh : rest.filter (fun b => n < b.number) = rest := by
              rw [List.filter_eq_self]
              intro c mem
              have notLow := List.filter_eq_nil_iff.1 noneLow c mem
              simpa using notLow
            refine ⟨[], ?_, found ▸ low, high⟩
            rw [← found, List.nil_append]
            simp [allHigh]
        | some t =>
            have same : t = tip := by
              rw [List.getLast?_cons, tailTip] at found
              simpa using found
            subst same
            obtain ⟨pre, splits, tipLow, -⟩ := ih below tailTip (by simp)
            exact ⟨b :: pre, by simpa using splits, tipLow, high⟩
      · -- the window rises, so nothing after `b` is finalized either
        have noneLow : rest.filter (fun b => b.number ≤ n) = [] := by
          rw [List.filter_eq_nil_iff]
          intro c mem
          have rise := above c mem
          simp only [decide_eq_true_eq]
          omega
        simp [low, noneLow] at found

end PortalPonder.Realtime
