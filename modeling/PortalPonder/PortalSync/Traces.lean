import PortalPonder.Assembly.Ranking

/-!
# The ranks of the stand-alone package

`toSyncTraces` groups the traces of a block by their transaction, sorts each group by address and
numbers it. A trace that has no frame, a block reward, takes a number all the same, and having no
transaction it counts to transaction 0. What this does to the ranks is said exactly: without rewards
they are those of `rankTraces`.
-/

namespace PortalPonder.PortalSync

open Assembly (RawTrace CallFrame CALL_TYPE cmpTraceAddr_le sortTraces sortTraces_ordered
  mem_sortTraces)
open PathTree (Tree preorder)

/-! ## The transform -/

/-- Hex passes through; `undefined` stays undefined. -/
def hx : JsVal → Option PortalPonder.Hex
  -- `BigInt` of a string that is no decimal numeral throws; the Portal sends none
  | .str s => some (if s.startsWith "0x" then s else numberToHex (s.toNat?.getD 0))
  | .num n => some (numberToHex n)
  | _ => none

def hxN (v : JsVal) : PortalPonder.Hex := (hx v).getD "0x0"

/-- A block reward has no frame. -/
def parityToCallFrame (t : RawTrace) (index : Nat) : Option CallFrame :=
  let a := prop t.action
  let r := prop t.result
  let frame := fun (type : String) (target input output : JsVal) =>
    { type
      «from» := lowered (a "from")
      «to» := truthy (lowered target)
      value := hx (a "value")
      gas := hxN (a "gas")
      gasUsed := hxN (r "gasUsed")
      input
      output
      error := (prop t.props "error").orElse .undefined
      revertReason := (prop t.props "revertReason").orElse .undefined
      index
      subcalls := (prop t.props "subtraces").orElse (.num 0) : CallFrame }
  match t.type with
  | some "call" =>
      some (frame (CALL_TYPE (a "type")) (a "to") ((a "input").orElse (.str "0x")) (r "output"))
  | some "create" =>
      some (frame "CREATE" (r "address") ((a "init").orElse (.str "0x")) (r "code"))
  | some "suicide" => some (frame "SELFDESTRUCT" (a "refundAddress") (.str "0x") .undefined)
  | _ => none

structure SyncTrace where
  trace : CallFrame
  transactionHash : Hash
  deriving DecidableEq, Repr

/-- `t.transactionIndex ?? 0` -/
def txKey (t : RawTrace) : Nat := t.transactionIndex.getD 0

/-- The traces under a key, as they came. -/
def byTx (raw : List RawTrace) (k : Nat) : List RawTrace := raw.filter fun t => txKey t = k

/-- The hash of the last transaction that has the index. -/
def txHash (txs : List RawTx) (k : Nat) : Hash :=
  ((txs.reverse.find? fun tx => tx.transactionIndex = some k).bind RawTx.hash).getD "0x"

def toSyncTraces (txs : List RawTx) (raw : List RawTrace) : List SyncTrace :=
  ((raw.map txKey).eraseDups).flatMap fun k =>
    (sortTraces (byTx raw k)).zipIdx.filterMap fun e =>
      (parityToCallFrame e.1 e.2).map fun frame => ⟨frame, txHash txs k⟩

/-! ## Places and numbers -/

/-- Whether a trace has a frame. -/
def framed (t : RawTrace) : Bool := (parityToCallFrame t 0).isSome

theorem parityToCallFrame_none {t : RawTrace} (reward : framed t = false) (index : Nat) :
    parityToCallFrame t index = none := by
  unfold framed parityToCallFrame at reward
  unfold parityToCallFrame
  dsimp only at reward ⊢
  split at reward
  · cases reward
  · cases reward
  · cases reward
  · rfl

/-- The traces that have a frame, of one key. -/
def calls (raw : List RawTrace) (k : Nat) : List RawTrace := (byTx raw k).filter framed

/-- How many traces without a frame come before one. -/
def skipped (traces : List RawTrace) (t : RawTrace) : Nat :=
  (traces.takeWhile fun u => u ≠ t).countP fun u => !framed u

/-- A trace has the number of its place among those with a frame, and of all that was skipped. -/
theorem zipIdx_framed {traces : List RawTrace} (once : (traces.filter framed).Nodup) (n m : Nat) :
    (traces.zipIdx (n + m)).filter (fun e => framed e.1) =
      ((traces.filter framed).zipIdx n).map fun e => (e.1, e.2 + (m + skipped traces e.1)) := by
  induction traces generalizing n m with
  | nil => rfl
  | cons t traces ih =>
      rw [List.zipIdx_cons]
      by_cases frame : framed t = true
      · rw [List.filter_cons_of_pos frame] at once
        obtain ⟨absent, once⟩ := List.nodup_cons.1 once
        rw [List.filter_cons_of_pos (a := (t, n + m)) frame, List.filter_cons_of_pos frame,
          List.zipIdx_cons, List.map_cons, show n + m + 1 = n + 1 + m by omega, ih once]
        refine congrArg₂ _ ?_ (List.map_congr_left ?_)
        · simp [skipped]
        · intro e mem
          have other : t ≠ e.1 := by
            rintro rfl
            exact absent (List.fst_mem_of_mem_zipIdx mem)
          simp [skipped, other, frame]
      · rw [List.filter_cons_of_neg frame] at once
        rw [List.filter_cons_of_neg (a := (t, n + m)) frame, List.filter_cons_of_neg frame,
          show n + m + 1 = n + (m + 1) by omega, ih once]
        refine List.map_congr_left ?_
        intro e mem
        have other : t ≠ e.1 := by
          rintro rfl
          exact frame (List.mem_filter.1 (List.fst_mem_of_mem_zipIdx mem)).2
        simp [skipped, other, frame]
        omega

/-! ## The sorted group -/

/-- The traces at the root come first. -/
theorem roots_first {traces : List RawTrace}
    (ordered : traces.Pairwise fun a b => a.path ≤ b.path) :
    traces = traces.filter (fun t => t.path = []) ++ traces.filter (fun t => t.path ≠ []) := by
  induction traces with
  | nil => rfl
  | cons t traces ih =>
      obtain ⟨first, ordered⟩ := List.pairwise_cons.1 ordered
      by_cases root : t.path = []
      · rw [List.filter_cons_of_pos (by simpa using root),
          List.filter_cons_of_neg (by simpa using root), List.cons_append, ← ih ordered]
      · -- nothing behind it is at the root
        have none_ : traces.filter (fun u => u.path = []) = [] := by
          rw [List.filter_eq_nil_iff]
          intro u mem atRoot
          have le := first u mem
          rw [of_decide_eq_true atRoot] at le
          cases path : t.path with
          | nil => exact root path
          | cons i p =>
              rw [path] at le
              exact absurd (List.nil_lt_cons i p) (not_lt.2 le)
        have rest := ih ordered
        rw [none_, List.nil_append] at rest
        rw [List.filter_cons_of_neg (by simpa using root),
          List.filter_cons_of_pos (by simpa using root), none_, List.nil_append, ← rest]

/-- Sorting is stable: the traces at the root stay in the order they came in. -/
theorem sortTraces_roots (traces : List RawTrace) :
    (sortTraces traces).filter (fun t => t.path = []) = traces.filter fun t => t.path = [] := by
  have perm := (List.mergeSort_perm traces fun x y =>
    decide (Assembly.cmpTraceAddr x.path y.path ≤ 0)).filter fun t => t.path = []
  refine (List.Sublist.eq_of_length ?_ perm.length_eq.symm).symm
  have sub : (traces.filter fun t => t.path = []).Sublist (sortTraces traces) := by
    refine List.sublist_mergeSort ?_ ?_ ?_ List.filter_sublist
    · intro a b c first second
      rw [decide_eq_true_eq, cmpTraceAddr_le] at first second ⊢
      exact le_trans first second
    · intro a b
      rw [Bool.or_eq_true, decide_eq_true_eq, decide_eq_true_eq, cmpTraceAddr_le, cmpTraceAddr_le]
      exact le_total _ _
    · refine List.pairwise_of_forall_mem_list ?_
      intro a memA b memB
      rw [decide_eq_true_eq, cmpTraceAddr_le, of_decide_eq_true (List.mem_filter.1 memA).2]
      exact not_lt.1 (List.not_lt_nil b.path)
  have filtered := sub.filter fun t => decide (t.path = [])
  rwa [List.filter_filter, List.filter_congr (q := fun t => decide (t.path = []))] at filtered
  intro t _
  exact Bool.and_self _

/-- The calls of a group, sorted, are those of the walk. -/
theorem sortTraces_calls {raw : List RawTrace} {k : Nat}
    (tree : Tree RawTrace.path (calls raw k)) :
    (sortTraces (byTx raw k)).filter framed =
      (preorder RawTrace.path RawTrace.ownError (calls raw k)).map Prod.fst :=
  tree.sorted_eq ((List.mergeSort_perm _ _).filter framed)
    ((sortTraces_ordered (byTx raw k)).filter framed)

/-! ## What rewards do to the ranks -/

/-- By how much the rewards of a block move a call of a transaction: by all of them in transaction
0, and its root by those that came before it. -/
def shift (raw : List RawTrace) (k : Nat) (t : RawTrace) : Nat :=
  if k ≠ 0 then 0
  else if t.path = [] then skipped raw t
  else raw.countP fun u => !framed u

theorem takeWhile_append_mem {α : Type} [DecidableEq α] {a : α} {xs : List α} (mem : a ∈ xs)
    (ys : List α) :
    (xs ++ ys).takeWhile (fun x => x ≠ a) = xs.takeWhile fun x => x ≠ a := by
  induction xs with
  | nil => cases mem
  | cons x xs ih =>
      by_cases here : x = a
      · simp [here]
      · have later := (List.mem_cons.1 mem).resolve_left (Ne.symm here)
        simpa [here] using ih later

theorem takeWhile_filter_mem {α : Type} [DecidableEq α] {a : α} {q : α → Bool} (holds : q a = true)
    (xs : List α) :
    (xs.filter q).takeWhile (fun x => x ≠ a) = (xs.takeWhile fun x => x ≠ a).filter q := by
  induction xs with
  | nil => rfl
  | cons x xs ih =>
      by_cases here : x = a
      · simp [here, holds]
      · by_cases kept : q x = true
        · simpa [here, kept] using ih
        · simpa [here, kept] using ih

section Rewards

variable {raw : List RawTrace}
variable (rewards : ∀ t ∈ raw, framed t = false → t.transactionIndex = none ∧ t.path = [])

include rewards

/-- Only the group of transaction 0 has rewards, and these are at its root. -/
theorem countP_rewards {k : Nat} {part : List RawTrace} (sub : part ⊆ raw) :
    (part.filter fun t => txKey t = k ∧ t.path = []).countP (fun u => !framed u) =
      if k = 0 then part.countP fun u => !framed u else 0 := by
  rw [List.countP_filter]
  split
  next zero =>
    refine List.countP_congr ?_
    intro t mem
    cases reward : framed t with
    | true => simp
    | false =>
        obtain ⟨noTx, root⟩ := rewards t (sub mem) reward
        simp [txKey, noTx, root, zero]
  next other =>
    rw [List.countP_eq_zero]
    intro t mem
    cases reward : framed t with
    | true => simp
    | false =>
        obtain ⟨noTx, -⟩ := rewards t (sub mem) reward
        simp [txKey, noTx, Ne.symm other]

/-- What stands before a call in its sorted group. -/
theorem skipped_sortTraces {k : Nat} {t : RawTrace} (mem : t ∈ byTx raw k) :
    skipped (sortTraces (byTx raw k)) t = shift raw k t := by
  have roots : (byTx raw k).filter (fun t => t.path = []) =
      raw.filter fun t => txKey t = k ∧ t.path = [] := by
    unfold byTx
    rw [List.filter_filter]
    refine List.filter_congr fun t _ => ?_
    simp [Bool.and_comm]
  have split := roots_first (sortTraces_ordered (byTx raw k))
  rw [sortTraces_roots, roots] at split
  unfold skipped shift
  rw [split]
  obtain ⟨inRaw, key⟩ := List.mem_filter.1 mem
  have key := of_decide_eq_true key
  by_cases root : t.path = []
  · -- the root, with some rewards before it
    rw [takeWhile_append_mem (List.mem_filter.2 ⟨inRaw, by simp [key, root]⟩),
      takeWhile_filter_mem (by simp [key, root]),
      countP_rewards rewards fun u mem => (List.takeWhile_subset _ mem)]
    by_cases zero : k = 0
    · simp [zero, root, skipped]
    · simp [zero]
  · -- a call below it, with all rewards before it
    rw [List.takeWhile_append_of_pos, List.countP_append,
      countP_rewards rewards (List.Subset.refl _)]
    · have none_ : ((((sortTraces (byTx raw k)).filter fun t => t.path ≠ []).takeWhile
          fun u => u ≠ t).countP fun u => !framed u) = 0 := by
        rw [List.countP_eq_zero]
        intro u memU
        obtain ⟨sorted, below⟩ := List.mem_filter.1 (List.takeWhile_subset _ memU)
        have inRaw : u ∈ raw := List.mem_of_mem_filter (mem_sortTraces.1 sorted)
        cases reward : framed u with
        | true => simp
        | false => simp [(rewards u inRaw reward).2] at below
      rw [none_, Nat.add_zero]
      by_cases zero : k = 0
      · simp [zero, root]
      · simp [zero]
    · intro u memU
      have atRoot := (of_decide_eq_true (List.mem_filter.1 memU).2).2
      rw [decide_eq_true_eq]
      rintro rfl
      exact root atRoot

end Rewards

theorem type_of_framed {t : RawTrace} (frame : framed t = true) :
    t.type = some "call" ∨ t.type = some "create" ∨ t.type = some "suicide" := by
  unfold framed parityToCallFrame at frame
  dsimp only at frame
  split at frame
  next is => exact .inl is
  next is => exact .inr (.inl is)
  next is => exact .inr (.inr is)
  next => cases frame

/-- What has a frame here has one in the main transform. -/
theorem framed_main {t : RawTrace} (frame : framed t = true) (index : Nat) :
    ∃ f, Assembly.parityToCallFrame t index = some f := by
  refine Option.isSome_iff_exists.1 ?_
  unfold Assembly.parityToCallFrame
  rcases type_of_framed frame with is | is | is
  · rw [is]
    rfl
  · rw [is]
    rfl
  · rw [is]
    rfl

/-- The rows of a block are, transaction by transaction, those of the recursive walk of its call
tree, in whatever order the traces came; the index of a row is its place in the walk, which is the
rank that the main transform gives it, and in transaction 0 the rewards are counted in. -/
theorem toSyncTraces_places (txs : List RawTx) {raw : List RawTrace}
    (forest : ∀ k, Tree RawTrace.path (calls raw k))
    (rewards : ∀ t ∈ raw, framed t = false → t.transactionIndex = none ∧ t.path = []) :
    toSyncTraces txs raw = (((raw.map txKey).eraseDups).flatMap fun k =>
      (preorder RawTrace.path RawTrace.ownError (calls raw k)).zipIdx.filterMap fun e =>
        (parityToCallFrame e.1.1 (e.2 + shift raw k e.1.1)).map fun frame =>
          ⟨frame, txHash txs k⟩) ∧
    ∀ k, (Assembly.rankTraces (calls raw k)).map (fun r => (r.traceAddress, r.index)) =
      (preorder RawTrace.path RawTrace.ownError (calls raw k)).zipIdx.map fun e =>
        (e.1.1.path, e.2) := by
  constructor
  · unfold toSyncTraces
    congr 1
    funext k
    have once : ((sortTraces (byTx raw k)).filter framed).Nodup := by
      rw [sortTraces_calls (forest k)]
      exact ((forest k).preorder_perm.nodup_iff).2 (forest k).nodup
    have numbered := zipIdx_framed once 0 0
    rw [sortTraces_calls (forest k), List.zipIdx_map, List.map_map] at numbered
    -- what has no frame has no row
    have rows : ∀ l : List (RawTrace × Nat),
        (l.filterMap fun e => (parityToCallFrame e.1 e.2).map fun frame =>
          (⟨frame, txHash txs k⟩ : SyncTrace)) =
        (l.filter fun e => framed e.1).filterMap fun e =>
          (parityToCallFrame e.1 e.2).map fun frame => (⟨frame, txHash txs k⟩ : SyncTrace) := by
      intro l
      rw [List.filterMap_filter]
      congr 1
      funext e
      cases frame : framed e.1 with
      | true => rfl
      | false => rw [parityToCallFrame_none frame]; rfl
    rw [rows, numbered, List.filterMap_map]
    refine List.filterMap_congr fun e mem => ?_
    have visited := List.fst_mem_of_mem_zipIdx mem
    have inGroup : e.1.1 ∈ byTx raw k :=
      List.mem_of_mem_filter (PathTree.walk_under visited).1
    have before := skipped_sortTraces rewards inGroup
    simp [before]
  · intro k
    rw [Assembly.rankTraces_eq (forest k)]
    unfold Assembly.referenceTraces
    refine Assembly.filterMap_map_of_some fun e mem => ?_
    have visited := List.fst_mem_of_mem_zipIdx mem
    obtain ⟨f, is⟩ := framed_main (List.mem_filter.1 (PathTree.walk_under visited).1).2 e.2
    exact ⟨_, by rw [is]; rfl, rfl⟩

def sampleCall (transactionIndex : Nat) (address : List Nat) : RawTrace where
  transactionIndex := some transactionIndex
  traceAddress := some address
  type := some "call"
  action := []
  result := []
  props := []

/-- A block reward, and calls of two transactions. -/
def rewarded : List RawTrace :=
  [{ sampleCall 0 [] with transactionIndex := none, type := some "reward" },
    sampleCall 1 [], sampleCall 0 [0], sampleCall 0 []]

theorem toSyncTraces_places_sample :
    (toSyncTraces [] rewarded).map (fun r => r.trace.index) = [1, 2, 0] := by
  have forest : ∀ k, Tree RawTrace.path (calls rewarded k) := by
    intro k
    by_cases zero : k = 0
    · subst zero
      exact .of_dropLast (by decide +kernel) (by decide +kernel)
    · by_cases one : k = 1
      · subst one
        exact .of_dropLast (by decide +kernel) (by decide +kernel)
      · have none_ : calls rewarded k = [] := by
          have zero := Ne.symm zero
          have one := Ne.symm one
          simp [calls, byTx, rewarded, txKey, sampleCall, zero, one]
        rw [none_]
        exact .of_dropLast nofun List.nodup_nil
  rw [(toSyncTraces_places [] forest (by decide +kernel)).1]
  decide +kernel

end PortalPonder.PortalSync
