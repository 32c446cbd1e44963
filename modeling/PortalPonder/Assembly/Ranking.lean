import PortalPonder.Assembly.Range
import PortalPonder.Lib.PathTree

/-!
# Ranks and errors are those of the call tree

The traces of a transaction are a tree, given by the addresses. `rankTraces` sorts them and hands the
errors down by address; `referenceTraces` walks the tree, hands the errors down from caller to call
and counts. They agree on every tree, in whatever order the traces come, and the matching that
follows changes nothing but the gas of a root.
-/

namespace PortalPonder.Assembly

open Historical (Children)
open PathTree (Tree preorder nearest nodeAt)

/-! ## The reference -/

/-- The error of a trace itself. -/
def RawTrace.ownError (t : RawTrace) : Option TraceError :=
  match (prop t.props "error").orElse .undefined with
  | .undefined => none
  | error => some { error, revertReason := (prop t.props "revertReason").orElse .undefined }

/-- A frame with the error that reaches it. -/
def failing (reaches : Option TraceError) (frame : CallFrame) : CallFrame :=
  match reaches with
  | none => frame
  | some e => { frame with error := e.error, revertReason := e.revertReason }

/-- The frames in the order of the recursive walk, each with its place in it. -/
def referenceTraces (traces : List RawTrace) : List RankedTrace :=
  (preorder RawTrace.path RawTrace.ownError traces).zipIdx.filterMap fun e =>
    (parityToCallFrame e.1.1 e.2).map fun frame =>
      { frame := failing e.1.2 frame
        index := e.2
        traceAddress := e.1.1.path }

/-! ## The order of addresses -/

theorem cmpTraceAddr_le {a b : List Nat} : cmpTraceAddr a b ≤ 0 ↔ a ≤ b := by
  rw [← not_lt (a := b) (b := a)]
  induction a generalizing b with
  | nil =>
      cases b with
      | nil => simp [cmpTraceAddr]
      | cons y b =>
          unfold cmpTraceAddr
          refine iff_of_true ?_ (List.not_lt_nil _)
          rw [List.length_cons]
          omega
  | cons x a ih =>
      cases b with
      | nil =>
          unfold cmpTraceAddr
          refine iff_of_false ?_ fun above => above (List.nil_lt_cons x a)
          rw [List.length_cons]
          omega
      | cons y b =>
          unfold cmpTraceAddr
          rw [List.cons_lt_cons_iff]
          by_cases same : x = y
          · subst same
            rw [if_neg (fun differ => differ rfl), ih]
            simp
          · rw [if_pos same]
            omega

theorem sortTraces_ordered (traces : List RawTrace) :
    (sortTraces traces).Pairwise fun a b => a.path ≤ b.path := by
  unfold sortTraces
  refine (List.pairwise_mergeSort ?_ ?_ traces).imp fun le => ?_
  · intro a b c first second
    rw [decide_eq_true_eq, cmpTraceAddr_le] at first second ⊢
    exact le_trans first second
  · intro a b
    rw [Bool.or_eq_true, decide_eq_true_eq, decide_eq_true_eq, cmpTraceAddr_le, cmpTraceAddr_le]
    exact le_total _ _
  · exact cmpTraceAddr_le.1 (of_decide_eq_true le)

/-- The sorted traces are those of the walk. -/
theorem sortTraces_eq {traces : List RawTrace} (tree : Tree RawTrace.path traces) :
    sortTraces traces = (preorder RawTrace.path RawTrace.ownError traces).map Prod.fst :=
  tree.sorted_eq (List.mergeSort_perm _ _) (sortTraces_ordered traces)

/-! ## Errors -/

/-- The step of the loop over the sorted traces. -/
def cascadeStep (effective : OrdMap (List Nat) TraceError) (t : RawTrace) :
    OrdMap (List Nat) TraceError :=
  match t.ownError with
  | none =>
      if t.path = [] then effective
      else
        match effective.get? t.path.dropLast with
        | none => effective
        | some parentError => effective.set t.path parentError
  | some own => effective.set t.path own

theorem cascadeTraceErrors_eq (sorted : List RawTrace) :
    cascadeTraceErrors sorted = sorted.foldl cascadeStep OrdMap.empty := by
  unfold cascadeTraceErrors
  congr 1
  funext effective t
  unfold cascadeStep RawTrace.ownError
  cases (prop t.props "error").orElse .undefined <;> rfl

theorem sortTraces_pairwise {traces : List RawTrace} (tree : Tree RawTrace.path traces) :
    (sortTraces traces).Pairwise fun a b => a.path < b.path := by
  rw [sortTraces_eq tree]
  exact List.pairwise_map.2 PathTree.preorder_pairwise

/-- The caller of a trace comes before it. -/
theorem caller_before {traces before after : List RawTrace} {t : RawTrace} {p : List Nat} {i : Nat}
    (tree : Tree RawTrace.path traces) (split : sortTraces traces = before ++ t :: after)
    (is : t.path = p ++ [i]) : ∃ c ∈ before, c.path = p := by
  have mem : t ∈ traces := by
    rw [← mem_sortTraces, split]
    exact List.mem_append_right _ List.mem_cons_self
  obtain ⟨c, memC, isC⟩ := tree.closed t mem p i is
  refine ⟨c, ?_, isC⟩
  have lt : c.path < t.path := by
    rw [isC, is]
    exact PathTree.prefix_lt p i []
  have ordered := sortTraces_pairwise tree
  rw [← mem_sortTraces, split] at memC
  rw [split] at ordered
  rcases List.mem_append.1 memC with early | late
  · exact early
  · rcases List.mem_cons.1 late with rfl | later
    · exact absurd lt (lt_irrefl _)
    · have gt := List.rel_of_pairwise_cons (List.pairwise_append.1 ordered).2.1 later
      exact absurd (lt_trans lt gt) (lt_irrefl _)

/-- What the map holds after some of the sorted traces: what reaches these, and nothing else. -/
structure Cascaded (traces before : List RawTrace) (effective : OrdMap (List Nat) TraceError) :
    Prop where
  reached : ∀ t ∈ before, effective.get? t.path =
    nearest RawTrace.path RawTrace.ownError traces t.path
  others : ∀ q, (∀ t ∈ before, t.path ≠ q) → effective.get? q = none

/-- A trace enters the map with what reaches it. -/
theorem Cascaded.step {traces before after : List RawTrace} {t : RawTrace}
    {effective : OrdMap (List Nat) TraceError} (tree : Tree RawTrace.path traces)
    (split : sortTraces traces = before ++ t :: after) (cascaded : Cascaded traces before effective) :
    Cascaded traces (before ++ [t]) (cascadeStep effective t) := by
  have mem : t ∈ traces := by
    rw [← mem_sortTraces, split]
    exact List.mem_append_right _ List.mem_cons_self
  have ordered := sortTraces_pairwise tree
  rw [split] at ordered
  have new : ∀ u ∈ before, u.path ≠ t.path := by
    intro u memU same
    have lt := (List.pairwise_append.1 ordered).2.2 u memU t List.mem_cons_self
    rw [same] at lt
    exact lt_irrefl _ lt
  have here : (cascadeStep effective t).get? t.path =
      nearest RawTrace.path RawTrace.ownError traces t.path := by
    unfold cascadeStep
    rcases List.eq_nil_or_concat t.path with root | ⟨p, i, is⟩
    · have near : nearest RawTrace.path RawTrace.ownError traces t.path = t.ownError := by
        have found := tree.nodeAt_path mem
        rw [root] at found ⊢
        rw [PathTree.nearest_nil, found]
        rfl
      rw [near]
      cases t.ownError with
      | none =>
          dsimp only
          rw [if_pos root]
          exact cascaded.others _ new
      | some own => exact OrdMap.get?_set_self _ _ _
    · rw [List.concat_eq_append] at is
      have near : nearest RawTrace.path RawTrace.ownError traces t.path =
          t.ownError.or (nearest RawTrace.path RawTrace.ownError traces p) := by
        have found := tree.nodeAt_path mem
        rw [is] at found ⊢
        rw [PathTree.nearest_snoc, found]
        rfl
      rw [near]
      obtain ⟨c, memC, isC⟩ := caller_before tree split is
      have caller := cascaded.reached c memC
      rw [isC] at caller
      have drop : t.path.dropLast = p := by
        rw [is, List.dropLast_concat]
      cases t.ownError with
      | none =>
          dsimp only
          rw [if_neg (fun root => by rw [root] at is; exact absurd is.symm (by simp)), drop, caller,
            Option.none_or]
          cases nearest RawTrace.path RawTrace.ownError traces p with
          | none => exact cascaded.others _ new
          | some e => exact OrdMap.get?_set_self _ _ _
      | some own => exact OrdMap.get?_set_self _ _ _
  have frame : ∀ q, q ≠ t.path → (cascadeStep effective t).get? q = effective.get? q := by
    intro q other
    unfold cascadeStep
    cases t.ownError with
    | none =>
        dsimp only
        split
        · rfl
        · split
          · rfl
          · exact OrdMap.get?_set_of_ne _ _ other
    | some own => exact OrdMap.get?_set_of_ne _ _ other
  constructor
  · intro u memU
    rcases List.mem_append.1 memU with old | last
    · rw [frame _ (new u old)]
      exact cascaded.reached u old
    · rw [List.mem_singleton.1 last]
      exact here
  · intro q none_
    rw [frame q fun is => none_ t (List.mem_append_right _ (List.mem_singleton.2 rfl)) is.symm]
    exact cascaded.others q fun u memU => none_ u (List.mem_append_left _ memU)

theorem cascaded_before {traces before after : List RawTrace} (tree : Tree RawTrace.path traces)
    (split : sortTraces traces = before ++ after) :
    Cascaded traces before (before.foldl cascadeStep OrdMap.empty) := by
  induction before using List.reverseRecOn generalizing after with
  | nil =>
      refine ⟨fun t mem => ?_, fun q _ => OrdMap.get?_empty q⟩
      cases mem
  | append_singleton before t ih =>
      rw [List.append_assoc] at split
      rw [List.foldl_append]
      exact (ih split).step tree split

theorem cascaded_sorted {traces : List RawTrace} (tree : Tree RawTrace.path traces) {t : RawTrace}
    (mem : t ∈ traces) :
    (cascadeTraceErrors (sortTraces traces)).get? t.path =
      nearest RawTrace.path RawTrace.ownError traces t.path := by
  rw [cascadeTraceErrors_eq]
  exact (cascaded_before tree (List.append_nil _).symm).reached t (mem_sortTraces.2 mem)

theorem withError_eq (effectiveErrors : OrdMap (List Nat) TraceError) (p : List Nat)
    (frame : CallFrame) :
    withError effectiveErrors p frame = failing (effectiveErrors.get? p) frame := by
  unfold withError failing
  cases effectiveErrors.get? p <;> rfl

/-- Sorting and handing down by address is the recursive walk. -/
theorem rankTraces_eq {traces : List RawTrace} (tree : Tree RawTrace.path traces) :
    rankTraces traces = referenceTraces traces := by
  unfold rankTraces referenceTraces
  dsimp only
  have members : ∀ e ∈ preorder RawTrace.path RawTrace.ownError traces, e.1 ∈ traces :=
    fun e mem => (PathTree.walk_under mem).1
  have reaches : ∀ e ∈ preorder RawTrace.path RawTrace.ownError traces,
      (cascadeTraceErrors (sortTraces traces)).get? e.1.path = e.2 := fun e mem =>
    (cascaded_sorted tree (members e mem)).trans (PathTree.preorder_nearest e mem).symm
  generalize cascadeTraceErrors (sortTraces traces) = effectiveErrors at reaches ⊢
  rw [sortTraces_eq tree, List.zipIdx_map, List.filterMap_map]
  refine List.filterMap_congr fun e mem => ?_
  have visited := List.fst_mem_of_mem_zipIdx mem
  simp only [Function.comp_apply, Prod.map_fst, Prod.map_snd, id_eq, withError_eq,
    reaches e.1 visited]

/-! ## Ranks -/

theorem filterMap_map_of_some {α β γ : Type} {f : α → Option β} {g : β → γ} {h : α → γ}
    {items : List α} (some_ : ∀ a ∈ items, ∃ b, f a = some b ∧ g b = h a) :
    (items.filterMap f).map g = items.map h := by
  induction items with
  | nil => rfl
  | cons a rest ih =>
      obtain ⟨b, is, same⟩ := some_ a List.mem_cons_self
      rw [List.filterMap_cons_some is, List.map_cons, List.map_cons, same,
        ih fun a mem => some_ a (List.mem_cons_of_mem _ mem)]

theorem exists_frame {t : RawTrace} (frame : (parityToCallFrame t 0).isSome = true) (index : Nat) :
    ∃ f, parityToCallFrame t index = some f := by
  rw [parityToCallFrame_index t index 0]
  obtain ⟨f, is⟩ := Option.isSome_iff_exists.1 frame
  exact ⟨_, congrArg (Option.map _) is⟩

/-- Where every trace has a frame no rank is left out. -/
theorem referenceTraces_index {traces : List RawTrace} (tree : Tree RawTrace.path traces)
    (frames : ∀ t ∈ traces, (parityToCallFrame t 0).isSome = true) :
    (referenceTraces traces).map RankedTrace.index = List.range traces.length := by
  have length : (preorder RawTrace.path RawTrace.ownError traces).length = traces.length := by
    rw [← List.length_map Prod.fst]
    exact tree.preorder_perm.length_eq
  have places : (referenceTraces traces).map RankedTrace.index =
      (preorder RawTrace.path RawTrace.ownError traces).zipIdx.map Prod.snd := by
    refine filterMap_map_of_some fun e mem => ?_
    have visited := List.fst_mem_of_mem_zipIdx mem
    obtain ⟨f, is⟩ := exists_frame (frames _ (PathTree.walk_under visited).1) e.2
    exact ⟨_, by rw [is]; rfl, rfl⟩
  rw [places, List.zipIdx_map_snd, length, List.range_eq_range']

/-- What the frame of a trace says: its place in the walk, and the error of the nearest ancestor
that has one, itself included. -/
structure Placed (traces : List RawTrace) (r : RankedTrace) : Prop where
  place : ∃ t ∈ traces, t.path = r.traceAddress ∧
    ((preorder RawTrace.path RawTrace.ownError traces).map Prod.fst)[r.index]? = some t ∧
    ∃ frame, parityToCallFrame t r.index = some frame ∧
      r.frame = failing (nearest RawTrace.path RawTrace.ownError traces t.path) frame
  rank : r.frame.index = r.index

theorem failing_index (reaches : Option TraceError) (frame : CallFrame) :
    (failing reaches frame).index = frame.index := by
  cases reaches <;> rfl

theorem frame_index {t : RawTrace} {index : Nat} {frame : CallFrame}
    (is : parityToCallFrame t index = some frame) : frame.index = index := by
  rw [parityToCallFrame_index t index 0] at is
  obtain ⟨frame₀, -, rfl⟩ := Option.map_eq_some_iff.1 is
  rfl

theorem placed_of_reference {traces : List RawTrace} {r : RankedTrace}
    (mem : r ∈ referenceTraces traces) : Placed traces r := by
  obtain ⟨⟨⟨t, reaches⟩, i⟩, visited, ranked⟩ := List.mem_filterMap.1 mem
  obtain ⟨frame, isFrame, rfl⟩ := Option.map_eq_some_iff.1 ranked
  have inWalk := List.fst_mem_of_mem_zipIdx visited
  have near : reaches = nearest RawTrace.path RawTrace.ownError traces t.path :=
    PathTree.preorder_nearest _ inWalk
  refine ⟨⟨t, (PathTree.walk_under inWalk).1, rfl, ?_, frame, isFrame, ?_⟩, ?_⟩
  · rw [List.getElem?_map, List.mem_zipIdx_iff_getElem?.1 visited]
    rfl
  · rw [← near]
  · exact (failing_index reaches frame).trans (frame_index isFrame)

/-- The order in which the traces come does not matter. -/
theorem rankTraces_perm {traces traces' : List RawTrace} (tree : Tree RawTrace.path traces)
    (perm : traces'.Perm traces) : rankTraces traces' = rankTraces traces := by
  have sorted : sortTraces traces' = sortTraces traces := by
    rw [sortTraces_eq tree]
    exact tree.sorted_eq ((List.mergeSort_perm _ _).trans perm) (sortTraces_ordered traces')
  unfold rankTraces
  rw [sorted]

/-! ## Matching -/

variable {F : Type}

/-- The traces of one transaction of a block. -/
def TraceBlock.tracesOf (tb : TraceBlock) (k : Option Nat) : List RawTrace :=
  (tb.traces.filter RawTrace.ranked).filter fun t => t.transactionIndex = k

/-- A kept trace is a ranked one of its transaction; at most the gas of a root is another. -/
structure KeptRank (cd : ChunkData) (m : MatchedTrace) (r : RankedTrace) : Prop where
  ranked : ∃ bn tb k, cd.traceBlocks.get? bn = some tb ∧ r ∈ rankTraces (tb.tracesOf k) ∧
    m.header = tb.header ∧ m.parent = tb.txs.reverse.find? fun tx => tx.transactionIndex = k
  /-- index, error and all else are those of the ranked frame -/
  frame : m.row.frame = { r.frame with gas := m.row.frame.gas }
  gas : m.row.frame.gas = r.frame.gas ∨ r.traceAddress = [] ∧
    ∃ tx, m.parent = some tx ∧ m.row.frame.gas = hx (prop tx.props "gas")

theorem withRootGas_cases (parent : Option RawTx) (r : RankedTrace) :
    withRootGas parent r = r.frame ∨ r.traceAddress = [] ∧
      ∃ tx, parent = some tx ∧ withRootGas parent r = { r.frame with gas := hx (prop tx.props "gas") } := by
  cases parent with
  | none => exact .inl rfl
  | some tx =>
      unfold withRootGas
      rw [Option.map_some]
      split
      · exact .inl rfl
      · exact .inl rfl
      · exact .inl rfl
      · next gas _ _ is =>
          cases is
          by_cases root : r.traceAddress = []
          · rw [if_pos root]
            exact .inr ⟨root, tx, rfl, rfl⟩
          · rw [if_neg root]
            exact .inl rfl

theorem keptRank_of_buildTraces {spec : Spec F} {upstream : TraceMatching F}
    {known : Children F Address} {lo hi : Nat} {cd : ChunkData} {m : MatchedTrace}
    (mem : m ∈ buildTraces spec upstream known lo hi cd) : ∃ r, KeptRank cd m r := by
  unfold buildTraces at mem
  obtain ⟨⟨bn, tb⟩, entry, mem⟩ := List.mem_flatMap.1 mem
  have here := cd.traceBlocks.get?_of_mem (List.mem_filter.1 entry).1
  unfold blockTraces at mem
  obtain ⟨k, -, mem⟩ := List.mem_flatMap.1 mem
  obtain ⟨r, inRanked, kept⟩ := List.mem_filterMap.1 mem
  dsimp only at kept
  split at kept
  · cases kept
    refine ⟨r, ⟨bn, tb, k, here, inRanked, rfl, rfl⟩, ?_, ?_⟩
    all_goals dsimp only
    all_goals rcases withRootGas_cases (tb.txs.reverse.find? fun tx => tx.transactionIndex = k) r with
      same | ⟨root, tx, is, same⟩
    all_goals rw [same]
    · exact .inl rfl
    · exact .inr ⟨root, tx, is, rfl⟩
  · cases kept

/-- Ranking is the recursive walk of the call tree, whatever the order of the traces: the frames come
in the order of the walk with their place in it, an error is that of the nearest ancestor that has
one, and the frames that are kept keep both. -/
theorem trace_ranking {traces : List RawTrace} (tree : Tree RawTrace.path traces) :
    rankTraces traces = referenceTraces traces ∧
    (∀ r ∈ rankTraces traces, Placed traces r) ∧
    ((∀ t ∈ traces, (parityToCallFrame t 0).isSome = true) →
      (rankTraces traces).map RankedTrace.index = List.range traces.length) ∧
    (∀ traces', traces'.Perm traces → rankTraces traces' = rankTraces traces) ∧
    ∀ (F : Type) (spec : Spec F) (upstream : TraceMatching F) (known : Children F Address)
      (lo hi : Nat) (cd : ChunkData), ∀ m ∈ buildTraces spec upstream known lo hi cd,
      ∃ r, KeptRank cd m r := by
  refine ⟨rankTraces_eq tree, fun r mem => ?_, fun frames => ?_, fun _ => rankTraces_perm tree,
    fun _ _ _ _ _ _ _ _ => keptRank_of_buildTraces⟩
  · rw [rankTraces_eq tree] at mem
    exact placed_of_reference mem
  · rw [rankTraces_eq tree]
    exact referenceTraces_index tree frames

/-- A call at an address, with its error if it has one. -/
def treeCall (address : List Nat) (error : JsVal) : RawTrace where
  transactionIndex := some 0
  traceAddress := some address
  type := some "call"
  action := []
  result := []
  props := [("error", error)]

/-- A wide tree: a failed call with two calls below it, one of which fails by itself. -/
def treeCalls : List RawTrace :=
  [treeCall [10, 0] .null, treeCall [2] (.str "reverted"), treeCall [] .null,
    treeCall [2, 11] .null, treeCall [10] .null, treeCall [2, 3] (.str "out of gas")]

/-- The second child comes before the tenth, and an error goes down to what has none. -/
theorem trace_ranking_sample :
    (rankTraces treeCalls).map (fun r => (r.traceAddress, r.index, r.frame.error)) =
      [([], 0, .undefined), ([2], 1, .str "reverted"), ([2, 3], 2, .str "out of gas"),
        ([2, 11], 3, .str "reverted"), ([10], 4, .undefined), ([10, 0], 5, .undefined)] := by
  have tree : Tree RawTrace.path treeCalls := .of_dropLast (by decide +kernel) (by decide +kernel)
  rw [(trace_ranking tree).1]
  decide +kernel

end PortalPonder.Assembly
