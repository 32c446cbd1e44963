import Mathlib.Data.List.Lex
import Mathlib.Data.List.Induction
import Mathlib.Data.List.Infix
import Mathlib.Data.List.Nodup

/-!
# Trees given by their paths

A tree can be given flat: each node has a path, the path of a child is that of its parent with one
number more, and no path is given twice. `preorder` is the recursive walk, which visits a node
before its children and these in the order of their numbers, and hands what a node has of its own
down to the nodes below that have nothing. The walk lists the nodes in the lexicographic order of
their paths, and what reaches a node is what its nearest ancestor has, itself included.
-/

namespace PathTree

variable {α β : Type} {path : α → List Nat} {own : α → Option β} {items : List α}

/-- The nodes of a tree. -/
structure Tree (path : α → List Nat) (items : List α) : Prop where
  closed : ∀ a ∈ items, ∀ p i, path a = p ++ [i] → ∃ b ∈ items, path b = p
  distinct : (items.map path).Nodup

/-- Closedness in one test for each node. -/
theorem Tree.of_dropLast
    (closed : ∀ a ∈ items, path a = [] ∨ ∃ b ∈ items, path b = (path a).dropLast)
    (distinct : (items.map path).Nodup) : Tree path items where
  closed := by
    intro a mem p i is
    rcases closed a mem with root | ⟨b, memB, isB⟩
    · rw [root] at is
      exact absurd is.symm (by simp)
    · refine ⟨b, memB, ?_⟩
      rw [isB, is, List.dropLast_concat]
  distinct := distinct

/-! ## The walk -/

section Walk

variable (path own items)

def nodeAt (p : List Nat) : Option α := items.find? fun a => path a = p

/-- More than every number of a path. -/
def width : Nat := (items.flatMap path).foldr max 0 + 1

/-- More than the length of every path. -/
def depth : Nat := (items.map fun a => (path a).length).foldr max 0 + 1

/-- The numbers of the children. -/
def childrenAt (p : List Nat) : List Nat :=
  (List.range (width path items)).filter fun i => items.any fun a => path a = p ++ [i]

/-- The nodes under `p`, at most `n` deep, with what reaches them. -/
def walk : Nat → List Nat → Option β → List (α × Option β)
  | 0, _, _ => []
  | n + 1, p, inherited =>
      match nodeAt path items p with
      | none => []
      | some a =>
          let reaches := (own a).or inherited
          (a, reaches) ::
            (childrenAt path items p).flatMap fun i => walk n (p ++ [i]) reaches

/-- The recursive walk from the root. -/
def preorder : List (α × Option β) := walk path own items (depth path items) [] none

/-- What the nearest ancestor has, the node itself included. -/
def nearest (p : List Nat) : Option β :=
  p.inits.reverse.findSome? fun q => (nodeAt path items q).bind own

end Walk

theorem nodeAt_some {p : List Nat} {a : α} (found : nodeAt path items p = some a) :
    a ∈ items ∧ path a = p :=
  ⟨List.mem_of_find?_eq_some found,
    of_decide_eq_true (List.find?_some (p := fun a => decide (path a = p)) found)⟩

theorem Tree.unique (tree : Tree path items) {a b : α} (memA : a ∈ items) (memB : b ∈ items)
    (same : path a = path b) : a = b :=
  List.inj_on_of_nodup_map tree.distinct memA memB same

theorem Tree.nodeAt_path (tree : Tree path items) {a : α} (mem : a ∈ items) :
    nodeAt path items (path a) = some a := by
  cases found : nodeAt path items (path a) with
  | none =>
      have differs := List.find?_eq_none.1 found a mem
      exact absurd (decide_eq_true rfl) differs
  | some b =>
      obtain ⟨mem', same⟩ := nodeAt_some found
      rw [tree.unique mem' mem same]

theorem le_foldr_max {ns : List Nat} {n : Nat} (mem : n ∈ ns) : n ≤ ns.foldr max 0 := by
  induction ns with
  | nil => cases mem
  | cons m rest ih =>
      rw [List.foldr_cons]
      rcases List.mem_cons.1 mem with rfl | later
      · exact Nat.le_max_left _ _
      · exact Nat.le_trans (ih later) (Nat.le_max_right _ _)

theorem lt_width {a : α} (mem : a ∈ items) {i : Nat} (here : i ∈ path a) : i < width path items :=
  Nat.lt_succ_of_le (le_foldr_max (List.mem_flatMap.2 ⟨a, mem, here⟩))

theorem length_lt_depth {a : α} (mem : a ∈ items) : (path a).length < depth path items :=
  Nat.lt_succ_of_le (le_foldr_max (List.mem_map.2 ⟨a, mem, rfl⟩))

theorem mem_childrenAt {p : List Nat} {i : Nat} :
    i ∈ childrenAt path items p ↔ ∃ a ∈ items, path a = p ++ [i] := by
  unfold childrenAt
  rw [List.mem_filter, List.mem_range, List.any_eq_true]
  constructor
  · rintro ⟨-, a, mem, is⟩
    exact ⟨a, mem, of_decide_eq_true is⟩
  · rintro ⟨a, mem, is⟩
    refine ⟨lt_width mem ?_, a, mem, decide_eq_true is⟩
    rw [is]
    exact List.mem_append_right _ (List.mem_singleton.2 rfl)

/-! ## The order of the walk -/

theorem prefix_lt (p : List Nat) (i : Nat) (rest : List Nat) : p < p ++ i :: rest := by
  induction p with
  | nil => exact List.nil_lt_cons i rest
  | cons x p ih => exact List.cons_lt_cons_iff.2 (.inr ⟨rfl, ih⟩)

theorem fork_lt (p : List Nat) {i j : Nat} (lt : i < j) (rest rest' : List Nat) :
    p ++ i :: rest < p ++ j :: rest' := by
  induction p with
  | nil => exact List.cons_lt_cons_iff.2 (.inl lt)
  | cons x p ih => exact List.cons_lt_cons_iff.2 (.inr ⟨rfl, ih⟩)

/-- The walk stays under its path. -/
theorem walk_under {n : Nat} {p : List Nat} {inherited : Option β} {e : α × Option β}
    (mem : e ∈ walk path own items n p inherited) : e.1 ∈ items ∧ p <+: path e.1 := by
  induction n generalizing p inherited with
  | zero => cases mem
  | succ n ih =>
      unfold walk at mem
      cases found : nodeAt path items p with
      | none =>
          rw [found] at mem
          cases mem
      | some a =>
          rw [found] at mem
          rcases List.mem_cons.1 mem with rfl | below
          · obtain ⟨here, is⟩ := nodeAt_some found
            exact ⟨here, is ▸ List.prefix_rfl⟩
          · obtain ⟨i, -, below⟩ := List.mem_flatMap.1 below
            obtain ⟨here, under⟩ := ih below
            exact ⟨here, (List.prefix_append p [i]).trans under⟩

/-- A node before its children, and these with all that is below them in their order. -/
theorem walk_pairwise (n : Nat) (p : List Nat) (inherited : Option β) :
    (walk path own items n p inherited).Pairwise fun x y => path x.1 < path y.1 := by
  induction n generalizing p inherited with
  | zero => exact List.Pairwise.nil
  | succ n ih =>
      unfold walk
      cases found : nodeAt path items p with
      | none => exact List.Pairwise.nil
      | some a =>
          dsimp only
          refine List.pairwise_cons.2 ⟨?_, List.pairwise_flatMap.2 ⟨fun i _ => ih _ _, ?_⟩⟩
          · intro e mem
            obtain ⟨i, -, below⟩ := List.mem_flatMap.1 mem
            obtain ⟨rest, is⟩ := (walk_under below).2
            rw [(nodeAt_some found).2, ← is, List.append_assoc]
            exact prefix_lt p i rest
          · refine List.Pairwise.filter _ (List.pairwise_lt_range.imp ?_)
            intro i j lt x memX y memY
            obtain ⟨rest, isX⟩ := (walk_under memX).2
            obtain ⟨rest', isY⟩ := (walk_under memY).2
            rw [← isX, ← isY, List.append_assoc, List.append_assoc]
            exact fork_lt p lt rest rest'

/-- Every path on the way to a node is one of a node. -/
theorem Tree.prefix_node (tree : Tree path items) {a : α} (mem : a ∈ items) {p : List Nat}
    (under : p <+: path a) : ∃ c ∈ items, path c = p := by
  obtain ⟨rest, is⟩ := under
  induction rest using List.reverseRecOn generalizing a with
  | nil => exact ⟨a, mem, by rw [← is, List.append_nil]⟩
  | append_singleton rest i ih =>
      rw [← List.append_assoc] at is
      obtain ⟨b, memB, isB⟩ := tree.closed a mem (p ++ rest) i is.symm
      exact ih memB isB.symm

/-- Every node under the path is visited. -/
theorem Tree.mem_walk (tree : Tree path items) {a : α} (mem : a ∈ items) (n : Nat) {p : List Nat}
    (inherited : Option β) (under : p <+: path a) (deep : (path a).length < p.length + n) :
    ∃ reaches, (a, reaches) ∈ walk path own items n p inherited := by
  induction n generalizing p inherited with
  | zero => exact absurd under.length_le (Nat.not_le.2 deep)
  | succ n ih =>
      obtain ⟨c, memC, isC⟩ := tree.prefix_node mem under
      obtain ⟨rest, is⟩ := under
      unfold walk
      rw [← isC, tree.nodeAt_path memC, isC]
      cases rest with
      | nil =>
          rw [List.append_nil] at is
          rw [tree.unique memC mem (isC.trans is)]
          exact ⟨_, List.mem_cons_self⟩
      | cons i rest =>
          have through : p ++ [i] <+: path a := ⟨rest, by rw [← is, List.append_assoc]; rfl⟩
          have deep' : (path a).length < (p ++ [i]).length + n := by
            rw [List.length_append, List.length_singleton]
            omega
          obtain ⟨reaches, below⟩ := ih ((own c).or inherited) through deep'
          have child : i ∈ childrenAt path items p := mem_childrenAt.2 (tree.prefix_node mem through)
          exact ⟨reaches, List.mem_cons_of_mem _ (List.mem_flatMap.2 ⟨i, child, below⟩)⟩

theorem preorder_pairwise :
    (preorder path own items).Pairwise fun x y => path x.1 < path y.1 :=
  walk_pairwise _ _ _

theorem Tree.mem_preorder (tree : Tree path items) {a : α} :
    a ∈ (preorder path own items).map Prod.fst ↔ a ∈ items := by
  rw [List.mem_map]
  constructor
  · rintro ⟨e, mem, rfl⟩
    exact (walk_under mem).1
  · intro mem
    have deep : (path a).length < ([] : List Nat).length + depth path items := by
      rw [List.length_nil, Nat.zero_add]
      exact length_lt_depth mem
    obtain ⟨reaches, visited⟩ :
        ∃ reaches, (a, reaches) ∈ walk path own items (depth path items) [] none :=
      tree.mem_walk mem _ none List.nil_prefix deep
    exact ⟨(a, reaches), visited, rfl⟩

theorem Tree.nodup (tree : Tree path items) : items.Nodup := tree.distinct.of_map

/-- The walk visits every node, once. -/
theorem Tree.preorder_perm (tree : Tree path items) :
    ((preorder path own items).map Prod.fst).Perm items := by
  refine (List.perm_ext_iff_of_nodup ?_ tree.nodup).2 fun a => tree.mem_preorder
  refine List.pairwise_map.2 (preorder_pairwise.imp ?_)
  rintro x y lt same
  rw [same] at lt
  exact lt_irrefl _ lt

/-- The nodes in the order of their paths are in the order of the walk. -/
theorem Tree.sorted_eq (tree : Tree path items) {sorted : List α} (perm : sorted.Perm items)
    (ordered : sorted.Pairwise fun a b => path a ≤ path b) :
    sorted = (preorder path own items).map Prod.fst := by
  refine List.Perm.eq_of_pairwise ?_ ordered ?_ (perm.trans tree.preorder_perm.symm)
  · intro a b memA memB le ge
    exact tree.unique (perm.mem_iff.1 memA) (tree.mem_preorder.1 memB) (le_antisymm le ge)
  · exact List.pairwise_map.2 (preorder_pairwise.imp fun lt => le_of_lt lt)

/-! ## What reaches a node -/

theorem nearest_nil : nearest path own items [] = (nodeAt path items []).bind own := by
  unfold nearest
  simp

theorem nearest_snoc (p : List Nat) (i : Nat) :
    nearest path own items (p ++ [i]) =
      ((nodeAt path items (p ++ [i])).bind own).or (nearest path own items p) := by
  have longest : (p ++ [i]).inits.reverse = (p ++ [i]) :: p.inits.reverse := by
    rw [List.inits_append]
    simp
  unfold nearest
  rw [longest, List.findSome?_cons]
  cases (nodeAt path items (p ++ [i])).bind own with
  | none => rfl
  | some b => rfl

/-- What is handed down along the walk is what the nearest ancestor has. -/
theorem walk_nearest {n : Nat} {p : List Nat} {inherited : Option β}
    (reached : ∀ a, nodeAt path items p = some a →
      nearest path own items p = (own a).or inherited) :
    ∀ e ∈ walk path own items n p inherited, e.2 = nearest path own items (path e.1) := by
  induction n generalizing p inherited with
  | zero =>
      intro e mem
      cases mem
  | succ n ih =>
      intro e mem
      unfold walk at mem
      cases found : nodeAt path items p with
      | none =>
          rw [found] at mem
          cases mem
      | some a =>
          rw [found] at mem
          have here := reached a found
          rcases List.mem_cons.1 mem with rfl | below
          · rw [(nodeAt_some found).2, here]
          · obtain ⟨i, -, below⟩ := List.mem_flatMap.1 below
            refine ih (fun b at_ => ?_) e below
            rw [nearest_snoc, at_, here]
            rfl

theorem preorder_nearest :
    ∀ e ∈ preorder path own items, e.2 = nearest path own items (path e.1) := by
  refine walk_nearest fun a found => ?_
  rw [nearest_nil, found]
  simp

end PathTree
