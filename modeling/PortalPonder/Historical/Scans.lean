import PortalPonder.Historical.Discovery
import Mathlib.Data.List.Basic

/-!
# The scans of a discovery

What holds of the planned scans, their promises and the two watermarks, whatever the event loop
runs next. There are three layers: the scans of a generation settle in the order they were
planned (`Ordered`); a resolved scan has recorded the children of its range, and covers with its
predecessors everything from where its coverage began (`Covering`); and the optimistic watermark
is the confirmed one, or the end of the last planned scan (`Ahead`).
-/

namespace PortalPonder.Historical

/-! ## Windows -/

theorem le_ceilDiv_mul {n d : Nat} (pos : 0 < d) : n ≤ d * ceilDiv n d := by
  unfold ceilDiv
  have split := Nat.div_add_mod (n + d - 1) d
  have rest := Nat.mod_lt (n + d - 1) pos
  omega

/-- A loop that stops at the first value past a bound reaches everything within it. -/
theorem mem_takeWhile_range {p : Int → Bool} {f : Nat → Int} {i n : Nat} (lt : i < n)
    (before : ∀ j, j ≤ i → p (f j) = true) : f i ∈ ((List.range n).map f).takeWhile p := by
  obtain ⟨k, rfl⟩ : ∃ k, n = (i + 1) + k := ⟨n - (i + 1), by omega⟩
  rw [List.range_add, List.map_append, List.takeWhile_append_of_pos]
  · exact List.mem_append_left _ (List.mem_map.2 ⟨i, List.mem_range.2 (Nat.lt_succ_self i), rfl⟩)
  · intro x mem
    obtain ⟨j, jlt, rfl⟩ := List.mem_map.1 mem
    exact before j (Nat.le_of_lt_succ (List.mem_range.1 jlt))

/-- The windows of a range cover it. -/
theorem splitWindows_cover {lo hi b : Int} (chunkBlocks discoveryWindows : Nat) (low : lo ≤ b)
    (high : b ≤ hi) :
    ∃ window ∈ splitWindows lo hi chunkBlocks discoveryWindows, window.1 ≤ b ∧ b ≤ window.2 := by
  let span := (hi - lo + 1).toNat
  let P := max 1 (min discoveryWindows (ceilDiv span chunkBlocks))
  let w := ceilDiv span P
  have width : span ≤ P * w := le_ceilDiv_mul (Nat.lt_of_lt_of_le Nat.one_pos (Nat.le_max_left _ _))
  obtain ⟨off, rfl⟩ : ∃ off : Nat, b = lo + off := ⟨(b - lo).toNat, by omega⟩
  have inside : off < P * w := by
    have total : (span : Int) = hi - lo + 1 := Int.toNat_of_nonneg (by omega)
    omega
  have pos : 0 < w := Nat.pos_of_mul_pos_left (Nat.lt_of_le_of_lt (Nat.zero_le _) inside)
  -- the window that holds `b`
  have index : off / w < P := (Nat.div_lt_iff_lt_mul pos).2 inside
  have split := Nat.div_add_mod off w
  have rest := Nat.mod_lt off pos
  have start : ∀ j, j ≤ off / w → lo + ((j * w : Nat) : Int) ≤ hi := by
    intro j le
    have mono := Nat.mul_le_mul_right w le
    rw [Nat.mul_comm w] at split
    omega
  refine ⟨_, List.mem_map.2 ⟨lo + ((off / w * w : Nat) : Int), ?_, rfl⟩, ?_, ?_⟩
  · refine mem_takeWhile_range (f := fun i => lo + ((i * w : Nat) : Int)) index fun j le => ?_
    exact decide_eq_true (start j le)
  · rw [Nat.mul_comm w] at split
    omega
  · rw [Nat.mul_comm w] at split
    refine le_min high ?_
    show lo + (off : Int) ≤ lo + ((off / w * w : Nat) : Int) + (w : Int) - 1
    omega

theorem windowWork_mem {F : Type} {factories : List F} {f : F} {window : Int × Int} {b : Int}
    (known : f ∈ factories) (low : window.1 ≤ b) (high : b ≤ window.2) :
    (f, b) ∈ Discovery.windowWork factories window := by
  refine List.mem_flatMap.2 ⟨f, known, List.mem_map.2 ⟨(b - window.1).toNat, ?_, ?_⟩⟩
  · rw [List.mem_range]
    omega
  · rw [Int.toNat_of_nonneg (by omega)]
    exact Prod.ext rfl (by simp)

variable {F A : Type}

namespace Discovery

/-- `scan` is the `i`-th planned one. -/
abbrev At (d : Discovery F A) (i : Nat) (scan : Scan F) : Prop := d.scans[i]? = some scan

/-- The children a factory creates in block `b` are known, each from `b` on at the latest. -/
def Recorded (deps : DiscoveryDeps F A) (d : Discovery F A) (f : F) (b : Int) : Prop :=
  ∀ c ∈ deps.creations f b, ∃ m, d.childAddresses.Has f c m ∧ m ≤ b

/-- A successful scan of generation `gen` went over block `b`. -/
def Scanned (d : Discovery F A) (gen : Nat) (b : Int) : Prop :=
  ∃ i scan, d.At i scan ∧ scan.status = .resolved ∧ scan.gen = gen ∧
    scan.fromBlock ≤ b ∧ b ≤ scan.toBlock

/-- No block number was made up. -/
def Genuine (deps : DiscoveryDeps F A) (d : Discovery F A) : Prop :=
  ∀ f c m, d.childAddresses.Has f c m → deps.preloaded.Has f c m ∨ c ∈ deps.creations f m

end Discovery

/-! ## One scan moves -/

namespace Discovery

variable {deps : DiscoveryDeps F A} {d d' : Discovery F A} {i : Nat} {scan scan' : Scan F}

/-- Nothing but the `i`-th scan differs, and that one only in its status and windows. -/
structure Moved (d d' : Discovery F A) (i : Nat) (scan scan' : Scan F) : Prop where
  before : d.At i scan
  after : d'.At i scan'
  other : ∀ k, k ≠ i → d'.scans[k]? = d.scans[k]?
  length : d'.scans.length = d.scans.length
  earlier : scan'.earlier = scan.earlier
  gen : scan'.gen = scan.gen
  fromBlock : scan'.fromBlock = scan.fromBlock
  toBlock : scan'.toBlock = scan.toBlock
  /-- a resolved promise stays resolved -/
  final : scan.status = .resolved → scan'.status = .resolved

theorem Moved.back (moved : Moved d d' i scan scan') {k : Nat} {t : Scan F} (here : d'.At k t) :
    (k = i ∧ t = scan') ∨ (k ≠ i ∧ d.At k t) := by
  by_cases same : k = i
  · subst same
    have both := moved.after
    unfold At at both here
    rw [here] at both
    exact .inl ⟨rfl, Option.some.inj both⟩
  · refine .inr ⟨same, ?_⟩
    unfold At at here ⊢
    rw [← moved.other k same]
    exact here

/-- Every scan is still there, with the same plan. -/
theorem Moved.forth (moved : Moved d d' i scan scan') {k : Nat} {t : Scan F} (here : d.At k t) :
    ∃ t', d'.At k t' ∧ t'.earlier = t.earlier ∧ t'.gen = t.gen ∧ t'.fromBlock = t.fromBlock ∧
      t'.toBlock = t.toBlock ∧ (t.status = .resolved → t'.status = .resolved) ∧
      (k ≠ i → t' = t) := by
  by_cases same : k = i
  · subst same
    have both := moved.before
    unfold At at both here
    rw [here] at both
    obtain rfl := Option.some.inj both
    exact ⟨scan', moved.after, moved.earlier, moved.gen, moved.fromBlock, moved.toBlock,
      moved.final, fun other => absurd rfl other⟩
  · refine ⟨t, ?_, rfl, rfl, rfl, rfl, id, fun _ => rfl⟩
    unfold At at here ⊢
    rw [moved.other k same]
    exact here

/-- A state whose scans are those of `d` but for the status of one. -/
theorem moved_of_setStatus (here : d.At i scan) {status : ScanStatus}
    (scans : d'.scans = (d.setStatus i status).scans)
    (final : scan.status = .resolved → status = .resolved) :
    Moved d d' i scan { scan with status := status } where
  before := here
  after := by
    unfold At
    rw [scans, setStatus, List.getElem?_modify_eq, here]
    rfl
  other := fun k other => by
    rw [scans, setStatus]
    exact List.getElem?_modify_ne _ _ fun same => other same.symm
  length := by
    rw [scans]
    exact List.length_modify _ _ _
  earlier := rfl
  gen := rfl
  fromBlock := rfl
  toBlock := rfl
  final := final

/-- A state whose scans are those of `d` but for the windows of one. -/
theorem moved_of_set (here : d.At i scan) {windows : List (List (F × Int))}
    (scans : d'.scans = d.scans.set i { scan with windows }) :
    Moved d d' i scan { scan with windows } where
  before := here
  after := by
    unfold At
    rw [scans, List.getElem?_set_self (List.getElem?_eq_some_iff.1 here).1]
  other := fun k other => by
    rw [scans]
    exact List.getElem?_set_ne fun same => other same.symm
  length := by
    rw [scans]
    exact List.length_set
  earlier := rfl
  gen := rfl
  fromBlock := rfl
  toBlock := rfl
  final := id

theorem isResolved_some {j : Nat} :
    d.isResolved (some j) = true ↔ ∃ t, d.At j t ∧ t.status = .resolved := by
  unfold isResolved scanStatus
  rw [decide_eq_true_eq, Option.map_eq_some_iff]

theorem Moved.isResolved (moved : Moved d d' i scan scan') {promise : Option Nat}
    (resolved : d.isResolved promise = true) : d'.isResolved promise = true := by
  cases promise with
  | none => rfl
  | some j =>
      obtain ⟨t, here, status⟩ := isResolved_some.1 resolved
      obtain ⟨t', here', _, _, _, _, final, _⟩ := moved.forth here
      exact isResolved_some.2 ⟨t', here', final status⟩

theorem Moved.scanned (moved : Moved d d' i scan scan') {gen : Nat} {b : Int}
    (went : d.Scanned gen b) : d'.Scanned gen b := by
  obtain ⟨k, t, here, status, rfl, low, high⟩ := went
  obtain ⟨t', here', _, sameGen, sameFrom, sameTo, final, _⟩ := moved.forth here
  exact ⟨k, t', here', final status, sameGen, sameFrom ▸ low, sameTo ▸ high⟩

/-! ## Scans settle in order -/

def Settled (status : ScanStatus) : Prop := status = .resolved ∨ status = .handled

/-- The scans of the current generation settle in the order they were planned. -/
structure Ordered (d : Discovery F A) : Prop where
  /-- only the first that is not settled can have left the queue -/
  front : ∀ i j si sj, i < j → d.At i si → d.At j sj → si.gen = d.generation →
    sj.gen = d.generation → sj.status ≠ .waiting → Settled si.status
  link : ∀ j sj, d.At j sj → sj.gen = d.generation →
    (sj.earlier = none ∧
      ∀ i si, i < j → d.At i si → si.gen = d.generation → Settled si.status) ∨
    ∃ i si, j = i + 1 ∧ sj.earlier = some i ∧ d.At i si ∧ si.gen = d.generation
  /-- the promise in flight is that of the last one -/
  last : (d.inflight = none ∧ ∀ i si, d.At i si → si.gen = d.generation → Settled si.status) ∨
    ∃ i si, d.inflight = some i ∧ i + 1 = d.scans.length ∧ d.At i si ∧ si.gen = d.generation
  gens : ∀ i si, d.At i si → si.gen ≤ d.generation

/-- Whoever leaves the queue leaves it behind settled scans. -/
theorem Ordered.behind (ordered : Ordered d) (here : d.At i scan) (current : scan.gen = d.generation)
    (moves : scan.status ≠ .waiting ∨ d.isResolved scan.earlier = true ∨
      (scan.earlier.bind d.scanStatus) = some .handled) :
    ∀ k t, k < i → d.At k t → t.gen = d.generation → Settled t.status := by
  intro k t lt there gen
  rcases ordered.link i scan here current with ⟨_, settled⟩ | ⟨j, sj, rfl, earlier, at_j, gen_j⟩
  · exact settled k t lt there gen
  · by_cases waiting : scan.status = .waiting
    · -- its predecessor has settled
      have settled : Settled sj.status := by
        rcases moves with moves | resolved | handled
        · exact absurd waiting moves
        · rw [earlier] at resolved
          obtain ⟨t', at_j', status⟩ := isResolved_some.1 resolved
          unfold At at at_j at_j'
          rw [at_j] at at_j'
          rw [Option.some.inj at_j']
          exact .inl status
        · rw [earlier] at handled
          unfold At at at_j
          simp only [Option.bind_some, scanStatus, at_j, Option.map_some, Option.some.injEq]
            at handled
          exact .inr handled
      rcases Nat.lt_or_ge k j with below | above
      · refine ordered.front k j t sj below there at_j gen gen_j ?_
        rcases settled with status | status <;> rw [status] <;> decide
      · obtain rfl : k = j := by omega
        unfold At at there at_j
        rw [there] at at_j
        rw [Option.some.inj at_j]
        exact settled
    · exact ordered.front k (j + 1) t scan lt there here gen current waiting

theorem Ordered.moved (ordered : Ordered d) (moved : Moved d d' i scan scan')
    (generation : d'.generation = d.generation)
    (ahead : scan.gen = d.generation → scan'.status ≠ .waiting →
      scan.status ≠ .waiting ∨ d.isResolved scan.earlier = true ∨
        (scan.earlier.bind d.scanStatus) = some .handled)
    (settled : Settled scan.status → Settled scan'.status)
    (inflight : d'.inflight = d.inflight ∨
      (d'.inflight = none ∧ d.inflight = some i ∧ Settled scan'.status)) : Ordered d' := by
  -- a settled scan stays settled
  have keeps : ∀ k t t', d.At k t → d'.At k t' → Settled t.status → Settled t'.status := by
    intro k t t' here here' was
    rcases moved.back here' with ⟨rfl, rfl⟩ | ⟨_, same⟩
    · have both := moved.before
      unfold At at both here
      rw [here] at both
      obtain rfl := Option.some.inj both
      exact settled was
    · unfold At at same here
      rw [here] at same
      obtain rfl := Option.some.inj same
      exact was
  have pre : ∀ k t', d'.At k t' → ∃ t, d.At k t ∧ t.gen = t'.gen ∧ t.earlier = t'.earlier := by
    intro k t' here'
    rcases moved.back here' with ⟨rfl, rfl⟩ | ⟨_, same⟩
    · exact ⟨scan, moved.before, moved.gen.symm, moved.earlier.symm⟩
    · exact ⟨t', same, rfl, rfl⟩
  -- and behind a scan that is out of the queue everything is settled
  have front : ∀ k j tk tj, k < j → d'.At k tk → d'.At j tj → tk.gen = d.generation →
      tj.gen = d.generation → tj.status ≠ .waiting → Settled tk.status := by
    intro k j tk tj lt at_k at_j gen_k gen_j left
    obtain ⟨tk', at_k', same_k, _⟩ := pre k tk at_k
    refine keeps k tk' tk at_k' at_k ?_
    rcases moved.back at_j with ⟨rfl, rfl⟩ | ⟨_, at_j'⟩
    · have current := moved.gen.symm.trans gen_j
      exact ordered.behind moved.before current (ahead current left) k tk' lt at_k'
        (same_k.trans gen_k)
    · exact ordered.front k j tk' tj lt at_k' at_j' (same_k.trans gen_k) gen_j left
  constructor
  · rw [generation]
    exact fun k j tk tj lt at_k at_j gen_k gen_j left => front k j tk tj lt at_k at_j gen_k gen_j left
  · intro j tj at_j gen_j
    rw [generation] at gen_j ⊢
    obtain ⟨tj', at_j', same_j, earlier_j⟩ := pre j tj at_j
    rcases ordered.link j tj' at_j' (same_j.trans gen_j) with ⟨none_, all⟩ | ⟨k, tk, rfl, link, at_k, gen_k⟩
    · refine .inl ⟨earlier_j.symm.trans none_, ?_⟩
      intro k tk lt at_k gen_k
      obtain ⟨tk', at_k', same_k, _⟩ := pre k tk at_k
      exact keeps k tk' tk at_k' at_k (all k tk' lt at_k' (same_k.trans gen_k))
    · obtain ⟨tk', at_k', _, same_k, _⟩ := moved.forth at_k
      exact .inr ⟨k, tk', rfl, earlier_j.symm.trans link, at_k', same_k.trans gen_k⟩
  · rw [generation, moved.length]
    rcases ordered.last with ⟨none_, all⟩ | ⟨k, tk, some_, last, at_k, gen_k⟩
    · rcases inflight with same | ⟨gone, some_, _⟩
      · refine .inl ⟨same.trans none_, ?_⟩
        intro k tk at_k gen_k
        obtain ⟨tk', at_k', same_k, _⟩ := pre k tk at_k
        exact keeps k tk' tk at_k' at_k (all k tk' at_k' (same_k.trans gen_k))
      · rw [none_] at some_
        cases some_
    · rcases inflight with same | ⟨gone, mine, done⟩
      · obtain ⟨tk', at_k', _, same_k, _⟩ := moved.forth at_k
        exact .inr ⟨k, tk', same.trans some_, last, at_k', same_k.trans gen_k⟩
      · -- the last one has settled, and everything before it
        rw [some_] at mine
        obtain rfl := Option.some.inj mine
        refine .inl ⟨gone, ?_⟩
        intro j tj at_j gen_j
        have lt : j < d.scans.length := by
          rw [← moved.length]
          exact (List.getElem?_eq_some_iff.1 at_j).1
        rcases Nat.lt_or_ge j k with below | above
        · have left : scan'.status ≠ .waiting := by
            rcases done with status | status <;> rw [status] <;> decide
          obtain ⟨t', at_k', _, same_k, _⟩ := moved.forth at_k
          have gen_k' : scan'.gen = d.generation := by
            have both := moved.after
            unfold At at both at_k'
            rw [both] at at_k'
            rw [Option.some.inj at_k']
            exact same_k.trans gen_k
          exact front j k tj scan' below at_j moved.after gen_j gen_k' left
        · obtain rfl : j = k := by omega
          have both := moved.after
          unfold At at both at_j
          rw [both] at at_j
          rw [← Option.some.inj at_j]
          exact done
  · intro k tk at_k
    rw [generation]
    obtain ⟨tk', at_k', same_k, _⟩ := pre k tk at_k
    rw [← same_k]
    exact ordered.gens k tk' at_k'

/-! ## What a resolved scan covers -/

variable {start : Nat → Int}

/-- Child maps only get better. -/
def Improves (d d' : Discovery F A) : Prop :=
  ∀ f c m, d.childAddresses.Has f c m → ∃ m', d'.childAddresses.Has f c m' ∧ m' ≤ m

theorem Improves.rfl (d : Discovery F A) : Improves d d :=
  fun _ _ m known => ⟨m, known, Int.le_refl m⟩

theorem Improves.trans {d d' d'' : Discovery F A} (one : Improves d d') (two : Improves d' d'') :
    Improves d d'' := by
  intro g x m known
  obtain ⟨m', known', le⟩ := one g x m known
  obtain ⟨m'', known'', le'⟩ := two g x m' known'
  exact ⟨m'', known'', Int.le_trans le' le⟩

theorem Recorded.mono {f : F} {b : Int} (better : Improves d d') (known : Recorded deps d f b) :
    Recorded deps d' f b := by
  intro c mem
  obtain ⟨m, here, le⟩ := known c mem
  obtain ⟨m', here', le'⟩ := better f c m here
  exact ⟨m', here', Int.le_trans le' le⟩

/-- The coverage of the `i`-th scan begins at `start i`: at its own first block, or where that of
its predecessor does. -/
structure Covering (deps : DiscoveryDeps F A) (d : Discovery F A) (start : Nat → Int) : Prop where
  reach : ∀ i scan, d.At i scan → 0 ≤ scan.toBlock
  chained : ∀ i scan j, d.At i scan → scan.earlier = some j → j < i
  started : ∀ i scan, d.At i scan → scan.status = .running ∨ scan.status = .resolved →
    d.isResolved scan.earlier = true
  /-- every block of the range is recorded, or still to be delivered -/
  delivered : ∀ i scan, d.At i scan → ∀ f ∈ deps.factories, ∀ b, scan.fromBlock ≤ b →
    b ≤ scan.toBlock → (∃ w ∈ scan.windows, (f, b) ∈ w) ∨ Recorded deps d f b
  drained : ∀ i scan, d.At i scan → scan.status = .resolved → ∀ w ∈ scan.windows, w = []
  behind : ∀ i scan, d.At i scan →
    (∀ b, start i ≤ b → b < scan.fromBlock → d.Scanned scan.gen b) ∨
    ∃ j sj, scan.earlier = some j ∧ d.At j sj ∧ sj.gen = scan.gen ∧ start j = start i ∧
      scan.fromBlock = sj.toBlock + 1
  covered : ∀ i scan, d.At i scan → scan.status = .resolved →
    ∀ b, start i ≤ b → b ≤ scan.toBlock → d.Scanned scan.gen b

/-- Where a successful scan went, the children are known. -/
theorem Covering.recorded (covering : Covering deps d start) {gen : Nat} {b : Int}
    (went : d.Scanned gen b) {f : F} (known : f ∈ deps.factories) : Recorded deps d f b := by
  obtain ⟨i, scan, here, status, _, low, high⟩ := went
  rcases covering.delivered i scan here f known b low high with ⟨w, mem, todo⟩ | recorded
  · rw [covering.drained i scan here status w mem] at todo
    cases todo
  · exact recorded

theorem Covering.moved (covering : Covering deps d start) (moved : Moved d d' i scan scan')
    (better : Improves d d')
    (starts : scan'.status = .running ∨ scan'.status = .resolved →
      scan.status = .running ∨ scan.status = .resolved ∨ d.isResolved scan.earlier = true)
    (delivers : ∀ f b, (∃ w ∈ scan.windows, (f, b) ∈ w) →
      (∃ w ∈ scan'.windows, (f, b) ∈ w) ∨ Recorded deps d' f b)
    (drains : scan'.status = .resolved → ∀ w ∈ scan'.windows, w = []) :
    Covering deps d' start := by
  have started : ∀ k t, d'.At k t → t.status = .running ∨ t.status = .resolved →
      d'.isResolved t.earlier = true := by
    intro k t here status
    rcases moved.back here with ⟨rfl, rfl⟩ | ⟨_, here'⟩
    · rw [moved.earlier]
      refine moved.isResolved ?_
      rcases starts status with running | resolved | free
      · exact covering.started k scan moved.before (.inl running)
      · exact covering.started k scan moved.before (.inr resolved)
      · exact free
    · exact moved.isResolved (covering.started k t here' status)
  have drained : ∀ k t, d'.At k t → t.status = .resolved → ∀ w ∈ t.windows, w = [] := by
    intro k t here status
    rcases moved.back here with ⟨rfl, rfl⟩ | ⟨_, here'⟩
    · exact drains status
    · exact covering.drained k t here' status
  have behind : ∀ k t, d'.At k t →
      (∀ b, start k ≤ b → b < t.fromBlock → d'.Scanned t.gen b) ∨
      ∃ j sj, t.earlier = some j ∧ d'.At j sj ∧ sj.gen = t.gen ∧ start j = start k ∧
        t.fromBlock = sj.toBlock + 1 := by
    intro k t here
    obtain ⟨old, at_old, earlier, gen, first⟩ : ∃ old, d.At k old ∧ old.earlier = t.earlier ∧
        old.gen = t.gen ∧ old.fromBlock = t.fromBlock := by
      rcases moved.back here with ⟨rfl, rfl⟩ | ⟨_, here'⟩
      · exact ⟨scan, moved.before, moved.earlier.symm, moved.gen.symm, moved.fromBlock.symm⟩
      · exact ⟨t, here', rfl, rfl, rfl⟩
    rcases covering.behind k old at_old with all | ⟨j, sj, link, at_j, gen_j, same, next⟩
    · refine .inl fun b low high => ?_
      rw [← gen]
      exact moved.scanned (all b low (first ▸ high))
    · obtain ⟨sj', at_j', _, gen_j', _, to_j', _⟩ := moved.forth at_j
      exact .inr ⟨j, sj', earlier.symm.trans link, at_j', gen_j'.trans (gen_j.trans gen), same,
        by rw [← first, next, to_j']⟩
  refine ⟨?_, ?_, started, ?_, drained, behind, ?_⟩
  · intro k t here
    rcases moved.back here with ⟨rfl, rfl⟩ | ⟨_, here'⟩
    · rw [moved.toBlock]
      exact covering.reach k scan moved.before
    · exact covering.reach k t here'
  · intro k t j here link
    rcases moved.back here with ⟨rfl, rfl⟩ | ⟨_, here'⟩
    · rw [moved.earlier] at link
      exact covering.chained k scan j moved.before link
    · exact covering.chained k t j here' link
  · intro k t here f known b low high
    rcases moved.back here with ⟨rfl, rfl⟩ | ⟨_, here'⟩
    · rw [moved.fromBlock] at low
      rw [moved.toBlock] at high
      rcases covering.delivered k scan moved.before f known b low high with todo | recorded
      · exact delivers f b todo
      · exact .inr (recorded.mono better)
    · exact (covering.delivered k t here' f known b low high).imp_right fun r => r.mono better
  · intro k t here status b low high
    rcases moved.back here with ⟨rfl, rfl⟩ | ⟨_, here'⟩
    · by_cases own : t.fromBlock ≤ b
      · exact ⟨k, t, here, status, rfl, own, high⟩
      · -- behind its own range the predecessor, which has resolved, covers
        rcases behind k t here with all | ⟨j, sj, link, at_j, gen_j, same, next⟩
        · exact all b low (Int.lt_of_not_ge own)
        · have free := started k t here (.inr status)
          rw [link] at free
          obtain ⟨sj', at_j', status_j⟩ := isResolved_some.1 free
          unfold At at at_j at_j'
          rw [at_j] at at_j'
          obtain rfl := Option.some.inj at_j'
          rw [← gen_j]
          rcases moved.back at_j with ⟨rfl, rfl⟩ | ⟨other, at_old⟩
          · rw [moved.earlier] at link
            exact absurd (covering.chained _ scan _ moved.before link) (Nat.lt_irrefl _)
          · exact moved.scanned (covering.covered j sj at_old status_j b (same ▸ low) (by omega))
    · exact moved.scanned (covering.covered k t here' status b low high)

/-! ## How far ahead the optimistic watermark is -/

variable {began seeded : Int}

/-- A scan of the current generation with nothing rejected before it. -/
inductive Hopeful (d : Discovery F A) : Nat → Prop
  | running {i : Nat} {scan : Scan F} (here : d.At i scan) (current : scan.gen = d.generation)
      (status : scan.status = .running) : Hopeful d i
  | free {i : Nat} {scan : Scan F} (here : d.At i scan) (current : scan.gen = d.generation)
      (status : scan.status = .waiting) (resolved : d.isResolved scan.earlier = true) : Hopeful d i
  | behind {i j : Nat} {scan : Scan F} (here : d.At i scan) (current : scan.gen = d.generation)
      (status : scan.status = .waiting) (link : scan.earlier = some j) (hope : Hopeful d j) :
      Hopeful d i

/-- The promise in flight ends at the optimistic watermark. -/
def Target (d : Discovery F A) (start : Nat → Int) (began : Int) : Prop :=
  ∃ i scan, d.inflight = some i ∧ d.At i scan ∧ scan.gen = d.generation ∧
    ¬ Settled scan.status ∧ scan.toBlock = d.through ∧ start i = began

structure Ahead (d : Discovery F A) (start : Nat → Int) (began seeded : Int) : Prop where
  optimistic : d.through = d.confirmed ∨ Target d start began
  hopeful : ∀ i, Hopeful d i → Target d start began ∧ start i = began
  confirmed : ∀ b, began ≤ b → b ≤ d.confirmed → d.Scanned d.generation b
  floor : 0 ≤ d.through → began ≤ max d.floor (seeded + 1)
  low : (d.through = -1 ∨ 0 ≤ d.through) ∧ (d.confirmed = -1 ∨ 0 ≤ d.confirmed)
  base : 0 ≤ began

theorem Hopeful.moved (ordered : Ordered d) (moved : Moved d d' i scan scan')
    (generation : d'.generation = d.generation)
    (hope : scan.gen = d.generation → scan'.status ≠ .rejected → scan'.status ≠ .handled →
      Hopeful d i ∨ scan.status = .resolved)
    {k : Nat} (hopeful : Hopeful d' k) : Hopeful d k := by
  -- the moved scan itself
  have mine : ∀ t, d'.At i t → t.gen = d.generation → t.status = .running ∨ t.status = .waiting →
      Hopeful d i := by
    intro t here current status
    rcases moved.back here with ⟨_, rfl⟩ | ⟨other, _⟩
    · have kept : t.status ≠ .rejected ∧ t.status ≠ .handled ∧ t.status ≠ .resolved := by
        rcases status with status | status <;> rw [status] <;> decide
      rcases hope (moved.gen.symm.trans current) kept.1 kept.2.1 with hopeful | resolved
      · exact hopeful
      · exact absurd (moved.final resolved) kept.2.2
    · exact absurd rfl other
  induction hopeful with
  | running here current status =>
      rw [generation] at current
      rcases moved.back here with ⟨rfl, rfl⟩ | ⟨_, here'⟩
      · exact mine _ here current (.inl status)
      · exact .running here' current status
  | @free k t here current status resolved =>
      rw [generation] at current
      rcases moved.back here with ⟨rfl, rfl⟩ | ⟨_, here'⟩
      · exact mine _ here current (.inr status)
      · cases link : t.earlier with
        | none =>
            refine .free here' current status ?_
            rw [link]
            rfl
        | some j =>
            rw [link] at resolved
            obtain ⟨tj, at_j, status_j⟩ := isResolved_some.1 resolved
            rcases moved.back at_j with ⟨rfl, rfl⟩ | ⟨_, at_j'⟩
            · -- the predecessor is of the same generation, and may have just resolved
              have current_j : scan.gen = d.generation := by
                rcases ordered.link k t here' current with ⟨none_, _⟩ | ⟨j', tj', _, some_, at_j', gen⟩
                · rw [link] at none_
                  cases none_
                · rw [link] at some_
                  obtain rfl := Option.some.inj some_
                  have both := moved.before
                  unfold At at both at_j'
                  rw [both] at at_j'
                  rw [Option.some.inj at_j']
                  exact gen
              rcases hope current_j (by rw [status_j]; decide) (by rw [status_j]; decide) with
                hopeful | was
              · exact .behind here' current status link hopeful
              · refine .free here' current status ?_
                rw [link]
                exact isResolved_some.2 ⟨scan, moved.before, was⟩
            · refine .free here' current status ?_
              rw [link]
              exact isResolved_some.2 ⟨tj, at_j', status_j⟩
  | behind here current status link _ ih =>
      rw [generation] at current
      rcases moved.back here with ⟨rfl, rfl⟩ | ⟨_, here'⟩
      · exact mine _ here current (.inr status)
      · exact .behind here' current status link ih

theorem Target.moved (target : Target d start began) (moved : Moved d d' i scan scan')
    (generation : d'.generation = d.generation) (through : d'.through = d.through)
    (inflight : d'.inflight = d.inflight)
    (unsettled : d.inflight = some i → ¬ Settled scan.status → ¬ Settled scan'.status) :
    Target d' start began := by
  obtain ⟨k, t, flying, here, current, open_, reach, same⟩ := target
  obtain ⟨t', here', _, gen, _, toBlock, _, other⟩ := moved.forth here
  refine ⟨k, t', inflight.trans flying, here', (gen.trans current).trans generation.symm, ?_,
    (toBlock.trans reach).trans through.symm, same⟩
  by_cases mine : k = i
  · subst mine
    have both := moved.before
    unfold At at both here
    rw [both] at here
    obtain rfl := Option.some.inj here
    have both' := moved.after
    unfold At at both' here'
    rw [both'] at here'
    rw [← Option.some.inj here']
    exact unsettled flying open_
  · rw [other mine]
    exact open_

/-- A move that leaves the watermarks alone. -/
theorem Ahead.moved (ahead : Ahead d start began seeded) (ordered : Ordered d)
    (moved : Moved d d' i scan scan') (generation : d'.generation = d.generation)
    (through : d'.through = d.through) (confirmed : d'.confirmed = d.confirmed)
    (floor : d'.floor = d.floor) (inflight : d'.inflight = d.inflight)
    (unsettled : d.inflight = some i → ¬ Settled scan.status → ¬ Settled scan'.status)
    (hope : scan.gen = d.generation → scan'.status ≠ .rejected → scan'.status ≠ .handled →
      Hopeful d i ∨ scan.status = .resolved) : Ahead d' start began seeded := by
  have target : Target d start began → Target d' start began :=
    fun t => t.moved moved generation through inflight unsettled
  refine ⟨?_, ?_, ?_, ?_, ?_, ahead.base⟩
  · rw [through, confirmed]
    exact ahead.optimistic.imp_right target
  · intro k hopeful
    exact (ahead.hopeful k (hopeful.moved ordered moved generation hope)).imp_left target
  · rw [confirmed, generation]
    exact fun b low high => moved.scanned (ahead.confirmed b low high)
  · rw [through, floor]
    exact ahead.floor
  · rw [through, confirmed]
    exact ahead.low

/-! ## Settling moves -/

theorem At.unique {t : Scan F} (one : d.At i scan) (two : d.At i t) : scan = t := by
  unfold At at one two
  rw [one] at two
  exact Option.some.inj two

theorem Target.reach (target : Target d start began) (covering : Covering deps d start) :
    0 ≤ d.through := by
  obtain ⟨k, t, _, here, _, _, reach, _⟩ := target
  rw [← reach]
  exact covering.reach k t here

/-- A rejection takes the hope from the whole generation. -/
theorem Ordered.no_hope (ordered : Ordered d) (here : d.At i scan)
    (current : scan.gen = d.generation) (status : scan.status = .rejected) {k : Nat} :
    ¬ Hopeful d k := by
  -- a scan that runs, or could, has only settled ones before it and queued ones behind it
  have root : ∀ r t, d.At r t → t.gen = d.generation → t.status = .running ∨
      (t.status = .waiting ∧ d.isResolved t.earlier = true) → False := by
    intro r t there current_t active
    have open_ : ¬ Settled t.status := by
      rcases active with status | ⟨status, _⟩ <;> rw [status] <;> unfold Settled <;> decide
    rcases Nat.lt_trichotomy r i with lt | rfl | gt
    · exact open_ (ordered.front r i t scan lt there here current_t current
        (by rw [status]; decide))
    · obtain rfl := here.unique there
      rcases active with status' | ⟨status', _⟩ <;> rw [status] at status' <;> cases status'
    · have moves : t.status ≠ .waiting ∨ d.isResolved t.earlier = true ∨
          (t.earlier.bind d.scanStatus) = some .handled := by
        rcases active with status' | ⟨_, resolved⟩
        · exact .inl (by rw [status']; decide)
        · exact .inr (.inl resolved)
      rcases ordered.behind there current_t moves i scan gt here current with done | done <;>
        rw [status] at done <;> cases done
  intro hopeful
  induction hopeful with
  | running there current_t status_t => exact root _ _ there current_t (.inl status_t)
  | free there current_t status_t resolved => exact root _ _ there current_t (.inr ⟨status_t, resolved⟩)
  | behind _ _ _ _ _ ih => exact ih

theorem Ahead.resolved (ahead : Ahead d start began seeded) (ordered : Ordered d)
    (covering : Covering deps d' start) (moved : Moved d d' i scan scan')
    (current : scan.gen = d.generation) (running : scan.status = .running)
    (resolved : scan'.status = .resolved) (generation : d'.generation = d.generation)
    (through : d'.through = d.through) (confirmed : d'.confirmed = scan.toBlock)
    (floor : d'.floor = d.floor) (inflight : d'.inflight = d.inflight) :
    Ahead d' start began seeded := by
  have mine : Hopeful d i := .running moved.before current running
  have back : ∀ k, Hopeful d' k → Hopeful d k :=
    fun k => Hopeful.moved ordered moved generation fun _ _ _ => .inl mine
  obtain ⟨target, startMine⟩ := ahead.hopeful i mine
  have reach := covering.reach i scan' moved.after
  rw [moved.toBlock] at reach
  have covered : ∀ b, began ≤ b → b ≤ d'.confirmed → d'.Scanned d'.generation b := by
    intro b low high
    rw [generation, ← current, ← moved.gen]
    refine covering.covered i scan' moved.after resolved b (startMine ▸ low) ?_
    rw [moved.toBlock, ← confirmed]
    exact high
  have rest : (d'.through = -1 ∨ 0 ≤ d'.through) ∧ (d'.confirmed = -1 ∨ 0 ≤ d'.confirmed) := by
    rw [through, confirmed]
    exact ⟨ahead.low.1, .inr reach⟩
  have bound : 0 ≤ d'.through → began ≤ max d'.floor (seeded + 1) := by
    rw [through, floor]
    exact ahead.floor
  obtain ⟨k, t, flying, here, current_t, open_, reach_t, start_t⟩ := id target
  by_cases last : k = i
  · -- the last of the generation: the watermarks meet, and no scan is left
    subst last
    obtain rfl := here.unique moved.before
    refine ⟨.inl (through.trans (reach_t.symm.trans confirmed.symm)), ?_, covered, bound, rest,
      ahead.base⟩
    intro j hopeful
    have none_ : ∀ r u, d'.At r u → u.gen = d.generation →
        u.status = .running ∨ u.status = .waiting → False := by
      intro r u there gen_u status_u
      have lt : r < d.scans.length := by
        rw [← moved.length]
        exact (List.getElem?_eq_some_iff.1 there).1
      have final : k + 1 = d.scans.length := by
        rcases ordered.last with ⟨none_, _⟩ | ⟨j', _, some_, last, _⟩
        · rw [none_] at flying
          cases flying
        · rw [flying] at some_
          obtain rfl := Option.some.inj some_
          exact last
      rcases moved.back there with ⟨rfl, rfl⟩ | ⟨other, there'⟩
      · rcases status_u with status | status <;> rw [resolved] at status <;> cases status
      · have settled := ordered.front r k u t (by omega) there' here gen_u current
          (by rw [running]; decide)
        rcases settled with done | done <;> rcases status_u with status | status <;>
          rw [done] at status <;> cases status
    cases hopeful with
    | running there gen_u status => exact (none_ _ _ there (gen_u.trans generation) (.inl status)).elim
    | free there gen_u status => exact (none_ _ _ there (gen_u.trans generation) (.inr status)).elim
    | behind there gen_u status => exact (none_ _ _ there (gen_u.trans generation) (.inr status)).elim
  · have target' : Target d' start began := by
      refine target.moved moved generation through inflight fun same => ?_
      rw [flying] at same
      exact absurd (Option.some.inj same) last
    exact ⟨.inr target', fun j hopeful => ⟨target', (ahead.hopeful j (back j hopeful)).2⟩, covered,
      bound, rest, ahead.base⟩

theorem Ahead.rolledBack (ahead : Ahead d start began seeded) (ordered : Ordered d)
    (covering : Covering deps d start) (moved : Moved d d' i scan scan')
    (current : scan.gen = d.generation) (rejected : scan.status = .rejected)
    (handled : scan'.status = .handled) (generation : d'.generation = d.generation)
    (through : d'.through = d.confirmed) (confirmed : d'.confirmed = d.confirmed)
    (floor : d'.floor = d.floor) : Ahead d' start began seeded := by
  refine ⟨.inl (through.trans confirmed.symm), ?_, ?_, ?_, ?_, ahead.base⟩
  · intro k hopeful
    have was : Hopeful d k :=
      hopeful.moved ordered moved generation fun _ _ other => absurd handled other
    exact absurd was (ordered.no_hope moved.before current rejected)
  · rw [confirmed, generation]
    exact fun b low high => moved.scanned (ahead.confirmed b low high)
  · intro high
    rw [through] at high
    rw [floor]
    refine ahead.floor ?_
    rcases ahead.optimistic with same | target
    · rw [same]
      exact high
    · exact target.reach covering
  · rw [through, confirmed]
    exact ⟨ahead.low.2, ahead.low.2⟩

/-! ## Planning -/

theorem planDiscovery_some {floor through needTo : Int} {opts : PlanOpts} {plan : Plan}
    (planned : planDiscovery floor through needTo opts = some plan) :
    0 ≤ floor ∧ through < needTo ∧
      plan.fromBlock = (if through < 0 then floor else through + 1) ∧ needTo ≤ plan.toBlock ∧
      plan.windows =
        splitWindows plan.fromBlock plan.toBlock opts.chunkBlocks opts.discoveryWindows := by
  unfold planDiscovery at planned
  split at planned
  case isTrue => cases planned
  case isFalse floored =>
      split at planned
      case isTrue => cases planned
      case isFalse more =>
          cases planned
          exact ⟨Int.not_lt.1 floored, Int.not_le.1 more, rfl, Int.le_max_left _ _, rfl⟩

/-- `d'` is `d` with one more scan, planned to end at the new optimistic watermark. -/
structure Extended (deps : DiscoveryDeps F A) (d d' : Discovery F A) (scan : Scan F) : Prop where
  scans : d'.scans = d.scans ++ [scan]
  inflight : d'.inflight = some d.scans.length
  through : d'.through = scan.toBlock
  generation : d'.generation = d.generation
  confirmed : d'.confirmed = d.confirmed
  floor : d'.floor = d.floor
  children : d'.childAddresses = d.childAddresses
  floored : 0 ≤ d.floor
  earlier : scan.earlier = d.inflight
  gen : scan.gen = d.generation
  status : scan.status = .waiting
  reach : 0 ≤ scan.toBlock
  begins : scan.fromBlock = if d.through < 0 then d.floor else d.through + 1
  windows : ∀ f ∈ deps.factories, ∀ b, scan.fromBlock ≤ b → b ≤ scan.toBlock →
    ∃ w ∈ scan.windows, (f, b) ∈ w

variable {plan : Scan F}

theorem Extended.back (extended : Extended deps d d' plan) {k : Nat} {t : Scan F}
    (here : d'.At k t) : (k = d.scans.length ∧ t = plan) ∨ (k < d.scans.length ∧ d.At k t) := by
  unfold At at here
  rw [extended.scans] at here
  rcases Nat.lt_or_ge k d.scans.length with lt | ge
  · rw [List.getElem?_append_left lt] at here
    exact .inr ⟨lt, here⟩
  · rw [List.getElem?_append_right ge] at here
    have inside := (List.getElem?_eq_some_iff.1 here).1
    rw [List.length_singleton] at inside
    have first : k - d.scans.length = 0 := Nat.lt_one_iff.1 inside
    rw [first] at here
    exact .inl ⟨by omega, (Option.some.inj here).symm⟩

theorem Extended.forth (extended : Extended deps d d' plan) {k : Nat} {t : Scan F}
    (here : d.At k t) : d'.At k t := by
  unfold At at here ⊢
  rw [extended.scans, List.getElem?_append_left (List.getElem?_eq_some_iff.1 here).1]
  exact here

theorem Extended.new (extended : Extended deps d d' plan) : d'.At d.scans.length plan := by
  unfold At
  rw [extended.scans, List.getElem?_append_right (Nat.le_refl _), Nat.sub_self]
  rfl

theorem Extended.scanned (extended : Extended deps d d' plan) {gen : Nat} {b : Int}
    (went : d.Scanned gen b) : d'.Scanned gen b := by
  obtain ⟨k, t, here, rest⟩ := went
  exact ⟨k, t, extended.forth here, rest⟩

/-- Promises made before are resolved when they were. -/
theorem Extended.isResolved (extended : Extended deps d d' plan) (promise : Option Nat) :
    d'.isResolved promise = true → d.isResolved promise = true := by
  cases promise with
  | none => exact fun _ => rfl
  | some j =>
      intro resolved
      obtain ⟨t, here, status⟩ := isResolved_some.1 resolved
      rcases extended.back here with ⟨_, rfl⟩ | ⟨_, here'⟩
      · rw [extended.status] at status
        cases status
      · exact isResolved_some.2 ⟨t, here', status⟩

theorem Ordered.extended (ordered : Ordered d) (extended : Extended deps d d' plan) :
    Ordered d' := by
  constructor
  · intro k j tk tj lt at_k at_j gen_k gen_j left
    rw [extended.generation] at gen_k gen_j
    rcases extended.back at_j with ⟨_, rfl⟩ | ⟨lt_j, at_j'⟩
    · exact absurd extended.status left
    · rcases extended.back at_k with ⟨rfl, _⟩ | ⟨_, at_k'⟩
      · omega
      · exact ordered.front k j tk tj lt at_k' at_j' gen_k gen_j left
  · intro j tj at_j gen_j
    rw [extended.generation] at gen_j ⊢
    rcases extended.back at_j with ⟨rfl, rfl⟩ | ⟨lt_j, at_j'⟩
    · rw [extended.earlier]
      rcases ordered.last with ⟨none_, all⟩ | ⟨k, tk, some_, last, at_k, gen_k⟩
      · refine .inl ⟨none_, fun k tk lt at_k gen_k => ?_⟩
        rcases extended.back at_k with ⟨rfl, _⟩ | ⟨_, at_k'⟩
        · exact absurd lt (Nat.lt_irrefl _)
        · exact all k tk at_k' gen_k
      · exact .inr ⟨k, tk, last.symm, some_, extended.forth at_k, gen_k⟩
    · rcases ordered.link j tj at_j' gen_j with ⟨none_, all⟩ | ⟨k, tk, next, some_, at_k, gen_k⟩
      · refine .inl ⟨none_, fun k tk lt at_k gen_k => ?_⟩
        rcases extended.back at_k with ⟨rfl, _⟩ | ⟨_, at_k'⟩
        · omega
        · exact all k tk lt at_k' gen_k
      · exact .inr ⟨k, tk, next, some_, extended.forth at_k, gen_k⟩
  · refine .inr ⟨d.scans.length, plan, extended.inflight, ?_, extended.new,
      extended.gen.trans extended.generation.symm⟩
    rw [extended.scans, List.length_append, List.length_singleton]
  · intro k t here
    rw [extended.generation]
    rcases extended.back here with ⟨_, rfl⟩ | ⟨_, here'⟩
    · exact Nat.le_of_eq extended.gen
    · exact ordered.gens k t here'

variable {start' : Nat → Int} {began' : Int}

theorem Covering.extended (covering : Covering deps d start) (ordered : Ordered d)
    (ahead : Ahead d start began seeded) (extended : Extended deps d d' plan)
    (same : ∀ k, k < d.scans.length → start' k = start k)
    (new : start' d.scans.length = if d.through < 0 then d.floor else began) :
    Covering deps d' start' := by
  refine ⟨?_, ?_, ?_, ?_, ?_, ?_, ?_⟩
  · intro k t here
    rcases extended.back here with ⟨_, rfl⟩ | ⟨_, here'⟩
    · exact extended.reach
    · exact covering.reach k t here'
  · intro k t j here link
    rcases extended.back here with ⟨rfl, rfl⟩ | ⟨_, here'⟩
    · rw [extended.earlier] at link
      rcases ordered.last with ⟨none_, _⟩ | ⟨_, _, some_, last, _⟩
      · rw [none_] at link
        cases link
      · rw [some_] at link
        obtain rfl := Option.some.inj link
        omega
    · exact covering.chained k t j here' link
  · intro k t here status
    rcases extended.back here with ⟨_, rfl⟩ | ⟨_, here'⟩
    · rcases status with status | status <;> rw [extended.status] at status <;> cases status
    · have resolved := covering.started k t here' status
      cases link : t.earlier with
      | none => rfl
      | some j =>
          rw [link] at resolved
          obtain ⟨tj, at_j, status_j⟩ := isResolved_some.1 resolved
          exact isResolved_some.2 ⟨tj, extended.forth at_j, status_j⟩
  · intro k t here f known b low high
    rcases extended.back here with ⟨_, rfl⟩ | ⟨_, here'⟩
    · exact .inl (extended.windows f known b low high)
    · refine (covering.delivered k t here' f known b low high).imp_right fun recorded => ?_
      exact recorded.mono fun f c m known => ⟨m, by rw [extended.children]; exact known, Int.le_refl m⟩
  · intro k t here status
    rcases extended.back here with ⟨_, rfl⟩ | ⟨_, here'⟩
    · rw [extended.status] at status
      cases status
    · exact covering.drained k t here' status
  · intro k t here
    rcases extended.back here with ⟨rfl, rfl⟩ | ⟨lt, here'⟩
    · -- the new scan goes on where the optimistic watermark was
      rw [new, extended.begins, extended.gen]
      by_cases virgin : d.through < 0
      · rw [if_pos virgin, if_pos virgin]
        exact .inl fun b low high => absurd low (Int.not_le.2 high)
      · rw [if_neg virgin, if_neg virgin]
        rcases ahead.optimistic with met | ⟨j, tj, flying, at_j, gen_j, _, reach, start_j⟩
        · refine .inl fun b low high => extended.scanned (ahead.confirmed b low ?_)
          rw [← met]
          omega
        · refine .inr ⟨j, tj, extended.earlier.trans flying, extended.forth at_j, gen_j, ?_, ?_⟩
          · rw [same j (List.getElem?_eq_some_iff.1 at_j).1]
            exact start_j
          · rw [reach]
    · rw [same k lt]
      rcases covering.behind k t here' with all | ⟨j, tj, link, at_j, gen_j, start_j, next⟩
      · exact .inl fun b low high => extended.scanned (all b low high)
      · refine .inr ⟨j, tj, link, extended.forth at_j, gen_j, ?_, next⟩
        rw [same j (List.getElem?_eq_some_iff.1 at_j).1]
        exact start_j
  · intro k t here status b low high
    rcases extended.back here with ⟨_, rfl⟩ | ⟨lt, here'⟩
    · rw [extended.status] at status
      cases status
    · rw [same k lt] at low
      exact extended.scanned (covering.covered k t here' status b low high)

theorem Hopeful.extended (covering : Covering deps d start) (extended : Extended deps d d' plan)
    {k : Nat} (hopeful : Hopeful d' k) : k = d.scans.length ∨ Hopeful d k := by
  induction hopeful with
  | running here current status =>
      rw [extended.generation] at current
      rcases extended.back here with ⟨rfl, _⟩ | ⟨_, here'⟩
      · exact .inl rfl
      · exact .inr (.running here' current status)
  | free here current status resolved =>
      rw [extended.generation] at current
      rcases extended.back here with ⟨rfl, _⟩ | ⟨_, here'⟩
      · exact .inl rfl
      · exact .inr (.free here' current status (extended.isResolved _ resolved))
  | @behind k j t here current status link _ ih =>
      rw [extended.generation] at current
      rcases extended.back here with ⟨rfl, _⟩ | ⟨lt, here'⟩
      · exact .inl rfl
      · rcases ih with rfl | hope
        · exact absurd (covering.chained k t _ here' link) (by omega)
        · exact .inr (.behind here' current status link hope)

theorem Ahead.extended (ahead : Ahead d start began seeded) (covering : Covering deps d start)
    (extended : Extended deps d d' plan)
    (same : ∀ k, k < d.scans.length → start' k = start k)
    (new : start' d.scans.length = began')
    (begins : began' = if d.through < 0 then d.floor else began) :
    Ahead d' start' began' seeded := by
  have open_ : ¬ Settled plan.status := by
    rw [extended.status]
    unfold Settled
    decide
  have target : Target d' start' began' :=
    ⟨d.scans.length, plan, extended.inflight, extended.new,
      extended.gen.trans extended.generation.symm, open_, extended.through.symm, new⟩
  have floored := extended.floored
  refine ⟨.inr target, ?_, ?_, ?_, ?_, ?_⟩
  · intro k hopeful
    refine ⟨target, ?_⟩
    rcases hopeful.extended covering extended with rfl | hope
    · exact new
    · -- a hopeful scan of before: the watermark was set, and its coverage goes on
      obtain ⟨was, start_k⟩ := ahead.hopeful k hope
      have set_ := was.reach covering
      have lt : k < d.scans.length := by
        cases hope with
        | running here => exact (List.getElem?_eq_some_iff.1 here).1
        | free here => exact (List.getElem?_eq_some_iff.1 here).1
        | behind here => exact (List.getElem?_eq_some_iff.1 here).1
      rw [same k lt, start_k, begins, if_neg (Int.not_lt.2 set_)]
  · intro b low high
    rw [extended.confirmed] at high
    rw [extended.generation]
    by_cases virgin : d.through < 0
    · -- nothing was confirmed
      rw [begins, if_pos virgin] at low
      have unset : d.confirmed = d.through := by
        rcases ahead.optimistic with met | target
        · exact met.symm
        · exact absurd (target.reach covering) (Int.not_le.2 virgin)
      omega
    · rw [begins, if_neg virgin] at low
      exact extended.scanned (ahead.confirmed b low high)
  · intro _
    rw [extended.floor, begins]
    by_cases virgin : d.through < 0
    · rw [if_pos virgin]
      exact Int.le_max_left _ _
    · rw [if_neg virgin]
      exact ahead.floor (Int.not_lt.1 virgin)
  · rw [extended.through, extended.confirmed]
    exact ⟨.inr extended.reach, ahead.low.2⟩
  · rw [begins]
    have base := ahead.base
    split <;> omega

/-- A plan is an extension. -/
theorem ensure_extended {deps : DiscoveryDeps F A} {needTo : Nat} {chunkBlocks : Nat}
    {endHint : Int} {plan : Plan} (some_ : deps.factories.isEmpty = false)
    (planned : planDiscovery d.floor d.through needTo
      ⟨chunkBlocks, endHint, deps.discoveryWindows, d.quantum⟩ = some plan) :
    ∃ scan, Extended deps d (d.ensure deps needTo chunkBlocks endHint).1 scan ∧
      (d.ensure deps needTo chunkBlocks endHint).2 = some d.scans.length ∧
      (needTo : Int) ≤ scan.toBlock := by
  obtain ⟨floored, _, begins, reach, windows⟩ := planDiscovery_some planned
  refine ⟨⟨d.inflight, d.generation, plan.fromBlock, plan.toBlock,
    plan.windows.map (windowWork deps.factories), .waiting⟩, ?_, ?_, reach⟩
  · unfold ensure
    rw [if_neg (by rw [some_]; decide), planned]
    refine ⟨rfl, rfl, rfl, rfl, rfl, rfl, rfl, floored, rfl, rfl, rfl, ?_, begins, ?_⟩
    · show (0 : Int) ≤ plan.toBlock
      omega
    · intro f known b low high
      obtain ⟨window, mem, inside⟩ := splitWindows_cover chunkBlocks deps.discoveryWindows low high
      refine ⟨windowWork deps.factories window, List.mem_map.2 ⟨window, ?_, rfl⟩,
        windowWork_mem known inside.1 inside.2⟩
      rw [windows]
      exact mem
  · unfold ensure
    rw [if_neg (by rw [some_]; decide), planned]

/-! ## Setters -/

theorem Hopeful.same {k : Nat} (hopeful : Hopeful d' k) (scans : d'.scans = d.scans)
    (generation : d'.generation = d.generation) : Hopeful d k := by
  have at_ : ∀ {k t}, d'.At k t → d.At k t := by
    intro k t here
    unfold At at here ⊢
    rw [← scans]
    exact here
  induction hopeful with
  | running here current status => exact .running (at_ here) (current.trans generation) status
  | @free k t here current status resolved =>
      refine .free (at_ here) (current.trans generation) status ?_
      unfold isResolved scanStatus at resolved ⊢
      rw [← scans]
      exact resolved
  | behind here current status link _ ih =>
      exact .behind (at_ here) (current.trans generation) status link ih

/-- A floor that keeps the coverage of the watermark. -/
theorem Ahead.setFloor (ahead : Ahead d start began seeded) {floor : Int}
    (kept : 0 ≤ d.through → began ≤ max floor (seeded + 1)) :
    Ahead (d.setFloor floor) start began seeded :=
  ⟨ahead.optimistic, fun k hopeful => ahead.hopeful k (hopeful.same rfl rfl), ahead.confirmed, kept,
    ahead.low, ahead.base⟩

/-- A seed is adopted where nothing was planned or everything failed. -/
theorem Ahead.adopted (ahead : Ahead d start began seeded) (covering : Covering deps d start)
    (virgin : d.through = -1) {throughBlock : Int} (floored : 0 ≤ d.floor)
    (le : d.floor ≤ throughBlock) :
    Ahead { d with through := throughBlock, confirmed := throughBlock } start (throughBlock + 1)
      throughBlock := by
  refine ⟨.inl rfl, ?_, ?_, ?_, ?_, ?_⟩
  · intro k hopeful
    have was := (ahead.hopeful k (hopeful.same rfl rfl)).1.reach covering
    omega
  · intro b low high
    exact absurd high (Int.not_le.2 (Int.lt_of_add_one_le low))
  · exact fun _ => Int.le_max_right _ _
  · exact ⟨.inr (Int.le_trans floored le), .inr (Int.le_trans floored le)⟩
  · omega

/-- After a reset no scan is of the current generation. -/
theorem Ahead.reset (ordered : Ordered d) : Ahead (d.reset deps) start 0 (-1) := by
  refine ⟨.inl rfl, ?_, ?_, ?_, ⟨.inl rfl, .inl rfl⟩, Int.le_refl 0⟩
  · intro k hopeful
    have stale : ∀ i t, (d.reset deps).At i t → t.gen = (d.reset deps).generation → False := by
      intro i t here current
      have older := ordered.gens i t here
      have next : t.gen = d.generation + 1 := current
      omega
    cases hopeful with
    | running here current => exact (stale _ _ here current).elim
    | free here current => exact (stale _ _ here current).elim
    | behind here current => exact (stale _ _ here current).elim
  · intro b low high
    have none_ : b ≤ -1 := high
    omega
  · intro set_
    have unset : (0 : Int) ≤ -1 := set_
    omega

theorem Ordered.reset (ordered : Ordered d) : Ordered (d.reset deps) := by
  have stale : ∀ i t, d.At i t → t.gen = d.generation + 1 → False := by
    intro i t here current
    have older := ordered.gens i t here
    omega
  refine ⟨?_, ?_, ?_, ?_⟩
  · exact fun _ j _ t _ _ here _ current => (stale j t here current).elim
  · exact fun j t here current => (stale j t here current).elim
  · exact .inl ⟨rfl, fun i t here current => (stale i t here current).elim⟩
  · exact fun i t here => Nat.le_succ_of_le (ordered.gens i t here)

end Discovery

end PortalPonder.Historical
