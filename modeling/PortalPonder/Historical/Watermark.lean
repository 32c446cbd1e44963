import PortalPonder.Historical.Scans

/-!
# The discovery watermark

What the confirmed watermark and the promises of `ensure` certify in every run. A run keeps a
history beside the state: the seed of the current generation, where the coverage of the current
watermark began, and the calls of `ensure` with what was in force when they were made.
-/

namespace PortalPonder.Historical

open Discovery

variable {F A : Type}

/-- A call of `ensure`, with the floor and the seed at the time, and the promise it returned. -/
structure EnsureCall where
  needTo : Nat
  floor : Int
  seeded : Int
  promise : Option Nat
  deriving DecidableEq, Repr

/-- A discovery with its history. -/
structure Traced (F A : Type) where
  disc : Discovery F A
  /-- the seed of the current generation, or -1 -/
  seeded : Int
  /-- where the coverage of the current watermark begins -/
  began : Int
  calls : List EnsureCall

namespace Traced

/-- A seed that is adopted. -/
def Seeds (d : Discovery F A) (throughBlock : Int) : Prop :=
  0 ≤ d.floor ∧ d.through = -1 ∧ d.confirmed = -1 ∧ d.floor ≤ throughBlock

instance (d : Discovery F A) (throughBlock : Int) : Decidable (Seeds d throughBlock) :=
  inferInstanceAs (Decidable (_ ∧ _ ∧ _ ∧ _))

def init (deps : DiscoveryDeps F A) : Traced F A := ⟨createDiscovery deps, -1, 0, []⟩

/-- What a step adds to the history; `disc` is the state after it. -/
def remember (deps : DiscoveryDeps F A) (s : Traced F A) (disc : Discovery F A) :
    Action → Traced F A
  | .seed throughBlock =>
      if Seeds s.disc throughBlock then
        { s with disc, seeded := throughBlock, began := throughBlock + 1 }
      else { s with disc }
  | .reset => { s with disc, seeded := -1, began := 0 }
  | .ensure needTo chunkBlocks endHint =>
      { s with
        disc
        began := if s.disc.through < 0 ∧ 0 ≤ disc.through then s.disc.floor else s.began
        calls := s.calls ++ [⟨needTo, s.disc.floor, s.seeded,
          (s.disc.ensure deps needTo chunkBlocks endHint).2⟩] }
  | _ => { s with disc }

section

variable [DecidableEq F] [DecidableEq A]

def step (deps : DiscoveryDeps F A) (s : Traced F A) (a : Action) : Option (Traced F A) :=
  (s.disc.step deps a).map fun disc => s.remember deps disc a

end

/-- The floor is not lowered below where the coverage of a set watermark began; what a seed
vouches for is covered anyway. -/
def FloorKept (s : Traced F A) : Action → Prop
  | .setFloor floorBlock =>
      s.disc.through < 0 ∨ s.began ≤ floorBlock ∨ s.began ≤ s.seeded + 1
  | _ => True

end Traced

/-! ## Deliveries -/

namespace Discovery

variable [DecidableEq F] [DecidableEq A] {deps : DiscoveryDeps F A} {d : Discovery F A}

/-- Everything but the child map and the queue. -/
def Unrecorded (d d' : Discovery F A) : Prop :=
  d'.scans = d.scans ∧ d'.floor = d.floor ∧ d'.through = d.through ∧ d'.confirmed = d.confirmed ∧
    d'.inflight = d.inflight ∧ d'.generation = d.generation

theorem record_unrecorded (f : F) (bn : Int) (c : A) : Unrecorded d (d.record f bn c) := by
  unfold record
  split <;> exact ⟨rfl, rfl, rfl, rfl, rfl, rfl⟩

/-- The lower of two creation blocks, the first of which may be unknown. -/
def minBlock (prev : Option Int) (bn : Int) : Int :=
  match prev with
  | none => bn
  | some prev => min prev bn

theorem minBlock_le (prev : Option Int) (bn : Int) : minBlock prev bn ≤ bn := by
  cases prev with
  | none => exact Int.le_refl bn
  | some p => exact Int.min_le_right p bn

omit [DecidableEq F] in
theorem has_iff {known : Children F A} {f : F} {c : A} {m : Int} :
    known.Has f c m ↔ (known f).get? c = some m :=
  ⟨fun here => (known f).get?_of_mem here, fun found => (known f).mem_of_get? found⟩

/-- What a record leaves in the child map. -/
theorem record_children (f : F) (bn : Int) (c : A) (g : F) (x : A) :
    ((d.record f bn c).childAddresses g).get? x =
      if g = f ∧ x = c then some (minBlock ((d.childAddresses f).get? c) bn)
      else (d.childAddresses g).get? x := by
  unfold record
  by_cases news : isNews ((d.childAddresses f).get? c) bn = true
  · rw [if_pos news]
    have lowest : minBlock ((d.childAddresses f).get? c) bn = bn := by
      cases known : (d.childAddresses f).get? c with
      | none => rfl
      | some p =>
          rw [known] at news
          exact Int.min_eq_right (Int.le_of_lt (of_decide_eq_true news))
    rw [lowest]
    show (if g = f then (d.childAddresses g).set c bn else d.childAddresses g).get? x = _
    by_cases factory : g = f
    · rw [if_pos factory, OrdMap.get?_set]
      simp [factory]
    · rw [if_neg factory, if_neg fun both => factory both.1]
  · rw [if_neg news]
    by_cases same : g = f ∧ x = c
    · obtain ⟨rfl, rfl⟩ := same
      rw [if_pos ⟨rfl, rfl⟩]
      cases known : (d.childAddresses g).get? x with
      | none =>
          rw [known] at news
          exact absurd rfl news
      | some p =>
          rw [known] at news
          have le : ¬ p > bn := fun lower => news (decide_eq_true lower)
          exact congrArg some (Int.min_eq_left (Int.not_lt.1 le)).symm
    · rw [if_neg same]

theorem record_improves (f : F) (bn : Int) (c : A) : Improves d (d.record f bn c) := by
  intro g x m known
  simp only [has_iff] at known ⊢
  rw [record_children]
  by_cases same : g = f ∧ x = c
  · obtain ⟨rfl, rfl⟩ := same
    rw [if_pos ⟨rfl, rfl⟩, known]
    exact ⟨_, rfl, Int.min_le_left m bn⟩
  · rw [if_neg same]
    exact ⟨m, known, Int.le_refl m⟩

theorem Genuine.record (genuine : Genuine deps d) {f : F} {bn : Int} {c : A}
    (created : c ∈ deps.creations f bn) : Genuine deps (d.record f bn c) := by
  intro g x m known
  rw [has_iff, record_children] at known
  by_cases same : g = f ∧ x = c
  · obtain ⟨rfl, rfl⟩ := same
    rw [if_pos ⟨rfl, rfl⟩] at known
    obtain rfl := Option.some.inj known
    cases prev : (d.childAddresses g).get? x with
    | none => exact .inr created
    | some p =>
        show deps.preloaded.Has g x (min p bn) ∨ x ∈ deps.creations g (min p bn)
        rcases Int.le_total p bn with le | le
        · rw [Int.min_eq_left le]
          exact genuine g x p (has_iff.2 prev)
        · rw [Int.min_eq_right le]
          exact .inr created
  · rw [if_neg same] at known
    exact genuine g x m (has_iff.2 known)

/-- All the children of one block and factory. -/
def recordAll (d : Discovery F A) (f : F) (bn : Int) (children : List A) : Discovery F A :=
  children.foldl (fun d child => d.record f bn child) d

theorem recordAll_unrecorded (f : F) (bn : Int) (children : List A) :
    Unrecorded d (d.recordAll f bn children) := by
  induction children generalizing d with
  | nil => exact ⟨rfl, rfl, rfl, rfl, rfl, rfl⟩
  | cons c children ih =>
      obtain ⟨a1, a2, a3, a4, a5, a6⟩ := record_unrecorded (d := d) f bn c
      obtain ⟨b1, b2, b3, b4, b5, b6⟩ := ih (d := d.record f bn c)
      exact ⟨b1.trans a1, b2.trans a2, b3.trans a3, b4.trans a4, b5.trans a5, b6.trans a6⟩

theorem recordAll_improves (f : F) (bn : Int) (children : List A) :
    Improves d (d.recordAll f bn children) := by
  induction children generalizing d with
  | nil => exact Improves.rfl d
  | cons c children ih => exact (record_improves f bn c).trans ih

/-- Every child of the list is known from `bn` on at the latest. -/
theorem recordAll_known (f : F) (bn : Int) (children : List A) :
    ∀ c ∈ children, ∃ m, (d.recordAll f bn children).childAddresses.Has f c m ∧ m ≤ bn := by
  induction children generalizing d with
  | nil =>
      intro c mem
      cases mem
  | cons c children ih =>
      intro x mem
      rcases List.mem_cons.1 mem with rfl | mem
      · have here := record_children (d := d) f bn x f x
        rw [if_pos ⟨rfl, rfl⟩] at here
        obtain ⟨m, known, le⟩ := recordAll_improves f bn children f x _ (has_iff.2 here)
        exact ⟨m, known, Int.le_trans le (minBlock_le _ _)⟩
      · exact ih x mem

theorem Genuine.recordAll (genuine : Genuine deps d) {f : F} {bn : Int} {children : List A}
    (created : ∀ c ∈ children, c ∈ deps.creations f bn) : Genuine deps (d.recordAll f bn children) := by
  induction children generalizing d with
  | nil => exact genuine
  | cons c children ih =>
      exact ih (genuine.record (created c List.mem_cons_self))
        fun x mem => created x (List.mem_cons_of_mem c mem)

end Discovery

/-! ## Runs -/

/-- A promise of `ensure`, once resolved, certifies what was asked for: it is covered already, or
by the scan whose promise it is. -/
def CallCovered (deps : DiscoveryDeps F A) (d : Discovery F A) (start : Nat → Int)
    (call : EnsureCall) : Prop :=
  deps.factories = [] ∨ call.floor < 0 ∨
    (∀ b, call.floor ≤ b → b ≤ call.needTo → call.seeded < b → ∃ gen, d.Scanned gen b) ∨
    ∃ i scan, call.promise = some i ∧ d.At i scan ∧
      start i ≤ max call.floor (call.seeded + 1) ∧ call.needTo ≤ scan.toBlock

/-- The invariant of the runs. -/
structure Watermark (deps : DiscoveryDeps F A) (s : Traced F A) (start : Nat → Int) : Prop where
  ordered : Ordered s.disc
  covering : Covering deps s.disc start
  ahead : Ahead s.disc start s.began s.seeded
  genuine : Genuine deps s.disc
  calls : ∀ call ∈ s.calls, CallCovered deps s.disc start call

variable {deps : DiscoveryDeps F A} {d d' : Discovery F A} {start : Nat → Int} {s t : Traced F A}
  {i : Nat} {scan scan' : Scan F}

theorem CallCovered.moved {call : EnsureCall} (covered : CallCovered deps d start call)
    (moved : Moved d d' i scan scan') : CallCovered deps d' start call := by
  rcases covered with none_ | unset | all | ⟨k, u, promise, here, first, reach⟩
  · exact .inl none_
  · exact .inr (.inl unset)
  · refine .inr (.inr (.inl fun b low high new => ?_))
    obtain ⟨gen, went⟩ := all b low high new
    exact ⟨gen, moved.scanned went⟩
  · obtain ⟨u', here', _, _, _, toBlock, _⟩ := moved.forth here
    exact .inr (.inr (.inr ⟨k, u', promise, here', first, toBlock ▸ reach⟩))

theorem Watermark.init (deps : DiscoveryDeps F A) (start : Nat → Int) :
    Watermark deps (Traced.init deps) start := by
  have none_ : ∀ i scan, ¬ (createDiscovery deps).At i scan := by
    intro i scan here
    cases here
  refine ⟨⟨?_, ?_, .inl ⟨rfl, ?_⟩, ?_⟩, ⟨?_, ?_, ?_, ?_, ?_, ?_, ?_⟩,
    ⟨.inl rfl, ?_, ?_, ?_, ⟨.inl rfl, .inl rfl⟩, Int.le_refl 0⟩, ?_, ?_⟩
  · exact fun i j si sj _ here => (none_ i si here).elim
  · exact fun i si here => (none_ i si here).elim
  · exact fun i si here => (none_ i si here).elim
  · exact fun i si here => (none_ i si here).elim
  · exact fun i si here => (none_ i si here).elim
  · exact fun i si _ here => (none_ i si here).elim
  · exact fun i si here => (none_ i si here).elim
  · exact fun i si here => (none_ i si here).elim
  · exact fun i si here => (none_ i si here).elim
  · exact fun i si here => (none_ i si here).elim
  · exact fun i si here => (none_ i si here).elim
  · intro k hopeful
    cases hopeful with
    | running here => exact (none_ _ _ here).elim
    | free here => exact (none_ _ _ here).elim
    | behind here => exact (none_ _ _ here).elim
  · intro b low high
    have unset : b ≤ -1 := high
    have base : (0 : Int) ≤ b := low
    omega
  · intro set_
    have unset : (0 : Int) ≤ -1 := set_
    omega
  · exact fun f c m known => .inl known
  · intro call mem
    cases mem

/-- The steps that move one scan keep the invariant. -/
theorem Watermark.move (inv : Watermark deps s start) {disc : Discovery F A}
    (moved : Moved s.disc disc i scan scan') (ordered : Ordered disc)
    (covering : Covering deps disc start) (ahead : Ahead disc start s.began s.seeded)
    (genuine : Genuine deps disc) : Watermark deps { s with disc } start :=
  ⟨ordered, covering, ahead, genuine, fun call mem => (inv.calls call mem).moved moved⟩

theorem Watermark.started (inv : Watermark deps s start) {disc : Discovery F A}
    (taken : s.disc.start i = some disc) : Watermark deps { s with disc } start := by
  unfold Discovery.start at taken
  split at taken
  next => cases taken
  next scan here =>
    split at taken
    case isFalse => cases taken
    case isTrue can =>
        obtain ⟨waiting, free⟩ := can
        cases taken
        have moved : Moved s.disc (s.disc.setStatus i .running) i scan
            { scan with status := .running } :=
          moved_of_setStatus here rfl fun same => by
            rw [waiting] at same
            cases same
        have unsettled : ¬ Settled ScanStatus.running := by
          unfold Settled
          decide
        refine inv.move moved ?_ ?_ ?_ inv.genuine
        · refine inv.ordered.moved moved rfl (fun _ _ => .inr (.inl free)) ?_ (.inl rfl)
          rintro (same | same) <;> rw [waiting] at same <;> cases same
        · refine inv.covering.moved moved (Improves.rfl _) (fun _ => .inr (.inr free))
            (fun f b todo => .inl todo) (fun same => by cases same)
        · exact inv.ahead.moved inv.ordered moved rfl rfl rfl rfl rfl (fun _ _ => unsettled)
            fun current _ _ => .inl (.free here current waiting free)

/-- A rejection, by the predecessor or by a window. -/
theorem Watermark.rejected (inv : Watermark deps s start) (here : s.disc.At i scan)
    (was : scan.status = .running ∨
      scan.status = .waiting ∧ (scan.earlier.bind s.disc.scanStatus) = some .handled) :
    Watermark deps { s with disc := s.disc.setStatus i .rejected } start := by
  have open_ : scan.status ≠ .resolved ∧ ¬ Settled scan.status := by
    rcases was with status | ⟨status, _⟩ <;> rw [status] <;> unfold Settled <;> decide
  have moved : Moved s.disc (s.disc.setStatus i .rejected) i scan
      { scan with status := .rejected } :=
    moved_of_setStatus here rfl fun same => absurd same open_.1
  have unsettled : ¬ Settled ScanStatus.rejected := by
    unfold Settled
    decide
  refine inv.move moved ?_ ?_ ?_ inv.genuine
  · refine inv.ordered.moved moved rfl (fun _ _ => ?_) (fun same => absurd same open_.2) (.inl rfl)
    rcases was with status | ⟨_, handled⟩
    · exact .inl (by rw [status]; decide)
    · exact .inr (.inr handled)
  · refine inv.covering.moved moved (Improves.rfl _) ?_ (fun f b todo => .inl todo)
      (fun same => by cases same)
    rintro (same | same) <;> cases same
  · exact inv.ahead.moved inv.ordered moved rfl rfl rfl rfl rfl (fun _ _ => unsettled)
      fun _ other _ => absurd rfl other

theorem Watermark.propagated (inv : Watermark deps s start) {disc : Discovery F A}
    (taken : s.disc.propagate i = some disc) : Watermark deps { s with disc } start := by
  unfold Discovery.propagate at taken
  split at taken
  next => cases taken
  next scan here =>
    split at taken
    case isFalse => cases taken
    case isTrue can =>
        cases taken
        exact inv.rejected here (.inr can)

theorem Watermark.failed (inv : Watermark deps s start) {disc : Discovery F A}
    (taken : s.disc.fail i = some disc) : Watermark deps { s with disc } start := by
  unfold Discovery.fail at taken
  split at taken
  case isFalse => cases taken
  case isTrue running =>
      cases taken
      unfold scanStatus at running
      rw [Option.map_eq_some_iff] at running
      obtain ⟨scan, here, status⟩ := running
      exact inv.rejected here (.inl status)

theorem Watermark.resolved (inv : Watermark deps s start) {disc : Discovery F A}
    (taken : s.disc.resolve i = some disc) : Watermark deps { s with disc } start := by
  unfold Discovery.resolve at taken
  split at taken
  next => cases taken
  next scan here =>
    split at taken
    case isFalse => cases taken
    case isTrue can =>
        obtain ⟨running, drained⟩ := can
        have empty : ∀ w ∈ scan.windows, w = [] := by
          intro w mem
          exact List.isEmpty_iff.1 (List.all_eq_true.1 drained w mem)
        have notFinal : scan.status = .resolved → ScanStatus.resolved = .resolved := fun _ => rfl
        have kept : Settled scan.status → Settled ScanStatus.resolved := fun _ => .inl rfl
        have moves : scan.status ≠ .waiting := by
          rw [running]
          decide
        have covers : ∀ {d'}, Moved s.disc d' i scan { scan with status := .resolved } →
            d'.childAddresses = s.disc.childAddresses → Covering deps d' start := by
          intro d' moved children
          refine inv.covering.moved moved (fun f c m known => ⟨m, ?_, Int.le_refl m⟩)
            (fun _ => .inl running) (fun f b todo => .inl todo) (fun _ => empty)
          rw [children]
          exact known
        simp only at taken
        split at taken
        case isTrue stale =>
            cases taken
            have moved : Moved s.disc (s.disc.setStatus i .resolved) i scan
                { scan with status := .resolved } := moved_of_setStatus here rfl notFinal
            refine inv.move moved ?_ (covers moved rfl) ?_ inv.genuine
            · exact inv.ordered.moved moved rfl (fun _ _ => .inl moves) kept (.inl rfl)
            · refine inv.ahead.moved inv.ordered moved rfl rfl rfl rfl rfl (fun flying => ?_)
                fun current _ _ => absurd current stale
              -- the promise in flight is of the current generation
              rcases inv.ordered.last with ⟨none_, _⟩ | ⟨j, tj, some_, _, at_j, current⟩
              · rw [none_] at flying
                cases flying
              · rw [flying] at some_
                obtain rfl := Option.some.inj some_
                exact absurd (At.unique here at_j ▸ current) stale
        case isFalse current =>
            cases taken
            have moved : Moved s.disc { s.disc.setStatus i .resolved with
                  confirmed := scan.toBlock, quantum := s.disc.quantum.map (2 * ·) } i scan
                { scan with status := .resolved } := moved_of_setStatus here rfl notFinal
            refine inv.move moved ?_ (covers moved rfl) ?_ inv.genuine
            · exact inv.ordered.moved moved rfl (fun _ _ => .inl moves) kept (.inl rfl)
            · exact inv.ahead.resolved inv.ordered (covers moved rfl) moved
                (Classical.not_not.1 current) running rfl rfl rfl rfl rfl rfl

theorem Watermark.handled (inv : Watermark deps s start) {disc : Discovery F A}
    (taken : s.disc.handle i = some disc) : Watermark deps { s with disc } start := by
  unfold Discovery.handle at taken
  split at taken
  next => cases taken
  next scan here =>
    split at taken
    case isFalse => cases taken
    case isTrue rejected =>
        have final : scan.status = .resolved → ScanStatus.handled = .resolved := by
          intro same
          rw [rejected] at same
          cases same
        have kept : Settled scan.status → Settled ScanStatus.handled := fun _ => .inr rfl
        have moves : scan.status ≠ .waiting := by
          rw [rejected]
          decide
        have covers : ∀ {d'}, Moved s.disc d' i scan { scan with status := .handled } →
            d'.childAddresses = s.disc.childAddresses → Covering deps d' start := by
          intro d' moved children
          refine inv.covering.moved moved (fun f c m known => ⟨m, ?_, Int.le_refl m⟩)
            ?_ (fun f b todo => .inl todo) (fun same => by cases same)
          · rw [children]
            exact known
          · rintro (same | same) <;> cases same
        simp only at taken
        split at taken
        case isTrue stale =>
            cases taken
            have moved : Moved s.disc (s.disc.setStatus i .handled) i scan
                { scan with status := .handled } := moved_of_setStatus here rfl final
            refine inv.move moved ?_ (covers moved rfl) ?_ inv.genuine
            · exact inv.ordered.moved moved rfl (fun _ _ => .inl moves) kept (.inl rfl)
            · refine inv.ahead.moved inv.ordered moved rfl rfl rfl rfl rfl (fun flying => ?_)
                fun current _ _ => absurd current stale
              rcases inv.ordered.last with ⟨none_, _⟩ | ⟨j, tj, some_, _, at_j, current⟩
              · rw [none_] at flying
                cases flying
              · rw [flying] at some_
                obtain rfl := Option.some.inj some_
                exact absurd (At.unique here at_j ▸ current) stale
        case isFalse current =>
            cases taken
            have moved : Moved s.disc { s.disc.setStatus i .handled with
                  through := s.disc.confirmed
                  inflight := if s.disc.inflight = some i then none else s.disc.inflight } i scan
                { scan with status := .handled } := moved_of_setStatus here rfl final
            refine inv.move moved ?_ (covers moved rfl) ?_ inv.genuine
            · refine inv.ordered.moved moved rfl (fun _ _ => .inl moves) kept ?_
              show (if s.disc.inflight = some i then none else s.disc.inflight) = s.disc.inflight ∨
                (if s.disc.inflight = some i then none else s.disc.inflight) = none ∧ _
              by_cases flying : s.disc.inflight = some i
              · exact .inr ⟨if_pos flying, flying, .inr rfl⟩
              · exact .inl (if_neg flying)
            · exact inv.ahead.rolledBack inv.ordered inv.covering moved
                (Classical.not_not.1 current) rejected rfl rfl rfl rfl rfl

theorem Watermark.setFloor (inv : Watermark deps s start) {floor : Nat}
    (kept : s.FloorKept (.setFloor floor)) :
    Watermark deps { s with disc := s.disc.setFloor floor } start := by
  refine ⟨⟨inv.ordered.front, inv.ordered.link, inv.ordered.last, inv.ordered.gens⟩,
    ⟨inv.covering.reach, inv.covering.chained, inv.covering.started, inv.covering.delivered,
      inv.covering.drained, inv.covering.behind, inv.covering.covered⟩,
    inv.ahead.setFloor fun set_ => ?_, inv.genuine, inv.calls⟩
  rcases kept with unset | below | vouched
  · exact absurd set_ (Int.not_le.2 unset)
  · exact Int.le_trans below (Int.le_max_left _ _)
  · exact Int.le_trans vouched (Int.le_max_right _ _)

theorem Watermark.seed (inv : Watermark deps s start) (throughBlock : Int) :
    Watermark deps (s.remember deps (s.disc.seed throughBlock) (.seed throughBlock)) start := by
  unfold Traced.remember Discovery.seed
  simp only
  by_cases seeds : Traced.Seeds s.disc throughBlock
  · obtain ⟨floored, virgin, none_, le⟩ := id seeds
    rw [if_pos seeds, if_neg (Int.not_lt.2 floored),
      if_neg (fun other => other.elim (fun set_ => set_ virgin) fun set_ => set_ none_),
      if_neg (Int.not_lt.2 le)]
    exact ⟨⟨inv.ordered.front, inv.ordered.link, inv.ordered.last, inv.ordered.gens⟩,
      ⟨inv.covering.reach, inv.covering.chained, inv.covering.started, inv.covering.delivered,
        inv.covering.drained, inv.covering.behind, inv.covering.covered⟩,
      inv.ahead.adopted inv.covering virgin floored le, inv.genuine, inv.calls⟩
  · rw [if_neg seeds]
    have same : (if s.disc.floor < 0 then s.disc
        else if s.disc.through ≠ -1 ∨ s.disc.confirmed ≠ -1 then s.disc
        else if throughBlock < s.disc.floor then s.disc
        else { s.disc with through := throughBlock, confirmed := throughBlock }) = s.disc := by
      split
      · rfl
      · split
        · rfl
        · split
          · rfl
          · next floored virgin le =>
            rw [not_or, Classical.not_not, Classical.not_not] at virgin
            exact absurd ⟨Int.not_lt.1 floored, virgin.1, virgin.2, Int.not_lt.1 le⟩ seeds
    rw [same]
    exact inv

theorem Watermark.reset (inv : Watermark deps s start) :
    Watermark deps (s.remember deps (s.disc.reset deps) .reset) start :=
  ⟨inv.ordered.reset,
    ⟨inv.covering.reach, inv.covering.chained, inv.covering.started, inv.covering.delivered,
      inv.covering.drained, inv.covering.behind, inv.covering.covered⟩,
    Ahead.reset inv.ordered, inv.genuine, inv.calls⟩

/-- No plan is made for what the optimistic watermark has reached. -/
theorem planDiscovery_none {floor through needTo : Int} {opts : PlanOpts}
    (planned : planDiscovery floor through needTo opts = none) : floor < 0 ∨ needTo ≤ through := by
  unfold planDiscovery at planned
  split at planned
  case isTrue unset => exact .inl unset
  case isFalse =>
      split at planned
      case isTrue reached => exact .inr reached
      case isFalse => cases planned

/-- A call that plans nothing is covered by the watermark, or by the promise in flight. -/
theorem Watermark.reached (inv : Watermark deps s start) {needTo : Nat}
    (reached : (needTo : Int) ≤ s.disc.through) :
    CallCovered deps s.disc start ⟨needTo, s.disc.floor, s.seeded, s.disc.inflight⟩ := by
  have first := inv.ahead.floor (Int.le_trans (Int.natCast_nonneg needTo) reached)
  rcases inv.ahead.optimistic with met | ⟨i, scan, flying, here, _, _, reach, begins⟩
  · refine .inr (.inr (.inl fun b low high new => ⟨_, inv.ahead.confirmed b ?_ ?_⟩))
    · have low' : s.disc.floor ≤ b := low
      have new' : s.seeded < b := new
      omega
    · have high' : b ≤ (needTo : Int) := high
      omega
  · refine .inr (.inr (.inr ⟨i, scan, flying, here, ?_, ?_⟩))
    · rw [begins]
      exact first
    · rw [reach]
      exact reached

/-- A call that changes nothing is only remembered. -/
theorem Watermark.called (inv : Watermark deps s start) {call : EnsureCall}
    (covered : CallCovered deps s.disc start call) :
    Watermark deps { s with calls := s.calls ++ [call] } start := by
  refine ⟨inv.ordered, inv.covering, inv.ahead, inv.genuine, ?_⟩
  intro other mem
  rcases List.mem_append.1 mem with old | new
  · exact inv.calls other old
  · rw [List.mem_singleton.1 new]
    exact covered

theorem CallCovered.extended {start' : Nat → Int} {call : EnsureCall}
    (covered : CallCovered deps d start call) (extended : Extended deps d d' scan)
    (same : ∀ k, k < d.scans.length → start' k = start k) : CallCovered deps d' start' call := by
  rcases covered with none_ | unset | all | ⟨k, u, promise, here, first, reach⟩
  · exact .inl none_
  · exact .inr (.inl unset)
  · refine .inr (.inr (.inl fun b low high new => ?_))
    obtain ⟨gen, went⟩ := all b low high new
    exact ⟨gen, extended.scanned went⟩
  · refine .inr (.inr (.inr ⟨k, u, promise, extended.forth here, ?_, reach⟩))
    rw [same k (List.getElem?_eq_some_iff.1 here).1]
    exact first

theorem Watermark.ensure (inv : Watermark deps s start) (needTo chunkBlocks : Nat)
    (endHint : Int) :
    ∃ start', Watermark deps
      (s.remember deps (s.disc.ensure deps needTo chunkBlocks endHint).1
        (.ensure needTo chunkBlocks endHint)) start' := by
  have unmoved : (s.disc.ensure deps needTo chunkBlocks endHint).1 = s.disc →
      s.remember deps (s.disc.ensure deps needTo chunkBlocks endHint).1
        (.ensure needTo chunkBlocks endHint) =
      { s with calls := s.calls ++ [⟨needTo, s.disc.floor, s.seeded,
        (s.disc.ensure deps needTo chunkBlocks endHint).2⟩] } := by
    intro same
    unfold Traced.remember
    simp only [same]
    rw [if_neg fun both => absurd both.2 (Int.not_le.2 both.1)]
  cases none_ : deps.factories.isEmpty with
  | true =>
      have same : s.disc.ensure deps needTo chunkBlocks endHint = (s.disc, none) := by
        unfold Discovery.ensure
        rw [if_pos none_]
      rw [unmoved (by rw [same])]
      exact ⟨start, inv.called (.inl (List.isEmpty_iff.1 none_))⟩
  | false =>
      cases planned : planDiscovery s.disc.floor s.disc.through needTo
          ⟨chunkBlocks, endHint, deps.discoveryWindows, s.disc.quantum⟩ with
      | none =>
          have same : s.disc.ensure deps needTo chunkBlocks endHint =
              (s.disc, s.disc.inflight) := by
            unfold Discovery.ensure
            rw [if_neg (by rw [none_]; decide), planned]
          rw [unmoved (by rw [same]), same]
          refine ⟨start, inv.called ?_⟩
          rcases planDiscovery_none planned with unset | reached
          · exact .inr (.inl unset)
          · exact inv.reached reached
      | some plan =>
          obtain ⟨scan, extended, promise, reach⟩ := ensure_extended none_ planned
          let first := if s.disc.through < 0 then s.disc.floor else s.began
          let start' : Nat → Int := fun k => if k = s.disc.scans.length then first else start k
          have same : ∀ k, k < s.disc.scans.length → start' k = start k :=
            fun k lt => if_neg (Nat.ne_of_lt lt)
          have new : start' s.disc.scans.length = first := if_pos rfl
          have begins : (if s.disc.through < 0 ∧
              0 ≤ (s.disc.ensure deps needTo chunkBlocks endHint).1.through
              then s.disc.floor else s.began) = first := by
            have set_ : 0 ≤ (s.disc.ensure deps needTo chunkBlocks endHint).1.through := by
              rw [extended.through]
              exact extended.reach
            simp only [set_, and_true, first]
          refine ⟨start', inv.ordered.extended extended,
            inv.covering.extended inv.ordered inv.ahead extended same new, ?_, ?_, ?_⟩
          · show Ahead (s.disc.ensure deps needTo chunkBlocks endHint).1 start' (if _ then _ else _)
              s.seeded
            rw [begins]
            exact inv.ahead.extended inv.covering extended same new rfl
          · intro f c m known
            refine inv.genuine f c m ?_
            rw [← extended.children]
            exact known
          · intro call mem
            rcases List.mem_append.1 mem with old | last
            · exact (inv.calls call old).extended extended same
            · rw [List.mem_singleton.1 last]
              refine .inr (.inr (.inr ⟨_, scan, promise, extended.new, ?_, reach⟩))
              show start' s.disc.scans.length ≤ max s.disc.floor (s.seeded + 1)
              rw [new]
              show (if s.disc.through < 0 then s.disc.floor else s.began) ≤ _
              split
              · exact Int.le_max_left _ _
              · next set_ => exact inv.ahead.floor (Int.not_lt.1 set_)

/-- A resolved promise of `ensure`: the children of every block it was asked for are known. -/
theorem Watermark.certifies (inv : Watermark deps s start) {call : EnsureCall} (mem : call ∈ s.calls)
    (resolved : s.disc.isResolved call.promise = true) (floored : 0 ≤ call.floor) {f : F}
    (known : f ∈ deps.factories) {b : Int} (low : call.floor ≤ b) (high : b ≤ call.needTo)
    (new : call.seeded < b) : Recorded deps s.disc f b := by
  rcases inv.calls call mem with none_ | unset | all | ⟨i, scan, promise, here, first, reach⟩
  · rw [none_] at known
    cases known
  · omega
  · obtain ⟨gen, went⟩ := all b low high new
    exact inv.covering.recorded went known
  · rw [promise] at resolved
    obtain ⟨scan', here', status⟩ := isResolved_some.1 resolved
    obtain rfl := At.unique here here'
    exact inv.covering.recorded
      (inv.covering.covered i scan here status b (by omega) (by omega)) known

section

variable [DecidableEq F] [DecidableEq A]

theorem Watermark.delivered (inv : Watermark deps s start) {w : Nat} {disc : Discovery F A}
    (taken : s.disc.deliver deps i w = some disc) : Watermark deps { s with disc } start := by
  unfold Discovery.deliver at taken
  split at taken
  next => cases taken
  next scan here =>
    split at taken
    case isTrue => cases taken
    case isFalse opened =>
        split at taken
        next f b todo window =>
          cases taken
          let read : Discovery F A := { s.disc with
            scans := s.disc.scans.set i { scan with windows := scan.windows.set w todo } }
          obtain ⟨scans, floor, through, confirmed, inflight, generation⟩ :=
            recordAll_unrecorded (d := read) f b (deps.creations f b)
          have better : Improves s.disc (read.recordAll f b (deps.creations f b)) :=
            recordAll_improves (d := read) f b (deps.creations f b)
          have known := recordAll_known (d := read) f b (deps.creations f b)
          have moved : Moved s.disc (read.recordAll f b (deps.creations f b)) i scan
              { scan with windows := scan.windows.set w todo } := moved_of_set here scans
          have lt := (List.getElem?_eq_some_iff.1 window).1
          refine inv.move moved ?_ ?_ ?_ ?_
          · exact inv.ordered.moved moved generation (fun _ left => .inl left) id (.inl inflight)
          · refine inv.covering.moved moved better ?_ ?_ ?_
            · exact fun status => status.imp_right .inl
            · -- what this window had to deliver it still has, or it is delivered now
              rintro g x ⟨v, mem, todo_⟩
              obtain ⟨k, at_k⟩ := List.mem_iff_getElem?.1 mem
              by_cases mine : k = w
              · subst mine
                rw [window] at at_k
                obtain rfl := Option.some.inj at_k
                rcases List.mem_cons.1 todo_ with now | later
                · cases now
                  exact .inr known
                · refine .inl ⟨todo, List.mem_iff_getElem?.2 ⟨k, ?_⟩, later⟩
                  exact List.getElem?_set_self lt
              · refine .inl ⟨v, List.mem_iff_getElem?.2 ⟨k, ?_⟩, todo_⟩
                rw [List.getElem?_set_ne fun same => mine same.symm]
                exact at_k
            · intro resolved v mem
              have empty := inv.covering.drained i scan here resolved
              have full := empty _ (List.mem_iff_getElem?.2 ⟨w, window⟩)
              cases full
          · refine inv.ahead.moved inv.ordered moved generation through confirmed floor inflight
              (fun _ open_ => open_) fun current notRejected notHandled => ?_
            cases status : scan.status with
            | waiting => exact absurd status opened
            | running => exact .inl (.running here current status)
            | resolved => exact .inr rfl
            | rejected => exact absurd status notRejected
            | handled => exact absurd status notHandled
          · exact Genuine.recordAll (d := read) inv.genuine fun c mem => mem
        next => cases taken

/-- Sharing a child changes the child map only. -/
theorem share_eq (d : Discovery F A) (f : F) (bn : Int) (child : A) :
    d.share f bn child = { d with childAddresses := (d.record f bn child).childAddresses } := by
  unfold share record
  split <;> rfl

theorem Watermark.shared (inv : Watermark deps s start) {f : F} {bn : Int} {child : A}
    (created : child ∈ deps.creations f bn) :
    Watermark deps { s with disc := s.disc.share f bn child } start := by
  have better : Improves s.disc (s.disc.share f bn child) :=
    record_improves (d := s.disc) f bn child
  have genuine : Genuine deps (s.disc.share f bn child) :=
    Genuine.record (d := s.disc) inv.genuine created
  rw [share_eq] at better genuine ⊢
  refine ⟨⟨inv.ordered.front, inv.ordered.link, inv.ordered.last, inv.ordered.gens⟩,
    ⟨inv.covering.reach, inv.covering.chained, inv.covering.started, ?_, inv.covering.drained,
      inv.covering.behind, inv.covering.covered⟩,
    ⟨inv.ahead.optimistic, ?_, inv.ahead.confirmed, inv.ahead.floor, inv.ahead.low, inv.ahead.base⟩,
    genuine, inv.calls⟩
  · intro i scan here g known b low high
    exact (inv.covering.delivered i scan here g known b low high).imp_right fun recorded =>
      recorded.mono better
  · exact fun k hopeful => inv.ahead.hopeful k (hopeful.same rfl rfl)

theorem Watermark.step (inv : Watermark deps s start) {a : Action} (kept : s.FloorKept a)
    (taken : s.step deps a = some t) : ∃ start', Watermark deps t start' := by
  unfold Traced.step at taken
  rw [Option.map_eq_some_iff] at taken
  obtain ⟨disc, taken, rfl⟩ := taken
  cases a with
  | setFloor floor =>
      cases taken
      exact ⟨start, inv.setFloor kept⟩
  | seed throughBlock =>
      cases taken
      exact ⟨start, inv.seed throughBlock⟩
  | reset =>
      cases taken
      exact ⟨start, inv.reset⟩
  | ensure needTo chunkBlocks endHint =>
      cases taken
      exact inv.ensure needTo chunkBlocks endHint
  | start i => exact ⟨start, inv.started taken⟩
  | propagate i => exact ⟨start, inv.propagated taken⟩
  | deliver i w => exact ⟨start, inv.delivered taken⟩
  | resolve i => exact ⟨start, inv.resolved taken⟩
  | fail i => exact ⟨start, inv.failed taken⟩
  | handle i => exact ⟨start, inv.handled taken⟩

theorem watermark_of_reach
    (reached : Machine.Reach (Traced.step deps) Traced.FloorKept (Traced.init deps) s) :
    ∃ start, Watermark deps s start := by
  refine reached.invariant (I := fun s => ∃ start, Watermark deps s start)
    ⟨fun _ => 0, .init deps _⟩ ?_
  rintro s a t _ ⟨start, inv⟩ kept taken
  exact inv.step kept taken

/-- In every run that keeps the floor: the confirmed watermark covers only what was seeded or
scanned by a successful scan of the current generation; a resolved `ensure` has recorded the
children of every block it was asked for, each with its first creation block there; a scan behind
a failed one only gets rejected; and a plan goes on from the confirmed watermark, or from the end
of the unsettled scan it awaits. -/
theorem watermark_sound
    (reached : Machine.Reach (Traced.step deps) Traced.FloorKept (Traced.init deps) s) :
    (∀ b, 0 ≤ s.disc.floor → s.disc.floor ≤ b → b ≤ s.disc.confirmed →
      b ≤ s.seeded ∨ s.disc.Scanned s.disc.generation b) ∧
    (∀ call ∈ s.calls, s.disc.isResolved call.promise = true → 0 ≤ call.floor →
      call.floor ≤ call.needTo → ∀ f ∈ deps.factories, ∀ b, call.floor ≤ b → b ≤ call.needTo →
      call.seeded < b → ∀ c ∈ deps.creations f b, ∃ m,
        (s.disc.childAddresses f).get? c = some m ∧ m ≤ b ∧
        (deps.preloaded.Has f c m ∨ c ∈ deps.creations f m)) ∧
    (∀ i scan j earlier, s.disc.At i scan → scan.earlier = some j → s.disc.At j earlier →
      earlier.status = .rejected ∨ earlier.status = .handled →
      (scan.status = .waiting ∨ scan.status = .rejected ∨ scan.status = .handled) ∧
      (scan.status = .waiting → earlier.status = .handled →
        s.disc.propagate i = some (s.disc.setStatus i .rejected))) ∧
    ∀ needTo opts plan,
      planDiscovery s.disc.floor s.disc.through needTo opts = some plan →
      needTo ≤ plan.toBlock ∧
      (plan.fromBlock = s.disc.floor ∧ s.disc.confirmed < 0 ∨
        plan.fromBlock = s.disc.confirmed + 1 ∨
        ∃ i scan, s.disc.inflight = some i ∧ s.disc.At i scan ∧ ¬ Settled scan.status ∧
          scan.gen = s.disc.generation ∧ plan.fromBlock = scan.toBlock + 1) := by
  obtain ⟨start, inv⟩ := watermark_of_reach reached
  refine ⟨?_, ?_, ?_, ?_⟩
  · intro b floored low high
    by_cases vouched : b ≤ s.seeded
    · exact .inl vouched
    · refine .inr (inv.ahead.confirmed b ?_ high)
      have set_ : 0 ≤ s.disc.through := by
        rcases inv.ahead.optimistic with met | target
        · omega
        · exact target.reach inv.covering
      have first := inv.ahead.floor set_
      omega
  · intro call mem resolved floored _ f known b low high new c created
    obtain ⟨m, there, le⟩ := inv.certifies mem resolved floored known low high new c created
    exact ⟨m, has_iff.1 there, le, inv.genuine f c m there⟩
  · intro i scan j earlier here link at_j failed
    refine ⟨?_, fun waiting handled => ?_⟩
    · have unresolved : scan.status = .running ∨ scan.status = .resolved → False := by
        intro active
        have free := inv.covering.started i scan here active
        rw [link] at free
        obtain ⟨t, at_j', status⟩ := isResolved_some.1 free
        obtain rfl := At.unique at_j at_j'
        rcases failed with other | other <;> rw [status] at other <;> cases other
      cases status : scan.status with
      | waiting => exact .inl rfl
      | running => exact (unresolved (.inl status)).elim
      | resolved => exact (unresolved (.inr status)).elim
      | rejected => exact .inr (.inl rfl)
      | handled => exact .inr (.inr rfl)
    · unfold propagate
      have at_i : s.disc.scans[i]? = some scan := here
      have status : s.disc.scanStatus j = some .handled := by
        unfold scanStatus
        rw [show s.disc.scans[j]? = some earlier from at_j, Option.map_some, handled]
      simp only [at_i]
      rw [link, Option.bind_some, if_pos ⟨waiting, status⟩]
  · intro needTo opts plan planned
    obtain ⟨_, _, begins, reach, _⟩ := planDiscovery_some planned
    refine ⟨reach, ?_⟩
    by_cases virgin : s.disc.through < 0
    · rw [if_pos virgin] at begins
      refine .inl ⟨begins, ?_⟩
      rcases inv.ahead.optimistic with met | target
      · omega
      · exact absurd (target.reach inv.covering) (Int.not_le.2 virgin)
    · rw [if_neg virgin] at begins
      rcases inv.ahead.optimistic with met | ⟨i, scan, flying, here, current, open_, end_, _⟩
      · exact .inr (.inl (by rw [begins, met]))
      · exact .inr (.inr ⟨i, scan, flying, here, open_, current, by rw [begins, end_]⟩)

end

/-! ## Two runs -/

/-- One factory, which creates child 7 in block 1. -/
def sampleDeps : DiscoveryDeps Unit Nat where
  factories := [()]
  creations := fun _ b => if b = 1 then [7] else []
  discoveryWindows := 2
  initialQuantum := none
  preloaded := fun _ => OrdMap.empty

instance (s : Traced Unit Nat) (a : Action) : Decidable (s.FloorKept a) := by
  cases a <;> unfold Traced.FloorKept <;> infer_instance

/-- A scan of `[0, 3]` that fails, and one that succeeds. -/
def sampleActions : List Action :=
  [.setFloor 0, .ensure 3 2 3, .start 0, .deliver 0 1, .fail 0, .handle 0, .ensure 3 9 3, .start 1,
    .deliver 1 0, .deliver 1 0, .deliver 1 0, .deliver 1 0, .resolve 1]

def sampleEnd : Traced Unit Nat :=
  (Machine.replay (Traced.step sampleDeps) (Traced.init sampleDeps) sampleActions).get
    (by decide +kernel)

theorem watermark_sound_sample :
    sampleEnd.disc.confirmed = 3 ∧ ∀ b, 0 ≤ sampleEnd.disc.floor → sampleEnd.disc.floor ≤ b →
      b ≤ sampleEnd.disc.confirmed →
      b ≤ sampleEnd.seeded ∨ sampleEnd.disc.Scanned sampleEnd.disc.generation b :=
  ⟨by decide +kernel, (watermark_sound (Machine.Reach.init.replay (by decide +kernel)
    (Option.some_get (by decide +kernel)).symm : Machine.Reach (Traced.step sampleDeps)
      Traced.FloorKept (Traced.init sampleDeps) sampleEnd)).1⟩

/-- A floor that is lowered behind a scan. -/
def loweredActions : List Action :=
  [.setFloor 2, .ensure 3 9 3, .start 0, .deliver 0 0, .deliver 0 0, .resolve 0, .setFloor 1,
    .ensure 2 9 2]

def loweredEnd : Traced Unit Nat :=
  (Machine.replay (Traced.step sampleDeps) (Traced.init sampleDeps) loweredActions).get
    (by decide +kernel)

/-- Without that condition a resolved `ensure` can miss a child. -/
theorem lowered_floor_misses_child :
    ¬ ∀ s : Traced Unit Nat,
      Machine.Reach (Traced.step sampleDeps) (fun _ _ => True) (Traced.init sampleDeps) s →
      ∀ call ∈ s.calls, s.disc.isResolved call.promise = true → 0 ≤ call.floor →
      call.floor ≤ call.needTo → ∀ f ∈ sampleDeps.factories, ∀ b, call.floor ≤ b →
      b ≤ call.needTo → call.seeded < b → ∀ c ∈ sampleDeps.creations f b,
      ∃ m, (s.disc.childAddresses f).get? c = some m := by
  intro always
  have reached : Machine.Reach (Traced.step sampleDeps) (fun _ _ => True)
      (Traced.init sampleDeps) loweredEnd :=
    Machine.Reach.init.replay (by decide +kernel) (Option.some_get (by decide +kernel)).symm
  obtain ⟨m, known⟩ := always loweredEnd reached ⟨2, 1, -1, some 0⟩ (by decide +kernel)
    (by decide +kernel) (by decide) (by decide) () (by decide) 1 (by decide) (by decide)
    (by decide) 7 (by decide)
  have missing : (loweredEnd.disc.childAddresses ()).get? 7 = none := by decide +kernel
  rw [missing] at known
  cases known

end PortalPonder.Historical
