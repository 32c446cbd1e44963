import PortalPonder.Historical.ChunkCache

/-!
# No seed is adopted late

A seed is adopted by a discovery whose watermark was never set, or was rolled back to where it was
never set. Once an `ensure` has resolved the confirmed watermark is set, and it stays set: from
then on no seed is adopted. Scans of an earlier generation would confirm nothing; here there are
none, since the grid is reset before anything is planned.
-/

namespace PortalPonder.Historical

open Discovery

variable {F A : Type} {deps : DiscoveryDeps F A} {d d' : Discovery F A} {s : Traced F A}

/-- The confirmed watermark is set, unless there is nothing to discover. -/
def Confirmed (deps : DiscoveryDeps F A) (d : Discovery F A) : Prop :=
  deps.factories = [] ∨ 0 ≤ d.confirmed

/-! ## What a background step can do -/

/-- One scan moves, and the children only improve. The confirmed watermark moves to the end of
that scan, or it stays and no scan of the current generation becomes resolved. -/
structure Background (d d' : Discovery F A) : Prop where
  better : Improves d d'
  floor : d'.floor = d.floor
  generation : d'.generation = d.generation
  moved : ∃ i scan scan', Moved d d' i scan scan' ∧
    (d'.confirmed = scan.toBlock ∨ d'.confirmed = d.confirmed ∧
      (scan'.status = .resolved → scan.status = .resolved ∨ scan.gen ≠ d.generation))

theorem Discovery.Improves.of_eq (same : d'.childAddresses = d.childAddresses) : Improves d d' :=
  fun _ _ m known => ⟨m, by rw [same]; exact known, Int.le_refl m⟩

/-- Only the status of a scan is set, to one that is not `resolved`. -/
theorem background_setStatus {i : Nat} {scan : Scan F} (here : d.At i scan) {status : ScanStatus}
    (open_ : scan.status ≠ .resolved) (still : status ≠ .resolved)
    (scans : d'.scans = (d.setStatus i status).scans)
    (same : d'.childAddresses = d.childAddresses ∧ d'.floor = d.floor ∧
      d'.generation = d.generation ∧ d'.confirmed = d.confirmed) : Background d d' :=
  ⟨.of_eq same.1, same.2.1, same.2.2.1, i, scan, _,
    moved_of_setStatus here scans fun resolved => absurd resolved open_,
    .inr ⟨same.2.2.2, fun resolved => absurd resolved still⟩⟩

theorem background_start {i : Nat} (taken : d.start i = some d') : Background d d' := by
  unfold Discovery.start at taken
  split at taken
  next => cases taken
  next scan here =>
    split at taken
    case isFalse => cases taken
    case isTrue can =>
        cases taken
        exact background_setStatus here (by simp [can.1]) (by simp) rfl ⟨rfl, rfl, rfl, rfl⟩

theorem background_propagate {i : Nat} (taken : d.propagate i = some d') : Background d d' := by
  unfold Discovery.propagate at taken
  split at taken
  next => cases taken
  next scan here =>
    split at taken
    case isFalse => cases taken
    case isTrue can =>
        cases taken
        exact background_setStatus here (by simp [can.1]) (by simp) rfl ⟨rfl, rfl, rfl, rfl⟩

theorem background_fail {i : Nat} (taken : d.fail i = some d') : Background d d' := by
  unfold Discovery.fail at taken
  split at taken
  case isFalse => cases taken
  case isTrue running =>
      cases taken
      obtain ⟨scan, here, status⟩ := Option.map_eq_some_iff.1 running
      exact background_setStatus here (by simp [status]) (by simp) rfl ⟨rfl, rfl, rfl, rfl⟩

theorem background_handle {i : Nat} (taken : d.handle i = some d') : Background d d' := by
  unfold Discovery.handle at taken
  split at taken
  next => cases taken
  next scan here =>
    split at taken
    case isFalse => cases taken
    case isTrue rejected =>
        have open_ : scan.status ≠ .resolved := by simp [rejected]
        dsimp only at taken
        split at taken
        · cases taken
          exact background_setStatus here open_ (by simp) rfl ⟨rfl, rfl, rfl, rfl⟩
        · cases taken
          exact background_setStatus here open_ (by simp) rfl ⟨rfl, rfl, rfl, rfl⟩

theorem background_resolve {i : Nat} (taken : d.resolve i = some d') : Background d d' := by
  unfold Discovery.resolve at taken
  split at taken
  next => cases taken
  next scan here =>
    split at taken
    case isFalse => cases taken
    case isTrue can =>
        dsimp only at taken
        split at taken
        case isTrue stale =>
            cases taken
            exact ⟨.of_eq rfl, rfl, rfl, i, scan, _, moved_of_setStatus here rfl fun _ => rfl,
              .inr ⟨rfl, fun _ => .inr stale⟩⟩
        case isFalse =>
            cases taken
            exact ⟨.of_eq rfl, rfl, rfl, i, scan, _, moved_of_setStatus here rfl fun _ => rfl,
              .inl rfl⟩

section

variable [DecidableEq F] [DecidableEq A]

theorem background_deliver {i w : Nat} (taken : d.deliver deps i w = some d') : Background d d' := by
  unfold Discovery.deliver at taken
  split at taken
  next => cases taken
  next scan here =>
    split at taken
    case isTrue => cases taken
    case isFalse =>
        split at taken
        next f b todo window =>
          cases taken
          let read : Discovery F A := { d with
            scans := d.scans.set i { scan with windows := scan.windows.set w todo } }
          obtain ⟨scans, floor, _, confirmed, _, generation⟩ :=
            recordAll_unrecorded (d := read) f b (deps.creations f b)
          exact ⟨recordAll_improves (d := read) f b (deps.creations f b), floor, generation, i, scan,
            _, moved_of_set here scans, .inr ⟨confirmed, fun resolved => .inl resolved⟩⟩
        next => cases taken

theorem background_cases {a : Action} (own : background a = true)
    (taken : d.step deps a = some d') : Background d d' := by
  cases a with
  | setFloor floor => cases own
  | seed throughBlock => cases own
  | reset => cases own
  | ensure needTo chunkBlocks endHint => cases own
  | start i => exact background_start taken
  | propagate i => exact background_propagate taken
  | deliver i w => exact background_deliver taken
  | resolve i => exact background_resolve taken
  | fail i => exact background_fail taken
  | handle i => exact background_handle taken

end

/-- Without scans there is nothing to run. -/
theorem Background.scans (moved : Background d d') : d.scans ≠ [] := by
  intro none_
  obtain ⟨i, scan, _, moved, _⟩ := moved.moved
  have here := moved.before
  unfold At at here
  rw [none_] at here
  cases here

/-! ## A resolved promise has confirmed something -/

/-- Every scan is of the current generation, and a resolved `ensure` has confirmed something. -/
structure Fresh (deps : DiscoveryDeps F A) (s : Traced F A) : Prop where
  gens : ∀ i scan, s.disc.At i scan → scan.gen = s.disc.generation
  calls : ∀ call ∈ s.calls, 0 ≤ call.floor → s.disc.isResolved call.promise = true →
    Confirmed deps s.disc

variable {start : Nat → Int}

theorem Confirmed.background (covering : Covering deps d start) (confirmed : Confirmed deps d)
    (moved : Background d d') : Confirmed deps d' := by
  obtain ⟨i, scan, scan', moved, went⟩ := moved.moved
  refine confirmed.imp_right fun set_ => ?_
  rcases went with reached | ⟨same, _⟩
  · rw [reached]
    exact covering.reach i scan moved.before
  · rw [same]
    exact set_

theorem Fresh.background (fresh : Fresh deps s) (marked : Watermark deps s start)
    (moved : Background s.disc d') : Fresh deps { s with disc := d' } := by
  obtain ⟨i, scan, scan', one, went⟩ := id moved.moved
  constructor
  · intro k t here
    show t.gen = d'.generation
    rw [moved.generation]
    rcases one.back here with ⟨rfl, rfl⟩ | ⟨_, before⟩
    · exact one.gen.trans (fresh.gens _ scan one.before)
    · exact fresh.gens k t before
  · intro call mem floored resolved
    -- the promise was resolved before, or its scan is the one that moved
    by_cases before : s.disc.isResolved call.promise = true
    · exact (fresh.calls call mem floored before).background marked.covering moved
    · rcases went with reached | ⟨_, news⟩
      · right
        show 0 ≤ d'.confirmed
        rw [reached]
        exact marked.covering.reach i scan one.before
      · exfalso
        cases promise : call.promise with
        | none =>
            rw [promise] at before
            exact before rfl
        | some j =>
            rw [promise] at before resolved
            obtain ⟨t, here, status⟩ := isResolved_some.1 resolved
            rcases one.back here with ⟨rfl, rfl⟩ | ⟨_, same⟩
            · rcases news status with was | stale
              · exact before (isResolved_some.2 ⟨scan, one.before, was⟩)
              · exact stale (fresh.gens _ scan one.before)
            · exact before (isResolved_some.2 ⟨t, same, status⟩)

/-- An `ensure` without a plan returns a promise of what it needs. -/
theorem Fresh.reached (marked : Watermark deps s start) {needTo : Nat}
    (reached : (needTo : Int) ≤ s.disc.through)
    (resolved : s.disc.isResolved s.disc.inflight = true) : Confirmed deps s.disc := by
  right
  rcases marked.ahead.optimistic with met | ⟨i, scan, flying, here, _, unsettled, _, _⟩
  · omega
  · rw [flying] at resolved
    obtain ⟨t, at_i, status⟩ := isResolved_some.1 resolved
    obtain rfl := At.unique here at_i
    exact absurd (.inl status) unsettled

theorem ensure_cases (deps : DiscoveryDeps F A) (d : Discovery F A) (needTo chunkBlocks : Nat)
    (endHint : Int) :
    (d.ensure deps needTo chunkBlocks endHint).1 = d ∧
        (deps.factories = [] ∨ (d.ensure deps needTo chunkBlocks endHint).2 = d.inflight ∧
          (d.floor < 0 ∨ (needTo : Int) ≤ d.through)) ∨
      ∃ scan, Extended deps d (d.ensure deps needTo chunkBlocks endHint).1 scan ∧
        (d.ensure deps needTo chunkBlocks endHint).2 = some d.scans.length := by
  cases none_ : deps.factories.isEmpty with
  | true =>
      unfold Discovery.ensure
      rw [if_pos none_]
      exact .inl ⟨rfl, .inl (List.isEmpty_iff.1 none_)⟩
  | false =>
      cases planned : planDiscovery d.floor d.through needTo
          ⟨chunkBlocks, endHint, deps.discoveryWindows, d.quantum⟩ with
      | none =>
          unfold Discovery.ensure
          rw [if_neg (by simp [none_]), planned]
          exact .inl ⟨rfl, .inr ⟨rfl, planDiscovery_none planned⟩⟩
      | some plan =>
          obtain ⟨scan, extended, promise, _⟩ := ensure_extended none_ planned
          exact .inr ⟨scan, extended, promise⟩

theorem Fresh.called (fresh : Fresh deps s) {call : EnsureCall}
    (new : 0 ≤ call.floor → s.disc.isResolved call.promise = true → Confirmed deps s.disc) :
    Fresh deps { s with calls := s.calls ++ [call] } := by
  refine ⟨fresh.gens, fun other mem floored resolved => ?_⟩
  rcases List.mem_append.1 mem with old | last
  · exact fresh.calls other old floored resolved
  · rw [List.mem_singleton.1 last] at floored resolved
    exact new floored resolved

theorem Fresh.ensure (fresh : Fresh deps s) (marked : Watermark deps s start)
    (needTo chunkBlocks : Nat) (endHint : Int) :
    Fresh deps (s.remember deps (s.disc.ensure deps needTo chunkBlocks endHint).1
      (.ensure needTo chunkBlocks endHint)) := by
  rcases ensure_cases deps s.disc needTo chunkBlocks endHint with
    ⟨same, kind⟩ | ⟨scan, extended, promise⟩
  · have base : Fresh deps { s with calls := s.calls ++ [⟨needTo, s.disc.floor, s.seeded,
        (s.disc.ensure deps needTo chunkBlocks endHint).2⟩] } := by
      refine fresh.called fun floored resolved => ?_
      rcases kind with none_ | ⟨promise, unset | reached⟩
      · exact .inl none_
      · exact absurd floored (Int.not_le.2 unset)
      · have resolved' : s.disc.isResolved s.disc.inflight = true := promise ▸ resolved
        exact Fresh.reached marked reached resolved'
    unfold Traced.remember
    dsimp only
    rw [same]
    exact ⟨base.gens, base.calls⟩
  · have kept : Confirmed deps s.disc →
        Confirmed deps (s.disc.ensure deps needTo chunkBlocks endHint).1 := by
      unfold Confirmed
      rw [extended.confirmed]
      exact id
    constructor
    · intro k t here
      show t.gen = (s.disc.ensure deps needTo chunkBlocks endHint).1.generation
      rw [extended.generation]
      rcases extended.back here with ⟨_, rfl⟩ | ⟨_, before⟩
      · exact extended.gen
      · exact fresh.gens k t before
    · intro call mem floored resolved
      rcases List.mem_append.1 mem with old | last
      · exact kept (fresh.calls call old floored (extended.isResolved _ resolved))
      · -- the new scan waits
        rw [List.mem_singleton.1 last] at resolved
        have resolved' : (s.disc.ensure deps needTo chunkBlocks endHint).1.isResolved
            (s.disc.ensure deps needTo chunkBlocks endHint).2 = true := resolved
        rw [promise] at resolved'
        obtain ⟨t, here, status⟩ := isResolved_some.1 resolved'
        obtain rfl := At.unique extended.new here
        rw [extended.status] at status
        cases status

theorem Confirmed.seed (confirmed : Confirmed deps d) (throughBlock : Int) :
    Confirmed deps (d.seed throughBlock) := by
  unfold Discovery.seed
  split
  · exact confirmed
  · split
    · exact confirmed
    · split
      · exact confirmed
      · right
        show 0 ≤ throughBlock
        omega

theorem Discovery.seed_same (d : Discovery F A) (throughBlock : Int) :
    (d.seed throughBlock).scans = d.scans ∧ (d.seed throughBlock).generation = d.generation ∧
      (d.seed throughBlock).floor = d.floor ∧
      (d.seed throughBlock).childAddresses = d.childAddresses := by
  unfold Discovery.seed
  repeat (first | exact ⟨rfl, rfl, rfl, rfl⟩ | split)

/-- Only what a step of no scan changes differs. -/
theorem Fresh.same {t : Traced F A} (fresh : Fresh deps s) (scans : t.disc.scans = s.disc.scans)
    (generation : t.disc.generation = s.disc.generation) (calls : t.calls = s.calls)
    (kept : Confirmed deps s.disc → Confirmed deps t.disc) : Fresh deps t := by
  have resolved : ∀ promise, t.disc.isResolved promise = s.disc.isResolved promise := by
    intro promise
    unfold Discovery.isResolved Discovery.scanStatus
    rw [scans]
  constructor
  · intro k u here
    rw [generation]
    unfold At at here
    rw [scans] at here
    exact fresh.gens k u here
  · intro call mem floored done
    rw [calls] at mem
    rw [resolved] at done
    exact kept (fresh.calls call mem floored done)

end PortalPonder.Historical
