import Mathlib.Data.Int.Order.Basic
import Mathlib.Data.List.Range
import PortalPonder.Checks
import PortalPonder.Lib.Machine

/-!
# The gate

The controller that all chains share: a concurrency limit that grows with clean responses and is
halved by congestion, and a count of the rows that are buffered. `gateReduce` is the pure
transition. The shell around it queues the callers that wait for a slot and admits them in
order, as long as the limit allows.
-/

namespace PortalPonder.Client

structure GateLimits where
  min : Int
  max : Int
  maxRows : Int
  deriving DecidableEq, Repr

structure GateState where
  /-- the current limit -/
  limit : Int
  /-- requests in flight -/
  active : Int
  /-- clean responses since the limit last moved -/
  ok : Int
  /-- rows buffered by the read-ahead of all chains -/
  rows : Int
  limits : GateLimits
  deriving DecidableEq, Repr

inductive GateEvent where
  | admitted
  | release
  | ok
  | throttle
  | addRows (n : Nat)
  | freeRows (n : Nat)
  deriving DecidableEq, Repr

/-- The start is clamped into the limits. -/
def gateInit (limits : GateLimits) (start : Int) : GateState where
  limit := min limits.max (max limits.min start)
  active := 0
  ok := 0
  rows := 0
  limits := limits

def canAdmit (s : GateState) : Bool := s.active < s.limit

def RAMP_EVERY : Int := 8

def RAMP_STEP : Int := 2

/-- What an event makes of the state, before the checks. -/
def GateState.next (s : GateState) : GateEvent → GateState
  | .admitted => { s with active := s.active + 1 }
  | .release => { s with active := max 0 (s.active - 1) }
  | .ok =>
      let ok := s.ok + 1
      if ok ≥ RAMP_EVERY ∧ s.limit < s.limits.max then
        { s with limit := min s.limits.max (s.limit + RAMP_STEP), ok := 0 }
      else { s with ok := ok }
  | .throttle => { s with limit := max s.limits.min (s.limit / 2), ok := 0 }
  | .addRows n => { s with rows := s.rows + n }
  | .freeRows n => { s with rows := max 0 (s.rows - n) }

/-- The transition. Every produced state is checked. -/
def gateReduce (mode : CheckMode) (s : GateState) (e : GateEvent) :
    Except InvariantViolation GateState := do
  let next := s.next e
  invariant mode "INV-8" (s.limits.min ≤ next.limit ∧ next.limit ≤ s.limits.max)
    "AIMD limit out of [MIN, MAX]"
  invariant mode "INV-8" (0 ≤ next.active) "AIMD active went negative"
  invariant mode "INV-7" (0 ≤ next.rows) "buffered rows went negative"
  pure next

/-- The variables of the shell, and what became of its callers. -/
structure Gate where
  state : GateState
  /-- the callers that wait, in the order of their calls -/
  waiters : List Nat
  /-- who was admitted, and the state that decided it -/
  admitted : List (Nat × GateState)
  /-- the grants that are not yet released -/
  holders : List Nat
  /-- the checks that failed -/
  thrown : List InvariantViolation
  deriving DecidableEq

namespace Gate

def create (limits : GateLimits) (start : Int) : Gate := ⟨gateInit limits start, [], [], [], []⟩

/-- An event; where a check fails, the state is not assigned. -/
def reduce (mode : CheckMode) (g : Gate) (e : GateEvent) : Gate :=
  match gateReduce mode g.state e with
  | .ok s => { g with state := s }
  | .error v => { g with thrown := g.thrown ++ [v] }

/-- Admit one caller: its promise resolves. -/
def admitCaller (g : Gate) (caller : Nat) (s : GateState) (waiting : List Nat) : Gate :=
  { g with
    state := s
    waiters := waiting
    admitted := g.admitted ++ [(caller, g.state)]
    holders := g.holders ++ [caller] }

/-- Admit callers while there are slots. -/
def pumpFrom (mode : CheckMode) (g : Gate) : List Nat → Gate
  | [] => { g with waiters := [] }
  | caller :: waiting =>
      if canAdmit g.state then
        match gateReduce mode g.state .admitted with
        | .ok s => (g.admitCaller caller s waiting).pumpFrom mode waiting
        | .error v =>
            { g with
              waiters := caller :: waiting
              thrown := g.thrown ++ [v] }
      else { g with waiters := caller :: waiting }

def pump (mode : CheckMode) (g : Gate) : Gate := g.pumpFrom mode g.waiters

/-- A caller queues up. -/
def acquire (mode : CheckMode) (g : Gate) (caller : Nat) : Gate :=
  { g with waiters := g.waiters ++ [caller] }.pump mode

/-- A check that fails ends `release` before the queue is pumped. -/
def release (mode : CheckMode) (g : Gate) (caller : Nat) : Gate :=
  match gateReduce mode g.state .release with
  | .ok s => { g with state := s, holders := g.holders.erase caller }.pump mode
  | .error v => { g with thrown := g.thrown ++ [v] }

def onOk (mode : CheckMode) (g : Gate) : Gate :=
  match gateReduce mode g.state .ok with
  | .ok s => { g with state := s }.pump mode
  | .error v => { g with thrown := g.thrown ++ [v] }

def onThrottle (mode : CheckMode) (g : Gate) : Gate := g.reduce mode .throttle

def addRows (mode : CheckMode) (g : Gate) (n : Nat) : Gate := g.reduce mode (.addRows n)

def freeRows (mode : CheckMode) (g : Gate) (n : Nat) : Gate := g.reduce mode (.freeRows n)

/-- The row budget is reached. -/
def saturated (g : Gate) : Bool := g.state.limits.maxRows ≤ g.state.rows

end Gate

/-! ## The knobs -/

/-- The settings the gate reads. -/
structure GateConfig where
  minConcurrency : Int
  maxConcurrency : Int
  startConcurrency : Int
  maxRowsInMem : Int
  deriving DecidableEq, Repr

def MAX_SAFE_INTEGER : Int := 9007199254740991

/-- An integer knob, `def_` when it is unset. `number` is the integer a text denotes. -/
def intKnob (number : String → Option Int) (env : String → Option String) (name : String)
    (def_ : Int) (min : Int) (max : Int) : Except String Int :=
  match env name with
  | none => .ok def_
  | some raw =>
      match number raw with
      | none => .error (name ++ "=\"" ++ raw ++ "\" must be an integer")
      | some n =>
          let top := if max = MAX_SAFE_INTEGER then "∞" else toString max
          if n < min ∨ n > max then .error s!"{name}={n} out of range [{min}, {top}]"
          else .ok n

/-- The part of the settings that is about the gate. -/
def loadPortalConfig (number : String → Option Int) (env : String → Option String) :
    Except String GateConfig := do
  let minConcurrency ← intKnob number env "PORTAL_MIN_CONCURRENCY" 8 1 MAX_SAFE_INTEGER
  let maxConcurrency ← intKnob number env "PORTAL_MAX_CONCURRENCY" 48 minConcurrency MAX_SAFE_INTEGER
  let startConcurrency ← intKnob number env "PORTAL_START_CONCURRENCY" 16 1 MAX_SAFE_INTEGER
  let maxRowsInMem ← intKnob number env "PORTAL_MAX_ROWS_IN_MEM" 250000 1 MAX_SAFE_INTEGER
  pure ⟨minConcurrency, maxConcurrency, startConcurrency, maxRowsInMem⟩

def GateConfig.limits (cfg : GateConfig) : GateLimits :=
  ⟨cfg.minConcurrency, cfg.maxConcurrency, cfg.maxRowsInMem⟩

def createGate (cfg : GateConfig) : Gate := .create cfg.limits cfg.startConcurrency

/-! ## Callers -/

/-- The gate and how many callers have come. -/
structure Traffic where
  gate : Gate
  arrived : Nat
  deriving DecidableEq

inductive GateCall where
  | acquire
  | release (caller : Nat)
  | onOk
  | onThrottle
  | addRows (n : Nat)
  | freeRows (n : Nat)
  deriving DecidableEq, Repr

namespace Traffic

def init (cfg : GateConfig) : Traffic := ⟨createGate cfg, 0⟩

def step (mode : CheckMode) (s : Traffic) : GateCall → Option Traffic
  | .acquire => some ⟨s.gate.acquire mode s.arrived, s.arrived + 1⟩
  | .release caller => some { s with gate := s.gate.release mode caller }
  | .onOk => some { s with gate := s.gate.onOk mode }
  | .onThrottle => some { s with gate := s.gate.onThrottle mode }
  | .addRows n => some { s with gate := s.gate.addRows mode n }
  | .freeRows n => some { s with gate := s.gate.freeRows mode n }

/-- A grant is released once. -/
def May (s : Traffic) : GateCall → Prop
  | .release caller => caller ∈ s.gate.holders
  | _ => True

instance (s : Traffic) (a : GateCall) : Decidable (May s a) := by
  cases a <;> unfold May <;> infer_instance

/-- What the gate owes its callers. -/
structure Fair (limits : GateLimits) (s : Traffic) : Prop where
  /-- the requests in flight are the grants that are out -/
  counted : s.gate.state.active = s.gate.holders.length
  /-- a release takes one off the count -/
  unclamped : ∀ caller ∈ s.gate.holders,
    (s.gate.state.next .release).active = s.gate.state.active - 1
  bounded : limits.min ≤ s.gate.state.limit ∧ s.gate.state.limit ≤ limits.max
  /-- nobody is admitted beyond the limit -/
  within : ∀ a ∈ s.gate.admitted, a.2.active < a.2.limit
  /-- a grant that is out was given, once -/
  held : s.gate.holders.Sublist (s.gate.admitted.map Prod.fst)
  /-- callers are admitted in the order they came -/
  inOrder : s.gate.admitted.map Prod.fst ++ s.gate.waiters = List.range s.arrived
  /-- a caller waits for a slot only -/
  awake : s.gate.waiters = [] ∨ s.gate.state.limit ≤ s.gate.state.active
  passed : s.gate.thrown = []

end Traffic

/-! ## The transition under ordered limits -/

namespace GateState

/-- What the checks establish. -/
structure Sane (limits : GateLimits) (s : GateState) : Prop where
  fixed : s.limits = limits
  pos : 0 ≤ limits.min
  bounded : limits.min ≤ s.limit ∧ s.limit ≤ limits.max
  active : 0 ≤ s.active
  rows : 0 ≤ s.rows

theorem Sane.init {limits : GateLimits} (pos : 0 ≤ limits.min) (ordered : limits.min ≤ limits.max)
    (start : Int) : (gateInit limits start).Sane limits where
  fixed := rfl
  pos := pos
  bounded := ⟨Int.le_min.2 ⟨ordered, Int.le_max_left ..⟩, Int.min_le_left ..⟩
  active := Int.le_refl 0
  rows := Int.le_refl 0

variable {limits : GateLimits} {s : GateState}

theorem Sane.next (sane : s.Sane limits) (e : GateEvent) : (s.next e).Sane limits := by
  obtain ⟨rfl, pos, ⟨low, high⟩, active, rows⟩ := sane
  cases e with
  | admitted => exact ⟨rfl, pos, ⟨low, high⟩, Int.le_add_one active, rows⟩
  | release => exact ⟨rfl, pos, ⟨low, high⟩, Int.le_max_left .., rows⟩
  | ok =>
      by_cases ramps : s.ok + 1 ≥ RAMP_EVERY ∧ s.limit < s.limits.max
      · simp only [GateState.next, if_pos ramps, RAMP_STEP]
        refine ⟨rfl, pos, ⟨?_, ?_⟩, active, rows⟩
        · show s.limits.min ≤ min s.limits.max (s.limit + 2)
          omega
        · show min s.limits.max (s.limit + 2) ≤ s.limits.max
          omega
      · simp only [GateState.next, if_neg ramps]
        exact ⟨rfl, pos, ⟨low, high⟩, active, rows⟩
  | throttle =>
      refine ⟨rfl, pos, ⟨Int.le_max_left .., ?_⟩, active, rows⟩
      show max s.limits.min (s.limit / 2) ≤ s.limits.max
      omega
  | addRows n =>
      refine ⟨rfl, pos, ⟨low, high⟩, active, ?_⟩
      show 0 ≤ s.rows + n
      omega
  | freeRows n => exact ⟨rfl, pos, ⟨low, high⟩, active, Int.le_max_left ..⟩

/-- No check fails. -/
theorem Sane.reduce (sane : s.Sane limits) (mode : CheckMode) (e : GateEvent) :
    gateReduce mode s e = .ok (s.next e) := by
  obtain ⟨-, -, ⟨low, high⟩, active, rows⟩ := sane.next e
  have same := sane.fixed
  subst same
  simp only [gateReduce, low, high, active, rows, and_self, decide_true, invariant_of_holds]
  rfl

/-- A transition that passes its checks. -/
theorem next_of_reduce {mode : CheckMode} {e : GateEvent} {t : GateState}
    (ok : gateReduce mode s e = .ok t) : t = s.next e := by
  unfold gateReduce at ok
  dsimp only at ok
  cases limit : invariant mode "INV-8"
      (s.limits.min ≤ (s.next e).limit ∧ (s.next e).limit ≤ s.limits.max)
      "AIMD limit out of [MIN, MAX]" with
  | error v =>
      rw [limit] at ok
      cases ok
  | ok _ =>
      rw [limit] at ok
      cases active : invariant mode "INV-8" (0 ≤ (s.next e).active) "AIMD active went negative" with
      | error v =>
          rw [active] at ok
          cases ok
      | ok _ =>
          rw [active] at ok
          cases rows : invariant mode "INV-7" (0 ≤ (s.next e).rows)
              "buffered rows went negative" with
          | error v =>
              rw [rows] at ok
              cases ok
          | ok _ =>
              rw [rows] at ok
              exact (Except.ok.inj ok).symm

/-- Congestion does not raise the limit. -/
theorem Sane.throttle_le (sane : s.Sane limits) :
    (s.next .throttle).limit ≤ s.limit := by
  obtain ⟨rfl, pos, ⟨low, high⟩, -, -⟩ := sane
  show max s.limits.min (s.limit / 2) ≤ s.limit
  omega

@[simp] theorem next_admitted_active : (s.next .admitted).active = s.active + 1 := rfl

@[simp] theorem next_admitted_limit : (s.next .admitted).limit = s.limit := rfl

@[simp] theorem next_release_limit : (s.next .release).limit = s.limit := rfl

@[simp] theorem next_throttle_active : (s.next .throttle).active = s.active := rfl

@[simp] theorem next_ok_active : (s.next .ok).active = s.active := by
  simp only [GateState.next]
  split <;> rfl

end GateState

/-! ## The shell -/

/-- The invariant of the shell, for a queue `waiting` that is being pumped. -/
structure Gate.Kept (limits : GateLimits) (arrived : Nat) (g : Gate) (waiting : List Nat) : Prop where
  sane : g.state.Sane limits
  counted : g.state.active = g.holders.length
  within : ∀ a ∈ g.admitted, a.2.active < a.2.limit
  held : g.holders.Sublist (g.admitted.map Prod.fst)
  inOrder : g.admitted.map Prod.fst ++ waiting = List.range arrived
  passed : g.thrown = []

namespace Gate

variable {limits : GateLimits} {arrived : Nat} {g : Gate} {waiting : List Nat} {mode : CheckMode}

theorem Kept.admitCaller {caller : Nat} (kept : g.Kept limits arrived (caller :: waiting))
    (slot : canAdmit g.state = true) :
    (g.admitCaller caller (g.state.next .admitted) waiting).Kept limits arrived waiting where
  sane := kept.sane.next .admitted
  counted := by
    show g.state.active + 1 = ((g.holders ++ [caller]).length : Nat)
    rw [kept.counted, List.length_append]
    rfl
  within := by
    intro a mem
    rcases List.mem_append.1 mem with old | new
    · exact kept.within a old
    · rw [List.mem_singleton.1 new]
      exact of_decide_eq_true slot
  held := by
    show (g.holders ++ [caller]).Sublist ((g.admitted ++ [(caller, g.state)]).map Prod.fst)
    rw [List.map_append]
    exact kept.held.append (List.Sublist.refl _)
  inOrder := by
    show (g.admitted ++ [(caller, g.state)]).map Prod.fst ++ waiting = List.range arrived
    rw [← kept.inOrder, List.map_append, List.append_assoc]
    rfl
  passed := kept.passed

/-- The queue is pumped until it is empty or the limit is reached. -/
structure Pumped (limits : GateLimits) (arrived : Nat) (g : Gate) : Prop where
  kept : g.Kept limits arrived g.waiters
  awake : g.waiters = [] ∨ g.state.limit ≤ g.state.active

theorem Kept.pumpFrom (kept : g.Kept limits arrived waiting) :
    (g.pumpFrom mode waiting).Pumped limits arrived := by
  induction waiting generalizing g with
  | nil =>
      exact ⟨⟨kept.sane, kept.counted, kept.within, kept.held, kept.inOrder, kept.passed⟩, .inl rfl⟩
  | cons caller waiting ih =>
      unfold Gate.pumpFrom
      cases slot : canAdmit g.state with
      | true =>
          rw [if_pos rfl, kept.sane.reduce mode]
          exact ih (kept.admitCaller slot)
      | false =>
          rw [if_neg Bool.false_ne_true]
          have full : g.state.limit ≤ g.state.active := Int.not_lt.1 (of_decide_eq_false slot)
          exact ⟨⟨kept.sane, kept.counted, kept.within, kept.held, kept.inOrder, kept.passed⟩,
            .inr full⟩

theorem Pumped.create (pos : 0 ≤ limits.min) (ordered : limits.min ≤ limits.max) (start : Int) :
    (Gate.create limits start).Pumped limits 0 where
  kept := ⟨.init pos ordered start, rfl, fun _ mem => absurd mem List.not_mem_nil, .slnil, rfl, rfl⟩
  awake := .inl rfl

theorem Pumped.acquire (pumped : g.Pumped limits arrived) :
    (g.acquire mode arrived).Pumped limits (arrived + 1) := by
  have kept := pumped.kept
  refine Kept.pumpFrom ⟨kept.sane, kept.counted, kept.within, kept.held, ?_, kept.passed⟩
  show g.admitted.map Prod.fst ++ (g.waiters ++ [arrived]) = List.range (arrived + 1)
  rw [← List.append_assoc, kept.inOrder, List.range_succ]

theorem Kept.released {caller : Nat} (kept : g.Kept limits arrived waiting)
    (holds : caller ∈ g.holders) : (g.state.next .release).active = g.state.active - 1 := by
  have one : 0 < g.holders.length := List.length_pos_of_mem holds
  have counted := kept.counted
  show max 0 (g.state.active - 1) = g.state.active - 1
  omega

theorem Pumped.release {caller : Nat} (pumped : g.Pumped limits arrived)
    (holds : caller ∈ g.holders) : (g.release mode caller).Pumped limits arrived := by
  have kept := pumped.kept
  unfold Gate.release
  rw [kept.sane.reduce mode]
  refine Kept.pumpFrom ⟨kept.sane.next .release, ?_, kept.within, ?_, kept.inOrder, kept.passed⟩
  · have one : 0 < g.holders.length := List.length_pos_of_mem holds
    have counted := kept.counted
    show (g.state.next .release).active = ((g.holders.erase caller).length : Nat)
    rw [kept.released holds, List.length_erase_of_mem holds]
    omega
  · exact (List.erase_sublist).trans kept.held

theorem Pumped.onOk (pumped : g.Pumped limits arrived) : (g.onOk mode).Pumped limits arrived := by
  have kept := pumped.kept
  unfold Gate.onOk
  rw [kept.sane.reduce mode]
  refine Kept.pumpFrom ⟨kept.sane.next .ok, ?_, kept.within, kept.held, kept.inOrder, kept.passed⟩
  rw [GateState.next_ok_active]
  exact kept.counted

/-- An event that moves neither the requests in flight nor the limit upwards. -/
theorem Pumped.reduce (pumped : g.Pumped limits arrived) {e : GateEvent}
    (active : (g.state.next e).active = g.state.active)
    (limit : (g.state.next e).limit ≤ g.state.limit) :
    (g.reduce mode e).Pumped limits arrived := by
  have kept := pumped.kept
  unfold Gate.reduce
  rw [kept.sane.reduce mode]
  refine ⟨⟨kept.sane.next e, active.trans kept.counted, kept.within, kept.held, kept.inOrder,
    kept.passed⟩, ?_⟩
  rcases pumped.awake with none_ | full
  · exact .inl none_
  · refine .inr ?_
    show (g.state.next e).limit ≤ (g.state.next e).active
    rw [active]
    exact Int.le_trans limit full

end Gate

namespace Traffic

variable {limits : GateLimits} {s t : Traffic} {mode : CheckMode}

theorem pumped_step (pumped : s.gate.Pumped limits s.arrived) {a : GateCall}
    (may : May s a) (taken : s.step mode a = some t) : t.gate.Pumped limits t.arrived := by
  cases a with
  | acquire =>
      cases taken
      exact pumped.acquire
  | release caller =>
      cases taken
      exact pumped.release may
  | onOk =>
      cases taken
      exact pumped.onOk
  | onThrottle =>
      cases taken
      exact pumped.reduce rfl pumped.kept.sane.throttle_le
  | addRows n =>
      cases taken
      exact pumped.reduce rfl (Int.le_refl _)
  | freeRows n =>
      cases taken
      exact pumped.reduce rfl (Int.le_refl _)

theorem fair_of_pumped (pumped : s.gate.Pumped limits s.arrived) : s.Fair limits where
  counted := pumped.kept.counted
  unclamped := fun _ holds => pumped.kept.released holds
  bounded := pumped.kept.sane.bounded
  within := pumped.kept.within
  held := pumped.kept.held
  inOrder := pumped.kept.inOrder
  awake := pumped.awake
  passed := pumped.kept.passed

/-- Under ordered limits the gate is fair in every run. -/
theorem fair_of_reach {cfg : GateConfig} (pos : 0 ≤ cfg.minConcurrency)
    (ordered : cfg.minConcurrency ≤ cfg.maxConcurrency)
    (reached : Machine.Reach (step mode) May (init cfg) s) : s.Fair cfg.limits := by
  refine fair_of_pumped (reached.invariant
    (I := fun s => s.gate.Pumped cfg.limits s.arrived) (.create pos ordered _) ?_)
  intro s a t _ pumped may taken
  exact pumped_step pumped may taken

end Traffic

/-! ## The knobs -/

section Knobs

variable {number : String → Option Int} {env : String → Option String} {name : String}
  {def_ low high n : Int}

/-- A knob that is set lies in its range; the default is taken as it is. -/
theorem intKnob_spec (loaded : intKnob number env name def_ low high = .ok n) :
    (env name = none ∧ n = def_) ∨
      ∃ raw, env name = some raw ∧ number raw = some n ∧ low ≤ n ∧ n ≤ high := by
  unfold intKnob at loaded
  cases set_ : env name with
  | none =>
      rw [set_] at loaded
      cases loaded
      exact .inl ⟨rfl, rfl⟩
  | some raw =>
      rw [set_] at loaded
      dsimp only at loaded
      cases reads : number raw with
      | none =>
          rw [reads] at loaded
          cases loaded
      | some m =>
          rw [reads] at loaded
          dsimp only at loaded
          by_cases out : m < low ∨ m > high
          · rw [if_pos out] at loaded
            cases loaded
          · rw [if_neg out] at loaded
            cases loaded
            exact .inr ⟨raw, rfl, reads, by omega, by omega⟩

/-- What the settings of the gate guarantee. -/
structure GateConfig.Read (number : String → Option Int) (env : String → Option String)
    (cfg : GateConfig) : Prop where
  low : intKnob number env "PORTAL_MIN_CONCURRENCY" 8 1 MAX_SAFE_INTEGER = .ok cfg.minConcurrency
  high : intKnob number env "PORTAL_MAX_CONCURRENCY" 48 cfg.minConcurrency MAX_SAFE_INTEGER =
    .ok cfg.maxConcurrency

theorem loadPortalConfig_read {cfg : GateConfig}
    (loaded : loadPortalConfig number env = .ok cfg) : cfg.Read number env := by
  unfold loadPortalConfig at loaded
  cases low : intKnob number env "PORTAL_MIN_CONCURRENCY" 8 1 MAX_SAFE_INTEGER with
  | error e =>
      rw [low] at loaded
      cases loaded
  | ok minConcurrency =>
      rw [low] at loaded
      cases high : intKnob number env "PORTAL_MAX_CONCURRENCY" 48 minConcurrency MAX_SAFE_INTEGER with
      | error e =>
          simp [high, bind, Except.bind] at loaded
      | ok maxConcurrency =>
          simp only [high, bind, Except.bind] at loaded
          split at loaded
          · cases loaded
          · split at loaded
            · cases loaded
            · cases loaded
              exact ⟨low, high⟩

variable {cfg : GateConfig}

theorem GateConfig.Read.pos (read : cfg.Read number env) : 0 ≤ cfg.minConcurrency := by
  rcases intKnob_spec read.low with ⟨-, default⟩ | ⟨_, -, -, low, -⟩
  · rw [default]
    decide
  · omega

/-- The limits are ordered unless the upper one is left at a default below the lower. -/
theorem GateConfig.Read.ordered_iff (read : cfg.Read number env) :
    cfg.minConcurrency ≤ cfg.maxConcurrency ↔
      env "PORTAL_MAX_CONCURRENCY" = none → cfg.minConcurrency ≤ 48 := by
  rcases intKnob_spec read.high with ⟨unset, default⟩ | ⟨raw, set_, -, low, -⟩
  · rw [default]
    exact ⟨fun ordered _ => ordered, fun holds => holds unset⟩
  · refine ⟨fun _ unset => ?_, fun _ => low⟩
    rw [unset] at set_
    cases set_

end Knobs

end PortalPonder.Client
