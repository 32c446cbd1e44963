import PortalPonder.Client.HeadProbe
import PortalPonder.Historical.Completeness

/-!
# Probed heads

The head that decides which intervals the Portal may serve is pinned, or it comes from probes. The
replicas behind the probe answer independently, their answers may be cut at any byte, and probes of
concurrent intervals may end in any order. The head is nevertheless always one that a replica has
sent, it never falls, and no interval is served and no chunk fetched above it.
-/

namespace PortalPonder.Historical

open Client (Answer finalizedHead finalizedHeadRetry SentHead finalizedHead_sent
  finalizedHeadRetry_sent)
open JSON (Text Value)

variable {F A T R : Type} [DecidableEq F] [DecidableEq A] [DecidableEq T]

/-- The heads that are adopted are probed: without a pin those of a refresh, in three attempts, and
unless the chunk size is fixed that of the scaling, in one. -/
def Probed (settings : Settings) (toNumber : Text → Nat) (sent : Value → Prop) :
    SyncAction F A → Prop
  | .cache (.refreshPortalHead h) => settings.finalizedHead = none →
      ∃ answers : List Answer, answers.length = 3 ∧
        (∀ answer ∈ answers, answer.Sends sent) ∧ finalizedHeadRetry toNumber answers = some h
  | .cache (.ensureChunkSize h) => settings.chunkFixed = false →
      ∃ answer : Answer, answer.Sends sent ∧ finalizedHead toNumber answer = h
  | _ => True

/-- A head that may decide: the pin, or else one that was sent. -/
def KnownHead (settings : Settings) (toNumber : Text → Nat) (sent : Value → Prop) (n : Nat) : Prop :=
  settings.finalizedHead = some n ∨ settings.finalizedHead = none ∧ SentHead toNumber sent n

/-! ## What a step does to the head -/

namespace Cache

variable {Q : Type} {deps : SyncDeps F A Q}

/-- What becomes of the head in a step: nothing, or a head is adopted. -/
inductive HeadStep (deps : SyncDeps F A Q) (s : Cache F A Q) : CacheAction → Option Nat → Prop
  | same (a : CacheAction) : HeadStep deps s a s.portalHead
  | pinned (h : Nat) {pin : Nat} (is : deps.finalizedHead = some pin) :
      HeadStep deps s (.refreshPortalHead h) (some pin)
  | refreshed (h : Nat) (free : deps.finalizedHead = none) :
      HeadStep deps s (.refreshPortalHead h) (some (maxHead s.portalHead h))
  | sized (h : Nat) (free : deps.finalizedHead = none) (scales : deps.chunkFixed = false) :
      HeadStep deps s (.ensureChunkSize (some h)) (some (maxHead s.portalHead h))

omit [DecidableEq F] [DecidableEq A] in
theorem refreshPortalHead_step (s : Cache F A Q) (h : Nat) :
    HeadStep deps s (.refreshPortalHead h) (s.refreshPortalHead deps h).portalHead := by
  unfold Cache.refreshPortalHead
  cases pin : deps.finalizedHead with
  | some p => exact .pinned h pin
  | none => exact .refreshed h pin

omit [DecidableEq F] [DecidableEq A] in
theorem ensureChunkSize_step (s : Cache F A Q) (h : Option Nat) :
    HeadStep deps s (.ensureChunkSize h) (s.ensureChunkSize deps h).portalHead := by
  unfold Cache.ensureChunkSize
  cases fixed : deps.chunkFixed with
  | true => exact .same _
  | false =>
      cases h with
      | none => exact .same _
      | some h =>
          by_cases free : deps.finalizedHead = none
          · simp only [if_pos free]
            exact .sized h free fixed
          · simp only [if_neg free]
            exact .same _

/-- What the event loop runs. -/
theorem loop_head (on : deps.checks ≠ .off) {s t : Cache F A Q} {a : CacheAction}
    (own : ofLoop a = true) (taken : s.step deps a = some t) : HeadStep deps s a t.portalHead := by
  cases a with
  | dataChunk idx need => cases own
  | capGrid => cases own
  | pinDiscoveryFloor => cases own
  | seed throughBlock => cases own
  | evictBehind intervalStart => cases own
  | enter id k =>
      obtain ⟨e, op, -, -, -, rfl⟩ := enter_cases taken
      exact .same _
  | pass id k =>
      obtain ⟨e, op, promise, -, -, -, ⟨-, rfl⟩ | rfl⟩ := pass_cases on taken
      · exact .same _
      · exact .same _
  | advance id k =>
      obtain ⟨e, op, op', -, -, rfl | rfl⟩ := advance_inv taken
      · exact .same _
      · have same : ((s.setEntry id (e.setOp k op')).growFetchQuantum deps).portalHead =
            s.portalHead := by
          unfold Cache.growFetchQuantum
          split <;> rfl
        rw [same]
        exact .same _
  | fail id k =>
      obtain ⟨e, op, -, -, rfl⟩ := fail_cases taken
      exact .same _
  | handle id k =>
      obtain ⟨e, op, -, -, rfl | rfl⟩ := handle_cases taken
      · exact .same _
      · exact .same _
  | refreshPortalHead h =>
      cases taken
      exact refreshPortalHead_step s h
  | ensureChunkSize h =>
      rw [Cache.step] at taken
      split at taken
      · cases taken
      · cases taken
        exact ensureChunkSize_step s h
  | discovery a =>
      rw [Cache.step] at taken
      split at taken
      · obtain ⟨disc, -, rfl⟩ := Option.map_eq_some_iff.1 taken
        exact .same _
      · cases taken

omit [DecidableEq F] [DecidableEq A] in
theorem callAll_head (on : deps.checks ≠ .off) (s : Cache F A Q)
    (needs : List (Nat × Option Interval)) : (s.callAll deps needs).1.portalHead = s.portalHead := by
  induction needs generalizing s with
  | nil => rfl
  | cons n rest ih =>
      unfold Cache.callAll
      cases s.dataChunk deps n.1 n.2 with
      | error violation => rfl
      | ok result => exact (ih _).trans (call_same on s n.1 n.2).1.head

omit [DecidableEq F] [DecidableEq A] in
theorem seed_head (s : Cache F A Q) (throughBlock : Int) :
    (s.seed deps throughBlock).portalHead = s.portalHead := by
  unfold Cache.seed
  split <;> rfl

omit [DecidableEq F] [DecidableEq A] in
theorem pinned_head (s : Cache F A Q) : (s.pinned deps).portalHead = s.portalHead :=
  (pinDiscoveryFloor_same deps (s.capGrid deps)).2.2.1.trans (capGrid_same deps s).2.2.1

end Cache

/-! ## Runs -/

namespace RangeSync

section

variable {sources : Sources F A T R} {settings : Settings} {chain : Chain A T}
  {toNumber : Text → Nat} {sent : Value → Prop} {s t : RangeSync F A T R}

/-- The head, and the attempts below it. -/
structure HeadsSound (settings : Settings) (toNumber : Text → Nat) (sent : Value → Prop)
    (s : RangeSync F A T R) : Prop where
  known : ∀ head ∈ s.cache.portalHead, KnownHead settings toNumber sent head
  pinned : ∀ pin ∈ settings.finalizedHead, s.cache.portalHead = some pin
  served : ∀ att ∈ s.attempts, ∃ head, KnownHead settings toNumber sent head ∧
    att.interval.2 ≤ head

/-- The head of a state is at least that of another. -/
def Rises (s t : RangeSync F A T R) : Prop :=
  ∀ head ∈ s.cache.portalHead, ∃ head' ∈ t.cache.portalHead, head ≤ head'

omit [DecidableEq F] [DecidableEq A] [DecidableEq T] in
theorem Rises.of_eq (same : t.cache.portalHead = s.cache.portalHead) : Rises s t :=
  fun head is => ⟨head, same ▸ is, Nat.le_refl head⟩

omit [DecidableEq F] [DecidableEq A] [DecidableEq T] in
theorem Rises.trans {u : RangeSync F A T R} (first : Rises s t) (second : Rises t u) :
    Rises s u := by
  intro head is
  obtain ⟨head', is', le⟩ := first head is
  obtain ⟨head'', is'', le'⟩ := second head' is'
  exact ⟨head'', is'', Nat.le_trans le le'⟩

omit [DecidableEq F] [DecidableEq A] [DecidableEq T] in
/-- The same head, and attempts for the intervals there were. -/
theorem HeadsSound.same (sound : HeadsSound settings toNumber sent s)
    (head : t.cache.portalHead = s.cache.portalHead)
    (served : ∀ att ∈ t.attempts, ∃ old ∈ s.attempts, old.interval = att.interval) :
    HeadsSound settings toNumber sent t ∧ Rises s t := by
  refine ⟨⟨fun h is => sound.known h (head ▸ is), fun pin is => head.trans (sound.pinned pin is),
    fun att mem => ?_⟩, .of_eq head⟩
  obtain ⟨old, was, same⟩ := served att mem
  rw [← same]
  exact sound.served old was

omit [DecidableEq F] [DecidableEq A] [DecidableEq T] in
/-- A head is adopted that is known, and is not below the one before. -/
theorem HeadsSound.adopt (sound : HeadsSound settings toNumber sent s) {h : Nat}
    (free : settings.finalizedHead = none) (was : SentHead toNumber sent h)
    (head : t.cache.portalHead = some (maxHead s.cache.portalHead h))
    (attempts : t.attempts = s.attempts) : HeadsSound settings toNumber sent t ∧ Rises s t := by
  have known : KnownHead settings toNumber sent (maxHead s.cache.portalHead h) := by
    cases before : s.cache.portalHead with
    | none => exact .inr ⟨free, was⟩
    | some old =>
        rcases Nat.le_total old h with above | below
        · rw [maxHead, Nat.max_eq_right above]
          exact .inr ⟨free, was⟩
        · rw [maxHead, Nat.max_eq_left below]
          exact sound.known old before
  refine ⟨⟨fun n is => ?_, fun pin is => ?_, by rw [attempts]; exact sound.served⟩, fun n is => ?_⟩
  · rw [head] at is
    cases is
    exact known
  · rw [free] at is
    cases is
  · exact ⟨_, head, Cache.le_maxHead h n is⟩

theorem HeadsSound.loop (sound : HeadsSound settings toNumber sent s) {a : CacheAction}
    (probed : Probed (F := F) (A := A) settings toNumber sent (.cache a))
    {cache : Cache F A (Query A T R)}
    (moved : Cache.HeadStep (sources.syncDeps settings chain) s.cache a cache.portalHead) :
    HeadsSound settings toNumber sent { s with cache } ∧ Rises s { s with cache } := by
  have untouched : ∀ att ∈ s.attempts, ∃ old ∈ s.attempts, old.interval = att.interval :=
    fun att mem => ⟨att, mem, rfl⟩
  generalize new : cache.portalHead = head at moved
  cases moved with
  | same => exact sound.same new untouched
  | pinned h is => exact sound.same (new.trans (sound.pinned _ is).symm) untouched
  | refreshed h free =>
      obtain ⟨answers, -, sends, read⟩ := probed free
      exact sound.adopt free (finalizedHeadRetry_sent sends read) new rfl
  | sized h free scales =>
      obtain ⟨answer, sends, read⟩ := probed scales
      exact sound.adopt free (finalizedHead_sent sends read) new rfl

/-- An interval that is served ends at or below the head. -/
theorem HeadsSound.serve (on : settings.checks ≠ .off)
    (sound : HeadsSound settings toNumber sent s) {interval : Interval}
    (taken : s.serve sources settings chain interval = some t) :
    HeadsSound settings toNumber sent t ∧ Rises s t := by
  unfold RangeSync.serve at taken
  cases is : s.cache.portalHead with
  | none =>
      simp only [is] at taken
      cases taken
  | some head =>
      simp only [is] at taken
      split at taken
      · cases taken
      next can =>
        rw [not_or, isFinalityGap, decide_eq_true_eq, Nat.not_lt] at can
        cases taken
        have same : ∀ needs, ((s.ready sources settings chain interval).callAll
            (sources.syncDeps settings chain) needs).1.portalHead = s.cache.portalHead :=
          fun needs => (Cache.callAll_head on _ needs).trans
            ((Cache.seed_head _ _).trans (Cache.pinned_head _))
        refine ⟨⟨fun h now => sound.known h ((same _) ▸ now),
          fun pin pinned => (same _).trans (sound.pinned pin pinned), fun att mem => ?_⟩,
          .of_eq (same _)⟩
        rcases List.mem_append.1 mem with old | new
        · exact sound.served att old
        · refine ⟨head, sound.known head is, ?_⟩
          rw [List.mem_singleton.1 new]
          split <;> exact can.1

omit [DecidableEq F] [DecidableEq A] [DecidableEq T] in
theorem set_intervals {i : Nat} {att : Attempt A T} (here : s.attempts[i]? = some att)
    (status : AttemptStatus A T) {cache : Cache F A (Query A T R)} :
    ∀ a ∈ (RangeSync.setStatus { s with cache } i att status).attempts,
      ∃ old ∈ s.attempts, old.interval = a.interval := by
  intro a mem
  rcases List.mem_or_eq_of_mem_set mem with old | rfl
  · exact ⟨a, old, rfl⟩
  · exact ⟨att, List.mem_of_getElem? here, rfl⟩

theorem HeadsSound.finish (on : settings.checks ≠ .off)
    (sound : HeadsSound settings toNumber sent s) {i : Nat} {saturated : Bool}
    (taken : s.finish sources settings chain i saturated = some t) :
    HeadsSound settings toNumber sent t ∧ Rises s t := by
  unfold RangeSync.finish at taken
  cases here : s.attempts[i]? with
  | none =>
      simp only [here] at taken
      cases taken
  | some att =>
      simp only [here] at taken
      split at taken
      · split at taken
        · cases taken
          exact sound.same (Cache.callAll_head on _ _) (set_intervals here .failed)
        · cases taken
          exact sound.same (Cache.callAll_head on _ _) (set_intervals here _)
      · cases taken

omit [DecidableEq F] in
theorem HeadsSound.abort (sound : HeadsSound settings toNumber sent s) {i : Nat}
    (taken : s.abort i = some t) : HeadsSound settings toNumber sent t ∧ Rises s t := by
  unfold RangeSync.abort at taken
  cases here : s.attempts[i]? with
  | none =>
      simp only [here] at taken
      cases taken
  | some att =>
      simp only [here] at taken
      split at taken
      · cases taken
        exact sound.same rfl (set_intervals here .failed)
      · cases taken

theorem HeadsSound.step (on : settings.checks ≠ .off)
    (sound : HeadsSound settings toNumber sent s) {a : SyncAction F A}
    (probed : Probed settings toNumber sent a)
    (taken : s.step sources settings chain a = some t) :
    HeadsSound settings toNumber sent t ∧ Rises s t := by
  cases a with
  | cache a =>
      by_cases own : Cache.ofLoop a = true
      · rw [RangeSync.step, if_pos own] at taken
        obtain ⟨cache, moved, rfl⟩ := Option.map_eq_some_iff.1 taken
        exact sound.loop probed (Cache.loop_head on own moved)
      · rw [RangeSync.step, if_neg own] at taken
        cases taken
  | share f bn child =>
      cases taken
      exact sound.same rfl fun att mem => ⟨att, mem, rfl⟩
  | serve interval => exact sound.serve on taken
  | finish i saturated => exact sound.finish on taken
  | abort i => exact sound.abort taken

theorem HeadsSound.init :
    HeadsSound settings toNumber sent (RangeSync.init sources settings chain) := by
  have head : (RangeSync.init sources settings chain).cache.portalHead = settings.finalizedHead :=
    (Cache.pinDiscoveryFloor_same _ _).2.2.1
  refine ⟨fun n is => .inl (head ▸ is), fun pin is => head.trans is, fun att none_ => ?_⟩
  cases none_

end

end RangeSync

/-- What the environment may do: as before, and heads are read off what replicas have sent. -/
def AllowedProbed (sources : Sources F A T R) (settings : Settings) (chain : Chain A T)
    (toNumber : Text → Nat) (sent : Value → Prop) (s : RangeSync F A T R) (a : SyncAction F A) :
    Prop :=
  s.Allowed sources chain a ∧ Probed settings toNumber sent a

/-- In every run, with probes that fail, stall or are cut at any byte: no interval is served and
no operation on a chunk fetches above a head that is pinned or was sent in full, and the head never
falls. -/
theorem served_below_known_heads {sources : Sources F A T R} {settings : Settings}
    {chain : Chain A T} {toNumber : Text → Nat} {sent : Value → Prop} (on : settings.checks ≠ .off)
    (stored : Stored sources chain) {s : RangeSync F A T R}
    (reached : Machine.Reach (RangeSync.step sources settings chain)
      (AllowedProbed sources settings chain toNumber sent)
      (RangeSync.init sources settings chain) s) :
    (∀ att ∈ s.attempts, ∃ head, KnownHead settings toNumber sent head ∧ att.interval.2 ≤ head) ∧
    (∀ e ∈ s.cache.entries, ∀ op ∈ e.ops,
      ∃ head, KnownHead settings toNumber sent head ∧ op.toBlock ≤ head) ∧
    ∀ t, Machine.Reach (RangeSync.step sources settings chain)
        (AllowedProbed sources settings chain toNumber sent) s t →
      ∀ head ∈ s.cache.portalHead, ∃ head' ∈ t.cache.portalHead, head ≤ head' := by
  have heads : RangeSync.HeadsSound settings toNumber sent s :=
    reached.invariant (I := RangeSync.HeadsSound settings toNumber sent) .init
      fun _ _ _ _ sound may taken => (sound.step on may.2 taken).1
  have sound : RangeSync.Sound sources settings chain s :=
    reached.invariant (I := RangeSync.Sound sources settings chain) (.init settings)
      fun _ _ _ _ sound may taken => sound.step on stored may.1 taken
  refine ⟨heads.served, ?_, ?_⟩
  · intro e mem op inOps
    obtain ⟨head, is, entry⟩ := sound.good.kept.entries e mem
    exact ⟨head, heads.known head is, entry.below op inOps⟩
  · intro t later
    have both : RangeSync.HeadsSound settings toNumber sent t ∧ RangeSync.Rises s t :=
      later.invariant (I := fun t => RangeSync.HeadsSound settings toNumber sent t ∧
          RangeSync.Rises s t) ⟨heads, .of_eq rfl⟩ fun _ _ _ _ inv may taken => by
        obtain ⟨next, rises⟩ := inv.1.step on may.2 taken
        exact ⟨next, inv.2.trans rises⟩
    exact both.2


/-! ## A run

The first probe of the refresh fails and the second stalls inside the number; the third comes in
two reads. -/

def headText : Text := "\x7b\"number\":19,\"hash\":\"0x13\"\x7d".toList

def headValue : Value := (JSON.parse headText).get (by decide +kernel)

def headAnswers : List Answer :=
  [.rejected, .response (.stream [(Utf8.encode headText).take 11] .stalled),
    .response (.stream [(Utf8.encode headText).take 11, (Utf8.encode headText).drop 11] .done)]

def probedActions : List (SyncAction Unit Nat) :=
  .cache (.refreshPortalHead 19) :: childActions.tail

def probedEnd : RangeSync Unit Nat Nat Unit :=
  (Machine.replay (RangeSync.step childSources childSettings childChain)
    (RangeSync.init childSources childSettings childChain) probedActions).get (by decide +kernel)

/-- No head is adopted. -/
def SyncAction.unprobed : SyncAction Unit Nat → Bool
  | .cache (.refreshPortalHead _) => false
  | _ => true

theorem headText_parses : JSON.parse headText = some headValue := by
  unfold headValue
  exact (Option.some_get _).symm

def HeadSent (v : Value) : Prop := v = headValue

theorem headAnswers_sent : ∀ answer ∈ headAnswers, answer.Sends HeadSent := by
  have whole := headText_parses
  have here : HeadSent headValue := rfl
  intro answer mem
  simp only [headAnswers, List.mem_cons, List.not_mem_nil, or_false] at mem
  rcases mem with rfl | rfl | rfl
  · exact .rejected
  · exact .response (.stalled whole here 11)
  · exact .response (.inTwo whole here 11)

theorem served_below_known_heads_sample :
    (∀ att ∈ probedEnd.attempts, ∃ head,
      KnownHead childSettings (fun digits => Nat.ofDigitChars 10 digits 0) HeadSent head ∧
        att.interval.2 ≤ head) ∧
    probedEnd.cache.portalHead = some 19 := by
  have may : Machine.AllAllowed (RangeSync.step childSources childSettings childChain)
      (RangeSync.Allowed childSources childChain)
      (RangeSync.init childSources childSettings childChain) probedActions := by decide +kernel
  have probed : ∀ a ∈ probedActions, Probed childSettings
      (fun digits => Nat.ofDigitChars 10 digits 0) HeadSent a := by
    have shape : ∀ a ∈ probedActions,
        a = .cache (.refreshPortalHead 19) ∨ a.unprobed = true := by decide +kernel
    intro a mem
    rcases shape a mem with rfl | other
    · exact fun _ => ⟨headAnswers, rfl, headAnswers_sent, by decide +kernel⟩
    · unfold Probed
      split
      · cases other
      · intro scales
        cases scales
      · trivial
  have stored : Stored childSources childChain := by
    intro f c m loaded
    cases loaded
  exact ⟨(served_below_known_heads (by decide) stored
    (Machine.Reach.init.replay (may.and probed) (Option.some_get (by decide +kernel)).symm)).1,
    by decide +kernel⟩

end PortalPonder.Historical
