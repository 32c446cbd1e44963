import PortalPonder.Assembly.Stash
import PortalPonder.Historical.RangeSync
import PortalPonder.Lib.Machine

/-!
# The two calls of an interval

`syncBlockRangeData` serves an interval from the Portal and stashes its rows, or, when the interval
ends past the finalized head, marks it as delegated and hands it to the RPC sync. `syncBlockData`
reads the mark and the stash. The mark is set when the path is chosen and the stash when the call
ends, so a delegated call that fails leaves its mark behind, and if the head has passed the interval
when it is called again, the rows of the Portal are stashed and the RPC sync is asked for them.
-/

namespace PortalPonder.Assembly

open Historical (Children Interval isFinalityGap)

variable {F : Type}

inductive Path where
  | portal
  | delegate
  deriving DecidableEq, Repr

structure ShellConfig where
  /-- a pinned head -/
  finalizedHead : Option Nat
  /-- `PORTAL_REALTIME=stream` -/
  stream : Bool
  checks : CheckMode

/-- A call of `syncBlockRangeData` that has chosen its path. -/
structure RangeCall where
  interval : Interval
  path : Path
  ended : Bool

/-- How a call of `syncBlockRangeData` succeeded. -/
inductive Success where
  | portal (entry : StashEntry)
  | delegate

/-- What a call of `syncBlockData` does. -/
inductive Served where
  | portal (rows : StoreRows)
  | rpc
  | nothing

structure Shell where
  portalHead : Option Nat
  stash : OrdMap Interval StashEntry
  delegated : List Interval
  calls : List RangeCall

namespace Shell

def init (cfg : ShellConfig) : Shell where
  portalHead := cfg.finalizedHead
  stash := OrdMap.empty
  delegated := []
  calls := []

/-- A probe that fails keeps the head, a lower one too; a pinned head stays. -/
def refreshPortalHead (s : Shell) (cfg : ShellConfig) (probe : Option Nat) : Shell :=
  { s with portalHead :=
      match cfg.finalizedHead, probe with
      | some pin, _ => some pin
      | none, none => s.portalHead
      | none, some h => some ((s.portalHead.map fun head => max head h).getD h) }

/-- `portalHead === undefined || isFinalityGap(interval[1], portalHead)`, negated. -/
def headPast (s : Shell) (interval : Interval) : Bool :=
  s.portalHead.any fun head => !isFinalityGap interval.2 head

/-- Choose the path of a call; in stream mode a gap throws. -/
def choosePath (s : Shell) (cfg : ShellConfig) (interval : Interval) : Shell :=
  if s.headPast interval then
    { s with calls := s.calls ++ [⟨interval, .portal, false⟩] }
  else if cfg.stream then s
  else
    { s with
      delegated := if interval ∈ s.delegated then s.delegated else s.delegated ++ [interval]
      calls := s.calls ++ [⟨interval, .delegate, false⟩] }

def endCall (s : Shell) (i : Nat) : Shell :=
  { s with calls := s.calls.modify i fun call => { call with ended := true } }

/-- The Portal path at its end; in strict mode the stash must be new and the mark absent. -/
def stashRows (s : Shell) (cfg : ShellConfig) (interval : Interval) (entry : StashEntry) :
    Option Shell :=
  if cfg.checks = .strict ∧ ((s.stash.get? interval).isSome ∨ interval ∈ s.delegated) then none
  else some { s with stash := s.stash.set interval entry }

def syncBlockData (s : Shell) (interval : Interval) : Shell × Served :=
  if interval ∈ s.delegated then
    ({ s with delegated := s.delegated.filter (· ≠ interval) }, .rpc)
  else
    match s.stash.get? interval with
    | none => (s, .nothing)
    | some entry => ({ s with stash := s.stash.delete interval }, .portal entry.storeRows)

end Shell

/-! ## Runs -/

/-- The shell, with the latest call of an interval that succeeded and whose rows were not asked
for yet. -/
structure Traced where
  shell : Shell
  latest : Interval → Option Success

inductive LifeAction (F : Type) where
  /-- a probe of the finalized head, by any call -/
  | refreshPortalHead (probe : Option Nat)
  | choosePath (interval : Interval)
  /-- the call rejects, anywhere after it chose its path -/
  | fail (i : Nat)
  /-- the call resolves; on the Portal path with the chunks of its interval -/
  | resolve (i : Nat) (chunks : List ChunkData) (known : Children F Address)
  | syncBlockData (interval : Interval)

namespace Traced

variable (cfg : ShellConfig) (spec : Spec F) (upstream : TraceMatching F)

def init : Traced := ⟨Shell.init cfg, fun _ => none⟩

def succeed (s : Traced) (interval : Interval) (success : Success) (shell : Shell) : Traced where
  shell := shell
  latest k := if k = interval then some success else s.latest k

def resolve (s : Traced) (i : Nat) (call : RangeCall) (chunks : List ChunkData)
    (known : Children F Address) : Traced :=
  match call.path with
  | .delegate => s.succeed call.interval .delegate (s.shell.endCall i)
  | .portal =>
      let entry := (assembleRange chunks call.interval spec upstream known).stash
      match s.shell.stashRows cfg call.interval entry with
      | none => { s with shell := s.shell.endCall i }
      | some shell => s.succeed call.interval (.portal entry) (shell.endCall i)

def step (s : Traced) : LifeAction F → Option Traced
  | .refreshPortalHead probe => some { s with shell := s.shell.refreshPortalHead cfg probe }
  | .choosePath interval => some { s with shell := s.shell.choosePath cfg interval }
  | .fail i =>
      match s.shell.calls[i]? with
      | some ⟨_, _, false⟩ => some { s with shell := s.shell.endCall i }
      | _ => none
  | .resolve i chunks known =>
      match s.shell.calls[i]? with
      | some ⟨interval, path, false⟩ =>
          some (s.resolve cfg spec upstream i ⟨interval, path, false⟩ chunks known)
      | _ => none
  | .syncBlockData interval =>
      some
        { shell := (s.shell.syncBlockData interval).1
          latest := fun k => if k = interval then none else s.latest k }

/-- A call succeeds while the mark of its interval agrees with its path. -/
def Agrees (s : Traced) : LifeAction F → Prop
  | .resolve i _ _ => ∀ call, s.shell.calls[i]? = some call →
      match call.path with
      | .portal => cfg.checks = .strict ∨ call.interval ∉ s.shell.delegated
      | .delegate => call.interval ∈ s.shell.delegated
  | _ => True

/-! ## The invariant -/

/-- The head has passed the interval. -/
def Past (s : Traced) (interval : Interval) : Prop := s.shell.headPast interval = true

structure Sound (s : Traced) : Prop where
  pinned : ∀ pin, cfg.finalizedHead = some pin → s.shell.portalHead = some pin
  /-- the head never falls behind an interval that it has passed -/
  calls : ∀ call ∈ s.shell.calls, call.path = .portal → s.Past call.interval
  stashed : ∀ k entry, s.latest k = some (.portal entry) →
    s.shell.stash.get? k = some entry ∧ k ∉ s.shell.delegated ∧ s.Past k ∧
      entry.StoredIn entry.storeRows
  marked : ∀ k, s.latest k = some .delegate → k ∈ s.shell.delegated
  /-- nothing else is in the stash -/
  stash : ∀ k entry, s.shell.stash.get? k = some entry → s.latest k = some (.portal entry)

variable {cfg spec upstream} {s t : Traced}

theorem init_sound : Sound cfg (init cfg) where
  pinned _ pin := pin
  calls _ mem := by cases mem
  stashed _ _ latest := by cases latest
  marked _ latest := by cases latest
  stash _ _ found := by cases found

/-- A head that only rises has passed what it had passed. -/
theorem Past.mono {k : Interval} (past : s.Past k)
    (rises : ∀ h, s.shell.portalHead = some h → ∃ h', t.shell.portalHead = some h' ∧ h ≤ h') :
    t.Past k := by
  obtain ⟨h, head, noGap⟩ := (Option.any_eq_true _ _).1 past
  obtain ⟨h', head', le⟩ := rises h head
  refine (Option.any_eq_true _ _).2 ⟨h', head', ?_⟩
  simp only [isFinalityGap, Bool.not_eq_true', decide_eq_false_iff_not] at noGap ⊢
  omega

theorem refresh_rises (sound : Sound cfg s) (probe : Option Nat) :
    ∀ h, s.shell.portalHead = some h →
      ∃ h', (s.shell.refreshPortalHead cfg probe).portalHead = some h' ∧ h ≤ h' := by
  intro h head
  unfold Shell.refreshPortalHead
  cases pin : cfg.finalizedHead with
  | some p =>
      have same : p = h := Option.some.inj ((sound.pinned p pin).symm.trans head)
      exact ⟨p, rfl, same.ge⟩
  | none =>
      cases probe with
      | none => exact ⟨h, head, Nat.le_refl h⟩
      | some h' =>
          refine ⟨max h h', ?_, Nat.le_max_left h h'⟩
          rw [head]
          rfl

theorem Sound.refreshPortalHead (sound : Sound cfg s) (probe : Option Nat) :
    Sound cfg { s with shell := s.shell.refreshPortalHead cfg probe } where
  pinned pin isPin := by
    unfold Shell.refreshPortalHead
    rw [isPin]
  calls call mem isPortal := (sound.calls call mem isPortal).mono (refresh_rises sound probe)
  stashed k entry latest := by
    obtain ⟨found, unmarked, past, stored⟩ := sound.stashed k entry latest
    exact ⟨found, unmarked, past.mono (refresh_rises sound probe), stored⟩
  marked := sound.marked
  stash := sound.stash

theorem Sound.choosePath (sound : Sound cfg s) (interval : Interval) :
    Sound cfg { s with shell := s.shell.choosePath cfg interval } := by
  unfold Shell.choosePath
  split
  · next past =>
      refine { sound with calls := fun call mem isPortal => ?_ }
      rcases List.mem_append.1 mem with before | new
      · exact sound.calls call before isPortal
      · rw [List.mem_singleton.1 new]
        exact past
  · next gap =>
      split
      · exact sound
      · have grows : ∀ k, k ∈ s.shell.delegated → k ∈ (if interval ∈ s.shell.delegated then
            s.shell.delegated else s.shell.delegated ++ [interval]) := by
          intro k mem
          split
          · exact mem
          · exact List.mem_append_left _ mem
        refine { sound with calls := fun call mem isPortal => ?_, stashed := fun k entry latest => ?_,
                            marked := fun k latest => grows k (sound.marked k latest) }
        · rcases List.mem_append.1 mem with before | new
          · exact sound.calls call before isPortal
          · rw [List.mem_singleton.1 new] at isPortal
            cases isPortal
        · obtain ⟨found, unmarked, past, stored⟩ := sound.stashed k entry latest
          refine ⟨found, fun mem => ?_, past, stored⟩
          -- an interval with rows in the stash is past, so it is not the one delegated
          have other : k ≠ interval := fun same => gap (same ▸ past)
          dsimp only at mem
          split at mem
          · exact unmarked mem
          · rcases List.mem_append.1 mem with before | new
            · exact unmarked before
            · exact other (List.mem_singleton.1 new)

theorem mem_modify_ended {calls : List RangeCall} {i : Nat} {call : RangeCall}
    (mem : call ∈ calls.modify i fun call => { call with ended := true }) :
    ∃ before ∈ calls, before.interval = call.interval ∧ before.path = call.path := by
  obtain ⟨j, at_⟩ := List.mem_iff_getElem?.1 mem
  rw [List.getElem?_modify] at at_
  obtain ⟨before, found, same⟩ := Option.map_eq_some_iff.1 at_
  refine ⟨before, List.mem_of_getElem? found, ?_⟩
  rw [← same]
  split <;> exact ⟨rfl, rfl⟩

theorem Sound.endCall (sound : Sound cfg s) (i : Nat) :
    Sound cfg { s with shell := s.shell.endCall i } :=
  { sound with
    calls := fun call mem isPortal => by
      obtain ⟨before, inCalls, interval, path⟩ := mem_modify_ended mem
      rw [← interval]
      exact sound.calls before inCalls (path.trans isPortal) }

theorem Sound.resolve (sound : Sound cfg s) {i : Nat} {call : RangeCall}
    (here : s.shell.calls[i]? = some call) (chunks : List ChunkData) (known : Children F Address)
    (agrees : Agrees cfg s (.resolve i chunks known)) :
    Sound cfg (s.resolve cfg spec upstream i call chunks known) := by
  have agrees := agrees call here
  have ended := sound.endCall i
  unfold Traced.resolve
  cases path : call.path with
  | delegate =>
      rw [path] at agrees
      refine { ended with stashed := fun k entry latest => ?_, marked := fun k latest => ?_,
                          stash := fun k entry found => ?_ }
      · change (if k = call.interval then some Success.delegate else s.latest k) = _ at latest
        split at latest
        · cases latest
        · exact ended.stashed k entry latest
      · change (if k = call.interval then some Success.delegate else s.latest k) = _ at latest
        split at latest
        · next same =>
            rw [same]
            exact agrees
        · exact ended.marked k latest
      · have latest := ended.stash k entry found
        show (if k = call.interval then some Success.delegate else s.latest k) = _
        split
        · next same =>
            -- the mark is there, so the stash is not
            obtain ⟨_, unmarked, _⟩ := ended.stashed k entry latest
            exact absurd (same ▸ agrees) unmarked
        · exact latest
  | portal =>
      rw [path] at agrees
      have past : s.Past call.interval := sound.calls call (List.mem_of_getElem? here) path
      let entry := (assembleRange chunks call.interval spec upstream known).stash
      show Sound cfg (match s.shell.stashRows cfg call.interval entry with
        | none => { s with shell := s.shell.endCall i }
        | some shell => s.succeed call.interval (.portal entry) (shell.endCall i))
      unfold Shell.stashRows
      by_cases refused : cfg.checks = .strict ∧
          ((s.shell.stash.get? call.interval).isSome ∨ call.interval ∈ s.shell.delegated)
      · rw [if_pos refused]
        exact ended
      · rw [if_neg refused]
        have unmarked : call.interval ∉ s.shell.delegated := by
          rcases agrees with strict | unmarked
          · exact fun mem => refused ⟨strict, .inr mem⟩
          · exact unmarked
        have get : ∀ k, (s.shell.stash.set call.interval entry).get? k =
            if k = call.interval then some entry else s.shell.stash.get? k :=
          fun k => s.shell.stash.get?_set call.interval entry k
        refine { pinned := ended.pinned, calls := ended.calls, stashed := fun k other latest => ?_,
                 marked := fun k latest => ?_, stash := fun k other found => ?_ }
        · change (if k = call.interval then some (Success.portal entry) else s.latest k) = _ at latest
          show (s.shell.stash.set call.interval entry).get? k = some other ∧ _
          rw [get]
          split at latest
          · next same =>
              cases latest
              subst same
              exact ⟨if_pos rfl, unmarked, past, stash_storedIn chunks _ _ spec upstream known⟩
          · next different =>
              rw [if_neg different]
              exact sound.stashed k other latest
        · change (if k = call.interval then some (Success.portal entry) else s.latest k) = _ at latest
          split at latest
          · cases latest
          · exact sound.marked k latest
        · change (s.shell.stash.set call.interval entry).get? k = _ at found
          show (if k = call.interval then some (Success.portal entry) else s.latest k) = _
          rw [get] at found
          split at found
          · next same =>
              rw [if_pos same]
              cases found
              rfl
          · next different =>
              rw [if_neg different]
              exact sound.stash k other found

/-- The call takes what is there for its interval, and touches nothing else. -/
theorem syncBlockData_keeps (s : Shell) (interval : Interval) :
    (s.syncBlockData interval).1.portalHead = s.portalHead ∧
      (s.syncBlockData interval).1.calls = s.calls ∧
      (∀ k, k ≠ interval →
        (s.syncBlockData interval).1.stash.get? k = s.stash.get? k ∧
          (k ∈ (s.syncBlockData interval).1.delegated ↔ k ∈ s.delegated)) := by
  unfold Shell.syncBlockData
  split
  · refine ⟨rfl, rfl, fun k other => ⟨rfl, ?_⟩⟩
    show k ∈ s.delegated.filter (· ≠ interval) ↔ _
    simp [other]
  · split
    · exact ⟨rfl, rfl, fun _ _ => ⟨rfl, Iff.rfl⟩⟩
    · exact ⟨rfl, rfl, fun k other => ⟨s.stash.get?_delete_of_ne other, Iff.rfl⟩⟩

/-- What is left of the interval, if only one of the two is there. -/
theorem syncBlockData_clears {s : Shell} (interval : Interval)
    (either : interval ∈ s.delegated → s.stash.get? interval = none) :
    (s.syncBlockData interval).1.stash.get? interval = none ∧
      interval ∉ (s.syncBlockData interval).1.delegated := by
  unfold Shell.syncBlockData
  split
  · next marked =>
      refine ⟨either marked, ?_⟩
      show interval ∉ s.delegated.filter (· ≠ interval)
      simp
  · next unmarked =>
      split
      · next absent => exact ⟨absent, unmarked⟩
      · exact ⟨s.stash.get?_delete_self interval, unmarked⟩

theorem Sound.either (sound : Sound cfg s) {interval : Interval}
    (marked : interval ∈ s.shell.delegated) : s.shell.stash.get? interval = none := by
  cases found : s.shell.stash.get? interval with
  | none => rfl
  | some entry =>
      obtain ⟨_, unmarked, _⟩ := sound.stashed interval entry (sound.stash interval entry found)
      exact absurd marked unmarked

theorem Sound.syncBlockData (sound : Sound cfg s) (interval : Interval) :
    Sound cfg
      { shell := (s.shell.syncBlockData interval).1
        latest := fun k => if k = interval then none else s.latest k } := by
  obtain ⟨head, calls, others⟩ := syncBlockData_keeps s.shell interval
  obtain ⟨unstashed, _⟩ := syncBlockData_clears interval sound.either
  have past : ∀ k, s.Past k → Past ⟨(s.shell.syncBlockData interval).1,
      fun k => if k = interval then none else s.latest k⟩ k :=
    fun k past => past.mono fun h isHead => ⟨h, head.trans isHead, Nat.le_refl h⟩
  refine { pinned := fun pin isPin => head.trans (sound.pinned pin isPin), calls := ?_,
           stashed := fun k entry latest => ?_, marked := fun k latest => ?_,
           stash := fun k entry found => ?_ }
  · intro call mem isPortal
    rw [calls] at mem
    exact past _ (sound.calls call mem isPortal)
  · dsimp only at latest
    split at latest
    · cases latest
    · next other =>
        obtain ⟨found, unmarked, isPast, stored⟩ := sound.stashed k entry latest
        obtain ⟨sameStash, sameMark⟩ := others k other
        exact ⟨sameStash.trans found, fun mem => unmarked (sameMark.1 mem), past k isPast, stored⟩
  · dsimp only at latest
    split at latest
    · cases latest
    · next other => exact (others k other).2.2 (sound.marked k latest)
  · show (if k = interval then none else s.latest k) = _
    split
    · next same =>
        dsimp only at found
        rw [same, unstashed] at found
        cases found
    · next other => exact sound.stash k entry ((others k other).1.symm.trans found)

theorem step_sound {a : LifeAction F} (sound : Sound cfg s) (agrees : Agrees cfg s a)
    (taken : step cfg spec upstream s a = some t) : Sound cfg t := by
  cases a with
  | refreshPortalHead probe =>
      cases taken
      exact sound.refreshPortalHead probe
  | choosePath interval =>
      cases taken
      exact sound.choosePath interval
  | fail i =>
      simp only [step] at taken
      split at taken
      · cases taken
        exact sound.endCall i
      · cases taken
  | resolve i chunks known =>
      simp only [step] at taken
      split at taken
      · next here =>
          cases taken
          exact sound.resolve here chunks known agrees
      · cases taken
  | syncBlockData interval =>
      cases taken
      exact sound.syncBlockData interval

theorem sound_of_reach (reached : Machine.Reach (step cfg spec upstream) (Agrees cfg) (init cfg) s) :
    Sound cfg s :=
  reached.invariant init_sound fun _ _ _ _ sound may taken => step_sound sound may taken

/-- A call of `syncBlockData` takes the path of the latest call that succeeded, inserts the rows of
that call on the Portal path, never inserts rows a second time, and leaves nothing behind. -/
def ServesLatest (s : Traced) (interval : Interval) : Prop :=
  (∀ entry, s.latest interval = some (.portal entry) →
    (s.shell.syncBlockData interval).2 = .portal entry.storeRows ∧
      entry.StoredIn entry.storeRows) ∧
  (s.latest interval = some .delegate → (s.shell.syncBlockData interval).2 = .rpc) ∧
  (s.latest interval = none → ∀ rows, (s.shell.syncBlockData interval).2 ≠ .portal rows) ∧
  (s.shell.syncBlockData interval).1.stash.get? interval = none ∧
  interval ∉ (s.shell.syncBlockData interval).1.delegated

theorem syncBlockData_serves_latest
    (reached : Machine.Reach (step cfg spec upstream) (Agrees cfg) (init cfg) s)
    (interval : Interval) : s.ServesLatest interval := by
  have sound := sound_of_reach reached
  refine ⟨fun entry latest => ?_, fun latest => ?_, fun latest rows => ?_,
    syncBlockData_clears interval sound.either⟩
  · obtain ⟨found, unmarked, _, stored⟩ := sound.stashed interval entry latest
    refine ⟨?_, stored⟩
    unfold Shell.syncBlockData
    rw [if_neg unmarked, found]
  · unfold Shell.syncBlockData
    rw [if_pos (sound.marked interval latest)]
  · unfold Shell.syncBlockData
    split
    · intro served
      cases served
    · split
      · intro served
        cases served
      · next found =>
          rw [sound.stash interval _ found] at latest
          cases latest

/-! ## A mark that is left behind -/

def sampleConfig : ShellConfig := ⟨none, false, .on⟩

def blockSpec : Spec String := compileFetchSpec [.block ⟨10, 0, none, none⟩]

/-- No trace filter asks. -/
def noTraces : TraceMatching String where
  isTraceFilterMatched _ _ _ := false
  isTransferFilterMatched _ _ _ := false
  trace_call _ _ _ _ _ := rfl
  transfer_call _ _ _ _ _ := rfl

/-- A chunk with the header that the filter asks for. -/
def sampleChunk : ChunkData :=
  { createChunkData with blockHeaders := OrdMap.empty.set 100 ⟨100, "0x64", "0x63", 60, []⟩ }

def sampleEntry : StashEntry :=
  (assembleRange [sampleChunk] (91, 100) blockSpec noTraces fun _ => OrdMap.empty).stash

/-- The head is past the interval when it is called. -/
def servedActions : List (LifeAction String) :=
  [.refreshPortalHead (some 120), .choosePath (91, 100),
    .resolve 0 [sampleChunk] fun _ => OrdMap.empty]

def servedEnd : Traced :=
  (Machine.replay (step sampleConfig blockSpec noTraces) (init sampleConfig) servedActions).get
    (by decide +kernel)

theorem syncBlockData_serves_latest_sample :
    (servedEnd.shell.syncBlockData (91, 100)).2 = .portal sampleEntry.storeRows ∧
      sampleEntry.storeRows.blocks.length = 1 := by
  have agrees : Machine.AllAllowed (step sampleConfig blockSpec noTraces) (Agrees sampleConfig)
      (init sampleConfig) servedActions := by
    refine ⟨trivial, trivial, fun call here => ?_, trivial⟩
    obtain rfl := Option.some.inj here
    exact .inr (by decide)
  have reached : Machine.Reach (step sampleConfig blockSpec noTraces) (Agrees sampleConfig)
      (init sampleConfig) servedEnd :=
    Machine.Reach.init.replay agrees (Option.some_get (by decide +kernel)).symm
  exact ⟨((syncBlockData_serves_latest reached (91, 100)).1 sampleEntry rfl).1, by decide +kernel⟩

/-- The interval is delegated, the call fails, the head passes it, and the call is made again. -/
def retriedActions : List (LifeAction String) :=
  [.refreshPortalHead (some 90), .choosePath (91, 100), .fail 0, .refreshPortalHead (some 120),
    .choosePath (91, 100), .resolve 1 [sampleChunk] fun _ => OrdMap.empty]

def retriedEnd : Traced :=
  (Machine.replay (step sampleConfig blockSpec noTraces) (init sampleConfig) retriedActions).get
    (by decide +kernel)

/-- The rows of the Portal are in the stash, and the RPC sync is asked for them. -/
theorem mark_outlives_call :
    ¬ ∀ s, Machine.Reach (step sampleConfig blockSpec noTraces) (fun _ _ => True)
      (init sampleConfig) s → s.ServesLatest (91, 100) := by
  intro all
  have free : Machine.AllAllowed (step sampleConfig blockSpec noTraces) (fun _ _ => True)
      (init sampleConfig) retriedActions :=
    ⟨trivial, trivial, trivial, trivial, trivial, trivial, trivial⟩
  have reached : Machine.Reach (step sampleConfig blockSpec noTraces) (fun _ _ => True)
      (init sampleConfig) retriedEnd :=
    Machine.Reach.init.replay free (Option.some_get (by decide +kernel)).symm
  have served := (all retriedEnd reached).1 sampleEntry rfl
  have byRpc : (retriedEnd.shell.syncBlockData (91, 100)).2 = .rpc := rfl
  rw [byRpc] at served
  cases served.1

end Traced

end PortalPonder.Assembly
