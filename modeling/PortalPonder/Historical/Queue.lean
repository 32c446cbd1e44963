import PortalPonder.Historical.Completeness

/-!
# The queue of pending children

What a step of the sync does to the child map and to the queue of children that are not persisted
yet: a child that is recorded is queued, and nothing leaves the queue. Changing the queue alone
changes nothing else of what every run keeps.
-/

namespace PortalPonder.Historical

open Discovery

/-! ## Lowering -/

section Lower

variable {κ : Type} [DecidableEq κ]

/-- A key gets a block, unless it has one that is no later. -/
def lower (m : OrdMap κ Int) (e : κ × Int) : OrdMap κ Int :=
  match m.get? e.1 with
  | none => m.set e.1 e.2
  | some prev => if prev > e.2 then m.set e.1 e.2 else m

def lowerAll (m : OrdMap κ Int) (es : List (κ × Int)) : OrdMap κ Int := es.foldl lower m

@[simp] theorem get?_lower (m : OrdMap κ Int) (e : κ × Int) (k : κ) :
    (lower m e).get? k = if k = e.1 then some (minBlock (m.get? k) e.2) else m.get? k := by
  unfold lower
  by_cases same : k = e.1
  · subst same
    rw [if_pos rfl]
    cases found : m.get? e.1 with
    | none => exact m.get?_set_self _ _
    | some prev =>
        dsimp only
        by_cases above : prev > e.2
        · rw [if_pos above, OrdMap.get?_set_self]
          exact congrArg some (Int.min_eq_right (Int.le_of_lt above)).symm
        · rw [if_neg above, found]
          exact congrArg some (Int.min_eq_left (Int.not_lt.1 above)).symm
  · rw [if_neg same]
    cases m.get? e.1 with
    | none => exact m.get?_set_of_ne _ same
    | some prev =>
        dsimp only
        split
        · exact m.get?_set_of_ne _ same
        · rfl

/-- Blocks only get lower. -/
theorem lowerAll_keeps {m : OrdMap κ Int} {es : List (κ × Int)} {k : κ} {b : Int}
    (found : m.get? k = some b) : ∃ b' ≤ b, (lowerAll m es).get? k = some b' := by
  induction es generalizing m b with
  | nil => exact ⟨b, Int.le_refl b, found⟩
  | cons e es ih =>
      have next := get?_lower m e k
      by_cases same : k = e.1
      · rw [if_pos same, found] at next
        obtain ⟨b', le, found'⟩ := ih next
        exact ⟨b', Int.le_trans le (Int.min_le_left b e.2), found'⟩
      · rw [if_neg same, found] at next
        exact ih next

theorem lowerAll_takes {m : OrdMap κ Int} {es : List (κ × Int)} {k : κ} {b : Int}
    (mem : (k, b) ∈ es) : ∃ b' ≤ b, (lowerAll m es).get? k = some b' := by
  induction es generalizing m with
  | nil => cases mem
  | cons e es ih =>
      rcases List.mem_cons.1 mem with rfl | later
      · have next := get?_lower m (k, b) k
        rw [if_pos rfl] at next
        obtain ⟨b', le, found⟩ : ∃ b', _ ∧ (lowerAll (lower m (k, b)) es).get? k = some b' :=
          lowerAll_keeps next
        exact ⟨b', Int.le_trans le (minBlock_le _ _), found⟩
      · exact ih later

/-- Every block comes from the map or from the list. -/
theorem lowerAll_origin {m : OrdMap κ Int} {es : List (κ × Int)} {k : κ} {b : Int}
    (found : (lowerAll m es).get? k = some b) : m.get? k = some b ∨ (k, b) ∈ es := by
  induction es generalizing m with
  | nil => exact .inl found
  | cons e es ih =>
      rcases ih found with before | later
      · rw [get?_lower] at before
        by_cases same : k = e.1
        · rw [if_pos same] at before
          cases old : m.get? k with
          | none =>
              rw [old] at before
              obtain rfl : e.2 = b := Option.some.inj before
              exact .inr (same ▸ List.mem_cons_self)
          | some prev =>
              rw [old] at before
              obtain rfl : min prev e.2 = b := Option.some.inj before
              rcases Int.le_total prev e.2 with le | le
              · exact .inl (congrArg some (Int.min_eq_left le).symm)
              · rw [Int.min_eq_right le]
                exact .inr (same ▸ List.mem_cons_self)
        · rw [if_neg same] at before
          exact .inl before
      · exact .inr (List.mem_cons_of_mem e later)

end Lower

variable {F A Q : Type} [DecidableEq F] [DecidableEq A]

theorem restorePending_eq (d : Discovery F A) (flush : OrdMap (F × A) Int) :
    d.restorePending flush =
      { d with pendingChildren := lowerAll d.pendingChildren flush.entries } := rfl

/-! ## What is recorded is queued -/

/-- Every child is as it was, or it was recorded at an earlier block and queued there, and that
was news. -/
def Queued (news : F → A → Int → Prop) (d d' : Discovery F A) : Prop :=
  ∀ f c,
    (d'.childAddresses f).get? c = (d.childAddresses f).get? c ∧
        d'.pendingChildren.get? (f, c) = d.pendingChildren.get? (f, c) ∨
      ∃ b, news f c b ∧ (d'.childAddresses f).get? c = some b ∧
        d'.pendingChildren.get? (f, c) = some b ∧
        ∀ m, (d.childAddresses f).get? c = some m → b < m

/-- The factory and the block that an action delivers. -/
def Discovery.delivered (d : Discovery F A) : Action → Option (F × Int)
  | .deliver i w => ((d.scans[i]?).bind fun scan => scan.windows[w]?).bind List.head?
  | _ => none

variable {d d' d'' : Discovery F A} {news : F → A → Int → Prop}

theorem Queued.of_eq (children : d'.childAddresses = d.childAddresses)
    (pending : d'.pendingChildren = d.pendingChildren) : Queued news d d' := fun f c =>
  .inl ⟨by rw [children], by rw [pending]⟩

theorem Queued.trans (one : Queued news d d') (two : Queued news d' d'') : Queued news d d'' := by
  intro f c
  rcases two f c with ⟨known, pending⟩ | ⟨b, isNews, known, pending, earlier⟩
  · rw [known, pending]
    exact one f c
  · refine .inr ⟨b, isNews, known, pending, fun m here => ?_⟩
    rcases one f c with ⟨same, _⟩ | ⟨b', _, known', _, earlier'⟩
    · exact earlier m (same.trans here)
    · exact Int.lt_trans (earlier b' known') (earlier' m here)

theorem Queued.record (d : Discovery F A) {f : F} {bn : Int} {c : A} (told : news f c bn) :
    Queued news d (d.record f bn c) := by
  unfold Discovery.record
  by_cases news : isNews ((d.childAddresses f).get? c) bn = true
  · rw [if_pos news]
    intro g x
    by_cases same : g = f ∧ x = c
    · obtain ⟨rfl, rfl⟩ := same
      refine .inr ⟨bn, told, ?_, OrdMap.get?_set_self _ _ _, fun m here => ?_⟩
      · simp only [if_true, OrdMap.get?_set_self]
      · rw [here] at news
        exact of_decide_eq_true news
    · have other : ((g, x) : F × A) ≠ (f, c) := fun is => same (Prod.mk.inj is)
      refine .inl ⟨?_, OrdMap.get?_set_of_ne _ _ other⟩
      dsimp only
      by_cases factory : g = f
      · rw [if_pos factory, OrdMap.get?_set_of_ne _ _ fun is => same ⟨factory, is⟩]
      · rw [if_neg factory]
  · rw [if_neg news]
    exact .of_eq rfl rfl

theorem Queued.recordAll (d : Discovery F A) {f : F} {bn : Int} {children : List A}
    (told : ∀ c ∈ children, news f c bn) : Queued news d (d.recordAll f bn children) := by
  induction children generalizing d with
  | nil => exact .of_eq rfl rfl
  | cons c children ih =>
      exact (Queued.record d (told c List.mem_cons_self)).trans
        (ih _ fun x later => told x (List.mem_cons_of_mem c later))

theorem Queued.lower (queued : Queued news d d') (k : F × A) {m : Int}
    (known : (d.childAddresses k.1).get? k.2 = some m) :
    ∃ m' ≤ m, (d'.childAddresses k.1).get? k.2 = some m' := by
  rcases queued k.1 k.2 with ⟨same, _⟩ | ⟨b, _, known', _, earlier⟩
  · exact ⟨m, Int.le_refl m, same.trans known⟩
  · exact ⟨b, Int.le_of_lt (earlier m known), known'⟩

/-- Where nothing is news, nothing is recorded. -/
theorem Queued.same (queued : Queued (fun _ _ _ => False) d d') (k : F × A) :
    (d'.childAddresses k.1).get? k.2 = (d.childAddresses k.1).get? k.2 ∧
      d'.pendingChildren.get? k = d.pendingChildren.get? k := by
  rcases queued k.1 k.2 with same | ⟨b, never, _⟩
  · exact same
  · cases never

/-- A scan records what its windows deliver; its other steps record nothing. -/
theorem Queued.background {deps : DiscoveryDeps F A} {a : Action}
    (own : Historical.background a = true) (taken : d.step deps a = some d') :
    Queued (fun f c b => (f, b) ∈ d.delivered a ∧ c ∈ deps.creations f b) d d' := by
  cases a with
  | setFloor floor => cases own
  | seed throughBlock => cases own
  | reset => cases own
  | ensure needTo chunkBlocks endHint => cases own
  | start i =>
      change d.start i = some d' at taken
      unfold Discovery.start at taken
      split at taken
      · cases taken
      · split at taken <;> cases taken
        exact .of_eq rfl rfl
  | propagate i =>
      change d.propagate i = some d' at taken
      unfold Discovery.propagate at taken
      split at taken
      · cases taken
      · split at taken <;> cases taken
        exact .of_eq rfl rfl
  | deliver i w =>
      change d.deliver deps i w = some d' at taken
      unfold Discovery.deliver at taken
      split at taken
      · cases taken
      · next scan here =>
          split at taken
          · cases taken
          · split at taken
            · next f b todo window =>
                cases taken
                refine Queued.recordAll { d with scans := _ } fun c created => ⟨?_, created⟩
                show ((d.scans[i]?).bind fun scan => scan.windows[w]?).bind List.head? = some (f, b)
                rw [here, Option.bind_some, window]
                rfl
            · cases taken
  | resolve i =>
      change d.resolve i = some d' at taken
      unfold Discovery.resolve at taken
      split at taken
      · cases taken
      · dsimp only at taken
        split at taken
        · split at taken <;> cases taken <;> exact .of_eq rfl rfl
        · cases taken
  | fail i =>
      change d.fail i = some d' at taken
      unfold Discovery.fail at taken
      split at taken <;> cases taken
      exact .of_eq rfl rfl
  | handle i =>
      change d.handle i = some d' at taken
      unfold Discovery.handle at taken
      split at taken
      · cases taken
      · dsimp only at taken
        split at taken
        · split at taken <;> cases taken <;> exact .of_eq rfl rfl
        · cases taken

/-! ## What a step of the cache queues -/

namespace Cache

variable {deps : SyncDeps F A Q} {s t : Cache F A Q}

/-- The children of the cache are queued as they are recorded. -/
def Queues (news : F → A → Int → Prop) (s t : Cache F A Q) : Prop :=
  Queued news s.disc.disc t.disc.disc

/-- The factory and the block that an action delivers. -/
def delivered (s : Cache F A Q) : CacheAction → Option (F × Int)
  | .discovery a => s.disc.disc.delivered a
  | _ => none

variable {news : F → A → Int → Prop}

theorem Queues.of_eq (same : t.disc.disc = s.disc.disc) : Queues news s t :=
  Queued.of_eq (by rw [same]) (by rw [same])

theorem ensure_queues (deps : SyncDeps F A Q) (s : Cache F A Q) (target : Nat) (opts : EnsureOpts) :
    Queues news s (s.ensure deps target opts).1 := by
  show Queued news s.disc.disc (s.disc.disc.ensure deps.discovery _ _ _).1
  unfold Discovery.ensure
  split
  · exact .of_eq rfl rfl
  · split <;> exact .of_eq rfl rfl

theorem call_queues (on : deps.checks ≠ .off) (s : Cache F A Q) (idx : Nat)
    (need : Option Interval) : Queues news s (s.call deps idx need) := by
  unfold Cache.call
  cases ok : s.dataChunk deps idx need with
  | error violation => exact .of_eq rfl
  | ok result =>
      cases dataChunk_cases on ok with
      | fromCache here prefix_ after extended => exact .of_eq rfl
      | fetched absent window => exact ensure_queues deps s _ _

theorem callAll_queues (on : deps.checks ≠ .off) (s : Cache F A Q)
    (needs : List (Nat × Option Interval)) : Queues news s (s.callAll deps needs).1 := by
  induction needs generalizing s with
  | nil => exact .of_eq rfl
  | cons n rest ih =>
      unfold Cache.callAll
      cases ok : s.dataChunk deps n.1 n.2 with
      | error violation => exact .of_eq rfl
      | ok result => exact (call_queues on s n.1 n.2).trans (ih _)

theorem pinned_queues (s : Cache F A Q) : Queues news s (s.pinned deps) := by
  have capped : Queues news s (s.capGrid deps) := by
    unfold Cache.capGrid
    dsimp only
    split <;> exact Queued.of_eq rfl rfl
  refine Queued.trans capped ?_
  show Queued news _ ((s.capGrid deps).pinDiscoveryFloor deps).disc.disc
  unfold Cache.pinDiscoveryFloor
  split <;> exact Queued.of_eq rfl rfl

theorem seed_queues (s : Cache F A Q) (throughBlock : Int) :
    Queues news s (s.seed deps throughBlock) := by
  unfold Cache.seed
  split
  · unfold Cache.onDiscovery Traced.remember
    have seeded : Queued news s.disc.disc (s.disc.disc.seed throughBlock) := by
      unfold Discovery.seed
      split
      · exact .of_eq rfl rfl
      · split
        · exact .of_eq rfl rfl
        · split <;> exact .of_eq rfl rfl
    dsimp only
    split <;> exact seeded
  · exact .of_eq rfl

/-- Whatever the event loop runs next. -/
theorem loop_queues (on : deps.checks ≠ .off) {a : CacheAction} (own : ofLoop a = true)
    (taken : s.step deps a = some t) :
    Queues (fun f c b => (f, b) ∈ s.delivered a ∧ c ∈ deps.creations f b) s t := by
  cases a with
  | dataChunk idx need => cases own
  | capGrid => cases own
  | pinDiscoveryFloor => cases own
  | seed throughBlock => cases own
  | evictBehind intervalStart => cases own
  | enter id k =>
      obtain ⟨e, op, _, _, _, rfl⟩ := enter_cases taken
      exact ensure_queues deps s _ _
  | pass id k =>
      obtain ⟨e, op, promise, _, _, _, went⟩ := pass_cases on taken
      rcases went with ⟨_, rfl⟩ | rfl <;> exact .of_eq rfl
  | advance id k =>
      obtain ⟨e, op, op', _, _, went⟩ := advance_inv taken
      rcases went with rfl | rfl
      · exact .of_eq rfl
      · exact .of_eq (congrArg Traced.disc (growFetchQuantum_disc deps _).1)
  | fail id k =>
      obtain ⟨e, op, _, _, rfl⟩ := fail_cases taken
      exact .of_eq rfl
  | handle id k =>
      obtain ⟨e, op, _, _, went⟩ := handle_cases taken
      rcases went with rfl | rfl <;> exact .of_eq rfl
  | refreshPortalHead h =>
      cases taken
      exact .of_eq rfl
  | ensureChunkSize h =>
      by_cases sized : s.sized = true
      · rw [Cache.step, if_pos sized] at taken
        cases taken
      · rw [Cache.step, if_neg sized] at taken
        cases taken
        unfold Cache.ensureChunkSize
        split <;> exact Queued.of_eq rfl rfl
  | discovery a =>
      by_cases isOwn : Historical.background a = true
      · rw [Cache.step, if_pos isOwn] at taken
        obtain ⟨disc, moved, rfl⟩ := Option.map_eq_some_iff.1 taken
        obtain ⟨d', delivered, rfl⟩ := Option.map_eq_some_iff.1 moved
        have quiet : (s.disc.remember deps.discovery d' a).disc = d' := by
          cases a <;> first | rfl | cases isOwn
        show Queued _ s.disc.disc (s.disc.remember deps.discovery d' a).disc
        rw [quiet]
        exact Queued.background isOwn delivered
      · rw [Cache.step, if_neg isOwn] at taken
        cases taken

/-! ## The queue alone -/

/-- The queue is replaced. -/
def requeue (s : Cache F A Q) (pending : OrdMap (F × A) Int) : Cache F A Q :=
  { s with disc := { s.disc with disc := { s.disc.disc with pendingChildren := pending } } }

omit [DecidableEq F] [DecidableEq A] in
theorem Good.requeue (good : Good deps s) (pending : OrdMap (F × A) Int) :
    Steps deps s (s.requeue pending) := by
  obtain ⟨start, marked⟩ := good.informed.marked
  have marked' : Watermark deps.discovery (s.requeue pending).disc start :=
    ⟨⟨marked.ordered.front, marked.ordered.link, marked.ordered.last, marked.ordered.gens⟩,
      ⟨marked.covering.reach, marked.covering.chained, marked.covering.started,
        marked.covering.delivered, marked.covering.drained, marked.covering.behind,
        marked.covering.covered⟩,
      ⟨marked.ahead.optimistic, fun k hopeful => marked.ahead.hopeful k (hopeful.same rfl rfl),
        marked.ahead.confirmed, marked.ahead.floor, marked.ahead.low, marked.ahead.base⟩,
      marked.genuine, marked.calls⟩
  have onward : Onward deps s.disc.disc (s.requeue pending).disc.disc := ⟨.of_eq rfl, id⟩
  have informed : Informed deps (s.requeue pending) :=
    good.informed.discovery ⟨start, marked'⟩ (good.informed.fresh.same rfl rfl rfl id) onward
      rfl rfl rfl
  have same : SameGrid s (s.requeue pending) := ⟨rfl, rfl, rfl, rfl⟩
  exact ⟨⟨good.kept.same rfl rfl rfl rfl rfl rfl fun _ => rfl, informed, good.floor, good.grid⟩,
    .of_onward rfl rfl onward, fun idle => ⟨idle.entries, idle.scans, idle.ensured, idle.through⟩,
    same.gridded⟩

end Cache

/-! ## What a step of the sync queues -/

namespace RangeSync

variable {T R : Type} {s t : RangeSync F A T R}

/-- What an action of the sync does to the queue and to the attempts: those there are stay, with
their intervals. -/
structure Proceeds (news : F → A → Int → Prop) (s t : RangeSync F A T R) : Prop where
  queues : s.cache.Queues news t.cache
  attempts : ∀ (k : Nat) (att : Attempt A T), s.attempts[k]? = some att →
    ∃ att', t.attempts[k]? = some att' ∧ att'.interval = att.interval

variable {news : F → A → Int → Prop}

theorem Proceeds.moved {cache : Cache F A (Query A T R)} (queues : s.cache.Queues news cache) :
    Proceeds news s { s with cache } :=
  ⟨queues, fun _ att here => ⟨att, here, rfl⟩⟩

/-- The cache moves, and an attempt changes its status. -/
theorem Proceeds.setStatus {cache : Cache F A (Query A T R)} (queues : s.cache.Queues news cache)
    {i : Nat} {att : Attempt A T} (here : s.attempts[i]? = some att) (status : AttemptStatus A T) :
    Proceeds news s ({ s with cache }.setStatus i att status) := by
  refine ⟨queues, fun k other there => ?_⟩
  show ∃ att', (s.attempts.set i { att with status })[k]? = some att' ∧ _
  by_cases same : i = k
  · subst same
    cases here.symm.trans there
    exact ⟨_, List.getElem?_set_self (List.getElem?_eq_some_iff.1 here).1, rfl⟩
  · exact ⟨other, (List.getElem?_set_ne same).trans there, rfl⟩

variable [DecidableEq T] {sources : Sources F A T R} {settings : Settings} {chain : Chain A T}

theorem Proceeds.serve (on : settings.checks ≠ .off) {interval : Interval}
    (taken : s.serve sources settings chain interval = some t) : Proceeds news s t := by
  unfold RangeSync.serve at taken
  cases known : s.cache.portalHead with
  | none =>
      simp only [known] at taken
      cases taken
  | some head =>
      simp only [known] at taken
      split at taken
      · cases taken
      · cases taken
        refine ⟨?_, fun k att here => ⟨att, ?_, rfl⟩⟩
        · exact ((Cache.pinned_queues s.cache).trans (Cache.seed_queues _ _)).trans
            (Cache.callAll_queues on _ _)
        · rw [List.getElem?_append_left (List.getElem?_eq_some_iff.1 here).1]
          exact here

theorem Proceeds.finish (on : settings.checks ≠ .off) {i : Nat} {saturated : Bool}
    (taken : s.finish sources settings chain i saturated = some t) : Proceeds news s t := by
  unfold RangeSync.finish at taken
  cases here : s.attempts[i]? with
  | none =>
      simp only [here] at taken
      cases taken
  | some att =>
      simp only [here] at taken
      split at taken
      · have called : Cache.Queues news s.cache (s.cache.callAll (sources.syncDeps settings chain)
            ((readAheadPlan (idxOf att.interval.2 s.cache.chunkBlocks) s.cache.chunkBlocks
              (s.cache.dataEnd (sources.syncDeps settings chain)) settings.readahead saturated).map
                fun d => (d, none))).1 := Cache.callAll_queues on _ _
        split at taken
        · cases taken
          exact .setStatus called here _
        · cases taken
          refine .setStatus ?_ here _
          exact called.trans (Queued.of_eq rfl rfl)
      · cases taken

theorem Proceeds.abort {i : Nat} (taken : s.abort i = some t) : Proceeds news s t := by
  unfold RangeSync.abort at taken
  cases here : s.attempts[i]? with
  | none =>
      simp only [here] at taken
      cases taken
  | some att =>
      simp only [here] at taken
      split at taken <;> cases taken
      exact .setStatus (.of_eq rfl) here _

theorem Proceeds.cache (on : settings.checks ≠ .off) {a : CacheAction}
    (taken : s.step sources settings chain (.cache a) = some t) :
    Proceeds (fun f c b => (f, b) ∈ s.cache.delivered a ∧ c ∈ sources.creations chain f b) s t := by
  by_cases own : Cache.ofLoop a = true
  · rw [RangeSync.step, if_pos own] at taken
    obtain ⟨cache, moved, rfl⟩ := Option.map_eq_some_iff.1 taken
    exact .moved (Cache.loop_queues on own moved)
  · rw [RangeSync.step, if_neg own] at taken
    cases taken

/-- The queue is replaced. -/
def requeue (s : RangeSync F A T R) (pending : OrdMap (F × A) Int) : RangeSync F A T R :=
  { s with cache := s.cache.requeue pending }

theorem Sound.requeue (sound : Sound sources settings chain s) (pending : OrdMap (F × A) Int) :
    Sound sources settings chain (s.requeue pending) :=
  sound.moved (sound.good.requeue pending)

end RangeSync

end PortalPonder.Historical
