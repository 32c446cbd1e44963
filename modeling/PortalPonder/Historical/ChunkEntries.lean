import PortalPonder.Historical.ChunkCache

/-!
# Entries of the chunk cache

The ranges of the operations of an entry tile what it claims to cover, an operation that is done
has streamed every query of every source over its range, and the operations of an entry stream
one after the other.
-/

namespace PortalPonder.Historical

variable {F A Q : Type} {deps : SyncDeps F A Q}

/-! ## One operation -/

namespace Op

def Covers (op : Op F A Q) (b : Nat) : Prop := op.fromBlock ≤ b ∧ b ≤ op.toBlock

instance (op : Op F A Q) (b : Nat) : Decidable (op.Covers b) :=
  inferInstanceAs (Decidable (_ ∧ _))

/-- The rows of a block that the operation has merged. -/
def rowsAt (op : Op F A Q) (b : Nat) : List (Q × Nat) := op.rows.filter fun r => r.2 = b

end Op

/-- The rows of a block under the queries of the opened sources. -/
def servedAt (opened : List (Opened F A Q)) (b : Nat) : List (Q × Nat) :=
  opened.flatMap fun o => o.queries.map fun q => (q, b)

/-- The rows of a block under the current query, of which it has streamed up to `next`. -/
def partAt (todo : List Q) (next b : Nat) : List (Q × Nat) :=
  match todo with
  | [] => []
  | q :: _ => if b < next then [(q, b)] else []

/-- How far an operation has come. -/
def Progress (op : Op F A Q) : OpStatus Q → Prop
  | .waiting | .gated _ => op.opened = [] ∧ op.rows = []
  | .streaming source todo next =>
      ∃ before known asked, op.opened = before ++ [⟨source, known, asked ++ todo⟩] ∧
        op.opened.map Opened.source = source.upTo ∧ op.fromBlock ≤ next ∧
        ∀ b, op.Covers b → op.rowsAt b =
          servedAt before b ++ asked.map (fun q => (q, b)) ++ partAt todo next b
  | .done =>
      op.opened.map Opened.source = Source.all ∧ ∀ b, op.Covers b → op.rowsAt b = servedAt op.opened b
  | .failed | .handled => True

structure Op.Sound (deps : SyncDeps F A Q) (op : Op F A Q) : Prop where
  inRange : ∀ r ∈ op.rows, op.Covers r.2
  computed : ∀ o ∈ op.opened, deps.queries o.source o.known = .ok o.queries
  progress : Progress op op.status

theorem Op.Sound.planned (fromBlock toBlock : Nat) (opts : EnsureOpts) {status : OpStatus Q}
    (idle : status = .waiting ∨ ∃ promise, status = .gated promise) :
    (Op.planned fromBlock toBlock opts status : Op F A Q).Sound deps where
  inRange := by
    intro r mem
    cases mem
  computed := by
    intro o mem
    cases mem
  progress := by
    rcases idle with rfl | ⟨promise, rfl⟩
    · exact ⟨rfl, rfl⟩
    · exact ⟨rfl, rfl⟩

/-- What remains true when only the status changes. -/
theorem Op.Sound.status {op : Op F A Q} (sound : op.Sound deps) {status : OpStatus Q}
    (progress : Progress op status) : ({ op with status := status } : Op F A Q).Sound deps where
  inRange := sound.inRange
  computed := sound.computed
  progress := by
    cases status with
    | waiting => exact progress
    | gated => exact progress
    | streaming => exact progress
    | done => exact progress
    | failed => exact trivial
    | handled => exact trivial

theorem rowsAt_push (op : Op F A Q) (q : Q) (n b : Nat) :
    (op.rows ++ [(q, n)]).filter (fun r => r.2 = b) =
      op.rowsAt b ++ if n = b then [(q, b)] else [] := by
  rw [List.filter_append]
  by_cases here : n = b
  · subst here
    simp [Op.rowsAt]
  · simp [Op.rowsAt, here]

theorem servedAt_concat (before : List (Opened F A Q)) (o : Opened F A Q) (b : Nat) :
    servedAt (before ++ [o]) b = servedAt before b ++ o.queries.map fun q => (q, b) := by
  simp [servedAt]

/-- A block of the range is delivered for the current query. -/
theorem partAt_push {q : Q} {todo : List Q} {next b : Nat} :
    partAt (q :: todo) next b ++ (if next = b then [(q, b)] else []) =
      partAt (q :: todo) (next + 1) b := by
  rcases Nat.lt_trichotomy b next with below | here | above
  · simp [partAt, below, Nat.ne_of_gt below, Nat.lt_succ_of_lt below]
  · simp [partAt, here]
  · have later : ¬ b < next + 1 := by omega
    simp [partAt, Nat.lt_asymm above, Nat.ne_of_lt above, later]

/-- At its start a query has delivered nothing of the range. -/
theorem partAt_start {op : Op F A Q} (todo : List Q) {b : Nat} (covered : op.Covers b) :
    partAt todo op.fromBlock b = [] := by
  cases todo with
  | nil => rfl
  | cons q todo => exact if_neg (Nat.not_lt.2 covered.1)

/-- The first source, and every later one, is opened behind what is served. -/
theorem Op.Sound.openSource {op : Op F A Q} (sound : op.Sound deps) {source : Source}
    (known : Children F A)
    (turn : op.opened.map Opened.source ++ [source] = source.upTo)
    (served : ∀ b, op.Covers b → op.rowsAt b = servedAt op.opened b) :
    (op.openSource deps known source).Sound deps := by
  unfold Op.openSource
  cases computes : deps.queries source known with
  | error message => exact sound.status trivial
  | ok queries =>
      refine ⟨sound.inRange, ?_, op.opened, known, [], rfl, ?_, Nat.le_refl _, ?_⟩
      · intro o mem
        rcases List.mem_append.1 mem with old | new
        · exact sound.computed o old
        · rw [List.mem_singleton.1 new]
          exact computes
      · show (op.opened ++ [_]).map Opened.source = source.upTo
        rw [List.map_append]
        exact turn
      · intro b covered
        have fresh : partAt queries op.fromBlock b = [] := partAt_start _ covered
        show op.rowsAt b = servedAt op.opened b ++ [] ++ partAt queries op.fromBlock b
        rw [fresh, served b covered]
        simp

theorem openSource_range (op : Op F A Q) (known : Children F A) (source : Source) :
    (op.openSource deps known source).fromBlock = op.fromBlock ∧
      (op.openSource deps known source).toBlock = op.toBlock := by
  unfold Op.openSource
  split <;> exact ⟨rfl, rfl⟩

/-- What one step of `runStreams` can do. -/
inductive Advanced (deps : SyncDeps F A Q) (known : Children F A) (op : Op F A Q) :
    Op F A Q → Prop
  | deliver {source q todo next} (running : op.status = .streaming source (q :: todo) next)
      (left : next ≤ op.toBlock) :
      Advanced deps known op { op with
        rows := op.rows ++ [(q, next)]
        status := .streaming source (q :: todo) (next + 1) }
  | query {source q todo next} (running : op.status = .streaming source (q :: todo) next)
      (drained : op.toBlock < next) :
      Advanced deps known op { op with status := .streaming source todo op.fromBlock }
  | source {source source' next} (running : op.status = .streaming source [] next)
      (turn : source.next = some source') :
      Advanced deps known op (op.openSource deps known source')
  | finish {source next} (running : op.status = .streaming source [] next)
      (turn : source.next = none) :
      Advanced deps known op { op with status := .done }

theorem advance_cases {op op' : Op F A Q} {known : Children F A}
    (taken : op.advance deps known = some op') : Advanced deps known op op' := by
  unfold Op.advance at taken
  cases running : op.status with
  | streaming source todo next =>
      rw [running] at taken
      cases todo with
      | cons q todo =>
          by_cases left : next ≤ op.toBlock
          · simp only [if_pos left, Option.some.injEq] at taken
            subst taken
            exact .deliver running left
          · simp only [if_neg left, Option.some.injEq] at taken
            subst taken
            exact .query running (Nat.lt_of_not_le left)
      | nil =>
          cases turn : source.next with
          | some source' =>
              simp only [turn, Option.some.injEq] at taken
              subst taken
              exact .source running turn
          | none =>
              simp only [turn, Option.some.injEq] at taken
              subst taken
              exact .finish running turn
  | _ =>
      rw [running] at taken
      cases taken

/-- The range stays, and only a streaming operation moves. -/
theorem Advanced.range {op op' : Op F A Q} {known : Children F A}
    (moved : Advanced deps known op op') :
    op'.fromBlock = op.fromBlock ∧ op'.toBlock = op.toBlock ∧
      ∃ source todo next, op.status = .streaming source todo next := by
  cases moved with
  | deliver running _ => exact ⟨rfl, rfl, _, _, _, running⟩
  | query running _ => exact ⟨rfl, rfl, _, _, _, running⟩
  | source running _ =>
      exact ⟨(openSource_range _ _ _).1, (openSource_range _ _ _).2, _, _, _, running⟩
  | finish running _ => exact ⟨rfl, rfl, _, _, _, running⟩

theorem Op.Sound.streaming {op : Op F A Q} (sound : op.Sound deps) {source : Source}
    {todo : List Q} {next : Nat} (running : op.status = .streaming source todo next) :
    Progress op (.streaming source todo next) :=
  running ▸ sound.progress

/-- A source whose queries are drained has served its rows. -/
theorem Op.Sound.drained {op : Op F A Q} (sound : op.Sound deps) {source : Source} {next : Nat}
    (running : op.status = .streaming source [] next) :
    op.opened.map Opened.source = source.upTo ∧
      ∀ b, op.Covers b → op.rowsAt b = servedAt op.opened b := by
  obtain ⟨before, known, asked, opened, sources, _, served⟩ := sound.streaming running
  refine ⟨sources, ?_⟩
  intro b covered
  rw [served b covered, opened, servedAt_concat]
  simp [partAt]

/-- One step of `runStreams`. -/
theorem Op.Sound.advance {op op' : Op F A Q} (sound : op.Sound deps) {known : Children F A}
    (moved : Advanced deps known op op') : op'.Sound deps := by
  cases moved with
  | deliver running left =>
      rename_i source q todo next
      obtain ⟨before, known', asked, opened, sources, low, served⟩ := sound.streaming running
      refine ⟨?_, sound.computed, before, known', asked, opened, sources, Nat.le_succ_of_le low, ?_⟩
      · intro r mem
        rcases List.mem_append.1 mem with old | new
        · exact sound.inRange r old
        · cases List.mem_singleton.1 new
          exact ⟨low, left⟩
      · intro b covered
        show (op.rows ++ [(q, next)]).filter (fun r => r.2 = b) = _
        rw [rowsAt_push, served b covered, List.append_assoc, partAt_push]
  | query running drained =>
      rename_i source q todo next
      obtain ⟨before, known', asked, opened, sources, low, served⟩ := sound.streaming running
      refine ⟨sound.inRange, sound.computed, before, known', asked ++ [q], ?_, sources,
        Nat.le_refl _, ?_⟩
      · rw [opened, List.append_assoc]
        rfl
      · intro b covered
        have delivered : partAt (q :: todo) next b = [(q, b)] :=
          if_pos (Nat.lt_of_le_of_lt covered.2 drained)
        have fresh : partAt todo op.fromBlock b = [] := partAt_start todo covered
        show op.rowsAt b = servedAt before b ++ (asked ++ [q]).map (fun q => (q, b)) ++
          partAt todo op.fromBlock b
        rw [served b covered, delivered, fresh]
        simp
  | source running turn =>
      obtain ⟨sources, whole⟩ := sound.drained running
      exact sound.openSource known (by rw [sources, Source.upTo_next turn]) whole
  | finish running turn =>
      obtain ⟨sources, whole⟩ := sound.drained running
      exact ⟨sound.inRange, sound.computed, sources.trans (Source.upTo_last turn), whole⟩

/-! ## The ranges of an entry -/

namespace Entry

/-- The whole chunk: its grid range within the backfill. -/
def grid (deps : SyncDeps F A Q) (e : Entry F A Q) : Interval :=
  chunkRange e.idx e.chunkBlocks deps.backfillStart deps.backfillEnd

/-- How many operations have a block in their range. -/
def hits (e : Entry F A Q) (b : Nat) : Nat := e.ops.countP fun op => op.Covers b

/-- The ranges tile what is covered, as far as it lies in the chunk. -/
structure Laid (deps : SyncDeps F A Q) (e : Entry F A Q) : Prop where
  once : ∀ b, (e.grid deps).1 ≤ b → b ≤ (e.grid deps).2 →
    e.hits b = if e.coveredFrom ≤ b ∧ b ≤ e.coveredTo then 1 else 0
  /-- nothing of the chunk lies between the two ends when they are out of order -/
  joined : e.coveredFrom ≤ (e.grid deps).1 ∨ e.coveredFrom ≤ e.coveredTo + 1 ∨
    (e.grid deps).2 ≤ e.coveredTo
  whole : deps.warmupBlocks = 0 → e.coveredFrom ≤ (e.grid deps).1

theorem hits_push (e : Entry F A Q) (op : Op F A Q) (b : Nat) :
    (e.push op).hits b = e.hits b + if op.Covers b then 1 else 0 := by
  show (e.ops ++ [op]).countP _ = e.ops.countP _ + _
  rw [List.countP_append, List.countP_singleton]
  simp

theorem Laid.repairPrefix {e : Entry F A Q} (laid : e.Laid deps) (need : Option Interval)
    (opts : EnsureOpts) : (e.repairPrefix (deps.activeNeed need) opts).Laid deps := by
  cases active : deps.activeNeed need with
  | none => exact laid
  | some n =>
      have warm : deps.warmupBlocks ≠ 0 := by
        intro zero
        rw [SyncDeps.activeNeed, if_pos zero] at active
        cases active
      unfold Entry.repairPrefix
      by_cases inside : n.1 < e.coveredFrom ∧ n.2 ≥ e.coveredFrom
      · simp only [if_pos inside]
        obtain ⟨once, joined, whole⟩ := laid
        refine ⟨?_, ?_, fun zero => absurd zero warm⟩
        · intro b low high
          change (e.grid deps).1 ≤ b at low
          change b ≤ (e.grid deps).2 at high
          rw [hits_push]
          show e.hits b + (if n.1 ≤ b ∧ b ≤ e.coveredFrom - 1 then 1 else 0) =
            if n.1 ≤ b ∧ b ≤ e.coveredTo then 1 else 0
          rw [once b low high]
          split_ifs <;> omega
        · show n.1 ≤ (e.grid deps).1 ∨ n.1 ≤ e.coveredTo + 1 ∨ (e.grid deps).2 ≤ e.coveredTo
          omega
      · simp only [if_neg inside]
        exact laid

theorem Laid.serve {e : Entry F A Q} (laid : e.Laid deps) {desiredTo : Nat} (needTo quantum : Nat)
    (opts : EnsureOpts) (within : e.coveredTo ≤ desiredTo)
    (inGrid : desiredTo ≤ (e.grid deps).2) : (e.serve desiredTo needTo quantum opts).Laid deps := by
  unfold Entry.serve
  by_cases hit : needTo ≤ e.coveredTo
  · rw [if_pos hit]
    exact laid
  · rw [if_neg hit]
    obtain ⟨once, joined, whole⟩ := laid
    have further : e.coveredTo ≤ min desiredTo (max needTo (e.coveredTo + quantum)) := by omega
    refine ⟨?_, ?_, whole⟩
    · intro b low high
      change (e.grid deps).1 ≤ b at low
      change b ≤ (e.grid deps).2 at high
      unfold Entry.extend
      rw [hits_push]
      show e.hits b + (if e.coveredTo + 1 ≤ b ∧ b ≤ min desiredTo (max needTo (e.coveredTo + quantum))
          then 1 else 0) =
        if e.coveredFrom ≤ b ∧ b ≤ min desiredTo (max needTo (e.coveredTo + quantum)) then 1 else 0
      rw [once b low high]
      split_ifs <;> omega
    · show e.coveredFrom ≤ (e.grid deps).1 ∨
        e.coveredFrom ≤ min desiredTo (max needTo (e.coveredTo + quantum)) + 1 ∨
        (e.grid deps).2 ≤ min desiredTo (max needTo (e.coveredTo + quantum))
      omega

end Entry

/-! ## The operations of an entry -/

namespace OpStatus

/-- It no longer awaits the operation before it. -/
def started : OpStatus Q → Bool
  | .gated _ | .streaming .. | .done => true
  | .waiting | .failed | .handled => false

end OpStatus

/-- An operation that has started comes after finished ones. -/
def Entry.Chained (e : Entry F A Q) : Prop :=
  ∀ k op, e.ops[k]? = some op → op.status.started = true → ∀ j < k, e.statusOf j = some .done

/-- What every entry keeps, under the current head. -/
structure EntryKept (deps : SyncDeps F A Q) (head : Nat) (e : Entry F A Q) : Prop where
  laid : e.Laid deps
  chained : e.Chained
  sound : ∀ op ∈ e.ops, op.Sound deps
  below : ∀ op ∈ e.ops, op.toBlock ≤ head
  within : e.coveredTo ≤
    (chunkRange e.idx e.chunkBlocks deps.backfillStart (minEnd deps.backfillEnd (some head))).2

theorem chunkRange_mono {idx chunkBlocks backfillStart head head' : Nat} {backfillEnd : Option Nat}
    (le : head ≤ head') :
    (chunkRange idx chunkBlocks backfillStart (minEnd backfillEnd (some head))).2 ≤
      (chunkRange idx chunkBlocks backfillStart (minEnd backfillEnd (some head'))).2 := by
  cases backfillEnd with
  | none =>
      show min _ head ≤ min _ head'
      omega
  | some e =>
      show min _ (min e head) ≤ min _ (min e head')
      omega

theorem EntryKept.mono {e : Entry F A Q} {head head' : Nat} (kept : EntryKept deps head e)
    (le : head ≤ head') : EntryKept deps head' e :=
  { kept with
    below := fun op mem => Nat.le_trans (kept.below op mem) le
    within := Nat.le_trans kept.within (chunkRange_mono le) }

/-- An operation moves within its range. -/
theorem EntryKept.setOp {e : Entry F A Q} {head k : Nat} {op op' : Op F A Q}
    (kept : EntryKept deps head e) (here : e.ops[k]? = some op)
    (range : op'.fromBlock = op.fromBlock ∧ op'.toBlock = op.toBlock) (sound : op'.Sound deps)
    (order : op'.status.started = true → ∀ j < k, e.statusOf j = some .done)
    (undone : op.status ≠ .done) : EntryKept deps head (e.setOp k op') := by
  have inOps : op ∈ e.ops := List.mem_of_getElem? here
  have within : k < e.ops.length := (List.getElem?_eq_some_iff.1 here).1
  have same : ∀ b, op'.Covers b ↔ op.Covers b := by
    intro b
    unfold Op.Covers
    rw [range.1, range.2]
  have hits : ∀ b, (e.setOp k op').hits b = e.hits b := by
    intro b
    show (e.ops.set k op').countP _ = e.ops.countP _
    have at_ : e.ops[k] = op := (List.getElem?_eq_some_iff.1 here).2
    rw [List.countP_set within, at_]
    have counted : op.Covers b → 0 < e.ops.countP fun op => op.Covers b := fun covers =>
      List.countP_pos_iff.2 ⟨op, inOps, decide_eq_true covers⟩
    by_cases covers : op.Covers b
    · have := counted covers
      simp only [same b, covers, decide_true, if_true]
      omega
    · simp [same b, covers]
  refine ⟨⟨?_, kept.laid.joined, kept.laid.whole⟩, ?_, ?_, ?_, kept.within⟩
  · intro b low high
    rw [hits b]
    exact kept.laid.once b low high
  · intro i opi at_ started j before
    by_cases isK : i = k
    · subst isK
      have moved : (e.ops.set i op')[i]? = some op' := List.getElem?_set_self within
      have eq : opi = op' := Option.some.inj (at_.symm.trans moved)
      subst eq
      have done := order started j before
      show ((e.ops.set i opi)[j]?).map Op.status = _
      rw [List.getElem?_set_ne (Nat.ne_of_gt before)]
      exact done
    · have old : e.ops[i]? = some opi := by
        rw [← at_]
        exact (List.getElem?_set_ne (Ne.symm isK)).symm
      have done := kept.chained i opi old started j before
      by_cases isJ : k = j
      · subst isJ
        rw [Entry.statusOf, here] at done
        exact absurd (Option.some.inj done) undone
      · show ((e.ops.set k op')[j]?).map Op.status = _
        rw [List.getElem?_set_ne isJ]
        exact done
  · intro opi mem
    rcases List.mem_or_eq_of_mem_set mem with old | rfl
    · exact kept.sound opi old
    · exact sound
  · intro opi mem
    rcases List.mem_or_eq_of_mem_set mem with old | rfl
    · exact kept.below opi old
    · rw [range.2]
      exact kept.below op inOps

theorem Entry.Chained.push {e : Entry F A Q} (chained : e.Chained) {op : Op F A Q}
    (idle : op.status.started = false) : (e.push op).Chained := by
  intro k opk at_ started j before
  have inOld : k < e.ops.length := by
    rcases Nat.lt_or_ge k e.ops.length with old | new
    · exact old
    · have at_' : (e.ops ++ [op])[k]? = some opk := at_
      rw [List.getElem?_append_right new] at at_'
      have eq : opk = op := List.mem_singleton.1 (List.mem_of_getElem? at_')
      rw [eq, idle] at started
      cases started
  have old : e.ops[k]? = some opk := by
    rw [← at_]
    exact (List.getElem?_append_left inOld).symm
  show ((e.ops ++ [op])[j]?).map Op.status = _
  rw [List.getElem?_append_left (Nat.lt_trans before inOld)]
  exact chained k opk old started j before

theorem EntryKept.repairPrefix {e : Entry F A Q} {head : Nat} (kept : EntryKept deps head e)
    {need : Option Interval} (opts : EnsureOpts) (served : ∀ n ∈ need, n.2 ≤ head) :
    EntryKept deps head (e.repairPrefix (deps.activeNeed need) opts) := by
  have laid := kept.laid.repairPrefix need opts
  cases active : deps.activeNeed need with
  | none => exact kept
  | some n =>
      have given : n ∈ need := by
        unfold SyncDeps.activeNeed at active
        split at active
        · cases active
        · exact active
      rw [active] at laid
      unfold Entry.repairPrefix at laid ⊢
      by_cases inside : n.1 < e.coveredFrom ∧ n.2 ≥ e.coveredFrom
      · simp only [if_pos inside] at laid ⊢
        refine ⟨laid, kept.chained.push rfl, ?_, ?_, kept.within⟩
        · intro op mem
          rcases List.mem_append.1 mem with old | new
          · exact kept.sound op old
          · rw [List.mem_singleton.1 new]
            exact .planned _ _ _ (.inl rfl)
        · intro op mem
          rcases List.mem_append.1 mem with old | new
          · exact kept.below op old
          · rw [List.mem_singleton.1 new]
            show e.coveredFrom - 1 ≤ head
            have := served n given
            omega
      · simp only [if_neg inside]
        exact kept

theorem chunkRange_le_head {idx chunkBlocks backfillStart head : Nat} {backfillEnd : Option Nat} :
    (chunkRange idx chunkBlocks backfillStart (minEnd backfillEnd (some head))).2 ≤ head := by
  cases backfillEnd with
  | none => exact Nat.min_le_right _ head
  | some e => exact Nat.le_trans (Nat.min_le_right _ _) (Nat.min_le_right e head)

theorem chunkRange_le_grid {idx chunkBlocks backfillStart head : Nat} {backfillEnd : Option Nat} :
    (chunkRange idx chunkBlocks backfillStart (minEnd backfillEnd (some head))).2 ≤
      (chunkRange idx chunkBlocks backfillStart backfillEnd).2 := by
  cases backfillEnd with
  | none => exact Nat.min_le_left _ head
  | some e =>
      show min _ (min e head) ≤ min _ e
      omega

theorem EntryKept.serve {e : Entry F A Q} {head : Nat} (kept : EntryKept deps head e)
    (needTo quantum : Nat) (opts : EnsureOpts) {desiredTo : Nat}
    (desired : desiredTo =
      (chunkRange e.idx e.chunkBlocks deps.backfillStart (minEnd deps.backfillEnd (some head))).2) :
    EntryKept deps head (e.serve desiredTo needTo quantum opts) := by
  have within : e.coveredTo ≤ desiredTo := desired ▸ kept.within
  have laid := kept.laid.serve needTo quantum opts within (desired ▸ chunkRange_le_grid)
  unfold Entry.serve at laid ⊢
  by_cases hit : needTo ≤ e.coveredTo
  · rw [if_pos hit]
    exact kept
  · rw [if_neg hit] at laid ⊢
    have low : min desiredTo (max needTo (e.coveredTo + quantum)) ≤ desiredTo := Nat.min_le_left _ _
    refine ⟨laid, kept.chained.push rfl, ?_, ?_, desired ▸ low⟩
    · intro op mem
      rcases List.mem_append.1 mem with old | new
      · exact kept.sound op old
      · rw [List.mem_singleton.1 new]
        exact .planned _ _ _ (.inl rfl)
    · intro op mem
      rcases List.mem_append.1 mem with old | new
      · exact kept.below op old
      · rw [List.mem_singleton.1 new]
        exact Nat.le_trans low (desired ▸ chunkRange_le_head)

/-- A fresh entry, for a need that lies in the chunk and below the head. -/
theorem EntryKept.initial {idx chunkBlocks head quantum : Nat} {need : Option Interval}
    (opts : EnsureOpts) (promise : Option Nat)
    (promised : ∀ n ∈ need, idx * chunkBlocks ≤ n.1 ∧ n.1 ≤ n.2 ∧
      n.2 < idx * chunkBlocks + chunkBlocks ∧ n.2 ≤ head) {range bounds : Interval}
    (desired : range = chunkRange idx chunkBlocks deps.backfillStart
      (minEnd deps.backfillEnd (some head)))
    (fetched : bounds = fetchBounds range.1 range.2 (deps.activeNeed need) quantum) :
    EntryKept deps head
      { idx := idx
        chunkBlocks := chunkBlocks
        coveredFrom := bounds.1
        coveredTo := bounds.2
        ops := [.planned bounds.1 bounds.2 opts (.gated promise)] } := by
  have desiredTo : bounds.2 ≤ range.2 := fetched ▸ fetchBounds_to_le _ _ _ _
  refine ⟨⟨?_, ?_, ?_⟩, ?_, ?_, ?_, ?_⟩
  · intro b _ _
    show List.countP _ [_] = if bounds.1 ≤ b ∧ b ≤ bounds.2 then 1 else 0
    rw [List.countP_singleton]
    exact if_congr decide_eq_true_iff rfl rfl
  · show bounds.1 ≤ (chunkRange idx chunkBlocks deps.backfillStart deps.backfillEnd).1 ∨
      bounds.1 ≤ bounds.2 + 1 ∨
      (chunkRange idx chunkBlocks deps.backfillStart deps.backfillEnd).2 ≤ bounds.2
    subst fetched desired
    cases active : deps.activeNeed need with
    | none => exact .inl (Nat.le_refl _)
    | some n =>
        have given : n ∈ need := by
          unfold SyncDeps.activeNeed at active
          split at active
          · cases active
          · exact active
        obtain ⟨low, order, high, below⟩ := promised n given
        rw [fetchBounds_some]
        cases deps.backfillEnd with
        | none =>
            simp only [chunkRange, minEnd, clampEnd]
            omega
        | some e =>
            simp only [chunkRange, minEnd, clampEnd]
            omega
  · intro zero
    subst fetched desired
    rw [SyncDeps.activeNeed, if_pos zero, fetchBounds_none]
    exact Nat.le_refl _
  · intro k op at_ started j before
    have first : k < 1 := (List.getElem?_eq_some_iff.1 at_).1
    omega
  · intro op mem
    rw [List.mem_singleton.1 mem]
    exact .planned _ _ _ (.inr ⟨promise, rfl⟩)
  · intro op mem
    rw [List.mem_singleton.1 mem]
    exact Nat.le_trans desiredTo (desired ▸ chunkRange_le_head)
  · exact desired ▸ desiredTo

/-! ## Calls -/

/-- The range of an operation never changes, and operations are only added. -/
def Entry.Grown (e e' : Entry F A Q) : Prop :=
  e'.idx = e.idx ∧ e'.chunkBlocks = e.chunkBlocks ∧
    ∀ (j : Nat) (op : Op F A Q), e.ops[j]? = some op →
      ∃ op' : Op F A Q, e'.ops[j]? = some op' ∧ ∀ b, op.Covers b → op'.Covers b

theorem Entry.Grown.refl (e : Entry F A Q) : e.Grown e :=
  ⟨rfl, rfl, fun _ op at_ => ⟨op, at_, fun _ covers => covers⟩⟩

theorem Entry.Grown.trans {e e' e'' : Entry F A Q} (one : e.Grown e') (two : e'.Grown e'') :
    e.Grown e'' := by
  refine ⟨two.1.trans one.1, two.2.1.trans one.2.1, ?_⟩
  intro j op at_
  obtain ⟨op', at', covers⟩ := one.2.2 j op at_
  obtain ⟨op'', at'', covers'⟩ := two.2.2 j op' at'
  exact ⟨op'', at'', fun b covered => covers' b (covers b covered)⟩

theorem Entry.Grown.push (e : Entry F A Q) (op : Op F A Q) : e.Grown (e.push op) := by
  refine ⟨rfl, rfl, ?_⟩
  intro j op' at_
  refine ⟨op', ?_, fun _ covers => covers⟩
  show (e.ops ++ [op])[j]? = some op'
  rw [List.getElem?_append_left (List.getElem?_eq_some_iff.1 at_).1]
  exact at_

theorem Entry.Grown.repairPrefix (e : Entry F A Q) (activeNeed : Option Interval)
    (opts : EnsureOpts) : e.Grown (e.repairPrefix activeNeed opts) := by
  unfold Entry.repairPrefix
  cases activeNeed with
  | none => exact .refl e
  | some n =>
      by_cases inside : n.1 < e.coveredFrom ∧ n.2 ≥ e.coveredFrom
      · simp only [if_pos inside]
        exact Entry.Grown.push { e with coveredFrom := n.1 } _
      · simp only [if_neg inside]
        exact .refl e

theorem Entry.Grown.serve (e : Entry F A Q) (desiredTo needTo quantum : Nat) (opts : EnsureOpts) :
    e.Grown (e.serve desiredTo needTo quantum opts) := by
  unfold Entry.serve
  by_cases hit : needTo ≤ e.coveredTo
  · rw [if_pos hit]
    exact .refl e
  · rw [if_neg hit]
    exact Entry.Grown.push { e with coveredTo := _ } _

theorem Entry.Grown.setOp {e : Entry F A Q} {k : Nat} {op op' : Op F A Q}
    (here : e.ops[k]? = some op)
    (range : op'.fromBlock = op.fromBlock ∧ op'.toBlock = op.toBlock) : e.Grown (e.setOp k op') := by
  refine ⟨rfl, rfl, ?_⟩
  intro j opj at_
  by_cases isK : k = j
  · subst isK
    have eq : op = opj := Option.some.inj (here.symm.trans at_)
    subst eq
    refine ⟨op', List.getElem?_set_self (List.getElem?_eq_some_iff.1 here).1, ?_⟩
    intro b covers
    exact ⟨range.1 ▸ covers.1, range.2 ▸ covers.2⟩
  · exact ⟨opj, by
      show (e.ops.set k op')[j]? = some opj
      rw [List.getElem?_set_ne isK]
      exact at_, fun _ covers => covers⟩

/-- Every block that a call needs is in the range of an operation that its promise awaits. -/
def Answers (deps : SyncDeps F A Q) (e : Entry F A Q) (call : ChunkCall) : Prop :=
  ∀ need ∈ call.need, ∀ b, need.1 ≤ b → b ≤ need.2 → deps.backfillStart ≤ b →
    (∀ n ∈ deps.backfillEnd, b ≤ n) → (e.grid deps).1 ≤ b ∧ b ≤ (e.grid deps).2 ∧
      ∃ j op, j ≤ call.op ∧ e.ops[j]? = some op ∧ op.Covers b

theorem Answers.grown {e e' : Entry F A Q} {call : ChunkCall} (answers : Answers deps e call)
    (grown : e.Grown e') : Answers deps e' call := by
  intro need mem b low high first last
  obtain ⟨low', high', j, op, le, at_, covers⟩ := answers need mem b low high first last
  obtain ⟨op', at', covers'⟩ := grown.2.2 j op at_
  unfold Entry.grid at low' high' ⊢
  rw [grown.1, grown.2.1]
  exact ⟨low', high', j, op', le, at', covers' b covers⟩

/-- What is covered of the chunk is in the range of an operation. -/
theorem Entry.Laid.covered {e : Entry F A Q} (laid : e.Laid deps) {b : Nat}
    (low : (e.grid deps).1 ≤ b) (high : b ≤ (e.grid deps).2) (after : e.coveredFrom ≤ b)
    (upTo : b ≤ e.coveredTo) : ∃ j op, j ≤ e.last ∧ e.ops[j]? = some op ∧ op.Covers b := by
  have one : e.hits b = 1 := by rw [laid.once b low high, if_pos ⟨after, upTo⟩]
  have pos : 0 < e.ops.countP fun op => op.Covers b := by
    show 0 < e.hits b
    omega
  obtain ⟨op, mem, covers⟩ := List.countP_pos_iff.1 pos
  obtain ⟨j, within, at_⟩ := List.getElem_of_mem mem
  refine ⟨j, op, ?_, ?_, of_decide_eq_true covers⟩
  · show j ≤ e.ops.length - 1
    omega
  · rw [List.getElem?_eq_getElem within, at_]

/-- An entry that covers a need from below answers the call that was just served from it. -/
theorem EntryKept.answers {e : Entry F A Q} {head : Nat} (kept : EntryKept deps head e)
    {idx id : Nat} {need : Option Interval} (grid : e.idx = idx)
    (promised : ∀ n ∈ need, idx * e.chunkBlocks ≤ n.1 ∧ n.1 ≤ n.2 ∧
      n.2 < idx * e.chunkBlocks + e.chunkBlocks ∧ n.2 ≤ head)
    (after : ∀ n ∈ deps.activeNeed need, ∀ b, n.1 ≤ b → (e.grid deps).1 ≤ b → e.coveredFrom ≤ b)
    (upTo : need.isSome → deps.needTo need (chunkRange e.idx e.chunkBlocks deps.backfillStart
      (minEnd deps.backfillEnd (some head))).2 ≤ e.coveredTo ∨
      (chunkRange e.idx e.chunkBlocks deps.backfillStart
      (minEnd deps.backfillEnd (some head))).2 ≤ e.coveredTo) :
    Answers deps e ⟨idx, need, id, e.last⟩ := by
  subst grid
  intro n given b low high first last
  obtain ⟨gridLow, _, gridHigh, below⟩ := promised n given
  have inGrid : (e.grid deps).1 ≤ b ∧ b ≤ (e.grid deps).2 := by
    refine ⟨?_, ?_⟩
    · show max _ _ ≤ b
      omega
    · exact le_clampEnd.2 ⟨by omega, last⟩
  have desired : b ≤ (chunkRange e.idx e.chunkBlocks deps.backfillStart
      (minEnd deps.backfillEnd (some head))).2 := by
    refine le_clampEnd.2 ⟨by omega, ?_⟩
    intro m mem
    cases hb : deps.backfillEnd with
    | none =>
        rw [hb] at mem
        cases mem
        omega
    | some be =>
        rw [hb] at mem
        cases mem
        have := last be hb
        omega
  refine ⟨inGrid.1, inGrid.2, kept.laid.covered inGrid.1 inGrid.2 ?_ ?_⟩
  · by_cases zero : deps.warmupBlocks = 0
    · exact Nat.le_trans (kept.laid.whole zero) inGrid.1
    · refine after n ?_ b low inGrid.1
      rw [SyncDeps.activeNeed, if_neg zero]
      exact given
  · rcases upTo (Option.isSome_of_mem given) with toNeed | toEnd
    · by_cases zero : deps.warmupBlocks = 0
      · rw [SyncDeps.needTo, SyncDeps.activeNeed, if_pos zero] at toNeed
        exact Nat.le_trans desired toNeed
      · have isNeed : need = some n := given
        rw [SyncDeps.needTo, SyncDeps.activeNeed, if_neg zero, isNeed] at toNeed
        exact Nat.le_trans high toNeed
    · exact Nat.le_trans desired toEnd

/-- When one element of a list satisfies a test and the others contribute nothing. -/
theorem flatMap_of_countP_one {α β : Type} {l : List α} {p : α → Bool} {g : α → List β}
    (others : ∀ a ∈ l, p a = false → g a = []) (one : l.countP p = 1) {a : α} (mem : a ∈ l)
    (here : p a = true) : l.flatMap g = g a := by
  induction l with
  | nil => cases mem
  | cons x l ih =>
      rw [List.flatMap_cons]
      rw [List.countP_cons] at one
      by_cases first : p x = true
      · rw [if_pos first] at one
        have rest : l.countP p = 0 := by omega
        have absent : ∀ y ∈ l, p y = false := by
          intro y inRest
          exact Bool.eq_false_iff.2 fun hit => absurd rest
            (Nat.pos_iff_ne_zero.1 (List.countP_pos_iff.2 ⟨y, inRest, hit⟩))
        have empty : l.flatMap g = [] := List.flatMap_eq_nil_iff.2 fun y inRest =>
          others y (List.mem_cons_of_mem _ inRest) (absent y inRest)
        rw [empty, List.append_nil]
        rcases List.mem_cons.1 mem with rfl | inRest
        · rfl
        · rw [absent a inRest] at here
          cases here
      · rw [if_neg first] at one
        rw [others x List.mem_cons_self (Bool.eq_false_iff.2 first), List.nil_append]
        rcases List.mem_cons.1 mem with rfl | inRest
        · exact absurd here first
        · exact ih (fun y inRest' => others y (List.mem_cons_of_mem _ inRest')) one inRest

/-- A block of the chunk that a finished operation has in its range: its rows in the chunk data
are those of this operation. -/
theorem EntryKept.streamed {e : Entry F A Q} {head : Nat} (kept : EntryKept deps head e) {b : Nat}
    (low : (e.grid deps).1 ≤ b) (high : b ≤ (e.grid deps).2) {op : Op F A Q} (mem : op ∈ e.ops)
    (done : op.status = .done) (covers : op.Covers b) :
    op.opened.map Opened.source = Source.all ∧
      e.cd.filter (fun r => r.2 = b) = servedAt op.opened b := by
  have finished := (kept.sound op mem).progress
  rw [done] at finished
  refine ⟨finished.1, ?_⟩
  have pos : 0 < e.hits b := List.countP_pos_iff.2 ⟨op, mem, decide_eq_true covers⟩
  have one : e.hits b = 1 := by
    have laid := kept.laid.once b low high
    split at laid <;> omega
  have others : ∀ op' ∈ e.ops, decide (op'.Covers b) = false → op'.rowsAt b = [] := by
    intro op' mem' misses
    refine List.filter_eq_nil_iff.2 ?_
    intro r inRows here
    have isB : r.2 = b := of_decide_eq_true here
    exact of_decide_eq_false misses (isB ▸ (kept.sound op' mem').inRange r inRows)
  calc e.cd.filter (fun r => r.2 = b)
      = e.ops.flatMap fun op => op.rowsAt b := List.filter_flatMap ..
    _ = op.rowsAt b := flatMap_of_countP_one others one mem (decide_eq_true covers)
    _ = servedAt op.opened b := finished.2 b covers

end PortalPonder.Historical
