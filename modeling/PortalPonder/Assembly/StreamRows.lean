import PortalPonder.Assembly.Streams
import PortalPonder.Lib.Folds

/-!
# What a call adds to the chunk data

The chunk data after a call by block: each merge appends the rows of its block and touches nothing
else, so a whole pass appends the rows of the blocks with that number, in order. The counts of the
call are the numbers of rows that the raw matchers keep.
-/

namespace PortalPonder.Assembly

open Historical (Children)
open Client (FieldKey)

variable {F : Type}

namespace ChunkData

def logsAt (cd : ChunkData) (bn : Nat) : List RawLog := (cd.logs.get? bn).getD []

def txsAt (cd : ChunkData) (bn : Nat) : List RawTx := (cd.txs.get? bn).getD []

end ChunkData

/-! ## One block -/

theorem mergeLogs_headers (cd : ChunkData) (b : RawBlock) (bn : Nat) :
    (mergeLogs cd b).headers.get? bn =
      if b.header.number = bn ∧ b.logs ≠ [] then some b.header else cd.headers.get? bn := by
  unfold mergeLogs
  cases b.logs with
  | nil => simp
  | cons l ls =>
      simp only [List.isEmpty_cons, Bool.false_eq_true, if_false, OrdMap.get?_set]
      by_cases same : bn = b.header.number
      · simp [same]
      · have other : ¬ b.header.number = bn := fun eq => same eq.symm
        simp [same, other]

theorem mergeLogs_logsAt (cd : ChunkData) (b : RawBlock) (bn : Nat) :
    (mergeLogs cd b).logsAt bn =
      cd.logsAt bn ++ if b.header.number = bn then b.logs else [] := by
  unfold mergeLogs ChunkData.logsAt
  cases b.logs with
  | nil => simp
  | cons l ls =>
      simp only [List.isEmpty_cons, Bool.false_eq_true, if_false, OrdMap.get?_set]
      by_cases same : bn = b.header.number
      · simp [same]
      · have other : ¬ b.header.number = bn := fun eq => same eq.symm
        simp [same, other]

theorem mergeLogs_txsAt (cd : ChunkData) (b : RawBlock) (bn : Nat) :
    (mergeLogs cd b).txsAt bn =
      cd.txsAt bn ++ if b.header.number = bn ∧ b.logs ≠ [] then b.transactions else [] := by
  unfold mergeLogs ChunkData.txsAt
  cases b.logs with
  | nil => simp
  | cons l ls =>
      simp only [List.isEmpty_cons, Bool.false_eq_true, if_false]
      cases b.transactions with
      | nil => simp
      | cons t ts =>
          simp only [List.isEmpty_cons, Bool.false_eq_true, if_false, OrdMap.get?_set]
          by_cases same : bn = b.header.number
          · simp [same]
          · have other : ¬ b.header.number = bn := fun eq => same eq.symm
            simp [same, other]

/-- The traces of a block join those already there. -/
def joinTraces (ex : Option TraceBlock) (b : RawBlock) : Option TraceBlock :=
  if b.traces.isEmpty then ex
  else
    some
      (match ex with
      | some ex => { ex with traces := ex.traces ++ b.traces, txs := ex.txs ++ b.transactions }
      | none => { header := b.header, traces := b.traces, txs := b.transactions })

def joinTxs (ex : Option TxBlock) (b : RawBlock) : Option TxBlock :=
  if b.transactions.isEmpty then ex
  else
    some
      (match ex with
      | some ex => { ex with txs := ex.txs ++ b.transactions }
      | none => { header := b.header, txs := b.transactions })

theorem mergeTraces_at (cd : ChunkData) (b : RawBlock) (bn : Nat) :
    (mergeTraces cd b).traceBlocks.get? bn =
      if b.header.number = bn then joinTraces (cd.traceBlocks.get? bn) b
      else cd.traceBlocks.get? bn := by
  unfold mergeTraces joinTraces
  by_cases same : b.header.number = bn
  · subst same
    split
    · simp
    · rw [if_pos rfl]
      exact OrdMap.get?_set_self _ _ _
  · rw [if_neg same]
    split
    · rfl
    · rw [OrdMap.get?_set_of_ne _ _ fun eq => same eq.symm]

theorem mergeTxs_at (cd : ChunkData) (b : RawBlock) (bn : Nat) :
    (mergeTxs cd b).txBlocks.get? bn =
      if b.header.number = bn then joinTxs (cd.txBlocks.get? bn) b else cd.txBlocks.get? bn := by
  unfold mergeTxs joinTxs
  by_cases same : b.header.number = bn
  · subst same
    split
    · simp
    · rw [if_pos rfl]
      exact OrdMap.get?_set_self _ _ _
  · rw [if_neg same]
    split
    · rfl
    · rw [OrdMap.get?_set_of_ne _ _ fun eq => same eq.symm]

/-- The block is one that a block filter asks for. -/
def wantsHeader (spec : Spec F) (b : RawBlock) : Bool :=
  spec.blockFilters.any fun f => isBlockFilterMatched f b.header.number

theorem mergeHeader_at (spec : Spec F) (cd : ChunkData) (b : RawBlock) (bn : Nat) :
    (mergeHeader spec cd b).blockHeaders.get? bn =
      if b.header.number = bn ∧ wantsHeader spec b = true then some b.header
      else cd.blockHeaders.get? bn := by
  unfold mergeHeader
  change (if wantsHeader spec b = true then _ else cd).blockHeaders.get? bn = _
  by_cases wanted : wantsHeader spec b = true
  · rw [if_pos wanted, OrdMap.get?_set]
    by_cases same : bn = b.header.number
    · simp [same, wanted]
    · have other : ¬ b.header.number = bn := fun eq => same eq.symm
      simp [same, other]
  · simp [wanted]

/-! ## A pass over blocks -/

section Passes

variable (blocks : List RawBlock) (cd : ChunkData)

theorem foldl_mergeLogs_logsAt (bn : Nat) :
    (blocks.foldl mergeLogs cd).logsAt bn =
      cd.logsAt bn ++ (blocks.filter fun b => b.header.number = bn).flatMap RawBlock.logs := by
  induction blocks generalizing cd with
  | nil => simp
  | cons b rest ih =>
      rw [List.foldl_cons, ih, mergeLogs_logsAt, List.append_assoc]
      by_cases same : b.header.number = bn
      · simp [same]
      · simp [same]

theorem foldl_mergeLogs_txsAt (bn : Nat) :
    (blocks.foldl mergeLogs cd).txsAt bn = cd.txsAt bn ++
      (blocks.filter fun b => b.header.number = bn ∧ b.logs ≠ []).flatMap RawBlock.transactions := by
  induction blocks generalizing cd with
  | nil => simp
  | cons b rest ih =>
      rw [List.foldl_cons, ih, mergeLogs_txsAt, List.append_assoc]
      by_cases here : b.header.number = bn ∧ b.logs ≠ []
      · rw [if_pos here, List.filter_cons, if_pos (by simpa using here), List.flatMap_cons]
      · rw [if_neg here, List.filter_cons, if_neg (by simpa using here), List.nil_append]

theorem foldl_mergeLogs_headers (bn : Nat) :
    (blocks.foldl mergeLogs cd).headers.get? bn =
      (((blocks.filter fun b => b.header.number = bn ∧ b.logs ≠ []).getLast?).map
        RawBlock.header).or (cd.headers.get? bn) := by
  induction blocks generalizing cd with
  | nil => simp
  | cons b rest ih =>
      rw [List.foldl_cons, ih, mergeLogs_headers]
      by_cases here : b.header.number = bn ∧ b.logs ≠ []
      · rw [if_pos here, List.filter_cons, if_pos (by simpa using here), List.getLast?_cons]
        cases (rest.filter fun b => b.header.number = bn ∧ b.logs ≠ []).getLast? with
        | none => rfl
        | some last => rfl
      · rw [if_neg here, List.filter_cons, if_neg (by simpa using here)]

theorem foldl_mergeTraces_at (bn : Nat) :
    (blocks.foldl mergeTraces cd).traceBlocks.get? bn =
      (blocks.filter fun b => b.header.number = bn).foldl joinTraces (cd.traceBlocks.get? bn) := by
  induction blocks generalizing cd with
  | nil => rfl
  | cons b rest ih =>
      rw [List.foldl_cons, ih, mergeTraces_at]
      by_cases same : b.header.number = bn
      · simp [same]
      · simp [same]

theorem foldl_mergeTxs_at (bn : Nat) :
    (blocks.foldl mergeTxs cd).txBlocks.get? bn =
      (blocks.filter fun b => b.header.number = bn).foldl joinTxs (cd.txBlocks.get? bn) := by
  induction blocks generalizing cd with
  | nil => rfl
  | cons b rest ih =>
      rw [List.foldl_cons, ih, mergeTxs_at]
      by_cases same : b.header.number = bn
      · simp [same]
      · simp [same]

theorem foldl_mergeHeader_at (spec : Spec F) (bn : Nat) :
    (blocks.foldl (mergeHeader spec) cd).blockHeaders.get? bn =
      (((blocks.filter fun b => b.header.number = bn ∧ wantsHeader spec b = true).getLast?).map
        RawBlock.header).or (cd.blockHeaders.get? bn) := by
  induction blocks generalizing cd with
  | nil => simp
  | cons b rest ih =>
      rw [List.foldl_cons, ih, mergeHeader_at]
      by_cases here : b.header.number = bn ∧ wantsHeader spec b = true
      · rw [if_pos here, List.filter_cons, if_pos (by simpa using here), List.getLast?_cons]
        cases (rest.filter fun b => b.header.number = bn ∧ wantsHeader spec b = true).getLast? with
        | none => rfl
        | some last => rfl
      · rw [if_neg here, List.filter_cons, if_neg (by simpa using here)]

theorem foldl_mergeHeader_congr (spec : Spec F) {cd cd' : ChunkData}
    (same : cd.blockHeaders = cd'.blockHeaders) :
    (blocks.foldl (mergeHeader spec) cd).blockHeaders =
      (blocks.foldl (mergeHeader spec) cd').blockHeaders := by
  induction blocks generalizing cd cd' with
  | nil => exact same
  | cons b rest ih =>
      refine ih ?_
      unfold mergeHeader
      split
      · exact congrArg (fun m => m.set b.header.number b.header) same
      · exact same

end Passes

/-! ## A call -/

namespace Streams

variable (spec : Spec F) (streams : Streams)

def traceShards : List Streamed := if spec.needTraces then [streams.traces] else []

def headerShards : List Streamed := if spec.needBlocks then [streams.blocks] else []

def usedTxShards : List Streamed := if spec.needTxFilter then streams.txShards else []

/-- The streams that the call drains. -/
def used : List Streamed :=
  streams.logShards ++ streams.traceShards spec ++ streams.headerShards spec ++
    streams.usedTxShards spec

/-- No stream of the call fails. -/
def Complete : Prop := ∀ s ∈ streams.used spec, s.failed = none

def logBlocks : List RawBlock := streams.logShards.flatMap Streamed.blocks

def traceBlocks : List RawBlock := (streams.traceShards spec).flatMap Streamed.blocks

def headerBlocks : List RawBlock := (streams.headerShards spec).flatMap Streamed.blocks

def txBlocks : List RawBlock := (streams.usedTxShards spec).flatMap Streamed.blocks

/-- The chunk data with everything that the streams deliver. -/
def merged (cd : ChunkData) : ChunkData :=
  (streams.txBlocks spec).foldl mergeTxs
    ((streams.headerBlocks spec).foldl (mergeHeader spec)
      ((streams.traceBlocks spec).foldl mergeTraces (streams.logBlocks.foldl mergeLogs cd)))

end Streams

/-! Each source writes its own part of the chunk data. -/

theorem foldl_mergeLogs_only (blocks : List RawBlock) (cd : ChunkData) :
    ∃ headers logs txs, blocks.foldl mergeLogs cd =
      { cd with headers := headers, logs := logs, txs := txs } := by
  refine Folds.foldl_keeps (fun s : ChunkData => ∃ headers logs txs,
    s = { cd with headers := headers, logs := logs, txs := txs }) ?_ ⟨_, _, _, rfl⟩
  rintro _ b _ ⟨headers, logs, txs, rfl⟩
  unfold mergeLogs
  split
  · exact ⟨_, _, _, rfl⟩
  · exact ⟨_, _, _, rfl⟩

theorem foldl_mergeTraces_only (blocks : List RawBlock) (cd : ChunkData) :
    ∃ traceBlocks, blocks.foldl mergeTraces cd = { cd with traceBlocks := traceBlocks } := by
  refine Folds.foldl_keeps (fun s : ChunkData => ∃ traceBlocks,
    s = { cd with traceBlocks := traceBlocks }) ?_ ⟨_, rfl⟩
  rintro _ b _ ⟨traceBlocks, rfl⟩
  unfold mergeTraces
  split
  · exact ⟨_, rfl⟩
  · exact ⟨_, rfl⟩

theorem foldl_mergeHeader_only (spec : Spec F) (blocks : List RawBlock) (cd : ChunkData) :
    ∃ blockHeaders, blocks.foldl (mergeHeader spec) cd = { cd with blockHeaders := blockHeaders } := by
  refine Folds.foldl_keeps (fun s : ChunkData => ∃ blockHeaders,
    s = { cd with blockHeaders := blockHeaders }) ?_ ⟨_, rfl⟩
  rintro _ b _ ⟨blockHeaders, rfl⟩
  unfold mergeHeader
  split
  · exact ⟨_, rfl⟩
  · exact ⟨_, rfl⟩

theorem foldl_mergeTxs_only (blocks : List RawBlock) (cd : ChunkData) :
    ∃ txBlocks, blocks.foldl mergeTxs cd = { cd with txBlocks := txBlocks } := by
  refine Folds.foldl_keeps (fun s : ChunkData => ∃ txBlocks,
    s = { cd with txBlocks := txBlocks }) ?_ ⟨_, rfl⟩
  rintro _ b _ ⟨txBlocks, rfl⟩
  unfold mergeTxs
  split
  · exact ⟨_, rfl⟩
  · exact ⟨_, rfl⟩

section Merged

variable (spec : Spec F) (streams : Streams) (cd : ChunkData)

theorem merged_logParts :
    (streams.merged spec cd).headers = (streams.logBlocks.foldl mergeLogs cd).headers ∧
      (streams.merged spec cd).logs = (streams.logBlocks.foldl mergeLogs cd).logs ∧
      (streams.merged spec cd).txs = (streams.logBlocks.foldl mergeLogs cd).txs := by
  unfold Streams.merged
  obtain ⟨txBlocks, txs⟩ := foldl_mergeTxs_only (streams.txBlocks spec)
    ((streams.headerBlocks spec).foldl (mergeHeader spec)
      ((streams.traceBlocks spec).foldl mergeTraces (streams.logBlocks.foldl mergeLogs cd)))
  obtain ⟨blockHeaders, headers⟩ := foldl_mergeHeader_only spec (streams.headerBlocks spec)
    ((streams.traceBlocks spec).foldl mergeTraces (streams.logBlocks.foldl mergeLogs cd))
  obtain ⟨traceBlocks, traces⟩ := foldl_mergeTraces_only (streams.traceBlocks spec)
    (streams.logBlocks.foldl mergeLogs cd)
  rw [txs, headers, traces]
  exact ⟨rfl, rfl, rfl⟩

theorem merged_logsAt (bn : Nat) : (streams.merged spec cd).logsAt bn = cd.logsAt bn ++
    (streams.logBlocks.filter fun b => b.header.number = bn).flatMap RawBlock.logs := by
  rw [← foldl_mergeLogs_logsAt]
  unfold ChunkData.logsAt
  rw [(merged_logParts spec streams cd).2.1]

theorem merged_txsAt (bn : Nat) : (streams.merged spec cd).txsAt bn = cd.txsAt bn ++
    (streams.logBlocks.filter fun b =>
      b.header.number = bn ∧ b.logs ≠ []).flatMap RawBlock.transactions := by
  rw [← foldl_mergeLogs_txsAt]
  unfold ChunkData.txsAt
  rw [(merged_logParts spec streams cd).2.2]

theorem merged_headers_at (bn : Nat) : (streams.merged spec cd).headers.get? bn =
    (((streams.logBlocks.filter fun b => b.header.number = bn ∧ b.logs ≠ []).getLast?).map
      RawBlock.header).or (cd.headers.get? bn) := by
  rw [(merged_logParts spec streams cd).1, foldl_mergeLogs_headers]

theorem merged_traceBlocks_at (bn : Nat) : (streams.merged spec cd).traceBlocks.get? bn =
    ((streams.traceBlocks spec).filter fun b => b.header.number = bn).foldl joinTraces
      (cd.traceBlocks.get? bn) := by
  unfold Streams.merged
  obtain ⟨txBlocks, txs⟩ := foldl_mergeTxs_only (streams.txBlocks spec)
    ((streams.headerBlocks spec).foldl (mergeHeader spec)
      ((streams.traceBlocks spec).foldl mergeTraces (streams.logBlocks.foldl mergeLogs cd)))
  obtain ⟨blockHeaders, headers⟩ := foldl_mergeHeader_only spec (streams.headerBlocks spec)
    ((streams.traceBlocks spec).foldl mergeTraces (streams.logBlocks.foldl mergeLogs cd))
  obtain ⟨_, _, _, logs⟩ := foldl_mergeLogs_only streams.logBlocks cd
  rw [txs, headers]
  show (((streams.traceBlocks spec).foldl mergeTraces _).traceBlocks.get? bn) = _
  rw [foldl_mergeTraces_at, logs]

theorem merged_blockHeaders : (streams.merged spec cd).blockHeaders =
    ((streams.headerBlocks spec).foldl (mergeHeader spec) cd).blockHeaders := by
  unfold Streams.merged
  obtain ⟨txBlocks, txs⟩ := foldl_mergeTxs_only (streams.txBlocks spec)
    ((streams.headerBlocks spec).foldl (mergeHeader spec)
      ((streams.traceBlocks spec).foldl mergeTraces (streams.logBlocks.foldl mergeLogs cd)))
  obtain ⟨traceBlocks, traces⟩ := foldl_mergeTraces_only (streams.traceBlocks spec)
    (streams.logBlocks.foldl mergeLogs cd)
  obtain ⟨_, _, _, logs⟩ := foldl_mergeLogs_only streams.logBlocks cd
  rw [txs, traces, logs]
  exact foldl_mergeHeader_congr _ spec rfl

theorem merged_blockHeaders_at (bn : Nat) : (streams.merged spec cd).blockHeaders.get? bn =
    ((((streams.headerBlocks spec).filter fun b =>
      b.header.number = bn ∧ wantsHeader spec b = true).getLast?).map RawBlock.header).or
        (cd.blockHeaders.get? bn) := by
  rw [merged_blockHeaders, foldl_mergeHeader_at]

theorem merged_txBlocks_at (bn : Nat) : (streams.merged spec cd).txBlocks.get? bn =
    ((streams.txBlocks spec).filter fun b => b.header.number = bn).foldl joinTxs
      (cd.txBlocks.get? bn) := by
  unfold Streams.merged
  obtain ⟨blockHeaders, headers⟩ := foldl_mergeHeader_only spec (streams.headerBlocks spec)
    ((streams.traceBlocks spec).foldl mergeTraces (streams.logBlocks.foldl mergeLogs cd))
  obtain ⟨traceBlocks, traces⟩ := foldl_mergeTraces_only (streams.traceBlocks spec)
    (streams.logBlocks.foldl mergeLogs cd)
  obtain ⟨_, _, _, logs⟩ := foldl_mergeLogs_only streams.logBlocks cd
  rw [foldl_mergeTxs_at, headers, traces, logs]

end Merged

/-- A pass that neither reads nor writes the recorded columns. -/
def Silent (pass : Run → RawBlock → Run) : Prop :=
  ∀ run b missing, pass { run with neededMissing := missing } b =
    { pass run b with neededMissing := missing }

theorem Silent.foldl {pass : Run → RawBlock → Run} (silent : Silent pass) (blocks : List RawBlock)
    (run : Run) (missing : List (FieldKey × String)) :
    blocks.foldl pass { run with neededMissing := missing } =
      { blocks.foldl pass run with neededMissing := missing } := by
  induction blocks generalizing run with
  | nil => rfl
  | cons b rest ih => rw [List.foldl_cons, List.foldl_cons, silent, ih]

/-- Streams that do not fail are one pass over their blocks. -/
theorem foldlM_drain (pass : Run → RawBlock → Run) (silent : Silent pass) {shards : List Streamed}
    (complete : ∀ s ∈ shards, s.failed = none) (run : Run) :
    ∃ missing, shards.foldlM (drain pass) run =
        .ok { (shards.flatMap Streamed.blocks).foldl pass run with neededMissing := missing } ∧
      ∀ e, e ∈ missing ↔ e ∈ run.neededMissing ∨ e ∈ shards.flatMap Streamed.missing := by
  induction shards generalizing run with
  | nil => exact ⟨run.neededMissing, rfl, fun e => by simp⟩
  | cons s rest ih =>
      have first : drain pass run s = .ok { s.blocks.foldl pass run with
          neededMissing := (run.neededMissing ++ s.missing).eraseDups } := by
        unfold drain
        rw [complete s List.mem_cons_self]
      obtain ⟨missing, done, recorded⟩ := ih (fun s mem => complete s (List.mem_cons_of_mem _ mem))
        { s.blocks.foldl pass run with
          neededMissing := (run.neededMissing ++ s.missing).eraseDups }
      refine ⟨missing, ?_, fun e => ?_⟩
      · rw [List.foldlM_cons, first]
        show rest.foldlM (drain pass) _ = _
        rw [done, List.flatMap_cons, List.foldl_append, silent.foldl]
      · rw [recorded]
        simp only [List.mem_eraseDups, List.mem_append, List.flatMap_cons]
        exact or_assoc

theorem ok_of_bind {ε α β : Type} {x : Except ε α} {f : α → Except ε β} {b : β}
    (done : x >>= f = .ok b) : ∃ a, x = .ok a ∧ f a = .ok b := by
  cases x with
  | error e => cases done
  | ok a => exact ⟨a, rfl, done⟩

theorem error_of_bind {ε α β : Type} {x : Except ε α} {f : α → Except ε β} {e : ε}
    (fails : x >>= f = .error e) : x = .error e ∨ ∃ a, x = .ok a ∧ f a = .error e := by
  cases x with
  | error e' => exact .inl (congrArg Except.error (Except.error.inj fails))
  | ok a => exact .inr ⟨a, rfl, fails⟩

/-- A pass that returns has met no stream that fails. -/
theorem complete_of_foldlM {pass : Run → RawBlock → Run} {shards : List Streamed} {run next : Run}
    (done : shards.foldlM (drain pass) run = .ok next) : ∀ s ∈ shards, s.failed = none := by
  induction shards generalizing run with
  | nil => intro s mem; cases mem
  | cons head rest ih =>
      rw [List.foldlM_cons] at done
      obtain ⟨between, first, done⟩ := ok_of_bind done
      intro s mem
      rcases List.mem_cons.1 mem with rfl | later
      · unfold drain at first
        cases fails : s.failed with
        | none => rfl
        | some e =>
            rw [fails] at first
            cases first
      · exact ih done s later

/-- A pass fails with the error of a stream only. -/
theorem foldlM_drain_error {pass : Run → RawBlock → Run} {shards : List Streamed} {run : Run}
    {error : StreamsError} (fails : shards.foldlM (drain pass) run = .error error) :
    ∃ e, error = .stream e := by
  induction shards generalizing run with
  | nil => cases fails
  | cons head rest ih =>
      rw [List.foldlM_cons] at fails
      cases first : drain pass run head with
      | ok next =>
          rw [first] at fails
          exact ih fails
      | error e =>
          rw [first] at fails
          cases fails
          unfold drain at first
          split at first
          · cases first
            exact ⟨_, rfl⟩
          · cases first

section Passes

variable (spec : Spec F) (upstream : TraceMatching F) (known : Children F Address)

theorem foldl_logPass (blocks : List RawBlock) (run : Run) :
    blocks.foldl (logPass spec known) run =
      { run with
        cd := blocks.foldl mergeLogs run.cd
        matchedLogsAdded := run.matchedLogsAdded + (blocks.map (keptLogCount spec known)).sum } := by
  induction blocks generalizing run with
  | nil => rfl
  | cons b rest ih =>
      rw [List.foldl_cons, ih, List.map_cons, List.sum_cons, ← Nat.add_assoc]
      rfl

theorem foldl_tracePass (blocks : List RawBlock) (run : Run) :
    blocks.foldl (tracePass spec upstream known) run =
      { run with
        cd := blocks.foldl mergeTraces run.cd
        matchedTracesAdded :=
          run.matchedTracesAdded + (blocks.map (keptTraceCount spec upstream known)).sum } := by
  induction blocks generalizing run with
  | nil => rfl
  | cons b rest ih =>
      rw [List.foldl_cons, ih, List.map_cons, List.sum_cons, ← Nat.add_assoc]
      rfl

theorem foldl_headerPass (blocks : List RawBlock) (run : Run) :
    blocks.foldl (headerPass spec) run =
      { run with cd := blocks.foldl (mergeHeader spec) run.cd } := by
  induction blocks generalizing run with
  | nil => rfl
  | cons b rest ih =>
      rw [List.foldl_cons, ih]
      rfl

theorem foldl_txPass (blocks : List RawBlock) (run : Run) :
    blocks.foldl (txPass spec known) run =
      { run with
        cd := blocks.foldl mergeTxs run.cd
        matchedTxsAdded := run.matchedTxsAdded + (blocks.map (keptTxCount spec known)).sum } := by
  induction blocks generalizing run with
  | nil => rfl
  | cons b rest ih =>
      rw [List.foldl_cons, ih, List.map_cons, List.sum_cons, ← Nat.add_assoc]
      rfl

variable {spec upstream known} {streams : Streams} {cd : ChunkData}

/-- The call, source by source. -/
theorem drainAll_eq : drainAll spec upstream known streams cd = (do
    let run ← streams.logShards.foldlM (drain (logPass spec known)) ⟨cd, [], 0, 0, 0⟩
    let run ← (streams.traceShards spec).foldlM (drain (tracePass spec upstream known)) run
    let run ← (streams.headerShards spec).foldlM (drain (headerPass spec)) run
    (streams.usedTxShards spec).foldlM (drain (txPass spec known)) run) := by
  unfold drainAll Streams.traceShards Streams.headerShards Streams.usedTxShards
  cases spec.needTraces <;> cases spec.needBlocks <;> cases spec.needTxFilter <;> simp

/-- What a call comes to when no stream fails. -/
structure Drained (spec : Spec F) (upstream : TraceMatching F) (known : Children F Address)
    (streams : Streams) (cd : ChunkData) (run : Run) : Prop where
  cd : run.cd = streams.merged spec cd
  logs : run.matchedLogsAdded = (streams.logBlocks.map (keptLogCount spec known)).sum
  traces : run.matchedTracesAdded =
    ((streams.traceBlocks spec).map (keptTraceCount spec upstream known)).sum
  txs : run.matchedTxsAdded = ((streams.txBlocks spec).map (keptTxCount spec known)).sum
  missing : ∀ e, e ∈ run.neededMissing ↔ e ∈ (streams.used spec).flatMap Streamed.missing

variable (upstream known cd) in
theorem drainAll_complete (complete : streams.Complete spec) :
    ∃ run, drainAll spec upstream known streams cd = .ok run ∧
      Drained spec upstream known streams cd run := by
  have part : ∀ shards : List Streamed, shards ⊆ streams.used spec →
      ∀ s ∈ shards, s.failed = none := fun shards sub s mem => complete s (sub mem)
  let afterLogs := streams.logBlocks.foldl mergeLogs cd
  let afterTraces := (streams.traceBlocks spec).foldl mergeTraces afterLogs
  let afterHeaders := (streams.headerBlocks spec).foldl (mergeHeader spec) afterTraces
  let logCount := (streams.logBlocks.map (keptLogCount spec known)).sum
  let traceCount := ((streams.traceBlocks spec).map (keptTraceCount spec upstream known)).sum
  let txCount := ((streams.txBlocks spec).map (keptTxCount spec known)).sum
  obtain ⟨m₁, logs, r₁⟩ := foldlM_drain (logPass spec known) (fun _ _ _ => rfl)
    (part streams.logShards fun s mem => by simp [Streams.used, mem]) ⟨cd, [], 0, 0, 0⟩
  rw [foldl_logPass] at logs
  obtain ⟨m₂, traces, r₂⟩ := foldlM_drain (tracePass spec upstream known)
    (fun _ _ _ => rfl) (part (streams.traceShards spec) fun s mem => by simp [Streams.used, mem])
    ⟨afterLogs, m₁, 0 + logCount, 0, 0⟩
  rw [foldl_tracePass] at traces
  obtain ⟨m₃, headers, r₃⟩ := foldlM_drain (headerPass spec) (fun _ _ _ => rfl)
    (part (streams.headerShards spec) fun s mem => by simp [Streams.used, mem])
    ⟨afterTraces, m₂, 0 + logCount, 0 + traceCount, 0⟩
  rw [foldl_headerPass] at headers
  obtain ⟨m₄, txs, r₄⟩ := foldlM_drain (txPass spec known) (fun _ _ _ => rfl)
    (part (streams.usedTxShards spec) fun s mem => by simp [Streams.used, mem])
    ⟨afterHeaders, m₃, 0 + logCount, 0 + traceCount, 0⟩
  rw [foldl_txPass] at txs
  refine ⟨⟨streams.merged spec cd, m₄, 0 + logCount, 0 + traceCount, 0 + txCount⟩, ?_, ?_⟩
  · rw [drainAll_eq, logs]
    show (streams.traceShards spec).foldlM (drain (tracePass spec upstream known))
      ⟨afterLogs, m₁, 0 + logCount, 0, 0⟩ >>= _ = _
    rw [traces]
    show (streams.headerShards spec).foldlM (drain (headerPass spec))
      ⟨afterTraces, m₂, 0 + logCount, 0 + traceCount, 0⟩ >>= _ = _
    rw [headers]
    exact txs
  · refine ⟨rfl, Nat.zero_add _, Nat.zero_add _, Nat.zero_add _, fun e => ?_⟩
    show e ∈ m₄ ↔ _
    rw [r₄, r₃, r₂, r₁]
    simp [Streams.used, or_assoc]

/-- A call that returns has drained every stream. -/
theorem complete_of_drainAll {run : Run}
    (drained : drainAll spec upstream known streams cd = .ok run) : streams.Complete spec := by
  rw [drainAll_eq] at drained
  obtain ⟨run₁, logs, drained⟩ := ok_of_bind drained
  obtain ⟨run₂, traces, drained⟩ := ok_of_bind drained
  obtain ⟨run₃, headers, txs⟩ := ok_of_bind drained
  intro s used
  simp only [Streams.used, List.mem_append] at used
  rcases used with ((mem | mem) | mem) | mem
  · exact complete_of_foldlM logs s mem
  · exact complete_of_foldlM traces s mem
  · exact complete_of_foldlM headers s mem
  · exact complete_of_foldlM txs s mem

theorem drainAll_error {error : StreamsError}
    (fails : drainAll spec upstream known streams cd = .error error) : ∃ e, error = .stream e := by
  rw [drainAll_eq] at fails
  rcases error_of_bind fails with fails | ⟨run₁, _, fails⟩
  · exact foldlM_drain_error fails
  · rcases error_of_bind fails with fails | ⟨run₂, _, fails⟩
    · exact foldlM_drain_error fails
    · rcases error_of_bind fails with fails | ⟨run₃, _, fails⟩
      · exact foldlM_drain_error fails
      · exact foldlM_drain_error fails

end Passes

end PortalPonder.Assembly
