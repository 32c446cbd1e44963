import PortalPonder.Filters

/-!
# Assembling the logs of an interval

What a log query streams, the logs that a chunk data holds of a block, and the logs of an
interval that are kept of a list of chunk data: each is matched once more against the filters,
with the children known at that time.
-/

namespace PortalPonder.Historical

/-- The logs of each block, in order. -/
abbrev Chain (A T : Type) := Nat → List (ChainLog A T)

/-- A query is a list of log requests, or belongs to one of the other sources. -/
abbrev Query (A T R : Type) := List (LogRequest A T) ⊕ R

variable {F A T R : Type} [DecidableEq A] [DecidableEq T]

/-- What a log query returns of a block: the logs that match one of its requests. -/
def servedLogs (chain : Chain A T) (requests : List (LogRequest A T)) (bn : Nat) :
    List (ChainLog A T) :=
  (chain bn).filter fun log => requests.any fun r => requestMatched r log

/-- `cd.logs.get(bn)`: the logs of a block, query by query. -/
def rawLogs (chain : Chain A T) (cd : List (Query A T R × Nat)) (bn : Nat) : List (ChainLog A T) :=
  cd.flatMap fun r =>
    match r.1 with
    | .inl requests => if r.2 = bn then servedLogs chain requests bn else []
    | .inr _ => []

/-- The keys of `cd.headers`: the blocks of which a log query returned logs, oldest first. -/
def headerKeys (chain : Chain A T) (cd : List (Query A T R × Nat)) : List Nat :=
  (cd.filterMap fun r =>
    match r.1 with
    | .inl requests => if (servedLogs chain requests r.2).isEmpty then none else some r.2
    | .inr _ => none).eraseDups

/-- The keys in a range: a walk over the range, or a scan of the keys when that is shorter. -/
def entriesInRange (keys : List Nat) (lo hi : Nat) : List Nat :=
  if hi + 1 ≤ lo + keys.length then
    ((List.range (hi + 1 - lo)).map fun i => lo + i).filter fun bn => bn ∈ keys
  else keys.filter fun bn => lo ≤ bn ∧ bn ≤ hi

/-- The logs of `assembleRange`, each with its block. -/
def assembledLogs (chain : Chain A T) (filters : List (LogFilter F A T)) (known : Children F A)
    (chunks : List (List (Query A T R × Nat))) (interval : Nat × Nat) :
    List (Nat × ChainLog A T) :=
  chunks.flatMap fun cd =>
    (entriesInRange (headerKeys chain cd) interval.1 interval.2).flatMap fun bn =>
      ((rawLogs chain cd bn).filter fun log => logMatched filters known log bn).map fun log =>
        (bn, log)

theorem mem_servedLogs {chain : Chain A T} {requests : List (LogRequest A T)} {bn : Nat}
    {log : ChainLog A T} :
    log ∈ servedLogs chain requests bn ↔
      log ∈ chain bn ∧ ∃ r ∈ requests, requestMatched r log = true := by
  simp [servedLogs]

theorem mem_rawLogs {chain : Chain A T} {cd : List (Query A T R × Nat)} {bn : Nat}
    {log : ChainLog A T} :
    log ∈ rawLogs chain cd bn ↔
      ∃ requests, (.inl requests, bn) ∈ cd ∧ log ∈ servedLogs chain requests bn := by
  simp only [rawLogs, List.mem_flatMap]
  constructor
  · rintro ⟨⟨query, b⟩, mem, here⟩
    cases query with
    | inl requests =>
        change log ∈ if b = bn then servedLogs chain requests bn else [] at here
        by_cases same : b = bn
        · subst same
          rw [if_pos rfl] at here
          exact ⟨requests, mem, here⟩
        · rw [if_neg same] at here
          cases here
    | inr other => cases here
  · rintro ⟨requests, mem, here⟩
    refine ⟨(.inl requests, bn), mem, ?_⟩
    show log ∈ if bn = bn then servedLogs chain requests bn else []
    rw [if_pos rfl]
    exact here

/-- A block with logs is a key. -/
theorem mem_headerKeys {chain : Chain A T} {cd : List (Query A T R × Nat)} {bn : Nat}
    {log : ChainLog A T} (here : log ∈ rawLogs chain cd bn) : bn ∈ headerKeys chain cd := by
  obtain ⟨requests, mem, served⟩ := mem_rawLogs.1 here
  refine List.mem_eraseDups.2 (List.mem_filterMap.2 ⟨(.inl requests, bn), mem, ?_⟩)
  have some_ : (servedLogs chain requests bn).isEmpty = false := by
    rw [List.isEmpty_eq_false_iff]
    exact List.ne_nil_of_mem served
  simp [some_]

theorem mem_entriesInRange {keys : List Nat} {lo hi bn : Nat} :
    bn ∈ entriesInRange keys lo hi ↔ bn ∈ keys ∧ lo ≤ bn ∧ bn ≤ hi := by
  unfold entriesInRange
  split
  · simp only [List.mem_filter, List.mem_map, List.mem_range, decide_eq_true_eq]
    constructor
    · rintro ⟨⟨i, small, rfl⟩, mem⟩
      exact ⟨mem, by omega, by omega⟩
    · rintro ⟨mem, low, high⟩
      exact ⟨⟨bn - lo, by omega, by omega⟩, mem⟩
  · simp

/-- The assembled logs: those of the interval that match a filter, and were returned by a log
query of one of the chunks. -/
theorem mem_assembledLogs {chain : Chain A T} {filters : List (LogFilter F A T)}
    {known : Children F A} {chunks : List (List (Query A T R × Nat))} {interval : Nat × Nat}
    {bn : Nat} {log : ChainLog A T} :
    (bn, log) ∈ assembledLogs chain filters known chunks interval ↔
      interval.1 ≤ bn ∧ bn ≤ interval.2 ∧ logMatched filters known log bn = true ∧
        ∃ cd ∈ chunks, log ∈ rawLogs chain cd bn := by
  simp only [assembledLogs, List.mem_flatMap, List.mem_map, List.mem_filter, mem_entriesInRange,
    Prod.mk.injEq]
  constructor
  · rintro ⟨cd, inChunks, b, ⟨_, low, high⟩, log', ⟨raw, matched⟩, rfl, rfl⟩
    exact ⟨low, high, matched, cd, inChunks, raw⟩
  · rintro ⟨low, high, matched, cd, inChunks, raw⟩
    exact ⟨cd, inChunks, bn, ⟨mem_headerKeys raw, low, high⟩, log, ⟨raw, matched⟩, rfl, rfl⟩

end PortalPonder.Historical
