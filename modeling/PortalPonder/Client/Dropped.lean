import PortalPonder.Client.Stream

/-!
# What a stream drops

A column that the dataset does not have is dropped from the requests that follow, and is recorded
unless its absence is harmless. `ColumnStream` is what a consumer gets: the batches, each with the
columns that its request left out. `stream_columns` says that every run of `stream` is one.
-/

namespace PortalPonder.Client

open Rounds

/-- A batch, and the columns that its request left out. -/
structure ColumnBatch (β : Type) where
  dropped : List FieldKey
  blocks : List β

/-- What a stream came to: no batch lacks a column that was not dropped, and what was dropped is
recorded as missing if and only if it is needed. -/
structure ColumnStream (β : Type) where
  batches : List (ColumnBatch β)
  dropped : List FieldKey
  missing : List (FieldKey × String)
  failed : Option StreamError
  within : ∀ b ∈ batches, b.dropped ⊆ dropped
  recorded : ∀ key ∈ dropped, key ∉ DROPPABLE_FIELDS → ∃ tag, (key, tag) ∈ missing
  needed : ∀ e ∈ missing, e.1 ∈ dropped ∧ e.1 ∉ DROPPABLE_FIELDS

/-! ## A round -/

section Rounds

variable {bodyLength : Request → Nat} {query : Fields} {fromBlock toBlock : Nat}
  {answer : Request → Except FetchError Response} {s t : StreamState} {ended : StreamEnd}

/-- The answer to the request of the round is the batch. -/
def StreamState.Fetched (bodyLength : Request → Nat) (query : Fields) (toBlock : Nat)
    (answer : Request → Except FetchError Response) (s : StreamState) (blocks : List RawBlock) :
    Prop :=
  ∃ last, fetchBatch bodyLength (s.request query toBlock) (answer (s.request query toBlock)) =
    .ok ⟨blocks, last⟩

/-- What a round does to the columns. -/
inductive Kept (bodyLength : Request → Nat) (query : Fields) (toBlock : Nat)
    (answer : Request → Except FetchError Response) (s : StreamState) : StreamState → Prop where
  | batch {u : StreamState} (blocks : List RawBlock)
      (fetched : s.Fetched bodyLength query toBlock answer blocks)
      (yielded : u.yielded = s.yielded ++ [blocks]) (dropped : u.dropped = s.dropped)
      (missing : u.neededMissing = s.neededMissing) : Kept bodyLength query toBlock answer s u
  | column {u : StreamState} (key : FieldKey) (tag : String) (yielded : u.yielded = s.yielded)
      (dropped : u.dropped = key :: s.dropped)
      (missing : u.neededMissing =
        if key ∈ DROPPABLE_FIELDS then s.neededMissing else (key, tag) :: s.neededMissing) :
      Kept bodyLength query toBlock answer s u
  | other {u : StreamState} (yielded : u.yielded = s.yielded) (dropped : u.dropped = s.dropped)
      (missing : u.neededMissing = s.neededMissing) : Kept bodyLength query toBlock answer s u

theorem onTransient_ok {e : PortalError} (next : onTransient s e = .ok t) :
    t.yielded = s.yielded ∧ t.dropped = s.dropped ∧ t.neededMissing = s.neededMissing := by
  unfold onTransient at next
  split at next
  · cases e <;> cases next
  · cases next
    exact ⟨rfl, rfl, rfl⟩

theorem onError_ok {e : PortalError} (next : onError toBlock s e = .ok t) :
    Kept bodyLength query toBlock answer s t := by
  unfold onError at next
  split at next
  · cases next
  · cases next
  · next startsAt =>
      unfold onDatasetStart at next
      split at next
      · cases next
      · split at next
        · cases next
          exact .other rfl rfl rfl
        · cases next
  · next key _ tag =>
      unfold onSchemaField at next
      split at next
      · cases next
      · cases next
        exact .column key tag rfl rfl rfl
  · split at next
    · obtain ⟨yielded, dropped, missing⟩ := onTransient_ok next
      exact .other yielded dropped missing
    · cases next

theorem streamRound_ok (next : streamRound bodyLength query toBlock answer s = .ok t) :
    Kept bodyLength query toBlock answer s t := by
  unfold streamRound at next
  dsimp only at next
  split at next
  · next batch fetched =>
      unfold onBatch at next
      dsimp only at next
      split at next
      · cases next
        exact .batch batch.blocks ⟨_, fetched⟩ rfl rfl rfl
      · cases next
  · exact onError_ok next

/-- An error ends the stream with what it had yielded. -/
theorem onError_error {e : PortalError} (last : onError toBlock s e = .error ended) :
    ended.yielded = s.yielded := by
  unfold onError at last
  split at last
  · cases last; rfl
  · cases last; rfl
  · unfold onDatasetStart at last
    split at last
    · cases last; rfl
    · split at last <;> cases last
      rfl
  · unfold onSchemaField at last
    split at last <;> cases last
    rfl
  · split at last
    · unfold onTransient at last
      split at last
      · split at last <;> (cases last; rfl)
      · cases last
    · cases last; rfl

theorem streamRound_error (last : streamRound bodyLength query toBlock answer s = .error ended) :
    ended.yielded = s.yielded ∨
      ∃ blocks, s.Fetched bodyLength query toBlock answer blocks ∧
        ended.yielded = s.yielded ++ [blocks] := by
  unfold streamRound at last
  dsimp only at last
  split at last
  · next batch fetched =>
      unfold onBatch at last
      dsimp only at last
      split at last
      · cases last
      · cases last
        exact .inr ⟨batch.blocks, ⟨_, fetched⟩, rfl⟩
  · exact .inl (onError_error last)

end Rounds

/-! ## A run -/

section Run

variable {bodyLength : Request → Nat} {query : Fields} {fromBlock toBlock : Nat}
  {answers : Nat → Request → Except FetchError Response}

/-- The blocks are one of the answers, to a request without the columns of the batch. -/
def ColumnBatch.Answered (bodyLength : Request → Nat) (query : Fields) (toBlock : Nat)
    (answers : Nat → Request → Except FetchError Response) (b : ColumnBatch RawBlock) : Prop :=
  ∃ n req last, req.fields = stripFields query b.dropped ∧ req.toBlock = toBlock ∧
    fetchBatch bodyLength req (answers n req) = .ok ⟨b.blocks, last⟩

/-- The columns of a state, and of every batch so far. -/
structure Columns (bodyLength : Request → Nat) (query : Fields) (toBlock : Nat)
    (answers : Nat → Request → Except FetchError Response) (s : StreamState)
    (batches : List (ColumnBatch RawBlock)) : Prop where
  yielded : batches.map ColumnBatch.blocks = s.yielded
  answered : ∀ b ∈ batches, b.Answered bodyLength query toBlock answers
  within : ∀ b ∈ batches, b.dropped ⊆ s.dropped
  recorded : ∀ key ∈ s.dropped, key ∉ DROPPABLE_FIELDS → ∃ tag, (key, tag) ∈ s.neededMissing
  needed : ∀ e ∈ s.neededMissing, e.1 ∈ s.dropped ∧ e.1 ∉ DROPPABLE_FIELDS

theorem StreamState.Fetched.answered {n : Nat} {s : StreamState} {blocks : List RawBlock}
    (fetched : s.Fetched bodyLength query toBlock (answers n) blocks) :
    ColumnBatch.Answered bodyLength query toBlock answers ⟨s.dropped, blocks⟩ := by
  obtain ⟨last, fetched⟩ := fetched
  exact ⟨n, s.request query toBlock, last, rfl, rfl, fetched⟩

theorem mem_snoc_batch {β : Type} {batches : List (ColumnBatch β)} {b new : ColumnBatch β}
    (mem : b ∈ batches ++ [new]) : b ∈ batches ∨ b = new := by
  rcases List.mem_append.1 mem with old | last
  · exact .inl old
  · exact .inr (List.mem_singleton.1 last)

/-- One round keeps the account of the columns. -/
theorem Columns.round {n : Nat} {s t : StreamState} {batches : List (ColumnBatch RawBlock)}
    (columns : Columns bodyLength query toBlock answers s batches)
    (kept : Kept bodyLength query toBlock (answers n) s t) :
    ∃ batches', Columns bodyLength query toBlock answers t batches' := by
  cases kept with
  | batch blocks fetched yielded dropped missing =>
      refine ⟨batches ++ [⟨s.dropped, blocks⟩], ?_, ?_, ?_, ?_, ?_⟩
      · rw [List.map_append, columns.yielded, yielded]
        rfl
      · intro b mem
        rcases mem_snoc_batch mem with old | rfl
        · exact columns.answered b old
        · exact fetched.answered
      · intro b mem
        rw [dropped]
        rcases mem_snoc_batch mem with old | rfl
        · exact columns.within b old
        · exact fun _ mem => mem
      · rw [dropped, missing]
        exact columns.recorded
      · rw [dropped, missing]
        exact columns.needed
  | column key tag yielded dropped missing =>
      refine ⟨batches, columns.yielded.trans yielded.symm, columns.answered, ?_, ?_, ?_⟩
      · intro b mem
        rw [dropped]
        exact fun k here => List.mem_cons_of_mem key (columns.within b mem here)
      · intro k mem needed
        rw [dropped] at mem
        rw [missing]
        rcases List.mem_cons.1 mem with rfl | old
        · rw [if_neg needed]
          exact ⟨tag, List.mem_cons_self⟩
        · obtain ⟨tag', old⟩ := columns.recorded k old needed
          split
          · exact ⟨tag', old⟩
          · exact ⟨tag', List.mem_cons_of_mem _ old⟩
      · intro e mem
        rw [dropped]
        have old : e ∈ s.neededMissing → e.1 ∈ key :: s.dropped ∧ e.1 ∉ DROPPABLE_FIELDS :=
          fun mem => ⟨List.mem_cons_of_mem key (columns.needed e mem).1, (columns.needed e mem).2⟩
        rw [missing] at mem
        split at mem
        · exact old mem
        · next needed =>
            rcases List.mem_cons.1 mem with rfl | mem
            · exact ⟨List.mem_cons_self, needed⟩
            · exact old mem
  | other yielded dropped missing =>
      refine ⟨batches, columns.yielded.trans yielded.symm, columns.answered, ?_, ?_, ?_⟩
      · rw [dropped]
        exact columns.within
      · rw [dropped, missing]
        exact columns.recorded
      · rw [dropped, missing]
        exact columns.needed

theorem streamStart_columns (fromBlock : Nat) :
    Columns bodyLength query toBlock answers (streamStart fromBlock) [] where
  yielded := rfl
  answered := by
    intro b mem
    cases mem
  within := by
    intro b mem
    cases mem
  recorded := by
    intro key mem
    cases mem
  needed := by
    intro e mem
    cases mem

/-- The account that a consumer gets of a state. -/
def Columns.toStream {s : StreamState} {batches : List (ColumnBatch RawBlock)}
    (columns : Columns bodyLength query toBlock answers s batches) (failed : Option StreamError) :
    ColumnStream RawBlock :=
  ⟨batches, s.dropped, s.neededMissing, failed, columns.within, columns.recorded, columns.needed⟩

/-- The error of a stream that does not finish. -/
def StreamEnd.failed (e : StreamEnd) : Option StreamError :=
  match e.outcome with
  | .ok _ => none
  | .error error => some error

/-- The state of the client when the stream ends: of its last round, or of none. -/
def EndsIn (bodyLength : Request → Nat) (query : Fields) (fromBlock toBlock : Nat)
    (answers : Nat → Request → Except FetchError Response) (s : StreamState) (ended : StreamEnd) :
    Prop :=
  (toBlock < fromBlock ∧ s = streamStart fromBlock) ∨
    ∃ m, stream bodyLength query fromBlock toBlock answers m = .ok s ∧
      streamRound bodyLength query toBlock (answers m) s = .error ended

/-- Every stream that ends is a stream with columns, and they are the client's own: whatever the
answers, no batch lacks a needed column that the client has not recorded. -/
theorem stream_columns {n : Nat} {ended : StreamEnd}
    (ends : stream bodyLength query fromBlock toBlock answers n = .error ended) :
    ∃ s, EndsIn bodyLength query fromBlock toBlock answers s ended ∧
      ∃ c : ColumnStream RawBlock, c.dropped = s.dropped ∧ c.missing = s.neededMissing ∧
        c.batches.map ColumnBatch.blocks = ended.yielded ∧ c.failed = ended.failed ∧
        ∀ b ∈ c.batches, b.Answered bodyLength query toBlock answers := by
  unfold stream at ends
  split at ends
  · next some_ =>
      obtain ⟨m, s, _, reached, last⟩ := rounds_error_inv ends
      have reachable : ∀ n t, rounds (streamRound bodyLength query toBlock) answers n
          (streamStart fromBlock) = .ok t →
          ∃ batches, Columns bodyLength query toBlock answers t batches :=
        rounds_invariant
          ⟨[], streamStart_columns fromBlock⟩
          fun _ _ _ _ ⟨_, columns⟩ next => columns.round (streamRound_ok next)
      obtain ⟨batches, columns⟩ := reachable m s reached
      have here : stream bodyLength query fromBlock toBlock answers m = .ok s := by
        unfold stream
        rw [if_pos some_, reached]
      refine ⟨s, .inr ⟨m, here, last⟩, ?_⟩
      rcases streamRound_error last with same | ⟨blocks, fetched, yielded⟩
      · exact ⟨columns.toStream ended.failed, rfl, rfl, columns.yielded.trans same.symm, rfl,
          columns.answered⟩
      · -- the last batch ends the stream: the state behind it is never reached
        have kept : Kept bodyLength query toBlock (answers m) s
            { s with yielded := s.yielded ++ [blocks] } :=
          .batch blocks fetched rfl rfl rfl
        obtain ⟨batches', columns'⟩ := columns.round kept
        exact ⟨columns'.toStream ended.failed, rfl, rfl, columns'.yielded.trans yielded.symm, rfl,
          columns'.answered⟩
  · next empty =>
      cases ends
      have start : Columns bodyLength query toBlock answers (streamStart fromBlock) [] :=
        streamStart_columns fromBlock
      exact ⟨_, .inl ⟨Nat.lt_of_not_le empty, rfl⟩, start.toStream none, rfl, rfl, start.yielded,
        rfl, start.answered⟩

end Run

end PortalPonder.Client
