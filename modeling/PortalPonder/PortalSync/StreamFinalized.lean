import PortalPonder.Client.Truncation

/-!
# The stand-alone client

`streamFinalized` of the `portal-sync` package walks a range by requests that begin behind the last
block it was given. A response without a block ends the walk just as the end of the range does: a
204 returns, and a 200 with no line counts as served up to the end of the range.

Waiting and metrics are left out. The `n`th request and its first block decide the answer.
-/

namespace PortalPonder.PortalSync

open JSON (Text Value)
open Client (FetchError Response Body ObjectLine member headerNumber ndjsonLines completeObjects
  bodyBytes)

inductive StreamError where
  /-- a query without `toBlock` -/
  | toBlockRequired
  | overloaded (status block attempts : Nat)
  | http (status block : Nat) (text : Text)
  | noProgress (block got : Nat)
  /-- what `fetch` or a read was rejected with -/
  | rejected (cause : FetchError)
  /-- `JSON.parse` -/
  | malformedLine
  /-- a member of `null` -/
  | nullBlock
  deriving DecidableEq, Repr

structure StreamBatch where
  blocks : List Value
  fromBlock : Nat
  toBlock : Nat
  logs : Nat
  transactions : Nat
  traces : Nat

structure Options where
  maxRetries : Nat
  deriving DecidableEq, Repr

structure Query where
  fromBlock : Nat
  toBlock : Option Nat
  deriving DecidableEq, Repr

/-! ## Draining -/

structure Drained where
  blocks : List Value
  logs : Nat
  transactions : Nat
  traces : Nat
  lastBlock : Option Nat

def Drained.empty : Drained := ⟨[], 0, 0, 0, none⟩

/-- The length of a list of the block, when it has one. -/
def itemCount (key : String) (b : Value) : Nat :=
  match member key b with
  | some (.arr items) => items.length
  | _ => 0

/-- The greatest block number so far. -/
def laterBlock (lastBlock : Option Nat) (b : Value) : Option Nat :=
  match headerNumber b with
  | none => lastBlock
  | some n =>
      match lastBlock with
      | none => some n
      | some last => if n > last then some n else some last

def handleLine (d : Drained) (line : Text) : Except StreamError Drained :=
  match JSON.parse line with
  | none => .error .malformedLine
  | some .null => .error .nullBlock
  | some b => .ok
      { blocks := d.blocks ++ [b]
        logs := d.logs + itemCount "logs" b
        transactions := d.transactions + itemCount "transactions" b
        traces := d.traces + itemCount "traces" b
        lastBlock := laterBlock d.lastBlock b }

def drainNdjson (body : Body) : Except StreamError Drained := do
  let drained ← (ndjsonLines body).foldlM handleLine Drained.empty
  match body.failure with
  | some cause => .error (.rejected cause)
  | none => .ok drained

/-! ## Requests -/

/-- What one request comes to. -/
inductive Attempt where
  | aboveHead
  | overloaded (status : Nat)
  | failed (e : StreamError)
  | batch (b : StreamBatch)

def attempted (fromBlock target : Nat) : Except FetchError Response → Attempt
  | .error cause => .failed (.rejected cause)
  | .ok res =>
      if res.status = 204 then .aboveHead
      else if res.status = 503 ∨ res.status = 529 ∨ res.status = 429 then .overloaded res.status
      else if ¬(200 ≤ res.status ∧ res.status ≤ 299) then
        let text := if res.body.failure = none then res.body.text else []
        .failed (.http res.status fromBlock (text.take 200))
      else
        match drainNdjson res.body with
        | .error e => .failed e
        | .ok drained => .batch
            { blocks := drained.blocks
              fromBlock := fromBlock
              toBlock := min (drained.lastBlock.getD target) target
              logs := drained.logs
              transactions := drained.transactions
              traces := drained.traces }

def StreamError.aborted : StreamError → Bool
  | .rejected cause => cause.name = "AbortError"
  | _ => false

inductive Posted where
  | aboveHead
  | batch (b : StreamBatch)
  | threw (e : StreamError)

/-- The answer to the `n`th request, from its first block on. -/
abbrev Answers := Nat → Nat → Except FetchError Response

variable (o : Options) (answers : Answers)

/-- One request with its retries, and the number of the next one. -/
def postOnce (fromBlock target n attempt : Nat) : Posted × Nat :=
  match attempted fromBlock target (answers n fromBlock) with
  | .aboveHead => (.aboveHead, n + 1)
  | .batch b => (.batch b, n + 1)
  | .overloaded status =>
      if attempt ≥ o.maxRetries then (.threw (.overloaded status fromBlock (attempt + 1)), n + 1)
      else postOnce fromBlock target (n + 1) (attempt + 1)
  | .failed e =>
      if e.aborted = true ∧ attempt < o.maxRetries then
        postOnce fromBlock target (n + 1) (attempt + 1)
      else (.threw e, n + 1)
termination_by o.maxRetries - attempt

/-- What was yielded, and whether it ended by a return. -/
structure Run where
  batches : List StreamBatch
  ended : Except StreamError Unit

def Run.blocks (r : Run) : List Value := r.batches.flatMap StreamBatch.blocks

/-- The loop, from a cursor and the number of the next request on. -/
def streamFrom (target cursor n : Nat) : Run :=
  if cursor ≤ target then
    match postOnce o answers cursor target n 0 with
    | (.aboveHead, _) => ⟨[], .ok ()⟩
    | (.threw e, _) => ⟨[], .error e⟩
    | (.batch b, n') =>
        if b.toBlock < cursor then ⟨[b], .error (.noProgress cursor b.toBlock)⟩
        else
          let rest := streamFrom target (b.toBlock + 1) n'
          ⟨b :: rest.batches, rest.ended⟩
  else ⟨[], .ok ()⟩
termination_by target + 1 - cursor

def streamFinalized (query : Query) : Run :=
  match query.toBlock with
  | none => ⟨[], .error .toBlockRequired⟩
  | some target => streamFrom o answers target query.fromBlock 0

/-! ## The server -/

/-- A line of a server block. -/
structure BlockLine extends ObjectLine where
  number : Nat
  numbered : headerNumber value = some number

/-- The server blocks that a query asks for, by their numbers. -/
structure Chain where
  blocks : List BlockLine
  ascending : blocks.Pairwise fun a b => a.number < b.number

/-- The blocks of a range. -/
def Chain.range (chain : Chain) (lo hi : Nat) : List BlockLine :=
  chain.blocks.filter fun b => lo ≤ b.number ∧ b.number ≤ hi

def bytesOf (blocks : List BlockLine) : List UInt8 := bodyBytes (blocks.map BlockLine.toObjectLine)

/-- The answers to a request for some blocks. -/
inductive Serves (blocks : List BlockLine) : Except FetchError Response → Prop where
  /-- the first of the blocks, or none of them, cut at any byte and read in any pieces -/
  | served {first : List BlockLine} (isFirst : first <+: blocks) {status : Nat}
      (ok : 200 ≤ status ∧ status ≤ 299) (content : status ≠ 204) (retryAfterMs : Option Nat)
      (cut : Nat) {reads : List (List UInt8)} (bytes : reads.flatten = (bytesOf first).take cut) :
      Serves blocks (.ok ⟨status, retryAfterMs, Body.ofBytes reads⟩)
  /-- a body whose reading fails -/
  | broken {res : Response} (fails : res.body.failure.isSome = true) : Serves blocks (.ok res)
  /-- a 204, a throttle, or an error -/
  | refused {res : Response} (status : res.status = 204 ∨ ¬(200 ≤ res.status ∧ res.status ≤ 299)) :
      Serves blocks (.ok res)
  | unreachable (cause : FetchError) : Serves blocks (.error cause)

/-- A server, by the answers it may give to the request for a range. -/
structure Server (chain : Chain) (target : Nat) where
  may : Nat → Except FetchError Response → Prop
  serves : ∀ {cursor answer}, may cursor answer → Serves (chain.range cursor target) answer
  responds : ∀ cursor, ∃ answer, may cursor answer

/-- A 204, or an OK response that ends without a line. -/
def blank : Except FetchError Response → Bool
  | .error _ => false
  | .ok res => res.status = 204 ||
      (200 ≤ res.status && res.status ≤ 299) &&
        (res.body.failure = none && ndjsonLines res.body = [])

/-! ## What a request comes to -/

/-- The lines of a drained body are its blocks. -/
theorem handleLines_ok {lines : List Text} {d d' : Drained}
    (handled : lines.foldlM handleLine d = .ok d') :
    ∃ blocks : List Value, blocks.length = lines.length ∧ d'.blocks = d.blocks ++ blocks ∧
      d'.lastBlock = blocks.foldl laterBlock d.lastBlock ∧
      ∀ cursor last, ∃ last', Client.readBlocks cursor lines last = .ok ⟨blocks, last'⟩ := by
  induction lines generalizing d with
  | nil =>
      cases handled
      exact ⟨[], rfl, (List.append_nil _).symm, rfl, fun cursor last => ⟨last, rfl⟩⟩
  | cons line lines ih =>
      rw [List.foldlM_cons] at handled
      cases first : handleLine d line with
      | error e =>
          rw [first] at handled
          cases handled
      | ok e =>
          rw [first] at handled
          obtain ⟨blocks, len, all, last, reads⟩ := ih handled
          unfold handleLine at first
          cases parsed : JSON.parse line with
          | none =>
              rw [parsed] at first
              cases first
          | some b =>
              rw [parsed] at first
              have notNull : b ≠ .null := by
                rintro rfl
                cases first
              have pushed : e.blocks = d.blocks ++ [b] ∧
                  e.lastBlock = laterBlock d.lastBlock b := by
                cases b with
                | null => exact absurd rfl notNull
                | bool | num | str | arr | obj =>
                    cases first
                    exact ⟨rfl, rfl⟩
              refine ⟨b :: blocks, by rw [List.length_cons, List.length_cons, len], ?_, ?_, ?_⟩
              · rw [all, pushed.1, List.append_assoc]
                rfl
              · rw [last, pushed.2]
                rfl
              · intro cursor before
                obtain ⟨next, step⟩ := Client.readBlocks_value cursor before lines parsed notNull
                obtain ⟨last', read⟩ := reads cursor next
                exact ⟨last', by rw [step, read]; rfl⟩

theorem completeObjects_first (cut : Nat) (objects : List ObjectLine) :
    completeObjects cut objects <+: objects := by
  induction objects generalizing cut with
  | nil => exact List.prefix_refl _
  | cons o objects ih =>
      unfold completeObjects
      split
      · exact List.cons_prefix_cons.2 ⟨rfl, ih _⟩
      · exact List.nil_prefix

/-- Of blocks in ascending order the last one counts. -/
theorem foldl_laterBlock {got : List BlockLine}
    (ascending : got.Pairwise fun a b => a.number < b.number) {last : Option Nat}
    (above : ∀ b ∈ got, ∀ n, last = some n → n < b.number) :
    (got.map fun b => b.value).foldl laterBlock last =
      (got.getLast?.map BlockLine.number).or last := by
  induction got generalizing last with
  | nil => rfl
  | cons b got ih =>
      obtain ⟨first, ascending⟩ := List.pairwise_cons.1 ascending
      have later : laterBlock last b.value = some b.number := by
        unfold laterBlock
        rw [b.numbered]
        cases last with
        | none => rfl
        | some n =>
            have lt := above b List.mem_cons_self n rfl
            exact if_pos lt
      rw [List.map_cons, List.foldl_cons, later, ih ascending]
      · cases got with
        | nil => rfl
        | cons c got => simp [List.getLast?_cons]
      · intro c mem n eq
        cases eq
        exact first c mem

/-- What a drained body of served blocks holds. -/
theorem drained_blocks {first : List BlockLine} {cut : Nat} {reads : List (List UInt8)}
    (bytes : reads.flatten = (bytesOf first).take cut) {d : Drained}
    (drained : drainNdjson (Body.ofBytes reads) = .ok d) :
    ∃ got, got <+: first ∧ d.blocks = got.map (fun b => b.value) ∧
      d.lastBlock = (got.map fun b => b.value).foldl laterBlock none ∧
      (got = [] → ndjsonLines (Body.ofBytes reads) = []) := by
  have handled : (ndjsonLines (Body.ofBytes reads)).foldlM handleLine Drained.empty = .ok d := by
    unfold drainNdjson at drained
    cases lines : (ndjsonLines (Body.ofBytes reads)).foldlM handleLine Drained.empty with
    | error e =>
        rw [lines] at drained
        cases drained
    | ok d' =>
        rw [lines] at drained
        exact congrArg _ (Except.ok.inj drained)
  obtain ⟨blocks, len, all, last, read⟩ := handleLines_ok handled
  obtain ⟨last', read⟩ := read 0 0
  have whole := read
  rw [Client.ndjsonLines_pieces, bytes, bytesOf, Client.decode_cut] at whole
  rcases Client.readBlocks_cutText 0 (first.map BlockLine.toObjectLine) cut 0 with
    failed | ⟨l, read'⟩
  · rw [failed] at whole
    cases whole
  · rw [read'] at whole
    have values := congrArg Client.Batch.blocks (Except.ok.inj whole)
    obtain ⟨got, isFirst, same⟩ :=
      List.prefix_map_iff.1 (completeObjects_first cut (first.map BlockLine.toObjectLine))
    rw [same, List.map_map] at values
    obtain rfl : got.map (fun b => b.value) = blocks := values
    refine ⟨got, isFirst, all, last, ?_⟩
    rintro rfl
    exact List.length_eq_zero_iff.1 len.symm

/-- A batch holds the first of the blocks asked for; and one without a block is said to reach the
end of the range. -/
theorem attempted_batch {blocks : List BlockLine} {lo target : Nat}
    (ascending : blocks.Pairwise fun a b => a.number < b.number)
    (within : ∀ b ∈ blocks, b.number ≤ target) {answer : Except FetchError Response}
    (serves : Serves blocks answer) {b : StreamBatch}
    (isBatch : attempted lo target answer = .batch b) :
    ∃ got rest, blocks = got ++ rest ∧ b.blocks = got.map (fun b => b.value) ∧
      ((got = [] ∧ blank answer = true ∧ b.toBlock = target) ∨
        ∃ last, got.getLast? = some last ∧ b.toBlock = last.number) := by
  cases serves with
  | @served first isFirst status ok content retryAfterMs cut reads bytes =>
      unfold attempted at isBatch
      dsimp only at isBatch
      rw [if_neg content, if_neg (by omega), if_neg (not_not.2 ok)] at isBatch
      cases drained : drainNdjson (Body.ofBytes reads) with
      | error e =>
          rw [drained] at isBatch
          cases isBatch
      | ok d =>
          rw [drained] at isBatch
          obtain ⟨got, isFirst', values, last, lineless⟩ := drained_blocks bytes drained
          obtain ⟨rest, split⟩ := isFirst'.trans isFirst
          have ascending' : got.Pairwise fun a b => a.number < b.number :=
            (List.pairwise_append.1 (split ▸ ascending)).1
          rw [foldl_laterBlock ascending' (by simp), Option.or_none] at last
          cases isBatch
          refine ⟨got, rest, split.symm, values, ?_⟩
          dsimp only
          rw [last]
          cases end_ : got.getLast? with
          | none =>
              left
              have none_ := List.getLast?_eq_none_iff.1 end_
              refine ⟨none_, ?_, Nat.min_self target⟩
              unfold blank
              dsimp only
              rw [lineless none_]
              simp [ok, Body.ofBytes]
          | some c =>
              right
              refine ⟨c, rfl, ?_⟩
              have mem : c ∈ blocks :=
                split ▸ List.mem_append_left rest (List.mem_of_getLast? end_)
              exact Nat.min_eq_left (within c mem)
  | @broken res fails =>
      obtain ⟨cause, failure⟩ := Option.isSome_iff_exists.1 fails
      have raised : ∃ e, drainNdjson res.body = .error e := by
        unfold drainNdjson
        rw [failure]
        cases (ndjsonLines res.body).foldlM handleLine Drained.empty with
        | error e => exact ⟨e, rfl⟩
        | ok d => exact ⟨.rejected cause, rfl⟩
      obtain ⟨e, raised⟩ := raised
      unfold attempted at isBatch
      dsimp only at isBatch
      rw [raised] at isBatch
      split at isBatch
      · cases isBatch
      · split at isBatch
        · cases isBatch
        · split at isBatch <;> cases isBatch
  | @refused res status =>
      unfold attempted at isBatch
      dsimp only at isBatch
      by_cases none_ : res.status = 204
      · rw [if_pos none_] at isBatch
        cases isBatch
      · rw [if_neg none_] at isBatch
        split at isBatch
        · cases isBatch
        · rw [if_pos (status.resolve_left none_)] at isBatch
          cases isBatch
  | unreachable cause => cases isBatch

theorem attempted_aboveHead {lo target : Nat} {answer : Except FetchError Response}
    (above : attempted lo target answer = .aboveHead) : blank answer = true := by
  cases answer with
  | error cause => cases above
  | ok res =>
      unfold attempted at above
      dsimp only at above
      by_cases none_ : res.status = 204
      · simp [blank, none_]
      · rw [if_neg none_] at above
        split at above
        · cases above
        · split at above
          · cases above
          · cases drained : drainNdjson res.body with
            | error e =>
                rw [drained] at above
                cases above
            | ok d =>
                rw [drained] at above
                cases above

/-- A blank answer ends the request with nothing. -/
theorem attempted_blank (lo target : Nat) {answer : Except FetchError Response}
    (isBlank : blank answer = true) :
    attempted lo target answer = .aboveHead ∨
      ∃ b, attempted lo target answer = .batch b ∧ b.blocks = [] ∧ b.toBlock = target := by
  cases answer with
  | error cause => cases isBlank
  | ok res =>
      unfold attempted
      dsimp only
      by_cases none_ : res.status = 204
      · exact .inl (if_pos none_)
      · right
        simp only [blank, none_, decide_false, Bool.false_or, Bool.and_eq_true,
          decide_eq_true_eq] at isBlank
        obtain ⟨ok, whole, lineless⟩ := isBlank
        have drained : drainNdjson res.body = .ok Drained.empty := by
          unfold drainNdjson
          rw [lineless, whole]
          rfl
        rw [if_neg none_, if_neg (by omega), if_neg (not_not.2 ok), drained]
        exact ⟨_, rfl, rfl, Nat.min_self target⟩

theorem attempted_blank_blocks {lo target : Nat} {answer : Except FetchError Response}
    (isBlank : blank answer = true) {b : StreamBatch}
    (batch : attempted lo target answer = .batch b) : b.blocks = [] := by
  rcases attempted_blank lo target isBlank with above | ⟨b', batch', none_, -⟩
  · rw [batch] at above
    cases above
  · rw [batch] at batch'
    cases batch'
    exact none_

/-! ## What a request with its retries comes to -/

section Runs

variable {o : Options} {answers : Answers}

/-- A result of `postOnce` is that of its last request, or an error. -/
theorem postOnce_attempted {fromBlock target n attempt n' : Nat} {posted : Posted}
    (is : postOnce o answers fromBlock target n attempt = (posted, n')) :
    (∃ e, posted = .threw e) ∨
      ∃ k, n' = k + 1 ∧
        (posted = .aboveHead ∧ attempted fromBlock target (answers k fromBlock) = .aboveHead ∨
          ∃ b, posted = .batch b ∧
            attempted fromBlock target (answers k fromBlock) = .batch b) := by
  fun_induction postOnce o answers fromBlock target n attempt with
  | case1 n attempt above =>
      cases is
      exact .inr ⟨n, rfl, .inl ⟨rfl, above⟩⟩
  | case2 n attempt b batch =>
      cases is
      exact .inr ⟨n, rfl, .inr ⟨b, rfl, batch⟩⟩
  | case3 n attempt status overloaded spent =>
      cases is
      exact .inl ⟨_, rfl⟩
  | case4 n attempt status overloaded more ih => exact ih is
  | case5 n attempt e failed again ih => exact ih is
  | case6 n attempt e failed final =>
      cases is
      exact .inl ⟨_, rfl⟩

theorem postOnce_aboveHead {fromBlock target n : Nat}
    (above : attempted fromBlock target (answers n fromBlock) = .aboveHead) :
    postOnce o answers fromBlock target n 0 = (.aboveHead, n + 1) := by
  rw [postOnce, above]

theorem postOnce_batch {fromBlock target n : Nat} {b : StreamBatch}
    (batch : attempted fromBlock target (answers n fromBlock) = .batch b) :
    postOnce o answers fromBlock target n 0 = (.batch b, n + 1) := by
  rw [postOnce, batch]

/-! ## The walk -/

theorem Chain.range_ascending (chain : Chain) (lo hi : Nat) :
    (chain.range lo hi).Pairwise fun a b => a.number < b.number :=
  chain.ascending.sublist List.filter_sublist

theorem Chain.range_within {chain : Chain} {lo hi : Nat} {b : BlockLine}
    (mem : b ∈ chain.range lo hi) : lo ≤ b.number ∧ b.number ≤ hi :=
  of_decide_eq_true (List.mem_filter.1 mem).2

/-- The blocks behind the first ones of a range. -/
theorem Chain.range_after {chain : Chain} {lo hi : Nat} {got rest : List BlockLine}
    (split : chain.range lo hi = got ++ rest) {last : BlockLine}
    (isLast : got.getLast? = some last) : chain.range (last.number + 1) hi = rest := by
  have ascending : (got ++ rest).Pairwise fun a b => a.number < b.number :=
    split ▸ chain.range_ascending lo hi
  obtain ⟨ascGot, -, across⟩ := List.pairwise_append.1 ascending
  obtain ⟨before, rfl⟩ : ∃ before, got = before ++ [last] :=
    ⟨_, (List.dropLast_append_getLast? last isLast).symm⟩
  have memLast : last ∈ before ++ [last] := List.mem_append_right _ List.mem_cons_self
  have atLeast : lo ≤ last.number :=
    (chain.range_within (split ▸ List.mem_append_left rest memLast)).1
  have narrowed : chain.range (last.number + 1) hi =
      (chain.range lo hi).filter fun b => last.number + 1 ≤ b.number := by
    unfold range
    rw [List.filter_filter]
    refine List.filter_congr fun b _ => ?_
    rw [← Bool.decide_and]
    exact decide_eq_decide.2 (by omega)
  rw [narrowed, split, List.filter_append]
  have none_ : (before ++ [last]).filter (fun b => last.number + 1 ≤ b.number) = [] := by
    rw [List.filter_eq_nil_iff]
    intro b mem above
    have above := of_decide_eq_true above
    rcases List.mem_append.1 mem with inBefore | isLast
    · have lt := (List.pairwise_append.1 ascGot).2.2 b inBefore last List.mem_cons_self
      omega
    · rw [List.mem_singleton.1 isLast] at above
      omega
  have all : rest.filter (fun b => last.number + 1 ≤ b.number) = rest := by
    rw [List.filter_eq_self]
    exact fun b mem => decide_eq_true (across last memLast b mem)
  rw [none_, all, List.nil_append]

theorem Chain.range_past (chain : Chain) {lo hi : Nat} (past : hi < lo) :
    chain.range lo hi = [] := by
  unfold range
  rw [List.filter_eq_nil_iff]
  intro b _ inside
  have inside := of_decide_eq_true inside
  omega

/-- From a cursor and the number of the next request on, the loop comes to a request for some blocks
whose last answer is blank. -/
inductive Short (o : Options) (answers : Answers) (chain : Chain) (target : Nat) :
    Nat → Nat → Prop
  | here {cursor n k : Nat} (inside : cursor ≤ target)
      (last : (postOnce o answers cursor target n 0).2 = k + 1)
      (isBlank : blank (answers k cursor) = true) (some_ : chain.range cursor target ≠ []) :
      Short o answers chain target cursor n
  | later {cursor n n' : Nat} {b : StreamBatch} (inside : cursor ≤ target)
      (posted : postOnce o answers cursor target n 0 = (.batch b, n'))
      (forth : cursor ≤ b.toBlock) (rest : Short o answers chain target (b.toBlock + 1) n') :
      Short o answers chain target cursor n

theorem Short.inside {chain : Chain} {target cursor n : Nat}
    (short : Short o answers chain target cursor n) : cursor ≤ target := by
  cases short with
  | here inside => exact inside
  | later inside => exact inside

theorem Short.request {chain : Chain} {target cursor n : Nat}
    (short : Short o answers chain target cursor n) :
    ∃ k c, c ≤ target ∧ blank (answers k c) = true ∧ chain.range c target ≠ [] := by
  induction short with
  | here inside last isBlank some_ => exact ⟨_, _, inside, isBlank, some_⟩
  | later inside posted forth rest ih => exact ih

/-- Where a blank answer ends the loop, it falls short exactly if there was a block to serve. -/
theorem short_iff_of_blank {chain : Chain} {target cursor n k : Nat} (inside : cursor ≤ target)
    (last : (postOnce o answers cursor target n 0).2 = k + 1)
    (isBlank : blank (answers k cursor) = true)
    (ends : ∀ b n', postOnce o answers cursor target n 0 = (.batch b, n') → b.toBlock = target) :
    chain.range cursor target ≠ [] ↔ Short o answers chain target cursor n := by
  refine ⟨.here inside last isBlank, fun short => ?_⟩
  cases short with
  | here inside last isBlank some_ => exact some_
  | later inside posted forth rest =>
      have below := rest.inside
      rw [ends _ _ posted] at below
      omega

/-- Behind an answer with blocks, it falls short exactly if the rest of the loop does. -/
theorem short_iff_of_batch {chain : Chain} {target cursor n k n' : Nat} {b : StreamBatch}
    (inside : cursor ≤ target) (posted : postOnce o answers cursor target n 0 = (.batch b, n'))
    (last : n' = k + 1) (served : blank (answers k cursor) = false) (forth : cursor ≤ b.toBlock) :
    Short o answers chain target (b.toBlock + 1) n' ↔ Short o answers chain target cursor n := by
  refine ⟨.later inside posted forth, fun short => ?_⟩
  cases short with
  | @here _ _ k' inside last' isBlank some_ =>
      rw [posted] at last'
      have same : k = k' := Nat.succ.inj (last.symm.trans last')
      rw [← same, served] at isBlank
      cases isBlank
  | later inside posted' forth rest =>
      rw [posted] at posted'
      cases posted'
      exact rest

/-- What is yielded are the first blocks of the range; and after a return the whole range, unless the
run comes to a request for some blocks that is answered by a blank. -/
theorem streamFrom_yields {chain : Chain} {target : Nat}
    (serves : ∀ n cursor, Serves (chain.range cursor target) (answers n cursor)) (cursor n : Nat) :
    ∃ got rest, chain.range cursor target = got ++ rest ∧
      (streamFrom o answers target cursor n).blocks = got.map (fun b => b.value) ∧
      ((streamFrom o answers target cursor n).ended = .ok () →
        (rest ≠ [] ↔ Short o answers chain target cursor n)) := by
  fun_induction streamFrom o answers target cursor n with
  | case1 cursor n inside n' posted =>
      obtain ⟨e, threw⟩ | ⟨k, last, ⟨-, above⟩ | ⟨b, batch, -⟩⟩ := postOnce_attempted posted
      · cases threw
      · refine ⟨[], _, rfl, rfl, fun _ => short_iff_of_blank inside ?_ (attempted_aboveHead above) ?_⟩
        · rw [posted]
          exact last
        · intro b n' batch
          rw [posted] at batch
          cases batch
      · cases batch
  | case2 cursor n inside e n' posted => exact ⟨[], _, rfl, rfl, nofun⟩
  | case3 cursor n inside b n' posted back =>
      obtain ⟨e, threw⟩ | ⟨k, -, ⟨above, -⟩ | ⟨b', batch, is⟩⟩ := postOnce_attempted posted
      · cases threw
      · cases above
      · cases batch
        obtain ⟨got, rest, split, values, -⟩ := attempted_batch
          (chain.range_ascending cursor target) (fun b mem => (Chain.range_within mem).2)
          (serves k cursor) is
        refine ⟨got, rest, split, ?_, nofun⟩
        simp [Run.blocks, values]
  | case4 cursor n inside b n' posted forth rest ih =>
      obtain ⟨e, threw⟩ | ⟨k, last, ⟨above, -⟩ | ⟨b', batch, is⟩⟩ := postOnce_attempted posted
      · cases threw
      · cases above
      · cases batch
        obtain ⟨got, more, split, values, blank_ | ⟨last', isLast, reach⟩⟩ := attempted_batch
          (chain.range_ascending cursor target) (fun b mem => (Chain.range_within mem).2)
          (serves k cursor) is
        · -- nothing came, and the cursor went behind the range
          obtain ⟨rfl, isBlank, reach⟩ := blank_
          obtain ⟨got', rest', split', values', -⟩ := ih
          rw [reach, chain.range_past (Nat.lt_succ_self target)] at split'
          obtain ⟨rfl, rfl⟩ := List.append_eq_nil_iff.1 split'.symm
          refine ⟨[], _, rfl, ?_, fun _ => short_iff_of_blank inside ?_ isBlank ?_⟩
          · simp only [Run.blocks, List.flatMap_cons, values]
            exact values'
          · rw [posted]
            exact last
          · intro b' n'' posted'
            rw [posted] at posted'
            cases posted'
            exact reach
        · obtain ⟨got', rest', split', values', whole⟩ := ih
          rw [reach, Chain.range_after split isLast] at split'
          have served : blank (answers k cursor) = false := by
            refine Bool.eq_false_iff.2 fun isBlank => ?_
            have none_ := attempted_blank_blocks isBlank is
            rw [none_] at values
            rw [List.map_eq_nil_iff.1 values.symm] at isLast
            cases isLast
          refine ⟨got ++ got', rest', by rw [split, split', List.append_assoc], ?_, fun ended =>
            (whole ended).trans
              (short_iff_of_batch inside posted last served (Nat.le_of_not_lt forth))⟩
          simp only [Run.blocks, List.flatMap_cons, values, List.map_append]
          exact congrArg _ values'
  | case5 cursor n outside =>
      have none_ := chain.range_past (Nat.lt_of_not_le outside)
      refine ⟨[], [], none_, rfl, fun _ => ⟨fun some_ => absurd rfl some_, fun short => ?_⟩⟩
      exact absurd short.inside outside

/-- A stream that returns has yielded its whole range, unless it came to a request for some blocks
that was answered by a blank. -/
theorem streamFinalized_short_iff {chain : Chain} {fromBlock target : Nat}
    (serves : ∀ n cursor, Serves (chain.range cursor target) (answers n cursor))
    (ended : (streamFinalized o answers ⟨fromBlock, some target⟩).ended = .ok ()) :
    (streamFinalized o answers ⟨fromBlock, some target⟩).blocks ≠
        (chain.range fromBlock target).map (fun b => b.value) ↔
      Short o answers chain target fromBlock 0 := by
  obtain ⟨got, rest, split, yielded, short⟩ := streamFrom_yields (o := o) serves fromBlock 0
  refine Iff.trans (not_congr ?_) (short ended)
  show (streamFrom o answers target fromBlock 0).blocks = _ ↔ _
  rw [yielded, split, List.map_append, List.self_eq_append_right, List.map_eq_nil_iff]

end Runs

theorem streamFrom_blank {o : Options} {answers : Answers} {target cursor n : Nat}
    (inside : cursor ≤ target) (isBlank : blank (answers n cursor) = true) :
    (streamFrom o answers target cursor n).ended = .ok () ∧
      (streamFrom o answers target cursor n).blocks = [] := by
  rw [streamFrom, if_pos inside]
  rcases attempted_blank cursor target isBlank with above | ⟨b, batch, none_, end_⟩
  · rw [postOnce_aboveHead above]
    exact ⟨rfl, rfl⟩
  · rw [postOnce_batch batch]
    dsimp only
    rw [if_neg (by omega), end_, streamFrom, if_neg (by omega)]
    refine ⟨rfl, ?_⟩
    simp [Run.blocks, none_]

/-- A stream that returns has yielded every block of its range, whatever the server answers within
its habits, exactly if the server gives no blank answer to a request for some blocks. -/
theorem streamFinalized_whole (o : Options) (chain : Chain) (target : Nat)
    (server : Server chain target) :
    (∀ (fromBlock : Nat) (answers : Answers), fromBlock ≤ target →
      (∀ n cursor, server.may cursor (answers n cursor)) →
      (streamFinalized o answers ⟨fromBlock, some target⟩).ended = .ok () →
      (streamFinalized o answers ⟨fromBlock, some target⟩).blocks =
        (chain.range fromBlock target).map fun b => b.value) ↔
    ∀ cursor answer, cursor ≤ target → server.may cursor answer → blank answer = true →
      chain.range cursor target = [] := by
  constructor
  · intro whole cursor answer inside may isBlank
    -- the stream begins with the request that is answered so
    choose other mayOther using server.responds
    let answers : Answers := fun _ c => if c = cursor then answer else other c
    have here : answers 0 cursor = answer := if_pos rfl
    have habits : ∀ n c, server.may c (answers n c) := by
      intro n c
      by_cases same : c = cursor
      · simpa [answers, same] using may
      · simpa [answers, same] using mayOther c
    obtain ⟨ended, yielded⟩ := streamFrom_blank (o := o) (n := 0) inside (here ▸ isBlank)
    have all := whole cursor answers inside habits ended
    have none_ : ((chain.range cursor target).map fun b => b.value) = [] := all.symm.trans yielded
    exact List.map_eq_nil_iff.1 none_
  · intro honest fromBlock answers inside may ended
    by_contra less
    obtain ⟨k, c, inside', isBlank, some_⟩ := ((streamFinalized_short_iff
      (fun n cursor => server.serves (may n cursor)) ended).1 less).request
    exact some_ (honest c _ inside' (may k c) isBlank)

def BlockLine.ofLine (line : Text) (number : Nat) (accepted : (JSON.parse line).isSome)
    (object : ((JSON.parse line).get accepted).isObject = true) (oneLine : '\n' ∉ line)
    (numbered : headerNumber ((JSON.parse line).get accepted) = some number) : BlockLine where
  toObjectLine := .ofLine line accepted object oneLine
  number := number
  numbered := numbered

def firstBlock : BlockLine :=
  .ofLine "\x7b\"header\":\x7b\"number\":1\x7d\x7d".toList 1 (by decide +kernel)
    (by decide +kernel) (by decide +kernel) (by decide +kernel)

def secondBlock : BlockLine :=
  .ofLine "\x7b\"header\":\x7b\"number\":2\x7d\x7d".toList 2 (by decide +kernel)
    (by decide +kernel) (by decide +kernel) (by decide +kernel)

def twoBlocks : Chain where
  blocks := [firstBlock, secondBlock]
  ascending := by simp [firstBlock, secondBlock, BlockLine.ofLine]

/-- The first block is served, and then a response without blocks. -/
def shortOf (last : Response) : Answers := fun _ cursor =>
  if cursor ≤ 1 then .ok ⟨200, none, Body.ofBytes [bytesOf [firstBlock]]⟩ else .ok last

theorem ended_ok (ended : Except StreamError Unit) (returned : ended.toBool = true) :
    ended = .ok () := by
  cases ended with
  | error e => cases returned
  | ok u => rfl

/-- The two blocks are there to be served, and the stream ends after the first. -/
def SecondSkipped (last : Response) : Prop :=
  (∀ n cursor, Serves (twoBlocks.range cursor 2) (shortOf last n cursor)) ∧
    (streamFinalized ⟨8⟩ (shortOf last) ⟨1, some 2⟩).ended = .ok () ∧
    (streamFinalized ⟨8⟩ (shortOf last) ⟨1, some 2⟩).blocks.length = 1 ∧
    (twoBlocks.range 1 2).length = 2

theorem secondSkipped_of_mem {last : Response}
    (mem : last ∈ [(⟨204, none, Body.ofBytes []⟩ : Response), ⟨200, none, Body.ofBytes []⟩]) :
    SecondSkipped last := by
  have blankBytes : ∀ blocks, Serves blocks (.ok ⟨200, none, Body.ofBytes []⟩) := fun blocks =>
    .served List.nil_prefix (by decide) (by decide) none 0 rfl
  have serves : ∀ blocks, Serves blocks (.ok last) := by
    intro blocks
    rcases List.mem_pair.1 mem with rfl | rfl
    · exact .refused (.inl rfl)
    · exact blankBytes blocks
  have first : ∀ cursor, cursor ≤ 1 → twoBlocks.range cursor 2 = [firstBlock, secondBlock] := by
    intro cursor low
    obtain rfl | rfl : cursor = 0 ∨ cursor = 1 := by omega
    · rfl
    · rfl
  refine ⟨fun n cursor => ?_, ?_⟩
  · unfold shortOf
    by_cases low : cursor ≤ 1
    · rw [if_pos low, first cursor low]
      refine .served (List.prefix_append [firstBlock] [secondBlock]) (by decide) (by decide) none
        (bytesOf [firstBlock]).length ?_
      rw [List.take_length]
      exact List.append_nil _
    · rw [if_neg low]
      exact serves _
  · rcases List.mem_pair.1 mem with rfl | rfl
    · exact ⟨ended_ok _ (by decide +kernel), by decide +kernel, by decide +kernel⟩
    · exact ⟨ended_ok _ (by decide +kernel), by decide +kernel, by decide +kernel⟩

/-- A 204, or a 200 that is cut before its first byte, ends the stream before the second block. -/
theorem second_block_skipped :
    SecondSkipped ⟨204, none, Body.ofBytes []⟩ ∧ SecondSkipped ⟨200, none, Body.ofBytes []⟩ :=
  ⟨secondSkipped_of_mem (by simp), secondSkipped_of_mem (by simp)⟩

end PortalPonder.PortalSync
