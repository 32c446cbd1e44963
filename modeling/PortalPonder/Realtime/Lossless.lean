import PortalPonder.Realtime.ForkPoint
import PortalPonder.Realtime.HotStream
import PortalPonder.Realtime.Pipe

/-!
# Delivery over reconnects

Against a server whose chain never forks, the blocks that are emitted are the blocks of the chain
from the first one on, each once, whatever happens to the connections. Two facts carry the proof:
the cursor stands right above the tip, or on it when the tip is to be delivered again; and the
ring holds the hash below the cursor.

The second one fails in one situation. A delivery prunes the ring below the anchor. When the
delivered block is itself finalized, its predecessor goes; when the log filter then changes while
this block is consumed, the stream re-opens from the block and misses its resume parent.
-/

namespace PortalPonder.Realtime

open JSON (Text)
open Client (Body FetchError ndjsonLines joinLines inReads decodeBytes lines_of_cut)

/-! ## Turns of the producer -/

section Turns

variable {args : EventArgs} {env : Env}

theorem tipOf_suffix {anchor b : Light} {pre window rest : List Light}
    (split : anchor :: window = pre ++ b :: rest) : tipOf b rest = tipOf anchor window := by
  have last := congrArg List.getLast? split
  rw [List.getLast?_append, List.getLast?_cons, List.getLast?_cons, Option.some_or,
    Option.some.injEq] at last
  exact last.symm

/-- The cadence only moves the anchor up the local chain. -/
theorem cadence_suffix (args : EventArgs) (env : Env) (s : EventState)
    (linked : Linked s.anchor s.unfinalized) :
    ∃ pre, s.anchor :: s.unfinalized =
      pre ++ ((runFinalizeCadence args env).run s).state.anchor ::
        ((runFinalizeCadence args env).run s).state.unfinalized := by
  let view : Gen.View PortalRealtimeEvent Unit := ⟨fun _ _ => (), fun _ _ => True⟩
  let R : Unit → EventState → Prop := fun _ t =>
    ∃ pre, s.anchor :: s.unfinalized = pre ++ t.anchor :: t.unfinalized
  have free : ClockFree R R := by
    refine ⟨?_, fun _ _ held => held⟩
    rintro _ t t' ⟨pre, split⟩ window anchor
    exact ⟨pre, by rw [window, anchor, split]⟩
  have spec : Gen.Spec view (fun _ _ => True) R (runFinalizeCadence args env) (fun _ => R) R := by
    refine spec_runFinalizeCadence free fun fh a tip _ ok => ?_
    refine Gen.Spec.bind (Q := fun _ => R) ?_ fun _ => ?_
    · refine Gen.Spec.modify ?_
      rintro _ t ⟨⟨pre, split⟩, rfl⟩
      have rising := linked.pairwise
      rw [split] at rising
      have above := (List.pairwise_cons.1 (List.pairwise_append.1 rising).2.1).2
      obtain ⟨low, cut, -⟩ := takeFinalized_some above ok.found
      refine ⟨pre ++ t.anchor :: low, ?_⟩
      simp only
      rw [split, List.append_assoc, List.cons_append, ← cut]
    · exact Gen.Spec.yield (fun _ _ _ => trivial) (fun _ _ _ => trivial) fun _ _ held => held
  exact spec.final (v := ()) ⟨[], rfl⟩

/-- The cadence has errors of its own. -/
theorem cadence_throws (args : EventArgs) (env : Env) :
    Gen.ThrowsOnly (fun r => ∀ b, r ≠ .unknownParent b) (runFinalizeCadence args env) := by
  have check : ∀ now head, Gen.ThrowsOnly (fun r => ∀ b, r ≠ .unknownParent b)
      (checkDelivery args now head) := by
    intro now head
    refine Gen.throwsOnly_get.bind fun a => ?_
    split
    · exact Gen.throwsOnly_modify _
    · split
      · exact Gen.throwsOnly_pure _
      · split
        · exact Gen.throwsOnly_throw nofun
        · exact Gen.throwsOnly_pure _
  have commit : ∀ tip remaining, Gen.ThrowsOnly (fun r => ∀ b, r ≠ .unknownParent b)
      (commitFinalized tip remaining) := fun tip remaining =>
    (Gen.throwsOnly_modify _).bind fun _ => Gen.throwsOnly_yield _
  have postpone : ∀ now tip head hash, Gen.ThrowsOnly (fun r => ∀ b, r ≠ .unknownParent b)
      (deferFinalize args now tip head hash) := by
    intro now tip head hash
    refine Gen.throwsOnly_get.bind fun a => ?_
    split
    · exact Gen.throwsOnly_modify _
    · split
      · exact Gen.throwsOnly_throw nofun
      · exact Gen.throwsOnly_pure _
  have finalize : ∀ now fh, Gen.ThrowsOnly (fun r => ∀ b, r ≠ .unknownParent b)
      (finalizeAt args now fh) := by
    intro now fh
    refine Gen.throwsOnly_get.bind fun a => ?_
    dsimp only
    split
    · exact Gen.throwsOnly_modify _
    · split
      · exact commit _ _
      · split
        · split
          · exact Gen.throwsOnly_throw nofun
          · exact commit _ _
        · split
          · exact postpone _ _ _ _
          · exact commit _ _
  refine Gen.throwsOnly_get.bind fun a => ?_
  split
  · refine (Gen.throwsOnly_modify _).bind fun _ => ?_
    split
    · exact Gen.throwsOnly_modify _
    · exact (check _ _).bind fun _ => finalize _ _
  · exact Gen.throwsOnly_pure _

/-- The variables when a block is emitted. -/
def delivering (s : EventState) (env : Env) (batch : HotBatch) : EventState :=
  { s with
    lastDeliveryMs := env.deliveredAt
    deliveryBaseline := some (raiseBaseline s.deliveryBaseline batch.header.number) }

/-- The block event, and the cadence after it. -/
def emission (args : EventArgs) (env : Env) (batch : HotBatch) (s : EventState) :
    Turn EventState PortalRealtimeEvent RealtimeError Unit :=
  let t := (runFinalizeCadence args env).run (delivering s env batch)
  ⟨(blockEvent args batch, delivering s env batch) :: t.trace, t.state, t.outcome⟩

/-- A block that extends the tip is appended and emitted. -/
theorem turn_append {batch : HotBatch} {s : EventState}
    (notTip : (toLight batch.header).hash ≠ (tipOf s.anchor s.unfinalized).hash)
    (ext : Extends (tipOf s.anchor s.unfinalized) (toLight batch.header)) :
    (turn args (.block batch, env)).run s =
      emission args env batch
        { s with unfinalized := s.unfinalized ++ [toLight batch.header] } := by
  have answer := reconcile_append notTip ext.1
  unfold turn deliver
  simp only
  rw [Gen.run_bind_ok (Gen.run_get s)]
  simp only [answer, List.nil_append]
  rw [Gen.run_bind_ok (appendBlock_run ext)]
  rfl

/-- The tip is emitted again when it is awaited, and skipped otherwise. -/
theorem turn_duplicate {batch : HotBatch} {s : EventState}
    (isTip : (toLight batch.header).hash = (tipOf s.anchor s.unfinalized).hash) :
    (turn args (.block batch, env)).run s =
      if env.shouldRedeliver (toLight batch.header).hash then emission args env batch s
      else ⟨[], s, .ok ()⟩ := by
  have answer := reconcile_duplicate_iff.2 isTip
  unfold turn deliver
  simp only
  rw [Gen.run_bind_ok (Gen.run_get s)]
  simp only [answer, List.nil_append]
  split
  · rfl
  · rfl

end Turns

/-! ## The server -/

/-- The server's chain: linked and numbered above the anchor, which is on it, and a hash names one
block. -/
structure NeverForks (canon : Int → Option Light) (anchor : Light) : Prop where
  chain : CanonicalChain canon anchor.number
  anchored : OnChain canon anchor
  unique : ∀ a b, OnChain canon a → OnChain canon b → a.hash = b.hash → a = b

/-- The line of a block, under whichever filter it was asked for. -/
structure ServesLine (args : HotArgs) (canon : Int → Option Light) (h : Int) (line : Text) :
    Prop where
  oneLine : '\n' ∉ line
  read : ∃ v batch, JSON.parse line = some v ∧ v.isObject = true ∧
    args.readBatch v = some batch ∧ canon h = some (toLight batch.header)

/-- The lines of consecutive blocks from a height on. -/
def ServesFrom (args : HotArgs) (canon : Int → Option Light) : Int → List Text → Prop
  | _, [] => True
  | h, line :: lines => ServesLine args canon h line ∧ ServesFrom args canon (h + 1) lines

/-- A body of such lines: cut behind any byte, in reads of any size, ended or failed. -/
def HonestBody (args : HotArgs) (canon : Int → Option Light) (h : Int) (body : Body) : Prop :=
  ∃ lines k sizes failure, ServesFrom args canon h lines ∧
    body = ⟨inReads sizes (decodeBytes k (joinLines lines)).1, (decodeBytes k (joinLines lines)).2,
      failure⟩

/-- What an honest server answers: a 409 to an orphaned parent hash only, and the blocks from the
cursor on. The rest is free. -/
def Honest (args : HotArgs) (canon : Int → Option Light) (s : Feed) : FeedAction → Prop
  | .request (some res) _ =>
      (res.status = 409 → Conflicts canon s.stream.shell) ∧
        ∀ body, res.ok = true → res.status ≠ 204 → res.body = some body →
          HonestBody args canon s.stream.shell.cursor body
  | _ => True

/-! ## Reading a connection -/

section Reading

variable {args : HotArgs} {canon : Int → Option Light}

/-- What the reads of a connection still give: the blocks from a height on, and after them a torn
line or the end. -/
inductive Upcoming (args : HotArgs) (canon : Int → Option Light) : Int → List LineRead → Prop
  | nil {h : Int} : Upcoming args canon h []
  | done {h : Int} {rest : List LineRead} : Upcoming args canon h (.done :: rest)
  | rejected {h : Int} {e : FetchError} {rest : List LineRead} :
      Upcoming args canon h (.rejected e :: rest)
  | torn {h : Int} {text : Text} {rest : List LineRead} :
      JSON.parse text = none → Upcoming args canon h (.line text :: rest)
  | block {h : Int} {text : Text} {v : JSON.Value} {batch : HotBatch} {rest : List LineRead} :
      JSON.parse text = some v → args.readBatch v = some batch →
      canon h = some (toLight batch.header) → Upcoming args canon (h + 1) rest →
      Upcoming args canon h (.line text :: rest)

/-- Asking for the next read changes nothing about what is to come. -/
theorem Upcoming.next {h : Int} {rest : List LineRead} (upcoming : Upcoming args canon h rest) :
    Upcoming args canon h ((nextRead rest).1 :: (nextRead rest).2) := by
  cases rest with
  | nil => exact .done
  | cons r rest => exact upcoming

theorem upcoming_end (h : Int) (failure : Option FetchError) :
    Upcoming args canon h
      [match failure with
        | some e => .rejected e
        | none => .done] := by
  cases failure with
  | some e => exact .rejected
  | none => exact .done

theorem upcoming_lines {h : Int} {whole more : List Text} {rest : List LineRead}
    (serves : ServesFrom args canon h (whole ++ more))
    (after : Upcoming args canon (h + whole.length) rest) :
    Upcoming args canon h (whole.map .line ++ rest) := by
  induction whole generalizing h with
  | nil =>
      rw [List.length_nil, Int.natCast_zero, Int.add_zero] at after
      exact after
  | cons line whole ih =>
      obtain ⟨served, tail⟩ := serves
      obtain ⟨v, batch, parsed, -, read, atHeight⟩ := served.read
      refine .block parsed read atHeight (ih tail ?_)
      have same : h + (line :: whole).length = h + 1 + whole.length := by
        rw [List.length_cons]
        omega
      rw [← same]
      exact after

theorem ServesFrom.proper {h : Int} {lines : List Text} (serves : ServesFrom args canon h lines) :
    ∀ line ∈ lines, line ≠ [] ∧ '\n' ∉ line := by
  induction lines generalizing h with
  | nil => nofun
  | cons line lines ih =>
      obtain ⟨served, tail⟩ := serves
      intro l mem
      rcases List.mem_cons.1 mem with rfl | later
      · obtain ⟨v, batch, parsed, -⟩ := served.read
        refine ⟨?_, served.oneLine⟩
        rintro rfl
        cases parsed
      · exact ih tail l later

theorem ServesFrom.head {h : Int} {whole more : List Text}
    (serves : ServesFrom args canon h (whole ++ more)) :
    ServesFrom args canon (h + whole.length) more := by
  induction whole generalizing h with
  | nil =>
      rw [List.length_nil, Int.natCast_zero, Int.add_zero]
      exact serves
  | cons line whole ih =>
      have same : h + (line :: whole).length = h + 1 + whole.length := by
        rw [List.length_cons]
        omega
      rw [same]
      exact ih serves.2

/-- However it is cut, a body gives whole blocks in order, and never a part of one. -/
theorem HonestBody.upcoming {h : Int} {body : Body} (honest : HonestBody args canon h body) :
    Upcoming args canon h (lineReads body) := by
  obtain ⟨lines, k, sizes, failure, serves, rfl⟩ := honest
  obtain ⟨whole, more, rfl, pieces⟩ := lines_of_cut serves.proper k sizes failure
  simp only at pieces
  unfold lineReads
  rcases pieces with exact_ | ⟨part, exact_, cut⟩
  · rw [exact_]
    exact upcoming_lines serves (upcoming_end _ failure)
  · rw [exact_, List.map_append, List.append_assoc]
    refine upcoming_lines serves ?_
    rcases cut with ⟨t, rfl⟩ | ⟨next, others, tail, rfl, front⟩
    · exact .torn (JSON.parse_replacement t)
    · cases parsed : JSON.parse part with
      | none => exact .torn parsed
      | some w =>
          -- only the whole line parses
          obtain ⟨v, batch, whole_, object, read, atHeight⟩ := serves.head.1.read
          rw [front] at whole_
          have same := (JSON.parse_cut object whole_ parsed).1
          rw [← same] at read
          exact .block parsed read atHeight (upcoming_end _ failure)

end Reading

/-! ## What the producer makes of an item -/

section Taking

variable {args : HotArgs} {canon : Int → Option Light} {s : Feed} {env : Env}

def EventState.tip (s : EventState) : Light := tipOf s.anchor s.unfinalized

/-- The window and its anchor are consecutive blocks of the chain. -/
structure OnCanon (canon : Int → Option Light) (s : EventState) : Prop where
  contiguous : Contiguous s.anchor s.unfinalized
  onChain : ∀ b ∈ s.anchor :: s.unfinalized, OnChain canon b

theorem OnCanon.tip {s : EventState} (on : OnCanon canon s) : OnChain canon s.tip :=
  on.onChain _ (tipOf_mem _ _)

theorem OnCanon.anchor_le {s : EventState} (on : OnCanon canon s) : s.anchor.number ≤ s.tip.number :=
  (linked_of_contiguous on.contiguous).le_tip List.mem_cons_self

theorem OnCanon.push {s : EventState} {b : Light} (on : OnCanon canon s) (next : NextTo s.tip b)
    (onChain : OnChain canon b) :
    OnCanon canon { s with unfinalized := s.unfinalized ++ [b] } where
  contiguous := on.contiguous.push next
  onChain := by
    intro x mem
    simp only at mem
    rw [← List.cons_append, List.mem_append, List.mem_singleton] at mem
    rcases mem with old | rfl
    · exact on.onChain x old
    · exact onChain

theorem OnCanon.cadence {s : EventState} (on : OnCanon canon s) (args : EventArgs) (env : Env) :
    OnCanon canon ((runFinalizeCadence args env).run s).state ∧
      ((runFinalizeCadence args env).run s).state.tip = s.tip := by
  obtain ⟨pre, split⟩ := cadence_suffix args env s (linked_of_contiguous on.contiguous)
  refine ⟨⟨?_, ?_⟩, tipOf_suffix split⟩
  · have chain := on.contiguous
    rw [Contiguous, split] at chain
    exact (List.isChain_append.1 chain).2.1
  · intro b mem
    refine on.onChain b ?_
    rw [split]
    exact List.mem_append_right pre mem

/-- The next block of the chain extends the tip. -/
theorem next_onChain {base tip b : Light} (fork : NeverForks canon base) (onTip : OnChain canon tip)
    (above : base.number ≤ tip.number) (onB : OnChain canon b) (next : b.number = tip.number + 1) :
    NextTo tip b ∧ b.hash ≠ tip.hash := by
  refine ⟨?_, fun same => ?_⟩
  · obtain ⟨p, atParent, parent⟩ := fork.chain.parent _ _ (by omega) onB
    rw [OnChain] at onTip
    rw [next, Int.add_sub_cancel, onTip, Option.some.injEq] at atParent
    rw [atParent]
    exact ⟨parent, by rw [← atParent]; exact next⟩
  · have eq := fork.unique _ _ onB onTip same
    rw [eq] at next
    omega

/-- The item was taken: these blocks were emitted, the tip is this block, the stream is as it
was, and the parent was known. -/
structure Took (canon : Int → Option Light) (s t : Feed) (es : List (Light × Bool)) (tip : Light) :
    Prop where
  stream : t.stream = s.stream
  revision : t.logsRevision = s.logsRevision
  window : OnCanon canon t.producer
  isTip : t.producer.tip = tip
  emissions : t.emissions = s.emissions ++ es
  last : ∃ taken, t.history.getLast? = some taken ∧ taken.anchor = s.producer.anchor
  stop : (∀ e, t.stop ≠ some (.shell e)) ∧ ∀ b, t.stop ≠ some (.producer (.unknownParent b))

theorem light?_finalizes {es : List PortalRealtimeEvent} (finalizes : ∀ e ∈ es, IsFinalize e) :
    es.filterMap PortalRealtimeEvent.light? = [] := by
  rw [List.filterMap_eq_nil_iff]
  intro e mem
  have isFinalize := finalizes e mem
  cases e with
  | finalize b => rfl
  | block b logs transactions hasMatchedFilter batchId batchSize => cases isFinalize
  | reorg ancestor reorgedBlocks => cases isFinalize

theorem light?_blockEvent (args : EventArgs) (batch : HotBatch) :
    (blockEvent args batch).light? = some (toLight batch.header) := by
  simp only [blockEvent, PortalRealtimeEvent.light?, ofBlock_toSyncBlockHeader]

theorem emissions_take (item : HotItem) :
    (s.take args item env).emissions =
      s.emissions ++
        Taken.emissions ⟨item, env, s.producer.anchor,
          ((turn args.events (item, env)).run s.producer).events⟩ := by
  simp only [Feed.emissions, Feed.take, List.flatMap_append, List.flatMap_singleton]

/-- Taking an item, when the turn is known. -/
theorem took {item : HotItem} {tip : Light} {es : List (Light × Bool)}
    (window : OnCanon canon ((turn args.events (item, env)).run s.producer).state)
    (isTip : ((turn args.events (item, env)).run s.producer).state.tip = tip)
    (events : Taken.emissions ⟨item, env, s.producer.anchor,
      ((turn args.events (item, env)).run s.producer).events⟩ = es)
    (known : ∀ b, ((turn args.events (item, env)).run s.producer).outcome ≠
      .error (.unknownParent b)) :
    Took canon s (s.take args item env) es tip := by
  refine ⟨rfl, rfl, window, isTip, by rw [emissions_take, events], ?_, ?_, ?_⟩
  · exact ⟨_, List.getLast?_concat, rfl⟩
  · intro e stop
    simp only [Feed.take] at stop
    split at stop
    · cases stop
    · cases stop
  · intro b stop
    simp only [Feed.take] at stop
    split at stop
    · cases stop
    · rename_i thrown
      cases stop
      exact known b thrown

/-- A tick runs the cadence, and emits no block. -/
theorem took_tick (on : OnCanon canon s.producer) :
    Took canon s (s.take args .tick env) [] s.producer.tip := by
  obtain ⟨window, isTip⟩ := on.cadence args.events env
  refine took window isTip ?_ ?_
  · have silent := light?_finalizes (cadence_finalizes args.events env s.producer)
    simp only [Taken.emissions]
    rw [show turn args.events (.tick, env) = runFinalizeCadence args.events env from rfl, silent]
    rfl
  · intro b thrown
    exact cadence_throws args.events env s.producer _ thrown b rfl

/-- The emission of a block, from the variables it is made in. -/
theorem took_emission {batch : HotBatch} {v : EventState} (on : OnCanon canon v)
    (run : (turn args.events (.block batch, env)).run s.producer =
      emission args.events env batch v) :
    Took canon s (s.take args (.block batch) env)
      [(toLight batch.header, env.shouldRedeliver (toLight batch.header).hash)] v.tip := by
  have on' : OnCanon canon (delivering v env batch) := ⟨on.contiguous, on.onChain⟩
  obtain ⟨window, isTip⟩ := on'.cadence args.events env
  refine took ?_ ?_ ?_ ?_
  · rw [run]
    exact window
  · rw [run]
    exact isTip
  · rw [run]
    have silent := light?_finalizes (cadence_finalizes args.events env (delivering v env batch))
    simp only [Turn.events] at silent
    simp only [Taken.emissions, emission, Turn.events, List.map_cons, List.filterMap_cons,
      light?_blockEvent, silent, List.map_nil]
  · intro b thrown
    rw [run] at thrown
    exact cadence_throws args.events env (delivering v env batch) _ thrown b rfl

/-- The block after the tip is appended and emitted. -/
theorem took_next {anchor : Light} {batch : HotBatch} (fork : NeverForks canon anchor)
    (on : OnCanon canon s.producer) (above : anchor.number ≤ s.producer.tip.number)
    (served : canon (s.producer.tip.number + 1) = some (toLight batch.header)) :
    Took canon s (s.take args (.block batch) env)
      [(toLight batch.header, env.shouldRedeliver (toLight batch.header).hash)]
      (toLight batch.header) := by
  have number := fork.chain.number _ _ served
  have onChain : OnChain canon (toLight batch.header) := by
    rw [OnChain, number]
    exact served
  obtain ⟨next, notTip⟩ := next_onChain fork on.tip above onChain number
  have ext : Extends s.producer.tip (toLight batch.header) := ⟨next.1, by rw [number]; omega⟩
  have taken : Took canon s (s.take args (.block batch) env) _ _ :=
    took_emission (on.push next onChain) (turn_append notTip ext)
  have isTip : ({ s.producer with
      unfinalized := s.producer.unfinalized ++ [toLight batch.header] } : EventState).tip =
        toLight batch.header := tipOf_append_singleton _ _ _
  rw [isTip] at taken
  exact taken

/-- The tip is emitted again when it is awaited, and skipped otherwise. -/
theorem took_again {batch : HotBatch} (on : OnCanon canon s.producer)
    (isTip : toLight batch.header = s.producer.tip) :
    Took canon s (s.take args (.block batch) env) [] s.producer.tip ∨
      Took canon s (s.take args (.block batch) env) [(s.producer.tip, true)] s.producer.tip := by
  have run : (turn args.events (.block batch, env)).run s.producer = _ :=
    turn_duplicate (congrArg Light.hash isTip)
  by_cases awaited : env.shouldRedeliver (toLight batch.header).hash = true
  · rw [if_pos awaited] at run
    have taken : Took canon s (s.take args (.block batch) env) _ _ := took_emission on run
    rw [awaited, isTip] at taken
    exact .inr taken
  · rw [if_neg awaited] at run
    refine .inl (took ?_ ?_ ?_ ?_)
    · rw [run]
      exact on
    · rw [run]
    · rw [run]
      rfl
    · intro b thrown
      rw [run] at thrown
      cases thrown

end Taking

/-! ## The invariant -/

/-- The emissions are the blocks of the chain from the first one up to the tip. -/
def Emitted (canon : Int → Option Light) (fromBlock : Int) (tip : Light)
    (es : List (Light × Bool)) : Prop :=
  ∃ blocks, Once es blocks ∧ (∀ (i : Nat) b, blocks[i]? = some b → canon (fromBlock + i) = some b) ∧
    tip.number = fromBlock + blocks.length - 1

/-- The ring holds hashes of the chain, the tip's as the highest. -/
structure RingOk (canon : Int → Option Light) (tip : Light) (ring : Ring) : Prop where
  known : ∀ h v, ring.get? h = some v → h ≤ tip.number ∧ (canon h).map Light.hash = some v
  tip : ring.get? tip.number = some tip.hash

/-- The cursor stands right above the tip, or on it when it is to be delivered again, and the ring
holds the hash below the cursor. -/
structure Resumable (fromBlock : Int) (tip : Light) (shell : Shell) : Prop where
  low : fromBlock ≤ shell.cursor
  near : shell.cursor = tip.number + 1 ∨ shell.cursor = tip.number
  parent : (shell.ring.get? (shell.cursor - 1)).isSome

/-- While a block is consumed it is the tip, and its parent's hash is in the ring just when the
block was not final before. -/
structure Consuming (fromBlock : Int) (tip : Light) (shell : Shell) (history : List Taken)
    (num : Int) : Prop where
  isTip : num = tip.number
  cursor : shell.cursor = num + 1
  low : fromBlock ≤ num
  taken : history ≠ []
  parent : ∀ taken, history.getLast? = some taken → taken.anchor.number < num →
    (shell.ring.get? (num - 1)).isSome
  pruned : ∀ taken, history.getLast? = some taken → num ≤ taken.anchor.number →
    shell.ring.get? (num - 1) = none

def PhaseOk (args : HotArgs) (canon : Int → Option Light) (tip : Light) (shell : Shell)
    (history : List Taken) : Phase → Prop
  | .top => Resumable args.fromBlock tip shell
  | .racing conn =>
      Resumable args.fromBlock tip shell ∧
        Upcoming args canon shell.cursor (conn.readerP :: conn.it)
  | .yielded num conn =>
      Consuming args.fromBlock tip shell history num ∧
        Upcoming args canon shell.cursor (conn.readerP :: conn.it)

structure Safe (args : HotArgs) (canon : Int → Option Light) (s : Feed) : Prop where
  window : OnCanon canon s.producer
  emitted : Emitted canon args.fromBlock s.producer.tip s.emissions
  ring : RingOk canon s.producer.tip s.stream.shell.ring
  armed : s.stream.shell.armed = true
  phase : PhaseOk args canon s.producer.tip s.stream.shell s.history s.stream.phase
  resumes : ∀ parent cursor floor, s.stop ≠ some (.shell (.noResumeParent parent cursor floor))
  parented : ∀ b, s.stop ≠ some (.producer (.unknownParent b))

section Invariant

variable {args : HotArgs} {canon : Int → Option Light} {s t : Feed} {env : Env}

theorem Emitted.next {fromBlock : Int} {tip b : Light} {es : List (Light × Bool)}
    (emitted : Emitted canon fromBlock tip es) (served : canon (tip.number + 1) = some b)
    (number : b.number = tip.number + 1) (awaited : Bool) :
    Emitted canon fromBlock b (es ++ [(b, awaited)]) := by
  obtain ⟨blocks, once, onChain, height⟩ := emitted
  refine ⟨blocks ++ [b], once.next b awaited, ?_, ?_⟩
  · intro i x found
    rcases Nat.lt_or_ge i blocks.length with old | new
    · rw [List.getElem?_append_left old] at found
      exact onChain i x found
    · rw [List.getElem?_append_right new, List.getElem?_singleton] at found
      split at found
      · have level : fromBlock + i = tip.number + 1 := by omega
        cases found
        rw [level]
        exact served
      · cases found
  · rw [List.length_append, List.length_singleton]
    omega

theorem Emitted.again {fromBlock : Int} {tip : Light} {es : List (Light × Bool)}
    (emitted : Emitted canon fromBlock tip es) (isCanon : OnChain canon tip)
    (low : fromBlock ≤ tip.number) : Emitted canon fromBlock tip (es ++ [(tip, true)]) := by
  obtain ⟨blocks, once, onChain, height⟩ := emitted
  rcases List.eq_nil_or_concat blocks with rfl | ⟨pre, x, rfl⟩
  · rw [List.length_nil] at height
    omega
  · rw [List.concat_eq_append] at once onChain height
    have last := onChain pre.length x (by simp)
    rw [List.length_append, List.length_singleton] at height
    have level : fromBlock + pre.length = tip.number := by omega
    rw [level, isCanon, Option.some.injEq] at last
    subst last
    refine ⟨pre ++ [tip], once.again, onChain, ?_⟩
    rw [List.length_append, List.length_singleton]
    exact height

theorem RingOk.noConflict {tip : Light} {shell : Shell} (ring : RingOk canon tip shell.ring)
    (parent : (shell.ring.get? (shell.cursor - 1)).isSome) : ¬ Conflicts canon shell := by
  obtain ⟨v, held⟩ := Option.isSome_iff_exists.1 parent
  have same := (ring.known _ v held).2
  intro conflict
  exact conflict (same.trans held.symm)

/-- A delivery keeps the hash of the block, and that of its parent unless it is below the floor. -/
theorem RingOk.deliver {tip b : Light} {ring : Ring} {lo : Int} (ok : RingOk canon tip ring)
    (isCanon : OnChain canon b) (low : lo ≤ b.number) (high : tip.number ≤ b.number) :
    RingOk canon b (pruneRing lo (ring.set b.number b.hash)) ∧
      (lo < b.number → (pruneRing lo (ring.set b.number b.hash)).get? (b.number - 1) =
        ring.get? (b.number - 1)) := by
  have bound : ∀ k v, (ring.set b.number b.hash).get? k = some v →
      k ≤ b.number ∧ (canon k).map Light.hash = some v := by
    intro k v held
    rw [OrdMap.get?_set] at held
    split at held
    · rename_i same
      subst same
      refine ⟨Int.le_refl _, ?_⟩
      rw [OnChain] at isCanon
      rw [isCanon]
      exact held
    · obtain ⟨below, known⟩ := ok.known k v held
      exact ⟨Int.le_trans below high, known⟩
  refine ⟨⟨fun k v left => bound k v (get?_of_pruneRing left).2, ?_⟩, ?_⟩
  · rw [get?_pruneRing_top low, OrdMap.get?_set_self]
    intro k v held
    have below := (bound k v held).1
    omega
  · intro above
    have apart : b.number - 1 ≠ b.number := by omega
    rw [get?_pruneRing_top (by omega), OrdMap.get?_set_of_ne _ _ apart]
    intro k v held
    have below := (bound k v held).1
    omega

theorem resumeParent_of_held (lo : Int) {shell : Shell}
    (parent : (shell.ring.get? (shell.cursor - 1)).isSome) :
    ∃ hash, resumeParent lo shell = .ok hash := by
  obtain ⟨v, held⟩ := Option.isSome_iff_exists.1 parent
  exact ⟨some v, by simp [resumeParent, held]⟩

/-- A tick keeps the invariant at the loop top and on a connection. -/
theorem Safe.tick (safe : Safe args canon s)
    (waiting : ∀ num conn, s.stream.phase ≠ .yielded num conn) :
    Safe args canon (s.take args .tick env) := by
  have taken : Took canon s (s.take args .tick env) [] s.producer.tip := took_tick safe.window
  obtain ⟨stream, -, window, isTip, emissions, -, shell, known⟩ := taken
  refine ⟨window, ?_, ?_, ?_, ?_, fun _ _ _ => shell _, known⟩
  · rw [emissions, List.append_nil, isTip]
    exact safe.emitted
  · rw [isTip, stream]
    exact safe.ring
  · rw [stream]
    exact safe.armed
  · have phase := safe.phase
    rw [stream]
    cases at_ : s.stream.phase with
    | yielded num conn => exact absurd at_ (waiting num conn)
    | top =>
        rw [at_] at phase
        rw [isTip]
        exact phase
    | racing conn =>
        rw [at_] at phase
        rw [isTip]
        exact phase

/-- The invariant at the loop top. -/
theorem Safe.enter_top (safe : Safe args canon s)
    (resumable : Resumable args.fromBlock s.producer.tip s.stream.shell) :
    Safe args canon (s.enter .top) :=
  ⟨safe.window, safe.emitted, safe.ring, safe.armed, resumable, safe.resumes, safe.parented⟩

theorem Safe.reconnect (safe : Safe args canon s)
    (resumable : Resumable args.fromBlock s.producer.tip s.stream.shell) :
    Safe args canon (s.reconnect args env) :=
  (safe.enter_top resumable).tick nofun

/-- A request of the loop top, with an honest answer. -/
theorem Safe.onRequest {res : Option HotResponse} (safe : Safe args canon s)
    (atTop : s.stream.phase = .top) (honest : Honest args canon s (.request res env)) :
    Safe args canon (s.onRequest args res env) := by
  have resumable := safe.phase
  rw [atTop] at resumable
  have waiting : ∀ num conn, s.stream.phase ≠ .yielded num conn := by
    intro num conn at_
    rw [atTop] at at_
    cases at_
  obtain ⟨hash, parent⟩ := resumeParent_of_held s.floor resumable.parent
  unfold Feed.onRequest
  rw [parent]
  cases res with
  | none => exact safe.tick waiting
  | some res =>
      simp only
      by_cases noContent : res.status = 204
      · rw [if_pos noContent]
        exact safe.tick waiting
      rw [if_neg noContent]
      by_cases orphaned : res.status = 409
      · -- the parent hash is canonical, so it is never rejected
        exact absurd (honest.1 orphaned) (safe.ring.noConflict resumable.parent)
      rw [if_neg orphaned]
      cases ok : res.ok with
      | false =>
          rw [if_pos rfl]
          split
          · split
            · exact safe
            · exact ⟨safe.window, safe.emitted, safe.ring, safe.armed, safe.phase, nofun, nofun⟩
          · exact safe.tick waiting
      | true =>
          rw [if_neg nofun]
          have opened : Safe args canon
              (s.withShell { s.stream.shell with consecutive409 := 0 }) := by
            refine ⟨safe.window, safe.emitted, safe.ring, safe.armed, ?_, safe.resumes, safe.parented⟩
            show PhaseOk args canon _ _ _ s.stream.phase
            rw [atTop]
            exact ⟨resumable.low, resumable.near, resumable.parent⟩
          cases found : res.body with
          | none => exact opened.tick waiting
          | some body =>
              have reads := (honest.2 body ok noContent found).upcoming.next
              exact ⟨safe.window, safe.emitted, safe.ring, safe.armed,
                ⟨⟨resumable.low, resumable.near, resumable.parent⟩, reads⟩, safe.resumes,
                safe.parented⟩

@[simp] theorem stamp_header (hooks : Bool) (counter : Nat) (batch : HotBatch) :
    (stamp hooks counter batch).header = batch.header := by
  unfold stamp
  split
  · rfl
  · rfl

/-- A block of a connection is the next one, or the tip once more. -/
theorem Safe.onBatch {anchor : Light} {conn : HotConnection} {batch : HotBatch}
    (fork : NeverForks canon anchor) (starts : args.fromBlock = anchor.number + 1)
    (safe : Safe args canon s)
    (resumable : Resumable args.fromBlock s.producer.tip s.stream.shell)
    (served : canon s.stream.shell.cursor = some (toLight batch.header))
    (rest : Upcoming args canon (s.stream.shell.cursor + 1) (conn.readerP :: conn.it)) :
    Safe args canon (s.onBatch args conn batch env) := by
  have number := fork.chain.number _ _ served
  have isCanon : OnChain canon (toLight batch.header) := by
    rw [OnChain, number]
    exact served
  have high : s.producer.tip.number ≤ (toLight batch.header).number := by
    rcases resumable.near with above | again
    · omega
    · omega
  have low : s.floor ≤ (toLight batch.header).number :=
    Int.le_trans safe.window.anchor_le high
  obtain ⟨ring, parent⟩ := safe.ring.deliver isCanon low high
  unfold Feed.onBatch
  simp only
  generalize feed : ({ s with
    stream :=
      { shell := recordDelivery s.floor s.stream.shell batch.header.number batch.header.hash
        phase := .yielded batch.header.number conn
        streamBatchCounter :=
          s.stream.streamBatchCounter + if args.freshnessHooks = true then 1 else 0 } } : Feed) = s'
  have producer : s'.producer = s.producer := by rw [← feed]
  have stream : s'.stream.shell =
      recordDelivery s.floor s.stream.shell (toLight batch.header).number
        (toLight batch.header).hash := by rw [← feed]; rfl
  have phase : s'.stream.phase = .yielded (toLight batch.header).number conn := by rw [← feed]; rfl
  have before : s'.emissions = s.emissions := by rw [← feed]; rfl
  generalize stamped : stamp args.freshnessHooks s.stream.streamBatchCounter batch = block
  have header : block.header = batch.header := by rw [← stamped, stamp_header]
  -- once the turn is known, the rest follows from the ring
  have settle : ∀ es, Took canon s' (s'.take args (.block block) env) es (toLight batch.header) →
      Emitted canon args.fromBlock (toLight batch.header) (s.emissions ++ es) →
      Safe args canon (s'.take args (.block block) env) := by
    intro es took emitted
    refine ⟨took.window, ?_, ?_, ?_, ?_, fun _ _ _ => took.stop.1 _, took.stop.2⟩
    · rw [took.isTip, took.emissions, before]
      exact emitted
    · rw [took.isTip, took.stream, stream]
      exact ring
    · rw [took.stream, stream]
      exact safe.armed
    · rw [took.isTip, took.stream, stream, phase]
      obtain ⟨x, isLast, anchorIs⟩ := took.last
      refine ⟨⟨rfl, rfl, ?_, ?_, ?_, ?_⟩, ?_⟩
      · rw [number]
        exact resumable.low
      · intro none_
        rw [none_] at isLast
        cases isLast
      · intro taken last above
        rw [last, Option.some.injEq] at isLast
        rw [isLast, anchorIs, producer] at above
        have held := parent above
        rw [recordDelivery]
        rw [held, number]
        exact resumable.parent
      · intro taken last final
        rw [last, Option.some.injEq] at isLast
        rw [isLast, anchorIs, producer] at final
        refine Option.eq_none_iff_forall_ne_some.2 fun v left => ?_
        have floor := (get?_of_pruneRing left).1
        rw [Feed.floor] at floor
        omega
      · rw [recordDelivery]
        simp only
        rw [number]
        exact rest
  rcases resumable.near with above | again
  · -- the block after the tip
    rw [above] at number served
    have first : anchor.number ≤ s'.producer.tip.number := by
      obtain ⟨blocks, -, -, height⟩ := safe.emitted
      rw [producer]
      omega
    have on : OnCanon canon s'.producer := by
      rw [producer]
      exact safe.window
    have next : canon (s'.producer.tip.number + 1) = some (toLight block.header) := by
      rw [producer, header]
      exact served
    have took : Took canon s' (s'.take args (.block block) env) _ _ := took_next fork on first next
    rw [header] at took
    exact settle _ took (safe.emitted.next served number _)
  · -- the tip, delivered again
    have isTip : toLight batch.header = s.producer.tip := by
      have tip := safe.window.tip
      rw [OnChain, ← again, served, Option.some.injEq] at tip
      exact tip
    have on : OnCanon canon s'.producer := by
      rw [producer]
      exact safe.window
    have same : toLight block.header = s'.producer.tip := by
      rw [header, producer]
      exact isTip
    have atLeast : args.fromBlock ≤ s.producer.tip.number := by
      rw [← again]
      exact resumable.low
    have took : Took canon s' (s'.take args (.block block) env) _ _ ∨
        Took canon s' (s'.take args (.block block) env) _ _ := took_again on same
    rw [producer, ← isTip] at took
    rcases took with skipped | repeated
    · refine settle _ skipped ?_
      rw [List.append_nil, isTip]
      exact safe.emitted
    · refine settle _ repeated ?_
      rw [isTip]
      exact safe.emitted.again safe.window.tip atLeast

/-- The heartbeat or the pending read of a connection. -/
theorem Safe.onRace {anchor : Light} {conn : HotConnection} {beat : Bool}
    (fork : NeverForks canon anchor) (starts : args.fromBlock = anchor.number + 1)
    (safe : Safe args canon s) (racing : s.stream.phase = .racing conn) :
    Safe args canon (s.onRace args conn beat env) := by
  have phase := safe.phase
  rw [racing] at phase
  obtain ⟨resumable, upcoming⟩ := phase
  have waiting : ∀ num conn, s.stream.phase ≠ .yielded num conn := by
    intro num conn at_
    rw [racing] at at_
    cases at_
  unfold Feed.onRace raceHeartbeat
  cases beat with
  | true => exact safe.tick waiting
  | false =>
      rw [if_neg nofun]
      cases read : conn.readerP with
      | done => exact safe.reconnect resumable
      | rejected e => exact safe.reconnect resumable
      | line text =>
          rw [read] at upcoming
          unfold Feed.onLine
          cases upcoming with
          | torn bad =>
              simp only [bad]
              exact safe.reconnect resumable
          | block parsed readBatch served rest =>
              simp only [parsed, readBatch]
              exact safe.onBatch fork starts resumable served rest.next

end Invariant

/-! ## Runs -/

/-- The one thing left out: the filter is found changed behind a block that was final before it
was delivered, so that its delivery has pruned its parent. -/
def RevisesUnfinalized (s : Feed) : FeedAction → Prop
  | .resume => ∀ num conn taken, s.stream.phase = .yielded num conn →
      s.history.getLast? = some taken → s.logsRevision ≠ conn.openedRev →
      taken.anchor.number < num
  | _ => True

/-- What delivery owes: the emitted blocks are the first ones of the chain from `fromBlock` on, in
order, each once apart from awaited redeliveries; and the run has not failed for want of a resume
parent's hash or of a known parent. -/
structure Lossless (args : HotArgs) (canon : Int → Option Light) (s : Feed) : Prop where
  exact : ∃ blocks, Once s.emissions blocks ∧
    ∀ (i : Nat) b, blocks[i]? = some b → canon (args.fromBlock + i) = some b
  resumes : ∀ parent cursor floor, s.stop ≠ some (.shell (.noResumeParent parent cursor floor))
  parented : ∀ b, s.stop ≠ some (.producer (.unknownParent b))

/-- A heartbeat takes no line, and emits no block. -/
def TicksFreely (args : HotArgs) (s : Feed) : Prop :=
  ∀ env t, s.step args (.race true env) = some t →
    t.stream = s.stream ∧ t.emissions = s.emissions

section Runs

variable {args : HotArgs} {canon : Int → Option Light} {s t : Feed} {a : FeedAction}
  {anchor : Light}

theorem Safe.lossless (safe : Safe args canon s) : Lossless args canon s := by
  obtain ⟨blocks, once, onChain, -⟩ := safe.emitted
  exact ⟨⟨blocks, once, onChain⟩, safe.resumes, safe.parented⟩

theorem Safe.ticksFreely (safe : Safe args canon s) : TicksFreely args s := by
  intro env t taken
  obtain ⟨-, stepped⟩ := Feed.step_cases taken
  cases stepped with
  | race racing =>
      have tick : Took canon s (s.take args .tick env) [] s.producer.tip := took_tick safe.window
      exact ⟨tick.stream, tick.emissions.trans (List.append_nil _)⟩

/-- The start. -/
theorem Safe.start (fork : NeverForks canon anchor) (starts : args.fromBlock = anchor.number + 1)
    (now : Int) : Safe args canon (.start args anchor now) where
  window := by
    refine ⟨List.isChain_singleton _, ?_⟩
    intro b mem
    obtain rfl := List.mem_singleton.1 mem
    exact fork.anchored
  emitted := by
    refine ⟨[], .nil, nofun, ?_⟩
    show anchor.number = args.fromBlock + 0 - 1
    omega
  ring := by
    refine ⟨?_, OrdMap.get?_set_self _ _ _⟩
    intro h v held
    have here := fork.anchored
    rw [OnChain] at here
    simp only [Feed.start, OrdMap.get?_set] at held
    split at held
    · rename_i same
      rw [same, here]
      exact ⟨Int.le_refl _, held⟩
    · cases held
  armed := rfl
  phase := by
    have below : args.fromBlock - 1 = anchor.number := by omega
    refine ⟨Int.le_refl _, .inl starts, ?_⟩
    simp only [Feed.start, below, OrdMap.get?_set_self, Option.isSome_some]
  resumes := nofun
  parented := nofun

/-- After a block: the connection goes on, or the stream re-opens from the block. -/
theorem Safe.onResume {num : Int} {conn : HotConnection} (safe : Safe args canon s)
    (yielded : s.stream.phase = .yielded num conn)
    (revises : RevisesUnfinalized s .resume) : Safe args canon (s.onResume num conn) := by
  have phase := safe.phase
  rw [yielded] at phase
  obtain ⟨consuming, upcoming⟩ := phase
  unfold Feed.onResume
  by_cases changed : s.logsRevision ≠ conn.openedRev
  · rw [if_pos changed]
    obtain ⟨taken, last⟩ : ∃ taken, s.history.getLast? = some taken :=
      ⟨_, List.getLast?_eq_some_getLast consuming.taken⟩
    have above := revises num conn taken yielded last changed
    exact ⟨safe.window, safe.emitted, safe.ring, safe.armed,
      ⟨consuming.low, .inr consuming.isTip, consuming.parent taken last above⟩, safe.resumes,
      safe.parented⟩
  · rw [if_neg changed]
    have resumable : Resumable args.fromBlock s.producer.tip s.stream.shell := by
      have low := consuming.low
      have isTip := consuming.isTip
      refine ⟨?_, ?_, ?_⟩
      · rw [consuming.cursor]
        omega
      · rw [consuming.cursor]
        omega
      · rw [consuming.cursor, Int.add_sub_cancel, isTip, safe.ring.tip]
        rfl
    exact ⟨safe.window, safe.emitted, safe.ring, safe.armed, ⟨resumable, upcoming⟩, safe.resumes,
      safe.parented⟩

/-- One step, by what the environment does. -/
theorem Safe.step (fork : NeverForks canon anchor) (starts : args.fromBlock = anchor.number + 1)
    (safe : Safe args canon s) (honest : Honest args canon s a) (revises : RevisesUnfinalized s a)
    (taken : s.step args a = some t) : Safe args canon t := by
  obtain ⟨-, stepped⟩ := Feed.step_cases taken
  cases stepped with
  | request atTop => exact safe.onRequest atTop honest
  | race racing => exact safe.onRace fork starts racing
  | resume yielded => exact safe.onResume yielded revises
  | revise =>
      exact ⟨safe.window, safe.emitted, safe.ring, safe.armed, safe.phase, safe.resumes,
        safe.parented⟩
  | abort => exact ⟨safe.window, safe.emitted, safe.ring, safe.armed, safe.phase, nofun, nofun⟩

/-- Re-opened from a block that was final before, the stream has no parent hash to send. -/
theorem Safe.misses {u : Feed} {res : Option HotResponse} {env : Env} (safe : Safe args canon s)
    (final : ¬ RevisesUnfinalized s a) (taken : s.step args a = some t)
    (request : t.step args (.request res env) = some u) : ¬ Lossless args canon u := by
  obtain ⟨-, stepped⟩ := Feed.step_cases taken
  cases stepped with
  | @resume num conn yielded =>
      have below : ∃ taken, s.history.getLast? = some taken ∧ s.logsRevision ≠ conn.openedRev ∧
          num ≤ taken.anchor.number := by
        by_contra none_
        refine final fun num' conn' taken yielded' last changed => ?_
        rw [yielded] at yielded'
        cases yielded'
        by_contra low
        exact none_ ⟨taken, last, changed, Int.not_lt.1 low⟩
      obtain ⟨taken, last, changed, low⟩ := below
      have phase := safe.phase
      rw [yielded] at phase
      have gone := phase.1.pruned taken last low
      have armed := safe.armed
      rw [Feed.onResume, if_pos changed] at request
      obtain ⟨-, stepped⟩ := Feed.step_cases request
      cases stepped with
      | request atTop =>
          intro lossless
          refine lossless.resumes (num - 1) num s.floor ?_
          unfold Feed.onRequest resumeParent
          simp only [Feed.enter, Feed.withShell, gone, armed, and_self, if_true]
          rfl
  | request atTop => exact absurd trivial final
  | race racing => exact absurd trivial final
  | revise => exact absurd trivial final
  | abort => exact absurd trivial final

/-- Along every run that never re-opens behind a block that was final before its delivery, delivery
is lossless and ticks are free; and the run is lost at the first request after such a re-open. -/
theorem delivery_lossless (fork : NeverForks canon anchor)
    (starts : args.fromBlock = anchor.number + 1) (now : Int)
    (reached : Machine.Reach (Feed.step args)
      (fun s a => Honest args canon s a ∧ RevisesUnfinalized s a) (.start args anchor now) s) :
    Lossless args canon s ∧ TicksFreely args s ∧
      ∀ a t res env u, ¬ RevisesUnfinalized s a → s.step args a = some t →
        t.step args (.request res env) = some u → ¬ Lossless args canon u := by
  have safe : Safe args canon s := by
    refine reached.invariant (.start fork starts now) ?_
    intro s a t _ safe may taken
    exact safe.step fork starts may.1 may.2 taken
  exact ⟨safe.lossless, safe.ticksFreely, fun a t res env u final taken request =>
    safe.misses final taken request⟩

end Runs

/-! Block 100 is delivered on the anchor 99, finalized while it is consumed, and awaited again. Its
redelivery prunes 99; a second change of the filter then finds no resume parent. -/

def block99 : Light := ⟨99, "0x63", "0x62", 990⟩

def batch100 : HotBatch := ⟨⟨100, "0x64", "0x63", 1000, []⟩, [], [], none, none⟩

def shortChain (h : Int) : Option Light :=
  if h = 99 then some block99 else if h = 100 then some (toLight batch100.header) else none

def line100 : Text := "\x7b\"header\":\x7b\"number\":100\x7d\x7d".toList

/-- The one line of the chain, cut behind some bytes. -/
def body100 (cut : Nat) : Body :=
  ⟨inReads [7] (decodeBytes cut (joinLines [line100])).1,
    (decodeBytes cut (joinLines [line100])).2, none⟩

def shortArgs : HotArgs where
  fromBlock := 100
  events := {}
  readBatch := fun v => if Client.headerNumber v = some 100 then some batch100 else none
  freshnessHooks := false

def final100 (now : Int) : Env where
  shouldRedeliver := fun hash => hash = "0x64"
  deliveredAt := now
  now := now
  finalizedHead := some ⟨100, some "0x64"⟩

def answer100 (cut : Nat) : Option HotResponse := some ⟨200, some (body100 cut), none, false⟩

/-- A cut in the line, an empty answer, a tick, the block, and its awaited redelivery. -/
def awaitedRun : List FeedAction :=
  [.request (answer100 9) (final100 1), .race false (final100 2),
    .request (some ⟨204, none, none, false⟩) (final100 3), .request (answer100 99) (final100 4),
    .race true (final100 5), .race false (final100 5000), .revise, .resume,
    .request (answer100 99) (final100 5001), .race false (final100 5002)]

/-- The filter changes again behind the redelivery. -/
def revisedRun : List FeedAction := awaitedRun ++ [.revise, .resume, .request none (final100 5003)]

theorem shortChain_neverForks : NeverForks shortChain block99 := by
  have heights : ∀ h b, shortChain h = some b →
      h = 99 ∧ b = block99 ∨ h = 100 ∧ b = toLight batch100.header := by
    intro h b found
    unfold shortChain at found
    split at found
    · rename_i here
      cases found
      exact .inl ⟨here, rfl⟩
    · split at found
      · rename_i here
        cases found
        exact .inr ⟨here, rfl⟩
      · cases found
  refine ⟨⟨?_, ?_⟩, rfl, ?_⟩
  · intro h b found
    rcases heights h b found with ⟨rfl, rfl⟩ | ⟨rfl, rfl⟩
    · rfl
    · rfl
  · intro h b above found
    rcases heights h b found with ⟨rfl, rfl⟩ | ⟨rfl, rfl⟩
    · exact absurd above (by decide)
    · exact ⟨block99, rfl, rfl⟩
  · intro a b onA onB same
    rcases heights _ a onA with ⟨-, rfl⟩ | ⟨-, rfl⟩
    · rcases heights _ b onB with ⟨-, rfl⟩ | ⟨-, rfl⟩
      · rfl
      · exact absurd same (by decide)
    · rcases heights _ b onB with ⟨-, rfl⟩ | ⟨-, rfl⟩
      · exact absurd same (by decide)
      · rfl

theorem line100_accepted : (JSON.parse line100).isSome = true := by decide +kernel

theorem body100_honest (cut : Nat) : HonestBody shortArgs shortChain 100 (body100 cut) := by
  refine ⟨[line100], cut, [7], none, ⟨⟨by decide +kernel, ?_⟩, trivial⟩, rfl⟩
  have object : ((JSON.parse line100).get line100_accepted).isObject = true := by decide +kernel
  have number : Client.headerNumber ((JSON.parse line100).get line100_accepted) = some 100 := by
    decide +kernel
  have parsed := (Option.some_get line100_accepted).symm
  generalize (JSON.parse line100).get line100_accepted = v at object number parsed
  exact ⟨v, batch100, parsed, object, by simp only [shortArgs, if_pos number], rfl⟩

/-- The answers of the two runs. -/
def answers100 (s : Feed) : FeedAction → Bool
  | .request (some res) _ =>
      res.status ≠ 409 && (res.body = none || s.stream.shell.cursor = 100 &&
        (res.body = some (body100 9) || res.body = some (body100 99)))
  | _ => true

/-- Where the filter is found changed, the block was not final. -/
def unfinal (s : Feed) : FeedAction → Bool
  | .resume =>
      match s.stream.phase, s.history.getLast? with
      | .yielded num _, some taken => taken.anchor.number < num
      | _, _ => true
  | _ => true

theorem honest_of_answers {s : Feed} {a : FeedAction} (answers : answers100 s a = true) :
    Honest shortArgs shortChain s a := by
  cases a with
  | request res env =>
      cases res with
      | none => trivial
      | some res =>
          simp only [answers100, Bool.and_eq_true, Bool.or_eq_true, decide_eq_true_eq] at answers
          obtain ⟨accepted, bodies⟩ := answers
          refine ⟨fun conflict => absurd conflict accepted, ?_⟩
          intro body _ _ found
          rw [found] at bodies
          rcases bodies with none_ | ⟨cursor, cut | whole⟩
          · cases none_
          · rw [cursor, Option.some.inj cut]
            exact body100_honest 9
          · rw [cursor, Option.some.inj whole]
            exact body100_honest 99
  | race beat env => trivial
  | resume => trivial
  | revise => trivial
  | abort => trivial

theorem revises_of_unfinal {s : Feed} {a : FeedAction} (checked : unfinal s a = true) :
    RevisesUnfinalized s a := by
  cases a with
  | resume =>
      intro num conn taken yielded last _
      simp only [unfinal, yielded, last, decide_eq_true_eq] at checked
      exact checked
  | request res env => trivial
  | race beat env => trivial
  | revise => trivial
  | abort => trivial

/-- The state after a list of actions of a run. -/
def feedAfter (as : List FeedAction)
    (runs : (Machine.replay (Feed.step shortArgs) (.start shortArgs block99 0) as).isSome = true) :
    Feed :=
  (Machine.replay (Feed.step shortArgs) (.start shortArgs block99 0) as).get runs

theorem awaitedRun_runs :
    (Machine.replay (Feed.step shortArgs) (.start shortArgs block99 0) awaitedRun).isSome = true := by
  decide +kernel

theorem revisedRun_runs :
    (Machine.replay (Feed.step shortArgs) (.start shortArgs block99 0) revisedRun).isSome = true := by
  decide +kernel

theorem delivery_lossless_sample :
    Lossless shortArgs shortChain (feedAfter awaitedRun awaitedRun_runs) ∧
      (feedAfter awaitedRun awaitedRun_runs).emissions =
        [(toLight batch100.header, true), (toLight batch100.header, true)] := by
  have allowed : Machine.AllAllowed (Feed.step shortArgs)
      (fun s a => answers100 s a = true ∧ unfinal s a = true) (.start shortArgs block99 0)
      awaitedRun := by decide +kernel
  have run := Machine.Reach.init.replay allowed (Option.some_get awaitedRun_runs).symm
  refine ⟨(delivery_lossless shortChain_neverForks rfl 0 (run.mono ?_)).1, by decide +kernel⟩
  exact fun s a may => ⟨honest_of_answers may.1, revises_of_unfinal may.2⟩

/-- Behind a redelivery of a final block, the stream misses its resume parent. -/
theorem final_redelivery_stops :
    NeverForks shortChain block99 ∧ shortArgs.fromBlock = block99.number + 1 ∧
      Machine.Reach (Feed.step shortArgs) (Honest shortArgs shortChain)
        (.start shortArgs block99 0) (feedAfter revisedRun revisedRun_runs) ∧
      (feedAfter revisedRun revisedRun_runs).stop = some (.shell (.noResumeParent 99 100 100)) ∧
      ¬ Lossless shortArgs shortChain (feedAfter revisedRun revisedRun_runs) := by
  have allowed : Machine.AllAllowed (Feed.step shortArgs)
      (fun s a => answers100 s a = true) (.start shortArgs block99 0) revisedRun := by
    decide +kernel
  have run := Machine.Reach.init.replay allowed (Option.some_get revisedRun_runs).symm
  have stop : (feedAfter revisedRun revisedRun_runs).stop =
      some (.shell (.noResumeParent 99 100 100)) := by decide +kernel
  refine ⟨shortChain_neverForks, rfl, run.mono fun s a may => honest_of_answers may, stop, ?_⟩
  exact fun lossless => lossless.resumes _ _ _ stop

end PortalPonder.Realtime
