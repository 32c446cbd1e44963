import PortalPonder.Client.Stream
import PortalPonder.Lib.Machine
import PortalPonder.Realtime.Negotiation
import PortalPonder.Realtime.Events

/-!
# The block stream and its reader

`streamHotBlocks` keeps one connection at a time. It asks from its cursor, reads the lines of the
answer one by one, races every pending read against a heartbeat, and re-opens after a cut, after
an idle connection, or as soon as the log filter has changed. `portalRealtimeEvents` pulls it and
takes one item before the next is made. `Feed` is the state of both; the answers, the timing, the
probes and the changes of the filter come from outside.
-/

namespace PortalPonder.Realtime

open JSON (Text)
open Client (Body FetchError ndjsonLines)

/-- What one read of the line iterator settles to. -/
inductive LineRead where
  | line (text : Text)
  | done
  /-- cut, or silent beyond the idle bound -/
  | rejected (e : FetchError)
  deriving DecidableEq, Repr

/-- The reads of a body, in order. -/
def lineReads (body : Body) : List LineRead :=
  (ndjsonLines body).map .line ++
    [match body.failure with
      | some e => .rejected e
      | none => .done]

/-- `it.next()`. An iterator that has ended stays done. -/
def nextRead : List LineRead → LineRead × List LineRead
  | [] => (.done, [])
  | r :: rest => (r, rest)

structure HotConnection where
  /-- the one read that was asked for and has not been taken -/
  readerP : LineRead
  it : List LineRead
  openedRev : Nat
  deriving DecidableEq, Repr

/-- Where `streamHotBlocks` stands. -/
inductive Phase where
  /-- at the loop top: the next request -/
  | top
  /-- waiting for a line or a heartbeat -/
  | racing (conn : HotConnection)
  /-- suspended in the yield of a block -/
  | yielded (num : Int) (conn : HotConnection)
  deriving DecidableEq, Repr

/-- The variables of `streamHotBlocks`. -/
structure HotStream where
  shell : Shell
  phase : Phase
  streamBatchCounter : Nat

/-- An answer to a request. -/
structure HotResponse where
  status : Nat
  body : Option Body
  /-- the `previousBlocks` of a 409 -/
  previousBlocks : Option (List NumberedHash)
  /-- the body names a droppable field that has not been dropped -/
  droppable : Bool

inductive FeedStop where
  | aborted
  | shell (e : HotError)
  /-- a 4xx that no retry can cure -/
  | refused (status : Nat)
  | producer (e : RealtimeError)
  deriving DecidableEq, Repr

structure HotArgs where
  fromBlock : Int
  events : EventArgs
  /-- the typed reading of a parsed line; `none` where `batch?.header?.number` is null -/
  readBatch : JSON.Value → Option HotBatch
  freshnessHooks : Bool

/-- An item the producer took, and what it made of it. -/
structure Taken where
  item : HotItem
  env : Env
  /-- the anchor when the item was made -/
  anchor : Light
  events : List PortalRealtimeEvent

structure Feed where
  stream : HotStream
  producer : EventState
  logsRevision : Nat
  history : List Taken
  stop : Option FeedStop

inductive FeedAction where
  /-- the request and its answer; `none` when the fetch throws -/
  | request (res : Option HotResponse) (env : Env)
  /-- the heartbeat fires, or the pending read settles -/
  | race (beat : Bool) (env : Env)
  /-- the consumer asks for the item after a block -/
  | resume
  /-- the consumer changes the log filter -/
  | revise
  | abort

/-! ## The stream -/

inductive Raced where
  | tick
  | value (step : LineRead)
  deriving DecidableEq, Repr

/-- A heartbeat leaves the pending read where it is. -/
def raceHeartbeat (readerP : LineRead) (beat : Bool) : Raced :=
  if beat then .tick else .value readerP

/-- `res.ok` -/
def HotResponse.ok (res : HotResponse) : Bool := 200 ≤ res.status ∧ res.status ≤ 299

/-- The batch id, when the freshness hooks are on. -/
def stamp (hooks : Bool) (counter : Nat) (batch : HotBatch) : HotBatch :=
  if hooks then { batch with batchId := some counter, batchSize := some batch.logs.length }
  else { batch with batchId := none, batchSize := none }

namespace Feed

/-- The producer takes an item. -/
def take (args : HotArgs) (s : Feed) (item : HotItem) (env : Env) : Feed :=
  let t := (turn args.events (item, env)).run s.producer
  { s with
    producer := t.state
    history := s.history ++ [⟨item, env, s.producer.anchor, t.events⟩]
    stop :=
      match t.outcome with
      | .ok () => none
      | .error e => some (.producer e) }

/-- The finalized floor is the anchor's height. -/
def floor (s : Feed) : Int := s.producer.anchor.number

def enter (s : Feed) (phase : Phase) : Feed := { s with stream := { s.stream with phase := phase } }

def withShell (s : Feed) (shell : Shell) : Feed :=
  { s with stream := { s.stream with shell := shell } }

/-- A 200 with a body opens a connection; its first read is asked for at once. -/
def openBody (s : Feed) (body : Body) : Feed :=
  let first := nextRead (lineReads body)
  s.enter (.racing ⟨first.1, first.2, s.logsRevision⟩)

/-- One pass from the loop top up to the answer. -/
def onRequest (args : HotArgs) (s : Feed) (res : Option HotResponse) (env : Env) : Feed :=
  match resumeParent s.floor s.stream.shell with
  | .error e => { s with stop := some (.shell e) }
  | .ok _ =>
      match res with
      | none => s.take args .tick env
      | some res =>
          if res.status = 204 then s.take args .tick env
          else if res.status = 409 then
            match negotiate409 s.floor s.stream.shell res.previousBlocks with
            | .error e => { s with stop := some (.shell e) }
            | .ok shell => s.withShell shell
          else if res.ok = false then
            if 400 ≤ res.status ∧ res.status < 500 ∧ res.status ≠ 429 then
              -- without the dropped field the request is made again
              if res.droppable then s else { s with stop := some (.refused res.status) }
            else s.take args .tick env
          else
            let s := s.withShell { s.stream.shell with consecutive409 := 0 }
            match res.body with
            | none => s.take args .tick env
            | some body => s.openBody body

/-- The connection is gone: a tick, then the loop top. -/
def reconnect (args : HotArgs) (s : Feed) (env : Env) : Feed := (s.enter .top).take args .tick env

/-- A parsed line of the connection, whose next read has been asked for. -/
def onBatch (args : HotArgs) (s : Feed) (conn : HotConnection) (batch : HotBatch) (env : Env) : Feed :=
  let num : Int := batch.header.number
  let s' : Feed := { s with
    stream :=
      { shell := recordDelivery s.floor s.stream.shell num batch.header.hash
        phase := .yielded num conn
        streamBatchCounter := s.stream.streamBatchCounter + (if args.freshnessHooks then 1 else 0) } }
  s'.take args (.block (stamp args.freshnessHooks s.stream.streamBatchCounter batch)) env

def onLine (args : HotArgs) (s : Feed) (conn : HotConnection) (text : Text) (env : Env) : Feed :=
  let next := nextRead conn.it
  let conn : HotConnection := { conn with readerP := next.1, it := next.2 }
  match JSON.parse text with
  -- the throw is caught like a cut
  | none => s.reconnect args env
  | some v =>
      match args.readBatch v with
      | none => s.enter (.racing conn)
      | some batch => s.onBatch args conn batch env

def onRace (args : HotArgs) (s : Feed) (conn : HotConnection) (beat : Bool) (env : Env) : Feed :=
  match raceHeartbeat conn.readerP beat with
  | .tick => s.take args .tick env
  | .value .done => s.reconnect args env
  | .value (.rejected _) => s.reconnect args env
  | .value (.line text) => s.onLine args conn text env

/-- After a block: a changed filter re-opens from the block itself. -/
def onResume (s : Feed) (num : Int) (conn : HotConnection) : Feed :=
  if s.logsRevision ≠ conn.openedRev then
    (s.withShell { s.stream.shell with cursor := num }).enter .top
  else s.enter (.racing conn)

def step (args : HotArgs) (s : Feed) (a : FeedAction) : Option Feed :=
  if s.stop.isSome then none
  else
    match a, s.stream.phase with
    | .request res env, .top => some (s.onRequest args res env)
    | .race beat env, .racing conn => some (s.onRace args conn beat env)
    | .resume, .yielded num conn => some (s.onResume num conn)
    | .revise, _ => some { s with logsRevision := s.logsRevision + 1 }
    | .abort, .top => some { s with stop := some .aborted }
    | .abort, .racing _ => some { s with stop := some .aborted }
    | _, _ => none

/-- What a step does, by the action and the phase it is possible in. -/
inductive Stepped (args : HotArgs) (s : Feed) : FeedAction → Feed → Prop
  | request {res : Option HotResponse} {env : Env} : s.stream.phase = .top →
      Stepped args s (.request res env) (s.onRequest args res env)
  | race {beat : Bool} {env : Env} {conn : HotConnection} : s.stream.phase = .racing conn →
      Stepped args s (.race beat env) (s.onRace args conn beat env)
  | resume {num : Int} {conn : HotConnection} : s.stream.phase = .yielded num conn →
      Stepped args s .resume (s.onResume num conn)
  | revise : Stepped args s .revise { s with logsRevision := s.logsRevision + 1 }
  | abort : Stepped args s .abort { s with stop := some .aborted }

theorem step_cases {args : HotArgs} {s t : Feed} {a : FeedAction}
    (taken : s.step args a = some t) : s.stop = none ∧ Stepped args s a t := by
  unfold step at taken
  by_cases stopped : s.stop.isSome = true
  · rw [if_pos stopped] at taken
    cases taken
  rw [if_neg stopped] at taken
  refine ⟨by simpa using stopped, ?_⟩
  cases phase : s.stream.phase with
  | top =>
      rw [phase] at taken
      cases a <;> cases taken
      · exact .request phase
      · exact .revise
      · exact .abort
  | racing conn =>
      rw [phase] at taken
      cases a <;> cases taken
      · exact .race phase
      · exact .revise
      · exact .abort
  | yielded num conn =>
      rw [phase] at taken
      cases a <;> cases taken
      · exact .resume phase
      · exact .revise

/-- The ring is seeded with the anchor. -/
def start (args : HotArgs) (anchor : Light) (now : Int) : Feed where
  stream :=
    { shell :=
        { cursor := args.fromBlock
          ring := OrdMap.empty.set anchor.number anchor.hash
          consecutive409 := 0
          armed := true }
      phase := .top
      streamBatchCounter := 0 }
  producer := .start anchor now
  logsRevision := 0
  history := []
  stop := none

end Feed

/-! ## What was emitted -/

/-- The block of a block event. -/
def PortalRealtimeEvent.light? : PortalRealtimeEvent → Option Light
  | .block b .. => some (ofBlock b)
  | _ => none

/-- The blocks emitted in a turn, each with the consumer's word whether it awaits it. -/
def Taken.emissions (t : Taken) : List (Light × Bool) :=
  (t.events.filterMap PortalRealtimeEvent.light?).map fun b => (b, t.env.shouldRedeliver b.hash)

def Feed.emissions (s : Feed) : List (Light × Bool) := s.history.flatMap Taken.emissions

/-- The emissions are these blocks, each once apart from awaited redeliveries of the last. -/
inductive Once : List (Light × Bool) → List Light → Prop
  | nil : Once [] []
  | next {es : List (Light × Bool)} {blocks : List Light} (b : Light) (awaited : Bool) :
      Once es blocks → Once (es ++ [(b, awaited)]) (blocks ++ [b])
  | again {es : List (Light × Bool)} {blocks : List Light} {b : Light} :
      Once es (blocks ++ [b]) → Once (es ++ [(b, true)]) (blocks ++ [b])

end PortalPonder.Realtime
