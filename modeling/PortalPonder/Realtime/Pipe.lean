import PortalPonder.Realtime.Survivors
import PortalPonder.Realtime.WireRules
import PortalPonder.Lib.Machine

/-!
# The producer and the wire

The wire pulls the producer: the producer runs through one item of the stream, and the wire takes
the events one at a time before the next item is asked for. When a turn begins, the producer reads
from the wire which block is awaited. `Pipe` is the state of both with the events between them;
what was taken and what was forwarded is remembered.

`offered_turn` says what the handshake achieves: a block event is new, or it is the first event of
its turn and the redelivery of the awaited block.
-/

namespace PortalPonder.Realtime

variable {F : Type} [DecidableEq F]

/-- The wire has refused a block. -/
def Lost : Option WireStop → Prop
  | some (.lostRedelivery ..) => True
  | _ => False

instance : DecidablePred Lost
  | none => isFalse fun lost => lost
  | some (.lostRedelivery ..) => isTrue trivial
  | some .completed => isFalse fun lost => lost

def WireState.awaits (s : WireState F) (hash : Hash) : Bool := s.awaiting.any fun a => a.hash = hash

structure Pipe (F : Type) where
  producer : EventState
  /-- the producer has thrown -/
  ended : Bool
  /-- yielded by the producer, and not yet taken -/
  pending : List PortalRealtimeEvent
  wire : WireState F
  stop : Option WireStop
  consumed : List PortalRealtimeEvent
  forwarded : List (RealtimeSyncEvent F)

inductive PipeAction where
  /-- the next item of the stream, which may have widened requests before -/
  | turn (item : HotItem) (env : Env) (wildcardLogKeys : List (WildcardLogRequestKey Hex))
  /-- the wire takes the next event -/
  | consume

namespace Pipe

def start (args : WireArgs F) (base : Historical.Children F Address) (anchor : Light) (now : Int) :
    Pipe F where
  producer := .start anchor now
  ended := false
  pending := []
  wire := .start args base
  stop := none
  consumed := []
  forwarded := []

/-- The redelivery handshake. -/
def handshake (s : WireState F) (env : Env) : Env := { env with shouldRedeliver := s.awaits }

def onTurn (eventArgs : EventArgs) (p : Pipe F) (item : HotItem) (env : Env)
    (wildcardLogKeys : List (WildcardLogRequestKey Hex)) : Option (Pipe F) :=
  if p.ended = true ∨ p.pending ≠ [] ∨ p.stop ≠ none then none
  else
    let t := (turn eventArgs (item, handshake p.wire env)).run p.producer
    some { p with
      producer := t.state
      ended := (Turn.stop t).isSome
      pending := t.events
      wire := { p.wire with wildcardLogKeys := wildcardLogKeys } }

/-- A refused block is not taken. -/
def onConsume (args : WireArgs F) (p : Pipe F) : Option (Pipe F) :=
  if p.stop ≠ none then none
  else
    match p.pending with
    | [] => none
    | e :: rest =>
        let t := (onEvent args e).run p.wire
        some { p with
          pending := rest
          wire := t.state
          stop := Turn.stop t
          consumed := if Lost (Turn.stop t) then p.consumed else p.consumed ++ [e]
          forwarded := p.forwarded ++ t.events }

def step (eventArgs : EventArgs) (args : WireArgs F) (p : Pipe F) : PipeAction → Option (Pipe F)
  | .turn item env wildcardLogKeys => p.onTurn eventArgs item env wildcardLogKeys
  | .consume => p.onConsume args

/-- Only blocks of the chain are delivered. -/
def Delivers (K : Light → Prop) (_ : Pipe F) : PipeAction → Prop
  | .turn (.block batch) _ _ => K (toLight batch.header)
  | _ => True

end Pipe

section Inversion

variable {eventArgs : EventArgs} {args : WireArgs F} {p q : Pipe F}

omit [DecidableEq F] in
/-- A turn begins when everything was taken. -/
theorem onTurn_cases {item : HotItem} {env : Env} {keys : List (WildcardLogRequestKey Hex)}
    (taken : p.onTurn eventArgs item env keys = some q) : p.pending = [] ∧ p.stop = none ∧
      q = { p with
        producer := ((turn eventArgs (item, Pipe.handshake p.wire env)).run p.producer).state
        ended := (Turn.stop ((turn eventArgs (item, Pipe.handshake p.wire env)).run
          p.producer)).isSome
        pending := ((turn eventArgs (item, Pipe.handshake p.wire env)).run p.producer).events
        wire := { p.wire with wildcardLogKeys := keys } } := by
  unfold Pipe.onTurn at taken
  split at taken
  · cases taken
  · next idle =>
    obtain ⟨-, nonePending, running⟩ := not_or.1 idle |>.imp_right not_or.1
    exact ⟨not_not.1 nonePending, not_not.1 running, (Option.some.inj taken).symm⟩

/-- What the wire does with the next event. -/
theorem onConsume_cases (taken : p.onConsume args = some q) : ∃ e rest outs w' stop,
    p.pending = e :: rest ∧ Handled args p.wire e outs w' stop ∧
      q = { p with
        pending := rest
        wire := w'
        stop := stop
        consumed := if Lost stop then p.consumed else p.consumed ++ [e]
        forwarded := p.forwarded ++ outs } := by
  unfold Pipe.onConsume at taken
  split at taken
  · cases taken
  · cases pending : p.pending with
    | nil => rw [pending] at taken; cases taken
    | cons e rest =>
        rw [pending] at taken
        obtain rfl := Option.some.inj taken
        exact ⟨e, rest, _, _, _, rfl, onEvent_handled e, rfl⟩

end Inversion

/-! ## What a turn offers -/

/-- A block event extends the log. -/
def Fresh (log : EventLog) : PortalRealtimeEvent → Prop
  | .block block .. => Extends (tipOf log.anchor log.window) (ofBlock block)
  | _ => True

/-- Events that are legal one after the other, and whose blocks are new. -/
def FreshRun : EventLog → List PortalRealtimeEvent → Prop
  | _, [] => True
  | log, e :: rest => log.Legal e ∧ Fresh log e ∧ FreshRun (log.apply e) rest

/-- A new block, or the awaited one again. -/
def FreshOrAwaited (awaits : Hash → Bool) (log : EventLog) : PortalRealtimeEvent → Prop
  | .block block .. => Extends (tipOf log.anchor log.window) (ofBlock block) ∨
      (ofBlock block).hash = (tipOf log.anchor log.window).hash ∧ awaits block.hash = true
  | _ => True

/-- The events of a turn: only the first may be a redelivery. -/
def Offered (awaits : Hash → Bool) (log : EventLog) : List PortalRealtimeEvent → Prop
  | [] => True
  | e :: rest => log.Legal e ∧ FreshOrAwaited awaits log e ∧ FreshRun (log.apply e) rest

theorem FreshRun.offered {log : EventLog} {events : List PortalRealtimeEvent} (awaits : Hash → Bool)
    (fresh : FreshRun log events) : Offered awaits log events := by
  cases events with
  | nil => trivial
  | cons e rest =>
      obtain ⟨legal, new, tail⟩ := fresh
      refine ⟨legal, ?_, tail⟩
      cases e with
      | block block logs transactions hasMatchedFilter batchId batchSize => exact .inl new
      | reorg ancestor reorgedBlocks => trivial
      | finalize b => trivial

def IsFinalize : PortalRealtimeEvent → Prop
  | .finalize _ => True
  | _ => False

theorem FreshRun.of_finalizes {log : EventLog} {events : List PortalRealtimeEvent}
    (legal : LegalRun log events) (finalizes : ∀ e ∈ events, IsFinalize e) :
    FreshRun log events := by
  induction events generalizing log with
  | nil => trivial
  | cons e rest ih =>
      refine ⟨legal.1, ?_, ih legal.2 fun x mem => finalizes x (List.mem_cons_of_mem e mem)⟩
      have isFinalize := finalizes e List.mem_cons_self
      cases e with
      | finalize b => trivial
      | block block logs transactions hasMatchedFilter batchId batchSize => cases isFinalize
      | reorg ancestor reorgedBlocks => cases isFinalize

/-- The finalize cadence yields finalizes only. -/
theorem cadence_finalizes (args : EventArgs) (env : Env) (s : EventState) :
    ∀ e ∈ ((runFinalizeCadence args env).run s).events, IsFinalize e := by
  let view : Gen.View PortalRealtimeEvent Unit := ⟨fun _ _ => (), fun _ e => IsFinalize e⟩
  have free : ClockFree (fun (_ : Unit) (_ : EventState) => True) fun _ _ => True :=
    ⟨fun _ _ _ => trivial, fun _ _ _ => trivial⟩
  have spec : Gen.Spec view (fun _ _ => True) (fun _ _ => True) (runFinalizeCadence args env)
      (fun _ _ _ => True) fun _ _ => True := by
    refine spec_runFinalizeCadence free fun fh a tip _ _ => ?_
    refine Gen.Spec.bind (Q := fun _ _ _ => True) ?_ fun _ => ?_
    · exact Gen.Spec.modify fun _ _ _ => trivial
    · exact Gen.Spec.yield (fun _ _ _ => trivial) (fun _ _ _ => trivial) fun _ _ _ => trivial
  have lock := (spec () s trivial).1
  have all : ∀ trace : List (PortalRealtimeEvent × EventState),
      view.Lockstep (fun _ _ => True) () trace → ∀ e ∈ trace.map Prod.fst, IsFinalize e := by
    intro trace
    induction trace with
    | nil =>
        intro _ e mem
        cases mem
    | cons head rest ih =>
        intro lock e mem
        rcases List.mem_cons.1 mem with rfl | later
        · exact lock.1
        · exact ih lock.2.2 e later
  exact all _ lock

/-- The delivery of a block: nothing, or the block and then finalizes. -/
theorem emit_events (args : EventArgs) (env : Env) (batch : HotBatch) (s : EventState) :
    ∃ finalizes, ((emitBlock args env batch >>= fun _ => runFinalizeCadence args env).run s).events =
        blockEvent args batch :: finalizes ∧ ∀ e ∈ finalizes, IsFinalize e := by
  let s' : EventState := { s with
    lastDeliveryMs := env.deliveredAt
    deliveryBaseline := some (raiseBaseline s.deliveryBaseline batch.header.number) }
  exact ⟨_, rfl, cadence_finalizes args env s'⟩

theorem appendBlock_silent (args : EventArgs) (light : Light) (s : EventState) :
    ∃ s' outcome, (appendBlock args light).run s = ⟨[], s', outcome⟩ := by
  unfold appendBlock
  simp only [Gen.run_bind, Gen.run_get, List.nil_append]
  split
  · exact ⟨_, _, rfl⟩
  · exact ⟨_, _, rfl⟩

theorem append_events (args : EventArgs) (env : Env) (batch : HotBatch) (s : EventState) :
    let events := ((appendBlock args (toLight batch.header) >>= fun _ =>
      emitBlock args env batch >>= fun _ => runFinalizeCadence args env).run s).events
    events = [] ∨ ∃ finalizes, events = blockEvent args batch :: finalizes ∧
      ∀ e ∈ finalizes, IsFinalize e := by
  intro events
  obtain ⟨s', outcome, run⟩ := appendBlock_silent args (toLight batch.header) s
  cases outcome with
  | error r => exact .inl (congrArg Turn.events (Gen.run_bind_error run))
  | ok _ =>
      obtain ⟨finalizes, emitted, all⟩ := emit_events args env batch s'
      exact .inr ⟨finalizes, (congrArg Turn.events (Gen.run_bind_ok run)).trans emitted, all⟩

/-- What a delivery yields, by the answer of `reconcile`. -/
theorem deliver_events (args : EventArgs) (env : Env) (batch : HotBatch) (s : EventState) :
    let events := ((deliver args env batch).run s).events
    match reconcile s.unfinalized (toLight batch.header) s.anchor with
    | .duplicate => events = [] ∨ env.shouldRedeliver (toLight batch.header).hash = true ∧
        ∃ finalizes, events = blockEvent args batch :: finalizes ∧ ∀ e ∈ finalizes, IsFinalize e
    | .gap => events = []
    | .append => events = [] ∨ ∃ finalizes, events = blockEvent args batch :: finalizes ∧
        ∀ e ∈ finalizes, IsFinalize e
    | .reorg commonAncestor reorgedBlocks => events = [.reorg commonAncestor reorgedBlocks] ∨
        ∃ finalizes, events = .reorg commonAncestor reorgedBlocks :: blockEvent args batch ::
          finalizes ∧ ∀ e ∈ finalizes, IsFinalize e := by
  intro events
  have run : (deliver args env batch).run s =
      (match reconcile s.unfinalized (toLight batch.header) s.anchor with
      | .duplicate =>
          if env.shouldRedeliver (toLight batch.header).hash then do
            emitBlock args env batch
            runFinalizeCadence args env
          else pure ()
      | .gap => Gen.throw (.unknownParent (toLight batch.header))
      | .append => do
          appendBlock args (toLight batch.header)
          emitBlock args env batch
          runFinalizeCadence args env
      | .reorg commonAncestor reorgedBlocks => do
          Gen.modify fun s =>
            { s with unfinalized := trimAbove commonAncestor.number s.unfinalized }
          Gen.yield (.reorg commonAncestor reorgedBlocks)
          appendBlock args (toLight batch.header)
          emitBlock args env batch
          runFinalizeCadence args env : EventGen Unit).run s := by
    unfold deliver
    rw [Gen.run_bind_ok (Gen.run_get s)]
    rfl
  have same : events = Turn.events _ := congrArg Turn.events run
  rw [same]
  cases reconcile s.unfinalized (toLight batch.header) s.anchor with
  | duplicate =>
      dsimp only
      by_cases awaited : env.shouldRedeliver (toLight batch.header).hash = true
      · rw [if_pos awaited]
        exact .inr ⟨awaited, emit_events args env batch s⟩
      · rw [if_neg awaited]
        exact .inl rfl
  | gap => rfl
  | append => exact append_events args env batch s
  | reorg commonAncestor reorgedBlocks =>
      let s' : EventState :=
        { s with unfinalized := trimAbove commonAncestor.number s.unfinalized }
      show .reorg commonAncestor reorgedBlocks ::
          ((appendBlock args (toLight batch.header) >>= fun _ =>
            emitBlock args env batch >>= fun _ => runFinalizeCadence args env).run s').events = _ ∨ _
      rcases append_events args env batch s' with none_ | ⟨finalizes, emitted, all⟩
      · rw [none_]
        exact .inl rfl
      · refine .inr ⟨finalizes, ?_, all⟩
        rw [← emitted]
        rfl

/-- What follows a legal event, when only finalizes do. -/
theorem FreshRun.after {log : EventLog} {e : PortalRealtimeEvent}
    {finalizes : List PortalRealtimeEvent} (legal : LegalRun log (e :: finalizes))
    (all : ∀ x ∈ finalizes, IsFinalize x) : FreshRun (log.apply e) finalizes :=
  .of_finalizes legal.2 all

/-- The handshake: every block of a turn is new, or the awaited one. -/
theorem offered_turn {K : Light → Prop} (coherent : Coherent K) (args : EventArgs) (env : Env)
    {item : HotItem} {log : EventLog} {s : EventState} (tracks : Tracks K log s)
    (known : ∀ b, item.light? = some b → K b) :
    Offered env.shouldRedeliver log ((turn args (item, env)).run s).events ∧
      Tracks K (((turn args (item, env)).run s).events.foldl EventLog.apply log)
        ((turn args (item, env)).run s).state := by
  cases item with
  | tick =>
      have spec : Gen.Spec eventView Agrees (Tracks K) (runFinalizeCadence args env)
          (fun _ => Tracks K) (Tracks K) := tracks_cadence coherent
      refine ⟨?_, spec.final tracks⟩
      have legal := legalRun_of_lockstep (spec _ _ tracks).1
      exact (FreshRun.of_finalizes legal (cadence_finalizes args env s)).offered _
  | block batch =>
      have lightKnown : K (toLight batch.header) := known _ rfl
      have spec : Gen.Spec eventView Agrees (Tracks K) (deliver args env batch)
          (fun _ => Tracks K) (Tracks K) := tracks_deliver coherent batch lightKnown
      refine ⟨?_, spec.final tracks⟩
      have legal := legalRun_of_lockstep (spec _ _ tracks).1
      have events := deliver_events args env batch s
      have answers := reconcile_cases s.unfinalized (toLight batch.header) s.anchor
      obtain ⟨rfl, inv⟩ := tracks
      have extends_ : ∀ kept, (∀ b ∈ s.anchor :: kept, K b) →
          (toLight batch.header).parentHash = (tipOf s.anchor kept).hash →
          Extends (tipOf s.anchor kept) (toLight batch.header) := fun kept keptKnown parent =>
        ⟨parent, coherent.parentBelow _ lightKnown _ (keptKnown _ (tipOf_mem _ _)) parent⟩
      show Offered env.shouldRedeliver s.log ((deliver args env batch).run s).events
      change LegalRun s.log ((deliver args env batch).run s).events at legal
      generalize ((deliver args env batch).run s).events = yielded at events legal ⊢
      generalize reconcile s.unfinalized (toLight batch.header) s.anchor = answer at answers events
      cases answers with
      | duplicate dup =>
          rcases events with rfl | ⟨awaited, finalizes, rfl, all⟩
          · trivial
          · refine ⟨legal.1, .inr ⟨?_, awaited⟩, .after legal all⟩
            rw [ofBlock_toSyncBlockHeader]
            exact dup
      | gap notTip orphan =>
          rw [show yielded = [] from events]
          trivial
      | append notTip parent =>
          rcases events with rfl | ⟨finalizes, rfl, all⟩
          · trivial
          · refine ⟨legal.1, .inl ?_, .after legal all⟩
            rw [ofBlock_toSyncBlockHeader]
            exact extends_ _ inv.known parent
      | @reorg kept reorged notTip splits nonempty parent noParent =>
          rcases events with rfl | ⟨finalizes, rfl, all⟩
          · exact ⟨legal.1, trivial, trivial⟩
          · have keptKnown : ∀ b ∈ s.anchor :: kept, K b := by
              intro b mem
              refine inv.known b ?_
              rw [splits, ← List.cons_append]
              exact List.mem_append_left _ mem
            have linked := inv.linked
            have knownAll := inv.known
            rw [splits] at linked knownAll
            have folded : s.log.apply (.reorg (tipOf s.anchor kept) reorged) =
                ⟨kept, s.anchor⟩ := by
              rw [EventState.log, splits]
              exact apply_reorg coherent linked knownAll
            refine ⟨legal.1, trivial, legal.2.1, ?_, .after legal.2 all⟩
            rw [folded]
            show Extends (tipOf s.anchor kept) (ofBlock (toSyncBlockHeader batch.header))
            rw [ofBlock_toSyncBlockHeader]
            exact extends_ kept keptKnown parent

/-- Its block is one of the chain. -/
def Known (K : Light → Prop) : PortalRealtimeEvent → Prop
  | .block block .. => K (ofBlock block)
  | _ => True

theorem Known.of_finalize {K : Light → Prop} {e : PortalRealtimeEvent} (isFinalize : IsFinalize e) :
    Known K e := by
  cases e with
  | finalize b => trivial
  | block block logs transactions hasMatchedFilter batchId batchSize => cases isFinalize
  | reorg ancestor reorgedBlocks => cases isFinalize

/-- The blocks of a turn are blocks of the chain. -/
theorem known_turn {K : Light → Prop} (args : EventArgs) (env : Env) {item : HotItem}
    (s : EventState) (known : ∀ b, item.light? = some b → K b) :
    ∀ e ∈ ((turn args (item, env)).run s).events, Known K e := by
  cases item with
  | tick => exact fun e mem => .of_finalize (cadence_finalizes args env s e mem)
  | block batch =>
      have blockKnown : Known K (blockEvent args batch) := by
        show K (ofBlock (toSyncBlockHeader batch.header))
        rw [ofBlock_toSyncBlockHeader]
        exact known _ rfl
      have tail : ∀ finalizes : List PortalRealtimeEvent, (∀ e ∈ finalizes, IsFinalize e) →
          ∀ e ∈ blockEvent args batch :: finalizes, Known K e := by
        intro finalizes all e mem
        rcases List.mem_cons.1 mem with rfl | later
        · exact blockKnown
        · exact .of_finalize (all e later)
      have events := deliver_events args env batch s
      show ∀ e ∈ ((deliver args env batch).run s).events, Known K e
      generalize ((deliver args env batch).run s).events = yielded at events
      generalize reconcile s.unfinalized (toLight batch.header) s.anchor = answer at events
      cases answer with
      | duplicate =>
          rcases events with rfl | ⟨-, finalizes, rfl, all⟩
          · simp
          · exact tail finalizes all
      | gap =>
          rw [show yielded = [] from events]
          simp
      | append =>
          rcases events with rfl | ⟨finalizes, rfl, all⟩
          · simp
          · exact tail finalizes all
      | reorg commonAncestor reorgedBlocks =>
          have ahead : Known K (.reorg commonAncestor reorgedBlocks) := trivial
          rcases events with rfl | ⟨finalizes, rfl, all⟩
          · simpa using ahead
          · intro e mem
            rcases List.mem_cons.1 mem with rfl | later
            · exact ahead
            · exact tail finalizes all e later

end PortalPonder.Realtime
