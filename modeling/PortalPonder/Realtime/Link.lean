import PortalPonder.Realtime.Parity
import PortalPonder.Realtime.Pipe
import PortalPonder.Realtime.Children

/-!
# The wire and its connection

A connection is opened with the requests of the wire as they are then. When the wire has rebuilt
them, the connection is closed after the turn and opened anew. The server delivers of a block what
the requests of the open connection match: a child that a block creates has logs in that block
that were not asked for, unless the connection asks for them anyway.
-/

namespace PortalPonder.Realtime

open Historical (Children)
open Assembly (chainLog)

variable {F : Type} [DecidableEq F]

structure Connection where
  requests : List (LogRequest Address Hex)
  /-- the revision of the requests when it was opened -/
  openedRev : Nat
  deriving DecidableEq

structure Link (F : Type) where
  pipe : Pipe F
  connection : Option Connection
  /-- the last delivered block, with all its logs -/
  block : Option HotBatch

inductive LinkAction where
  /-- build the body and open a connection with it -/
  | «open» (checks : CheckMode) (bodySize : List (LogRequest Address Hex) → Nat)
  | deliver (block : HotBatch) (env : Env)
  | tick (env : Env)
  | consume

namespace Link

def start (args : WireArgs F) (base : Children F Address) (anchor : Light) (now : Int) :
    Link F where
  pipe := .start args base anchor now
  connection := none
  block := none

/-- Widen the requests if they are over the budget. The new keys are kept, which is a revision. -/
def onOpen (args : WireArgs F) (s : Link F) (checks : CheckMode)
    (bodySize : List (LogRequest Address Hex) → Nat) : Option (Link F) :=
  if s.pipe.ended = true ∨ s.pipe.pending ≠ [] ∨ s.pipe.stop ≠ none then none
  else
    match stripLogAddressesOverBudget checks (isDiscoveryLogRequest args) bodySize
        s.pipe.wire.wildcardLogKeys s.pipe.wire.logs with
    | .error _ => none
    | .ok result =>
        let logsRevision :=
          if result.flipped.isEmpty then s.pipe.wire.logsRevision
          else s.pipe.wire.logsRevision + 1
        some { s with
          pipe.wire.wildcardLogKeys := result.wildcard
          pipe.wire.logsRevision := logsRevision
          connection := some ⟨result.requests, logsRevision⟩ }

/-- Nothing is delivered once the revision has moved. -/
def onDeliver (eventArgs : EventArgs) (s : Link F) (block : HotBatch) (env : Env) :
    Option (Link F) :=
  match s.connection with
  | none => none
  | some c =>
      if c.openedRev = s.pipe.wire.logsRevision then
        (s.pipe.onTurn eventArgs (.block (delivered c.requests block)) env
          s.pipe.wire.wildcardLogKeys).map fun pipe => { s with pipe := pipe, block := some block }
      else none

def step (eventArgs : EventArgs) (args : WireArgs F) (s : Link F) :
    LinkAction → Option (Link F)
  | .open checks bodySize => s.onOpen args checks bodySize
  | .deliver block env => s.onDeliver eventArgs block env
  | .tick env =>
      (s.pipe.onTurn eventArgs .tick env s.pipe.wire.wildcardLogKeys).map fun pipe =>
        { s with pipe := pipe }
  | .consume => (s.pipe.onConsume args).map fun pipe => { s with pipe := pipe }

end Link

/-! ## What is asked for -/

/-- The requests ask for all that filters and factories ask for. -/
def Covers (args : WireArgs F) (requests : List (LogRequest Address Hex))
    (known : Children F Address) : Prop :=
  ∀ log, Asked args known log → ∃ r ∈ requests, requestMatched r log = true

/-- The requests ask for what the filters ask of the children that are new. -/
def AskAlready (args : WireArgs F) (requests : List (LogRequest Address Hex))
    (known known' : Children F Address) : Prop :=
  ∀ f ∈ args.logFilters, ∀ id, f.address = .factory id → ∀ log,
    log.address ∉ (known id).keys → Asks f known' log →
      ∃ r ∈ requests, requestMatched r log = true

/-- The requests of the wire as the next connection sends them. -/
def WireState.sends (args : WireArgs F) (w : WireState F) : List (LogRequest Address Hex) :=
  stripKeys (isDiscoveryLogRequest args) w.wildcardLogKeys w.logs

/-- A block that creates children and is not awaited again: the open connection and the requests
of the wire ask for their logs already. -/
def Steady (args : WireArgs F) (s : Link F) : LinkAction → Prop
  | .consume => ∀ block logs transactions hasMatchedFilter batchId batchSize rest c,
      s.pipe.pending =
        .block block logs transactions hasMatchedFilter batchId batchSize :: rest →
      s.connection = some c →
      (applyDiscovered (discoverChildAddresses args logs) s.pipe.wire.childAddresses
        (hexToNumber block.number)).2 = true →
      (s.pipe.wire.discover args block logs).incomplete args = false →
        AskAlready args c.requests s.pipe.wire.childAddresses
            (s.pipe.wire.discover args block logs).childAddresses ∧
          AskAlready args (s.pipe.wire.sends args) s.pipe.wire.childAddresses
            (s.pipe.wire.discover args block logs).childAddresses
  | _ => True

section Covering

variable {args : WireArgs F} {requests : List (LogRequest Address Hex)}
  {known known' : Children F Address}

/-- Fewer children ask for less. -/
theorem Covers.of_subset (covers : Covers args requests known)
    (subset : ∀ id, (known' id).keys ⊆ (known id).keys) : Covers args requests known' := by
  rintro log (⟨f, mem, matched, child⟩ | discovers)
  · exact covers log (.inl ⟨f, mem, matched, fun id kind => subset id (child id kind)⟩)
  · exact covers log (.inr discovers)

/-- What is asked for of the new children is all that is new. -/
theorem Covers.extend (covers : Covers args requests known)
    (already : AskAlready args requests known known') : Covers args requests known' := by
  rintro log (⟨f, mem, asks⟩ | discovers)
  · by_cases old : ∀ id, f.address = .factory id → log.address ∈ (known id).keys
    · exact covers log (.inl ⟨f, mem, asks.1, old⟩)
    · obtain ⟨id, isNew⟩ := not_forall.1 old
      obtain ⟨kind, notOld⟩ := Classical.not_imp.1 isNew
      exact already f mem id kind log notOld asks
  · exact covers log (.inr discovers)

/-- The requests of the children that are known, widened or not. -/
theorem covers_requests (keys : List (WildcardLogRequestKey Hex)) :
    Covers args (stripKeys (isDiscoveryLogRequest args) keys (args.requests known)) known :=
  fun _ asked => stripKeys_covers _ _ ((buildPortalLogRequests_matched ..).2 asked)

/-- More keys widen more. -/
theorem stripKeys_mono {A T : Type} [DecidableEq A] [DecidableEq T]
    {isDiscovery : LogRequest A T → Bool} {keys keys' : List (WildcardLogRequestKey T)}
    (grown : keys ⊆ keys') {requests : List (LogRequest A T)} {log : ChainLog A T}
    (matched : ∃ r ∈ stripKeys isDiscovery keys requests, requestMatched r log = true) :
    ∃ r ∈ stripKeys isDiscovery keys' requests, requestMatched r log = true := by
  obtain ⟨_, mem, hit⟩ := matched
  obtain ⟨r, inRequests, rfl⟩ := List.mem_map.1 mem
  by_cases widened : isDiscovery r = false ∧ hasKey keys (wildcardLogRequestKey r) = true
  · rw [if_pos widened] at hit
    obtain ⟨k, inKeys, same⟩ := List.any_eq_true.1 widened.2
    have widened' : isDiscovery r = false ∧ hasKey keys' (wildcardLogRequestKey r) = true :=
      ⟨widened.1, List.any_eq_true.2 ⟨k, grown inKeys, same⟩⟩
    refine ⟨_, List.mem_map.2 ⟨r, inRequests, rfl⟩, ?_⟩
    rw [if_pos widened']
    exact hit
  · rw [if_neg widened] at hit
    exact stripKeys_covers _ _ ⟨r, inRequests, hit⟩

end Covering

/-! ## What an event does to the requests -/

section Requests

variable {args : WireArgs F} {w w' : WireState F} {e : PortalRealtimeEvent}
  {outs : List (RealtimeSyncEvent F)} {stop : Option WireStop}

/-- The next connection asks for the known children. -/
def Current (args : WireArgs F) (w : WireState F) : Prop :=
  Covers args (w.sends args) w.childAddresses

/-- The requests are as they were, and no child is added. -/
structure Unwidened (w w' : WireState F) : Prop where
  logs : w'.logs = w.logs
  keys : w'.wildcardLogKeys = w.wildcardLogKeys
  revision : w'.logsRevision = w.logsRevision

/-- The requests were rebuilt. -/
structure Rebuilt (args : WireArgs F) (w w' : WireState F) : Prop where
  logs : w'.logs = args.requests w'.childAddresses
  revision : w'.logsRevision = w.logsRevision + 1

omit [DecidableEq F] in
theorem emitted_unwidened (args : WireArgs F) (w : WireState F) (block : Light) :
    Unwidened w (emitted args w block).2 := by
  unfold emitted
  split
  · exact ⟨rfl, rfl, rfl⟩
  · exact ⟨rfl, rfl, rfl⟩

omit [DecidableEq F] in
theorem released_unwidened (args : WireArgs F) (w : WireState F) : Unwidened w (released args w).2 := by
  unfold released
  split
  · exact ⟨rfl, rfl, rfl⟩
  · next held _ =>
    obtain ⟨logs, keys, revision⟩ := emitted_unwidened args
      { w with heldFinalize := none } held
    exact ⟨logs, keys, revision⟩

theorem prune_requests (args : WireArgs F) (w : WireState F) (ancestor : Int) (reorgedBlocks : List Light) :
    Unwidened w ((w.forget reorgedBlocks).prune args ancestor) ∨
      Rebuilt args w ((w.forget reorgedBlocks).prune args ancestor) := by
  have same : Unwidened w (w.forget reorgedBlocks) := by
    unfold WireState.forget
    split
    · exact ⟨rfl, rfl, rfl⟩
    · exact ⟨rfl, rfl, rfl⟩
  unfold WireState.prune
  dsimp only
  split
  · exact .inr ⟨rfl, congrArg (· + 1) same.revision⟩
  · exact .inl ⟨same.logs, same.keys, same.revision⟩

/-- When nothing is added, the children are those that were known. -/
theorem applyDiscovered_nothing (discovered : List (F × List Address)) (known : Children F Address)
    (bn : Int) (nothing : (applyDiscovered discovered known bn).2 = false) :
    (applyDiscovered discovered known bn).1 = known := by
  have fold : ∀ (found : List (F × Address)) (acc : Children F Address × Bool),
      (found.foldl (addChild bn) acc).2 = false →
        acc.2 = false ∧ (found.foldl (addChild bn) acc).1 = acc.1 := by
    intro found
    induction found with
    | nil => exact fun acc none_ => ⟨none_, rfl⟩
    | cons head rest ih =>
        intro acc none_
        obtain ⟨flag, same⟩ := ih _ none_
        have here : addChild bn acc head = acc := by
          unfold addChild at flag ⊢
          split
          · rfl
          · next absent =>
            rw [absent] at flag
            cases flag
        rw [here] at flag same
        refine ⟨flag, ?_⟩
        rw [List.foldl_cons, here]
        exact same
  exact (fold _ _ nothing).2

/-- What remains asked for, when no child is added. -/
theorem Current.unwidened (current : Current args w) (same : Unwidened w w')
    (subset : ∀ id, (w'.childAddresses id).keys ⊆ (w.childAddresses id).keys) :
    Current args w' := by
  have sends : w'.sends args = w.sends args := by
    unfold WireState.sends
    rw [same.logs, same.keys]
  unfold Current
  rw [sends]
  exact Covers.of_subset current subset

theorem Current.rebuilt (rebuilt : Rebuilt args w w') : Current args w' := by
  unfold Current WireState.sends
  rw [rebuilt.logs]
  exact covers_requests _

theorem prune_subset (args : WireArgs F) (w : WireState F) (ancestor : Int) (reorgedBlocks : List Light) (id : F) :
    (((w.forget reorgedBlocks).prune args ancestor).childAddresses id).keys ⊆
      (w.childAddresses id).keys := by
  rw [prune_children, forget_children]
  exact fun _ mem => (List.filter_sublist.map _).subset mem

/-- A finalize leaves the requests and the children as they were. -/
theorem Handled.finalize_requests {b : Light} (handled : Handled args w (.finalize b) outs w' stop) :
    Unwidened w w' ∧ w'.childAddresses = w.childAddresses := by
  cases handled with
  | held awaits reaches => exact ⟨⟨rfl, rfl, rfl⟩, rfl⟩
  | finalized below => exact ⟨emitted_unwidened args w b, emitted_children w b⟩

/-- A block that is forwarded leaves the requests as they were. -/
theorem released_requests (args : WireArgs F) (w : WireState F) (block : SyncBlockHeader)
    (logs : List SyncLog) : Unwidened w (released args (w.discover args block logs)).2 := by
  obtain ⟨sameLogs, keys, revision⟩ := released_unwidened args
    (w.discover args block logs)
  exact ⟨sameLogs, keys, revision⟩

end Requests

/-! ## The events of a turn -/

/-- At most one block, perhaps after a reorg, and then finalizes. -/
inductive Shape (block : PortalRealtimeEvent) : List PortalRealtimeEvent → Prop
  | finals {finalizes : List PortalRealtimeEvent} (all : ∀ e ∈ finalizes, IsFinalize e) :
      Shape block finalizes
  | rolled {ancestor : Light} {reorgedBlocks : List Light} :
      Shape block [.reorg ancestor reorgedBlocks]
  | block {finalizes : List PortalRealtimeEvent} (all : ∀ e ∈ finalizes, IsFinalize e) :
      Shape block (block :: finalizes)
  | reorg {ancestor : Light} {reorgedBlocks : List Light} {finalizes : List PortalRealtimeEvent}
      (all : ∀ e ∈ finalizes, IsFinalize e) :
      Shape block (.reorg ancestor reorgedBlocks :: block :: finalizes)

theorem deliver_shape (args : EventArgs) (env : Env) (batch : HotBatch) (s : EventState) :
    Shape (blockEvent args batch) ((deliver args env batch).run s).events := by
  have nothing : Shape (blockEvent args batch) [] := .finals fun e mem => by cases mem
  have events := deliver_events args env batch s
  generalize ((deliver args env batch).run s).events = yielded at events ⊢
  generalize reconcile s.unfinalized (toLight batch.header) s.anchor = answer at events
  cases answer with
  | duplicate =>
      rcases events with rfl | ⟨-, finalizes, rfl, all⟩
      · exact nothing
      · exact .block all
  | gap =>
      rw [show yielded = [] from events]
      exact nothing
  | append =>
      rcases events with rfl | ⟨finalizes, rfl, all⟩
      · exact nothing
      · exact .block all
  | reorg commonAncestor reorgedBlocks =>
      rcases events with rfl | ⟨finalizes, rfl, all⟩
      · exact .rolled
      · exact .reorg all

def IsBlock : PortalRealtimeEvent → Prop
  | .block .. => True
  | _ => False

/-! ## The invariant -/

/-- What is pending came from the open connection. -/
def FromConnection (eventArgs : EventArgs) (s : Link F) : Prop :=
  (∀ e ∈ s.pipe.pending, IsFinalize e) ∨ ∃ c block, s.connection = some c ∧
    s.block = some block ∧ Shape (blockEvent eventArgs (delivered c.requests block)) s.pipe.pending

structure LinkInv (eventArgs : EventArgs) (args : WireArgs F) (s : Link F) : Prop where
  current : Current args s.pipe.wire
  behind : ∀ c, s.connection = some c → c.openedRev ≤ s.pipe.wire.logsRevision
  pending : FromConnection eventArgs s
  covers : ∀ c, s.connection = some c →
    (c.openedRev = s.pipe.wire.logsRevision ∨ ∃ e ∈ s.pipe.pending, IsBlock e) →
      Covers args c.requests s.pipe.wire.childAddresses

section Invariant

variable {eventArgs : EventArgs} {args : WireArgs F} {s t : Link F}

theorem LinkInv.start (base : Children F Address) (anchor : Light) (now : Int) :
    LinkInv eventArgs args (.start args base anchor now) := by
  refine ⟨covers_requests [], ?_, .inl ?_, ?_⟩
  · intro c isOpen
    cases isOpen
  · intro e mem
    cases mem
  · intro c isOpen
    cases isOpen

theorem LinkInv.open (inv : LinkInv eventArgs args s) {checks : CheckMode}
    {bodySize : List (LogRequest Address Hex) → Nat}
    (taken : s.onOpen args checks bodySize = some t) : LinkInv eventArgs args t := by
  unfold Link.onOpen at taken
  split at taken
  · cases taken
  · next idle =>
    have drained : s.pipe.pending = [] := not_not.1 (not_or.1 (not_or.1 idle).2).1
    split at taken
    · cases taken
    · next result stripped =>
      obtain rfl := Option.some.inj taken
      obtain ⟨strips, sticky⟩ := stripLogAddressesOverBudget_strips stripped
      have current : Covers args (stripKeys (isDiscoveryLogRequest args) result.wildcard
          s.pipe.wire.logs) s.pipe.wire.childAddresses :=
        fun log asked => stripKeys_mono sticky (inv.current log asked)
      refine ⟨current, ?_, .inl ?_, ?_⟩
      · intro c isOpen
        obtain rfl := Option.some.inj isOpen
        exact Nat.le_refl _
      · show ∀ e ∈ s.pipe.pending, IsFinalize e
        rw [drained]
        intro e mem
        cases mem
      · intro c isOpen _
        obtain rfl := Option.some.inj isOpen
        show Covers args result.requests s.pipe.wire.childAddresses
        rw [strips]
        exact current

theorem LinkInv.tick (inv : LinkInv eventArgs args s) {env : Env} {p : Pipe F}
    (taken : s.pipe.onTurn eventArgs .tick env s.pipe.wire.wildcardLogKeys = some p) :
    LinkInv eventArgs args { s with pipe := p } := by
  obtain ⟨-, -, rfl⟩ := onTurn_cases taken
  have finalizes := cadence_finalizes eventArgs (Pipe.handshake s.pipe.wire env) s.pipe.producer
  refine ⟨inv.current, inv.behind, .inl finalizes, ?_⟩
  rintro c isOpen (current | ⟨e, mem, isBlock⟩)
  · exact inv.covers c isOpen (.inl current)
  · have isFinalize := finalizes e mem
    cases e with
    | block => cases isFinalize
    | reorg => cases isBlock
    | finalize => cases isBlock

theorem LinkInv.deliver (inv : LinkInv eventArgs args s) {block : HotBatch} {env : Env}
    (taken : s.onDeliver eventArgs block env = some t) : LinkInv eventArgs args t := by
  unfold Link.onDeliver at taken
  split at taken
  · cases taken
  · next c isOpen =>
    split at taken
    · next current =>
      obtain ⟨p, turned, rfl⟩ := Option.map_eq_some_iff.1 taken
      obtain ⟨-, -, rfl⟩ := onTurn_cases turned
      refine ⟨inv.current, inv.behind, .inr ⟨c, block, isOpen, rfl, deliver_shape ..⟩, ?_⟩
      intro c' isOpen' _
      obtain rfl := Option.some.inj (isOpen.symm.trans isOpen')
      exact inv.covers c isOpen (.inl current)
    · cases taken

omit [DecidableEq F] in
/-- The wire takes an event, and the rest still comes from the connection. -/
theorem FromConnection.tail {e : PortalRealtimeEvent} {rest : List PortalRealtimeEvent} {p : Pipe F}
    (pending : FromConnection eventArgs s) (isNext : s.pipe.pending = e :: rest)
    (remains : p.pending = rest) : FromConnection eventArgs { s with pipe := p } := by
  unfold FromConnection
  show (∀ x ∈ p.pending, IsFinalize x) ∨ _
  rcases pending with all | ⟨c, block, isOpen, isLast, shape⟩
  · refine .inl fun x mem => all x ?_
    rw [isNext]
    rw [remains] at mem
    exact List.mem_cons_of_mem e mem
  · rw [isNext] at shape
    rw [remains]
    cases shape with
    | finals all => exact .inl fun x mem => all x (List.mem_cons_of_mem e mem)
    | rolled => exact .inl fun x mem => by cases mem
    | block all => exact .inl all
    | reorg all => exact .inr ⟨c, block, isOpen, isLast, .block all⟩

omit [DecidableEq F] in
/-- The next block is what the open connection delivered of the last one. -/
theorem FromConnection.block {block : SyncBlockHeader} {logs : List SyncLog}
    {transactions : List SyncTransaction} {hasMatchedFilter : Bool}
    {batchId batchSize : Option Nat} {rest : List PortalRealtimeEvent}
    (pending : FromConnection eventArgs s)
    (isNext : s.pipe.pending =
      .block block logs transactions hasMatchedFilter batchId batchSize :: rest) :
    ∃ c full, s.connection = some c ∧ s.block = some full ∧
      block = toSyncBlockHeader full.header ∧ logs = syncLogs (delivered c.requests full) ∧
      ∀ e ∈ rest, IsFinalize e := by
  rcases pending with all | ⟨c, full, isOpen, isLast, shape⟩
  · have isFinalize := all _ (isNext ▸ List.mem_cons_self)
    cases isFinalize
  · rw [isNext] at shape
    generalize isEvent : blockEvent eventArgs (delivered c.requests full) = event at shape
    cases shape with
    | finals all =>
        have isFinalize := all _ List.mem_cons_self
        cases isFinalize
    | block all =>
        obtain ⟨sameBlock, sameLogs, -⟩ := PortalRealtimeEvent.block.inj isEvent
        exact ⟨c, full, isOpen, isLast, sameBlock.symm, sameLogs.symm, all⟩

/-- The requests after a block that is forwarded. -/
theorem Covers.discover {requests : List (LogRequest Address Hex)} {w : WireState F}
    {block : SyncBlockHeader} {logs : List SyncLog}
    (covers : Covers args requests w.childAddresses)
    (already : (applyDiscovered (discoverChildAddresses args logs) w.childAddresses
        (hexToNumber block.number)).2 = true →
      AskAlready args requests w.childAddresses (w.discover args block logs).childAddresses) :
    Covers args requests (w.discover args block logs).childAddresses := by
  cases added : (applyDiscovered (discoverChildAddresses args logs) w.childAddresses
      (hexToNumber block.number)).2 with
  | true => exact covers.extend (already added)
  | false =>
      have same : (w.discover args block logs).childAddresses = w.childAddresses :=
        applyDiscovered_nothing _ _ _ added
      rw [same]
      exact covers

/-- The revision only moves on. -/
theorem Handled.revision_le {w w' : WireState F} {e : PortalRealtimeEvent}
    {outs : List (RealtimeSyncEvent F)} {stop : Option WireStop}
    (handled : Handled args w e outs w' stop) : w.logsRevision ≤ w'.logsRevision := by
  cases handled with
  | held awaits reaches => exact Nat.le_refl _
  | finalized below => exact Nat.le_of_eq (emitted_unwidened args w _).revision.symm
  | reorged =>
      rcases prune_requests args w _ _ with same | rebuilt
      · exact Nat.le_of_eq same.revision.symm
      · rw [rebuilt.revision]
        exact Nat.le_succ _
  | lost awaits other => exact Nat.le_refl _
  | suppressed awaited incomplete => exact Nat.le_succ _
  | forwarded awaited complete => exact Nat.le_of_eq (released_requests args w _ _).revision.symm

/-- The next connection asks for the known children, after any event. -/
theorem LinkInv.current_consume (inv : LinkInv eventArgs args s)
    (steady : Steady args s .consume) {e : PortalRealtimeEvent} {rest : List PortalRealtimeEvent}
    {outs : List (RealtimeSyncEvent F)} {w' : WireState F} {stop : Option WireStop}
    (pending : s.pipe.pending = e :: rest) (handled : Handled args s.pipe.wire e outs w' stop) :
    Current args w' := by
  cases e with
  | finalize b =>
      obtain ⟨same, children⟩ := handled.finalize_requests
      exact inv.current.unwidened same fun id => by rw [children]; exact List.Subset.refl _
  | reorg ancestor reorgedBlocks =>
      cases handled with
      | reorged =>
          rcases prune_requests args s.pipe.wire ancestor.number reorgedBlocks with same | rebuilt
          · exact inv.current.unwidened same (prune_subset args _ _ _)
          · exact .rebuilt rebuilt
  | block block logs transactions hasMatchedFilter batchId batchSize =>
      obtain ⟨c, full, isOpen, -⟩ := inv.pending.block pending
      cases handled with
      | lost awaits other => exact inv.current
      | suppressed awaited incomplete => exact .rebuilt ⟨rfl, rfl⟩
      | forwarded awaited complete =>
          have same := released_requests args s.pipe.wire block logs
          have covers : Covers args (s.pipe.wire.sends args)
              (s.pipe.wire.discover args block logs).childAddresses :=
            Covers.discover inv.current fun added => (steady _ _ _ _ _ _ _ c pending isOpen added
              (complete added)).2
          have sends : (released args (s.pipe.wire.discover args block logs)).2.sends args =
              s.pipe.wire.sends args := by
            unfold WireState.sends
            rw [same.logs, same.keys]
          unfold Current
          rw [sends, released_children]
          exact covers

/-- A block that is taken was delivered by a connection that asks for the known children. -/
theorem LinkInv.covers_block (inv : LinkInv eventArgs args s) {block : SyncBlockHeader}
    {logs : List SyncLog} {transactions : List SyncTransaction} {hasMatchedFilter : Bool}
    {batchId batchSize : Option Nat} {rest : List PortalRealtimeEvent}
    (pending : s.pipe.pending =
      .block block logs transactions hasMatchedFilter batchId batchSize :: rest)
    {c : Connection} (isOpen : s.connection = some c) :
    Covers args c.requests s.pipe.wire.childAddresses := by
  refine inv.covers c isOpen (.inr ⟨.block block logs transactions hasMatchedFilter batchId
    batchSize, ?_, trivial⟩)
  rw [pending]
  exact List.mem_cons_self

/-- So does the open connection, until its revision is left behind. -/
theorem LinkInv.covers_consume (inv : LinkInv eventArgs args s)
    (steady : Steady args s .consume) {e : PortalRealtimeEvent} {rest : List PortalRealtimeEvent}
    {outs : List (RealtimeSyncEvent F)} {w' : WireState F} {stop : Option WireStop}
    (pending : s.pipe.pending = e :: rest) (handled : Handled args s.pipe.wire e outs w' stop)
    {c : Connection} (isOpen : s.connection = some c)
    (holds : c.openedRev = w'.logsRevision ∨ ∃ x ∈ rest, IsBlock x) :
    Covers args c.requests w'.childAddresses := by
  have later : (∃ x ∈ rest, IsBlock x) → ∃ x ∈ s.pipe.pending, IsBlock x := by
    rintro ⟨x, mem, isBlock⟩
    rw [pending]
    exact ⟨x, List.mem_cons_of_mem e mem, isBlock⟩
  have behind := inv.behind c isOpen
  cases e with
  | finalize b =>
      obtain ⟨same, children⟩ := handled.finalize_requests
      rw [children]
      exact inv.covers c isOpen (holds.imp (fun current => current.trans same.revision) later)
  | reorg ancestor reorgedBlocks =>
      cases handled with
      | reorged =>
          refine Covers.of_subset (inv.covers c isOpen ?_) (prune_subset args _ _ _)
          rcases prune_requests args s.pipe.wire ancestor.number reorgedBlocks with same | rebuilt
          · exact holds.imp (fun current => current.trans same.revision) later
          · -- the rebuilt requests leave the connection behind
            refine .inr (later (holds.resolve_left fun current => ?_))
            rw [rebuilt.revision] at current
            omega
  | block block logs transactions hasMatchedFilter batchId batchSize =>
      have before := inv.covers_block pending isOpen
      obtain ⟨_, full, -, -, -, -, finalizes⟩ := inv.pending.block pending
      have current : c.openedRev = w'.logsRevision := by
        refine holds.resolve_right ?_
        rintro ⟨x, mem, isBlock⟩
        have isFinalize := finalizes x mem
        cases x with
        | block => cases isFinalize
        | reorg => cases isBlock
        | finalize => cases isBlock
      cases handled with
      | lost awaits other => exact before
      | suppressed awaited incomplete =>
          change c.openedRev = s.pipe.wire.logsRevision + 1 at current
          omega
      | forwarded awaited complete =>
          rw [released_children]
          exact before.discover fun added => (steady _ _ _ _ _ _ _ c pending isOpen added
            (complete added)).1

theorem LinkInv.consume (inv : LinkInv eventArgs args s) (steady : Steady args s .consume)
    {p : Pipe F} (taken : s.pipe.onConsume args = some p) :
    LinkInv eventArgs args { s with pipe := p } := by
  obtain ⟨e, rest, outs, w', stop, pending, handled, rfl⟩ := onConsume_cases taken
  have inRest : ∀ x ∈ rest, x ∈ s.pipe.pending := by
    intro x mem
    rw [pending]
    exact List.mem_cons_of_mem e mem
  refine ⟨?_, ?_, inv.pending.tail pending rfl, ?_⟩
  · exact inv.current_consume steady pending handled
  · intro c isOpen
    exact Nat.le_trans (inv.behind c isOpen) handled.revision_le
  · intro c isOpen holds
    refine inv.covers_consume steady pending handled isOpen (holds.imp_right ?_)
    rintro ⟨x, mem, isBlock⟩
    exact ⟨x, mem, isBlock⟩

theorem linkInv_of_reach {base : Children F Address} {anchor : Light} {now : Int}
    (reached : Machine.Reach (Link.step eventArgs args) (Steady args)
      (.start args base anchor now) s) : LinkInv eventArgs args s := by
  refine reached.invariant (.start base anchor now) fun s a t _ inv steady taken => ?_
  cases a with
  | «open» checks bodySize => exact inv.open taken
  | deliver block env => exact inv.deliver taken
  | tick env =>
      obtain ⟨p, turned, rfl⟩ := Option.map_eq_some_iff.1 taken
      exact inv.tick turned
  | consume =>
      obtain ⟨p, consumed, rfl⟩ := Option.map_eq_some_iff.1 taken
      exact inv.consume steady consumed

/-! ## Completeness -/

/-- Every open connection asks for what the filters ask of the known children. -/
def Covered (args : WireArgs F) (s : Link F) : Prop :=
  ∀ c, s.connection = some c → c.openedRev = s.pipe.wire.logsRevision →
    Covers args c.requests s.pipe.wire.childAddresses

/-- What the wire makes of a block, held against all logs of that block. -/
structure BlockComplete (args : WireArgs F) (s t : Link F) : Prop where
  /-- every child that the block creates is known afterwards -/
  known : ∀ block logs transactions hasMatchedFilter batchId batchSize rest,
    s.pipe.pending = .block block logs transactions hasMatchedFilter batchId batchSize :: rest →
    ¬ Lost t.pipe.stop →
    ∃ full, s.block = some full ∧
      t.pipe.wire.childAddresses = childrenWith args s.pipe.wire full
  /-- what is forwarded carries every log that a filter matches for a child created by then -/
  forwards : ∀ matched block logs transactions children rest,
    t.pipe.forwarded =
      s.pipe.forwarded ++ .block matched block logs transactions children :: rest →
    ∃ full, s.block = some full ∧ block = toSyncBlockHeader full.header ∧
      ∀ log ∈ full.logs, logMatchesLiveChildFilter args t.pipe.wire.childAddresses
        (toSyncLog log full.header) = true → toSyncLog log full.header ∈ logs

/-- What the trim leaves of logs that a filter matches. -/
theorem mem_sentEvent {w : WireState F} {block : SyncBlockHeader} {logs : List SyncLog}
    {transactions : List SyncTransaction} {hasMatchedFilter : Bool} {log : SyncLog}
    (mem : log ∈ logs) (matched : logMatchesLiveChildFilter args w.childAddresses log = true) :
    log ∈ (sentEvent args w block logs transactions hasMatchedFilter).logs := by
  unfold sentEvent
  split
  · exact mem
  · refine List.mem_filter.2 ⟨mem, ?_⟩
    rw [matched]
    rfl

theorem LinkInv.blockComplete (inv : LinkInv eventArgs args s)
    (steady : Steady args s .consume) {p : Pipe F} (taken : s.pipe.onConsume args = some p) :
    BlockComplete args s { s with pipe := p } := by
  obtain ⟨e, tail, outs, w', stop, pending, handled, rfl⟩ := onConsume_cases taken
  constructor
  · intro block logs transactions hasMatchedFilter batchId batchSize rest isNext kept
    obtain ⟨rfl, rfl⟩ := List.cons.inj (pending.symm.trans isNext)
    obtain ⟨c, full, isOpen, isLast, rfl, rfl, -⟩ := inv.pending.block pending
    refine ⟨full, isLast, (handled.children kept).trans ?_⟩
    refine discover_delivered (w := s.pipe.wire) fun log _ creates => ?_
    exact List.any_eq_true.2 (inv.covers_block pending isOpen _ (.inr creates))
  · intro matched sentHeader sentLogs sentTransactions children rest forwards
    have outsAre : outs = .block matched sentHeader sentLogs sentTransactions children :: rest :=
      List.append_cancel_left forwards
    cases handled with
    | held awaits reaches => cases outsAre
    | @finalized b below =>
        unfold emitted at outsAre
        split at outsAre
        · cases outsAre
        · cases outsAre
    | reorged => cases outsAre
    | lost awaits other => cases outsAre
    | suppressed awaited incomplete => cases outsAre
    | @forwarded block logs transactions hasMatchedFilter batchId batchSize awaited complete =>
        obtain ⟨c, full, isOpen, isLast, rfl, rfl, -⟩ := inv.pending.block pending
        have covers := (inv.covers_block pending isOpen).discover fun added =>
          (steady _ _ _ _ _ _ _ c pending isOpen added (complete added)).1
        have isSent := RealtimeSyncEvent.block.inj (List.cons.inj outsAre).1
        refine ⟨full, isLast, isSent.2.1.symm, fun log mem isMatched => ?_⟩
        change logMatchesLiveChildFilter args (released args (s.pipe.wire.discover args
          (toSyncBlockHeader full.header) (syncLogs (delivered c.requests full)))).2.childAddresses
            (toSyncLog log full.header) = true at isMatched
        rw [released_children] at isMatched
        have asked := ((kept_iff full.header log).1 (Bool.or_eq_true_iff.2 (.inl isMatched))).asked
        have inDelivery : log ∈ (delivered c.requests full).logs :=
          mem_delivered.2 ⟨mem, covers _ asked⟩
        rw [← isSent.2.2.1]
        exact mem_sentEvent (List.mem_map.2 ⟨log, inDelivery, rfl⟩) isMatched

/-- A wire that asks for the redelivery of every block with a new child is steady. -/
def Link.redelivers (args : WireArgs F) (s : Link F) : Bool :=
  match s.pipe.pending with
  | .block block logs .. :: _ =>
      !(applyDiscovered (discoverChildAddresses args logs) s.pipe.wire.childAddresses
        (hexToNumber block.number)).2 || (s.pipe.wire.discover args block logs).incomplete args
  | _ => true

theorem steady_of_redelivers (redelivers : s.redelivers args = true) (a : LinkAction) :
    Steady args s a := by
  cases a with
  | consume =>
      intro block logs transactions hasMatchedFilter batchId batchSize rest c pending _ added complete
      unfold Link.redelivers at redelivers
      rw [pending] at redelivers
      simp only [added, complete] at redelivers
      cases redelivers
  | «open» checks bodySize => trivial
  | deliver block env => trivial
  | tick env => trivial

end Invariant

/-- In every run whose blocks with new children are redelivered, or bring children that the open
connection and the wire ask for already, the connections cover the known children and every block
goes out with all logs of its children. -/
theorem same_block_children_complete (eventArgs : EventArgs) (args : WireArgs F)
    (base : Children F Address) (anchor : Light) (now : Int) (s : Link F)
    (reached : Machine.Reach (Link.step eventArgs args) (Steady args)
      (.start args base anchor now) s) :
    Covered args s ∧ ∀ t, Steady args s .consume → s.step eventArgs args .consume = some t →
      BlockComplete args s t := by
  have inv := linkInv_of_reach reached
  refine ⟨fun c isOpen current => inv.covers c isOpen (.inl current), fun t steady taken => ?_⟩
  obtain ⟨p, consumed, rfl⟩ := Option.map_eq_some_iff.1 taken
  exact inv.blockComplete steady consumed

/-! Block 101 creates a child, which has a log in it. -/

def childLog : RawLog := ⟨"0xc1", some ["0xe7"], none, none, none, none⟩

def childBlock : HotBatch :=
  ⟨⟨101, "0x101", "0x100", 101, []⟩,
    [⟨"0xfac", some ["0x5e1", "0xc1"], none, none, none, none⟩, childLog], [], none, none⟩

def firstDelivery : List LinkAction :=
  [.open .on fun _ => 0, .deliver childBlock { deliveredAt := 10, now := 10, finalizedHead := none }]

/-- The block was refused, and is delivered again. -/
def secondDelivery : List LinkAction :=
  firstDelivery ++ .consume :: firstDelivery

def linkStart (args : WireArgs String) : Link String :=
  .start args (fun _ => OrdMap.empty) sampleAnchor 0

def redeliveredEnd : Link String :=
  (Machine.replay (Link.step {} sampleArgs) (linkStart sampleArgs) secondDelivery).get
    (by decide +kernel)

def forwardedEnd : Link String :=
  (redeliveredEnd.step {} sampleArgs .consume).get (by decide +kernel)

theorem same_block_children_complete_sample :
    Covered sampleArgs redeliveredEnd ∧ BlockComplete sampleArgs redeliveredEnd forwardedEnd ∧
      forwardedEnd.pipe.forwarded.length = 1 := by
  have agrees : Machine.AllAllowed (Link.step {} sampleArgs)
      (fun s _ => s.redelivers sampleArgs = true) (linkStart sampleArgs) secondDelivery := by
    decide +kernel
  have reached : Machine.Reach (Link.step {} sampleArgs)
      (fun s _ => s.redelivers sampleArgs = true) (linkStart sampleArgs) redeliveredEnd :=
    Machine.Reach.init.replay agrees (Option.some_get (by decide +kernel)).symm
  have steady : Machine.Reach (Link.step {} sampleArgs) (Steady sampleArgs)
      (linkStart sampleArgs) redeliveredEnd :=
    reached.invariant .init fun _ a _ _ before redelivers taken =>
      .step before (steady_of_redelivers redelivers a) taken
  obtain ⟨covered, complete⟩ := same_block_children_complete {} sampleArgs _ sampleAnchor 0
    redeliveredEnd steady
  exact ⟨covered, complete forwardedEnd (steady_of_redelivers (by decide +kernel) _)
    (Option.some_get (by decide +kernel)).symm, by decide +kernel⟩

/-- The children are asked for the event of the factory too, which has no address: their request
is taken for the one that stands for the factory. -/
def mistakenArgs : WireArgs String where
  logFilters := [⟨.factory "pool", some ["0xe7"], none, none, none, none, none⟩,
    ⟨.factory "pool", some ["0x5e1"], none, none, none, none, none⟩]
  blockFilters := []
  factoryOf _ := ⟨none, "0x5e1", none, none⟩
  getChildAddress _ log := log.topics[1]?
  startupFinalized := 100
  endBlock := none

def mistakenEnd : Link String :=
  (Machine.replay (Link.step {} mistakenArgs) (linkStart mistakenArgs) firstDelivery).get
    (by decide +kernel)

def mistakenNext : Link String :=
  (mistakenEnd.step {} mistakenArgs .consume).get (by decide +kernel)

theorem child_log_is_lost :
    ¬ ∀ s, Machine.Reach (Link.step {} mistakenArgs) (fun _ _ => True)
        (linkStart mistakenArgs) s →
      Covered mistakenArgs s ∧ ∀ t, s.step {} mistakenArgs .consume = some t →
        BlockComplete mistakenArgs s t := by
  intro all
  have free : Machine.AllAllowed (Link.step {} mistakenArgs) (fun _ _ => True)
      (linkStart mistakenArgs) firstDelivery := by decide +kernel
  have reached : Machine.Reach (Link.step {} mistakenArgs) (fun _ _ => True)
      (linkStart mistakenArgs) mistakenEnd :=
    Machine.Reach.init.replay free (Option.some_get (by decide +kernel)).symm
  have complete := (all mistakenEnd reached).2 mistakenNext
    (Option.some_get (by decide +kernel)).symm
  -- the block goes out with its creation log only
  have goesOut : mistakenNext.pipe.forwarded = mistakenEnd.pipe.forwarded ++
      [.block true (sampleHeader 101 "0x101" "0x100")
        [creationOf "0xc1" (sampleHeader 101 "0x101" "0x100")] [] [("pool", ["0xc1"])]] := by
    decide +kernel
  obtain ⟨full, isLast, -, carries⟩ := complete.forwards _ _ _ _ _ _ goesOut
  obtain rfl : full = childBlock :=
    Option.some.inj (isLast.symm.trans (show mistakenEnd.block = some childBlock from by
      decide +kernel))
  have missing := carries childLog (by decide +kernel) (by decide +kernel)
  exact absurd missing (by decide +kernel)

end PortalPonder.Realtime
