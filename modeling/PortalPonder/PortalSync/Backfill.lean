import PortalPonder.PortalSync.Query
import PortalPonder.PortalSync.StreamFinalized

/-!
# The two-pass backfill

A stand-alone backfill is two streams over one range. The first asks for the creation events of all
factories and collects the children; the second asks, by one query, for the events of all children
and singletons. A child counts wherever in the range it was created.

Metrics and the report are left out, but for the count of each event.
-/

namespace PortalPonder.PortalSync

open JSON (Value)
open Client (member)

/-! ## Sources -/

inductive ChildRule where
  | topic (index : Nat)
  | data (word : Nat)
  deriving DecidableEq, Repr

structure FactorySource where
  name : String
  factory : Hex
  discoveryTopic0 : Hex
  childRule : ChildRule
  childTopic0s : List Hex
  childEventNames : List String
  deriving DecidableEq, Repr

structure SingletonSource where
  name : String
  address : Hex
  topic0s : List Hex
  eventNames : List String
  deriving DecidableEq, Repr

structure EulerChain where
  factories : List FactorySource
  singletons : List SingletonSource
  deriving DecidableEq, Repr

structure EventJson where
  name : String
  signature : String

/-- A source as the generated file has it. -/
inductive SourceJson where
  | factory (name : String) (address : Hex) (discoverySignature : String)
      (childEvents : List EventJson)
  | singleton (name : String) (address : Hex) (events : List EventJson)

def CHILD_RULE (name : String) : Option ChildRule :=
  if name = "EVault" then some (.topic 1)
  else if name = "EulerEarn" then some (.topic 1)
  else if name = "EulerSwapPool" then some (.data 0)
  else none

section Load

variable (toEventSelector : String → Hex)

def factorySource : SourceJson → Option FactorySource
  | .factory name address discoverySignature childEvents => some
      { name := name
        factory := toLowerCase address
        discoveryTopic0 := toEventSelector discoverySignature
        childRule := (CHILD_RULE name).getD (.topic 1)
        childTopic0s := childEvents.map fun e => toEventSelector e.signature
        childEventNames := childEvents.map fun e => e.name }
  | .singleton .. => none

def singletonSource : SourceJson → Option SingletonSource
  | .factory .. => none
  | .singleton name address events => some
      { name := name
        address := toLowerCase address
        topic0s := events.map fun e => toEventSelector e.signature
        eventNames := events.map fun e => e.name }

def loadEulerChain (sources : List SourceJson) : EulerChain where
  factories := sources.filterMap (factorySource toEventSelector)
  singletons := sources.filterMap (singletonSource toEventSelector)

end Load

def text0x : Hex := JSON.units "0x"

/-- The child that a creation event announces, by the rule of its source. -/
def extractChild (rule : ChildRule) (log : EmittedLog) : Option Hex :=
  match rule with
  | .topic index =>
      match log.topics[index]? with
      | some (u :: us) => some (text0x ++ (u :: us).drop 26)
      | _ => none
  | .data word =>
      let word := (log.data.drop (2 + word * 64)).take 64
      if word.length = 64 then some (text0x ++ word.drop 24) else none

/-! ## Reading a block -/

def hexOf : Value → Option Hex
  | .str units => some units
  | _ => none

def topicsOf (log : Value) : Option (List Hex) :=
  match member "topics" log with
  | none => some []
  | some (.arr topics) => topics.mapM hexOf
  | some _ => none

def dataOf (log : Value) : Option Hex :=
  match member "data" log with
  | none => some text0x
  | some data => hexOf data

/-- `none` where reading a member throws. -/
def readLog (log : Value) : Option EmittedLog := do
  let address ← (member "address" log).bind hexOf
  let topics ← topicsOf log
  let data ← dataOf log
  some ⟨address, topics, data⟩

/-- `b.logs ?? []` -/
def logsOf (b : Value) : List Value :=
  match member "logs" b with
  | some (.arr logs) => logs
  | _ => []

def logsIn (blocks : List Value) : Option (List EmittedLog) := (blocks.flatMap logsOf).mapM readLog

/-! ## The first pass -/

def discoveryFilters (chain : EulerChain) : List LogFilter :=
  chain.factories.map fun f =>
    ⟨.many [f.factory], .many [f.discoveryTopic0], .absent, .absent, .absent, false⟩

/-- The children of each factory, by its name, as they were found. -/
abbrev Found := String → List Hex

/-- The first factory whose creation event the log is, and the child it announces. -/
def childOf (factories : List FactorySource) (log : EmittedLog) : Option (String × Hex) := do
  let f ← factories.find? fun x =>
    x.factory = toLowerCase log.address ∧ log.topics[0]? = some x.discoveryTopic0
  let child ← extractChild f.childRule log
  some (f.name, toLowerCase child)

/-- `Set.add` -/
def addChild (children : List Hex) (child : Hex) : List Hex :=
  if child ∈ children then children else children ++ [child]

def discoverLog (factories : List FactorySource) (children : Found) (log : EmittedLog) : Found :=
  match childOf factories log with
  | none => children
  | some (name, child) => fun n => if n = name then addChild (children n) child else children n

def discover (factories : List FactorySource) (logs : List EmittedLog) : Found :=
  logs.foldl (discoverLog factories) fun _ => []

/-! ## The second pass -/

def eventsFilter (addresses topic0s : List Hex) : LogFilter :=
  ⟨.many addresses, .many topic0s, .absent, .absent, .absent, false⟩

def dataFilters (chain : EulerChain) (children : Found) : List LogFilter :=
  (chain.factories.filterMap fun f =>
    if children f.name ≠ [] ∧ f.childTopic0s ≠ [] then
      some (eventsFilter (children f.name) f.childTopic0s)
    else none) ++
  chain.singletons.filterMap fun s =>
    if s.topic0s ≠ [] then some (eventsFilter [s.address] s.topic0s) else none

def labelled (name : String) (topic0s : List Hex) (names : List String) : List (Hex × String) :=
  topic0s.zipIdx.map fun (t, i) => (t, name ++ "." ++ names[i]?.getD "undefined")

/-- The events of a chain, in the order their labels are set. -/
def eventsOf (chain : EulerChain) : List (Hex × String) :=
  (chain.factories.flatMap fun f => labelled f.name f.childTopic0s f.childEventNames) ++
    chain.singletons.flatMap fun s => labelled s.name s.topic0s s.eventNames

/-- A topic that several events share has the label of the last. -/
def topicLabel (chain : EulerChain) : OrdMap Hex String :=
  (eventsOf chain).foldl (fun m e => m.set e.1 e.2) OrdMap.empty

def labelOf (chain : EulerChain) (log : EmittedLog) : String :=
  ((log.topics[0]?).bind (topicLabel chain).get?).getD "other"

def countLabels (labels : List String) : OrdMap String Nat :=
  labels.foldl (fun m label => m.set label ((m.get? label).getD 0 + 1)) OrdMap.empty

structure Backfilled where
  children : Found
  /-- what the second pass was sent, in order -/
  received : List EmittedLog
  perEvent : OrdMap String Nat

def discoveryQuery (chain : EulerChain) (START TO : Nat) : PortalEvmQuery :=
  buildPortalQuery (START, TO) (discoveryFilters chain) .default

def dataQuery (chain : EulerChain) (children : Found) (START TO : Nat) : PortalEvmQuery :=
  buildPortalQuery (START, TO) (dataFilters chain children) .default

/-- The logs of one stream, if it returns. -/
def streamLogs (o : Options) (answers : Answers) (query : PortalEvmQuery) :
    Option (List EmittedLog) :=
  let run := streamFinalized o answers ⟨query.fromBlock, some query.toBlock⟩
  match run.ended with
  | .error _ => none
  | .ok () => logsIn run.blocks

/-- Both passes; each query has its own answers. -/
def backfill (o : Options) (chain : EulerChain) (START TO : Nat)
    (answers : PortalEvmQuery → Answers) : Option Backfilled := do
  let creations ← streamLogs o (answers (discoveryQuery chain START TO))
    (discoveryQuery chain START TO)
  let children := discover chain.factories creations
  let received ← streamLogs o (answers (dataQuery chain children START TO))
    (dataQuery chain children START TO)
  some ⟨children, received, countLabels (received.map (labelOf chain))⟩

/-! ## The server's data -/

structure ServerBlock where
  number : Nat
  logs : List EmittedLog

structure Dataset where
  blocks : List ServerBlock
  ascending : blocks.Pairwise fun a b => a.number < b.number
  lowerCase : ∀ b ∈ blocks, ∀ log ∈ b.logs,
    toLowerCase log.address = log.address ∧ ∀ t ∈ log.topics, toLowerCase t = t

/-- The logs of a range, in order. -/
def Dataset.logs (dataset : Dataset) (lo hi : Nat) : List EmittedLog :=
  (dataset.blocks.filter fun b => lo ≤ b.number ∧ b.number ≤ hi).flatMap fun b => b.logs

/-- How the server writes its blocks for a query: with the logs that are asked for, and all blocks
that have one. -/
structure Serving (dataset : Dataset) (query : PortalEvmQuery) where
  sent : ServerBlock → Bool
  line : ServerBlock → BlockLine
  sends : ∀ b ∈ dataset.blocks, (∃ log ∈ b.logs, query.asksFor log = true) → sent b = true
  numbers : ∀ b ∈ dataset.blocks, (line b).number = b.number
  asked : ∀ b ∈ dataset.blocks,
    (logsOf (line b).value).mapM readLog = some (b.logs.filter query.asksFor)

def Serving.chain {dataset : Dataset} {query : PortalEvmQuery} (serving : Serving dataset query) :
    Chain where
  blocks := (dataset.blocks.filter serving.sent).map serving.line
  ascending := by
    rw [List.pairwise_map]
    refine (dataset.ascending.filter serving.sent).imp_of_mem ?_
    intro a b memA memB below
    rw [serving.numbers a (List.mem_of_mem_filter memA),
      serving.numbers b (List.mem_of_mem_filter memB)]
    exact below

/-! ## One stream -/

theorem mapM_flatMap {α β γ : Type} {f : α → List β} {g : β → Option γ} {h : α → List γ} :
    ∀ {as : List α}, (∀ a ∈ as, (f a).mapM g = some (h a)) →
      (as.flatMap f).mapM g = some (as.flatMap h)
  | [], _ => rfl
  | a :: as, each => by
      have head := each a List.mem_cons_self
      have tail := mapM_flatMap fun b mem => each b (List.mem_cons_of_mem a mem)
      rw [List.flatMap_cons, List.mapM_append, head, tail]
      rfl

variable {dataset : Dataset} {query : PortalEvmQuery}

theorem Serving.chain_range (serving : Serving dataset query) (lo hi : Nat) :
    serving.chain.range lo hi =
      ((dataset.blocks.filter fun b => lo ≤ b.number ∧ b.number ≤ hi).filter serving.sent).map
        serving.line := by
  unfold Chain.range Serving.chain
  rw [List.filter_map, List.filter_filter, List.filter_filter]
  congr 1
  apply List.filter_congr
  intro b mem
  simp [serving.numbers b mem, Bool.and_comm]

/-- Blocks that are not sent have nothing that is asked for. -/
theorem Serving.asked_sent (serving : Serving dataset query) {blocks : List ServerBlock}
    (sub : blocks ⊆ dataset.blocks) :
    ((blocks.filter serving.sent).flatMap fun b => b.logs.filter query.asksFor) =
      (blocks.flatMap fun b => b.logs).filter query.asksFor := by
  induction blocks with
  | nil => rfl
  | cons b bs ih =>
      have ih := ih fun c mem => sub (List.mem_cons_of_mem b mem)
      rw [List.flatMap_cons, List.filter_append, ← ih]
      by_cases sent : serving.sent b = true
      · rw [List.filter_cons_of_pos sent, List.flatMap_cons]
      · rw [List.filter_cons_of_neg sent]
        have none_ : b.logs.filter query.asksFor = [] := by
          rw [List.filter_eq_nil_iff]
          intro log mem asks
          exact sent (serving.sends b (sub List.mem_cons_self) ⟨log, mem, asks⟩)
        rw [none_, List.nil_append]

/-- What a server may answer to the requests of a stream, without ending it early. -/
structure Answered (serving : Serving dataset query) (answers : Answers) : Prop where
  serves : ∀ n cursor, Serves (serving.chain.range cursor query.toBlock) (answers n cursor)
  goesOn : ∀ n cursor, cursor ≤ query.toBlock → blank (answers n cursor) = true →
    serving.chain.range cursor query.toBlock = []

/-- A stream that returns gives the logs of the range that its query asks for. -/
theorem streamLogs_exact {o : Options} {answers : Answers} (serving : Serving dataset query)
    (answered : Answered serving answers) {logs : List EmittedLog}
    (returned : streamLogs o answers query = some logs) :
    logs = (dataset.logs query.fromBlock query.toBlock).filter query.asksFor := by
  obtain ⟨got, rest, split, yielded, whole⟩ :=
    streamFrom_yields (o := o) answered.serves query.fromBlock 0
  unfold streamLogs streamFinalized at returned
  dsimp only at returned
  split at returned
  · cases returned
  next ended =>
    -- nothing was left out
    have all : rest = [] := by
      by_contra some_
      obtain ⟨k, c, inside, isBlank, left⟩ := ((whole ended).1 some_).request
      exact left (answered.goesOn k c inside isBlank)
    rw [all, List.append_nil] at split
    rw [yielded, ← split, serving.chain_range, List.map_map] at returned
    unfold logsIn at returned
    have sub : (dataset.blocks.filter fun b =>
        query.fromBlock ≤ b.number ∧ b.number ≤ query.toBlock) ⊆ dataset.blocks :=
      fun b mem => List.mem_of_mem_filter mem
    rw [List.flatMap_map, mapM_flatMap (h := fun b => b.logs.filter query.asksFor)] at returned
    · rw [serving.asked_sent sub] at returned
      exact (Option.some.inj returned).symm
    · intro b mem
      exact serving.asked b (sub (List.mem_of_mem_filter mem))

/-! ## The children -/

theorem mem_addChild {children : List Hex} {child c : Hex} :
    c ∈ addChild children child ↔ c ∈ children ∨ c = child := by
  unfold addChild
  split
  next here =>
    constructor
    · exact Or.inl
    · rintro (mem | rfl)
      · exact mem
      · exact here
  · simp

theorem nodup_addChild {children : List Hex} (once : children.Nodup) (child : Hex) :
    (addChild children child).Nodup := by
  unfold addChild
  split
  · exact once
  next absent =>
    rw [List.nodup_append]
    refine ⟨once, List.nodup_singleton child, ?_⟩
    intro a memA b memB same
    rw [List.mem_singleton.1 memB] at same
    exact absent (same ▸ memA)

theorem mem_discoverLog {factories : List FactorySource} {children : Found} {log : EmittedLog}
    {name : String} {child : Hex} :
    child ∈ discoverLog factories children log name ↔
      child ∈ children name ∨ childOf factories log = some (name, child) := by
  unfold discoverLog
  cases found : childOf factories log with
  | none => simp
  | some announced =>
      obtain ⟨announcer, c⟩ := announced
      by_cases same : name = announcer
      · subst same
        simp [mem_addChild, eq_comm]
      · simp [same, Ne.symm same]

theorem mem_foldl_discoverLog {factories : List FactorySource} {name : String} {child : Hex}
    (logs : List EmittedLog) (children : Found) :
    child ∈ logs.foldl (discoverLog factories) children name ↔
      child ∈ children name ∨ ∃ log ∈ logs, childOf factories log = some (name, child) := by
  induction logs generalizing children with
  | nil => simp
  | cons log logs ih => simp [ih, mem_discoverLog, or_assoc]

theorem mem_discover {factories : List FactorySource} {logs : List EmittedLog} {name : String}
    {child : Hex} :
    child ∈ discover factories logs name ↔
      ∃ log ∈ logs, childOf factories log = some (name, child) := by
  unfold discover
  simp [mem_foldl_discoverLog]

theorem nodup_discover (factories : List FactorySource) (logs : List EmittedLog) (name : String) :
    (discover factories logs name).Nodup := by
  unfold discover
  suffices each : ∀ children : Found, (∀ n, (children n).Nodup) →
      ∀ n, (logs.foldl (discoverLog factories) children n).Nodup from
    each _ (fun _ => List.nodup_nil) name
  induction logs with
  | nil => exact fun _ once => once
  | cons log logs ih =>
      intro children once
      apply ih
      intro n
      unfold discoverLog
      cases childOf factories log with
      | none => exact once n
      | some announced =>
          dsimp only
          split
          · exact nodup_addChild (once n) _
          · exact once n

/-! ## What the queries ask for -/

/-- A log in lower case, as all logs of a dataset are. -/
structure EmittedLog.LowerCase (log : EmittedLog) : Prop where
  address : toLowerCase log.address = log.address
  topics : ∀ t ∈ log.topics, toLowerCase t = t

theorem Dataset.lowerCase_of_mem {lo hi : Nat} {log : EmittedLog} (mem : log ∈ dataset.logs lo hi) :
    log.LowerCase := by
  obtain ⟨b, memB, here⟩ := List.mem_flatMap.1 mem
  obtain ⟨address, topics⟩ := dataset.lowerCase b (List.mem_of_mem_filter memB) log here
  exact ⟨address, topics⟩

theorem listed_topic {log : EmittedLog} (lower : log.LowerCase) {topics : List Hex}
    (lowers : ∀ t ∈ topics, toLowerCase t = t) :
    listed (some topics) log.topics[0]? = true ↔ ∃ t ∈ topics, log.topics[0]? = some t := by
  cases first : log.topics[0]? with
  | none => simp [listed, isValueMatched]
  | some topic =>
      have same := lower.topics topic (List.mem_of_getElem? first)
      rw [listed_some]
      constructor
      · rintro ⟨t, mem, eq⟩
        rw [lowers t mem, same] at eq
        exact ⟨t, mem, congrArg some eq.symm⟩
      · rintro ⟨t, mem, eq⟩
        exact ⟨t, mem, congrArg toLowerCase (Option.some.inj eq.symm)⟩

theorem eventsFilter_matches {log : EmittedLog} (lower : log.LowerCase)
    {addresses topics : List Hex}
    (lowers : ∀ t ∈ topics, toLowerCase t = t) :
    filterMatchesLog (eventsFilter addresses topics) log = true ↔
      (∃ a ∈ addresses, toLowerCase a = log.address) ∧ ∃ t ∈ topics, log.topics[0]? = some t := by
  have any : ∀ v, listed none v = true := fun _ => rfl
  simp only [filterMatchesLog, eventsFilter, asArray, any, Bool.and_true, Bool.and_eq_true,
    listed_some, listed_topic lower lowers, lower.address]

section Chain

variable {toEventSelector : String → Hex}

/-- Selectors are lower-case hex. -/
theorem childTopic0s_lower
    (selectorLower : ∀ s, toLowerCase (toEventSelector s) = toEventSelector s)
    {sources : List SourceJson} {f : FactorySource}
    (mem : f ∈ (loadEulerChain toEventSelector sources).factories) :
    toLowerCase f.factory = f.factory ∧ toLowerCase f.discoveryTopic0 = f.discoveryTopic0 ∧
      ∀ t ∈ f.childTopic0s, toLowerCase t = t := by
  obtain ⟨source, -, is⟩ := List.mem_filterMap.1 mem
  cases source with
  | singleton name address events => cases is
  | factory name address signature events =>
      cases is
      refine ⟨toLowerCase_idem address, selectorLower signature, ?_⟩
      intro t mem
      obtain ⟨e, -, rfl⟩ := List.mem_map.1 mem
      exact selectorLower e.signature

theorem topic0s_lower (selectorLower : ∀ s, toLowerCase (toEventSelector s) = toEventSelector s)
    {sources : List SourceJson} {s : SingletonSource}
    (mem : s ∈ (loadEulerChain toEventSelector sources).singletons) :
    toLowerCase s.address = s.address ∧ ∀ t ∈ s.topic0s, toLowerCase t = t := by
  obtain ⟨source, -, is⟩ := List.mem_filterMap.1 mem
  cases source with
  | factory name address signature events => cases is
  | singleton name address events =>
      cases is
      refine ⟨toLowerCase_idem address, ?_⟩
      intro t mem
      obtain ⟨e, -, rfl⟩ := List.mem_map.1 mem
      exact selectorLower e.signature

end Chain

/-- A child that some log announces. -/
def Announced (chain : EulerChain) (logs : List EmittedLog) (name : String) (child : Hex) : Prop :=
  ∃ log ∈ logs, childOf chain.factories log = some (name, child)

theorem announced_lower {chain : EulerChain} {logs : List EmittedLog} {name : String} {child : Hex}
    (announced : Announced chain logs name child) : toLowerCase child = child := by
  obtain ⟨log, -, is⟩ := announced
  unfold childOf at is
  simp only [Option.bind_eq_bind, Option.bind_eq_some_iff, Option.some.injEq, Prod.mk.injEq] at is
  obtain ⟨f, -, c, -, -, rfl⟩ := is
  exact toLowerCase_idem c

/-- An event of a child that was announced somewhere in the logs, or of a singleton. -/
def Wanted (chain : EulerChain) (logs : List EmittedLog) (log : EmittedLog) : Prop :=
  (∃ f ∈ chain.factories, Announced chain logs f.name log.address ∧
    ∃ t ∈ f.childTopic0s, log.topics[0]? = some t) ∨
  ∃ s ∈ chain.singletons, s.address = log.address ∧ ∃ t ∈ s.topic0s, log.topics[0]? = some t

section Queries

variable {toEventSelector : String → Hex}
variable (selectorLower : ∀ s, toLowerCase (toEventSelector s) = toEventSelector s)
variable {sources : List SourceJson} {START TO : Nat}

include selectorLower

/-- The creation events are asked for. -/
theorem discoveryQuery_asksFor {log : EmittedLog} (lower : log.LowerCase) {announced : String × Hex}
    (is : childOf (loadEulerChain toEventSelector sources).factories log = some announced) :
    (discoveryQuery (loadEulerChain toEventSelector sources) START TO).asksFor log = true := by
  unfold childOf at is
  obtain ⟨f, found, -⟩ := Option.bind_eq_some_iff.1 is
  have mem := List.mem_of_find?_eq_some found
  have emits := List.find?_some found
  simp only [decide_eq_true_eq] at emits
  obtain ⟨factory, topic, -⟩ := childTopic0s_lower selectorLower mem
  unfold discoveryQuery
  rw [buildPortalQuery_asksFor, List.any_eq_true]
  refine ⟨_, List.mem_map_of_mem mem, ?_⟩
  refine (eventsFilter_matches lower ?_).2 ⟨?_, ?_⟩
  · simpa using topic
  · refine ⟨f.factory, List.mem_singleton_self _, ?_⟩
    rw [factory, emits.1, lower.address]
  · exact ⟨f.discoveryTopic0, List.mem_singleton_self _, emits.2⟩

/-- The data query asks for the events of the children found, and of the singletons. -/
theorem dataQuery_asksFor {logs : List EmittedLog} {children : Found}
    (found : ∀ name child, child ∈ children name ↔
      Announced (loadEulerChain toEventSelector sources) logs name child)
    {log : EmittedLog} (lower : log.LowerCase) :
    (dataQuery (loadEulerChain toEventSelector sources) children START TO).asksFor log = true ↔
      Wanted (loadEulerChain toEventSelector sources) logs log := by
  unfold dataQuery Wanted
  rw [buildPortalQuery_asksFor, List.any_eq_true]
  simp only [dataFilters, List.mem_append, List.mem_filterMap]
  constructor
  · rintro ⟨filter, ⟨f, mem, is⟩ | ⟨s, mem, is⟩, matched⟩
    · left
      split at is
      · cases is
        obtain ⟨⟨a, memA, same⟩, topic⟩ := (eventsFilter_matches lower
          (childTopic0s_lower selectorLower mem).2.2).1 matched
        have announced := (found f.name a).1 memA
        rw [announced_lower announced] at same
        exact ⟨f, mem, same ▸ announced, topic⟩
      · cases is
    · right
      split at is
      · cases is
        obtain ⟨⟨a, memA, same⟩, topic⟩ := (eventsFilter_matches lower
          (topic0s_lower selectorLower mem).2).1 matched
        rw [List.mem_singleton.1 memA, (topic0s_lower selectorLower mem).1] at same
        exact ⟨s, mem, same, topic⟩
      · cases is
  · rintro (⟨f, mem, announced, t, memT, first⟩ | ⟨s, mem, same, t, memT, first⟩)
    · have child := (found f.name log.address).2 announced
      refine ⟨_, .inl ⟨f, mem, if_pos ⟨List.ne_nil_of_mem child, List.ne_nil_of_mem memT⟩⟩, ?_⟩
      exact (eventsFilter_matches lower (childTopic0s_lower selectorLower mem).2.2).2
        ⟨⟨_, child, lower.address⟩, t, memT, first⟩
    · refine ⟨_, .inr ⟨s, mem, if_pos (List.ne_nil_of_mem memT)⟩, ?_⟩
      refine (eventsFilter_matches lower (topic0s_lower selectorLower mem).2).2 ⟨?_, t, memT, first⟩
      exact ⟨_, List.mem_singleton_self _, (topic0s_lower selectorLower mem).1.trans same⟩

end Queries

/-! ## Labels -/

theorem get?_foldl_label {es : List (Hex × String)} {m : OrdMap Hex String} {t : Hex} :
    (∀ label, (es.foldl (fun m e => m.set e.1 e.2) m).get? t = some label →
      m.get? t = some label ∨ (t, label) ∈ es) ∧
    ((m.get? t).isSome ∨ t ∈ es.map Prod.fst →
      ((es.foldl (fun m e => m.set e.1 e.2) m).get? t).isSome) := by
  induction es generalizing m with
  | nil => simp
  | cons e es ih =>
      obtain ⟨from_, there⟩ := ih (m := m.set e.1 e.2)
      rw [List.foldl_cons]
      constructor
      · intro label found
        rcases from_ label found with here | mem
        · rw [OrdMap.get?_set] at here
          split at here
          next same =>
            cases here
            exact .inr (same ▸ List.mem_cons_self)
          next => exact .inl here
        · exact .inr (List.mem_cons_of_mem e mem)
      · intro has
        apply there
        rw [OrdMap.get?_set]
        split
        · exact .inl rfl
        next ne =>
          simp only [List.map_cons, List.mem_cons, ne, false_or] at has
          exact has

/-- A topic of the chain is labelled as one of its events. -/
theorem labelOf_mem {chain : EulerChain} {log : EmittedLog} {t : Hex}
    (first : log.topics[0]? = some t) (mem : t ∈ (eventsOf chain).map Prod.fst) :
    (t, labelOf chain log) ∈ eventsOf chain := by
  unfold labelOf topicLabel
  obtain ⟨label, found⟩ := Option.isSome_iff_exists.1
    ((get?_foldl_label (m := OrdMap.empty)).2 (.inr mem))
  rw [first, Option.bind_some, found]
  rcases get?_foldl_label.1 label found with none_ | mem
  · cases none_
  · exact mem

theorem labelled_topics (name : String) (topic0s : List Hex) (names : List String) :
    (labelled name topic0s names).map Prod.fst = topic0s := by
  unfold labelled
  rw [List.map_map]
  exact List.zipIdx_map_fst 0 topic0s

theorem Wanted.event {chain : EulerChain} {logs : List EmittedLog} {log : EmittedLog}
    (wanted : Wanted chain logs log) :
    ∃ t, log.topics[0]? = some t ∧ t ∈ (eventsOf chain).map Prod.fst := by
  unfold eventsOf
  simp only [List.map_append, List.map_flatMap, labelled_topics, List.mem_append, List.mem_flatMap]
  rcases wanted with ⟨f, mem, -, t, memT, first⟩ | ⟨s, mem, -, t, memT, first⟩
  · exact ⟨t, first, .inl ⟨f, mem, memT⟩⟩
  · exact ⟨t, first, .inr ⟨s, mem, memT⟩⟩

theorem get?_countLabels (labels : List String) (label : String) :
    ((countLabels labels).get? label).getD 0 = labels.count label := by
  unfold countLabels
  suffices from_ : ∀ m : OrdMap String Nat,
      ((labels.foldl (fun m l => m.set l ((m.get? l).getD 0 + 1)) m).get? label).getD 0 =
        (m.get? label).getD 0 + labels.count label by
    simpa using from_ OrdMap.empty
  induction labels with
  | nil => simp
  | cons l labels ih =>
      intro m
      rw [List.foldl_cons, ih, OrdMap.get?_set, List.count_cons]
      by_cases same : label = l
      · subst same
        simp
        omega
      · simp [same, Ne.symm same]

/-! ## Both passes -/

open scoped Classical in
/-- Whatever the server's requests, retries and cuts are, a backfill that returns has found just the
children that the logs of the range announce, and received just the events of these children and of
the singletons, once and in order, wherever in the range a child was created. Each is counted under
one of the chain's events. -/
theorem backfill_exact {toEventSelector : String → Hex}
    (selectorLower : ∀ s, toLowerCase (toEventSelector s) = toEventSelector s)
    (sources : List SourceJson) (dataset : Dataset) (START TO : Nat) (o : Options)
    (serving : ∀ query, Serving dataset query) (answers : PortalEvmQuery → Answers)
    (answered : ∀ query, Answered (serving query) (answers query)) {result : Backfilled}
    (returned : backfill o (loadEulerChain toEventSelector sources) START TO answers =
      some result) :
    let chain := loadEulerChain toEventSelector sources
    let logs := dataset.logs START TO
    (∀ name, (result.children name).Nodup ∧
      ∀ child, child ∈ result.children name ↔ Announced chain logs name child) ∧
    result.received = logs.filter (fun log => Wanted chain logs log) ∧
    (∀ label, (result.perEvent.get? label).getD 0 =
      (result.received.map (labelOf chain)).count label) ∧
    ∀ log ∈ result.received, ∃ t, log.topics[0]? = some t ∧
      (t, labelOf chain log) ∈ eventsOf chain := by
  intro chain logs
  unfold backfill at returned
  obtain ⟨creations, first, returned⟩ := Option.bind_eq_some_iff.1 returned
  obtain ⟨received, second, returned⟩ := Option.bind_eq_some_iff.1 returned
  cases returned
  have first := streamLogs_exact (serving _) (answered _) first
  have second := streamLogs_exact (serving _) (answered _) second
  -- the creations that were asked for are all there are
  have found : ∀ name child, child ∈ discover chain.factories creations name ↔
      Announced chain logs name child := by
    intro name child
    rw [mem_discover, first]
    constructor
    · rintro ⟨log, mem, is⟩
      exact ⟨log, List.mem_of_mem_filter mem, is⟩
    · rintro ⟨log, mem, is⟩
      exact ⟨log, List.mem_filter.2 ⟨mem, discoveryQuery_asksFor selectorLower
        (Dataset.lowerCase_of_mem mem) is⟩, is⟩
  have exact_ : received = logs.filter fun log => Wanted chain logs log := by
    rw [second]
    apply List.filter_congr
    intro log mem
    rw [Bool.eq_iff_iff, decide_eq_true_iff]
    exact dataQuery_asksFor selectorLower found (Dataset.lowerCase_of_mem mem)
  refine ⟨fun name => ⟨nodup_discover .., found name⟩, exact_, get?_countLabels _, ?_⟩
  intro log mem
  rw [exact_] at mem
  have wanted := of_decide_eq_true (List.mem_filter.1 mem).2
  obtain ⟨t, first, event⟩ := wanted.event
  exact ⟨t, first, labelOf_mem first event⟩

/-- An answer with lines is not blank. -/
theorem whole_of_blank {blocks : List BlockLine}
    (isBlank : blank (.ok ⟨200, none, Client.Body.ofBytes [bytesOf blocks]⟩) = true) :
    blocks = [] := by
  simp only [blank, Bool.or_eq_true, Bool.and_eq_true, decide_eq_true_eq] at isBlank
  rcases isBlank with none_ | ⟨-, -, lineless⟩
  · cases none_
  · cases blocks with
    | nil => rfl
    | cons b blocks =>
        -- the first line would be read
        rw [Client.ndjsonLines_pieces, List.flatten_singleton, bytesOf,
          ← List.take_length (l := Client.bodyBytes _), Client.decode_cut, List.map_cons,
          Client.cutText_behind] at lineless
        · rw [Client.pieces_cons b.line_ne_nil b.oneLine] at lineless
          cases lineless
        · unfold Client.bodyBytes
          rw [List.map_cons, Client.joinLines_cons, ← b.byteSize_ended]
          exact (Nat.le_add_right ..).trans_eq (Client.byteSize_append ..).symm

def sampleSelector (signature : String) : Hex := toLowerCase (JSON.units signature)

def sampleSources : List SourceJson :=
  [.factory "EVault" (JSON.units "0xF") "created" [⟨"Deposit", "deposit"⟩],
    .singleton "EVC" (JSON.units "0xe") [⟨"Call", "call"⟩]]

def creation : EmittedLog where
  address := JSON.units "0xf"
  topics := [JSON.units "created", JSON.units "0x000000000000000000000000c"]
  data := JSON.units "0x"

def deposit : EmittedLog where
  address := JSON.units "0xc"
  topics := [JSON.units "deposit"]
  data := JSON.units "0x"

/-- A child is created, and then has an event. -/
def sampleDataset : Dataset where
  blocks := [⟨1, [creation]⟩, ⟨2, [deposit]⟩]
  ascending := by decide
  lowerCase := by decide

def creationBlock : BlockLine :=
  .ofLine ("\x7b\"header\":\x7b\"number\":1\x7d,\"logs\":[\x7b\"address\":\"0xf\",\"topics\":[" ++
    "\"created\",\"0x000000000000000000000000c\"],\"data\":\"0x\"\x7d]\x7d").toList 1
    (by decide +kernel) (by decide +kernel) (by decide +kernel) (by decide +kernel)

def depositBlock : BlockLine :=
  .ofLine ("\x7b\"header\":\x7b\"number\":2\x7d,\"logs\":[\x7b\"address\":\"0xc\",\"topics\":[" ++
    "\"deposit\"],\"data\":\"0x\"\x7d]\x7d").toList 2
    (by decide +kernel) (by decide +kernel) (by decide +kernel) (by decide +kernel)

def sampleServing (query : PortalEvmQuery) : Serving sampleDataset query where
  sent := fun _ => true
  line := fun b =>
    if b.number = 1 then if query.asksFor creation then creationBlock else firstBlock
    else if query.asksFor deposit then depositBlock else secondBlock
  sends := fun _ _ _ => rfl
  numbers := by
    intro b mem
    rcases List.mem_pair.1 mem with rfl | rfl
    · cases query.asksFor creation <;> rfl
    · cases query.asksFor deposit <;> rfl
  asked := by
    intro b mem
    have first : (logsOf creationBlock.value).mapM readLog = some [creation] := by decide +kernel
    have second : (logsOf depositBlock.value).mapM readLog = some [deposit] := by decide +kernel
    have bare : (logsOf firstBlock.value).mapM readLog = some [] ∧
        (logsOf secondBlock.value).mapM readLog = some [] := by decide +kernel
    rcases List.mem_pair.1 mem with rfl | rfl
    · cases asks : query.asksFor creation with
      | false => simpa [asks] using bare.1
      | true => simpa [asks] using first
    · cases asks : query.asksFor deposit with
      | false => simpa [asks] using bare.2
      | true => simpa [asks] using second

/-- Every request is answered by all that is left of the range. -/
def sampleAnswers (query : PortalEvmQuery) : Answers := fun _ cursor =>
  .ok ⟨200, none, Client.Body.ofBytes
    [bytesOf ((sampleServing query).chain.range cursor query.toBlock)]⟩

theorem backfill_exact_sample :
    ∃ result, backfill ⟨8⟩ (loadEulerChain sampleSelector sampleSources) 1 2 sampleAnswers =
        some result ∧ result.received = [deposit] ∧
      Announced (loadEulerChain sampleSelector sampleSources) (sampleDataset.logs 1 2) "EVault"
        deposit.address := by
  have run : ((backfill ⟨8⟩ (loadEulerChain sampleSelector sampleSources) 1 2 sampleAnswers).map
      fun result => (result.received, result.children "EVault")) =
        some ([deposit], [deposit.address]) := by decide +kernel
  obtain ⟨result, returned, is⟩ := Option.map_eq_some_iff.1 run
  obtain ⟨received, children⟩ := Prod.mk.inj is
  have whole := backfill_exact (fun s => toLowerCase_idem (JSON.units s)) sampleSources
    sampleDataset 1 2 ⟨8⟩ sampleServing sampleAnswers (fun query =>
      { serves := fun n cursor => .served List.prefix_rfl (by decide) (by decide) none
          (bytesOf ((sampleServing query).chain.range cursor query.toBlock)).length (by simp)
        goesOn := fun n cursor _ isBlank => whole_of_blank isBlank }) returned
  refine ⟨result, returned, received, ((whole.1 "EVault").2 deposit.address).1 ?_⟩
  rw [children]
  exact List.mem_singleton_self _

end PortalPonder.PortalSync
