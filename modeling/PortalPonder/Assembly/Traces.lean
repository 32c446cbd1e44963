import PortalPonder.FetchSpec
import PortalPonder.Transform

/-!
# Ranking traces

The Portal returns the call traces of a block flat. The traces of one transaction are put into
depth-first order, which gives each its rank, an error is handed down to the frames that have
none of their own, and only then the frames are matched against the filters.
-/

namespace PortalPonder.Assembly

/-- A trace; the selectors stand in `action` and `result`, or flattened in `props`. -/
structure RawTrace where
  transactionIndex : Option Nat
  traceAddress : Option (List Nat)
  type : Option String
  action : List (String × JsVal)
  result : List (String × JsVal)
  props : List (String × JsVal)
  deriving DecidableEq, Repr

/-- A frame of geth's `callTracer`. -/
structure CallFrame where
  type : String
  «from» : Option Address
  «to» : Option Address
  value : Option Hex
  gas : Hex
  gasUsed : Hex
  input : JsVal
  output : JsVal
  error : JsVal
  revertReason : JsVal
  index : Nat
  subcalls : JsVal
  deriving DecidableEq, Repr

structure RankedTrace where
  frame : CallFrame
  index : Nat
  traceAddress : List Nat
  deriving DecidableEq, Repr

def CALL_TYPE : JsVal → String
  | .str "delegatecall" => "DELEGATECALL"
  | .str "staticcall" => "STATICCALL"
  | .str "callcode" => "CALLCODE"
  | _ => "CALL"

/-- Parent before child: the depth-first order. -/
def cmpTraceAddr : List Nat → List Nat → Int
  | [], b => -(b.length : Int)
  | a, [] => a.length
  | x :: a, y :: b => if x ≠ y then (x : Int) - y else cmpTraceAddr a b

/-- A value read at the first place that has it. -/
def firstOf (t : RawTrace) (nested : List (String × JsVal)) (name flat : String) : JsVal :=
  (prop nested name).orElse (prop t.props flat)

/-- The frame of a call, a creation or a self-destruct; nothing else has one. -/
def parityToCallFrame (t : RawTrace) (index : Nat) : Option CallFrame :=
  let frame := fun (type : String) (sender target value gas gasUsed input output : JsVal) =>
    { type
      «from» := lowered sender
      «to» := truthy (lowered target)
      value := opt value
      gas := hx (gas.orElse (.num 0))
      gasUsed := hx (gasUsed.orElse (.num 0))
      input := input.orElse (.str "0x")
      output := output.orElse .undefined
      error := (prop t.props "error").orElse .undefined
      revertReason := (prop t.props "revertReason").orElse .undefined
      index
      subcalls := (prop t.props "subtraces").orElse (.num 0) : CallFrame }
  match t.type with
  | some "call" =>
      some (frame
        (CALL_TYPE (((prop t.action "callType").orElse (prop t.action "type")).orElse
          ((prop t.props "callCallType").orElse (prop t.props "callType"))))
        (firstOf t t.action "from" "callFrom") (firstOf t t.action "to" "callTo")
        (firstOf t t.action "value" "callValue") (firstOf t t.action "gas" "callGas")
        (firstOf t t.result "gasUsed" "callResultGasUsed")
        (firstOf t t.action "input" "callInput") (firstOf t t.result "output" "callResultOutput"))
  | some "create" =>
      some (frame "CREATE"
        (firstOf t t.action "from" "createFrom")
        (firstOf t t.result "address" "createResultAddress")
        (firstOf t t.action "value" "createValue") (firstOf t t.action "gas" "createGas")
        (firstOf t t.result "gasUsed" "createResultGasUsed")
        (firstOf t t.action "init" "createInit") (firstOf t t.result "code" "createResultCode"))
  | some "suicide" =>
      some (frame "SELFDESTRUCT"
        (firstOf t t.action "address" "suicideAddress")
        (firstOf t t.action "refundAddress" "suicideRefundAddress")
        (firstOf t t.action "balance" "suicideBalance") (.num 0) (.num 0) (.str "0x") .undefined)
  | _ => none

structure TraceError where
  error : JsVal
  revertReason : JsVal
  deriving DecidableEq, Repr

/-- `t.traceAddress ?? []` -/
def RawTrace.path (t : RawTrace) : List Nat := t.traceAddress.getD []

/-- A frame keeps its own error, and takes that of its parent if it has none. -/
def cascadeTraceErrors (sorted : List RawTrace) : OrdMap (List Nat) TraceError :=
  sorted.foldl (fun effective t =>
    match (prop t.props "error").orElse .undefined with
    | .undefined =>
        if t.path = [] then effective
        else
          match effective.get? t.path.dropLast with
          | none => effective
          | some parentError => effective.set t.path parentError
    | ownError =>
        effective.set t.path
          { error := ownError, revertReason := (prop t.props "revertReason").orElse .undefined })
    OrdMap.empty

def sortTraces (traces : List RawTrace) : List RawTrace :=
  traces.mergeSort fun x y => cmpTraceAddr x.path y.path ≤ 0

def withError (effectiveErrors : OrdMap (List Nat) TraceError) (path : List Nat)
    (frame : CallFrame) : CallFrame :=
  match effectiveErrors.get? path with
  | none => frame
  | some cascaded => { frame with error := cascaded.error, revertReason := cascaded.revertReason }

/-- The frames of one transaction; the rank of a frame is its place among all traces. -/
def rankTraces (traces : List RawTrace) : List RankedTrace :=
  let sorted := sortTraces traces
  let effectiveErrors := cascadeTraceErrors sorted
  sorted.zipIdx.filterMap fun e =>
    (parityToCallFrame e.1 e.2).map fun frame =>
      { frame := withError effectiveErrors e.1.path frame
        index := e.2
        traceAddress := e.1.path }

/-! ## Frames are matched by what they call -/

/-- Two frames that differ at most in rank, gas and error. -/
def SameCall (a b : CallFrame) : Prop :=
  a.type = b.type ∧ a.from = b.from ∧ a.to = b.to ∧ a.value = b.value ∧ a.input = b.input

/-- The upstream matchers of traces and transfers. They look at the call of a frame, and not at
its rank, its gas or its error. -/
structure TraceMatching (F : Type) where
  isTraceFilterMatched : TraceFilter F Address → CallFrame → Nat → Bool
  isTransferFilterMatched : TransferFilter F Address → CallFrame → Nat → Bool
  trace_call : ∀ f a b bn, SameCall a b → isTraceFilterMatched f a bn = isTraceFilterMatched f b bn
  transfer_call : ∀ f a b bn, SameCall a b →
    isTransferFilterMatched f a bn = isTransferFilterMatched f b bn

theorem parityToCallFrame_index (t : RawTrace) (i j : Nat) :
    parityToCallFrame t i = (parityToCallFrame t j).map fun frame => { frame with index := i } := by
  unfold parityToCallFrame
  dsimp only
  split <;> rfl

theorem mem_sortTraces {traces : List RawTrace} {t : RawTrace} :
    t ∈ sortTraces traces ↔ t ∈ traces := (List.mergeSort_perm _ _).mem_iff

theorem withError_call (effectiveErrors : OrdMap (List Nat) TraceError) (path : List Nat)
    (frame : CallFrame) : SameCall (withError effectiveErrors path frame) frame := by
  unfold withError
  split
  · exact ⟨rfl, rfl, rfl, rfl, rfl⟩
  · exact ⟨rfl, rfl, rfl, rfl, rfl⟩

/-- Every ranked trace is the frame of a trace. -/
theorem mem_rankTraces {traces : List RawTrace} {r : RankedTrace} (mem : r ∈ rankTraces traces) :
    ∃ t ∈ traces, ∃ frame, parityToCallFrame t 0 = some frame ∧ SameCall r.frame frame := by
  obtain ⟨⟨t, i⟩, inSorted, ranked⟩ := List.mem_filterMap.1 mem
  obtain ⟨frame, isFrame, rfl⟩ := Option.map_eq_some_iff.1 ranked
  have here : t ∈ traces := mem_sortTraces.1 (List.fst_mem_of_mem_zipIdx inSorted)
  rw [parityToCallFrame_index t i 0] at isFrame
  obtain ⟨frame₀, isFrame₀, rfl⟩ := Option.map_eq_some_iff.1 isFrame
  exact ⟨t, here, frame₀, isFrame₀, withError_call _ _ _⟩

/-- Every trace that has a frame is ranked. -/
theorem exists_rankTraces {traces : List RawTrace} {t : RawTrace} (mem : t ∈ traces)
    {frame : CallFrame} (isFrame : parityToCallFrame t 0 = some frame) :
    ∃ r ∈ rankTraces traces, SameCall r.frame frame := by
  obtain ⟨i, within, at_⟩ := List.getElem_of_mem (mem_sortTraces.2 mem)
  have inSorted : (t, i) ∈ (sortTraces traces).zipIdx := by
    rw [List.mem_zipIdx_iff_getElem?, List.getElem?_eq_getElem within, at_]
  have ranked : parityToCallFrame t i = some { frame with index := i } := by
    rw [parityToCallFrame_index t i 0, isFrame]
    rfl
  let r : RankedTrace :=
    { frame := withError (cascadeTraceErrors (sortTraces traces)) t.path { frame with index := i }
      index := i
      traceAddress := t.path }
  refine ⟨r, List.mem_filterMap.2 ⟨(t, i), inSorted, ?_⟩, withError_call _ _ { frame with index := i }⟩
  rw [ranked]
  rfl

end PortalPonder.Assembly
