import PortalPonder.Lib.Machine
import PortalPonder.Lib.OrdMap
import Mathlib.Tactic.Common
import Mathlib.Algebra.Order.Ring.Int

/-!
# Child discovery

The discovery state machine of a chain with factories. `ensure` plans an extension of the scanned
range behind the optimistic watermark `through`, chained on the extension planned before it; an
extension that succeeds moves the confirmed watermark, one that fails rolls `through` back. The
promise of an extension is its position in `scans`; `none` stands for a promise that is resolved
from the start.

An extension awaits its predecessor, then streams its windows, which deliver block by block and
in any order with respect to each other. A failed window does not stop the others. The handler of
a rejection is registered before anyone can await the promise, so it runs before the rejection
reaches a successor.
-/

namespace PortalPonder.Historical

/-- `⌈n / d⌉` -/
def ceilDiv (n d : Nat) : Nat := (n + d - 1) / d

/-- Split a range into at most `discoveryWindows` windows sized by `chunkBlocks`. -/
def splitWindows (fromBlock toBlock : Int) (chunkBlocks discoveryWindows : Nat) :
    List (Int × Int) :=
  let span := (toBlock - fromBlock + 1).toNat
  let P := max 1 (min discoveryWindows (ceilDiv span chunkBlocks))
  let w := ceilDiv span P
  (((List.range P).map fun i : Nat => fromBlock + i * w).takeWhile fun lo => lo ≤ toBlock).map
    fun lo => (lo, min toBlock (lo + w - 1))

/-- A positive width that is doubled, or no bound at all. -/
abbrev Quantum := Option Nat

structure PlanOpts where
  chunkBlocks : Nat
  endHint : Int
  discoveryWindows : Nat
  quantum : Quantum
  deriving DecidableEq, Repr

structure Plan where
  fromBlock : Int
  toBlock : Int
  windows : List (Int × Int)
  deriving DecidableEq, Repr

/-- The next extension that reaches `needTo`, if one is needed and there is a floor. -/
def planDiscovery (floor through needTo : Int) (opts : PlanOpts) : Option Plan :=
  if floor < 0 then none
  else if needTo ≤ through then none
  else
    let fromBlock := if through < 0 then floor else through + 1
    let reach := match opts.quantum with
      | none => opts.endHint
      | some q => min opts.endHint (through + q)
    let toBlock := max needTo reach
    some ⟨fromBlock, toBlock,
      splitWindows fromBlock toBlock opts.chunkBlocks opts.discoveryWindows⟩

inductive ScanStatus where
  /-- awaits its predecessor -/
  | waiting
  | running
  | resolved
  | rejected
  /-- rejected, and its handler has run -/
  | handled
  deriving DecidableEq, Repr

/-- One planned extension. A window is what it still has to deliver, factory by factory. -/
structure Scan (F : Type) where
  earlier : Option Nat
  gen : Nat
  fromBlock : Int
  toBlock : Int
  windows : List (List (F × Int))
  status : ScanStatus
  deriving Repr

/-- The children each factory creates in each block, in log order. -/
abbrev Creations (F A : Type) := F → Int → List A

/-- The known children of each factory, with their creation blocks. -/
abbrev Children (F A : Type) := F → OrdMap A Int

/-- Child `c` of factory `f` is known, from block `b` on. -/
def Children.Has {F A : Type} (known : Children F A) (f : F) (c : A) (b : Int) : Prop :=
  (c, b) ∈ (known f).entries

structure Discovery (F A : Type) where
  floor : Int
  through : Int
  confirmed : Int
  quantum : Quantum
  inflight : Option Nat
  generation : Nat
  scans : List (Scan F)
  childAddresses : Children F A
  /-- found, and not yet persisted -/
  pendingChildren : OrdMap (F × A) Int

variable {F A : Type}

/-- What a client of discovery fixes at construction. -/
structure DiscoveryDeps (F A : Type) where
  factories : List F
  creations : Creations F A
  discoveryWindows : Nat
  /-- `none` without warm-up -/
  initialQuantum : Quantum
  /-- the children that were stored before -/
  preloaded : Children F A

def createDiscovery (deps : DiscoveryDeps F A) : Discovery F A where
  floor := -1
  through := -1
  confirmed := -1
  quantum := deps.initialQuantum
  inflight := none
  generation := 0
  scans := []
  childAddresses := deps.preloaded
  pendingChildren := OrdMap.empty

namespace Discovery

def setFloor (d : Discovery F A) (floorBlock : Int) : Discovery F A :=
  { d with floor := floorBlock }

def seed (d : Discovery F A) (throughBlock : Int) : Discovery F A :=
  if d.floor < 0 then d
  else if d.through ≠ -1 ∨ d.confirmed ≠ -1 then d
  else if throughBlock < d.floor then d
  else { d with through := throughBlock, confirmed := throughBlock }

def reset (deps : DiscoveryDeps F A) (d : Discovery F A) : Discovery F A :=
  { d with
    floor := -1
    through := -1
    confirmed := -1
    quantum := deps.initialQuantum
    inflight := none
    generation := d.generation + 1 }

/-- What a window delivers: every factory over the whole window. -/
def windowWork (factories : List F) (window : Int × Int) : List (F × Int) :=
  factories.flatMap fun f =>
    (List.range (window.2 - window.1 + 1).toNat).map fun k : Nat => (f, window.1 + k)

/-- `ensure`: the new state, and the promise that is returned. -/
def ensure (deps : DiscoveryDeps F A) (d : Discovery F A) (needTo : Int) (chunkBlocks : Nat)
    (endHint : Int) : Discovery F A × Option Nat :=
  if deps.factories.isEmpty then (d, none)
  else
    match planDiscovery d.floor d.through needTo
        ⟨chunkBlocks, endHint, deps.discoveryWindows, d.quantum⟩ with
    | none => (d, d.inflight)
    | some plan =>
        let scan : Scan F :=
          { earlier := d.inflight
            gen := d.generation
            fromBlock := plan.fromBlock
            toBlock := plan.toBlock
            windows := plan.windows.map (windowWork deps.factories)
            status := .waiting }
        ({ d with
            through := plan.toBlock
            inflight := some d.scans.length
            scans := d.scans ++ [scan] },
          some d.scans.length)

/-- The queued children created in a range, and the queue without them. -/
def takePendingInRange (d : Discovery F A) (lo hi : Int) :
    OrdMap (F × A) Int × Discovery F A :=
  (d.pendingChildren.filter fun _ block => block ≥ lo ∧ block ≤ hi,
    { d with pendingChildren := d.pendingChildren.filter fun _ block => ¬(block ≥ lo ∧ block ≤ hi) })

def scanStatus (d : Discovery F A) (i : Nat) : Option ScanStatus :=
  (d.scans[i]?).map Scan.status

/-- A promise is resolved: it was from the start, or its scan is. -/
def isResolved (d : Discovery F A) : Option Nat → Bool
  | none => true
  | some i => d.scanStatus i = some .resolved

def setStatus (d : Discovery F A) (i : Nat) (status : ScanStatus) : Discovery F A :=
  { d with scans := d.scans.modify i fun scan => { scan with status := status } }

/-! ## What the event loop can run next -/

inductive Action where
  | setFloor (floorBlock : Nat)
  | seed (throughBlock : Int)
  | reset
  | ensure (needTo : Nat) (chunkBlocks : Nat) (endHint : Int)
  /-- the predecessor has resolved: the windows are opened -/
  | start (i : Nat)
  /-- the predecessor was rejected, and so is this scan -/
  | propagate (i : Nat)
  /-- window `w` delivers its next block -/
  | deliver (i w : Nat)
  /-- every window is drained -/
  | resolve (i : Nat)
  /-- a window fails -/
  | fail (i : Nat)
  /-- the handler of a rejected scan -/
  | handle (i : Nat)
  deriving DecidableEq, Repr

/-- The windows are opened. -/
def start (d : Discovery F A) (i : Nat) : Option (Discovery F A) :=
  match d.scans[i]? with
  | none => none
  | some scan =>
      if scan.status = .waiting ∧ d.isResolved scan.earlier = true then
        some (d.setStatus i .running)
      else none

/-- The `await` of the predecessor throws. -/
def propagate (d : Discovery F A) (i : Nat) : Option (Discovery F A) :=
  match d.scans[i]? with
  | none => none
  | some scan =>
      if scan.status = .waiting ∧ (scan.earlier.bind d.scanStatus) = some .handled then
        some (d.setStatus i .rejected)
      else none

/-- The scan has succeeded; a scan of an earlier generation confirms nothing. -/
def resolve (d : Discovery F A) (i : Nat) : Option (Discovery F A) :=
  match d.scans[i]? with
  | none => none
  | some scan =>
      if scan.status = .running ∧ scan.windows.all List.isEmpty = true then
        let d := d.setStatus i .resolved
        if scan.gen ≠ d.generation then some d
        else some { d with confirmed := scan.toBlock, quantum := d.quantum.map (2 * ·) }
      else none

def fail (d : Discovery F A) (i : Nat) : Option (Discovery F A) :=
  if d.scanStatus i = some .running then some (d.setStatus i .rejected) else none

/-- Roll the optimistic watermark back, and drop the promise. -/
def handle (d : Discovery F A) (i : Nat) : Option (Discovery F A) :=
  match d.scans[i]? with
  | none => none
  | some scan =>
      if scan.status = .rejected then
        let d := d.setStatus i .handled
        if scan.gen ≠ d.generation then some d
        else
          some { d with
            through := d.confirmed
            inflight := if d.inflight = some i then none else d.inflight }
      else none

/-! ## Recording -/

variable [DecidableEq F] [DecidableEq A]

/-- Creation block `bn` is the lowest one so far. -/
def isNews (prev : Option Int) (bn : Int) : Bool :=
  match prev with
  | none => true
  | some prev => prev > bn

/-- One factory log: the child is recorded at its earliest block, and queued if that is news. -/
def record (d : Discovery F A) (factory : F) (bn : Int) (child : A) : Discovery F A :=
  if isNews ((d.childAddresses factory).get? child) bn = true then
    { d with
      childAddresses := fun f =>
        if f = factory then (d.childAddresses f).set child bn else d.childAddresses f
      pendingChildren := d.pendingChildren.set (factory, child) bn }
  else d

/-- The other historical sync has found a child: it shares the child map, and not the queue. -/
def share (d : Discovery F A) (factory : F) (bn : Int) (child : A) : Discovery F A :=
  { d.record factory bn child with pendingChildren := d.pendingChildren }

/-- Put a flush back, each child at its lower block. -/
def restorePending (d : Discovery F A) (flush : OrdMap (F × A) Int) : Discovery F A :=
  { d with
    pendingChildren := flush.entries.foldl
      (fun pend e =>
        match pend.get? e.1 with
        | none => pend.set e.1 e.2
        | some prev => if prev > e.2 then pend.set e.1 e.2 else pend)
      d.pendingChildren }

/-- The next block of a window. Windows of a scan that has failed or is stale go on. -/
def deliver (deps : DiscoveryDeps F A) (d : Discovery F A) (i w : Nat) : Option (Discovery F A) :=
  match d.scans[i]? with
  | none => none
  | some scan =>
      if scan.status = .waiting then none
      else
        match scan.windows[w]? with
        | some ((f, b) :: todo) =>
            let d := { d with
              scans := d.scans.set i { scan with windows := scan.windows.set w todo } }
            some ((deps.creations f b).foldl (fun d child => d.record f b child) d)
        | _ => none

def step (deps : DiscoveryDeps F A) (d : Discovery F A) : Action → Option (Discovery F A)
  | .setFloor floorBlock => some (d.setFloor floorBlock)
  | .seed throughBlock => some (d.seed throughBlock)
  | .reset => some (d.reset deps)
  | .ensure needTo chunkBlocks endHint => some (d.ensure deps needTo chunkBlocks endHint).1
  | .start i => d.start i
  | .propagate i => d.propagate i
  | .deliver i w => d.deliver deps i w
  | .resolve i => d.resolve i
  | .fail i => d.fail i
  | .handle i => d.handle i

end Discovery

end PortalPonder.Historical
