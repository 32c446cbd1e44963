import Mathlib.Order.Lattice
import Mathlib.Order.Defs.LinearOrder

/-!
# The chunk grid

The grid arithmetic of the historical sync. A missing upper end is `none`; block numbers are
natural numbers.
-/

namespace PortalPonder.Historical

/-- An interval of blocks, both ends included. -/
abbrev Interval := Nat × Nat

/-- The chunk a block falls in. -/
def idxOf (blockNumber chunkBlocks : Nat) : Nat := blockNumber / chunkBlocks

/-- The lower of a block and an end that may be missing. -/
def clampEnd (block : Nat) : Option Nat → Nat
  | none => block
  | some e => min block e

/-- The grid-aligned range of a chunk, clamped to the backfill window. -/
def chunkRange (idx chunkBlocks backfillStart : Nat) (endBlock : Option Nat) : Interval :=
  (max (idx * chunkBlocks) backfillStart,
    clampEnd (idx * chunkBlocks + chunkBlocks - 1) endBlock)

/-- The fetch window: it covers `need`, and its span is at least the quantum where there is
enough left. -/
def fetchBounds (gridFrom desiredTo : Nat) (need : Option Interval) (quantum : Nat) : Interval :=
  let fromBlock := match need with
    | none => gridFrom
    | some need => max gridFrom need.1
  let needTo := match need with
    | none => 0
    | some need => need.2
  (fromBlock, min desiredTo (max needTo (fromBlock + quantum - 1)))

/-- `Math.round(head / 25_000_000)` -/
def density (head : Nat) : Nat := max 1 ((2 * head + 25000000) / 50000000)

def scaleChunkBlocks (base head : Nat) : Nat := min (base * density head) 25000000

def traceSafeChunkBlocks (base : Nat) (needTraces : Bool) (cap : Nat) : Nat :=
  if needTraces = true ∧ base > cap then cap else base

/-- The chunks to prefetch after `endIdx`, at depths `d`, `d + 1`, … -/
def readAheadFrom (endIdx chunkBlocks : Nat) (raEnd : Option Nat) (saturated : Bool) :
    Nat → Nat → List Nat
  | 0, _ => []
  | left + 1, d =>
      if (raEnd.any fun e => (endIdx + d) * chunkBlocks > e) = true then []
      else if d > 1 ∧ saturated = true then []
      else (endIdx + d) :: readAheadFrom endIdx chunkBlocks raEnd saturated left (d + 1)

/-- Read-ahead: always one chunk, deeper only while the row buffer is not saturated, and never
past `raEnd`. -/
def readAheadPlan (endIdx chunkBlocks : Nat) (raEnd : Option Nat) (readahead : Nat)
    (saturated : Bool) : List Nat :=
  readAheadFrom endIdx chunkBlocks raEnd saturated readahead 1

/-- The cached chunks that lie strictly behind `intervalStart`. -/
def evictionPlan (cachedIdxs : List Nat) (chunkBlocks intervalStart : Nat) : List Nat :=
  cachedIdxs.filter fun idx => (idx + 1) * chunkBlocks ≤ intervalStart

/-! ## What the bounds say -/

theorem clampEnd_le (block : Nat) (e : Option Nat) : clampEnd block e ≤ block := by
  cases e with
  | none => exact Nat.le_refl block
  | some e => exact Nat.min_le_left block e

/-- A block is within a clamped end when it is within both. -/
theorem le_clampEnd {b block : Nat} {e : Option Nat} :
    b ≤ clampEnd block e ↔ b ≤ block ∧ ∀ n ∈ e, b ≤ n := by
  cases e with
  | none => simp [clampEnd]
  | some e => simp [clampEnd]

theorem fetchBounds_to_le (gridFrom desiredTo : Nat) (need : Option Interval) (quantum : Nat) :
    (fetchBounds gridFrom desiredTo need quantum).2 ≤ desiredTo :=
  Nat.min_le_left _ _

@[simp] theorem fetchBounds_none (gridFrom desiredTo quantum : Nat) :
    fetchBounds gridFrom desiredTo none quantum =
      (gridFrom, min desiredTo (gridFrom + quantum - 1)) := by
  simp [fetchBounds]

@[simp] theorem fetchBounds_some (gridFrom desiredTo quantum : Nat) (need : Interval) :
    fetchBounds gridFrom desiredTo (some need) quantum =
      (max gridFrom need.1,
        min desiredTo (max need.2 (max gridFrom need.1 + quantum - 1))) := rfl

/-- Capping the grid a second time changes nothing. -/
theorem traceSafeChunkBlocks_idem (base : Nat) (needTraces : Bool) (cap : Nat) :
    traceSafeChunkBlocks (traceSafeChunkBlocks base needTraces cap) needTraces cap =
      traceSafeChunkBlocks base needTraces cap := by
  unfold traceSafeChunkBlocks
  by_cases over_ : needTraces = true ∧ base > cap
  · rw [if_pos over_, if_neg]
    intro again
    omega
  · rw [if_neg over_, if_neg over_]

theorem scaleChunkBlocks_pos {base : Nat} (pos : 0 < base) (head : Nat) :
    0 < scaleChunkBlocks base head := by
  have dense : 0 < density head := Nat.lt_of_lt_of_le Nat.one_pos (Nat.le_max_left 1 _)
  have scaled : 0 < base * density head := Nat.mul_pos pos dense
  unfold scaleChunkBlocks
  omega

theorem traceSafeChunkBlocks_pos {base cap : Nat} (pos : 0 < base) (capPos : 0 < cap)
    (needTraces : Bool) : 0 < traceSafeChunkBlocks base needTraces cap := by
  unfold traceSafeChunkBlocks
  split
  · exact capPos
  · exact pos

end PortalPonder.Historical
