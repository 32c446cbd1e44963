import Mathlib.Init

/-!
# Runtime invariant checks

`invariant` asserts an O(1) invariant; it is disabled only in mode `off`. A failed check
throws a violation that carries the catalogue id and the message.
-/

namespace PortalPonder

inductive CheckMode where
  | off
  | on
  | strict
  deriving DecidableEq, Repr

structure InvariantViolation where
  id : String
  msg : String
  deriving DecidableEq, Repr

/-- Assert an O(1) invariant. -/
def invariant (mode : CheckMode) (id : String) (cond : Bool) (msg : String) :
    Except InvariantViolation Unit :=
  if mode = .off then .ok ()
  else if cond then .ok ()
  else .error { id, msg }

@[simp] theorem invariant_of_holds (mode : CheckMode) (id msg : String) :
    invariant mode id true msg = .ok () := by
  simp [invariant]

/-- With the checks on, passing one establishes its condition. -/
theorem holds_of_invariant {mode : CheckMode} {id msg : String} {cond : Bool}
    (enabled : mode ≠ .off) (passed : invariant mode id cond msg = .ok ()) : cond = true := by
  unfold invariant at passed
  rw [if_neg enabled] at passed
  by_cases holds : cond
  · exact holds
  · simp [holds] at passed

end PortalPonder
