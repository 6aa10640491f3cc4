import Lockstep.Fault
import Lockstep.Number.Binary64

/-!
The decimal text of integers, which neither reading nor writing may let grow too long.
-/

namespace Lockstep

/-- The greatest number of decimal digits that an integer is read or written with. -/
def digitLimit : Nat := 4300

/-- Whether an integer is short enough to be written. Its sign does not count. -/
def isWritable (n : Int) : Bool := Binary64.decimalLength n.natAbs ≤ digitLimit

def writeInt (n : Int) : Except Fault String :=
  if isWritable n then .ok (toString n) else .error .digitLimit

theorem writeInt_eq_ok {n : Int} (h : isWritable n) : writeInt n = .ok (toString n) := if_pos h

theorem writeInt_eq_error {n : Int} (h : ¬ isWritable n) : writeInt n = .error .digitLimit := if_neg h

end Lockstep
