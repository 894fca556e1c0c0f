import Mathlib.Algebra.Order.Floor.Ring
import Mathlib.Data.Rat.Floor
import StatEngine.Fault

/-!
# Rational numbers

The kind of number of a theory in which arithmetic is exact: sums do not depend on the order of their
terms. Whether computations have the same result can be decided.
-/

namespace StatEngine.Exact

/-- The nearest whole number, halves away from zero. -/
def round (a : ℚ) : ℤ := if 0 ≤ a then ⌊a + 1 / 2⌋ else -⌊-a + 1 / 2⌋

instance : Number ℚ where
  ofNat n := n
  tolerance := 1 / 10 ^ 10
  abs a := |a|
  max a b := a ⊔ b
  round a := round a
  powTen e := 10 ^ e
  index a := if a < 0 then none else some (round a).toNat

deriving instance DecidableEq for Amount

deriving instance DecidableEq for Fault

end StatEngine.Exact
