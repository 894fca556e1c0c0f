import StatEngine.Number

/-!
# Binary doubles as numbers

The kind of number a running engine computes with. Powers of ten are built by repeated squaring and
a negative exponent takes the reciprocal of the positive power, so that every factor up to `10 ^ 22`
is exact.
-/

namespace StatEngine.Double

/-- `acc * base ^ n` by repeated squaring, lowest binary digit of `n` first. -/
def powMul (acc base : Float) (n : Nat) : Float :=
  let acc := if n % 2 = 1 then acc * base else acc
  if n / 2 = 0 then acc else powMul acc (base * base) (n / 2)
termination_by n
decreasing_by omega

/-- The power of ten with exponent `e`, infinite when it is too large for a double. -/
def powTen (e : Int) : Float :=
  let power := powMul 1.0 10.0 e.natAbs
  if e < 0 then 1.0 / power else power

/-- The larger of two doubles, ignoring one that is not a number. -/
def max (a b : Float) : Float :=
  if a.isNaN then b else if b.isNaN then a else if a < b then b else a

/-- The list position a double selects. What is not a number selects the first position, and a
position beyond every list stands for numbers that are too large. -/
def index (a : Float) : Option Nat :=
  if a < 0.0 then none else some a.round.toUInt64.toNat

instance : Number Float where
  ofNat := Float.ofNat
  tolerance := 1e-10
  abs := Float.abs
  max := max
  round := Float.round
  powTen := powTen
  index := index

end StatEngine.Double
