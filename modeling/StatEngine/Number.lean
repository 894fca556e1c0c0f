/-!
# Numbers of a calculation

Stat values are computed from numbers whose kind is a parameter: a running engine uses binary
doubles (`StatEngine.Number.Double`), a theory of exact arithmetic uses an ordered field. The class
`Number` lists the operations the formulas need and nothing else, so every rule of the library is
written once for all kinds.
-/

namespace StatEngine

/-- The numbers a stat value is made of: arithmetic, an order, and the few further operations the
formulas use. No law is asked for, because binary doubles obey hardly any. -/
class Number (N : Type) extends Add N, Sub N, Mul N, Div N, Neg N, LT N, LE N where
  /-- The number a natural number stands for. -/
  ofNat : Nat → N
  /-- The distance up to which two numbers count as equal. -/
  tolerance : N
  /-- The absolute value. -/
  abs : N → N
  /-- The larger of two numbers; a number that is no number is ignored. -/
  max : N → N → N
  /-- The nearest whole number, halves away from zero. -/
  round : N → N
  /-- The power of ten with the given exponent. -/
  powTen : Int → N
  /-- The position in a list that a number selects: the nearest whole number, none below zero. -/
  index : N → Option Nat
  /-- The strict order is decidable. -/
  [decLt : DecidableLT N]
  /-- The order is decidable. -/
  [decLe : DecidableLE N]

attribute [reducible, instance] Number.decLt Number.decLe

namespace Number

variable {N : Type} [Number N]

/-- The number zero. -/
def zero : N := ofNat 0

/-- The number one. -/
def one : N := ofNat 1

/-- The number one hundred, the whole of a percentage. -/
def hundred : N := ofNat 100

/-- Two numbers are near if they differ by at most the tolerance. -/
def near (a b : N) : Bool := abs (a - b) ≤ tolerance

/-- A number is exactly zero, of either sign. -/
def isZero (a : N) : Bool := a ≤ zero && zero ≤ a

end Number

end StatEngine
