import StatEngine.Json
import StatEngine.Decimal.Text

/-!
# Doubles in JSON

A double is written with the fewest digits that read back as it. Reading is quick rather than exact:
digits are collected while they fit into 64 bits, and the number they make is multiplied or divided by
one power of ten. The result is the nearest double whenever digits and power are exact in a double.
-/

namespace StatEngine.Json

/-- Digits collected from a written number, and the power of ten they are to be multiplied by. -/
structure Significand where
  /-- The digits as a number below `2 ^ 64`. -/
  digits : Nat
  /-- The power of ten. -/
  exponent : Int
  /-- Whether more digits may be collected. -/
  accepting : Bool

namespace Significand

/-- Nothing collected yet. -/
def empty : Significand := ⟨0, 0, true⟩

/-- The digits followed by one more, if that fits. -/
def extend? (s : Significand) (c : Char) : Option Nat :=
  let digits := 10 * s.digits + (c.toNat - '0'.toNat)
  if s.accepting && digits < Nat.pow 2 64 then some digits else none

/-- Collect a digit before the point. Digits that do not fit raise the power. -/
def whole (s : Significand) (c : Char) : Significand :=
  match s.extend? c with
  | some digits => { s with digits }
  | none => { s with exponent := s.exponent + 1, accepting := false }

/-- Collect a digit after the point. From the first one that does not fit on they are left out. -/
def fraction (s : Significand) (c : Char) : Significand :=
  match s.extend? c with
  | some digits => { s with digits, exponent := s.exponent - 1 }
  | none => { s with accepting := false }

end Significand

/-- A non-negative number of digits and a power of ten as a double, unless it is too large. Powers
beyond `10 ^ 308` are taken in steps. -/
def scaled? (x : Float) (exponent : Int) : Option Float :=
  if exponent.natAbs ≤ 308 then
    let power := Float.ofScientific 1 false exponent.natAbs
    if exponent < 0 then some (x / power)
    else
      let y := x * power
      if y.isInf then none else some y
  else if x == 0.0 then some x
  else if exponent > 0 then none
  else scaled? (x / 1e308) (exponent + 308)
termination_by exponent.natAbs
decreasing_by omega

/-- The digits of a number without its sign, split at its point and at its exponent mark. -/
def splitNumber (s : List Char) : List Char × List Char × List Char :=
  let isMark (c : Char) : Bool := c = 'e' || c = 'E'
  let mantissa := s.takeWhile (!isMark ·)
  (mantissa.takeWhile (· ≠ '.'), (mantissa.dropWhile (· ≠ '.')).drop 1,
    (s.dropWhile (!isMark ·)).drop 1)

/-- The number that digits stand for. -/
def digitsValue (s : List Char) : Nat := s.foldl (fun n c => 10 * n + (c.toNat - '0'.toNat)) 0

/-- The exponent that an optional sign and digits stand for. -/
def exponentValue : List Char → Int
  | '-' :: s => -Int.ofNat (digitsValue s)
  | '+' :: s => Int.ofNat (digitsValue s)
  | s => Int.ofNat (digitsValue s)

/-- The double that a number without a sign stands for. -/
def magnitude? (s : List Char) : Option Float :=
  let (whole, fraction, exponent) := splitNumber s
  let s := whole.foldl Significand.whole Significand.empty
  let s := fraction.foldl Significand.fraction { s with accepting := true }
  scaled? (Float.ofNat s.digits) (s.exponent + exponentValue exponent)

/-- The double that a document stands for, unless it is no number or too large. -/
def float? : Json → Option Float
  | .number written =>
    match written.toList with
    | '-' :: s => (magnitude? s).map (- ·)
    | s => magnitude? s
  | _ => none

/-- The natural number below a bound that a document stands for. It is written with digits alone. -/
def natBelow? (bound : Nat) : Json → Option Nat
  | .number written =>
    let s := written.toList
    if s.all Char.isDigit && digitsValue s < bound then some (digitsValue s) else none
  | _ => none

/-- The document of a double. What is not finite is null. -/
def ofFloat (x : Float) : Json :=
  match Decimal.classify x with
  | .nan | .infinite _ => .null
  | _ => .number (Decimal.json.write x)

end StatEngine.Json
