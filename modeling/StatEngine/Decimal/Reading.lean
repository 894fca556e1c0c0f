import StatEngine.Json.Double
import StatEngine.Json.Reader

/-!
# Reading written numbers

The double nearest to a decimal, and the words for what is not finite.
-/

namespace StatEngine.Decimal

/-- The double nearest to a decimal without a sign. -/
def nearest (s : List Char) : Float :=
  let (whole, fraction, exponent) := Json.splitNumber s
  let exponent := Json.exponentValue exponent - Int.ofNat fraction.length
  Float.ofScientific (Json.digitsValue (whole ++ fraction)) (exponent < 0) exponent.natAbs

/-- The double that a text stands for. -/
def float? (text : String) : Option Float :=
  match text with
  | "NaN" => some (0.0 / 0.0)
  | "inf" => some (1.0 / 0.0)
  | "-inf" => some (-1.0 / 0.0)
  | _ =>
    match Json.number? text.toList with
    | some ('-' :: digits, []) => some (-(nearest digits))
    | some (digits, []) => some (nearest digits)
    | _ => none

end StatEngine.Decimal
