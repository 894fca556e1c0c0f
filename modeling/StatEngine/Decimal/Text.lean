import StatEngine.Decimal.Shortest

/-!
# Written numbers

How a double is written and read. A `Style` fixes everything about the text except the digits, which
are always the shortest ones. Two styles are used: `plain` in messages and answers, and `json` inside
JSON documents.
-/

namespace StatEngine.Decimal

/-- The choices of a number format. -/
structure Style where
  /-- Whether a number with this exponent of its first digit is written without an exponent. -/
  positional : Int → Bool
  /-- Whether a positional number always has a fraction part. -/
  alwaysFraction : Bool
  /-- Which of two equally near decimals is written. -/
  tie : Tie
  /-- The text of what is not a number. -/
  nan : String
  /-- The text of an infinity, given whether it is negative. -/
  infinite : Bool → String

/-- Numbers in messages never have an exponent and only the fraction they need. -/
def plain : Style where
  positional := fun _ => true
  alwaysFraction := false
  tie := .up
  nan := "NaN"
  infinite := fun negative => if negative then "-inf" else "inf"

/-- Numbers in JSON documents always have a fraction or an exponent, and get an exponent from
`10 ^ 16` on and below `10 ^ (-5)`. JSON has no word for what is not finite. -/
def json : Style where
  positional := fun e => -5 ≤ e && e < 16
  alwaysFraction := true
  tie := .even
  nan := "null"
  infinite := fun _ => "null"

/-- `n` zeros. -/
def zeros (n : Nat) : String := String.ofList (List.replicate n '0')

/-- Digits with a decimal point. -/
def Style.positionalText (style : Style) (s : Scientific) : String :=
  let digits := (Nat.repr s.digits).toList
  if 0 ≤ s.exponent then
    String.ofList digits ++ zeros s.exponent.toNat ++ if style.alwaysFraction then ".0" else ""
  else
    let places := (-s.exponent).toNat
    if digits.length ≤ places then
      "0." ++ zeros (places - digits.length) ++ String.ofList digits
    else
      String.ofList (digits.take (digits.length - places)) ++ "."
        ++ String.ofList (digits.drop (digits.length - places))

/-- Digits with one place before the point, and the power of ten of that place. -/
def scientificText (s : Scientific) : String :=
  let digits := (Nat.repr s.digits).toList
  let exponent := s.exponent + Int.ofNat (digits.length - 1)
  let fraction := String.ofList (digits.drop 1)
  String.ofList (digits.take 1) ++ (if fraction.isEmpty then "" else "." ++ fraction)
    ++ "e" ++ (if exponent < 0 then "-" else "+") ++ Nat.repr exponent.natAbs

/-- The text of a double. -/
def Style.write (style : Style) (x : Float) : String :=
  let sign (negative : Bool) := if negative then "-" else ""
  match classify x with
  | .nan => style.nan
  | .infinite negative => style.infinite negative
  | .zero negative => sign negative ++ "0" ++ if style.alwaysFraction then ".0" else ""
  | .finite b =>
    let s := shortest b.rounding style.tie
    let exponent := s.exponent + Int.ofNat ((Nat.repr s.digits).length - 1)
    sign b.negative
      ++ if style.positional exponent then style.positionalText s else scientificText s

end StatEngine.Decimal
