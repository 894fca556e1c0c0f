/-!
# Shortest decimals

The shortest decimal that lies among the reals that round to a given binary number. The number is
`m * 2 ^ q` with natural `m`; the reals that round to it fill the interval between the midpoints to
its two neighbours, ends included when `m` is even.

Candidates with `1, 2, 3, …` digits are tried in turn. On the grid of decimals with a given last
place only the two neighbours of the number can be nearest, so the first grid of which a neighbour
lies in the interval holds the answer, and of two neighbours the nearer one is taken.
-/

namespace StatEngine.Decimal

/-- A decimal `digits * 10 ^ exponent`. -/
structure Scientific where
  /-- The significant digits, read as a natural number. -/
  digits : Nat
  /-- The power of ten of the last digit. -/
  exponent : Int
  deriving DecidableEq, Repr

/-- What to do when a number lies halfway between two shortest decimals. -/
inductive Tie where
  /-- Take the larger of the two. -/
  | up
  /-- Take the one with an even last digit. -/
  | even
  deriving DecidableEq, Repr

/-- A positive rational as numerator and denominator, `num / den * 10 ^ (-shift)`. -/
structure Scaled where
  /-- The numerator. -/
  num : Nat
  /-- The denominator. -/
  den : Nat

/-- `n * 2 ^ q * 10 ^ (-p)` as a quotient of natural numbers. -/
def quotient (n : Nat) (q p : Int) : Scaled :=
  let num := n * Nat.pow 2 q.toNat * Nat.pow 10 (-p).toNat
  let den := Nat.pow 2 (-q).toNat * Nat.pow 10 p.toNat
  ⟨num, den⟩

/-- Whether `10 ^ p ≤ n * 2 ^ q`. -/
def reaches (n : Nat) (q p : Int) : Bool :=
  let r := quotient n q p
  r.den ≤ r.num

/-- The largest `p` near the estimate with `10 ^ p ≤ n * 2 ^ q`. The estimate by binary logarithms
is off by at most one. -/
def leadingPlace (n : Nat) (q : Int) : Int :=
  let estimate := ((Int.ofNat n.log2 + q) * 30103) / 100000
  if reaches n q (estimate + 1) then estimate + 1
  else if reaches n q estimate then estimate
  else estimate - 1

/-- The reals that round to a binary number, in units of a quarter of its last binary place. -/
structure Rounding where
  /-- The number itself. -/
  value : Nat
  /-- The lower end of the interval. -/
  lower : Nat
  /-- The upper end of the interval. -/
  upper : Nat
  /-- The power of two of the unit. -/
  unit : Int
  /-- Whether the ends belong to the interval. -/
  closed : Bool

namespace Rounding

/-- Whether `d * 10 ^ p` lies in the interval. -/
def admits (r : Rounding) (d : Nat) (p : Int) : Bool :=
  -- Compare `d * 10 ^ p` with `n * 2 ^ unit` over a common denominator.
  let left := d * Nat.pow 10 p.toNat * Nat.pow 2 (-r.unit).toNat
  let right (n : Nat) := n * Nat.pow 2 r.unit.toNat * Nat.pow 10 (-p).toNat
  if r.closed then right r.lower ≤ left && left ≤ right r.upper
  else right r.lower < left && left < right r.upper

/-- The neighbours of the number on the grid of multiples of `10 ^ p`, if one of them is admitted:
the nearer one, and on a tie as `tie` says. -/
def onGrid? (r : Rounding) (tie : Tie) (p : Int) : Option Scientific :=
  let s := quotient r.value r.unit p
  let d := s.num / s.den
  let twiceRest := 2 * (s.num % s.den)
  match r.admits d p, r.admits (d + 1) p with
  | true, false => some ⟨d, p⟩
  | false, true => some ⟨d + 1, p⟩
  | false, false => none
  | true, true =>
    if twiceRest < s.den then some ⟨d, p⟩
    else if s.den < twiceRest then some ⟨d + 1, p⟩
    else match tie with
      | .up => some ⟨d + 1, p⟩
      | .even => some ⟨if d % 2 = 0 then d else d + 1, p⟩

end Rounding

/-- Take off trailing zeros of the digits. The first argument bounds how many. -/
def Scientific.trim : Nat → Scientific → Scientific
  | 0, s => s
  | n + 1, s => if s.digits % 10 = 0 && s.digits != 0 then trim n ⟨s.digits / 10, s.exponent + 1⟩ else s

/-- The shortest decimal that rounds to the number, seventeen digits being enough for a double. -/
def shortest (r : Rounding) (tie : Tie) : Scientific :=
  let lead := leadingPlace r.value r.unit
  let grids := (List.range 17).map fun i => lead - Int.ofNat i
  let found := grids.findSome? (r.onGrid? tie)
  (found.getD ⟨r.value, r.unit⟩).trim 20

/-- The parts of a finite double that is not zero: `significand * 2 ^ exponent`. -/
structure Binary where
  /-- Whether the number is negative. -/
  negative : Bool
  /-- The significand, below `2 ^ 53`. -/
  significand : Nat
  /-- The power of two of the last place. -/
  exponent : Int
  /-- Whether the double below lies at half the distance of the one above. -/
  narrowBelow : Bool

/-- The interval of reals that round to a double. -/
def Binary.rounding (b : Binary) : Rounding where
  value := 4 * b.significand
  lower := if b.narrowBelow then 4 * b.significand - 1 else 4 * b.significand - 2
  upper := 4 * b.significand + 2
  unit := b.exponent - 2
  closed := b.significand % 2 = 0

/-- What the bits of a double stand for. -/
inductive Kind where
  /-- Not a number. -/
  | nan
  /-- An infinity. -/
  | infinite (negative : Bool)
  /-- A zero. -/
  | zero (negative : Bool)
  /-- Any other number. -/
  | finite (b : Binary)

/-- Read the bits of a double. -/
def classify (x : Float) : Kind :=
  let bits := x.toBits.toNat
  let negative := bits / Nat.pow 2 63 = 1
  let exponent := bits / Nat.pow 2 52 % Nat.pow 2 11
  let fraction := bits % Nat.pow 2 52
  if exponent = 2047 then (if fraction = 0 then .infinite negative else .nan)
  else if exponent = 0 then
    if fraction = 0 then .zero negative else .finite ⟨negative, fraction, -1074, false⟩
  else
    .finite ⟨negative, Nat.pow 2 52 + fraction, Int.ofNat exponent - 1075, fraction = 0 && exponent > 1⟩

end StatEngine.Decimal
