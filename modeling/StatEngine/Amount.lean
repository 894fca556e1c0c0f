import StatEngine.Number

/-!
# Amounts

An `Amount` is what a node of the calculation yields: a lower and an upper number. Most amounts are
single numbers, with both bounds equal; ranges appear when modifiers reach only one bound, as in
"adds 5 to 10 fire damage". Arithmetic works on the bounds one by one.

An absent amount is `none`; `Amount.sum` and `Amount.product` skip absent ones and are absent only
when all of them are.
-/

namespace StatEngine

/-- A lower and an upper number. Nothing orders the two. -/
structure Amount (N : Type) where
  /-- The lower bound. -/
  minimum : N
  /-- The upper bound. -/
  maximum : N

namespace Amount

variable {N : Type}

/-- The single number `n`, as both bounds. -/
def single (n : N) : Amount N := ⟨n, n⟩

/-- Apply `f` to both bounds. -/
def map (f : N → N) (a : Amount N) : Amount N := ⟨f a.minimum, f a.maximum⟩

/-- Combine two amounts bound by bound. -/
def zipWith (f : N → N → N) (a b : Amount N) : Amount N :=
  ⟨f a.minimum b.minimum, f a.maximum b.maximum⟩

variable [Number N]

instance : Neg (Amount N) := ⟨map (- ·)⟩
instance : Add (Amount N) := ⟨zipWith (· + ·)⟩
instance : Sub (Amount N) := ⟨zipWith (· - ·)⟩
instance : Mul (Amount N) := ⟨zipWith (· * ·)⟩
instance : Div (Amount N) := ⟨zipWith (· / ·)⟩

/-- The amount zero. -/
def zero : Amount N := single Number.zero

/-- The amount one. -/
def one : Amount N := single Number.one

/-- The amount as one number: the midpoint of a range, and the lower bound if both are near. -/
def midpoint (a : Amount N) : N :=
  if Number.near a.minimum a.maximum then a.minimum
  else (a.minimum + a.maximum) / Number.ofNat 2

/-- `n` is moved into the interval from `lower` to `upper`; a missing limit does not restrict, and
if the limits cross the lower one wins. -/
def clamp (lower upper : Option N) (n : N) : N :=
  let capped := match upper with
    | some u => if n > u then u else n
    | none => n
  match lower with
  | some l => if capped < l then l else capped
  | none => capped

/-- Move both bounds into the interval from `lower` to `upper`. -/
def clip (a : Amount N) (lower upper : Option N) : Amount N := a.map (clamp lower upper)

/-- Two amounts are near if both pairs of bounds are. -/
def near (a b : Amount N) : Bool :=
  Number.near a.minimum b.minimum && Number.near a.maximum b.maximum

/-- Both bounds are near `n`. -/
def nearNumber (a : Amount N) (n : N) : Bool := Number.near a.minimum n && Number.near a.maximum n

/-- Both bounds are near zero. -/
def isNearZero (a : Amount N) : Bool := a.nearNumber Number.zero

/-- Round both bounds to a number of decimal places, halves away from zero. -/
def round (a : Amount N) (decimals : Int) : Amount N :=
  let factor : N := Number.powTen decimals
  a.map fun n => Number.round (n * factor) / factor

/-- The amounts that are present, folded from the left; absent if there are none. -/
def combine (f : Amount N → Amount N → Amount N) (values : List (Option (Amount N))) :
    Option (Amount N) :=
  match values.filterMap id with
  | [] => none
  | first :: rest => some (rest.foldl f first)

/-- The sum of the present amounts. -/
def sum (values : List (Option (Amount N))) : Option (Amount N) := combine (· + ·) values

/-- The product of the present amounts. -/
def product (values : List (Option (Amount N))) : Option (Amount N) := combine (· * ·) values

/-- The part per hundred that `a` stands for. -/
def percent (a : Amount N) : Amount N := a.map (· / Number.hundred)

/-- The text of an amount: one number, or `min to max` if the bounds are not near. -/
def text (write : N → String) (a : Amount N) : String :=
  if Number.near a.minimum a.maximum then write a.minimum
  else write a.minimum ++ " to " ++ write a.maximum

end Amount

end StatEngine
