import StatEngine.Calculator

/-!
# Breakdowns

How the total of a stat comes about: its totals before overrides and bounds, and what each of its paths
contributes.
-/

namespace StatEngine

/-- What a path contributes to a stat. -/
structure PathBreakdown (N : Type) where
  /-- The text of the path. -/
  path : String
  /-- The value of the path. -/
  pathTotal : Option (Amount N)
  /-- The base value. -/
  base : Option (Amount N)
  /-- The sum of increases. -/
  increase : Option (Amount N)
  /-- The product of further multipliers. -/
  more : Option (Amount N)

/-- How the total of a stat comes about. -/
structure Breakdown (N : Type) where
  /-- The stat. -/
  stat : StatKey
  /-- The total. -/
  total : Option (Amount N)
  /-- The total before overrides. -/
  subtotal : Option (Amount N)
  /-- The total before overrides and bounds. -/
  uncappedSubtotal : Option (Amount N)
  /-- The paths. -/
  paths : List (PathBreakdown N)

namespace PathBreakdown

variable {N : Type} [Number N]

/-- The amounts of a path breakdown, in the order of its fields. -/
def amounts (p : PathBreakdown N) : List (Option (Amount N)) :=
  [p.pathTotal, p.base, p.increase, p.more]

end PathBreakdown

namespace Breakdown

variable {N : Type} [Number N]

/-- The breakdown of the first path with the given text. -/
def path? (b : Breakdown N) (text : String) : Option (PathBreakdown N) :=
  b.paths.find? (·.path == text)

/-- Optional amounts are near if both are absent, or both are present and near. -/
def optionsNear : Option (Amount N) → Option (Amount N) → Bool
  | none, none => true
  | some a, some b => a.near b
  | _, _ => false

/-- Optional amounts are near one by one. -/
def allNear (as bs : List (Option (Amount N))) : Bool :=
  as.length == bs.length && (as.zip bs).all fun (a, b) => optionsNear a b

/-- Two breakdowns are of one stat with the same paths, and their amounts are near. -/
def alike (a b : Breakdown N) : Bool :=
  a.stat == b.stat
    && allNear [a.total, a.subtotal, a.uncappedSubtotal] [b.total, b.subtotal, b.uncappedSubtotal]
    && a.paths.map (·.path) == b.paths.map (·.path)
    && allNear (a.paths.flatMap (·.amounts)) (b.paths.flatMap (·.amounts))

end Breakdown

namespace Calculator

open Network

variable {N A σ : Type} [Number N] (host : Host N A σ)

/-- What a path contributes to a stat. -/
def pathBreakdown (stat : Stat N) (path : Path (Stat N)) :
    Reading N (Run N A σ) (PathBreakdown N) := do
  return {
    path := PathKey.text path.key
    pathTotal := ← value host stat .pathTotal path
    base := ← value host stat .base path
    increase := ← value host stat .increase path
    more := ← value host stat .more path }

/-- How the total of a stat comes about, or the first fault that is met. -/
def breakdown (stat : Stat N) : Reading N (Run N A σ) (Breakdown N) := do
  let total ← value host stat .total Path.main
  let subtotal ← value host stat .subtotal Path.main
  let uncappedSubtotal ← value host stat .uncappedSubtotal Path.main
  let paths ← (← ExceptT.lift (paths host stat)).mapM (pathBreakdown host stat)
  return { stat := stat.key, total, subtotal, uncappedSubtotal, paths }

end Calculator

end StatEngine
