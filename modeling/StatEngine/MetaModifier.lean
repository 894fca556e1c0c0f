import StatEngine.Modifier
import StatEngine.Catalog

/-!
# Modifiers of meta stats

Conversions and gains as modifiers. A conversion counts for the pair of stats and for everything its
source is converted to, so it affects three meta stats.
-/

namespace StatEngine.Catalog

variable {N : Type}

/-- The modifier that converts a percentage of `source` to `target`. -/
def conversionModifier (source target : Stat N) (formula : Formula N) (identity : Nat)
    (origin : LabeledSource) : Making N (Modifier N) := do
  let convertTo ← get (.convertTo source target)
  let conversion ← get (.conversion source)
  let skillConversion ← get (.skillConversion source)
  return { stats := [convertTo, conversion, skillConversion], form := .baseAdd, formula, identity,
           source := origin }

/-- The modifier that gains a percentage of `source` as `target`. -/
def gainModifier (source target : Stat N) (formula : Formula N) (identity : Nat)
    (origin : LabeledSource) : Making N (Modifier N) := do
  let gainAs ← get (.gainAs source target)
  return { stats := [gainAs], form := .baseAdd, formula, identity, source := origin }

end StatEngine.Catalog
