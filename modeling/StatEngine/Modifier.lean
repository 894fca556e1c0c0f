import StatEngine.Stat

/-!
# Modifiers

A `Modifier` is one input of the calculation: the stats it affects, a form, a formula for its value,
and where it comes from. Two modifiers are the same if they agree in all of that, where formulas are
told apart by when they were made; so only a modifier that was added can be removed.
-/

namespace StatEngine

/-- An effect on stats. -/
structure Modifier (N : Type) where
  /-- The stats the modifier affects; one of them may occur several times. -/
  stats : List (Stat N)
  /-- How the value combines with others. -/
  form : Form
  /-- The value. -/
  formula : Formula N
  /-- What tells the formula from others. -/
  identity : Nat
  /-- Where the modifier comes from. -/
  source : LabeledSource

namespace Modifier

variable {N : Type}

/-- Whether two modifiers are the same. -/
def same (a b : Modifier N) : Bool :=
  a.stats.map Stat.key == b.stats.map Stat.key && a.form == b.form && a.identity == b.identity
    && a.source.alike b.source

/-- The path that a modifier sets values on. -/
def path (m : Modifier N) : Path (Stat N) := Path.ofSource m.source.source

/-- The label of the node that computes the value of a modifier for a stat. -/
def label (m : Modifier N) (stat : Stat N) : String :=
  stat.text ++ " " ++ m.form.name ++ " modifier from " ++ m.source.text

end Modifier

end StatEngine
