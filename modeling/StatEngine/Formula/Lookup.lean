import StatEngine.Catalog
import StatEngine.Aggregation

/-!
# What formulas look up

A formula reads everything through a `Lookup`: the paths of a stat, the values of nodes, the values of
the modifiers of a form, and meta stats. Lookups happen in a monad that is a parameter, so that the
same formulas are evaluated against a network, against a table, or against plain functions.

A behavior changes what a formula sees by giving it another lookup that falls back on the first one.
-/

namespace StatEngine

/-- Computations that may end in a fault. -/
abbrev Reading (N : Type) (m : Type → Type) := ExceptT (Fault N) m

/-- A stat on a path. -/
abbrev Place (N : Type) := Stat N × Path (Stat N)

/-- What a formula can look up. -/
structure Lookup (N : Type) (m : Type → Type) where
  /-- The path that is being computed. -/
  path : Path (Stat N)
  /-- The paths a stat has values on. -/
  paths : Stat N → Reading N m (List (Path (Stat N)))
  /-- The value of a stage of a stat on a path. -/
  value : Stat N → Stage → Path (Stat N) → Reading N m (Option (Amount N))
  /-- The values of the modifiers of a form on each of the places, place by place. -/
  values : Form → List (Place N) → Reading N m (List (Option (Amount N)))
  /-- A meta stat. -/
  derived : MetaStat N → Reading N m (Stat N)
  /-- Take note of a text. -/
  note : String → m Unit

/-- What a formula computes from a lookup. -/
abbrev Meaning (N : Type) (m : Type → Type) := Lookup N m → Reading N m (Option (Amount N))

namespace Lookup

variable {N : Type} {m : Type → Type}

/-- The value of a stage on the main path. -/
def mainValue (l : Lookup N m) (stat : Stat N) (stage : Stage) : Reading N m (Option (Amount N)) :=
  l.value stat stage Path.main

/-- The total of a stat. -/
def total (l : Lookup N m) (stat : Stat N) : Reading N m (Option (Amount N)) :=
  l.mainValue stat .total

variable [Monad m]

/-- The total of a stat, absent without one. -/
def optionalTotal (l : Lookup N m) : Option (Stat N) → Reading N m (Option (Amount N))
  | some stat => l.total stat
  | none => pure none

/-- The values of a stage on every path of a stat. -/
def valuesOverPaths (l : Lookup N m) (stat : Stat N) (stage : Stage) :
    Reading N m (List (Option (Amount N))) := do
  (← l.paths stat).mapM (l.value stat stage)

/-- The values of the modifiers of a form on the main path. -/
def formValues (l : Lookup N m) (form : Form) (stat : Stat N) :
    Reading N m (List (Option (Amount N))) :=
  l.values form [(stat, Path.main)]

/-- The total of a meta stat. -/
def derivedTotal (l : Lookup N m) (request : MetaStat N) : Reading N m (Option (Amount N)) := do
  l.total (← l.derived request)

end Lookup

/-- The result of a pure computation that may end in a fault. -/
def Reading.ofExcept {N : Type} {m : Type → Type} [Monad m] {α : Type} :
    Except (Fault N) α → Reading N m α
  | .ok a => pure a
  | .error e => throw e

end StatEngine
