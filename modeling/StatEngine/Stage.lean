/-!
# Stages of a stat and forms of modifiers

A stat is computed in eleven `Stage`s, from the modifiers of one `Form` up to the stat's total.
-/

namespace StatEngine

/-- One step of a stat's computation. Stages are listed dependents first: the formula of a stage
reads only later ones, of its own stat. -/
inductive Stage where
  | total
  | subtotal
  | uncappedSubtotal
  | pathTotal
  | base
  | baseOverride
  | baseSet
  | baseAdd
  | increase
  | more
  | totalOverride
  deriving DecidableEq, Repr, Ord

/-- How the value of a modifier combines with the others of its stat. -/
inductive Form where
  | baseOverride
  | baseSet
  | baseAdd
  | increase
  | more
  | totalOverride
  deriving DecidableEq, Repr, Ord

namespace Form

/-- Every form, in order. -/
def all : List Form := [.baseOverride, .baseSet, .baseAdd, .increase, .more, .totalOverride]

/-- The stage that aggregates the modifiers of a form. -/
def stage : Form → Stage
  | baseOverride => .baseOverride
  | baseSet => .baseSet
  | baseAdd => .baseAdd
  | increase => .increase
  | more => .more
  | totalOverride => .totalOverride

/-- The written name of a form. -/
def name : Form → String
  | baseOverride => "BaseOverride"
  | baseSet => "BaseSet"
  | baseAdd => "BaseAdd"
  | increase => "Increase"
  | more => "More"
  | totalOverride => "TotalOverride"

end Form

namespace Stage

/-- Every stage, dependents first. -/
def all : List Stage :=
  [.total, .subtotal, .uncappedSubtotal, .pathTotal, .base, .baseOverride, .baseSet, .baseAdd,
    .increase, .more, .totalOverride]

/-- The form whose modifiers a stage aggregates, if it aggregates any. -/
def form? : Stage → Option Form
  | baseOverride => some .baseOverride
  | baseSet => some .baseSet
  | baseAdd => some .baseAdd
  | increase => some .increase
  | more => some .more
  | totalOverride => some .totalOverride
  | _ => none

/-- Whether a stage is computed once per path. The others live on the main path alone. -/
def perPath : Stage → Bool
  | total | subtotal | uncappedSubtotal | totalOverride => false
  | _ => true

/-- The written name of a stage. -/
def name : Stage → String
  | total => "Total"
  | subtotal => "Subtotal"
  | uncappedSubtotal => "UncappedSubtotal"
  | pathTotal => "PathTotal"
  | base => "Base"
  | baseOverride => "BaseOverride"
  | baseSet => "BaseSet"
  | baseAdd => "BaseAdd"
  | increase => "Increase"
  | more => "More"
  | totalOverride => "TotalOverride"

end Stage

/-- The stage of a form aggregates that form. -/
theorem Form.form?_stage (f : Form) : f.stage.form? = some f := by cases f <;> rfl

end StatEngine
