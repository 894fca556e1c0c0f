import StatEngine.Document.Breakdown
import StatEngine.Number.Double
import StatEngine.Network.Wiring
import StatEngine.Json.Writer

/-!
# Answers

How a session writes down what it gets to know. Numbers are texts, so that every double has a form of
its own; an amount is the list of its bounds, an absent one is null, and a fault is a record of its
kind and its message.
-/

namespace StatEngine.Session

/-- What a computation on doubles results in. -/
abbrev Outcome := Except (Fault Float) (Option (Amount Float))

namespace Answer

/-- A number. -/
def number (x : Float) : Json := .string (Decimal.plain.write x)

/-- An amount, or null. -/
def amount : Option (Amount Float) → Json
  | some a => .array [number a.minimum, number a.maximum]
  | none => .null

/-- The name of the kind of a fault. -/
def faultKind : Fault Float → String
  | .cycle _ => "Cycle"
  | .ambiguousBaseSet _ => "AmbiguousBaseSet"
  | .conflictingOverrides _ => "ConflictingOverrides"
  | .inconsistentMaximum _ _ => "InconsistentMaximumAggregation"
  | .networkReleased => "GraphReleased"
  | .catalogReleased => "StatFactoryReleased"

/-- The message of a fault. -/
def faultMessage (f : Fault Float) : String := f.message Decimal.plain.write

/-- A fault. -/
def fault (f : Fault Float) : Json :=
  .object [("error", .string (faultKind f)), ("message", .string (faultMessage f))]

/-- What a computation results in, written by `write` if it succeeds. -/
def ofExcept {α : Type} (write : α → Json) : Except (Fault Float) α → Json
  | .ok a => write a
  | .error f => fault f

/-- An outcome. -/
def outcome : Outcome → Json := ofExcept amount

/-- A list of amounts. -/
def amounts (values : List (Option (Amount Float))) : Json := .array (values.map amount)

/-- Texts of stats. -/
def stats (stats : List (Stat Float)) : Json := .strings (stats.map Stat.text)

/-- Texts of paths. -/
def paths (paths : List (Path (Stat Float))) : Json := .strings (paths.map (PathKey.text ·.key))

/-- Texts of keys. -/
def keys (keys : List DependencyKey) : Json := .strings (keys.map DependencyKey.text)

/-- The contribution of a path. -/
def pathBreakdown (p : PathBreakdown Float) : Json :=
  .object (PathBreakdown.fieldNames.zip (.string p.path :: p.amounts.map amount))

/-- A breakdown. -/
def breakdown (b : Breakdown Float) : Json :=
  .object [
    ("stat", .string b.stat.text),
    ("total", amount b.total),
    ("subtotal", amount b.subtotal),
    ("uncapped_subtotal", amount b.uncappedSubtotal),
    ("paths", .array (b.paths.map pathBreakdown))]

/-- The order of a wiring, or its cycle. -/
def order (g : DependencyGraph DependencyKey) : Json :=
  ofExcept keys (g.evaluationOrder DependencyKey.text)

/-- Whether a wiring has a cycle. -/
def cycles (g : DependencyGraph DependencyKey) : Json :=
  ofExcept (fun _ => .string "none") (g.detectCycles DependencyKey.text)

/-- All of a wiring. -/
def wiring (g : DependencyGraph DependencyKey) : Json :=
  .object [
    ("nodes", .array (g.keys.map fun k => .array [.string k.text, keys (g.dependencies k)])),
    ("edges", .nat g.edges.length),
    ("cycles", cycles g),
    ("order", order g)]

end Answer

end StatEngine.Session
