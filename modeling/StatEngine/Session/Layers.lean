import StatEngine.Network.Layers
import StatEngine.Formula.Table
import StatEngine.Session.Log

/-!
# Sessions with layered formulas

Named formulas, transformations that are put on them and taken off, and behaviors that are installed
while formulas are registered for the nodes they affect.
-/

namespace StatEngine.Session.Layers

open Network

/-- A step of a session with layered formulas. -/
inductive Step where
  /-- Make a formula, in place of the one that has the name. -/
  | value (name : String) (formula : Formula Float)
  /-- Forget a formula. -/
  | dropValue (name : String)
  /-- Install behaviors. -/
  | install (behaviors : List (Behavior Float))
  /-- Uninstall behaviors. -/
  | uninstall (behaviors : List (Behavior Float))
  /-- Count how often a behavior is installed. -/
  | count (behavior : Behavior Float)
  /-- Register a formula for a node. -/
  | register (key : NodeKey) (name : String)
  /-- Forget the formulas of a node. -/
  | unregister (key : NodeKey)
  /-- Put a transformation on a formula. -/
  | add (name : String) (transformation : Transformation Float)
  /-- Take a transformation off a formula. -/
  | remove (name : String) (transformation : Transformation Float)
  /-- Take all transformations off a formula. -/
  | removeAll (name : String)
  /-- Evaluate a formula where nothing is found, and count its transformations. -/
  | read (name : String)

/-- The formulas by their names. -/
abbrev Desk := Named Nat

/-- The host, whose listeners log which formula changed. -/
def host : Host Float String (Logged Desk) :=
  { Host.idle with notified := fun name _ => say ("changed " ++ name) }

/-- The formula with a name. -/
def formula (name : String) : Work String Desk Nat := do need ((← desk).get? name)

/-- Forget the formula that has a name, if there is one. -/
def forget (name : String) : Work String Desk Bool := do
  match (← desk).get? name with
  | none => return false
  | some id =>
    let _ ← unlisten name
    modifyDesk (·.erase name)
    modify fun n => { n with layered := n.layered.modify id fun x => { x with gone := true } }
    return true

/-- The outcome of a formula where nothing is found, and the number of its transformations. -/
def evaluate (id : Nat) : Work String Desk Json := do
  let n ← get
  let x ← need n.layered[id]?
  let (outcome, trace) := Table.empty.evaluate n.catalog x.layers x.initial
  modify fun n => { n with catalog := trace.catalog }
  trace.notes.forM say
  return .array [Answer.outcome outcome, .nat x.layers.length]

/-- Carry out a step. -/
def step (s : Step) : Work String Desk Json := do
  match s with
  | .value name f =>
    let _ ← forget name
    let id ← addLayered f
    listenAs name (.layers id) name
    modifyDesk (·.put name id)
    return .null
  | .dropValue name => return .bool (← forget name)
  | .install behaviors =>
    install host behaviors
    return .null
  | .uninstall behaviors =>
    uninstall host behaviors
    return .null
  | .count behavior => return .nat ((← get).installationCount behavior)
  | .register key name =>
    register host key (← formula name)
    return .null
  | .unregister key =>
    unregister key
    return .null
  | .add name t =>
    addLayer host (← formula name) t
    return .null
  | .remove name t =>
    removeLayer host (← formula name) t
    return .null
  | .removeAll name =>
    clearLayers host (← formula name)
    return .null
  | .read name => evaluate (← formula name)

/-- The answers of a session. -/
def run (catalog : Catalog Float) (steps : List Step) : Option Json :=
  let start := Network.empty true (some catalog) ⟨[], [], []⟩
  (answeredAll step steps start).map (·.1)

end StatEngine.Session.Layers
