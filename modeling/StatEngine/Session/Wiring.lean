import StatEngine.Session.Answer

/-!
# Sessions with dependency graphs

A graph that is built step by step, with questions about it in between.
-/

namespace StatEngine.Session.Wiring

/-- A step of a session with a dependency graph. -/
inductive Step where
  /-- Add a key. -/
  | node (key : DependencyKey)
  /-- Let one key depend on another. -/
  | edge (dependent dependency : DependencyKey)
  /-- Ask what a key directly depends on. -/
  | dependencies (key : DependencyKey)
  /-- Ask what a change of a key reaches. -/
  | dependents (key : DependencyKey)
  /-- Ask whether a key is known. -/
  | contains (key : DependencyKey)
  /-- Ask for an order of evaluation. -/
  | order
  /-- Ask whether there is a cycle. -/
  | cycles
  /-- Write down the whole graph. -/
  | dump

/-- The graph that is built. -/
abbrev Graph := DependencyGraph DependencyKey

/-- Carry out a step: its answer, and the graph after it. -/
def step (g : Graph) : Step → Json × Graph
  | .node key =>
    let g := g.addKey key
    (.nat ((g.index? key).getD 0), g)
  | .edge dependent dependency =>
    let g := g.addEdge dependent dependency
    (.nat g.edges.length, g)
  | .dependencies key => (Answer.keys (g.dependencies key), g)
  | .dependents key => (Answer.keys (g.allDependents key), g)
  | .contains key => (.bool (g.keys.contains key), g)
  | .order => (Answer.order g, g)
  | .cycles => (Answer.cycles g, g)
  | .dump => (Answer.wiring g, g)

/-- The answers of steps, from a graph on. -/
def answers (g : Graph) : List Step → List Json
  | [] => []
  | s :: rest =>
    let (answer, g) := step g s
    answer :: answers g rest

/-- The answers of a session. -/
def run (steps : List Step) : Json := .array (answers .empty steps)

end StatEngine.Session.Wiring
