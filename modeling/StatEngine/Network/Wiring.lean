import StatEngine.Network.Prune
import StatEngine.DependencyGraph

/-!
# The recorded wiring

What every node read in its last evaluation, as a dependency graph. A collection depends on whatever
its modifiers read.
-/

namespace StatEngine.Network

variable {N A σ : Type}

/-- What a formula node read in its last evaluation, in the order it was first read. -/
def recordedDependencies (n : Network N A σ) (formula : Nat) : List DependencyKey :=
  ((n.formula? formula).map fun f => f.dependencies.map (·.1)).getD []

/-- A key with its dependencies. -/
def wire (wiring : DependencyGraph DependencyKey) (key : DependencyKey)
    (dependencies : List DependencyKey) : DependencyGraph DependencyKey :=
  dependencies.foldl (fun wiring d => wiring.addEdge key d) (wiring.addKey key)

/-- The wiring of one stat: its nodes, then its collections. -/
def wireGraph (n : Network N A σ) (wiring : DependencyGraph DependencyKey) (g : Subgraph N) :
    DependencyGraph DependencyKey :=
  let wiring := g.nodes.foldl (fun wiring e =>
    wire wiring (.node ⟨g.stat.key, e.stage, e.path.key⟩) (n.recordedDependencies e.formula)) wiring
  g.forms.foldl (fun wiring e =>
    let formulas := (n.collections[e.collection]?.map (·.formulas)).getD []
    wire wiring (.form g.stat.key e.form e.path.key)
      (formulas.flatMap fun f => n.recordedDependencies f.2)) wiring

/-- The wiring of all stats. -/
def wiring (n : Network N A σ) : DependencyGraph DependencyKey :=
  (n.live.filterMap (n.graphs[·]?)).foldl n.wireGraph DependencyGraph.empty

end StatEngine.Network
