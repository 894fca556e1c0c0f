import StatEngine.Network.Modifiers

/-!
# Pruning

Stats without modifiers lose what nobody listens to: nodes, stage by stage with dependents first, then
collections, and the whole subgraph when nothing is left of it (`pruneGraph`). Disposing a node takes
its subscriptions back, so passes are repeated until one finds nothing (`removeUnused`).
-/

namespace StatEngine.Network

variable {N A σ : Type} (host : Host N A σ)

/-- Take a stat off the list whose total no host listens to. -/
def unlistUnheard (stat : Stat N) : Run N A σ Unit := do
  let n ← get
  match n.listed? stat with
  | none => return
  | some id =>
    if n.listenerCount (.changed id) = 0 then
      let _ ← unlist host stat

/-- Whether nobody listens to the nodes of a stage. -/
def NodeEntry.isUnheard (n : Network N A σ) (entry : NodeEntry N) : Bool :=
  n.listenerCount (.received entry.cached) == 0 && n.listenerCount (.changed entry.cached) == 0

/-- Remove the nodes of a stage on a path. -/
def removeNodes (graph : Nat) (g : Subgraph N) (entry : NodeEntry N) : Run N A σ Unit := do
  modify fun n => n.modifyGraph graph fun g => { g with
    nodes := g.nodes.filter fun e => !(e.stage == entry.stage && e.path.same entry.path) }
  dispose host entry.exposed
  unregister ⟨g.stat.key, entry.stage, entry.path.key⟩
  if entry.stage.perPath then removePath host g.paths entry.path

/-- Remove the nodes of a stage that nobody listens to, and count them. -/
def pruneStage (graph : Nat) (stage : Stage) : Run N A σ Nat := do
  let n ← get
  match n.graphs[graph]? with
  | none => return 0
  | some g =>
    let unheard := g.nodes.filter fun e => e.stage == stage && e.isUnheard n
    unheard.forM (removeNodes host graph g)
    return unheard.length

/-- Remove a collection with the node that follows it. -/
def removeCollection (graph : Nat) (g : Subgraph N) (entry : FormEntry N) : Run N A σ Unit := do
  modify fun n => n.modifyGraph graph fun g => { g with
    forms := g.forms.filter fun e => !(e.form == entry.form && e.path.same entry.path) }
  (← clearMembers host entry.collection).forM (dispose host)
  dispose host entry.aggregate
  removePath host g.paths entry.path

/-- Remove the empty collections that nobody listens to, and count them. -/
def pruneForms (graph : Nat) : Run N A σ Nat := do
  let n ← get
  match n.graphs[graph]? with
  | none => return 0
  | some g =>
    let unheard := g.forms.filter fun e =>
      (n.memberNodes e.collection).isEmpty && n.listenerCount (.changed e.aggregate) == 0
    unheard.forM (removeCollection host graph g)
    return unheard.length

/-- Drop a subgraph of which nothing is left, and count it. -/
def dropEmpty (graph : Nat) : Run N A σ Nat := do
  match (← get).graphs[graph]? with
  | none => return 0
  | some g =>
    if g.nodes.isEmpty && g.forms.isEmpty then
      modify fun n => { n with
        live := match n.graph? g.stat.key with
          | some id => n.live.erase id
          | none => n.live
        pathSets := n.pathSets.modify g.paths fun s => { s with gone := true } }
      let _ ← unlist host g.stat
      uninstall host g.stat.behaviors
      return 1
    else return 0

/-- All counts together. -/
def totalOf (counts : List Nat) : Nat := counts.foldr (· + ·) 0

/-- Remove what is unused of one stat, and count it. -/
def pruneGraph (graph : Nat) : Run N A σ Nat := do
  match (← get).graphs[graph]? with
  | none => return 0
  | some g =>
    if g.modifierCount > 0 then return 0
    unlistUnheard host g.stat
    let nodes ← Stage.all.mapM (pruneStage host graph)
    return totalOf nodes + (← pruneForms host graph) + (← dropEmpty host graph)

/-- Remove what is unused of every stat, and count it. -/
def prunePass : Run N A σ Nat := do
  return totalOf (← (← get).live.mapM (pruneGraph host))

/-- Repeat passes until one removes nothing, and count what they removed. The first argument bounds
the number of passes. -/
def prunePasses : Nat → Run N A σ Nat
  | 0 => exhausted
  | fuel + 1 => do
    let removed ← prunePass host
    if removed = 0 then return 0
    return removed + (← prunePasses fuel)

/-- How many nodes, collections and subgraphs are in use. -/
def partsInUse (n : Network N A σ) : Nat :=
  totalOf ((n.live.filterMap (n.graphs[·]?)).map fun g => g.nodes.length + g.forms.length + 1)

/-- Remove every node, collection and subgraph that is unused on stats without modifiers, and count
them. A pass that goes on removes some part, and hosts that make new parts are given some room. -/
def removeUnused : Run N A σ Nat := do
  prunePasses host ((← get).partsInUse + 100)

end StatEngine.Network
