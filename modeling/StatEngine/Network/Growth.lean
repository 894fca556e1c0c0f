import StatEngine.Network.Nodes

/-!
# Growth of the network

Whatever a computation asks for is made when it is asked for the first time: the subgraph of a stat
(`graphOf`), the nodes of a stage on a path (`nodesOf`), and the collection of a form on a path
(`collectionOf`). Later requests are answered with the same parts.
-/

namespace StatEngine.Network

variable {N A σ : Type} (host : Host N A σ)

/-- The paths of a stat, in the order they appeared. -/
def pathsIn (n : Network N A σ) (set : Nat) : List (Path (Stat N)) :=
  (n.pathSets[set]?.map fun s => s.entries.map (·.1)).getD []

/-- Change the paths of a set. -/
def modifyPaths (n : Network N A σ) (set : Nat)
    (f : List (Path (Stat N) × Nat) → List (Path (Stat N) × Nat)) : Network N A σ :=
  { n with pathSets := n.pathSets.modify set fun s => { s with entries := f s.entries } }

/-- Count one more node or collection on a path. -/
def addPath (set : Nat) (path : Path (Stat N)) : Run N A σ Unit := do
  if path.isIn ((← get).pathsIn set) then
    modify fun n => n.modifyPaths set (·.map fun (p, count) =>
      if p.same path then (p, count + 1) else (p, count))
  else
    modify fun n => n.modifyPaths set (· ++ [(path, 1)])
    emit host (.paths set) .changed

/-- Count one node or collection on a path less. The path goes with its last one. -/
def removePath (set : Nat) (path : Path (Stat N)) : Run N A σ Unit := do
  match (← get).pathSets[set]?.bind fun s => s.entries.find? (·.1.same path) with
  | none => return
  | some (_, count) =>
    if count > 1 then
      modify fun n => n.modifyPaths set (·.map fun (p, count) =>
        if p.same path then (p, count - 1) else (p, count))
    else
      modify fun n => n.modifyPaths set (·.filter fun (p, _) => !p.same path)
      emit host (.paths set) .changed

/-- List a stat with the cached node of its total. A stat is listed once. -/
def list (stat : Stat N) (total : Nat) : Run N A σ Unit := do
  if (← get).listing.entries.any (·.1.same stat) then return
  let id ← addWrapped total
  modify fun n => { n with
    listing := { n.listing with entries := n.listing.entries ++ [(stat, id)] } }
  emit host .listing (.listed stat)

/-- The wrapped node of a stat that is listed. -/
def listed? (n : Network N A σ) (stat : Stat N) : Option Nat :=
  (n.listing.entries.find? (·.1.same stat)).map (·.2)

/-- Take a stat off the list, and tell whether it was on it. -/
def unlist (stat : Stat N) : Run N A σ Bool := do
  match (← get).listed? stat with
  | none => return false
  | some id =>
    modify fun n => { n with
      listing := { n.listing with entries := n.listing.entries.filter fun e => !e.1.same stat } }
    dispose host id
    emit host .listing (.unlisted stat)
    return true

/-- Where the values of a stage are computed that are asked for on a path. -/
def stagePath (stage : Stage) (path : Path (Stat N)) : Path (Stat N) :=
  if stage.perPath then path else Path.main

/-- The nodes of a stage on a path in a subgraph. -/
def Subgraph.nodesAt? (g : Subgraph N) (stage : Stage) (path : Path (Stat N)) :
    Option (NodeEntry N) :=
  g.nodes.find? fun e => e.stage == stage && e.path.same path

/-- The collection of a form on a path in a subgraph. -/
def Subgraph.collectionAt? (g : Subgraph N) (form : Form) (path : Path (Stat N)) :
    Option (FormEntry N) :=
  g.forms.find? fun e => e.form == form && e.path.same path

/-- Change a subgraph. -/
def modifyGraph (n : Network N A σ) (id : Nat) (f : Subgraph N → Subgraph N) : Network N A σ :=
  { n with graphs := n.graphs.modify id f }

/-- The nodes of a stage on a path in a subgraph, made if they are missing. -/
def nodesIn (graph : Nat) (stage : Stage) (path : Path (Stat N)) : Run N A σ (NodeEntry N) := do
  let path := stagePath stage path
  match (← get).graphs[graph]? with
  | none => exhausted
  | some g =>
    match g.nodesAt? stage path with
    | some entry => return entry
    | none =>
      let key : NodeKey := ⟨g.stat.key, stage, path.key⟩
      let layered ← addLayered (.stage g.stat stage)
      let formula ← addLayeredFormula layered path
      let cached ← addCached formula key.text
      let exposed ← addExposed cached
      let entry : NodeEntry N := ⟨stage, path, formula, cached, exposed⟩
      modify fun n => n.modifyGraph graph fun g => { g with nodes := g.nodes ++ [entry] }
      if stage.perPath then addPath host g.paths path
      register host key layered
      return entry

/-- Add a subgraph without nodes for a stat. -/
def addGraph (stat : Stat N) : Run N A σ Nat :=
  modifyGet fun n =>
    let id := n.graphs.size
    (id, { n with
      pathSets := n.pathSets.push ⟨[], [], false⟩
      graphs := n.graphs.push ⟨stat, [], [], 0, n.pathSets.size⟩
      live := n.live ++ [id] })

/-- The subgraph of a stat, made if it is missing. Making it installs the behaviors of the stat, and
lists the stat if it wants that. Hosts that are told of this may drop subgraphs; the first argument
bounds how often one is made again. -/
def graphWithin : Nat → Stat N → Run N A σ Nat
  | 0, _ => exhausted
  | fuel + 1, stat => do
    match (← get).graph? stat.key with
    | some id => return id
    | none =>
      let id ← addGraph stat
      install host stat.behaviors
      if stat.listed then
        let total ← nodesIn host (← graphWithin fuel stat) .total Path.main
        list host stat total.cached
      return id

/-- The subgraph of a stat, made if it is missing. -/
def graphOf (stat : Stat N) : Run N A σ Nat := do
  graphWithin host ((← get).graphs.size + 2) stat

/-- The nodes of a stage of a stat on a path, made if they are missing. -/
def nodesOf (stat : Stat N) (stage : Stage) (path : Path (Stat N)) : Run N A σ (NodeEntry N) := do
  nodesIn host (← graphOf host stat) stage path

/-- The collection of a form on a path of a stat with the node that follows it, made if they are
missing. -/
def collectionOf (stat : Stat N) (form : Form) (path : Path (Stat N)) :
    Run N A σ (FormEntry N) := do
  let graph ← graphOf host stat
  match (← get).graphs[graph]? with
  | none => exhausted
  | some g =>
    match g.collectionAt? form path with
    | some entry => return entry
    | none =>
      let collection ← addCollection
      let aggregate ← addAggregate collection form
      let entry : FormEntry N := ⟨form, path, collection, aggregate⟩
      modify fun n => n.modifyGraph graph fun g => { g with forms := g.forms ++ [entry] }
      addPath host g.paths path
      return entry

/-- The set of the paths of a stat, which is made with its subgraph. -/
def pathSetOf (stat : Stat N) : Run N A σ Nat := do
  let graph ← graphOf host stat
  match (← get).graphs[graph]? with
  | none => exhausted
  | some g => return g.paths

end StatEngine.Network
