import StatEngine.Network.Growth
import StatEngine.Behavior.Effect

/-!
# Reading nodes

Values are computed when they are read. A cached node computes its value once and keeps it until a
change comes in; while it computes it cannot be entered again, so circular wiring ends in a fault
(`readCached`). A formula node records what its formula looks up (`recordingLookup`), and after every
evaluation, whether it succeeded or not, it is subscribed to just what was recorded (`resubscribe`).
-/

namespace StatEngine.Network

variable {N A σ : Type} [Number N]

/-- Computations that record what they depend on, each key once with the topic that announces its
changes. -/
abbrev Recording (N A σ : Type) := StateT (List (DependencyKey × Topic)) (Run N A σ)

/-- Record a dependency, unless its key is recorded. -/
def record (key : DependencyKey) (topic : Topic) : Reading N (Recording N A σ) Unit :=
  ExceptT.lift (modify fun recorded =>
    if recorded.any (·.1 == key) then recorded else recorded ++ [(key, topic)])

/-- Read a node while recording. -/
def readIn (read : Nat → Reading N (Run N A σ) (Option (Amount N))) (id : Nat) :
    Reading N (Recording N A σ) (Option (Amount N)) :=
  ExceptT.mk (StateT.lift (read id).run)

/-- Run a computation on the network while recording. -/
def onNetwork {α : Type} (run : Run N A σ α) : Reading N (Recording N A σ) α :=
  ExceptT.lift (StateT.lift run)

/-- The values of nodes, in order. -/
def readAll {m : Type → Type} [Monad m] (read : Nat → Reading N m (Option (Amount N)))
    (ids : List Nat) : Reading N m (List (Option (Amount N))) := ids.mapM read

/-- The meta stat of a request. Without a catalog there is none. -/
def derive (request : MetaStat N) : Reading N (Run N A σ) (Stat N) := do
  match (← getThe (Network N A σ)).catalog with
  | none => throw .catalogReleased
  | some catalog =>
    let (stat, catalog) := (Catalog.get request).run catalog
    modifyThe (Network N A σ) fun n => { n with catalog := some catalog }
    return stat

/-- What a formula looks up on a path is made if it is missing, recorded, and read. -/
def recordingLookup (host : Host N A σ) (read : Nat → Reading N (Run N A σ) (Option (Amount N)))
    (path : Path (Stat N)) : Lookup N (Recording N A σ) where
  path := path
  paths := fun stat => do
    let set ← onNetwork (pathSetOf host stat)
    record (.paths stat.key) (.paths set)
    return (← onNetwork get).pathsIn set
  value := fun stat stage path => do
    let path := stagePath stage path
    let entry ← onNetwork (nodesOf host stat stage path)
    record (.node ⟨stat.key, stage, path.key⟩) (.received entry.cached)
    readIn read entry.exposed
  values := fun form places => do
    let perPlace ← places.mapM fun (stat, path) => do
      let entry ← onNetwork (collectionOf host stat form path)
      record (.form stat.key form path.key) (.changed entry.aggregate)
      readAll (readIn read) ((← onNetwork get).memberNodes entry.collection)
    return perPlace.flatten
  derived := fun request => ExceptT.mk (StateT.lift (derive request).run)
  note := fun text => StateT.lift (host.note text)

/-- What the formula of a node computes. -/
def meaning {m : Type → Type} [Monad m] (n : Network N A σ) : FormulaSource N → Meaning N m
  | .plain formula => formula.eval
  | .layered id =>
    match n.layered[id]? with
    | some x => Transformation.layer x.layers x.initial.eval
    | none => fun _ => pure none

/-- Subscribe a formula node to what its last evaluation recorded. Subscriptions to the same topics are
kept, others are dropped, and new ones follow in the order they were recorded. -/
def resubscribe (id : Nat) (recorded : List (DependencyKey × Topic)) : Run N A σ Unit := do
  match (← get).formula? id with
  | none => return
  | some f =>
    let (kept, dropped) := f.dependencies.partition fun d => recorded.contains (d.1, d.2.topic)
    modify (·.unsubscribeAll (dropped.map (·.2)))
    let n ← get
    let missing := recorded.filter fun r => !kept.any (·.1 == r.1) && n.isPresent r.2
    let added ← missing.mapM fun (key, topic) => return (key, ← attach topic (.relay id))
    modify fun n => n.modifyFormula id fun f => { f with dependencies := kept ++ added }

/-- Evaluate the formula of a node and subscribe it to what was looked up. -/
def readFormula (host : Host N A σ) (read : Nat → Reading N (Run N A σ) (Option (Amount N)))
    (id : Nat) (f : FormulaNode N) : Reading N (Run N A σ) (Option (Amount N)) := do
  let n ← getThe (Network N A σ)
  if n.released then throw .networkReleased
  let lookup := recordingLookup host read f.path
  let (result, recorded) ← (n.meaning f.source lookup).run.run []
  ExceptT.lift (resubscribe id recorded)
  Reading.ofExcept result

/-- Compute the value of a cached node. The node cannot be entered meanwhile. The value is kept unless
a change came in; a fault unwinds through the node. -/
def computeCached (read : Nat → Reading N (Run N A σ) (Option (Amount N))) (id : Nat)
    (c : CachedNode N A) : Run N A σ (Except (Fault N) (Option (Amount N))) := do
  match c.guard.enter c.label with
  | .error fault => return .error fault
  | .ok guard =>
    modify fun n => n.modifyCached id fun c => { c with guard := guard, stale := false }
    let result ← (read c.inner).run
    modify fun n => n.modifyCached id fun c =>
      { c with
        guard := Guard.open_
        cache := match result with
          | .ok value => if c.stale then c.cache else some value
          | .error _ => c.cache }
    return result.mapError (Fault.unwind c.label)

/-- Read a cached node: the value that is kept, or one that is computed. Either way the node tells of
the next change. -/
def readCached (read : Nat → Reading N (Run N A σ) (Option (Amount N))) (id : Nat)
    (c : CachedNode N A) : Reading N (Run N A σ) (Option (Amount N)) := do
  let result ← match c.cache with
    | some value => pure (Except.ok value)
    | none => ExceptT.lift (computeCached read id c)
  modifyThe (Network N A σ) fun n => n.modifyCached id fun c => { c with observed := true }
  Reading.ofExcept result

/-- Read an input from the host, which may refer to another node. -/
def readInput (host : Host N A σ) (read : Nat → Reading N (Run N A σ) (Option (Amount N)))
    (action : A) : Reading N (Run N A σ) (Option (Amount N)) := do
  match ← host.supply action with
  | .value v => return v
  | .fault fault => throw fault
  | .node id => read id

/-- Read a node. The first argument bounds how deeply nodes read each other. -/
def read (host : Host N A σ) : Nat → Nat → Reading N (Run N A σ) (Option (Amount N))
  | 0, _ => ExceptT.lift exhausted
  | fuel + 1, id => do
    match (← getThe (Network N A σ)).body? id with
    | none => ExceptT.lift exhausted
    | some (.input action) => readInput host (read host fuel) action
    | some .absent => return none
    | some (.formula f) => readFormula host (read host fuel) id f
    | some (.cached c) => readCached (read host fuel) id c
    | some (.exposed inner) | some (.wrapped inner _) => read host fuel inner
    | some (.aggregate a) =>
      let members := (← getThe (Network N A σ)).memberNodes a.collection
      Reading.ofExcept (aggregate a.form (← readAll (read host fuel) members))

/-- The first of the depths `depth`, `2 * depth`, … to which the node can be read. -/
def depthFor (host : Host N A σ) (id : Nat) (n : Network N A σ) (depth : Nat) : Option Nat :=
  repeatM (fun depth => some
    (if (read host depth id n).isSome then .inr depth else .inl (2 * depth))) depth

/-- Read a node, where nodes read each other at most `depth` deep. If that turns out to be too little,
the same is tried again from the start, twice as deep. -/
def readFrom (host : Host N A σ) (id depth : Nat) :
    Network N A σ → Option (Except (Fault N) (Option (Amount N)) × Network N A σ) := fun n =>
  match read host depth id n with
  | some answer => some answer
  | none => do read host (← depthFor host id n (2 * depth)) id n

/-- The depth that nodes are read to at first: every node that exists may read another one, and some
are made meanwhile. -/
def readDepth (n : Network N A σ) : Nat := 2 * n.nodes.size + 1000000

/-- The value of a node. -/
def valueOf (host : Host N A σ) (id : Nat) : Reading N (Run N A σ) (Option (Amount N)) :=
  fun n => readFrom host id n.readDepth n

/-- The values of the members of a collection. -/
def memberValues (host : Host N A σ) (collection : Nat) :
    Reading N (Run N A σ) (List (Option (Amount N))) := do
  readAll (valueOf host) ((← getThe (Network N A σ)).memberNodes collection)

end StatEngine.Network
