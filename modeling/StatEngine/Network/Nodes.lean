import StatEngine.Network.Layers

/-!
# Making and disposing nodes

A node subscribes to what it is made from, and disposing it takes that back: a disposed node is told
of no change any more. The nodes inside it are disposed with it.
-/

namespace StatEngine.Network

variable {N A σ : Type}

/-- Add a node that evaluates a formula of its own on a path. -/
def addFormula (formula : Formula N) (path : Path (Stat N)) : Run N A σ Nat :=
  addNode (.formula ⟨.plain formula, path, [], none⟩)

/-- Add a node that evaluates a formula with layers on a path, and announces when the layers
change. -/
def addLayeredFormula (layered : Nat) (path : Path (Stat N)) : Run N A σ Nat := do
  let id ← addNode (.formula ⟨.layered layered, path, [], none⟩)
  let trigger ← attach (.layers layered) (.relay id)
  modify fun n => n.modifyFormula id fun f => { f with trigger := some trigger }
  return id

/-- Add a node that keeps the value of another node. -/
def addCached (inner : Nat) (label : String) : Run N A σ Nat := do
  let id ← addNode (.cached {
    label, inner, cache := none, observed := false, stale := false, guard := Guard.open_,
    received := [], subscription := none })
  let subscription ← attach ((← get).changeTopic inner) (.invalidate id)
  modify fun n => n.modifyCached id fun c => { c with subscription := some subscription }
  return id

/-- Add a node that shows a cached node to other nodes. -/
def addExposed (inner : Nat) : Run N A σ Nat := addNode (.exposed inner)

/-- Change the subscription of a wrapped node. -/
def setWrapping (n : Network N A σ) (id : Nat) (subscription : Option Subscription) :
    Network N A σ :=
  { n with nodes := n.nodes.modify id fun node =>
      match node.body with
      | .wrapped inner _ => { node with body := .wrapped inner subscription }
      | _ => node }

/-- Add a node that shows a cached node to hosts. -/
def addWrapped (inner : Nat) : Run N A σ Nat := do
  let id ← addNode (.wrapped inner none)
  let subscription ← attach (.changed inner) (.relay id)
  modify fun n => n.setWrapping id (some subscription)
  return id

/-- Add a collection without members. -/
def addCollection : Run N A σ Nat :=
  modifyGet fun n =>
    (n.collections.size, { n with collections := n.collections.push ⟨[], [], []⟩ })

/-- Add a node that follows a collection. -/
def addAggregate (collection : Nat) (form : Form) : Run N A σ Nat := do
  let id ← addNode (.aggregate ⟨collection, form, none, []⟩)
  let subscription ← attach (.members collection) (.follow id)
  modify fun n => n.modifyAggregate id fun a => { a with subscription := some subscription }
  ((← get).memberNodes collection).forM (followMember id)
  return id

/-- Detach what a node is attached to, and forget it. -/
def releaseSubscriptions (id : Nat) : Run N A σ Unit := do
  match (← get).body? id with
  | some (.formula f) =>
    modify fun n => (n.unsubscribeAll (f.dependencies.map (·.2))).unsubscribeAll f.trigger.toList
    modify fun n => n.modifyFormula id fun f => { f with dependencies := [], trigger := none }
  | some (.cached c) =>
    modify fun n => n.unsubscribeAll c.subscription.toList
    modify fun n => n.modifyCached id fun c => { c with subscription := none }
  | some (.wrapped _ subscription) =>
    modify fun n => n.unsubscribeAll subscription.toList
    modify fun n => n.setWrapping id none
  | some (.aggregate a) =>
    modify fun n => n.unsubscribeAll (a.subscription.toList ++ a.members.map (·.2))
    modify fun n => n.modifyAggregate id fun a => { a with subscription := none, members := [] }
  | _ => return

/-- Dispose a node: it is attached to nothing any more, and what it kept is forgotten. What is inside a
node was made before it. -/
def dispose (host : Host N A σ) (id : Nat) : Run N A σ Unit := do
  releaseSubscriptions id
  match (← get).body? id with
  | some (.cached c) =>
    modify fun n => n.modifyCached id fun c => { c with cache := none }
    if c.inner < id then dispose host c.inner
  | some (.exposed inner) => if inner < id then dispose host inner
  | some (.input action) => host.disposed action
  | _ => return
termination_by id

/-- Put a node into a collection, for a modifier. -/
def addMember (host : Host N A σ) (collection node : Nat) (modifier : Modifier N) :
    Run N A σ Unit := do
  modify fun n => { n with
    collections := n.collections.modify collection fun c =>
      { c with items := c.items ++ [(node, modifier)] } }
  emit host (.members collection) (.added node)

/-- Take the first node for a modifier out of a collection. -/
def removeMember (host : Host N A σ) (collection : Nat) (modifier : Modifier N) :
    Run N A σ (Option Nat) := do
  match (← get).collections[collection]?.bind fun c => c.items.find? (·.2.same modifier) with
  | none => return none
  | some (node, _) =>
    modify fun n => { n with
      collections := n.collections.modify collection fun c =>
        { c with items := c.items.eraseP (·.2.same modifier) } }
    emit host (.members collection) (.removed node)
    return some node

/-- Take all nodes out of a collection. -/
def clearMembers (host : Host N A σ) (collection : Nat) : Run N A σ (List Nat) := do
  let members := (← get).memberNodes collection
  modify fun n => { n with
    collections := n.collections.modify collection fun c => { c with items := [] } }
  emit host (.members collection) .reset
  return members

end StatEngine.Network
