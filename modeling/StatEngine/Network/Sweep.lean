import StatEngine.Network.Wiring

/-!
# Sweeping up

A node lives while something owns it: the subgraph or the list it belongs to, a host that holds it,
another node it is inside of, or its own computation while that runs. A sweep cancels the subscriptions
of every node that nothing owns any more; such a node is told of nothing and nothing new subscribes to
it.
-/

namespace StatEngine.Network

variable {N A σ : Type}

/-- The nodes that a collection owns. -/
def ownedByCollection (n : Network N A σ) (collection : Nat) : List Nat :=
  match n.collections[collection]? with
  | some c => c.items.map (·.1) ++ c.formulas.map (·.2)
  | none => []

/-- The nodes that a node owns. -/
def ownedByNode (n : Network N A σ) (id : Nat) : List Nat :=
  match n.body? id with
  | some (.cached c) => [c.inner]
  | some (.exposed inner) | some (.wrapped inner _) => [inner]
  | some (.aggregate a) => n.ownedByCollection a.collection
  | _ => []

/-- The nodes that the network itself owns: those of the subgraphs in use and of listed stats. -/
def roots (n : Network N A σ) : List Nat :=
  let graphs := n.live.filterMap (n.graphs[·]?)
  graphs.flatMap (fun g =>
      g.nodes.flatMap (fun e => [e.formula, e.cached, e.exposed])
        ++ g.forms.flatMap fun e => e.aggregate :: n.ownedByCollection e.collection)
    ++ n.listing.entries.map (·.2)

/-- The nodes that are being computed. -/
def computing (n : Network N A σ) : List Nat :=
  (List.range n.nodes.size).filter fun id => ((n.cached? id).map (·.guard.entered)).getD false

/-- Mark the given nodes and all they own. The first argument bounds the number of nodes looked at. -/
def mark (n : Network N A σ) : Nat → (pending : List Nat) → (marked : Array Bool) → Array Bool
  | 0, _, marked => marked
  | _ + 1, [], marked => marked
  | fuel + 1, id :: pending, marked =>
    if marked[id]?.getD true then mark n fuel pending marked
    else mark n fuel (n.ownedByNode id ++ pending) (marked.set! id true)

/-- Whether a node is attached to something. -/
def isAttached (n : Network N A σ) (id : Nat) : Bool :=
  match n.body? id with
  | some (.formula f) => !f.dependencies.isEmpty || f.trigger.isSome
  | some (.cached c) => c.subscription.isSome
  | some (.wrapped _ subscription) => subscription.isSome
  | some (.aggregate a) => a.subscription.isSome || !a.members.isEmpty
  | _ => false

/-- The given nodes and all they own. -/
def reach (n : Network N A σ) (start : List Nat) : Array Bool :=
  let owned := n.collections.foldl (fun k c => k + c.items.length + c.formulas.length) 0
  n.mark (start.length + (n.nodes.size + 1) * (owned + 2)) start
    (Array.replicate n.nodes.size false)

/-- Note that nothing owns a node any more. -/
def disown (id : Nat) : Run N A σ Unit :=
  modify fun n => { n with
    nodes := n.nodes.modify id fun node => { node with gone := true }
    layered := match n.formula? id with
      | some ⟨.layered layered, _, _, _⟩ =>
        n.layered.modify layered fun x => { x with gone := true }
      | _ => n.layered }

/-- Let go of every node that nothing owns; one that is being computed keeps its subscriptions until
it is computed. Hosts hold the given nodes, and keep those in the given collections. -/
def sweep (held : List Nat) : Run N A σ Unit := do
  let n ← get
  let owned := n.reach (n.roots ++ held)
  let running := n.reach n.computing
  let remains := fun id => (n.nodes[id]?.map (!·.gone)).getD false || n.isAttached id
  ((List.range n.nodes.size).filter fun id => remains id && !owned[id]?.getD false).forM fun id => do
    unless running[id]?.getD false do releaseSubscriptions id
    disown id

/-- Let go of the network: no formula is evaluated any more, and what no host holds is gone. -/
def release (held : List Nat) : Run N A σ Unit := do
  modify fun n => { n with
    released := true
    live := []
    listing := { n.listing with entries := [] }
    installed := []
    registrations := []
    pathSets := n.pathSets.map fun s => { s with gone := true } }
  sweep held

end StatEngine.Network
