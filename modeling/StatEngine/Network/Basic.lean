import StatEngine.Modifier
import StatEngine.Formula.Lookup

/-!
# The network of nodes

A `Network` holds everything that is computed and everything that is waiting for changes. Its parts
live in tables and refer to each other by their positions; a part is never taken out of its table, so
a position names one part for good.

* A `Node` yields an amount. A formula node evaluates a formula and subscribes to what it read; a
  cached node keeps the value of another node until that node reports a change; an aggregate node
  follows a collection of modifier nodes.
* A `Topic` is where changes are announced. Listeners attached to it are called in the order they
  were attached.
* A `Subgraph` gathers the nodes, collections and paths of one stat.

The network is embedded in a host. `A` is the type of what a host asks to be done when it is called
back, and `σ` is the state the host keeps beside the network.
-/

namespace StatEngine.Network

/-- A place where changes are announced. -/
inductive Topic where
  /-- The value of a node may have changed. For a cached node this announcement is the one that
  batches hold back. -/
  | changed (node : Nat)
  /-- The value of a cached node was dropped. This announcement is never held back. -/
  | received (node : Nat)
  /-- A collection has other members. -/
  | members (collection : Nat)
  /-- A stat has other paths. -/
  | paths (set : Nat)
  /-- A formula has other layers. -/
  | layers (formula : Nat)
  /-- A stat was listed or taken off the list. -/
  | listing
  /-- An announcement of the host. -/
  | named (event : Nat)
  deriving DecidableEq, Repr

/-- The attachment of a listener to a topic. -/
structure Subscription where
  /-- The topic. -/
  topic : Topic
  /-- What tells the attachment from others. -/
  token : Nat
  deriving DecidableEq, Repr

/-- What an announcement says. -/
inductive Signal (N : Type) where
  /-- Something may have changed. -/
  | changed
  /-- A node joined a collection. -/
  | added (node : Nat)
  /-- A node left a collection. -/
  | removed (node : Nat)
  /-- All nodes left a collection. -/
  | reset
  /-- A stat was listed. -/
  | listed (stat : Stat N)
  /-- A stat was taken off the list. -/
  | unlisted (stat : Stat N)

/-- Who is called by an announcement. -/
inductive Listener (A : Type) where
  /-- A cached node drops its value. -/
  | invalidate (node : Nat)
  /-- A node announces that it changed too. -/
  | relay (node : Nat)
  /-- An aggregate node adjusts to its collection. -/
  | follow (node : Nat)
  /-- The host is called back. -/
  | host (action : A)

/-- A listener that is attached to a topic. -/
structure Attached (A : Type) where
  /-- What tells the attachment from others. -/
  token : Nat
  /-- Who is called. -/
  listener : Listener A

/-- A flag against entering a region twice. -/
structure Guard where
  /-- Whether the region is entered. -/
  entered : Bool
  deriving DecidableEq, Repr

namespace Guard

/-- A region that is not entered. -/
def open_ : Guard := ⟨false⟩

/-- Enter the region, or find that it is entered already: then the node `label` depends on itself. -/
def enter {N : Type} (g : Guard) (label : String) : Except (Fault N) Guard :=
  if g.entered then .error (Fault.cycleAt label) else .ok ⟨true⟩

end Guard

/-- What a formula node evaluates. -/
inductive FormulaSource (N : Type) where
  /-- A formula of its own. -/
  | plain (formula : Formula N)
  /-- A formula with layers that change. -/
  | layered (formula : Nat)

/-- A node that evaluates a formula. -/
structure FormulaNode (N : Type) where
  /-- What is evaluated. -/
  source : FormulaSource N
  /-- The path it is evaluated on. -/
  path : Path (Stat N)
  /-- What the last evaluation read, in the order it was first read, with the subscriptions to it. -/
  dependencies : List (DependencyKey × Subscription)
  /-- The subscription to the layers of the formula. -/
  trigger : Option Subscription

/-- A node that keeps the value of another node. -/
structure CachedNode (N A : Type) where
  /-- The name of the node in cycles. -/
  label : String
  /-- The node whose value is kept. -/
  inner : Nat
  /-- The value, if it is known. -/
  cache : Option (Option (Amount N))
  /-- Whether the node was read since it last announced a change. -/
  observed : Bool
  /-- Whether a change came in while the value was being computed. -/
  stale : Bool
  /-- The flag against computing the value while it is being computed. -/
  guard : Guard
  /-- The listeners of the announcement that is never held back. -/
  received : List (Attached A)
  /-- The subscription to the inner node. -/
  subscription : Option Subscription

/-- A node that combines the members of a collection. -/
structure AggregateNode where
  /-- The collection. -/
  collection : Nat
  /-- The form the members are combined as. -/
  form : Form
  /-- The subscription to the collection. -/
  subscription : Option Subscription
  /-- The members that are followed, with the subscriptions to them. -/
  members : List (Nat × Subscription)

/-- What a node does. -/
inductive Body (N A : Type) where
  /-- The host supplies the value. -/
  | input (action : A)
  /-- The value is always absent. -/
  | absent
  /-- A formula is evaluated. -/
  | formula (f : FormulaNode N)
  /-- The value of another node is kept. -/
  | cached (c : CachedNode N A)
  /-- A cached node is shown to other nodes, through the announcement that is never held back. -/
  | exposed (inner : Nat)
  /-- A cached node is shown to hosts. -/
  | wrapped (inner : Nat) (subscription : Option Subscription)
  /-- A collection is combined. -/
  | aggregate (a : AggregateNode)

/-- A node with the listeners of its announcement. -/
structure Node (N A : Type) where
  /-- What the node does. -/
  body : Body N A
  /-- The listeners. -/
  listeners : List (Attached A)
  /-- Whether nothing owns the node any more. -/
  gone : Bool

/-- The modifier nodes of a form on a path of a stat. -/
structure Collection (N A : Type) where
  /-- The members with the modifiers they are for, in the order they were added. -/
  items : List (Nat × Modifier N)
  /-- The formula nodes of the members, in the same order. -/
  formulas : List (Modifier N × Nat)
  /-- The listeners. -/
  listeners : List (Attached A)

/-- The paths of a stat, each with the number of nodes and collections on it. -/
structure PathSet (N A : Type) where
  /-- The paths, in the order they appeared. -/
  entries : List (Path (Stat N) × Nat)
  /-- The listeners. -/
  listeners : List (Attached A)
  /-- Whether nothing owns the set any more. -/
  gone : Bool

/-- A formula with transformations layered on it. -/
structure Layered (N A : Type) where
  /-- The innermost formula. -/
  initial : Formula N
  /-- The transformations, the innermost first. -/
  layers : List (Transformation N)
  /-- The listeners. -/
  listeners : List (Attached A)
  /-- Whether nothing owns the formula any more. -/
  gone : Bool

/-- A stage of a stat on a path, with its nodes. -/
structure NodeEntry (N : Type) where
  /-- The stage. -/
  stage : Stage
  /-- The path. -/
  path : Path (Stat N)
  /-- The node that evaluates the formula. -/
  formula : Nat
  /-- The node that keeps the value. -/
  cached : Nat
  /-- The node that other nodes read. -/
  exposed : Nat

/-- A form on a path of a stat, with the collection of its modifiers. -/
structure FormEntry (N : Type) where
  /-- The form. -/
  form : Form
  /-- The path. -/
  path : Path (Stat N)
  /-- The collection. -/
  collection : Nat
  /-- The node that follows the collection. -/
  aggregate : Nat

/-- Everything that belongs to one stat. -/
structure Subgraph (N : Type) where
  /-- The stat. -/
  stat : Stat N
  /-- The nodes of its stages, in the order they were made. -/
  nodes : List (NodeEntry N)
  /-- The collections of its forms, in the order they were made. -/
  forms : List (FormEntry N)
  /-- How many modifiers of the stat are registered. -/
  modifierCount : Nat
  /-- Its paths. -/
  paths : Nat

/-- A formula that behaviors are applied to. -/
structure Registration where
  /-- The node of the formula. -/
  key : NodeKey
  /-- The formula. -/
  formula : Nat

/-- The stats that hosts list, with the nodes that show their totals. -/
structure Listing (N A : Type) where
  /-- The stats, in the order they were listed. -/
  entries : List (Stat N × Nat)
  /-- The listeners. -/
  listeners : List (Attached A)

/-- Announcements that are held back while a batch runs. -/
structure Buffer where
  /-- Whether batches hold announcements back at all. -/
  enabled : Bool
  /-- How many batches are running inside each other. -/
  depth : Nat
  /-- What is held back, each topic once, in the order they came. -/
  pending : List Topic

namespace Buffer

/-- No batch is running. -/
def idle (enabled : Bool) : Buffer := ⟨enabled, 0, []⟩

/-- Whether a batch is running. -/
def isBuffering (b : Buffer) : Bool := 0 < b.depth

/-- Whether announcements are being held back. -/
def holds (b : Buffer) : Bool := b.enabled && b.isBuffering

/-- Hold back an announcement, unless the topic has one already. -/
def hold (b : Buffer) (topic : Topic) : Buffer :=
  if topic ∈ b.pending then b else { b with pending := b.pending ++ [topic] }

end Buffer

end StatEngine.Network

namespace StatEngine

open Network in
/-- Everything that is computed, and everything that is waiting for changes. -/
structure Network (N A σ : Type) where
  /-- The nodes. -/
  nodes : Array (Node N A)
  /-- The collections of modifier nodes. -/
  collections : Array (Collection N A)
  /-- The paths of stats. -/
  pathSets : Array (PathSet N A)
  /-- The formulas with layers. -/
  layered : Array (Layered N A)
  /-- The listeners of the announcements of the host. -/
  events : Array (List (Attached A))
  /-- The subgraphs, those that are no longer in use included. -/
  graphs : Array (Subgraph N)
  /-- The subgraphs in use, in the order they were made. -/
  live : List Nat
  /-- The behaviors that are installed, in order, with how often each is declared. -/
  installed : List (Behavior N × Nat)
  /-- The formulas that behaviors are applied to, in the order they were registered. -/
  registrations : List Registration
  /-- The stats that hosts list. -/
  listing : Listing N A
  /-- The announcements that are held back. -/
  buffer : Buffer
  /-- The meta stats, unless they were let go of. -/
  catalog : Option (Catalog N)
  /-- Whether the owner of the network let go of it. -/
  released : Bool
  /-- The number of the next subscription. -/
  nextToken : Nat
  /-- What the host keeps beside the network. -/
  host : σ

namespace Network

variable {N A σ : Type}

/-- A network without nodes. -/
def empty (buffered : Bool) (catalog : Option (Catalog N)) (host : σ) : Network N A σ where
  nodes := #[]
  collections := #[]
  pathSets := #[]
  layered := #[]
  events := #[]
  graphs := #[]
  live := []
  installed := []
  registrations := []
  listing := ⟨[], []⟩
  buffer := Buffer.idle buffered
  catalog := catalog
  released := false
  nextToken := 0
  host := host

/-- What the node at a position does. -/
def body? (n : Network N A σ) (id : Nat) : Option (Body N A) := n.nodes[id]?.map (·.body)

/-- The cached node at a position. -/
def cached? (n : Network N A σ) (id : Nat) : Option (CachedNode N A) :=
  match n.nodes[id]? with
  | some { body := .cached c, .. } => some c
  | _ => none

/-- The formula node at a position. -/
def formula? (n : Network N A σ) (id : Nat) : Option (FormulaNode N) :=
  match n.nodes[id]? with
  | some { body := .formula f, .. } => some f
  | _ => none

/-- The aggregate node at a position. -/
def aggregate? (n : Network N A σ) (id : Nat) : Option AggregateNode :=
  match n.nodes[id]? with
  | some { body := .aggregate a, .. } => some a
  | _ => none

/-- Change the cached node at a position. -/
def modifyCached (n : Network N A σ) (id : Nat) (f : CachedNode N A → CachedNode N A) :
    Network N A σ :=
  { n with nodes := n.nodes.modify id fun node =>
      match node.body with
      | .cached c => { node with body := .cached (f c) }
      | _ => node }

/-- Change the formula node at a position. -/
def modifyFormula (n : Network N A σ) (id : Nat) (f : FormulaNode N → FormulaNode N) :
    Network N A σ :=
  { n with nodes := n.nodes.modify id fun node =>
      match node.body with
      | .formula x => { node with body := .formula (f x) }
      | _ => node }

/-- Change the aggregate node at a position. -/
def modifyAggregate (n : Network N A σ) (id : Nat) (f : AggregateNode → AggregateNode) :
    Network N A σ :=
  { n with nodes := n.nodes.modify id fun node =>
      match node.body with
      | .aggregate a => { node with body := .aggregate (f a) }
      | _ => node }

/-- The topic on which a node announces that its value may have changed. -/
def changeTopic (n : Network N A σ) (id : Nat) : Topic :=
  match n.nodes[id]? with
  | some { body := .exposed inner, .. } => .received inner
  | _ => .changed id

/-- The listeners of a topic, in the order they were attached. -/
def listeners (n : Network N A σ) : Topic → List (Attached A)
  | .changed id => (n.nodes[id]?.map (·.listeners)).getD []
  | .received id => ((n.cached? id).map (·.received)).getD []
  | .members id => (n.collections[id]?.map (·.listeners)).getD []
  | .paths id => (n.pathSets[id]?.map (·.listeners)).getD []
  | .layers id => (n.layered[id]?.map (·.listeners)).getD []
  | .listing => n.listing.listeners
  | .named id => n.events[id]?.getD []

/-- How many listeners a topic has. -/
def listenerCount (n : Network N A σ) (topic : Topic) : Nat := (n.listeners topic).length

/-- Change the listeners of a topic. -/
def modifyListeners (n : Network N A σ) (topic : Topic) (f : List (Attached A) → List (Attached A)) :
    Network N A σ :=
  match topic with
  | .changed id =>
    { n with nodes := n.nodes.modify id fun x => { x with listeners := f x.listeners } }
  | .received id => n.modifyCached id fun c => { c with received := f c.received }
  | .members id =>
    { n with collections := n.collections.modify id fun x => { x with listeners := f x.listeners } }
  | .paths id =>
    { n with pathSets := n.pathSets.modify id fun x => { x with listeners := f x.listeners } }
  | .layers id =>
    { n with layered := n.layered.modify id fun x => { x with listeners := f x.listeners } }
  | .listing => { n with listing := { n.listing with listeners := f n.listing.listeners } }
  | .named id => { n with events := n.events.modify id f }

/-- Attach a listener to a topic, after those that are attached. -/
def subscribe (n : Network N A σ) (topic : Topic) (listener : Listener A) :
    Subscription × Network N A σ :=
  let n' := n.modifyListeners topic (· ++ [⟨n.nextToken, listener⟩])
  (⟨topic, n.nextToken⟩, { n' with nextToken := n.nextToken + 1 })

/-- Detach a listener. -/
def unsubscribe (n : Network N A σ) (s : Subscription) : Network N A σ :=
  n.modifyListeners s.topic (·.filter (·.token != s.token))

/-- Detach several listeners. -/
def unsubscribeAll (n : Network N A σ) (ss : List Subscription) : Network N A σ :=
  ss.foldl unsubscribe n

/-- Whether what owns a topic is still there. -/
def isPresent (n : Network N A σ) : Topic → Bool
  | .changed id | .received id => (n.nodes[id]?.map (!·.gone)).getD false
  | .members id => id < n.collections.size
  | .paths id => (n.pathSets[id]?.map (!·.gone)).getD false
  | .layers id => (n.layered[id]?.map (!·.gone)).getD false
  | .listing => true
  | .named id => id < n.events.size

/-- The subgraph of a stat that is in use. -/
def graph? (n : Network N A σ) (stat : StatKey) : Option Nat :=
  n.live.find? fun id => (n.graphs[id]?.map fun g => g.stat.key == stat).getD false

/-- Computations on a network. They have no result if a bound on nested calls was too small, or if a
position names nothing. -/
abbrev Run (N A σ : Type) := StateT (Network N A σ) Option

/-- A bound on nested calls was too small, or a position names nothing. -/
def exhausted {α : Type} : Run N A σ α := fun _ => none

/-- Attach a listener to a topic. -/
def attach (topic : Topic) (listener : Listener A) : Run N A σ Subscription :=
  modifyGet fun n => n.subscribe topic listener

/-- Detach a listener. -/
def detach (s : Subscription) : Run N A σ Unit := modify (·.unsubscribe s)

/-- Add a node and return its position. -/
def addNode (body : Body N A) : Run N A σ Nat :=
  modifyGet fun n => (n.nodes.size, { n with nodes := n.nodes.push ⟨body, [], false⟩ })

/-- The members of a collection, in order. -/
def memberNodes (n : Network N A σ) (collection : Nat) : List Nat :=
  (n.collections[collection]?.map fun c => c.items.map (·.1)).getD []

/-- What a host supplies for an input. -/
inductive Supply (N : Type) where
  /-- An amount. -/
  | value (v : Option (Amount N))
  /-- A fault. -/
  | fault (f : Fault N)
  /-- The value of a node. -/
  | node (id : Nat)

/-- How a host takes part in what happens in a network. -/
structure Host (N A σ : Type) where
  /-- Called by an announcement. -/
  notified : A → Signal N → Run N A σ Unit
  /-- Asked for the value of an input. -/
  supply : A → Run N A σ (Supply N)
  /-- Told that an input is disposed. -/
  disposed : A → Run N A σ Unit
  /-- Told of the evaluation of a formula that wants it noted. -/
  note : String → Run N A σ Unit

/-- A host that does nothing. -/
def Host.idle : Host N A σ where
  notified := fun _ _ => pure ()
  supply := fun _ => pure (.value none)
  disposed := fun _ => pure ()
  note := fun _ => pure ()

/-- A bound on how deeply announcements call each other: every topic, and room for hosts that read
again what was announced. -/
def cascadeBound (n : Network N A σ) : Nat :=
  4 * (2 * n.nodes.size + n.collections.size + n.pathSets.size + n.layered.size + n.events.size + 16)

end Network

end StatEngine
