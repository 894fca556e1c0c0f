import StatEngine.Network.Sweep
import StatEngine.Session.Log

/-!
# Sessions with nodes

Nodes that are put together by hand. The host supplies inputs, whose reading and disposing is logged
and which may run steps while they are read.
-/

namespace StatEngine.Session.Nodes

open Network

/-- What an input yields. -/
inductive InputValue where
  /-- An amount. -/
  | amount (value : Option (Amount Float))
  /-- A fault. -/
  | fault (fault : Fault Float)
  /-- The value of the node with a name. -/
  | node (name : String)

mutual

/-- A new part and what it is made from. -/
inductive Part where
  /-- An input that runs steps when it is read. -/
  | input (value : InputValue) (steps : List Step)
  /-- A cached node under a label. -/
  | cached (inner : String) (label : String)
  /-- A cached node as it is shown to other nodes. -/
  | exposed (inner : String)
  /-- A cached node as it is shown to hosts. -/
  | wrapped (inner : String)
  /-- A node that combines a collection. -/
  | aggregate (collection : String) (form : Form)
  /-- A node without a value. -/
  | absent
  /-- A collection. -/
  | collection
  /-- A flag against entering twice. -/
  | guard

/-- A step of a session with nodes. -/
inductive Step where
  /-- Make a part. -/
  | new (name : String) (part : Part)
  /-- Let go of a part. -/
  | forget (name : String)
  /-- Read a node. -/
  | read (node : String)
  /-- Change an input, and announce it unless that is to stay quiet. Without steps it keeps its own. -/
  | set (node : String) (value : InputValue) (steps : Option (List Step)) (quiet : Bool)
  /-- Dispose a node. -/
  | dispose (node : String)
  /-- Read the members of an aggregate node. -/
  | values (node : String)
  /-- Describe a part. -/
  | state (name : String)
  /-- Put a node into a collection for a modifier. -/
  | addMember (collection node modifier : String)
  /-- Take the node of a modifier out of a collection. -/
  | removeMember (collection modifier : String)
  /-- Take all nodes out of a collection. -/
  | clearMembers (collection : String)
  /-- Run steps with a guard entered. -/
  | enter (guard label : String) (steps : List Step)
  /-- Attach a listener that logs its name and then runs steps. A received announcement is one that is
  never held back. -/
  | listen (name node : String) (received : Bool) (steps : List Step)
  /-- Detach a listener. -/
  | unlisten (name : String)
  /-- Run steps as a batch. -/
  | buffer (steps : List Step)

end

/-- An input of the host. -/
structure Input where
  /-- Its name in the log. -/
  name : String
  /-- What it yields. -/
  value : InputValue
  /-- What it runs when it is read. -/
  steps : List Step

/-- What a name stands for. -/
inductive Handle where
  /-- A node. -/
  | node (id : Nat)
  /-- A collection. -/
  | collection (id : Nat)
  /-- A guard. -/
  | guard (g : Guard)

/-- What a session with nodes keeps. -/
structure Desk where
  /-- The parts by their names. -/
  handles : Named Handle
  /-- The inputs, by their numbers. -/
  inputs : Array Input
  /-- The names of modifiers, which are numbered in this order. -/
  modifiers : List String

/-- What the host is called for. -/
inductive Action where
  /-- A listener logs its name and runs steps. -/
  | listener (name : String) (steps : List Step)
  /-- An input. -/
  | input (number : Nat)

/-- The computations of a session with nodes. -/
abbrev NodeWork := Work Action Desk

/-- The node with a name. -/
def node (name : String) : NodeWork Nat := do
  match (← desk).handles.get? name with
  | some (.node id) => return id
  | _ => exhausted

/-- The collection with a name. -/
def collection (name : String) : NodeWork Nat := do
  match (← desk).handles.get? name with
  | some (.collection id) => return id
  | _ => exhausted

/-- Know a part by a name. -/
def know (name : String) (handle : Handle) : NodeWork Unit :=
  modifyDesk fun d => { d with handles := d.handles.put name handle }

/-- The nodes that the session owns. -/
def held (n : Network Float Action (Logged Desk)) : List Nat :=
  n.host.desk.handles.flatMap fun (_, handle) =>
    match handle with
    | .node id => [id]
    | .collection id => n.ownedByCollection id
    | .guard _ => []

/-- Let go of what nothing owns any more. -/
def tidy : NodeWork Unit := do sweep (held (← get))

/-- The modifier with a name. The first use of a name numbers it. -/
def modifier (name : String) : NodeWork (Modifier Float) := do
  if !(← desk).modifiers.contains name then
    modifyDesk fun d => { d with modifiers := d.modifiers ++ [name] }
  let number := ((← desk).modifiers.idxOf? name).getD 0
  return { stats := [], form := .baseAdd, formula := .constant none, identity := number,
           source := ⟨.global, ""⟩ }

/-- The host, whose listeners and inputs run steps by `run`. -/
def host (run : Step → NodeWork Json) : Host Float Action (Logged Desk) where
  notified := fun action _ => do
    match action with
    | .listener name steps =>
      say name
      steps.forM fun s => discard (run s)
    | .input _ => return
  supply := fun action => do
    match action with
    | .listener _ _ => return .value none
    | .input number =>
      let input ← need (← desk).inputs[number]?
      say ("read " ++ input.name)
      input.steps.forM fun s => discard (run s)
      match (← need (← desk).inputs[number]?).value with
      | .amount v => return .value v
      | .fault f => return .fault f
      | .node name => return .node (← node name)
  disposed := fun action => do
    match action with
    | .listener _ _ => return
    | .input number => say ("dispose " ++ (← need (← desk).inputs[number]?).name)
  note := say

/-- Make a part. -/
def make (name : String) : Part → NodeWork Handle
  | .input value steps => do
    let number := (← desk).inputs.size
    modifyDesk fun d => { d with inputs := d.inputs.push ⟨name, value, steps⟩ }
    return .node (← addNode (.input (.input number)))
  | .cached inner label => return .node (← addCached (← node inner) label)
  | .exposed inner => return .node (← addExposed (← node inner))
  | .wrapped inner => return .node (← addWrapped (← node inner))
  | .aggregate members form => return .node (← addAggregate (← collection members) form)
  | .absent => return .node (← addNode .absent)
  | .collection => return .collection (← addCollection)
  | .guard => return .guard Guard.open_

/-- The label of a cached node. -/
def label (n : Network Float Action (Logged Desk)) (id : Nat) : Json :=
  .optionalString ((n.cached? id).map (·.label))

/-- Describe a part. -/
def describe (n : Network Float Action (Logged Desk)) : Handle → Json
  | .node id =>
    let own := Json.nat (n.listenerCount (.changed id))
    match n.body? id with
    | some (.cached c) =>
      .array [.string c.label, .bool c.cache.isSome, .nat (n.listenerCount (.received id)), own]
    | some (.exposed inner) => .array [.nat (n.listenerCount (.received inner))]
    | some (.wrapped inner _) => .array [own, label n inner]
    | some (.aggregate a) => .array [own, .nat (n.memberNodes a.collection).length]
    | _ => .array [own]
  | .collection id =>
    let members := n.memberNodes id
    .array [.nat members.length, .bool members.isEmpty, .nat (n.listenerCount (.members id))]
  | .guard g => .array [.bool g.entered]

/-- Change the guard with a name. -/
def setGuard (name : String) (g : Guard) : NodeWork Unit :=
  modifyDesk fun d => { d with
    handles := d.handles.map fun (known, handle) =>
      match handle with
      | .guard _ => (known, if known == name then .guard g else handle)
      | _ => (known, handle) }

/-- Run steps with a guard entered, or find that it is entered already. -/
def enter (run : Step → NodeWork Json) (name label : String) (steps : List Step) :
    NodeWork Json := do
  match (← desk).handles.get? name with
  | some (.guard g) =>
    match g.enter label with
    | .error fault => return Answer.fault fault
    | .ok entered =>
      setGuard name entered
      let answers ← steps.mapM run
      setGuard name Guard.open_
      return .array answers
  | _ => exhausted

/-- Read a node. Reading that happens inside another step is logged. -/
def readAs (run : Step → NodeWork Json) (nested : Bool) (id : Nat) : NodeWork Json := do
  let answer := Answer.outcome (← readNode (host run) id)
  if nested then say ("got " ++ answer.text)
  return answer

/-- Change an input. -/
def setInput (id : Nat) (value : InputValue) (steps : Option (List Step)) : NodeWork Unit := do
  match (← get).body? id with
  | some (.input (.input number)) =>
    modifyDesk fun d => { d with
      inputs := d.inputs.modify number fun i => { i with value, steps := steps.getD i.steps } }
  | _ => exhausted

/-- Carry out a step, those inside it by `run`. -/
def perform (run : Step → NodeWork Json) (nested : Bool) : Step → NodeWork Json
  | .new name part => do
    know name (← make name part)
    return .null
  | .forget name => do
    let known := ((← desk).handles.get? name).isSome
    modifyDesk fun d => { d with handles := d.handles.erase name }
    return .bool known
  | .read name => do readAs run nested (← node name)
  | .set name value steps quiet => do
    let id ← node name
    setInput id value steps
    if !quiet then emit (host run) (.changed id) .changed
    return .null
  | .dispose name => do
    Network.dispose (host run) (← node name)
    return .null
  | .values name => do
    match (← get).body? (← node name) with
    | some (.aggregate a) =>
      return Answer.ofExcept Answer.amounts (← (memberValues (host run) a.collection).run)
    | _ => exhausted
  | .state name => do return describe (← get) (← need ((← desk).handles.get? name))
  | .addMember members member m => do
    Network.addMember (host run) (← collection members) (← node member) (← modifier m)
    return .null
  | .removeMember members m => do
    let removed ← Network.removeMember (host run) (← collection members) (← modifier m)
    return .bool removed.isSome
  | .clearMembers members => do
    return .nat (← Network.clearMembers (host run) (← collection members)).length
  | .enter guard label steps => enter run guard label steps
  | .listen name target received steps => do
    let id ← node target
    let n ← get
    let topic := if received then .received id else n.changeTopic id
    listenAs name topic (.listener name steps)
    return .null
  | .unlisten name => do return .bool (← unlisten name)
  | .buffer steps => batch (host run) do return .array (← steps.mapM run)

/-- Carry out a step. The first argument bounds how deeply steps run other steps; the second one tells
whether the step is inside another one. -/
def step : Nat → Bool → Step → NodeWork Json
  | 0, _, _ => exhausted
  | fuel + 1, nested, s => do
    tidy
    let answer ← perform (step fuel true) nested s
    tidy
    return answer

/-- The answers of a session. -/
def run (buffered : Bool) (steps : List Step) : Option Json :=
  let start := Network.empty buffered none ⟨[], [], ⟨[], #[], []⟩⟩
  (answeredAll (step depth false) steps start).map (·.1)

end StatEngine.Session.Nodes
