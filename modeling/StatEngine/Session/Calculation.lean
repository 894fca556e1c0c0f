import StatEngine.Breakdown
import StatEngine.MetaModifier
import StatEngine.Json.Reader
import StatEngine.Session.Log

/-!
# Sessions with a calculator

A host that adds and removes modifiers, reads stats, listens to changes, holds nodes, and looks into
the network.
-/

namespace StatEngine.Session.Calculation

open Network

/-- What a new modifier affects. -/
inductive Target where
  /-- Stats, by a form. -/
  | stats (stats : List (Stat Float)) (form : Form)
  /-- The conversion of a stat to another one. -/
  | conversion (source target : Stat Float)
  /-- What is gained of a stat as another one. -/
  | gainAs (source target : Stat Float)

/-- A modifier: one that has a name, or a new one that may get a name. -/
inductive ModifierRef where
  /-- The modifier with a name. -/
  | known (name : String)
  /-- A new modifier. -/
  | new (name : Option String) (target : Target) (formula : Formula Float) (source : LabeledSource)

/-- A cached node: one that is looked up, or one that is held. -/
inductive NodeRef where
  /-- The node of a stage of a stat on a path. -/
  | at (stat : Stat Float) (stage : Stage) (path : Path (Stat Float))
  /-- The node that is held under a name. -/
  | held (name : String)

/-- A step of a session with a calculator. -/
inductive Step where
  /-- Add a modifier. -/
  | add (modifier : ModifierRef)
  /-- Remove a modifier. -/
  | remove (modifier : ModifierRef)
  /-- Add and remove modifiers together. -/
  | update (added removed : List ModifierRef)
  /-- Remove a modifier without an update. -/
  | removeDirectly (modifier : ModifierRef)
  /-- Ask whether two modifiers are the same. -/
  | sameModifier (a b : ModifierRef)
  /-- Describe a modifier. -/
  | modifier (modifier : ModifierRef)
  /-- Run steps as a batch. -/
  | batch (steps : List Step)
  /-- Ask whether a batch is running. -/
  | buffering
  /-- Read a stage of a stat on a path. -/
  | value (stat : Stat Float) (stage : Stage) (path : Path (Stat Float))
  /-- Read a node. -/
  | read (node : NodeRef)
  /-- Read a stage as other nodes do, and count those who listen. -/
  | optional (stat : Option (Stat Float)) (stage : Stage) (path : Path (Stat Float))
  /-- Describe the collection of a form. -/
  | form (stat : Stat Float) (form : Form) (path : Path (Stat Float))
  /-- List the paths of a stat. -/
  | paths (stat : Stat Float)
  /-- Ask whether a stat has a path, and whether it has none. -/
  | hasPath (stat : Stat Float) (path : Path (Stat Float))
  /-- Break a stat down. -/
  | breakdown (stat : Stat Float)
  /-- Break a stat down as a document, and read the document back. -/
  | breakdownDocument (stat : Stat Float)
  /-- Read the path total of a path from the breakdown of a stat. -/
  | breakdownPath (stat : Stat Float) (path : String)
  /-- Read every listed stat. -/
  | listed
  /-- Describe the list and what it has for a stat. -/
  | listing (stat : Stat Float)
  /-- List a stat. -/
  | list (stat : Stat Float)
  /-- Take a stat off the list. -/
  | unlist (stat : Stat Float)
  /-- Remove what is unused. -/
  | prune
  /-- Describe every stat in use. -/
  | stats
  /-- Write down the recorded wiring. -/
  | wiring
  /-- Describe one key of the recorded wiring. -/
  | dependents (key : DependencyKey)
  /-- Hold a node. -/
  | hold (name : String) (node : NodeRef)
  /-- Let go of a node. -/
  | letGo (name : String)
  /-- Ask whether two nodes are one. -/
  | sameNode (a b : NodeRef)
  /-- Describe a node. -/
  | state (node : NodeRef)
  /-- Dispose a node. -/
  | dispose (node : NodeRef)
  /-- Attach a listener to a node. A received announcement is one that is never held back. -/
  | listen (name : String) (node : NodeRef) (received : Bool) (steps : List Step)
  /-- Attach a listener to a listed stat. -/
  | listenListed (name : String) (stat : Stat Float) (steps : List Step)
  /-- Attach a listener to the list. -/
  | listenListing (name : String) (steps : List Step)
  /-- Detach a listener. -/
  | unlisten (name : String)
  /-- Hold a formula node of the session's own. -/
  | formulaNode (name : String) (formula : Formula Float) (path : Path (Stat Float))
  /-- Read a formula node. -/
  | readFormulaNode (name : String)
  /-- Attach a listener to a formula node. -/
  | listenFormulaNode (node name : String) (steps : List Step)
  /-- Dispose a formula node. -/
  | disposeFormulaNode (name : String)
  /-- Count how often a behavior is installed. -/
  | installed (behavior : Behavior Float)
  /-- Write down the settings. -/
  | settings
  /-- Let go of the calculator. -/
  | release
  /-- Let go of the catalog. -/
  | releaseCatalog

/-- What a session with a calculator keeps. -/
structure Desk where
  /-- How the calculator behaves. -/
  settings : Settings
  /-- The modifiers by their names. -/
  modifiers : Named (Modifier Float)
  /-- The nodes that are held. -/
  nodes : Named Nat
  /-- The formula nodes of the session's own. -/
  formulaNodes : Named Nat
  /-- The number of the next modifier. -/
  nextIdentity : Nat

/-- What a listener does: it logs its name and runs steps, whose answers are logged too. -/
structure Action where
  /-- The name. -/
  name : String
  /-- The steps. -/
  steps : List Step

/-- The computations of a session with a calculator. -/
abbrev Task := Work Action Desk

/-- The nodes that the session owns. -/
def held (n : Network Float Action (Logged Desk)) : List Nat :=
  (n.host.desk.nodes ++ n.host.desk.formulaNodes).map (·.2)

/-- Let go of what nothing owns any more. -/
def tidy : Task Unit := do sweep (held (← get))

/-- What a listener logs of an announcement. -/
def line (name : String) : Signal Float → String
  | .listed stat => name ++ " added " ++ stat.text
  | .unlisted stat => name ++ " removed " ++ stat.text
  | _ => name

/-- The host, whose listeners run their steps by `run`. -/
def host (run : Step → Task Json) : Host Float Action (Logged Desk) :=
  { Host.idle with
    notified := fun action signal => do
      let line := line action.name signal
      say line
      for s in action.steps do
        say (line ++ ": " ++ (← run s).sorted.text)
    note := say }

/-- The number of a new modifier. -/
def freshIdentity : Task Nat := do
  let identity := (← desk).nextIdentity
  modifyDesk fun d => { d with nextIdentity := identity + 1 }
  return identity

/-- Make something with the catalog. -/
def withCatalog {α : Type} (make : Catalog.Making Float α) : Task α := do
  let (a, catalog) := make.run (← need (← get).catalog)
  modify fun n => { n with catalog := some catalog }
  return a

/-- A modifier. A new one gets a number, and its name if it has one. -/
def modifier : ModifierRef → Task (Modifier Float)
  | .known name => do need ((← desk).modifiers.get? name)
  | .new name target formula source => do
    let identity ← freshIdentity
    let m ← match target with
      | .stats stats form => pure { stats, form, formula, identity, source }
      | .conversion from_ to_ =>
        withCatalog (Catalog.conversionModifier from_ to_ formula identity source)
      | .gainAs from_ to_ => withCatalog (Catalog.gainModifier from_ to_ formula identity source)
    match name with
    | some name => modifyDesk fun d => { d with modifiers := d.modifiers.put name m }
    | none => pure ()
    return m

/-- A cached node. -/
def node (host : Host Float Action (Logged Desk)) : NodeRef → Task Nat
  | .at stat stage path => Calculator.node host stat stage path
  | .held name => do need ((← desk).nodes.get? name)

/-- The formula node with a name. -/
def formulaNode (name : String) : Task Nat := do need ((← desk).formulaNodes.get? name)

/-- Apply an update. -/
def update (host : Host Float Action (Logged Desk)) (u : Update Float) : Task Unit := do
  Calculator.update host (← desk).settings u

/-- Describe a modifier. -/
def describeModifier (m : Modifier Float) : Json :=
  .object [
    ("stats", Answer.stats m.stats),
    ("form", .string m.form.name),
    ("source", .string m.source.text)]

/-- Describe a cached node. -/
def describeNode (n : Network Float Action (Logged Desk)) (id : Nat) : Task Json := do
  let c ← need (n.cached? id)
  return .array [.string c.label, .bool c.cache.isSome, .nat (n.listenerCount (.received id)),
    .nat (n.listenerCount (.changed id))]

/-- Describe a stat in use. -/
def describeGraph (n : Network Float Action (Logged Desk)) (g : Subgraph Float) : Json :=
  .array [.string g.stat.text, .nat g.nodes.length, .nat g.forms.length, .nat g.modifierCount,
    Answer.paths (n.pathsIn g.paths), .bool (g.nodes.isEmpty && g.forms.isEmpty)]

/-- Describe a formula node, with what reading it resulted in. -/
def describeFormulaNode (id : Nat) (answer : Json) : Task Json := do
  let n ← get
  let f ← need (n.formula? id)
  return .object [
    ("r", answer),
    ("path", .string (PathKey.text f.path.key)),
    ("dependencies", Answer.keys (n.recordedDependencies id))]

/-- Read a stage as other nodes do, and count those who listen to it then. -/
def readOptional (host : Host Float Action (Logged Desk)) (stat : Option (Stat Float))
    (stage : Stage) (path : Path (Stat Float)) : Task Json := do
  match stat with
  | none => return .array [.null, .nat 0]
  | some stat =>
    let entry ← nodesOf host stat stage path
    let outcome ← readNode host entry.exposed
    return .array [Answer.outcome outcome, .nat ((← get).listenerCount (.received entry.cached))]

/-- Describe the collection of a form with its values. -/
def describeForm (host : Host Float Action (Logged Desk)) (stat : Stat Float) (form : Form)
    (path : Path (Stat Float)) : Task Json := do
  let entry ← collectionOf host stat form path
  let values ← (memberValues host entry.collection).run
  let outcome ← readNode host entry.aggregate
  let n ← get
  return .object [
    ("values", Answer.ofExcept Answer.amounts values),
    ("value", Answer.outcome outcome),
    ("subscribers", .nat (n.listenerCount (.changed entry.aggregate))),
    ("members", .nat (n.memberNodes entry.collection).length)]

/-- A breakdown as a document, and whether the document reads back as an equal one. -/
def documentOf (b : Breakdown Float) : Json :=
  let text := b.toJson.prettyText
  let same := match (Json.parse? text).bind Breakdown.ofJson? with
    | some reread => reread.alike b
    | none => false
  .object [("text", .string text), ("same", .bool same)]

/-- Read a listed stat. -/
def readListed (host : Host Float Action (Logged Desk)) (stat : Stat Float) (id : Nat) :
    Task Json := do
  let outcome ← readNode host id
  let n ← get
  let label := match n.body? id with
    | some (.wrapped inner _) => (n.cached? inner).map (·.label)
    | _ => none
  return .array [.string stat.text, Answer.outcome outcome, .optionalString label]

/-- Describe the list and what it has for a stat. -/
def describeListing (n : Network Float Action (Logged Desk)) (stat : Stat Float) : Json :=
  let entries := n.listing.entries
  let listeners := match n.listed? stat with
    | some id => .nat (n.listenerCount (.changed id))
    | none => .null
  .array [.nat entries.length, .bool entries.isEmpty, .bool (n.listed? stat).isSome, listeners]

/-- Describe a key of a wiring. -/
def describeKey (g : DependencyGraph DependencyKey) (key : DependencyKey) : Json :=
  .object [
    ("known", .bool (g.keys.contains key)),
    ("dependents", Answer.keys (g.allDependents key)),
    ("dependencies", Answer.keys (g.dependencies key))]

/-- Carry out a step, those inside it by `run`. -/
def perform (run : Step → Task Json) (s : Step) : Task Json := do
  let host := host run
  match s with
  | .add m =>
    update host (.adding (← modifier m))
    return .null
  | .remove m =>
    update host (.removing (← modifier m))
    return .null
  | .update added removed =>
    let removed ← removed.mapM modifier
    let u : Update Float := ⟨← added.mapM modifier, removed⟩
    update host u
    return .object [("empty", .bool u.isEmpty)]
  | .removeDirectly m => return .bool (← removeModifier host (← modifier m))
  | .sameModifier a b => return .bool ((← modifier a).same (← modifier b))
  | .modifier m => return describeModifier (← modifier m)
  | .batch steps => Network.batch host (answeredAll run steps)
  | .buffering => return .bool (← get).buffer.isBuffering
  | .value stat stage path => return Answer.outcome (← (Calculator.value host stat stage path).run)
  | .read ref => return Answer.outcome (← readNode host (← node host ref))
  | .optional stat stage path => readOptional host stat stage path
  | .form stat form path => describeForm host stat form path
  | .paths stat => return Answer.paths (← Calculator.paths host stat)
  | .hasPath stat path =>
    let paths ← Calculator.paths host stat
    return .array [.bool (path.isIn paths), .bool paths.isEmpty]
  | .breakdown stat =>
    return Answer.ofExcept Answer.breakdown (← (Calculator.breakdown host stat).run)
  | .breakdownDocument stat =>
    return Answer.ofExcept documentOf (← (Calculator.breakdown host stat).run)
  | .breakdownPath stat path =>
    let ofPath (b : Breakdown Float) := Answer.amount ((b.path? path).bind (·.pathTotal))
    return Answer.ofExcept ofPath (← (Calculator.breakdown host stat).run)
  | .listed =>
    let entries := (← get).listing.entries
    return .array (← entries.mapM fun (stat, id) => readListed host stat id)
  | .listing stat => return describeListing (← get) stat
  | .list stat =>
    let total ← Calculator.node host stat .total Path.main
    Network.list host stat total
    return .null
  | .unlist stat => return .bool (← Network.unlist host stat)
  | .prune => return .nat (← removeUnused host)
  | .stats =>
    let n ← get
    return .array ((n.live.filterMap (n.graphs[·]?)).map (describeGraph n))
  | .wiring => return Answer.wiring (← get).wiring
  | .dependents key => return describeKey (← get).wiring key
  | .hold name ref =>
    let id ← node host ref
    modifyDesk fun d => { d with nodes := d.nodes.put name id }
    return .null
  | .letGo name =>
    let known := ((← desk).nodes.get? name).isSome
    modifyDesk fun d => { d with nodes := d.nodes.erase name }
    return .bool known
  | .sameNode a b => return .bool ((← node host a) == (← node host b))
  | .state ref =>
    let id ← node host ref
    describeNode (← get) id
  | .dispose ref =>
    Network.dispose host (← node host ref)
    return .null
  | .listen name ref received steps =>
    let id ← node host ref
    listenAs name (if received then .received id else .changed id) ⟨name, steps⟩
    return .null
  | .listenListed name stat steps =>
    match (← get).listed? stat with
    | none => return .string "not registered"
    | some id =>
      listenAs name (.changed id) ⟨name, steps⟩
      return .null
  | .listenListing name steps =>
    listenAs name .listing ⟨name, steps⟩
    return .null
  | .unlisten name => return .bool (← Session.unlisten name)
  | .formulaNode name formula path =>
    let id ← addFormula formula path
    modifyDesk fun d => { d with formulaNodes := d.formulaNodes.put name id }
    return .null
  | .readFormulaNode name =>
    let id ← formulaNode name
    let outcome ← readNode host id
    describeFormulaNode id (Answer.outcome outcome)
  | .listenFormulaNode ref name steps =>
    let id ← formulaNode ref
    listenAs name (.changed id) ⟨name, steps⟩
    describeFormulaNode id .null
  | .disposeFormulaNode name =>
    let id ← formulaNode name
    Network.dispose host id
    describeFormulaNode id .null
  | .installed behavior => return .nat ((← get).installationCount behavior)
  | .settings => return .string (← desk).settings.toJson.text
  | .release =>
    Network.release (held (← get))
    return .null
  | .releaseCatalog =>
    modify fun n => { n with catalog := none }
    return .null

/-- Carry out a step. The first argument bounds how deeply steps run other steps. -/
def step : Nat → Step → Task Json
  | 0, _ => exhausted
  | fuel + 1, s => do
    tidy
    let answer ← perform (step fuel) s
    tidy
    return answer

/-- The answers of a session. -/
def run (settings : Settings) (catalog : Catalog Float) (steps : List Step) : Option Json :=
  let desk : Desk := ⟨settings, [], [], [], 0⟩
  (answeredAll (step depth) steps (Calculator.start settings (some catalog) ⟨[], [], desk⟩)).map (·.1)

end StatEngine.Session.Calculation
