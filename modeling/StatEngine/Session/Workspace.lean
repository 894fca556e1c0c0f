import StatEngine.Catalog
import StatEngine.Session.Log

/-!
# Workspaces

The stats and behaviors that a session defines by names before it starts, and the catalog of the meta
stats among them. A name without a definition stands for a plain stat of the character.
-/

namespace StatEngine.Session

/-- What is defined by names. -/
structure Workspace where
  /-- The stats. -/
  stats : Named (Stat Float)
  /-- The behaviors. -/
  behaviors : Named (Behavior Float)
  /-- The meta stats made so far. -/
  catalog : Catalog Float
  /-- The number of the next transformation. -/
  nextIdentity : Nat

namespace Workspace

/-- Nothing is defined. -/
def empty : Workspace := ⟨[], [], .empty, 0⟩

/-- The stat that a name stands for. -/
def stat (w : Workspace) (name : String) : Stat Float :=
  (w.stats.get? name).getD (Stat.plain ⟨name, .character⟩)

/-- Define a stat. -/
def defineStat (w : Workspace) (name : String) (s : Stat Float) : Workspace :=
  { w with stats := w.stats.put name s }

/-- Define a name for a meta stat. -/
def defineMeta (w : Workspace) (name : String) (request : MetaStat Float) : Workspace :=
  let (s, catalog) := (Catalog.get request).run w.catalog
  { w with stats := w.stats.put name s, catalog }

/-- Define a behavior. -/
def defineBehavior (w : Workspace) (name : String) (b : Behavior Float) : Workspace :=
  { w with behaviors := w.behaviors.put name b }

/-- A transformation with a number of its own. -/
def transformation (w : Workspace) (effect : Effect Float) : Transformation Float × Workspace :=
  (⟨.numbered w.nextIdentity, effect⟩, { w with nextIdentity := w.nextIdentity + 1 })

/-- Numbers for behaviors: the same behavior has the same number, in order of first appearance. The
result has the numbers and the distinct behaviors. -/
def number (known : List (Behavior Float)) :
    List (Behavior Float) → List (Nat × Behavior Float) × List (Behavior Float)
  | [] => ([], known)
  | b :: rest =>
    match known.findIdx? (·.same b) with
    | some i =>
      let (numbered, known) := number known rest
      ((i, b) :: numbered, known)
    | none =>
      let (numbered, all) := number (known ++ [b]) rest
      ((known.length, b) :: numbered, all)

/-- A numbered behavior. -/
def describeBehavior (i : Nat) (b : Behavior Float) : Json :=
  .array [.nat i, .strings (b.stats.map StatKey.text), .strings (b.stages.map Stage.name),
    .string b.rule.text]

/-- A stat with its numbered behaviors. -/
def describeStat (s : Stat Float) (behaviors : List (Nat × Behavior Float)) : Json :=
  .object [
    ("display", .string s.text),
    ("id", .string s.key.id),
    ("child", .string (s.key.child "Sub").id),
    ("entity", .string s.key.entity.name),
    ("min", .optionalString (s.minimum.map Stat.text)),
    ("max", .optionalString (s.maximum.map Stat.text)),
    ("value_type", .string s.valueType.name),
    ("explicit", .bool s.listed),
    ("behaviors", .array (behaviors.map fun (i, b) => describeBehavior i b))]

/-- Describe stats with behaviors that are numbered from the known ones on. -/
def describeStats (known : List (Behavior Float)) :
    List (Stat Float) → List Json × List (Behavior Float)
  | [] => ([], known)
  | s :: rest =>
    let (behaviors, known) := number known s.behaviors
    let (others, known) := describeStats known rest
    (describeStat s behaviors :: others, known)

/-- Describe stats, and count what is distinct among them and what the catalog made. -/
def describe (w : Workspace) (stats : List (Stat Float)) : Json :=
  let (described, behaviors) := describeStats [] stats
  .object [
    ("stats", .array described),
    ("distinct", .nat (stats.map Stat.key).eraseDups.length),
    ("distinct_behaviors", .nat behaviors.length),
    ("created", .nat w.catalog.stats.length)]

end Workspace

end StatEngine.Session
