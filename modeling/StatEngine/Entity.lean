import StatEngine.Stage
import StatEngine.Path

/-!
# Entities, keys of stats, and the enumerations of the game

A `StatKey` is the identity of a stat: its written identity and the entity that has it. Nodes and
everything a computation can depend on are named by keys built on it, `NodeKey` and `DependencyKey`.

Pools, damage types and ailments double as values of stats: a member stands for its position, and a
number selects the member at the nearest position.
-/

namespace StatEngine

/-- Who has a stat. -/
inductive Entity where
  | character
  | enemy
  | totem
  | minion
  deriving DecidableEq, Repr, Ord

namespace Entity

/-- Every entity, in order. -/
def all : List Entity := [.character, .enemy, .totem, .minion]

/-- The written name of an entity. -/
def name : Entity → String
  | character => "Character"
  | enemy => "Enemy"
  | totem => "Totem"
  | minion => "Minion"

end Entity

/-- The kind of number a stat holds. -/
inductive ValueType where
  | double
  | integer
  | boolean
  deriving DecidableEq, Repr

namespace ValueType

/-- Every kind, in order. -/
def all : List ValueType := [.double, .integer, .boolean]

/-- The written name of a kind. -/
def name : ValueType → String
  | double => "Double"
  | integer => "Integer"
  | boolean => "Boolean"

end ValueType

/-- A resource that regenerates. -/
inductive Pool where
  | life
  | mana
  | energyShield
  deriving DecidableEq, Repr

namespace Pool

/-- Every pool, in the order of their positions. -/
def all : List Pool := [.life, .mana, .energyShield]

/-- The written name of a pool. -/
def name : Pool → String
  | life => "Life"
  | mana => "Mana"
  | energyShield => "EnergyShield"

end Pool

/-- A type of damage. -/
inductive DamageType where
  | physical
  | lightning
  | cold
  | fire
  | chaos
  deriving DecidableEq, Repr

namespace DamageType

/-- Every damage type, in the order of their positions. -/
def all : List DamageType := [.physical, .lightning, .cold, .fire, .chaos]

/-- The written name of a damage type. -/
def name : DamageType → String
  | physical => "Physical"
  | lightning => "Lightning"
  | cold => "Cold"
  | fire => "Fire"
  | chaos => "Chaos"

end DamageType

/-- An ailment that deals damage. -/
inductive Ailment where
  | ignite
  | bleed
  | poison
  deriving DecidableEq, Repr

namespace Ailment

/-- Every ailment, in the order of their positions. -/
def all : List Ailment := [.ignite, .bleed, .poison]

/-- The written name of an ailment. -/
def name : Ailment → String
  | ignite => "Ignite"
  | bleed => "Bleed"
  | poison => "Poison"

end Ailment

/-- The identity of a stat. -/
structure StatKey where
  /-- The written identity. -/
  id : String
  /-- Who has the stat. -/
  entity : Entity
  deriving DecidableEq, Repr, Ord

namespace StatKey

/-- The text of a key: stats of the character go without their entity. -/
def text (k : StatKey) : String :=
  match k.entity with
  | .character => k.id
  | entity => entity.name ++ "." ++ k.id

/-- The identity of a stat derived from this one. -/
def child (k : StatKey) (suffix : String) : StatKey := ⟨k.id ++ "." ++ suffix, k.entity⟩

end StatKey

/-- A path as an identity: its stats are named by their keys. -/
abbrev PathKey := Path StatKey

/-- The text of a path. -/
def PathKey.text (p : PathKey) : String := Path.text StatKey.text p

/-- The identity of a node: a stage of a stat on a path. -/
structure NodeKey where
  /-- The stat. -/
  stat : StatKey
  /-- The stage of the computation. -/
  stage : Stage
  /-- The path. -/
  path : PathKey
  deriving DecidableEq, Repr

/-- The text of a key that may be followed by a path other than the main one. -/
def suffixPath (text : String) (path : PathKey) : String :=
  if path.isMain then text else text ++ " (" ++ PathKey.text path ++ ")"

/-- The text of a node key, which is also the label of the node. -/
def NodeKey.text (k : NodeKey) : String :=
  suffixPath (k.stat.text ++ " " ++ k.stage.name) k.path

/-- What a computation can depend on. -/
inductive DependencyKey where
  /-- The value of a node. -/
  | node (key : NodeKey)
  /-- The modifiers of a form on a path of a stat. -/
  | form (stat : StatKey) (form : Form) (path : PathKey)
  /-- The paths of a stat. -/
  | paths (stat : StatKey)
  deriving DecidableEq, Repr

/-- The text of a dependency key. -/
def DependencyKey.text : DependencyKey → String
  | .node key => key.text
  | .form stat kind path => suffixPath (stat.text ++ " " ++ kind.name ++ " modifiers") path
  | .paths stat => stat.text ++ " paths"

end StatEngine
