/-!
# Sources of modifiers

A `Source` says where a modifier comes from. It takes part in the calculation: modifiers of a
particular source apply to the values of that source alone, global ones to all. A `LabeledSource`
adds a label for display, which no comparison looks at.
-/

namespace StatEngine

/-- The places of a character that hold items. -/
inductive Slot where
  | mainHand
  | offHand
  | helm
  | bodyArmour
  | gloves
  | boots
  | amulet
  | ring
  | ring2
  | belt
  deriving DecidableEq, Repr, Ord

namespace Slot

/-- Every slot, in order. -/
def all : List Slot :=
  [.mainHand, .offHand, .helm, .bodyArmour, .gloves, .boots, .amulet, .ring, .ring2, .belt]

/-- The written name of a slot. -/
def name : Slot → String
  | mainHand => "MainHand"
  | offHand => "OffHand"
  | helm => "Helm"
  | bodyArmour => "BodyArmour"
  | gloves => "Gloves"
  | boots => "Boots"
  | amulet => "Amulet"
  | ring => "Ring"
  | ring2 => "Ring2"
  | belt => "Belt"

end Slot

/-- The particular sources. -/
inductive LocalSource where
  /-- What every character has. -/
  | given
  /-- A node of the passive tree, by its number. -/
  | passiveNode (id : UInt16)
  /-- The item in a slot. -/
  | item (slot : Slot)
  /-- A skill, by its identity. -/
  | skill (id : String)
  /-- A gem in a socket of an item. -/
  | gem (slot : Slot) (socket : UInt32)
  /-- What the user entered. -/
  | userSpecified
  deriving DecidableEq, Repr, Ord

/-- Where a modifier comes from. -/
inductive Source where
  /-- It applies everywhere. -/
  | global
  /-- It applies to the values of one particular source. -/
  | particular (source : LocalSource)
  /-- It belongs to an ailment. -/
  | ailment
  deriving DecidableEq, Repr, Ord

namespace Source

/-- Whether a source is the global one. -/
def isGlobal : Source → Bool
  | global => true
  | _ => false

/-- Whether a source is a skill. -/
def isSkill : Source → Bool
  | particular (.skill _) => true
  | _ => false

/-- The sources whose increases apply to a base value of this source, this source first. -/
def influencing : Source → List Source
  | global => [global]
  | s => [s, global]

/-- The text of a source. -/
def text : Source → String
  | global => "Global"
  | ailment => "Ailment"
  | particular .given => "Given"
  | particular (.passiveNode id) => "PassiveNode(" ++ Nat.repr id.toNat ++ ")"
  | particular (.item slot) => slot.name
  | particular (.skill id) => "Skill(" ++ id ++ ")"
  | particular (.gem slot socket) =>
    "Gem(" ++ slot.name ++ ", " ++ Nat.repr socket.toNat ++ ")"
  | particular .userSpecified => "UserSpecified"

end Source

/-- A source with a label for display, such as the name of the item. -/
structure LabeledSource where
  /-- What takes part in the calculation. -/
  source : Source
  /-- What is shown; it may be empty. -/
  label : String
  deriving Repr

namespace LabeledSource

/-- Two labeled sources are alike if their sources are equal. -/
def alike (a b : LabeledSource) : Bool := a.source == b.source

/-- The text of a labeled source: the label follows a colon, if there is one. -/
def text (s : LabeledSource) : String :=
  if s.label.isEmpty then s.source.text else s.source.text ++ ": " ++ s.label

end LabeledSource

end StatEngine
