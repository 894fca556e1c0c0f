import StatEngine.Entity
import StatEngine.Json.Record
import StatEngine.Json.Double

/-!
# Documents of identities

How the names of things are exchanged: entities, stages, forms and the enumerations of the game by
their written names, keys of stats and labeled sources as records, and sources as nested variants.
Reading (`ofJson?`) takes back what writing (`toJson`) produces, and the further spellings that records
and variants allow.
-/

namespace StatEngine


namespace Entity

/-- The document of an entity. -/
def toJson (e : Entity) : Json := .string e.name

/-- The entity of a document. -/
def ofJson? : Json → Option Entity := Json.choice? all name

end Entity

namespace Stage

/-- The document of a stage. -/
def toJson (s : Stage) : Json := .string s.name

/-- The stage of a document. -/
def ofJson? : Json → Option Stage := Json.choice? all name

end Stage

namespace Form

/-- The document of a form. -/
def toJson (f : Form) : Json := .string f.name

/-- The form of a document. -/
def ofJson? : Json → Option Form := Json.choice? all name

end Form

namespace Slot

/-- The document of a slot. -/
def toJson (s : Slot) : Json := .string s.name

/-- The slot of a document. -/
def ofJson? : Json → Option Slot := Json.choice? all name

end Slot

namespace ValueType

/-- The document of a kind of number. -/
def toJson (t : ValueType) : Json := .string t.name

/-- The kind of number of a document. -/
def ofJson? : Json → Option ValueType := Json.choice? all name

end ValueType

namespace Pool

/-- The document of a pool. -/
def toJson (p : Pool) : Json := .string p.name

/-- The pool of a document. -/
def ofJson? : Json → Option Pool := Json.choice? all name

end Pool

namespace DamageType

/-- The document of a damage type. -/
def toJson (d : DamageType) : Json := .string d.name

/-- The damage type of a document. -/
def ofJson? : Json → Option DamageType := Json.choice? all name

end DamageType

namespace Ailment

/-- The document of an ailment. -/
def toJson (a : Ailment) : Json := .string a.name

/-- The ailment of a document. -/
def ofJson? : Json → Option Ailment := Json.choice? all name

end Ailment

namespace StatKey

/-- The document of a key. -/
def toJson (k : StatKey) : Json := .object [("id", .string k.id), ("entity", k.entity.toJson)]

/-- The key of a document. -/
def ofJson? (j : Json) : Option StatKey := do
  match ← j.record? .lenient ["id", "entity"] with
  | [some id, some entity] => return ⟨← id.string?, ← Entity.ofJson? entity⟩
  | _ => none

end StatKey

namespace LocalSource

/-- The document of a gem. -/
def gemJson (slot : Slot) (socket : UInt32) : Json :=
  .object [("slot", slot.toJson), ("socket_index", .nat socket.toNat)]

/-- The document of a particular source. -/
def toJson : LocalSource → Json
  | given => .string "Given"
  | passiveNode id => .ofVariant "PassiveNode" (.nat id.toNat)
  | item slot => .ofVariant "Item" slot.toJson
  | skill id => .ofVariant "Skill" (.string id)
  | gem slot socket => .ofVariant "Gem" (gemJson slot socket)
  | userSpecified => .string "UserSpecified"

/-- The gem of a document. -/
def gemOfJson? (j : Json) : Option LocalSource := do
  match ← j.record? .lenient ["slot", "socket_index"] with
  | [some slot, some socket] =>
    return gem (← Slot.ofJson? slot) (.ofNat (← socket.natBelow? UInt32.size))
  | _ => none

/-- The particular source of a document. -/
def ofJson? (j : Json) : Option LocalSource := do
  match ← j.variant? with
  | ("Given", content) => if content.isNull then some given else none
  | ("PassiveNode", content) => return passiveNode (.ofNat (← content.natBelow? UInt16.size))
  | ("Item", content) => return item (← Slot.ofJson? content)
  | ("Skill", content) => return skill (← content.string?)
  | ("Gem", content) => gemOfJson? content
  | ("UserSpecified", content) => if content.isNull then some userSpecified else none
  | _ => none

end LocalSource

namespace Source

/-- The document of a source. -/
def toJson : Source → Json
  | global => .string "Global"
  | particular source => .ofVariant "Local" source.toJson
  | ailment => .string "Ailment"

/-- The source of a document. -/
def ofJson? (j : Json) : Option Source := do
  match ← j.variant? with
  | ("Global", content) => if content.isNull then some global else none
  | ("Local", content) => return particular (← LocalSource.ofJson? content)
  | ("Ailment", content) => if content.isNull then some ailment else none
  | _ => none

end Source

namespace LabeledSource

/-- The document of a labeled source. -/
def toJson (s : LabeledSource) : Json :=
  .object [("canonical", s.source.toJson), ("name", .string s.label)]

/-- The labeled source of a document. -/
def ofJson? (j : Json) : Option LabeledSource := do
  match ← j.record? .lenient ["canonical", "name"] with
  | [some source, some label] => return ⟨← Source.ofJson? source, ← label.string?⟩
  | _ => none

end LabeledSource

end StatEngine
