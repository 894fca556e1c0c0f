/-!
# JSON documents

The documents that configurations, identities and reports are exchanged in. A number keeps its
written form, because whole numbers and doubles are read from it by different rules. Fields of an
object keep their order and may repeat; what a repetition means is up to the reader of the object.
-/

namespace StatEngine

/-- A JSON document. -/
inductive Json where
  /-- The null document. -/
  | null
  /-- A truth value. -/
  | bool (b : Bool)
  /-- A number in its written form. -/
  | number (written : String)
  /-- A text. -/
  | string (text : String)
  /-- A string literal that is well formed but stands for no text, because an escape in it names
  half of a surrogate pair, or an object with such a name. -/
  | unpaired
  /-- A list of documents. -/
  | array (items : List Json)
  /-- Named documents in their order. -/
  | object (fields : List (String × Json))

namespace Json

/-- The document of a natural number. -/
def nat (n : Nat) : Json := .number (Nat.repr n)

/-- The document of an optional text, null without one. -/
def optionalString : Option String → Json
  | some s => .string s
  | none => .null

/-- The list of texts. -/
def strings (texts : List String) : Json := .array (texts.map .string)

/-- The items of a list. -/
def items? : Json → Option (List Json)
  | .array items => some items
  | _ => none

/-- The characters of a text. -/
def string? : Json → Option String
  | .string text => some text
  | _ => none

/-- A truth value. -/
def bool? : Json → Option Bool
  | .bool b => some b
  | _ => none

/-- Whether a document is null. -/
def isNull : Json → Bool
  | .null => true
  | _ => false

/-- The field `name` of an object, the last one if it repeats. -/
def field? (name : String) : Json → Option Json
  | .object fields => (fields.reverse.find? (·.1 == name)).map (·.2)
  | _ => none

end Json

end StatEngine
