import StatEngine.Json

/-!
# Records and variants in JSON

A record is written as an object with its fields in a fixed order. It is read from an object with its
fields in any order, or from a list of its fields in their order. A variant is written as its name, or
as an object of one field if it has a content; a name alone stands for a variant whose content is null.
-/

namespace StatEngine.Json

/-- How strictly a record is read. -/
structure RecordRule where
  /-- Whether an object may have fields with other names. -/
  allowsOthers : Bool
  /-- Whether a list may end early. -/
  allowsShort : Bool

/-- Other fields are ignored, and a list has every field. -/
def RecordRule.lenient : RecordRule := ⟨true, false⟩

/-- Other fields are refused, and a list may end early. -/
def RecordRule.closed : RecordRule := ⟨false, true⟩

/-- What a record has under a name: the outer `none` refuses repeated fields. -/
def uniqueField (fields : List (String × Json)) (name : String) : Option (Option Json) :=
  match fields.filter (·.1 == name) with
  | [] => some none
  | [(_, item)] => some (some item)
  | _ => none

/-- What a record has for each of the given names. -/
def record? (rule : RecordRule) (names : List String) : Json → Option (List (Option Json))
  | .array items =>
    if items.length = names.length || (rule.allowsShort && items.length < names.length) then
      some (items.map some ++ List.replicate (names.length - items.length) none)
    else none
  | .object fields =>
    if rule.allowsOthers || fields.all fun f => names.contains f.1 then
      names.mapM (uniqueField fields)
    else none
  | _ => none

/-- The content of a field that may be missing or null. -/
def optional {α : Type} (read? : Json → Option α) : Option Json → Option (Option α)
  | none | some .null => some none
  | some j => (read? j).map some

/-- The document of a value that may be missing. -/
def ofOption {α : Type} (write : α → Json) : Option α → Json
  | some a => write a
  | none => .null

/-- The name of a variant and its content. -/
def variant? : Json → Option (String × Json)
  | .string name => some (name, .null)
  | .object [(name, content)] => some (name, content)
  | _ => none

/-- The document of a variant with a content. -/
def ofVariant (name : String) (content : Json) : Json := .object [(name, content)]

/-- One of several variants without a content. -/
def choice? {α : Type} (all : List α) (name : α → String) (j : Json) : Option α := do
  let (written, content) ← variant? j
  if content.isNull then all.find? (name · == written) else none

end StatEngine.Json
