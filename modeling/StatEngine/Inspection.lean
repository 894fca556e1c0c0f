import StatEngine.Modifier

/-!
# Inspection

Texts that show how things are made up, for diagnosis: the name of the kind, and the parts in braces
or parentheses.
-/

namespace StatEngine.Inspection

/-- The hexadecimal digits of a number, without leading zeros. -/
def hexText (n : Nat) : String := String.ofList (Nat.toDigits 16 n)

/-- A character inside quotes. -/
def escape (c : Char) : String :=
  if c = '"' then "\\\""
  else if c = '\\' then "\\\\"
  else if c = '\n' then "\\n"
  else if c = '\r' then "\\r"
  else if c = '\t' then "\\t"
  else if c.toNat = 0 then "\\0"
  else if c.toNat < 32 || c.toNat = 127 then "\\u\x7b" ++ hexText c.toNat ++ "\x7d"
  else c.toString

/-- A text in quotes. -/
def quoted (text : String) : String := "\"" ++ String.join (text.toList.map escape) ++ "\""

/-- A list. -/
def list (items : List String) : String := "[" ++ ", ".intercalate items ++ "]"

/-- A kind with one part. -/
def wrapped (kind part : String) : String := kind ++ "(" ++ part ++ ")"

/-- A kind with named parts. -/
def parts (kind : String) (fields : List (String × String)) : String :=
  kind ++ " \x7b " ++ ", ".intercalate (fields.map fun (name, text) => name ++ ": " ++ text) ++ " \x7d"

/-- The parts of a key. -/
def keyParts (k : StatKey) : List (String × String) :=
  [("id", wrapped "StatId" (quoted k.id)), ("entity", k.entity.name)]

/-- A key. -/
def key (k : StatKey) : String := parts "StatKey" (keyParts k)

/-- A stat, by its key alone. -/
def stat {N : Type} (s : Stat N) : String := parts "Stat" (keyParts s.key)

/-- A particular source. -/
def localSource : LocalSource → String
  | .given => "Given"
  | .passiveNode id => wrapped "PassiveNode" (Nat.repr id.toNat)
  | .item slot => wrapped "Item" slot.name
  | .skill id => wrapped "Skill" (quoted id)
  | .gem slot socket => parts "Gem" [("slot", slot.name), ("socket_index", Nat.repr socket.toNat)]
  | .userSpecified => "UserSpecified"

/-- A source. -/
def source : Source → String
  | .global => "Global"
  | .particular s => wrapped "Local" (localSource s)
  | .ailment => "Ailment"

/-- A labeled source. -/
def labeledSource (s : LabeledSource) : String :=
  parts "DetailedSource" [("canonical", source s.source), ("name", quoted s.label)]

/-- A path rule. -/
def rule : PathRule → String
  | .conversionFrom k => wrapped "ConversionFrom" (key k)
  | r => r.text

/-- A behavior, without its transformation. -/
def behavior {N : Type} (b : Behavior N) : String :=
  parts "Behavior" [
    ("affected_stats", list (b.stats.map key)),
    ("affected_node_types", list (b.stages.map Stage.name)),
    ("path_rule", rule b.rule)]

/-- A modifier, without its formula. -/
def modifier {N : Type} (m : Modifier N) : String :=
  parts "Modifier" [
    ("stats", list (m.stats.map stat)),
    ("form", m.form.name),
    ("source", labeledSource m.source)]

/-- A formula that is known by a description. -/
def describedFormula (description : String) : String :=
  wrapped "FunctionalValue" (quoted description)

end StatEngine.Inspection
