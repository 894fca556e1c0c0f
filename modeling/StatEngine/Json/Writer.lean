import StatEngine.Json

/-!
# Writing JSON

A document is written in the compact form, without blanks, or in the indented form with two blanks a
level. Both are lists of characters, so that laws about reading them back need nothing but lists.
-/

namespace StatEngine.Json

/-- The hexadecimal digit of a number below sixteen, in lower case. -/
def hexDigit (n : Nat) : Char := if n < 10 then Char.ofNat (48 + n) else Char.ofNat (87 + n)

/-- A character inside a string literal: quotes, backslashes and control characters are escaped. -/
def escape (c : Char) : List Char :=
  if c = '"' then ['\\', '"']
  else if c = '\\' then ['\\', '\\']
  else if c = '\n' then ['\\', 'n']
  else if c = '\r' then ['\\', 'r']
  else if c = '\t' then ['\\', 't']
  else if c = Char.ofNat 8 then ['\\', 'b']
  else if c = Char.ofNat 12 then ['\\', 'f']
  else if c.toNat < 32 then
    ['\\', 'u', '0', '0', hexDigit (c.toNat / 16), hexDigit (c.toNat % 16)]
  else [c]

/-- A string literal. -/
def quoted (text : String) : List Char := '"' :: text.toList.flatMap escape ++ ['"']

mutual

/-- The compact form of a document. -/
def compact : Json → List Char
  | .null => "null".toList
  | .bool b => (if b then "true" else "false").toList
  | .number written => written.toList
  | .string text => quoted text
  | .unpaired => quoted ""
  | .array items => '[' :: compactItems items ++ [']']
  | .object fields => '{' :: compactFields fields ++ ['}']

/-- Documents separated by commas. -/
def compactItems : List Json → List Char
  | [] => []
  | [item] => compact item
  | item :: rest => compact item ++ ',' :: compactItems rest

/-- Fields separated by commas. -/
def compactFields : List (String × Json) → List Char
  | [] => []
  | [(name, item)] => quoted name ++ ':' :: compact item
  | (name, item) :: rest => quoted name ++ ':' :: compact item ++ ',' :: compactFields rest

end

/-- A new line indented by a level. -/
def newline (level : Nat) : List Char := '\n' :: List.replicate (2 * level) ' '

mutual

/-- The indented form of a document that stands at a level. -/
def indented (level : Nat) : Json → List Char
  | .array [] => ['[', ']']
  | .object [] => ['{', '}']
  | .array items => '[' :: indentedItems (level + 1) items ++ newline level ++ [']']
  | .object fields => '{' :: indentedFields (level + 1) fields ++ newline level ++ ['}']
  | .null => "null".toList
  | .bool b => (if b then "true" else "false").toList
  | .number written => written.toList
  | .string text => quoted text
  | .unpaired => quoted ""

/-- Documents on lines of their own. -/
def indentedItems (level : Nat) : List Json → List Char
  | [] => []
  | [item] => newline level ++ indented level item
  | item :: rest => newline level ++ indented level item ++ ',' :: indentedItems level rest

/-- Fields on lines of their own. -/
def indentedFields (level : Nat) : List (String × Json) → List Char
  | [] => []
  | [(name, item)] => newline level ++ quoted name ++ ':' :: ' ' :: indented level item
  | (name, item) :: rest =>
    newline level ++ quoted name ++ ':' :: ' ' :: indented level item
      ++ ',' :: indentedFields level rest

end

/-- The compact text of a document. -/
def text (j : Json) : String := String.ofList j.compact

/-- The indented text of a document. -/
def prettyText (j : Json) : String := String.ofList (j.indented 0)

mutual

/-- A document with the fields of every object sorted by name. -/
def sorted : Json → Json
  | .array items => .array (sortedItems items)
  | .object fields => .object ((sortedFields fields).mergeSort fun a b => decide (a.1 ≤ b.1))
  | j => j

/-- Every item sorted. -/
def sortedItems : List Json → List Json
  | [] => []
  | item :: rest => sorted item :: sortedItems rest

/-- The document of every field sorted. -/
def sortedFields : List (String × Json) → List (String × Json)
  | [] => []
  | (name, item) :: rest => (name, sorted item) :: sortedFields rest

end

end StatEngine.Json
