import StatEngine.Json

/-!
# Reading JSON

A reader for the standard grammar: blanks are the four the standard names, strings hold no bare
control character, a number has no leading zeros and digits on both sides of its point. A text is one
document with nothing but blanks around it.

The readers work on lists of characters and return what is left. Nesting is bounded by a count that
`Json.parse?` takes from the length of the text, which no nesting can exceed.
-/

namespace StatEngine.Json

/-- The characters that may stand between two tokens. -/
def isBlank (c : Char) : Bool := c = ' ' || c = '\n' || c = '\t' || c = '\r'

/-- Leave out leading blanks. -/
def skipBlanks (s : List Char) : List Char := s.dropWhile isBlank

/-- The value of a hexadecimal digit of either case. -/
def hexValue? (c : Char) : Option Nat :=
  if '0' ≤ c && c ≤ '9' then some (c.toNat - 48)
  else if 'a' ≤ c && c ≤ 'f' then some (c.toNat - 87)
  else if 'A' ≤ c && c ≤ 'F' then some (c.toNat - 55)
  else none

/-- The number written by four hexadecimal digits. -/
def hex4? (a b c d : Char) : Option Nat := do
  return (((← hexValue? a) * 16 + (← hexValue? b)) * 16 + (← hexValue? c)) * 16 + (← hexValue? d)

/-- The first half of a surrogate pair. -/
def isHighSurrogate (n : Nat) : Bool := 0xD800 ≤ n && n < 0xDC00

/-- The second half of a surrogate pair. -/
def isLowSurrogate (n : Nat) : Bool := 0xDC00 ≤ n && n < 0xE000

/-- The character of a surrogate pair. -/
def pairedChar (high low : Nat) : Char :=
  Char.ofNat (0x10000 + (high - 0xD800) * 0x400 + (low - 0xDC00))

/-- The character a one-letter escape stands for. -/
def shortEscape? (c : Char) : Option Char :=
  if c = '"' || c = '\\' || c = '/' then some c
  else if c = 'n' then some '\n'
  else if c = 't' then some '\t'
  else if c = 'r' then some '\r'
  else if c = 'b' then some (Char.ofNat 8)
  else if c = 'f' then some (Char.ofNat 12)
  else none

/-- The escape of a second half of a surrogate pair at the start of a text, and what follows it. -/
def lowSurrogate? : List Char → Option (Nat × List Char)
  | '\\' :: 'u' :: a :: b :: c :: d :: rest =>
    match hex4? a b c d with
    | some low => if isLowSurrogate low then some (low, rest) else none
    | none => none
  | _ => none

/-- What follows an escape is shorter than what starts with it. -/
theorem length_of_lowSurrogate? {s rest : List Char} {low : Nat}
    (h : lowSurrogate? s = some (low, rest)) : rest.length < s.length := by
  unfold lowSurrogate? at h
  split at h
  · split at h
    · split at h
      · simp only [Option.some.injEq, Prod.mk.injEq] at h
        simp only [← h.2, List.length_cons]
        omega
      · simp at h
    · simp at h
  · simp at h

/-- The inside of a string literal, and what follows its closing quote. The characters are `none` if
a surrogate stands unpaired. -/
def stringBody : List Char → Option (Option (List Char) × List Char)
  | [] => none
  | '"' :: rest => some (some [], rest)
  | '\\' :: 'u' :: a :: b :: c :: d :: rest =>
    match hex4? a b c d with
    | none => none
    | some n =>
      if isHighSurrogate n then
        match h : lowSurrogate? rest with
        | some (low, rest') =>
          have := length_of_lowSurrogate? h
          (stringBody rest').map fun (text, rest) => (text.map (pairedChar n low :: ·), rest)
        | none => (stringBody rest).map fun (_, rest) => (none, rest)
      else
        (stringBody rest).map fun (text, rest) =>
          (if isLowSurrogate n then none else text.map (Char.ofNat n :: ·), rest)
  | '\\' :: c :: rest =>
    match shortEscape? c with
    | none => none
    | some c => (stringBody rest).map fun (text, rest) => (text.map (c :: ·), rest)
  | c :: rest =>
    if c.toNat < 32 then none
    else (stringBody rest).map fun (text, rest) => (text.map (c :: ·), rest)
termination_by s => s.length
decreasing_by all_goals simp_all only [List.length_cons]; omega

/-- The digits at the start of a text, and what follows them. -/
def digits (s : List Char) : List Char × List Char := (s.takeWhile Char.isDigit, s.dropWhile Char.isDigit)

/-- The whole part of a number: a zero, or digits that start with another one. -/
def wholePart? (s : List Char) : Option (List Char × List Char) :=
  match digits s with
  | ([], _) => none
  | ('0' :: _ :: _, _) => none
  | (whole, rest) => some (whole, rest)

/-- The fraction of a number with its point, empty without one. -/
def fractionPart? : List Char → Option (List Char × List Char)
  | '.' :: s =>
    match digits s with
    | ([], _) => none
    | (fraction, rest) => some ('.' :: fraction, rest)
  | s => some ([], s)

/-- The sign of an exponent. -/
def exponentSign : List Char → List Char × List Char
  | '+' :: s => (['+'], s)
  | '-' :: s => (['-'], s)
  | s => ([], s)

/-- The exponent of a number with its mark, empty without one. -/
def exponentPart? : List Char → Option (List Char × List Char)
  | c :: s =>
    if c = 'e' || c = 'E' then
      let (sign, s) := exponentSign s
      match digits s with
      | ([], _) => none
      | (exponent, rest) => some (c :: sign ++ exponent, rest)
    else some ([], c :: s)
  | [] => some ([], [])

/-- A number in its written form, and what follows it. -/
def number? (s : List Char) : Option (List Char × List Char) := do
  let (sign, s) := match s with
    | '-' :: s => (['-'], s)
    | s => ([], s)
  let (whole, s) ← wholePart? s
  let (fraction, s) ← fractionPart? s
  let (exponent, s) ← exponentPart? s
  return (sign ++ whole ++ fraction ++ exponent, s)

/-- The rest of a text that starts with the given word. -/
def expect? : List Char → List Char → Option (List Char)
  | [], s => some s
  | w :: word, c :: s => if w = c then expect? word s else none
  | _ :: _, [] => none

/-- The name of a field and what follows it. The name is `none` if its literal stands for no text. -/
def fieldName? : List Char → Option (Option String × List Char)
  | '"' :: s => (stringBody s).map fun (name, rest) => (name.map String.ofList, rest)
  | _ => none

/-- An object, if all its names stand for texts. -/
def objectOf (fields : List (Option String × Json)) : Json :=
  match fields.mapM fun (name, item) => name.map (·, item) with
  | some fields => .object fields
  | none => .unpaired

mutual

/-- One document after leading blanks, and what follows it. -/
def readValue? : Nat → List Char → Option (Json × List Char)
  | 0, _ => none
  | depth + 1, s =>
    match skipBlanks s with
    | 'n' :: s => (expect? "ull".toList s).map fun rest => (.null, rest)
    | 't' :: s => (expect? "rue".toList s).map fun rest => (.bool true, rest)
    | 'f' :: s => (expect? "alse".toList s).map fun rest => (.bool false, rest)
    | '"' :: s =>
      (stringBody s).map fun (text, rest) =>
        (match text with
          | some text => .string (String.ofList text)
          | none => .unpaired, rest)
    | '[' :: s =>
      match skipBlanks s with
      | ']' :: rest => some (.array [], rest)
      | s => (readItems? depth s).map fun (items, rest) => (.array items, rest)
    | '{' :: s =>
      match skipBlanks s with
      | '}' :: rest => some (.object [], rest)
      | s => (readFields? depth s).map fun (fields, rest) => (objectOf fields, rest)
    | s => (number? s).map fun (written, rest) => (.number (String.ofList written), rest)

/-- The documents of a list up to its closing bracket, at least one. -/
def readItems? : Nat → List Char → Option (List Json × List Char)
  | 0, _ => none
  | depth + 1, s =>
    match readValue? depth s with
    | none => none
    | some (item, s) =>
      match skipBlanks s with
      | ']' :: rest => some ([item], rest)
      | ',' :: s => (readItems? depth s).map fun (items, rest) => (item :: items, rest)
      | _ => none

/-- The fields of an object up to its closing brace, at least one. -/
def readFields? : Nat → List Char → Option (List (Option String × Json) × List Char)
  | 0, _ => none
  | depth + 1, s =>
    match fieldName? (skipBlanks s) with
    | none => none
    | some (name, s) =>
      match skipBlanks s with
      | ':' :: s =>
        match readValue? depth s with
        | none => none
        | some (item, s) =>
          match skipBlanks s with
          | '}' :: rest => some ([(name, item)], rest)
          | ',' :: s => (readFields? depth s).map fun (fields, rest) => ((name, item) :: fields, rest)
          | _ => none
      | _ => none

end

/-- The document a text stands for. -/
def parse? (text : String) : Option Json :=
  let s := text.toList
  match readValue? (2 * s.length + 1) s with
  | some (j, rest) => if (skipBlanks rest).isEmpty then some j else none
  | none => none

end StatEngine.Json
