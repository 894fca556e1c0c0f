import Mathlib.Data.List.TakeWhile
import StatEngine.Json.Reader
import StatEngine.Json.Writer

/-!
# Reading back what was written

The compact text of a document is read as the document, if its numbers are numbers by the grammar and its string
literals stand for texts. Escaping is undone character by character. A number ends where it is meant to, because what
follows it in a document is a comma or a closing bracket, with which no number goes on. Lists and objects are read
back by induction on the document: each item takes two levels of the reader's depth, and the text of an item is at
least as long as the item is deep.

## Main definitions

* `Json.Stops`: a text with which no number goes on;
* `Json.IsNumber`: a text is a number by the grammar;
* `Json.Written`: a document has a written form.

## Main statements

* `Json.stringBody_quoted`: any text is read back from its string literal;
* `Json.number?_append`: a number is read up to where nothing goes on with it;
* `Json.isNumber_repr`: the digits of a natural number are a number;
* `Json.parse?_text`: a document is read back from its text.
-/

namespace StatEngine.Json

/-! ## String literals -/

section Strings

variable {c stands : Char} (rest : List Char)

theorem hexValue?_hexDigit : ∀ n < 16, hexValue? (hexDigit n) = some n := by decide

/-- An escape of four hexadecimal digits stands for the character that has their number. -/
theorem stringBody_hex {a b c d : Char} {n : Nat} (hn : hex4? a b c d = some n)
    (hhigh : isHighSurrogate n = false) (hlow : isLowSurrogate n = false) :
    stringBody ('\\' :: 'u' :: a :: b :: c :: d :: rest)
      = (stringBody rest).map fun (text, rest) => (text.map (Char.ofNat n :: ·), rest) := by
  rw [stringBody]
  simp [hn, hhigh, hlow]

theorem stringBody_short (hstands : shortEscape? c = some stands) :
    stringBody ('\\' :: c :: rest)
      = (stringBody rest).map fun (text, rest) => (text.map (stands :: ·), rest) := by
  -- An escape by a number starts with a letter that is no short escape.
  have hc : c ≠ 'u' := by
    rintro rfl
    simp [shortEscape?] at hstands
  rw [stringBody]
  · simp [hstands]
  · intro _ _ _ _ _ h
    exact absurd h hc

theorem stringBody_plain (hquote : c ≠ '"') (hslash : c ≠ '\\') (hc : 32 ≤ c.toNat) :
    stringBody (c :: rest) = (stringBody rest).map fun (text, rest) => (text.map (c :: ·), rest) := by
  rw [stringBody]
  · rw [if_neg (by omega)]
  -- The other cases of the reader are about quotes and backslashes.
  · exact hquote
  · intro _ _ _ _ _ h
    exact absurd h hslash
  · intro _ _ h
    exact absurd h hslash

/-- However a character is escaped, it is read back. -/
theorem stringBody_escape (c : Char) :
    stringBody (escape c ++ rest) = (stringBody rest).map fun (text, rest) => (text.map (c :: ·), rest) := by
  unfold escape
  split_ifs with hquote hslash hline hreturn htab hback hfeed hcontrol
  · exact stringBody_short rest (by simp [hquote, shortEscape?])
  · exact stringBody_short rest (by simp [hslash, shortEscape?])
  · exact stringBody_short rest (by simp [hline, shortEscape?])
  · exact stringBody_short rest (by simp [hreturn, shortEscape?])
  · exact stringBody_short rest (by simp [htab, shortEscape?])
  · exact stringBody_short rest (by simp [hback, shortEscape?])
  · exact stringBody_short rest (by simp [hfeed, shortEscape?])
  · -- The other control characters are below any surrogate.
    have hn : hex4? '0' '0' (hexDigit (c.toNat / 16)) (hexDigit (c.toNat % 16)) = some c.toNat := by
      have hzero : hexValue? '0' = some 0 := by decide
      rw [hex4?, hzero, hexValue?_hexDigit _ (by omega), hexValue?_hexDigit _ (by omega)]
      simp only [Option.pure_def, Option.bind_eq_bind, Option.bind_some, Option.some.injEq]
      omega
    have hhigh : isHighSurrogate c.toNat = false := by
      simp [isHighSurrogate]
      omega
    have hlow : isLowSurrogate c.toNat = false := by
      simp [isLowSurrogate]
      omega
    have hread := stringBody_hex rest hn hhigh hlow
    rwa [Char.ofNat_toNat] at hread
  · exact stringBody_plain rest hquote hslash (by omega)

/-- What stands between the quotes of a literal is read as the text it was written for. -/
theorem stringBody_quoted (text : List Char) :
    stringBody (text.flatMap escape ++ '"' :: rest) = some (some text, rest) := by
  induction text with
  | nil => rw [List.flatMap_nil, List.nil_append, stringBody]
  | cons c text ih =>
    rw [List.flatMap_cons, List.append_assoc, stringBody_escape, ih]
    rfl

end Strings

/-! ## Numbers -/

section Numbers

/-- No number goes on with what comes next. -/
def Stops (rest : List Char) : Prop := ∀ c ∈ rest.head?, ¬ c.isDigit ∧ c ≠ '.' ∧ c ≠ 'e' ∧ c ≠ 'E'

theorem stops_of_mem {c : Char} (hc : c ∈ [',', ']', '}']) (rest : List Char) : Stops (c :: rest) := by
  intro d hd
  cases hd
  simp only [List.mem_cons, List.not_mem_nil, or_false] at hc
  rcases hc with rfl | rfl | rfl <;> decide

variable {s w left rest : List Char} {written : String}

theorem digits_append (hrest : ∀ c ∈ rest.head?, ¬ c.isDigit) :
    digits (s ++ rest) = ((digits s).1, (digits s).2 ++ rest) := by
  induction s with
  | nil =>
    cases rest with
    | nil => rfl
    | cons c rest => simp_all [digits]
  | cons c s ih =>
    unfold digits at *
    cases hc : c.isDigit <;> simp_all

/-! ### The parts of a number -/

theorem wholePart?_append (hrest : Stops rest) (h : wholePart? s = some (w, left)) :
    wholePart? (s ++ rest) = some (w, left ++ rest) := by
  rw [wholePart?, digits_append fun c hc => (hrest c hc).1]
  rw [wholePart?] at h
  split at h <;> simp_all

theorem fractionPart?_of_ne (hs : ∀ c ∈ s.head?, c ≠ '.') : fractionPart? s = some ([], s) := by
  unfold fractionPart?
  split
  · simp at hs
  · rfl

theorem fractionPart?_append (hrest : Stops rest) (h : fractionPart? s = some (w, left)) :
    fractionPart? (s ++ rest) = some (w, left ++ rest) := by
  cases s with
  | nil =>
    -- The number ended before the fraction, and no point follows.
    obtain ⟨rfl, rfl⟩ : [] = w ∧ [] = left := by simpa [fractionPart?] using h
    exact fractionPart?_of_ne fun c hc => (hrest c hc).2.1
  | cons c s =>
    by_cases hc : c = '.'
    · subst hc
      rw [fractionPart?] at h
      rw [List.cons_append, fractionPart?, digits_append fun c hc => (hrest c hc).1]
      split at h <;> simp_all
    · have hother (s : List Char) : fractionPart? (c :: s) = some ([], c :: s) :=
        fractionPart?_of_ne (by simpa using hc)
      rw [hother] at h
      cases h
      exact hother _

theorem exponentSign_append (hs : s ≠ []) :
    exponentSign (s ++ rest) = ((exponentSign s).1, (exponentSign s).2 ++ rest) := by
  obtain ⟨c, s, rfl⟩ := List.exists_cons_of_ne_nil hs
  unfold exponentSign
  split <;> simp_all

theorem exponentPart?_append (hrest : Stops rest) (h : exponentPart? s = some (w, left)) :
    exponentPart? (s ++ rest) = some (w, left ++ rest) := by
  cases s with
  | nil =>
    -- The number ended before the exponent, and no mark follows.
    obtain ⟨rfl, rfl⟩ : [] = w ∧ [] = left := by simpa [exponentPart?] using h
    cases rest with
    | nil => rfl
    | cons c rest =>
      have hc := hrest c rfl
      simp [exponentPart?, hc.2.2]
  | cons c s =>
    rw [exponentPart?] at h
    rw [List.cons_append, exponentPart?]
    split at h
    · next hmark =>
      -- After the mark there are digits, so the sign is not that of what follows.
      have hs : s ≠ [] := by
        rintro rfl
        simp [exponentSign, digits] at h
      rw [if_pos hmark, exponentSign_append hs]
      simp only [digits_append fun c hc => (hrest c hc).1]
      dsimp only at h
      split at h <;> simp_all
    · next hmark =>
      rw [if_neg hmark]
      cases h
      rfl

/-! ### Signs -/

/-- A number without a sign, and what follows it. -/
def unsigned? (s : List Char) : Option (List Char × List Char) := do
  let (whole, s) ← wholePart? s
  let (fraction, s) ← fractionPart? s
  let (exponent, s) ← exponentPart? s
  return (whole ++ fraction ++ exponent, s)

theorem number?_minus (s : List Char) :
    number? ('-' :: s) = (unsigned? s).map fun (w, rest) => ('-' :: w, rest) := by
  simp only [number?, unsigned?, Option.bind_eq_bind, Option.pure_def, Option.map_bind, Function.comp_def,
    Option.map_some, List.cons_append, List.nil_append]

theorem number?_of_ne (hs : ∀ c ∈ s.head?, c ≠ '-') : number? s = unsigned? s := by
  unfold number?
  split
  next sign unsigned hsign =>
    have hsplit : sign = [] ∧ unsigned = s := by
      split at hsign
      · simp at hs
      · simp_all
    rw [hsplit.1, hsplit.2]
    rfl

theorem unsigned?_append (hrest : Stops rest) (h : unsigned? s = some (w, left)) :
    unsigned? (s ++ rest) = some (w, left ++ rest) := by
  simp only [unsigned?, Option.bind_eq_bind, Option.bind_eq_some_iff, Prod.exists, Option.pure_def,
    Option.some.injEq, Prod.mk.injEq] at h
  obtain ⟨whole, _, hwhole, fraction, _, hfraction, exponent, _, hexponent, rfl, rfl⟩ := h
  simp only [unsigned?, wholePart?_append hrest hwhole, fractionPart?_append hrest hfraction,
    exponentPart?_append hrest hexponent, Option.bind_eq_bind, Option.bind_some, Option.pure_def]

/-- A number ends where nothing comes that it could go on with. -/
theorem number?_append (hrest : Stops rest) (h : number? s = some (w, left)) :
    number? (s ++ rest) = some (w, left ++ rest) := by
  cases s with
  | nil => simp [number?, wholePart?, digits] at h
  | cons c s =>
    by_cases hc : c = '-'
    · subst hc
      rw [number?_minus, Option.map_eq_some_iff] at h
      obtain ⟨⟨w, left⟩, hunsigned, hw⟩ := h
      cases hw
      rw [List.cons_append, number?_minus, unsigned?_append hrest hunsigned]
      rfl
    · have hother (s : List Char) : number? (c :: s) = unsigned? (c :: s) := number?_of_ne (by simpa using hc)
      rw [hother] at h
      rw [List.cons_append, hother]
      exact unsigned?_append hrest h

theorem wholePart?_head (h : wholePart? s = some (w, left)) : ∃ c s', s = c :: s' ∧ c.isDigit := by
  cases s with
  | nil => simp [wholePart?, digits] at h
  | cons c s =>
    refine ⟨c, s, rfl, ?_⟩
    by_contra hc
    simp [wholePart?, digits, hc] at h

/-- A number starts with a minus sign or a digit. -/
theorem number?_head (h : number? s = some (w, left)) : ∃ c s', s = c :: s' ∧ (c = '-' ∨ c.isDigit) := by
  cases s with
  | nil => simp [number?, wholePart?, digits] at h
  | cons c s =>
    refine ⟨c, s, rfl, or_iff_not_imp_left.mpr fun hc => ?_⟩
    have hhead : ∀ d ∈ (c :: s).head?, d ≠ '-' := by simpa using hc
    rw [number?_of_ne hhead, unsigned?, Option.bind_eq_bind, Option.bind_eq_some_iff] at h
    obtain ⟨_, hwhole, _⟩ := h
    obtain ⟨_, _, hs, hdigit⟩ := wholePart?_head hwhole
    cases hs
    exact hdigit

/-! ### Written numbers -/

/-- A text is a number by the grammar. -/
def IsNumber (written : String) : Prop := number? written.toList = some (written.toList, [])

theorem IsNumber.head (h : IsNumber written) (rest : List Char) :
    ∃ c s, written.toList ++ rest = c :: s ∧ (c = '-' ∨ c.isDigit) := by
  obtain ⟨c, s, hs, hc⟩ := number?_head h
  exact ⟨c, s ++ rest, by rw [hs, List.cons_append], hc⟩

/-- Digits are a number unless more of them follow a zero. -/
theorem isNumber_of_digits (hdigits : ∀ c ∈ written.toList, c.isDigit) (hne : written.toList ≠ [])
    (hzero : written.toList.head? = some '0' → written.toList = ['0']) : IsNumber written := by
  generalize hs : written.toList = s at hdigits hne hzero
  -- All digits are the whole part, so there is neither a fraction nor an exponent.
  have hsplit : digits s = (s, []) := by
    rw [digits, List.takeWhile_eq_self_iff.mpr hdigits, List.dropWhile_eq_nil_iff.mpr hdigits]
  have hwhole : wholePart? s = some (s, []) := by
    rw [wholePart?, hsplit]
    split <;> simp_all
  have hsign : ∀ c ∈ s.head?, c ≠ '-' := by
    rintro c hc rfl
    exact absurd (hdigits _ (List.mem_of_mem_head? hc)) (by decide)
  rw [IsNumber, hs, number?_of_ne hsign, unsigned?, hwhole]
  simp [fractionPart?, exponentPart?]

theorem isDigit_of_mem_repr {n : Nat} {c : Char} (hc : c ∈ n.repr.toList) : c.isDigit := by
  rw [Nat.toList_repr] at hc
  exact Nat.isDigit_of_mem_toDigits (by decide) (by decide) hc

theorem head?_toDigits {n : Nat} (hn : 0 < n) : (Nat.toDigits 10 n).head? ≠ some '0' := by
  induction n using Nat.strong_induction_on with
  | h n ih =>
    rw [Nat.toDigits_eq_if (by decide)]
    split
    · -- a single digit
      simp
      omega
    · -- the leading digits are those of a smaller number that is not zero either
      have hrest := ih (n / 10) (by omega) (by omega)
      obtain ⟨c, s, hs⟩ := List.exists_cons_of_ne_nil (Nat.toDigits_ne_nil (n := n / 10) (b := 10))
      rw [hs] at hrest ⊢
      exact hrest

theorem isNumber_repr (n : Nat) : IsNumber n.repr := by
  refine isNumber_of_digits (fun c hc => isDigit_of_mem_repr hc) ?_ ?_
  · rw [Nat.toList_repr]
    exact Nat.toDigits_ne_nil
  · rw [Nat.toList_repr]
    intro hhead
    rcases Nat.eq_zero_or_pos n with rfl | hn
    · exact Nat.toDigits_zero 10
    · exact absurd hhead (head?_toDigits hn)

end Numbers

/-! ## Documents -/

mutual

/-- A document has a written form: its numbers are numbers, and its string literals stand for texts. -/
def Written : Json → Prop
  | .null | .bool _ | .string _ => True
  | .number written => IsNumber written
  | .unpaired => False
  | .array items => AllWritten items
  | .object fields => FieldsWritten fields

/-- All documents of a list have written forms. -/
def AllWritten : List Json → Prop
  | [] => True
  | item :: rest => Written item ∧ AllWritten rest

/-- The documents of all fields have written forms. -/
def FieldsWritten : List (String × Json) → Prop
  | [] => True
  | (_, item) :: rest => Written item ∧ FieldsWritten rest

end

section Tokens

variable {c : Char}

theorem skipBlanks_cons (hc : isBlank c = false) (s : List Char) : skipBlanks (c :: s) = c :: s := by
  simp [skipBlanks, hc]

theorem isBlank_of_number (hc : c = '-' ∨ c.isDigit) : isBlank c = false := by
  rcases hc with rfl | hc
  · decide
  · by_contra hblank
    simp only [isBlank, Bool.not_eq_false, Bool.or_eq_true, decide_eq_true_eq] at hblank
    rcases hblank with ((rfl | rfl) | rfl) | rfl <;> exact absurd hc (by decide)

theorem quoted_append (text : String) (rest : List Char) :
    quoted text ++ rest = '"' :: (text.toList.flatMap escape ++ '"' :: rest) := by
  simp [quoted]

theorem skipBlanks_quoted (text : String) (rest : List Char) :
    skipBlanks (quoted text ++ rest) = quoted text ++ rest := by
  rw [quoted_append, skipBlanks_cons (by decide)]

theorem fieldName?_quoted (name : String) (rest : List Char) :
    fieldName? (quoted name ++ rest) = some (some name, rest) := by
  rw [quoted_append, fieldName?, stringBody_quoted, Option.map_some]
  simp only [Option.map_some, String.ofList_toList]

end Tokens

/-! ### How documents start -/

/-- A text starts with what is no blank and closes no list. -/
def Starts (s : List Char) : Prop := ∃ c rest, s = c :: rest ∧ isBlank c = false ∧ c ≠ ']'

theorem compact_starts {j : Json} (h : j.Written) (rest : List Char) : Starts (j.compact ++ rest) := by
  cases j with
  | null => exact ⟨'n', _, rfl, by decide, by decide⟩
  | bool b =>
    cases b with
    | true => exact ⟨'t', _, rfl, by decide, by decide⟩
    | false => exact ⟨'f', _, rfl, by decide, by decide⟩
  | number written =>
    obtain ⟨c, s, hs, hc⟩ := IsNumber.head h rest
    refine ⟨c, s, hs, isBlank_of_number hc, ?_⟩
    rintro rfl
    exact absurd hc (by decide)
  | string text => exact ⟨'"', _, rfl, by decide, by decide⟩
  | unpaired => exact h.elim
  | array items => exact ⟨'[', _, rfl, by decide, by decide⟩
  | object fields => exact ⟨'{', _, rfl, by decide, by decide⟩

theorem compactItems_cons (item next : Json) (items : List Json) :
    compactItems (item :: next :: items) = item.compact ++ ',' :: compactItems (next :: items) := rfl

theorem compactItems_starts {item : Json} {items : List Json} (h : item.Written) (rest : List Char) :
    Starts (compactItems (item :: items) ++ rest) := by
  cases items with
  | nil => exact compact_starts h rest
  | cons next items =>
    rw [compactItems_cons, List.append_assoc]
    exact compact_starts h _

theorem compactFields_singleton (name : String) (item : Json) :
    compactFields [(name, item)] = quoted name ++ ':' :: item.compact := rfl

theorem compactFields_cons (name : String) (item : Json) (next : String × Json) (fields : List (String × Json)) :
    compactFields ((name, item) :: next :: fields)
      = quoted name ++ ':' :: (item.compact ++ ',' :: compactFields (next :: fields)) :=
  List.append_assoc _ _ _

theorem compactFields_starts (name : String) (item : Json) (fields : List (String × Json)) :
    ∃ s, compactFields ((name, item) :: fields) = quoted name ++ s := by
  cases fields with
  | nil => exact ⟨_, compactFields_singleton name item⟩
  | cons next fields => exact ⟨_, compactFields_cons name item next fields⟩

/-! ### What the reader does at a start -/

section Steps

variable {depth : Nat} {s rest : List Char} {item : Json}

theorem readValue?_string (depth : Nat) (text : String) (rest : List Char) :
    readValue? (depth + 1) (quoted text ++ rest) = some (.string text, rest) := by
  rw [quoted_append, readValue?, skipBlanks_cons (by decide)]
  simp only [stringBody_quoted, Option.map_some, String.ofList_toList]

theorem readValue?_number {written : String} (hwritten : IsNumber written) (hrest : Stops rest) (depth : Nat) :
    readValue? (depth + 1) (written.toList ++ rest) = some (.number written, rest) := by
  obtain ⟨c, s, hs, hc⟩ := hwritten.head rest
  have hread : number? (c :: s) = some (written.toList, rest) := by
    rw [← hs]
    exact number?_append hrest hwritten
  rw [hs, readValue?, skipBlanks_cons (isBlank_of_number hc)]
  split
  case h_7 =>
    rw [hread, Option.map_some]
    simp only [String.ofList_toList]
  -- The other cases are about characters that start no number.
  all_goals
    rename_i heq
    cases heq
    exact absurd hc (by decide)

theorem readValue?_items (hs : Starts s) (depth : Nat) :
    readValue? (depth + 1) ('[' :: s)
      = (readItems? depth s).map fun (items, rest) => (.array items, rest) := by
  obtain ⟨c, s, rfl, hblank, hclose⟩ := hs
  rw [readValue?, skipBlanks_cons (by decide)]
  simp only [skipBlanks_cons hblank]
  split
  · next heq =>
    cases heq
    exact absurd rfl hclose
  · rfl

theorem readValue?_fields (depth : Nat) (name : String) (s : List Char) :
    readValue? (depth + 1) ('{' :: (quoted name ++ s))
      = (readFields? depth (quoted name ++ s)).map fun (fields, rest) => (objectOf fields, rest) := by
  rw [readValue?, skipBlanks_cons (by decide)]
  simp only [skipBlanks_quoted]
  split
  · next heq =>
    rw [quoted_append] at heq
    exact absurd (List.head_eq_of_cons_eq heq) (by decide)
  · rfl

theorem readItems?_last (h : readValue? depth s = some (item, ']' :: rest)) :
    readItems? (depth + 1) s = some ([item], rest) := by
  rw [readItems?, h]
  simp only [skipBlanks_cons (show isBlank ']' = false by decide)]

theorem readItems?_next (h : readValue? depth s = some (item, ',' :: rest)) :
    readItems? (depth + 1) s = (readItems? depth rest).map fun (items, rest) => (item :: items, rest) := by
  rw [readItems?, h]
  simp only [skipBlanks_cons (show isBlank ',' = false by decide)]

theorem readFields?_last (name : String) (h : readValue? depth s = some (item, '}' :: rest)) :
    readFields? (depth + 1) (quoted name ++ ':' :: s) = some ([(some name, item)], rest) := by
  rw [readFields?, skipBlanks_quoted, fieldName?_quoted]
  simp only [skipBlanks_cons (show isBlank ':' = false by decide), h,
    skipBlanks_cons (show isBlank '}' = false by decide)]

theorem readFields?_next (name : String) (h : readValue? depth s = some (item, ',' :: rest)) :
    readFields? (depth + 1) (quoted name ++ ':' :: s)
      = (readFields? depth rest).map fun (fields, rest) => ((some name, item) :: fields, rest) := by
  rw [readFields?, skipBlanks_quoted, fieldName?_quoted]
  simp only [skipBlanks_cons (show isBlank ':' = false by decide), h,
    skipBlanks_cons (show isBlank ',' = false by decide)]

end Steps

/-! ### Reading back -/

/-- A field as it is read. -/
def readField (field : String × Json) : Option String × Json := (some field.1, field.2)

theorem objectOf_readField (fields : List (String × Json)) :
    objectOf (fields.map readField) = .object fields := by
  have hnames : (fields.map readField).mapM (fun entry => entry.1.map (·, entry.2)) = some fields := by
    induction fields with
    | nil => rfl
    | cons field fields ih => simp [readField, ih]
  unfold objectOf
  split
  · next heq => rw [Option.some.inj (hnames.symm.trans heq)]
  · next heq => exact absurd (hnames.symm.trans heq) (Option.some_ne_none fields)

-- The induction is on the document. The depth is bounded by the length of the text, so that it is enough for the
-- items of a list and of the rest of the list alike.
mutual

theorem readValue?_compact : ∀ j : Json, j.Written → ∀ rest, Stops rest → ∀ depth, 2 * j.compact.length < depth →
    readValue? depth (j.compact ++ rest) = some (j, rest)
  | .null, _, _, _, _ + 1, _ => rfl
  | .bool true, _, _, _, _ + 1, _ => rfl
  | .bool false, _, _, _, _ + 1, _ => rfl
  | .string text, _, rest, _, depth + 1, _ => readValue?_string depth text rest
  | .number _, hwritten, _, hrest, depth + 1, _ => readValue?_number hwritten hrest depth
  | .array [], _, _, _, _ + 1, _ => rfl
  | .array (item :: items), h, rest, _, depth + 1, hdepth => by
    rw [compact, List.length_append, List.length_cons, List.length_singleton] at hdepth
    have hitems := readItems?_compact (item :: items) (List.cons_ne_nil _ _) h rest depth (by omega)
    rw [compact, List.append_assoc, List.cons_append, List.singleton_append,
      readValue?_items (compactItems_starts h.1 _), hitems, Option.map_some]
  | .object [], _, _, _, _ + 1, _ => rfl
  | .object ((name, item) :: fields), h, rest, _, depth + 1, hdepth => by
    rw [compact, List.length_append, List.length_cons, List.length_singleton] at hdepth
    have hfields :=
      readFields?_compact ((name, item) :: fields) (List.cons_ne_nil _ _) h rest depth (by omega)
    obtain ⟨s, hs⟩ := compactFields_starts name item fields
    rw [hs, List.append_assoc] at hfields
    rw [compact, List.append_assoc, List.cons_append, List.singleton_append, hs, List.append_assoc,
      readValue?_fields, hfields, Option.map_some]
    simp only [objectOf_readField]

theorem readItems?_compact : ∀ items : List Json, items ≠ [] → AllWritten items → ∀ rest depth,
    2 * (compactItems items).length + 1 < depth →
    readItems? depth (compactItems items ++ ']' :: rest) = some (items, rest)
  | [item], _, h, rest, depth + 1, hdepth => by
    rw [compactItems] at hdepth ⊢
    have hstops := stops_of_mem (c := ']') (by decide) rest
    exact readItems?_last (readValue?_compact item h.1 _ hstops depth (by omega))
  | item :: next :: items, _, h, rest, depth + 1, hdepth => by
    rw [compactItems_cons, List.length_append, List.length_cons] at hdepth
    have hstops := stops_of_mem (c := ',') (by decide) (compactItems (next :: items) ++ ']' :: rest)
    have hitem := readValue?_compact item h.1 _ hstops depth (by omega)
    have hitems := readItems?_compact (next :: items) (List.cons_ne_nil _ _) h.2 rest depth (by omega)
    rw [compactItems_cons, List.append_assoc, List.cons_append, readItems?_next hitem, hitems, Option.map_some]

theorem readFields?_compact : ∀ fields : List (String × Json), fields ≠ [] → FieldsWritten fields → ∀ rest depth,
    2 * (compactFields fields).length + 1 < depth →
    readFields? depth (compactFields fields ++ '}' :: rest) = some (fields.map readField, rest)
  | [(name, item)], _, h, rest, depth + 1, hdepth => by
    rw [compactFields_singleton, List.length_append, List.length_cons] at hdepth
    have hstops := stops_of_mem (c := '}') (by decide) rest
    rw [compactFields_singleton, List.append_assoc, List.cons_append]
    exact readFields?_last name (readValue?_compact item h.1 _ hstops depth (by omega))
  | (name, item) :: next :: fields, _, h, rest, depth + 1, hdepth => by
    rw [compactFields_cons, List.length_append, List.length_cons, List.length_append, List.length_cons] at hdepth
    have hstops := stops_of_mem (c := ',') (by decide) (compactFields (next :: fields) ++ '}' :: rest)
    have hitem := readValue?_compact item h.1 _ hstops depth (by omega)
    have hfields := readFields?_compact (next :: fields) (List.cons_ne_nil _ _) h.2 rest depth (by omega)
    rw [compactFields_cons, List.append_assoc, List.cons_append, List.append_assoc, List.cons_append,
      readFields?_next name hitem, hfields, Option.map_some]
    rfl

end

/-- A document is read back from its text. -/
theorem parse?_text {j : Json} (h : j.Written) : parse? j.text = some j := by
  have hstops : Stops [] := fun _ hc => absurd hc (by simp)
  -- The reader starts with just the depth that the length of the text asks for.
  have hread := readValue?_compact j h [] hstops (2 * j.compact.length + 1) (by omega)
  rw [List.append_nil] at hread
  rw [parse?, text, String.toList_ofList, hread]
  rfl

end StatEngine.Json
