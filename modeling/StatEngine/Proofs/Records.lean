import Mathlib.Data.List.Forall2
import Mathlib.Data.List.Nodup
import Mathlib.Data.List.Perm.Basic
import StatEngine.Json.Record
import StatEngine.Json.Double
import StatEngine.Proofs.Spelling

/-!
# Documents that stand for records and variants

A value may be written in several ways. A record may be a list of its contents or an object with its fields in any
order, with other fields among them if these are ignored. A variant without a content may be its name alone, or its
name with a null content. Here it is said which documents stand for what, and that just these are read so. What is
written is always one of them.

## Main definitions

* `Json.SpellsName`, `Json.SpellsNat`: the documents that stand for a name or a natural number;
* `Json.Spells`: the documents that stand for a record.

## Main statements

* `Json.choice?_eq_some_iff`, `Json.natBelow?_eq_some_iff`, `Json.record?_eq_some_iff`: just the documents that stand
  for a name, a number or a record are read as one;
* `Json.Spells.canonical`: an object with distinct names stands for the record of its fields;
* `Json.Spells.of_perm`: the order of the fields makes no difference.
-/

namespace StatEngine.Json

/-! ## Names and numbers -/

section Names

variable {j content : Json} {name : String}

/-- The documents that stand for a variant without a content. -/
def SpellsName (name : String) (j : Json) : Prop := j = .string name ∨ j = .object [(name, .null)]

theorem SpellsName.ne_null (h : SpellsName name j) : j ≠ .null := by
  rcases h with rfl | rfl <;> exact Json.noConfusion

theorem string?_eq_some_iff {text : String} : j.string? = some text ↔ j = .string text := by
  cases j <;> simp [string?]

theorem isNull_iff : j.isNull ↔ j = .null := by cases j <;> simp [isNull]

theorem variant?_eq_some_iff : j.variant? = some (name, content)
    ↔ j = .string name ∧ content = .null ∨ j = .object [(name, content)] := by
  unfold variant?
  split <;> simp_all [eq_comm]

theorem spellsName_iff : SpellsName name j ↔ j.variant? = some (name, .null) := by
  rw [variant?_eq_some_iff, SpellsName]
  simp

/-- A variant with a content is written with it. -/
theorem eq_object_of_variant? (h : j.variant? = some (name, content)) (hcontent : content ≠ .null) :
    j = .object [(name, content)] :=
  (variant?_eq_some_iff.mp h).resolve_left fun hnull => hcontent hnull.2

/-- A variant without a content stands for its value by its name. -/
theorem spellsName_of_variant? {α : Type} {a b : α} (hvariant : j.variant? = some (name, content))
    (hread : (if content.isNull then some a else none) = some b) : a = b ∧ SpellsName name j := by
  rw [Option.ite_none_right_eq_some, isNull_iff, Option.some.injEq] at hread
  obtain ⟨rfl, rfl⟩ := hread
  exact ⟨rfl, spellsName_iff.mpr hvariant⟩

/-- One of several variants is read from just the documents that stand for its name. -/
theorem choice?_eq_some_iff {α : Type} {all : List α} {name : α → String} (hall : ∀ a, a ∈ all)
    (hnames : (all.map name).Nodup) {a : α} : choice? all name j = some a ↔ SpellsName (name a) j := by
  have hfind (b : α) : all.find? (name · == name b) = some b := by
    -- What is found has the same name, and no two variants have one name.
    obtain ⟨c, hc⟩ := Option.isSome_iff_exists.mp
      (List.find?_isSome.mpr ⟨b, hall b, beq_self_eq_true (name b)⟩ : (all.find? (name · == name b)).isSome)
    have hname : name c = name b := beq_iff_eq.mp (List.find?_some hc :)
    rw [hc, List.inj_on_of_nodup_map hnames (hall c) (hall b) hname]
  simp only [choice?, Option.bind_eq_bind, Option.bind_eq_some_iff, Prod.exists, variant?_eq_some_iff,
    Option.ite_none_right_eq_some, isNull_iff]
  constructor
  · rintro ⟨written, content, hj, rfl, hchoice⟩
    obtain rfl : name a = written := beq_iff_eq.mp (List.find?_some hchoice :)
    exact hj.imp_left And.left
  · intro hj
    exact ⟨name a, .null, hj.imp_left fun h => ⟨h, rfl⟩, rfl, hfind a⟩

/-- The documents that stand for a natural number. -/
def SpellsNat (n : Nat) (j : Json) : Prop :=
  ∃ written : String, j = .number written ∧ (∀ c ∈ written.toList, c.isDigit)
    ∧ Nat.ofDigitChars 10 written.toList 0 = n

theorem SpellsNat.ne_null {n : Nat} (h : SpellsNat n j) : j ≠ .null := by
  obtain ⟨written, rfl, -⟩ := h
  exact Json.noConfusion

theorem spellsNat_nat (n : Nat) : SpellsNat n (nat n) :=
  ⟨n.repr, rfl, fun _ hc => isDigit_of_mem_repr hc, by rw [Nat.toList_repr, Nat.ofDigitChars_ten_toDigits]⟩

/-- A natural number below a bound is read from just the documents that stand for it. -/
theorem natBelow?_eq_some_iff {bound n : Nat} : j.natBelow? bound = some n ↔ n < bound ∧ SpellsNat n j := by
  have hvalue (s : List Char) : digitsValue s = Nat.ofDigitChars 10 s 0 := rfl
  cases j with
  | number written =>
    simp only [natBelow?, hvalue, SpellsNat, number.injEq, exists_eq_left', Bool.and_eq_true, List.all_eq_true,
      decide_eq_true_eq, Option.ite_none_right_eq_some, Option.some.injEq]
    constructor
    · rintro ⟨⟨hdigits, hlt⟩, rfl⟩
      exact ⟨hlt, hdigits, rfl⟩
    · rintro ⟨hlt, hdigits, rfl⟩
      exact ⟨⟨hdigits, hlt⟩, rfl⟩
  | _ => simp [natBelow?, SpellsNat]

end Names

/-! ## Records -/

section Records

variable {j : Json} {rule : RecordRule} {fields other : List (String × Json)} {name : String}
  {contents : List (String × Option Json)}

/-- The documents that stand for a record with the given contents, some of which may be missing. -/
inductive Spells (rule : RecordRule) (contents : List (String × Option Json)) : Json → Prop where
  /-- The contents in their order. The last ones may be missing, if the rule allows for that. -/
  | array {items : List Json} {missing : Nat}
      (hitems : contents.map Prod.snd = items.map some ++ List.replicate missing none)
      (hshort : rule.allowsShort ∨ missing = 0) : Spells rule contents (.array items)
  /-- Fields in any order: each name has its content, if that is not missing, and nothing else. -/
  | object {fields : List (String × Json)}
      (hfields : ∀ content ∈ contents,
        fields.filter (·.1 == content.1) = (content.2.map (content.1, ·)).toList)
      (hothers : rule.allowsOthers ∨ ∀ field ∈ fields, field.1 ∈ contents.map Prod.fst) :
      Spells rule contents (.object fields)

theorem Spells.ne_null (h : Spells rule contents j) : j ≠ .null := by
  rintro rfl
  cases h

/-- The order of the fields makes no difference. -/
theorem Spells.of_perm (h : Spells rule contents (.object fields)) (hperm : other.Perm fields) :
    Spells rule contents (.object other) := by
  obtain _ | ⟨hfields, hothers⟩ := h
  refine .object (fun content hcontent => ?_)
    (hothers.imp_right fun h field hfield => h field (hperm.mem_iff.mp hfield))
  have hfilter := hperm.filter (·.1 == content.1)
  rw [hfields content hcontent] at hfilter
  -- At most one field has the name, so there is nothing to be reordered.
  cases hc : content.2 with
  | none =>
    rw [hc] at hfilter
    exact List.perm_nil.mp hfilter
  | some item =>
    rw [hc] at hfilter
    exact List.perm_singleton.mp hfilter

theorem filter_name_eq_nil (h : name ∉ fields.map Prod.fst) : fields.filter (·.1 == name) = [] := by
  refine List.filter_eq_nil_iff.mpr fun field hfield hname => h ?_
  rw [← beq_iff_eq.mp hname]
  exact List.mem_map_of_mem hfield

theorem filter_name_eq_singleton (hnames : (fields.map Prod.fst).Nodup) {field : String × Json}
    (hfield : field ∈ fields) : fields.filter (·.1 == field.1) = [field] := by
  induction fields with
  | nil => exact absurd hfield List.not_mem_nil
  | cons first fields ih =>
    rw [List.map_cons, List.nodup_cons] at hnames
    rcases List.mem_cons.mp hfield with rfl | hfield
    · rw [List.filter_cons_of_pos (by simp), filter_name_eq_nil hnames.1]
    · have hne : first.1 ≠ field.1 := fun h => hnames.1 (h ▸ List.mem_map_of_mem hfield)
      rw [List.filter_cons_of_neg (by simpa using hne)]
      exact ih hnames.2 hfield

/-- Fields with distinct names stand for the record of their contents. -/
theorem Spells.canonical (rule : RecordRule) (fields : List (String × Json))
    (hnames : (fields.map Prod.fst).Nodup) :
    Spells rule (fields.map fun field => (field.1, some field.2)) (.object fields) := by
  refine .object ?_ (.inr fun field hfield => ?_)
  · intro content hcontent
    obtain ⟨field, hfield, rfl⟩ := List.mem_map.mp hcontent
    exact filter_name_eq_singleton hnames hfield
  · rw [List.map_map]
    exact List.mem_map_of_mem hfield

/-! ### Reading records -/

theorem uniqueField_eq_some_iff {content : Option Json} :
    uniqueField fields name = some content ↔ fields.filter (·.1 == name) = (content.map (name, ·)).toList := by
  have hname : ∀ field ∈ fields.filter (·.1 == name), field.1 = name := fun field hfield =>
    beq_iff_eq.mp (List.mem_filter.mp hfield).2
  unfold uniqueField
  generalize fields.filter (·.1 == name) = found at hname ⊢
  match found with
  | [] => cases content <;> simp
  | [(written, item)] =>
    obtain rfl : written = name := hname (written, item) List.mem_cons_self
    cases content <;> simp
  | _ :: _ :: _ => cases content <;> simp

theorem mapM_eq_some_iff {α β : Type} {f : α → Option β} {xs : List α} {ys : List β} :
    xs.mapM f = some ys ↔ List.Forall₂ (fun x y => f x = some y) xs ys := by
  induction xs generalizing ys with
  | nil => simp [eq_comm]
  | cons x xs ih =>
    simp only [List.mapM_cons, Option.bind_eq_bind, Option.bind_eq_some_iff, Option.pure_def, Option.some.injEq,
      List.forall₂_cons_left_iff, ih]
    constructor
    · rintro ⟨y, hy, rest, hrest, rfl⟩
      exact ⟨y, rest, hy, hrest, rfl⟩
    · rintro ⟨y, rest, hy, hrest, rfl⟩
      exact ⟨y, hy, rest, hrest, rfl⟩

/-- A record is read from just the documents that stand for it. -/
theorem record?_eq_some_iff :
    j.record? rule (contents.map Prod.fst) = some (contents.map Prod.snd) ↔ Spells rule contents j := by
  cases j with
  | array items =>
    rw [record?, Option.ite_none_right_eq_some]
    constructor
    · rintro ⟨hlength, hitems⟩
      refine .array (Option.some.inj hitems).symm ?_
      simp only [List.length_map, Bool.or_eq_true, Bool.and_eq_true, decide_eq_true_eq] at hlength ⊢
      exact hlength.symm.imp And.left fun h => by omega
    · rintro (@⟨_, missing, hitems, hshort⟩ | _)
      have hlength := congrArg List.length hitems
      simp only [List.length_map, List.length_append, List.length_replicate] at hlength
      rw [List.length_map, hlength, Nat.add_sub_cancel_left, hitems]
      refine ⟨?_, rfl⟩
      rcases Nat.eq_zero_or_pos missing with rfl | hmissing
      · simp
      · have hallows : rule.allowsShort := hshort.resolve_right (by omega)
        simp [hallows, hmissing]
  | object fields =>
    rw [record?, Option.ite_none_right_eq_some, mapM_eq_some_iff, List.forall₂_map_left_iff,
      List.forall₂_map_right_iff, List.forall₂_same]
    simp only [uniqueField_eq_some_iff]
    constructor
    · rintro ⟨hothers, hfields⟩
      exact .object hfields (by simpa using hothers)
    · rintro (_ | ⟨hfields, hothers⟩)
      exact ⟨by simpa using hothers, hfields⟩
  | _ =>
    constructor
    · intro h
      simp [record?] at h
    · rintro ⟨⟩

/-- What is read of a record has one place for each name. -/
theorem length_of_record? {names : List String} {found : List (Option Json)}
    (h : j.record? rule names = some found) : found.length = names.length := by
  cases j with
  | array items =>
    rw [record?, Option.ite_none_right_eq_some] at h
    obtain ⟨hlength, hfound⟩ := h
    have hle : items.length ≤ names.length := by
      simp only [Bool.or_eq_true, Bool.and_eq_true, decide_eq_true_eq] at hlength
      omega
    rw [← Option.some.inj hfound, List.length_append, List.length_map, List.length_replicate]
    omega
  | object fields =>
    rw [record?, Option.ite_none_right_eq_some] at h
    exact (mapM_eq_some_iff.mp h.2).length_eq.symm
  | _ => simp [record?] at h

/-- A record of two fields is read from just the documents that stand for it. -/
theorem record?_pair {first second : String} {found : List (Option Json)} :
    j.record? rule [first, second] = some found
      ↔ ∃ a b, found = [a, b] ∧ Spells rule [(first, a), (second, b)] j := by
  constructor
  · intro h
    obtain ⟨a, b, rfl⟩ := List.length_eq_two.mp (length_of_record? h)
    exact ⟨a, b, rfl, record?_eq_some_iff.mp h⟩
  · rintro ⟨a, b, rfl, hspells⟩
    exact record?_eq_some_iff.mpr hspells

/-- A record of two fields, neither of which may be missing. -/
theorem record?_both {α : Type} {first second : String} {read : Json → Json → Option α} {a : α} :
    ((j.record? rule [first, second]).bind fun found =>
        match found with
        | [some x, some y] => read x y
        | _ => none) = some a
      ↔ ∃ x y, Spells rule [(first, some x), (second, some y)] j ∧ read x y = some a := by
  simp only [Option.bind_eq_some_iff, record?_pair]
  constructor
  · rintro ⟨_, ⟨x, y, rfl, hspells⟩, hread⟩
    rcases x with _ | x
    · simp at hread
    rcases y with _ | y
    · simp at hread
    exact ⟨x, y, hspells, hread⟩
  · rintro ⟨x, y, hspells, hread⟩
    exact ⟨_, ⟨_, _, rfl, hspells⟩, hread⟩

end Records

end StatEngine.Json
