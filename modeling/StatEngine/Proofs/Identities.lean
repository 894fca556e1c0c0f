import StatEngine.Document.Breakdown
import StatEngine.Proofs.Records

/-!
# Texts of identities

Sources, labeled sources, keys of stats, stages, forms and settings are read back from the texts they are written as.
For each of them it is said which documents stand for a value, in whatever spelling, and just these are read as the
value. Whatever text stands for a value, writing the value gives the one text that stands for itself.

## Main definitions

* `StatKey.Spelled`, `LocalSource.Spelled`, `Source.Spelled`, `LabeledSource.Spelled`, `Settings.Spelled`: the
  documents that stand for a value. For stages and forms these are those of their names;
* `Faithful`: values are read from just the documents that stand for them, and written as one of these;
* `RoundTrip`: values are read back from their texts, and every text that stands for a value has one respelling.

## Main statements

* `Faithful.roundTrip`: what is read from just the right documents can be exchanged as texts;
* `identities_round_trip`: identities and settings can be exchanged as texts.
-/

namespace StatEngine

open Json

/-! ## Values and their texts -/

section Texts

variable {α : Type} {toJson : α → Json} {ofJson? : Json → Option α} {spelled : α → Json → Prop}

/-- The value that a text stands for. -/
def read? (ofJson? : Json → Option α) (text : String) : Option α := (Json.parse? text).bind ofJson?

/-- A text that stands for a value in the form in which the value is written. -/
def respell? (toJson : α → Json) (ofJson? : Json → Option α) (text : String) : Option String :=
  (read? ofJson? text).map fun a => (toJson a).text

/-- Values are read from just the documents that stand for them. The document of a value is one of them, and has a
written form. -/
structure Faithful (toJson : α → Json) (ofJson? : Json → Option α) (spelled : α → Json → Prop) : Prop where
  written : ∀ a, (toJson a).Written
  canonical : ∀ a, spelled a (toJson a)
  exact : ∀ a j, ofJson? j = some a ↔ spelled a j

/-- Each value is read back from its text. A text stands for a value just if the document that it is the text of does.
Every text that stands for a value has one respelling, which stands for the same value and is its own respelling.
Texts have the same respelling just if they stand for the same value. -/
structure RoundTrip (toJson : α → Json) (ofJson? : Json → Option α) (spelled : α → Json → Prop) : Prop where
  back : ∀ a, read? ofJson? (toJson a).text = some a
  stands : ∀ text a, read? ofJson? text = some a ↔ ∃ j, Json.parse? text = some j ∧ spelled a j
  stable : ∀ text a, read? ofJson? text = some a → ∃ spelling, respell? toJson ofJson? text = some spelling
    ∧ read? ofJson? spelling = some a ∧ respell? toJson ofJson? spelling = some spelling
  apart : ∀ text other a b, read? ofJson? text = some a → read? ofJson? other = some b →
    (respell? toJson ofJson? text = respell? toJson ofJson? other ↔ a = b)

theorem Faithful.roundTrip (h : Faithful toJson ofJson? spelled) : RoundTrip toJson ofJson? spelled := by
  have hback (a : α) : read? ofJson? (toJson a).text = some a := by
    rw [read?, Json.parse?_text (h.written a), Option.bind_some, h.exact]
    exact h.canonical a
  refine ⟨hback, fun text a => ?_, fun text a ha => ⟨(toJson a).text, ?_, hback a, ?_⟩, fun text other a b ha hb => ?_⟩
  · simp only [read?, Option.bind_eq_some_iff, h.exact]
  · rw [respell?, ha, Option.map_some]
  · rw [respell?, hback, Option.map_some]
  · rw [respell?, respell?, ha, hb, Option.map_some, Option.map_some, Option.some.injEq]
    -- A text stands for one value, so values with the same text are the same.
    refine ⟨fun htext => ?_, congrArg fun a => (toJson a).text⟩
    exact Option.some.inj ((hback a).symm.trans (htext ▸ hback b))

theorem Faithful.choice {all : List α} {name : α → String} (hall : ∀ a, a ∈ all)
    (hnames : (all.map name).Nodup) :
    Faithful (fun a => .string (name a)) (Json.choice? all name) (SpellsName <| name ·) where
  written _ := trivial
  canonical _ := .inl rfl
  exact _ _ := choice?_eq_some_iff hall hnames

end Texts

variable {j : Json}

/-! ## Names -/

theorem Entity.faithful : Faithful Entity.toJson Entity.ofJson? (SpellsName ·.name) :=
  .choice (fun a => by cases a <;> decide) (by decide)

theorem Stage.faithful : Faithful Stage.toJson Stage.ofJson? (SpellsName ·.name) :=
  .choice (fun a => by cases a <;> decide) (by decide)

theorem Form.faithful : Faithful Form.toJson Form.ofJson? (SpellsName ·.name) :=
  .choice (fun a => by cases a <;> decide) (by decide)

theorem Slot.faithful : Faithful Slot.toJson Slot.ofJson? (SpellsName ·.name) :=
  .choice (fun a => by cases a <;> decide) (by decide)

/-! ## Keys -/

namespace StatKey

/-- The documents that stand for a key. -/
def Spelled (k : StatKey) (j : Json) : Prop :=
  ∃ entity, SpellsName k.entity.name entity
    ∧ Spells .lenient [("id", some (.string k.id)), ("entity", some entity)] j

theorem ofJson?_eq_some_iff {k : StatKey} : ofJson? j = some k ↔ k.Spelled j := by
  refine (record?_both (a := k)).trans ?_
  simp only [Option.bind_eq_bind, Option.bind_eq_some_iff, string?_eq_some_iff, Entity.faithful.exact,
    Option.pure_def, Option.some.injEq, Spelled]
  constructor
  · rintro ⟨_, entity, hspells, id, rfl, e, hentity, rfl⟩
    exact ⟨entity, hentity, hspells⟩
  · rintro ⟨entity, hentity, hspells⟩
    exact ⟨_, entity, hspells, _, rfl, _, hentity, rfl⟩

theorem faithful : Faithful StatKey.toJson StatKey.ofJson? StatKey.Spelled where
  written k := ⟨trivial, Entity.faithful.written k.entity, trivial⟩
  canonical k := ⟨_, Entity.faithful.canonical k.entity,
    .canonical .lenient [("id", .string k.id), ("entity", k.entity.toJson)] (show ["id", "entity"].Nodup by decide)⟩
  exact _ _ := ofJson?_eq_some_iff

end StatKey

/-! ## Sources -/

namespace LocalSource

/-- The documents that stand for a particular source. -/
def Spelled : LocalSource → Json → Prop
  | given, j => SpellsName "Given" j
  | passiveNode id, j => ∃ content, j = .object [("PassiveNode", content)] ∧ SpellsNat id.toNat content
  | item slot, j => ∃ content, j = .object [("Item", content)] ∧ SpellsName slot.name content
  | skill id, j => j = .object [("Skill", .string id)]
  | gem slot socket, j => ∃ content place number, j = .object [("Gem", content)]
    ∧ SpellsName slot.name place ∧ SpellsNat socket.toNat number
    ∧ Spells .lenient [("slot", some place), ("socket_index", some number)] content
  | userSpecified, j => SpellsName "UserSpecified" j

theorem gemOfJson?_eq_some_iff {source : LocalSource} : gemOfJson? j = some source
    ↔ ∃ (slot : Slot) (socket : UInt32) (place number : Json), source = gem slot socket
      ∧ SpellsName slot.name place ∧ SpellsNat socket.toNat number
      ∧ Spells .lenient [("slot", some place), ("socket_index", some number)] j := by
  refine (record?_both (a := source)).trans ?_
  simp only [Option.bind_eq_bind, Option.bind_eq_some_iff, Slot.faithful.exact, natBelow?_eq_some_iff,
    Option.pure_def, Option.some.injEq]
  constructor
  · rintro ⟨place, number, hspells, slot, hplace, n, ⟨hlt, hnumber⟩, rfl⟩
    refine ⟨slot, .ofNat n, place, number, rfl, hplace, ?_, hspells⟩
    rwa [UInt32.toNat_ofNat_of_lt' hlt]
  · rintro ⟨slot, socket, place, number, rfl, hplace, hnumber, hspells⟩
    refine ⟨place, number, hspells, slot, hplace, _, ⟨socket.toNat_lt, hnumber⟩, ?_⟩
    rw [UInt32.ofNat_toNat]

theorem ofJson?_eq_some_iff {source : LocalSource} : ofJson? j = some source ↔ source.Spelled j := by
  simp only [ofJson?, Option.bind_eq_bind, Option.bind_eq_some_iff]
  constructor
  · rintro ⟨variant, hvariant, hread⟩
    -- One case for each name. What has a content has one that is not null, so the name does not stand alone.
    split at hread
    · obtain ⟨rfl, hspells⟩ := spellsName_of_variant? hvariant hread
      exact hspells
    · next content =>
      simp only [Option.bind_eq_some_iff, natBelow?_eq_some_iff, Option.pure_def, Option.some.injEq] at hread
      obtain ⟨n, ⟨hlt, hnumber⟩, rfl⟩ := hread
      refine ⟨content, eq_object_of_variant? hvariant hnumber.ne_null, ?_⟩
      rwa [UInt16.toNat_ofNat_of_lt' hlt]
    · next content =>
      simp only [Option.bind_eq_some_iff, Slot.faithful.exact, Option.pure_def, Option.some.injEq] at hread
      obtain ⟨slot, hslot, rfl⟩ := hread
      exact ⟨content, eq_object_of_variant? hvariant hslot.ne_null, hslot⟩
    · simp only [Option.bind_eq_some_iff, string?_eq_some_iff, Option.pure_def, Option.some.injEq] at hread
      obtain ⟨id, rfl, rfl⟩ := hread
      exact eq_object_of_variant? hvariant Json.noConfusion
    · next content =>
      obtain ⟨slot, socket, place, number, rfl, hplace, hnumber, hspells⟩ := gemOfJson?_eq_some_iff.mp hread
      exact ⟨content, place, number, eq_object_of_variant? hvariant hspells.ne_null, hplace, hnumber, hspells⟩
    · obtain ⟨rfl, hspells⟩ := spellsName_of_variant? hvariant hread
      exact hspells
    · simp at hread
  · intro h
    cases source with
    | given | userSpecified => exact ⟨_, spellsName_iff.mp h, rfl⟩
    | passiveNode id =>
      obtain ⟨content, rfl, hnumber⟩ := h
      refine ⟨_, rfl, ?_⟩
      simp [natBelow?_eq_some_iff.mpr ⟨id.toNat_lt, hnumber⟩]
    | item slot =>
      obtain ⟨content, rfl, hslot⟩ := h
      refine ⟨_, rfl, ?_⟩
      simp [(Slot.faithful.exact _ _).mpr hslot]
    | skill id =>
      obtain rfl := h
      exact ⟨_, rfl, rfl⟩
    | gem slot socket =>
      obtain ⟨content, place, number, rfl, hgem⟩ := h
      exact ⟨_, rfl, gemOfJson?_eq_some_iff.mpr ⟨slot, socket, place, number, rfl, hgem⟩⟩

theorem faithful : Faithful LocalSource.toJson LocalSource.ofJson? LocalSource.Spelled where
  written
    | given | userSpecified => trivial
    | passiveNode id => ⟨isNumber_repr id.toNat, trivial⟩
    | item slot => ⟨Slot.faithful.written slot, trivial⟩
    | skill _ => ⟨trivial, trivial⟩
    | gem slot socket => ⟨⟨Slot.faithful.written slot, isNumber_repr socket.toNat, trivial⟩, trivial⟩
  canonical
    | given | userSpecified => .inl rfl
    | passiveNode id => ⟨_, rfl, spellsNat_nat id.toNat⟩
    | item slot => ⟨_, rfl, Slot.faithful.canonical slot⟩
    | skill _ => rfl
    | gem slot socket => ⟨_, _, _, rfl, Slot.faithful.canonical slot, spellsNat_nat socket.toNat,
      .canonical .lenient [("slot", slot.toJson), ("socket_index", .nat socket.toNat)]
        (show ["slot", "socket_index"].Nodup by decide)⟩
  exact _ _ := ofJson?_eq_some_iff

theorem Spelled.ne_null {source : LocalSource} (h : source.Spelled j) : j ≠ .null := by
  rintro rfl
  have hread := ofJson?_eq_some_iff.mpr h
  simp [ofJson?, variant?] at hread

end LocalSource

namespace Source

/-- The documents that stand for a source. -/
def Spelled : Source → Json → Prop
  | global, j => SpellsName "Global" j
  | particular source, j => ∃ content, j = .object [("Local", content)] ∧ source.Spelled content
  | ailment, j => SpellsName "Ailment" j

theorem ofJson?_eq_some_iff {source : Source} : ofJson? j = some source ↔ source.Spelled j := by
  simp only [ofJson?, Option.bind_eq_bind, Option.bind_eq_some_iff]
  constructor
  · rintro ⟨variant, hvariant, hread⟩
    split at hread
    · obtain ⟨rfl, hspells⟩ := spellsName_of_variant? hvariant hread
      exact hspells
    · next content =>
      simp only [Option.bind_eq_some_iff, LocalSource.faithful.exact, Option.pure_def, Option.some.injEq] at hread
      obtain ⟨source, hsource, rfl⟩ := hread
      exact ⟨content, eq_object_of_variant? hvariant hsource.ne_null, hsource⟩
    · obtain ⟨rfl, hspells⟩ := spellsName_of_variant? hvariant hread
      exact hspells
    · simp at hread
  · intro h
    cases source with
    | global | ailment => exact ⟨_, spellsName_iff.mp h, rfl⟩
    | particular source =>
      obtain ⟨content, rfl, hsource⟩ := h
      refine ⟨_, rfl, ?_⟩
      simp [(LocalSource.faithful.exact _ _).mpr hsource]

theorem faithful : Faithful Source.toJson Source.ofJson? Source.Spelled where
  written
    | global | ailment => trivial
    | particular source => ⟨LocalSource.faithful.written source, trivial⟩
  canonical
    | global | ailment => .inl rfl
    | particular source => ⟨_, rfl, LocalSource.faithful.canonical source⟩
  exact _ _ := ofJson?_eq_some_iff

end Source

namespace LabeledSource

/-- The documents that stand for a labeled source. -/
def Spelled (s : LabeledSource) (j : Json) : Prop :=
  ∃ source, s.source.Spelled source
    ∧ Spells .lenient [("canonical", some source), ("name", some (.string s.label))] j

theorem ofJson?_eq_some_iff {s : LabeledSource} : ofJson? j = some s ↔ s.Spelled j := by
  refine (record?_both (a := s)).trans ?_
  simp only [Option.bind_eq_bind, Option.bind_eq_some_iff, string?_eq_some_iff, Source.faithful.exact,
    Option.pure_def, Option.some.injEq, Spelled]
  constructor
  · rintro ⟨source, _, hspells, read, hsource, label, rfl, rfl⟩
    exact ⟨source, hsource, hspells⟩
  · rintro ⟨source, hsource, hspells⟩
    exact ⟨source, _, hspells, _, hsource, _, rfl, rfl⟩

theorem faithful : Faithful LabeledSource.toJson LabeledSource.ofJson? LabeledSource.Spelled where
  written s := ⟨Source.faithful.written s.source, trivial, trivial⟩
  canonical s := ⟨_, Source.faithful.canonical s.source,
    .canonical .lenient [("canonical", s.source.toJson), ("name", .string s.label)]
      (show ["canonical", "name"].Nodup by decide)⟩
  exact _ _ := ofJson?_eq_some_iff

end LabeledSource

/-! ## Settings -/

namespace Settings

/-- A content that stands for a setting, which is the standard one if the content is missing. -/
def SpelledOr (standard flag : Bool) (content : Option Json) : Prop :=
  content = some (.bool flag) ∨ content = none ∧ flag = standard

/-- The documents that stand for settings. -/
def Spelled (s : Settings) (j : Json) : Prop :=
  ∃ prune buffer, Spells .closed [("prune_after_update", prune), ("buffer_events", buffer)] j
    ∧ SpelledOr standard.pruneAfterUpdate s.pruneAfterUpdate prune
    ∧ SpelledOr standard.bufferEvents s.bufferEvents buffer

theorem setting_eq_some_iff {standard flag : Bool} {content : Option Json} :
    (match content with
      | none => some standard
      | some j => j.bool?) = some flag ↔ SpelledOr standard flag content := by
  cases content with
  | none => simp [SpelledOr, eq_comm]
  | some j => cases j <;> simp [SpelledOr, bool?]

theorem ofJson?_eq_some_iff {s : Settings} : ofJson? j = some s ↔ s.Spelled j := by
  simp only [ofJson?, Option.bind_eq_bind, Option.bind_eq_some_iff, record?_pair, Spelled]
  constructor
  · rintro ⟨_, ⟨prune, buffer, rfl, hspells⟩, hread⟩
    simp only [Option.bind_eq_some_iff, Option.pure_def, Option.some.injEq] at hread
    obtain ⟨_, hprune, _, hbuffer, rfl⟩ := hread
    exact ⟨prune, buffer, hspells, setting_eq_some_iff.mp hprune, setting_eq_some_iff.mp hbuffer⟩
  · rintro ⟨prune, buffer, hspells, hprune, hbuffer⟩
    refine ⟨_, ⟨_, _, rfl, hspells⟩, ?_⟩
    simp only [Option.bind_eq_some_iff, Option.pure_def, Option.some.injEq]
    exact ⟨_, setting_eq_some_iff.mpr hprune, _, setting_eq_some_iff.mpr hbuffer, rfl⟩

theorem faithful : Faithful Settings.toJson Settings.ofJson? Settings.Spelled where
  written _ := ⟨trivial, trivial, trivial⟩
  canonical s := ⟨_, _, .canonical .closed
    [("prune_after_update", .bool s.pruneAfterUpdate), ("buffer_events", .bool s.bufferEvents)]
    (show ["prune_after_update", "buffer_events"].Nodup by decide), .inl rfl, .inl rfl⟩
  exact _ _ := ofJson?_eq_some_iff

end Settings

/-! ## Round trips -/

/-- Identities and settings are read back from their texts, whatever texts and numbers are in them. What else stands
for one of them is respelled in one way, and no text stands for two of them. -/
theorem identities_round_trip : RoundTrip Source.toJson Source.ofJson? Source.Spelled
    ∧ RoundTrip LabeledSource.toJson LabeledSource.ofJson? LabeledSource.Spelled
    ∧ RoundTrip StatKey.toJson StatKey.ofJson? StatKey.Spelled
    ∧ RoundTrip Stage.toJson Stage.ofJson? (SpellsName ·.name)
    ∧ RoundTrip Form.toJson Form.ofJson? (SpellsName ·.name)
    ∧ RoundTrip Settings.toJson Settings.ofJson? Settings.Spelled :=
  ⟨Source.faithful.roundTrip, LabeledSource.faithful.roundTrip, StatKey.faithful.roundTrip,
    Stage.faithful.roundTrip, Form.faithful.roundTrip, Settings.faithful.roundTrip⟩

end StatEngine
