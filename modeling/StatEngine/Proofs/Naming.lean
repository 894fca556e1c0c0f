import StatEngine.MetaModifier
import StatEngine.Number.Exact

/-!
# The arguments of meta stats

A catalog answers a request by the written identity of the meta stat, and it keeps behaviors by their
names. Both are put together from the identities of the arguments, so a stat stands for the arguments of
every request that spells the same. It does stand for the arguments it was asked for, whatever else the
catalog was asked for, if the arguments can be told from what is spelled (`Legible`): a parenthesis in
the identity of a target closes where it was opened, the identity of a source has no comma, and stats
that differ do not differ in their entities alone.

## Main definitions

* `Naming.Legible`: arguments that can be told from the identities and names they are spelled in;
* `Naming.Converts`, `Naming.Gains`: a meta stat whose behaviors are those of the given arguments;
* `Naming.Sound`: the invariant of a catalog.

## Main statements

* `Naming.Upholds.get`: every request keeps the invariant;
* `Naming.stands_for_arguments`: what the answers to any requests stand for.
-/

namespace StatEngine

variable {N : Type}

namespace Naming

/-! ## Texts with parentheses -/

section Texts

variable {c : Char} {x y x' y' : List Char}

/-- Texts agree up to the last place where they can be split. -/
theorem split_last (h : x ++ c :: y = x' ++ c :: y') (hy : ∀ p, y ≠ p ++ c :: y')
    (hy' : ∀ p, y' ≠ p ++ c :: y) : x = x' ∧ y = y' := by
  rcases List.append_eq_append_iff.mp h with ⟨as, rfl, has⟩ | ⟨as, rfl, has⟩
  · cases as with
    | nil => simpa using has
    | cons a as => exact absurd (List.cons.inj has).2 (hy as)
  · cases as with
    | nil => simpa using has.symm
    | cons a as => exact absurd (List.cons.inj has).2 (hy' as)

/-- Texts agree up to the first place where they can be split. -/
theorem split_first (h : x ++ c :: y = x' ++ c :: y') (hx : c ∉ x) (hx' : c ∉ x') :
    x = x' ∧ y = y' := by
  rcases List.append_eq_append_iff.mp h with ⟨as, rfl, has⟩ | ⟨as, rfl, has⟩
  · cases as with
    | nil => simpa using has
    | cons a as =>
      obtain rfl := (List.cons.inj has).1
      simp at hx'
  · cases as with
    | nil => simpa using has.symm
    | cons a as =>
      obtain rfl := (List.cons.inj has).1
      simp at hx

/-- Every parenthesis that is opened in a text is closed, and none is closed that was not opened. -/
structure Nested (text : List Char) : Prop where
  suffix : ∀ rest, rest <:+ text → rest.count '(' ≤ rest.count ')'
  total : text.count '(' = text.count ')'

/-- A text without parentheses is nested. -/
theorem Nested.of_notMem {text : List Char} (hopen : '(' ∉ text) (hclose : ')' ∉ text) :
    Nested text where
  suffix rest hrest := by
    rw [List.count_eq_zero_of_not_mem fun h => hopen (hrest.subset h)]
    exact Nat.zero_le _
  total := by rw [List.count_eq_zero_of_not_mem hopen, List.count_eq_zero_of_not_mem hclose]

/-- No parenthesis that is opened before a nested text is closed in it. -/
theorem Nested.ne_append (hy : Nested y) (hy' : Nested y') (p : List Char) : y ≠ p ++ '(' :: y' := by
  rintro rfl
  have := hy.suffix ('(' :: y') (List.suffix_append ..)
  rw [List.count_cons_self, List.count_cons_of_ne (by decide), hy'.total] at this
  omega

/-- What stands in the last parentheses can be told from what stands before them. -/
theorem Nested.split (hy : Nested y) (hy' : Nested y') (h : x ++ '(' :: y = x' ++ '(' :: y') :
    x = x' ∧ y = y' := split_last h (hy.ne_append hy') (hy'.ne_append hy)

/-- What a text is derived from can be told from the text: what stands before the last parentheses, and what
stands in them. -/
theorem Nested.split_derived (hy : Nested y) (hy' : Nested y') {rest rest' : List Char}
    (hrest : ')' ∉ rest) (hrest' : ')' ∉ rest')
    (h : x ++ '(' :: (y ++ ')' :: rest) = x' ++ '(' :: (y' ++ ')' :: rest')) : x = x' ∧ y = y' := by
  have hclosing : (x ++ '(' :: y) ++ ')' :: rest = (x' ++ '(' :: y') ++ ')' :: rest' := by
    simpa using h
  have hopening := split_last hclosing (by rintro p rfl; simp at hrest)
    (by rintro p rfl; simp at hrest')
  exact hy.split hy' hopening.1

end Texts

/-! ## Identities -/

/-- The identity of the percentage of a source that is converted to a target. -/
def convertToKey (source target : StatKey) : StatKey :=
  source.child ("ConvertTo(" ++ target.id ++ ")")

/-- The identity of the percentage of a source that is gained as a target. -/
def gainAsKey (source target : StatKey) : StatKey := source.child ("GainAs(" ++ target.id ++ ")")

/-- The identity of the percentage by which modifiers to another stat apply to a stat. -/
def affectedByKey (stat other : StatKey) (form : Form) : StatKey :=
  stat.child ("AffectedByModifiersTo(" ++ other.id ++ ")." ++ form.name)

theorem StatKey.eq_of_id_eq {k k' : StatKey} (hid : k.id.toList = k'.id.toList)
    (hentity : k.entity = k'.entity) : k = k' := by
  obtain ⟨id, entity⟩ := k
  obtain ⟨id', entity'⟩ := k'
  rw [StatKey.mk.injEq]
  exact ⟨String.toList_inj.mp hid, hentity⟩

/-- A derived stat is written as the stat it is derived from, and what it is derived by. -/
theorem text_child (k : StatKey) (suffix : String) : (k.child suffix).text = k.text ++ "." ++ suffix := by
  obtain ⟨id, entity⟩ := k
  cases entity <;> simp [StatKey.child, StatKey.text, String.append_assoc]

theorem toList_convertToKey (source target : StatKey) : (convertToKey source target).id.toList
    = source.id.toList ++ ".ConvertTo".toList ++ '(' :: (target.id.toList ++ [')']) := by
  simp [convertToKey, StatKey.child]

theorem toList_gainAsKey (source target : StatKey) : (gainAsKey source target).id.toList
    = source.id.toList ++ ".GainAs".toList ++ '(' :: (target.id.toList ++ [')']) := by
  simp [gainAsKey, StatKey.child]

theorem toList_affectedByKey (stat other : StatKey) (form : Form) :
    (affectedByKey stat other form).id.toList = stat.id.toList ++ ".AffectedByModifiersTo".toList
      ++ '(' :: (other.id.toList ++ ')' :: '.' :: form.name.toList) := by
  simp [affectedByKey, StatKey.child]

section Identities

variable {source target source' target' : StatKey} (htarget : Nested target.id.toList)
  (htarget' : Nested target'.id.toList)

include htarget htarget'

/-- The arguments of a conversion can be told from its identity. -/
theorem eq_of_convertToKey_eq (h : convertToKey source target = convertToKey source' target') :
    source = source' ∧ target.id = target'.id := by
  have hentity := congrArg StatKey.entity h
  have hid := congrArg (·.id.toList) h
  simp only [toList_convertToKey] at hid
  obtain ⟨hid, htext⟩ := htarget.split_derived htarget' (by simp) (by simp) hid
  exact ⟨StatKey.eq_of_id_eq (List.append_cancel_right hid) hentity, String.toList_inj.mp htext⟩

/-- So can those of a gain. -/
theorem eq_of_gainAsKey_eq (h : gainAsKey source target = gainAsKey source' target') :
    source = source' ∧ target.id = target'.id := by
  have hentity := congrArg StatKey.entity h
  have hid := congrArg (·.id.toList) h
  simp only [toList_gainAsKey] at hid
  obtain ⟨hid, htext⟩ := htarget.split_derived htarget' (by simp) (by simp) hid
  exact ⟨StatKey.eq_of_id_eq (List.append_cancel_right hid) hentity, String.toList_inj.mp htext⟩

/-- So can the stats that share modifiers. -/
theorem eq_of_affectedByKey_eq {form form' : Form}
    (h : affectedByKey source target form = affectedByKey source' target' form') :
    source = source' ∧ target.id = target'.id := by
  have hform (form : Form) : ')' ∉ '.' :: form.name.toList := by cases form <;> decide
  have hentity := congrArg StatKey.entity h
  have hid := congrArg (·.id.toList) h
  simp only [toList_affectedByKey] at hid
  obtain ⟨hid, htext⟩ := htarget.split_derived htarget' (hform form) (hform form') hid
  exact ⟨StatKey.eq_of_id_eq (List.append_cancel_right hid) hentity, String.toList_inj.mp htext⟩

/-- A conversion is not a gain. -/
theorem convertToKey_ne_gainAsKey : convertToKey source target ≠ gainAsKey source' target' := by
  intro h
  have hid := congrArg (·.id.toList) h
  simp only [toList_convertToKey, toList_gainAsKey] at hid
  obtain ⟨hid, -⟩ := htarget.split_derived htarget' (by simp) (by simp) hid
  simpa using congrArg List.getLast? hid

end Identities

/-! ## Names of behaviors -/

/-- The name of a mechanic with what it is for. -/
def called (mechanic arguments : String) : String := mechanic ++ "(" ++ arguments ++ ")"

/-- The name under which converted values reach the base of a target. -/
def baseName (source target : StatKey) : String :=
  "ConversionTargetBase(" ++ source.text ++ "," ++ target.text ++ ")"

/-- The name under which a target has the paths of a source. -/
def pathsName (source target : StatKey) : String :=
  "ConversionTargetUncappedSubtotal(" ++ source.text ++ "," ++ target.text ++ ")"

/-- The name under which a source loses what is converted. -/
def restName (source : StatKey) : String := called "ConversionSourcePathTotal" source.text

/-- The name under which the conversions of a source are scaled down. -/
def shareName (source target : StatKey) : String :=
  called "ConvertToUncappedSubtotal" (convertToKey source target).text

theorem called_two (before a b : String) :
    before ++ "(" ++ a ++ "," ++ b ++ ")" = called before (a ++ "," ++ b) := by
  rw [called, ← String.toList_inj]
  simp

theorem baseName_eq (source target : StatKey) :
    baseName source target = called "ConversionTargetBase" (source.text ++ "," ++ target.text) :=
  called_two "ConversionTargetBase" source.text target.text

theorem pathsName_eq (source target : StatKey) : pathsName source target
    = called "ConversionTargetUncappedSubtotal" (source.text ++ "," ++ target.text) :=
  called_two "ConversionTargetUncappedSubtotal" source.text target.text

/-- The mechanics that conversions and gains are made of. -/
def mechanics : List String := ["ConversionTargetBase", "ConversionTargetUncappedSubtotal",
  "ConversionSourcePathTotal", "ConvertToUncappedSubtotal"]

/-- A mechanic and what it is for can be told from a name. -/
theorem eq_of_called_eq {mechanic mechanic' arguments arguments' : String}
    (hm : '(' ∉ mechanic.toList) (hm' : '(' ∉ mechanic'.toList)
    (h : called mechanic arguments = called mechanic' arguments') :
    mechanic = mechanic' ∧ arguments = arguments' := by
  have h : mechanic.toList ++ '(' :: (arguments.toList ++ [')'])
      = mechanic'.toList ++ '(' :: (arguments'.toList ++ [')']) := by
    simpa [called] using congrArg String.toList h
  obtain ⟨hmechanic, harguments⟩ := split_first h hm hm'
  exact ⟨String.toList_inj.mp hmechanic,
    String.toList_inj.mp (List.append_cancel_right harguments)⟩

theorem comma_notMem_text {k : StatKey} (h : ',' ∉ k.id.toList) : ',' ∉ k.text.toList := by
  obtain ⟨id, entity⟩ := k
  have hname (e : Entity) : ',' ∉ e.name.toList := by cases e <;> decide
  cases entity <;> simp_all [StatKey.text]

/-- Two stats can be told from their texts with a comma between them. -/
theorem eq_of_texts_eq {source target source' target' : StatKey} (hs : ',' ∉ source.id.toList)
    (hs' : ',' ∉ source'.id.toList)
    (h : source.text ++ "," ++ target.text = source'.text ++ "," ++ target'.text) :
    source.text = source'.text ∧ target.text = target'.text := by
  have h : source.text.toList ++ ',' :: target.text.toList
      = source'.text.toList ++ ',' :: target'.text.toList := by
    simpa using congrArg String.toList h
  obtain ⟨hsource, htarget⟩ := split_first h (comma_notMem_text hs) (comma_notMem_text hs')
  exact ⟨String.toList_inj.mp hsource, String.toList_inj.mp htarget⟩

/-! ## Arguments that can be told -/

end Naming

/-- The mechanic and the two arguments of a request that has two. -/
def MetaStat.related? : MetaStat N → Option (String × StatKey × StatKey)
  | .convertTo source target => some ("ConvertTo", source.key, target.key)
  | .gainAs source target => some ("GainAs", source.key, target.key)
  | .affectedBy stat other _ => some ("AffectedByModifiersTo", stat.key, other.key)
  | _ => none

namespace Naming

/-- Sources and targets that can be told from the identities and names they are spelled in. -/
structure Legible (pairs : List (StatKey × StatKey)) : Prop where
  /-- Parentheses in the identity of a target belong together. -/
  nested : ∀ p ∈ pairs, Nested p.2.id.toList
  /-- The identity of a source has no comma. -/
  commas : ∀ p ∈ pairs, ',' ∉ p.1.id.toList
  /-- Different stats are not written in the same way. -/
  sources : ∀ p ∈ pairs, ∀ q ∈ pairs, p.1.text = q.1.text → p.1 = q.1
  targets : ∀ p ∈ pairs, ∀ q ∈ pairs, p.2.text = q.2.text → p.2 = q.2
  /-- Different targets have different identities, whatever entity has them. -/
  ids : ∀ p ∈ pairs, ∀ q ∈ pairs, p.2.id = q.2.id → p.2 = q.2

section Roles

variable (source target : StatKey) (b : Behavior N)

/-- Converted values reach the base of the target on the paths that come from the source. -/
def IsBase : Prop := ∃ (s t : Stat N) (identity : Identity), s.key = source ∧ t.key = target
  ∧ b = ⟨[target], [.base], .conversionFrom source, ⟨identity, .convertedBase s t⟩⟩

/-- The target has the paths of the source. -/
def IsPaths : Prop := ∃ (s : Stat N) (identity : Identity), s.key = source
  ∧ b = ⟨[target], [.uncappedSubtotal], .all, ⟨identity, .convertedPaths s target⟩⟩

/-- The source loses what is converted. -/
def IsRest : Prop := ∃ (s : Stat N) (identity : Identity), s.key = source
  ∧ b = ⟨[source], [.pathTotal], .all, ⟨identity, .unconverted s⟩⟩

/-- The conversion is scaled down with the other conversions of the source. -/
def IsShare : Prop := ∃ (s : Stat N) (identity : Identity), s.key = source
  ∧ b = ⟨[convertToKey source target], [.uncappedSubtotal], .all,
      ⟨identity, .normalizedShare s (convertToKey source target)⟩⟩

end Roles

/-- A stat is the percentage of a source that is converted to a target: its behaviors are those of the
source and the target, and of no others. -/
def Converts (source target : StatKey) (stat : Stat N) : Prop :=
  ∃ base paths rest share, stat.behaviors = [base, paths, rest, share] ∧ IsBase source target base
    ∧ IsPaths source target paths ∧ IsRest source rest ∧ IsShare source target share

/-- A stat is the percentage of a source that is gained as a target. -/
def Gains (source target : StatKey) (stat : Stat N) : Prop :=
  ∃ base paths, stat.behaviors = [base, paths] ∧ IsBase source target base
    ∧ IsPaths source target paths

/-- What is kept under the name of a behavior is that behavior. -/
structure Named (pairs : List (StatKey × StatKey)) (name : String) (b : Behavior N) : Prop where
  base : ∀ p ∈ pairs, name = baseName p.1 p.2 → IsBase p.1 p.2 b
  paths : ∀ p ∈ pairs, name = pathsName p.1 p.2 → IsPaths p.1 p.2 b
  rest : ∀ p ∈ pairs, name = restName p.1 → IsRest p.1 b
  share : ∀ p ∈ pairs, name = shareName p.1 p.2 → IsShare p.1 p.2 b

/-- What has the identity of a conversion or a gain is that conversion or gain. -/
structure Stands (pairs : List (StatKey × StatKey)) (stat : Stat N) : Prop where
  convertTo : ∀ p ∈ pairs, stat.key = convertToKey p.1 p.2 → Converts p.1 p.2 stat
  gainAs : ∀ p ∈ pairs, stat.key = gainAsKey p.1 p.2 → Gains p.1 p.2 stat

/-- What a catalog keeps is what it is called. -/
structure Sound (pairs : List (StatKey × StatKey)) (c : Catalog N) : Prop where
  behaviors : ∀ e ∈ c.behaviors, Named pairs e.1 e.2
  stats : ∀ s ∈ c.stats, Stands pairs s

section Made

variable {pairs : List (StatKey × StatKey)} {name : String} {b : Behavior N}

/-- A name is that of one mechanic. -/
theorem named_called {mechanic arguments : String} (hm : '(' ∉ mechanic.toList)
    (hbase : mechanic = "ConversionTargetBase" → ∀ p ∈ pairs,
      arguments = p.1.text ++ "," ++ p.2.text → IsBase p.1 p.2 b)
    (hpaths : mechanic = "ConversionTargetUncappedSubtotal" → ∀ p ∈ pairs,
      arguments = p.1.text ++ "," ++ p.2.text → IsPaths p.1 p.2 b)
    (hrest : mechanic = "ConversionSourcePathTotal" → ∀ p ∈ pairs,
      arguments = p.1.text → IsRest p.1 b)
    (hshare : mechanic = "ConvertToUncappedSubtotal" → ∀ p ∈ pairs,
      arguments = (convertToKey p.1 p.2).text → IsShare p.1 p.2 b) :
    Named pairs (called mechanic arguments) b where
  base p hp h := (eq_of_called_eq hm (by decide) (h.trans (baseName_eq ..))).elim
    fun hm h => hbase hm p hp h
  paths p hp h := (eq_of_called_eq hm (by decide) (h.trans (pathsName_eq ..))).elim
    fun hm h => hpaths hm p hp h
  rest p hp h := (eq_of_called_eq hm (by decide) h).elim fun hm h => hrest hm p hp h
  share p hp h := (eq_of_called_eq hm (by decide) h).elim fun hm h => hshare hm p hp h

/-- A behavior of another mechanic has none of the names. -/
theorem named_other {mechanic arguments : String} (hm : '(' ∉ mechanic.toList)
    (hother : mechanic ∉ mechanics) : Named pairs (called mechanic arguments) b := by
  simp only [mechanics, List.mem_cons, List.not_mem_nil, or_false, not_or] at hother
  exact named_called hm (fun h => absurd h hother.1) (fun h => absurd h hother.2.1)
    (fun h => absurd h hother.2.2.1) fun h => absurd h hother.2.2.2

variable (h : Legible pairs) {source target : Stat N} (hp : (source.key, target.key) ∈ pairs)

include h hp

/-- The arguments of a conversion can be told from their texts with a comma between them. -/
theorem eq_of_arguments_eq {p : StatKey × StatKey} (hp' : p ∈ pairs)
    (harguments : source.key.text ++ "," ++ target.key.text = p.1.text ++ "," ++ p.2.text) :
    source.key = p.1 ∧ target.key = p.2 := by
  obtain ⟨hsource, htarget⟩ := eq_of_texts_eq (h.commas _ hp) (h.commas p hp') harguments
  exact ⟨h.sources _ hp p hp' hsource, h.targets _ hp p hp' htarget⟩

theorem named_base (identity : Identity) : Named pairs (baseName source.key target.key)
    (⟨[target.key], [.base], .conversionFrom source.key,
      ⟨identity, .convertedBase source target⟩⟩ : Behavior N) := by
  rw [baseName_eq]
  refine named_called (by decide) (fun _ p hp' harguments => ?_) (fun hm => absurd hm (by decide))
    (fun hm => absurd hm (by decide)) fun hm => absurd hm (by decide)
  obtain ⟨hs, ht⟩ := eq_of_arguments_eq h hp hp' harguments
  exact ⟨source, target, identity, hs, ht, by rw [hs, ht]⟩

theorem named_paths (identity : Identity) : Named pairs (pathsName source.key target.key)
    (⟨[target.key], [.uncappedSubtotal], .all,
      ⟨identity, .convertedPaths source target.key⟩⟩ : Behavior N) := by
  rw [pathsName_eq]
  refine named_called (by decide) (fun hm => absurd hm (by decide)) (fun _ p hp' harguments => ?_)
    (fun hm => absurd hm (by decide)) fun hm => absurd hm (by decide)
  obtain ⟨hs, ht⟩ := eq_of_arguments_eq h hp hp' harguments
  exact ⟨source, identity, hs, by rw [ht]⟩

theorem named_rest (identity : Identity) : Named pairs (restName source.key)
    (⟨[source.key], [.pathTotal], .all, ⟨identity, .unconverted source⟩⟩ : Behavior N) := by
  refine named_called (by decide) (fun hm => absurd hm (by decide)) (fun hm => absurd hm (by decide))
    (fun _ p hp' harguments => ?_) fun hm => absurd hm (by decide)
  have hs : source.key = p.1 := h.sources _ hp p hp' harguments
  exact ⟨source, identity, hs, by rw [hs]⟩

theorem named_share (identity : Identity) : Named pairs (shareName source.key target.key)
    (⟨[convertToKey source.key target.key], [.uncappedSubtotal], .all,
      ⟨identity, .normalizedShare source (convertToKey source.key target.key)⟩⟩ : Behavior N) := by
  refine named_called (by decide) (fun hm => absurd hm (by decide)) (fun hm => absurd hm (by decide))
    (fun hm => absurd hm (by decide)) fun _ p hp' harguments => ?_
  rw [convertToKey, convertToKey, text_child, text_child] at harguments
  have hspelled : (source.key.text.toList ++ ".ConvertTo".toList) ++ '(' :: (target.key.id.toList ++ [')'])
      = (p.1.text.toList ++ ".ConvertTo".toList) ++ '(' :: (p.2.id.toList ++ [')']) := by
    simpa using congrArg String.toList harguments
  obtain ⟨hsource, htarget⟩ := (h.nested _ hp).split_derived (h.nested p hp') List.not_mem_nil
    List.not_mem_nil hspelled
  have hs : source.key = p.1 :=
    h.sources _ hp p hp' (String.toList_inj.mp (List.append_cancel_right hsource))
  have ht : target.key = p.2 := h.ids _ hp p hp' (String.toList_inj.mp htarget)
  exact ⟨source, identity, hs, by rw [hs, ht]⟩

end Made

/-! ## Requests -/

/-- A computation keeps the invariant of a catalog, and what it answers is as it should be. -/
def Upholds {α : Type} (pairs : List (StatKey × StatKey)) (run : Catalog.Making N α)
    (post : α → Prop) : Prop := ∀ c, Sound pairs c → post (run c).1 ∧ Sound pairs (run c).2

namespace Upholds

variable {α β : Type} {pairs : List (StatKey × StatKey)}

theorem of_pure {a : α} {post : α → Prop} (h : post a) :
    Upholds pairs (pure a : Catalog.Making N α) post := fun _ hc => ⟨h, hc⟩

theorem bind {run : Catalog.Making N α} {next : α → Catalog.Making N β} {post : α → Prop}
    {post' : β → Prop} (h : Upholds pairs run post)
    (hnext : ∀ a, post a → Upholds pairs (next a) post') : Upholds pairs (run >>= next) post' :=
  fun c hc => hnext _ (h c hc).1 _ (h c hc).2

theorem weaken {run : Catalog.Making N α} {post post' : α → Prop} (h : Upholds pairs run post)
    (hpost : ∀ a, post a → post' a) : Upholds pairs run post' :=
  fun c hc => ⟨hpost _ (h c hc).1, (h c hc).2⟩

/-- A behavior is made or found under its name. -/
theorem behavior {name : String} {stats : List StatKey} {stages : List Stage} {rule : PathRule}
    {effect : Effect N}
    (h : Named pairs name (⟨stats, stages, rule, ⟨.cataloged name, effect⟩⟩ : Behavior N)) :
    Upholds pairs (Catalog.behavior name stats stages rule effect) (Named pairs name) := by
  intro c hc
  rw [Catalog.behavior]
  cases hfound : c.behavior? name with
  | some b =>
    refine ⟨?_, hc⟩
    obtain ⟨e, he, rfl⟩ := Option.map_eq_some_iff.mp hfound
    have hname : e.1 = name := by simpa using List.find?_some he
    exact hname ▸ hc.behaviors e (List.mem_of_find?_eq_some he)
  | none =>
    refine ⟨h, fun e he => ?_, hc.stats⟩
    rcases List.mem_append.mp he with he | he
    · exact hc.behaviors e he
    · rw [List.mem_singleton.mp he]
      exact h

/-- A behavior of another mechanic may be any. -/
theorem ownBehavior {mechanic : String} (hm : '(' ∉ mechanic.toList) (hother : mechanic ∉ mechanics)
    {key : StatKey} {stages : List Stage} {rule : PathRule} {effect : Effect N} :
    Upholds pairs (Catalog.ownBehavior mechanic key stages rule effect) fun _ => True :=
  (behavior (named_other hm hother)).weaken fun _ _ => trivial

/-- A stat is made or found under its key. -/
theorem stat {key : StatKey} {make : Stat N → Catalog.Making N (Stat N)}
    (h : Upholds pairs (make (.plain key)) fun s => s.key = key ∧ Stands pairs s) :
    Upholds pairs (Catalog.stat key make) fun s => s.key = key ∧ Stands pairs s := by
  have hfind {c : Catalog N} (hc : Sound pairs c) {s : Stat N} (hs : c.find? key = some s) :
      s.key = key ∧ Stands pairs s :=
    ⟨by simpa using List.find?_some hs, hc.stats s (List.mem_of_find?_eq_some hs)⟩
  intro c hc
  rw [Catalog.stat]
  cases hfound : c.find? key with
  | some s => exact ⟨hfind hc hfound, hc⟩
  | none =>
    have hmade := h c hc
    generalize make (.plain key) c = made at hmade ⊢
    obtain ⟨s, c'⟩ := made
    obtain ⟨hmade, hc'⟩ := hmade
    dsimp only
    cases hagain : c'.find? key with
    | some s => exact ⟨hfind hc' hagain, hc'⟩
    | none =>
      refine ⟨hmade, hc'.behaviors, fun s hs => ?_⟩
      rcases List.mem_append.mp hs with hs | hs
      · exact hc'.stats s hs
      · rw [List.mem_singleton.mp hs]
        exact hmade.2

/-- A stat whose identity does not end in a parenthesis stands for no arguments. -/
theorem plainStat {key : StatKey} (hkey : key.id.toList.getLast? ≠ some ')')
    {make : Stat N → Catalog.Making N (Stat N)}
    (h : Upholds pairs (make (.plain key)) fun s => s.key = key) :
    Upholds pairs (Catalog.stat key make) fun s => s.key = key ∧ Stands pairs s := by
  refine stat (h.weaken fun s hs => ⟨hs, ⟨fun p _ hp => absurd ?_ hkey, fun p _ hp => absurd ?_ hkey⟩⟩)
  · have hid : (convertToKey p.1 p.2).id.toList
        = (p.1.id ++ ".ConvertTo(" ++ p.2.id).toList ++ [')'] := by
      simp [convertToKey, StatKey.child]
    rw [← hs, hp, hid, List.getLast?_concat]
  · have hid : (gainAsKey p.1 p.2).id.toList = (p.1.id ++ ".GainAs(" ++ p.2.id).toList ++ [')'] := by
      simp [gainAsKey, StatKey.child]
    rw [← hs, hp, hid, List.getLast?_concat]

section Requests

variable (h : Legible pairs)

/-- The damage of hits stands for no arguments. -/
theorem hitDamage (entity : Entity) (damage : DamageType) :
    Upholds pairs (Catalog.hitDamage entity damage : Catalog.Making N (Stat N)) fun s =>
      s.key = (MetaStat.hitDamage (N := N) entity damage).key ∧ Stands pairs s :=
  plainStat (by simp [MetaStat.key]) ((ownBehavior (by decide) (by decide)).bind fun _ _ => .of_pure rfl)

include h

/-- Asking for a conversion answers with the conversion. -/
theorem convertTo {source target : Stat N} (hp : (source.key, target.key) ∈ pairs) :
    Upholds pairs (Catalog.get (.convertTo source target)) fun s =>
      s.key = convertToKey source.key target.key ∧ Stands pairs s := by
  have hidentity {p : StatKey × StatKey} (hp' : p ∈ pairs)
      (hkey : convertToKey source.key target.key = convertToKey p.1 p.2) :
      p = (source.key, target.key) := by
    obtain ⟨hs, ht⟩ := eq_of_convertToKey_eq (h.nested _ hp) (h.nested p hp') hkey
    exact Prod.ext hs.symm (h.ids p hp' _ hp ht.symm)
  refine stat ((behavior (named_base h hp _)).bind fun base hbase =>
    (behavior (named_paths h hp _)).bind fun paths hpaths =>
    (behavior (named_rest h hp _)).bind fun rest hrest =>
    (behavior (named_share h hp _)).bind fun share hshare => .of_pure ⟨rfl, ⟨fun p hp' hkey => ?_,
      fun p hp' hkey => ?_⟩⟩)
  · rw [hidentity hp' hkey]
    exact ⟨base, paths, rest, share, rfl, hbase.base _ hp rfl, hpaths.paths _ hp rfl,
      hrest.rest _ hp rfl, hshare.share _ hp rfl⟩
  · exact absurd hkey (convertToKey_ne_gainAsKey (h.nested _ hp) (h.nested p hp'))

/-- Asking for a gain answers with the gain. -/
theorem gainAs {source target : Stat N} (hp : (source.key, target.key) ∈ pairs) :
    Upholds pairs (Catalog.get (.gainAs source target)) fun s =>
      s.key = gainAsKey source.key target.key ∧ Stands pairs s := by
  refine stat ((behavior (named_base h hp _)).bind fun base hbase =>
    (behavior (named_paths h hp _)).bind fun paths hpaths => .of_pure ⟨rfl, ⟨fun p hp' hkey => ?_,
      fun p hp' hkey => ?_⟩⟩)
  · exact absurd hkey.symm (convertToKey_ne_gainAsKey (h.nested p hp') (h.nested _ hp))
  · obtain ⟨hs, ht⟩ := eq_of_gainAsKey_eq (h.nested _ hp) (h.nested p hp') hkey
    obtain rfl : p = (source.key, target.key) := Prod.ext hs.symm (h.ids p hp' _ hp ht.symm)
    exact ⟨base, paths, rfl, hbase.base _ hp rfl, hpaths.paths _ hp rfl⟩

/-- Every request is answered with the stat it names, and what has the identity of a conversion or a gain
is that conversion or gain. -/
theorem get (request : MetaStat N) (hp : ∀ r ∈ request.related?, r.2 ∈ pairs) :
    Upholds pairs (Catalog.get request) fun s => s.key = request.key ∧ Stands pairs s := by
  cases request with
  | convertTo source target => exact convertTo h (hp _ rfl)
  | gainAs source target => exact gainAs h (hp _ rfl)
  | conversion source | baseSetEffectiveness entity | baseAddEffectiveness entity =>
    exact plainStat (by simp [MetaStat.key, StatKey.child]) (.of_pure rfl)
  | skillConversion source =>
    exact plainStat (by simp [MetaStat.key, StatKey.child])
      ((ownBehavior (by decide) (by decide)).bind fun _ _ => .of_pure rfl)
  | regen entity pool =>
    exact plainStat (by simp [MetaStat.key])
      ((ownBehavior (by decide) (by decide)).bind fun _ _ => .of_pure rfl)
  | regenTarget entity pool | ailmentDamageType entity ailment =>
    exact plainStat (by simp [MetaStat.key]) (.of_pure rfl)
  | requirement stat =>
    exact plainStat (by simp [MetaStat.key, StatKey.child])
      ((ownBehavior (by decide) (by decide)).bind fun _ _ => .of_pure rfl)
  | itemProperty stat slot =>
    exact plainStat (by cases slot <;> simp [MetaStat.key, StatKey.child, Slot.name])
      ((ownBehavior (by decide) (by decide)).bind fun _ _ => .of_pure rfl)
  | activeSkillSlot entity skill =>
    exact plainStat (by simp [MetaStat.key])
      ((ownBehavior (by decide) (by decide)).bind fun _ _ => .of_pure rfl)
  | hitDamage entity damage => exact hitDamage entity damage
  | ailmentDamage entity damage ailment =>
    exact plainStat (by cases ailment <;> simp [MetaStat.key, Ailment.name])
      ((hitDamage entity damage).bind fun _ _ =>
        (ownBehavior (by decide) (by decide)).bind fun _ _ =>
        (ownBehavior (by decide) (by decide)).bind fun _ _ =>
        (ownBehavior (by decide) (by decide)).bind fun _ _ => .of_pure rfl)
  | affectedBy affected other form =>
    have hname : "AffectedByModifiersTo(" ++ affected.key.text ++ "," ++ other.key.text ++ ","
          ++ form.name ++ ")"
        = called "AffectedByModifiersTo"
            (affected.key.text ++ "," ++ other.key.text ++ "," ++ form.name) := by
      rw [called, ← String.toList_inj]
      simp
    have hid : (affectedByKey affected.key other.key form).id.toList
        = (affected.key.id ++ ".AffectedByModifiersTo(" ++ other.key.id ++ ")").toList
          ++ '.' :: form.name.toList := by
      simp [affectedByKey, StatKey.child]
    refine plainStat (fun hlast => ?_) ((behavior ?_).bind fun _ _ => .of_pure rfl)
    · change (affectedByKey affected.key other.key form).id.toList.getLast? = _ at hlast
      rw [hid, List.getLast?_append] at hlast
      cases form <;> simp [Form.name] at hlast
    · rw [hname]
      exact named_other (by decide) (by decide)

/-- So is every request of several. -/
theorem mapM_get (requests : List (MetaStat N))
    (hpairs : ∀ request ∈ requests, ∀ r ∈ request.related?, r.2 ∈ pairs) :
    Upholds pairs (requests.mapM Catalog.get)
      (List.Forall₂ (fun request s => s.key = request.key ∧ Stands pairs s) requests) := by
  induction requests with
  | nil => exact .of_pure .nil
  | cons request requests ih =>
    rw [List.mapM_cons]
    refine (get h request (hpairs request List.mem_cons_self)).bind fun s hs => ?_
    refine (ih fun r hr => hpairs r (List.mem_cons_of_mem request hr)).bind fun stats hstats => ?_
    exact .of_pure (.cons hs hstats)

end Requests

end Upholds

theorem sound_empty (pairs : List (StatKey × StatKey)) : Sound pairs (Catalog.empty : Catalog N) :=
  ⟨nofun, nofun⟩

/-- Requests of one mechanic for different arguments have different identities. -/
theorem eq_of_key_eq {pairs : List (StatKey × StatKey)} (h : Legible pairs) {request request' : MetaStat N}
    {mechanic : String} {p q : StatKey × StatKey} (hp : request.related? = some (mechanic, p))
    (hq : request'.related? = some (mechanic, q)) (hpmem : p ∈ pairs) (hqmem : q ∈ pairs)
    (hkey : request.key = request'.key) : p = q := by
  have hpair (hs : p.1 = q.1 ∧ p.2.id = q.2.id) : p = q :=
    Prod.ext hs.1 (h.ids p hpmem q hqmem hs.2)
  have hnested := h.nested p hpmem
  have hnested' := h.nested q hqmem
  cases request <;> simp only [MetaStat.related?, Option.some.injEq, Prod.mk.injEq, reduceCtorEq] at hp
  all_goals
    obtain ⟨rfl, rfl⟩ := hp
    cases request' <;> simp [MetaStat.related?] at hq
    subst hq
  · exact hpair (eq_of_convertToKey_eq hnested hnested' hkey)
  · exact hpair (eq_of_gainAsKey_eq hnested hnested' hkey)
  · exact hpair (eq_of_affectedByKey_eq hnested hnested' hkey)

/-- The arguments of all requests for conversions, gains and shared modifiers. -/
def arguments (requests : List (MetaStat N)) : List (StatKey × StatKey) :=
  requests.filterMap fun request => request.related?.map (·.2)

/-- Whatever a catalog was asked for: two answers to requests of one mechanic for different arguments are
different stats, and the behaviors of a conversion or a gain are those of its source and its target, if
the arguments can be told from what is spelled. -/
theorem stands_for_arguments {requests : List (MetaStat N)} (h : Legible (arguments requests))
    {stats : List (Stat N)} {c : Catalog N}
    (hmade : (requests.mapM Catalog.get).run Catalog.empty = (stats, c)) :
    (∀ a ∈ requests.zip stats, ∀ b ∈ requests.zip stats, ∀ mechanic p q,
      a.1.related? = some (mechanic, p) → b.1.related? = some (mechanic, q) → p ≠ q →
        a.2.key ≠ b.2.key)
    ∧ (∀ source target stat, (MetaStat.convertTo source target, stat) ∈ requests.zip stats →
        Converts source.key target.key stat)
    ∧ ∀ source target stat, (MetaStat.gainAs source target, stat) ∈ requests.zip stats →
        Gains source.key target.key stat := by
  have hmem {request : MetaStat N} {r : String × StatKey × StatKey} (hrequest : request ∈ requests)
      (hr : request.related? = some r) : r.2 ∈ arguments requests :=
    List.mem_filterMap.mpr ⟨request, hrequest, by rw [hr]; rfl⟩
  have hall := (Upholds.mapM_get h requests (fun _ hrequest _ hr => hmem hrequest hr) .empty
    (sound_empty _)).1
  change List.Forall₂ _ requests ((requests.mapM Catalog.get).run Catalog.empty).1 at hall
  rw [hmade] at hall
  have hzip {a : MetaStat N × Stat N} (ha : a ∈ requests.zip stats) :
      a.2.key = a.1.key ∧ Stands (arguments requests) a.2 := List.forall₂_zip hall ha
  refine ⟨fun a ha b hb mechanic p q hp hq hne heq => hne ?_, fun source target stat hstat => ?_,
    fun source target stat hstat => ?_⟩
  · refine eq_of_key_eq h hp hq (hmem (List.of_mem_zip ha).1 hp) (hmem (List.of_mem_zip hb).1 hq) ?_
    rw [← (hzip ha).1, ← (hzip hb).1, heq]
  · exact (hzip hstat).2.convertTo (source.key, target.key)
      (hmem (r := (_, _)) (List.of_mem_zip hstat).1 rfl) (hzip hstat).1
  · exact (hzip hstat).2.gainAs (source.key, target.key)
      (hmem (r := (_, _)) (List.of_mem_zip hstat).1 rfl) (hzip hstat).1

/-- Three stats of the character, each converted to the next one, the first of them also gained as the
second. -/
theorem stands_for_arguments_chain : ∃ (s t u : Stat ℚ) (c : Catalog ℚ),
    ([.convertTo (.plain ⟨"A", .character⟩) (.plain ⟨"B", .character⟩),
      .convertTo (.plain ⟨"B", .character⟩) (.plain ⟨"C", .character⟩),
      .gainAs (.plain ⟨"A", .character⟩) (.plain ⟨"B", .character⟩)].mapM Catalog.get).run
        Catalog.empty = ([s, t, u], c)
    ∧ s.key ≠ t.key ∧ Converts ⟨"A", .character⟩ ⟨"B", .character⟩ s
    ∧ Converts ⟨"B", .character⟩ ⟨"C", .character⟩ t ∧ Gains ⟨"A", .character⟩ ⟨"B", .character⟩ u := by
  let stat (id : String) : Stat ℚ := .plain ⟨id, .character⟩
  let requests : List (MetaStat ℚ) := [.convertTo (stat "A") (stat "B"), .convertTo (stat "B") (stat "C"),
    .gainAs (stat "A") (stat "B")]
  have hlegible : Legible (arguments requests) :=
    ⟨fun p hp => .of_notMem (by revert p; decide) (by revert p; decide), by decide, by decide, by decide,
      by decide⟩
  obtain ⟨s, t, u, c, hmade⟩ : ∃ s t u c,
      (requests.mapM Catalog.get).run Catalog.empty = ([s, t, u], c) := ⟨_, _, _, _, rfl⟩
  obtain ⟨hne, hconverts, hgains⟩ := stands_for_arguments hlegible hmade
  have hs : (requests[0], s) ∈ requests.zip [s, t, u] := by simp [requests]
  have ht : (requests[1], t) ∈ requests.zip [s, t, u] := by simp [requests]
  have hu : (requests[2], u) ∈ requests.zip [s, t, u] := by simp [requests]
  exact ⟨s, t, u, c, hmade, hne _ hs _ ht _ _ _ rfl rfl (by decide),
    hconverts (stat "A") (stat "B") s hs, hconverts (stat "B") (stat "C") t ht,
    hgains (stat "A") (stat "B") u hu⟩

/-- Conversions to a stat of the character and to the stat of the enemy with the same identity are one
stat, and it converts to the stat of the character. -/
theorem entities_not_told : ∃ (s t : Stat ℚ) (c : Catalog ℚ),
    ([.convertTo (.plain ⟨"A", .character⟩) (.plain ⟨"B", .character⟩),
      .convertTo (.plain ⟨"A", .character⟩) (.plain ⟨"B", .enemy⟩)].mapM Catalog.get).run
        Catalog.empty = ([s, t], c)
    ∧ s.key = t.key
    ∧ t.behaviors.any (·.affects ⟨⟨"B", .character⟩, .base, ⟨.global, [⟨"A", .character⟩]⟩⟩) = true
    ∧ t.behaviors.any (·.affects ⟨⟨"B", .enemy⟩, .base, ⟨.global, [⟨"A", .character⟩]⟩⟩) = false :=
  ⟨_, _, _, rfl, rfl, rfl, rfl⟩

end Naming

end StatEngine
