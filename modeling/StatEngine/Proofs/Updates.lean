import StatEngine.Calculator
import StatEngine.Proofs.Batches
import StatEngine.Proofs.Passes

/-!
# Updates

An update takes modifiers back and registers others, in one batch, and may remove what is unused then.
Whatever order that happens in, the modifiers that are on file afterwards are those that are left of the
registered ones and those that were added, in the order they were registered (`registered`).

## Main definitions

* `Update.apply`: what an update does to a list of registered modifiers;
* `registered`: what is to be on file for a list of modifiers;
* `Network.Updates`: what an update does to a network.

## Main statements

* `inv_empty`: the invariant holds of a network without nodes;
* `leads_update`: an update has a result, keeps the invariant, and does what it should.
-/

namespace StatEngine

open Network

variable {N : Type}

/-! ## Lists of modifiers -/

section Lists

variable {α : Type} {q : α → Bool} {a : α}

/-- Erasing as many entries as there are at the beginning erases those. -/
theorem iterate_eraseP_replicate_self (h : q a) (l : List α) :
    ∀ c, (List.eraseP q)^[c] (List.replicate c a ++ l) = l
  | 0 => rfl
  | c + 1 => by
    rw [Function.iterate_succ_apply, List.replicate_succ, List.cons_append, List.eraseP_cons_of_pos h]
    exact iterate_eraseP_replicate_self h l c

/-- Entries that are not to be erased are passed over. -/
theorem iterate_eraseP_replicate_append (h : ¬ q a) (k : Nat) (l : List α) (c : Nat) :
    (List.eraseP q)^[c] (List.replicate k a ++ l) = List.replicate k a ++ (List.eraseP q)^[c] l := by
  induction c generalizing l with
  | zero => rfl
  | succ c ih =>
    rw [Function.iterate_succ_apply, Function.iterate_succ_apply, List.eraseP_append_right, ih]
    intro b hb
    rwa [List.eq_of_mem_replicate hb]

end Lists

namespace Modifier

/-- How often a modifier is registered for a form on a path of a stat, if it is registered for stats with
the given keys. -/
def copies (m : Modifier N) (keys : List StatKey) (key : StatKey) (form : Form) (path : PathKey) : Nat :=
  if form = m.form ∧ path = m.path.key then keys.count key else 0

theorem copies_cons (m : Modifier N) (k : StatKey) (keys : List StatKey) (key : StatKey) (form : Form)
    (path : PathKey) : m.copies (k :: keys) key form path = m.copies keys key form path
      + if key = k ∧ form = m.form ∧ path = m.path.key then 1 else 0 := by
  simp only [copies, List.count_cons, beq_iff_eq]
  grind

theorem same_iff {a b : Modifier N} : a.same b ↔ a.stats.map Stat.key = b.stats.map Stat.key
    ∧ a.form = b.form ∧ a.identity = b.identity ∧ a.source.source = b.source.source := by
  simp [same, LabeledSource.alike, and_assoc]

/-- Modifiers that are the same are registered alike. -/
theorem copies_eq_of_same {a b : Modifier N} (h : a.same b) :
    a.copies (a.stats.map Stat.key) = b.copies (b.stats.map Stat.key) := by
  obtain ⟨hstats, hform, -, hsource⟩ := same_iff.mp h
  funext key form path
  rw [copies, copies, hstats, hform, Modifier.path, Modifier.path, hsource]

end Modifier

/-- What is to be on file for modifiers that are registered in order: for each stat of a modifier the
modifier is there once. -/
def registered (modifiers : List (Modifier N)) (key : StatKey) (form : Form) (path : PathKey) :
    List (Modifier N) :=
  modifiers.flatMap fun m => List.replicate (m.copies (m.stats.map Stat.key) key form path) m

theorem registered_append (modifiers modifiers' : List (Modifier N)) (key : StatKey) (form : Form)
    (path : PathKey) : registered (modifiers ++ modifiers') key form path
      = registered modifiers key form path ++ registered modifiers' key form path :=
  List.flatMap_append

/-- Taking all registrations of a modifier back leaves those of the others. -/
theorem registered_eraseP (x : Modifier N) (modifiers : List (Modifier N)) (key : StatKey) (form : Form)
    (path : PathKey) : registered (modifiers.eraseP (·.same x)) key form path
      = (List.eraseP (·.same x))^[x.copies (x.stats.map Stat.key) key form path]
        (registered modifiers key form path) := by
  induction modifiers with
  | nil => exact (Function.iterate_fixed rfl _).symm
  | cons m modifiers ih =>
    have hcons : registered (m :: modifiers) key form path = List.replicate
        (m.copies (m.stats.map Stat.key) key form path) m ++ registered modifiers key form path :=
      List.flatMap_cons
    rw [hcons]
    by_cases hsame : m.same x
    · rw [List.eraseP_cons_of_pos (p := (Modifier.same · x)) hsame, ← Modifier.copies_eq_of_same hsame,
        iterate_eraseP_replicate_self (q := (Modifier.same · x)) hsame]
    · rw [List.eraseP_cons_of_neg (p := (Modifier.same · x)) hsame,
        iterate_eraseP_replicate_append (q := (Modifier.same · x)) hsame, ← ih]
      exact List.flatMap_cons

/-- The paths of a stat after a modifier was registered for stats with the given keys. -/
def Modifier.pathsWith (m : Modifier N) (keys : List StatKey) (key : StatKey)
    (paths : List (Path (Stat N))) : List (Path (Stat N)) :=
  if key ∈ keys ∧ m.path.isIn paths = false then paths ++ [m.path] else paths

theorem Modifier.pathsWith_cons (m : Modifier N) (k : StatKey) (keys : List StatKey) (key : StatKey)
    (paths : List (Path (Stat N))) : m.pathsWith (k :: keys) key paths = m.pathsWith keys key
      (if key = k ∧ m.path.isIn paths = false then paths ++ [m.path] else paths) := by
  have hself : m.path.isIn (paths ++ [m.path]) = true := by simp [Path.isIn, Path.same]
  simp only [pathsWith, List.mem_cons]
  grind

/-- The paths of a stat after modifiers were registered in order. -/
def pathsWith (modifiers : List (Modifier N)) (key : StatKey) (paths : List (Path (Stat N))) :
    List (Path (Stat N)) :=
  modifiers.foldl (fun paths m => m.pathsWith (m.stats.map Stat.key) key paths) paths

/-- What is left of registered modifiers after an update, and what comes after them. -/
def Update.apply (u : Update N) (modifiers : List (Modifier N)) : List (Modifier N) :=
  u.removed.foldl (fun modifiers m => modifiers.eraseP (·.same m)) modifiers ++ u.added

/-- A modifier that may be registered: its stats may be used next to those of a scope, and its formula
reads totals of the scope. -/
structure Scope.Allows (sc : Scope N) (m : Modifier N) : Prop where
  stats : ∀ s ∈ m.stats, sc.Admits s
  reads : m.formula.ReadsTotals (· ∈ sc.stats)

/-- A modifier that a regime admits. -/
structure Regime.Allows (sc : Regime N) (m : Modifier N) : Prop where
  stats : ∀ s ∈ m.stats, sc.Admits s
  path : sc.HasPath m.path
  formula : sc.HasFormula m.formula

theorem Scope.Allows.regime {sc : Scope N} {m : Modifier N} (h : sc.Allows m) : sc.regime.Allows m :=
  ⟨h.stats, rfl, h.reads⟩

namespace Registry

/-- Registrations of a modifier for stats with the given keys come after those that are on file. -/
def Appends (r r' : Registry N) (m : Modifier N) (keys : List StatKey) : Prop :=
  ∀ k f p, ∃ nodes : List Nat, nodes.length = m.copies keys k f p
    ∧ r'.members k f p = r.members k f p ++ nodes.map fun i => (i, m)

theorem Appends.modifiers {r r' : Registry N} {m : Modifier N} {keys : List StatKey}
    (h : r.Appends r' m keys) (k : StatKey) (f : Form) (p : PathKey) : r'.inputs.modifiers k f p
      = r.inputs.modifiers k f p ++ List.replicate (m.copies keys k f p) m := by
  obtain ⟨nodes, hlength, hmembers⟩ := h k f p
  simp only [Registry.inputs]
  rw [hmembers, List.map_append, List.map_map, ← hlength]
  congr 1
  exact List.map_const' ..

/-- The oldest registrations of a modifier for stats with the given keys go. -/
def Erases (r r' : Registry N) (m : Modifier N) (keys : List StatKey) : Prop :=
  ∀ k f p, r'.members k f p = (List.eraseP (·.2.same m))^[m.copies keys k f p] (r.members k f p)

theorem Erases.modifiers {r r' : Registry N} {m : Modifier N} {keys : List StatKey}
    (h : r.Erases r' m keys) (k : StatKey) (f : Form) (p : PathKey) : r'.inputs.modifiers k f p
      = (List.eraseP (·.same m))^[m.copies keys k f p] (r.inputs.modifiers k f p) := by
  have hmap (c : Nat) (l : List (Nat × Modifier N)) :
      ((List.eraseP (·.2.same m))^[c] l).map (·.2) = (List.eraseP (·.same m))^[c] (l.map (·.2)) := by
    induction c generalizing l with
    | zero => rfl
    | succ c ih =>
      rw [Function.iterate_succ_apply, ih, Function.iterate_succ_apply, List.eraseP_map]
      rfl
  simp only [Registry.inputs]
  rw [h, hmap]

/-- What registering modifiers in order does to what is on file. -/
structure GainsAll (r r' : Registry N) (added : List (Modifier N)) : Prop where
  modifiers : ∀ k f p, r'.inputs.modifiers k f p = r.inputs.modifiers k f p ++ registered added k f p
  paths : ∀ k, r'.paths k = pathsWith added k (r.paths k)
  stages : ∀ k e, r.stage? k = some e → r'.stage? k = some e

/-- What taking modifiers back in order does to what is on file. -/
structure LosesAll (r r' : Registry N) (removed : List (Modifier N)) : Prop where
  modifiers : ∀ mods, r.inputs.modifiers = registered mods → r'.inputs.modifiers
    = registered (removed.foldl (fun mods m => mods.eraseP (·.same m)) mods)
  paths : ∀ k, r'.paths k = r.paths k
  stages : ∀ k e, r.stage? k = some e → r'.stage? k = some e

theorem GainsAll.trans {r r' r'' : Registry N} {modifiers modifiers' : List (Modifier N)}
    (h : r.GainsAll r' modifiers) (h' : r'.GainsAll r'' modifiers') :
    r.GainsAll r'' (modifiers ++ modifiers') where
  modifiers k f p := by
    rw [h'.modifiers, h.modifiers, registered_append, List.append_assoc]
  paths k := by rw [h'.paths, h.paths, pathsWith, pathsWith, pathsWith, List.foldl_append]
  stages k e he := h'.stages k e (h.stages k e he)

theorem LosesAll.trans {r r' r'' : Registry N} {modifiers modifiers' : List (Modifier N)}
    (h : r.LosesAll r' modifiers) (h' : r'.LosesAll r'' modifiers') :
    r.LosesAll r'' (modifiers ++ modifiers') where
  modifiers mods hmods := by
    rw [List.foldl_append]
    exact h'.modifiers _ (h.modifiers mods hmods)
  paths k := (h'.paths k).trans (h.paths k)
  stages k e he := h'.stages k e (h.stages k e he)

end Registry

namespace Network

variable {A σ : Type} {sc : Regime N} {n m n' : Network N A σ} {tell : A → σ → σ}

/-- What an update does to a network. -/
structure Updates (tell : A → σ → σ) (n n' : Network N A σ) (u : Update N) : Prop where
  changes : n.Changes tell n'
  modifiers : ∀ mods, n.registry.inputs.modifiers = registered mods →
    n'.registry.inputs.modifiers = registered (u.apply mods)
  /-- Paths that are used no more may go. -/
  paths : ∀ k, (n'.registry.paths k).Sublist (pathsWith u.added k (n.registry.paths k))
  /-- Nodes on file that a host listens to stay on file. -/
  stages : ∀ k e, n.registry.stage? k = some e → n.callbacks (.changed e.cached) ≠ [] →
    n'.registry.stage? k = some e

/-- What taking a modifier back for several stats answers: whether it is registered for any of them. If
it is not, nothing happens. -/
structure TellsRemoval (n n' : Network N A σ) (modifier : Modifier N) (stats : List (Stat N))
    (removed : Bool) : Prop where
  unchanged : removed = false → n' = n
  removed_iff : removed = true ↔ ∃ stat ∈ stats,
    ∃ i ∈ n.registry.members stat.key modifier.form modifier.path.key, i.2.same modifier

/-- One more stat for which a modifier is taken back. -/
theorem TellsRemoval.cons {modifier : Modifier N} {stat : Stat N} {stats : List (Stat N)}
    {removed : Bool} {rest : List Bool} (h : m.TellsRemoval n' modifier stats (rest.any id))
    (hunchanged : removed = false → m = n) (hremoved : removed = true
      ↔ ∃ i ∈ n.registry.members stat.key modifier.form modifier.path.key, i.2.same modifier) :
    n.TellsRemoval n' modifier (stat :: stats) ((removed :: rest).any id) := by
  cases removed with
  | true =>
    -- one registration is enough
    refine ⟨by simp, fun _ => ⟨stat, List.mem_cons_self, hremoved.mp rfl⟩, by simp⟩
  | false =>
    obtain rfl := hunchanged rfl
    refine ⟨fun hrest => h.unchanged (by simpa using hrest), ?_⟩
    have hnone : ¬ ∃ i ∈ m.registry.members stat.key modifier.form modifier.path.key,
        i.2.same modifier := fun h => Bool.false_ne_true (hremoved.mpr h)
    rw [List.any_cons, id_eq, Bool.false_or, List.exists_mem_cons_iff, h.removed_iff, or_iff_right hnone]

/-- The keys include those that change when a modifier is registered for stats, or taken back. -/
def Covers (K : DependencyKey → Prop) (modifier : Modifier N) (stats : List (Stat N)) : Prop :=
  ∀ stat ∈ stats, K (.form stat.key modifier.form modifier.path.key) ∧ K (.paths stat.key)

theorem covers_cons {K : DependencyKey → Prop} {modifier : Modifier N} {stat : Stat N}
    {stats : List (Stat N)} : Covers K modifier (stat :: stats)
      ↔ (K (.form stat.key modifier.form modifier.path.key) ∧ K (.paths stat.key))
        ∧ Covers K modifier stats := List.forall_mem_cons

section Loops

variable [Number N] {host : Host N A σ} (hhost : host.Quiet tell)

include hhost

/-- Registering a modifier for several stats keeps the invariant. Where there are no behaviors, it spares
who does not depend on what changes. -/
theorem leads_addModifierToAll {modifier : Modifier N} (hpath : sc.HasPath modifier.path)
    (hhas : sc.HasFormula modifier.formula) : ∀ {stats : List (Stat N)}
      {n : Network N A σ}, n.Inv sc → n.Idle → (∀ s ∈ stats, sc.Admits s) →
      Leads True (stats.forM (addModifierTo host modifier)) n fun _ n' => n'.Inv sc
        ∧ n.Changes tell n'
        ∧ n.registry.Appends n'.registry modifier (stats.map Stat.key)
        ∧ (∀ k, n'.registry.paths k
          = modifier.pathsWith (stats.map Stat.key) k (n.registry.paths k))
        ∧ (∀ k e, n.registry.stage? k = some e → n'.registry.stage? k = some e)
        ∧ ((∀ s ∈ stats, s.behaviors = []) → n.installed = [] →
          ∀ K, n.Confines K → Covers K modifier stats → n.Spares K n')
  | [], n, hn, _, _ => by
    refine .of_pure ⟨hn, .refl n, fun k f p => ⟨[], ?_, by simp⟩, fun k => ?_, fun _ _ h => h,
      fun _ _ K _ _ => .refl K n⟩
    · simp [Modifier.copies]
    · simp [Modifier.pathsWith]
  | stat :: stats, n, hn, hidle, hadmits => by
    rw [List.forM_eq_forM, List.forM_cons]
    refine (leads_addModifierTo hhost hn hidle (hadmits stat List.mem_cons_self) hpath hhas).bind ?_
    rintro - n₁ ⟨hinv, hchanges, hgains, hspares⟩
    refine (leads_addModifierToAll hpath hhas hinv (hchanges.toProceeds.idle hidle) fun s hs =>
      hadmits s (List.mem_cons_of_mem stat hs)).weaken ?_
    rintro - n' ⟨hinv', hchanges', happends, hpaths, hstages, hspares'⟩
    refine ⟨hinv', hchanges.trans hchanges', fun k f p => ?_, fun k => ?_,
      fun k e he => hstages k e (hgains.stages k e he), fun hplain hnil K hK hcovers => ?_⟩
    · obtain ⟨node, hnode⟩ := hgains.members
      obtain ⟨nodes, hlength, hmembers⟩ := happends k f p
      rw [List.map_cons, Modifier.copies_cons, ← hlength, hmembers, hnode, List.append_assoc]
      split
      · exact ⟨node :: nodes, rfl, rfl⟩
      · exact ⟨nodes, rfl, rfl⟩
    · rw [hpaths, hgains.paths, List.map_cons, Modifier.pathsWith_cons]
    · obtain ⟨hstat, hplain⟩ := List.forall_mem_cons.mp hplain
      obtain ⟨⟨hform, hpath⟩, hcovers⟩ := covers_cons.mp hcovers
      have hspares₁ := hspares hstat hnil K hK hpath hform
      exact hspares₁.trans (hspares' hplain (hspares₁.installed.trans hnil) K (hspares₁.confines hK) hcovers)

/-- Registering a modifier keeps the invariant. -/
theorem leads_addModifier (hn : n.Inv sc) (hidle : n.Idle) {modifier : Modifier N}
    (hallows : sc.Allows modifier) : Leads True (addModifier host modifier) n fun _ n' => n'.Inv sc
      ∧ n.Changes tell n' ∧ n.registry.GainsAll n'.registry [modifier]
      ∧ n.registry.Appends n'.registry modifier (modifier.stats.map Stat.key)
      ∧ ((∀ s ∈ modifier.stats, s.behaviors = []) → n.installed = [] →
        ∀ K, n.Confines K → Covers K modifier modifier.stats → n.Spares K n') := by
  refine (leads_addModifierToAll hhost hallows.path hallows.formula hn hidle hallows.stats).weaken ?_
  rintro - n' ⟨hinv, hchanges, happends, hpaths, hstages, hspares⟩
  refine ⟨hinv, hchanges, ⟨fun k f p => ?_, hpaths, hstages⟩, happends, hspares⟩
  rw [happends.modifiers, registered, List.flatMap_singleton]

/-- Registering modifiers in order keeps the invariant. -/
theorem leads_addModifiers : ∀ {modifiers : List (Modifier N)} {n : Network N A σ}, n.Inv sc → n.Idle →
    (∀ modifier ∈ modifiers, sc.Allows modifier) →
    Leads True (modifiers.forM (addModifier host)) n fun _ n' => n'.Inv sc ∧ n.Changes tell n'
      ∧ n.registry.GainsAll n'.registry modifiers
  | [], n, hn, _, _ => .of_pure ⟨hn, .refl n, fun _ _ _ => (List.append_nil _).symm, fun _ => rfl,
      fun _ _ h => h⟩
  | modifier :: modifiers, n, hn, hidle, hallows => by
    rw [List.forM_eq_forM, List.forM_cons]
    refine (leads_addModifier hhost hn hidle (hallows modifier List.mem_cons_self)).bind ?_
    rintro - n₁ ⟨hinv, hchanges, hgains, -⟩
    refine (leads_addModifiers hinv (hchanges.toProceeds.idle hidle) fun x hx =>
      hallows x (List.mem_cons_of_mem modifier hx)).weaken ?_
    rintro - n' ⟨hinv', hchanges', hgains'⟩
    exact ⟨hinv', hchanges.trans hchanges', hgains.trans hgains'⟩

/-- Taking a modifier back for several stats keeps the invariant, and spares who does not depend on what
changes. -/
theorem leads_removeModifierFromAll {modifier : Modifier N} : ∀ {stats : List (Stat N)}
    {n : Network N A σ}, n.Inv sc → n.Idle →
    Leads True (stats.mapM (removeModifierFrom host modifier)) n fun removed n' => n'.Inv sc
      ∧ n.Changes tell n' ∧ n.registry.Erases n'.registry modifier (stats.map Stat.key)
      ∧ (∀ k, n'.registry.paths k = n.registry.paths k)
      ∧ (∀ k e, n.registry.stage? k = some e → n'.registry.stage? k = some e)
      ∧ n.TellsRemoval n' modifier stats (removed.any id)
      ∧ ∀ K, n.Confines K → Covers K modifier stats → n.Spares K n'
  | [], n, hn, _ => by
    refine .of_pure ⟨hn, .refl n, fun k f p => ?_, fun _ => rfl, fun _ _ h => h, ⟨fun _ => rfl, by simp⟩,
      fun K _ _ => .refl K n⟩
    simp [Modifier.copies]
  | stat :: stats, n, hn, hidle => by
    rw [List.mapM_cons]
    refine (leads_removeModifierFrom hhost hn hidle modifier stat).bind ?_
    rintro b n₁ ⟨hinv, hremoves⟩
    obtain ⟨hchanges, hloses, hunchanged, hremoved, hspares⟩ := hremoves
    refine (leads_removeModifierFromAll hinv (hchanges.toProceeds.idle hidle)).bind ?_
    rintro bs n' ⟨hinv', hchanges', herases, hpaths, hstages, hanswers, hspares'⟩
    refine .of_pure ⟨hinv', hchanges.trans hchanges', fun k f p => ?_,
      fun k => (hpaths k).trans (hloses.paths k), fun k e he => hstages k e (hloses.stages k e he),
      hanswers.cons hunchanged hremoved, fun K hK hcovers => ?_⟩
    · rw [herases, hloses.members, List.map_cons, Modifier.copies_cons]
      split
      · rw [Function.iterate_succ_apply]
      · rfl
    · obtain ⟨⟨hform, -⟩, hcovers⟩ := covers_cons.mp hcovers
      have hspares₁ := hspares K hK hform
      exact hspares₁.trans (hspares' K (hspares₁.confines hK) hcovers)

/-- Taking a modifier back keeps the invariant. -/
theorem leads_removeModifier (hn : n.Inv sc) (hidle : n.Idle) (modifier : Modifier N) :
    Leads True (removeModifier host modifier) n fun removed n' => n'.Inv sc ∧ n.Changes tell n'
      ∧ n.registry.LosesAll n'.registry [modifier]
      ∧ n.registry.Erases n'.registry modifier (modifier.stats.map Stat.key)
      ∧ n.TellsRemoval n' modifier modifier.stats removed
      ∧ ∀ K, n.Confines K → Covers K modifier modifier.stats → n.Spares K n' := by
  refine (leads_removeModifierFromAll hhost hn hidle).bind ?_
  rintro bs n' ⟨hinv, hchanges, herases, hpaths, hstages, hanswers, hspares⟩
  refine .of_pure ⟨hinv, hchanges, ⟨fun mods hmods => ?_, hpaths, hstages⟩, herases, hanswers, hspares⟩
  funext k f p
  rw [herases.modifiers, hmods]
  exact (registered_eraseP modifier mods k f p).symm

/-- Taking modifiers back in order keeps the invariant. -/
theorem leads_removeModifiers : ∀ {modifiers : List (Modifier N)} {n : Network N A σ}, n.Inv sc →
    n.Idle → Leads True (modifiers.forM fun modifier => do let _ ← removeModifier host modifier) n
      fun _ n' => n'.Inv sc ∧ n.Changes tell n' ∧ n.registry.LosesAll n'.registry modifiers
  | [], n, hn, _ => .of_pure ⟨hn, .refl n, fun _ h => h, fun _ => rfl, fun _ _ h => h⟩
  | modifier :: modifiers, n, hn, hidle => by
    rw [List.forM_eq_forM, List.forM_cons]
    rw [bind_assoc]
    refine (leads_removeModifier hhost hn hidle modifier).bind ?_
    rintro b n₁ ⟨hinv, hchanges, hloses, -⟩
    rw [pure_bind]
    refine (leads_removeModifiers hinv (hchanges.toProceeds.idle hidle)).weaken ?_
    rintro - n' ⟨hinv', hchanges', hloses'⟩
    exact ⟨hinv', hchanges.trans hchanges', hloses.trans hloses'⟩

end Loops

/-! ## Updates -/

section Update

variable {u : Update N}

/-- An update that has nothing to do does nothing. -/
theorem Updates.of_isEmpty (h : u.isEmpty) : n.Updates tell n u := by
  simp only [Update.isEmpty, Bool.and_eq_true, List.isEmpty_iff] at h
  refine ⟨.refl n, fun mods hmods => ?_, fun k => ?_, fun _ _ h _ => h⟩
  · rw [Update.apply, h.1, h.2, List.append_nil]
    exact hmods
  · rw [h.1]
    exact .refl _

/-- Removing what is unused after an update is part of the update. -/
theorem Updates.trim (h : n.Updates tell m u) {count : Nat}
    (htrims : m.Trims tell n' count) : n.Updates tell n' u where
  changes := h.changes.trans htrims.changes
  modifiers mods hmods := by
    rw [← h.modifiers mods hmods]
    funext k f p
    exact congrArg (List.map (·.2)) (htrims.members k f p)
  paths k := (htrims.paths k).trans (h.paths k)
  stages k e he hheard := by
    refine htrims.stages k e (h.stages k e he hheard) ?_
    rwa [h.changes.callbacks]

variable [Number N] {host : Host N A σ} (hhost : host.Quiet tell)

include hhost

/-- The batch of an update keeps the invariant, and does what the update should. -/
theorem leads_updateBatch (hn : n.Inv sc) (hidle : n.Idle) (hcalm : n.Calm)
    (hallows : ∀ modifier ∈ u.added, sc.Allows modifier) :
    Leads True (batch host do
        for modifier in u.removed do
          let _ ← removeModifier host modifier
        for modifier in u.added do
          addModifier host modifier) n fun _ n' => n'.Inv sc ∧ n.Updates tell n' u := by
  simp only [forIn_eq_forM, bind_pure_unit]
  have hbatch : Leads True (batch host do
      u.removed.forM fun modifier => do let _ ← removeModifier host modifier
      u.added.forM (addModifier host)) n fun _ n' => n'.Inv sc ∧ n.Changes tell n'
      ∧ ∃ r, n.registry.LosesAll r u.removed ∧ r.GainsAll n'.registry u.added := by
    refine leads_batch hhost
      (fun _ r' => ∃ r, n.registry.LosesAll r u.removed ∧ r.GainsAll r' u.added) hcalm ?_
    have hbuffered := hn.withBuffer { n.buffer with depth := 1 } n.host
    refine (leads_removeModifiers hhost hbuffered hidle).bind ?_
    rintro - n₁ ⟨hinv, hchanges, hloses⟩
    refine (leads_addModifiers hhost hinv (hchanges.toProceeds.idle hidle) hallows).weaken ?_
    rintro - n₂ ⟨hinv₂, hchanges₂, hgains⟩
    exact ⟨hinv₂, hchanges.trans hchanges₂, n₁.registry, hloses, hgains⟩
  refine hbatch.weaken ?_
  rintro - n' ⟨hinv, hchanges, r, hloses, hgains⟩
  refine ⟨hinv, hchanges, fun mods hmods => ?_, fun k => ?_, fun k e he _ =>
    hgains.stages k e (hloses.stages k e he)⟩
  · funext k f p
    rw [hgains.modifiers, hloses.modifiers mods hmods, Update.apply, registered_append]
  · rw [hgains.paths, hloses.paths]

/-- An update has a result, keeps the invariant, and does what it should. -/
theorem leads_update (hn : n.Inv sc) (hidle : n.Idle) (hcalm : n.Calm) (settings : Settings)
    (hallows : ∀ modifier ∈ u.added, sc.Allows modifier) :
    Leads True (Calculator.update host settings u) n fun _ n' => n'.Inv sc ∧ n.Updates tell n' u := by
  rw [Calculator.update]
  split
  next hempty => exact .of_pure ⟨hn, .of_isEmpty hempty⟩
  · refine (leads_updateBatch hhost hn hidle hcalm hallows).bind ?_
    rintro - m ⟨hinv, hupdates⟩
    split
    · refine (leads_removeUnused hhost hinv (hupdates.changes.toProceeds.idle hidle)).bind ?_
      rintro count n' ⟨hinv', htrims, -⟩
      exact .of_pure ⟨hinv', hupdates.trim htrims⟩
    · exact .of_pure ⟨hinv, hupdates⟩

end Update

/-! ## The start -/

section Empty

variable (sc : Regime N) (buffered : Bool) (catalog : Option (Catalog N)) (state : σ)

theorem body?_empty (id : Nat) :
    (empty buffered catalog state : Network N A σ).body? id = none := by
  simp [body?, empty]

theorem listeners_empty (t : Topic) :
    (empty buffered catalog state : Network N A σ).listeners t = [] := by
  cases t <;> simp [listeners, cached?, empty]

theorem graph?_empty (key : StatKey) :
    (empty buffered catalog state : Network N A σ).registry.graph? key = none := rfl

/-- The invariant holds of a network without nodes. -/
theorem inv_empty [Number N] : (empty buffered catalog state : Network N A σ).Inv sc := by
  have hbody := body?_empty (A := A) buffered catalog state
  have hlisteners := listeners_empty (A := A) buffered catalog state
  have hgraph := graph?_empty (A := A) buffered catalog state
  have hregistry : (empty buffered catalog state : Network N A σ).registry.installed = []
    ∧ (empty buffered catalog state : Network N A σ).registry.registrations = []
    ∧ (empty buffered catalog state : Network N A σ).registry.listed = []
    ∧ (empty buffered catalog state : Network N A σ).registry.live = []
    ∧ ∀ c, (empty buffered catalog state : Network N A σ).registry.items c = [] := by
    simp [registry, empty]
  have hsize : (empty buffered catalog state : Network N A σ).nodes.size = 0 := rfl
  have hreleased : (empty buffered catalog state : Network N A σ).released = false := rfl
  generalize (empty buffered catalog state : Network N A σ) = n at *
  obtain ⟨hinstalled, hregistrations, hlisted, hlive, hitems⟩ := hregistry
  have hstage (k : NodeKey) : n.registry.stage? k = none := by simp [Registry.stage?, hgraph]
  have hform (k : StatKey) (f : Form) (p : PathKey) : n.registry.form? k f p = none := by
    simp [Registry.form?, hgraph]
  have hpaths (k : StatKey) : n.registry.paths k = [] := by simp [Registry.paths, hgraph]
  have hheld (id : Nat) : n.held id = [] := by simp [held, hbody]
  have hkind (id : Nat) : n.kind? id = none := by simp [kind?, hbody]
  have hflags (id : Nat) : n.flags? id = none := by simp [flags?, hbody]
  have hdenotes {id : Nat} {φ : Formula N} {p : Path (Stat N)} : ¬ n.Denotes sc id φ p := by
    rintro (⟨he, -, -⟩ | ⟨-, he, -⟩)
    · simp [hstage] at he
    · simp [hform] at he
  refine {
    wired := ⟨⟨?_, ?_⟩, ⟨?_, ?_, ?_, ?_⟩, ?_, ?_, ?_, ?_, ?_, fun _ => .of_held (hheld _), ?_⟩
    orderly := ?_
    listed := ⟨by simp [hlisted], by simp [hlisted]⟩
    lit := ⟨?_, ?_, ?_, ?_⟩
    sound := fun _ _ _ _ hd => (hdenotes hd).elim
    blocked := fun _ _ _ hd => (hdenotes hd).elim
    unreleased := hreleased
    counted := by simp [Registry.Counted, hgraph] }
  case refine_13 =>
    constructor <;> simp [hgraph, hstage, hform, hpaths, hlive, hitems, hinstalled, hregistrations]
  all_goals simp [hlisteners, hheld, hkind, hflags, hstage, hform, hgraph, value?, isObserved]

theorem idle_empty : (empty buffered catalog state : Network N A σ).Idle := by
  intro c
  simp [isEntered, flags?, body?, empty]

theorem calm_empty : (empty buffered catalog state : Network N A σ).Calm := ⟨rfl, rfl⟩

theorem unwatched_empty : (empty buffered catalog state : Network N A σ).Unwatched := by
  intro topic htopic
  rw [callbacks, listeners_empty] at htopic
  exact absurd rfl htopic

end Empty

end Network

end StatEngine
