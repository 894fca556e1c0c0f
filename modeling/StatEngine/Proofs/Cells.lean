import StatEngine.Proofs.Directory

/-!
# Cells

A value is computed by three nodes in a row: one that evaluates a formula, one that keeps the value, and
one that is shown to others. Such a cell belongs to a stage of a stat on a path, or to a modifier in a
collection, and the registry knows it by its first node. Cells are told of changes of what they read:
whoever reads a cell hears of its changes.

## Main definitions

* `HasCell`, `StageCell` and `FormCell`: the nodes of a cell, of a stage, and of a collection;
* `Made`: what a node may be made for;
* `Wired`: all that the registry knows of is there and connected;
* `Denotes`: what a cell is to compute.

## Main statements

* `Wired.hears_of_under`: a formula hears of the changes of every cell it read.
-/

namespace StatEngine.Network

variable {N A σ : Type} {sc : Regime N}

/-- The nodes of a cell. -/
structure HasCell (n : Network N A σ) (id : Nat) (source : FormulaSource N) (path : Path (Stat N)) :
    Prop where
  formula : n.kind? id = some (.formula source path)
  cached : n.kind? (id + 1) = some (.cached id)
  exposed : n.kind? (id + 2) = some (.exposed (id + 1))
  told : ∃ s ∈ n.held (id + 1), s.topic = .changed id
  present : n.isPresent (.changed id)

/-- The nodes of a stage on a path. No layers are on the formulas of a stat that is left alone. -/
structure StageCell (sc : Regime N) (n : Network N A σ) (k : NodeKey) (e : NodeEntry N) : Prop where
  cached : e.cached = e.formula + 1
  exposed : e.exposed = e.formula + 2
  cell : ∃ l g layers, n.HasCell e.formula (.layered l) e.path
    ∧ n.registry.graph? k.stat = some g
    ∧ n.registry.layering l = some (.stage g.stat k.stage, layers)
    ∧ (sc.Bare g.stat → layers = [])

/-- The nodes of a collection. It has one follower, which follows every member. -/
structure FormCell (sc : Regime N) (n : Network N A σ) (e : FormEntry N) : Prop where
  kind : n.kind? e.aggregate = some (.aggregate e.collection e.form)
  topic : n.hasTopic (.members e.collection)
  follower : ∃ token, n.listeners (.members e.collection) = [⟨token, .follow e.aggregate⟩]
  followed : (n.followed e.aggregate).map (·.1) = (n.registry.items e.collection).map (·.1)
  followed_topic : ∀ d ∈ n.followed e.aggregate, ∃ id, d.1 = id + 2 ∧ d.2.topic = .received (id + 1)
  members : ∀ i ∈ n.registry.items e.collection, i.2.form = e.form ∧ i.2.path = e.path
    ∧ sc.HasFormula i.2.formula
    ∧ ∃ id, i.1 = id + 2 ∧ n.HasCell id (.plain i.2.formula) i.2.path

/-- A dependency is on file where it was recorded. The paths of a stat that was dropped are on file
nowhere. -/
def Filed (n : Network N A σ) (key : DependencyKey) (topic : Topic) : Prop :=
  n.registry.topic? key = some topic ∨ ∃ k set, key = .paths k ∧ topic = .paths set
    ∧ ∀ k' g, n.registry.graph? k' = some g → g.paths ≠ set

/-- What a node is attached to is accounted for: a formula recorded it, an aggregate follows it, or
the node was made with it. -/
structure Traced (n : Network N A σ) (id : Nat) : Prop where
  noted : n.IsFormula id → ∀ s ∈ n.held id,
    (∃ l, s.topic = .layers l) ∨ ∃ key, (key, s) ∈ n.recorded id
  joined : n.IsAggregate id → ∀ s ∈ n.held id,
    (∃ c, s.topic = .members c) ∨ ∃ i, (i, s) ∈ n.followed id
  filed : ∀ d ∈ n.recorded id, n.Filed d.1 d.2.topic

/-- The formulas that nodes may be made for: those of modifiers, and the stages of stats. -/
def Voices (sc : Regime N) (n : Network N A σ) : FormulaSource N → Prop
  | .plain φ => sc.HasFormula φ
  | .layered l => ∃ s stage layers, n.registry.layering l = some (.stage s stage, layers)
    ∧ sc.Admits s ∧ (sc.Bare s → layers = [])

/-- What a node may be made for, whether it is on file or not: to evaluate what a regime admits, or to
keep the value of a formula. -/
def Made (sc : Regime N) (n : Network N A σ) : Kind N A → Prop
  | .formula source path => sc.HasPath path ∧ n.Voices sc source
  | .cached i => n.IsFormula i
  | _ => True

/-- What a node is made for stays if nodes do, and if the formulas that are left alone keep their
layers. -/
theorem Made.mono {n n' : Network N A σ} {kind : Kind N A} (h : n.Made sc kind)
    (hkind : ∀ id kind, n.kind? id = some kind → n'.kind? id = some kind)
    (hlayering : ∀ l s stage layers, n.registry.layering l = some (.stage s stage, layers) →
      ∃ layers', n'.registry.layering l = some (.stage s stage, layers')
        ∧ (sc.Bare s → layers' = layers)) : n'.Made sc kind := by
  cases kind with
  | formula source path =>
    refine h.imp_right fun hvoices => ?_
    cases source with
    | plain φ => exact hvoices
    | layered l =>
      obtain ⟨s, stage, layers, hl, hadmits, hbare⟩ := hvoices
      obtain ⟨layers', hl', hsame⟩ := hlayering l s stage layers hl
      exact ⟨s, stage, layers', hl', hadmits, fun hs => (hsame hs).trans (hbare hs)⟩
  | cached i =>
    obtain ⟨source, path, hi⟩ := h
    exact ⟨source, path, hkind i _ hi⟩
  | _ => trivial

/-- The nodes of all that is on file are there and connected. -/
structure Wired (sc : Regime N) (n : Network N A σ) : Prop where
  typed : n.Typed
  ledger : n.Ledger
  stages : ∀ k e, n.registry.stage? k = some e → n.StageCell sc k e
  forms : ∀ k f p e, n.registry.form? k f p = some e → n.FormCell sc e
  sets : ∀ k g, n.registry.graph? k = some g →
    n.hasTopic (.paths g.paths) ∧ n.isPresent (.paths g.paths)
  /-- Values are kept next to where they are computed. -/
  next : ∀ c i, n.kind? c = some (.cached i) → c = i + 1
  made : ∀ id kind, n.kind? id = some kind → n.Made sc kind
  traced : ∀ id, n.Traced id
  /-- Where stats are followed, the paths of a stat matter to the sum over them, and to nothing else. -/
  path_held : sc.Follows → ∀ key g, n.registry.graph? key = some g → ∀ id, ∀ s ∈ n.held id,
    s.topic = .paths g.paths →
    ∃ e, n.registry.stage? ⟨key, .uncappedSubtotal, Path.main⟩ = some e ∧ e.formula = id

/-! ## What cells compute -/

/-- What a cell is to compute: a stage of a stat that is followed, or the formula of a modifier where
stats are followed. -/
inductive Denotes (sc : Regime N) (n : Network N A σ) : Nat → Formula N → Path (Stat N) → Prop where
  | stage {k : NodeKey} {e : NodeEntry N} {s : Stat N} (he : n.registry.stage? k = some e)
    (hs : s ∈ sc.stats) (hk : s.key = k.stat) : Denotes sc n e.formula (.stage s k.stage) e.path
  | member {key : StatKey} {form : Form} {path : PathKey} {e : FormEntry N} {id : Nat}
    {m : Modifier N} (hsc : sc.Follows) (he : n.registry.form? key form path = some e)
    (hi : (id + 2, m) ∈ n.registry.items e.collection) : Denotes sc n id m.formula m.path

/-- Cells compute something where stats are followed. -/
theorem Denotes.follows {n : Network N A σ} {id : Nat} {φ : Formula N} {p : Path (Stat N)}
    (h : n.Denotes sc id φ p) : sc.Follows := by
  cases h with
  | stage _ hs => exact sc.follows hs
  | member hsc => exact hsc

theorem Denotes.of_registry {n m : Network N A σ} (h : m.registry = n.registry) {id : Nat}
    {φ : Formula N} {p : Path (Stat N)} (hd : n.Denotes sc id φ p) : m.Denotes sc id φ p := by
  cases hd with
  | stage he hs hk => exact .stage (h ▸ he) hs hk
  | member hsc he hi => exact .member hsc (h ▸ he) (h ▸ hi)

/-- What the source of a formula node stands for if there are no layers. -/
def Evaluates (n : Network N A σ) (formula : Formula N) : FormulaSource N → Prop
  | .plain φ => φ = formula
  | .layered l => n.registry.layering l = some (formula, [])

theorem Evaluates.unique {n : Network N A σ} {φ φ' : Formula N} {source : FormulaSource N}
    (h : n.Evaluates φ source) (h' : n.Evaluates φ' source) : φ = φ' := by
  cases source with
  | plain ψ => exact h.symm.trans h'
  | layered l => exact (Prod.mk.inj (Option.some.inj (h.symm.trans h'))).1

/-- What a cell computes is written in its nodes. -/
theorem Wired.cell_of_denotes {n : Network N A σ} (hn : n.Wired sc)
    (hstats : ∀ s ∈ sc.stats, ∀ g, n.registry.graph? s.key = some g → g.stat = s) {id : Nat}
    {φ : Formula N} {p : Path (Stat N)} (h : n.Denotes sc id φ p) :
    ∃ source, n.HasCell id source p ∧ n.Evaluates φ source := by
  cases h with
  | @stage k e s he hs hk =>
    obtain ⟨l, g, layers, hcell, hg, hl, hlayers⟩ := (hn.stages k e he).cell
    obtain rfl := hstats s hs g (hk ▸ hg)
    rw [hlayers (sc.bare _ hs)] at hl
    exact ⟨.layered l, hcell, hl⟩
  | member _ he hi =>
    obtain ⟨-, -, -, c, hc, hcell⟩ := (hn.forms _ _ _ _ he).members _ hi
    obtain rfl : id = c := by simpa using hc
    exact ⟨.plain _, hcell, rfl⟩

namespace HasCell

variable {n n' : Network N A σ} {id id' : Nat} {source source' : FormulaSource N}
  {p p' : Path (Stat N)}

/-- Cells that have a node in common are the same. -/
theorem eq_of_kind (h : n.HasCell id source p) (h' : n.HasCell id' source' p') {i i' : Nat}
    (hi : i ≤ 2) (hi' : i' ≤ 2) (heq : id + i = id' + i') : id = id' := by
  obtain ⟨hf, hc, he, -⟩ := h
  obtain ⟨hf', hc', he', -⟩ := h'
  obtain rfl | rfl | rfl : i = 0 ∨ i = 1 ∨ i = 2 := by omega
  all_goals obtain rfl | rfl | rfl : i' = 0 ∨ i' = 1 ∨ i' = 2 := by omega
  all_goals first
    | exact Nat.add_right_cancel heq
    | simp_all

theorem of_kind (h : n.HasCell id source p) (hkind : ∀ i ≤ 2, n'.kind? (id + i) = n.kind? (id + i))
    (hheld : n'.held (id + 1) = n.held (id + 1))
    (hthere : n.isPresent (.changed id) → n'.isPresent (.changed id)) : n'.HasCell id source p where
  formula := (hkind 0 (by omega)).trans h.formula
  cached := (hkind 1 (by omega)).trans h.cached
  exposed := (hkind 2 (by omega)).trans h.exposed
  told := hheld ▸ h.told
  present := hthere h.present

theorem of_view (h : n.HasCell id source p) (hview : ∀ i ≤ 2, n'.view? (id + i) = n.view? (id + i))
    (hthere : n.isPresent (.changed id) → n'.isPresent (.changed id)) : n'.HasCell id source p :=
  h.of_kind (fun i hi => kind?_of_view (hview i hi)) (held_of_view (hview 1 (by omega))) hthere

end HasCell

/-- The dependencies of a formula are among its subscriptions. -/
theorem mem_held_of_recorded {n : Network N A σ} {id : Nat} {d : DependencyKey × Subscription}
    (h : d ∈ n.recorded id) : d.2 ∈ n.held id := by
  rw [recorded] at h
  rw [held]
  cases hbody : n.body? id with
  | none => simp [hbody] at h
  | some body =>
    rw [hbody] at h
    cases body with
    | formula f => exact List.mem_append_left _ (List.mem_map_of_mem h)
    | _ => simp [Body.recorded] at h

/-- Only formulas record anything. -/
theorem isFormula_of_recorded {n : Network N A σ} {id : Nat} (h : n.recorded id ≠ []) : n.IsFormula id := by
  rw [recorded] at h
  cases hbody : n.body? id with
  | none => simp [hbody] at h
  | some body =>
    cases body with
    | formula f => exact ⟨f.source, f.path, by rw [kind?, hbody]; rfl⟩
    | _ => simp [hbody, Body.recorded] at h

/-- Nothing is recorded where nothing is held. -/
theorem recorded_of_held {n : Network N A σ} {id : Nat} (h : n.held id = []) : n.recorded id = [] :=
  List.eq_nil_iff_forall_not_mem.mpr fun _ hd => List.not_mem_nil (h ▸ mem_held_of_recorded hd)

/-- Dependencies stay on file if their topics do, and no paths come back. -/
theorem Filed.mono {n n' : Network N A σ} {key : DependencyKey} {topic : Topic} (h : n.Filed key topic)
    (htopic : n.registry.topic? key = some topic → n'.registry.topic? key = some topic)
    (hgraph : ∀ k g', n'.registry.graph? k = some g' → topic = .paths g'.paths →
      ∃ k g, n.registry.graph? k = some g ∧ g.paths = g'.paths) : n'.Filed key topic := by
  obtain h | ⟨k, set, hkey, hset, hnone⟩ := h
  · exact .inl (htopic h)
  · refine .inr ⟨k, set, hkey, hset, fun k' g' hg' hpaths => ?_⟩
    obtain ⟨k, g, hg, heq⟩ := hgraph k' g' hg' (hset.trans (congrArg _ hpaths.symm))
    exact hnone k g hg (heq.trans hpaths)

theorem Filed.of_registry {n n' : Network N A σ} (hr : n'.registry = n.registry) {key : DependencyKey}
    {topic : Topic} (h : n.Filed key topic) : n'.Filed key topic :=
  h.mono (by rw [hr]; exact id) fun k g' hg' _ => ⟨k, g', hr ▸ hg', rfl⟩

namespace Traced

variable {n n' : Network N A σ} {id : Nat}

theorem congr (h : n.Traced id) (hkind : n'.kind? id = n.kind? id) (hheld : n'.held id = n.held id)
    (hrecorded : n'.recorded id = n.recorded id) (hfollowed : n'.followed id = n.followed id)
    (hfiled : ∀ d ∈ n.recorded id, n.Filed d.1 d.2.topic → n'.Filed d.1 d.2.topic) : n'.Traced id where
  noted hid := by
    rw [IsFormula, hkind] at hid
    rw [hheld, hrecorded]
    exact h.noted hid
  joined hid := by
    rw [IsAggregate, hkind] at hid
    rw [hheld, hfollowed]
    exact h.joined hid
  filed d hd := by
    rw [hrecorded] at hd
    exact hfiled d hd (h.filed d hd)

theorem of_view (h : n.Traced id) (hview : n'.view? id = n.view? id)
    (hfiled : ∀ d ∈ n.recorded id, n.Filed d.1 d.2.topic → n'.Filed d.1 d.2.topic) : n'.Traced id :=
  h.congr (kind?_of_view hview) (held_of_view hview) (recorded_of_view hview) (followed_of_view hview)
    hfiled

/-- There is nothing to account for where nothing is held. -/
theorem of_held (hheld : n.held id = []) : n.Traced id := by
  refine ⟨fun _ s hs => ?_, fun _ s hs => ?_, fun d hd => ?_⟩
  · rw [hheld] at hs
    cases hs
  · rw [hheld] at hs
    cases hs
  · have hs := mem_held_of_recorded hd
    rw [hheld] at hs
    cases hs

end Traced

/-- A stage keeps its nodes if its cell stays, and what is on file of its stat and of its layers. -/
theorem StageCell.mono {n n' : Network N A σ} {k : NodeKey} {e : NodeEntry N} (h : n.StageCell sc k e)
    (hcell : ∀ source p, n.HasCell e.formula source p → n'.HasCell e.formula source p)
    (hgraph : ∀ g, n.registry.graph? k.stat = some g →
      ∃ g', n'.registry.graph? k.stat = some g' ∧ g'.stat = g.stat)
    (hlayering : ∀ l s stage layers, n.registry.layering l = some (.stage s stage, layers) →
      ∃ layers', n'.registry.layering l = some (.stage s stage, layers')
        ∧ (sc.Bare s → layers' = layers)) : n'.StageCell sc k e := by
  obtain ⟨l, g, layers, hc, hg, hl, hlayers⟩ := h.cell
  obtain ⟨g', hg', hstat⟩ := hgraph g hg
  obtain ⟨layers', hl', hsame⟩ := hlayering l _ _ _ hl
  rw [← hstat] at hl' hsame hlayers
  exact ⟨h.cached, h.exposed, l, g', layers', hcell _ _ hc, hg', hl',
    fun hs => (hsame hs).trans (hlayers hs)⟩

/-- A collection keeps its nodes if its follower stays as it is, and the cells of its members stay. -/
theorem FormCell.mono {n n' : Network N A σ} {e : FormEntry N} (h : n.FormCell sc e)
    (hkind : n'.kind? e.aggregate = n.kind? e.aggregate)
    (htopic : n.hasTopic (.members e.collection) → n'.hasTopic (.members e.collection))
    (hlisteners : n'.listeners (.members e.collection) = n.listeners (.members e.collection))
    (hfollowed : n'.followed e.aggregate = n.followed e.aggregate)
    (hitems : n'.registry.items e.collection = n.registry.items e.collection)
    (hcell : ∀ i ∈ n'.registry.items e.collection, ∀ id source p, i.1 = id + 2 →
      n.HasCell id source p → n'.HasCell id source p) : n'.FormCell sc e where
  kind := hkind.trans h.kind
  topic := htopic h.topic
  follower := hlisteners ▸ h.follower
  followed := by
    rw [hfollowed, hitems]
    exact h.followed
  followed_topic := hfollowed ▸ h.followed_topic
  members i hi := by
    obtain ⟨hform, hpath, hreads, id, hid, hc⟩ := h.members i (hitems ▸ hi)
    exact ⟨hform, hpath, hreads, id, hid, hcell i hi id _ _ hid hc⟩

/-- What is connected depends on what nodes are made for and what they are attached to. -/
theorem Wired.congr {n n' : Network N A σ} (hn : n.Wired sc)
    (hkind : ∀ id, n'.kind? id = n.kind? id) (hheld : ∀ id, n'.held id = n.held id)
    (hrecorded : ∀ id, n'.recorded id = n.recorded id)
    (hfollowed : ∀ id, n'.followed id = n.followed id)
    (hlisteners : ∀ t, n'.listeners t = n.listeners t) (htopic : ∀ t, n.hasTopic t → n'.hasTopic t)
    (hpresent : ∀ set, n.isPresent (.paths set) → n'.isPresent (.paths set))
    (hthere : ∀ id, n.isPresent (.changed id) → n'.isPresent (.changed id)) (htoken : n'.nextToken = n.nextToken)
    (hregistry : n'.registry = n.registry) : n'.Wired sc := by
  have hcell {id : Nat} {source : FormulaSource N} {p : Path (Stat N)} (h : n.HasCell id source p) :
      n'.HasCell id source p := h.of_kind (fun _ _ => hkind _) (hheld _) (hthere _)
  refine ⟨hn.typed.of_listeners (fun id kind h => (hkind id).trans h)
      (fun t _ h => .inl (hlisteners t ▸ h)) hthere,
    hn.ledger.of_eq hlisteners hheld htoken.ge, fun k e he => ?_,
    fun k form p e he => ?_, fun k g hg => ?_, fun c i hc => ?_, fun id kind hk => ?_,
    fun id => (hn.traced id).congr (hkind id) (hheld id) (hrecorded id) (hfollowed id)
      fun _ _ => .of_registry hregistry, fun hsc key g hg id s hs htopic => ?_⟩
  · exact (hn.stages k e (hregistry ▸ he)).mono (fun _ _ => hcell)
      (fun g hg => ⟨g, hregistry ▸ hg, rfl⟩)
      fun l s stage layers hl => ⟨layers, hregistry ▸ hl, fun _ => rfl⟩
  · exact (hn.forms k form p e (hregistry ▸ he)).mono (hkind _) (htopic _) (hlisteners _)
      (hfollowed _) (by rw [hregistry]) fun _ _ _ _ _ _ => hcell
  · rw [hregistry] at hg
    exact (hn.sets k g hg).imp (htopic _) (hpresent _)
  · rw [hkind] at hc
    exact hn.next c i hc
  · refine (hn.made id kind ((hkind id).symm.trans hk)).mono (fun id kind h => (hkind id).trans h)
      fun l s stage layers hl => ⟨layers, hregistry ▸ hl, fun _ => rfl⟩
  · rw [hregistry] at hg ⊢
    exact hn.path_held hsc key g hg id s (hheld id ▸ hs) htopic

theorem hasTopic_relight (n : Network N A σ) (f : Nat → Flags N → Flags N) (t : Topic) :
    (n.relight f).hasTopic t ↔ n.hasTopic t := by
  cases t with
  | changed id => rw [hasTopic, size_relight, hasTopic]
  | received id => rw [hasTopic, flags?_relight, Option.isSome_map, hasTopic]
  | _ => exact Iff.rfl

/-- Flags have nothing to do with what is connected. -/
theorem Wired.relight {n : Network N A σ} (hn : n.Wired sc) (f : Nat → Flags N → Flags N) :
    (n.relight f).Wired sc :=
  hn.congr (n.kind?_relight · f) (n.held_relight · f) (n.recorded_relight · f)
    (n.followed_relight · f)
    (n.listeners_relight f) (fun t => (n.hasTopic_relight f t).mpr)
    (fun _ h => by rwa [isPresent_relight])
    (fun id hid => by rwa [isPresent_relight]) rfl rfl

theorem Wired.dim {n : Network N A σ} (hn : n.Wired sc) (heard : List Nat) (left : Notices σ) :
    (n.dim heard left).Wired sc :=
  (hn.relight fun i flags => if i ∈ heard then flags.dropped else flags).congr (fun _ => rfl)
    (fun _ => rfl) (fun _ => rfl) (fun _ => rfl) (fun t => by cases t <;> rfl)
    (fun t h => by cases t <;> exact h) (fun _ h => h) (fun _ h => h) rfl rfl

/-! ## Listeners of what is held -/

/-- The subscriptions to members are among those of an aggregate. -/
theorem mem_held_of_followed {n : Network N A σ} {id : Nat} {d : Nat × Subscription}
    (h : d ∈ n.followed id) : d.2 ∈ n.held id := by
  rw [followed] at h
  rw [held]
  cases hbody : n.body? id with
  | none => simp [hbody] at h
  | some body =>
    rw [hbody] at h
    cases body with
    | aggregate a => exact List.mem_append_right _ (List.mem_map_of_mem h)
    | _ => simp [Body.followed] at h

/-- A listener of a node is attached where the node has a subscription, and it fits there. -/
theorem Wired.listener_of_held {n : Network N A σ} (hn : n.Wired sc) {id : Nat} {s : Subscription}
    (h : s ∈ n.held id) : ∃ listener, ⟨s.token, listener⟩ ∈ n.listeners s.topic
      ∧ listener.node? = some id ∧ n.Fits s.topic listener := by
  obtain ⟨listener, hlistener, hnode⟩ := (hn.ledger.balance id s).mp h
  exact ⟨listener, hlistener, hnode, hn.typed.fits hlistener⟩

theorem Wired.relay_of_formula {n : Network N A σ} (hn : n.Wired sc) {id : Nat}
    {source : FormulaSource N} {p : Path (Stat N)} (hid : n.kind? id = some (.formula source p))
    {s : Subscription} (h : s ∈ n.held id) : ⟨s.token, .relay id⟩ ∈ n.listeners s.topic := by
  obtain ⟨listener, hlistener, hnode, hfits⟩ := hn.listener_of_held h
  obtain ⟨topic, token⟩ := s
  cases listener with
  | relay i => exact Option.some.inj hnode ▸ hlistener
  | invalidate c =>
    obtain rfl := Option.some.inj hnode
    cases topic <;> simp [Fits, hid] at hfits
  | follow a =>
    obtain rfl := Option.some.inj hnode
    cases topic <;> simp [Fits, hid] at hfits
  | host => cases hnode

theorem HasCell.invalidate {n : Network N A σ} (hn : n.Wired sc) {id : Nat}
    {source : FormulaSource N} {p : Path (Stat N)} (h : n.HasCell id source p) :
    ∃ token, ⟨token, .invalidate (id + 1)⟩ ∈ n.listeners (.changed id) := by
  obtain ⟨s, hs, htopic⟩ := h.told
  obtain ⟨listener, hlistener, hnode, hfits⟩ := hn.listener_of_held hs
  rw [htopic] at hlistener hfits
  cases listener with
  | invalidate c => exact ⟨s.token, Option.some.inj hnode ▸ hlistener⟩
  | relay i =>
    obtain rfl := Option.some.inj hnode
    simp [Fits, IsFormula, IsAggregate, h.formula] at hfits
  | follow a => simp [Fits] at hfits
  | host => cases hnode

/-- A cell hears of everything its formula subscribed to. -/
theorem HasCell.hears {n : Network N A σ} (hn : n.Wired sc) {id : Nat} {source : FormulaSource N}
    {p : Path (Stat N)} (h : n.HasCell id source p) {s : Subscription} (hs : s ∈ n.held id) :
    n.Hears s.topic (id + 1) := by
  obtain ⟨token, htoken⟩ := h.invalidate hn
  exact .relayed (hn.relay_of_formula h.formula hs) (.here htoken)

/-! ## What cells hear -/

/-- Whether a cell is read for a dependency. -/
def Under (n : Network N A σ) : DependencyKey → Nat → Prop
  | .node k, id => ∃ e, n.registry.stage? k = some e ∧ e.formula = id
  | .form key form path, id =>
    ∃ e, n.registry.form? key form path = some e ∧ id + 2 ∈ (n.registry.items e.collection).map (·.1)
  | .paths _, _ => False

/-- A cell that computes something is on file. -/
theorem Denotes.under {n : Network N A σ} {id : Nat} {φ : Formula N} {p : Path (Stat N)}
    (h : n.Denotes sc id φ p) : ∃ key, n.Under key id := by
  cases h with
  | @stage k e _ he => exact ⟨.node k, e, he, rfl⟩
  | @member key form path e _ _ _ he hi =>
    exact ⟨.form key form path, e, he, List.mem_map.mpr ⟨_, hi, rfl⟩⟩

/-- A cell hears of the changes of every cell that its formula read. -/
theorem Wired.hears_of_under {n : Network N A σ} (hn : n.Wired sc) {id c : Nat}
    {source : FormulaSource N} {p : Path (Stat N)} (hcell : n.HasCell id source p)
    {key : DependencyKey} {s : Subscription} (hs : (key, s) ∈ n.recorded id)
    (htopic : n.registry.topic? key = some s.topic) (hunder : n.Under key c) :
    n.Hears (.received (c + 1)) (id + 1) := by
  have hheld : s ∈ n.held id := mem_held_of_recorded hs
  cases key with
  | node k =>
    obtain ⟨e, he, rfl⟩ := hunder
    have : s.topic = .received (e.formula + 1) := by
      simpa [Registry.topic?, he, (hn.stages k e he).cached, eq_comm] using htopic
    exact this ▸ hcell.hears hn hheld
  | form key form path =>
    obtain ⟨e, he, hc⟩ := hunder
    have hform := hn.forms _ _ _ _ he
    have : s.topic = .changed e.aggregate := by
      simpa [Registry.topic?, he, eq_comm] using htopic
    have hrest : n.Hears (.changed e.aggregate) (id + 1) := this ▸ hcell.hears hn hheld
    -- the follower of the collection passes the change on
    rw [← hform.followed] at hc
    obtain ⟨d, hd, hdc⟩ := List.mem_map.mp hc
    obtain ⟨c', hc', hreceived⟩ := hform.followed_topic d hd
    obtain rfl : c = c' := by omega
    obtain ⟨listener, hlistener, hnode, hfits⟩ := hn.listener_of_held (mem_held_of_followed hd)
    rw [hreceived] at hlistener hfits
    cases listener with
    | relay i => exact .relayed (Option.some.inj hnode ▸ hlistener) hrest
    | host => cases hnode
    | _ => simp [Fits] at hfits
  | paths key => exact hunder.elim

end StatEngine.Network
