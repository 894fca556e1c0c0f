import StatEngine.Proofs.Disposal

/-!
# What pruning takes away

Pruning lets go of nodes that nobody listens to, and takes what they were made for off file. The rest
stays on file as it is, and listens to what it listened to (`Sheds`). So what is off file is known by the
nodes that are gone, and nobody listens to these, then or later.

## Main definitions

* `Sheds`: nodes were let go of that nobody listened to, and all else stays.

## Main statements

* `Drops.sheds`: taking parts off file that nobody listens to sheds their nodes;
* `Sheds.trans`: what is shed in several steps is shed.
-/

namespace StatEngine.Network

variable {N A σ : Type} {n m n' : Network N A σ}

/-- Nodes were let go of that nobody listened to, along with the stages, collections and lists they were
made for. All else stays, and so does all of a stat that has modifiers. -/
structure Sheds (n n' : Network N A σ) (gone : List Nat) : Prop where
  listeners : ∀ t, n'.listeners t
    = (n.listeners t).filter fun attached => decide (∀ i ∈ gone, attached.listener.node? ≠ some i)
  items : n'.registry.items = n.registry.items
  stage : ∀ k e, n'.registry.stage? k = some e ↔ n.registry.stage? k = some e ∧ e.formula ∉ gone
  form : ∀ k f p e, n'.registry.form? k f p = some e
    ↔ n.registry.form? k f p = some e ∧ e.aggregate ∉ gone
  listed : n'.registry.listed = n.registry.listed.filter fun x => decide (x.2 ∉ gone)
  /-- The cells of modifiers stay. -/
  member : ∀ k f p e, n.registry.form? k f p = some e →
    ∀ i ∈ n.registry.items e.collection, ∀ id ∈ gone, id + 2 ≠ i.1
  unheard : ∀ k e, n.registry.stage? k = some e → e.formula ∈ gone →
    n'.listeners (.received e.cached) = [] ∧ n'.listeners (.changed e.cached) = []
  unused : ∀ k f p e, n.registry.form? k f p = some e → e.aggregate ∈ gone →
    n.registry.items e.collection = [] ∧ n'.listeners (.changed e.aggregate) = []
  unshown : ∀ x ∈ n.registry.listed, x.2 ∈ gone → n'.listeners (.changed x.2) = []
    ∧ ∀ g, n.registry.graph? x.1.key = some g → g.modifierCount = 0
  busy : ∀ k g, n.registry.graph? k = some g → 0 < g.modifierCount → n'.registry.graph? k = some g
  graph : ∀ k g', n'.registry.graph? k = some g' → ∃ g, n.registry.graph? k = some g
    ∧ g'.stat = g.stat ∧ g'.paths = g.paths ∧ g'.modifierCount = g.modifierCount

namespace Sheds

variable {gone gone' : List Nat}

theorem refl (n : Network N A σ) : n.Sheds n [] := by
  refine ⟨fun t => ?_, rfl, fun k e => ?_, fun k f p e => ?_, ?_, fun _ _ _ _ _ _ _ _ h => ?_,
    fun _ _ _ h => ?_, fun _ _ _ _ _ h => ?_, fun _ _ h => ?_, fun _ _ h _ => h,
    fun _ g h => ⟨g, h, rfl, rfl, rfl⟩⟩
  · simp
  · simp
  · simp
  · simp
  all_goals cases h

/-- What nobody listens to is still listened to by nobody. -/
theorem quiet (h : n.Sheds n' gone) {t : Topic} (ht : n.listeners t = []) : n'.listeners t = [] := by
  rw [h.listeners, ht, List.filter_nil]

theorem trans (h : n.Sheds m gone) (h' : m.Sheds n' gone') : n.Sheds n' (gone ++ gone') where
  listeners t := by
    rw [h'.listeners, h.listeners, List.filter_filter]
    refine List.filter_congr fun attached _ => ?_
    simp only [List.mem_append, or_imp, forall_and, Bool.decide_and, Bool.and_comm]
  items := h'.items.trans h.items
  stage k e := by
    rw [h'.stage, h.stage, List.mem_append, not_or, and_assoc]
  form k f p e := by
    rw [h'.form, h.form, List.mem_append, not_or, and_assoc]
  listed := by
    rw [h'.listed, h.listed, List.filter_filter]
    refine List.filter_congr fun x _ => ?_
    simp only [List.mem_append, not_or, Bool.decide_and, Bool.and_comm]
  member k f p e he i hi id hid := by
    obtain hid | hid := List.mem_append.mp hid
    · exact h.member k f p e he i hi id hid
    · -- a collection that went first had no members then
      by_cases hgone : e.aggregate ∈ gone
      · rw [(h.unused k f p e he hgone).1] at hi
        cases hi
      · exact h'.member k f p e ((h.form k f p e).mpr ⟨he, hgone⟩) i (h.items ▸ hi) id hid
  unheard k e he hmem := by
    by_cases hgone : e.formula ∈ gone
    · exact (h.unheard k e he hgone).imp h'.quiet h'.quiet
    · exact h'.unheard k e ((h.stage k e).mpr ⟨he, hgone⟩) ((List.mem_append.mp hmem).resolve_left hgone)
  unused k f p e he hmem := by
    by_cases hgone : e.aggregate ∈ gone
    · exact (h.unused k f p e he hgone).imp_right h'.quiet
    · rw [← h.items]
      exact h'.unused k f p e ((h.form k f p e).mpr ⟨he, hgone⟩)
        ((List.mem_append.mp hmem).resolve_left hgone)
  unshown x hx hmem := by
    by_cases hgone : x.2 ∈ gone
    · exact (h.unshown x hx hgone).imp_left h'.quiet
    · have hx' : x ∈ m.registry.listed := by
        rw [h.listed]
        exact List.mem_filter.mpr ⟨hx, decide_eq_true hgone⟩
      obtain ⟨hquiet, hcount⟩ := h'.unshown x hx' ((List.mem_append.mp hmem).resolve_left hgone)
      refine ⟨hquiet, fun g hg => ?_⟩
      -- the first removal leaves stats with modifiers alone
      by_contra hne
      exact hne (hcount g (h.busy _ g hg (Nat.pos_of_ne_zero hne)))
  busy k g hg hcount := h'.busy k g (h.busy k g hg hcount) hcount
  graph k g'' hg'' := by
    obtain ⟨g', hg', hstat', hpaths', hcount'⟩ := h'.graph k g'' hg''
    obtain ⟨g, hg, hstat, hpaths, hcount⟩ := h.graph k g' hg'
    exact ⟨g, hg, hstat'.trans hstat, hpaths'.trans hpaths, hcount'.trans hcount⟩

/-- Nothing more is shed if no more is off file, and the same listen. -/
theorem of_same (h : n.Sheds m gone) (hlisteners : ∀ t, n'.listeners t = m.listeners t)
    (hitems : n'.registry.items = m.registry.items) (hlisted : n'.registry.listed = m.registry.listed)
    (hgraph : ∀ k, n'.registry.graph? k = m.registry.graph? k) : n.Sheds n' gone where
  listeners t := (hlisteners t).trans (h.listeners t)
  items := hitems.trans h.items
  stage k e := by rw [Registry.stage?, hgraph, ← h.stage, Registry.stage?]
  form k f p e := by rw [Registry.form?, hgraph, ← h.form, Registry.form?]
  listed := hlisted.trans h.listed
  member := h.member
  unheard k e he hgone := by
    rw [hlisteners, hlisteners]
    exact h.unheard k e he hgone
  unused k f p e he hgone := by
    rw [hlisteners]
    exact h.unused k f p e he hgone
  unshown x hx hgone := by
    rw [hlisteners]
    exact h.unshown x hx hgone
  busy k g hg hcount := (hgraph k).trans (h.busy k g hg hcount)
  graph k g' hg' := h.graph k g' (hgraph k ▸ hg')

/-- Modifiers stay registered. -/
theorem members (h : n.Sheds n' gone) (k : StatKey) (f : Form) (p : PathKey) :
    n'.registry.members k f p = n.registry.members k f p := by
  rw [Registry.members, Registry.members, h.items]
  cases he : n.registry.form? k f p with
  | none =>
    cases he' : n'.registry.form? k f p with
    | none => rfl
    | some e => exact absurd ((h.form k f p e).mp he').1 (by simp [he])
  | some e =>
    by_cases hgone : e.aggregate ∈ gone
    · have hnone : n'.registry.form? k f p = none := by
        refine Option.eq_none_iff_forall_not_mem.mpr fun e' he' => ?_
        obtain ⟨heq, hstays⟩ := (h.form k f p e').mp he'
        exact hstays (Option.some.inj (he.symm.trans heq) ▸ hgone)
      rw [hnone, Option.map_some, Option.getD_some, (h.unused k f p e he hgone).1]
      rfl
    · rw [(h.form k f p e).mpr ⟨he, hgone⟩]

/-- A listener stays if its node does. -/
theorem mem_listeners_iff (h : n.Sheds n' gone) {t : Topic} {attached : Attached A} :
    attached ∈ n'.listeners t
      ↔ attached ∈ n.listeners t ∧ ∀ i ∈ gone, attached.listener.node? ≠ some i := by
  rw [h.listeners, List.mem_filter, decide_eq_true_iff]

end Sheds

/-- Taking parts off file that nobody listens to sheds their nodes. -/
theorem Drops.sheds {gone : List Nat} (h : n.Drops m gone) (hr : n.Retires m gone)
    (hstage : ∀ k e, n.registry.stage? k = some e → e.formula ∉ gone → m.registry.stage? k = some e)
    (hform : ∀ k f p e, n.registry.form? k f p = some e → e.aggregate ∉ gone →
      m.registry.form? k f p = some e)
    (hlisted : m.registry.listed = n.registry.listed.filter fun x => decide (x.2 ∉ gone))
    (hunheard : ∀ k e, n.registry.stage? k = some e → e.formula ∈ gone →
      n.listeners (.received e.cached) = [] ∧ n.listeners (.changed e.cached) = [])
    (hunused : ∀ k f p e, n.registry.form? k f p = some e → e.aggregate ∈ gone →
      n.registry.items e.collection = [] ∧ n.listeners (.changed e.aggregate) = [])
    (hunshown : ∀ x ∈ n.registry.listed, x.2 ∈ gone → n.listeners (.changed x.2) = []
      ∧ ∀ g, n.registry.graph? x.1.key = some g → g.modifierCount = 0)
    (hbusy : ∀ k g, n.registry.graph? k = some g → 0 < g.modifierCount →
      m.registry.graph? k = some g)
    (hgraph : ∀ k g', m.registry.graph? k = some g' → ∃ g, n.registry.graph? k = some g
      ∧ g'.stat = g.stat ∧ g'.paths = g.paths ∧ g'.modifierCount = g.modifierCount) :
    n.Sheds m gone := by
  have hquiet {t : Topic} (ht : n.listeners t = []) : m.listeners t = [] := by
    rw [hr.listeners, ht, List.filter_nil]
  exact {
    listeners := hr.listeners
    items := h.items
    stage := fun k e => ⟨fun he => ⟨(h.stage k e he).1, fun hgone => ((h.stage k e he).2 _ hgone).1 rfl⟩,
      fun ⟨he, hstays⟩ => hstage k e he hstays⟩
    form := fun k f p e => ⟨fun he => ⟨(h.form k f p e he).1, (h.form k f p e he).2.1⟩,
      fun ⟨he, hstays⟩ => hform k f p e he hstays⟩
    listed := hlisted
    member := fun k f p e he i hi id hid => by
      by_cases hgone : e.aggregate ∈ gone
      · rw [(hunused k f p e he hgone).1] at hi
        cases hi
      · exact ((h.form k f p e (hform k f p e he hgone)).2.2 i (h.items ▸ hi) id hid).2
    unheard := fun k e he hgone => (hunheard k e he hgone).imp hquiet hquiet
    unused := fun k f p e he hgone => (hunused k f p e he hgone).imp_right hquiet
    unshown := fun x hx hgone => (hunshown x hx hgone).imp_left hquiet
    busy := hbusy
    graph := hgraph }

end StatEngine.Network
