import StatEngine.Proofs.Filing

/-!
# How far changes spread

A cell that is told of a change is one that recorded what changed, or recorded something that is told of
the change in turn. So among the keys of the cells on file a change spreads along what cells recorded
(`Uses`), and whoever is not under a key that it can spread to keeps the value it has (`Spares`), though
announcements go from node to node and know nothing of keys.

## Main definitions

* `Confines`: keys that changes do not spread beyond;
* `Spares`: cells under other keys stay as they are;
* `IsAbout`: an announcement of changes of given keys.

## Main statements

* `Wired.of_hears`: who hears an announcement about keys that changes are confined to is under such keys;
* `Wired.spares_dim`: an announcement spares what it is not about.
-/

namespace StatEngine.Network

variable {N A σ : Type} {sc : Regime N} {n n' n'' : Network N A σ} {K : DependencyKey → Prop}

/-! ## Keys -/

/-- A cell under the first key recorded the second key in its last evaluation. -/
def Uses (n : Network N A σ) (key used : DependencyKey) : Prop :=
  ∃ id s, n.Under key id ∧ (used, s) ∈ n.recorded id

/-- Changes of the keys do not spread beyond them. -/
def Confines (n : Network N A σ) (K : DependencyKey → Prop) : Prop :=
  ∀ key used, n.Uses key used → K used → K key

/-- Cells that are not under the keys keep their values and stay on file, and no cell on file comes to
use what it did not use. No behaviors come or go. -/
structure Spares (K : DependencyKey → Prop) (n n' : Network N A σ) : Prop where
  recorded : ∀ key id, n'.Under key id →
    n.Under key id ∧ n'.recorded id = n.recorded id ∨ n'.recorded id = []
  keeps : ∀ key id, n.Under key id → ¬ K key → n'.Under key id ∧ n'.value? (id + 1) = n.value? (id + 1)
  installed : n'.installed = n.installed

namespace Spares

theorem refl (K : DependencyKey → Prop) (n : Network N A σ) : n.Spares K n where
  recorded _ _ h := .inl ⟨h, rfl⟩
  keeps _ _ h _ := ⟨h, rfl⟩
  installed := rfl

theorem trans (h : n.Spares K n') (h' : n'.Spares K n'') : n.Spares K n'' where
  recorded key id hid := by
    obtain ⟨hid', heq'⟩ | hnil := h'.recorded key id hid
    · obtain ⟨hid, heq⟩ | hnil := h.recorded key id hid'
      · exact .inl ⟨hid, heq'.trans heq⟩
      · exact .inr (heq'.trans hnil)
    · exact .inr hnil
  keeps key id hid hK := by
    obtain ⟨hid', heq⟩ := h.keeps key id hid hK
    obtain ⟨hid'', heq'⟩ := h'.keeps key id hid' hK
    exact ⟨hid'', heq'.trans heq⟩
  installed := h'.installed.trans h.installed

/-- What is spared by a change of few keys is spared by one of more. -/
theorem mono {K' : DependencyKey → Prop} (h : n.Spares K n') (hK : ∀ key, K key → K' key) :
    n.Spares K' n' where
  recorded := h.recorded
  keeps key id hid hnot := h.keeps key id hid fun hkey => hnot (hK key hkey)
  installed := h.installed

/-- Changes are confined to the same keys as before if no cell uses more than before. -/
theorem confines (h : n.Spares K n') (hn : n.Confines K) : n'.Confines K := by
  rintro key used ⟨id, s, hid, hs⟩ hused
  obtain ⟨hid', heq⟩ | hnil := h.recorded key id hid
  · exact hn key used ⟨id, s, hid', heq ▸ hs⟩ hused
  · rw [hnil] at hs
    cases hs

/-- Nothing changes if the nodes and what is on file for keys stay the same. -/
theorem of_sameNodes (hs : n.SameNodes n') (hstage : ∀ k, n'.registry.stage? k = n.registry.stage? k)
    (hform : ∀ k f p, n'.registry.form? k f p = n.registry.form? k f p)
    (hitems : n'.registry.items = n.registry.items) (hinstalled : n'.installed = n.installed) :
    n.Spares K n' := by
  have hunder (key : DependencyKey) (id : Nat) : n'.Under key id ↔ n.Under key id := by
    cases key <;> simp only [Under, hstage, hform, hitems]
  refine ⟨fun key id hid => .inl ⟨(hunder key id).mp hid, recorded_of_view (hs.view id)⟩,
    fun key id hid _ => ⟨(hunder key id).mpr hid, ?_⟩, hinstalled⟩
  rw [value?, value?, flags?_of_view (hs.view _)]

/-- Announcements to hosts change no cells. -/
theorem withBuffer (K : DependencyKey → Prop) (n : Network N A σ) (buffer : Buffer) (state : σ) :
    n.Spares K { n with buffer := buffer, host := state } where
  recorded _ _ h := .inl ⟨h, rfl⟩
  keeps _ _ h _ := ⟨h, rfl⟩
  installed := rfl

end Spares

/-- Cells on file are there. -/
theorem Wired.hasCell_of_under (hn : n.Wired sc) {key : DependencyKey} {id : Nat}
    (hid : n.Under key id) : ∃ source path, n.HasCell id source path := by
  cases key with
  | node k =>
    obtain ⟨e, he, rfl⟩ := hid
    obtain ⟨l, g, layers, hcell, -⟩ := (hn.stages k e he).cell
    exact ⟨_, _, hcell⟩
  | form key form path =>
    obtain ⟨e, he, hi⟩ := hid
    obtain ⟨i, hi, heq⟩ := List.mem_map.mp hi
    obtain ⟨-, -, -, id', hid', hcell⟩ := (hn.forms _ _ _ _ he).members i hi
    obtain rfl : id = id' := by omega
    exact ⟨_, _, hcell⟩
  | paths key => cases hid

/-- Parts that are made use nothing yet, and nothing else changes. -/
theorem Grows.spares [Number N] (h : n.Grows sc n') (hn : n.Wired sc)
    (hinstalled : n'.installed = n.installed) : n.Spares K n' := by
  have hold {key : DependencyKey} {id : Nat} (hid : n.Under key id) :
      n'.recorded id = n.recorded id := by
    obtain ⟨source, path, hcell⟩ := hn.hasCell_of_under hid
    exact recorded_of_view (h.view id (lt_size_of_kind? hcell.formula))
  refine ⟨fun key id hid => ?_, fun key id hid _ => ⟨?_, h.value _⟩, hinstalled⟩
  · cases key with
    | node k =>
      obtain ⟨e, he, rfl⟩ := hid
      obtain he | ⟨-, hlt⟩ := h.entry k e he
      · have hid : n.Under (.node k) e.formula := ⟨e, he, rfl⟩
        exact .inl ⟨hid, hold hid⟩
      · exact .inr (h.recorded_eq_nil hlt)
    | form key form path =>
      obtain ⟨e, he, hi⟩ := hid
      cases hform : n.registry.form? key form path with
      | some e' =>
        obtain ⟨he', hitems⟩ := h.registry.form _ _ _ _ hform
        obtain rfl := Option.some.inj (he.symm.trans he')
        have hid : n.Under (.form key form path) id := ⟨e, hform, hitems ▸ hi⟩
        exact .inl ⟨hid, hold hid⟩
      | none =>
        -- a collection that is new has no members
        have hnone : n'.registry.inputs.modifiers key form path = [] := by
          rw [h.registry.inputs]
          simp [Registry.inputs, Registry.members, hform]
        rw [Registry.modifiers_eq he, List.map_eq_nil_iff] at hnone
        simp [hnone] at hi
    | paths key => cases hid
  · cases key with
    | node k =>
      obtain ⟨e, he, rfl⟩ := hid
      exact ⟨e, h.registry.entry k e he, rfl⟩
    | form key form path =>
      obtain ⟨e, he, hi⟩ := hid
      obtain ⟨he', hitems⟩ := h.registry.form _ _ _ _ he
      exact ⟨e, he', hitems ▸ hi⟩
    | paths key => cases hid

/-! ## Announcements -/

/-- An announcement on the topic is about changes of the keys. -/
def IsAbout (K : DependencyKey → Prop) (n : Network N A σ) : Topic → Prop
  | .changed i => (∀ key, n.Under key i → K key)
    ∧ ∀ key form path e, n.registry.form? key form path = some e → e.aggregate = i →
      K (.form key form path)
  | .received c => ∀ key i, c = i + 1 → n.Under key i → K key
  | .paths set => (∃ key g, n.registry.graph? key = some g ∧ g.paths = set)
    ∧ ∀ key g, n.registry.graph? key = some g → g.paths = set → K (.paths key)
  | _ => False

/-- Nodes that combine collections or are shown to hosts are in no cell on file. -/
theorem Wired.isFormula_of_under (hn : n.Wired sc) {key : DependencyKey} {id : Nat}
    (hid : n.Under key id) : n.IsFormula id := by
  obtain ⟨source, path, hcell⟩ := hn.hasCell_of_under hid
  exact ⟨source, path, hcell.formula⟩

/-- What a cell on file recorded under a topic is among the keys that the topic is about. -/
theorem Wired.of_recorded (hn : n.Wired sc) {topic : Topic} (htopic : n.IsAbout K topic)
    {used : DependencyKey} (hfiled : n.Filed used topic) : K used := by
  obtain hused | ⟨key, set, rfl, rfl, hgone⟩ := hfiled
  · cases used with
    | node k =>
      obtain ⟨e, he, rfl⟩ := Option.map_eq_some_iff.mp hused
      exact htopic (.node k) e.formula (hn.stages k e he).cached ⟨e, he, rfl⟩
    | form key form path =>
      obtain ⟨e, he, rfl⟩ := Option.map_eq_some_iff.mp hused
      exact htopic.2 key form path e he rfl
    | paths key =>
      obtain ⟨g, hg, rfl⟩ := Option.map_eq_some_iff.mp hused
      exact htopic.2 key g hg rfl
  · obtain ⟨⟨key', g, hg, rfl⟩, -⟩ := htopic
    exact absurd rfl (hgone key' g hg)

/-- What passes an announcement on announces a change of the same keys, if they include whatever uses
them. -/
theorem Wired.isAbout_relay (hn : n.Wired sc) (hK : n.Confines K) {topic : Topic} {token i : Nat}
    (h : ⟨token, .relay i⟩ ∈ n.listeners topic) (htopic : n.IsAbout K topic) :
    n.IsAbout K (.changed i) := by
  have hheld : (⟨topic, token⟩ : Subscription) ∈ n.held i :=
    (hn.ledger.balance i ⟨topic, token⟩).mpr ⟨_, h, rfl⟩
  refine ⟨fun key hkey => ?_, fun key form path e he hi => ?_⟩
  · -- a formula recorded what it listens to
    obtain ⟨l, hl⟩ | ⟨used, hused⟩ := (hn.traced i).noted (hn.isFormula_of_under hkey) _ hheld
    · rw [show topic = .layers l from hl] at htopic
      exact htopic.elim
    · exact hK key used ⟨i, _, hkey, hused⟩ (hn.of_recorded htopic ((hn.traced i).filed _ hused))
  · -- what combines a collection listens to its members
    have hform := hn.forms _ _ _ _ he
    subst hi
    obtain ⟨c, hc⟩ | ⟨j, hj⟩ := (hn.traced _).joined ⟨_, _, hform.kind⟩ _ hheld
    · rw [show topic = .members c from hc] at htopic
      exact htopic.elim
    · obtain ⟨id, hid, hreceived⟩ := hform.followed_topic _ hj
      have hj : j ∈ (n.registry.items e.collection).map (·.1) :=
        hform.followed ▸ List.mem_map_of_mem hj
      rw [show topic = .received (id + 1) from hreceived] at htopic
      exact htopic _ id rfl ⟨e, he, hid ▸ hj⟩

/-- A cell that is told of changes of the keys is under such keys. -/
theorem Wired.of_hears (hn : n.Wired sc) (hK : n.Confines K) {topic : Topic} {c : Nat}
    (h : n.Hears topic c) : n.IsAbout K topic →
      ∀ key id, c = id + 1 → n.Under key id → K key := by
  -- a listener that drops a value listens to the formula of its cell
  have hcell {topic : Topic} {token d : Nat} (h : ⟨token, .invalidate d⟩ ∈ n.listeners topic)
      (htopic : n.IsAbout K topic) : n.IsAbout K (.received d) := by
    intro key id hd hid
    have hfits := hn.typed.fits h
    cases topic with
    | changed i =>
      have hi := hn.next _ _ hfits.2
      exact htopic.1 key ((show i = id by omega) ▸ hid)
    | _ => exact hfits.elim
  induction h with
  | here h => exact fun htopic key id hd hid => hcell h htopic key id hd hid
  | beyond h _ _ ih => exact fun htopic => ih (hcell h htopic)
  | relayed h _ ih => exact fun htopic => ih (hn.isAbout_relay hK h htopic)

/-- The paths of a stat are its own. -/
theorem isAbout_paths (ho : n.registry.Orderly sc) {key : StatKey} {g : Subgraph N}
    (hg : n.registry.graph? key = some g) (hK : K (.paths key)) : n.IsAbout K (.paths g.paths) := by
  refine ⟨⟨key, g, hg, rfl⟩, fun key' g' hg' heq => ?_⟩
  rwa [ho.sets key' key g' g hg' hg heq]

/-- A collection has a follower of its own. -/
theorem Wired.isAbout_aggregate (hn : n.Wired sc) (ho : n.registry.Orderly sc) {key : StatKey}
    {form : Form} {path : PathKey} {e : FormEntry N} (he : n.registry.form? key form path = some e)
    (hK : K (.form key form path)) : n.IsAbout K (.changed e.aggregate) := by
  have hkind := (hn.forms _ _ _ _ he).kind
  refine ⟨fun key' hid => ?_, fun key' form' path' e' he' heq => ?_⟩
  · obtain ⟨source, path', hformula⟩ := hn.isFormula_of_under hid
    rw [hkind] at hformula
    cases hformula
  · have hkind' := (hn.forms _ _ _ _ he').kind
    rw [heq, hkind] at hkind'
    obtain ⟨hcollection, -⟩ := Kind.aggregate.inj (Option.some.inj hkind')
    obtain ⟨rfl, rfl, rfl⟩ := ho.collections _ _ _ _ _ _ _ _ he he' hcollection
    exact hK

/-- An announcement spares the cells that are under other keys than it is about. -/
theorem Wired.spares_dim (hn : n.Wired sc) (hK : n.Confines K) {topic : Topic}
    (htopic : n.IsAbout K topic) {ids : List Nat} (hids : ∀ c, c ∈ ids ↔ n.Hears topic c)
    (left : Notices σ) : n.Spares K (n.dim ids left) := by
  have hunder (key : DependencyKey) (id : Nat) : (n.dim ids left).Under key id ↔ n.Under key id := by
    cases key <;> exact Iff.rfl
  refine ⟨fun key id hid => .inl ⟨(hunder key id).mp hid, recorded_relight ..⟩, fun key id hid hnot =>
    ⟨(hunder key id).mpr hid, ?_⟩, rfl⟩
  rw [value?_dim, if_neg]
  intro hheard
  exact hnot (hn.of_hears hK ((hids _).mp hheard) htopic key id rfl hid)

end StatEngine.Network
