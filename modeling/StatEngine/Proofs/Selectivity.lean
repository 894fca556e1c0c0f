import StatEngine.Proofs.Dependents
import StatEngine.Proofs.Roaming

/-!
# Changes that leave others alone

The dependency graph of a network tells what the values on file depend on: it has an edge wherever a cell
recorded something. So what does not depend on a collection or on the paths of a stat, as far as the graph
knows, is left alone when a modifier is put into the collection or taken out of it, and is not computed
again when it is read.

## Main statements

* `Network.Sane.dependsOn_iff`: the dependency graph tells just what cells recorded;
* `Network.Sane.valueOf_kept`: reading a value that is kept changes nothing;
* `Calculator.Visited.leaves_unaffected`: modifiers that come and go leave alone what does not depend on
  them.
-/

namespace StatEngine

open Network

variable {N A σ : Type}

namespace Network

variable {n n' : Network N A σ} {sc : Regime N}

/-! ## The dependency graph -/

section Wire

variable {wiring : DependencyGraph DependencyKey} {key used : DependencyKey}

theorem sound_wire (h : wiring.Sound) (key : DependencyKey) (dependencies : List DependencyKey) :
    (wire wiring key dependencies).Sound := by
  unfold wire
  replace h := h.addKey key
  generalize wiring.addKey key = wiring at h
  induction dependencies generalizing wiring with
  | nil => exact h
  | cons d dependencies ih => exact ih _ (h.addEdge key d)

theorem dependsOn_wire {k : DependencyKey} {dependencies : List DependencyKey} :
    (wire wiring k dependencies).DependsOn key used
      ↔ wiring.DependsOn key used ∨ key = k ∧ used ∈ dependencies := by
  unfold wire DependencyGraph.DependsOn
  rw [← DependencyGraph.edges_addKey wiring k]
  generalize wiring.addKey k = wiring
  induction dependencies generalizing wiring with
  | nil => simp
  | cons d dependencies ih =>
    rw [List.foldl_cons, ih, DependencyGraph.mem_edges_addEdge, List.mem_cons]
    tauto

/-- Several keys are wired one after another. -/
theorem sound_foldl_wire {α : Type} (key : α → DependencyKey) (dependencies : α → List DependencyKey)
    (l : List α) (h : wiring.Sound) :
    (l.foldl (fun wiring a => wire wiring (key a) (dependencies a)) wiring).Sound := by
  induction l generalizing wiring with
  | nil => exact h
  | cons a l ih => exact ih (sound_wire h _ _)

theorem dependsOn_foldl_wire {α : Type} (k : α → DependencyKey) (dependencies : α → List DependencyKey)
    (l : List α) : (l.foldl (fun wiring a => wire wiring (k a) (dependencies a)) wiring).DependsOn key used
      ↔ wiring.DependsOn key used ∨ ∃ a ∈ l, key = k a ∧ used ∈ dependencies a := by
  induction l generalizing wiring with
  | nil => simp
  | cons a l ih => rw [List.foldl_cons, ih, dependsOn_wire, List.exists_mem_cons_iff, or_assoc]

end Wire

/-- What the formulas of the modifiers in a collection recorded. -/
def recordedByMembers (n : Network N A σ) (collection : Nat) : List DependencyKey :=
  ((n.collections[collection]?.map (·.formulas)).getD []).flatMap fun f => n.recordedDependencies f.2

/-- The dependency graph has an edge for whatever is recorded in the cells of a subgraph. -/
def Wires (n : Network N A σ) (g : Subgraph N) (key used : DependencyKey) : Prop :=
  (∃ e ∈ g.nodes, key = .node ⟨g.stat.key, e.stage, e.path.key⟩
      ∧ used ∈ n.recordedDependencies e.formula)
    ∨ ∃ e ∈ g.forms, key = .form g.stat.key e.form e.path.key
      ∧ used ∈ n.recordedByMembers e.collection

theorem sound_wiring (n : Network N A σ) : n.wiring.Sound := by
  unfold wiring
  generalize n.live.filterMap (n.graphs[·]?) = graphs
  have hgraphs (l : List (Subgraph N)) {wiring : DependencyGraph DependencyKey} (h : wiring.Sound) :
      (l.foldl n.wireGraph wiring).Sound := by
    induction l generalizing wiring with
    | nil => exact h
    | cons g l ih => exact ih (sound_foldl_wire _ _ _ (sound_foldl_wire _ _ _ h))
  exact hgraphs graphs DependencyGraph.sound_empty

theorem dependsOn_wiring {key used : DependencyKey} :
    n.wiring.DependsOn key used ↔ ∃ g ∈ n.inUse, n.Wires g key used := by
  have hgraphs (l : List (Subgraph N)) {wiring : DependencyGraph DependencyKey} :
      (l.foldl n.wireGraph wiring).DependsOn key used
        ↔ wiring.DependsOn key used ∨ ∃ g ∈ l, n.Wires g key used := by
    induction l generalizing wiring with
    | nil => simp
    | cons g l ih =>
      have hgraph : (n.wireGraph wiring g).DependsOn key used
          ↔ wiring.DependsOn key used ∨ n.Wires g key used := by
        unfold wireGraph
        rw [dependsOn_foldl_wire, dependsOn_foldl_wire, or_assoc]
        exact Iff.rfl
      rw [List.foldl_cons, ih, hgraph, List.exists_mem_cons_iff, or_assoc]
  refine (hgraphs n.inUse).trans (or_iff_right ?_)
  exact List.not_mem_nil

theorem mem_recordedDependencies {id : Nat} {used : DependencyKey} :
    used ∈ n.recordedDependencies id ↔ ∃ s, (used, s) ∈ n.recorded id := by
  have heq : n.recordedDependencies id = (n.recorded id).map (·.1) := by
    simp only [recordedDependencies, recorded, formula?, body?]
    cases n.nodes[id]? with
    | none => rfl
    | some node =>
      obtain ⟨body, -, -⟩ := node
      cases body <;> rfl
  rw [heq, List.mem_map]
  constructor
  · rintro ⟨⟨_, s⟩, hs, rfl⟩
    exact ⟨s, hs⟩
  · rintro ⟨s, hs⟩
    exact ⟨(used, s), hs, rfl⟩

variable [Number N]

omit [Number N] in
/-- Subgraphs in use are found for their stats. -/
theorem mem_inUse_iff {sc : Regime N} (ho : n.registry.Orderly sc) {g : Subgraph N} :
    g ∈ n.inUse ↔ n.registry.graph? g.stat.key = some g := by
  rw [inUse, List.mem_filterMap, Registry.graph?_eq_some_iff]
  constructor
  · rintro ⟨id, hid, hg⟩
    obtain ⟨g', hg', hfound⟩ := ho.live_found id hid
    obtain rfl := Option.some.inj (hg'.symm.trans hg)
    exact ⟨id, hfound, hg⟩
  · rintro ⟨id, hfound, hg⟩
    exact ⟨id, (Registry.graphId?_spec hfound).1, hg⟩

/-- The formula that is kept next to a member of a collection on file is the one of its cell. -/
theorem Sane.mem_members_iff (hn : n.Sane sc) {key : StatKey} {form : Form} {path : PathKey}
    {e : FormEntry N} (he : n.registry.form? key form path = some e) {id : Nat} :
    id + 2 ∈ (n.registry.items e.collection).map (·.1)
      ↔ ∃ f ∈ (n.collections[e.collection]?.map (·.formulas)).getD [], f.2 = id := by
  have haligned := hn.books.aligned e.collection
  have hpair {item : Nat × Modifier N} {f : Modifier N × Nat}
      (hitem : item ∈ n.registry.items e.collection) (hp : n.Pairs item f) : item.1 = f.2 + 2 := by
    obtain ⟨-, -, -, c, hc, hcell⟩ := (hn.inv.wired.forms _ _ _ _ he).members item hitem
    obtain ⟨-, cached, hexposed, hcached, -⟩ := hp
    rw [hc, hcell.exposed] at hexposed
    obtain rfl := Kind.exposed.inj (Option.some.inj hexposed)
    rw [hcell.cached] at hcached
    rw [hc, Kind.cached.inj (Option.some.inj hcached)]
  rw [List.mem_map]
  constructor
  · rintro ⟨item, hitem, heq⟩
    obtain ⟨f, hf, hp⟩ := exists_of_forall₂ haligned hitem
    exact ⟨f, hf, by have := hpair hitem hp; omega⟩
  · rintro ⟨f, hf, rfl⟩
    obtain ⟨item, hitem, hp⟩ := exists_of_forall₂ haligned.flip hf
    exact ⟨item, hitem, hpair hitem hp⟩

/-- The dependency graph tells just what cells on file recorded. -/
theorem Sane.dependsOn_iff (hn : n.Sane sc) {key used : DependencyKey} :
    n.wiring.DependsOn key used ↔ n.Uses key used := by
  have ho := hn.inv.orderly
  have hmembers {key : StatKey} {form : Form} {path : PathKey} {e : FormEntry N}
      (he : n.registry.form? key form path = some e) : used ∈ n.recordedByMembers e.collection
        ↔ ∃ id s, id + 2 ∈ (n.registry.items e.collection).map (·.1) ∧ (used, s) ∈ n.recorded id := by
    simp only [recordedByMembers, List.mem_flatMap, mem_recordedDependencies, hn.mem_members_iff he]
    constructor
    · rintro ⟨f, hf, s, hs⟩
      exact ⟨f.2, s, ⟨f, hf, rfl⟩, hs⟩
    · rintro ⟨_, s, ⟨f, hf, rfl⟩, hs⟩
      exact ⟨f, hf, s, hs⟩
  rw [dependsOn_wiring]
  constructor
  · rintro ⟨g, hg, ⟨e, he, rfl, hused⟩ | ⟨e, he, rfl, hused⟩⟩
    · obtain ⟨s, hs⟩ := mem_recordedDependencies.mp hused
      exact ⟨e.formula, s, ⟨e, ho.nodes_found _ g ((mem_inUse_iff ho).mp hg) e he, rfl⟩, hs⟩
    · have he := ho.forms_found _ g ((mem_inUse_iff ho).mp hg) e he
      obtain ⟨id, s, hid, hs⟩ := (hmembers he).mp hused
      exact ⟨id, s, ⟨e, he, hid⟩, hs⟩
  · rintro ⟨id, s, hid, hs⟩
    cases key with
    | node k =>
      obtain ⟨e, he, rfl⟩ := hid
      obtain ⟨g, hg, hfind⟩ := Registry.stage?_eq_some_iff.mp he
      obtain ⟨hstage, hpath⟩ := Registry.stage?_spec he
      have hkey := Registry.stat_key hg
      refine ⟨g, (mem_inUse_iff ho).mpr (hkey ▸ hg), .inl ⟨e, List.mem_of_find?_eq_some hfind, ?_,
        mem_recordedDependencies.mpr ⟨s, hs⟩⟩⟩
      rw [hkey, hstage, hpath]
    | form key form path =>
      obtain ⟨e, he, hid⟩ := hid
      obtain ⟨g, hg, hfind⟩ := Registry.form?_eq_some_iff.mp he
      obtain ⟨hform, hpath⟩ := Registry.form?_spec he
      have hkey := Registry.stat_key hg
      refine ⟨g, (mem_inUse_iff ho).mpr (hkey ▸ hg), .inr ⟨e, List.mem_of_find?_eq_some hfind, ?_,
        (hmembers he).mpr ⟨id, s, hid, hs⟩⟩⟩
      rw [hkey, hform, hpath]
    | paths key => cases hid

/-! ## Reading what is kept -/

omit [Number N] in
theorem flag_self {c : Nat} {flags : Flags N} (h : n.flags? c = some flags) : n.flag c flags = n := by
  refine (n.relight_congr fun i old hold => ?_).trans n.relight_id
  split
  next hi =>
    subst hi
    exact Option.some.inj (h.symm.trans hold)
  · rfl

/-- Reading a value that is kept evaluates nothing, and leaves all as it is. -/
theorem Sane.valueOf_kept (hn : n.Sane sc) (host : Host N A σ) {c : Nat} {v : Option (Amount N)}
    (hv : n.value? c = some v) : (Network.valueOf host c).run n = some (.ok v, n) := by
  have hobserved : n.isObserved c := hn.inv.lit.shown c (by simp [hv])
  obtain ⟨inner, hkind⟩ := exists_kind?_of_isObserved hobserved
  obtain ⟨node, hnode, rfl⟩ := kind?_eq_cached_iff.mp hkind
  have hold := flags?_of_cached hnode
  have hcache : node.cache = some v := (value?_of_flags hold).symm.trans hv
  have hread (depth : Nat) : (read host (depth + 1) c).run n = some (.ok v, n) := by
    rw [read_apply host depth (cached?_eq_some_iff.mp hnode)]
    -- the node was observed before, so that reading it leaves no trace
    have hsame : n.modifyCached c (fun c => { c with observed := true }) = n := by
      rw [isObserved_of_flags hold] at hobserved
      rw [observe_eq hold, ← hobserved]
      exact flag_self hold
    have hkept : (Network.readCached (read host depth) c node).run n
        = some (.ok v, n.modifyCached c fun c => { c with observed := true }) := by
      rw [Network.readCached, hcache]
      rfl
    rw [hsame] at hkept
    exact hkept
  obtain ⟨depth, hdepth⟩ : ∃ depth, n.readDepth = depth + 1 :=
    Nat.exists_eq_succ_of_ne_zero (by unfold readDepth; omega)
  have henough : read host (depth + 1) c n = some (.ok v, n) := hread depth
  rw [run_apply]
  show readFrom host c n.readDepth n = _
  rw [hdepth, readFrom, henough]

/-! ## Modifiers that come and go -/

/-- What the dependency graph reaches from the collections that a modifier is filed in, and from the paths
of its stats. -/
def Affects (n : Network N A σ) (m : Modifier N) (key : DependencyKey) : Prop :=
  ∃ stat ∈ m.stats, key ∈ n.wiring.allDependents (.form stat.key m.form m.path.key)
    ∨ key ∈ n.wiring.allDependents (.paths stat.key)

/-- The collections that a modifier is filed in, and the paths of its stats. -/
def Touches (m : Modifier N) (key : DependencyKey) : Prop :=
  ∃ stat ∈ m.stats, key = .form stat.key m.form m.path.key ∨ key = .paths stat.key

/-- The nodes that a modifier does not affect keep their values, and are not computed again when they are
read. -/
structure KeepsUnaffected (host : Host N A σ) (n : Network N A σ) (m : Modifier N) (n' : Network N A σ) :
    Prop where
  nodes : ∀ k e v, n.registry.stage? k = some e → n.value? e.cached = some v → ¬ n.Affects m (.node k) →
    (∃ e', n'.registry.stage? k = some e' ∧ e'.cached = e.cached)
      ∧ n'.value? e.cached = some v ∧ (Network.valueOf host e.cached).run n' = some (.ok v, n')
  members : ∀ key form path i c v, i ∈ n.registry.members key form path →
    n.kind? i.1 = some (.exposed c) → n.value? c = some v → ¬ n.Affects m (.form key form path) →
    ¬ Touches m (.form key form path) →
    (∃ i' ∈ n'.registry.members key form path, i'.1 = i.1)
      ∧ n'.value? c = some v ∧ (Network.valueOf host c).run n' = some (.ok v, n')

/-- Changes of the collections and paths that a modifier touches spread no further than the dependency
graph tells. -/
theorem Sane.confines_affected (hn : n.Sane sc) (m : Modifier N) :
    n.Confines fun key => Touches m key ∨ n.Affects m key := by
  intro key used huses hused
  rw [← hn.dependsOn_iff] at huses
  right
  obtain ⟨stat, hstat, hused⟩ | ⟨stat, hstat, hused⟩ := hused
  · refine ⟨stat, hstat, ?_⟩
    rw [(sound_wiring n).mem_allDependents_iff, (sound_wiring n).mem_allDependents_iff]
    obtain rfl | rfl := hused
    · exact .inl (.single huses)
    · exact .inr (.single huses)
  · refine ⟨stat, hstat, ?_⟩
    rw [(sound_wiring n).mem_allDependents_iff, (sound_wiring n).mem_allDependents_iff] at hused ⊢
    exact hused.imp (.head huses) (.head huses)

/-- What is spared by the changes that come with a modifier is kept. -/
theorem Sane.keepsUnaffected (hn : n.Sane sc) (hn' : n'.Sane sc) (host : Host N A σ) {m : Modifier N}
    (h : n.Spares (fun key => Touches m key ∨ n.Affects m key) n') : n.KeepsUnaffected host m n' := by
  have hkept {key : DependencyKey} {id : Nat} {v : Option (Amount N)} (hid : n.Under key id)
      (hv : n.value? (id + 1) = some v) (htouches : ¬ Touches m key) (haffects : ¬ n.Affects m key) :
      n'.Under key id ∧ n'.value? (id + 1) = some v
        ∧ (Network.valueOf host (id + 1)).run n' = some (.ok v, n') := by
    obtain ⟨hunder, hvalue⟩ := h.keeps key id hid (not_or_intro htouches haffects)
    have hv' := hvalue.trans hv
    exact ⟨hunder, hv', hn'.valueOf_kept host hv'⟩
  constructor
  · intro k e v he hv haffects
    have hcached := (hn.inv.wired.stages k e he).cached
    have htouches : ¬ Touches m (.node k) := by
      rintro ⟨stat, -, h | h⟩ <;> cases h
    rw [hcached] at hv ⊢
    have hunder : n.Under (.node k) e.formula := ⟨e, he, rfl⟩
    obtain ⟨⟨e', he', heq⟩, hrest⟩ := hkept hunder hv htouches haffects
    exact ⟨⟨e', he', by rw [(hn'.inv.wired.stages k e' he').cached, heq]⟩, hrest⟩
  · intro key form path i c v hi hc hv haffects htouches
    obtain ⟨e, he, hmem⟩ := Registry.mem_members_iff.mp hi
    obtain ⟨-, -, -, id, hid, hcell⟩ := (hn.inv.wired.forms key form path e he).members i hmem
    obtain rfl : id + 1 = c := by
      rw [hid, hcell.exposed] at hc
      exact Kind.exposed.inj (Option.some.inj hc)
    have hunder : n.Under (.form key form path) id :=
      ⟨e, he, List.mem_map.mpr ⟨i, hmem, hid⟩⟩
    obtain ⟨⟨e', he', hid'⟩, hrest⟩ := hkept hunder hv htouches haffects
    obtain ⟨i', hi', heq⟩ := List.mem_map.mp hid'
    exact ⟨⟨i', Registry.mem_members_iff.mpr ⟨e', he', hi'⟩, heq.trans hid.symm⟩, hrest⟩

/-- No behaviors are installed while no stat in use has any. -/
theorem Rests.installed_eq_nil (hn : n.Rests sc) (hplain : ∀ g ∈ n.inUse, g.stat.behaviors = []) :
    n.installed = [] := by
  have hbalanced := hn.books.balanced
  refine List.eq_nil_iff_forall_not_mem.mpr fun entry hentry => ?_
  have hcount := hbalanced.behaviors.count_pos_iff.mpr (List.mem_map_of_mem hentry)
  have hnone : n.inUse.flatMap (·.stat.behaviors) = [] := List.flatMap_eq_nil_iff.mpr hplain
  rw [hbalanced.installed] at hcount
  rw [show n.books.inUse = n.inUse from rfl, hnone] at hcount
  simp at hcount

end Network

namespace Calculator

variable [Number N]

/-- While no stat has behaviors, a modifier that comes or goes leaves alone what does not depend on a
collection it is filed in, nor on the paths of its stats. -/
theorem Visited.leaves_unaffected {host : Host N A σ} {tell : A → σ → σ} (hhost : host.Aloof tell)
    {n : Network N A σ} (h : Visited host n) (hplain : ∀ g ∈ n.inUse, g.stat.behaviors = [])
    (m : Modifier N) (hm : ∀ s ∈ m.stats, s.behaviors = []) :
    (∃ n', addModifier host m n = some (⟨⟩, n') ∧ n.KeepsUnaffected host m n')
      ∧ ∃ removed n', removeModifier host m n = some (removed, n') ∧ n.KeepsUnaffected host m n' := by
  have hn := h.rests hhost
  have hconfines := hn.sane.confines_affected m
  have hcovers : Covers (fun key => Touches m key ∨ n.Affects m key) m m.stats := fun stat hstat =>
    ⟨.inl ⟨stat, hstat, .inl rfl⟩, .inl ⟨stat, hstat, .inr rfl⟩⟩
  constructor
  · obtain ⟨_, n', hrun, hn', -, hspares⟩ := (hn.leads_add hhost (Regime.free_allows m)).exists_eq
    have hspared := hspares hm (hn.installed_eq_nil hplain) _ hconfines hcovers
    exact ⟨n', hrun, hn.sane.keepsUnaffected hn'.sane host hspared⟩
  · obtain ⟨removed, n', hrun, hn', -, -, hspares⟩ := (hn.leads_remove hhost m).exists_eq
    have hspared := hspares _ hconfines hcovers
    exact ⟨removed, n', hrun, hn.sane.keepsUnaffected hn'.sane host hspared⟩

/-- The total of a stat stays known while a modifier of another stat comes. -/
theorem unaffected_by_another_stat : ∃ (life mana : Stat Float) (m : Modifier Float)
    (n : Network Float Unit Unit) (e : NodeEntry Float) (v : Option (Amount Float)),
    Visited Host.idle n ∧ m.stats = [mana] ∧ life.key ≠ mana.key
      ∧ n.registry.stage? ⟨life.key, .total, (Path.main : Path (Stat Float)).key⟩ = some e
      ∧ n.value? e.cached = some v
      ∧ ∃ n', addModifier Host.idle m n = some (⟨⟩, n') ∧ n'.value? e.cached = some v := by
  let life : Stat Float := ⟨⟨"Life", .character⟩, none, none, .double, true, []⟩
  let mana : Stat Float := ⟨⟨"Mana", .character⟩, none, none, .double, true, []⟩
  let m : Modifier Float := ⟨[mana], .baseAdd, .constant none, 0, ⟨.global, ""⟩⟩
  let k : NodeKey := ⟨life.key, .total, (Path.main : Path (Stat Float)).key⟩
  let facts (n : Network Float Unit Unit) : Bool × Bool × Bool :=
    ((n.registry.stage? k).any fun e => (n.value? e.cached).isSome,
      n.inUse.all fun g => g.stat.behaviors.isEmpty,
      (n.wiring.allDependents (.form mana.key .baseAdd m.path.key)
        ++ n.wiring.allDependents (.paths mana.key)).contains (.node k))
  have hfacts : (Call.run Host.idle (.value life .total Path.main)
      (start .standard none () : Network Float Unit Unit)).map (fun r => facts r.2)
        = some (true, true, false) := by
    decide +kernel
  obtain ⟨r, hrun, hfacts⟩ := Option.map_eq_some_iff.mp hfacts
  obtain ⟨_, n⟩ := r
  obtain ⟨hkept, hplain, hfar⟩ : _ = true ∧ _ = true ∧ _ = false := by
    simpa only [facts, Prod.mk.injEq] using hfacts
  obtain ⟨e, he, hv⟩ : ∃ e, n.registry.stage? k = some e ∧ (n.value? e.cached).isSome := by
    simpa [Option.any_eq_true] using hkept
  obtain ⟨v, hv⟩ := Option.isSome_iff_exists.mp hv
  have hsound : (Call.value life .total Path.main : Call Float Unit).Sound
      (start .standard none () : Network Float Unit Unit) := trivial
  have hvisited : Visited Host.idle n := .call (.start .standard none ()) hsound hrun
  have hall : ∀ g ∈ n.inUse, g.stat.behaviors = [] := by simpa using hplain
  have hspared : ¬ n.Affects m (.node k) := by
    rintro ⟨stat, hstat, h⟩
    obtain rfl := List.mem_singleton.mp hstat
    have hnot : DependencyKey.node k ∉ n.wiring.allDependents (.form mana.key .baseAdd m.path.key)
        ++ n.wiring.allDependents (.paths mana.key) := by simpa using hfar
    exact hnot (List.mem_append.mpr h)
  obtain ⟨⟨n', hadd, hkeeps⟩, -⟩ := hvisited.leaves_unaffected Host.aloof_idle hall m
    (by simp [m, mana])
  exact ⟨life, mana, m, n, e, v, hvisited, rfl, by decide, he, hv, n', hadd,
    (hkeeps.nodes k e v he hv hspared).2.1⟩

end Calculator

end StatEngine
