import StatEngine.Proofs.Reference
import StatEngine.Proofs.Ledger

/-!
# What a network has on file

The nodes of a network are found through its registry: which subgraph belongs to a stat, which nodes to
a stage on a path, which collection to a form on a path, and which modifiers to a collection. The
registry decides what the nodes are to compute (`Registry.inputs`), and it is left as it is by all that
nodes and announcements do among themselves.

## Main definitions

* `Registry`, and its lookups `graph?`, `stage?`, `form?` and `topic?`;
* `Registry.inputs`: the modifiers and paths on file;
* `Regime`: what a network is used for, and which stats are followed; `Scope`: stats without behaviors
  that are used with one definition each, all of which are followed;
* `Registry.Orderly`: what is on file is consistent, and fits a regime.
-/

namespace StatEngine

open Network

/-- Stats without behaviors that bring the stats that bound them along. Each key has one stat. -/
structure Scope (N : Type) where
  /-- The stats. -/
  stats : List (Stat N)
  unique : ∀ s ∈ stats, ∀ t ∈ stats, s.key = t.key → s = t
  minimum : ∀ s ∈ stats, ∀ t, s.minimum = some t → t ∈ stats
  maximum : ∀ s ∈ stats, ∀ t, s.maximum = some t → t ∈ stats
  plain : ∀ s ∈ stats, s.behaviors = []

/-- A stat that may be used next to those of a scope: it is one of them or has another key, and its
behaviors do not affect them. -/
structure Scope.Admits {N : Type} (sc : Scope N) (stat : Stat N) : Prop where
  same : ∀ s ∈ sc.stats, s.key = stat.key → s = stat
  behaviors : ∀ b ∈ stat.behaviors, ∀ s ∈ sc.stats, ∀ stage path, path.via = [] →
    b.affects ⟨s.key, stage, path⟩ = false

theorem Scope.admits_of_mem {N : Type} {sc : Scope N} {stat : Stat N} (h : stat ∈ sc.stats) :
    sc.Admits stat where
  same s hs hkey := sc.unique s hs stat h hkey
  behaviors b hb := by
    rw [sc.plain stat h] at hb
    cases hb

/-- What a network is used for: the stats, paths and formulas that may turn up in it. Some of the stats
are followed, which is to say that their values are to be relied on. A network in which none is may be
used for anything that a regime cares to admit. -/
structure Regime (N : Type) where
  /-- The stats that are followed. -/
  stats : List (Stat N)
  /-- The stats that may turn up. -/
  Admits : Stat N → Prop
  /-- The stats that no behavior affects. -/
  Bare : Stat N → Prop
  /-- The paths that may turn up. -/
  HasPath : Path (Stat N) → Prop
  /-- The formulas that modifiers may have. -/
  HasFormula : Formula N → Prop
  admits : ∀ s ∈ stats, Admits s
  bare : ∀ s ∈ stats, Bare s
  same : ∀ s ∈ stats, ∀ t, Admits t → s.key = t.key → s = t
  minimum : ∀ s ∈ stats, ∀ t, s.minimum = some t → t ∈ stats
  maximum : ∀ s ∈ stats, ∀ t, s.maximum = some t → t ∈ stats
  plain : ∀ s ∈ stats, s.behaviors = []
  unaffected : ∀ t, Admits t → ∀ b ∈ t.behaviors, ∀ s, Bare s → ∀ stage path, HasPath path →
    b.affects ⟨s.key, stage, path.key⟩ = false
  main : HasPath Path.main
  unconverted : ∀ s ∈ stats, ∀ path, HasPath path ↔ path.via = []
  reads : ∀ s ∈ stats, ∀ φ, HasFormula φ → φ.ReadsTotals (· ∈ stats)

namespace Regime

variable {N : Type} (sc : Regime N)

/-- Whether any stat is followed. -/
def Follows : Prop := ∃ s, s ∈ sc.stats

/-- A behavior that leaves the stats alone that no behavior is to affect. -/
def Spares (b : Behavior N) : Prop :=
  ∀ s, sc.Bare s → ∀ stage path, sc.HasPath path → b.affects ⟨s.key, stage, path.key⟩ = false

variable {sc}

theorem follows {s : Stat N} (h : s ∈ sc.stats) : sc.Follows := ⟨s, h⟩

theorem Follows.hasPath_iff (h : sc.Follows) {path : Path (Stat N)} :
    sc.HasPath path ↔ path.via = [] := h.elim fun s hs => sc.unconverted s hs path

theorem Follows.reads (h : sc.Follows) {φ : Formula N} (hφ : sc.HasFormula φ) :
    φ.ReadsTotals (· ∈ sc.stats) := h.elim fun s hs => sc.reads s hs φ hφ

theorem spares {stat : Stat N} (h : sc.Admits stat) : ∀ b ∈ stat.behaviors, sc.Spares b :=
  sc.unaffected stat h

end Regime

/-- The stats of a scope are followed while they are used along with others that it admits. -/
def Scope.regime {N : Type} (sc : Scope N) : Regime N where
  stats := sc.stats
  Admits := sc.Admits
  Bare s := s ∈ sc.stats
  HasPath path := path.via = []
  HasFormula φ := φ.ReadsTotals (· ∈ sc.stats)
  admits _ := sc.admits_of_mem
  bare _ := id
  same s hs t ht := ht.same s hs
  minimum := sc.minimum
  maximum := sc.maximum
  plain := sc.plain
  unaffected t ht b hb s hs stage path hpath := ht.behaviors b hb s hs stage path.key (by
    rw [Path.key, Path.map, hpath, List.map_nil])
  main := rfl
  unconverted _ _ _ := Iff.rfl
  reads _ _ _ := id

/-- What a network has on file. -/
structure Registry (N : Type) where
  /-- The subgraphs. -/
  graphs : Array (Subgraph N)
  /-- The subgraphs in use. -/
  live : List Nat
  /-- The members of each collection. -/
  items : Nat → List (Nat × Modifier N)
  /-- The paths in each set, with their counts. -/
  counts : Nat → List (Path (Stat N) × Nat)
  /-- The formulas with layers. -/
  layering : Nat → Option (Formula N × List (Transformation N))
  /-- The behaviors that are installed. -/
  installed : List (Behavior N × Nat)
  /-- The formulas that behaviors are applied to. -/
  registrations : List Registration
  /-- The stats on the list of the hosts. -/
  listed : List (Stat N × Nat)

namespace Registry

variable {N : Type} (r : Registry N)

/-- The position of the subgraph of a stat. -/
def graphId? (key : StatKey) : Option Nat :=
  r.live.find? fun id => (r.graphs[id]?.map fun g => g.stat.key == key).getD false

/-- The subgraph of a stat. -/
def graph? (key : StatKey) : Option (Subgraph N) := (r.graphId? key).bind fun id => r.graphs[id]?

/-- The nodes of a stage on a path. -/
def stage? (k : NodeKey) : Option (NodeEntry N) :=
  (r.graph? k.stat).bind fun g =>
    g.nodes.find? fun e => e.stage == k.stage && e.path.key == k.path

/-- The collection of a form on a path. -/
def form? (key : StatKey) (form : Form) (path : PathKey) : Option (FormEntry N) :=
  (r.graph? key).bind fun g => g.forms.find? fun e => e.form == form && e.path.key == path

/-- The paths of a stat. -/
def paths (key : StatKey) : List (Path (Stat N)) :=
  ((r.graph? key).map fun g => (r.counts g.paths).map (·.1)).getD []

/-- Where changes of a dependency are announced. -/
def topic? : DependencyKey → Option Topic
  | .node k => (r.stage? k).map fun e => .received e.cached
  | .form key form path => (r.form? key form path).map fun e => .changed e.aggregate
  | .paths key => (r.graph? key).map fun g => .paths g.paths

/-- The members of the collection of a form on a path. -/
def members (key : StatKey) (form : Form) (path : PathKey) : List (Nat × Modifier N) :=
  ((r.form? key form path).map fun e => r.items e.collection).getD []

/-- The modifiers and paths on file. Every stat that is computed gets the main path. -/
def inputs : Inputs N where
  modifiers := fun key form path => (r.members key form path).map (·.2)
  paths := fun key =>
    if Path.main.isIn (r.paths key) then r.paths key else r.paths key ++ [Path.main]

section Lookups

variable {r} {key : StatKey} {g : Subgraph N}

theorem graph?_eq_some_iff :
    r.graph? key = some g ↔ ∃ id, r.graphId? key = some id ∧ r.graphs[id]? = some g := by
  rw [graph?, Option.bind_eq_some_iff]

theorem graphId?_spec {id : Nat} (h : r.graphId? key = some id) :
    id ∈ r.live ∧ ∃ g, r.graphs[id]? = some g ∧ g.stat.key = key := by
  refine ⟨List.mem_of_find?_eq_some h, ?_⟩
  have := List.find?_some h
  cases hg : r.graphs[id]? with
  | none => simp [hg] at this
  | some g => exact ⟨g, rfl, by simpa [hg] using this⟩

theorem stat_key (h : r.graph? key = some g) : g.stat.key = key := by
  obtain ⟨id, hid, hg⟩ := graph?_eq_some_iff.mp h
  obtain ⟨-, g', hg', hkey⟩ := graphId?_spec hid
  obtain rfl := Option.some.inj (hg.symm.trans hg')
  exact hkey

theorem graph?_eq_none_iff : r.graph? key = none ↔ r.graphId? key = none := by
  constructor
  · intro h
    by_contra hne
    obtain ⟨id, hid⟩ := Option.ne_none_iff_exists'.mp hne
    obtain ⟨-, g, hg, -⟩ := graphId?_spec hid
    simp [graph?, hid, hg] at h
  · intro h
    simp [graph?, h]

theorem stage?_eq_some_iff {k : NodeKey} {e : NodeEntry N} :
    r.stage? k = some e ↔ ∃ g, r.graph? k.stat = some g
      ∧ g.nodes.find? (fun e => e.stage == k.stage && e.path.key == k.path) = some e := by
  rw [stage?, Option.bind_eq_some_iff]

theorem form?_eq_some_iff {form : Form} {path : PathKey} {e : FormEntry N} :
    r.form? key form path = some e ↔ ∃ g, r.graph? key = some g
      ∧ g.forms.find? (fun e => e.form == form && e.path.key == path) = some e := by
  rw [form?, Option.bind_eq_some_iff]

theorem stage?_spec {k : NodeKey} {e : NodeEntry N} (h : r.stage? k = some e) :
    e.stage = k.stage ∧ e.path.key = k.path := by
  obtain ⟨g, -, he⟩ := stage?_eq_some_iff.mp h
  simpa using List.find?_some he

theorem form?_spec {form : Form} {path : PathKey} {e : FormEntry N}
    (h : r.form? key form path = some e) : e.form = form ∧ e.path.key = path := by
  obtain ⟨g, -, he⟩ := form?_eq_some_iff.mp h
  simpa using List.find?_some he

/-- Members are in a collection that is on file. -/
theorem mem_members_iff {form : Form} {path : PathKey} {i : Nat × Modifier N} :
    i ∈ r.members key form path
      ↔ ∃ e, r.form? key form path = some e ∧ i ∈ r.items e.collection := by
  rw [members]
  cases r.form? key form path <;> simp

theorem modifiers_eq {form : Form} {path : PathKey} {e : FormEntry N}
    (h : r.form? key form path = some e) :
    r.inputs.modifiers key form path = (r.items e.collection).map (·.2) := by
  simp [inputs, members, h]

theorem paths_eq (h : r.graph? key = some g) : r.paths key = (r.counts g.paths).map (·.1) := by
  simp [paths, h]

end Lookups

/-! ## Other subgraphs -/

section Graphs

/-- The registry with another subgraph at a position. -/
def modifyGraph (id : Nat) (f : Subgraph N → Subgraph N) : Registry N :=
  { r with graphs := r.graphs.modify id f }

variable {r} {key : StatKey} {id : Nat} {f : Subgraph N → Subgraph N}

theorem graphId?_modifyGraph (hstat : ∀ g, (f g).stat = g.stat) (k : StatKey) :
    (r.modifyGraph id f).graphId? k = r.graphId? k := by
  refine congrArg (fun p => r.live.find? p) (funext fun i => ?_)
  rw [modifyGraph, Array.getElem?_modify]
  split
  · simp [hstat, Function.comp_def]
  · rfl

/-- Changing a subgraph changes what is found for its stat, and for no other one. -/
theorem graph?_modifyGraph (hid : r.graphId? key = some id) (hstat : ∀ g, (f g).stat = g.stat)
    (k : StatKey) :
    (r.modifyGraph id f).graph? k = if k = key then (r.graph? k).map f else r.graph? k := by
  rw [graph?, graphId?_modifyGraph hstat, graph?]
  split
  · next hk =>
    rw [hk, hid, Option.bind_some, Option.bind_some, modifyGraph, Array.getElem?_modify, if_pos rfl]
  · next hk =>
    cases hi : r.graphId? k with
    | none => rfl
    | some i =>
      have : id ≠ i := by
        rintro rfl
        obtain ⟨-, g, hg, hkey⟩ := graphId?_spec hid
        obtain ⟨-, g', hg', hkey'⟩ := graphId?_spec hi
        obtain rfl := Option.some.inj (hg.symm.trans hg')
        exact hk (hkey'.symm.trans hkey)
      simp [modifyGraph, Array.getElem?_modify, this]

/-- What is found after a subgraph was changed is the changed one, or was found before. -/
theorem graph?_modifyGraph_cases (hid : r.graphId? key = some id) (hstat : ∀ g, (f g).stat = g.stat)
    {k : StatKey} {g' : Subgraph N} (hg' : (r.modifyGraph id f).graph? k = some g') :
    (k = key ∧ ∃ g, r.graph? k = some g ∧ g' = f g) ∨ k ≠ key ∧ r.graph? k = some g' := by
  rw [graph?_modifyGraph hid hstat] at hg'
  split at hg'
  · next hk =>
    obtain ⟨g, hg, rfl⟩ := Option.map_eq_some_iff.mp hg'
    exact .inl ⟨hk, g, hg, rfl⟩
  · next hk => exact .inr ⟨hk, hg'⟩

end Graphs

/-! ## Consistency -/

/-- How often a path is counted in a set. -/
def count (entries : List (Path (Stat N) × Nat)) (path : Path (Stat N)) : Nat :=
  ((entries.find? (·.1.same path)).map (·.2)).getD 0

/-- How many nodes and collections of a subgraph are on a path. -/
def uses (g : Subgraph N) (path : Path (Stat N)) : Nat :=
  (g.nodes.filter fun e => e.stage.perPath && e.path.same path).length
    + (g.forms.filter fun e => e.path.same path).length

/-- What is on file fits together. -/
structure Orderly (sc : Regime N) : Prop where
  live_nodup : r.live.Nodup
  /-- Every subgraph in use is found for its stat. -/
  live_found : ∀ id ∈ r.live, ∃ g, r.graphs[id]? = some g ∧ r.graphId? g.stat.key = some id
  /-- All nodes and collections of a subgraph are found, and there once. -/
  nodes_found : ∀ k g, r.graph? k = some g → ∀ e ∈ g.nodes, r.stage? ⟨k, e.stage, e.path.key⟩ = some e
  forms_found : ∀ k g, r.graph? k = some g → ∀ e ∈ g.forms, r.form? k e.form e.path.key = some e
  nodes_nodup : ∀ k g, r.graph? k = some g → g.nodes.Nodup
  forms_nodup : ∀ k g, r.graph? k = some g → g.forms.Nodup
  /-- Stats on file are as the regime admits. -/
  admits : ∀ k g, r.graph? k = some g → sc.Admits g.stat
  /-- Stats do not share sets of paths. -/
  sets : ∀ k k' g g', r.graph? k = some g → r.graph? k' = some g' → g.paths = g'.paths → k = k'
  /-- Forms do not share collections. -/
  collections : ∀ k k' f f' p p' e e', r.form? k f p = some e → r.form? k' f' p' = some e' →
    e.collection = e'.collection → k = k' ∧ f = f' ∧ p = p'
  /-- Collections do not share members. -/
  members_disjoint : ∀ k k' f f' p p' e e', r.form? k f p = some e → r.form? k' f' p' = some e' →
    ∀ i ∈ r.items e.collection, ∀ i' ∈ r.items e'.collection, i.1 = i'.1 → e.collection = e'.collection
  members_nodup : ∀ c, ((r.items c).map (·.1)).Nodup
  /-- Stages that are computed once are on the main path. -/
  entry_path : ∀ k e, r.stage? k = some e → stagePath e.stage e.path = e.path
  /-- Paths on file are as the regime admits. -/
  entry_admits : ∀ k e, r.stage? k = some e → sc.HasPath e.path
  form_admits : ∀ k f p e, r.form? k f p = some e → sc.HasPath e.path
  path_admits : ∀ k, ∀ p ∈ r.paths k, sc.HasPath p
  paths_nodup : ∀ k, ((r.paths k).map Path.key).Nodup
  /-- No behavior that is installed affects a stat that is to be left alone. -/
  plain : ∀ b ∈ r.installed, sc.Spares b.1
  /-- Formulas are registered under what they compute. -/
  registered : ∀ k ∈ r.registrations, (∃ path, sc.HasPath path ∧ path.key = k.key.path) ∧ ∃ stat layers,
    r.layering k.formula = some (.stage stat k.key.stage, layers) ∧ stat.key = k.key.stat

variable {r} in
/-- Stats that are followed are on file as they are defined. -/
theorem Orderly.stats {sc : Regime N} (ho : r.Orderly sc) (s : Stat N) (hs : s ∈ sc.stats)
    (g : Subgraph N) (hg : r.graph? s.key = some g) : g.stat = s :=
  (sc.same s hs g.stat (ho.admits s.key g hg) (stat_key hg).symm).symm

variable {r} in
/-- Where stats are followed, there are no paths with conversions. -/
theorem Orderly.entry_via {sc : Regime N} (ho : r.Orderly sc) (hsc : sc.Follows) (k : NodeKey)
    (e : NodeEntry N) (he : r.stage? k = some e) : e.path.via = [] :=
  hsc.hasPath_iff.mp (ho.entry_admits k e he)

variable {r} in
theorem Orderly.path_via {sc : Regime N} (ho : r.Orderly sc) (hsc : sc.Follows) (k : StatKey) :
    ∀ p ∈ r.paths k, p.via = [] :=
  fun p hp => hsc.hasPath_iff.mp (ho.path_admits k p hp)

variable {r} in
theorem Orderly.live_lt {sc : Regime N} (ho : r.Orderly sc) : ∀ id ∈ r.live, id < r.graphs.size :=
  fun id hid => by
    obtain ⟨g, hg, -⟩ := ho.live_found id hid
    exact (Array.getElem?_eq_some_iff.mp hg).1

/-- Every path is counted as often as it is used. -/
def Counted : Prop :=
  ∀ k g, r.graph? k = some g → ∀ path, uses g path ≤ count (r.counts g.paths) path

end Registry

namespace Network

variable {N A σ : Type} (n : Network N A σ)

/-- What the network has on file. -/
def registry : Registry N where
  graphs := n.graphs
  live := n.live
  items := fun c => (n.collections[c]?.map (·.items)).getD []
  counts := fun set => (n.pathSets[set]?.map (·.entries)).getD []
  layering := fun l => n.layered[l]?.map fun x => (x.initial, x.layers)
  installed := n.installed
  registrations := n.registrations
  listed := n.listing.entries

theorem memberNodes_eq (c : Nat) : n.memberNodes c = (n.registry.items c).map (·.1) := by
  simp only [memberNodes, registry]
  cases n.collections[c]? <;> rfl

theorem pathsIn_eq (set : Nat) : n.pathsIn set = (n.registry.counts set).map (·.1) := by
  simp only [pathsIn, registry]
  cases n.pathSets[set]? <;> rfl

theorem graph?_eq (key : StatKey) : n.graph? key = n.registry.graphId? key := rfl

@[simp]
theorem registry_modifyListeners (topic : Topic) (f : List (Attached A) → List (Attached A)) :
    (n.modifyListeners topic f).registry = n.registry := by
  cases topic with
  | members c | paths set | layers l =>
    simp only [registry, modifyListeners]
    congr 1
    funext i
    rw [Array.getElem?_modify]
    split
    · rw [Option.map_map]
      rfl
    · rfl
  | _ => rfl

@[simp]
theorem registry_subscribed (topic : Topic) (listener : Listener A) :
    (n.subscribed topic listener).registry = n.registry := n.registry_modifyListeners topic _

@[simp]
theorem registry_unsubscribeAll (given : List Subscription) :
    (n.unsubscribeAll given).registry = n.registry :=
  n.unsubscribeAll_induction (P := fun m => m.registry = n.registry)
    (fun m topic f h => (m.registry_modifyListeners topic f).trans h) rfl given

@[simp]
theorem registry_mapBody (id : Nat) (f : Body N A → Body N A) :
    (n.mapBody id f).registry = n.registry := rfl

@[simp]
theorem registry_relight (f : Nat → Flags N → Flags N) : (n.relight f).registry = n.registry := rfl

@[simp]
theorem registry_dim (heard : List Nat) (left : Notices σ) :
    (n.dim heard left).registry = n.registry := rfl

@[simp]
theorem registry_pushNode (body : Body N A) : (n.pushNode body).registry = n.registry := rfl

@[simp]
theorem registry_pushHolding (topic : Topic) (listener : Nat → Listener A)
    (body : Subscription → Body N A) : (n.pushHolding topic listener body).registry = n.registry :=
  n.registry_subscribed topic _

@[simp]
theorem registry_releasedAt (id : Nat) : (n.releasedAt id).registry = n.registry :=
  n.registry_unsubscribeAll (n.held id)

end Network

end StatEngine
