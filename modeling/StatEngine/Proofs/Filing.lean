import StatEngine.Network.Growth
import StatEngine.Proofs.Building

/-!
# Putting parts on file

Parts that were made are put on file, and from then on they are found. Nothing is found in another way
than before, apart from what is new, so the network extends.

## Main statements

* `Registry.Orderly.addEntry`, `Registry.Orderly.addForm` and the like: the registry stays consistent;
* `Grows.of_files`: putting parts on file that were made lets a network grow.
-/

namespace StatEngine

open Network

namespace Registry

variable {N : Type} {r : Registry N} {key : StatKey} {id : Nat}

/-! ## Lookups in other subgraphs -/

section ModifyGraph

variable {f : Subgraph N → Subgraph N} (hid : r.graphId? key = some id)
  (hstat : ∀ g, (f g).stat = g.stat)
include hid hstat

theorem stage?_modifyGraph (hnodes : ∀ g, (f g).nodes = g.nodes) (k : NodeKey) :
    (r.modifyGraph id f).stage? k = r.stage? k := by
  rw [stage?, graph?_modifyGraph hid hstat, stage?]
  split
  · cases r.graph? k.stat with
    | none => rfl
    | some g => simp [hnodes]
  · rfl

theorem form?_modifyGraph (hforms : ∀ g, (f g).forms = g.forms) (k : StatKey) (form : Form)
    (p : PathKey) : (r.modifyGraph id f).form? k form p = r.form? k form p := by
  rw [form?, graph?_modifyGraph hid hstat, form?]
  split
  · cases r.graph? k with
    | none => rfl
    | some g => simp [hforms]
  · rfl

theorem paths_modifyGraph (hpaths : ∀ g, (f g).paths = g.paths) (k : StatKey) :
    (r.modifyGraph id f).paths k = r.paths k := by
  rw [paths, graph?_modifyGraph hid hstat, paths]
  split
  · cases r.graph? k with
    | none => rfl
    | some g => simp [hpaths, modifyGraph]
  · rfl

/-- Every subgraph comes from one for the same stat with the same set of paths. -/
theorem exists_graph?_of_modifyGraph (hpaths : ∀ g, (f g).paths = g.paths) {k : StatKey}
    {g' : Subgraph N} (hg' : (r.modifyGraph id f).graph? k = some g') :
    ∃ g, r.graph? k = some g ∧ g'.stat = g.stat ∧ g'.paths = g.paths := by
  obtain ⟨-, g, hg, rfl⟩ | ⟨-, hg⟩ := graph?_modifyGraph_cases hid hstat hg'
  · exact ⟨g, hg, hstat g, hpaths g⟩
  · exact ⟨g', hg, rfl, rfl⟩

end ModifyGraph

/-- The subgraph with nodes more. -/
def addNodes (e : NodeEntry N) (g : Subgraph N) : Subgraph N := { g with nodes := g.nodes ++ [e] }

/-- The subgraph with a collection more. -/
def addCollection (e : FormEntry N) (g : Subgraph N) : Subgraph N :=
  { g with forms := g.forms ++ [e] }

/-- The subgraph without the nodes of a stage on a path. -/
def dropNodes (e : NodeEntry N) (g : Subgraph N) : Subgraph N :=
  { g with nodes := g.nodes.filter fun x => !(x.stage == e.stage && x.path.same e.path) }

/-- The subgraph without the collection of a form on a path. -/
def dropForm (e : FormEntry N) (g : Subgraph N) : Subgraph N :=
  { g with forms := g.forms.filter fun x => !(x.form == e.form && x.path.same e.path) }

section New

variable (hid : r.graphId? key = some id)
include hid

theorem exists_graph : ∃ g, r.graph? key = some g := by
  obtain ⟨-, g, hg, -⟩ := graphId?_spec hid
  exact ⟨g, graph?_eq_some_iff.mpr ⟨id, hid, hg⟩⟩

/-- New nodes are found, and others are found as before. -/
theorem stage?_addNodes {e : NodeEntry N} (hnew : r.stage? ⟨key, e.stage, e.path.key⟩ = none)
    (k : NodeKey) : (r.modifyGraph id (addNodes e)).stage? k
      = if k = ⟨key, e.stage, e.path.key⟩ then some e else r.stage? k := by
  obtain ⟨g, hg⟩ := exists_graph hid
  obtain ⟨stat, stage, path⟩ := k
  rw [stage?, graph?_modifyGraph (f := addNodes e) hid (fun _ => rfl), stage?]
  by_cases hstat : stat = key
  · subst hstat
    rw [if_pos rfl, hg]
    simp only [Option.map_some, Option.bind_some, addNodes, List.find?_append]
    by_cases he : e.stage = stage ∧ e.path.key = path
    · obtain ⟨rfl, rfl⟩ := he
      simp only [stage?, hg, Option.bind_some] at hnew
      simp [hnew]
    · have hne : ¬ (stage = e.stage ∧ path = e.path.key) := fun h => he ⟨h.1.symm, h.2.symm⟩
      have : (e.stage == stage && e.path.key == path) = false := by
        simpa [Bool.and_eq_false_iff, ← not_and_or] using he
      simp [this, hne]
  · rw [if_neg hstat, if_neg (by simp [hstat])]

/-- A new collection is found, and others are found as before. -/
theorem form?_addCollection {e : FormEntry N} (hnew : r.form? key e.form e.path.key = none)
    (k : StatKey) (form : Form) (p : PathKey) :
    (r.modifyGraph id (addCollection e)).form? k form p
      = if k = key ∧ form = e.form ∧ p = e.path.key then some e else r.form? k form p := by
  obtain ⟨g, hg⟩ := exists_graph hid
  rw [form?, graph?_modifyGraph (f := addCollection e) hid (fun _ => rfl), form?]
  by_cases hk : k = key
  · subst hk
    rw [if_pos rfl, hg]
    simp only [Option.map_some, Option.bind_some, addCollection, List.find?_append]
    by_cases he : e.form = form ∧ e.path.key = p
    · obtain ⟨rfl, rfl⟩ := he
      simp only [form?, hg, Option.bind_some] at hnew
      simp [hnew]
    · have hne : ¬ (form = e.form ∧ p = e.path.key) := fun h => he ⟨h.1.symm, h.2.symm⟩
      have : (e.form == form && e.path.key == p) = false := by
        simpa [Bool.and_eq_false_iff, ← not_and_or] using he
      simp [this, hne]
  · rw [if_neg hk, if_neg (by simp [hk])]

end New

/-! ## Consistency -/

namespace Orderly

variable {sc : Regime N}

/-- Other layers leave the registry consistent, if they were registered for what they are. -/
theorem of_layering (h : r.Orderly sc) {layering : Nat → Option (Formula N × List (Transformation N))}
    (hle : ∀ l x, r.layering l = some x → layering l = some x) :
    Orderly { r with layering := layering } sc :=
  { h with
    registered := fun k hk => by
      obtain ⟨hvia, stat, layers, hl, hstat⟩ := h.registered k hk
      exact ⟨hvia, stat, layers, hle _ _ hl, hstat⟩ }

theorem live_found_modifyGraph (h : r.Orderly sc) {f : Subgraph N → Subgraph N}
    (hstat : ∀ g, (f g).stat = g.stat) (i : Nat) (hi : i ∈ r.live) :
    ∃ g, (r.modifyGraph id f).graphs[i]? = some g
      ∧ (r.modifyGraph id f).graphId? g.stat.key = some i := by
  obtain ⟨g, hg, hgraph⟩ := h.live_found i hi
  rw [modifyGraph, Array.getElem?_modify, hg]
  split
  · exact ⟨f g, rfl, by rw [← modifyGraph, graphId?_modifyGraph hstat, hstat, hgraph]⟩
  · exact ⟨g, rfl, by rw [← modifyGraph, graphId?_modifyGraph hstat, hgraph]⟩

/-- Another subgraph leaves the registry consistent, if what is in it is found, and what is new in it
has collections of its own. -/
theorem modifyGraph (h : r.Orderly sc) (hid : r.graphId? key = some id)
    {f : Subgraph N → Subgraph N} (hstat : ∀ g, (f g).stat = g.stat)
    (hpaths : ∀ g, (f g).paths = g.paths)
    (hnodes : ∀ g, r.graph? key = some g → (f g).nodes.Nodup ∧ ∀ e ∈ (f g).nodes,
      (r.modifyGraph id f).stage? ⟨key, e.stage, e.path.key⟩ = some e)
    (hforms : ∀ g, r.graph? key = some g → (f g).forms.Nodup ∧ ∀ e ∈ (f g).forms,
      (r.modifyGraph id f).form? key e.form e.path.key = some e)
    (hentry : ∀ k e, (r.modifyGraph id f).stage? k = some e → r.stage? k = some e
      ∨ stagePath e.stage e.path = e.path ∧ sc.HasPath e.path)
    (hform : ∀ k form p e, (r.modifyGraph id f).form? k form p = some e → r.form? k form p = some e
      ∨ sc.HasPath e.path ∧ r.items e.collection = []
        ∧ ∀ k' form' p' e', (r.modifyGraph id f).form? k' form' p' = some e' →
          e'.collection = e.collection → k' = k ∧ form' = form ∧ p' = p) :
    (r.modifyGraph id f).Orderly sc := by
  have hother {k : StatKey} (hk : k ≠ key) : (r.modifyGraph id f).graph? k = r.graph? k := by
    rw [graph?_modifyGraph hid hstat, if_neg hk]
  have hback {k : StatKey} {g' : Subgraph N} (hg' : (r.modifyGraph id f).graph? k = some g') :=
    exists_graph?_of_modifyGraph hid hstat hpaths hg'
  constructor
  case live_nodup => exact h.live_nodup
  case live_found => exact h.live_found_modifyGraph hstat
  case nodes_found =>
    intro k g' hg' e he
    obtain ⟨rfl, g, hg, rfl⟩ | ⟨hk, hg⟩ := graph?_modifyGraph_cases hid hstat hg'
    · exact (hnodes g hg).2 e he
    · rw [stage?, hother hk]
      exact h.nodes_found k g' hg e he
  case forms_found =>
    intro k g' hg' e he
    obtain ⟨rfl, g, hg, rfl⟩ | ⟨hk, hg⟩ := graph?_modifyGraph_cases hid hstat hg'
    · exact (hforms g hg).2 e he
    · rw [form?, hother hk]
      exact h.forms_found k g' hg e he
  case nodes_nodup =>
    intro k g' hg'
    obtain ⟨rfl, g, hg, rfl⟩ | ⟨-, hg⟩ := graph?_modifyGraph_cases hid hstat hg'
    · exact (hnodes g hg).1
    · exact h.nodes_nodup k g' hg
  case forms_nodup =>
    intro k g' hg'
    obtain ⟨rfl, g, hg, rfl⟩ | ⟨-, hg⟩ := graph?_modifyGraph_cases hid hstat hg'
    · exact (hforms g hg).1
    · exact h.forms_nodup k g' hg
  case admits =>
    intro k g' hg'
    obtain ⟨g, hg, hstat, -⟩ := hback hg'
    exact hstat ▸ h.admits k g hg
  case sets =>
    intro k k' g₁ g₂ hg₁ hg₂ heq
    obtain ⟨g, hg, -, hpaths⟩ := hback hg₁
    obtain ⟨g', hg', -, hpaths'⟩ := hback hg₂
    exact h.sets k k' g g' hg hg' (hpaths ▸ hpaths' ▸ heq)
  case collections =>
    intro k k' form form' p p' e e' he he' heq
    -- a collection that is new belongs to nobody else
    obtain he₀ | ⟨-, -, hfresh⟩ := hform _ _ _ _ he
    · obtain he₀' | ⟨-, -, hfresh'⟩ := hform _ _ _ _ he'
      · exact h.collections k k' form form' p p' e e' he₀ he₀' heq
      · exact hfresh' _ _ _ _ he heq
    · obtain ⟨hk, hf, hp⟩ := hfresh _ _ _ _ he' heq.symm
      exact ⟨hk.symm, hf.symm, hp.symm⟩
  case members_disjoint =>
    intro k k' form form' p p' e e' he he' i hi i' hi' heq
    -- a collection that is new has no members to share
    obtain he₀ | ⟨-, hempty, -⟩ := hform _ _ _ _ he
    · obtain he₀' | ⟨-, hempty, -⟩ := hform _ _ _ _ he'
      · exact h.members_disjoint k k' form form' p p' e e' he₀ he₀' i hi i' hi' heq
      · exact absurd (hempty ▸ hi') List.not_mem_nil
    · exact absurd (hempty ▸ hi) List.not_mem_nil
  case members_nodup => exact h.members_nodup
  case entry_path => exact fun k e he => (hentry k e he).elim (h.entry_path k e) (·.1)
  case entry_admits => exact fun k e he => (hentry k e he).elim (h.entry_admits k e) (·.2)
  case form_admits => exact fun k f p e he => (hform k f p e he).elim (h.form_admits k f p e) (·.1)
  case path_admits =>
    intro k
    rw [paths_modifyGraph hid hstat hpaths]
    exact h.path_admits k
  case paths_nodup =>
    intro k
    rw [paths_modifyGraph hid hstat hpaths]
    exact h.paths_nodup k
  case plain => exact h.plain
  case registered => exact h.registered

/-- New nodes leave the registry consistent. -/
theorem addNodes (h : r.Orderly sc) (hid : r.graphId? key = some id) {e : NodeEntry N}
    (hnew : r.stage? ⟨key, e.stage, e.path.key⟩ = none) (hpath : stagePath e.stage e.path = e.path)
    (hadmits : sc.HasPath e.path) : (r.modifyGraph id (Registry.addNodes e)).Orderly sc := by
  have hentry := stage?_addNodes hid hnew
  have hform := form?_modifyGraph (f := Registry.addNodes e) hid (fun _ => rfl) fun _ => rfl
  refine h.modifyGraph hid (fun _ => rfl) (fun _ => rfl) (fun g hg => ⟨?_, fun e' he' => ?_⟩)
    (fun g hg => ⟨h.forms_nodup key g hg, fun e' he' => ?_⟩) (fun k e' he' => ?_)
    fun k f p e' he' => .inl (hform k f p ▸ he')
  · refine List.nodup_append.mpr ⟨h.nodes_nodup key g hg, List.nodup_singleton e, ?_⟩
    rintro e' he' _ he rfl
    rw [List.mem_singleton.mp he] at he'
    exact absurd (hnew.symm.trans (h.nodes_found key g hg e he')) (by simp)
  · rw [hentry]
    obtain he' | he' := List.mem_append.mp he'
    · have := h.nodes_found key g hg e' he'
      rw [if_neg fun heq => ?_, this]
      rw [heq, hnew] at this
      cases this
    · obtain rfl := List.mem_singleton.mp he'
      rw [if_pos rfl]
  · rw [hform]
    exact h.forms_found key g hg e' he'
  · rw [hentry] at he'
    split at he'
    · obtain rfl := Option.some.inj he'
      exact .inr ⟨hpath, hadmits⟩
    · exact .inl he'

/-- A new collection leaves the registry consistent. -/
theorem addCollection (h : r.Orderly sc) (hid : r.graphId? key = some id) {e : FormEntry N}
    (hnew : r.form? key e.form e.path.key = none) (hadmits : sc.HasPath e.path)
    (hempty : r.items e.collection = [])
    (hfresh : ∀ k f p e', r.form? k f p = some e' → e'.collection ≠ e.collection) :
    (r.modifyGraph id (Registry.addCollection e)).Orderly sc := by
  have hentry := stage?_modifyGraph (f := Registry.addCollection e) hid (fun _ => rfl) fun _ => rfl
  have hform := form?_addCollection hid hnew
  refine h.modifyGraph hid (fun _ => rfl) (fun _ => rfl)
    (fun g hg => ⟨h.nodes_nodup key g hg, fun e' he' => ?_⟩) (fun g hg => ⟨?_, fun e' he' => ?_⟩)
    (fun k e' he' => .inl (hentry k ▸ he')) fun k f p e' he' => ?_
  · rw [hentry]
    exact h.nodes_found key g hg e' he'
  · refine List.nodup_append.mpr ⟨h.forms_nodup key g hg, List.nodup_singleton e, ?_⟩
    rintro e' he' _ he rfl
    rw [List.mem_singleton.mp he] at he'
    exact absurd (hnew.symm.trans (h.forms_found key g hg e he')) (by simp)
  · rw [hform]
    obtain he' | he' := List.mem_append.mp he'
    · have := h.forms_found key g hg e' he'
      rw [if_neg fun heq => ?_, this]
      rw [heq.2.1, heq.2.2, hnew] at this
      cases this
    · obtain rfl := List.mem_singleton.mp he'
      rw [if_pos ⟨rfl, rfl, rfl⟩]
  · rw [hform] at he'
    split at he'
    · next heq =>
      obtain rfl := Option.some.inj he'
      refine .inr ⟨hadmits, hempty, fun k' f' p' e'' he'' hcollection => ?_⟩
      rw [hform] at he''
      split at he''
      · next heq' =>
        exact ⟨heq'.1.trans heq.1.symm, heq'.2.1.trans heq.2.1.symm, heq'.2.2.trans heq.2.2.symm⟩
      · exact absurd hcollection (hfresh _ _ _ _ he'')
    · exact .inl he'

end Orderly

/-! ## What is on file stays -/

theorem inputs_congr {r' : Registry N}
    (hmembers : ∀ k f p, (r'.members k f p).map (·.2) = (r.members k f p).map (·.2))
    (hpaths : ∀ k, r'.inputs.paths k = r.inputs.paths k) : r'.inputs = r.inputs := by
  have ext (i j : Inputs N) (hm : i.modifiers = j.modifiers) (hp : i.paths = j.paths) : i = j := by
    cases i
    cases j
    cases hm
    cases hp
    rfl
  exact ext _ _ (funext fun k => funext fun f => funext fun p => hmembers k f p) (funext hpaths)

/-- What is on file for a stat stays if its subgraph stays with the stat. -/
theorem exists_graph?_modifyGraph (hid : r.graphId? key = some id)
    {f : Subgraph N → Subgraph N} (hstat : ∀ g, (f g).stat = g.stat)
    (hpaths : ∀ g, (f g).paths = g.paths) (k : StatKey) (g : Subgraph N)
    (hg : r.graph? k = some g) : ∃ g', (r.modifyGraph id f).graph? k = some g' ∧ g'.stat = g.stat
      ∧ g'.paths = g.paths := by
  rw [graph?_modifyGraph hid hstat, hg]
  split
  · exact ⟨f g, rfl, hstat g, hpaths g⟩
  · exact ⟨g, rfl, rfl, rfl⟩

namespace Extends

theorem of_layering {layering : Nat → Option (Formula N × List (Transformation N))}
    (hle : ∀ l x, r.layering l = some x → layering l = some x) :
    r.Extends { r with layering := layering } where
  graph _ g h := ⟨g, h, rfl, rfl⟩
  entry _ _ h := h
  form _ _ _ _ h := ⟨h, rfl⟩
  layering := hle
  path _ _ h := h
  paths _ _ := rfl
  inputs := rfl

theorem addNodes (hid : r.graphId? key = some id) {e : NodeEntry N}
    (hnew : r.stage? ⟨key, e.stage, e.path.key⟩ = none) :
    r.Extends (r.modifyGraph id (Registry.addNodes e)) := by
  have hform := form?_modifyGraph (f := Registry.addNodes e) hid (fun _ => rfl) fun _ => rfl
  have hpaths := paths_modifyGraph (f := Registry.addNodes e) hid (fun _ => rfl) fun _ => rfl
  refine ⟨exists_graph?_modifyGraph hid (fun _ => rfl) fun _ => rfl, fun k e' he' => ?_,
    fun k f p e' he' => ⟨(hform k f p).trans he', rfl⟩, fun _ _ h => h, fun k p hp => hpaths k ▸ hp,
    fun k _ => hpaths k, inputs_congr (fun k f p => ?_) fun k => ?_⟩
  · rw [stage?_addNodes hid hnew, if_neg fun heq => ?_, he']
    rw [heq, hnew] at he'
    cases he'
  · rw [members, hform, members]
    rfl
  · simp only [Registry.inputs, hpaths]

theorem addCollection (hid : r.graphId? key = some id) {e : FormEntry N}
    (hnew : r.form? key e.form e.path.key = none) (hitems : r.items e.collection = []) :
    r.Extends (r.modifyGraph id (Registry.addCollection e)) := by
  have hentry := stage?_modifyGraph (f := Registry.addCollection e) hid (fun _ => rfl) fun _ => rfl
  have hform := form?_addCollection hid hnew
  have hpaths := paths_modifyGraph (f := Registry.addCollection e) hid (fun _ => rfl) fun _ => rfl
  refine ⟨exists_graph?_modifyGraph hid (fun _ => rfl) fun _ => rfl,
    fun k e' he' => (hentry k).trans he', fun k f p e' he' => ⟨?_, rfl⟩, fun _ _ h => h,
    fun k p hp => hpaths k ▸ hp, fun k _ => hpaths k, inputs_congr (fun k f p => ?_) fun k => ?_⟩
  · rw [hform, if_neg fun heq => ?_, he']
    rw [heq.1, heq.2.1, heq.2.2, hnew] at he'
    cases he'
  · rw [members, hform, members]
    split
    · next heq =>
      rw [heq.1, heq.2.1, heq.2.2, hnew]
      simp [Registry.modifyGraph, hitems]
    · rfl
  · simp only [Registry.inputs, hpaths]

end Extends

end Registry

namespace Network

variable {N A σ : Type} {sc : Regime N}

/-- The nodes and their listeners are the same, whatever is on file. -/
structure SameNodes (n n' : Network N A σ) : Prop where
  nodes : n'.nodes = n.nodes
  listeners : ∀ t, n'.listeners t = n.listeners t
  topic : ∀ t, n.hasTopic t → n'.hasTopic t
  present : ∀ set, n.isPresent (.paths set) → n'.isPresent (.paths set)
  token : n'.nextToken = n.nextToken
  released : n'.released = n.released
  buffer : n'.buffer = n.buffer
  host : n'.host = n.host

namespace SameNodes

variable {n n' n'' : Network N A σ}

theorem refl (n : Network N A σ) : n.SameNodes n :=
  ⟨rfl, fun _ => rfl, fun _ h => h, fun _ h => h, rfl, rfl, rfl, rfl⟩

theorem trans (h : n.SameNodes n') (h' : n'.SameNodes n'') : n.SameNodes n'' :=
  ⟨h'.nodes.trans h.nodes, fun t => (h'.listeners t).trans (h.listeners t),
    fun t ht => h'.topic t (h.topic t ht), fun s hs => h'.present s (h.present s hs),
    h'.token.trans h.token, h'.released.trans h.released, h'.buffer.trans h.buffer,
    h'.host.trans h.host⟩

theorem notices (h : n.SameNodes n') : n'.notices = n.notices := by
  rw [Network.notices, h.buffer, h.host, Network.notices]

theorem callbacks (h : n.SameNodes n') (t : Topic) : n'.callbacks t = n.callbacks t := by
  rw [Network.callbacks, h.listeners, Network.callbacks]

theorem view (h : n.SameNodes n') (id : Nat) : n'.view? id = n.view? id := by
  rw [view?, body?, h.nodes, view?, body?]

theorem proceeds (h : n.SameNodes n') : n.Proceeds n' where
  toWaits := .of_buffer h.buffer
  kind id kind hkind := (kind?_of_view (h.view id)).trans hkind
  entered c := by rw [isEntered, flags?_of_view (h.view c), isEntered]
  callbacks := h.callbacks

theorem changes {tell : A → σ → σ} (h : n.SameNodes n') : n.Changes tell n' :=
  .of_view h.proceeds h.view (fun _ => h.host) (congrArg Buffer.pending h.buffer)

theorem kind (h : n.SameNodes n') (id : Nat) : n'.kind? id = n.kind? id := kind?_of_view (h.view id)

theorem there (h : n.SameNodes n') (id : Nat) (hid : n.isPresent (.changed id)) :
    n'.isPresent (.changed id) := by
  rwa [isPresent, ← h.nodes] at hid

theorem typed (h : n.SameNodes n') (hn : n.Typed) : n'.Typed := by
  refine hn.of_listeners (fun i kind hkind => (h.kind i).trans hkind)
    (fun t _ ha => .inl (h.listeners t ▸ ha)) fun id hid => ?_
  exact h.there id hid

theorem ledger (h : n.SameNodes n') (hn : n.Ledger) : n'.Ledger :=
  hn.of_eq h.listeners (fun id => held_of_view (h.view id)) h.token.ge

theorem hasCell (h : n.SameNodes n') {id : Nat} {source : FormulaSource N} {p : Path (Stat N)}
    (hcell : n.HasCell id source p) : n'.HasCell id source p := 
  hcell.of_view (fun _ _ => h.view _) (h.there _)

/-- No nodes are new. -/
theorem made (h : n.SameNodes n') (id : Nat) (kind : Kind N A) (hid : n.nodes.size ≤ id)
    (hkind : n'.kind? id = some kind) : n'.Made sc kind :=
  absurd (lt_size_of_kind? ((h.kind id).symm.trans hkind)) (Nat.not_lt_of_le hid)

end SameNodes

/-- Parts that were made are put on file. -/
theorem Grows.of_files {n m n' : Network N A σ} (hb : n.Builds m) (hs : m.SameNodes n')
    (ho : n'.registry.Orderly sc)
    (hmade : ∀ id kind, n.nodes.size ≤ id → n'.kind? id = some kind → n'.Made sc kind)
    (hext : m.registry.Extends n'.registry)
    (hgraph : ∀ k g', n'.registry.graph? k = some g' →
      (∃ g, n.registry.graph? k = some g ∧ g.paths = g'.paths)
        ∨ n'.hasTopic (.paths g'.paths) ∧ n'.isPresent (.paths g'.paths)
          ∧ n'.listeners (.paths g'.paths) = [])
    (hentry : ∀ k e, n'.registry.stage? k = some e → n.registry.stage? k = some e
      ∨ n'.StageCell sc k e ∧ n.nodes.size ≤ e.formula)
    (hform : ∀ k f p e, n'.registry.form? k f p = some e → n.registry.form? k f p = some e
      ∨ n'.FormCell sc e)
    (hlisted : n'.registry.listed = n.registry.listed ∨ n'.Lists)
    (hfollowers : ∀ k f p e, n.registry.form? k f p = some e → n.hasTopic (.members e.collection)) :
    n.Grows sc n' where
  typed := hs.typed hb.typed
  ledger := hs.ledger hb.ledger
  orderly := ho
  released := hs.released.trans hb.released
  waits := .of_buffer (hs.buffer.trans hb.buffer)
  view id hid := (hs.view id).trans (hb.view id hid)
  new id v hid hv := hb.new id v hid ((hs.view id).symm.trans hv)
  made := hmade
  topic t ht := hs.topic t (hb.topic t ht)
  present set hset := hs.present set (hb.present set hset)
  there id hid := hs.there id (hb.there id hid)
  callbacks t := (hs.callbacks t).trans (hb.callbacks t)
  notices := hs.notices.trans hb.notices
  followers k f p e he := (hs.listeners _).trans (hb.followers k f p e he (hfollowers k f p e he))
  registry := by
    obtain ⟨layering, heq, hle⟩ := hb.registry
    exact (Registry.Extends.of_layering hle).trans (heq ▸ hext)
  graph := hgraph
  entry := hentry
  form := hform
  listed hn := by
    obtain hlisted | hlisted := hlisted
    · have hview (id : Nat) (hid : id < n.nodes.size) : n'.view? id = n.view? id :=
        (hs.view id).trans (hb.view id hid)
      obtain ⟨layering, heq, hle⟩ := hb.registry
      have hentry := ((Registry.Extends.of_layering hle).trans (heq ▸ hext)).entry
      refine hn.mono (hlisted ▸ .refl _) (fun _ _ e he => hentry _ e he) fun _ _ _ hkind => ?_
      have hview := hview _ (lt_size_of_kind? hkind)
      exact ⟨kind?_of_view hview, held_of_view hview⟩
    · exact hlisted

end Network

/-! ## Counts of paths -/

section Paths

variable {N : Type} {paths : List (Path (Stat N))} {p : Path (Stat N)}

/-- A path without conversions is told by its key. -/
theorem isIn_iff (hp : p.via = []) : p.isIn paths = true ↔ p ∈ paths := by
  refine ⟨fun h => ?_, isIn_of_mem⟩
  obtain ⟨q, hq, hkey⟩ := List.mem_map.mp (isIn_iff_key.mp h)
  exact path_eq_of_key hp hkey ▸ hq

end Paths

namespace Registry

variable {N : Type} {r : Registry N} {key : StatKey} {g : Subgraph N}

/-- The registry with other counts in a set. -/
def withCounts (r : Registry N) (set : Nat) (entries : List (Path (Stat N) × Nat)) : Registry N :=
  { r with counts := Function.update r.counts set entries }

/-- Every path is counted as often as it is used, but for one use of a path of a stat. -/
def CountedBut (r : Registry N) (key : StatKey) (path : Path (Stat N)) : Prop :=
  ∀ k g, r.graph? k = some g → ∀ q, uses g q
    ≤ count (r.counts g.paths) q + if k = key ∧ path.same q then 1 else 0

theorem paths_withCounts_self (hg : r.graph? key = some g) (entries : List (Path (Stat N) × Nat)) :
    (r.withCounts g.paths entries).paths key = entries.map (·.1) := by
  have : (r.withCounts g.paths entries).graph? key = some g := hg
  rw [paths_eq this]
  simp [withCounts]

theorem paths_withCounts_of_ne {sc : Regime N} (ho : r.Orderly sc) (hg : r.graph? key = some g)
    {k : StatKey} (hk : k ≠ key) (entries : List (Path (Stat N) × Nat)) :
    (r.withCounts g.paths entries).paths k = r.paths k := by
  change (Option.map _ (r.graph? k)).getD [] = (Option.map _ (r.graph? k)).getD []
  cases hg' : r.graph? k with
  | none => rfl
  | some g' =>
    have hne : g'.paths ≠ g.paths := fun h => hk (ho.sets k key g' g hg' hg h)
    simp [withCounts, Function.update_of_ne hne]

theorem Orderly.withCounts {sc : Regime N} (ho : r.Orderly sc) (hg : r.graph? key = some g)
    {entries : List (Path (Stat N) × Nat)} (hadmits : ∀ p ∈ entries.map (·.1), sc.HasPath p)
    (hnodup : ((entries.map (·.1)).map Path.key).Nodup) : (r.withCounts g.paths entries).Orderly sc :=
  { ho with
    path_admits := fun k => by
      by_cases hk : k = key
      · subst hk
        rw [paths_withCounts_self hg]
        exact hadmits
      · rw [paths_withCounts_of_ne ho hg hk]
        exact ho.path_admits k
    paths_nodup := fun k => by
      by_cases hk : k = key
      · subst hk
        rw [paths_withCounts_self hg]
        exact hnodup
      · rw [paths_withCounts_of_ne ho hg hk]
        exact ho.paths_nodup k }

/-- Other counts are not worth anything if the paths are the same, or the main path comes up last. -/
theorem Extends.withCounts {sc : Regime N} (ho : r.Orderly sc) (hg : r.graph? key = some g)
    {entries : List (Path (Stat N) × Nat)}
    (hpaths : entries.map (·.1) = r.paths key
      ∨ Path.main ∉ r.paths key ∧ entries.map (·.1) = r.paths key ++ [Path.main]) :
    r.Extends (r.withCounts g.paths entries) := by
  have hother (k : StatKey) (hk : k ≠ key) := paths_withCounts_of_ne ho hg hk entries
  have hself := paths_withCounts_self hg entries
  refine ⟨fun _ g h => ⟨g, h, rfl, rfl⟩, fun _ _ h => h, fun _ _ _ _ h => ⟨h, rfl⟩, fun _ _ h => h,
    fun k p hp => ?_, fun k hmain => ?_, inputs_congr (fun _ _ _ => rfl) fun k => ?_⟩
  · by_cases hk : k = key
    · subst hk
      rw [hself]
      obtain hpaths | ⟨-, hpaths⟩ := hpaths
      · exact hpaths ▸ hp
      · exact hpaths ▸ List.mem_append_left _ hp
    · exact hother k hk ▸ hp
  · by_cases hk : k = key
    · subst hk
      rw [hself]
      obtain hpaths | ⟨hnot, -⟩ := hpaths
      · exact hpaths
      · exact absurd hmain hnot
    · exact hother k hk
  · by_cases hk : k = key
    · subst hk
      simp only [Registry.inputs, hself]
      obtain hpaths | ⟨hnot, hpaths⟩ := hpaths
      · rw [hpaths]
      · have : (Path.main : Path (Stat N)).isIn (r.paths k) = false := by
          rw [← Bool.not_eq_true, isIn_iff rfl]
          exact hnot
        have hmem : (Path.main : Path (Stat N)).isIn (r.paths k ++ [Path.main]) := by
          simp [Path.isIn, Path.same]
        rw [hpaths, if_pos hmem, this]
        rfl
    · simp only [Registry.inputs, hother k hk]

/-! ## Counting -/

/-- One count more for the paths that are the same as a given one. -/
def bump (path : Path (Stat N)) (entry : Path (Stat N) × Nat) : Path (Stat N) × Nat :=
  if entry.1.same path then (entry.1, entry.2 + 1) else entry

@[simp]
theorem bump_fst (path : Path (Stat N)) (entry : Path (Stat N) × Nat) :
    (bump path entry).1 = entry.1 := by
  rw [bump]
  split <;> rfl

theorem map_fst_bump (path : Path (Stat N)) (entries : List (Path (Stat N) × Nat)) :
    (entries.map (bump path)).map (·.1) = entries.map (·.1) := by
  rw [List.map_map]
  exact List.map_congr_left fun entry _ => bump_fst path entry

theorem count_bump {path : Path (Stat N)} {entries : List (Path (Stat N) × Nat)}
    (h : path.isIn (entries.map (·.1)) = true) (q : Path (Stat N)) :
    count (entries.map (bump path)) q = count entries q + if path.same q then 1 else 0 := by
  have hfind : (entries.map (bump path)).find? (·.1.same q)
      = (entries.find? (·.1.same q)).map (bump path) := by
    rw [List.find?_map]
    congr 2
    funext entry
    simp
  rw [count, hfind, count]
  cases hfound : entries.find? (·.1.same q) with
  | none =>
    have hnot : path.same q = false := by
      by_contra hsame
      obtain ⟨p, hp, hpath⟩ := List.any_eq_true.mp h
      obtain ⟨entry, hentry, rfl⟩ := List.mem_map.mp hp
      refine List.find?_eq_none.mp hfound entry hentry ?_
      simp only [Path.same, beq_iff_eq, Bool.not_eq_false] at hpath hsame ⊢
      exact hpath.trans hsame
    simp [hnot]
  | some entry =>
    have hq : entry.1.key = q.key := by simpa [Path.same] using List.find?_some hfound
    by_cases hsame : path.key = q.key
    · simp [bump, Path.same, hq, hsame]
    · simp [bump, Path.same, hq, hsame, Ne.symm hsame]

theorem count_append {path : Path (Stat N)} {entries : List (Path (Stat N) × Nat)}
    (h : path.isIn (entries.map (·.1)) = false) (q : Path (Stat N)) :
    count (entries ++ [(path, 1)]) q = count entries q + if path.same q then 1 else 0 := by
  rw [count, List.find?_append, count]
  cases hfound : entries.find? (·.1.same q) with
  | none => by_cases hsame : path.same q <;> simp [hsame]
  | some entry =>
    have hnot : path.same q = false := by
      by_contra hsame
      have hq := List.find?_some hfound
      refine List.any_eq_false.mp h entry.1 (List.mem_map_of_mem (List.mem_of_find?_eq_some hfound)) ?_
      simp only [Path.same, beq_iff_eq, Bool.not_eq_false] at hq hsame ⊢
      exact hq.trans hsame.symm
    simp [hnot]

/-- One count less for the paths that are the same as a given one. -/
def lower (path : Path (Stat N)) (entry : Path (Stat N) × Nat) : Path (Stat N) × Nat :=
  if entry.1.same path then (entry.1, entry.2 - 1) else entry

@[simp]
theorem lower_fst (path : Path (Stat N)) (entry : Path (Stat N) × Nat) :
    (lower path entry).1 = entry.1 := by
  rw [lower]
  split <;> rfl

theorem map_fst_lower (path : Path (Stat N)) (entries : List (Path (Stat N) × Nat)) :
    (entries.map (lower path)).map (·.1) = entries.map (·.1) := by
  rw [List.map_map]
  exact List.map_congr_left fun entry _ => lower_fst path entry

theorem count_lower (path : Path (Stat N)) (entries : List (Path (Stat N) × Nat))
    (q : Path (Stat N)) :
    count entries q ≤ count (entries.map (lower path)) q + if path.same q then 1 else 0 := by
  have hfind : (entries.map (lower path)).find? (·.1.same q)
      = (entries.find? (·.1.same q)).map (lower path) := by
    rw [List.find?_map]
    congr 2
    funext entry
    simp
  rw [count, count, hfind]
  cases hfound : entries.find? (·.1.same q) with
  | none => simp
  | some entry =>
    have hq : entry.1.key = q.key := by simpa [Path.same] using List.find?_some hfound
    by_cases hsame : path.key = q.key
    · simp only [Option.map_some, Option.getD_some, lower, Path.same, hq, hsame, beq_self_eq_true,
        if_true]
      omega
    · simp [lower, Path.same, hq, hsame, Ne.symm hsame]

theorem count_filter {path : Path (Stat N)} {entries : List (Path (Stat N) × Nat)}
    (h : count entries path ≤ 1) (q : Path (Stat N)) :
    count entries q ≤ count (entries.filter fun entry => !entry.1.same path) q
      + if path.same q then 1 else 0 := by
  rw [count, count, List.find?_filter]
  by_cases hsame : path.key = q.key
  · rw [count] at h
    simp only [Path.same, hsame, beq_self_eq_true, if_true] at h ⊢
    omega
  · refine le_of_eq ?_
    simp only [Path.same, hsame, beq_iff_eq, if_false, Nat.add_zero]
    congr 3
    funext entry
    by_cases hq : entry.1.key = q.key
    · simp [hq, Ne.symm hsame]
    · simp [hq]

/-- The counts of a set after a path was counted once more. -/
def counting (path : Path (Stat N)) (entries : List (Path (Stat N) × Nat)) :
    List (Path (Stat N) × Nat) :=
  if path.isIn (entries.map (·.1)) then entries.map (bump path) else entries ++ [(path, 1)]

theorem map_fst_counting (path : Path (Stat N)) (entries : List (Path (Stat N) × Nat)) :
    (counting path entries).map (·.1)
      = if path.isIn (entries.map (·.1)) then entries.map (·.1) else entries.map (·.1) ++ [path] := by
  rw [counting]
  split
  · exact map_fst_bump path entries
  · rw [List.map_append]
    rfl

theorem count_counting (path : Path (Stat N)) (entries : List (Path (Stat N) × Nat))
    (q : Path (Stat N)) : count (counting path entries) q
      = count entries q + if path.same q then 1 else 0 := by
  rw [counting]
  split
  · next h => exact count_bump h q
  · next h => exact count_append (by simpa using h) q

/-- The registry after a path of a subgraph was counted once more. -/
def countPath (r : Registry N) (g : Subgraph N) (path : Path (Stat N)) : Registry N :=
  r.withCounts g.paths (counting path (r.counts g.paths))

section CountPath

variable {sc : Regime N} {path : Path (Stat N)}

theorem paths_countPath (hg : r.graph? key = some g) : (r.countPath g path).paths key
    = if path.isIn (r.paths key) then r.paths key else r.paths key ++ [path] := by
  rw [countPath, paths_withCounts_self hg, map_fst_counting, ← paths_eq hg]

theorem mem_paths_countPath (hg : r.graph? key = some g) {p : Path (Stat N)}
    (hp : p ∈ r.paths key) : p ∈ (r.countPath g path).paths key := by
  rw [paths_countPath hg]
  split
  · exact hp
  · exact List.mem_append_left _ hp

theorem Orderly.main_countPath (ho : r.Orderly sc) (hg : r.graph? key = some g) {k : StatKey}
    (hk : Path.main ∈ r.paths k) : Path.main ∈ (r.countPath g path).paths k := by
  by_cases heq : k = key
  · subst heq
    exact mem_paths_countPath hg hk
  · rw [Registry.countPath, paths_withCounts_of_ne ho hg heq]
    exact hk

theorem Orderly.countPath (ho : r.Orderly sc) (hg : r.graph? key = some g)
    (hadmits : sc.HasPath path) : (r.countPath g path).Orderly sc := by
  have hpaths : (counting path (r.counts g.paths)).map (·.1) = _ :=
    (paths_withCounts_self hg _).symm.trans (paths_countPath hg)
  refine ho.withCounts hg (fun p hp => ?_) ?_
  · rw [hpaths] at hp
    split at hp
    · exact ho.path_admits key p hp
    · obtain hp | hp := List.mem_append.mp hp
      · exact ho.path_admits key p hp
      · rwa [List.mem_singleton.mp hp]
  · rw [hpaths]
    split
    · exact ho.paths_nodup key
    · next hnot =>
      rw [List.map_append, List.map_singleton]
      refine List.nodup_append.mpr ⟨ho.paths_nodup key, List.nodup_singleton _, fun a ha b hb => ?_⟩
      rintro rfl
      rw [List.mem_singleton.mp hb] at ha
      exact hnot (isIn_iff_key.mpr ha)

/-- Counting a path that is there, or the main path, is not worth anything. -/
theorem Extends.countPath (ho : r.Orderly sc) (hg : r.graph? key = some g)
    (hpath : path = Path.main ∨ path.isIn (r.paths key)) : r.Extends (r.countPath g path) := by
  have hpaths : (counting path (r.counts g.paths)).map (·.1) = _ :=
    (paths_withCounts_self hg _).symm.trans (paths_countPath hg)
  refine .withCounts ho hg ?_
  by_cases hin : path.isIn (r.paths key) = true
  · exact .inl (hpaths.trans (if_pos hin))
  · obtain rfl | hpath := hpath
    · exact .inr ⟨mt (isIn_iff rfl).mpr hin, hpaths.trans (if_neg hin)⟩
    · exact absurd hpath hin

end CountPath

/-- After a path was counted, every path is counted as often as it is used. -/
theorem CountedBut.withCounts {sc : Regime N} (ho : r.Orderly sc) (hg : r.graph? key = some g)
    {path : Path (Stat N)} (h : r.CountedBut key path) {entries : List (Path (Stat N) × Nat)}
    (hcount : ∀ q, count entries q
      = count (r.counts g.paths) q + if path.same q then 1 else 0) :
    (r.withCounts g.paths entries).Counted := by
  intro k g' hg' q
  have hle := h k g' hg' q
  by_cases hk : k = key
  · subst hk
    obtain rfl := Option.some.inj (hg.symm.trans hg')
    simpa [Registry.withCounts, hcount] using hle
  · have hne : g'.paths ≠ g.paths := fun heq => hk (ho.sets k key g' g hg' hg heq)
    simpa [Registry.withCounts, Function.update_of_ne hne, hk] using hle

/-- What is used once more is counted once less than it is used at most. -/
theorem Counted.modifyGraph (h : r.Counted) {id : Nat} (hid : r.graphId? key = some id)
    {f : Subgraph N → Subgraph N} (hstat : ∀ g, (f g).stat = g.stat)
    (hpaths : ∀ g, (f g).paths = g.paths) {path : Path (Stat N)}
    (huses : ∀ g q, uses (f g) q ≤ uses g q + if path.same q then 1 else 0) :
    (r.modifyGraph id f).CountedBut key path := by
  intro k g' hg' q
  obtain ⟨rfl, g, hg, rfl⟩ | ⟨-, hg⟩ := graph?_modifyGraph_cases hid hstat hg'
  · have := h k g hg q
    have := huses g q
    simp only [true_and, hpaths, Registry.modifyGraph]
    omega
  · exact (h k g' hg q).trans (Nat.le_add_right _ _)

end Registry

namespace Network

variable {N A σ : Type} {sc : Regime N} (n : Network N A σ) (set : Nat)
  (f : List (Path (Stat N) × Nat) → List (Path (Stat N) × Nat))

theorem registry_modifyPaths (h : n.hasTopic (.paths set)) :
    (n.modifyPaths set f).registry = n.registry.withCounts set (f (n.registry.counts set)) := by
  have hlt : set < n.pathSets.size := h
  have : (n.modifyPaths set f).registry.counts
      = Function.update n.registry.counts set (f (n.registry.counts set)) := by
    funext i
    simp only [registry, modifyPaths, Array.getElem?_modify, Function.update_apply]
    by_cases hi : i = set
    · subst hi
      simp [Array.getElem?_eq_getElem hlt]
    · simp [hi, Ne.symm hi]
  exact congrArg (fun counts => { n.registry with counts := counts }) this

theorem sameNodes_modifyPaths : n.SameNodes (n.modifyPaths set f) := by
  refine ⟨rfl, fun t => ?_, fun t ht => ?_, fun s hs => ?_, rfl, rfl, rfl, rfl⟩
  · cases t with
    | paths s =>
      simp only [listeners, modifyPaths, Array.getElem?_modify]
      split
      · rw [Option.map_map]
        rfl
      · rfl
    | _ => rfl
  · cases t with
    | paths s =>
      change s < (n.pathSets.modify set _).size
      rwa [Array.size_modify]
    | _ => exact ht
  · simp only [isPresent, modifyPaths, Array.getElem?_modify] at hs ⊢
    split
    · rw [Option.map_map]
      exact hs
    · exact hs

end Network

end StatEngine
