import StatEngine.Proofs.Announcing

/-!
# Parts that are made

What a network looks like with a subgraph, the nodes of a stage, or a collection more, and on file. No
modifier comes or goes with that, and no path.

## Main statements

* `Wired.grows_withGraph`, `Wired.grows_withStageIn` and `Core.grows_withFormIn`: a network with parts
  more that were put on file has grown.
-/

namespace StatEngine

open Network

namespace Registry

variable {N : Type} {r r' r'' : Registry N}

/-- The same modifiers and paths are on file, and nodes of stages stay on file. -/
structure Akin (r r' : Registry N) : Prop where
  members : ∀ k f p, r'.members k f p = r.members k f p
  paths : ∀ k, r'.paths k = r.paths k
  stages : ∀ k e, r.stage? k = some e → r'.stage? k = some e

namespace Akin

theorem refl (r : Registry N) : r.Akin r := ⟨fun _ _ _ => rfl, fun _ => rfl, fun _ _ h => h⟩

theorem trans (h : r.Akin r') (h' : r'.Akin r'') : r.Akin r'' :=
  ⟨fun k f p => (h'.members k f p).trans (h.members k f p), fun k => (h'.paths k).trans (h.paths k),
    fun k e he => h'.stages k e (h.stages k e he)⟩

end Akin

theorem Akin.addNodes {key : StatKey} {id : Nat} (hid : r.graphId? key = some id) {e : NodeEntry N}
    (hnew : r.stage? ⟨key, e.stage, e.path.key⟩ = none) :
    r.Akin (r.modifyGraph id (addNodes e)) where
  members k f p := by
    have hform := form?_modifyGraph (f := Registry.addNodes e) hid (fun _ => rfl) (fun _ => rfl) k f p
    rw [Registry.members, hform, Registry.members]
    rfl
  paths k := paths_modifyGraph (f := Registry.addNodes e) hid (fun _ => rfl) (fun _ => rfl) k
  stages k e' he' := by
    rw [stage?_addNodes hid hnew, if_neg, he']
    rintro rfl
    rw [hnew] at he'
    cases he'

theorem Akin.addCollection {key : StatKey} {id : Nat} (hid : r.graphId? key = some id)
    {e : FormEntry N} (hnew : r.form? key e.form e.path.key = none) (hitems : r.items e.collection = []) :
    r.Akin (r.modifyGraph id (addCollection e)) where
  members k f p := by
    rw [Registry.members, form?_addCollection hid hnew, Registry.members]
    split
    · next heq =>
      rw [heq.1, heq.2.1, heq.2.2, hnew]
      exact hitems
    · rfl
  paths k := paths_modifyGraph (f := Registry.addCollection e) hid (fun _ => rfl) (fun _ => rfl) k
  stages k e' he' := by
    rw [stage?_modifyGraph (f := Registry.addCollection e) hid (fun _ => rfl) fun _ => rfl, he']

theorem Relayered.akin (h : r.Relayered r') : r.Akin r' where
  members k f p := by rw [Registry.members, h.form?, h.items, Registry.members]
  paths := h.paths
  stages k e he := (h.stage? k).trans he

/-! ## New subgraphs -/

/-- The registry with a subgraph more. -/
def withGraph (r : Registry N) (stat : Stat N) (set : Nat) : Registry N :=
  { r with
    graphs := r.graphs.push ⟨stat, [], [], 0, set⟩
    live := r.live ++ [r.graphs.size] }

section WithGraph

variable {sc : Regime N} {stat : Stat N} {set : Nat} (hlive : ∀ id ∈ r.live, id < r.graphs.size)
  (hnew : r.graphId? stat.key = none)
include hlive hnew

theorem graphId?_withGraph (k : StatKey) : (r.withGraph stat set).graphId? k
    = if k = stat.key then some r.graphs.size else r.graphId? k := by
  have hold : r.live.find? (fun id =>
      ((r.withGraph stat set).graphs[id]?.map fun g => g.stat.key == k).getD false) = r.graphId? k := by
    rw [graphId?, ← List.head?_filter, ← List.head?_filter]
    refine congrArg List.head? (List.filter_congr fun id hid => ?_)
    rw [withGraph, Array.getElem?_push, if_neg (hlive id hid).ne]
  have hlast : ((r.withGraph stat set).graphs[r.graphs.size]?.map fun g => g.stat.key == k).getD false
      = decide (stat.key = k) := by
    rw [withGraph, Array.getElem?_push, if_pos rfl]
    rfl
  rw [graphId?, withGraph, List.find?_append]
  change ((r.live.find? fun id => ((r.withGraph stat set).graphs[id]?.map _).getD false).or _) = _
  rw [hold]
  by_cases hk : k = stat.key
  · subst hk
    rw [hnew, if_pos rfl, Option.none_or]
    simp only [List.find?_cons]
    change (match ((r.withGraph stat set).graphs[r.graphs.size]?.map _).getD false with
      | true => _ | false => _) = _
    rw [hlast]
    simp
  · rw [if_neg hk]
    simp only [List.find?_cons]
    change ((r.graphId? k).or (match ((r.withGraph stat set).graphs[r.graphs.size]?.map _).getD false
      with | true => _ | false => _)) = _
    rw [hlast]
    simp [Ne.symm hk]

theorem graph?_withGraph (k : StatKey) : (r.withGraph stat set).graph? k
    = if k = stat.key then some ⟨stat, [], [], 0, set⟩ else r.graph? k := by
  rw [graph?, graphId?_withGraph hlive hnew]
  split
  · simp [withGraph]
  · cases hid : r.graphId? k with
    | none => simp [graph?, hid]
    | some id =>
      obtain ⟨-, g, hg, -⟩ := graphId?_spec hid
      have hlt : id < r.graphs.size := (Array.getElem?_eq_some_iff.mp hg).1
      simp [graph?, hid, withGraph, Array.getElem?_push, hlt.ne]

/-- A subgraph is the new one, which is empty, or was found before. -/
theorem graph?_withGraph_cases {k : StatKey} {g : Subgraph N}
    (hg : (r.withGraph stat set).graph? k = some g) :
    (k = stat.key ∧ g = ⟨stat, [], [], 0, set⟩) ∨ r.graph? k = some g := by
  rw [graph?_withGraph hlive hnew] at hg
  split at hg
  · next hk => exact .inl ⟨hk, (Option.some.inj hg).symm⟩
  · exact .inr hg

omit hlive in
theorem graph?_eq_none : r.graph? stat.key = none := graph?_eq_none_iff.mpr hnew

theorem stage?_withGraph (k : NodeKey) : (r.withGraph stat set).stage? k = r.stage? k := by
  rw [stage?, graph?_withGraph hlive hnew, stage?]
  split
  · next hk => rw [hk, graph?_eq_none hnew]; rfl
  · rfl

theorem form?_withGraph (k : StatKey) (form : Form) (p : PathKey) :
    (r.withGraph stat set).form? k form p = r.form? k form p := by
  rw [form?, graph?_withGraph hlive hnew, form?]
  split
  · next hk => rw [hk, graph?_eq_none hnew]; rfl
  · rfl

theorem paths_withGraph (hset : r.counts set = []) (k : StatKey) :
    (r.withGraph stat set).paths k = r.paths k := by
  rw [paths, graph?_withGraph hlive hnew, paths]
  split
  · next hk => rw [hk, graph?_eq_none hnew]; simp [withGraph, hset]
  · rfl

theorem Akin.withGraph (hset : r.counts set = []) : r.Akin (r.withGraph stat set) where
  members k f p := by rw [Registry.members, form?_withGraph hlive hnew, Registry.members]; rfl
  paths := paths_withGraph hlive hnew hset
  stages k e he := (stage?_withGraph hlive hnew k).trans he

theorem Extends.withGraph (hset : r.counts set = []) : r.Extends (r.withGraph stat set) where
  graph k g hg := by
    refine ⟨g, ?_, rfl, rfl⟩
    rw [graph?_withGraph hlive hnew, if_neg, hg]
    rintro rfl
    simp [graph?_eq_none hnew] at hg
  entry k e he := (stage?_withGraph hlive hnew k).trans he
  form k f p e he := ⟨(form?_withGraph hlive hnew k f p).trans he, rfl⟩
  layering _ _ h := h
  path k p hp := (paths_withGraph hlive hnew hset k).symm ▸ hp
  paths k _ := paths_withGraph hlive hnew hset k
  inputs := inputs_congr (fun k f p => by rw [(Akin.withGraph hlive hnew hset).members]) fun k => by
    simp only [Registry.inputs, paths_withGraph hlive hnew hset]

omit hlive in
/-- A new subgraph leaves the registry consistent, if it has a set of paths of its own. -/
theorem Orderly.withGraph (ho : r.Orderly sc) (hadmits : sc.Admits stat) (hset : r.counts set = [])
    (hfresh : ∀ k g, r.graph? k = some g → g.paths ≠ set) : (r.withGraph stat set).Orderly sc := by
  have hcases {k : StatKey} {g : Subgraph N} (hg : (r.withGraph stat set).graph? k = some g) :=
    graph?_withGraph_cases ho.live_lt hnew hg
  have hgraphId (k : StatKey) : (r.withGraph stat set).graphId? k = _ :=
    graphId?_withGraph ho.live_lt hnew k
  have hentry (k : NodeKey) : (r.withGraph stat set).stage? k = _ := stage?_withGraph ho.live_lt hnew k
  have hform (k : StatKey) (f : Form) (p : PathKey) : (r.withGraph stat set).form? k f p = _ :=
    form?_withGraph ho.live_lt hnew k f p
  have hpaths := paths_withGraph ho.live_lt hnew hset
  -- the new subgraph is empty, so what is found was found before
  constructor
  case live_nodup =>
    refine List.nodup_append.mpr ⟨ho.live_nodup, by simp, fun id hid id' hid' => ?_⟩
    rintro rfl
    rw [List.mem_singleton.mp hid'] at hid
    obtain ⟨g, hg, -⟩ := ho.live_found _ hid
    simp at hg
  case live_found =>
    intro id hid
    obtain hid | hid := List.mem_append.mp hid
    · obtain ⟨g, hg, hgid⟩ := ho.live_found id hid
      have hlt : id < r.graphs.size := (Array.getElem?_eq_some_iff.mp hg).1
      refine ⟨g, by rw [Registry.withGraph, Array.getElem?_push, if_neg hlt.ne, hg], ?_⟩
      rw [hgraphId, if_neg, hgid]
      intro hkey
      rw [hkey, hnew] at hgid
      cases hgid
    · rw [List.mem_singleton.mp hid]
      exact ⟨⟨stat, [], [], 0, set⟩, by simp [Registry.withGraph], by rw [hgraphId, if_pos rfl]⟩
  case nodes_found =>
    intro k g hg e he
    obtain ⟨-, rfl⟩ | hg := hcases hg
    · cases he
    · exact (hentry _).trans (ho.nodes_found k g hg e he)
  case forms_found =>
    intro k g hg e he
    obtain ⟨-, rfl⟩ | hg := hcases hg
    · cases he
    · exact (hform ..).trans (ho.forms_found k g hg e he)
  case nodes_nodup =>
    intro k g hg
    obtain ⟨-, rfl⟩ | hg := hcases hg
    · exact .nil
    · exact ho.nodes_nodup k g hg
  case forms_nodup =>
    intro k g hg
    obtain ⟨-, rfl⟩ | hg := hcases hg
    · exact .nil
    · exact ho.forms_nodup k g hg
  case admits =>
    intro k g hg
    obtain ⟨-, rfl⟩ | hg := hcases hg
    · exact hadmits
    · exact ho.admits k g hg
  case sets =>
    intro k k' g g' hg hg' heq
    -- both are the new one, or neither is, as its set of paths is its own
    obtain ⟨hk, rfl⟩ | hg := hcases hg <;> obtain ⟨hk', rfl⟩ | hg' := hcases hg'
    · exact hk.trans hk'.symm
    · exact absurd heq.symm (hfresh _ _ hg')
    · exact absurd heq (hfresh _ _ hg)
    · exact ho.sets k k' g g' hg hg' heq
  case collections =>
    intro k k' f f' p p' e e' he he'
    rw [hform] at he he'
    exact ho.collections k k' f f' p p' e e' he he'
  case members_disjoint =>
    intro k k' f f' p p' e e' he he'
    rw [hform] at he he'
    exact ho.members_disjoint k k' f f' p p' e e' he he'
  case members_nodup => exact ho.members_nodup
  case entry_path => exact fun k e he => ho.entry_path k e (hentry k ▸ he)
  case entry_admits => exact fun k e he => ho.entry_admits k e (hentry k ▸ he)
  case form_admits => exact fun k f p e he => ho.form_admits k f p e (hform k f p ▸ he)
  case path_admits => exact fun k p hp => ho.path_admits k p (hpaths k ▸ hp)
  case paths_nodup => exact fun k => (hpaths k).symm ▸ ho.paths_nodup k
  case plain => exact ho.plain
  case registered => exact ho.registered

theorem Counted.withGraph (h : r.Counted) : (r.withGraph stat set).Counted := by
  intro k g hg path
  rw [graph?_withGraph hlive hnew] at hg
  split at hg
  · cases hg
    simp [uses]
  · exact h k g hg path

end WithGraph

/-- What is used by no more than before is counted as often as it is used. -/
theorem Counted.modifyGraph_le (h : r.Counted) {key : StatKey} {id : Nat}
    (hid : r.graphId? key = some id) {f : Subgraph N → Subgraph N} (hstat : ∀ g, (f g).stat = g.stat)
    (hpaths : ∀ g, (f g).paths = g.paths) (huses : ∀ g q, uses (f g) q ≤ uses g q) :
    (r.modifyGraph id f).Counted := by
  intro k g' hg' q
  obtain ⟨-, g, hg, rfl⟩ | ⟨-, hg⟩ := graph?_modifyGraph_cases hid hstat hg'
  · rw [hpaths]
    exact (huses g q).trans (h k g hg q)
  · exact h k g' hg q

theorem uses_addNodes (e : NodeEntry N) (g : Subgraph N) (q : Path (Stat N)) :
    uses (addNodes e g) q = uses g q + if e.stage.perPath && e.path.same q then 1 else 0 := by
  simp only [uses, addNodes, List.filter_append, List.length_append, List.filter_singleton]
  cases e.stage.perPath && e.path.same q
  · rfl
  · simp
    omega

theorem uses_addCollection (e : FormEntry N) (g : Subgraph N) (q : Path (Stat N)) :
    uses (addCollection e g) q = uses g q + if e.path.same q then 1 else 0 := by
  simp only [uses, addCollection, List.filter_append, List.length_append, List.filter_singleton]
  cases e.path.same q
  · rfl
  · simp
    omega

/-- The paths that nodes and collections are on are counted. -/
theorem Counted.isIn_paths (h : r.Counted) {k : StatKey} {g : Subgraph N}
    (hg : r.graph? k = some g) {path : Path (Stat N)} (huses : 0 < uses g path) :
    path.isIn (r.paths k) := by
  have hcount : 0 < count (r.counts g.paths) path := huses.trans_le (h k g hg path)
  rw [paths_eq hg, Path.isIn, List.any_map]
  rw [count] at hcount
  cases hfind : (r.counts g.paths).find? (·.1.same path) with
  | none => simp [hfind] at hcount
  | some entry =>
    refine List.any_eq_true.mpr ⟨entry, List.mem_of_find?_eq_some hfind, ?_⟩
    exact List.find?_some hfind

/-- Stats with modifiers of a form on a path have the path. -/
theorem Counted.isIn_paths_of_form (h : r.Counted) {k : StatKey} {form : Form} {p : PathKey}
    {e : FormEntry N} (he : r.form? k form p = some e) : e.path.isIn (r.paths k) := by
  obtain ⟨g, hg, hfind⟩ := form?_eq_some_iff.mp he
  refine h.isIn_paths hg (Nat.lt_of_lt_of_le ?_ (Nat.le_add_left _ _))
  refine List.length_pos_of_mem (a := e) (List.mem_filter.mpr ⟨List.mem_of_find?_eq_some hfind, ?_⟩)
  simp [Path.same]

end Registry

end StatEngine

namespace StatEngine.Network

variable {N A σ : Type} {sc : Regime N} {n : Network N A σ}

/-- The network with a subgraph more. -/
def withGraph (n : Network N A σ) (stat : Stat N) : Network N A σ :=
  { n with
    pathSets := n.pathSets.push ⟨[], [], false⟩
    graphs := n.graphs.push ⟨stat, [], [], 0, n.pathSets.size⟩
    live := n.live ++ [n.graphs.size] }

theorem addGraph_eq (n : Network N A σ) (stat : Stat N) :
    addGraph stat n = some (n.graphs.size, n.withGraph stat) := rfl

theorem counts_size (n : Network N A σ) : n.registry.counts n.pathSets.size = [] := by
  simp [registry]

theorem registry_withGraph (n : Network N A σ) (stat : Stat N) :
    (n.withGraph stat).registry = n.registry.withGraph stat n.pathSets.size := by
  have : (n.withGraph stat).registry.counts = n.registry.counts := by
    funext set
    simp only [registry, withGraph, Array.getElem?_push]
    split
    · next hset => simp [hset]
    · rfl
  exact congrArg (fun counts => { n.registry.withGraph stat n.pathSets.size with counts := counts }) this

theorem sameNodes_withGraph (n : Network N A σ) (stat : Stat N) : n.SameNodes (n.withGraph stat) := by
  refine ⟨rfl, fun t => ?_, fun t ht => ?_, fun s hs => ?_, rfl, rfl, rfl, rfl⟩
  · cases t with
    | paths set =>
      simp only [listeners, withGraph, Array.getElem?_push]
      split
      · next hset => simp [hset]
      · rfl
    | _ => rfl
  · cases t with
    | paths set =>
      have hlt : set < n.pathSets.size := ht
      change set < (n.pathSets.push _).size
      rw [Array.size_push]
      omega
    | _ => exact ht
  · have hlt : s < n.pathSets.size := by
      by_contra hge
      simp [isPresent, Array.getElem?_eq_none (Nat.le_of_not_lt hge)] at hs
    simp only [isPresent, withGraph, Array.getElem?_push, if_neg hlt.ne] at hs ⊢
    exact hs

theorem Wired.paths_lt (hn : n.Wired sc) {k : StatKey} {g : Subgraph N}
    (hg : n.registry.graph? k = some g) : g.paths < n.pathSets.size := (hn.sets k g hg).1

/-- A subgraph is made for a stat that has none. -/
theorem Wired.grows_withGraph (hn : n.Wired sc) (ho : n.registry.Orderly sc) {stat : Stat N}
    (hnew : n.registry.graphId? stat.key = none) (hadmits : sc.Admits stat) :
    n.Grows sc (n.withGraph stat) := by
  have hs := n.sameNodes_withGraph stat
  have hr := n.registry_withGraph stat
  have hset := n.counts_size
  refine .of_files (.refl hn.typed hn.ledger) hs ?_ hs.made ?_ (fun k g' hg' => ?_)
    (fun k e he => .inl ?_)
    (fun k f p e he => .inl ?_) (.inl rfl) fun k f p e he => (hn.forms k f p e he).topic
  · rw [hr]
    exact ho.withGraph hnew hadmits hset fun k g hg => (hn.paths_lt hg).ne
  · rw [hr]
    exact .withGraph ho.live_lt hnew hset
  · rw [hr, Registry.graph?_withGraph ho.live_lt hnew] at hg'
    split at hg'
    · cases hg'
      refine .inr ⟨?_, ?_, ?_⟩
      · change n.pathSets.size < (n.pathSets.push _).size
        rw [Array.size_push]
        exact Nat.lt_succ_self _
      · simp [isPresent, withGraph]
      · rw [hs.listeners]
        simp [listeners]
    · exact .inl ⟨g', hg', rfl⟩
  · rwa [hr, Registry.stage?_withGraph ho.live_lt hnew] at he
  · rwa [hr, Registry.form?_withGraph ho.live_lt hnew] at he

/-! ## Nodes of stages -/

/-- The network with the nodes more of a stage on a path. -/
def withStage (n : Network N A σ) (stat : Stat N) (stage : Stage) (path : Path (Stat N))
    (label : String) : Network N A σ :=
  ((n.withLayered (.stage stat stage)).pushHolding (.layers n.layered.size) .relay fun s =>
    .formula ⟨.layered n.layered.size, path, [], some s⟩).withKept n.nodes.size label

section WithStage

variable (n) (stat : Stat N) (stage : Stage) (path : Path (Stat N)) (label : String)

theorem formula_withStage : ((n.withLayered (.stage stat stage)).pushHolding
    (.layers n.layered.size) .relay fun s =>
      .formula ⟨.layered n.layered.size, path, [], some s⟩).kind? n.nodes.size
      = some (.formula (.layered n.layered.size) path) := by
  rw [pushHolding, kind?_pushNode, size_subscribed]
  exact if_pos rfl

theorem isPresent_formula_withStage : ((n.withLayered (.stage stat stage)).pushHolding
    (.layers n.layered.size) .relay fun s =>
      .formula ⟨.layered n.layered.size, path, [], some s⟩).isPresent (.changed n.nodes.size) := by
  have := isPresent_pushNode_self ((n.withLayered (.stage stat stage)).subscribed
    (.layers n.layered.size) (.relay n.nodes.size)) (.formula ⟨.layered n.layered.size, path, [],
      some ⟨.layers n.layered.size, n.nextToken⟩⟩)
  rwa [size_subscribed] at this

theorem size_formula_withStage : ((n.withLayered (.stage stat stage)).pushHolding
    (.layers n.layered.size) .relay fun s =>
      .formula ⟨.layered n.layered.size, path, [], some s⟩).nodes.size = n.nodes.size + 1 := by
  rw [pushHolding, size_pushNode, size_subscribed]
  rfl

theorem hasTopic_withLayered :
    (n.withLayered (.stage stat stage)).hasTopic (.layers n.layered.size) := by
  change n.layered.size < (n.layered.push _).size
  rw [Array.size_push]
  exact Nat.lt_succ_self _

variable {n stat stage path label} in
/-- Making the nodes of a stage before going on. -/
theorem leads_addStage {α : Type} {b : Prop} {next : Nat → Nat → Nat → Nat → Run N A σ α}
    {post : α → Network N A σ → Prop} (h : Leads b (next n.layered.size n.nodes.size
      (n.nodes.size + 1) (n.nodes.size + 2)) (n.withStage stat stage path label) post) :
    Leads b (do
      let layered ← addLayered (.stage stat stage)
      let formula ← addLayeredFormula layered path
      let cached ← addCached formula label
      let exposed ← addExposed cached
      next layered formula cached exposed) n post := by
  refine .eq_bind (addLayered_eq n _) ?_
  refine .eq_bind (addLayeredFormula_eq _ (n.hasTopic_withLayered stat stage) path) ?_
  exact leads_addKept (n.formula_withStage stat stage path) (n.size_formula_withStage stat stage path) h

variable {n} in
theorem builds_withStage (htyped : n.Typed) (hledger : n.Ledger) :
    n.Builds (n.withStage stat stage path label) := by
  have hlayered := (Builds.refl htyped hledger).withLayered (.stage stat stage)
  have hformula := n.formula_withStage stat stage path
  refine Builds.withKept (hlayered.pushHolding (n.hasTopic_withLayered stat stage) (fun id => (rfl : (Listener.relay id).node? = _))
    (fun _ => rfl) (fun _ => rfl) ⟨?_, ?_, rfl, fun _ _ _ s hs => ?_, ?_, ?_⟩ ⟨_, path, hformula⟩ (by simp))
    hformula (n.size_formula_withStage stat stage path) label
  · simp [Body.view, Body.flags?]
  · simp [Body.view, Body.held]
  · exact ⟨_, congrArg Subscription.topic (List.mem_singleton.mp hs)⟩
  · simp [Body.view, Body.kind]
  · simp [Body.view, Body.kind]

theorem hasCell_withStage : (n.withStage stat stage path label).HasCell n.nodes.size
    (.layered n.layered.size) path :=
  hasCell_withKept (n.formula_withStage stat stage path)
    (n.isPresent_formula_withStage stat stage path) (n.size_formula_withStage stat stage path) label

theorem layering_withStage : (n.withStage stat stage path label).registry.layering n.layered.size
    = some (.stage stat stage, []) := by
  rw [withStage, withKept, registry_pushNode, registry_pushHolding, registry_pushHolding]
  simp [registry, withLayered]

end WithStage

/-- Which nodes belong to a stage that is made. -/
def stageEntry (n : Network N A σ) (stage : Stage) (path : Path (Stat N)) : NodeEntry N :=
  ⟨stage, path, n.nodes.size, n.nodes.size + 1, n.nodes.size + 2⟩

theorem sameNodes_modifyGraph (n : Network N A σ) (id : Nat) (f : Subgraph N → Subgraph N) :
    n.SameNodes (n.modifyGraph id f) :=
  ⟨rfl, fun t => by cases t <;> rfl, fun t h => by cases t <;> exact h, fun _ h => h, rfl, rfl,
    rfl, rfl⟩

theorem registry_modifyGraph (n : Network N A σ) (id : Nat) (f : Subgraph N → Subgraph N) :
    (n.modifyGraph id f).registry = n.registry.modifyGraph id f := rfl

section Files

variable {key : StatKey} {graph : Nat} {g : Subgraph N}

/-- The network with the nodes more of a stage on a path, on file in a subgraph. -/
def withStageIn (n : Network N A σ) (graph : Nat) (stat : Stat N) (stage : Stage)
    (path : Path (Stat N)) (label : String) : Network N A σ :=
  (n.withStage stat stage path label).modifyGraph graph
    (Registry.addNodes (n.stageEntry stage path))

/-- The nodes that are made for a stage on a path. -/
structure MakesStage (n n' : Network N A σ) (key : StatKey) (g : Subgraph N) (e : NodeEntry N) :
    Prop where
  graphId? : ∀ k, n'.registry.graphId? k = n.registry.graphId? k
  graph? : n'.registry.graph? key = some (Registry.addNodes e g)
  stage? : ∀ k, n'.registry.stage? k
    = if k = ⟨key, e.stage, e.path.key⟩ then some e else n.registry.stage? k
  form? : ∀ k f p, n'.registry.form? k f p = n.registry.form? k f p
  layering : n'.registry.layering n.layered.size = some (.stage g.stat e.stage, [])
  installed : n'.installed = n.installed
  akin : n.registry.Akin n'.registry

section MakesStage

variable (hn : n.Wired sc) (hid : n.registry.graphId? key = some graph)
  (hg : n.registry.graph? key = some g) {stage : Stage} {path : Path (Stat N)}
  (hnew : n.registry.stage? ⟨key, stage, path.key⟩ = none) (label : String)
include hn hid hnew

include hg in
theorem Wired.makesStage : n.MakesStage (n.withStageIn graph g.stat stage path label) key g
    (n.stageEntry stage path) := by
  obtain ⟨layering, heq, -⟩ := (builds_withStage g.stat stage path label hn.typed hn.ledger).registry
  have hid' : (n.withStage g.stat stage path label).registry.graphId? key = some graph := by
    rw [heq]
    exact hid
  have hnew' : (n.withStage g.stat stage path label).registry.stage?
      ⟨key, (n.stageEntry stage path).stage, (n.stageEntry stage path).path.key⟩ = none := by
    rw [heq]
    exact hnew
  constructor
  case graphId? =>
    intro k
    have hgraphId : ((n.withStage g.stat stage path label).registry.modifyGraph graph
        (Registry.addNodes (n.stageEntry stage path))).graphId? k = _ :=
      Registry.graphId?_modifyGraph (f := Registry.addNodes (n.stageEntry stage path)) (fun _ => rfl) k
    rw [withStageIn, registry_modifyGraph, hgraphId, heq]
    rfl
  case graph? =>
    have hgraph := Registry.graph?_modifyGraph (f := Registry.addNodes (n.stageEntry stage path)) hid'
      (fun _ => rfl) key
    rw [withStageIn, registry_modifyGraph, hgraph, if_pos rfl, heq]
    exact congrArg (Option.map _) hg
  case stage? =>
    intro k
    rw [withStageIn, registry_modifyGraph, Registry.stage?_addNodes hid' hnew', heq]
    rfl
  case form? =>
    intro k f p
    have hform := Registry.form?_modifyGraph (f := Registry.addNodes (n.stageEntry stage path)) hid'
      (fun _ => rfl) (fun _ => rfl) k f p
    rw [withStageIn, registry_modifyGraph, hform, heq]
    rfl
  case layering => exact n.layering_withStage g.stat stage path label
  case installed => exact congrArg Registry.installed heq
  case akin =>
    have hakin := Registry.Akin.addNodes (e := n.stageEntry stage path) hid' (by rw [heq]; exact hnew)
    rw [withStageIn, registry_modifyGraph]
    rw [heq] at hakin ⊢
    exact ⟨hakin.members, hakin.paths, hakin.stages⟩

omit hnew in
/-- Nodes on a path use it once more. -/
theorem Wired.countedBut_withStageIn (hcounted : n.registry.Counted) (stat : Stat N) :
    (n.withStageIn graph stat stage path label).registry.CountedBut key path
      ∧ (stage.perPath = false → (n.withStageIn graph stat stage path label).registry.Counted) := by
  obtain ⟨layering, heq, -⟩ := (builds_withStage stat stage path label hn.typed hn.ledger).registry
  have hid' : (n.withStage stat stage path label).registry.graphId? key = some graph := by
    rw [heq]
    exact hid
  have hcounted' : (n.withStage stat stage path label).registry.Counted := by
    rw [heq]
    exact hcounted
  have huses := Registry.uses_addNodes (n.stageEntry stage path)
  refine ⟨hcounted'.modifyGraph (f := Registry.addNodes (n.stageEntry stage path)) hid' (fun _ => rfl)
    (fun _ => rfl) fun g q => ?_, fun hper => hcounted'.modifyGraph_le
      (f := Registry.addNodes (n.stageEntry stage path)) hid' (fun _ => rfl) (fun _ => rfl) fun g q => ?_⟩
  · rw [huses, stageEntry]
    refine Nat.add_le_add_left ?_ _
    split <;> simp_all
  · rw [huses]
    simp [stageEntry, hper]

include hg in
/-- The nodes of a stage are made and put on file. -/
theorem Wired.grows_withStageIn (ho : n.registry.Orderly sc) (hpath : stagePath stage path = path)
    (hadmits : sc.HasPath path) : n.Grows sc (n.withStageIn graph g.stat stage path label) := by
  have hb := builds_withStage g.stat stage path label hn.typed hn.ledger
  have hmakes := hn.makesStage hid hg hnew label
  have hs := (n.withStage g.stat stage path label).sameNodes_modifyGraph graph
    (Registry.addNodes (n.stageEntry stage path))
  obtain ⟨layering, heq, hle⟩ := hb.registry
  have hid' : (n.withStage g.stat stage path label).registry.graphId? key = some graph := by
    rw [heq]
    exact hid
  have hnew' : (n.withStage g.stat stage path label).registry.stage? ⟨key, stage, path.key⟩ = none := by
    rw [heq]
    exact hnew
  have ho' : (n.withStage g.stat stage path label).registry.Orderly sc := heq ▸ ho.of_layering hle
  have hvoices : (n.withStage g.stat stage path label).Made sc (.formula (.layered n.layered.size) path) :=
    ⟨hadmits, g.stat, stage, [], n.layering_withStage g.stat stage path label, ho.admits _ g hg, fun _ => rfl⟩
  have hmade := made_withKept (n.formula_withStage g.stat stage path)
    (n.size_formula_withStage g.stat stage path) hvoices
  refine .of_files hb hs (ho'.addNodes hid' hnew' hpath hadmits) (fun id kind hid hkind => ?_)
    (.addNodes hid' hnew')
    (fun k g' hg' => .inl ?_) (fun k e he => ?_) (fun k f p e he => .inl (hmakes.form? k f p ▸ he))
    (.inl ?_) fun k f p e he => (hn.forms k f p e he).topic
  · exact (hmade id kind hid ((hs.kind id).symm.trans hkind)).mono (fun id kind h => (hs.kind id).trans h)
      fun l s stage layers hl => ⟨layers, hl, fun _ => rfl⟩
  · rw [withStageIn, registry_modifyGraph] at hg'
    obtain ⟨g₀, hg₀, -, hpaths⟩ := Registry.exists_graph?_of_modifyGraph
      (f := Registry.addNodes (n.stageEntry stage path)) hid' (fun _ => rfl) (fun _ => rfl) hg'
    rw [heq] at hg₀
    exact ⟨g₀, hg₀, hpaths.symm⟩
  · rw [hmakes.stage?] at he
    split at he
    · next hk =>
      cases he
      subst hk
      have hcell := hs.hasCell (n.hasCell_withStage g.stat stage path label)
      exact .inr ⟨⟨rfl, rfl, n.layered.size, _, [], hcell, hmakes.graph?, hmakes.layering, fun _ => rfl⟩,
        le_rfl⟩
    · exact .inl he
  · rw [withStageIn, registry_modifyGraph, heq]
    rfl

end MakesStage

/-! ## Collections -/

/-- The network with a collection more, and a node that follows it. -/
def withForm (n : Network N A σ) (form : Form) : Network N A σ :=
  n.withCollection.pushHolding (.members n.collections.size) .follow fun s =>
    .aggregate ⟨n.collections.size, form, some s, []⟩

/-- What belongs to a form that a collection is made for. -/
def formEntry (n : Network N A σ) (form : Form) (path : Path (Stat N)) : FormEntry N :=
  ⟨form, path, n.collections.size, n.nodes.size⟩

/-- The network with a collection more, on file in a subgraph. -/
def withFormIn (n : Network N A σ) (graph : Nat) (form : Form) (path : Path (Stat N)) :
    Network N A σ :=
  (n.withForm form).modifyGraph graph (Registry.addCollection (n.formEntry form path))

section WithForm

variable (form : Form) {path : Path (Stat N)}

theorem hasTopic_withCollection (n : Network N A σ) :
    n.withCollection.hasTopic (.members n.collections.size) := by
  change n.collections.size < (n.collections.push _).size
  rw [Array.size_push]
  exact Nat.lt_succ_self _

theorem kind?_withForm (n : Network N A σ) : (n.withForm form).kind? n.nodes.size
    = some (.aggregate n.collections.size form) := by
  rw [withForm, pushHolding, kind?_pushNode, size_subscribed]
  exact if_pos rfl

theorem items_size (n : Network N A σ) : n.registry.items n.collections.size = [] := by
  simp [registry]

theorem builds_withForm (hn : n.Wired sc) : n.Builds (n.withForm form) := by
  refine (Builds.refl hn.typed hn.ledger).withCollection.pushHolding n.hasTopic_withCollection
    (fun id => (rfl : (Listener.follow id).node? = _)) (fun _ => rfl) (fun _ => rfl)
    ⟨?_, ?_, rfl, ?_, fun _ _ _ s hs => ?_, ?_⟩ ⟨form, n.kind?_withForm form⟩
    fun k f p e he heq => ?_
  · simp [Body.view, Body.flags?]
  · simp [Body.view, Body.held]
  · simp [Body.view, Body.kind]
  · exact ⟨_, congrArg Subscription.topic (List.mem_singleton.mp hs)⟩
  · simp [Body.view, Body.kind]
  · have hlt : e.collection < n.collections.size := (hn.forms k f p e he).topic
    exact hlt.ne' (Topic.members.inj heq)

theorem registry_withForm (n : Network N A σ) : (n.withForm form).registry = n.registry := by
  refine (n.withCollection.registry_pushHolding _ _ _).trans ?_
  have : n.withCollection.registry.items = n.registry.items := by
    funext c
    simp only [Network.registry, Network.withCollection, Array.getElem?_push]
    split
    · next hc => rw [Array.getElem?_eq_none hc.ge]; rfl
    · rfl
  exact congrArg (fun items => { n.registry with items := items }) this

theorem registry_withFormIn (n : Network N A σ) (graph : Nat) (path : Path (Stat N)) :
    (n.withFormIn graph form path).registry
      = n.registry.modifyGraph graph (Registry.addCollection (n.formEntry form path)) := by
  rw [withFormIn, registry_modifyGraph, registry_withForm]

/-- A new collection has one follower and no members. -/
theorem formCell_withFormIn (n : Network N A σ) (graph : Nat) (path : Path (Stat N)) :
    (n.withFormIn graph form path).FormCell sc (n.formEntry form path) := by
  have hs := (n.withForm form).sameNodes_modifyGraph graph
    (Registry.addCollection (n.formEntry form path))
  have htopic := n.hasTopic_withCollection
  have hitems : (n.withFormIn graph form path).registry.items n.collections.size = [] := by
    rw [registry_withFormIn]
    exact n.items_size
  have hfollowed : (n.withFormIn graph form path).followed n.nodes.size = [] := by
    rw [withFormIn, followed_of_view (hs.view _), withForm, pushHolding, followed_pushNode,
      size_subscribed]
    exact if_pos rfl
  refine ⟨(hs.kind _).trans (n.kind?_withForm form), hs.topic _ ?_, ⟨n.nextToken, ?_⟩, ?_, ?_, ?_⟩
  · exact hasTopic_pushNode _ _ ((hasTopic_subscribed ..).mpr htopic)
  · rw [withFormIn, hs.listeners, withForm, pushHolding, listeners_pushNode _ _ rfl, formEntry,
      listeners_subscribed_self _ _ htopic]
    simp only [listeners, withCollection, Array.getElem?_push_size]
    rfl
  · rw [formEntry, hfollowed, hitems]
    rfl
  · rw [formEntry, hfollowed]
    simp
  · rw [formEntry, hitems]
    simp

/-- A collection is made and put on file. -/
theorem Core.grows_withFormIn [Number N] (hn : n.Core sc)
    (hid : n.registry.graphId? key = some graph) (hnew : n.registry.form? key form path.key = none)
    (hadmits : sc.HasPath path) : n.Grows sc (n.withFormIn graph form path) := by
  have hb := builds_withForm form hn.wired
  have hs := (n.withForm form).sameNodes_modifyGraph graph
    (Registry.addCollection (n.formEntry form path))
  have hfresh (k : StatKey) (f : Form) (p : PathKey) (e : FormEntry N)
      (he : n.registry.form? k f p = some e) : e.collection ≠ n.collections.size := by
    have hlt : e.collection < n.collections.size := (hn.wired.forms k f p e he).topic
    exact hlt.ne
  have hreg := n.registry_withFormIn form graph path
  have hform := Registry.form?_addCollection (e := n.formEntry form path) hid hnew
  refine .of_files hb hs ?_ (fun i kind hi hkind => ?_) ?_ (fun k g' hg' => .inl ?_)
    (fun k e he => .inl ?_) (fun k f p e he => ?_) (.inl ?_)
    fun k f p e he => (hn.wired.forms k f p e he).topic
  · exact hreg ▸ hn.orderly.addCollection hid hnew hadmits n.items_size hfresh
  · have hlt := lt_size_of_kind? ((hs.kind i).symm.trans hkind)
    have hi' : i = n.nodes.size := by
      rw [withForm, size_pushHolding] at hlt
      exact Nat.le_antisymm (Nat.lt_succ_iff.mp hlt) hi
    have hform := (hs.kind i).symm.trans hkind
    rw [hi', kind?_withForm] at hform
    cases hform
    trivial
  · rw [registry_withForm]
    exact hreg ▸ .addCollection hid hnew n.items_size
  · change (n.withFormIn graph form path).registry.graph? k = some g' at hg'
    rw [hreg] at hg'
    obtain ⟨g, hg, -, hpaths⟩ := Registry.exists_graph?_of_modifyGraph
      (f := Registry.addCollection (n.formEntry form path)) hid (fun _ => rfl) (fun _ => rfl) hg'
    exact ⟨g, hg, hpaths.symm⟩
  · change (n.withFormIn graph form path).registry.stage? k = some e at he
    have hentry := Registry.stage?_modifyGraph (f := Registry.addCollection (n.formEntry form path)) hid
      (fun _ => rfl) (fun _ => rfl) k
    rw [hreg, hentry] at he
    exact he
  · change (n.withFormIn graph form path).registry.form? k f p = some e at he
    rw [hreg, hform] at he
    split at he
    · cases he
      exact .inr (n.formCell_withFormIn form graph path)
    · exact .inl he
  · rw [hreg]
    rfl

end WithForm

end Files

/-! ## Lists -/

/-- The network with another list for hosts. -/
def withListed (n : Network N A σ) (entries : List (Stat N × Nat)) : Network N A σ :=
  { n with listing := { n.listing with entries := entries } }

theorem sameNodes_withListed (n : Network N A σ) (entries : List (Stat N × Nat)) :
    n.SameNodes (n.withListed entries) :=
  ⟨rfl, fun t => by cases t <;> rfl, fun t h => by cases t <;> exact h, fun _ h => h, rfl, rfl,
    rfl, rfl⟩

/-- The network with a node more that passes on to hosts what a cached node announces. -/
def withWrapped (n : Network N A σ) (inner : Nat) : Network N A σ :=
  n.pushHolding (.changed inner) .relay fun s => .wrapped inner (some s)

/-- The network with the total of a stat listed for hosts. -/
def withListing (n : Network N A σ) (stat : Stat N) (inner : Nat) : Network N A σ :=
  (n.withWrapped inner).withListed (n.registry.listed ++ [(stat, n.nodes.size)])

section WithListing

variable {sc : Regime N} {n : Network N A σ} {stat : Stat N} (inner : Nat)

theorem kind?_withWrapped : (n.withWrapped inner).kind? n.nodes.size = some (.wrapped inner) := by
  rw [withWrapped, pushHolding, kind?_pushNode, size_subscribed, if_pos rfl]
  rfl

theorem held_withWrapped :
    (n.withWrapped inner).held n.nodes.size = [⟨.changed inner, n.nextToken⟩] := by
  rw [withWrapped, pushHolding, held_pushNode, size_subscribed, if_pos rfl]
  rfl

theorem registry_withListing : (n.withListing stat inner).registry
    = { n.registry with listed := n.registry.listed ++ [(stat, n.nodes.size)] } :=
  congrArg (fun r : Registry N => { r with listed := n.registry.listed ++ [(stat, n.nodes.size)] })
    (n.registry_pushHolding ..)

variable {inner}

theorem Wired.builds_withWrapped (hn : n.Wired sc) {i : Nat}
    (hinner : n.kind? inner = some (.cached i)) : n.Builds (n.withWrapped inner) := by
  have hlt := lt_size_of_kind? hinner
  have hkept : (n.withWrapped inner).kind? inner = some (.cached i) := by
    rw [withWrapped, pushHolding, kind?_pushNode, size_subscribed, if_neg hlt.ne, kind?_subscribed,
      hinner]
  refine (Builds.refl hn.typed hn.ledger).pushHolding (show n.hasTopic (.changed inner) from hlt)
    (fun id => (rfl : (Listener.relay id).node? = _)) (fun _ => rfl) (fun _ => rfl)
    ⟨?_, ?_, rfl, ?_, ?_, ?_⟩ (.inr ⟨⟨i, hkept⟩, kind?_withWrapped inner⟩) (by simp)
  · simp [Body.view, Body.flags?]
  · simp [Body.view, Body.held]
  · simp [Body.view, Body.kind]
  · simp [Body.view, Body.kind]
  · simp [Body.view, Body.kind]

variable {e : NodeEntry N} (he : n.registry.stage? ⟨stat.key, .total, Path.main⟩ = some e)
include he

/-- The list stays as it should be if the stat was not on it. -/
theorem Lists.withListing (hn : n.Lists) (hb : n.Builds (n.withWrapped e.cached))
    (hnew : ∀ x ∈ n.registry.listed, x.1.key ≠ stat.key) : (n.withListing stat e.cached).Lists := by
  have hs := (n.withWrapped e.cached).sameNodes_withListed
    (n.registry.listed ++ [(stat, n.nodes.size)])
  have hstage (k : NodeKey) : (n.withListing stat e.cached).registry.stage? k = n.registry.stage? k := by
    rw [registry_withListing]
    rfl
  refine ⟨?_, fun x hx => ?_⟩
  · rw [registry_withListing, List.map_append]
    refine List.nodup_append.mpr ⟨hn.nodup, List.nodup_singleton _, fun k hk k' hk' => ?_⟩
    obtain ⟨x, hx, rfl⟩ := List.mem_map.mp hk
    obtain rfl := List.mem_singleton.mp hk'
    exact hnew x hx
  · rw [registry_withListing] at hx
    obtain hx | hx := List.mem_append.mp hx
    · obtain ⟨e', he', hwrapped, hholds⟩ := hn.shows x hx
      have hview := (hs.view x.2).trans (hb.view x.2 (lt_size_of_kind? hwrapped))
      exact ⟨e', (hstage _).trans he', (kind?_of_view hview).trans hwrapped,
        held_of_view hview ▸ hholds⟩
    · obtain rfl := List.mem_singleton.mp hx
      refine ⟨e, (hstage _).trans he, (hs.kind _).trans (kind?_withWrapped _),
        ⟨.changed e.cached, n.nextToken⟩, ?_, rfl⟩
      rw [Network.withListing, held_of_view (hs.view _), held_withWrapped]
      exact List.mem_singleton_self _

/-- A stat that is listed for hosts is listed with a new node, and all else stays on file. -/
theorem Core.grows_withListing [Number N] (hn : n.Core sc)
    (hnew : ∀ x ∈ n.registry.listed, x.1.key ≠ stat.key) :
    n.Grows sc (n.withListing stat e.cached) := by
  obtain ⟨hcached, -, l, -, -, hcell, -⟩ := hn.wired.stages _ e he
  have hb := hn.wired.builds_withWrapped (hcached ▸ hcell.cached)
  have hs := (n.withWrapped e.cached).sameNodes_withListed
    (n.registry.listed ++ [(stat, n.nodes.size)])
  have hr : (n.withWrapped e.cached).registry = n.registry := n.registry_pushHolding ..
  have hlisting : (n.withListing stat e.cached).registry
      = { n.registry with listed := n.registry.listed ++ [(stat, n.nodes.size)] } :=
    registry_withListing e.cached
  have hfiled {α : Type} (find : Registry N → α) (hfind : ∀ r listed, find { r with listed } = find r) :
      find (n.withListing stat e.cached).registry = find n.registry := by
    rw [hlisting, hfind]
  refine .of_files hb hs ?_ (fun i kind hi hk => ?_) ?_
    (fun k g hg => .inl ⟨g, (hfiled (·.graph? k) fun _ _ => rfl).symm.trans hg, rfl⟩)
    (fun k e he => .inl ((hfiled (·.stage? k) fun _ _ => rfl).symm.trans he))
    (fun k f p e he => .inl ((hfiled (·.form? k f p) fun _ _ => rfl).symm.trans he))
    (.inr (hn.listed.withListing he hb hnew)) fun k f p e he => (hn.wired.forms k f p e he).topic
  · rw [hlisting]
    exact { hn.orderly with }
  · have hlt := lt_size_of_kind? ((hs.kind i).symm.trans hk)
    have hi' : i = n.nodes.size := by
      rw [withWrapped, size_pushHolding] at hlt
      exact Nat.le_antisymm (Nat.lt_succ_iff.mp hlt) hi
    cases (kind?_withWrapped e.cached).symm.trans ((hs.kind _).symm.trans (hi' ▸ hk))
    trivial
  · rw [hlisting, hr]
    exact { Registry.Extends.refl n.registry with }

end WithListing

end StatEngine.Network
