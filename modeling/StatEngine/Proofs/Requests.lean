import StatEngine.Proofs.Growth

/-!
# What is made on request

Subgraphs, nodes and collections are made when they are asked for the first time. Whatever is asked for
is on file afterwards, the invariant holds, no modifier comes or goes, and for stats of the scope
nothing is lost that values rely on.

## Main statements

* `leads_graphOf`, `leads_nodesOf` and `leads_collectionOf`: what comes of a request.
-/

namespace StatEngine.Network

variable {N A σ : Type} {sc : Regime N} {n : Network N A σ}

variable [Number N]

section Requests

variable {host : Host N A σ} {tell : A → σ → σ} (hhost : host.Quiet tell) {key : StatKey}
  {graph : Nat} {g : Subgraph N}
include hhost

omit [Number N] hhost in
theorem graphs_of_graph? (hid : n.registry.graphId? key = some graph)
    (hg : n.registry.graph? key = some g) : n.graphs[graph]? = some g := by
  obtain ⟨id, hid', hg'⟩ := Registry.graph?_eq_some_iff.mp hg
  rw [hid] at hid'
  exact Option.some.inj hid' ▸ hg'

/-- Values of a stage are kept on a path that the stat has, or on the main path. -/
def KnowsPath (n : Network N A σ) (key : StatKey) (stage : Stage) (path : Path (Stat N)) : Prop :=
  stage.perPath → path = Path.main ∨ path ∈ n.registry.paths key

/-- What is left to do for nodes that were made: their path is counted and their formula is
registered. -/
theorem leads_fileStage (hn : n.Core sc) {n₁ : Network N A σ} (hgrows : n.Grows sc n₁)
    {e : NodeEntry N} (hmakes : n.MakesStage n₁ key g e) (hbut : n₁.registry.CountedBut key e.path)
    (hcounted : e.stage.perPath = false → n₁.registry.Counted) (hadmits : sc.HasPath e.path)
    (hkey : g.stat.key = key) (hpath : sc.Follows → n.KnowsPath key e.stage e.path ∨ n.Idle)
    (hidle : sc.Follows → g.stat ∈ sc.stats ∨ n.Idle) :
    Leads True (if e.stage.perPath = true then do
        addPath host g.paths e.path
        register host ⟨key, e.stage, e.path.key⟩ n.layered.size
        pure e
      else do
        register host ⟨key, e.stage, e.path.key⟩ n.layered.size
        pure e) n₁ fun e' n' => n'.Inv sc ∧ n.Changes tell n'
      ∧ n'.registry.stage? ⟨key, e.stage, e.path.key⟩ = some e'
      ∧ (∀ k f p, n'.registry.members k f p = n.registry.members k f p)
      ∧ (e.stage.perPath = false → n.registry.Akin n'.registry)
      ∧ (e.stage.perPath = false → n.installed = [] → ∀ K, n.Spares K n')
      ∧ (g.stat ∈ sc.stats → n.KnowsPath key e.stage e.path → n.Extends n')
      ∧ ∀ k, n'.registry.graphId? k = n.registry.graphId? k := by
  have hcore := hgrows.core hn
  have hextends := hgrows.extension
  have hfile : n₁.registry.stage? ⟨key, e.stage, e.path.key⟩ = some e := by
    rw [hmakes.stage?, if_pos rfl]
  -- registering the formula comes last
  have hregister (m : Network N A σ) (hm : m.Inv sc) (hidle : sc.Follows → g.stat ∈ sc.stats ∨ m.Idle)
      (hext : g.stat ∈ sc.stats → n.KnowsPath key e.stage e.path → n.Extends m)
      (hch : n.Changes tell m) (hmembers : ∀ k f p, m.registry.members k f p = n.registry.members k f p)
      (hfile : m.registry.stage? ⟨key, e.stage, e.path.key⟩ = some e)
      (hlayering : m.registry.layering n.layered.size = some (.stage g.stat e.stage, []))
      (hakin : e.stage.perPath = false → n.registry.Akin m.registry)
      (hspares : e.stage.perPath = false → ∀ K, n.Spares K m)
      (hids : ∀ k, m.registry.graphId? k = n.registry.graphId? k) :
      Leads True (register host ⟨key, e.stage, e.path.key⟩ n.layered.size >>= fun _ => pure e) m
        fun e' n' => n'.Inv sc ∧ n.Changes tell n'
          ∧ n'.registry.stage? ⟨key, e.stage, e.path.key⟩ = some e'
          ∧ (∀ k f p, n'.registry.members k f p = n.registry.members k f p)
          ∧ (e.stage.perPath = false → n.registry.Akin n'.registry)
          ∧ (e.stage.perPath = false → n.installed = [] → ∀ K, n.Spares K n')
          ∧ (g.stat ∈ sc.stats → n.KnowsPath key e.stage e.path → n.Extends n')
          ∧ ∀ k, n'.registry.graphId? k = n.registry.graphId? k := by
    refine (leads_register hhost hm.toCore hadmits rfl hlayering hkey
      hidle).bind ?_
    rintro - n' ⟨hcore', hproceeds', hr, hgrows'⟩
    refine .of_pure ⟨⟨hcore', hr.counted hm.counted⟩, hch.trans hproceeds',
      (hr.stage? _).trans hfile, fun k f p => (hr.akin.members k f p).trans (hmembers k f p),
      fun h => (hakin h).trans hr.akin, fun h hnil K => ?_,
      fun h hknown => (hext h hknown).trans (hgrows' (.inl (sc.bare _ h))).1.extension, fun k => ?_⟩
    · obtain ⟨hgrows', hinstalled⟩ := hgrows' (.inr ((hspares h K).installed.trans hnil))
      exact (hspares h K).trans (hgrows'.spares hm.wired hinstalled)
    obtain ⟨⟨_, _, _, heq⟩, -⟩ := hr
    rw [heq]
    exact hids k
  split
  · next hper =>
    have hpath₁ (h : n.KnowsPath key e.stage e.path) :
        e.path = Path.main ∨ e.path ∈ n₁.registry.paths key := by
      rw [hmakes.akin.paths]
      exact h hper
    refine (leads_addPath hhost hcore hmakes.graph? hbut hadmits fun hsc => ?_).bind ?_
    · obtain hknown | hidle := hpath hsc
      · exact (hpath₁ hknown).imp_right .inl
      · exact .inr (.inr (hextends.toProceeds.idle hidle))
    rintro - n₂ ⟨hinv, hch, hr, -, hextends₂⟩
    have hch := hgrows.changes.trans hch
    refine hregister n₂ hinv (fun hsc => (hidle hsc).imp_right hch.toProceeds.idle)
      (fun h hknown => hextends.trans (hextends₂ (sc.follows h) (hpath₁ hknown))) hch ?_ ?_ ?_
      (by simp [hper]) (by simp [hper]) ?_
    · rw [hr]
      exact hmakes.akin.members
    · rw [hr]
      exact hfile
    · rw [hr]
      exact hmakes.layering
    · rw [hr]
      exact hmakes.graphId?
  · next hper =>
    exact hregister n₁ ⟨hcore, hcounted (by simpa using hper)⟩
      (fun hsc => (hidle hsc).imp_right hextends.toProceeds.idle) (fun _ _ => hextends) hgrows.changes
      hmakes.akin.members hfile hmakes.layering (fun _ => hmakes.akin)
      (fun _ _ => hgrows.spares hn.wired hmakes.installed) hmakes.graphId?

/-- The nodes of a stage are on file after they were asked for. -/
theorem leads_nodesIn (hn : n.Inv sc) (hid : n.registry.graphId? key = some graph)
    (hg : n.registry.graph? key = some g) {stage : Stage} {path : Path (Stat N)} (hadmits : sc.HasPath path)
    (hpath : sc.Follows → n.KnowsPath key stage path ∨ n.Idle)
    (hidle : sc.Follows → g.stat ∈ sc.stats ∨ n.Idle) :
    Leads True (nodesIn host graph stage path) n fun e n' => n'.Inv sc ∧ n.Changes tell n'
      ∧ n'.registry.stage? ⟨key, stage, (stagePath stage path).key⟩ = some e
      ∧ (∀ k f p, n'.registry.members k f p = n.registry.members k f p)
      ∧ (stage.perPath = false → n.registry.Akin n'.registry)
      ∧ (stage.perPath = false → n.installed = [] → ∀ K, n.Spares K n')
      ∧ (g.stat ∈ sc.stats → n.KnowsPath key stage path → n.Extends n')
      ∧ ∀ k, n'.registry.graphId? k = n.registry.graphId? k := by
  have hgraphs := graphs_of_graph? hid hg
  have hkey : g.stat.key = key := Registry.stat_key hg
  have hentry : n.registry.stage? ⟨key, stage, (stagePath stage path).key⟩
      = g.nodesAt? stage (stagePath stage path) := by
    rw [Registry.stage?, hg]
    rfl
  have hadmits' : sc.HasPath (stagePath stage path) := by
    rw [stagePath]
    split
    · exact hadmits
    · exact sc.main
  have hstagePath : stagePath stage (stagePath stage path) = stagePath stage path := by
    cases stage <;> rfl
  unfold nodesIn
  refine .get_bind ?_
  rw [hgraphs]
  dsimp only
  -- nodes are made where none are on file
  cases hfound : g.nodesAt? stage (stagePath stage path) with
  | some e =>
    exact .of_pure ⟨hn, .refl n, hentry.trans hfound, fun _ _ _ => rfl, fun _ => .refl _,
      fun _ _ K => .refl K n, fun _ _ => .refl n, fun _ => rfl⟩
  | none =>
    dsimp only
    have hnew := hentry.trans hfound
    have hknown (h : n.KnowsPath key stage path) : n.KnowsPath key stage (stagePath stage path) :=
      fun hper => by
        rw [stagePath, if_pos hper]
        exact h hper
    generalize stagePath stage path = p at hadmits' hstagePath hnew hfound hknown ⊢
    refine leads_addStage (.modify_bind ?_)
    simp only [hkey]
    have hgrows := hn.wired.grows_withStageIn hid hg hnew (NodeKey.mk key stage p.key).text hn.orderly
      hstagePath hadmits'
    have hmakes := hn.wired.makesStage hid hg hnew (NodeKey.mk key stage p.key).text
    obtain ⟨hbut, hcounted⟩ := hn.wired.countedBut_withStageIn hid
      (NodeKey.mk key stage p.key).text hn.counted g.stat
    change Leads True _ (n.withStageIn graph g.stat stage p (NodeKey.mk key stage p.key).text) _
    generalize n.withStageIn graph g.stat stage p (NodeKey.mk key stage p.key).text = n₁
      at hgrows hmakes hbut hcounted ⊢
    refine (leads_fileStage hhost hn.toCore hgrows hmakes hbut hcounted hadmits' hkey
      (fun hsc => (hpath hsc).imp_left hknown) hidle).weaken ?_
    rintro e' n' ⟨hinv, hchanges, he', hmembers, hakin, hspares, hextends, hids⟩
    exact ⟨hinv, hchanges, he', hmembers, hakin, hspares, fun hg h => hextends hg (hknown h), hids⟩

/-! ## Subgraphs -/

/-- Listing a stat makes a node for hosts that shows its total, and nothing is lost. -/
theorem leads_list (hn : n.Inv sc) (stat : Stat N) {e : NodeEntry N}
    (he : n.registry.stage? ⟨stat.key, .total, Path.main⟩ = some e) :
    Leads True (list host stat e.cached) n fun _ n' => n'.Inv sc ∧ n.Extends n' ∧ n.Changes tell n'
      ∧ (∀ K, n.Spares K n') ∧ ∃ listed, n'.registry = { n.registry with listed := listed } := by
  have hlt : e.cached < n.nodes.size := by
    obtain ⟨hcached, -, l, -, -, hcell, -⟩ := hn.wired.stages _ e he
    exact lt_size_of_kind? (hcached ▸ hcell.cached)
  refine .get_bind ?_
  split
  · exact .of_pure ⟨hn, .refl n, .refl n, fun K => .refl K n, _, rfl⟩
  next hlisted =>
    have hnew (x : Stat N × Nat) (hx : x ∈ n.registry.listed) : x.1.key ≠ stat.key := fun heq =>
      hlisted (List.any_eq_true.mpr ⟨x, hx, beq_iff_eq.mpr heq⟩)
    -- the node for hosts is made and listed before those that watch the list are told
    refine .eq_bind (addWrapped_eq n hlt) (.modify_bind ?_)
    change Leads True (emit host .listing (.listed stat)) (n.withListing stat e.cached) _
    have hgrows := hn.toCore.grows_withListing he hnew
    have hr : (n.withListing stat e.cached).registry
        = { n.registry with listed := n.registry.listed ++ [(stat, n.nodes.size)] } :=
      registry_withListing e.cached
    have hcounted : (n.withListing stat e.cached).registry.Counted := by
      rw [hr]
      exact hn.counted
    have hinv : (n.withListing stat e.cached).Inv sc := ⟨hgrows.core hn.toCore, hcounted⟩
    obtain ⟨state, hemit, hextends, hchanges⟩ := emit_listing hhost hinv.wired.typed (.listed stat)
    exact .of_eq hemit ⟨hinv.withBuffer _ state, hgrows.extension.trans hextends,
      hgrows.changes.trans hchanges, fun K => (hgrows.spares hn.wired (congrArg Registry.installed hr)).trans
        (.withBuffer K _ _ state), _, hr⟩

omit [Number N] hhost in
theorem graphWithin_of_eq {stat : Stat N} {id : Nat} (h : n.registry.graphId? stat.key = some id)
    (fuel : Nat) : graphWithin host (fuel + 1) stat n = some (id, n) := by
  rw [graphWithin, get_bind_apply, graph?_eq, h]
  rfl

/-- The behaviors of a stat are installed along with its new subgraph. -/
theorem leads_installNew (hn : n.Inv sc) {stat : Stat N} (hadmits : sc.Admits stat)
    (hnew : n.registry.graphId? stat.key = none)
    (hidle : sc.Follows → stat ∈ sc.stats ∨ n.Idle) :
    Leads True (install host stat.behaviors) (n.withGraph stat) fun _ n' => n'.Inv sc ∧ n.Changes tell n'
      ∧ n'.registry.graphId? stat.key = some n.graphs.size
      ∧ (∃ g, n'.registry.graph? stat.key = some g ∧ g.stat = stat)
      ∧ n.registry.Akin n'.registry
      ∧ (stat.behaviors = [] → n.Grows sc n' ∧ n'.installed = n.installed) := by
  have hgrows := hn.wired.grows_withGraph hn.orderly hnew hadmits
  have hcore := hgrows.core hn.toCore
  have hextends := hgrows.extension
  have hr := n.registry_withGraph stat
  have hcounted : (n.withGraph stat).registry.Counted := by
    rw [hr]
    exact hn.counted.withGraph hn.orderly.live_lt hnew
  have hid : (n.withGraph stat).registry.graphId? stat.key = some n.graphs.size := by
    rw [hr, Registry.graphId?_withGraph hn.orderly.live_lt hnew, if_pos rfl]
    rfl
  have hg : ∃ g, (n.withGraph stat).registry.graph? stat.key = some g ∧ g.stat = stat := by
    rw [hr, Registry.graph?_withGraph hn.orderly.live_lt hnew, if_pos rfl]
    exact ⟨_, rfl, rfl⟩
  have hakin : n.registry.Akin (n.withGraph stat).registry := by
    rw [hr]
    exact .withGraph hn.orderly.live_lt hnew n.counts_size
  by_cases hplain : stat.behaviors = []
  · rw [hplain]
    exact .of_pure ⟨⟨hcore, hcounted⟩, hgrows.changes, hid, hg, hakin, fun _ => ⟨hgrows, rfl⟩⟩
  · have hidle (hfollows : sc.Follows) :=
      hextends.toProceeds.idle ((hidle hfollows).resolve_left fun hsc => hplain (sc.plain stat hsc))
    refine (leads_install hhost hcore hidle (sc.spares hadmits)).weaken ?_
    rintro - n' ⟨hcore', hproceeds, hr'⟩
    refine ⟨⟨hcore', hr'.counted hcounted⟩, hgrows.changes.trans hproceeds, ?_, ?_,
      hakin.trans hr'.akin, fun h => absurd h hplain⟩
    · obtain ⟨⟨_, _, _, heq⟩, -⟩ := hr'
      rw [heq]
      exact hid
    · rw [hr'.graph?]
      exact hg

/-- The subgraph of a stat is on file after it was asked for. -/
theorem leads_graphOf (hn : n.Inv sc) {stat : Stat N} (hadmits : sc.Admits stat)
    (hidle : sc.Follows → stat ∈ sc.stats ∨ n.Idle) :
    Leads True (graphOf host stat) n fun id n' => n'.Inv sc ∧ n.Changes tell n'
      ∧ n'.registry.graphId? stat.key = some id ∧ n.registry.Akin n'.registry
      ∧ (stat.behaviors = [] → n.installed = [] → ∀ K, n.Spares K n')
      ∧ (stat ∈ sc.stats → n.Extends n') := by
  refine .get_bind ?_
  unfold graphWithin
  refine .get_bind ?_
  rw [graph?_eq]
  cases hid : n.registry.graphId? stat.key with
  | some id => exact .of_pure ⟨hn, .refl n, hid, .refl _, fun _ _ K => .refl K n, fun _ => .refl n⟩
  | none =>
    refine .eq_bind (addGraph_eq n stat) ((leads_installNew hhost hn hadmits hid hidle).bind ?_)
    rintro - n₁ ⟨hinv, hproceeds, hid₁, ⟨g, hg, rfl⟩, hakin, hgrows⟩
    have hextends (hsc : g.stat ∈ sc.stats) := (hgrows (sc.plain _ hsc)).1.extension
    have hspares (hplain : g.stat.behaviors = []) (K : DependencyKey → Prop) : n.Spares K n₁ := by
      obtain ⟨hgrows, hinstalled⟩ := hgrows hplain
      exact hgrows.spares hn.wired hinstalled
    split
    · refine .eq_bind (graphWithin_of_eq hid₁ _) ?_
      have hknown : n₁.KnowsPath g.stat.key .total Path.main := fun h => by cases h
      refine (leads_nodesIn hhost hinv hid₁ hg sc.main (fun _ => .inl hknown)
        fun hsc => (hidle hsc).imp_right hproceeds.idle).bind ?_
      rintro e n₂ ⟨hinv₂, hproceeds₂, he, -, hakin₂, hspares₂, hextends₂, hids⟩
      refine (leads_list hhost hinv₂ g.stat he).bind ?_
      rintro - n₃ ⟨hinv₃, hextends₃, hch₃, hspares₃, listed, hr⟩
      refine .of_pure ⟨hinv₃, (hproceeds.trans hproceeds₂).trans hch₃, ?_, ?_, fun hplain hnil K => ?_,
        fun hsc => ((hextends hsc).trans (hextends₂ hsc hknown)).trans hextends₃⟩
      · rw [hr]
        exact (hids _).trans hid₁
      · rw [hr]
        have := hakin.trans (hakin₂ rfl)
        exact ⟨this.members, this.paths, this.stages⟩
      · have hnil₁ : n₁.installed = [] := (hspares hplain K).installed.trans hnil
        exact ((hspares hplain K).trans (hspares₂ rfl hnil₁ K)).trans (hspares₃ K)
    · exact .of_pure ⟨hinv, hproceeds, hid₁, hakin, fun hplain _ => hspares hplain, hextends⟩

/-- The nodes of a stage of a stat are on file after they were asked for. -/
theorem leads_nodesOf (hn : n.Inv sc) {stat : Stat N} (hadmits : sc.Admits stat) {stage : Stage}
    {path : Path (Stat N)} (hhas : sc.HasPath path)
    (hpath : sc.Follows → n.KnowsPath stat.key stage path ∨ n.Idle)
    (hidle : sc.Follows → stat ∈ sc.stats ∨ n.Idle) :
    Leads True (nodesOf host stat stage path) n fun e n' => n'.Inv sc ∧ n.Changes tell n'
      ∧ n'.registry.stage? ⟨stat.key, stage, (stagePath stage path).key⟩ = some e
      ∧ (∀ k f p, n'.registry.members k f p = n.registry.members k f p)
      ∧ (stat ∈ sc.stats → n.KnowsPath stat.key stage path → n.Extends n') := by
  refine (leads_graphOf hhost hn hadmits hidle).bind ?_
  rintro graph n₁ ⟨hinv, hchanges, hid, hakin, -, hextends⟩
  obtain ⟨g, hg⟩ := Registry.exists_graph hid
  have hsame (hstat : stat ∈ sc.stats) : g.stat = stat := hinv.orderly.stats stat hstat g hg
  have hidle₁ (hsc : sc.Follows) : g.stat ∈ sc.stats ∨ n₁.Idle :=
    (hidle hsc).imp (fun hstat => hsame hstat ▸ hstat) hchanges.idle
  have hknown (h : n.KnowsPath stat.key stage path) : n₁.KnowsPath stat.key stage path := fun hper => by
    rw [hakin.paths]
    exact h hper
  refine (leads_nodesIn hhost hinv hid hg hhas
    (fun hsc => (hpath hsc).imp hknown hchanges.idle) hidle₁).weaken ?_
  rintro e n₂ ⟨hinv₂, hchanges₂, he, hmembers₂, -, -, hextends₂, -⟩
  exact ⟨hinv₂, hchanges.trans hchanges₂, he,
    fun k f p => (hmembers₂ k f p).trans (hakin.members k f p),
    fun hstat h => (hextends hstat).trans (hextends₂ (hsame hstat ▸ hstat) (hknown h))⟩

/-- The paths of a stat are on file after they were asked for. -/
theorem leads_pathSetOf (hn : n.Inv sc) {stat : Stat N} (hadmits : sc.Admits stat)
    (hidle : sc.Follows → stat ∈ sc.stats ∨ n.Idle) :
    Leads True (pathSetOf host stat) n fun set n' => n'.Inv sc ∧ n.Changes tell n'
      ∧ n'.registry.topic? (.paths stat.key) = some (.paths set)
      ∧ n'.pathsIn set = n'.registry.paths stat.key ∧ (stat ∈ sc.stats → n.Extends n') := by
  refine (leads_graphOf hhost hn hadmits hidle).bind ?_
  rintro graph n₁ ⟨hinv, hchanges, hid, -, -, hextends⟩
  obtain ⟨g, hg⟩ := Registry.exists_graph hid
  refine .get_bind ?_
  rw [graphs_of_graph? hid hg]
  refine .of_pure ⟨hinv, hchanges, ?_, ?_, hextends⟩
  · rw [Registry.topic?, hg]
    rfl
  · rw [pathsIn_eq, Registry.paths_eq hg]

/-! ## Collections -/

/-- What is found after a collection was asked for. -/
structure GivesForm (n n' : Network N A σ) (key : StatKey) (form : Form) (path : Path (Stat N))
    (e : FormEntry N) : Prop where
  entry : n'.registry.form? key form path.key = some e
  members : ∀ k f p, n'.registry.members k f p = n.registry.members k f p
  paths : ∀ k, n'.registry.paths k = if k = key ∧ path.isIn (n.registry.paths k) = false
    then n.registry.paths k ++ [path] else n.registry.paths k
  stages : ∀ k e, n.registry.stage? k = some e → n'.registry.stage? k = some e

/-- The collection of a form is on file after it was asked for. -/
theorem leads_collectionOf (hn : n.Inv sc) {stat : Stat N} (hadmits : sc.Admits stat) (form : Form)
    {path : Path (Stat N)} (hhas : sc.HasPath path)
    (hidle : sc.Follows →
      stat ∈ sc.stats ∧ (path = Path.main ∨ path ∈ n.registry.paths stat.key) ∨ n.Idle) :
    Leads True (collectionOf host stat form path) n fun e n' => n'.Inv sc ∧ n.Changes tell n'
      ∧ n.GivesForm n' stat.key form path e
      ∧ (stat.behaviors = [] → n.installed = [] → ∀ K, n.Confines K → K (.paths stat.key) → n.Spares K n')
      ∧ (stat ∈ sc.stats → path = Path.main ∨ path ∈ n.registry.paths stat.key → n.Extends n') := by
  refine (leads_graphOf hhost hn hadmits fun hsc => (hidle hsc).imp_left And.left).bind ?_
  rintro graph n₁ ⟨hinv, hproceeds, hid, hakin, hspares, hextends⟩
  obtain ⟨g, hg⟩ := Registry.exists_graph hid
  have hfind : n₁.registry.form? stat.key form path.key = g.collectionAt? form path := by
    rw [Registry.form?, hg]
    rfl
  refine .get_bind ?_
  rw [graphs_of_graph? hid hg]
  dsimp only
  cases hfound : g.collectionAt? form path with
  | some e =>
    have he := hfind.trans hfound
    -- a path with a collection is counted, so the paths are as they were
    have hpath : path.isIn (n.registry.paths stat.key) = true := by
      have hin := isIn_iff_key.mp (hinv.counted.isIn_paths_of_form he)
      rw [(Registry.form?_spec he).2, hakin.paths] at hin
      exact isIn_iff_key.mpr hin
    refine .of_pure ⟨hinv, hproceeds, ⟨he, hakin.members, fun k => ?_, hakin.stages⟩,
      fun hplain hnil K _ _ => hspares hplain hnil K, fun hsc _ => hextends hsc⟩
    rw [hakin.paths, if_neg]
    rintro ⟨rfl, hnot⟩
    simp [hpath] at hnot
  | none =>
    have hnew := hfind.trans hfound
    have hgrows := hinv.toCore.grows_withFormIn form hid hnew hhas
    have hreg := n₁.registry_withFormIn form graph path
    -- the collection is on file before its path is counted
    have hbut : (n₁.withFormIn graph form path).registry.CountedBut stat.key path := by
      rw [hreg]
      refine hinv.counted.modifyGraph (f := Registry.addCollection (n₁.formEntry form path)) hid
        (fun _ => rfl) (fun _ => rfl) fun g q => ?_
      rw [Registry.uses_addCollection]
      exact le_rfl
    have hg₂ : (n₁.withFormIn graph form path).registry.graph? stat.key
        = some (Registry.addCollection (n₁.formEntry form path) g) := by
      rw [hreg, Registry.graph?_modifyGraph (f := Registry.addCollection (n₁.formEntry form path)) hid
        fun _ => rfl, if_pos rfl, hg, Option.map_some]
    have hakin₂ : n.registry.Akin (n₁.withFormIn graph form path).registry := by
      rw [hreg]
      exact hakin.trans (.addCollection (e := n₁.formEntry form path) hid hnew n₁.items_size)
    have hentry : (n₁.withFormIn graph form path).registry.form? stat.key form path.key
        = some (n₁.formEntry form path) := by
      rw [hreg, Registry.form?_addCollection (e := n₁.formEntry form path) hid hnew]
      exact if_pos ⟨rfl, rfl, rfl⟩
    refine .eq_bind (addCollection_eq n₁) (.eq_bind (addAggregate_eq _ n₁.hasTopic_withCollection
      ?_ form) (.modify_bind ?_))
    · rw [memberNodes_eq]
      simp [registry, withCollection]
    · change Leads True _ (n₁.withFormIn graph form path) _
      refine (leads_addPath hhost (hgrows.core hinv.toCore) hg₂ hbut hhas fun hsc => ?_).bind ?_
      · rw [hakin₂.paths]
        exact (hidle hsc).elim (fun h => h.2.imp_right .inl) fun h =>
          .inr (.inr ((hproceeds.trans hgrows.changes).idle h))
      · rintro - n₂ ⟨hinv₂, hproceeds₂, hr, hspares₂, hextends₂⟩
        refine .of_pure ⟨hinv₂, (hproceeds.trans hgrows.changes).trans hproceeds₂,
          ⟨?_, fun k f p => ?_, fun k => ?_, fun k e he => ?_⟩, fun hplain hnil K hK hpaths => ?_,
          fun hsc hpath => ?_⟩
        · rw [hr]
          exact hentry
        · rw [hr]
          exact hakin₂.members k f p
        · rw [hr, ← hakin₂.paths]
          by_cases hk : k = stat.key
          · subst hk
            rw [Registry.paths_countPath hg₂]
            cases path.isIn ((n₁.withFormIn graph form path).registry.paths stat.key) <;> simp
          · rw [if_neg fun h => hk h.1]
            exact Registry.paths_withCounts_of_ne hgrows.orderly hg₂ hk _
        · rw [hr]
          exact hakin₂.stages k e he
        · have hspares₁ : n.Spares K (n₁.withFormIn graph form path) :=
            (hspares hplain hnil K).trans (hgrows.spares hinv.wired rfl)
          exact hspares₁.trans (hspares₂ K (hspares₁.confines hK) hpaths)
        · refine ((hextends hsc).trans hgrows.extension).trans (hextends₂ (sc.follows hsc) ?_)
          rw [hakin₂.paths]
          exact hpath

end Requests

end StatEngine.Network
