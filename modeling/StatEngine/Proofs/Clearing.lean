import StatEngine.Proofs.Pruning

/-!
# Clearing stats away

A stat is taken off the list of the hosts if none of them listens to its total any more, and its subgraph is
dropped if nothing is left of it. Nobody relied on them, so the invariant is kept.

## Main definitions

* `Unlists`: all that is done is to take a stat off the list;

## Main statements

* `leads_unlist` and `leads_dropEmpty`: taking a stat off the list and dropping a subgraph keep the
  invariant.
-/

namespace StatEngine

open Network

namespace Network

variable {N A σ : Type} [Number N] {sc : Regime N} {n m : Network N A σ} {host : Host N A σ}
  {tell : A → σ → σ} {key : StatKey} {g : Subgraph N} {graph : Nat}

/-! ## Lists -/

/-- The network without a stat on the list of the hosts. -/
def unlisted (n : Network N A σ) (stat : Stat N) (id : Nat) : Network N A σ :=
  (n.withListed (n.listing.entries.filter fun e => !e.1.same stat)).releasedAt id

section Unlisted

variable {stat : Stat N} {entry : Stat N × Nat}

omit [Number N] in
theorem registry_unlisted (n : Network N A σ) (stat : Stat N) (id : Nat) :
    (n.unlisted stat id).registry = { n.registry with
      listed := n.registry.listed.filter fun e => !e.1.same stat } :=
  registry_releasedAt ..

omit [Number N] in
theorem Wired.retires_unlisted (hn : n.Wired sc) (stat : Stat N) (id : Nat) :
    n.Retires (n.unlisted stat id) [id] := by
  have h := Retires.of_sameNodes hn.typed hn.ledger
    (n.sameNodes_withListed (n.listing.entries.filter fun e => !e.1.same stat))
  exact h.trans ((Retires.refl h.typed h.ledger).releasedAt id)

omit [Number N] in
theorem Wired.drops_unlisted (hn : n.Wired sc) {id inner : Nat}
    (hkind : n.kind? id = some (.wrapped inner)) : n.Drops (n.unlisted stat id) [id] := by
  have hreg := n.registry_unlisted stat id
  refine ⟨fun k g hg => ⟨g, ?_, rfl, rfl⟩, fun k e he => ?_, fun k f p e he => ?_,
    by rw [hreg], by rw [hreg], by rw [hreg], fun k e he => .inl ?_⟩
  · rw [hreg] at hg
    exact hg
  · rw [hreg] at he
    obtain ⟨-, -, _, _, _, hcell, -⟩ := hn.stages k e he
    refine ⟨he, fun i hi => ?_⟩
    rw [List.mem_singleton.mp hi]
    exact (HasCell.apart_of_kind hkind (by simp) (by simp) hcell).1
  · rw [hreg] at he
    have hform := hn.forms k f p e he
    refine ⟨he, fun hmem => ?_, fun i hi j hj => ?_⟩
    · cases (List.mem_singleton.mp hmem ▸ hform.kind).symm.trans hkind
    · obtain ⟨-, -, -, id', hid', hcell⟩ := hform.members i (by rw [hreg] at hi; exact hi)
      rw [hid', List.mem_singleton.mp hj]
      exact (HasCell.apart_of_kind hkind (by simp) (by simp) hcell).2
  · rw [hreg]
    exact he

omit [Number N] in
/-- Hosts have a node of their own for each listed stat. -/
theorem Wired.listed_unique (hn : n.Wired sc) (hlisted : n.Lists) {x y : Stat N × Nat}
    (hx : x ∈ n.registry.listed) (hy : y ∈ n.registry.listed) (h : x.2 = y.2) : x = y := by
  obtain ⟨e, he, hkind, -⟩ := hlisted.shows x hx
  obtain ⟨e', he', hkind', -⟩ := hlisted.shows y hy
  obtain ⟨hcached, -⟩ := hn.stages _ _ he
  obtain ⟨hcached', -⟩ := hn.stages _ _ he'
  have hinner : e.cached = e'.cached :=
    Kind.wrapped.inj (Option.some.inj (hkind.symm.trans (h ▸ hkind')))
  have hkey := hn.stage_key_unique he he' (by omega)
  exact List.inj_on_of_nodup_map hlisted.nodup hx hy (congrArg NodeKey.stat hkey)

variable (hentry : entry ∈ n.registry.listed) (hstat : entry.1.same stat)

include hentry hstat

omit [Number N] in
theorem Wired.listed_unlisted (hn : n.Wired sc) (hlisted : n.Lists) :
    (n.unlisted stat entry.2).registry.listed
      = n.registry.listed.filter fun x => decide (x.2 ∉ [entry.2]) := by
  rw [registry_unlisted]
  refine List.filter_congr fun x hx => ?_
  rw [Bool.eq_iff_iff, Bool.not_eq_true', decide_eq_true_iff, List.mem_singleton,
    ← Bool.not_eq_true, not_iff_not]
  refine ⟨fun hsame => ?_, fun h => hn.listed_unique hlisted hx hentry h ▸ hstat⟩
  have hkey : x.1.key = entry.1.key := (beq_iff_eq.mp hsame).trans (beq_iff_eq.mp hstat).symm
  rw [List.inj_on_of_nodup_map hlisted.nodup hx hentry hkey]

omit [Number N] in
/-- A stat that is taken off the list is shed if no host listens to its total, and it has no
modifiers. -/
theorem Wired.sheds_unlisted (hn : n.Wired sc) (hlisted : n.Lists)
    (hunheard : n.listeners (.changed entry.2) = [])
    (hcount : ∀ g, n.registry.graph? stat.key = some g → g.modifierCount = 0) :
    n.Sheds (n.unlisted stat entry.2) [entry.2] := by
  obtain ⟨inner, hkind⟩ := hlisted.wrapped hentry
  have hreg := n.registry_unlisted stat entry.2
  refine (hn.drops_unlisted hkind).sheds (hn.retires_unlisted _ _) (fun k e he _ => ?_)
    (fun k f p e he _ => ?_) (hn.listed_unlisted hentry hstat hlisted) (fun k e he hmem => ?_)
    (fun k f p e he hmem => ?_) (fun x hx hmem => ?_) (fun k g hg _ => ?_) fun k g hg => ⟨g, ?_, rfl, rfl, rfl⟩
  · rw [hreg]
    exact he
  · rw [hreg]
    exact he
  · obtain ⟨-, -, _, _, _, hcell, -⟩ := hn.stages k e he
    exact absurd (List.mem_singleton.mp hmem).symm
      (HasCell.apart_of_kind hkind (by simp) (by simp) hcell).1.1
  · cases (List.mem_singleton.mp hmem ▸ (hn.forms k f p e he).kind).symm.trans hkind
  · obtain rfl := hn.listed_unique hlisted hx hentry (List.mem_singleton.mp hmem)
    exact ⟨hunheard, beq_iff_eq.mp hstat ▸ hcount⟩
  · rw [hreg]
    exact hg
  · rw [hreg] at hg
    exact hg

/-- Taking a stat off the list that no host listens to is taking the node off that shows its total. -/
theorem Inv.unlisted (hn : n.Inv sc) (hidle : n.Idle) : (n.unlisted stat entry.2).Inv sc := by
  obtain ⟨inner, hkind⟩ := hn.listed.wrapped hentry
  have hreg := n.registry_unlisted stat entry.2
  have hretires := hn.wired.retires_unlisted stat entry.2
  have hlisted := hn.wired.listed_unlisted hentry hstat hn.listed
  refine ⟨?_, hreg ▸ hn.counted⟩
  refine hn.toCore.retire hidle (hn.wired.drops_unlisted hkind) hretires (fun k g _ h => ?_)
    (hreg ▸ { hn.orderly with }) ?_ (fun id φ p _ d _ _ => hreg ▸ .refl n.registry d.1)
    fun id _ d _ htopic => .inl ?_
  · exact (isPresent_releasedAt ..).trans h
  · refine hn.listed.retire hretires (hlisted ▸ List.filter_sublist) (fun x hx => ?_) fun x _ e he => ?_
    · rw [hlisted] at hx
      exact decide_eq_true_iff.mp (List.mem_filter.mp hx).2
    · rw [hreg]
      exact he
  · rw [hreg]
    exact htopic

end Unlisted

omit [Number N] in
/-- A node for hosts listens to nothing but the node it shows. -/
theorem Typed.topic_of_wrapped (hn : n.Typed) {t : Topic} {attached : Attached A} {i inner : Nat}
    (h : attached ∈ n.listeners t) (hnode : attached.listener.node? = some i)
    (hi : n.kind? i = some (.wrapped inner)) : t = .changed inner := by
  have hfits := hn.fits h
  obtain ⟨token, listener⟩ := attached
  cases listener with
  | host action => cases hnode
  | invalidate j | relay j | follow j =>
    obtain rfl := Option.some.inj hnode
    cases t with
    | changed k => simp_all [Fits, IsFormula, IsAggregate]
    | _ => simp [Fits, IsFormula, IsAggregate, hi] at hfits

/-- At most the stat with a given key was taken off the list of the hosts. -/
structure Unlists (n n' : Network N A σ) (key : StatKey) : Prop where
  graphs : n'.graphs = n.graphs
  live : n'.live = n.live
  items : n'.registry.items = n.registry.items
  listed : ∀ s id, n'.listed? s = some id → n.listed? s = some id
  /-- The node that showed its total to hosts does not listen to it any more. -/
  listeners : ∀ t, n'.listeners t = n.listeners t
    ∨ ∃ e, n.registry.stage? ⟨key, .total, Path.main⟩ = some e ∧ t = .changed e.cached

namespace Unlists

variable {n' : Network N A σ}

omit [Number N] in
theorem refl (n : Network N A σ) (key : StatKey) : n.Unlists n key :=
  ⟨rfl, rfl, rfl, fun _ _ h => h, fun _ => .inl rfl⟩

omit [Number N] in
theorem graph? (h : n.Unlists n' key) (k : StatKey) : n'.registry.graph? k = n.registry.graph? k := by
  simp only [Registry.graph?, Registry.graphId?, registry, h.graphs, h.live]

omit [Number N] in
theorem sameGraphs (h : n.Unlists n' key) : n.registry.SameGraphs n'.registry where
  live := h.live
  graphId k := by simp only [Registry.graphId?, registry, h.graphs, h.live]
  graph k g hg := ⟨g, (h.graph? k).trans hg, rfl, rfl, rfl⟩

end Unlists

section Unlisted

variable {stat : Stat N} {entry : Stat N × Nat}

omit [Number N] in
theorem listed?_unlisted (n : Network N A σ) (stat : Stat N) (id : Nat) (s : Stat N) :
    (n.unlisted stat id).listed? s = if s.key = stat.key then none else n.listed? s := by
  have hreg := congrArg Registry.listed (n.registry_unlisted stat id)
  change ((n.unlisted stat id).registry.listed.find? (·.1.same s)).map (·.2)
    = if s.key = stat.key then none else (n.registry.listed.find? (·.1.same s)).map (·.2)
  rw [hreg, List.find?_filter]
  split
  next heq =>
    rw [Option.map_eq_none_iff, List.find?_eq_none]
    exact fun x _ => by simp [Stat.same, heq]
  next hne =>
    refine congrArg (fun p => (n.registry.listed.find? p).map (·.2)) (funext fun x => ?_)
    rw [Bool.eq_iff_iff, decide_eq_true_iff, Bool.not_eq_true', Stat.same, Stat.same, beq_iff_eq,
      beq_eq_false_iff_ne]
    exact and_iff_right_of_imp fun h heq => hne (h.symm.trans heq)

variable (hentry : entry ∈ n.registry.listed) (hstat : entry.1.same stat)

include hentry hstat in
omit [Number N] in
theorem Wired.unlists (hn : n.Wired sc) (hlisted : n.Lists) :
    n.Unlists (n.unlisted stat entry.2) stat.key := by
  have hreg := n.registry_unlisted stat entry.2
  refine ⟨congrArg Registry.graphs hreg, congrArg Registry.live hreg, by rw [hreg], fun s id h => ?_,
    fun t => ?_⟩
  · rw [listed?_unlisted] at h
    split at h
    · cases h
    · exact h
  · obtain ⟨e, he, hkind, -⟩ := hlisted.shows entry hentry
    rw [beq_iff_eq.mp hstat] at he
    rw [(hn.retires_unlisted _ entry.2).listeners, List.filter_eq_self]
    refine or_iff_not_imp_right.mpr fun hother attached hattached => decide_eq_true fun i hi hnode => ?_
    rw [List.mem_singleton.mp hi] at hnode
    exact hother ⟨e, he, hn.typed.topic_of_wrapped hattached hnode hkind⟩

end Unlisted

/-- Taking a stat off the list keeps the invariant, if no host listens to its total and it has no
modifiers. -/
theorem leads_unlist (hhost : host.Quiet tell) (hn : n.Inv sc) (hidle : n.Idle) {stat : Stat N}
    (hunheard : ∀ id, n.listed? stat = some id → n.listeners (.changed id) = [])
    (hcount : ∀ g, n.registry.graph? stat.key = some g → g.modifierCount = 0) :
    Leads True (unlist host stat) n fun _ n' => n'.Inv sc ∧ n.Trims tell n' 0
      ∧ n.Unlists n' stat.key ∧ n'.listed? stat = none := by
  refine .get_bind ?_
  cases hlisted : n.listed? stat with
  | none => exact .of_pure ⟨hn, .refl n, .refl n _, hlisted⟩
  | some id =>
    obtain ⟨entry, hfound, rfl⟩ := Option.map_eq_some_iff.mp hlisted
    have hentry : entry ∈ n.registry.listed := List.mem_of_find?_eq_some hfound
    have hstat := List.find?_some hfound
    obtain ⟨inner, hkind⟩ := hn.listed.wrapped hentry
    have hs := n.sameNodes_withListed (n.listing.entries.filter fun e => !e.1.same stat)
    dsimp only
    refine .modify_bind ?_
    change Leads True _ (n.withListed (n.listing.entries.filter fun e => !e.1.same stat)) _
    refine .eq_bind (dispose_eq host ((hs.kind _).trans hkind) (.inr (.inl ⟨inner, rfl⟩))) ?_
    change Leads True _ (n.unlisted stat entry.2) _
    have hinv := hn.unlisted hentry hstat hidle
    have hsheds := hn.wired.sheds_unlisted hentry hstat hn.listed (hunheard _ hlisted) hcount
    have hretires := hn.wired.retires_unlisted stat entry.2
    have hunlists := hn.wired.unlists hentry hstat hn.listed
    have hnone : (n.unlisted stat entry.2).listed? stat = none :=
      (listed?_unlisted ..).trans (if_pos rfl)
    have hreg := n.registry_unlisted stat entry.2
    generalize n.unlisted stat entry.2 = m at *
    obtain ⟨state, hemit, -, hchanges⟩ := emit_listing hhost hinv.wired.typed _
    have hregistry : (m.withBuffer m.buffer state).registry = m.registry := rfl
    have hlisteners (t : Topic) : (m.withBuffer m.buffer state).listeners t = m.listeners t := by
      cases t <;> rfl
    refine .eq_bind hemit (.of_pure ⟨hinv.withBuffer _ _, ?_, ?_, hnone⟩)
    · refine ⟨(hretires.changes_of_kind hkind (by simp)).trans hchanges, fun k => ?_, ?_, _,
        hsheds.of_same hlisteners rfl rfl fun _ => rfl⟩
      · rw [hregistry, hreg]
        exact .refl (n.registry.paths k)
      · rw [hregistry, hreg]
        exact le_rfl
    · exact ⟨hunlists.graphs, hunlists.live, hunlists.items, hunlists.listed,
        fun t => (hlisteners t).symm ▸ hunlists.listeners t⟩

/-! ## Subgraphs -/

/-- The network with a subgraph less. -/
def withoutGraph (n : Network N A σ) (graph set : Nat) : Network N A σ :=
  { n with
    live := n.live.erase graph
    pathSets := n.pathSets.modify set fun s => { s with gone := true } }

section WithoutGraph

omit [Number N]

theorem registry_withoutGraph (n : Network N A σ) (graph set : Nat) :
    (n.withoutGraph graph set).registry = n.registry.dropGraph graph := by
  have hcounts : (n.withoutGraph graph set).registry.counts = n.registry.counts := by
    funext i
    simp only [registry, withoutGraph, Array.getElem?_modify]
    split
    · cases n.pathSets[i]? <;> rfl
    · rfl
  exact congrArg (fun counts => { n.registry.dropGraph graph with counts := counts }) hcounts

theorem listeners_withoutGraph (n : Network N A σ) (graph set : Nat) (t : Topic) :
    (n.withoutGraph graph set).listeners t = n.listeners t := by
  cases t with
  | paths i =>
    simp only [listeners, withoutGraph, Array.getElem?_modify]
    split
    · cases n.pathSets[i]? <;> rfl
    · rfl
  | _ => rfl

theorem hasTopic_withoutGraph (n : Network N A σ) (graph set : Nat) (t : Topic) (ht : n.hasTopic t) :
    (n.withoutGraph graph set).hasTopic t := by
  cases t with
  | paths i => simpa only [hasTopic, withoutGraph, Array.size_modify] using ht
  | _ => exact ht

theorem isPresent_withoutGraph (n : Network N A σ) (graph : Nat) {set i : Nat} (hi : i ≠ set) :
    (n.withoutGraph graph set).isPresent (.paths i) = n.isPresent (.paths i) := by
  simp only [isPresent, withoutGraph, Array.getElem?_modify, if_neg hi.symm]

theorem Wired.retires_withoutGraph (hn : n.Wired sc) (graph set : Nat) :
    n.Retires (n.withoutGraph graph set) [] :=
  .of_nodes hn.typed hn.ledger rfl (n.listeners_withoutGraph graph set)
    (n.hasTopic_withoutGraph graph set) rfl rfl rfl rfl

section Empty

variable (ho : n.registry.Orderly sc) (hid : n.registry.graphId? key = some graph)

include ho hid

theorem graph?_withoutGraph (set : Nat) (k : StatKey) :
    (n.withoutGraph graph set).registry.graph? k = if k = key then none else n.registry.graph? k := by
  rw [registry_withoutGraph]
  exact Registry.graph?_dropGraph ho hid k

variable (hg : n.registry.graph? key = some g)

include hg

theorem stage?_withoutGraph (hnodes : g.nodes = []) (set : Nat) (k : NodeKey) :
    (n.withoutGraph graph set).registry.stage? k = n.registry.stage? k := by
  rw [registry_withoutGraph]
  exact Registry.stage?_dropGraph ho hid hg hnodes k

theorem form?_withoutGraph (hforms : g.forms = []) (set : Nat) (k : StatKey) (f : Form) (p : PathKey) :
    (n.withoutGraph graph set).registry.form? k f p = n.registry.form? k f p := by
  rw [registry_withoutGraph]
  exact Registry.form?_dropGraph ho hid hg hforms k f p

variable (hnodes : g.nodes = []) (hforms : g.forms = [])

include hnodes hforms

theorem drops_withoutGraph (set : Nat) : n.Drops (n.withoutGraph graph set) [] := by
  have hstage := stage?_withoutGraph ho hid hg hnodes set
  have hform := form?_withoutGraph ho hid hg hforms set
  have hreg := n.registry_withoutGraph graph set
  refine ⟨fun k g' hg' => ?_, fun k e he => ⟨(hstage k).symm.trans he, by simp⟩,
    fun k f p e he => ⟨(hform k f p).symm.trans he, by simp, by simp⟩, by rw [hreg]; rfl,
    by rw [hreg]; rfl, by rw [hreg]; rfl, fun k e he => .inl ((hstage _).trans he)⟩
  rw [graph?_withoutGraph ho hid] at hg'
  split at hg'
  · cases hg'
  · exact ⟨g', hg', rfl, rfl⟩

/-- Nothing is shed with a subgraph of which nothing is left. -/
theorem Wired.sheds_withoutGraph (hn : n.Wired sc) (hcount : g.modifierCount = 0) (set : Nat) :
    n.Sheds (n.withoutGraph graph set) [] := by
  have hgraph := graph?_withoutGraph ho hid set
  refine (drops_withoutGraph ho hid hg hnodes hforms set).sheds (hn.retires_withoutGraph graph set)
    (fun k e he _ => (stage?_withoutGraph ho hid hg hnodes set k).trans he)
    (fun k f p e he _ => (form?_withoutGraph ho hid hg hforms set k f p).trans he) ?_ (by simp)
    (by simp) (by simp) (fun k g' hg' hpos => ?_) fun k g' hg' => ⟨g', ?_, rfl, rfl, rfl⟩
  · rw [registry_withoutGraph]
    exact (List.filter_eq_self.mpr (by simp)).symm
  · rw [hgraph, if_neg fun heq => ?_, hg']
    rw [heq, hg] at hg'
    exact hpos.ne' (Option.some.inj hg' ▸ hcount)
  · rw [hgraph] at hg'
    split at hg'
    · cases hg'
    · exact hg'

end Empty

end WithoutGraph

/-- Nobody relies on the paths of a stat that has no nodes. -/
theorem Inv.core_withoutGraph (hn : n.Inv sc) (hidle : n.Idle)
    (hid : n.registry.graphId? key = some graph) (hg : n.registry.graph? key = some g)
    (hnodes : g.nodes = []) (hforms : g.forms = []) : (n.withoutGraph graph g.paths).Core sc := by
  have ho := hn.orderly
  have hgraph := graph?_withoutGraph ho hid g.paths
  have hstage := stage?_withoutGraph ho hid hg hnodes g.paths
  have hform := form?_withoutGraph ho hid hg hforms g.paths
  have hreg := n.registry_withoutGraph graph g.paths
  have hretires := hn.wired.retires_withoutGraph graph g.paths
  have hlisted : (n.withoutGraph graph g.paths).Lists :=
    hn.listed.retire hretires (hreg ▸ .refl _) (by simp) fun x _ e he => (hstage _).trans he
  refine hn.toCore.retire hidle (drops_withoutGraph ho hid hg hnodes hforms g.paths) hretires
    (fun k g' hg' h => ?_) (hreg ▸ ho.dropGraph hid hg hnodes hforms) hlisted
    (fun id φ p hd d hrecorded htopic => ?_) fun id _ d _ htopic => ?_
  · rw [hgraph] at hg'
    split at hg'
    · cases hg'
    next hk => rwa [n.isPresent_withoutGraph graph fun heq => hk (ho.sets _ _ _ _ hg' hg heq)]
  · obtain ⟨d, s⟩ := d
    cases d with
    | node k => exact hstage k
    | form k f p => exact ⟨hform k f p, fun _ _ => by rw [hreg]; rfl⟩
    | paths k =>
      obtain ⟨g', hg', hset⟩ := Option.map_eq_some_iff.mp htopic
      obtain ⟨e, he, -⟩ := hn.wired.path_held hd.follows k g' hg' id s
        (mem_held_of_recorded hrecorded) hset.symm
      -- whoever records paths has nodes of the same stat on file, and here there are none
      have hk : k ≠ key := by
        rintro rfl
        rw [Registry.stage?, hg, Option.bind_some, hnodes] at he
        cases he
      refine ⟨?_, fun _ => ?_, fun x hx => (hstage _).trans hx⟩
      · rw [Registry.topic?, Registry.topic?, hgraph, if_neg hk]
      · rw [hreg, Registry.paths_dropGraph ho hid, if_neg hk]
  · obtain ⟨d, s⟩ := d
    cases d with
    | node k =>
      rw [Filed, Registry.topic?, hstage]
      exact .inl htopic
    | form k f p =>
      rw [Filed, Registry.topic?, hform]
      exact .inl htopic
    | paths k =>
      obtain ⟨g', hg', hset⟩ := Option.map_eq_some_iff.mp htopic
      by_cases hk : k = key
      · -- no other stat has the paths that are dropped
        subst hk
        refine .inr ⟨k, g'.paths, rfl, hset.symm, fun k' g'' hg'' heq => ?_⟩
        rw [hgraph] at hg''
        split at hg''
        · cases hg''
        next hne => exact hne (ho.sets _ _ _ _ hg'' hg' heq)
      · rw [Filed, Registry.topic?, hgraph, if_neg hk]
        exact .inl htopic

/-- Dropping a subgraph of which nothing is left keeps the invariant. -/
theorem Inv.withoutGraph (tell : A → σ → σ) (hn : n.Inv sc) (hidle : n.Idle)
    (hid : n.registry.graphId? key = some graph) (hg : n.registry.graph? key = some g)
    (hcount : g.modifierCount = 0) (hnodes : g.nodes = []) (hforms : g.forms = []) :
    (n.withoutGraph graph g.paths).Inv sc ∧ n.Trims tell (n.withoutGraph graph g.paths) 1 := by
  have ho := hn.orderly
  have hreg := n.registry_withoutGraph graph g.paths
  refine ⟨⟨hn.core_withoutGraph hidle hid hg hnodes hforms, hreg ▸ hn.counted.dropGraph ho hid⟩,
    (hn.wired.retires_withoutGraph graph g.paths).changes nofun, fun k => ?_, ?_, _,
    hn.wired.sheds_withoutGraph ho hid hg hnodes hforms hcount g.paths⟩
  · rw [hreg, Registry.paths_dropGraph ho hid]
    split
    · exact List.nil_sublist _
    · exact .refl _
  · rw [hreg]
    exact Registry.parts_dropGraph hid hg

omit [Number N] in
/-- A stat without nodes is not listed. -/
theorem Lists.listed?_eq_none (h : n.Lists) (hg : n.registry.graph? key = some g)
    (hnodes : g.nodes = []) {stat : Stat N} (hstat : stat.key = key) : n.listed? stat = none := by
  rw [listed?, Option.map_eq_none_iff, List.find?_eq_none]
  intro x hx hsame
  obtain ⟨e, he, -⟩ := h.shows x hx
  rw [(beq_iff_eq.mp hsame).trans hstat, Registry.stage?, hg, Option.bind_some, hnodes] at he
  cases he

/-- Dropping a subgraph if nothing is left of it keeps the invariant. -/
theorem leads_dropEmpty (hhost : host.Quiet tell) (hn : n.Inv sc) (hidle : n.Idle)
    (hid : n.registry.graphId? key = some graph) (hg : n.registry.graph? key = some g)
    (hcount : g.modifierCount = 0) :
    Leads True (dropEmpty host graph) n fun count n' => n'.Inv sc ∧ n.Trims tell n' count
      ∧ ∀ i ∈ n.registry.live, i ≠ graph → i ∈ n'.registry.live := by
  refine .get_bind ?_
  rw [graphs_of_graph? hid hg]
  dsimp only
  split
  next hempty =>
    simp only [Bool.and_eq_true, List.isEmpty_iff] at hempty
    obtain ⟨hinv, htrims⟩ := hn.withoutGraph tell hidle hid hg hcount hempty.1 hempty.2
    have hnone := hn.listed.listed?_eq_none hg hempty.1 (Registry.stat_key hg)
    have hfound : n.graph? g.stat.key = some graph := by
      rw [graph?_eq, Registry.stat_key hg, hid]
    refine .modify_bind ?_
    rw [hfound]
    change Leads True _ (n.withoutGraph graph g.paths) _
    have hstays : ∀ i ∈ n.registry.live, i ≠ graph →
        i ∈ (n.withoutGraph graph g.paths).registry.live := fun i hi hne => by
      rw [registry_withoutGraph]
      exact (List.mem_erase_of_ne hne).mpr hi
    have hgone : (n.withoutGraph graph g.paths).registry.graph? g.stat.key = none := by
      rw [registry_withoutGraph, Registry.graph?_dropGraph hn.orderly hid,
        if_pos (Registry.stat_key hg)]
    -- a stat without nodes is not listed, so there is nothing to take off the list
    refine (leads_unlist hhost hinv (htrims.changes.idle hidle)
      (fun _ h => absurd (hnone.symm.trans h) (by simp)) (by simp [hgone])).bind ?_
    rintro - n₂ ⟨hinv₂, htrims₂, hunlists₂, -⟩
    have htrims₂ := htrims.trans htrims₂
    refine (leads_uninstall hhost hinv₂.toCore (fun _ => htrims₂.changes.idle hidle)
      (sc.spares (hn.orderly.admits key g hg))).bind ?_
    rintro - n₃ ⟨hcore₃, hchanges₃, hr₃, hlisteners₃⟩
    have htrims₃ : n₂.Trims tell n₃ 0 := by
      refine ⟨hchanges₃, fun k => hr₃.paths k ▸ .refl _, ?_, _,
        (Sheds.refl n₂).of_same hlisteners₃ hr₃.items ?_ ?_⟩
      all_goals
        obtain ⟨⟨_, _, _, hr⟩, -⟩ := hr₃
        rw [hr]
      · exact le_rfl
      · exact fun _ => rfl
    refine .of_pure ⟨⟨hcore₃, hr₃.counted hinv₂.counted⟩, htrims₂.trans htrims₃,
      fun i hi hne => ?_⟩
    obtain ⟨⟨_, _, _, hr⟩, -⟩ := hr₃
    rw [hr]
    rw [show n₂.registry.live = _ from hunlists₂.live]
    exact hstays i hi hne
  · exact .of_pure ⟨hn, .refl n, fun i hi _ => hi⟩

end Network

end StatEngine
