import StatEngine.Proofs.Batches
import StatEngine.Proofs.Unfiling

/-!
# Removing parts that are unused

Nodes that nobody listens to are disposed and taken off file, and so are empty collections. Nobody relied
on them, so the invariant is kept; modifiers stay registered, and nodes stay on file that a host listens to.

## Main definitions

* `Trims`: parts were removed that nobody listened to;

## Main statements

* `leads_removeNodes` and `leads_removeCollection`: removing a part keeps the invariant.
-/

namespace StatEngine

open Network

namespace Network

variable {N A σ : Type} [Number N] {sc : Regime N} {n m : Network N A σ} {host : Host N A σ}
  {tell : A → σ → σ} {key : StatKey} {g : Subgraph N} {path : Path (Stat N)}

/-- Counting a path less keeps the invariant. -/
theorem leads_removePath (hhost : host.Quiet tell) (hn : n.Core sc) (hidle : n.Idle)
    (hg : n.registry.graph? key = some g) (hcounted : n.registry.CountedMore key path) :
    Leads True (removePath host g.paths path) n fun _ n' => n'.Inv sc ∧ n.Changes tell n'
      ∧ (∃ entries, n'.registry = n.registry.withCounts g.paths entries)
      ∧ (∀ k, (n'.registry.paths k).Sublist (n.registry.paths k))
      ∧ ∀ t, n'.listeners t = n.listeners t := by
  have hpaths := Registry.paths_eq hg
  have hfewer {r : Registry N} {entries : List (Path (Stat N) × Nat)}
      (hr : r = n.registry.withCounts g.paths entries)
      (h : (entries.map (·.1)).Sublist ((n.registry.counts g.paths).map (·.1))) (k : StatKey) :
      (r.paths k).Sublist (n.registry.paths k) := by
    rw [hr]
    by_cases hk : k = key
    · rw [hk, Registry.paths_withCounts_self hg, hpaths]
      exact h
    · rw [Registry.paths_withCounts_of_ne hn.orderly hg hk]
  have hadmits := hn.orderly.path_admits key
  have hnodup := hn.orderly.paths_nodup key
  rw [hpaths] at hadmits hnodup
  obtain ⟨htopic, -⟩ := hn.wired.sets key g hg
  refine .get_bind ?_
  have hfind : (n.pathSets[g.paths]?.bind fun s => s.entries.find? (·.1.same path))
      = (n.registry.counts g.paths).find? (·.1.same path) := by
    simp only [registry]
    cases n.pathSets[g.paths]? <;> rfl
  rw [hfind]
  cases hfound : (n.registry.counts g.paths).find? (·.1.same path) with
  | none =>
    refine .of_pure ⟨⟨hn, fun k g' hg' q => ?_⟩, .refl n, ⟨n.registry.counts g.paths, ?_⟩,
      fun _ => .refl _, fun _ => rfl⟩
    · exact (Nat.le_add_right _ _).trans (hcounted k g' hg' q)
    · rw [Registry.withCounts, Function.update_eq_self]
  | some entry =>
    obtain ⟨p, count⟩ := entry
    dsimp only
    split
    · -- one use less of a path that is still used: nobody is told
      change Leads True (modify fun n => n.modifyPaths g.paths (List.map (Registry.lower path))) n _
      have hs := n.sameNodes_modifyPaths g.paths (List.map (Registry.lower path))
      have hm := n.registry_modifyPaths g.paths (List.map (Registry.lower path)) htopic
      have hentries := Registry.map_fst_lower path (n.registry.counts g.paths)
      have ho := hn.orderly.withCounts hg (hentries.symm ▸ hadmits) (hentries.symm ▸ hnodup)
      have hgrows := grows_counted ho
        (.withCounts hn.orderly hg (.inl (hentries.trans hpaths.symm))) hm (hn.wired_counted hs hm)
        hs.view hs.listeners hs.topic hs.present hs.there hs.released (.of_buffer hs.buffer) hs.notices
      refine .of_modify ⟨⟨hgrows.core hn, hm ▸ ?_⟩, hgrows.changes, ⟨_, hm⟩,
        hfewer hm (hentries ▸ .refl _), hs.listeners⟩
      exact hcounted.withCounts hn.orderly hg (Registry.count_lower path _)
    · next hone =>
      have hs := n.sameNodes_modifyPaths g.paths (List.filter fun entry => !entry.1.same path)
      have hm := n.registry_modifyPaths g.paths (List.filter fun entry => !entry.1.same path) htopic
      have hsub : ((n.registry.counts g.paths).filter fun entry => !entry.1.same path).map (·.1)
          |>.Sublist ((n.registry.counts g.paths).map (·.1)) := List.filter_sublist.map _
      have ho := hn.orderly.withCounts hg (fun p hp => hadmits p (hsub.subset hp))
        (hnodup.sublist (hsub.map _))
      have hwired := hn.wired_counted hs hm
      refine .modify_bind ((emit_changed hhost hwired.typed (inward_paths _ g.paths)).weaken ?_)
      -- the last use is gone, and those that read the paths are told
      rintro - _ ⟨ids, left, rfl, hdefers, hids⟩
      have hcore := hn.announce_paths hidle hg hs hm ho hids left
      refine ⟨⟨hcore, ?_⟩, hs.changes.trans (.dim hdefers), ⟨_, hm⟩, hfewer hm hsub, fun t => ?_⟩
      · rw [registry_dim, hm]
        refine hcounted.withCounts hn.orderly hg (Registry.count_filter ?_)
        rw [Registry.count, hfound]
        exact Nat.le_of_not_lt hone
      · exact (listeners_dim ..).trans (hs.listeners t)

/-! ## Nodes -/

/-- Parts were removed that nobody listened to. Paths may go, and the others stay in order. -/
structure Trims (tell : A → σ → σ) (n n' : Network N A σ) (count : Nat) : Prop where
  changes : n.Changes tell n'
  paths : ∀ k, (n'.registry.paths k).Sublist (n.registry.paths k)
  parts : n'.registry.parts + count ≤ n.registry.parts
  sheds : ∃ gone, n.Sheds n' gone

namespace Trims

variable {n' : Network N A σ} {count count' : Nat}

omit [Number N] in
theorem refl (n : Network N A σ) : n.Trims tell n 0 :=
  ⟨.refl n, fun _ => .refl _, le_rfl, [], .refl n⟩

omit [Number N] in
theorem trans (h : n.Trims tell m count) (h' : m.Trims tell n' count') :
    n.Trims tell n' (count + count') := by
  obtain ⟨gone, hsheds⟩ := h.sheds
  obtain ⟨gone', hsheds'⟩ := h'.sheds
  refine ⟨h.changes.trans h'.changes, fun k => (h'.paths k).trans (h.paths k), ?_,
    gone ++ gone', hsheds.trans hsheds'⟩
  have := h.parts
  have := h'.parts
  omega

omit [Number N] in
/-- Modifiers stay registered. -/
theorem members (h : n.Trims tell n' count) (k : StatKey) (f : Form) (p : PathKey) :
    n'.registry.members k f p = n.registry.members k f p :=
  h.sheds.elim fun _ hsheds => hsheds.members k f p

omit [Number N] in
/-- Nodes on file stay that a host listens to. -/
theorem stages (h : n.Trims tell n' count) (k : NodeKey) (e : NodeEntry N)
    (he : n.registry.stage? k = some e) (hheard : n.callbacks (.changed e.cached) ≠ []) :
    n'.registry.stage? k = some e := by
  obtain ⟨gone, hsheds⟩ := h.sheds
  refine (hsheds.stage k e).mpr ⟨he, fun hgone => hheard ?_⟩
  rw [← h.changes.callbacks, callbacks, (hsheds.unheard k e he hgone).2]
  rfl

omit [Number N] in
theorem quiet (h : n.Trims tell n' count) (t : Topic) (ht : n.listeners t = []) :
    n'.listeners t = [] :=
  h.sheds.elim fun _ hsheds => hsheds.quiet ht

end Trims

omit [Number N] in
/-- The nodes of different stages are different. -/
theorem Wired.stage_key_unique (hn : n.Wired sc) {k k' : NodeKey} {e e' : NodeEntry N}
    (he : n.registry.stage? k = some e) (he' : n.registry.stage? k' = some e')
    (h : e.formula = e'.formula) : k = k' := by
  obtain ⟨-, -, l, g, layers, hcell, hg, hl, -⟩ := hn.stages k e he
  obtain ⟨-, -, l', g', layers', hcell', hg', hl', -⟩ := hn.stages k' e' he'
  have hkind := hcell.formula
  rw [h, hcell'.formula] at hkind
  obtain ⟨hsource, hpath⟩ := Kind.formula.inj (Option.some.inj hkind)
  obtain rfl := FormulaSource.layered.inj hsource
  obtain ⟨hφ, -⟩ := Prod.mk.inj (Option.some.inj (hl.symm.trans hl'))
  obtain ⟨hstat, hstage⟩ := Formula.stage.inj hφ
  obtain ⟨stat, stage, path⟩ := k
  obtain ⟨stat', stage', path'⟩ := k'
  have hkey := Registry.stat_key hg
  have hkey' := Registry.stat_key hg'
  have hp := (Registry.stage?_spec he).2
  have hp' := (Registry.stage?_spec he').2
  simp_all

/-- The network without the formulas that are registered for a node. -/
def unregistered (n : Network N A σ) (key : NodeKey) : Network N A σ :=
  n.withBehaviors n.installed (n.registrations.filter (·.key != key))

omit [Number N] in
theorem registry_unregistered (n : Network N A σ) (key : NodeKey) : (n.unregistered key).registry
    = { n.registry with registrations := n.registry.registrations.filter (·.key != key) } := rfl

omit [Number N] in
theorem isPresent_unregistered (n : Network N A σ) (key : NodeKey) (t : Topic) :
    (n.unregistered key).isPresent t = n.isPresent t := by
  cases t <;> rfl

/-- The network without the nodes of a stage on a path. -/
def withoutNodes (n : Network N A σ) (graph : Nat) (key : NodeKey) (e : NodeEntry N) :
    Network N A σ :=
  ((n.modifyGraph graph (Registry.dropNodes e)).disposedCell e.formula).unregistered key

section WithoutNodes

variable {graph : Nat} (hid : n.registry.graphId? key = some graph)
  (hg : n.registry.graph? key = some g) {e : NodeEntry N}
  (he : n.registry.stage? ⟨key, e.stage, e.path.key⟩ = some e)

omit [Number N] in
theorem registry_withoutNodes (n : Network N A σ) (graph : Nat) (k : NodeKey) (e : NodeEntry N) :
    (n.withoutNodes graph k e).registry = { n.registry.modifyGraph graph (Registry.dropNodes e) with
      registrations := n.registry.registrations.filter (·.key != k) } := by
  have h := (n.modifyGraph graph (Registry.dropNodes e)).registry_disposedCell e.formula
  rw [registry_modifyGraph] at h
  rw [withoutNodes, registry_unregistered, h]
  rfl

omit [Number N] in
theorem isPresent_withoutNodes (n : Network N A σ) (graph : Nat) (k : NodeKey) (e : NodeEntry N)
    (set : Nat) : (n.withoutNodes graph k e).isPresent (.paths set) = n.isPresent (.paths set) := by
  rw [withoutNodes, isPresent_unregistered, isPresent_disposedCell]
  rfl

omit [Number N] in
theorem Wired.retires_withoutNodes (hn : n.Wired sc) (k : NodeKey) :
    n.Retires (n.withoutNodes graph k e) [e.formula, e.formula + 1] := by
  have h := Retires.of_sameNodes hn.typed hn.ledger
    (n.sameNodes_modifyGraph graph (Registry.dropNodes e))
  have h' := retires_disposedCell h.typed h.ledger e.formula
  exact h.trans (h'.trans (.of_sameNodes h'.typed h'.ledger (sameNodes_withBehaviors _ _)))

include hid in
omit [Number N] in
theorem stage?_withoutNodes (k : NodeKey) :
    (n.withoutNodes graph ⟨key, e.stage, e.path.key⟩ e).registry.stage? k
      = if k = ⟨key, e.stage, e.path.key⟩ then none else n.registry.stage? k := by
  rw [registry_withoutNodes]
  exact Registry.stage?_dropNodes hid e k

include hid in
omit [Number N] in
theorem form?_withoutNodes (k : StatKey) (f : Form) (p : PathKey) :
    (n.withoutNodes graph ⟨key, e.stage, e.path.key⟩ e).registry.form? k f p
      = n.registry.form? k f p := by
  rw [registry_withoutNodes]
  exact Registry.form?_modifyGraph (f := Registry.dropNodes e) hid (fun _ => rfl) (fun _ => rfl) k f p

include hid in
omit [Number N] in
theorem graph?_withoutNodes (k : StatKey) :
    (n.withoutNodes graph ⟨key, e.stage, e.path.key⟩ e).registry.graph? k
      = if k = key then (n.registry.graph? k).map (Registry.dropNodes e) else n.registry.graph? k := by
  rw [registry_withoutNodes]
  exact Registry.graph?_modifyGraph (f := Registry.dropNodes e) hid (fun _ => rfl) k

include hid in
omit [Number N] in
theorem exists_graph_of_withoutNodes {k : StatKey} {g : Subgraph N}
    (hg : (n.withoutNodes graph ⟨key, e.stage, e.path.key⟩ e).registry.graph? k = some g) :
    ∃ g', n.registry.graph? k = some g' ∧ g.stat = g'.stat ∧ g.paths = g'.paths := by
  rw [graph?_withoutNodes hid] at hg
  split at hg
  · obtain ⟨g', hg', rfl⟩ := Option.map_eq_some_iff.mp hg
    exact ⟨g', hg', rfl, rfl⟩
  · exact ⟨g, hg, rfl, rfl⟩

include hid he in
omit [Number N] in
theorem Wired.drops_withoutNodes (hn : n.Wired sc) :
    n.Drops (n.withoutNodes graph ⟨key, e.stage, e.path.key⟩ e) [e.formula, e.formula + 1] := by
  obtain ⟨-, -, _, _, _, hcell, -⟩ := hn.stages _ _ he
  refine ⟨fun k g hg => exists_graph_of_withoutNodes hid hg, fun k e' he' => ?_, fun k f p e' he' => ?_,
    by rw [registry_withoutNodes]; rfl, by rw [registry_withoutNodes]; rfl,
    by rw [registry_withoutNodes]; rfl, fun k e' he' => ?_⟩
  · rw [stage?_withoutNodes hid] at he'
    split at he'
    · cases he'
    next hne =>
      obtain ⟨-, -, _, _, _, hcell', -⟩ := hn.stages _ _ he'
      exact ⟨he', fun i hi => (hcell.apart hcell'
        (fun heq => hne (hn.stage_key_unique he' he heq.symm)) hi).1⟩
  · rw [form?_withoutNodes hid] at he'
    have hform := hn.forms _ _ _ _ he'
    refine ⟨he', hcell.not_aggregate hform.kind, fun i hi j hj => ?_⟩
    rw [registry_withoutNodes] at hi
    obtain ⟨-, -, -, id', hid', hcell'⟩ := hform.members i hi
    rw [hid']
    refine (hcell.apart hcell' (fun heq => ?_) hj).2
    have hkind := hcell.formula
    rw [heq, hcell'.formula] at hkind
    cases hkind
  · rw [stage?_withoutNodes hid]
    split
    next heq =>
      rw [heq, he] at he'
      cases he'
      exact .inr List.mem_cons_self
    · exact .inl he'

include hid he in
omit [Number N] in
/-- Nodes that nobody listens to are not listed. -/
theorem Wired.lists_withoutNodes (hn : n.Wired sc) (hlisted : n.Lists)
    (hchanged : n.listeners (.changed e.cached) = []) :
    (n.withoutNodes graph ⟨key, e.stage, e.path.key⟩ e).Lists := by
  obtain ⟨-, -, _, _, _, hcell, -⟩ := hn.stages _ _ he
  have hsame : (n.withoutNodes graph ⟨key, e.stage, e.path.key⟩ e).registry.listed
      = n.registry.listed := by
    rw [registry_withoutNodes]
    rfl
  refine hlisted.retire (hn.retires_withoutNodes _) (by rw [hsame]) (fun x hx => ?_) fun x hx e' he' => ?_
  · obtain ⟨inner, hwrapped⟩ := hlisted.wrapped (hsame ▸ hx)
    exact hcell.not_wrapped hwrapped
  · rw [stage?_withoutNodes hid, if_neg fun heq => ?_, he']
    -- the node that shows the total listens to it
    obtain ⟨e'', he'', -, s, hs, htopic⟩ := hlisted.shows x (hsame ▸ hx)
    obtain rfl := Option.some.inj (he''.symm.trans (heq ▸ he))
    obtain ⟨listener, hlistener, -⟩ := hn.listener_of_held hs
    rw [htopic, hchanged] at hlistener
    cases hlistener

/-- Nobody who is on file relies on nodes that nobody listens to. -/
theorem Inv.core_withoutNodes (hn : n.Inv sc) (hidle : n.Idle)
    (hid : n.registry.graphId? key = some graph)
    (he : n.registry.stage? ⟨key, e.stage, e.path.key⟩ = some e)
    (hreceived : n.listeners (.received e.cached) = [])
    (hchanged : n.listeners (.changed e.cached) = []) :
    (n.withoutNodes graph ⟨key, e.stage, e.path.key⟩ e).Core sc := by
  have hdrops := hn.wired.drops_withoutNodes hid he
  -- the nodes that are dropped are on record nowhere
  have hkept {id : Nat} {k : NodeKey} {s : Subscription} (hrecorded : (.node k, s) ∈ n.recorded id)
      (htopic : n.registry.topic? (.node k) = some s.topic) :
      (n.withoutNodes graph ⟨key, e.stage, e.path.key⟩ e).registry.stage? k
        = n.registry.stage? k := by
    refine (stage?_withoutNodes hid k).trans (if_neg fun heq => ?_)
    obtain ⟨listener, hlistener, -⟩ := hn.wired.listener_of_held (mem_held_of_recorded hrecorded)
    rw [heq, Registry.topic?, he] at htopic
    rw [← Option.some.inj htopic, hreceived] at hlistener
    cases hlistener
  refine hn.toCore.retire hidle hdrops (hn.wired.retires_withoutNodes _) (fun k g _ h => ?_) ?_
    (hn.wired.lists_withoutNodes hid he hn.listed hchanged)
    (fun id φ p hd d hrecorded htopic => ?_) fun id _ d hrecorded htopic => .inl ?_
  · rwa [isPresent_withoutNodes]
  · have ho := hn.orderly.dropNodes hid e
    rw [registry_withoutNodes]
    exact { ho with registered := fun k hk => ho.registered k (List.mem_of_mem_filter hk) }
  · obtain ⟨d, s⟩ := d
    cases d with
    | node k => exact hkept hrecorded htopic
    | form k f p =>
      refine ⟨form?_withoutNodes hid k f p, fun e' _ => ?_⟩
      rw [hdrops.items]
    | paths k =>
      obtain ⟨g, hg, hset⟩ := Option.map_eq_some_iff.mp htopic
      obtain ⟨e', he', rfl⟩ := hn.wired.path_held hd.follows k g hg id s
        (mem_held_of_recorded hrecorded) hset.symm
      -- whoever records paths is on file itself, so its own nodes are not those that go
      have hsame : (n.withoutNodes graph ⟨key, e.stage, e.path.key⟩ e).registry.stage?
          ⟨k, .uncappedSubtotal, Path.main⟩ = some e' := by
        refine (hdrops.dropped k e' he').resolve_right fun hgone => ?_
        obtain ⟨key', hunder⟩ := hd.under
        exact (hdrops.not_gone hunder).1 hgone
      obtain ⟨g', hg', -⟩ := Registry.stage?_eq_some_iff.mp hsame
      obtain ⟨g₀, hg₀, -, hpaths⟩ := hdrops.graph k g' hg'
      refine ⟨?_, fun _ => hdrops.paths hg', fun x hx => ?_⟩
      · rw [Registry.topic?, Registry.topic?, hg', hg₀, Option.map_some, Option.map_some, hpaths]
      · obtain rfl := Option.some.inj (hx.symm.trans he')
        exact hsame
  · obtain ⟨d, s⟩ := d
    rw [← htopic]
    cases d with
    | node k => rw [Registry.topic?, Registry.topic?, hkept hrecorded htopic]
    | form k f p => rw [Registry.topic?, Registry.topic?, form?_withoutNodes hid]
    | paths k =>
      rw [Registry.topic?, Registry.topic?, graph?_withoutNodes hid]
      split
      · rw [Option.map_map]
        rfl
      · rfl

include hid hg he in
omit [Number N] in
/-- Nodes that nobody listens to are shed if their stat has no modifiers. -/
theorem Wired.sheds_withoutNodes (hn : n.Wired sc) (hlisted : n.Lists)
    (hreceived : n.listeners (.received e.cached) = [])
    (hchanged : n.listeners (.changed e.cached) = []) (hcount : g.modifierCount = 0) :
    n.Sheds (n.withoutNodes graph ⟨key, e.stage, e.path.key⟩ e) [e.formula, e.formula + 1] := by
  obtain ⟨-, -, _, _, _, hcell, -⟩ := hn.stages _ _ he
  have hother {k : NodeKey} {e' : NodeEntry N} (he' : n.registry.stage? k = some e')
      (hk : k ≠ ⟨key, e.stage, e.path.key⟩) : e'.formula ∉ [e.formula, e.formula + 1] := fun hmem => by
    obtain ⟨-, -, _, _, _, hcell', -⟩ := hn.stages _ _ he'
    exact ((hcell.apart hcell' (fun heq => hk (hn.stage_key_unique he' he heq.symm)) hmem).1).1 rfl
  refine (hn.drops_withoutNodes hid he).sheds (hn.retires_withoutNodes _) (fun k e' he' hstays => ?_)
    (fun k f p e' he' _ => (form?_withoutNodes hid k f p).trans he') ?_ (fun k e' he' hmem => ?_)
    (fun k f p e' he' hmem => ?_) (fun x hx hmem => ?_) (fun k g' hg' hpos => ?_) fun k g' hg' => ?_
  · rw [stage?_withoutNodes hid, if_neg fun heq => hstays ?_, he']
    rw [heq, he] at he'
    exact Option.some.inj he' ▸ List.mem_cons_self
  · rw [registry_withoutNodes]
    refine (List.filter_eq_self.mpr fun x hx => decide_eq_true ?_).symm
    obtain ⟨inner, hwrapped⟩ := hlisted.wrapped hx
    exact hcell.not_wrapped hwrapped
  · by_cases hk : k = ⟨key, e.stage, e.path.key⟩
    · obtain rfl := Option.some.inj (he'.symm.trans (hk ▸ he))
      exact ⟨hreceived, hchanged⟩
    · exact absurd hmem (hother he' hk)
  · exact absurd hmem (hcell.not_aggregate (hn.forms _ _ _ _ he').kind)
  · obtain ⟨inner, hwrapped⟩ := hlisted.wrapped hx
    exact absurd hmem (hcell.not_wrapped hwrapped)
  · rw [graph?_withoutNodes hid, if_neg fun heq => ?_, hg']
    rw [heq, hg] at hg'
    exact hpos.ne' (Option.some.inj hg' ▸ hcount)
  · rw [graph?_withoutNodes hid] at hg'
    split at hg'
    · obtain ⟨g₀, hg₀, rfl⟩ := Option.map_eq_some_iff.mp hg'
      exact ⟨g₀, hg₀, rfl, rfl, rfl⟩
    · exact ⟨g', hg', rfl, rfl, rfl⟩

end WithoutNodes

end Network

/-- The same subgraphs are in use, for the same stats with as many modifiers and with the same sets of
paths. -/
structure Registry.SameGraphs {N : Type} (r r' : Registry N) : Prop where
  live : r'.live = r.live
  graphId : ∀ k, r'.graphId? k = r.graphId? k
  graph : ∀ k g, r.graph? k = some g → ∃ g', r'.graph? k = some g' ∧ g'.stat = g.stat
    ∧ g'.paths = g.paths ∧ g'.modifierCount = g.modifierCount

namespace Registry.SameGraphs

variable {N : Type} {r r' r'' : Registry N}

theorem refl (r : Registry N) : r.SameGraphs r :=
  ⟨rfl, fun _ => rfl, fun _ g h => ⟨g, h, rfl, rfl, rfl⟩⟩

theorem trans (h : r.SameGraphs r') (h' : r'.SameGraphs r'') : r.SameGraphs r'' := by
  refine ⟨h'.live.trans h.live, fun k => (h'.graphId k).trans (h.graphId k), fun k g hg => ?_⟩
  obtain ⟨g', hg', hstat, hpaths, hcount⟩ := h.graph k g hg
  obtain ⟨g'', hg'', hstat', hpaths', hcount'⟩ := h'.graph k g' hg'
  exact ⟨g'', hg'', hstat'.trans hstat, hpaths'.trans hpaths, hcount'.trans hcount⟩

end Registry.SameGraphs

namespace Network

variable {N A σ : Type} [Number N] {sc : Regime N} {n m : Network N A σ} {host : Host N A σ}
  {tell : A → σ → σ} {key : StatKey} {g : Subgraph N} {path : Path (Stat N)} {graph : Nat}

section Parts

variable {f : Subgraph N → Subgraph N} {registrations : List Registration}
  (hid : n.registry.graphId? key = some graph) (hstat : ∀ g, (f g).stat = g.stat)
  (hpaths : ∀ g, (f g).paths = g.paths)
  (hreg : m.registry = { n.registry.modifyGraph graph f with registrations := registrations })

include hid hstat hreg

omit [Number N] in
theorem graph?_of_modifyGraph (k : StatKey) :
    m.registry.graph? k = if k = key then (n.registry.graph? k).map f else n.registry.graph? k := by
  rw [hreg]
  exact Registry.graph?_modifyGraph hid hstat k

include hpaths

omit [Number N] in
/-- The same subgraphs are in use when parts of one are taken off file. -/
theorem sameGraphs_of_modifyGraph (hcount : ∀ g, (f g).modifierCount = g.modifierCount) :
    n.registry.SameGraphs m.registry := by
  refine ⟨by rw [hreg]; rfl, fun k => ?_, fun k g hg => ?_⟩
  · rw [hreg]
    exact Registry.graphId?_modifyGraph hstat k
  · rw [graph?_of_modifyGraph hid hstat hreg, hg]
    split
    · exact ⟨_, rfl, hstat g, hpaths g, hcount g⟩
    · exact ⟨_, rfl, rfl, rfl, rfl⟩

omit [Number N] in
/-- What is shed was one part of a subgraph. -/
theorem Trims.of_modifyGraph {gone : List Nat} (hg : n.registry.graph? key = some g)
    (hnodup : n.registry.live.Nodup)
    (hlength : (f g).nodes.length + (f g).forms.length + 1 ≤ g.nodes.length + g.forms.length)
    (hchanges : n.Changes tell m) (hsheds : n.Sheds m gone) : n.Trims tell m 1 := by
  refine ⟨hchanges, fun k => ?_, ?_, gone, hsheds⟩
  · have hsame : m.registry.paths k = n.registry.paths k := by
      rw [hreg]
      exact Registry.paths_modifyGraph hid hstat hpaths k
    rw [hsame]
  · rw [hreg]
    exact Registry.parts_modifyGraph hid hg hlength hnodup

end Parts

/-- Counting a path less for a part that was taken off file restores the invariant. -/
theorem Trims.leads_removePath {count : Nat} (htrims : n.Trims tell m count) (hhost : host.Quiet tell)
    (hm : m.Core sc) (hidle : n.Idle) (hg : m.registry.graph? key = some g)
    (hcounted : m.registry.CountedMore key path) :
    Leads True (removePath host g.paths path) m fun _ n' => n'.Inv sc ∧ n.Trims tell n' count
      ∧ m.registry.SameGraphs n'.registry ∧ (∀ k, n'.registry.stage? k = m.registry.stage? k)
      ∧ ∀ k f p, n'.registry.form? k f p = m.registry.form? k f p := by
  refine (Network.leads_removePath hhost hm (htrims.changes.idle hidle) hg hcounted).weaken ?_
  rintro - n' ⟨hinv, hchanges, ⟨entries, hr⟩, hfewer, hlisteners⟩
  obtain ⟨gone, hsheds⟩ := htrims.sheds
  refine ⟨hinv, ⟨htrims.changes.trans hchanges, fun k => (hfewer k).trans (htrims.paths k), ?_, gone,
    hsheds.of_same hlisteners ?_ ?_ fun k => ?_⟩, ?_⟩
  · rw [hr]
    exact htrims.parts
  · rw [hr]
    rfl
  · rw [hr]
    rfl
  · rw [hr]
    rfl
  · rw [hr]
    exact ⟨⟨rfl, fun _ => rfl, fun _ g' h => ⟨g', h, rfl, rfl, rfl⟩⟩, fun _ => rfl, fun _ _ _ => rfl⟩

/-- Removing nodes that nobody listens to keeps the invariant. -/
theorem leads_removeNodes (hhost : host.Quiet tell) (hn : n.Inv sc) (hidle : n.Idle)
    (hid : n.registry.graphId? key = some graph) (hg : n.registry.graph? key = some g)
    {e : NodeEntry N} (he : n.registry.stage? ⟨key, e.stage, e.path.key⟩ = some e)
    (hreceived : n.listeners (.received e.cached) = [])
    (hchanged : n.listeners (.changed e.cached) = []) (hcount : g.modifierCount = 0)
    {given : Subgraph N} (hstat : given.stat = g.stat) (hpaths : given.paths = g.paths) :
    Leads True (removeNodes host graph given e) n fun _ n' => n'.Inv sc ∧ n.Trims tell n' 1
      ∧ n.registry.SameGraphs n'.registry
      ∧ ∀ k, k ≠ ⟨key, e.stage, e.path.key⟩ → n'.registry.stage? k = n.registry.stage? k := by
  obtain ⟨-, hexposed, _, _, _, hcell, -⟩ := hn.wired.stages _ _ he
  have hkey : given.stat.key = key := (congrArg Stat.key hstat).trans (Registry.stat_key hg)
  have hmem : e ∈ g.nodes := by
    obtain ⟨g', hg', hfind⟩ := Registry.stage?_eq_some_iff.mp he
    obtain rfl := Option.some.inj (hg.symm.trans hg')
    exact List.mem_of_find?_eq_some hfind
  have hdispose := dispose_cell host
    ((n.sameNodes_modifyGraph graph (Registry.dropNodes e)).hasCell hcell)
  rw [← hexposed] at hdispose
  -- the nodes go off file, are disposed and registered no more
  refine .modify_bind (.eq_bind hdispose (.modify_bind ?_))
  rw [hkey, hpaths]
  change Leads True _ (n.withoutNodes graph ⟨key, e.stage, e.path.key⟩ e) _
  have hcore := hn.core_withoutNodes hidle hid he hreceived hchanged
  have hretires : n.Retires (n.withoutNodes graph ⟨key, e.stage, e.path.key⟩ e) _ :=
    hn.wired.retires_withoutNodes ⟨key, e.stage, e.path.key⟩
  have hsheds := hn.wired.sheds_withoutNodes hid hg he hn.listed hreceived hchanged hcount
  have hstage := stage?_withoutNodes (n := n) hid (e := e)
  have hreg := n.registry_withoutNodes graph ⟨key, e.stage, e.path.key⟩ e
  generalize n.withoutNodes graph ⟨key, e.stage, e.path.key⟩ e = m at *
  have hother (k : NodeKey) (hk : k ≠ ⟨key, e.stage, e.path.key⟩) :
      m.registry.stage? k = n.registry.stage? k := (hstage k).trans (if_neg hk)
  have hlength : (g.nodes.filter fun x => !(x.stage == e.stage && x.path.same e.path)).length + 1
      ≤ g.nodes.length := by
    rw [Nat.add_one_le_iff]
    exact List.length_filter_lt_length_iff_exists.mpr ⟨e, hmem, by simp [Path.same]⟩
  have htrims : n.Trims tell m 1 := .of_modifyGraph (f := Registry.dropNodes e) hid (fun _ => rfl)
    (fun _ => rfl) hreg hg hn.orderly.live_nodup (by simp only [Registry.dropNodes]; omega)
    (hretires.changes fun i hi hformula _ _ => hretires.held _ (hcell.succ_mem hi hformula)) hsheds
  have hsame := sameGraphs_of_modifyGraph (f := Registry.dropNodes e) hid (fun _ => rfl) (fun _ => rfl) hreg fun _ => rfl
  -- only stages with a value on each path are counted for theirs
  split
  next hpath =>
    have hg' : m.registry.graph? key = some (Registry.dropNodes e g) := by
      rw [graph?_of_modifyGraph (f := Registry.dropNodes e) hid (fun _ => rfl) hreg, if_pos rfl, hg,
        Option.map_some]
    have hcounted : m.registry.CountedMore key e.path := by
      rw [hreg]
      refine hn.counted.drop (f := Registry.dropNodes e) hid (fun _ => rfl) (fun _ => rfl)
        fun g₀ hg₀ => ?_
      obtain rfl := Option.some.inj (hg.symm.trans hg₀)
      exact Registry.uses_dropNodes hmem hpath
    refine (htrims.leads_removePath hhost hcore hidle hg' hcounted).weaken ?_
    rintro - n' ⟨hinv, htrims, hsame', hstage', -⟩
    exact ⟨hinv, htrims, hsame.trans hsame', fun k hk => (hstage' k).trans (hother k hk)⟩
  · refine .of_pure ⟨⟨hcore, ?_⟩, htrims, hsame, hother⟩
    rw [hreg]
    exact hn.counted.modifyGraph_le (f := Registry.dropNodes e) hid (fun _ => rfl) (fun _ => rfl)
      fun g q => Registry.uses_dropNodes_le e g q

/-- Removing several nodes that nobody listens to keeps the invariant. -/
theorem leads_removeAllNodes (hhost : host.Quiet tell) {given : Subgraph N} :
    ∀ {entries : List (NodeEntry N)} {n : Network N A σ} {g : Subgraph N}, n.Inv sc → n.Idle →
      n.registry.graphId? key = some graph → n.registry.graph? key = some g →
      g.modifierCount = 0 → given.stat = g.stat → given.paths = g.paths → entries.Nodup →
      (∀ e ∈ entries, n.registry.stage? ⟨key, e.stage, e.path.key⟩ = some e
        ∧ n.listeners (.received e.cached) = [] ∧ n.listeners (.changed e.cached) = []) →
      Leads True (entries.forM (removeNodes host graph given)) n fun _ n' => n'.Inv sc
        ∧ n.Trims tell n' entries.length ∧ n.registry.SameGraphs n'.registry
  | [], n, g, hn, _, _, _, _, _, _, _, _ => .of_pure ⟨hn, .refl n, .refl _⟩
  | e :: entries, n, g, hn, hidle, hid, hg, hcount, hstat, hpaths, hnodup, hentries => by
    rw [List.forM_eq_forM, List.forM_cons]
    obtain ⟨hnot, hnodup⟩ := List.nodup_cons.mp hnodup
    obtain ⟨he, hreceived, hchanged⟩ := hentries e List.mem_cons_self
    refine (leads_removeNodes hhost hn hidle hid hg he hreceived hchanged hcount hstat hpaths).bind ?_
    rintro - m ⟨hinv, htrims, hsame, hother⟩
    obtain ⟨g', hg', hstat', hpaths', hcount'⟩ := hsame.graph _ _ hg
    refine (leads_removeAllNodes hhost hinv (htrims.changes.idle hidle) ((hsame.graphId _).trans hid)
      hg' (hcount'.trans hcount) (hstat.trans hstat'.symm) (hpaths.trans hpaths'.symm) hnodup fun x hx => ?_).weaken ?_
    · obtain ⟨hxe, hxreceived, hxchanged⟩ := hentries x (List.mem_cons_of_mem _ hx)
      refine ⟨(hother _ fun heq => hnot ?_).trans hxe, htrims.quiet _ hxreceived,
        htrims.quiet _ hxchanged⟩
      rw [heq] at hxe
      exact Option.some.inj (he.symm.trans hxe) ▸ hx
    · rintro - n' ⟨hinv', htrims', hsame'⟩
      rw [List.length_cons, Nat.add_comm]
      exact ⟨hinv', htrims.trans htrims', hsame.trans hsame'⟩

/-- Removing the nodes of a stage that nobody listens to keeps the invariant. -/
theorem leads_pruneStage (hhost : host.Quiet tell) (hn : n.Inv sc) (hidle : n.Idle)
    (hid : n.registry.graphId? key = some graph) (hg : n.registry.graph? key = some g)
    (hcount : g.modifierCount = 0) (stage : Stage) :
    Leads True (pruneStage host graph stage) n fun count n' => n'.Inv sc ∧ n.Trims tell n' count
      ∧ n.registry.SameGraphs n'.registry := by
  refine .get_bind ?_
  rw [graphs_of_graph? hid hg]
  refine (leads_removeAllNodes hhost hn hidle hid hg hcount rfl rfl
    ((hn.orderly.nodes_nodup key g hg).filter _) fun e he => ?_).bind fun _ n' h => .of_pure h
  obtain ⟨he, hunheard⟩ := List.mem_filter.mp he
  simp only [NodeEntry.isUnheard, listenerCount, Bool.and_eq_true, beq_iff_eq,
    List.length_eq_zero_iff] at hunheard
  exact ⟨hn.orderly.nodes_found key g hg e he, hunheard.2⟩

/-- Removing the nodes of several stages that nobody listens to keeps the invariant. -/
theorem leads_pruneStages (hhost : host.Quiet tell) :
    ∀ {stages : List Stage} {n : Network N A σ} {g : Subgraph N}, n.Inv sc → n.Idle →
      n.registry.graphId? key = some graph → n.registry.graph? key = some g → g.modifierCount = 0 →
      Leads True (stages.mapM (pruneStage host graph)) n fun counts n' => n'.Inv sc
        ∧ n.Trims tell n' counts.sum ∧ n.registry.SameGraphs n'.registry
  | [], n, g, hn, _, _, _, _ => .of_pure ⟨hn, .refl n, .refl _⟩
  | stage :: stages, n, g, hn, hidle, hid, hg, hcount => by
    rw [List.mapM_cons]
    refine (leads_pruneStage hhost hn hidle hid hg hcount stage).bind ?_
    rintro count m ⟨hinv, htrims, hsame⟩
    obtain ⟨g', hg', -, -, hcount'⟩ := hsame.graph _ _ hg
    refine (leads_pruneStages hhost hinv (htrims.changes.idle hidle)
      ((hsame.graphId _).trans hid) hg' (hcount'.trans hcount)).bind ?_
    rintro counts n' ⟨hinv', htrims', hsame'⟩
    exact .of_pure ⟨hinv', htrims.trans htrims', hsame.trans hsame'⟩

/-! ## Collections -/

omit [Number N] in
/-- A collection without members that is cleared stays as it is. -/
theorem emit_reset (host : Host N A σ) (hn : n.Typed) {c a token : Nat} {form : Form}
    (hkind : n.kind? a = some (.aggregate c form))
    (hfollower : n.listeners (.members c) = [⟨token, .follow a⟩]) (hfollowed : n.followed a = [])
    (hempty : n.memberNodes c = []) (hunheard : n.listeners (.changed a) = []) :
    emit host (.members c) .reset n = some (⟨⟩, n) := by
  obtain ⟨fuel, hfuel, hemit⟩ := emit_members host hn hfollower .reset
  obtain ⟨body, hbody, hbodykind⟩ := exists_body hkind
  cases body with
  | aggregate x =>
    obtain ⟨rfl, rfl⟩ := Kind.aggregate.inj hbodykind
    have hx : n.aggregate? a = some x := by rw [aggregate?_eq, hbody]; rfl
    have hmembers : x.members = [] := (followed_of_aggregate hx).symm.trans hfollowed
    have hsame : n.withFollowed a (fun _ => []) = n := by
      refine (mapBody_congr fun body h => ?_).trans (n.mapBody_id a)
      rw [hbody] at h
      cases h
      rw [Body.mapAggregate, ← hmembers]
    have hunfollow : unfollowAll a n = some (⟨⟩, n) := by
      rw [unfollowAll, get_bind_apply, hx]
      dsimp only
      rw [modify_bind_apply, hmembers, List.map_nil]
      refine Eq.trans ?_ (congrArg (fun m => some ((⟨⟩ : PUnit), m)) hsame)
      rw [← modifyAggregate_eq_withFollowed]
      rfl
    obtain ⟨fuel', rfl⟩ : ∃ fuel', fuel = fuel' + 1 := Nat.exists_eq_add_one_of_ne_zero (by omega)
    rw [hemit, follow, bind_apply hunfollow, get_bind_apply, hx]
    dsimp only
    rw [hempty]
    exact raise_of_nil hunheard fuel' .changed
  | _ => cases hbodykind

/-- The network without the collection of a form on a path. -/
def withoutForm (n : Network N A σ) (graph : Nat) (e : FormEntry N) : Network N A σ :=
  ((n.modifyGraph graph (Registry.dropForm e)).modifyCollection e.collection fun c =>
    { c with items := [] }).releasedAt e.aggregate

section WithoutForm

omit [Number N] in
theorem sameNodes_withoutForm (n : Network N A σ) (graph : Nat) (e : FormEntry N) :
    n.SameNodes ((n.modifyGraph graph (Registry.dropForm e)).modifyCollection e.collection fun c =>
      { c with items := [] }) :=
  (n.sameNodes_modifyGraph graph _).trans
    ((n.modifyGraph graph _).sameNodes_modifyCollection _ fun _ => rfl)

variable {e : FormEntry N} (hid : n.registry.graphId? key = some graph)
  (he : n.registry.form? key e.form e.path.key = some e)
  (hempty : n.registry.items e.collection = [])

include he hempty in
omit [Number N] in
theorem Wired.registry_withoutForm (hn : n.Wired sc) :
    (n.withoutForm graph e).registry = n.registry.modifyGraph graph (Registry.dropForm e) := by
  have htopic := (hn.forms _ _ _ _ he).topic
  rw [withoutForm, registry_releasedAt, registry_modifyCollection (g := fun _ => [])
    ((n.sameNodes_modifyGraph graph (Registry.dropForm e)).topic _ htopic) fun _ => rfl,
    registry_modifyGraph]
  have hself : Function.update n.registry.items e.collection [] = n.registry.items := by
    rw [← hempty, Function.update_eq_self]
  exact congrArg (fun items =>
    { n.registry.modifyGraph graph (Registry.dropForm e) with items := items }) hself

omit [Number N] in
theorem Wired.retires_withoutForm (hn : n.Wired sc) :
    n.Retires (n.withoutForm graph e) [e.aggregate] := by
  have h := Retires.of_sameNodes hn.typed hn.ledger (n.sameNodes_withoutForm graph e)
  exact h.trans ((Retires.refl h.typed h.ledger).releasedAt e.aggregate)

include hid he hempty in
omit [Number N] in
theorem Wired.drops_withoutForm (hn : n.Wired sc) (ho : n.registry.Orderly sc) :
    n.Drops (n.withoutForm graph e) [e.aggregate] := by
  have hkind := (hn.forms _ _ _ _ he).kind
  have hreg : (n.withoutForm graph e).registry = _ := hn.registry_withoutForm he hempty
  have hentry := Registry.stage?_modifyGraph (f := Registry.dropForm e) hid (fun _ => rfl) fun _ => rfl
  refine ⟨fun k g hg => ?_, fun k e' he' => ?_, fun k f p e' he' => ?_, by rw [hreg]; rfl,
    by rw [hreg]; rfl, by rw [hreg]; rfl, fun k e' he' => .inl ?_⟩
  · rw [hreg] at hg
    exact Registry.exists_graph?_of_modifyGraph (f := Registry.dropForm e) hid (fun _ => rfl)
      (fun _ => rfl) hg
  · rw [hreg, hentry] at he'
    obtain ⟨-, -, _, _, _, hcell, -⟩ := hn.stages _ _ he'
    refine ⟨he', fun i hi => ?_⟩
    rw [List.mem_singleton.mp hi]
    exact (HasCell.apart_of_kind hkind (by simp) (by simp) hcell).1
  · rw [hreg, Registry.form?_dropForm hid] at he'
    split at he'
    · cases he'
    next hne =>
      have hform := hn.forms _ _ _ _ he'
      refine ⟨he', fun hmem => hne ?_, fun i hi j hj => ?_⟩
      · have hkind' := hform.kind
        rw [List.mem_singleton.mp hmem, hkind] at hkind'
        obtain ⟨hcollection, -⟩ := Kind.aggregate.inj (Option.some.inj hkind')
        exact ho.collections _ _ _ _ _ _ _ _ he' he hcollection.symm
      · rw [hreg] at hi
        obtain ⟨-, -, -, id', hid', hcell⟩ := hform.members i hi
        rw [hid', List.mem_singleton.mp hj]
        exact (HasCell.apart_of_kind hkind (by simp) (by simp) hcell).2
  · rwa [hreg, hentry]

include hid he hempty in
omit [Number N] in
/-- A collection that nobody listens to is shed if it is empty and its stat has no modifiers. -/
theorem Wired.sheds_withoutForm (hn : n.Wired sc) (ho : n.registry.Orderly sc) (hlisted : n.Lists)
    (hg : n.registry.graph? key = some g) (hcount : g.modifierCount = 0)
    (hunheard : n.listeners (.changed e.aggregate) = []) :
    n.Sheds (n.withoutForm graph e) [e.aggregate] := by
  have hkind := (hn.forms _ _ _ _ he).kind
  have hreg : (n.withoutForm graph e).registry = _ := hn.registry_withoutForm he hempty
  have hgraph (k : StatKey) : (n.withoutForm graph e).registry.graph? k = _ :=
    (congrArg (Registry.graph? · k) hreg).trans
      (Registry.graph?_modifyGraph (f := Registry.dropForm e) hid (fun _ => rfl) k)
  have hstage (k : NodeKey) : (n.withoutForm graph e).registry.stage? k = n.registry.stage? k :=
    (congrArg (Registry.stage? · k) hreg).trans
      (Registry.stage?_modifyGraph (f := Registry.dropForm e) hid (fun _ => rfl) (fun _ => rfl) k)
  have hwrapped {x : Stat N × Nat} (hx : x ∈ n.registry.listed) : x.2 ∉ [e.aggregate] := fun hmem => by
    obtain ⟨inner, hinner⟩ := hlisted.wrapped hx
    cases (List.mem_singleton.mp hmem ▸ hinner).symm.trans hkind
  refine (hn.drops_withoutForm hid he hempty ho).sheds hn.retires_withoutForm
    (fun k e' he' _ => (hstage k).trans he') (fun k f p e' he' hstays => ?_) ?_
    (fun k e' he' hmem => ?_) (fun k f p e' he' hmem => ?_) (fun x hx hmem => absurd hmem (hwrapped hx))
    (fun k g' hg' hpos => ?_) fun k g' hg' => ?_
  · rw [hreg, Registry.form?_dropForm hid, if_neg fun heq => hstays ?_, he']
    obtain ⟨rfl, rfl, rfl⟩ := heq
    exact Option.some.inj (he.symm.trans he') ▸ List.mem_singleton_self _
  · rw [hreg]
    exact (List.filter_eq_self.mpr fun x hx => decide_eq_true (hwrapped hx)).symm
  · obtain ⟨-, -, _, _, _, hcell, -⟩ := hn.stages _ _ he'
    exact absurd (List.mem_singleton.mp hmem).symm
      (HasCell.apart_of_kind hkind (by simp) (by simp) hcell).1.1
  · have hkind' := (hn.forms _ _ _ _ he').kind
    rw [List.mem_singleton.mp hmem, hkind] at hkind'
    obtain ⟨hcollection, -⟩ := Kind.aggregate.inj (Option.some.inj hkind')
    rw [← hcollection, List.mem_singleton.mp hmem]
    exact ⟨hempty, hunheard⟩
  · rw [hgraph, if_neg fun heq => ?_, hg']
    rw [heq, hg] at hg'
    exact hpos.ne' (Option.some.inj hg' ▸ hcount)
  · rw [hgraph] at hg'
    split at hg'
    · obtain ⟨g₀, hg₀, rfl⟩ := Option.map_eq_some_iff.mp hg'
      exact ⟨g₀, hg₀, rfl, rfl, rfl⟩
    · exact ⟨g', hg', rfl, rfl, rfl⟩

/-- Nobody who is on file relies on a collection that nobody listens to. -/
theorem Inv.core_withoutForm (hn : n.Inv sc) (hidle : n.Idle)
    (hid : n.registry.graphId? key = some graph)
    (he : n.registry.form? key e.form e.path.key = some e)
    (hempty : n.registry.items e.collection = []) (hunheard : n.listeners (.changed e.aggregate) = []) :
    (n.withoutForm graph e).Core sc := by
  have hdrops := hn.wired.drops_withoutForm hid he hempty hn.orderly
  have hreg : (n.withoutForm graph e).registry = _ := hn.wired.registry_withoutForm he hempty
  have hentry := Registry.stage?_modifyGraph (f := Registry.dropForm e) hid (fun _ => rfl) fun _ => rfl
  -- the collection that is dropped is on record nowhere
  have hsame {id : Nat} {d : DependencyKey × Subscription} (hrecorded : d ∈ n.recorded id)
      (htopic : n.registry.topic? d.1 = some d.2.topic) :
      SameAt n.registry (n.withoutForm graph e).registry d.1 := by
    obtain ⟨listener, hlistener, -⟩ := hn.wired.listener_of_held (mem_held_of_recorded hrecorded)
    obtain ⟨d, s⟩ := d
    rw [hreg]
    cases d with
    | node k => exact hentry k
    | form k f p =>
      refine ⟨(Registry.form?_dropForm hid ..).trans (if_neg fun heq => ?_), fun _ _ => rfl⟩
      obtain ⟨rfl, rfl, rfl⟩ := heq
      rw [Registry.topic?, he] at htopic
      rw [← Option.some.inj htopic, hunheard] at hlistener
      cases hlistener
    | paths k =>
      have hpaths := Registry.paths_modifyGraph (f := Registry.dropForm e) hid (fun _ => rfl)
        (fun _ => rfl) k
      refine ⟨?_, fun _ => hpaths, fun x hx => (hentry _).trans hx⟩
      rw [Registry.topic?, Registry.topic?,
        Registry.graph?_modifyGraph (f := Registry.dropForm e) hid fun _ => rfl]
      split
      · rw [Option.map_map]
        rfl
      · rfl
  have hlisted : (n.withoutForm graph e).Lists := by
    refine hn.listed.retire hn.wired.retires_withoutForm (hreg ▸ .refl _) (fun x hx hmem => ?_)
      fun x hx e' he' => hreg ▸ (hentry _).trans he'
    obtain ⟨inner, hwrapped⟩ := hn.listed.wrapped (by rw [hreg] at hx; exact hx)
    cases (List.mem_singleton.mp hmem ▸ hwrapped).symm.trans (hn.wired.forms _ _ _ _ he).kind
  refine hn.toCore.retire hidle hdrops hn.wired.retires_withoutForm (fun k g _ h => ?_) ?_ hlisted
    (fun id φ p _ d => hsame) fun id _ d hrecorded htopic => .inl ?_
  · rwa [withoutForm, isPresent_releasedAt]
  · exact hreg ▸ hn.orderly.dropForm hid e
  · exact (hsame hrecorded htopic).topic.trans htopic

end WithoutForm

/-- Removing an empty collection that nobody listens to keeps the invariant. -/
theorem leads_removeCollection (hhost : host.Quiet tell) (hn : n.Inv sc) (hidle : n.Idle)
    (hid : n.registry.graphId? key = some graph) (hg : n.registry.graph? key = some g)
    {e : FormEntry N} (he : n.registry.form? key e.form e.path.key = some e)
    (hempty : n.registry.items e.collection = []) (hunheard : n.listeners (.changed e.aggregate) = [])
    (hcount : g.modifierCount = 0) {given : Subgraph N} (hpaths : given.paths = g.paths) :
    Leads True (removeCollection host graph given e) n fun _ n' => n'.Inv sc ∧ n.Trims tell n' 1
      ∧ n.registry.SameGraphs n'.registry
      ∧ ∀ k f p, ¬ (k = key ∧ f = e.form ∧ p = e.path.key) →
        n'.registry.form? k f p = n.registry.form? k f p := by
  have hform := hn.wired.forms _ _ _ _ he
  have hmem : e ∈ g.forms := by
    obtain ⟨g', hg', hfind⟩ := Registry.form?_eq_some_iff.mp he
    obtain rfl := Option.some.inj (hg.symm.trans hg')
    exact List.mem_of_find?_eq_some hfind
  have hs := n.sameNodes_withoutForm graph e
  have hmembers : (n.modifyGraph graph (Registry.dropForm e)).memberNodes e.collection = [] := by
    have : n.memberNodes e.collection = [] := by rw [memberNodes_eq, hempty, List.map_nil]
    exact this
  have hmembers' : ((n.modifyGraph graph (Registry.dropForm e)).modifyCollection e.collection fun c =>
      { c with items := [] }).memberNodes e.collection = [] := by
    rw [memberNodes_eq, registry_modifyCollection (g := fun _ => [])
      ((n.sameNodes_modifyGraph graph (Registry.dropForm e)).topic _ hform.topic) fun _ => rfl,
      Registry.items_withItems_self, List.map_nil]
  obtain ⟨token, hfollower⟩ := hform.follower
  -- the collection has no members, so clearing it makes no difference to its aggregate
  have hreset := emit_reset host (hs.typed hn.wired.typed) ((hs.kind _).trans hform.kind)
    ((hs.listeners _).trans hfollower) (by
      have h := hform.followed
      rw [hempty] at h
      rw [followed_of_view (hs.view _)]
      exact List.map_eq_nil_iff.mp h) hmembers' ((hs.listeners _).trans hunheard)
  have hclear : clearMembers host e.collection (n.modifyGraph graph (Registry.dropForm e))
      = some ([], (n.modifyGraph graph (Registry.dropForm e)).modifyCollection e.collection fun c =>
        { c with items := [] }) := by
    rw [clearMembers, get_bind_apply, hmembers, modify_bind_apply]
    exact bind_apply hreset
  have hdispose := dispose_eq host ((hs.kind _).trans hform.kind) (.inr (.inr ⟨_, _, rfl⟩))
  refine .modify_bind (.eq_bind hclear (.eq_bind rfl (.eq_bind hdispose ?_)))
  rw [hpaths]
  change Leads True _ (n.withoutForm graph e) _
  have hcore := hn.core_withoutForm hidle hid he hempty hunheard
  have hretires : n.Retires (n.withoutForm graph e) [e.aggregate] := hn.wired.retires_withoutForm
  have hchanges : n.Changes tell (n.withoutForm graph e) :=
    hretires.changes_of_kind hform.kind (by simp)
  have hreg : (n.withoutForm graph e).registry = _ := hn.wired.registry_withoutForm he hempty
  have hsheds := hn.wired.sheds_withoutForm hid he hempty hn.orderly hn.listed hg hcount hunheard
  generalize n.withoutForm graph e = m at *
  have hother (k : StatKey) (f : Form) (p : PathKey) (hk : ¬ (k = key ∧ f = e.form ∧ p = e.path.key)) :
      m.registry.form? k f p = n.registry.form? k f p := by
    rw [hreg, Registry.form?_dropForm hid, if_neg hk]
  have hlength : (g.forms.filter fun x => !(x.form == e.form && x.path.same e.path)).length + 1
      ≤ g.forms.length := by
    rw [Nat.add_one_le_iff]
    exact List.length_filter_lt_length_iff_exists.mpr ⟨e, hmem, by simp [Path.same]⟩
  have htrims : n.Trims tell m 1 := .of_modifyGraph (f := Registry.dropForm e) hid (fun _ => rfl)
    (fun _ => rfl) hreg hg hn.orderly.live_nodup (by simp only [Registry.dropForm]; omega)
    hchanges hsheds
  have hsame := sameGraphs_of_modifyGraph (f := Registry.dropForm e) hid (fun _ => rfl) (fun _ => rfl) hreg fun _ => rfl
  have hg' : m.registry.graph? key = some (Registry.dropForm e g) := by
    rw [graph?_of_modifyGraph (f := Registry.dropForm e) hid (fun _ => rfl) hreg, if_pos rfl, hg,
      Option.map_some]
  have hcounted : m.registry.CountedMore key e.path := by
    rw [hreg]
    refine hn.counted.drop (f := Registry.dropForm e) hid (fun _ => rfl) (fun _ => rfl)
      fun g₀ hg₀ => ?_
    obtain rfl := Option.some.inj (hg.symm.trans hg₀)
    exact Registry.uses_dropForm hmem
  refine (htrims.leads_removePath hhost hcore hidle hg' hcounted).weaken ?_
  rintro - n' ⟨hinv, htrims, hsame', -, hform'⟩
  exact ⟨hinv, htrims, hsame.trans hsame', fun k f p hk => (hform' k f p).trans (hother k f p hk)⟩

/-- Removing several empty collections that nobody listens to keeps the invariant. -/
theorem leads_removeAllForms (hhost : host.Quiet tell) {given : Subgraph N} :
    ∀ {entries : List (FormEntry N)} {n : Network N A σ} {g : Subgraph N}, n.Inv sc → n.Idle →
      n.registry.graphId? key = some graph → n.registry.graph? key = some g →
      g.modifierCount = 0 → given.paths = g.paths → entries.Nodup →
      (∀ e ∈ entries, n.registry.form? key e.form e.path.key = some e
        ∧ n.registry.items e.collection = [] ∧ n.listeners (.changed e.aggregate) = []) →
      Leads True (entries.forM (removeCollection host graph given)) n fun _ n' => n'.Inv sc
        ∧ n.Trims tell n' entries.length ∧ n.registry.SameGraphs n'.registry
  | [], n, g, hn, _, _, _, _, _, _, _ => .of_pure ⟨hn, .refl n, .refl _⟩
  | e :: entries, n, g, hn, hidle, hid, hg, hcount, hpaths, hnodup, hentries => by
    rw [List.forM_eq_forM, List.forM_cons]
    obtain ⟨hnot, hnodup⟩ := List.nodup_cons.mp hnodup
    obtain ⟨he, hempty, hunheard⟩ := hentries e List.mem_cons_self
    refine (leads_removeCollection hhost hn hidle hid hg he hempty hunheard hcount hpaths).bind ?_
    rintro - m ⟨hinv, htrims, hsame, hother⟩
    obtain ⟨g', hg', -, hpaths', hcount'⟩ := hsame.graph _ _ hg
    refine (leads_removeAllForms hhost hinv (htrims.changes.idle hidle) ((hsame.graphId _).trans hid)
      hg' (hcount'.trans hcount) (hpaths.trans hpaths'.symm) hnodup fun x hx => ?_).weaken ?_
    · obtain ⟨hxe, hxempty, hxunheard⟩ := hentries x (List.mem_cons_of_mem _ hx)
      have hx' := (hother key x.form x.path.key fun heq => hnot ?_).trans hxe
      · refine ⟨hx', ?_, htrims.quiet _ hxunheard⟩
        have hmembers := htrims.members key x.form x.path.key
        rw [Registry.members, Registry.members, hx', hxe] at hmembers
        exact hmembers.trans hxempty
      · rw [heq.2.1, heq.2.2] at hxe
        exact Option.some.inj (he.symm.trans hxe) ▸ hx
    · rintro - n' ⟨hinv', htrims', hsame'⟩
      rw [List.length_cons, Nat.add_comm]
      exact ⟨hinv', htrims.trans htrims', hsame.trans hsame'⟩

/-- Removing the empty collections of a stat that nobody listens to keeps the invariant. -/
theorem leads_pruneForms (hhost : host.Quiet tell) (hn : n.Inv sc) (hidle : n.Idle)
    (hid : n.registry.graphId? key = some graph) (hg : n.registry.graph? key = some g)
    (hcount : g.modifierCount = 0) :
    Leads True (pruneForms host graph) n fun count n' => n'.Inv sc ∧ n.Trims tell n' count
      ∧ n.registry.SameGraphs n'.registry := by
  refine .get_bind ?_
  rw [graphs_of_graph? hid hg]
  refine (leads_removeAllForms hhost hn hidle hid hg hcount rfl
    ((hn.orderly.forms_nodup key g hg).filter _) fun e he => ?_).bind fun _ n' h => .of_pure h
  obtain ⟨he, hunheard⟩ := List.mem_filter.mp he
  simp only [memberNodes_eq, listenerCount, Bool.and_eq_true, beq_iff_eq, List.isEmpty_iff,
    List.map_eq_nil_iff, List.length_eq_zero_iff] at hunheard
  exact ⟨hn.orderly.forms_found key g hg e he, hunheard⟩

end Network

end StatEngine
