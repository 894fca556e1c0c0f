import StatEngine.Network.Prune
import StatEngine.Proofs.Shedding

/-!
# Taking parts off file

A registry stays consistent when the nodes of a stage, a collection or a stat of which nothing is left are
taken off file, and the paths in use are still counted as often as they are used. There are fewer parts
then.

## Main definitions

* `Registry.parts`: how many nodes, collections and stats are on file;
* `Registry.dropGraph`: a registry with a stat less.

## Main statements

* `Registry.Orderly.dropNodes`, `Registry.Orderly.dropForm`, `Registry.Orderly.dropGraph`: what is left is
  consistent;
* `Registry.Counted.drop`: parts that are taken off file do not use their paths any more.
-/

namespace StatEngine

open Network

namespace Registry

variable {N : Type} {r : Registry N} {sc : Regime N} {key : StatKey} {g : Subgraph N}

/-! ## Counts -/

/-- Every path is counted as often as it is used, and one path of a stat once more. -/
def CountedMore (r : Registry N) (key : StatKey) (path : Path (Stat N)) : Prop :=
  ∀ k g, r.graph? k = some g → ∀ q, uses g q + (if k = key ∧ path.same q then 1 else 0)
    ≤ count (r.counts g.paths) q

/-- After a path was counted less, every path is counted as often as it is used. -/
theorem CountedMore.withCounts (ho : r.Orderly sc) (hg : r.graph? key = some g)
    {path : Path (Stat N)} (h : r.CountedMore key path) {entries : List (Path (Stat N) × Nat)}
    (hcount : ∀ q, count (r.counts g.paths) q ≤ count entries q + if path.same q then 1 else 0) :
    (r.withCounts g.paths entries).Counted := by
  intro k g' hg' q
  have hg' : r.graph? k = some g' := hg'
  have hless := h k g' hg' q
  by_cases hk : k = key
  · subst hk
    obtain rfl := Option.some.inj (hg'.symm.trans hg)
    have hself : (r.withCounts g'.paths entries).counts g'.paths = entries := Function.update_self ..
    have := hcount q
    rw [hself]
    simp only [true_and] at hless
    omega
  · have hne : g'.paths ≠ g.paths := fun heq => hk (ho.sets _ _ _ _ hg' hg heq)
    have hother : (r.withCounts g.paths entries).counts g'.paths = r.counts g'.paths :=
      Function.update_of_ne hne ..
    rw [hother]
    omega

/-! ## Parts -/

/-- How many nodes, collections and subgraphs are in use. -/
def parts (r : Registry N) : Nat :=
  (r.live.map fun id => ((r.graphs[id]?).map fun g => g.nodes.length + g.forms.length + 1).getD 0).sum

/-- There are fewer parts if there are fewer in one subgraph. -/
theorem parts_modifyGraph {id : Nat} (hid : r.graphId? key = some id) (hg : r.graph? key = some g)
    {f : Subgraph N → Subgraph N} {count : Nat}
    (hf : (f g).nodes.length + (f g).forms.length + count ≤ g.nodes.length + g.forms.length)
    (hnodup : r.live.Nodup) : (r.modifyGraph id f).parts + count ≤ r.parts := by
  obtain ⟨id', hid', hg'⟩ := graph?_eq_some_iff.mp hg
  obtain rfl := Option.some.inj (hid.symm.trans hid')
  have hperm := List.perm_cons_erase (graphId?_spec hid).1
  have hother : ∀ i ∈ r.live.erase id,
      (r.modifyGraph id f).graphs[i]? = r.graphs[i]? := fun i hi => by
    rw [modifyGraph, Array.getElem?_modify, if_neg]
    rintro rfl
    exact hnodup.not_mem_erase hi
  have hself : (r.modifyGraph id f).graphs[id]? = some (f g) := by
    rw [modifyGraph, Array.getElem?_modify, if_pos rfl, hg', Option.map_some]
  have hsum (w : Nat → Nat) : (r.live.map w).sum = w id + ((r.live.erase id).map w).sum := by
    rw [(hperm.map w).sum_nat, List.map_cons, List.sum_cons]
  have hlive : (r.modifyGraph id f).live = r.live := rfl
  rw [parts, parts, hlive, hsum, hsum, hself, hg',
    List.map_congr_left fun i hi => by rw [hother i hi]]
  simp only [Option.map_some, Option.getD_some]
  omega

/-! ## Nodes that are dropped -/

section Dropped

variable {id : Nat} (hid : r.graphId? key = some id)

include hid

theorem stage?_dropNodes (e : NodeEntry N) (k : NodeKey) :
    (r.modifyGraph id (dropNodes e)).stage? k
      = if k = ⟨key, e.stage, e.path.key⟩ then none else r.stage? k := by
  obtain ⟨stat, stage, path⟩ := k
  rw [stage?, graph?_modifyGraph (f := dropNodes e) hid fun _ => rfl, stage?]
  by_cases hk : stat = key
  · subst hk
    rw [if_pos rfl]
    cases r.graph? stat with
    | none => simp
    | some g =>
      simp only [Option.map_some, Option.bind_some, dropNodes, List.find?_filter]
      split
      next heq =>
        cases heq
        exact List.find?_eq_none.mpr fun x _ => by simp [Path.same, imp_iff_not_or]
      next hne =>
        refine congrArg (List.find? · g.nodes) (funext fun x => ?_)
        by_cases hx : x.stage = stage ∧ x.path.key = path
        · obtain ⟨rfl, rfl⟩ := hx
          have : ¬ (x.stage = e.stage ∧ x.path.key = e.path.key) := fun h => hne (by rw [h.1, h.2])
          simpa [Path.same, imp_iff_not_or] using this
        · have : (x.stage == stage && x.path.key == path) = false := by simpa using hx
          simp [this]
  · rw [if_neg hk, if_neg fun h => hk (congrArg NodeKey.stat h)]

theorem form?_dropForm (e : FormEntry N) (k : StatKey) (form : Form) (path : PathKey) :
    (r.modifyGraph id (dropForm e)).form? k form path
      = if k = key ∧ form = e.form ∧ path = e.path.key then none else r.form? k form path := by
  rw [form?, graph?_modifyGraph (f := dropForm e) hid fun _ => rfl, form?]
  by_cases hk : k = key
  · subst hk
    rw [if_pos rfl]
    cases r.graph? k with
    | none => simp
    | some g =>
      simp only [Option.map_some, Option.bind_some, dropForm, List.find?_filter, true_and]
      split
      next heq =>
        obtain ⟨rfl, rfl⟩ := heq
        exact List.find?_eq_none.mpr fun x _ => by simp [Path.same, imp_iff_not_or]
      next hne =>
        refine congrArg (List.find? · g.forms) (funext fun x => ?_)
        by_cases hx : x.form = form ∧ x.path.key = path
        · obtain ⟨rfl, rfl⟩ := hx
          simpa [Path.same, imp_iff_not_or] using hne
        · have : (x.form == form && x.path.key == path) = false := by simpa using hx
          simp [this]
  · rw [if_neg hk, if_neg fun h => hk h.1]

/-- Without some nodes the registry is consistent. -/
theorem Orderly.dropNodes (ho : r.Orderly sc) (e : NodeEntry N) :
    (r.modifyGraph id (dropNodes e)).Orderly sc := by
  have hentry := stage?_dropNodes hid e
  have hform := form?_modifyGraph (f := Registry.dropNodes e) hid (fun _ => rfl) fun _ => rfl
  refine ho.modifyGraph hid (fun _ => rfl) (fun _ => rfl)
    (fun g hg => ⟨(ho.nodes_nodup key g hg).filter _, fun x hx => ?_⟩)
    (fun g hg => ⟨ho.forms_nodup key g hg, fun x hx => (hform ..).trans (ho.forms_found key g hg x hx)⟩)
    (fun k x hx => .inl ?_) fun k f p x hx => .inl (hform k f p ▸ hx)
  · obtain ⟨hx, hne⟩ := List.mem_filter.mp hx
    rw [hentry, if_neg fun heq => ?_]
    · exact ho.nodes_found key g hg x hx
    · have := NodeKey.mk.inj heq
      simp [Path.same, this.2] at hne
  · rw [hentry] at hx
    split at hx
    · cases hx
    · exact hx

/-- Without a collection the registry is consistent. -/
theorem Orderly.dropForm (ho : r.Orderly sc) (e : FormEntry N) :
    (r.modifyGraph id (dropForm e)).Orderly sc := by
  have hentry := stage?_modifyGraph (f := Registry.dropForm e) hid (fun _ => rfl) fun _ => rfl
  have hform := form?_dropForm hid e
  refine ho.modifyGraph hid (fun _ => rfl) (fun _ => rfl)
    (fun g hg => ⟨ho.nodes_nodup key g hg, fun x hx => (hentry _).trans (ho.nodes_found key g hg x hx)⟩)
    (fun g hg => ⟨(ho.forms_nodup key g hg).filter _, fun x hx => ?_⟩)
    (fun k x hx => .inl (hentry k ▸ hx)) fun k f p x hx => .inl ?_
  · obtain ⟨hx, hne⟩ := List.mem_filter.mp hx
    rw [hform, if_neg fun heq => ?_]
    · exact ho.forms_found key g hg x hx
    · simp [Path.same, heq.2] at hne
  · rw [hform] at hx
    split at hx
    · cases hx
    · exact hx

end Dropped

/-- Nodes and collections that are no longer in use do not use their path. -/
theorem Counted.drop (h : r.Counted) {id : Nat} (hid : r.graphId? key = some id)
    {f : Subgraph N → Subgraph N} (hstat : ∀ g, (f g).stat = g.stat)
    (hpaths : ∀ g, (f g).paths = g.paths) {path : Path (Stat N)}
    (huses : ∀ g, r.graph? key = some g →
      ∀ q, uses (f g) q + (if path.same q then 1 else 0) ≤ uses g q) :
    (r.modifyGraph id f).CountedMore key path := by
  intro k g' hg' q
  obtain ⟨rfl, g, hg, rfl⟩ | ⟨hk, hg⟩ := graph?_modifyGraph_cases hid hstat hg'
  · rw [hpaths]
    simp only [true_and]
    exact (huses g hg q).trans (h k g hg q)
  · simp only [hk, false_and, if_false]
    exact h k g' hg q

/-- A list without some element is shorter. -/
theorem length_filter_filter_lt {α : Type} {p q : α → Bool} {l : List α} {a : α} (ha : a ∈ l)
    (hp : p a = false) (hq : q a) : ((l.filter p).filter q).length + 1 ≤ (l.filter q).length := by
  rw [List.filter_filter, Nat.add_one_le_iff]
  have : (l.filter fun a => q a && p a) = (l.filter q).filter p := by
    rw [List.filter_filter]
    exact List.filter_congr fun a _ => Bool.and_comm ..
  rw [this]
  exact List.length_filter_lt_length_iff_exists.mpr ⟨a, List.mem_filter.mpr ⟨ha, hq⟩, by simp [hp]⟩

theorem uses_dropNodes_le (e : NodeEntry N) (g : Subgraph N) (q : Path (Stat N)) :
    uses (dropNodes e g) q ≤ uses g q :=
  Nat.add_le_add_right ((List.filter_sublist.filter _).length_le) _

theorem uses_dropNodes {e : NodeEntry N} (he : e ∈ g.nodes) (hpath : e.stage.perPath)
    (q : Path (Stat N)) :
    uses (dropNodes e g) q + (if e.path.same q then 1 else 0) ≤ uses g q := by
  split
  next hq =>
    have := length_filter_filter_lt (p := fun x => !(x.stage == e.stage && x.path.same e.path))
      (q := fun x => x.stage.perPath && x.path.same q) he (by simp [Path.same]) (by simp [hpath, hq])
    simp only [uses, dropNodes]
    omega
  · exact uses_dropNodes_le e g q

theorem uses_dropForm {e : FormEntry N} (he : e ∈ g.forms) (q : Path (Stat N)) :
    uses (dropForm e g) q + (if e.path.same q then 1 else 0) ≤ uses g q := by
  split
  next hq =>
    have := length_filter_filter_lt (p := fun x => !(x.form == e.form && x.path.same e.path))
      (q := fun x => x.path.same q) he (by simp [Path.same]) hq
    simp only [uses, dropForm]
    omega
  · exact Nat.add_le_add_left ((List.filter_sublist.filter _).length_le) _

/-! ## Subgraphs that are dropped -/

/-- The registry with a subgraph less. -/
def dropGraph (r : Registry N) (id : Nat) : Registry N := { r with live := r.live.erase id }

section DropGraph

variable {id : Nat} (ho : r.Orderly sc) (hid : r.graphId? key = some id)

include ho hid

theorem graphId?_dropGraph (k : StatKey) :
    (r.dropGraph id).graphId? k = if k = key then none else r.graphId? k := by
  obtain ⟨-, g, hg, hkey⟩ := graphId?_spec hid
  have hfind : (r.dropGraph id).graphId? k = r.live.find? fun i =>
      i != id && (r.graphs[i]?.map fun g => g.stat.key == k).getD false := by
    rw [graphId?, dropGraph, ho.live_nodup.erase_eq_filter, List.find?_filter]
    simp [bne, beq_eq_decide]
  rw [hfind]
  split
  next hk =>
    refine List.find?_eq_none.mpr fun i hi => ?_
    obtain ⟨g', hg', hid'⟩ := ho.live_found i hi
    simp only [hg', Option.map_some, Option.getD_some, Bool.and_eq_true, bne_iff_ne, beq_iff_eq,
      not_and]
    intro hne hkey'
    rw [hkey', hk, hid] at hid'
    exact hne (Option.some.inj hid').symm
  next hk =>
    rw [graphId?]
    refine congrArg (List.find? · r.live) (funext fun i => ?_)
    by_cases hi : i = id
    · subst hi
      simp [hg, hkey, Ne.symm hk]
    · simp [hi]

theorem graph?_dropGraph (k : StatKey) :
    (r.dropGraph id).graph? k = if k = key then none else r.graph? k := by
  rw [graph?, graphId?_dropGraph ho hid]
  split <;> rfl

variable (hg : r.graph? key = some g)

include hg

theorem stage?_dropGraph (hnodes : g.nodes = []) (k : NodeKey) :
    (r.dropGraph id).stage? k = r.stage? k := by
  rw [stage?, graph?_dropGraph ho hid, stage?]
  split
  next hk => rw [hk, hg, Option.bind_some, hnodes]; rfl
  · rfl

theorem form?_dropGraph (hforms : g.forms = []) (k : StatKey) (f : Form) (p : PathKey) :
    (r.dropGraph id).form? k f p = r.form? k f p := by
  rw [form?, graph?_dropGraph ho hid, form?]
  split
  next hk => rw [hk, hg, Option.bind_some, hforms]; rfl
  · rfl

omit hg in
theorem paths_dropGraph (k : StatKey) :
    (r.dropGraph id).paths k = if k = key then [] else r.paths k := by
  rw [paths, graph?_dropGraph ho hid]
  split <;> rfl

/-- Without a subgraph of which nothing is left the registry is consistent. -/
theorem Orderly.dropGraph (hnodes : g.nodes = []) (hforms : g.forms = []) :
    (r.dropGraph id).Orderly sc := by
  have hgraph {k : StatKey} {g' : Subgraph N} (h : (r.dropGraph id).graph? k = some g') :
      r.graph? k = some g' := by
    rw [graph?_dropGraph ho hid] at h
    split at h
    · cases h
    · exact h
  have hstage := stage?_dropGraph ho hid hg hnodes
  have hform := form?_dropGraph ho hid hg hforms
  have hpaths (k : StatKey) : (r.dropGraph id).paths k = [] ∨ (r.dropGraph id).paths k = r.paths k := by
    rw [paths_dropGraph ho hid]
    split
    · exact .inl rfl
    · exact .inr rfl
  constructor
  case live_nodup => exact ho.live_nodup.erase id
  case live_found =>
    intro i hi
    have hi : i ∈ r.live.erase id := hi
    obtain ⟨g', hg', hid'⟩ := ho.live_found i (List.mem_of_mem_erase hi)
    refine ⟨g', hg', ?_⟩
    rw [graphId?_dropGraph ho hid, if_neg, hid']
    -- the subgraph that is dropped is in use only once
    intro hk
    rw [hk, hid] at hid'
    rw [← Option.some.inj hid'] at hi
    exact ho.live_nodup.not_mem_erase hi
  case nodes_found => exact fun k g' hg' e he => (hstage _).trans (ho.nodes_found k g' (hgraph hg') e he)
  case forms_found => exact fun k g' hg' e he => (hform ..).trans (ho.forms_found k g' (hgraph hg') e he)
  case nodes_nodup => exact fun k g' hg' => ho.nodes_nodup k g' (hgraph hg')
  case forms_nodup => exact fun k g' hg' => ho.forms_nodup k g' (hgraph hg')
  case admits => exact fun k g' hg' => ho.admits k g' (hgraph hg')
  case sets => exact fun k k' g₁ g₂ h₁ h₂ => ho.sets k k' g₁ g₂ (hgraph h₁) (hgraph h₂)
  case collections =>
    intro k k' f f' p p' e e' he he'
    rw [hform] at he he'
    exact ho.collections k k' f f' p p' e e' he he'
  case members_disjoint =>
    intro k k' f f' p p' e e' he he'
    rw [hform] at he he'
    exact ho.members_disjoint k k' f f' p p' e e' he he'
  case members_nodup => exact ho.members_nodup
  case entry_path => exact fun k e he => ho.entry_path k e (hstage k ▸ he)
  case entry_admits => exact fun k e he => ho.entry_admits k e (hstage k ▸ he)
  case form_admits => exact fun k f p e he => ho.form_admits k f p e (hform k f p ▸ he)
  case path_admits =>
    intro k p hp
    obtain h | h := hpaths k
    · rw [h] at hp
      cases hp
    · exact ho.path_admits k p (h ▸ hp)
  case paths_nodup =>
    intro k
    obtain h | h := hpaths k
    · rw [h]
      exact .nil
    · rw [h]
      exact ho.paths_nodup k
  case plain => exact ho.plain
  case registered => exact ho.registered

omit hg in
theorem Counted.dropGraph (h : r.Counted) : (r.dropGraph id).Counted := by
  intro k g hg
  rw [graph?_dropGraph ho hid] at hg
  split at hg
  · cases hg
  · exact h k g hg

omit ho in
theorem parts_dropGraph : (r.dropGraph id).parts + 1 ≤ r.parts := by
  obtain ⟨id', hid', hg'⟩ := graph?_eq_some_iff.mp hg
  obtain rfl := Option.some.inj (hid.symm.trans hid')
  have hsum (w : Nat → Nat) : (r.live.map w).sum = w id + ((r.live.erase id).map w).sum := by
    rw [((List.perm_cons_erase (graphId?_spec hid).1).map w).sum_nat, List.map_cons, List.sum_cons]
  have hlive : (r.dropGraph id).live = r.live.erase id := rfl
  have hgraphs : (r.dropGraph id).graphs = r.graphs := rfl
  rw [parts, parts, hsum, hlive, hgraphs, hg', Option.map_some, Option.getD_some]
  omega

end DropGraph

end Registry

end StatEngine
