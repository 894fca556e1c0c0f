import Mathlib.Data.List.Perm.Basic
import StatEngine.Proofs.Books
import StatEngine.Proofs.Filing
import StatEngine.Proofs.Tally

/-!
# Balanced books

The five tables of a network are written in different places and agree all the same (`Balanced`): a
subgraph counts the members of its collections, its paths are counted as often as they are used, every
node is registered once, and every behavior is counted as often as the stats in use declare it.

## Main definitions

* `Subgraph.uses`, `Subgraph.keys`: what a subgraph has on a path, and the keys of its nodes;
* `Books.Balances` and `Books.Balanced`: what agrees in one subgraph, and in all of them.

## Main statements

* `Balanced.addGraph`, `Balanced.addNodes`, `Balanced.addForm`, `Balanced.addItem`: making parts keeps
  the books balanced, and so does every member;
* `Balanced.dropGraph`, `Balanced.dropNodes`, `Balanced.dropForm`, `Balanced.dropItem`: so does dropping
  them.
-/

namespace StatEngine

open Network

variable {N : Type}

/-! ## Lists -/

/-- Of things with different marks, one is taken out by its mark. -/
theorem List.perm_cons_filter {α β : Type} [DecidableEq β] {f : α → β} {l : List α} {a : α}
    (h : (l.map f).Nodup) (ha : a ∈ l) {p : α → Bool} (hp : ∀ x, p x = !decide (f x = f a)) :
    l.Perm (a :: l.filter p) := by
  induction l with
  | nil => cases ha
  | cons x l ih =>
    obtain ⟨hx, hl⟩ := List.nodup_cons.mp h
    rcases List.mem_cons.mp ha with rfl | ha
    · -- the others have other marks
      have : l.filter p = l := List.filter_eq_self.mpr fun y hy => by
        rw [hp]
        simpa using fun heq => hx (List.mem_map.mpr ⟨y, hy, heq⟩)
      rw [List.filter_cons_of_neg (by simp [hp]), this]
    · have hne : f x ≠ f a := fun heq => hx (List.mem_map.mpr ⟨a, ha, heq.symm⟩)
      rw [List.filter_cons_of_pos (by simp [hp, hne])]
      exact (ih hl ha).cons x |>.trans (.swap a x _)

namespace Network.Subgraph

/-- How many nodes and collections of a subgraph are on a path. -/
def uses (g : Subgraph N) (path : PathKey) : Nat :=
  g.nodes.countP (fun e => e.stage.perPath && e.path.key == path)
    + g.forms.countP fun e => e.path.key == path

/-- The keys of the nodes of a subgraph. -/
def keys (g : Subgraph N) : List NodeKey := g.nodes.map fun e => ⟨g.stat.key, e.stage, e.path.key⟩

end Network.Subgraph

/-- What behaviors that are counted as the same have in common. -/
def Behavior.mark (b : Behavior N) : List StatKey × List Stage × PathRule × Identity :=
  (b.stats, b.stages, b.rule, b.transformation.identity)

theorem Behavior.same_iff {a b : Behavior N} : a.same b = true ↔ a.mark = b.mark := by
  simp [same, mark, and_assoc]

namespace Books

variable (b : Books N)

/-- The subgraphs in use, in the order they were made. -/
def inUse : List (Subgraph N) := b.live.filterMap (b.graphs[·]?)

/-- What agrees in a subgraph. -/
structure Balances (g : Subgraph N) : Prop where
  /-- Its modifiers are counted. -/
  modifiers : g.modifierCount = (g.forms.map fun e => (b.items e.collection).length).sum
  /-- Its paths are counted as often as they are used. -/
  paths : Tally.Sound Path.key (b.counts g.paths)
  counted : ∀ path, Tally.count Path.key (b.counts g.paths) path = g.uses path
  /-- What is computed once is on the main path. -/
  once : ∀ e ∈ g.nodes, stagePath e.stage e.path = e.path
  nodes : (g.nodes.map fun e => (e.stage, e.path.key)).Nodup
  forms : (g.forms.map fun e => (e.form, e.path.key)).Nodup

/-- What agrees in the books. -/
structure Balanced : Prop where
  live_nodup : b.live.Nodup
  live_lt : ∀ id ∈ b.live, id < b.graphs.size
  /-- Subgraphs in use belong to different stats, and share neither paths nor collections. -/
  stats : (b.inUse.map fun g => g.stat.key).Nodup
  sets : (b.inUse.map (·.paths)).Nodup
  collections : (b.inUse.flatMap fun g => g.forms.map (·.collection)).Nodup
  balances : ∀ g ∈ b.inUse, b.Balances g
  /-- Every node is registered once. -/
  registered : b.registered.Perm (b.inUse.flatMap (·.keys))
  /-- Every behavior is counted as often as it is declared. -/
  behaviors : Tally.Sound Behavior.mark b.installed
  installed : ∀ k, Tally.count Behavior.mark b.installed k
    = ((b.inUse.flatMap (·.stat.behaviors)).map Behavior.mark).count k

variable {b}

/-- Different nodes of a subgraph have different keys. -/
theorem keys_nodup {g : Subgraph N} (h : (g.nodes.map fun e => (e.stage, e.path.key)).Nodup) :
    g.keys.Nodup := by
  refine (List.nodup_map_iff_inj_on (List.Nodup.of_map _ h)).mpr fun x hx y hy hxy => ?_
  refine List.inj_on_of_nodup_map h hx hy ?_
  rw [NodeKey.mk.injEq] at hxy
  exact Prod.ext hxy.2.1 hxy.2.2

/-- What agrees in a subgraph depends on its members and paths alone. -/
theorem Balances.congr {b' : Books N} {g : Subgraph N} (h : b.Balances g)
    (hitems : ∀ e ∈ g.forms, b'.items e.collection = b.items e.collection)
    (hcounts : b'.counts g.paths = b.counts g.paths) : b'.Balances g where
  modifiers := by
    rw [h.modifiers]
    exact congrArg List.sum (List.map_congr_left fun e he => congrArg List.length (hitems e he).symm)
  paths := hcounts ▸ h.paths
  counted path := hcounts ▸ h.counted path
  once := h.once
  nodes := h.nodes
  forms := h.forms

/-! ## Subgraphs in use -/

theorem mem_inUse_iff {g : Subgraph N} : g ∈ b.inUse ↔ ∃ id ∈ b.live, b.graphs[id]? = some g :=
  List.mem_filterMap

/-- The books with another subgraph at a position. -/
def modifyGraph (b : Books N) (id : Nat) (f : Subgraph N → Subgraph N) : Books N :=
  { b with graphs := b.graphs.modify id f }

/-- The books with a new subgraph. -/
def addGraph (b : Books N) (stat : Stat N) (set : Nat) : Books N :=
  { b with
    graphs := b.graphs.push ⟨stat, [], [], 0, set⟩
    live := b.live ++ [b.graphs.size] }

/-- The books with a subgraph less in use. -/
def dropGraph (b : Books N) (id : Nat) : Books N := { b with live := b.live.erase id }

/-- Subgraphs at other positions are the same. -/
theorem filterMap_modify_of_not_mem {graphs : Array (Subgraph N)} {live : List Nat} {id : Nat}
    (h : id ∉ live) (f : Subgraph N → Subgraph N) :
    live.filterMap ((graphs.modify id f)[·]?) = live.filterMap (graphs[·]?) := by
  refine List.filterMap_congr fun i hi => ?_
  rw [Array.getElem?_modify, if_neg]
  rintro rfl
  exact h hi

/-- One of the subgraphs in use changes, or is dropped, and the others stay. -/
theorem exists_rest (hlive : b.live.Nodup) {id : Nat} (hid : id ∈ b.live) {g : Subgraph N}
    (hg : b.graphs[id]? = some g) : ∃ rest, b.inUse.Perm (g :: rest)
      ∧ (∀ f, (b.modifyGraph id f).inUse.Perm (f g :: rest)) ∧ (b.dropGraph id).inUse = rest := by
  refine ⟨(b.live.erase id).filterMap (b.graphs[·]?), ?_, fun f => ?_, rfl⟩
  · refine ((List.perm_cons_erase hid).filterMap _).trans ?_
    rw [List.filterMap_cons_some hg]
  · refine ((List.perm_cons_erase hid).filterMap _).trans ?_
    have hf : (b.modifyGraph id f).graphs[id]? = some (f g) := by
      rw [modifyGraph, Array.getElem?_modify, if_pos rfl, hg]
      rfl
    rw [List.filterMap_cons_some hf]
    exact .of_eq (congrArg _ (filterMap_modify_of_not_mem hlive.not_mem_erase f))

theorem inUse_addGraph (hlive : ∀ id ∈ b.live, id < b.graphs.size) (stat : Stat N) (set : Nat) :
    (b.addGraph stat set).inUse = b.inUse ++ [⟨stat, [], [], 0, set⟩] := by
  have hold : b.live.filterMap ((b.graphs.push ⟨stat, [], [], 0, set⟩)[·]?) = b.inUse := by
    refine List.filterMap_congr fun id hid => ?_
    rw [Array.getElem?_push, if_neg (Nat.ne_of_lt (hlive id hid))]
  rw [inUse, addGraph, List.filterMap_append, hold]
  simp

/-! ## Behaviors -/

/-- A behavior counted once more. -/
def installOne (b : Behavior N) (installed : List (Behavior N × Nat)) : List (Behavior N × Nat) :=
  if b.mark ∈ installed.map fun e => e.1.mark then Tally.change Behavior.mark b.mark (· + 1) installed
  else installed ++ [(b, 1)]

/-- A behavior counted once less. -/
def uninstallOne (b : Behavior N) (installed : List (Behavior N × Nat)) : List (Behavior N × Nat) :=
  if 1 < Tally.count Behavior.mark installed b.mark then
    Tally.change Behavior.mark b.mark (· - 1) installed
  else installed.filter fun e => !decide (e.1.mark = b.mark)

/-- Behaviors are counted as often as they are declared. -/
def Declares (installed : List (Behavior N × Nat)) (declared : List (Behavior N)) : Prop :=
  Tally.Sound Behavior.mark installed
    ∧ ∀ k, Tally.count Behavior.mark installed k = (declared.map Behavior.mark).count k

namespace Declares

variable {installed : List (Behavior N × Nat)} {declared : List (Behavior N)}

theorem count_cons (x : Behavior N) (k : List StatKey × List Stage × PathRule × Identity) :
    ((x :: declared).map Behavior.mark).count k
      = (declared.map Behavior.mark).count k + if k = x.mark then 1 else 0 := by
  rw [List.map_cons, List.count_cons]
  by_cases h : k = x.mark
  · rw [if_pos h, if_pos (beq_iff_eq.mpr h.symm)]
  · rw [if_neg h, if_neg fun heq => h (beq_iff_eq.mp heq).symm]

theorem of_perm (h : Declares installed declared) {declared' : List (Behavior N)}
    (hperm : declared'.Perm declared) : Declares installed declared' :=
  ⟨h.1, fun k => (h.2 k).trans ((hperm.map _).count_eq k).symm⟩

theorem installOne (h : Declares installed declared) (x : Behavior N) :
    Declares (Books.installOne x installed) (x :: declared) := by
  rw [Books.installOne]
  split
  · next hx =>
    refine ⟨h.1.change _ fun _ _ _ => Nat.succ_pos _, fun k => ?_⟩
    rw [Tally.count_raised hx, count_cons, h.2]
  · next hx =>
    refine ⟨h.1.opened x hx, fun k => ?_⟩
    rw [Tally.count_opened x hx, count_cons, h.2]

theorem uninstallOne {x : Behavior N} (h : Declares installed (x :: declared)) :
    Declares (Books.uninstallOne x installed) declared := by
  have hcount (k : List StatKey × List Stage × PathRule × Identity) :
      (declared.map Behavior.mark).count k + (if k = x.mark then 1 else 0)
        = Tally.count Behavior.mark installed k := by
    rw [h.2, count_cons]
  have hpos : 0 < Tally.count Behavior.mark installed x.mark := by
    rw [← hcount]
    simp
  rw [Books.uninstallOne]
  split
  · next hx =>
    refine ⟨h.1.lowered hx, fun k => ?_⟩
    have := Tally.count_lowered hpos k
    rw [← hcount] at this
    exact Nat.add_right_cancel this
  · next hx =>
    refine ⟨h.1.filter _, fun k => ?_⟩
    have := Tally.count_closed (le_antisymm (Nat.le_of_not_lt hx) hpos) k
    rw [← hcount] at this
    exact Nat.add_right_cancel this

theorem install (h : Declares installed declared) (xs : List (Behavior N)) :
    Declares (xs.foldl (fun installed x => Books.installOne x installed) installed)
      (declared ++ xs) := by
  induction xs generalizing installed declared with
  | nil => simpa using h
  | cons x xs ih =>
    refine (ih (h.installOne x)).of_perm ?_
    exact List.perm_middle

theorem uninstall {xs : List (Behavior N)} (h : Declares installed (xs ++ declared)) :
    Declares (xs.foldl (fun installed x => Books.uninstallOne x installed) installed) declared := by
  induction xs generalizing installed with
  | nil => exact h
  | cons x xs ih => exact ih h.uninstallOne

end Declares

/-! ## Paths -/

/-- A path counted once less. -/
def uncounting (path : Path (Stat N)) (entries : List (Path (Stat N) × Nat)) :
    List (Path (Stat N) × Nat) :=
  if 1 < Tally.count Path.key entries path.key then Tally.change Path.key path.key (· - 1) entries
  else entries.filter fun e => !decide (e.1.key = path.key)

theorem counting_eq (path : Path (Stat N)) (entries : List (Path (Stat N) × Nat)) :
    Registry.counting path entries = if path.key ∈ entries.map fun e => e.1.key
      then Tally.change Path.key path.key (· + 1) entries else entries ++ [(path, 1)] := by
  have hin : path.isIn (entries.map (·.1)) = true ↔ path.key ∈ entries.map fun e => e.1.key := by
    simp [Path.isIn, Path.same]
  have hbump : entries.map (Registry.bump path) = Tally.change Path.key path.key (· + 1) entries := by
    refine List.map_congr_left fun e _ => ?_
    simp [Registry.bump, Path.same]
  rw [Registry.counting, hbump]
  by_cases h : path.key ∈ entries.map fun e => e.1.key
  · rw [if_pos (hin.mpr h), if_pos h]
  · rw [if_neg (mt hin.mp h), if_neg h]

section Counting

variable {entries : List (Path (Stat N) × Nat)} (h : Tally.Sound Path.key entries)
  (path : Path (Stat N))

include h

theorem sound_counting : Tally.Sound Path.key (Registry.counting path entries) := by
  rw [counting_eq]
  split
  · exact h.change _ fun _ _ _ => Nat.succ_pos _
  · next hp => exact h.opened path hp

omit h in
theorem tally_counting (k : PathKey) : Tally.count Path.key (Registry.counting path entries) k
    = Tally.count Path.key entries k + if k = path.key then 1 else 0 := by
  rw [counting_eq]
  split
  · next hp => exact Tally.count_raised hp k
  · next hp => exact Tally.count_opened path hp k

theorem sound_uncounting : Tally.Sound Path.key (uncounting path entries) := by
  rw [uncounting]
  split
  · next hp => exact h.lowered hp
  · exact h.filter _

omit h in
theorem tally_uncounting (hpos : 0 < Tally.count Path.key entries path.key) (k : PathKey) :
    Tally.count Path.key (uncounting path entries) k + (if k = path.key then 1 else 0)
      = Tally.count Path.key entries k := by
  rw [uncounting]
  split
  · exact Tally.count_lowered hpos k
  · next hp => exact Tally.count_closed (le_antisymm (Nat.le_of_not_lt hp) hpos) k

end Counting

/-- The books with other counts for the paths of a set. -/
def modifyCounts (b : Books N) (set : Nat)
    (f : List (Path (Stat N) × Nat) → List (Path (Stat N) × Nat)) : Books N :=
  { b with counts := Function.update b.counts set (f (b.counts set)) }

/-- The books with another list of members in a collection. -/
def modifyItems (b : Books N) (c : Nat) (f : List (Nat × Modifier N) → List (Nat × Modifier N)) :
    Books N := { b with items := Function.update b.items c (f (b.items c)) }

/-- The books with another list of formula nodes for a collection. -/
def modifyFormulas (b : Books N) (c : Nat)
    (f : List (Modifier N × Nat) → List (Modifier N × Nat)) : Books N :=
  { b with formulas := Function.update b.formulas c (f (b.formulas c)) }

/-- The books with another node registered. -/
def register (b : Books N) (key : NodeKey) : Books N := { b with registered := b.registered ++ [key] }

/-- The books without the registrations of a node. -/
def unregister (b : Books N) (key : NodeKey) : Books N :=
  { b with registered := b.registered.filter (· != key) }

/-! ## Uses -/

section Uses

variable {g : Subgraph N} (k : PathKey)

theorem uses_addNodes (e : NodeEntry N) (g : Subgraph N) : (Registry.addNodes e g).uses k
    = g.uses k + if e.stage.perPath = true ∧ k = e.path.key then 1 else 0 := by
  simp only [Subgraph.uses, Registry.addNodes, List.countP_append, List.countP_singleton,
    Bool.and_eq_true, beq_iff_eq, eq_comm (b := k)]
  omega

theorem uses_addCollection (e : FormEntry N) (g : Subgraph N) : (Registry.addCollection e g).uses k
    = g.uses k + if k = e.path.key then 1 else 0 := by
  simp only [Subgraph.uses, Registry.addCollection, List.countP_append, List.countP_singleton,
    beq_iff_eq, eq_comm (b := k)]
  omega

/-- The nodes of a stage on a path are taken out as one. -/
theorem perm_dropNodes {e : NodeEntry N} (he : e ∈ g.nodes)
    (h : (g.nodes.map fun e => (e.stage, e.path.key)).Nodup) :
    g.nodes.Perm (e :: (Registry.dropNodes e g).nodes) :=
  List.perm_cons_filter h he fun x => by simp [Path.same, Prod.ext_iff, beq_eq_decide]

/-- The collection of a form on a path is taken out alone. -/
theorem perm_dropForm {e : FormEntry N} (he : e ∈ g.forms)
    (h : (g.forms.map fun e => (e.form, e.path.key)).Nodup) :
    g.forms.Perm (e :: (Registry.dropForm e g).forms) :=
  List.perm_cons_filter h he fun x => by simp [Path.same, Prod.ext_iff, beq_eq_decide]

theorem uses_dropNodes {e : NodeEntry N} (he : e ∈ g.nodes)
    (h : (g.nodes.map fun e => (e.stage, e.path.key)).Nodup) : (Registry.dropNodes e g).uses k
      + (if e.stage.perPath = true ∧ k = e.path.key then 1 else 0) = g.uses k := by
  simp only [Subgraph.uses, (perm_dropNodes he h).countP_eq, List.countP_cons, Bool.and_eq_true,
    beq_iff_eq, eq_comm (b := k), Registry.dropNodes]
  omega

theorem uses_dropForm {e : FormEntry N} (he : e ∈ g.forms)
    (h : (g.forms.map fun e => (e.form, e.path.key)).Nodup) : (Registry.dropForm e g).uses k
      + (if k = e.path.key then 1 else 0) = g.uses k := by
  simp only [Subgraph.uses, (perm_dropForm he h).countP_eq, List.countP_cons, beq_iff_eq,
    eq_comm (b := k), Registry.dropForm]
  omega

end Uses

/-! ## Balance -/

namespace Balanced

/-- Different nodes have different keys. -/
theorem keys_nodup (h : b.Balanced) : (b.inUse.flatMap (·.keys)).Nodup := by
  refine List.nodup_flatMap.mpr ⟨fun g hg => Books.keys_nodup (h.balances g hg).nodes, ?_⟩
  refine (List.pairwise_map.mp h.stats).imp fun {g g'} hne => ?_
  change List.Disjoint g.keys g'.keys
  rw [List.disjoint_left]
  intro k hk hk'
  obtain ⟨e, -, rfl⟩ := List.mem_map.mp hk
  obtain ⟨e', -, heq⟩ := List.mem_map.mp hk'
  exact hne (congrArg NodeKey.stat heq).symm

/-- Different subgraphs in use belong to different stats. -/
theorem eq_of_key (h : b.Balanced) {i j : Nat} {g g' : Subgraph N} (hi : i ∈ b.live)
    (hg : b.graphs[i]? = some g) (hj : j ∈ b.live) (hg' : b.graphs[j]? = some g')
    (hkey : g.stat.key = g'.stat.key) : i = j := by
  by_contra hne
  obtain ⟨rest, hperm, -, hrest⟩ := exists_rest h.live_nodup hi hg
  have hother : g' ∈ rest := by
    rw [← hrest]
    exact mem_inUse_iff.mpr ⟨j, (List.mem_erase_of_ne (Ne.symm hne)).mpr hj, hg'⟩
  have hstats := (hperm.map fun g => g.stat.key).nodup_iff.mp h.stats
  exact (List.nodup_cons.mp hstats).1 (List.mem_map.mpr ⟨g', hother, hkey.symm⟩)

section Modify

variable {id : Nat} {g : Subgraph N} (h : b.Balanced) (hid : id ∈ b.live)
  (hg : b.graphs[id]? = some g)

include h hid hg

/-- The books stay balanced when one subgraph in use changes, with what is written about its own
members, paths and nodes. -/
theorem modify {b' : Books N} {f : Subgraph N → Subgraph N}
    (hgraphs : b'.graphs = b.graphs.modify id f) (hlive : b'.live = b.live)
    (hinstalled : b'.installed = b.installed) (hstat : (f g).stat = g.stat)
    (hpaths : (f g).paths = g.paths)
    (hitems : ∀ c, (∀ e ∈ g.forms, e.collection ≠ c) → b'.items c = b.items c)
    (hcounts : ∀ set, set ≠ g.paths → b'.counts set = b.counts set)
    (hcollections : ((f g).forms.map (·.collection)).Nodup)
    (hnew : ∀ e ∈ (f g).forms, (∃ e' ∈ g.forms, e'.collection = e.collection)
      ∨ ∀ g' ∈ b.inUse, ∀ e' ∈ g'.forms, e'.collection ≠ e.collection)
    (hregistered : ∀ rest, (∀ k ∈ rest, k.stat ≠ g.stat.key) → b.registered.Perm (g.keys ++ rest) →
      b'.registered.Perm ((f g).keys ++ rest))
    (hbalances : b'.Balances (f g)) : b'.Balanced := by
  obtain ⟨rest, hperm, hmodified, -⟩ := exists_rest h.live_nodup hid hg
  -- in use are the subgraph as it is now and the others as they were
  have hperm' : b'.inUse.Perm (f g :: rest) := by
    have : b'.inUse = (b.modifyGraph id f).inUse := by
      simp only [inUse, modifyGraph, hgraphs, hlive]
    exact this ▸ hmodified f
  have hmem {g' : Subgraph N} (hg' : g' ∈ rest) : g' ∈ b.inUse :=
    hperm.mem_iff.mpr (List.mem_cons_of_mem g hg')
  have hstats := (hperm.map fun g => g.stat.key).nodup_iff.mp h.stats
  have hsets := (hperm.map (·.paths)).nodup_iff.mp h.sets
  have hall := (hperm.flatMap_right fun g => g.forms.map (·.collection)).nodup_iff.mp h.collections
  rw [List.flatMap_cons, List.nodup_append] at hall
  refine ⟨hlive ▸ h.live_nodup, ?_, ?_, ?_, ?_, fun g' hg' => ?_, ?_, hinstalled ▸ h.behaviors, ?_⟩
  · rw [hlive, hgraphs, Array.size_modify]
    exact h.live_lt
  · refine (hperm'.map _).nodup_iff.mpr ?_
    rw [List.map_cons, hstat]
    exact hstats
  · refine (hperm'.map _).nodup_iff.mpr ?_
    rw [List.map_cons, hpaths]
    exact hsets
  · refine (hperm'.flatMap_right _).nodup_iff.mpr ?_
    rw [List.flatMap_cons, List.nodup_append]
    refine ⟨hcollections, hall.2.1, fun c hc c' hc' heq => ?_⟩
    obtain ⟨e, he, rfl⟩ := List.mem_map.mp hc
    subst heq
    obtain ⟨g', hg', hmem'⟩ := List.mem_flatMap.mp hc'
    obtain ⟨e', he', heq⟩ := List.mem_map.mp hmem'
    rcases hnew e he with ⟨e'', he'', heq'⟩ | hfresh
    · exact hall.2.2 _ (List.mem_map.mpr ⟨e'', he'', heq'⟩) _ hc' rfl
    · exact hfresh g' (hmem hg') e' he' heq
  · rcases List.mem_cons.mp (hperm'.mem_iff.mp hg') with rfl | hg'
    · exact hbalances
    · -- what is written about the other subgraphs is the same
      refine (h.balances g' (hmem hg')).congr (fun e he => hitems _ fun e' he' heq => ?_)
        (hcounts _ fun heq => ?_)
      · exact hall.2.2 _ (List.mem_map.mpr ⟨e', he', heq⟩) _
          (List.mem_flatMap.mpr ⟨g', hg', List.mem_map.mpr ⟨e, he, rfl⟩⟩) rfl
      · exact (List.nodup_cons.mp hsets).1 (List.mem_map.mpr ⟨g', hg', heq⟩)
  · refine (hregistered _ (fun k hk heq => ?_) (h.registered.trans (hperm.flatMap_right _))).trans
      (hperm'.flatMap_right _).symm
    obtain ⟨g', hg', hkey⟩ := List.mem_flatMap.mp hk
    obtain ⟨e, -, rfl⟩ := List.mem_map.mp hkey
    exact (List.nodup_cons.mp hstats).1 (List.mem_map.mpr ⟨g', hg', heq⟩)
  · intro k
    rw [hinstalled, h.installed]
    refine List.Perm.count_eq (List.Perm.map _ ?_) k
    refine (hperm.flatMap_right _).trans ((hperm'.flatMap_right _).trans ?_).symm
    rw [List.flatMap_cons, List.flatMap_cons, hstat]

omit hid hg in
theorem collections_nodup {g' : Subgraph N} (hg' : g' ∈ b.inUse) :
    (g'.forms.map (·.collection)).Nodup := (List.nodup_flatMap.mp h.collections).1 g' hg'

/-- New nodes of a stage on a path are counted and registered. -/
theorem addNodes {e : NodeEntry N} (hnew : (e.stage, e.path.key) ∉ g.nodes.map fun e => (e.stage, e.path.key))
    (honce : stagePath e.stage e.path = e.path) {b' : Books N}
    (hb' : b' = ((b.modifyGraph id (Registry.addNodes e)).modifyCounts g.paths fun entries =>
      if e.stage.perPath then Registry.counting e.path entries else entries).register
        ⟨g.stat.key, e.stage, e.path.key⟩) : b'.Balanced := by
  have hmem := mem_inUse_iff.mpr ⟨id, hid, hg⟩
  have hcollections := h.collections_nodup hmem
  obtain ⟨hmodifiers, hsound, hcounted, honce', hnodes, hforms⟩ := h.balances g hmem
  subst hb'
  refine h.modify hid hg (f := Registry.addNodes e) rfl rfl rfl rfl rfl (fun _ _ => rfl)
    (fun set hset => Function.update_of_ne hset ..) hcollections (fun e he => .inl ⟨e, he, rfl⟩) ?_ ?_
  · intro rest _ hrest
    refine (hrest.append_right _).trans ?_
    simp only [Subgraph.keys, Registry.addNodes, List.map_append, List.append_assoc]
    exact List.perm_append_comm.append_left _
  · refine ⟨hmodifiers, ?_, fun k => ?_, ?_, ?_, hforms⟩
    · simp only [register, modifyCounts, modifyGraph, Registry.addNodes, Function.update_self]
      split
      · exact sound_counting hsound _
      · exact hsound
    · rw [uses_addNodes, ← hcounted]
      simp only [register, modifyCounts, modifyGraph, Registry.addNodes, Function.update_self]
      split
      · next hper => simp [tally_counting, hper]
      · next hper => simp [hper]
    · simpa [Registry.addNodes, or_imp, forall_and, honce] using honce'
    · simp only [Registry.addNodes, List.map_append, List.map_singleton, List.nodup_append]
      refine ⟨hnodes, List.nodup_singleton _, fun x hx y hy => ?_⟩
      rintro rfl
      exact hnew (List.mem_singleton.mp hy ▸ hx)

/-- A new collection of a form on a path is counted. -/
theorem addForm {e : FormEntry N} (hnew : (e.form, e.path.key) ∉ g.forms.map fun e => (e.form, e.path.key))
    (hfresh : ∀ g' ∈ b.inUse, ∀ e' ∈ g'.forms, e'.collection ≠ e.collection)
    (hempty : b.items e.collection = []) {b' : Books N}
    (hb' : b' = (b.modifyGraph id (Registry.addCollection e)).modifyCounts g.paths
      (Registry.counting e.path)) : b'.Balanced := by
  have hmem := mem_inUse_iff.mpr ⟨id, hid, hg⟩
  obtain ⟨hmodifiers, hsound, hcounted, honce, hnodes, hforms⟩ := h.balances g hmem
  subst hb'
  refine h.modify hid hg (f := Registry.addCollection e) rfl rfl rfl rfl rfl (fun _ _ => rfl)
    (fun set hset => Function.update_of_ne hset ..) ?_ (fun x hx => ?_) (fun _ _ hrest => hrest)
    ⟨?_, ?_, fun k => ?_, honce, hnodes, ?_⟩
  · simp only [Registry.addCollection, List.map_append, List.map_singleton, List.nodup_append]
    refine ⟨h.collections_nodup hmem, List.nodup_singleton _, fun c hc c' hc' => ?_⟩
    obtain ⟨e', he', rfl⟩ := List.mem_map.mp hc
    exact List.mem_singleton.mp hc' ▸ hfresh g hmem e' he'
  · rcases List.mem_append.mp hx with hx | hx
    · exact .inl ⟨x, hx, rfl⟩
    · exact .inr (List.mem_singleton.mp hx ▸ hfresh)
  · -- the new collection has no members yet
    simp only [Registry.addCollection, List.map_append, List.map_singleton, List.sum_append,
      List.sum_singleton, modifyCounts, modifyGraph, hempty]
    exact hmodifiers
  · simp only [modifyCounts, modifyGraph, Registry.addCollection, Function.update_self]
    exact sound_counting hsound _
  · rw [uses_addCollection, ← hcounted]
    simp only [modifyCounts, modifyGraph, Registry.addCollection, Function.update_self]
    exact tally_counting ..
  · simp only [Registry.addCollection, List.map_append, List.map_singleton, List.nodup_append]
    refine ⟨hforms, List.nodup_singleton _, fun x hx y hy => ?_⟩
    rintro rfl
    exact hnew (List.mem_singleton.mp hy ▸ hx)

/-- How many members the collections of a subgraph have when one of them has others. -/
theorem sum_items {e : FormEntry N} (he : e ∈ g.forms) (items : Nat → List (Nat × Modifier N))
    (hitems : ∀ c, c ≠ e.collection → items c = b.items c) :
    (g.forms.map fun e => (items e.collection).length).sum + (b.items e.collection).length
      = g.modifierCount + (items e.collection).length := by
  have hmem := mem_inUse_iff.mpr ⟨id, hid, hg⟩
  have hnodup := h.collections_nodup hmem
  rw [(h.balances g hmem).modifiers]
  have hperm := List.perm_cons_filter hnodup he fun x => rfl
  have hrest : ∀ x ∈ g.forms.filter (fun x => !decide (x.collection = e.collection)),
      (items x.collection).length = (b.items x.collection).length := fun x hx => by
    rw [hitems x.collection (by simpa using (List.mem_filter.mp hx).2)]
  rw [(hperm.map fun e => (items e.collection).length).sum_nat,
    (hperm.map fun e => (b.items e.collection).length).sum_nat, List.map_cons, List.map_cons,
    List.sum_cons, List.sum_cons, List.map_congr_left hrest]
  omega

/-- A subgraph counts the members of its collections when one of them gets others. -/
theorem modifyMembers {e : FormEntry N} (he : e ∈ g.forms)
    {f : List (Nat × Modifier N) → List (Nat × Modifier N)} {count : Nat → Nat}
    (hcount : (b.items e.collection).length ≤ g.modifierCount →
      g.modifierCount + (f (b.items e.collection)).length
        = (b.items e.collection).length + count g.modifierCount) {b' : Books N}
    (hb' : ∃ k, b' = ((b.modifyGraph id fun g => { g with modifierCount := count g.modifierCount }).modifyItems
      e.collection f).modifyFormulas e.collection k) : b'.Balanced := by
  have hmem := mem_inUse_iff.mpr ⟨id, hid, hg⟩
  have hcollections := h.collections_nodup hmem
  obtain ⟨hmodifiers, hsound, hcounted, honce, hnodes, hforms⟩ := h.balances g hmem
  obtain ⟨k, rfl⟩ := hb'
  have hitems : ∀ c, c ≠ e.collection → Function.update b.items e.collection
      (f (b.items e.collection)) c = b.items c := fun c hc => Function.update_of_ne hc ..
  refine h.modify hid hg (f := fun g => { g with modifierCount := count g.modifierCount }) rfl rfl rfl rfl rfl
    (fun c hc => hitems c (hc e he).symm) (fun _ _ => rfl) hcollections
    (fun x hx => .inl ⟨x, hx, rfl⟩) (fun _ _ hrest => hrest) ⟨?_, hsound, hcounted, honce, hnodes, hforms⟩
  have hsum := h.sum_items hid hg he _ hitems
  rw [Function.update_self] at hsum
  have hle : (b.items e.collection).length ≤ g.modifierCount := by
    -- without the collection the sum is smaller by as much
    have := h.sum_items hid hg he (Function.update b.items e.collection []) fun c hc =>
      Function.update_of_ne hc ..
    rw [Function.update_self, List.length_nil] at this
    omega
  have := hcount hle
  change count g.modifierCount = (g.forms.map fun e' => (Function.update b.items e.collection
    (f (b.items e.collection)) e'.collection).length).sum
  omega

/-- The nodes of a stage on a path that are dropped are not counted nor registered any more. -/
theorem dropNodes {e : NodeEntry N} (he : e ∈ g.nodes) {b' : Books N}
    (hb' : b' = ((b.modifyGraph id (Registry.dropNodes e)).modifyCounts g.paths fun entries =>
      if e.stage.perPath then uncounting e.path entries else entries).unregister
        ⟨g.stat.key, e.stage, e.path.key⟩) : b'.Balanced := by
  have hmem := mem_inUse_iff.mpr ⟨id, hid, hg⟩
  have hcollections := h.collections_nodup hmem
  obtain ⟨hmodifiers, hsound, hcounted, honce, hnodes, hforms⟩ := h.balances g hmem
  have huses := fun k => uses_dropNodes k he hnodes
  subst hb'
  refine h.modify hid hg (f := Registry.dropNodes e) rfl rfl rfl rfl rfl (fun _ _ => rfl)
    (fun set hset => Function.update_of_ne hset ..) hcollections
    (fun x hx => .inl ⟨x, hx, rfl⟩) (fun rest hother hrest => ?_) ⟨hmodifiers, ?_, fun k => ?_,
      fun x hx => honce x (List.mem_filter.mp hx).1, hnodes.sublist (List.filter_sublist.map _), hforms⟩
  · -- no other node is registered under the key
    have hkeys : g.keys.Nodup := Books.keys_nodup hnodes
    have hothers : rest.filter (· != ⟨g.stat.key, e.stage, e.path.key⟩) = rest := by
      refine List.filter_eq_self.mpr fun k hk => bne_iff_ne.mpr ?_
      rintro rfl
      exact hother _ hk rfl
    refine (hrest.filter _).trans ?_
    rw [List.filter_append, hothers]
    refine List.Perm.append_right _ ?_
    have hperm := (perm_dropNodes he hnodes).map fun e : NodeEntry N =>
      (⟨g.stat.key, e.stage, e.path.key⟩ : NodeKey)
    have hnot := List.nodup_cons.mp (hperm.nodup_iff.mp hkeys)
    refine (hperm.filter _).trans ?_
    rw [List.map_cons, List.filter_cons_of_neg (by simp), List.filter_eq_self.mpr fun k hk => ?_]
    · rfl
    · refine bne_iff_ne.mpr ?_
      rintro rfl
      exact hnot.1 hk
  · simp only [unregister, modifyCounts, modifyGraph, Registry.dropNodes, Function.update_self]
    split
    · exact sound_uncounting hsound _
    · exact hsound
  · have := huses k
    simp only [unregister, modifyCounts, modifyGraph, Registry.dropNodes, Function.update_self] at this ⊢
    split
    · next hper =>
      have hpos : 0 < Tally.count Path.key (b.counts g.paths) e.path.key := by
        rw [hcounted, ← huses e.path.key]
        simp [hper]
      have htally := tally_uncounting e.path hpos k
      simp only [hper, true_and] at this
      rw [hcounted] at htally
      omega
    · next hper =>
      simp only [hper] at this
      rw [hcounted]
      simpa using this.symm

/-- An empty collection of a form on a path that is dropped is not counted any more. -/
theorem dropForm {e : FormEntry N} (he : e ∈ g.forms) (hempty : b.items e.collection = [])
    {b' : Books N} (hb' : b' = (b.modifyGraph id (Registry.dropForm e)).modifyCounts g.paths
      (uncounting e.path)) : b'.Balanced := by
  have hmem := mem_inUse_iff.mpr ⟨id, hid, hg⟩
  have hcollections := h.collections_nodup hmem
  obtain ⟨hmodifiers, hsound, hcounted, honce, hnodes, hforms⟩ := h.balances g hmem
  have huses := fun k => uses_dropForm k he hforms
  subst hb'
  refine h.modify hid hg (f := Registry.dropForm e) rfl rfl rfl rfl rfl (fun _ _ => rfl)
    (fun set hset => Function.update_of_ne hset ..) (hcollections.sublist (List.filter_sublist.map _))
    (fun x hx => .inl ⟨x, (List.mem_filter.mp hx).1, rfl⟩) (fun _ _ hrest => hrest)
    ⟨?_, ?_, fun k => ?_, honce, hnodes, hforms.sublist (List.filter_sublist.map _)⟩
  · have := ((perm_dropForm he hforms).map fun e => (b.items e.collection).length).sum_nat
    rw [List.map_cons, List.sum_cons, hempty] at this
    exact hmodifiers.trans (this.trans (Nat.zero_add _))
  · simp only [modifyCounts, modifyGraph, Registry.dropForm, Function.update_self]
    exact sound_uncounting hsound _
  · have hpos : 0 < Tally.count Path.key (b.counts g.paths) e.path.key := by
      rw [hcounted, ← huses e.path.key]
      simp
    have htally := tally_uncounting e.path hpos k
    have := huses k
    rw [hcounted] at htally
    simp only [modifyCounts, modifyGraph, Registry.dropForm, Function.update_self] at this ⊢
    omega

omit hid hg in
/-- The behaviors of a subgraph in use are declared along with those of the others. -/
theorem declares {rest : List (Subgraph N)} (hperm : b.inUse.Perm (g :: rest)) :
    Declares b.installed (g.stat.behaviors ++ rest.flatMap (·.stat.behaviors)) :=
  ⟨h.behaviors, fun k => (h.installed k).trans
    (((hperm.flatMap_right fun g => g.stat.behaviors).map _).count_eq k)⟩

/-- A subgraph that is dropped does not declare its behaviors any more. -/
theorem dropGraph (hnodes : g.nodes = []) {b' : Books N} {listed : List (Stat N × Nat)}
    (hb' : b' = { b.dropGraph id with
      installed := g.stat.behaviors.foldl (fun installed x => uninstallOne x installed) b.installed
      listed }) : b'.Balanced := by
  obtain ⟨rest, hperm, -, hrest⟩ := exists_rest h.live_nodup hid hg
  have hrest : b'.inUse = rest := hb' ▸ hrest
  have hinstalled := (h.declares hperm).uninstall
  subst hb'
  refine ⟨h.live_nodup.erase id, fun i hi => h.live_lt i (List.mem_of_mem_erase hi), ?_, ?_, ?_,
    fun g' hg' => ?_, ?_, hinstalled.1, ?_⟩
  · rw [hrest]
    exact (List.nodup_cons.mp ((hperm.map _).nodup_iff.mp h.stats)).2
  · rw [hrest]
    exact (List.nodup_cons.mp ((hperm.map _).nodup_iff.mp h.sets)).2
  · rw [hrest]
    have := (hperm.flatMap_right fun g => g.forms.map (·.collection)).nodup_iff.mp h.collections
    rw [List.flatMap_cons, List.nodup_append] at this
    exact this.2.1
  · rw [hrest] at hg'
    exact (h.balances g' (hperm.mem_iff.mpr (List.mem_cons_of_mem g hg'))).congr (fun _ _ => rfl) rfl
  · rw [hrest]
    refine h.registered.trans ((hperm.flatMap_right _).trans ?_)
    rw [List.flatMap_cons, Subgraph.keys, hnodes]
    rfl
  · rw [hrest]
    exact hinstalled.2

end Modify

/-- A new subgraph declares its behaviors. -/
theorem addGraph (h : b.Balanced) {stat : Stat N} (hnew : ∀ g ∈ b.inUse, g.stat.key ≠ stat.key)
    {set : Nat} (hset : ∀ g ∈ b.inUse, g.paths ≠ set) (hcounts : b.counts set = []) {b' : Books N}
    (hb' : b' = { b.addGraph stat set with
      installed := stat.behaviors.foldl (fun installed x => installOne x installed) b.installed }) :
    b'.Balanced := by
  have huse : b'.inUse = b.inUse ++ [⟨stat, [], [], 0, set⟩] :=
    hb' ▸ inUse_addGraph h.live_lt stat set
  have hinstalled := Declares.install ⟨h.behaviors, h.installed⟩ stat.behaviors
  subst hb'
  refine ⟨?_, fun i hi => ?_, ?_, ?_, ?_, fun g' hg' => ?_, ?_, hinstalled.1, ?_⟩
  · refine List.nodup_append.mpr ⟨h.live_nodup, List.nodup_singleton _, fun i hi j hj => ?_⟩
    rintro rfl
    exact Nat.ne_of_lt (h.live_lt i hi) (List.mem_singleton.mp hj)
  · simp only [Books.addGraph, Array.size_push, List.mem_append, List.mem_singleton] at hi ⊢
    rcases hi with hi | rfl
    · exact Nat.lt_succ_of_lt (h.live_lt i hi)
    · exact Nat.lt_succ_self _
  · rw [huse, List.map_append, List.map_singleton, List.nodup_append]
    refine ⟨h.stats, List.nodup_singleton _, fun k hk k' hk' => ?_⟩
    obtain ⟨g, hg, rfl⟩ := List.mem_map.mp hk
    exact List.mem_singleton.mp hk' ▸ hnew g hg
  · rw [huse, List.map_append, List.map_singleton, List.nodup_append]
    refine ⟨h.sets, List.nodup_singleton _, fun k hk k' hk' => ?_⟩
    obtain ⟨g, hg, rfl⟩ := List.mem_map.mp hk
    exact List.mem_singleton.mp hk' ▸ hset g hg
  · rw [huse]
    simpa using h.collections
  · rw [huse, List.mem_append, List.mem_singleton] at hg'
    rcases hg' with hg' | rfl
    · exact (h.balances g' hg').congr (fun _ _ => rfl) rfl
    · -- nothing is on file for it yet
      have hnone : (b.addGraph stat set).counts set = [] := hcounts
      refine ⟨rfl, ?_, fun path => ?_, by simp, List.nodup_nil, List.nodup_nil⟩
      · exact hnone.symm ▸ Tally.Sound.nil
      · change Tally.count Path.key ((b.addGraph stat set).counts set) path = 0
        rw [hnone]
        rfl
  · rw [huse]
    exact h.registered.trans (.of_eq (by simp [Subgraph.keys]))
  · rw [huse]
    simpa using hinstalled.2

end Balanced

/-- Books without subgraphs are balanced. -/
theorem balanced_of_empty (hlive : b.live = []) (hregistered : b.registered = [])
    (hinstalled : b.installed = []) : b.Balanced := by
  have huse : b.inUse = [] := by rw [inUse, hlive]; rfl
  refine ⟨hlive ▸ List.nodup_nil, by simp [hlive], ?_, ?_, ?_, by simp [huse], ?_, ?_, fun k => ?_⟩
  · simp [huse]
  · simp [huse]
  · simp [huse]
  · simp [huse, hregistered]
  · exact hinstalled ▸ Tally.Sound.nil
  · rw [huse, hinstalled]
    rfl

end Books

end StatEngine
