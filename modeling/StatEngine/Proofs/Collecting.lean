import StatEngine.Proofs.Circles
import StatEngine.Proofs.Owning

/-!
# What pruning collects

What a host listens to has to stay, and so has all that belongs to a stat with modifiers, with all that the
formulas among that read (`Needed`). Removing what is unused keeps these nodes and collections and no
others, if nothing is attached that is not on file and the dependencies have no circles: someone listens to
each node that is left, and going from one listener to the next comes to an end at a root.

## Main definitions

* `Attended` and `IsRoot`: what hosts listen to, and where keeping starts;
* `Needed`: what roots depend on;
* `Collects`: all that is not needed is off file, and nothing else.

## Main statements

* `Sane.listener_spec`: who listens to what is on file;
* `Sane.remains_of_needed` and `Sane.needed_of_remains`: what is needed stays, and what stays is needed;
* `Calculator.Quiescent.prune_collects`: what comes of removing what is unused.
-/

namespace StatEngine

open Network

/-- The stat that a key is about. -/
def DependencyKey.stat : DependencyKey → StatKey
  | .node k => k.stat
  | .form key _ _ => key
  | .paths key => key

namespace Network

variable {N A σ : Type} {sc : Regime N} {n m n' : Network N A σ} {key : DependencyKey} {gone : List Nat}

/-! ## What is needed -/

/-- A stat has modifiers. -/
def Busy (n : Network N A σ) (key : StatKey) : Prop :=
  ∃ g, n.registry.graph? key = some g ∧ 0 < g.modifierCount

/-- The nodes of a stage, or a collection, are on file. -/
def Present (n : Network N A σ) : DependencyKey → Prop
  | .node k => ∃ e, n.registry.stage? k = some e
  | .form key f p => ∃ e, n.registry.form? key f p = some e
  | .paths _ => False

/-- A host listens to a node, to a collection, or to the total of a stat on its list. -/
inductive Attended (n : Network N A σ) : DependencyKey → Prop where
  | node {k : NodeKey} {e : NodeEntry N} (he : n.registry.stage? k = some e)
    (h : n.callbacks (.received e.cached) ≠ [] ∨ n.callbacks (.changed e.cached) ≠ []) :
    Attended n (.node k)
  | form {key : StatKey} {f : Form} {p : PathKey} {e : FormEntry N}
    (he : n.registry.form? key f p = some e) (h : n.callbacks (.changed e.aggregate) ≠ []) :
    Attended n (.form key f p)
  | listed {x : Stat N × Nat} (hx : x ∈ n.registry.listed) (h : n.callbacks (.changed x.2) ≠ []) :
    Attended n (.node ⟨x.1.key, .total, Path.main⟩)

/-- Keeping starts with what hosts listen to, and with all of a stat that has modifiers. -/
def IsRoot (n : Network N A σ) (key : DependencyKey) : Prop :=
  n.Attended key ∨ n.Present key ∧ n.Busy key.stat

/-- A root depends on what is needed, as far as was recorded. -/
def Needed (n : Network N A σ) (key : DependencyKey) : Prop :=
  ∃ root, n.IsRoot root ∧ Relation.ReflTransGen n.wiring.DependsOn root key

theorem IsRoot.needed (h : n.IsRoot key) : n.Needed key := ⟨key, h, .refl⟩

theorem Needed.tail {used : DependencyKey} (h : n.Needed key) (hused : n.wiring.DependsOn key used) :
    n.Needed used := by
  obtain ⟨root, hroot, hpath⟩ := h
  exact ⟨root, hroot, hpath.tail hused⟩

/-! ## Who listens -/

/-- Different keys are about different things. -/
theorem Wired.topic?_injective (hn : n.Wired sc) (ho : n.registry.Orderly sc) {used : DependencyKey}
    {topic : Topic} (h : n.registry.topic? key = some topic) (h' : n.registry.topic? used = some topic) :
    key = used := by
  cases key with
  | node k =>
    obtain ⟨e, he, rfl⟩ := Option.map_eq_some_iff.mp h
    cases used with
    | node k' =>
      obtain ⟨e', he', heq⟩ := Option.map_eq_some_iff.mp h'
      have hcached := (hn.stages k e he).cached
      have hcached' := (hn.stages k' e' he').cached
      have := Topic.received.inj heq
      rw [hn.stage_key_unique he he' (by omega)]
    | form | paths => simp [Registry.topic?] at h'
  | form key f p =>
    obtain ⟨e, he, rfl⟩ := Option.map_eq_some_iff.mp h
    cases used with
    | form key' f' p' =>
      obtain ⟨e', he', heq⟩ := Option.map_eq_some_iff.mp h'
      have hkind := (hn.forms _ _ _ _ he').kind
      rw [Topic.changed.inj heq, (hn.forms _ _ _ _ he).kind] at hkind
      obtain ⟨hcollection, -⟩ := Kind.aggregate.inj (Option.some.inj hkind)
      obtain ⟨rfl, rfl, rfl⟩ := ho.collections _ _ _ _ _ _ e e' he he' hcollection
      rfl
    | node | paths => simp [Registry.topic?] at h'
  | paths key =>
    obtain ⟨g, hg, rfl⟩ := Option.map_eq_some_iff.mp h
    cases used with
    | paths key' =>
      obtain ⟨g', hg', heq⟩ := Option.map_eq_some_iff.mp h'
      rw [ho.sets _ _ g g' hg hg' (Topic.paths.inj heq).symm]
    | node | form => simp [Registry.topic?] at h'

/-- What is on file evaluates a formula under some key, keeps a value, combines a collection or shows a
total to hosts. -/
theorem Wired.kind_of_spared (hn : n.Wired sc) {id : Nat} (h : n.Spared id) :
    (n.IsFormula id ∧ ∃ key, n.Under key id) ∨ (∃ inner, n.kind? id = some (.cached inner))
      ∨ (∃ key f p e, n.registry.form? key f p = some e ∧ id = e.aggregate)
      ∨ ∃ x ∈ n.registry.listed, id = x.2 := by
  obtain ⟨k, e, he, hid⟩ | ⟨key, f, p, e, he, rfl | ⟨i, hi, hid⟩⟩ | hlisted := h
  · obtain ⟨_, _, _, hcell, -⟩ := (hn.stages k e he).cell
    obtain rfl | rfl := hid
    · exact .inl ⟨⟨_, _, hcell.formula⟩, .node k, e, he, rfl⟩
    · exact .inr (.inl ⟨_, hcell.cached⟩)
  · exact .inr (.inr (.inl ⟨key, f, p, e, he, rfl⟩))
  · obtain ⟨-, -, -, c, hc, hcell⟩ := (hn.forms key f p e he).members i hi
    obtain hid | hid := hid
    · obtain rfl : id = c + 1 := by omega
      exact .inr (.inl ⟨_, hcell.cached⟩)
    · obtain rfl : id = c := by omega
      exact .inl ⟨⟨_, _, hcell.formula⟩, .form key f p, e, he, List.mem_map.mpr ⟨i, hi, hid.symm⟩⟩
  · exact .inr (.inr (.inr hlisted))

/-- What combines a collection on file does not listen to stages. -/
theorem Wired.not_aggregate_of_received (hn : n.Wired sc) (hlisted : n.Lists) {k : NodeKey}
    {e : NodeEntry N} (he : n.registry.stage? k = some e) {id token : Nat} (hspared : n.Spared id)
    (hheld : ⟨.received e.cached, token⟩ ∈ n.held id) : ¬ n.IsAggregate id := by
  intro haggregate
  have hjoined := (hn.traced id).joined haggregate _ hheld
  obtain ⟨collection, form, hid⟩ := haggregate
  have hstage := hn.stages k e he
  obtain ⟨l, _, _, hcell, -⟩ := hstage.cell
  obtain ⟨⟨_, _, hkind⟩, -⟩ | ⟨_, hkind⟩ | ⟨key, f, p, e', he', rfl⟩ | ⟨x, hx, rfl⟩ :=
    hn.kind_of_spared hspared
  · cases hkind.symm.trans hid
  · cases hkind.symm.trans hid
  · -- it listens to the cells of its members, and these are not those of stages
    have hform := hn.forms key f p e' he'
    obtain ⟨c, hc⟩ | ⟨i, hi⟩ := hjoined
    · cases hc
    obtain ⟨c, hc, htopic⟩ := hform.followed_topic _ hi
    have hmem : i ∈ (n.registry.items e'.collection).map (·.1) :=
      hform.followed ▸ List.mem_map_of_mem (f := (·.1)) hi
    obtain ⟨item, hitem, rfl⟩ := List.mem_map.mp hmem
    obtain ⟨-, -, -, c', hc', hcell'⟩ := hform.members item hitem
    have heq : e.cached = c + 1 := Topic.received.inj htopic
    have hc : item.1 = c + 2 := hc
    have hcached := hstage.cached
    obtain rfl : c' = e.formula := by omega
    cases hcell'.formula.symm.trans hcell.formula
  · obtain ⟨inner, hwrapped⟩ := hlisted.wrapped hx
    cases hwrapped.symm.trans hid

section Listeners

variable [Number N] (hn : n.Sane sc) (hclean : n.Clean)

include hn hclean

/-- Hosts and formulas on file listen to what is on file, and the formulas are those that recorded it. -/
theorem Sane.listener_spec {topic : Topic} (hfile : n.Present key)
    (htopic : n.registry.topic? key = some topic) {attached : Attached A}
    (h : attached ∈ n.listeners topic) : attached.listener.node? = none
      ∨ ∃ used id, attached.listener.node? = some id ∧ n.Under used id
        ∧ (key, ⟨topic, attached.token⟩) ∈ n.recorded id := by
  have hwired := hn.inv.wired
  refine or_iff_not_imp_left.mpr fun hnode => ?_
  obtain ⟨id, hid⟩ := Option.ne_none_iff_exists'.mp hnode
  have hheld : ⟨topic, attached.token⟩ ∈ n.held id :=
    (hwired.ledger.balance id ⟨topic, attached.token⟩).mpr ⟨attached.listener, h, hid⟩
  have hspared := hclean id (List.ne_nil_of_mem hheld)
  have hformula : n.IsFormula id := by
    have hfits := hwired.typed.fits h
    obtain ⟨token, listener⟩ := attached
    cases key with
    | paths => exact hfile.elim
    | node k =>
      obtain ⟨e, he, rfl⟩ := Option.map_eq_some_iff.mp htopic
      cases listener with
      | relay j =>
        obtain rfl := Option.some.inj hid
        exact hfits.resolve_right (hwired.not_aggregate_of_received hn.inv.listed he hspared hheld)
      | _ => simp [Fits, Listener.node?] at hfits hid
    | form key f p =>
      obtain ⟨e, he, rfl⟩ := Option.map_eq_some_iff.mp htopic
      have hkind := (hwired.forms key f p e he).kind
      cases listener with
      | relay j =>
        obtain rfl := Option.some.inj hid
        obtain ⟨-, hj⟩ | ⟨⟨inner, hinner⟩, -⟩ := hfits
        · exact hj
        · cases hkind.symm.trans hinner
      | _ => simp [Fits, IsFormula, Listener.node?, hkind] at hfits hid
  obtain ⟨used, hunder⟩ : ∃ used, n.Under used id := by
    obtain ⟨source, path, hkind⟩ := hformula
    obtain ⟨-, hunder⟩ | ⟨_, hkind'⟩ | ⟨key, f, p, e, he, rfl⟩ | ⟨x, hx, rfl⟩ := hwired.kind_of_spared hspared
    · exact hunder
    · cases hkind'.symm.trans hkind
    · cases (hwired.forms key f p e he).kind.symm.trans hkind
    · obtain ⟨inner, hwrapped⟩ := hn.inv.listed.wrapped hx
      cases hwrapped.symm.trans hkind
  refine ⟨used, id, hid, hunder, ?_⟩
  -- the formula listens because of what it recorded
  have hpart : ¬ ∃ l, topic = .layers l := by
    rintro ⟨l, rfl⟩
    cases key <;> simp [Registry.topic?] at htopic
  obtain ⟨recorded, hrecorded⟩ := ((hwired.traced id).noted hformula _ hheld).resolve_left hpart
  obtain hfiled | ⟨k, set, -, hset, -⟩ := (hwired.traced id).filed _ hrecorded
  · rwa [hwired.topic?_injective hn.inv.orderly htopic hfiled]
  · have hset : topic = .paths set := hset
    subst hset
    cases key with
    | paths => exact hfile.elim
    | node | form => simp [Registry.topic?] at htopic

/-- Hosts listen to what is announced to them, and the nodes that show listed totals do. -/
theorem Sane.listener_changed_spec {k : NodeKey} {e : NodeEntry N}
    (he : n.registry.stage? k = some e) {attached : Attached A}
    (h : attached ∈ n.listeners (.changed e.cached)) : attached.listener.node? = none
      ∨ ∃ x ∈ n.registry.listed, attached.listener.node? = some x.2
        ∧ k = ⟨x.1.key, .total, Path.main⟩ := by
  have hwired := hn.inv.wired
  have hstage := hwired.stages k e he
  obtain ⟨_, _, _, hcell, -⟩ := hstage.cell
  have hkind : n.kind? e.cached = some (.cached e.formula) := hstage.cached ▸ hcell.cached
  refine or_iff_not_imp_left.mpr fun hnode => ?_
  obtain ⟨id, hid⟩ := Option.ne_none_iff_exists'.mp hnode
  have hspared : n.Spared id := hclean id (List.ne_nil_of_mem
    ((hwired.ledger.balance id ⟨_, attached.token⟩).mpr ⟨attached.listener, h, hid⟩))
  have hwrapped : n.kind? id = some (.wrapped e.cached) := by
    have hfits := hwired.typed.fits h
    obtain ⟨token, listener⟩ := attached
    cases listener with
    | relay j =>
      obtain rfl := Option.some.inj hid
      obtain ⟨⟨_, _, haggregate⟩, -⟩ | ⟨-, hj⟩ := hfits
      · cases hkind.symm.trans haggregate
      · exact hj
    | _ => simp [Fits, IsFormula, Listener.node?, hkind] at hfits hid
  obtain ⟨⟨_, _, hkind'⟩, -⟩ | ⟨_, hkind'⟩ | ⟨key, f, p, e', he', rfl⟩ | ⟨x, hx, rfl⟩ :=
    hwired.kind_of_spared hspared
  · cases hkind'.symm.trans hwrapped
  · cases hkind'.symm.trans hwrapped
  · cases (hwired.forms key f p e' he').kind.symm.trans hwrapped
  · obtain ⟨e', he', hshown, -⟩ := hn.inv.listed.shows x hx
    have hinner : e'.cached = e.cached :=
      Kind.wrapped.inj (Option.some.inj (hshown.symm.trans hwrapped))
    have hcached' := (hwired.stages _ e' he').cached
    have hcached := hstage.cached
    exact ⟨x, hx, hid, hwired.stage_key_unique he he' (by omega)⟩

end Listeners

/-! ## What stays -/

/-- A stat on the list is found there. -/
theorem Lists.listed?_eq_some (h : n.Lists) {x : Stat N × Nat} (hx : x ∈ n.registry.listed)
    {stat : Stat N} (hkey : stat.key = x.1.key) : n.listed? stat = some x.2 := by
  obtain ⟨y, hy⟩ : ∃ y, n.registry.listed.find? (·.1.same stat) = some y :=
    Option.isSome_iff_exists.mp (List.find?_isSome.mpr ⟨x, hx, beq_iff_eq.mpr hkey.symm⟩)
  have hfound := List.find?_some hy
  have hstat : y.1.key = stat.key := beq_iff_eq.mp hfound
  obtain rfl : y = x :=
    List.inj_on_of_nodup_map h.nodup (List.mem_of_find?_eq_some hy) hx (hstat.trans hkey)
  exact congrArg (Option.map (·.2)) hy

theorem present_of_under {id : Nat} (h : n.Under key id) : n.Present key := by
  cases key with
  | node k => exact h.imp fun _ he => he.1
  | form key f p => exact h.imp fun _ he => he.1
  | paths => exact h.elim

theorem callbacks_ne_nil_of_host {topic : Topic} {attached : Attached A}
    (h : attached ∈ n.listeners topic) (hnode : attached.listener.node? = none) :
    n.callbacks topic ≠ [] := by
  obtain ⟨token, listener⟩ := attached
  cases listener with
  | host action => exact List.ne_nil_of_mem (mem_callbacks.mpr h)
  | _ => cases hnode

/-- What a host listens to is attended. -/
theorem attended_of_callbacks {topic : Topic} (hfile : n.Present key)
    (htopic : n.registry.topic? key = some topic) (h : n.callbacks topic ≠ []) : n.Attended key := by
  cases key with
  | node k =>
    obtain ⟨e, he, rfl⟩ := Option.map_eq_some_iff.mp htopic
    exact .node he (.inl h)
  | form key f p =>
    obtain ⟨e, he, rfl⟩ := Option.map_eq_some_iff.mp htopic
    exact .form he h
  | paths => exact hfile.elim

theorem listeners_ne_nil_of_callbacks {topic : Topic} (h : n.callbacks topic ≠ []) :
    n.listeners topic ≠ [] := by
  intro hnil
  rw [callbacks, hnil] at h
  exact h rfl

namespace Sheds

variable (h : n.Sheds n' gone)

include h

/-- What has something under it that is not shed stays on file. -/
theorem present_of_under {id : Nat} (hunder : n.Under key id) (hid : id ∉ gone) : n'.Present key := by
  cases key with
  | node k =>
    obtain ⟨e, he, rfl⟩ := hunder
    exact ⟨e, (h.stage k e).mpr ⟨he, hid⟩⟩
  | form key f p =>
    obtain ⟨e, he, hmem⟩ := hunder
    refine ⟨e, (h.form key f p e).mpr ⟨he, fun hgone => ?_⟩⟩
    rw [(h.unused key f p e he hgone).1] at hmem
    cases hmem
  | paths => exact hunder.elim

/-- What is under a key that stays on file is not shed. -/
theorem not_gone_of_present {id : Nat} (hfile : n'.Present key) (hunder : n.Under key id) : id ∉ gone := by
  cases key with
  | node k =>
    obtain ⟨e, he⟩ := hfile
    obtain ⟨e', he', rfl⟩ := hunder
    obtain ⟨heq, hstays⟩ := (h.stage k e).mp he
    obtain rfl := Option.some.inj (heq.symm.trans he')
    exact hstays
  | form key f p =>
    obtain ⟨e, he, hmem⟩ := hunder
    obtain ⟨i, hi, heq⟩ := List.mem_map.mp hmem
    exact fun hgone => h.member key f p e he i hi _ hgone heq.symm
  | paths => exact hunder.elim

/-- What is listened to stays on file. -/
theorem present_of_listener {topic : Topic} (hfile : n.Present key)
    (htopic : n.registry.topic? key = some topic) (hheard : n'.listeners topic ≠ []) : n'.Present key := by
  cases key with
  | node k =>
    obtain ⟨e, he, rfl⟩ := Option.map_eq_some_iff.mp htopic
    exact ⟨e, (h.stage k e).mpr ⟨he, fun hgone => hheard (h.unheard k e he hgone).1⟩⟩
  | form key f p =>
    obtain ⟨e, he, rfl⟩ := Option.map_eq_some_iff.mp htopic
    exact ⟨e, (h.form key f p e).mpr ⟨he, fun hgone => hheard (h.unused key f p e he hgone).2⟩⟩
  | paths => exact hfile.elim

/-- What is on file was on file. -/
theorem present (hfile : n'.Present key) : n.Present key := by
  cases key with
  | node k => exact hfile.imp fun e he => ((h.stage k e).mp he).1
  | form key f p => exact hfile.imp fun e he => ((h.form key f p e).mp he).1
  | paths => exact hfile.elim

/-- Where nothing is unused, nothing of a stat that had no modifiers is. -/
theorem tidyAt (htidy : n'.Tidy) {key : StatKey} (hbusy : ¬ n.Busy key) {g : Subgraph N}
    (hg : n'.registry.graph? key = some g) : n'.TidyAt g := by
  obtain ⟨id, hid, hgraph⟩ := Registry.graph?_eq_some_iff.mp hg
  obtain ⟨g₀, hg₀, -, -, hcount⟩ := h.graph key g hg
  refine htidy id (Registry.graphId?_spec hid).1 g hgraph (Nat.eq_zero_of_not_pos fun hpos => ?_)
  exact hbusy ⟨g₀, hg₀, hcount ▸ hpos⟩

theorem mem_listed {x : Stat N × Nat} (hx : x ∈ n.registry.listed) (hid : x.2 ∉ gone) :
    x ∈ n'.registry.listed := by
  rw [h.listed]
  exact List.mem_filter.mpr ⟨hx, decide_eq_true hid⟩

/-- Roots stay on file. -/
theorem present_of_isRoot (hlisted : n'.Lists) (hcallbacks : ∀ t, n'.callbacks t = n.callbacks t)
    (hroot : n.IsRoot key) : n'.Present key := by
  have hheard {t : Topic} (ht : n.callbacks t ≠ []) : n'.listeners t ≠ [] :=
    listeners_ne_nil_of_callbacks (hcallbacks t ▸ ht)
  obtain hattended | ⟨hfile, g, hg, hcount⟩ := hroot
  · cases hattended with
    | @node k e he hhost =>
      refine ⟨e, (h.stage k e).mpr ⟨he, fun hgone => ?_⟩⟩
      obtain ⟨hreceived, hchanged⟩ := h.unheard k e he hgone
      exact hhost.elim (fun hhost => hheard hhost hreceived) fun hhost => hheard hhost hchanged
    | @form key f p e he hhost =>
      exact ⟨e, (h.form key f p e).mpr ⟨he, fun hgone => hheard hhost (h.unused key f p e he hgone).2⟩⟩
    | @listed x hx hhost =>
      have hstays := h.mem_listed hx fun hgone => hheard hhost (h.unshown x hx hgone).1
      exact (hlisted.shows x hstays).imp fun _ he => he.1
  · have hsame : n'.registry.graph? key.stat = n.registry.graph? key.stat :=
      (h.busy _ g hg hcount).trans hg.symm
    cases key with
    | node k =>
      refine hfile.imp fun e he => ?_
      rw [Registry.stage?, show n'.registry.graph? k.stat = _ from hsame]
      exact he
    | form key f p =>
      refine hfile.imp fun e he => ?_
      rw [Registry.form?, show n'.registry.graph? key = _ from hsame]
      exact he
    | paths => exact hfile.elim

end Sheds

variable [Number N]

/-- What is needed stays on file. -/
theorem Sane.remains_of_needed (hn : n.Sane sc) (h : n.Sheds n' gone) (hlisted : n'.Lists)
    (hcallbacks : ∀ t, n'.callbacks t = n.callbacks t) (hfile : n.Present key) (hneeded : n.Needed key) :
    n'.Present key := by
  obtain ⟨root, hroot, hpath⟩ := hneeded
  induction hpath with
  | refl => exact h.present_of_isRoot hlisted hcallbacks hroot
  | @tail user used _ hused ih =>
    obtain ⟨id, s, hunder, hrecorded⟩ := hn.dependsOn_iff.mp hused
    have hstays := h.not_gone_of_present (ih (present_of_under hunder)) hunder
    obtain ⟨listener, hlistener, hnode, -⟩ :=
      hn.inv.wired.listener_of_held (mem_held_of_recorded hrecorded)
    have hlistener' := h.mem_listeners_iff.mpr ⟨hlistener, fun i hi heq => by
      rw [hnode] at heq
      exact hstays (Option.some.inj heq ▸ hi)⟩
    refine h.present_of_listener hfile ?_ (List.ne_nil_of_mem hlistener')
    refine ((hn.inv.wired.traced id).filed _ hrecorded).resolve_right ?_
    rintro ⟨k, set, rfl, -⟩
    exact hfile

/-- Collections of stats without modifiers are empty. -/
theorem Sane.items_eq_nil (hn : n.Sane sc) {key : StatKey} (hbusy : ¬ n.Busy key) {f : Form} {p : PathKey}
    {e : FormEntry N} (he : n.registry.form? key f p = some e) :
    n.registry.items e.collection = [] := by
  obtain ⟨g, hg, hfind⟩ := Registry.form?_eq_some_iff.mp he
  have hinUse : g ∈ n.inUse := (mem_inUse_iff hn.inv.orderly).mpr (Registry.stat_key hg ▸ hg)
  have hmodifiers := (hn.books.balanced.balances g hinUse).modifiers
  have hcount : g.modifierCount = 0 := Nat.eq_zero_of_not_pos fun hpos => hbusy ⟨g, hg, hpos⟩
  have hzero := List.sum_eq_zero_iff_forall_eq_nat.mp (hmodifiers.symm.trans hcount) _
    (List.mem_map_of_mem (List.mem_of_find?_eq_some hfind))
  exact List.length_eq_zero_iff.mp hzero

/-- A total that someone listens to is attended, if it is listed for someone. -/
theorem Sane.attended_of_listener (hn : n.Sane sc) (hclean : n.Clean) (h : n.Sheds n' gone)
    (hlisted : n'.Lists) (htidy : n'.Tidy) {k : NodeKey} (hbusy : ¬ n.Busy k.stat) {e : NodeEntry N}
    (he : n.registry.stage? k = some e) (hheard : n'.listeners (.changed e.cached) ≠ []) :
    n.Attended (.node k) := by
  obtain ⟨attached, hattached⟩ := List.exists_mem_of_ne_nil _ hheard
  obtain ⟨hattached, hstays⟩ := h.mem_listeners_iff.mp hattached
  obtain hhost | ⟨x, hx, hnode, rfl⟩ := hn.listener_changed_spec hclean he hattached
  · exact .node he (.inr (callbacks_ne_nil_of_host hattached hhost))
  · -- a stat that is still listed has a host that listens to its total
    have hx' := h.mem_listed hx fun hgone => hstays _ hgone hnode
    obtain ⟨e', he', -⟩ := hlisted.shows x hx'
    obtain ⟨g, hg, -⟩ := Registry.stage?_eq_some_iff.mp he'
    have hlistens := (h.tidyAt htidy hbusy hg).listed x.2
      (hlisted.listed?_eq_some hx' (Registry.stat_key hg))
    obtain ⟨shown, hshown⟩ := List.exists_mem_of_ne_nil _ hlistens
    have hshown := (h.mem_listeners_iff.mp hshown).1
    obtain ⟨inner, hwrapped⟩ := hn.inv.listed.wrapped hx
    exact .listed hx (callbacks_ne_nil_of_host hshown
      (hn.inv.wired.typed.listeners_wrapped hwrapped shown hshown))

/-- What stays on file is needed. -/
theorem Sane.needed_of_remains (hn : n.Sane sc) (hclean : n.Clean) (hacyclic : n.wiring.Acyclic)
    (h : n.Sheds n' gone) (hlisted : n'.Lists) (htidy : n'.Tidy) (hfile : n'.Present key) :
    n.Needed key := by
  induction key using (sound_wiring n).dependents_induction hacyclic with
  | hstep key ih =>
  have hfiled := h.present hfile
  by_cases hbusy : n.Busy key.stat
  · exact IsRoot.needed (.inr ⟨hfiled, hbusy⟩)
  have hheard {topic : Topic} (htopic : n.registry.topic? key = some topic)
      (hlisteners : n'.listeners topic ≠ []) : n.Needed key := by
    obtain ⟨attached, hattached⟩ := List.exists_mem_of_ne_nil _ hlisteners
    obtain ⟨hattached, hstays⟩ := h.mem_listeners_iff.mp hattached
    obtain hhost | ⟨user, id, hid, hunder, hrecorded⟩ := hn.listener_spec hclean hfiled htopic hattached
    · exact IsRoot.needed (.inl (attended_of_callbacks hfiled htopic
        (callbacks_ne_nil_of_host hattached hhost)))
    · have hused : n.wiring.DependsOn user key := hn.dependsOn_iff.mpr ⟨id, _, hunder, hrecorded⟩
      exact (ih user hused (h.present_of_under hunder fun hgone => hstays id hgone hid)).tail hused
  cases key with
  | node k =>
    obtain ⟨e, he⟩ := hfile
    obtain ⟨g, hg, hfind⟩ := Registry.stage?_eq_some_iff.mp he
    have he₀ := ((h.stage k e).mp he).1
    obtain hreceived | hchanged := (h.tidyAt htidy hbusy hg).nodes e (List.mem_of_find?_eq_some hfind)
    · exact hheard (congrArg (Option.map _) he₀) hreceived
    · exact IsRoot.needed (.inl (hn.attended_of_listener hclean h hlisted htidy hbusy he₀ hchanged))
  | form key f p =>
    obtain ⟨e, he⟩ := hfile
    obtain ⟨g, hg, hfind⟩ := Registry.form?_eq_some_iff.mp he
    have he₀ := ((h.form key f p e).mp he).1
    obtain hitems | hchanged := (h.tidyAt htidy hbusy hg).forms e (List.mem_of_find?_eq_some hfind)
    · rw [h.items] at hitems
      exact absurd (hn.items_eq_nil hbusy he₀) hitems
    · exact hheard (congrArg (Option.map _) he₀) hchanged
  | paths => exact hfile.elim

/-! ## What is collected -/

/-- All that is not needed of stats without modifiers is off file, and nothing else. Stats stay of which
something is left. -/
structure Collects (n n' : Network N A σ) : Prop where
  nodes : ∀ k e, ¬ n.Busy k.stat →
    (n'.registry.stage? k = some e ↔ n.registry.stage? k = some e ∧ n.Needed (.node k))
  forms : ∀ key f p e, ¬ n.Busy key →
    (n'.registry.form? key f p = some e ↔ n.registry.form? key f p = some e ∧ n.Needed (.form key f p))
  busy : ∀ key g, n.registry.graph? key = some g → 0 < g.modifierCount → n'.registry.graph? key = some g
  items : n'.registry.items = n.registry.items
  paths : ∀ key, n.Busy key → n'.registry.paths key = n.registry.paths key
  listed : ∀ x ∈ n.registry.listed, n.Busy x.1.key → x ∈ n'.registry.listed
  stats : ∀ stat, (∃ g, n'.registry.graph? stat = some g)
    ↔ ∃ key : DependencyKey, key.stat = stat ∧ n'.Present key

/-- The paths of a stat that stays as it is are used as before. -/
theorem Sane.paths_eq (hn : n.Sane sc) (hn' : n'.Sane sc) {key : StatKey} {g : Subgraph N}
    (hg : n.registry.graph? key = some g) (hg' : n'.registry.graph? key = some g)
    (hpaths : (n'.registry.paths key).Sublist (n.registry.paths key)) :
    n'.registry.paths key = n.registry.paths key := by
  have hbalances {m : Network N A σ} (hm : m.Sane sc) (hg : m.registry.graph? key = some g) :
      m.books.Balances g :=
    hm.books.balanced.balances g ((mem_inUse_iff hm.inv.orderly).mpr (Registry.stat_key hg ▸ hg))
  have hcounted {m : Network N A σ} (hm : m.Sane sc) (hg : m.registry.graph? key = some g) (p : PathKey) :
      p ∈ (m.registry.paths key).map Path.key ↔ 0 < g.uses p := by
    obtain ⟨-, hsound, hcount, -⟩ := hbalances hm hg
    rw [← hcount p, hsound.count_pos_iff, Registry.paths_eq hg, List.map_map]
    rfl
  have hkeys : (n.registry.paths key).map Path.key ⊆ (n'.registry.paths key).map Path.key := fun p hp =>
    (hcounted hn' hg' p).mpr ((hcounted hn hg p).mp hp)
  refine hpaths.eq_of_length_le ?_
  simpa using (hn.inv.orderly.paths_nodup key).length_le_of_subset hkeys

/-- Removing what is unused collects just what is not needed, if nothing is attached that is not on file and
dependencies have no circles. -/
theorem Sane.collects (hn : n.Sane sc) (hclean : n.Clean) (hacyclic : n.wiring.Acyclic)
    (h : n.Sheds n' gone) (hn' : n'.Sane sc) (hcallbacks : ∀ t, n'.callbacks t = n.callbacks t)
    (hpaths : ∀ key, (n'.registry.paths key).Sublist (n.registry.paths key)) (htidy : n'.Tidy) :
    n.Collects n' where
  nodes k e _ := by
    refine ⟨fun he => ⟨((h.stage k e).mp he).1, ?_⟩, fun ⟨he, hneeded⟩ => ?_⟩
    · have hfile : n'.Present (.node k) := ⟨e, he⟩
      exact hn.needed_of_remains hclean hacyclic h hn'.inv.listed htidy hfile
    · have hfile : n.Present (.node k) := ⟨e, he⟩
      obtain ⟨e', he'⟩ := hn.remains_of_needed h hn'.inv.listed hcallbacks hfile hneeded
      obtain rfl := Option.some.inj (he.symm.trans ((h.stage k e').mp he').1)
      exact he'
  forms key f p e _ := by
    refine ⟨fun he => ⟨((h.form key f p e).mp he).1, ?_⟩, fun ⟨he, hneeded⟩ => ?_⟩
    · have hfile : n'.Present (.form key f p) := ⟨e, he⟩
      exact hn.needed_of_remains hclean hacyclic h hn'.inv.listed htidy hfile
    · have hfile : n.Present (.form key f p) := ⟨e, he⟩
      obtain ⟨e', he'⟩ := hn.remains_of_needed h hn'.inv.listed hcallbacks hfile hneeded
      obtain rfl := Option.some.inj (he.symm.trans ((h.form key f p e').mp he').1)
      exact he'
  busy := h.busy
  items := h.items
  paths key := fun ⟨g, hg, hcount⟩ => hn.paths_eq hn' hg (h.busy key g hg hcount) (hpaths key)
  listed x hx := fun ⟨g, hg, hcount⟩ => h.mem_listed hx fun hgone =>
    hcount.ne' ((h.unshown x hx hgone).2 g hg)
  stats stat := by
    have ho := hn'.inv.orderly
    constructor
    · rintro ⟨g, hg⟩
      have hsome : g.nodes ≠ [] ∨ g.forms ≠ [] := by
        by_cases hbusy : n.Busy stat
        · obtain ⟨g₀, hg₀, hpos⟩ := hbusy
          obtain rfl := Option.some.inj ((h.busy stat g₀ hg₀ hpos).symm.trans hg)
          -- modifiers are in collections
          have hinUse : g₀ ∈ n.inUse := (mem_inUse_iff hn.inv.orderly).mpr (Registry.stat_key hg₀ ▸ hg₀)
          have hmodifiers := (hn.books.balanced.balances g₀ hinUse).modifiers
          refine .inr fun hnil => ?_
          rw [hnil] at hmodifiers
          exact hpos.ne' hmodifiers
        · exact (h.tidyAt htidy hbusy hg).nonempty
      obtain hnodes | hforms := hsome
      · obtain ⟨e, he⟩ := List.exists_mem_of_ne_nil _ hnodes
        exact ⟨.node ⟨stat, e.stage, e.path.key⟩, rfl, e, ho.nodes_found stat g hg e he⟩
      · obtain ⟨e, he⟩ := List.exists_mem_of_ne_nil _ hforms
        exact ⟨.form stat e.form e.path.key, rfl, e, ho.forms_found stat g hg e he⟩
    · rintro ⟨key, rfl, hfile⟩
      cases key with
      | node k =>
        obtain ⟨e, he⟩ := hfile
        exact (Registry.stage?_eq_some_iff.mp he).imp fun _ hg => hg.1
      | form key f p =>
        obtain ⟨e, he⟩ := hfile
        exact (Registry.form?_eq_some_iff.mp he).imp fun _ hg => hg.1
      | paths => exact hfile.elim

/-- Without modifiers and without listening hosts nothing is left. -/
theorem Collects.empty (h : n.Collects n') (hn' : n'.Rests sc) (hbusy : ∀ key, ¬ n.Busy key)
    (hcallbacks : ∀ t, n.callbacks t = []) :
    n'.live = [] ∧ n'.installed = [] ∧ n'.listing.entries = [] := by
  have hneeded (key : DependencyKey) : ¬ n.Needed key := by
    rintro ⟨root, hattended | ⟨-, hroot⟩, -⟩
    · cases hattended with
      | node _ hhost => exact hhost.elim (· (hcallbacks _)) (· (hcallbacks _))
      | form _ hhost | listed _ hhost => exact hhost (hcallbacks _)
    · exact hbusy _ hroot
  have hfile (key : DependencyKey) : ¬ n'.Present key := by
    cases key with
    | node k => exact fun ⟨e, he⟩ => hneeded _ ((h.nodes k e (hbusy _)).mp he).2
    | form key f p => exact fun ⟨e, he⟩ => hneeded _ ((h.forms key f p e (hbusy _)).mp he).2
    | paths => exact id
  have hlive : n'.live = [] := by
    refine List.eq_nil_iff_forall_not_mem.mpr fun id hid => ?_
    obtain ⟨g, hg, hkey⟩ := hn'.inv.orderly.live_found id hid
    obtain ⟨key, -, hkey⟩ := (h.stats g.stat.key).mp
      ⟨g, Registry.graph?_eq_some_iff.mpr ⟨id, hkey, hg⟩⟩
    exact hfile key hkey
  refine ⟨hlive, hn'.installed_eq_nil fun g hg => ?_, List.eq_nil_iff_forall_not_mem.mpr fun x hx => ?_⟩
  · rw [inUse, hlive] at hg
    cases hg
  · obtain ⟨e, he, -⟩ := hn'.inv.listed.shows x hx
    exact hfile (.node ⟨x.1.key, .total, Path.main⟩) ⟨e, he⟩

end Network

namespace Calculator

variable {N A σ : Type} [Number N]

/-- A network between two calls, when what nothing owns is gone: hosts hold nothing but what is in use. -/
def Quiescent (host : Host N A σ) (m : Network N A σ) : Prop :=
  ∃ n held, Visited host n ∧ (∀ id ∈ held, id ∈ n.roots) ∧ Network.sweep held n = some (⟨⟩, m)

/-- Removing what is unused between two calls leaves what is needed of stats without modifiers, and all of
stats with modifiers. After that there is nothing to remove, and without modifiers and listening hosts
nothing is left. -/
theorem Quiescent.prune_collects {host : Host N A σ} {tell : A → σ → σ} (hhost : host.Aloof tell)
    {m : Network N A σ} (hm : Quiescent host m) (hacyclic : m.wiring.Acyclic) :
    ∃ count n', removeUnused host m = some (count, n') ∧ m.Collects n'
      ∧ removeUnused host n' = some (0, n')
      ∧ ((∀ key, ¬ m.Busy key) → (∀ t, m.callbacks t = []) →
        n'.live = [] ∧ n'.installed = [] ∧ n'.listing.entries = []) := by
  obtain ⟨n, held, hvisited, hheld, hsweep⟩ := hm
  have hn := hvisited.rests hhost
  have hclean := hn.clean_of_sweep hheld hsweep
  have hm := ((hn.leads_sweep held).partly hsweep).1
  have hprune := leads_removeUnused hhost.toQuiet hm.inv hm.idle
  obtain ⟨count, n', hrun, ⟨hinv, htrims, htidy⟩, hbooks⟩ :=
    (hprune.and (hm.books.removeUnused hhost.harmless)).exists_eq
  have hn' : n'.Rests .free := hm.of_proceeds htrims.changes.toProceeds hinv hbooks
  obtain ⟨gone, hsheds⟩ := htrims.sheds
  have hcollects := hm.sane.collects hclean hacyclic hsheds hn'.sane htrims.changes.callbacks htrims.paths
    htidy
  exact ⟨count, n', hrun, hcollects, htidy.removeUnused_eq host, hcollects.empty hn'⟩

/-- A host can get to wherever calls that are always sound lead. -/
theorem Visited.runs {host : Host N A σ} {calls : List (Call N A)} {n n' : Network N A σ}
    (h : Visited host n) (hsound : ∀ call ∈ calls, ∀ n : Network N A σ, call.Sound n)
    (hrun : Calculator.runs host calls n = some (⟨⟩, n')) : Visited host n' :=
  (leads_runs (b := False) (I := Visited host) (fun call hcall n hn =>
    ⟨False.elim, fun hrun => hn.call (hsound call hcall n) hrun⟩) h).partly hrun

/-- What a modifier of mana reads of life is kept, and what was read of rage is not. -/
theorem needed_by_a_modifier : ∃ (life rage : NodeKey) (m n' : Network Float Unit Unit) (count : Nat),
    Quiescent Host.idle m ∧ m.wiring.Acyclic ∧ m.Present (.node life) ∧ m.Present (.node rage)
      ∧ removeUnused Host.idle m = some (count, n') ∧ m.Collects n'
      ∧ removeUnused Host.idle n' = some (0, n') ∧ n'.Present (.node life) ∧ ¬ n'.Present (.node rage) := by
  let stat (id : String) : Stat Float := ⟨⟨id, .character⟩, none, none, .double, true, []⟩
  let life : NodeKey := ⟨⟨"Life", .character⟩, .total, Path.main⟩
  let rage : NodeKey := ⟨⟨"Rage", .character⟩, .base, Path.main⟩
  let modifier : Modifier Float := ⟨[stat "Mana"], .baseAdd, .total (stat "Life"), 0, ⟨.global, ""⟩⟩
  let calls : List (Call Float Unit) :=
    [.add modifier, .form (stat "Mana") .baseAdd Path.main, .value (stat "Rage") .base Path.main]
  let found (n : Network Float Unit Unit) (k : NodeKey) : Bool := (n.registry.stage? k).isSome
  let facts (m : Network Float Unit Unit) : Bool :=
    m.wiring.findCycle?.isNone && found m life && found m rage
      && (removeUnused Host.idle m).all fun r => found r.2 life && !found r.2 rage
  have hfacts : ((Calculator.runs Host.idle calls (start .standard none ())).bind fun r =>
      (Network.sweep [] r.2).map fun r => facts r.2) = some true := by
    decide +kernel
  obtain ⟨⟨_, n⟩, hruns, hfacts⟩ := Option.bind_eq_some_iff.mp hfacts
  obtain ⟨⟨_, m⟩, hsweep, hfacts⟩ := Option.map_eq_some_iff.mp hfacts
  have hvisited : Visited Host.idle n := (Visited.start .standard none ()).runs (fun call hcall n => by
    obtain rfl | rfl | rfl : call = _ ∨ call = _ ∨ call = _ := by simpa [calls] using hcall
    all_goals trivial) hruns
  have hquiescent : Quiescent Host.idle m := ⟨n, [], hvisited, by simp, hsweep⟩
  simp only [facts, found, Bool.and_eq_true, Option.isNone_iff_eq_none, Option.isSome_iff_exists] at hfacts
  obtain ⟨⟨⟨hnone, hlife⟩, hrage⟩, hleft⟩ := hfacts
  have hacyclic := (sound_wiring m).findCycle?_eq_none_iff.mp hnone
  obtain ⟨count, n', hprune, hcollects, hagain, -⟩ :=
    hquiescent.prune_collects Host.aloof_idle hacyclic
  obtain ⟨hstays, hgone⟩ : (∃ e, n'.registry.stage? life = some e) ∧ n'.registry.stage? rage = none := by
    simpa [hprune, Option.isSome_iff_exists] using hleft
  refine ⟨life, rage, m, n', count, hquiescent, hacyclic, hlife, hrage, hprune, hcollects, hagain, hstays,
    fun ⟨e, he⟩ => ?_⟩
  cases hgone.symm.trans he

end Calculator

end StatEngine
