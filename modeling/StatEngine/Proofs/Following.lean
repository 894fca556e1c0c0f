import StatEngine.Proofs.Aside
import StatEngine.Proofs.Coalescing
import StatEngine.Proofs.Roaming

/-!
# Nodes that follow a collection

Members are added to a collection, removed from it, and all cleared, in any order and as often as one
likes (`Change`), while the network around it does what it does (`Course`). A node that is made over the
collection at some point tracks it from then on (`Tracks`).

## Main definitions

* `Change` and `Course`: what becomes of a collection;
* `Tracks`: what there is to say of a node that follows a collection.

## Main statements

* `Change.run_eq`: a change is announced once, after it was made;
* `Course.attends`: a node that attends a collection does so whatever becomes of it;
* `Attends.exists_runs_told`: hosts that listen to the node are told of each change once;
* `Attends.tracks`: a node that attends a collection tracks it;
* `aggregate_tracks_collection`: a node tracks the collection it is made over;
* `tracks_of_visited`: so do the nodes on file, whatever a host did.
-/

namespace StatEngine.Network

variable {N A σ : Type} {n n' n'' : Network N A σ} {a b c m : Nat} {nodes : List Nat} {t : Topic}
  {host : Host N A σ}

/-! ## Changes of a collection -/

theorem SameNodes.attends (h : n.SameNodes n') (ha : n.Attends c nodes a) : n'.Attends c nodes a :=
  ha.congr (fun _ => (h.kind a).trans) (h.there a ha.present) (held_of_view (h.view a))
    (followed_of_view (h.view a)) (fun d _ => by rw [changeTopic, h.nodes, changeTopic])
    fun t => listenersOf_congr (h.listeners t)

/-- A change of the members of a collection. -/
inductive Change (N : Type) where
  /-- A node is added for a modifier. -/
  | add (node : Nat) (modifier : Modifier N)
  /-- The first node for a modifier is removed. -/
  | remove (modifier : Modifier N)
  /-- All nodes are removed. -/
  | clear

namespace Change

/-- The members of a collection after a change. -/
def apply : Change N → List (Nat × Modifier N) → List (Nat × Modifier N)
  | .add node modifier, items => items ++ [(node, modifier)]
  | .remove modifier, items => items.eraseP (·.2.same modifier)
  | .clear, _ => []

/-- What is announced of a change. To remove a modifier that is not there is no change. -/
def signal? : Change N → List (Nat × Modifier N) → Option (Signal N)
  | .add node _, _ => some (.added node)
  | .remove modifier, items => (items.find? (·.2.same modifier)).map fun i => .removed i.1
  | .clear, _ => some .reset

/-- Make a change. -/
def run (host : Host N A σ) (c : Nat) : Change N → Run N A σ Unit
  | .add node modifier => addMember host c node modifier
  | .remove modifier => do let _ ← removeMember host c modifier
  | .clear => do let _ ← clearMembers host c

/-- A node that is added can be followed. -/
def Sound (n : Network N A σ) : Change N → Prop
  | .add node _ => n.CanBeFollowed node
  | _ => True

variable {change : Change N} {items : List (Nat × Modifier N)} {signal : Signal N}

/-- What is announced of a change is how the members change. -/
theorem turns (h : change.signal? items = some signal) :
    signal.Turns (items.map (·.1)) ((change.apply items).map (·.1)) := by
  cases change with
  | add node modifier =>
    cases h
    rw [apply, List.map_append]
    exact List.perm_append_singleton node _
  | remove modifier =>
    obtain ⟨i, hi, rfl⟩ := Option.map_eq_some_iff.mp h
    exact (perm_cons_eraseP hi).map _
  | clear =>
    cases h
    trivial

theorem apply_eq_self (h : change.signal? items = none) : change.apply items = items := by
  cases change with
  | remove modifier =>
    have hnone := List.find?_eq_none.mp (Option.map_eq_none_iff.mp h)
    exact List.eraseP_of_forall_not fun i hi => by simpa using hnone i hi
  | _ => cases h

theorem mem_of_added (h : change.signal? items = some signal) (m : Nat) (hm : signal = .added m) :
    m ∈ (change.apply items).map (·.1) := by
  subst hm
  exact (turns h).mem_iff.mpr List.mem_cons_self

/-- Whoever is a member after a change was one before it, or is added. -/
theorem forall_apply {P : Nat → Prop} (hadd : ∀ m modifier, change = .add m modifier → P m)
    (h : ∀ m ∈ items.map (·.1), P m) : ∀ m ∈ (change.apply items).map (·.1), P m := by
  intro m hm
  cases change with
  | add node modifier =>
    rw [apply, List.map_append, List.mem_append] at hm
    obtain hm | hm := hm
    · exact h m hm
    · exact List.mem_singleton.mp hm ▸ hadd node modifier rfl
  | remove modifier =>
    obtain ⟨i, hi, rfl⟩ := List.mem_map.mp hm
    exact h _ (List.mem_map_of_mem (List.mem_of_mem_eraseP hi))
  | clear => cases hm

theorem canBeFollowed (hsound : change.Sound n) (h : ∀ m ∈ items.map (·.1), n.CanBeFollowed m) :
    ∀ m ∈ (change.apply items).map (·.1), n.CanBeFollowed m :=
  forall_apply (fun m modifier hchange => by subst hchange; exact hsound) h

end Change

/-- The network with a collection changed, before that is announced. -/
def altered (n : Network N A σ) (c : Nat) (change : Change N) : Network N A σ :=
  n.modifyCollection c fun x => { x with items := change.apply x.items }

section Altered

variable {change : Change N}

theorem sameNodes_altered (n : Network N A σ) (c : Nat) (change : Change N) :
    n.SameNodes (n.altered c change) := n.sameNodes_modifyCollection c fun _ => rfl

theorem items_altered (hc : n.hasTopic (.members c)) :
    (n.altered c change).registry.items c = change.apply (n.registry.items c) := by
  rw [altered, registry_modifyCollection hc (g := change.apply) fun _ => rfl,
    Registry.items_withItems_self]

theorem memberNodes_altered (hc : n.hasTopic (.members c)) (change : Change N) :
    (n.altered c change).memberNodes c = (change.apply (n.registry.items c)).map (·.1) := by
  rw [memberNodes_eq, items_altered hc]

theorem turns_altered {signal : Signal N} (hc : n.hasTopic (.members c))
    (h : change.signal? (n.registry.items c) = some signal) :
    signal.Turns (n.memberNodes c) ((n.altered c change).memberNodes c) := by
  rw [memberNodes_eq, memberNodes_altered hc]
  exact Change.turns h

theorem mem_altered_of_added {signal : Signal N} (hc : n.hasTopic (.members c))
    (h : change.signal? (n.registry.items c) = some signal) (m : Nat) (hm : signal = .added m) :
    m ∈ (n.altered c change).memberNodes c := by
  rw [memberNodes_altered hc]
  exact Change.mem_of_added h m hm

/-- A collection that is changed can be followed. -/
theorem Followable.altered (h : n.Followable c) (hsound : change.Sound n) :
    (n.altered c change).Followable c := by
  have hs := n.sameNodes_altered c change
  have hkind : ∀ i kind, n.kind? i = some kind → (n.altered c change).kind? i = some kind :=
    fun i _ hi => (hs.kind i).trans hi
  refine ⟨hs.ledger h.ledger, hs.topic _ h.topic, fun m hm => ?_, fun attached hattached b hb => ?_⟩
  · rw [memberNodes_altered h.topic] at hm
    have hmembers := h.members
    rw [memberNodes_eq] at hmembers
    exact ((Change.canBeFollowed hsound hmembers m hm).of_kind hkind).2
  · rw [hs.listeners] at hattached
    exact (h.followers attached hattached b hb).imp fun _ => hkind _ _

/-- To change a collection is to announce what changed, once, after it did. -/
theorem Change.run_eq (host : Host N A σ) (hc : n.hasTopic (.members c)) (change : Change N) :
    change.run host c n = match change.signal? (n.registry.items c) with
      | none => some (⟨⟩, n)
      | some signal => emit host (.members c) signal (n.altered c change) := by
  cases change with
  | add node modifier =>
    rw [run, addMember, modify_bind_apply]
    rfl
  | clear =>
    rw [run]
    simp only [clearMembers, bind_assoc, pure_bind, bind_pure_unit]
    rw [get_bind_apply, modify_bind_apply]
    rfl
  | remove modifier =>
    have hlt : c < n.collections.size := hc
    have hcollection : n.collections[c]? = some n.collections[c] := Array.getElem?_eq_getElem hlt
    have hitems : n.registry.items c = n.collections[c].items := by
      change (n.collections[c]?.map (·.items)).getD [] = _
      rw [hcollection]
      rfl
    rw [hitems, run, signal?, removeMember, bind_assoc, get_bind_apply, hcollection, Option.bind_some]
    cases hfind : n.collections[c].items.find? (·.2.same modifier) with
    | none => rfl
    | some i =>
      simp only [bind_assoc, pure_bind, bind_pure_unit]
      rw [modify_bind_apply]
      rfl

end Altered

/-! ## Histories -/

/-- A run of changes, while the network does what it does and leaves the collection and a node alone. -/
inductive Course (host : Host N A σ) (c a : Nat) (n : Network N A σ) :
    List (Change N) → Network N A σ → Prop where
  | start : Course host c a n [] n
  | aside {changes : List (Change N)} {m m' : Network N A σ} (h : Course host c a n changes m)
      (haside : m.Aside c a m') : Course host c a n changes m'
  | change {changes : List (Change N)} {change : Change N} {m m' : Network N A σ}
      (h : Course host c a n changes m) (hsound : change.Sound m)
      (hrun : change.run host c m = some (⟨⟩, m')) : Course host c a n (changes ++ [change]) m'

/-- What is announced of several changes. -/
def Change.announcements : List (Change N) → List (Nat × Modifier N) → List (Signal N)
  | [], _ => []
  | change :: changes, items =>
    (change.signal? items).toList ++ announcements changes (change.apply items)

/-- The members of a collection after several changes. -/
def Change.applyAll (changes : List (Change N)) (items : List (Nat × Modifier N)) :
    List (Nat × Modifier N) :=
  changes.foldl (fun items change => change.apply items) items

section Runs

variable {change : Change N} {changes : List (Change N)} (hhost : host.StandsAside c a)
  (hn : n.Followable c)
include hn

/-- A change leads to what its announcement leads to, if there is anything to announce. -/
theorem Change.leads_run {post : Network N A σ → Prop}
    (hskip : change.signal? (n.registry.items c) = none → post n)
    (hemit : ∀ signal, change.signal? (n.registry.items c) = some signal →
      (∀ m, signal = .added m → m ∈ (n.altered c change).memberNodes c) →
      Leads False (emit host (.members c) signal) (n.altered c change) fun _ => post) :
    Leads False (change.run host c) n fun _ => post := by
  have hrun := change.run_eq host hn.topic
  cases hsignal : change.signal? (n.registry.items c) with
  | none =>
    rw [hsignal] at hrun
    exact .of_eq hrun (hskip hsignal)
  | some signal =>
    rw [hsignal] at hrun
    exact (hemit signal hsignal (mem_altered_of_added hn.topic hsignal)).congr hrun

include hhost

/-- A change does to the members of a collection what it says. -/
theorem Change.leads_apply (hsound : change.Sound n) : Leads False (change.run host c) n fun _ n' =>
    n'.Followable c ∧ (∀ i kind, n.kind? i = some kind → n'.kind? i = some kind)
      ∧ n'.registry.items c = change.apply (n.registry.items c) := by
  refine Change.leads_run hn (fun hskip => ⟨hn, fun _ _ => id, (apply_eq_self hskip).symm⟩)
    fun signal _ hadded => .get_bind ?_
  have hs := n.sameNodes_altered c change
  have hn' := hn.altered hsound
  refine (leads_raise_members hhost hn' hadded _).weaken fun _ n' h => ⟨h.followable hn',
    fun i kind hi => h.kind i kind ((hs.kind i).trans hi), h.items.trans (items_altered hn.topic)⟩

/-- A node that attends a collection attends it after a change. -/
theorem Attends.leads_change (h : n.Attends c (n.memberNodes c) a) (hsound : change.Sound n) :
    Leads False (change.run host c) n fun _ n' => n'.Attends c (n'.memberNodes c) a := by
  refine Change.leads_run hn (fun _ => h) fun signal hsignal hadded => .get_bind ?_
  have hn' := hn.altered hsound
  have hattends := (n.sameNodes_altered c change).attends h
  have hraise := hattends.leads_raise_members hhost hn' hadded (turns_altered hn.topic hsignal)
  refine ((Network.leads_raise_members hhost hn' hadded _).and (hraise _)).weaken ?_
  rintro _ n'' ⟨hupholds, hattends⟩
  rwa [hupholds.memberNodes]

/-- A node that listens to nothing does so after a change. -/
theorem Change.leads_deaf (ha : a < n.nodes.size) (hdeaf : ∀ t, n.listenersOf a t = [])
    (hsound : change.Sound n) :
    Leads False (change.run host c) n fun _ n' => ∀ t, n'.listenersOf a t = [] := by
  refine Change.leads_run hn (fun _ => hdeaf) fun signal _ hadded => .get_bind ?_
  have hs := n.sameNodes_altered c change
  have ha' : a < (n.altered c change).nodes.size := by rwa [hs.nodes]
  have hdeaf' (t : Topic) : (n.altered c change).listenersOf a t = [] :=
    (listenersOf_congr (hs.listeners t)).trans (hdeaf t)
  refine (aside_raise_members hhost (hn.altered hsound) hadded (hdeaf' _) _).weaken fun _ n' h t => ?_
  rw [h.listens ha', hdeaf']

/-- The members after a run of changes are what the changes make of those before it. -/
theorem Course.applies (h : Course host c a n changes n') : n'.Followable c
    ∧ (∀ i kind, n.kind? i = some kind → n'.kind? i = some kind)
    ∧ n'.registry.items c = Change.applyAll changes (n.registry.items c) := by
  induction h with
  | start => exact ⟨hn, fun _ _ => id, rfl⟩
  | aside _ haside ih =>
    obtain ⟨hfollowable, hkind, hitems⟩ := ih
    exact ⟨haside.followable hfollowable, fun i kind hi => haside.kind i kind (hkind i kind hi),
      haside.items.trans hitems⟩
  | change _ hsound hrun ih =>
    obtain ⟨hfollowable, hkind, hitems⟩ := ih
    obtain ⟨hfollowable', hkind', hitems'⟩ := (Change.leads_apply hhost hfollowable hsound).partly hrun
    refine ⟨hfollowable', fun i kind hi => hkind' i kind (hkind i kind hi), ?_⟩
    rw [hitems', hitems, Change.applyAll, Change.applyAll, List.foldl_append]
    rfl

/-- A node that attends a collection attends it after a run of changes. -/
theorem Course.attends (hattends : n.Attends c (n.memberNodes c) a)
    (h : Course host c a n changes n') : n'.Attends c (n'.memberNodes c) a := by
  induction h with
  | start => exact hattends
  | aside h haside ih =>
    rw [haside.memberNodes]
    exact ih.aside (h.applies hhost hn).1.ledger haside
  | change h hsound hrun ih =>
    exact (ih.leads_change hhost (h.applies hhost hn).1 hsound).partly hrun

theorem Course.lt_size (ha : a < n.nodes.size) (h : Course host c a n changes n') :
    a < n'.nodes.size := by
  obtain ⟨kind, hkind⟩ := n.exists_kind?_of_lt ha
  exact lt_size_of_kind? ((h.applies hhost hn).2.1 a kind hkind)

/-- A node that listens to nothing does so after a run of changes. -/
theorem Course.deaf (ha : a < n.nodes.size) (hdeaf : ∀ t, n.listenersOf a t = [])
    (h : Course host c a n changes n') : ∀ t, n'.listenersOf a t = [] := by
  induction h with
  | start => exact hdeaf
  | aside h haside ih => exact fun t => (haside.listens (h.lt_size hhost hn ha) t).trans (ih t)
  | change h hsound hrun ih =>
    -- it does not listen to the collection either, so nothing has it follow a new member
    have hfollowable := (h.applies hhost hn).1
    exact (Change.leads_deaf hhost hfollowable (h.lt_size hhost hn ha) ih hsound).partly hrun

end Runs

/-- A change that can be made can still be made when there are more nodes. -/
theorem Change.Sound.of_kind {change : Change N} (h : change.Sound n)
    (hkind : ∀ i kind, n.kind? i = some kind → n'.kind? i = some kind) : change.Sound n' := by
  cases change with
  | add node modifier => exact (CanBeFollowed.of_kind h hkind).2
  | _ => trivial

/-- Changes that are made one after another are a course. -/
theorem Course.of_runs (hhost : host.StandsAside c a) (hn : n.Followable c) {after : List (Change N)}
    (hsound : ∀ change ∈ after, change.Sound n) :
    ∀ {before : List (Change N)} {m : Network N A σ}, Course host c a n before m →
      after.forM (Change.run host c) m = some (⟨⟩, n') → Course host c a n (before ++ after) n' := by
  induction after with
  | nil =>
    intro before m h hrun
    cases hrun
    rwa [List.append_nil]
  | cons change after ih =>
    intro before m h hrun
    rw [List.forM_eq_forM, List.forM_cons] at hrun
    obtain ⟨⟨⟨⟩, m'⟩, hchange, hrest⟩ := Option.bind_eq_some_iff.mp hrun
    -- a change may be to add a node, and nodes stay
    have hchange' := (hsound change List.mem_cons_self).of_kind (h.applies hhost hn).2.1
    have := ih (fun x hx => hsound x (List.mem_cons_of_mem change hx)) (h.change hchange' hchange) hrest
    rwa [List.append_assoc] at this

/-! ## What hosts are told -/

/-- Whether only hosts listen to a topic. -/
def ForHosts (n : Network N A σ) (t : Topic) : Prop :=
  ∀ attached ∈ n.listeners t, attached.listener.node? = none

/-- Whether only one node listens to a topic. -/
def ForNode (n : Network N A σ) (a : Nat) (t : Topic) : Prop :=
  ∀ attached ∈ n.listeners t, attached.listener.node? = some a

/-- Whether a node is all that listens to a collection, and hosts are all that listens to the node. -/
structure Secluded (n : Network N A σ) (c a : Nat) : Prop where
  collection : n.ForNode a (.members c)
  node : n.ForHosts (.changed a)

theorem ForNode.listenersOf_eq (h : n.ForNode a t) : n.listenersOf a t = n.listeners t :=
  List.filter_eq_self.mpr fun attached hattached => decide_eq_true (h attached hattached)

theorem changeTopic_eq_changed (h : n.changeTopic m = .changed a) : m = a := by
  unfold changeTopic at h
  split at h
  · cases h
  · exact Topic.changed.inj h

/-- Only hosts listen to a node that has other subscriptions, unless it follows itself. -/
theorem Rewires.forHosts (h : n.Rewires a n') (hn : n.ForHosts (.changed a))
    (hattends : n'.Attends c nodes a) (ha : a ∉ nodes) : n'.ForHosts (.changed a) := by
  intro attached hattached
  by_contra hne
  obtain ⟨i, hi⟩ := Option.ne_none_iff_exists'.mp hne
  have hmem := mem_listenersOf.mpr ⟨hattached, hi⟩
  by_cases hia : i = a
  · -- it listens to the topics of the members, and its own topic is none of these
    subst hia
    have hnone : (n'.listenersOf i (.changed i)).length = 0 := by
      rw [hattends.length_listenersOf h.ledger, if_neg nofun, List.countP_eq_zero.mpr]
      intro m hm
      have hne : n'.changeTopic m ≠ .changed i := fun htopic => ha (changeTopic_eq_changed htopic ▸ hm)
      simpa using hne
    rw [List.length_eq_zero_iff.mp hnone] at hmem
    cases hmem
  · rw [h.listens i hia] at hmem
    rw [hn attached (mem_listenersOf.mp hmem).1] at hi
    cases hi

/-- A node that only hosts listen to is no member of the collection that it attends. -/
theorem Attends.notMem_of_forHosts (h : n.Attends c nodes a) (hn : n.Ledger)
    (hhosts : n.ForHosts (.changed a)) : a ∉ nodes := by
  intro hmem
  have hnone : n.listenersOf a (.changed a) = [] :=
    List.filter_eq_nil_iff.mpr fun attached hattached => by simp [hhosts attached hattached]
  have hcount := h.length_listenersOf hn (.changed a)
  rw [hnone, List.length_nil, if_neg nofun, Nat.zero_add] at hcount
  refine List.countP_eq_zero.mp hcount.symm a hmem (decide_eq_true ?_)
  obtain ⟨form, hkind⟩ := h.kind
  exact changeTopic_of_not_exposed fun inner => by simp [hkind]

section Told

variable {tell : A → σ → σ} (hquiet : host.Quiet tell) (hhosts : n.ForHosts (.changed a))
include hquiet hhosts

/-- Where a node is all that is called, hosts that listen to the node are told as often as it is called. -/
theorem heeded_changed_told (ht : n.ForNode a t) :
    heeded host a t .changed n = some (⟨⟩, { n with
      host := (tellAll tell (n.callbacks (.changed a)))^[(n.listenersOf a t).length] n.host }) := by
  obtain ⟨fuel, hfuel⟩ := n.exists_cascadeBound
  have hall : ∀ (all : List (Attached A)) (state : σ),
      (∀ attached ∈ all, attached.listener.node? = some a) →
      (all.forM fun attached =>
        if attached.listener.node? = some a then do
          adjust a .changed
          raise host (fuel + 1) (.changed a) .changed
        else
          deliver host (raise host (fuel + 1)) attached.listener .changed) { n with host := state }
        = some (⟨⟩, { n with
          host := (tellAll tell (n.callbacks (.changed a)))^[all.length] state }) := by
    intro all
    induction all with
    | nil => exact fun _ _ => rfl
    | cons attached all ih =>
      intro state hown
      rw [List.forM_eq_forM, List.forM_cons, if_pos (hown attached List.mem_cons_self)]
      have hhosts' : ForHosts { n with host := state } (.changed a) := hhosts
      exact (bind_apply (raise_hosts hquiet hhosts' fuel .changed)).trans
        (ih _ fun x hx => hown x (List.mem_cons_of_mem _ hx))
  rw [heeded, get_bind_apply, hfuel, ht.listenersOf_eq]
  exact hall _ n.host ht

end Told

section Changes

variable {tell : A → σ → σ} (hquiet : host.Quiet tell) {change : Change N}
include hquiet

/-- Where a node is all that is called when a collection is announced, hosts that listen to the node are
told once. -/
theorem Attends.heeded_members_told (h : n.Attends c nodes a) (hn : n.Followable c)
    (hs : n.Secluded c a) {signal : Signal N} (hadded : ∀ m, signal = .added m → m ∈ n.memberNodes c)
    (hturns : signal.Turns nodes (n.memberNodes c)) (ha : a ∉ n.memberNodes c) :
    ∃ n', heeded host a (.members c) signal n = some (⟨⟩, n') ∧ n'.Secluded c a
      ∧ n'.callbacks (.changed a) = n.callbacks (.changed a)
      ∧ n'.host = tellAll tell (n.callbacks (.changed a)) n.host := by
  obtain ⟨fuel, hfuel⟩ := n.exists_cascadeBound
  obtain ⟨own, hown, hlistener⟩ := h.exists_listener hn.ledger
  obtain ⟨form, hkind⟩ := h.kind
  obtain ⟨_, n₁, hadjust, hrewires, hattends⟩ := (leads_adjust hn hkind hadded).exists_eq
  have hhosts := hrewires.forHosts hs.node (hattends nodes h hturns) ha
  have hraise := raise_hosts hquiet hhosts fuel .changed
  rw [hrewires.callbacks, hrewires.host] at hraise
  refine ⟨{ n₁ with host := tellAll tell (n.callbacks (.changed a)) n.host }, ?_,
    ⟨fun attached hattached => hs.collection attached (hrewires.followers c hattached), hhosts⟩,
    hrewires.callbacks (.changed a), rfl⟩
  rw [heeded, get_bind_apply, hfuel, ← hs.collection.listenersOf_eq, hown, List.forM_eq_forM,
    List.forM_cons, List.forM_nil, if_pos (by rw [hlistener]; rfl), bind_pure_unit]
  exact (bind_apply hadjust).trans hraise

/-- Where a node is all that listens to a collection, hosts that listen to the node are told of a change
once, if there is anything to tell. -/
theorem Attends.exists_run_told (h : n.Attends c (n.memberNodes c) a) (hn : n.Followable c)
    (hs : n.Secluded c a) (hsound : change.Sound n) (hother : ∀ modifier, change ≠ .add a modifier) :
    ∃ n', change.run host c n = some (⟨⟩, n') ∧ n'.Secluded c a
      ∧ n'.callbacks (.changed a) = n.callbacks (.changed a)
      ∧ n'.host = (tellAll tell (n.callbacks (.changed a)))^[(change.signal?
          (n.registry.items c)).toList.length] n.host := by
  have hrun := change.run_eq host hn.topic
  cases hsignal : change.signal? (n.registry.items c) with
  | none =>
    rw [hsignal] at hrun
    exact ⟨n, hrun, hs, rfl, rfl⟩
  | some signal =>
    rw [hsignal] at hrun
    have hsame := n.sameNodes_altered c change
    have hattends := hsame.attends h
    have hn' := hn.altered hsound
    have hadded := mem_altered_of_added hn.topic hsignal
    -- a member of its own collection would have itself announce changes without end
    have ha : a ∉ (n.altered c change).memberNodes c := by
      have hnot := h.notMem_of_forHosts hn.ledger hs.node
      rw [memberNodes_eq] at hnot
      rw [memberNodes_altered hn.topic]
      refine fun hmem => Change.forall_apply (P := (· ≠ a)) (fun m modifier hchange hm => ?_)
        (fun m hm hma => hnot (hma ▸ hm)) a hmem rfl
      exact hother modifier (hm ▸ hchange)
    have hs' : (n.altered c change).Secluded c a :=
      ⟨fun attached hattached => hs.collection attached (hsame.listeners _ ▸ hattached),
        fun attached hattached => hs.node attached (hsame.listeners _ ▸ hattached)⟩
    obtain ⟨n', hheeded, hsecluded, hcallbacks, hhost⟩ :=
      hattends.heeded_members_told hquiet hn' hs' hadded (turns_altered hn.topic hsignal) ha
    rw [hsame.callbacks, hsame.host] at hhost
    refine ⟨n', ?_, hsecluded, hcallbacks.trans (hsame.callbacks _), hhost⟩
    rw [hrun, ← hheeded]
    exact hattends.emit_members (hquiet.standsAside c a) hn' hadded

/-- Where a node is all that listens to a collection, changes can be made one after another, and hosts that
listen to the node are told of each once. -/
theorem Attends.exists_runs_told : ∀ (changes : List (Change N)) {n : Network N A σ},
    n.Attends c (n.memberNodes c) a → n.Followable c → n.Secluded c a →
    (∀ change ∈ changes, change.Sound n ∧ ∀ modifier, change ≠ .add a modifier) →
    ∃ n', changes.forM (Change.run host c) n = some (⟨⟩, n') ∧ n'.Secluded c a
      ∧ n'.host = (tellAll tell (n.callbacks (.changed a)))^[(Change.announcements changes
          (n.registry.items c)).length] n.host
  | [], n, _, _, hs, _ => ⟨n, rfl, hs, rfl⟩
  | change :: changes, n, h, hn, hs, hchanges => by
    have haside := hquiet.standsAside c a
    obtain ⟨hsound, hother⟩ := hchanges change List.mem_cons_self
    obtain ⟨n₁, hrun, hs₁, hcallbacks, hhost₁⟩ := h.exists_run_told hquiet hn hs hsound hother
    obtain ⟨hn₁, hkind, hitems⟩ := (Change.leads_apply haside hn hsound).partly hrun
    have h₁ := (h.leads_change haside hn hsound).partly hrun
    obtain ⟨n', hruns, hs', hhost⟩ := exists_runs_told changes h₁ hn₁ hs₁ fun x hx =>
      (hchanges x (List.mem_cons_of_mem change hx)).imp_left (·.of_kind hkind)
    refine ⟨n', (bind_apply hrun).trans hruns, hs', ?_⟩
    rw [hhost, hcallbacks, hhost₁, hitems, ← Function.iterate_add_apply, Change.announcements,
      List.length_append, Nat.add_comm]

end Changes

/-- A collection that nothing listens to can be changed at will. -/
theorem Course.exists_of_unheard (hhost : host.StandsAside c a) (hn : n.Followable c)
    (hnone : n.listeners (.members c) = []) {changes : List (Change N)}
    (hsound : ∀ change ∈ changes, change.Sound n) :
    ∃ n', Course host c a n changes n' ∧ n'.listeners (.members c) = [] := by
  induction changes using List.reverseRecOn with
  | nil => exact ⟨n, .start, hnone⟩
  | append_singleton changes change ih =>
    obtain ⟨m, hcourse, hnone'⟩ := ih fun x hx => hsound x (List.mem_append_left _ hx)
    obtain ⟨hm, hkind, -⟩ := hcourse.applies hhost hn
    have hchange := (hsound change (by simp)).of_kind hkind
    have hrun := change.run_eq host hm.topic
    cases hsignal : change.signal? (m.registry.items c) with
    | none =>
      rw [hsignal] at hrun
      exact ⟨m, hcourse.change hchange hrun, hnone'⟩
    | some signal =>
      rw [hsignal] at hrun
      have hnone'' := ((m.sameNodes_altered c change).listeners (.members c)).trans hnone'
      have hemit : emit host (.members c) signal (m.altered c change)
          = some (⟨⟩, m.altered c change) := by
        rw [emit, get_bind_apply, cascadeBound_eq, raise, get_bind_apply, hnone'']
        rfl
      exact ⟨m.altered c change, hcourse.change hchange (hrun.trans hemit), hnone''⟩

/-- A node is all that listens to a collection that nothing listened to before the node was made. -/
theorem Followable.secluded (hn : n.Followable c) {form : Form} (ha : n.nodes.size = a)
    (hrewires : (n.withFollower c form).Rewires a n') (hattends : n'.Attends c (n.memberNodes c) a)
    (hnone : n.listeners (.members c) = []) : n'.Secluded c a := by
  subst ha
  have hnew : ¬ n.hasTopic (.changed n.nodes.size) := Nat.lt_irrefl _
  have hhosts : (n.withFollower c form).ForHosts (.changed n.nodes.size) := by
    have hne : Topic.changed n.nodes.size ≠ .members c := nofun
    rw [ForHosts, listeners_withFollower_of_ne hne, n.listeners_eq_nil_of_not_hasTopic hnew]
    nofun
  refine ⟨fun attached hattached => ?_, hrewires.forHosts hhosts hattends fun hmem => hnew ?_⟩
  · -- to follow members adds no listener to the collection
    have hmem := hrewires.followers c hattached
    rw [listeners_withFollower_self hn.topic, hnone, List.nil_append] at hmem
    rw [List.mem_singleton.mp hmem]
    rfl
  · have hfollowed := hn.members _ hmem
    rwa [CanBeFollowed, changeTopic_of_not_exposed (by simp [kind?, n.body?_eq_none le_rfl])] at hfollowed

/-! ## Nodes that track a collection -/

/-- A node tracks a collection: it follows just the members, it announces changes of the collection and of
members, and it lets go of all of them when it is disposed. -/
structure Tracks (host : Host N A σ) (n : Network N A σ) (c a : Nat) : Prop where
  /-- It is subscribed to each node as often as the node is a member. -/
  members : ((n.followed a).map (·.1)).Perm (n.memberNodes c)
  /-- It listens to the collection once, and to each node as often as the node is a member. -/
  listens : ∀ t, (n.listenersOf a t).length
    = (if t = .members c then 1 else 0) + (n.memberNodes c).countP fun m => n.changeTopic m = t
  /-- To subscribe to all members from scratch comes to the same subscriptions. -/
  resubscribed : ∃ n', adjust a .reset n = some (⟨⟩, n') ∧ n.Rewires a n'
    ∧ ((n'.followed a).map (·.1)).Perm ((n.followed a).map (·.1))
    ∧ ∀ t, (n'.listenersOf a t).length = (n.listenersOf a t).length
  /-- When the collection changes, each call of the node has it adjust and announce a change once. To remove
  what is not there is no change. -/
  altered : ∀ change : Change N, change.Sound n →
    change.run host c n = match change.signal? (n.registry.items c) with
      | none => some (⟨⟩, n)
      | some signal => heeded host a (.members c) signal (n.altered c change)
  /-- When a change is announced, each call of the node has it announce a change once. -/
  changed : ∀ t, emit host t .changed n = heeded host a t .changed n
  /-- Where the node is all that listens to the collection, changes can be made one after another, and hosts
  that listen to the node are told of each once. -/
  told_altered : ∀ tell, host.Quiet tell → n.Secluded c a → ∀ changes : List (Change N),
    (∀ change ∈ changes, change.Sound n ∧ ∀ modifier, change ≠ .add a modifier) →
    ∃ n', changes.forM (Change.run host c) n = some (⟨⟩, n') ∧ n'.Secluded c a
      ∧ n'.host = (tellAll tell (n.callbacks (.changed a)))^[(Change.announcements changes
          (n.registry.items c)).length] n.host
  /-- Where it is all that listens to a topic, they are told of each change that is announced there as often
  as it listens. -/
  told_changed : ∀ tell, host.Quiet tell → n.ForHosts (.changed a) → ∀ t, n.ForNode a t →
    emit host t .changed n = some (⟨⟩, { n with
      host := (tellAll tell (n.callbacks (.changed a)))^[(n.listenersOf a t).length] n.host })
  /-- Once it is disposed, it listens to nothing, whatever happens to the collection then. -/
  disposed : ∃ n', dispose host a n = some (⟨⟩, n')
    ∧ (∀ i ≠ a, ∀ t, n'.listenersOf i t = n.listenersOf i t)
    ∧ ∀ changes n'', Course host c a n' changes n'' → ∀ t, n''.listenersOf a t = []

section Tracks

variable (hhost : host.StandsAside c a) (hn : n.Followable c)
include hn

/-- A collection can be followed when a node gave its subscriptions back. -/
theorem Followable.releasedAt (a : Nat) : (n.releasedAt a).Followable c := by
  have hkind : ∀ i kind, n.kind? i = some kind → (n.releasedAt a).kind? i = some kind :=
    fun i _ hi => (n.kind?_releasedAt a i).trans hi
  refine ⟨hn.ledger.releasedAt a, (n.hasTopic_releasedAt a _).mpr hn.topic, fun m hm => ?_,
    fun attached hattached b hb => ?_⟩
  · rw [memberNodes_eq, registry_releasedAt, ← memberNodes_eq] at hm
    exact ((hn.members m hm).of_kind hkind).2
  · rw [hn.ledger.listeners_releasedAt] at hattached
    exact (hn.followers attached (List.mem_of_mem_filter hattached) b hb).imp fun _ => hkind _ _

include hhost

/-- A node that attends a collection tracks it. -/
theorem Attends.tracks (h : n.Attends c (n.memberNodes c) a) : Tracks host n c a where
  members := h.followed
  listens := h.length_listenersOf hn.ledger
  resubscribed := by
    obtain ⟨form, hkind⟩ := h.kind
    have hadded (m : Nat) (hm : (.reset : Signal N) = .added m) : m ∈ n.memberNodes c := nomatch hm
    obtain ⟨_, n', hadjust, hrewires, hattends⟩ := (leads_adjust hn hkind hadded).exists_eq
    have hattends' := hattends _ h trivial
    refine ⟨n', hadjust, hrewires, hattends'.followed.trans h.followed.symm, fun t => ?_⟩
    rw [h.length_listenersOf hn.ledger, hattends'.length_listenersOf hrewires.ledger]
    congr 1
    exact List.countP_congr fun m hm => by rw [(hrewires.canBeFollowed (hn.members m hm)).1]
  altered change hsound := by
    rw [change.run_eq host hn.topic]
    cases hsignal : change.signal? (n.registry.items c) with
    | none => rfl
    | some signal =>
      have hattends := (n.sameNodes_altered c change).attends h
      exact hattends.emit_members hhost (hn.altered hsound) (mem_altered_of_added hn.topic hsignal)
  changed := h.emit_changed hhost hn
  told_altered tell hquiet hs changes := h.exists_runs_told hquiet changes hn hs
  told_changed tell hquiet hhosts t ht := by
    rw [h.emit_changed hhost hn, heeded_changed_told hquiet hhosts ht]
  disposed := by
    obtain ⟨form, hkind⟩ := h.kind
    have hreleased := hn.ledger.listenersOf_releasedAt a
    refine ⟨_, dispose_eq host hkind (.inr (.inr ⟨c, form, rfl⟩)), fun i hi t => ?_,
      fun changes n'' hcourse => ?_⟩
    · rw [hreleased, if_neg hi]
    · have ha : a < (n.releasedAt a).nodes.size := by
        rw [size_releasedAt]
        exact h.lt_size
      exact hcourse.deaf hhost (hn.releasedAt a) ha fun t => by rw [hreleased, if_pos rfl]

end Tracks

/-- A new collection can be followed. -/
theorem Ledger.followable_withCollection (h : n.Ledger) :
    n.withCollection.Followable n.collections.size := by
  have hnone : n.collections[n.collections.size]? = none := Array.getElem?_eq_none le_rfl
  refine ⟨h.of_eq n.listeners_withCollection (fun _ => rfl) le_rfl, ?_, fun m hm => ?_,
    fun attached hattached => ?_⟩
  · change _ < (n.collections.push _).size
    rw [Array.size_push]
    exact Nat.lt_succ_self _
  · rw [memberNodes_eq, registry_withCollection, ← memberNodes_eq, memberNodes, hnone] at hm
    cases hm
  · rw [listeners_withCollection, listeners, hnone] at hattached
    cases hattached

/-- An aggregating node follows exactly the members of its collection. The collection may have had members
before the node was made, and whatever is added and removed before and after that, the node is subscribed to
each node as often as it is a member. -/
theorem aggregate_tracks_collection {n₀ n₁ : Network N A σ} {before : List (Change N)}
    (ha : n₁.nodes.size = a) (hhost : host.StandsAside c a) (hstart : n₀.Followable c)
    (hbefore : Course host c a n₀ before n₁) (form : Form) :
    ∃ n₂, addAggregate c form n₁ = some (a, n₂)
      ∧ (n₁.listeners (.members c) = [] → n₂.Secluded c a)
      ∧ ∀ after n, Course host c a n₂ after n →
        n.registry.items c = Change.applyAll (before ++ after) (n₀.registry.items c)
        ∧ Tracks host n c a := by
  obtain ⟨hn₁, -, hitems₁⟩ := hbefore.applies hhost hstart
  obtain ⟨_, n₂, hmade, rfl, hrewires, hattends⟩ := (hn₁.leads_addAggregate form).exists_eq
  rw [ha] at hmade hrewires hattends
  refine ⟨n₂, hmade, hn₁.secluded ha hrewires hattends, fun after n hafter => ?_⟩
  have hn₂ := hrewires.followable (hn₁.withFollower form)
  have hregistry := hrewires.registry.trans (n₁.registry_withFollower c form)
  rw [← n₁.memberNodes_withFollower c form, ← hrewires.memberNodes] at hattends
  obtain ⟨hn, -, hitems⟩ := hafter.applies hhost hn₂
  refine ⟨?_, (hafter.attends hhost hn₂ hattends).tracks hhost hn⟩
  rw [hitems, hregistry, hitems₁, Change.applyAll, Change.applyAll, Change.applyAll, List.foldl_append]

/-- A network with two inputs and a collection. -/
def withTwoInputs : Network Float Nat (List Nat) :=
  (((Network.empty false none []).pushNode (.input 0)).pushNode (.input 1)).withCollection

/-- Modifiers that differ in their formulas. -/
def numbered (identity : Nat) : Modifier Float :=
  ⟨[], .increase, .constant none, identity, ⟨.global, ""⟩⟩

/-- An input is added twice before a node is made over the collection, and again afterwards, when another
one is added too. Once it is removed for the first modifier, the node listens to it twice. -/
theorem input_tracked_twice : ∃ n₁ n₂ n : Network Float Nat (List Nat),
    Course .logging 0 2 withTwoInputs [.add 0 (numbered 0), .add 0 (numbered 1)] n₁
      ∧ addAggregate 0 .increase n₁ = some (2, n₂)
      ∧ Course .logging 0 2 n₂ [.add 0 (numbered 2), .add 1 (numbered 3), .remove (numbered 0)] n
      ∧ n.memberNodes 0 = [0, 0, 1] ∧ Tracks .logging n 0 2
      ∧ (n.listenersOf 2 (.changed 0)).length = 2 := by
  let before : List (Change Float) := [.add 0 (numbered 0), .add 0 (numbered 1)]
  let after : List (Change Float) := [.add 0 (numbered 2), .add 1 (numbered 3), .remove (numbered 0)]
  have hstart : withTwoInputs.Followable 0 :=
    have hempty := (inv_empty Regime.free _ _ _).wired.ledger
    ((hempty.pushNode rfl rfl).pushNode rfl rfl).followable_withCollection
  have hfacts : ((before.forM (Change.run Host.logging 0) withTwoInputs).bind fun r₁ =>
      (addAggregate 0 .increase r₁.2).bind fun r₂ =>
        (after.forM (Change.run Host.logging 0) r₂.2).map fun r => (r₁.2.nodes.size, r₂.2.nodes.size,
          [r₂.2.changeTopic 0, r₂.2.changeTopic 1, r.2.changeTopic 0, r.2.changeTopic 1],
          r.2.memberNodes 0))
      = some (2, 3, [.changed 0, .changed 1, .changed 0, .changed 1], [0, 0, 1]) := by
    decide +kernel
  obtain ⟨⟨_, n₁⟩, hbefore, hfacts⟩ := Option.bind_eq_some_iff.mp hfacts
  obtain ⟨⟨_, n₂⟩, hmade, hfacts⟩ := Option.bind_eq_some_iff.mp hfacts
  obtain ⟨⟨_, n⟩, hafter, hfacts⟩ := Option.map_eq_some_iff.mp hfacts
  obtain ⟨hsize, hsize₂, ⟨htopic₀, htopic₁, htopic, htopic'⟩, hmembers⟩ :
      n₁.nodes.size = 2 ∧ n₂.nodes.size = 3
        ∧ (n₂.changeTopic 0 = .changed 0 ∧ n₂.changeTopic 1 = .changed 1
          ∧ n.changeTopic 0 = .changed 0 ∧ n.changeTopic 1 = .changed 1)
        ∧ n.memberNodes 0 = [0, 0, 1] := by
    simpa using hfacts
  have hhost : (Host.logging : Host Float Nat (List Nat)).StandsAside 0 2 :=
    Host.quiet_logging.standsAside 0 2
  have hcourse₁ : Course .logging 0 2 withTwoInputs before n₁ := by
    refine Course.of_runs hhost hstart (fun change hchange => ?_) .start hbefore
    obtain rfl | rfl : change = .add 0 (numbered 0) ∨ change = .add 0 (numbered 1) := by
      simpa [before] using hchange
    all_goals exact (by decide : 0 < 2)
  obtain ⟨n₂', hmade', -, htracks⟩ :=
    aggregate_tracks_collection hsize hhost hstart hcourse₁ .increase
  obtain rfl : n₂' = n₂ := congrArg Prod.snd (Option.some.inj (hmade'.symm.trans hmade))
  have hn₁ := (hcourse₁.applies hhost hstart).1
  obtain ⟨-, hrewires, -⟩ := (hn₁.leads_addAggregate .increase).partly hmade
  have hn₂ := hrewires.followable (hn₁.withFollower .increase)
  have hcourse₂ : Course .logging 0 2 n₂' after n := by
    refine Course.of_runs hhost hn₂ (fun change hchange => ?_) .start hafter
    have hlt : ∀ m < 2, m < n₂'.nodes.size := fun m hm => by omega
    obtain rfl | rfl | rfl : change = .add 0 (numbered 2) ∨ change = .add 1 (numbered 3)
        ∨ change = .remove (numbered 0) := by
      simpa [after] using hchange
    · exact cast (congrArg n₂'.hasTopic htopic₀.symm) (hlt 0 (by decide))
    · exact cast (congrArg n₂'.hasTopic htopic₁.symm) (hlt 1 (by decide))
    · trivial
  have htracked := (htracks after n hcourse₂).2
  refine ⟨n₁, n₂', n, hcourse₁, hmade', hcourse₂, hmembers, htracked, ?_⟩
  rw [htracked.listens, hmembers]
  simp [htopic, htopic']

/-! ## Collections on file -/

/-- A collection on file can be followed. -/
theorem Wired.followable {sc : Regime N} (hn : n.Wired sc) {key : StatKey} {form : Form} {path : PathKey}
    {e : FormEntry N} (he : n.registry.form? key form path = some e) : n.Followable e.collection := by
  have hcell := hn.forms key form path e he
  refine ⟨hn.ledger, hcell.topic, fun m hm => ?_, fun attached hattached b hb => ?_⟩
  · rw [memberNodes_eq] at hm
    obtain ⟨i, hi, rfl⟩ := List.mem_map.mp hm
    obtain ⟨-, -, -, id, hid, hkept⟩ := hcell.members i hi
    rw [CanBeFollowed, hid, changeTopic_of_exposed hkept.exposed, hasTopic_received]
    exact ⟨id, hkept.cached⟩
  · have hfits := hn.typed.fits hattached
    rw [hb] at hfits
    exact hfits

/-- The node on file for a collection attends it. -/
theorem Wired.attends {sc : Regime N} (hn : n.Wired sc) {key : StatKey} {form : Form} {path : PathKey}
    {e : FormEntry N} (he : n.registry.form? key form path = some e) :
    n.Attends e.collection (n.memberNodes e.collection) e.aggregate := by
  have hcell := hn.forms key form path e he
  have hkind := hcell.kind
  obtain ⟨x, hx⟩ := exists_aggregate? hkind
  obtain ⟨token, hfollower⟩ := hcell.follower
  have hlistener : ⟨token, .follow e.aggregate⟩ ∈ n.listeners (.members e.collection) := by
    rw [hfollower]
    exact List.mem_singleton_self _
  refine ⟨⟨_, hkind⟩, hn.typed.present hlistener _ rfl, ?_, ?_, fun d hd => ?_,
    fun t attached hattached => ?_⟩
  · -- the subscription to the collection is none of those to members
    have hheld : (⟨.members e.collection, token⟩ : Subscription) ∈ n.held e.aggregate :=
      (hn.ledger.balance _ _).mpr ⟨_, hlistener, rfl⟩
    rw [held_of_aggregate hx] at hheld ⊢
    rw [followed_of_aggregate hx]
    obtain hheld | hheld := List.mem_append.mp hheld
    · cases hs : x.subscription with
      | none => simp [hs] at hheld
      | some s =>
        obtain rfl : _ = s := by simpa [hs] using hheld
        exact ⟨_, rfl, rfl⟩
    · obtain ⟨d, hd, hd'⟩ := List.mem_map.mp hheld
      obtain ⟨id, -, htopic⟩ := hcell.followed_topic d (followed_of_aggregate hx ▸ hd)
      rw [hd'] at htopic
      cases htopic
  · rw [hcell.followed, memberNodes_eq]
  · obtain ⟨id, hid, htopic⟩ := hcell.followed_topic d hd
    have hmem : d.1 ∈ (n.registry.items e.collection).map (·.1) :=
      hcell.followed ▸ List.mem_map_of_mem hd
    obtain ⟨i, hi, hid'⟩ := List.mem_map.mp hmem
    obtain ⟨-, -, -, id', hid'', hkept⟩ := hcell.members i hi
    obtain rfl : id = id' := by omega
    rw [htopic, hid, changeTopic_of_exposed hkept.exposed]
  · obtain ⟨hattached, hnode⟩ := mem_listenersOf.mp hattached
    have hfits := hn.typed.fits hattached
    obtain ⟨token', listener⟩ := attached
    cases listener with
    | host action => cases hnode
    | invalidate i =>
      obtain rfl : i = e.aggregate := Option.some.inj hnode
      cases t <;> simp [Fits, hkind] at hfits
    | relay i =>
      obtain rfl : i = e.aggregate := Option.some.inj hnode
      cases t with
      | members c => exact hfits.elim
      | _ => simp
    | follow i =>
      obtain rfl : i = e.aggregate := Option.some.inj hnode
      cases t with
      | members c =>
        obtain ⟨form', hform'⟩ := hfits
        rw [hkind] at hform'
        obtain rfl : e.collection = c := (Kind.aggregate.inj (Option.some.inj hform')).1
        simp
      | _ => exact hfits.elim

/-- In every network that a host can get to, the node on file for a collection tracks the collection. -/
theorem tracks_of_visited [Number N] {tell : A → σ → σ} (hhost : host.Aloof tell)
    (hn : Calculator.Visited host n) {key : StatKey} {form : Form} {path : PathKey} {e : FormEntry N}
    (he : n.registry.form? key form path = some e) : Tracks host n e.collection e.aggregate :=
  have hwired := (hn.rests hhost).inv.wired
  (hwired.attends he).tracks (hhost.toQuiet.standsAside _ _) (hwired.followable he)

end StatEngine.Network
