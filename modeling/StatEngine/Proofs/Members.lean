import StatEngine.Network.Modifiers
import StatEngine.Proofs.Requests

/-!
# Members that come and go

A modifier is registered by putting a cell for it into a collection. The node that follows the
collection follows the cell from then on, and announces that the collection changed, so all who read
the collection drop their values. The same happens when a modifier is taken back.

## Main definitions

* `Refollows`: a collection has other members, and its follower follows them;

## Main statements

* `leads_addModifierTo` and `leads_removeModifierFrom`: modifiers that come and go keep the invariant.
-/

namespace StatEngine

open Network

namespace Registry

variable {N : Type} {r : Registry N} {sc : Regime N}

/-- The registry with other members of a collection. -/
def withItems (r : Registry N) (c : Nat) (items : List (Nat × Modifier N)) : Registry N :=
  { r with items := Function.update r.items c items }

theorem items_withItems_self (r : Registry N) (c : Nat) (items : List (Nat × Modifier N)) :
    (r.withItems c items).items c = items := Function.update_self ..

theorem items_withItems_of_ne {c c' : Nat} (h : c' ≠ c) (items : List (Nat × Modifier N)) :
    (r.withItems c items).items c' = r.items c' := Function.update_of_ne h ..

/-- Other members are found for the form they belong to, and nowhere else. -/
theorem members_withItems (ho : r.Orderly sc) {key : StatKey} {form : Form} {path : PathKey}
    {e : FormEntry N} (he : r.form? key form path = some e) (items : List (Nat × Modifier N))
    (k : StatKey) (f : Form) (p : PathKey) : (r.withItems e.collection items).members k f p
      = if k = key ∧ f = form ∧ p = path then items else r.members k f p := by
  have hform : (r.withItems e.collection items).form? k f p = r.form? k f p := rfl
  rw [members, members, hform]
  split
  next h =>
    obtain ⟨rfl, rfl, rfl⟩ := h
    rw [he]
    exact items_withItems_self ..
  next h =>
    cases he' : r.form? k f p with
    | none => rfl
    | some e' =>
      refine items_withItems_of_ne (fun heq => h ?_) items
      exact ho.collections k key f form p path e' e he' he heq

/-- Other members leave the registry consistent if they are in no other collection. -/
theorem Orderly.withItems (ho : r.Orderly sc) {c : Nat} {items : List (Nat × Modifier N)}
    (hnodup : (items.map (·.1)).Nodup)
    (hdisjoint : ∀ k f p e, r.form? k f p = some e → ∀ i ∈ items, ∀ i' ∈ r.items e.collection,
      i.1 = i'.1 → e.collection = c) :
    (r.withItems c items).Orderly sc where
  live_nodup := ho.live_nodup
  live_found := ho.live_found
  nodes_found := ho.nodes_found
  forms_found := ho.forms_found
  nodes_nodup := ho.nodes_nodup
  forms_nodup := ho.forms_nodup
  admits := ho.admits
  sets := ho.sets
  collections := ho.collections
  members_disjoint k k' f f' p p' e e' he he' i hi i' hi' heq := by
    by_cases h₁ : e.collection = c
    · by_cases h₂ : e'.collection = c
      · exact h₁.trans h₂.symm
      · rw [h₁, items_withItems_self] at hi
        rw [items_withItems_of_ne h₂] at hi'
        exact h₁.trans (hdisjoint _ _ _ _ he' i hi i' hi' heq).symm
    · rw [items_withItems_of_ne h₁] at hi
      by_cases h₂ : e'.collection = c
      · rw [h₂, items_withItems_self] at hi'
        exact (hdisjoint _ _ _ _ he i' hi' i hi heq.symm).trans h₂.symm
      · rw [items_withItems_of_ne h₂] at hi'
        exact ho.members_disjoint k k' f f' p p' e e' he he' i hi i' hi' heq
  members_nodup c' := by
    by_cases h : c' = c
    · subst h
      rwa [items_withItems_self]
    · rw [items_withItems_of_ne h]
      exact ho.members_nodup c'
  entry_path := ho.entry_path
  entry_admits := ho.entry_admits
  form_admits := ho.form_admits
  path_admits := ho.path_admits
  paths_nodup := ho.paths_nodup
  plain := ho.plain
  registered := ho.registered

/-- A node that is not among the new members of its collection is in no collection any more. -/
theorem Orderly.off_withItems (ho : r.Orderly sc) {key : StatKey} {form : Form} {path : PathKey}
    {e : FormEntry N} (he : r.form? key form path = some e) {items : List (Nat × Modifier N)}
    {i : Nat × Modifier N} (hi : i ∈ r.items e.collection) (hnot : i.1 ∉ items.map (·.1))
    {k : StatKey} {f : Form} {p : PathKey} {e' : FormEntry N} (he' : r.form? k f p = some e') :
    ∀ j ∈ (r.withItems e.collection items).items e'.collection, j.1 ≠ i.1 := by
  intro j hj heq
  by_cases hc : e'.collection = e.collection
  · rw [hc, items_withItems_self] at hj
    exact hnot (heq ▸ List.mem_map_of_mem hj)
  · rw [items_withItems_of_ne hc] at hj
    exact hc (ho.members_disjoint _ _ _ _ _ _ _ _ he' he j hj i hi heq)

end Registry

namespace Network

variable {N A σ : Type} {sc : Regime N} {n m : Network N A σ}

/-! ## Followers -/

/-- The network with another collection at a position. -/
def modifyCollection (n : Network N A σ) (c : Nat) (f : Collection N A → Collection N A) :
    Network N A σ := { n with collections := n.collections.modify c f }

theorem sameNodes_modifyCollection (n : Network N A σ) (c : Nat)
    {f : Collection N A → Collection N A} (hf : ∀ x, (f x).listeners = x.listeners) :
    n.SameNodes (n.modifyCollection c f) where
  nodes := rfl
  listeners t := by
    cases t with
    | members i =>
      simp only [listeners, modifyCollection, Array.getElem?_modify]
      split
      · rw [Option.map_map]
        exact congrArg (Option.getD · []) (Option.map_congr fun x _ => hf x)
      · rfl
    | _ => rfl
  topic t ht := by
    cases t with
    | members i => simpa [hasTopic, modifyCollection] using ht
    | _ => exact ht
  present set h := h
  token := rfl
  released := rfl
  buffer := rfl
  host := rfl

theorem registry_modifyCollection {c : Nat} (hc : n.hasTopic (.members c))
    {f : Collection N A → Collection N A}
    {g : List (Nat × Modifier N) → List (Nat × Modifier N)} (hf : ∀ x, (f x).items = g x.items) :
    (n.modifyCollection c f).registry = n.registry.withItems c (g (n.registry.items c)) := by
  have hc : c < n.collections.size := hc
  have : (n.modifyCollection c f).registry.items
      = Function.update n.registry.items c (g (n.registry.items c)) := by
    funext i
    by_cases hi : i = c
    · subst hi
      simp only [registry, modifyCollection, Array.getElem?_modify, if_pos, Function.update_self]
      rw [Array.getElem?_eq_getElem hc]
      exact hf _
    · simp only [registry, modifyCollection, Array.getElem?_modify, if_neg (Ne.symm hi),
        Function.update_of_ne hi]
  rw [Registry.withItems, ← this]
  rfl

/-- Formulas of members are on record beside the members, and nothing depends on that. -/
theorem registry_modifyCollection_of_items (n : Network N A σ) (c : Nat)
    {f : Collection N A → Collection N A} (hf : ∀ x, (f x).items = x.items) :
    (n.modifyCollection c f).registry = n.registry := by
  by_cases hc : n.hasTopic (.members c)
  · rw [registry_modifyCollection hc (g := fun items => items) hf, Registry.withItems,
      Function.update_eq_self]
  · have hsize : n.collections.size ≤ c := Nat.le_of_not_lt hc
    have : n.collections.modify c f = n.collections := by
      refine Array.ext_getElem? fun i => ?_
      rw [Array.getElem?_modify]
      split
      · next hi =>
        subst hi
        rw [Array.getElem?_eq_none hsize]
        rfl
      · rfl
    rw [modifyCollection, this]

/-- The only listener of a collection is its follower. -/
theorem emit_members (host : Host N A σ) (hn : n.Typed) {c a token : Nat}
    (h : n.listeners (.members c) = [⟨token, .follow a⟩])
    (signal : Signal N) : ∃ fuel, 3 * n.nodes.size + 3 ≤ fuel
      ∧ emit host (.members c) signal n = follow (raise host fuel) a signal n := by
  obtain ⟨fuel, hfuel⟩ : ∃ fuel, n.cascadeBound = fuel + 1 := Nat.exists_eq_succ_of_ne_zero (by
    simp only [cascadeBound]; omega)
  refine ⟨fuel, ?_, ?_⟩
  · simp only [cascadeBound] at hfuel
    omega
  · rw [emit, get_bind_apply, hfuel, raise, get_bind_apply, h, List.forM_eq_forM, List.forM_cons,
      deliver]
    have hrun : (do if (← get).isPresent (.changed a) then follow (raise host fuel) a signal :
        Run N A σ Unit) n = follow (raise host fuel) a signal n := by
      have ha : (⟨token, .follow a⟩ : Attached A) ∈ n.listeners (.members c) := by simp [h]
      rw [get_bind_apply, if_pos (hn.present ha a rfl)]
    change ((do if (← get).isPresent (.changed a) then follow (raise host fuel) a signal :
      Run N A σ Unit) n >>= fun x => _) = _
    rw [hrun]
    cases follow (raise host fuel) a signal n <;> rfl

/-! ## Following -/

/-- The network with other members that an aggregate follows. -/
def withFollowed (n : Network N A σ) (a : Nat)
    (f : List (Nat × Subscription) → List (Nat × Subscription)) : Network N A σ :=
  n.mapBody a (Body.mapAggregate fun x => { x with members := f x.members })

section WithFollowed

variable (n) (a : Nat) (f : List (Nat × Subscription) → List (Nat × Subscription))

theorem modifyAggregate_eq_withFollowed :
    (n.modifyAggregate a fun x => { x with members := f x.members }) = n.withFollowed a f :=
  n.modifyAggregate_eq_mapBody a _

@[simp]
theorem listeners_withFollowed (t : Topic) : (n.withFollowed a f).listeners t = n.listeners t :=
  n.listeners_mapBodies (fun _ body => by
    split
    · cases body <;> rfl
    · rfl) t

@[simp]
theorem isPresent_withFollowed (t : Topic) : (n.withFollowed a f).isPresent t = n.isPresent t :=
  n.isPresent_mapBodies _ t

@[simp]
theorem kind?_withFollowed (i : Nat) : (n.withFollowed a f).kind? i = n.kind? i :=
  n.map_body?_mapBodies i Body.kind fun _ body => by
    split
    · cases body <;> rfl
    · rfl

@[simp]
theorem flags?_withFollowed (i : Nat) : (n.withFollowed a f).flags? i = n.flags? i :=
  congrArg Option.join (n.map_body?_mapBodies i Body.flags? fun _ body => by
    split
    · cases body <;> rfl
    · rfl)

@[simp]
theorem size_withFollowed : (n.withFollowed a f).nodes.size = n.nodes.size := n.size_mapBodies _

@[simp]
theorem registry_withFollowed : (n.withFollowed a f).registry = n.registry := rfl

@[simp]
theorem hasTopic_withFollowed (t : Topic) : (n.withFollowed a f).hasTopic t ↔ n.hasTopic t := by
  cases t with
  | changed i | received i => simp [hasTopic]
  | _ => exact Iff.rfl

variable {n a}

theorem view?_withFollowed_of_ne {i : Nat} (h : i ≠ a) : (n.withFollowed a f).view? i = n.view? i :=
  n.view?_mapBody_of_ne a h _

variable {x : AggregateNode} (hx : n.aggregate? a = some x)

include hx

theorem followed_of_aggregate : n.followed a = x.members := by
  rw [followed, aggregate?_eq_some_iff.mp hx]
  rfl

theorem held_of_aggregate : n.held a = x.subscription.toList ++ x.members.map (·.2) := by
  rw [held, aggregate?_eq_some_iff.mp hx]
  rfl

theorem aggregate?_withFollowed :
    (n.withFollowed a f).aggregate? a = some { x with members := f x.members } := by
  rw [aggregate?_eq_some_iff, withFollowed, body?_mapBody, if_pos rfl, aggregate?_eq_some_iff.mp hx]
  rfl

end WithFollowed

theorem recorded_of_aggregate {a c : Nat} {form : Form} (h : n.kind? a = some (.aggregate c form)) :
    n.recorded a = [] := by
  obtain ⟨body, hbody, hkind⟩ := Option.map_eq_some_iff.mp h
  cases body with
  | aggregate x =>
    rw [recorded, hbody]
    rfl
  | _ => cases hkind

theorem exists_aggregate? {a c : Nat} {form : Form} (h : n.kind? a = some (.aggregate c form)) :
    ∃ x, n.aggregate? a = some x := by
  obtain ⟨body, hbody, hkind⟩ := Option.map_eq_some_iff.mp h
  cases body with
  | aggregate x => exact ⟨x, aggregate?_eq_some_iff.mpr hbody⟩
  | _ => cases hkind

/-- The aggregate that a body is. -/
def Body.aggregateNode? : Body N A → Option AggregateNode
  | .aggregate a => some a
  | _ => none

theorem aggregate?_eq (n : Network N A σ) (id : Nat) :
    n.aggregate? id = ((n.body? id).map Body.aggregateNode?).join := by
  rw [aggregate?, body?]
  cases n.nodes[id]? with
  | none => rfl
  | some node =>
    obtain ⟨body, listeners, gone⟩ := node
    cases body <;> rfl

theorem aggregate?_modifyListeners (n : Network N A σ) (topic : Topic)
    (f : List (Attached A) → List (Attached A)) (id : Nat) :
    (n.modifyListeners topic f).aggregate? id = n.aggregate? id := by
  rw [aggregate?_eq, aggregate?_eq,
    n.map_body?_modifyListeners topic f Body.aggregateNode? fun body => by cases body <;> rfl]

@[simp]
theorem aggregate?_subscribed (n : Network N A σ) (topic : Topic) (listener : Listener A) (id : Nat) :
    (n.subscribed topic listener).aggregate? id = n.aggregate? id :=
  n.aggregate?_modifyListeners topic _ id

@[simp]
theorem aggregate?_unsubscribe (n : Network N A σ) (s : Subscription) (id : Nat) :
    (n.unsubscribe s).aggregate? id = n.aggregate? id := n.aggregate?_modifyListeners ..

theorem followMember_eq (n : Network N A σ) (a member : Nat) : followMember a member n
    = some (⟨⟩, (n.subscribed (n.changeTopic member) (.relay a)).withFollowed a
      (· ++ [(member, ⟨n.changeTopic member, n.nextToken⟩)])) := by
  rw [← modifyAggregate_eq_withFollowed]
  rfl

theorem unfollowMember_eq {a member : Nat} {x : AggregateNode} (hx : n.aggregate? a = some x)
    {s : Subscription} (hs : x.members.find? (·.1 == member) = some (member, s)) :
    unfollowMember a member n
      = some (⟨⟩, (n.unsubscribe s).withFollowed a (·.eraseP (·.1 == member))) := by
  rw [unfollowMember, get_bind_apply, hx, Option.bind_some, hs, ← modifyAggregate_eq_withFollowed]
  rfl

/-- A collection has other members, and its follower follows them. -/
structure Refollows (n m : Network N A σ) (e : FormEntry N) (items : List (Nat × Modifier N)) :
    Prop where
  typed : m.Typed
  ledger : m.Ledger
  registry : m.registry = n.registry.withItems e.collection items
  kind : ∀ i, m.kind? i = n.kind? i
  flags : ∀ i, m.flags? i = n.flags? i
  view : ∀ i ≠ e.aggregate, m.view? i = n.view? i
  followers : ∀ c, m.listeners (.members c) = n.listeners (.members c)
  topic : ∀ t, n.hasTopic t → m.hasTopic t
  present : ∀ set, n.isPresent (.paths set) → m.isPresent (.paths set)
  there : ∀ id, n.isPresent (.changed id) → m.isPresent (.changed id)
  followed : (m.followed e.aggregate).map (·.1) = items.map (·.1)
  followed_topic : ∀ d ∈ m.followed e.aggregate, ∃ id, d.1 = id + 2 ∧ d.2.topic = .received (id + 1)
  joined : ∀ s ∈ m.held e.aggregate,
    (∃ c, s.topic = .members c) ∨ ∃ i, (i, s) ∈ m.followed e.aggregate
  released : m.released = n.released
  buffer : m.buffer = n.buffer
  host : m.host = n.host
  callbacks : ∀ t, m.callbacks t = n.callbacks t

/-- Nodes have other listeners, and there is nothing else to see of them. The listeners of collections
and those of hosts are as they were. -/
structure ListenersDiffer (n m : Network N A σ) : Prop where
  view : ∀ i, m.view? i = n.view? i
  aggregate : ∀ i, m.aggregate? i = n.aggregate? i
  registry : m.registry = n.registry
  followers : ∀ c, m.listeners (.members c) = n.listeners (.members c)
  callbacks : ∀ t, m.callbacks t = n.callbacks t
  topic : ∀ t, n.hasTopic t → m.hasTopic t
  present : ∀ t, m.isPresent t = n.isPresent t
  released : m.released = n.released
  buffer : m.buffer = n.buffer
  host : m.host = n.host

theorem listenersDiffer_subscribed (n : Network N A σ) {topic : Topic} {listener : Listener A}
    (hmembers : ∀ c, topic ≠ .members c) (haction : listener.action? = none) :
    n.ListenersDiffer (n.subscribed topic listener) where
  view i := n.view?_subscribed i topic listener
  aggregate := n.aggregate?_subscribed topic listener
  registry := n.registry_subscribed topic listener
  followers c := n.listeners_subscribed_of_ne listener (hmembers c).symm
  callbacks := n.callbacks_subscribed topic haction
  topic t := (n.hasTopic_subscribed topic listener t).mpr
  present := n.isPresent_subscribed topic listener
  released := by cases topic <;> rfl
  buffer := by cases topic <;> rfl
  host := by cases topic <;> rfl

theorem Ledger.listenersDiffer_unsubscribe (hn : n.Ledger) {id : Nat} {s : Subscription}
    (hs : s ∈ n.held id) (hmembers : ∀ c, s.topic ≠ .members c) :
    n.ListenersDiffer (n.unsubscribe s) where
  view i := n.view?_unsubscribeAll i [s]
  aggregate := n.aggregate?_unsubscribe s
  registry := n.registry_unsubscribeAll [s]
  followers c := by
    rw [listeners_unsubscribe, List.filter_eq_self]
    exact fun attached _ => decide_eq_true fun heq => hmembers c (heq ▸ rfl)
  callbacks := by
    have hgiven : ∀ d ∈ [s], d ∈ n.held id := by simpa using hs
    exact hn.callbacks_unsubscribeAll hgiven
  topic t := (n.hasTopic_unsubscribeAll [s] t).mpr
  present := n.isPresent_unsubscribeAll [s]
  released := n.released_unsubscribeAll [s]
  buffer := n.buffer_unsubscribeAll [s]
  host := n.host_unsubscribeAll [s]

/-- The subscription of a follower that is to no member is to a collection. -/
theorem Wired.topic_of_subscription (hn : n.Wired sc) {a c : Nat} {form : Form}
    (hkind : n.kind? a = some (.aggregate c form)) {x : AggregateNode} (hx : n.aggregate? a = some x)
    {s : Subscription} (hs : s ∈ x.subscription.toList) : ∃ c, s.topic = .members c := by
  have hnodup := hn.ledger.held_nodup a
  have hheld : s ∈ n.held a := held_of_aggregate hx ▸ List.mem_append_left _ hs
  refine ((hn.traced a).joined ⟨c, form, hkind⟩ s hheld).resolve_right ?_
  rintro ⟨i, hi⟩
  rw [followed_of_aggregate hx] at hi
  rw [held_of_aggregate hx, List.nodup_append] at hnodup
  exact hnodup.2.2 s hs s (List.mem_map_of_mem hi) rfl

section Refollows

variable {e : FormEntry N} {items : List (Nat × Modifier N)} {key : StatKey} {form : Form}
  {path : PathKey}

/-- The follower of a collection follows other members, and its listeners change with that. -/
theorem Wired.refollows (hn : n.Wired sc) (he : n.registry.form? key form path = some e)
    {n₁ n₂ : Network N A σ} (hs : n.SameNodes n₁)
    (hr : n₁.registry = n.registry.withItems e.collection items) (hd : n₁.ListenersDiffer n₂)
    {x : AggregateNode} (hx : n₁.aggregate? e.aggregate = some x)
    {f : List (Nat × Subscription) → List (Nat × Subscription)}
    (htyped : (n₂.withFollowed e.aggregate f).Typed) (hledger : (n₂.withFollowed e.aggregate f).Ledger)
    (hfollowed : (f x.members).map (·.1) = items.map (·.1))
    (htopic : ∀ d ∈ f x.members, ∃ id, d.1 = id + 2 ∧ d.2.topic = .received (id + 1)) :
    n.Refollows (n₂.withFollowed e.aggregate f) e items := by
  have hx₀ : n.aggregate? e.aggregate = some x := by rwa [aggregate?, ← hs.nodes]
  have hxm := aggregate?_withFollowed f ((hd.aggregate _).trans hx)
  have hfollowed_eq := followed_of_aggregate hxm
  exact {
    typed := htyped
    ledger := hledger
    registry := hd.registry.trans hr
    kind i := by rw [kind?_withFollowed, kind?_of_view (hd.view i), hs.kind]
    flags i := by rw [flags?_withFollowed, flags?_of_view (hd.view i), flags?_of_view (hs.view i)]
    view i hi := by rw [view?_withFollowed_of_ne _ hi, hd.view, hs.view]
    followers c := by rw [listeners_withFollowed, hd.followers, hs.listeners]
    topic t ht := (hasTopic_withFollowed ..).mpr (hd.topic t (hs.topic t ht))
    present set hset := by
      rw [isPresent_withFollowed, hd.present]
      exact hs.present set hset
    there id hid := by
      rw [isPresent_withFollowed, hd.present]
      exact hs.there id hid
    followed := hfollowed_eq ▸ hfollowed
    followed_topic := hfollowed_eq ▸ htopic
    joined s hheld := by
      rw [held_of_aggregate hxm] at hheld
      rw [hfollowed_eq]
      obtain hheld | hheld := List.mem_append.mp hheld
      · exact .inl (hn.topic_of_subscription (hn.forms _ _ _ _ he).kind hx₀ hheld)
      · obtain ⟨d, hd, rfl⟩ := List.mem_map.mp hheld
        exact .inr ⟨d.1, hd⟩
    released := hd.released.trans hs.released
    buffer := hd.buffer.trans hs.buffer
    host := hd.host.trans hs.host
    callbacks t := by
      rw [callbacks, listeners_withFollowed, ← callbacks, hd.callbacks, hs.callbacks] }

namespace Refollows

variable (h : n.Refollows m e items)

include h

theorem hasCell (hn : n.Wired sc) (he : n.registry.form? key form path = some e) {id : Nat}
    {source : FormulaSource N} {p : Path (Stat N)} (hcell : n.HasCell id source p) :
    m.HasCell id source p := by
  refine hcell.of_kind (fun i _ => h.kind _) (held_of_view (h.view _ ?_)) (h.there _)
  intro heq
  have := (hn.forms _ _ _ _ he).kind
  rw [← heq, hcell.cached] at this
  cases this

theorem recorded (hn : n.Wired sc) (he : n.registry.form? key form path = some e) (id : Nat) :
    m.recorded id = n.recorded id := by
  by_cases hid : id = e.aggregate
  · have hkind := (hn.forms _ _ _ _ he).kind
    rw [hid, recorded_of_aggregate hkind, recorded_of_aggregate ((h.kind _).trans hkind)]
  · exact recorded_of_view (h.view _ hid)

/-- Hosts do not list what follows a collection. -/
theorem lists (hn : n.Wired sc) (he : n.registry.form? key form path = some e) (hl : n.Lists) :
    m.Lists := by
  refine hl.mono (h.registry ▸ .refl _) (fun _ _ _ he => h.registry ▸ he) fun x _ inner hwrapped =>
    ⟨h.kind _, held_of_view (h.view _ fun heq => ?_)⟩
  rw [heq, (hn.forms _ _ _ _ he).kind] at hwrapped
  cases hwrapped

/-- The nodes stay connected when the members of a collection change. -/
theorem wired (hn : n.Wired sc) (ho : n.registry.Orderly sc)
    (he : n.registry.form? key form path = some e)
    (hmembers : ∀ i ∈ items, i ∈ n.registry.items e.collection ∨ i.2.form = e.form
      ∧ i.2.path = e.path ∧ sc.HasFormula i.2.formula
      ∧ ∃ id, i.1 = id + 2 ∧ n.HasCell id (.plain i.2.formula) i.2.path) : m.Wired sc where
  typed := h.typed
  ledger := h.ledger
  stages k e' he' := by
    rw [h.registry] at he'
    exact (hn.stages k e' he').mono (fun _ _ => h.hasCell hn he)
      (fun g hg => ⟨g, by rwa [h.registry], rfl⟩)
      fun l s stage layers hl => ⟨layers, by rwa [h.registry], fun _ => rfl⟩
  forms k f p e' he' := by
    rw [h.registry] at he'
    have hcell := hn.forms k f p e' he'
    -- only the aggregate of this collection follows other cells now
    by_cases hc : e'.collection = e.collection
    · obtain ⟨rfl, rfl, rfl⟩ := ho.collections _ _ _ _ _ _ _ _ he' he hc
      obtain rfl := Option.some.inj (he'.symm.trans he)
      refine ⟨(h.kind _).trans hcell.kind, h.topic _ hcell.topic, ?_, ?_, h.followed_topic,
        fun i hi => ?_⟩
      · rw [h.followers]
        exact hcell.follower
      · rw [h.registry, Registry.items_withItems_self]
        exact h.followed
      · rw [h.registry, Registry.items_withItems_self] at hi
        have : i.2.form = e'.form ∧ i.2.path = e'.path ∧ sc.HasFormula i.2.formula
            ∧ ∃ id, i.1 = id + 2 ∧ n.HasCell id (.plain i.2.formula) i.2.path :=
          (hmembers i hi).elim (hcell.members i) id
        obtain ⟨hform, hpath, hreads, id, hid, hc⟩ := this
        exact ⟨hform, hpath, hreads, id, hid, h.hasCell hn he hc⟩
    · have hne : e'.aggregate ≠ e.aggregate := by
        intro heq
        have := hcell.kind
        rw [heq, (hn.forms _ _ _ _ he).kind] at this
        exact hc (Kind.aggregate.inj (Option.some.inj this)).1.symm
      exact hcell.mono (h.kind _) (h.topic _) (h.followers _) (followed_of_view (h.view _ hne))
        (by rw [h.registry, Registry.items_withItems_of_ne hc]) fun _ _ _ _ _ _ => h.hasCell hn he
  sets k g hg := by
    rw [h.registry] at hg
    exact (hn.sets k g hg).imp (h.topic _) (h.present _)
  next c i hc := hn.next c i ((h.kind c).symm.trans hc)
  made id kind hk := (hn.made id kind ((h.kind id).symm.trans hk)).mono
    (fun id kind hkind => (h.kind id).trans hkind)
    fun l s stage layers hl => ⟨layers, by rwa [h.registry], fun _ => rfl⟩
  traced id := by
    by_cases hid : id = e.aggregate
    · subst hid
      have hkind := (h.kind _).trans (hn.forms _ _ _ _ he).kind
      refine ⟨fun hformula => ?_, fun _ => h.joined, fun d hd => ?_⟩
      · obtain ⟨source, p, hformula⟩ := hformula
        rw [hkind] at hformula
        cases hformula
      · rw [recorded_of_aggregate hkind] at hd
        cases hd
    · refine (hn.traced id).of_view (h.view id hid) fun d _ hfiled => hfiled.mono (fun ht => ?_)
        fun k g hg _ => ⟨k, g, by rwa [h.registry] at hg, rfl⟩
      rw [h.registry]
      exact ht
  path_held hsc k g hg id s hs htopic := by
    rw [h.registry] at hg ⊢
    by_cases hid : id = e.aggregate
    · subst hid
      -- the aggregate listens to its collection and to cells, not to paths
      obtain ⟨c, hc⟩ | ⟨i, hi⟩ := h.joined s hs
      · rw [htopic] at hc
        cases hc
      · obtain ⟨c, -, hc⟩ := h.followed_topic _ hi
        rw [htopic] at hc
        cases hc
    · rw [held_of_view (h.view _ hid)] at hs
      exact hn.path_held hsc k g hg id s hs htopic

theorem changes {tell : A → σ → σ} (hn : n.Wired sc)
    (he : n.registry.form? key form path = some e) : n.Changes tell m := by
  have hobserved (c : Nat) : m.isObserved c = n.isObserved c := by
    rw [isObserved, isObserved, h.flags]
  refine .of_proceeds ⟨.of_buffer h.buffer, fun id kind hkind => (h.kind id).trans hkind,
    fun c => by rw [isEntered, isEntered, h.flags], h.callbacks⟩ hobserved ?_
    (fun d _ => .inr (by rw [value?, h.flags, value?])) (fun d inner hd hheld => ?_)
    ⟨fun id _ _ => .inl (h.recorded hn he id), fun id hid => (h.recorded hn he id).trans hid⟩
  · rw [notices, notices, h.buffer, h.host]
  · refine (held_of_view (h.view d ?_)).trans hheld
    rintro rfl
    rw [(hn.forms _ _ _ _ he).kind] at hd
    cases hd

end Refollows

/-! ## Members that come -/

theorem changeTopic_of_exposed {i inner : Nat} (h : n.kind? i = some (.exposed inner)) :
    n.changeTopic i = .received inner := by
  obtain ⟨body, hbody, hkind⟩ := Option.map_eq_some_iff.mp h
  obtain ⟨node, hnode, rfl⟩ := body?_eq_some_iff.mp hbody
  obtain ⟨body, listeners, gone⟩ := node
  cases body with
  | exposed i =>
    cases hkind
    rw [changeTopic, hnode]
  | _ => cases hkind

/-- The follower of a collection follows a cell that joined the collection. -/
theorem Wired.refollows_added (hn : n.Wired sc) (he : n.registry.form? key form path = some e)
    {n' : Network N A σ} (hs : n.SameNodes n')
    (hr : n'.registry = n.registry.withItems e.collection items) {id : Nat} {modifier : Modifier N}
    (hitems : items = n.registry.items e.collection ++ [(id + 2, modifier)])
    {source : FormulaSource N} {p : Path (Stat N)} (hcell : n.HasCell id source p)
    (hm : m = (n'.subscribed (.received (id + 1)) (.relay e.aggregate)).withFollowed e.aggregate
      (· ++ [(id + 2, ⟨.received (id + 1), n'.nextToken⟩)])) : n.Refollows m e items := by
  subst hm
  have hform := hn.forms _ _ _ _ he
  have hkind' : n'.kind? e.aggregate = some (.aggregate e.collection e.form) :=
    (hs.kind _).trans hform.kind
  obtain ⟨x, hx⟩ := exists_aggregate? hkind'
  have htopic : n'.hasTopic (.received (id + 1)) := by
    refine hs.topic _ ?_
    obtain ⟨c, hc, -⟩ := kind?_eq_cached_iff.mp hcell.cached
    simp [hasTopic, flags?_of_cached hc]
  have hfollowed : x.members = n.followed e.aggregate := by
    rw [← followed_of_view (hs.view _), followed_of_aggregate hx]
  refine hn.refollows he hs hr (n'.listenersDiffer_subscribed (by simp) rfl) hx ?_ ?_ ?_
    fun d hd => ?_
  · refine (hs.typed hn.typed).of_listeners (fun i kind hi => ?_) (fun t attached ha => ?_)
      fun i hi => ?_
    · rw [kind?_withFollowed, kind?_subscribed, hi]
    · rw [listeners_withFollowed] at ha
      by_cases ht : t = .received (id + 1)
      · subst ht
        rw [listeners_subscribed_self _ _ htopic, List.mem_append, List.mem_singleton] at ha
        refine ha.imp_right fun ha => ?_
        rw [ha]
        refine ⟨.inr ⟨e.collection, e.form, by simp [hkind']⟩, fun i hi => ?_⟩
        obtain rfl : e.aggregate = i := Option.some.inj hi
        obtain ⟨token, hfollower⟩ := hform.follower
        rw [isPresent_withFollowed, isPresent_subscribed]
        exact hs.there _ (hn.typed.present (hfollower ▸ List.mem_singleton_self _) _ rfl)
      · rw [listeners_subscribed_of_ne _ _ ht] at ha
        exact .inl ha
    · rw [isPresent_withFollowed, isPresent_subscribed]
      exact hi
  · -- the aggregate holds one subscription more, and the cell has one listener more
    have hnode : (Listener.relay e.aggregate : Listener A).node? = some e.aggregate := rfl
    refine (hs.ledger hn.ledger).attach (.received (id + 1)) hnode ?_ (fun t ht => ?_) ?_
      (fun i hi => ?_) rfl
    · rw [listeners_withFollowed, listeners_subscribed_self _ _ htopic]
    · rw [listeners_withFollowed, listeners_subscribed_of_ne _ _ ht]
    · rw [held_of_aggregate (aggregate?_withFollowed _ ((aggregate?_subscribed ..).trans hx)),
        held_of_aggregate hx, List.map_append, ← List.append_assoc]
      exact List.perm_append_singleton _ _
    · rw [held_of_view (view?_withFollowed_of_ne _ hi), held_subscribed]
  · rw [hfollowed, hitems, List.map_append, List.map_append, hform.followed]
    rfl
  · obtain hd | hd := List.mem_append.mp hd
    · exact hform.followed_topic d (hfollowed ▸ hd)
    · rw [List.mem_singleton.mp hd]
      exact ⟨id, rfl, rfl⟩

section Announced

variable [Number N] (hn : n.Inv sc) (h : n.Refollows m e items)
  (he : n.registry.form? key form path = some e)
  (hold : ∀ i ∈ n.registry.items e.collection, i ∈ items ∨ i.1 ∉ items.map (·.1))

include hn h he

omit he in
/-- What a cell computes does not change as long as the cell is on file. -/
theorem Refollows.denotes
    (hold : ∀ i ∈ n.registry.items e.collection, i ∈ items ∨ i.1 ∉ items.map (·.1))
    {id : Nat} {φ φ' : Formula N} {p p' : Path (Stat N)} (hd : n.Denotes sc id φ p)
    (hm : m.Denotes sc id φ' p') : m.Denotes sc id φ p := by
  -- whatever the cell is on file for now, it was on file for before, or has one of the members
  have hor : n.Denotes sc id φ' p' ∨ id + 2 ∈ items.map (·.1) := by
    cases hm with
    | stage he' hs hk =>
      rw [h.registry] at he'
      exact .inl (.stage he' hs hk)
    | @member k f q e' id i hsc he' hi =>
      rw [h.registry] at he' hi
      by_cases hc : e'.collection = e.collection
      · rw [hc, Registry.items_withItems_self] at hi
        exact .inr (List.mem_map_of_mem (f := Prod.fst) hi)
      · rw [Registry.items_withItems_of_ne hc] at hi
        exact .inl (.member hsc he' hi)
  cases hd with
  | stage he' hs hk => exact .stage (by rw [h.registry]; exact he') hs hk
  | @member k f q e' id i hsc he' hi =>
    by_cases hc : e'.collection = e.collection
    · rw [hc] at hi
      obtain hi' | hi' := hold _ hi
      · refine .member (e := e') hsc (by rw [h.registry]; exact he') ?_
        rwa [hc, h.registry, Registry.items_withItems_self]
      · obtain ⟨rfl, rfl⟩ := hn.wired.denotes_unique hn.orderly
          (.member hsc he' (hc ▸ hi)) (hor.resolve_right hi')
        exact hm
    · refine .member hsc (by rw [h.registry]; exact he') ?_
      rwa [h.registry, Registry.items_withItems_of_ne hc]

/-- Whoever is not told of the members of a collection has nothing to do with them. -/
theorem Refollows.keepsAt (hm : m.Wired sc)
    (hold : ∀ i ∈ n.registry.items e.collection, i ∈ items ∨ i.1 ∉ items.map (·.1))
    (ho : m.registry.Orderly sc) {id : Nat} (hd : ∃ φ p, m.Denotes sc id φ p)
    (hresolved : n.Resolved id) (hnot : ¬ m.Hears (.changed e.aggregate) (id + 1)) :
    n.KeepsAt sc m id := by
  obtain ⟨φ, p, hd⟩ := hd
  obtain ⟨source, hcell, -⟩ := hm.cell_of_denotes ho.stats hd
  have hrecorded : m.recorded id = n.recorded id :=
    h.recorded hn.wired he id
  refine ⟨fun φ' p' hd' => h.denotes hn hold hd' hd, by rw [value?, value?, h.flags], hrecorded,
    fun k hk => ?_⟩
  rw [h.registry]
  cases k with
  | node k => exact rfl
  | paths k => exact ⟨rfl, fun _ => rfl, fun _ he => he⟩
  | form k f q =>
    refine ⟨rfl, fun e' he' => Registry.items_withItems_of_ne (fun hc => hnot ?_) items⟩
    obtain ⟨rfl, rfl, rfl⟩ := hn.orderly.collections _ _ _ _ _ _ _ _ he' he hc
    obtain ⟨s, hs⟩ := hk
    have htopic : some (Topic.changed e.aggregate) = some s.topic := by
      rw [← hresolved _ hs, Registry.topic?, he, Option.map_some]
    rw [Option.some.inj htopic]
    exact hcell.hears hm (mem_held_of_recorded (hrecorded ▸ hs))

omit [Number N] hn he in
/-- Other members of a collection leave the cells alone that are under other keys. New ones use nothing
yet. -/
theorem Refollows.spares (hn : n.Wired sc) (ho : n.registry.Orderly sc)
    (he : n.registry.form? key form path = some e)
    (hnew : ∀ i ∈ items, i ∈ n.registry.items e.collection ∨ ∀ id, i.1 = id + 2 → n.recorded id = [])
    {K : DependencyKey → Prop} (hK : K (.form key form path)) : n.Spares K m := by
  have hrecorded (id : Nat) : m.recorded id = n.recorded id := h.recorded hn he id
  refine ⟨fun k id hid => ?_, fun k id hid hnot => ⟨?_, by rw [value?, value?, h.flags]⟩,
    congrArg Registry.installed h.registry⟩
  · have heq := hrecorded id
    cases k with
    | node k =>
      obtain ⟨e', he', rfl⟩ := hid
      rw [h.registry] at he'
      exact .inl ⟨⟨e', he', rfl⟩, heq⟩
    | form k f q =>
      obtain ⟨e', he', hi⟩ := hid
      rw [h.registry] at he' hi
      by_cases hc : e'.collection = e.collection
      · rw [hc, Registry.items_withItems_self] at hi
        obtain ⟨i, hi, hid⟩ := List.mem_map.mp hi
        obtain hold | hnil := hnew i hi
        · exact .inl ⟨⟨e', he', hc ▸ hid ▸ List.mem_map_of_mem hold⟩, heq⟩
        · exact .inr (heq.trans (hnil id hid))
      · rw [Registry.items_withItems_of_ne hc] at hi
        exact .inl ⟨⟨e', he', hi⟩, heq⟩
    | paths k => cases hid
  · cases k with
    | node k =>
      obtain ⟨e', he', rfl⟩ := hid
      exact ⟨e', by rw [h.registry]; exact he', rfl⟩
    | form k f q =>
      obtain ⟨e', he', hi⟩ := hid
      have hc : e'.collection ≠ e.collection := fun hc => by
        obtain ⟨rfl, rfl, rfl⟩ := ho.collections _ _ _ _ _ _ _ _ he' he hc
        exact hnot hK
      refine ⟨e', by rw [h.registry]; exact he', ?_⟩
      rwa [h.registry, Registry.items_withItems_of_ne hc]
    | paths k => cases hid

omit hn h he

variable {host : Host N A σ} {tell : A → σ → σ} (hhost : host.Quiet tell)

include hn h he hhost hold in
/-- Announcing that a collection has other members keeps the invariant, and spares who does not depend on
the collection. -/
theorem leads_refollow (hidle : n.Idle)
    (hmembers : ∀ i ∈ items, i ∈ n.registry.items e.collection ∨ i.2.form = e.form
      ∧ i.2.path = e.path ∧ sc.HasFormula i.2.formula
      ∧ ∃ id, i.1 = id + 2 ∧ n.HasCell id (.plain i.2.formula) i.2.path)
    (hnodup : (items.map (·.1)).Nodup)
    (hdisjoint : ∀ k f p e', n.registry.form? k f p = some e' → ∀ i ∈ items,
      ∀ i' ∈ n.registry.items e'.collection, i.1 = i'.1 → e'.collection = e.collection)
    (hnew : ∀ i ∈ items, i ∈ n.registry.items e.collection
      ∨ ∀ id, i.1 = id + 2 → n.isObserved (id + 1) = false ∧ n.recorded id = [])
    {fuel : Nat} (hfuel : 3 * m.nodes.size + 3 ≤ fuel) :
    Leads True (raise host fuel (.changed e.aggregate) .changed) m fun _ n' => n'.Inv sc
      ∧ n.Changes tell n' ∧ (∃ ids left, n' = m.dim ids left)
      ∧ ∀ K, n.Confines K → K (.form key form path) → n.Spares K n' := by
  have hwired := h.wired hn.wired hn.orderly he hmembers
  have horderly : m.registry.Orderly sc := h.registry ▸ hn.orderly.withItems hnodup hdisjoint
  have hkind : m.kind? e.aggregate = some (.aggregate e.collection e.form) :=
    (h.kind _).trans (hn.wired.forms _ _ _ _ he).kind
  have hinward : m.Inward (.changed e.aggregate) :=
    ⟨by simp, fun d inner hd => by cases hd; simp [hkind], fun d inner hd => by cases hd; simp [hkind]⟩
  refine (raise_changed hhost hwired.typed hinward hfuel).weaken ?_
  rintro _ _ ⟨ids, left, rfl, hdefers, hids⟩
  refine ⟨⟨?_, ?_⟩, (h.changes hn.wired he).trans (.dim hdefers), ⟨ids, left, rfl⟩, fun K hK hkey => ?_⟩
  · refine hn.toCore.announce hwired horderly (h.lists hn.wired he hn.listed) (h.released.trans hn.unreleased)
      (.of_eq h.flags) (fun id hd hresolved hnot => h.keepsAt hn he hwired hold horderly hd hresolved hnot)
      (fun id φ p hd hobserved _ => ?_) (fun id φ p hentered _ => ?_)
      (fun hsc k e' he' hflagged _ => ?_) (fun hsc k e' he' hvalued hentered _ => ?_) hids
      (fun _ c _ => hidle c) left
    · -- a cell that came just now was not read yet, so what is observed was on file before
      cases hd with
      | stage he' hs hk => exact .stage (by rw [h.registry] at he'; exact he') hs hk
      | @member k f q e' id i hsc he' hi =>
        rw [h.registry] at he' hi
        refine .member hsc he' ?_
        by_cases hc : e'.collection = e.collection
        · rw [hc, Registry.items_withItems_self] at hi
          refine hc ▸ (hnew _ hi).resolve_right fun hdark => ?_
          simp [(hdark id rfl).1] at hobserved
        · rwa [Registry.items_withItems_of_ne hc] at hi
    · rw [hidle] at hentered
      cases hentered
    · rw [h.registry] at he' ⊢
      exact hn.lit.main hsc k e' he' hflagged
    · rw [h.registry] at he' ⊢
      obtain ⟨l, g, layers, hcell, -⟩ := (hn.wired.stages _ _ he').cell
      rw [h.recorded hn.wired he]
      exact hn.lit.tells hsc k e' he' hvalued hentered
  · rw [registry_dim, h.registry]
    exact hn.counted
  · have hspares : n.Spares K m := h.spares hn.wired hn.orderly he
      (fun i hi => (hnew i hi).imp_right fun hdark id hid => (hdark id hid).2) hkey
    have he' : m.registry.form? key form path = some e := by
      rw [h.registry]
      exact he
    exact hspares.trans (hwired.spares_dim (hspares.confines hK)
      (hwired.isAbout_aggregate horderly he' hkey) hids left)

end Announced

end Refollows

/-! ## Modifiers that are registered -/

/-- The network with the cell of a modifier more. -/
def withMember (n : Network N A σ) (modifier : Modifier N) (label : String) : Network N A σ :=
  (n.pushNode (.formula ⟨.plain modifier.formula, modifier.path, [], none⟩)).withKept n.nodes.size label

section WithMember

variable (modifier : Modifier N) (label : String)

theorem kind?_formula_withMember (n : Network N A σ) :
    (n.pushNode (.formula ⟨.plain modifier.formula, modifier.path, [], none⟩)).kind? n.nodes.size
      = some (.formula (.plain modifier.formula) modifier.path) := by
  rw [kind?_pushNode, if_pos rfl]
  rfl

theorem hasCell_withMember (n : Network N A σ) : (n.withMember modifier label).HasCell n.nodes.size
    (.plain modifier.formula) modifier.path :=
  hasCell_withKept (n.kind?_formula_withMember modifier) (isPresent_pushNode_self _ _)
    (size_pushNode ..) label

@[simp]
theorem registry_withMember (n : Network N A σ) :
    (n.withMember modifier label).registry = n.registry := by
  rw [withMember, withKept, registry_pushNode, registry_pushHolding, registry_pushNode]

theorem Wired.builds_withMember (hn : n.Wired sc) : n.Builds (n.withMember modifier label) := by
  have hpush : n.Builds (n.pushNode (.formula ⟨.plain modifier.formula, modifier.path, [], none⟩)) :=
    (Builds.refl hn.typed hn.ledger).pushNode rfl rfl
      ⟨fun _ h => (by cases h), fun _ h => (by cases h), rfl, fun _ _ _ _ h => (by cases h),
        fun _ _ h => (by cases h), fun _ h => (by cases h)⟩
  exact hpush.withKept (kind?_formula_withMember modifier n) (size_pushNode ..) label

/-- A cell that is not on file yet is of no account. -/
theorem Core.grows_withMember [Number N] (hn : n.Core sc) (hpath : sc.HasPath modifier.path)
    (hhas : sc.HasFormula modifier.formula) (hs : (n.withMember modifier label).SameNodes m)
    (hr : m.registry = n.registry) : n.Grows sc m := by
  have hformula : (n.withMember modifier label).Made sc
      (.formula (.plain modifier.formula) modifier.path) := ⟨hpath, hhas⟩
  have hmade := made_withKept (kind?_formula_withMember modifier n) (size_pushNode ..) hformula
  refine .of_files (hn.wired.builds_withMember modifier label) hs (hr ▸ hn.orderly)
    (fun id kind hid hkind => (hmade id kind hid ((hs.kind id).symm.trans hkind)).mono
      (fun id kind hkind => (hs.kind id).trans hkind)
      fun l s stage layers hl => ⟨layers, hr ▸ registry_withMember modifier label n ▸ hl, fun _ => rfl⟩)
    (hr ▸ .refl _) (fun k g hg => .inl ⟨g, hr ▸ hg, rfl⟩) (fun k e he => .inl (hr ▸ he))
    (fun k f p e he => .inl (hr ▸ he)) (.inl (by rw [hr]))
    fun k f p e he => (hn.wired.forms k f p e he).topic

/-- Making the cell of a modifier before going on. The formula is put on record on the way. -/
theorem leads_addMemberCell {α : Type} {b : Prop} {c : Nat}
    {f : Nat → Collection N A → Collection N A} {next : Nat → Run N A σ α}
    {post : α → Network N A σ → Prop}
    (h : Leads b (next (n.nodes.size + 2))
      ((n.withMember modifier label).modifyCollection c (f n.nodes.size)) post) :
    Leads b (do
      let formula ← addFormula modifier.formula modifier.path
      let cached ← addCached formula label
      modify fun n => { n with collections := n.collections.modify c (f formula) }
      let exposed ← addExposed cached
      next exposed) n post := by
  refine .eq_bind (addFormula_eq ..) (.eq_bind (addCached_eq _
    (kind?_formula_withMember modifier n) _) (.modify_bind (.eq_bind (addExposed_eq ..) ?_)))
  have hsize (m : Network N A σ) (g : Collection N A → Collection N A) :
      (m.modifyCollection c g).nodes.size = m.nodes.size := rfl
  rw [withMember, withKept, size_pushNode] at h
  rw [← modifyCollection, hsize, size_pushHolding, size_pushNode]
  exact h

end WithMember

/-- How many modifiers a stat has is counted for pruning, and nothing else depends on it. -/
theorem leads_recount [Number N] (tell : A → σ → σ) {b : Prop} (hn : n.Inv sc) {key : StatKey}
    {graph : Nat} (hid : n.registry.graphId? key = some graph) (f : Nat → Nat) :
    Leads b (modify fun n => n.modifyGraph graph fun g => { g with modifierCount := f g.modifierCount })
      n fun _ n' => n'.Inv sc ∧ n.Changes tell n' ∧ n.registry.Akin n'.registry
        ∧ ∀ K, n.Spares K n' := by
  set recount : Subgraph N → Subgraph N := fun g => { g with modifierCount := f g.modifierCount }
  have hentry := Registry.stage?_modifyGraph (f := recount) hid (fun _ => rfl) fun _ => rfl
  have hform := Registry.form?_modifyGraph (f := recount) hid (fun _ => rfl) fun _ => rfl
  have hpaths := Registry.paths_modifyGraph (f := recount) hid (fun _ => rfl) fun _ => rfl
  have hmembers (k f p) : (n.registry.modifyGraph graph recount).members k f p
      = n.registry.members k f p := by
    rw [Registry.members, hform, Registry.members]
    rfl
  have ho := hn.orderly.modifyGraph (f := recount) hid (fun _ => rfl) (fun _ => rfl)
    (fun g hg => ⟨hn.orderly.nodes_nodup key g hg,
      fun e he => (hentry _).trans (hn.orderly.nodes_found key g hg e he)⟩)
    (fun g hg => ⟨hn.orderly.forms_nodup key g hg,
      fun e he => (hform ..).trans (hn.orderly.forms_found key g hg e he)⟩)
    (fun k e he => .inl (hentry k ▸ he)) fun k f p e he => .inl (hform k f p ▸ he)
  have hgrows : n.Grows sc (n.modifyGraph graph recount) := by
    refine .of_files (.refl hn.wired.typed hn.wired.ledger) (n.sameNodes_modifyGraph graph recount) ho
      (n.sameNodes_modifyGraph graph recount).made
      ⟨Registry.exists_graph?_modifyGraph hid (fun _ => rfl) fun _ => rfl,
        fun k e he => (hentry k).trans he, fun k f p e he => ⟨(hform k f p).trans he, rfl⟩,
        fun _ _ h => h, fun k p hp => hpaths k ▸ hp, fun k _ => hpaths k,
        Registry.inputs_congr (fun k f p => congrArg _ (hmembers k f p)) fun k => ?_⟩
      (fun k g' hg' => .inl ?_) (fun k e he => .inl (hentry k ▸ he))
      (fun k f p e he => .inl (hform k f p ▸ he)) (.inl rfl)
      fun k f p e he => (hn.wired.forms k f p e he).topic
    · simp only [registry_modifyGraph, Registry.inputs, hpaths]
    · obtain ⟨g, hg, -, hpaths⟩ := Registry.exists_graph?_of_modifyGraph (f := recount) hid
        (fun _ => rfl) (fun _ => rfl) hg'
      exact ⟨g, hg, hpaths.symm⟩
  refine .of_modify ⟨⟨hgrows.core hn.toCore, ?_⟩, hgrows.changes, ⟨hmembers, hpaths,
    fun k e he => (hentry k).trans he⟩, fun K => hgrows.spares hn.wired rfl⟩
  exact hn.counted.modifyGraph_le (f := recount) hid (fun _ => rfl) (fun _ => rfl) fun g q => le_rfl

end Network

namespace Registry

variable {N : Type}

/-- A modifier more is registered for a stat, and nodes of stages stay on file. -/
structure Gains (r r' : Registry N) (modifier : Modifier N) (stat : Stat N) : Prop where
  members : ∃ node, ∀ k f p, r'.members k f p = r.members k f p
    ++ if k = stat.key ∧ f = modifier.form ∧ p = modifier.path.key then [(node, modifier)] else []
  paths : ∀ k, r'.paths k = if k = stat.key ∧ modifier.path.isIn (r.paths k) = false
    then r.paths k ++ [modifier.path] else r.paths k
  stages : ∀ k e, r.stage? k = some e → r'.stage? k = some e

end Registry

namespace Network

variable {N A σ : Type} [Number N] {sc : Regime N} {n : Network N A σ} {host : Host N A σ}
  {tell : A → σ → σ} (hhost : host.Quiet tell)

include hhost

/-- Putting a cell into a collection that nobody used yet keeps the invariant. Only who reads the
collection is told. -/
theorem leads_addMember (hn : n.Inv sc) (hidle : n.Idle) {key : StatKey} {form : Form}
    {path : PathKey} {e : FormEntry N} (he : n.registry.form? key form path = some e) {id : Nat}
    {modifier : Modifier N} (hcell : n.HasCell id (.plain modifier.formula) modifier.path)
    (hform : modifier.form = e.form) (hpath : modifier.path = e.path)
    (hhas : sc.HasFormula modifier.formula) (hobserved : n.isObserved (id + 1) = false)
    (hrecorded : n.recorded id = [])
    (hoff : ∀ k f p e', n.registry.form? k f p = some e' →
      ∀ i ∈ n.registry.items e'.collection, i.1 ≠ id + 2) :
    Leads True (addMember host e.collection (id + 2) modifier) n fun _ n' => n'.Inv sc
      ∧ n.Changes tell n'
      ∧ n'.registry = n.registry.withItems e.collection
          (n.registry.items e.collection ++ [(id + 2, modifier)])
      ∧ ∀ K, n.Confines K → K (.form key form path) → n.Spares K n' := by
  have hnodes := hn.wired.forms _ _ _ _ he
  -- the tables of the collection list the modifier before anybody is told
  set items := n.registry.items e.collection ++ [(id + 2, modifier)] with hitems
  have hmem {i : Nat × Modifier N} (hi : i ∈ items) :
      i ∈ n.registry.items e.collection ∨ i = (id + 2, modifier) := by
    simpa [hitems] using hi
  refine .modify_bind ?_
  set n' := n.modifyCollection e.collection fun c =>
    { c with items := c.items ++ [(id + 2, modifier)] }
  change Leads True _ n' _
  have hs : n.SameNodes n' := n.sameNodes_modifyCollection _ fun _ => rfl
  have hr : n'.registry = n.registry.withItems e.collection items :=
    registry_modifyCollection (g := (· ++ [(id + 2, modifier)])) hnodes.topic fun _ => rfl
  -- only the aggregate is told, and it follows the cell that came
  obtain ⟨token, hfollower⟩ := hnodes.follower
  obtain ⟨fuel, hfuel, hemit⟩ := emit_members host (hs.typed hn.wired.typed)
    ((hs.listeners _).trans hfollower) (.added (id + 2))
  have hfollow := followMember_eq n' e.aggregate (id + 2)
  rw [changeTopic_of_exposed ((hs.kind _).trans hcell.exposed)] at hfollow
  have hrefollows := hn.wired.refollows_added he hs hr hitems hcell rfl
  have hsize : ((n'.subscribed (.received (id + 1)) (.relay e.aggregate)).withFollowed e.aggregate
      (· ++ [(id + 2, ⟨.received (id + 1), n'.nextToken⟩)])).nodes.size = n'.nodes.size := by
    rw [size_withFollowed, size_subscribed]
  generalize (n'.subscribed (.received (id + 1)) (.relay e.aggregate)).withFollowed e.aggregate
    (· ++ [(id + 2, ⟨.received (id + 1), n'.nextToken⟩)]) = m at hfollow hrefollows hsize
  have hraise := leads_refollow hn hrefollows he (fun i hi => .inl (List.mem_append_left _ hi)) hhost
    hidle (fun i hi => ?_) ?_ (fun k f p e' he' i hi i' hi' heq => ?_) (fun i hi => ?_)
    (hsize ▸ hfuel)
  · refine ((Leads.eq_bind hfollow hraise).congr hemit).weaken ?_
    rintro - _ ⟨hinv, hchanges, ⟨ids, left, rfl⟩, hspares⟩
    exact ⟨hinv, hchanges, (m.registry_dim ids left).trans hrefollows.registry, hspares⟩
  · refine (hmem hi).imp_right ?_
    rintro rfl
    exact ⟨hform, hpath, hhas, id, rfl, hcell⟩
  · rw [hitems, List.map_append, List.nodup_append]
    refine ⟨hn.orderly.members_nodup _, List.nodup_singleton _, fun a ha b hb => ?_⟩
    obtain ⟨i, hi, rfl⟩ := List.mem_map.mp ha
    rw [List.mem_singleton.mp hb]
    exact hoff _ _ _ _ he i hi
  · obtain hi | rfl := hmem hi
    · exact hn.orderly.members_disjoint _ _ _ _ _ _ _ _ he' he i' hi' i hi heq.symm
    · exact absurd heq.symm (hoff _ _ _ _ he' i' hi')
  · refine (hmem hi).imp_right ?_
    rintro rfl id' hid
    obtain rfl : id = id' := by omega
    exact ⟨hobserved, hrecorded⟩

/-- Registering a modifier for a stat keeps the invariant. -/
theorem leads_addModifierTo (hn : n.Inv sc) (hidle : n.Idle) {modifier : Modifier N} {stat : Stat N}
    (hadmits : sc.Admits stat) (hhasPath : sc.HasPath modifier.path)
    (hhas : sc.HasFormula modifier.formula) :
    Leads True (addModifierTo host modifier stat) n fun _ n' => n'.Inv sc ∧ n.Changes tell n'
      ∧ n.registry.Gains n'.registry modifier stat
      ∧ (stat.behaviors = [] → n.installed = [] → ∀ K, n.Confines K → K (.paths stat.key) →
        K (.form stat.key modifier.form modifier.path.key) → n.Spares K n') := by
  refine (leads_collectionOf hhost hn hadmits modifier.form hhasPath fun _ => .inr hidle).bind ?_
  rintro e n₁ ⟨hinv, hchanges, hgives, hspares, -⟩
  have he := hgives.entry
  obtain ⟨hform, hpath⟩ := Registry.form?_spec he
  -- the cell is made before it joins the collection
  refine leads_addMemberCell (f := fun formula c =>
    { c with formulas := c.formulas ++ [(modifier, formula)] }) modifier (modifier.label stat) ?_
  have hs₂ := (n₁.withMember modifier (modifier.label stat)).sameNodes_modifyCollection e.collection
    (f := fun c => { c with formulas := c.formulas ++ [(modifier, n₁.nodes.size)] }) fun _ => rfl
  have hr₂ := (registry_modifyCollection_of_items (n₁.withMember modifier (modifier.label stat))
    e.collection (f := fun c => { c with formulas := c.formulas ++ [(modifier, n₁.nodes.size)] })
    fun _ => rfl).trans (registry_withMember modifier (modifier.label stat) n₁)
  set n₂ := (n₁.withMember modifier (modifier.label stat)).modifyCollection e.collection fun c =>
    { c with formulas := c.formulas ++ [(modifier, n₁.nodes.size)] }
  have hgrows : n₁.Grows sc n₂ := hinv.toCore.grows_withMember _ _ hhasPath hhas hs₂ hr₂
  have hinv₂ : n₂.Inv sc := ⟨hgrows.core hinv.toCore, hr₂ ▸ hinv.counted⟩
  have hcell := hs₂.hasCell (n₁.hasCell_withMember modifier (modifier.label stat))
  have hdark := hgrows.not_flagged (c := n₁.nodes.size + 1) (by omega)
  refine (leads_addMember hhost hinv₂ (hgrows.extension.idle (hchanges.idle hidle)) (hr₂ ▸ he) hcell
    hform.symm (path_eq_of_key rfl hpath).symm hhas
    (Bool.eq_false_iff.mpr fun h => hdark (.inr (.inl h))) (hgrows.recorded_eq_nil le_rfl)
    fun k f p e' he' i hi => ?_).bind ?_
  · -- cells on file were there before
    rw [hr₂] at he' hi
    obtain ⟨-, -, -, id, hid, hcell'⟩ := (hinv.wired.forms _ _ _ _ he').members i hi
    have := lt_size_of_kind? hcell'.formula
    omega
  rintro - n₃ ⟨hinv₃, hchanges₃, hr₃, hspares₃⟩
  rw [hr₂] at hr₃
  have hchanges' := (hchanges.trans hgrows.changes).trans hchanges₃
  -- last, the modifier is counted for its stat
  refine (leads_graphOf hhost hinv₃ hadmits fun _ => .inr (hchanges'.idle hidle)).bind ?_
  rintro graph n₄ ⟨hinv₄, hchanges₄, hid, hakin₄, hspares₄, -⟩
  refine (leads_recount tell hinv₄ hid (· + 1)).weaken ?_
  rintro - n₅ ⟨hinv₅, hchanges₅, hakin₅, hspares₅⟩
  have hakin := hakin₄.trans hakin₅
  rw [hr₃] at hakin
  refine ⟨hinv₅, (hchanges'.trans hchanges₄).trans hchanges₅, ⟨⟨n₁.nodes.size + 2, fun k f p => ?_⟩,
    fun k => (hakin.paths k).trans (hgives.paths k),
    fun k e' he' => hakin.stages k e' (hgives.stages k e' he')⟩, fun hplain hnil K hK hpaths hkey => ?_⟩
  · rw [hakin.members, Registry.members_withItems hinv.orderly he, ← hgives.members]
    split
    next h =>
      obtain ⟨rfl, rfl, rfl⟩ := h
      rw [Registry.members, he]
      rfl
    · rw [List.append_nil]
  · have hspares₂ : n.Spares K n₂ := (hspares hplain hnil K hK hpaths).trans
      (hgrows.spares hinv.wired (congrArg Registry.installed hr₂))
    have hspares₃ := hspares₂.trans (hspares₃ K (hspares₂.confines hK) hkey)
    exact (hspares₃.trans (hspares₄ hplain (hspares₃.installed.trans hnil) K)).trans (hspares₅ K)

end Network

end StatEngine
