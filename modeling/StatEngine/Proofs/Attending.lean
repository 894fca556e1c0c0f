import StatEngine.Proofs.Disposal

/-!
# Nodes that attend a collection

An aggregate attends a collection: it listens to the collection, and it listens to every member, once for
each time that the member is there. It does so through the subscriptions it holds, so what it listens to
can be read off the books (`Ledger.perm_listenersOf`). When members come and go it adjusts its
subscriptions (`adjust`), and no other node notices.

## Main definitions

* `listenersOf`: the listeners at a topic that belong to a node;
* `Attends`: what a node listens to that attends a collection with certain members;
* `Signal.Turns`: how the members of a collection change when that is announced;
* `Rewires`: a node has other subscriptions.

## Main statements

* `Attends.length_listenersOf`: how often a node listens to a topic;
* `leads_adjust`: a node that adjusts attends the collection as it is now;
* `Followable.leads_addAggregate`: a node attends the collection it is made over.
-/

namespace StatEngine.Network

variable {N A σ : Type} {n n' n'' : Network N A σ} {a b c m : Nat} {nodes : List Nat} {t : Topic}

/-! ## The listeners of a node -/

/-- The listeners at a topic that belong to a node. -/
def listenersOf (n : Network N A σ) (a : Nat) (t : Topic) : List (Attached A) :=
  (n.listeners t).filter fun attached => decide (attached.listener.node? = some a)

theorem mem_listenersOf {attached : Attached A} :
    attached ∈ n.listenersOf a t ↔ attached ∈ n.listeners t ∧ attached.listener.node? = some a := by
  simp [listenersOf]

theorem listenersOf_congr (h : n'.listeners t = n.listeners t) :
    n'.listenersOf a t = n.listenersOf a t := by
  rw [listenersOf, h, listenersOf]

/-- A subscription of another node is none of a node's own. -/
theorem listenersOf_subscribed_of_ne {topic : Topic} {listener : Listener A}
    (h : listener.node? ≠ some a) (t : Topic) :
    (n.subscribed topic listener).listenersOf a t = n.listenersOf a t := by
  by_cases ht : t = topic
  · subst ht
    by_cases htopic : n.hasTopic t
    · simp [listenersOf, listeners_subscribed_self _ _ htopic, h]
    · rw [listenersOf, listenersOf, listeners_eq_nil_of_not_hasTopic _ htopic,
        listeners_eq_nil_of_not_hasTopic _ (mt (hasTopic_subscribed ..).mp htopic)]
  · exact listenersOf_congr (listeners_subscribed_of_ne _ _ ht)

namespace Ledger

/-- What another node gives back is none of a node's own. -/
theorem listenersOf_unsubscribeAll (h : n.Ledger) {given : List Subscription}
    (hgiven : ∀ s ∈ given, s ∈ n.held b) (ha : a ≠ b) (t : Topic) :
    (n.unsubscribeAll given).listenersOf a t = n.listenersOf a t := by
  rw [listenersOf, listeners_unsubscribeAll, List.filter_filter, listenersOf]
  refine List.filter_congr fun attached hattached => ?_
  by_cases hnode : attached.listener.node? = some a
  · have hkept : (⟨t, attached.token⟩ : Subscription) ∉ given := fun hmem =>
      ha (h.held_disjoint ((h.balance a _).mpr ⟨_, hattached, hnode⟩) (hgiven _ hmem))
    simp [hnode, hkept]
  · simp [hnode]

/-- A node listens through the subscriptions that it holds. -/
theorem perm_listenersOf (h : n.Ledger) (a : Nat) (t : Topic) :
    ((n.listenersOf a t).map fun attached => (⟨t, attached.token⟩ : Subscription)).Perm
      ((n.held a).filter (·.topic = t)) := by
  -- a token is given out once, so neither side has doubles and members decide
  have hnodup : ((n.listenersOf a t).map fun attached => (⟨t, attached.token⟩ : Subscription)).Nodup := by
    have htokens := (h.tokens_nodup t).sublist
      ((List.filter_sublist (p := fun attached => decide (attached.listener.node? = some a))).map _)
    refine .of_map Subscription.token ?_
    rwa [List.map_map]
  refine (List.perm_ext_iff_of_nodup hnodup ((h.held_nodup a).filter _)).mpr fun s => ?_
  obtain ⟨topic, token⟩ := s
  simp only [List.mem_map, mem_listenersOf, List.mem_filter, h.balance, decide_eq_true_eq,
    Subscription.mk.injEq]
  constructor
  · rintro ⟨⟨_, listener⟩, ⟨hmem, hnode⟩, rfl, rfl⟩
    exact ⟨⟨listener, hmem, hnode⟩, rfl⟩
  · rintro ⟨⟨listener, hmem, hnode⟩, rfl⟩
    exact ⟨⟨token, listener⟩, ⟨hmem, hnode⟩, rfl, rfl⟩

theorem length_listenersOf (h : n.Ledger) (a : Nat) (t : Topic) :
    (n.listenersOf a t).length = (n.held a).countP (·.topic = t) := by
  rw [← List.length_map, (h.perm_listenersOf a t).length_eq, List.countP_eq_length_filter]

end Ledger

/-! ## Topics of members -/

/-- Whether there is a node that others can follow. -/
def CanBeFollowed (n : Network N A σ) (m : Nat) : Prop := n.hasTopic (n.changeTopic m)

theorem changeTopic_ne_members (n : Network N A σ) (m c : Nat) : n.changeTopic m ≠ .members c := by
  unfold changeTopic
  split <;> simp

theorem changeTopic_of_not_exposed (h : ∀ inner, n.kind? m ≠ some (.exposed inner)) :
    n.changeTopic m = .changed m := by
  unfold changeTopic
  split
  · next inner _ _ hnode => exact absurd (by simp [kind?, body?, hnode, Body.kind]) (h inner)
  · rfl

theorem hasTopic_received : n.hasTopic (.received m) ↔ ∃ inner, n.kind? m = some (.cached inner) := by
  rw [hasTopic, flags?, kind?]
  cases n.body? m with
  | none => simp
  | some body => cases body <;> simp [Body.flags?, Body.kind]

/-- A node that can be followed is there, and where it announces its changes does not change. -/
theorem CanBeFollowed.of_kind (hm : n.CanBeFollowed m)
    (hkind : ∀ i kind, n.kind? i = some kind → n'.kind? i = some kind) :
    n'.changeTopic m = n.changeTopic m ∧ n'.CanBeFollowed m := by
  by_cases hexposed : ∃ inner, n.kind? m = some (.exposed inner)
  · obtain ⟨inner, hinner⟩ := hexposed
    have htopic := changeTopic_of_exposed hinner
    have htopic' := changeTopic_of_exposed (hkind _ _ hinner)
    refine ⟨htopic'.trans htopic.symm, ?_⟩
    rw [CanBeFollowed, htopic, hasTopic_received] at hm
    rw [CanBeFollowed, htopic', hasTopic_received]
    exact hm.imp fun _ => hkind _ _
  · have htopic := changeTopic_of_not_exposed (not_exists.mp hexposed)
    rw [CanBeFollowed, htopic] at hm
    obtain ⟨kind, hm⟩ := n.exists_kind?_of_lt hm
    have htopic' : n'.changeTopic m = .changed m :=
      changeTopic_of_not_exposed fun inner h => hexposed ⟨inner, hm ▸ (hkind _ _ hm) ▸ h⟩
    refine ⟨htopic'.trans htopic.symm, ?_⟩
    rw [CanBeFollowed, htopic']
    exact lt_size_of_kind? (hkind _ _ hm)

/-- A collection whose members can be followed, and that nodes of other collections do not follow. -/
structure Followable (n : Network N A σ) (c : Nat) : Prop where
  ledger : n.Ledger
  topic : n.hasTopic (.members c)
  members : ∀ m ∈ n.memberNodes c, n.CanBeFollowed m
  followers : ∀ attached ∈ n.listeners (.members c), ∀ b, attached.listener = .follow b →
    ∃ form, n.kind? b = some (.aggregate c form)

/-! ## Subscriptions that come and go -/

/-- A node has other subscriptions, and nothing else is to be seen in the network. -/
structure Rewires (n : Network N A σ) (b : Nat) (n' : Network N A σ) : Prop where
  ledger : n'.Ledger
  kind : ∀ i, n'.kind? i = n.kind? i
  registry : n'.registry = n.registry
  present : ∀ t, n'.isPresent t = n.isPresent t
  topic : ∀ t, n'.hasTopic t ↔ n.hasTopic t
  view : ∀ i ≠ b, n'.view? i = n.view? i
  listens : ∀ i ≠ b, ∀ t, n'.listenersOf i t = n.listenersOf i t
  followers : ∀ c, n'.listeners (.members c) ⊆ n.listeners (.members c)
  callbacks : ∀ t, n'.callbacks t = n.callbacks t
  host : n'.host = n.host

namespace Rewires

theorem refl (h : n.Ledger) : n.Rewires b n :=
  ⟨h, fun _ => rfl, rfl, fun _ => rfl, fun _ => Iff.rfl, fun _ _ => rfl, fun _ _ _ => rfl,
    fun _ => List.Subset.refl _, fun _ => rfl, rfl⟩

theorem trans (h : n.Rewires b n') (h' : n'.Rewires b n'') : n.Rewires b n'' where
  ledger := h'.ledger
  kind i := (h'.kind i).trans (h.kind i)
  registry := h'.registry.trans h.registry
  present t := (h'.present t).trans (h.present t)
  topic t := (h'.topic t).trans (h.topic t)
  view i hi := (h'.view i hi).trans (h.view i hi)
  listens i hi t := (h'.listens i hi t).trans (h.listens i hi t)
  followers c := List.Subset.trans (h'.followers c) (h.followers c)
  callbacks t := (h'.callbacks t).trans (h.callbacks t)
  host := h'.host.trans h.host

theorem canBeFollowed (h : n.Rewires b n') (hm : n.CanBeFollowed m) :
    n'.changeTopic m = n.changeTopic m ∧ n'.CanBeFollowed m :=
  hm.of_kind fun i _ hi => (h.kind i).trans hi

theorem memberNodes (h : n.Rewires b n') (c : Nat) : n'.memberNodes c = n.memberNodes c := by
  rw [memberNodes_eq, memberNodes_eq, h.registry]

theorem followable (h : n.Rewires b n') (hn : n.Followable c) : n'.Followable c where
  ledger := h.ledger
  topic := (h.topic _).mpr hn.topic
  members m hm := (h.canBeFollowed (hn.members m (h.memberNodes c ▸ hm))).2
  followers attached hattached i hi := by
    rw [h.kind]
    exact hn.followers attached (h.followers c hattached) i hi

end Rewires

theorem aggregate?_unsubscribeAll (n : Network N A σ) (given : List Subscription) (i : Nat) :
    (n.unsubscribeAll given).aggregate? i = n.aggregate? i :=
  n.unsubscribeAll_induction (P := fun m => m.aggregate? i = n.aggregate? i)
    (fun m topic f h => (m.aggregate?_modifyListeners topic f i).trans h) rfl given

/-- The network after a node followed a member. -/
def following (n : Network N A σ) (b m : Nat) : Network N A σ :=
  (n.subscribed (n.changeTopic m) (.relay b)).withFollowed b
    (· ++ [(m, ⟨n.changeTopic m, n.nextToken⟩)])

/-- The network after a node gave back its subscriptions to some members and kept those to others. -/
def unfollowing (n : Network N A σ) (b : Nat) (given kept : List (Nat × Subscription)) : Network N A σ :=
  (n.unsubscribeAll (given.map (·.2))).withFollowed b fun _ => kept

/-- What is left of a list without doubles when a part of it is taken out. -/
theorem perm_filter_notMem {α : Type} [DecidableEq α] {l given kept : List α} (hl : l.Nodup)
    (h : l.Perm (given ++ kept)) : (l.filter (· ∉ given)).Perm kept := by
  have hdisjoint := (List.nodup_append.mp (h.nodup_iff.mp hl)).2.2
  have hgiven : given.filter (· ∉ given) = [] := List.filter_eq_nil_iff.mpr (by simp)
  have hkept : kept.filter (· ∉ given) = kept :=
    List.filter_eq_self.mpr fun s hs => decide_eq_true fun hmem => hdisjoint s hmem s hs rfl
  have := h.filter (· ∉ given)
  rwa [List.filter_append, hgiven, hkept] at this

section Steps

variable {x : AggregateNode} (h : n.Ledger) (hx : n.aggregate? b = some x)

section

include hx

theorem aggregate?_following : (n.following b m).aggregate? b
    = some { x with members := x.members ++ [(m, ⟨n.changeTopic m, n.nextToken⟩)] } :=
  aggregate?_withFollowed _ ((aggregate?_subscribed ..).trans hx)

theorem held_following : (n.following b m).held b
    = n.held b ++ [⟨n.changeTopic m, n.nextToken⟩] := by
  rw [held_of_aggregate (aggregate?_following hx), held_of_aggregate hx, List.map_append,
    List.append_assoc]
  rfl

theorem aggregate?_unfollowing (given kept : List (Nat × Subscription)) :
    (n.unfollowing b given kept).aggregate? b = some { x with members := kept } :=
  aggregate?_withFollowed _ ((n.aggregate?_unsubscribeAll _ b).trans hx)

end

theorem listeners_following_self (hm : n.CanBeFollowed m) :
    (n.following b m).listeners (n.changeTopic m)
      = n.listeners (n.changeTopic m) ++ [⟨n.nextToken, .relay b⟩] := by
  rw [following, listeners_withFollowed, listeners_subscribed_self _ _ hm]

theorem listeners_following_of_ne (ht : t ≠ n.changeTopic m) :
    (n.following b m).listeners t = n.listeners t := by
  rw [following, listeners_withFollowed, listeners_subscribed_of_ne _ _ ht]

include h hx

theorem rewires_following (hm : n.CanBeFollowed m) : n.Rewires b (n.following b m) where
  ledger := by
    have hnode : (Listener.relay b : Listener A).node? = some b := rfl
    refine h.attach (n.changeTopic m) hnode (listeners_following_self hm)
      (fun t ht => listeners_following_of_ne ht) ?_ (fun i hi => ?_) rfl
    · rw [held_following hx]
      exact List.perm_append_singleton _ _
    · rw [following, held_of_view (view?_withFollowed_of_ne _ hi), held_subscribed]
  kind i := by rw [following, kind?_withFollowed, kind?_subscribed]
  registry := by rw [following, registry_withFollowed, registry_subscribed]
  present t := by rw [following, isPresent_withFollowed, isPresent_subscribed]
  topic t := by rw [following, hasTopic_withFollowed, hasTopic_subscribed]
  view i hi := by rw [following, view?_withFollowed_of_ne _ hi, view?_subscribed]
  listens i hi t := by
    have hnode : (Listener.relay b : Listener A).node? ≠ some i := fun h => hi (Option.some.inj h).symm
    rw [following, listenersOf_congr (listeners_withFollowed ..), listenersOf_subscribed_of_ne hnode]
  followers c := by
    rw [listeners_following_of_ne (n.changeTopic_ne_members m c).symm]
    exact List.Subset.refl _
  callbacks t := by
    rw [Network.callbacks, following, listeners_withFollowed]
    exact n.callbacks_subscribed (n.changeTopic m) rfl t
  host := by
    rw [following, withFollowed]
    generalize n.changeTopic m = topic
    cases topic <;> rfl

theorem rewires_unfollowing {given kept : List (Nat × Subscription)}
    (hmembers : x.members.Perm (given ++ kept)) : n.Rewires b (n.unfollowing b given kept) := by
  have hheld : (n.held b).Perm (given.map (·.2) ++ (x.subscription.toList ++ kept.map (·.2))) := by
    have hsplit := hmembers.map (·.2)
    rw [List.map_append] at hsplit
    rw [held_of_aggregate hx]
    exact (hsplit.append_left _).trans (List.perm_append_comm_assoc _ _ _)
  have hgiven : ∀ s ∈ given.map (·.2), s ∈ n.held b := fun s hs =>
    hheld.mem_iff.mpr (List.mem_append_left _ hs)
  exact {
    ledger := by
      refine h.detach hgiven (fun t => ?_) ?_ (fun i hi => ?_) ?_
      · rw [unfollowing, listeners_withFollowed, listeners_unsubscribeAll]
      · rw [held_of_aggregate (aggregate?_unfollowing hx given kept)]
        exact (perm_filter_notMem (h.held_nodup b) hheld).symm
      · rw [unfollowing, held_of_view (view?_withFollowed_of_ne _ hi), held_unsubscribeAll]
      · exact n.nextToken_unsubscribeAll _
    kind i := by rw [unfollowing, kind?_withFollowed, kind?_unsubscribeAll]
    registry := by rw [unfollowing, registry_withFollowed, registry_unsubscribeAll]
    present t := by rw [unfollowing, isPresent_withFollowed, isPresent_unsubscribeAll]
    topic t := by rw [unfollowing, hasTopic_withFollowed, hasTopic_unsubscribeAll]
    view i hi := by rw [unfollowing, view?_withFollowed_of_ne _ hi, view?_unsubscribeAll]
    listens i hi t := by
      rw [unfollowing, listenersOf_congr (listeners_withFollowed ..),
        h.listenersOf_unsubscribeAll hgiven hi]
    followers c := by
      rw [unfollowing, listeners_withFollowed, listeners_unsubscribeAll]
      exact List.filter_subset_self _
    callbacks t := by
      rw [Network.callbacks, unfollowing, listeners_withFollowed]
      exact h.callbacks_unsubscribeAll hgiven t
    host := n.host_unsubscribeAll _ }

end Steps

/-! ## What a node attends -/

/-- A node follows a collection and the members in a list, each as often as it is in the list, and it
listens to nothing else. -/
structure Attends (n : Network N A σ) (c : Nat) (nodes : List Nat) (a : Nat) : Prop where
  kind : ∃ form, n.kind? a = some (.aggregate c form)
  present : n.isPresent (.changed a)
  subscribed : ∃ s, s.topic = .members c ∧ n.held a = s :: (n.followed a).map (·.2)
  followed : ((n.followed a).map (·.1)).Perm nodes
  topics : ∀ d ∈ n.followed a, d.2.topic = n.changeTopic d.1
  listens : ∀ t, ∀ attached ∈ n.listenersOf a t,
    attached.listener = if t = .members c then .follow a else .relay a

/-- How the members of a collection change when that is announced. -/
def Signal.Turns : Signal N → List Nat → List Nat → Prop
  | .added m, nodes, nodes' => nodes'.Perm (m :: nodes)
  | .removed m, nodes, nodes' => nodes.Perm (m :: nodes')
  | .reset, _, _ => True
  | _, nodes, nodes' => nodes.Perm nodes'

theorem perm_cons_eraseP {α : Type} {p : α → Bool} {d : α} {l : List α} (h : l.find? p = some d) :
    l.Perm (d :: l.eraseP p) := by
  obtain ⟨hd, before, after, rfl, hbefore⟩ := List.find?_eq_some_iff_append.mp h
  have hnot : ∀ x ∈ before, ¬ p x = true := fun x hx => by simpa using hbefore x hx
  rw [List.eraseP_append_right _ hnot, List.eraseP_cons_of_pos hd]
  exact List.perm_middle

namespace Attends

theorem perm {nodes' : List Nat} (h : n.Attends c nodes a) (hperm : nodes.Perm nodes') :
    n.Attends c nodes' a := { h with followed := h.followed.trans hperm }

theorem lt_size (h : n.Attends c nodes a) : a < n.nodes.size :=
  h.kind.elim fun _ => lt_size_of_kind?

/-- A node attends what it did if it is the same, with the same listeners. -/
theorem congr (h : n.Attends c nodes a) (hkind : ∀ form, n.kind? a = some (.aggregate c form) →
      n'.kind? a = some (.aggregate c form)) (hpresent : n'.isPresent (.changed a))
    (hheld : n'.held a = n.held a) (hfollowed : n'.followed a = n.followed a)
    (htopics : ∀ d ∈ n.followed a, n'.changeTopic d.1 = n.changeTopic d.1)
    (hlistens : ∀ t, n'.listenersOf a t = n.listenersOf a t) : n'.Attends c nodes a where
  kind := h.kind.imp hkind
  present := hpresent
  subscribed := by
    rw [hheld, hfollowed]
    exact h.subscribed
  followed := by
    rw [hfollowed]
    exact h.followed
  topics d hd := by
    rw [hfollowed] at hd
    rw [h.topics d hd, htopics d hd]
  listens t attached hattached := by
    rw [hlistens] at hattached
    exact h.listens t attached hattached

/-- How often a node listens to a topic: to its collection once, and to a node for each time that it is a
member. -/
theorem length_listenersOf (h : n.Attends c nodes a) (hn : n.Ledger) (t : Topic) :
    (n.listenersOf a t).length
      = (if t = .members c then 1 else 0) + nodes.countP fun m => n.changeTopic m = t := by
  obtain ⟨s, hs, hheld⟩ := h.subscribed
  have hmembers : ((n.followed a).map (·.2)).countP (·.topic = t)
      = nodes.countP fun m => n.changeTopic m = t := by
    rw [← h.followed.countP_eq, List.countP_map, List.countP_map]
    refine List.countP_congr fun d hd => ?_
    simp [h.topics d hd]
  rw [hn.length_listenersOf, hheld, List.countP_cons, hmembers, Nat.add_comm, hs]
  simp [eq_comm]

/-- A node listens to its collection through one listener. -/
theorem exists_listener (h : n.Attends c nodes a) (hn : n.Ledger) :
    ∃ own, n.listenersOf a (.members c) = [own] ∧ own.listener = .follow a := by
  have hone : (n.listenersOf a (.members c)).length = 1 := by
    rw [h.length_listenersOf hn, if_pos rfl, List.countP_eq_zero.mpr]
    exact fun m _ => by simpa using n.changeTopic_ne_members m c
  obtain ⟨own, hown⟩ := List.length_eq_one_iff.mp hone
  exact ⟨own, hown, by simpa using h.listens (.members c) own (by simp [hown])⟩

/-- What a node is subscribed to can be followed. -/
theorem canBeFollowed (h : n.Attends c nodes a) (hn : n.Ledger) {d : Nat × Subscription}
    (hd : d ∈ n.followed a) : n.CanBeFollowed d.1 := by
  obtain ⟨s, -, hheld⟩ := h.subscribed
  have hmem : d.2 ∈ n.held a := hheld ▸ List.mem_cons_of_mem s (List.mem_map_of_mem hd)
  obtain ⟨listener, hlistener, -⟩ := (hn.balance a d.2).mp hmem
  by_contra hnot
  rw [CanBeFollowed, ← h.topics d hd] at hnot
  rw [n.listeners_eq_nil_of_not_hasTopic hnot] at hlistener
  cases hlistener

/-- The subscription of a node to its collection is apart from those to members. -/
theorem subscription (h : n.Attends c nodes a) {x : AggregateNode} (hx : n.aggregate? a = some x) :
    ∃ s, s.topic = .members c ∧ x.subscription.toList = [s] := by
  obtain ⟨s, hs, hheld⟩ := h.subscribed
  rw [held_of_aggregate hx, followed_of_aggregate hx] at hheld
  exact ⟨s, hs, List.append_cancel_right hheld⟩

/-- A node that follows a member more attends the collection with the member. -/
theorem following (h : n.Attends c nodes a) (hn : n.Ledger) (hm : n.CanBeFollowed m) :
    (n.following a m).Attends c (nodes ++ [m]) a := by
  obtain ⟨x, hx⟩ := h.kind.elim fun _ => exists_aggregate?
  have hrewires := rewires_following hn hx hm
  have hfollowed : (n.following a m).followed a
      = n.followed a ++ [(m, ⟨n.changeTopic m, n.nextToken⟩)] := by
    rw [followed_of_aggregate (aggregate?_following hx), followed_of_aggregate hx]
  refine ⟨h.kind.imp fun _ => (hrewires.kind a).trans, (hrewires.present _).trans h.present, ?_, ?_,
    fun d hd => ?_, fun t attached hattached => ?_⟩
  · obtain ⟨s, hs, hheld⟩ := h.subscribed
    refine ⟨s, hs, ?_⟩
    rw [held_following hx, hheld, hfollowed, List.map_append]
    rfl
  · rw [hfollowed, List.map_append]
    exact h.followed.append_right [m]
  · rw [hfollowed] at hd
    obtain hd | hd := List.mem_append.mp hd
    · rw [h.topics d hd, (hrewires.canBeFollowed (h.canBeFollowed hn hd)).1]
    · rw [List.mem_singleton.mp hd, (hrewires.canBeFollowed hm).1]
  · obtain ⟨hattached, hnode⟩ := mem_listenersOf.mp hattached
    by_cases ht : t = n.changeTopic m
    · subst ht
      rw [listeners_following_self hm, List.mem_append] at hattached
      obtain hattached | hattached := hattached
      · exact h.listens _ _ (mem_listenersOf.mpr ⟨hattached, hnode⟩)
      · rw [if_neg (n.changeTopic_ne_members m c), List.mem_singleton.mp hattached]
    · rw [listeners_following_of_ne ht] at hattached
      exact h.listens t _ (mem_listenersOf.mpr ⟨hattached, hnode⟩)

/-- A node that gave subscriptions back attends the collection with the members it kept. -/
theorem unfollowing (h : n.Attends c nodes a) (hn : n.Ledger) {x : AggregateNode}
    (hx : n.aggregate? a = some x) {given kept : List (Nat × Subscription)}
    (hmembers : x.members.Perm (given ++ kept)) {nodes' : List Nat}
    (hkept : (kept.map (·.1)).Perm nodes') : (n.unfollowing a given kept).Attends c nodes' a := by
  have hrewires := rewires_unfollowing hn hx hmembers
  have hx' := aggregate?_unfollowing hx given kept
  have hfollowed : (n.unfollowing a given kept).followed a = kept := followed_of_aggregate hx'
  refine ⟨h.kind.imp fun _ => (hrewires.kind a).trans, (hrewires.present _).trans h.present, ?_,
    by rwa [hfollowed], fun d hd => ?_, fun t attached hattached => ?_⟩
  · obtain ⟨s, hs, hsubscription⟩ := h.subscription hx
    refine ⟨s, hs, ?_⟩
    rw [held_of_aggregate hx', hfollowed]
    exact congrArg (· ++ kept.map (·.2)) hsubscription
  · have hd : d ∈ n.followed a := by
      rw [followed_of_aggregate hx, hmembers.mem_iff]
      exact List.mem_append_right _ (hfollowed ▸ hd)
    rw [h.topics d hd, (hrewires.canBeFollowed (h.canBeFollowed hn hd)).1]
  · obtain ⟨hattached, hnode⟩ := mem_listenersOf.mp hattached
    rw [Network.unfollowing, listeners_withFollowed, listeners_unsubscribeAll] at hattached
    exact h.listens t _ (mem_listenersOf.mpr ⟨List.mem_of_mem_filter hattached, hnode⟩)

end Attends

/-! ## Adjusting -/

/-- An aggregate node adjusts its subscriptions to a change of its collection. -/
def adjust (id : Nat) (signal : Signal N) : Run N A σ Unit :=
  match signal with
  | .added member => followMember id member
  | .removed member => unfollowMember id member
  | .reset => do
    unfollowAll id
    let n ← get
    match n.aggregate? id with
    | some a => (n.memberNodes a.collection).forM (followMember id)
    | none => pure ()
  | _ => pure ()

/-- A node that follows a collection adjusts, and then it announces once that it changed. -/
theorem follow_eq (raise : Topic → Signal N → Run N A σ Unit) (id : Nat) (signal : Signal N) :
    follow raise id signal = (do adjust id signal; raise (.changed id) .changed) := by
  cases signal with
  | reset =>
    simp only [follow, adjust, bind_assoc]
    refine bind_congr fun _ => bind_congr fun n => ?_
    cases n.aggregate? id with
    | none => exact (pure_bind ..).symm
    | some a => rfl
  | _ => simp only [follow, adjust, pure_bind]

/-- A node follows members one after another. -/
theorem leads_followMembers : ∀ (members : List Nat) {n : Network N A σ}, n.Ledger →
    (∃ x, n.aggregate? b = some x) → (∀ m ∈ members, n.CanBeFollowed m) →
    Leads True (members.forM (followMember b)) n fun _ n' => n.Rewires b n'
      ∧ ∀ c nodes, n.Attends c nodes b → n'.Attends c (nodes ++ members) b
  | [], n, hn, _, _ => .of_pure ⟨.refl hn, fun c nodes h => by rwa [List.append_nil]⟩
  | m :: members, n, hn, ⟨x, hx⟩, hmembers => by
    have hm := hmembers m List.mem_cons_self
    have hrewires := rewires_following hn hx hm
    rw [List.forM_eq_forM, List.forM_cons]
    refine .eq_bind (n.followMember_eq b m) ?_
    refine (leads_followMembers members hrewires.ledger ⟨_, aggregate?_following hx⟩ fun i hi =>
      (hrewires.canBeFollowed (hmembers i (List.mem_cons_of_mem m hi))).2).weaken ?_
    rintro _ n' ⟨hrewires', hattends⟩
    refine ⟨hrewires.trans hrewires', fun c nodes h => ?_⟩
    have := hattends c _ (h.following hn hm)
    rwa [List.append_assoc] at this

/-- What a node follows instead depends on what it follows. -/
theorem withFollowed_eq {x : AggregateNode} (hx : n.aggregate? b = some x)
    (f : List (Nat × Subscription) → List (Nat × Subscription)) :
    n.withFollowed b f = n.withFollowed b fun _ => f x.members := by
  refine mapBody_congr fun body hbody => ?_
  obtain rfl := Option.some.inj (hbody.symm.trans (aggregate?_eq_some_iff.mp hx))
  rfl

/-- A node stops following one member. -/
theorem unfollowMember_eq_unfollowing {x : AggregateNode} (hx : n.aggregate? b = some x)
    {d : Nat × Subscription} (hd : x.members.find? (·.1 == m) = some d) :
    unfollowMember b m n = some (⟨⟩, n.unfollowing b [d] (x.members.eraseP (·.1 == m))) := by
  obtain ⟨i, s⟩ := d
  obtain rfl : i = m := by simpa using List.find?_some hd
  rw [unfollowMember_eq hx hd, withFollowed_eq ((n.aggregate?_unsubscribe s b).trans hx)]
  rfl

/-- A node stops following all members. -/
theorem unfollowAll_eq {x : AggregateNode} (hx : n.aggregate? b = some x) :
    unfollowAll b n = some (⟨⟩, n.unfollowing b x.members []) := by
  rw [unfollowAll, get_bind_apply, hx, unfollowing, ← modifyAggregate_eq_withFollowed]
  rfl

theorem collection_eq {x : AggregateNode} (hx : n.aggregate? b = some x) {form : Form}
    (hb : n.kind? b = some (.aggregate c form)) : x.collection = c := by
  rw [kind?, aggregate?_eq_some_iff.mp hx] at hb
  exact (Kind.aggregate.inj (Option.some.inj hb)).1

/-- A node that adjusts has other subscriptions, and it attends its collection as it is now. -/
theorem leads_adjust (h : n.Followable c) {form : Form} (hb : n.kind? b = some (.aggregate c form))
    {signal : Signal N} (hadded : ∀ m, signal = .added m → m ∈ n.memberNodes c) :
    Leads True (adjust b signal) n fun _ n' => n.Rewires b n'
      ∧ ∀ nodes, n.Attends c nodes b → signal.Turns nodes (n.memberNodes c) →
        n'.Attends c (n.memberNodes c) b := by
  have hn := h.ledger
  obtain ⟨x, hx⟩ := exists_aggregate? hb
  have hfollowed {nodes : List Nat} (h : n.Attends c nodes b) : (x.members.map (·.1)).Perm nodes := by
    rw [← followed_of_aggregate hx]
    exact h.followed
  cases signal with
  | added m =>
    have hm := h.members m (hadded m rfl)
    refine .of_eq (n.followMember_eq b m) ⟨rewires_following hn hx hm, fun nodes h hturns => ?_⟩
    have hperm : (nodes ++ [m]).Perm (n.memberNodes c) :=
      (List.perm_append_singleton m nodes).trans hturns.symm
    exact (h.following hn hm).perm hperm
  | removed m =>
    cases hd : x.members.find? (·.1 == m) with
    | none =>
      -- a node that attends the collection follows the member that is removed, so this is not the case
      have hskip : unfollowMember b m n = some (⟨⟩, n) := by
        rw [unfollowMember, get_bind_apply, hx, Option.bind_some, hd]
        rfl
      refine .of_eq hskip ⟨.refl hn, fun nodes h hturns => ?_⟩
      obtain ⟨d, hmem, rfl⟩ := List.mem_map.mp
        (((hfollowed h).trans hturns).mem_iff.mpr List.mem_cons_self)
      simpa using List.find?_eq_none.mp hd d hmem
    | some d =>
      -- of several subscriptions to the member it may give up another one than the collection does, but the
      -- nodes that are left are the same up to order
      have hperm := perm_cons_eraseP hd
      refine .of_eq (unfollowMember_eq_unfollowing hx hd)
        ⟨rewires_unfollowing hn hx hperm, fun nodes h hturns => h.unfollowing hn hx hperm ?_⟩
      have hkept := ((hperm.map (·.1)).symm.trans (hfollowed h)).trans hturns
      obtain rfl : d.1 = m := by simpa using List.find?_some hd
      exact hkept.cons_inv
  | reset =>
    -- it gives up all subscriptions, and what it follows then is what the collection has now
    have hperm : x.members.Perm (x.members ++ []) := by rw [List.append_nil]
    have hrewires := rewires_unfollowing hn hx hperm
    have hx' := aggregate?_unfollowing hx x.members []
    refine .eq_bind (unfollowAll_eq hx) (.get_bind ?_)
    rw [hx']
    change Leads True (((n.unfollowing b x.members []).memberNodes x.collection).forM _) _ _
    rw [collection_eq hx hb, hrewires.memberNodes]
    refine (leads_followMembers _ hrewires.ledger ⟨_, hx'⟩ fun m hm =>
      (hrewires.canBeFollowed (h.members m hm)).2).weaken ?_
    rintro _ n' ⟨hrewires', hattends⟩
    refine ⟨hrewires.trans hrewires', fun nodes h _ => ?_⟩
    exact hattends c [] (h.unfollowing hn hx hperm (.refl []))
  | _ => exact .of_pure ⟨.refl hn, fun nodes h hturns => h.perm hturns⟩

/-! ## Beginning and end -/

/-- The network with a node that listens to a collection, and to no member yet. -/
def withFollower (n : Network N A σ) (c : Nat) (form : Form) : Network N A σ :=
  n.pushHolding (.members c) .follow fun s => .aggregate ⟨c, form, some s, []⟩

section WithFollower

variable {form : Form}

theorem registry_withFollower (n : Network N A σ) (c : Nat) (form : Form) :
    (n.withFollower c form).registry = n.registry := n.registry_pushHolding _ _ _

theorem memberNodes_withFollower (n : Network N A σ) (c : Nat) (form : Form) :
    (n.withFollower c form).memberNodes c = n.memberNodes c := by
  rw [memberNodes_eq, registry_withFollower, ← memberNodes_eq]

theorem body?_withFollower (n : Network N A σ) (c : Nat) (form : Form) :
    (n.withFollower c form).body? n.nodes.size
      = some (.aggregate ⟨c, form, some ⟨.members c, n.nextToken⟩, []⟩) := by
  rw [withFollower, pushHolding, body?_pushNode, size_subscribed, if_pos rfl]

theorem kind?_withFollower {i : Nat} {kind : Kind N A} (h : n.kind? i = some kind) :
    (n.withFollower c form).kind? i = some kind := by
  rw [withFollower, pushHolding, kind?_pushNode, size_subscribed, if_neg (lt_size_of_kind? h).ne,
    kind?_subscribed, h]

theorem listeners_withFollower_self (hc : n.hasTopic (.members c)) :
    (n.withFollower c form).listeners (.members c)
      = n.listeners (.members c) ++ [⟨n.nextToken, .follow n.nodes.size⟩] := by
  rw [withFollower, pushHolding, listeners_pushNode _ _ rfl, listeners_subscribed_self _ _ hc]

theorem listeners_withFollower_of_ne (ht : t ≠ .members c) :
    (n.withFollower c form).listeners t = n.listeners t := by
  rw [withFollower, pushHolding, listeners_pushNode _ _ rfl, listeners_subscribed_of_ne _ _ ht]

/-- A node that listens to a collection attends it without members. -/
theorem Ledger.attends_withFollower (h : n.Ledger) (hc : n.hasTopic (.members c)) (form : Form) :
    (n.withFollower c form).Attends c [] n.nodes.size := by
  have hbody := n.body?_withFollower c form
  have hfollowed : (n.withFollower c form).followed n.nodes.size = [] := by
    rw [followed, hbody]
    rfl
  refine ⟨⟨form, by rw [kind?, hbody]; rfl⟩, ?_, ⟨⟨.members c, n.nextToken⟩, rfl, ?_⟩, ?_, ?_,
    fun t attached hattached => ?_⟩
  · have := isPresent_pushNode_self (n.subscribed (.members c) (.follow n.nodes.size))
      (.aggregate ⟨c, form, some ⟨.members c, n.nextToken⟩, []⟩)
    rwa [size_subscribed] at this
  · rw [held, hbody, hfollowed]
    rfl
  · rw [hfollowed]
    exact .refl []
  · simp [hfollowed]
  · obtain ⟨hattached, hnode⟩ := mem_listenersOf.mp hattached
    -- the node was not there before, so none of the listeners before is its own
    have hold : attached ∉ n.listeners t := fun hmem => by
      have hheld := (h.balance n.nodes.size ⟨t, attached.token⟩).mpr ⟨_, hmem, hnode⟩
      rw [held, n.body?_eq_none le_rfl] at hheld
      cases hheld
    by_cases ht : t = .members c
    · subst ht
      rw [listeners_withFollower_self hc, List.mem_append] at hattached
      rw [if_pos rfl, List.mem_singleton.mp (hattached.resolve_left hold)]
    · rw [listeners_withFollower_of_ne ht] at hattached
      exact absurd hattached hold

/-- A collection can be followed when a node listens to it more. -/
theorem Followable.withFollower (h : n.Followable c) (form : Form) :
    (n.withFollower c form).Followable c := by
  refine ⟨h.ledger.pushHolding h.topic (fun _ => rfl) (fun _ => rfl) fun _ => rfl, ?_, fun m hm => ?_,
    fun attached hattached b hb => ?_⟩
  · exact hasTopic_pushNode _ _ ((hasTopic_subscribed ..).mpr h.topic)
  · rw [memberNodes_withFollower] at hm
    exact ((h.members m hm).of_kind fun _ _ => kind?_withFollower).2
  · rw [listeners_withFollower_self h.topic, List.mem_append] at hattached
    obtain hattached | hattached := hattached
    · exact (h.followers attached hattached b hb).imp fun _ => kind?_withFollower
    · rw [List.mem_singleton.mp hattached] at hb
      obtain rfl : n.nodes.size = b := Listener.follow.inj hb
      exact ⟨form, by rw [kind?, body?_withFollower]; rfl⟩

/-- A node that is made over a collection listens to it, and to nothing but the members besides. It attends
the collection, with the members that are there. -/
theorem Followable.leads_addAggregate (h : n.Followable c) (form : Form) :
    Leads True (addAggregate c form) n fun a n' => a = n.nodes.size
      ∧ (n.withFollower c form).Rewires a n' ∧ n'.Attends c (n.memberNodes c) a := by
  have hfollowable := h.withFollower form
  have hattends := h.ledger.attends_withFollower h.topic form
  have hmembers (m : Nat) (hm : m ∈ n.memberNodes c) : (n.withFollower c form).CanBeFollowed m :=
    hfollowable.members m (n.memberNodes_withFollower c form ▸ hm)
  refine .congr ((leads_followMembers (n.memberNodes c) hfollowable.ledger
    (hattends.kind.elim fun _ => exists_aggregate?) hmembers).bind ?_) (n.addAggregate_apply h.topic form)
  rintro _ n' ⟨hrewires, hattends'⟩
  exact .of_pure ⟨rfl, hrewires, hattends' c [] hattends⟩

end WithFollower

/-- A node that gave its subscriptions back listens to nothing, and all others listen to what they did. -/
theorem Ledger.listenersOf_releasedAt (h : n.Ledger) (a i : Nat) (t : Topic) :
    (n.releasedAt a).listenersOf i t = if i = a then [] else n.listenersOf i t := by
  rw [listenersOf, h.listeners_releasedAt, List.filter_filter]
  split
  · next hi => exact List.filter_eq_nil_iff.mpr (by simp [hi])
  · next hi =>
    refine List.filter_congr fun attached _ => ?_
    by_cases hnode : attached.listener.node? = some i
    · simp [hnode, hi]
    · simp [hnode]

end StatEngine.Network
