import StatEngine.Proofs.Cascade
import StatEngine.Network.Nodes

/-!
# The books of subscriptions

Every subscription is on record twice: at the topic, as a listener with a token, and at the node that
made it (`held`). The `Ledger` says that the two agree: a node holds just the subscriptions whose
listeners are its own, and no two listeners of a topic have the same token. So what one node gives back
is never a subscription of another one.

## Main statements

* `Ledger.attach` and `Ledger.detach`: the books agree after a node made a subscription, and after it
  gave some back;
* `Ledger.pushNode` and `Ledger.pushHolding`: they agree after a node was made.
-/

namespace StatEngine.Network

variable {N A σ : Type}

/-- Topics and nodes have the same subscriptions on record. -/
structure Ledger (n : Network N A σ) : Prop where
  tokens_nodup : ∀ topic, ((n.listeners topic).map (·.token)).Nodup
  tokens_lt : ∀ topic, ∀ attached ∈ n.listeners topic, attached.token < n.nextToken
  balance : ∀ id s, s ∈ n.held id
    ↔ ∃ listener, ⟨s.token, listener⟩ ∈ n.listeners s.topic ∧ listener.node? = some id
  held_nodup : ∀ id, (n.held id).Nodup

/-- A listener that belongs to a node is none of the host. -/
theorem callbacks_subscribed (n : Network N A σ) (topic : Topic) {listener : Listener A}
    (haction : listener.action? = none) (t : Topic) :
    (n.subscribed topic listener).callbacks t = n.callbacks t := by
  have hcallback : Attached.callback? ⟨n.nextToken, listener⟩ = none := by
    rw [Attached.callback?, haction, Option.map_none]
  rw [callbacks, callbacks]
  by_cases ht : t = topic
  · subst ht
    by_cases htopic : n.hasTopic t
    · rw [listeners_subscribed_self _ _ htopic, List.filterMap_append]
      simp [hcallback]
    · rw [listeners_eq_nil_of_not_hasTopic _ htopic,
        listeners_eq_nil_of_not_hasTopic _ (mt (hasTopic_subscribed ..).mp htopic)]
  · rw [listeners_subscribed_of_ne _ _ ht]

namespace Ledger

variable {n n' : Network N A σ}

/-- The listener of a subscription is the only one with its token. -/
theorem listener_unique (h : n.Ledger) {topic : Topic} {token : Nat} {l l' : Listener A}
    (hl : ⟨token, l⟩ ∈ n.listeners topic) (hl' : ⟨token, l'⟩ ∈ n.listeners topic) : l = l' := by
  have := List.inj_on_of_nodup_map (h.tokens_nodup topic) hl hl' rfl
  exact (Attached.mk.injEq .. ▸ this).2

/-- What a node gives back are no listeners of the host. -/
theorem callbacks_unsubscribeAll (h : n.Ledger) {id : Nat} {given : List Subscription}
    (hgiven : ∀ s ∈ given, s ∈ n.held id) (t : Topic) :
    (n.unsubscribeAll given).callbacks t = n.callbacks t := by
  rw [callbacks, listeners_unsubscribeAll, List.filterMap_filter, callbacks]
  refine List.filterMap_congr fun attached hattached => ?_
  by_cases hmem : (⟨t, attached.token⟩ : Subscription) ∈ given
  · obtain ⟨listener, hlistener, hnode⟩ := (h.balance id _).mp (hgiven _ hmem)
    obtain rfl := h.listener_unique hattached hlistener
    have : attached.listener.action? = none := by
      cases hl : attached.listener with
      | host action => simp [hl, Listener.node?] at hnode
      | _ => rfl
    simp [Attached.callback?, this]
  · simp [hmem]

/-- Two nodes hold no subscription together. -/
theorem held_disjoint (h : n.Ledger) {id id' : Nat} {s : Subscription} (hs : s ∈ n.held id)
    (hs' : s ∈ n.held id') : id = id' := by
  obtain ⟨l, hl, hnode⟩ := (h.balance id s).mp hs
  obtain ⟨l', hl', hnode'⟩ := (h.balance id' s).mp hs'
  rw [h.listener_unique hl hl', hnode'] at hnode
  exact (Option.some.inj hnode).symm

/-- The books agree if they are the same ones, up to tokens that were never used. -/
theorem of_eq (h : n.Ledger) (hlisteners : ∀ topic, n'.listeners topic = n.listeners topic)
    (hheld : ∀ id, n'.held id = n.held id) (htoken : n.nextToken ≤ n'.nextToken) : n'.Ledger where
  tokens_nodup topic := by rw [hlisteners]; exact h.tokens_nodup topic
  tokens_lt topic attached ha := by
    rw [hlisteners] at ha
    exact (h.tokens_lt topic attached ha).trans_le htoken
  balance id s := by rw [hheld, hlisteners]; exact h.balance id s
  held_nodup id := by rw [hheld]; exact h.held_nodup id

/-- The books agree after a node made a subscription. -/
theorem attach (h : n.Ledger) (topic : Topic) {listener : Listener A} {id : Nat}
    (hnode : listener.node? = some id)
    (hlisteners : n'.listeners topic = n.listeners topic ++ [⟨n.nextToken, listener⟩])
    (hother : ∀ t, t ≠ topic → n'.listeners t = n.listeners t)
    (hheld : (n'.held id).Perm (⟨topic, n.nextToken⟩ :: n.held id))
    (hheld' : ∀ i, i ≠ id → n'.held i = n.held i) (htoken : n'.nextToken = n.nextToken + 1) :
    n'.Ledger where
  tokens_nodup t := by
    by_cases ht : t = topic
    · subst ht
      rw [hlisteners, List.map_append, List.nodup_append]
      refine ⟨h.tokens_nodup t, by simp, fun a ha b hb => ?_⟩
      obtain ⟨attached, hattached, rfl⟩ := List.mem_map.mp ha
      obtain rfl : b = n.nextToken := by simpa using hb
      -- tokens that were given out are below the next one
      exact (h.tokens_lt t attached hattached).ne
    · rw [hother t ht]
      exact h.tokens_nodup t
  tokens_lt t attached ha := by
    rw [htoken]
    by_cases ht : t = topic
    · subst ht
      rw [hlisteners, List.mem_append] at ha
      obtain ha | ha := ha
      · exact (h.tokens_lt t attached ha).trans (Nat.lt_succ_self _)
      · rw [List.mem_singleton.mp ha]
        exact Nat.lt_succ_self _
    · rw [hother t ht] at ha
      exact (h.tokens_lt t attached ha).trans (Nat.lt_succ_self _)
  balance i s := by
    -- both sides have the new subscription more, and nothing else
    have hmem : s ∈ n'.held i ↔ s ∈ n.held i ∨ i = id ∧ s = ⟨topic, n.nextToken⟩ := by
      by_cases hi : i = id
      · subst hi
        simp [hheld.mem_iff, or_comm]
      · simp [hheld' i hi, hi]
    have hlistens (l : Listener A) : ⟨s.token, l⟩ ∈ n'.listeners s.topic
        ↔ ⟨s.token, l⟩ ∈ n.listeners s.topic ∨ s = ⟨topic, n.nextToken⟩ ∧ l = listener := by
      obtain ⟨t, token⟩ := s
      by_cases ht : t = topic
      · subst ht
        simp [hlisteners]
      · simp [hother t ht, ht]
    rw [hmem, h.balance]
    constructor
    · rintro (⟨l, hl, hnode'⟩ | ⟨rfl, rfl⟩)
      · exact ⟨l, (hlistens l).mpr (.inl hl), hnode'⟩
      · exact ⟨listener, (hlistens listener).mpr (.inr ⟨rfl, rfl⟩), hnode⟩
    · rintro ⟨l, hl, hnode'⟩
      obtain hl | ⟨rfl, rfl⟩ := (hlistens l).mp hl
      · exact .inl ⟨l, hl, hnode'⟩
      · exact .inr ⟨Option.some.inj (hnode'.symm.trans hnode), rfl⟩
  held_nodup i := by
    by_cases hi : i = id
    · subst hi
      rw [hheld.nodup_iff, List.nodup_cons]
      refine ⟨fun hs => ?_, h.held_nodup i⟩
      obtain ⟨l, hl, -⟩ := (h.balance i _).mp hs
      exact (h.tokens_lt _ _ hl).false
    · rw [hheld' i hi]
      exact h.held_nodup i

/-- The books agree after a node gave subscriptions back. -/
theorem detach (h : n.Ledger) {id : Nat} {given : List Subscription}
    (hgiven : ∀ s ∈ given, s ∈ n.held id)
    (hlisteners : ∀ topic, n'.listeners topic
      = (n.listeners topic).filter fun attached => decide (⟨topic, attached.token⟩ ∉ given))
    (hheld : (n'.held id).Perm ((n.held id).filter fun s => decide (s ∉ given)))
    (hheld' : ∀ i, i ≠ id → n'.held i = n.held i) (htoken : n'.nextToken = n.nextToken) :
    n'.Ledger where
  tokens_nodup topic := by
    rw [hlisteners]
    exact (h.tokens_nodup topic).sublist (List.filter_sublist.map _)
  tokens_lt topic attached ha := by
    rw [hlisteners, List.mem_filter] at ha
    rw [htoken]
    exact h.tokens_lt topic attached ha.1
  balance i s := by
    have hmem : s ∈ n'.held i ↔ s ∈ n.held i ∧ s ∉ given := by
      by_cases hi : i = id
      · subst hi
        simp [hheld.mem_iff]
      · rw [hheld' i hi]
        refine ⟨fun hs => ⟨hs, fun hs' => ?_⟩, fun hs => hs.1⟩
        exact hi (h.held_disjoint hs (hgiven s hs'))
    have hlistens (l : Listener A) : ⟨s.token, l⟩ ∈ n'.listeners s.topic
        ↔ ⟨s.token, l⟩ ∈ n.listeners s.topic ∧ s ∉ given := by
      simp [hlisteners]
    rw [hmem, h.balance]
    constructor
    · rintro ⟨⟨l, hl, hnode⟩, hs⟩
      exact ⟨l, (hlistens l).mpr ⟨hl, hs⟩, hnode⟩
    · rintro ⟨l, hl, hnode⟩
      exact ⟨⟨l, ((hlistens l).mp hl).1, hnode⟩, ((hlistens l).mp hl).2⟩
  held_nodup i := by
    by_cases hi : i = id
    · subst hi
      rw [hheld.nodup_iff]
      exact (h.held_nodup i).filter _
    · rw [hheld' i hi]
      exact h.held_nodup i

/-- The books agree after a node was made that holds nothing. -/
theorem pushNode (h : n.Ledger) {body : Body N A} (hheld : body.held = [])
    (hreceived : body.received = []) : (n.pushNode body).Ledger := by
  refine h.of_eq (n.listeners_pushNode body hreceived) (fun id => ?_) le_rfl
  rw [held_pushNode]
  split
  · next hid => rw [hheld, held, n.body?_eq_none hid.ge]; rfl
  · rfl

/-- The books agree after a node was made that made one subscription. -/
theorem pushHolding (h : n.Ledger) {topic : Topic} (htopic : n.hasTopic topic)
    {listener : Nat → Listener A} (hnode : ∀ id, (listener id).node? = some id)
    {body : Subscription → Body N A} (hheld : ∀ s, (body s).held = [s])
    (hreceived : ∀ s, (body s).received = []) : (n.pushHolding topic listener body).Ledger := by
  have hlisteners (t : Topic) : (n.pushHolding topic listener body).listeners t
      = (n.subscribed topic (listener n.nodes.size)).listeners t :=
    listeners_pushNode _ _ (hreceived _) t
  refine h.attach topic (hnode n.nodes.size) ?_ (fun t ht => ?_) ?_ (fun i hi => ?_) rfl
  · rw [hlisteners, listeners_subscribed_self _ _ htopic]
  · rw [hlisteners, listeners_subscribed_of_ne _ _ ht]
  · rw [Network.pushHolding, held_pushNode, size_subscribed, if_pos rfl, hheld, held,
      n.body?_eq_none le_rfl]
    rfl
  · rw [Network.pushHolding, held_pushNode, size_subscribed, if_neg hi, held_subscribed]

end Ledger

/-! ## Listeners that fit -/

theorem IsFormula.mono {n n' : Network N A σ}
    (h : ∀ id kind, n.kind? id = some kind → n'.kind? id = some kind) {id : Nat}
    (hid : n.IsFormula id) : n'.IsFormula id :=
  hid.imp fun _ => Exists.imp fun _ => h id _

theorem IsAggregate.mono {n n' : Network N A σ}
    (h : ∀ id kind, n.kind? id = some kind → n'.kind? id = some kind) {id : Nat}
    (hid : n.IsAggregate id) : n'.IsAggregate id :=
  hid.imp fun _ => Exists.imp fun _ => h id _

/-- Who may listen may still listen when there are more nodes. -/
theorem Fits.mono {n n' : Network N A σ}
    (h : ∀ id kind, n.kind? id = some kind → n'.kind? id = some kind) {topic : Topic}
    {listener : Listener A} (hfits : n.Fits topic listener) : n'.Fits topic listener := by
  cases topic <;> cases listener <;> simp only [Fits] at hfits ⊢
  · exact ⟨hfits.1.mono h, h _ _ hfits.2⟩
  · exact hfits.imp (And.imp (.mono h) (.mono h)) (And.imp (Exists.imp fun _ => h _ _) (h _ _))
  · exact hfits.imp (.mono h) (.mono h)
  · exact hfits.imp fun _ => h _ _
  · exact hfits.mono h
  · exact hfits.mono h

/-- Listeners fit if they did, or are new and fit. -/
theorem Typed.of_listeners {n n' : Network N A σ} (hn : n.Typed)
    (hkind : ∀ id kind, n.kind? id = some kind → n'.kind? id = some kind)
    (hlisteners : ∀ topic attached, attached ∈ n'.listeners topic →
      attached ∈ n.listeners topic ∨ n'.Fits topic attached.listener
        ∧ ∀ id, attached.listener.node? = some id → n'.isPresent (.changed id))
    (hpresent : ∀ id, n.isPresent (.changed id) → n'.isPresent (.changed id)) : n'.Typed where
  fits h := (hlisteners _ _ h).elim (fun h => (hn.fits h).mono hkind) And.left
  present h id hid := (hlisteners _ _ h).elim (fun h => hpresent id (hn.present h id hid))
    fun h => h.2 id hid

namespace Typed

variable {n : Network N A σ}

theorem pushNode (hn : n.Typed) {body : Body N A} (hreceived : body.received = []) :
    (n.pushNode body).Typed := by
  refine hn.of_listeners (fun id kind hkind => ?_) (fun topic attached h => ?_)
    fun id hid => n.isPresent_pushNode_of_isPresent body hid
  · rw [kind?_pushNode, if_neg (lt_size_of_kind? hkind).ne, hkind]
  · rw [listeners_pushNode _ _ hreceived] at h
    exact .inl h

theorem pushHolding (hn : n.Typed) {topic : Topic} (htopic : n.hasTopic topic)
    {listener : Nat → Listener A} (hnode : ∀ id, (listener id).node? = some id)
    {body : Subscription → Body N A} (hreceived : ∀ s, (body s).received = [])
    (hfits : (n.pushHolding topic listener body).Fits topic (listener n.nodes.size)) :
    (n.pushHolding topic listener body).Typed := by
  have hold (id : Nat) (hid : n.isPresent (.changed id)) :
      (n.pushHolding topic listener body).isPresent (.changed id) :=
    isPresent_pushNode_of_isPresent _ _ (by rwa [isPresent_subscribed])
  refine hn.of_listeners (fun id kind hkind => ?_) (fun t attached h => ?_) hold
  · rw [Network.pushHolding, kind?_pushNode, size_subscribed,
      if_neg (lt_size_of_kind? hkind).ne, kind?_subscribed, hkind]
  · rw [Network.pushHolding, listeners_pushNode _ _ (hreceived _)] at h
    by_cases ht : t = topic
    · subst ht
      rw [listeners_subscribed_self _ _ htopic, List.mem_append, List.mem_singleton] at h
      refine h.imp id fun h => ?_
      subst h
      refine ⟨hfits, fun id hid => ?_⟩
      -- the listener belongs to the node that is added
      obtain rfl : n.nodes.size = id := Option.some.inj ((hnode _).symm.trans hid)
      have := isPresent_pushNode_self (n.subscribed t (listener n.nodes.size))
        (body ⟨t, n.nextToken⟩)
      rwa [size_subscribed] at this
    · rw [listeners_subscribed_of_ne _ _ ht] at h
      exact .inl h

end Typed

/-! ## Giving subscriptions back -/

/-- A body that holds no subscriptions. -/
def Body.released : Body N A → Body N A
  | .formula f => .formula { f with dependencies := [], trigger := none }
  | .cached c => .cached { c with subscription := none }
  | .wrapped inner _ => .wrapped inner none
  | .aggregate a => .aggregate { a with subscription := none, members := [] }
  | body => body

/-- The network after a node gave all its subscriptions back. -/
def releasedAt (n : Network N A σ) (id : Nat) : Network N A σ :=
  (n.unsubscribeAll (n.held id)).mapBody id Body.released

theorem mapBody_congr {n : Network N A σ} {id : Nat} {f g : Body N A → Body N A}
    (h : ∀ body, n.body? id = some body → f body = g body) : n.mapBody id f = n.mapBody id g := by
  have : (n.nodes.mapIdx fun i node => node.mapBody fun body => if i = id then f body else body)
      = n.nodes.mapIdx fun i node => node.mapBody fun body => if i = id then g body else body := by
    refine Array.ext_getElem? fun i => ?_
    rw [Array.getElem?_mapIdx, Array.getElem?_mapIdx]
    cases hnode : n.nodes[i]? with
    | none => rfl
    | some node =>
      by_cases hi : i = id
      · subst hi
        simp [Node.mapBody, h node.body (by simp [body?, hnode])]
      · simp [Node.mapBody, hi]
  exact congrArg (fun nodes => { n with nodes := nodes }) this

theorem mapBody_id (n : Network N A σ) (id : Nat) : n.mapBody id (fun body => body) = n := by
  have : (n.nodes.mapIdx fun i node => node.mapBody fun body => if i = id then body else body)
      = n.nodes := by
    refine Array.ext_getElem? fun i => ?_
    rw [Array.getElem?_mapIdx]
    cases n.nodes[i]? <;> simp [Node.mapBody]
  exact congrArg (fun nodes => { n with nodes := nodes }) this

theorem unsubscribeAll_append (n : Network N A σ) (given given' : List Subscription) :
    n.unsubscribeAll (given ++ given') = (n.unsubscribeAll given).unsubscribeAll given' :=
  List.foldl_append

/-- A wrapped body with another subscription. -/
def Body.mapWrapping (subscription : Option Subscription) : Body N A → Body N A
  | .wrapped inner _ => .wrapped inner subscription
  | body => body

theorem setWrapping_eq_mapBody (n : Network N A σ) (id : Nat) (subscription : Option Subscription) :
    n.setWrapping id subscription = n.mapBody id (Body.mapWrapping subscription) :=
  n.modify_eq_mapBody id fun ⟨body, _, _⟩ => by cases body <;> rfl

theorem releaseSubscriptions_eq (n : Network N A σ) (id : Nat) :
    releaseSubscriptions id n = some (⟨⟩, n.releasedAt id) := by
  -- giving subscriptions back leaves what a node is made for
  have changed {given : List Subscription} {body : Body N A} {f : Body N A → Body N A}
      (hbody : n.body? id = some body) (h : ∀ b : Body N A, b.kind = body.kind → f b = b.released) :
      (n.unsubscribeAll given).mapBody id f = (n.unsubscribeAll given).mapBody id Body.released := by
    refine mapBody_congr fun b hb => h b ?_
    have := kind?_unsubscribeAll n id given
    simpa [kind?, hbody, hb] using this
  have idle {body : Body N A} (hbody : n.body? id = some body) (hheld : body.held = [])
      (h : body.released = body) : some (PUnit.unit, n) = some (PUnit.unit, n.releasedAt id) := by
    have : n.held id = [] := by simp [held, hbody, hheld]
    rw [releasedAt, this, unsubscribeAll, List.foldl_nil, ← mapBody_congr (f := fun body => body),
      mapBody_id]
    intro b hb
    obtain rfl := Option.some.inj (hbody.symm.trans hb)
    exact h.symm
  rw [releaseSubscriptions, get_bind_apply]
  cases hbody : n.body? id with
  | none =>
    have : n.releasedAt id = n := by
      rw [releasedAt, held, hbody]
      exact (mapBody_congr (by simp [unsubscribeAll, hbody])).trans (n.mapBody_id id)
    rw [this]
    rfl
  | some body =>
    cases body with
    | input | absent | exposed => exact idle hbody rfl rfl
    | formula f =>
      have hheld : n.held id = f.dependencies.map (·.2) ++ f.trigger.toList := by
        simp [held, hbody, Body.held]
      rw [releasedAt, hheld, unsubscribeAll_append, ← unsubscribeAll_append, ← changed hbody,
        unsubscribeAll_append, ← modifyFormula_eq_mapBody]
      · rfl
      · intro b hb
        cases b <;> first | rfl | cases hb
    | cached c =>
      have hheld : n.held id = c.subscription.toList := by simp [held, hbody, Body.held]
      rw [releasedAt, hheld, ← changed hbody, ← modifyCached_eq_mapBody]
      · rfl
      · intro b hb
        cases b <;> first | rfl | cases hb
    | wrapped inner subscription =>
      have hheld : n.held id = subscription.toList := by simp [held, hbody, Body.held]
      rw [releasedAt, hheld, ← changed hbody, ← setWrapping_eq_mapBody]
      · rfl
      · intro b hb
        cases b <;> first | rfl | cases hb
    | aggregate a =>
      have hheld : n.held id = a.subscription.toList ++ a.members.map (·.2) := by
        simp [held, hbody, Body.held]
      rw [releasedAt, hheld, ← changed hbody, ← modifyAggregate_eq_mapBody]
      · rfl
      · intro b hb
        cases b <;> first | rfl | cases hb

section ReleasedAt

variable (n : Network N A σ) (id i : Nat)

theorem body?_releasedAt : ((n.releasedAt id).body? i).map (·.kind) = (n.body? i).map (·.kind) := by
  have h := n.kind?_unsubscribeAll i (n.held id)
  rw [releasedAt, body?_mapBody]
  split
  · rw [Option.map_map, ← kind?, ← h, kind?]
    congr 1
    funext body
    cases body <;> rfl
  · exact h

@[simp]
theorem kind?_releasedAt : (n.releasedAt id).kind? i = n.kind? i := n.body?_releasedAt id i

@[simp]
theorem flags?_releasedAt : (n.releasedAt id).flags? i = n.flags? i := by
  have h := n.flags?_unsubscribeAll i (n.held id)
  rw [← h, releasedAt, flags?, flags?, body?_mapBody]
  split
  · rw [Option.map_map]
    congr 2
    funext body
    cases body <;> rfl
  · rfl

@[simp]
theorem size_releasedAt : (n.releasedAt id).nodes.size = n.nodes.size := by
  rw [releasedAt, mapBody, size_mapBodies, size_unsubscribeAll]

theorem held_releasedAt_self : (n.releasedAt id).held id = [] := by
  rw [releasedAt, held, body?_mapBody, if_pos rfl]
  cases (n.unsubscribeAll (n.held id)).body? id with
  | none => rfl
  | some body => cases body <;> rfl

theorem view?_releasedAt_of_ne {i : Nat} (h : i ≠ id) :
    (n.releasedAt id).view? i = n.view? i := by
  rw [releasedAt, view?_mapBody_of_ne _ _ h, view?_unsubscribeAll]

@[simp]
theorem isPresent_releasedAt (topic : Topic) :
    (n.releasedAt id).isPresent topic = n.isPresent topic := by
  rw [releasedAt, mapBody, isPresent_mapBodies, isPresent_unsubscribeAll]

@[simp]
theorem hasTopic_releasedAt (topic : Topic) :
    (n.releasedAt id).hasTopic topic ↔ n.hasTopic topic := by
  cases topic with
  | changed id => simp [hasTopic]
  | received id => simp [hasTopic]
  | members c => exact n.hasTopic_unsubscribeAll (n.held id) (.members c)
  | paths set => exact n.hasTopic_unsubscribeAll (n.held id) (.paths set)
  | layers l => exact n.hasTopic_unsubscribeAll (n.held id) (.layers l)
  | listing => exact Iff.rfl
  | named event => exact n.hasTopic_unsubscribeAll (n.held id) (.named event)

variable {n} in
/-- A node that gives its subscriptions back takes its listeners along, and no others. -/
theorem Ledger.listeners_releasedAt (h : n.Ledger) (topic : Topic) :
    (n.releasedAt id).listeners topic
      = (n.listeners topic).filter fun attached => decide (attached.listener.node? ≠ some id) := by
  have hreceived (i : Nat) (body : Body N A) :
      (if i = id then body.released else body).received = body.received := by
    split
    · cases body <;> rfl
    · rfl
  rw [releasedAt, mapBody, listeners_mapBodies _ hreceived, listeners_unsubscribeAll]
  refine List.filter_congr fun attached hattached => ?_
  have : ⟨topic, attached.token⟩ ∈ n.held id ↔ attached.listener.node? = some id := by
    rw [h.balance]
    constructor
    · rintro ⟨l, hl, hnode⟩
      rwa [h.listener_unique hl hattached] at hnode
    · exact fun hnode => ⟨attached.listener, hattached, hnode⟩
  simp [this]

variable {n} in
/-- The books agree after a node gave all its subscriptions back. -/
theorem Ledger.releasedAt (h : n.Ledger) : (n.releasedAt id).Ledger := by
  have hreceived (i : Nat) (body : Body N A) :
      (if i = id then body.released else body).received = body.received := by
    split
    · cases body <;> rfl
    · rfl
  have hgiven : ∀ s ∈ n.held id, s ∈ n.held id := fun _ hs => hs
  refine h.detach hgiven (fun topic => ?_) ?_ (fun i hi => ?_) ?_
  · rw [Network.releasedAt, mapBody, listeners_mapBodies _ hreceived, listeners_unsubscribeAll]
  · rw [held_releasedAt_self, List.filter_eq_nil_iff.mpr (by simp)]
  · exact held_of_view (n.view?_releasedAt_of_ne id hi)
  · exact n.nextToken_unsubscribeAll _

variable {n} in
theorem Typed.releasedAt (hn : n.Typed) (h : n.Ledger) : (n.releasedAt id).Typed := by
  refine hn.of_listeners (fun i kind hkind => ?_) (fun topic attached ha => ?_) fun i hi => ?_
  · rwa [kind?_releasedAt]
  · rw [h.listeners_releasedAt] at ha
    exact .inl (List.mem_of_mem_filter ha)
  · rwa [isPresent_releasedAt]

end ReleasedAt

end StatEngine.Network
