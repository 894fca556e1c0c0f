import StatEngine.Proofs.Invariant

/-!
# Making nodes

Nodes are made before anything knows of them. What is made is connected to what it is made from, and
leaves everything else as it is (`Builds`).

## Main statements

* `addCached_eq`, `addLayeredFormula_eq` and the like: what making a node does to a network;
* `Builds.trans`, and one such lemma for each way to make a part;
* `hasCell_withKept`: the nodes that are made for a formula are a cell.
-/

namespace StatEngine.Network

variable {N A σ : Type}

/-- The network with a formula more that layers can be put on. -/
def withLayered (n : Network N A σ) (φ : Formula N) : Network N A σ :=
  { n with layered := n.layered.push ⟨φ, [], [], false⟩ }

/-- The network with a collection more. -/
def withCollection (n : Network N A σ) : Network N A σ :=
  { n with collections := n.collections.push ⟨[], [], []⟩ }

/-- What a node is at first that keeps the value of another one. -/
def keptBody (label : String) (inner : Nat) (s : Subscription) : Body N A :=
  .cached {
    label, inner, cache := none, observed := false, stale := false, guard := Guard.open_,
    received := [], subscription := some s }

/-- The network with the nodes more that make a formula node a cell. -/
def withKept (n : Network N A σ) (id : Nat) (label : String) : Network N A σ :=
  (n.pushHolding (.changed id) .invalidate (keptBody label id)).pushNode (.exposed n.nodes.size)

section Equations

variable (n : Network N A σ)

theorem addNode_eq (body : Body N A) : addNode body n = some (n.nodes.size, n.pushNode body) := rfl

theorem addFormula_eq (φ : Formula N) (path : Path (Stat N)) :
    addFormula φ path n
      = some (n.nodes.size, n.pushNode (.formula ⟨.plain φ, path, [], none⟩)) := rfl

theorem addLayered_eq (φ : Formula N) :
    addLayered φ n = some (n.layered.size, n.withLayered φ) := rfl

theorem addCollection_eq : addCollection n = some (n.collections.size, n.withCollection) := rfl

theorem addExposed_eq (inner : Nat) :
    addExposed inner n = some (n.nodes.size, n.pushNode (.exposed inner)) := rfl

theorem addLayeredFormula_eq {l : Nat} (hl : n.hasTopic (.layers l)) (path : Path (Stat N)) :
    addLayeredFormula l path n = some (n.nodes.size,
      n.pushHolding (.layers l) .relay fun s => .formula ⟨.layered l, path, [], some s⟩) := by
  have := n.mapBody_subscribed_pushNode hl (.relay n.nodes.size)
    (.formula ⟨.layered l, path, [], none⟩)
    (Body.mapFormula fun f => { f with trigger := some ⟨.layers l, n.nextToken⟩ })
  rw [← modifyFormula_eq_mapBody] at this
  exact congrArg (fun m : Network N A σ => some (n.nodes.size, m)) this

theorem addCached_eq {inner : Nat} {source : FormulaSource N} {path : Path (Stat N)}
    (hinner : n.kind? inner = some (.formula source path)) (label : String) :
    addCached inner label n = some (n.nodes.size,
      n.pushHolding (.changed inner) .invalidate (keptBody label inner)) := by
  have hlt := lt_size_of_kind? hinner
  have htopic (body : Body N A) : (n.pushNode body).changeTopic inner = .changed inner := by
    have hkind : (n.pushNode body).kind? inner = some (.formula source path) := by
      rw [kind?_pushNode, if_neg hlt.ne, hinner]
    rw [changeTopic]
    split
    · next hnode => simp [kind?, body?, hnode, Body.kind] at hkind
    · rfl
  have hrun (topic : Topic) (body : Body N A) (hbody : body = .cached {
      label, inner, cache := none, observed := false, stale := false, guard := Guard.open_,
      received := [], subscription := none }) (h : (n.pushNode body).changeTopic inner = topic) :
      addCached inner label n = some (n.nodes.size,
        ((n.pushNode body).subscribed topic (.invalidate n.nodes.size)).modifyCached n.nodes.size
          fun c => { c with subscription := some ⟨topic, n.nextToken⟩ }) := by
    subst hbody h
    rfl
  have hlt : n.hasTopic (.changed inner) := lt_size_of_kind? hinner
  rw [hrun _ _ rfl (htopic _), modifyCached_eq_mapBody, n.mapBody_subscribed_pushNode hlt]
  rfl

theorem addWrapped_eq {inner : Nat} (hinner : inner < n.nodes.size) :
    addWrapped inner n = some (n.nodes.size,
      n.pushHolding (.changed inner) .relay fun s => .wrapped inner (some s)) := by
  have htopic : n.hasTopic (.changed inner) := hinner
  have := n.mapBody_subscribed_pushNode htopic (.relay n.nodes.size) (.wrapped inner none)
    (Body.mapWrapping (some ⟨.changed inner, n.nextToken⟩))
  rw [← setWrapping_eq_mapBody] at this
  exact congrArg (fun m : Network N A σ => some (n.nodes.size, m)) this

/-- To make an aggregate of a collection is to make a node that listens to the collection, and to have it
follow the members that are there. -/
theorem addAggregate_apply {c : Nat} (hc : n.hasTopic (.members c)) (form : Form) :
    addAggregate c form n
      = (do (n.memberNodes c).forM (followMember n.nodes.size); pure n.nodes.size)
        (n.pushHolding (.members c) .follow fun s => .aggregate ⟨c, form, some s, []⟩) := by
  have hpush : _ = n.pushHolding (.members c) .follow fun s => .aggregate ⟨c, form, some s, []⟩ :=
    n.mapBody_subscribed_pushNode hc (.follow n.nodes.size) (.aggregate ⟨c, form, none, []⟩)
      (Body.mapAggregate fun a => { a with subscription := some ⟨.members c, n.nextToken⟩ })
  rw [← modifyAggregate_eq_mapBody] at hpush
  have hmembers (m : Network N A σ) (hm : m = n.pushHolding (.members c) .follow fun s =>
      .aggregate ⟨c, form, some s, []⟩) : m.memberNodes c = n.memberNodes c := by
    rw [memberNodes_eq, hm, registry_pushHolding, ← memberNodes_eq]
  rw [← hmembers _ hpush, ← hpush]
  rfl

/-- An aggregate of a collection without members follows nothing yet. -/
theorem addAggregate_eq {c : Nat} (hc : n.hasTopic (.members c)) (hempty : n.memberNodes c = [])
    (form : Form) : addAggregate c form n = some (n.nodes.size,
      n.pushHolding (.members c) .follow fun s => .aggregate ⟨c, form, some s, []⟩) := by
  rw [addAggregate_apply n hc, hempty]
  rfl

/-- Nobody listens to a new collection, and it has no members. -/
theorem listeners_withCollection (t : Topic) : n.withCollection.listeners t = n.listeners t := by
  cases t with
  | members c =>
    simp only [listeners, withCollection, Array.getElem?_push]
    split
    · next hc => rw [Array.getElem?_eq_none hc.ge]; rfl
    · rfl
  | _ => rfl

theorem registry_withCollection : n.withCollection.registry = n.registry := by
  have : n.withCollection.registry.items = n.registry.items := by
    funext c
    simp only [registry, withCollection, Array.getElem?_push]
    split
    · next hc => rw [Array.getElem?_eq_none hc.ge]; rfl
    · rfl
  exact congrArg (fun items => { n.registry with items := items }) this

end Equations

/-! ## What is made -/

/-- Nodes are made that nothing on file knows of. -/
structure Builds (n n' : Network N A σ) : Prop where
  typed : n'.Typed
  ledger : n'.Ledger
  released : n'.released = n.released
  notices : n'.notices = n.notices
  buffer : n'.buffer = n.buffer
  callbacks : ∀ t, n'.callbacks t = n.callbacks t
  size : n.nodes.size ≤ n'.nodes.size
  view : ∀ id < n.nodes.size, n'.view? id = n.view? id
  new : ∀ id v, n.nodes.size ≤ id → n'.view? id = some v → v.Fresh id
  topic : ∀ t, n.hasTopic t → n'.hasTopic t
  present : ∀ set, n.isPresent (.paths set) → n'.isPresent (.paths set)
  there : ∀ id, n.isPresent (.changed id) → n'.isPresent (.changed id)
  followers : ∀ k f p e, n.registry.form? k f p = some e → n.hasTopic (.members e.collection) →
    n'.listeners (.members e.collection) = n.listeners (.members e.collection)
  registry : ∃ layering, n'.registry = { n.registry with layering := layering }
    ∧ ∀ l x, n.registry.layering l = some x → layering l = some x

theorem flags?_eq_none (n : Network N A σ) {id : Nat} (h : n.nodes.size ≤ id) :
    n.flags? id = none := by
  rw [flags?, n.body?_eq_none h]
  rfl

namespace Builds

variable {n n' n'' : Network N A σ}

theorem refl (htyped : n.Typed) (hledger : n.Ledger) : n.Builds n where
  typed := htyped
  ledger := hledger
  released := rfl
  notices := rfl
  buffer := rfl
  callbacks _ := rfl
  size := le_rfl
  view _ _ := rfl
  new id v hid hv := by rw [n.view?_eq_none id hid] at hv; cases hv
  topic _ h := h
  present _ h := h
  there _ h := h
  followers _ _ _ _ _ _ := rfl
  registry := ⟨_, rfl, fun _ _ h => h⟩

theorem trans (h : n.Builds n') (h' : n'.Builds n'') : n.Builds n'' where
  typed := h'.typed
  ledger := h'.ledger
  released := h'.released.trans h.released
  notices := h'.notices.trans h.notices
  buffer := h'.buffer.trans h.buffer
  callbacks t := (h'.callbacks t).trans (h.callbacks t)
  size := h.size.trans h'.size
  view id hid := (h'.view id (hid.trans_le h.size)).trans (h.view id hid)
  new id v hid hv := by
    by_cases hlt : id < n'.nodes.size
    · exact h.new id v hid ((h'.view id hlt).symm.trans hv)
    · exact h'.new id v (Nat.le_of_not_lt hlt) hv
  topic t ht := h'.topic t (h.topic t ht)
  present set hset := h'.present set (h.present set hset)
  there id hid := h'.there id (h.there id hid)
  followers k f p e he htopic := by
    obtain ⟨layering, heq, -⟩ := h.registry
    refine (h'.followers k f p e ?_ (h.topic _ htopic)).trans (h.followers k f p e he htopic)
    rw [heq]
    exact he
  registry := by
    obtain ⟨layering, heq, hle⟩ := h.registry
    obtain ⟨layering', heq', hle'⟩ := h'.registry
    refine ⟨layering', by rw [heq', heq], fun l x hx => hle' l x ?_⟩
    rw [heq]
    exact hle l x hx

/-- A node is made that listens to nothing. -/
theorem pushNode (h : n.Builds n') {body : Body N A} (hheld : body.held = [])
    (hreceived : body.received = []) (hnew : body.view.Fresh n'.nodes.size) :
    n.Builds (n'.pushNode body) := by
  refine h.trans ⟨h.typed.pushNode hreceived, h.ledger.pushNode hheld hreceived, rfl, rfl, rfl,
    fun t => congrArg (List.filterMap _) (n'.listeners_pushNode body hreceived t), ?_, fun id hid => ?_, fun id v hid hv => ?_, fun _ => n'.hasTopic_pushNode body,
    fun _ => id, fun _ => n'.isPresent_pushNode_of_isPresent body,
    fun _ _ _ _ _ _ => n'.listeners_pushNode body hreceived _, _, rfl, fun _ _ => id⟩
  · rw [size_pushNode]
    exact Nat.le_succ _
  · rw [view?_pushNode, if_neg hid.ne]
  · rw [view?_pushNode] at hv
    split at hv
    · next heq =>
      obtain rfl := Option.some.inj hv
      exact heq ▸ hnew
    · rw [n'.view?_eq_none id hid] at hv
      cases hv

/-- A node is made that listens to a topic. -/
theorem pushHolding (h : n.Builds n') {topic : Topic} (htopic : n'.hasTopic topic)
    {listener : Nat → Listener A} (hnode : ∀ id, (listener id).node? = some id)
    {body : Subscription → Body N A} (hheld : ∀ s, (body s).held = [s])
    (hreceived : ∀ s, (body s).received = [])
    (hnew : (body ⟨topic, n'.nextToken⟩).view.Fresh n'.nodes.size)
    (hfits : (n'.pushHolding topic listener body).Fits topic (listener n'.nodes.size))
    (hmembers : ∀ k f p e, n.registry.form? k f p = some e → topic ≠ .members e.collection) :
    n.Builds (n'.pushHolding topic listener body) := by
  obtain ⟨layering, heq, hle⟩ := h.registry
  have hpush : n.Builds n' → (n'.pushHolding topic listener body).Typed →
      n.Builds (n'.pushHolding topic listener body) := fun h htyped => by
    refine h.trans ⟨htyped, h.ledger.pushHolding htopic hnode hheld hreceived, ?_, ?_, ?_,
      fun t => ?_, ?_, fun id hid => ?_, fun id v hid hv => ?_, fun t ht => ?_, fun set hset => ?_,
      fun i hi => ?_, fun k f p e he _ => ?_, _, n'.registry_pushHolding topic listener body, fun _ _ => id⟩
    · cases topic <;> rfl
    · cases topic <;> rfl
    · cases topic <;> rfl
    · refine (congrArg (List.filterMap _) (listeners_pushNode _ _ (hreceived _) _)).trans
        (n'.callbacks_subscribed topic ?_ _)
      have := hnode n'.nodes.size
      cases hl : listener n'.nodes.size with
      | host action => simp [hl, Listener.node?] at this
      | _ => rfl
    · rw [Network.pushHolding, size_pushNode, size_subscribed]
      exact Nat.le_succ _
    · rw [view?_pushHolding, if_neg hid.ne]
    · rw [view?_pushHolding] at hv
      split at hv
      · next heq =>
        obtain rfl := Option.some.inj hv
        exact heq ▸ hnew
      · rw [n'.view?_eq_none id hid] at hv
        cases hv
    · exact hasTopic_pushNode _ _ ((n'.hasTopic_subscribed topic _ t).mpr ht)
    · exact (n'.isPresent_subscribed topic _ _).trans hset
    · exact isPresent_pushNode_of_isPresent _ _ (by rwa [isPresent_subscribed])
    · rw [Network.pushHolding, listeners_pushNode _ _ (hreceived _), listeners_subscribed_of_ne]
      rw [heq] at he
      exact (hmembers k f p e he).symm
  exact hpush h (h.typed.pushHolding htopic hnode hreceived hfits)

theorem withLayered (h : n.Builds n') (φ : Formula N) : n.Builds (n'.withLayered φ) := by
  have hlisteners (t : Topic) : (n'.withLayered φ).listeners t = n'.listeners t := by
    cases t with
    | layers l =>
      simp only [listeners, Network.withLayered, Array.getElem?_push]
      split
      · next hl => rw [Array.getElem?_eq_none hl.ge]; rfl
      · rfl
    | _ => rfl
  refine h.trans ⟨h.typed.of_listeners (fun _ _ hkind => hkind)
      (fun t _ ha => .inl (hlisteners t ▸ ha)) fun _ hid => hid,
    h.ledger.of_eq hlisteners (fun _ => rfl) le_rfl, rfl, rfl, rfl,
    fun t => congrArg (List.filterMap _) (hlisteners t), le_rfl, fun _ _ => rfl,
    fun id v hid hv => ?_, fun t ht => ?_, fun _ => id, fun _ => id,
    fun _ _ _ _ _ _ => rfl, _, rfl, fun l x hx => ?_⟩
  · exact absurd (hv.symm.trans (n'.view?_eq_none id hid)) (by simp)
  · cases t with
    | layers l =>
      have hl : l < n'.layered.size := ht
      change l < (n'.layered.push _).size
      rw [Array.size_push]
      omega
    | _ => exact ht
  · have hl : l < n'.layered.size := by
      by_contra hge
      simp [Network.registry, Array.getElem?_eq_none (Nat.le_of_not_lt hge)] at hx
    simpa [Network.registry, Network.withLayered, Array.getElem?_push, hl.ne] using hx

theorem withCollection (h : n.Builds n') : n.Builds n'.withCollection := by
  refine h.trans ⟨h.typed.of_listeners (fun _ _ hkind => hkind)
      (fun t _ ha => .inl (n'.listeners_withCollection t ▸ ha)) fun _ hid => hid,
    h.ledger.of_eq n'.listeners_withCollection (fun _ => rfl) le_rfl, rfl, rfl, rfl,
    fun t => congrArg (List.filterMap _) (n'.listeners_withCollection t), le_rfl, fun _ _ => rfl,
    fun id v hid hv => ?_, fun t ht => ?_, fun _ => id, fun _ => id,
    fun _ _ _ _ _ _ => n'.listeners_withCollection _, n'.registry.layering,
    n'.registry_withCollection, fun _ _ => id⟩
  · exact absurd (hv.symm.trans (n'.view?_eq_none id hid)) (by simp)
  · cases t with
    | members c =>
      have hc : c < n'.collections.size := ht
      change c < (n'.collections.push _).size
      rw [Array.size_push]
      omega
    | _ => exact ht

/-- The nodes that keep and show the value of a formula are made. -/
theorem withKept (h : n.Builds n') {id : Nat} {source : FormulaSource N} {path : Path (Stat N)}
    (hid : n'.kind? id = some (.formula source path)) (hsize : n'.nodes.size = id + 1)
    (label : String) : n.Builds (n'.withKept id label) := by
  have hlt := lt_size_of_kind? hid
  have htopic : n'.hasTopic (.changed id) := hlt
  have hkept : n.Builds (n'.pushHolding (.changed id) .invalidate (keptBody label id)) := by
    refine h.pushHolding htopic (fun _ => rfl) (fun _ => rfl) (fun _ => rfl)
      ⟨fun flags hflags => (Option.some.inj hflags).symm, ?_, rfl, ?_, ?_, fun i hi => ?_⟩
      ⟨⟨source, path, ?_⟩, ?_⟩ (by simp)
    · simp [keptBody, Body.view, Body.held]
    · simp [keptBody, Body.view, Body.kind]
    · simp [keptBody, Body.view, Body.kind]
    · cases hi
      exact hsize
    · rw [Network.pushHolding, kind?_pushNode, size_subscribed, if_neg hlt.ne, kind?_subscribed,
        hid]
    · rw [Network.pushHolding, kind?_pushNode, size_subscribed, if_pos rfl]
      rfl
  exact hkept.pushNode rfl rfl ⟨by simp [Body.view, Body.flags?], by simp [Body.view, Body.held],
    rfl, by simp [Body.view, Body.kind], by simp [Body.view, Body.kind], by simp [Body.view, Body.kind]⟩

end Builds

/-- The nodes that are made for a formula are a cell. -/
theorem hasCell_withKept {n : Network N A σ} {id : Nat} {source : FormulaSource N}
    {path : Path (Stat N)} (hid : n.kind? id = some (.formula source path))
    (hpresent : n.isPresent (.changed id)) (hsize : n.nodes.size = id + 1) (label : String) :
    (n.withKept id label).HasCell id source path := by
  have hpush : (n.pushHolding (.changed id) .invalidate (keptBody label id)).nodes.size = id + 2 := by
    rw [pushHolding, size_pushNode, size_subscribed, hsize]
  refine ⟨?_, ?_, ?_, ⟨⟨.changed id, n.nextToken⟩, ?_, rfl⟩, ?_⟩
  · rw [withKept, kind?_pushNode, hpush, if_neg (by omega), pushHolding, kind?_pushNode,
      size_subscribed, hsize, if_neg (by omega), kind?_subscribed, hid]
  · rw [withKept, kind?_pushNode, hpush, if_neg (by omega), pushHolding, kind?_pushNode,
      size_subscribed, hsize, if_pos rfl]
    rfl
  · rw [withKept, kind?_pushNode, hpush, if_pos rfl, hsize]
    rfl
  · rw [withKept, held_pushNode, hpush, if_neg (by omega), pushHolding, held_pushNode,
      size_subscribed, hsize, if_pos rfl]
    simp [keptBody, Body.held]
  · exact isPresent_pushNode_of_isPresent _ _ (isPresent_pushNode_of_isPresent _ _ (by
      rwa [isPresent_subscribed]))

/-- The nodes of a cell are made for what its formula is. -/
theorem made_withKept {sc : Regime N} {n : Network N A σ} {id : Nat} {source : FormulaSource N}
    {path : Path (Stat N)} (hid : n.kind? id = some (.formula source path))
    (hsize : n.nodes.size = id + 1) {label : String}
    (hmade : (n.withKept id label).Made sc (.formula source path)) (i : Nat) (kind : Kind N A)
    (hi : id ≤ i) (hkind : (n.withKept id label).kind? i = some kind) :
    (n.withKept id label).Made sc kind := by
  have hpush : (n.pushHolding (.changed id) .invalidate (keptBody label id)).nodes.size = id + 2 := by
    rw [pushHolding, size_pushNode, size_subscribed, hsize]
  have hformula : (n.withKept id label).kind? id = some (.formula source path) := by
    rw [withKept, kind?_pushNode, hpush, if_neg (by omega), pushHolding, kind?_pushNode,
      size_subscribed, hsize, if_neg (by omega), kind?_subscribed, hid]
  have hlt := lt_size_of_kind? hkind
  rw [withKept, size_pushNode, hpush] at hlt
  obtain rfl | rfl | rfl : i = id ∨ i = id + 1 ∨ i = id + 2 := by omega
  · obtain rfl := Option.some.inj (hformula.symm.trans hkind)
    exact hmade
  · rw [withKept, kind?_pushNode, hpush, if_neg (by omega), pushHolding, kind?_pushNode,
      size_subscribed, hsize, if_pos rfl] at hkind
    cases hkind
    exact ⟨source, path, hformula⟩
  · rw [withKept, kind?_pushNode, hpush, if_pos rfl] at hkind
    cases hkind
    trivial

theorem size_pushHolding (n : Network N A σ) (topic : Topic) (listener : Nat → Listener A)
    (body : Subscription → Body N A) :
    (n.pushHolding topic listener body).nodes.size = n.nodes.size + 1 := by
  rw [pushHolding, size_pushNode, size_subscribed]

/-- Making the nodes that keep and show the value of a formula before going on. -/
theorem leads_addKept {α : Type} {b : Prop} {n : Network N A σ} {id : Nat} {source : FormulaSource N}
    {path : Path (Stat N)} {label : String} {next : Nat → Nat → Run N A σ α}
    {post : α → Network N A σ → Prop} (hid : n.kind? id = some (.formula source path))
    (hsize : n.nodes.size = id + 1)
    (h : Leads b (next (id + 1) (id + 2)) (n.withKept id label) post) :
    Leads b (do
      let cached ← addCached id label
      let exposed ← addExposed cached
      next cached exposed) n post := by
  refine .eq_bind (addCached_eq n hid label) (.eq_bind (addExposed_eq _ _) ?_)
  rw [size_pushHolding]
  rw [← hsize, show id + 2 = n.nodes.size + 1 by omega] at h
  exact h

end StatEngine.Network
