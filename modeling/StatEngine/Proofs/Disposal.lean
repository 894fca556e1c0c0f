import StatEngine.Proofs.Members

/-!
# Nodes that are let go of

A node that is let go of gives its subscriptions back and forgets its value (`Retires`). Nothing that is
on file may rely on it then, so it is taken off file along with that, if it is not off file already
(`Drops`). What remains on file is left as it is, since nobody listened to what was dropped.

## Main definitions

* `Retires`: nodes have given their subscriptions back;
* `Drops`: parts were taken off file;

## Main statements

* `dispose_cell`: what disposing a cell does to a network;
* `Core.retire`: letting go of what nobody listens to keeps the invariant.
-/

namespace StatEngine.Network

variable {N A σ : Type} {sc : Regime N} {n m m' : Network N A σ}

/-! ## Retiring -/

/-- Nodes gave their subscriptions back, and may have forgotten their values. -/
structure Retires (n m : Network N A σ) (gone : List Nat) : Prop where
  typed : m.Typed
  ledger : m.Ledger
  kind : ∀ i, m.kind? i = n.kind? i
  view : ∀ i ∉ gone, m.view? i = n.view? i
  held : ∀ i ∈ gone, m.held i = []
  flags : ∀ i, m.flags? i = n.flags? i ∨ i ∈ gone ∧ m.flags? i = (n.flags? i).map Flags.cleared
  listeners : ∀ t, m.listeners t
    = (n.listeners t).filter fun attached => decide (∀ i ∈ gone, attached.listener.node? ≠ some i)
  topic : ∀ t, n.hasTopic t → m.hasTopic t
  size : m.nodes.size = n.nodes.size
  there : ∀ id ∉ gone, n.isPresent (.changed id) → m.isPresent (.changed id)
  released : m.released = n.released
  buffer : m.buffer = n.buffer
  host : m.host = n.host

namespace Retires

variable {gone : List Nat}

/-- No node gave anything back if the nodes are the same ones. -/
theorem of_nodes (htyped : n.Typed) (hledger : n.Ledger) (hnodes : m.nodes = n.nodes)
    (hlisteners : ∀ t, m.listeners t = n.listeners t) (htopic : ∀ t, n.hasTopic t → m.hasTopic t)
    (htoken : m.nextToken = n.nextToken) (hreleased : m.released = n.released)
    (hbuffer : m.buffer = n.buffer) (hhost : m.host = n.host) : n.Retires m [] := by
  have hview (i : Nat) : m.view? i = n.view? i := by
    simp only [view?, body?, hnodes]
  have hthere (i : Nat) (hi : n.isPresent (.changed i)) : m.isPresent (.changed i) := by
    simpa only [isPresent, hnodes] using hi
  refine ⟨htyped.of_listeners (fun i kind h => (kind?_of_view (hview i)).trans h)
      (fun t _ h => .inl (hlisteners t ▸ h)) hthere, ?_, fun i => kind?_of_view (hview i),
    fun i _ => hview i, by simp, fun i => .inl (flags?_of_view (hview i)), fun t => ?_, htopic,
    congrArg Array.size hnodes, fun i _ => hthere i, hreleased, hbuffer, hhost⟩
  · exact hledger.of_eq hlisteners (fun i => held_of_view (hview i)) htoken.ge
  · rw [hlisteners]
    simp

theorem of_sameNodes (htyped : n.Typed) (hledger : n.Ledger) (hs : n.SameNodes m) :
    n.Retires m [] :=
  .of_nodes htyped hledger hs.nodes hs.listeners hs.topic hs.token hs.released hs.buffer hs.host

theorem refl (htyped : n.Typed) (hledger : n.Ledger) : n.Retires n [] :=
  .of_sameNodes htyped hledger (.refl n)

theorem trans {gone' : List Nat} (h : n.Retires m gone) (h' : m.Retires m' gone') :
    n.Retires m' (gone ++ gone') where
  typed := h'.typed
  ledger := h'.ledger
  kind i := (h'.kind i).trans (h.kind i)
  view i hi := by
    rw [List.mem_append, not_or] at hi
    exact (h'.view i hi.2).trans (h.view i hi.1)
  held i hi := by
    by_cases hi' : i ∈ gone'
    · exact h'.held i hi'
    · rw [held_of_view (h'.view i hi')]
      exact h.held i ((List.mem_append.mp hi).resolve_right hi')
  flags i := by
    obtain hf | ⟨hi, hf⟩ := h.flags i <;> obtain hf' | ⟨hi', hf'⟩ := h'.flags i <;> rw [hf', hf]
    · exact .inl rfl
    · exact .inr ⟨List.mem_append_right _ hi', rfl⟩
    · exact .inr ⟨List.mem_append_left _ hi, rfl⟩
    · exact .inr ⟨List.mem_append_left _ hi, by rw [Option.map_map]; rfl⟩
  listeners t := by
    rw [h'.listeners, h.listeners, List.filter_filter]
    refine List.filter_congr fun attached _ => ?_
    simp only [List.mem_append, or_imp, forall_and, Bool.decide_and, Bool.and_comm]
  topic t ht := h'.topic t (h.topic t ht)
  size := h'.size.trans h.size
  there i hi hpresent := by
    rw [List.mem_append, not_or] at hi
    exact h'.there i hi.2 (h.there i hi.1 hpresent)
  released := h'.released.trans h.released
  buffer := h'.buffer.trans h.buffer
  host := h'.host.trans h.host

/-- One node more gives its subscriptions back. -/
theorem releasedAt (h : n.Retires m gone) (id : Nat) : n.Retires (m.releasedAt id) (id :: gone) where
  typed := h.typed.releasedAt id h.ledger
  ledger := h.ledger.releasedAt id
  kind i := (m.kind?_releasedAt id i).trans (h.kind i)
  view i hi := by
    rw [List.mem_cons, not_or] at hi
    exact (m.view?_releasedAt_of_ne id hi.1).trans (h.view i hi.2)
  held i hi := by
    by_cases heq : i = id
    · subst heq
      exact m.held_releasedAt_self i
    · rw [held_of_view (m.view?_releasedAt_of_ne id heq)]
      exact h.held i ((List.mem_cons.mp hi).resolve_left heq)
  flags i := by
    rw [flags?_releasedAt]
    exact (h.flags i).imp_right (And.imp_left (List.mem_cons_of_mem id))
  listeners t := by
    rw [h.ledger.listeners_releasedAt, h.listeners, List.filter_filter]
    refine List.filter_congr fun attached _ => ?_
    simp
  topic t ht := (m.hasTopic_releasedAt id t).mpr (h.topic t ht)
  size := (m.size_releasedAt id).trans h.size
  there i hi hpresent := by
    rw [List.mem_cons, not_or] at hi
    exact (m.isPresent_releasedAt id _).trans (h.there i hi.2 hpresent)
  released := by
    refine Eq.trans ?_ h.released
    exact m.released_unsubscribeAll (m.held id)
  buffer := by
    refine Eq.trans ?_ h.buffer
    exact m.buffer_unsubscribeAll (m.held id)
  host := by
    refine Eq.trans ?_ h.host
    exact m.host_unsubscribeAll (m.held id)

/-- One of the nodes forgets its value. -/
theorem cleared (h : n.Retires m gone) {id : Nat} (hid : id ∈ gone) :
    n.Retires (m.modifyCached id fun c => { c with cache := none }) gone := by
  have heq : (m.modifyCached id fun c => { c with cache := none })
      = m.relight fun i flags => if i = id then flags.cleared else flags :=
    m.modifyCached_eq_relight id fun _ => rfl
  rw [heq]
  have hview (i : Nat) (hi : i ≠ id) :
      (m.relight fun i flags => if i = id then flags.cleared else flags).view? i = m.view? i := by
    rw [← heq, modifyCached_eq_mapBody, view?_mapBody_of_ne _ _ hi]
  refine ⟨?_, ?_, fun i => ?_, fun i hi => ?_, fun i hi => ?_, fun i => ?_, fun t => ?_,
    fun t ht => ?_, ?_, fun i hi hpresent => ?_, h.released, h.buffer, h.host⟩
  · refine h.typed.of_listeners (fun i kind hi => ?_) (fun t attached ha => ?_) fun i hi => ?_
    · rwa [kind?_relight]
    · rw [listeners_relight] at ha
      exact .inl ha
    · rwa [isPresent_relight]
  · exact h.ledger.of_eq (m.listeners_relight _) (m.held_relight · _) le_rfl
  · rw [kind?_relight, h.kind]
  · rw [hview i (fun heq => hi (heq ▸ hid)), h.view i hi]
  · rw [held_relight, h.held i hi]
  · rw [flags?_relight]
    obtain hf | ⟨hi, hf⟩ := h.flags i
    · by_cases hi : i = id
      · subst hi
        exact .inr ⟨hid, by simp [hf]⟩
      · exact .inl (by simp [hi, hf])
    · refine .inr ⟨hi, ?_⟩
      rw [hf, Option.map_map]
      refine congrArg (Option.map · _) (funext fun flags => ?_)
      simp only [Function.comp_apply]
      split <;> rfl
  · rw [listeners_relight, h.listeners]
  · exact (m.hasTopic_relight _ t).mpr (h.topic t ht)
  · rw [size_relight, h.size]
  · rw [isPresent_relight]
    exact h.there i hi hpresent

theorem callbacks (h : n.Retires m gone) (t : Topic) : m.callbacks t = n.callbacks t := by
  rw [Network.callbacks, h.listeners, Network.callbacks, List.filterMap_filter]
  refine List.filterMap_congr fun attached _ => ?_
  split
  · rfl
  next hnot =>
    cases hl : attached.listener with
    | host action => simp [hl, Listener.node?] at hnot
    | _ => simp [Attached.callback?, hl, Listener.action?]

theorem isObserved (h : n.Retires m gone) (c : Nat) : m.isObserved c = n.isObserved c := by
  rw [Network.isObserved, Network.isObserved]
  obtain hf | ⟨-, hf⟩ := h.flags c <;> rw [hf]
  cases n.flags? c <;> rfl

theorem isEntered (h : n.Retires m gone) (c : Nat) : m.isEntered c = n.isEntered c := by
  rw [Network.isEntered, Network.isEntered]
  obtain hf | ⟨-, hf⟩ := h.flags c <;> rw [hf]
  cases n.flags? c <;> rfl

/-- Nothing is announced when nodes are let go of. A formula goes with the node that keeps its value. -/
theorem changes (h : n.Retires m gone) (hfreed : ∀ i ∈ gone, n.IsFormula i → ∀ inner,
    n.kind? (i + 1) = some (.cached inner) → m.held (i + 1) = []) {tell : A → σ → σ} :
    n.Changes tell m := by
  refine .of_proceeds ⟨.of_buffer h.buffer, fun id kind hkind => (h.kind id).trans hkind,
    h.isEntered, h.callbacks⟩ h.isObserved ?_ (fun d _ => ?_) (fun d _ _ hheld => ?_)
    ⟨fun id inner hinner => ?_, fun id hid => ?_⟩
  · rw [notices, notices, h.buffer, h.host]
  · obtain hflags | ⟨hd, -⟩ := h.flags d
    · exact .inr (by rw [value?, hflags, value?])
    · exact .inl (h.held d hd)
  · by_cases hd : d ∈ gone
    · exact h.held d hd
    · exact (held_of_view (h.view d hd)).trans hheld
  · by_cases hd : id ∈ gone
    · by_cases hid : n.recorded id = []
      · exact .inl ((recorded_of_held (h.held id hd)).trans hid.symm)
      · exact .inr (hfreed id hd (isFormula_of_recorded hid) inner hinner)
    · exact .inl (recorded_of_view (h.view id hd))
  · by_cases hd : id ∈ gone
    · exact recorded_of_held (h.held id hd)
    · exact (recorded_of_view (h.view id hd)).trans hid

/-- A node that evaluates no formula goes alone. -/
theorem changes_of_kind {id : Nat} (h : n.Retires m [id]) {kind : Kind N A} (hkind : n.kind? id = some kind)
    (hformula : ∀ source path, kind ≠ .formula source path) {tell : A → σ → σ} : n.Changes tell m :=
  h.changes fun i hi ⟨source, path, hid⟩ => by
    rw [List.mem_singleton.mp hi, hkind] at hid
    exact absurd (Option.some.inj hid) (hformula source path)

end Retires

/-- A node that holds nothing has nothing to give back. -/
theorem releasedAt_of_exposed {i inner : Nat} (h : n.kind? i = some (.exposed inner)) :
    n.releasedAt i = n := by
  obtain ⟨body, hbody, hkind⟩ := Option.map_eq_some_iff.mp h
  cases body with
  | exposed inner =>
    have hheld : n.held i = [] := by rw [held, hbody]; rfl
    have hsame : n.mapBody i Body.released = n.mapBody i fun body => body :=
      mapBody_congr fun body h => by rw [hbody] at h; cases h; rfl
    rw [releasedAt, hheld]
    exact hsame.trans (n.mapBody_id i)
  | _ => cases hkind

/-- The network after a cell was disposed. -/
def disposedCell (n : Network N A σ) (id : Nat) : Network N A σ :=
  ((n.releasedAt (id + 1)).modifyCached (id + 1) fun c => { c with cache := none }).releasedAt id

theorem exists_body {i : Nat} {kind : Kind N A} (h : n.kind? i = some kind) :
    ∃ body, n.body? i = some body ∧ body.kind = kind := Option.map_eq_some_iff.mp h

/-- Disposing a node that has nothing inside is having it give its subscriptions back. -/
theorem dispose_eq (host : Host N A σ) {i : Nat} {kind : Kind N A} (h : n.kind? i = some kind)
    (hkind : (∃ source p, kind = .formula source p) ∨ (∃ inner, kind = .wrapped inner)
      ∨ ∃ c form, kind = .aggregate c form) : dispose host i n = some (⟨⟩, n.releasedAt i) := by
  obtain ⟨body, hbody, rfl⟩ := exists_body ((n.kind?_releasedAt i i).trans h)
  rw [dispose, bind_apply (releaseSubscriptions_eq n i), get_bind_apply, hbody]
  cases body with
  | formula | wrapped | aggregate => rfl
  | _ => simp [Body.kind] at hkind

theorem dispose_cell (host : Host N A σ) {id : Nat} {source : FormulaSource N} {p : Path (Stat N)}
    (h : n.HasCell id source p) : dispose host (id + 2) n = some (⟨⟩, n.disposedCell id) := by
  have hcached : dispose host (id + 1) n = some (⟨⟩, n.disposedCell id) := by
    obtain ⟨body, hbody, hkind⟩ := exists_body ((n.kind?_releasedAt (id + 1) (id + 1)).trans h.cached)
    rw [dispose, bind_apply (releaseSubscriptions_eq n _), get_bind_apply, hbody]
    cases body with
    | cached c =>
      obtain rfl : c.inner = id := by simpa [Body.kind] using hkind
      dsimp only
      rw [modify_bind_apply, if_pos (Nat.lt_succ_self _)]
      have hformula : ((n.releasedAt (c.inner + 1)).modifyCached (c.inner + 1) fun c =>
          { c with cache := none }).kind? c.inner = some (.formula source p) := by
        rw [modifyCached_eq_mapBody, mapBody, kind?, map_body?_mapBodies, ← kind?, kind?_releasedAt,
          h.formula]
        intro i body
        split
        · cases body <;> rfl
        · rfl
      exact dispose_eq host hformula (.inl ⟨source, p, rfl⟩)
    | _ => cases hkind
  obtain ⟨body, hbody, hkind⟩ := exists_body h.exposed
  rw [dispose, bind_apply (releaseSubscriptions_eq n _), get_bind_apply,
    releasedAt_of_exposed h.exposed, hbody]
  cases body with
  | exposed inner =>
    obtain rfl : inner = id + 1 := by simpa [Body.kind] using hkind
    dsimp only
    rw [if_pos (Nat.lt_succ_self _), hcached]
  | _ => cases hkind

theorem registry_disposedCell (n : Network N A σ) (id : Nat) :
    (n.disposedCell id).registry = n.registry := by
  rw [disposedCell, registry_releasedAt, modifyCached_eq_mapBody, registry_mapBody,
    registry_releasedAt]

theorem isPresent_disposedCell (n : Network N A σ) (id : Nat) (t : Topic) :
    (n.disposedCell id).isPresent t = n.isPresent t := by
  rw [disposedCell, isPresent_releasedAt, modifyCached_eq_mapBody, mapBody, isPresent_mapBodies,
    isPresent_releasedAt]

/-- The nodes of a cell that is disposed hold nothing any more. -/
theorem retires_disposedCell (htyped : n.Typed) (hledger : n.Ledger) (id : Nat) :
    n.Retires (n.disposedCell id) [id, id + 1] :=
  (((Retires.refl htyped hledger).releasedAt (id + 1)).cleared List.mem_cons_self).releasedAt id

/-- The nodes of a cell are no nodes of another one. -/
theorem HasCell.apart {id id' : Nat} {source source' : FormulaSource N} {p p' : Path (Stat N)}
    (h : n.HasCell id source p) (h' : n.HasCell id' source' p') (hne : id ≠ id') {i : Nat}
    (hi : i ∈ [id, id + 1]) : (i ≠ id' ∧ i ≠ id' + 1) ∧ i + 1 ≠ id' + 2 ∧ i + 2 ≠ id' + 2 := by
  have heq {j k : Nat} (hj : j ≤ 2) (hk : k ≤ 2) : id + j ≠ id' + k :=
    fun heq => hne (h.eq_of_kind h' hj hk heq)
  have h₀ := heq (j := 0) (k := 0) (by omega) (by omega)
  have h₁ := heq (j := 0) (k := 1) (by omega) (by omega)
  have h₂ := heq (j := 1) (k := 0) (by omega) (by omega)
  obtain rfl | rfl : i = id ∨ i = id + 1 := by simpa using hi
  all_goals omega

/-- A node that neither evaluates a formula nor keeps a value is no node of a cell. -/
theorem HasCell.apart_of_kind {i id' : Nat} {source' : FormulaSource N} {p' : Path (Stat N)}
    {kind : Kind N A} (hi : n.kind? i = some kind) (hformula : ∀ source p, kind ≠ .formula source p)
    (hcached : ∀ inner, kind ≠ .cached inner) (h' : n.HasCell id' source' p') :
    (i ≠ id' ∧ i ≠ id' + 1) ∧ i + 1 ≠ id' + 2 ∧ i + 2 ≠ id' + 2 := by
  have h₀ : i ≠ id' := fun heq => by
    rw [heq, h'.formula] at hi
    exact hformula _ _ (Option.some.inj hi).symm
  have h₁ : i ≠ id' + 1 := fun heq => by
    rw [heq, h'.cached] at hi
    exact hcached _ (Option.some.inj hi).symm
  omega

/-- The follower of a collection is no node of a cell. -/
theorem HasCell.not_aggregate {id i c : Nat} {source : FormulaSource N} {p : Path (Stat N)}
    {form : Form} (h : n.HasCell id source p) (hi : n.kind? i = some (.aggregate c form)) :
    i ∉ [id, id + 1] := by
  intro hmem
  obtain rfl | rfl : i = id ∨ i = id + 1 := by simpa using hmem
  · cases h.formula.symm.trans hi
  · cases h.cached.symm.trans hi

/-- The formula of a cell is disposed with the node that keeps its value. -/
theorem HasCell.succ_mem {id i : Nat} {source : FormulaSource N} {p : Path (Stat N)}
    (h : n.HasCell id source p) (hi : i ∈ [id, id + 1]) (hformula : n.IsFormula i) : i + 1 ∈ [id, id + 1] := by
  obtain rfl | rfl : i = id ∨ i = id + 1 := by simpa using hi
  · simp
  · obtain ⟨_, _, hkind⟩ := hformula
    cases h.cached.symm.trans hkind

/-- A node for hosts is no node of a cell. -/
theorem HasCell.not_wrapped {id i inner : Nat} {source : FormulaSource N} {p : Path (Stat N)}
    (h : n.HasCell id source p) (hi : n.kind? i = some (.wrapped inner)) : i ∉ [id, id + 1] := by
  intro hmem
  obtain rfl | rfl : i = id ∨ i = id + 1 := by simpa using hmem
  · cases h.formula.symm.trans hi
  · cases h.cached.symm.trans hi

/-! ## Taking parts off file -/

/-- Parts were taken off file, with nodes that were let go of. -/
structure Drops (n m : Network N A σ) (gone : List Nat) : Prop where
  graph : ∀ k g, m.registry.graph? k = some g →
    ∃ g', n.registry.graph? k = some g' ∧ g.stat = g'.stat ∧ g.paths = g'.paths
  stage : ∀ k e, m.registry.stage? k = some e →
    n.registry.stage? k = some e ∧ ∀ i ∈ gone, i ≠ e.formula ∧ i ≠ e.formula + 1
  form : ∀ k f p e, m.registry.form? k f p = some e → n.registry.form? k f p = some e
    ∧ e.aggregate ∉ gone ∧ ∀ i ∈ m.registry.items e.collection, ∀ id ∈ gone, id + 1 ≠ i.1 ∧ id + 2 ≠ i.1
  items : m.registry.items = n.registry.items
  counts : m.registry.counts = n.registry.counts
  layering : m.registry.layering = n.registry.layering
  dropped : ∀ key e, n.registry.stage? ⟨key, .uncappedSubtotal, Path.main⟩ = some e →
    m.registry.stage? ⟨key, .uncappedSubtotal, Path.main⟩ = some e ∨ e.formula ∈ gone

namespace Drops

variable {gone : List Nat} (h : n.Drops m gone) (hr : n.Retires m gone)

include h in
theorem not_gone {key : DependencyKey} {id : Nat} (hid : m.Under key id) :
    id ∉ gone ∧ id + 1 ∉ gone := by
  cases key with
  | node k =>
    obtain ⟨e, he, rfl⟩ := hid
    have := (h.stage k e he).2
    exact ⟨fun hi => (this _ hi).1 rfl, fun hi => (this _ hi).2 rfl⟩
  | form k f p =>
    obtain ⟨e, he, hmem⟩ := hid
    obtain ⟨i, hi, heq⟩ := List.mem_map.mp hmem
    have := (h.form k f p e he).2.2 i hi
    exact ⟨fun hg => (this _ hg).2 heq.symm, fun hg => (this _ hg).1 heq.symm⟩
  | paths => exact hid.elim

include h hr in
/-- Letting go of nodes that are off file spares all cells. -/
theorem spares (hreg : m.registry = n.registry) (K : DependencyKey → Prop) : n.Spares K m := by
  have hunder (key : DependencyKey) (id : Nat) : m.Under key id ↔ n.Under key id := by
    cases key <;> simp only [Under, hreg]
  refine ⟨fun key id hid => .inl ⟨(hunder key id).mp hid, ?_⟩, fun key id hid _ => ?_,
    congrArg Registry.installed hreg⟩
  · exact recorded_of_view (hr.view id (h.not_gone hid).1)
  · have hid' := (hunder key id).mpr hid
    refine ⟨hid', ?_⟩
    rw [value?, value?, (hr.flags (id + 1)).resolve_right fun hgone => (h.not_gone hid').2 hgone.1]

include h in
theorem denotes {id : Nat} {φ : Formula N} {p : Path (Stat N)} (hd : m.Denotes sc id φ p) :
    n.Denotes sc id φ p := by
  cases hd with
  | stage he hs hk => exact .stage (h.stage _ _ he).1 hs hk
  | member hsc he hi => exact .member hsc (h.form _ _ _ _ he).1 (h.items ▸ hi)

include h in
theorem paths {key : StatKey} {g : Subgraph N} (hg : m.registry.graph? key = some g) :
    m.registry.paths key = n.registry.paths key := by
  obtain ⟨g', hg', -, hpaths⟩ := h.graph key g hg
  rw [Registry.paths_eq hg, Registry.paths_eq hg', h.counts, hpaths]

include hr

theorem hasCell {id : Nat} {source : FormulaSource N} {p : Path (Stat N)}
    (hcell : n.HasCell id source p) (hid : id ∉ gone) (hnext : id + 1 ∉ gone) :
    m.HasCell id source p :=
  hcell.of_kind (fun _ _ => hr.kind _) (held_of_view (hr.view _ hnext)) (hr.there _ hid)

include h

/-- What stays on file stays connected. -/
theorem wired (hn : n.Wired sc) (hpresent : ∀ k g, m.registry.graph? k = some g →
    n.isPresent (.paths g.paths) → m.isPresent (.paths g.paths))
    (hfiled : ∀ id ∉ gone, ∀ d ∈ n.recorded id, n.registry.topic? d.1 = some d.2.topic →
      m.Filed d.1 d.2.topic) : m.Wired sc where
  typed := hr.typed
  ledger := hr.ledger
  stages k e he := by
    -- what is left on file has cells that are left
    obtain ⟨he', hgone⟩ := h.stage k e he
    refine (hn.stages k e he').mono (fun _ _ hcell => hasCell hr hcell (fun hi => (hgone _ hi).1 rfl)
      fun hi => (hgone _ hi).2 rfl) (fun g hg => ?_)
      fun l s stage layers hl => ⟨layers, by rwa [h.layering], fun _ => rfl⟩
    obtain ⟨g', hg', -⟩ := Registry.stage?_eq_some_iff.mp he
    obtain ⟨g₀, hg₀, hstat, -⟩ := h.graph _ _ hg'
    obtain rfl := Option.some.inj (hg.symm.trans hg₀)
    exact ⟨g', hg', hstat⟩
  forms k f p e he := by
    obtain ⟨he', hagg, hmembers⟩ := h.form k f p e he
    have hform := hn.forms k f p e he'
    refine hform.mono (hr.kind _) (hr.topic _) ?_ (followed_of_view (hr.view _ hagg)) (by rw [h.items])
      fun i hi id _ _ hid hcell => hasCell hr hcell (fun hgone => ?_) fun hgone => ?_
    · obtain ⟨token, hfollower⟩ := hform.follower
      rw [hr.listeners, hfollower, List.filter_eq_self]
      intro attached ha
      rw [List.mem_singleton.mp ha]
      exact decide_eq_true fun i hi heq => hagg (Option.some.inj heq ▸ hi)
    · exact (hmembers i hi _ hgone).2 hid.symm
    · exact (hmembers i hi _ hgone).1 (by rw [hid])
  sets k g hg := by
    obtain ⟨g', hg', -, hpaths⟩ := h.graph k g hg
    obtain ⟨htopic, hthere⟩ := hn.sets k g' hg'
    rw [← hpaths] at htopic hthere
    exact ⟨hr.topic _ htopic, hpresent k g hg hthere⟩
  next c i hc := hn.next c i ((hr.kind c).symm.trans hc)
  made id kind hk := (hn.made id kind ((hr.kind id).symm.trans hk)).mono
    (fun id kind hkind => (hr.kind id).trans hkind)
    fun l s stage layers hl => ⟨layers, by rwa [h.layering], fun _ => rfl⟩
  traced id := by
    -- nodes that are gone hold nothing
    by_cases hid : id ∈ gone
    · exact .of_held (hr.held id hid)
    · refine (hn.traced id).of_view (hr.view id hid) fun d hd hold => ?_
      obtain htopic | ⟨k, set, hkey, hset, hnone⟩ := hold
      · exact hfiled id hid d hd htopic
      · refine .inr ⟨k, set, hkey, hset, fun k' g hg heq => ?_⟩
        obtain ⟨g', hg', -, hpaths⟩ := h.graph k' g hg
        exact hnone k' g' hg' (hpaths.symm.trans heq)
  path_held hsc k g hg id s hheld htopic := by
    obtain ⟨g', hg', -, hpaths⟩ := h.graph k g hg
    by_cases hid : id ∈ gone
    · rw [hr.held id hid] at hheld
      cases hheld
    · rw [held_of_view (hr.view id hid)] at hheld
      obtain ⟨e, he, rfl⟩ := hn.path_held hsc k g' hg' id s hheld (htopic.trans (by rw [hpaths]))
      exact ⟨e, (h.dropped k e he).resolve_right hid, rfl⟩

theorem clears : n.Clears m := by
  intro c
  refine (hr.flags c).imp_right fun ⟨hc, hf⟩ => ⟨hf, ?_⟩
  rintro id key rfl hid
  exact (h.not_gone hid).2 hc

theorem recorded {key : DependencyKey} {id : Nat} (hid : m.Under key id) :
    m.recorded id = n.recorded id :=
  recorded_of_view (hr.view id (h.not_gone hid).1)

end Drops

/-- What is listed is as it should be if neither its nodes nor its totals are let go of. -/
theorem Lists.retire {gone : List Nat} (h : n.Lists) (hr : n.Retires m gone)
    (hlisted : m.registry.listed.Sublist n.registry.listed)
    (hgone : ∀ x ∈ m.registry.listed, x.2 ∉ gone)
    (hstage : ∀ x ∈ m.registry.listed, ∀ e,
      n.registry.stage? ⟨x.1.key, .total, Path.main⟩ = some e →
      m.registry.stage? ⟨x.1.key, .total, Path.main⟩ = some e) : m.Lists :=
  h.mono hlisted hstage fun x hx _ _ => ⟨hr.kind _, held_of_view (hr.view _ (hgone x hx))⟩

/-- Letting go of what nobody listens to keeps the invariant. -/
theorem Core.retire [Number N] (hn : n.Core sc) (hidle : n.Idle) {gone : List Nat}
    (h : n.Drops m gone) (hr : n.Retires m gone)
    (hpresent : ∀ k g, m.registry.graph? k = some g →
      n.isPresent (.paths g.paths) → m.isPresent (.paths g.paths))
    (ho : m.registry.Orderly sc) (hlisted : m.Lists)
    (hsame : ∀ id φ p, m.Denotes sc id φ p → ∀ d ∈ n.recorded id,
      n.registry.topic? d.1 = some d.2.topic → SameAt n.registry m.registry d.1)
    (hfiled : ∀ id ∉ gone, ∀ d ∈ n.recorded id, n.registry.topic? d.1 = some d.2.topic →
      m.Filed d.1 d.2.topic) : m.Core sc := by
  have hm := h.wired hr hn.wired hpresent hfiled
  have hsilent (c : Nat) : c ∈ ([] : List Nat) ↔ m.Hears .listing c := by
    simp [hm.typed.not_hears_listing]
  have hcore := hn.announce hm ho hlisted (hr.released.trans hn.unreleased) (h.clears hr)
    (fun id hd hresolved _ => ?_) (fun id φ p hd _ _ => h.denotes hd) (fun id φ p hentered _ => ?_) (fun hsc key e he hflagged _ => ?_)
    (fun hsc key e he hvalued hentered _ => ?_) hsilent (by simp) m.notices
  · rwa [dim_nil_notices] at hcore
  · obtain ⟨φ, p, hd⟩ := hd
    obtain ⟨key, hkey⟩ := hd.under
    refine ⟨fun φ' p' hd' => ?_, (h.clears hr).value_of_under hkey, h.recorded hr hkey,
      fun k ⟨s, hs'⟩ => hsame id φ p hd _ hs' (hresolved _ hs')⟩
    obtain ⟨rfl, rfl⟩ := hn.wired.denotes_unique hn.orderly (h.denotes hd) hd'
    exact hd
  · rw [hidle] at hentered
    cases hentered
  · obtain ⟨g, hg, -⟩ := Registry.stage?_eq_some_iff.mp he
    rw [h.paths hg]
    exact hn.lit.main hsc key e (h.stage _ _ he).1 hflagged
  · obtain ⟨s, hs', htopic⟩ := hn.lit.tells hsc key e (h.stage _ _ he).1 hvalued hentered
    have hunder : m.Under (.node ⟨key, .uncappedSubtotal, Path.main⟩) e.formula := ⟨e, he, rfl⟩
    refine ⟨s, by rwa [h.recorded hr hunder], ?_⟩
    obtain ⟨g, hg, -⟩ := Registry.stage?_eq_some_iff.mp he
    obtain ⟨g', hg', -, hpaths⟩ := h.graph _ _ hg
    rw [← htopic, Registry.topic?, Registry.topic?, hg, hg', Option.map_some, Option.map_some, hpaths]

end StatEngine.Network
