import StatEngine.Proofs.Disposal

/-!
# Modifiers that are taken back

The cell of a modifier that is taken back leaves its collection, and the follower of the collection
follows it no more. When that was announced nobody relies on the cell, so it can be disposed.

## Main statements

* `leads_removeModifierFrom`: taking a modifier back keeps the invariant.
-/

namespace StatEngine.Network

variable {N A σ : Type} {sc : Regime N} {n m : Network N A σ}

section Lists

variable {α β : Type}

/-- Erasing an entry by its name, where names are different, erases the name. -/
theorem map_eraseP_eq_erase [DecidableEq β] {f : α → β} {p : α → Bool} {l : List α} {a : α}
    (hnodup : (l.map f).Nodup) (h : l.find? p = some a) : (l.eraseP p).map f = (l.map f).erase (f a) := by
  obtain ⟨hp, as, bs, rfl, has⟩ := List.find?_eq_some_iff_append.mp h
  have hnot : f a ∉ as.map f := fun hmem => by
    rw [List.map_append, List.nodup_append] at hnodup
    exact hnodup.2.2 _ hmem _ List.mem_cons_self rfl
  rw [List.eraseP_append_right _ fun b hb => by simpa using has b hb, List.eraseP_cons_of_pos hp,
    List.map_append, List.map_append, List.erase_append_right _ hnot, List.map_cons,
    List.erase_cons_head]

end Lists

/-- The follower of a collection has a subscription for each member, and for nothing else. -/
theorem Wired.exists_followed (hn : n.Wired sc) {key : StatKey} {form : Form} {path : PathKey}
    {e : FormEntry N} (he : n.registry.form? key form path = some e) {n' : Network N A σ}
    (hs : n.SameNodes n') {i : Nat × Modifier N} (hi : i ∈ n.registry.items e.collection) :
    ∃ x s, n'.aggregate? e.aggregate = some x ∧ x.members.find? (·.1 == i.1) = some (i.1, s)
      ∧ x.members.map (·.1) = (n.registry.items e.collection).map (·.1) := by
  have hform := hn.forms _ _ _ _ he
  obtain ⟨x, hx⟩ := exists_aggregate? ((hs.kind _).trans hform.kind)
  have hfollowed : x.members.map (·.1) = (n.registry.items e.collection).map (·.1) := by
    rw [← hform.followed, ← followed_of_view (hs.view _), followed_of_aggregate hx]
  obtain ⟨⟨j, s⟩, hfind⟩ : ∃ d, x.members.find? (·.1 == i.1) = some d := by
    refine Option.isSome_iff_exists.mp (List.find?_isSome.mpr ?_)
    have hin : i.1 ∈ x.members.map (·.1) := hfollowed ▸ List.mem_map_of_mem hi
    obtain ⟨d, hd, heq⟩ := List.mem_map.mp hin
    exact ⟨d, hd, by simp [heq]⟩
  obtain rfl : j = i.1 := by simpa using List.find?_some hfind
  exact ⟨x, s, hx, hfind, hfollowed⟩

/-- The follower of a collection stops following a cell that left the collection. -/
theorem Wired.refollows_removed (hn : n.Wired sc) {key : StatKey} {form : Form} {path : PathKey}
    {e : FormEntry N} (he : n.registry.form? key form path = some e)
    {n' : Network N A σ} (hs : n.SameNodes n') {items : List (Nat × Modifier N)}
    (hr : n'.registry = n.registry.withItems e.collection items) {member : Nat}
    (hitems : items.map (·.1) = ((n.registry.items e.collection).map (·.1)).erase member)
    {x : AggregateNode} (hx : n'.aggregate? e.aggregate = some x) {s : Subscription}
    (hfind : x.members.find? (·.1 == member) = some (member, s))
    (hnodup : (x.members.map (·.1)).Nodup)
    (hm : m = (n'.unsubscribe s).withFollowed e.aggregate (·.eraseP (·.1 == member))) :
    n.Refollows m e items := by
  subst hm
  have hform := hn.forms _ _ _ _ he
  have hledger := hs.ledger hn.ledger
  have hheld := held_of_aggregate hx
  have hmem : (member, s) ∈ x.members := List.mem_of_find?_eq_some hfind
  have hsub : s ∈ n'.held e.aggregate := by
    rw [hheld]
    exact List.mem_append_right _ (List.mem_map_of_mem hmem)
  have hfollowed : x.members = n.followed e.aggregate := by
    rw [← followed_of_view (hs.view _), followed_of_aggregate hx]
  obtain ⟨id, -, htopic⟩ := hform.followed_topic (member, s) (hfollowed ▸ hmem)
  -- what is given back was a subscription to a cell, not to a collection
  have hdiffer := hledger.listenersDiffer_unsubscribe hsub fun c heq => by cases htopic.symm.trans heq
  refine hn.refollows he hs hr hdiffer hx ?_ ?_ ?_ fun d hd => ?_
  · refine (hs.typed hn.typed).of_listeners (fun i kind hi => ?_) (fun t attached ha => .inl ?_)
      fun i hi => ?_
    · rw [kind?_withFollowed]
      exact (n'.kind?_unsubscribeAll i [s]).trans hi
    · rw [listeners_withFollowed, listeners_unsubscribe] at ha
      exact List.mem_of_mem_filter ha
    · rw [isPresent_withFollowed]
      exact (n'.isPresent_unsubscribeAll [s] _).trans hi
  · -- the aggregate holds one subscription less, and the cell has one listener less
    refine hledger.detach (fun d hd => by rw [List.mem_singleton.mp hd]; exact hsub) (fun t => ?_) ?_
      (fun i hi => held_of_view ((view?_withFollowed_of_ne _ hi).trans (hdiffer.view i))) ?_
    · rw [listeners_withFollowed]
      exact n'.listeners_unsubscribeAll [s] t
    · have hheld_nodup := hledger.held_nodup e.aggregate
      rw [hheld] at hheld_nodup ⊢
      have hnot : s ∉ x.subscription.toList := fun h =>
        (List.nodup_append.mp hheld_nodup).2.2 s h s (List.mem_map_of_mem hmem) rfl
      have hfilter : (fun d : Subscription => decide (d ∉ [s])) = (· != s) := by
        funext d
        simp [bne, beq_eq_decide]
      rw [held_of_aggregate (aggregate?_withFollowed _ ((n'.aggregate?_unsubscribe s _).trans hx)),
        hfilter, ← hheld_nodup.erase_eq_filter, List.erase_append_right _ hnot,
        map_eraseP_eq_erase (f := Prod.snd) (List.nodup_append.mp hheld_nodup).2.1 hfind]
    · exact nextToken_unsubscribeAll n' [s]
  · rw [hitems, ← hform.followed, ← hfollowed]
    exact map_eraseP_eq_erase (f := Prod.fst) hnodup hfind
  · exact hform.followed_topic d (hfollowed ▸ List.mem_of_mem_eraseP hd)

/-! ## Cells that are off file -/

section Disposed

variable [Number N] {host : Host N A σ}

/-- Nothing but the books of collections changes. -/
theorem Inv.of_sameNodes (hn : n.Inv sc) (hs : n.SameNodes m) (hr : m.registry = n.registry) :
    m.Inv sc := by
  have hgrows : n.Grows sc m := by
    refine .of_files (.refl hn.wired.typed hn.wired.ledger) hs (hr ▸ hn.orderly) hs.made (hr ▸ .refl _)
      (fun k g hg => .inl ⟨g, hr ▸ hg, rfl⟩) (fun k e he => .inl (hr ▸ he))
      (fun k f p e he => .inl (hr ▸ he)) (.inl (by rw [hr]))
      fun k f p e he => (hn.wired.forms k f p e he).topic
  exact ⟨hgrows.core hn.toCore, hr ▸ hn.counted⟩

/-- The cell of a modifier that is on file nowhere can be let go of. -/
theorem leads_disposeMember (tell : A → σ → σ) (hn : n.Inv sc) (hidle : n.Idle) {id : Nat} {φ : Formula N}
    {p : Path (Stat N)} (hcell : n.HasCell id (.plain φ) p)
    (hoff : ∀ k f p e, n.registry.form? k f p = some e →
      ∀ i ∈ n.registry.items e.collection, i.1 ≠ id + 2) :
    Leads True (dispose host (id + 2)) n fun _ n' => n'.Inv sc ∧ n.Changes tell n'
      ∧ n'.registry = n.registry ∧ ∀ K, n.Spares K n' := by
  have hdispose := dispose_cell host hcell
  have hr := retires_disposedCell hn.wired.typed hn.wired.ledger id
  have hpresent := n.isPresent_disposedCell id
  have hreg := n.registry_disposedCell id
  generalize n.disposedCell id = m at hdispose hr hpresent hreg
  have hdrops : n.Drops m [id, id + 1] := by
    refine ⟨fun k g hg => ⟨g, hreg ▸ hg, rfl, rfl⟩, fun k e he => ?_, fun k f p e he => ?_,
      by rw [hreg], by rw [hreg], by rw [hreg], fun key e he => .inl (hreg ▸ he)⟩
    · rw [hreg] at he
      refine ⟨he, fun i hi => ?_⟩
      obtain ⟨-, -, l, g, layers, hstage, -⟩ := hn.wired.stages k e he
      refine (hcell.apart hstage (fun heq => ?_) hi).1
      have hkind := hcell.formula
      rw [heq, hstage.formula] at hkind
      cases hkind
    · rw [hreg] at he ⊢
      have hform := hn.wired.forms k f p e he
      refine ⟨he, hcell.not_aggregate hform.kind, fun i hi j hj => ?_⟩
      obtain ⟨-, -, -, id', hid', hcell'⟩ := hform.members i hi
      rw [hid']
      exact (hcell.apart hcell' (fun heq => hoff k f p e he i hi (heq ▸ hid')) hj).2
  have hlisted : m.Lists := hn.listed.retire hr (hreg ▸ .refl _) (fun x hx => by
    obtain ⟨inner, hwrapped⟩ := hn.listed.wrapped (hreg ▸ hx)
    exact hcell.not_wrapped hwrapped) fun _ _ _ he => hreg ▸ he
  refine .of_eq hdispose ⟨⟨hn.toCore.retire hidle hdrops hr
    (fun k g _ hg => (hpresent _).trans hg) (hreg ▸ hn.orderly) hlisted (fun id φ p _ d _ _ => ?_)
    fun id _ d _ h => .inl (hreg ▸ h), hreg ▸ hn.counted⟩, hr.changes fun i hi hformula _ _ => ?_, hreg,
    fun K => ?_⟩
  · rw [hreg]
    exact .refl _ _
  · exact hr.held _ (hcell.succ_mem hi hformula)
  · exact hdrops.spares hr hreg K

end Disposed

/-! ## Modifiers that are taken back -/

end StatEngine.Network

namespace StatEngine.Registry

variable {N : Type}

/-- The oldest registration of a modifier for a stat is taken back, if there is one, and nodes of stages
stay on file. -/
structure Loses (r r' : Registry N) (modifier : Modifier N) (stat : Stat N) : Prop where
  members : ∀ k f p, r'.members k f p = if k = stat.key ∧ f = modifier.form ∧ p = modifier.path.key
    then (r.members k f p).eraseP (·.2.same modifier) else r.members k f p
  paths : ∀ k, r'.paths k = r.paths k
  stages : ∀ k e, r.stage? k = some e → r'.stage? k = some e

/-- Nothing is taken back if there is nothing to take back. -/
theorem Loses.of_forall {r : Registry N} {modifier : Modifier N} {stat : Stat N}
    (h : ∀ i ∈ r.members stat.key modifier.form modifier.path.key,
      i.2.same modifier = false) : r.Loses r modifier stat := by
  refine ⟨fun k f p => ?_, fun _ => rfl, fun _ _ h => h⟩
  split
  next heq =>
    obtain ⟨rfl, rfl, rfl⟩ := heq
    exact (List.eraseP_of_forall_not fun m hm => by simp [h m hm]).symm
  · rfl

end StatEngine.Registry

namespace StatEngine.Network

variable {N A σ : Type} [Number N] {sc : Regime N} {n : Network N A σ} {host : Host N A σ}
  {tell : A → σ → σ} (hhost : host.Quiet tell)

include hhost

/-- What taking back a registration of a modifier for a stat comes to. Nothing happens if there is none. -/
structure Removes (tell : A → σ → σ) (n n' : Network N A σ) (modifier : Modifier N) (stat : Stat N)
    (removed : Bool) : Prop where
  changes : n.Changes tell n'
  loses : n.registry.Loses n'.registry modifier stat
  unchanged : removed = false → n' = n
  removed_iff : removed = true
    ↔ ∃ i ∈ n.registry.members stat.key modifier.form modifier.path.key, i.2.same modifier
  /-- Who does not depend on the collection is spared. -/
  spares : ∀ K, n.Confines K → K (.form stat.key modifier.form modifier.path.key) → n.Spares K n'

/-- Taking a node out of a collection keeps the invariant. -/
theorem leads_removeMember (hn : n.Inv sc) (hidle : n.Idle) {key : StatKey} {form : Form}
    {path : PathKey} {e : FormEntry N} (he : n.registry.form? key form path = some e)
    (modifier : Modifier N) :
    Leads True (removeMember host e.collection modifier) n fun node n' => n'.Inv sc
      ∧ n.Changes tell n'
      ∧ (node = none → n' = n ∧ ∀ i ∈ n.registry.items e.collection, i.2.same modifier = false)
      ∧ (∀ K, n.Confines K → K (.form key form path) → n.Spares K n')
      ∧ ∀ i, node = some i → n'.registry = n.registry.withItems e.collection
          ((n.registry.items e.collection).eraseP (·.2.same modifier))
        ∧ (∃ item ∈ n.registry.items e.collection, item.2.same modifier)
        ∧ (∃ id φ p, i = id + 2 ∧ n'.HasCell id (.plain φ) p)
        ∧ ∀ k f p e', n'.registry.form? k f p = some e' →
          ∀ j ∈ n'.registry.items e'.collection, j.1 ≠ i := by
  have hform := hn.wired.forms _ _ _ _ he
  refine .get_bind ?_
  have hitems : (n.collections[e.collection]?.bind fun c => c.items.find? (·.2.same modifier))
      = (n.registry.items e.collection).find? (·.2.same modifier) := by
    simp only [registry]
    cases n.collections[e.collection]? <;> rfl
  rw [hitems]
  cases hfound : (n.registry.items e.collection).find? (·.2.same modifier) with
  | none =>
    refine .of_pure ⟨hn, .refl n, fun _ => ⟨rfl, fun i hi => ?_⟩, fun K _ _ => .refl K n,
      fun i hi => by cases hi⟩
    simpa using List.find?_eq_none.mp hfound i hi
  | some item =>
    obtain ⟨member, found⟩ := item
    have hmem := List.mem_of_find?_eq_some hfound
    have hsame : found.same modifier := by simpa using List.find?_some hfound
    have hnodup := hn.orderly.members_nodup e.collection
    set items := (n.registry.items e.collection).eraseP (·.2.same modifier)
    have hnames : items.map (·.1) = ((n.registry.items e.collection).map (·.1)).erase member :=
      map_eraseP_eq_erase hnodup hfound
    have hnot : member ∉ items.map (·.1) := by
      rw [hnames]
      exact hnodup.not_mem_erase
    have hsub {i : Nat × Modifier N} (hi : i ∈ items) : i ∈ n.registry.items e.collection :=
      List.mem_of_mem_eraseP hi
    obtain ⟨-, -, -, id, rfl, hcell⟩ := hform.members _ hmem
    dsimp only
    refine .modify_bind ?_
    set n' := n.modifyCollection e.collection fun c =>
      { c with items := c.items.eraseP (·.2.same modifier) }
    change Leads True _ n' _
    have hs : n.SameNodes n' := n.sameNodes_modifyCollection _ fun _ => rfl
    have hr : n'.registry = n.registry.withItems e.collection items :=
      registry_modifyCollection (g := (·.eraseP (·.2.same modifier))) hform.topic fun _ => rfl
    obtain ⟨x, s, hx, hfind, hfollowed⟩ := hn.wired.exists_followed he hs hmem
    have hrefollows := hn.wired.refollows_removed he hs hr hnames hx hfind (hfollowed ▸ hnodup) rfl
    have hunfollow := unfollowMember_eq hx hfind
    obtain ⟨token, hfollower⟩ := hform.follower
    obtain ⟨fuel, hfuel, hemit⟩ := emit_members host (hs.typed hn.wired.typed)
      ((hs.listeners _).trans hfollower)
      (.removed (id + 2))
    have hsize : ((n'.unsubscribe s).withFollowed e.aggregate (·.eraseP (·.1 == id + 2))).nodes.size
        = n'.nodes.size := (size_withFollowed ..).trans (n'.size_unsubscribeAll [s])
    generalize (n'.unsubscribe s).withFollowed e.aggregate (·.eraseP (·.1 == id + 2)) = m
      at hrefollows hunfollow hsize
    -- whoever read the aggregate is told that it follows one cell less
    have hraise := leads_refollow hn hrefollows he
      (fun i hi => or_iff_not_imp_right.mpr fun h => ?_) hhost hidle (fun i hi => .inl (hsub hi))
      (hnames ▸ hnodup.erase _)
      (fun k f p e' he' i hi i' hi' heq =>
        hn.orderly.members_disjoint _ _ _ _ _ _ _ _ he' he i' hi' i (hsub hi) heq.symm)
      (fun i hi => .inl (hsub hi)) (hsize ▸ hfuel)
    · refine ((Leads.eq_bind hunfollow hraise).congr hemit).bind ?_
      rintro - n₂ ⟨hinv, hchanges, ⟨ids, left, hn₂⟩, hspares⟩
      have hr₂ : n₂.registry = n.registry.withItems e.collection items := by
        rw [hn₂, registry_dim, hrefollows.registry]
      refine .of_pure ⟨hinv, hchanges, by simp, hspares, fun i hi => ?_⟩
      obtain rfl := Option.some.inj hi
      refine ⟨hr₂, ⟨_, hmem, hsame⟩, ⟨id, found.formula, found.path, rfl, ?_⟩, fun k f p e' he' => ?_⟩
      · rw [hn₂]
        exact (hrefollows.hasCell hn.wired he hcell).of_kind (fun _ _ => m.kind?_dim ..)
          (held_relight ..) fun hid => (isPresent_dim ..).trans hid
      · rw [hr₂] at he' ⊢
        exact hn.orderly.off_withItems he hmem hnot he'
    · -- no two members have the same cell
      obtain ⟨j, hj, heq⟩ := List.mem_map.mp (not_not.mp h)
      rwa [← List.inj_on_of_nodup_map hnodup (hsub hj) hi heq]

/-- Taking a modifier back for a stat keeps the invariant. -/
theorem leads_removeModifierFrom (hn : n.Inv sc) (hidle : n.Idle) (modifier : Modifier N)
    (stat : Stat N) : Leads True (removeModifierFrom host modifier stat) n fun removed n' => n'.Inv sc
      ∧ n.Removes tell n' modifier stat removed := by
  have unchanged (h : ∀ i ∈ n.registry.members stat.key modifier.form modifier.path.key,
      i.2.same modifier = false) : n.Removes tell n modifier stat false :=
    ⟨.refl n, .of_forall h, fun _ => rfl, by simpa using h, fun K _ _ => .refl K n⟩
  refine .get_bind ?_
  rw [n.graph?_eq]
  cases hid : n.registry.graphId? stat.key with
  | none =>
    refine .of_pure ⟨hn, unchanged ?_⟩
    rw [Registry.members, Registry.form?, Registry.graph?, hid]
    simp
  | some graph =>
    obtain ⟨g, hg⟩ := Registry.exists_graph hid
    have hfind : n.registry.form? stat.key modifier.form modifier.path.key
        = g.collectionAt? modifier.form modifier.path := by
      rw [Registry.form?, hg]
      rfl
    refine .get_bind ?_
    rw [graphs_of_graph? hid hg, Option.bind_some]
    cases hfound : g.collectionAt? modifier.form modifier.path with
    | none =>
      refine .of_pure ⟨hn, unchanged ?_⟩
      rw [Registry.members, hfind, hfound]
      simp
    | some e =>
      have he := hfind.trans hfound
      refine (leads_removeMember hhost hn hidle he modifier).bind ?_
      rintro node n₁ ⟨hinv₁, hchanges₁, hnone, hspares₁, hsome⟩
      -- nothing happens if no modifier is the same
      cases node with
      | none =>
        obtain ⟨rfl, hall⟩ := hnone rfl
        refine .of_pure ⟨hn, unchanged ?_⟩
        rw [Registry.members, he]
        exact hall
      | some i =>
        obtain ⟨hr₁, hsame, ⟨id, φ, p, rfl, hcell⟩, hoff⟩ := hsome i rfl
        dsimp only
        refine .modify_bind ?_
        set n₂ := n₁.modifyCollection e.collection fun c =>
          { c with formulas := c.formulas.eraseP (·.1.same modifier) }
        change Leads True _ n₂ _
        have hs₂ : n₁.SameNodes n₂ := n₁.sameNodes_modifyCollection _ fun _ => rfl
        have hr₂ : n₂.registry = n₁.registry := registry_modifyCollection_of_items _ _ fun _ => rfl
        have hchanges₂ := hchanges₁.trans hs₂.changes
        -- the cell is in no collection any more, so nobody relies on it
        refine (leads_disposeMember tell (hinv₁.of_sameNodes hs₂ hr₂) (hchanges₂.idle hidle)
          (hs₂.hasCell hcell) (by rwa [hr₂])).bind ?_
        rintro - n₃ ⟨hinv₃, hchanges₃, hr₃, hspares₃⟩
        have hid₃ : n₃.registry.graphId? stat.key = some graph := by
          rw [hr₃, hr₂, hr₁]
          exact hid
        -- last, the modifier is counted no more
        refine (leads_recount tell hinv₃ hid₃ (· - 1)).bind ?_
        rintro - n₄ ⟨hinv₄, hchanges₄, hakin, hspares₄⟩
        rw [hr₃, hr₂, hr₁] at hakin
        refine .of_pure ⟨hinv₄, ⟨(hchanges₂.trans hchanges₃).trans hchanges₄,
          ⟨fun k f p => ?_, hakin.paths, hakin.stages⟩, by simp, ⟨fun _ => ?_, fun _ => rfl⟩,
          fun K hK hkey => ?_⟩⟩
        · rw [hakin.members, Registry.members_withItems hn.orderly he]
          split
          next heq =>
            obtain ⟨rfl, rfl, rfl⟩ := heq
            rw [Registry.members, he]
            rfl
          · rfl
        · rw [Registry.members, he]
          exact hsame
        · have hspares₂ : n₁.Spares K n₂ := .of_sameNodes hs₂ (fun _ => by rw [hr₂])
            (fun _ _ _ => by rw [hr₂]) (by rw [hr₂]) rfl
          exact (((hspares₁ K hK hkey).trans hspares₂).trans (hspares₃ K)).trans (hspares₄ K)

end StatEngine.Network
