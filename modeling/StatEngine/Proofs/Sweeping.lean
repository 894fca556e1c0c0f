import StatEngine.Network.Sweep
import StatEngine.Proofs.Removal

/-!
# Sweeps

A sweep marks what is owned, beginning at the roots, and lets go of all nodes that are not marked. What is
on file is owned, so a sweep loses nothing that matters: the invariant is kept, and nobody is told of
anything.

## Main definitions

* `Reaches`: a node is among given ones, or owned by such a node;
* `Spared`: a node is on file, so that it must not be let go of.

## Main statements

* `marks_of_mark`: everything that is owned by what is marked gets marked;
* `leads_sweep`: a sweep keeps the invariant, and changes nothing that is on file.
-/

namespace StatEngine.Network

variable {N A σ : Type}

/-! ## Marks -/

section Marks

variable (n : Network N A σ)

/-- Whatever a marked node owns is marked, or is going to be. -/
def OwnedMarked (pending : List Nat) (marked : Array Bool) : Prop :=
  ∀ i, marked[i]? = some true → ∀ j ∈ n.ownedByNode i, marked[j]? = some false → j ∈ pending

variable {n}

/-- A node that is looked at is marked, and what it owns is going to be. -/
theorem OwnedMarked.set {id : Nat} {pending : List Nat} {marked : Array Bool}
    (h : n.OwnedMarked (id :: pending) marked) :
    n.OwnedMarked (n.ownedByNode id ++ pending) (marked.set! id true) := by
  intro i hi j hj hunmarked
  have hne : j ≠ id := by
    rintro rfl
    simp [Array.getElem?_setIfInBounds] at hunmarked
  have hunmarked : marked[j]? = some false := by
    simpa [Array.getElem?_setIfInBounds, hne.symm] using hunmarked
  rw [List.mem_append]
  by_cases heq : i = id
  · exact .inl (heq ▸ hj)
  · have hi : marked[i]? = some true := by
      simpa [Array.getElem?_setIfInBounds, Ne.symm heq] using hi
    exact .inr ((List.mem_cons.mp (h i hi j hj hunmarked)).resolve_left hne)

/-- Marking a node leaves one node less to mark. -/
theorem count_set {id : Nat} {marked : Array Bool} (h : marked[id]? = some false) :
    (marked.set! id true).toList.count false + 1 = marked.toList.count false := by
  obtain ⟨hlt, hid⟩ := Array.getElem?_eq_some_iff.mp h
  have hpos : 0 < marked.toList.count false :=
    List.count_pos_iff.mpr (List.mem_iff_getElem.mpr ⟨id, by simpa using hlt, by simpa using hid⟩)
  rw [Array.set!_eq_setIfInBounds, Array.toList_setIfInBounds, List.count_set (by simpa using hlt)]
  rw [Array.getElem_toList, hid, if_pos (by rfl), if_neg (by simp)]
  omega

/-- Marking goes on until everything that is owned by marked nodes is marked, if no node owns more nodes
than the bound allows for. -/
theorem marks_of_mark {bound : Nat} (hbound : ∀ i, (n.ownedByNode i).length ≤ bound) :
    ∀ (fuel : Nat) (pending : List Nat) (marked : Array Bool),
      pending.length + marked.toList.count false * bound ≤ fuel → n.OwnedMarked pending marked →
      (n.mark fuel pending marked).size = marked.size
        ∧ n.OwnedMarked [] (n.mark fuel pending marked)
        ∧ (∀ i : Nat, marked[i]? ≠ some false → (n.mark fuel pending marked)[i]? ≠ some false)
        ∧ ∀ i ∈ pending, (n.mark fuel pending marked)[i]? ≠ some false
  | fuel, [], marked, _, h => by
    have hmark : n.mark fuel [] marked = marked := by cases fuel <;> rfl
    rw [hmark]
    exact ⟨rfl, h, fun _ hi => hi, by simp⟩
  | 0, id :: pending, marked, hfuel, _ => by simp at hfuel
  | fuel + 1, id :: pending, marked, hfuel, h => by
    rw [mark]
    rw [List.length_cons] at hfuel
    cases hid : marked[id]?.getD true with
    -- a node that is marked is passed over: what it owns is marked or pending
    | true =>
      have hmarked : marked[id]? ≠ some false := fun hfalse => by simp [hfalse] at hid
      obtain ⟨hsize, howned, hkept, hpending⟩ := marks_of_mark hbound fuel pending marked
        (by omega) fun i hi j hj hunmarked => by
          refine (List.mem_cons.mp (h i hi j hj hunmarked)).resolve_left ?_
          rintro rfl
          exact hmarked hunmarked
      refine ⟨hsize, howned, hkept, fun i hi => ?_⟩
      obtain rfl | hi := List.mem_cons.mp hi
      · exact hkept i hmarked
      · exact hpending i hi
    -- a mark pays for all that the node owns and that is pending now
    | false =>
      have hunmarked : marked[id]? = some false := by
        cases hmarked : marked[id]? <;> simp_all
      have hcount := count_set hunmarked
      obtain ⟨hsize, howned, hkept, hpending⟩ := marks_of_mark hbound fuel
        (n.ownedByNode id ++ pending) (marked.set! id true)
        (by
          have hid := hbound id
          rw [List.length_append]
          rw [← hcount, Nat.add_mul] at hfuel
          omega) h.set
      have hset (i : Nat) (hi : marked[i]? ≠ some false ∨ i = id) :
          (marked.set! id true)[i]? ≠ some false := by
        rw [Array.set!_eq_setIfInBounds, Array.getElem?_setIfInBounds]
        grind
      refine ⟨by simpa using hsize, howned, fun i hi => hkept i (hset i (.inl hi)), fun i hi => ?_⟩
      obtain rfl | hi := List.mem_cons.mp hi
      · exact hkept i (hset i (.inr rfl))
      · exact hpending i (List.mem_append_right _ hi)

/-- Nothing gets marked but what is given and what that owns. -/
theorem marked_of_mark {S : Nat → Prop} (hclosed : ∀ i, S i → ∀ j ∈ n.ownedByNode i, S j) :
    ∀ (fuel : Nat) (pending : List Nat) (marked : Array Bool), (∀ i ∈ pending, S i) →
      (∀ i : Nat, marked[i]? = some true → S i) →
      ∀ i : Nat, (n.mark fuel pending marked)[i]? = some true → S i
  | 0, _, _, _, hmarked => hmarked
  | _ + 1, [], _, _, hmarked => hmarked
  | fuel + 1, id :: pending, marked, hpending, hmarked => by
    obtain ⟨hid, hpending⟩ := List.forall_mem_cons.mp hpending
    rw [mark]
    split
    · exact marked_of_mark hclosed fuel pending marked hpending hmarked
    · refine marked_of_mark hclosed fuel _ _ (fun i hi => ?_) fun i hi => ?_
      · exact (List.mem_append.mp hi).elim (hclosed id hid i) (hpending i)
      · rw [Array.set!_eq_setIfInBounds, Array.getElem?_setIfInBounds] at hi
        split at hi
        next heq => exact heq ▸ hid
        next => exact hmarked i hi

/-- Whether a node is among given ones, or owned by such a node. -/
def Reaches (n : Network N A σ) (start : List Nat) (i : Nat) : Prop := (n.reach start)[i]? = some true

/-- No node owns more nodes than there are in all collections. -/
theorem length_ownedByNode_le (i : Nat) : (n.ownedByNode i).length
    ≤ n.collections.foldl (fun k c => k + c.items.length + c.formulas.length) 0 + 2 := by
  have hfold (l : List (Collection N A)) : ∀ k, k ≤ l.foldl
      (fun k c => k + c.items.length + c.formulas.length) k
      ∧ ∀ c ∈ l, c.items.length + c.formulas.length
        ≤ l.foldl (fun k c => k + c.items.length + c.formulas.length) k := by
    induction l with
    | nil => simp
    | cons c l ih =>
      intro k
      obtain ⟨hk, hl⟩ := ih (k + c.items.length + c.formulas.length)
      rw [List.foldl_cons]
      refine ⟨by omega, fun c' hc' => ?_⟩
      obtain rfl | hc' := List.mem_cons.mp hc'
      · omega
      · exact hl c' hc'
  rw [← Array.foldl_toList]
  have hcollection (c : Nat) : (n.ownedByCollection c).length
      ≤ n.collections.toList.foldl (fun k c => k + c.items.length + c.formulas.length) 0 := by
    rw [ownedByCollection]
    cases hc : n.collections[c]? with
    | none => simp
    | some collection =>
      have hmem : collection ∈ n.collections.toList :=
        Array.mem_toList_iff.mpr (Array.mem_of_getElem? hc)
      simpa using (hfold n.collections.toList 0).2 collection hmem
  rw [ownedByNode]
  split
  all_goals first
    | exact Nat.le_succ_of_le (Nat.le_succ_of_le (hcollection _))
    | simp

theorem reach_spec (start : List Nat) : (n.reach start).size = n.nodes.size
    ∧ n.OwnedMarked [] (n.reach start) ∧ ∀ i ∈ start, (n.reach start)[i]? ≠ some false := by
  obtain ⟨hsize, howned, -, hstart⟩ := marks_of_mark (n := n) length_ownedByNode_le
    (start.length + (n.nodes.size + 1) * (n.collections.foldl
      (fun k c => k + c.items.length + c.formulas.length) 0 + 2))
    start (Array.replicate n.nodes.size false)
    (by
      rw [Array.toList_replicate, List.count_replicate_self, Nat.add_mul]
      omega)
    fun i hi => by simp [Array.getElem?_replicate] at hi
  exact ⟨hsize.trans Array.size_replicate, howned, hstart⟩

theorem reaches_of_ne {start : List Nat} {i : Nat} (hi : i < n.nodes.size)
    (h : (n.reach start)[i]? ≠ some false) : n.Reaches start i := by
  have hlt : i < (n.reach start).size := by rwa [(reach_spec start).1]
  rw [Array.getElem?_eq_getElem hlt] at h
  rw [Reaches, Array.getElem?_eq_getElem hlt]
  cases hvalue : (n.reach start)[i] with
  | true => rfl
  | false => simp [hvalue] at h

/-- What the search begins with is reached. -/
theorem reaches_of_mem {start : List Nat} {i : Nat} (hi : i < n.nodes.size) (h : i ∈ start) :
    n.Reaches start i := reaches_of_ne hi ((reach_spec start).2.2 i h)

/-- What is owned by a node that is reached is reached. -/
theorem Reaches.owned {start : List Nat} {i j : Nat} (h : n.Reaches start i)
    (hj : j ∈ n.ownedByNode i) (hlt : j < n.nodes.size) : n.Reaches start j :=
  reaches_of_ne hlt fun hfalse => by
    simpa using (reach_spec start).2.1 i h j hj hfalse

/-- Only what is given is reached, and what that owns. -/
theorem Reaches.of_closed {start : List Nat} {i : Nat} (h : n.Reaches start i) {S : Nat → Prop}
    (hstart : ∀ i ∈ start, S i) (hclosed : ∀ i, S i → ∀ j ∈ n.ownedByNode i, S j) : S i :=
  marked_of_mark hclosed _ start _ hstart (fun i hi => by simp [Array.getElem?_replicate] at hi) i h

end Marks

/-! ## Letting go of nodes -/

/-- The network after a node was found to be owned by nothing. -/
def disownedAt (n : Network N A σ) (id : Nat) : Network N A σ :=
  { n with
    nodes := n.nodes.modify id fun node => { node with gone := true }
    layered := match n.formula? id with
      | some ⟨.layered layered, _, _, _⟩ =>
        n.layered.modify layered fun x => { x with gone := true }
      | _ => n.layered }

section Disowned

variable (n : Network N A σ) (id : Nat)

theorem disown_eq : disown id n = some (⟨⟩, n.disownedAt id) := rfl

theorem layered_disownedAt (l : Nat) :
    (n.disownedAt id).layered[l]?.map (fun x => (x.initial, x.layers, x.listeners))
      = n.layered[l]?.map fun x => (x.initial, x.layers, x.listeners) := by
  rw [disownedAt]
  dsimp only
  split
  · rw [Array.getElem?_modify]
    split
    · simp [Function.comp_def]
    · rfl
  · rfl

theorem body?_disownedAt (i : Nat) : (n.disownedAt id).body? i = n.body? i := by
  simp only [body?, disownedAt, Array.getElem?_modify]
  split
  · simp [Function.comp_def]
  · rfl

theorem view?_disownedAt (i : Nat) : (n.disownedAt id).view? i = n.view? i := by
  rw [view?, body?_disownedAt, view?]

theorem flags?_disownedAt (i : Nat) : (n.disownedAt id).flags? i = n.flags? i := by
  rw [flags?, body?_disownedAt, flags?]

theorem cached?_disownedAt (i : Nat) : (n.disownedAt id).cached? i = n.cached? i := by
  refine Option.ext fun c => ?_
  rw [cached?_eq_some_iff, cached?_eq_some_iff, body?_disownedAt]

@[simp]
theorem listeners_disownedAt (t : Topic) : (n.disownedAt id).listeners t = n.listeners t := by
  cases t with
  | changed i =>
    simp only [listeners, disownedAt, Array.getElem?_modify]
    split
    · simp [Function.comp_def]
    · rfl
  | received i => simp only [listeners, cached?_disownedAt]
  | layers l =>
    have h := congrArg (Option.map fun x => x.2.2) (n.layered_disownedAt id l)
    simp only [Option.map_map, Function.comp_def] at h
    rw [listeners, h, listeners]
  | _ => rfl

theorem registry_disownedAt : (n.disownedAt id).registry = n.registry := by
  have h : (n.disownedAt id).registry.layering = n.registry.layering := by
    funext l
    have h := congrArg (Option.map fun x => (x.1, x.2.1)) (n.layered_disownedAt id l)
    rwa [Option.map_map, Option.map_map] at h
  exact congrArg (fun layering => { n.registry with layering := layering }) h

theorem size_disownedAt : (n.disownedAt id).nodes.size = n.nodes.size := by simp [disownedAt]

theorem hasTopic_disownedAt {t : Topic} (h : n.hasTopic t) : (n.disownedAt id).hasTopic t := by
  cases t with
  | changed i => rwa [hasTopic, size_disownedAt]
  | received i => rwa [hasTopic, flags?_disownedAt]
  | layers l =>
    have hlt : l < n.layered.size := h
    change l < (n.disownedAt id).layered.size
    rw [disownedAt]
    dsimp only
    split <;> simpa using hlt
  | _ => exact h

theorem isPresent_disownedAt {i : Nat} (hi : i ≠ id) :
    (n.disownedAt id).isPresent (.changed i) = n.isPresent (.changed i) := by
  simp only [isPresent, disownedAt, Array.getElem?_modify, if_neg hi.symm]

end Disowned

variable {sc : Regime N} {n m : Network N A σ}

/-- A node that gave its subscriptions back can be found to be owned by nothing. -/
theorem Retires.disownedAt {gone : List Nat} (h : n.Retires m gone) {id : Nat} (hid : id ∈ gone) :
    n.Retires (m.disownedAt id) gone where
  typed := by
    refine ⟨fun {topic attached} ha => ?_, fun {topic attached} ha i hi => ?_⟩
    · rw [listeners_disownedAt] at ha
      exact (h.typed.fits ha).of_kind fun i => kind?_of_view (m.view?_disownedAt id i)
    · rw [listeners_disownedAt] at ha
      -- a node that holds nothing is attached to nothing
      have hne : i ≠ id := by
        rintro rfl
        have hheld := (h.ledger.balance i ⟨topic, attached.token⟩).mpr ⟨attached.listener, ha, hi⟩
        rw [h.held i hid] at hheld
        cases hheld
      rw [m.isPresent_disownedAt id hne]
      exact h.typed.present ha i hi
  ledger := h.ledger.of_eq (m.listeners_disownedAt id) (fun i => held_of_view (m.view?_disownedAt id i)) le_rfl
  kind i := (kind?_of_view (m.view?_disownedAt id i)).trans (h.kind i)
  view i hi := (m.view?_disownedAt id i).trans (h.view i hi)
  held i hi := (held_of_view (m.view?_disownedAt id i)).trans (h.held i hi)
  flags i := by
    rw [flags?_disownedAt]
    exact h.flags i
  listeners t := (m.listeners_disownedAt id t).trans (h.listeners t)
  topic t ht := m.hasTopic_disownedAt id (h.topic t ht)
  size := (m.size_disownedAt id).trans h.size
  there i hi hpresent := by
    have hne : i ≠ id := by
      rintro rfl
      exact hi hid
    rw [m.isPresent_disownedAt id hne]
    exact h.there i hi hpresent
  released := h.released
  buffer := h.buffer
  host := h.host

/-- A node is on file, or a node that is on file relies on it, or it is listed. -/
def Spared (n : Network N A σ) (id : Nat) : Prop :=
  (∃ k e, n.registry.stage? k = some e ∧ (id = e.formula ∨ id = e.formula + 1))
    ∨ (∃ k f p e, n.registry.form? k f p = some e ∧ (id = e.aggregate
      ∨ ∃ i ∈ n.registry.items e.collection, id + 1 = i.1 ∨ id + 2 = i.1))
    ∨ ∃ x ∈ n.registry.listed, id = x.2

/-- A node that is not on file can be let go of. -/
theorem Inv.disown [Number N] (hn : n.Inv sc) (hidle : n.Idle) {id : Nat} (hid : ¬ n.Spared id) :
    ((n.releasedAt id).disownedAt id).Inv sc ∧ n.Retires ((n.releasedAt id).disownedAt id) [id] := by
  have hr : n.Retires _ [id] :=
    ((Retires.refl hn.wired.typed hn.wired.ledger).releasedAt id).disownedAt List.mem_cons_self
  have hreg : ((n.releasedAt id).disownedAt id).registry = n.registry :=
    (registry_disownedAt ..).trans (registry_releasedAt ..)
  have hpresent (set : Nat) (h : n.isPresent (.paths set)) :
      ((n.releasedAt id).disownedAt id).isPresent (.paths set) :=
    (n.isPresent_releasedAt id (.paths set)).trans h
  generalize (n.releasedAt id).disownedAt id = m at *
  have hdrops : n.Drops m [id] := by
    refine ⟨fun k g hg => ⟨g, hreg ▸ hg, rfl, rfl⟩, fun k e he => ?_, fun k f p e he => ?_,
      by rw [hreg], by rw [hreg], by rw [hreg], fun key e he => .inl (hreg ▸ he)⟩
    · rw [hreg] at he
      refine ⟨he, fun i hi => ?_⟩
      obtain rfl := List.mem_singleton.mp hi
      exact ⟨fun heq => hid (.inl ⟨k, e, he, .inl heq⟩), fun heq => hid (.inl ⟨k, e, he, .inr heq⟩)⟩
    · rw [hreg] at he ⊢
      refine ⟨he, fun hmem => ?_, fun i hi j hj => ?_⟩
      · exact hid (.inr (.inl ⟨k, f, p, e, he, .inl (List.mem_singleton.mp hmem).symm⟩))
      · obtain rfl := List.mem_singleton.mp hj
        exact ⟨fun heq => hid (.inr (.inl ⟨k, f, p, e, he, .inr ⟨i, hi, .inl heq⟩⟩)),
          fun heq => hid (.inr (.inl ⟨k, f, p, e, he, .inr ⟨i, hi, .inr heq⟩⟩))⟩
  have hlisted : m.Lists := hn.listed.retire hr (hreg ▸ .refl _) (fun x hx hmem =>
    hid (.inr (.inr ⟨x, hreg ▸ hx, (List.mem_singleton.mp hmem).symm⟩))) fun _ _ _ he => hreg ▸ he
  refine ⟨⟨hn.toCore.retire hidle hdrops hr (fun k g _ => hpresent _) (hreg ▸ hn.orderly) hlisted
    (fun _ _ _ _ d _ _ => ?_) fun _ _ _ _ h => .inl (hreg ▸ h), hreg ▸ hn.counted⟩, hr⟩
  rw [hreg]
  exact .refl _ d.1

/-! ## Roots -/

theorem mem_inUse_of_graph? {key : StatKey} {g : Subgraph N} (h : n.registry.graph? key = some g) :
    g ∈ n.live.filterMap (n.graphs[·]?) := by
  obtain ⟨id, hid, hg⟩ := Registry.graph?_eq_some_iff.mp h
  exact List.mem_filterMap.mpr ⟨id, (Registry.graphId?_spec hid).1, hg⟩

/-- The nodes of a stage that is on file are roots. -/
theorem mem_roots_of_stage? {k : NodeKey} {e : NodeEntry N} (h : n.registry.stage? k = some e) :
    ∀ i ∈ [e.formula, e.cached, e.exposed], i ∈ n.roots := by
  obtain ⟨g, hg, he⟩ := Registry.stage?_eq_some_iff.mp h
  intro i hi
  refine List.mem_append_left _ (List.mem_flatMap.mpr ⟨g, mem_inUse_of_graph? hg, ?_⟩)
  exact List.mem_append_left _ (List.mem_flatMap.mpr ⟨e, List.mem_of_find?_eq_some he, hi⟩)

/-- The follower and the members of a collection that is on file are roots. -/
theorem mem_roots_of_form? {key : StatKey} {form : Form} {path : PathKey} {e : FormEntry N}
    (h : n.registry.form? key form path = some e) : ∀ i, i = e.aggregate
      ∨ i ∈ (n.registry.items e.collection).map (·.1) → i ∈ n.roots := by
  obtain ⟨g, hg, he⟩ := Registry.form?_eq_some_iff.mp h
  intro i hi
  refine List.mem_append_left _ (List.mem_flatMap.mpr ⟨g, mem_inUse_of_graph? hg, ?_⟩)
  refine List.mem_append_right _ (List.mem_flatMap.mpr ⟨e, List.mem_of_find?_eq_some he, ?_⟩)
  obtain rfl | hi := hi
  · exact List.mem_cons_self
  · refine List.mem_cons_of_mem _ ?_
    simp only [registry] at hi
    rw [ownedByCollection]
    cases hc : n.collections[e.collection]? with
    | none => simp [hc] at hi
    | some c =>
      rw [hc] at hi
      exact List.mem_append_left _ hi

/-- A node that is shown to others owns the one that keeps the value, and that one owns the formula. -/
theorem HasCell.owned {id : Nat} {source : FormulaSource N} {p : Path (Stat N)}
    (h : n.HasCell id source p) : n.ownedByNode (id + 2) = [id + 1] ∧ n.ownedByNode (id + 1) = [id] := by
  obtain ⟨shown, hshown, hkind⟩ := Option.map_eq_some_iff.mp h.exposed
  obtain ⟨kept, hkept, hkind'⟩ := Option.map_eq_some_iff.mp h.cached
  rw [ownedByNode, hshown, ownedByNode, hkept]
  constructor
  · cases shown with
    | exposed inner => rw [Kind.exposed.inj hkind]
    | _ => cases hkind
  · cases kept with
    | cached c => rw [← Kind.cached.inj hkind']
    | _ => cases hkind'

/-- What is on file or listed is reached from the roots. -/
theorem Wired.reaches_of_spared (hn : n.Wired sc) (hlisted : n.Lists) (held : List Nat) {id : Nat}
    (h : n.Spared id) : n.Reaches (n.roots ++ held) id := by
  have hroot {i : Nat} {kind : Kind N A} (hkind : n.kind? i = some kind) (hi : i ∈ n.roots) :
      n.Reaches (n.roots ++ held) i :=
    reaches_of_mem (lt_size_of_kind? hkind) (List.mem_append_left held hi)
  obtain ⟨k, e, he, hid⟩ | ⟨k, f, p, e, he, hid⟩ | ⟨x, hx, rfl⟩ := h
  · have hroots := mem_roots_of_stage? he
    have hstage := hn.stages k e he
    obtain ⟨l, g, layers, hcell, -⟩ := hstage.cell
    obtain rfl | rfl := hid
    · exact hroot hcell.formula (hroots _ (by simp))
    · exact hroot hcell.cached (hroots _ (by simp [hstage.cached]))
  · have hform := hn.forms k f p e he
    obtain rfl | ⟨i, hi, hid⟩ := hid
    · exact hroot hform.kind (mem_roots_of_form? he _ (.inl rfl))
    · obtain ⟨-, -, -, c, hc, hcell⟩ := hform.members i hi
      have hmem : c + 2 ∈ (n.registry.items e.collection).map (·.1) :=
        hc ▸ List.mem_map_of_mem hi
      have hshown := hroot hcell.exposed (mem_roots_of_form? he _ (.inr hmem))
      have hkept := hshown.owned (by rw [hcell.owned.1]; exact List.mem_singleton_self _)
        (lt_size_of_kind? hcell.cached)
      obtain heq | heq := hid
      · obtain rfl : id = c + 1 := by omega
        exact hkept
      · obtain rfl : id = c := by omega
        exact hkept.owned (by rw [hcell.owned.2]; exact List.mem_singleton_self _)
          (lt_size_of_kind? hcell.formula)
  · obtain ⟨inner, hwrapped⟩ := hlisted.wrapped hx
    exact hroot hwrapped (List.mem_append_right _ (List.mem_map_of_mem hx))

/-! ## Sweeps -/

theorem Idle.computing (h : n.Idle) : n.computing = [] := by
  refine List.filter_eq_nil_iff.mpr fun i _ => ?_
  have hi := h i
  cases hc : n.cached? i with
  | none => simp
  | some c =>
    rw [isEntered, flags?_of_cached hc] at hi
    simpa [CachedNode.flags] using hi

/-- The nodes that a sweep lets go of, if nothing is being computed: hosts hold the given nodes. -/
def unowned (n : Network N A σ) (held : List Nat) : List Nat :=
  (List.range n.nodes.size).filter fun id =>
    ((n.nodes[id]?.map (!·.gone)).getD false || n.isAttached id)
      && !(n.reach (n.roots ++ held))[id]?.getD false

/-- The network after several nodes were let go of. -/
def disownedAll (n : Network N A σ) (ids : List Nat) : Network N A σ :=
  ids.foldl (fun m id => (m.releasedAt id).disownedAt id) n

/-- A sweep lets go of what nothing owns, if nothing is being computed. -/
theorem sweep_eq (hidle : n.Idle) (held : List Nat) :
    sweep held n = some (⟨⟩, n.disownedAll (n.unowned held)) := by
  have hrunning (id : Nat) : (n.reach n.computing)[id]?.getD false = false := by
    have hmark (fuel : Nat) (marked : Array Bool) : n.mark fuel [] marked = marked := by
      cases fuel <;> rfl
    rw [hidle.computing, reach, hmark, Array.getElem?_replicate]
    split <;> rfl
  rw [sweep, get_bind_apply]
  simp only [hrunning]
  have hloop (ids : List Nat) : ∀ m : Network N A σ,
      (ids.forM fun id => do releaseSubscriptions id; disown id) m = some (⟨⟩, m.disownedAll ids) := by
    induction ids with
    | nil => exact fun _ => rfl
    | cons id ids ih =>
      intro m
      have hstep : (do releaseSubscriptions id; disown id : Run N A σ Unit) m
          = some (⟨⟩, (m.releasedAt id).disownedAt id) :=
        (bind_apply (releaseSubscriptions_eq m id)).trans (disown_eq _ id)
      rw [List.forM_eq_forM, List.forM_cons, bind_apply hstep]
      exact ih _
  exact hloop (n.unowned held) n

theorem mem_unowned {held : List Nat} {id : Nat} (h : id ∈ n.unowned held) :
    id < n.nodes.size ∧ ¬ n.Reaches (n.roots ++ held) id := by
  rw [unowned, List.mem_filter, List.mem_range, Bool.and_eq_true, Bool.not_eq_true'] at h
  refine ⟨h.1, fun hreaches => ?_⟩
  have hnot := h.2.2
  rw [hreaches] at hnot
  cases hnot

/-- What is kept when a node is let go of that nothing owns is kept by a sweep, if nothing is being
computed. -/
theorem leads_sweep_of {b : Prop} {I : Network N A σ → Prop} {held : List Nat} (hidle : n.Idle)
    (hstep : ∀ id < n.nodes.size, ¬ n.Reaches (n.roots ++ held) id → ∀ m : Network N A σ, I m →
      I ((m.releasedAt id).disownedAt id)) (h : I n) : Leads b (sweep held) n fun _ => I := by
  refine .of_eq (sweep_eq hidle held) (List.foldlRecOn _ _ h fun m hm id hid => ?_)
  obtain ⟨hlt, hnot⟩ := mem_unowned hid
  exact hstep id hlt hnot m hm

/-- Nodes that are let go of hold nothing any more. -/
theorem held_disownedAll (ids : List Nat) (i : Nat) :
    (n.disownedAll ids).held i = if i ∈ ids then [] else n.held i := by
  induction ids generalizing n with
  | nil => simp [disownedAll]
  | cons id ids ih =>
    have hstep : ((n.releasedAt id).disownedAt id).held i = if i = id then [] else n.held i := by
      rw [held_of_view (view?_disownedAt ..)]
      split
      next heq => rw [heq, held_releasedAt_self]
      next hne => exact held_of_view (n.view?_releasedAt_of_ne id hne)
    refine ih.trans ?_
    rw [hstep]
    by_cases hid : i = id <;> by_cases hids : i ∈ ids <;> simp [hid, hids]

theorem isAttached_of_held {i : Nat} (h : n.held i ≠ []) : i < n.nodes.size ∧ n.isAttached i := by
  rw [held] at h
  cases hbody : n.body? i with
  | none => simp [hbody] at h
  | some body =>
    have hkind : n.kind? i = some body.kind := by
      rw [kind?, hbody]
      rfl
    refine ⟨lt_size_of_kind? hkind, ?_⟩
    rw [hbody] at h
    rw [isAttached, hbody]
    cases body <;>
      simp_all [Body.held, Option.toList_eq_nil_iff, Option.isSome_iff_ne_none, or_iff_not_imp_left]

/-- A node that is attached to something after a sweep is owned. -/
theorem reaches_of_held {held : List Nat} (hidle : n.Idle) (h : sweep held n = some (⟨⟩, m)) {i : Nat}
    (hi : m.held i ≠ []) : n.Reaches (n.roots ++ held) i := by
  obtain rfl : n.disownedAll (n.unowned held) = m := by
    rw [sweep_eq hidle] at h
    exact congrArg Prod.snd (Option.some.inj h)
  rw [held_disownedAll, ite_ne_left_iff] at hi
  obtain ⟨hnot, hi⟩ := hi
  obtain ⟨hlt, hattached⟩ := isAttached_of_held hi.symm
  -- an attached node is let go of unless it is marked
  rw [unowned, List.mem_filter, hattached, Bool.or_true, Bool.true_and, not_and, Bool.not_eq_true',
    Bool.not_eq_false] at hnot
  exact reaches_of_ne hlt fun hfalse => by simp [hfalse, hlt] at hnot

/-- A sweep keeps the invariant, and changes nothing that is on file. -/
theorem leads_sweep [Number N] {b : Prop} (hn : n.Inv sc) (hidle : n.Idle) (held : List Nat) :
    Leads b (sweep held) n fun _ n' => n'.Inv sc ∧ (∀ tell, n.Changes tell n')
      ∧ n'.registry = n.registry := by
  have hkept : Leads b (sweep held) n fun _ m => m.Inv sc
      ∧ (∃ gone, (∀ i ∈ gone, ¬ n.Reaches (n.roots ++ held) i) ∧ n.Retires m gone)
      ∧ m.registry = n.registry := by
    refine leads_sweep_of hidle (fun id _ hid m hm => ?_)
      ⟨hn, ⟨[], nofun, .refl hn.wired.typed hn.wired.ledger⟩, rfl⟩
    obtain ⟨hinv, ⟨gone, hgone, hretires⟩, hreg⟩ := hm
    have hspared : ¬ m.Spared id := by
      rw [Spared, hreg]
      exact fun h => hid (hn.wired.reaches_of_spared hn.listed held h)
    obtain ⟨hinv', hretires'⟩ := hinv.disown (fun c => (hretires.isEntered c).trans (hidle c)) hspared
    refine ⟨hinv', ⟨_, fun i hi => ?_, hretires.trans hretires'⟩,
      ((registry_disownedAt ..).trans (registry_releasedAt ..)).trans hreg⟩
    obtain hi | hi := List.mem_append.mp hi
    · exact hgone i hi
    · exact List.mem_singleton.mp hi ▸ hid
  refine ⟨hkept.total, fun hrun => ?_⟩
  obtain ⟨hinv, ⟨gone, hgone, hretires⟩, hreg⟩ := hkept.partly hrun
  refine ⟨hinv, fun tell => hretires.changes fun i hi hformula inner hinner => ?_, hreg⟩
  -- a node that keeps the value of a formula owns the formula
  by_contra hheld
  obtain ⟨_, _, hkind⟩ := hformula
  refine hgone i hi ((reaches_of_held hidle hrun hheld).owned ?_ (lt_size_of_kind? hkind))
  obtain ⟨c, hc, rfl⟩ := kind?_eq_cached_iff.mp hinner
  rw [ownedByNode, cached?_eq_some_iff.mp hc, List.mem_singleton]
  exact Nat.succ.inj (hn.wired.next _ _ hinner)

end StatEngine.Network
