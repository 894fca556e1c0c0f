import StatEngine.Proofs.Runs

/-!
# Reading whatever there is

Where no stat is followed, formulas may look up whatever they like, behaviors may change them, and hosts
may read any node that is there. A network is in order then if the invariant holds and the books agree
(`Sane`). Reading adds parts to it, moves subscriptions and keeps values, and so it stays in order; what
is on file stays on file, and no modifier comes or goes (`Advances`).

## Main definitions

* `Regime.free`: no stat is followed, and everything may turn up;
* `Host.Aloof`: a host that leaves the network alone;
* `Readable`: a node that is there with all that is inside it.

## Main statements

* `Gains.topic?`: what is on file for a dependency stays on file while parts are made;
* `Sane.valueOf`: reading a node keeps a network in order.
-/

namespace StatEngine

open Network

variable {N A σ : Type}

/-- A network that may be used for anything. No stat is followed. -/
def Regime.free : Regime N where
  stats := []
  Admits _ := True
  Bare _ := False
  HasPath _ := True
  HasFormula _ := True
  admits := by simp
  bare := by simp
  same := by simp
  minimum := by simp
  maximum := by simp
  plain := by simp
  unaffected := by simp
  main := trivial
  unconverted := by simp
  reads := by simp

theorem Regime.not_follows_free : ¬ (Regime.free : Regime N).Follows := by
  simp [Follows, free]

/-- A query for stats and paths that a regime admits. -/
def Query.Admitted (sc : Regime N) : Query N → Prop
  | .paths stat => sc.Admits stat
  | .value stat stage path => sc.Admits stat ∧ sc.HasPath (stagePath stage path)
  | .values _ places => ∀ place ∈ places, sc.Admits place.1 ∧ sc.HasPath place.2
  | .derived _ | .note _ => True

/-- A reply that names paths that a regime admits. -/
def Query.Names (sc : Regime N) : (query : Query N) → query.Reply → Prop
  | .paths _, reply => ∀ p, List.Mem p reply → sc.HasPath p
  | _, _ => True

namespace Network

variable {n n' n'' : Network N A σ}

/-! ## What stays on file -/

namespace Gains

variable {sc : Regime N} (h : n.Gains n') (ho : n'.registry.Orderly sc)
include h

/-- The members of collections stay where they are. -/
theorem registry_items : n'.registry.items = n.registry.items := h.items

theorem memberNodes (c : Nat) : n'.memberNodes c = n.memberNodes c := by
  rw [memberNodes_eq, memberNodes_eq, h.registry_items]

include ho

/-- The subgraph of a stat stays on file, and keeps what it has. -/
theorem graph? {k : StatKey} {g : Subgraph N} (hg : n.registry.graph? k = some g) :
    ∃ g', n'.registry.graph? k = some g' ∧ g.Gains g' := by
  obtain ⟨id, hid, hgid⟩ := Registry.graph?_eq_some_iff.mp hg
  obtain ⟨g', hg', hgains⟩ := h.graph id g hgid
  have hlive : id ∈ n'.registry.live := h.live id (Registry.graphId?_spec hid).1
  -- the subgraph is in use, and so it is found for its stat
  obtain ⟨found, hfound, hkey⟩ := ho.live_found id hlive
  obtain rfl : found = g' := Option.some.inj (hfound.symm.trans hg')
  rw [hgains.stat, Registry.stat_key hg] at hkey
  exact ⟨found, Registry.graph?_eq_some_iff.mpr ⟨id, hkey, hfound⟩, hgains⟩

/-- The nodes of a stage stay on file. -/
theorem stage? {k : NodeKey} {e : NodeEntry N} (he : n.registry.stage? k = some e) :
    n'.registry.stage? k = some e := by
  obtain ⟨g, hg, hfind⟩ := Registry.stage?_eq_some_iff.mp he
  obtain ⟨g', hg', hgains⟩ := h.graph? ho hg
  have hfound := ho.nodes_found k.stat g' hg' e (hgains.nodes e (List.mem_of_find?_eq_some hfind))
  obtain ⟨hstage, hpath⟩ := Registry.stage?_spec he
  rwa [hstage, hpath] at hfound

/-- The collection of a form stays on file. -/
theorem form? {k : StatKey} {f : Form} {p : PathKey} {e : FormEntry N}
    (he : n.registry.form? k f p = some e) : n'.registry.form? k f p = some e := by
  obtain ⟨g, hg, hfind⟩ := Registry.form?_eq_some_iff.mp he
  obtain ⟨g', hg', hgains⟩ := h.graph? ho hg
  have hfound := ho.forms_found k g' hg' e (hgains.forms e (List.mem_of_find?_eq_some hfind))
  obtain ⟨hform, hpath⟩ := Registry.form?_spec he
  rwa [hform, hpath] at hfound

/-- Where changes of a dependency are announced stays the same. -/
theorem topic? {key : DependencyKey} {topic : Topic} (ht : n.registry.topic? key = some topic) :
    n'.registry.topic? key = some topic := by
  cases key with
  | node k =>
    obtain ⟨e, he, rfl⟩ := Option.map_eq_some_iff.mp ht
    exact Option.map_eq_some_iff.mpr ⟨e, h.stage? ho he, rfl⟩
  | form key form path =>
    obtain ⟨e, he, rfl⟩ := Option.map_eq_some_iff.mp ht
    exact Option.map_eq_some_iff.mpr ⟨e, h.form? ho he, rfl⟩
  | paths key =>
    obtain ⟨g, hg, rfl⟩ := Option.map_eq_some_iff.mp ht
    obtain ⟨g', hg', hgains⟩ := h.graph? ho hg
    exact Option.map_eq_some_iff.mpr ⟨g', hg', congrArg Topic.paths hgains.paths⟩

/-- The members on file stay the same. -/
theorem members (hn : n.registry.Orderly sc) (k : StatKey) (f : Form) (p : PathKey) :
    n'.registry.members k f p = n.registry.members k f p := by
  rw [Registry.members, Registry.members, h.registry_items]
  cases he : n.registry.form? k f p with
  | some e => rw [h.form? ho he]
  | none =>
    cases he' : n'.registry.form? k f p with
    | none => rfl
    | some e =>
      -- a collection that is new on file has no members
      obtain ⟨g', hg', hfind⟩ := Registry.form?_eq_some_iff.mp he'
      obtain ⟨id, hid, hgid⟩ := Registry.graph?_eq_some_iff.mp hg'
      have hlive := (Registry.graphId?_spec hid).1
      obtain ⟨hlive, g, hg, hmem⟩ | hempty := h.new id hlive g' hgid e (List.mem_of_find?_eq_some hfind)
      · obtain ⟨g'', hg'', hgains⟩ := h.graph id g hg
        obtain rfl : g'' = g' := Option.some.inj (hg''.symm.trans hgid)
        obtain ⟨found, hfound, hkey⟩ := hn.live_found id hlive
        obtain rfl : found = g := Option.some.inj (hfound.symm.trans hg)
        rw [← hgains.stat, Registry.stat_key hg'] at hkey
        have hform := hn.forms_found k found
          (Registry.graph?_eq_some_iff.mpr ⟨id, hkey, hfound⟩) e hmem
        obtain ⟨hf, hp⟩ := Registry.form?_spec he'
        rw [hf, hp, he] at hform
        cases hform
      · exact hempty

end Gains

/-! ## Hosts -/

/-- A host that leaves the network alone, whatever it is told or asked. -/
structure Host.Aloof (host : Host N A σ) (tell : A → σ → σ) : Prop extends host.Quiet tell where
  supply : ∀ action n, Leads False (host.supply action) n
    fun _ n' => ∃ state, n' = n.withBuffer n.buffer state
  disposed : ∀ action n, Leads False (host.disposed action) n
    fun _ n' => ∃ state, n' = n.withBuffer n.buffer state
  note : ∀ text n, Leads False (host.note text) n
    fun _ n' => ∃ state, n' = n.withBuffer n.buffer state

theorem Host.aloof_idle : (Host.idle : Host N A σ).Aloof fun _ state => state where
  toQuiet := Host.quiet_idle
  supply _ n := .of_pure ⟨n.host, rfl⟩
  disposed _ n := .of_pure ⟨n.host, rfl⟩
  note _ n := .of_pure ⟨n.host, rfl⟩

theorem sameBooks_withBuffer (n : Network N A σ) (buffer : Buffer) (state : σ) :
    n.SameBooks (n.withBuffer buffer state) :=
  .of_tables rfl rfl rfl rfl rfl rfl rfl (fun _ _ h => h) fun _ h => h

theorem proceeds_withBuffer (n : Network N A σ) (state : σ) :
    n.Proceeds (n.withBuffer n.buffer state) where
  toWaits := .of_buffer rfl
  kind _ _ h := h
  entered _ := rfl
  callbacks _ := rfl

/-- A host that leaves the network alone writes nothing. -/
theorem Host.Aloof.harmless {host : Host N A σ} {tell : A → σ → σ} (h : host.Aloof tell) :
    host.Harmless := by
  have hquiet {α : Type} {run : Run N A σ α} (hrun : ∀ n, Leads False run n
      fun _ n' => ∃ state, n' = n.withBuffer n.buffer state) : Quietly run := by
    refine fun n => (hrun n).weaken ?_
    rintro - n' ⟨state, rfl⟩
    exact n.sameBooks_withBuffer n.buffer state
  refine ⟨fun action signal n => ?_, fun action => hquiet (h.supply action),
    fun action => hquiet (h.disposed action), fun text => hquiet (h.note text)⟩
  exact .of_eq (h.notified action signal n) (n.sameBooks_withBuffer n.buffer _)

/-! ## Networks in order -/

section Order

variable [Number N]

/-- Where no stat is followed, the invariant is about what is connected, on file, and kept. -/
theorem Inv.of_unfollowed {sc : Regime N} (hn : n.Inv sc) (hsc : ¬ sc.Follows) (hwired : n'.Wired sc)
    (hregistry : n'.registry = n.registry)
    (hlisted : n'.Lists) (hreleased : n'.released = n.released) (hshown : ∀ c, n'.value? c ≠ none → n'.isObserved c)
    (hentered : ∀ c flags, n'.flags? c = some flags → flags.entered → flags.value = none) :
    n'.Inv sc where
  wired := hwired
  orderly := hregistry ▸ hn.orderly
  listed := hlisted
  lit :=
    { shown := hshown
      entered := fun c flags hflags hc => ⟨hentered c flags hflags hc, fun h => absurd h hsc⟩
      main := fun h => absurd h hsc
      tells := fun h => absurd h hsc }
  sound _ _ _ _ hd := absurd hd.follows hsc
  blocked _ _ _ hd := absurd hd.follows hsc
  unreleased := hreleased.trans hn.unreleased
  counted := hregistry ▸ hn.counted

/-- A network that is in order, whatever it is used for within a regime that follows no stat. -/
structure Sane (sc : Regime N) (n : Network N A σ) : Prop where
  unfollowed : ¬ sc.Follows
  inv : n.Inv sc
  books : n.Bookkept

/-- A network stays in order, goes on, and gains parts. -/
structure Advances (sc : Regime N) (n n' : Network N A σ) : Prop where
  sane : n'.Sane sc
  proceeds : n.Proceeds n'
  gains : n.Gains n'

variable {sc : Regime N}

namespace Advances

theorem refl (hn : n.Sane sc) : n.Advances sc n := ⟨hn, .refl n, .refl n⟩

theorem trans (h : n.Advances sc n') (h' : n'.Advances sc n'') : n.Advances sc n'' :=
  ⟨h'.sane, h.proceeds.trans h'.proceeds, h.gains.trans h'.gains⟩

theorem topic? (h : n.Advances sc n') {key : DependencyKey} {topic : Topic}
    (ht : n.registry.topic? key = some topic) : n'.registry.topic? key = some topic :=
  h.gains.topic? h.sane.inv.orderly ht

end Advances

/-- What a host does while it leaves the network alone keeps it in order. -/
theorem Sane.withBuffer (hn : n.Sane sc) (state : σ) : n.Advances sc (n.withBuffer n.buffer state) where
  sane := ⟨hn.unfollowed, hn.inv.withBuffer _ state,
    hn.books.of_sameBooks (n.sameBooks_withBuffer _ state)⟩
  proceeds := n.proceeds_withBuffer state
  gains := .of_sameBooks (n.sameBooks_withBuffer _ state)

/-- The network with another catalog of meta stats. -/
def withCatalog (n : Network N A σ) (catalog : Option (Catalog N)) : Network N A σ :=
  { n with catalog }

/-- Meta stats have nothing to do with what is there. -/
theorem Sane.withCatalog (hn : n.Sane sc) (catalog : Option (Catalog N)) :
    n.Advances sc (n.withCatalog catalog) where
  sane := by
    have hsame : n.SameBooks (n.withCatalog catalog) :=
      .of_tables rfl rfl rfl rfl rfl rfl rfl (fun _ _ h => h) fun _ h => h
    refine ⟨hn.unfollowed, hn.inv.of_unfollowed hn.unfollowed ?_ rfl
      (hn.inv.listed.mono (.refl _) (fun _ _ _ h => h) fun _ _ _ _ => ⟨rfl, rfl⟩) rfl
      hn.inv.lit.shown fun c flags hflags hc => (hn.inv.lit.entered c flags hflags hc).1,
      hn.books.of_sameBooks hsame⟩
    refine hn.inv.wired.congr (fun _ => rfl) (fun _ => rfl) (fun _ => rfl) (fun _ => rfl) (fun _ => rfl)
      (fun _ h => h) (fun _ h => h) (fun _ h => h) rfl rfl
  proceeds :=
    { toWaits := .of_buffer rfl
      kind := fun _ _ h => h
      entered := fun _ => rfl
      callbacks := fun _ => rfl }
  gains := .of_sameBooks (.of_tables rfl rfl rfl rfl rfl rfl rfl (fun _ _ h => h) fun _ h => h)

/-- A node that is there, with all that is inside it. The host of a node is not asked for its value. -/
inductive Readable (n : Network N A σ) : Nat → Prop where
  | absent {id : Nat} (hkind : n.kind? id = some .absent) : Readable n id
  | formula {id : Nat} {source : FormulaSource N} {path : Path (Stat N)}
    (hkind : n.kind? id = some (.formula source path)) (hthere : n.isPresent (.changed id)) :
    Readable n id
  | cached {id inner : Nat} (hkind : n.kind? id = some (.cached inner)) (hinner : Readable n inner) :
    Readable n id
  | exposed {id inner : Nat} (hkind : n.kind? id = some (.exposed inner))
    (hinner : Readable n inner) : Readable n id
  | wrapped {id inner : Nat} (hkind : n.kind? id = some (.wrapped inner))
    (hinner : Readable n inner) : Readable n id
  | aggregate {id c : Nat} {form : Form} (hkind : n.kind? id = some (.aggregate c form))
    (hmembers : ∀ i ∈ n.memberNodes c, Readable n i) : Readable n id

omit [Number N] in
/-- What is there stays there while parts are made. -/
theorem Readable.mono (h : n.Gains n') {id : Nat} (hid : n.Readable id) : n'.Readable id := by
  induction hid with
  | absent hkind => exact .absent (h.kind _ _ hkind)
  | formula hkind hthere => exact .formula (h.kind _ _ hkind) (h.there _ hthere)
  | cached hkind _ ih => exact .cached (h.kind _ _ hkind) ih
  | exposed hkind _ ih => exact .exposed (h.kind _ _ hkind) ih
  | wrapped hkind _ ih => exact .wrapped (h.kind _ _ hkind) ih
  | aggregate hkind _ ih =>
    refine .aggregate (h.kind _ _ hkind) fun i hi => ?_
    rw [h.memberNodes] at hi
    exact ih i hi

omit [Number N] in
/-- A cell is there with its formula. -/
theorem HasCell.readable {id : Nat} {source : FormulaSource N} {path : Path (Stat N)}
    (h : n.HasCell id source path) : n.Readable (id + 1) ∧ n.Readable (id + 2) := by
  have hcached : n.Readable (id + 1) := .cached h.cached (.formula h.formula h.present)
  exact ⟨hcached, .exposed h.exposed hcached⟩

/-- The nodes of a stage on file are there. -/
theorem Sane.readable_stage (hn : n.Sane sc) {k : NodeKey} {e : NodeEntry N}
    (he : n.registry.stage? k = some e) : n.Readable e.cached ∧ n.Readable e.exposed := by
  obtain ⟨hcached, hexposed, l, g, layers, hcell, -⟩ := hn.inv.wired.stages k e he
  rw [hcached, hexposed]
  exact hcell.readable

/-- The members of a collection on file are there. -/
theorem Sane.readable_member (hn : n.Sane sc) {k : StatKey} {f : Form} {p : PathKey} {e : FormEntry N}
    (he : n.registry.form? k f p = some e) : ∀ i ∈ n.memberNodes e.collection, n.Readable i := by
  intro i hi
  rw [memberNodes_eq] at hi
  obtain ⟨item, hitem, rfl⟩ := List.mem_map.mp hi
  obtain ⟨-, -, -, id, hid, hcell⟩ := (hn.inv.wired.forms k f p e he).members item hitem
  rw [hid]
  exact hcell.readable.2

/-- The node that follows a collection on file is there. -/
theorem Sane.readable_aggregate (hn : n.Sane sc) {k : StatKey} {f : Form} {p : PathKey} {e : FormEntry N}
    (he : n.registry.form? k f p = some e) : n.Readable e.aggregate :=
  .aggregate (hn.inv.wired.forms k f p e he).kind (hn.readable_member he)

end Order

/-! ## Asking for parts -/

section Reading

variable {host : Host N A σ} {tell : A → σ → σ} (hhost : host.Aloof tell) {sc : Regime N}

/-- Whatever was recorded is on file. -/
def Resolves (n : Network N A σ) (recorded : List (DependencyKey × Topic)) : Prop :=
  ∀ r ∈ recorded, n.registry.topic? r.1 = some r.2

/-- One more dependency is recorded. -/
theorem Resolves.recording {recorded : List (DependencyKey × Topic)} (h : n.Resolves recorded)
    {key : DependencyKey} {topic : Topic} (ht : n.registry.topic? key = some topic) :
    n.Resolves (recording recorded key topic) := by
  intro r hr
  unfold Network.recording at hr
  split at hr
  · exact h r hr
  · obtain hr | hr := List.mem_append.mp hr
    · exact h r hr
    · rw [List.mem_singleton.mp hr]
      exact ht

variable [Number N]

theorem Advances.resolves {recorded : List (DependencyKey × Topic)} (h : n.Advances sc n')
    (hn : n.Resolves recorded) : n'.Resolves recorded := fun r hr => h.topic? (hn r hr)

include hhost

/-- The paths of a stat are on file after they were asked for. -/
theorem Sane.pathSetOf (hn : n.Sane sc) {stat : Stat N} (hadmits : sc.Admits stat) :
    Leads True (pathSetOf host stat) n fun set n' => n.Advances sc n'
      ∧ n'.registry.topic? (.paths stat.key) = some (.paths set)
      ∧ ∀ p ∈ n'.pathsIn set, sc.HasPath p := by
  have hmade : Leads True (Network.pathSetOf host stat) n _ :=
    leads_pathSetOf hhost.toQuiet hn.inv hadmits fun h => absurd h hn.unfollowed
  refine (hmade.and (hn.books.pathSetOf hhost.harmless stat)).weaken ?_
  rintro set n' ⟨⟨hinv, hchanges, htopic, hpaths, -⟩, hbooks, hgains⟩
  refine ⟨⟨⟨hn.unfollowed, hinv, hbooks⟩, hchanges.toProceeds, hgains⟩, htopic, fun p hp => ?_⟩
  rw [hpaths] at hp
  exact hinv.orderly.path_admits stat.key p hp

/-- The nodes of a stage are on file after they were asked for. -/
theorem Sane.nodesOf (hn : n.Sane sc) {stat : Stat N} (hadmits : sc.Admits stat) {stage : Stage}
    {path : Path (Stat N)} (hhas : sc.HasPath path) :
    Leads True (nodesOf host stat stage path) n fun e n' => n.Advances sc n'
      ∧ n'.registry.stage? ⟨stat.key, stage, (stagePath stage path).key⟩ = some e := by
  have hmade : Leads True (Network.nodesOf host stat stage path) n _ :=
    leads_nodesOf hhost.toQuiet hn.inv hadmits hhas (fun h => absurd h hn.unfollowed)
      fun h => absurd h hn.unfollowed
  refine (hmade.and (hn.books.nodesOf hhost.harmless stat stage path)).weaken ?_
  rintro e n' ⟨⟨hinv, hchanges, he, -⟩, hbooks, hgains⟩
  exact ⟨⟨⟨hn.unfollowed, hinv, hbooks⟩, hchanges.toProceeds, hgains⟩, he⟩

/-- The collection of a form is on file after it was asked for. -/
theorem Sane.collectionOf (hn : n.Sane sc) {stat : Stat N} (hadmits : sc.Admits stat) (form : Form)
    {path : Path (Stat N)} (hhas : sc.HasPath path) :
    Leads True (collectionOf host stat form path) n fun e n' => n.Advances sc n'
      ∧ n'.registry.form? stat.key form path.key = some e := by
  have hmade : Leads True (Network.collectionOf host stat form path) n _ :=
    leads_collectionOf hhost.toQuiet hn.inv hadmits form hhas fun h => absurd h hn.unfollowed
  refine (hmade.and (hn.books.collectionOf hhost.harmless stat form path)).weaken ?_
  rintro e n' ⟨⟨hinv, hchanges, hform, -⟩, hbooks, hgains, -⟩
  exact ⟨⟨⟨hn.unfollowed, hinv, hbooks⟩, hchanges.toProceeds, hgains⟩, hform.entry⟩

/-! ## Looking things up -/

section Lookups

variable {b : Prop} {I : Network N A σ → Prop} {P : Network N A σ → Nat → Prop}

omit hhost in
/-- Nodes that may be read as long as `I` holds, among them all that is on file. -/
structure Reach (sc : Regime N) (I : Network N A σ → Prop) (P : Network N A σ → Nat → Prop) : Prop where
  holds : ∀ {n n'}, n.Advances sc n' → I n → I n'
  stays : ∀ {n n' id}, n.Advances sc n' → P n id → P n' id
  stage : ∀ {n k e}, n.Sane sc → n.registry.stage? k = some e → P n e.exposed
  member : ∀ {n k f p e}, n.Sane sc → n.registry.form? k f p = some e →
    ∀ i ∈ n.memberNodes e.collection, P n i

omit hhost in
/-- A computation that keeps a network in order as long as `I` holds, and records what is on file. It has
a result if `b` holds. -/
def Explores (sc : Regime N) (b : Prop) (I : Network N A σ → Prop) (α : Type)
    (x : Reading N (Recording N A σ) α) : Prop :=
  ∀ (recorded : List (DependencyKey × Topic)) (n : Network N A σ), n.Sane sc → I n →
    n.Resolves recorded →
    Leads b (x.run.run recorded) n fun result n' => n.Advances sc n' ∧ n'.Resolves result.2

omit hhost in
theorem closed_explores (hreach : Reach sc I P) : Reading.Closed (Explores sc b I) where
  pure a _ _ hn _ hrs := .of_pure ⟨.refl hn, hrs⟩
  throw fault _ _ hn _ hrs := .of_pure ⟨.refl hn, hrs⟩
  bind {_ _ x next} hx hnext recorded n hn hI hrs := by
    refine leads_reading_bind (hx recorded n hn hI hrs) ?_ fun fault recorded' n' h => h
    rintro a recorded' n₁ ⟨h₁, hrs₁⟩
    refine (hnext a recorded' n₁ h₁.sane (hreach.holds h₁ hI) hrs₁).weaken ?_
    rintro result n₂ ⟨h₂, hrs₂⟩
    exact ⟨h₁.trans h₂, hrs₂⟩

omit hhost in
/-- Reading a node keeps a network in order. It has a result if `b` holds. -/
def ReadsInOrder (sc : Regime N) (b : Prop) (I : Network N A σ → Prop) (P : Network N A σ → Nat → Prop)
    (read : Nat → Reading N (Run N A σ) (Option (Amount N))) : Prop :=
  ∀ (n : Network N A σ) (id : Nat), n.Sane sc → I n → P n id →
    Leads b (read id).run n fun _ n' => n.Advances sc n'

omit hhost in
/-- Nodes are read one after another. -/
theorem ReadsInOrder.readAll (hreach : Reach sc I P)
    {read : Nat → Reading N (Run N A σ) (Option (Amount N))} (hread : ReadsInOrder sc b I P read) :
    ∀ (ids : List Nat) (n : Network N A σ), n.Sane sc → I n → (∀ i ∈ ids, P n i) →
      Leads b (readAll read ids).run n fun _ n' => n.Advances sc n'
  | [], n, hn, _, _ => .of_pure (.refl hn)
  | id :: ids, n, hn, hI, hids => by
    have hrest (n₁ : Network N A σ) (h₁ : n.Advances sc n₁) :
        Leads b (Network.readAll read ids).run n₁ fun _ n' => n.Advances sc n' := by
      refine (hread.readAll hreach ids n₁ h₁.sane (hreach.holds h₁ hI) fun i hi => ?_).weaken
        fun _ _ h₂ => h₁.trans h₂
      exact hreach.stays h₁ (hids i (List.mem_cons_of_mem id hi))
    rw [Network.readAll, List.mapM_cons]
    refine (hread n id hn hI (hids id List.mem_cons_self)).bind fun result n₁ h₁ => ?_
    cases result with
    | error fault => exact .of_pure h₁
    | ok v =>
      refine (hrest n₁ h₁).bind fun result n₂ h₂ => ?_
      cases result with
      | error fault => exact .of_pure h₂
      | ok vs => exact .of_pure h₂

omit hhost [Number N] in
/-- Reading nodes while recording is reading them, and recording nothing. -/
theorem run_readAll_readIn (read : Nat → Reading N (Run N A σ) (Option (Amount N)))
    (recorded : List (DependencyKey × Topic)) : ∀ (ids : List Nat) (n : Network N A σ),
      ((Network.readAll (readIn read) ids).run.run recorded) n
        = (do return (← (Network.readAll read ids).run, recorded) : Run N A σ _) n
  | [], _ => rfl
  | id :: ids, n => by
    rw [Network.readAll, Network.readAll, List.mapM_cons, List.mapM_cons]
    have hrest := run_readAll_readIn read recorded ids
    change Option.bind (Option.bind ((read id).run n) _) _
      = Option.bind (Option.bind ((read id).run n) _) _
    cases (read id).run n with
    | none => rfl
    | some answer =>
      obtain ⟨result, n₁⟩ := answer
      cases result with
      | error fault => rfl
      | ok v =>
        change Option.bind ((Network.readAll (readIn read) ids).run.run recorded n₁) _
          = Option.bind (Option.bind ((Network.readAll read ids).run n₁) _) _
        rw [hrest n₁]
        change Option.bind (Option.bind ((Network.readAll read ids).run n₁) _) _ = _
        cases (Network.readAll read ids).run n₁ with
        | none => rfl
        | some answer =>
          obtain ⟨result, n₂⟩ := answer
          cases result <;> rfl

variable {read : Nat → Reading N (Run N A σ) (Option (Amount N))} (hreach : Reach sc I P)
  (hread : ReadsInOrder sc b I P read) (hnote : b → ∀ text n, (host.note text) n ≠ none)

omit hhost in
include hreach hread in
/-- Reading nodes records nothing. -/
theorem ReadsInOrder.leads_readAll_readIn {recorded : List (DependencyKey × Topic)} (hn : n.Sane sc)
    (hI : I n) (hrs : n.Resolves recorded) {ids : List Nat} (hids : ∀ i ∈ ids, P n i) :
    Leads b ((Network.readAll (readIn read) ids).run.run recorded) n
      fun result n' => n.Advances sc n' ∧ n'.Resolves result.2 := by
  refine Leads.congr ?_ (run_readAll_readIn read recorded ids n)
  exact (hread.readAll hreach ids n hn hI hids).bind fun _ n' h => .of_pure ⟨h, h.resolves hrs⟩

include hreach hread hnote

/-- Whatever a regime admits is made if it is missing, recorded, and read. -/
theorem leads_lookup (path : Path (Stat N)) {query : Query N} (hquery : query.Admitted sc)
    {recorded : List (DependencyKey × Topic)} (hn : n.Sane sc) (hI : I n)
    (hrs : n.Resolves recorded) :
    Leads b (((recordingLookup host read path).answer query).run.run recorded) n fun result n' =>
      (n.Advances sc n' ∧ n'.Resolves result.2) ∧ ∀ reply, result.1 = .ok reply → query.Names sc reply := by
  have hQ : Reading.Closed (Explores sc b I) := closed_explores hreach
  cases query with
  | paths stat =>
    refine leads_onNetwork_bind ((hn.pathSetOf hhost hquery).mono (fun _ => trivial) fun _ _ h => h) ?_
    rintro set n₁ ⟨h₁, htopic, hpaths⟩
    refine leads_record_bind (leads_get_bind (.of_pure ⟨⟨h₁, ?_⟩, ?_⟩))
    · exact (h₁.resolves hrs).recording htopic
    · rintro reply ⟨⟩
      exact hpaths
  | value stat stage path =>
    obtain ⟨hadmits, hhas⟩ := hquery
    refine leads_onNetwork_bind ((hn.nodesOf hhost hadmits hhas).mono (fun _ => trivial)
      fun _ _ h => h) ?_
    rintro e n₁ ⟨h₁, he⟩
    rw [stagePath_stagePath] at he
    have htopic : n₁.registry.topic? (.node ⟨stat.key, stage, (stagePath stage path).key⟩)
        = some (.received e.cached) := Option.map_eq_some_iff.mpr ⟨e, he, rfl⟩
    have hrs₁ := (h₁.resolves hrs).recording htopic
    have hexposed := hread n₁ e.exposed h₁.sane (hreach.holds h₁ hI) (hreach.stage h₁.sane he)
    refine leads_record_bind ((leads_readIn hexposed).weaken ?_)
    rintro ⟨result, rs⟩ n₂ ⟨rfl, h₂⟩
    exact ⟨⟨h₁.trans h₂, h₂.resolves hrs₁⟩, fun _ _ => trivial⟩
  | values form places =>
    have hplace (place : Place N) (hplace : place ∈ places) : Explores sc b I _ (do
        let entry ← onNetwork (collectionOf host place.1 form place.2)
        record (.form place.1.key form place.2.key) (.changed entry.aggregate)
        Network.readAll (readIn read) ((← onNetwork get).memberNodes entry.collection)) := by
      intro recorded n hn hI hrs
      obtain ⟨hadmits, hhas⟩ := hquery place hplace
      refine leads_onNetwork_bind ((hn.collectionOf hhost hadmits form hhas).mono (fun _ => trivial)
        fun _ _ h => h) ?_
      rintro e n₁ ⟨h₁, he⟩
      have htopic : n₁.registry.topic? (.form place.1.key form place.2.key)
          = some (.changed e.aggregate) := Option.map_eq_some_iff.mpr ⟨e, he, rfl⟩
      have hrs₁ := (h₁.resolves hrs).recording htopic
      refine leads_record_bind (leads_get_bind ((hread.leads_readAll_readIn hreach h₁.sane
        (hreach.holds h₁ hI) hrs₁ (hreach.member h₁.sane he)).weaken ?_))
      rintro result n₂ ⟨h₂, hrs₂⟩
      exact ⟨h₁.trans h₂, hrs₂⟩
    have hvalues : Explores sc b I _ ((recordingLookup host read path).values form places) :=
      hQ.bind (hQ.mapM hplace) fun values => hQ.pure _
    exact (hvalues recorded n hn hI hrs).weaken fun _ _ h => ⟨h, fun _ _ => trivial⟩
  | derived request =>
    -- a meta stat that is derived is noted in the catalog, and nowhere else
    have hderived : Leads b (derive request).run n fun _ n' => n.Advances sc n' := by
      refine .get_bind ?_
      cases n.catalog with
      | none => exact .of_pure (.refl hn)
      | some catalog => exact .of_eq rfl (hn.withCatalog _)
    exact hderived.bind fun _ n' h => .of_pure ⟨⟨h, h.resolves hrs⟩, fun _ _ => trivial⟩
  | note text =>
    have hnoted : Leads b (host.note text) n fun _ n' => n.Advances sc n' := by
      refine ⟨fun hb => hnote hb text n, fun hrun => ?_⟩
      obtain ⟨state, rfl⟩ := (hhost.note text n).partly hrun
      exact hn.withBuffer state
    have hpure : Leads b ((onNetwork (host.note text) >>= pure).run.run recorded) n
        fun result n' => (n.Advances sc n' ∧ n'.Resolves result.2) ∧ ∀ reply : Unit,
          result.1 = .ok reply → Query.Names sc (.note text) reply :=
      leads_onNetwork_bind hnoted fun a n' h => .of_pure ⟨⟨h, h.resolves hrs⟩, fun _ _ => trivial⟩
    rwa [bind_pure] at hpure

/-- Whatever asks for no more than a regime admits explores the network. -/
theorem explores_answeredBy (path : Path (Stat N)) {α : Type} :
    ∀ {inquiry : Inquiry N (Except (Fault N) α)}, inquiry.Asks (fun _ => Query.Admitted sc)
        (fun _ query reply _ => query.Names sc reply) () →
      Explores sc b I α (inquiry.answeredBy (recordingLookup host read path))
  | .done result, _ => (closed_explores hreach).ofExcept result
  | .ask query next, hasks => by
    intro recorded n hn hI hrs
    refine leads_reading_bind (leads_lookup hhost hreach hread hnote path hasks.1 hn hI hrs) ?_
      fun fault recorded' n' h => h.1
    rintro reply recorded' n₁ ⟨⟨h₁, hrs₁⟩, hnames⟩
    refine (explores_answeredBy path (hasks.2 reply () (hnames reply rfl)) recorded' n₁ h₁.sane
      (hreach.holds h₁ hI) hrs₁).weaken ?_
    rintro result n₂ ⟨h₂, hrs₂⟩
    exact ⟨h₁.trans h₂, hrs₂⟩

end Lookups

/-! ## Reading nodes -/

section Nodes

variable {b : Prop}

omit hhost in
/-- A formula that subscribes to what is on file keeps a network in order. -/
theorem Sane.resubscribe (hn : n.Sane sc) {id : Nat} {source : FormulaSource N} {path : Path (Stat N)}
    (hkind : n.kind? id = some (.formula source path)) (hthere : n.isPresent (.changed id))
    {recorded : List (DependencyKey × Topic)} (hrs : n.Resolves recorded) :
    Leads b (resubscribe id recorded) n fun _ n' => n.Advances sc n' := by
  obtain ⟨f, hf⟩ := exists_formula? hkind
  have hnotes : n.Notes sc id recorded := ⟨hrs, fun h => absurd h hn.unfollowed⟩
  have hsame : n.SameBooks (n.resubscribed id f recorded) :=
    (quietly_resubscribe id recorded n).partly (resubscribe_eq hf)
  refine .of_eq (resubscribe_eq hf) ⟨⟨hn.unfollowed, hn.inv.of_unfollowed hn.unfollowed
    (hn.inv.wired.resubscribed hf hnotes hthere hn.inv.orderly) registry_resubscribed
    (hn.inv.listed.resubscribed hf) released_resubscribed (fun c hc => ?_)
    fun c flags hflags hc => ?_, hn.books.of_sameBooks hsame⟩,
    hn.inv.wired.ledger.proceeds_resubscribed hf, .of_sameBooks hsame⟩
  · rw [value?, flags?_resubscribed] at hc
    rw [isObserved, flags?_resubscribed]
    exact hn.inv.lit.shown c hc
  · rw [flags?_resubscribed] at hflags
    exact (hn.inv.lit.entered c flags hflags hc).1

omit hhost in
/-- Evaluating the formula of a node keeps a network in order if what it means does. -/
theorem Sane.readFormula (hn : n.Sane sc) {read : Nat → Reading N (Run N A σ) (Option (Amount N))}
    {id : Nat} {f : FormulaNode N} (hf : n.formula? id = some f) (hthere : n.isPresent (.changed id))
    (hmeaning : Leads b ((n.meaning f.source (recordingLookup host read f.path)).run.run []) n
      fun result n' => n.Advances sc n' ∧ n'.Resolves result.2) :
    Leads b (readFormula host read id f).run n fun _ n' => n.Advances sc n' := by
  have hkind : n.kind? id = some (.formula f.source f.path) := by
    rw [kind?, formula?_eq_some_iff.mp hf]
    rfl
  refine .congr ?_ (readFormula_eq host read id f hn.inv.unreleased)
  refine hmeaning.bind ?_
  rintro result n₁ ⟨h₁, hrs⟩
  refine (h₁.sane.resubscribe (h₁.gains.kind _ _ hkind) (h₁.gains.there _ hthere) hrs).bind ?_
  exact fun _ n₂ h₂ => .of_pure (h₁.trans h₂)

omit hhost [Number N] in
/-- What is known changes nothing. -/
theorem leads_ofExcept {α : Type} {answer : Except (Fault N) α} {post : Network N A σ → Prop} (h : post n) :
    Leads b (Reading.ofExcept answer : Reading N (Run N A σ) α).run n fun _ n' => post n' := by
  cases answer <;> exact .of_eq rfl h

omit hhost in
/-- Other flags keep a network in order if no value is kept that nobody read, or while it is computed. -/
theorem Sane.flag (hn : n.Sane sc) {c : Nat} {old new : Flags N} (hold : n.flags? c = some old)
    (hshown : new.value ≠ none → new.observed) (hentered : new.entered → new.value = none) :
    (n.flag c new).Sane sc ∧ n.Gains (n.flag c new) := by
  have hsame : n.SameBooks (n.flag c new) := by
    refine .of_tables rfl rfl rfl rfl rfl rfl rfl (fun i _ h => (kind?_flag i).trans h) fun i h => ?_
    rwa [Network.flag, isPresent_relight]
  refine ⟨⟨hn.unfollowed, hn.inv.of_unfollowed hn.unfollowed (hn.inv.wired.relight _) registry_flag
    (hn.inv.listed.relight _) rfl (fun i hi => ?_) fun i flags hflags hi => ?_,
    hn.books.of_sameBooks hsame⟩, .of_sameBooks hsame⟩
  · rw [value?_flag hold] at hi
    rw [isObserved_flag hold]
    split
    next heq => exact hshown (by rwa [if_pos heq] at hi)
    next hne => exact hn.inv.lit.shown i (by rwa [if_neg hne] at hi)
  · rw [flags?_flag hold] at hflags
    split at hflags
    next =>
      obtain rfl := Option.some.inj hflags
      exact hentered hi
    next => exact (hn.inv.lit.entered i flags hflags hi).1

section Cached

variable {id : Nat} {c : CachedNode N A}

omit hhost

/-- A cached node that was read tells of the next change, and all else is as it was. -/
theorem Sane.observe (hn : n.Sane sc) (hc : n.cached? id = some c) :
    n.Advances sc (n.modifyCached id fun c => { c with observed := true }) := by
  have hold := flags?_of_cached hc
  rw [observe_eq hold]
  have hentered (h : c.flags.entered) : c.flags.value = none := (hn.inv.lit.entered id c.flags hold h).1
  have hflag : (n.flag id { c.flags with observed := true }).Sane sc ∧ _ :=
    hn.flag hold (fun _ => rfl) hentered
  exact ⟨hflag.1, .flag hold rfl, hflag.2⟩

/-- A cached node without a value may be entered. -/
theorem Sane.enter (hn : n.Sane sc) (hc : n.cached? id = some c) (hcache : c.cache = none) :
    (n.flag id ⟨c.flags.value, c.flags.observed, false, true⟩).Sane sc
      ∧ n.Gains (n.flag id ⟨c.flags.value, c.flags.observed, false, true⟩) :=
  hn.flag (flags?_of_cached hc) (fun h => absurd hcache h) fun _ => hcache

/-- A cached node that was entered is left after its value was computed. -/
theorem Sane.leave (hn : n.Sane sc) (hc : n.cached? id = some c) (hcache : c.cache = none)
    (hguard : c.guard.entered = false)
    (h : (n.flag id ⟨c.flags.value, c.flags.observed, false, true⟩).Advances sc n')
    (result : Except (Fault N) (Option (Amount N))) :
    ∃ flags, n'.flags? id = some flags ∧ n.Advances sc (n'.flag id (flags.leave result)) := by
  have hold := flags?_of_cached hc
  obtain ⟨flags, hflags⟩ : ∃ flags, n'.flags? id = some flags := by
    have hkind : n.kind? id = some (.cached c.inner) := kind?_eq_cached_iff.mpr ⟨c, hc, rfl⟩
    obtain ⟨c', hc', -⟩ := kind?_eq_cached_iff.mp (h.gains.kind _ _ ((kind?_flag id).trans hkind))
    exact ⟨_, flags?_of_cached hc'⟩
  have hleft : (n'.flag id (flags.leave result)).Sane sc ∧ _ :=
    h.sane.flag hflags (fun _ => rfl) fun h => by cases h
  exact ⟨flags, hflags, hleft.1, h.proceeds.settle hold hguard.symm hflags,
    ((hn.enter hc hcache).2.trans h.gains).trans hleft.2⟩

/-- Reading a cached node keeps a network in order if computing its value does, while it is entered. -/
theorem Sane.readCached (hn : n.Sane sc) {read : Nat → Reading N (Run N A σ) (Option (Amount N))}
    (hc : n.cached? id = some c)
    (hinner : c.guard.entered = false → ∀ m, m = n.flag id ⟨c.flags.value, c.flags.observed, false, true⟩ →
      m.Sane sc → n.Gains m → Leads b (read c.inner).run m fun _ n' => m.Advances sc n') :
    Leads b (readCached read id c).run n fun _ n' => n.Advances sc n' := by
  cases hcache : c.cache with
  | some v => exact leads_readCached_kept hcache (hn.observe hc)
  | none =>
    cases hguard : c.guard.entered with
    | true => exact leads_readCached_entered hcache hguard (hn.observe hc)
    | false =>
      obtain ⟨hsane₁, hgains₁⟩ := hn.enter hc hcache
      refine leads_readCached_computed hcache hguard ?_
      rw [enter_eq (flags?_of_cached hc)]
      refine (hinner hguard _ rfl hsane₁ hgains₁).weaken fun result n₂ h₂ => ?_
      obtain ⟨flags, hflags, hleft⟩ := hn.leave hc hcache hguard h₂ result
      rw [leave_eq hflags]
      exact hleft

end Cached

end Nodes

/-! ## Reading whatever is there -/

section Whatever

variable {sc : Regime N}

omit hhost in
/-- Nodes that are there may be read whatever holds. -/
theorem reach_readable : Reach (N := N) (A := A) (σ := σ) sc (fun _ => True) Readable where
  holds _ _ := trivial
  stays h hid := hid.mono h.gains
  stage hn he := (hn.readable_stage he).2
  member hn he := hn.readable_member he

omit hhost in
/-- Whatever the formula of a node looks up, it keeps a network in order. -/
def Host.Explored (host : Host N A σ) (sc : Regime N) : Prop :=
  ∀ {read : Nat → Reading N (Run N A σ) (Option (Amount N))},
    ReadsInOrder sc False (fun _ => True) Readable read → ∀ {n : Network N A σ} {id : Nat}
      {f : FormulaNode N}, n.Sane sc → n.formula? id = some f →
      Leads False ((n.meaning f.source (recordingLookup host read f.path)).run.run []) n
        fun result n' => n.Advances sc n' ∧ n'.Resolves result.2

/-- Where everything is admitted, formulas may look up whatever they like, and layers may do so too. -/
theorem explored_free : host.Explored .free := by
  intro read hread n id f hn hf
  have hQ : Reading.Closed (Explores (A := A) (σ := σ) .free False fun _ => True) :=
    closed_explores (reach_readable (N := N) (A := A) (σ := σ))
  have hlookup : (recordingLookup host read f.path).Within (Explores .free False fun _ => True) := by
    have hanswer (query : Query N) (hquery : query.Admitted .free) :
        Explores .free False (fun _ => True) _ ((recordingLookup host read f.path).answer query) :=
      fun recorded n hn hI hrs => (leads_lookup hhost reach_readable hread False.elim f.path hquery
        hn hI hrs).weaken fun _ _ h => h.1
    exact ⟨fun stat => hanswer (.paths stat) trivial,
      fun stat stage path => hanswer (.value stat stage path) ⟨trivial, trivial⟩,
      fun form places => hanswer (.values form places) fun _ _ => ⟨trivial, trivial⟩,
      fun request => hanswer (.derived request) trivial,
      fun text => hanswer (.note text) trivial⟩
  exact n.within_meaning f.source hQ _ hlookup [] n hn trivial (by simp [Resolves])

omit hhost

variable (hexplored : host.Explored sc)
include hexplored

/-- Reading a node that is there keeps a network in order, however deep nodes read each other. -/
theorem readsInOrder_read : ∀ depth : Nat,
    ReadsInOrder sc False (fun _ => True) Readable (Network.read host depth)
  | 0 => fun _ _ _ _ _ => ⟨False.elim, fun h => by cases h⟩
  | depth + 1 => by
    intro n id hn _ hid
    have ih := readsInOrder_read depth
    cases hid with
    | absent hkind =>
      obtain ⟨body, hbody, habsent⟩ := Option.map_eq_some_iff.mp hkind
      refine .congr ?_ (read_apply host depth hbody)
      cases body with
      | absent => exact .of_pure (.refl hn)
      | _ => cases habsent
    | formula hkind hthere =>
      obtain ⟨f, hf⟩ := exists_formula? hkind
      refine Leads.congr ?_ (read_apply host depth (formula?_eq_some_iff.mp hf))
      exact hn.readFormula hf hthere (hexplored ih hn hf)
    | cached hkind hinner =>
      obtain ⟨c, hc, rfl⟩ := kind?_eq_cached_iff.mp hkind
      refine Leads.congr ?_ (read_apply host depth (cached?_eq_some_iff.mp hc))
      exact hn.readCached hc fun _ m _ hm hgains => ih m c.inner hm trivial (hinner.mono hgains)
    | @exposed _ inner hkind hinner =>
      obtain ⟨body, hbody, hexposed⟩ := Option.map_eq_some_iff.mp hkind
      refine .congr ?_ (read_apply host depth hbody)
      cases body with
      | exposed inner =>
        cases hexposed
        exact ih n inner hn trivial hinner
      | _ => cases hexposed
    | @wrapped _ inner hkind hinner =>
      obtain ⟨body, hbody, hwrapped⟩ := Option.map_eq_some_iff.mp hkind
      refine .congr ?_ (read_apply host depth hbody)
      cases body with
      | wrapped inner _ =>
        cases hwrapped
        exact ih n inner hn trivial hinner
      | _ => cases hwrapped
    | aggregate hkind hmembers =>
      obtain ⟨body, hbody, haggregate⟩ := Option.map_eq_some_iff.mp hkind
      refine .congr ?_ (read_apply host depth hbody)
      cases body with
      | aggregate a =>
        cases haggregate
        refine (ih.readAll reach_readable _ n hn trivial hmembers).bind fun result n₁ h₁ => ?_
        cases result with
        | error fault => exact .of_pure h₁
        | ok vs => exact leads_ofExcept h₁
      | _ => cases haggregate

/-- Reading a node that is there keeps a network in order. -/
theorem Sane.valueOf (hn : n.Sane sc) {id : Nat} (hid : n.Readable id) :
    Leads False (Network.valueOf host id).run n fun _ n' => n.Advances sc n' :=
  .valueOf fun depth => readsInOrder_read hexplored depth n id hn trivial hid

end Whatever

end Reading

end Network

end StatEngine
