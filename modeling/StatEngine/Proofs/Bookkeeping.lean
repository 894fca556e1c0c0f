import StatEngine.Proofs.Members
import StatEngine.Proofs.Balance
import StatEngine.Proofs.Meanings

/-!
# Bookkeeping

Every request keeps the books of a network balanced (`Bookkept`): what is made is written down where it
is made, in the middle of evaluations too, and what is dropped is crossed out everywhere. Members of a
collection and their formula nodes stay side by side.

## Main definitions

* `Bookkept`: the books are balanced and speak of what is there.

## Main statements

* `Bookkept.nodesOf`, `Bookkept.collectionOf`: asking for parts that may be missing keeps the books;
* `Bookkept.addModifier`, `Bookkept.removeModifier`: so does registering a modifier and taking it back;
* `Bookkept.read`: so does reading a node;
* `Bookkept.removeUnused`: so does removing what is unused.
-/

namespace StatEngine.Network

variable {N A σ : Type} {n : Network N A σ}

/-- A member of a collection, and the formula node that is kept next to it: they are for the same
modifier, and the member shows the value that the formula node computes. -/
structure Pairs (n : Network N A σ) (item : Nat × Modifier N) (formula : Modifier N × Nat) : Prop where
  modifier : item.2 = formula.1
  cell : ∃ cached, n.kind? item.1 = some (.exposed cached)
    ∧ n.kind? cached = some (.cached formula.2)
    ∧ n.kind? formula.2 = some (.formula (.plain item.2.formula) item.2.path)

theorem Pairs.of_kind {n' : Network N A σ}
    (h : ∀ id kind, n.kind? id = some kind → n'.kind? id = some kind) {item : Nat × Modifier N}
    {formula : Modifier N × Nat} (hp : n.Pairs item formula) : n'.Pairs item formula := by
  obtain ⟨hm, cached, hexposed, hcached, hformula⟩ := hp
  exact ⟨hm, cached, h _ _ hexposed, h _ _ hcached, h _ _ hformula⟩

theorem Pairs.mono {n' : Network N A σ} (h : n.Persists n') {item : Nat × Modifier N}
    {formula : Modifier N × Nat} (hp : n.Pairs item formula) : n'.Pairs item formula := hp.of_kind h.kind

theorem mem_inUse {id : Nat} (hid : id ∈ n.live) {g : Subgraph N} (hg : n.graphs[id]? = some g) :
    g ∈ n.books.inUse := Books.mem_inUse_iff.mpr ⟨id, hid, hg⟩

/-- The books are balanced and speak of what is there. -/
structure Bookkept (n : Network N A σ) : Prop where
  balanced : n.books.Balanced
  sets_lt : ∀ g ∈ n.books.inUse, g.paths < n.pathSets.size
  collections_lt : ∀ g ∈ n.books.inUse, ∀ e ∈ g.forms, e.collection < n.collections.size
  /-- Members and their formula nodes are side by side. -/
  aligned : ∀ c, List.Forall₂ n.Pairs (n.books.items c) (n.books.formulas c)

namespace Bookkept

/-- The books stay balanced when nothing is written but which stats are listed. -/
theorem of_listed {n' : Network N A σ} (h : n.Bookkept) (hp : n.Persists n') {listed : List (Stat N × Nat)}
    (hbooks : n'.books = { n.books with listed }) : n'.Bookkept where
  balanced := hbooks ▸ { h.balanced with balances := fun g hg => { h.balanced.balances g hg with } }
  sets_lt g hg := by
    rw [hbooks] at hg
    exact (h.sets_lt g hg).trans_le hp.sets
  collections_lt g hg e he := by
    rw [hbooks] at hg
    exact (h.collections_lt g hg e he).trans_le hp.collections
  aligned c := by
    rw [hbooks]
    exact (h.aligned c).imp fun _ _ => Pairs.mono hp

/-- The books stay as they are when nothing is written. -/
theorem of_sameBooks {n' : Network N A σ} (h : n.Bookkept) (hs : n.SameBooks n') : n'.Bookkept :=
  h.of_listed hs.toPersists hs.books

/-- The books of a network that persists stay in order if they are balanced, and no subgraph speaks of
something new. -/
theorem of_persists {n' : Network N A σ} (h : n.Bookkept) (hp : n.Persists n')
    (hbalanced : n'.books.Balanced)
    (hgraphs : ∀ g' ∈ n'.books.inUse, (∃ g ∈ n.books.inUse, g.paths = g'.paths
      ∧ ∀ e' ∈ g'.forms, (∃ e ∈ g.forms, e.collection = e'.collection)
        ∨ e'.collection < n'.collections.size))
    (haligned : ∀ c, List.Forall₂ n'.Pairs (n'.books.items c) (n'.books.formulas c)) :
    n'.Bookkept where
  balanced := hbalanced
  sets_lt g' hg' := by
    obtain ⟨g, hg, hpaths, -⟩ := hgraphs g' hg'
    exact hpaths ▸ (h.sets_lt g hg).trans_le hp.sets
  collections_lt g' hg' e' he' := by
    obtain ⟨g, hg, -, hforms⟩ := hgraphs g' hg'
    rcases hforms e' he' with ⟨e, he, heq⟩ | hlt
    · exact heq ▸ (h.collections_lt g hg e he).trans_le hp.collections
    · exact hlt
  aligned := haligned

/-- The books stay in order when one subgraph changes, and refers to nothing that is not there. -/
theorem of_modifyGraph {n' : Network N A σ} (h : n.Bookkept) (hp : n.Persists n')
    (hbalanced : n'.books.Balanced) (hlive : n'.live = n.live) {id : Nat}
    {f : Subgraph N → Subgraph N} (hgraphs : n'.graphs = n.graphs.modify id f)
    (hpaths : ∀ g, (f g).paths = g.paths)
    (hforms : ∀ g, ∀ e' ∈ (f g).forms, (∃ e ∈ g.forms, e.collection = e'.collection)
      ∨ e'.collection < n'.collections.size)
    (haligned : ∀ c, List.Forall₂ n'.Pairs (n'.books.items c) (n'.books.formulas c)) :
    n'.Bookkept := by
  refine h.of_persists hp hbalanced (fun g' hg' => ?_) haligned
  obtain ⟨i, hi, hgi⟩ := Books.mem_inUse_iff.mp hg'
  change i ∈ n'.live at hi
  change n'.graphs[i]? = some g' at hgi
  rw [hlive] at hi
  rw [hgraphs, Array.getElem?_modify] at hgi
  split at hgi
  · obtain ⟨g, hg, rfl⟩ := Option.map_eq_some_iff.mp hgi
    exact ⟨g, mem_inUse hi hg, (hpaths g).symm, hforms g⟩
  · exact ⟨g', mem_inUse hi hgi, rfl, fun e' he' => .inl ⟨e', he', rfl⟩⟩

end Bookkept

/-- A run that writes nothing keeps the books. -/
theorem Quietly.bookkept {α : Type} {run : Run N A σ α} (hrun : Quietly run) (h : n.Bookkept) :
    Leads False run n fun _ n' => n'.Bookkept ∧ n.SameBooks n' :=
  (hrun n).weaken fun _ _ hs => ⟨h.of_sameBooks hs, hs⟩

/-! ## Counts of behaviors -/

section Counts

theorem any_same_iff {installed : List (Behavior N × Nat)} {x : Behavior N} :
    installed.any (·.1.same x) = true ↔ x.mark ∈ installed.map fun e => e.1.mark := by
  simp only [List.any_eq_true, Behavior.same_iff, List.mem_map]

theorem map_same_eq (f : Nat → Nat) (installed : List (Behavior N × Nat)) (x : Behavior N) :
    (installed.map fun e => if e.1.same x then (e.1, f e.2) else (e.1, e.2))
      = Tally.change Behavior.mark x.mark f installed := by
  refine List.map_congr_left fun e _ => ?_
  simp only [Behavior.same_iff]

/-- A behavior that is installed is counted, and applied if it is new. -/
theorem installOne_eq (host : Host N A σ) (x : Behavior N) (n : Network N A σ) :
    installOne host x n = (do
      modify fun n => n.withBehaviors (Books.installOne x n.installed) n.registrations
      if x.mark ∉ n.installed.map fun e => e.1.mark then
        (n.affectedFormulas x).forM fun id => addLayer host id x.transformation : Run N A σ Unit) n := by
  rw [installOne, get_bind_apply, modify_bind_apply]
  by_cases hin : x.mark ∈ n.installed.map fun e => e.1.mark
  · rw [if_pos (any_same_iff.mpr hin), if_neg (not_not_intro hin), Books.installOne, if_pos hin,
      ← map_same_eq]
    rfl
  · rw [if_neg (mt any_same_iff.mp hin), if_pos hin, Books.installOne, if_neg hin]
    rfl

/-- A behavior that is uninstalled is counted once less, and taken off if it was counted once. -/
theorem uninstallOne_eq (host : Host N A σ) (hsound : Tally.Sound Behavior.mark n.installed)
    (x : Behavior N) : uninstallOne host x n = (do
      modify fun n => n.withBehaviors (Books.uninstallOne x n.installed) n.registrations
      if Tally.count Behavior.mark n.installed x.mark = 1 then
        (n.affectedFormulas x).forM fun id => removeLayer host id x.transformation :
          Run N A σ Unit) n := by
  have hsame (e : Behavior N × Nat) : e.1.same x = decide (e.1.mark = x.mark) := by
    rw [Bool.eq_iff_iff, Behavior.same_iff, decide_eq_true_iff]
  have hcount : n.installationCount x = Tally.count Behavior.mark n.installed x.mark := by
    simp only [installationCount, Tally.count, hsame]
  rw [uninstallOne, get_bind_apply, modify_bind_apply]
  dsimp only
  rw [hcount, Books.uninstallOne]
  by_cases hmany : 1 < Tally.count Behavior.mark n.installed x.mark
  · rw [if_pos hmany, if_pos hmany, if_neg (by omega), ← map_same_eq]
    rfl
  · rw [if_neg hmany, if_neg hmany]
    by_cases hone : Tally.count Behavior.mark n.installed x.mark = 1
    · have herase : n.installed.eraseP (·.1.same x)
          = n.installed.filter fun e => !decide (e.1.mark = x.mark) := by
        rw [← hsound.eraseP_eq]
        congr 1
        funext e
        exact hsame e
      rw [if_pos hone, if_pos hone, ← herase]
      rfl
    · -- the behavior is not installed at all
      have hnot : x.mark ∉ n.installed.map fun e => e.1.mark := fun hmem => by
        have := hsound.count_pos_iff.mpr hmem
        omega
      have hkeep : (n.installed.filter fun e => !decide (e.1.mark = x.mark)) = n.installed :=
        List.filter_eq_self.mpr fun e he => by
          simpa using fun heq => hnot (List.mem_map.mpr ⟨e, he, heq⟩)
      rw [if_neg hone, if_neg hone, hkeep]
      rfl

end Counts

/-! ## Single entries -/

section Entries

variable {host : Host N A σ} (hhost : host.Harmless)

theorem books_modifyPaths {set : Nat} (hset : set < n.pathSets.size)
    (f : List (Path (Stat N) × Nat) → List (Path (Stat N) × Nat)) :
    (n.modifyPaths set f).books = n.books.modifyCounts set f := by
  simp only [books, modifyPaths, Books.modifyCounts]
  congr 1
  funext i
  rw [Array.getElem?_modify, Function.update_apply]
  by_cases hi : i = set
  · subst hi
    simp [hset]
  · simp [hi, Ne.symm hi]

theorem persists_modifyPaths (n : Network N A σ) (set : Nat)
    (f : List (Path (Stat N) × Nat) → List (Path (Stat N) × Nat)) : n.Persists (n.modifyPaths set f) :=
  ⟨fun _ _ h => h, fun _ h => h, le_rfl, by simp [modifyPaths]⟩

theorem books_modifyGraph (n : Network N A σ) (id : Nat) (f : Subgraph N → Subgraph N) :
    (n.modifyGraph id f).books = n.books.modifyGraph id f := rfl

theorem persists_modifyGraph (n : Network N A σ) (id : Nat) (f : Subgraph N → Subgraph N) :
    n.Persists (n.modifyGraph id f) :=
  ⟨fun _ _ h => h, fun _ h => h, le_rfl, le_rfl⟩

include hhost

/-- A path is counted once more. -/
theorem books_addPath {set : Nat} (hset : set < n.pathSets.size) (path : Path (Stat N)) :
    Leads False (addPath host set path) n fun _ n' => n.Persists n'
      ∧ n'.books = n.books.modifyCounts set (Registry.counting path) := by
  refine .congr ?_ (addPath_eq host set path n)
  refine .modify_bind ?_
  have hdone : Quietly (if !path.isIn (n.pathsIn set) then emit host (.paths set) .changed
      else pure PUnit.unit) := by
    split
    · exact quietly_emit hhost _ _
    · exact .of_pure _
  refine (hdone _).weaken fun _ n' hs => ?_
  exact ⟨(n.persists_modifyPaths set _).trans hs.toPersists, hs.books.trans (books_modifyPaths hset _)⟩

/-- A path is counted once less. -/
theorem books_removePath {set : Nat} (hset : set < n.pathSets.size) (path : Path (Stat N)) :
    Leads False (removePath host set path) n fun _ n' => n.Persists n'
      ∧ n'.books = n.books.modifyCounts set (Books.uncounting path) := by
  refine .get_bind ?_
  have hentries : (n.pathSets[set]?.bind fun s => s.entries.find? (·.1.same path))
      = (n.books.counts set).find? (fun e => decide (e.1.key = path.key)) := by
    simp only [books]
    cases n.pathSets[set]? with
    | none => rfl
    | some s => simp [Path.same, beq_eq_decide]
  have hcount : Tally.count Path.key (n.books.counts set) path.key
      = (((n.books.counts set).find? (fun e => decide (e.1.key = path.key))).map (·.2)).getD 0 := rfl
  rw [hentries]
  cases hfound : (n.books.counts set).find? (fun e => decide (e.1.key = path.key)) with
  | none =>
    refine .of_pure ⟨.refl n, ?_⟩
    rw [hfound] at hcount
    have hsame : Books.uncounting path (n.books.counts set) = n.books.counts set := by
      rw [Books.uncounting, if_neg (by simp [hcount])]
      exact List.filter_eq_self.mpr fun e he => by simpa using List.find?_eq_none.mp hfound e he
    rw [Books.modifyCounts, hsame, Function.update_eq_self]
  | some entry =>
    obtain ⟨p, count⟩ := entry
    rw [hfound] at hcount
    dsimp only
    split
    · next hlt =>
      refine .of_modify ⟨n.persists_modifyPaths set _, (books_modifyPaths hset _).trans ?_⟩
      simp only [Books.modifyCounts, Books.uncounting, hcount]
      rw [if_pos (by simpa using hlt)]
      simp [Tally.change, Path.same]
    · next hlt =>
      refine .modify_bind ?_
      refine (quietly_emit hhost (.paths set) .changed _).weaken fun _ n' hs => ?_
      refine ⟨(n.persists_modifyPaths set _).trans hs.toPersists,
        hs.books.trans ((books_modifyPaths hset _).trans ?_)⟩
      simp only [Books.modifyCounts, Books.uncounting, hcount]
      rw [if_neg (by simpa using hlt)]
      simp [Path.same, beq_eq_decide]

theorem quietly_addLayer (l : Nat) (t : Transformation N) : Quietly (addLayer host l t) :=
  .modify_bind (fun _ => .of_tables rfl rfl rfl rfl rfl rfl rfl (fun _ _ h => h) fun _ h => h) (quietly_emit hhost _ _)

theorem quietly_removeLayer (l : Nat) (t : Transformation N) : Quietly (removeLayer host l t) :=
  .get_bind fun n => by
    split
    · exact .of_pure _
    · split
      · exact .modify_bind (fun _ => .of_tables rfl rfl rfl rfl rfl rfl rfl (fun _ _ h => h) fun _ h => h)
          (quietly_emit hhost _ _)
      · exact .of_pure _

/-- A node is registered. -/
theorem books_register (key : NodeKey) (l : Nat) :
    Leads False (register host key l) n fun _ n' => n.Persists n' ∧ n'.books = n.books.register key := by
  refine .modify_bind (.get_bind ?_)
  refine (Quietly.forM (fun x => ?_) _ _).weaken
    fun _ n' hs => ⟨⟨hs.kind, hs.there, hs.collections, hs.sets⟩, hs.books.trans ?_⟩
  · exact quietly_addLayer hhost l x.1.transformation
  simp [books, Books.register]

/-- A behavior is counted once more. -/
theorem books_installOne (x : Behavior N) : Leads False (installOne host x) n fun _ n' =>
    n.Persists n' ∧ n'.books = { n.books with installed := Books.installOne x n.books.installed } := by
  have hpersists : n.Persists (n.withBehaviors (Books.installOne x n.installed) n.registrations) :=
    ⟨fun _ _ h => h, fun _ h => h, le_rfl, le_rfl⟩
  refine .congr ?_ (installOne_eq host x n)
  refine .modify_bind ?_
  split
  · refine (Quietly.forM (fun l => quietly_addLayer hhost l x.transformation) _ _).weaken
      fun _ n' hs => ⟨hpersists.trans hs.toPersists, hs.books⟩
  · exact .of_pure ⟨hpersists, rfl⟩

/-- A behavior is counted once less. -/
theorem books_uninstallOne (hsound : Tally.Sound Behavior.mark n.books.installed) (x : Behavior N) :
    Leads False (uninstallOne host x) n fun _ n' =>
      n.Persists n' ∧ n'.books = { n.books with installed := Books.uninstallOne x n.books.installed } := by
  have hpersists : n.Persists (n.withBehaviors (Books.uninstallOne x n.installed) n.registrations) :=
    ⟨fun _ _ h => h, fun _ h => h, le_rfl, le_rfl⟩
  refine .congr ?_ (uninstallOne_eq host hsound x)
  refine .modify_bind ?_
  split
  · refine (Quietly.forM (fun l => quietly_removeLayer hhost l x.transformation) _ _).weaken
      fun _ n' hs => ⟨hpersists.trans hs.toPersists, hs.books⟩
  · exact .of_pure ⟨hpersists, rfl⟩

theorem books_install (xs : List (Behavior N)) : ∀ {n : Network N A σ},
    Leads False (install host xs) n fun _ n' => n.Persists n' ∧ n'.books = { n.books with
      installed := xs.foldl (fun installed x => Books.installOne x installed) n.books.installed } := by
  induction xs with
  | nil => exact fun {n} => .of_pure ⟨.refl n, rfl⟩
  | cons x xs ih =>
    intro n
    rw [install, List.forM_eq_forM, List.forM_cons]
    refine (books_installOne hhost x).bind fun _ n₁ ⟨hp, hb⟩ => ?_
    refine (@ih n₁).weaken fun _ n' ⟨hp', hb'⟩ => ⟨hp.trans hp', hb'.trans ?_⟩
    rw [hb]
    rfl

theorem books_uninstall (xs : List (Behavior N)) {declared : List (Behavior N)} :
    ∀ {n : Network N A σ}, Books.Declares n.books.installed (xs ++ declared) →
      Leads False (uninstall host xs) n fun _ n' => n.Persists n' ∧ n'.books = { n.books with
        installed := xs.foldl (fun installed x => Books.uninstallOne x installed) n.books.installed } := by
  induction xs with
  | nil => exact fun {n} _ => .of_pure ⟨.refl n, rfl⟩
  | cons x xs ih =>
    intro n hdeclares
    rw [uninstall, List.forM_eq_forM, List.forM_cons]
    refine (books_uninstallOne hhost hdeclares.1 x).bind fun _ n₁ ⟨hp, hb⟩ => ?_
    refine (@ih n₁ ?_).weaken fun _ n' ⟨hp', hb'⟩ => ⟨hp.trans hp', hb'.trans ?_⟩
    · rw [hb]
      exact Books.Declares.uninstallOne hdeclares
    · rw [hb]
      rfl

end Entries

/-! ## Asking for parts -/

/-- A subgraph gets more nodes and collections, and keeps those that it has. -/
structure Subgraph.Gains (g g' : Subgraph N) : Prop where
  stat : g'.stat = g.stat
  paths : g'.paths = g.paths
  modifierCount : g'.modifierCount = g.modifierCount
  nodes : ∀ e ∈ g.nodes, e ∈ g'.nodes
  forms : ∀ e ∈ g.forms, e ∈ g'.forms

theorem Subgraph.Gains.refl (g : Subgraph N) : g.Gains g := ⟨rfl, rfl, rfl, fun _ h => h, fun _ h => h⟩

theorem Subgraph.Gains.trans {g g' g'' : Subgraph N} (h : g.Gains g') (h' : g'.Gains g'') :
    g.Gains g'' where
  stat := h'.stat.trans h.stat
  paths := h'.paths.trans h.paths
  modifierCount := h'.modifierCount.trans h.modifierCount
  nodes e he := h'.nodes e (h.nodes e he)
  forms e he := h'.forms e (h.forms e he)

/-- Stats stay on the list of the hosts, and stats that get a subgraph are on it if they are to be. -/
structure Enlists (n n' : Network N A σ) : Prop where
  listed : n.books.listed ⊆ n'.books.listed
  made : ∀ id ∈ n'.live, ∀ g' : Subgraph N, n'.graphs[id]? = some g' →
    (id ∈ n.live ∧ ∃ g : Subgraph N, n.graphs[id]? = some g ∧ g.stat = g'.stat)
      ∨ (g'.stat.listed = true → ∃ x ∈ n'.books.listed, x.1.key = g'.stat.key)

namespace Enlists

variable {n' n'' : Network N A σ}

theorem refl (n : Network N A σ) : n.Enlists n :=
  ⟨List.Subset.refl _, fun _ hid g hg => .inl ⟨hid, g, hg, rfl⟩⟩

theorem trans (h : n.Enlists n') (h' : n'.Enlists n'') : n.Enlists n'' where
  listed := List.Subset.trans h.listed h'.listed
  made id hid g'' hg'' := by
    obtain ⟨hid', g', hg', hstat'⟩ | hlisted := h'.made id hid g'' hg''
    · obtain ⟨hid, g, hg, hstat⟩ | hlisted := h.made id hid' g' hg'
      · exact .inl ⟨hid, g, hg, hstat.trans hstat'⟩
      · refine .inr fun h => ?_
        rw [← hstat'] at h ⊢
        obtain ⟨x, hx, hkey⟩ := hlisted h
        exact ⟨x, h'.listed hx, hkey⟩
    · exact .inr hlisted

/-- No stat gets a subgraph. -/
theorem of_graphs (hlive : n'.live = n.live) {id : Nat} {f : Subgraph N → Subgraph N}
    (hgraphs : n'.graphs = n.graphs.modify id f) (hstat : ∀ g : Subgraph N, (f g).stat = g.stat)
    (hlisted : n.books.listed ⊆ n'.books.listed) : n.Enlists n' where
  listed := hlisted
  made i hi g' hg' := by
    rw [hgraphs, Array.getElem?_modify] at hg'
    refine .inl ⟨hlive ▸ hi, ?_⟩
    split at hg'
    · obtain ⟨g, hg, rfl⟩ := Option.map_eq_some_iff.mp hg'
      exact ⟨g, hg, (hstat g).symm⟩
    · exact ⟨g', hg', rfl⟩

/-- Stats are listed, and no stat gets a subgraph. -/
theorem of_tables (hlive : n'.live = n.live) (hgraphs : n'.graphs = n.graphs)
    (hlisted : n.books.listed ⊆ n'.books.listed) : n.Enlists n' where
  listed := hlisted
  made _ hid g hg := .inl ⟨hlive ▸ hid, g, hgraphs ▸ hg, rfl⟩

end Enlists

/-- Subgraphs in use stay in use, and keep what they have. No member comes or goes, so collections that
are new have none. -/
structure Gains (n n' : Network N A σ) : Prop extends n.Persists n', n.Enlists n' where
  live : ∀ id ∈ n.live, id ∈ n'.live
  graph : ∀ (id : Nat) (g : Subgraph N), n.graphs[id]? = some g →
    ∃ g' : Subgraph N, n'.graphs[id]? = some g' ∧ g.Gains g'
  items : n'.books.items = n.books.items
  new : ∀ id ∈ n'.live, ∀ g' : Subgraph N, n'.graphs[id]? = some g' → ∀ e ∈ g'.forms,
    (id ∈ n.live ∧ ∃ g : Subgraph N, n.graphs[id]? = some g ∧ e ∈ g.forms)
      ∨ n.books.items e.collection = []

namespace Gains

variable {n' n'' : Network N A σ}

theorem refl (n : Network N A σ) : n.Gains n where
  toPersists := .refl n
  toEnlists := .refl n
  live _ h := h
  graph _ g h := ⟨g, h, .refl g⟩
  items := rfl
  new _ hid g hg _ he := .inl ⟨hid, g, hg, he⟩

theorem trans (h : n.Gains n') (h' : n'.Gains n'') : n.Gains n'' where
  toPersists := h.toPersists.trans h'.toPersists
  toEnlists := h.toEnlists.trans h'.toEnlists
  live id hid := h'.live id (h.live id hid)
  graph id g hg := by
    obtain ⟨g', hg', hgains⟩ := h.graph id g hg
    obtain ⟨g'', hg'', hgains'⟩ := h'.graph id g' hg'
    exact ⟨g'', hg'', hgains.trans hgains'⟩
  items := h'.items.trans h.items
  new id hid g'' hg'' e he := by
    obtain ⟨hid', g', hg', he'⟩ | hempty := h'.new id hid g'' hg'' e he
    · exact h.new id hid' g' hg' e he'
    · exact .inr (h.items ▸ hempty)

/-- Stats are listed, and nothing else is written. -/
theorem of_listed (hp : n.Persists n') {listed : List (Stat N × Nat)}
    (hbooks : n'.books = { n.books with listed }) (hsubset : n.books.listed ⊆ listed) : n.Gains n' where
  toPersists := hp
  toEnlists := .of_tables (congrArg Books.live hbooks) (congrArg Books.graphs hbooks) (hbooks ▸ hsubset)
  live id hid := by
    have hlive : n'.live = n.live := congrArg Books.live hbooks
    exact hlive ▸ hid
  graph id g hg := by
    have hgraphs : n'.graphs = n.graphs := congrArg Books.graphs hbooks
    exact ⟨g, hgraphs ▸ hg, .refl g⟩
  items := (congrArg Books.items hbooks).trans rfl
  new id hid g hg e he := by
    have hlive : n'.live = n.live := congrArg Books.live hbooks
    have hgraphs : n'.graphs = n.graphs := congrArg Books.graphs hbooks
    exact .inl ⟨hlive ▸ hid, g, hgraphs ▸ hg, he⟩

theorem of_sameBooks (h : n.SameBooks n') : n.Gains n' :=
  .of_listed h.toPersists h.books (List.Subset.refl _)

/-- A subgraph that gets more loses nothing. -/
theorem of_modifyGraph (hp : n.Persists n') {id : Nat} {f : Subgraph N → Subgraph N}
    (hlive : n'.live = n.live) (hgraphs : n'.graphs = n.graphs.modify id f)
    (hgains : ∀ g : Subgraph N, g.Gains (f g)) (hitems : n'.books.items = n.books.items)
    (hlisted : n.books.listed ⊆ n'.books.listed)
    (hnew : ∀ g, ∀ e ∈ (f g).forms, e ∈ g.forms ∨ n.books.items e.collection = []) :
    n.Gains n' where
  toPersists := hp
  toEnlists := .of_graphs hlive hgraphs (fun g => (hgains g).stat) hlisted
  live _ hid := hlive ▸ hid
  graph i g hg := by
    rw [hgraphs, Array.getElem?_modify, hg]
    split
    · exact ⟨f g, rfl, hgains g⟩
    · exact ⟨g, rfl, .refl g⟩
  items := hitems
  new i hi g' hg' e he := by
    rw [hlive] at hi
    rw [hgraphs, Array.getElem?_modify] at hg'
    split at hg'
    · obtain ⟨g, hg, rfl⟩ := Option.map_eq_some_iff.mp hg'
      exact (hnew g e he).imp_left fun he => ⟨hi, g, hg, he⟩
    · exact .inl ⟨hi, g', hg', he⟩

end Gains

/-- A subgraph in use belongs to a stat. -/
def Owns (n : Network N A σ) (key : StatKey) (id : Nat) : Prop :=
  id ∈ n.live ∧ ∃ g, n.graphs[id]? = some g ∧ g.stat.key = key

theorem Gains.owns {n' : Network N A σ} (h : n.Gains n') {key : StatKey} {id : Nat}
    (hid : n.Owns key id) : n'.Owns key id := by
  obtain ⟨hlive, g, hg, hkey⟩ := hid
  obtain ⟨g', hg', hgains⟩ := h.graph id g hg
  exact ⟨h.live id hlive, g', hg', hgains.stat ▸ hkey⟩

theorem Quietly.gains {α : Type} {run : Run N A σ α} (hrun : Quietly run) (h : n.Bookkept) :
    Leads False run n fun _ n' => n'.Bookkept ∧ n.Gains n' :=
  (hrun.bookkept h).weaken fun _ _ ⟨hb, hs⟩ => ⟨hb, .of_sameBooks hs⟩

section Requests

variable {host : Host N A σ} (hhost : host.Harmless)
include hhost

namespace Bookkept

/-- Asking a subgraph for the nodes of a stage on a path keeps the books. -/
theorem nodesIn (h : n.Bookkept) {id : Nat} (hid : id ∈ n.live) (stage : Stage)
    (path : Path (Stat N)) : Leads False (nodesIn host id stage path) n fun _ n' =>
      n'.Bookkept ∧ n.Gains n' := by
  refine .get_bind ?_
  dsimp only
  cases hg : n.graphs[id]? with
  | none => exact Quietly.of_exhausted.gains h
  | some g =>
    have hmem := mem_inUse hid hg
    dsimp only
    cases hfound : g.nodesAt? stage (stagePath stage path) with
    | some e => exact .of_pure ⟨h, .refl n⟩
    | none =>
      refine (quietly_addLayered _ n).bind fun layered n₁ hs₁ => ?_
      refine (quietly_addLayeredFormula layered _ n₁).bind fun formula n₂ hs₂ => ?_
      refine (quietly_addCached formula _ n₂).bind fun cached n₃ hs₃ => ?_
      refine (quietly_addExposed cached n₃).bind fun exposed n₄ hs₄ => ?_
      have hs : n.SameBooks n₄ := ((hs₁.trans hs₂).trans hs₃).trans hs₄
      let e : NodeEntry N := ⟨stage, stagePath stage path, formula, cached, exposed⟩
      have hnew : (e.stage, e.path.key) ∉ g.nodes.map fun e => (e.stage, e.path.key) := by
        intro hin
        obtain ⟨x, hx, heq⟩ := List.mem_map.mp hin
        have := List.find?_eq_none.mp hfound x hx
        simp_all [Path.same, e]
      have honce : stagePath e.stage e.path = e.path := by
        simp only [e, stagePath]
        split <;> rfl
      -- the nodes are written down, their path is counted, and they are registered
      refine .modify_bind ?_
      have hset : g.paths < (n₄.modifyGraph id (Registry.addNodes e)).pathSets.size :=
        (h.sets_lt g hmem).trans_le hs.sets
      have hdone {n₆ n₇ : Network N A σ} (hp : (n₄.modifyGraph id (Registry.addNodes e)).Persists n₆)
          (hb : n₆.books = (n₄.modifyGraph id (Registry.addNodes e)).books.modifyCounts g.paths
            fun entries => if e.stage.perPath then Registry.counting e.path entries else entries)
          (hp' : n₆.Persists n₇) (hb' : n₇.books = n₆.books.register ⟨g.stat.key, stage, e.path.key⟩) :
          n₇.Bookkept ∧ n.Gains n₇ := by
        have hpersists : n.Persists n₇ :=
          ((hs.toPersists.trans (n₄.persists_modifyGraph _ _)).trans hp).trans hp'
        have hbooks : n₇.books = ((n.books.modifyGraph id (Registry.addNodes e)).modifyCounts g.paths
            fun entries => if e.stage.perPath then Registry.counting e.path entries else entries).register
              ⟨g.stat.key, e.stage, e.path.key⟩ := by
          rw [hb', hb, books_modifyGraph, hs.books]
        have hlive : n₇.live = n.live := congrArg Books.live hbooks
        have hgraphs : n₇.graphs = n.graphs.modify id (Registry.addNodes e) :=
          congrArg Books.graphs hbooks
        refine ⟨h.of_modifyGraph hpersists (h.balanced.addNodes hid hg hnew honce hbooks) hlive hgraphs
          (fun _ => rfl) (fun g e' he' => .inl ⟨e', he', rfl⟩) fun c => ?_,
          .of_modifyGraph hpersists hlive hgraphs
            (fun _ => ⟨rfl, rfl, rfl, fun _ he => List.mem_append_left _ he, fun _ he => he⟩)
            ((congrArg Books.items hbooks).trans rfl) (hbooks ▸ List.Subset.refl _) fun _ _ he => .inl he⟩
        rw [hbooks]
        exact (h.aligned c).imp fun _ _ => Pairs.mono hpersists
      split
      · next hper =>
        refine (books_addPath hhost hset e.path).bind fun _ n₆ hadded => ?_
        obtain ⟨hp, hb⟩ := hadded
        refine (books_register hhost _ _).bind fun _ n₇ h' => .of_pure (hdone hp ?_ h'.1 h'.2)
        simp only [hb, e, hper, if_true]
      · next hper =>
        refine (books_register hhost _ _).bind fun _ n₇ h' =>
          .of_pure (hdone (.refl _) ?_ h'.1 h'.2)
        simp only [e, hper, Books.modifyCounts, if_false, Function.update_eq_self, Bool.false_eq_true]

omit hhost in
/-- The subgraph that is found for a stat. -/
theorem owns_of_graph? {key : StatKey} {id : Nat} (h : n.graph? key = some id) : n.Owns key id := by
  have hlive := List.mem_of_find?_eq_some h
  have hkey := List.find?_some h
  cases hg : n.graphs[id]? with
  | none => simp [hg] at hkey
  | some g => exact ⟨hlive, g, hg, by simpa [hg] using hkey⟩

omit hhost in
/-- Subgraphs in use belong to different stats. -/
theorem graph?_eq (h : n.Bookkept) {key : StatKey} {id : Nat} (hid : n.Owns key id) :
    n.graph? key = some id := by
  obtain ⟨hlive, g, hg, hkey⟩ := hid
  cases hfound : n.graph? key with
  | none =>
    have := List.find?_eq_none.mp hfound id hlive
    simp [hg, hkey] at this
  | some other =>
    obtain ⟨hlive', g', hg', hkey'⟩ := owns_of_graph? hfound
    exact congrArg some (h.balanced.eq_of_key hlive' hg' hlive hg (hkey'.trans hkey.symm))

omit hhost in
theorem mem_inUse_of_graph?_none {key : StatKey} (h : n.graph? key = none) :
    ∀ g ∈ n.books.inUse, g.stat.key ≠ key := by
  intro g hg heq
  obtain ⟨id, hid, hgraph⟩ := Books.mem_inUse_iff.mp hg
  have hgraph : n.graphs[id]? = some g := hgraph
  have := List.find?_eq_none.mp h id hid
  simp [hgraph, heq] at this

/-- Making a subgraph keeps the books, and nothing is lost once the stat is listed. -/
theorem addGraph (h : n.Bookkept) {stat : Stat N} (hnew : n.graph? stat.key = none) :
    Leads False (do
      let id ← Network.addGraph stat
      install host stat.behaviors
      pure id) n fun id n' => n'.Bookkept ∧ n'.Owns stat.key id
        ∧ ∀ m, n'.Gains m → (stat.listed = true → ∃ x ∈ m.books.listed, x.1.key = stat.key) →
          n.Gains m := by
  refine .eq_bind (addGraph_eq n stat) ?_
  refine (books_install hhost stat.behaviors).bind fun _ n' ⟨hp, hb⟩ => .of_pure ?_
  have hgraph : n.Persists (n.withGraph stat) :=
    ⟨fun _ _ h => h, fun _ h => h, le_rfl, by simp [Network.withGraph]⟩
  have hpersists := hgraph.trans hp
  have hcounts : (n.withGraph stat).books.counts = n.books.counts := by
    funext set
    simp only [books, Network.withGraph, Array.getElem?_push]
    split
    · next heq => subst heq; simp
    · rfl
  -- installing behaviors touches no other page of the books
  have hbooks : n'.books = { n.books.addGraph stat n.pathSets.size with
      installed := stat.behaviors.foldl (fun installed x => Books.installOne x installed)
        n.books.installed } := by
    rw [hb]
    exact congrArg (fun counts => { n.books.addGraph stat n.pathSets.size with
      counts
      installed := stat.behaviors.foldl (fun installed x => Books.installOne x installed)
        n.books.installed }) hcounts
  have hlive : n'.live = n.live ++ [n.graphs.size] := congrArg Books.live hbooks
  have hgraphs : n'.graphs = n.graphs.push ⟨stat, [], [], 0, n.pathSets.size⟩ :=
    congrArg Books.graphs hbooks
  have hset : n.books.counts n.pathSets.size = [] := by simp [books]
  have hbalanced := h.balanced.addGraph (mem_inUse_of_graph?_none hnew)
    (fun g hg => Nat.ne_of_lt (h.sets_lt g hg)) hset hbooks
  have huse : n'.books.inUse = n.books.inUse ++ [⟨stat, [], [], 0, n.pathSets.size⟩] :=
    hbooks ▸ Books.inUse_addGraph h.balanced.live_lt stat n.pathSets.size
  have hold {id : Nat} {g : Subgraph N} (hid : id ∈ n'.live) (hg : n'.graphs[id]? = some g) :
      id ∈ n.live ∧ n.graphs[id]? = some g ∨ g = ⟨stat, [], [], 0, n.pathSets.size⟩ := by
    rw [hgraphs, Array.getElem?_push] at hg
    split at hg
    · exact .inr (Option.some.inj hg).symm
    · rw [hlive, List.mem_append, List.mem_singleton] at hid
      exact .inl ⟨hid.resolve_right ‹_›, hg⟩
  have hkept {id : Nat} {g : Subgraph N} (hg : n.graphs[id]? = some g) : n'.graphs[id]? = some g := by
    have hlt : id < n.graphs.size := (Array.getElem?_eq_some_iff.mp hg).1
    rwa [hgraphs, Array.getElem?_push, if_neg (Nat.ne_of_lt hlt)]
  have hitems : n'.books.items = n.books.items := (congrArg Books.items hbooks).trans rfl
  refine ⟨⟨hbalanced, fun g hg => ?_, fun g hg e he => ?_, fun c => ?_⟩,
    ⟨?_, ⟨stat, [], [], 0, n.pathSets.size⟩, ?_, rfl⟩, fun m hm hlisted => ?_⟩
  · rw [huse, List.mem_append, List.mem_singleton] at hg
    rcases hg with hg | rfl
    · exact (h.sets_lt g hg).trans_le hpersists.sets
    · exact lt_of_lt_of_le (by simp [Network.withGraph]) hp.sets
  · rw [huse, List.mem_append, List.mem_singleton] at hg
    rcases hg with hg | rfl
    · exact (h.collections_lt g hg e he).trans_le hpersists.collections
    · cases he
  · rw [hbooks]
    exact (h.aligned c).imp fun _ _ => Pairs.mono hpersists
  · rw [hlive]
    simp
  · rw [hgraphs]
    simp
  · refine ⟨hpersists.trans hm.toPersists, ⟨?_, fun id hid g'' hg'' => ?_⟩, fun id hid => ?_,
      fun id g hg => hm.graph id g (hkept hg), hm.items.trans hitems, fun id hid g'' hg'' e he => ?_⟩
    · exact List.Subset.trans (hbooks ▸ List.Subset.refl _) hm.listed
    · obtain ⟨hid', g', hg', hstat⟩ | hlisted := hm.made id hid g'' hg''
      · obtain ⟨hid, hg⟩ | rfl := hold hid' hg'
        · exact .inl ⟨hid, g', hg, hstat⟩
        · exact .inr (hstat ▸ hlisted)
      · exact .inr hlisted
    · exact hm.live id (hlive ▸ List.mem_append_left _ hid)
    · obtain ⟨hid', g', hg', he'⟩ | hempty := hm.new id hid g'' hg'' e he
      · obtain ⟨hid, hg⟩ | rfl := hold hid' hg'
        · exact .inl ⟨hid, g', hg, he'⟩
        · cases he'
      · exact .inr (hitems ▸ hempty)

/-- Asking for the subgraph of a stat keeps the books. -/
theorem graphWithin (stat : Stat N) : ∀ (fuel : Nat) {n : Network N A σ}, n.Bookkept →
    Leads False (graphWithin host fuel stat) n fun id n' =>
      n'.Bookkept ∧ n.Gains n' ∧ n'.Owns stat.key id
  | 0, _, _ => ⟨False.elim, nofun⟩
  | fuel + 1, n, h => by
    refine .get_bind ?_
    cases hfound : n.graph? stat.key with
    | some id => exact .of_pure ⟨h, .refl n, owns_of_graph? hfound⟩
    | none =>
      have hlist (id : Nat) {n₁ : Network N A σ} (h₁ : n₁.Bookkept) (ho₁ : n₁.Owns stat.key id)
          (hg₁ : ∀ m, n₁.Gains m → (stat.listed = true → ∃ x ∈ m.books.listed, x.1.key = stat.key) →
            n.Gains m) : Leads False (do
            if stat.listed then
              let total ← Network.nodesIn host (← Network.graphWithin host fuel stat) .total Path.main
              list host stat total.cached
            pure id) n₁ fun id n' => n'.Bookkept ∧ n.Gains n' ∧ n'.Owns stat.key id := by
        split
        · refine (graphWithin stat fuel h₁).bind fun other n₂ ⟨h₂, hg₂, ho₂⟩ => ?_
          refine (nodesIn hhost h₂ ho₂.1 .total Path.main).bind fun total n₃ ⟨h₃, hg₃⟩ => ?_
          refine (books_list hhost stat total.cached n₃).bind fun _ n₄ hlisted => .of_pure ?_
          obtain ⟨hp, listed, hbooks, hsubset, hmem⟩ := hlisted
          have hg₄ := Gains.of_listed hp hbooks hsubset
          have hg := (hg₂.trans hg₃).trans hg₄
          exact ⟨h₃.of_listed hp hbooks, hg₁ n₄ hg fun _ => hbooks ▸ hmem, hg.owns ho₁⟩
        · next hnot => exact .of_pure ⟨h₁, hg₁ n₁ (.refl n₁) fun h => absurd h hnot, ho₁⟩
      have hmade := (addGraph hhost h hfound).bind fun id n₁ ⟨h₁, ho₁, hg₁⟩ => hlist id h₁ ho₁ hg₁
      exact hmade.congr (by simp only [bind_assoc, pure_bind])

/-- Asking for the subgraph of a stat keeps the books. -/
theorem graphOf (h : n.Bookkept) (stat : Stat N) : Leads False (graphOf host stat) n fun id n' =>
    n'.Bookkept ∧ n.Gains n' ∧ n'.Owns stat.key id := .get_bind (graphWithin hhost stat _ h)

/-- Asking for the nodes of a stage of a stat keeps the books. -/
theorem nodesOf (h : n.Bookkept) (stat : Stat N) (stage : Stage) (path : Path (Stat N)) :
    Leads False (nodesOf host stat stage path) n fun _ n' => n'.Bookkept ∧ n.Gains n' :=
  (graphOf hhost h stat).bind fun _ _ ⟨h₁, hg₁, ho₁⟩ =>
    (nodesIn hhost h₁ ho₁.1 stage path).weaken fun _ _ ⟨h₂, hg₂⟩ => ⟨h₂, hg₁.trans hg₂⟩

/-- Asking for the paths of a stat keeps the books. -/
theorem pathSetOf (h : n.Bookkept) (stat : Stat N) : Leads False (pathSetOf host stat) n fun _ n' =>
    n'.Bookkept ∧ n.Gains n' := by
  refine (graphOf hhost h stat).bind fun id n₁ ⟨h₁, hg₁, _⟩ => .get_bind ?_
  cases n₁.graphs[id]? with
  | none => exact ⟨False.elim, nofun⟩
  | some g => exact .of_pure ⟨h₁, hg₁⟩

/-- Asking for a collection of a stat keeps the books. -/
theorem collectionOf (h : n.Bookkept) (stat : Stat N) (form : Form) (path : Path (Stat N)) :
    Leads False (collectionOf host stat form path) n fun e n' => n'.Bookkept ∧ n.Gains n'
      ∧ ∃ id g, n'.Owns stat.key id ∧ n'.graphs[id]? = some g ∧ e ∈ g.forms := by
  refine (graphOf hhost h stat).bind fun id n₁ hfound => .get_bind ?_
  obtain ⟨h₁, hg₁, ho₁⟩ := hfound
  have howns := ho₁
  obtain ⟨hlive₁, g, hg, -⟩ := howns
  have hmem := mem_inUse hlive₁ hg
  rw [hg]
  dsimp only
  cases hfound : g.collectionAt? form path with
  | some e => exact .of_pure ⟨h₁, hg₁, id, g, ho₁, hg, List.mem_of_find?_eq_some hfound⟩
  | none =>
    refine .eq_bind (addCollection_eq n₁) ?_
    refine (quietly_addAggregate _ _ _).bind fun aggregate n₂ hs₂ => ?_
    have hs : n₁.SameBooks n₂ := (n₁.sameBooks_addCollection).trans hs₂
    let e : FormEntry N := ⟨form, path, n₁.collections.size, aggregate⟩
    -- nothing was filed for the form on the path
    have hnew : (e.form, e.path.key) ∉ g.forms.map fun e => (e.form, e.path.key) := by
      intro hin
      obtain ⟨x, hx, heq⟩ := List.mem_map.mp hin
      have := List.find?_eq_none.mp hfound x hx
      simp_all [Path.same, e]
    have hfresh : ∀ g' ∈ n₁.books.inUse, ∀ e' ∈ g'.forms, e'.collection ≠ e.collection :=
      fun g' hg' e' he' => Nat.ne_of_lt (h₁.collections_lt g' hg' e' he')
    refine .modify_bind ?_
    have hset : g.paths < (n₂.modifyGraph id (Registry.addCollection e)).pathSets.size :=
      (h₁.sets_lt g hmem).trans_le hs.sets
    refine (books_addPath hhost hset path).bind fun _ n₃ hadded => .of_pure ?_
    obtain ⟨hp, hb⟩ := hadded
    have hpersists := (hs.toPersists.trans (n₂.persists_modifyGraph _ _)).trans hp
    have hbooks : n₃.books = (n₁.books.modifyGraph id (Registry.addCollection e)).modifyCounts g.paths
        (Registry.counting e.path) := by
      rw [hb, books_modifyGraph, hs.books]
    have hlive : n₃.live = n₁.live := congrArg Books.live hbooks
    have hgraphs : n₃.graphs = n₁.graphs.modify id (Registry.addCollection e) :=
      congrArg Books.graphs hbooks
    have hempty : n₁.books.items e.collection = [] := by simp [books, e]
    -- the collection is empty, so no modifier came with it
    have hgains : n₁.Gains n₃ := .of_modifyGraph hpersists hlive hgraphs
      (fun _ => ⟨rfl, rfl, rfl, fun _ he => he, fun _ he => List.mem_append_left _ he⟩)
      ((congrArg Books.items hbooks).trans rfl) (hbooks ▸ List.Subset.refl _) fun g e' he' => by
        obtain he' | he' := List.mem_append.mp he'
        · exact .inl he'
        · exact .inr (List.mem_singleton.mp he' ▸ hempty)
    refine ⟨h₁.of_modifyGraph hpersists (h₁.balanced.addForm hlive₁ hg hnew hfresh hempty hbooks) hlive
      hgraphs (fun _ => rfl) (fun g' e' he' => ?_) fun c => ?_, hg₁.trans hgains, id,
      Registry.addCollection e g, hgains.owns ho₁, ?_, ?_⟩
    · rcases List.mem_append.mp he' with he' | he'
      · exact .inl ⟨e', he', rfl⟩
      · rw [List.mem_singleton.mp he']
        exact .inr (lt_of_lt_of_le (by simp [Network.withCollection, e]) (hs₂.collections.trans hp.collections))
    · rw [hbooks]
      exact (h₁.aligned c).imp fun _ _ => Pairs.mono hpersists
    · rw [hgraphs, Array.getElem?_modify, if_pos rfl, hg]
      rfl
    · simp [Registry.addCollection, e]

end Bookkept

end Requests

/-! ## Members -/

theorem sameBooks_withMember (n : Network N A σ) (modifier : Modifier N) (label : String) :
    n.SameBooks (n.withMember modifier label) :=
  ((n.sameBooks_pushNode _).trans (sameBooks_pushHolding ..)).trans (sameBooks_pushNode ..)

theorem persists_modifyCollection (n : Network N A σ) (c : Nat)
    (f : Collection N A → Collection N A) : n.Persists (n.modifyCollection c f) :=
  ⟨fun _ _ h => h, fun _ h => h, by simp [modifyCollection], le_rfl⟩

/-- Other members, or other formula nodes. -/
theorem books_modifyCollection {c : Nat} (hc : c < n.collections.size)
    {f : Collection N A → Collection N A} (items : List (Nat × Modifier N) → List (Nat × Modifier N))
    (formulas : List (Modifier N × Nat) → List (Modifier N × Nat))
    (hitems : ∀ x, (f x).items = items x.items) (hformulas : ∀ x, (f x).formulas = formulas x.formulas) :
    (n.modifyCollection c f).books = (n.books.modifyItems c items).modifyFormulas c formulas := by
  simp only [books, modifyCollection, Books.modifyItems, Books.modifyFormulas]
  congr 1
  · funext i
    rw [Array.getElem?_modify, Function.update_apply]
    by_cases hi : i = c
    · subst hi
      simp [hc, hitems]
    · simp [hi, Ne.symm hi]
  · funext i
    rw [Array.getElem?_modify, Function.update_apply]
    by_cases hi : i = c
    · subst hi
      simp [hc, hformulas]
    · simp [hi, Ne.symm hi]

/-- Lists that are side by side stay so when each loses the first one for a modifier. -/
theorem Pairs.eraseP (modifier : Modifier N) {items : List (Nat × Modifier N)}
    {formulas : List (Modifier N × Nat)} (h : List.Forall₂ n.Pairs items formulas) :
    List.Forall₂ n.Pairs (items.eraseP (·.2.same modifier)) (formulas.eraseP (·.1.same modifier)) := by
  induction h with
  | nil => exact .nil
  | @cons item formula items formulas hpair hrest ih =>
    have heq := hpair.modifier
    simp only [List.eraseP_cons, ← heq]
    cases item.2.same modifier with
    | true => exact hrest
    | false => exact ih.cons hpair

/-- A collection that gets other members keeps the books, if its subgraph counts them and their
formula nodes are next to them. -/
theorem Bookkept.modifyMembers (h : n.Bookkept) {id : Nat} (hid : id ∈ n.live) {g : Subgraph N}
    (hg : n.graphs[id]? = some g) {e : FormEntry N} (he : e ∈ g.forms)
    (items : List (Nat × Modifier N) → List (Nat × Modifier N))
    (formulas : List (Modifier N × Nat) → List (Modifier N × Nat)) (count : Nat → Nat)
    (hcount : (n.books.items e.collection).length ≤ g.modifierCount →
      g.modifierCount + (items (n.books.items e.collection)).length
        = (n.books.items e.collection).length + count g.modifierCount)
    {n' : Network N A σ} (hp : n.Persists n')
    (hb : n'.books = ((n.books.modifyGraph id fun g => { g with modifierCount := count g.modifierCount
      }).modifyItems e.collection items).modifyFormulas e.collection formulas)
    (haligned : List.Forall₂ n'.Pairs (items (n.books.items e.collection))
      (formulas (n.books.formulas e.collection))) : n'.Bookkept ∧ n.Enlists n' := by
  have hlive : n'.live = n.live := congrArg Books.live hb
  have hgraphs : n'.graphs = n.graphs.modify id fun g =>
      { g with modifierCount := count g.modifierCount } := congrArg Books.graphs hb
  refine ⟨h.of_modifyGraph hp (h.balanced.modifyMembers hid hg he hcount ⟨formulas, hb⟩) hlive hgraphs
    (fun _ => rfl) (fun g e' he' => .inl ⟨e', he', rfl⟩) fun c => ?_,
    .of_graphs hlive hgraphs (fun _ => rfl) (hb ▸ List.Subset.refl _)⟩
  rw [hb]
  simp only [Books.modifyItems, Books.modifyFormulas, Books.modifyGraph]
  by_cases hc : c = e.collection
  · subst hc
    rw [Function.update_self, Function.update_self]
    exact haligned
  · rw [Function.update_of_ne hc, Function.update_of_ne hc]
    exact (h.aligned c).imp fun _ _ => Pairs.mono hp

/-- A subgraph that is in use is not made again. -/
theorem graphOf_eq_of_graph? (host : Host N A σ) {stat : Stat N} {id : Nat}
    (h : n.graph? stat.key = some id) : graphOf host stat n = some (id, n) := by
  rw [graphOf, get_bind_apply, graphWithin, get_bind_apply, h]
  rfl

/-- Nodes of a subgraph are not made again. -/
theorem nodesOf_eq_of_nodesAt? (host : Host N A σ) {stat : Stat N} {id : Nat} {g : Subgraph N}
    {stage : Stage} {path : Path (Stat N)} {e : NodeEntry N} (hid : n.graph? stat.key = some id)
    (hg : n.graphs[id]? = some g) (he : g.nodesAt? stage (stagePath stage path) = some e) :
    nodesOf host stat stage path n = some (e, n) := by
  rw [nodesOf, bind_apply (graphOf_eq_of_graph? host hid), nodesIn, get_bind_apply, hg]
  simp only [he]
  rfl

section Modifiers

variable {host : Host N A σ} (hhost : host.Harmless)
include hhost

namespace Bookkept

/-- Registering a modifier for a stat keeps the books. -/
theorem addModifierTo (h : n.Bookkept) (modifier : Modifier N) (stat : Stat N) :
    Leads False (addModifierTo host modifier stat) n fun _ n' => n'.Bookkept ∧ n.Enlists n' := by
  refine (collectionOf hhost h stat modifier.form modifier.path).bind
    fun e n₁ ⟨h₁, hg₁, id, g, ho₁, hg, he⟩ => ?_
  have hc : e.collection < n₁.collections.size :=
    h₁.collections_lt g (mem_inUse ho₁.1 hg) e he
  refine leads_addMemberCell (f := fun formula c =>
    { c with formulas := c.formulas ++ [(modifier, formula)] }) modifier (modifier.label stat) ?_
  have hs₂ := n₁.sameBooks_withMember modifier (modifier.label stat)
  have hcell := n₁.hasCell_withMember modifier (modifier.label stat)
  set n₂ := n₁.withMember modifier (modifier.label stat)
  rw [addMember, bind_assoc]
  refine .modify_bind ?_
  set n₃ := n₂.modifyCollection e.collection fun c =>
    { c with formulas := c.formulas ++ [(modifier, n₁.nodes.size)] }
  set n₄ := n₃.modifyCollection e.collection fun c =>
    { c with items := c.items ++ [(n₁.nodes.size + 2, modifier)] }
  have hp₃ := n₂.persists_modifyCollection e.collection fun c =>
    { c with formulas := c.formulas ++ [(modifier, n₁.nodes.size)] }
  have hp₄ := n₃.persists_modifyCollection e.collection fun c =>
    { c with items := c.items ++ [(n₁.nodes.size + 2, modifier)] }
  have hc₂ := hc.trans_le hs₂.collections
  have hb₃ : n₃.books = _ := n₂.books_modifyCollection hc₂ (fun items => items) (· ++ [(modifier, n₁.nodes.size)])
    (fun _ => rfl) fun _ => rfl
  have hb₄ : n₄.books = _ := n₃.books_modifyCollection (hc₂.trans_le hp₃.collections)
    (· ++ [(n₁.nodes.size + 2, modifier)]) (fun formulas => formulas) (fun _ => rfl) fun _ => rfl
  refine (quietly_emit hhost _ _ n₄).bind fun _ n₅ hs₅ => ?_
  have hb₅ : n₅.books = (n₁.books.modifyItems e.collection (· ++ [(n₁.nodes.size + 2, modifier)])).modifyFormulas
      e.collection (· ++ [(modifier, n₁.nodes.size)]) := by
    rw [hs₅.books, hb₄, hb₃, hs₂.books]
    simp [Books.modifyItems, Books.modifyFormulas]
  have hp₅ : n₂.Persists n₅ := (hp₃.trans hp₄).trans hs₅.toPersists
  -- the subgraph is still in use
  have hfound : n₅.graph? stat.key = some id := by
    have hlive : n₅.live = n₁.live := congrArg Books.live hb₅
    have hgraphs : n₅.graphs = n₁.graphs := congrArg Books.graphs hb₅
    rw [graph?, hlive, hgraphs]
    exact h₁.graph?_eq ho₁
  refine .eq_bind (graphOf_eq_of_graph? host hfound) (.of_modify ?_)
  refine And.imp_right hg₁.toEnlists.trans ?_
  refine h₁.modifyMembers ho₁.1 hg he (· ++ [(n₁.nodes.size + 2, modifier)])
    (· ++ [(modifier, n₁.nodes.size)]) (· + 1) (fun _ => ?_)
    ((hs₂.toPersists.trans hp₅).trans (n₅.persists_modifyGraph id _)) ?_ ?_
  · simp
    omega
  · rw [books_modifyGraph, hb₅]
    rfl
  · refine List.rel_append ((h₁.aligned e.collection).imp fun _ _ => Pairs.mono ?_) (.cons ?_ .nil)
    · exact (hs₂.toPersists.trans hp₅).trans (n₅.persists_modifyGraph id _)
    · exact ⟨rfl, n₁.nodes.size + 1, hp₅.kind _ _ hcell.exposed, hp₅.kind _ _ hcell.cached,
        hp₅.kind _ _ hcell.formula⟩

/-- Taking a modifier of a stat back keeps the books. -/
theorem removeModifierFrom (h : n.Bookkept) (modifier : Modifier N) (stat : Stat N) :
    Leads False (removeModifierFrom host modifier stat) n fun _ n' => n'.Bookkept ∧ n.Enlists n' := by
  refine .get_bind ?_
  cases hid : n.graph? stat.key with
  | none => exact .of_pure ⟨h, .refl n⟩
  | some id =>
    have ho := owns_of_graph? hid
    refine .get_bind ?_
    cases hentry : n.graphs[id]?.bind (·.collectionAt? modifier.form modifier.path) with
    | none => exact .of_pure ⟨h, .refl n⟩
    | some e =>
      obtain ⟨g, hg, hfound⟩ := Option.bind_eq_some_iff.mp hentry
      have he : e ∈ g.forms := List.mem_of_find?_eq_some hfound
      have hc : e.collection < n.collections.size := h.collections_lt g (mem_inUse ho.1 hg) e he
      dsimp only
      rw [removeMember, bind_assoc]
      refine .get_bind ?_
      have hitems : (n.collections[e.collection]?.bind fun c => c.items.find? (·.2.same modifier))
          = (n.books.items e.collection).find? (·.2.same modifier) := by
        simp only [books]
        cases n.collections[e.collection]? <;> rfl
      rw [hitems]
      cases hmember : (n.books.items e.collection).find? (·.2.same modifier) with
      | none => exact .of_pure ⟨h, .refl n⟩
      | some member =>
        obtain ⟨node, m⟩ := member
        dsimp only
        rw [bind_assoc]
        refine .modify_bind ?_
        have hp₁ := n.persists_modifyCollection e.collection fun c =>
          { c with items := c.items.eraseP (·.2.same modifier) }
        set n₁ := n.modifyCollection e.collection fun c =>
          { c with items := c.items.eraseP (·.2.same modifier) }
        have hb₁ : n₁.books = _ := n.books_modifyCollection hc (·.eraseP (·.2.same modifier))
          (fun formulas => formulas) (fun _ => rfl) fun _ => rfl
        rw [bind_assoc]
        -- whoever is told of the removal writes nothing down
        refine (quietly_emit hhost _ _ n₁).bind fun _ n₂ hs₂ => ?_
        rw [pure_bind]
        refine .modify_bind ?_
        have hp₃ := n₂.persists_modifyCollection e.collection fun c =>
          { c with formulas := c.formulas.eraseP (·.1.same modifier) }
        set n₃ := n₂.modifyCollection e.collection fun c =>
          { c with formulas := c.formulas.eraseP (·.1.same modifier) }
        have hb₃ : n₃.books = _ := n₂.books_modifyCollection
          ((hc.trans_le hp₁.collections).trans_le hs₂.collections) (fun items => items)
          (·.eraseP (·.1.same modifier)) (fun _ => rfl) fun _ => rfl
        refine (quietly_dispose hhost node n₃).bind fun _ n₄ hs₄ => .modify_bind (.of_pure ?_)
        have hp₄ : n.Persists n₄ := ((hp₁.trans hs₂.toPersists).trans hp₃).trans hs₄.toPersists
        have hp := hp₄.trans (n₄.persists_modifyGraph id fun g =>
          { g with modifierCount := g.modifierCount - 1 })
        refine h.modifyMembers ho.1 hg he (·.eraseP (·.2.same modifier))
          (·.eraseP (·.1.same modifier)) (· - 1) (fun hle => ?_) hp ?_ ?_
        · -- a member is erased, and it was counted
          have hmem := List.mem_of_find?_eq_some hmember
          have hpos := List.length_pos_of_mem hmem
          rw [List.length_eraseP_of_mem hmem (List.find?_some hmember)]
          omega
        · rw [books_modifyGraph, hs₄.books, hb₃, hs₂.books, hb₁]
          simp [Books.modifyItems, Books.modifyFormulas, Books.modifyGraph]
        · exact Pairs.eraseP modifier ((h.aligned e.collection).imp fun _ _ => Pairs.mono hp)

/-- Registering a modifier keeps the books. -/
theorem addModifier (h : n.Bookkept) (modifier : Modifier N) :
    Leads False (addModifier host modifier) n fun _ n' => n'.Bookkept ∧ n.Enlists n' :=
  .forM (I := fun n' => n'.Bookkept ∧ n.Enlists n') (fun stat _ _ h =>
    (addModifierTo hhost h.1 modifier stat).weaken fun _ _ => And.imp_right h.2.trans) ⟨h, .refl n⟩

/-- Taking a modifier back keeps the books. -/
theorem removeModifier (h : n.Bookkept) (modifier : Modifier N) :
    Leads False (removeModifier host modifier) n fun _ n' => n'.Bookkept ∧ n.Enlists n' := by
  have hall : Leads False (modifier.stats.mapM (Network.removeModifierFrom host modifier)) n fun rs n' =>
      List.Forall₂ (fun _ _ => True) modifier.stats rs ∧ n'.Bookkept ∧ n.Enlists n' :=
    .mapM (fun stat _ _ h => (removeModifierFrom hhost h.1 modifier stat).weaken
      fun _ _ h' => ⟨trivial, h'.1, h.2.trans h'.2⟩) ⟨h, .refl n⟩
  exact hall.bind fun _ _ ⟨_, h⟩ => .of_pure h

end Bookkept

end Modifiers

end StatEngine.Network
