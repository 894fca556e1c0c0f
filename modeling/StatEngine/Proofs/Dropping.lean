import StatEngine.Network.Prune
import StatEngine.Proofs.Bookkeeping

/-!
# Bookkeeping when parts are dropped

Nodes and collections that nobody listens to are dropped one by one, and the subgraph when nothing is
left of it. Each of them is crossed out in all books where it was written down, so that the books stay
balanced (`Bookkept`).

## Main statements

* `Bookkept.removeNodes` and `Bookkept.removeCollection`: dropping a part keeps the books;
* `Bookkept.dropEmpty`: so does dropping a subgraph;
* `Bookkept.removeUnused`: so does removing everything that is unused.
-/

namespace StatEngine.Network

variable {N A σ : Type} {n n' n'' : Network N A σ}

/-- One subgraph may have lost parts; the others are as they were. -/
structure Loses (n n' : Network N A σ) (id : Nat) : Prop where
  live : n'.live = n.live
  others : ∀ i ≠ id, n'.graphs[i]? = n.graphs[i]?
  graph : ∀ g : Subgraph N, n.graphs[id]? = some g →
    ∃ g' : Subgraph N, n'.graphs[id]? = some g' ∧ g'.stat = g.stat ∧ g'.paths = g.paths

namespace Loses

variable {id : Nat}

theorem of_sameBooks (h : n.SameBooks n') : n.Loses n' id := by
  have hlive : n'.live = n.live := congrArg Books.live h.books
  have hgraphs : n'.graphs = n.graphs := congrArg Books.graphs h.books
  exact ⟨hlive, fun i _ => hgraphs ▸ rfl, fun g hg => ⟨g, hgraphs ▸ hg, rfl, rfl⟩⟩

theorem refl (n : Network N A σ) : n.Loses n id := .of_sameBooks (.refl n)

theorem trans (h : n.Loses n' id) (h' : n'.Loses n'' id) : n.Loses n'' id where
  live := h'.live.trans h.live
  others i hi := (h'.others i hi).trans (h.others i hi)
  graph g hg := by
    obtain ⟨g', hg', hstat, hpaths⟩ := h.graph g hg
    obtain ⟨g'', hg'', hstat', hpaths'⟩ := h'.graph g' hg'
    exact ⟨g'', hg'', hstat'.trans hstat, hpaths'.trans hpaths⟩

theorem of_modifyGraph (hlive : n'.live = n.live) {f : Subgraph N → Subgraph N}
    (hgraphs : n'.graphs = n.graphs.modify id f) (hstat : ∀ g, (f g).stat = g.stat)
    (hpaths : ∀ g, (f g).paths = g.paths) : n.Loses n' id where
  live := hlive
  others i hi := by rw [hgraphs, Array.getElem?_modify, if_neg (Ne.symm hi)]
  graph g hg := by
    refine ⟨f g, ?_, hstat g, hpaths g⟩
    rw [hgraphs, Array.getElem?_modify, if_pos rfl, hg]
    rfl

end Loses

section Removal

variable {host : Host N A σ} (hhost : host.Harmless)
include hhost

namespace Bookkept

section Parts

variable (h : n.Bookkept) {id : Nat} (hid : id ∈ n.live) {g g₀ : Subgraph N}
  (hg : n.graphs[id]? = some g) (hstat : g₀.stat = g.stat) (hpaths : g₀.paths = g.paths)
include h hid hg hstat hpaths

/-- Dropping the nodes of a stage on a path keeps the books. -/
theorem removeNodes {e : NodeEntry N} (he : e ∈ g.nodes) :
    Leads False (removeNodes host id g₀ e) n fun _ n' => n'.Bookkept ∧ n'.books.items = n.books.items
      ∧ n'.live = n.live ∧ n'.graphs = n.graphs.modify id (Registry.dropNodes e) := by
  have hmem := mem_inUse hid hg
  refine .modify_bind ?_
  set n₁ := n.modifyGraph id (Registry.dropNodes e)
  refine (quietly_dispose hhost e.exposed n₁).bind fun _ n₂ hs₂ => .modify_bind ?_
  set n₃ : Network N A σ := { n₂ with
    registrations := n₂.registrations.filter (·.key != ⟨g₀.stat.key, e.stage, e.path.key⟩) }
  have hb₃ : n₃.books = (n.books.modifyGraph id (Registry.dropNodes e)).unregister
      ⟨g.stat.key, e.stage, e.path.key⟩ := by
    have hb₂ : n₂.books = n.books.modifyGraph id (Registry.dropNodes e) := hs₂.books
    have hfilter : n₃.books = n₂.books.unregister ⟨g₀.stat.key, e.stage, e.path.key⟩ := by
      simp only [books, Books.unregister, n₃, List.filter_map]
      rfl
    rw [hfilter, hb₂, hstat]
  have hp₃ : n.Persists n₃ := ((n.persists_modifyGraph id _).trans hs₂.toPersists).trans
    ⟨fun _ _ h => h, fun _ h => h, le_rfl, le_rfl⟩
  have hdone {n₄ : Network N A σ} (hp : n₃.Persists n₄) (hb : n₄.books
      = n₃.books.modifyCounts g.paths fun entries =>
        if e.stage.perPath then Books.uncounting e.path entries else entries) :
      n₄.Bookkept ∧ n₄.books.items = n.books.items ∧ n₄.live = n.live
        ∧ n₄.graphs = n.graphs.modify id (Registry.dropNodes e) := by
    rw [hb₃] at hb
    have hlive : n₄.live = n.live := congrArg Books.live hb
    have hgraphs : n₄.graphs = n.graphs.modify id (Registry.dropNodes e) := congrArg Books.graphs hb
    refine ⟨h.of_modifyGraph (hp₃.trans hp) (h.balanced.dropNodes hid hg he hb) hlive hgraphs
      (fun _ => rfl) (fun _ e' he' => .inl ⟨e', he', rfl⟩) fun c => ?_, by rw [hb]; rfl, hlive, hgraphs⟩
    rw [hb]
    exact (h.aligned c).imp fun _ _ => Pairs.mono (hp₃.trans hp)
  split
  · next hper =>
    refine (books_removePath hhost (hpaths ▸ (h.sets_lt g hmem).trans_le hp₃.sets) e.path).weaken
      fun _ n₄ hremoved => hdone hremoved.1 ?_
    rw [hremoved.2, hpaths]
    simp only [hper, if_true]
  · next hper =>
    refine .of_pure (hdone (.refl _) ?_)
    simp [hper, Books.modifyCounts]

omit hstat in
/-- Dropping a collection without members keeps the books. -/
theorem removeCollection {e : FormEntry N} (he : e ∈ g.forms)
    (hempty : n.books.items e.collection = []) :
    Leads False (removeCollection host id g₀ e) n fun _ n' => n'.Bookkept
      ∧ n'.books.items = n.books.items ∧ n'.live = n.live
      ∧ n'.graphs = n.graphs.modify id (Registry.dropForm e) := by
  have hmem := mem_inUse hid hg
  refine .modify_bind ?_
  set n₁ := n.modifyGraph id (Registry.dropForm e)
  rw [clearMembers, bind_assoc]
  refine .get_bind ?_
  rw [bind_assoc]
  refine .modify_bind ?_
  have hp₂ := n₁.persists_modifyCollection e.collection fun c => { c with items := [] }
  set n₂ := n₁.modifyCollection e.collection fun c => { c with items := [] }
  have hc : e.collection < n₁.collections.size := h.collections_lt g hmem e he
  have hb₂ : n₂.books = n.books.modifyGraph id (Registry.dropForm e) := by
    have : n₂.books = _ := n₁.books_modifyCollection hc (fun _ => []) (fun formulas => formulas)
      (fun _ => rfl) fun _ => rfl
    rw [this]
    have hitems : n₁.books.items e.collection = [] := hempty
    simp only [Books.modifyItems, Books.modifyFormulas, Function.update_eq_self]
    rw [← hitems, Function.update_eq_self]
    rfl
  rw [bind_assoc]
  -- telling the aggregate and disposing it writes nothing down
  refine (quietly_emit hhost _ _ n₂).bind fun _ n₃ hs₃ => ?_
  rw [pure_bind]
  refine (Quietly.forM (quietly_dispose hhost) _ n₃).bind fun _ n₄ hs₄ => ?_
  refine (quietly_dispose hhost e.aggregate n₄).bind fun _ n₅ hs₅ => ?_
  have hs := (hs₃.trans hs₄).trans hs₅
  have hp₅ : n.Persists n₅ := ((n.persists_modifyGraph id _).trans hp₂).trans hs.toPersists
  refine (books_removePath hhost (hpaths ▸ (h.sets_lt g hmem).trans_le hp₅.sets) e.path).weaken
    fun _ n₆ hremoved => ?_
  obtain ⟨hp, hb⟩ := hremoved
  have hb : n₆.books = (n.books.modifyGraph id (Registry.dropForm e)).modifyCounts g.paths
      (Books.uncounting e.path) := by
    rw [hb, hs.books, hb₂, hpaths]
  have hlive : n₆.live = n.live := congrArg Books.live hb
  have hgraphs : n₆.graphs = n.graphs.modify id (Registry.dropForm e) := congrArg Books.graphs hb
  refine ⟨h.of_modifyGraph (hp₅.trans hp) (h.balanced.dropForm hid hg he hempty hb) hlive hgraphs
    (fun _ => rfl) (fun _ e' he' => .inl ⟨e', (List.mem_filter.mp he').1, rfl⟩) fun c => ?_,
    by rw [hb]; rfl, hlive, hgraphs⟩
  rw [hb]
  exact (h.aligned c).imp fun _ _ => Pairs.mono (hp₅.trans hp)

end Parts

/-- Dropping several nodes of a subgraph keeps the books. -/
theorem removeAllNodes {id : Nat} {g₀ : Subgraph N} (l : List (NodeEntry N)) :
    ∀ {n : Network N A σ} {g : Subgraph N}, n.Bookkept → id ∈ n.live → n.graphs[id]? = some g →
      g₀.stat = g.stat → g₀.paths = g.paths → (∀ e ∈ l, e ∈ g.nodes) →
      (l.map fun e => (e.stage, e.path.key)).Nodup →
      Leads False (l.forM (Network.removeNodes host id g₀)) n fun _ n' => n'.Bookkept ∧ n.Loses n' id := by
  induction l with
  | nil => exact fun {n _} h _ _ _ _ _ _ => .of_pure ⟨h, .refl n⟩
  | cons e l ih =>
    intro n g h hid hg hstat hpaths hmem hnodup
    rw [List.map_cons, List.nodup_cons] at hnodup
    rw [List.forM_eq_forM, List.forM_cons]
    refine (removeNodes hhost h hid hg hstat hpaths (hmem e List.mem_cons_self)).bind
      fun _ n₁ ⟨h₁, _, hlive, hgraphs⟩ => ?_
    have hloses : n.Loses n₁ id := .of_modifyGraph hlive hgraphs (fun _ => rfl) fun _ => rfl
    have hg₁ : n₁.graphs[id]? = some (Registry.dropNodes e g) := by
      rw [hgraphs, Array.getElem?_modify, if_pos rfl, hg]
      rfl
    refine (ih h₁ (hlive ▸ hid) hg₁ hstat hpaths (fun x hx => ?_) hnodup.2).weaken
      fun _ _ ⟨h', hloses'⟩ => ⟨h', hloses.trans hloses'⟩
    -- the others have other keys
    refine List.mem_filter.mpr ⟨hmem x (List.mem_cons_of_mem e hx), ?_⟩
    have hne : (x.stage, x.path.key) ≠ (e.stage, e.path.key) := fun heq =>
      hnodup.1 (List.mem_map.mpr ⟨x, hx, heq⟩)
    simpa [Path.same, Prod.ext_iff, ← imp_iff_not_or] using hne

/-- Dropping several collections without members keeps the books. -/
theorem removeAllCollections {id : Nat} {g₀ : Subgraph N} (l : List (FormEntry N)) :
    ∀ {n : Network N A σ} {g : Subgraph N}, n.Bookkept → id ∈ n.live → n.graphs[id]? = some g →
      g₀.paths = g.paths → (∀ e ∈ l, e ∈ g.forms ∧ n.books.items e.collection = []) →
      (l.map fun e => (e.form, e.path.key)).Nodup →
      Leads False (l.forM (Network.removeCollection host id g₀)) n fun _ n' =>
        n'.Bookkept ∧ n.Loses n' id := by
  induction l with
  | nil => exact fun {n _} h _ _ _ _ _ => .of_pure ⟨h, .refl n⟩
  | cons e l ih =>
    intro n g h hid hg hpaths hmem hnodup
    rw [List.map_cons, List.nodup_cons] at hnodup
    rw [List.forM_eq_forM, List.forM_cons]
    obtain ⟨he, hempty⟩ := hmem e List.mem_cons_self
    refine (removeCollection hhost h hid hg hpaths he hempty).bind
      fun _ n₁ ⟨h₁, hitems, hlive, hgraphs⟩ => ?_
    have hloses : n.Loses n₁ id := .of_modifyGraph hlive hgraphs (fun _ => rfl) fun _ => rfl
    have hg₁ : n₁.graphs[id]? = some (Registry.dropForm e g) := by
      rw [hgraphs, Array.getElem?_modify, if_pos rfl, hg]
      rfl
    refine (ih h₁ (hlive ▸ hid) hg₁ hpaths (fun x hx => ?_) hnodup.2).weaken
      fun _ _ ⟨h', hloses'⟩ => ⟨h', hloses.trans hloses'⟩
    obtain ⟨hmem', hempty'⟩ := hmem x (List.mem_cons_of_mem e hx)
    refine ⟨List.mem_filter.mpr ⟨hmem', ?_⟩, hitems ▸ hempty'⟩
    have hne : (x.form, x.path.key) ≠ (e.form, e.path.key) := fun heq =>
      hnodup.1 (List.mem_map.mpr ⟨x, hx, heq⟩)
    simpa [Path.same, Prod.ext_iff, ← imp_iff_not_or] using hne

/-- Dropping the unheard nodes of a stage keeps the books. -/
theorem pruneStage (h : n.Bookkept) {id : Nat} (hid : id ∈ n.live) (stage : Stage) :
    Leads False (pruneStage host id stage) n fun _ n' => n'.Bookkept ∧ n.Loses n' id := by
  refine .get_bind ?_
  cases hg : n.graphs[id]? with
  | none => exact .of_pure ⟨h, .refl n⟩
  | some g =>
    have hnodes := (h.balanced.balances g (mem_inUse hid hg)).nodes
    refine (removeAllNodes hhost _ h hid hg rfl rfl (fun e he => (List.mem_filter.mp he).1)
      (hnodes.sublist (List.filter_sublist.map _))).bind fun _ n' hn' => .of_pure hn'

/-- Dropping the unheard collections that are empty keeps the books. -/
theorem pruneForms (h : n.Bookkept) {id : Nat} (hid : id ∈ n.live) :
    Leads False (pruneForms host id) n fun _ n' => n'.Bookkept ∧ n.Loses n' id := by
  refine .get_bind ?_
  cases hg : n.graphs[id]? with
  | none => exact .of_pure ⟨h, .refl n⟩
  | some g =>
    have hforms := (h.balanced.balances g (mem_inUse hid hg)).forms
    refine (removeAllCollections hhost _ h hid hg rfl (fun e he => ?_)
      (hforms.sublist (List.filter_sublist.map _))).bind fun _ n' hn' => .of_pure hn'
    obtain ⟨hmem, hunheard⟩ := List.mem_filter.mp he
    refine ⟨hmem, ?_⟩
    have hempty : n.memberNodes e.collection = [] := by simp_all
    simp only [memberNodes, books] at hempty ⊢
    cases hc : n.collections[e.collection]? with
    | none => rfl
    | some c => simpa [hc] using hempty

/-- Dropping a subgraph that is empty keeps the books. -/
theorem dropEmpty (h : n.Bookkept) {id : Nat} (hid : id ∈ n.live) :
    Leads False (dropEmpty host id) n fun _ n' => n'.Bookkept
      ∧ (n'.live = n.live ∨ n'.live = n.live.erase id) := by
  refine .get_bind ?_
  cases hg : n.graphs[id]? with
  | none => exact .of_pure ⟨h, .inl rfl⟩
  | some g =>
    dsimp only
    split
    · next hempty =>
      have hnodes : g.nodes = [] := by simp_all
      have hmem := mem_inUse hid hg
      have hfound : n.graph? g.stat.key = some id := h.graph?_eq ⟨hid, g, hg, rfl⟩
      refine .modify_bind ?_
      rw [hfound]
      set n₁ : Network N A σ := { n with
        live := n.live.erase id
        pathSets := n.pathSets.modify g.paths fun s => { s with gone := true } }
      have hcounts : n₁.books.counts = n.books.counts := by
        funext set
        simp only [books, n₁, Array.getElem?_modify]
        split
        · cases n.pathSets[set]? <;> rfl
        · rfl
      have hb₁ : n₁.books = n.books.dropGraph id := by
        have : n₁.books = { n.books.dropGraph id with counts := n₁.books.counts } := by
          simp only [books, Books.dropGraph, n₁]
        rw [this, hcounts]
        rfl
      have hp₁ : n.Persists n₁ := ⟨fun _ _ h => h, fun _ h => h, le_rfl, by simp [n₁]⟩
      refine (books_unlist hhost g.stat n₁).bind fun _ n₂ hunlisted => ?_
      obtain ⟨hp₂, listed, hb₂⟩ := hunlisted
      rw [hb₁] at hb₂
      -- the behaviors that stay installed are those of the other subgraphs
      obtain ⟨rest, hperm, -, -⟩ := Books.exists_rest h.balanced.live_nodup hid hg
      have hdeclares : Books.Declares n₂.books.installed
          (g.stat.behaviors ++ rest.flatMap (·.stat.behaviors)) := by
        rw [hb₂]
        exact h.balanced.declares hperm
      refine (books_uninstall hhost g.stat.behaviors hdeclares).bind fun _ n₃ huninstalled => .of_pure ?_
      obtain ⟨hp₃, hb₃⟩ := huninstalled
      rw [hb₂] at hb₃
      have hp : n.Persists n₃ := (hp₁.trans hp₂).trans hp₃
      have hlive : n₃.live = n.live.erase id := congrArg Books.live hb₃
      refine ⟨h.of_persists hp (h.balanced.dropGraph hid hg hnodes hb₃) (fun g' hg' => ?_) fun c => ?_,
        .inr hlive⟩
      · obtain ⟨i, hi, hgi⟩ := Books.mem_inUse_iff.mp hg'
        rw [hb₃] at hi hgi
        exact ⟨g', mem_inUse (List.mem_of_mem_erase hi) hgi, rfl, fun e' he' => .inl ⟨e', he', rfl⟩⟩
      · rw [hb₃]
        exact (h.aligned c).imp fun _ _ => Pairs.mono hp
    · exact .of_pure ⟨h, .inl rfl⟩

theorem unlistUnheard (h : n.Bookkept) (stat : Stat N) :
    Leads False (unlistUnheard host stat) n fun _ n' => n'.Bookkept ∧ n'.live = n.live := by
  refine .get_bind ?_
  split
  · exact .of_pure ⟨h, rfl⟩
  · split
    · refine (books_unlist hhost stat n).bind fun _ n' hunlisted => .of_pure ?_
      obtain ⟨hp, listed, hbooks⟩ := hunlisted
      exact ⟨h.of_listed hp hbooks, congrArg Books.live hbooks⟩
    · exact .of_pure ⟨h, rfl⟩

/-- Removing what is unused of a stat keeps the books. Other subgraphs stay. -/
theorem pruneGraph (h : n.Bookkept) {id : Nat} (hid : id ∈ n.live) :
    Leads False (pruneGraph host id) n fun _ n' => n'.Bookkept
      ∧ (n'.live = n.live ∨ n'.live = n.live.erase id) := by
  refine .get_bind ?_
  cases hg : n.graphs[id]? with
  | none => exact .of_pure ⟨h, .inl rfl⟩
  | some g =>
    dsimp only
    split
    · exact .of_pure ⟨h, .inl rfl⟩
    · refine (unlistUnheard hhost h g.stat).bind fun _ n₁ ⟨h₁, hlive₁⟩ => ?_
      have hstages : Leads False (Stage.all.mapM (Network.pruneStage host id)) n₁ fun rs n' =>
          List.Forall₂ (fun _ _ => True) Stage.all rs ∧ n'.Bookkept ∧ n'.live = n.live :=
        .mapM (fun stage _ m ⟨hm, hlive⟩ => (pruneStage hhost hm (hlive ▸ hid) stage).weaken
          fun _ _ ⟨h', hloses⟩ => ⟨trivial, h', hloses.live.trans hlive⟩) ⟨h₁, hlive₁⟩
      refine hstages.bind fun _ n₂ ⟨_, h₂, hlive₂⟩ => ?_
      refine (pruneForms hhost h₂ (hlive₂ ▸ hid)).bind fun _ n₃ ⟨h₃, hloses₃⟩ => ?_
      have hlive₃ := hloses₃.live.trans hlive₂
      exact (dropEmpty hhost h₃ (hlive₃ ▸ hid)).bind fun _ n₄ ⟨h₄, hlive₄⟩ =>
        .of_pure ⟨h₄, hlive₃ ▸ hlive₄⟩

/-- Removing what is unused of several stats keeps the books. -/
theorem pruneGraphs (l : List Nat) : ∀ {n : Network N A σ}, n.Bookkept → l.Nodup →
    (∀ id ∈ l, id ∈ n.live) → Leads False (l.mapM (Network.pruneGraph host)) n fun _ n' => n'.Bookkept := by
  induction l with
  | nil => exact fun {_} h _ _ => .of_pure h
  | cons id l ih =>
    intro n h hnodup hlive
    obtain ⟨hnot, hnodup⟩ := List.nodup_cons.mp hnodup
    rw [List.mapM_cons]
    refine (pruneGraph hhost h (hlive id List.mem_cons_self)).bind fun _ n₁ ⟨h₁, hlive₁⟩ => ?_
    refine (ih h₁ hnodup fun i hi => ?_).bind fun _ n₂ h₂ => .of_pure h₂
    have hi' := hlive i (List.mem_cons_of_mem id hi)
    rcases hlive₁ with heq | heq
    · exact heq ▸ hi'
    · rw [heq]
      refine (List.mem_erase_of_ne ?_).mpr hi'
      rintro rfl
      exact hnot hi

theorem prunePasses : ∀ (fuel : Nat) {n : Network N A σ}, n.Bookkept →
    Leads False (prunePasses host fuel) n fun _ n' => n'.Bookkept
  | 0, _, _ => ⟨False.elim, nofun⟩
  | fuel + 1, n, h => by
    have hpass : Leads False (prunePass host) n fun _ n' => n'.Bookkept := by
      refine .get_bind ((pruneGraphs hhost n.live h h.balanced.live_nodup fun _ hid => hid).bind ?_)
      exact fun _ _ h' => .of_pure h'
    refine hpass.bind fun removed n₁ h₁ => ?_
    split
    · exact .of_pure h₁
    · exact (prunePasses fuel h₁).bind fun _ _ h' => .of_pure h'

/-- Removing everything that is unused keeps the books. -/
theorem removeUnused (h : n.Bookkept) : Leads False (removeUnused host) n fun _ n' => n'.Bookkept :=
  .get_bind (prunePasses hhost _ h)

end Bookkept

end Removal

end StatEngine.Network
