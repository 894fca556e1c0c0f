import StatEngine.Proofs.Clearing

/-!
# Removing what is unused

Stats are gone through in passes, until one finds nothing to remove. Each pass keeps the invariant. A stat
in which nothing is found to remove is tidy: someone listens to each of its nodes, to the collections that
are empty, and to its total if it is listed. It stays tidy while nothing is found in the others, as the
most that is done there is to take them off the list of the hosts. So after the last pass there is nothing
to remove in any stat.

## Main definitions

* `TidyAt` and `Tidy`: nothing of a stat is unused, or of any stat without modifiers;

## Main statements

* `leads_removeUnused`: removing what is unused has a result, keeps the invariant, and leaves nothing
  behind that is unused;
* `Tidy.removeUnused_eq`: where nothing is unused, nothing is removed.
-/

namespace StatEngine

open Network

namespace Network

variable {N A σ : Type}

/-! ## Tidy stats -/

/-- Nothing of a stat is unused. -/
structure TidyAt (n : Network N A σ) (g : Subgraph N) : Prop where
  nodes : ∀ e ∈ g.nodes, n.listeners (.received e.cached) ≠ [] ∨ n.listeners (.changed e.cached) ≠ []
  forms : ∀ e ∈ g.forms, n.registry.items e.collection ≠ [] ∨ n.listeners (.changed e.aggregate) ≠ []
  nonempty : g.nodes ≠ [] ∨ g.forms ≠ []
  listed : ∀ id, n.listed? g.stat = some id → n.listeners (.changed id) ≠ []

/-- Nothing of a stat without modifiers is unused. -/
def TidyOf (n : Network N A σ) (graph : Nat) : Prop :=
  ∀ g, n.graphs[graph]? = some g → g.modifierCount = 0 → n.TidyAt g

/-- Nothing is unused. -/
def Tidy (n : Network N A σ) : Prop := ∀ graph ∈ n.live, n.TidyOf graph

variable {sc : Regime N} {n n' m : Network N A σ} {host : Host N A σ} {tell : A → σ → σ}
  {key : StatKey} {g : Subgraph N} {graph : Nat}

theorem isUnheard_iff (n : Network N A σ) (e : NodeEntry N) : e.isUnheard n = true
    ↔ n.listeners (.received e.cached) = [] ∧ n.listeners (.changed e.cached) = [] := by
  simp only [NodeEntry.isUnheard, listenerCount, Bool.and_eq_true, beq_iff_eq,
    List.length_eq_zero_iff]

theorem isUnused_iff (n : Network N A σ) (e : FormEntry N) :
    ((n.memberNodes e.collection).isEmpty && n.listenerCount (.changed e.aggregate) == 0) = true
      ↔ n.registry.items e.collection = [] ∧ n.listeners (.changed e.aggregate) = [] := by
  simp only [memberNodes_eq, listenerCount, Bool.and_eq_true, beq_iff_eq, List.isEmpty_iff,
    List.map_eq_nil_iff, List.length_eq_zero_iff]

/-- A tidy stat stays tidy when another one is taken off the list. -/
theorem TidyAt.unlists (h : n.TidyAt g) (hn : n.Wired sc) (ho : n.registry.Orderly sc)
    (hlisted : n.Lists) {other : StatKey} (hg : n.registry.graph? other = some g) (hne : other ≠ key)
    (hunlists : n.Unlists n' key) : n'.TidyAt g := by
  -- nobody but the node for hosts listens less
  have hheard {t : Topic} (ht : n.listeners t ≠ [])
      (hother : ∀ e, n.registry.stage? ⟨key, .total, Path.main⟩ = some e → t ≠ .changed e.cached) :
      n'.listeners t ≠ [] := by
    obtain hsame | ⟨e, he, heq⟩ := hunlists.listeners t
    · rwa [hsame]
    · exact absurd heq (hother e he)
  have hcached {i : Nat} {kind : Kind N A} (hi : n.kind? i = some kind)
      (hkind : ∀ inner, kind ≠ .cached inner) (e : NodeEntry N)
      (he : n.registry.stage? ⟨key, .total, Path.main⟩ = some e) :
      Topic.changed i ≠ .changed e.cached := fun heq => by
    have hstage := hn.stages _ e he
    obtain ⟨_, _, _, hcell, -⟩ := hstage.cell
    rw [Topic.changed.inj heq, hstage.cached, hcell.cached] at hi
    exact hkind _ (Option.some.inj hi).symm
  refine ⟨fun e he => ?_, fun e he => ?_, h.nonempty, fun id hid => ?_⟩
  · refine (h.nodes e he).imp (hheard · fun _ _ => by simp) (hheard · fun e' he' heq => hne ?_)
    have he := ho.nodes_found other g hg e he
    have hformula : e.formula = e'.formula := by
      have := Topic.changed.inj heq
      have := (hn.stages _ _ he).cached
      have := (hn.stages _ _ he').cached
      omega
    exact congrArg NodeKey.stat (hn.stage_key_unique he he' hformula)
  · rw [hunlists.items]
    have hform := hn.forms _ _ _ _ (ho.forms_found other g hg e he)
    exact (h.forms e he).imp_right (hheard · (hcached hform.kind (by simp)))
  · have hid := hunlists.listed _ id hid
    obtain ⟨entry, hfound, rfl⟩ := Option.map_eq_some_iff.mp hid
    obtain ⟨inner, hwrapped⟩ := hlisted.wrapped (List.mem_of_find?_eq_some hfound)
    exact hheard (h.listed _ hid) (hcached hwrapped (by simp))

/-! ## Where nothing is found -/

section Nothing

variable (hgraph : n.graphs[graph]? = some g)

include hgraph

/-- Nodes are left alone if someone listens to them, and otherwise they count. -/
theorem leads_pruneStage_zero (host : Host N A σ) (stage : Stage) :
    Leads False (pruneStage host graph stage) n fun count n' => count = 0 → n' = n
      ∧ ∀ e ∈ g.nodes, e.stage = stage →
        n.listeners (.received e.cached) ≠ [] ∨ n.listeners (.changed e.cached) ≠ [] := by
  refine .get_bind ?_
  rw [hgraph]
  dsimp only
  cases hunheard : g.nodes.filter fun e => e.stage == stage && e.isUnheard n with
  | nil =>
    refine .of_pure fun _ => ⟨rfl, fun e he hstage => ?_⟩
    have hnot := List.filter_eq_nil_iff.mp hunheard e he
    rw [Bool.and_eq_true, isUnheard_iff, beq_iff_eq] at hnot
    tauto
  | cons e rest =>
    have hloop : Leads False ((e :: rest).forM (removeNodes host graph g)) n fun _ _ => True :=
      ⟨False.elim, fun _ => trivial⟩
    exact hloop.bind fun _ _ _ => .of_pure fun h => absurd h (by simp)

theorem leads_pruneStages_zero (host : Host N A σ) : ∀ stages : List Stage,
    Leads False (stages.mapM (pruneStage host graph)) n fun counts n' => counts.sum = 0 → n' = n
      ∧ ∀ e ∈ g.nodes, e.stage ∈ stages →
        n.listeners (.received e.cached) ≠ [] ∨ n.listeners (.changed e.cached) ≠ []
  | [] => .of_pure fun _ => ⟨rfl, fun _ _ h => by cases h⟩
  | stage :: stages => by
    rw [List.mapM_cons]
    refine (leads_pruneStage_zero hgraph host stage).bind fun count m hm => ?_
    by_cases hzero : count = 0
    · obtain ⟨hsame, hheard⟩ := hm hzero
      rw [hsame]
      refine (leads_pruneStages_zero host stages).bind fun counts n' hn' => .of_pure fun hsum => ?_
      rw [List.sum_cons, hzero, Nat.zero_add] at hsum
      refine ⟨(hn' hsum).1, fun e he hmem => ?_⟩
      obtain hstage | hmem := List.mem_cons.mp hmem
      · exact hheard e he hstage
      · exact (hn' hsum).2 e he hmem
    · have hloop : Leads False (stages.mapM (pruneStage host graph)) m fun _ _ => True :=
        ⟨False.elim, fun _ => trivial⟩
      refine hloop.bind fun counts _ _ => .of_pure fun hsum => absurd ?_ hzero
      rw [List.sum_cons] at hsum
      omega

/-- Collections are left alone if they have members or someone listens to them, and otherwise they
count. -/
theorem leads_pruneForms_zero (host : Host N A σ) :
    Leads False (pruneForms host graph) n fun count n' => count = 0 → n' = n
      ∧ ∀ e ∈ g.forms, n.registry.items e.collection ≠ [] ∨ n.listeners (.changed e.aggregate) ≠ [] := by
  refine .get_bind ?_
  rw [hgraph]
  dsimp only
  cases hunused : g.forms.filter fun e =>
      (n.memberNodes e.collection).isEmpty && n.listenerCount (.changed e.aggregate) == 0 with
  | nil =>
    refine .of_pure fun _ => ⟨rfl, fun e he => ?_⟩
    have hnot := List.filter_eq_nil_iff.mp hunused e he
    rw [isUnused_iff] at hnot
    tauto
  | cons e rest =>
    have hloop : Leads False ((e :: rest).forM (removeCollection host graph g)) n fun _ _ => True :=
      ⟨False.elim, fun _ => trivial⟩
    exact hloop.bind fun _ _ _ => .of_pure fun h => absurd h (by simp)

/-- A stat is left alone if something is left of it, and otherwise it counts. -/
theorem leads_dropEmpty_zero (host : Host N A σ) :
    Leads False (dropEmpty host graph) n fun count n' => count = 0 → n' = n
      ∧ (g.nodes ≠ [] ∨ g.forms ≠ []) := by
  refine .get_bind ?_
  rw [hgraph]
  dsimp only
  split
  · have hrest {β : Type} (run : Run N A σ β) (m : Network N A σ) : Leads False run m fun _ _ => True :=
      ⟨False.elim, fun _ => trivial⟩
    exact .modify_bind ((hrest _ _).bind fun _ m _ =>
      (hrest _ m).bind fun _ _ _ => .of_pure fun h => absurd h (by simp))
  next hsome =>
    refine .of_pure fun _ => ⟨rfl, ?_⟩
    simpa only [Bool.and_eq_true, List.isEmpty_iff, not_and_or] using hsome

end Nothing

variable [Number N]

/-! ## Passes -/

/-- A stat is taken off the list whose total no host listens to. -/
theorem leads_unlistUnheard (hhost : host.Quiet tell) (hn : n.Inv sc) (hidle : n.Idle) {stat : Stat N}
    (hcount : ∀ g, n.registry.graph? stat.key = some g → g.modifierCount = 0) :
    Leads True (unlistUnheard host stat) n fun _ n' => n'.Inv sc ∧ n.Trims tell n' 0
      ∧ n.Unlists n' stat.key
      ∧ ∀ id, n'.listed? stat = some id → n'.listeners (.changed id) ≠ [] := by
  refine .get_bind ?_
  split
  next hnone =>
    exact .of_pure ⟨hn, .refl n, .refl n _, fun id h => absurd (hnone.symm.trans h) (by simp)⟩
  next id hlisted =>
    have hentry {id' : Nat} (h : n.listed? stat = some id') : id' = id :=
      Option.some.inj (h.symm.trans hlisted)
    split
    next hunheard =>
      refine (leads_unlist hhost hn hidle (fun id' h => ?_) hcount).bind ?_
      · rw [hentry h]
        exact List.length_eq_zero_iff.mp hunheard
      · rintro - n' ⟨hinv, htrims, hunlists, hnone⟩
        exact .of_pure ⟨hinv, htrims, hunlists, fun id' h => absurd (hnone.symm.trans h) (by simp)⟩
    next hheard =>
      refine .of_pure ⟨hn, .refl n, .refl n _, fun id' h hunheard => hheard ?_⟩
      rw [hentry h] at hunheard
      exact List.length_eq_zero_iff.mpr hunheard

/-- Taking a stat off the list leaves others tidy. -/
theorem Unlists.tidyOf {n' : Network N A σ} (h : n.Unlists n' g.stat.key) (hn : n.Inv sc)
    (hid : n.registry.graphId? g.stat.key = some graph) (hgraph : n'.graphs[graph]? = some g)
    (htidy : n'.TidyAt g) : n'.TidyOf graph ∧ ∀ i ∈ n.live, n.TidyOf i → n'.TidyOf i := by
  have hself : n'.TidyOf graph := fun g' hg' _ => Option.some.inj (hgraph.symm.trans hg') ▸ htidy
  refine ⟨hself, fun i hi hother => ?_⟩
  by_cases hi' : i = graph
  · exact hi' ▸ hself
  · intro g' hg' hcount
    rw [h.graphs] at hg'
    obtain ⟨found, hfound, hkey⟩ := hn.orderly.live_found i hi
    obtain rfl := Option.some.inj (hg'.symm.trans hfound)
    refine (hother _ hg' hcount).unlists hn.wired hn.orderly hn.listed
      (Registry.graph?_eq_some_iff.mpr ⟨i, hkey, hg'⟩) (fun heq => hi' ?_) h
    rw [heq, hid] at hkey
    exact (Option.some.inj hkey).symm

/-- Removing what is unused of one stat keeps the invariant. If there is nothing to remove then the stat is
tidy, and so are those that were. -/
theorem leads_pruneGraph (hhost : host.Quiet tell) (hn : n.Inv sc) (hidle : n.Idle)
    (hlive : graph ∈ n.registry.live) :
    Leads True (pruneGraph host graph) n fun count n' => n'.Inv sc ∧ n.Trims tell n' count
      ∧ (∀ i ∈ n.registry.live, i ≠ graph → i ∈ n'.registry.live)
      ∧ (count = 0 → n'.live = n.live ∧ n'.TidyOf graph
        ∧ ∀ i ∈ n.live, n.TidyOf i → n'.TidyOf i) := by
  obtain ⟨g, hgraph, hid⟩ := hn.orderly.live_found graph hlive
  have hgraph : n.graphs[graph]? = some g := hgraph
  have hg := Registry.graph?_eq_some_iff.mpr ⟨graph, hid, hgraph⟩
  refine .get_bind ?_
  rw [hgraph]
  dsimp only
  split
  next hpos =>
    -- a stat with modifiers is passed over
    refine .of_pure ⟨hn, .refl n, fun i hi _ => hi, fun _ => ⟨rfl, fun g' hg' hcount => ?_,
      fun _ _ h => h⟩⟩
    obtain rfl := Option.some.inj (hgraph.symm.trans hg')
    exact absurd hcount hpos.ne'
  next hpos =>
    have hcount : g.modifierCount = 0 := Nat.eq_zero_of_not_pos hpos
    -- it goes in four steps, and what a step leaves is where the next one starts
    refine (leads_unlistUnheard hhost hn hidle fun g' hg' => ?_).bind ?_
    · exact Option.some.inj (hg.symm.trans hg') ▸ hcount
    rintro - n₁ ⟨hinv₁, htrims₁, hunlists, hheard⟩
    have hgraph₁ : n₁.graphs[graph]? = some g := by rwa [hunlists.graphs]
    have hg₁ := (hunlists.graph? _).trans hg
    have hid₁ := (hunlists.sameGraphs.graphId _).trans hid
    refine ((leads_pruneStages hhost hinv₁ (htrims₁.changes.idle hidle) hid₁ hg₁ hcount).and
      (leads_pruneStages_zero hgraph₁ host Stage.all)).bind ?_
    rintro counts n₂ ⟨⟨hinv₂, htrims₂, hsame₂⟩, hnodes⟩
    have htrims₂ := htrims₁.trans htrims₂
    have hid₂ := (hsame₂.graphId _).trans hid₁
    obtain ⟨g₂, hg₂, -, -, hcount₂⟩ := hsame₂.graph _ _ hg₁
    rw [hcount] at hcount₂
    have hgraph₂ := graphs_of_graph? hid₂ hg₂
    refine ((leads_pruneForms hhost hinv₂ (htrims₂.changes.idle hidle) hid₂ hg₂ hcount₂).and
      (leads_pruneForms_zero hgraph₂ host)).bind ?_
    rintro count n₃ ⟨⟨hinv₃, htrims₃, hsame₃⟩, hforms⟩
    have htrims₃ := htrims₂.trans htrims₃
    have hid₃ := (hsame₃.graphId _).trans hid₂
    obtain ⟨g₃, hg₃, -, -, hcount₃⟩ := hsame₃.graph _ _ hg₂
    rw [hcount₂] at hcount₃
    refine ((leads_dropEmpty hhost hinv₃ (htrims₃.changes.idle hidle) hid₃ hg₃ hcount₃).and
      (leads_dropEmpty_zero (graphs_of_graph? hid₃ hg₃) host)).bind ?_
    rintro count' n₄ ⟨⟨hinv₄, htrims₄, hstays⟩, hleft⟩
    have htrims₄ := htrims₃.trans htrims₄
    rw [Nat.zero_add] at htrims₄
    refine .of_pure ⟨hinv₄, htrims₄, fun i hi hne => hstays i ?_ hne, fun hzero => ?_⟩
    · rw [hsame₃.live, hsame₂.live, hunlists.sameGraphs.live]
      exact hi
    · -- nothing was found, so all that was done is to take the stat off the list
      have hzero : counts.sum + count + count' = 0 := hzero
      obtain ⟨rfl, hnodes⟩ := hnodes (by omega)
      obtain rfl := Option.some.inj (hgraph₁.symm.trans hgraph₂)
      obtain ⟨rfl, hforms⟩ := hforms (by omega)
      obtain rfl := Option.some.inj (hgraph₁.symm.trans (graphs_of_graph? hid₃ hg₃))
      obtain ⟨rfl, hsome⟩ := hleft (by omega)
      have htidy : n₄.TidyAt g :=
        ⟨fun e he => hnodes e he (by cases e.stage <;> decide), hforms, hsome, hheard⟩
      exact ⟨hunlists.live, hunlists.tidyOf hn hid hgraph₁ htidy⟩

/-- A pass over several stats keeps the invariant. If there is nothing to remove then they are tidy. -/
theorem leads_pruneGraphs (hhost : host.Quiet tell) : ∀ {given : List Nat} {n : Network N A σ},
    n.Inv sc → n.Idle → given.Nodup → (∀ id ∈ given, id ∈ n.registry.live) →
    Leads True (given.mapM (pruneGraph host)) n fun counts n' => n'.Inv sc
      ∧ n.Trims tell n' counts.sum
      ∧ (counts.sum = 0 → n'.live = n.live ∧ ∀ i ∈ n.live, i ∈ given ∨ n.TidyOf i → n'.TidyOf i)
  | [], n, hn, _, _, _ => .of_pure ⟨hn, .refl n, fun _ => ⟨rfl, fun _ _ h => h.resolve_left (by simp)⟩⟩
  | id :: given, n, hn, hidle, hnodup, hlive => by
    rw [List.mapM_cons]
    obtain ⟨hnot, hnodup⟩ := List.nodup_cons.mp hnodup
    refine (leads_pruneGraph hhost hn hidle (hlive id List.mem_cons_self)).bind ?_
    rintro count m ⟨hinv, htrims, hstays, htidy⟩
    refine (leads_pruneGraphs hhost hinv (htrims.changes.idle hidle) hnodup fun i hi =>
      hstays i (hlive i (List.mem_cons_of_mem _ hi)) fun heq => hnot (heq ▸ hi)).bind ?_
    rintro counts n' ⟨hinv', htrims', htidy'⟩
    refine .of_pure ⟨hinv', htrims.trans htrims', fun hsum => ?_⟩
    rw [List.sum_cons] at hsum
    obtain ⟨hsame, hself, hothers⟩ := htidy (by omega)
    obtain ⟨hsame', hall⟩ := htidy' (by omega)
    refine ⟨hsame'.trans hsame, fun i hi h => hall i (hsame ▸ hi) ?_⟩
    obtain hmem | h := h
    · obtain rfl | hmem := List.mem_cons.mp hmem
      · exact .inr hself
      · exact .inl hmem
    · exact .inr (hothers i hi h)

/-- A pass over all stats keeps the invariant. If there is nothing to remove then nothing is unused. -/
theorem leads_prunePass (hhost : host.Quiet tell) (hn : n.Inv sc) (hidle : n.Idle) :
    Leads True (prunePass host) n fun count n' => n'.Inv sc ∧ n.Trims tell n' count
      ∧ (count = 0 → n'.Tidy) := by
  refine .get_bind ((leads_pruneGraphs hhost hn hidle hn.orderly.live_nodup fun _ h => h).bind ?_)
  rintro counts n' ⟨hinv, htrims, htidy⟩
  refine .of_pure ⟨hinv, htrims, fun hzero graph hgraph => ?_⟩
  obtain ⟨hsame, hall⟩ := htidy hzero
  have hgraph : graph ∈ n.live := hsame ▸ hgraph
  exact hall graph hgraph (.inl hgraph)

/-- Passes that are repeated until one finds nothing keep the invariant, and leave nothing behind that is
unused. There are no more of them than there are parts. -/
theorem leads_prunePasses (hhost : host.Quiet tell) : ∀ {fuel : Nat} {n : Network N A σ},
    n.Inv sc → n.Idle → n.registry.parts < fuel →
    Leads True (prunePasses host fuel) n fun count n' => n'.Inv sc ∧ n.Trims tell n' count ∧ n'.Tidy
  | 0, _, _, _, hfuel => absurd hfuel (Nat.not_lt_zero _)
  | fuel + 1, n, hn, hidle, hfuel => by
    refine (leads_prunePass hhost hn hidle).bind fun count m ⟨hinv, htrims, htidy⟩ => ?_
    split
    next hnone => exact .of_pure ⟨hinv, hnone ▸ htrims, htidy hnone⟩
    next hsome =>
      have hparts := htrims.parts
      refine (leads_prunePasses hhost hinv (htrims.changes.idle hidle) (by omega)).bind ?_
      rintro count' n' ⟨hinv', htrims', htidy'⟩
      exact .of_pure ⟨hinv', htrims.trans htrims', htidy'⟩

omit [Number N] in
theorem partsInUse_eq (n : Network N A σ) : n.partsInUse = n.registry.parts := by
  rw [partsInUse, Registry.parts]
  change ((n.live.filterMap (n.graphs[·]?)).map _).sum
    = (n.live.map fun id => ((n.graphs[id]?).map _).getD 0).sum
  induction n.live with
  | nil => rfl
  | cons id live ih =>
    rw [List.map_cons, List.sum_cons, ← ih]
    cases hid : n.graphs[id]? <;> simp [hid]

/-- Removing what is unused has a result, keeps the invariant, and leaves nothing behind that is unused. -/
theorem leads_removeUnused (hhost : host.Quiet tell) (hn : n.Inv sc) (hidle : n.Idle) :
    Leads True (removeUnused host) n fun count n' => n'.Inv sc ∧ n.Trims tell n' count ∧ n'.Tidy := by
  refine .get_bind (leads_prunePasses hhost hn hidle ?_)
  rw [partsInUse_eq]
  omega

/-! ## Where nothing is unused -/

omit [Number N] in
/-- A loop in which no step finds anything. -/
theorem mapM_eq_zeros {α : Type} {step : α → Run N A σ Nat} : ∀ {l : List α},
    (∀ a ∈ l, step a n = some (0, n)) → l.mapM step n = some (l.map fun _ => 0, n)
  | [], _ => rfl
  | a :: l, h => by
    rw [List.mapM_cons, bind_apply (h a List.mem_cons_self),
      bind_apply (mapM_eq_zeros fun b hb => h b (List.mem_cons_of_mem a hb))]
    rfl

namespace TidyAt

omit [Number N] in
theorem unlistUnheard_eq (h : n.TidyAt g) (host : Host N A σ) :
    unlistUnheard host g.stat n = some (⟨⟩, n) := by
  rw [unlistUnheard, get_bind_apply]
  cases hlisted : n.listed? g.stat with
  | none => rfl
  | some id =>
    have hheard : n.listenerCount (.changed id) ≠ 0 := fun hzero =>
      h.listed id hlisted (List.length_eq_zero_iff.mp hzero)
    dsimp only
    rw [if_neg hheard]
    rfl

variable (h : n.TidyAt g) (hgraph : n.graphs[graph]? = some g) (host : Host N A σ)

include h hgraph

omit [Number N] in
theorem pruneStage_eq (stage : Stage) : pruneStage host graph stage n = some (0, n) := by
  have hnone : (g.nodes.filter fun e => e.stage == stage && e.isUnheard n) = [] := by
    refine List.filter_eq_nil_iff.mpr fun e he hunheard => ?_
    rw [Bool.and_eq_true, isUnheard_iff] at hunheard
    have := h.nodes e he
    tauto
  rw [pruneStage, get_bind_apply, hgraph]
  dsimp only
  rw [hnone]
  rfl

omit [Number N] in
theorem pruneForms_eq : pruneForms host graph n = some (0, n) := by
  have hnone : (g.forms.filter fun e => (n.memberNodes e.collection).isEmpty
      && n.listenerCount (.changed e.aggregate) == 0) = [] := by
    refine List.filter_eq_nil_iff.mpr fun e he hunused => ?_
    rw [isUnused_iff] at hunused
    have := h.forms e he
    tauto
  rw [pruneForms, get_bind_apply, hgraph]
  dsimp only
  rw [hnone]
  rfl

omit [Number N] in
theorem dropEmpty_eq : dropEmpty host graph n = some (0, n) := by
  rw [dropEmpty, get_bind_apply, hgraph]
  dsimp only
  rw [if_neg]
  · rfl
  · simpa only [Bool.and_eq_true, List.isEmpty_iff, not_and_or] using h.nonempty

end TidyAt

omit [Number N] in
/-- Nothing is removed of a stat of which nothing is unused. -/
theorem TidyOf.pruneGraph_eq (h : n.TidyOf graph) (host : Host N A σ) :
    pruneGraph host graph n = some (0, n) := by
  rw [pruneGraph, get_bind_apply]
  cases hgraph : n.graphs[graph]? with
  | none => rfl
  | some g =>
    dsimp only
    split
    next => rfl
    next hpos =>
      have htidy := h g hgraph (Nat.eq_zero_of_not_pos hpos)
      rw [bind_apply (htidy.unlistUnheard_eq host),
        bind_apply (mapM_eq_zeros fun stage _ => htidy.pruneStage_eq hgraph host stage),
        bind_apply (htidy.pruneForms_eq hgraph host), bind_apply (htidy.dropEmpty_eq hgraph host)]
      rfl

omit [Number N] in
/-- Nothing is removed where nothing is unused. -/
theorem Tidy.removeUnused_eq (h : n.Tidy) (host : Host N A σ) : removeUnused host n = some (0, n) := by
  have hpass : prunePass host n = some (0, n) := by
    have hgraphs : n.live.mapM (pruneGraph host) n = some (n.live.map fun _ => 0, n) :=
      mapM_eq_zeros fun graph hgraph => (h graph hgraph).pruneGraph_eq host
    rw [prunePass, get_bind_apply, bind_apply hgraphs]
    have hzero : totalOf (n.live.map fun _ => 0) = 0 := by
      induction n.live with
      | nil => rfl
      | cons _ live ih => exact (Nat.zero_add _).trans ih
    exact congrArg (fun count => some (count, n)) hzero
  rw [removeUnused, get_bind_apply, prunePasses, bind_apply hpass]
  rfl

end Network

end StatEngine
