import StatEngine.Calculator
import StatEngine.Network.Sweep
import StatEngine.Number.Double
import StatEngine.Proofs.Dropping
import StatEngine.Proofs.Reading

/-!
# Runs of a calculator

A host calls a calculator again and again: it updates modifiers, reads nodes, attaches and detaches its
listeners, and removes what is unused. What every call preserves holds after all of them. The books are
balanced before and after every call, whatever formulas compute and whatever behaviors stats have.

## Main definitions

* `Calculator.Call`: what a host can ask for;
* `Calculator.runs`: one call after another, from the start.

## Main statements

* `Bookkept.read`: reading a node keeps the books;
* `Calculator.leads_runs`: an invariant of every call is an invariant of the run;
* `Calculator.books_of_runs`: after every run the books agree with what there is.
-/

namespace StatEngine

open Network

variable {N A σ : Type}

/-! ## Reading a node -/

namespace Network

section Depth

variable [Number N] {host : Host N A σ}

omit [Number N] in
/-- Running a reading is applying it. Rewriting with this spares the checker the depth, a numeral that
is large. -/
theorem run_apply {α : Type} (x : Reading N (Run N A σ) α) (n : Network N A σ) :
    x.run n = (show Network N A σ → Option (Except (Fault N) α × Network N A σ) from x) n := rfl

/-- A node that is read at all is read at some depth. -/
theorem exists_read_of_readFrom {id depth : Nat} {n n' : Network N A σ}
    {result : Except (Fault N) (Option (Amount N))}
    (h : readFrom host id depth n = some (result, n')) :
    ∃ depth, read host depth id n = some (result, n') := by
  unfold readFrom at h
  cases hread : Network.read host depth id n with
  | some answer => exact ⟨depth, by simpa [hread] using h⟩
  | none =>
    rw [hread] at h
    -- the depth that was found enough is one at which the node is read
    obtain ⟨enough, -, henough⟩ := Option.bind_eq_some_iff.1 h
    exact ⟨enough, henough⟩

/-- What comes of reading a node at whatever depth comes of reading it. -/
theorem Leads.valueOf {id : Nat} {n : Network N A σ}
    {post : Except (Fault N) (Option (Amount N)) → Network N A σ → Prop}
    (h : ∀ depth, Leads False (Network.read host depth id).run n post) :
    Leads False (Network.valueOf host id).run n post := by
  refine ⟨False.elim, fun hrun => ?_⟩
  rw [run_apply] at hrun
  obtain ⟨depth, hread⟩ := exists_read_of_readFrom hrun
  exact (h depth).partly hread

theorem depthFor_eq (id : Nat) (n : Network N A σ) (depth : Nat) :
    depthFor host id n depth = if (Network.read host depth id n).isSome then some depth
      else depthFor host id n (2 * depth) := by
  rw [depthFor, repeatM_eq_of_monadTail]
  change Option.bind (some (if _ then _ else _)) _ = _
  split <;> rfl

/-- A node that can be read to some depth and beyond is read to a depth that is found by doubling. -/
theorem exists_depthFor {id enough : Nat} {n : Network N A σ}
    (h : ∀ depth, enough ≤ depth → Network.read host depth id n ≠ none) (depth : Nat) (hdepth : 0 < depth) :
    ∃ d, depthFor host id n depth = some d ∧ Network.read host d id n ≠ none := by
  -- the depth comes closer to what is enough
  induction hleft : enough - depth using Nat.strong_induction_on generalizing depth with
  | _ left ih =>
    rw [depthFor_eq]
    split
    · next hsome => exact ⟨depth, rfl, Option.isSome_iff_ne_none.mp hsome⟩
    · next hnone =>
      have hlt : depth < enough := by
        by_contra hle
        exact hnone (Option.isSome_iff_ne_none.mpr (h depth (by omega)))
      exact ih (enough - 2 * depth) (by omega) (2 * depth) (by omega) rfl

theorem readFrom_ne_none {id enough : Nat} {n : Network N A σ}
    (h : ∀ depth, enough ≤ depth → Network.read host depth id n ≠ none) {depth : Nat} (hdepth : 0 < depth) :
    readFrom host id depth n ≠ none := by
  obtain ⟨d, hd, hread⟩ := exists_depthFor h (2 * depth) (by omega)
  unfold readFrom
  split
  · exact Option.some_ne_none _
  · rw [hd]
    exact hread

/-- A node that can be read to some depth and beyond is read. -/
theorem valueOf_ne_none {id enough : Nat} {n : Network N A σ}
    (h : ∀ depth, enough ≤ depth → Network.read host depth id n ≠ none) : (valueOf host id).run n ≠ none := by
  have hpos : 0 < n.readDepth := by unfold readDepth; omega
  rw [run_apply]
  exact readFrom_ne_none h hpos

end Depth

/-- A computation on the network keeps the books. -/
def KeepsBooks (α : Type) (x : Reading N (Run N A σ) α) : Prop :=
  ∀ n : Network N A σ, n.Bookkept → Leads False x.run n fun _ n' => n'.Bookkept

theorem closed_keepsBooks : Reading.Closed (KeepsBooks (N := N) (A := A) (σ := σ)) where
  pure a _ h := .of_pure h
  throw fault _ h := .of_pure h
  bind {_ _ x next} hx hnext n h := by
    refine (hx n h).bind fun result n' h' => ?_
    cases result with
    | error fault => exact .of_pure h'
    | ok a => exact hnext a n' h'

theorem keepsBooks_lift {α : Type} {run : Run N A σ α}
    (h : ∀ n : Network N A σ, n.Bookkept → Leads False run n fun _ n' => n'.Bookkept) :
    KeepsBooks α (ExceptT.lift run) := fun n hn => (h n hn).bind fun _ _ h' => .of_pure h'

/-- A computation that records keeps the books. -/
def KeepsBooksRecording (α : Type) (x : Reading N (Recording N A σ) α) : Prop :=
  ∀ (recorded : List (DependencyKey × Topic)) (n : Network N A σ), n.Bookkept →
    Leads False (x.run.run recorded) n fun _ n' => n'.Bookkept

theorem closed_keepsBooksRecording :
    Reading.Closed (KeepsBooksRecording (N := N) (A := A) (σ := σ)) where
  pure a _ _ h := .of_pure h
  throw fault _ _ h := .of_pure h
  bind {_ _ x next} hx hnext recorded n h := by
    exact leads_reading_bind (hx recorded n h) (fun a recorded' n' h' => hnext a recorded' n' h')
      fun fault recorded' n' h' => h'

section Read

variable {host : Host N A σ} (hhost : host.Harmless)

theorem keepsBooks_onNetwork {α : Type} {run : Run N A σ α}
    (h : ∀ n : Network N A σ, n.Bookkept → Leads False run n fun _ n' => n'.Bookkept) :
    KeepsBooksRecording α (onNetwork run) := by
  intro recorded n hn
  have hpure : Leads False ((onNetwork run >>= pure).run.run recorded) n fun _ n' => n'.Bookkept :=
    leads_onNetwork_bind (h n hn) fun a n' h' => .of_pure h'
  rwa [bind_pure] at hpure

theorem keepsBooks_record (key : DependencyKey) (topic : Topic) :
    KeepsBooksRecording (N := N) (A := A) (σ := σ) Unit (record key topic) :=
  fun _ _ h => .of_pure h

theorem keepsBooks_derive (request : MetaStat N) :
    KeepsBooks (A := A) (σ := σ) _ (derive request) := by
  intro n h
  refine .get_bind ?_
  cases hcatalog : n.catalog with
  | none => exact .of_pure h
  | some catalog =>
    have hs (catalog : Option (Catalog N)) : n.SameBooks { n with catalog } :=
      .of_tables rfl rfl rfl rfl rfl rfl rfl (fun _ _ h => h) fun _ h => h
    exact .of_eq rfl (h.of_sameBooks (hs _))

include hhost

/-- Everything that a formula looks up keeps the books. -/
theorem keepsBooks_lookup {read : Nat → Reading N (Run N A σ) (Option (Amount N))}
    (hread : ∀ id, KeepsBooks _ (read id)) (path : Path (Stat N)) :
    (recordingLookup host read path).Within KeepsBooksRecording := by
  have hQ : Reading.Closed (KeepsBooksRecording (N := N) (A := A) (σ := σ)) :=
    closed_keepsBooksRecording
  have hget : KeepsBooksRecording (N := N) (A := A) (σ := σ) _ (onNetwork get) :=
    keepsBooks_onNetwork fun _ h => .of_get h
  have hin (id : Nat) : KeepsBooksRecording _ (readIn read id) := fun recorded n h =>
    (hread id n h).bind fun _ _ h' => .of_pure h'
  refine ⟨fun stat => ?_, fun stat stage path => ?_, fun form places => ?_, fun request => ?_,
    fun text => ?_⟩
  · refine hQ.bind (keepsBooks_onNetwork fun n h => (h.pathSetOf hhost stat).weaken fun _ _ h => h.1)
      fun set => hQ.bind (keepsBooks_record _ _) fun _ => hQ.bind hget fun n => hQ.pure _
  · refine hQ.bind (keepsBooks_onNetwork fun n h => (h.nodesOf hhost stat stage _).weaken fun _ _ h => h.1)
      fun e => hQ.bind (keepsBooks_record _ _) fun _ => hin e.exposed
  · refine hQ.bind (hQ.mapM fun place _ => ?_) fun values => hQ.pure _
    refine hQ.bind (keepsBooks_onNetwork fun n h =>
      (h.collectionOf hhost place.1 form place.2).weaken fun _ _ h => h.1) fun e => ?_
    exact hQ.bind (keepsBooks_record _ _) fun _ => hQ.bind hget fun n => hQ.mapM fun id _ => hin id
  · exact fun recorded n h => (keepsBooks_derive request n h).bind fun _ _ h' => .of_pure h'
  · exact keepsBooks_onNetwork fun n h => ((hhost.note text).bookkept h).weaken fun _ _ h => h.1

/-- Reading an input keeps the books. -/
theorem keepsBooks_readInput {read : Nat → Reading N (Run N A σ) (Option (Amount N))}
    (hread : ∀ id, KeepsBooks _ (read id)) (action : A) :
    KeepsBooks _ (readInput host read action) := by
  have hsupply : KeepsBooks _ (liftM (host.supply action) : Reading N (Run N A σ) _) :=
    keepsBooks_lift fun n h => ((hhost.supply action).bookkept h).weaken fun _ _ h => h.1
  refine closed_keepsBooks.bind hsupply fun supply => ?_
  cases supply with
  | value v => exact closed_keepsBooks.pure v
  | fault fault => exact closed_keepsBooks.throw fault
  | node id => exact hread id

variable [Number N]

/-- Evaluating the formula of a node keeps the books. -/
theorem keepsBooks_readFormula {read : Nat → Reading N (Run N A σ) (Option (Amount N))}
    (hread : ∀ id, KeepsBooks _ (read id)) (id : Nat) (f : FormulaNode N) :
    KeepsBooks _ (readFormula host read id f) := by
  intro n h
  cases hreleased : n.released with
  | true => exact .of_eq (readFormula_released host read id f hreleased) h
  | false =>
    refine .congr ?_ (readFormula_eq host read id f hreleased)
    have hmeaning := n.within_meaning f.source (closed_keepsBooksRecording (A := A) (σ := σ))
    refine (hmeaning _ (keepsBooks_lookup hhost hread f.path) [] n h).bind fun result n₁ h₁ => ?_
    exact ((quietly_resubscribe id result.2).bookkept h₁).bind fun _ n₂ h₂ => .of_pure h₂.1

omit hhost [Number N] in
/-- Reading a cached node keeps the books if its computation does. -/
theorem keepsBooks_readCached {read : Nat → Reading N (Run N A σ) (Option (Amount N))}
    (hread : ∀ id, KeepsBooks _ (read id)) (id : Nat) (c : CachedNode N A) :
    KeepsBooks _ (readCached read id c) := by
  have hobserve {n : Network N A σ} (h : n.Bookkept) :
      (n.modifyCached id fun c => { c with observed := true }).Bookkept :=
    h.of_sameBooks (n.sameBooks_modifyCached id fun _ => rfl)
  intro n h
  cases hcache : c.cache with
  | some v => exact leads_readCached_kept hcache (hobserve h)
  | none =>
    cases hentered : c.guard.entered with
    | true => exact leads_readCached_entered hcache hentered (hobserve h)
    | false =>
      have henter := h.of_sameBooks (n.sameBooks_modifyCached id (f := CachedNode.enter) fun _ => rfl)
      refine leads_readCached_computed hcache hentered ((hread c.inner _ henter).weaken ?_)
      intro result n' h'
      exact hobserve (h'.of_sameBooks
        (n'.sameBooks_modifyCached id (f := CachedNode.leave result) fun _ => rfl))

/-- Reading a node keeps the books, at whatever depth nodes read each other. -/
theorem keepsBooks_read : ∀ depth id : Nat, KeepsBooks _ (Network.read host depth id)
  | 0, _ => fun _ _ => ⟨False.elim, nofun⟩
  | depth + 1, id => by
    intro n h
    have ih := keepsBooks_read depth
    cases hbody : n.body? id with
    | none => exact ⟨False.elim, fun hrun => by simp [read_of_none host depth hbody] at hrun⟩
    | some body =>
      refine .congr ?_ (read_apply host depth hbody)
      cases body with
      | input action => exact keepsBooks_readInput hhost ih action n h
      | absent => exact .of_pure h
      | formula f => exact keepsBooks_readFormula hhost ih id f n h
      | cached c => exact keepsBooks_readCached ih id c n h
      | exposed inner => exact ih inner n h
      | wrapped inner _ => exact ih inner n h
      | aggregate a =>
        have hall : KeepsBooks _ (readAll (Network.read host depth) (n.memberNodes a.collection)) :=
          closed_keepsBooks.mapM fun id _ => ih id
        exact closed_keepsBooks.bind hall (fun _ => closed_keepsBooks.ofExcept _) n h

theorem keepsBooks_valueOf (id : Nat) : KeepsBooks _ (Network.valueOf host id) := fun n h =>
  .valueOf fun depth => keepsBooks_read hhost depth id n h

end Read

/-! ## Batches and sweeps -/

section Batches

variable {host : Host N A σ} (hhost : host.Harmless)

include hhost in
/-- A batch keeps the books if what runs in it does, and stats stay listed. -/
theorem Bookkept.batch {α : Type} {body : Run N A σ α}
    (hbody : ∀ n : Network N A σ, n.Bookkept → Leads False body n fun _ n' => n'.Bookkept ∧ n.Enlists n')
    {n : Network N A σ} (h : n.Bookkept) :
    Leads False (batch host body) n fun _ n' => n'.Bookkept ∧ n.Enlists n' := by
  have hset (n : Network N A σ) (buffer : Buffer) : n.SameBooks { n with buffer } :=
    .of_tables rfl rfl rfl rfl rfl rfl rfl (fun _ _ h => h) fun _ h => h
  have hopened := hset n { n.buffer with depth := n.buffer.depth + 1 }
  refine .modify_bind ((hbody _ (h.of_sameBooks hopened)).bind ?_)
  rintro a n₁ ⟨h₁, hlists⟩
  have hclosed := hset n₁ { n₁.buffer with depth := n₁.buffer.depth - 1 }
  have h₂ := h₁.of_sameBooks hclosed
  have hlists₂ := ((Gains.of_sameBooks hopened).toEnlists.trans hlists).trans
    (Gains.of_sameBooks hclosed).toEnlists
  refine .modify_bind (.get_bind ?_)
  split
  · refine .get_bind (((quietly_flush hhost _).bookkept h₂).bind fun _ _ ⟨h₃, hs₃⟩ => .of_pure ?_)
    exact ⟨h₃, hlists₂.trans (Gains.of_sameBooks hs₃).toEnlists⟩
  · exact .of_pure ⟨h₂, hlists₂⟩

/-- Noting that nothing owns a node any more keeps the books. -/
theorem Bookkept.disown (id : Nat) {n : Network N A σ} (h : n.Bookkept) :
    Leads False (disown id) n fun _ n' => n'.Bookkept := by
  refine .of_modify ⟨h.balanced, h.sets_lt, h.collections_lt, fun c => ?_⟩
  refine (h.aligned c).imp fun _ _ => Pairs.of_kind fun i kind hkind => ?_
  simp only [kind?, body?, Array.getElem?_modify] at hkind ⊢
  split
  · rw [← hkind]
    simp [Option.map_map, Function.comp_def]
  · exact hkind

/-- Letting go of nodes keeps the books. -/
theorem Bookkept.sweep (held : List Nat) {n : Network N A σ} (h : n.Bookkept) :
    Leads False (sweep held) n fun _ n' => n'.Bookkept := by
  refine .get_bind (.forM (fun id _ m hm => ?_) h)
  split
  · exact hm.disown id
  · refine .eq_bind (releaseSubscriptions_eq m id) ?_
    exact (hm.of_sameBooks (m.sameBooks_releasedAt id)).disown id

end Batches

end Network

/-! ## Books that agree -/

namespace Network

/-- The subgraphs in use, in the order they were made. -/
def inUse (n : Network N A σ) : List (Subgraph N) := n.live.filterMap (n.graphs[·]?)

/-- How often a path is counted in a set. -/
def pathCount (n : Network N A σ) (set : Nat) (path : Path (Stat N)) : Nat :=
  ((n.pathSets[set]?.bind fun s => s.entries.find? (·.1.same path)).map (·.2)).getD 0

/-- The books of a network agree with what is in use. -/
structure Agrees (n : Network N A σ) : Prop where
  /-- A stat has one subgraph. -/
  stats : (n.inUse.map (·.stat.key)).Nodup
  /-- A subgraph counts the modifiers in its collections. -/
  modifiers : ∀ g ∈ n.inUse,
    g.modifierCount = (g.forms.map fun e => (n.memberNodes e.collection).length).sum
  /-- The members of a collection and their formula nodes are for the same modifiers, one by one. -/
  aligned : ∀ g ∈ n.inUse, ∀ e ∈ g.forms, ∃ c, n.collections[e.collection]? = some c
    ∧ List.Forall₂ n.Pairs c.items c.formulas
  /-- A path is counted as often as there are nodes and collections on it. -/
  counted : ∀ g ∈ n.inUse, ∀ path, n.pathCount g.paths path = g.uses path.key
  /-- A path is listed if there is one. -/
  listed : ∀ g ∈ n.inUse, ∀ path : Path (Stat N), path.isIn (n.pathsIn g.paths) = true ↔ 0 < g.uses path.key
  /-- What does not depend on the path is computed on the main path only. -/
  once : ∀ g ∈ n.inUse, ∀ e ∈ g.nodes, e.stage.perPath = false → e.path = Path.main
  /-- The formulas of the nodes that exist are registered, each of them once. -/
  registered : ∀ key, (n.registrations.map (·.key)).count key
    = if ∃ g ∈ n.inUse, key ∈ g.keys then 1 else 0
  /-- A behavior is counted as often as stats in use declare it. -/
  installed : ∀ b, n.installationCount b = (n.inUse.flatMap (·.stat.behaviors)).countP (·.same b)

theorem pathCount_eq (n : Network N A σ) (set : Nat) (path : Path (Stat N)) :
    n.pathCount set path = Tally.count Path.key (n.books.counts set) path.key := by
  simp only [pathCount, Tally.count, books]
  cases n.pathSets[set]? with
  | none => rfl
  | some s => simp [Path.same, beq_eq_decide]

/-- Books that are kept agree. -/
theorem Bookkept.agrees {n : Network N A σ} (h : n.Bookkept) : n.Agrees where
  stats := h.balanced.stats
  modifiers g hg := by
    rw [(h.balanced.balances g hg).modifiers]
    refine congrArg List.sum (List.map_congr_left fun e _ => ?_)
    exact ((congrArg List.length (n.memberNodes_eq e.collection)).trans (List.length_map _)).symm
  aligned g hg e he := by
    obtain ⟨c, hc⟩ : ∃ c, n.collections[e.collection]? = some c :=
      ⟨_, Array.getElem?_eq_getElem (h.collections_lt g hg e he)⟩
    have := h.aligned e.collection
    simp only [books, hc] at this
    exact ⟨c, hc, this⟩
  counted g hg path := by
    rw [pathCount_eq, (h.balanced.balances g hg).counted]
  listed g hg path := by
    have hbalances := h.balanced.balances g hg
    have hpaths : n.pathsIn g.paths = (n.books.counts g.paths).map (·.1) := n.pathsIn_eq g.paths
    rw [← hbalances.counted, hbalances.paths.count_pos_iff, hpaths]
    simp [Path.isIn, Path.same]
  once g hg e he hper := by
    have := (h.balanced.balances g hg).once e he
    rwa [stagePath, if_neg (by simp [hper]), eq_comm] at this
  registered key := by
    have hnodup : (n.inUse.flatMap (·.keys)).Nodup := h.balanced.keys_nodup
    have hcount : (n.registrations.map (·.key)).count key = (n.inUse.flatMap (·.keys)).count key :=
      h.balanced.registered.count_eq key
    rw [hcount, hnodup.count]
    simp only [List.mem_flatMap]
  installed b := by
    have hcount : n.installationCount b = Tally.count Behavior.mark n.books.installed b.mark := by
      have hsame (e : Behavior N × Nat) : e.1.same b = decide (e.1.mark = b.mark) := by
        rw [Bool.eq_iff_iff, Behavior.same_iff, decide_eq_true_iff]
      simp only [installationCount, Tally.count, hsame]
      rfl
    rw [hcount, h.balanced.installed, List.count, List.countP_map]
    refine List.countP_congr fun x _ => ?_
    simp [Behavior.same_iff]

end Network

/-! ## Calls -/

namespace Calculator

/-- What a host can ask of a calculator. -/
inductive Call (N A : Type) where
  /-- Add a modifier, outside of any batch. -/
  | add (modifier : Modifier N)
  /-- Remove a modifier, outside of any batch. -/
  | remove (modifier : Modifier N)
  /-- Apply an update. -/
  | update (settings : Settings) (u : Update N)
  /-- Read a stage of a stat on a path. -/
  | value (stat : Stat N) (stage : Stage) (path : Path (Stat N))
  /-- Read what the modifiers of a form on a path of a stat come to. -/
  | form (stat : Stat N) (form : Form) (path : Path (Stat N))
  /-- List the paths of a stat. -/
  | paths (stat : Stat N)
  /-- Read a node. -/
  | read (node : Nat)
  /-- Remove what is unused. -/
  | prune
  /-- Attach a listener to a topic. -/
  | listen (topic : Topic) (action : A)
  /-- Detach a listener of the host, if it is one. -/
  | leave (s : Subscription)
  /-- Let go of the nodes that nothing owns; the given ones are held by the host. -/
  | sweep (held : List Nat)

/-- Whether a listener is called on behalf of the host. -/
def isOfHost (a : Attached A) : Bool :=
  match a.listener with
  | .host _ => true
  | _ => false

/-- Detach a listener of the host, if it is one. -/
def detachOwn (s : Subscription) : Run N A σ Unit := do
  if ((← get).listeners s.topic).any fun a => a.token == s.token && isOfHost a then
    detach s

/-- Carry out a call. What it answers is of no concern here. -/
def Call.run [Number N] (host : Host N A σ) : Call N A → Run N A σ Unit
  | .add modifier => addModifier host modifier
  | .remove modifier => discard (removeModifier host modifier)
  | .update settings u => Calculator.update host settings u
  | .value stat stage path => discard (Calculator.value host stat stage path).run
  | .form stat kind path => do
    let entry ← collectionOf host stat kind path
    discard (valueOf host entry.aggregate).run
  | .paths stat => discard (Calculator.paths host stat)
  | .read node => discard (valueOf host node).run
  | .prune => discard (removeUnused host)
  | .listen topic action => discard (attach topic (.host action))
  | .leave s => detachOwn s
  | .sweep held => Network.sweep held

variable [Number N]

/-- One call after another. -/
def runs (host : Host N A σ) (calls : List (Call N A)) : Run N A σ Unit :=
  calls.forM (Call.run host)

/-- What every call preserves holds after all of them. -/
theorem leads_runs {b : Prop} {host : Host N A σ} {I : Network N A σ → Prop} {calls : List (Call N A)}
    (hstep : ∀ call ∈ calls, ∀ n, I n → Leads b (call.run host) n fun _ => I) {n : Network N A σ}
    (h : I n) : Leads b (runs host calls) n fun _ => I := .forM hstep h

section Books

variable {host : Host N A σ} (hhost : host.Harmless)
include hhost

omit [Number N] in
/-- The batch of an update keeps the books, and stats stay listed. -/
theorem bookkept_updateBatch (u : Update N) {n : Network N A σ} (h : n.Bookkept) :
    Leads False (batch host do
        for modifier in u.removed do
          let _ ← removeModifier host modifier
        for modifier in u.added do
          addModifier host modifier) n fun _ n' => n'.Bookkept ∧ n.Enlists n' := by
  simp only [forIn_eq_forM, bind_pure_unit]
  refine h.batch hhost fun n h => ?_
  have hremoved : Leads False (u.removed.forM fun modifier => do
      let _ ← removeModifier host modifier) n fun _ n' => n'.Bookkept ∧ n.Enlists n' :=
    .forM (I := fun n' => n'.Bookkept ∧ n.Enlists n') (fun modifier _ _ h =>
      (h.1.removeModifier hhost modifier).bind fun _ _ h' => .of_pure ⟨h'.1, h.2.trans h'.2⟩) ⟨h, .refl n⟩
  refine hremoved.bind fun _ n₁ h₁ => ?_
  exact .forM (I := fun n' => n'.Bookkept ∧ n.Enlists n') (fun modifier _ _ h =>
    (h.1.addModifier hhost modifier).weaken fun _ _ => And.imp_right h.2.trans) h₁

omit [Number N] in
/-- An update keeps the books. -/
theorem bookkept_update (settings : Settings) (u : Update N) {n : Network N A σ} (h : n.Bookkept) :
    Leads False (Calculator.update host settings u) n fun _ n' => n'.Bookkept := by
  rw [Calculator.update]
  split
  · exact .of_pure h
  · refine (bookkept_updateBatch hhost u h).bind fun _ n₁ h₁ => ?_
    split
    · exact (h₁.1.removeUnused hhost).bind fun _ _ h₂ => .of_pure h₂
    · exact .of_pure h₁.1

/-- Every call keeps the books. -/
theorem bookkept_call (call : Call N A) {n : Network N A σ} (h : n.Bookkept) :
    Leads False (call.run host) n fun _ n' => n'.Bookkept := by
  have hread (id : Nat) {n : Network N A σ} (h : n.Bookkept) :
      Leads False (discard (valueOf host id).run) n fun _ n' => n'.Bookkept :=
    .discard (keepsBooks_valueOf hhost id n h)
  cases call with
  | add modifier => exact (h.addModifier hhost modifier).weaken fun _ _ h => h.1
  | remove modifier => exact .discard ((h.removeModifier hhost modifier).weaken fun _ _ h => h.1)
  | update settings u => exact bookkept_update hhost settings u h
  | value stat stage path =>
    have hnode : KeepsBooks _ (ExceptT.lift (Calculator.node host stat stage path)) :=
      keepsBooks_lift fun n h => (h.nodesOf hhost stat stage path).bind fun _ _ h => .of_pure h.1
    exact .discard (closed_keepsBooks.bind hnode (keepsBooks_valueOf hhost) n h)
  | form stat kind path =>
    exact (h.collectionOf hhost stat kind path).bind fun e _ h => hread e.aggregate h.1
  | paths stat =>
    exact .discard ((h.pathSetOf hhost stat).bind fun _ _ h => .get_bind (.of_pure h.1))
  | read node => exact hread node h
  | prune => exact .discard (h.removeUnused hhost)
  | listen topic action => exact .discard (((quietly_attach topic _).bookkept h).weaken fun _ _ h => h.1)
  | leave s =>
    refine .get_bind ?_
    split
    · exact ((quietly_detach s).bookkept h).weaken fun _ _ h => h.1
    · exact .of_pure h
  | sweep held => exact h.sweep held

/-- After every run the books are balanced. -/
theorem bookkept_runs (calls : List (Call N A)) {n : Network N A σ} (h : n.Bookkept) :
    Leads False (runs host calls) n fun _ n' => n'.Bookkept :=
  leads_runs (fun call _ _ h => bookkept_call hhost call h) h

omit [Number N] hhost in
theorem bookkept_start (settings : Settings) (catalog : Option (Catalog N)) (state : σ) :
    (start settings catalog state : Network N A σ).Bookkept := by
  have huse : (start settings catalog state : Network N A σ).books.inUse = [] := rfl
  refine ⟨Books.balanced_of_empty rfl rfl rfl, ?_, ?_, fun c => ?_⟩
  · simp [huse]
  · simp [huse]
  · exact .nil

/-- After every run of a calculator the books agree with what is in use, whatever was computed and
dropped on the way. -/
theorem agrees_of_runs (settings : Settings) (catalog : Option (Catalog N)) (state : σ)
    (calls : List (Call N A)) {n : Network N A σ}
    (h : runs host calls (start settings catalog state) = some ((), n)) : n.Agrees :=
  ((bookkept_runs hhost calls (bookkept_start settings catalog state)).partly h).agrees

end Books

/-- A modifier keeps its stat in use, and the books agree. -/
theorem agrees_of_addition : ∃ (modifier : Modifier Float) (n : Network Float Unit Unit),
    runs Host.idle [.add modifier, .prune] (start .standard none ()) = some ((), n)
      ∧ n.inUse.length = 1 ∧ n.Agrees := by
  let life : Stat Float := ⟨⟨"Life", .character⟩, none, none, .double, true, []⟩
  let modifier : Modifier Float := ⟨[life], .baseAdd, .constant none, 0, ⟨.global, ""⟩⟩
  have hlength : (runs Host.idle [.add modifier, .prune]
      (start .standard none () : Network Float Unit Unit)).map (fun r => r.2.inUse.length) = some 1 := by
    decide +kernel
  obtain ⟨r, hrun, hlength⟩ := Option.map_eq_some_iff.mp hlength
  exact ⟨modifier, r.2, hrun, hlength, agrees_of_runs Host.harmless_idle .standard none () _ hrun⟩

end Calculator

end StatEngine
