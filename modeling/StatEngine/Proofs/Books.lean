import StatEngine.Network.Prune
import StatEngine.Proofs.Outcome
import StatEngine.Proofs.Directory

/-!
# What is written down

Six tables say what a network is made of: the subgraphs in use with their nodes and collections, the
members of the collections, the counts of the paths, the behaviors that are installed, the formulas that
behaviors are applied to, and the stats that are listed for hosts (`Books`). Few steps write in them.
Announcements, subscriptions, flags and new nodes by themselves leave them alone (`Quietly`), whoever
listens, as long as the host does not write either (`Host.Harmless`).

## Main definitions

* `Books`: the tables;
* `SameBooks`: nothing is written, and nodes stay what they are made for;
* `Quietly`: a run that writes nothing.

## Main statements

* `quietly_emit`: an announcement writes nothing;
* `quietly_dispose` and `quietly_resubscribe`: neither does disposing a node, or subscribing it.
-/

namespace StatEngine

open Network

/-- What is written down about the subgraphs of a network. -/
structure Books (N : Type) where
  /-- The subgraphs. -/
  graphs : Array (Subgraph N)
  /-- The subgraphs in use. -/
  live : List Nat
  /-- The members of each collection. -/
  items : Nat → List (Nat × Modifier N)
  /-- The formula nodes of the members of each collection. -/
  formulas : Nat → List (Modifier N × Nat)
  /-- The paths in each set, with their counts. -/
  counts : Nat → List (Path (Stat N) × Nat)
  /-- The behaviors that are installed. -/
  installed : List (Behavior N × Nat)
  /-- The nodes whose formulas behaviors are applied to. -/
  registered : List NodeKey
  /-- The stats that are listed for hosts, with the nodes that show their totals. -/
  listed : List (Stat N × Nat)

namespace Network

variable {N A σ : Type}

/-- What is written down about a network. -/
def books (n : Network N A σ) : Books N where
  graphs := n.graphs
  live := n.live
  items c := (n.collections[c]?.map (·.items)).getD []
  formulas c := (n.collections[c]?.map (·.formulas)).getD []
  counts set := (n.pathSets[set]?.map (·.entries)).getD []
  installed := n.installed
  registered := n.registrations.map (·.key)
  listed := n.listing.entries

/-- Parts stay where they are, nodes stay what they are made for, and none is let go of. -/
structure Persists (n n' : Network N A σ) : Prop where
  kind : ∀ id kind, n.kind? id = some kind → n'.kind? id = some kind
  there : ∀ id, n.isPresent (.changed id) → n'.isPresent (.changed id)
  collections : n.collections.size ≤ n'.collections.size
  sets : n.pathSets.size ≤ n'.pathSets.size

theorem Persists.refl (n : Network N A σ) : n.Persists n :=
  ⟨fun _ _ h => h, fun _ h => h, le_rfl, le_rfl⟩

theorem Persists.trans {n n' n'' : Network N A σ} (h : n.Persists n') (h' : n'.Persists n'') :
    n.Persists n'' where
  kind id kind hkind := h'.kind id kind (h.kind id kind hkind)
  there id hid := h'.there id (h.there id hid)
  collections := h.collections.trans h'.collections
  sets := h.sets.trans h'.sets

/-- Nothing is written, and parts stay where they are. -/
structure SameBooks (n n' : Network N A σ) : Prop extends n.Persists n' where
  books : n'.books = n.books

namespace SameBooks

variable {n n' n'' : Network N A σ}

theorem refl (n : Network N A σ) : n.SameBooks n := ⟨.refl n, rfl⟩

theorem trans (h : n.SameBooks n') (h' : n'.SameBooks n'') : n.SameBooks n'' :=
  ⟨h.toPersists.trans h'.toPersists, h'.books.trans h.books⟩

/-- Tables that are the same hold the same. -/
theorem of_tables (hgraphs : n'.graphs = n.graphs) (hlive : n'.live = n.live)
    (hcollections : n'.collections = n.collections) (hsets : n'.pathSets = n.pathSets)
    (hinstalled : n'.installed = n.installed) (hregistrations : n'.registrations = n.registrations)
    (hlisted : n'.listing.entries = n.listing.entries)
    (hkind : ∀ id kind, n.kind? id = some kind → n'.kind? id = some kind)
    (hthere : ∀ id, n.isPresent (.changed id) → n'.isPresent (.changed id)) : n.SameBooks n' where
  books := by
    simp only [Network.books, hgraphs, hlive, hcollections, hsets, hinstalled, hregistrations, hlisted]
  kind := hkind
  there := hthere
  collections := hcollections ▸ le_rfl
  sets := hsets ▸ le_rfl

end SameBooks

section Steps

variable (n : Network N A σ)

theorem sameBooks_modifyListeners (topic : Topic) (f : List (Attached A) → List (Attached A)) :
    n.SameBooks (n.modifyListeners topic f) := by
  have hkind : ∀ id kind, n.kind? id = some kind → (n.modifyListeners topic f).kind? id = some kind :=
    fun id kind h => (n.kind?_modifyListeners topic f id).trans h
  have hthere : ∀ id, n.isPresent (.changed id) → (n.modifyListeners topic f).isPresent (.changed id) :=
    fun id h => (n.isPresent_modifyListeners topic f (.changed id)).trans h
  cases topic with
  | members c =>
    refine ⟨⟨hkind, hthere, ?_, le_rfl⟩, ?_⟩
    · simp [modifyListeners]
    · simp only [books, modifyListeners]
      congr 1 <;> funext i <;> rw [Array.getElem?_modify] <;> split
      all_goals first
        | rw [Option.map_map]; rfl
        | rfl
  | paths set =>
    refine ⟨⟨hkind, hthere, le_rfl, ?_⟩, ?_⟩
    · simp [modifyListeners]
    · simp only [books, modifyListeners]
      congr 1
      funext i
      rw [Array.getElem?_modify]
      split
      · rw [Option.map_map]
        rfl
      · rfl
  | changed | received | layers | listing | named => 
    exact .of_tables rfl rfl rfl rfl rfl rfl rfl hkind hthere

theorem sameBooks_subscribed (topic : Topic) (listener : Listener A) :
    n.SameBooks (n.subscribed topic listener) :=
  (n.sameBooks_modifyListeners topic _).trans
    (.of_tables rfl rfl rfl rfl rfl rfl rfl (fun _ _ h => h) fun _ h => h)

theorem sameBooks_unsubscribeAll (given : List Subscription) :
    n.SameBooks (n.unsubscribeAll given) :=
  n.unsubscribeAll_induction (P := n.SameBooks)
    (fun m topic f h => h.trans (m.sameBooks_modifyListeners topic f)) (.refl n) given

/-- A node that is made for the same is written down as it was. -/
theorem sameBooks_mapBody (id : Nat) {f : Body N A → Body N A}
    (hf : ∀ body, (f body).kind = body.kind) : n.SameBooks (n.mapBody id f) :=
  .of_tables rfl rfl rfl rfl rfl rfl rfl (fun i kind h => by
    rw [kind?, body?_mapBody]
    split
    · rw [Option.map_map]
      exact (congrArg (Option.map · (n.body? i)) (funext hf)).trans h
    · exact h) fun i h => (n.isPresent_mapBodies _ (.changed i)).trans h

theorem sameBooks_modifyCached (id : Nat) {f : CachedNode N A → CachedNode N A}
    (hf : ∀ c, (f c).inner = c.inner) : n.SameBooks (n.modifyCached id f) := by
  rw [modifyCached_eq_mapBody]
  refine n.sameBooks_mapBody id fun body => ?_
  cases body with
  | cached c => exact congrArg Kind.cached (hf c)
  | _ => rfl

theorem sameBooks_modifyFormula (id : Nat) {f : FormulaNode N → FormulaNode N}
    (hsource : ∀ x, (f x).source = x.source) (hpath : ∀ x, (f x).path = x.path) :
    n.SameBooks (n.modifyFormula id f) := by
  rw [modifyFormula_eq_mapBody]
  refine n.sameBooks_mapBody id fun body => ?_
  cases body with
  | formula x => exact congrArg₂ Kind.formula (hsource x) (hpath x)
  | _ => rfl

theorem sameBooks_modifyAggregate (id : Nat) {f : AggregateNode → AggregateNode}
    (hcollection : ∀ a, (f a).collection = a.collection) (hform : ∀ a, (f a).form = a.form) :
    n.SameBooks (n.modifyAggregate id f) := by
  rw [modifyAggregate_eq_mapBody]
  refine n.sameBooks_mapBody id fun body => ?_
  cases body with
  | aggregate a => exact congrArg₂ Kind.aggregate (hcollection a) (hform a)
  | _ => rfl

theorem sameBooks_setWrapping (id : Nat) (subscription : Option Subscription) :
    n.SameBooks (n.setWrapping id subscription) := by
  rw [setWrapping_eq_mapBody]
  exact n.sameBooks_mapBody id fun body => by cases body <;> rfl

theorem sameBooks_pushNode (body : Body N A) : n.SameBooks (n.pushNode body) :=
  .of_tables rfl rfl rfl rfl rfl rfl rfl (fun id kind h => by
    have hid : id ≠ n.nodes.size := by
      rintro rfl
      simp [kind?, body?_eq_none] at h
    rw [kind?_pushNode, if_neg hid, h]) fun _ => n.isPresent_pushNode_of_isPresent body

theorem sameBooks_pushHolding (topic : Topic) (listener : Nat → Listener A)
    (body : Subscription → Body N A) : n.SameBooks (n.pushHolding topic listener body) :=
  (n.sameBooks_subscribed topic _).trans ((n.subscribed topic _).sameBooks_pushNode _)

theorem sameBooks_releasedAt (id : Nat) : n.SameBooks (n.releasedAt id) :=
  (n.sameBooks_unsubscribeAll _).trans
    ((n.unsubscribeAll (n.held id)).sameBooks_mapBody id fun body => by cases body <;> rfl)

/-- A new collection has no members, as if it were there already. -/
theorem sameBooks_addCollection :
    n.SameBooks { n with collections := n.collections.push ⟨[], [], []⟩ } := by
  refine ⟨⟨fun _ _ h => h, fun _ h => h, by simp, le_rfl⟩, ?_⟩
  simp only [books]
  congr 1 <;> funext i <;> rw [Array.getElem?_push]
  all_goals
    split
    · next h => simp [h]
    · rfl

end Steps

/-! ## Runs that write nothing -/

/-- A run that writes nothing. -/
def Quietly {α : Type} (run : Run N A σ α) : Prop :=
  ∀ n, Leads False run n fun _ n' => n.SameBooks n'

namespace Quietly

variable {α β : Type}

theorem of_pure (a : α) : Quietly (pure a : Run N A σ α) := fun n => .of_pure (.refl n)

theorem of_exhausted : Quietly (exhausted : Run N A σ α) := fun _ => ⟨False.elim, nofun⟩

theorem of_modify {f : Network N A σ → Network N A σ} (h : ∀ n : Network N A σ, n.SameBooks (f n)) :
    Quietly (modify f : Run N A σ PUnit) := fun n => .of_modify (h n)

theorem bind {run : Run N A σ α} {next : α → Run N A σ β} (h : Quietly run)
    (hnext : ∀ a, Quietly (next a)) : Quietly (run >>= next) := fun n =>
  (h n).bind fun a n' hn' => (hnext a n').weaken fun _ _ => hn'.trans

theorem get_bind {next : Network N A σ → Run N A σ β} (hnext : ∀ n, Quietly (next n)) :
    Quietly (get >>= next) := fun n => .get_bind (hnext n n)

theorem modify_bind {f : Network N A σ → Network N A σ} {next : PUnit → Run N A σ β}
    (h : ∀ n : Network N A σ, n.SameBooks (f n)) (hnext : Quietly (next ⟨⟩)) : Quietly (modify f >>= next) :=
  (of_modify h).bind fun _ => hnext

theorem forM {step : α → Run N A σ PUnit} (h : ∀ a, Quietly (step a)) :
    ∀ l : List α, Quietly (l.forM step)
  | [] => of_pure _
  | a :: l => by
    rw [List.forM_eq_forM, List.forM_cons]
    exact (h a).bind fun _ => forM h l

theorem mapM {step : α → Run N A σ β} (h : ∀ a, Quietly (step a)) :
    ∀ l : List α, Quietly (l.mapM step)
  | [] => of_pure _
  | a :: l => by
    rw [List.mapM_cons]
    exact (h a).bind fun _ => (mapM h l).bind fun _ => of_pure _

end Quietly

theorem quietly_attach (topic : Topic) (listener : Listener A) :
    Quietly (attach topic listener : Run N A σ Subscription) := fun n =>
  .of_modifyGet (n.sameBooks_subscribed topic listener)

theorem quietly_detach (s : Subscription) : Quietly (detach s : Run N A σ Unit) :=
  .of_modify fun n => n.sameBooks_modifyListeners s.topic _

theorem quietly_addNode (body : Body N A) : Quietly (addNode body : Run N A σ Nat) := fun n =>
  .of_modifyGet (n.sameBooks_pushNode body)

/-- A host that writes nothing when it is called. -/
structure Host.Harmless (host : Host N A σ) : Prop where
  notified : ∀ action signal, Quietly (host.notified action signal)
  supply : ∀ action, Quietly (host.supply action)
  disposed : ∀ action, Quietly (host.disposed action)
  note : ∀ text, Quietly (host.note text)

theorem Host.harmless_idle : (Host.idle : Host N A σ).Harmless :=
  ⟨fun _ _ => .of_pure _, fun _ => .of_pure _, fun _ => .of_pure _, fun _ => .of_pure _⟩

section Cascades

variable {raise : Topic → Signal N → Run N A σ Unit}

theorem quietly_announce (hraise : ∀ topic signal, Quietly (raise topic signal)) (topic : Topic) :
    Quietly (announce raise topic) := .get_bind fun n => by
  split
  · exact .of_modify fun n => .of_tables rfl rfl rfl rfl rfl rfl rfl (fun _ _ h => h) fun _ h => h
  · exact hraise topic .changed

theorem quietly_invalidate (hraise : ∀ topic signal, Quietly (raise topic signal)) (id : Nat) :
    Quietly (invalidate raise id) := .get_bind fun n => by
  cases n.cached? id with
  | none => exact .of_pure _
  | some c =>
    refine .modify_bind (fun n => n.sameBooks_modifyCached id fun _ => rfl) ?_
    split
    · exact (hraise _ _).bind fun _ => quietly_announce hraise _
    · exact .of_pure _

theorem quietly_followMember (id member : Nat) :
    Quietly (followMember id member : Run N A σ Unit) := .get_bind fun _ =>
  (quietly_attach _ _).bind fun _ =>
    .of_modify fun n => n.sameBooks_modifyAggregate id (fun _ => rfl) fun _ => rfl

theorem quietly_unfollowMember (id member : Nat) :
    Quietly (unfollowMember id member : Run N A σ Unit) := .get_bind fun n => by
  split
  · exact .of_pure _
  · exact (quietly_detach _).bind fun _ =>
      .of_modify fun n => n.sameBooks_modifyAggregate id (fun _ => rfl) fun _ => rfl

theorem quietly_unfollowAll (id : Nat) : Quietly (unfollowAll id : Run N A σ Unit) :=
  .get_bind fun n => by
    split
    · exact .of_pure _
    · exact .modify_bind (fun n => n.sameBooks_unsubscribeAll _)
        (.of_modify fun n => n.sameBooks_modifyAggregate id (fun _ => rfl) fun _ => rfl)

theorem quietly_follow (hraise : ∀ topic signal, Quietly (raise topic signal)) (id : Nat)
    (signal : Signal N) : Quietly (follow raise id signal) := by
  cases signal with
  | added member => exact (quietly_followMember id member).bind fun _ => hraise _ _
  | removed member => exact (quietly_unfollowMember id member).bind fun _ => hraise _ _
  | reset =>
    refine (quietly_unfollowAll id).bind fun _ => .get_bind fun n => ?_
    split
    · exact (Quietly.forM (quietly_followMember id) _).bind fun _ => hraise _ _
    · exact (Quietly.of_pure _).bind fun _ => hraise _ _
  | changed | listed | unlisted => exact hraise _ _

variable {host : Host N A σ} (hhost : host.Harmless)
include hhost

theorem quietly_deliver (hraise : ∀ topic signal, Quietly (raise topic signal))
    (listener : Listener A) (signal : Signal N) : Quietly (deliver host raise listener signal) := by
  cases listener with
  | invalidate id =>
    refine .get_bind fun n => ?_
    split
    · exact quietly_invalidate hraise id
    · exact .of_pure _
  | relay id =>
    refine .get_bind fun n => ?_
    split
    · exact hraise _ _
    · exact .of_pure _
  | follow id =>
    refine .get_bind fun n => ?_
    split
    · exact quietly_follow hraise id signal
    · exact .of_pure _
  | host action =>
    exact hhost.notified action signal

theorem quietly_raise : ∀ (fuel : Nat) (topic : Topic) (signal : Signal N),
    Quietly (Network.raise host fuel topic signal)
  | 0, _, _ => .of_exhausted
  | fuel + 1, _, signal => .get_bind fun _ =>
    .forM (fun attached : Attached A => quietly_deliver hhost (quietly_raise fuel) attached.listener signal) _

/-- An announcement writes nothing. -/
theorem quietly_emit (topic : Topic) (signal : Signal N) : Quietly (emit host topic signal) :=
  .get_bind fun _ => quietly_raise hhost _ topic signal

/-- Making the announcements that were held back writes nothing. -/
theorem quietly_flush : ∀ fuel : Nat, Quietly (flush host fuel)
  | 0 => .of_exhausted
  | fuel + 1 => .get_bind fun n => by
    refine .modify_bind (fun n => .of_tables rfl rfl rfl rfl rfl rfl rfl (fun _ _ h => h) fun _ h => h) ?_
    split
    · exact .of_pure _
    · exact (Quietly.forM (fun topic => quietly_emit hhost topic .changed) _).bind fun _ =>
        quietly_flush fuel

end Cascades

/-! ## Nodes -/

theorem quietly_addExposed (inner : Nat) : Quietly (addExposed inner : Run N A σ Nat) :=
  quietly_addNode _

theorem quietly_addFormula (formula : Formula N) (path : Path (Stat N)) :
    Quietly (addFormula formula path : Run N A σ Nat) := quietly_addNode _

theorem quietly_addLayered (initial : Formula N) :
    Quietly (addLayered initial : Run N A σ Nat) := fun _ =>
  .of_modifyGet (.of_tables rfl rfl rfl rfl rfl rfl rfl (fun _ _ h => h) fun _ h => h)

theorem quietly_addLayeredFormula (layered : Nat) (path : Path (Stat N)) :
    Quietly (addLayeredFormula layered path : Run N A σ Nat) :=
  (quietly_addNode _).bind fun id => (quietly_attach _ _).bind fun _ =>
    .modify_bind (fun n => n.sameBooks_modifyFormula id (fun _ => rfl) fun _ => rfl) (.of_pure id)

theorem quietly_addCached (inner : Nat) (label : String) :
    Quietly (addCached inner label : Run N A σ Nat) :=
  (quietly_addNode _).bind fun id => .get_bind fun _ => (quietly_attach _ _).bind fun _ =>
    .modify_bind (fun n => n.sameBooks_modifyCached id fun _ => rfl) (.of_pure id)

theorem quietly_addWrapped (inner : Nat) : Quietly (addWrapped inner : Run N A σ Nat) :=
  (quietly_addNode _).bind fun id => (quietly_attach _ _).bind fun _ =>
    .modify_bind (fun n => n.sameBooks_setWrapping id _) (.of_pure id)

theorem quietly_addCollection : Quietly (addCollection : Run N A σ Nat) := fun n =>
  .of_modifyGet n.sameBooks_addCollection

theorem quietly_addAggregate (collection : Nat) (form : Form) :
    Quietly (addAggregate collection form : Run N A σ Nat) :=
  (quietly_addNode _).bind fun id => (quietly_attach _ _).bind fun _ =>
    .modify_bind (fun n => n.sameBooks_modifyAggregate id (fun _ => rfl) fun _ => rfl)
      (.get_bind fun _ => (Quietly.forM (quietly_followMember id) _).bind fun _ => .of_pure id)

/-- Disposing a node writes nothing. -/
theorem quietly_dispose {host : Host N A σ} (hhost : host.Harmless) (id : Nat) :
    Quietly (dispose host id) := by
  induction id using Nat.strongRecOn with
  | ind id ih =>
    rw [dispose]
    refine Quietly.bind (fun n => .of_eq (releaseSubscriptions_eq n id) (n.sameBooks_releasedAt id))
      fun _ => .get_bind fun n => ?_
    split
    · refine .modify_bind (fun n => n.sameBooks_modifyCached id fun _ => rfl) ?_
      split
      · next hlt => exact ih _ hlt
      · exact .of_pure _
    · split
      · next hlt => exact ih _ hlt
      · exact .of_pure _
    · exact hhost.disposed _
    · exact .of_pure _

/-- Subscribing a formula node writes nothing. -/
theorem quietly_resubscribe (id : Nat) (recorded : List (DependencyKey × Topic)) :
    Quietly (resubscribe id recorded : Run N A σ Unit) := .get_bind fun n => by
  split
  · exact .of_pure _
  · refine .modify_bind (fun n => n.sameBooks_unsubscribeAll _) (.get_bind fun _ => ?_)
    exact (Quietly.mapM (fun r => (quietly_attach _ _).bind fun _ => .of_pure _) _).bind fun _ =>
      .of_modify fun n => n.sameBooks_modifyFormula id (fun _ => rfl) fun _ => rfl

/-! ## The list for hosts -/

theorem persists_listing (n : Network N A σ) (entries : List (Stat N × Nat)) :
    n.Persists { n with listing := { n.listing with entries } } :=
  ⟨fun _ _ h => h, fun _ h => h, le_rfl, le_rfl⟩

/-- Listing a stat writes nothing but that it is listed. -/
theorem books_list {host : Host N A σ} (hhost : host.Harmless) (stat : Stat N) (total : Nat)
    (n : Network N A σ) : Leads False (list host stat total) n fun _ n' => n.Persists n'
      ∧ ∃ listed, n'.books = { n.books with listed } ∧ n.books.listed ⊆ listed
        ∧ ∃ x ∈ listed, x.1.key = stat.key := by
  refine .get_bind ?_
  split
  next hlisted =>
    obtain ⟨x, hx, hsame⟩ := List.any_eq_true.mp hlisted
    exact .of_pure ⟨.refl n, _, rfl, List.Subset.refl _, x, hx, beq_iff_eq.mp hsame⟩
  next =>
    refine (quietly_addWrapped total n).bind fun id n₁ h₁ => .modify_bind ?_
    refine (quietly_emit hhost _ _ _).weaken fun _ n' h' => ⟨?_, n₁.books.listed ++ [(stat, id)], ?_, ?_, ?_⟩
    · exact (h₁.toPersists.trans (n₁.persists_listing _)).trans h'.toPersists
    · rw [h'.books, ← h₁.books]
      rfl
    · rw [h₁.books]
      exact List.subset_append_left _ _
    · exact ⟨_, List.mem_append_right _ (List.mem_singleton_self _), rfl⟩

/-- Taking a stat off the list writes nothing but that. -/
theorem books_unlist {host : Host N A σ} (hhost : host.Harmless) (stat : Stat N) (n : Network N A σ) :
    Leads False (unlist host stat) n fun _ n' => n.Persists n'
      ∧ ∃ listed, n'.books = { n.books with listed } := by
  refine .get_bind ?_
  split
  · exact .of_pure ⟨.refl n, _, rfl⟩
  · refine .modify_bind ((quietly_dispose hhost _ _).bind fun _ n₁ h₁ =>
      (quietly_emit hhost _ _ n₁).bind fun _ n' h' => .of_pure ⟨?_, _, (h'.books.trans h₁.books).trans rfl⟩)
    exact ((n.persists_listing _).trans h₁.toPersists).trans h'.toPersists

end Network

end StatEngine
