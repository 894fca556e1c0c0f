import StatEngine.Network.Read
import StatEngine.Proofs.Requests

/-!
# What formulas subscribe to

After a formula was evaluated it is subscribed to just what the evaluation recorded: subscriptions that
are still good are kept, others are given back, and new ones are made (`resubscribe`). Other nodes are
left as they are, and so is what is on file.

## Main statements

* `leads_resubscribe`: the invariant is kept, and what was recorded is what is subscribed to.
-/

namespace StatEngine.Network

variable {N A σ : Type} {sc : Regime N} {n : Network N A σ}

/-! ## Subscriptions of a formula -/

/-- The network with other dependencies of a formula. -/
def withDependencies (n : Network N A σ) (id : Nat) (ds : List (DependencyKey × Subscription)) :
    Network N A σ :=
  n.mapBody id (Body.mapFormula fun f => { f with dependencies := ds })

/-- The network with a node more on each of the given topics. -/
def relayed (n : Network N A σ) (id : Nat) (rs : List (DependencyKey × Topic)) : Network N A σ :=
  rs.foldl (fun n r => n.subscribed r.2 (.relay id)) n

/-- The subscriptions that are made one after another. -/
def subscriptions (token : Nat) : List (DependencyKey × Topic) → List (DependencyKey × Subscription)
  | [] => []
  | (key, topic) :: rs => (key, ⟨topic, token⟩) :: subscriptions (token + 1) rs

theorem map_subscriptions (token : Nat) (rs : List (DependencyKey × Topic)) :
    (subscriptions token rs).map (fun d => (d.1, d.2.topic)) = rs := by
  induction rs generalizing token with
  | nil => rfl
  | cons r rs ih => rw [subscriptions, List.map_cons, ih]

/-- What attaching a node to one topic after another does. -/
theorem mapM_attach_eq (id : Nat) (rs : List (DependencyKey × Topic)) (n : Network N A σ) :
    (rs.mapM fun r => (return (r.1, ← attach r.2 (.relay id)) :
      Run N A σ (DependencyKey × Subscription))) n
      = some (subscriptions n.nextToken rs, n.relayed id rs) := by
  induction rs generalizing n with
  | nil => rfl
  | cons r rs ih =>
    obtain ⟨key, topic⟩ := r
    rw [List.mapM_cons]
    change ((do
      let bs ← rs.mapM fun r => (return (r.1, ← attach r.2 (.relay id)) :
        Run N A σ (DependencyKey × Subscription))
      pure ((key, (⟨topic, n.nextToken⟩ : Subscription)) :: bs) : Run N A σ _))
        (n.subscribed topic (.relay id)) = _
    exact bind_apply (ih (n.subscribed topic (.relay id)))

section Relayed

variable (n) (id : Nat) (rs : List (DependencyKey × Topic))

theorem relayed_induction {P : Network N A σ → Prop}
    (hstep : ∀ m topic, P m → P (m.subscribed topic (.relay id))) (h : P n) : P (n.relayed id rs) := by
  induction rs generalizing n with
  | nil => exact h
  | cons r rs ih => exact ih _ (hstep n r.2 h)

@[simp]
theorem view?_relayed (i : Nat) : (n.relayed id rs).view? i = n.view? i :=
  n.relayed_induction id rs (P := fun m => m.view? i = n.view? i)
    (fun m topic h => (m.view?_subscribed i topic _).trans h) rfl

@[simp]
theorem size_relayed : (n.relayed id rs).nodes.size = n.nodes.size :=
  n.relayed_induction id rs (P := fun m => m.nodes.size = n.nodes.size)
    (fun m topic h => (m.size_subscribed topic _).trans h) rfl

@[simp]
theorem isPresent_relayed (t : Topic) : (n.relayed id rs).isPresent t = n.isPresent t :=
  n.relayed_induction id rs (P := fun m => m.isPresent t = n.isPresent t)
    (fun m topic h => (m.isPresent_subscribed topic _ t).trans h) rfl

@[simp]
theorem hasTopic_relayed (t : Topic) : (n.relayed id rs).hasTopic t ↔ n.hasTopic t :=
  n.relayed_induction id rs (P := fun m => m.hasTopic t ↔ n.hasTopic t)
    (fun m topic h => (m.hasTopic_subscribed topic _ t).trans h) Iff.rfl

@[simp]
theorem registry_relayed : (n.relayed id rs).registry = n.registry :=
  n.relayed_induction id rs (P := fun m => m.registry = n.registry)
    (fun m topic h => (m.registry_subscribed topic _).trans h) rfl

/-- Whoever listens then listened before, or is the node on one of the topics. -/
theorem mem_listeners_relayed {t : Topic} {attached : Attached A}
    (h : attached ∈ (n.relayed id rs).listeners t) :
    attached ∈ n.listeners t ∨ attached.listener = .relay id ∧ ∃ r ∈ rs, r.2 = t := by
  induction rs generalizing n with
  | nil => exact .inl h
  | cons r rs ih =>
    obtain h | ⟨hl, r', hr', ht⟩ := ih (n.subscribed r.2 (.relay id)) h
    · by_cases ht : t = r.2
      · by_cases htopic : n.hasTopic r.2
        · rw [ht, listeners_subscribed_self _ _ htopic] at h
          refine (List.mem_append.mp h).imp (fun h => ht ▸ h) fun h => ?_
          rw [List.mem_singleton.mp h]
          exact ⟨rfl, r, List.mem_cons_self, ht.symm⟩
        · rw [listeners_eq_nil_of_not_hasTopic] at h
          · cases h
          · rw [hasTopic_subscribed]
            exact ht ▸ htopic
      · rw [listeners_subscribed_of_ne _ _ ht] at h
        exact .inl h
    · exact .inr ⟨hl, r', List.mem_cons_of_mem _ hr', ht⟩

theorem listeners_relayed_of_forall {t : Topic} (h : ∀ r ∈ rs, r.2 ≠ t) :
    (n.relayed id rs).listeners t = n.listeners t := by
  induction rs generalizing n with
  | nil => rfl
  | cons r rs ih =>
    refine (ih _ fun r' hr' => h r' (List.mem_cons_of_mem _ hr')).trans ?_
    exact listeners_subscribed_of_ne _ _ (h r List.mem_cons_self).symm

end Relayed

section WithDependencies

variable (n) (id : Nat) (ds : List (DependencyKey × Subscription))

@[simp]
theorem listeners_withDependencies (t : Topic) :
    (n.withDependencies id ds).listeners t = n.listeners t :=
  n.listeners_mapBodies (fun i body => by
    split
    · cases body <;> rfl
    · rfl) t

@[simp]
theorem isPresent_withDependencies (t : Topic) :
    (n.withDependencies id ds).isPresent t = n.isPresent t := n.isPresent_mapBodies _ t

@[simp]
theorem kind?_withDependencies (i : Nat) : (n.withDependencies id ds).kind? i = n.kind? i :=
  n.map_body?_mapBodies i Body.kind fun _ body => by
    split
    · cases body <;> rfl
    · rfl

@[simp]
theorem flags?_withDependencies (i : Nat) : (n.withDependencies id ds).flags? i = n.flags? i :=
  congrArg Option.join (n.map_body?_mapBodies i Body.flags? fun _ body => by
    split
    · cases body <;> rfl
    · rfl)

@[simp]
theorem followed_withDependencies (i : Nat) :
    (n.withDependencies id ds).followed i = n.followed i :=
  congrArg (·.getD []) (n.map_body?_mapBodies i Body.followed fun _ body => by
    split
    · cases body <;> rfl
    · rfl)

theorem held_withDependencies_of_ne {i : Nat} (h : i ≠ id) :
    (n.withDependencies id ds).held i = n.held i := held_of_view (n.view?_mapBody_of_ne id h _)

@[simp]
theorem size_withDependencies : (n.withDependencies id ds).nodes.size = n.nodes.size :=
  n.size_mapBodies _

@[simp]
theorem registry_withDependencies : (n.withDependencies id ds).registry = n.registry := rfl

@[simp]
theorem hasTopic_withDependencies (t : Topic) :
    (n.withDependencies id ds).hasTopic t ↔ n.hasTopic t := by
  cases t with
  | changed i => simp [hasTopic]
  | received i => simp [hasTopic]
  | _ => exact Iff.rfl

variable {n} {f : FormulaNode N} (hf : n.formula? id = some f)
include hf

theorem held_withDependencies :
    (n.withDependencies id ds).held id = ds.map (·.2) ++ f.trigger.toList := by
  rw [withDependencies, held, body?_mapBody, if_pos rfl, formula?_eq_some_iff.mp hf]
  rfl

theorem recorded_withDependencies : (n.withDependencies id ds).recorded id = ds := by
  rw [withDependencies, recorded, body?_mapBody, if_pos rfl, formula?_eq_some_iff.mp hf]
  rfl

end WithDependencies

/-- The formula node that a body is. -/
def Body.formulaNode? : Body N A → Option (FormulaNode N)
  | .formula f => some f
  | _ => none

theorem formula?_eq (n : Network N A σ) (id : Nat) :
    n.formula? id = ((n.body? id).map Body.formulaNode?).join := by
  obtain hnode | ⟨⟨body, attached, gone⟩, hnode⟩ := Option.eq_none_or_eq_some n.nodes[id]?
  · simp [formula?, body?, hnode]
  · cases body <;> simp [formula?, body?, hnode, Body.formulaNode?]

theorem exists_formula? {id : Nat} {source : FormulaSource N} {path : Path (Stat N)}
    (hkind : n.kind? id = some (.formula source path)) : ∃ f, n.formula? id = some f := by
  obtain ⟨body, hbody, hbodykind⟩ := Option.map_eq_some_iff.mp hkind
  cases body with
  | formula f => exact ⟨f, formula?_eq_some_iff.mpr hbody⟩
  | _ => cases hbodykind

@[simp]
theorem formula?_modifyListeners (n : Network N A σ) (topic : Topic)
    (f : List (Attached A) → List (Attached A)) (id : Nat) :
    (n.modifyListeners topic f).formula? id = n.formula? id := by
  rw [formula?_eq, formula?_eq, n.map_body?_modifyListeners topic f Body.formulaNode?
    (fun body => by cases body <;> rfl) id]

@[simp]
theorem formula?_subscribed (n : Network N A σ) (topic : Topic) (listener : Listener A) (id : Nat) :
    (n.subscribed topic listener).formula? id = n.formula? id := n.formula?_modifyListeners topic _ id

@[simp]
theorem formula?_unsubscribeAll (n : Network N A σ) (given : List Subscription) (id : Nat) :
    (n.unsubscribeAll given).formula? id = n.formula? id :=
  n.unsubscribeAll_induction (P := fun m => m.formula? id = n.formula? id)
    (fun m topic f h => (m.formula?_modifyListeners topic f id).trans h) rfl given

section FormulaNode

variable {id : Nat} {f : FormulaNode N} (hf : n.formula? id = some f)

include hf

theorem isFormula_of_formula? : n.IsFormula id := by
  refine ⟨f.source, f.path, ?_⟩
  rw [kind?, formula?_eq_some_iff.mp hf]
  rfl

/-- A formula is attached to what it recorded, and to what it was made with. -/
theorem held_of_formula? : n.held id = f.dependencies.map (·.2) ++ f.trigger.toList := by
  rw [held, formula?_eq_some_iff.mp hf]
  rfl

theorem recorded_of_formula? : n.recorded id = f.dependencies := by
  rw [recorded, formula?_eq_some_iff.mp hf]
  rfl

/-- What keeps a value computes nothing itself. -/
theorem ne_of_cached {i j : Nat} (h : n.kind? i = some (.cached j)) : i ≠ id := by
  rintro rfl
  obtain ⟨_, _, hkind⟩ := isFormula_of_formula? hf
  cases h.symm.trans hkind

end FormulaNode

/-- The books agree after a formula subscribed to more topics. -/
theorem Ledger.relayed {id : Nat} {f : FormulaNode N} (rs : List (DependencyKey × Topic)) :
    ∀ {n : Network N A σ} {ds : List (DependencyKey × Subscription)}, n.formula? id = some f →
      (n.withDependencies id ds).Ledger → (∀ r ∈ rs, n.hasTopic r.2) →
      ((n.relayed id rs).withDependencies id (ds ++ subscriptions n.nextToken rs)).Ledger := by
  induction rs with
  | nil =>
    intro n ds _ h _
    rwa [subscriptions, List.append_nil]
  | cons r rs ih =>
    intro n ds hf h htopic
    obtain ⟨key, topic⟩ := r
    have hf' := (n.formula?_subscribed topic (.relay id) id).trans hf
    have hledger : ((n.subscribed topic (.relay id)).withDependencies id
        (ds ++ [(key, ⟨topic, n.nextToken⟩)])).Ledger := by
      refine h.attach topic (rfl : (Listener.relay id).node? = some id) ?_ (fun t ht => ?_) ?_
        (fun i hi => ?_) rfl
      · rw [listeners_withDependencies, listeners_withDependencies,
          listeners_subscribed_self _ _ (htopic _ List.mem_cons_self)]
        rfl
      · rw [listeners_withDependencies, listeners_withDependencies,
          listeners_subscribed_of_ne _ _ ht]
      · rw [held_withDependencies _ _ hf', held_withDependencies _ _ hf, List.map_append]
        have htoken : (n.withDependencies id ds).nextToken = n.nextToken := rfl
        rw [List.map_singleton, List.append_assoc, htoken]
        exact List.perm_middle
      · rw [held_withDependencies_of_ne _ _ _ hi, held_withDependencies_of_ne _ _ _ hi,
          held_subscribed]
    have := ih hf' hledger fun r hr =>
      (hasTopic_subscribed ..).mpr (htopic r (List.mem_cons_of_mem _ hr))
    rwa [List.append_assoc] at this

/-! ## Resubscribing -/

section Resubscribed

variable (n) (id : Nat) (f : FormulaNode N) (rs : List (DependencyKey × Topic))

/-- The dependencies of a formula that are still good. -/
def keptOf : List (DependencyKey × Subscription) :=
  f.dependencies.filter fun d => rs.contains (d.1, d.2.topic)

/-- The subscriptions that a formula gives back. -/
def droppedOf : List Subscription :=
  (f.dependencies.filter fun d => !rs.contains (d.1, d.2.topic)).map (·.2)

/-- What a formula is to subscribe to. -/
def missingOf : List (DependencyKey × Topic) :=
  rs.filter fun r => !(keptOf f rs).any (·.1 == r.1) && n.isPresent r.2

/-- The network after a formula subscribed to what it recorded. -/
def resubscribed : Network N A σ :=
  ((n.unsubscribeAll (droppedOf f rs)).relayed id (n.missingOf f rs)).withDependencies id
    (keptOf f rs ++ subscriptions n.nextToken (n.missingOf f rs))

variable {n id f rs}

theorem resubscribe_of_none (hf : n.formula? id = none) : resubscribe id rs n = some (⟨⟩, n) := by
  rw [resubscribe, get_bind_apply, hf]
  rfl

theorem resubscribe_eq (hf : n.formula? id = some f) : resubscribe id rs n = some (⟨⟩, n.resubscribed id f rs) := by
  rw [resubscribe, get_bind_apply, hf]
  simp only [List.partition_eq_filter_filter]
  rw [modify_bind_apply, get_bind_apply]
  simp only [isPresent_unsubscribeAll]
  have hattach := mapM_attach_eq id (n.missingOf f rs) (n.unsubscribeAll (droppedOf f rs))
  rw [nextToken_unsubscribeAll] at hattach
  refine (bind_apply hattach).trans ?_
  change some ((⟨⟩ : PUnit), Network.modifyFormula _ id _) = _
  rw [modifyFormula_eq_mapBody]
  rfl

/-- Subscribing to what was recorded always comes to an end. -/
theorem exists_resubscribe (id : Nat) (rs : List (DependencyKey × Topic)) (n : Network N A σ) :
    ∃ n', resubscribe id rs n = some (⟨⟩, n') := by
  cases hf : n.formula? id with
  | none => exact ⟨n, resubscribe_of_none hf⟩
  | some f => exact ⟨n.resubscribed id f rs, resubscribe_eq hf⟩

theorem view?_resubscribed {i : Nat} (h : i ≠ id) :
    (n.resubscribed id f rs).view? i = n.view? i := by
  rw [resubscribed, withDependencies, view?_mapBody_of_ne _ _ h, view?_relayed, view?_unsubscribeAll]

@[simp]
theorem kind?_resubscribed (i : Nat) : (n.resubscribed id f rs).kind? i = n.kind? i := by
  rw [resubscribed, kind?_withDependencies, kind?_of_view (view?_relayed ..), kind?_unsubscribeAll]

@[simp]
theorem flags?_resubscribed (i : Nat) : (n.resubscribed id f rs).flags? i = n.flags? i := by
  rw [resubscribed, flags?_withDependencies, flags?_of_view (view?_relayed ..), flags?_unsubscribeAll]

@[simp]
theorem followed_resubscribed (i : Nat) :
    (n.resubscribed id f rs).followed i = n.followed i := by
  rw [resubscribed, followed_withDependencies, followed_of_view (view?_relayed ..),
    followed_unsubscribeAll]

@[simp]
theorem registry_resubscribed : (n.resubscribed id f rs).registry = n.registry := by
  rw [resubscribed, registry_withDependencies, registry_relayed, registry_unsubscribeAll]

@[simp]
theorem isPresent_resubscribed (t : Topic) :
    (n.resubscribed id f rs).isPresent t = n.isPresent t := by
  rw [resubscribed, isPresent_withDependencies, isPresent_relayed, isPresent_unsubscribeAll]

@[simp]
theorem hasTopic_resubscribed (t : Topic) :
    (n.resubscribed id f rs).hasTopic t ↔ n.hasTopic t := by
  rw [resubscribed, hasTopic_withDependencies, hasTopic_relayed, hasTopic_unsubscribeAll]

@[simp]
theorem size_resubscribed : (n.resubscribed id f rs).nodes.size = n.nodes.size := by
  rw [resubscribed, size_withDependencies, size_relayed, size_unsubscribeAll]

theorem buffer_resubscribed : (n.resubscribed id f rs).buffer = n.buffer := by
  have hrelayed := (n.unsubscribeAll (droppedOf f rs)).relayed_induction id (n.missingOf f rs)
    (P := fun m => m.buffer = (n.unsubscribeAll (droppedOf f rs)).buffer)
    (fun m topic h => by cases topic <;> exact h) rfl
  have hunsubscribed : (n.unsubscribeAll (droppedOf f rs)).buffer = n.buffer :=
    n.buffer_unsubscribeAll _
  exact hrelayed.trans hunsubscribed

theorem released_resubscribed : (n.resubscribed id f rs).released = n.released := by
  have hrelayed := (n.unsubscribeAll (droppedOf f rs)).relayed_induction id (n.missingOf f rs)
    (P := fun m => m.released = (n.unsubscribeAll (droppedOf f rs)).released)
    (fun m topic h => by cases topic <;> exact h) rfl
  have hunsubscribed : (n.unsubscribeAll (droppedOf f rs)).released = n.released :=
    n.released_unsubscribeAll _
  exact hrelayed.trans hunsubscribed

theorem host_resubscribed : (n.resubscribed id f rs).host = n.host := by
  have hrelayed := (n.unsubscribeAll (droppedOf f rs)).relayed_induction id (n.missingOf f rs)
    (P := fun m => m.host = (n.unsubscribeAll (droppedOf f rs)).host)
    (fun m topic h => by cases topic <;> exact h) rfl
  have hunsubscribed : (n.unsubscribeAll (droppedOf f rs)).host = n.host :=
    n.host_unsubscribeAll _
  exact hrelayed.trans hunsubscribed

theorem mem_listeners_resubscribed {t : Topic} {attached : Attached A}
    (h : attached ∈ (n.resubscribed id f rs).listeners t) :
    attached ∈ n.listeners t ∨ attached.listener = .relay id ∧ ∃ r ∈ rs, r.2 = t := by
  rw [resubscribed, listeners_withDependencies] at h
  refine (mem_listeners_relayed _ _ _ h).imp (fun h => ?_) fun ⟨hl, r, hr, ht⟩ =>
    ⟨hl, r, (List.mem_filter.mp hr).1, ht⟩
  rw [listeners_unsubscribeAll] at h
  exact (List.mem_filter.mp h).1

theorem formula?_relayed (hf : n.formula? id = some f) :
    ((n.unsubscribeAll (droppedOf f rs)).relayed id (n.missingOf f rs)).formula? id = some f := by
  have hrelayed := (n.unsubscribeAll (droppedOf f rs)).relayed_induction id (n.missingOf f rs)
    (P := fun m => m.formula? id = some f)
    (fun m topic h => (m.formula?_subscribed topic _ id).trans h)
  exact hrelayed ((n.formula?_unsubscribeAll _ id).trans hf)

theorem recorded_resubscribed (hf : n.formula? id = some f) : (n.resubscribed id f rs).recorded id
    = keptOf f rs ++ subscriptions n.nextToken (n.missingOf f rs) := by
  exact recorded_withDependencies (f := f) _ _ (formula?_relayed hf)

/-- Only what was recorded is subscribed to. -/
theorem mem_of_recorded_resubscribed (hf : n.formula? id = some f) {d : DependencyKey × Subscription}
    (h : d ∈ (n.resubscribed id f rs).recorded id) : (d.1, d.2.topic) ∈ rs := by
  rw [recorded_resubscribed hf] at h
  obtain h | h := List.mem_append.mp h
  · simpa using (List.mem_filter.mp h).2
  · have := List.mem_map_of_mem (f := fun d : DependencyKey × Subscription => (d.1, d.2.topic)) h
    rw [map_subscriptions] at this
    exact (List.mem_filter.mp this).1

/-- All that was recorded is subscribed to. -/
theorem exists_recorded_resubscribed (hf : n.formula? id = some f)
    {r : DependencyKey × Topic} (hr : r ∈ rs) (hpresent : n.isPresent r.2) : ∃ s, (r.1, s) ∈ (n.resubscribed id f rs).recorded id := by
  rw [recorded_resubscribed hf]
  by_cases hkept : (keptOf f rs).any (·.1 == r.1)
  · obtain ⟨d, hd, heq⟩ := List.any_eq_true.mp hkept
    obtain ⟨key, s⟩ := d
    obtain rfl : key = r.1 := by simpa using heq
    exact ⟨s, List.mem_append_left _ hd⟩
  · have hmissing : r ∈ n.missingOf f rs := List.mem_filter.mpr ⟨hr, by simp [hkept, hpresent]⟩
    rw [← map_subscriptions n.nextToken (n.missingOf f rs)] at hmissing
    obtain ⟨d, hd, rfl⟩ := List.mem_map.mp hmissing
    exact ⟨d.2, List.mem_append_right _ hd⟩

/-- What a formula gives back was its own. -/
theorem mem_held_of_droppedOf (hf : n.formula? id = some f) {s : Subscription}
    (hs : s ∈ droppedOf f rs) : s ∈ n.held id := by
  obtain ⟨d, hd, rfl⟩ := List.mem_map.mp hs
  rw [held_of_formula? hf]
  exact List.mem_append_left _ (List.mem_map_of_mem (List.mem_filter.mp hd).1)

/-- The hosts that listen go on listening. -/
theorem Ledger.callbacks_resubscribed (hf : n.formula? id = some f) (h : n.Ledger) (t : Topic) :
    (n.resubscribed id f rs).callbacks t = n.callbacks t := by
  rw [callbacks, resubscribed, listeners_withDependencies]
  exact (n.unsubscribeAll (droppedOf f rs)).relayed_induction id (n.missingOf f rs)
    (P := fun m => m.callbacks t = n.callbacks t)
    (fun m topic hm => (m.callbacks_subscribed topic rfl t).trans hm)
    (h.callbacks_unsubscribeAll (fun _ => mem_held_of_droppedOf hf) t)

/-- The books agree after a formula subscribed to what it recorded. -/
theorem Ledger.resubscribed (hf : n.formula? id = some f) (h : n.Ledger)
    (htopic : ∀ r ∈ rs, n.hasTopic r.2) :
    (n.resubscribed id f rs).Ledger := by
  have hheld := held_of_formula? hf
  have hf' : (n.unsubscribeAll (droppedOf f rs)).formula? id = some f :=
    (n.formula?_unsubscribeAll _ id).trans hf
  have hdropped : ((n.unsubscribeAll (droppedOf f rs)).withDependencies id (keptOf f rs)).Ledger := by
    refine h.detach (@mem_held_of_droppedOf _ _ _ _ _ _ rs hf) (fun t => ?_) (.of_eq ?_) (fun i hi => ?_) (n.nextToken_unsubscribeAll _)
    · rw [listeners_withDependencies, listeners_unsubscribeAll]
    · obtain ⟨hnodup, -, hdisjoint⟩ := List.nodup_append.mp (hheld ▸ h.held_nodup id)
      have hinj := List.inj_on_of_nodup_map hnodup
      rw [held_withDependencies _ _ hf', hheld, List.filter_append, List.filter_map]
      congr 1
      · refine congrArg (List.map _) (List.filter_congr fun d hd => ?_)
        rw [Bool.eq_iff_iff, Function.comp_apply, decide_eq_true_iff]
        constructor
        · intro hd' hmem
          obtain ⟨d', hmem, heq⟩ := List.mem_map.mp hmem
          obtain ⟨hdeps, hnot⟩ := List.mem_filter.mp hmem
          obtain rfl := hinj hdeps hd heq
          rw [hd'] at hnot
          cases hnot
        · intro hnot
          by_contra hd'
          refine hnot (List.mem_map_of_mem (List.mem_filter.mpr ⟨hd, ?_⟩))
          rw [Bool.not_eq_true] at hd'
          rw [hd']
          rfl
      · refine (List.filter_eq_self.mpr fun s hs => ?_).symm
        rw [decide_eq_true_iff]
        intro hmem
        obtain ⟨d, hd, rfl⟩ := List.mem_map.mp hmem
        exact hdisjoint _ (List.mem_map_of_mem (List.mem_filter.mp hd).1) _ hs rfl
    · rw [held_withDependencies_of_ne _ _ _ hi, held_unsubscribeAll]
  have := hdropped.relayed (n.missingOf f rs) hf' fun r hr =>
    (hasTopic_unsubscribeAll ..).mpr (htopic r (List.mem_filter.mp hr).1)
  rw [nextToken_unsubscribeAll] at this
  exact this

theorem held_resubscribed (hf : n.formula? id = some f) : (n.resubscribed id f rs).held id
    = ((n.resubscribed id f rs).recorded id).map (·.2) ++ f.trigger.toList := by
  rw [recorded_resubscribed hf]
  exact held_withDependencies _ _ (formula?_relayed hf)

/-- Topics that the node neither listens to nor recorded have the same listeners. -/
theorem listeners_resubscribed_of_ne (hf : n.formula? id = some f) {t : Topic}
    (hheld : ∀ s ∈ n.held id, s.topic ≠ t) (hrs : ∀ r ∈ rs, r.2 ≠ t) :
    (n.resubscribed id f rs).listeners t = n.listeners t := by
  have hmissing : ∀ r ∈ n.missingOf f rs, r.2 ≠ t := fun r hr => hrs r (List.mem_filter.mp hr).1
  rw [resubscribed, listeners_withDependencies, listeners_relayed_of_forall _ _ _ hmissing,
    listeners_unsubscribeAll]
  refine List.filter_eq_self.mpr fun attached _ => decide_eq_true fun hmem => ?_
  obtain ⟨d, hd, heq⟩ := List.mem_map.mp hmem
  refine hheld d.2 ?_ (congrArg Subscription.topic heq)
  rw [held_of_formula? hf]
  exact List.mem_append_left _ (List.mem_map_of_mem (List.mem_filter.mp hd).1)

/-- What a formula may record while it is evaluated. -/
structure Notes (sc : Regime N) (n : Network N A σ) (id : Nat) (rs : List (DependencyKey × Topic)) :
    Prop where
  resolved : ∀ r ∈ rs, n.registry.topic? r.1 = some r.2
  paths : sc.Follows → ∀ key topic, (.paths key, topic) ∈ rs →
    ∃ e, n.registry.stage? ⟨key, .uncappedSubtotal, Path.main⟩ = some e ∧ e.formula = id

/-- What is recorded has topics that a formula may listen to. -/
theorem Wired.fits_of_topic? (hn : n.Wired sc) {id : Nat} (hid : n.IsFormula id)
    {key : DependencyKey} {topic : Topic} (h : n.registry.topic? key = some topic) :
    n.Fits topic (.relay id) ∧ n.hasTopic topic ∧ n.isPresent topic ∧ ∀ c, topic ≠ .members c := by
  cases key with
  | node k =>
    obtain ⟨e, he, rfl⟩ := Option.map_eq_some_iff.mp h
    obtain ⟨hcached, -, l, -, -, hcell, -⟩ := hn.stages k e he
    have hkind : n.kind? e.cached = some (.cached e.formula) := hcached ▸ hcell.cached
    refine ⟨.inl hid, ?_, ?_, by simp⟩
    case refine_2 =>
      rw [hcached]
      exact (hcell.invalidate hn).elim fun token h => hn.typed.present h _ rfl
    obtain ⟨c, hc, -⟩ := kind?_eq_cached_iff.mp hkind
    simp [hasTopic, flags?_of_cached hc]
  | form k form p =>
    obtain ⟨e, he, rfl⟩ := Option.map_eq_some_iff.mp h
    have hkind := (hn.forms k form p e he).kind
    obtain ⟨token, hfollower⟩ := (hn.forms k form p e he).follower
    have hmem : (⟨token, .follow e.aggregate⟩ : Attached A) ∈ n.listeners (.members e.collection) := by
      simp [hfollower]
    exact ⟨.inl ⟨⟨_, _, hkind⟩, hid⟩, lt_size_of_kind? hkind, hn.typed.present hmem _ rfl, by simp⟩
  | paths k =>
    obtain ⟨g, hg, rfl⟩ := Option.map_eq_some_iff.mp h
    obtain ⟨htopic, hpresent⟩ := hn.sets k g hg
    exact ⟨hid, htopic, hpresent, by simp⟩

/-- Only the paths of a stat are announced as such. -/
theorem paths_of_topic? {key : DependencyKey} {set : Nat}
    (h : n.registry.topic? key = some (.paths set)) :
    ∃ k g, key = .paths k ∧ n.registry.graph? k = some g ∧ g.paths = set := by
  cases key with
  | node k =>
    obtain ⟨e, -, he⟩ := Option.map_eq_some_iff.mp h
    cases he
  | form k form p =>
    obtain ⟨e, -, he⟩ := Option.map_eq_some_iff.mp h
    cases he
  | paths k =>
    obtain ⟨g, hg, heq⟩ := Option.map_eq_some_iff.mp h
    exact ⟨k, g, rfl, hg, Topic.paths.inj heq⟩

/-- Cells keep their nodes when a formula subscribes to what it recorded. -/
theorem HasCell.resubscribed (hf : n.formula? id = some f) {i : Nat} {source : FormulaSource N}
    {p : Path (Stat N)} (h : n.HasCell i source p) : (n.resubscribed id f rs).HasCell i source p :=
  h.of_kind (fun _ _ => kind?_resubscribed _)
    (held_of_view (view?_resubscribed (ne_of_cached hf h.cached)))
    fun hi => (isPresent_resubscribed _).trans hi

section Wired

variable (hn : n.Wired sc) (hf : n.formula? id = some f) (hrs : n.Notes sc id rs)

include hn hf hrs

/-- What listens to the topics that were recorded fits there. -/
theorem Wired.typed_resubscribed (hpresent : n.isPresent (.changed id)) :
    (n.resubscribed id f rs).Typed := by
  refine hn.typed.of_listeners (fun i kind h => (kind?_resubscribed i).trans h)
    (fun t attached ha => (mem_listeners_resubscribed ha).imp_right ?_) fun i hi => ?_
  · rintro ⟨hl, r, hr, rfl⟩
    rw [hl]
    obtain ⟨hfits, -⟩ := hn.fits_of_topic? (isFormula_of_formula? hf) (hrs.resolved r hr)
    refine ⟨hfits.of_kind kind?_resubscribed, fun i hi => ?_⟩
    obtain rfl : id = i := Option.some.inj hi
    rwa [isPresent_resubscribed]
  · rwa [isPresent_resubscribed]

/-- A formula is attached to no collection, so the follower of one stays its only listener. -/
theorem Wired.listeners_members_resubscribed {e : FormEntry N} (he : n.FormCell sc e) :
    (n.resubscribed id f rs).listeners (.members e.collection)
      = n.listeners (.members e.collection) := by
  have hid := isFormula_of_formula? hf
  refine listeners_resubscribed_of_ne hf (fun s hs ht => ?_) fun r hr =>
    (hn.fits_of_topic? hid (hrs.resolved r hr)).2.2.2 _
  obtain ⟨token, hfollower⟩ := he.follower
  obtain ⟨listener, hlistener, hnode, -⟩ := hn.listener_of_held hs
  rw [ht, hfollower] at hlistener
  cases List.mem_singleton.mp hlistener
  cases hnode
  obtain ⟨source, p, hid⟩ := hid
  cases he.kind.symm.trans hid

/-- What a formula is attached to after it subscribed is what it recorded, or what it was made with. -/
theorem Wired.traced_resubscribed (i : Nat) : (n.resubscribed id f rs).Traced i := by
  by_cases hi : i = id
  · subst hi
    refine ⟨fun _ s hs => ?_, fun hagg => ?_, fun d hd => .inl ?_⟩
    · rw [held_resubscribed hf] at hs
      obtain hs | hs := List.mem_append.mp hs
      · obtain ⟨d, hd, rfl⟩ := List.mem_map.mp hs
        exact .inr ⟨d.1, hd⟩
      · have hnodup := hn.ledger.held_nodup i
        rw [held_of_formula? hf, List.nodup_append] at hnodup
        refine .inl (((hn.traced i).noted (isFormula_of_formula? hf) s ?_).resolve_right ?_)
        · rw [held_of_formula? hf]
          exact List.mem_append_right _ hs
        · rintro ⟨key, hkey⟩
          rw [recorded_of_formula? hf] at hkey
          exact hnodup.2.2 s (List.mem_map_of_mem (f := Prod.snd) hkey) s hs rfl
    · obtain ⟨source, p, hformula⟩ := isFormula_of_formula? hf
      obtain ⟨c, form, hagg⟩ := hagg
      rw [kind?_resubscribed, hformula] at hagg
      cases hagg
    · rw [registry_resubscribed]
      exact hrs.resolved _ (mem_of_recorded_resubscribed hf hd)
  · exact (hn.traced i).of_view (view?_resubscribed hi) fun _ _ => .of_registry registry_resubscribed

/-- Only the sum over the paths of a stat recorded them. -/
theorem Wired.path_held_resubscribed (ho : n.registry.Orderly sc) (hsc : sc.Follows) {key : StatKey}
    {g : Subgraph N} (hg : n.registry.graph? key = some g) {i : Nat} {s : Subscription}
    (hs : s ∈ (n.resubscribed id f rs).held i) (htopic : s.topic = .paths g.paths) :
    ∃ e, n.registry.stage? ⟨key, .uncappedSubtotal, Path.main⟩ = some e ∧ e.formula = i := by
  by_cases hi : i = id
  · subst hi
    rw [held_resubscribed hf] at hs
    obtain hs | hs := List.mem_append.mp hs
    · obtain ⟨d, hd, rfl⟩ := List.mem_map.mp hs
      have hd := mem_of_recorded_resubscribed hf hd
      have hresolved := hrs.resolved _ hd
      rw [htopic] at hd hresolved
      -- a set of paths that is on record belongs to the stat it was recorded for
      obtain ⟨k', g', hd₁, hg', hpaths⟩ := paths_of_topic? hresolved
      obtain rfl := ho.sets _ _ _ _ hg' hg hpaths
      exact hrs.paths hsc k' _ (hd₁ ▸ hd)
    · refine hn.path_held hsc key g hg i s ?_ htopic
      rw [held_of_formula? hf]
      exact List.mem_append_right _ hs
  · rw [held_of_view (view?_resubscribed hi)] at hs
    exact hn.path_held hsc key g hg i s hs htopic

/-- The nodes stay connected when a formula subscribes to what it recorded. -/
theorem Wired.resubscribed (hpresent : n.isPresent (.changed id)) (ho : n.registry.Orderly sc) :
    (n.resubscribed id f rs).Wired sc where
  typed := hn.typed_resubscribed hf hrs hpresent
  ledger := hn.ledger.resubscribed hf fun r hr =>
    (hn.fits_of_topic? (isFormula_of_formula? hf) (hrs.resolved r hr)).2.1
  stages k e he := by
    rw [registry_resubscribed] at he
    exact (hn.stages k e he).mono (fun _ _ => .resubscribed hf)
      (fun g hg => ⟨g, by rwa [registry_resubscribed], rfl⟩)
      fun l s stage layers hl => ⟨layers, by rwa [registry_resubscribed], fun _ => rfl⟩
  forms k form p e he := by
    rw [registry_resubscribed] at he
    have hform := hn.forms k form p e he
    exact hform.mono (kind?_resubscribed _) (hasTopic_resubscribed _).mpr
      (hn.listeners_members_resubscribed hf hrs hform) (followed_resubscribed _)
      (by rw [registry_resubscribed]) fun _ _ _ _ _ _ => .resubscribed hf
  sets k g hg := by
    rw [registry_resubscribed] at hg
    obtain ⟨htopic, hpresent⟩ := hn.sets k g hg
    exact ⟨(hasTopic_resubscribed _).mpr htopic, (isPresent_resubscribed _).trans hpresent⟩
  next c i hc := hn.next c i ((kind?_resubscribed c).symm.trans hc)
  made i kind hk := (hn.made i kind ((kind?_resubscribed i).symm.trans hk)).mono
    (fun i kind hkind => (kind?_resubscribed i).trans hkind)
    fun l s stage layers hl => ⟨layers, by rwa [registry_resubscribed], fun _ => rfl⟩
  traced := hn.traced_resubscribed hf hrs
  path_held hsc key g hg i s hs htopic := by
    rw [registry_resubscribed] at hg ⊢
    exact hn.path_held_resubscribed hf hrs ho hsc hg hs htopic

end Wired

/-- Everything goes on when a formula subscribes to what it recorded. -/
theorem Ledger.proceeds_resubscribed (hf : n.formula? id = some f) (h : n.Ledger) :
    n.Proceeds (n.resubscribed id f rs) where
  toWaits := .of_buffer buffer_resubscribed
  kind _ _ hkind := (kind?_resubscribed _).trans hkind
  entered c := by rw [isEntered, flags?_resubscribed, isEntered]
  callbacks := h.callbacks_resubscribed hf

/-- A formula is none of the nodes that hosts list. -/
theorem Lists.resubscribed (hf : n.formula? id = some f) (h : n.Lists) :
    (n.resubscribed id f rs).Lists := by
  have hreg : (n.resubscribed id f rs).registry = n.registry := registry_resubscribed
  refine h.mono (hreg ▸ .refl _) (fun _ _ _ he => hreg ▸ he) fun x _ inner hwrapped =>
    ⟨kind?_resubscribed _, held_of_view (view?_resubscribed fun heq => ?_)⟩
  obtain ⟨_, _, hkind⟩ := isFormula_of_formula? hf
  cases (heq ▸ hwrapped).symm.trans hkind

/-- The invariant is kept when a formula that is being evaluated subscribes to what it recorded, and
nothing is lost. -/
theorem Inv.resubscribed [Number N] (hn : n.Inv sc) (hf : n.formula? id = some f)
    (hpresent : n.isPresent (.changed id))
    (hrs : n.Notes sc id rs) (hentered : n.isEntered (id + 1)) :
    (n.resubscribed id f rs).Inv sc ∧ n.Extends (n.resubscribed id f rs) := by
  have hvalue : n.value? (id + 1) = none := by
    cases hflags : n.flags? (id + 1) with
    | none => rw [value?, hflags]; rfl
    | some flags =>
      have hentered : flags.entered := by simpa [isEntered, hflags] using hentered
      rw [value?, hflags]
      exact (hn.lit.entered _ flags hflags hentered).1
  have hvalue? (c : Nat) : (n.resubscribed id f rs).value? c = n.value? c := by
    rw [value?, flags?_resubscribed, value?]
  have hobserved (c : Nat) : (n.resubscribed id f rs).isObserved c = n.isObserved c := by
    rw [isObserved, flags?_resubscribed, isObserved]
  have hisEntered (c : Nat) : (n.resubscribed id f rs).isEntered c = n.isEntered c := by
    rw [isEntered, flags?_resubscribed, isEntered]
  have hreg : (n.resubscribed id f rs).registry = n.registry := registry_resubscribed
  have hextends : n.Extends (n.resubscribed id f rs) := by
    refine ⟨hn.wired.ledger.proceeds_resubscribed hf, hreg ▸ .refl _, fun c v hv => (hvalue? c).trans hv, fun c hc => (hobserved c).trans hc,
      fun i hi => ?_, fun k e he => .inl (hreg ▸ he),
      fun _ => by rw [notices, notices, buffer_resubscribed, host_resubscribed]⟩
    refine recorded_of_view (view?_resubscribed ?_)
    rintro rfl
    exact hi hvalue
  refine ⟨⟨⟨hn.wired.resubscribed hf hrs hpresent hn.orderly, hreg ▸ hn.orderly,
    hn.listed.resubscribed hf,
    ⟨fun c hc => ?_, fun c flags hflags hc => ?_, fun hsc key e he hflagged => ?_,
      fun hsc key e he hvalued hnot => ?_⟩, fun i φ p v hd hv => ?_, fun i φ p hd hfailed hnot => ?_,
    released_resubscribed.trans hn.unreleased⟩, hreg ▸ hn.counted⟩, hextends⟩
  · rw [hvalue?] at hc
    rw [hobserved]
    exact hn.lit.shown c hc
  · rw [flags?_resubscribed] at hflags
    obtain ⟨hv, hfollows⟩ := hn.lit.entered c flags hflags hc
    refine ⟨hv, fun hsc => ?_⟩
    obtain ⟨hstale, i, φ, p, hi, hd⟩ := hfollows hsc
    exact ⟨hstale, i, φ, p, hi, hextends.denotes hd⟩
  · rw [hreg] at he ⊢
    rw [Flagged, hvalue?, hobserved, hisEntered] at hflagged
    exact hn.lit.main hsc key e he hflagged
  · rw [hreg] at he ⊢
    rw [hvalue?, hobserved] at hvalued
    rw [hisEntered] at hnot
    rw [recorded_of_view (view?_resubscribed fun heq => ?_)]
    · exact hn.lit.tells hsc key e he hvalued hnot
    · rw [heq, hentered] at hnot
      cases hnot
  · rw [hvalue?] at hv
    exact hextends.grounded (hn.sound i φ p v (hd.of_registry hreg.symm) hv)
  · rw [hisEntered] at hnot
    have hfailed? (c : Nat) : (n.resubscribed id f rs).Failed c ↔ n.Failed c := by
      rw [Failed, Failed, hvalue?, hobserved]
    have hstuck := hn.blocked i φ p (hd.of_registry hreg.symm) ((hfailed? _).mp hfailed) hnot
    refine hstuck.transfer (recorded_of_view (view?_resubscribed ?_)) ?_
      (fun _ _ c _ v hv => (hvalue? _).trans hv) fun _ _ c _ => (hfailed? _).mpr
    · rintro rfl
      simp [hentered] at hnot
    · rintro _ ⟨_, hs⟩
      exact hextends.registry.sameAt (hstuck.resolved _ hs)

/-- A formula that is being evaluated subscribes to just what it recorded. -/
theorem leads_resubscribe [Number N] (hn : n.Inv sc) {b : Prop} {source : FormulaSource N}
    {path : Path (Stat N)} (hcell : n.HasCell id source path) (hrs : n.Notes sc id rs)
    (hentered : n.isEntered (id + 1)) :
    Leads b (resubscribe id rs) n fun _ n' => n'.Inv sc ∧ n.Extends n'
      ∧ n'.registry = n.registry ∧ (∀ c, n'.flags? c = n.flags? c)
      ∧ (∀ d ∈ n'.recorded id, (d.1, d.2.topic) ∈ rs)
      ∧ ∀ r ∈ rs, ∃ s, (r.1, s) ∈ n'.recorded id := by
  obtain ⟨f, hf⟩ := exists_formula? hcell.formula
  obtain ⟨hinv, hextends⟩ := hn.resubscribed hf hcell.present hrs hentered
  refine .of_eq (resubscribe_eq hf) ⟨hinv, hextends, registry_resubscribed, flags?_resubscribed,
    fun d hd => mem_of_recorded_resubscribed hf hd, fun r hr => exists_recorded_resubscribed hf hr ?_⟩
  exact (hn.wired.fits_of_topic? ⟨source, path, hcell.formula⟩ (hrs.resolved r hr)).2.2.1

end Resubscribed

end StatEngine.Network
