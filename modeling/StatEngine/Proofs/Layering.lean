import StatEngine.Formula.Table
import StatEngine.Number.Exact
import StatEngine.Proofs.Announcing
import StatEngine.Proofs.Bookkeeping

/-!
# Behaviors on formulas

Whatever order behaviors are installed and uninstalled in, and formulas are registered and forgotten in:
a formula that is registered has one layer for every installed behavior that affects its node, whether
the behavior or the formula came first. The layers are in the order the behaviors were installed in, if
no behavior that is uninstalled shares its transformation with another one that affects the same node:
a layer is taken off by its identity, the innermost first.

## Main definitions

* `Behavior.applying`: what the behaviors that are installed do to a node;
* `Layering.Step`: a request to install or uninstall behaviors, or to register or forget formulas;
* `Layering.Applied`: the invariant of these requests.

## Main statements

* `Layering.Applied.step`: every request keeps the invariant;
* `Layering.applied_in_order`: what is on a formula after any requests.
-/

namespace StatEngine

open Network

variable {N A σ : Type}

/-- What behaviors that affect a node do to it, in the given order. -/
def Behavior.applying (installed : List (Behavior N × Nat)) (key : NodeKey) :
    List (Transformation N) :=
  (installed.filter fun e => e.1.affects key).map fun e => e.1.transformation

namespace Layering

/-! ## Lists of layers -/

section Layers

variable {layers applied : List (Transformation N)} {installed : List (Behavior N × Nat)}
  {b : Behavior N} {key : NodeKey}

/-- Layers are those that apply, each once, and in the same order if nothing is shared. -/
structure Agrees (unshared : Prop) (layers applied : List (Transformation N)) : Prop where
  once : (layers.map (·.identity)).Perm (applied.map (·.identity))
  inOrder : unshared → layers = applied

/-- No behavior that is uninstalled shares its transformation with another one that affects a node. -/
def Unshared (uninstalled behaviors : List (Behavior N)) (key : NodeKey) : Prop :=
  ∀ b ∈ uninstalled, ∀ b' ∈ behaviors, b.affects key → b'.affects key →
    b.transformation.identity = b'.transformation.identity → b.same b' = true

theorem affects_of_mark_eq {b' : Behavior N} (h : b.mark = b'.mark) :
    b.affects key = b'.affects key := by
  simp only [Behavior.mark, Prod.mk.injEq] at h
  simp only [Behavior.affects, h.1, h.2.1, h.2.2.1]

theorem identity_of_mark_eq {b' : Behavior N} (h : b.mark = b'.mark) :
    b.transformation.identity = b'.transformation.identity := by
  simp only [Behavior.mark, Prod.mk.injEq] at h
  exact h.2.2.2

theorem applying_change (k : List StatKey × List Stage × PathRule × Identity) (f : Nat → Nat) :
    Behavior.applying (Tally.change Behavior.mark k f installed) key
      = Behavior.applying installed key := by
  induction installed with
  | nil => rfl
  | cons e installed ih =>
    have hfst : (if e.1.mark = k then (e.1, f e.2) else e).1 = e.1 := by split <;> rfl
    rw [Behavior.applying, Tally.change, List.map_cons, ← Tally.change, List.filter_cons, hfst,
      Behavior.applying, List.filter_cons]
    split
    · rw [List.map_cons, List.map_cons, hfst]
      exact congrArg _ ih
    · exact ih

theorem applying_opened : Behavior.applying (installed ++ [(b, 1)]) key
    = Behavior.applying installed key ++ if b.affects key then [b.transformation] else [] := by
  rw [Behavior.applying, List.filter_append, List.map_append, ← Behavior.applying]
  by_cases h : b.affects key <;> simp [h]

/-- What is erased is what fits, among the members. -/
theorem eraseP_congr {α : Type} {p q : α → Bool} {l : List α} (h : ∀ a ∈ l, p a = q a) :
    l.eraseP p = l.eraseP q := by
  induction l with
  | nil => rfl
  | cons a l ih =>
    rw [List.eraseP_cons, List.eraseP_cons, h a List.mem_cons_self,
      ih fun a' ha' => h a' (List.mem_cons_of_mem a ha')]

/-- Erasing a layer by its identity erases the identity. -/
theorem map_identity_eraseP (identity : Identity) :
    (layers.eraseP fun t => t.identity == identity).map (·.identity)
      = (layers.map (·.identity)).erase identity := by
  rw [List.erase_eq_eraseP, List.eraseP_map]
  congr 2
  funext t
  exact BEq.comm

/-- A behavior that is not installed any more does not apply any more, and the others do. -/
theorem Agrees.closed {uninstalled behaviors : List (Behavior N)}
    (h : Agrees (Unshared uninstalled behaviors key) layers (Behavior.applying installed key))
    (htally : Tally.Sound Behavior.mark installed) (hpool : ∀ e ∈ installed, e.1 ∈ behaviors)
    (hb : b ∈ uninstalled) (hinstalled : b.mark ∈ installed.map fun e => e.1.mark) :
    Agrees (Unshared uninstalled behaviors key)
      (if b.affects key then layers.eraseP fun t => t.identity == b.transformation.identity else layers)
      (Behavior.applying (installed.filter fun e => !decide (e.1.mark = b.mark)) key) := by
  have hsound := htally.filter fun e => e.1.affects key
  have hcomm : Behavior.applying (installed.filter fun e => !decide (e.1.mark = b.mark)) key
      = ((installed.filter fun e => e.1.affects key).filter
          fun e => !decide (e.1.mark = b.mark)).map fun e => e.1.transformation := by
    rw [Behavior.applying, List.filter_comm]
  rw [hcomm]
  split
  · next haffects =>
    obtain ⟨e, he, hmark⟩ := List.mem_map.mp hinstalled
    have hmem : e ∈ installed.filter fun e => e.1.affects key :=
      List.mem_filter.mpr ⟨he, (affects_of_mark_eq hmark).trans haffects⟩
    constructor
    · -- one of those that apply goes, and so does its layer
      have hperm := (List.perm_cons_filter hsound.nodup hmem fun x => by rw [hmark]).map
        fun e => e.1.transformation.identity
      rw [List.map_cons, identity_of_mark_eq hmark] at hperm
      have honce := h.once
      rw [Behavior.applying, List.map_map] at honce
      have herase := (honce.trans hperm).erase b.transformation.identity
      rw [List.erase_cons_head] at herase
      rw [map_identity_eraseP, List.map_map]
      exact herase
    · intro hunshared
      rw [h.inOrder hunshared, Behavior.applying, List.eraseP_map, ← hsound.eraseP_eq]
      refine congrArg _ (eraseP_congr fun e he => ?_)
      obtain ⟨he, heffect⟩ := List.mem_filter.mp he
      rw [Function.comp, Bool.eq_iff_iff, beq_iff_eq, decide_eq_true_iff]
      refine ⟨fun hidentity => ?_, identity_of_mark_eq⟩
      exact (Behavior.same_iff.mp
        (hunshared b hb e.1 (hpool e he) haffects heffect hidentity.symm)).symm
  · next haffects =>
    -- what goes does not affect the node
    have hkeep : (installed.filter fun e => e.1.affects key).filter
        (fun e => !decide (e.1.mark = b.mark)) = installed.filter fun e => e.1.affects key := by
      refine List.filter_eq_self.mpr fun e he => ?_
      have heffect := (List.mem_filter.mp he).2
      simpa using fun hmark => haffects ((affects_of_mark_eq hmark).symm.trans heffect)
    rw [hkeep]
    exact h

end Layers

end Layering

/-! ## Networks with other layers -/

namespace Network

variable {n n' n'' : Network N A σ} {f g : Nat → List (Transformation N) → List (Transformation N)}

/-- Networks that agree in behaviors and formulas, and differ in the layers of the formulas in a given
way. -/
structure Relays (n : Network N A σ) (f : Nat → List (Transformation N) → List (Transformation N))
    (n' : Network N A σ) : Prop where
  typed : n'.Typed
  installed : n'.installed = n.installed
  registrations : n'.registrations = n.registrations
  present : ∀ l, n'.isPresent (.layers l) = n.isPresent (.layers l)
  layering : ∀ l, n'.registry.layering l = (n.registry.layering l).map fun x => (x.1, f l x.2)

theorem Relays.refl (hn : n.Typed) : n.Relays (fun _ layers => layers) n :=
  ⟨hn, rfl, rfl, fun _ => rfl, fun l => by cases n.registry.layering l <;> rfl⟩

theorem Relays.trans (h : n.Relays f n') (h' : n'.Relays g n'') :
    n.Relays (fun l layers => g l (f l layers)) n'' where
  typed := h'.typed
  installed := h'.installed.trans h.installed
  registrations := h'.registrations.trans h.registrations
  present l := (h'.present l).trans (h.present l)
  layering l := by
    rw [h'.layering, h.layering, Option.map_map]
    rfl

theorem Relays.congr (h : n.Relays f n') (hfg : ∀ l layers, g l layers = f l layers) :
    n.Relays g n' := by
  obtain rfl : g = f := funext fun l => funext (hfg l)
  exact h

variable {host : Host N A σ} {tell : A → σ → σ} (hhost : host.Quiet tell)

include hhost

/-- Other layers on a formula, and the announcement of them. -/
theorem relays_modify (hn : n.Typed) (l : Nat)
    (change : List (Transformation N) → List (Transformation N)) :
    Leads True (do
      modify fun n => { n with
        layered := n.layered.modify l fun x => { x with layers := change x.layers } }
      emit host (.layers l) .changed) n
      fun _ => n.Relays fun i layers => if i = l then change layers else layers := by
  refine .modify_bind ?_
  rw [modify_layers_eq]
  have hs := n.sameNodes_withLayers l (change (((n.registry.layering l).map (·.2)).getD []))
  refine (emit_changed hhost (hs.typed hn) (inward_layers _ l)).weaken ?_
  rintro - _ ⟨ids, left, rfl, -, -⟩
  refine ⟨(hs.typed hn).dim ids left, rfl, rfl, fun i => ?_, fun i => ?_⟩
  · rw [isPresent_dim]
    simp only [isPresent, withLayers, Array.getElem?_modify]
    split
    · rw [Option.map_map]
      rfl
    · rfl
  · rw [registry_dim, layering_withLayers]
    split
    · next hi =>
      subst hi
      cases n.registry.layering i <;> rfl
    · cases n.registry.layering i <;> rfl

theorem relays_addLayer (hn : n.Typed) (l : Nat) (t : Transformation N) :
    Leads True (addLayer host l t) n
      fun _ => n.Relays fun i layers => if i = l then layers ++ [t] else layers :=
  relays_modify hhost hn l (· ++ [t])

theorem relays_removeLayer (hn : n.Typed) (l : Nat) (t : Transformation N) :
    Leads True (removeLayer host l t) n fun _ => n.Relays fun i layers =>
      if i = l then layers.eraseP fun x => x.identity == t.identity else layers := by
  refine .get_bind ?_
  split
  · next hx =>
    refine .of_pure { Relays.refl hn with layering := fun i => ?_ }
    by_cases hi : i = l
    · simp [hi, registry, hx]
    · simp [hi]
  · next x hx =>
    split
    · exact relays_modify hhost hn l (·.eraseP fun x => x.identity == t.identity)
    · next hany =>
      refine .of_pure { Relays.refl hn with layering := fun i => ?_ }
      by_cases hi : i = l
      · subst hi
        have hkeep : (x.layers.eraseP fun x => x.identity == t.identity) = x.layers :=
          List.eraseP_of_forall_not (by simpa using hany)
        simp [registry, hx, hkeep]
      · simp [hi]

omit hhost

/-- A loop changes layers as its steps do, one after the other. -/
theorem relays_forM {α : Type} {step : α → Run N A σ PUnit}
    {f : α → Nat → List (Transformation N) → List (Transformation N)}
    (hstep : ∀ a (n : Network N A σ), n.Typed → Leads True (step a) n fun _ => n.Relays (f a)) :
    ∀ (as : List α) {n : Network N A σ}, n.Typed → Leads True (as.forM step) n
      fun _ => n.Relays fun l layers => as.foldl (fun layers a => f a l layers) layers
  | [], _, hn => .of_pure (.refl hn)
  | a :: as, n, hn => by
    rw [List.forM_eq_forM, List.forM_cons]
    refine (hstep a n hn).bind fun _ n' h => ?_
    exact (relays_forM hstep as h.typed).weaken fun _ _ h' => h.trans h'

/-- A loop over different formulas changes the layers of each once. -/
theorem foldl_ite_mem {ids : List Nat} (h : ids.Nodup) (l : Nat)
    (change : List (Transformation N) → List (Transformation N)) (layers : List (Transformation N)) :
    ids.foldl (fun layers i => if l = i then change layers else layers) layers
      = if l ∈ ids then change layers else layers := by
  induction ids generalizing layers with
  | nil => simp
  | cons i ids ih =>
    obtain ⟨hi, hids⟩ := List.nodup_cons.mp h
    rw [List.foldl_cons, ih hids]
    by_cases hl : l = i
    · subst hl
      simp [hi]
    · simp [hl]

/-! ## Formulas that are affected -/

theorem mem_affectedFormulas {b : Behavior N} {l : Nat} : l ∈ n.affectedFormulas b
    ↔ ∃ r ∈ n.registrations, r.formula = l ∧ b.affects r.key ∧ n.isPresent (.layers l) := by
  simp only [affectedFormulas, List.mem_flatMap, List.mem_map, List.mem_filter, Bool.and_eq_true,
    beq_iff_eq, Behavior.affects, List.contains_iff_mem]
  constructor
  · rintro ⟨stat, hstat, stage, hstage, r, ⟨hr, ⟨⟨rfl, rfl⟩, hrule⟩, hpresent⟩, rfl⟩
    exact ⟨r, hr, rfl, ⟨⟨hstat, hstage⟩, hrule⟩, hpresent⟩
  · rintro ⟨r, hr, rfl, ⟨⟨hstat, hstage⟩, hrule⟩, hpresent⟩
    exact ⟨_, hstat, _, hstage, r, ⟨hr, ⟨⟨rfl, rfl⟩, hrule⟩, hpresent⟩, rfl⟩

/-- A behavior affects a formula that is registered once at most once. -/
theorem nodup_affectedFormulas (h : (n.registrations.map (·.formula)).Nodup) {b : Behavior N}
    (hstats : b.stats.Nodup) (hstages : b.stages.Nodup) : (n.affectedFormulas b).Nodup := by
  have hinj {r r' : Registration} (hr : r ∈ n.registrations) (hr' : r' ∈ n.registrations)
      (heq : r.formula = r'.formula) : r = r' := List.inj_on_of_nodup_map h hr hr' heq
  refine List.nodup_flatMap.mpr ⟨fun stat _ => List.nodup_flatMap.mpr ⟨fun stage _ => ?_, ?_⟩, ?_⟩
  · exact h.sublist (List.filter_sublist.map _)
  · refine hstages.imp fun hne l hl hl' => ?_
    obtain ⟨r, hr, rfl⟩ := List.mem_map.mp hl
    obtain ⟨r', hr', heq⟩ := List.mem_map.mp hl'
    simp only [List.mem_filter, Bool.and_eq_true, beq_iff_eq] at hr hr'
    obtain rfl := hinj hr'.1 hr.1 heq
    exact hne (hr.2.1.1.2.symm.trans hr'.2.1.1.2)
  · refine hstats.imp fun hne l hl hl' => ?_
    simp only [List.mem_flatMap, List.mem_map, List.mem_filter, Bool.and_eq_true, beq_iff_eq] at hl hl'
    obtain ⟨_, _, r, hr, rfl⟩ := hl
    obtain ⟨_, _, r', hr', heq⟩ := hl'
    obtain rfl := hinj hr'.1 hr.1 heq
    exact hne (hr.2.1.1.1.symm.trans hr'.2.1.1.1)

/-! ## Requests -/

section Requests

variable (hhost : host.Quiet tell)

include hhost

/-- A behavior that is installed for the first time is put on the formulas it affects. -/
theorem relays_installOne (hn : n.Typed) (honce : (n.registrations.map (·.formula)).Nodup)
    {b : Behavior N} (hstats : b.stats.Nodup) (hstages : b.stages.Nodup) :
    Leads True (installOne host b) n fun _ =>
      (n.withBehaviors (Books.installOne b n.installed) n.registrations).Relays fun l layers =>
        if b.mark ∉ (n.installed.map fun e => e.1.mark) ∧ l ∈ n.affectedFormulas b then
          layers ++ [b.transformation] else layers := by
  have htyped := (n.sameNodes_withBehaviors (Books.installOne b n.installed) n.registrations).typed hn
  refine .congr ?_ (installOne_eq host b n)
  refine .modify_bind ?_
  split
  · next hnew =>
    refine (relays_forM (fun l n hn => relays_addLayer hhost hn l b.transformation) _ htyped).weaken
      fun _ _ h => h.congr fun l layers => ?_
    rw [foldl_ite_mem (nodup_affectedFormulas honce hstats hstages)]
    simp [hnew]
  · next hold =>
    exact .of_pure ((Relays.refl htyped).congr fun l layers => if_neg fun h => hold h.1)

/-- A behavior that is uninstalled for the last time is taken off the formulas it affects. -/
theorem relays_uninstallOne (hn : n.Typed) (hsound : Tally.Sound Behavior.mark n.installed)
    (honce : (n.registrations.map (·.formula)).Nodup) {b : Behavior N} (hstats : b.stats.Nodup)
    (hstages : b.stages.Nodup) :
    Leads True (uninstallOne host b) n fun _ =>
      (n.withBehaviors (Books.uninstallOne b n.installed) n.registrations).Relays fun l layers =>
        if Tally.count Behavior.mark n.installed b.mark = 1 ∧ l ∈ n.affectedFormulas b then
          layers.eraseP fun t => t.identity == b.transformation.identity else layers := by
  have htyped := (n.sameNodes_withBehaviors (Books.uninstallOne b n.installed) n.registrations).typed hn
  refine .congr ?_ (uninstallOne_eq host hsound b)
  refine .modify_bind ?_
  split
  · next hlast =>
    refine (relays_forM (fun l n hn => relays_removeLayer hhost hn l b.transformation) _
      htyped).weaken fun _ _ h => h.congr fun l layers => ?_
    rw [foldl_ite_mem (nodup_affectedFormulas honce hstats hstages)]
    simp [hlast]
  · next hmore =>
    exact .of_pure ((Relays.refl htyped).congr fun l layers => if_neg fun h => hmore h.1)

/-- A formula that is registered gets what is installed. -/
theorem relays_register (hn : n.Typed) (key : NodeKey) (id : Nat) :
    Leads True (register host key id) n fun _ =>
      (n.withBehaviors n.installed (n.registrations ++ [⟨key, id⟩])).Relays fun l layers =>
        if l = id then layers ++ Behavior.applying n.installed key else layers := by
  have htyped := (n.sameNodes_withBehaviors n.installed (n.registrations ++ [⟨key, id⟩])).typed hn
  refine .modify_bind (.get_bind ?_)
  refine (relays_forM (fun (e : Behavior N × Nat) n hn =>
    relays_addLayer hhost hn id e.1.transformation) _ htyped).weaken
    fun _ _ h => h.congr fun l layers => ?_
  rw [Behavior.applying]
  change _ = (n.installed.filter fun e => e.1.affects key).foldl _ layers
  generalize n.installed.filter (fun e => e.1.affects key) = entries
  induction entries generalizing layers with
  | nil => simp
  | cons e entries ih =>
    rw [List.foldl_cons, ← ih]
    split <;> simp

end Requests

end Network

namespace Layering

/-- A request to install or uninstall behaviors, or to register or forget formulas. -/
inductive Step (N : Type) where
  /-- Install behaviors. -/
  | install (behaviors : List (Behavior N))
  /-- Uninstall behaviors. -/
  | uninstall (behaviors : List (Behavior N))
  /-- Register a formula for a node. -/
  | register (key : NodeKey) (formula : Nat)
  /-- Forget the formulas of a node. -/
  | unregister (key : NodeKey)

namespace Step

/-- Carry out a request. -/
def run (host : Host N A σ) : Step N → Run N A σ Unit
  | .install behaviors => Network.install host behaviors
  | .uninstall behaviors => Network.uninstall host behaviors
  | .register key formula => Network.register host key formula
  | .unregister key => Network.unregister key

/-- The behaviors that are installed or uninstalled. -/
def behaviors : Step N → List (Behavior N)
  | .install behaviors | .uninstall behaviors => behaviors
  | _ => []

/-- The behaviors that are uninstalled. -/
def uninstalled : Step N → List (Behavior N)
  | .uninstall behaviors => behaviors
  | _ => []

/-- The formulas that are registered. -/
def formulas : Step N → List Nat
  | .register _ formula => [formula]
  | _ => []

end Step

/-- Every formula that is registered has one layer for each installed behavior that affects its node. -/
structure Applied (start : Network N A σ) (uninstalled behaviors : List (Behavior N))
    (used : List Nat) (n : Network N A σ) : Prop where
  typed : n.Typed
  tally : Tally.Sound Behavior.mark n.installed
  pool : ∀ e ∈ n.installed, e.1 ∈ behaviors
  once : (n.registrations.map (·.formula)).Nodup
  registered : ∀ r ∈ n.registrations, r.formula ∈ used ∧ n.isPresent (.layers r.formula)
  present : ∀ l, n.isPresent (.layers l) = start.isPresent (.layers l)
  untouched : ∀ l ∉ used, n.registry.layering l = start.registry.layering l
  wraps : ∀ r ∈ n.registrations, ∃ φ layers, start.registry.layering r.formula = some (φ, [])
    ∧ n.registry.layering r.formula = some (φ, layers)
    ∧ Agrees (Unshared uninstalled behaviors r.key) layers (Behavior.applying n.installed r.key)

namespace Applied

variable {start n n' : Network N A σ} {uninstalled behaviors : List (Behavior N)} {used : List Nat}
  {host : Host N A σ} {tell : A → σ → σ}

/-- A formula that is registered once is affected by the behaviors that affect its node. -/
theorem mem_affected_iff (h : Applied start uninstalled behaviors used n) {r : Registration}
    (hr : r ∈ n.registrations) (b : Behavior N) :
    r.formula ∈ n.affectedFormulas b ↔ b.affects r.key = true := by
  rw [mem_affectedFormulas]
  constructor
  · rintro ⟨r', hr', heq, haffects, -⟩
    obtain rfl := List.inj_on_of_nodup_map h.once hr' hr heq
    exact haffects
  · exact fun haffects => ⟨r, hr, rfl, haffects, (h.registered r hr).2⟩

theorem not_mem_affected (h : Applied start uninstalled behaviors used n) {l : Nat} (hl : l ∉ used)
    (b : Behavior N) : l ∉ n.affectedFormulas b := fun hmem => by
  obtain ⟨r, hr, rfl, -⟩ := mem_affectedFormulas.mp hmem
  exact hl (h.registered r hr).1

/-- Other behaviors that are installed, with other layers to go with them. -/
theorem relays (h : Applied start uninstalled behaviors used n) {installed : List (Behavior N × Nat)}
    {f : Nat → List (Transformation N) → List (Transformation N)}
    (hrelays : (n.withBehaviors installed n.registrations).Relays f n')
    (htally : Tally.Sound Behavior.mark installed) (hpool : ∀ e ∈ installed, e.1 ∈ behaviors)
    (hleave : ∀ l ∉ used, ∀ layers, f l layers = layers)
    (hagrees : ∀ r ∈ n.registrations, ∀ layers,
      Agrees (Unshared uninstalled behaviors r.key) layers (Behavior.applying n.installed r.key) →
      Agrees (Unshared uninstalled behaviors r.key) (f r.formula layers)
        (Behavior.applying installed r.key)) :
    Applied start uninstalled behaviors used n' := by
  have hinstalled : n'.installed = installed := hrelays.installed
  have hregistrations : n'.registrations = n.registrations := hrelays.registrations
  have hpresent (l : Nat) : n'.isPresent (.layers l) = n.isPresent (.layers l) := hrelays.present l
  have hlayering (l : Nat) : n'.registry.layering l
      = (n.registry.layering l).map fun x => (x.1, f l x.2) := hrelays.layering l
  refine ⟨hrelays.typed, hinstalled ▸ htally, hinstalled ▸ hpool, hregistrations ▸ h.once, fun r hr => ?_,
    fun l => (hpresent l).trans (h.present l), fun l hl => ?_, fun r hr => ?_⟩
  · rw [hpresent]
    exact h.registered r (hregistrations ▸ hr)
  · rw [hlayering, ← h.untouched l hl]
    cases n.registry.layering l <;> simp [hleave l hl]
  · rw [hregistrations] at hr
    obtain ⟨φ, layers, hstart, hnow, hlayers⟩ := h.wraps r hr
    refine ⟨φ, _, hstart, by rw [hlayering, hnow]; rfl, ?_⟩
    rw [hinstalled]
    exact hagrees r hr layers hlayers

end Applied

/-- Layers that agree do so with more of the same on top. -/
theorem Agrees.append {unshared : Prop} {layers applied : List (Transformation N)}
    (h : Agrees unshared layers applied) (more : List (Transformation N)) :
    Agrees unshared (layers ++ more) (applied ++ more) where
  once := by
    rw [List.map_append, List.map_append]
    exact h.once.append_right _
  inOrder hunshared := by rw [h.inOrder hunshared]

namespace Applied

variable {start n n' : Network N A σ} {uninstalled behaviors : List (Behavior N)} {used : List Nat}
  {host : Host N A σ} {tell : A → σ → σ} (hhost : host.Quiet tell)

include hhost

/-- Installing a behavior keeps the invariant. -/
theorem installOne (h : Applied start uninstalled behaviors used n) {b : Behavior N}
    (hb : b ∈ behaviors) (hplain : b.stats.Nodup ∧ b.stages.Nodup) :
    Leads True (Network.installOne host b) n fun _ => Applied start uninstalled behaviors used := by
  refine (relays_installOne hhost h.typed h.once hplain.1 hplain.2).weaken fun _ n' hrelays => ?_
  refine h.relays hrelays ?_ (fun e he => ?_) (fun l hl layers => ?_) fun r hr layers hlayers => ?_
  · rw [Books.installOne]
    split
    · exact h.tally.change _ fun _ _ _ => Nat.succ_pos _
    · next hnew => exact h.tally.opened b hnew
  · rw [Books.installOne] at he
    split at he
    · obtain ⟨e', he', rfl⟩ := List.mem_map.mp he
      split <;> exact h.pool e' he'
    · rcases List.mem_append.mp he with he | he
      · exact h.pool e he
      · rw [List.mem_singleton.mp he]
        exact hb
  · exact if_neg fun hnew => h.not_mem_affected hl b hnew.2
  · simp only [h.mem_affected_iff hr]
    rw [Books.installOne]
    by_cases hold : b.mark ∈ n.installed.map fun e => e.1.mark
    · rw [if_neg fun hnew => hnew.1 hold, if_pos hold, applying_change]
      exact hlayers
    · rw [if_neg hold, applying_opened]
      by_cases haffects : b.affects r.key = true
      · rw [if_pos ⟨hold, haffects⟩, if_pos haffects]
        exact hlayers.append _
      · rw [if_neg fun hnew => haffects hnew.2, if_neg haffects, List.append_nil]
        exact hlayers

/-- Uninstalling a behavior keeps the invariant. -/
theorem uninstallOne (h : Applied start uninstalled behaviors used n) {b : Behavior N}
    (hb : b ∈ uninstalled) (hplain : b.stats.Nodup ∧ b.stages.Nodup) :
    Leads True (Network.uninstallOne host b) n fun _ => Applied start uninstalled behaviors used := by
  refine (relays_uninstallOne hhost h.typed h.tally h.once hplain.1 hplain.2).weaken
    fun _ n' hrelays => ?_
  refine h.relays hrelays ?_ (fun e he => ?_) (fun l hl layers => ?_) fun r hr layers hlayers => ?_
  · rw [Books.uninstallOne]
    split
    · next hmore => exact h.tally.lowered hmore
    · exact h.tally.filter _
  · rw [Books.uninstallOne] at he
    split at he
    · obtain ⟨e', he', rfl⟩ := List.mem_map.mp he
      split <;> exact h.pool e' he'
    · exact h.pool e (List.mem_filter.mp he).1
  · exact if_neg fun hlast => h.not_mem_affected hl b hlast.2
  · simp only [h.mem_affected_iff hr]
    rw [Books.uninstallOne]
    by_cases hmore : 1 < Tally.count Behavior.mark n.installed b.mark
    · rw [if_neg fun hlast => by omega, if_pos hmore, applying_change]
      exact hlayers
    · rw [if_neg hmore]
      by_cases hlast : Tally.count Behavior.mark n.installed b.mark = 1
      · have hclosed := hlayers.closed h.tally h.pool hb
          (h.tally.count_pos_iff.mp (by omega))
        simpa only [hlast, true_and] using hclosed
      · -- it is not installed at all
        have hnot : b.mark ∉ n.installed.map fun e => e.1.mark := fun hmem => by
          have := h.tally.count_pos_iff.mpr hmem
          omega
        have hkeep : (n.installed.filter fun e => !decide (e.1.mark = b.mark)) = n.installed :=
          List.filter_eq_self.mpr fun e he => by
            simpa using fun heq => hnot (List.mem_map.mpr ⟨e, he, heq⟩)
        rw [if_neg fun h => hlast h.1, hkeep]
        exact hlayers

/-- Registering a formula that was not registered before keeps the invariant. -/
theorem register (h : Applied start uninstalled behaviors used n) {id : Nat} (hid : id ∉ used)
    (hpresent : start.isPresent (.layers id)) {φ : Formula N}
    (hfresh : start.registry.layering id = some (φ, [])) (key : NodeKey) :
    Leads True (Network.register host key id) n
      fun _ => Applied start uninstalled behaviors (used ++ [id]) := by
  have hne {r : Registration} (hr : r ∈ n.registrations) : r.formula ≠ id := fun heq =>
    hid (heq ▸ (h.registered r hr).1)
  refine (relays_register hhost h.typed key id).weaken fun _ n' hrelays => ?_
  have hinstalled : n'.installed = n.installed := hrelays.installed
  have hregistrations : n'.registrations = n.registrations ++ [⟨key, id⟩] := hrelays.registrations
  have hlayering (l : Nat) : n'.registry.layering l = (n.registry.layering l).map fun x =>
      (x.1, if l = id then x.2 ++ Behavior.applying n.installed key else x.2) := hrelays.layering l
  have hthere (l : Nat) : n'.isPresent (.layers l) = start.isPresent (.layers l) :=
    (hrelays.present l).trans (h.present l)
  refine ⟨hrelays.typed, hinstalled ▸ h.tally, hinstalled ▸ h.pool, ?_, fun r hr => ?_, hthere,
    fun l hl => ?_, fun r hr => ?_⟩
  · rw [hregistrations, List.map_append, List.map_singleton, List.nodup_append]
    refine ⟨h.once, List.nodup_singleton _, fun l hl l' hl' => ?_⟩
    obtain ⟨r, hr, rfl⟩ := List.mem_map.mp hl
    rw [List.mem_singleton.mp hl']
    exact hne hr
  · rw [hthere, List.mem_append, List.mem_singleton]
    rcases List.mem_append.mp (hregistrations ▸ hr) with hr | hr
    · exact ⟨.inl (h.registered r hr).1, (h.present _).symm.trans (h.registered r hr).2⟩
    · rw [List.mem_singleton.mp hr]
      exact ⟨.inr rfl, hpresent⟩
  · rw [List.mem_append, List.mem_singleton, not_or] at hl
    rw [hlayering, ← h.untouched l hl.1]
    cases n.registry.layering l <;> simp [hl.2]
  · rw [hinstalled]
    rcases List.mem_append.mp (hregistrations ▸ hr) with hr | hr
    · obtain ⟨ψ, layers, hstart, hnow, hlayers⟩ := h.wraps r hr
      exact ⟨ψ, layers, hstart, by rw [hlayering, hnow, Option.map_some, if_neg (hne hr)], hlayers⟩
    · rw [List.mem_singleton.mp hr]
      have hnow : n.registry.layering id = some (φ, []) := (h.untouched id hid).trans hfresh
      exact ⟨φ, _, hfresh, by rw [hlayering, hnow]; rfl, by simpa using ⟨.refl _, fun _ => rfl⟩⟩

omit hhost in
/-- Forgetting the formulas of a node keeps the invariant. -/
theorem unregister (h : Applied start uninstalled behaviors used n) (key : NodeKey) :
    Leads True (Network.unregister key : Run N A σ Unit) n
      fun _ => Applied start uninstalled behaviors used := by
  have hsub : (n.registrations.filter (·.key != key)).Sublist n.registrations := List.filter_sublist
  refine .of_modify ⟨?_, h.tally, h.pool, h.once.sublist (hsub.map _),
    fun r hr => h.registered r (hsub.subset hr), h.present, h.untouched,
    fun r hr => h.wraps r (hsub.subset hr)⟩
  exact (n.sameNodes_withBehaviors n.installed (n.registrations.filter (·.key != key))).typed h.typed

/-- Every request keeps the invariant, if the formulas it registers were not registered before. -/
theorem step (h : Applied start uninstalled behaviors used n) {s : Step N}
    (hbehaviors : ∀ b ∈ s.behaviors, b ∈ behaviors ∧ b.stats.Nodup ∧ b.stages.Nodup)
    (huninstalled : ∀ b ∈ s.uninstalled, b ∈ uninstalled)
    (hformulas : ∀ id ∈ s.formulas, id ∉ used ∧ start.isPresent (.layers id)
      ∧ ∃ φ, start.registry.layering id = some (φ, [])) :
    Leads True (s.run host) n
      fun _ => Applied start uninstalled behaviors (used ++ s.formulas) := by
  cases s with
  | install bs =>
    simp only [Step.formulas, List.append_nil]
    exact Leads.forM (fun b hb n hn => hn.installOne hhost (hbehaviors b hb).1 (hbehaviors b hb).2) h
  | uninstall bs =>
    simp only [Step.formulas, List.append_nil]
    exact Leads.forM (fun b hb n hn => hn.uninstallOne hhost (huninstalled b hb) (hbehaviors b hb).2) h
  | register key id =>
    obtain ⟨hid, hpresent, φ, hfresh⟩ := hformulas id List.mem_cons_self
    exact h.register hhost hid hpresent hfresh key
  | unregister key =>
    simp only [Step.formulas, List.append_nil]
    exact h.unregister key

/-- So do any requests after each other. -/
theorem steps {ss : List (Step N)} (h : Applied start uninstalled behaviors used n)
    (hbehaviors : ∀ b ∈ ss.flatMap Step.behaviors, b ∈ behaviors ∧ b.stats.Nodup ∧ b.stages.Nodup)
    (huninstalled : ∀ b ∈ ss.flatMap Step.uninstalled, b ∈ uninstalled)
    (honce : (used ++ ss.flatMap Step.formulas).Nodup)
    (hformulas : ∀ id ∈ ss.flatMap Step.formulas, start.isPresent (.layers id)
      ∧ ∃ φ, start.registry.layering id = some (φ, [])) :
    Leads True (ss.forM (Step.run host)) n
      fun _ => Applied start uninstalled behaviors (used ++ ss.flatMap Step.formulas) := by
  induction ss generalizing used n with
  | nil => exact .of_pure (by simpa using h)
  | cons s ss ih =>
    rw [List.forM_eq_forM, List.forM_cons, ← List.forM_eq_forM]
    rw [List.flatMap_cons, ← List.append_assoc] at honce
    simp only [List.flatMap_cons, List.mem_append] at hbehaviors huninstalled hformulas
    refine (h.step hhost (fun b hb => hbehaviors b (.inl hb)) (fun b hb => huninstalled b (.inl hb))
      fun id hid => ⟨fun hused => ?_, hformulas id (.inl hid)⟩).bind fun _ n' h' => ?_
    · exact (List.nodup_append.mp (List.nodup_append.mp honce).1).2.2 id hused id hid rfl
    · rw [List.flatMap_cons, ← List.append_assoc]
      exact ih h' (fun b hb => hbehaviors b (.inr hb)) (fun b hb => huninstalled b (.inr hb)) honce
        fun id hid => hformulas id (.inr hid)

end Applied

/-- Behaviors are installed and uninstalled, and formulas registered and forgotten, in any order, each
formula once. Then every formula that is registered is as it was made, under one layer for each installed
behavior that affects its node. The layers are in the order the behaviors were installed in, if no
behavior that was uninstalled shares its transformation with another one that affects the node. -/
theorem applied_in_order {host : Host N A σ} {tell : A → σ → σ} (hhost : host.Quiet tell)
    {n : Network N A σ} (hn : n.Typed) (hinstalled : n.installed = [])
    (hregistrations : n.registrations = []) {ss : List (Step N)}
    (hbehaviors : ∀ b ∈ ss.flatMap Step.behaviors, b.stats.Nodup ∧ b.stages.Nodup)
    (honce : (ss.flatMap Step.formulas).Nodup)
    (hformulas : ∀ id ∈ ss.flatMap Step.formulas,
      ∃ x, n.layered[id]? = some x ∧ x.layers = [] ∧ x.gone = false) :
    ∃ n', ss.forM (Step.run host) n = some (⟨⟩, n') ∧ ∀ r ∈ n'.registrations,
      ∃ x x', n.layered[r.formula]? = some x ∧ n'.layered[r.formula]? = some x'
        ∧ x'.initial = x.initial
        ∧ (x'.layers.map (·.identity)).Perm
            ((Behavior.applying n'.installed r.key).map (·.identity))
        ∧ (Unshared (ss.flatMap Step.uninstalled) (ss.flatMap Step.behaviors) r.key →
            x'.layers = Behavior.applying n'.installed r.key) := by
  have hstart : Applied n (ss.flatMap Step.uninstalled) (ss.flatMap Step.behaviors) [] n :=
    ⟨hn, hinstalled ▸ .nil, by simp [hinstalled], by simp [hregistrations], by simp [hregistrations],
      fun _ => rfl, fun _ _ => rfl, by simp [hregistrations]⟩
  have hrun := hstart.steps hhost (fun b hb => ⟨hb, hbehaviors b hb⟩) (fun _ hb => hb) honce
    fun id hid => by
      obtain ⟨x, hx, hlayers, hgone⟩ := hformulas id hid
      exact ⟨by simp [isPresent, hx, hgone], x.initial, by simp [registry, hx, hlayers]⟩
  obtain ⟨⟨⟩, n', hrun, happlied⟩ := hrun.exists_eq
  refine ⟨n', hrun, fun r hr => ?_⟩
  obtain ⟨φ, layers, hthen, hnow, hlayers⟩ := happlied.wraps r hr
  obtain ⟨x, hx, hxφ⟩ := Option.map_eq_some_iff.mp hthen
  obtain ⟨x', hx', hxφ'⟩ := Option.map_eq_some_iff.mp hnow
  cases hxφ'
  rw [Prod.mk.injEq] at hxφ
  exact ⟨x, x', hx, hx', hxφ.1.symm, hlayers.once, hlayers.inOrder⟩

/-! ## Behaviors that share a transformation -/

namespace Sharing

/-- A node. -/
def key : NodeKey := ⟨⟨"A", .character⟩, .base, Path.main⟩

/-- A behavior of the node, by the transformation of a number. -/
def behavior (rule : PathRule) (number : Nat) (effect : Effect ℚ) : Behavior ℚ :=
  ⟨[key.stat], [key.stage], rule, ⟨.numbered number, effect⟩⟩

/-- Doubles the value, on every path. -/
def doubled : Behavior ℚ := behavior .all 0 (.scale 2)

/-- Adds one to the value. -/
def raised : Behavior ℚ := behavior .all 1 (.offset 1)

/-- Doubles the value on the main path, by the transformation that doubles it on every path. -/
def doubledOnMain : Behavior ℚ := behavior .mainOnly 0 (.scale 2)

/-- A network with a formula, and nothing else. -/
def start : Network ℚ Unit Unit :=
  { Network.empty true none () with layered := #[⟨.constant (some (.single 1)), [], [], false⟩] }

theorem typed_start : start.Typed := by
  have hnone (topic : Topic) : start.listeners topic = [] := by
    cases topic with
    | layers id => cases id <;> rfl
    | _ => rfl
  exact ⟨fun h => by simp [hnone] at h, fun h => by simp [hnone] at h⟩

/-- What a formula computes under layers. -/
def outcome (layers : List (Transformation ℚ)) : Except (Fault ℚ) (Option (Amount ℚ)) :=
  (Table.empty.evaluate none layers (.constant (some (.single 1)))).1

end Sharing

open Sharing in
/-- Two behaviors share a transformation, and another one that was installed between them is uninstalled:
then the layers that are left are in order. -/
theorem applied_in_order_between : ∃ n', [Step.install [doubled, raised], .register key 0,
      .install [doubledOnMain], .uninstall [raised]].forM (Step.run Host.idle) start = some (⟨⟩, n')
    ∧ ∃ r ∈ n'.registrations, r.key = key ∧ ∃ x, n'.layered[r.formula]? = some x
      ∧ x.layers = Behavior.applying n'.installed key
      ∧ outcome (Behavior.applying n'.installed key) = .ok (some (.single 4)) := by
  let steps := [Step.install [doubled, raised], .register key 0, .install [doubledOnMain],
    .uninstall [raised]]
  let facts (n : Network ℚ Unit Unit) : Bool := n.registrations.any (·.key == key)
    && outcome (Behavior.applying n.installed key) = .ok (some (.single 4))
  have hbehaviors : ∀ b ∈ steps.flatMap Step.behaviors, b.stats.Nodup ∧ b.stages.Nodup := by decide
  obtain ⟨n', hrun, hlayers⟩ := applied_in_order Host.quiet_idle typed_start rfl rfl hbehaviors
    (by decide) (fun id hid => by
      obtain rfl : id = 0 := by simpa [steps, Step.formulas] using hid
      exact ⟨_, rfl, rfl, rfl⟩)
  have hfacts : ((steps.forM (Step.run Host.idle) start).map fun r => facts r.2) = some true := by
    decide +kernel
  rw [hrun, Option.map_some, Option.some.injEq] at hfacts
  simp only [facts, Bool.and_eq_true, List.any_eq_true, beq_iff_eq, decide_eq_true_iff] at hfacts
  obtain ⟨⟨r, hr, hkey⟩, houtcome⟩ := hfacts
  obtain ⟨-, x, -, hx, -, -, horder⟩ := hlayers r hr
  -- what is uninstalled shares its transformation with nothing else
  have hunshared : Unshared (steps.flatMap Step.uninstalled) (steps.flatMap Step.behaviors) r.key := by
    intro b hb b' hb' _ _ hidentity
    obtain rfl : b = raised := by simpa [steps, Step.uninstalled] using hb
    have hb' : b' = doubled ∨ b' = raised ∨ b' = doubledOnMain ∨ b' = raised := by
      simpa [steps, Step.behaviors] using hb'
    rcases hb' with rfl | rfl | rfl | rfl
    · cases hidentity
    · rfl
    · cases hidentity
    · rfl
  exact ⟨n', hrun, r, hr, hkey, x, hx, hkey ▸ horder hunshared, houtcome⟩

open Sharing in
/-- Of two behaviors that share a transformation, the later one is uninstalled, and the layer of the
earlier one is taken off: what is left is not in the order the behaviors were installed in. -/
theorem shared_layer_taken_off : ∃ n' x, [Step.register key 0, .install [doubled, raised, doubledOnMain],
      .uninstall [doubledOnMain]].forM (Step.run Host.idle) start = some (⟨⟩, n')
    ∧ n'.layered[0]? = some x
    ∧ outcome x.layers = .ok (some (.single 4))
    ∧ outcome (Behavior.applying n'.installed key) = .ok (some (.single 3)) := by
  have hfacts : (([Step.register key 0, .install [doubled, raised, doubledOnMain],
      .uninstall [doubledOnMain]].forM (Step.run Host.idle) start).bind fun r =>
        r.2.layered[0]?.map fun x => (outcome x.layers, outcome (Behavior.applying r.2.installed key)))
      = some (.ok (some (.single 4)), .ok (some (.single 3))) := by
    decide +kernel
  obtain ⟨⟨⟨⟩, n'⟩, hrun, hfacts⟩ := Option.bind_eq_some_iff.mp hfacts
  obtain ⟨x, hx, hfacts⟩ := Option.map_eq_some_iff.mp hfacts
  rw [Prod.mk.injEq] at hfacts
  exact ⟨n', x, hrun, hx, hfacts.1, hfacts.2⟩

end Layering

end StatEngine
