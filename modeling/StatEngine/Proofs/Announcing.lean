import StatEngine.Network.Growth
import StatEngine.Proofs.Spreading

/-!
# Changes that are announced

When something changes that values were computed from, it is announced, and the values that were
computed from it are dropped. So the invariant holds again after the announcement (`Core.announce`):
paths come up that a stat has values on, and layers are put on the formulas of other stats.

## Main statements

* `Core.announce`: a change that is announced keeps the invariant;
* `leads_addPath`: counting a path keeps the invariant.
-/

namespace StatEngine.Network

variable {N A σ : Type} {sc : Regime N}

section Dim

variable (n : Network N A σ) (heard : List Nat) (left : Notices σ) (id : Nat)

@[simp]
theorem recorded_dim : (n.dim heard left).recorded id = n.recorded id := recorded_relight ..

theorem isEntered_dim : (n.dim heard left).isEntered id = n.isEntered id := by
  rw [isEntered, flags?_dim, isEntered]
  cases n.flags? id with
  | none => rfl
  | some flags => by_cases hc : id ∈ heard <;> simp [hc, Flags.dropped]

variable {n heard left id}

/-- Whoever has nothing to lose stays as it is when it hears of a change. -/
theorem view?_dim_of_not_flagged (h : ∀ c ∈ heard, ¬ n.Flagged c) (left : Notices σ) (id : Nat) :
    (n.dim heard left).view? id = n.view? id := by
  have : n.relight (fun i flags => if i ∈ heard then flags.dropped else flags) = n := by
    refine (n.relight_congr fun i flags hflags => ?_).trans n.relight_id
    split
    · next hi =>
      have hdark : ¬ n.Flagged i := h i hi
      obtain ⟨value, observed, stale, entered⟩ := flags
      simp [Flagged, value?, isObserved, isEntered, hflags] at hdark
      simp [Flags.dropped, hdark]
    · rfl
  rw [dim, this]
  rfl

end Dim

/-- The flags of a cached node that does not keep its value. -/
def Flags.cleared (flags : Flags N) : Flags N := { flags with value := none }

/-- Nodes have the same flags, but that some which are not on file may not keep their values. -/
def Clears (n m : Network N A σ) : Prop :=
  ∀ c, m.flags? c = n.flags? c ∨ m.flags? c = (n.flags? c).map Flags.cleared
    ∧ ∀ id key, c = id + 1 → ¬ m.Under key id

namespace Clears

variable {n m : Network N A σ} (h : n.Clears m)

include h

theorem isObserved (c : Nat) : m.isObserved c = n.isObserved c := by
  rw [Network.isObserved, Network.isObserved]
  obtain h | ⟨h, -⟩ := h c <;> rw [h]
  cases n.flags? c <;> rfl

theorem isEntered (c : Nat) : m.isEntered c = n.isEntered c := by
  rw [Network.isEntered, Network.isEntered]
  obtain h | ⟨h, -⟩ := h c <;> rw [h]
  cases n.flags? c <;> rfl

theorem exists_flags {c : Nat} {flags : Flags N} (hc : m.flags? c = some flags) :
    ∃ value, n.flags? c = some { flags with value := value } ∧ (value = none → flags.value = none) := by
  obtain h | ⟨h, -⟩ := h c
  · exact ⟨_, h ▸ hc, id⟩
  · rw [h] at hc
    obtain ⟨old, hold, rfl⟩ := Option.map_eq_some_iff.mp hc
    exact ⟨old.value, hold, fun _ => rfl⟩

theorem value_of_ne {c : Nat} (hc : m.value? c ≠ none) : n.value? c = m.value? c := by
  obtain h | ⟨h, -⟩ := h c
  · rw [Network.value?, Network.value?, h]
  · rw [Network.value?, h] at hc
    cases hflags : n.flags? c <;> simp [hflags, Flags.cleared] at hc

theorem value_of_under {id : Nat} {key : DependencyKey} (hid : m.Under key id) :
    m.value? (id + 1) = n.value? (id + 1) := by
  obtain h | ⟨-, h⟩ := h (id + 1)
  · rw [Network.value?, Network.value?, h]
  · exact absurd hid (h id key rfl)

/-- Who was dimmed has nothing to lose any more. -/
theorem of_dim {ids : List Nat} {left : Notices σ} {c : Nat}
    (hc : (m.dim ids left).value? c ≠ none ∨ (m.dim ids left).isObserved c) :
    c ∉ ids ∧ (n.value? c ≠ none ∨ n.isObserved c) := by
  rw [value?_dim, isObserved_dim, h.isObserved] at hc
  by_cases hmem : c ∈ ids
  · simp [hmem] at hc
  · refine ⟨hmem, hc.imp (fun hv => ?_) fun ho => by simpa [hmem] using ho⟩
    rw [if_neg hmem] at hv
    rwa [h.value_of_ne hv]

end Clears

theorem Clears.of_eq {n m : Network N A σ} (h : ∀ c, m.flags? c = n.flags? c) : n.Clears m :=
  fun c => .inl (h c)

/-- An announcement takes nothing off the list of the hosts. -/
theorem Lists.dim {n : Network N A σ} (h : n.Lists) (ids : List Nat) (left : Notices σ) :
    (n.dim ids left).Lists :=
  h.mono (.refl _) (fun _ _ _ he => he) fun _ _ _ _ => ⟨kind?_dim .., held_relight ..⟩

variable {host : Host N A σ} {tell : A → σ → σ} [Number N]

section Announced

variable {n m : Network N A σ} {topic : Topic} {ids : List Nat}

omit [Number N] in
/-- After an announcement the flags say of those who did not hear it what they said before. -/
theorem Lit.announce (hn : n.Lit sc) (hclears : n.Clears m)
    (hdenotes : ∀ id φ p, n.isEntered (id + 1) → n.Denotes sc id φ p → m.Denotes sc id φ p)
    (hmain : sc.Follows → ∀ key e, m.registry.stage? ⟨key, .uncappedSubtotal, Path.main⟩ = some e →
      n.Flagged (e.formula + 1) → ¬ m.Hears topic (e.formula + 1) → Path.main ∈ m.registry.paths key)
    (htells : sc.Follows → ∀ key e, m.registry.stage? ⟨key, .uncappedSubtotal, Path.main⟩ = some e →
      n.value? (e.formula + 1) ≠ none ∨ n.isObserved (e.formula + 1) →
      n.isEntered (e.formula + 1) = false → ¬ m.Hears topic (e.formula + 1) →
      ∃ s, (.paths key, s) ∈ m.recorded e.formula ∧ m.registry.topic? (.paths key) = some s.topic)
    (hids : ∀ c, c ∈ ids ↔ m.Hears topic c)
    (hquiet : sc.Follows → ∀ c ∈ ids, n.isEntered c = false) (left : Notices σ) :
    (m.dim ids left).Lit sc := by
  have hentered := hclears.isEntered
  refine ⟨fun c hc => ?_, fun c flags hc hflags => ?_, fun hsc key e he hflagged => ?_,
    fun hsc key e he hvalued hnot => ?_⟩
  · obtain ⟨hnot, -⟩ := hclears.of_dim (.inl hc)
    rw [value?_dim, if_neg hnot] at hc
    rw [isObserved_dim, hclears.isObserved, hn.shown c (hclears.value_of_ne hc ▸ hc)]
    simp [hnot]
  · rw [flags?_dim] at hc
    obtain ⟨flags', hflags', rfl⟩ := Option.map_eq_some_iff.mp hc
    obtain ⟨value, hold, hkept⟩ := hclears.exists_flags hflags'
    have hflags : flags'.entered := by
      split at hflags <;> exact hflags
    obtain ⟨hvalue, hfollows⟩ := hn.entered c _ hold hflags
    have hflags : n.isEntered c := by simpa [isEntered, hold] using hflags
    refine ⟨?_, fun hsc => ?_⟩
    · split
      · rfl
      · exact hkept hvalue
    have hnot : c ∉ ids := fun hc => by simp [hquiet hsc c hc] at hflags
    rw [if_neg hnot]
    obtain ⟨hstale, id, φ, p, rfl, hd⟩ := hfollows hsc
    exact ⟨hstale, id, φ, p, rfl, (hdenotes id φ p hflags hd).of_registry (m.registry_dim ids left)⟩
  · have hc : e.formula + 1 ∉ ids ∧ n.Flagged (e.formula + 1) := by
      obtain hv | hv | hv := hflagged
      · exact (hclears.of_dim (.inl hv)).imp_right fun h => h.imp_right .inl
      · exact (hclears.of_dim (.inr hv)).imp_right fun h => h.imp_right .inl
      · rw [isEntered_dim, hentered] at hv
        exact ⟨fun hc => by simp [hquiet hsc _ hc] at hv, .inr (.inr hv)⟩
    exact hmain hsc key e he hc.2 (mt (hids _).mpr hc.1)
  · rw [isEntered_dim, hentered] at hnot
    obtain ⟨hc, hvalued⟩ := hclears.of_dim hvalued
    rw [recorded_dim]
    exact htells hsc key e he hvalued hnot (mt (hids _).mpr hc)

/-- A cell that failed and did not hear an announcement is stuck as it was. -/
theorem Core.stuck_announced (hn : n.Core sc) (hm : m.Wired sc) (ho : m.registry.Orderly sc)
    (hclears : n.Clears m)
    (hkeeps : ∀ id, (∃ φ p, m.Denotes sc id φ p) → n.Resolved id → ¬ m.Hears topic (id + 1) →
      n.KeepsAt sc m id)
    (hknown : ∀ id φ p, m.Denotes sc id φ p → n.isObserved (id + 1) → ¬ m.Hears topic (id + 1) →
      n.Denotes sc id φ p)
    (hids : ∀ c, c ∈ ids ↔ m.Hears topic c) {left : Notices σ} {id : Nat} {φ : Formula N}
    {p : Path (Stat N)} (hd : (m.dim ids left).Denotes sc id φ p)
    (hfailed : (m.dim ids left).Failed (id + 1)) (hnot : (m.dim ids left).isEntered (id + 1) = false) :
    (m.dim ids left).Stuck sc id φ p := by
  have hobserved := hclears.isObserved
  obtain ⟨hid, -⟩ := hclears.of_dim (.inr hfailed.1)
  have hunheard : ¬ m.Hears topic (id + 1) := mt (hids _).mpr hid
  have hdm : m.Denotes sc id φ p := hd.of_registry (m.registry_dim ids left).symm
  -- it had failed before, so it was stuck
  have hfailed' : n.Failed (id + 1) := by
    obtain ⟨key, hkey⟩ := hdm.under
    rw [Failed, isObserved_dim, value?_dim, if_neg hid, hclears.value_of_under hkey, hobserved,
      Bool.and_eq_true] at hfailed
    exact ⟨hfailed.1.1, hfailed.2⟩
  have hd : n.Denotes sc id φ p := hknown id φ p hdm hfailed'.1 hunheard
  rw [isEntered_dim, hclears.isEntered] at hnot
  have hstuck := hn.blocked id φ p hd hfailed' hnot
  have hkeep := hkeeps id ⟨φ, p, hdm⟩ hstuck.resolved hunheard
  obtain ⟨source, hcell, -⟩ := hm.cell_of_denotes ho.stats (hkeep.denotes _ _ hd)
  -- what it read would have told, so it heard nothing either
  have hquiet (key : DependencyKey) (hkey : n.Records id key) (c : Nat) (hc : n.Under key c)
      (hc' : n.isObserved (c + 1)) : c + 1 ∉ ids := by
    obtain ⟨s, hs⟩ := hkey
    have hsame := hkeep.same key ⟨s, hs⟩
    exact mt (hids _).mp (hm.not_hears_under hcell (hkeep.recorded ▸ hs)
      (hsame.topic.trans (hstuck.resolved _ hs)) (hsame.under_iff.mpr hc)
      ((hobserved _).trans hc') hunheard)
  refine hstuck.transfer ((recorded_dim ..).trans hkeep.recorded) hkeep.same
    (fun key hkey c hc v hv => ?_) fun key hkey c hc hf => ?_
  · rw [value?_dim, if_neg (hquiet key hkey c hc (hn.lit.shown _ (by simp [hv]))),
      hclears.value_of_under ((hkeep.same key hkey).under_iff.mpr hc), hv]
  · have hnot := hquiet key hkey c hc hf.1
    rw [Failed, isObserved_dim, value?_dim, if_neg hnot,
      hclears.value_of_under ((hkeep.same key hkey).under_iff.mpr hc), hobserved]
    exact ⟨by simp [hf.1, hnot], hf.2⟩

/-- A change that is announced keeps the invariant: whoever does not hear of it has nothing to do
with it. -/
theorem Core.announce (hn : n.Core sc) (hm : m.Wired sc) (ho : m.registry.Orderly sc)
    (hlisted : m.Lists) (hreleased : m.released = false) (hclears : n.Clears m)
    (hkeeps : ∀ id, (∃ φ p, m.Denotes sc id φ p) → n.Resolved id → ¬ m.Hears topic (id + 1) →
      n.KeepsAt sc m id)
    (hknown : ∀ id φ p, m.Denotes sc id φ p → n.isObserved (id + 1) → ¬ m.Hears topic (id + 1) →
      n.Denotes sc id φ p)
    (hdenotes : ∀ id φ p, n.isEntered (id + 1) → n.Denotes sc id φ p → m.Denotes sc id φ p)
    (hmain : sc.Follows → ∀ key e, m.registry.stage? ⟨key, .uncappedSubtotal, Path.main⟩ = some e →
      n.Flagged (e.formula + 1) → ¬ m.Hears topic (e.formula + 1) → Path.main ∈ m.registry.paths key)
    (htells : sc.Follows → ∀ key e, m.registry.stage? ⟨key, .uncappedSubtotal, Path.main⟩ = some e →
      n.value? (e.formula + 1) ≠ none ∨ n.isObserved (e.formula + 1) →
      n.isEntered (e.formula + 1) = false → ¬ m.Hears topic (e.formula + 1) →
      ∃ s, (.paths key, s) ∈ m.recorded e.formula ∧ m.registry.topic? (.paths key) = some s.topic)
    (hids : ∀ c, c ∈ ids ↔ m.Hears topic c)
    (hquiet : sc.Follows → ∀ c ∈ ids, n.isEntered c = false) (left : Notices σ) :
    (m.dim ids left).Core sc where
  wired := hm.dim ids left
  orderly := ho
  listed := hlisted.dim ids left
  lit := hn.lit.announce hclears hdenotes hmain htells hids hquiet left
  sound := hn.sound.announce hn.wired hn.orderly hm ho hclears.isObserved
    (fun _ _ _ hd => hd.under.elim fun _ h => hclears.value_of_under h)
    (fun id h hid => hkeeps id h hid.resolved)
    (fun id φ p hd hv => hknown id φ p hd (hn.lit.shown _ hv)) hids left
  blocked _ _ _ := hn.stuck_announced hm ho hclears hkeeps hknown hids
  unreleased := hreleased

end Announced

/-! ## Hosts -/

section Hosts

variable {n : Network N A σ}

/-- The network with other announcements that are held back, and another state of the host. -/
def withBuffer (n : Network N A σ) (buffer : Buffer) (state : σ) : Network N A σ :=
  { n with buffer := buffer, host := state }

omit [Number N] in
theorem Typed.withBuffer (hn : n.Typed) (buffer : Buffer) (state : σ) :
    (n.withBuffer buffer state).Typed := by
  refine hn.of_listeners (fun _ _ h => h) (fun topic _ h => .inl ?_) fun _ h => h
  have hlisteners : (n.withBuffer buffer state).listeners topic = n.listeners topic := by
    cases topic <;> rfl
  exact hlisteners ▸ h

/-- What is computed has nothing to do with hosts. -/
theorem Inv.withBuffer (hn : n.Inv sc) (buffer : Buffer) (state : σ) :
    (n.withBuffer buffer state).Inv sc := by
  have hwired : (n.withBuffer buffer state).Wired sc :=
    hn.wired.congr (fun _ => rfl) (fun _ => rfl) (fun _ => rfl) (fun _ => rfl)
      (fun t => by cases t <;> rfl) (fun t h => by cases t <;> exact h) (fun _ h => h) (fun _ h => h)
      rfl rfl
  have hr : (n.withBuffer buffer state).registry = n.registry := rfl
  have hsilent (c : Nat) : c ∈ ([] : List Nat) ↔ (n.withBuffer buffer state).Hears .listing c := by
    simp [hwired.typed.not_hears_listing]
  have hlisted : (n.withBuffer buffer state).Lists :=
    hn.listed.mono (.refl _) (fun _ _ _ he => he) fun _ _ _ _ => ⟨rfl, rfl⟩
  have hcore := hn.toCore.announce hwired hn.orderly hlisted hn.unreleased (.of_eq fun _ => rfl)
    (fun id _ _ _ => ⟨fun φ p hd => hd.of_registry hr, rfl, rfl, fun _ _ => .refl _ _⟩)
    (fun id φ p hd _ _ => hd.of_registry hr.symm) (fun id φ p _ hd => hd.of_registry hr)
    (fun hsc key e he hflagged _ => hn.lit.main hsc key e he hflagged)
    (fun hsc key e he hvalued hentered _ => hn.lit.tells hsc key e he hvalued hentered)
    hsilent (by simp) (n.withBuffer buffer state).notices
  rw [dim_nil_notices] at hcore
  exact ⟨hcore, hn.counted⟩

omit [Number N] in
/-- The list for hosts is announced to them, and to nobody else. -/
theorem emit_listing (hhost : host.Quiet tell) (hn : n.Typed) (signal : Signal N) :
    ∃ state, emit host .listing signal n = some (⟨⟩, n.withBuffer n.buffer state)
      ∧ n.Extends (n.withBuffer n.buffer state) ∧ n.Changes tell (n.withBuffer n.buffer state) := by
  obtain ⟨fuel, hfuel⟩ : ∃ fuel, n.cascadeBound = fuel + 1 :=
    Nat.exists_eq_add_one.mpr (by rw [cascadeBound]; omega)
  have hraise := raise_hosts hhost hn.listeners_listing fuel signal
  rw [← hfuel] at hraise
  have hstate (hwatch : n.Unwatched) : tellAll tell (n.callbacks .listing) n.host = n.host := by
    rw [hwatch.callbacks_eq_nil fun _ _ h => by cases h]
    rfl
  have hproceeds : n.Proceeds (n.withBuffer n.buffer (tellAll tell (n.callbacks .listing) n.host)) := by
    refine ⟨.of_buffer rfl, fun _ _ h => h, fun _ => rfl, fun t => ?_⟩
    cases t <;> rfl
  refine ⟨_, (get_bind_apply _ _).trans hraise, .of_view hproceeds (fun _ => rfl) rfl fun hwatch => ?_,
    .of_view hproceeds (fun _ => rfl) hstate rfl⟩
  rw [notices, notices, withBuffer, hstate hwatch]

end Hosts

/-! ## Paths -/

omit [Number N] in
/-- What is connected stays so if other things are on file for the same nodes, and the formulas that are
left alone have the same layers. -/
theorem Wired.of_sameNodes {n m : Network N A σ} (hn : n.Wired sc) (hs : n.SameNodes m)
    (hgraph : ∀ k, m.registry.graph? k = n.registry.graph? k)
    (hentry : ∀ k, m.registry.stage? k = n.registry.stage? k)
    (hform : ∀ k f p, m.registry.form? k f p = n.registry.form? k f p)
    (hitems : m.registry.items = n.registry.items)
    (hlayering : ∀ l s stage layers, n.registry.layering l = some (.stage s stage, layers) →
      ∃ layers', m.registry.layering l = some (.stage s stage, layers')
        ∧ (sc.Bare s → layers' = layers)) : m.Wired sc := by
  refine ⟨hs.typed hn.typed, hs.ledger hn.ledger, fun k e he => ?_, fun k f p e he => ?_,
    fun k g hg => ?_, fun c i hc => ?_, fun id kind hk => ?_, fun id => ?_,
    fun hsc key g hg id s hheld htopic => ?_⟩
  · exact (hn.stages k e (hentry k ▸ he)).mono (fun _ _ => hs.hasCell)
      (fun g hg => ⟨g, (hgraph _).trans hg, rfl⟩) hlayering
  · exact (hn.forms k f p e (hform k f p ▸ he)).mono (hs.kind _) (hs.topic _) (hs.listeners _)
      (followed_of_view (hs.view _)) (congrFun hitems _) fun _ _ _ _ _ _ => hs.hasCell
  · exact (hn.sets k g (hgraph k ▸ hg)).imp (hs.topic _) (hs.present _)
  · exact hn.next c i ((hs.kind c).symm.trans hc)
  · exact (hn.made id kind ((hs.kind id).symm.trans hk)).mono (fun id kind h => (hs.kind id).trans h)
      hlayering
  · refine (hn.traced id).of_view (hs.view id) fun d _ hfiled => hfiled.mono (fun ht => ?_)
      fun k g' hg' _ => ⟨k, g', hgraph k ▸ hg', rfl⟩
    rw [← ht]
    cases d.1 <;> simp only [Registry.topic?, hentry, hform, hgraph]
  · rw [held_of_view (hs.view id)] at hheld
    rw [hentry]
    exact hn.path_held hsc key g (hgraph key ▸ hg) id s hheld htopic

/-- As long as a stat lacks the main path, nobody hears of its paths but a cell that was never read. -/
theorem Core.hears_paths {n : Network N A σ} (hn : n.Core sc) (hsc : sc.Follows) {key : StatKey} {g : Subgraph N}
    (hg : n.registry.graph? key = some g) (hmain : Path.main ∉ n.registry.paths key) {c : Nat}
    (h : n.Hears (.paths g.paths) c) : ¬ n.Flagged c := by
  obtain ⟨⟨token, listener⟩, hlistener, hby⟩ := Hears.iff_hearsBy.mp h
  have hfits := hn.wired.typed.fits hlistener
  cases listener with
  | relay j =>
    obtain ⟨source, p, hj⟩ := hfits
    have hheld : ⟨.paths g.paths, token⟩ ∈ n.held j :=
      (hn.wired.ledger.balance j _).mpr ⟨_, hlistener, rfl⟩
    obtain ⟨e, he, rfl⟩ := hn.wired.path_held hsc key g hg j _ hheld rfl
    have hdark : ¬ n.Flagged (e.formula + 1) := mt (hn.lit.main hsc key e he) hmain
    obtain ⟨⟨token', listener'⟩, hlistener', hby'⟩ := Hears.iff_hearsBy.mp hby
    have hfits' := hn.wired.typed.fits hlistener'
    cases listener' with
    | invalidate c' =>
      obtain rfl := hn.wired.next c' _ hfits'.2
      obtain rfl | ⟨hobserved, -⟩ := hby'
      · exact hdark
      · exact absurd (.inr (.inl hobserved)) hdark
    | relay j' => simp [Fits, IsFormula, IsAggregate, hj] at hfits'
    | follow | host => exact hby'.elim
  | invalidate c' => exact hfits.elim
  | follow | host => exact hby.elim

omit [Number N] in
theorem addPath_eq (host : Host N A σ) (set : Nat) (path : Path (Stat N)) (n : Network N A σ) :
    addPath host set path n = (do
      modify fun n => n.modifyPaths set (Registry.counting path)
      if !path.isIn (n.pathsIn set) then emit host (.paths set) .changed : Run N A σ Unit) n := by
  rw [addPath, get_bind_apply]
  have hmodify (f : List (Path (Stat N) × Nat) → List (Path (Stat N) × Nat))
      (h : Registry.counting path (n.registry.counts set) = f (n.registry.counts set)) :
      n.modifyPaths set f = n.modifyPaths set (Registry.counting path) := by
    have : n.pathSets.modify set (fun s => { s with entries := f s.entries })
        = n.pathSets.modify set (fun s => { s with entries := Registry.counting path s.entries }) := by
      refine Array.ext_getElem? fun i => ?_
      rw [Array.getElem?_modify, Array.getElem?_modify]
      split
      · next hi =>
        subst hi
        cases hset : n.pathSets[set]? with
        | none => rfl
        | some s =>
          have : n.registry.counts set = s.entries := by simp [registry, hset]
          simp [← this, h]
      · rfl
    exact congrArg (fun sets => { n with pathSets := sets }) this
  rw [modify_bind_apply]
  by_cases hin : path.isIn (n.pathsIn set) = true
  · rw [if_pos hin, hin]
    change some (PUnit.unit, n.modifyPaths set (List.map (Registry.bump path))) = _
    rw [← hmodify (List.map (Registry.bump path))]
    · rfl
    · rw [Registry.counting, ← pathsIn_eq, if_pos hin]
  · rw [if_neg hin, modify_bind_apply, ← hmodify (· ++ [(path, 1)])]
    · rw [Bool.not_eq_true] at hin
      rw [hin]
      rfl
    · rw [Registry.counting, ← pathsIn_eq, if_neg hin]

section AddPath

variable {n : Network N A σ} {key : StatKey} {g : Subgraph N} {path : Path (Stat N)}
  {entries : List (Path (Stat N) × Nat)}

/-- The nodes stay as they are when paths are counted, and everything is found as before. -/
theorem Core.wired_counted (hn : n.Core sc) {m : Network N A σ} (hs : n.SameNodes m)
    (hm : m.registry = n.registry.withCounts g.paths entries) : m.Wired sc := by
  refine hn.wired.of_sameNodes hs (fun k => ?_) (fun k => ?_) (fun k f p => ?_) ?_
    fun l s stage layers hl => ⟨layers, ?_, fun _ => rfl⟩
  all_goals rw [hm]
  · rfl
  · rfl
  · rfl
  · rfl
  · exact hl

omit [Number N] in
/-- A network with other counts grows, if nobody who has a value hears of it. -/
theorem grows_counted (ho : (n.registry.withCounts g.paths entries).Orderly sc)
    (hextends : n.registry.Extends (n.registry.withCounts g.paths entries))
    {m : Network N A σ} (hm : m.registry = n.registry.withCounts g.paths entries)
    (hwired : m.Wired sc) (hview : ∀ id, m.view? id = n.view? id)
    (hlisteners : ∀ t, m.listeners t = n.listeners t) (htopic : ∀ t, n.hasTopic t → m.hasTopic t)
    (hpresent : ∀ set, n.isPresent (.paths set) → m.isPresent (.paths set))
    (hthere : ∀ id, n.isPresent (.changed id) → m.isPresent (.changed id))
    (hreleased : m.released = n.released) (hwaits : n.Waits m) (hnotices : m.notices = n.notices) :
    n.Grows sc m where
  typed := hwired.typed
  ledger := hwired.ledger
  orderly := hm ▸ ho
  released := hreleased
  waits := hwaits
  view id _ := hview id
  new id v hid hv := by
    rw [hview, n.view?_eq_none id hid] at hv
    cases hv
  made id kind _ hk := hwired.made id kind hk
  topic := htopic
  present := hpresent
  there := hthere
  callbacks _ := congrArg (List.filterMap _) (hlisteners _)
  notices := hnotices
  followers _ _ _ _ _ := hlisteners _
  registry := hm ▸ hextends
  graph k g' hg' := by
    rw [hm] at hg'
    exact .inl ⟨g', hg', rfl⟩
  entry k e he := by
    rw [hm] at he
    exact .inl he
  form k f p e he := by
    rw [hm] at he
    exact .inl he
  listed hn := by
    refine hn.mono (by rw [hm]; exact .refl _) (fun x _ e he => by rw [hm]; exact he)
      fun _ _ _ _ => ⟨kind?_of_view (hview _), held_of_view (hview _)⟩

omit [Number N] in
/-- Counts of paths have nothing to do with the list of the hosts. -/
theorem SameNodes.lists_counted {m : Network N A σ} (hs : n.SameNodes m)
    (hm : m.registry = n.registry.withCounts g.paths entries) (hn : n.Lists) : m.Lists :=
  hn.mono (by rw [hm]; exact .refl _) (fun _ _ _ he => by rw [hm]; exact he)
    fun _ _ _ _ => ⟨hs.kind _, held_of_view (hs.view _)⟩

omit [Number N] in
theorem denotes_withCounts_iff {m : Network N A σ}
    (hm : m.registry = n.registry.withCounts g.paths entries) {id : Nat} {φ : Formula N} {p : Path (Stat N)} :
    m.Denotes sc id φ p ↔ n.Denotes sc id φ p := by
  constructor
  · intro hd
    cases hd with
    | stage he hs hk => exact .stage (by rw [hm] at he; exact he) hs hk
    | member hsc he hi =>
      exact .member hsc (by rw [hm] at he; exact he) (by rw [hm] at hi; exact hi)
  · intro hd
    cases hd with
    | stage he hs hk => exact .stage (by rw [hm]; exact he) hs hk
    | member hsc he hi => exact .member hsc (by rw [hm]; exact he) (by rw [hm]; exact hi)

/-- Whoever is not told of the paths of a stat has nothing to do with them. -/
theorem Core.keepsAt_counted (hn : n.Core sc) {m : Network N A σ} (hs : n.SameNodes m)
    (hm : m.registry = n.registry.withCounts g.paths entries) (hwired : m.Wired sc)
    (hg : n.registry.graph? key = some g) {id : Nat} (hdenotes : ∃ φ p, n.Denotes sc id φ p)
    (hid : n.Resolved id) (hhears : ¬ m.Hears (.paths g.paths) (id + 1)) : n.KeepsAt sc m id := by
  have hflags : m.flags? (id + 1) = n.flags? (id + 1) := flags?_of_view (hs.view _)
  refine ⟨fun φ p hd => (denotes_withCounts_iff hm).mpr hd, by rw [value?, hflags, value?],
    recorded_of_view (hs.view id), fun k hk => ?_⟩
  rw [hm]
  cases k with
  | node k => exact rfl
  | form => exact ⟨rfl, fun _ _ => rfl⟩
  | paths k =>
    refine ⟨rfl, fun _ => ?_, fun _ he => he⟩
    have hne : k ≠ key := by
      rintro rfl
      obtain ⟨s, hs'⟩ := hk
      obtain ⟨φ, p, hd⟩ := hdenotes
      have htopic : some (Topic.paths g.paths) = some s.topic := by
        rw [← hid _ hs', Registry.topic?, hg, Option.map_some]
      obtain ⟨source, hcell, -⟩ := hn.wired.cell_of_denotes hn.orderly.stats hd
      have hheld : s ∈ m.held id := held_of_view (hs.view id) ▸ mem_held_of_recorded hs'
      exact hhears (Option.some.inj htopic ▸ (hs.hasCell hcell).hears hwired hheld)
    exact Registry.paths_withCounts_of_ne hn.orderly hg hne _

omit [Number N] in
/-- Counts of paths have nothing to do with cells. -/
theorem spares_counted (K : DependencyKey → Prop) {m : Network N A σ} (hs : n.SameNodes m)
    (hm : m.registry = n.registry.withCounts g.paths entries) (hinstalled : m.installed = n.installed) :
    n.Spares K m := by
  refine .of_sameNodes hs (fun k => ?_) (fun k f p => ?_) ?_ hinstalled <;> rw [hm] <;> rfl

/-- Other paths of a stat that are announced keep the invariant, if the main path is among them where it
was needed. -/
theorem Core.announce_counted (hn : n.Core sc) (hg : n.registry.graph? key = some g)
    {m : Network N A σ} (hs : n.SameNodes m)
    (hm : m.registry = n.registry.withCounts g.paths entries)
    (ho : (n.registry.withCounts g.paths entries).Orderly sc) {ids : List Nat}
    (hids : ∀ c, c ∈ ids ↔ m.Hears (.paths g.paths) c)
    (hmain : sc.Follows → ∀ e, n.registry.stage? ⟨key, .uncappedSubtotal, Path.main⟩ = some e →
      n.Flagged (e.formula + 1) → ¬ m.Hears (.paths g.paths) (e.formula + 1) →
      Path.main ∈ (n.registry.withCounts g.paths entries).paths key)
    (hquiet : sc.Follows → ∀ c ∈ ids, n.isEntered c = false) (left : Notices σ) :
    (m.dim ids left).Core sc := by
  have hwired := hn.wired_counted hs hm
  refine hn.announce hwired (hm ▸ ho) (hs.lists_counted hm hn.listed)
    (hs.released.trans hn.unreleased) (.of_eq fun c => flags?_of_view (hs.view c))
    (fun id hd hid hhears => ?_) (fun id φ p hd _ _ => (denotes_withCounts_iff hm).mp hd)
    (fun id φ p _ hd => (denotes_withCounts_iff hm).mpr hd) (fun hsc k e he hflagged hhears => ?_)
    (fun hsc k e he hvalued hentered _ => ?_) hids hquiet left
  · obtain ⟨φ, p, hd⟩ := hd
    exact hn.keepsAt_counted hs hm hwired hg ⟨φ, p, (denotes_withCounts_iff hm).mp hd⟩ hid hhears
  · rw [hm] at he ⊢
    by_cases hk : k = key
    · subst hk
      exact hmain hsc e he hflagged hhears
    · rw [Registry.paths_withCounts_of_ne hn.orderly hg hk]
      exact hn.lit.main hsc k e he hflagged
  · rw [hm] at he
    rw [recorded_of_view (hs.view _), hm]
    exact hn.lit.tells hsc k e he hvalued hentered

omit [Number N] in
/-- Nothing is lost in an announcement if nobody who heard it had anything to lose. -/
theorem Defers.extends {ids : List Nat} {left : Notices σ} (hd : n.Defers tell ids left)
    (hdark : ∀ c ∈ ids, ¬ n.Flagged c) : n.Extends (n.dim ids left) := by
  have hchanges : n.Changes tell (n.dim ids left) := .dim hd
  refine .of_view hchanges.toProceeds (view?_dim_of_not_flagged hdark left) (registry_dim ..)
    fun hwatch => ?_
  obtain ⟨ds, -, hmem, htold⟩ := hd
  refine htold.silent hwatch (List.eq_nil_iff_forall_not_mem.mpr fun d hd => ?_)
  obtain ⟨hd, hobserved⟩ := (hmem d).mp hd
  exact hdark d hd (.inr (.inl hobserved))

/-- Counting a path keeps the invariant, and spares who does not depend on the paths of the stat. Where
stats are followed, nothing is lost if the path is there, or is the main path. -/
theorem leads_addPath (hhost : host.Quiet tell) (hn : n.Core sc) (hg : n.registry.graph? key = some g)
    (hbut : n.registry.CountedBut key path) (hadmits : sc.HasPath path)
    (hquiet : sc.Follows → path = Path.main ∨ path ∈ n.registry.paths key ∨ ∀ c, n.isEntered c = false) :
    Leads True (addPath host g.paths path) n fun _ n' => n'.Inv sc ∧ n.Changes tell n'
      ∧ n'.registry = n.registry.countPath g path
      ∧ (∀ K, n.Confines K → K (.paths key) → n.Spares K n')
      ∧ (sc.Follows → path = Path.main ∨ path ∈ n.registry.paths key → n.Extends n') := by
  obtain ⟨htopic, -⟩ := hn.wired.sets key g hg
  have hs := n.sameNodes_modifyPaths g.paths (Registry.counting path)
  have hm := n.registry_modifyPaths g.paths (Registry.counting path) htopic
  have hwired := hn.wired_counted hs hm
  have hcounted : (n.registry.countPath g path).Counted :=
    hbut.withCounts hn.orderly hg (Registry.count_counting path _)
  have ho := hn.orderly.countPath hg hadmits
  have hrun := addPath_eq host g.paths path n
  rw [modify_bind_apply, pathsIn_eq, ← Registry.paths_eq hg] at hrun
  have hspares (K : DependencyKey → Prop) := spares_counted K hs hm rfl
  have hgrows (hpath : path = Path.main ∨ path.isIn (n.registry.paths key)) :=
    grows_counted ho (.countPath hn.orderly hg hpath) hm hwired hs.view hs.listeners hs.topic
      hs.present hs.there hs.released (.of_buffer hs.buffer) hs.notices
  -- a path that was there is counted, and nobody is told
  by_cases hin : path.isIn (n.registry.paths key) = true
  · rw [hin] at hrun
    have hgrows := hgrows (.inr hin)
    exact .of_eq hrun ⟨⟨hgrows.core hn, hm ▸ hcounted⟩, hgrows.changes, hm, fun K _ _ => hspares K,
      fun _ _ => hgrows.extension⟩
  · have hnot : path ∉ n.registry.paths key := mt isIn_of_mem hin
    rw [Bool.not_eq_true] at hin
    rw [hin] at hrun
    have hemit := emit_changed hhost hwired.typed (inward_paths _ g.paths)
    refine ⟨fun _ => hrun ▸ hemit.total trivial, fun {a n'} e => ?_⟩
    obtain ⟨ids, left, rfl, hdefers, hids⟩ := hemit.partly (hrun ▸ e)
    -- nobody who hears of the main path has anything to lose
    have hdark (hsc : sc.Follows) (hmain : path = Path.main) (c : Nat) (hc : c ∈ ids) :
        ¬ n.Flagged c := by
      refine hn.hears_paths hsc hg (hmain ▸ hnot) (((hids c).mp hc).mono hs.listeners fun i hi => ?_)
      rwa [isObserved, flags?_of_view (hs.view i)] at hi
    have hcore := hn.announce_counted hg hs hm ho hids
      (fun hsc e he hflagged _ => hn.orderly.main_countPath hg (hn.lit.main hsc key e he hflagged))
      (fun hsc c hc => ?_) left
    · refine ⟨⟨hcore, hm ▸ hcounted⟩, hs.changes.trans (.dim hdefers), hm, fun K hK hkey => ?_,
        fun hsc hpath => ?_⟩
      · have ho' : (n.modifyPaths g.paths (Registry.counting path)).registry.Orderly sc := by
          rw [hm]
          exact ho
        have hg' : (n.modifyPaths g.paths (Registry.counting path)).registry.graph? key = some g := by
          rw [hm]
          exact hg
        exact (hspares K).trans (hwired.spares_dim ((hspares K).confines hK)
          (isAbout_paths ho' hg' hkey) hids left)
      · have hmain := hpath.resolve_right hnot
        refine (hgrows (.inl hmain)).extension.trans (hdefers.extends fun c hc => ?_)
        rw [Flagged, value?, isObserved, isEntered, flags?_of_view (hs.view c)]
        exact hdark hsc hmain c hc
    · obtain hmain | hmem | hidle := hquiet hsc
      · exact Bool.eq_false_iff.mpr fun hc' => hdark hsc hmain c hc (.inr (.inr hc'))
      · exact absurd hmem hnot
      · exact hidle c

/-- Other paths of a stat that are announced keep the invariant. -/
theorem Core.announce_paths (hn : n.Core sc) (hidle : ∀ c, n.isEntered c = false)
    (hg : n.registry.graph? key = some g) {m : Network N A σ} (hs : n.SameNodes m)
    (hm : m.registry = n.registry.withCounts g.paths entries)
    (ho : (n.registry.withCounts g.paths entries).Orderly sc) {ids : List Nat}
    (hids : ∀ c, c ∈ ids ↔ m.Hears (.paths g.paths) c) (left : Notices σ) :
    (m.dim ids left).Core sc := by
  refine hn.announce_counted hg hs hm ho hids (fun hsc e he hflagged hhears => absurd ?_ hhears)
    (fun _ c _ => hidle c) left
  -- whoever sums over the paths was told of them
  have hvalued : n.value? (e.formula + 1) ≠ none ∨ n.isObserved (e.formula + 1) := by
    obtain h | h | h := hflagged
    · exact .inl h
    · exact .inr h
    · rw [hidle] at h
      cases h
  obtain ⟨s, hs', htopic⟩ := hn.lit.tells hsc key e he hvalued (hidle _)
  rw [Registry.topic?, hg, Option.map_some, Option.some.injEq] at htopic
  obtain ⟨-, -, l, g', layers, hcell, -⟩ := hn.wired.stages _ _ he
  have hheld : s ∈ m.held e.formula := held_of_view (hs.view _) ▸ mem_held_of_recorded hs'
  exact htopic ▸ (hs.hasCell hcell).hears (hn.wired_counted hs hm) hheld

end AddPath

end StatEngine.Network

/-! ## Layers -/

namespace StatEngine

open Network

namespace Registry

variable {N : Type} {r r' r'' : Registry N}

/-- Registries that differ in the behaviors that are applied to formulas, and in nothing else. -/
structure Relayered (r r' : Registry N) : Prop where
  eq : ∃ layering installed registrations, r' = { r with
    layering := layering, installed := installed, registrations := registrations }
  layering : ∀ l φ layers, r.layering l = some (φ, layers) →
    ∃ layers', r'.layering l = some (φ, layers')

namespace Relayered

theorem refl (r : Registry N) : r.Relayered r :=
  ⟨⟨_, _, _, rfl⟩, fun _ _ layers h => ⟨layers, h⟩⟩

theorem trans (h : r.Relayered r') (h' : r'.Relayered r'') : r.Relayered r'' := by
  obtain ⟨⟨_, _, _, rfl⟩, hl⟩ := h
  obtain ⟨⟨_, _, _, rfl⟩, hl'⟩ := h'
  refine ⟨⟨_, _, _, rfl⟩, fun l φ layers hlayers => ?_⟩
  obtain ⟨layers', hlayers'⟩ := hl l φ layers hlayers
  exact hl' l φ layers' hlayers'

theorem graph? (h : r.Relayered r') (k : StatKey) : r'.graph? k = r.graph? k := by
  obtain ⟨⟨_, _, _, rfl⟩, -⟩ := h
  rfl

theorem stage? (h : r.Relayered r') (k : NodeKey) : r'.stage? k = r.stage? k := by
  obtain ⟨⟨_, _, _, rfl⟩, -⟩ := h
  rfl

theorem form? (h : r.Relayered r') (k : StatKey) (f : Form) (p : PathKey) :
    r'.form? k f p = r.form? k f p := by
  obtain ⟨⟨_, _, _, rfl⟩, -⟩ := h
  rfl

theorem items (h : r.Relayered r') : r'.items = r.items := by
  obtain ⟨⟨_, _, _, rfl⟩, -⟩ := h
  rfl

theorem paths (h : r.Relayered r') (k : StatKey) : r'.paths k = r.paths k := by
  obtain ⟨⟨_, _, _, rfl⟩, -⟩ := h
  rfl

theorem counted (h : r.Relayered r') (hr : r.Counted) : r'.Counted := by
  obtain ⟨⟨_, _, _, rfl⟩, -⟩ := h
  exact hr

/-- Other layers leave the registry consistent, as long as the behaviors that are installed spare the
stats that are to be left alone. -/
theorem orderly (h : r.Relayered r') {sc : Regime N} (hr : r.Orderly sc)
    (hplain : ∀ b ∈ r'.installed, sc.Spares b.1)
    (hregistered : ∀ k ∈ r'.registrations, k ∈ r.registrations
      ∨ (∃ path, sc.HasPath path ∧ path.key = k.key.path)
      ∧ ∃ stat layers, r.layering k.formula = some (.stage stat k.key.stage, layers)
        ∧ stat.key = k.key.stat) : r'.Orderly sc := by
  have hregistered : ∀ k ∈ r'.registrations, (∃ path, sc.HasPath path ∧ path.key = k.key.path)
      ∧ ∃ stat layers, r'.layering k.formula = some (.stage stat k.key.stage, layers)
        ∧ stat.key = k.key.stat := by
    intro k hk
    obtain ⟨hpath, stat, layers, hl, hstat⟩ := (hregistered k hk).elim (hr.registered k) id
    obtain ⟨layers', hl'⟩ := h.layering _ _ _ hl
    exact ⟨hpath, stat, layers', hl', hstat⟩
  obtain ⟨⟨_, _, _, rfl⟩, -⟩ := h
  exact { hr with plain := hplain, registered := hregistered }

end Relayered

end Registry

end StatEngine

namespace StatEngine.Network

variable {N A σ : Type} {host : Host N A σ} {tell : A → σ → σ} {sc : Regime N} {n : Network N A σ}

/-- No node is being computed. -/
def Idle (n : Network N A σ) : Prop := ∀ c, n.isEntered c = false

theorem Proceeds.idle {n' : Network N A σ} (h : n.Proceeds n') (hn : n.Idle) : n'.Idle :=
  fun c => (h.entered c).trans (hn c)

/-- The network with other behaviors that are installed and registered for. -/
def withBehaviors (n : Network N A σ) (installed : List (Behavior N × Nat))
    (registrations : List Registration) : Network N A σ :=
  { n with installed := installed, registrations := registrations }

theorem sameNodes_withBehaviors (installed : List (Behavior N × Nat))
    (registrations : List Registration) : n.SameNodes (n.withBehaviors installed registrations) :=
  ⟨rfl, fun t => by cases t <;> rfl, fun t h => by cases t <;> exact h, fun _ h => h, rfl, rfl,
    rfl, rfl⟩

theorem relayered_withBehaviors (installed : List (Behavior N × Nat))
    (registrations : List Registration) :
    n.registry.Relayered (n.withBehaviors installed registrations).registry :=
  ⟨⟨_, _, _, rfl⟩, fun _ _ layers h => ⟨layers, h⟩⟩

/-- The network with other layers on a formula. -/
def withLayers (n : Network N A σ) (l : Nat) (layers : List (Transformation N)) : Network N A σ :=
  { n with layered := n.layered.modify l fun x => { x with layers := layers } }

theorem sameNodes_withLayers (l : Nat) (layers : List (Transformation N)) :
    n.SameNodes (n.withLayers l layers) := by
  refine ⟨rfl, fun t => ?_, fun t ht => ?_, fun s hs => hs, rfl, rfl, rfl, rfl⟩
  · cases t with
    | layers i =>
      simp only [listeners, withLayers, Array.getElem?_modify]
      split
      · rw [Option.map_map]
        rfl
      · rfl
    | _ => rfl
  · cases t with
    | layers i =>
      change i < (n.layered.modify l _).size
      rwa [Array.size_modify]
    | _ => exact ht

theorem layering_withLayers (l : Nat) (layers : List (Transformation N)) (i : Nat) :
    (n.withLayers l layers).registry.layering i
      = if i = l then (n.registry.layering i).map fun x => (x.1, layers)
        else n.registry.layering i := by
  simp only [registry, withLayers, Array.getElem?_modify]
  by_cases h : i = l
  · simp [h, Function.comp_def]
  · simp [h, Ne.symm h]

/-- Changing the layers of a formula is putting other layers on it. -/
theorem modify_layers_eq (n : Network N A σ) (l : Nat)
    (f : List (Transformation N) → List (Transformation N)) :
    { n with layered := n.layered.modify l fun x => { x with layers := f x.layers } }
      = n.withLayers l (f (((n.registry.layering l).map (·.2)).getD [])) := by
  refine congrArg (fun layered => { n with layered := layered }) (Array.ext_getElem? fun i => ?_)
  rw [Array.getElem?_modify, Array.getElem?_modify]
  split
  · next hi =>
    subst hi
    cases hx : n.layered[l]? with
    | none => rfl
    | some x => simp [registry, hx]
  · rfl

theorem relayered_withLayers (l : Nat) (layers : List (Transformation N)) :
    n.registry.Relayered (n.withLayers l layers).registry := by
  refine ⟨⟨(n.withLayers l layers).registry.layering, _, _, rfl⟩, fun i φ given h => ?_⟩
  rw [layering_withLayers, h]
  split
  · exact ⟨layers, rfl⟩
  · exact ⟨given, rfl⟩

section Layers

variable [Number N]

omit [Number N] in
theorem denotes_iff_of_relayered {m : Network N A σ} (h : n.registry.Relayered m.registry) {id : Nat}
    {φ : Formula N} {p : Path (Stat N)} : m.Denotes sc id φ p ↔ n.Denotes sc id φ p := by
  constructor
  · intro hd
    cases hd with
    | stage he hs hk => exact .stage ((h.stage? _).symm.trans he) hs hk
    | member hsc he hi =>
      exact .member hsc ((h.form? _ _ _).symm.trans he) (by rw [← h.items]; exact hi)
  · intro hd
    cases hd with
    | stage he hs hk => exact .stage ((h.stage? _).trans he) hs hk
    | member hsc he hi => exact .member hsc ((h.form? _ _ _).trans he) (by rw [h.items]; exact hi)

omit [Number N] in
theorem KeepsAt.of_relayered {m : Network N A σ} (hs : n.SameNodes m)
    (h : n.registry.Relayered m.registry) (id : Nat) : n.KeepsAt sc m id where
  denotes _ _ hd := (denotes_iff_of_relayered h).mpr hd
  value := by rw [value?, flags?_of_view (hs.view _), value?]
  recorded := recorded_of_view (hs.view id)
  same key _ := by
    obtain ⟨⟨_, _, _, hm⟩, -⟩ := h
    rw [hm]
    cases key with
    | node k => exact rfl
    | form => exact ⟨rfl, fun _ _ => rfl⟩
    | paths k => exact ⟨rfl, fun _ => rfl, fun _ he => he⟩

/-- Other layers that are announced to the formula they are on keep the invariant, if they are not on a
formula that is to be left alone. -/
theorem Core.relayer (hn : n.Core sc) (hidle : sc.Follows → n.Idle) {m : Network N A σ} (hs : n.SameNodes m)
    (h : n.registry.Relayered m.registry) (ho : m.registry.Orderly sc)
    (hlayers : ∀ l s stage layers, n.registry.layering l = some (.stage s stage, layers) →
      sc.Bare s → m.registry.layering l = some (.stage s stage, layers)) {topic : Topic}
    {ids : List Nat} (hids : ∀ c, c ∈ ids ↔ m.Hears topic c) (left : Notices σ) :
    (m.dim ids left).Core sc := by
  have hm : m.Wired sc := by
    refine hn.wired.of_sameNodes hs h.graph? h.stage? h.form? h.items fun l s stage layers hl => ?_
    obtain ⟨layers', hl'⟩ := h.layering _ _ _ hl
    refine ⟨layers', hl', fun hsc => ?_⟩
    rw [hlayers l s stage layers hl hsc] at hl'
    cases hl'
    rfl
  have hlisted : m.Lists := by
    have hstage := h.stage?
    obtain ⟨⟨_, _, _, heq⟩, -⟩ := h
    exact hn.listed.mono (by rw [heq]) (fun _ _ _ he => (hstage _).trans he)
      fun _ _ _ _ => ⟨hs.kind _, held_of_view (hs.view _)⟩
  refine hn.announce hm ho hlisted (hs.released.trans hn.unreleased)
    (.of_eq fun c => flags?_of_view (hs.view c)) (fun id _ _ _ => .of_relayered hs h id)
    (fun _ _ _ hd _ _ => (denotes_iff_of_relayered h).mp hd)
    (fun _ _ _ _ hd => (denotes_iff_of_relayered h).mpr hd) (fun hsc key e he hflagged _ => ?_)
    (fun hsc key e he hvalued hentered _ => ?_) hids (fun hsc c _ => hidle hsc c) left
  · rw [h.stage?] at he
    rw [h.paths]
    exact hn.lit.main hsc key e he hflagged
  · rw [h.stage?] at he
    rw [recorded_of_view (hs.view _)]
    obtain ⟨⟨_, _, _, heq⟩, -⟩ := h
    rw [heq]
    exact hn.lit.tells hsc key e he hvalued hentered

/-- The formulas that are to be left alone are those of the stats that are. -/
def IsBare (sc : Regime N) (n : Network N A σ) (l : Nat) : Prop :=
  ∃ s stage layers, n.registry.layering l = some (.stage s stage, layers) ∧ sc.Bare s

/-- Other layers on a formula of another stat keep the invariant. -/
theorem leads_relayer (hhost : host.Quiet tell) (hn : n.Core sc) (hidle : sc.Follows → n.Idle) {l : Nat}
    (hl : ¬ n.IsBare sc l) {f : List (Transformation N) → List (Transformation N)} :
    Leads True (do
      modify fun n => { n with
        layered := n.layered.modify l fun x => { x with layers := f x.layers } }
      emit host (.layers l) .changed) n fun _ n' => n'.Core sc ∧ n.Changes tell n'
      ∧ n.registry.Relayered n'.registry ∧ ∀ t, n'.listeners t = n.listeners t := by
  refine .modify_bind ?_
  rw [modify_layers_eq]
  let layers := f (((n.registry.layering l).map (·.2)).getD [])
  have hs := n.sameNodes_withLayers l layers
  have hr := n.relayered_withLayers l layers
  refine (emit_changed hhost (hs.typed hn.wired.typed) (inward_layers _ l)).weaken ?_
  rintro - _ ⟨ids, left, rfl, hdefers, hids⟩
  refine ⟨hn.relayer hidle hs hr (hr.orderly hn.orderly hn.orderly.plain fun k hk => .inl hk)
    (fun i s stage given hi hsc => ?_) hids left, hs.changes.trans (.dim hdefers), hr,
    fun t => (listeners_dim ..).trans (hs.listeners t)⟩
  rw [layering_withLayers, if_neg, hi]
  rintro rfl
  exact hl ⟨s, stage, given, hi, hsc⟩

/-- A layer that is put on a formula of another stat keeps the invariant. -/
theorem leads_addLayer (hhost : host.Quiet tell) (hn : n.Core sc) (hidle : sc.Follows → n.Idle) {l : Nat}
    (hl : ¬ n.IsBare sc l) (t : Transformation N) :
    Leads True (addLayer host l t) n fun _ n' => n'.Core sc ∧ n.Changes tell n'
      ∧ n.registry.Relayered n'.registry ∧ ∀ t, n'.listeners t = n.listeners t :=
  leads_relayer hhost hn hidle hl (f := (· ++ [t]))

/-- A layer that is taken off a formula of another stat keeps the invariant. -/
theorem leads_removeLayer (hhost : host.Quiet tell) (hn : n.Core sc) (hidle : sc.Follows → n.Idle) {l : Nat}
    (hl : ¬ n.IsBare sc l) (t : Transformation N) :
    Leads True (removeLayer host l t) n fun _ n' => n'.Core sc ∧ n.Changes tell n'
      ∧ n.registry.Relayered n'.registry ∧ ∀ t, n'.listeners t = n.listeners t := by
  refine .get_bind ?_
  split
  · exact .of_pure ⟨hn, .refl n, .refl _, fun _ => rfl⟩
  · split
    · exact leads_relayer hhost hn hidle hl (f := (·.eraseP fun x => x.identity == t.identity))
    · exact .of_pure ⟨hn, .refl n, .refl _, fun _ => rfl⟩

omit [Number N] in
theorem IsBare.of_relayered {m : Network N A σ} (h : n.registry.Relayered m.registry) {l : Nat}
    {stat : Stat N} {stage : Stage} {layers : List (Transformation N)}
    (hl : n.registry.layering l = some (.stage stat stage, layers)) (hm : m.IsBare sc l) :
    sc.Bare stat := by
  obtain ⟨s, stage', given, hs, hsc⟩ := hm
  obtain ⟨layers', hl'⟩ := h.layering _ _ _ hl
  rw [hs] at hl'
  cases hl'
  exact hsc

/-- Layers that come and go on formulas of other stats keep the invariant. -/
theorem leads_relayers {m : Network N A σ} (hm : m.Core sc) (hidle : sc.Follows → m.Idle) {α : Type}
    {step : α → Run N A σ PUnit} {l : α → Nat}
    (hstep : ∀ (a : α) {n : Network N A σ}, n.Core sc → (sc.Follows → n.Idle) → ¬ n.IsBare sc (l a) →
      Leads True (step a) n fun _ n' => n'.Core sc ∧ n.Changes tell n'
        ∧ n.registry.Relayered n'.registry ∧ ∀ t, n'.listeners t = n.listeners t)
    {given : List α} (hl : ∀ a ∈ given, ∃ stat stage layers,
      m.registry.layering (l a) = some (.stage stat stage, layers) ∧ ¬ sc.Bare stat) :
    Leads True (given.forM step) m fun _ n' => n'.Core sc ∧ m.Changes tell n'
      ∧ m.registry.Relayered n'.registry ∧ ∀ t, n'.listeners t = m.listeners t := by
  refine Leads.forM (I := fun n' => n'.Core sc ∧ m.Changes tell n' ∧ m.registry.Relayered n'.registry
    ∧ ∀ t, n'.listeners t = m.listeners t)
    (fun a ha m' ⟨hcore, hproceeds, hr, hlisteners⟩ => ?_) ⟨hm, .refl m, .refl _, fun _ => rfl⟩
  obtain ⟨stat, stage, layers, hstat, hsc⟩ := hl a ha
  refine (hstep a hcore (fun hsc => hproceeds.idle (hidle hsc)) fun hin => hsc (hin.of_relayered hr hstat)).weaken ?_
  exact fun _ n' ⟨hcore', hproceeds', hr', hlisteners'⟩ => ⟨hcore', hproceeds.trans hproceeds',
    hr.trans hr', fun t => (hlisteners' t).trans (hlisteners t)⟩

/-- The formulas that a behavior affects are not among those it spares. -/
theorem Core.of_affectedFormulas (hn : n.Core sc) {b : Behavior N}
    (hb : sc.Spares b)
    {l : Nat} (hl : l ∈ n.affectedFormulas b) : ∃ stat stage layers,
      n.registry.layering l = some (.stage stat stage, layers) ∧ ¬ sc.Bare stat := by
  obtain ⟨stat, hstat, hl⟩ := List.mem_flatMap.mp hl
  obtain ⟨stage, hstage, hl⟩ := List.mem_flatMap.mp hl
  obtain ⟨k, hk, rfl⟩ := List.mem_map.mp hl
  obtain ⟨hregistered, hadmits⟩ := List.mem_filter.mp hk
  simp only [Bool.and_eq_true, beq_iff_eq] at hadmits
  obtain ⟨⟨⟨rfl, rfl⟩, hrule⟩, -⟩ := hadmits
  obtain ⟨⟨path, hpath, heq⟩, stat, layers, hlayers, hkey⟩ := hn.orderly.registered k hregistered
  refine ⟨stat, _, layers, hlayers, fun hsc => ?_⟩
  have := hb stat hsc k.key.stage path hpath
  simp [Behavior.affects, hkey, hstat, hstage, heq, hrule] at this

/-- Other behaviors that are on file alone are of no account. -/
theorem Core.grows_withBehaviors (hn : n.Core sc) {installed : List (Behavior N × Nat)}
    {registrations : List Registration}
    (ho : (n.withBehaviors installed registrations).registry.Orderly sc) :
    n.Grows sc (n.withBehaviors installed registrations) :=
  .of_files (.refl hn.wired.typed hn.wired.ledger) (sameNodes_withBehaviors ..) ho
    (sameNodes_withBehaviors ..).made
    ⟨fun _ g h => ⟨g, h, rfl, rfl⟩, fun _ _ h => h, fun _ _ _ _ h => ⟨h, rfl⟩, fun _ _ h => h,
      fun _ _ h => h, fun _ _ => rfl, rfl⟩
    (fun _ g h => .inl ⟨g, h, rfl⟩) (fun _ _ h => .inl h) (fun _ _ _ _ h => .inl h)
    (.inl rfl) fun k f p e he => (hn.wired.forms k f p e he).topic

/-- Other counts of behaviors are of no account, nor are behaviors that spare what is to be
left alone. -/
theorem Core.grows_installed (hn : n.Core sc) {installed : List (Behavior N × Nat)}
    (hinstalled : ∀ x ∈ installed, (∃ y ∈ n.installed, y.1 = x.1) ∨ sc.Spares x.1) :
    n.Grows sc (n.withBehaviors installed n.registrations) := by
  refine hn.grows_withBehaviors ((n.relayered_withBehaviors _ _).orderly hn.orderly
    (fun x hx => ?_) fun k hk => .inl hk)
  obtain ⟨y, hy, heq⟩ | hb := hinstalled x hx
  · rw [← heq]
    exact hn.orderly.plain y hy
  · exact hb

/-- Installing a behavior that spares what is to be left alone keeps the invariant. -/
theorem leads_installOne (hhost : host.Quiet tell) (hn : n.Core sc) (hidle : sc.Follows → n.Idle) {b : Behavior N}
    (hb : sc.Spares b) :
    Leads True (installOne host b) n fun _ n' => n'.Core sc ∧ n.Changes tell n'
      ∧ n.registry.Relayered n'.registry := by
  refine .get_bind ?_
  split
  · have hgrows : n.Grows sc (n.withBehaviors (n.installed.map fun e =>
        if e.1.same b then (e.1, e.2 + 1) else (e.1, e.2)) n.registrations) :=
      hn.grows_installed fun x hx => by
        obtain ⟨y, hy, rfl⟩ := List.mem_map.mp hx
        refine .inl ⟨y, hy, ?_⟩
        split <;> rfl
    exact .of_modify ⟨hgrows.core hn, hgrows.changes, n.relayered_withBehaviors _ _⟩
  · have hgrows : n.Grows sc (n.withBehaviors (n.installed ++ [(b, 1)]) n.registrations) :=
      hn.grows_installed fun x hx => (List.mem_append.mp hx).imp (fun hx => ⟨x, hx, rfl⟩) fun hx => by
        rw [List.mem_singleton.mp hx]
        exact hb
    have hcore := hgrows.core hn
    have hproceeds : n.Changes tell _ := hgrows.changes
    refine .modify_bind (.get_bind ?_)
    refine (leads_relayers (l := id) hcore (fun hsc => hproceeds.idle (hidle hsc))
      (fun _ _ hn hidle hl => leads_addLayer hhost hn hidle hl b.transformation)
      fun l hl => hcore.of_affectedFormulas hb hl).weaken ?_
    rintro - n' ⟨hcore', hproceeds', hr, -⟩
    exact ⟨hcore', hproceeds.trans hproceeds', (n.relayered_withBehaviors _ _).trans hr⟩

/-- Installing behaviors that spare what is to be left alone keeps the invariant. -/
theorem leads_install (hhost : host.Quiet tell) (hn : n.Core sc) (hidle : sc.Follows → n.Idle)
    {behaviors : List (Behavior N)} (hb : ∀ b ∈ behaviors, sc.Spares b) :
    Leads True (install host behaviors) n fun _ n' => n'.Core sc ∧ n.Changes tell n'
      ∧ n.registry.Relayered n'.registry := by
  refine Leads.forM (I := fun n' => n'.Core sc ∧ n.Changes tell n' ∧ n.registry.Relayered n'.registry)
    (fun b hb' n' ⟨hcore, hproceeds, hr⟩ => ?_) ⟨hn, .refl n, .refl _⟩
  refine (leads_installOne hhost hcore (fun hsc => hproceeds.idle (hidle hsc)) (hb b hb')).weaken ?_
  exact fun _ n'' ⟨hcore', hproceeds', hr'⟩ => ⟨hcore', hproceeds.trans hproceeds', hr.trans hr'⟩

/-- Uninstalling a behavior that spares what is to be left alone keeps the invariant. -/
theorem leads_uninstallOne (hhost : host.Quiet tell) (hn : n.Core sc) (hidle : sc.Follows → n.Idle) {b : Behavior N}
    (hb : sc.Spares b) :
    Leads True (uninstallOne host b) n fun _ n' => n'.Core sc ∧ n.Changes tell n'
      ∧ n.registry.Relayered n'.registry ∧ ∀ t, n'.listeners t = n.listeners t := by
  refine .get_bind ?_
  dsimp only
  split
  · have hgrows : n.Grows sc (n.withBehaviors (n.installed.map fun e =>
        if e.1.same b then (e.1, e.2 - 1) else (e.1, e.2)) n.registrations) :=
      hn.grows_installed fun x hx => by
        obtain ⟨y, hy, rfl⟩ := List.mem_map.mp hx
        refine .inl ⟨y, hy, ?_⟩
        split <;> rfl
    exact .of_modify ⟨hgrows.core hn, hgrows.changes, n.relayered_withBehaviors _ _,
      (sameNodes_withBehaviors _ _).listeners⟩
  · split
    · have hgrows : n.Grows sc (n.withBehaviors (n.installed.eraseP (·.1.same b)) n.registrations) :=
        hn.grows_installed fun x hx => .inl ⟨x, List.mem_of_mem_eraseP hx, rfl⟩
      have hcore := hgrows.core hn
      have hproceeds : n.Changes tell _ := hgrows.changes
      refine .modify_bind (.get_bind ?_)
      refine (leads_relayers (l := id) hcore (fun hsc => hproceeds.idle (hidle hsc))
        (fun _ _ hn hidle hl => leads_removeLayer hhost hn hidle hl b.transformation)
        fun l hl => hcore.of_affectedFormulas hb hl).weaken ?_
      rintro - n' ⟨hcore', hproceeds', hr, hlisteners⟩
      exact ⟨hcore', hproceeds.trans hproceeds', (n.relayered_withBehaviors _ _).trans hr,
        fun t => (hlisteners t).trans ((sameNodes_withBehaviors _ _).listeners t)⟩
    · exact .of_pure ⟨hn, .refl n, .refl _, fun _ => rfl⟩

/-- Uninstalling behaviors that spare what is to be left alone keeps the invariant. -/
theorem leads_uninstall (hhost : host.Quiet tell) (hn : n.Core sc) (hidle : sc.Follows → n.Idle)
    {behaviors : List (Behavior N)} (hb : ∀ b ∈ behaviors, sc.Spares b) :
    Leads True (uninstall host behaviors) n fun _ n' => n'.Core sc ∧ n.Changes tell n'
      ∧ n.registry.Relayered n'.registry ∧ ∀ t, n'.listeners t = n.listeners t := by
  refine Leads.forM (I := fun n' => n'.Core sc ∧ n.Changes tell n' ∧ n.registry.Relayered n'.registry
    ∧ ∀ t, n'.listeners t = n.listeners t)
    (fun b hb' n' ⟨hcore, hproceeds, hr, hlisteners⟩ => ?_) ⟨hn, .refl n, .refl _, fun _ => rfl⟩
  refine (leads_uninstallOne hhost hcore (fun hsc => hproceeds.idle (hidle hsc)) (hb b hb')).weaken ?_
  exact fun _ n'' ⟨hcore', hproceeds', hr', hlisteners'⟩ => ⟨hcore', hproceeds.trans hproceeds',
    hr.trans hr', fun t => (hlisteners' t).trans (hlisteners t)⟩

/-- Registering the formula of a stage keeps the invariant. Nothing is lost if the stat is to be
left alone. -/
theorem leads_register (hhost : host.Quiet tell) (hn : n.Core sc) {key : NodeKey}
    {path : Path (Stat N)} (hadmits : sc.HasPath path) (hpath : path.key = key.path) {l : Nat} {stat : Stat N} {layers : List (Transformation N)}
    (hl : n.registry.layering l = some (.stage stat key.stage, layers)) (hkey : stat.key = key.stat)
    (hidle : sc.Follows → stat ∈ sc.stats ∨ n.Idle) :
    Leads True (register host key l) n fun _ n' => n'.Core sc ∧ n.Changes tell n'
      ∧ n.registry.Relayered n'.registry
      ∧ (sc.Bare stat ∨ n.installed = [] → n.Grows sc n' ∧ n'.installed = n.installed) := by
  have hr := n.relayered_withBehaviors n.installed (n.registrations ++ [⟨key, l⟩])
  have hgrows : n.Grows sc (n.withBehaviors n.installed (n.registrations ++ [⟨key, l⟩])) := by
    refine hn.grows_withBehaviors (hr.orderly hn.orderly hn.orderly.plain fun k hk => ?_)
    refine (List.mem_append.mp hk).imp id fun hk => ?_
    rw [List.mem_singleton.mp hk]
    exact ⟨⟨path, hadmits, hpath⟩, stat, layers, hl, hkey⟩
  have hcore := hgrows.core hn
  have hextends := hgrows.extension
  refine .modify_bind (.get_bind ?_)
  change Leads True ((n.installed.filter fun e => e.1.affects key).forM fun e =>
    addLayer host l e.1.transformation) (n.withBehaviors n.installed (n.registrations ++ [⟨key, l⟩])) _
  by_cases hsc : sc.Bare stat ∨ n.installed = []
  · have : (n.installed.filter fun e => e.1.affects key) = [] := by
      obtain hsc | hnil := hsc
      · refine List.filter_eq_nil_iff.mpr fun b hb => ?_
        have hnot := hn.orderly.plain b hb stat hsc key.stage path hadmits
        rw [hkey, hpath] at hnot
        simp [hnot]
      · rw [hnil, List.filter_nil]
    rw [this]
    exact .of_pure ⟨hcore, hgrows.changes, hr, fun _ => ⟨hgrows, rfl⟩⟩
  · have hidle (hfollows : sc.Follows) : n.Idle :=
      (hidle hfollows).resolve_left fun hstat => hsc (.inl (sc.bare stat hstat))
    refine (leads_relayers (l := fun _ : Behavior N × Nat => l) hcore
      (fun hsc => hextends.idle (hidle hsc))
      (fun b _ hn hidle hl => leads_addLayer hhost hn hidle hl b.1.transformation)
      fun b _ => ⟨stat, key.stage, layers, hl, fun hbare => hsc (.inl hbare)⟩).weaken ?_
    rintro - n' ⟨hcore', hproceeds', hr', -⟩
    exact ⟨hcore', hgrows.changes.trans hproceeds', hr.trans hr', fun h => absurd h hsc⟩

end Layers

end StatEngine.Network
