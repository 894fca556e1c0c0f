import StatEngine.Proofs.Recording

/-!
# Values that are kept

A cell is entered while its value is computed. When it is left the value is kept, unless there was a
fault, and either way the cell is observed from then on: it tells of the next change. What is kept can
be relied on, because it was computed from values that can be relied on (`Prepared`).

## Main statements

* `Inv.enter`, `Inv.settle` and `Inv.observe`: a cell that is entered, left or read keeps the
  invariant;
* `Extends.settle`: from entering a cell to leaving it nothing is lost.
-/

namespace StatEngine.Network

variable {N A σ : Type} {sc : Regime N} {n : Network N A σ}

/-- The network with the given flags at a position. -/
def flag (n : Network N A σ) (c : Nat) (flags : Flags N) : Network N A σ :=
  n.relight fun i old => if i = c then flags else old

section Flag

variable {c : Nat} {old new : Flags N}

/-- Changing the flags of a cached node that has given ones. -/
theorem modifyCached_eq_flag (hold : n.flags? c = some old)
    {g : CachedNode N A → CachedNode N A} {f : Flags N → Flags N}
    (h : ∀ x, g x = x.withFlags (f x.flags)) : n.modifyCached c g = n.flag c (f old) := by
  rw [modifyCached_eq_relight n c h, flag]
  refine n.relight_congr fun i flags hflags => ?_
  split
  next hi =>
    subst hi
    rw [Option.some.inj (hflags.symm.trans hold)]
  · rfl

theorem flags?_flag (hold : n.flags? c = some old) (i : Nat) :
    (n.flag c new).flags? i = if i = c then some new else n.flags? i := by
  rw [flag, flags?_relight]
  split
  next hi => rw [hi, hold]; rfl
  · exact Option.map_id'

theorem value?_flag (hold : n.flags? c = some old) (i : Nat) :
    (n.flag c new).value? i = if i = c then new.value else n.value? i := by
  rw [value?, flags?_flag hold]
  split <;> rfl

theorem isObserved_flag (hold : n.flags? c = some old) (i : Nat) :
    (n.flag c new).isObserved i = if i = c then new.observed else n.isObserved i := by
  rw [isObserved, flags?_flag hold]
  split <;> rfl

theorem isEntered_flag (hold : n.flags? c = some old) (i : Nat) :
    (n.flag c new).isEntered i = if i = c then new.entered else n.isEntered i := by
  rw [isEntered, flags?_flag hold]
  split <;> rfl

@[simp]
theorem registry_flag : (n.flag c new).registry = n.registry := registry_relight ..

@[simp]
theorem kind?_flag (i : Nat) : (n.flag c new).kind? i = n.kind? i := kind?_relight ..

@[simp]
theorem recorded_flag (i : Nat) : (n.flag c new).recorded i = n.recorded i := recorded_relight ..

theorem callbacks_flag (t : Topic) : (n.flag c new).callbacks t = n.callbacks t :=
  congrArg (List.filterMap _) (listeners_relight ..)

theorem value?_of_flags (hold : n.flags? c = some old) : n.value? c = old.value := by
  rw [value?, hold]
  rfl

theorem isObserved_of_flags (hold : n.flags? c = some old) : n.isObserved c = old.observed := by
  rw [isObserved, hold]
  rfl

theorem isEntered_of_flags (hold : n.flags? c = some old) : n.isEntered c = old.entered := by
  rw [isEntered, hold]
  rfl

end Flag

variable [Number N] {id : Nat} {old new : Flags N}

/-- Values can be relied on when a cell without a value, or with the same one, gets other flags. -/
theorem Grounded.flag (hold : n.flags? (id + 1) = some old)
    (hvalue : old.value = none ∨ new.value = old.value) (hobserved : old.observed → new.observed)
    {i : Nat} (h : n.Grounded sc i) : (n.flag (id + 1) new).Grounded sc i := by
  have hreg : (n.flag (id + 1) new).registry = n.registry := registry_flag
  refine h.transfer (P := fun _ => True) (fun j _ hj => ⟨fun φ p hd => hd.of_registry hreg, ?_,
    recorded_flag _, fun key ⟨s, hs⟩ => ?_⟩) (fun j _ hj key hkey c hc => ⟨trivial, ?_⟩) trivial
  · rw [value?_flag hold]
    split
    next heq =>
      obtain ⟨v, hv⟩ := hj.value
      rw [heq, value?_of_flags hold] at hv ⊢
      exact hvalue.resolve_left (by simp [hv])
    · rfl
  · cases hj with
    | intro denotes value resolved => exact hreg ▸ (Registry.Extends.refl _).sameAt (resolved _ hs)
  · cases hj with
    | intro denotes value resolved follows observed =>
      rw [isObserved_flag hold]
      have hc := observed key hkey c hc
      split
      next heq => exact hobserved ((isObserved_of_flags hold).symm.trans (heq ▸ hc))
      · exact hc

/-- A cell that failed is stuck on others that still failed when a cell gets other flags. -/
theorem Stuck.flag (hold : n.flags? (id + 1) = some old)
    (hvalue : old.value = none ∨ new.value = old.value) (hobserved : old.observed → new.observed)
    (hfailed : n.Failed (id + 1) → new.value = none) {i : Nat} {φ : Formula N} {p : Path (Stat N)}
    (h : n.Stuck sc i φ p) : (n.flag (id + 1) new).Stuck sc i φ p := by
  refine h.transfer (recorded_flag _) (fun key ⟨s, hs⟩ => ?_) (fun _ _ c _ v hv => ?_)
    fun _ _ c _ hc => ?_
  · rw [registry_flag]
    exact (Registry.Extends.refl _).sameAt (h.resolved _ hs)
  · rw [value?_flag hold]
    split
    next heq =>
      rw [heq, value?_of_flags hold] at hv
      exact (hvalue.resolve_left (by simp [hv])).trans hv
    · exact hv
  · rw [Failed, isObserved_flag hold, value?_flag hold]
    split
    next heq =>
      obtain rfl : c = id := Nat.succ.inj heq
      exact ⟨hobserved ((isObserved_of_flags hold).symm.trans hc.1), hfailed hc⟩
    · exact hc

/-- The invariant is kept when a cell without a value, or with the same one, gets other flags that say
the truth. -/
theorem Inv.flag (hn : n.Inv sc) (hold : n.flags? (id + 1) = some old)
    (hvalue : old.value = none ∨ new.value = old.value) (hobserved : old.observed → new.observed)
    (hentered : new.entered → new.value = none
      ∧ (sc.Follows → new.stale = false ∧ ∃ φ p, n.Denotes sc id φ p))
    (hmain : sc.Follows → ∀ key e, n.registry.stage? ⟨key, .uncappedSubtotal, Path.main⟩ = some e →
      e.formula = id → Path.main ∈ n.registry.paths key)
    (htells : sc.Follows → new.entered = false → ∀ key e,
      n.registry.stage? ⟨key, .uncappedSubtotal, Path.main⟩ = some e → e.formula = id →
      ∃ s, (.paths key, s) ∈ n.recorded id ∧ n.registry.topic? (.paths key) = some s.topic)
    (hgrounded : ∀ v, new.value = some v → ∀ φ p, n.Denotes sc id φ p →
      (n.flag (id + 1) new).Grounded sc id)
    (hshown : new.value ≠ none → new.observed) (hfailed : n.Failed (id + 1) → new.value = none)
    (hstuck : new.observed → new.value = none → new.entered = false → ∀ φ p, n.Denotes sc id φ p →
      n.Stuck sc id φ p) :
    (n.flag (id + 1) new).Inv sc := by
  have hreg : (n.flag (id + 1) new).registry = n.registry := registry_flag
  -- each fact is about this cell, or about one whose flags are as they were
  refine ⟨⟨hn.wired.relight _, hreg ▸ hn.orderly, hn.listed.relight _, ⟨fun c hc => ?_,
    fun c flags hflags hc => ?_, fun hsc key e he hflagged => ?_,
    fun hsc key e he hvalued hnot => ?_⟩,
    fun i φ p v hd hv => ?_, fun i φ p hd hf hnot => ?_, hn.unreleased⟩, hreg ▸ hn.counted⟩
  · rw [value?_flag hold] at hc
    rw [isObserved_flag hold]
    split at hc
    next heq => rw [if_pos heq]; exact hshown hc
    next heq => rw [if_neg heq]; exact hn.lit.shown c hc
  · rw [flags?_flag hold] at hflags
    split at hflags
    next heq =>
      obtain rfl := Option.some.inj hflags
      obtain ⟨hnone, hfollows⟩ := hentered hc
      refine ⟨hnone, fun hsc => ?_⟩
      obtain ⟨hstale, φ, p, hd⟩ := hfollows hsc
      exact ⟨hstale, id, φ, p, heq, hd.of_registry hreg⟩
    · obtain ⟨hnone, hfollows⟩ := hn.lit.entered c flags hflags hc
      refine ⟨hnone, fun hsc => ?_⟩
      obtain ⟨hstale, i, φ, p, hi, hd⟩ := hfollows hsc
      exact ⟨hstale, i, φ, p, hi, hd.of_registry hreg⟩
  · rw [hreg] at he ⊢
    by_cases heq : e.formula = id
    · exact hmain hsc key e he heq
    · have hne : e.formula + 1 ≠ id + 1 := fun h => heq (Nat.succ.inj h)
      refine hn.lit.main hsc key e he ?_
      rwa [Flagged, value?_flag hold, isObserved_flag hold, isEntered_flag hold, if_neg hne,
        if_neg hne, if_neg hne] at hflagged
  · rw [hreg] at he ⊢
    rw [recorded_flag]
    rw [value?_flag hold, isObserved_flag hold] at hvalued
    rw [isEntered_flag hold] at hnot
    by_cases heq : e.formula = id
    · rw [heq, if_pos rfl] at hnot
      exact heq ▸ htells hsc hnot key e he heq
    · have hne : e.formula + 1 ≠ id + 1 := fun h => heq (Nat.succ.inj h)
      rw [if_neg hne, if_neg hne] at hvalued
      rw [if_neg hne] at hnot
      exact hn.lit.tells hsc key e he hvalued hnot
  · rw [value?_flag hold] at hv
    split at hv
    next heq =>
      obtain rfl := Nat.succ.inj heq
      exact hgrounded v hv φ p (hd.of_registry hreg.symm)
    · exact (hn.sound i φ p v (hd.of_registry hreg.symm) hv).flag hold hvalue hobserved
  · have hd' : n.Denotes sc i φ p := hd.of_registry hreg.symm
    rw [Failed, isObserved_flag hold, value?_flag hold] at hf
    rw [isEntered_flag hold] at hnot
    by_cases heq : i = id
    · subst heq
      rw [if_pos rfl, if_pos rfl] at hf
      rw [if_pos rfl] at hnot
      exact (hstuck hf.1 hf.2 hnot φ p hd').flag hold hvalue hobserved hfailed
    · have hne : i + 1 ≠ id + 1 := fun h => heq (Nat.succ.inj h)
      rw [if_neg hne, if_neg hne] at hf
      rw [if_neg hne] at hnot
      exact (hn.blocked i φ p hd' hf hnot).flag hold hvalue hobserved hfailed

/-! ## Reading what is kept -/

omit [Number N] in
/-- Everything goes on when a cell gets other flags, if it is not entered or left. -/
theorem Proceeds.flag {c : Nat} (hold : n.flags? c = some old) (hentered : new.entered = old.entered) :
    n.Proceeds (n.flag c new) where
  toWaits := .of_buffer rfl
  kind i _ hkind := (kind?_flag i).trans hkind
  entered i := by
    rw [isEntered_flag hold]
    split
    next heq => rw [heq, isEntered_of_flags hold, hentered]
    · rfl
  callbacks := callbacks_flag

/-- A cell that has a value, or is being computed, may be read. -/
theorem Inv.observe (hn : n.Inv sc) (hold : n.flags? (id + 1) = some old)
    (h : old.value ≠ none ∨ old.entered) :
    (n.flag (id + 1) { old with observed := true }).Inv sc
      ∧ n.Extends (n.flag (id + 1) { old with observed := true }) := by
  have hflagged : n.Flagged (id + 1) := by
    rw [Flagged, value?_of_flags hold, isEntered_of_flags hold]
    exact h.imp_right .inr
  refine ⟨hn.flag hold (.inr rfl) (fun _ => rfl) (fun hentered => ?_) (fun hsc key e he heq => ?_)
    (fun hsc hentered key e he heq => ?_) (fun v hv φ p hd => ?_) (fun _ => rfl)
    (fun hf => (value?_of_flags hold).symm.trans hf.2)
    (fun _ hnone hentered => (h.elim (absurd hnone) fun h => by simp [h] at hentered)),
    ⟨.flag hold rfl, ?_, fun c v hv => ?_, fun c hc => ?_,
    fun i _ => recorded_flag _, fun k e he => .inl ?_, fun _ => rfl⟩⟩
  · obtain ⟨hnone, hfollows⟩ := hn.lit.entered _ old hold hentered
    refine ⟨hnone, fun hsc => ?_⟩
    obtain ⟨hstale, i, φ, p, hi, hd⟩ := hfollows hsc
    obtain rfl := Nat.succ.inj hi
    exact ⟨hstale, φ, p, hd⟩
  · exact hn.lit.main hsc key e he (heq ▸ hflagged)
  · have hentered : old.entered = false := hentered
    subst heq
    refine hn.lit.tells hsc key e he (.inl ?_) ((isEntered_of_flags hold).trans hentered)
    rw [value?_of_flags hold]
    exact h.resolve_right (by simp [hentered])
  · have hv : n.value? (id + 1) = some v := (value?_of_flags hold).trans hv
    refine Grounded.flag hold ?_ ?_ (hn.sound _ _ _ _ hd hv)
    · exact .inr rfl
    · exact fun _ => rfl
  · rw [registry_flag]
    exact .refl _
  · rw [value?_flag hold]
    split
    next heq => exact (value?_of_flags hold).symm.trans (heq ▸ hv)
    · exact hv
  · rw [isObserved_flag hold]
    split
    · rfl
    · exact hc
  · rwa [registry_flag] at he

/-! ## Computing a value -/

/-- A cell without a value may be entered. -/
theorem Inv.enter (hn : n.Inv sc) (hold : n.flags? (id + 1) = some old) (hvalue : old.value = none)
    {φ : Formula N} {p : Path (Stat N)} (hd : n.Denotes sc id φ p)
    (hmain : ∀ key e, n.registry.stage? ⟨key, .uncappedSubtotal, Path.main⟩ = some e →
      e.formula = id → Path.main ∈ n.registry.paths key) :
    (n.flag (id + 1) ⟨none, old.observed, false, true⟩).Inv sc :=
  hn.flag hold (.inl hvalue) (fun h => h) (fun _ => ⟨rfl, fun _ => ⟨rfl, φ, p, hd⟩⟩) (fun _ => hmain)
    (fun _ h => by cases h) (fun v hv => by cases hv) (fun h => absurd rfl h) (fun _ => rfl)
    (fun _ _ h => by cases h)

/-- A cell on file that has a value. -/
def Kept (sc : Regime N) (n : Network N A σ) (c : Nat) : Prop :=
  n.value? (c + 1) ≠ none ∧ ∃ φ p, n.Denotes sc c φ p

/-- What an evaluation came to: it follows from what is known under just what the formula recorded. -/
structure Prepared (sc : Regime N) (n : Network N A σ) (id : Nat) (φ : Formula N) (p : Path (Stat N))
    (result : Except (Fault N) (Option (Amount N))) : Prop where
  resolved : n.Resolved id
  follows : Follows (n.Answers sc (n.Records id) id) (φ.inquiry p).run result
  reads : ∀ v, result = .ok v → ∀ key, n.Records id key → ∀ c, n.Under key c → n.Kept sc c

/-- What ended in a fault is stuck. -/
theorem Prepared.stuck {φ : Formula N} {p : Path (Stat N)} {fault : Fault N}
    (h : n.Prepared sc id φ p (.error fault)) : n.Stuck sc id φ p := ⟨h.resolved, fault, h.follows⟩

/-- What an evaluation succeeded with is what the modifiers and paths on file stand for. -/
theorem Prepared.computes {φ : Formula N} {p : Path (Stat N)} {v : Option (Amount N)}
    (h : n.Prepared sc id φ p (.ok v)) (hn : n.Inv sc) (hsc : sc.Follows) :
    n.registry.inputs.Computes φ p (.ok v) :=
  computes_of_follows hsc h.follows (fun _ _ hknown => hknown) fun _ _ _ _ _ _ _ hd hv =>
    (hn.sound _ _ _ _ hd hv).computes hn.wired hn.orderly hd hv

/-- A value that is kept for what was recorded can be relied on. -/
theorem Prepared.grounded {φ : Formula N} {p : Path (Stat N)} {v : Option (Amount N)}
    (h : n.Prepared sc id φ p (.ok v)) (hn : n.Inv sc) (hold : n.flags? (id + 1) = some old)
    (hvalue : old.value = none) (hobserved : old.observed → new.observed)
    (hd : n.Denotes sc id φ p) (hv : new.value = some v) :
    (n.flag (id + 1) new).Grounded sc id := by
  have hreg : (n.flag (id + 1) new).registry = n.registry := registry_flag
  -- the cell itself has no value yet, so it read other cells
  have hother (key : DependencyKey) (hkey : n.Records id key) (c : Nat) (hc : n.Under key c) :
      c + 1 ≠ id + 1 := by
    intro heq
    refine (h.reads v rfl key hkey c hc).1 ?_
    rw [heq, value?_of_flags hold, hvalue]
  have hsame (key : DependencyKey) (hkey : n.Records id key) :
      SameAt n.registry (n.flag (id + 1) new).registry key := by
    obtain ⟨s, hs⟩ := hkey
    exact hreg ▸ (Registry.Extends.refl _).sameAt (h.resolved _ hs)
  have hrecords (key : DependencyKey) : (n.flag (id + 1) new).Records id key ↔ n.Records id key := by
    rw [Records, Records, recorded_flag]
  refine .intro (hd.of_registry hreg) ?_ (fun d hdep => ?_)
    (h.follows.mono_ok fun query reply hknown => ⟨reply, rfl, ?_⟩)
    (fun key hkey c hc => ?_) (fun key hkey c hc => ?_)
  · rw [value?_flag hold, if_pos rfl, hv]
  · rw [recorded_flag] at hdep
    rw [hreg]
    exact h.resolved d hdep
  · refine Known.transfer hknown (fun key => (hrecords key).mpr) hsame fun key hkey c hc w hw => ?_
    rw [value?_flag hold, if_neg (hother key hkey c hc), hw]
  · have hkey := (hrecords key).mp hkey
    have hc := (hsame key hkey).under_iff.mp hc
    rw [isObserved_flag hold, if_neg (hother key hkey c hc)]
    exact hn.lit.shown _ (h.reads v rfl key hkey c hc).1
  · have hkey := (hrecords key).mp hkey
    have hc := (hsame key hkey).under_iff.mp hc
    obtain ⟨hne, ψ, q, hdc⟩ := h.reads v rfl key hkey c hc
    obtain ⟨w, hw⟩ := Option.ne_none_iff_exists'.mp hne
    exact (hn.sound c ψ q w hdc hw).flag hold (.inl hvalue) hobserved

/-- What is kept after an evaluation. -/
def keptOf? (result : Except (Fault N) (Option (Amount N))) : Option (Option (Amount N)) :=
  match result with
  | .ok v => some v
  | .error _ => none

/-- A cell may be left with what its evaluation came to. A value is kept only if the cell did not fail
before. -/
theorem Inv.settle (hn : n.Inv sc) (hold : n.flags? (id + 1) = some old) (hentered : old.entered)
    {φ : Formula N} {p : Path (Stat N)} (hd : n.Denotes sc id φ p)
    (htells : ∀ key e, n.registry.stage? ⟨key, .uncappedSubtotal, Path.main⟩ = some e →
      e.formula = id →
      ∃ s, (.paths key, s) ∈ n.recorded id ∧ n.registry.topic? (.paths key) = some s.topic)
    {result : Except (Fault N) (Option (Amount N))} (hresult : n.Prepared sc id φ p result)
    (hnew : ∀ v, result = .ok v → ¬ n.Failed (id + 1)) :
    (n.flag (id + 1) ⟨keptOf? result, true, false, false⟩).Inv sc := by
  have hvalue := (hn.lit.entered _ old hold hentered).1
  refine hn.flag hold (.inl hvalue) (fun _ => rfl) (fun h => by cases h) (fun hsc key e he heq => ?_)
    (fun _ _ => htells) (fun v hv _ _ _ => ?_) (fun _ => rfl) (fun hf => ?_) (fun _ hnone _ ψ q hd' => ?_)
  · refine hn.lit.main hsc key e he (.inr (.inr ?_))
    rw [heq, isEntered_of_flags hold, hentered]
  · cases result with
    | ok w => exact hresult.grounded hn hold hvalue (fun _ => rfl) hd rfl
    | error fault => cases hv
  · cases result with
    | ok w => exact absurd hf (hnew w rfl)
    | error fault => rfl
  · obtain ⟨rfl, rfl⟩ := hn.wired.denotes_unique hn.orderly hd hd'
    cases result with
    | ok w => cases hnone
    | error fault => exact hresult.stuck

omit [Number N] in
/-- What goes on from entering a cell to leaving it goes on without the cell being entered. -/
theorem Proceeds.settle {n' : Network N A σ} {c : Nat} {flags entry left : Flags N}
    (hold : n.flags? c = some old) (hleft : left.entered = old.entered)
    (h : (n.flag c entry).Proceeds n') (hflags : n'.flags? c = some flags) :
    n.Proceeds (n'.flag c left) := by
  refine ⟨⟨h.enabled, h.depth, h.at_once, fun topic htopic => ?_⟩, fun i kind hkind => ?_,
    fun i => ?_, fun t => ?_⟩
  · obtain hmem | ⟨i, inner, hi, hinner⟩ := h.to_hosts topic htopic
    · exact .inl hmem
    · exact .inr ⟨i, inner, hi, (kind?_flag i).trans hinner⟩
  · exact (kind?_flag i).trans (h.kind i kind ((kind?_flag i).trans hkind))
  · rw [isEntered_flag hflags]
    split
    next heq => rw [heq, isEntered_of_flags hold, hleft]
    next heq => rw [h.entered, isEntered_flag hold, if_neg heq]
  · rw [callbacks_flag]
    exact (h.callbacks t).trans (callbacks_flag t)

omit [Number N] in
/-- From entering a cell to leaving it nothing is lost. -/
theorem Extends.settle {n' : Network N A σ} {observed stale : Bool} (hold : n.flags? (id + 1) = some old)
    (hvalue : old.value = none) (hnot : old.entered = false)
    (h : (n.flag (id + 1) ⟨none, observed, stale, true⟩).Extends n') {flags : Flags N}
    (hflags : n'.flags? (id + 1) = some flags) (kept : Option (Option (Amount N))) :
    n.Extends (n'.flag (id + 1) ⟨kept, true, false, false⟩) := by
  have hne {c : Nat} (hc : n.value? c ≠ none) : c ≠ id + 1 := by
    rintro rfl
    exact hc ((value?_of_flags hold).trans hvalue)
  refine ⟨h.toProceeds.settle hold hnot.symm hflags, ?_, fun c v hv => ?_, fun c hc => ?_,
    fun i hi => ?_, fun k e he => ?_, fun hwatch => h.notices ?_⟩
  · have hregistry := h.registry
    rw [registry_flag] at hregistry ⊢
    exact hregistry
  · have hc : c ≠ id + 1 := hne (by simp [hv])
    rw [value?_flag hflags, if_neg hc]
    exact h.value c v (by rw [value?_flag hold, if_neg hc, hv])
  · rw [isObserved_flag hflags]
    split
    · rfl
    next heq => exact h.observed c (by rw [isObserved_flag hold, if_neg heq, hc])
  · have hi' : i + 1 ≠ id + 1 := hne hi
    rw [recorded_flag, h.recorded i (by rwa [value?_flag hold, if_neg hi']), recorded_flag]
  · rw [registry_flag] at he
    obtain he | hnew := h.fresh k e he
    · exact .inl (by rwa [registry_flag] at he)
    · exact .inr (by rwa [flag, size_relight] at hnew)
  · intro topic htopic
    rw [callbacks_flag] at htopic
    obtain ⟨i, inner, hi, hinner⟩ := hwatch topic htopic
    exact ⟨i, inner, hi, (kind?_flag i).trans hinner⟩

end StatEngine.Network
