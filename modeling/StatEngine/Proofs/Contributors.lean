import StatEngine.Aggregation
import StatEngine.Proofs.Bounds

/-!
# What contributors aggregate to

The values that contribute to a form come in the order in which their modifiers were registered, absent ones
among them. A base is set at each bound by the only contributor that is not near zero there, so it does not
matter where that contributor stands, nor who else stands around it without setting a bound.

Sums and products do not depend on the order of the contributors if arithmetic is exact. Overrides do, in one
case: nearness is not transitive, and one contributor may be near all the others while two of those are not near
each other. If it comes first it overrides, and if it does not the overrides are in conflict.

## Main definitions

* `Aggregation.SetsAt`: a contributor sets a bound;
* `Aggregation.Ambiguous`: two contributors set the same bound;
* `Aggregation.Agree`: two outcomes are faults of one kind, or amounts that are near;
* `Aggregation.Divided`: what the contributors of an override come to depends on their order.

## Main statements

* `Aggregation.aggregate_baseSet`: what contributors set a base to;
* `Aggregation.agree_perm_iff`: when an aggregate does not depend on the order of the contributors.
-/

namespace StatEngine

/-- Two faults are of one kind, whatever their details. -/
def Fault.SameKind {N : Type} : Fault N → Fault N → Prop
  | .cycle _, .cycle _ => True
  | .ambiguousBaseSet _, .ambiguousBaseSet _ => True
  | .conflictingOverrides _, .conflictingOverrides _ => True
  | .inconsistentMaximum .., .inconsistentMaximum .. => True
  | .networkReleased, .networkReleased => True
  | .catalogReleased, .catalogReleased => True
  | _, _ => False

namespace Aggregation

open Amount

variable {N : Type} [Number N]

/-! ## Setting a bound -/

/-- The contributor at a position sets a bound to `b`: it is present, and not near zero at the bound. -/
def SetsAt (values : List (Option (Amount N))) (i : Bound) (position : Nat) (b : N) : Prop :=
  ∃ a, values[position]? = some (some a) ∧ a.bound i = b ∧ Number.near b Number.zero = false

/-- Two contributors set the same bound. -/
def Ambiguous (values : List (Option (Amount N))) : Prop :=
  ∃ i j k b c, j ≠ k ∧ SetsAt values i j b ∧ SetsAt values i k c

/-- A bound is what a contributor sets it to, or zero if none sets it. -/
def SetTo (values : List (Option (Amount N))) (i : Bound) (b : N) : Prop :=
  (∃ k, SetsAt values i k b) ∨ (∀ k c, ¬ SetsAt values i k c) ∧ b = Number.zero

/-- Whether a contributor is present and sets a bound. -/
def sets (value : Option (Amount N)) : Bool := value.any (!·.isNearZero)

/-- What a contributor sets a bound to, if it sets it. -/
def setting? (i : Bound) (value : Option (Amount N)) : Option N :=
  (value.map (bound i)).filter fun b => !Number.near b Number.zero

theorem setting?_eq_some_iff {i : Bound} {value : Option (Amount N)} {b : N} :
    setting? i value = some b ↔ ∃ a, value = some a ∧ a.bound i = b ∧ Number.near b Number.zero = false := by
  cases value <;> simp [setting?, Option.filter_eq_some_iff]

theorem setsAt_iff {values : List (Option (Amount N))} {i : Bound} {k : Nat} {b : N} :
    SetsAt values i k b ↔ ∃ value, values[k]? = some value ∧ setting? i value = some b := by
  simp only [SetsAt, setting?_eq_some_iff]
  constructor
  · rintro ⟨a, hk, ha⟩
    exact ⟨some a, hk, a, rfl, ha⟩
  · rintro ⟨_, hk, a, rfl, ha⟩
    exact ⟨a, hk, ha⟩

/-- The settings of a bound, in the order of the contributors. -/
def settings (i : Bound) (values : List (Option (Amount N))) : List N := values.filterMap (setting? i)

theorem mem_settings {i : Bound} {values : List (Option (Amount N))} {b : N} :
    b ∈ settings i values ↔ ∃ k, SetsAt values i k b := by
  simp only [settings, List.mem_filterMap, setsAt_iff]
  constructor
  · rintro ⟨value, hmem, hb⟩
    obtain ⟨k, hk⟩ := List.mem_iff_getElem?.mp hmem
    exact ⟨k, value, hk, hb⟩
  · rintro ⟨k, value, hk, hb⟩
    exact ⟨value, List.mem_of_getElem? hk, hb⟩

theorem settings_eq_nil_iff {i : Bound} {values : List (Option (Amount N))} :
    settings i values = [] ↔ ∀ k b, ¬ SetsAt values i k b := by
  rw [List.eq_nil_iff_forall_not_mem]
  simp only [mem_settings, not_exists]
  exact forall_comm

theorem setTo_iff {values : List (Option (Amount N))} {i : Bound} {b : N} :
    SetTo values i b ↔ b ∈ settings i values ∨ settings i values = [] ∧ b = Number.zero := by
  rw [mem_settings, settings_eq_nil_iff, SetTo]

/-- At most one element has an image just if no two do. -/
theorem length_filterMap_le_one_iff {α β : Type} {f : α → Option β} {xs : List α} :
    (xs.filterMap f).length ≤ 1 ↔ xs.Pairwise fun x y => f x = none ∨ f y = none := by
  induction xs with
  | nil => simp
  | cons x xs ih =>
    rw [List.pairwise_cons]
    cases hx : f x with
    | none => simpa [hx] using ih
    | some b =>
      have hnone : (xs.filterMap f).length = 0 ↔ ∀ y ∈ xs, f y = none := by simp
      rw [List.filterMap_cons_some hx, List.length_cons, Nat.succ_le_succ_iff, Nat.le_zero, hnone]
      simp only [reduceCtorEq, false_or, iff_self_and]
      exact fun h => List.pairwise_iff_getElem.mpr fun j k hj _ _ => .inl (h _ (List.getElem_mem hj))

/-- Contributors are not ambiguous just if each bound has at most one setting. -/
theorem not_ambiguous_iff {values : List (Option (Amount N))} :
    ¬ Ambiguous values ↔ ∀ i, (settings i values).length ≤ 1 := by
  simp only [settings, length_filterMap_le_one_iff, List.pairwise_iff_getElem]
  constructor
  · intro h i j k hj hk hjk
    by_contra hboth
    obtain ⟨hb, hc⟩ := not_or.mp hboth
    obtain ⟨b, hb⟩ := Option.ne_none_iff_exists'.mp hb
    obtain ⟨c, hc⟩ := Option.ne_none_iff_exists'.mp hc
    exact h ⟨i, j, k, b, c, hjk.ne, setsAt_iff.mpr ⟨_, List.getElem?_eq_getElem hj, hb⟩,
      setsAt_iff.mpr ⟨_, List.getElem?_eq_getElem hk, hc⟩⟩
  · rintro h ⟨i, j, k, b, c, hne, hb, hc⟩
    obtain ⟨_, hj, hb⟩ := setsAt_iff.mp hb
    obtain ⟨_, hk, hc⟩ := setsAt_iff.mp hc
    obtain ⟨hltj, rfl⟩ := List.getElem?_eq_some_iff.mp hj
    obtain ⟨hltk, rfl⟩ := List.getElem?_eq_some_iff.mp hk
    rcases hne.lt_or_gt with hlt | hlt
    · simpa [hb, hc] using h i j k hltj hltk hlt
    · simpa [hb, hc] using h i k j hltk hltj hlt

/-- A contributor that sets neither bound leaves the settings as they are. -/
theorem settings_filter_sets (i : Bound) (values : List (Option (Amount N))) :
    settings i (values.filter sets) = settings i values := by
  rw [settings, List.filterMap_filter]
  refine List.filterMap_congr fun value _ => ite_eq_left_iff.mpr fun hsets => ?_
  cases value with
  | none => rfl
  | some a =>
    obtain ⟨hmin, hmax⟩ : Number.near a.minimum Number.zero ∧ Number.near a.maximum Number.zero := by
      simpa [sets, isNearZero, nearNumber] using hsets
    have hbound : Number.near (a.bound i) Number.zero := by
      cases i with
      | lower => exact hmin
      | upper => exact hmax
    simp [setting?, Option.filter_some, hbound]

/-! ## What a base is set to -/

theorem onlyNonZero_bounds (i : Bound) (values : List (Option (Amount N))) :
    onlyNonZero ((values.filterMap id).map (bound i))
      = match settings i values with
        | [] => some Number.zero
        | [b] => some b
        | _ => none := by
  have hzero : (fun b : N => !(single b).isNearZero) = fun b => !Number.near b Number.zero :=
    funext fun b => congrArg _ (Bool.and_self _)
  rw [onlyNonZero, hzero, List.map_filterMap, List.filter_filterMap]
  rfl

/-- A bound that at most one contributor sets is what it sets the bound to. -/
theorem onlyNonZero_eq_some_iff {i : Bound} {values : List (Option (Amount N))} {b : N}
    (h : (settings i values).length ≤ 1) :
    onlyNonZero ((values.filterMap id).map (bound i)) = some b ↔ SetTo values i b := by
  rw [onlyNonZero_bounds, setTo_iff]
  match hs : settings i values with
  | [] => simp [eq_comm]
  | [c] => simp [eq_comm]
  | _ :: _ :: _ => simp [hs] at h

theorem onlyNonZero_eq_none_iff {i : Bound} {values : List (Option (Amount N))} :
    onlyNonZero ((values.filterMap id).map (bound i)) = none ↔ ¬ (settings i values).length ≤ 1 := by
  rw [onlyNonZero_bounds]
  match settings i values with
  | [] => simp
  | [c] => simp
  | _ :: _ :: _ => simp

theorem exists_setTo (i : Bound) (values : List (Option (Amount N))) : ∃ b, SetTo values i b := by
  simp only [setTo_iff]
  cases settings i values with
  | nil => exact ⟨_, .inr ⟨rfl, rfl⟩⟩
  | cons b bs => exact ⟨b, .inl List.mem_cons_self⟩

section Outcome

variable {values : List (Option (Amount N))}

omit [Number N] in
theorem isEmpty_present : (values.filterMap id).isEmpty ↔ ∀ value ∈ values, value = none := by
  simp

/-- Without a contributor that is present there is no base. -/
theorem aggregate_baseSet_of_absent (h : ∀ value ∈ values, value = none) :
    aggregate .baseSet values = .ok none := by
  change baseSet (values.filterMap id) = _
  rw [baseSet, if_pos (isEmpty_present.mpr h)]

/-- Ambiguous contributors set no base. -/
theorem aggregate_baseSet_of_ambiguous (h : Ambiguous values) :
    aggregate .baseSet values = .error (.ambiguousBaseSet (values.filterMap id)) := by
  have hsome : ¬ (values.filterMap id).isEmpty := by
    obtain ⟨_, k, _, _, _, _, ⟨a, hk, _⟩, _⟩ := h
    exact fun hempty => Option.some_ne_none a (isEmpty_present.mp hempty _ (List.mem_of_getElem? hk))
  obtain ⟨i, hi⟩ := not_forall.mp (mt not_ambiguous_iff.mpr (not_not.mpr h))
  have hnone := onlyNonZero_eq_none_iff.mpr hi
  change baseSet (values.filterMap id) = _
  rw [baseSet, if_neg hsome]
  cases i with
  | lower =>
    change onlyNonZero ((values.filterMap id).map (·.minimum)) = none at hnone
    rw [hnone]
  | upper =>
    change onlyNonZero ((values.filterMap id).map (·.maximum)) = none at hnone
    rw [hnone]
    cases onlyNonZero ((values.filterMap id).map (·.minimum)) <;> rfl

/-- Contributors that are not ambiguous set each bound on its own. -/
theorem aggregate_baseSet_of_setTo (hpresent : ∃ value ∈ values, value ≠ none) (h : ¬ Ambiguous values)
    {range : Amount N} (hrange : ∀ i, SetTo values i (range.bound i)) :
    aggregate .baseSet values = .ok (some range) := by
  have hsome : ¬ (values.filterMap id).isEmpty := by
    obtain ⟨value, hmem, hvalue⟩ := hpresent
    exact fun hempty => hvalue (isEmpty_present.mp hempty value hmem)
  have hbound (i : Bound) := (onlyNonZero_eq_some_iff (not_ambiguous_iff.mp h i)).mpr (hrange i)
  have hmin : onlyNonZero ((values.filterMap id).map (·.minimum)) = some range.minimum := hbound .lower
  have hmax : onlyNonZero ((values.filterMap id).map (·.maximum)) = some range.maximum := hbound .upper
  change baseSet (values.filterMap id) = _
  rw [baseSet, if_neg hsome, hmin, hmax]

/-- Contributors set no base, are ambiguous, or set both bounds. -/
theorem aggregate_baseSet_cases (values : List (Option (Amount N))) :
    (∀ value ∈ values, value = none) ∧ aggregate .baseSet values = .ok none
      ∨ Ambiguous values ∧ aggregate .baseSet values = .error (.ambiguousBaseSet (values.filterMap id))
      ∨ (∃ value ∈ values, value ≠ none) ∧ ¬ Ambiguous values
        ∧ ∃ range, (∀ i, SetTo values i (range.bound i)) ∧ aggregate .baseSet values = .ok (some range) := by
  by_cases habsent : ∀ value ∈ values, value = none
  · exact .inl ⟨habsent, aggregate_baseSet_of_absent habsent⟩
  by_cases hambiguous : Ambiguous values
  · exact .inr (.inl ⟨hambiguous, aggregate_baseSet_of_ambiguous hambiguous⟩)
  have hpresent : ∃ value ∈ values, value ≠ none := by simpa using habsent
  obtain ⟨minimum, hmin⟩ := exists_setTo .lower values
  obtain ⟨maximum, hmax⟩ := exists_setTo .upper values
  have hrange (i : Bound) : SetTo values i ((⟨minimum, maximum⟩ : Amount N).bound i) := by
    cases i with
    | lower => exact hmin
    | upper => exact hmax
  exact .inr (.inr ⟨hpresent, hambiguous, _, hrange, aggregate_baseSet_of_setTo hpresent hambiguous hrange⟩)

end Outcome

/-- What contributors set a base to. There is no base if all of them are absent, and a fault that carries those
that are present just if two of them set the same bound. Otherwise the base is a range of which each bound is
what the only contributor that sets it sets it to, or zero if none sets it. Contributors that are absent or near
zero at both bounds make no difference to a range, wherever they stand, as long as there is one that is present. -/
theorem aggregate_baseSet (values : List (Option (Amount N))) :
    (aggregate .baseSet values = .ok none ↔ ∀ value ∈ values, value = none)
      ∧ (∀ fault, aggregate .baseSet values = .error fault
        ↔ Ambiguous values ∧ fault = .ambiguousBaseSet (values.filterMap id))
      ∧ (∀ range, aggregate .baseSet values = .ok (some range)
        ↔ (∃ value ∈ values, value ≠ none) ∧ ¬ Ambiguous values ∧ ∀ i, SetTo values i (range.bound i))
      ∧ ∀ other range, other.filter sets = values.filter sets → (∃ value ∈ other, value ≠ none) →
        aggregate .baseSet values = .ok (some range) → aggregate .baseSet other = .ok (some range) := by
  have hrange (values : List (Option (Amount N))) (range : Amount N) :
      aggregate .baseSet values = .ok (some range)
        ↔ (∃ value ∈ values, value ≠ none) ∧ ¬ Ambiguous values ∧ ∀ i, SetTo values i (range.bound i) := by
    refine ⟨fun h => ?_, fun ⟨hpresent, hclear, hset⟩ => aggregate_baseSet_of_setTo hpresent hclear hset⟩
    obtain ⟨-, hnone⟩ | ⟨-, hfault⟩ | ⟨hpresent, hclear, found, hset, hfound⟩ := aggregate_baseSet_cases values
    · cases hnone.symm.trans h
    · cases hfault.symm.trans h
    · cases hfound.symm.trans h
      exact ⟨hpresent, hclear, hset⟩
  refine ⟨⟨fun h => ?_, aggregate_baseSet_of_absent⟩, fun fault => ⟨fun h => ?_, ?_⟩, hrange values,
    fun other range hfilter hpresent h => ?_⟩
  · obtain ⟨habsent, -⟩ | ⟨-, hfault⟩ | ⟨-, -, _, -, hfound⟩ := aggregate_baseSet_cases values
    · exact habsent
    · cases hfault.symm.trans h
    · cases hfound.symm.trans h
  · obtain ⟨-, hnone⟩ | ⟨hambiguous, hfault⟩ | ⟨-, -, _, -, hfound⟩ := aggregate_baseSet_cases values
    · cases hnone.symm.trans h
    · exact ⟨hambiguous, Except.error.inj (h.symm.trans hfault)⟩
    · cases hfound.symm.trans h
  · rintro ⟨hambiguous, rfl⟩
    exact aggregate_baseSet_of_ambiguous hambiguous
  · -- both lists have the same settings, and these decide what is ambiguous and what a bound is set to
    have hsettings (i : Bound) : settings i other = settings i values := by
      rw [← settings_filter_sets, hfilter, settings_filter_sets]
    obtain ⟨-, hclear, hset⟩ := (hrange values range).mp h
    refine (hrange other range).mpr ⟨hpresent, not_ambiguous_iff.mpr fun i => ?_, fun i => setTo_iff.mpr ?_⟩
    · rw [hsettings]
      exact not_ambiguous_iff.mp hclear i
    · rw [hsettings]
      exact setTo_iff.mp (hset i)

/-- Two contributors set one bound each. One that is absent and one that is near zero make no difference. -/
theorem baseSet_of_two :
    aggregate .baseSet [some ⟨5, 0⟩, some (single (1 / 10 ^ 11)), some (⟨0, 10⟩ : Amount ℚ), none]
      = .ok (some ⟨5, 10⟩) := by
  refine (aggregate_baseSet [some ⟨5, 0⟩, some ⟨0, 10⟩]).2.2.2 _ _ ?_ ?_ ?_
  · decide +kernel
  · decide +kernel
  · decide +kernel

/-! ## The order of contributors -/

/-- Two outcomes are faults of one kind, or both absent, or amounts that are equal or near. -/
def Agree : Except (Fault N) (Option (Amount N)) → Except (Fault N) (Option (Amount N)) → Prop
  | .ok none, .ok none => True
  | .ok (some a), .ok (some b) => a = b ∨ a.near b
  | .error e, .error e' => e.SameKind e'
  | _, _ => False

theorem Agree.refl (outcome : Except (Fault N) (Option (Amount N))) : Agree outcome outcome := by
  match outcome with
  | .ok none => trivial
  | .ok (some a) => exact .inl rfl
  | .error e => cases e <;> trivial

/-! ### Bases that are set -/

theorem Ambiguous.of_perm {values other : List (Option (Amount N))} (h : Ambiguous values)
    (hperm : other.Perm values) : Ambiguous other := by
  by_contra hclear
  refine absurd h (not_ambiguous_iff.mpr fun i => ?_)
  exact (hperm.filterMap (setting? i)).length_eq ▸ not_ambiguous_iff.mp hclear i

theorem SetTo.of_perm {values other : List (Option (Amount N))} {i : Bound} {b : N} (h : SetTo values i b)
    (hperm : other.Perm values) : SetTo other i b := by
  have hsettings : (settings i other).Perm (settings i values) := hperm.filterMap (setting? i)
  refine setTo_iff.mpr ((setTo_iff.mp h).imp hsettings.mem_iff.mpr (And.imp_left fun hnil => ?_))
  exact (hnil ▸ hsettings).eq_nil

/-- What contributors set a base to does not depend on their order. -/
theorem agree_baseSet {values other : List (Option (Amount N))} (hperm : other.Perm values) :
    Agree (aggregate .baseSet other) (aggregate .baseSet values) := by
  obtain ⟨habsent, hnone⟩ | ⟨hambiguous, hfault⟩ | ⟨⟨value, hmem, hvalue⟩, hclear, range, hset, hrange⟩ :=
    aggregate_baseSet_cases values
  · rw [hnone, aggregate_baseSet_of_absent fun value hvalue => habsent value (hperm.mem_iff.mp hvalue)]
    trivial
  · rw [hfault, aggregate_baseSet_of_ambiguous (hambiguous.of_perm hperm)]
    trivial
  · rw [hrange, aggregate_baseSet_of_setTo ⟨value, hperm.mem_iff.mpr hmem, hvalue⟩
      (fun h => hclear (h.of_perm hperm.symm)) fun i => (hset i).of_perm hperm]
    exact .inl rfl

/-! ### Overrides -/

/-- An amount is exactly zero. -/
def IsZero (a : Amount N) : Prop := Number.isZero a.minimum ∧ Number.isZero a.maximum

/-- A contributor that is near all the others. -/
def Central (values : List (Amount N)) (a : Amount N) : Prop :=
  ∃ others, values.Perm (a :: others) ∧ ∀ b ∈ others, a.near b

/-- One contributor is near all the others and another one is not, and none is exactly zero. -/
def Divided (values : List (Amount N)) : Prop :=
  (∃ a ∈ values, Central values a) ∧ (∃ a ∈ values, ¬ Central values a) ∧ ∀ a ∈ values, ¬ IsZero a

theorem central_cons {a : Amount N} {rest : List (Amount N)} :
    Central (a :: rest) a ↔ ∀ b ∈ rest, a.near b := by
  constructor
  · rintro ⟨others, hperm, hnear⟩ b hb
    exact hnear b (hperm.cons_inv.mem_iff.mp hb)
  · exact fun h => ⟨rest, .refl _, h⟩

theorem Central.of_perm {values other : List (Amount N)} {a : Amount N} (h : Central values a)
    (hperm : other.Perm values) : Central other a := by
  obtain ⟨others, hvalues, hnear⟩ := h
  exact ⟨others, hperm.trans hvalues, hnear⟩

/-- A contributor that is near all the others is near each contributor but itself. -/
theorem Central.eq_or_near {values : List (Amount N)} {a b : Amount N} (h : Central values a)
    (hb : b ∈ values) : b = a ∨ a.near b := by
  obtain ⟨others, hperm, hnear⟩ := h
  exact (List.mem_cons.mp (hperm.mem_iff.mp hb)).imp_right (hnear b)

section Distinct

/-- The values that are kept after one more. -/
def keep (kept : List (Amount N)) (a : Amount N) : List (Amount N) :=
  if kept.any (·.near a) then kept else kept ++ [a]

theorem prefix_foldl_keep (values kept : List (Amount N)) : kept <+: values.foldl keep kept := by
  induction values generalizing kept with
  | nil => exact List.prefix_rfl
  | cons a values ih =>
    refine List.IsPrefix.trans ?_ (ih _)
    unfold keep
    split
    · exact List.prefix_rfl
    · exact List.prefix_append _ _

/-- The first contributor is kept, and it is the only one if all others are near it. -/
theorem foldl_keep_singleton (a : Amount N) (rest : List (Amount N)) :
    if ∀ b ∈ rest, a.near b then rest.foldl keep [a] = [a]
    else ∃ b more, rest.foldl keep [a] = a :: b :: more := by
  induction rest with
  | nil => simp
  | cons b rest ih =>
    by_cases hb : a.near b
    · simpa [keep, hb] using ih
    · rw [if_neg fun h => hb (h b List.mem_cons_self), List.foldl_cons]
      obtain ⟨more, hmore⟩ := prefix_foldl_keep rest (keep [a] b)
      refine ⟨b, more, hmore.symm.trans ?_⟩
      simp [keep, hb]

end Distinct

/-- The first contributor overrides if it is near all the others. Otherwise zero overrides, if one of them is
exactly zero, and without one they are in conflict. -/
theorem override_cons (a : Amount N) (rest : List (Amount N)) :
    (Central (a :: rest) a ∧ override (a :: rest) = .ok (some a))
      ∨ ¬ Central (a :: rest) a ∧ (∃ b ∈ a :: rest, IsZero b) ∧ override (a :: rest) = .ok (some zero)
      ∨ ¬ Central (a :: rest) a ∧ (∀ b ∈ a :: rest, ¬ IsZero b)
        ∧ override (a :: rest) = .error (.conflictingOverrides (a :: rest)) := by
  have hdistinct : distinct (a :: rest) = rest.foldl keep [a] := rfl
  have hzero : ((a :: rest).any fun v => Number.isZero v.minimum && Number.isZero v.maximum) = true
      ↔ ∃ b ∈ a :: rest, IsZero b := by
    simp only [List.any_eq_true, Bool.and_eq_true, IsZero]
  have hkeep := foldl_keep_singleton a rest
  rw [central_cons]
  by_cases hnear : ∀ b ∈ rest, a.near b
  · rw [if_pos hnear] at hkeep
    exact .inl ⟨hnear, by rw [override, hdistinct, hkeep]⟩
  rw [if_neg hnear] at hkeep
  obtain ⟨b, more, hkeep⟩ := hkeep
  by_cases hany : ∃ b ∈ a :: rest, IsZero b
  · refine .inr (.inl ⟨hnear, hany, ?_⟩)
    rw [override, hdistinct, hkeep]
    exact if_pos (hzero.mpr hany)
  · refine .inr (.inr ⟨hnear, fun b hb hz => hany ⟨b, hb, hz⟩, ?_⟩)
    rw [override, hdistinct, hkeep]
    exact if_neg (mt hzero.mp hany)

/-- What is exactly zero is as near to a number as zero is. -/
def ZerosAlike (N : Type) [Number N] : Prop :=
  ∀ z : N, Number.isZero z → Number.near z z
    ∧ ∀ a, Number.near a z → Number.near a Number.zero ∧ Number.near Number.zero a

theorem ZerosAlike.near {a z : Amount N} (h : ZerosAlike N) (hz : IsZero z) (hnear : z = a ∨ a.near z) :
    a.near zero ∧ zero.near a := by
  obtain ⟨hmin, hmax⟩ := hz
  have hbounds : Number.near a.minimum z.minimum ∧ Number.near a.maximum z.maximum := by
    rcases hnear with rfl | hnear
    · exact ⟨(h _ hmin).1, (h _ hmax).1⟩
    · exact Bool.and_eq_true_iff.mp hnear
  obtain ⟨hmin, hmin'⟩ := (h _ hmin).2 _ hbounds.1
  obtain ⟨hmax, hmax'⟩ := (h _ hmax).2 _ hbounds.2
  exact ⟨Bool.and_eq_true_iff.mpr ⟨hmin, hmax⟩, Bool.and_eq_true_iff.mpr ⟨hmin', hmax'⟩⟩

/-- Overrides of contributors that are not divided do not depend on their order. -/
theorem agree_override (hzeros : ZerosAlike N) {values other : List (Amount N)} (hperm : other.Perm values)
    (h : ¬ Divided values) : Agree (override other) (override values) := by
  match other, values, hperm with
  | [], [], _ => trivial
  | [], _ :: _, hperm => cases hperm.symm.eq_nil
  | _ :: _, [], hperm => cases hperm.eq_nil
  | b :: other, a :: values, hperm =>
    have ha : a ∈ b :: other := hperm.mem_iff.mpr List.mem_cons_self
    have hb : b ∈ a :: values := hperm.mem_iff.mp List.mem_cons_self
    obtain ⟨hcb, hob⟩ | ⟨hcb, ⟨z, hmem, hz⟩, hob⟩ | ⟨hcb, hnz, hob⟩ := override_cons b other
      <;> obtain ⟨hca, hoa⟩ | ⟨hca, ⟨z', hmem', hz'⟩, hoa⟩ | ⟨hca, hnz', hoa⟩ := override_cons a values
      <;> rw [hob, hoa]
    · -- two that are near all the others are near each other
      exact (hcb.eq_or_near ha).imp_left Eq.symm
    · exact .inr (hzeros.near hz' (hcb.eq_or_near (hperm.mem_iff.mpr hmem'))).1
    · exact absurd ⟨⟨b, hb, hcb.of_perm hperm.symm⟩, ⟨a, List.mem_cons_self, hca⟩, hnz'⟩ h
    · -- whoever is near all the others is near the one that is exactly zero
      exact .inr (hzeros.near hz (hca.eq_or_near (hperm.mem_iff.mp hmem))).2
    · exact .inl rfl
    · exact absurd hz (hnz' z (hperm.mem_iff.mp hmem))
    · -- an override here and a conflict there is what it is to be divided
      exact absurd ⟨⟨a, List.mem_cons_self, hca⟩, ⟨b, hb, fun hc => hcb (hc.of_perm hperm)⟩,
        fun c hc => hnz c (hperm.mem_iff.mpr hc)⟩ h
    · exact absurd hz' (hnz z' (hperm.mem_iff.mpr hmem'))
    · trivial

omit [Number N] in
/-- Whoever of the contributors comes first, the others can follow. -/
theorem exists_perm_cons {values : List (Option (Amount N))} {a : Amount N}
    (h : a ∈ values.filterMap id) :
    ∃ (other : List (Option (Amount N))) (rest : List (Amount N)),
      other.Perm values ∧ other.filterMap id = a :: rest := by
  have hmem : some a ∈ values := by simpa using h
  obtain ⟨before, after, rfl⟩ := List.append_of_mem hmem
  exact ⟨some a :: (before ++ after), _, List.perm_middle.symm, List.filterMap_cons_some rfl⟩

/-- Overrides of divided contributors depend on who comes first. -/
theorem not_agree_of_divided {form : Form} (hform : form = .baseOverride ∨ form = .totalOverride)
    {values : List (Option (Amount N))} (h : Divided (values.filterMap id)) :
    ∃ other, other.Perm values ∧ ¬ Agree (aggregate form other) (aggregate form values) := by
  obtain ⟨⟨a, ha, hcentral⟩, ⟨b, hb, hapart⟩, hnonzero⟩ := h
  have hoverride (values : List (Option (Amount N))) :
      aggregate form values = override (values.filterMap id) := by
    rcases hform with rfl | rfl <;> rfl
  obtain ⟨first, rest, hfirst, hpresent⟩ := exists_perm_cons ha
  obtain ⟨second, rest', hsecond, hpresent'⟩ := exists_perm_cons hb
  have hperm := hpresent ▸ hfirst.filterMap id
  have hperm' := hpresent' ▸ hsecond.filterMap id
  -- one order has an override and the other one a conflict, so one of them does not agree with this order
  obtain ⟨-, hok⟩ | ⟨hnot, -⟩ | ⟨hnot, -⟩ := override_cons a rest
  · obtain ⟨hc, -⟩ | ⟨-, ⟨z, hz, hzero⟩, -⟩ | ⟨-, -, herror⟩ := override_cons b rest'
    · exact absurd (hc.of_perm hperm'.symm) hapart
    · exact absurd hzero (hnonzero z (hperm'.mem_iff.mp hz))
    · rw [← hpresent, ← hoverride] at hok
      rw [← hpresent', ← hoverride] at herror
      cases hvalues : aggregate form values with
      | ok v => exact ⟨second, hsecond, by simp [herror, Agree]⟩
      | error e => exact ⟨first, hfirst, by simp [hok, Agree]⟩
  · exact absurd (hcentral.of_perm hperm) hnot
  · exact absurd (hcentral.of_perm hperm) hnot

end Aggregation

open Aggregation in
/-- What the aggregate of a form relies on: sums and products do not depend on the order of their terms, and
for overrides one zero is like another. What sets a base relies on nothing. -/
def Form.Exact (N : Type) [Number N] : Form → Prop
  | .increase | .baseAdd => Std.Commutative (α := N) (· + ·) ∧ Std.Associative (α := N) (· + ·)
  | .more => Std.Commutative (α := N) (· * ·) ∧ Std.Associative (α := N) (· * ·)
  | .baseSet => True
  | .baseOverride | .totalOverride => ZerosAlike N

theorem Number.eq_zero_of_isZero {z : ℚ} (h : Number.isZero z) : z = Number.zero := by
  simp only [Number.isZero, Bool.and_eq_true, decide_eq_true_eq] at h
  exact le_antisymm h.1 h.2

theorem Number.near_comm (a b : ℚ) : Number.near a b = Number.near b a := by
  unfold Number.near
  congr 2
  exact abs_sub_comm a b

/-- Rational numbers are exact for every form. -/
theorem Form.exact_rat (form : Form) : form.Exact ℚ := by
  have hadd : Std.Commutative (α := ℚ) (· + ·) ∧ Std.Associative (α := ℚ) (· + ·) :=
    ⟨⟨add_comm⟩, ⟨add_assoc⟩⟩
  have hzeros : Aggregation.ZerosAlike ℚ := by
    intro z hz
    obtain rfl := Number.eq_zero_of_isZero hz
    exact ⟨by decide +kernel, fun a ha => ⟨ha, Number.near_comm a _ ▸ ha⟩⟩
  cases form with
  | increase | baseAdd => exact hadd
  | more => exact ⟨⟨mul_comm⟩, ⟨mul_assoc⟩⟩
  | baseSet => trivial
  | baseOverride | totalOverride => exact hzeros

namespace Aggregation

open Amount

/-- The order of contributors makes no difference to what they aggregate to, other than by nearness, for every
form but overrides. It does make one to overrides just if none of the contributors is exactly zero and one of
them is near all the others while another one is not. -/
theorem agree_perm_iff {N : Type} [Number N] {form : Form} (hexact : form.Exact N)
    (values : List (Option (Amount N))) :
    (∀ other : List (Option (Amount N)), other.Perm values →
        Agree (aggregate form other) (aggregate form values))
      ↔ ¬ ((form = .baseOverride ∨ form = .totalOverride) ∧ Divided (values.filterMap id)) := by
  constructor
  · rintro h ⟨hform, hdivided⟩
    obtain ⟨other, hperm, hnot⟩ := not_agree_of_divided hform hdivided
    exact hnot (h other hperm)
  intro h other hperm
  have hpresent : (other.filterMap id).Perm (values.filterMap id) := hperm.filterMap id
  cases form with
  | baseOverride => exact agree_override hexact hpresent fun hd => h ⟨.inl rfl, hd⟩
  | totalOverride => exact agree_override hexact hpresent fun hd => h ⟨.inr rfl, hd⟩
  | baseSet => exact agree_baseSet hperm
  | baseAdd =>
    obtain ⟨_, _⟩ := hexact
    have heq : aggregate .baseAdd other = aggregate .baseAdd values :=
      congrArg Except.ok (combine_perm (hpresent.map some))
    exact heq ▸ .refl _
  | increase =>
    obtain ⟨_, _⟩ := hexact
    have heq : aggregate .increase other = aggregate .increase values :=
      congrArg Except.ok (combine_perm (hpresent.map _))
    exact heq ▸ .refl _
  | more =>
    obtain ⟨_, _⟩ := hexact
    have heq : aggregate .more other = aggregate .more values :=
      congrArg Except.ok (combine_perm (hpresent.map _))
    exact heq ▸ .refl _

/-- Five, and two numbers that are a bit larger. The one between is near both others, which are apart. -/
def spread (steps : ℚ) : Option (Amount ℚ) := some (single (5 + steps * (8 / 10 ^ 11)))

/-- Overrides that are in conflict in one order are not in another. -/
theorem conflict_in_one_order :
    [spread 0, spread 1, spread 2].Perm [spread 1, spread 0, spread 2]
      ∧ ¬ Agree (aggregate .totalOverride [spread 0, spread 1, spread 2])
        (aggregate .totalOverride [spread 1, spread 0, spread 2]) := by
  have hconflict : aggregate .totalOverride [spread 0, spread 1, spread 2]
      = .error (.conflictingOverrides ([spread 0, spread 1, spread 2].filterMap id)) := by decide +kernel
  have hoverride : aggregate .totalOverride [spread 1, spread 0, spread 2] = .ok (spread 1) := by
    decide +kernel
  rw [hconflict, hoverride]
  exact ⟨.swap .., id⟩

/-- With a zero among them, the numbers agree in this order as in the other one. -/
theorem agree_with_zero : Agree (aggregate .totalOverride [spread 0, none, spread 1, spread 2, some zero])
    (aggregate .totalOverride [spread 1, some zero, spread 0, none, spread 2]) := by
  refine (agree_perm_iff (Form.exact_rat .totalOverride) _).mpr ?_ _ (by decide +kernel)
  rintro ⟨-, -, -, hnonzero⟩
  exact hnonzero zero (by decide +kernel) ⟨by decide +kernel, by decide +kernel⟩

end Aggregation

end StatEngine
