import Mathlib.Algebra.BigOperators.Ring.List
import Mathlib.Tactic.FieldSimp
import Mathlib.Tactic.Linarith
import StatEngine.Behavior.Effect
import StatEngine.Proofs.Bounds

/-!
# Shares of a conversion

How much of a source is converted to a target is a stat of its own, the share of the target. The shares of a
source are scaled down if they come to more than a hundred percent: then they come to a hundred, of which the
conversions by skills have what they ask for, as far as it goes, and the others have the rest. Shares that come
to a hundred or less are not scaled.

## Main definitions

* `Conversion.Shares`: what a context answers about the shares of a source;
* `Conversion.Shares.scaled`: what a path contributes to a share.

## Main statements

* `Conversion.scale_eq_min`: the two factors are chosen so that the scaled parts come to a hundred;
* `Conversion.Shares.normalized_shares`: the shares of a source come to what is converted, and to a hundred at
  most.
-/

namespace StatEngine.Conversion

open Amount

/-! ## The factors -/

theorem hundred_eq : (Number.hundred : ℚ) = 100 := rfl

theorem skillFactor_of_le {skill all : ℚ} (h : all ≤ 100 ∨ skill ≤ 100) : skillFactor skill all = 1 := by
  refine (if_neg ?_).trans Nat.cast_one
  rw [hundred_eq]
  rintro ⟨hall, hskill⟩
  exact h.elim (fun h => absurd hall (not_lt.mpr h)) fun h => absurd hskill (not_lt.mpr h)

theorem skillFactor_of_lt {skill all : ℚ} (hall : 100 < all) (hskill : 100 < skill) :
    skillFactor skill all = 100 / skill := if_pos ⟨hall, hskill⟩

theorem otherFactor_of_le {skill all : ℚ} (h : all ≤ 100) : otherFactor skill all = 1 :=
  (if_pos h).trans Nat.cast_one

theorem otherFactor_of_skill {skill all : ℚ} (hall : 100 < all) (hskill : 100 ≤ skill) :
    otherFactor skill all = 0 :=
  (if_neg (not_le.mpr hall)).trans ((if_pos hskill).trans Nat.cast_zero)

theorem otherFactor_of_lt {skill all : ℚ} (hall : 100 < all) (hskill : skill < 100) :
    otherFactor skill all = (100 - skill) / (all - skill) :=
  (if_neg (not_le.mpr hall)).trans (if_neg (not_le.mpr hskill))

/-- What skills convert and what others convert, each scaled by its factor, comes to all that is converted, and
to a hundred at most. -/
theorem scale_eq_min (skill all : ℚ) :
    skill * skillFactor skill all + (all - skill) * otherFactor skill all = min all 100 := by
  rcases le_or_gt all 100 with hall | hall
  · rw [skillFactor_of_le (.inl hall), otherFactor_of_le hall, min_eq_left hall]
    ring
  · rw [min_eq_right hall.le]
    rcases lt_trichotomy skill 100 with hskill | rfl | hskill
    · have hrest : all - skill ≠ 0 := by linarith
      rw [skillFactor_of_le (.inr hskill.le), otherFactor_of_lt hall hskill]
      field_simp
      ring
    · rw [skillFactor_of_le (.inr le_rfl), otherFactor_of_skill hall le_rfl]
      ring
    · have hpositive : skill ≠ 0 := by linarith
      rw [skillFactor_of_lt hall hskill, otherFactor_of_skill hall hskill.le]
      field_simp
      ring

/-! ## Division by zero -/

/-- Rational numbers where dividing by zero results in anything. -/
abbrev dividing (byZero : ℚ → ℚ) : Number ℚ :=
  { (inferInstance : Number ℚ) with div := fun a b => if b = 0 then byZero a else a / b }

/-- The factors divide by no zero: it makes no difference what that would result in. -/
theorem skillFactor_dividing (byZero : ℚ → ℚ) : @skillFactor ℚ (dividing byZero) = skillFactor := by
  funext skill all
  change (if all > 100 ∧ skill > 100 then if skill = 0 then byZero 100 else 100 / skill else _) = _
  refine ite_congr rfl (fun h => if_neg ?_) fun _ => rfl
  have hskill : skill > 100 := h.2
  linarith

theorem otherFactor_dividing (byZero : ℚ → ℚ) : @otherFactor ℚ (dividing byZero) = otherFactor := by
  funext skill all
  change (if all ≤ 100 then _ else if skill ≥ 100 then _
    else if all - skill = 0 then byZero (100 - skill) else (100 - skill) / (all - skill)) = _
  refine ite_congr rfl (fun _ => rfl) fun hall => ite_congr rfl (fun _ => rfl) fun hskill => if_neg ?_
  have hall : ¬ all ≤ 100 := hall
  have hskill : ¬ skill ≥ 100 := hskill
  linarith

/-- What is computed under the scaling of shares divides by no zero either. -/
theorem normalizedShare_dividing {m : Type → Type} [Monad m] (byZero : ℚ → ℚ) (source : Stat ℚ)
    (share : StatKey) (inner : Meaning ℚ m) :
    @Effect.apply ℚ (dividing byZero) m _ (.normalizedShare source share) inner
      = Effect.apply (.normalizedShare source share) inner := by
  change @normalizedShare ℚ (dividing byZero) m _ source share inner = normalizedShare source share inner
  unfold normalizedShare
  rw [skillFactor_dividing, otherFactor_dividing]
  rfl

/-! ## The shares of a source -/

variable {m : Type → Type} [Monad m] {l : Lookup ℚ m} {source : Stat ℚ}
  {targets : List (Stat ℚ)}

/-- What a context answers about the shares of a source that go to some targets. -/
structure Shares (l : Lookup ℚ m) (source : Stat ℚ) (targets : List (Stat ℚ)) where
  /-- The share of a target. -/
  share : Stat ℚ → Stat ℚ
  /-- The paths of the share of a target. -/
  paths : Stat ℚ → List (Path (Stat ℚ))
  /-- The path totals of the share of a target. -/
  total : Stat ℚ → Path (Stat ℚ) → Option (Amount ℚ)
  /-- How much is converted to anything. -/
  all : Option (Amount ℚ)
  /-- How much skills convert. -/
  skill : Option (Amount ℚ)
  share_key : ∀ target ∈ targets, (share target).key = (MetaStat.convertTo source target).key
  read_paths : ∀ target ∈ targets, l.paths (share target) = pure (paths target)
  read_total : ∀ target ∈ targets, ∀ path ∈ paths target,
    l.value (share target) .pathTotal path = pure (total target path)
  read_all : l.derivedTotal (.conversion source) = pure all
  read_skill : l.derivedTotal (.skillConversion source) = pure skill

namespace Shares

variable (r : Shares l source targets)

/-- What a value on a path contributes to a share. -/
def scaled (path : Path (Stat ℚ)) (value : Option (Amount ℚ)) : Option (Amount ℚ) :=
  match r.all with
  | none => value
  | some all =>
    let skill := r.skill.getD zero
    value.map (· * if path.source.isSkill then skill.zipWith skillFactor all else skill.zipWith otherFactor all)

/-- The share of a target after it is scaled. -/
def normalized (target : Stat ℚ) : Option (Amount ℚ) :=
  Amount.sum ((r.paths target).map fun path => r.scaled path (r.total target path))

/-- What the path totals of all shares come to on some of the paths. -/
def sumOf (counts : Path (Stat ℚ) → Bool) (i : Bound) : ℚ :=
  (targets.map fun target =>
    (((r.paths target).filter counts).map fun path => numberAt i (r.total target path)).sum).sum

variable {r}

/-- The factor that scales the values of a path at a bound. -/
def factor (r : Shares l source targets) (i : Bound) (path : Path (Stat ℚ)) : ℚ :=
  if path.source.isSkill then skillFactor (numberAt i r.skill) (numberAt i r.all)
  else otherFactor (numberAt i r.skill) (numberAt i r.all)

/-- Values are scaled at each bound. Where nothing is converted, the factors are one. -/
theorem numberAt_scaled (i : Bound) (path : Path (Stat ℚ)) (value : Option (Amount ℚ)) :
    numberAt i (r.scaled path value) = numberAt i value * r.factor i path := by
  unfold scaled factor
  cases hall : r.all with
  | none =>
    have hzero : numberAt i (none : Option (Amount ℚ)) ≤ 100 := by norm_num
    rw [skillFactor_of_le (.inl hzero), otherFactor_of_le hzero, ite_self, mul_one]
  | some all =>
    rw [numberAt_eq_bound_getD i r.skill, numberAt_some]
    cases value with
    | none => exact (zero_mul _).symm
    | some value =>
      change bound i (value * if _ then _ else _) = bound i value * _
      rw [bound_mul]
      split_ifs <;> rw [bound_zipWith]

/-- Up to a hundred percent every value passes as it is. -/
theorem numberAt_scaled_of_le {i : Bound} (h : numberAt i r.all ≤ 100) (path : Path (Stat ℚ))
    (value : Option (Amount ℚ)) : numberAt i (r.scaled path value) = numberAt i value := by
  rw [numberAt_scaled, factor, skillFactor_of_le (.inl h), otherFactor_of_le h, ite_self, mul_one]

/-- When skills alone convert a hundred percent and something is left over, nothing else counts. -/
theorem numberAt_scaled_of_skill {i : Bound} (hall : 100 < numberAt i r.all)
    (hskill : 100 ≤ numberAt i r.skill) {path : Path (Stat ℚ)} (hpath : path.source.isSkill = false)
    (value : Option (Amount ℚ)) : numberAt i (r.scaled path value) = 0 := by
  rw [numberAt_scaled, factor, otherFactor_of_skill hall hskill, hpath, if_neg Bool.false_ne_true, mul_zero]

/-! ### What is computed under the effect -/

variable [LawfulMonad m]

omit [LawfulMonad m] in
/-- What a formula looks up under the effect on a share. -/
def seen (r : Shares l source targets) (share : StatKey) : Lookup ℚ m :=
  { l with
    value := fun stat stage path => do
      let value ← l.value stat stage path
      if stat.key != share || stage != .pathTotal then return value
      return r.scaled path value }

/-- Every formula is computed from what is seen under the effect. -/
theorem apply_eq (r : Shares l source targets) (share : StatKey) (inner : Meaning ℚ m) :
    (Effect.normalizedShare source share).apply inner l = inner (r.seen share) := by
  change normalizedShare source share inner l = _
  rw [normalizedShare, r.read_all, pure_bind]
  unfold seen scaled
  cases r.all with
  | none => simp
  | some all =>
    dsimp only
    rw [r.read_skill, pure_bind]

theorem seen_value {target : Stat ℚ} (htarget : target ∈ targets) {path : Path (Stat ℚ)}
    (hpath : path ∈ r.paths target) :
    (r.seen (MetaStat.convertTo source target).key).value (r.share target) .pathTotal path
      = pure (r.scaled path (r.total target path)) := by
  simp only [seen, r.read_total target htarget path hpath, r.share_key target htarget, pure_bind, bne_self_eq_false,
    Bool.or_self, Bool.false_eq_true, if_false]

/-- The uncapped subtotal of a share under the effect. -/
theorem apply_uncappedSubtotal {target : Stat ℚ} (htarget : target ∈ targets) :
    (Effect.normalizedShare source (MetaStat.convertTo source target).key).apply
      (Stages.meaning (r.share target) .uncappedSubtotal) l = pure (r.normalized target) := by
  rw [r.apply_eq]
  have hpaths : (r.seen (MetaStat.convertTo source target).key).paths (r.share target)
      = pure (r.paths target) := r.read_paths target htarget
  exact Stages.uncappedSubtotal_eq hpaths fun path hpath => seen_value htarget hpath

/-! ### What the shares come to -/

/-- Values of two kinds, each scaled by the factor of its kind. -/
theorem sum_map_mul_ite {α : Type} (xs : List α) (p : α → Bool) (f : α → ℚ) (a b : ℚ) :
    (xs.map fun x => f x * if p x then a else b).sum
      = ((xs.filter p).map f).sum * a + ((xs.filter (! p ·)).map f).sum * b := by
  simp only [mul_ite]
  rw [List.sum_map_ite, List.sum_map_mul_right, List.sum_map_mul_right]
  simp only [Bool.decide_eq_true, Bool.not_eq_true, Bool.decide_eq_false]

omit [LawfulMonad m] in
/-- The shares come to what skills convert and what others convert, each scaled by its factor. -/
theorem sum_normalized (r : Shares l source targets) (i : Bound) :
    (targets.map fun target => numberAt i (r.normalized target)).sum
      = r.sumOf (·.source.isSkill) i * skillFactor (numberAt i r.skill) (numberAt i r.all)
        + r.sumOf (! ·.source.isSkill) i * otherFactor (numberAt i r.skill) (numberAt i r.all) := by
  have hshare (target : Stat ℚ) : numberAt i (r.normalized target)
      = (((r.paths target).filter (·.source.isSkill)).map fun path => numberAt i (r.total target path)).sum
          * skillFactor (numberAt i r.skill) (numberAt i r.all)
        + (((r.paths target).filter (! ·.source.isSkill)).map fun path => numberAt i (r.total target path)).sum
          * otherFactor (numberAt i r.skill) (numberAt i r.all) := by
    rw [normalized, numberAt_sum, List.map_map, ← sum_map_mul_ite]
    refine congrArg List.sum (List.map_congr_left fun path _ => ?_)
    rw [Function.comp_apply, numberAt_scaled, factor]
  simp only [hshare, List.sum_map_add, List.sum_map_mul_right, sumOf]

/-- The shares of a source, under the effect that scales them, come to what is converted and to a hundred
percent at most, at each bound. Up to a hundred percent they are as they were; above it nothing but skills
counts where skills reach a hundred; and nothing is divided by zero on the way. -/
theorem normalized_shares (r : Shares l source targets)
    (hskill : ∀ i, r.sumOf (·.source.isSkill) i = numberAt i r.skill)
    (hother : ∀ i, r.sumOf (! ·.source.isSkill) i = numberAt i r.all - numberAt i r.skill) :
    (∀ target ∈ targets,
      (Effect.normalizedShare source (MetaStat.convertTo source target).key).apply
          (Stages.meaning (r.share target) .uncappedSubtotal) l = pure (r.normalized target)
        ∧ ∀ path ∈ r.paths target,
          (Effect.normalizedShare source (MetaStat.convertTo source target).key).apply
              (fun seen => seen.value (r.share target) .pathTotal path) l
            = pure (r.scaled path (r.total target path)))
      ∧ (∀ i, (targets.map fun target => numberAt i (r.normalized target)).sum = min (numberAt i r.all) 100)
      ∧ (∀ i, 100 < numberAt i r.all → 100 ≤ numberAt i r.skill → ∀ path : Path (Stat ℚ),
        path.source.isSkill = false → ∀ value, numberAt i (r.scaled path value) = 0)
      ∧ (∀ i, numberAt i r.all ≤ 100 → ∀ path value, numberAt i (r.scaled path value) = numberAt i value)
      ∧ ∀ byZero share (inner : Meaning ℚ m),
        @Effect.apply ℚ (dividing byZero) m _ (.normalizedShare source share) inner
          = Effect.apply (.normalizedShare source share) inner := by
  refine ⟨fun target htarget => ⟨apply_uncappedSubtotal htarget, fun path hpath => ?_⟩, fun i => ?_,
    fun i hall hskill path hpath value => numberAt_scaled_of_skill hall hskill hpath value,
    fun i hall path value => numberAt_scaled_of_le hall path value,
    fun byZero share inner => normalizedShare_dividing byZero source share inner⟩
  · rw [r.apply_eq]
    exact seen_value htarget hpath
  · rw [sum_normalized, hskill, hother, scale_eq_min]

end Shares

/-- The path of a skill. -/
def skillPath : Path (Stat ℚ) := .ofSource (.particular (.skill "Fireball"))

/-- A context in which every stat has two paths. On each of them a skill converts fifty to a hundred percent,
and something else takes some of it away or adds to it. All that two shares convert is fifty to two hundred and
fifty percent. -/
def bySkillAndOther : Lookup ℚ Id where
  path := .main
  paths _ := pure [skillPath, .main]
  value stat stage path := pure <| some <|
    match stage with
    | .pathTotal => if path.source.isSkill then ⟨50, 100⟩ else ⟨-25, 25⟩
    | _ => if stat.listed then ⟨50, 250⟩ else ⟨100, 200⟩
  values _ _ := pure []
  derived request := pure
    { Stat.plain request.key with listed := match request with | .conversion _ => true | _ => false }
  note _ := ()

/-- The shares of two targets in this context. -/
def sharesBySkillAndOther : Shares bySkillAndOther (.plain ⟨"Physical", .character⟩)
    [.plain ⟨"Fire", .character⟩, .plain ⟨"Cold", .character⟩] where
  share target := .plain (MetaStat.convertTo (.plain ⟨"Physical", .character⟩) target).key
  paths _ := [skillPath, .main]
  total _ path := some (if path.source.isSkill then ⟨50, 100⟩ else ⟨-25, 25⟩)
  all := some ⟨50, 250⟩
  skill := some ⟨100, 200⟩
  share_key _ _ := rfl
  read_paths _ _ := rfl
  read_total _ _ _ _ := rfl
  read_all := rfl
  read_skill := rfl

/-- At the lower bound the shares are left as they are, at the upper bound they come to a hundred. -/
theorem normalized_shares_bySkillAndOther :
    (∀ i, sharesBySkillAndOther.sumOf (·.source.isSkill) i = numberAt i sharesBySkillAndOther.skill)
      ∧ (∀ i, sharesBySkillAndOther.sumOf (! ·.source.isSkill) i
        = numberAt i sharesBySkillAndOther.all - numberAt i sharesBySkillAndOther.skill)
      ∧ numberAt .lower (sharesBySkillAndOther.normalized (.plain ⟨"Fire", .character⟩))
        + numberAt .lower (sharesBySkillAndOther.normalized (.plain ⟨"Cold", .character⟩)) = 50
      ∧ numberAt .upper (sharesBySkillAndOther.normalized (.plain ⟨"Fire", .character⟩))
        + numberAt .upper (sharesBySkillAndOther.normalized (.plain ⟨"Cold", .character⟩)) = 100 := by
  have hskill (i : Bound) : sharesBySkillAndOther.sumOf (·.source.isSkill) i
      = numberAt i sharesBySkillAndOther.skill := by
    cases i <;> decide +kernel
  have hother (i : Bound) : sharesBySkillAndOther.sumOf (! ·.source.isSkill) i
      = numberAt i sharesBySkillAndOther.all - numberAt i sharesBySkillAndOther.skill := by
    cases i <;> decide +kernel
  have hsum := (sharesBySkillAndOther.normalized_shares hskill hother).2.1
  have hpair (i : Bound) : numberAt i (sharesBySkillAndOther.normalized (.plain ⟨"Fire", .character⟩))
      + numberAt i (sharesBySkillAndOther.normalized (.plain ⟨"Cold", .character⟩))
      = min (numberAt i sharesBySkillAndOther.all) 100 := by
    rw [← hsum i, List.map_cons, List.map_singleton, List.sum_pair]
  refine ⟨hskill, hother, (hpair .lower).trans ?_, (hpair .upper).trans ?_⟩
  · exact min_eq_left (by decide +kernel)
  · exact min_eq_right (by decide +kernel)

end StatEngine.Conversion
