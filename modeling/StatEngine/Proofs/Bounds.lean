import Mathlib.Algebra.BigOperators.Group.List.Basic
import StatEngine.Number.Exact
import StatEngine.Proofs.Reference

/-!
# Sums of exact amounts

With rational numbers the sum of amounts is the sum at each bound, where an absent amount counts zero. So what
a stat sums over its paths can be taken apart and put together with the sums of other stats.

## Main definitions

* `Bound`: the lower and the upper bound of an amount;
* `Amount.numberAt`: the number at a bound, zero for an absent amount.

## Main statements

* `Amount.numberAt_sum`: the sum of amounts is the sum of their numbers at each bound;
* `Stages.uncappedSubtotal_eq`: what is summed over the paths that a lookup answers.
-/

namespace StatEngine

/-- The bounds of an amount. -/
inductive Bound where
  | lower
  | upper
  deriving DecidableEq, Repr

namespace Amount

/-- The number at a bound. -/
def bound {N : Type} (i : Bound) (a : Amount N) : N :=
  match i with
  | .lower => a.minimum
  | .upper => a.maximum

variable {N : Type} (i : Bound)

@[simp]
theorem bound_map (f : N → N) (a : Amount N) : (a.map f).bound i = f (a.bound i) := by
  cases i <;> rfl

@[simp]
theorem bound_zipWith (f : N → N → N) (a b : Amount N) :
    (a.zipWith f b).bound i = f (a.bound i) (b.bound i) := by
  cases i <;> rfl

@[simp]
theorem bound_add (a b : Amount ℚ) : (a + b).bound i = a.bound i + b.bound i := bound_zipWith i _ a b

@[simp]
theorem bound_mul (a b : Amount ℚ) : (a * b).bound i = a.bound i * b.bound i := bound_zipWith i _ a b

@[simp]
theorem bound_zero : (zero : Amount ℚ).bound i = 0 := by
  cases i <;> exact Nat.cast_zero

/-- The number at a bound, zero for an absent amount. -/
def numberAt (value : Option (Amount ℚ)) : ℚ := value.elim 0 (bound i)

@[simp]
theorem numberAt_none : numberAt i none = 0 := rfl

@[simp]
theorem numberAt_some (a : Amount ℚ) : numberAt i (some a) = a.bound i := rfl

theorem numberAt_eq_bound_getD (value : Option (Amount ℚ)) :
    numberAt i value = (value.getD zero).bound i := by
  cases value with
  | none => exact (bound_zero i).symm
  | some a => rfl

theorem numberAt_merge (a b : Option (Amount ℚ)) :
    numberAt i (Option.merge (· + ·) a b) = numberAt i a + numberAt i b := by
  cases a with
  | none => cases b <;> simp
  | some a => cases b <;> simp

/-- Amounts are summed at each bound. -/
theorem numberAt_sum (values : List (Option (Amount ℚ))) :
    numberAt i (Amount.sum values) = (values.map (numberAt i)).sum := by
  have hfold (start : Option (Amount ℚ)) : numberAt i (values.foldl (Option.merge (· + ·)) start)
      = numberAt i start + (values.map (numberAt i)).sum := by
    induction values generalizing start with
    | nil => simp
    | cons value values ih =>
      rw [List.foldl_cons, ih, numberAt_merge, List.map_cons, List.sum_cons, add_assoc]
  rw [Amount.sum, combine_eq_foldl, hfold, numberAt_none, zero_add]

end Amount

/-! ## Reading sums -/

section Pure

variable {M : Type → Type} [Monad M] [LawfulMonad M] {α β γ : Type}

/-- A list of computations that just answer. -/
theorem mapM_eq_pure {f : α → M β} {g : α → β} : ∀ {xs : List α}, (∀ x ∈ xs, f x = pure (g x)) →
    xs.mapM f = pure (xs.map g)
  | [], _ => by rw [List.mapM_nil, List.map_nil]
  | x :: xs, h => by
    have hrest := mapM_eq_pure fun y hy => h y (List.mem_cons_of_mem x hy)
    rw [List.mapM_cons, h x List.mem_cons_self, pure_bind, hrest, pure_bind, List.map_cons]

/-- Steps that just answer, one after the other. -/
theorem foldlM_eq_pure {f : β → α → M β} {g : β → α → β} : ∀ {xs : List α} {b : β},
    (∀ x ∈ xs, ∀ b, f b x = pure (g b x)) → xs.foldlM f b = pure (xs.foldl g b)
  | [], _, _ => by rw [List.foldlM_nil, List.foldl_nil]
  | x :: xs, b, h => by
    rw [List.foldlM_cons, h x List.mem_cons_self, pure_bind, List.foldl_cons]
    exact foldlM_eq_pure fun y hy => h y (List.mem_cons_of_mem x hy)

end Pure

/-- The uncapped subtotal of a stat whose paths and path totals a lookup answers. -/
theorem Stages.uncappedSubtotal_eq {N : Type} [Number N] {m : Type → Type} [Monad m] [LawfulMonad m]
    {l : Lookup N m} {stat : Stat N} {paths : List (Path (Stat N))} {total : Path (Stat N) → Option (Amount N)}
    (hpaths : l.paths stat = pure paths)
    (htotal : ∀ path ∈ paths, l.value stat .pathTotal path = pure (total path)) :
    meaning stat .uncappedSubtotal l = pure (Amount.sum (paths.map total)) := by
  change uncappedSubtotal stat l = _
  rw [uncappedSubtotal, Lookup.valuesOverPaths, hpaths, pure_bind, mapM_eq_pure htotal, pure_bind]

end StatEngine
