import StatEngine.Formula.Stages

/-!
# Evaluation of formulas

`Formula.eval` computes a formula against a lookup. Operands are evaluated from left to right, all of
them unless the formula chooses between them, and the first fault ends the evaluation.
-/

namespace StatEngine.Formula

variable {N : Type} [Number N] {m : Type → Type} [Monad m]

/-- The places a formula names, a missing path being the one that is computed. -/
def places (l : Lookup N m) (ps : List (Stat N × Option (Path (Stat N)))) : List (Place N) :=
  ps.map fun (stat, path) => (stat, path.getD l.path)

/-- The amount of a count. -/
def count (n : Nat) : Option (Amount N) := some (Amount.single (Number.ofNat n))

/-- Combine two amounts that are both present. -/
def both (f : Amount N → Amount N → Amount N) (a b : Option (Amount N)) : Option (Amount N) :=
  match a, b with
  | some a, some b => some (f a b)
  | _, _ => none

mutual

/-- What a formula computes. -/
def eval : Formula N → Meaning N m
  | .constant v => fun _ => pure v
  | .stage stat s => Stages.meaning stat s
  | .total stat => fun l => l.total stat
  | .optionalTotal stat => fun l => l.optionalTotal stat
  | .mainValue stat s => fun l => l.mainValue stat s
  | .value stat s path => fun l => l.value stat s (path.getD l.path)
  | .sumOverPaths stat s => fun l => return Amount.sum (← l.valuesOverPaths stat s)
  | .sumOfForm form stat => fun l => return Amount.sum (← l.formValues form stat)
  | .aggregated form ps => fun l => do
    Reading.ofExcept (aggregate form (← l.values form (places l ps)))
  | .countValues form ps => fun l => return count (← l.values form (places l ps)).length
  | .countPaths stat => fun l => return count (← l.paths stat).length
  | .onMainPath => fun l => return count (if l.path.isMain then 1 else 0)
  | .add operands => fun l => return Amount.sum (← evalAll operands l)
  | .multiply operands => fun l => return Amount.product (← evalAll operands l)
  | .subtract left right => fun l => return both (· - ·) (← left.eval l) (← right.eval l)
  | .divide left right => fun l => return both (· / ·) (← left.eval l) (← right.eval l)
  | .orElse first second => fun l => do
    match ← first.eval l with
    | some v => return some v
    | none => second.eval l
  | .ifNonZero condition yes no => fun l => do
    match ← condition.eval l with
    | some v => if v.isNearZero then no.eval l else yes.eval l
    | none => no.eval l
  | .noted name operand => fun l => do
    l.note ("call " ++ name)
    operand.eval l
  | .fail fault => fun _ => throw fault

/-- What the operands of a formula compute, in order. -/
def evalAll : List (Formula N) → Lookup N m → Reading N m (List (Option (Amount N)))
  | [], _ => pure []
  | operand :: rest, l => do
    let v ← operand.eval l
    let vs ← evalAll rest l
    return v :: vs

end

end StatEngine.Formula
