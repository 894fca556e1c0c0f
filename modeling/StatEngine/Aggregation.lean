import StatEngine.Fault

/-!
# Aggregation

How the values of the modifiers of one form combine into one amount. Absent values are ignored, and
without a present one every form is absent.

| form | aggregate |
|---|---|
| increase | the sum of the values as parts per hundred |
| more | the product of one plus each value as part per hundred |
| base add | the sum of the values |
| base set | per bound, the single contributor that is not near zero |
| base override, total override | the single distinct value, or zero if one of them is exactly zero |
-/

namespace StatEngine

namespace Aggregation

variable {N : Type} [Number N]

/-- Of one bound of all contributors, the only one that is not near zero, or zero without one.
There is no answer if there are several. -/
def onlyNonZero (bounds : List N) : Option N :=
  match bounds.filter fun b => !(Amount.single b).isNearZero with
  | [] => some Number.zero
  | [b] => some b
  | _ => none

/-- The base set by the contributors, each bound by at most one of them. -/
def baseSet (values : List (Amount N)) : Except (Fault N) (Option (Amount N)) :=
  if values.isEmpty then .ok none
  else
    match onlyNonZero (values.map (·.minimum)), onlyNonZero (values.map (·.maximum)) with
    | some minimum, some maximum => .ok (some ⟨minimum, maximum⟩)
    | _, _ => .error (.ambiguousBaseSet values)

/-- The values without those near an earlier one that was kept. -/
def distinct (values : List (Amount N)) : List (Amount N) :=
  values.foldl (fun kept v => if kept.any (·.near v) then kept else kept ++ [v]) []

/-- The value that overrides: the only distinct one, or zero if some contributor is exactly zero. -/
def override (values : List (Amount N)) : Except (Fault N) (Option (Amount N)) :=
  match distinct values with
  | [] => .ok none
  | [v] => .ok (some v)
  | _ =>
    if values.any fun v => Number.isZero v.minimum && Number.isZero v.maximum then
      .ok (some Amount.zero)
    else .error (.conflictingOverrides values)

end Aggregation

open Aggregation in
/-- The aggregate of the modifier values of one form. -/
def aggregate {N : Type} [Number N] (form : Form) (values : List (Option (Amount N))) :
    Except (Fault N) (Option (Amount N)) :=
  let present := values.filterMap id
  match form with
  | .increase => .ok (Amount.sum (present.map fun v => some v.percent))
  | .more => .ok (Amount.product (present.map fun v => some (v.percent.map (Number.one + ·))))
  | .baseAdd => .ok (Amount.sum (present.map some))
  | .baseSet => baseSet present
  | .baseOverride | .totalOverride => override present

end StatEngine
