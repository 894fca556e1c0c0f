import StatEngine.Formula.Lookup

/-!
# The formulas of the stages

```text
Total            = TotalOverride, or else Subtotal
Subtotal         = UncappedSubtotal clipped to the total of Minimum and that of Maximum
UncappedSubtotal = the sum of PathTotal over the paths of the stat
PathTotal        = Base * (1 + Increase) * More
Base             = BaseOverride, or else BaseSet + BaseAdd, or else BaseAdd
```

The stages of forms aggregate the modifiers of their form (`Stages.modifierPlaces`).
-/

namespace StatEngine.Stages

variable {N : Type} [Number N] {m : Type → Type} [Monad m]

/-- The total is what overrides it, or the subtotal. -/
def total (stat : Stat N) : Meaning N m := fun l => do
  match ← l.mainValue stat .totalOverride with
  | some value => return some value
  | none => l.mainValue stat .subtotal

/-- The subtotal is the uncapped one moved between the totals of the stats that bound it. An uncapped
subtotal near zero is zero, whatever the bounds. -/
def subtotal (stat : Stat N) : Meaning N m := fun l => do
  match ← l.mainValue stat .uncappedSubtotal with
  | none => return none
  | some uncapped =>
    if uncapped.isNearZero then return some Amount.zero
    else
      let lower ← l.optionalTotal stat.minimum
      let upper ← l.optionalTotal stat.maximum
      return some (uncapped.clip (lower.map (·.minimum)) (upper.map (·.maximum)))

/-- The uncapped subtotal is the sum over the paths. -/
def uncappedSubtotal (stat : Stat N) : Meaning N m := fun l => do
  return Amount.sum (← l.valuesOverPaths stat .pathTotal)

/-- The value of a path is its base with all increases; it is absent if the base is. -/
def pathTotal (stat : Stat N) : Meaning N m := fun l => do
  match ← l.value stat .base l.path with
  | none => return none
  | some base =>
    let increase := (← l.value stat .increase l.path).getD Amount.zero
    let more := (← l.value stat .more l.path).getD Amount.one
    return some (base * increase.map (Number.one + ·) * more)

/-- The base is what overrides it, or what is set and added. -/
def base (stat : Stat N) : Meaning N m := fun l => do
  match ← l.value stat .baseOverride l.path with
  | some value => return some value
  | none =>
    let set ← l.value stat .baseSet l.path
    let add ← l.value stat .baseAdd l.path
    return match set with
      | some set => some (set + add.getD Amount.zero)
      | none => add

/-- The places whose modifiers of a form apply on a path. Increases of every influencing source apply,
and those to the stats a value was converted from apply to the converted value too. -/
def modifierPlaces (stat : Stat N) (form : Form) (path : Path (Stat N)) : List (Place N) :=
  match form with
  | .totalOverride => [(stat, Path.main)]
  | .baseOverride | .baseSet | .baseAdd => [(stat, path)]
  | .increase | .more =>
    path.source.influencing.flatMap fun source =>
      (stat :: path.via).map fun s => (s, Path.ofSource source)

/-- The aggregate of the modifiers of a form. -/
def aggregated (stat : Stat N) (form : Form) : Meaning N m := fun l => do
  Reading.ofExcept (aggregate form (← l.values form (modifierPlaces stat form l.path)))

/-- What a stage of a stat computes. -/
def meaning (stat : Stat N) : Stage → Meaning N m
  | .total => total stat
  | .subtotal => subtotal stat
  | .uncappedSubtotal => uncappedSubtotal stat
  | .pathTotal => pathTotal stat
  | .base => base stat
  | .baseOverride => aggregated stat .baseOverride
  | .baseSet => aggregated stat .baseSet
  | .baseAdd => aggregated stat .baseAdd
  | .increase => aggregated stat .increase
  | .more => aggregated stat .more
  | .totalOverride => aggregated stat .totalOverride

end StatEngine.Stages
