import StatEngine.Formula.Evaluation

/-!
# Damage of hits and ailments

The base damage of hits is scaled by the effectiveness stats of the entity. The damage of an ailment
borrows the paths of the hit and its base values, and is increased by what increases the damage type
the ailment deals.
-/

namespace StatEngine.Damage

variable {N : Type} [Number N] {m : Type → Type} [Monad m]

/-- The effectiveness that goes with a stage of the base, if there is one. -/
def effectiveness? (set add : Stat N) : Stage → Option (Stat N)
  | .baseSet => some set
  | .baseAdd => some add
  | _ => none

/-- An amount scaled by the total of an effectiveness stat, which counts as one if it is absent. -/
def scaled (l : Lookup N m) (effectiveness : Stat N) : Option (Amount N) →
    Reading N m (Option (Amount N))
  | none => return none
  | some value => return some (value * (← l.total effectiveness).getD Amount.one)

/-- The set and added base of hit damage is scaled by the effectiveness stats of the entity. -/
def scaledBase (damage : StatKey) (entity : Entity) (inner : Meaning N m) : Meaning N m := fun l => do
  let set ← l.derived (.baseSetEffectiveness entity)
  let add ← l.derived (.baseAddEffectiveness entity)
  inner { l with
    value := fun stat stage path => do
      let value ← l.value stat stage path
      if stat.key != damage then return value
      match effectiveness? set add stage with
      | some effectiveness => scaled l effectiveness value
      | none => return value }

/-- The ailment has the paths of the hit. -/
def hitPaths (ailment : StatKey) (hit : Stat N) (inner : Meaning N m) : Meaning N m := fun l =>
  inner { l with paths := fun stat => l.paths (if stat.key = ailment then hit else stat) }

/-- The set and added base of the ailment is that of the hit, scaled by the effectiveness stats. -/
def hitBase (ailment : StatKey) (hit : Stat N) (inner : Meaning N m) : Meaning N m := fun l => do
  let set ← l.derived (.baseSetEffectiveness hit.key.entity)
  let add ← l.derived (.baseAddEffectiveness hit.key.entity)
  inner { l with
    value := fun stat stage path => do
      if stat.key != ailment then l.value stat stage path
      else
        match effectiveness? set add stage with
        | some effectiveness => scaled l effectiveness (← l.value hit stage path)
        | none => l.value stat stage path }

/-- The damage type that a value selects. -/
def selected? (value : Option (Amount N)) : Option DamageType := do
  DamageType.all[← Number.index (← value).midpoint]?

/-- The places with `other` put after every place of the stat `key`. -/
def withOther (key : StatKey) (other : Stat N) (places : List (Place N)) : List (Place N) :=
  places.flatMap fun (stat, path) =>
    if stat.key = key then [(stat, path), (other, path)] else [(stat, path)]

/-- What increases the damage of the type the ailment deals increases the ailment too. -/
def dealtIncrease (damage : StatKey) (entity : Entity) (ailment : Ailment) (inner : Meaning N m) :
    Meaning N m := fun l => do
  match selected? (← l.derivedTotal (.ailmentDamageType entity ailment)) with
  | none => inner l
  | some dealt =>
    let other ← l.derived (.ailmentDamage entity dealt ailment)
    if other.key = damage then inner l
    else
      inner { l with
        values := fun form places =>
          match form with
          | .increase | .more => l.values form (withOther damage other places)
          | _ => l.values form places }

end StatEngine.Damage
