import StatEngine.Stat

/-!
# Meta stats

Game mechanics such as conversion or regeneration are stats derived from other stats, whose behaviors
implement the mechanic. A `MetaStat` names such a stat by what it is derived from, and a `Catalog`
makes it: the first request for an identity decides what belongs to it, and every later one is
answered with the same stat. Behaviors are kept by name in the same way, so stats that declare the
same behavior share one transformation.
-/

namespace StatEngine

/-- A stat derived from other stats or from things of the game. -/
inductive MetaStat (N : Type) where
  /-- The percentage of a source that is converted to a target. -/
  | convertTo (source target : Stat N)
  /-- The percentage of a source that is gained as a target. -/
  | gainAs (source target : Stat N)
  /-- The percentage of a source that is converted to anything. -/
  | conversion (source : Stat N)
  /-- The percentage of a source that skills convert. -/
  | skillConversion (source : Stat N)
  /-- The regeneration of a pool. -/
  | regen (entity : Entity) (pool : Pool)
  /-- The pool that the regeneration of a pool goes to. -/
  | regenTarget (entity : Entity) (pool : Pool)
  /-- What a stat is required to be. -/
  | requirement (stat : Stat N)
  /-- A property of the item in a slot. -/
  | itemProperty (stat : Stat N) (slot : Slot)
  /-- The slot of the item an active skill is in. -/
  | activeSkillSlot (entity : Entity) (skill : String)
  /-- The damage of hits. -/
  | hitDamage (entity : Entity) (damage : DamageType)
  /-- The damage of an ailment. -/
  | ailmentDamage (entity : Entity) (damage : DamageType) (ailment : Ailment)
  /-- The damage type an ailment deals. -/
  | ailmentDamageType (entity : Entity) (ailment : Ailment)
  /-- The effectiveness of set damage. -/
  | baseSetEffectiveness (entity : Entity)
  /-- The effectiveness of added damage. -/
  | baseAddEffectiveness (entity : Entity)
  /-- The percentage by which modifiers to `other` apply to a stat. -/
  | affectedBy (stat other : Stat N) (form : Form)

namespace MetaStat

variable {N : Type}

/-- The identity of a meta stat. -/
def key : MetaStat N → StatKey
  | convertTo source target => source.key.child ("ConvertTo(" ++ target.key.id ++ ")")
  | gainAs source target => source.key.child ("GainAs(" ++ target.key.id ++ ")")
  | conversion source => source.key.child "Conversion"
  | skillConversion source => source.key.child "SkillConversion"
  | regen entity pool => ⟨pool.name ++ ".Regen", entity⟩
  | regenTarget entity pool => ⟨pool.name ++ ".Regen.TargetPool", entity⟩
  | requirement stat => stat.key.child "Required"
  | itemProperty stat slot => stat.key.child slot.name
  | activeSkillSlot entity skill => ⟨skill ++ ".ActiveSkillItemSlot", entity⟩
  | hitDamage entity damage => ⟨damage.name ++ ".Damage.Hit", entity⟩
  | ailmentDamage entity damage ailment => ⟨damage.name ++ ".Damage." ++ ailment.name, entity⟩
  | ailmentDamageType entity ailment => ⟨ailment.name ++ ".DamageType", entity⟩
  | baseSetEffectiveness entity => ⟨"DamageBaseSetEffectiveness", entity⟩
  | baseAddEffectiveness entity => ⟨"DamageBaseAddEffectiveness", entity⟩
  | affectedBy stat other form =>
    stat.key.child ("AffectedByModifiersTo(" ++ other.key.id ++ ")." ++ form.name)

end MetaStat

/-- The meta stats made so far, and the behaviors made for them by name. -/
structure Catalog (N : Type) where
  /-- The stats, in the order they were made. -/
  stats : List (Stat N)
  /-- The behaviors under their names, in the order they were made. -/
  behaviors : List (String × Behavior N)

namespace Catalog

variable {N : Type}

/-- A catalog of nothing. -/
def empty : Catalog N := ⟨[], []⟩

/-- The stat with a key, if it was made. -/
def find? (c : Catalog N) (key : StatKey) : Option (Stat N) := c.stats.find? (·.key == key)

/-- The behavior under a name, if it was made. -/
def behavior? (c : Catalog N) (name : String) : Option (Behavior N) :=
  (c.behaviors.find? (·.1 == name)).map (·.2)

/-- Computations that may add to a catalog. -/
abbrev Making (N : Type) := StateM (Catalog N)

/-- The behavior under a name, made if it is missing. -/
def behavior (name : String) (stats : List StatKey) (stages : List Stage) (rule : PathRule)
    (effect : Effect N) : Making N (Behavior N) := fun c =>
  match c.behavior? name with
  | some b => (b, c)
  | none =>
    let b : Behavior N := ⟨stats, stages, rule, ⟨.cataloged name, effect⟩⟩
    (b, { c with behaviors := c.behaviors ++ [(name, b)] })

/-- The behavior under a name that affects one stat on all its paths, the name being that of the
mechanic with the key of the stat. -/
def ownBehavior (mechanic : String) (key : StatKey) (stages : List Stage) (rule : PathRule)
    (effect : Effect N) : Making N (Behavior N) :=
  behavior (mechanic ++ "(" ++ key.text ++ ")") [key] stages rule effect

/-- The stat with a key, made if it is missing. -/
def stat (key : StatKey) (make : Stat N → Making N (Stat N)) : Making N (Stat N) := fun c =>
  match c.find? key with
  | some s => (s, c)
  | none =>
    let (s, c) := make (Stat.plain key) c
    match c.find? key with
    | some s => (s, c)
    | none => (s, { c with stats := c.stats ++ [s] })

/-- Converted values reach the target's base on the paths that come from the source. -/
def convertedBase (source target : Stat N) : Making N (Behavior N) :=
  behavior ("ConversionTargetBase(" ++ source.key.text ++ "," ++ target.key.text ++ ")")
    [target.key] [.base] (.conversionFrom source.key) (.convertedBase source target)

/-- The target has the paths of the source. -/
def convertedPaths (source target : Stat N) : Making N (Behavior N) :=
  behavior ("ConversionTargetUncappedSubtotal(" ++ source.key.text ++ "," ++ target.key.text ++ ")")
    [target.key] [.uncappedSubtotal] .all (.convertedPaths source target.key)

/-- The source loses what is converted. -/
def unconverted (source : Stat N) : Making N (Behavior N) :=
  ownBehavior "ConversionSourcePathTotal" source.key [.pathTotal] .all (.unconverted source)

/-- The damage of hits, whose base is scaled by the effectiveness of added damage. -/
def hitDamage (entity : Entity) (damage : DamageType) : Making N (Stat N) :=
  stat (MetaStat.hitDamage (N := N) entity damage).key fun s => do
    let scaled ← ownBehavior "DamageEffectivenessBase" s.key [.base] .nonConversion
      (.damageEffectiveness s.key entity)
    return { s with behaviors := [scaled] }

/-- The stat a request names, made if it is missing. -/
def get (request : MetaStat N) : Making N (Stat N) :=
  match request with
  | .convertTo source target => stat request.key fun s => do
    let base ← convertedBase source target
    let paths ← convertedPaths source target
    let rest ← unconverted source
    let share ← ownBehavior "ConvertToUncappedSubtotal" s.key [.uncappedSubtotal] .all
      (.normalizedShare source s.key)
    return { s with behaviors := [base, paths, rest, share] }
  | .gainAs source target => stat request.key fun s => do
    let base ← convertedBase source target
    let paths ← convertedPaths source target
    return { s with behaviors := [base, paths] }
  | .conversion _ | .baseSetEffectiveness _ | .baseAddEffectiveness _ => stat request.key pure
  | .skillConversion _ => stat request.key fun s => do
    let skills ← ownBehavior "SkillConversionUncappedSubtotal" s.key [.uncappedSubtotal] .all
      (.skillPaths s.key)
    return { s with behaviors := [skills] }
  | .regen entity pool => stat request.key fun s => do
    let routed ← ownBehavior "RegenUncappedSubtotal" s.key [.uncappedSubtotal] .all
      (.routedRegeneration entity pool)
    return { s with behaviors := [routed] }
  | .regenTarget _ _ | .ailmentDamageType _ _ =>
    stat request.key fun s => return { s with valueType := .integer }
  | .requirement _ => stat request.key fun s => do
    let highest ← ownBehavior "RequirementUncappedSubtotal" s.key [.uncappedSubtotal] .all
      (.highestPath s.key)
    return { s with listed := true, behaviors := [highest] }
  | .itemProperty property _ => stat request.key fun s => do
    let decimals := match property.valueType with
      | .double => 2
      | _ => 0
    let rounded ← ownBehavior "Rounding" s.key [.total] .all (.rounding decimals)
    return { s with valueType := property.valueType, behaviors := [rounded] }
  | .activeSkillSlot _ _ => stat request.key fun s => do
    let highest ← ownBehavior "MaximumFormAggregating" s.key [.baseSet] .all
      (.highestModifier s.key .baseSet)
    return { s with valueType := .integer, behaviors := [highest] }
  | .hitDamage entity damage => hitDamage entity damage
  | .ailmentDamage entity damage ailment => stat request.key fun s => do
    let hit ← hitDamage entity damage
    let paths ← ownBehavior "AilmentDamageUncappedSubtotal" s.key [.uncappedSubtotal] .all
      (.ailmentPaths s.key hit)
    let base ← ownBehavior "AilmentDamageBase" s.key [.base] .nonConversion
      (.ailmentBase s.key hit)
    let increase ← ownBehavior "AilmentDamageIncreaseMore" s.key [.increase, .more] .all
      (.ailmentIncrease s.key entity ailment)
    return { s with behaviors := [paths, base, increase] }
  | .affectedBy affected other form => stat request.key fun s => do
    let shared ← behavior
      ("AffectedByModifiersTo(" ++ affected.key.text ++ "," ++ other.key.text ++ ","
        ++ form.name ++ ")")
      [affected.key] [form.stage] .all (.shareModifiers affected other form)
    return { s with behaviors := [shared] }

end Catalog

end StatEngine
