import StatEngine.Entity
import StatEngine.Fault

/-!
# Stats, behaviors and formulas

Four kinds of things are defined together, because they contain each other.

* A `Stat` is a key with everything that goes along with it: the stats that bound it, and the
  behaviors that are installed while it is in use.
* A `Behavior` changes the formulas of the nodes it affects by a `Transformation`.
* A `Transformation` is an `Effect` together with an identity: two transformations are the same only
  if they were made at one time.
* A `Formula` computes an amount from what it looks up. The formulas of a stat's stages are formulas,
  and so are the values of modifiers.

Stats are compared by their keys alone (`Stat.same`), and so are paths over them (`Path.key`).
-/

namespace StatEngine

/-- Which paths of the affected nodes a behavior applies to. -/
inductive PathRule where
  /-- Every path. -/
  | all
  /-- The main path. -/
  | mainOnly
  /-- Paths with a conversion. -/
  | conversionOnly
  /-- Paths without a conversion. -/
  | nonConversion
  /-- Paths whose last conversion is from the given stat. -/
  | conversionFrom (stat : StatKey)
  deriving DecidableEq, Repr

namespace PathRule

/-- Whether a rule admits a path. -/
def admits (rule : PathRule) (path : PathKey) : Bool :=
  match rule with
  | all => true
  | mainOnly => path.isMain
  | conversionOnly => path.isConversion
  | nonConversion => !path.isConversion
  | conversionFrom stat => path.via.getLast? == some stat

/-- The written form of a rule. -/
def text : PathRule → String
  | all => "All"
  | mainOnly => "MainOnly"
  | conversionOnly => "ConversionOnly"
  | nonConversion => "NonConversion"
  | conversionFrom stat => "ConversionFrom " ++ stat.text

end PathRule

/-- What makes a transformation the same as another one. -/
inductive Identity where
  /-- The transformation a catalog made under a name. -/
  | cataloged (name : String)
  /-- The transformation that was made with this number. -/
  | numbered (n : Nat)
  deriving DecidableEq, Repr

mutual

/-- A stat with what goes along with it. -/
structure Stat (N : Type) where
  /-- The identity of the stat. -/
  key : StatKey
  /-- The stat whose total bounds this one from below. -/
  minimum : Option (Stat N)
  /-- The stat whose total bounds this one from above. -/
  maximum : Option (Stat N)
  /-- The kind of number the stat holds. -/
  valueType : ValueType
  /-- Whether hosts want to see the stat listed. -/
  listed : Bool
  /-- What is installed while the stat is in use, in order. -/
  behaviors : List (Behavior N)

/-- A change of the formulas of certain nodes. -/
structure Behavior (N : Type) where
  /-- The stats whose nodes are affected. -/
  stats : List StatKey
  /-- The stages that are affected. -/
  stages : List Stage
  /-- The paths that are affected. -/
  rule : PathRule
  /-- What is done to the formulas. -/
  transformation : Transformation N

/-- An effect with an identity. -/
structure Transformation (N : Type) where
  /-- What tells this transformation from others. -/
  identity : Identity
  /-- What the transformation does. -/
  effect : Effect N

/-- What a transformation does to a formula. -/
inductive Effect (N : Type) where
  /-- Modifiers of a form to `other` apply to `stat` too, by a percentage. -/
  | shareModifiers (stat other : Stat N) (form : Form)
  /-- Ailment damage has the paths of the hit. -/
  | ailmentPaths (ailment : StatKey) (hit : Stat N)
  /-- Ailment damage has the base values of the hit, by the effectiveness of added damage. -/
  | ailmentBase (ailment : StatKey) (hit : Stat N)
  /-- Ailment damage is increased by what increases the damage type the ailment deals. -/
  | ailmentIncrease (damage : StatKey) (entity : Entity) (ailment : Ailment)
  /-- The base of a target on a converted path is the converted share of the source's base. -/
  | convertedBase (source target : Stat N)
  /-- A target has the paths of the source, extended by the source. -/
  | convertedPaths (source : Stat N) (target : StatKey)
  /-- A source keeps what is not converted. -/
  | unconverted (source : Stat N)
  /-- The conversions of a source are scaled down to a whole, skills last. -/
  | normalizedShare (source : Stat N) (share : StatKey)
  /-- A stat has only the paths of skills. -/
  | skillPaths (stat : StatKey)
  /-- Base damage is scaled by the effectiveness of added damage. -/
  | damageEffectiveness (damage : StatKey) (entity : Entity)
  /-- Of the modifiers of a form only the highest counts. -/
  | highestModifier (stat : StatKey) (form : Form)
  /-- Regeneration is that of all pools that are routed to this one. -/
  | routedRegeneration (entity : Entity) (pool : Pool)
  /-- A stat has only the path with the highest total. -/
  | highestPath (stat : StatKey)
  /-- The value is rounded. -/
  | rounding (decimals : Int)
  /-- The value is multiplied. -/
  | scale (factor : N)
  /-- The value is added to. -/
  | offset (amount : N)
  /-- The value is replaced. -/
  | replace (formula : Formula N)
  /-- Nothing changes. -/
  | passThrough
  /-- The paths of a stat are replaced. -/
  | replacePaths (stat : StatKey) (paths : List (Path (Stat N)))
  /-- The value of a stage of a stat, on any path, is replaced. -/
  | replaceValue (stat : StatKey) (stage : Stage) (formula : Formula N)
  /-- Values are appended to those of a form. -/
  | appendValues (form : Form) (values : List (Option (Amount N)))

/-- How an amount is computed from what is looked up. A missing path stands for the path that is
being computed. -/
inductive Formula (N : Type) where
  /-- A fixed amount. -/
  | constant (value : Option (Amount N))
  /-- What a stage of a stat computes. -/
  | stage (stat : Stat N) (stage : Stage)
  /-- The total of a stat. -/
  | total (stat : Stat N)
  /-- The total of a stat, absent without one. -/
  | optionalTotal (stat : Option (Stat N))
  /-- The value of a stage on the main path. -/
  | mainValue (stat : Stat N) (stage : Stage)
  /-- The value of a stage on a path. -/
  | value (stat : Stat N) (stage : Stage) (path : Option (Path (Stat N)))
  /-- The sum of a stage over the paths of a stat. -/
  | sumOverPaths (stat : Stat N) (stage : Stage)
  /-- The sum of the modifier values of a form on the main path. -/
  | sumOfForm (form : Form) (stat : Stat N)
  /-- The aggregate of the modifier values of a form. -/
  | aggregated (form : Form) (places : List (Stat N × Option (Path (Stat N))))
  /-- How many modifier values of a form there are, absent ones included. -/
  | countValues (form : Form) (places : List (Stat N × Option (Path (Stat N))))
  /-- How many paths a stat has. -/
  | countPaths (stat : Stat N)
  /-- One on the main path and zero elsewhere. -/
  | onMainPath
  /-- The sum of the present operands. -/
  | add (operands : List (Formula N))
  /-- The product of the present operands. -/
  | multiply (operands : List (Formula N))
  /-- A difference, absent if an operand is. -/
  | subtract (left right : Formula N)
  /-- A quotient, absent if an operand is. -/
  | divide (left right : Formula N)
  /-- The first operand, or the second one if the first is absent. -/
  | orElse (first second : Formula N)
  /-- The second operand if the first is present and not near zero, and otherwise the third. -/
  | ifNonZero (condition yes no : Formula N)
  /-- The operand, and a note that it was evaluated. -/
  | noted (name : String) (operand : Formula N)
  /-- A fault. -/
  | fail (fault : Fault N)

end

variable {N : Type}

namespace Stat

/-- A stat that is nothing but its key. -/
def plain (key : StatKey) : Stat N where
  key := key
  minimum := none
  maximum := none
  valueType := .double
  listed := false
  behaviors := []

/-- Whether two stats have the same key. -/
def same (a b : Stat N) : Bool := a.key == b.key

/-- The text of a stat is that of its key. -/
def text (s : Stat N) : String := s.key.text

end Stat

/-- The identity of a path over stats. -/
def Path.key (p : Path (Stat N)) : PathKey := p.map Stat.key

/-- Whether two paths over stats have the same identity. -/
def Path.same (p q : Path (Stat N)) : Bool := p.key == q.key

/-- Whether a path is among the given ones. -/
def Path.isIn (p : Path (Stat N)) (paths : List (Path (Stat N))) : Bool := paths.any (·.same p)

section Paths

variable {paths : List (Path (Stat N))} {p : Path (Stat N)}

theorem isIn_iff_key : p.isIn paths = true ↔ p.key ∈ paths.map Path.key := by
  simp [Path.isIn, Path.same]

theorem isIn_of_mem (h : p ∈ paths) : p.isIn paths = true :=
  isIn_iff_key.mpr (List.mem_map_of_mem h)

end Paths

namespace Behavior

/-- Whether a behavior affects a node. -/
def affects (b : Behavior N) (key : NodeKey) : Bool :=
  b.stats.contains key.stat && b.stages.contains key.stage && b.rule.admits key.path

/-- Whether two behaviors affect the same nodes by the same transformation. -/
def same (a b : Behavior N) : Bool :=
  a.stats == b.stats && a.stages == b.stages && a.rule == b.rule
    && a.transformation.identity == b.transformation.identity

end Behavior

end StatEngine
