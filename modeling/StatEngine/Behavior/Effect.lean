import StatEngine.Behavior.Conversion
import StatEngine.Behavior.Damage
import StatEngine.Behavior.Modifiers
import StatEngine.Behavior.Paths

/-!
# Effects of transformations

`Effect.apply` turns what a formula computes into what it computes under an effect. Effects are
layered: each is applied to the result of those before it (`Transformation.layer`).
-/

namespace StatEngine

variable {N : Type} [Number N] {m : Type → Type} [Monad m]

/-- What a formula computes under an effect. -/
def Effect.apply (effect : Effect N) (inner : Meaning N m) : Meaning N m :=
  match effect with
  | .shareModifiers stat other form => Modifiers.shared stat other form inner
  | .ailmentPaths ailment hit => Damage.hitPaths ailment hit inner
  | .ailmentBase ailment hit => Damage.hitBase ailment hit inner
  | .ailmentIncrease damage entity ailment => Damage.dealtIncrease damage entity ailment inner
  | .convertedBase source target => Conversion.base source target inner
  | .convertedPaths source target => Conversion.paths source target inner
  | .unconverted source => Conversion.unconverted source inner
  | .normalizedShare source share => Conversion.normalizedShare source share inner
  | .skillPaths stat => Conversion.skillPaths stat inner
  | .damageEffectiveness damage entity => Damage.scaledBase damage entity inner
  | .highestModifier stat form => Modifiers.onlyHighest stat form inner
  | .routedRegeneration entity pool => Paths.routed entity pool inner
  | .highestPath stat => Paths.onlyHighest stat inner
  | .rounding decimals => fun l => return (← inner l).map (·.round decimals)
  | .scale factor => fun l => return (← inner l).map (·.map (· * factor))
  | .offset amount => fun l => return (← inner l).map (·.map (· + amount))
  | .replace formula => formula.eval
  | .passThrough => inner
  | .replacePaths key paths => fun l =>
    inner { l with paths := fun stat => if stat.key = key then pure paths else l.paths stat }
  | .replaceValue key stage formula => fun l =>
    inner { l with
      value := fun stat asked path =>
        if stat.key = key ∧ asked = stage then formula.eval l else l.value stat asked path }
  | .appendValues form values => fun l =>
    inner { l with
      values := fun asked places => do
        let found ← l.values asked places
        return if asked = form then found ++ values else found }

/-- What a formula computes under transformations, the first one applied first. -/
def Transformation.layer (ts : List (Transformation N)) (inner : Meaning N m) : Meaning N m :=
  ts.foldl (fun meaning t => t.effect.apply meaning) inner

end StatEngine
