import StatEngine.Formula.Evaluation

/-!
# Conversion and gain

A source that is converted to a target, or gained as it, gives the target a copy of each of its paths,
extended by the source. On those paths the target's base is the source's base by the percentages of
conversion and gain, while the source's own path totals lose what is converted.

More than a hundred percent of a source cannot be converted: conversions by skills are scaled down to
a hundred, and the others share what the skills leave.
-/

namespace StatEngine.Conversion

variable {N : Type} [Number N] {m : Type → Type} [Monad m]

/-- The base of a target on a path that comes from the source. -/
def base (source target : Stat N) (inner : Meaning N m) : Meaning N m := fun l => do
  match l.path.withoutLast? with
  | none => inner l
  | some before =>
    match ← l.value source .base before with
    | none => inner l
    | some sourceBase =>
      let converted ← l.derivedTotal (.convertTo source target)
      let gained ← l.derivedTotal (.gainAs source target)
      let percent := (Amount.sum [converted, gained]).getD Amount.zero
      return some (sourceBase * percent).percent

/-- The given paths and those of the source as seen from a target, each of them once. -/
def joinPaths (source : Stat N) (own sources : List (Path (Stat N))) : List (Path (Stat N)) :=
  sources.foldl (fun known path =>
    let converted := path.extend source
    if converted.isIn known then known else known ++ [converted]) own

/-- The target has the paths of the source too. The uncapped subtotal of the source is computed first,
because the paths converted into the source exist only after that. -/
def paths (source : Stat N) (target : StatKey) (inner : Meaning N m) : Meaning N m := fun l =>
  inner { l with
    paths := fun stat => do
      let own ← l.paths stat
      if stat.key != target then return own
      let _ ← l.value source .uncappedSubtotal Path.main
      return joinPaths source own (← l.paths source) }

/-- The share of a source that is left when `conversion` percent are converted. -/
def remaining (conversion : Amount N) : Amount N :=
  (conversion.percent.map (Number.one - ·)).clip (some Number.zero) (some Number.one)

/-- The source keeps what is not converted. -/
def unconverted (source : Stat N) (inner : Meaning N m) : Meaning N m := fun l => do
  match ← inner l with
  | none => return none
  | some value =>
    match ← l.derivedTotal (.conversion source) with
    | some conversion => return some (value * remaining conversion)
    | none => return some value

/-- The factor of conversions by skills, when skills convert `skill` and all together `all` percent. -/
def skillFactor (skill all : N) : N :=
  if all > Number.hundred ∧ skill > Number.hundred then Number.hundred / skill else Number.one

/-- The factor of the other conversions. -/
def otherFactor (skill all : N) : N :=
  if all ≤ Number.hundred then Number.one
  else if skill ≥ Number.hundred then Number.zero
  else (Number.hundred - skill) / (all - skill)

/-- The path totals of the stat `share` that says how much of the source is converted to one target
are scaled down when more than a hundred percent are converted. -/
def normalizedShare (source : Stat N) (share : StatKey) (inner : Meaning N m) : Meaning N m :=
  fun l => do
    match ← l.derivedTotal (.conversion source) with
    | none => inner l
    | some all =>
      let skill := (← l.derivedTotal (.skillConversion source)).getD Amount.zero
      let bySkill := skill.zipWith skillFactor all
      let byOther := skill.zipWith otherFactor all
      inner { l with
        value := fun stat stage path => do
          let value ← l.value stat stage path
          if stat.key != share || stage != .pathTotal then return value
          let factor := if path.source.isSkill then bySkill else byOther
          return value.map (· * factor) }

/-- A stat has only the paths of skills. -/
def skillPaths (only : StatKey) (inner : Meaning N m) : Meaning N m := fun l =>
  inner { l with
    paths := fun stat => do
      let paths ← l.paths stat
      if stat.key != only then return paths
      return paths.filter (·.source.isSkill) }

end StatEngine.Conversion
