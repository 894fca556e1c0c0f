import StatEngine.Formula.Evaluation

/-!
# Behaviors that change the modifiers a formula sees

The modifiers of one stat can apply to another one too, and of several modifiers only the highest may
count.
-/

namespace StatEngine.Modifiers

variable {N : Type} [Number N] {m : Type → Type} [Monad m]

/-- The places of a stat, with the other stat in its stead. -/
def redirected (stat other : Stat N) (places : List (Place N)) : List (Place N) :=
  (places.filter (·.1.same stat)).map fun (_, path) => (other, path)

/-- Modifiers of a form to `other` apply to `stat` too, by the percentage of a meta stat. -/
def shared (stat other : Stat N) (form : Form) (inner : Meaning N m) : Meaning N m := fun l => do
  match ← l.derivedTotal (.affectedBy stat other form) with
  | none => inner l
  | some percent =>
    inner { l with
      values := fun asked places => do
        let values ← l.values asked places
        if asked != form then return values
        let more := redirected stat other places
        if more.isEmpty then return values
        let others ← l.values asked more
        return values ++ others.map fun value => value.map fun v => (v * percent).percent }

/-- The highest amount, bound by bound. -/
def highest? (values : List (Option (Amount N))) : Option (Amount N) :=
  Amount.combine (Amount.zipWith Number.max) values

/-- Of the modifiers of a form to a stat only the highest counts. A query for that form has to be for
the stat alone or not for it at all. -/
def onlyHighest (key : StatKey) (form : Form) (inner : Meaning N m) : Meaning N m := fun l =>
  inner { l with
    values := fun asked places => do
      let own := (places.filter fun (stat, _) => stat.key == key).length
      if asked != form || own = 0 then l.values asked places
      else if own != places.length then throw (.inconsistentMaximum key.text asked)
      else return (highest? (← l.values asked places)).toList.map some }

end StatEngine.Modifiers
