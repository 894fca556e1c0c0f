import StatEngine.Network.Read

/-!
# Modifiers in the network

A modifier gets one cached node for each of its stats, in the collection of its form on the path of
its source. Removing a modifier takes back one registration per stat, the oldest one.
-/

namespace StatEngine.Network

variable {N A σ : Type} (host : Host N A σ)

/-- Register a modifier for one of its stats. -/
def addModifierTo (modifier : Modifier N) (stat : Stat N) : Run N A σ Unit := do
  let entry ← collectionOf host stat modifier.form modifier.path
  let formula ← addFormula modifier.formula modifier.path
  let cached ← addCached formula (modifier.label stat)
  modify fun n => { n with
    collections := n.collections.modify entry.collection fun c =>
      { c with formulas := c.formulas ++ [(modifier, formula)] } }
  addMember host entry.collection (← addExposed cached) modifier
  let graph ← graphOf host stat
  modify fun n => n.modifyGraph graph fun g => { g with modifierCount := g.modifierCount + 1 }

/-- Register a modifier for each of its stats. -/
def addModifier (modifier : Modifier N) : Run N A σ Unit :=
  modifier.stats.forM (addModifierTo host modifier)

/-- Take back a registration of a modifier for one of its stats, and tell whether there was one. -/
def removeModifierFrom (modifier : Modifier N) (stat : Stat N) : Run N A σ Bool := do
  match (← get).graph? stat.key with
  | none => return false
  | some graph =>
    match (← get).graphs[graph]?.bind (·.collectionAt? modifier.form modifier.path) with
    | none => return false
    | some entry =>
      match ← removeMember host entry.collection modifier with
      | none => return false
      | some node =>
        modify fun n => { n with
          collections := n.collections.modify entry.collection fun c =>
            { c with formulas := c.formulas.eraseP (·.1.same modifier) } }
        dispose host node
        modify fun n => n.modifyGraph graph fun g => { g with modifierCount := g.modifierCount - 1 }
        return true

/-- Take back a registration of a modifier for each of its stats, and tell whether there was any. -/
def removeModifier (modifier : Modifier N) : Run N A σ Bool := do
  let removed ← modifier.stats.mapM (removeModifierFrom host modifier)
  return removed.any id

end StatEngine.Network
