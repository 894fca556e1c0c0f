import StatEngine.Network.Cascade

/-!
# Installed behaviors

Behaviors are installed while a stat that declares them is in use, each as often as it is declared. A
behavior that is installed is applied to the formulas registered for the nodes it affects, those that
are registered later included, so that every formula has the behaviors that affect it in the order
they were installed.
-/

namespace StatEngine.Network

variable {N A σ : Type} (host : Host N A σ)

/-- Add a formula with no layers yet. -/
def addLayered (initial : Formula N) : Run N A σ Nat :=
  modifyGet fun n =>
    (n.layered.size, { n with layered := n.layered.push ⟨initial, [], [], false⟩ })

/-- Put a transformation on a formula. -/
def addLayer (id : Nat) (t : Transformation N) : Run N A σ Unit := do
  modify fun n => { n with
    layered := n.layered.modify id fun x => { x with layers := x.layers ++ [t] } }
  emit host (.layers id) .changed

/-- Take the first occurrence of a transformation off a formula. -/
def removeLayer (id : Nat) (t : Transformation N) : Run N A σ Unit := do
  let isIt (x : Transformation N) := x.identity == t.identity
  match (← get).layered[id]? with
  | none => return
  | some x =>
    if x.layers.any isIt then
      modify fun n => { n with
        layered := n.layered.modify id fun x => { x with layers := x.layers.eraseP isIt } }
      emit host (.layers id) .changed

/-- Take all transformations off a formula. -/
def clearLayers (id : Nat) : Run N A σ Unit := do
  match (← get).layered[id]? with
  | none => return
  | some x =>
    modify fun n => { n with layered := n.layered.modify id fun x => { x with layers := [] } }
    if !x.layers.isEmpty then
      emit host (.layers id) .changed

/-- The registered formulas that a behavior affects: for each of its stats and each of its stages, in
the order they were registered. -/
def affectedFormulas (n : Network N A σ) (b : Behavior N) : List Nat :=
  b.stats.flatMap fun stat => b.stages.flatMap fun stage =>
    (n.registrations.filter fun r =>
      r.key.stat == stat && r.key.stage == stage && b.rule.admits r.key.path
        && n.isPresent (.layers r.formula)).map (·.formula)

/-- How often a behavior is declared. -/
def installationCount (n : Network N A σ) (b : Behavior N) : Nat :=
  ((n.installed.find? (·.1.same b)).map (·.2)).getD 0

/-- Install a behavior once more, applying it the first time. -/
def installOne (b : Behavior N) : Run N A σ Unit := do
  if (← get).installed.any (·.1.same b) then
    modify fun n => { n with
      installed := n.installed.map fun (x, count) => if x.same b then (x, count + 1) else (x, count) }
  else
    modify fun n => { n with installed := n.installed ++ [(b, 1)] }
    ((← get).affectedFormulas b).forM fun id => addLayer host id b.transformation

/-- Uninstall a behavior once, taking it off the last time. -/
def uninstallOne (b : Behavior N) : Run N A σ Unit := do
  let count := (← get).installationCount b
  if count > 1 then
    modify fun n => { n with
      installed := n.installed.map fun (x, count) => if x.same b then (x, count - 1) else (x, count) }
  else if count = 1 then
    modify fun n => { n with installed := n.installed.eraseP (·.1.same b) }
    ((← get).affectedFormulas b).forM fun id => removeLayer host id b.transformation

/-- Install behaviors in order. -/
def install (behaviors : List (Behavior N)) : Run N A σ Unit := behaviors.forM (installOne host)

/-- Uninstall behaviors in order. -/
def uninstall (behaviors : List (Behavior N)) : Run N A σ Unit := behaviors.forM (uninstallOne host)

/-- Register the formula of a node and put every installed behavior on it that affects the node. -/
def register (key : NodeKey) (id : Nat) : Run N A σ Unit := do
  modify fun n => { n with registrations := n.registrations ++ [⟨key, id⟩] }
  let affecting := (← get).installed.filter fun (b, _) => b.affects key
  affecting.forM fun (b, _) => addLayer host id b.transformation

/-- Forget the formulas of a node. -/
def unregister (key : NodeKey) : Run N A σ Unit :=
  modify fun n => { n with registrations := n.registrations.filter (·.key != key) }

end StatEngine.Network
