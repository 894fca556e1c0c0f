import StatEngine.Network.Sweep

/-!
# The calculator

The interface of the engine for hosts. Modifiers are added and removed by updates, and stats are read
at any time; everything in between is made, kept and dropped by the network. An update is one batch, so
a host is told of a change once, and afterwards what has become unused is removed, if the settings say
so.
-/

namespace StatEngine

/-- How a calculator behaves. -/
structure Settings where
  /-- Whether every update is followed by removing what is unused. -/
  pruneAfterUpdate : Bool
  /-- Whether announcements to hosts are held back during a batch. -/
  bufferEvents : Bool
  deriving DecidableEq, Repr

namespace Settings

/-- Both are done. -/
def standard : Settings := ⟨true, true⟩

end Settings

/-- Modifiers to add and to remove together. -/
structure Update (N : Type) where
  /-- The modifiers to add. -/
  added : List (Modifier N)
  /-- The modifiers to remove, before any is added. -/
  removed : List (Modifier N)

namespace Update

variable {N : Type}

/-- Whether there is nothing to do. -/
def isEmpty (u : Update N) : Bool := u.added.isEmpty && u.removed.isEmpty

/-- Add one modifier. -/
def adding (modifier : Modifier N) : Update N := ⟨[modifier], []⟩

/-- Remove one modifier. -/
def removing (modifier : Modifier N) : Update N := ⟨[], [modifier]⟩

end Update

namespace Calculator

open Network

variable {N A σ : Type}

/-- A calculator without modifiers. -/
def start (settings : Settings) (catalog : Option (Catalog N)) (state : σ) : Network N A σ :=
  Network.empty settings.bufferEvents catalog state

/-- Apply an update. An empty one does nothing at all. -/
def update (host : Host N A σ) (settings : Settings) (u : Update N) : Run N A σ Unit := do
  if u.isEmpty then return
  batch host do
    for modifier in u.removed do
      let _ ← removeModifier host modifier
    for modifier in u.added do
      addModifier host modifier
  if settings.pruneAfterUpdate then
    let _ ← removeUnused host

/-- The cached node of a stage of a stat on a path, the same one as long as it is in use. -/
def node (host : Host N A σ) (stat : Stat N) (stage : Stage) (path : Path (Stat N)) :
    Run N A σ Nat := do
  return (← nodesOf host stat stage path).cached

/-- The paths a stat has values on. -/
def paths (host : Host N A σ) (stat : Stat N) : Run N A σ (List (Path (Stat N))) := do
  let set ← pathSetOf host stat
  return (← get).pathsIn set

variable [Number N]

/-- The value of a stage of a stat on a path. -/
def value (host : Host N A σ) (stat : Stat N) (stage : Stage) (path : Path (Stat N)) :
    Reading N (Run N A σ) (Option (Amount N)) := do
  valueOf host (← ExceptT.lift (node host stat stage path))

/-- The total of a stat. -/
def total (host : Host N A σ) (stat : Stat N) : Reading N (Run N A σ) (Option (Amount N)) :=
  value host stat .total Path.main

end Calculator

end StatEngine
