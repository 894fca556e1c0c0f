import StatEngine.Network.Read
import StatEngine.Session.Answer

/-!
# What a session keeps

A session is a host that works on a network step by step. It knows things by names, and it keeps a log
of what it is told; the answer to a step takes along what was logged since the answer before it.
-/

namespace StatEngine.Session

/-- Things that are known by names. -/
abbrev Named (α : Type) := List (String × α)

namespace Named

variable {α : Type}

/-- What is known under a name. -/
def get? (xs : Named α) (name : String) : Option α := (xs.find? (·.1 == name)).map (·.2)

/-- Forget what is known under a name. -/
def erase (xs : Named α) (name : String) : Named α := xs.filter (·.1 != name)

/-- Know something under a name, in place of what was known under it. -/
def put (xs : Named α) (name : String) (a : α) : Named α := xs.erase name ++ [(name, a)]

end Named

/-- The state of a session beside its network. -/
structure Logged (H : Type) where
  /-- What was logged since the last answer. -/
  log : List String
  /-- The listeners of the session. -/
  listeners : Named Network.Subscription
  /-- What else the session keeps. -/
  desk : H

variable {A H : Type}

/-- The computations of a session. -/
abbrev Work (A H : Type) := Network.Run Float A (Logged H)

/-- Log a text. -/
def say (text : String) : Work A H Unit :=
  modify fun n => { n with host := { n.host with log := n.host.log ++ [text] } }

/-- What the session keeps beside its log. -/
def desk : Work A H H := return (← get).host.desk

/-- Change what the session keeps beside its log. -/
def modifyDesk (f : H → H) : Work A H Unit :=
  modify fun n => { n with host := { n.host with desk := f n.host.desk } }

/-- What is known under a name. A session that refers to nothing stops. -/
def need {α : Type} : Option α → Work A H α
  | some a => pure a
  | none => Network.exhausted

/-- The answer of a step with what was logged since the last answer. -/
def answered (work : Work A H Json) : Work A H Json := do
  let answer ← work
  let log := (← get).host.log
  modify fun n => { n with host := { n.host with log := [] } }
  return .object (("r", answer) :: if log.isEmpty then [] else [("log", .strings log)])

/-- The answers of steps, each with what was logged since the last one. -/
def answeredAll {S : Type} (step : S → Work A H Json) (steps : List S) : Work A H Json := do
  return .array (← steps.mapM fun s => answered (step s))

/-- Attach a listener under a name. The listener that had the name before is detached afterwards. -/
def listenAs (name : String) (topic : Network.Topic) (action : A) : Work A H Unit := do
  let subscription ← Network.attach topic (.host action)
  match (← get).host.listeners.get? name with
  | some old => Network.detach old
  | none => pure ()
  modify fun n => { n with
    host := { n.host with listeners := n.host.listeners.put name subscription } }

/-- Detach the listener with a name, and tell whether there was one. -/
def unlisten (name : String) : Work A H Bool := do
  match (← get).host.listeners.get? name with
  | none => return false
  | some old =>
    Network.detach old
    modify fun n => { n with
      host := { n.host with listeners := n.host.listeners.erase name } }
    return true

/-- The outcome of reading a node. -/
def readNode (host : Network.Host Float A (Logged H)) (id : Nat) : Work A H Outcome :=
  (Network.valueOf host id).run

/-- A bound on how deeply steps run other steps. -/
def depth : Nat := 500

end StatEngine.Session
