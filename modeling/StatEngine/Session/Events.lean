import StatEngine.Network.Cascade
import StatEngine.Session.Log

/-!
# Sessions with announcements

Named announcements, listeners that run further steps, and batches.
-/

namespace StatEngine.Session.Events

open Network

/-- A step of a session with announcements. -/
inductive Step where
  /-- Attach a listener that logs its name and then runs steps. -/
  | subscribe (listener event : String) (steps : List Step)
  /-- Detach a listener. -/
  | unsubscribe (listener : String)
  /-- Make an announcement at once. -/
  | notify (event : String)
  /-- Make an announcement, or hold it back if a batch is running. -/
  | raise (event : String)
  /-- Run steps as a batch. -/
  | buffer (steps : List Step)
  /-- Ask whether a batch is running. -/
  | buffering
  /-- Count the listeners of an announcement. -/
  | count (event : String)
  /-- Forget an announcement. -/
  | dropEvent (event : String)
  /-- Log a text. -/
  | say (text : String)

/-- What a listener does: it logs its name and runs steps. -/
structure Action where
  /-- The name. -/
  name : String
  /-- The steps. -/
  steps : List Step

/-- The announcements by their names. -/
abbrev Desk := Named Nat

/-- The topic of an announcement. -/
def topic (event : String) : Work Action Desk Topic := do
  return .named (← need ((← desk).get? event))

/-- The host whose listeners run their steps by `run`. -/
def host (run : Step → Work Action Desk Json) : Host Float Action (Logged Desk) :=
  { Host.idle with
    notified := fun action _ => do
      say action.name
      action.steps.forM fun s => discard (run s) }

/-- Carry out a step, those inside it by `run`. -/
def perform (run : Step → Work Action Desk Json) : Step → Work Action Desk Json
  | .subscribe listener event steps => do
    listenAs listener (← topic event) ⟨listener, steps⟩
    return .null
  | .unsubscribe listener => do return .bool (← unlisten listener)
  | .notify event => do
    emit (host run) (← topic event) .changed
    return .null
  | .raise event => do
    announce (emit (host run)) (← topic event)
    return .null
  | .buffer steps => batch (host run) (answeredAll run steps)
  | .buffering => do return .bool (← get).buffer.isBuffering
  | .count event => do
    let topic ← topic event
    return .nat ((← get).listenerCount topic)
  | .dropEvent event => do
    let known := ((← desk).get? event).isSome
    modifyDesk (·.erase event)
    return .bool known
  | .say text => do
    Session.say text
    return .null

/-- Carry out a step. The first argument bounds how deeply steps run other steps. -/
def step : Nat → Step → Work Action Desk Json
  | 0, _ => exhausted
  | fuel + 1, s => perform (step fuel) s

/-- The network of a session. -/
def start (events : List String) (buffered : Bool) : Network Float Action (Logged Desk) :=
  let n := Network.empty buffered none ⟨[], [], events.zipIdx⟩
  { n with events := (events.map fun _ => []).toArray }

/-- The answers of a session. -/
def run (events : List String) (buffered : Bool) (steps : List Step) : Option Json :=
  (answeredAll (step depth) steps (start events buffered)).map (·.1)

end StatEngine.Session.Events
