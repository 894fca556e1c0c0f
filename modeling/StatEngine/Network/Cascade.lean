import StatEngine.Network.Basic

/-!
# Cascades of announcements

An announcement calls the listeners of a topic as they are when it starts. A cached node that is called
drops its value, and if it was read since its last announcement it makes its own announcements: one
that is never held back, which other nodes listen to, and one for hosts, which a batch holds back
(`announce`). So an announcement runs through the network until it meets nodes that nobody read.
-/

namespace StatEngine.Network

variable {N A σ : Type}

/-- Make an announcement now, or hold it back if a batch is running. -/
def announce (raise : Topic → Signal N → Run N A σ Unit) (topic : Topic) : Run N A σ Unit := do
  if (← get).buffer.holds then
    modify fun n => { n with buffer := n.buffer.hold topic }
  else
    raise topic .changed

/-- A cached node drops its value, and tells so if it was read since it last did. -/
def invalidate (raise : Topic → Signal N → Run N A σ Unit) (id : Nat) : Run N A σ Unit := do
  match (← get).cached? id with
  | none => return
  | some c =>
    modify fun n => n.modifyCached id fun c =>
      { c with stale := c.stale || c.guard.entered, cache := none, observed := false }
    if c.observed then
      raise (.received id) .changed
      announce raise (.changed id)

/-- Let a node announce a change whenever the member of a collection does. -/
def followMember (id member : Nat) : Run N A σ Unit := do
  let subscription ← attach ((← get).changeTopic member) (.relay id)
  modify fun n => n.modifyAggregate id fun a =>
    { a with members := a.members ++ [(member, subscription)] }

/-- Stop following the first member at the given position in the network. -/
def unfollowMember (id member : Nat) : Run N A σ Unit := do
  match ((← get).aggregate? id).bind fun a => a.members.find? (·.1 == member) with
  | none => return
  | some (_, subscription) =>
    detach subscription
    modify fun n => n.modifyAggregate id fun a =>
      { a with members := a.members.eraseP (·.1 == member) }

/-- Stop following all members. -/
def unfollowAll (id : Nat) : Run N A σ Unit := do
  match (← get).aggregate? id with
  | none => return
  | some a =>
    modify fun n => n.unsubscribeAll (a.members.map (·.2))
    modify fun n => n.modifyAggregate id fun a => { a with members := [] }

/-- An aggregate node adjusts to a change of its collection and announces that it changed. -/
def follow (raise : Topic → Signal N → Run N A σ Unit) (id : Nat) (signal : Signal N) :
    Run N A σ Unit := do
  match signal with
  | .added member => followMember id member
  | .removed member => unfollowMember id member
  | .reset =>
    unfollowAll id
    let n ← get
    match n.aggregate? id with
    | some a => (n.memberNodes a.collection).forM (followMember id)
    | none => pure ()
  | _ => pure ()
  raise (.changed id) .changed

/-- Call a listener. Nodes that are gone are not called. -/
def deliver (host : Host N A σ) (raise : Topic → Signal N → Run N A σ Unit) (listener : Listener A)
    (signal : Signal N) : Run N A σ Unit := do
  match listener with
  | .invalidate id => if (← get).isPresent (.changed id) then invalidate raise id
  | .relay id => if (← get).isPresent (.changed id) then raise (.changed id) .changed
  | .follow id => if (← get).isPresent (.changed id) then follow raise id signal
  | .host action => host.notified action signal

/-- Make an announcement. The first argument bounds how deeply announcements call each other. -/
def raise (host : Host N A σ) : Nat → Topic → Signal N → Run N A σ Unit
  | 0, _, _ => exhausted
  | fuel + 1, topic, signal => do
    ((← get).listeners topic).forM fun attached =>
      deliver host (raise host fuel) attached.listener signal

/-- Make an announcement. -/
def emit (host : Host N A σ) (topic : Topic) (signal : Signal N) : Run N A σ Unit := do
  raise host (← get).cascadeBound topic signal

/-- Make the announcements that were held back, and those that are held back meanwhile. The first
argument bounds how often that happens. -/
def flush (host : Host N A σ) : Nat → Run N A σ Unit
  | 0 => exhausted
  | fuel + 1 => do
    let pending := (← get).buffer.pending
    modify fun n => { n with buffer := { n.buffer with pending := [] } }
    if pending.isEmpty then return
    pending.forM fun topic => emit host topic .changed
    flush host fuel

/-- Run a batch: announcements to hosts are held back until the outermost batch ends, and then each
topic makes one. -/
def batch (host : Host N A σ) {α : Type} (body : Run N A σ α) : Run N A σ α := do
  modify fun n => { n with buffer := { n.buffer with depth := n.buffer.depth + 1 } }
  let result ← body
  modify fun n => { n with buffer := { n.buffer with depth := n.buffer.depth - 1 } }
  if !(← get).buffer.isBuffering then
    flush host (← get).cascadeBound
  return result

end StatEngine.Network
