import StatEngine.Proofs.Runs

/-!
# A log of evaluations

What a formula read when it was evaluated last is nowhere to be seen afterwards but in what its node is
subscribed to. To tell the one from the other, nodes can be read while a log is kept: a formula node that
is evaluated is noted with the keys of what it read, and a cached node that is computed is noted too. Apart
from that they are read as ever.

## Main definitions

* `Evaluation`: what is noted of a node that was evaluated;
* `loggedRead` and `loggedValueOf`: reading nodes while the log is kept;
* `Calculator.Call.logged`: a call while the log is kept.

## Main statements

* `logs_valueOf` and `Calculator.Call.logs`: whoever does not look at the log sees no difference.
-/

namespace StatEngine

open Network

namespace Network

variable {N A σ : Type}

/-- What is noted of a node that was evaluated. -/
structure Evaluation where
  /-- The node. -/
  node : Nat
  /-- The keys of what the formula of the node read, each of them once. A cached node has none. -/
  reads : List DependencyKey
  /-- Whether the evaluation ended in a fault. -/
  failed : Bool

/-- Computations that keep a log of evaluations, the latest first. -/
abbrev Logging (N A σ : Type) := StateT (List Evaluation) (Run N A σ)

/-- Computations that keep a log, and record what a formula depends on. -/
abbrev LoggedRecording (N A σ : Type) := StateT (List (DependencyKey × Topic)) (Logging N A σ)

/-- Note an evaluation. -/
def log (e : Evaluation) : Logging N A σ Unit := modify (e :: ·)

/-! ## Reading while the log is kept -/

variable {α β : Type}

/-- Record as ever, and note nothing. -/
def unlogged (x : Reading N (Recording N A σ) α) : Reading N (LoggedRecording N A σ) α :=
  ExceptT.mk fun recorded => StateT.lift (x.run.run recorded)

/-- Read a node while recording. -/
def loggedIn (read : Nat → Reading N (Logging N A σ) (Option (Amount N))) (id : Nat) :
    Reading N (LoggedRecording N A σ) (Option (Amount N)) :=
  ExceptT.mk (StateT.lift (read id).run)

section Lookups

variable (host : Host N A σ)

/-- The paths of a stat are recorded. -/
def askPaths (stat : Stat N) : Reading N (Recording N A σ) (List (Path (Stat N))) := do
  let set ← onNetwork (pathSetOf host stat)
  record (.paths stat.key) (.paths set)
  return (← onNetwork get).pathsIn set

/-- A stage is recorded. What is to be read then is the node that shows its value. -/
def askStage (stat : Stat N) (stage : Stage) (path : Path (Stat N)) :
    Reading N (Recording N A σ) Nat := do
  let path := stagePath stage path
  let entry ← onNetwork (nodesOf host stat stage path)
  record (.node ⟨stat.key, stage, path.key⟩) (.received entry.cached)
  return entry.exposed

/-- A form is recorded. What is to be read then are the members of its collection. -/
def askForm (form : Form) (place : Place N) : Reading N (Recording N A σ) (List Nat) := do
  let entry ← onNetwork (collectionOf host place.1 form place.2)
  record (.form place.1.key form place.2.key) (.changed entry.aggregate)
  return (← onNetwork get).memberNodes entry.collection

variable [Number N]

/-- What a formula looks up on a path is made if it is missing, recorded, and read while the log is kept. -/
def loggedLookup (read : Nat → Reading N (Logging N A σ) (Option (Amount N))) (path : Path (Stat N)) :
    Lookup N (LoggedRecording N A σ) where
  path := path
  paths := fun stat => unlogged (askPaths host stat)
  value := fun stat stage path => do loggedIn read (← unlogged (askStage host stat stage path))
  values := fun form places => do
    let perPlace ← places.mapM fun place => do
      readAll (loggedIn read) (← unlogged (askForm host form place))
    return perPlace.flatten
  derived := fun request => unlogged (ExceptT.mk (StateT.lift (derive request).run))
  note := fun text => StateT.lift (StateT.lift (host.note text))

/-- Evaluate the formula of a node, subscribe it to what was looked up, and note that. -/
def loggedFormula (read : Nat → Reading N (Logging N A σ) (Option (Amount N))) (id : Nat)
    (f : FormulaNode N) : Reading N (Logging N A σ) (Option (Amount N)) := do
  let n ← getThe (Network N A σ)
  if n.released then throw .networkReleased
  let (result, recorded) ← (n.meaning f.source (loggedLookup host read f.path)).run.run []
  ExceptT.lift (StateT.lift (resubscribe id recorded))
  ExceptT.lift (log ⟨id, recorded.map (·.1), !result.isOk⟩)
  Reading.ofExcept result

/-- Compute the value of a cached node, and note that. -/
def loggedCompute (read : Nat → Reading N (Logging N A σ) (Option (Amount N))) (id : Nat)
    (c : CachedNode N A) : Logging N A σ (Except (Fault N) (Option (Amount N))) := do
  match c.guard.enter c.label with
  | .error fault => return .error fault
  | .ok guard =>
    modifyThe (Network N A σ) fun n =>
      n.modifyCached id fun c => { c with guard := guard, stale := false }
    let result ← (read c.inner).run
    modifyThe (Network N A σ) fun n => n.modifyCached id fun c =>
      { c with
        guard := Guard.open_
        cache := match result with
          | .ok value => if c.stale then c.cache else some value
          | .error _ => c.cache }
    log ⟨id, [], !result.isOk⟩
    return result.mapError (Fault.unwind c.label)

/-- Read a cached node. -/
def loggedCached (read : Nat → Reading N (Logging N A σ) (Option (Amount N))) (id : Nat)
    (c : CachedNode N A) : Reading N (Logging N A σ) (Option (Amount N)) := do
  let result ← match c.cache with
    | some value => pure (Except.ok value)
    | none => ExceptT.lift (loggedCompute read id c)
  modifyThe (Network N A σ) fun n => n.modifyCached id fun c => { c with observed := true }
  Reading.ofExcept result

/-- Read a node while the log is kept. -/
def loggedRead : Nat → Nat → Reading N (Logging N A σ) (Option (Amount N))
  | 0, _ => ExceptT.lift (StateT.lift exhausted)
  | fuel + 1, id => do
    match (← getThe (Network N A σ)).body? id with
    | none => ExceptT.lift (StateT.lift exhausted)
    | some (.input action) =>
      match ← ExceptT.lift (StateT.lift (host.supply action)) with
      | .value v => return v
      | .fault fault => throw fault
      | .node id => loggedRead fuel id
    | some .absent => return none
    | some (.formula f) => loggedFormula host (loggedRead fuel) id f
    | some (.cached c) => loggedCached (loggedRead fuel) id c
    | some (.exposed inner) | some (.wrapped inner _) => loggedRead fuel inner
    | some (.aggregate a) =>
      let members := (← getThe (Network N A σ)).memberNodes a.collection
      Reading.ofExcept (aggregate a.form (← readAll (loggedRead fuel) members))

/-- The depth that a node is read to, where at first a given one is tried. -/
def depthFrom (id depth : Nat) (n : Network N A σ) : Option Nat :=
  if (read host depth id n).isSome then some depth else depthFor host id n (2 * depth)

/-- The value of a node, read while the log is kept. -/
def loggedValueOf (id : Nat) : Reading N (Logging N A σ) (Option (Amount N)) := fun l n => do
  loggedRead host (← depthFrom host id n.readDepth n) id l n

end Lookups

/-! ## Without the log -/

/-- A computation that keeps a log comes to what another one comes to, apart from the log. -/
def Logs (x : Logging N A σ α) (y : Run N A σ α) : Prop :=
  ∀ (l : List Evaluation) (n : Network N A σ), (x.run l n).map (fun r => (r.1.1, r.2)) = y n

namespace Logs

theorem lift (y : Run N A σ α) : Logs (StateT.lift y) y := by
  intro l n
  change (Option.bind (y n) fun r => some ((r.1, l), r.2)).map _ = y n
  cases y n <;> rfl

theorem modify (f : Network N A σ → Network N A σ) :
    Logs (modifyThe (Network N A σ) f : Logging N A σ PUnit) (modifyThe (Network N A σ) f) := fun _ _ => rfl

theorem log (e : Evaluation) : Logs (log e : Logging N A σ Unit) (pure ⟨⟩) := fun _ _ => rfl

theorem bind {x : Logging N A σ α} {y : Run N A σ α} {f : α → Logging N A σ β} {g : α → Run N A σ β}
    (h : Logs x y) (hnext : ∀ a, Logs (f a) (g a)) : Logs (x >>= f) (y >>= g) := by
  intro l n
  change (Option.bind (x.run l n) fun r => f r.1.1 r.1.2 r.2).map _ = Option.bind (y n) fun r => g r.1 r.2
  rw [← h l n]
  cases x.run l n with
  | none => rfl
  | some r => exact hnext r.1.1 r.1.2 r.2

theorem pure (a : α) : Logs (Pure.pure a : Logging N A σ α) (Pure.pure a) := fun _ _ => rfl

theorem map {x : Logging N A σ α} {y : Run N A σ α} (f : α → β) (h : Logs x y) : Logs (f <$> x) (f <$> y) := by
  rw [map_eq_pure_bind, map_eq_pure_bind]
  exact h.bind fun a => .pure (f a)

end Logs

/-- The same for computations that record what they depend on. -/
def LogsRecording (x : Reading N (LoggedRecording N A σ) α) (y : Reading N (Recording N A σ) α) : Prop :=
  ∀ recorded, Logs (x.run.run recorded) (y.run.run recorded)

theorem congruence_logs :
    Reading.Congruence fun _ (x : Reading N (Logging N A σ) _) (y : Reading N (Run N A σ) _) =>
      Logs x.run y.run where
  pure _ _ _ := rfl
  throw _ _ _ := rfl
  bind hx hnext := hx.bind fun result => by
    cases result with
    | ok a => exact hnext a
    | error fault => exact .pure _

theorem congruence_logsRecording :
    Reading.Congruence fun _ (x : Reading N (LoggedRecording N A σ) _) y => LogsRecording x y where
  pure _ _ _ _ := rfl
  throw _ _ _ _ := rfl
  bind hx hnext recorded := by
    rw [ExceptT.run_bind, ExceptT.run_bind, StateT.run_bind, StateT.run_bind]
    refine (hx recorded).bind fun ⟨result, recorded'⟩ => ?_
    cases result with
    | ok a => exact hnext a recorded'
    | error fault => exact .pure _

theorem logs_unlogged (x : Reading N (Recording N A σ) α) : LogsRecording (unlogged x) x :=
  fun recorded => .lift (x.run.run recorded)

theorem logs_onNetwork (run : Run N A σ α) :
    LogsRecording (ExceptT.lift (StateT.lift (StateT.lift run))) (onNetwork run) := by
  intro recorded
  simp only [onNetwork, ExceptT.run_lift, StateT.run_map, StateT.run_lift]
  exact ((Logs.lift run).bind fun a => .pure (a, recorded)).map _

section Reading

variable {read : Nat → Reading N (Run N A σ) (Option (Amount N))}
  {read' : Nat → Reading N (Logging N A σ) (Option (Amount N))}
  (hread : ∀ id, Logs (read' id).run (read id).run) (host : Host N A σ)
include hread

theorem logs_loggedIn (id : Nat) : LogsRecording (loggedIn read' id) (readIn read id) :=
  fun recorded => (hread id).bind fun result => .pure (result, recorded)

/-- What formulas look up is the same whether the log is kept or not. -/
theorem logs_lookup (path : Path (Stat N)) :
    (loggedLookup host read' path).Related (fun _ => LogsRecording) (recordingLookup host read path) := by
  have hR := congruence_logsRecording (N := N) (A := A) (σ := σ)
  refine ⟨rfl, fun stat => logs_unlogged _, fun stat stage p => ?_, fun form places => ?_,
    fun request => logs_unlogged _, fun text => ?_⟩
  · have hask : (recordingLookup host read path).value stat stage p
        = askStage host stat stage p >>= readIn read := by
      simp only [askStage, bind_assoc, pure_bind]
      rfl
    rw [hask]
    exact hR.bind (logs_unlogged _) (logs_loggedIn hread)
  · refine hR.bind (hR.mapM fun place _ => ?_) fun values => hR.pure _
    have hask : (do
        let entry ← onNetwork (collectionOf host place.1 form place.2)
        record (.form place.1.key form place.2.key) (.changed entry.aggregate)
        readAll (readIn read) ((← onNetwork get).memberNodes entry.collection))
        = askForm host form place >>= readAll (readIn read) := by
      simp only [askForm, bind_assoc, pure_bind]
    refine (congrArg _ hask).mpr ?_
    exact hR.bind (logs_unlogged _) fun ids => hR.mapM fun id _ => logs_loggedIn hread id
  · exact logs_onNetwork (host.note text)

end Reading

section Nodes

variable [Number N] {n : Network N A σ} {id : Nat}

/-- Evaluating the formula of a node while the log is kept. -/
theorem loggedFormula_eq (host : Host N A σ) (read : Nat → Reading N (Logging N A σ) (Option (Amount N)))
    (f : FormulaNode N) (l : List Evaluation) (hreleased : n.released = false) :
    (loggedFormula host read id f).run.run l n = (do
      let (result, recorded) ← ((n.meaning f.source (loggedLookup host read f.path)).run.run [])
      StateT.lift (resubscribe id recorded)
      log ⟨id, recorded.map (·.1), !result.isOk⟩
      return result : Logging N A σ _).run l n := by
  change (if n.released = true then _ else _ : Reading N (Logging N A σ) _).run.run l n = _
  rw [hreleased]
  change Option.bind (Option.bind ((n.meaning f.source (loggedLookup host read f.path)).run.run [] l n) _) _
    = Option.bind ((n.meaning f.source (loggedLookup host read f.path)).run.run [] l n) _
  cases (n.meaning f.source (loggedLookup host read f.path)).run.run [] l n with
  | none => rfl
  | some r =>
    obtain ⟨⟨⟨result, recorded⟩, l'⟩, n'⟩ := r
    change Option.bind (Option.bind (Option.bind (resubscribe id recorded n') _) _) _
      = Option.bind (Option.bind (resubscribe id recorded n') _) _
    cases resubscribe id recorded n' with
    | none => rfl
    | some y => cases result <;> rfl

section Cached

variable {read : Nat → Reading N (Logging N A σ) (Option (Amount N))} {c : CachedNode N A}

omit [Number N]

/-- A value that is kept is read, and nothing is noted. -/
theorem loggedCached_kept {v : Option (Amount N)} (l : List Evaluation) (hcache : c.cache = some v) :
    (loggedCached read id c).run.run l n
      = some ((.ok v, l), n.modifyCached id fun c => { c with observed := true }) := by
  rw [loggedCached, hcache]
  rfl

/-- A cached node that is being computed is a cycle, and nothing is noted. -/
theorem loggedCached_entered (l : List Evaluation) (hcache : c.cache = none) (hentered : c.guard.entered) :
    (loggedCached read id c).run.run l n = some ((.error (Fault.cycleAt c.label), l),
      n.modifyCached id fun c => { c with observed := true }) := by
  rw [loggedCached, hcache, loggedCompute, Guard.enter, if_pos hentered]
  rfl

/-- Computing the value of a cached node while the log is kept. -/
theorem loggedCached_computed (l : List Evaluation) (hcache : c.cache = none)
    (hentered : c.guard.entered = false) :
    (loggedCached read id c).run.run l n = (do
      let result ← (read c.inner).run
      modifyThe (Network N A σ) fun n' => n'.modifyCached id (CachedNode.leave result)
      log ⟨id, [], !result.isOk⟩
      modifyThe (Network N A σ) fun n' => n'.modifyCached id fun c => { c with observed := true }
      return result.mapError (Fault.unwind c.label) : Logging N A σ _).run l
        (n.modifyCached id CachedNode.enter) := by
  rw [loggedCached, hcache, loggedCompute, Guard.enter, hentered]
  change Option.bind (Option.bind (Option.bind ((read c.inner).run.run l
    (n.modifyCached id CachedNode.enter)) _) _) _ = Option.bind ((read c.inner).run.run l _) _
  cases (read c.inner).run.run l (n.modifyCached id CachedNode.enter) with
  | none => rfl
  | some x =>
    obtain ⟨⟨result, l'⟩, n'⟩ := x
    cases result <;> rfl

end Cached

/-- A node is read by what it does, if it is there. -/
theorem loggedRead_eq_match (host : Host N A σ) (depth : Nat) (l : List Evaluation) :
    (loggedRead host (depth + 1) id).run.run l n = (match n.body? id with
      | none => ExceptT.lift (StateT.lift exhausted)
      | some (.input action) => do
        match ← ExceptT.lift (StateT.lift (host.supply action)) with
        | .value v => return v
        | .fault fault => throw fault
        | .node id => loggedRead host depth id
      | some .absent => return none
      | some (.formula f) => loggedFormula host (loggedRead host depth) id f
      | some (.cached c) => loggedCached (loggedRead host depth) id c
      | some (.exposed inner) | some (.wrapped inner _) => loggedRead host depth inner
      | some (.aggregate a) => do
        let members := (← getThe (Network N A σ)).memberNodes a.collection
        Reading.ofExcept
          (aggregate a.form (← readAll (loggedRead host depth) members))).run.run l n := rfl

/-- How a node is read while the log is kept depends on what it does. -/
theorem loggedRead_apply (host : Host N A σ) (depth : Nat) (l : List Evaluation) {body : Body N A}
    (hbody : n.body? id = some body) : (loggedRead host (depth + 1) id).run.run l n = (match body with
      | .input action => do
        match ← ExceptT.lift (StateT.lift (host.supply action)) with
        | .value v => return v
        | .fault fault => throw fault
        | .node id => loggedRead host depth id
      | .absent => pure none
      | .formula f => loggedFormula host (loggedRead host depth) id f
      | .cached c => loggedCached (loggedRead host depth) id c
      | .exposed inner | .wrapped inner _ => loggedRead host depth inner
      | .aggregate a => do
        Reading.ofExcept (aggregate a.form
          (← readAll (loggedRead host depth) (n.memberNodes a.collection)))).run.run l n := by
  rw [loggedRead_eq_match, hbody]
  cases body <;> rfl

section Forget

variable {read : Nat → Reading N (Run N A σ) (Option (Amount N))}
  {read' : Nat → Reading N (Logging N A σ) (Option (Amount N))}
  (hread : ∀ id, Logs (read' id).run (read id).run)
include hread

/-- Formulas are evaluated alike whether the log is kept or not. -/
theorem logs_formula (host : Host N A σ) (f : FormulaNode N) :
    Logs (loggedFormula host read' id f).run (readFormula host read id f).run := by
  intro l n
  cases hreleased : n.released with
  | true =>
    rw [readFormula_released host read id f hreleased]
    change ((if n.released = true then _ else _ : Reading N (Logging N A σ) _).run.run l n).map _ = _
    rw [hreleased]
    rfl
  | false =>
    rw [loggedFormula_eq host read' f l hreleased, readFormula_eq host read id f hreleased]
    refine Logs.bind ?_ (fun ⟨result, recorded⟩ => ?_) l n
    · exact n.related_meaning congruence_logsRecording f.source _ _ (logs_lookup hread host f.path) []
    · exact (Logs.lift _).bind fun _ => (Logs.log _).bind fun _ => .pure result

omit [Number N] in
/-- Cached nodes are read alike whether the log is kept or not. -/
theorem logs_cached (c : CachedNode N A) :
    Logs (loggedCached read' id c).run (readCached read id c).run := by
  intro l n
  cases hcache : c.cache with
  | some v =>
    rw [loggedCached_kept l hcache, readCached_kept hcache]
    rfl
  | none =>
    cases hguard : c.guard.entered with
    | true =>
      rw [loggedCached_entered l hcache hguard, readCached_entered hcache hguard]
      rfl
    | false =>
      rw [loggedCached_computed l hcache hguard, readCached_computed hcache hguard]
      refine (hread c.inner).bind (fun result => ?_) l _
      exact (Logs.modify _).bind fun _ => (Logs.log _).bind fun _ => (Logs.modify _).bind fun _ => .pure _

end Forget

variable (host : Host N A σ)

/-- Nodes are read alike whether the log is kept or not. -/
theorem logs_read : ∀ depth id : Nat, Logs (loggedRead host depth id).run (read host depth id).run
  | 0, _ => fun _ _ => rfl
  | depth + 1, id => by
    have ih := logs_read depth
    have hQ := congruence_logs (N := N) (A := A) (σ := σ)
    intro l n
    cases hbody : n.body? id with
    | none =>
      rw [read_of_none host depth hbody]
      rw [loggedRead_eq_match, hbody]
      rfl
    | some body =>
      rw [loggedRead_apply host depth l hbody, read_apply host depth hbody]
      cases body with
      | input action =>
        refine hQ.bind (fun l n => (Logs.lift (host.supply action)).map Except.ok l n) (fun supply => ?_) l n
        cases supply with
        | value v => exact hQ.pure v
        | fault fault => exact hQ.throw fault
        | node i => exact ih i
      | absent => rfl
      | formula f => exact logs_formula ih host f l n
      | cached c => exact logs_cached ih c l n
      | exposed inner | wrapped inner _ => exact ih inner l n
      | aggregate a => exact (hQ.bind (hQ.mapM fun i _ => ih i) fun vs => hQ.ofExcept _) l n

/-- A node is read to the depth that turns out to be enough. -/
theorem readFrom_eq_bind (id depth : Nat) : readFrom host id depth n
    = (depthFrom host id depth n).bind fun depth => read host depth id n := by
  rw [readFrom, depthFrom]
  cases hread : read host depth id n with
  | none => rfl
  | some answer => exact hread.symm

/-- The value of a node is the same whether the log is kept or not. -/
theorem logs_valueOf (id : Nat) : Logs (loggedValueOf host id).run (valueOf host id).run := by
  intro l n
  have hlogged : (loggedValueOf host id).run.run l n = (depthFrom host id n.readDepth n).bind fun depth =>
    (loggedRead host depth id).run.run l n := rfl
  rw [hlogged, run_apply]
  show _ = readFrom host id n.readDepth n
  rw [readFrom_eq_bind]
  cases depthFrom host id n.readDepth n with
  | none => rfl
  | some depth => exact logs_read host depth id l n

end Nodes

end Network

namespace Calculator

variable {N A σ : Type} [Number N] (host : Host N A σ)

/-- What a call reads, if it is there to read something. -/
def Call.reading? : Call N A → Option (Reading N (Logging N A σ) (Option (Amount N)))
  | .value stat stage path => some do
    loggedValueOf host (← ExceptT.lift (StateT.lift (node host stat stage path)))
  | .form stat kind path => some do
    loggedValueOf host (← ExceptT.lift (StateT.lift (collectionOf host stat kind path))).aggregate
  | .read node => some (loggedValueOf host node)
  | _ => none

/-- Carry out a call while the log is kept. Only calls that read are noted. -/
def Call.logged (call : Call N A) : Logging N A σ Unit :=
  match call.reading? host with
  | some reading => discard reading.run
  | none => StateT.lift (call.run host)

/-- Calls are carried out alike whether the log is kept or not. -/
theorem Call.logs (call : Call N A) : Logs (call.logged host) (call.run host) := by
  have hQ := congruence_logs (N := N) (A := A) (σ := σ)
  have hlift {α : Type} (run : Run N A σ α) : Logs (ExceptT.lift (StateT.lift run) :
      Reading N (Logging N A σ) α).run (ExceptT.lift run : Reading N (Run N A σ) α).run := by
    rw [ExceptT.run_lift, ExceptT.run_lift]
    exact (Logs.lift run).map _
  cases call with
  | value stat stage path =>
    exact (hQ.bind (hlift (node host stat stage path)) (logs_valueOf host)).map _
  | form stat form path =>
    have hrun : Call.run host (.form stat form path) = discard (do
        valueOf host (← ExceptT.lift (collectionOf host stat form path)).aggregate :
          Reading N (Run N A σ) _).run := by
      rw [ExceptT.run_bind_lift, Call.run]
      simp only [discard, map_const, Function.comp_apply, map_bind]
    rw [hrun]
    exact (hQ.bind (hlift (collectionOf host stat form path)) fun entry => logs_valueOf host _).map _
  | read node => exact (logs_valueOf host node).map _
  | _ => exact .lift _

end Calculator

end StatEngine
