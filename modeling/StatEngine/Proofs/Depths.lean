import StatEngine.Proofs.Inquiry
import StatEngine.Proofs.Runs

/-!
# Reading with other readers

How a node is read depends on how it reads other nodes (`readBody`). If two readers are related for
those, in a way that survives recording and subscribing (`ReadRelation`), then the node is read in
related ways. In particular a node that can be read to some depth comes to the same at every greater
one, so how deep nodes are read when their value is asked for does not matter.

## Main definitions

* `readBody`: reading a node with any reader for what it reads;
* `ReadRelation`: relations between computations that go along with reading;
* `Below`: whatever the first run comes to, the second one does.

## Main statements

* `ReadRelation.readBody`: a node is read in related ways by related readers;
* `below_read`: reading deeper comes to the same;
* `valueOf_eq_of_read`: the value of a node is what reading it to any depth comes to.
-/

namespace StatEngine.Network

variable {N A σ : Type}

/-! ## Relations between readers -/

/-- Relations between computations, those that record among them, that go along with the reading of
nodes. -/
structure ReadRelation (Q : (α : Type) → Reading N (Run N A σ) α → Reading N (Run N A σ) α → Prop)
    (R : (α : Type) → Reading N (Recording N A σ) α → Reading N (Recording N A σ) α → Prop) :
    Prop where
  congruence : Reading.Congruence Q
  recording : Reading.Congruence R
  refl : ∀ {α : Type} (x : Reading N (Run N A σ) α), Q α x x
  refl_recording : ∀ {α : Type} (x : Reading N (Recording N A σ) α), R α x x
  readIn : ∀ {read read' : Nat → Reading N (Run N A σ) (Option (Amount N))} {id : Nat},
    Q _ (read id) (read' id) → R _ (readIn read id) (readIn read' id)
  subscribing : ∀ {α : Type} {x x' : Reading N (Recording N A σ) α} (id : Nat),
    R α x x' → Q α (subscribing id x) (subscribing id x')

namespace ReadRelation

variable {Q : (α : Type) → Reading N (Run N A σ) α → Reading N (Run N A σ) α → Prop}
  {R : (α : Type) → Reading N (Recording N A σ) α → Reading N (Recording N A σ) α → Prop}
  (h : ReadRelation Q R) {read read' : Nat → Reading N (Run N A σ) (Option (Amount N))}
  (hread : ∀ id, Q _ (read id) (read' id)) (host : Host N A σ)
include h hread

/-- What formulas look up is related. -/
theorem lookup (path : Path (Stat N)) :
    (recordingLookup host read path).Related R (recordingLookup host read' path) := by
  have hR : Reading.Congruence R := h.recording
  refine ⟨rfl, fun stat => h.refl_recording _, fun stat stage p => ?_, fun form places => ?_,
    fun request => h.refl_recording _, fun text => h.refl_recording _⟩
  · exact hR.bind (h.refl_recording _) fun entry => hR.bind (h.refl_recording _) fun _ =>
      h.readIn (hread entry.exposed)
  · refine hR.bind (hR.mapM fun place _ => ?_) fun values => hR.pure _
    refine hR.bind (h.refl_recording _) fun entry => hR.bind (h.refl_recording _) fun _ => ?_
    exact hR.bind (h.refl_recording _) fun n => hR.mapM fun id _ => h.readIn (hread id)

/-- Inputs may be the values of nodes. -/
theorem readInput (action : A) : Q _ (readInput host read action) (readInput host read' action) := by
  refine h.congruence.bind (h.refl _) fun supply => ?_
  cases supply with
  | value v => exact h.refl _
  | fault fault => exact h.refl _
  | node id => exact hread id

variable [Number N]

/-- Formulas are evaluated in related ways. -/
theorem readFormula (id : Nat) (f : FormulaNode N) :
    Q _ (readFormula host read id f) (readFormula host read' id f) := by
  unfold Network.readFormula
  refine h.congruence.bind (h.refl _) fun n => ?_
  have hevaluated := h.subscribing id
    (n.related_meaning h.recording f.source _ _ (h.lookup hread host f.path))
  split
  · exact h.congruence.bind (h.refl _) fun _ => hevaluated
  · exact hevaluated

end ReadRelation

section Body

variable [Number N]

/-- Read a node that does what the body says, where `read` reads what it reads. -/
def readBody (host : Host N A σ) (read : Nat → Reading N (Run N A σ) (Option (Amount N)))
    (n : Network N A σ) (id : Nat) : Body N A → Reading N (Run N A σ) (Option (Amount N))
  | .input action => readInput host read action
  | .absent => pure none
  | .formula f => readFormula host read id f
  | .cached c => readCached read id c
  | .exposed inner | .wrapped inner _ => read inner
  | .aggregate a => do
    Reading.ofExcept (aggregate a.form (← readAll read (n.memberNodes a.collection)))

/-- A node is read by what it does, where the others are read to less depth. -/
theorem read_eq_readBody (host : Host N A σ) (depth : Nat) {n : Network N A σ} {id : Nat}
    {body : Body N A} (hbody : n.body? id = some body) :
    (read host (depth + 1) id).run n = (readBody host (read host depth) n id body).run n := by
  rw [read_apply host depth hbody]
  cases body <;> rfl

/-- A node is read in related ways by related readers, cached nodes apart. -/
theorem ReadRelation.readBody {Q : (α : Type) → Reading N (Run N A σ) α → Reading N (Run N A σ) α → Prop}
    {R : (α : Type) → Reading N (Recording N A σ) α → Reading N (Recording N A σ) α → Prop}
    (h : ReadRelation Q R) {read read' : Nat → Reading N (Run N A σ) (Option (Amount N))}
    (hread : ∀ id, Q _ (read id) (read' id)) (host : Host N A σ) (n : Network N A σ) (id : Nat) {body : Body N A}
    (hcached : ∀ c, body = .cached c → Q _ (readCached read id c) (readCached read' id c)) :
    Q _ (readBody host read n id body) (readBody host read' n id body) := by
  cases body with
  | input action => exact h.readInput hread host action
  | absent => exact h.refl _
  | formula f => exact h.readFormula hread host id f
  | cached c => exact hcached c rfl
  | exposed inner | wrapped inner _ => exact hread inner
  | aggregate a =>
    exact h.congruence.bind (h.congruence.mapM fun id _ => hread id) fun values => h.refl _

end Body

/-! ## What a run comes to -/

/-- Whatever the first run comes to, the second one does. -/
def Below {α : Type} (x y : Run N A σ α) : Prop := ∀ n r, x n = some r → y n = some r

namespace Below

variable {α β : Type} {x y : Run N A σ α}

theorem refl (x : Run N A σ α) : Below x x := fun _ _ h => h

theorem bind {f g : α → Run N A σ β} (h : Below x y) (hnext : ∀ a, Below (f a) (g a)) :
    Below (x >>= f) (y >>= g) := by
  intro n r hr
  obtain ⟨⟨a, n₁⟩, hx, hf⟩ := Option.bind_eq_some_iff.mp hr
  exact Option.bind_eq_some_iff.mpr ⟨(a, n₁), h n _ hx, hnext a n₁ r hf⟩

theorem map (f : α → β) (h : Below x y) : Below (f <$> x) (f <$> y) := by
  rw [map_eq_pure_bind, map_eq_pure_bind]
  exact h.bind fun _ => .refl _

end Below

/-- Whatever the first computation that records comes to, the second one does. -/
def BelowRecording {α : Type} (x y : Reading N (Recording N A σ) α) : Prop :=
  ∀ recorded, Below (x.run.run recorded) (y.run.run recorded)

theorem congruence_below :
    Reading.Congruence fun _ (x y : Reading N (Run N A σ) _) => Below x.run y.run where
  pure _ := .refl _
  throw _ := .refl _
  bind hx hnext := Below.bind hx fun result => by
    -- a fault ends both of them
    cases result with
    | ok a => exact hnext a
    | error fault => exact .refl _

theorem congruence_belowRecording :
    Reading.Congruence fun _ (x y : Reading N (Recording N A σ) _) => BelowRecording x y where
  pure _ _ := .refl _
  throw _ _ := .refl _
  bind {_ _ x x' next next'} hx hnext recorded := by
    rw [ExceptT.run_bind, ExceptT.run_bind, StateT.run_bind, StateT.run_bind]
    refine Below.bind (hx recorded) fun ⟨result, recorded'⟩ => ?_
    cases result with
    | ok a => exact hnext a recorded'
    | error fault => exact .refl _

/-- Reading comes to more if what it reads comes to more. -/
theorem readRelation_below : ReadRelation (N := N) (A := A) (σ := σ)
    (fun _ x y => Below x.run y.run) fun _ x y => BelowRecording x y where
  congruence := congruence_below
  recording := congruence_belowRecording
  refl _ := .refl _
  refl_recording _ _ := .refl _
  readIn h _ := Below.bind h fun _ => .refl _
  subscribing _ h := Below.bind (Below.map _ (h [])) fun _ => .refl _

section Readers

variable {read read' : Nat → Reading N (Run N A σ) (Option (Amount N))}
  (h : ∀ id, Below (read id).run (read' id).run)
include h

/-- Nodes are read one after another. -/
theorem below_readAll (ids : List Nat) : Below (readAll read ids).run (readAll read' ids).run :=
  congruence_below.mapM fun id _ => h id

theorem below_answeredBy (host : Host N A σ) (path : Path (Stat N)) {α : Type}
    (inquiry : Inquiry N (Except (Fault N) α)) :
    BelowRecording (inquiry.answeredBy (recordingLookup host read path))
      (inquiry.answeredBy (recordingLookup host read' path)) := by
  induction inquiry with
  | done result => exact fun _ => .refl _
  | ask query next ih =>
    exact congruence_belowRecording.bind ((readRelation_below.lookup h host path).answer query) ih

theorem below_readCached (id : Nat) (c : CachedNode N A) :
    Below (readCached read id c).run (readCached read' id c).run := by
  have hcompute : Below (computeCached read id c) (computeCached read' id c) := by
    unfold computeCached
    cases c.guard.enter (N := N) c.label with
    | error fault => exact .refl _
    | ok guard => exact Below.bind (.refl _) fun _ => Below.bind (h c.inner) fun _ => .refl _
  unfold readCached
  cases c.cache with
  | some v => exact .refl _
  | none => exact Below.bind (Below.map _ hcompute) fun _ => .refl _

end Readers

/-! ## Depths -/

section Depths

variable [Number N] (host : Host N A σ)

/-- Whatever a node is read as, it is read as if nodes may read each other one deeper. -/
theorem below_read_succ :
    ∀ depth id : Nat, Below (read host depth id).run (read host (depth + 1) id).run
  | 0, _ => fun _ _ h => by cases h
  | depth + 1, id => by
    intro n r hr
    cases hbody : n.body? id with
    | none =>
      rw [read_of_none host depth hbody] at hr
      cases hr
    | some body =>
      rw [read_eq_readBody host _ hbody] at hr ⊢
      have ih := below_read_succ depth
      exact readRelation_below.readBody ih host n id (fun c _ => below_readCached ih id c) n r hr

/-- Whatever a node is read as, it is read as to any greater depth. -/
theorem below_read {depth depth' : Nat} (hle : depth ≤ depth') (id : Nat) :
    Below (read host depth id).run (read host depth' id).run := by
  induction hle with
  | refl => exact .refl _
  | step _ ih => exact fun n r hr => below_read_succ host _ id n r (ih n r hr)

variable {host}

/-- What reading a node to some depth comes to is its value. -/
theorem valueOf_eq_of_read {depth id : Nat} {n : Network N A σ}
    {r : Except (Fault N) (Option (Amount N)) × Network N A σ}
    (h : (read host depth id).run n = some r) : (valueOf host id).run n = some r := by
  have hdeeper (d : Nat) (hle : depth ≤ d) : (read host d id).run n = some r :=
    below_read host hle id n r h
  have hvalue : (valueOf host id).run n ≠ none :=
    valueOf_ne_none fun d hle hnone => by cases (hdeeper d hle).symm.trans hnone
  obtain ⟨r', hr'⟩ := Option.ne_none_iff_exists'.mp hvalue
  obtain ⟨result, n'⟩ := r'
  rw [hr']
  -- the depth at which the value was found does not matter either
  rw [run_apply] at hr'
  obtain ⟨d, hd⟩ := exists_read_of_readFrom hr'
  have hmax := below_read host (Nat.le_max_left d depth) id n _ hd
  exact hmax.symm.trans (hdeeper _ (Nat.le_max_right d depth))

end Depths

end StatEngine.Network
