import StatEngine.Proofs.Depths
import StatEngine.Proofs.Exploring

/-!
# Reading with a stack

Whether a node is being computed is told by its guard. It can be told by a stack just as well, which
has the nodes that are being computed, the innermost first: a node is put on it when it is computed, and
one that is on it is not computed again (`readStacked`). Two readers come to the same if they do so for
the nodes that formulas look up; that one of them gives up where the other one does not matters only
for those.

## Main definitions

* `readStacked`: reading while the stack is kept;
* `SameReads`: two readers come to the same answer;
* `ekedOut`: reading as the second reader does where the first one gives up.

## Main statements

* `SameReads.answeredBy`: a formula comes to the same with two readers if what it asks for does.
-/

namespace StatEngine.Network

variable {N A σ : Type}

variable [Number N]

/-! ## Two readers -/

/-- Two readers come to the same. -/
def Concur (read read' : Nat → Reading N (Run N A σ) (Option (Amount N))) (id : Nat)
    (n : Network N A σ) : Prop := (read id).run n = (read' id).run n

open Classical in
/-- Read a node if two readers come to the same. -/
noncomputable def common (read read' : Nat → Reading N (Run N A σ) (Option (Amount N))) (id : Nat) :
    Reading N (Run N A σ) (Option (Amount N)) := fun n =>
  if Concur read read' id n then (read id).run n else none

/-- Read a node as the first reader does if it comes to anything, and as the second one otherwise. -/
def ekedOut (read read' : Nat → Reading N (Run N A σ) (Option (Amount N))) (id : Nat) :
    Reading N (Run N A σ) (Option (Amount N)) := fun n => ((read id).run n).or ((read' id).run n)

omit [Number N] in
theorem run_ekedOut (read read' : Nat → Reading N (Run N A σ) (Option (Amount N))) (id : Nat)
    (n : Network N A σ) : (ekedOut read read' id).run n = ((read id).run n).or ((read' id).run n) := rfl

omit [Number N] in
theorem below_ekedOut (read read' : Nat → Reading N (Run N A σ) (Option (Amount N))) (id : Nat) :
    Below (read id).run (ekedOut read read' id).run := by
  intro n r hr
  rw [run_ekedOut, hr]
  rfl

/-- Two readers come to the same answer for the nodes in `P`, as long as `I` holds. -/
def SameReads (sc : Regime N) (I : Network N A σ → Prop) (P : Network N A σ → Nat → Prop)
    (read read' : Nat → Reading N (Run N A σ) (Option (Amount N))) : Prop :=
  ∀ (n : Network N A σ) (id : Nat), n.Sane sc → I n → P n id →
    ∃ answer, (read id).run n = some answer ∧ (read' id).run n = some answer

section Common

variable {read read' : Nat → Reading N (Run N A σ) (Option (Amount N))}

omit [Number N] in
theorem common_eq_some_iff {id : Nat} {n : Network N A σ}
    {answer : Except (Fault N) (Option (Amount N)) × Network N A σ} :
    (common read read' id).run n = some answer
      ↔ (read id).run n = some answer ∧ (read' id).run n = some answer := by
  rw [ExceptT.run, common]
  by_cases heq : Concur read read' id n
  · have hsame : (read id).run n = (read' id).run n := heq
    rw [if_pos heq, ← hsame, and_self]
  · rw [if_neg heq]
    constructor
    · intro h
      cases h
    · rintro ⟨h, h'⟩
      exact absurd (h.trans h'.symm) heq

namespace SameReads

variable {sc : Regime N} {I : Network N A σ → Prop} {P : Network N A σ → Nat → Prop}
  (h : SameReads sc I P read read') (hread : ReadsInOrder sc False I P read)
include h hread

/-- Nodes are read in order where two readers come to the same. -/
theorem readsInOrder_common : ReadsInOrder sc True I P (common read read') := by
  intro n id hn hI hid
  obtain ⟨answer, hanswer⟩ := h n id hn hI hid
  refine ⟨fun _ hnone => ?_, fun hrun => ?_⟩
  · rw [common_eq_some_iff.mpr hanswer] at hnone
    cases hnone
  · exact (hread n id hn hI hid).partly (common_eq_some_iff.mp hrun).1

variable (hreach : Reach sc I P) {n : Network N A σ} (hn : n.Sane sc) (hI : I n)
include hreach hn hI

/-- Reading nodes one after another comes to the same. -/
theorem readAll {ids : List Nat} (hids : ∀ i ∈ ids, P n i) :
    ∃ answer, (Network.readAll read ids).run n = some answer
      ∧ (Network.readAll read' ids).run n = some answer := by
  have hcommon := (h.readsInOrder_common hread).readAll hreach ids n hn hI hids
  obtain ⟨answer, hanswer⟩ := Option.ne_none_iff_exists'.mp (hcommon.total trivial)
  refine ⟨answer, below_readAll (fun id n r hr => ?_) ids n answer hanswer,
    below_readAll (fun id n r hr => ?_) ids n answer hanswer⟩
  · exact (common_eq_some_iff.mp hr).1
  · exact (common_eq_some_iff.mp hr).2

/-- Answering what a regime admits comes to the same. -/
theorem answeredBy {host : Host N A σ} {tell : A → σ → σ} (hhost : host.Aloof tell)
    (hnote : ∀ text (n : Network N A σ), (host.note text) n ≠ none) (path : Path (Stat N)) {α : Type}
    {inquiry : Inquiry N (Except (Fault N) α)} (hasks : inquiry.Asks (fun _ => Query.Admitted sc)
      (fun _ query reply _ => query.Names sc reply) ()) :
    ∃ answer, (inquiry.answeredBy (recordingLookup host read path)).run.run [] n = some answer
      ∧ (inquiry.answeredBy (recordingLookup host read' path)).run.run [] n = some answer := by
  have hcommon := explores_answeredBy hhost hreach (h.readsInOrder_common hread) (fun _ => hnote) path
    hasks [] n hn hI (by simp [Resolves])
  obtain ⟨answer, hanswer⟩ := Option.ne_none_iff_exists'.mp (hcommon.total trivial)
  refine ⟨answer, below_answeredBy (fun id n r hr => ?_) host path inquiry [] n answer hanswer,
    below_answeredBy (fun id n r hr => ?_) host path inquiry [] n answer hanswer⟩
  · exact (common_eq_some_iff.mp hr).1
  · exact (common_eq_some_iff.mp hr).2

end SameReads

end Common

/-! ## The stack -/

/-- Read a node while keeping the stack of the nodes that are being computed, the innermost first. A
node that is on it is part of a cycle, and one that is not is put on it to be computed, whatever its
guard says. There is no result if the stack would get longer than the limit. -/
def readStacked (host : Host N A σ) (limit : Nat) :
    Nat → List Nat → Nat → Reading N (Run N A σ) (Option (Amount N))
  | 0, _, _ => ExceptT.lift exhausted
  | fuel + 1, stack, id => do
    match (← getThe (Network N A σ)).body? id with
    | none => ExceptT.lift exhausted
    | some (.input action) => readInput host (readStacked host limit fuel stack) action
    | some .absent => return none
    | some (.formula f) => readFormula host (readStacked host limit fuel stack) id f
    | some (.cached c) =>
      if id ∈ stack then do
        modifyThe (Network N A σ) fun n => n.modifyCached id fun c => { c with observed := true }
        throw (Fault.cycleAt c.label)
      else if stack.length < limit then
        readCached (readStacked host limit fuel (id :: stack)) id { c with guard := Guard.open_ }
      else ExceptT.lift exhausted
    | some (.exposed inner) | some (.wrapped inner _) => readStacked host limit fuel stack inner
    | some (.aggregate a) =>
      let members := (← getThe (Network N A σ)).memberNodes a.collection
      Reading.ofExcept (aggregate a.form (← readAll (readStacked host limit fuel stack) members))

section Stack

variable (host : Host N A σ) {n : Network N A σ} {id limit : Nat} {stack : List Nat}

/-- How a node is read depends on what it does. The stack matters to cached nodes alone. -/
theorem readStacked_apply (fuel : Nat) {body : Body N A} (hbody : n.body? id = some body) :
    (readStacked host limit (fuel + 1) stack id).run n = (match body with
      | .input action => readInput host (readStacked host limit fuel stack) action
      | .absent => pure none
      | .formula f => readFormula host (readStacked host limit fuel stack) id f
      | .cached c =>
        if id ∈ stack then do
          modifyThe (Network N A σ) fun n => n.modifyCached id fun c => { c with observed := true }
          throw (Fault.cycleAt c.label)
        else if stack.length < limit then
          readCached (readStacked host limit fuel (id :: stack)) id { c with guard := Guard.open_ }
        else ExceptT.lift exhausted
      | .exposed inner | .wrapped inner _ => readStacked host limit fuel stack inner
      | .aggregate a => do
        Reading.ofExcept (aggregate a.form
          (← readAll (readStacked host limit fuel stack) (n.memberNodes a.collection)))).run n := by
  rw [readStacked]
  change (match n.body? id with
    | none => _
    | some (.input _) => _
    | some .absent => _
    | some (.formula _) => _
    | some (.cached _) => _
    | some (.exposed _) | some (.wrapped _ _) => _
    | some (.aggregate _) => _ : Reading N (Run N A σ) _).run n = _
  rw [hbody]
  cases body <;> rfl

end Stack

end StatEngine.Network
