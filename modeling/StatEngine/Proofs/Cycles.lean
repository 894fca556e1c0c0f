import StatEngine.Number.Double
import StatEngine.Proofs.Depths

/-!
# Cycles

A node that is read while it is being computed ends in a fault, which unwinds through all the nodes that
are being computed. No formula catches it: if what comes of reading one node depends on reading another
one and that fails, then so does the first. On its way the fault collects the labels of the cycle, and when it comes
back to the node that was entered twice it tells them in the order of evaluation, whatever is outside.

## Main definitions

* `Frame`: a node that is being computed;
* `AsksFor`: reading a node comes to reading another one;
* `ReachesNode`: with some nodes being computed meanwhile, reading one node comes to reading another one;
* `IsReentered`: a node that is being computed is about to be read.

## Main statements

* `Fault.unwindAll_cycleAt`: what a cycle becomes while it unwinds;
* `AsksFor.fails`: a node fails with what it asks for;
* `ReachesNode.unwinds`: a fault unwinds through the nodes that are being computed;
* `cycle_reported`: a read that comes to a node again reports the cycle.
-/

namespace StatEngine

/-! ## Unwinding -/

namespace Fault

variable {N : Type} {label : String} {labels : List String}

/-- A fault unwinds through nodes with the given labels, the outermost first. -/
def unwindAll (labels : List String) (fault : Fault N) : Fault N := labels.foldr unwind fault

@[simp]
theorem unwindAll_cons (label : String) (labels : List String) (fault : Fault N) :
    unwindAll (label :: labels) fault = (unwindAll labels fault).unwind label := rfl

theorem unwindAll_append (outer inner : List String) (fault : Fault N) :
    unwindAll (outer ++ inner) fault = unwindAll outer (unwindAll inner fault) :=
  List.foldr_append

/-- A path that comes back to its first label at the end is closed. -/
theorem closed_cons_append (label : String) (labels : List String) :
    closed (label :: labels ++ [label]) := by
  have hlast : (label :: labels ++ [label]).getLast? = some label := List.getLast?_concat
  rw [closed, hlast]
  simp

/-- A path that is closed is passed on as it is. -/
theorem unwindAll_closed {path : List String} (h : closed path) (labels : List String) :
    unwindAll labels (.cycle path : Fault N) = .cycle path := by
  induction labels with
  | nil => rfl
  | cons label labels ih => rw [unwindAll_cons, ih, unwind, if_pos h]

/-- A path that does not come back to its first label is open. -/
theorem not_closed_cons (h : label ∉ labels) : closed (label :: labels) = false := by
  cases hlast : labels.getLast? with
  | none =>
    rw [List.getLast?_eq_none_iff.mp hlast]
    rfl
  | some last =>
    have hne : label ≠ last := fun heq => h (heq ▸ List.mem_of_getLast? hlast)
    simp [closed, List.getLast?_cons, hlast, hne]

/-- While a cycle unwinds through other labels it collects them. -/
theorem unwindAll_cycleAt_open (h : label ∉ labels) :
    unwindAll labels (cycleAt label : Fault N) = .cycle (label :: labels.reverse) := by
  induction labels with
  | nil => rfl
  | cons l labels ih =>
    obtain ⟨hne, hmem⟩ := not_or.mp (mt List.mem_cons.mpr h)
    have hopen : closed (label :: labels.reverse) = false := not_closed_cons (by simpa using hmem)
    have hnext : closed (label :: labels.reverse ++ [l]) = false :=
      not_closed_cons (by simpa using ⟨hmem, hne⟩)
    rw [List.cons_append] at hnext
    rw [unwindAll_cons, ih hmem, unwind]
    simp [hopen, hnext]

/-- A cycle that comes back to the node it started with is told in the order of evaluation, whatever it
unwinds through after that. -/
theorem unwindAll_cycleAt (outer : List String) (h : label ∉ labels) :
    unwindAll (outer ++ label :: labels) (cycleAt label : Fault N)
      = .cycle (label :: labels ++ [label]) := by
  have hopen : closed (label :: labels.reverse) = false := not_closed_cons (by simpa using h)
  have hclosed := closed_cons_append label labels.reverse
  have hback : (label :: labels.reverse ++ [label]).reverse = label :: labels ++ [label] := by simp
  rw [unwindAll_append, unwindAll_cons, unwindAll_cycleAt_open h, unwind, hopen]
  simp only [Bool.false_eq_true, if_false, List.isEmpty_cons, hclosed, if_true, hback]
  exact unwindAll_closed (closed_cons_append label labels) outer

end Fault

namespace Network

variable {N A σ : Type}

/-! ## Faults that are not caught -/

/-- The first run comes to what the second one does, unless it comes to what satisfies `p`. -/
def AgreesUnless {α : Type} (p : α → Prop) (x y : Run N A σ α) : Prop :=
  ∀ n, x n = y n ∨ ∃ a n', x n = some (a, n') ∧ p a

namespace AgreesUnless

variable {α β : Type} {p : α → Prop} {q : β → Prop} {x y : Run N A σ α}

theorem refl : AgreesUnless p x x := fun _ => .inl rfl

/-- What satisfies `p` may not be gone on with in another way. -/
theorem bind {f g : α → Run N A σ β} (h : AgreesUnless p x y) (hnext : ∀ a, AgreesUnless q (f a) (g a))
    (hp : ∀ a, p a → ∀ n, ∃ b n', f a n = some (b, n') ∧ q b) :
    AgreesUnless q (x >>= f) (y >>= g) := by
  intro n
  rcases h n with heq | ⟨a, n₁, hx, ha⟩
  · cases hy : y n with
    | none =>
      change Option.bind (x n) _ = Option.bind (y n) _ ∨ _
      rw [heq, hy]
      exact .inl rfl
    | some r =>
      obtain ⟨a, n₁⟩ := r
      rw [bind_apply (heq.trans hy), bind_apply hy]
      exact hnext a n₁
  · rw [bind_apply hx]
    exact .inr (hp a ha n₁)

end AgreesUnless

section Fails

variable (fault : Fault N)

/-- The first computation comes to what the second one does, unless it ends in the fault. -/
def UnlessFails (α : Type) (x y : Reading N (Run N A σ) α) : Prop :=
  AgreesUnless (· = .error fault) x.run y.run

/-- The first computation that records comes to what the second one does, unless it ends in the fault. -/
def UnlessFailsRecording (α : Type) (x y : Reading N (Recording N A σ) α) : Prop :=
  ∀ recorded, AgreesUnless (·.1 = .error fault) (x.run.run recorded) (y.run.run recorded)

theorem congruence_unlessFails : Reading.Congruence (UnlessFails (A := A) (σ := σ) fault) where
  pure _ := AgreesUnless.refl
  throw _ := AgreesUnless.refl
  bind hx hnext := by
    refine AgreesUnless.bind hx (fun result => ?_) ?_
    · cases result with
      | ok a => exact hnext a
      | error fault => exact .refl
    · rintro _ rfl n
      exact ⟨_, n, rfl, rfl⟩

theorem congruence_unlessFailsRecording :
    Reading.Congruence (UnlessFailsRecording (A := A) (σ := σ) fault) where
  pure _ _ := .refl
  throw _ _ := .refl
  bind {_ _ x x' next next'} hx hnext recorded := by
    rw [ExceptT.run_bind, ExceptT.run_bind, StateT.run_bind, StateT.run_bind]
    refine AgreesUnless.bind (hx recorded) ?_ ?_
    · rintro ⟨result, recorded'⟩
      cases result with
      | ok a => exact hnext a recorded'
      | error fault => exact .refl
    · rintro ⟨_, recorded'⟩ rfl n
      exact ⟨_, n, rfl, rfl⟩

/-- A fault goes through whatever reads what fails, because nothing catches it. -/
theorem readRelation_unlessFails :
    ReadRelation (UnlessFails (A := A) (σ := σ) fault) (UnlessFailsRecording fault) where
  congruence := congruence_unlessFails fault
  recording := congruence_unlessFailsRecording fault
  refl _ := AgreesUnless.refl
  refl_recording _ _ := .refl
  readIn h recorded := by
    refine AgreesUnless.bind h (fun result => .refl) ?_
    rintro _ rfl n
    exact ⟨_, n, rfl, rfl⟩
  subscribing id h := by
    unfold UnlessFails
    rw [run_subscribing, run_subscribing]
    refine AgreesUnless.bind (h []) (fun _ => .refl) ?_
    -- the node is subscribed to what was recorded before the fault
    rintro ⟨_, rs⟩ rfl n
    obtain ⟨n', hrun⟩ := exists_resubscribe id rs n
    exact ⟨_, n', bind_apply hrun, rfl⟩

end Fails

/-! ## What is read -/

/-- Readers that come to the same, except perhaps for the node `j` in `m`. -/
def AgreeExcept (m : Network N A σ) (j : Nat)
    (read read' : Nat → Reading N (Run N A σ) (Option (Amount N))) : Prop :=
  ∀ i n, ¬ (i = j ∧ n = m) → (read i).run n = (read' i).run n

open Classical in
/-- There is a reader that fails in any given way. -/
theorem exists_agreeExcept (read : Nat → Reading N (Run N A σ) (Option (Amount N)))
    (m : Network N A σ) (j : Nat) (fault : Fault N) :
    ∃ read', AgreeExcept m j read read' ∧ (read' j).run m = some (.error fault, m) := by
  refine ⟨fun i n => if i = j ∧ n = m then some (.error fault, n) else (read i).run n,
    fun i n h => (if_neg h).symm, ?_⟩
  exact if_pos ⟨rfl, rfl⟩

variable [Number N]

/-- Reading the node `id` in `n` comes to reading the node `j` in `m`: what comes of the one depends on
what comes of the other. -/
def AsksFor (host : Host N A σ) (read : Nat → Reading N (Run N A σ) (Option (Amount N)))
    (n : Network N A σ) (id : Nat) (m : Network N A σ) (j : Nat) : Prop :=
  ∃ body read₁ read₂, n.body? id = some body ∧ AgreeExcept m j read read₁ ∧ AgreeExcept m j read read₂
    ∧ (readBody host read₁ n id body).run n ≠ (readBody host read₂ n id body).run n

variable {host : Host N A σ} {read : Nat → Reading N (Run N A σ) (Option (Amount N))}
  {n n' m m' : Network N A σ} {id j x depth : Nat} {fault : Fault N}

/-- A node fails with the node that it asks for, as no formula catches a fault. -/
theorem AsksFor.fails (h : AsksFor host (Network.read host depth) n id m j) (hcached : n.cached? id = none)
    (hj : (Network.read host depth j).run m = some (.error fault, m')) :
    ∃ n', (Network.read host (depth + 1) id).run n = some (.error fault, n') := by
  obtain ⟨body, read₁, read₂, hbody, h₁, h₂, hne⟩ := h
  rw [read_eq_readBody host depth hbody]
  have hagrees (read' : Nat → Reading N (Run N A σ) (Option (Amount N)))
      (h' : AgreeExcept m j (Network.read host depth) read') :
      UnlessFails fault _ (readBody host (Network.read host depth) n id body)
        (readBody host read' n id body) := by
    refine (readRelation_unlessFails fault).readBody (fun i k => ?_) host n id fun c hc => ?_
    · by_cases hat : i = j ∧ k = m
      · obtain ⟨rfl, rfl⟩ := hat
        exact .inr ⟨_, m', hj, rfl⟩
      · exact .inl (h' i k hat)
    · rw [cached?_eq_some_iff.mpr (hc ▸ hbody)] at hcached
      cases hcached
  -- without a fault the reader would come to the same as each of the two, which differ
  rcases hagrees read₁ h₁ n with heq₁ | ⟨_, n', hrun, rfl⟩
  · rcases hagrees read₂ h₂ n with heq₂ | ⟨_, n', hrun, rfl⟩
    · exact absurd (heq₁.symm.trans heq₂) hne
    · exact ⟨n', hrun⟩
  · exact ⟨n', hrun⟩

/-- A node asks for another one if it fails in whatever way that one does. -/
theorem AsksFor.of_fails {body : Body N A} (hbody : n.body? id = some body)
    (h : ∀ read' fault, (read' j).run m = some (.error fault, m) →
      ∃ n', (readBody host read' n id body).run n = some (.error fault, n')) : AsksFor host read n id m j := by
  obtain ⟨read₁, h₁, hfails₁⟩ := exists_agreeExcept read m j .networkReleased
  obtain ⟨read₂, h₂, hfails₂⟩ := exists_agreeExcept read m j .catalogReleased
  obtain ⟨n₁, hrun₁⟩ := h read₁ _ hfails₁
  obtain ⟨n₂, hrun₂⟩ := h read₂ _ hfails₂
  refine ⟨body, read₁, read₂, hbody, h₁, h₂, fun heq => ?_⟩
  cases hrun₁.symm.trans (heq.trans hrun₂)

/-- A formula that reads the total of a stat asks for the node that is shown for it. -/
theorem asks_total {f : FormulaNode N} {stat : Stat N} {g : Nat} {graph : Subgraph N}
    {e : NodeEntry N} (hreleased : n.released = false) (hbody : n.body? id = some (.formula f))
    (hsource : f.source = .plain (.total stat)) (hg : n.graph? stat.key = some g)
    (hgraph : n.graphs[g]? = some graph) (he : graph.nodesAt? .total Path.main = some e) :
    AsksFor host read n id n e.exposed := by
  refine .of_fails hbody fun read' fault hfails => ?_
  obtain ⟨rs, hlookup⟩ : ∃ rs, (n.meaning f.source (recordingLookup host read' f.path)).run.run [] n
      = some ((.error fault, rs), n) := by
    rw [hsource]
    change ∃ rs, ((onNetwork (nodesOf host stat .total Path.main) >>= fun entry => do
      record (.node ⟨stat.key, .total, Path.main.key⟩) (.received entry.cached)
      readIn read' entry.exposed : Reading N (Recording N A σ) _).run.run [] n)
        = some ((Except.error fault, rs), n)
    rw [run_onNetwork_bind, bind_apply (nodesOf_eq_of_nodesAt? host hg hgraph he)]
    change ∃ rs, Option.bind ((read' e.exposed).run n) _ = some ((Except.error fault, rs), n)
    rw [hfails]
    exact ⟨_, rfl⟩
  change ∃ n', (readFormula host read' id f).run n = _
  obtain ⟨n', hsubscribed⟩ := exists_resubscribe id rs n
  rw [readFormula_eq host read' id f hreleased, bind_apply hlookup]
  exact ⟨n', bind_apply hsubscribed⟩

/-- A node that shows another one asks for it. -/
theorem asks_exposed (hbody : n.body? id = some (.exposed j)) : AsksFor host read n id n j :=
  .of_fails hbody fun _ _ hfails => ⟨n, hfails⟩

/-! ## What is being computed -/

/-- A node that is being computed, with its label. -/
structure Frame where
  /-- The node. -/
  node : Nat
  /-- The label. -/
  label : String

/-- Reading the node `id` in `n` comes to reading the node `x` in `m`, while nodes are being computed that
were not before, the outermost first. The first argument bounds how deeply nodes read each other. -/
inductive ReachesNode (host : Host N A σ) :
    Nat → Network N A σ → Nat → List Frame → Network N A σ → Nat → Prop where
  /-- The node itself is read. -/
  | here (depth : Nat) (n : Network N A σ) (id : Nat) : ReachesNode host (depth + 1) n id [] n id
  /-- The value of a node is not known, and is computed. -/
  | computed {depth : Nat} {n m : Network N A σ} {id x : Nat} {c : CachedNode N A}
    {frames : List Frame} (hc : n.cached? id = some c) (hvalue : c.cache = none)
    (hopen : c.guard.entered = false)
    (h : ReachesNode host depth (n.modifyCached id CachedNode.enter) c.inner frames m x) :
    ReachesNode host (depth + 1) n id (⟨id, c.label⟩ :: frames) m x
  /-- A node asks for another one. -/
  | asked {depth : Nat} {n n' m : Network N A σ} {id j x : Nat} {frames : List Frame}
    (hcached : n.cached? id = none) (hasks : AsksFor host (Network.read host depth) n id n' j)
    (h : ReachesNode host depth n' j frames m x) : ReachesNode host (depth + 1) n id frames m x

/-- A fault unwinds through the nodes that are being computed. -/
theorem ReachesNode.unwinds {frames : List Frame} (h : ReachesNode host depth n id frames m x)
    (hx : ∀ depth, ∃ m', (Network.read host (depth + 1) x).run m = some (.error fault, m')) :
    ∃ n', (Network.read host depth id).run n
      = some (.error (Fault.unwindAll (frames.map (·.label)) fault), n') := by
  induction h with
  | here depth n id => exact hx depth
  | @computed depth n m id x c frames hc hvalue hopen _ ih =>
    obtain ⟨n', hinner⟩ := ih hx
    rw [read_apply host depth (cached?_eq_some_iff.mp hc)]
    dsimp only
    rw [readCached_computed hvalue hopen, bind_apply hinner]
    exact ⟨_, rfl⟩
  | asked hcached hasks _ ih =>
    obtain ⟨n', hinner⟩ := ih hx
    exact hasks.fails hcached hinner

/-- A node is being computed that is about to be read. -/
def IsReentered (m : Network N A σ) (x : Frame) : Prop :=
  ∃ c, m.cached? x.node = some c ∧ c.label = x.label ∧ c.cache = none ∧ c.guard.entered

/-- A read that comes to a node again while it is being computed reports the cycle, in the order of
evaluation from that node back to it, whatever is being computed outside. -/
theorem cycle_reported {outer inner : List Frame} {x : Frame}
    (h : ReachesNode host depth n id (outer ++ x :: inner) m x.node) (hx : m.IsReentered x)
    (hinner : ∀ frame ∈ inner, frame.label ≠ x.label) :
    (∃ n', (valueOf host id).run n
      = some (.error (.cycle (x.label :: inner.map (·.label) ++ [x.label])), n'))
    ∧ Fault.closed (x.label :: inner.map (·.label) ++ [x.label]) := by
  refine ⟨?_, Fault.closed_cons_append _ _⟩
  obtain ⟨c, hc, hlabel, hvalue, hentered⟩ := hx
  have hfound (depth : Nat) : ∃ m', (Network.read host (depth + 1) x.node).run m
      = some (.error (Fault.cycleAt x.label), m') := by
    rw [read_apply host depth (cached?_eq_some_iff.mp hc), ← hlabel]
    exact ⟨_, readCached_entered hvalue hentered⟩
  obtain ⟨n', hread⟩ := h.unwinds hfound
  have hmem : x.label ∉ inner.map (·.label) := fun hmem => by
    obtain ⟨frame, hframe, heq⟩ := List.mem_map.mp hmem
    exact hinner frame hframe heq
  rw [List.map_append, List.map_cons, Fault.unwindAll_cycleAt _ hmem] at hread
  exact ⟨n', valueOf_eq_of_read hread⟩

/-- The totals of two stats that read each other (1 and 4), and a node outside that has the label of one of
them (7). -/
def twoTotals : Network Float Unit Unit :=
  let life : Stat Float := ⟨⟨"Life", .character⟩, none, none, .double, false, []⟩
  let mana : Stat Float := ⟨⟨"Mana", .character⟩, none, none, .double, false, []⟩
  let reads (stat : Stat Float) : Body Float Unit := .formula ⟨.plain (.total stat), Path.main, [], none⟩
  let keeps (label : String) (inner : Nat) : Body Float Unit :=
    .cached ⟨label, inner, none, false, false, Guard.open_, [], none⟩
  let bodies : List (Body Float Unit) := [reads mana, keeps "Life" 0, .exposed 1, reads life, keeps "Mana" 3,
    .exposed 4, reads life, keeps "Mana" 6]
  { empty false none () with
    nodes := (bodies.map fun body => ⟨body, [], false⟩).toArray
    graphs := #[⟨life, [⟨.total, Path.main, 0, 1, 2⟩], [], 0, 0⟩,
      ⟨mana, [⟨.total, Path.main, 3, 4, 5⟩], [], 0, 1⟩]
    live := [0, 1] }

theorem two_totals_report : ∃ (outer inner : List Frame) (x : Frame) (m : Network Float Unit Unit),
    outer.map (·.label) = ["Mana"] ∧ x.label = "Life" ∧ inner.map (·.label) = ["Mana"]
      ∧ ReachesNode Host.idle 10 twoTotals 7 (outer ++ x :: inner) m x.node ∧ m.IsReentered x
      ∧ ∃ n', (valueOf Host.idle 7).run twoTotals = some (.error (.cycle ["Life", "Mana", "Life"]), n') := by
  have hreaches : ReachesNode Host.idle 10 twoTotals 7 ([⟨7, "Mana"⟩] ++ ⟨1, "Life"⟩ :: [⟨4, "Mana"⟩])
      (((twoTotals.modifyCached 7 CachedNode.enter).modifyCached 1 CachedNode.enter).modifyCached 4
        CachedNode.enter) 1 := by
    refine .computed (c := ⟨"Mana", 6, none, false, false, Guard.open_, [], none⟩) rfl rfl rfl ?_
    refine .asked rfl (asks_total rfl rfl rfl (g := 0) rfl rfl rfl) (.asked rfl (asks_exposed rfl) ?_)
    refine .computed (c := ⟨"Life", 0, none, false, false, Guard.open_, [], none⟩) rfl rfl rfl ?_
    refine .asked rfl (asks_total rfl rfl rfl (g := 1) rfl rfl rfl) (.asked rfl (asks_exposed rfl) ?_)
    refine .computed (c := ⟨"Mana", 3, none, false, false, Guard.open_, [], none⟩) rfl rfl rfl ?_
    refine .asked rfl (asks_total rfl rfl rfl (g := 0) rfl rfl rfl) (.asked rfl (asks_exposed rfl) ?_)
    exact .here 0 _ _
  have hreentered : (((twoTotals.modifyCached 7 CachedNode.enter).modifyCached 1
      CachedNode.enter).modifyCached 4 CachedNode.enter).IsReentered ⟨1, "Life"⟩ :=
    ⟨⟨"Life", 0, none, false, false, ⟨true⟩, [], none⟩, rfl, rfl, rfl, rfl⟩
  have hinner : ∀ frame ∈ [(⟨4, "Mana"⟩ : Frame)], frame.label ≠ "Life" := by simp
  obtain ⟨hread, -⟩ := cycle_reported hreaches hreentered hinner
  exact ⟨[⟨7, "Mana"⟩], [⟨4, "Mana"⟩], ⟨1, "Life"⟩, _, rfl, rfl, rfl, hreaches, hreentered, hread⟩

end Network

end StatEngine
