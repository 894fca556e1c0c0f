import Mathlib.Algebra.Order.BigOperators.Group.List
import Mathlib.Algebra.Order.Group.Nat
import Mathlib.Data.Finset.Sum
import Mathlib.Data.Finset.Card
import StatEngine.Proofs.Stacks
import StatEngine.Proofs.Vocabulary

/-!
# How deeply nodes read each other

Circular wiring does no harm, because a cell that is being computed is not entered again. So the stack of
the cells that are being computed has none of them twice, and within a vocabulary there are only so many:
one for every stage of a stat on a path, and one for every modifier. Reading goes three nodes deeper with
every cell, from the node that is shown to the one that keeps the value and to the formula, and so it
ends once nodes may read each other deep enough.

A host may hold on to a node that is on file no more. Such a node is read by nobody else, and so it is at
the bottom of the stack.

## Main definitions

* `Vocabulary.cells`: what may be computed at a time;
* `Nested`: the stack has just what is being computed;
* `ReadsAlike`: reading a node comes to the same answer if the stack is kept;
* `OnFile`: the nodes that a network has on file.

## Main statements

* `OnFile.readsAlike`: nodes on file are read alike if nodes may read each other deep enough;
* `Readable.readsAlike`: so are the nodes that a host may hold on to;
* `Rests.valueOf_onFile` and `Rests.valueOf_stacked`: reading comes to what it comes to if the stack is
  kept;
* `legible_vocabulary`: whatever is there can be read.
-/

namespace StatEngine

open Network

variable {N A σ : Type}

/-- What may be computed at a time: stages of stats on paths, and modifiers, which the nodes that show
them stand for. -/
def Vocabulary.cells (voc : Vocabulary N) (members : List Nat) : Finset (NodeKey ⊕ Nat) :=
  voc.nodeKeys.toFinset.disjSum members.toFinset

theorem Vocabulary.card_cells_le (voc : Vocabulary N) (members : List Nat) : (voc.cells members).card
    ≤ voc.stats.length * (Stage.all.length * voc.paths.length) + members.length := by
  rw [cells, Finset.card_disjSum, ← voc.length_nodeKeys]
  exact Nat.add_le_add (List.toFinset_card_le _) (List.toFinset_card_le _)

namespace Network

variable {n n' : Network N A σ} {sc : Regime N} {voc : Vocabulary N} {members : List Nat}

/-! ## Cells that are being computed -/

/-- Whether a cell is being computed. -/
def IsBusy (n : Network N A σ) : NodeKey ⊕ Nat → Prop
  | .inl k => ∃ e, n.registry.stage? k = some e ∧ n.isEntered e.cached
  | .inr i => n.isEntered (i - 1)

open Classical in
/-- How many cells are not being computed. -/
noncomputable def idleCells (voc : Vocabulary N) (members : List Nat) (n : Network N A σ) : Nat :=
  ((voc.cells members).filter fun x => ¬ n.IsBusy x).card

theorem idleCells_le_card (voc : Vocabulary N) (members : List Nat) (n : Network N A σ) :
    n.idleCells voc members ≤ (voc.cells members).card := by
  classical
  exact Finset.card_filter_le _ _

/-- The nodes that show the members of all collections. -/
def memberIds (n : Network N A σ) : List Nat :=
  n.collections.toList.flatMap fun c => c.items.map (·.1)

theorem mem_memberIds {c : Nat} {i : Nat × Modifier N} (h : i ∈ n.registry.items c) :
    i.1 ∈ n.memberIds := by
  simp only [registry] at h
  cases hc : n.collections[c]? with
  | none => simp [hc] at h
  | some collection =>
    rw [hc] at h
    have hmem : collection ∈ n.collections.toList :=
      Array.mem_toList_iff.mpr (Array.mem_of_getElem? hc)
    exact List.mem_flatMap.mpr ⟨collection, hmem, List.mem_map_of_mem h⟩

/-- Cells that are being computed go on. -/
theorem idleCells_le (h : ∀ x, n.IsBusy x → n'.IsBusy x) :
    n'.idleCells voc members ≤ n.idleCells voc members := by
  classical
  refine Finset.card_le_card fun x hx => ?_
  rw [Finset.mem_filter] at hx ⊢
  exact ⟨hx.1, fun hbusy => hx.2 (h x hbusy)⟩

/-- One more cell is being computed. -/
theorem idleCells_lt (h : ∀ x, n.IsBusy x → n'.IsBusy x) {x : NodeKey ⊕ Nat}
    (hx : x ∈ voc.cells members) (hidle : ¬ n.IsBusy x) (hbusy : n'.IsBusy x) :
    n'.idleCells voc members < n.idleCells voc members := by
  classical
  refine Finset.card_lt_card (Finset.ssubset_iff_of_subset (fun y hy => ?_) |>.mpr ⟨x, ?_, ?_⟩)
  · rw [Finset.mem_filter] at hy ⊢
    exact ⟨hy.1, fun hold => hy.2 (h y hold)⟩
  · rw [Finset.mem_filter]
    exact ⟨hx, hidle⟩
  · rw [Finset.mem_filter]
    exact fun hstill => hstill.2 hbusy

/-- Nothing ceases to be computed when one more node is entered. -/
theorem IsBusy.flag {c : Nat} {old new : Flags N} (hold : n.flags? c = some old) (hentered : new.entered)
    {x : NodeKey ⊕ Nat} (hx : n.IsBusy x) : (n.flag c new).IsBusy x := by
  have hstill {i : Nat} (hi : n.isEntered i) : (n.flag c new).isEntered i := by
    rw [isEntered_flag hold]
    split
    · exact hentered
    · exact hi
  cases x with
  | inl k =>
    obtain ⟨e, he, hi⟩ := hx
    exact ⟨e, by rwa [registry_flag], hstill hi⟩
  | inr i => exact hstill hx

variable [Number N]

theorem Advances.isBusy (h : n.Advances sc n') {x : NodeKey ⊕ Nat} (hx : n.IsBusy x) : n'.IsBusy x := by
  cases x with
  | inl k =>
    obtain ⟨e, he, hentered⟩ := hx
    exact ⟨e, h.gains.stage? h.sane.inv.orderly he, (h.proceeds.entered _).trans hentered⟩
  | inr i => exact (h.proceeds.entered _).trans hx

/-- Cells stay on file. -/
theorem Advances.under (h : n.Advances sc n') {key : DependencyKey} {c : Nat} (hc : n.Under key c) :
    n'.Under key c := by
  cases key with
  | node k =>
    obtain ⟨e, he, heq⟩ := hc
    exact ⟨e, h.gains.stage? h.sane.inv.orderly he, heq⟩
  | form key form path =>
    obtain ⟨e, he, hi⟩ := hc
    rw [← h.gains.registry_items] at hi
    exact ⟨e, h.gains.form? h.sane.inv.orderly he, hi⟩
  | paths key => cases hc

/-- A cell on file is one of those that may be computed, and it is being computed while its node is
entered. -/
theorem Sane.exists_cell (hn : n.Sane voc.regime)
    (hmembers : ∀ c, ∀ i ∈ n.registry.items c, i.1 ∈ members) {key : DependencyKey} {c : Nat}
    (hc : n.Under key c) : ∃ x ∈ voc.cells members,
      ∀ m : Network N A σ, m.registry = n.registry → (m.IsBusy x ↔ m.isEntered (c + 1)) := by
  have ho := hn.inv.orderly
  cases key with
  | node k =>
    obtain ⟨e, he, rfl⟩ := hc
    refine ⟨.inl k, ?_, fun m hm => ?_⟩
    · obtain ⟨g, hg, -⟩ := Registry.stage?_eq_some_iff.mp he
      have hnamed := voc.mem_nodeKeys (ho.admits k.stat g hg) k.stage (ho.entry_admits k e he)
      rw [Registry.stat_key hg, (Registry.stage?_spec he).2] at hnamed
      simpa [Vocabulary.cells] using hnamed
    · have hcached := (hn.inv.wired.stages k e he).cached
      constructor
      · rintro ⟨e', he', hentered⟩
        rw [hm, he] at he'
        obtain rfl := Option.some.inj he'
        exact hcached ▸ hentered
      · intro hentered
        exact ⟨e, hm ▸ he, hcached ▸ hentered⟩
  | form key form path =>
    obtain ⟨e, he, hi⟩ := hc
    obtain ⟨i, hi, heq⟩ := List.mem_map.mp hi
    refine ⟨.inr (c + 2), ?_, fun m _ => Iff.rfl⟩
    have hmember := hmembers _ i hi
    rw [heq] at hmember
    simpa [Vocabulary.cells] using hmember
  | paths key => cases hc

/-! ## The stack -/

/-- The stack has just the nodes that are being computed, and if all other cells were computed as well
the limit would not be exceeded. -/
structure Nested (voc : Vocabulary N) (members : List Nat) (limit : Nat) (stack : List Nat)
    (n : Network N A σ) : Prop where
  sane : n.Sane voc.regime
  entered : ∀ c, n.isEntered c ↔ c ∈ stack
  among : ∀ c, ∀ i ∈ n.registry.items c, i.1 ∈ members
  room : stack.length + n.idleCells voc members ≤ limit

namespace Nested

variable {limit : Nat} {stack : List Nat} (hn : n.Nested voc members limit stack)
include hn

theorem advance (h : n.Advances voc.regime n') : n'.Nested voc members limit stack where
  sane := h.sane
  entered c := by rw [h.proceeds.entered, hn.entered]
  among c := by
    rw [h.gains.registry_items]
    exact hn.among c
  room := by
    have hfewer : n'.idleCells voc members ≤ n.idleCells voc members := idleCells_le fun _ => h.isBusy
    have := hn.room
    omega

theorem fresh {id : Nat} {node : CachedNode N A} (hnode : n.cached? id = some node) :
    node.guard.entered = true ↔ id ∈ stack := by
  rw [← hn.entered, isEntered_of_flags (flags?_of_cached hnode)]
  exact Iff.rfl

/-- A node without a value that is not on the stack may be put on it to be computed. -/
theorem enter {id : Nat} {node : CachedNode N A} (hnode : n.cached? id = some node)
    (hvalue : node.cache = none)
    (hroom : stack.length + 1 + (n.modifyCached id CachedNode.enter).idleCells voc members ≤ limit) :
    (n.modifyCached id CachedNode.enter).Nested voc members limit (id :: stack)
      ∧ n.Gains (n.modifyCached id CachedNode.enter) := by
  have hold := flags?_of_cached hnode
  rw [enter_eq hold] at hroom ⊢
  have hflag : (n.flag id ⟨node.flags.value, node.flags.observed, false, true⟩).Sane voc.regime ∧ _ :=
    hn.sane.flag hold (fun h => absurd hvalue h) fun _ => hvalue
  refine ⟨⟨hflag.1, fun i => ?_, fun c => ?_, ?_⟩, hflag.2⟩
  · rw [isEntered_flag hold, List.mem_cons, ← hn.entered]
    split
    · next heq => simp [heq]
    · next hne => simp [hne]
  · rw [registry_flag]
    exact hn.among c
  · rwa [List.length_cons]

/-- Fewer cells can be computed next while a cell on file is. -/
theorem idleCells_enter {key : DependencyKey} {c : Nat} (hc : n.Under key c) {node : CachedNode N A}
    (hnode : n.cached? (c + 1) = some node) (hopen : c + 1 ∉ stack) :
    (n.modifyCached (c + 1) CachedNode.enter).idleCells voc members < n.idleCells voc members := by
  have hold := flags?_of_cached hnode
  obtain ⟨x, hx, hbusy⟩ := hn.sane.exists_cell hn.among hc
  rw [enter_eq hold]
  refine idleCells_lt (fun y => IsBusy.flag hold rfl) hx ?_ ((hbusy _ registry_flag).mpr ?_)
  · rwa [hbusy n rfl, hn.entered]
  · rw [isEntered_flag hold, if_pos rfl]

omit [Number N] hn in
/-- No more cells can be computed while a node that is on file no more is. -/
theorem idleCells_enter_le {id : Nat} {node : CachedNode N A} (hnode : n.cached? id = some node) :
    (n.modifyCached id CachedNode.enter).idleCells voc members ≤ n.idleCells voc members := by
  rw [enter_eq (flags?_of_cached hnode)]
  exact idleCells_le fun y => IsBusy.flag (flags?_of_cached hnode) rfl

end Nested

/-- Nothing is on the stack before a node is read. -/
theorem Sane.nested (hn : n.Sane voc.regime) (hidle : n.Idle) {limit : Nat}
    (hlimit : n.idleCells voc n.memberIds ≤ limit) : n.Nested voc n.memberIds limit [] where
  sane := hn
  entered c := by simp [hidle c]
  among _ _ hi := mem_memberIds hi
  room := by simpa using hlimit

/-! ## What is read -/

/-- A node that shows the value of a cell on file. -/
def Shows (n : Network N A σ) (id : Nat) : Prop := ∃ key c, n.Under key c ∧ id = c + 2

theorem Sane.shows_member (hn : n.Sane sc) {key : StatKey} {form : Form} {path : PathKey}
    {e : FormEntry N} (he : n.registry.form? key form path = some e) :
    ∀ i ∈ n.memberNodes e.collection, n.Shows i := by
  intro i hi
  rw [memberNodes_eq] at hi
  obtain ⟨item, hitem, rfl⟩ := List.mem_map.mp hi
  obtain ⟨-, -, -, c, hc, -⟩ := (hn.inv.wired.forms _ _ _ _ he).members item hitem
  have hunder : n.Under (.form key form path) c := ⟨e, he, List.mem_map.mpr ⟨item, hitem, hc⟩⟩
  exact ⟨_, _, hunder, hc⟩

/-- The nodes of a cell on file are there. -/
theorem Sane.exists_hasCell (hn : n.Sane sc) {key : DependencyKey} {c : Nat} (hc : n.Under key c) :
    ∃ source path, n.HasCell c source path := by
  cases key with
  | node k =>
    obtain ⟨e, he, rfl⟩ := hc
    obtain ⟨l, -, -, hcell, -⟩ := (hn.inv.wired.stages k e he).cell
    exact ⟨_, _, hcell⟩
  | form key form path =>
    obtain ⟨e, he, hi⟩ := hc
    obtain ⟨i, hi, heq⟩ := List.mem_map.mp hi
    obtain ⟨-, -, -, c', hc', hcell⟩ := (hn.inv.wired.forms _ _ _ _ he).members i hi
    obtain rfl : c' = c := by omega
    exact ⟨_, _, hcell⟩
  | paths key => cases hc

theorem Sane.readable_of_shows (hn : n.Sane sc) {id : Nat} (hid : n.Shows id) : n.Readable id := by
  obtain ⟨key, c, hc, rfl⟩ := hid
  obtain ⟨source, path, hcell⟩ := hn.exists_hasCell hc
  exact hcell.readable.2

/-- Whatever is on file is shown. -/
theorem reach_shows {I : Network N A σ → Prop}
    (hI : ∀ {n n' : Network N A σ}, n.Advances voc.regime n' → I n → I n') :
    Reach voc.regime I Shows where
  holds := hI
  stays h hid := by
    obtain ⟨key, c, hc, rfl⟩ := hid
    exact ⟨key, c, h.under hc, rfl⟩
  stage {n k e} hn he := by
    have hunder : n.Under (.node k) e.formula := ⟨e, he, rfl⟩
    exact ⟨_, _, hunder, (hn.inv.wired.stages k e he).exposed⟩
  member hn he := hn.shows_member he

/-- The formula of a node is within the vocabulary, on file or not. -/
theorem Sane.speaks (hn : n.Sane voc.regime) {id : Nat} {f : FormulaNode N}
    (hf : n.formula? id = some f) :
    f.path ∈ voc.paths ∧ ∃ φ, n.Evaluates φ f.source ∧ φ.Within voc := by
  have hkind : n.kind? id = some (.formula f.source f.path) := by
    rw [kind?, formula?_eq_some_iff.mp hf]
    rfl
  obtain ⟨hpath, hvoices⟩ := hn.inv.wired.made id _ hkind
  refine ⟨hpath, ?_⟩
  cases hsource : f.source with
  | plain φ =>
    rw [hsource] at hvoices
    exact ⟨φ, rfl, hvoices⟩
  | layered l =>
    rw [hsource] at hvoices
    obtain ⟨s, stage, layers, hl, hadmits, hbare⟩ := hvoices
    obtain rfl := hbare trivial
    exact ⟨.stage s stage, hl, .stage hadmits stage⟩

/-- Formulas within a vocabulary keep a network in order, whatever they look up. -/
theorem explored_vocabulary {host : Host N A σ} {tell : A → σ → σ} (hhost : host.Aloof tell) :
    host.Explored voc.regime := by
  intro read hread n id f hn hf
  obtain ⟨hpath, φ, hφ, hwithin⟩ := hn.speaks hf
  rw [meaning_of_evaluates hφ, φ.eval_eq_answeredBy]
  exact explores_answeredBy hhost reach_readable hread False.elim f.path (hwithin.asks hpath) [] n hn
    trivial (by simp [Resolves])

/-! ## Reading alike -/

/-- A search that comes to the answer if it goes deep enough, and to nothing else before. -/
def Converges {β : Type} (depth : Nat) (found : Nat → Option β) (answer : Option β) : Prop :=
  ∃ a, answer = some a ∧ ∀ d, found d = some a ∨ d < depth ∧ found d = none

namespace Converges

variable {β γ : Type} {depth : Nat} {found : Nat → Option β} {answer : Option β}

/-- The answer is known from the start. -/
theorem of_eq {a : β} (hanswer : answer = some a) (hfound : ∀ d, found d = some a) :
    Converges depth found answer := ⟨a, hanswer, fun d => .inl (hfound d)⟩

/-- Going one level deeper before the search begins. -/
theorem of_succ (hzero : found 0 = none) (h : Converges depth (fun d => found (d + 1)) answer) :
    Converges (depth + 1) found answer := by
  obtain ⟨a, hanswer, hfound⟩ := h
  refine ⟨a, hanswer, fun d => ?_⟩
  cases d with
  | zero => exact .inr ⟨Nat.succ_pos depth, hzero⟩
  | succ d => exact (hfound d).imp_right fun h => ⟨Nat.succ_lt_succ h.1, h.2⟩

/-- Going on with what was found. -/
theorem bind (h : Converges depth found answer) {next : β → Option γ} (hnext : ∀ a, next a ≠ none) :
    Converges depth (fun d => (found d).bind next) (answer.bind next) := by
  obtain ⟨a, rfl, hfound⟩ := h
  obtain ⟨c, hc⟩ := Option.ne_none_iff_exists'.mp (hnext a)
  refine ⟨c, hc, fun d => (hfound d).imp (fun hsome => ?_) fun ⟨hlt, hnone⟩ => ⟨hlt, ?_⟩⟩
  · exact (congrArg (Option.bind · next) hsome).trans hc
  · exact congrArg (Option.bind · next) hnone

/-- Whatever is found is the answer. -/
theorem eq_of_found (h : Converges depth found answer) {d : Nat} {a : β} (hd : found d = some a) :
    answer = some a := by
  obtain ⟨a', rfl, hfound⟩ := h
  rcases hfound d with hsome | ⟨-, hnone⟩
  · exact hsome.symm.trans hd
  · cases hd.symm.trans hnone

theorem ne_none (h : Converges depth found answer) {d : Nat} (hd : depth ≤ d) : found d ≠ none := by
  obtain ⟨a, -, hfound⟩ := h
  rcases hfound d with hsome | ⟨hlt, -⟩
  · rw [hsome]
    exact Option.some_ne_none a
  · exact absurd hlt (Nat.not_lt.mpr hd)

end Converges

/-- Reading a node has an answer if the stack is kept, and the same one if nodes may read each other to
any depth at which there is one. -/
def ReadsAlike (host : Host N A σ) (limit depth : Nat) (stack : List Nat) (n : Network N A σ) (id : Nat) :
    Prop :=
  Converges depth (fun d => (read host d id).run n) ((readStacked host limit depth stack id).run n)

section Alike

variable {host : Host N A σ} {tell : A → σ → σ} {limit depth k : Nat} {stack : List Nat}

/-- What a node that is read alike comes to is what it comes to if the stack is kept. -/
theorem exists_valueOf {id enough : Nat}
    (h : ∀ depth, enough ≤ depth → n.ReadsAlike host limit depth stack id) :
    ∃ answer, (valueOf host id).run n = some answer
      ∧ ∀ depth, enough ≤ depth → (readStacked host limit depth stack id).run n = some answer := by
  have hsome : (valueOf host id).run n ≠ none := valueOf_ne_none fun depth (hdepth : enough ≤ depth) =>
    (h depth hdepth).ne_none le_rfl
  obtain ⟨answer, hanswer⟩ := Option.ne_none_iff_exists'.mp hsome
  have hrun := hanswer
  rw [run_apply] at hrun
  obtain ⟨d, hread⟩ := exists_read_of_readFrom hrun
  exact ⟨answer, hanswer, fun depth hdepth => (h depth hdepth).eq_of_found hread⟩

/-- A node is read alike if what it shows is. -/
theorem ReadsAlike.within {id inner : Nat} {body : Body N A} (hbody : n.body? id = some body)
    (hshows : body = .exposed inner ∨ ∃ subscription, body = .wrapped inner subscription)
    (h : n.ReadsAlike host limit depth stack inner) : n.ReadsAlike host limit (depth + 1) stack id := by
  have hread (d : Nat) : (read host (d + 1) id).run n = (read host d inner).run n := by
    rw [read_apply host d hbody]
    rcases hshows with rfl | ⟨_, rfl⟩ <;> rfl
  have hstacked : (readStacked host limit (depth + 1) stack id).run n
      = (readStacked host limit depth stack inner).run n := by
    rw [readStacked_apply host depth hbody]
    rcases hshows with rfl | ⟨_, rfl⟩ <;> rfl
  refine .of_succ rfl ?_
  simp only [hread, hstacked]
  exact h

/-- A node that keeps a value is read alike if its formula is while the node is on the stack. -/
theorem Nested.readsAlike_cached (hn : n.Nested voc members limit stack) {id : Nat}
    {node : CachedNode N A} (hnode : n.cached? id = some node) (hroom : id ∉ stack → stack.length < limit)
    (hinner : node.cache = none → id ∉ stack →
      (n.modifyCached id CachedNode.enter).ReadsAlike host limit depth (id :: stack) node.inner) :
    n.ReadsAlike host limit (depth + 1) stack id := by
  have hread (d : Nat) := read_apply host d (cached?_eq_some_iff.mp hnode)
  have hstacked : (readStacked host limit (depth + 1) stack id).run n = _ :=
    readStacked_apply host depth (cached?_eq_some_iff.mp hnode)
  simp only at hread hstacked
  refine .of_succ rfl ?_
  simp only [hread, hstacked]
  by_cases hid : id ∈ stack
  · -- the node is entered, and so it is part of a cycle
    have hguard := (hn.fresh hnode).mpr hid
    have hvalue : node.cache = none :=
      (hn.sane.inv.lit.entered id _ (flags?_of_cached hnode) hguard).1
    rw [if_pos hid]
    exact .of_eq rfl fun d => readCached_entered hvalue hguard
  · have hguard : node.guard.entered = false :=
      Bool.eq_false_iff.mpr fun h => hid ((hn.fresh hnode).mp h)
    have hopen : { node with guard := Guard.open_ } = node := by
      rw [show Guard.open_ = node.guard from congrArg Guard.mk hguard.symm]
    rw [if_neg hid, if_pos (hroom hid), hopen]
    cases hvalue : node.cache with
    | some v => exact .of_eq (readCached_kept hvalue) fun d => readCached_kept hvalue
    | none =>
      simp only [readCached_computed hvalue hguard]
      exact (hinner hvalue hid).bind fun _ => Option.some_ne_none _

/-- What readers come to that read nodes to some depth, if they come to the same as one that keeps the
stack, unless they have to give up. -/
theorem Converges.of_readers {β : Type}
    (found : (Nat → Reading N (Run N A σ) (Option (Amount N))) → Option β)
    (hbelow : ∀ r r', (∀ id, Below (r id).run (r' id).run) → ∀ a, found r = some a → found r' = some a)
    (hdeep : ∀ d, depth ≤ d → ∃ a, found (read host d) = some a
      ∧ found (readStacked host limit depth stack) = some a)
    (heked : ∀ d, ∃ a, found (ekedOut (read host d) (readStacked host limit depth stack)) = some a
      ∧ found (readStacked host limit depth stack) = some a) :
    Converges depth (fun d => found (read host d)) (found (readStacked host limit depth stack)) := by
  obtain ⟨answer, -, hstacked⟩ := hdeep depth le_rfl
  refine ⟨answer, hstacked, fun d => ?_⟩
  dsimp only
  cases hd : found (read host d) with
  | none =>
    refine .inr ⟨Nat.lt_of_not_le fun hle => ?_, rfl⟩
    obtain ⟨a, hread, -⟩ := hdeep d hle
    cases hread.symm.trans hd
  | some a =>
    -- who is helped out does what it would do alone if that comes to anything
    obtain ⟨a', heked, hstacked'⟩ := heked d
    have hsame := heked.symm.trans (hbelow _ _ (below_ekedOut _ _) a hd)
    exact .inl (hsame.symm.trans (hstacked'.symm.trans hstacked))

/-- What formulas may look up is read alike, as long as `I` holds. -/
def LooksAlike (host : Host N A σ) (limit depth : Nat) (stack : List Nat) (sc : Regime N)
    (I : Network N A σ → Prop) (P : Network N A σ → Nat → Prop) : Prop :=
  ∀ (n : Network N A σ) (id : Nat), n.Sane sc → I n → P n id → n.ReadsAlike host limit depth stack id

section Looks

variable {I : Network N A σ → Prop} {P : Network N A σ → Nat → Prop}
  (h : LooksAlike host limit depth stack voc.regime I P)
  (hreadable : ∀ (n : Network N A σ) (id : Nat), n.Sane voc.regime → P n id → n.Readable id)
include h

/-- Nodes that may read each other deep enough are read like those that keep the stack. -/
theorem LooksAlike.sameReads {d : Nat} (hd : depth ≤ d) :
    SameReads voc.regime I P (read host d) (readStacked host limit depth stack) := by
  intro n id hn hI hid
  obtain ⟨answer, hstacked, hread⟩ := h n id hn hI hid
  exact ⟨answer, (hread d).resolve_right fun hlt => absurd hlt.1 (Nat.not_lt.mpr hd), hstacked⟩

/-- Nodes may be read to too little depth, as long as the stack helps them out. -/
theorem LooksAlike.sameReads_ekedOut (d : Nat) :
    SameReads voc.regime I P (ekedOut (read host d) (readStacked host limit depth stack))
      (readStacked host limit depth stack) := by
  intro n id hn hI hid
  obtain ⟨answer, hstacked, hread⟩ := h n id hn hI hid
  refine ⟨answer, ?_, hstacked⟩
  have hor {x : Option _} (hx : x = some answer ∨ d < depth ∧ x = none) :
      x.or (some answer) = some answer := by
    rcases hx with rfl | ⟨-, rfl⟩ <;> rfl
  rw [run_ekedOut, hstacked]
  exact hor (hread d)

variable (hhost : host.Aloof tell)
include hhost hreadable

omit h in
theorem readsInOrder_of_readable (d : Nat) : ReadsInOrder voc.regime False I P (read host d) :=
  fun n id hn _ hid =>
    readsInOrder_read (explored_vocabulary hhost) d n id hn trivial (hreadable n id hn hid)

theorem LooksAlike.readsInOrder_ekedOut (d : Nat) : ReadsInOrder voc.regime False I P
    (ekedOut (read host d) (readStacked host limit depth stack)) := by
  intro n id hn hI hid
  refine ⟨False.elim, fun hrun => ?_⟩
  obtain ⟨answer, heked, hstacked⟩ := h.sameReads_ekedOut d n id hn hI hid
  obtain ⟨answer', hread, hstacked'⟩ := h.sameReads le_rfl n id hn hI hid
  -- whoever gives the answer, nodes that read each other deep enough give it too
  have heq : answer' = answer := Option.some.inj (hstacked'.symm.trans hstacked)
  have hdeep := hread.trans ((congrArg some heq).trans (heked.symm.trans hrun))
  exact (readsInOrder_of_readable hreadable hhost depth n id hn hI hid).partly hdeep

variable (hreach : Reach voc.regime I P) {n : Network N A σ} (hn : n.Sane voc.regime) (hI : I n)
include hreach hn hI

/-- Reading nodes one after another comes to the same. -/
theorem LooksAlike.readAll {ids : List Nat} (hids : ∀ i ∈ ids, P n i) :
    Converges depth (fun d => (Network.readAll (read host d) ids).run n)
      ((Network.readAll (readStacked host limit depth stack) ids).run n) := by
  refine .of_readers (fun r => (Network.readAll r ids).run n) (fun r r' hr a => ?_) (fun d hd => ?_) fun d => ?_
  · exact below_readAll hr ids n a
  · exact (h.sameReads hd).readAll (readsInOrder_of_readable hreadable hhost d) hreach hn hI hids
  · exact (h.sameReads_ekedOut d).readAll (h.readsInOrder_ekedOut hreadable hhost d) hreach hn hI hids

/-- Answering what a regime admits comes to the same. -/
theorem LooksAlike.answeredBy (hnote : ∀ text (n : Network N A σ), (host.note text) n ≠ none)
    (path : Path (Stat N)) {α : Type} {inquiry : Inquiry N (Except (Fault N) α)}
    (hasks : inquiry.Asks (fun _ => Query.Admitted voc.regime)
      (fun _ query reply _ => query.Names voc.regime reply) ()) :
    Converges depth
      (fun d => (inquiry.answeredBy (recordingLookup host (read host d) path)).run.run [] n)
      ((inquiry.answeredBy
        (recordingLookup host (readStacked host limit depth stack) path)).run.run [] n) := by
  refine .of_readers (fun r => (inquiry.answeredBy (recordingLookup host r path)).run.run [] n)
    (fun r r' hr a => ?_) (fun d hd => ?_) fun d => ?_
  · exact below_answeredBy hr host path inquiry [] n a
  · exact (h.sameReads hd).answeredBy (readsInOrder_of_readable hreadable hhost d) hreach hn hI hhost hnote
      path hasks
  · exact (h.sameReads_ekedOut d).answeredBy (h.readsInOrder_ekedOut hreadable hhost d) hreach hn hI hhost
      hnote path hasks

end Looks

/-- A formula is read alike if what it may look up is. -/
theorem Nested.readsAlike_formula (hhost : host.Aloof tell)
    (hnote : ∀ text (n : Network N A σ), (host.note text) n ≠ none) {limit depth k : Nat}
    {stack : List Nat} (hn : n.Nested voc members limit stack) (hk : n.idleCells voc members ≤ k)
    {id : Nat} {f : FormulaNode N} (hf : n.formula? id = some f)
    (hlookup : ∀ (m : Network N A σ) (i : Nat), m.Nested voc members limit stack →
      m.idleCells voc members ≤ k → m.Shows i → m.ReadsAlike host limit depth stack i) :
    n.ReadsAlike host limit (depth + 1) stack id := by
  obtain ⟨hpath, φ, hφ, hwithin⟩ := hn.sane.speaks hf
  let I (m : Network N A σ) : Prop := m.Nested voc members limit stack ∧ m.idleCells voc members ≤ k
  have hreach : Reach voc.regime I Shows := reach_shows fun h hm =>
    ⟨hm.1.advance h, (idleCells_le fun _ => h.isBusy).trans hm.2⟩
  have hlooks : LooksAlike host limit depth stack voc.regime I Shows :=
    fun m i _ hI hi => hlookup m i hI.1 hI.2 hi
  have hanswered := hlooks.answeredBy (fun _ _ hm => hm.readable_of_shows) hhost hreach hn.sane ⟨hn, hk⟩
    hnote f.path (hwithin.asks hpath)
  -- the subscriptions of the node are renewed afterwards
  have hrun (r : Nat → Reading N (Run N A σ) (Option (Amount N))) :
      (readFormula host r id f).run n
        = (((φ.inquiry f.path).answeredBy (recordingLookup host r f.path)).run.run [] n).bind
          fun ((result, recorded), n₁) =>
            (do resubscribe id recorded; return result : Run N A σ _) n₁ := by
    rw [readFormula_eq host r id f hn.sane.inv.unreleased, meaning_of_evaluates hφ, φ.eval_eq_answeredBy]
    rfl
  have hbody := formula?_eq_some_iff.mp hf
  refine .of_succ rfl ?_
  simp only [read_apply host _ hbody, readStacked_apply host depth hbody, hrun]
  refine hanswered.bind ?_
  rintro ⟨⟨result, recorded⟩, n₁⟩
  dsimp only
  cases hf₁ : n₁.formula? id with
  | none =>
    rw [bind_apply (resubscribe_of_none hf₁)]
    exact Option.some_ne_none (result, n₁)
  | some f₁ =>
    rw [bind_apply (resubscribe_eq hf₁)]
    exact Option.some_ne_none (result, n₁.resubscribed id f₁ recorded)

/-- The node that keeps the value of a cell on file is read alike if whatever is shown is, to less
depth. -/
theorem Nested.readsAlike_kept (hhost : host.Aloof tell)
    (hnote : ∀ text (n : Network N A σ), (host.note text) n ≠ none)
    (hn : n.Nested voc members limit stack) (hk : n.idleCells voc members ≤ k)
    (hdepth : 3 * k + 1 ≤ depth) {key : DependencyKey} {c : Nat} (hc : n.Under key c)
    (hshows : ∀ d < depth, ∀ (j : Nat) (stack : List Nat) (m : Network N A σ) (i : Nat),
      m.Nested voc members limit stack → m.idleCells voc members ≤ j → 3 * j + 2 ≤ d → m.Shows i →
      m.ReadsAlike host limit d stack i) : n.ReadsAlike host limit depth stack (c + 1) := by
  obtain ⟨source, path, hcell⟩ := hn.sane.exists_hasCell hc
  obtain ⟨node, hnode, hinner⟩ := kind?_eq_cached_iff.mp hcell.cached
  obtain ⟨d, rfl⟩ : ∃ d, depth = d + 1 := ⟨depth - 1, by omega⟩
  refine hn.readsAlike_cached hnode (fun hopen => ?_) fun hvalue hopen => ?_
  · have := hn.idleCells_enter hc hnode hopen
    have := hn.room
    omega
  · -- one cell fewer can be computed next, and so three levels less are enough
    have hfewer := hn.idleCells_enter hc hnode hopen
    have hroom := hn.room
    obtain ⟨hentered, hgains⟩ := hn.enter hnode hvalue (by omega)
    obtain ⟨f, hf⟩ := exists_formula? (hgains.kind _ _ hcell.formula)
    obtain ⟨d, rfl⟩ : ∃ d', d = d' + 1 := ⟨d - 1, by omega⟩
    rw [hinner]
    refine hentered.readsAlike_formula hhost hnote (k := k - 1) (by omega) hf fun m i hm hk hi => ?_
    exact hshows d (by omega) (k - 1) _ m i hm hk (by omega) hi

/-- Nodes that are shown are read alike however they are wired, if nodes may read each other deep enough:
three levels for every cell that is not being computed. -/
theorem readsAlike_shows (hhost : host.Aloof tell)
    (hnote : ∀ text (n : Network N A σ), (host.note text) n ≠ none) (depth : Nat) :
    ∀ (k : Nat) (stack : List Nat) (n : Network N A σ) (id : Nat), n.Nested voc members limit stack →
      n.idleCells voc members ≤ k → 3 * k + 2 ≤ depth → n.Shows id →
      n.ReadsAlike host limit depth stack id := by
  induction depth using Nat.strong_induction_on with
  | _ depth ih =>
    intro k stack n id hn hk hdepth hid
    obtain ⟨key, c, hc, rfl⟩ := hid
    obtain ⟨source, path, hcell⟩ := hn.sane.exists_hasCell hc
    obtain ⟨body, hbody, hkind⟩ := Option.map_eq_some_iff.mp hcell.exposed
    obtain ⟨d, rfl⟩ : ∃ d, depth = d + 1 := ⟨depth - 1, by omega⟩
    cases body with
    | exposed inner =>
      cases hkind
      have hkept : n.ReadsAlike host limit d stack (c + 1) :=
        hn.readsAlike_kept hhost hnote hk (by omega) hc fun d hd => ih d (by omega)
      exact hkept.within hbody (.inl rfl)
    | _ => cases hkind

/-- What combines the members of a collection is read alike if they are. -/
theorem ReadsAlike.combined {id : Nat} {a : AggregateNode} (hbody : n.body? id = some (.aggregate a))
    (h : Converges depth (fun d => (readAll (read host d) (n.memberNodes a.collection)).run n)
      ((readAll (readStacked host limit depth stack) (n.memberNodes a.collection)).run n)) :
    n.ReadsAlike host limit (depth + 1) stack id := by
  have hrun (r : Nat → Reading N (Run N A σ) (Option (Amount N))) :
      (do Reading.ofExcept (aggregate a.form (← readAll r (n.memberNodes a.collection)))
        : Reading N (Run N A σ) _).run n
        = ((readAll r (n.memberNodes a.collection)).run n).bind
          fun (result, n₁) => some (result.bind (aggregate a.form), n₁) := by
    rw [ExceptT.run_bind]
    change Option.bind _ _ = Option.bind _ _
    congr 1
    funext (result, n₁)
    cases result with
    | error fault => rfl
    | ok vs =>
      change (Reading.ofExcept (aggregate a.form vs) : Reading N (Run N A σ) _).run n₁
        = some (aggregate a.form vs, n₁)
      cases aggregate a.form vs <;> rfl
  refine .of_succ rfl ?_
  simp only [read_apply host _ hbody, readStacked_apply host depth hbody, hrun]
  exact h.bind fun _ => Option.some_ne_none _

variable (hhost : host.Aloof tell) (hnote : ∀ text (n : Network N A σ), (host.note text) n ≠ none)
include hhost hnote

/-- Nodes that are there are read alike one after another if those among the given ones are. -/
theorem Nested.readsAlike_all (hn : n.Nested voc members limit stack) (hk : n.idleCells voc members ≤ k)
    (hdepth : 3 * k + 2 ≤ depth) {ids : List Nat} (hthere : ∀ i ∈ ids, n.Readable i)
    (hids : ∀ i ∈ ids, ∀ m : Network N A σ, n.Gains m → m.Nested voc members limit stack →
      m.idleCells voc members ≤ k → m.ReadsAlike host limit depth stack i) :
    Converges depth (fun d => (readAll (read host d) ids).run n)
      ((readAll (readStacked host limit depth stack) ids).run n) := by
  let I (m : Network N A σ) : Prop :=
    n.Gains m ∧ m.Nested voc members limit stack ∧ m.idleCells voc members ≤ k
  -- formulas look up what is shown as well
  let P (m : Network N A σ) (i : Nat) : Prop := m.Shows i ∨ i ∈ ids ∧ m.Readable i
  have hI {m m' : Network N A σ} (h : m.Advances voc.regime m') (hm : I m) : I m' :=
    ⟨hm.1.trans h.gains, hm.2.1.advance h, (idleCells_le fun _ => h.isBusy).trans hm.2.2⟩
  have hshows : Reach voc.regime I Shows := reach_shows hI
  have hreach : Reach voc.regime I P :=
    { holds := hI
      stays := fun h hi => hi.imp (hshows.stays h) fun hi => ⟨hi.1, hi.2.mono h.gains⟩
      stage := fun hm he => .inl (hshows.stage hm he)
      member := fun hm he i hi => .inl (hshows.member hm he i hi) }
  have hlooks : LooksAlike host limit depth stack voc.regime I P := by
    intro m i _ hm hi
    rcases hi with hi | hi
    · exact readsAlike_shows hhost hnote depth k stack m i hm.2.1 hm.2.2 hdepth hi
    · exact hids i hi.1 m hm.1 hm.2.1 hm.2.2
  exact hlooks.readAll (fun _ _ hm hi => hi.elim hm.readable_of_shows And.right) hhost hreach hn.sane
    ⟨.refl n, hn, hk⟩ fun i hi => .inr ⟨hi, hthere i hi⟩

/-- The nodes that a network has on file: those that keep and show the values of cells, those that combine
the members of collections, and those that hosts are shown for the totals of stats. -/
inductive OnFile (n : Network N A σ) : Nat → Prop where
  | kept {key : DependencyKey} {c : Nat} (hc : n.Under key c) : OnFile n (c + 1)
  | shown {key : DependencyKey} {c : Nat} (hc : n.Under key c) : OnFile n (c + 2)
  | combined {key : StatKey} {form : Form} {path : PathKey} {e : FormEntry N}
    (he : n.registry.form? key form path = some e) : OnFile n e.aggregate
  | wrapped {key : DependencyKey} {c id : Nat} (hc : n.Under key c)
    (hkind : n.kind? id = some (.wrapped (c + 1))) : OnFile n id

/-- Nodes on file are read alike, if nodes may read each other deep enough. -/
theorem OnFile.readsAlike (hn : n.Nested voc members limit []) (hk : n.idleCells voc members ≤ k)
    (hdepth : 3 * k + 3 ≤ depth) {id : Nat} (hid : n.OnFile id) :
    n.ReadsAlike host limit depth [] id := by
  have hkept {key : DependencyKey} {c d : Nat} (hc : n.Under key c) (hd : 3 * k + 1 ≤ d) :
      n.ReadsAlike host limit d [] (c + 1) :=
    hn.readsAlike_kept hhost hnote hk hd hc fun d _ => readsAlike_shows hhost hnote d
  obtain ⟨d, rfl⟩ : ∃ d, depth = d + 1 := ⟨depth - 1, by omega⟩
  cases hid with
  | kept hc => exact hkept hc (by omega)
  | shown hc => exact readsAlike_shows hhost hnote (d + 1) k [] n _ hn hk (by omega) ⟨_, _, hc, rfl⟩
  | combined he =>
    obtain ⟨body, hbody, hkind⟩ := Option.map_eq_some_iff.mp (hn.sane.inv.wired.forms _ _ _ _ he).kind
    cases body with
    | aggregate a =>
      obtain ⟨hcollection, -⟩ := Kind.aggregate.inj hkind
      have hshown := hn.sane.shows_member he
      rw [← hcollection] at hshown
      refine .combined hbody (hn.readsAlike_all hhost hnote hk (by omega) (fun i hi => ?_)
        fun i hi m hgains hm hkm => ?_)
      · exact hn.sane.readable_of_shows (hshown i hi)
      · have hshows := hm.sane.shows_member (hgains.form? hm.sane.inv.orderly he) i (by
          rw [hgains.memberNodes, ← hcollection]
          exact hi)
        exact readsAlike_shows hhost hnote d k [] m i hm hkm (by omega) hshows
    | _ => cases hkind
  | wrapped hc hkind =>
    obtain ⟨body, hbody, hwrapped⟩ := Option.map_eq_some_iff.mp hkind
    cases body with
    | wrapped inner subscription =>
      cases hwrapped
      exact (hkept hc (by omega)).within hbody (.inr ⟨subscription, rfl⟩)
    | _ => cases hwrapped

/-- Nodes that a host may hold on to are read alike, if nodes may read each other deep enough and one
node that is on file no more fits onto the stack as well. -/
theorem Readable.readsAlike (hn : n.Sane voc.regime) {id : Nat} (hid : n.Readable id) :
    ∃ enough, ∀ m : Network N A σ, n.Gains m → m.Nested voc members limit [] →
      m.idleCells voc members < limit → ∀ depth, enough ≤ depth → m.ReadsAlike host limit depth [] id := by
  have hformula {m : Network N A σ} {stack : List Nat} {i d : Nat} (hm : m.Nested voc members limit stack)
      (hk : m.idleCells voc members ≤ limit) (hi : m.IsFormula i) (hd : 3 * limit + 3 ≤ d) :
      m.ReadsAlike host limit d stack i := by
    obtain ⟨source, path, hkind⟩ := hi
    obtain ⟨f, hf⟩ := exists_formula? hkind
    obtain ⟨d, rfl⟩ : ∃ d', d = d' + 1 := ⟨d - 1, by omega⟩
    refine hm.readsAlike_formula hhost hnote hk hf fun m' j hm' hk' hj => ?_
    exact readsAlike_shows hhost hnote d limit _ m' j hm' hk' (by omega) hj
  have hsucc {m : Network N A σ} {i enough : Nat}
      (h : ∀ depth, enough ≤ depth → m.ReadsAlike host limit (depth + 1) [] i) :
      ∀ depth, enough + 1 ≤ depth → m.ReadsAlike host limit depth [] i := by
    intro depth hdepth
    obtain ⟨d, rfl⟩ : ∃ d, depth = d + 1 := ⟨depth - 1, by omega⟩
    exact h d (by omega)
  induction hid with
  | absent hkind =>
    refine ⟨1, fun m hgains _ _ => hsucc fun depth _ => ?_⟩
    obtain ⟨body, hbody, habsent⟩ := Option.map_eq_some_iff.mp (hgains.kind _ _ hkind)
    cases body with
    | absent =>
      refine .of_succ rfl ?_
      exact .of_eq (readStacked_apply host depth hbody) fun d => read_apply host d hbody
    | _ => cases habsent
  | formula hkind _ =>
    exact ⟨3 * limit + 3, fun m hgains hm hroom depth hdepth =>
      hformula hm hroom.le ⟨_, _, hgains.kind _ _ hkind⟩ hdepth⟩
  | @cached id inner hkind _ _ =>
    -- the node may be on file no more, but what keeps a value keeps that of a formula
    have hinner : n.IsFormula inner := hn.inv.wired.made _ _ hkind
    obtain ⟨source, path, hinner⟩ := hinner
    refine ⟨3 * limit + 4, fun m hgains hm hroom => hsucc fun depth hdepth => ?_⟩
    obtain ⟨node, hnode, rfl⟩ := kind?_eq_cached_iff.mp (hgains.kind _ _ hkind)
    have hfewer : (m.modifyCached id CachedNode.enter).idleCells voc members ≤ _ :=
      Nested.idleCells_enter_le hnode
    refine hm.readsAlike_cached hnode (fun _ => Nat.zero_lt_of_lt hroom) fun hvalue _ => ?_
    obtain ⟨hentered, hgains'⟩ := hm.enter hnode hvalue (by rw [List.length_nil]; omega)
    exact hformula hentered (by omega) ⟨_, _, hgains'.kind _ _ (hgains.kind _ _ hinner)⟩ hdepth
  | exposed hkind _ ih | wrapped hkind _ ih =>
    obtain ⟨enough, ih⟩ := ih
    refine ⟨enough + 1, fun m hgains hm hroom => hsucc fun depth hdepth => ?_⟩
    obtain ⟨body, hbody, hshown⟩ := Option.map_eq_some_iff.mp (hgains.kind _ _ hkind)
    have hinner := ih m hgains hm hroom depth hdepth
    cases body <;> cases hshown
    exact hinner.within hbody (by simp)
  | @aggregate id c form hkind hmembers ih =>
    choose! enough ih using ih
    -- whatever is enough for each of the members is enough for all of them
    refine ⟨((n.memberNodes c).map enough).sum + 3 * limit + 3, fun m hgains hm hroom => ?_⟩
    refine hsucc fun depth hdepth => ?_
    obtain ⟨body, hbody, haggregate⟩ := Option.map_eq_some_iff.mp (hgains.kind _ _ hkind)
    cases body with
    | aggregate a =>
      cases haggregate
      have hk : m.idleCells voc members ≤ limit - 1 := by omega
      refine .combined hbody (hm.readsAlike_all hhost hnote hk (by omega) ?_ ?_)
      · intro i hi
        rw [hgains.memberNodes] at hi
        exact (hmembers i hi).mono hgains
      · intro i hi m' hgains' hm' hk
        rw [hgains.memberNodes] at hi
        have hle := List.single_le_sum (fun _ _ => Nat.zero_le _) _ (List.mem_map_of_mem (f := enough) hi)
        exact ih i hi m' (hgains.trans hgains') hm' (by omega) depth (by omega)
    | _ => cases haggregate

/-- What is on file is read with a stack of no more nodes than there are cells. -/
theorem Rests.valueOf_onFile (hn : n.Rests voc.regime) {id : Nat} (hid : n.OnFile id) :
    ∃ answer, (valueOf host id).run n = some answer ∧
      ∀ depth, 3 * (voc.cells n.memberIds).card + 3 ≤ depth →
        (readStacked host (voc.cells n.memberIds).card depth [] id).run n = some answer := by
  have hidle := idleCells_le_card voc n.memberIds n
  exact exists_valueOf fun depth hdepth =>
    hid.readsAlike hhost hnote (hn.sane.nested hn.idle hidle) hidle hdepth

/-- What a host may hold on to is read with a stack of at most one more node. -/
theorem Rests.valueOf_stacked (hn : n.Rests voc.regime) {id : Nat} (hid : n.Readable id) :
    ∃ answer enough, (valueOf host id).run n = some answer ∧ ∀ depth, enough ≤ depth →
      (readStacked host ((voc.cells n.memberIds).card + 1) depth [] id).run n = some answer := by
  obtain ⟨enough, halike⟩ : ∃ enough, ∀ m : Network N A σ, n.Gains m →
      m.Nested voc n.memberIds ((voc.cells n.memberIds).card + 1) [] → _ :=
    hid.readsAlike hhost hnote hn.sane
  have hidle := Nat.lt_succ_of_le (idleCells_le_card voc n.memberIds n)
  have hnested := hn.sane.nested hn.idle hidle.le
  obtain ⟨answer, hanswer⟩ := exists_valueOf (halike n (.refl n) hnested hidle)
  exact ⟨answer, enough, hanswer⟩

/-- Whatever is there can be read. -/
theorem legible_vocabulary : Legible voc.regime True host := by
  intro n id hn hid
  refine ⟨fun _ => ?_, (hn.sane.valueOf (explored_vocabulary hhost) hid).partly⟩
  obtain ⟨answer, -, hanswer, -⟩ := hn.valueOf_stacked hhost hnote hid
  rw [hanswer]
  exact Option.some_ne_none answer

end Alike

end Network

end StatEngine
