import StatEngine.Proofs.Cells

/-!
# Values that can be relied on

A cell keeps a value until it is told of a change. Such a value can be relied on if the formula of the
cell, evaluated with the values that are kept for what it recorded, yields just this value, and if all
of those values can be relied on in turn (`Grounded`). There is an end to this: what is grounded does
not depend on itself. Hence a grounded value is the one that the modifiers on file stand for.

## Main definitions

* `Known`: what the cells under the recorded dependencies say about a query;
* `Grounded` and `Sound`: values that can be relied on, and networks that keep no others.

## Main statements

* `Grounded.computes`: a grounded value is decided by the modifiers and paths on file;
* `Grounded.transfer`: what is grounded stays grounded if what it relies on stays as it is;
* `Sound.announce`: after a change was announced, all values can be relied on again.
-/

namespace StatEngine

section Eventually

variable {N α β : Type}

theorem forall₂_eventually {P : Nat → α → β → Prop} {as : List α} {bs : List β}
    (h : List.Forall₂ (fun a b => ∃ depth, ∀ d ≥ depth, P d a b) as bs) :
    ∃ depth, ∀ d ≥ depth, List.Forall₂ (P d) as bs := by
  induction h with
  | nil => exact ⟨0, fun _ _ => .nil⟩
  | cons h _ ih =>
    obtain ⟨depth, h⟩ := h
    obtain ⟨depth', ih⟩ := ih
    exact ⟨max depth depth', fun d hd => .cons (h d (le_of_max_le_left hd))
      (ih d (le_of_max_le_right hd))⟩

/-- Lookups that come to find what was replied come to the same outcome. -/
theorem Follows.eventually {answers : (query : Query N) → Except (Fault N) query.Reply → Prop}
    {inquiry : Inquiry N (Except (Fault N) α)} {l : Nat → Lookup N Option} {a : α}
    (h : Follows answers inquiry (.ok a))
    (hl : ∀ query reply, answers query (.ok reply) →
      ∃ depth, ∀ d ≥ depth, ((l d).answer query).run = some (.ok reply)) :
    ∃ depth, ∀ d ≥ depth, (inquiry.answeredBy (l d)).run = some (.ok a) := by
  generalize hresult : Except.ok a = result at h
  induction h with
  | done => subst hresult; exact ⟨0, fun _ _ => rfl⟩
  | reply answer _ ih =>
    obtain ⟨depth, hdepth⟩ := hl _ _ answer
    obtain ⟨depth', hdepth'⟩ := ih hresult
    refine ⟨max depth depth', fun d hd => ?_⟩
    rw [Inquiry.answeredBy, ExceptT.run_bind, hdepth d (le_of_max_le_left hd)]
    exact hdepth' d (le_of_max_le_right hd)
  | fault => cases hresult

theorem Inputs.Computes.eventually [Number N] {inputs : Inputs N} {φ : Formula N}
    {p : Path (Stat N)} {result : Except (Fault N) (Option (Amount N))}
    (h : inputs.Computes φ p result) :
    ∃ depth, ∀ d ≥ depth, (inputs.reference d φ p).run = some result := by
  obtain ⟨depth, h⟩ := h
  exact ⟨depth, fun d hd => Inputs.reference_mono hd φ p _ h⟩

end Eventually

namespace Network

variable {N A σ : Type} [Number N] {sc : Regime N}

/-- Whether a formula recorded a dependency in its last evaluation. -/
def Records (n : Network N A σ) (id : Nat) (key : DependencyKey) : Prop :=
  ∃ s, (key, s) ∈ n.recorded id

/-- What is known about a query of the formula at `id` from what is kept under the dependencies it
`reads`. Only the sum over the paths of a stat reads those paths. -/
def Known (sc : Regime N) (n : Network N A σ) (reads : DependencyKey → Prop) (id : Nat) :
    (query : Query N) → query.Reply → Prop
  | .paths s, reply => reads (.paths s.key)
    ∧ (∃ e, n.registry.stage? ⟨s.key, .uncappedSubtotal, Path.main⟩ = some e ∧ e.formula = id)
    ∧ Path.main ∈ n.registry.paths s.key ∧ reply = n.registry.paths s.key
  | .value s stage p, reply => s ∈ sc.stats ∧ (stagePath stage p).via = []
    ∧ reads (.node ⟨s.key, stage, (stagePath stage p).key⟩)
    ∧ ∃ e, n.registry.stage? ⟨s.key, stage, (stagePath stage p).key⟩ = some e
      ∧ n.value? (e.formula + 1) = some reply
  | .values form places, reply => ∃ replies : List (List (Option (Amount N))), reply = replies.flatten
    ∧ List.Forall₂ (fun place values => reads (.form place.1.key form place.2.key)
      ∧ ∃ e, n.registry.form? place.1.key form place.2.key = some e
        ∧ List.Forall₂ (fun i v => ∃ c, i.1 = c + 2 ∧ n.value? (c + 1) = some v)
          (n.registry.items e.collection) values) places replies
  | .derived _, _ | .note _, _ => False

/-- A value that can be relied on, because all it was computed from can be relied on. -/
inductive Grounded (sc : Regime N) (n : Network N A σ) : Nat → Prop where
  | intro {id : Nat} {φ : Formula N} {p : Path (Stat N)} {v : Option (Amount N)}
    (denotes : n.Denotes sc id φ p) (value : n.value? (id + 1) = some v)
    (resolved : ∀ d ∈ n.recorded id, n.registry.topic? d.1 = some d.2.topic)
    (follows : Follows (fun query answer => ∃ reply, answer = .ok reply
      ∧ n.Known sc (n.Records id) id query reply) (φ.inquiry p).run (.ok v))
    (observed : ∀ key, n.Records id key → ∀ c, n.Under key c → n.isObserved (c + 1))
    (reads : ∀ key, n.Records id key → ∀ c, n.Under key c → Grounded sc n c) : Grounded sc n id

/-- A network that keeps no values on file but those that can be relied on. -/
def Sound (sc : Regime N) (n : Network N A σ) : Prop :=
  ∀ id φ p v, n.Denotes sc id φ p → n.value? (id + 1) = some v → n.Grounded sc id

theorem Grounded.value {n : Network N A σ} {id : Nat} (h : n.Grounded sc id) :
    ∃ v, n.value? (id + 1) = some v := by
  cases h with
  | intro _ value => exact ⟨_, value⟩

theorem Grounded.denotes {n : Network N A σ} {id : Nat} (h : n.Grounded sc id) :
    ∃ φ p, n.Denotes sc id φ p := by
  cases h with
  | intro denotes => exact ⟨_, _, denotes⟩

/-! ## Grounded values are right -/

omit [Number N] in
/-- Paths without conversions are told by their keys. -/
theorem path_eq_of_key {p q : Path (Stat N)} (hq : q.via = []) (h : p.key = q.key) : p = q := by
  obtain ⟨source, via⟩ := p
  obtain ⟨source', via'⟩ := q
  simp_all [Path.key, Path.map]

omit [Number N] in
/-- A cell computes one thing. -/
theorem Wired.denotes_unique {n : Network N A σ} (hn : n.Wired sc) (ho : n.registry.Orderly sc)
    {id : Nat} {φ φ' : Formula N} {p p' : Path (Stat N)} (h : n.Denotes sc id φ p)
    (h' : n.Denotes sc id φ' p') : φ = φ' ∧ p = p' := by
  obtain ⟨source, hcell, hφ⟩ := hn.cell_of_denotes ho.stats h
  obtain ⟨source', hcell', hφ'⟩ := hn.cell_of_denotes ho.stats h'
  have := Option.some.inj (hcell.formula.symm.trans hcell'.formula)
  obtain ⟨rfl, rfl⟩ := Kind.formula.inj this
  exact ⟨hφ.unique hφ', rfl⟩

omit [Number N] in
/-- The cell of a stage computes the stage. -/
theorem Wired.exists_eq_stage {n : Network N A σ} (hn : n.Wired sc) (ho : n.registry.Orderly sc)
    {k : NodeKey} {e : NodeEntry N} (he : n.registry.stage? k = some e) {φ : Formula N}
    {p : Path (Stat N)} (hd : n.Denotes sc e.formula φ p) :
    ∃ s ∈ sc.stats, φ = .stage s k.stage ∧ s.key = k.stat := by
  obtain ⟨source, hcell, hφ⟩ := hn.cell_of_denotes ho.stats hd
  obtain ⟨-, -, l, g, layers, hcell', hg, hl, -⟩ := hn.stages k e he
  obtain ⟨rfl, -⟩ := Kind.formula.inj (Option.some.inj (hcell.formula.symm.trans hcell'.formula))
  have hφ : n.registry.layering l = some (φ, []) := hφ
  cases hl.symm.trans hφ
  generalize hid : e.formula = id at hd
  generalize hstage : Formula.stage g.stat k.stage = φ at hd
  cases hd with
  | stage _ hs _ =>
    obtain ⟨rfl, hk⟩ := Formula.stage.inj hstage
    exact ⟨_, hs, congrArg _ hk.symm, Registry.stat_key hg⟩
  | member hsc he' hi =>
    obtain ⟨-, -, hformula, -⟩ := (hn.forms _ _ _ _ he').members _ hi
    have hreads := hsc.reads hformula
    rw [← hstage] at hreads
    cases hreads

/-- What is known is what is looked up among the modifiers and paths on file, if the values it is known
from are those that the modifiers and paths stand for. -/
theorem Known.eventually {n : Network N A σ} (hsc : sc.Follows)
    {reads : DependencyKey → Prop} {id : Nat} {query : Query N} {reply : query.Reply}
    (h : n.Known sc reads id query reply) (path : Path (Stat N))
    (hcomputes : ∀ key, reads key → ∀ c, n.Under key c → ∀ {φ p v}, n.Denotes sc c φ p →
      n.value? (c + 1) = some v → n.registry.inputs.Computes φ p (.ok v)) :
    ∃ depth, ∀ d ≥ depth, ((n.registry.inputs.lookup path
      (n.registry.inputs.reference d)).answer query).run = some (.ok reply) := by
  cases query with
  | paths s =>
    obtain ⟨-, -, hmain, rfl⟩ := h
    refine ⟨0, fun d _ => ?_⟩
    have : Path.main.isIn (n.registry.paths s.key) :=
      List.any_eq_true.mpr ⟨_, hmain, by simp [Path.same]⟩
    simp only [Lookup.answer, Inputs.lookup, Registry.inputs, this, if_true]
    rfl
  | value s stage q =>
    obtain ⟨hs, hvia, hkey, e, he, hvalue⟩ := h
    obtain ⟨-, hpath⟩ := Registry.stage?_spec he
    have hp : e.path = stagePath stage q := path_eq_of_key hvia hpath
    have hd : n.Denotes sc e.formula (.stage s stage) (stagePath stage q) :=
      hp ▸ Denotes.stage he hs rfl
    exact (hcomputes _ hkey _ ⟨e, he, rfl⟩ hd hvalue).eventually
  | values form places =>
    obtain ⟨replies, rfl, hreplies⟩ := h
    have hplaces : List.Forall₂ (fun (place : Place N) values => ∃ depth, ∀ d ≥ depth,
        ((n.registry.inputs.modifiers place.1.key form place.2.key).mapM fun m =>
          n.registry.inputs.reference d m.formula m.path).run = some (.ok values))
        places replies := by
      refine hreplies.imp ?_
      rintro place values ⟨hkey, e, he, hvalues⟩
      simp only [Registry.modifiers_eq he, run_mapM_eq_ok_iff, List.forall₂_map_left_iff]
      refine forall₂_eventually ?_
      have hitems := (List.forall₂_and_left _ _).mpr ⟨fun i hi => hi, hvalues⟩
      refine hitems.imp ?_
      rintro i v ⟨hi, c, hc, hvalue⟩
      have hd : n.Denotes sc c i.2.formula i.2.path := .member hsc he (hc ▸ hi)
      have hunder : n.Under (.form place.1.key form place.2.key) c :=
        ⟨e, he, hc ▸ List.mem_map_of_mem hi⟩
      exact (hcomputes _ hkey _ hunder hd hvalue).eventually
    obtain ⟨depth, hdepth⟩ := forall₂_eventually hplaces
    refine ⟨depth, fun d hd => ?_⟩
    refine run_bind_eq_ok_iff.mpr ⟨replies, ?_, rfl⟩
    exact run_mapM_eq_ok_iff.mpr (hdepth d hd)
  | derived | note => exact h.elim

/-- A formula that succeeds with what is known comes to what the modifiers and paths on file stand for. -/
theorem computes_of_follows {n : Network N A σ} (hsc : sc.Follows)
    {answers : (query : Query N) → Except (Fault N) query.Reply → Prop} {φ : Formula N}
    {p : Path (Stat N)} {v : Option (Amount N)} (h : Follows answers (φ.inquiry p).run (.ok v))
    {reads : DependencyKey → Prop} {id : Nat}
    (hknown : ∀ query reply, answers query (.ok reply) → n.Known sc reads id query reply)
    (hcomputes : ∀ key, reads key → ∀ c, n.Under key c → ∀ {φ p v}, n.Denotes sc c φ p →
      n.value? (c + 1) = some v → n.registry.inputs.Computes φ p (.ok v)) :
    n.registry.inputs.Computes φ p (.ok v) := by
  obtain ⟨depth, hdepth⟩ := Follows.eventually (l := fun d =>
    n.registry.inputs.lookup p (n.registry.inputs.reference d)) h
    fun query reply hreply => (hknown query reply hreply).eventually hsc p hcomputes
  refine ⟨depth + 1, ?_⟩
  rw [Inputs.reference, φ.eval_eq_answeredBy]
  exact hdepth depth le_rfl

/-- A grounded value is the one that the modifiers and paths on file stand for. -/
theorem Grounded.computes {n : Network N A σ} (hn : n.Wired sc) (ho : n.registry.Orderly sc)
    {id : Nat} (h : n.Grounded sc id) : ∀ {φ : Formula N} {p : Path (Stat N)}
      {v : Option (Amount N)}, n.Denotes sc id φ p → n.value? (id + 1) = some v →
      n.registry.inputs.Computes φ p (.ok v) := by
  induction h with
  | @intro id φ p v denotes value resolved follows observed reads ih =>
    intro φ' p' v' hd hv
    obtain ⟨rfl, rfl⟩ := hn.denotes_unique ho denotes hd
    obtain rfl := Option.some.inj (value.symm.trans hv)
    exact computes_of_follows denotes.follows follows (fun _ _ ⟨_, h, hknown⟩ => Except.ok.inj h ▸ hknown) ih

/-! ## What stays grounded -/

/-- Whether two registries have the same on file for a dependency. -/
def SameAt (r r' : Registry N) : DependencyKey → Prop
  | .node k => r'.stage? k = r.stage? k
  | .form key form path => r'.form? key form path = r.form? key form path
    ∧ ∀ e, r.form? key form path = some e → r'.items e.collection = r.items e.collection
  | .paths key => r'.topic? (.paths key) = r.topic? (.paths key)
    ∧ (Path.main ∈ r.paths key → r'.paths key = r.paths key)
    ∧ ∀ e, r.stage? ⟨key, .uncappedSubtotal, Path.main⟩ = some e →
      r'.stage? ⟨key, .uncappedSubtotal, Path.main⟩ = some e

omit [Number N] in
theorem SameAt.refl (r : Registry N) (key : DependencyKey) : SameAt r r key := by
  cases key with
  | node => exact rfl
  | form => exact ⟨rfl, fun _ _ => rfl⟩
  | paths => exact ⟨rfl, fun _ => rfl, fun _ h => h⟩

omit [Number N] in
theorem SameAt.topic {r r' : Registry N} {key : DependencyKey}
    (h : SameAt r r' key) : r'.topic? key = r.topic? key := by
  cases key with
  | node k => exact congrArg (Option.map fun e => Topic.received e.cached) h
  | form => exact congrArg (Option.map fun e => Topic.changed e.aggregate) h.1
  | paths => exact h.1

omit [Number N] in
theorem SameAt.under_iff {n n' : Network N A σ} {key : DependencyKey}
    (h : SameAt n.registry n'.registry key) {c : Nat} : n'.Under key c ↔ n.Under key c := by
  cases key with
  | node k => rw [Under, Under, show n'.registry.stage? k = _ from h]
  | form key form path =>
    simp only [Under, h.1]
    refine exists_congr fun e => and_congr_right fun he => ?_
    rw [h.2 e he]
  | paths => exact Iff.rfl

omit [Number N] in
/-- What is known stays known if what it was looked up in stays as it is. -/
theorem Known.transfer {n n' : Network N A σ} {reads reads' : DependencyKey → Prop} {id : Nat}
    {query : Query N} {reply : query.Reply} (h : n.Known sc reads id query reply)
    (hreads : ∀ key, reads key → reads' key)
    (hsame : ∀ key, reads key → SameAt n.registry n'.registry key)
    (hvalue : ∀ key, reads key → ∀ c, n.Under key c → ∀ v, n.value? (c + 1) = some v →
      n'.value? (c + 1) = some v) :
    n'.Known sc reads' id query reply := by
  cases query with
  | paths s =>
    obtain ⟨hkey, ⟨e, he, hid⟩, hmain, hreply⟩ := h
    obtain ⟨-, hpaths, hentry⟩ := hsame _ hkey
    have hpaths := hpaths hmain
    exact ⟨hreads _ hkey, ⟨e, hentry e he, hid⟩, hpaths ▸ hmain, hreply.trans hpaths.symm⟩
  | value s stage p =>
    obtain ⟨hs, hvia, hkey, e, he, hv⟩ := h
    refine ⟨hs, hvia, hreads _ hkey, e, (hsame _ hkey).trans he, ?_⟩
    exact hvalue _ hkey _ ⟨e, he, rfl⟩ _ hv
  | values form places =>
    obtain ⟨replies, hreply, hreplies⟩ := h
    refine ⟨replies, hreply, hreplies.imp fun place values ⟨hkey, e, he, hvalues⟩ => ?_⟩
    obtain ⟨hform, hitems⟩ := hsame _ hkey
    refine ⟨hreads _ hkey, e, hform.trans he, ?_⟩
    rw [hitems e he]
    have := (List.forall₂_and_left _ _).mpr ⟨fun i hi => hi, hvalues⟩
    exact this.imp fun i v ⟨hi, c, hc, hv⟩ =>
      ⟨c, hc, hvalue _ hkey c ⟨e, he, hc ▸ List.mem_map_of_mem hi⟩ v hv⟩
  | derived | note => exact h.elim

/-- What a cell computes, what it recorded and what that is on file for stay as they are. -/
structure KeepsAt (sc : Regime N) (n n' : Network N A σ) (id : Nat) : Prop where
  denotes : ∀ φ p, n.Denotes sc id φ p → n'.Denotes sc id φ p
  value : n'.value? (id + 1) = n.value? (id + 1)
  recorded : n'.recorded id = n.recorded id
  same : ∀ key, n.Records id key → SameAt n.registry n'.registry key

/-- What is grounded stays grounded if all that it relies on stays as it is. -/
theorem Grounded.transfer {n n' : Network N A σ} {P : Nat → Prop}
    (hkeeps : ∀ id, P id → n.Grounded sc id → n.KeepsAt sc n' id)
    (hreads : ∀ id, P id → n.Grounded sc id → ∀ key, n.Records id key → ∀ c, n.Under key c →
      P c ∧ n'.isObserved (c + 1)) {id : Nat} (h : n.Grounded sc id) (hid : P id) :
    n'.Grounded sc id := by
  induction h with
  | @intro id φ p v denotes value resolved follows observed reads ih =>
    have hgrounded : n.Grounded sc id := .intro denotes value resolved follows observed reads
    have hkeep := hkeeps id hid hgrounded
    have hrecords (key : DependencyKey) : n'.Records id key ↔ n.Records id key := by
      rw [Records, Records, hkeep.recorded]
    refine .intro (hkeep.denotes φ p denotes) (hkeep.value.trans value) (fun d hd => ?_)
      (follows.mono fun query answer ⟨reply, hanswer, hknown⟩ => ⟨reply, hanswer, ?_⟩)
      (fun key hkey c hc => ?_) (fun key hkey c hc => ?_)
    · rw [hkeep.recorded] at hd
      rw [(hkeep.same d.1 ⟨d.2, hd⟩).topic, resolved d hd]
    · refine hknown.transfer (fun key => (hrecords key).mpr) hkeep.same fun key hkey c hc v hv => ?_
      have hP := (hreads id hid hgrounded key hkey c hc).1
      exact (hkeeps c hP (reads key hkey c hc)).value.trans hv
    · have hkey := (hrecords key).mp hkey
      exact (hreads id hid hgrounded key hkey c ((hkeep.same key hkey).under_iff.mp hc)).2
    · have hkey := (hrecords key).mp hkey
      have hc := (hkeep.same key hkey).under_iff.mp hc
      exact ih key hkey c hc (hreads id hid hgrounded key hkey c hc).1

omit [Number N] in
theorem value?_dim (n : Network N A σ) (heard : List Nat) (left : Notices σ) (c : Nat) :
    (n.dim heard left).value? c = if c ∈ heard then none else n.value? c := by
  rw [value?, flags?_dim, value?]
  cases n.flags? c with
  | none => simp
  | some flags => by_cases hc : c ∈ heard <;> simp [hc, Flags.dropped]

omit [Number N] in
/-- Whoever does not hear of a change read no cell that hears of it and would tell. -/
theorem Wired.not_hears_under {n : Network N A σ} (hn : n.Wired sc) {id c : Nat}
    {source : FormulaSource N} {p : Path (Stat N)} (hcell : n.HasCell id source p)
    {key : DependencyKey} {s : Subscription} (hs : (key, s) ∈ n.recorded id)
    (htopic : n.registry.topic? key = some s.topic) (hunder : n.Under key c)
    (hobserved : n.isObserved (c + 1)) {topic : Topic} (hnot : ¬ n.Hears topic (id + 1)) :
    ¬ n.Hears topic (c + 1) :=
  fun h => hnot (h.trans hobserved (hn.hears_of_under hcell hs htopic hunder))

omit [Number N] in
/-- What a cell computes that was read for a dependency is the same if the same is on file for it. -/
theorem Wired.denotes_of_under {n n' : Network N A σ} (hn : n.Wired sc) (ho : n.registry.Orderly sc)
    {key : DependencyKey} (hsame : SameAt n.registry n'.registry key) {c : Nat}
    (hunder : n.Under key c) {φ : Formula N} {p : Path (Stat N)} (hd : n.Denotes sc c φ p) :
    n'.Denotes sc c φ p := by
  cases key with
  | node k =>
    obtain ⟨e, he, rfl⟩ := hunder
    obtain ⟨s, hs, rfl, hk⟩ := hn.exists_eq_stage ho he hd
    obtain ⟨-, rfl⟩ := hn.denotes_unique ho hd (.stage he hs hk)
    exact .stage (hsame.trans he) hs hk
  | form key form path =>
    obtain ⟨e, he, hmem⟩ := hunder
    obtain ⟨⟨_, m⟩, hi, rfl⟩ := List.mem_map.mp hmem
    obtain ⟨rfl, rfl⟩ := hn.denotes_unique ho hd (.member hd.follows he hi)
    exact .member hd.follows (hsame.1.trans he) (by rwa [hsame.2 e he])
  | paths => exact hunder.elim

/-- After a change was announced, all values can be relied on again: those that were kept for what
changed were dropped. -/
theorem Sound.announce {n m : Network N A σ} (hn : n.Sound sc) (hwired : n.Wired sc)
    (horderly : n.registry.Orderly sc) (hm : m.Wired sc)
    (ho : m.registry.Orderly sc) (hobserved : ∀ c, m.isObserved c = n.isObserved c)
    (hvalue : ∀ id φ p, m.Denotes sc id φ p → m.value? (id + 1) = n.value? (id + 1)) {topic : Topic}
    (hkeeps : ∀ id, (∃ φ p, m.Denotes sc id φ p) → n.Grounded sc id → ¬ m.Hears topic (id + 1) →
      n.KeepsAt sc m id)
    (hknown : ∀ id φ p, m.Denotes sc id φ p → n.value? (id + 1) ≠ none → ¬ m.Hears topic (id + 1) →
      n.Denotes sc id φ p)
    {ids : List Nat} (hids : ∀ c, c ∈ ids ↔ m.Hears topic c) (left : Notices σ) :
    (m.dim ids left).Sound sc := by
  intro id φ p v hd hv
  have hd : m.Denotes sc id φ p := hd.of_registry (m.registry_dim ids left).symm
  rw [value?_dim] at hv
  split at hv
  · cases hv
  next hc =>
  rw [hvalue id φ p hd] at hv
  have hgrounded := hn id φ p v (hknown id φ p hd (by simp [hv]) (mt (hids _).mpr hc)) hv
  refine hgrounded.transfer (P := fun id => (∃ φ p, m.Denotes sc id φ p) ∧ id + 1 ∉ ids)
    (fun id hid h => ?_) (fun id hid h key hkey c hc => ?_) ⟨⟨φ, p, hd⟩, hc⟩
  · have hkeep := hkeeps id hid.1 h (mt (hids _).mpr hid.2)
    refine ⟨fun φ p hd => (hkeep.denotes φ p hd).of_registry (m.registry_dim ids left), ?_, ?_,
      hkeep.same⟩
    · obtain ⟨φ, p, hd⟩ := hid.1
      rw [value?_dim, if_neg hid.2, hvalue id φ p hd]
    · rw [← hkeep.recorded]
      exact recorded_relight ..
  · have hkeep := hkeeps id hid.1 h (mt (hids _).mpr hid.2)
    cases h with
    | intro denotes value resolved follows observed reads =>
    obtain ⟨s, hs⟩ := hkey
    have hsame := hkeep.same key ⟨s, hs⟩
    -- a cell that was read and heard of the change would have told
    have hc' : c + 1 ∉ ids := by
      obtain ⟨source, hcell, -⟩ := hm.cell_of_denotes ho.stats (hkeep.denotes _ _ denotes)
      exact mt (hids _).mp (hm.not_hears_under hcell (hkeep.recorded ▸ hs)
        (hsame.topic.trans (resolved _ hs)) (hsame.under_iff.mpr hc)
        ((hobserved _).trans (observed key ⟨s, hs⟩ c hc)) (mt (hids _).mpr hid.2))
    obtain ⟨ψ, q, hdc⟩ := (reads key ⟨s, hs⟩ c hc).denotes
    refine ⟨⟨⟨ψ, q, hwired.denotes_of_under horderly hsame hc hdc⟩, hc'⟩, ?_⟩
    rw [isObserved_dim, hobserved, observed key ⟨s, hs⟩ c hc]
    simp [hc']

end Network

end StatEngine
