import StatEngine.Proofs.Grounded

/-!
# Cells that are stuck

A cell whose computation ended in a fault keeps no value, but it was read and is told of changes. It is
stuck as long as nothing changes: its formula, evaluated with the values that are kept for what it
recorded, ends in a fault of its own, or comes to a cell that is stuck as well (`Stuck`). Cells that
read each other in a circle are stuck on each other, so nothing is said about where this ends.

## Main definitions

* `Failed`: a cell that was read and has no value;
* `Blocks`: what stands in the way of a query;
* `Stuck`: a formula that cannot get further than to a cell that failed.

## Main statements

* `reference_ne_of_stuck`: if all cells that failed are stuck, the modifiers on file stand for no value
  of theirs;
* `Stuck.transfer`: what is stuck stays stuck if what it relies on stays as it is.
-/

namespace StatEngine

section Faults

variable {N α β : Type}

theorem exists_of_forall₂ {R : α → β → Prop} {as : List α} {bs : List β} (h : List.Forall₂ R as bs)
    {a : α} (ha : a ∈ as) : ∃ b ∈ bs, R a b := by
  induction h with
  | nil => cases ha
  | cons hab _ ih =>
    obtain rfl | ha := List.mem_cons.mp ha
    · exact ⟨_, List.mem_cons_self, hab⟩
    · obtain ⟨b, hb, hab⟩ := ih ha
      exact ⟨b, List.mem_cons_of_mem _ hb, hab⟩

/-- If no lookup finds what was not replied, nothing comes of an inquiry that ended in a fault. -/
theorem Follows.answeredBy_ne {answers : (query : Query N) → Except (Fault N) query.Reply → Prop}
    {inquiry : Inquiry N (Except (Fault N) α)} {fault : Fault N} {l : Lookup N Option}
    (h : Follows answers inquiry (.error fault))
    (hok : ∀ query reply, answers query (.ok reply) → ∀ reply',
      (l.answer query).run = some (.ok reply') → reply' = reply)
    (herror : ∀ query f, answers query (.error f) → ∀ reply,
      (l.answer query).run ≠ some (.ok reply)) (a : α) :
    (inquiry.answeredBy l).run ≠ some (.ok a) := by
  generalize hresult : Except.error fault = result at h
  induction h with
  | done => subst hresult; simp [Inquiry.answeredBy, Reading.ofExcept]
  | @reply query next reply _ answer _ ih =>
    rw [Inquiry.answeredBy, ExceptT.run_bind]
    cases hfound : (l.answer query).run with
    | none => simp
    | some found =>
      cases found with
      | error f => simp
      | ok reply' =>
        obtain rfl := hok _ _ answer reply' hfound
        exact ih hresult
  | @fault query next f answer =>
    rw [Inquiry.answeredBy, ExceptT.run_bind]
    cases hfound : (l.answer query).run with
    | none => simp
    | some found =>
      cases found with
      | error f => simp
      | ok reply => exact absurd hfound (herror _ _ answer reply)

end Faults

namespace Network

variable {N A σ : Type} {sc : Regime N}

/-- A cached node that was read since it last announced a change, and has no value. -/
def Failed (n : Network N A σ) (c : Nat) : Prop := n.isObserved c ∧ n.value? c = none

/-- A cell that failed stands in the way of a query, and was recorded. -/
def Blocks (sc : Regime N) (n : Network N A σ) (reads : DependencyKey → Prop) : Query N → Prop
  | .value s stage p => s ∈ sc.stats ∧ (stagePath stage p).via = []
    ∧ reads (.node ⟨s.key, stage, (stagePath stage p).key⟩)
    ∧ ∃ e, n.registry.stage? ⟨s.key, stage, (stagePath stage p).key⟩ = some e
      ∧ n.Failed (e.formula + 1)
  | .values form places => ∃ place ∈ places, reads (.form place.1.key form place.2.key)
    ∧ ∃ e, n.registry.form? place.1.key form place.2.key = some e
      ∧ ∃ i ∈ n.registry.items e.collection, ∃ c, i.1 = c + 2 ∧ n.Failed (c + 1)
  | _ => False

/-- What became of a query: a reply that is known, or a fault of something that stands in the way. -/
def Answers (sc : Regime N) (n : Network N A σ) (reads : DependencyKey → Prop) (id : Nat)
    (query : Query N) : Except (Fault N) query.Reply → Prop
  | .ok reply => n.Known sc reads id query reply
  | .error _ => n.Blocks sc reads query

/-- What a cell recorded are dependencies that are on file where they were recorded. -/
def Resolved (n : Network N A σ) (id : Nat) : Prop :=
  ∀ d ∈ n.recorded id, n.registry.topic? d.1 = some d.2.topic

variable [Number N]

/-- The evaluation of a formula ends in a fault, from what is known under its dependencies. -/
structure Stuck (sc : Regime N) (n : Network N A σ) (id : Nat) (φ : Formula N) (p : Path (Stat N)) :
    Prop where
  resolved : n.Resolved id
  follows : ∃ fault, Follows (n.Answers sc (n.Records id) id) (φ.inquiry p).run (.error fault)

theorem Grounded.resolved {n : Network N A σ} {id : Nat} (h : n.Grounded sc id) : n.Resolved id := by
  cases h with
  | intro _ _ resolved => exact resolved

/-! ## Nothing comes of what is stuck -/

section Reference

variable {n : Network N A σ} (hn : n.Wired sc) (ho : n.registry.Orderly sc) (hsound : n.Sound sc)
include hn ho hsound

/-- What is known is what is found among the modifiers and paths on file, to whatever depth. -/
theorem Known.approx (hsc : sc.Follows) {reads : DependencyKey → Prop} {id : Nat} {query : Query N}
    {reply : query.Reply} (h : n.Known sc reads id query reply) (path : Path (Stat N)) (depth : Nat) :
    Approx ((n.registry.inputs.lookup path
      (n.registry.inputs.reference depth)).answer query).run (.ok reply) := by
  obtain ⟨depth', hdepth'⟩ := h.eventually hsc path fun _ _ c _ φ p v hd hv =>
    (hsound _ _ _ _ hd hv).computes hn ho hd hv
  intro result hfound
  have hle : ((n.registry.inputs.lookup path (n.registry.inputs.reference (max depth depth'))).answer
      query).run = some result := Inputs.lookup_refines
    (fun φ p => Inputs.reference_mono (Nat.le_max_left depth depth') φ p) query _ hfound
  rw [hdepth' _ (Nat.le_max_right depth depth')] at hle
  rw [Option.some.inj hle]

/-- If all cells that failed are stuck, the modifiers and paths on file stand for no value of theirs. -/
theorem reference_ne_of_stuck
    (hstuck : ∀ id φ p, n.Denotes sc id φ p → n.Failed (id + 1) → n.Stuck sc id φ p) :
    ∀ (depth : Nat) {id : Nat} {φ : Formula N} {p : Path (Stat N)}, n.Denotes sc id φ p →
      n.Failed (id + 1) → ∀ v, (n.registry.inputs.reference depth φ p).run ≠ some (.ok v)
  | 0, _, _, _, _, _, _ => by simp [Inputs.reference]
  | depth + 1, id, φ, p, hd, hfailed, v => by
    obtain ⟨-, fault, hfollows⟩ := hstuck id φ p hd hfailed
    rw [Inputs.reference, φ.eval_eq_answeredBy]
    refine hfollows.answeredBy_ne (fun query reply hknown reply' hfound => ?_)
      (fun query _ hblocks reply hfound => ?_) v
    · exact (Except.ok.inj (hknown.approx hn ho hsound hd.follows p depth _ hfound).eq_ok).symm
    cases query with
    | value s stage q =>
      obtain ⟨hs, hvia, -, e, he, hfailed'⟩ := hblocks
      obtain ⟨-, hpath⟩ := Registry.stage?_spec he
      have hp : e.path = stagePath stage q := path_eq_of_key hvia hpath
      exact reference_ne_of_stuck hstuck depth (hp ▸ Denotes.stage he hs rfl) hfailed' reply hfound
    | values form places =>
      obtain ⟨place, hplace, -, e, he, i, hi, c, hc, hfailed'⟩ := hblocks
      obtain ⟨replies, hreplies, -⟩ := run_bind_eq_ok_iff.mp hfound
      obtain ⟨values, -, hvalues⟩ := exists_of_forall₂ (run_mapM_eq_ok_iff.mp hreplies) hplace
      have hmem : i.2 ∈ n.registry.inputs.modifiers place.1.key form place.2.key := by
        rw [Registry.modifiers_eq he]
        exact List.mem_map_of_mem hi
      obtain ⟨w, -, hw⟩ := exists_of_forall₂ (run_mapM_eq_ok_iff.mp hvalues) hmem
      exact reference_ne_of_stuck hstuck depth (.member hd.follows he (hc ▸ hi)) hfailed' w hw
    | paths | derived | note => exact hblocks

end Reference

/-! ## What stays stuck -/

omit [Number N] in
/-- What stands in the way goes on to do so, if it is on file and failed as before. -/
theorem Blocks.transfer {n n' : Network N A σ} {reads reads' : DependencyKey → Prop} {query : Query N}
    (h : n.Blocks sc reads query) (hreads : ∀ key, reads key → reads' key)
    (hsame : ∀ key, reads key → SameAt n.registry n'.registry key)
    (hfailed : ∀ key, reads key → ∀ c, n.Under key c → n.Failed (c + 1) → n'.Failed (c + 1)) :
    n'.Blocks sc reads' query := by
  cases query with
  | value s stage p =>
    obtain ⟨hs, hvia, hkey, e, he, hf⟩ := h
    exact ⟨hs, hvia, hreads _ hkey, e, (hsame _ hkey).trans he, hfailed _ hkey _ ⟨e, he, rfl⟩ hf⟩
  | values form places =>
    obtain ⟨place, hplace, hkey, e, he, i, hi, c, hc, hf⟩ := h
    obtain ⟨hform, hitems⟩ := hsame _ hkey
    exact ⟨place, hplace, hreads _ hkey, e, hform.trans he, i, hitems e he ▸ hi, c, hc,
      hfailed _ hkey c ⟨e, he, hc ▸ List.mem_map_of_mem hi⟩ hf⟩
  | paths | derived | note => exact h

omit [Number N] in
/-- What became of a query is the same as long as what it relies on stays as it is. -/
theorem Answers.transfer {n n' : Network N A σ} {reads reads' : DependencyKey → Prop} {id : Nat}
    {query : Query N} {answer : Except (Fault N) query.Reply} (h : n.Answers sc reads id query answer)
    (hreads : ∀ key, reads key → reads' key)
    (hsame : ∀ key, reads key → SameAt n.registry n'.registry key)
    (hvalue : ∀ key, reads key → ∀ c, n.Under key c → ∀ v, n.value? (c + 1) = some v →
      n'.value? (c + 1) = some v)
    (hfailed : ∀ key, reads key → ∀ c, n.Under key c → n.Failed (c + 1) → n'.Failed (c + 1)) :
    n'.Answers sc reads' id query answer := by
  cases answer with
  | ok reply => exact Known.transfer h hreads hsame hvalue
  | error f => exact Blocks.transfer h hreads hsame hfailed

/-- What is stuck stays stuck if what it recorded, what that is on file for, and the cells it read stay
as they are. -/
theorem Stuck.transfer {n n' : Network N A σ} {id : Nat} {φ : Formula N} {p : Path (Stat N)}
    (h : n.Stuck sc id φ p) (hrecorded : n'.recorded id = n.recorded id)
    (hsame : ∀ key, n.Records id key → SameAt n.registry n'.registry key)
    (hvalue : ∀ key, n.Records id key → ∀ c, n.Under key c → ∀ v, n.value? (c + 1) = some v →
      n'.value? (c + 1) = some v)
    (hfailed : ∀ key, n.Records id key → ∀ c, n.Under key c → n.Failed (c + 1) →
      n'.Failed (c + 1)) : n'.Stuck sc id φ p := by
  obtain ⟨fault, hfollows⟩ := h.follows
  have hrecords (key : DependencyKey) (hkey : n.Records id key) : n'.Records id key := by
    rwa [Records, hrecorded]
  refine ⟨fun d hd => ?_, fault, hfollows.mono fun query answer hanswer =>
    hanswer.transfer hrecords hsame hvalue hfailed⟩
  rw [hrecorded] at hd
  rw [(hsame d.1 ⟨d.2, hd⟩).topic, h.resolved d hd]

end Network

end StatEngine
