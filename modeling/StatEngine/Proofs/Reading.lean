import StatEngine.Proofs.Evaluating

/-!
# Reading cells

A cell is read by its formula being evaluated, unless its value is kept. The formula is subscribed to
what it looked up, and the value is kept, so the cell is left prepared for the next change. A cell that
is read while it is being computed ends in a fault, as it does to whatever depth.

## Main statements

* `leads_read`: what comes of reading a cell.
-/

namespace StatEngine.Network

variable {N A σ : Type} [Number N] {sc : Regime N} {n n' : Network N A σ}

/-! ## Formulas -/

/-- What is doomed stays doomed if at most more cells are being computed. -/
theorem Doomed.of_registry {β : Type} {fault : Fault N}
    {decision : Nat → Option (Except (Fault N) β)} (h : n.Doomed sc fault decision)
    (hreg : n'.registry = n.registry) (hentered : ∀ c, n.isEntered c → n'.isEntered c) :
    n'.Doomed sc fault decision := fun depth hdepth =>
  h depth fun id φ p hid hd d hle => hreg ▸ hdepth id φ p (hentered _ hid) (hd.of_registry hreg) d hle

/-- A formula that ended in a fault does so to whatever depth. -/
theorem Inv.doomed_of_follows (hn : n.Inv sc) (hsc : sc.Follows) {id : Nat} {φ : Formula N} {p : Path (Stat N)}
    {reads : DependencyKey → Prop} {fault : Fault N}
    (h : Follows (Found sc n id p reads) (φ.inquiry p).run (.error fault)) :
    n.Doomed sc fault fun d => (n.registry.inputs.reference (d + 1) φ p).run := by
  intro depth hdepth d hd
  change Approx (n.registry.inputs.reference (d + 1) φ p).run _
  rw [Inputs.reference, φ.eval_eq_answeredBy]
  -- the fault is that of the query that the formula got stuck on
  have hends : Follows (fun query answer => Approx ((n.registry.inputs.lookup p
      (n.registry.inputs.reference d)).answer query).run answer) (φ.inquiry p).run (.error fault) := by
    refine h.imp (fun query reply hknown => ?_) fun query f hf hfound => ?_
    · exact Known.approx hn.wired hn.orderly hn.sound hsc hknown p d
    · cases hf
      exact hfound.2 depth hdepth d hd
  exact hends.answeredBy_approx fun _ _ h => h

/-- The source of a formula that has no layers is evaluated as the formula. -/
theorem meaning_of_evaluates {m : Type → Type} [Monad m] {φ : Formula N} {source : FormulaSource N}
    (h : n.Evaluates φ source) : n.meaning source = (φ.eval : Meaning N m) := by
  cases source with
  | plain ψ =>
    cases h
    rfl
  | layered l =>
    obtain ⟨x, hx, hφ⟩ := Option.map_eq_some_iff.mp h
    obtain ⟨hinitial, hlayers⟩ := Prod.mk.inj hφ
    rw [meaning, hx, ← hinitial]
    simp [hlayers, Transformation.layer]

/-- Evaluate something while recording what it depends on, and subscribe a node to that. -/
def subscribing {α : Type} (id : Nat) (x : Reading N (Recording N A σ) α) :
    Reading N (Run N A σ) α := do
  let (result, recorded) ← x.run.run []
  ExceptT.lift (resubscribe id recorded)
  Reading.ofExcept result

omit [Number N] in
theorem run_subscribing {α : Type} (id : Nat) (x : Reading N (Recording N A σ) α) :
    (subscribing id x).run = (do
      let (result, recorded) ← x.run.run []
      resubscribe id recorded
      return result : Run N A σ _) := by
  funext n
  change Option.bind (Option.bind (x.run.run [] n) _) _ = Option.bind (x.run.run [] n) _
  cases x.run.run [] n with
  | none => rfl
  | some r =>
    obtain ⟨⟨result, recorded⟩, n'⟩ := r
    change Option.bind (Option.bind (resubscribe id recorded n') _) _
      = Option.bind (resubscribe id recorded n') _
    cases resubscribe id recorded n' with
    | none => rfl
    | some y => cases result <;> rfl

/-- Evaluating the formula of a node: what is recorded on the way is subscribed to. -/
theorem readFormula_eq (host : Host N A σ) (read : Nat → Reading N (Run N A σ) (Option (Amount N)))
    (id : Nat) (f : FormulaNode N) (hreleased : n.released = false) :
    (readFormula host read id f).run n = (do
      let (result, recorded) ← ((n.meaning f.source (recordingLookup host read f.path)).run.run [])
      resubscribe id recorded
      return result : Run N A σ _) n := by
  rw [← run_subscribing]
  change (if n.released = true then _ else _ : Reading N (Run N A σ) _).run n = _
  rw [hreleased]
  rfl

/-- No formula is evaluated when the network was let go of. -/
theorem readFormula_released (host : Host N A σ)
    (read : Nat → Reading N (Run N A σ) (Option (Amount N))) (id : Nat) (f : FormulaNode N)
    (hreleased : n.released = true) :
    (readFormula host read id f).run n = some (.error .networkReleased, n) := by
  change (if n.released = true then _ else _ : Reading N (Run N A σ) _).run n = _
  rw [hreleased]
  rfl

/-- Evaluating a formula is looking up what it asks for, and subscribing to it. -/
theorem leads_readFormula {b : Prop} {host : Host N A σ}
    {read : Nat → Reading N (Run N A σ) (Option (Amount N))} {id : Nat} {f : FormulaNode N}
    {post : Except (Fault N) (Option (Amount N)) → Network N A σ → Prop}
    (hreleased : n.released = false) {φ : Formula N} (hφ : n.Evaluates φ f.source)
    (h : Leads b (do
      let (result, recorded) ←
        ((φ.inquiry f.path).answeredBy (recordingLookup host read f.path)).run.run []
      resubscribe id recorded
      return result) n post) : Leads b (readFormula host read id f).run n post := by
  have hrun := readFormula_eq host read id f hreleased
  rw [meaning_of_evaluates hφ, φ.eval_eq_answeredBy] at hrun
  exact h.congr hrun

/-! ## Cells -/

/-- The sum over the paths is told of changes of the paths after it was evaluated. -/
theorem Prepared.tells (hn : n.Inv sc) {key : StatKey} {e : NodeEntry N}
    (he : n.registry.stage? ⟨key, .uncappedSubtotal, Path.main⟩ = some e) {φ : Formula N}
    {p : Path (Stat N)} (hd : n.Denotes sc e.formula φ p)
    {result : Except (Fault N) (Option (Amount N))} (h : n.Prepared sc e.formula φ p result) :
    ∃ s, (.paths key, s) ∈ n.recorded e.formula ∧ n.registry.topic? (.paths key) = some s.topic := by
  obtain ⟨stat, -, rfl, rfl⟩ := hn.wired.exists_eq_stage hn.orderly he hd
  have hfollows : Follows _ (.ask (.paths stat) _) _ := h.follows
  cases hfollows with
  | reply answer =>
    obtain ⟨⟨s, hs⟩, -⟩ := answer
    exact ⟨s, hs, h.resolved _ hs⟩
  | fault answer => exact answer.elim

omit [Number N] in
theorem flag_flag (n : Network N A σ) (c : Nat) (flags flags' : Flags N) :
    (n.flag c flags).flag c flags' = n.flag c flags' := by
  rw [flag, flag, relight_relight, flag]
  refine n.relight_congr fun i old _ => ?_
  split <;> rfl

omit [Number N] in
/-- What comes of reading a value that is kept. -/
theorem readCached_kept {read : Nat → Reading N (Run N A σ) (Option (Amount N))} {id : Nat}
    {c : CachedNode N A} {v : Option (Amount N)} (hcache : c.cache = some v) :
    (readCached read id c).run n
      = some (.ok v, n.modifyCached id fun c => { c with observed := true }) := by
  rw [readCached, hcache]
  rfl

omit [Number N] in
/-- A value that is kept is read. -/
theorem leads_readCached_kept {b : Prop} {read : Nat → Reading N (Run N A σ) (Option (Amount N))}
    {id : Nat} {c : CachedNode N A} {v : Option (Amount N)} (hcache : c.cache = some v)
    {post : Except (Fault N) (Option (Amount N)) → Network N A σ → Prop}
    (h : post (.ok v) (n.modifyCached id fun c => { c with observed := true })) :
    Leads b (readCached read id c).run n post := .of_eq (readCached_kept hcache) h

omit [Number N] in
/-- What comes of reading a cell that is being computed. -/
theorem readCached_entered {read : Nat → Reading N (Run N A σ) (Option (Amount N))} {id : Nat}
    {c : CachedNode N A} (hcache : c.cache = none) (hentered : c.guard.entered) :
    (readCached read id c).run n = some (.error (Fault.cycleAt c.label),
      n.modifyCached id fun c => { c with observed := true }) := by
  rw [readCached, hcache, computeCached, Guard.enter, if_pos hentered]
  rfl

omit [Number N] in
/-- A cell that is being computed is a cycle. -/
theorem leads_readCached_entered {b : Prop} {read : Nat → Reading N (Run N A σ) (Option (Amount N))}
    {id : Nat} {c : CachedNode N A} (hcache : c.cache = none) (hentered : c.guard.entered)
    {post : Except (Fault N) (Option (Amount N)) → Network N A σ → Prop}
    (h : post (.error (Fault.cycleAt c.label))
      (n.modifyCached id fun c => { c with observed := true })) :
    Leads b (readCached read id c).run n post := .of_eq (readCached_entered hcache hentered) h

/-- A cached node that is entered. -/
def CachedNode.enter (c : CachedNode N A) : CachedNode N A :=
  { c with guard := ⟨true⟩, stale := false }

/-- A cached node that is left after its computation came to a result. -/
def CachedNode.leave (result : Except (Fault N) (Option (Amount N))) (c : CachedNode N A) :
    CachedNode N A :=
  { c with
    guard := Guard.open_
    cache := match result with
      | .ok value => if c.stale then c.cache else some value
      | .error _ => c.cache }

omit [Number N] in
/-- What comes of reading a cell that is computed. -/
theorem readCached_computed {read : Nat → Reading N (Run N A σ) (Option (Amount N))} {id : Nat}
    {c : CachedNode N A} (hcache : c.cache = none) (hentered : c.guard.entered = false) :
    (readCached read id c).run n = (do
      let result ← (read c.inner).run
      modify fun n' => n'.modifyCached id (CachedNode.leave result)
      modify fun n' => n'.modifyCached id fun c => { c with observed := true }
      return result.mapError (Fault.unwind c.label) : Run N A σ _)
        (n.modifyCached id CachedNode.enter) := by
  rw [readCached, hcache, computeCached, Guard.enter, hentered]
  change Option.bind (Option.bind (Option.bind ((read c.inner).run _) _) _) _
    = Option.bind ((read c.inner).run _) _
  change Option.bind (Option.bind (Option.bind ((read c.inner).run
    (n.modifyCached id CachedNode.enter)) _) _) _ = _
  cases (read c.inner).run (n.modifyCached id CachedNode.enter) with
  | none => rfl
  | some x =>
    obtain ⟨result, n'⟩ := x
    cases result <;> rfl

omit [Number N] in
/-- The value of a cell is computed while the cell is entered. -/
theorem leads_readCached_computed {b : Prop} {read : Nat → Reading N (Run N A σ) (Option (Amount N))}
    {id : Nat} {c : CachedNode N A} (hcache : c.cache = none) (hentered : c.guard.entered = false)
    {post : Except (Fault N) (Option (Amount N)) → Network N A σ → Prop}
    (h : Leads b (read c.inner).run (n.modifyCached id CachedNode.enter) fun result n' =>
      post (result.mapError (Fault.unwind c.label))
        ((n'.modifyCached id (CachedNode.leave result)).modifyCached id
          fun c => { c with observed := true })) :
    Leads b (readCached read id c).run n post := by
  refine Leads.congr ?_ (readCached_computed hcache hentered)
  exact h.bind fun _ _ hpost => .modify_bind (.modify_bind (.of_pure hpost))

omit [Number N] in
/-- What reading a cell does to its flags. -/
theorem observe_eq {c : Nat} {flags : Flags N} (hold : n.flags? c = some flags) :
    n.modifyCached c (fun c => { c with observed := true })
      = n.flag c { flags with observed := true } :=
  modifyCached_eq_flag (f := fun flags => { flags with observed := true }) hold fun _ => rfl

omit [Number N] in
/-- What entering a cell does to its flags. -/
theorem enter_eq {c : Nat} {flags : Flags N} (hold : n.flags? c = some flags) :
    n.modifyCached c CachedNode.enter = n.flag c ⟨flags.value, flags.observed, false, true⟩ :=
  modifyCached_eq_flag (f := fun flags => ⟨flags.value, flags.observed, false, true⟩) hold fun _ => rfl

/-- The flags of a cell that was read and is left after its computation came to a result. -/
def Flags.leave (result : Except (Fault N) (Option (Amount N))) (flags : Flags N) : Flags N where
  value := match result with
    | .ok v => if flags.stale then flags.value else some v
    | .error _ => flags.value
  observed := true
  stale := flags.stale
  entered := false

omit [Number N] in
/-- A value is kept that no change came in for meanwhile. -/
theorem Flags.leave_eq {flags : Flags N} (hvalue : flags.value = none) (hstale : flags.stale = false)
    (result : Except (Fault N) (Option (Amount N))) :
    flags.leave result = ⟨keptOf? result, true, false, false⟩ := by
  cases result <;> simp [leave, hstale, hvalue, keptOf?]

omit [Number N] in
/-- What leaving a cell does to its flags. -/
theorem leave_eq {c : Nat} {flags : Flags N} (hold : n.flags? c = some flags)
    (result : Except (Fault N) (Option (Amount N))) :
    (n.modifyCached c (CachedNode.leave result)).modifyCached c (fun c => { c with observed := true })
      = n.flag c (flags.leave result) := by
  have hleave : n.modifyCached c (CachedNode.leave result)
      = n.flag c { flags.leave result with observed := flags.observed } :=
    modifyCached_eq_flag (g := CachedNode.leave result)
      (f := fun flags => { flags.leave result with observed := flags.observed }) hold fun _ => rfl
  rw [hleave, observe_eq ((flags?_flag hold c).trans (if_pos rfl)), flag_flag]
  rfl

/-- A cell that ended in a fault does so to whatever depth, when it is not being computed any more. -/
theorem Doomed.leave (hn : n.Inv sc) {id : Nat} {φ : Formula N} {p : Path (Stat N)} {old new : Flags N}
    (hold : n.flags? (id + 1) = some old) (hd : n.Denotes sc id φ p) {fault : Fault N} (label : String)
    (h : n.Doomed sc fault fun d => (n.registry.inputs.reference (d + 1) φ p).run) :
    (n.flag (id + 1) new).Doomed sc (fault.unwind label)
      fun d => ((n.flag (id + 1) new).registry.inputs.reference d φ p).run := by
  have hreg : (n.flag (id + 1) new).registry = n.registry := registry_flag
  intro depth hdepth d hle
  simp only [hreg, Approx.unwind_iff] at hdepth ⊢
  -- by induction on the depth, as the cell itself was being computed before
  induction d using Nat.strong_induction_on with
  | _ d ih =>
    cases d with
    | zero => exact .of_none rfl
    | succ d =>
      refine h d (fun i ψ q hi hdi d' hd' => ?_) d le_rfl
      by_cases heq : i = id
      · subst heq
        obtain ⟨rfl, rfl⟩ := hn.wired.denotes_unique hn.orderly hd hdi
        exact ih d' (by omega) (by omega)
      · refine hdepth i ψ q ?_ (hdi.of_registry hreg) d' (by omega)
        rwa [isEntered_flag hold, if_neg fun h => heq (Nat.succ.inj h)]

/-- What comes of evaluating the formula of a cell: the cell is prepared for being left. -/
structure Evaluated (sc : Regime N) (n : Network N A σ) (id : Nat) (φ : Formula N) (p : Path (Stat N))
    (result : Except (Fault N) (Option (Amount N))) (n' : Network N A σ) : Prop where
  inv : n'.Inv sc
  le : n ≤ n'
  prepared : n'.Prepared sc id φ p result
  failed : ∀ v, result = .ok v → ∀ c, n'.Failed c → n.Failed c
  doomed : ∀ fault, result = .error fault →
    n'.Doomed sc fault fun d => (n'.registry.inputs.reference (d + 1) φ p).run

/-- Evaluating the formula of a cell that is entered comes to what it should. It does come to something if
`b` holds and the modifiers and paths on file decide what, to some depth. -/
def EvaluatesCells (sc : Regime N) (b : Prop) (depth : Nat)
    (read : Nat → Reading N (Run N A σ) (Option (Amount N))) : Prop :=
  ∀ (n : Network N A σ) (id : Nat) (φ : Formula N) (p : Path (Stat N)), n.Inv sc → n.Hopeless sc →
    n.Denotes sc id φ p → n.Provides φ → n.isEntered (id + 1) →
    Leads (b ∧ n.Decides depth φ p) (read id).run n (n.Evaluated sc id φ p)

section Cells

variable {host : Host N A σ} {tell : A → σ → σ} (hhost : host.Quiet tell)
  {read : Nat → Reading N (Run N A σ) (Option (Amount N))} {b : Prop} {depth : Nat}
  (hread : ReadsAt sc b depth 2 read) {id : Nat} {φ : Formula N} {p : Path (Stat N)}
include hhost hread

/-- The formula of a cell is subscribed to what its evaluation looked up. -/
theorem leads_evaluate (hn : n.Inv sc) (hhopeless : n.Hopeless sc) (hd : n.Denotes sc id φ p)
    (hprovides : n.Provides φ) (hentered : n.isEntered (id + 1)) {f : FormulaNode N}
    (hf : n.formula? id = some f) :
    Leads (b ∧ n.Decides (depth + 1) φ p) (readFormula host read id f).run n (n.Evaluated sc id φ p) := by
  obtain ⟨source, hcell, hφ⟩ := hn.wired.cell_of_denotes hn.orderly.stats hd
  have hkind : n.kind? id = some (.formula f.source f.path) := by
    rw [kind?, formula?_eq_some_iff.mp hf]
    rfl
  obtain ⟨rfl, rfl⟩ : f.source = source ∧ f.path = p := by
    simpa [hcell.formula, eq_comm] using hkind
  refine leads_readFormula hn.unreleased hφ ?_
  have hnotes : n.Notes sc id [] := ⟨by simp, by simp⟩
  have hvalued : n.Valued sc [] := by
    rintro key ⟨_, hr, _⟩
    cases hr
  rw [Decides, Inputs.reference, φ.eval_eq_answeredBy]
  -- first the lookups of the formula are answered, and each is recorded
  refine (leads_answeredBy hhost hread hd.follows hn hhopeless hnotes hvalued (hn.asks hd hprovides)).bind ?_
  rintro ⟨result, rs⟩ n₁ ⟨hgoes, hfollows, hok⟩
  obtain ⟨_, hcell₁, -⟩ :=
    hgoes.inv.wired.cell_of_denotes hgoes.inv.orderly.stats (hgoes.le.denotes hd)
  -- then the formula subscribes to what was recorded
  refine (leads_resubscribe hgoes.inv hcell₁ hgoes.notes
    ((hgoes.le.entered _).trans hentered)).bind ?_
  rintro _ n₂ ⟨hinv, hle, hreg, hflags, hsub, hsup⟩
  have hle : n₁ ≤ n₂ := hle
  have hrecords (key : DependencyKey) : n₂.Records id key ↔ keysOf rs key := by
    constructor
    · rintro ⟨s, hs⟩
      exact ⟨_, hsub _ hs, rfl⟩
    · rintro ⟨r, hr, rfl⟩
      exact hsup r hr
  have hfailed (c : Nat) : n₂.Failed c ↔ n₁.Failed c := by
    rw [Failed, isObserved, value?, hflags]
    rfl
  refine .of_pure ⟨hinv, le_trans hgoes.le hle, ⟨fun d hd => ?_, hfollows.mono fun query answer h => ?_,
    fun v hv key hkey c hc => ?_⟩, fun v hv c hc => ?_, fun fault hfault => ?_⟩
  · rw [hreg]
    exact hgoes.notes.resolved _ (hsub d hd)
  · have hreads (key : DependencyKey) : keysOf rs key → n₂.Records id key := (hrecords key).mpr
    have hsame (key : DependencyKey) : keysOf rs key → SameAt n₁.registry n₂.registry key :=
      hgoes.notes.sameAt hle
    cases answer with
    | ok reply => exact Known.transfer h hreads hsame fun _ _ _ _ v hv => hle.value _ v hv
    | error f => exact Blocks.transfer h.1 hreads hsame fun _ _ _ _ hc => (hfailed _).mpr hc
  · exact ((hok v hv).1.mono hgoes.notes hle) key ((hrecords key).mp hkey) c hc
  · exact (hok v hv).2 c ((hfailed c).mp hc)
  · subst hfault
    have hdoomed := hgoes.inv.doomed_of_follows hd.follows hfollows
    rw [← hreg] at hdoomed
    exact hdoomed.of_registry hreg fun c hc => (hle.entered c).trans hc

end Cells

section Computed

variable {read : Nat → Reading N (Run N A σ) (Option (Amount N))} {id : Nat} {φ : Formula N}
  {p : Path (Stat N)} {b : Prop} {depth : Nat}

/-- A cell is left with what the evaluation of its formula came to. -/
theorem leads_computed (hread : EvaluatesCells sc b depth read) (hn : n.Inv sc) (hhopeless : n.Hopeless sc)
    (hd : n.Denotes sc id φ p) (hprovides : n.Provides φ) {c : CachedNode N A}
    (hc : n.cached? (id + 1) = some c) (hcache : c.cache = none) (hguard : c.guard.entered = false) :
    Leads (b ∧ n.Decides depth φ p) (read c.inner).run (n.modifyCached (id + 1) CachedNode.enter)
      fun result n' =>
        let n' := (n'.modifyCached (id + 1) (CachedNode.leave result)).modifyCached (id + 1)
          fun c => { c with observed := true }
        n'.Inv sc ∧ n ≤ n' ∧ n.Comes sc id φ p n' (result.mapError (Fault.unwind c.label)) := by
  have hold := flags?_of_cached hc
  have hvalue : n.value? (id + 1) = none := (value?_of_flags hold).trans hcache
  have henter := enter_eq hold
  rw [show c.flags.value = none from hcache] at henter
  rw [henter]
  have hreg : (n.flag (id + 1) ⟨none, c.flags.observed, false, true⟩).registry = n.registry := registry_flag
  have hmain (key : StatKey) (e : NodeEntry N)
      (he : n.registry.stage? ⟨key, .uncappedSubtotal, Path.main⟩ = some e) (heq : e.formula = id) :
      Path.main ∈ n.registry.paths key := by
    subst heq
    obtain ⟨s, -, rfl, rfl⟩ := hn.wired.exists_eq_stage hn.orderly he hd
    exact hprovides s _ rfl (.inr rfl)
  have hn₁ := hn.enter hold hcache hd hmain
  have hfailed (i : Nat) : (n.flag (id + 1) ⟨none, c.flags.observed, false, true⟩).Failed i ↔ n.Failed i := by
    rw [Failed, Failed, isObserved_flag hold, value?_flag hold]
    split
    next hi => rw [hi, isObserved_of_flags hold, hvalue]
    · rfl
  obtain ⟨source, hcell, -⟩ := hn.wired.cell_of_denotes hn.orderly.stats hd
  have hinner : c.inner = id := by
    obtain ⟨c', hc', hinner⟩ := kind?_eq_cached_iff.mp hcell.cached
    rw [← hinner, Option.some.inj (hc.symm.trans hc')]
  rw [hinner]
  -- the formula is evaluated while the cell is entered
  rw [Decides, ← hreg]
  refine (hread _ id φ p hn₁ ?_ (hd.of_registry hreg) ?_ ?_).weaken ?_
  · intro i ψ q hdi hfi depth v
    rw [hreg]
    exact hhopeless i ψ q (hdi.of_registry hreg.symm) ((hfailed _).mp hfi) depth v
  · intro s stage hφ hstage
    rw [hreg]
    exact hprovides s stage hφ hstage
  · rw [isEntered_flag hold, if_pos rfl]
  rintro result n₂ ⟨hinv, hle, hprepared, hok, herror⟩
  have hentered₂ : n₂.isEntered (id + 1) := by
    rw [hle.entered, isEntered_flag hold, if_pos rfl]
  obtain ⟨flags, hflags, hflagsEntered⟩ : ∃ flags, n₂.flags? (id + 1) = some flags ∧ flags.entered := by
    cases hflags : n₂.flags? (id + 1) with
    | none => simp [isEntered, hflags] at hentered₂
    | some flags => exact ⟨flags, rfl, by simpa [isEntered, hflags] using hentered₂⟩
  obtain ⟨hflagsValue, hlit⟩ := hinv.lit.entered _ flags hflags hflagsEntered
  obtain ⟨hflagsStale, -⟩ := hlit hd.follows
  have hd₂ : n₂.Denotes sc id φ p := hle.denotes (hd.of_registry hreg)
  dsimp only
  rw [leave_eq hflags, Flags.leave_eq hflagsValue hflagsStale]
  -- the cell is left with the result, and that is what the formula stands for
  refine ⟨hinv.settle hflags hflagsEntered hd₂ (fun key e he heq => ?_) hprepared fun v hv hf₂ => ?_,
    Extends.settle hold hcache hguard hle hflags _, ?_⟩
  · subst heq
    exact hprepared.tells hinv he hd₂
  · subst hv
    -- a formula that comes to a value was not beyond hope, so its cell had not failed before
    obtain ⟨depth, hdepth⟩ := hprepared.computes hinv hd.follows
    rw [hle.registry.inputs, hreg] at hdepth
    exact hhopeless id φ p hd ((hfailed _).mp (hok v rfl _ hf₂)) depth v hdepth
  · cases result with
    | ok v =>
      refine ⟨?_, fun i hi => ?_⟩
      · rw [value?_flag hflags, if_pos rfl]
        rfl
      · rw [Failed, isObserved_flag hflags, value?_flag hflags] at hi
        split at hi
        next => cases hi.2
        · exact (hfailed i).mp (hok v rfl i hi)
    | error fault =>
      refine ⟨⟨?_, ?_⟩, ?_⟩
      · rw [isObserved_flag hflags, if_pos rfl]
      · rw [value?_flag hflags, if_pos rfl]
        rfl
      · exact (herror fault rfl).leave hinv hflags hd₂ c.label

/-- A cell is read by its value being kept, or being computed. -/
theorem leads_cached (hread : EvaluatesCells sc b depth read) (hn : n.Inv sc) (hhopeless : n.Hopeless sc)
    (hd : n.Denotes sc id φ p) (hprovides : n.Provides φ) {c : CachedNode N A}
    (hc : n.cached? (id + 1) = some c) :
    Leads (b ∧ n.Decides depth φ p) (readCached (read) (id + 1) c).run n
      fun result n' => n'.Inv sc ∧ n ≤ n' ∧ n.Comes sc id φ p n' result := by
  have hold := flags?_of_cached hc
  have hvalue : n.value? (id + 1) = c.cache := value?_of_flags hold
  cases hcache : c.cache with
  | some v =>
    refine leads_readCached_kept hcache ?_
    rw [observe_eq hold]
    have hvalue' (i : Nat) : (n.flag (id + 1) { c.flags with observed := true }).value? i
        = n.value? i := by
      rw [value?_flag hold]
      split
      next hi => rw [hi, hvalue]; rfl
      · rfl
    obtain ⟨hinv, hle⟩ := hn.observe hold (.inl (by rw [CachedNode.flags, hcache]; simp))
    refine ⟨hinv, hle, by rw [hvalue', hvalue, hcache], fun i ⟨hi, hnone⟩ => ?_⟩
    rw [hvalue'] at hnone
    rw [isObserved_flag hold] at hi
    split at hi
    next heq => rw [heq, hvalue, hcache] at hnone; cases hnone
    · exact ⟨hi, hnone⟩
  | none =>
    -- a cell that is entered already is on a cycle
    cases hguard : c.guard.entered with
    | true =>
      refine leads_readCached_entered hcache hguard ?_
      rw [observe_eq hold]
      obtain ⟨hinv, hle⟩ := hn.observe hold (.inr hguard)
      refine ⟨hinv, hle, ⟨?_, ?_⟩, fun depth hdepth d hd' => ?_⟩
      · rw [isObserved_flag hold, if_pos rfl]
      · rw [value?_flag hold, if_pos rfl]
        exact hcache
      · refine hdepth id φ p ?_ (hle.denotes hd) d hd'
        rw [isEntered_flag hold, if_pos rfl]
        exact hguard
    | false =>
      refine leads_readCached_computed hcache hguard ?_
      exact leads_computed hread hn hhopeless hd hprovides hc hcache hguard

end Computed

section Read

variable {id : Nat}

/-- A node is read by what it does, if it is there. -/
theorem read_eq_match (host : Host N A σ) (fuel : Nat) : (read host (fuel + 1) id).run n
    = (match n.body? id with
      | none => ExceptT.lift exhausted
      | some (.input action) => readInput host (read host fuel) action
      | some .absent => pure none
      | some (.formula f) => readFormula host (read host fuel) id f
      | some (.cached c) => readCached (read host fuel) id c
      | some (.exposed inner) | some (.wrapped inner _) => read host fuel inner
      | some (.aggregate a) => do
        let members := (← getThe (Network N A σ)).memberNodes a.collection
        Reading.ofExcept (aggregate a.form (← readAll (read host fuel) members))).run n := rfl

/-- How a node is read depends on what it does. -/
theorem read_apply (host : Host N A σ) (fuel : Nat) {body : Body N A} (hbody : n.body? id = some body) :
    (read host (fuel + 1) id).run n = (match body with
      | .input action => readInput host (read host fuel) action
      | .absent => pure none
      | .formula f => readFormula host (read host fuel) id f
      | .cached c => readCached (read host fuel) id c
      | .exposed inner | .wrapped inner _ => read host fuel inner
      | .aggregate a => do
        Reading.ofExcept (aggregate a.form
          (← readAll (read host fuel) (n.memberNodes a.collection)))).run n := by
  rw [read_eq_match, hbody]
  cases body <;> rfl

theorem read_of_none (host : Host N A σ) (fuel : Nat) (hbody : n.body? id = none) :
    (read host (fuel + 1) id).run n = none := by
  rw [read_eq_match, hbody]
  rfl

/-- Reading comes to what it should, however deep nodes read each other: at the formula of a cell, at the
node that keeps its value, and at the one that is shown to others. If the modifiers and paths on file decide
what that is, to some depth, then it is enough that nodes may read each other three times as deep. -/
theorem reads {host : Host N A σ} {tell : A → σ → σ} (hhost : host.Quiet tell) : ∀ fuel depth : Nat,
    EvaluatesCells sc (3 * depth ≤ fuel + 2) depth (read host fuel)
      ∧ ReadsAt sc (3 * depth ≤ fuel + 1) depth 1 (read host fuel)
      ∧ ReadsAt sc (3 * depth ≤ fuel) depth 2 (read host fuel)
  | 0, depth => by
    -- to no depth nothing is decided, and nothing is read
    have hnone {b : Prop} {id : Nat} {n : Network N A σ} {φ : Formula N} {p : Path (Stat N)} {post}
        (hb : b → 3 * depth ≤ 2) : Leads (b ∧ n.Decides depth φ p) (read host 0 id).run n post := by
      refine ⟨fun h => ?_, fun h => by cases h⟩
      obtain rfl : depth = 0 := by have := hb h.1; omega
      exact absurd rfl h.2
    exact ⟨fun _ _ _ _ _ _ _ _ _ => hnone (by omega), fun _ _ _ _ _ _ _ _ => hnone (by omega),
      fun _ _ _ _ _ _ _ _ => hnone (by omega)⟩
  | fuel + 1, depth => by
    obtain ⟨hevaluates, hkept, -⟩ := reads hhost fuel depth
    refine ⟨fun n id φ p hn hhopeless hd hprovides hentered => ?_,
      fun n id φ p hn hhopeless hd hprovides => ?_, fun n id φ p hn hhopeless hd hprovides => ?_⟩
    all_goals obtain ⟨source, hcell, -⟩ := hn.wired.cell_of_denotes hn.orderly.stats hd
    · obtain ⟨f, hf⟩ := exists_formula? hcell.formula
      obtain ⟨-, -, hshown⟩ := reads hhost fuel (depth - 1)
      have hevaluated := leads_evaluate hhost hshown hn hhopeless hd hprovides hentered hf
      refine (hevaluated.mono (fun h => ?_) fun _ _ h => h).congr
        (read_apply host fuel (formula?_eq_some_iff.mp hf))
      obtain ⟨d, rfl⟩ : ∃ d, depth = d + 1 := Nat.exists_eq_succ_of_ne_zero fun h0 => h.2 (by rw [h0]; rfl)
      exact ⟨by omega, h.2⟩
    · obtain ⟨c, hc, -⟩ := kind?_eq_cached_iff.mp hcell.cached
      exact (leads_cached hevaluates hn hhopeless hd hprovides hc).congr
        (read_apply host fuel (cached?_eq_some_iff.mp hc))
    · obtain ⟨body, hbody, hkind⟩ := Option.map_eq_some_iff.mp hcell.exposed
      cases body with
      | exposed inner =>
        cases hkind
        exact (hkept n id φ p hn hhopeless hd hprovides).congr (read_apply host fuel hbody)
      | _ => cases hkind

end Read

end StatEngine.Network
