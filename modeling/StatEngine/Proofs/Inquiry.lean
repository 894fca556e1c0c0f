import Mathlib.Order.Defs.PartialOrder
import StatEngine.Proofs.Meanings

/-!
# What formulas ask

A formula sees nothing but the replies to its lookups, so what it does is an `Inquiry`: it asks one
query after another, each depending on the replies so far, and ends in an outcome. A lookup that fails
ends the inquiry at once, because no formula catches a fault. Evaluating a formula against any lookup
at all is having that lookup answer the inquiry.

## Main definitions

* `Query` and `Inquiry`: a lookup that is asked for, and a tree of them;
* `Reading.answeredBy`: what comes of an inquiry if a lookup answers it;
* `Follows`: an inquiry may end in an outcome if queries have the given answers.

## Main statements

* `Formula.eval_eq_answeredBy`: a formula is evaluated by answering what it asks;
* `Follows.answeredBy_eq` and `Follows.answeredBy_approx`: a lookup with these answers, or with some of
  them, comes to the same outcome, or to none.
-/

namespace StatEngine

/-- Something that is looked up. -/
inductive Query (N : Type) where
  /-- The paths of a stat. -/
  | paths (stat : Stat N)
  /-- The value of a stage of a stat on a path. -/
  | value (stat : Stat N) (stage : Stage) (path : Path (Stat N))
  /-- The values of the modifiers of a form on each of the places. -/
  | values (form : Form) (places : List (Place N))
  /-- A meta stat. -/
  | derived (request : MetaStat N)
  /-- Nothing, but a text is to be noted. -/
  | note (text : String)

/-- What is found by a query. -/
def Query.Reply {N : Type} : Query N → Type
  | .paths _ => List (Path (Stat N))
  | .value .. => Option (Amount N)
  | .values .. => List (Option (Amount N))
  | .derived _ => Stat N
  | .note _ => Unit

/-- Queries that are asked one after another. -/
inductive Inquiry (N α : Type) where
  /-- Nothing more is asked. -/
  | done (a : α)
  /-- A query is asked, and the reply says how it goes on. -/
  | ask (query : Query N) (next : query.Reply → Inquiry N α)

namespace Inquiry

variable {N α β : Type}

/-- Go on with an inquiry when another one is done. -/
def bind : Inquiry N α → (α → Inquiry N β) → Inquiry N β
  | .done a, f => f a
  | .ask query next, f => .ask query fun reply => (next reply).bind f

instance : Monad (Inquiry N) where
  pure := .done
  bind := bind

@[simp]
theorem done_bind (a : α) (f : α → Inquiry N β) : (done a >>= f) = f a := rfl

@[simp]
theorem ask_bind (query : Query N) (next : query.Reply → Inquiry N α) (f : α → Inquiry N β) :
    (ask query next >>= f) = ask query fun reply => next reply >>= f := rfl

theorem bind_done (x : Inquiry N α) : x.bind done = x := by
  induction x with
  | done a => rfl
  | ask query next ih => exact congrArg (ask query) (funext ih)

theorem bind_assoc {γ : Type} (x : Inquiry N α) (f : α → Inquiry N β) (g : β → Inquiry N γ) :
    (x.bind f).bind g = x.bind fun a => (f a).bind g := by
  induction x with
  | done a => rfl
  | ask query next ih => exact congrArg (ask query) (funext ih)

instance : LawfulMonad (Inquiry N) :=
  LawfulMonad.mk' (Inquiry N) bind_done (fun _ _ => rfl) bind_assoc

end Inquiry

variable {N α β : Type} {m : Type → Type} [Monad m]

namespace Lookup

/-- The lookup of a query. -/
def answer (l : Lookup N m) : (query : Query N) → Reading N m query.Reply
  | .paths stat => l.paths stat
  | .value stat stage path => l.value stat stage path
  | .values form places => l.values form places
  | .derived request => l.derived request
  | .note text => ExceptT.lift (l.note text)

/-- The lookups on a path that are only asked for. -/
def asking (path : Path (Stat N)) : Lookup N (Inquiry N) where
  path := path
  paths := fun stat => ExceptT.lift (.ask (.paths stat) .done)
  value := fun stat stage path => ExceptT.lift (.ask (.value stat stage path) .done)
  values := fun form places => ExceptT.lift (.ask (.values form places) .done)
  derived := fun request => ExceptT.lift (.ask (.derived request) .done)
  note := fun text => .ask (.note text) .done

/-- Related lookups are related query by query. -/
theorem Related.answer {m' : Type → Type} [Monad m']
    {Q : (α : Type) → Reading N m α → Reading N m' α → Prop} {l : Lookup N m} {l' : Lookup N m'}
    (h : l.Related Q l') (query : Query N) : Q _ (l.answer query) (l'.answer query) := by
  cases query with
  | paths stat => exact h.paths stat
  | value stat stage path => exact h.value stat stage path
  | values form places => exact h.values form places
  | derived request => exact h.derived request
  | note text => exact h.note text

end Lookup

namespace Inquiry

/-- What comes of an inquiry if a lookup answers it. A fault ends it. -/
def answeredBy (l : Lookup N m) : Inquiry N (Except (Fault N) α) → Reading N m α
  | .done result => Reading.ofExcept result
  | .ask query next => do (next (← l.answer query)).answeredBy l

end Inquiry

/-- What comes of a reading that asks for lookups if a lookup answers it. -/
def Reading.answeredBy (l : Lookup N m) (x : Reading N (Inquiry N) α) : Reading N m α :=
  Inquiry.answeredBy l x.run

/-- What a formula asks on a path. -/
def Formula.inquiry [Number N] (formula : Formula N) (path : Path (Stat N)) :
    Reading N (Inquiry N) (Option (Amount N)) := formula.eval (.asking path)

section Answering

variable {l : Lookup N m}

variable [LawfulMonad m]

/-- Nothing follows a fault. -/
theorem Reading.throw_bind (fault : Fault N) (f : α → Reading N m β) :
    (throw fault >>= f) = throw fault := by
  refine ExceptT.ext ?_
  rw [ExceptT.run_bind, ExceptT.run_throw, pure_bind, ExceptT.run_throw]

/-- Answering goes along with doing one thing after another. -/
theorem answeredBy_bind (x : Reading N (Inquiry N) α) (f : α → Reading N (Inquiry N) β) :
    (x >>= f).answeredBy l = x.answeredBy l >>= fun a => (f a).answeredBy l := by
  change Inquiry.answeredBy l (x.run >>= ExceptT.bindCont f) = _
  unfold Reading.answeredBy
  induction x.run with
  | done result =>
    cases result with
    | ok a => exact (pure_bind a fun a => (f a).answeredBy l).symm
    | error fault => exact (Reading.throw_bind fault fun a => (f a).answeredBy l).symm
  | ask query next ih =>
    rw [Inquiry.ask_bind, Inquiry.answeredBy, Inquiry.answeredBy, bind_assoc]
    exact bind_congr fun reply => ih reply

end Answering

/-- Computations that are come to by answering what others ask can go on in such a way. -/
theorem congruence_answeredBy [LawfulMonad m] (l : Lookup N m) :
    Reading.Congruence fun α (x : Reading N m α) (y : Reading N (Inquiry N) α) =>
      x = y.answeredBy l where
  pure _ := rfl
  throw _ := rfl
  bind hx hnext := by rw [answeredBy_bind, hx, funext hnext]

/-- A lookup finds what it answers. -/
theorem Lookup.related_asking [LawfulMonad m] (l : Lookup N m) :
    l.Related (fun _ x y => x = y.answeredBy l) (.asking l.path) where
  path := rfl
  paths _ := (bind_pure _).symm
  value _ _ _ := (bind_pure _).symm
  values _ _ := (bind_pure _).symm
  derived _ := (bind_pure _).symm
  note _ := (bind_pure _).symm

/-- A formula is evaluated by answering what it asks. -/
theorem Formula.eval_eq_answeredBy [Number N] [LawfulMonad m] (l : Lookup N m) (formula : Formula N) :
    formula.eval l = (formula.inquiry l.path).answeredBy l :=
  formula.related_eval (congruence_answeredBy l) l _ l.related_asking

/-! ## Given answers -/

/-- An inquiry that is answered as `answers` says may end in an outcome. A fault ends it. -/
inductive Follows (answers : (query : Query N) → Except (Fault N) query.Reply → Prop) :
    Inquiry N (Except (Fault N) α) → Except (Fault N) α → Prop where
  | done (result : Except (Fault N) α) : Follows answers (.done result) result
  | reply {query : Query N} {next : query.Reply → Inquiry N (Except (Fault N) α)}
      {reply : query.Reply} {result : Except (Fault N) α} (answer : answers query (.ok reply))
      (rest : Follows answers (next reply) result) : Follows answers (.ask query next) result
  | fault {query : Query N} {next : query.Reply → Inquiry N (Except (Fault N) α)}
      {fault : Fault N} (answer : answers query (.error fault)) :
      Follows answers (.ask query next) (.error fault)

/-- Whether two outcomes are the same. Of a cycle it does not matter where it was entered. -/
inductive Matches : Except (Fault N) β → Except (Fault N) β → Prop where
  | ok (b : β) : Matches (.ok b) (.ok b)
  | fault (f : Fault N) : Matches (.error f) (.error f)
  | cycle (path path' : List String) : Matches (.error (.cycle path)) (.error (.cycle path'))

namespace Matches

@[refl]
theorem refl (result : Except (Fault N) β) : Matches result result := by
  cases result with
  | ok b => exact .ok b
  | error f => exact .fault f

theorem eq_of_ok {result : Except (Fault N) β} {b : β} (h : Matches result (.ok b)) :
    result = .ok b := by
  cases h
  rfl

theorem eq_ok {result : Except (Fault N) β} {b : β} (h : Matches (.ok b) result) :
    result = .ok b := by
  cases h
  rfl

/-- A fault ends in the same fault whatever was to follow. -/
theorem of_error {γ : Type} {f f' : Fault N}
    (h : Matches (.error f : Except (Fault N) β) (.error f')) :
    Matches (.error f : Except (Fault N) γ) (.error f') := by
  cases h with
  | fault f => exact .fault f
  | cycle path path' => exact .cycle path path'

theorem exists_of_error {result : Except (Fault N) β} {f : Fault N} (h : Matches result (.error f)) :
    ∃ f', result = .error f' := by
  cases h with
  | fault f => exact ⟨f, rfl⟩
  | cycle path path' => exact ⟨_, rfl⟩

/-- Unwinding a fault through a node leaves it the same. -/
theorem unwind_iff {result : Except (Fault N) β} {fault : Fault N} (label : String) :
    Matches result (.error (fault.unwind label)) ↔ Matches result (.error fault) := by
  have cycles (path path' : List String) (h : Matches result (.error (.cycle path))) :
      Matches result (.error (.cycle path')) := by cases h <;> exact .cycle ..
  cases fault with
  | cycle path =>
    obtain ⟨path', h⟩ : ∃ path', Fault.unwind label (.cycle path : Fault N) = .cycle path' := by
      simp only [Fault.unwind]
      split
      · exact ⟨_, rfl⟩
      · split <;> exact ⟨_, rfl⟩
    rw [h]
    exact ⟨cycles _ _, cycles _ _⟩
  | _ => exact .rfl

end Matches

/-- What is decided at all is decided to be `result`. -/
def Approx (decision : Option (Except (Fault N) β)) (result : Except (Fault N) β) : Prop :=
  ∀ c, decision = some c → Matches c result

theorem Approx.of_eq {decision : Option (Except (Fault N) β)} {result : Except (Fault N) β}
    (h : decision = some result) : Approx decision result := fun c hc => by
  rw [h] at hc
  cases hc
  rfl

theorem Approx.unwind_iff {decision : Option (Except (Fault N) β)} {fault : Fault N} (label : String) :
    Approx decision (.error (fault.unwind label)) ↔ Approx decision (.error fault) :=
  forall₂_congr fun _ _ => Matches.unwind_iff label

theorem Approx.of_none {decision : Option (Except (Fault N) β)} {result : Except (Fault N) β}
    (h : decision = none) : Approx decision result := fun c hc => by simp [h] at hc

namespace Follows

variable {answers answers' : (query : Query N) → Except (Fault N) query.Reply → Prop}
  {inquiry : Inquiry N (Except (Fault N) α)} {result : Except (Fault N) α}

/-- All that matters is what was replied, and the fault the inquiry ended in. -/
theorem imp (h : Follows answers inquiry result)
    (hreply : ∀ query reply, answers query (.ok reply) → answers' query (.ok reply))
    (hfault : ∀ query fault, result = .error fault → answers query (.error fault) →
      answers' query (.error fault)) : Follows answers' inquiry result := by
  induction h with
  | done result => exact .done result
  | reply answer _ ih => exact .reply (hreply _ _ answer) (ih hfault)
  | fault answer => exact .fault (hfault _ _ rfl answer)

theorem mono (h : Follows answers inquiry result)
    (hsub : ∀ query answer, answers query answer → answers' query answer) :
    Follows answers' inquiry result :=
  h.imp (fun _ _ => hsub _ _) fun _ _ _ => hsub _ _

/-- A lookup that finds what was replied comes to the same outcome. -/
theorem answeredBy_eq {l : Lookup N Option} {a : α} (h : Follows answers inquiry (.ok a))
    (hl : ∀ query reply, answers query (.ok reply) → (l.answer query).run = some (.ok reply)) :
    (inquiry.answeredBy l).run = some (.ok a) := by
  generalize hresult : Except.ok a = result at h
  induction h with
  | done => subst hresult; rfl
  | reply answer _ ih =>
    rw [Inquiry.answeredBy, ExceptT.run_bind, hl _ _ answer]
    exact ih hresult
  | fault => cases hresult

/-- A lookup that finds nothing but what was answered comes to no other outcome. -/
theorem answeredBy_approx {l : Lookup N Option} (h : Follows answers inquiry result)
    (hl : ∀ query answer, answers query answer → Approx (l.answer query).run answer) :
    Approx (inquiry.answeredBy l).run result := by
  induction h with
  | done result => cases result <;> exact .of_eq rfl
  | @reply query next reply result answer _ ih =>
    rw [Inquiry.answeredBy, ExceptT.run_bind]
    match hfound : (l.answer query).run with
    | none => exact .of_none rfl
    | some found =>
      rw [(hl _ _ answer found hfound).eq_of_ok]
      exact ih
  | @fault query next fault answer =>
    rw [Inquiry.answeredBy, ExceptT.run_bind]
    match hfound : (l.answer query).run with
    | none => exact .of_none rfl
    | some found =>
      have hmatches := hl _ _ answer found hfound
      obtain ⟨fault', rfl⟩ := hmatches.exists_of_error
      exact fun c hc => Option.some.inj hc ▸ hmatches.of_error

/-- If an inquiry succeeds, all that matters is what was replied. -/
theorem mono_ok {a : α} (h : Follows answers inquiry (.ok a))
    (hsub : ∀ query reply, answers query (.ok reply) → answers' query (.ok reply)) :
    Follows answers' inquiry (.ok a) :=
  h.imp hsub fun _ _ hfault => by cases hfault

end Follows

namespace Inquiry

/-- Every query that is asked may be asked in the world it is asked in. A reply leads to another
world. -/
def Asks {W : Type} (may : W → Query N → Prop)
    (leads : W → (query : Query N) → query.Reply → W → Prop) : W → Inquiry N α → Prop
  | _, .done _ => True
  | w, .ask query next =>
    may w query ∧ ∀ reply w', leads w query reply w' → (next reply).Asks may leads w'

end Inquiry

/-- A lookup that finds whatever another one finds comes to the same value. -/
theorem Inquiry.Asks.answeredBy_eq {may : Query N → Prop} {l l' : Lookup N Option}
    (hl : ∀ query, may query → ∀ reply, (l.answer query).run = some (.ok reply) →
      (l'.answer query).run = some (.ok reply)) :
    ∀ {inquiry : Inquiry N (Except (Fault N) α)} {a : α},
      inquiry.Asks (fun _ => may) (fun _ _ _ _ => True) () →
      (inquiry.answeredBy l).run = some (.ok a) → (inquiry.answeredBy l').run = some (.ok a)
  | .done _, _, _, h => h
  | .ask query next, a, hasks, h => by
    rw [Inquiry.answeredBy, ExceptT.run_bind] at h ⊢
    match hfound : (l.answer query).run with
    | none => simp [hfound] at h
    | some (.error fault) => simp [hfound] at h
    | some (.ok reply) =>
      rw [hfound] at h
      rw [hl query hasks.1 reply hfound]
      exact answeredBy_eq hl (hasks.2 reply () trivial) h

section Asking

variable {W : Type} {may : W → Query N → Prop}
  {leads : W → (query : Query N) → query.Reply → W → Prop} {w : W}

/-- Whether every query of a reading may be asked. -/
def Reading.Asks (may : W → Query N → Prop)
    (leads : W → (query : Query N) → query.Reply → W → Prop) (w : W)
    (x : Reading N (Inquiry N) α) : Prop := Inquiry.Asks may leads w x.run

namespace Reading.Asks

theorem of_pure {a : α} : Asks may leads w (pure a : Reading N (Inquiry N) α) := trivial

theorem of_throw {fault : Fault N} :
    Asks may leads w (throw fault : Reading N (Inquiry N) α) := trivial

theorem of_ofExcept {result : Except (Fault N) α} :
    Asks may leads w (Reading.ofExcept result : Reading N (Inquiry N) α) := by
  cases result <;> trivial

theorem of_value {path : Path (Stat N)} {stat : Stat N} {stage : Stage} {p : Path (Stat N)}
    (h : may w (.value stat stage p)) :
    Asks may leads w ((Lookup.asking path).value stat stage p) := ⟨h, fun _ _ _ => trivial⟩

/-- If worlds are ordered, one reading after another asks what each of them asks. -/
theorem bind [Preorder W] (hle : ∀ {w query reply w'}, leads w query reply w' → w ≤ w')
    {x : Reading N (Inquiry N) α} {f : α → Reading N (Inquiry N) β}
    (hx : x.Asks may leads w) (hf : ∀ a w', w ≤ w' → (f a).Asks may leads w') :
    (x >>= f).Asks may leads w := by
  change Inquiry.Asks may leads w (x.run >>= ExceptT.bindCont f)
  unfold Asks at hx
  induction hrun : x.run generalizing w x with
  | done result =>
    cases result with
    | ok a => exact hf a w le_rfl
    | error fault => trivial
  | ask query next ih =>
    rw [hrun] at hx
    refine ⟨hx.1, fun reply w' hw' => ?_⟩
    exact ih reply (x := ExceptT.mk (next reply)) (hx.2 reply w' hw')
      (fun a w'' hle' => hf a w'' (le_trans (hle hw') hle')) rfl

theorem mapM [Preorder W] (hle : ∀ {w query reply w'}, leads w query reply w' → w ≤ w')
    {f : α → Reading N (Inquiry N) β} :
    ∀ {as : List α} {w : W}, (∀ a ∈ as, ∀ w', w ≤ w' → (f a).Asks may leads w') →
      (as.mapM f).Asks may leads w
  | [], _, _ => trivial
  | a :: as, w, hf => by
    rw [List.mapM_cons]
    refine bind hle (hf a List.mem_cons_self w le_rfl) fun _ w' hw' => ?_
    refine bind hle (mapM hle fun a' ha' w'' hw'' => ?_) fun _ _ _ => trivial
    exact hf a' (List.mem_cons_of_mem a ha') w'' (le_trans hw' hw'')

end Reading.Asks

end Asking

/-- Every lookup of a formula is the total of a stat with the given property. -/
inductive Formula.ReadsTotals (P : Stat N → Prop) : Formula N → Prop where
  | constant (value : Option (Amount N)) : ReadsTotals P (.constant value)
  | total {stat : Stat N} (h : P stat) : ReadsTotals P (.total stat)
  | optionalTotal {stat : Option (Stat N)} (h : ∀ s, stat = some s → P s) :
    ReadsTotals P (.optionalTotal stat)
  | mainValue {stat : Stat N} (h : P stat) : ReadsTotals P (.mainValue stat .total)
  | value {stat : Stat N} {path : Option (Path (Stat N))} (h : P stat) :
    ReadsTotals P (.value stat .total path)
  | onMainPath : ReadsTotals P .onMainPath
  | add {operands : List (Formula N)} (h : ∀ f ∈ operands, ReadsTotals P f) :
    ReadsTotals P (.add operands)
  | multiply {operands : List (Formula N)} (h : ∀ f ∈ operands, ReadsTotals P f) :
    ReadsTotals P (.multiply operands)
  | subtract {left right : Formula N} (hleft : ReadsTotals P left) (hright : ReadsTotals P right) :
    ReadsTotals P (.subtract left right)
  | divide {left right : Formula N} (hleft : ReadsTotals P left) (hright : ReadsTotals P right) :
    ReadsTotals P (.divide left right)
  | orElse {first second : Formula N} (hfirst : ReadsTotals P first)
    (hsecond : ReadsTotals P second) : ReadsTotals P (.orElse first second)
  | ifNonZero {condition yes no : Formula N} (hcondition : ReadsTotals P condition)
    (hyes : ReadsTotals P yes) (hno : ReadsTotals P no) :
    ReadsTotals P (.ifNonZero condition yes no)
  | fail (fault : Fault N) : ReadsTotals P (.fail fault)

theorem Formula.ReadsTotals.mono {P P' : Stat N → Prop} {formula : Formula N} (h : formula.ReadsTotals P)
    (hP : ∀ s, P s → P' s) : formula.ReadsTotals P' := by
  induction h with
  | constant value => exact .constant value
  | total h => exact .total (hP _ h)
  | optionalTotal h => exact .optionalTotal fun s hs => hP s (h s hs)
  | mainValue h => exact .mainValue (hP _ h)
  | value h => exact .value (hP _ h)
  | onMainPath => exact .onMainPath
  | add _ ih => exact .add ih
  | multiply _ ih => exact .multiply ih
  | subtract _ _ hl hr => exact .subtract hl hr
  | divide _ _ hl hr => exact .divide hl hr
  | orElse _ _ hf hs => exact .orElse hf hs
  | ifNonZero _ _ _ hc hy hn => exact .ifNonZero hc hy hn
  | fail fault => exact .fail fault

section ReadsTotals

variable [Number N] {W : Type} [Preorder W] {may : W → Query N → Prop}
  {leads : W → (query : Query N) → query.Reply → W → Prop} {P : Stat N → Prop}

theorem Formula.asks_evalAll {path : Path (Stat N)}
    (hle : ∀ {w query reply w'}, leads w query reply w' → w ≤ w') :
    ∀ {operands : List (Formula N)} {w : W},
      (∀ f ∈ operands, ∀ w, (f.inquiry path).Asks may leads w) →
      (evalAll operands (.asking path)).Asks may leads w
  | [], _, _ => trivial
  | operand :: rest, w, h => by
    refine .bind hle (h operand List.mem_cons_self w) fun _ w' _ => ?_
    refine .bind hle (asks_evalAll hle fun f hf => h f (List.mem_cons_of_mem operand hf)) ?_
    exact fun _ _ _ => trivial

/-- A formula that reads totals asks for nothing else. -/
theorem Formula.ReadsTotals.asks (path : Path (Stat N))
    (hle : ∀ {w query reply w'}, leads w query reply w' → w ≤ w')
    (hmay : ∀ w stat p, P stat → may w (.value stat .total p)) {formula : Formula N}
    (h : formula.ReadsTotals P) : ∀ w, (formula.inquiry path).Asks may leads w := by
  induction h with
  | constant | onMainPath | fail => exact fun _ => trivial
  | total h | mainValue h | value h => exact fun w => .of_value (hmay w _ _ h)
  | @optionalTotal stat h =>
    intro w
    cases stat with
    | none => trivial
    | some s => exact .of_value (hmay w s _ (h s rfl))
  | add _ ih | multiply _ ih =>
    exact fun w => .bind hle (asks_evalAll hle ih) fun _ _ _ => trivial
  | subtract _ _ ihl ihr | divide _ _ ihl ihr =>
    exact fun w => .bind hle (ihl w) fun _ w' _ => .bind hle (ihr w') fun _ _ _ => trivial
  | orElse _ _ ihf ihs =>
    refine fun w => .bind hle (ihf w) fun value w' _ => ?_
    cases value with
    | none => exact ihs w'
    | some v => trivial
  | ifNonZero _ _ _ ihc ihy ihn =>
    refine fun w => .bind hle (ihc w) fun value w' _ => ?_
    cases value with
    | none => exact ihn w'
    | some v =>
      dsimp only
      split
      · exact ihn w'
      · exact ihy w'

end ReadsTotals

/-! ## What the stages ask -/

namespace Stages

variable [Number N] {W : Type} {may : W → Query N → Prop}
  {leads : W → (query : Query N) → query.Reply → W → Prop} {w : W} {stat : Stat N}
  {path : Path (Stat N)}

omit [Number N] in
/-- A total that is not overridden asks for the subtotal. -/
theorem asks_total (hoverride : may w (.value stat .totalOverride Path.main))
    (hsubtotal : ∀ w', leads w (.value stat .totalOverride Path.main) none w' →
      may w' (.value stat .subtotal Path.main)) :
    (total stat (.asking path)).Asks may leads w := by
  refine ⟨hoverride, fun reply w' hw' => ?_⟩
  cases reply with
  | none => exact ⟨hsubtotal w' hw', fun _ _ _ => trivial⟩
  | some v => trivial

/-- An uncapped subtotal asks for the paths, and for the value of each. -/
theorem asks_uncappedSubtotal [Preorder W]
    (hle : ∀ {w query reply w'}, leads w query reply w' → w ≤ w') (hpaths : may w (.paths stat))
    (hvalue : ∀ (paths : List (Path (Stat N))) w', leads w (.paths stat) paths w' → ∀ p ∈ paths, ∀ w'', w' ≤ w'' →
      may w'' (.value stat .pathTotal p)) :
    (uncappedSubtotal stat (.asking path)).Asks may leads w := by
  refine ⟨hpaths, fun paths w' hw' => ?_⟩
  change Reading.Asks may leads w' (paths.mapM _ >>= fun a => pure (Amount.sum a))
  refine .bind hle (.mapM hle fun p hp w'' hle' => ?_) fun _ _ _ => trivial
  exact .of_value (hvalue paths w' hw' p hp w'' hle')

variable [Preorder W] (hle : ∀ {w query reply w'}, leads w query reply w' → w ≤ w')
include hle

/-- A subtotal asks for the uncapped one and for the totals of the stats that bound it. -/
theorem asks_subtotal
    (huncapped : may w (.value stat .uncappedSubtotal Path.main))
    (hminimum : ∀ s, stat.minimum = some s → ∀ w', w ≤ w' → may w' (.value s .total Path.main))
    (hmaximum : ∀ s, stat.maximum = some s → ∀ w', w ≤ w' → may w' (.value s .total Path.main)) :
    (subtotal stat (.asking path)).Asks may leads w := by
  have optional (bound : Option (Stat N)) (w' : W)
      (hbound : ∀ s, bound = some s → may w' (.value s .total Path.main)) :
      ((Lookup.asking path).optionalTotal bound).Asks may leads w' := by
    cases bound with
    | none => trivial
    | some s => exact .of_value (hbound s rfl)
  refine .bind hle (.of_value huncapped) fun value w₁ h₁ => ?_
  cases value with
  | none => trivial
  | some uncapped =>
    dsimp only
    split
    · trivial
    · refine .bind hle (optional _ _ fun s hs => hminimum s hs w₁ h₁) fun _ w₂ h₂ => ?_
      refine .bind hle (optional _ _ fun s hs => hmaximum s hs w₂ (le_trans h₁ h₂)) ?_
      exact fun _ _ _ => trivial

/-- The value of a path asks for its base and what increases it. -/
theorem asks_pathTotal
    (h : ∀ stage w', w ≤ w' → stage = .base ∨ stage = .increase ∨ stage = .more →
      may w' (.value stat stage path)) :
    (pathTotal stat (.asking path)).Asks may leads w := by
  refine .bind hle (.of_value (h .base w le_rfl (.inl rfl))) fun value w₁ h₁ => ?_
  cases value with
  | none => trivial
  | some base =>
    refine .bind hle (.of_value (h .increase w₁ h₁ (.inr (.inl rfl)))) fun _ w₂ h₂ => ?_
    refine .bind hle (.of_value (h .more w₂ (le_trans h₁ h₂) (.inr (.inr rfl)))) ?_
    exact fun _ _ _ => trivial

/-- The base asks for what overrides it, and for what is set and added. -/
theorem asks_base
    (h : ∀ stage w', w ≤ w' → stage = .baseOverride ∨ stage = .baseSet ∨ stage = .baseAdd →
      may w' (.value stat stage path)) :
    (base stat (.asking path)).Asks may leads w := by
  refine .bind hle (.of_value (h .baseOverride w le_rfl (.inl rfl))) fun value w₁ h₁ => ?_
  cases value with
  | some v => trivial
  | none =>
    refine .bind hle (.of_value (h .baseSet w₁ h₁ (.inr (.inl rfl)))) fun _ w₂ h₂ => ?_
    refine .bind hle (.of_value (h .baseAdd w₂ (le_trans h₁ h₂) (.inr (.inr rfl)))) ?_
    exact fun _ _ _ => trivial

/-- The aggregate of a form asks for the modifiers of the form. -/
theorem asks_aggregated {form : Form}
    (h : may w (.values form (modifierPlaces stat form path))) :
    (aggregated stat form (.asking path)).Asks may leads w :=
  .bind hle ⟨h, fun _ _ _ => trivial⟩ fun _ _ _ => .of_ofExcept

end Stages

end StatEngine
