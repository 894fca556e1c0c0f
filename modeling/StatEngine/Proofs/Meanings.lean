import StatEngine.Network.Read

/-!
# What formulas do with their lookups

A formula does nothing but look things up and compute, whatever it is, and so does every formula under
behaviors. If two lookups are related one by one, in a way that survives going on, then so is what a
formula computes from them. In particular, what holds of all single lookups and of going on after one
holds of the whole evaluation.

## Main definitions

* `Reading.Congruence`: a relation between computations that survives going on;
* `Lookup.Related`: every lookup is related to its counterpart;
* `Reading.Closed` and `Lookup.Within`: the same for a property of computations.

## Main statements

* `related_eval`: evaluating a formula in two ways has related outcomes if the lookups are related;
* `related_layer`: so does evaluating it under transformations;
* `related_meaning` and `within_meaning`: so does evaluating the formula of a node, which has every
  property that its lookups have.
-/

namespace StatEngine

variable {N : Type} {m m' : Type → Type} [Monad m] [Monad m']

/-- A relation between computations that holds of the same results and faults, and of going on with a
result in related ways. -/
structure Reading.Congruence (Q : (α : Type) → Reading N m α → Reading N m' α → Prop) : Prop where
  pure : ∀ {α : Type} (a : α), Q α (pure a) (pure a)
  throw : ∀ {α : Type} (fault : Fault N), Q α (throw fault) (throw fault)
  bind : ∀ {α β : Type} {x : Reading N m α} {x' : Reading N m' α} {next : α → Reading N m β}
    {next' : α → Reading N m' β},
    Q α x x' → (∀ a, Q β (next a) (next' a)) → Q β (x >>= next) (x' >>= next')

/-- Lookups on the same path are related one by one. -/
structure Lookup.Related (Q : (α : Type) → Reading N m α → Reading N m' α → Prop) (l : Lookup N m)
    (l' : Lookup N m') : Prop where
  path : l.path = l'.path
  paths : ∀ stat, Q _ (l.paths stat) (l'.paths stat)
  value : ∀ stat stage path, Q _ (l.value stat stage path) (l'.value stat stage path)
  values : ∀ form places, Q _ (l.values form places) (l'.values form places)
  derived : ∀ request, Q _ (l.derived request) (l'.derived request)
  note : ∀ text, Q Unit (liftM (l.note text)) (liftM (l'.note text))

namespace Reading.Congruence

variable {Q : (α : Type) → Reading N m α → Reading N m' α → Prop} (hQ : Reading.Congruence Q)
include hQ

theorem ofExcept {α : Type} (e : Except (Fault N) α) :
    Q α (Reading.ofExcept e) (Reading.ofExcept e) := by
  cases e with
  | error fault => exact hQ.throw fault
  | ok a => exact hQ.pure a

theorem mapM {α β : Type} {step : α → Reading N m β} {step' : α → Reading N m' β} {l : List α}
    (h : ∀ a ∈ l, Q β (step a) (step' a)) : Q _ (l.mapM step) (l.mapM step') := by
  -- the loop collects results in reverse order
  have loop (l : List α) (h : ∀ a ∈ l, Q β (step a) (step' a)) :
      ∀ bs : List β, Q _ (List.mapM.loop step l bs) (List.mapM.loop step' l bs) := by
    induction l with
    | nil => exact fun bs => hQ.pure bs.reverse
    | cons a l ih =>
      obtain ⟨ha, hl⟩ := List.forall_mem_cons.mp h
      exact fun bs => hQ.bind ha fun b => ih hl (b :: bs)
  exact loop l h []

theorem foldlM {α β : Type} {step : β → α → Reading N m β} {step' : β → α → Reading N m' β}
    (h : ∀ b a, Q β (step b a) (step' b a)) :
    ∀ (l : List α) (b : β), Q β (l.foldlM step b) (l.foldlM step' b)
  | [], b => hQ.pure b
  | a :: l, b => by
    rw [List.foldlM_cons, List.foldlM_cons]
    exact hQ.bind (h b a) fun b' => foldlM h l b'

end Reading.Congruence

namespace Lookup.Related

variable {Q : (α : Type) → Reading N m α → Reading N m' α → Prop} (hQ : Reading.Congruence Q)
  {l : Lookup N m} {l' : Lookup N m'} (hl : l.Related Q l')

include hl

/-- The value on the path that is computed. -/
theorem valueHere (stat : Stat N) (stage : Stage) :
    Q _ (l.value stat stage l.path) (l'.value stat stage l'.path) := by
  rw [hl.path]
  exact hl.value stat stage l'.path

theorem total (stat : Stat N) : Q _ (l.total stat) (l'.total stat) := hl.value stat .total Path.main

include hQ

theorem optionalTotal (stat : Option (Stat N)) :
    Q _ (l.optionalTotal stat) (l'.optionalTotal stat) := by
  cases stat with
  | none => exact hQ.pure none
  | some stat => exact hl.total stat

theorem valuesOverPaths (stat : Stat N) (stage : Stage) :
    Q _ (l.valuesOverPaths stat stage) (l'.valuesOverPaths stat stage) :=
  hQ.bind (hl.paths stat) fun _ => hQ.mapM fun path _ => hl.value stat stage path

theorem derivedTotal (request : MetaStat N) :
    Q _ (l.derivedTotal request) (l'.derivedTotal request) :=
  hQ.bind (hl.derived request) fun stat => hl.total stat

end Lookup.Related

/-- What is computed from related lookups is related. -/
def Meaning.Related (Q : (α : Type) → Reading N m α → Reading N m' α → Prop) (meaning : Meaning N m)
    (meaning' : Meaning N m') : Prop :=
  ∀ (l : Lookup N m) (l' : Lookup N m'), l.Related Q l' → Q _ (meaning l) (meaning' l')

variable [Number N] {Q : (α : Type) → Reading N m α → Reading N m' α → Prop}
  (hQ : Reading.Congruence Q)
include hQ

theorem Stages.related_meaning (stat : Stat N) (stage : Stage) :
    Meaning.Related Q (Stages.meaning stat stage) (Stages.meaning stat stage) := by
  intro l l' hl
  have aggregated (form : Form) :
      Q _ (Stages.aggregated stat form l) (Stages.aggregated stat form l') := by
    unfold Stages.aggregated
    rw [hl.path]
    exact hQ.bind (hl.values form _) fun values => hQ.ofExcept _
  cases stage with
  | total =>
    refine hQ.bind (hl.value stat .totalOverride Path.main) fun override => ?_
    cases override with
    | none => exact hl.value stat .subtotal Path.main
    | some value => exact hQ.pure _
  | subtotal =>
    refine hQ.bind (hl.value stat .uncappedSubtotal Path.main) fun uncapped => ?_
    cases uncapped with
    | none => exact hQ.pure none
    | some uncapped =>
      dsimp only
      split
      · exact hQ.pure _
      · exact hQ.bind (hl.optionalTotal hQ _) fun lower =>
          hQ.bind (hl.optionalTotal hQ _) fun upper => hQ.pure _
  | uncappedSubtotal => exact hQ.bind (hl.valuesOverPaths hQ stat .pathTotal) fun values => hQ.pure _
  | pathTotal =>
    refine hQ.bind (hl.valueHere stat .base) fun base => ?_
    cases base with
    | none => exact hQ.pure none
    | some base =>
      exact hQ.bind (hl.valueHere stat .increase) fun increase =>
        hQ.bind (hl.valueHere stat .more) fun more => hQ.pure _
  | base =>
    refine hQ.bind (hl.valueHere stat .baseOverride) fun override => ?_
    cases override with
    | some value => exact hQ.pure _
    | none =>
      exact hQ.bind (hl.valueHere stat .baseSet) fun set =>
        hQ.bind (hl.valueHere stat .baseAdd) fun add => hQ.pure _
  | baseOverride => exact aggregated .baseOverride
  | baseSet => exact aggregated .baseSet
  | baseAdd => exact aggregated .baseAdd
  | increase => exact aggregated .increase
  | more => exact aggregated .more
  | totalOverride => exact aggregated .totalOverride

omit [Number N] hQ in
theorem Formula.values_related {l : Lookup N m} {l' : Lookup N m'} (hl : l.Related Q l') (form : Form)
    (ps : List (Stat N × Option (Path (Stat N)))) :
    Q _ (l.values form (Formula.places l ps)) (l'.values form (Formula.places l' ps)) := by
  unfold Formula.places
  rw [hl.path]
  exact hl.values form _

mutual

/-- Evaluating a formula against related lookups has related outcomes. -/
theorem Formula.related_eval : ∀ φ : Formula N, Meaning.Related Q φ.eval φ.eval
  | .constant v => fun _ _ _ => hQ.pure v
  | .stage stat s => Stages.related_meaning hQ stat s
  | .total stat => fun _ _ hl => hl.total stat
  | .optionalTotal stat => fun _ _ hl => hl.optionalTotal hQ stat
  | .mainValue stat s => fun _ _ hl => hl.value stat s Path.main
  | .value stat s path => fun l l' hl => by
    unfold Formula.eval
    rw [hl.path]
    exact hl.value stat s _
  | .sumOverPaths stat s => fun _ _ hl =>
    hQ.bind (hl.valuesOverPaths hQ stat s) fun _ => hQ.pure _
  | .sumOfForm form stat => fun _ _ hl => hQ.bind (hl.values form _) fun _ => hQ.pure _
  | .aggregated form ps => fun _ _ hl =>
    hQ.bind (Formula.values_related hl form ps) fun _ => hQ.ofExcept _
  | .countValues form ps => fun _ _ hl =>
    hQ.bind (Formula.values_related hl form ps) fun _ => hQ.pure _
  | .countPaths stat => fun _ _ hl => hQ.bind (hl.paths stat) fun _ => hQ.pure _
  | .onMainPath => fun l l' hl => by
    unfold Formula.eval
    rw [hl.path]
    exact hQ.pure _
  | .add operands => fun l l' hl => hQ.bind (related_evalAll operands l l' hl) fun _ => hQ.pure _
  | .multiply operands => fun l l' hl =>
    hQ.bind (related_evalAll operands l l' hl) fun _ => hQ.pure _
  | .subtract left right => fun l l' hl =>
    hQ.bind (left.related_eval l l' hl) fun _ =>
      hQ.bind (right.related_eval l l' hl) fun _ => hQ.pure _
  | .divide left right => fun l l' hl =>
    hQ.bind (left.related_eval l l' hl) fun _ =>
      hQ.bind (right.related_eval l l' hl) fun _ => hQ.pure _
  | .orElse first second => fun l l' hl => hQ.bind (first.related_eval l l' hl) fun v => by
    cases v with
    | some v => exact hQ.pure _
    | none => exact second.related_eval l l' hl
  | .ifNonZero condition yes no => fun l l' hl =>
    hQ.bind (condition.related_eval l l' hl) fun v => by
      cases v with
      | none => exact no.related_eval l l' hl
      | some v =>
        dsimp only
        split
        · exact no.related_eval l l' hl
        · exact yes.related_eval l l' hl
  | .noted name operand => fun l l' hl =>
    hQ.bind (hl.note _) fun _ => operand.related_eval l l' hl
  | .fail fault => fun _ _ _ => hQ.throw fault

theorem Formula.related_evalAll : ∀ (φs : List (Formula N)) (l : Lookup N m) (l' : Lookup N m'),
    l.Related Q l' → Q _ (Formula.evalAll φs l) (Formula.evalAll φs l')
  | [], _, _, _ => hQ.pure []
  | φ :: φs, l, l', hl => hQ.bind (φ.related_eval l l' hl) fun _ =>
    hQ.bind (related_evalAll φs l l' hl) fun _ => hQ.pure _

end

/-! ## Transformations -/

variable {inner : Meaning N m} {inner' : Meaning N m'} (hinner : Meaning.Related Q inner inner')
include hinner

section Effects

variable {l : Lookup N m} {l' : Lookup N m'} (hl : l.Related Q l')
include hl

theorem Conversion.related_base (source target : Stat N) :
    Q _ (Conversion.base source target inner l) (Conversion.base source target inner' l') := by
  unfold Conversion.base
  rw [hl.path]
  cases l'.path.withoutLast? with
  | none => exact hinner l l' hl
  | some before =>
    refine hQ.bind (hl.value source .base before) fun sourceBase => ?_
    cases sourceBase with
    | none => exact hinner l l' hl
    | some sourceBase =>
      exact hQ.bind (hl.derivedTotal hQ _) fun _ => hQ.bind (hl.derivedTotal hQ _) fun _ => hQ.pure _

omit [Number N] in
theorem Conversion.related_paths (source : Stat N) (target : StatKey) :
    Q _ (Conversion.paths source target inner l) (Conversion.paths source target inner' l') := by
  refine hinner _ _ { hl with paths := fun stat => hQ.bind (hl.paths stat) fun own => ?_ }
  split
  · exact hQ.pure _
  · exact hQ.bind (hl.value ..) fun _ => hQ.bind (hl.paths source) fun _ => hQ.pure _

theorem Conversion.related_unconverted (source : Stat N) :
    Q _ (Conversion.unconverted source inner l) (Conversion.unconverted source inner' l') := by
  refine hQ.bind (hinner l l' hl) fun value => ?_
  cases value with
  | none => exact hQ.pure none
  | some value =>
    refine hQ.bind (hl.derivedTotal hQ _) fun conversion => ?_
    cases conversion <;> exact hQ.pure _

theorem Conversion.related_normalizedShare (source : Stat N) (share : StatKey) :
    Q _ (Conversion.normalizedShare source share inner l)
      (Conversion.normalizedShare source share inner' l') := by
  refine hQ.bind (hl.derivedTotal hQ _) fun all => ?_
  cases all with
  | none => exact hinner l l' hl
  | some all =>
    refine hQ.bind (hl.derivedTotal hQ _) fun skill => hinner _ _
      { hl with value := fun stat stage path => hQ.bind (hl.value stat stage path) fun value => ?_ }
    split <;> exact hQ.pure _

omit [Number N] in
theorem Conversion.related_skillPaths (only : StatKey) :
    Q _ (Conversion.skillPaths only inner l) (Conversion.skillPaths only inner' l') := by
  refine hinner _ _ { hl with paths := fun stat => hQ.bind (hl.paths stat) fun paths => ?_ }
  split <;> exact hQ.pure _

omit hinner in
theorem Damage.related_scaled (effectiveness : Stat N) (value : Option (Amount N)) :
    Q _ (Damage.scaled l effectiveness value) (Damage.scaled l' effectiveness value) := by
  cases value with
  | none => exact hQ.pure none
  | some value => exact hQ.bind (hl.total effectiveness) fun _ => hQ.pure _

theorem Damage.related_scaledBase (damage : StatKey) (entity : Entity) :
    Q _ (Damage.scaledBase damage entity inner l) (Damage.scaledBase damage entity inner' l') := by
  refine hQ.bind (hl.derived _) fun set => hQ.bind (hl.derived _) fun add => hinner _ _
    { hl with value := fun stat stage path => hQ.bind (hl.value stat stage path) fun value => ?_ }
  split
  · exact hQ.pure _
  · cases Damage.effectiveness? set add stage with
    | some effectiveness => exact Damage.related_scaled hQ hl ..
    | none => exact hQ.pure _

theorem Damage.related_hitBase (ailment : StatKey) (hit : Stat N) :
    Q _ (Damage.hitBase ailment hit inner l) (Damage.hitBase ailment hit inner' l') := by
  refine hQ.bind (hl.derived _) fun set => hQ.bind (hl.derived _) fun add => hinner _ _
    { hl with value := fun stat stage path => ?_ }
  dsimp only
  split
  · exact hl.value ..
  · cases Damage.effectiveness? set add stage with
    | some effectiveness => exact hQ.bind (hl.value ..) fun _ => Damage.related_scaled hQ hl ..
    | none => exact hl.value ..

theorem Damage.related_dealtIncrease (damage : StatKey) (entity : Entity) (ailment : Ailment) :
    Q _ (Damage.dealtIncrease damage entity ailment inner l)
      (Damage.dealtIncrease damage entity ailment inner' l') := by
  refine hQ.bind (hl.derivedTotal hQ _) fun value => ?_
  cases Damage.selected? value with
  | none => exact hinner l l' hl
  | some dealt =>
    refine hQ.bind (hl.derived _) fun other => ?_
    split
    · exact hinner l l' hl
    · refine hinner _ _ { hl with values := fun form places => ?_ }
      cases form <;> exact hl.values ..

theorem Modifiers.related_shared (stat other : Stat N) (form : Form) :
    Q _ (Modifiers.shared stat other form inner l) (Modifiers.shared stat other form inner' l') := by
  refine hQ.bind (hl.derivedTotal hQ _) fun percent => ?_
  cases percent with
  | none => exact hinner l l' hl
  | some percent =>
    refine hinner _ _
      { hl with values := fun asked places => hQ.bind (hl.values asked places) fun values => ?_ }
    split
    · exact hQ.pure _
    · dsimp only
      split
      · exact hQ.pure _
      · exact hQ.bind (hl.values ..) fun _ => hQ.pure _

theorem Modifiers.related_onlyHighest (key : StatKey) (form : Form) :
    Q _ (Modifiers.onlyHighest key form inner l) (Modifiers.onlyHighest key form inner' l') := by
  refine hinner _ _ { hl with values := fun asked places => ?_ }
  dsimp only
  split
  · exact hl.values ..
  · split
    · exact hQ.throw _
    · exact hQ.bind (hl.values ..) fun _ => hQ.pure _

theorem Paths.related_onlyHighest (key : StatKey) :
    Q _ (Paths.onlyHighest key inner l) (Paths.onlyHighest key inner' l') := by
  refine hinner _ _ { hl with paths := fun stat => hQ.bind (hl.paths stat) fun paths => ?_ }
  split
  · exact hQ.pure _
  · exact hQ.bind (hQ.foldlM (fun _ _ => hQ.bind (hl.value ..) fun _ => hQ.pure _) paths none)
      fun _ => hQ.pure _

omit hinner in
theorem Paths.related_contributing (entity : Entity) (pool : Pool) :
    Q _ (Paths.contributing l entity pool) (Paths.contributing l' entity pool) := by
  refine hQ.foldlM (fun found p => hQ.bind (hl.derivedTotal hQ _) fun target => ?_) _ _
  dsimp only
  split
  · exact hQ.bind (hl.derived _) fun _ => hQ.pure _
  · exact hQ.pure _

theorem Paths.related_routed (entity : Entity) (pool : Pool) :
    Q _ (Paths.routed entity pool inner l) (Paths.routed entity pool inner' l') := by
  refine hQ.bind (hl.derived _) fun regen =>
    hQ.bind (Paths.related_contributing hQ hl entity pool) fun sources => hinner _ _
      { hl with paths := fun stat => ?_, value := fun stat stage path => ?_ }
  · dsimp only
    split
    · exact hl.paths stat
    · exact hQ.foldlM (fun _ source => hQ.bind (hl.paths source) fun _ => hQ.pure _) _ _
  · dsimp only
    split
    · exact hl.value ..
    · refine hQ.bind (hQ.foldlM (fun values source => hQ.bind (hl.paths source) fun paths => ?_) _ _)
        fun _ => hQ.pure _
      split
      · exact hQ.bind (hl.value ..) fun _ => hQ.pure _
      · exact hQ.pure _

end Effects

/-- What a formula computes under an effect is related if what it computes without is. -/
theorem Effect.related_apply (effect : Effect N) :
    Meaning.Related Q (effect.apply inner) (effect.apply inner') := by
  intro l l' hl
  cases effect with
  | shareModifiers stat other form => exact Modifiers.related_shared hQ hinner hl stat other form
  | ailmentPaths ailment hit => exact hinner _ _ { hl with paths := fun stat => hl.paths _ }
  | ailmentBase ailment hit => exact Damage.related_hitBase hQ hinner hl ailment hit
  | ailmentIncrease damage entity ailment =>
    exact Damage.related_dealtIncrease hQ hinner hl damage entity ailment
  | convertedBase source target => exact Conversion.related_base hQ hinner hl source target
  | convertedPaths source target => exact Conversion.related_paths hQ hinner hl source target
  | unconverted source => exact Conversion.related_unconverted hQ hinner hl source
  | normalizedShare source share => exact Conversion.related_normalizedShare hQ hinner hl source share
  | skillPaths stat => exact Conversion.related_skillPaths hQ hinner hl stat
  | damageEffectiveness damage entity => exact Damage.related_scaledBase hQ hinner hl damage entity
  | highestModifier stat form => exact Modifiers.related_onlyHighest hQ hinner hl stat form
  | routedRegeneration entity pool => exact Paths.related_routed hQ hinner hl entity pool
  | highestPath stat => exact Paths.related_onlyHighest hQ hinner hl stat
  | rounding | scale | offset => exact hQ.bind (hinner l l' hl) fun _ => hQ.pure _
  | replace formula => exact formula.related_eval hQ l l' hl
  | passThrough => exact hinner l l' hl
  | replacePaths key paths =>
    refine hinner _ _ { hl with paths := fun stat => ?_ }
    dsimp only
    split
    · exact hQ.pure _
    · exact hl.paths stat
  | replaceValue key stage formula =>
    refine hinner _ _ { hl with value := fun stat asked path => ?_ }
    dsimp only
    split
    · exact formula.related_eval hQ l l' hl
    · exact hl.value stat asked path
  | appendValues form values =>
    exact hinner _ _ { hl with
      values := fun asked places => hQ.bind (hl.values asked places) fun _ => hQ.pure _ }

/-- So is what it computes under transformations. -/
theorem Transformation.related_layer (ts : List (Transformation N)) :
    Meaning.Related Q (Transformation.layer ts inner) (Transformation.layer ts inner') := by
  induction ts generalizing inner inner' with
  | nil => exact hinner
  | cons t ts ih => exact ih (t.effect.related_apply hQ hinner)

omit hQ hinner

/-! ## Properties -/

/-- A property of computations that holds of results and faults, and of going on with a result. -/
structure Reading.Closed (Q : (α : Type) → Reading N m α → Prop) : Prop where
  pure : ∀ {α : Type} (a : α), Q α (pure a)
  throw : ∀ {α : Type} (fault : Fault N), Q α (throw fault)
  bind : ∀ {α β : Type} {x : Reading N m α} {next : α → Reading N m β},
    Q α x → (∀ a, Q β (next a)) → Q β (x >>= next)

/-- Every lookup has a property. -/
structure Lookup.Within (Q : (α : Type) → Reading N m α → Prop) (l : Lookup N m) : Prop where
  paths : ∀ stat, Q _ (l.paths stat)
  value : ∀ stat stage path, Q _ (l.value stat stage path)
  values : ∀ form places, Q _ (l.values form places)
  derived : ∀ request, Q _ (l.derived request)
  note : ∀ text, Q Unit (liftM (l.note text))

/-- What a formula computes has a property if the lookups it is evaluated against have it. -/
def Meaning.Within (Q : (α : Type) → Reading N m α → Prop) (meaning : Meaning N m) : Prop :=
  ∀ l : Lookup N m, l.Within Q → Q _ (meaning l)

omit [Number N] in
/-- A lookup with a property is related to itself by it. -/
theorem Lookup.Within.related {P : (α : Type) → Reading N m α → Prop} {l : Lookup N m}
    (hl : l.Within P) : l.Related (fun α x _ => P α x) l :=
  { hl with path := rfl }

namespace Reading.Closed

variable {P : (α : Type) → Reading N m α → Prop} (hP : Reading.Closed P)
include hP

omit [Number N] in
/-- A property of computations is a relation that leaves the second one aside. -/
theorem congruence : Reading.Congruence fun α (x _ : Reading N m α) => P α x :=
  ⟨hP.pure, hP.throw, fun hx hnext => hP.bind hx hnext⟩

omit [Number N] in
theorem ofExcept {α : Type} (e : Except (Fault N) α) : P α (Reading.ofExcept e) :=
  hP.congruence.ofExcept e

omit [Number N] in
theorem mapM {α β : Type} {step : α → Reading N m β} {l : List α} (h : ∀ a ∈ l, P β (step a)) :
    P _ (l.mapM step) :=
  @Reading.Congruence.mapM N m m _ _ _ hP.congruence α β step step l h

end Reading.Closed

namespace Network

variable {A σ : Type} (n : Network N A σ) (source : FormulaSource N)

include hQ in
/-- What the formula of a node computes from related lookups is related. -/
theorem related_meaning : Meaning.Related Q (n.meaning source) (n.meaning source) := by
  cases source with
  | plain formula => exact formula.related_eval hQ
  | layered id =>
    simp only [meaning]
    cases n.layered[id]? with
    | none => exact fun _ _ _ => hQ.pure none
    | some x => exact Transformation.related_layer hQ (x.initial.related_eval hQ) x.layers

/-- What the formula of a node computes has every property that its lookups have and that survives
going on. -/
theorem within_meaning {P : (α : Type) → Reading N m α → Prop} (hP : Reading.Closed P) :
    Meaning.Within P (n.meaning source) := fun l hl =>
  n.related_meaning hP.congruence source l l hl.related

end Network

end StatEngine
