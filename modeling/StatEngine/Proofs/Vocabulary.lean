import StatEngine.Proofs.Roaming

/-!
# Vocabularies

The formulas of modifiers name finitely many stats and paths, and whatever they ask for is made of these:
the paths of a stat are those that its modifiers are on, and the stages of a stat name the stats that
bound it, the stats a path came through and the source of the path, and nothing else. A `Vocabulary` is a
choice of stats and paths that is closed under this.

## Main definitions

* `Vocabulary`: stats and paths that name no others;
* `Formula.Over` and `Formula.Within`: a formula that reads any nodes, paths and modifiers of given
  stats and paths, and of a vocabulary;
* `Regime.naming` and `Vocabulary.regime`: the use of a network with given stats and paths, and within a
  vocabulary.

## Main statements

* `Formula.Within.asks`: a formula within a vocabulary asks for nothing that is not within it.
-/

namespace StatEngine

/-- Stats without behaviors and paths that name no others. -/
structure Vocabulary (N : Type) where
  /-- The stats. -/
  stats : List (Stat N)
  /-- The paths. -/
  paths : List (Path (Stat N))
  plain : ∀ s ∈ stats, s.behaviors = []
  minimum : ∀ s ∈ stats, ∀ t, s.minimum = some t → t ∈ stats
  maximum : ∀ s ∈ stats, ∀ t, s.maximum = some t → t ∈ stats
  main : Path.main ∈ paths
  source : ∀ p ∈ paths, Path.ofSource p.source ∈ paths
  via : ∀ p ∈ paths, ∀ s ∈ p.via, s ∈ stats

variable {N : Type} {voc : Vocabulary N}

namespace Vocabulary

/-- A stage is computed on a path that can be named. -/
theorem stagePath_mem (voc : Vocabulary N) {stage : Stage} {p : Path (Stat N)}
    (hp : stage.perPath → p ∈ voc.paths) : Network.stagePath stage p ∈ voc.paths := by
  unfold Network.stagePath
  split
  · next hstage => exact hp hstage
  · exact voc.main

/-- The keys of the nodes that can be named. -/
def nodeKeys (voc : Vocabulary N) : List NodeKey :=
  voc.stats.flatMap fun s => Stage.all.flatMap fun stage => voc.paths.map fun p => ⟨s.key, stage, p.key⟩

theorem mem_nodeKeys {s : Stat N} (hs : s ∈ voc.stats) (stage : Stage) {p : Path (Stat N)}
    (hp : p ∈ voc.paths) : (⟨s.key, stage, p.key⟩ : NodeKey) ∈ voc.nodeKeys := by
  have hstage : stage ∈ Stage.all := by cases stage <;> decide
  exact List.mem_flatMap.mpr ⟨s, hs, List.mem_flatMap.mpr ⟨stage, hstage, List.mem_map_of_mem hp⟩⟩

theorem length_nodeKeys (voc : Vocabulary N) :
    voc.nodeKeys.length = voc.stats.length * (Stage.all.length * voc.paths.length) := by
  simp [nodeKeys, List.length_flatMap, List.map_const']

/-- The places whose modifiers apply on a path can be named. -/
theorem mem_modifierPlaces {s : Stat N} (hs : s ∈ voc.stats) {p : Path (Stat N)} (hp : p ∈ voc.paths)
    (form : Form) {place : Place N} (h : place ∈ Stages.modifierPlaces s form p) :
    place.1 ∈ voc.stats ∧ place.2 ∈ voc.paths := by
  have hinfluencing : ∀ source ∈ p.source.influencing,
      (Path.ofSource source : Path (Stat N)) ∈ voc.paths := by
    intro source hsource
    have hown := voc.source p hp
    cases hsrc : p.source <;> simp only [hsrc, Source.influencing, List.mem_cons, List.not_mem_nil,
      or_false] at hsource hown <;> rcases hsource with rfl | rfl <;>
      first | exact hown | exact voc.main
  cases form with
  | totalOverride =>
    obtain rfl := List.mem_singleton.mp h
    exact ⟨hs, voc.main⟩
  | baseOverride | baseSet | baseAdd =>
    obtain rfl := List.mem_singleton.mp h
    exact ⟨hs, hp⟩
  | increase | more =>
    obtain ⟨source, hsource, h⟩ := List.mem_flatMap.mp h
    obtain ⟨t, ht, rfl⟩ := List.mem_map.mp h
    refine ⟨?_, hinfluencing source hsource⟩
    rcases List.mem_cons.mp ht with rfl | ht
    · exact hs
    · exact voc.via p hp t ht

end Vocabulary

/-- A formula that names stats with one property and paths with another, whatever it reads of them. -/
inductive Formula.Over (P : Stat N → Prop) (Q : Path (Stat N) → Prop) : Formula N → Prop where
  | constant (value : Option (Amount N)) : Over P Q (.constant value)
  | stage {stat : Stat N} (h : P stat) (stage : Stage) : Over P Q (.stage stat stage)
  | total {stat : Stat N} (h : P stat) : Over P Q (.total stat)
  | optionalTotal {stat : Option (Stat N)} (h : ∀ s, stat = some s → P s) :
    Over P Q (.optionalTotal stat)
  | mainValue {stat : Stat N} (h : P stat) (stage : Stage) : Over P Q (.mainValue stat stage)
  | value {stat : Stat N} (h : P stat) (stage : Stage) {path : Option (Path (Stat N))}
    (hpath : ∀ p, path = some p → Q p) : Over P Q (.value stat stage path)
  | sumOverPaths {stat : Stat N} (h : P stat) (stage : Stage) : Over P Q (.sumOverPaths stat stage)
  | sumOfForm {stat : Stat N} (h : P stat) (form : Form) : Over P Q (.sumOfForm form stat)
  | aggregated (form : Form) {places : List (Stat N × Option (Path (Stat N)))}
    (h : ∀ place ∈ places, P place.1 ∧ ∀ p, place.2 = some p → Q p) : Over P Q (.aggregated form places)
  | countValues (form : Form) {places : List (Stat N × Option (Path (Stat N)))}
    (h : ∀ place ∈ places, P place.1 ∧ ∀ p, place.2 = some p → Q p) : Over P Q (.countValues form places)
  | countPaths {stat : Stat N} (h : P stat) : Over P Q (.countPaths stat)
  | onMainPath : Over P Q .onMainPath
  | add {operands : List (Formula N)} (h : ∀ f ∈ operands, Over P Q f) : Over P Q (.add operands)
  | multiply {operands : List (Formula N)} (h : ∀ f ∈ operands, Over P Q f) : Over P Q (.multiply operands)
  | subtract {left right : Formula N} (hleft : Over P Q left) (hright : Over P Q right) :
    Over P Q (.subtract left right)
  | divide {left right : Formula N} (hleft : Over P Q left) (hright : Over P Q right) :
    Over P Q (.divide left right)
  | orElse {first second : Formula N} (hfirst : Over P Q first) (hsecond : Over P Q second) :
    Over P Q (.orElse first second)
  | ifNonZero {condition yes no : Formula N} (hcondition : Over P Q condition) (hyes : Over P Q yes)
    (hno : Over P Q no) : Over P Q (.ifNonZero condition yes no)
  | noted (name : String) {operand : Formula N} (h : Over P Q operand) : Over P Q (.noted name operand)
  | fail (fault : Fault N) : Over P Q (.fail fault)

/-- A formula that reads nothing but nodes, paths and modifiers of a vocabulary. -/
def Formula.Within (voc : Vocabulary N) (formula : Formula N) : Prop :=
  formula.Over (· ∈ voc.stats) (· ∈ voc.paths)

/-- The use of a network with stats that have one property and paths that have another, and formulas that
read no others. None of the stats has behaviors, and none is followed. -/
def Regime.naming (P : Stat N → Prop) (Q : Path (Stat N) → Prop) (hplain : ∀ s, P s → s.behaviors = [])
    (hmain : Q Path.main) : Regime N where
  stats := []
  Admits := P
  Bare _ := True
  HasPath := Q
  HasFormula := Formula.Over P Q
  admits _ h := absurd h List.not_mem_nil
  bare _ _ := trivial
  same _ h := absurd h List.not_mem_nil
  minimum := (Regime.free : Regime N).minimum
  maximum := (Regime.free : Regime N).maximum
  plain := (Regime.free : Regime N).plain
  unaffected t ht _ hb := absurd (hplain t ht ▸ hb) List.not_mem_nil
  main := hmain
  unconverted _ h := absurd h List.not_mem_nil
  reads _ h := absurd h List.not_mem_nil

/-- The stats and paths of a vocabulary may turn up, and formulas that read no others. -/
def Vocabulary.regime (voc : Vocabulary N) : Regime N :=
  .naming (· ∈ voc.stats) (· ∈ voc.paths) voc.plain voc.main

theorem Vocabulary.not_follows (voc : Vocabulary N) : ¬ voc.regime.Follows := by
  simp [Regime.Follows, Vocabulary.regime, Regime.naming]

/-! ## What formulas within a vocabulary ask for -/

section Asks

variable [Number N] {α : Type}

/-- Whether a reading asks for nothing that is not within a vocabulary, as long as replies name nothing
new. -/
def Reading.AsksWithin (voc : Vocabulary N) (x : Reading N (Inquiry N) α) : Prop :=
  x.Asks (fun _ => Query.Admitted voc.regime) (fun _ query reply _ => query.Names voc.regime reply) ()

omit [Number N] in
theorem Reading.AsksWithin.bind {β : Type} {x : Reading N (Inquiry N) α}
    {f : α → Reading N (Inquiry N) β} (hx : x.AsksWithin voc) (hf : ∀ a, (f a).AsksWithin voc) :
    (x >>= f).AsksWithin voc :=
  Reading.Asks.bind (fun _ => trivial) hx fun a _ _ => hf a

omit [Number N] in
/-- The values on the paths of a stat can be asked for, because its paths can be named. -/
theorem asksWithin_valuesOverPaths {stat : Stat N} (h : stat ∈ voc.stats) (stage : Stage)
    (path : Path (Stat N)) : ((Lookup.asking path).valuesOverPaths stat stage).AsksWithin voc := by
  refine ⟨h, fun paths _ hpaths => ?_⟩
  change Reading.AsksWithin voc (paths.mapM _)
  refine Reading.Asks.mapM (fun _ => trivial) fun p hp _ _ => .of_value ⟨h, ?_⟩
  exact voc.stagePath_mem fun _ => hpaths p hp

/-- The stages of a stat can be asked for. -/
theorem asksWithin_stage {stat : Stat N} (h : stat ∈ voc.stats) {path : Path (Stat N)}
    (hpath : path ∈ voc.paths) (stage : Stage) :
    (Stages.meaning stat stage (.asking path)).AsksWithin voc := by
  have hform (form : Form) : (Stages.aggregated stat form (.asking path)).AsksWithin voc :=
    Stages.asks_aggregated (fun _ => trivial) fun place hplace =>
      voc.mem_modifierPlaces h hpath form hplace
  cases stage with
  | total => exact Stages.asks_total ⟨h, voc.main⟩ fun _ _ => ⟨h, voc.main⟩
  | subtotal =>
    exact Stages.asks_subtotal (fun _ => trivial) ⟨h, voc.main⟩
      (fun s hs _ _ => ⟨voc.minimum stat h s hs, voc.main⟩)
      fun s hs _ _ => ⟨voc.maximum stat h s hs, voc.main⟩
  | uncappedSubtotal =>
    exact (asksWithin_valuesOverPaths h _ path).bind fun _ => .of_pure
  | pathTotal => exact Stages.asks_pathTotal (fun _ => trivial) fun _ _ _ _ => ⟨h, voc.stagePath_mem fun _ => hpath⟩
  | base => exact Stages.asks_base (fun _ => trivial) fun _ _ _ _ => ⟨h, voc.stagePath_mem fun _ => hpath⟩
  | baseOverride => exact hform .baseOverride
  | baseSet => exact hform .baseSet
  | baseAdd => exact hform .baseAdd
  | increase => exact hform .increase
  | more => exact hform .more
  | totalOverride => exact hform .totalOverride

/-- A formula within a vocabulary asks for nothing that is not within it. -/
theorem Formula.Within.asks {path : Path (Stat N)} (hpath : path ∈ voc.paths) {formula : Formula N}
    (h : formula.Within voc) : (formula.inquiry path).AsksWithin voc := by
  have hplaces {ps : List (Stat N × Option (Path (Stat N)))}
      (hps : ∀ place ∈ ps, place.1 ∈ voc.stats ∧ ∀ p, place.2 = some p → p ∈ voc.paths) :
      ∀ place ∈ Formula.places (.asking path : Lookup N (Inquiry N)) ps,
        place.1 ∈ voc.stats ∧ place.2 ∈ voc.paths := by
    intro place hplace
    obtain ⟨⟨s, p⟩, hmem, rfl⟩ := List.mem_map.mp hplace
    refine ⟨(hps _ hmem).1, ?_⟩
    cases p with
    | none => exact hpath
    | some p => exact (hps _ hmem).2 p rfl
  induction h with
  | constant | onMainPath | fail => trivial
  | stage hs stage => exact asksWithin_stage hs hpath stage
  | total hs | mainValue hs => exact .of_value ⟨hs, voc.stagePath_mem fun _ => voc.main⟩
  | @optionalTotal stat hs =>
    cases stat with
    | none => trivial
    | some s => exact .of_value ⟨hs s rfl, voc.main⟩
  | @value stat hs stage p hp =>
    refine .of_value ⟨hs, voc.stagePath_mem fun _ => ?_⟩
    cases p with
    | none => exact hpath
    | some p => exact hp p rfl
  | sumOverPaths hs stage => exact (asksWithin_valuesOverPaths hs stage path).bind fun _ => .of_pure
  | sumOfForm hs form =>
    exact ⟨fun place hplace => List.mem_singleton.mp hplace ▸ ⟨hs, voc.main⟩, fun _ _ _ => trivial⟩
  | aggregated form hps =>
    refine ⟨hplaces hps, fun _ _ _ => ?_⟩
    exact Reading.Asks.of_ofExcept
  | countValues form hps => exact ⟨hplaces hps, fun _ _ _ => trivial⟩
  | countPaths hs => exact ⟨hs, fun _ _ _ => trivial⟩
  | add _ ih | multiply _ ih =>
    refine .bind ?_ fun _ => .of_pure
    exact Formula.asks_evalAll (fun _ => trivial) fun f hf _ => ih f hf
  | subtract _ _ hl hr | divide _ _ hl hr => exact hl.bind fun _ => hr.bind fun _ => .of_pure
  | orElse _ _ hf hs =>
    refine hf.bind fun value => ?_
    cases value with
    | none => exact hs
    | some v => exact .of_pure
  | ifNonZero _ _ _ hc hy hn =>
    refine hc.bind fun value => ?_
    cases value with
    | none => exact hn
    | some v =>
      dsimp only
      split
      · exact hn
      · exact hy
  | noted name _ ih => exact ⟨trivial, fun _ _ _ => ih⟩

end Asks

end StatEngine
