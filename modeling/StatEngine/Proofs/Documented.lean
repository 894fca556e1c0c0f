import StatEngine.MetaModifier
import StatEngine.Proofs.Incremental

/-!
# The documented formulas

For modifiers whose values are constants the total of a stat is told by formulas that know of no nodes:
the values of a form from a source are combined, the base of each source is increased and multiplied, the
sum over the sources is moved between the totals of the stats that bound the stat, and what overrides the
total comes before all that (`Documented.total`). The network comes to the same, faults included.

## Main definitions

* `Documented.values`: the values of the modifiers of a form from a source;
* `Documented.base`, `Documented.sourceTotal` and `Documented.total`: what is documented.

## Main statements

* `Inputs.computes_documented`: the modifiers and paths on file stand for what is documented;
* `Calculator.total_documented`: reading a total in a calculator that was updated once comes to it.
-/

namespace StatEngine

open Network

variable {N : Type}

/-! ## What is documented -/

/-- The value of a modifier, if its formula is a constant. -/
def Modifier.constant? (m : Modifier N) : Option (Amount N) :=
  match m.formula with
  | .constant value => value
  | _ => none

namespace Documented

variable (modifiers : List (Modifier N))

/-- The values of the modifiers of a form from one source, in the order of the modifiers. A modifier that
lists the stat several times has its value there as often. -/
def values (stat : Stat N) (form : Form) (source : Source) : List (Option (Amount N)) :=
  modifiers.flatMap fun m =>
    if m.form = form ∧ m.source.source = source then
      List.replicate ((m.stats.map Stat.key).count stat.key) m.constant?
    else []

/-- The values of the modifiers of a form that apply to a source: those from the source, and then the
global ones. -/
def applying (stat : Stat N) (form : Form) (source : Source) : List (Option (Amount N)) :=
  if source = .global then values modifiers stat form .global
  else values modifiers stat form source ++ values modifiers stat form .global

/-- The sources of the modifiers of a stat, in the order in which they turned up. -/
def sources (stat : Stat N) : List Source :=
  ((modifiers.filter fun m => stat.key ∈ m.stats.map Stat.key).map (·.source.source)).eraseDups

variable [Number N]

/-- The base of a source is what overrides it, or else what is set and what is added. -/
def base (stat : Stat N) (source : Source) : Except (Fault N) (Option (Amount N)) := do
  match ← aggregate .baseOverride (values modifiers stat .baseOverride source) with
  | some value => return some value
  | none =>
    let set ← aggregate .baseSet (values modifiers stat .baseSet source)
    let add ← aggregate .baseAdd (values modifiers stat .baseAdd source)
    match set with
    | some set => return some (set + add.getD Amount.zero)
    | none => return add

/-- A source contributes `base * (1 + increase) * more`, and nothing without a base. -/
def sourceTotal (stat : Stat N) (source : Source) : Except (Fault N) (Option (Amount N)) := do
  match ← base modifiers stat source with
  | none => return none
  | some base =>
    let increase := (← aggregate .increase (applying modifiers stat .increase source)).getD Amount.zero
    let more := (← aggregate .more (applying modifiers stat .more source)).getD Amount.one
    return some (base * increase.map (Number.one + ·) * more)

/-- The sum over the sources. -/
def sum (stat : Stat N) : Except (Fault N) (Option (Amount N)) := do
  return Amount.sum (← (sources modifiers stat).mapM (sourceTotal modifiers stat))

/-- The subtotal is the sum. A sum near zero is zero, and any other one is moved between the bounds: below the
upper one, and then above the lower one. The bounds are computed when they are needed. -/
def subtotal (stat : Stat N) (lower upper : Except (Fault N) (Option (Amount N))) :
    Except (Fault N) (Option (Amount N)) := do
  match ← sum modifiers stat with
  | none => return none
  | some sum =>
    if sum.isNearZero then return some Amount.zero
    else
      let lower ← lower
      let upper ← upper
      return some (sum.clip (lower.map (·.minimum)) (upper.map (·.maximum)))

mutual

/-- The total is what overrides it, or else the subtotal, between the totals of the stats that bound it. -/
def total : Stat N → Except (Fault N) (Option (Amount N))
  | stat@⟨_, minimum, maximum, _, _, _⟩ => do
    match ← aggregate .totalOverride (values modifiers stat .totalOverride .global) with
    | some value => return some value
    | none => subtotal modifiers stat (optionalTotal minimum) (optionalTotal maximum)

/-- The total of a stat, absent without one. -/
def optionalTotal : Option (Stat N) → Except (Fault N) (Option (Amount N))
  | some stat => total stat
  | none => return none

end

/-- A source without modifiers contributes nothing. -/
theorem sourceTotal_of_not_mem {stat : Stat N} {source : Source} (h : source ∉ sources modifiers stat) :
    sourceTotal modifiers stat source = .ok none := by
  have hvalues (form : Form) : values modifiers stat form source = [] := by
    refine List.flatMap_eq_nil_iff.mpr fun m hm => ?_
    split
    · next happlies =>
      have hnot : stat.key ∉ m.stats.map Stat.key := fun hkey => h <| by
        rw [sources, List.mem_eraseDups]
        exact List.mem_map.mpr ⟨m, List.mem_filter.mpr ⟨hm, decide_eq_true hkey⟩, happlies.2⟩
      rw [List.count_eq_zero_of_not_mem hnot]
      rfl
    · rfl
  rw [sourceTotal, base, hvalues, hvalues, hvalues]
  rfl

/-- Nor does it make a difference to the sum. -/
theorem sum_append_of_not_mem {stat : Stat N} {source : Source} (h : source ∉ sources modifiers stat) :
    Amount.sum <$> (sources modifiers stat ++ [source]).mapM (sourceTotal modifiers stat)
      = sum modifiers stat := by
  rw [List.mapM_append, List.mapM_cons, sourceTotal_of_not_mem modifiers h, sum]
  cases (sources modifiers stat).mapM (sourceTotal modifiers stat) with
  | error fault => rfl
  | ok vs =>
    change Except.ok (Amount.sum (vs ++ [none])) = Except.ok (Amount.sum vs)
    rw [Amount.sum, Amount.sum, Amount.combine_eq_foldl, Amount.combine_eq_foldl, List.foldl_concat]
    cases vs.foldl (Option.merge (· + ·)) none <;> rfl

end Documented

/-! ## Readings that are decided -/

section Runs

variable {α β : Type} {x : Reading N Option α}

theorem run_bind_of_run {f : α → Reading N Option β} {r : Except (Fault N) α}
    {g : α → Except (Fault N) β} (hx : x.run = some r) (hf : ∀ a, (f a).run = some (g a)) :
    (x >>= f).run = some (r >>= g) := by
  rw [ExceptT.run_bind, hx]
  cases r with
  | error fault => rfl
  | ok a => exact hf a

theorem run_mapM_of_run {f : α → Reading N Option β} {g : α → Except (Fault N) β} {as : List α}
    (h : ∀ a ∈ as, (f a).run = some (g a)) : (as.mapM f).run = some (as.mapM g) := by
  induction as with
  | nil => rfl
  | cons a as ih =>
    rw [List.mapM_cons, List.mapM_cons]
    refine run_bind_of_run (h a List.mem_cons_self) fun b => ?_
    exact run_bind_of_run (ih fun a' ha' => h a' (List.mem_cons_of_mem a ha')) fun bs => rfl

theorem run_ofExcept (r : Except (Fault N) α) : (Reading.ofExcept r : Reading N Option α).run = some r := by
  cases r <;> rfl

end Runs

/-! ## What modifiers stand for -/

namespace Inputs

variable {inputs : Inputs N} {modifiers : List (Modifier N)}

/-- The values that are registered for a form on the path of a source. -/
theorem map_constant?_registered (modifiers : List (Modifier N)) (stat : Stat N) (form : Form)
    (source : Source) :
    (registered modifiers stat.key form (Path.ofSource source : Path (Stat N)).key).map (·.constant?)
      = Documented.values modifiers stat form source := by
  rw [registered, Documented.values, List.map_flatMap]
  congr 1
  funext m
  have happlies : (form = m.form ∧ (Path.ofSource source : Path (Stat N)).key = m.path.key)
      ↔ m.form = form ∧ m.source.source = source := by
    simp [Path.key, Path.map, Path.ofSource, Modifier.path, eq_comm]
  simp only [Modifier.copies, happlies]
  split
  · rw [List.map_replicate]
  · rfl

variable [Number N] (hmodifiers : inputs.modifiers = registered modifiers)
  (hconstant : ∀ m ∈ modifiers, ∃ v, m.formula = .constant v)
include hmodifiers hconstant

/-- The values of a form from several sources are found one source after another. -/
theorem run_values (depth : Nat) (stat : Stat N) (form : Form) (path : Path (Stat N))
    (sources : List Source) :
    ((inputs.lookup path (inputs.reference (depth + 1))).values form
        (sources.map fun source => (stat, Path.ofSource source))).run
      = some (.ok (sources.flatMap (Documented.values modifiers stat form))) := by
  have hmember (m : Modifier N) (hm : m ∈ modifiers) :
      (inputs.reference (depth + 1) m.formula m.path).run = some (.ok m.constant?) := by
    obtain ⟨v, hv⟩ := hconstant m hm
    rw [Modifier.constant?, hv]
    rfl
  have hplace (source : Source) :
      ((inputs.modifiers stat.key form (Path.ofSource source : Path (Stat N)).key).mapM fun m =>
        inputs.reference (depth + 1) m.formula m.path).run
        = some (.ok (Documented.values modifiers stat form source)) := by
    rw [hmodifiers, ← map_constant?_registered]
    refine run_mapM_eq_ok_iff.mpr (List.forall₂_map_right_iff.mpr (List.forall₂_same.mpr fun m hm => ?_))
    obtain ⟨m', hm', hrep⟩ := List.mem_flatMap.mp hm
    rw [List.eq_of_mem_replicate hrep]
    exact hmember m' hm'
  refine run_bind_eq_ok_iff.mpr ⟨sources.map (Documented.values modifiers stat form), ?_, ?_⟩
  · rw [List.mapM_map]
    refine run_mapM_eq_ok_iff.mpr (List.forall₂_map_right_iff.mpr (List.forall₂_same.mpr fun source _ => ?_))
    exact hplace source
  · rw [List.flatMap_def]
    rfl

/-- A form comes to the aggregate of the values that apply. -/
theorem reference_form (depth : Nat) (stat : Stat N) (form : Form) (path : Path (Stat N))
    {sources : List Source} (hplaces : Stages.modifierPlaces stat form path
      = sources.map fun source => (stat, Path.ofSource source)) :
    (inputs.reference (depth + 2) (.stage stat form.stage) path).run
      = some (aggregate form (sources.flatMap (Documented.values modifiers stat form))) := by
  have hmeaning : Stages.meaning (m := Option) stat form.stage = Stages.aggregated stat form := by
    cases form <;> rfl
  rw [reference, Formula.eval, hmeaning, Stages.aggregated]
  change (_ >>= _ : Reading N Option _).run = _
  rw [show (inputs.lookup path (inputs.reference (depth + 1))).path = path from rfl, hplaces,
    ExceptT.run_bind, run_values hmodifiers hconstant]
  exact run_ofExcept _

/-- A form that applies from its source alone. -/
theorem reference_form_own (depth : Nat) (stat : Stat N) {form : Form} {path : Path (Stat N)}
    {source : Source} (hplaces : Stages.modifierPlaces stat form path = [(stat, Path.ofSource source)]) :
    (inputs.reference (depth + 2) (.stage stat form.stage) path).run
      = some (aggregate form (Documented.values modifiers stat form source)) := by
  have hplaces' : Stages.modifierPlaces stat form path = [source].map fun s => (stat, Path.ofSource s) :=
    hplaces
  have h := reference_form hmodifiers hconstant depth stat form path hplaces'
  rwa [List.flatMap_singleton] at h

/-- A form that applies from its source and from everywhere. -/
theorem reference_form_applying (depth : Nat) (stat : Stat N) {form : Form} {source : Source}
    (hplaces : Stages.modifierPlaces stat form (Path.ofSource source)
      = source.influencing.map fun s => (stat, Path.ofSource s)) :
    (inputs.reference (depth + 2) (.stage stat form.stage) (Path.ofSource source)).run
      = some (aggregate form (Documented.applying modifiers stat form source)) := by
  rw [reference_form hmodifiers hconstant depth stat form _ hplaces]
  cases source <;> simp [Source.influencing, Documented.applying]

/-- The base of a source is what is documented. -/
theorem reference_base (depth : Nat) (stat : Stat N) (source : Source) :
    (inputs.reference (depth + 3) (.stage stat .base) (Path.ofSource source)).run
      = some (Documented.base modifiers stat source) := by
  have own (form : Form) (hplaces : Stages.modifierPlaces stat form (Path.ofSource source)
      = [(stat, Path.ofSource source)]) := reference_form_own hmodifiers hconstant depth stat hplaces
  have hoverride := own .baseOverride rfl
  have hset := own .baseSet rfl
  have hadd := own .baseAdd rfl
  rw [reference, Formula.eval, Stages.meaning, Stages.base, Documented.base]
  refine run_bind_of_run hoverride fun value => ?_
  cases value with
  | some value => rfl
  | none =>
    refine run_bind_of_run hset fun set => run_bind_of_run hadd fun add => ?_
    cases set <;> rfl

/-- What a source contributes is what is documented. -/
theorem reference_pathTotal (depth : Nat) (stat : Stat N) (source : Source) :
    (inputs.reference (depth + 4) (.stage stat .pathTotal) (Path.ofSource source)).run
      = some (Documented.sourceTotal modifiers stat source) := by
  have hplaces (form : Form) (h : form = .increase ∨ form = .more) :
      Stages.modifierPlaces stat form (Path.ofSource source)
        = source.influencing.map fun s => (stat, Path.ofSource s) := by
    rcases h with rfl | rfl <;> exact (List.map_eq_flatMap ..).symm
  have hincrease := reference_form_applying hmodifiers hconstant (depth + 1) stat (hplaces _ (.inl rfl))
  have hmore := reference_form_applying hmodifiers hconstant (depth + 1) stat (hplaces _ (.inr rfl))
  rw [reference, Formula.eval, Stages.meaning, Stages.pathTotal, Documented.sourceTotal]
  refine run_bind_of_run (reference_base hmodifiers hconstant depth stat source) fun base => ?_
  cases base with
  | none => rfl
  | some base =>
    exact run_bind_of_run hincrease fun increase => run_bind_of_run hmore fun more => rfl

variable (hpaths : ∀ stat : Stat N, inputs.paths stat.key
  = if Source.global ∈ Documented.sources modifiers stat
    then (Documented.sources modifiers stat).map Path.ofSource
    else (Documented.sources modifiers stat ++ [Source.global]).map Path.ofSource)
include hpaths

/-- The sum over the paths is the sum over the sources. -/
theorem reference_uncappedSubtotal (depth : Nat) (stat : Stat N) (path : Path (Stat N)) :
    (inputs.reference (depth + 5) (.stage stat .uncappedSubtotal) path).run
      = some (Documented.sum modifiers stat) := by
  have hsum (sources : List Source) :
      ((sources.map (Path.ofSource : Source → Path (Stat N))).mapM fun p =>
        inputs.reference (depth + 4) (.stage stat .pathTotal) (stagePath .pathTotal p)).run
        = some (sources.mapM (Documented.sourceTotal modifiers stat)) := by
    rw [List.mapM_map]
    exact run_mapM_of_run fun source _ => reference_pathTotal hmodifiers hconstant depth stat source
  have hall : (inputs.reference (depth + 5) (.stage stat .uncappedSubtotal) path).run
      = (Amount.sum <$> ((inputs.paths stat.key).mapM fun p =>
        inputs.reference (depth + 4) (.stage stat .pathTotal) (stagePath .pathTotal p))).run := rfl
  rw [hall, hpaths, ExceptT.run_map]
  split
  · rw [hsum]
    rfl
  · next hglobal =>
    rw [hsum, ← Documented.sum_append_of_not_mem modifiers hglobal]
    rfl

/-- The subtotal is what is documented, if the bounds are. -/
theorem reference_subtotal (depth : Nat) (stat : Stat N)
    (hbounds : ∀ bound, bound = stat.minimum ∨ bound = stat.maximum →
      ((inputs.lookup Path.main (inputs.reference (depth + 5))).optionalTotal bound).run
        = some (Documented.optionalTotal modifiers bound)) :
    (inputs.reference (depth + 6) (.stage stat .subtotal) Path.main).run
      = some (Documented.subtotal modifiers stat (Documented.optionalTotal modifiers stat.minimum)
        (Documented.optionalTotal modifiers stat.maximum)) := by
  have hsum := reference_uncappedSubtotal hmodifiers hconstant hpaths depth stat Path.main
  rw [reference, Formula.eval, Stages.meaning, Stages.subtotal, Documented.subtotal]
  refine run_bind_of_run hsum fun sum => ?_
  cases sum with
  | none => rfl
  | some sum =>
    dsimp only
    split
    · rfl
    · refine run_bind_of_run (hbounds _ (.inl rfl)) fun lower => ?_
      exact run_bind_of_run (hbounds _ (.inr rfl)) fun upper => rfl

/-- What is documented is what modifiers and paths stand for, if these are constants on the paths of their
sources. -/
theorem computes_documented : ∀ stat : Stat N, ∃ depth, ∀ d ≥ depth,
    (inputs.reference d (.stage stat .total) Path.main).run = some (Documented.total modifiers stat)
  | ⟨key, minimum, maximum, valueType, listed, behaviors⟩ => by
    let stat : Stat N := ⟨key, minimum, maximum, valueType, listed, behaviors⟩
    have hbound (bound : Option (Stat N)) (h : ∀ t, bound = some t → ∃ depth, ∀ d ≥ depth,
        (inputs.reference d (.stage t .total) Path.main).run = some (Documented.total modifiers t)) :
        ∃ depth, ∀ d ≥ depth, ((inputs.lookup Path.main (inputs.reference d)).optionalTotal bound).run
          = some (Documented.optionalTotal modifiers bound) := by
      cases bound with
      | none => exact ⟨0, fun _ _ => rfl⟩
      | some t => exact h t rfl
    obtain ⟨d₁, hmin⟩ := hbound minimum fun t ht => computes_documented t
    obtain ⟨d₂, hmax⟩ := hbound maximum fun t ht => computes_documented t
    refine ⟨max d₁ d₂ + 7, fun d hd => ?_⟩
    obtain ⟨d, rfl⟩ : ∃ d', d = d' + 7 := ⟨d - 7, by omega⟩
    have hplaces : Stages.modifierPlaces stat .totalOverride Path.main = [(stat, Path.ofSource .global)] :=
      rfl
    have hoverride := reference_form_own hmodifiers hconstant (d + 4) stat hplaces
    have hsubtotal := reference_subtotal hmodifiers hconstant hpaths d stat
      fun bound h => by
        rcases h with rfl | rfl
        · exact hmin _ (by omega)
        · exact hmax _ (by omega)
    rw [reference, Formula.eval, Stages.meaning, Stages.total, Documented.total]
    refine run_bind_of_run hoverride fun value => ?_
    cases value with
    | some value => rfl
    | none => exact hsubtotal

end Inputs

/-! ## Faults -/

section Faults

/-- A computation that does not end in a cycle. -/
def Acyclic {α : Type} (x : Except (Fault N) α) : Prop := ∀ labels, x ≠ .error (.cycle labels)

namespace Acyclic

variable {α β : Type}

theorem ok (a : α) : Acyclic (.ok a : Except (Fault N) α) := fun _ h => by cases h

theorem bind {x : Except (Fault N) α} {f : α → Except (Fault N) β} (hx : Acyclic x)
    (hf : ∀ a, Acyclic (f a)) : Acyclic (x >>= f) := by
  cases x with
  | error fault =>
    intro labels h
    obtain rfl := Except.error.inj h
    exact hx labels rfl
  | ok a => exact hf a

theorem mapM {f : α → Except (Fault N) β} (hf : ∀ a, Acyclic (f a)) : ∀ as : List α, Acyclic (as.mapM f)
  | [] => ok []
  | a :: as => by
    rw [List.mapM_cons]
    exact (hf a).bind fun _ => (mapM hf as).bind fun _ => ok _

end Acyclic

variable [Number N]

theorem acyclic_baseSet (values : List (Amount N)) : Acyclic (Aggregation.baseSet values) := by
  unfold Aggregation.baseSet
  split
  · exact .ok none
  · split
    · exact .ok _
    · exact fun labels h => by cases h

theorem acyclic_override (values : List (Amount N)) : Acyclic (Aggregation.override values) := by
  unfold Aggregation.override
  split
  · exact .ok none
  · exact .ok _
  · split
    · exact .ok _
    · exact fun labels h => by cases h

/-- Values do not combine to a cycle. -/
theorem acyclic_aggregate (form : Form) (values : List (Option (Amount N))) :
    Acyclic (aggregate form values) := by
  cases form with
  | increase | more | baseAdd => exact .ok _
  | baseSet => exact acyclic_baseSet _
  | baseOverride | totalOverride => exact acyclic_override _

namespace Documented

variable (modifiers : List (Modifier N))

theorem acyclic_sourceTotal (stat : Stat N) (source : Source) :
    Acyclic (sourceTotal modifiers stat source) := by
  have hbase : Acyclic (base modifiers stat source) := by
    refine .bind (acyclic_aggregate _ _) fun value => ?_
    cases value with
    | some value => exact .ok _
    | none =>
      refine .bind (acyclic_aggregate _ _) fun set => .bind (acyclic_aggregate _ _) fun add => ?_
      cases set <;> exact .ok _
  refine hbase.bind fun base => ?_
  cases base with
  | none => exact .ok _
  | some base => exact .bind (acyclic_aggregate _ _) fun _ => .bind (acyclic_aggregate _ _) fun _ => .ok _

theorem acyclic_subtotal (stat : Stat N) {lower upper : Except (Fault N) (Option (Amount N))}
    (hlower : Acyclic lower) (hupper : Acyclic upper) : Acyclic (subtotal modifiers stat lower upper) := by
  have hsum : Acyclic (sum modifiers stat) :=
    (Acyclic.mapM (acyclic_sourceTotal modifiers stat) _).bind fun _ => .ok _
  refine hsum.bind fun sum => ?_
  cases sum with
  | none => exact .ok _
  | some sum =>
    dsimp only
    split
    · exact .ok _
    · exact hlower.bind fun _ => hupper.bind fun _ => .ok _

/-- Stats do not bound themselves, so no total is a cycle. -/
theorem acyclic_total : ∀ stat : Stat N, Acyclic (total modifiers stat)
  | ⟨key, minimum, maximum, valueType, listed, behaviors⟩ => by
    have hbound (bound : Option (Stat N)) (h : ∀ t, bound = some t → Acyclic (total modifiers t)) :
        Acyclic (optionalTotal modifiers bound) := by
      cases bound with
      | none => exact .ok _
      | some t => exact h t rfl
    have hmin := hbound minimum fun t ht => acyclic_total t
    have hmax := hbound maximum fun t ht => acyclic_total t
    refine .bind (acyclic_aggregate _ _) fun value => ?_
    cases value with
    | some value => exact .ok _
    | none => exact acyclic_subtotal modifiers _ hmin hmax

end Documented

end Faults

/-! ## Calculators that were updated once -/

section Paths

/-- One more modifier brings its source along, if it is one of the stat. -/
theorem Documented.sources_concat (modifiers : List (Modifier N)) (m : Modifier N) (stat : Stat N) :
    sources (modifiers ++ [m]) stat
      = if stat.key ∈ m.stats.map Stat.key ∧ m.source.source ∉ sources modifiers stat
        then sources modifiers stat ++ [m.source.source] else sources modifiers stat := by
  unfold sources
  simp only [List.mem_eraseDups]
  rw [List.filter_append, List.map_append]
  generalize (modifiers.filter fun m => stat.key ∈ m.stats.map Stat.key).map (·.source.source) = past
  by_cases hkey : stat.key ∈ m.stats.map Stat.key
  · by_cases hin : m.source.source ∈ past
    · rw [if_neg fun h => h.2 hin]
      simp [List.eraseDups_append, List.removeAll, hkey, hin, -List.mem_map]
    · rw [if_pos ⟨hkey, hin⟩]
      simp [List.eraseDups_append, List.eraseDups_cons, List.removeAll, hkey, hin, -List.mem_map]
  · rw [if_neg fun h => hkey h.1]
    simp [hkey, -List.mem_map]

theorem Documented.nodup_sources (modifiers : List (Modifier N)) (stat : Stat N) :
    (sources modifiers stat).Nodup := by
  induction modifiers using List.reverseRecOn with
  | nil => exact List.nodup_nil
  | append_singleton modifiers m ih =>
    rw [sources_concat]
    split
    · next h => exact ih.append (List.nodup_singleton _) (List.disjoint_singleton.mpr h.2)
    · exact ih

/-- The paths that modifiers bring along are those of their sources. -/
theorem pathsWith_eq_sources (modifiers : List (Modifier N)) (stat : Stat N) :
    pathsWith modifiers stat.key [] = (Documented.sources modifiers stat).map Path.ofSource := by
  induction modifiers using List.reverseRecOn with
  | nil => rfl
  | append_singleton modifiers m ih =>
    have hfold : pathsWith (modifiers ++ [m]) stat.key []
        = m.pathsWith (m.stats.map Stat.key) stat.key (pathsWith modifiers stat.key []) := by
      rw [pathsWith, List.foldl_concat]
      rfl
    have hmem : m.path ∈ (Documented.sources modifiers stat).map (Path.ofSource : Source → Path (Stat N))
        ↔ m.source.source ∈ Documented.sources modifiers stat :=
      List.mem_map_of_injective fun s s' h => congrArg Path.source h
    have hnot : m.path.isIn ((Documented.sources modifiers stat).map Path.ofSource) = false
        ↔ m.source.source ∉ Documented.sources modifiers stat := by
      rw [← hmem, ← isIn_iff rfl, Bool.not_eq_true]
    rw [hfold, ih, Modifier.pathsWith, Documented.sources_concat]
    simp only [hnot]
    split
    · rw [List.map_append]
      rfl
    · rfl

variable {r : Registry N} {sc : Regime N} {modifiers : List (Modifier N)}

/-- If the modifiers on file are the given ones, and the paths are among those that they bring along, then the
paths are just those. -/
theorem Registry.Counted.paths_eq_sources (hcounted : r.Counted) (ho : r.Orderly sc) (hsc : sc.Follows)
    (hmodifiers : r.inputs.modifiers = StatEngine.registered modifiers) {stat : Stat N}
    (hpaths : (r.paths stat.key).Sublist (pathsWith modifiers stat.key [])) :
    r.paths stat.key = (Documented.sources modifiers stat).map Path.ofSource := by
  rw [← pathsWith_eq_sources]
  refine hpaths.eq_of_length_le (List.Nodup.length_le_of_subset ?_ fun p hp => ?_)
  · rw [pathsWith_eq_sources]
    exact (Documented.nodup_sources _ _).map fun s s' h => congrArg Path.source h
  · rw [pathsWith_eq_sources] at hp
    obtain ⟨source, hsource, rfl⟩ := List.mem_map.mp hp
    obtain ⟨m, hm, rfl⟩ := List.mem_map.mp (List.mem_eraseDups.mp hsource)
    obtain ⟨hm, hkey⟩ := List.mem_filter.mp hm
    refine hcounted.mem_paths_of_busy ho hsc (List.any_eq_true.mpr ⟨m.form, ?_, ?_⟩)
    · cases m.form <;> decide
    · -- the modifier itself is there
      have hthere : m ∈ r.inputs.modifiers stat.key m.form m.path.key := by
        rw [hmodifiers]
        refine List.mem_flatMap.mpr ⟨m, hm, List.mem_replicate.mpr ⟨?_, rfl⟩⟩
        rw [Modifier.copies, if_pos ⟨rfl, rfl⟩]
        exact (List.count_pos_iff.mpr (of_decide_eq_true hkey)).ne'
      rw [Bool.not_eq_true', List.isEmpty_eq_false_iff]
      exact List.ne_nil_of_mem hthere

/-- So these are the paths that the registry tells of. -/
theorem Registry.Counted.inputs_paths (hcounted : r.Counted) (ho : r.Orderly sc) (hsc : sc.Follows)
    (hmodifiers : r.inputs.modifiers = StatEngine.registered modifiers) (stat : Stat N)
    (hpaths : (r.paths stat.key).Sublist (pathsWith modifiers stat.key [])) :
    r.inputs.paths stat.key
      = if Source.global ∈ Documented.sources modifiers stat
        then (Documented.sources modifiers stat).map Path.ofSource
        else (Documented.sources modifiers stat ++ [Source.global]).map Path.ofSource := by
  have hmain :
      Path.main.isIn ((Documented.sources modifiers stat).map (Path.ofSource : Source → Path (Stat N)))
      ↔ Source.global ∈ Documented.sources modifiers stat :=
    (isIn_iff rfl).trans (List.mem_map_of_injective fun s s' h => congrArg Path.source h)
  unfold Registry.inputs
  dsimp only
  rw [hcounted.paths_eq_sources ho hsc hmodifiers hpaths, List.map_append]
  simp only [hmain]
  rfl

end Paths

namespace Calculator

variable [Number N] {A σ : Type} {host : Host N A σ} {tell : A → σ → σ}

/-- A calculator that is new is given modifiers with constant values. Then the total of a stat is what is
documented, and so is the fault. Neither the stat nor the stats that bound it have behaviors, and those of
the other stats of the modifiers do not affect them. -/
theorem total_documented (hhost : host.Quiet tell) {sc : Scope N} {modifiers : List (Modifier N)}
    (hadmits : ∀ m ∈ modifiers, ∀ s ∈ m.stats, sc.Admits s)
    (hconstant : ∀ m ∈ modifiers, ∃ value, m.formula = .constant value) {stat : Stat N} (hs : stat ∈ sc.stats)
    (settings : Settings) (catalog : Option (Catalog N)) (state : σ) :
    ∃ fresh n', update host settings ⟨modifiers, []⟩ (start settings catalog state) = some (⟨⟩, fresh)
      ∧ (total host stat).run fresh = some (Documented.total modifiers stat, n') := by
  have hstart : (start settings catalog state : Network N A σ).Settled sc :=
    settled_start settings catalog state
  have hallows : ∀ m ∈ (⟨modifiers, []⟩ : Update N).added, sc.regime.Allows m := by
    intro m hm
    obtain ⟨value, hvalue⟩ := hconstant m hm
    have hreads : m.formula.ReadsTotals (· ∈ sc.stats) := hvalue ▸ .constant value
    exact Scope.Allows.regime ⟨hadmits m hm, hreads⟩
  obtain ⟨_, fresh, hfresh, hinv, hupdates⟩ :=
    (leads_update hhost hstart.inv hstart.idle hstart.calm settings hallows).exists_eq
  have hsettled : fresh.Settled sc := hstart.of_proceeds hinv hupdates.changes.toProceeds
  -- the modifiers are on file, and the paths are those of their sources
  have hmodifiers : fresh.registry.inputs.modifiers = registered modifiers := hupdates.modifiers [] rfl
  have hpaths (stat : Stat N) :=
    hinv.counted.inputs_paths hinv.orderly ⟨_, hs⟩ hmodifiers stat (hupdates.paths stat.key)
  obtain ⟨depth, hdepth⟩ := Inputs.computes_documented hmodifiers hconstant hpaths stat
  obtain ⟨n', hn'⟩ := hsettled.total_of_decided hhost hs (hdepth depth le_rfl)
    (Documented.acyclic_total modifiers stat)
  exact ⟨fresh, n', hfresh, hn'⟩

/-- The chance to block is increased, and is then more than it may be. -/
theorem total_bounded : ∃ (sc : Scope ℚ) (chance : Stat ℚ) (modifiers : List (Modifier ℚ)),
    chance ∈ sc.stats ∧ (∀ m ∈ modifiers, ∀ s ∈ m.stats, sc.Admits s)
      ∧ (∀ m ∈ modifiers, ∃ value, m.formula = .constant value)
      ∧ Documented.total modifiers chance = .ok (some (.single 75))
      ∧ ∃ fresh n' : Network ℚ Unit Unit,
        update Host.idle .standard ⟨modifiers, []⟩ (start .standard none ()) = some (⟨⟩, fresh)
        ∧ (total Host.idle chance).run fresh = some (Documented.total modifiers chance, n') := by
  let limit : Stat ℚ := ⟨⟨"BlockChance.Maximum", .character⟩, none, none, .double, true, []⟩
  let chance : Stat ℚ := ⟨⟨"BlockChance", .character⟩, none, some limit, .double, true, []⟩
  let sc : Scope ℚ :=
    { stats := [chance, limit]
      unique := by simp [chance, limit]
      minimum := by simp [chance, limit]
      maximum := by simp [chance, limit]
      plain := by simp [chance, limit] }
  let modifiers : List (Modifier ℚ) :=
    [⟨[limit], .baseSet, .constant (some (.single 75)), 0, ⟨.global, ""⟩⟩,
     ⟨[chance], .baseAdd, .constant (some (.single 60)), 1, ⟨.particular .given, ""⟩⟩,
     ⟨[chance], .increase, .constant (some (.single 50)), 2, ⟨.global, ""⟩⟩]
  have hchance : chance ∈ sc.stats := List.mem_cons_self
  have hadmits : ∀ m ∈ modifiers, ∀ s ∈ m.stats, sc.Admits s := by
    intro m hm s hs
    apply Scope.admits_of_mem
    simp only [modifiers, List.mem_cons, List.not_mem_nil, or_false] at hm
    rcases hm with rfl | rfl | rfl
    · exact List.mem_cons_of_mem _ hs
    · exact List.mem_singleton.mp hs ▸ hchance
    · exact List.mem_singleton.mp hs ▸ hchance
  have hconstant : ∀ m ∈ modifiers, ∃ value, m.formula = .constant value := by simp [modifiers]
  exact ⟨sc, chance, modifiers, hchance, hadmits, hconstant, by decide +kernel,
    total_documented Host.quiet_idle hadmits hconstant hchance .standard none ()⟩

/-- Conversions have values that are constants. Neither the stat that is converted nor any that bounds it has
a behavior, but those of the conversion affect it: what is converted is gone. -/
theorem total_of_converted : ¬ ∀ (sc : Scope ℚ) (stat : Stat ℚ) (modifiers : List (Modifier ℚ))
    (catalog : Catalog ℚ), stat ∈ sc.stats → (∀ m ∈ modifiers, ∃ value, m.formula = .constant value) →
    (∀ s ∈ sc.stats ++ modifiers.flatMap (·.stats), ∀ t ∈ sc.stats ++ modifiers.flatMap (·.stats),
      s.key = t.key → s = t) →
    ∃ fresh n' : Network ℚ Unit Unit,
      update Host.idle .standard ⟨modifiers, []⟩ (start .standard (some catalog) ()) = some (⟨⟩, fresh)
      ∧ (total Host.idle stat).run fresh = some (Documented.total modifiers stat, n') := by
  intro h
  let source : Stat ℚ := ⟨⟨"Physical", .character⟩, none, none, .double, true, []⟩
  let target : Stat ℚ := ⟨⟨"Fire", .character⟩, none, none, .double, true, []⟩
  let sc : Scope ℚ :=
    { stats := [source]
      unique := by simp
      minimum := by simp [source]
      maximum := by simp [source]
      plain := by simp [source] }
  let whole : Modifier ℚ := ⟨[source], .baseAdd, .constant (some (.single 100)), 0, ⟨.global, ""⟩⟩
  let half : Formula ℚ := .constant (some (.single 50))
  let made := (Catalog.conversionModifier source target half 1 ⟨.global, ""⟩).run .empty
  have hconstant : ∀ m ∈ [whole, made.1], ∃ value, m.formula = .constant value := by
    intro m hm
    rcases List.mem_cons.mp hm with rfl | hm
    · exact ⟨_, rfl⟩
    · exact List.mem_singleton.mp hm ▸ ⟨_, rfl⟩
  have hkeys : ((source :: made.1.stats).map Stat.key).Nodup := by decide +kernel
  have hunique : ∀ s ∈ [source] ++ [whole, made.1].flatMap (·.stats),
      ∀ t ∈ [source] ++ [whole, made.1].flatMap (·.stats), s.key = t.key → s = t := by
    have hsame {s : Stat ℚ} :
        s ∈ [source] ++ [whole, made.1].flatMap (·.stats) → s ∈ source :: made.1.stats := by simp [whole]
    exact fun s hs t ht hkey => List.inj_on_of_nodup_map hkeys (hsame hs) (hsame ht) hkey
  obtain ⟨fresh, n', hfresh, hn'⟩ :=
    h sc source [whole, made.1] made.2 (List.mem_singleton_self _) hconstant hunique
  have hdocumented : Documented.total [whole, made.1] source = .ok (some (.single 100)) := by decide +kernel
  have hread : ((update Host.idle .standard ⟨[whole, made.1], []⟩
      (start .standard (some made.2) () : Network ℚ Unit Unit)).bind fun r =>
        ((total Host.idle source).run r.2).map (·.1)) = some (.ok (some (.single 50))) := by decide +kernel
  rw [hfresh, Option.bind_some, hn', Option.map_some, hdocumented] at hread
  have hsame : (.ok (some (.single 100)) : Except (Fault ℚ) (Option (Amount ℚ))) = .ok (some (.single 50)) :=
    Option.some.inj hread
  exact absurd hsame (by decide +kernel)

end Calculator

end StatEngine
