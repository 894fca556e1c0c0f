import Mathlib.Data.List.Forall2
import Mathlib.Data.List.Perm.Basic
import Mathlib.Order.Basic
import StatEngine.Network.Growth
import StatEngine.Proofs.Inquiry

/-!
# The values that modifiers stand for

What a network computes depends on two things: which modifiers are registered on each path of each
stat, and in which order the paths of a stat appeared. `Inputs` are those two, and `Inputs.reference`
computes every formula from them alone, without a network: nothing is made, kept or announced. It looks
up to a given depth and is undecided below it, so circular wiring is undecided at every depth.

## Main definitions

* `Inputs.reference`: a formula on a path, computed to a given depth;
* `Inputs.Computes`: the outcome of a formula that some depth decides.

## Main statements

* `Inputs.reference_mono`: greater depths decide more, and nothing differently;
* `Inputs.Computes.of_busy`: values do not depend on the order of the paths, nor on paths without
  modifiers, if sums do not depend on the order of their terms.
-/

namespace StatEngine

open Network

/-- What the values of a network depend on. -/
structure Inputs (N : Type) where
  /-- The modifiers of a form on a path of a stat, in the order they were registered. -/
  modifiers : StatKey → Form → PathKey → List (Modifier N)
  /-- The paths of a stat, in the order they appeared. -/
  paths : StatKey → List (Path (Stat N))

variable {N : Type}

section Sums

namespace Amount

variable (f : Amount N → Amount N → Amount N)

theorem foldl_merge_some (values : List (Option (Amount N))) (a : Amount N) :
    values.foldl (Option.merge f) (some a) = some ((values.filterMap id).foldl f a) := by
  induction values generalizing a with
  | nil => rfl
  | cons value values ih =>
    cases value with
    | none => simpa using ih a
    | some b => simpa using ih (f a b)

/-- Combining amounts is merging them into nothing, one after another. -/
theorem combine_eq_foldl (values : List (Option (Amount N))) :
    combine f values = values.foldl (Option.merge f) none := by
  induction values with
  | nil => rfl
  | cons value values ih =>
    cases value with
    | none => simpa [combine] using ih
    | some a => simp [combine, foldl_merge_some]

variable {f}

theorem combine_perm [Std.Commutative f] [Std.Associative f]
    {values values' : List (Option (Amount N))} (h : values.Perm values') :
    combine f values = combine f values' := by
  rw [combine_eq_foldl, combine_eq_foldl, h.foldl_op_eq]

/-- What is absent does not contribute. -/
theorem combine_map_filter {S : Type} {value : S → Option (Amount N)} {present : S → Bool}
    (h : ∀ s, present s = false → value s = none) (l : List S) :
    combine f ((l.filter present).map value) = combine f (l.map value) := by
  have : ((l.filter present).map value).filterMap id = (l.map value).filterMap id := by
    induction l with
    | nil => rfl
    | cons s l ih => cases hs : present s <;> simp_all [List.filterMap_cons]
  rw [combine, combine, this]

instance {f : N → N → N} [Std.Commutative f] : Std.Commutative (zipWith f) where
  comm a b := by
    have hcomm : ∀ x y : N, f x y = f y x := Std.Commutative.comm
    simp only [zipWith, hcomm a.minimum, hcomm a.maximum]

instance {f : N → N → N} [Std.Associative f] : Std.Associative (zipWith f) where
  assoc a b c := by
    have hassoc : ∀ x y z : N, f (f x y) z = f x (f y z) := Std.Associative.assoc
    simp only [zipWith, hassoc]

variable [Number N]

instance [Std.Commutative (α := N) (· + ·)] : Std.Commutative (α := Amount N) (· + ·) :=
  inferInstanceAs (Std.Commutative (zipWith (· + ·)))

instance [Std.Associative (α := N) (· + ·)] : Std.Associative (α := Amount N) (· + ·) :=
  inferInstanceAs (Std.Associative (zipWith (· + ·)))

instance [Std.Commutative (α := N) (· * ·)] : Std.Commutative (α := Amount N) (· * ·) :=
  inferInstanceAs (Std.Commutative (zipWith (· * ·)))

instance [Std.Associative (α := N) (· * ·)] : Std.Associative (α := Amount N) (· * ·) :=
  inferInstanceAs (Std.Associative (zipWith (· * ·)))

end Amount

end Sums

section Deciding

variable {α β : Type}

theorem Approx.bind_ok {x : Reading N Option α} {f : α → Reading N Option β} {a : α}
    {result : Except (Fault N) β} (hx : Approx x.run (.ok a)) (hf : Approx (f a).run result) :
    Approx (x >>= f).run result := by
  rw [ExceptT.run_bind]
  match hrun : x.run with
  | none => exact .of_none rfl
  | some found =>
    rw [(hx found hrun).eq_of_ok]
    exact hf

theorem Approx.bind_error {x : Reading N Option α} {f : α → Reading N Option β} {fault : Fault N}
    (hx : Approx x.run (.error fault)) : Approx (x >>= f).run (.error fault) := by
  rw [ExceptT.run_bind]
  match hrun : x.run with
  | none => exact .of_none rfl
  | some found =>
    have hmatches := hx found hrun
    obtain ⟨fault', rfl⟩ := hmatches.exists_of_error
    exact fun c hc => Option.some.inj hc ▸ hmatches.of_error

theorem run_bind_eq_ok_iff {x : Reading N Option α} {f : α → Reading N Option β} {b : β} :
    (x >>= f).run = some (.ok b)
      ↔ ∃ a, x.run = some (.ok a) ∧ (f a).run = some (.ok b) := by
  rw [ExceptT.run_bind]
  match x.run with
  | none => simp
  | some (.error fault) => simp
  | some (.ok a) => simp

/-- Readings one after another succeed if each of them does. -/
theorem run_mapM_eq_ok_iff {f : α → Reading N Option β} {as : List α} {bs : List β} :
    (as.mapM f).run = some (.ok bs)
      ↔ List.Forall₂ (fun a b => (f a).run = some (.ok b)) as bs := by
  induction as generalizing bs with
  | nil =>
    rw [List.mapM_nil, List.forall₂_nil_left_iff, ExceptT.run_pure]
    exact ⟨fun h => by cases h; rfl, fun h => by rw [h]; rfl⟩
  | cons a as ih =>
    simp only [List.mapM_cons, run_bind_eq_ok_iff, ih, List.forall₂_cons_left_iff]
    constructor
    · rintro ⟨b, hb, bs', hbs, h⟩
      cases h
      exact ⟨b, bs', hb, hbs, rfl⟩
    · rintro ⟨b, bs', hb, hbs, rfl⟩
      exact ⟨b, hb, bs', hbs, rfl⟩

/-- What a reading that succeeds comes to. -/
def found (x : Reading N Option (Option α)) : Option α :=
  match x.run with
  | some (.ok v) => v
  | _ => none

theorem found_eq {x : Reading N Option (Option α)} {v : Option α} (h : x.run = some (.ok v)) :
    found x = v := by rw [found, h]

theorem run_mapM_eq_ok_iff_found {f : α → Reading N Option (Option β)} {as : List α}
    {bs : List (Option β)} :
    (as.mapM f).run = some (.ok bs)
      ↔ (∀ a ∈ as, (f a).run = some (.ok (found (f a)))) ∧ bs = as.map fun a => found (f a) := by
  rw [run_mapM_eq_ok_iff]
  constructor
  · intro h
    induction h with
    | nil => simp
    | cons hb _ ih =>
      obtain ⟨hall, rfl⟩ := ih
      refine ⟨List.forall_mem_cons.mpr ⟨by rw [found_eq hb, hb], hall⟩, ?_⟩
      rw [List.map_cons, found_eq hb]
  · rintro ⟨h, rfl⟩
    rw [List.forall₂_map_right_iff, List.forall₂_same]
    exact h

/-- Whatever a reading comes to, another one comes to as well. -/
def Refines (x y : Reading N Option α) : Prop := ∀ result, x.run = some result → y.run = some result

namespace Refines

theorem refl (x : Reading N Option α) : Refines x x := fun _ h => h

theorem bind {x y : Reading N Option α} {f g : α → Reading N Option β} (h : Refines x y)
    (hf : ∀ a, Refines (f a) (g a)) : Refines (x >>= f) (y >>= g) := by
  intro result hresult
  rw [ExceptT.run_bind] at hresult ⊢
  match hx : x.run with
  | none => simp [hx] at hresult
  | some (.error fault) =>
    rw [h _ hx]
    rw [hx] at hresult
    exact hresult
  | some (.ok a) =>
    rw [h _ hx]
    rw [hx] at hresult
    exact hf a result hresult

theorem mapM {f g : α → Reading N Option β} (h : ∀ a, Refines (f a) (g a)) (as : List α) :
    Refines (as.mapM f) (as.mapM g) := by
  induction as with
  | nil => exact refl _
  | cons a as ih =>
    rw [List.mapM_cons, List.mapM_cons]
    exact (h a).bind fun _ => ih.bind fun _ => refl _

/-- A lookup that finds more comes to the same outcomes. -/
theorem answeredBy {l l' : Lookup N Option} (h : ∀ query, Refines (l.answer query) (l'.answer query))
    (inquiry : Inquiry N (Except (Fault N) α)) :
    Refines (inquiry.answeredBy l) (inquiry.answeredBy l') := by
  induction inquiry with
  | done result => exact refl _
  | ask query next ih => exact (h query).bind ih

end Refines

end Deciding

namespace Inputs

variable [Number N] (inputs : Inputs N)

/-- What is looked up on a path, where `compute` is asked for values. Meta stats are not looked up. -/
def lookup (path : Path (Stat N))
    (compute : Formula N → Path (Stat N) → Reading N Option (Option (Amount N))) :
    Lookup N Option where
  path := path
  paths := fun stat => pure (inputs.paths stat.key)
  value := fun stat stage p => compute (.stage stat stage) (stagePath stage p)
  values := fun form places => do
    let perPlace ← places.mapM fun (stat, p) =>
      (inputs.modifiers stat.key form p.key).mapM fun m => compute m.formula m.path
    return perPlace.flatten
  derived := fun _ => ExceptT.mk none
  note := fun _ => pure ()

/-- A formula on a path, computed to a given depth. -/
def reference : Nat → Formula N → Path (Stat N) → Reading N Option (Option (Amount N))
  | 0, _, _ => ExceptT.mk none
  | depth + 1, formula, path => formula.eval (inputs.lookup path (reference depth))

/-- Some depth decides a formula on a path. -/
def Computes (formula : Formula N) (path : Path (Stat N))
    (result : Except (Fault N) (Option (Amount N))) : Prop :=
  ∃ depth, (inputs.reference depth formula path).run = some result

variable {inputs}

omit [Number N] in
theorem lookup_refines {path : Path (Stat N)}
    {f g : Formula N → Path (Stat N) → Reading N Option (Option (Amount N))}
    (h : ∀ formula p, Refines (f formula p) (g formula p)) (query : Query N) :
    Refines ((inputs.lookup path f).answer query) ((inputs.lookup path g).answer query) := by
  cases query with
  | value stat stage p => exact h _ _
  | values form places =>
    refine .bind (.mapM (fun place => ?_) places) fun _ => .refl _
    exact .mapM (fun (m : Modifier N) => h m.formula m.path) _
  | _ => exact .refl _

/-- Greater depths decide what lesser ones decide. -/
theorem reference_succ (depth : Nat) (formula : Formula N) (path : Path (Stat N)) :
    Refines (inputs.reference depth formula path) (inputs.reference (depth + 1) formula path) := by
  induction depth generalizing formula path with
  | zero => exact fun result h => by cases h
  | succ depth ih =>
    simp only [reference, formula.eval_eq_answeredBy]
    exact .answeredBy (lookup_refines ih) _

theorem reference_mono {depth depth' : Nat} (h : depth ≤ depth') (formula : Formula N)
    (path : Path (Stat N)) :
    Refines (inputs.reference depth formula path) (inputs.reference depth' formula path) := by
  induction h with
  | refl => exact .refl _
  | step _ ih => exact fun result hresult => reference_succ _ _ _ _ (ih result hresult)

/-- A formula is decided in one way. -/
theorem Computes.approx {formula : Formula N} {path : Path (Stat N)}
    {result : Except (Fault N) (Option (Amount N))} (h : inputs.Computes formula path result)
    (depth : Nat) : Approx (inputs.reference depth formula path).run result := by
  obtain ⟨decided, h⟩ := h
  intro other hother
  have h₁ := reference_mono (Nat.le_max_left decided depth) formula path _ h
  have h₂ := reference_mono (Nat.le_max_right decided depth) formula path _ hother
  rw [Option.some.inj (h₂.symm.trans h₁)]

/-! ## Paths without modifiers -/

/-- Whether some modifier is registered on a path of a stat. -/
def busy (inputs : Inputs N) (key : StatKey) (path : Path (Stat N)) : Bool :=
  Form.all.any fun form => !(inputs.modifiers key form path.key).isEmpty

omit [Number N] in
theorem modifiers_eq_nil {key : StatKey} {path : Path (Stat N)} (h : inputs.busy key path = false)
    (form : Form) : inputs.modifiers key form path.key = [] := by
  have := (List.any_eq_false.mp h) form (by cases form <;> decide)
  simpa using this

/-- A form without modifiers is absent, unless it applies from elsewhere. -/
theorem reference_form_idle {depth : Nat} {stat : Stat N} {form : Form} {path : Path (Stat N)}
    (hplaces : Stages.modifierPlaces stat form path = [(stat, path)])
    (h : inputs.busy stat.key path = false) :
    (inputs.reference (depth + 1) (.stage stat form.stage) path).run = some (.ok none) := by
  have hvalues : ((inputs.lookup path (inputs.reference depth)).values form [(stat, path)]).run
      = some (.ok []) := by
    simp only [lookup, List.mapM_cons, List.mapM_nil, modifiers_eq_nil h]
    rfl
  have hmeaning : Stages.meaning (m := Option) stat form.stage = Stages.aggregated stat form := by
    cases form <;> rfl
  rw [reference, Formula.eval, hmeaning, Stages.aggregated, ExceptT.run_bind]
  simp only [lookup, hplaces] at hvalues ⊢
  rw [hvalues]
  cases form <;> rfl

/-- A path without modifiers has no value. -/
theorem reference_pathTotal_idle {depth : Nat} {stat : Stat N} {path : Path (Stat N)}
    (h : inputs.busy stat.key path = false) :
    (inputs.reference (depth + 3) (.stage stat .pathTotal) path).run = some (.ok none) := by
  have idle (form : Form) (hplaces : Stages.modifierPlaces stat form path = [(stat, path)]) :
      (inputs.reference (depth + 1) (.stage stat form.stage) path).run = some (.ok none) :=
    reference_form_idle hplaces h
  have hoverride := idle .baseOverride rfl
  have hset := idle .baseSet rfl
  have hadd := idle .baseAdd rfl
  have hbase : (inputs.reference (depth + 2) (.stage stat .base) path).run = some (.ok none) := by
    rw [reference, Formula.eval, Stages.meaning, Stages.base]
    rw [run_bind_eq_ok_iff]
    refine ⟨none, hoverride, ?_⟩
    refine run_bind_eq_ok_iff.mpr ⟨none, hset, ?_⟩
    exact run_bind_eq_ok_iff.mpr ⟨none, hadd, rfl⟩
  rw [reference, Formula.eval, Stages.meaning, Stages.pathTotal]
  exact run_bind_eq_ok_iff.mpr ⟨none, hbase, rfl⟩

/-! ## The order of the paths -/

/-- The same modifiers, on the same paths in another order, paths without modifiers aside. -/
structure Reordered (inputs inputs' : Inputs N) : Prop where
  modifiers : inputs.modifiers = inputs'.modifiers
  paths : ∀ key, ((inputs.paths key).filter (inputs.busy key)).Perm
    ((inputs'.paths key).filter (inputs'.busy key))

/-- What a node may evaluate if modifiers read nothing but totals. -/
def Regular (formula : Formula N) : Prop :=
  (∃ stat stage, formula = .stage stat stage) ∨ formula.ReadsTotals fun _ => True

/-- A stage other than the sum over the paths does not ask for paths. -/
theorem asks_no_paths {stat : Stat N} {stage : Stage} (path : Path (Stat N))
    (h : stage ≠ .uncappedSubtotal) :
    (Stages.meaning stat stage (.asking path)).Asks (fun _ query => ∀ s, query ≠ .paths s)
      (fun _ _ _ _ => True) () := by
  cases stage with
  | total => exact Stages.asks_total (by simp) (by simp)
  | subtotal => exact Stages.asks_subtotal (fun _ => le_rfl) (by simp) (by simp) (by simp)
  | uncappedSubtotal => exact absurd rfl h
  | pathTotal => exact Stages.asks_pathTotal (fun _ => le_rfl) (by simp)
  | base => exact Stages.asks_base (fun _ => le_rfl) (by simp)
  | _ => exact Stages.asks_aggregated (fun _ => le_rfl) (by simp)

section Reordered

variable {inputs' : Inputs N} [Std.Commutative (α := N) (· + ·)] [Std.Associative (α := N) (· + ·)]

/-- The sum over the paths does not depend on their order. -/
theorem Reordered.reference_uncappedSubtotal (h : Reordered inputs inputs') {depth : Nat}
    {stat : Stat N} {path : Path (Stat N)} {v : Option (Amount N)}
    (hvalue : ∀ p v, (inputs.reference depth (.stage stat .pathTotal) p).run = some (.ok v) →
      (inputs'.reference (depth + 3) (.stage stat .pathTotal) p).run = some (.ok v))
    (hv : (inputs.reference (depth + 1) (.stage stat .uncappedSubtotal) path).run
      = some (.ok v)) :
    (inputs'.reference (depth + 1 + 3) (.stage stat .uncappedSubtotal) path).run
      = some (.ok v) := by
  have hbusy : inputs.busy stat.key = inputs'.busy stat.key := by
    funext p
    rw [busy, busy, h.modifiers]
  have hperm := h.paths stat.key
  rw [hbusy] at hperm
  let old := inputs.reference depth (.stage stat .pathTotal)
  let new := inputs'.reference (depth + 3) (.stage stat .pathTotal)
  have hidle (p : Path (Stat N)) (hp : inputs'.busy stat.key p = false) :
      (new p).run = some (.ok none) := reference_pathTotal_idle hp
  obtain ⟨vs, hvs, hsum⟩ := run_bind_eq_ok_iff.mp hv
  obtain rfl : Amount.sum vs = v := by cases hsum; rfl
  obtain ⟨hall, rfl⟩ : (∀ p ∈ inputs.paths stat.key, (old p).run = some (.ok (found (old p))))
      ∧ vs = (inputs.paths stat.key).map fun p => found (old p) :=
    run_mapM_eq_ok_iff_found.mp hvs
  have hnew : ∀ p ∈ inputs.paths stat.key, (new p).run = some (.ok (found (old p))) :=
    fun p hp => hvalue p _ (hall p hp)
  have hfound : (inputs.paths stat.key).map (fun p => found (old p))
      = (inputs.paths stat.key).map fun p => found (new p) :=
    List.map_congr_left fun p hp => (found_eq (hnew p hp)).symm
  refine run_bind_eq_ok_iff.mpr ⟨(inputs'.paths stat.key).map fun p => found (new p), ?_, ?_⟩
  · change ((inputs'.paths stat.key).mapM new).run = _
    refine run_mapM_eq_ok_iff_found.mpr ⟨fun p hp => ?_, rfl⟩
    cases hp' : inputs'.busy stat.key p with
    | false => rw [found_eq (hidle p hp'), hidle p hp']
    | true =>
      have hmem : p ∈ inputs.paths stat.key :=
        (List.mem_filter.mp (hperm.mem_iff.mpr (List.mem_filter.mpr ⟨hp, hp'⟩))).1
      rw [found_eq (hnew p hmem), hnew p hmem]
  · -- the paths that contribute are the same ones
    have habsent : ∀ p, inputs'.busy stat.key p = false → found (new p) = none :=
      fun p hp => found_eq (hidle p hp)
    have hsum : Amount.sum ((inputs'.paths stat.key).map fun p => found (new p))
        = Amount.sum ((inputs.paths stat.key).map fun p => found (new p)) := by
      rw [Amount.sum, Amount.sum, ← Amount.combine_map_filter habsent (inputs'.paths stat.key),
        ← Amount.combine_map_filter habsent (inputs.paths stat.key),
        Amount.combine_perm (hperm.symm.map _)]
    rw [hfound, hsum]
    rfl

/-- Whatever succeeds does so with the paths in another order, to the same value. -/
theorem Reordered.reference_eq (h : Reordered inputs inputs')
    (htotals : ∀ key form p, ∀ m ∈ inputs.modifiers key form p,
      m.formula.ReadsTotals fun _ => True) {depth : Nat} :
    ∀ {formula : Formula N} {path : Path (Stat N)} {v : Option (Amount N)}, Regular formula →
      (inputs.reference depth formula path).run = some (.ok v) →
      (inputs'.reference (depth + 3) formula path).run = some (.ok v) := by
  induction depth with
  | zero => exact fun _ hv => by cases hv
  | succ depth ih =>
    intro formula path v hregular hv
    -- what is looked up one level below is found in both orders, except for the paths themselves
    have hlookup (query : Query N) (hquery : ∀ s, query ≠ .paths s) (reply : query.Reply)
        (hreply : ((inputs.lookup path (inputs.reference depth)).answer query).run
          = some (.ok reply)) :
        ((inputs'.lookup path (inputs'.reference (depth + 3))).answer query).run
          = some (.ok reply) := by
      cases query with
      | paths stat => exact absurd rfl (hquery stat)
      | value stat stage p => exact ih (.inl ⟨stat, stage, rfl⟩) hreply
      | values form places =>
        obtain ⟨perPlace, hperPlace, hflat⟩ := run_bind_eq_ok_iff.mp hreply
        refine run_bind_eq_ok_iff.mpr ⟨perPlace, ?_, hflat⟩
        rw [run_mapM_eq_ok_iff] at hperPlace ⊢
        refine hperPlace.imp fun place values hvalues => ?_
        rw [← h.modifiers]
        rw [run_mapM_eq_ok_iff_found] at hvalues ⊢
        obtain ⟨hall, rfl⟩ := hvalues
        have hnew (m : Modifier N) (hm : m ∈ inputs.modifiers place.1.key form place.2.key) :=
          ih (.inr (htotals _ _ _ m hm)) (hall m hm)
        refine ⟨fun m hm => ?_, List.map_congr_left fun m hm => (found_eq (hnew m hm)).symm⟩
        rw [found_eq (hnew m hm)]
        exact hnew m hm
      | derived request => cases hreply
      | note text => exact hreply
    have general (hasks : (formula.inquiry path).Asks (fun _ query => ∀ s, query ≠ .paths s)
        (fun _ _ _ _ => True) ()) :
        (inputs'.reference (depth + 1 + 3) formula path).run = some (.ok v) := by
      rw [reference, formula.eval_eq_answeredBy] at hv ⊢
      exact hasks.answeredBy_eq hlookup hv
    obtain ⟨stat, stage, rfl⟩ | htotal := hregular
    · by_cases hstage : stage = .uncappedSubtotal
      · subst hstage
        exact h.reference_uncappedSubtotal (fun p v => ih (.inl ⟨stat, .pathTotal, rfl⟩)) hv
      · exact general (asks_no_paths path hstage)
    · exact general (htotal.asks path (fun _ => le_rfl) (by simp) ())

end Reordered

end Inputs

end StatEngine
