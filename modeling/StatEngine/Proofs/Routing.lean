import Mathlib.Algebra.BigOperators.Group.Finset.Piecewise
import StatEngine.Behavior.Effect
import StatEngine.Proofs.Bounds

/-!
# Regeneration that is routed to pools

The regeneration of a pool goes to the pool that its target names, or to itself. A pool so has the regeneration
of all pools that are routed to it: the paths of all of them, each once, and on each path the sum of what they
have there. Since every pool is routed to just one pool, every path total counts for just one pool, however the
pools share their paths and wherever they are routed.

## Main definitions

* `Paths.Regeneration`: what a context answers about the regeneration of all pools;
* `Paths.Regeneration.routed`: the regeneration of a pool after routing.

## Main statements

* `Paths.Regeneration.numberAt_routed`: a pool has the regeneration of the pools that are routed to it;
* `Paths.Regeneration.routed_total`: in all, routing keeps what there is to regenerate.
-/

namespace StatEngine

open Amount

theorem Pool.nodup_all : Pool.all.Nodup := by decide

theorem Pool.mem_all (pool : Pool) : pool ∈ Pool.all := by
  cases pool <;> decide

namespace Paths

/-! ## Paths of several stats -/

/-- The paths of several lists, each of them once. -/
def unions (lists : List (List (Path (Stat ℚ)))) : List (Path (Stat ℚ)) := lists.foldl union []

theorem mem_keys_unions {lists : List (List (Path (Stat ℚ)))} {key : PathKey} :
    key ∈ (unions lists).map Path.key ↔ ∃ paths ∈ lists, key ∈ paths.map Path.key := by
  induction lists using List.reverseRecOn with
  | nil => simp [unions]
  | append_singleton lists paths ih =>
    have hunions : unions (lists ++ [paths]) = union (unions lists) paths := List.foldl_append
    simp only [hunions, mem_keys_union, ih, List.mem_append, List.mem_singleton, or_and_right, exists_or,
      exists_eq_left]

theorem nodup_keys_unions (lists : List (List (Path (Stat ℚ)))) :
    ((unions lists).map Path.key).Nodup := by
  induction lists using List.reverseRecOn with
  | nil => exact List.nodup_nil
  | append_singleton lists paths ih =>
    have hunions : unions (lists ++ [paths]) = union (unions lists) paths := List.foldl_append
    rw [hunions]
    exact nodup_keys_union ih

/-! ## What a context answers -/

variable {m : Type → Type} [Monad m] {l : Lookup ℚ m} {entity : Entity}

/-- What a context answers about the regeneration of all pools of an entity. No stat has a path twice, and the
value of a path is told by its identity. -/
structure Regeneration (l : Lookup ℚ m) (entity : Entity) where
  /-- The stat of the regeneration of a pool. -/
  regen : Pool → Stat ℚ
  /-- The total of the target of a pool. -/
  target : Pool → Option (Amount ℚ)
  /-- The paths of the regeneration of a pool. -/
  paths : Pool → List (Path (Stat ℚ))
  /-- The path totals of the regeneration of a pool. -/
  total : Pool → PathKey → Option (Amount ℚ)
  read_regen : ∀ pool, l.derived (.regen entity pool) = pure (regen pool)
  read_target : ∀ pool, l.derivedTotal (.regenTarget entity pool) = pure (target pool)
  read_paths : ∀ pool, l.paths (regen pool) = pure (paths pool)
  read_total : ∀ pool path, path.isIn (paths pool) →
    l.value (regen pool) .pathTotal path = pure (total pool path.key)
  paths_nodup : ∀ pool, ((paths pool).map Path.key).Nodup

namespace Regeneration

variable (r : Regeneration l entity)

/-- The pool that a pool is routed to. -/
def route (pool : Pool) : Pool := (selectedPool? (r.target pool)).getD pool

/-- The pools that are routed to a pool. -/
def sources (pool : Pool) : List Pool := Pool.all.filter (r.route · = pool)

/-- The paths of the regeneration of a pool after routing. -/
def routedPaths (pool : Pool) : List (Path (Stat ℚ)) := unions ((r.sources pool).map r.paths)

/-- The values on a path of the pools that are routed to a pool and have the path. -/
def valuesOn (pool : Pool) (path : Path (Stat ℚ)) : List (Option (Amount ℚ)) :=
  ((r.sources pool).filter (path.isIn <| r.paths ·)).map (r.total · path.key)

/-- The regeneration of a pool after routing. -/
def routed (pool : Pool) : Option (Amount ℚ) :=
  Amount.sum ((r.routedPaths pool).map fun path => Amount.sum (r.valuesOn pool path))

/-- What the path totals of the regeneration of a pool come to at a bound. -/
def own (i : Bound) (pool : Pool) : ℚ :=
  ((r.paths pool).map fun path => numberAt i (r.total pool path.key)).sum

/-! ### What is computed under the effect -/

/-- A fold that appends what is made of some elements. -/
theorem foldl_append_ite {α β : Type} (p : α → Bool) (f : α → β) (xs : List α) (start : List β) :
    xs.foldl (fun found x => if p x then found ++ [f x] else found) start
      = start ++ (xs.filter p).map f := by
  induction xs generalizing start with
  | nil => simp
  | cons x xs ih =>
    rw [List.foldl_cons, ih]
    cases hx : p x <;> simp [hx]

variable [LawfulMonad m]

/-- The stats that contribute to a pool are those of the pools that are routed to it. -/
theorem contributing_eq (pool : Pool) :
    contributing l entity pool = pure ((r.sources pool).map r.regen) := by
  have hstep : ∀ p ∈ Pool.all, ∀ found : List (Stat ℚ), (do
      let target := (selectedPool? (← l.derivedTotal (.regenTarget entity p))).getD p
      if target = pool then return found ++ [← l.derived (.regen entity p)] else return found)
      = (pure (if r.route p = pool then found ++ [r.regen p] else found) : Reading ℚ m _) := by
    intro p _ found
    rw [r.read_target, pure_bind, r.read_regen, pure_bind]
    exact (apply_ite pure _ _ _).symm
  have hfold := foldl_append_ite (r.route · = pool) r.regen Pool.all []
  simp only [decide_eq_true_eq, List.nil_append] at hfold
  rw [contributing, foldlM_eq_pure hstep, hfold, sources]

omit [LawfulMonad m] in
/-- What a formula looks up under the effect on a pool. -/
def seen (r : Regeneration l entity) (pool : Pool) : Lookup ℚ m :=
  { l with
    paths := fun stat => do
      if stat.key != (r.regen pool).key then l.paths stat
      else (r.sources pool).foldlM (fun known p => return union known (← l.paths (r.regen p))) []
    value := fun stat stage path => do
      if stat.key != (r.regen pool).key || stage != .pathTotal then l.value stat stage path
      else
        let values ← (r.sources pool).foldlM (fun values p => do
          if path.isIn (← l.paths (r.regen p)) then
            return values ++ [← l.value (r.regen p) .pathTotal path]
          else return values) []
        return Amount.sum values }

/-- Every formula is computed from what is seen under the effect. -/
theorem apply_eq (pool : Pool) (inner : Meaning ℚ m) :
    (Effect.routedRegeneration entity pool).apply inner l = inner (r.seen pool) := by
  change Paths.routed entity pool inner l = _
  rw [Paths.routed, r.read_regen, pure_bind, r.contributing_eq, pure_bind]
  simp only [List.foldlM_map]
  rfl

theorem seen_paths (pool : Pool) : (r.seen pool).paths (r.regen pool) = pure (r.routedPaths pool) := by
  have hstep : ∀ p ∈ r.sources pool, ∀ known : List (Path (Stat ℚ)),
      (do return union known (← l.paths (r.regen p)))
        = (pure (union known (r.paths p)) : Reading ℚ m _) := by
    intro p _ known
    rw [r.read_paths, pure_bind]
  simp only [seen, bne_self_eq_false, Bool.false_eq_true, if_false]
  rw [foldlM_eq_pure hstep, routedPaths, unions, List.foldl_map]

theorem seen_value (pool : Pool) (path : Path (Stat ℚ)) :
    (r.seen pool).value (r.regen pool) .pathTotal path = pure (Amount.sum (r.valuesOn pool path)) := by
  have hstep : ∀ p ∈ r.sources pool, ∀ values : List (Option (Amount ℚ)), (do
      if path.isIn (← l.paths (r.regen p)) then
        return values ++ [← l.value (r.regen p) .pathTotal path]
      else return values)
      = (pure (if path.isIn (r.paths p) then values ++ [r.total p path.key] else values) :
        Reading ℚ m _) := by
    intro p _ values
    rw [r.read_paths, pure_bind]
    split_ifs with hpath
    · rw [r.read_total p path hpath, pure_bind]
    · rfl
  have hfold := foldl_append_ite (path.isIn <| r.paths ·) (r.total · path.key) (r.sources pool) []
  simp only [seen, bne_self_eq_false, Bool.or_self, Bool.false_eq_true, if_false]
  rw [foldlM_eq_pure hstep, pure_bind, hfold, List.nil_append, valuesOn]

/-- The regeneration of a pool under the effect. -/
theorem apply_uncappedSubtotal (pool : Pool) :
    (Effect.routedRegeneration entity pool).apply (Stages.meaning (r.regen pool) .uncappedSubtotal) l
      = pure (r.routed pool) := by
  rw [r.apply_eq]
  exact Stages.uncappedSubtotal_eq (r.seen_paths pool) fun path _ => r.seen_value pool path

/-! ### What the pools regenerate -/

omit [LawfulMonad m] in
/-- Summing over all paths what a pool has on each, where it has it, is summing over its own paths. -/
theorem sum_ite_mem_keys {paths all : List (Path (Stat ℚ))} (hpaths : (paths.map Path.key).Nodup)
    (hall : (all.map Path.key).Nodup) (hsub : paths.map Path.key ⊆ all.map Path.key) (f : PathKey → ℚ) :
    (all.map fun path => if path.isIn paths then f path.key else 0).sum
      = (paths.map fun path => f path.key).sum := by
  have hsubset : (paths.map Path.key).toFinset ⊆ (all.map Path.key).toFinset := fun key hkey =>
    List.mem_toFinset.mpr (hsub (List.mem_toFinset.mp hkey))
  calc (all.map fun path => if path.isIn paths then f path.key else 0).sum
    _ = ((all.map Path.key).map fun key => if key ∈ paths.map Path.key then f key else 0).sum := by
        rw [List.map_map]
        refine congrArg List.sum (List.map_congr_left fun path _ => ?_)
        exact if_congr isIn_iff_key rfl rfl
    _ = ∑ key ∈ (all.map Path.key).toFinset, if key ∈ (paths.map Path.key).toFinset then f key else 0 := by
        rw [List.sum_toFinset _ hall]
        simp only [List.mem_toFinset]
    _ = ∑ key ∈ (paths.map Path.key).toFinset, f key := by
        rw [Finset.sum_ite_mem, Finset.inter_eq_right.mpr hsubset]
    _ = (paths.map fun path => f path.key).sum := by
        rw [List.sum_toFinset _ hpaths, List.map_map]
        rfl

omit [LawfulMonad m] in
/-- What a pool regenerates after routing comes from the pools that are routed to it. -/
theorem numberAt_routed (i : Bound) (pool : Pool) :
    numberAt i (r.routed pool) = ((r.sources pool).map (r.own i)).sum := by
  have hvalue (path : Path (Stat ℚ)) : numberAt i (Amount.sum (r.valuesOn pool path))
      = ((r.sources pool).map fun p =>
          if path.isIn (r.paths p) then numberAt i (r.total p path.key) else 0).sum := by
    rw [List.sum_map_ite, List.sum_map_zero, add_zero, numberAt_sum, valuesOn, List.map_map]
    simp only [Bool.decide_eq_true, Function.comp_def]
  have hown {p : Pool} (hp : p ∈ r.sources pool) : ((r.routedPaths pool).map fun path =>
      if path.isIn (r.paths p) then numberAt i (r.total p path.key) else 0).sum = r.own i p := by
    refine sum_ite_mem_keys (r.paths_nodup p) (nodup_keys_unions _) (fun key hkey => ?_) fun key =>
      numberAt i (r.total p key)
    exact mem_keys_unions.mpr ⟨r.paths p, List.mem_map_of_mem hp, hkey⟩
  calc numberAt i (r.routed pool)
    _ = ((r.routedPaths pool).map fun path => ((r.sources pool).map fun p =>
          if path.isIn (r.paths p) then numberAt i (r.total p path.key) else 0).sum).sum := by
        rw [routed, numberAt_sum, List.map_map]
        exact congrArg List.sum (List.map_congr_left fun path _ => hvalue path)
    _ = ((r.sources pool).map fun p => ((r.routedPaths pool).map fun path =>
          if path.isIn (r.paths p) then numberAt i (r.total p path.key) else 0).sum).sum := by
        exact Multiset.sum_map_sum_map (Multiset.ofList (r.routedPaths pool)) (Multiset.ofList (r.sources pool))
    _ = ((r.sources pool).map (r.own i)).sum :=
        congrArg List.sum (List.map_congr_left fun p hp => hown hp)

omit [LawfulMonad m] in
/-- Every pool is routed to one pool. -/
theorem sum_sources (f : Pool → ℚ) :
    (Pool.all.map fun pool => ((r.sources pool).map f).sum).sum = (Pool.all.map f).sum := by
  have hsources (pool : Pool) : ((r.sources pool).map f).sum
      = ∑ p ∈ Pool.all.toFinset with r.route p = pool, f p := by
    rw [sources, ← List.sum_toFinset _ (Pool.nodup_all.filter _), List.toFinset_filter]
    simp only [decide_eq_true_eq]
  simp only [hsources]
  rw [← List.sum_toFinset _ Pool.nodup_all, ← List.sum_toFinset _ Pool.nodup_all]
  exact Finset.sum_fiberwise_of_maps_to (fun p _ => List.mem_toFinset.mpr (Pool.mem_all _)) f

/-- Under the effects on all pools the regeneration of each pool can be computed. It comes to what the pools
that are routed to the pool have on their paths, each pool being routed to one pool; and that of all pools comes
to what all pools have on their paths. -/
theorem routed_total (r : Regeneration l entity) :
    (∀ pool, (Effect.routedRegeneration entity pool).apply
        (Stages.meaning (r.regen pool) .uncappedSubtotal) l = pure (r.routed pool))
      ∧ ∀ i, (∀ pool, numberAt i (r.routed pool)
          = ((Pool.all.filter (r.route · = pool)).map fun p =>
              ((r.paths p).map fun path => numberAt i (r.total p path.key)).sum).sum)
        ∧ (Pool.all.map fun pool => numberAt i (r.routed pool)).sum
          = (Pool.all.map fun pool => ((r.paths pool).map fun path =>
              numberAt i (r.total pool path.key)).sum).sum := by
  refine ⟨r.apply_uncappedSubtotal, fun i => ⟨r.numberAt_routed i, ?_⟩⟩
  simp only [numberAt_routed]
  exact r.sum_sources (r.own i)

end Regeneration

/-- A kind of number for each pool, by which the stats of `inCircles` tell the pools. -/
def mark : Pool → ValueType
  | .life => .double
  | .mana => .integer
  | .energyShield => .boolean

/-- The path totals of `inCircles`, the same on both paths. -/
def markedTotal : ValueType → Amount ℚ
  | .double => ⟨1, 2⟩
  | .integer => ⟨3, 5⟩
  | .boolean => ⟨-4, 1 / 2⟩

/-- The targets of `inCircles`. -/
def markedTarget : ValueType → Option (Amount ℚ)
  | .double => some (.single 1)
  | .integer => some ⟨-1, 5 / 4⟩
  | .boolean => some (.single 7)

/-- A context in which the pools share two paths. Life and mana are routed to each other, mana by a range, and the
energy shield to itself by a number that is out of range. -/
def inCircles : Lookup ℚ Id where
  path := .main
  paths _ := pure [.main, .ofSource .ailment]
  value stat stage _ := pure <|
    match stage with
    | .pathTotal => some (markedTotal stat.valueType)
    | _ => markedTarget stat.valueType
  values _ _ := pure []
  derived request := pure
    { Stat.plain request.key with
      valueType := match request with
        | .regen _ pool | .regenTarget _ pool => mark pool
        | _ => .double }
  note _ := ()

/-- What is regenerated in this context. -/
def regenerationInCircles : Regeneration inCircles .character where
  regen pool := { Stat.plain (MetaStat.regen (N := ℚ) .character pool).key with valueType := mark pool }
  target pool := markedTarget (mark pool)
  paths _ := [.main, .ofSource .ailment]
  total pool _ := some (markedTotal (mark pool))
  read_regen _ := rfl
  read_target _ := rfl
  read_paths _ := rfl
  read_total _ _ _ := rfl
  paths_nodup _ := by decide

/-- Mana has what life has on both paths, and nothing is lost in all. -/
theorem routed_total_inCircles : numberAt .upper (regenerationInCircles.routed .mana) = 4
    ∧ (Pool.all.map fun pool => numberAt .upper (regenerationInCircles.routed pool)).sum = 15 := by
  obtain ⟨-, hrouted⟩ := regenerationInCircles.routed_total
  obtain ⟨hpool, htotal⟩ := hrouted .upper
  refine ⟨(hpool .mana).trans ?_, htotal.trans ?_⟩
  · decide +kernel
  · decide +kernel

end Paths

end StatEngine
