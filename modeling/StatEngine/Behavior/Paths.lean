import StatEngine.Formula.Evaluation

/-!
# Behaviors that choose among paths

A requirement is the highest of its path totals. The regeneration of a pool is that of all pools which
are routed to it.
-/

namespace StatEngine.Paths

variable {N : Type} [Number N] {m : Type → Type} [Monad m]

/-- The path with the highest path total so far, and that total. -/
abbrev Leader (N : Type) := Option (Path (Stat N) × Amount N)

/-- The leader after one more path with its path total. The first of equals stays. -/
def Leader.next (leader : Leader N) (path : Path (Stat N)) (value : Option (Amount N)) : Leader N :=
  match value, leader with
  | none, _ => leader
  | some value, none => some (path, value)
  | some value, some (_, best) => if value.maximum > best.maximum then some (path, value) else leader

/-- A stat has only the path with the highest total, and none if no path has a total. -/
def onlyHighest (key : StatKey) (inner : Meaning N m) : Meaning N m := fun l =>
  inner { l with
    paths := fun stat => do
      let paths ← l.paths stat
      if stat.key != key then return paths
      let leader ← paths.foldlM (fun (leader : Leader N) path => do
        return leader.next path (← l.value stat .pathTotal path)) none
      return (leader.map (·.1)).toList }

/-- The pool that a value selects. -/
def selectedPool? (value : Option (Amount N)) : Option Pool := do
  Pool.all[← Number.index (← value).midpoint]?

/-- The regeneration stats of the pools that are routed to `pool`. A pool without a valid target is
routed to itself. -/
def contributing (l : Lookup N m) (entity : Entity) (pool : Pool) : Reading N m (List (Stat N)) :=
  Pool.all.foldlM (fun found p => do
    let target := (selectedPool? (← l.derivedTotal (.regenTarget entity p))).getD p
    if target = pool then return found ++ [← l.derived (.regen entity p)] else return found) []

/-- The paths of both lists, each of them once. -/
def union (known more : List (Path (Stat N))) : List (Path (Stat N)) :=
  more.foldl (fun known path => if path.isIn known then known else known ++ [path]) known

section Union

variable {N : Type} {known more : List (Path (Stat N))}

theorem prefix_union (known more : List (Path (Stat N))) : known <+: union known more := by
  unfold union
  induction more generalizing known with
  | nil => exact List.prefix_rfl
  | cons path more ih =>
    refine List.IsPrefix.trans ?_ (ih _)
    dsimp only
    split
    · exact List.prefix_rfl
    · exact List.prefix_append _ _

theorem mem_of_mem_union {path : Path (Stat N)} (h : path ∈ union known more) : path ∈ known ∨ path ∈ more := by
  unfold union at h
  induction more generalizing known with
  | nil => exact .inl h
  | cons first more ih =>
    have hrest := ih h
    dsimp only at hrest
    split at hrest
    · exact hrest.imp_right (List.mem_cons_of_mem first)
    · rw [List.mem_append, List.mem_singleton, or_assoc] at hrest
      exact hrest.imp_right List.mem_cons.mpr

theorem mem_keys_union {key : PathKey} : key ∈ (union known more).map Path.key
    ↔ key ∈ known.map Path.key ∨ key ∈ more.map Path.key := by
  unfold union
  induction more generalizing known with
  | nil => simp
  | cons path more ih =>
    rw [List.foldl_cons, ih, List.map_cons, List.mem_cons]
    split
    · next hknown =>
      have hpath : path.key ∈ known.map Path.key := isIn_iff_key.mp hknown
      constructor
      · exact Or.imp_right .inr
      · rintro (h | rfl | h)
        · exact .inl h
        · exact .inl hpath
        · exact .inr h
    · rw [List.map_append, List.mem_append, List.map_singleton, List.mem_singleton, or_assoc]

/-- No path is joined twice. -/
theorem nodup_keys_union (hknown : (known.map Path.key).Nodup) :
    ((union known more).map Path.key).Nodup := by
  unfold union
  induction more generalizing known with
  | nil => exact hknown
  | cons path more ih =>
    rw [List.foldl_cons]
    refine ih ?_
    split
    · exact hknown
    · next hpath =>
      rw [List.map_append, List.map_singleton]
      refine List.nodup_append.mpr ⟨hknown, by simp, fun a ha b hb hab => ?_⟩
      rw [List.mem_singleton.mp hb] at hab
      exact hpath (isIn_iff_key.mpr (hab ▸ ha))

end Union

/-- The regeneration of a pool has the paths of all pools routed to it, each with the sum of their
path totals. -/
def routed (entity : Entity) (pool : Pool) (inner : Meaning N m) : Meaning N m := fun l => do
  let regen ← l.derived (.regen entity pool)
  let sources ← contributing l entity pool
  inner { l with
    paths := fun stat => do
      if stat.key != regen.key then l.paths stat
      else sources.foldlM (fun known source => return union known (← l.paths source)) []
    value := fun stat stage path => do
      if stat.key != regen.key || stage != .pathTotal then l.value stat stage path
      else
        let values ← sources.foldlM (fun values source => do
          if path.isIn (← l.paths source) then
            return values ++ [← l.value source .pathTotal path]
          else return values) []
        return Amount.sum values }

end StatEngine.Paths
