import Mathlib.Data.List.Induction
import StatEngine.Behavior.Effect
import StatEngine.Number.Exact

/-!
# Paths that come from several sources

Each source that is converted to a target gives it a copy of its paths. The transformations that do so are
stacked, and each falls back on the next one outside of it, so the list of the target grows from the outermost
one inwards: the first source to join is the one that was installed last. In whatever order they are installed,
the target ends up with its own paths, in their order, followed by those of the sources, and no path twice. That
holds too if the list has some of the converted paths already, which is so from the second evaluation on.

What a lookup answers may depend on what was looked up before. The paths of a source are those it has after its
subtotal was computed.

## Main definitions

* `Conversion.Answering`: a context in which what the conversions ask for ends in no fault;
* `Conversion.joined`: the paths of a target after its sources have joined;
* `Conversion.JoinedOnce`: a list has its own paths first and the paths of all sources, each of them once.

## Main statements

* `Conversion.joinedOnce`: that is what joining gives;
* `Conversion.paths_once`: the formula below the stacked transformations sees the joined paths of the target, and
  everything else as it was.
-/

namespace StatEngine.Conversion

variable {N : Type}

/-! ## Joining -/

section Joining

variable {own : List (Path (Stat N))} {found : List (Stat N × List (Path (Stat N)))}

/-- The paths of a target after its sources have joined with theirs, one after the other. -/
def joined (own : List (Path (Stat N))) (found : List (Stat N × List (Path (Stat N)))) : List (Path (Stat N)) :=
  found.foldl (fun known source => joinPaths source.1 known source.2) own

/-- A list has its own paths first and the paths of all sources as seen from the target, no path twice, and no
other path. -/
structure JoinedOnce (own : List (Path (Stat N))) (found : List (Stat N × List (Path (Stat N))))
    (paths : List (Path (Stat N))) : Prop where
  own_first : own <+: paths
  nodup : (paths.map Path.key).Nodup
  complete : ∀ source ∈ found, ∀ path ∈ source.2, (path.extend source.1).isIn paths
  nothing_else : ∀ path ∈ paths,
    path ∈ own ∨ ∃ source ∈ found, ∃ before ∈ source.2, path = before.extend source.1

/-- The paths of a source join as seen from the target. -/
theorem joinPaths_eq_union (source : Stat N) (own sources : List (Path (Stat N))) :
    joinPaths source own sources = Paths.union own (sources.map (·.extend source)) := by
  rw [Paths.union, List.foldl_map]
  rfl

theorem JoinedOnce.start (hown : (own.map Path.key).Nodup) : JoinedOnce own [] own where
  own_first := List.prefix_rfl
  nodup := hown
  complete := fun _ h => absurd h List.not_mem_nil
  nothing_else := fun _ => .inl

theorem JoinedOnce.join {paths : List (Path (Stat N))} (h : JoinedOnce own found paths) (source : Stat N)
    (more : List (Path (Stat N))) : JoinedOnce own (found ++ [(source, more)]) (joinPaths source paths more) := by
  rw [joinPaths_eq_union]
  refine ⟨h.own_first.trans (Paths.prefix_union _ _), Paths.nodup_keys_union h.nodup, ?_, ?_⟩
  · intro entry hentry path hpath
    refine isIn_iff_key.mpr (Paths.mem_keys_union.mpr ?_)
    rcases List.mem_append.mp hentry with hbefore | hlast
    · -- what was there is kept
      exact .inl (isIn_iff_key.mp (h.complete entry hbefore path hpath))
    · obtain rfl := List.mem_singleton.mp hlast
      exact .inr (List.mem_map_of_mem (List.mem_map_of_mem hpath))
  · intro path hpath
    rcases Paths.mem_of_mem_union hpath with hbefore | hmore
    · refine (h.nothing_else path hbefore).imp_right ?_
      rintro ⟨entry, hentry, hrest⟩
      exact ⟨entry, List.mem_append_left _ hentry, hrest⟩
    · obtain ⟨before, hbefore, rfl⟩ := List.mem_map.mp hmore
      exact .inr ⟨(source, more), List.mem_append_right _ (List.mem_singleton_self _), before, hbefore, rfl⟩

/-- Joining gives each path once. -/
theorem joinedOnce (hown : (own.map Path.key).Nodup) (found : List (Stat N × List (Path (Stat N)))) :
    JoinedOnce own found (joined own found) := by
  induction found using List.reverseRecOn with
  | nil => exact .start hown
  | append_singleton found source ih =>
    have hjoined : joined own (found ++ [source]) = joinPaths source.1 (joined own found) source.2 :=
      List.foldl_append
    rw [hjoined]
    exact ih.join source.1 source.2

end Joining

/-! ## The stack of transformations -/

section Stack

variable {m : Type → Type} [Monad m] {l : Lookup N m} {target : Stat N} {sources : List (Stat N)}

/-- What a formula looks up when a source is converted to a target. -/
def converting (target : StatKey) (source : Stat N) (l : Lookup N m) : Lookup N m :=
  { l with
    paths := fun stat => do
      let own ← l.paths stat
      if stat.key != target then return own
      let _ ← l.value source .uncappedSubtotal Path.main
      return joinPaths source own (← l.paths source) }

/-- What a formula looks up when several sources are converted to a target, the first one installed first. -/
def seen (target : StatKey) (sources : List (Stat N)) (l : Lookup N m) : Lookup N m :=
  sources.foldr (converting target) l

/-- A context in which what the conversions to a target ask for may have effects but ends in no fault. -/
structure Answering (l : Lookup N m) (target : Stat N) (sources : List (Stat N)) where
  /-- The paths of the target. -/
  own : m (List (Path (Stat N)))
  /-- The uncapped subtotals of the sources. -/
  subtotal : Stat N → m (Option (Amount N))
  /-- The paths of the sources. -/
  paths : Stat N → m (List (Path (Stat N)))
  read_own : l.paths target = monadLift own
  read_subtotal : ∀ source ∈ sources, l.value source .uncappedSubtotal Path.main = monadLift (subtotal source)
  read_paths : ∀ source ∈ sources, l.paths source = monadLift (paths source)

/-- The paths that a source has after its subtotal was computed. -/
def Answering.ask (answers : Answering l target sources) (source : Stat N) :
    m (Stat N × List (Path (Stat N))) := do
  let _ ← answers.subtotal source
  return (source, ← answers.paths source)

/-- Only the paths are other ones. -/
theorem seen_eq (target : StatKey) (sources : List (Stat N)) (l : Lookup N m) :
    seen target sources l = { l with paths := (seen target sources l).paths } := by
  suffices h : ∃ paths, seen target sources l = { l with paths := paths } by
    obtain ⟨paths, hpaths⟩ := h
    rw [hpaths]
  induction sources with
  | nil => exact ⟨l.paths, rfl⟩
  | cons source sources ih =>
    obtain ⟨paths, hpaths⟩ := ih
    refine ⟨(converting target source { l with paths := paths }).paths, ?_⟩
    change converting target source (seen target sources l) = _
    rw [hpaths]
    rfl

variable [LawfulMonad m]

theorem paths_seen_of_ne {target : StatKey} (sources : List (Stat N)) {stat : Stat N}
    (hstat : stat.key ≠ target) :
    (seen target sources l).paths stat = l.paths stat := by
  induction sources with
  | nil => rfl
  | cons source sources ih =>
    change (converting target source (seen target sources l)).paths stat = _
    simp only [converting, bne_iff_ne.mpr hstat, if_true, bind_pure, ih]

/-- A formula sees the joined paths of the target. The source that was installed last is asked first. -/
theorem paths_seen (answers : Answering l target sources)
    (hsources : ∀ source ∈ sources, source.key ≠ target.key) :
    (seen target.key sources l).paths target = monadLift (do
      let own ← answers.own
      let found ← sources.reverse.mapM answers.ask
      return joined own found) := by
  have hseen (sources : List (Stat N)) : (seen target.key sources l).value = l.value := by rw [seen_eq]
  -- The induction is over the sources from the one installed last on, so the paths of a further source join those
  -- that the transformations outside of its own have found. These pass on what is asked about the source itself.
  suffices hmore : ∀ more ⊆ sources, (seen target.key more l).paths target = monadLift (do
      let own ← answers.own
      let found ← more.reverse.mapM answers.ask
      return joined own found) from hmore sources (List.Subset.refl _)
  intro more hmore
  induction more with
  | nil => simp [seen, joined, answers.read_own]
  | cons source more ih =>
    have hsource : source ∈ sources := hmore List.mem_cons_self
    have hpaths := paths_seen_of_ne (l := l) more (hsources source hsource)
    change (converting target.key source (seen target.key more l)).paths target = _
    simp only [converting, bne_self_eq_false, hseen, hpaths, ih (List.cons_subset.mp hmore).2,
      answers.read_subtotal source hsource, answers.read_paths source hsource]
    simp [joined, Answering.ask]

variable [Number N] {ts : List (Transformation N)}

omit [LawfulMonad m] in
/-- The transformations that were installed first are the innermost ones. -/
theorem layer_eq {target : StatKey}
    (hts : ts.map (·.effect) = sources.map (Effect.convertedPaths · target)) (inner : Meaning N m) :
    Transformation.layer ts inner l = inner (seen target sources l) := by
  have hlayer : Transformation.layer ts inner
      = (ts.map (·.effect)).foldl (fun meaning effect => effect.apply meaning) inner := by
    rw [List.foldl_map]
    rfl
  rw [hlayer, hts]
  clear hlayer hts
  -- One transformation more makes another formula of the inner one, for which the rest of the stack is the same.
  induction sources generalizing inner with
  | nil => rfl
  | cons source sources ih => exact ih (Conversion.paths source target inner)

/-- Under the transformations of several sources, stacked in any order, a formula sees the joined paths of the
target: its own paths first, and those of all sources as they are after their subtotals were computed, each path
once. Everything else it looks up as without them. -/
theorem paths_once (hts : ts.map (·.effect) = sources.map (Effect.convertedPaths · target.key))
    (hsources : ∀ source ∈ sources, source.key ≠ target.key) (answers : Answering l target sources) :
    ∃ seen : Lookup N m, (∀ inner, Transformation.layer ts inner l = inner seen)
      ∧ seen = { l with paths := seen.paths }
      ∧ (∀ stat, stat.key ≠ target.key → seen.paths stat = l.paths stat)
      ∧ seen.paths target = monadLift (do
          let own ← answers.own
          let found ← sources.reverse.mapM answers.ask
          return joined own found)
      ∧ ∀ (own : List (Path (Stat N))) found, (own.map Path.key).Nodup →
        JoinedOnce own found (joined own found) :=
  ⟨seen target.key sources l, layer_eq hts, seen_eq target.key sources l,
    fun _ hstat => paths_seen_of_ne sources hstat, paths_seen answers hsources,
    fun _ found hown => joinedOnce hown found⟩

end Stack

/-! ### A chain of conversions -/

/-- Stats that are told by their names. -/
def named (identity : String) : Stat ℚ := .plain ⟨identity, .character⟩

/-- A context that takes note of the stats whose subtotals are computed. Cold and fire damage have their paths from
then on, and chaos damage has kept a path of the cold damage. -/
def remembering : Lookup ℚ (StateM (List StatKey)) where
  path := .main
  paths stat := do
    let computed ← get
    return if stat.key = (named "chaos").key then [.main, Path.main.extend (named "cold")]
      else if stat.key ∈ computed then [.main, .ofSource .ailment] else []
  value stat _ _ := do
    modify (stat.key :: ·)
    return none
  values _ _ := pure []
  derived request := pure (.plain request.key)
  note _ := pure ()

/-- What the conversions of cold and fire damage to chaos damage ask for in this context. -/
def answering : Answering remembering (named "chaos") [named "cold", named "fire"] where
  own := return [.main, Path.main.extend (named "cold")]
  subtotal stat := do
    modify (stat.key :: ·)
    return none
  paths stat := do
    let computed ← get
    return if stat.key ∈ computed then [.main, .ofSource .ailment] else []
  read_own := rfl
  read_subtotal _ _ := rfl
  read_paths := by
    intro source hsource
    simp only [List.mem_cons, List.not_mem_nil, or_false] at hsource
    rcases hsource with rfl | rfl <;> rfl

/-- The transformations of the two conversions. -/
def conversions : List (Transformation ℚ) :=
  [⟨.numbered 0, .convertedPaths (named "cold") (named "chaos").key⟩,
    ⟨.numbered 1, .convertedPaths (named "fire") (named "chaos").key⟩]

/-- Both sources give their paths, and the path that the target kept is not added again. -/
theorem paths_once_remembering : ∃ seen : Lookup ℚ (StateM (List StatKey)),
    (∀ inner, Transformation.layer conversions inner remembering = inner seen)
      ∧ ((seen.paths (named "chaos")).run.run []).1.map
          (·.map fun path => (path.source, path.via.map (·.key.id)))
        = .ok [(.global, []), (.global, ["cold"]), (.global, ["fire"]), (.ailment, ["fire"]),
          (.ailment, ["cold"])] := by
  have heffects : conversions.map (·.effect)
      = [named "cold", named "fire"].map (Effect.convertedPaths · (named "chaos").key) := rfl
  obtain ⟨seen, hlayer, -, -, hpaths, -⟩ := paths_once heffects (by decide) answering
  refine ⟨seen, hlayer, ?_⟩
  rw [hpaths]
  rfl

end StatEngine.Conversion
