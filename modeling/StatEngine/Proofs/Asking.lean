import StatEngine.Proofs.Keeping

/-!
# What cells ask for

The formula of a cell asks for nothing that would have to be made while others rely on its absence: all
it asks for is on a path that the stat has, or on the main path (`May`). The sum over the paths of a
stat is read after the stat got the main path, because what overrides the total is read first.

## Main statements

* `Inv.asks`: whatever the formula of a cell asks for, it may ask for.
-/

namespace StatEngine

open Network

namespace Registry

variable {N : Type} {r : Registry N} {sc : Regime N}

/-- Stats with nodes on a path have the path. -/
theorem Counted.isIn_paths_of_stage (h : r.Counted) {k : NodeKey} {e : NodeEntry N}
    (he : r.stage? k = some e) (hstage : e.stage.perPath) : e.path.isIn (r.paths k.stat) := by
  obtain ⟨g, hg, hfind⟩ := stage?_eq_some_iff.mp he
  refine h.isIn_paths hg (Nat.lt_of_lt_of_le ?_ (Nat.le_add_right _ _))
  refine List.length_pos_of_mem (a := e) (List.mem_filter.mpr ⟨List.mem_of_find?_eq_some hfind, ?_⟩)
  simp [Path.same, hstage]

end Registry

namespace Network

variable {N A σ : Type} {sc : Regime N} {n n' : Network N A σ}

@[simp]
theorem stagePath_stagePath (stage : Stage) (p : Path (Stat N)) :
    stagePath stage (stagePath stage p) = stagePath stage p := by
  rw [stagePath, stagePath]
  split <;> rfl

/-- The stat of a formula that sums over the paths has the main path. -/
def Provides (n : Network N A σ) (φ : Formula N) : Prop :=
  ∀ s stage, φ = .stage s stage → stage = .subtotal ∨ stage = .uncappedSubtotal →
    Path.main ∈ n.registry.paths s.key

/-- What the formula at `id` may ask for. -/
def May (sc : Regime N) (id : Nat) (n : Network N A σ) : Query N → Prop
  | .paths s => s ∈ sc.stats ∧ Path.main ∈ n.registry.paths s.key
    ∧ ∃ e, n.registry.stage? ⟨s.key, .uncappedSubtotal, Path.main⟩ = some e ∧ e.formula = id
  | .value s stage p => s ∈ sc.stats ∧ (stagePath stage p).via = [] ∧ n.Provides (.stage s stage)
    ∧ (stage.perPath → stagePath stage p = Path.main ∨ stagePath stage p ∈ n.registry.paths s.key)
  | .values _ places => ∀ place ∈ places, place.1 ∈ sc.stats ∧ place.2.via = []
    ∧ (place.2 = Path.main ∨ place.2 ∈ n.registry.paths place.1.key)
  | .derived _ | .note _ => False

variable [Number N]

/-- What a reply says about the network that it was found in. -/
def LeadsTo (sc : Regime N) (n : Network N A σ) (query : Query N) (reply : query.Reply)
    (n' : Network N A σ) : Prop :=
  n'.Inv sc ∧ n ≤ n' ∧ match query, reply with
    | .paths s, reply => reply = n'.registry.paths s.key
    | .value s .totalOverride _, _ => Path.main ∈ n'.registry.paths s.key
    | _, _ => True

omit [Number N] in
theorem Provides.mono (h : n ≤ n') {φ : Formula N} (hn : n.Provides φ) : n'.Provides φ :=
  fun s stage hφ hstage => h.registry.path _ _ (hn s stage hφ hstage)

omit [Number N] in
theorem provides_total (n : Network N A σ) (s : Stat N) : n.Provides (.stage s .total) := by
  rintro _ _ ⟨⟩ (h | h) <;> cases h

omit [Number N] in
/-- The total of a stat may be asked for at any time. -/
theorem may_total {s : Stat N} (hs : s ∈ sc.stats) (id : Nat) (p : Path (Stat N)) :
    May sc id n (.value s .total p) :=
  ⟨hs, rfl, n.provides_total s, fun h => by cases h⟩

omit [Number N] in
/-- Stages on a path that a stat has may be asked for. -/
theorem may_perPath {s : Stat N} (hs : s ∈ sc.stats) {stage : Stage} (hstage : stage.perPath)
    {p : Path (Stat N)} (hvia : p.via = []) (hp : p ∈ n.registry.paths s.key) (id : Nat) :
    May sc id n (.value s stage p) := by
  rw [May, stagePath, if_pos hstage]
  refine ⟨hs, hvia, ?_, fun _ => .inr hp⟩
  rintro _ _ ⟨⟩ (rfl | rfl) <;> cases hstage

/-- What a stage asks for, it may ask for. -/
theorem Inv.asks_stage (hn : n.Inv sc) {k : NodeKey} {e : NodeEntry N} {s : Stat N}
    (he : n.registry.stage? k = some e) (hs : s ∈ sc.stats) (hk : s.key = k.stat)
    (hprovides : n.Provides (.stage s k.stage)) :
    (Stages.meaning s k.stage (.asking e.path)).Asks (May sc e.formula) (LeadsTo sc) n := by
  have hle : ∀ {w : Network N A σ} {query : Query N} {reply : query.Reply} {w' : Network N A σ},
      LeadsTo sc w query reply w' → w ≤ w' := fun h => h.2.1
  obtain ⟨hstage, hpath⟩ := Registry.stage?_spec he
  have hsc := sc.follows hs
  have hvia := hn.orderly.entry_via hsc _ _ he
  have hentry := hn.orderly.entry_path _ _ he
  rw [hstage] at hentry
  have hper (h : k.stage.perPath) : e.path ∈ n.registry.paths s.key :=
    hk ▸ (isIn_iff hvia).mp (hn.counted.isIn_paths_of_stage he (hstage.symm ▸ h))
  have hform {w : Network N A σ} (hw : n ≤ w) (h : k.stage.perPath) (stage : Stage)
      (hstage : stage.perPath) : May sc e.formula w (.value s stage e.path) :=
    may_perPath hs hstage hvia (hw.registry.path _ _ (hper h)) _
  obtain ⟨key, stage, path⟩ := k
  cases stage with
  | total =>
    refine Stages.asks_total ⟨hs, rfl, ?_, fun h => by cases h⟩ fun w hw =>
      ⟨hs, rfl, ?_, fun h => by cases h⟩
    · rintro _ _ ⟨⟩ (h | h) <;> cases h
    · rintro _ _ ⟨⟩ -
      exact hw.2.2
  | subtotal =>
    refine Stages.asks_subtotal hle ⟨hs, rfl, ?_, fun h => by cases h⟩
      (fun t ht w _ => may_total (sc.minimum s hs t ht) _ _)
      fun t ht w _ => may_total (sc.maximum s hs t ht) _ _
    rintro _ _ ⟨⟩ -
    exact hprovides s .subtotal rfl (.inl rfl)
  | uncappedSubtotal =>
    obtain rfl : Path.main = path := by
      change e.path.key = path at hpath
      rw [← hpath, ← hentry]
      rfl
    refine Stages.asks_uncappedSubtotal hle ⟨hs, hprovides s _ rfl (.inr rfl), e, hk ▸ he, rfl⟩
      fun paths w hw p hp w' hw' => may_perPath hs rfl ?_ (hw'.registry.path _ _ ?_) _
    · exact hw.1.orderly.path_via hsc _ _ (hw.2.2 ▸ hp)
    · exact hw.2.2 ▸ hp
  | pathTotal =>
    exact Stages.asks_pathTotal hle fun stage w hw hstage =>
      hform hw rfl stage (by obtain rfl | rfl | rfl := hstage <;> rfl)
  | base =>
    exact Stages.asks_base hle fun stage w hw hstage =>
      hform hw rfl stage (by obtain rfl | rfl | rfl := hstage <;> rfl)
  | baseOverride | baseSet | baseAdd =>
    refine Stages.asks_aggregated hle fun place hplace => ?_
    obtain rfl : place = (s, e.path) := by simpa [Stages.modifierPlaces] using hplace
    exact ⟨hs, hvia, .inr (hper rfl)⟩
  | increase | more =>
    refine Stages.asks_aggregated hle fun place hplace => ?_
    obtain ⟨source, hsource, hplace⟩ := List.mem_flatMap.mp hplace
    rw [hvia, List.map_singleton, List.mem_singleton] at hplace
    subst hplace
    refine ⟨hs, rfl, ?_⟩
    -- increases apply from the source of the path, and from the global one
    obtain rfl | rfl : source = e.path.source ∨ source = .global := by
      cases hsource' : e.path.source <;> simp [hsource', Source.influencing] at hsource <;> tauto
    · refine .inr ?_
      have := hper rfl
      rwa [show e.path = Path.ofSource e.path.source from by
        rw [Path.ofSource, ← hvia]] at this
    · exact .inl rfl
  | totalOverride =>
    refine Stages.asks_aggregated hle fun place hplace => ?_
    obtain rfl : place = (s, Path.main) := by simpa [Stages.modifierPlaces] using hplace
    exact ⟨hs, rfl, .inl rfl⟩

/-- Whatever the formula of a cell asks for, it may ask for. -/
theorem Inv.asks (hn : n.Inv sc) {id : Nat} {φ : Formula N} {p : Path (Stat N)}
    (hd : n.Denotes sc id φ p) (hprovides : n.Provides φ) :
    (φ.inquiry p).Asks (May sc id) (LeadsTo sc) n := by
  cases hd with
  | stage he hs hk => exact hn.asks_stage he hs hk hprovides
  | member hsc he hi =>
    obtain ⟨-, -, hhas, -⟩ := (hn.wired.forms _ _ _ _ he).members _ hi
    exact (hsc.reads hhas).asks _ (fun h => h.2.1) (fun w stat q hstat => may_total hstat _ _) n

end Network

end StatEngine
