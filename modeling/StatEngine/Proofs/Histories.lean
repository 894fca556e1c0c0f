import StatEngine.Proofs.Incremental

/-!
# What is left of a history

Updates leave modifiers behind, and reading leaves nothing that the next read could tell: whatever was read
before, and whether or not what was unused was removed, a stage comes to the value that the modifiers
stand for. It does if the stage is not one that lists the paths of its stat, or the stat had the main path
when it was read. Otherwise the paths are listed once, reading what is on them gives the stat its main path,
and nobody tells the node that listed them (`total_left_behind`). Removing what is unused also shows if
stats have behaviors: a node that reads the paths of another stat alone does not keep that stat in use, so
it is not told when the stat comes back (`ailment_not_told`).

## Main definitions

* `Calculator.Browsed`: the networks that a host gets to by updates and by reading stages;
* `Calculator.Request`: what a host asks for, and what it is answered.

## Main statements

* `Calculator.value_of_modifiers`: a stage has one value in all networks with the same modifiers left;
* `Calculator.answers_alike`: requests are answered alike under all settings.
-/

namespace StatEngine

open Network

variable {N A σ : Type}

namespace Network

/-- A stage that does not list paths may be asked for at any time. -/
theorem provides_of_ne (n : Network N A σ) (stat : Stat N) {stage : Stage} (hsubtotal : stage ≠ .subtotal)
    (huncapped : stage ≠ .uncappedSubtotal) : n.Provides (.stage stat stage) := by
  rintro _ _ ⟨⟩ (h | h)
  · exact absurd h hsubtotal
  · exact absurd h huncapped

end Network

namespace Calculator

variable [Number N]

/-- A host got to a network by updates and by reading stages of stats, on paths without conversions. A stage
that lists the paths of its stat was read only where the stat had the main path. The modifiers are those
that are left of the registered ones. -/
inductive Browsed (sc : Scope N) (host : Host N A σ) : List (Modifier N) → Network N A σ → Prop where
  /-- There are no modifiers. -/
  | start (settings : Settings) (catalog : Option (Catalog N)) (state : σ) :
    Browsed sc host [] (Calculator.start settings catalog state)
  /-- Modifiers are taken back and registered. What is unused is removed afterwards, or it is not. -/
  | update {modifiers : List (Modifier N)} {n n' : Network N A σ} (before : Browsed sc host modifiers n)
    (settings : Settings) (u : Update N) (hcontains : ∀ m ∈ u.added, sc.Contains m)
    (hrun : Calculator.update host settings u n = some (⟨⟩, n')) : Browsed sc host (u.apply modifiers) n'
  /-- A stage is read, with whatever outcome. -/
  | value {modifiers : List (Modifier N)} {n n' : Network N A σ} (before : Browsed sc host modifiers n)
    {stat : Stat N} (hs : stat ∈ sc.stats) {stage : Stage} {path : Path (Stat N)} (hvia : path.via = [])
    (hprovides : n.Provides (.stage stat stage)) {r : Except (Fault N) (Option (Amount N))}
    (hrun : (Calculator.value host stat stage path).run n = some (r, n')) : Browsed sc host modifiers n'

/-- What a host asks for: an update, or the value of a stage of a stat on a path. -/
inductive Request (N : Type) where
  | update (u : Update N)
  | value (stat : Stat N) (stage : Stage) (path : Path (Stat N))

namespace Request

/-- Carry out a request. The answer is what a read comes to. -/
def answer (host : Host N A σ) (settings : Settings) :
    Request N → Run N A σ (Option (Except (Fault N) (Option (Amount N))))
  | update u => do
    Calculator.update host settings u
    return none
  | value stat stage path => do return some (← (Calculator.value host stat stage path).run)

/-- A request that is about stats of a scope alone, and does not ask for a stage that lists paths. -/
def Within (sc : Scope N) : Request N → Prop
  | update u => ∀ m ∈ u.added, sc.Contains m
  | value stat stage path =>
    stat ∈ sc.stats ∧ path.via = [] ∧ stage ≠ .subtotal ∧ stage ≠ .uncappedSubtotal

end Request

/-- What a new calculator answers to requests, one after the other. -/
def answers (host : Host N A σ) (settings : Settings) (catalog : Option (Catalog N)) (state : σ)
    (requests : List (Request N)) : Option (List (Option (Except (Fault N) (Option (Amount N))))) :=
  (requests.mapM (Request.answer host settings) (start settings catalog state)).map (·.1)

namespace Browsed

variable {sc : Scope N} {host : Host N A σ} {tell : A → σ → σ} {modifiers : List (Modifier N)}
  {n m : Network N A σ}

theorem visitedWithin (h : Browsed sc host modifiers n) : VisitedWithin .plainStats host n := by
  induction h with
  | start settings catalog state => exact .start settings catalog state
  | update _ settings u hcontains hrun ih => exact ih.update hcontains hrun
  | value _ hs hvia _ hrun ih => exact ih.value hs hvia hrun

/-- Between requests the modifiers on file are those that are left. -/
theorem settled (hhost : host.Quiet tell) (h : Browsed sc host modifiers n) :
    n.Settled sc ∧ n.registry.inputs.modifiers = registered modifiers := by
  induction h with
  | start settings catalog state => exact ⟨settled_start settings catalog state, rfl⟩
  | update _ settings u hcontains hrun ih => exact settled_update hhost ih.1 ih.2 hcontains hrun
  | value _ hs hvia hprovides hrun ih =>
    obtain ⟨hn, hmodifiers, -⟩ := ih.1.value_eq_ok_iff hhost hs hvia hprovides hrun
    exact ⟨hn, hmodifiers.trans ih.2⟩

/-- Modifiers of a scope can be added and removed. -/
theorem exists_update (hhost : host.Quiet tell) (h : Browsed sc host modifiers n) (settings : Settings)
    {u : Update N} (hcontains : ∀ m ∈ u.added, sc.Contains m) :
    ∃ n', Calculator.update host settings u n = some (⟨⟩, n') ∧ Browsed sc host (u.apply modifiers) n' := by
  obtain ⟨n', hrun⟩ := Calculator.exists_update hhost (h.settled hhost).1 settings hcontains
  exact ⟨n', hrun, h.update settings u hcontains hrun⟩

/-- Any stage of a stat of the scope can be read. -/
theorem exists_value (hhost : host.Aloof tell)
    (hnote : ∀ text (n : Network N A σ), (host.note text) n ≠ none) (h : Browsed sc host modifiers n)
    {stat : Stat N} (hs : stat ∈ sc.stats) (stage : Stage) {path : Path (Stat N)} (hvia : path.via = []) :
    ∃ r n', (Calculator.value host stat stage path).run n = some (r, n') := by
  have hplain : path.Plain := fun _ hs => absurd (hvia ▸ hs) List.not_mem_nil
  obtain ⟨⟨r, n'⟩, hrun⟩ :=
    h.visitedWithin.exists_value hhost hnote (sc.plain_of_mem stat hs) hplain stage
  exact ⟨r, n', hrun⟩

variable [Std.Commutative (α := N) (· + ·)] [Std.Associative (α := N) (· + ·)]

/-- A stage comes to the same values where the same modifiers are left. -/
theorem value_eq_ok (hhost : host.Quiet tell) (h : Browsed sc host modifiers n)
    (h' : Browsed sc host modifiers m) {stat : Stat N} (hs : stat ∈ sc.stats) {stage : Stage}
    {path : Path (Stat N)} (hvia : path.via = []) (hprovides : n.Provides (.stage stat stage))
    (hprovides' : m.Provides (.stage stat stage)) {r r' : Except (Fault N) (Option (Amount N))}
    {n' m' : Network N A σ} (hrun : (Calculator.value host stat stage path).run n = some (r, n'))
    (hrun' : (Calculator.value host stat stage path).run m = some (r', m')) {v : Option (Amount N)}
    (hv : r = .ok v) : r' = .ok v := by
  obtain ⟨hn, hmodifiers⟩ := h.settled hhost
  obtain ⟨hm, hmodifiers'⟩ := h'.settled hhost
  obtain ⟨hn', hsame, -, hvalue⟩ := hn.value_eq_ok_iff hhost hs hvia hprovides hrun
  obtain ⟨hm', hsame', -, hvalue'⟩ := hm.value_eq_ok_iff hhost hs hvia hprovides' hrun'
  have heq : n'.registry.inputs.modifiers = m'.registry.inputs.modifiers := by
    rw [hsame, hsame', hmodifiers, hmodifiers']
  exact (hvalue' v).mpr (hn'.computes_of_modifiers_eq hm' (Regime.follows hs) heq ((hvalue v).mp hv))

end Browsed

namespace Histories

/-- A stat. -/
def life : Stat ℚ := ⟨⟨"Life", .character⟩, none, none, .double, false, []⟩

/-- Nothing but that stat. -/
def lifeOnly : Scope ℚ where
  stats := [life]
  unique s hs t ht _ := (List.mem_singleton.mp hs).trans (List.mem_singleton.mp ht).symm
  minimum s hs t ht := by
    rw [List.mem_singleton.mp hs] at ht
    cases ht
  maximum s hs t ht := by
    rw [List.mem_singleton.mp hs] at ht
    cases ht
  plain s hs := by rw [List.mem_singleton.mp hs, life]

/-- A skill adds one. -/
def added : Modifier ℚ :=
  ⟨[life], .baseAdd, .constant (some (.single 1)), 0, ⟨.particular (.skill "Fireball"), ""⟩⟩

/-- The base is three. -/
def set : Modifier ℚ := ⟨[life], .baseSet, .constant (some (.single 3)), 1, ⟨.global, ""⟩⟩

theorem contains_added : lifeOnly.Contains added := ⟨fun _ hs => hs, .constant _, .constant _⟩

theorem contains_set : lifeOnly.Contains set := ⟨fun _ hs => hs, .constant _, .constant _⟩

end Histories

/-! ## What was read before -/

section Reads

variable {sc : Scope N} {host : Host N A σ} {tell : A → σ → σ}

/-- A stage can be read in all networks with the same modifiers left, and it comes to the same value in all
of them, or to a fault in all of them. What was read before does not matter, then, nor what was updated if
it was taken back, nor what was removed as unused. Sums must not depend on the order of their terms, for
paths appear in an order of their own. -/
theorem value_of_modifiers [Std.Commutative (α := N) (· + ·)] [Std.Associative (α := N) (· + ·)]
    (hhost : host.Aloof tell) (hnote : ∀ text (n : Network N A σ), (host.note text) n ≠ none)
    {modifiers : List (Modifier N)} {n m : Network N A σ} (h : Browsed sc host modifiers n)
    (h' : Browsed sc host modifiers m) {stat : Stat N} (hs : stat ∈ sc.stats) {stage : Stage}
    {path : Path (Stat N)} (hvia : path.via = []) (hprovides : n.Provides (.stage stat stage))
    (hprovides' : m.Provides (.stage stat stage)) :
    ∃ r n' r' m', (value host stat stage path).run n = some (r, n')
      ∧ (value host stat stage path).run m = some (r', m') ∧ ∀ v, r = .ok v ↔ r' = .ok v := by
  obtain ⟨r, n', hr⟩ := h.exists_value hhost hnote hs stage hvia
  obtain ⟨r', m', hr'⟩ := h'.exists_value hhost hnote hs stage hvia
  exact ⟨r, n', r', m', hr, hr', fun v =>
    ⟨h.value_eq_ok hhost.toQuiet h' hs hvia hprovides hprovides' hr hr',
      h'.value_eq_ok hhost.toQuiet h hs hvia hprovides' hprovides hr' hr⟩⟩

end Reads

open Histories in
/-- A path and a total are read between two updates in one network, and nothing is read in another one.
Then the base on the main path is three in both. -/
theorem value_of_modifiers_base : ∃ n m : Network ℚ Unit Unit,
    Browsed lifeOnly Host.idle [added, set] n ∧ Browsed lifeOnly Host.idle [added, set] m
      ∧ (∃ n₁, Browsed lifeOnly Host.idle [added] n₁ ∧ ∃ r n₂, (total Host.idle life).run n₁ = some (r, n₂)
        ∧ update Host.idle .standard ⟨[set], []⟩ n₂ = some (⟨⟩, n))
      ∧ ∃ r n' r' m', (value Host.idle life .base Path.main).run n = some (r, n')
        ∧ (value Host.idle life .base Path.main).run m = some (r', m') ∧ ∀ v, r = .ok v ↔ r' = .ok v := by
  have hlife : life ∈ lifeOnly.stats := List.mem_singleton_self _
  have hnote : ∀ text (n : Network ℚ Unit Unit), ((Host.idle : Host ℚ Unit Unit).note text) n ≠ none :=
    fun _ _ => Option.some_ne_none _
  have hstart : Browsed lifeOnly Host.idle [] (start .standard none () : Network ℚ Unit Unit) := .start ..
  have hadded : ∀ m ∈ [added], lifeOnly.Contains m := fun m hm => List.mem_singleton.mp hm ▸ contains_added
  have hset : ∀ m ∈ [set], lifeOnly.Contains m := fun m hm => List.mem_singleton.mp hm ▸ contains_set
  obtain ⟨n₁, -, hn₁⟩ := hstart.exists_update Host.quiet_idle .standard (u := ⟨[added], []⟩) hadded
  obtain ⟨m, -, hm⟩ := hn₁.exists_update Host.quiet_idle .standard (u := ⟨[set], []⟩) hset
  have hmain : (Path.main : Path (Stat ℚ)).via = [] := rfl
  obtain ⟨r, n₂, hr⟩ := hn₁.exists_value Host.aloof_idle hnote hlife .total hmain
  have hn₂ := hn₁.value hlife rfl (n₁.provides_total life) hr
  obtain ⟨n, hrun, hn⟩ := hn₂.exists_update Host.quiet_idle .standard (u := ⟨[set], []⟩) hset
  have hprovides (n : Network ℚ Unit Unit) : n.Provides (.stage life .base) :=
    n.provides_of_ne life (by simp) (by simp)
  exact ⟨n, m, hn, hm, ⟨n₁, hn₁, r, n₂, hr, hrun⟩, value_of_modifiers Host.aloof_idle hnote hn hm hlife rfl
    (hprovides n) (hprovides m)⟩

open Histories in
/-- A stat has a modifier from a skill, and the sum over its paths is read. Reading what is on the path of
the skill gives the stat its main path, but the sum was over the path of the skill alone. It does not change
with the next modifier, which is on the main path. -/
theorem total_left_behind :
    answers (A := Unit) Host.idle .standard none () [.update ⟨[added], []⟩,
        .value life .uncappedSubtotal Path.main, .update ⟨[set], []⟩, .value life .total Path.main]
      = some [none, some (.ok (some (.single 1))), none, some (.ok (some (.single 1)))]
    ∧ answers (A := Unit) Host.idle .standard none ()
        [.update ⟨[added], []⟩, .update ⟨[set], []⟩, .value life .total Path.main]
      = some [none, none, some (.ok (some (.single 4)))] := by
  constructor <;> decide +kernel

/-! ## What was removed as unused -/

section Alike

variable {sc : Scope N} {host : Host N A σ} {tell : A → σ → σ} {modifiers : List (Modifier N)}
  {n m : Network N A σ}

/-- Two answers are values that are equal, or both are faults, or both are answers to updates. -/
def Alike (a a' : Option (Except (Fault N) (Option (Amount N)))) : Prop :=
  a.isSome = a'.isSome ∧ ∀ v, a = some (.ok v) ↔ a' = some (.ok v)

variable [Std.Commutative (α := N) (· + ·)] [Std.Associative (α := N) (· + ·)] (hhost : host.Aloof tell)
  (hnote : ∀ text (n : Network N A σ), (host.note text) n ≠ none)
include hhost hnote

/-- A request is answered alike where the same modifiers are left, and leaves the same modifiers. -/
theorem Browsed.answer_alike (h : Browsed sc host modifiers n) (h' : Browsed sc host modifiers m)
    {request : Request N} (hrequest : request.Within sc) (settings settings' : Settings) :
    ∃ a n' a' m' modifiers', request.answer host settings n = some (a, n')
      ∧ request.answer host settings' m = some (a', m') ∧ Alike a a'
      ∧ Browsed sc host modifiers' n' ∧ Browsed sc host modifiers' m' := by
  cases request with
  | update u =>
    obtain ⟨n', hn, hn'⟩ := h.exists_update hhost.toQuiet settings hrequest
    obtain ⟨m', hm, hm'⟩ := h'.exists_update hhost.toQuiet settings' hrequest
    refine ⟨none, n', none, m', _, ?_, ?_, ⟨rfl, fun _ => .rfl⟩, hn', hm'⟩
    · exact Option.bind_eq_some_iff.mpr ⟨_, hn, rfl⟩
    · exact Option.bind_eq_some_iff.mpr ⟨_, hm, rfl⟩
  | value stat stage path =>
    obtain ⟨hs, hvia, hsubtotal, huncapped⟩ := hrequest
    have hprovides := n.provides_of_ne stat hsubtotal huncapped
    have hprovides' := m.provides_of_ne stat hsubtotal huncapped
    obtain ⟨r, n', hr⟩ := h.exists_value hhost hnote hs stage hvia
    obtain ⟨r', m', hr'⟩ := h'.exists_value hhost hnote hs stage hvia
    refine ⟨some r, n', some r', m', modifiers, Option.bind_eq_some_iff.mpr ⟨_, hr, rfl⟩,
      Option.bind_eq_some_iff.mpr ⟨_, hr', rfl⟩, ⟨rfl, fun v => ?_⟩, h.value hs hvia hprovides hr,
      h'.value hs hvia hprovides' hr'⟩
    simp only [Option.some.injEq]
    exact ⟨h.value_eq_ok hhost.toQuiet h' hs hvia hprovides hprovides' hr hr',
      h'.value_eq_ok hhost.toQuiet h hs hvia hprovides' hprovides hr' hr⟩

/-- So are requests after each other. -/
theorem Browsed.answers_alike {requests : List (Request N)} (hrequests : ∀ r ∈ requests, r.Within sc)
    (settings settings' : Settings) :
    ∀ {modifiers : List (Modifier N)} {n m : Network N A σ}, Browsed sc host modifiers n →
      Browsed sc host modifiers m → ∃ as n' as' m',
        requests.mapM (Request.answer host settings) n = some (as, n')
          ∧ requests.mapM (Request.answer host settings') m = some (as', m') ∧ List.Forall₂ Alike as as' := by
  induction requests with
  | nil => exact fun {_ n m} _ _ => ⟨[], n, [], m, rfl, rfl, .nil⟩
  | cons request requests ih =>
    intro modifiers n m h h'
    obtain ⟨hrequest, hrequests⟩ := List.forall_mem_cons.mp hrequests
    obtain ⟨a, n₁, a', m₁, _, hn₁, hm₁, halike, h₁, h₁'⟩ :=
      h.answer_alike hhost hnote h' hrequest settings settings'
    obtain ⟨as, n', as', m', hn', hm', halikes⟩ := ih hrequests h₁ h₁'
    refine ⟨a :: as, n', a' :: as', m', ?_, ?_, .cons halike halikes⟩
    · rw [List.mapM_cons]
      exact Option.bind_eq_some_iff.mpr ⟨_, hn₁, Option.bind_eq_some_iff.mpr ⟨_, hn', rfl⟩⟩
    · rw [List.mapM_cons]
      exact Option.bind_eq_some_iff.mpr ⟨_, hm₁, Option.bind_eq_some_iff.mpr ⟨_, hm', rfl⟩⟩

/-- Whatever a host asks for, it is answered alike whether or not what is unused is removed after updates,
and whether or not announcements are held back. -/
theorem requests_answered_alike {requests : List (Request N)} (hrequests : ∀ r ∈ requests, r.Within sc)
    (settings settings' : Settings) (catalog : Option (Catalog N)) (state : σ) :
    ∃ as as', answers host settings catalog state requests = some as
      ∧ answers host settings' catalog state requests = some as' ∧ List.Forall₂ Alike as as' := by
  have hstart (settings : Settings) : Browsed sc host [] (start settings catalog state) := .start ..
  obtain ⟨as, n', as', m', hn', hm', halike⟩ :=
    Browsed.answers_alike hhost hnote hrequests settings settings' (hstart settings) (hstart settings')
  exact ⟨as, as', by rw [answers, hn', Option.map_some], by rw [answers, hm', Option.map_some], halike⟩

end Alike

open Histories in
/-- A total is read, changed and read again. -/
theorem requests_answered_alike_pruned : ∃ as : List (Option (Except (Fault ℚ) (Option (Amount ℚ)))),
    answers (A := Unit) Host.idle ⟨true, true⟩ none () [.update ⟨[added], []⟩, .value life .total Path.main,
        .update ⟨[set], [added]⟩, .value life .total Path.main] = some as
      ∧ (∃ as', answers (A := Unit) Host.idle ⟨false, true⟩ none () [.update ⟨[added], []⟩,
          .value life .total Path.main, .update ⟨[set], [added]⟩, .value life .total Path.main] = some as'
          ∧ List.Forall₂ Alike as as')
      ∧ as = [none, some (.ok (some (.single 1))), none, some (.ok (some (.single 3)))] := by
  let requests : List (Request ℚ) := [.update ⟨[added], []⟩, .value life .total Path.main,
    .update ⟨[set], [added]⟩, .value life .total Path.main]
  have hlife : (Request.value life .total Path.main).Within lifeOnly :=
    ⟨List.mem_singleton_self _, rfl, by simp, by simp⟩
  have hrequests : ∀ r ∈ requests, r.Within lifeOnly := by
    refine List.forall_mem_cons.mpr ⟨fun m hm => List.mem_singleton.mp hm ▸ contains_added, ?_⟩
    refine List.forall_mem_cons.mpr ⟨hlife, List.forall_mem_cons.mpr
      ⟨fun m hm => List.mem_singleton.mp hm ▸ contains_set, ?_⟩⟩
    exact List.forall_mem_cons.mpr ⟨hlife, fun r hr => absurd hr List.not_mem_nil⟩
  obtain ⟨as, as', has, has', halike⟩ := requests_answered_alike (A := Unit) Host.aloof_idle
    (fun _ _ => Option.some_ne_none _) hrequests ⟨true, true⟩ ⟨false, true⟩ none ()
  refine ⟨as, has, ⟨as', has', halike⟩, Option.some.inj (has.symm.trans ?_)⟩
  decide +kernel

namespace Histories

/-- The damage of ignites, the damage of the hits that cause them, and the catalog they are from. -/
def made : (Stat ℚ × Stat ℚ) × Catalog ℚ :=
  StateT.run (m := Id) (do
    let ignite ← Catalog.get (.ailmentDamage .character .fire .ignite)
    let hit ← Catalog.get (.hitDamage .character .fire)
    return (ignite, hit)) Catalog.empty

/-- Ignites deal one. -/
def burning : Modifier ℚ := ⟨[made.1.1], .baseSet, .constant (some (.single 1)), 0, ⟨.global, ""⟩⟩

/-- A skill deals a hundred. -/
def hitting : Modifier ℚ :=
  ⟨[made.1.2], .baseSet, .constant (some (.single 100)), 1, ⟨.particular (.skill "Fireball"), ""⟩⟩

/-- The damage of ignites is read before modifiers of it and of hits are added, and afterwards. -/
def igniting : List (Request ℚ) := [.value made.1.1 .total Path.main, .update ⟨[burning], []⟩,
  .update ⟨[hitting], []⟩, .value made.1.1 .total Path.main]

end Histories

open Histories in
/-- The damage of an ailment is summed over the paths of the damage of hits. Nothing else of the damage of
hits is used at first, so it is removed, and when a skill deals damage the ailment is not told of the path
of the skill. If nothing is removed then it is. -/
theorem ailment_not_told :
    answers (A := Unit) Host.idle ⟨true, true⟩ (some made.2) () igniting
      = some [some (.ok none), none, none, some (.ok none)]
    ∧ answers (A := Unit) Host.idle ⟨false, true⟩ (some made.2) () igniting
      = some [some (.ok none), none, none, some (.ok (some (.single 100)))] := by
  constructor <;> decide +kernel

end Calculator

end StatEngine
