import StatEngine.Number.Exact
import StatEngine.Proofs.Plain

/-!
# Values that are kept up to date

A calculator keeps values from one read to the next and drops those that an update may have changed. A
total that is read comes to what the modifiers on file stand for all the same: to a value if they stand
for one, and to a fault if they do not. So it does not matter what was read before, what was kept and what
was pruned. Reading has the outcome it has in a calculator that was given the modifiers that are left, in
the order in which they were registered, and nothing else.

## Main definitions

* `Calculator.Updated`: the networks that a host gets to by updates and by reading totals, along with the
  modifiers that are left.

## Main statements

* `Network.Settled.total_eq_ok_iff`: a total comes to the value that the modifiers on file stand for;
* `Calculator.total_eq_from_scratch`: it comes to what it comes to in a calculator that is new.
-/

namespace StatEngine

open Network

variable {N A σ : Type}

/-! ## Paths with modifiers -/

namespace Registry

variable {r r' : Registry N} {sc : Regime N}

/-- Stats that modifiers are registered for on a path have the path. -/
theorem Counted.mem_paths_of_busy (hcounted : r.Counted) (ho : r.Orderly sc) (hsc : sc.Follows)
    {key : StatKey} {p : Path (Stat N)} (hbusy : r.inputs.busy key p) : p ∈ r.paths key := by
  obtain ⟨form, -, hform⟩ := List.any_eq_true.mp hbusy
  obtain ⟨m, hm⟩ : ∃ m, m ∈ r.inputs.modifiers key form p.key := by
    refine List.exists_mem_of_ne_nil _ fun hnil => ?_
    rw [hnil] at hform
    cases hform
  obtain ⟨i, hi, -⟩ := List.mem_map.mp hm
  obtain ⟨e, he, -⟩ := mem_members_iff.mp hi
  obtain ⟨-, hpath⟩ := form?_spec he
  obtain ⟨q, hq, hsame⟩ := List.any_eq_true.mp (hcounted.isIn_paths_of_form he)
  have hkey : p.key = q.key := hpath.symm.trans (beq_iff_eq.mp hsame).symm
  rwa [path_eq_of_key (ho.path_via hsc key q hq) hkey]

theorem Orderly.inputs_paths_nodup (ho : r.Orderly sc) (key : StatKey) : (r.inputs.paths key).Nodup := by
  have hnodup : (r.paths key).Nodup := .of_map Path.key (ho.paths_nodup key)
  unfold inputs
  dsimp only
  split
  · exact hnodup
  · next hmain =>
    refine List.nodup_append.mpr ⟨hnodup, List.nodup_singleton _, ?_⟩
    rintro p hp q hq rfl
    rw [List.mem_singleton.mp hq] at hp
    exact hmain (List.any_eq_true.mpr ⟨_, hp, by simp [Path.same]⟩)

/-- The paths that modifiers are on are told by the modifiers. -/
theorem Orderly.mem_busy_paths_iff (ho : r.Orderly sc) (hcounted : r.Counted) (hsc : sc.Follows)
    {key : StatKey} {p : Path (Stat N)} :
    p ∈ (r.inputs.paths key).filter (r.inputs.busy key) ↔ r.inputs.busy key p := by
  rw [List.mem_filter, and_iff_right_iff_imp]
  intro hbusy
  have hp := hcounted.mem_paths_of_busy ho hsc hbusy
  unfold inputs
  dsimp only
  split
  · exact hp
  · exact List.mem_append_left _ hp

/-- With the same modifiers on file, stats have the same paths, up to their order and to paths without
modifiers. -/
theorem Orderly.reordered (ho : r.Orderly sc) (hcounted : r.Counted) (ho' : r'.Orderly sc)
    (hcounted' : r'.Counted) (hsc : sc.Follows) (h : r.inputs.modifiers = r'.inputs.modifiers) :
    r.inputs.Reordered r'.inputs := by
  refine ⟨h, fun key => ?_⟩
  refine (List.perm_ext_iff_of_nodup ((ho.inputs_paths_nodup key).filter _)
    ((ho'.inputs_paths_nodup key).filter _)).mpr fun p => ?_
  have hbusy : r.inputs.busy key p = r'.inputs.busy key p := by rw [Inputs.busy, h, Inputs.busy]
  rw [ho.mem_busy_paths_iff hcounted hsc, ho'.mem_busy_paths_iff hcounted' hsc, hbusy]

end Registry

/-! ## Values -/

namespace Network.Settled

variable [Number N] {sc : Scope N} {n n' m : Network N A σ} {stat : Stat N}
  {host : Host N A σ} {tell : A → σ → σ} (hhost : host.Quiet tell) (hs : stat ∈ sc.stats)
include hhost hs

/-- A stage that may be asked for comes to the value that the modifiers on file stand for once it was
read, and to none if they stand for none. The modifiers on file stay the same, and so do the paths if the
path is one that the stat has. -/
theorem value_eq_ok_iff (hn : n.Settled sc) {stage : Stage} {path : Path (Stat N)} (hvia : path.via = [])
    (hprovides : n.Provides (.stage stat stage)) {r : Except (Fault N) (Option (Amount N))}
    (hrun : (Calculator.value host stat stage path).run n = some (r, n')) :
    n'.Settled sc ∧ n'.registry.inputs.modifiers = n.registry.inputs.modifiers
      ∧ (n.KnowsPath stat.key stage path → n'.registry.inputs = n.registry.inputs)
      ∧ ∀ v, r = .ok v
        ↔ n'.registry.inputs.Computes (.stage stat stage) (stagePath stage path) (.ok v) := by
  obtain ⟨hn', hmodifiers, hextends, e, n₁, he, hpath, hcomes⟩ :=
    (hn.leads_comesAt hhost hs hvia hprovides).partly hrun
  refine ⟨hn', hmodifiers, fun h => (hextends h).registry.inputs, fun v => ?_⟩
  have hd : n'.Denotes sc.regime e.formula (.stage stat stage) (stagePath stage path) :=
    hpath ▸ .stage he hs rfl
  cases r with
  | ok w =>
    have hw := (hn'.inv.sound _ _ _ _ hd hcomes.1).computes hn'.inv.wired hn'.inv.orderly hd hcomes.1
    refine ⟨fun heq => Except.ok.inj heq ▸ hw, fun hv => ?_⟩
    obtain ⟨depth, hdepth⟩ := hv
    exact (hw.approx depth _ hdepth).eq_ok ▸ rfl
  | error fault =>
    refine ⟨fun heq => (by cases heq), fun hv => ?_⟩
    obtain ⟨depth, hdepth⟩ := hv
    exact absurd hdepth (hn'.hopeless _ _ _ hd hcomes.1 depth v)

/-- A total comes to the value that the modifiers on file stand for, and to none if they stand for none. -/
theorem total_eq_ok_iff (hn : n.Settled sc) {r : Except (Fault N) (Option (Amount N))}
    (hrun : (Calculator.total host stat).run n = some (r, n')) (v : Option (Amount N)) :
    r = .ok v ↔ n.registry.inputs.Computes (.stage stat .total) Path.main (.ok v) := by
  obtain ⟨-, -, hinputs, hvalue⟩ := hn.value_eq_ok_iff hhost hs rfl (n.provides_total stat) hrun
  rw [← hinputs fun h => by cases h]
  exact hvalue v

/-- A total comes to nothing but what the modifiers on file decide, to whatever depth. -/
theorem total_approx (hn : n.Settled sc) {r : Except (Fault N) (Option (Amount N))}
    (hrun : (Calculator.total host stat).run n = some (r, n')) (depth : Nat) :
    Approx (n.registry.inputs.reference depth (.stage stat .total) Path.main).run r := by
  cases r with
  | ok v => exact ((hn.total_eq_ok_iff hhost hs hrun v).mp rfl).approx depth
  | error fault =>
    obtain ⟨hn', hextends, e, n₁, he, -, hdoomed⟩ := (hn.leads_comes hhost hs).partly hrun
    have hpath : e.path = Path.main := path_eq_of_key rfl (Registry.stage?_spec he).2
    have happrox := hdoomed.approx hn'.idle depth
    rwa [hextends.registry.inputs, hpath] at happrox

/-- A total comes to what the modifiers on file decide, unless that is a cycle. -/
theorem total_of_decided (hn : n.Settled sc) {depth : Nat} {result : Except (Fault N) (Option (Amount N))}
    (hdecided : (n.registry.inputs.reference depth (.stage stat .total) Path.main).run = some result)
    (hcycle : ∀ labels, result ≠ .error (.cycle labels)) :
    ∃ n', (Calculator.total host stat).run n = some (result, n') := by
  have hdecides : n.Decides depth (.stage stat .total) Path.main := by
    rw [Decides, hdecided]
    exact Option.some_ne_none result
  obtain ⟨⟨r, n'⟩, hrun⟩ := Option.ne_none_iff_exists'.mp ((hn.leads_comes hhost hs).total ⟨depth, hdecides⟩)
  have hmatches := hn.total_approx hhost hs hrun depth result hdecided
  cases hmatches with
  | ok | fault => exact ⟨n', hrun⟩
  | cycle labels => exact absurd rfl (hcycle labels)

omit hhost hs in
/-- What modifiers stand for does not depend on the order of the paths. -/
theorem computes_of_modifiers_eq [Std.Commutative (α := N) (· + ·)] [Std.Associative (α := N) (· + ·)]
    (hn : n.Settled sc) (hm : m.Settled sc) (hsc : sc.regime.Follows)
    (h : n.registry.inputs.modifiers = m.registry.inputs.modifiers) {stage : Stage} {path : Path (Stat N)}
    {v : Option (Amount N)} (hv : n.registry.inputs.Computes (.stage stat stage) path (.ok v)) :
    m.registry.inputs.Computes (.stage stat stage) path (.ok v) := by
  have hreordered := hn.inv.orderly.reordered hn.inv.counted hm.inv.orderly hm.inv.counted hsc h
  obtain ⟨depth, hdepth⟩ := hv
  refine ⟨depth + 3, hreordered.reference_eq (fun key form p x hx => ?_) ?_ hdepth⟩
  case refine_2 => exact .inl ⟨stat, stage, rfl⟩
  obtain ⟨i, hi, rfl⟩ := List.mem_map.mp hx
  obtain ⟨e, he, hmem⟩ := Registry.mem_members_iff.mp hi
  obtain ⟨-, -, hformula, -⟩ := (hn.inv.wired.forms _ _ _ _ he).members i hmem
  exact (hsc.reads hformula).mono fun _ _ => trivial

end Network.Settled

/-! ## Updates and reads -/

/-- A modifier that names stats of a scope alone, and whose formula reads nothing of them but totals. -/
structure Scope.Contains (sc : Scope N) (m : Modifier N) : Prop where
  stats : ∀ s ∈ m.stats, s ∈ sc.stats
  names : m.formula.Over (· ∈ sc.stats) fun path => ∀ s ∈ path.via, s ∈ sc.stats
  reads : m.formula.ReadsTotals (· ∈ sc.stats)

/-- The stats of a scope are plain, for those that bound them are stats of the scope as well. -/
theorem Scope.plain_of_mem (sc : Scope N) : ∀ s ∈ sc.stats, s.Plain
  | ⟨key, minimum, maximum, precision, listed, behaviors⟩, hs => by
    refine .intro (sc.plain _ hs) (fun t ht => ?_) fun t ht => ?_
    · obtain rfl : minimum = some t := ht
      exact sc.plain_of_mem t (sc.minimum _ hs t rfl)
    · obtain rfl : maximum = some t := ht
      exact sc.plain_of_mem t (sc.maximum _ hs t rfl)

namespace Scope.Contains

variable {sc : Scope N} {m : Modifier N}

theorem allows (h : sc.Contains m) : sc.Allows m :=
  ⟨fun s hs => Scope.admits_of_mem (h.stats s hs), h.reads⟩

theorem plain (h : sc.Contains m) : (Regime.plainStats : Regime N).Allows m where
  stats s hs := sc.plain_of_mem s (h.stats s hs)
  path := fun _ hs => absurd hs List.not_mem_nil
  formula := h.names.mono sc.plain_of_mem fun _ hp s hs => sc.plain_of_mem s (hp s hs)

end Scope.Contains

namespace Calculator

variable [Number N]

section Steps

variable {sc : Scope N} {host : Host N A σ} {n n' : Network N A σ}

/-- An update with modifiers of a scope names plain stats alone. -/
theorem VisitedWithin.update (h : VisitedWithin .plainStats host n) {settings : Settings} {u : Update N}
    (hcontains : ∀ m ∈ u.added, sc.Contains m)
    (hrun : Calculator.update host settings u n = some (⟨⟩, n')) : VisitedWithin .plainStats host n' := by
  have hfits : (Call.update settings u : Call N A).Fits .plainStats n := fun m hm => (hcontains m hm).plain
  exact h.call hfits hrun

/-- So does reading a stage of a stat of the scope. -/
theorem VisitedWithin.value (h : VisitedWithin .plainStats host n) {stat : Stat N} (hs : stat ∈ sc.stats)
    {stage : Stage} {path : Path (Stat N)} (hvia : path.via = []) {r : Except (Fault N) (Option (Amount N))}
    (hrun : (Calculator.value host stat stage path).run n = some (r, n')) :
    VisitedWithin .plainStats host n' := by
  have hplain : path.Plain := fun _ hs => absurd (hvia ▸ hs) List.not_mem_nil
  have hfits : (Call.value stat stage path : Call N A).Fits .plainStats n := ⟨sc.plain_of_mem stat hs, hplain⟩
  have hread : (Call.value stat stage path : Call N A).run host n = some (⟨⟩, n') := by
    change ((Calculator.value host stat stage path).run n).bind _ = _
    rw [hrun]
    rfl
  exact h.call hfits hread

variable {tell : A → σ → σ} {modifiers : List (Modifier N)}

/-- Modifiers are on file after an update as they were before, but for those that the update is about. -/
theorem settled_update (hhost : host.Quiet tell) (hn : n.Settled sc)
    (hmodifiers : n.registry.inputs.modifiers = registered modifiers) {settings : Settings} {u : Update N}
    (hcontains : ∀ m ∈ u.added, sc.Contains m)
    (hrun : Calculator.update host settings u n = some (⟨⟩, n')) :
    n'.Settled sc ∧ n'.registry.inputs.modifiers = registered (u.apply modifiers) := by
  obtain ⟨hinv, hupdates⟩ := (leads_update hhost hn.inv hn.idle hn.calm settings fun m hm =>
    (hcontains m hm).allows.regime).partly hrun
  exact ⟨hn.of_proceeds hinv hupdates.changes.toProceeds, hupdates.modifiers _ hmodifiers⟩

/-- Modifiers of a scope can be added and removed. -/
theorem exists_update (hhost : host.Quiet tell) (hn : n.Settled sc) (settings : Settings) {u : Update N}
    (hcontains : ∀ m ∈ u.added, sc.Contains m) :
    ∃ n', Calculator.update host settings u n = some (⟨⟩, n') := by
  have hupdate := leads_update hhost hn.inv hn.idle hn.calm settings fun m hm =>
    (hcontains m hm).allows.regime
  obtain ⟨⟨⟩, n', hrun, -⟩ := hupdate.exists_eq
  exact ⟨n', hrun⟩

end Steps

/-- A host got to a network by updates and by reading totals, in any order. The modifiers are those that
are left of the registered ones, in the order in which they were registered. -/
inductive Updated (sc : Scope N) (host : Host N A σ) : List (Modifier N) → Network N A σ → Prop where
  /-- There are no modifiers. -/
  | start (settings : Settings) (catalog : Option (Catalog N)) (state : σ) :
    Updated sc host [] (Calculator.start settings catalog state)
  /-- Modifiers are taken back and registered. What is unused is removed afterwards, or it is not. -/
  | update {modifiers : List (Modifier N)} {n n' : Network N A σ} (before : Updated sc host modifiers n)
    (settings : Settings) (u : Update N) (hcontains : ∀ m ∈ u.added, sc.Contains m)
    (hrun : Calculator.update host settings u n = some (⟨⟩, n')) : Updated sc host (u.apply modifiers) n'
  /-- A total is read, with whatever outcome. -/
  | total {modifiers : List (Modifier N)} {n n' : Network N A σ} (before : Updated sc host modifiers n)
    {stat : Stat N} (hs : stat ∈ sc.stats) {r : Except (Fault N) (Option (Amount N))}
    (hrun : (Calculator.total host stat).run n = some (r, n')) : Updated sc host modifiers n'

namespace Updated

variable {sc : Scope N} {host : Host N A σ} {tell : A → σ → σ} {modifiers : List (Modifier N)}
  {n : Network N A σ}

/-- The modifiers that are left have been added at some time. -/
theorem contains (h : Updated sc host modifiers n) : ∀ m ∈ modifiers, sc.Contains m := by
  have hremoved (removed : List (Modifier N)) : ∀ modifiers : List (Modifier N),
      removed.foldl (fun modifiers m => modifiers.eraseP (·.same m)) modifiers ⊆ modifiers := by
    induction removed with
    | nil => exact fun _ _ hm => hm
    | cons x removed ih => exact fun modifiers m hm => List.eraseP_subset (ih _ hm)
  induction h with
  | start => exact fun m hm => absurd hm List.not_mem_nil
  | update _ settings u hcontains hrun ih =>
    intro m hm
    rcases List.mem_append.mp hm with hm | hm
    · exact ih m (hremoved u.removed _ hm)
    · exact hcontains m hm
  | total _ hs hrun ih => exact ih

/-- Updates and reads are calls that name plain stats. -/
theorem visitedWithin (h : Updated sc host modifiers n) : VisitedWithin .plainStats host n := by
  induction h with
  | start settings catalog state => exact .start settings catalog state
  | update _ settings u hcontains hrun ih => exact ih.update hcontains hrun
  | total _ hs hrun ih => exact ih.value hs rfl hrun

/-- Between updates and reads the modifiers on file are those that are left. -/
theorem settled (hhost : host.Quiet tell) (h : Updated sc host modifiers n) :
    n.Settled sc ∧ n.registry.inputs.modifiers = registered modifiers := by
  induction h with
  | start settings catalog state => exact ⟨settled_start settings catalog state, rfl⟩
  | update _ settings u hcontains hrun ih => exact settled_update hhost ih.1 ih.2 hcontains hrun
  | total _ hs hrun ih =>
    obtain ⟨hn, hmodifiers⟩ := ih
    obtain ⟨hn', hextends, -⟩ := (hn.leads_total hhost hs).partly hrun
    exact ⟨hn', by rw [hextends.registry.inputs, hmodifiers]⟩

/-- An update has a result. -/
theorem exists_update (hhost : host.Quiet tell) (h : Updated sc host modifiers n) (settings : Settings)
    (u : Update N) (hcontains : ∀ m ∈ u.added, sc.Contains m) :
    ∃ n', Calculator.update host settings u n = some (⟨⟩, n') ∧ Updated sc host (u.apply modifiers) n' := by
  obtain ⟨n', hrun⟩ := Calculator.exists_update hhost (h.settled hhost).1 settings hcontains
  exact ⟨n', hrun, h.update settings u hcontains hrun⟩

end Updated

variable {sc : Scope N} {host : Host N A σ} {tell : A → σ → σ}

/-- Whatever was updated and read before, reading a total has a result, and it comes to a value just if it
comes to this value in a calculator that is new: one that was given the modifiers that are left, in the
order in which they were registered, and that was never read. Sums must not depend on the order of their
terms, for paths appear in an order of their own. -/
theorem total_eq_from_scratch [Std.Commutative (α := N) (· + ·)] [Std.Associative (α := N) (· + ·)]
    (hhost : host.Aloof tell) (hnote : ∀ text (n : Network N A σ), (host.note text) n ≠ none)
    {modifiers : List (Modifier N)} {n : Network N A σ} (h : Updated sc host modifiers n) {stat : Stat N}
    (hs : stat ∈ sc.stats) (settings : Settings) (catalog : Option (Catalog N)) (state : σ) :
    ∃ r n' r' fresh fresh', (total host stat).run n = some (r, n')
      ∧ update host settings ⟨modifiers, []⟩ (start settings catalog state) = some (⟨⟩, fresh)
      ∧ (total host stat).run fresh = some (r', fresh')
      ∧ ∀ v, r = .ok v ↔ r' = .ok v := by
  have hplain : stat.Plain := sc.plain_of_mem stat hs
  have hmain : (Path.main : Path (Stat N)).Plain := fun _ hs => absurd hs List.not_mem_nil
  have hsc : sc.regime.Follows := Regime.follows hs
  -- the new calculator
  have hstart : Updated sc host [] (start settings catalog state : Network N A σ) := .start ..
  obtain ⟨fresh, hfresh, h'⟩ := hstart.exists_update hhost.toQuiet settings ⟨modifiers, []⟩ h.contains
  change Updated sc host modifiers fresh at h'
  -- both can be read
  obtain ⟨⟨r, n'⟩, hr⟩ := h.visitedWithin.exists_value hhost hnote hplain hmain .total
  obtain ⟨⟨r', fresh'⟩, hr'⟩ := h'.visitedWithin.exists_value hhost hnote hplain hmain .total
  refine ⟨r, n', r', fresh, fresh', hr, hfresh, hr', fun v => ?_⟩
  -- and both come to what the same modifiers stand for
  obtain ⟨hn, hmodifiers⟩ := h.settled hhost.toQuiet
  obtain ⟨hn', hmodifiers'⟩ := h'.settled hhost.toQuiet
  rw [hn.total_eq_ok_iff hhost.toQuiet hs hr, hn'.total_eq_ok_iff hhost.toQuiet hs hr']
  have heq := hmodifiers.trans hmodifiers'.symm
  exact ⟨hn.computes_of_modifiers_eq hn' hsc heq, hn'.computes_of_modifiers_eq hn hsc heq.symm⟩

/-- A stat loses one of its modifiers between two reads. What is read then is what the other one stands
for. -/
theorem total_after_loss : ∃ (sc : Scope ℚ) (life : Stat ℚ) (m m' : Modifier ℚ) (n : Network ℚ Unit Unit),
    life ∈ sc.stats ∧ m.source.source ≠ m'.source.source ∧ Updated sc Host.idle [m'] n
      ∧ ∃ r n' r', ∃ fresh fresh' : Network ℚ Unit Unit, (total Host.idle life).run n = some (r, n')
        ∧ update Host.idle .standard ⟨[m'], []⟩ (start .standard none ()) = some (⟨⟩, fresh)
        ∧ (total Host.idle life).run fresh = some (r', fresh') ∧ ∀ v, r = .ok v ↔ r' = .ok v := by
  let life : Stat ℚ := ⟨⟨"Life", .character⟩, none, none, .double, true, []⟩
  let sc : Scope ℚ :=
    { stats := [life]
      unique := fun s hs t ht _ => (List.mem_singleton.mp hs).trans (List.mem_singleton.mp ht).symm
      minimum := fun s hs t ht => by
        rw [List.mem_singleton.mp hs] at ht
        cases ht
      maximum := fun s hs t ht => by
        rw [List.mem_singleton.mp hs] at ht
        cases ht
      plain := fun s hs => by rw [List.mem_singleton.mp hs] }
  have hlife : life ∈ sc.stats := List.mem_singleton_self _
  let m : Modifier ℚ := ⟨[life], .baseAdd, .constant (some (.single 5)), 0, ⟨.global, ""⟩⟩
  let m' : Modifier ℚ := ⟨[life], .baseAdd, .constant (some (.single 7)), 1, ⟨.particular .given, ""⟩⟩
  have hcontains : ∀ x ∈ [m, m'], sc.Contains x := by
    intro x hx
    rcases List.mem_cons.mp hx with rfl | hx
    · exact ⟨fun _ hs => hs, .constant _, .constant _⟩
    · obtain rfl := List.mem_singleton.mp hx
      exact ⟨fun _ hs => hs, .constant _, .constant _⟩
  have hnote : ∀ text (n : Network ℚ Unit Unit), ((Host.idle : Host ℚ Unit Unit).note text) n ≠ none :=
    fun _ _ => Option.some_ne_none _
  -- both modifiers are registered, the total is read, and one modifier is taken back
  have hstart : Updated sc Host.idle [] (start .standard none () : Network ℚ Unit Unit) := .start ..
  obtain ⟨n₁, -, hn₁⟩ := hstart.exists_update Host.quiet_idle .standard ⟨[m, m'], []⟩ hcontains
  obtain ⟨r, n₁', -, -, -, hread, -⟩ :=
    total_eq_from_scratch Host.aloof_idle hnote hn₁ hlife .standard none ()
  have hn₁' := hn₁.total hlife hread
  obtain ⟨n₂, -, hn₂⟩ := hn₁'.exists_update Host.quiet_idle .standard ⟨[], [m]⟩ (by simp)
  have hleft : ([m'] : List (Modifier ℚ)) = (⟨[], [m]⟩ : Update ℚ).apply [m, m'] := rfl
  have hlost : Updated sc Host.idle [m'] n₂ := hleft ▸ hn₂
  exact ⟨sc, life, m, m', n₂, hlife, by decide, hlost,
    total_eq_from_scratch Host.aloof_idle hnote hlost hlife .standard none ()⟩

end Calculator

end StatEngine
