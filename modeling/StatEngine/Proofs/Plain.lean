import StatEngine.Proofs.Nesting

/-!
# Networks of plain stats

Stats without behaviors are plain if their bounds are. A host that uses plain stats only, and formulas
that read any nodes, paths and modifiers of plain stats, names finitely many stats and paths in the course
of its calls. So every run takes place within a vocabulary, and whatever is read has an answer.

## Main definitions

* `Stat.Plain` and `Regime.plainStats`: stats without behaviors, and the use of a network with such stats;
* `Calculator.VisitedWithin`: the networks that a host can get to by calls that a regime admits.

## Main statements

* `Calculator.VisitedWithin.exists_vocabulary`: every run with plain stats takes place within a vocabulary;
* `Calculator.reads_return`: every read returns, with a stack that has no node twice.
-/

namespace StatEngine

open Network

variable {N A σ : Type}

/-- A stat without behaviors, whose bounds have none either. -/
inductive Stat.Plain : Stat N → Prop where
  | intro {s : Stat N} (behaviors : s.behaviors = []) (minimum : ∀ t, s.minimum = some t → t.Plain)
    (maximum : ∀ t, s.maximum = some t → t.Plain) : s.Plain

theorem Stat.Plain.behaviors_eq {s : Stat N} (h : s.Plain) : s.behaviors = [] := by
  cases h with
  | intro behaviors _ _ => exact behaviors

/-- A path that came through plain stats. -/
def Path.Plain (p : Path (Stat N)) : Prop := ∀ s ∈ p.via, s.Plain

/-! ## Vocabularies that grow -/

namespace Vocabulary

instance : LE (Vocabulary N) := ⟨fun voc voc' => voc.stats ⊆ voc'.stats ∧ voc.paths ⊆ voc'.paths⟩

/-- There is a vocabulary: no stats, and the main path alone. -/
theorem exists_of_forall {P : Vocabulary N → Prop} (h : ∀ voc, P voc) : ∃ voc, P voc := by
  let voc : Vocabulary N :=
    { stats := []
      paths := [.main]
      plain := by simp
      minimum := by simp
      maximum := by simp
      main := List.mem_singleton_self _
      source := fun p hp => by
        rw [List.mem_singleton.mp hp]
        exact List.mem_singleton_self _
      via := fun p hp s hs => by
        rw [List.mem_singleton.mp hp] at hs
        exact absurd hs List.not_mem_nil }
  exact ⟨voc, h voc⟩

/-- The stats and paths of two vocabularies. -/
def union (voc voc' : Vocabulary N) : Vocabulary N where
  stats := voc.stats ++ voc'.stats
  paths := voc.paths ++ voc'.paths
  plain s hs := (List.mem_append.mp hs).elim (voc.plain s) (voc'.plain s)
  minimum s hs t ht := List.mem_append.mpr
    ((List.mem_append.mp hs).imp (voc.minimum s · t ht) (voc'.minimum s · t ht))
  maximum s hs t ht := List.mem_append.mpr
    ((List.mem_append.mp hs).imp (voc.maximum s · t ht) (voc'.maximum s · t ht))
  main := List.mem_append_left _ voc.main
  source p hp := List.mem_append.mpr ((List.mem_append.mp hp).imp (voc.source p) (voc'.source p))
  via p hp s hs := List.mem_append.mpr
    ((List.mem_append.mp hp).imp (voc.via p · s hs) (voc'.via p · s hs))

theorem le_union_left (voc voc' : Vocabulary N) : voc ≤ voc.union voc' :=
  ⟨List.subset_append_left _ _, List.subset_append_left _ _⟩

theorem le_union_right (voc voc' : Vocabulary N) : voc' ≤ voc.union voc' :=
  ⟨List.subset_append_right _ _, List.subset_append_right _ _⟩

/-- One more stat, whose bounds can be named already. -/
def withStat (voc : Vocabulary N) (stat : Stat N) (hplain : stat.behaviors = [])
    (hmin : ∀ t, stat.minimum = some t → t ∈ voc.stats)
    (hmax : ∀ t, stat.maximum = some t → t ∈ voc.stats) : Vocabulary N where
  stats := stat :: voc.stats
  paths := voc.paths
  plain s hs := (List.mem_cons.mp hs).elim (fun h => h ▸ hplain) (voc.plain s)
  minimum s hs t ht := List.mem_cons_of_mem _ <|
    (List.mem_cons.mp hs).elim (fun h => hmin t (h ▸ ht)) (voc.minimum s · t ht)
  maximum s hs t ht := List.mem_cons_of_mem _ <|
    (List.mem_cons.mp hs).elim (fun h => hmax t (h ▸ ht)) (voc.maximum s · t ht)
  main := voc.main
  source := voc.source
  via p hp s hs := List.mem_cons_of_mem _ (voc.via p hp s hs)

/-- One more path, which came through stats that can be named already. -/
def withPath (voc : Vocabulary N) (path : Path (Stat N)) (hvia : ∀ s ∈ path.via, s ∈ voc.stats) :
    Vocabulary N where
  stats := voc.stats
  paths := path :: .ofSource path.source :: voc.paths
  plain := voc.plain
  minimum := voc.minimum
  maximum := voc.maximum
  main := List.mem_cons_of_mem _ (List.mem_cons_of_mem _ voc.main)
  source p hp := by
    rcases List.mem_cons.mp hp with rfl | hp
    · exact List.mem_cons_of_mem _ List.mem_cons_self
    rcases List.mem_cons.mp hp with rfl | hp
    · exact List.mem_cons_of_mem _ List.mem_cons_self
    · exact List.mem_cons_of_mem _ (List.mem_cons_of_mem _ (voc.source p hp))
  via p hp s hs := by
    rcases List.mem_cons.mp hp with rfl | hp
    · exact hvia s hs
    rcases List.mem_cons.mp hp with rfl | hp
    · exact absurd hs List.not_mem_nil
    · exact voc.via p hp s hs

/-- What can be named in some vocabulary each can be named in one. -/
theorem exists_forall {α : Type} (P : Vocabulary N → α → Prop)
    (hmono : ∀ {voc voc' : Vocabulary N} {a}, voc ≤ voc' → P voc a → P voc' a) {l : List α}
    (h : ∀ a ∈ l, ∃ voc, P voc a) : ∃ voc, ∀ a ∈ l, P voc a := by
  induction l with
  | nil => exact exists_of_forall fun _ a ha => absurd ha List.not_mem_nil
  | cons a l ih =>
    obtain ⟨voc, ha⟩ := h a List.mem_cons_self
    obtain ⟨voc', hl⟩ := ih fun b hb => h b (List.mem_cons_of_mem _ hb)
    refine ⟨voc.union voc', fun b hb => ?_⟩
    rcases List.mem_cons.mp hb with rfl | hb
    · exact hmono (le_union_left voc voc') ha
    · exact hmono (le_union_right voc voc') (hl b hb)

/-- What can be named in some vocabulary, if it is there, can be named. -/
theorem exists_of_option {α : Type} {P : Vocabulary N → α → Prop} {o : Option α}
    (h : ∀ a, o = some a → ∃ voc, P voc a) : ∃ voc, ∀ a, o = some a → P voc a := by
  cases o with
  | none => exact exists_of_forall fun _ a ha => nomatch ha
  | some a =>
    obtain ⟨voc, ha⟩ := h a rfl
    exact ⟨voc, fun b hb => Option.some.inj hb ▸ ha⟩

/-- Two things that can be named can be named in one vocabulary. -/
theorem exists_and {P Q : Vocabulary N → Prop} (hP : ∀ {voc voc' : Vocabulary N}, voc ≤ voc' → P voc → P voc')
    (hQ : ∀ {voc voc' : Vocabulary N}, voc ≤ voc' → Q voc → Q voc') (h : ∃ voc, P voc) (h' : ∃ voc, Q voc) :
    ∃ voc, P voc ∧ Q voc := by
  obtain ⟨voc, h⟩ := h
  obtain ⟨voc', h'⟩ := h'
  exact ⟨voc.union voc', hP (le_union_left voc voc') h, hQ (le_union_right voc voc') h'⟩

theorem mem_stats_mono {voc voc' : Vocabulary N} {s : Stat N} (hle : voc ≤ voc') (h : s ∈ voc.stats) :
    s ∈ voc'.stats := hle.1 h

theorem mem_paths_mono {voc voc' : Vocabulary N} {p : Path (Stat N)} (hle : voc ≤ voc')
    (h : p ∈ voc.paths) : p ∈ voc'.paths := hle.2 h

end Vocabulary

/-! ## What plain stats name -/

/-- The use of a network with plain stats, and formulas that read whatever they like of such stats. -/
def Regime.plainStats : Regime N :=
  .naming Stat.Plain Path.Plain (fun _ h => h.behaviors_eq) fun _ h => absurd h List.not_mem_nil

theorem Formula.Over.mono {P P' : Stat N → Prop} {Q Q' : Path (Stat N) → Prop} (hP : ∀ s, P s → P' s)
    (hQ : ∀ p, Q p → Q' p) {formula : Formula N} (h : formula.Over P Q) : formula.Over P' Q' := by
  induction h with
  | constant value => exact .constant value
  | stage h stage => exact .stage (hP _ h) stage
  | total h => exact .total (hP _ h)
  | optionalTotal h => exact .optionalTotal fun s hs => hP s (h s hs)
  | mainValue h stage => exact .mainValue (hP _ h) stage
  | value h stage hpath => exact .value (hP _ h) stage fun p hp => hQ p (hpath p hp)
  | sumOverPaths h stage => exact .sumOverPaths (hP _ h) stage
  | sumOfForm h form => exact .sumOfForm (hP _ h) form
  | aggregated form h =>
    refine .aggregated form fun place hp => ⟨hP _ (h place hp).1, fun p hpath => ?_⟩
    exact hQ p ((h place hp).2 p hpath)
  | countValues form h =>
    refine .countValues form fun place hp => ⟨hP _ (h place hp).1, fun p hpath => ?_⟩
    exact hQ p ((h place hp).2 p hpath)
  | countPaths h => exact .countPaths (hP _ h)
  | onMainPath => exact .onMainPath
  | add _ ih => exact .add ih
  | multiply _ ih => exact .multiply ih
  | subtract _ _ hl hr => exact .subtract hl hr
  | divide _ _ hl hr => exact .divide hl hr
  | orElse _ _ hf hs => exact .orElse hf hs
  | ifNonZero _ _ _ hc hy hn => exact .ifNonZero hc hy hn
  | noted name _ ih => exact .noted name ih
  | fail fault => exact .fail fault

theorem Formula.Within.mono {voc voc' : Vocabulary N} {formula : Formula N} (hle : voc ≤ voc')
    (h : formula.Within voc) : formula.Within voc' :=
  Formula.Over.mono (fun _ hs => hle.1 hs) (fun _ hp => hle.2 hp) h

/-- A plain stat can be named. -/
theorem Stat.Plain.exists_vocabulary {stat : Stat N} (h : stat.Plain) :
    ∃ voc : Vocabulary N, stat ∈ voc.stats := by
  induction h with
  | @intro stat hplain _ _ hmin hmax =>
    obtain ⟨voc, hmin⟩ := Vocabulary.exists_of_option hmin
    obtain ⟨voc', hmax⟩ := Vocabulary.exists_of_option hmax
    refine ⟨(voc.union voc').withStat stat hplain (fun t ht => ?_) fun t ht => ?_, List.mem_cons_self⟩
    · exact List.mem_append_left _ (hmin t ht)
    · exact List.mem_append_right _ (hmax t ht)

/-- A plain path can be named. -/
theorem Path.Plain.exists_vocabulary {path : Path (Stat N)} (h : path.Plain) :
    ∃ voc : Vocabulary N, path ∈ voc.paths := by
  obtain ⟨voc, hvia⟩ : ∃ voc : Vocabulary N, ∀ s ∈ path.via, s ∈ voc.stats :=
    Vocabulary.exists_forall (fun voc s => s ∈ voc.stats) Vocabulary.mem_stats_mono fun s hs =>
      (h s hs).exists_vocabulary
  exact ⟨voc.withPath path hvia, List.mem_cons_self⟩

section Places

variable {places : List (Stat N × Option (Path (Stat N)))}

/-- Plain places can be named. -/
theorem exists_vocabulary_of_places
    (h : ∀ place ∈ places, place.1.Plain ∧ ∀ p, place.2 = some p → p.Plain) :
    ∃ voc : Vocabulary N, ∀ place ∈ places, place.1 ∈ voc.stats ∧ ∀ p, place.2 = some p → p ∈ voc.paths := by
  refine Vocabulary.exists_forall
    (fun voc (place : Stat N × Option (Path (Stat N))) =>
      place.1 ∈ voc.stats ∧ ∀ p, place.2 = some p → p ∈ voc.paths)
    (fun hle h => ⟨hle.1 h.1, fun p hp => hle.2 (h.2 p hp)⟩) ?_
  intro place hplace
  obtain ⟨hstat, hpath⟩ := h place hplace
  refine Vocabulary.exists_and Vocabulary.mem_stats_mono (fun hle h p hp => hle.2 (h p hp))
    hstat.exists_vocabulary ?_
  exact Vocabulary.exists_of_option fun p hp => (hpath p hp).exists_vocabulary

end Places

/-- Formulas that can be named each can be named together. -/
theorem exists_vocabulary_of_operands {operands : List (Formula N)}
    (h : ∀ f ∈ operands, ∃ voc : Vocabulary N, Formula.Within voc f) :
    ∃ voc : Vocabulary N, ∀ f ∈ operands, Formula.Within voc f :=
  Vocabulary.exists_forall (fun voc f => Formula.Within voc f) Formula.Within.mono h

/-- What a formula reads of plain stats can be named. -/
theorem Formula.Over.exists_vocabulary {formula : Formula N} (h : formula.Over Stat.Plain Path.Plain) :
    ∃ voc : Vocabulary N, formula.Within voc := by
  induction h with
  | constant value => exact Vocabulary.exists_of_forall fun _ => .constant value
  | onMainPath => exact Vocabulary.exists_of_forall fun _ => .onMainPath
  | fail fault => exact Vocabulary.exists_of_forall fun _ => .fail fault
  | stage h stage => exact h.exists_vocabulary.imp fun _ h => .stage h stage
  | total h => exact h.exists_vocabulary.imp fun _ h => .total h
  | optionalTotal h =>
    exact (Vocabulary.exists_of_option fun s hs => (h s hs).exists_vocabulary).imp fun _ h =>
      .optionalTotal h
  | mainValue h stage => exact h.exists_vocabulary.imp fun _ h => .mainValue h stage
  | value h stage hpath =>
    obtain ⟨voc, hstat, hpath⟩ := Vocabulary.exists_and Vocabulary.mem_stats_mono
      (fun hle h p hp => hle.2 (h p hp)) h.exists_vocabulary
      (Vocabulary.exists_of_option fun p hp => (hpath p hp).exists_vocabulary)
    exact ⟨voc, .value hstat stage hpath⟩
  | sumOverPaths h stage => exact h.exists_vocabulary.imp fun _ h => .sumOverPaths h stage
  | sumOfForm h form => exact h.exists_vocabulary.imp fun _ h => .sumOfForm h form
  | aggregated form h => exact (exists_vocabulary_of_places h).imp fun _ h => .aggregated form h
  | countValues form h => exact (exists_vocabulary_of_places h).imp fun _ h => .countValues form h
  | countPaths h => exact h.exists_vocabulary.imp fun _ h => .countPaths h
  | add _ ih => exact (exists_vocabulary_of_operands ih).imp fun _ h => .add h
  | multiply _ ih => exact (exists_vocabulary_of_operands ih).imp fun _ h => .multiply h
  | subtract _ _ hl hr =>
    exact (Vocabulary.exists_and Formula.Within.mono Formula.Within.mono hl hr).imp fun _ h =>
      .subtract h.1 h.2
  | divide _ _ hl hr =>
    exact (Vocabulary.exists_and Formula.Within.mono Formula.Within.mono hl hr).imp fun _ h =>
      .divide h.1 h.2
  | orElse _ _ hf hs =>
    exact (Vocabulary.exists_and Formula.Within.mono Formula.Within.mono hf hs).imp fun _ h =>
      .orElse h.1 h.2
  | ifNonZero _ _ _ hc hy hn =>
    have hyn := Vocabulary.exists_and Formula.Within.mono Formula.Within.mono hy hn
    have hall := Vocabulary.exists_and Formula.Within.mono
      (fun hle h => ⟨Formula.Within.mono hle h.1, Formula.Within.mono hle h.2⟩) hc hyn
    exact hall.imp fun _ h => .ifNonZero h.1 h.2.1 h.2.2
  | noted name _ ih => exact ih.imp fun _ h => .noted name h

/-! ## Runs within a vocabulary -/

theorem Vocabulary.allows_mono {voc voc' : Vocabulary N} {m : Modifier N} (hle : voc ≤ voc')
    (h : voc.regime.Allows m) : voc'.regime.Allows m :=
  ⟨fun s hs => hle.1 (h.stats s hs), hle.2 h.path, Formula.Within.mono hle h.formula⟩

/-- What a plain modifier names can be named. -/
theorem Regime.Allows.exists_vocabulary {m : Modifier N} (h : (Regime.plainStats : Regime N).Allows m) :
    ∃ voc : Vocabulary N, voc.regime.Allows m := by
  have hstats : ∃ voc : Vocabulary N, ∀ s ∈ m.stats, s ∈ voc.stats :=
    Vocabulary.exists_forall (fun voc s => s ∈ voc.stats) Vocabulary.mem_stats_mono fun s hs =>
      Stat.Plain.exists_vocabulary (h.stats s hs)
  have hrest := Vocabulary.exists_and Vocabulary.mem_paths_mono Formula.Within.mono
    (Path.Plain.exists_vocabulary h.path) (Formula.Over.exists_vocabulary h.formula)
  obtain ⟨voc, hstats, hpath, hformula⟩ := Vocabulary.exists_and (fun hle h s hs => hle.1 (h s hs))
    (fun hle h => ⟨Vocabulary.mem_paths_mono hle h.1, Formula.Within.mono hle h.2⟩) hstats hrest
  exact ⟨voc, hstats, hpath, hformula⟩

namespace Calculator

section Calls

variable {n : Network N A σ} {call : Call N A}

theorem Call.Fits.mono {voc voc' : Vocabulary N} (hle : voc ≤ voc') (h : call.Fits voc.regime n) :
    call.Fits voc'.regime n := by
  cases call with
  | add m => exact Vocabulary.allows_mono hle h
  | update settings u => exact fun m hm => Vocabulary.allows_mono hle (h m hm)
  | value | form => exact ⟨hle.1 h.1, hle.2 h.2⟩
  | paths stat => exact hle.1 h
  | _ => exact h

/-- What a call names of plain stats can be named. -/
theorem Call.Fits.exists_vocabulary (h : call.Fits .plainStats n) :
    ∃ voc : Vocabulary N, call.Fits voc.regime n := by
  cases call with
  | add m => exact Regime.Allows.exists_vocabulary h
  | update settings u =>
    exact Vocabulary.exists_forall (fun voc m => voc.regime.Allows m) Vocabulary.allows_mono fun m hm =>
      Regime.Allows.exists_vocabulary (h m hm)
  | value | form =>
    exact Vocabulary.exists_and Vocabulary.mem_stats_mono Vocabulary.mem_paths_mono
      (Stat.Plain.exists_vocabulary h.1)
      (Path.Plain.exists_vocabulary h.2)
  | paths stat => exact Stat.Plain.exists_vocabulary h
  | _ => exact Vocabulary.exists_of_forall fun _ => h

end Calls

variable [Number N]

/-- The networks that a host can get to by calls that a regime admits. -/
inductive VisitedWithin (sc : Regime N) (host : Host N A σ) : Network N A σ → Prop where
  /-- There is nothing yet. -/
  | start (settings : Settings) (catalog : Option (Catalog N)) (state : σ) :
    VisitedWithin sc host (Calculator.start settings catalog state)
  /-- One more call was carried out. -/
  | call {n n' : Network N A σ} (before : VisitedWithin sc host n) {call : Call N A}
    (hfits : call.Fits sc n) (hrun : call.run host n = some (⟨⟩, n')) : VisitedWithin sc host n'

namespace VisitedWithin

variable {host : Host N A σ} {n : Network N A σ}

theorem mono {voc voc' : Vocabulary N} (hle : voc ≤ voc') (h : VisitedWithin voc.regime host n) :
    VisitedWithin voc'.regime host n := by
  induction h with
  | start settings catalog state => exact .start settings catalog state
  | call _ hfits hrun ih => exact ih.call (hfits.mono hle) hrun

/-- Every run with plain stats takes place within a vocabulary. -/
theorem exists_vocabulary (h : VisitedWithin .plainStats host n) :
    ∃ voc : Vocabulary N, VisitedWithin voc.regime host n := by
  induction h with
  | start settings catalog state => exact Vocabulary.exists_of_forall fun _ => .start settings catalog state
  | call _ hfits hrun ih =>
    obtain ⟨voc, hbefore, hcall⟩ := Vocabulary.exists_and mono Call.Fits.mono ih hfits.exists_vocabulary
    exact ⟨voc, hbefore.call hcall hrun⟩

variable {tell : A → σ → σ} (hhost : host.Aloof tell)
  (hnote : ∀ text (n : Network N A σ), (host.note text) n ≠ none)
include hhost hnote

/-- Between calls nothing is being computed, and all is in order. -/
theorem rests {voc : Vocabulary N} (h : VisitedWithin voc.regime host n) : n.Rests voc.regime := by
  induction h with
  | start settings catalog state => exact .start voc.not_follows settings catalog state
  | call _ hfits hrun ih =>
    have hlegible : Legible voc.regime False host := fun hn hid =>
      (legible_vocabulary hhost hnote hn hid).mono False.elim fun _ _ h => h
    exact ((ih.call hhost hlegible hfits).partly hrun).1

/-- All is in order within a vocabulary that has some plain stat and path besides. -/
theorem exists_rests (h : VisitedWithin .plainStats host n) {stat : Stat N} {path : Path (Stat N)}
    (hstat : stat.Plain) (hpath : path.Plain) :
    ∃ voc : Vocabulary N, n.Rests voc.regime ∧ stat ∈ voc.stats ∧ path ∈ voc.paths := by
  obtain ⟨voc, hvoc⟩ := h.exists_vocabulary
  obtain ⟨voc', hnames⟩ := Vocabulary.exists_and Vocabulary.mem_stats_mono Vocabulary.mem_paths_mono
    hstat.exists_vocabulary hpath.exists_vocabulary
  have hn := (hvoc.mono (voc.le_union_left voc')).rests hhost hnote
  exact ⟨voc.union voc', hn, Vocabulary.mem_stats_mono (voc.le_union_right voc') hnames.1,
    Vocabulary.mem_paths_mono (voc.le_union_right voc') hnames.2⟩

/-- Any stage of a plain stat can be read. -/
theorem exists_value (h : VisitedWithin .plainStats host n) {stat : Stat N} {path : Path (Stat N)}
    (hstat : stat.Plain) (hpath : path.Plain) (stage : Stage) :
    ∃ answer, (Calculator.value host stat stage path).run n = some answer := by
  obtain ⟨voc, hn, hstat, hpath⟩ := h.exists_rests hhost hnote hstat hpath
  have hvalue := hn.leads_value hhost (legible_vocabulary hhost hnote) hstat stage hpath
  exact Option.ne_none_iff_exists'.mp (hvalue.total trivial)

end VisitedWithin

/-- Every read returns in a network that a host got to with plain stats, whatever reads whatever. The run
takes place within a vocabulary. Within any such vocabulary, reading comes to the same if the stack of the
nodes that are being computed is kept (`readStacked`): it never has a node twice, a node that is on it is
part of a cycle, and it has no more nodes than the vocabulary has cells. A node that is on file no more may
be below these. -/
theorem reads_return {host : Host N A σ} {tell : A → σ → σ} (hhost : host.Aloof tell)
    (hnote : ∀ text (n : Network N A σ), (host.note text) n ≠ none) {n : Network N A σ}
    (h : VisitedWithin .plainStats host n) :
    (∀ id, n.Readable id → ∃ answer, (valueOf host id).run n = some answer)
    ∧ (∀ (stat : Stat N) (path : Path (Stat N)), stat.Plain → path.Plain →
      (∀ stage, ∃ answer, (Calculator.value host stat stage path).run n = some answer)
      ∧ ∀ form, ∃ n', (Call.form stat form path : Call N A).run host n = some (⟨⟩, n'))
    ∧ (∃ voc : Vocabulary N, VisitedWithin voc.regime host n)
    ∧ ∀ voc : Vocabulary N, VisitedWithin voc.regime host n →
      (∀ id, n.OnFile id → ∃ answer, (valueOf host id).run n = some answer
        ∧ ∀ depth, 3 * (voc.cells n.memberIds).card + 3 ≤ depth →
          (readStacked host (voc.cells n.memberIds).card depth [] id).run n = some answer)
      ∧ ∀ id, n.Readable id → ∃ answer enough, (valueOf host id).run n = some answer
        ∧ ∀ depth, enough ≤ depth →
          (readStacked host ((voc.cells n.memberIds).card + 1) depth [] id).run n = some answer := by
  obtain ⟨voc, hvoc⟩ := h.exists_vocabulary
  refine ⟨fun id hid => ?_, fun stat path hstat hpath => ?_, ⟨voc, hvoc⟩, fun voc hvoc => ?_⟩
  · obtain ⟨answer, -, hanswer, -⟩ := (hvoc.rests hhost hnote).valueOf_stacked hhost hnote hid
    exact ⟨answer, hanswer⟩
  · refine ⟨h.exists_value hhost hnote hstat hpath, ?_⟩
    intro form
    obtain ⟨voc', hn, hstat, hpath⟩ := h.exists_rests hhost hnote hstat hpath
    have hform := hn.leads_form hhost (legible_vocabulary hhost hnote) hstat form hpath
    obtain ⟨⟨⟩, n', hrun, -⟩ := hform.exists_eq
    exact ⟨n', hrun⟩
  · have hn := hvoc.rests hhost hnote
    exact ⟨fun id hid => hn.valueOf_onFile hhost hnote hid, fun id hid => hn.valueOf_stacked hhost hnote hid⟩

/-- A modifier of a stat that reads the total of the stat makes reading the total a fault. -/
theorem circular_read_returns : ∃ (life : Stat Float) (m : Modifier Float) (n : Network Float Unit Unit),
    m.stats = [life] ∧ m.formula = .total life ∧ addModifier Host.idle m (start .standard none ()) = some (⟨⟩, n)
      ∧ ∃ path n', (Calculator.value Host.idle life .total Path.main).run n
        = some (.error (.cycle path), n') := by
  let life : Stat Float := ⟨⟨"Life", .character⟩, none, none, .double, true, []⟩
  let m : Modifier Float := ⟨[life], .baseAdd, .total life, 0, ⟨.global, ""⟩⟩
  let isCycle : Except (Fault Float) (Option (Amount Float)) → Bool
    | .error fault => fault.isClosedCycle
    | .ok _ => false
  have hfacts : (addModifier Host.idle m (start .standard none () : Network Float Unit Unit)).map (fun r =>
      ((Calculator.value Host.idle life .total Path.main).run r.2).any fun r => isCycle r.1)
        = some true := by
    decide +kernel
  obtain ⟨⟨_, n⟩, hrun, hcycle⟩ := Option.map_eq_some_iff.mp hfacts
  have hlife : life.Plain := .intro rfl (fun _ h => by cases h) fun _ h => by cases h
  have hmain : (Path.main : Path (Stat Float)).Plain := fun _ h => absurd h List.not_mem_nil
  have hallows : (Regime.plainStats : Regime Float).Allows m :=
    ⟨fun s hs => List.mem_singleton.mp hs ▸ hlife, fun _ h => absurd h List.not_mem_nil, .total hlife⟩
  have hfits : (Call.add m : Call Float Unit).Fits .plainStats (start .standard none () : Network Float Unit Unit) :=
    hallows
  have hvisited : VisitedWithin .plainStats Host.idle n := .call (.start .standard none ()) hfits hrun
  obtain ⟨-, hreads, -⟩ := reads_return Host.aloof_idle (fun _ _ => Option.some_ne_none _) hvisited
  obtain ⟨⟨result, n'⟩, hread⟩ := (hreads life Path.main hlife hmain).1 .total
  rw [hread, Option.any_some] at hcycle
  cases result with
  | ok v => cases hcycle
  | error fault =>
    cases fault with
    | cycle path => exact ⟨life, m, n, rfl, rfl, hrun, path, n', hread⟩
    | _ => cases hcycle

end Calculator

end StatEngine
