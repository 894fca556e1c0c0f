import StatEngine.Proofs.Logging
import StatEngine.Proofs.Nesting

/-!
# What the log attests

If hosts leave a network alone, what a formula node is subscribed to is what the log says that it read
last: just the keys of its latest evaluation, each of them once (`Attests`). Evaluations make it so, and
nothing that happens afterwards undoes it as long as the node that keeps the value is not disposed. A
cached node whose latest evaluation failed keeps no value. While a node is read, moreover, whoever is
evaluated is subscribed to what is on file now (`Attested`).

## Main definitions

* `Attests`: what holds of a network at any time, with the log of all evaluations so far;
* `Attested`: what holds in addition of the evaluations that were noted last.

## Main statements

* `Attests.changes`: the log goes on attesting while nothing is read;
* `Attests.resubscribed` and `Attests.leave`: evaluations are attested;
* `Sane.attested_valueOf`: reading a node on file has all evaluations attested.
-/

namespace StatEngine.Network

variable {N A σ : Type} {n n' : Network N A σ} {l : List Evaluation}

/-! ## The latest evaluations -/

/-- The latest evaluation of a node. -/
def latest (l : List Evaluation) (id : Nat) : Option Evaluation := l.find? (·.node == id)

/-- The keys of what a node read in its latest evaluation. -/
def latestReads (l : List Evaluation) (id : Nat) : List DependencyKey :=
  ((latest l id).map (·.reads)).getD []

/-- Whether the latest evaluation of a node failed. -/
def latestFailed (l : List Evaluation) (id : Nat) : Bool := (latest l id).any (·.failed)

theorem latest_cons_self (e : Evaluation) (l : List Evaluation) : latest (e :: l) e.node = some e :=
  List.find?_cons_of_pos (beq_self_eq_true _)

theorem latest_cons_of_ne {e : Evaluation} {id : Nat} (h : id ≠ e.node) (l : List Evaluation) :
    latest (e :: l) id = latest l id :=
  List.find?_cons_of_neg (by simpa using h.symm)

theorem latest_eq_none {id : Nat} (h : ∀ e ∈ l, e.node ≠ id) : latest l id = none :=
  List.find?_eq_none.mpr fun e he => by simpa using h e he

/-- A formula node recorded just these keys, each of them once. -/
def RecordsJust (n : Network N A σ) (id : Nat) (keys : List DependencyKey) : Prop :=
  ((n.recorded id).map (·.1)).Nodup ∧ ∀ key, key ∈ (n.recorded id).map (·.1) ↔ key ∈ keys

theorem RecordsJust.congr {id : Nat} {keys : List DependencyKey} (h : n.RecordsJust id keys)
    (heq : n'.recorded id = n.recorded id) : n'.RecordsJust id keys := by
  rwa [RecordsJust, heq]

/-! ## What the log attests -/

/-- What the log says of the latest evaluations is what there is to see of them. -/
structure Attests (n : Network N A σ) (l : List Evaluation) : Prop where
  recorded : ∀ id inner, n.kind? (id + 1) = some (.cached inner) → n.held (id + 1) ≠ [] →
    n.RecordsJust id (latestReads l id)
  /-- Formulas that were not evaluated recorded nothing. -/
  unlogged : ∀ id, (∀ e ∈ l, e.node ≠ id) → n.recorded id = []
  kept : ∀ c, n.value? c ≠ none → n.held c = [] ∨ latestFailed l c = false
  /-- Cells are evaluated, and nothing else. -/
  logged : ∀ e ∈ l, (∃ inner, n.kind? e.node = some (.cached inner))
    ∨ ∃ inner, n.kind? (e.node + 1) = some (.cached inner)

namespace Attests

/-- There is nothing to attest if there are no nodes. -/
theorem of_size (h : n.nodes.size = 0) : n.Attests [] := by
  have hbody (i : Nat) : n.body? i = none := n.body?_eq_none (h ▸ Nat.zero_le i)
  refine ⟨fun id inner hkind => ?_, fun id _ => ?_, fun c hc => ?_, nofun⟩
  · simp [kind?, hbody] at hkind
  · rw [Network.recorded, hbody]
    rfl
  · simp [value?, flags?, hbody] at hc

/-- What is attested depends on what nodes are, record and keep. -/
theorem congr (h : n.Attests l) (hkind : ∀ i, n'.kind? i = n.kind? i) (hheld : ∀ i, n'.held i = n.held i)
    (hrecorded : ∀ i, n'.recorded i = n.recorded i) (hvalue : ∀ i, n'.value? i = n.value? i) :
    n'.Attests l where
  recorded id inner hinner hne := by
    rw [hkind] at hinner
    rw [hheld] at hne
    exact (h.recorded id inner hinner hne).congr (hrecorded id)
  unlogged id hid := (hrecorded id).trans (h.unlogged id hid)
  kept c hc := by
    rw [hvalue] at hc
    rw [hheld]
    exact h.kept c hc
  logged e he := by simpa only [hkind] using h.logged e he

theorem of_view (h : n.Attests l) (hview : ∀ i, n'.view? i = n.view? i) : n'.Attests l :=
  h.congr (fun i => kind?_of_view (hview i)) (fun i => held_of_view (hview i))
    (fun i => recorded_of_view (hview i)) fun i => by rw [value?, flags?_of_view (hview i), value?]

section

variable [Number N] {sc : Regime N}

/-- The log goes on attesting while nothing is read. -/
theorem changes {tell : A → σ → σ} (h : n.Attests l) (hc : n.Changes tell n') (hn' : n'.Inv sc) :
    n'.Attests l where
  recorded id inner hinner hne := by
    cases hkind : n.kind? (id + 1) with
    | some kind =>
      obtain rfl : kind = .cached inner := Option.some.inj ((hc.kind _ _ hkind).symm.trans hinner)
      have hheld : n.held (id + 1) ≠ [] := fun hnil => hne (hc.loose _ inner hkind hnil)
      exact (h.recorded id inner hkind hheld).congr
        ((hc.records.recorded id inner hkind).resolve_right hne)
    | none =>
      -- a cell that is new was not evaluated
      obtain rfl : id = inner := Nat.succ.inj (hn'.wired.next _ _ hinner)
      obtain ⟨source, path, hformula⟩ : n'.IsFormula id := hn'.wired.made _ _ hinner
      have hnot : ∀ e ∈ l, e.node ≠ id := by
        rintro e he rfl
        obtain ⟨i, hi⟩ | ⟨i, hi⟩ := h.logged e he
        · cases (hc.kind _ _ hi).symm.trans hformula
        · cases hi.symm.trans hkind
      rw [RecordsJust, hc.records.unrecorded id (h.unlogged id hnot), latestReads, latest_eq_none hnot]
      simp
  unlogged id hid := hc.records.unrecorded id (h.unlogged id hid)
  kept c hvalue := by
    have hobserved := hn'.lit.shown c hvalue
    obtain ⟨inner, hinner⟩ := exists_kind?_of_isObserved (hc.unread c hobserved)
    obtain hheld | heq := hc.kept c hobserved
    · exact .inl hheld
    · exact (h.kept c (heq ▸ hvalue)).imp_left (hc.loose c inner hinner)
  logged e he := (h.logged e he).imp (fun ⟨i, hi⟩ => ⟨i, hc.kind _ _ hi⟩) fun ⟨i, hi⟩ => ⟨i, hc.kind _ _ hi⟩

end

/-- A formula records just what it read, each key once, if it read what is on file. -/
theorem recordsJust_resubscribed {sc : Regime N} (hn : n.Wired sc) {id : Nat} {f : FormulaNode N}
    (hf : n.formula? id = some f) {recorded : List (DependencyKey × Topic)} (hrs : n.Resolves recorded)
    (hkeys : (recorded.map (·.1)).Nodup) (hold : ((n.recorded id).map (·.1)).Nodup) :
    (n.resubscribed id f recorded).RecordsJust id (recorded.map (·.1)) := by
  refine ⟨?_, fun key => ?_⟩
  · rw [recorded_resubscribed hf, List.map_append]
    have hmissing : (subscriptions n.nextToken (n.missingOf f recorded)).map (·.1)
        = (n.missingOf f recorded).map (·.1) := by
      rw [← map_subscriptions n.nextToken (n.missingOf f recorded), List.map_map,
        map_subscriptions n.nextToken (n.missingOf f recorded)]
      rfl
    rw [recorded_of_formula? hf] at hold
    rw [hmissing]
    refine List.nodup_append.mpr ⟨hold.sublist (List.filter_sublist.map _),
      hkeys.sublist (List.filter_sublist.map _), ?_⟩
    -- what is missing is not among what was kept
    rintro key hkept _ hadded rfl
    obtain ⟨r, hr, rfl⟩ := List.mem_map.mp hadded
    obtain ⟨d, hd, heq⟩ := List.mem_map.mp hkept
    have hnot := (List.mem_filter.mp hr).2
    rw [Bool.and_eq_true, Bool.not_eq_true'] at hnot
    exact absurd (List.any_eq_false.mp hnot.1 d hd) (by simpa using heq)
  · constructor
    · intro hkey
      obtain ⟨d, hd, rfl⟩ := List.mem_map.mp hkey
      exact List.mem_map_of_mem (mem_of_recorded_resubscribed hf hd)
    · intro hkey
      obtain ⟨r, hr, rfl⟩ := List.mem_map.mp hkey
      obtain ⟨-, -, hpresent, -⟩ := hn.fits_of_topic? (isFormula_of_formula? hf) (hrs r hr)
      obtain ⟨s, hs⟩ := exists_recorded_resubscribed hf hr hpresent
      exact List.mem_map_of_mem hs

/-- A formula that subscribed to what it read is attested. -/
theorem resubscribed (h : n.Attests l) {sc : Regime N} (hn : n.Wired sc) {id : Nat} {f : FormulaNode N}
    (hf : n.formula? id = some f) {source : FormulaSource N} {path : Path (Stat N)}
    (hcell : n.HasCell id source path) {recorded : List (DependencyKey × Topic)} (hrs : n.Resolves recorded)
    (hkeys : (recorded.map (·.1)).Nodup) (failed : Bool) :
    (n.resubscribed id f recorded).Attests (⟨id, recorded.map (·.1), failed⟩ :: l) where
  recorded i inner hinner hne := by
    rw [kind?_resubscribed] at hinner
    obtain rfl | hi := eq_or_ne i id
    · obtain ⟨s, hs, -⟩ := hcell.told
      have hold := (h.recorded i inner hinner (List.ne_nil_of_mem hs)).1
      rw [latestReads, latest_cons_self ⟨i, _, failed⟩]
      exact recordsJust_resubscribed hn hf hrs hkeys hold
    · rw [held_of_view (view?_resubscribed (ne_of_cached hf hinner))] at hne
      rw [latestReads, latest_cons_of_ne hi]
      exact (h.recorded i inner hinner hne).congr (recorded_of_view (view?_resubscribed hi))
  unlogged i hi := by
    obtain ⟨hne, hi⟩ := List.forall_mem_cons.mp hi
    exact (recorded_of_view (view?_resubscribed (Ne.symm hne))).trans (h.unlogged i hi)
  kept c hc := by
    rw [value?, flags?_resubscribed] at hc
    have hne : c ≠ id := by
      rintro rfl
      simp [flags?, formula?_eq_some_iff.mp hf, Body.flags?] at hc
    rw [held_of_view (view?_resubscribed hne), latestFailed, latest_cons_of_ne hne]
    exact h.kept c hc
  logged e he := by
    simp only [kind?_resubscribed]
    obtain rfl | he := List.mem_cons.mp he
    · exact .inr ⟨id, hcell.cached⟩
    · exact h.logged e he

/-- A cached node that is left is attested. -/
theorem leave (h : n.Attests l) {sc : Regime N} (hn : n.Wired sc) {c inner : Nat}
    (hkind : n.kind? c = some (.cached inner)) {old new : Flags N}
    (hold : n.flags? c = some old) {failed : Bool} (hfailed : failed = true → new.value = none) :
    (n.flag c new).Attests (⟨c, [], failed⟩ :: l) where
  recorded i j hj hne := by
    rw [kind?_flag] at hj
    rw [flag, held_relight] at hne
    -- a formula is no cached node
    obtain rfl : i = j := Nat.succ.inj (hn.next _ _ hj)
    obtain ⟨source, path, hformula⟩ : n.IsFormula i := hn.made _ _ hj
    have hic : i ≠ c := by
      rintro rfl
      cases hformula.symm.trans hkind
    rw [latestReads, latest_cons_of_ne hic]
    exact (h.recorded i i hj hne).congr (recorded_flag i)
  unlogged i hi := (recorded_flag i).trans (h.unlogged i (List.forall_mem_cons.mp hi).2)
  kept i hi := by
    rw [value?_flag hold] at hi
    rw [flag, held_relight]
    split at hi
    next heq =>
      subst heq
      rw [latestFailed, latest_cons_self ⟨i, [], failed⟩]
      exact .inr (Bool.eq_false_iff.mpr fun hf => hi (hfailed hf))
    next hne =>
      rw [latestFailed, latest_cons_of_ne hne]
      exact h.kept i hi
  logged e he := by
    simp only [kind?_flag]
    obtain rfl | he := List.mem_cons.mp he
    · exact .inl ⟨inner, hkind⟩
    · exact h.logged e he

end Attests

/-! ## While a node is read -/

variable [Number N] {new : List Evaluation}

/-- What is attested while a node is read: a formula that was evaluated meanwhile is on file, and subscribed
to what is on file now. -/
structure Attested (l : List Evaluation) (n : Network N A σ) (new : List Evaluation) : Prop extends
    n.Attests (new ++ l) where
  current : ∀ e ∈ new, (∃ inner, n.kind? e.node = some (.cached inner))
    ∨ (∃ key, n.Under key e.node)
      ∧ ∀ d ∈ n.recorded e.node, n.registry.topic? d.1 = some d.2.topic

/-- What was recorded is on file, and each key was recorded once. -/
def Current (n : Network N A σ) (recorded : List (DependencyKey × Topic)) : Prop :=
  n.Resolves recorded ∧ (recorded.map (·.1)).Nodup

omit [Number N] in
theorem Current.recording {recorded : List (DependencyKey × Topic)} (h : n.Current recorded)
    {key : DependencyKey} {topic : Topic} (ht : n.registry.topic? key = some topic) :
    n.Current (recording recorded key topic) := by
  refine ⟨h.1.recording ht, ?_⟩
  rw [Network.recording]
  split
  · exact h.2
  next hnew =>
    rw [List.map_append, List.nodup_append]
    refine ⟨h.2, List.nodup_singleton key, ?_⟩
    rintro _ hold _ hkey rfl
    obtain rfl := List.mem_singleton.mp hkey
    obtain ⟨r, hr, heq⟩ := List.mem_map.mp hold
    exact hnew (List.any_eq_true.mpr ⟨r, hr, by simpa using heq⟩)

theorem Current.mono {sc : Regime N} {recorded : List (DependencyKey × Topic)} (h : n.Current recorded)
    (ha : n.Advances sc n') : n'.Current recorded := ⟨ha.resolves h.1, h.2⟩

omit [Number N] in
theorem Under.of_registry {key : DependencyKey} {id : Nat} (h : n.Under key id)
    (hr : n'.registry = n.registry) : n'.Under key id := by
  cases key with
  | node | form => simpa only [Under, hr] using h
  | paths => exact h.elim

namespace Attested

omit [Number N] in
/-- What is attested depends on what nodes are, record and keep, and on what is on file. -/
theorem congr (h : n.Attested l new) (hkind : ∀ i, n'.kind? i = n.kind? i)
    (hheld : ∀ i, n'.held i = n.held i) (hrecorded : ∀ i, n'.recorded i = n.recorded i)
    (hvalue : ∀ i, n'.value? i = n.value? i) (hregistry : n'.registry = n.registry) :
    n'.Attested l new where
  toAttests := h.toAttests.congr hkind hheld hrecorded hvalue
  current e he := by
    rw [hkind, hrecorded, hregistry]
    exact (h.current e he).imp_right fun ⟨⟨key, hkey⟩, htopic⟩ => ⟨⟨key, hkey.of_registry hregistry⟩, htopic⟩

/-- Parts that are made leave what is attested as it is. -/
theorem advances {sc : Regime N} {tell : A → σ → σ} (h : n.Attested l new) (hn : n.Wired sc)
    (ha : n.Advances sc n') (hc : n.Changes tell n') : n'.Attested l new where
  toAttests := h.toAttests.changes hc ha.sane.inv
  current e he := by
    refine (h.current e he).imp (fun ⟨inner, hinner⟩ => ⟨inner, ha.proceeds.kind _ _ hinner⟩) ?_
    rintro ⟨⟨key, hkey⟩, htopic⟩
    refine ⟨⟨key, ha.under hkey⟩, fun d hd => ?_⟩
    obtain ⟨source, path, hcell⟩ := hn.hasCell_of_under hkey
    obtain ⟨_, _, hcell'⟩ := ha.sane.inv.wired.hasCell_of_under (ha.under hkey)
    obtain ⟨s, hs, -⟩ := hcell'.told
    have heq := (hc.records.recorded _ _ hcell.cached).resolve_right (List.ne_nil_of_mem hs)
    exact ha.topic? (htopic d (heq ▸ hd))

end Attested

/-! ## Looking things up -/

/-- The nodes of a cell on file. -/
def InCell (n : Network N A σ) (id : Nat) : Prop :=
  ∃ key c, n.Under key c ∧ (id = c ∨ id = c + 1 ∨ id = c + 2)

omit [Number N] in
theorem Shows.inCell {id : Nat} (h : n.Shows id) : n.InCell id := by
  obtain ⟨key, c, hc, rfl⟩ := h
  exact ⟨key, c, hc, .inr (.inr rfl)⟩

theorem Advances.inCell {sc : Regime N} (h : n.Advances sc n') {id : Nat} (hid : n.InCell id) :
    n'.InCell id := by
  obtain ⟨key, c, hc, hid⟩ := hid
  exact ⟨key, c, h.under hc, hid⟩

section Lookups

variable {α β : Type}

omit [Number N] in
theorem leads_logging_bind {b : Prop} {x : Logging N A σ α} {f : α → Logging N A σ β}
    {P : α × List Evaluation → Network N A σ → Prop} {Q : β × List Evaluation → Network N A σ → Prop}
    (hx : Leads b (x.run l) n P) (hf : ∀ a l' n', P (a, l') n' → Leads b ((f a).run l') n' Q) :
    Leads b ((x >>= f).run l) n Q := by
  rw [StateT.run_bind]
  exact hx.bind fun ⟨a, l'⟩ n' h => hf a l' n' h

omit [Number N] in
theorem leads_lift {b : Prop} {x : Run N A σ α} {P : α → Network N A σ → Prop} (hx : Leads b x n P) :
    Leads b ((StateT.lift x : Logging N A σ α).run l) n fun r n' => P r.1 n' ∧ r.2 = l :=
  hx.bind fun _ _ h => .of_pure ⟨h, rfl⟩

/-- A computation has its evaluations attested, as long as `I` holds. -/
def Confirms (l : List Evaluation) (I : Network N A σ → Prop) (α : Type)
    (x : Reading N (Logging N A σ) α) : Prop :=
  ∀ (new : List Evaluation) (n : Network N A σ), n.Sane .free → n.Attested l new → I n →
    Leads False (x.run.run new) n fun r n' => n.Advances .free n' ∧ n'.Attested l r.2

/-- The same for a computation that records what it depends on: that is on file. -/
def ConfirmsRecording (l : List Evaluation) (I : Network N A σ → Prop) (α : Type)
    (x : Reading N (LoggedRecording N A σ) α) : Prop :=
  ∀ (recorded : List (DependencyKey × Topic)) (new : List Evaluation) (n : Network N A σ),
    n.Sane .free → n.Attested l new → n.Current recorded → I n →
    Leads False ((x.run.run recorded).run new) n fun r n' =>
      (n.Advances .free n' ∧ n'.Attested l r.2) ∧ n'.Current r.1.2

section Closed

variable {I : Network N A σ → Prop} (hI : ∀ {n n'}, n.Advances .free n' → I n → I n')
include hI

theorem closed_confirms : Reading.Closed (Confirms l I) where
  pure _ _ _ hn hl _ := .of_pure ⟨.refl hn, hl⟩
  throw _ _ _ hn hl _ := .of_pure ⟨.refl hn, hl⟩
  bind {_ _ x next} hx hnext new n hn hl hi := by
    rw [ExceptT.run_bind]
    refine leads_logging_bind (hx new n hn hl hi) ?_
    rintro result new' n₁ ⟨h₁, hl₁⟩
    cases result with
    | error fault => exact .of_pure ⟨h₁, hl₁⟩
    | ok a =>
      refine (hnext a new' n₁ h₁.sane hl₁ (hI h₁ hi)).weaken ?_
      rintro r n₂ ⟨h₂, hl₂⟩
      exact ⟨h₁.trans h₂, hl₂⟩

theorem closed_confirmsRecording : Reading.Closed (ConfirmsRecording l I) where
  pure _ _ _ _ hn hl hrs _ := .of_pure ⟨⟨.refl hn, hl⟩, hrs⟩
  throw _ _ _ _ hn hl hrs _ := .of_pure ⟨⟨.refl hn, hl⟩, hrs⟩
  bind {_ _ x next} hx hnext recorded new n hn hl hrs hi := by
    rw [ExceptT.run_bind, StateT.run_bind]
    refine leads_logging_bind (hx recorded new n hn hl hrs hi) ?_
    rintro ⟨result, recorded'⟩ new' n₁ ⟨⟨h₁, hl₁⟩, hrs₁⟩
    cases result with
    | error fault => exact .of_pure ⟨⟨h₁, hl₁⟩, hrs₁⟩
    | ok a =>
      refine (hnext a recorded' new' n₁ h₁.sane hl₁ hrs₁ (hI h₁ hi)).weaken ?_
      rintro r n₂ ⟨⟨h₂, hl₂⟩, hrs₂⟩
      exact ⟨⟨h₁.trans h₂, hl₂⟩, hrs₂⟩

end Closed

/-- Nothing is evaluated while parts are made, and what is on file is recorded. -/
def Asks (x : Reading N (Recording N A σ) α) (post : α → Network N A σ → Prop) : Prop :=
  ∀ (recorded : List (DependencyKey × Topic)) (n : Network N A σ), n.Sane .free → n.Current recorded →
    Leads False (x.run.run recorded) n fun r n' => n.Advances .free n'
      ∧ (∀ l new, n.Attested l new → n'.Attested l new) ∧ n'.Current r.2 ∧ ∀ a, r.1 = .ok a → post a n'

/-- What was asked for is read. -/
theorem Asks.confirms {x : Reading N (Recording N A σ) α} {post : α → Network N A σ → Prop}
    (hx : Asks x post) {f : α → Reading N (LoggedRecording N A σ) β}
    (hf : ∀ a, ConfirmsRecording l (post a) β (f a)) :
    ConfirmsRecording l (fun _ => True) β (unlogged x >>= f) := by
  intro recorded new n hn hl hrs _
  rw [ExceptT.run_bind, StateT.run_bind]
  refine leads_logging_bind (leads_lift (hx recorded n hn hrs)) ?_
  rintro ⟨result, recorded'⟩ _ n₁ ⟨⟨h₁, hattested, hrs₁, hpost⟩, rfl⟩
  have hl₁ := hattested l _ hl
  cases result with
  | error fault => exact .of_pure ⟨⟨h₁, hl₁⟩, hrs₁⟩
  | ok a =>
    refine (hf a recorded' _ n₁ h₁.sane hl₁ hrs₁ (hpost a rfl)).weaken ?_
    rintro r n₂ ⟨⟨h₂, hl₂⟩, hrs₂⟩
    exact ⟨⟨h₁.trans h₂, hl₂⟩, hrs₂⟩

section Host

variable {host : Host N A σ} {tell : A → σ → σ} (hhost : host.Aloof tell)
include hhost

/-- Asking for the paths of a stat undoes nothing that is attested. -/
theorem Sane.attested_pathSetOf (hn : n.Sane .free) (stat : Stat N) :
    Leads False (Network.pathSetOf host stat) n fun set n' => n.Advances .free n'
      ∧ (∀ l new, n.Attested l new → n'.Attested l new)
      ∧ n'.registry.topic? (.paths stat.key) = some (.paths set) := by
  have hmade : Leads True (Network.pathSetOf host stat) n _ :=
    leads_pathSetOf hhost.toQuiet hn.inv trivial fun h => absurd h hn.unfollowed
  refine ((hn.pathSetOf hhost trivial).and hmade).mono False.elim ?_
  rintro set n' ⟨⟨h, htopic, -⟩, -, hchanges, -⟩
  exact ⟨h, fun l new hl => hl.advances hn.inv.wired h hchanges, htopic⟩

/-- Asking for the nodes of a stage undoes nothing that is attested. -/
theorem Sane.attested_nodesOf (hn : n.Sane .free) (stat : Stat N) (stage : Stage) (path : Path (Stat N)) :
    Leads False (Network.nodesOf host stat stage path) n fun e n' => n.Advances .free n'
      ∧ (∀ l new, n.Attested l new → n'.Attested l new)
      ∧ n'.registry.stage? ⟨stat.key, stage, (stagePath stage path).key⟩ = some e := by
  have hmade : Leads True (Network.nodesOf host stat stage path) n _ :=
    leads_nodesOf hhost.toQuiet hn.inv trivial trivial (fun h => absurd h hn.unfollowed)
      fun h => absurd h hn.unfollowed
  refine ((hn.nodesOf hhost trivial trivial).and hmade).mono False.elim ?_
  rintro e n' ⟨⟨h, he⟩, -, hchanges, -⟩
  exact ⟨h, fun l new hl => hl.advances hn.inv.wired h hchanges, he⟩

/-- Asking for the collection of a form undoes nothing that is attested. -/
theorem Sane.attested_collectionOf (hn : n.Sane .free) (stat : Stat N) (form : Form) (path : Path (Stat N)) :
    Leads False (Network.collectionOf host stat form path) n fun e n' => n.Advances .free n'
      ∧ (∀ l new, n.Attested l new → n'.Attested l new)
      ∧ n'.registry.form? stat.key form path.key = some e := by
  have hmade : Leads True (Network.collectionOf host stat form path) n _ :=
    leads_collectionOf hhost.toQuiet hn.inv trivial form trivial fun h => absurd h hn.unfollowed
  refine ((hn.collectionOf hhost trivial form trivial).and hmade).mono False.elim ?_
  rintro e n' ⟨⟨h, he⟩, -, hchanges, -⟩
  exact ⟨h, fun l new hl => hl.advances hn.inv.wired h hchanges, he⟩

theorem asks_paths (stat : Stat N) : Asks (askPaths host stat) fun _ _ => True := by
  intro recorded n hn hrs
  refine leads_onNetwork_bind (hn.attested_pathSetOf hhost stat) ?_
  rintro set n₁ ⟨h₁, hattested, htopic⟩
  exact leads_record_bind (leads_get_bind
    (.of_pure ⟨h₁, hattested, (hrs.mono h₁).recording htopic, fun _ _ => trivial⟩))

theorem asks_stage (stat : Stat N) (stage : Stage) (path : Path (Stat N)) :
    Asks (askStage host stat stage path) fun id n' => n'.InCell id := by
  intro recorded n hn hrs
  refine leads_onNetwork_bind (hn.attested_nodesOf hhost stat stage (stagePath stage path)) ?_
  rintro e n₁ ⟨h₁, hattested, he⟩
  rw [stagePath_stagePath] at he
  have htopic : n₁.registry.topic? (.node ⟨stat.key, stage, (stagePath stage path).key⟩)
      = some (.received e.cached) := Option.map_eq_some_iff.mpr ⟨e, he, rfl⟩
  refine leads_record_bind (.of_pure ⟨h₁, hattested, (hrs.mono h₁).recording htopic, ?_⟩)
  rintro _ ⟨⟩
  have hunder : n₁.Under (.node _) e.formula := ⟨e, he, rfl⟩
  exact ⟨_, _, hunder, .inr (.inr (h₁.sane.inv.wired.stages _ e he).exposed)⟩

theorem asks_form (form : Form) (place : Place N) :
    Asks (askForm host form place) fun ids n' => ∀ i ∈ ids, n'.InCell i := by
  intro recorded n hn hrs
  refine leads_onNetwork_bind (hn.attested_collectionOf hhost place.1 form place.2) ?_
  rintro e n₁ ⟨h₁, hattested, he⟩
  have htopic : n₁.registry.topic? (.form place.1.key form place.2.key) = some (.changed e.aggregate) :=
    Option.map_eq_some_iff.mpr ⟨e, he, rfl⟩
  refine leads_record_bind (leads_get_bind
    (.of_pure ⟨h₁, hattested, (hrs.mono h₁).recording htopic, ?_⟩))
  rintro _ ⟨⟩
  exact fun i hi => (h₁.sane.shows_member he i hi).inCell

omit hhost in
/-- A meta stat that is derived is noted in the catalog, and nowhere else. -/
theorem asks_derived (request : MetaStat N) :
    Asks (ExceptT.mk (StateT.lift (derive request : Reading N (Run N A σ) _).run)) fun _ _ => True := by
  intro recorded n hn hrs
  have hderived : Leads False (derive request).run n fun _ n' => n.Advances .free n'
      ∧ ∀ l new, n.Attested l new → n'.Attested l new := by
    refine .get_bind ?_
    cases n.catalog with
    | none => exact .of_pure ⟨.refl hn, fun _ _ h => h⟩
    | some catalog =>
      refine .of_eq rfl ⟨hn.withCatalog _, fun l new hl => ?_⟩
      exact hl.congr (fun _ => rfl) (fun _ => rfl) (fun _ => rfl) (fun _ => rfl) rfl
  exact hderived.bind fun _ n' h => .of_pure ⟨h.1, h.2, hrs.mono h.1, fun _ _ => trivial⟩

theorem asks_note (text : String) : Asks (onNetwork (host.note text)) fun _ _ => True := by
  intro recorded n hn hrs
  have hnoted : Leads False (host.note text) n fun _ n' => n.Advances .free n'
      ∧ ∀ l new, n.Attested l new → n'.Attested l new := by
    refine ⟨False.elim, fun hrun => ?_⟩
    obtain ⟨state, rfl⟩ := (hhost.note text n).partly hrun
    refine ⟨hn.withBuffer state, fun l new hl => ?_⟩
    exact hl.congr (fun _ => rfl) (fun _ => rfl) (fun _ => rfl) (fun _ => rfl) rfl
  rw [← bind_pure (onNetwork (host.note text))]
  exact leads_onNetwork_bind hnoted fun _ n' h => .of_pure ⟨h.1, h.2, hrs.mono h.1, fun _ _ => trivial⟩

end Host

end Lookups

/-! ## Reading nodes -/

section Nodes

/-- Cells on file are read with all evaluations attested. -/
def ConfirmsCells (l : List Evaluation) (read : Nat → Reading N (Logging N A σ) (Option (Amount N))) : Prop :=
  ∀ id, Confirms l (fun n => n.InCell id) _ (read id)

variable {host : Host N A σ} {tell : A → σ → σ} (hhost : host.Aloof tell)
  {read : Nat → Reading N (Logging N A σ) (Option (Amount N))} (hread : ConfirmsCells l read)

include hread in
theorem ConfirmsCells.readAll (ids : List Nat) :
    Confirms l (fun n => ∀ i ∈ ids, n.InCell i) _ (Network.readAll read ids) :=
  (closed_confirms fun h hids i hi => h.inCell (hids i hi)).mapM fun i hi new n hn hl hids =>
    hread i new n hn hl (hids i hi)

include hread in
theorem ConfirmsCells.loggedIn (id : Nat) :
    ConfirmsRecording l (fun n => n.InCell id) _ (Network.loggedIn read id) := by
  intro recorded new n hn hl hrs hid
  refine leads_logging_bind (hread id new n hn hl hid) ?_
  rintro result new' n' ⟨h, hl'⟩
  exact .of_pure ⟨⟨h, hl'⟩, hrs.mono h⟩

include hhost hread

/-- Whatever a formula looks up is attested. -/
theorem within_loggedLookup (path : Path (Stat N)) :
    (loggedLookup host read path).Within (ConfirmsRecording l fun _ => True) := by
  have hall : Reading.Closed (ConfirmsRecording (N := N) (A := A) (σ := σ) l fun _ => True) :=
    closed_confirmsRecording fun _ h => h
  have hasked {α : Type} {x : Reading N (Recording N A σ) α} (hx : Asks x fun _ _ => True) :
      ConfirmsRecording l (fun _ => True) α (unlogged x) := by
    rw [← bind_pure (unlogged x)]
    exact hx.confirms hall.pure
  refine ⟨fun stat => hasked (asks_paths hhost stat), fun stat stage p => ?_, fun form places => ?_,
    fun request => hasked (asks_derived request), fun text => ?_⟩
  · exact (asks_stage hhost stat stage p).confirms fun id => hread.loggedIn id
  · refine hall.bind (hall.mapM fun place _ => ?_) fun values => hall.pure _
    refine (asks_form hhost form place).confirms fun ids => ?_
    exact (closed_confirmsRecording fun h hids i hi => h.inCell (hids i hi)).mapM
      fun i hi recorded new n hn hl hrs hids => hread.loggedIn i recorded new n hn hl hrs (hids i hi)
  · have hnote : (liftM (StateT.lift (StateT.lift (host.note text)) : LoggedRecording N A σ Unit) :
        Reading N (LoggedRecording N A σ) Unit) = unlogged (onNetwork (host.note text)) := by
      funext recorded l n
      change Option.bind (Option.bind (Option.bind (host.note text n) _) _) _
        = Option.bind (Option.bind (Option.bind (host.note text n) _) _) _
      cases host.note text n <;> rfl
    exact hnote ▸ hasked (asks_note hhost text)

/-- The evaluation of a formula on file is attested. -/
theorem Sane.attested_formula (hn : n.Sane .free) (hl : n.Attested l new) {key : DependencyKey} {id : Nat}
    (hid : n.Under key id) (f : FormulaNode N) :
    Leads False ((loggedFormula host read id f).run.run new) n fun r n' =>
      n.Advances .free n' ∧ n'.Attested l r.2 := by
  refine .congr ?_ (loggedFormula_eq host read f new hn.inv.unreleased)
  have hall : Reading.Closed (ConfirmsRecording (N := N) (A := A) (σ := σ) l fun _ => True) :=
    closed_confirmsRecording fun _ h => h
  have hnil : n.Current [] := ⟨by simp [Resolves], List.nodup_nil⟩
  have hmeaning := n.within_meaning f.source hall _ (within_loggedLookup hhost hread f.path) [] new n hn hl
    hnil trivial
  refine leads_logging_bind hmeaning ?_
  rintro ⟨result, recorded⟩ new₁ n₁ ⟨⟨h₁, hl₁⟩, hrs⟩
  obtain ⟨source, path, hcell⟩ := h₁.sane.inv.wired.hasCell_of_under (h₁.under hid)
  obtain ⟨f₁, hf₁⟩ := exists_formula? hcell.formula
  have hsubscribed : Leads False (Network.resubscribe id recorded) n₁ fun _ n' =>
      n₁.Advances .free n' ∧ n' = n₁.resubscribed id f₁ recorded := by
    have hadvances := h₁.sane.resubscribe (b := False) hcell.formula hcell.present hrs.1
    exact .of_eq (resubscribe_eq hf₁) ⟨hadvances.partly (resubscribe_eq hf₁), rfl⟩
  refine leads_logging_bind (leads_lift hsubscribed) ?_
  rintro _ new₂ n₂ ⟨⟨h₂, rfl⟩, hnew⟩
  obtain rfl : new₂ = new₁ := hnew
  refine .of_pure ⟨h₁.trans h₂, ⟨?_, ?_⟩⟩
  · exact hl₁.toAttests.resubscribed h₁.sane.inv.wired hf₁ hcell hrs.1 hrs.2 _
  · intro e he
    have hunder {i : Nat} (h : ∃ key, n₁.Under key i) : ∃ key, (n₁.resubscribed id f₁ recorded).Under key i :=
      h.imp fun _ hi => hi.of_registry registry_resubscribed
    rw [kind?_resubscribed, registry_resubscribed]
    by_cases hnode : e.node = id
    · rw [hnode]
      exact .inr ⟨hunder ⟨key, h₁.under hid⟩, fun d hd => hrs.1 _ (mem_of_recorded_resubscribed hf₁ hd)⟩
    · have hnew : e ∈ new₂ := (List.mem_cons.mp he).resolve_left (by rintro rfl; exact hnode rfl)
      rw [recorded_of_view (view?_resubscribed hnode)]
      exact (hl₁.current e hnew).imp_right (And.imp_left hunder)

omit hhost in
/-- The computation of a cached node on file is attested. -/
theorem Sane.attested_cached (hn : n.Sane .free) (hl : n.Attested l new) {key : DependencyKey} {id : Nat}
    (hid : n.Under key id) {c : CachedNode N A} (hc : n.cached? (id + 1) = some c) :
    Leads False ((loggedCached read (id + 1) c).run.run new) n fun r n' =>
      n.Advances .free n' ∧ n'.Attested l r.2 := by
  have hold := flags?_of_cached hc
  have hkind : n.kind? (id + 1) = some (.cached c.inner) := kind?_eq_cached_iff.mpr ⟨c, hc, rfl⟩
  obtain rfl : id = c.inner := Nat.succ.inj (hn.inv.wired.next _ _ hkind)
  -- nothing is kept that was not before as long as nothing is noted
  have hflag {m : Network N A σ} {flags : Flags N} (hm : m = n.flag (c.inner + 1) flags)
      (hvalue : flags.value = c.flags.value) : m.Attested l new := by
    subst hm
    refine hl.congr kind?_flag (fun i => held_relight ..) recorded_flag (fun i => ?_) registry_flag
    rw [value?_flag hold]
    split
    next heq => rw [hvalue, heq, value?_of_flags hold]
    next => rfl
  have hobserve := hn.observe hc
  cases hcache : c.cache with
  | some v =>
    refine .of_eq (loggedCached_kept new hcache) ⟨hobserve, ?_⟩
    exact hflag (observe_eq hold) rfl
  | none =>
    cases hguard : c.guard.entered with
    | true =>
      refine .of_eq (loggedCached_entered new hcache hguard) ⟨hobserve, ?_⟩
      exact hflag (observe_eq hold) rfl
    | false =>
      obtain ⟨hsane₁, -⟩ := hn.enter hc hcache
      refine .congr ?_ (loggedCached_computed new hcache hguard)
      rw [enter_eq hold]
      have hcell : (n.flag (c.inner + 1) ⟨c.flags.value, c.flags.observed, false, true⟩).InCell c.inner :=
        ⟨key, _, hid.of_registry registry_flag, .inl rfl⟩
      refine leads_logging_bind (hread c.inner new _ hsane₁ (hflag rfl rfl) hcell) ?_
      rintro result new₁ n₂ ⟨h₂, hl₂⟩
      obtain ⟨flags, hflags, hleft⟩ := hn.leave hc hcache hguard h₂ result
      refine .of_eq rfl ?_
      dsimp only
      rw [leave_eq hflags]
      have hkind₂ : n₂.kind? (c.inner + 1) = some (.cached c.inner) :=
        h₂.gains.kind _ _ ((kind?_flag _).trans hkind)
      refine ⟨hleft, hl₂.toAttests.leave h₂.sane.inv.wired hkind₂ hflags fun hfailed => ?_, ?_⟩
      · -- no value is kept while a node is computed
        have hentered : n₂.isEntered (c.inner + 1) = true := by
          rw [h₂.proceeds.entered, isEntered_flag hold, if_pos rfl]
        rw [isEntered, hflags] at hentered
        cases result with
        | ok v => cases hfailed
        | error fault => exact (h₂.sane.inv.lit.entered _ flags hflags hentered).1
      · intro e he
        rw [kind?_flag, recorded_flag, registry_flag]
        obtain rfl | he := List.mem_cons.mp he
        · exact .inl ⟨_, hkind₂⟩
        · refine (hl₂.current e he).imp_right ?_
          rintro ⟨⟨key, hkey⟩, htopic⟩
          exact ⟨⟨key, hkey.of_registry registry_flag⟩, htopic⟩

omit read hread

include hhost

/-- Nodes of cells on file are read with all evaluations attested, however deep nodes read each other. -/
theorem confirmsCells_read : ∀ depth, ConfirmsCells l (loggedRead host depth)
  | 0 => fun _ _ _ _ _ _ => ⟨False.elim, nofun⟩
  | depth + 1 => by
    intro id new n hn hl hid
    have ih := confirmsCells_read depth
    obtain ⟨key, c, hc, hid⟩ := hid
    obtain ⟨source, path, hcell⟩ := hn.inv.wired.hasCell_of_under hc
    obtain rfl | rfl | rfl := hid
    · obtain ⟨f, hf⟩ := exists_formula? hcell.formula
      refine Leads.congr ?_ (loggedRead_apply host depth new (formula?_eq_some_iff.mp hf))
      exact hn.attested_formula hhost ih hl hc f
    · obtain ⟨x, hx, -⟩ := kind?_eq_cached_iff.mp hcell.cached
      refine Leads.congr ?_ (loggedRead_apply host depth new (cached?_eq_some_iff.mp hx))
      exact hn.attested_cached ih hl hc hx
    · obtain ⟨body, hbody, hexposed⟩ := Option.map_eq_some_iff.mp hcell.exposed
      refine .congr ?_ (loggedRead_apply host depth new hbody)
      cases body with
      | exposed inner =>
        cases hexposed
        exact ih (c + 1) new n hn hl ⟨key, c, hc, .inr (.inl rfl)⟩
      | _ => cases hexposed

/-- Reading a node on file has all evaluations attested. -/
theorem Sane.attested_read (hn : n.Sane .free) (hl : n.Attested l new) {id : Nat} (hid : n.OnFile id) :
    ∀ depth, Leads False ((loggedRead host depth id).run.run new) n fun r n' =>
      n.Advances .free n' ∧ n'.Attested l r.2
  | 0 => ⟨False.elim, nofun⟩
  | depth + 1 => by
    have hcells : ConfirmsCells l (loggedRead host depth) := confirmsCells_read hhost depth
    have hwhole : ConfirmsCells l (loggedRead host (depth + 1)) := confirmsCells_read hhost (depth + 1)
    cases hid with
    | kept hc => exact hwhole _ new n hn hl ⟨_, _, hc, .inr (.inl rfl)⟩
    | shown hc => exact hwhole _ new n hn hl ⟨_, _, hc, .inr (.inr rfl)⟩
    | combined he =>
      obtain ⟨body, hbody, hkind⟩ := Option.map_eq_some_iff.mp (hn.inv.wired.forms _ _ _ _ he).kind
      refine .congr ?_ (loggedRead_apply host depth new hbody)
      cases body with
      | aggregate a =>
        obtain ⟨hcollection, -⟩ := Kind.aggregate.inj hkind
        have hshown := hn.shows_member he
        rw [← hcollection] at hshown
        let members := n.memberNodes a.collection
        have hall : Reading.Closed (Confirms (N := N) (A := A) (σ := σ) l
            fun n => ∀ i ∈ members, n.InCell i) := closed_confirms fun h hids i hi => h.inCell (hids i hi)
        exact hall.bind (hcells.readAll members) (fun vs => hall.ofExcept _) new n hn hl
          fun i hi => (hshown i hi).inCell
      | _ => cases hkind
    | wrapped hc hkind =>
      obtain ⟨body, hbody, hwrapped⟩ := Option.map_eq_some_iff.mp hkind
      refine .congr ?_ (loggedRead_apply host depth new hbody)
      cases body with
      | wrapped inner _ =>
        cases hwrapped
        exact hcells _ new n hn hl ⟨_, _, hc, .inr (.inl rfl)⟩
      | _ => cases hwrapped

/-- The value of a node on file is read with all evaluations attested. -/
theorem Sane.attested_valueOf (hn : n.Sane .free) (hl : n.Attested l new) {id : Nat} (hid : n.OnFile id) :
    Leads False ((loggedValueOf host id).run.run new) n fun r n' =>
      n.Advances .free n' ∧ n'.Attested l r.2 := by
  refine ⟨False.elim, fun {r n'} hrun => ?_⟩
  obtain ⟨depth, -, hread⟩ := Option.bind_eq_some_iff.mp hrun
  exact (hn.attested_read hhost hl hid depth).partly hread

end Nodes

end StatEngine.Network
