import StatEngine.Proofs.Asking

/-!
# The evaluation of formulas

A formula is evaluated by looking up what it asks for. What it asks for is made if it is missing,
recorded and read, one thing after another, until one of them ends in a fault or the formula is done.
In the end, its outcome follows from what is known under the dependencies that were recorded
(`Follows`), and in case of a fault the modifiers and paths on file stand for nothing else either
(`Doomed`).

## Main definitions

* `Hopeless`: nothing comes of the cells that failed;
* `Doomed`: a fault that does not depend on how deep is looked.

## Main statements

* `leads_answeredBy`: what comes of looking up what a formula asks for.
-/

namespace StatEngine

section Rules

variable {N α β : Type}

/-- Readings one after another end in the fault of the first one that ends in a fault. -/
theorem Approx.mapM_error {f : α → Reading N Option β} {before after : List α} {a : α}
    {fault : Fault N} (hbefore : ∀ x ∈ before, ∃ b, Approx (f x).run (.ok b))
    (ha : Approx (f a).run (.error fault)) :
    Approx ((before ++ a :: after).mapM f).run (.error fault) := by
  induction before with
  | nil =>
    rw [List.nil_append, List.mapM_cons]
    exact .bind_error ha
  | cons x before ih =>
    obtain ⟨b, hb⟩ := hbefore x List.mem_cons_self
    rw [List.cons_append, List.mapM_cons]
    exact .bind_ok hb (.bind_error (ih fun y hy => hbefore y (List.mem_cons_of_mem x hy)))

/-- Readings one after another succeed if each of them does. -/
theorem Approx.mapM_ok {f : α → Reading N Option β} :
    ∀ {as : List α}, (∀ a ∈ as, ∃ b, Approx (f a).run (.ok b)) →
      ∃ bs, Approx (as.mapM f).run (.ok bs)
  | [], _ => ⟨[], .of_eq rfl⟩
  | a :: as, h => by
    obtain ⟨b, hb⟩ := h a List.mem_cons_self
    obtain ⟨bs, hbs⟩ := mapM_ok fun a' ha' => h a' (List.mem_cons_of_mem a ha')
    refine ⟨b :: bs, ?_⟩
    rw [List.mapM_cons]
    exact .bind_ok hb (.bind_ok hbs (.of_eq rfl))

/-- What is decided, but not in another way, is decided in this way. -/
theorem Approx.eq_ok {decision : Option (Except (Fault N) β)} {b : β} (h : Approx decision (.ok b))
    (hdecided : decision ≠ none) : decision = some (.ok b) := by
  obtain ⟨result, hresult⟩ := Option.ne_none_iff_exists'.mp hdecided
  rw [hresult, (h result hresult).eq_of_ok]

/-- A reading that goes on decides nothing before it is decided itself. -/
theorem decided_of_bind {x : Reading N Option α} {f : α → Reading N Option β}
    (h : (x >>= f).run ≠ none) : x.run ≠ none := by
  intro hx
  rw [ExceptT.run_bind, hx] at h
  exact h rfl

theorem Approx.decided_next {x : Reading N Option α} {f : α → Reading N Option β} {a : α}
    (ha : Approx x.run (.ok a)) (h : (x >>= f).run ≠ none) : (f a).run ≠ none := by
  rwa [ExceptT.run_bind, ha.eq_ok (decided_of_bind h)] at h

theorem decided_head {f : α → Reading N Option β} {a : α} {as : List α}
    (h : ((a :: as).mapM f).run ≠ none) : (f a).run ≠ none := by
  rw [List.mapM_cons] at h
  exact decided_of_bind h

theorem decided_tail {f : α → Reading N Option β} {a : α} {as : List α} {b : β}
    (h : ((a :: as).mapM f).run ≠ none) (hb : Approx (f a).run (.ok b)) : (as.mapM f).run ≠ none := by
  rw [List.mapM_cons] at h
  exact decided_of_bind (hb.decided_next h)

namespace Network

variable {A σ : Type} {b : Prop} {n : Network N A σ} {rs : List (DependencyKey × Topic)}

/-- A reading that goes on with the result of another one. -/
theorem leads_reading_bind {x : Reading N (Recording N A σ) α} {f : α → Reading N (Recording N A σ) β}
    {P : Except (Fault N) α × List (DependencyKey × Topic) → Network N A σ → Prop}
    {Q : Except (Fault N) β × List (DependencyKey × Topic) → Network N A σ → Prop}
    (hx : Leads b (x.run.run rs) n P)
    (hok : ∀ a rs' n', P (.ok a, rs') n' → Leads b ((f a).run.run rs') n' Q)
    (herror : ∀ fault rs' n', P (.error fault, rs') n' → Q (.error fault, rs') n') :
    Leads b ((x >>= f).run.run rs) n Q := by
  rw [ExceptT.run_bind, StateT.run_bind]
  refine hx.bind fun ⟨result, rs'⟩ n' h => ?_
  cases result with
  | ok a => exact hok a rs' n' h
  | error fault => exact .of_pure (herror fault rs' n' h)

/-- Readings one after another go on as long as all is good for what is left (`G`), until one ends in a
fault (`B`). What was found before (`F`) stays as it is. -/
theorem leads_reading_mapM {f : α → Reading N (Recording N A σ) β}
    {G : List α → List (DependencyKey × Topic) → Network N A σ → Prop}
    {F : List (DependencyKey × Topic) → Network N A σ → α → β → Prop}
    {B : List (DependencyKey × Topic) → Network N A σ → α → Fault N → Prop} :
    ∀ {as : List α} {rs : List (DependencyKey × Topic)} {n : Network N A σ},
      (∀ a ∈ as, ∀ rest rs n, G (a :: rest) rs n → Leads b ((f a).run.run rs) n fun result n' =>
        (∀ a' b', F rs n a' b' → F result.2 n' a' b')
          ∧ match result.1 with
            | .ok v => G rest result.2 n' ∧ F result.2 n' a v
            | .error fault => B result.2 n' a fault) →
      G as rs n → Leads b ((as.mapM f).run.run rs) n fun result n' =>
        (∀ a' b', F rs n a' b' → F result.2 n' a' b')
          ∧ match result.1 with
            | .ok vs => G [] result.2 n' ∧ List.Forall₂ (F result.2 n') as vs
            | .error fault => ∃ before a after vs, as = before ++ a :: after
              ∧ List.Forall₂ (F result.2 n') before vs ∧ B result.2 n' a fault
  | [], _, _, _, h => .of_pure ⟨fun _ _ h => h, h, .nil⟩
  | a :: as, rs, n, hstep, h => by
    rw [List.mapM_cons]
    refine leads_reading_bind (hstep a List.mem_cons_self as rs n h) ?_ ?_
    · rintro v rs₁ n₁ ⟨hkeep, hgood, hfact⟩
      refine leads_reading_bind
        (leads_reading_mapM (fun a' ha' => hstep a' (List.mem_cons_of_mem a ha')) hgood) ?_ ?_
      · rintro vs rs₂ n₂ ⟨hkeep', hgood', hfacts⟩
        exact .of_pure ⟨fun a' b' h => hkeep' a' b' (hkeep a' b' h), hgood',
          .cons (hkeep' a v hfact) hfacts⟩
      · rintro fault rs₂ n₂ ⟨hkeep', before, a', after, vs, rfl, hfacts, hbad⟩
        exact ⟨fun a' b' h => hkeep' a' b' (hkeep a' b' h), a :: before, a', after, v :: vs, rfl,
          .cons (hkeep' a v hfact) hfacts, hbad⟩
    · rintro fault rs₁ n₁ ⟨hkeep, hbad⟩
      exact ⟨hkeep, [], a, as, [], rfl, .nil, hbad⟩

end Network

end Rules

namespace Network

variable {N A σ : Type} [Number N] {sc : Regime N} {n n' : Network N A σ}

/-! ## Faults -/

/-- To no depth the modifiers and paths on file stand for a value of a cell that failed. -/
def Hopeless (sc : Regime N) (n : Network N A σ) : Prop :=
  ∀ id φ p, n.Denotes sc id φ p → n.Failed (id + 1) →
    ∀ depth v, (n.registry.inputs.reference depth φ p).run ≠ some (.ok v)

/-- Something comes to nothing but a fault, to whatever depth, as long as the cells that are being
computed come to nothing else. -/
def Doomed {β : Type} (sc : Regime N) (n : Network N A σ) (fault : Fault N)
    (decision : Nat → Option (Except (Fault N) β)) : Prop :=
  ∀ depth, (∀ id φ p, n.isEntered (id + 1) → n.Denotes sc id φ p → ∀ d ≤ depth,
      Approx (n.registry.inputs.reference d φ p).run (.error fault)) →
    ∀ d ≤ depth, Approx (decision d) (.error fault)

/-- As long as no other cells fail, nothing comes of those that failed. -/
theorem Hopeless.mono (h : n.Hopeless sc) (hle : n ≤ n') (hfailed : ∀ c, n'.Failed c → n.Failed c) :
    n'.Hopeless sc := by
  intro id φ p hd hf depth v
  have hf := hfailed _ hf
  rw [hle.registry.inputs]
  exact h id φ p (hle.denotes_of_lt hd (Nat.lt_of_succ_lt (lt_size_of_isObserved hf.1))) hf depth v

/-- The fault of a step is the fault of the whole, if the whole ends in it. -/
theorem Doomed.imp {β γ : Type} {fault : Fault N} {decision : Nat → Option (Except (Fault N) β)}
    {decision' : Nat → Option (Except (Fault N) γ)} (h : n.Doomed sc fault decision)
    (himp : ∀ d, Approx (decision d) (.error fault) → Approx (decision' d) (.error fault)) :
    n.Doomed sc fault decision' :=
  fun depth hdepth d hd => himp d (h depth hdepth d hd)

/-- When nothing is being computed, a fault is what everything comes to. -/
theorem Doomed.approx {β : Type} {fault : Fault N} {decision : Nat → Option (Except (Fault N) β)}
    (h : n.Doomed sc fault decision) (hn : n.Idle) (d : Nat) : Approx (decision d) (.error fault) :=
  h d (fun id _ _ hid => absurd hid (by simp [hn (id + 1)])) d le_rfl

omit [Number N] in
/-- No other cells fail while parts are made. -/
theorem Failed.of_changes {tell : A → σ → σ} (hle : n ≤ n') (hc : n.Changes tell n') {c : Nat}
    (h : n'.Failed c) : n.Failed c := by
  refine ⟨hc.unread c h.1, ?_⟩
  by_contra hne
  obtain ⟨v, hv⟩ := Option.ne_none_iff_exists'.mp hne
  rw [Failed, hle.value c v hv] at h
  exact absurd h.2 (Option.some_ne_none v)

/-! ## What is recorded -/

section Recording

variable {id : Nat} {rs rs' : List (DependencyKey × Topic)}

/-- The keys that were recorded. -/
def keysOf (rs : List (DependencyKey × Topic)) (key : DependencyKey) : Prop := ∃ r ∈ rs, r.1 = key

/-- All cells that were recorded have values. -/
def Valued (sc : Regime N) (n : Network N A σ) (rs : List (DependencyKey × Topic)) : Prop :=
  ∀ key, keysOf rs key → ∀ c, n.Under key c → n.Kept sc c

/-- The recorded dependencies with one more, unless it is among them. -/
def recording (rs : List (DependencyKey × Topic)) (key : DependencyKey) (topic : Topic) :
    List (DependencyKey × Topic) :=
  if rs.any (·.1 == key) then rs else rs ++ [(key, topic)]

theorem keysOf_recording (rs : List (DependencyKey × Topic)) (key : DependencyKey) (topic : Topic)
    (k : DependencyKey) : keysOf (recording rs key topic) k ↔ keysOf rs k ∨ k = key := by
  rw [recording]
  split
  next h =>
    obtain ⟨r, hr, hkey⟩ := List.any_eq_true.mp h
    refine ⟨.inl, fun h => h.elim id ?_⟩
    rintro rfl
    exact ⟨r, hr, by simpa using hkey⟩
  next =>
    simp [keysOf, or_and_right, exists_or, eq_comm]

/-- What the lookups of an evaluation lead to. -/
structure Goes (sc : Regime N) (id : Nat) (rs : List (DependencyKey × Topic)) (n : Network N A σ)
    (rs' : List (DependencyKey × Topic)) (n' : Network N A σ) : Prop where
  inv : n'.Inv sc
  le : n ≤ n'
  notes : n'.Notes sc id rs'
  kept : ∀ key, keysOf rs key → keysOf rs' key

theorem Goes.trans {rs'' : List (DependencyKey × Topic)} {n'' : Network N A σ}
    (h : Goes sc id rs n rs' n') (h' : Goes sc id rs' n' rs'' n'') : Goes sc id rs n rs'' n'' :=
  ⟨h'.inv, le_trans h.le h'.le, h'.notes, fun key hkey => h'.kept key (h.kept key hkey)⟩

omit [Number N] in
theorem Notes.mono (h : n.Notes sc id rs) (hle : n ≤ n') : n'.Notes sc id rs where
  resolved r hr := (hle.registry.sameAt (h.resolved r hr)).topic.trans (h.resolved r hr)
  paths hsc key topic hr := by
    obtain ⟨e, he, hid⟩ := h.paths hsc key topic hr
    exact ⟨e, hle.registry.entry _ e he, hid⟩

omit [Number N] in
theorem Notes.sameAt (h : n.Notes sc id rs) (hle : n ≤ n') {key : DependencyKey} (hkey : keysOf rs key) :
    SameAt n.registry n'.registry key := by
  obtain ⟨r, hr, rfl⟩ := hkey
  exact hle.registry.sameAt (h.resolved r hr)

omit [Number N] in
theorem Valued.mono (h : n.Valued sc rs) (hnotes : n.Notes sc id rs) (hle : n ≤ n') : n'.Valued sc rs := by
  intro key hkey c hc
  obtain ⟨hne, φ, p, hd⟩ := h key hkey c ((hnotes.sameAt hle hkey).under_iff.mp hc)
  obtain ⟨v, hv⟩ := Option.ne_none_iff_exists'.mp hne
  exact ⟨by simp [hle.value _ v hv], φ, p, hle.denotes hd⟩

omit [Number N] in
/-- What is known stays known while an evaluation goes on. -/
theorem Known.mono {query : Query N} {reply : query.Reply} (h : n.Known sc (keysOf rs) id query reply)
    (hnotes : n.Notes sc id rs) (hle : n ≤ n') (hkept : ∀ key, keysOf rs key → keysOf rs' key) :
    n'.Known sc (keysOf rs') id query reply :=
  Known.transfer h hkept (fun _ => hnotes.sameAt hle) fun _ _ _ _ v hv => hle.value _ v hv

/-- One more dependency is recorded. -/
theorem Goes.record (hn : n.Inv sc) (hrs : n.Notes sc id rs) {key : DependencyKey} {topic : Topic}
    (htopic : n.registry.topic? key = some topic)
    (hpaths : ∀ k, key = .paths k →
      ∃ e, n.registry.stage? ⟨k, .uncappedSubtotal, Path.main⟩ = some e ∧ e.formula = id) :
    Goes sc id rs n (recording rs key topic) n where
  inv := hn
  le := le_rfl
  notes := by
    rw [recording]
    split
    · exact hrs
    · refine ⟨fun r hr => ?_, fun hsc k t hr => ?_⟩
      · obtain hr | hr := List.mem_append.mp hr
        · exact hrs.resolved r hr
        · rw [List.mem_singleton.mp hr]
          exact htopic
      · obtain hr | hr := List.mem_append.mp hr
        · exact hrs.paths hsc k t hr
        · exact hpaths k (congrArg Prod.fst (List.mem_singleton.mp hr)).symm
  kept k hk := (keysOf_recording rs key topic k).mpr (.inl hk)

end Recording

/-! ## Queries -/

/-- What a query came to: a reply that is known, or the fault of a cell that stands in the way. -/
def Found (sc : Regime N) (n : Network N A σ) (id : Nat) (path : Path (Stat N))
    (reads : DependencyKey → Prop) (query : Query N) : Except (Fault N) query.Reply → Prop
  | .ok reply => n.Known sc reads id query reply
  | .error fault => n.Blocks sc reads query ∧ n.Doomed sc fault fun d =>
    ((n.registry.inputs.lookup path (n.registry.inputs.reference d)).answer query).run

/-- What comes of reading a cell: it has a value, and no cell failed, or it failed itself. -/
def Comes (sc : Regime N) (n : Network N A σ) (id : Nat) (φ : Formula N) (p : Path (Stat N))
    (n' : Network N A σ) : Except (Fault N) (Option (Amount N)) → Prop
  | .ok v => n'.value? (id + 1) = some v ∧ ∀ c, n'.Failed c → n.Failed c
  | .error fault => n'.Failed (id + 1) ∧ n'.Doomed sc fault fun d =>
    (n'.registry.inputs.reference d φ p).run

/-- Whether the modifiers and paths on file decide a formula on a path, to some depth. -/
def Decides (n : Network N A σ) (depth : Nat) (φ : Formula N) (p : Path (Stat N)) : Prop :=
  (n.registry.inputs.reference depth φ p).run ≠ none

/-- Reading a cell, through the node at an offset, comes to what it should. It does come to something if
`b` holds and the modifiers and paths on file decide what, to some depth. -/
def ReadsAt (sc : Regime N) (b : Prop) (depth offset : Nat)
    (read : Nat → Reading N (Run N A σ) (Option (Amount N))) : Prop :=
  ∀ (n : Network N A σ) (id : Nat) (φ : Formula N) (p : Path (Stat N)), n.Inv sc → n.Hopeless sc →
    n.Denotes sc id φ p → n.Provides φ → Leads (b ∧ n.Decides depth φ p) (read (id + offset)).run n
      fun result n' => n'.Inv sc ∧ n ≤ n' ∧ n.Comes sc id φ p n' result

section Queries

variable {α β : Type} {b : Prop} {rs : List (DependencyKey × Topic)}

omit [Number N] in
theorem run_onNetwork_bind (run : Run N A σ α) (f : α → Reading N (Recording N A σ) β) :
    (onNetwork run >>= f).run.run rs n = (run >>= fun a => (f a).run.run rs) n := by
  change Option.bind (Option.bind (Option.bind (run n) _) _) _ = Option.bind (run n) _
  cases run n <;> rfl

omit [Number N] in
theorem leads_onNetwork_bind {run : Run N A σ α} {f : α → Reading N (Recording N A σ) β}
    {post : α → Network N A σ → Prop}
    {Q : Except (Fault N) β × List (DependencyKey × Topic) → Network N A σ → Prop}
    (h : Leads b run n post) (hf : ∀ a n', post a n' → Leads b ((f a).run.run rs) n' Q) :
    Leads b ((onNetwork run >>= f).run.run rs) n Q := (h.bind hf).congr (run_onNetwork_bind run f)

omit [Number N] in
theorem leads_get_bind {f : Network N A σ → Reading N (Recording N A σ) β}
    {Q : Except (Fault N) β × List (DependencyKey × Topic) → Network N A σ → Prop}
    (h : Leads b ((f n).run.run rs) n Q) :
    Leads b ((onNetwork MonadState.get >>= f).run.run rs) n Q := ⟨h.total, h.partly⟩

omit [Number N] in
theorem leads_record_bind {key : DependencyKey} {topic : Topic}
    {f : Unit → Reading N (Recording N A σ) β}
    {Q : Except (Fault N) β × List (DependencyKey × Topic) → Network N A σ → Prop}
    (h : Leads b ((f ()).run.run (recording rs key topic)) n Q) :
    Leads b ((record key topic >>= f).run.run rs) n Q :=
  ⟨h.total, h.partly⟩

omit [Number N] in
theorem leads_readIn {read : Nat → Reading N (Run N A σ) (Option (Amount N))} {c : Nat}
    {post : Except (Fault N) (Option (Amount N)) → Network N A σ → Prop}
    (h : Leads b (read c).run n post) :
    Leads b ((readIn read c).run.run rs) n fun result n' => result.2 = rs ∧ post result.1 n' :=
  (h.bind fun _ _ ha => .of_pure ⟨rfl, ha⟩ : Leads b ((read c).run >>= fun r => pure (r, rs)) n _)

variable {host : Host N A σ} {tell : A → σ → σ} (hhost : host.Quiet tell)
  {read : Nat → Reading N (Run N A σ) (Option (Amount N))} {depth : Nat}
  (hread : ReadsAt sc b depth 2 read) {id : Nat} {path : Path (Stat N)}

/-- What comes of a query: everything goes on, and if there is a reply no cell failed. -/
def Replies (sc : Regime N) (id : Nat) (path : Path (Stat N)) (query : Query N)
    (rs : List (DependencyKey × Topic)) (n : Network N A σ)
    (result : Except (Fault N) query.Reply × List (DependencyKey × Topic)) (n' : Network N A σ) :
    Prop :=
  Goes sc id rs n result.2 n' ∧ Found sc n' id path (keysOf result.2) query result.1
    ∧ ∀ reply, result.1 = .ok reply → LeadsTo sc n query reply n' ∧ n'.Valued sc result.2
      ∧ ∀ c, n'.Failed c → n.Failed c

include hhost

/-- The paths of a stat are those that are on file. -/
theorem leads_paths (hn : n.Inv sc) (hrs : n.Notes sc id rs) (hvalued : n.Valued sc rs) {stat : Stat N}
    (hmay : May sc id n (.paths stat)) :
    Leads b (((recordingLookup host read path).paths stat).run.run rs) n
      (Replies sc id path (.paths stat) rs n) := by
  obtain ⟨hstat, hmain, e, he, hid⟩ := hmay
  refine leads_onNetwork_bind ((leads_pathSetOf hhost hn (sc.admits stat hstat)
    fun _ => .inl hstat).mono (fun _ => trivial) fun _ _ h => h) ?_
  rintro set n₁ ⟨hinv, hchanges, htopic, hpaths, hextends⟩
  have hle : n ≤ n₁ := hextends hstat
  refine leads_record_bind (leads_get_bind ?_)
  have hentry := hle.registry.entry _ e he
  have hgoes := (Goes.record hinv (hrs.mono hle) htopic fun k hk => by cases hk; exact ⟨e, hentry, hid⟩)
  refine .of_pure ⟨⟨hinv, hle, hgoes.notes, hgoes.kept⟩, ⟨?_, ⟨e, hentry, hid⟩,
    hle.registry.path _ _ hmain, hpaths⟩, fun reply hreply => ⟨⟨hinv, hle, ?_⟩, fun key hkey c hc => ?_,
    fun c => Failed.of_changes hle hchanges⟩⟩
  · exact (keysOf_recording ..).mpr (.inr rfl)
  · cases hreply
    exact hpaths
  · obtain hkey | rfl := (keysOf_recording ..).mp hkey
    · exact (hvalued.mono hrs hle) key hkey c hc
    · exact hc.elim

omit hhost in
/-- What overrides the total of a stat is looked up on the main path, which the stat has then. -/
theorem Inv.main_of_totalOverride (hn : n.Inv sc) {s : Stat N} (hs : s ∈ sc.stats) {p : PathKey}
    {e : NodeEntry N} (he : n.registry.stage? ⟨s.key, .totalOverride, p⟩ = some e)
    {v : Option (Amount N)} (hv : n.value? (e.formula + 1) = some v) :
    Path.main ∈ n.registry.paths s.key := by
  cases hn.sound _ _ _ _ (.stage he hs rfl) hv with
  | intro denotes _ _ follows =>
    obtain ⟨rfl, rfl⟩ := hn.wired.denotes_unique hn.orderly (.stage he hs rfl) denotes
    have hfollows : Follows _ (.ask (.values .totalOverride [(s, Path.main)]) _) _ := follows
    cases hfollows with
    | reply answer =>
      obtain ⟨_, -, _, -, hplaces⟩ := answer
      obtain ⟨_, -, _, e', he', -⟩ := exists_of_forall₂ hplaces List.mem_cons_self
      have hpath : e'.path = Path.main :=
        path_eq_of_key rfl (Registry.form?_spec he').2
      exact (isIn_iff rfl).mp (hpath ▸ hn.counted.isIn_paths_of_form he')

include hread

/-- The value of a stage is what comes of reading its cell. -/
theorem leads_value (hn : n.Inv sc) (hhopeless : n.Hopeless sc) (hrs : n.Notes sc id rs)
    (hvalued : n.Valued sc rs) {stat : Stat N} {stage : Stage} {p : Path (Stat N)}
    (hmay : May sc id n (.value stat stage p)) :
    Leads (b ∧ n.Decides depth (.stage stat stage) (stagePath stage p))
      (((recordingLookup host read path).value stat stage p).run.run rs) n
      (Replies sc id path (.value stat stage p) rs n) := by
  obtain ⟨hstat, hvia, hprovides, hpath⟩ := hmay
  refine leads_onNetwork_bind
    ((leads_nodesOf hhost hn (sc.admits stat hstat) ((sc.follows hstat).hasPath_iff.mpr hvia)
      (fun _ => .inl hpath) fun _ => .inl hstat).mono (fun _ => trivial) fun _ _ h => h) ?_
  rintro e n₁ ⟨hinv, hchanges, he, -, hextends⟩
  have hle : n ≤ n₁ := hextends hstat hpath
  rw [stagePath_stagePath] at he
  obtain ⟨hcached, hexposed, -⟩ := hinv.wired.stages _ _ he
  have hp : e.path = stagePath stage p :=
    path_eq_of_key hvia (Registry.stage?_spec he).2
  have hd : n₁.Denotes sc e.formula (.stage stat stage) (stagePath stage p) :=
    hp ▸ Denotes.stage he hstat rfl
  have hfailed (c : Nat) : n₁.Failed c → n.Failed c := Failed.of_changes hle hchanges
  have htopic : n₁.registry.topic? (.node ⟨stat.key, stage, (stagePath stage p).key⟩)
      = some (.received e.cached) := by
    rw [Registry.topic?, he]
    rfl
  -- the lookup is recorded before the cell is read, so it stays on record if that fails
  refine leads_record_bind ?_
  rw [hexposed]
  have hcell := hread n₁ e.formula _ _ hinv (hhopeless.mono hle hfailed) hd (hprovides.mono hle)
  rw [Decides, hle.registry.inputs] at hcell
  refine (leads_readIn hcell).weaken ?_
  rintro ⟨result, rs'⟩ n₂ ⟨rfl, hinv₂, hle₂, hcomes⟩
  have he₂ := hle₂.registry.entry _ _ he
  have hrecord := Goes.record hinv (hrs.mono hle) htopic fun k hk => by cases hk
  have hkey : keysOf (recording rs _ _) (.node ⟨stat.key, stage, (stagePath stage p).key⟩) :=
    (keysOf_recording rs _ (.received e.cached) _).mpr (.inr rfl)
  refine ⟨⟨hinv₂, le_trans hle hle₂, hrecord.notes.mono hle₂, hrecord.kept⟩, ?_, ?_⟩
  · cases result with
    | ok v => exact ⟨hstat, hvia, hkey, e, he₂, hcomes.1⟩
    | error fault => exact ⟨⟨hstat, hvia, hkey, e, he₂, hcomes.1⟩, hcomes.2⟩
  · rintro v rfl
    refine ⟨⟨hinv₂, le_trans hle hle₂, ?_⟩, fun key hk c hc => ?_, fun c hc => hfailed c (hcomes.2 c hc)⟩
    · cases stage <;> first | trivial | exact hinv₂.main_of_totalOverride hstat he₂ hcomes.1
    · obtain hk | rfl := (keysOf_recording ..).mp hk
      · exact (hvalued.mono hrs (le_trans hle hle₂)) key hk c hc
      · obtain ⟨e', he', rfl⟩ := hc
        obtain rfl := Option.some.inj (he₂.symm.trans he')
        exact ⟨by simp [hcomes.1], _, _, hle₂.denotes hd⟩

/-! ## Members of collections -/

/-- Whether a member of a collection has a value. -/
def ItemKnown (n : Network N A σ) (i : Nat × Modifier N) (v : Option (Amount N)) : Prop :=
  ∃ c, i.1 = c + 2 ∧ n.value? (c + 1) = some v

omit hhost hread in
/-- The value of a member is what the modifiers and paths on file stand for. -/
theorem ItemKnown.approx (hn : n.Inv sc) (hsc : sc.Follows) {key : StatKey} {form : Form} {p : PathKey} {e : FormEntry N}
    (he : n.registry.form? key form p = some e) {i : Nat × Modifier N}
    (hi : i ∈ n.registry.items e.collection) {v : Option (Amount N)} (h : n.ItemKnown i v)
    (depth : Nat) :
    Approx (n.registry.inputs.reference depth i.2.formula i.2.path).run (.ok v) := by
  obtain ⟨c, hc, hv⟩ := h
  have hd : n.Denotes sc c i.2.formula i.2.path := .member hsc he (hc ▸ hi)
  exact ((hn.sound _ _ _ _ hd hv).computes hn.wired hn.orderly hd hv).approx depth

/-- A member of a collection ends in a fault. -/
def ItemFails (sc : Regime N) (n : Network N A σ) (i : Nat × Modifier N) (fault : Fault N) : Prop :=
  (∃ c, i.1 = c + 2 ∧ n.Failed (c + 1))
    ∧ n.Doomed sc fault fun d => (n.registry.inputs.reference d i.2.formula i.2.path).run

omit hhost in
/-- The members of a collection are read one after another. -/
theorem leads_readAll (hn : n.Inv sc) (hsc : sc.Follows) (hhopeless : n.Hopeless sc) {key : StatKey} {form : Form}
    {p : PathKey} {e : FormEntry N} (he : n.registry.form? key form p = some e) :
    Leads (b ∧ ((n.registry.items e.collection).mapM fun i =>
        n.registry.inputs.reference depth i.2.formula i.2.path).run ≠ none)
      ((readAll (readIn read) (n.memberNodes e.collection)).run.run rs) n
      fun result n' => (result.2 = rs ∧ n'.Inv sc ∧ n ≤ n') ∧ match result.1 with
        | .ok vs => (∀ c, n'.Failed c → n.Failed c)
          ∧ List.Forall₂ n'.ItemKnown (n.registry.items e.collection) vs
        | .error fault => ∃ before i after vs,
          n.registry.items e.collection = before ++ i :: after
            ∧ List.Forall₂ n'.ItemKnown before vs ∧ n'.ItemFails sc i fault := by
  rw [readAll, memberNodes_eq, List.mapM_map]
  -- what is left is decided as long as what was read came to something
  let decided (rest : List (Nat × Modifier N)) : Prop :=
    (rest.mapM fun i => n.registry.inputs.reference depth i.2.formula i.2.path).run ≠ none
  let c : Prop := b ∧ decided (n.registry.items e.collection)
  refine (leads_reading_mapM
    (G := fun rest rs' m => (rs' = rs ∧ m.Inv sc ∧ n ≤ m ∧ ∀ c, m.Failed c → n.Failed c)
      ∧ (c → decided rest))
    (F := fun _ m => m.ItemKnown)
    (B := fun rs' m i fault => (rs' = rs ∧ m.Inv sc ∧ n ≤ m) ∧ m.ItemFails sc i fault)
    (fun i hi rest rs' m hm => ?_) ⟨⟨rfl, hn, le_rfl, fun _ h => h⟩, And.right⟩).weaken ?_
  · obtain ⟨⟨rfl, hinv, hle, hfailed⟩, hdecided⟩ := hm
    obtain ⟨-, -, hhas, c, hc, -⟩ := (hn.wired.forms _ _ _ _ he).members i hi
    have hreads := hsc.reads hhas
    obtain ⟨he', hitems⟩ := hle.registry.form _ _ _ _ he
    have hd : m.Denotes sc c i.2.formula i.2.path := .member hsc he' (by rwa [hitems, ← hc])
    have hprovides : m.Provides i.2.formula := fun s stage hφ => by rw [hφ] at hreads; cases hreads
    have hcell := hread m c _ _ hinv (hhopeless.mono hle hfailed) hd hprovides
    rw [Decides, hle.registry.inputs] at hcell
    rw [Function.comp_apply, hc]
    refine (leads_readIn (hcell.mono (fun h => ⟨h.1, (decided_head (hdecided h) :)⟩) fun _ _ h => h)).weaken ?_
    rintro ⟨result, rs'⟩ m' ⟨rfl, hinv', hle', hcomes⟩
    refine ⟨fun j v ⟨c', hc', hv⟩ => ⟨c', hc', hle'.value _ v hv⟩, ?_⟩
    cases result with
    | ok v =>
      have hknown : m'.ItemKnown i v := ⟨c, hc, hcomes.1⟩
      obtain ⟨he'', hitems'⟩ := hle'.registry.form _ _ _ _ he'
      have happrox := hknown.approx hinv' hsc he'' (by rwa [hitems', hitems]) depth
      rw [hle'.registry.inputs, hle.registry.inputs] at happrox
      exact ⟨⟨⟨rfl, hinv', le_trans hle hle', fun c' h => hfailed c' (hcomes.2 c' h)⟩,
        fun h => decided_tail (hdecided h) happrox⟩, hknown⟩
    | error fault => exact ⟨⟨rfl, hinv', le_trans hle hle'⟩, ⟨c, hc, hcomes.1⟩, hcomes.2⟩
  · rintro ⟨result, rs'⟩ n' ⟨-, h⟩
    cases result with
    | ok vs => exact ⟨⟨h.1.1.1, h.1.1.2.1, h.1.1.2.2.1⟩, h.1.1.2.2.2, h.2⟩
    | error fault =>
      obtain ⟨before, i, after, vs, heq, hbefore, hgoes, hfails⟩ := h
      exact ⟨hgoes, before, i, after, vs, heq, hbefore, hfails⟩

/-- What is known of the modifiers of a form on a place. -/
def PlaceKnown (form : Form) (rs : List (DependencyKey × Topic)) (n : Network N A σ)
    (place : Place N) (values : List (Option (Amount N))) : Prop :=
  keysOf rs (.form place.1.key form place.2.key)
    ∧ ∃ e, n.registry.form? place.1.key form place.2.key = some e
      ∧ List.Forall₂ n.ItemKnown (n.registry.items e.collection) values

/-- One of the modifiers of a form on a place ends in a fault. -/
def PlaceFails (sc : Regime N) (form : Form) (rs : List (DependencyKey × Topic)) (n : Network N A σ)
    (place : Place N) (fault : Fault N) : Prop :=
  keysOf rs (.form place.1.key form place.2.key)
    ∧ (∃ e, n.registry.form? place.1.key form place.2.key = some e
      ∧ ∃ i ∈ n.registry.items e.collection, ∃ c, i.1 = c + 2 ∧ n.Failed (c + 1))
    ∧ n.Doomed sc fault fun d => ((n.registry.inputs.modifiers place.1.key form place.2.key).mapM
      fun m => n.registry.inputs.reference d m.formula m.path).run

omit hhost hread in
theorem PlaceKnown.mono {form : Form} {rs rs' : List (DependencyKey × Topic)} {n n' : Network N A σ}
    (h : Goes sc id rs n rs' n') {place : Place N} {values : List (Option (Amount N))}
    (hknown : n.PlaceKnown form rs place values) : n'.PlaceKnown form rs' place values := by
  obtain ⟨hkey, e, he, hvalues⟩ := hknown
  obtain ⟨he', hitems⟩ := h.le.registry.form _ _ _ _ he
  refine ⟨h.kept _ hkey, e, he', hitems ▸ hvalues.imp fun i v ⟨c, hc, hv⟩ => ?_⟩
  exact ⟨c, hc, h.le.value _ v hv⟩

/-- The values of the modifiers on a place are what comes of reading their cells. -/
theorem leads_place (hn : n.Inv sc) (hhopeless : n.Hopeless sc) (hrs : n.Notes sc id rs)
    (hvalued : n.Valued sc rs) (form : Form) {place : Place N} (hstat : place.1 ∈ sc.stats)
    (hvia : place.2.via = [])
    (hpath : place.2 = Path.main ∨ place.2 ∈ n.registry.paths place.1.key) :
    Leads (b ∧ ((n.registry.inputs.modifiers place.1.key form place.2.key).mapM fun m =>
        n.registry.inputs.reference depth m.formula m.path).run ≠ none) ((do
        let entry ← onNetwork (collectionOf host place.1 form place.2)
        record (.form place.1.key form place.2.key) (.changed entry.aggregate)
        readAll (readIn read) ((← onNetwork get).memberNodes entry.collection) :
      Reading N (Recording N A σ) _).run.run rs) n fun result n' =>
      Goes sc id rs n result.2 n' ∧ match result.1 with
        | .ok values => (n'.Valued sc result.2 ∧ ∀ c, n'.Failed c → n.Failed c)
          ∧ n'.PlaceKnown form result.2 place values
        | .error fault => n'.PlaceFails sc form result.2 place fault := by
  have hsc := sc.follows hstat
  refine leads_onNetwork_bind ((leads_collectionOf hhost hn (sc.admits _ hstat) form
    (hsc.hasPath_iff.mpr hvia) fun _ => .inl ⟨hstat, hpath⟩).mono (fun _ => trivial) fun _ _ h => h) ?_
  rintro e n₁ ⟨hinv, hchanges, hgives, -, hle⟩
  have hle : n ≤ n₁ := hle hstat hpath
  have he := hgives.entry
  have hfailed (c : Nat) : n₁.Failed c → n.Failed c := Failed.of_changes hle hchanges
  have htopic : n₁.registry.topic? (.form place.1.key form place.2.key)
      = some (.changed e.aggregate) := by
    rw [Registry.topic?, he]
    rfl
  have hrecord := Goes.record hinv (hrs.mono hle) htopic fun k hk => by cases hk
  have hkey : keysOf (recording rs _ (.changed e.aggregate)) (.form place.1.key form place.2.key) :=
    (keysOf_recording ..).mpr (.inr rfl)
  -- the lookup is recorded before the members are read
  refine leads_record_bind (leads_get_bind ?_)
  refine (leads_readAll hread hinv hsc (hhopeless.mono hle hfailed) he).mono (fun h => ?_) ?_
  · rw [← hle.registry.inputs, Registry.modifiers_eq he, List.mapM_map] at h
    exact h
  rintro ⟨result, rs'⟩ n₂ ⟨⟨rfl, hinv₂, hle₂⟩, hresult⟩
  obtain ⟨he₂, hitems⟩ := hle₂.registry.form _ _ _ _ he
  refine ⟨⟨hinv₂, le_trans hle hle₂, hrecord.notes.mono hle₂, hrecord.kept⟩, ?_⟩
  cases result with
  | ok values =>
    obtain ⟨hfailed₂, hvalues⟩ := hresult
    rw [← hitems] at hvalues
    refine ⟨⟨fun key hk c hc => ?_, fun c hc => hfailed c (hfailed₂ c hc)⟩, hkey, e, he₂, hvalues⟩
    obtain hk | rfl := (keysOf_recording ..).mp hk
    · exact (hvalued.mono hrs (le_trans hle hle₂)) key hk c hc
    · obtain ⟨e', he', hc⟩ := hc
      obtain rfl := Option.some.inj (he₂.symm.trans he')
      obtain ⟨i, hi, hic⟩ := List.mem_map.mp hc
      obtain ⟨v, -, c', hc', hv⟩ := exists_of_forall₂ hvalues hi
      obtain rfl : c' = c := by omega
      exact ⟨by simp [hv], i.2.formula, i.2.path, .member hsc he₂ (by rwa [← hc'])⟩
  | error fault =>
    obtain ⟨before, i, after, vs, heq, hbefore, hfails, hdoomed⟩ := hresult
    rw [← hitems] at heq
    have hmem : i ∈ n₂.registry.items e.collection := by simp [heq]
    refine ⟨hkey, ⟨e, he₂, i, hmem, hfails⟩, hdoomed.imp fun d hd => ?_⟩
    have hmodifiers : n₂.registry.inputs.modifiers place.1.key form place.2.key
        = before.map (·.2) ++ i.2 :: after.map (·.2) := by
      rw [Registry.modifiers_eq he₂, heq, List.map_append, List.map_cons]
    rw [hmodifiers]
    -- the members before the one that failed have values
    refine .mapM_error (fun m hm => ?_) hd
    obtain ⟨j, hj, rfl⟩ := List.mem_map.mp hm
    obtain ⟨v, -, hv⟩ := exists_of_forall₂ hbefore hj
    exact ⟨v, hv.approx hinv₂ hsc he₂ (heq ▸ List.mem_append_left _ hj) d⟩

omit hhost hread in
/-- The values on a place are what the modifiers and paths on file stand for. -/
theorem PlaceKnown.approx (hn : n.Inv sc) (hsc : sc.Follows) {form : Form} {place : Place N}
    {values : List (Option (Amount N))} (h : n.PlaceKnown form rs place values) (d : Nat) :
    ∃ values, Approx ((n.registry.inputs.modifiers place.1.key form place.2.key).mapM fun m =>
      n.registry.inputs.reference d m.formula m.path).run (.ok values) := by
  obtain ⟨-, e, he, hvalues⟩ := h
  refine Approx.mapM_ok fun m hm => ?_
  rw [Registry.modifiers_eq he] at hm
  obtain ⟨j, hj, rfl⟩ := List.mem_map.mp hm
  obtain ⟨v, -, hv⟩ := exists_of_forall₂ hvalues hj
  exact ⟨v, hv.approx hn hsc he hj d⟩

/-- The values of the modifiers on several places are looked up one place after another. -/
theorem leads_values (hn : n.Inv sc) (hhopeless : n.Hopeless sc) (hrs : n.Notes sc id rs)
    (hvalued : n.Valued sc rs) {form : Form} {places : List (Place N)}
    (hmay : May sc id n (.values form places)) :
    Leads (b ∧ ((n.registry.inputs.lookup path (n.registry.inputs.reference depth)).values form places).run
        ≠ none)
      (((recordingLookup host read path).values form places).run.run rs) n
      (Replies sc id path (.values form places) rs n) := by
  let decided (rest : List (Place N)) : Prop :=
    (rest.mapM fun place => (n.registry.inputs.modifiers place.1.key form place.2.key).mapM fun m =>
      n.registry.inputs.reference depth m.formula m.path).run ≠ none
  let c : Prop := b
    ∧ ((n.registry.inputs.lookup path (n.registry.inputs.reference depth)).values form places).run ≠ none
  refine leads_reading_bind (leads_reading_mapM
    (G := fun rest rs' m => (Goes sc id rs n rs' m ∧ m.Valued sc rs' ∧ ∀ c, m.Failed c → n.Failed c)
      ∧ (c → decided rest))
    (F := fun rs' m => m.PlaceKnown form rs')
    (B := fun rs' m place fault => Goes sc id rs n rs' m ∧ m.PlaceFails sc form rs' place fault)
    (fun ⟨stat, p⟩ hplace rest rs₁ n₁ ⟨⟨hgoes, hvalued₁, hfailed⟩, hdecided⟩ => ?_)
    ⟨⟨⟨hn, le_rfl, hrs, fun _ h => h⟩, hvalued, fun _ h => h⟩, fun h => decided_of_bind h.2⟩) ?_ ?_
  · -- what was on file at the start still is when a place has its turn
    obtain ⟨hstat, hvia, hpath⟩ := hmay _ hplace
    have hinputs := hgoes.le.registry.inputs
    have hvalues := leads_place hhost hread hgoes.inv (hhopeless.mono hgoes.le hfailed) hgoes.notes hvalued₁
      form hstat hvia (hpath.imp_right (hgoes.le.registry.path _ _))
    rw [hinputs] at hvalues
    refine (hvalues.mono (fun h => ⟨h.1, (decided_head (hdecided h) :)⟩) fun _ _ h => h).weaken ?_
    rintro ⟨result, rs₂⟩ n₂ ⟨hgoes₂, hresult⟩
    refine ⟨fun place values => PlaceKnown.mono hgoes₂, ?_⟩
    cases result with
    | ok values =>
      obtain ⟨values', happrox⟩ := hresult.2.approx hgoes₂.inv (sc.follows hstat) depth
      rw [hgoes₂.le.registry.inputs, hinputs] at happrox
      exact ⟨⟨⟨hgoes.trans hgoes₂, hresult.1.1, fun c hc => hfailed c (hresult.1.2 c hc)⟩,
        fun h => decided_tail (hdecided h) happrox⟩, hresult.2⟩
    | error fault => exact ⟨hgoes.trans hgoes₂, hresult⟩
  · rintro replies rs' n' ⟨-, ⟨⟨hgoes, hvalued', hfailed⟩, -⟩, hreplies⟩
    exact .of_pure ⟨hgoes, ⟨replies, rfl, hreplies⟩, fun reply _ =>
      ⟨⟨hgoes.inv, hgoes.le, trivial⟩, hvalued', hfailed⟩⟩
  · rintro fault rs' n' ⟨-, before, place, after, replies, rfl, hbefore, hgoes, hkey, hfails, hdoomed⟩
    have hsc := sc.follows (hmay place (by simp)).1
    refine ⟨hgoes, ⟨⟨place, by simp, hkey, hfails⟩, hdoomed.imp fun d hd => .bind_error ?_⟩, ?_⟩
    · refine .mapM_error (fun place' hplace' => ?_) hd
      obtain ⟨values, -, hknown⟩ := exists_of_forall₂ hbefore hplace'
      exact hknown.approx hgoes.inv hsc d
    · rintro reply h
      cases h

/-- Whatever a formula may ask for is found, or ends in a fault of what stands in the way. -/
theorem leads_answer (hn : n.Inv sc) (hhopeless : n.Hopeless sc) (hrs : n.Notes sc id rs)
    (hvalued : n.Valued sc rs) {query : Query N} (hmay : May sc id n query) (path : Path (Stat N)) :
    Leads (b ∧ ((n.registry.inputs.lookup path (n.registry.inputs.reference depth)).answer query).run ≠ none)
      (((recordingLookup host read path).answer query).run.run rs) n
      (Replies sc id path query rs n) := by
  cases query with
  | paths stat => exact leads_paths hhost hn hrs hvalued hmay
  | value stat stage p => exact leads_value hhost hread hn hhopeless hrs hvalued hmay
  | values form places => exact leads_values hhost hread hn hhopeless hrs hvalued hmay
  | derived | note => exact hmay.elim

omit hhost hread in
/-- What was found stays found while an evaluation goes on. -/
theorem Found.mono {query : Query N} {reply : query.Reply} {rs' : List (DependencyKey × Topic)}
    (hrs : n.Notes sc id rs) (hgoes : Goes sc id rs n rs' n')
    (h : Found sc n id path (keysOf rs) query (.ok reply)) :
    Found sc n' id path (keysOf rs') query (.ok reply) :=
  Known.mono h hrs hgoes.le hgoes.kept

/-- What a formula asks for is looked up until all of it is found, or something ends in a fault. -/
theorem leads_answeredBy (hsc : sc.Follows) : ∀ {inquiry : Inquiry N (Except (Fault N) α)} {n : Network N A σ}
    {rs : List (DependencyKey × Topic)}, n.Inv sc → n.Hopeless sc → n.Notes sc id rs → n.Valued sc rs →
      inquiry.Asks (May sc id) (LeadsTo sc) n →
      Leads (b ∧ (inquiry.answeredBy
          (n.registry.inputs.lookup path (n.registry.inputs.reference depth))).run ≠ none)
        ((inquiry.answeredBy (recordingLookup host read path)).run.run rs) n
        fun result n' => Goes sc id rs n result.2 n'
          ∧ Follows (Found sc n' id path (keysOf result.2)) inquiry result.1
          ∧ ∀ a, result.1 = .ok a → n'.Valued sc result.2 ∧ ∀ c, n'.Failed c → n.Failed c
  | .done result, n, rs, hn, _, hrs, hvalued, _ => by
    have hdone : Goes sc id rs n rs n := ⟨hn, le_rfl, hrs, fun _ h => h⟩
    cases result with
    | ok a => exact .of_pure ⟨hdone, .done _, fun _ _ => ⟨hvalued, fun _ h => h⟩⟩
    | error fault => exact .of_pure ⟨hdone, .done _, fun _ h => by cases h⟩
  | .ask query next, n, rs, hn, hhopeless, hrs, hvalued, hasks => by
    have hanswer := leads_answer hhost hread hn hhopeless hrs hvalued hasks.1 path
    refine leads_reading_bind (hanswer.mono (fun h => ⟨h.1, decided_of_bind h.2⟩) fun _ _ h => h) ?_ ?_
    · rintro reply rs₁ n₁ ⟨hgoes, hfound, hreply⟩
      obtain ⟨hleads, hvalued₁, hfailed⟩ := hreply reply rfl
      -- what is left is decided, since this reply is the one that is found on file
      have happrox := Known.approx hgoes.inv.wired hgoes.inv.orderly hgoes.inv.sound hsc hfound path depth
      rw [hgoes.le.registry.inputs] at happrox
      have hrest := leads_answeredBy hsc hgoes.inv (hhopeless.mono hgoes.le hfailed) hgoes.notes hvalued₁
        (hasks.2 reply n₁ hleads)
      rw [hgoes.le.registry.inputs] at hrest
      refine (hrest.mono (fun h => ⟨h.1, happrox.decided_next h.2⟩) fun _ _ h => h).weaken ?_
      rintro ⟨result, rs₂⟩ n₂ ⟨hgoes₂, hfollows, hok⟩
      exact ⟨hgoes.trans hgoes₂, .reply (hfound.mono hgoes.notes hgoes₂) hfollows, fun a ha =>
        ⟨(hok a ha).1, fun c hc => hfailed c ((hok a ha).2 c hc)⟩⟩
    · rintro fault rs₁ n₁ ⟨hgoes, hfound, -⟩
      exact ⟨hgoes, .fault hfound, fun a h => by cases h⟩

end Queries

end Network

end StatEngine
