import StatEngine.Proofs.Attending

/-!
# What leaves a collection alone

Most of what happens in a network has nothing to do with a given collection: it keeps its members, and the
nodes that attend it listen to what they did (`Aside`). So it is with announcements of changes, whoever
listens, as long as hosts that are called back stand aside (`Host.StandsAside`). An announcement of the
collection itself makes the nodes adjust that attend it, each of them for its own part.

## Main definitions

* `Upholds` and `Aside`: a collection is left alone, and a node that attends it too;
* `heeded`: an announcement as it is for a node that attends a collection.

## Main statements

* `staysAside_raise`: announcements of changes leave collections and the nodes that attend them alone;
* `Attends.leads_raise_members`: a node attends a collection as it is now once that is announced;
* `Attends.emit_members` and `Attends.emit_changed`: what a node does when it is called.
-/

namespace StatEngine.Network

variable {N A σ : Type} {α β : Type} {n n' n'' : Network N A σ} {a b c m : Nat} {nodes : List Nat}
  {t : Topic} {host : Host N A σ}

/-! ## What leaves a collection alone -/

/-- A collection has the members that it had, and it can still be followed. -/
structure Upholds (n : Network N A σ) (c : Nat) (n' : Network N A σ) : Prop where
  followable : n.Followable c → n'.Followable c
  kind : ∀ i kind, n.kind? i = some kind → n'.kind? i = some kind
  items : n'.registry.items c = n.registry.items c

/-- A collection has the members that it had, and a node, if it is there, listens to what it did. -/
structure Aside (n : Network N A σ) (c a : Nat) (n' : Network N A σ) : Prop extends
    n.Upholds c n' where
  held : a < n.nodes.size → n'.held a = n.held a
  followed : a < n.nodes.size → n'.followed a = n.followed a
  listens : a < n.nodes.size → ∀ t, n'.listenersOf a t = n.listenersOf a t
  present : n.isPresent (.changed a) → n'.isPresent (.changed a)

namespace Upholds

theorem refl (n : Network N A σ) (c : Nat) : n.Upholds c n := ⟨id, fun _ _ h => h, rfl⟩

theorem trans (h : n.Upholds c n') (h' : n'.Upholds c n'') : n.Upholds c n'' :=
  ⟨fun hn => h'.followable (h.followable hn), fun i kind hi => h'.kind i kind (h.kind i kind hi),
    h'.items.trans h.items⟩

theorem memberNodes (h : n.Upholds c n') : n'.memberNodes c = n.memberNodes c := by
  rw [memberNodes_eq, memberNodes_eq, h.items]

theorem lt_size (h : n.Upholds c n') (ha : a < n.nodes.size) : a < n'.nodes.size := by
  obtain ⟨kind, hkind⟩ := n.exists_kind?_of_lt ha
  exact lt_size_of_kind? (h.kind a kind hkind)

/-- Whoever has other subscriptions, the collection is as it was. -/
theorem of_rewires (h : n.Rewires b n') : n.Upholds c n' :=
  ⟨h.followable, fun i _ hi => (h.kind i).trans hi, by rw [h.registry]⟩

end Upholds

namespace Aside

theorem refl (n : Network N A σ) (c a : Nat) : n.Aside c a n :=
  ⟨.refl n c, fun _ => rfl, fun _ => rfl, fun _ _ => rfl, id⟩

theorem trans (h : n.Aside c a n') (h' : n'.Aside c a n'') : n.Aside c a n'' where
  toUpholds := h.toUpholds.trans h'.toUpholds
  held ha := (h'.held (h.lt_size ha)).trans (h.held ha)
  followed ha := (h'.followed (h.lt_size ha)).trans (h.followed ha)
  listens ha t := (h'.listens (h.lt_size ha) t).trans (h.listens ha t)
  present ha := h'.present (h.present ha)

/-- Another node may have other subscriptions. -/
theorem of_rewires (h : n.Rewires b n') (hb : a ≠ b) : n.Aside c a n' :=
  ⟨.of_rewires h, fun _ => held_of_view (h.view a hb), fun _ => followed_of_view (h.view a hb),
    fun _ => h.listens a hb, fun ha => (h.present _).trans ha⟩

/-- What cached nodes keep and what is told to hosts is of no concern. -/
theorem of_dim (n : Network N A σ) (heard : List Nat) (left : Notices σ) :
    n.Aside c a (n.dim heard left) where
  followable hn := by
    have hkind : ∀ i kind, n.kind? i = some kind → (n.dim heard left).kind? i = some kind :=
      fun i _ hi => (n.kind?_dim heard left i).trans hi
    refine ⟨hn.ledger.of_eq (n.listeners_dim heard left) (fun i => n.held_relight i _) le_rfl, hn.topic,
      fun m hm => ((hn.members m hm).of_kind hkind).2, fun attached hattached i hi => ?_⟩
    rw [listeners_dim] at hattached
    exact (hn.followers attached hattached i hi).imp fun _ => hkind _ _
  kind i _ hi := (n.kind?_dim heard left i).trans hi
  items := rfl
  held _ := n.held_relight a _
  followed _ := n.followed_relight a _
  listens _ t := listenersOf_congr (n.listeners_dim heard left t)
  present ha := (n.isPresent_dim heard left _).trans ha

end Aside

/-- A node attends its collection as it did when both are left alone. -/
theorem Attends.aside (h : n.Attends c nodes a) (hn : n.Ledger) (haside : n.Aside c a n') :
    n'.Attends c nodes a :=
  h.congr (fun _ => haside.kind a _) (haside.present h.present) (haside.held h.lt_size)
    (haside.followed h.lt_size) (fun _ hd => ((h.canBeFollowed hn hd).of_kind haside.kind).1)
    (haside.listens h.lt_size)

/-- A run that leaves a collection and a node alone. -/
def StaysAside (c a : Nat) (run : Run N A σ α) : Prop :=
  ∀ n, n.Followable c → Leads False run n fun _ n' => n.Aside c a n'

/-- Whatever a host does when it is called back, it leaves a collection and a node alone. -/
structure Host.StandsAside (host : Host N A σ) (c a : Nat) : Prop where
  notified : ∀ action signal, StaysAside c a (host.notified action signal)

/-- A host that only takes note stands aside. -/
theorem Host.Quiet.standsAside {tell : A → σ → σ} (hhost : host.Quiet tell) (c a : Nat) :
    host.StandsAside c a where
  notified action signal n _ := by
    refine .of_eq (hhost.notified action signal n) ?_
    have := Aside.of_dim (c := c) (a := a) n [] ⟨n.buffer.pending, tell action n.host⟩
    rwa [dim_nil] at this

namespace StaysAside

theorem of_pure (x : α) : StaysAside c a (pure x : Run N A σ α) := fun n _ => .of_pure (.refl n c a)

theorem bind {run : Run N A σ α} {next : α → Run N A σ β} (h : StaysAside c a run)
    (hnext : ∀ x, StaysAside c a (next x)) : StaysAside c a (run >>= next) := fun n hn =>
  (h n hn).bind fun x m hm => (hnext x m (hm.followable hn)).weaken fun _ _ => hm.trans

theorem get_bind {next : Network N A σ → Run N A σ β} (h : ∀ n, StaysAside c a (next n)) :
    StaysAside c a (MonadState.get >>= next) := fun n hn => .get_bind (h n n hn)

theorem forM {step : α → Run N A σ PUnit} {l : List α} (h : ∀ x ∈ l, StaysAside c a (step x)) :
    StaysAside c a (l.forM step) := fun n hn => by
  refine .forM (I := fun m => n.Aside c a m) (fun x hx m hm => ?_) (.refl n c a)
  exact (h x hx m (hm.followable hn)).weaken fun _ _ => hm.trans

end StaysAside

/-! ## Cascades -/

section Cascade

variable {raise : Topic → Signal N → Run N A σ Unit}

section

/-- To hold an announcement back changes nothing but what is held back. -/
theorem hold_eq_dim (n : Network N A σ) (t : Topic) : { n with buffer := n.buffer.hold t }
    = n.dim [] ⟨(n.buffer.hold t).pending, n.host⟩ := by
  rw [dim_nil, Buffer.hold]
  split <;> rfl

variable (hraise : ∀ t, StaysAside c a (raise t .changed))
include hraise

theorem staysAside_announce (t : Topic) : StaysAside c a (announce raise t) := by
  refine .get_bind fun n => ?_
  split
  · refine fun n _ => .of_modify ?_
    rw [hold_eq_dim]
    exact .of_dim n [] _
  · exact hraise t

theorem staysAside_invalidate (id : Nat) : StaysAside c a (invalidate raise id) := by
  intro n hn
  refine .get_bind ?_
  cases n.cached? id with
  | none => exact .of_pure (.refl n c a)
  | some x =>
    refine .modify_bind ?_
    rw [modifyCached_dropped]
    have hdim := Aside.of_dim (c := c) (a := a) n [id] n.notices
    have hrest : StaysAside c a (if x.observed then do
        raise (.received id) .changed
        announce raise (.changed id) else pure ⟨⟩) := by
      split
      · exact (hraise _).bind fun _ => staysAside_announce hraise _
      · exact .of_pure _
    exact (hrest _ (hdim.followable hn)).weaken fun _ _ => hdim.trans

/-- To call a listener of an announcement of a change leaves a collection alone, and every node that
attends it. -/
theorem staysAside_deliver (hhost : host.StandsAside c a) (listener : Listener A) :
    StaysAside c a (deliver host raise listener .changed) := by
  have present {run : Run N A σ Unit} (h : StaysAside c a run) (id : Nat) :
      StaysAside c a (do if (← get).isPresent (.changed id) then run) := by
    refine .get_bind fun n => ?_
    split
    · exact h
    · exact .of_pure _
  cases listener with
  | invalidate id => exact present (staysAside_invalidate hraise id) id
  | relay id => exact present (hraise _) id
  | follow id => exact present (hraise _) id
  | host action => exact hhost.notified action .changed

end

/-- An announcement of a change leaves a collection alone, and every node that attends it. -/
theorem staysAside_raise (hhost : host.StandsAside c a) :
    ∀ (fuel : Nat) (t : Topic), StaysAside c a (Network.raise host fuel t .changed)
  | 0, _ => fun _ _ => ⟨False.elim, nofun⟩
  | fuel + 1, _ => .get_bind fun _ => .forM fun attached _ =>
    staysAside_deliver (staysAside_raise hhost fuel) hhost attached.listener

end Cascade

/-! ## Announcements of a collection -/

section Members

variable {signal : Signal N} (hhost : host.StandsAside c a) (hn : n.Followable c)
  (hadded : ∀ m, signal = .added m → m ∈ n.memberNodes c)
include hhost hn hadded

/-- To call a listener of a collection makes the node adjust whose listener it is, and leaves all other
nodes that attend the collection alone. -/
theorem leads_deliver_members {raise : Topic → Signal N → Run N A σ Unit}
    (hraise : ∀ t, StaysAside c a (raise t .changed)) (hm : n.Upholds c n') {attached : Attached A}
    (hattached : attached ∈ n.listeners (.members c)) :
    Leads False (deliver host raise attached.listener signal) n' fun _ n'' => n'.Upholds c n''
      ∧ (n'.isPresent (.changed a) → n''.isPresent (.changed a))
      ∧ (attached.listener.node? ≠ some a → n'.Aside c a n'') := by
  have hn' := hm.followable hn
  have aside {run : Run N A σ Unit} (h : StaysAside c a run) : Leads False run n' fun _ n'' =>
      n'.Upholds c n'' ∧ (n'.isPresent (.changed a) → n''.isPresent (.changed a))
        ∧ (attached.listener.node? ≠ some a → n'.Aside c a n'') :=
    (h n' hn').weaken fun _ _ haside => ⟨haside.toUpholds, haside.present, fun _ => haside⟩
  obtain ⟨token, listener⟩ := attached
  cases listener with
  | invalidate id => exact aside (staysAside_deliver hraise hhost (.invalidate id))
  | relay id => exact aside (staysAside_deliver hraise hhost (.relay id))
  | host action => exact aside (hhost.notified action signal)
  | follow b =>
    refine .get_bind ?_
    split
    · obtain ⟨form, hb⟩ := hn.followers _ hattached b rfl
      have hb' := hm.kind _ _ hb
      have hadded' (m : Nat) (h : signal = .added m) : m ∈ n'.memberNodes c :=
        hm.memberNodes ▸ hadded m h
      rw [follow_eq]
      refine ((leads_adjust hn' hb' hadded').mono False.elim fun _ _ h => h).bind ?_
      rintro _ n₁ ⟨hrewires, -⟩
      refine (hraise (.changed b) n₁ (hrewires.followable hn')).weaken fun _ n'' haside => ?_
      refine ⟨(Upholds.of_rewires hrewires).trans haside.toUpholds,
        fun ha => haside.present ((hrewires.present _).trans ha), fun hne => ?_⟩
      exact (Aside.of_rewires hrewires fun hab => hne (by rw [hab]; rfl)).trans haside
    · exact .of_pure ⟨.refl n' c, id, fun _ => .refl n' c a⟩

/-- An announcement of a collection leaves the collection as it is. -/
theorem leads_raise_members : ∀ fuel, Leads False (raise host fuel (.members c) signal) n
    fun _ n' => n.Upholds c n'
  | 0 => ⟨False.elim, nofun⟩
  | fuel + 1 => by
    refine .get_bind (.forM (I := fun m => n.Upholds c m) (fun attached hattached m hm => ?_) (.refl n c))
    exact (leads_deliver_members hhost hn hadded (staysAside_raise hhost fuel) hm hattached).weaken
      fun _ _ h => hm.trans h.1

/-- A loop over listeners of a collection leaves a node alone if none of them is its own. -/
theorem aside_deliver_members (fuel : Nat) {all : List (Attached A)}
    (hall : ∀ attached ∈ all, attached ∈ n.listeners (.members c) ∧ attached.listener.node? ≠ some a)
    (hm : n.Upholds c n') :
    Leads False (all.forM fun attached => deliver host (raise host fuel) attached.listener signal) n'
      fun _ n'' => n'.Aside c a n'' := by
  refine .forM (I := fun m => n'.Aside c a m) (fun attached hattached m haside => ?_) (.refl n' c a)
  obtain ⟨hattached, hne⟩ := hall attached hattached
  exact (leads_deliver_members hhost hn hadded (staysAside_raise hhost fuel)
    (hm.trans haside.toUpholds) hattached).weaken fun _ _ h => haside.trans (h.2.2 hne)

/-- An announcement of a collection leaves a node alone that does not listen to it. -/
theorem aside_raise_members (hnone : n.listenersOf a (.members c) = []) :
    ∀ fuel, Leads False (raise host fuel (.members c) signal) n fun _ n' => n.Aside c a n'
  | 0 => ⟨False.elim, nofun⟩
  | fuel + 1 => by
    refine .get_bind (aside_deliver_members hhost hn hadded fuel (fun attached hattached => ?_)
      (.refl n c))
    refine ⟨hattached, fun hnode => ?_⟩
    have := mem_listenersOf.mpr ⟨hattached, hnode⟩
    rw [hnone] at this
    cases this

/-- A node that attends a collection attends it with its members as they are now once they are
announced. Other nodes that listen to the collection may be called before and after it. -/
theorem Attends.leads_raise_members (h : n.Attends c nodes a)
    (hturns : signal.Turns nodes (n.memberNodes c)) :
    ∀ fuel, Leads False (raise host fuel (.members c) signal) n
      fun _ n' => n'.Attends c (n.memberNodes c) a
  | 0 => ⟨False.elim, nofun⟩
  | fuel + 1 => by
    obtain ⟨own, hown, hlistener⟩ := h.exists_listener hn.ledger
    obtain ⟨before, after, hsplit, hbefore, -, hafter⟩ := List.filter_eq_cons_iff.mp hown
    have hbefore (attached : Attached A) (hattached : attached ∈ before) :
        attached ∈ n.listeners (.members c) ∧ attached.listener.node? ≠ some a :=
      ⟨hsplit ▸ List.mem_append_left _ hattached, by simpa using hbefore attached hattached⟩
    have hafter (attached : Attached A) (hattached : attached ∈ after) :
        attached ∈ n.listeners (.members c) ∧ attached.listener.node? ≠ some a :=
      ⟨hsplit ▸ List.mem_append_right _ (List.mem_cons_of_mem _ hattached),
        by simpa using List.filter_eq_nil_iff.mp hafter attached hattached⟩
    refine .get_bind ?_
    rw [hsplit, List.forM_eq_forM, List.forM_append, List.forM_cons, ← List.forM_eq_forM]
    -- others may be called before and after the node, and it is as it was until it is called itself
    refine (aside_deliver_members hhost hn hadded fuel hbefore (.refl n c)).bind fun _ n₁ h₁ => ?_
    have hn₁ := h₁.followable hn
    have hattends := h.aside hn.ledger h₁
    obtain ⟨form, hkind⟩ := hattends.kind
    have hcalled : Leads False (deliver host (raise host fuel) own.listener signal) n₁
        fun _ m => n.Upholds c m ∧ m.Attends c (n.memberNodes c) a := by
      rw [hlistener]
      refine .get_bind ?_
      rw [if_pos hattends.present, follow_eq]
      refine ((leads_adjust hn₁ hkind fun m hm => h₁.memberNodes ▸ hadded m hm).mono False.elim
        fun _ _ h => h).bind ?_
      rintro _ n₂ ⟨hrewires, hadjusted⟩
      rw [h₁.memberNodes] at hadjusted
      have hn₂ := hrewires.followable hn₁
      refine (staysAside_raise hhost fuel _ n₂ hn₂).weaken fun _ n₃ h₃ => ⟨?_, ?_⟩
      · exact h₁.toUpholds.trans ((Upholds.of_rewires hrewires).trans h₃.toUpholds)
      · exact (hadjusted nodes hattends hturns).aside hn₂.ledger h₃
    refine hcalled.bind ?_
    rintro _ n₃ ⟨hupholds, hattends⟩
    refine (aside_deliver_members hhost hn hadded fuel hafter hupholds).weaken fun _ n₄ h₄ => ?_
    exact hattends.aside (hupholds.followable hn).ledger h₄

end Members

/-! ## Calls of a node -/

/-- An announcement that is made to the listeners of a topic one after another. To a listener of a node it
is made by having the node adjust, and having it announce, once, that it changed. -/
def heeded (host : Host N A σ) (a : Nat) (t : Topic) (signal : Signal N) : Run N A σ Unit := do
  let n ← get
  (n.listeners t).forM fun attached =>
    if attached.listener.node? = some a then do
      adjust a signal
      raise host (n.cascadeBound - 1) (.changed a) .changed
    else
      deliver host (raise host (n.cascadeBound - 1)) attached.listener signal

theorem cascadeBound_eq (n : Network N A σ) : n.cascadeBound = n.cascadeBound - 1 + 1 := by
  unfold cascadeBound
  omega

theorem exists_cascadeBound (n : Network N A σ) : ∃ fuel, n.cascadeBound - 1 = fuel + 1 :=
  ⟨n.cascadeBound - 2, by unfold cascadeBound; omega⟩

namespace Attends

variable (h : n.Attends c nodes a) (hhost : host.StandsAside c a) (hn : n.Followable c)
include h hhost hn

/-- When a collection is announced, the node that attends it adjusts, and announces once that it changed. -/
theorem emit_members {signal : Signal N} (hadded : ∀ m, signal = .added m → m ∈ n.memberNodes c) :
    emit host (.members c) signal n = heeded host a (.members c) signal n := by
  rw [emit, get_bind_apply, n.cascadeBound_eq, raise, get_bind_apply, heeded, get_bind_apply]
  -- a follower that is gone is skipped, so the node being there is part of the invariant
  refine Leads.forM_congr (I := fun m => n.Upholds c m ∧ m.isPresent (.changed a))
    (fun attached hattached m hm => ?_) (fun attached hattached m hm => ?_) ⟨.refl n c, h.present⟩
  · split
    · next hnode =>
      have hlistener := h.listens _ attached (mem_listenersOf.mpr ⟨hattached, hnode⟩)
      rw [if_pos rfl] at hlistener
      rw [hlistener, deliver, get_bind_apply, if_pos hm.2, follow_eq]
    · rfl
  · exact (leads_deliver_members hhost hn hadded (staysAside_raise hhost _) hm.1 hattached).weaken
      fun _ _ h' => ⟨hm.1.trans h'.1, h'.2.1 hm.2⟩

/-- When a change is announced, a node that attends a collection announces that it changed for each of its
listeners that are called. -/
theorem emit_changed (t : Topic) : emit host t .changed n = heeded host a t .changed n := by
  rw [emit, get_bind_apply, n.cascadeBound_eq, raise, get_bind_apply, heeded, get_bind_apply]
  refine Leads.forM_congr (I := fun m => n.Aside c a m)
    (fun attached hattached m hm => ?_) (fun attached hattached m hm => ?_) (.refl n c a)
  · split
    · next hnode =>
      have hlistener := h.listens _ attached (mem_listenersOf.mpr ⟨hattached, hnode⟩)
      have hpresent := hm.present h.present
      rw [hlistener]
      -- its listener is that of a follower at the collection, and a relay everywhere else
      split
      · rw [deliver, get_bind_apply, if_pos hpresent, follow_eq]
      · rw [deliver, get_bind_apply, if_pos hpresent]
        rfl
    · rfl
  · exact (staysAside_deliver (staysAside_raise hhost _) hhost _ m (hm.followable hn)).weaken
      fun _ _ => hm.trans

end Attends

end StatEngine.Network
