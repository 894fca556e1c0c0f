import StatEngine.Proofs.Runs
import StatEngine.Proofs.Sweeping
import StatEngine.Proofs.Updates

/-!
# What hosts do

A host of a calculator changes modifiers, reads totals, listens to cached nodes, and lets go of what it
does not use. If its listeners do nothing but take note, and the stats it uses are those of a scope, every
such step keeps the invariant.

## Main definitions

* `Calculator.Step`: what a host does;
* `Network.Settled`: what holds of a network between two steps.

## Main statements

* `Network.Settled.leads_total`: what comes of reading a total, and what it leaves behind;
* `Calculator.Step.settled`: every step keeps what holds between steps.
-/

namespace StatEngine

open Network

variable {N A σ : Type} {sc : Scope N}

namespace Network

variable {n m : Network N A σ}

/-! ## Listeners of hosts -/

theorem Listener.action?_eq_some {listener : Listener A} {action : A} :
    listener.action? = some action ↔ listener = .host action := by
  cases listener <;> simp [Listener.action?]

theorem mem_callbacks {t : Topic} {token : Nat} {action : A} :
    (token, action) ∈ n.callbacks t ↔ ⟨token, .host action⟩ ∈ n.listeners t := by
  rw [callbacks, List.mem_filterMap]
  constructor
  · rintro ⟨⟨token', listener⟩, ha, hcall⟩
    obtain ⟨_, haction, heq⟩ := Option.map_eq_some_iff.mp hcall
    cases heq
    exact Listener.action?_eq_some.mp haction ▸ ha
  · exact fun h => ⟨_, h, rfl⟩

/-- Two networks differ in the listeners of hosts on one topic alone. -/
structure HostsDiffer (n m : Network N A σ) (topic : Topic) : Prop where
  view : ∀ i, m.view? i = n.view? i
  registry : m.registry = n.registry
  there : ∀ t, n.hasTopic t → m.hasTopic t
  present : ∀ t, m.isPresent t = n.isPresent t
  released : m.released = n.released
  buffer : m.buffer = n.buffer
  other : ∀ t, t ≠ topic → m.listeners t = n.listeners t
  members : ∀ c, topic ≠ .members c
  nodes : ∀ attached, attached.listener.node? ≠ none →
    (attached ∈ m.listeners topic ↔ attached ∈ n.listeners topic)
  hosts : ∀ attached ∈ m.listeners topic, attached ∈ n.listeners topic
    ∨ (∃ action, attached.listener = .host action) ∧ n.Fits topic attached.listener
  nodup : ((m.listeners topic).map (·.token)).Nodup
  tokens : ∀ attached ∈ m.listeners topic, attached.token < m.nextToken
  token : n.nextToken ≤ m.nextToken

namespace HostsDiffer

variable {topic : Topic} (h : n.HostsDiffer m topic)

include h

theorem kind (i : Nat) : m.kind? i = n.kind? i := kind?_of_view (h.view i)

theorem mem_iff {t : Topic} {attached : Attached A} (hnode : attached.listener.node? ≠ none) :
    attached ∈ m.listeners t ↔ attached ∈ n.listeners t := by
  by_cases ht : t = topic
  · subst ht
    exact h.nodes attached hnode
  · rw [h.other t ht]

theorem typed (hn : n.Typed) : m.Typed where
  fits {t attached} ha := by
    by_cases ht : t = topic
    · subst ht
      obtain ha | ⟨-, hfits⟩ := h.hosts attached ha
      · exact (hn.fits ha).of_kind h.kind
      · exact hfits.of_kind h.kind
    · exact (hn.fits (h.other t ht ▸ ha)).of_kind h.kind
  present {t attached} ha i hi := by
    rw [h.present]
    exact hn.present ((h.mem_iff (by simp [hi])).mp ha) i hi

theorem ledger (hn : n.Ledger) : m.Ledger where
  tokens_nodup t := by
    by_cases ht : t = topic
    · subst ht
      exact h.nodup
    · rw [h.other t ht]
      exact hn.tokens_nodup t
  tokens_lt t attached ha := by
    by_cases ht : t = topic
    · subst ht
      exact h.tokens attached ha
    · rw [h.other t ht] at ha
      exact (hn.tokens_lt t attached ha).trans_le h.token
  balance i s := by
    rw [held_of_view (h.view i), hn.balance]
    constructor <;> rintro ⟨listener, hlistener, hnode⟩
    · exact ⟨listener, (h.mem_iff (by simp [hnode])).mpr hlistener, hnode⟩
    · exact ⟨listener, (h.mem_iff (by simp [hnode])).mp hlistener, hnode⟩
  held_nodup i := by
    rw [held_of_view (h.view i)]
    exact hn.held_nodup i

theorem hasCell {id : Nat} {source : FormulaSource N} {p : Path (Stat N)}
    (hcell : n.HasCell id source p) : m.HasCell id source p := by
  refine hcell.of_view (fun i _ => h.view _) fun hthere => ?_
  rwa [h.present]

theorem wired {sc : Regime N} (hn : n.Wired sc) : m.Wired sc where
  typed := h.typed hn.typed
  ledger := h.ledger hn.ledger
  stages k e he := by
    rw [h.registry] at he
    exact (hn.stages k e he).mono (fun _ _ => h.hasCell) (fun g hg => ⟨g, by rwa [h.registry], rfl⟩)
      fun l s stage layers hl => ⟨layers, by rwa [h.registry], fun _ => rfl⟩
  forms k f p e he := by
    rw [h.registry] at he
    exact (hn.forms k f p e he).mono (h.kind _) (h.there _) (h.other _ (h.members _).symm)
      (followed_of_view (h.view _)) (by rw [h.registry]) fun _ _ _ _ _ _ => h.hasCell
  sets k g hg := by
    rw [h.registry] at hg
    obtain ⟨htopic, hpresent⟩ := hn.sets k g hg
    exact ⟨h.there _ htopic, (h.present _).trans hpresent⟩
  next c i hc := hn.next c i ((h.kind c).symm.trans hc)
  made id kind hk := (hn.made id kind ((h.kind id).symm.trans hk)).mono
    (fun id kind hkind => (h.kind id).trans hkind)
    fun l s stage layers hl => ⟨layers, by rwa [h.registry], fun _ => rfl⟩
  traced i := (hn.traced i).of_view (h.view i) fun _ _ => .of_registry h.registry
  path_held hsc k g hg i s hs htopic := by
    rw [h.registry] at hg ⊢
    rw [held_of_view (h.view i)] at hs
    exact hn.path_held hsc k g hg i s hs htopic

/-- What is computed has nothing to do with who listens to it. -/
theorem inv [Number N] {sc : Regime N} (hn : n.Inv sc) : m.Inv sc := by
  have hm := h.wired hn.wired
  have hreg := h.registry
  have hflags (i : Nat) : m.flags? i = n.flags? i := flags?_of_view (h.view i)
  have hrecorded (i : Nat) : m.recorded i = n.recorded i := recorded_of_view (h.view i)
  have hsilent (d : Nat) : d ∈ ([] : List Nat) ↔ m.Hears .listing d := by
    simp [hm.typed.not_hears_listing]
  have hlisted : m.Lists := hn.listed.mono (hreg ▸ .refl _) (fun _ _ _ he => hreg ▸ he)
    fun _ _ _ _ => ⟨h.kind _, held_of_view (h.view _)⟩
  have hcore := hn.toCore.announce hm (hreg ▸ hn.orderly) hlisted
    (h.released.trans hn.unreleased) (.of_eq hflags) (fun id _ _ _ => ?_)
    (fun id φ p hd _ _ => hd.of_registry hreg.symm) (fun id φ p _ hd => hd.of_registry hreg)
    (fun hsc key e he hflagged _ => ?_) (fun hsc key e he hvalued hentered _ => ?_) hsilent (by simp)
    m.notices
  · rw [dim_nil_notices] at hcore
    exact ⟨hcore, hreg ▸ hn.counted⟩
  · refine ⟨fun φ p hd => hd.of_registry hreg, by rw [value?, hflags, value?], hrecorded id,
      fun key _ => hreg ▸ .refl _ key⟩
  · rw [hreg] at he ⊢
    exact hn.lit.main hsc key e he hflagged
  · rw [hreg] at he ⊢
    rw [hrecorded]
    exact hn.lit.tells hsc key e he hvalued hentered

end HostsDiffer

/-- Hosts may listen to anything but the members of a collection. -/
theorem fits_host {topic : Topic} {action : A} :
    n.Fits topic (.host action) ↔ ∀ c, topic ≠ .members c := by
  cases topic <;> simp [Fits]

/-- A host listens to what it may listen to. -/
theorem Ledger.hostsDiffer_listen (hn : n.Ledger) {topic : Topic} (htopic : n.hasTopic topic)
    (hmembers : ∀ c, topic ≠ .members c) (action : A) :
    n.HostsDiffer (n.subscribed topic (.host action)) topic := by
  have hlisteners := n.listeners_subscribed_self (.host action) htopic
  refine ⟨fun i => n.view?_subscribed i _ _, n.registry_subscribed _ _,
    fun t => (n.hasTopic_subscribed _ _ t).mpr, n.isPresent_subscribed _ _,
    by cases topic <;> rfl, by cases topic <;> rfl,
    fun t ht => n.listeners_subscribed_of_ne _ ht, hmembers, fun attached hnode => ?_,
    fun attached ha => ?_, ?_, fun attached ha => ?_, Nat.le_succ _⟩
  · rw [hlisteners, List.mem_append, or_iff_left]
    intro hlast
    rw [List.mem_singleton.mp hlast] at hnode
    exact hnode rfl
  · rw [hlisteners, List.mem_append, List.mem_singleton] at ha
    refine ha.imp_right fun ha => ?_
    rw [ha]
    exact ⟨⟨action, rfl⟩, fits_host.mpr hmembers⟩
  · rw [hlisteners, List.map_append, List.nodup_append]
    refine ⟨hn.tokens_nodup _, by simp, fun token htoken last hlast => ?_⟩
    obtain ⟨attached, ha, rfl⟩ := List.mem_map.mp htoken
    obtain rfl : last = n.nextToken := by simpa using hlast
    exact (hn.tokens_lt _ attached ha).ne
  · rw [hlisteners, List.mem_append, List.mem_singleton] at ha
    obtain ha | rfl := ha
    · exact Nat.lt_succ_of_lt (hn.tokens_lt _ attached ha)
    · exact Nat.lt_succ_self _

/-- A host listens to a topic no more. -/
theorem Ledger.hostsDiffer_leave (hn : n.Ledger) (htyped : n.Typed) {topic : Topic} {token : Nat}
    {action : A} (hs : ⟨token, .host action⟩ ∈ n.listeners topic) :
    n.HostsDiffer (n.unsubscribe ⟨topic, token⟩) topic := by
  have hlisteners := n.listeners_unsubscribe ⟨topic, token⟩ topic
  let given : List Subscription := [⟨topic, token⟩]
  refine ⟨fun i => n.view?_unsubscribeAll i given, n.registry_unsubscribeAll given,
    fun t => (n.hasTopic_unsubscribeAll given t).mpr, n.isPresent_unsubscribeAll given,
    n.released_unsubscribeAll given, n.buffer_unsubscribeAll given,
    fun t ht => ?_, fits_host.mp (htyped.fits hs), fun attached hnode => ?_, fun attached ha => .inl ?_, ?_,
    fun attached ha => ?_, (n.nextToken_unsubscribeAll given).ge⟩
  · rw [listeners_unsubscribe, List.filter_eq_self]
    intro attached _
    simp [ht]
  · rw [hlisteners, List.mem_filter, and_iff_left_iff_imp]
    intro ha
    refine decide_eq_true fun heq => hnode ?_
    -- a token tells a listener from the others of a topic
    have hsame : attached = ⟨token, .host action⟩ :=
      List.inj_on_of_nodup_map (hn.tokens_nodup _) ha hs (Subscription.mk.inj heq).2
    rw [hsame]
    rfl
  · rw [hlisteners] at ha
    exact List.mem_of_mem_filter ha
  · rw [hlisteners]
    exact (hn.tokens_nodup _).sublist (List.filter_sublist.map _)
  · rw [hlisteners] at ha
    exact (hn.tokens_lt _ attached (List.mem_of_mem_filter ha)).trans_eq
      (n.nextToken_unsubscribeAll given).symm

/-- A listener of a host is attached to a cached node, if hosts listen to nothing else. -/
theorem Unwatched.listens (hn : n.Unwatched) {t : Topic} {token : Nat} {action : A}
    (h : ⟨token, .host action⟩ ∈ n.listeners t) :
    ∃ c inner, t = .changed c ∧ n.kind? c = some (.cached inner) :=
  hn t (List.ne_nil_of_mem (mem_callbacks.mpr h))

/-- Who listens to a cached node, or listens to one no more, does not listen to anything else. -/
theorem HostsDiffer.unwatched {c inner : Nat} (h : n.HostsDiffer m (.changed c)) (hn : n.Unwatched)
    (hc : n.kind? c = some (.cached inner)) : m.Unwatched := by
  intro topic htopic
  by_cases heq : topic = .changed c
  · exact ⟨c, inner, heq, (h.kind c).trans hc⟩
  · rw [callbacks, h.other _ heq] at htopic
    obtain ⟨i, inner, rfl, hi⟩ := hn topic htopic
    exact ⟨i, inner, rfl, (h.kind i).trans hi⟩

/-! ## Between two steps -/

/-- Nodes on file that a host listens to stay on file. -/
def KeepsHeard (n n' : Network N A σ) : Prop :=
  ∀ k e, n.registry.stage? k = some e → n.callbacks (.changed e.cached) ≠ [] →
    n'.registry.stage? k = some e

/-- What holds of a network between two steps of its host: nothing is being computed, and no batch is
running. -/
structure AtRest [Number N] (sc : Regime N) (n : Network N A σ) : Prop where
  inv : n.Inv sc
  idle : n.Idle
  calm : n.Calm

/-- What holds between two steps of a host that listens to cached nodes alone. -/
structure Settled [Number N] (sc : Scope N) (n : Network N A σ) : Prop extends n.AtRest sc.regime where
  unwatched : n.Unwatched

namespace AtRest

variable [Number N] {sc : Regime N}

theorem of_proceeds (hn : n.AtRest sc) (hm : m.Inv sc) (h : n.Proceeds m) : m.AtRest sc :=
  ⟨hm, h.idle hn.idle, h.calm hn.calm⟩

theorem of_hostsDiffer (hn : n.AtRest sc) {topic : Topic} (h : n.HostsDiffer m topic) : m.AtRest sc where
  inv := h.inv hn.inv
  idle i := by
    rw [isEntered, flags?_of_view (h.view i)]
    exact hn.idle i
  calm := ⟨h.buffer ▸ hn.calm.depth, h.buffer ▸ hn.calm.pending⟩

end AtRest

namespace Settled

variable [Number N]

theorem of_proceeds (hn : n.Settled sc) (hm : m.Inv sc.regime) (h : n.Proceeds m) : m.Settled sc :=
  ⟨hn.toAtRest.of_proceeds hm h, h.unwatched hn.unwatched⟩

theorem of_hostsDiffer (hn : n.Settled sc) {c inner : Nat} (h : n.HostsDiffer m (.changed c))
    (hc : n.kind? c = some (.cached inner)) : m.Settled sc :=
  ⟨hn.toAtRest.of_hostsDiffer h, h.unwatched hn.unwatched hc⟩

/-- Cells that failed are stuck between steps, so they do not come to a value. -/
theorem hopeless (hn : n.Settled sc) : n.Hopeless sc.regime := fun _ _ _ hd hfailed depth v =>
  reference_ne_of_stuck hn.inv.wired hn.inv.orderly hn.inv.sound
    (fun id φ p hd hfailed => hn.inv.blocked id φ p hd hfailed (hn.idle _)) depth hd hfailed v

section Reading

variable {host : Host N A σ} {tell : A → σ → σ} (hhost : host.Quiet tell) (hn : n.Settled sc)
  {stat : Stat N} (hs : stat ∈ sc.stats) {stage : Stage} {path : Path (Stat N)} (hvia : path.via = [])
include hhost hn hs

include hvia in
/-- The node of a stage of a stat. Looking it up may give the stat a path that it did not have. -/
theorem leads_nodeAt : Leads True (Calculator.node host stat stage path) n fun c n' => n'.Settled sc
    ∧ n'.registry.inputs.modifiers = n.registry.inputs.modifiers
    ∧ (n.KnowsPath stat.key stage path → n.Extends n')
    ∧ ∃ e, n'.registry.stage? ⟨stat.key, stage, (stagePath stage path).key⟩ = some e
      ∧ c = e.formula + 1 := by
  have hlookup : Leads True (nodesOf host stat stage path) n _ :=
    leads_nodesOf hhost hn.inv (sc.regime.admits stat hs) ((Regime.follows hs).hasPath_iff.mpr hvia)
      (fun _ => .inr hn.idle) fun _ => .inl hs
  refine hlookup.bind ?_
  rintro e n' ⟨hinv, hchanges, he, hmembers, hextends⟩
  refine .of_pure ⟨hn.of_proceeds hinv hchanges.toProceeds, ?_, hextends hs, e, he,
    (hinv.wired.stages _ e he).cached⟩
  funext key form p
  simp only [Registry.inputs, hmembers]

/-- The node of the total of a stat. -/
theorem leads_node : Leads True (Calculator.node host stat .total Path.main) n fun c n' =>
    n'.Settled sc ∧ n.Extends n'
      ∧ ∃ e, n'.registry.stage? ⟨stat.key, .total, Path.main⟩ = some e ∧ c = e.formula + 1 := by
  refine (hn.leads_nodeAt hhost hs rfl).weaken ?_
  rintro c n' ⟨hn', -, hextends, e, he, hc⟩
  exact ⟨hn', hextends (fun h => by cases h), e, he, hc⟩

include hvia in
/-- What comes of reading a stage of a stat that may be asked for. It is read if the path is one that the
stat has, and the modifiers and paths on file decide what it comes to. -/
theorem leads_comesAt (hprovides : n.Provides (.stage stat stage)) :
    Leads (n.KnowsPath stat.key stage path
        ∧ ∃ depth, n.Decides depth (.stage stat stage) (stagePath stage path))
      (Calculator.value host stat stage path).run n fun r n' => n'.Settled sc
        ∧ n'.registry.inputs.modifiers = n.registry.inputs.modifiers
        ∧ (n.KnowsPath stat.key stage path → n.Extends n') ∧ ∃ (e : NodeEntry N) (n₁ : Network N A σ),
          n'.registry.stage? ⟨stat.key, stage, (stagePath stage path).key⟩ = some e
            ∧ e.path = stagePath stage path
            ∧ n₁.Comes sc.regime e.formula (.stage stat stage) e.path n' r := by
  rw [Calculator.value, ExceptT.run_bind_lift]
  refine ((hn.leads_nodeAt hhost hs hvia).mono (fun _ => trivial) fun _ _ h => h).bind ?_
  rintro c n₁ ⟨hn₁, hmodifiers, hextends, e, he, rfl⟩
  have hpath : e.path = stagePath stage path := by
    refine path_eq_of_key ?_ (Registry.stage?_spec he).2
    rw [stagePath]
    split
    · exact hvia
    · rfl
  have hd : n₁.Denotes sc.regime e.formula (.stage stat stage) e.path := .stage he hs rfl
  -- stages that ask for paths are not on a path of their own
  have hprovides₁ : n₁.Provides (.stage stat stage) := by
    by_cases hper : stage.perPath
    · rintro _ _ ⟨⟩ (rfl | rfl) <;> cases hper
    · exact hprovides.mono (hextends fun h => absurd h hper)
  have hread (fuel depth : Nat) : Leads (3 * depth ≤ fuel + 1 ∧ n₁.Decides depth (.stage stat stage) e.path)
      (read host fuel (e.formula + 1)).run n₁ _ :=
    (reads hhost fuel depth).2.1 n₁ _ _ _ hn₁.inv hn₁.hopeless hd hprovides₁
  refine ⟨?_, fun hrun => ?_⟩
  · rintro ⟨hknows, depth, hdecides⟩
    rw [Decides, ← (hextends hknows).registry.inputs, ← hpath] at hdecides
    exact valueOf_ne_none fun fuel (hfuel : 3 * depth ≤ fuel) =>
      (hread fuel depth).total ⟨by omega, hdecides⟩
  · obtain ⟨hinv, hle, hcomes⟩ :=
      (Leads.valueOf fun fuel => (hread fuel 0).mono False.elim fun _ _ h => h).partly hrun
    have hextends' := hle
    exact ⟨hn₁.of_proceeds hinv hextends'.toProceeds,
      (congrArg Inputs.modifiers hextends'.registry.inputs).trans hmodifiers,
      fun h => (hextends h).trans hextends', e, n₁, hextends'.registry.entry _ e he, hpath, hcomes⟩

/-- What comes of reading a total. It is read if the modifiers and paths on file decide what it comes to. -/
theorem leads_comes : Leads (∃ depth, n.Decides depth (.stage stat .total) Path.main)
    (Calculator.total host stat).run n fun r n' => n'.Settled sc ∧ n.Extends n'
      ∧ ∃ (e : NodeEntry N) (n₁ : Network N A σ),
        n'.registry.stage? ⟨stat.key, .total, Path.main⟩ = some e
          ∧ n₁.Comes sc.regime e.formula (.stage stat .total) e.path n' r := by
  have hknows : n.KnowsPath stat.key .total Path.main := fun h => by cases h
  refine (hn.leads_comesAt hhost hs rfl (n.provides_total stat)).mono (fun h => ⟨hknows, h⟩) ?_
  rintro r n' ⟨hn', -, hextends, e, n₁, he, -, hcomes⟩
  exact ⟨hn', hextends hknows, e, n₁, he, hcomes⟩

/-- Reading a total keeps what is known. A value is kept that was read, and a node that could not be read
has none; either way the node tells of the next change. -/
theorem leads_total : Leads False (Calculator.total host stat).run n fun r n' => n'.Settled sc
    ∧ n.Extends n' ∧ ∃ e, n'.registry.stage? ⟨stat.key, .total, Path.main⟩ = some e
      ∧ n'.isObserved (e.formula + 1) ∧ n'.value? (e.formula + 1) = r.toOption := by
  refine (hn.leads_comes hhost hs).mono False.elim ?_
  rintro r n' ⟨hn', hextends, e, n₁, he, hcomes⟩
  refine ⟨hn', hextends, e, he, ?_⟩
  cases r with
  | ok v => exact ⟨hn'.inv.lit.shown _ (by simp [hcomes.1]), hcomes.1⟩
  | error fault => exact hcomes.1

end Reading

end Settled

end Network

/-! ## Steps -/

namespace Calculator

variable [Number N]

/-- What a host does that uses the stats of a scope, reads totals, and listens to cached nodes. -/
inductive Step (sc : Scope N) (host : Host N A σ) : Network N A σ → Network N A σ → Prop where
  /-- Modifiers are changed. -/
  | update {n n' : Network N A σ} (settings : Settings) (u : Update N)
    (hallows : ∀ modifier ∈ u.added, sc.Allows modifier)
    (h : Calculator.update host settings u n = some (⟨⟩, n')) : Step sc host n n'
  /-- A total is read, with whatever result. -/
  | total {n n' : Network N A σ} {stat : Stat N} (hs : stat ∈ sc.stats)
    {r : Except (Fault N) (Option (Amount N))}
    (h : (Calculator.total host stat).run n = some (r, n')) : Step sc host n n'
  /-- The node of a total is looked up. -/
  | node {n n' : Network N A σ} {stat : Stat N} (hs : stat ∈ sc.stats) {c : Nat}
    (h : Calculator.node host stat .total Path.main n = some (c, n')) : Step sc host n n'
  /-- What is unused is removed. -/
  | prune {n n' : Network N A σ} {count : Nat} (h : removeUnused host n = some (count, n')) :
    Step sc host n n'
  /-- A listener is attached to a cached node. -/
  | listen {n n' : Network N A σ} {c inner : Nat} (hc : n.kind? c = some (.cached inner)) {action : A}
    {s : Subscription} (h : attach (.changed c) (.host action) n = some (s, n')) : Step sc host n n'
  /-- A listener is detached. -/
  | leave {n n' : Network N A σ} {s : Subscription} {action : A}
    (hs : ⟨s.token, .host action⟩ ∈ n.listeners s.topic) (h : detach s n = some (⟨⟩, n')) :
    Step sc host n n'
  /-- Nodes are let go of. The host holds the given ones. -/
  | sweep {n n' : Network N A σ} (held : List Nat) (h : Network.sweep held n = some (⟨⟩, n')) :
    Step sc host n n'

/-- The networks that a host can get to. -/
def Reached (sc : Scope N) (host : Host N A σ) (n : Network N A σ) : Prop :=
  ∃ settings catalog state, Relation.ReflTransGen (Step sc host) (start settings catalog state) n

section Steps

variable {host : Host N A σ} {tell : A → σ → σ} {n n' : Network N A σ}

theorem settled_start (settings : Settings) (catalog : Option (Catalog N)) (state : σ) :
    (start settings catalog state : Network N A σ).Settled sc :=
  ⟨⟨inv_empty sc.regime _ _ _, idle_empty _ _ _, calm_empty _ _ _⟩, unwatched_empty _ _ _⟩

/-- A step either extends the network, or makes announcements, or is about the listeners of hosts. -/
theorem Step.does (hhost : host.Quiet tell) (h : Step sc host n n') (hn : n.Settled sc) :
    n'.Settled sc ∧ n.KeepsHeard n'
      ∧ (n.Extends n' ∨ n.Changes tell n' ∨ ∃ topic, n.HostsDiffer n' topic) := by
  have hlisten {c inner : Nat} (hc : n.kind? c = some (.cached inner)) (h : n.HostsDiffer n' (.changed c)) :
      n'.Settled sc ∧ n.KeepsHeard n'
        ∧ (n.Extends n' ∨ n.Changes tell n' ∨ ∃ topic, n.HostsDiffer n' topic) :=
    ⟨hn.of_hostsDiffer h hc, fun _ _ he _ => h.registry ▸ he, .inr (.inr ⟨_, h⟩)⟩
  have hchange (hinv : n'.Inv sc.regime) (hkeeps : n.KeepsHeard n') (h : n.Changes tell n') :
      n'.Settled sc ∧ n.KeepsHeard n'
        ∧ (n.Extends n' ∨ n.Changes tell n' ∨ ∃ topic, n.HostsDiffer n' topic) :=
    ⟨hn.of_proceeds hinv h.toProceeds, hkeeps, .inr (.inl h)⟩
  cases h with
  | update settings u hallows h =>
    obtain ⟨hinv, hupdates⟩ := (leads_update hhost hn.inv hn.idle hn.calm settings fun m hm =>
      (hallows m hm).regime).partly h
    exact hchange hinv hupdates.stages hupdates.changes
  | total hs h =>
    obtain ⟨hsettled, hextends, -⟩ := (hn.leads_total hhost hs).partly h
    exact ⟨hsettled, fun k e he _ => hextends.registry.entry k e he, .inl hextends⟩
  | node hs h =>
    obtain ⟨hsettled, hextends, -⟩ := (hn.leads_node hhost hs).partly h
    exact ⟨hsettled, fun k e he _ => hextends.registry.entry k e he, .inl hextends⟩
  | prune h =>
    obtain ⟨hinv, htrims, -⟩ := (leads_removeUnused hhost hn.inv hn.idle).partly h
    exact hchange hinv htrims.stages htrims.changes
  | @listen c inner hc action s h =>
    cases h
    have htopic : n.hasTopic (.changed c) := lt_size_of_kind? hc
    exact hlisten hc (hn.inv.wired.ledger.hostsDiffer_listen htopic (by simp) action)
  | @leave s action hs h =>
    cases h
    obtain ⟨topic, token⟩ := s
    obtain ⟨c, inner, rfl, hc⟩ := hn.unwatched.listens hs
    exact hlisten hc (hn.inv.wired.ledger.hostsDiffer_leave hn.inv.wired.typed hs)
  | sweep held h =>
    obtain ⟨hinv, hchanges, hreg⟩ := (leads_sweep (b := True) hn.inv hn.idle held).partly h
    exact hchange hinv (fun _ _ he _ => hreg ▸ he) (hchanges tell)

/-- Every step keeps what holds between steps. -/
theorem Step.settled (hhost : host.Quiet tell) (h : Step sc host n n') (hn : n.Settled sc) :
    n'.Settled sc := (h.does hhost hn).1

theorem Reached.settled (hhost : host.Quiet tell) (h : Reached sc host n) : n.Settled sc := by
  obtain ⟨settings, catalog, state, h⟩ := h
  induction h with
  | refl => exact settled_start settings catalog state
  | tail _ hstep ih => exact hstep.settled hhost ih

end Steps

end Calculator

end StatEngine
