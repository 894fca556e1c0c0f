import StatEngine.Proofs.Attesting
import StatEngine.Number.Exact
import StatEngine.Proofs.Collecting

/-!
# Who is subscribed to what

Hosts that leave a network alone find all subscriptions as the log of evaluations has them. After a sweep a
node or a collection on file has one subscriber for each formula on file that read it in its latest
evaluation, and no other but hosts, and nothing is subscribed that is not on file. A read leaves no node
entered, whether it comes to a value or to a fault; a cached node whose computation failed keeps no value,
and each formula that was evaluated is subscribed to just what it read, also if it read no further because
of a fault.

## Main definitions

* `subscribers`: the nodes that are attached to a topic;
* `SubscribesTo`: a node is subscribed to what keys stand for, once each, and to nothing else;
* `Calculator.Logged`: the networks that a host can get to, with the log of all evaluations.

## Main statements

* `Rests.attests_call` and `Calculator.Logged.attests`: calls keep what the log attests;
* `Calculator.subscribed_as_read`: the subscribers after a sweep;
* `Calculator.reads_leave_no_residue`: what a read leaves.
-/

namespace StatEngine

open Network

variable {N A σ : Type} [Number N]

namespace Calculator

/-- A call that is about what is there, and reads only what is on file. -/
def Call.Orderly (n : Network N A σ) (call : Call N A) : Prop :=
  call.Sound n ∧ ∀ id, call = .read id → n.OnFile id

/-- The networks that a host can get to by calls, with the log of all evaluations. -/
inductive Logged (host : Host N A σ) : List Evaluation → Network N A σ → Prop where
  /-- There is nothing yet. -/
  | start (settings : Settings) (catalog : Option (Catalog N)) (state : σ) :
    Logged host [] (Calculator.start settings catalog state)
  /-- One more call was carried out. -/
  | call {l new : List Evaluation} {n n' : Network N A σ} (before : Logged host l n) {call : Call N A}
    (hcall : call.Orderly n) (hrun : (call.logged host).run [] n = some ((⟨⟩, new), n')) :
    Logged host (new ++ l) n'

/-- Carry out calls one after another while the log is kept. -/
def loggedRuns (host : Host N A σ) :
    List (Call N A) → List Evaluation → Network N A σ → Option (List Evaluation × Network N A σ)
  | [], l, n => some (l, n)
  | call :: calls, l, n => do
    let ((_, new), n') ← (call.logged host).run [] n
    loggedRuns host calls (new ++ l) n'

/-- A host can get to wherever calls that are always sound lead, and read nothing by its node. -/
theorem Logged.runs {host : Host N A σ} : ∀ {calls : List (Call N A)} {l l' : List Evaluation}
    {n n' : Network N A σ}, Logged host l n → (∀ call ∈ calls, ∀ n : Network N A σ, call.Orderly n) →
    loggedRuns host calls l n = some (l', n') → Logged host l' n'
  | [], _, _, _, _, h, _, hrun => by
    cases hrun
    exact h
  | first :: rest, _, _, n, _, h, horderly, hrun => by
    obtain ⟨⟨⟨_, new⟩, n₁⟩, hcall, hrun⟩ := Option.bind_eq_some_iff.mp hrun
    obtain ⟨hfirst, hrest⟩ := List.forall_mem_cons.mp horderly
    exact (h.call (hfirst n) hcall).runs hrest hrun

/-- A call comes to what it comes to if the log is kept. -/
theorem Call.run_of_logged {host : Host N A σ} {call : Call N A} {l : List Evaluation}
    {r : Unit × List Evaluation} {n n' : Network N A σ} (h : (call.logged host).run l n = some (r, n')) :
    call.run host n = some (⟨⟩, n') := by
  rw [← call.logs host l n, h]
  rfl

/-- Whoever keeps a log gets to no other networks. -/
theorem Logged.visited {host : Host N A σ} {l : List Evaluation} {n : Network N A σ}
    (h : Logged host l n) : Visited host n := by
  induction h with
  | start settings catalog state => exact .start settings catalog state
  | call _ hcall hrun ih => exact ih.call hcall.1 (Call.run_of_logged hrun)

end Calculator

namespace Network

variable {n n' m : Network N A σ} {l new : List Evaluation}

omit [Number N] in
theorem leads_lift_bind {α β : Type} {b : Prop} {run : Run N A σ α} {f : α → Reading N (Logging N A σ) β}
    {P : α → Network N A σ → Prop} {Q : Except (Fault N) β × List Evaluation → Network N A σ → Prop}
    (h : Leads b run n P) (hf : ∀ a n', P a n' → Leads b ((f a).run.run l) n' Q) :
    Leads b ((ExceptT.lift (StateT.lift run) >>= f).run.run l) n Q := by
  rw [ExceptT.run_bind_lift]
  refine leads_logging_bind (leads_lift h) ?_
  rintro a _ n' ⟨ha, rfl⟩
  exact hf a n' ha

/-! ## Subscribers -/

omit [Number N] in
/-- Layers stand for no dependency. -/
theorem not_layers_of_topic? {key : DependencyKey} {topic : Topic}
    (h : n.registry.topic? key = some topic) (layered : Nat) : topic ≠ .layers layered := by
  rintro rfl
  cases key <;> simp [Registry.topic?] at h

section Counts

omit [Number N]

/-- The nodes that are attached to a topic. -/
def subscribers (n : Network N A σ) (topic : Topic) : List Nat :=
  (n.listeners topic).filterMap (·.listener.node?)

theorem mem_subscribers {topic : Topic} {id : Nat} :
    id ∈ n.subscribers topic ↔ ∃ attached ∈ n.listeners topic, attached.listener.node? = some id :=
  List.mem_filterMap

/-- A node is attached to what it holds a subscription to. -/
theorem Ledger.mem_subscribers_iff (h : n.Ledger) {topic : Topic} {id : Nat} :
    id ∈ n.subscribers topic ↔ ∃ s ∈ n.held id, s.topic = topic := by
  rw [mem_subscribers]
  constructor
  · rintro ⟨⟨token, listener⟩, hattached, hnode⟩
    exact ⟨⟨topic, token⟩, (h.balance id ⟨topic, token⟩).mpr ⟨listener, hattached, hnode⟩, rfl⟩
  · rintro ⟨s, hs, rfl⟩
    obtain ⟨listener, hattached, hnode⟩ := (h.balance id s).mp hs
    exact ⟨_, hattached, hnode⟩

/-- A node is attached as often as it holds a subscription. -/
theorem Ledger.count_subscribers (h : n.Ledger) (topic : Topic) (id : Nat) :
    (n.subscribers topic).count id = ((n.held id).filter (·.topic = topic)).length := by
  let own := (n.listeners topic).filter fun a => a.listener.node? == some id
  have htokens : (own.map (·.token)).Nodup := (h.tokens_nodup topic).sublist (List.filter_sublist.map _)
  have hperm : (own.map fun a => (⟨topic, a.token⟩ : Subscription)).Perm
      ((n.held id).filter (·.topic = topic)) := by
    refine (List.perm_ext_iff_of_nodup ?_ ((h.held_nodup id).filter _)).mpr fun s => ?_
    · refine List.Nodup.of_map (·.token) ?_
      rwa [List.map_map]
    · rw [List.mem_map, List.mem_filter, decide_eq_true_eq]
      constructor
      · rintro ⟨a, ha, rfl⟩
        obtain ⟨hattached, hnode⟩ := List.mem_filter.mp ha
        exact ⟨(h.balance id ⟨topic, a.token⟩).mpr ⟨a.listener, hattached, beq_iff_eq.mp hnode⟩, rfl⟩
      · rintro ⟨hs, rfl⟩
        obtain ⟨listener, hattached, hnode⟩ := (h.balance id s).mp hs
        exact ⟨⟨s.token, listener⟩, List.mem_filter.mpr ⟨hattached, beq_iff_eq.mpr hnode⟩, rfl⟩
  rw [← hperm.length_eq, List.length_map, subscribers, List.count, List.countP_filterMap,
    List.countP_eq_length_filter]
  refine congrArg List.length (List.filter_congr fun a _ => ?_)
  cases a.listener.node? <;> rfl

/-- A formula is attached once to what it recorded, and not to what it did not record. -/
theorem Wired.count_subscribers {sc : Regime N} (hn : n.Wired sc) {id : Nat} (hformula : n.IsFormula id)
    {keys : List DependencyKey} (hjust : n.RecordsJust id keys) {key : DependencyKey} {topic : Topic}
    (hlayers : ∀ l, topic ≠ .layers l)
    (hfiled : ∀ d ∈ n.recorded id, d.1 = key ↔ d.2.topic = topic) :
    (n.subscribers topic).count id = if key ∈ keys then 1 else 0 := by
  have hnoted {s : Subscription} (hs : s ∈ n.held id) (htopic : s.topic = topic) :
      (key, s) ∈ n.recorded id := by
    obtain ⟨k, hk⟩ := ((hn.traced id).noted hformula s hs).resolve_left fun ⟨l, hl⟩ =>
      hlayers l (htopic.symm.trans hl)
    have hkey : k = key := (hfiled _ hk).mpr htopic
    exact hkey ▸ hk
  rw [hn.ledger.count_subscribers]
  split
  next hkey =>
    obtain ⟨⟨k, s⟩, hs, rfl⟩ := List.mem_map.mp ((hjust.2 key).mpr hkey)
    have hheld : s ∈ n.held id := mem_held_of_recorded hs
    have hperm : ((n.held id).filter (·.topic = topic)).Perm [s] := by
      refine (List.perm_ext_iff_of_nodup ((hn.ledger.held_nodup id).filter _)
        (List.nodup_singleton s)).mpr fun s' => ?_
      rw [List.mem_filter, decide_eq_true_eq, List.mem_singleton]
      constructor
      · rintro ⟨hs', htopic⟩
        -- each key was recorded once
        exact congrArg Prod.snd (List.inj_on_of_nodup_map hjust.1 (hnoted hs' htopic) hs rfl)
      · rintro rfl
        exact ⟨hheld, (hfiled _ hs).mp rfl⟩
    rw [hperm.length_eq, List.length_singleton]
  next hkey =>
    rw [List.length_eq_zero_iff, List.filter_eq_nil_iff]
    intro s hs htopic
    exact hkey ((hjust.2 key).mp (List.mem_map_of_mem (f := (·.1)) (hnoted hs (of_decide_eq_true htopic))))

end Counts

/-- A node is subscribed to what keys stand for, to each of it once, and to nothing else but its layers. The
node that keeps its value hears of changes of that. -/
structure SubscribesTo (n : Network N A σ) (id : Nat) (keys : List DependencyKey) : Prop where
  once : ∀ key ∈ keys, ∃ topic, n.registry.topic? key = some topic
    ∧ (n.subscribers topic).count id = 1 ∧ n.Hears topic (id + 1)
  only : ∀ topic, id ∈ n.subscribers topic →
    (∃ layered, topic = .layers layered) ∨ ∃ key ∈ keys, n.registry.topic? key = some topic

section InOrder

variable {sc : Regime N} {key : DependencyKey} {topic : Topic}

/-- A formula on file is subscribed to what the log has it read, if that is on file. -/
theorem Attests.subscribesTo (hl : n.Attests l) (hn : n.Inv sc) {id : Nat}
    (hid : ∃ used, n.Under used id)
    (hcurrent : ∀ d ∈ n.recorded id, n.registry.topic? d.1 = some d.2.topic) :
    n.SubscribesTo id (latestReads l id) := by
  obtain ⟨used, hused⟩ := hid
  obtain ⟨source, path, hcell⟩ := hn.wired.hasCell_of_under hused
  obtain ⟨s, hs, -⟩ := hcell.told
  have hformula : n.IsFormula id := ⟨_, _, hcell.formula⟩
  have hjust := hl.recorded id _ hcell.cached (List.ne_nil_of_mem hs)
  refine ⟨fun key hkey => ?_, fun topic hsubscribed => ?_⟩
  · obtain ⟨d, hd, rfl⟩ := List.mem_map.mp ((hjust.2 key).mpr hkey)
    have htopic := hcurrent d hd
    refine ⟨d.2.topic, htopic, ?_, hcell.hears hn.wired (mem_held_of_recorded hd)⟩
    refine (hn.wired.count_subscribers hformula hjust (not_layers_of_topic? htopic)
      fun d' hd' => ⟨fun heq => ?_, fun heq => ?_⟩).trans (if_pos hkey)
    · exact Option.some.inj ((hcurrent d' hd').symm.trans (heq ▸ htopic))
    · exact hn.wired.topic?_injective hn.orderly (heq ▸ hcurrent d' hd') htopic
  · obtain ⟨s, hs, rfl⟩ := hn.wired.ledger.mem_subscribers_iff.mp hsubscribed
    refine ((hn.wired.traced id).noted hformula s hs).imp_right ?_
    rintro ⟨key, hkey⟩
    exact ⟨key, (hjust.2 key).mp (List.mem_map_of_mem (f := (·.1)) hkey), hcurrent _ hkey⟩

/-- What is on file has one subscriber for each formula on file that read it last, if nothing else is
attached to anything. -/
theorem Sane.subscribers_spec (hn : n.Sane sc) (hclean : n.Clean) (hl : n.Attests l) (hfile : n.Present key)
    (htopic : n.registry.topic? key = some topic) : (n.subscribers topic).Nodup
      ∧ ∀ id, id ∈ n.subscribers topic ↔ (∃ used, n.Under used id) ∧ key ∈ latestReads l id := by
  have hwired := hn.inv.wired
  have hcount (id : Nat) (hid : ∃ used, n.Under used id) :
      (n.subscribers topic).count id = if key ∈ latestReads l id then 1 else 0 := by
    obtain ⟨used, hused⟩ := hid
    obtain ⟨source, path, hcell⟩ := hwired.hasCell_of_under hused
    obtain ⟨s, hs, -⟩ := hcell.told
    refine hwired.count_subscribers ⟨_, _, hcell.formula⟩
      (hl.recorded id _ hcell.cached (List.ne_nil_of_mem hs)) (not_layers_of_topic? htopic) fun d hd => ?_
    obtain hfiled | ⟨k, set, hk, hset, hgone⟩ := (hwired.traced id).filed d hd
    · refine ⟨fun heq => ?_, fun heq => ?_⟩
      · exact Option.some.inj (hfiled.symm.trans (heq ▸ htopic))
      · exact hwired.topic?_injective hn.inv.orderly (heq ▸ hfiled) htopic
    · -- the paths of a stat that was dropped are not what the key stands for
      rw [hk, hset]
      cases key with
      | paths => exact hfile.elim
      | node | form =>
        obtain ⟨_, -, rfl⟩ := Option.map_eq_some_iff.mp htopic
        simp
  have hunder {id : Nat} (hid : id ∈ n.subscribers topic) : ∃ used, n.Under used id := by
    obtain ⟨attached, hattached, hnode⟩ := mem_subscribers.mp hid
    obtain hhost | ⟨used, id', hid', hused, -⟩ := hn.listener_spec hclean hfile htopic hattached
    · cases hhost.symm.trans hnode
    · obtain rfl := Option.some.inj (hid'.symm.trans hnode)
      exact ⟨used, hused⟩
  refine ⟨List.nodup_iff_count_le_one.mpr fun id => ?_, fun id => ⟨fun hid => ?_, fun ⟨hid, hkey⟩ => ?_⟩⟩
  · by_cases hid : id ∈ n.subscribers topic
    · rw [hcount id (hunder hid)]
      split <;> omega
    · rw [List.count_eq_zero_of_not_mem hid]
      omega
  · refine ⟨hunder hid, ?_⟩
    by_contra hkey
    have hpos := List.count_pos_iff.mpr hid
    rw [hcount id (hunder hid), if_neg hkey] at hpos
    exact absurd hpos (lt_irrefl 0)
  · refine List.count_pos_iff.mp ?_
    rw [hcount id hid, if_pos hkey]
    exact Nat.one_pos

end InOrder

/-! ## Calls -/

section Calls

variable {host : Host N A σ} {tell : A → σ → σ} (hhost : host.Aloof tell)
include hhost

/-- Calls that read nothing keep what the log attests. -/
theorem Rests.attests_run (hn : n.Rests .free) (hl : n.Attests l) {call : Calculator.Call N A}
    (hcall : call.Orderly n) (hnone : call.reading? host = none) :
    Leads False (call.run host) n fun _ n' => n'.Attests l := by
  cases call with
  | add m =>
    have hadd := leads_addModifier hhost.toQuiet hn.inv hn.idle (Regime.free_allows m)
    exact hadd.mono False.elim fun _ _ h => hl.changes h.2.1 h.1
  | remove m =>
    have hremove := leads_removeModifier hhost.toQuiet hn.inv hn.idle m
    exact .discard (hremove.mono False.elim fun _ _ h => hl.changes h.2.1 h.1)
  | update settings u =>
    have hupdate := Network.leads_update hhost.toQuiet hn.inv hn.idle hn.calm settings
      fun m (_ : m ∈ u.added) => Regime.free_allows m
    exact hupdate.mono False.elim fun _ _ h => hl.changes h.2.changes h.1
  | paths stat =>
    refine .discard ((hn.sane.attested_pathSetOf hhost stat).bind fun set n' h => ?_)
    exact .get_bind (.of_pure (h.2.1 l [] ⟨hl, nofun⟩).toAttests)
  | prune =>
    have hprune := leads_removeUnused hhost.toQuiet hn.inv hn.idle
    exact .discard (hprune.mono False.elim fun _ _ h => hl.changes h.2.1.changes h.1)
  | listen topic action =>
    exact .discard (.of_eq rfl (hl.of_view fun i => n.view?_subscribed i topic (.host action)))
  | leave s =>
    refine .get_bind ?_
    split
    · exact .of_modify (hl.of_view fun i => n.view?_modifyListeners i s.topic _)
    · exact .of_pure hl
  | sweep held =>
    have hsweep := Network.leads_sweep (b := False) hn.inv hn.idle held
    exact hsweep.weaken fun _ _ h => hl.changes (h.2.1 tell) h.1
  | value | form | read => cases hnone

/-- What a call reads is attested, and the network stays in order. -/
theorem Rests.attests_reading (hn : n.Rests .free) (hl : n.Attested l new) {call : Calculator.Call N A}
    (hcall : call.Orderly n) {reading : Reading N (Logging N A σ) (Option (Amount N))}
    (hreading : call.reading? host = some reading) :
    Leads False (reading.run.run new) n fun r n' => n.Advances .free n' ∧ n'.Attested l r.2 := by
  have hnode (id : Nat) {m : Network N A σ} (hm : n.Advances .free m) (hnew : m.Attested l new)
      (hid : m.OnFile id) : Leads False ((loggedValueOf host id).run.run new) m fun r n' =>
        n.Advances .free n' ∧ n'.Attested l r.2 := by
    refine (hm.sane.attested_valueOf hhost hnew hid).weaken ?_
    rintro r n' ⟨h, hnew'⟩
    exact ⟨hm.trans h, hnew'⟩
  cases call with
  | value stat stage path =>
    cases hreading
    have hentry : Leads False (Calculator.node host stat stage path) n fun id n' => n.Advances .free n'
        ∧ n'.Attested l new ∧ n'.OnFile id := by
      refine (hn.sane.attested_nodesOf hhost stat stage path).bind ?_
      rintro e n₁ ⟨h₁, hattested, he⟩
      have hunder : n₁.Under (.node _) e.formula := ⟨e, he, rfl⟩
      rw [(h₁.sane.inv.wired.stages _ e he).cached]
      exact .of_pure ⟨h₁, hattested l new hl, .kept hunder⟩
    exact leads_lift_bind hentry fun id n₁ ⟨h₁, hnew, hid⟩ => hnode id h₁ hnew hid
  | form stat form path =>
    cases hreading
    refine leads_lift_bind (hn.sane.attested_collectionOf hhost stat form path) ?_
    rintro e n₁ ⟨h₁, hattested, he⟩
    exact hnode _ h₁ (hattested l new hl) (.combined he)
  | read id =>
    cases hreading
    exact hnode id (.refl hn.sane) hl (hcall.2 id rfl)
  | _ => cases hreading

/-- Calls keep what the log attests. -/
theorem Rests.attests_call (hn : n.Rests .free) (hl : n.Attests l) {call : Calculator.Call N A}
    (hcall : call.Orderly n) :
    Leads False ((call.logged host).run []) n fun r n' => n'.Attests (r.2 ++ l) := by
  rw [Calculator.Call.logged]
  cases hreading : call.reading? host with
  | none =>
    refine (leads_lift (hn.attests_run hhost hl hcall hreading)).weaken ?_
    rintro ⟨_, new⟩ n' ⟨hl', rfl⟩
    exact hl'
  | some reading =>
    have hnew : n.Attested l [] := ⟨hl, nofun⟩
    have hdiscard : (discard reading.run : Logging N A σ Unit).run []
        = (fun r => ((⟨⟩, r.2) : Unit × List Evaluation)) <$> reading.run.run [] := rfl
    exact hdiscard ▸ .map ((hn.attests_reading hhost hnew hcall hreading).weaken fun _ _ h => h.2.toAttests)

end Calls

end Network

namespace Calculator

section Aloof

variable {host : Host N A σ} {tell : A → σ → σ} (hhost : host.Aloof tell)
include hhost

/-- The log attests all evaluations at any time. -/
theorem Logged.attests {l : List Evaluation} {n : Network N A σ} (h : Logged host l n) : n.Attests l := by
  induction h with
  | start settings catalog state => exact .of_size rfl
  | call before hcall hrun ih =>
    exact ((before.visited.rests hhost).attests_call hhost ih hcall).partly hrun

/-- After a sweep a node or a collection on file has one subscriber for each formula on file that read it in
its latest evaluation, and no others. Nothing is subscribed to anything that is not on file. -/
theorem subscribed_as_read {l : List Evaluation} {n m : Network N A σ} {held : List Nat}
    (hvisited : Logged host l n) (hheld : ∀ id ∈ held, id ∈ n.roots)
    (hsweep : Network.sweep held n = some (⟨⟩, m)) :
    (∀ key topic, m.Present key → m.registry.topic? key = some topic → (m.subscribers topic).Nodup
      ∧ ∀ id, id ∈ m.subscribers topic ↔ (∃ used, m.Under used id) ∧ key ∈ latestReads l id)
    ∧ ∀ topic, ∀ id ∈ m.subscribers topic, m.Spared id := by
  have hn := hvisited.visited.rests hhost
  have hclean := hn.clean_of_sweep hheld hsweep
  have hm := ((hn.leads_sweep held).partly hsweep).1
  obtain ⟨-, hchanges, -⟩ := (Network.leads_sweep (b := False) hn.inv hn.idle held).partly hsweep
  have hl : m.Attests l := (hvisited.attests hhost).changes (hchanges tell) hm.inv
  refine ⟨fun key topic hfile htopic => hm.sane.subscribers_spec hclean hl hfile htopic, ?_⟩
  intro topic id hid
  obtain ⟨s, hs, -⟩ := hm.inv.wired.ledger.mem_subscribers_iff.mp hid
  exact hclean id (List.ne_nil_of_mem hs)

end Aloof

namespace Subscribing

/-- A stat that others read. -/
def rage : Stat ℚ := ⟨⟨"Rage", .character⟩, none, none, .double, false, []⟩

/-- A stat that a host listens to. -/
def strength : Stat ℚ := ⟨⟨"Strength", .character⟩, none, none, .double, false, []⟩

/-- A stat with a modifier. -/
def life : Stat ℚ := ⟨⟨"Life", .character⟩, none, none, .double, false, []⟩

/-- The base of rage. -/
def used : DependencyKey := .node ⟨rage.key, .base, Path.main⟩

/-- Life gets the sum of some formulas. -/
def sum (operands : List (Formula ℚ)) : Modifier ℚ := ⟨[life], .baseAdd, .add operands, 0, ⟨.global, ""⟩⟩

/-- The base of rage is read twice, and a new path of strength in between. -/
def twice : List (Formula ℚ) :=
  [.mainValue rage .base, .value strength .base (some (.ofSource (.particular .given))), .mainValue rage .base]

/-- A host that removes what is unused when it is told of a change. It is told of nothing meanwhile. -/
def pruning : Host ℚ Unit Unit :=
  { Host.idle with
    notified := fun _ _ => discard (removeUnused { Host.idle with notified := fun _ _ _ => none }) }

/-- A formula node belongs to the modifier of life. -/
def ofModifier (n : Network ℚ Unit Unit) (id : Nat) : Bool :=
  (n.registry.form? life.key .baseAdd Path.main).any fun e =>
    ((n.registry.items e.collection).map (·.1)).contains (id + 2)

theorem under_of_ofModifier {n : Network ℚ Unit Unit} {id : Nat} (h : ofModifier n id = true) :
    n.Under (.form life.key .baseAdd Path.main) id := by
  obtain ⟨e, he, hid⟩ := (Option.any_eq_true _ _).mp h
  exact ⟨e, he, List.contains_iff_mem.mp hid⟩

/-- The base of rage is on file, and a node is not subscribed to it. -/
def deaf (n : Network ℚ Unit Unit) (id : Nat) : Bool :=
  (n.registry.stage? ⟨rage.key, .base, Path.main⟩).any fun e =>
    !(n.subscribers (.received e.cached)).contains id

theorem exists_of_deaf {n : Network ℚ Unit Unit} {id : Nat} (h : deaf n id = true) : n.Present used
    ∧ ∃ topic, n.registry.topic? used = some topic ∧ id ∉ n.subscribers topic := by
  obtain ⟨e, he, hid⟩ := (Option.any_eq_true _ _).mp h
  refine ⟨⟨e, he⟩, .received e.cached, Option.map_eq_some_iff.mpr ⟨e, he, rfl⟩, fun hmem => ?_⟩
  rw [List.contains_iff_mem.mpr hmem] at hid
  cases hid

/-- A host listens to changes of strength, then life gets a modifier, and strength is read. -/
def told (operands : List (Formula ℚ)) : Option (List Evaluation × Network ℚ Unit Unit) := do
  let (l, n) ← loggedRuns pruning [.value strength .uncappedSubtotal Path.main] [] (start .standard none ())
  let e ← n.registry.stage? ⟨strength.key, .uncappedSubtotal, Path.main⟩
  if e.cached < n.nodes.size then
    let ((_, new), n) ← (Call.logged pruning (.listen (.changed e.cached) ())).run [] n
    loggedRuns pruning [.add (sum operands), .value strength .uncappedSubtotal Path.main] (new ++ l) n
  else none

theorem logged_told {operands : List (Formula ℚ)} {l : List Evaluation} {n : Network ℚ Unit Unit}
    (h : told operands = some (l, n)) : Logged pruning l n := by
  simp only [told, Option.bind_eq_bind, Option.bind_eq_some_iff, Option.ite_none_right_eq_some] at h
  obtain ⟨⟨l₁, n₁⟩, hread, e, -, hthere, ⟨⟨_, new⟩, n₂⟩, hlisten, hrun⟩ := h
  have hread : Logged pruning l₁ n₁ :=
    (Logged.start .standard none ()).runs (by simp [Call.Orderly, Call.Sound]) hread
  have hlisten : Logged pruning (new ++ l₁) n₂ := hread.call (by exact ⟨⟨hthere, nofun⟩, nofun⟩) hlisten
  exact hlisten.runs (by simp [Call.Orderly, Call.Sound]) hrun

end Subscribing

open Subscribing in
/-- What a modifier of life reads of rage is subscribed to by its node. -/
theorem subscribed_as_read_by_a_modifier : ∃ (l : List Evaluation) (n m : Network ℚ Unit Unit)
    (topic : Topic) (id : Nat), Logged Host.idle l n ∧ Network.sweep [] n = some (⟨⟩, m) ∧ m.registry.topic? used = some topic
      ∧ used ∈ latestReads l id ∧ (m.subscribers topic).Nodup
      ∧ ∀ i, i ∈ m.subscribers topic ↔ (∃ key, m.Under key i) ∧ used ∈ latestReads l i := by
  let calls : List (Call ℚ Unit) := [.add (sum [.mainValue rage .base]), .value life .base Path.main]
  have hfacts : ((loggedRuns Host.idle calls [] (start .standard none ())).any fun r =>
      (Network.sweep [] r.2).any fun s =>
        (s.2.registry.stage? ⟨rage.key, .base, Path.main⟩).isSome
          && r.1.any fun e => (latestReads r.1 e.node).contains used) = true := by
    decide +kernel
  obtain ⟨⟨l, n⟩, hrun, hfacts⟩ := (Option.any_eq_true _ _).mp hfacts
  obtain ⟨⟨_, m⟩, hsweep, hfacts⟩ := (Option.any_eq_true _ _).mp hfacts
  rw [Bool.and_eq_true, Option.isSome_iff_exists, List.any_eq_true] at hfacts
  obtain ⟨⟨entry, hentry⟩, e, -, he⟩ := hfacts
  have hlogged : Logged Host.idle l n :=
    (Logged.start .standard none ()).runs (by simp [calls, Call.Orderly, Call.Sound]) hrun
  have htopic : m.registry.topic? used = some (.received entry.cached) :=
    Option.map_eq_some_iff.mpr ⟨entry, hentry, rfl⟩
  obtain ⟨hnodup, hmem⟩ :=
    (subscribed_as_read Host.aloof_idle hlogged (by simp) hsweep).1 used _ ⟨entry, hentry⟩ htopic
  exact ⟨l, n, m, _, e.node, hlogged, hsweep, htopic, List.contains_iff_mem.mp he, hnodup, hmem⟩

open Subscribing in
/-- A host that prunes in the middle of an evaluation keeps the formula from being subscribed to what it
read. -/
theorem subscription_missed : ∃ (l : List Evaluation) (n m : Network ℚ Unit Unit) (topic : Topic) (id : Nat),
    Logged pruning l n ∧ Network.sweep [] n = some (⟨⟩, m) ∧ m.Present used
      ∧ m.registry.topic? used = some topic ∧ (∃ key, m.Under key id) ∧ used ∈ latestReads l id
      ∧ id ∉ m.subscribers topic := by
  have hfacts : ((told twice).any fun r => (loggedRuns pruning [.value life .base Path.main] r.1 r.2).any
      fun r => (Network.sweep [] r.2).any fun s => r.1.any fun e =>
        ofModifier s.2 e.node && (latestReads r.1 e.node).contains used && deaf s.2 e.node) = true := by
    decide +kernel
  obtain ⟨⟨l₁, n₁⟩, htold, hfacts⟩ := (Option.any_eq_true _ _).mp hfacts
  obtain ⟨⟨l, n⟩, hrun, hfacts⟩ := (Option.any_eq_true _ _).mp hfacts
  obtain ⟨⟨_, m⟩, hsweep, hfacts⟩ := (Option.any_eq_true _ _).mp hfacts
  obtain ⟨e, -, he⟩ := List.any_eq_true.mp hfacts
  simp only [Bool.and_eq_true] at he
  obtain ⟨⟨hmodifier, hread⟩, hdeaf⟩ := he
  obtain ⟨hfile, topic, htopic, hnot⟩ := exists_of_deaf hdeaf
  have hlogged : Logged pruning l n := (logged_told htold).runs (by simp [Call.Orderly, Call.Sound]) hrun
  exact ⟨l, n, m, topic, e.node, hlogged, hsweep, hfile, htopic, ⟨_, under_of_ofModifier hmodifier⟩,
    List.contains_iff_mem.mp hread, hnot⟩

/-- A read that came to an end, with a value or with a fault, left no node that is being computed, the
modifiers and their collections as they were, no value on file of what could not be computed, and each
formula that it evaluated subscribed to what that read. -/
structure LeavesInOrder (before new : List Evaluation) (n n' : Network N A σ) : Prop where
  entered : ∀ id, n'.isEntered id = false
  value : ∀ key id, n'.Under key id → latestFailed (new ++ before) (id + 1) → n'.value? (id + 1) = none
  items : n'.registry.items = n.registry.items
  modifierCount : ∀ key g, n.registry.graph? key = some g →
    ∃ g', n'.registry.graph? key = some g' ∧ g'.modifierCount = g.modifierCount
  subscribed : ∀ e ∈ new, n'.IsFormula e.node → n'.SubscribesTo e.node (latestReads (new ++ before) e.node)

section Aloof

variable {host : Host N A σ} {tell : A → σ → σ} (hhost : host.Aloof tell)
include hhost

/-- Whatever a host reads, and however that ends, all is left in order. -/
theorem reads_leave_no_residue {l new : List Evaluation} {n n' : Network N A σ} (hvisited : Logged host l n)
    {call : Call N A} (hcall : call.Orderly n) {reading : Reading N (Logging N A σ) (Option (Amount N))}
    (hreading : call.reading? host = some reading) {answer : Except (Fault N) (Option (Amount N))}
    (hrun : reading.run.run [] n = some ((answer, new), n')) : LeavesInOrder l new n n' := by
  have hn := hvisited.visited.rests hhost
  have hbefore : n.Attested l [] := ⟨hvisited.attests hhost, nofun⟩
  obtain ⟨h, hnew⟩ := (hn.attests_reading hhost hbefore hcall hreading).partly hrun
  constructor
  case entered => exact fun id => (h.proceeds.entered id).trans (hn.idle id)
  case value =>
    intro key id hid hfailed
    obtain ⟨_, _, hcell⟩ := h.sane.inv.wired.hasCell_of_under hid
    obtain ⟨s, hs, -⟩ := hcell.told
    by_contra hvalue
    obtain hheld | hok := hnew.kept (id + 1) hvalue
    · exact List.ne_nil_of_mem hs hheld
    · cases hok.symm.trans hfailed
  case items => exact h.gains.registry_items
  case modifierCount =>
    intro key g hg
    exact (h.gains.graph? h.sane.inv.orderly hg).imp fun _ hg' => ⟨hg'.1, hg'.2.modifierCount⟩
  case subscribed =>
    rintro e he ⟨source, path, hformula⟩
    obtain ⟨inner, hcached⟩ | ⟨hunder, hcurrent⟩ := hnew.current e he
    · cases hformula.symm.trans hcached
    · exact hnew.toAttests.subscribesTo h.sane.inv hunder hcurrent

end Aloof

namespace Subscribing

/-- Reading the base of life. -/
def reading (host : Host ℚ Unit Unit) : Reading ℚ (Logging ℚ Unit Unit) (Option (Amount ℚ)) := do
  loggedValueOf host (← ExceptT.lift (StateT.lift (node host life .base Path.main)))

theorem orderly_life (n : Network ℚ Unit Unit) :
    (Call.value life .base Path.main : Call ℚ Unit).Orderly n := ⟨trivial, nofun⟩

/-- A formula is evaluated that fails. -/
def fails (n : Network ℚ Unit Unit) (e : Evaluation) : Bool := e.failed && (n.formula? e.node).isSome

theorem isFormula_of_fails {n : Network ℚ Unit Unit} {e : Evaluation} (h : fails n e = true) :
    e.failed = true ∧ n.IsFormula e.node := by
  rw [fails, Bool.and_eq_true, Option.isSome_iff_exists] at h
  obtain ⟨hfailed, f, hf⟩ := h
  exact ⟨hfailed, isFormula_of_formula? hf⟩

end Subscribing

open Subscribing in
/-- A modifier that reads the base it belongs to makes a cycle. Its node is subscribed to that all the same. -/
theorem reads_leave_no_residue_of_cycle : ∃ (l new : List Evaluation) (n n' : Network ℚ Unit Unit)
    (fault : Fault ℚ) (e : Evaluation), Logged Host.idle l n
      ∧ (reading Host.idle).run.run [] n = some ((.error fault, new), n') ∧ LeavesInOrder l new n n'
      ∧ e ∈ new ∧ e.failed = true ∧ n'.SubscribesTo e.node (latestReads (new ++ l) e.node) := by
  let calls : List (Call ℚ Unit) := [.add (sum [.mainValue life .base])]
  have hfacts : ((loggedRuns Host.idle calls [] (start .standard none ())).any fun r =>
      ((reading Host.idle).run.run [] r.2).any fun s => !s.1.1.isOk && s.1.2.any (fails s.2)) = true := by
    decide +kernel
  obtain ⟨⟨l, n⟩, hrun, hfacts⟩ := (Option.any_eq_true _ _).mp hfacts
  obtain ⟨⟨⟨answer, new⟩, n'⟩, hread, hfacts⟩ := (Option.any_eq_true _ _).mp hfacts
  rw [Bool.and_eq_true, List.any_eq_true] at hfacts
  obtain ⟨hfault, e, he, hfails⟩ := hfacts
  obtain ⟨hfailed, hformula⟩ := isFormula_of_fails hfails
  have hlogged : Logged Host.idle l n :=
    (Logged.start .standard none ()).runs (by simp [calls, Call.Orderly, Call.Sound]) hrun
  have hleft : LeavesInOrder l new n n' :=
    reads_leave_no_residue Host.aloof_idle hlogged (orderly_life n) rfl hread
  cases answer with
  | ok v => cases hfault
  | error fault =>
    exact ⟨l, new, n, n', fault, e, hlogged, hread, hleft, he, hfailed, hleft.subscribed e he hformula⟩

open Subscribing in
/-- If a host prunes in the middle of it, an evaluation that fails is not subscribed to all that it read. -/
theorem residue_of_failure : ∃ (l new : List Evaluation) (n n' : Network ℚ Unit Unit) (fault : Fault ℚ)
    (e : Evaluation) (topic : Topic), Logged pruning l n
      ∧ (reading pruning).run.run [] n = some ((.error fault, new), n')
      ∧ e ∈ new ∧ e.failed = true ∧ n'.IsFormula e.node ∧ used ∈ latestReads (new ++ l) e.node
      ∧ n'.registry.topic? used = some topic ∧ e.node ∉ n'.subscribers topic := by
  have hfacts : ((told (twice ++ [.mainValue life .base])).any fun r =>
      ((reading pruning).run.run [] r.2).any fun s => !s.1.1.isOk && s.1.2.any fun e => fails s.2 e
        && (latestReads (s.1.2 ++ r.1) e.node).contains used && deaf s.2 e.node) = true := by
    decide +kernel
  obtain ⟨⟨l, n⟩, htold, hfacts⟩ := (Option.any_eq_true _ _).mp hfacts
  obtain ⟨⟨⟨answer, new⟩, n'⟩, hread, hfacts⟩ := (Option.any_eq_true _ _).mp hfacts
  rw [Bool.and_eq_true, List.any_eq_true] at hfacts
  obtain ⟨hfault, e, he, hfacts⟩ := hfacts
  simp only [Bool.and_eq_true] at hfacts
  obtain ⟨⟨hfails, hused⟩, hdeaf⟩ := hfacts
  obtain ⟨hfailed, hformula⟩ := isFormula_of_fails hfails
  obtain ⟨-, topic, htopic, hnot⟩ := exists_of_deaf hdeaf
  cases answer with
  | ok v => cases hfault
  | error fault =>
    exact ⟨l, new, n, n', fault, e, topic, logged_told htold, hread, he, hfailed, hformula,
      List.contains_iff_mem.mp hused, htopic, hnot⟩

end Calculator

end StatEngine
