import StatEngine.Proofs.Hosts

/-!
# Telling hosts of changes

A host that listens to the node of a total and has read it is told once when an update changes what there
is to read. What was read stays worth the same until the node announces a change: a value is kept until
then, and a node that could not be read is stuck until then.

## Main definitions

* `Calculator.LastRead`: the total of a stat was read, and its node announced no change since.

## Main statements

* `Calculator.Step.watched_of_untold`: a node that was read makes no announcement without a call to those
  who listen to it;
* `Calculator.LastRead.keeps`: what was read last is what there is to read;
* `Calculator.notified_of_change`: an update that changes what there is to read tells a host once.
-/

namespace StatEngine

open Network

variable {N A σ : Type} {sc : Scope N}

/-! ## Counting calls -/

section Lists

variable {α β : Type} [DecidableEq β]

/-- What is among the parts of one entry alone is counted there. -/
theorem count_flatMap_of_unique {f : α → List β} {l : List α} (hl : l.Nodup) {x : α} (hx : x ∈ l)
    {b : β} (h : ∀ y ∈ l, y ≠ x → b ∉ f y) : (l.flatMap f).count b = (f x).count b := by
  obtain ⟨before, after, rfl⟩ := List.append_of_mem hx
  have hnot (part : List α) (hpart : part.Sublist (before ++ x :: after)) (hxpart : x ∉ part) :
      (part.flatMap f).count b = 0 := by
    refine List.count_eq_zero.mpr fun hb => ?_
    obtain ⟨y, hy, hb⟩ := List.mem_flatMap.mp hb
    exact h y (hpart.subset hy) (fun heq => hxpart (heq ▸ hy)) hb
  rw [List.nodup_append, List.nodup_cons] at hl
  have hbefore := hnot before (List.sublist_append_left ..)
    fun hmem => hl.2.2 x hmem x List.mem_cons_self rfl
  have hafter := hnot after ((List.sublist_cons_self ..).trans (List.sublist_append_right ..)) hl.2.1.1
  rw [List.flatMap_append, List.flatMap_cons, List.count_append, List.count_append, hbefore, hafter]
  omega

end Lists

namespace Network

variable {n n' : Network N A σ}

/-- What a run came to that goes on with the result of another one. -/
theorem exists_of_bind {β γ : Type} {run : Run N A σ β} {next : β → Run N A σ γ} {c : γ}
    (h : (run >>= next) n = some (c, n')) : ∃ b m, run n = some (b, m) ∧ next b m = some (c, n') := by
  obtain ⟨⟨b, m⟩, hrun, hnext⟩ := Option.bind_eq_some_iff.mp h
  exact ⟨b, m, hrun, hnext⟩

/-- A host that writes down what it is told of. -/
theorem tellAll_append_singleton (calls : List (Nat × A)) (log : List A) :
    tellAll (fun action log => log ++ [action]) calls log = log ++ calls.map (·.2) := by
  induction calls generalizing log with
  | nil => exact (List.append_nil log).symm
  | cons call calls ih => exact (ih _).trans (List.append_assoc ..)

/-- An action that one listener has alone is called by that listener once. -/
theorem Ledger.count_callbacks [DecidableEq A] (hn : n.Ledger) {t : Topic} {token : Nat} {action : A}
    (h : ⟨token, .host action⟩ ∈ n.listeners t)
    (honly : ∀ attached ∈ n.listeners t, attached.listener = .host action → attached.token = token) :
    ((n.callbacks t).map (·.2)).count action = 1 := by
  have hnodup := hn.tokens_nodup t
  have hmap : (n.callbacks t).map (·.2) = (n.listeners t).filterMap (·.listener.action?) := by
    rw [callbacks, List.map_filterMap]
    refine List.filterMap_congr fun attached _ => ?_
    rw [Attached.callback?, Option.map_map]
    exact Option.map_id' ..
  have hcount : ((n.listeners t).map (·.token)).count token = 1 :=
    List.count_eq_one_of_mem hnodup (List.mem_map_of_mem h)
  rw [hmap, List.count_filterMap, ← hcount, List.count, List.countP_map]
  refine List.countP_congr fun attached ha => ?_
  rw [beq_iff_eq, Function.comp_apply, beq_iff_eq]
  constructor
  · intro haction
    exact honly attached ha (Listener.action?_eq_some.mp haction)
  · intro htoken
    have hsame : attached = ⟨token, .host action⟩ := List.inj_on_of_nodup_map hnodup ha h htoken
    rw [hsame]
    rfl

/-- A node shows the total of a stat. -/
def ShowsTotal (n : Network N A σ) (stat : Stat N) (c : Nat) : Prop :=
  ∃ e, n.registry.stage? ⟨stat.key, .total, Path.main⟩ = some e ∧ c = e.formula + 1

/-- A node that shows a total keeps the value of a cell. -/
theorem ShowsTotal.exists_cell [Number N] (hn : n.Settled sc) {stat : Stat N} (hs : stat ∈ sc.stats)
    {c : Nat} (h : n.ShowsTotal stat c) : ∃ id source p, c = id + 1 ∧ n.HasCell id source p
      ∧ n.Denotes sc.regime id (.stage stat .total) p := by
  obtain ⟨e, he, rfl⟩ := h
  have hd : n.Denotes sc.regime e.formula (.stage stat .total) e.path := .stage he hs rfl
  obtain ⟨source, hcell, -⟩ := hn.inv.wired.cell_of_denotes hn.inv.orderly.stats hd
  exact ⟨e.formula, source, e.path, rfl, hcell, hd⟩

section Keeping

variable [Number N]

/-- What extends a network leaves what was read as it is: a value is kept, and a node that could not be
read is stuck. -/
theorem Extends.value_eq (h : n.Extends n') (hn : n.Settled sc) (hn' : n'.Inv sc.regime) {stat : Stat N}
    (hs : stat ∈ sc.stats) {c : Nat} (hc : n.ShowsTotal stat c) (hobserved : n.isObserved c) :
    n'.value? c = n.value? c := by
  obtain ⟨id, source, p, rfl, -, hd⟩ := hc.exists_cell hn hs
  cases hvalue : n.value? (id + 1) with
  | some v => exact h.value _ v hvalue
  | none =>
    by_contra hne
    obtain ⟨v, hv⟩ := Option.ne_none_iff_exists'.mp hne
    -- a value that was found is the one that the inputs say, and there is none
    have hd' := h.denotes hd
    obtain ⟨depth, hdepth⟩ :=
      ((hn'.sound id _ p v hd' hv).computes hn'.wired hn'.orderly hd' hv).eventually
    refine hn.hopeless id _ p hd ⟨hobserved, hvalue⟩ depth v ?_
    rw [← h.registry.inputs]
    exact hdepth depth le_rfl

/-- Announcements leave what was read as it is at every node that makes none. -/
theorem Changes.value_eq {tell : A → σ → σ} (h : n.Changes tell n') (hn' : n'.Settled sc)
    {stat : Stat N} (hs : stat ∈ sc.stats) {c : Nat} (hc : n'.ShowsTotal stat c)
    (hobserved : n'.isObserved c) : n'.value? c = n.value? c := by
  obtain ⟨id, source, p, rfl, hcell, -⟩ := hc.exists_cell hn' hs
  obtain ⟨s, hs, -⟩ := hcell.told
  refine (h.kept _ hobserved).resolve_left fun hheld => ?_
  rw [hheld] at hs
  cases hs

end Keeping

end Network

namespace Calculator

variable [Number N]

/-- The total of a stat is shown by a node that was read since it last announced a change. -/
structure Watched (stat : Stat N) (c : Nat) (n : Network N A σ) : Prop where
  shows : n.ShowsTotal stat c
  observed : n.isObserved c

/-- The node of a total that a host listens to stays on file. -/
theorem Watched.shows_of_keepsHeard {stat : Stat N} {c : Nat} {n n' : Network N A σ}
    (hn : n.Settled sc) (h : Watched stat c n) (hkeeps : n.KeepsHeard n') {token : Nat} {action : A}
    (hlistens : ⟨token, .host action⟩ ∈ n.listeners (.changed c)) :
    n'.ShowsTotal stat c := by
  obtain ⟨⟨e, he, rfl⟩, -⟩ := h
  refine ⟨e, hkeeps _ e he fun hnone => ?_, rfl⟩
  have hcall := mem_callbacks.mpr hlistens
  rw [← (hn.inv.wired.stages _ e he).cached, hnone] at hcall
  cases hcall

section Watching

variable {host : Host N A σ} {tell : A → σ → σ} (hhost : host.Quiet tell) {stat : Stat N}
  (hs : stat ∈ sc.stats) {n n' n'' : Network N A σ} {c : Nat}

include hhost hs

/-- The node of a total that was read is the one that is looked up. -/
theorem watched_of_node (hn : n.Settled sc) (hobserved : n.isObserved c)
    (h : Calculator.node host stat .total Path.main n = some (c, n')) : Watched stat c n := by
  obtain ⟨-, hextends, e, he, rfl⟩ := (hn.leads_node hhost hs).partly h
  refine ⟨⟨e, (hextends.fresh _ e he).resolve_right fun hnew => ?_, rfl⟩, hobserved⟩
  -- a node that the lookup made was not there to be read
  rw [isObserved, flags?, body?, Array.getElem?_eq_none (by omega)] at hobserved
  cases hobserved

/-- Nothing happens to what was read as long as the node makes no announcement. -/
theorem Step.value_eq (hn : n.Settled sc) (h : Step sc host n n') (hc : Watched stat c n)
    (hc' : Watched stat c n') : n'.value? c = n.value? c := by
  obtain ⟨hn', -, hextends | hchanges | ⟨d, hdiffer⟩⟩ := h.does hhost hn
  · exact hextends.value_eq hn hn'.inv hs hc.shows hc.observed
  · exact hchanges.value_eq hn' hs hc'.shows hc'.observed
  · rw [value?, flags?_of_view (hdiffer.view c), value?]

end Watching

section Calling

variable {host : Host N A (List A)} (hhost : host.Quiet fun action log => log ++ [action])
  {stat : Stat N} {n n' : Network N A (List A)} {c token : Nat} {action : A}

include hhost

/-- A node that was read makes no announcement without a call to those who listen to it. -/
theorem Step.watched_of_untold [DecidableEq A] (hn : n.Settled sc) (h : Step sc host n n')
    (hc : Watched stat c n) (hlistens : ⟨token, .host action⟩ ∈ n.listeners (.changed c))
    (huntold : n'.host.count action = n.host.count action) : Watched stat c n' := by
  obtain ⟨-, hkeeps, hdoes⟩ := h.does hhost hn
  refine ⟨hc.shows_of_keepsHeard hn hkeeps hlistens, ?_⟩
  rcases hdoes with hextends | hchanges | ⟨d, hdiffer⟩
  · exact hextends.observed c hc.observed
  · obtain ⟨ds, -, hds, htold⟩ := hchanges.announced
    by_contra hobserved
    have hannounced : c ∈ ds := (hds c).mpr ⟨hc.observed, Bool.eq_false_iff.mpr hobserved⟩
    have hcalled : action ∈ (ds.flatMap fun d => n.callbacks (.changed d)).map (·.2) :=
      List.mem_map.mpr ⟨(token, action), List.mem_flatMap.mpr
        ⟨c, hannounced, mem_callbacks.mpr hlistens⟩, rfl⟩
    have hhost' : n'.host = n.host ++ (ds.flatMap fun d => n.callbacks (.changed d)).map (·.2) :=
      ((htold.at_once hn.calm.holds).2 hn.unwatched).trans (tellAll_append_singleton _ _)
    rw [hhost', List.count_append] at huntold
    have := List.count_pos_iff.mpr hcalled
    omega
  · rw [isObserved, flags?_of_view (hdiffer.view c), ← isObserved]
    exact hc.observed

end Calling

/-- The total of a stat was read with the given result by a host that writes down what it is told of, and
its node announced no change since. -/
inductive LastRead [DecidableEq A] (sc : Scope N) (host : Host N A (List A)) (stat : Stat N) (c : Nat)
    (r : Except (Fault N) (Option (Amount N))) : Network N A (List A) → Prop where
  /-- The total has just been read, successfully or not. -/
  | read {n₀ n n' : Network N A (List A)} (hreached : Reached sc host n₀)
    (hread : (total host stat).run n₀ = some (r, n))
    (hnode : Calculator.node host stat .total Path.main n = some (c, n')) : LastRead sc host stat c r n
  /-- A step that did not call a listener of the node. -/
  | untold {n n' : Network N A (List A)} (hlast : LastRead sc host stat c r n) (hstep : Step sc host n n')
    {token : Nat} {action : A} (hlistens : ⟨token, .host action⟩ ∈ n.listeners (.changed c))
    (huntold : n'.host.count action = n.host.count action) : LastRead sc host stat c r n'
  /-- A step after which the node of the total is the same, and still marked as read. -/
  | marked {n n' n'' : Network N A (List A)} (hlast : LastRead sc host stat c r n)
    (hstep : Step sc host n n') (hnode : Calculator.node host stat .total Path.main n' = some (c, n''))
    (hobserved : n'.isObserved c) : LastRead sc host stat c r n'

section Notifying

variable [DecidableEq A] {host : Host N A (List A)} (hhost : host.Quiet fun action log => log ++ [action])
  {stat : Stat N} (hs : stat ∈ sc.stats) {c : Nat} {r : Except (Fault N) (Option (Amount N))}

include hhost hs

/-- What was read last is what there is to read. -/
theorem LastRead.keeps {n : Network N A (List A)} (h : LastRead sc host stat c r n) :
    n.Settled sc ∧ Watched stat c n ∧ n.value? c = r.toOption := by
  induction h with
  | read hreached hread hnode =>
    obtain ⟨hn, -, e, he, hobserved, hvalue⟩ :=
      ((hreached.settled hhost).leads_total hhost hs).partly hread
    obtain ⟨-, hextends, e', he', rfl⟩ := (hn.leads_node hhost hs).partly hnode
    obtain rfl := Option.some.inj ((hextends.registry.entry _ e he).symm.trans he')
    exact ⟨hn, ⟨⟨e, he, rfl⟩, hobserved⟩, hvalue⟩
  | untold _ hstep hlistens huntold ih =>
    obtain ⟨hn, hc, hvalue⟩ := ih
    have hc' := hstep.watched_of_untold hhost hn hc hlistens huntold
    exact ⟨hstep.settled hhost hn, hc', (hstep.value_eq hhost hs hn hc hc').trans hvalue⟩
  | marked _ hstep hnode hobserved ih =>
    obtain ⟨hn, hc, hvalue⟩ := ih
    have hn' := hstep.settled hhost hn
    have hc' := watched_of_node hhost hs hn' hobserved hnode
    exact ⟨hn', hc', (hstep.value_eq hhost hs hn hc hc').trans hvalue⟩

/-- If what there is to read after an update is another value than was read last, or a value and not a
fault, or a fault and not a value, then a host that listens to the node is called just once in the
update. -/
theorem notified_of_change {n n' n'' : Network N A (List A)} (hlast : LastRead sc host stat c r n)
    -- a host listens to the node, by a listener of its own
    {token : Nat} {action : A} (hlistens : ⟨token, .host action⟩ ∈ n.listeners (.changed c))
    (honly : ∀ t, ∀ attached ∈ n.listeners t, attached.listener = .host action →
      t = .changed c ∧ attached.token = token)
    -- after an update there is something else to read
    {settings : Settings} {u : Update N} (hallows : ∀ modifier ∈ u.added, sc.Allows modifier)
    (hupdate : update host settings u n = some (⟨⟩, n'))
    {r' : Except (Fault N) (Option (Amount N))} (hread : (total host stat).run n' = some (r', n''))
    (hdiffers : r'.toOption ≠ r.toOption) :
    n'.host.count action = n.host.count action + 1 := by
  obtain ⟨hn, hwatched, hvalue⟩ := hlast.keeps hhost hs
  obtain ⟨hinv', hupdates⟩ :=
    (leads_update hhost hn.inv hn.idle hn.calm settings fun m hm => (hallows m hm).regime).partly hupdate
  have hn' := hn.of_proceeds hinv' hupdates.changes.toProceeds
  have hshows := hwatched.shows_of_keepsHeard hn hupdates.stages hlistens
  obtain ⟨ds, hnodup, hds, htold⟩ := hupdates.changes.announced
  -- the node made an announcement: if not, what was read is still there to read
  have hannounced : c ∈ ds := by
    refine (hds c).mpr ⟨hwatched.observed, Bool.eq_false_iff.mpr fun hobserved => hdiffers ?_⟩
    obtain ⟨hn'', hextends, e, he, -, hvalue'⟩ := (hn'.leads_total hhost hs).partly hread
    have hc : c = e.formula + 1 := by
      obtain ⟨e', he', rfl⟩ := hshows
      rw [Option.some.inj ((hextends.registry.entry _ e' he').symm.trans he)]
    calc r'.toOption = n''.value? c := by rw [hc, hvalue']
      _ = n'.value? c := hextends.value_eq hn' hn''.inv hs hshows hobserved
      _ = n.value? c := hupdates.changes.value_eq hn' hs hshows hobserved
      _ = r.toOption := hvalue
  have hhost' : n'.host = n.host ++ (ds.flatMap fun d => n.callbacks (.changed d)).map (·.2) :=
    ((htold.at_once hn.calm.holds).2 hn.unwatched).trans (tellAll_append_singleton _ _)
  -- no other announcement calls the listener
  rw [hhost', List.count_append, List.map_flatMap]
  rw [count_flatMap_of_unique hnodup hannounced fun d _ hd hmem => ?_]
  · rw [hn.inv.wired.ledger.count_callbacks hlistens fun attached ha heq => (honly _ attached ha heq).2]
  · obtain ⟨call, hcall, rfl⟩ := List.mem_map.mp hmem
    exact hd (Topic.changed.inj (honly _ _ (mem_callbacks.mp hcall) rfl).1)

end Notifying

/-- A host is told of the first modifier of a stat whose total it read. -/
theorem notified_of_addition : ∃ (host : Host Float Unit (List Unit)) (stat : Stat Float) (sc : Scope Float)
    (u : Update Float) (c : Nat) (r : Except (Fault Float) (Option (Amount Float)))
    (n n' : Network Float Unit (List Unit)), LastRead sc host stat c r n
      ∧ Calculator.update host .standard u n = some (⟨⟩, n')
      ∧ n'.host.count () = n.host.count () + 1 := by
  let host : Host Float Unit (List Unit) :=
    { Host.idle with notified := fun action _ n => some (⟨⟩, { n with host := n.host ++ [action] }) }
  have hhost : host.Quiet fun action log => log ++ [action] := ⟨fun _ _ _ => rfl⟩
  let life : Stat Float := ⟨⟨"Life", .character⟩, none, none, .double, true, []⟩
  let sc : Scope Float := ⟨[life], by simp, by simp [life], by simp [life], by simp [life]⟩
  let u : Update Float := .adding ⟨[life], .baseAdd, .constant (some ⟨1, 1⟩), 0, ⟨.global, ""⟩⟩
  have hlife : life ∈ sc.stats := List.mem_singleton_self life
  have hallows : ∀ modifier ∈ u.added, sc.Allows modifier := by
    intro modifier hmodifier
    rw [List.mem_singleton.mp hmodifier]
    exact ⟨fun s hs => sc.admits_of_mem hs, .constant _⟩
  let script : Run Float Unit (List Unit) (Bool × Bool × Bool) := do
    let c ← Calculator.node host life .total Path.main
    let s ← attach (.changed c) (.host ())
    let r ← (Calculator.total host life).run
    let n ← get
    let c' ← Calculator.node host life .total Path.main
    set n
    Calculator.update host .standard u
    let r' ← (Calculator.total host life).run
    return (c' == c, (List.range n.nodes.size).all fun d =>
        n.callbacks (.changed d) == if d == c then [(s.token, ())] else [],
      (r.toOption.bind id).isSome != (r'.toOption.bind id).isSome)
  have hscript : (script (start .standard none [])).map (·.1) = some (true, true, true) := by
    decide +kernel
  obtain ⟨⟨facts, n⟩, hrun, rfl⟩ := Option.map_eq_some_iff.mp hscript
  obtain ⟨c, n₁, hnode, hrun⟩ := exists_of_bind hrun
  obtain ⟨s, n₂, hattach, hrun⟩ := exists_of_bind hrun
  obtain ⟨r, n, hread, hrun⟩ := exists_of_bind hrun
  obtain ⟨_, _, hget, hrun⟩ := exists_of_bind hrun
  cases hget
  obtain ⟨c', n₃, hnode', hrun⟩ := exists_of_bind hrun
  obtain ⟨_, _, hset, hrun⟩ := exists_of_bind hrun
  cases hset
  obtain ⟨_, n', hupdate, hrun⟩ := exists_of_bind hrun
  obtain ⟨r', n'', hread', hrun⟩ := exists_of_bind hrun
  obtain ⟨hsame, hfacts⟩ := Prod.mk.inj (Prod.mk.inj (Option.some.inj hrun)).1
  obtain ⟨hcalls, hdiffers⟩ := Prod.mk.inj hfacts
  obtain rfl : c' = c := beq_iff_eq.mp hsame
  replace hcalls : ∀ d < n.nodes.size,
      n.callbacks (.changed d) = if d = c' then [(s.token, ())] else [] := by
    simpa using hcalls
  obtain ⟨hn₁, -, hshows⟩ := ((settled_start .standard none []).leads_node hhost hlife).partly hnode
  obtain ⟨inner, _, _, rfl, hcell, -⟩ := ShowsTotal.exists_cell hn₁ hlife hshows
  have hreached : Reached sc host n₂ :=
    ⟨.standard, none, [], .tail (.tail .refl (.node hlife hnode)) (.listen hcell.cached hattach)⟩
  have hlast : LastRead sc host life (inner + 1) r n := .read hreached hread hnode'
  obtain ⟨hn, hwatched, -⟩ := hlast.keeps hhost hlife
  have hlistens : ⟨s.token, .host ()⟩ ∈ n.listeners (.changed (inner + 1)) := by
    rw [← mem_callbacks, hcalls _ (lt_size_of_isObserved hwatched.observed), if_pos rfl]
    exact List.mem_singleton_self _
  have honly : ∀ t, ∀ attached ∈ n.listeners t, attached.listener = .host () →
      t = .changed (inner + 1) ∧ attached.token = s.token := by
    rintro t ⟨token, listener⟩ ha rfl
    obtain ⟨d, i, rfl, hd⟩ := hn.unwatched.listens ha
    have hcall := mem_callbacks.mpr ha
    rw [hcalls d (lt_size_of_kind? hd)] at hcall
    split at hcall
    next hsame => exact ⟨congrArg _ hsame, (Prod.mk.inj (List.mem_singleton.mp hcall)).1⟩
    next => cases hcall
  refine ⟨host, life, sc, u, _, r, n, n', hlast, hupdate, ?_⟩
  refine notified_of_change hhost hlife hlast hlistens honly hallows hupdate hread' fun heq => ?_
  simp [heq] at hdiffers

end Calculator

end StatEngine
