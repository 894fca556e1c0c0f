import StatEngine.Number.Double
import StatEngine.Proofs.Roaming

/-!
# What a cascade costs

A cascade of announcements is put on record (`raiseRecorded`), which changes nothing about it. A cached
node pays for what it announces with having been observed: it announces that its value was dropped once
if it was observed before the cascade and is not after it, and otherwise not at all. This holds however
the nodes are wired. Where listeners fit what they are attached to, which they do in every network that a
host can get to, a cascade ends, and what it reaches tells what it leaves behind.

A collection says what joined or left it rather than that it changed. The node that follows it adjusts its
subscriptions first, and what it announces then is a change like any other.

## Main definitions

* `raiseRecorded`: an announcement with a record of those that it causes;
* `Pays`: what is on record of cached nodes is paid for;
* `Cascaded`: what a cascade leaves behind.

## Main statements

* `erases_raise`: an announcement is what it is without its record;
* `pays_raise`: cached nodes pay for their announcements;
* `emit_cascade`: what an announcement of a change does.
-/

namespace StatEngine.Network

variable {N A σ : Type}

/-! ## Records -/

/-- The network with another state of the host. -/
def withHost {τ : Type} (n : Network N A σ) (state : τ) : Network N A τ := { n with host := state }

section WithHost

variable {τ : Type} (n : Network N A σ) (state : τ)

@[simp]
theorem listeners_withHost (topic : Topic) : (n.withHost state).listeners topic = n.listeners topic := by
  cases topic <;> rfl

@[simp]
theorem isObserved_withHost (id : Nat) : (n.withHost state).isObserved id = n.isObserved id := rfl

@[simp]
theorem isPresent_withHost (topic : Topic) :
    (n.withHost state).isPresent topic = n.isPresent topic := by
  cases topic <;> rfl

end WithHost

/-- Make an announcement, and put it on record together with those that it causes. Hosts do nothing. -/
def raiseRecorded : Nat → Topic → Signal N → Run N A (List Topic) Unit
  | 0, _, _ => exhausted
  | fuel + 1, topic, signal => do
    modify fun n => n.withHost (n.host ++ [topic])
    ((← get).listeners topic).forM fun attached =>
      deliver Host.idle (raiseRecorded fuel) attached.listener signal

/-- The second run is the first one without its record. -/
def Erases (x : Run N A (List Topic) Unit) (y : Run N A σ Unit) : Prop :=
  ∀ n record, y n = (x (n.withHost record)).map fun r => (⟨⟩, r.2.withHost n.host)

namespace Erases

variable {x x' : Run N A (List Topic) Unit} {y y' : Run N A σ Unit}

theorem of_pure : Erases (pure ⟨⟩) (pure ⟨⟩ : Run N A σ Unit) := fun _ _ => rfl

/-- One run after another is without record if both are. -/
theorem bind (h : Erases x y) (h' : Erases x' y') : Erases (do x; x') (do y; y') := by
  intro n record
  cases hx : x (n.withHost record) with
  | none =>
    have hy : y n = none := by rw [h n record, hx]; rfl
    change Option.bind (y n) _ = Option.map _ (Option.bind (x (n.withHost record)) _)
    rw [hy, hx]
    rfl
  | some r =>
    obtain ⟨_, m⟩ := r
    have hy : y n = some (⟨⟩, m.withHost n.host) := by rw [h n record, hx]; rfl
    rw [bind_apply hy, bind_apply hx]
    exact h' (m.withHost n.host) m.host

/-- Nothing is done for a node that is gone, with a record or without. -/
theorem present (h : Erases x y) (topic : Topic) : Erases (do if (← get).isPresent topic then x)
    (do if (← get).isPresent topic then y) := by
  intro n record
  rw [get_bind_apply, get_bind_apply]
  rw [isPresent_withHost]
  split
  · exact h n record
  · rfl

theorem forM {β : Type} {f : β → Run N A (List Topic) Unit} {g : β → Run N A σ Unit}
    (h : ∀ b, Erases (f b) (g b)) : ∀ l : List β, Erases (l.forM f) (l.forM g)
  | [] => .of_pure
  | b :: l => by
    rw [List.forM_eq_forM, List.forM_cons, List.forM_eq_forM, List.forM_cons]
    exact (h b).bind (forM h l)

end Erases

section Erases

variable {record : Topic → Signal N → Run N A (List Topic) Unit}
  {raise : Topic → Signal N → Run N A σ Unit}
  (h : ∀ topic, Erases (record topic .changed) (raise topic .changed))
include h

theorem erases_announce (topic : Topic) :
    Erases (announce record topic) (announce raise topic) := by
  intro n log
  unfold announce
  rw [get_bind_apply, get_bind_apply]
  have hholds : (n.withHost log).buffer.holds = n.buffer.holds := rfl
  rw [hholds]
  split
  · rfl
  · exact h topic n log

theorem erases_invalidate (id : Nat) : Erases (invalidate record id) (invalidate raise id) := by
  intro n log
  unfold invalidate
  rw [get_bind_apply, get_bind_apply]
  have hcached : (n.withHost log).cached? id = n.cached? id := rfl
  rw [hcached]
  cases n.cached? id with
  | none => rfl
  | some c =>
    dsimp only
    rw [modify_bind_apply, modify_bind_apply]
    split
    · exact ((h (.received id)).bind (erases_announce h (.changed id))) _ log
    · rfl

/-- Calling a listener is what it is without its record. -/
theorem erases_deliver (listener : Listener A) :
    Erases (deliver Host.idle record listener .changed) (deliver Host.idle raise listener .changed) := by
  cases listener with
  | invalidate id => exact (erases_invalidate h id).present _
  | relay id => exact (h (.changed id)).present _
  | follow id => exact (h (.changed id)).present _
  | host action => exact .of_pure

end Erases

theorem erases_raise : ∀ (fuel : Nat) (topic : Topic), Erases (raiseRecorded fuel topic .changed)
    (raise Host.idle fuel topic .changed : Run N A σ Unit)
  | 0, _ => fun _ _ => rfl
  | fuel + 1, topic => by
    intro n log
    exact Erases.forM (fun attached => erases_deliver (erases_raise fuel) attached.listener)
      (n.listeners topic) n (log ++ [topic])

/-! ## What is paid for -/

/-- Whether no listener makes a node announce a change. -/
def IsUntold (n : Network N A σ) (d : Nat) : Prop :=
  ∀ topic, ∀ attached ∈ n.listeners topic, attached.listener ≠ .relay d ∧ attached.listener ≠ .follow d

theorem IsUntold.of_listeners {τ : Type} {n : Network N A σ} {n' : Network N A τ} {d : Nat}
    (h : n.IsUntold d) (hlisteners : ∀ topic, n'.listeners topic = n.listeners topic) : n'.IsUntold d :=
  fun topic attached ha => h topic attached (hlisteners topic ▸ ha)

/-- What is put on record is paid for by cached nodes that were observed: once they announce that their
value was dropped, they are observed no more, and with each such announcement they make the one for hosts
unless that is held back. -/
structure Pays (n n' : Network N A (List Topic)) (caused : List Topic) : Prop where
  record : n'.host = n.host ++ caused
  listeners : ∀ topic, n'.listeners topic = n.listeners topic
  holds : n'.buffer.holds = n.buffer.holds
  received : ∀ d, caused.count (.received d) + (n'.isObserved d).toNat = (n.isObserved d).toNat
  changed : ∀ d, n.IsUntold d →
    caused.count (.changed d) = if n.buffer.holds then 0 else caused.count (.received d)

section Pays

variable {n n' m : Network N A (List Topic)} {caused caused' : List Topic}

theorem Pays.refl (n : Network N A (List Topic)) : Pays n n [] :=
  ⟨(List.append_nil _).symm, fun _ => rfl, rfl, fun _ => Nat.zero_add _, fun _ _ => by simp⟩

theorem Pays.trans (h : Pays n m caused) (h' : Pays m n' caused') : Pays n n' (caused ++ caused') where
  record := by rw [h'.record, h.record, List.append_assoc]
  listeners topic := (h'.listeners topic).trans (h.listeners topic)
  holds := h'.holds.trans h.holds
  received d := by
    rw [List.count_append, ← h.received d, ← h'.received d]
    omega
  changed d hd := by
    rw [List.count_append, List.count_append, h.changed d hd,
      h'.changed d (hd.of_listeners h.listeners), h.holds]
    split <;> omega

/-- An announcement that is passed on is paid for if those that it causes are. -/
theorem Pays.relayed {id : Nat} (h : Pays (n.withHost (n.host ++ [.changed id])) n' caused)
    (hid : ¬ n.IsUntold id) : Pays n n' (.changed id :: caused) where
  record := h.record.trans (List.append_assoc ..)
  listeners topic := (h.listeners topic).trans (n.listeners_withHost _ topic)
  holds := h.holds
  received d := by simpa using h.received d
  changed d hd := by
    have hne : Topic.changed id ≠ .changed d := fun heq => by
      cases heq
      exact hid hd
    rw [List.count_cons_of_ne hne, List.count_cons_of_ne (by simp)]
    exact h.changed d (hd.of_listeners (n.listeners_withHost _))

/-- What a cached node announces to hosts is held back, or it is put on record with what it causes. -/
structure PaysAnnounced (n n' : Network N A (List Topic)) (id : Nat) (caused : List Topic) : Prop where
  record : n'.host = n.host ++ caused
  listeners : ∀ topic, n'.listeners topic = n.listeners topic
  holds : n'.buffer.holds = n.buffer.holds
  received : ∀ d, caused.count (.received d) + (n'.isObserved d).toNat = (n.isObserved d).toNat
  changed : ∀ d, n.IsUntold d → caused.count (.changed d)
    = if n.buffer.holds then 0 else caused.count (.received d) + if d = id then 1 else 0

/-- A cached node that was observed pays for its announcements with that. -/
theorem PaysAnnounced.dropped {id : Nat} (h' : PaysAnnounced m n' id caused')
    (hobserved : n.isObserved id)
    (h : Pays ((n.dim [id] n.notices).withHost (n.host ++ [.received id])) m caused) : Pays n n' (.received id :: (caused ++ caused')) where
  record := by
    rw [h'.record, h.record, List.append_assoc]
    exact List.append_assoc ..
  listeners topic := by rw [h'.listeners, h.listeners, listeners_withHost, listeners_dim]
  holds := h'.holds.trans h.holds
  received d := by
    have hd := h.received d
    have hd' := h'.received d
    rw [isObserved_withHost, isObserved_dim] at hd
    rw [List.count_cons, List.count_append]
    by_cases heq : d = id
    · subst heq
      simp only [hobserved, List.mem_singleton, decide_true, Bool.not_true, Bool.and_false,
        Bool.toNat_false, beq_self_eq_true, if_true, Bool.toNat_true] at hd ⊢
      omega
    · have hne : (Topic.received id == .received d) = false := by simpa using Ne.symm heq
      simp only [List.mem_singleton, heq, decide_false, Bool.not_false, Bool.and_true] at hd
      rw [hne]
      simp only [Bool.false_eq_true, if_false]
      omega
  changed d hd := by
    have hlisteners (topic : Topic) : ((n.dim [id] n.notices).withHost
        (n.host ++ [.received id])).listeners topic = n.listeners topic := by
      rw [listeners_withHost, listeners_dim]
    have hm : m.IsUntold d := (hd.of_listeners hlisteners).of_listeners h.listeners
    have hholds : m.buffer.holds = n.buffer.holds := h.holds
    have hcount := h.changed d (hd.of_listeners hlisteners)
    have hcount' := h'.changed d hm
    change _ = if n.buffer.holds then 0 else _ at hcount
    rw [hholds] at hcount'
    rw [List.count_cons_of_ne (by simp), List.count_append, hcount, hcount', List.count_cons,
      List.count_append]
    by_cases hhold : n.buffer.holds
    · simp [hhold]
    · by_cases heq : d = id
      · subst heq
        simp [hhold]
        omega
      · have hne : ¬ id = d := fun h => heq h.symm
        simp [hhold, heq, hne]

end Pays

/-- Announcements are paid for with what they cause. -/
def RecordsPaid (record : Topic → Signal N → Run N A (List Topic) Unit) : Prop :=
  ∀ topic (n : Network N A (List Topic)), Leads False (record topic .changed) n fun _ n' =>
    ∃ caused, Pays (n.withHost (n.host ++ [topic])) n' caused

section Record

variable {record : Topic → Signal N → Run N A (List Topic) Unit} (h : RecordsPaid record)
  (n : Network N A (List Topic))
include h

theorem RecordsPaid.announce (id : Nat) : Leads False (announce record (.changed id)) n fun _ n' =>
    ∃ caused, PaysAnnounced n n' id caused := by
  refine .get_bind ?_
  split
  · next hholds =>
    refine .of_modify ⟨[], (List.append_nil _).symm, fun topic => ?_, ?_, fun d => Nat.zero_add _,
      fun d _ => ?_⟩
    · cases topic <;> rfl
    · simp only [Buffer.hold]
      split <;> rfl
    · simp [hholds]
  · next hholds =>
    refine (h (.changed id) n).weaken ?_
    rintro _ n' ⟨caused, hcaused⟩
    refine ⟨.changed id :: caused, hcaused.record.trans (List.append_assoc ..), fun topic => ?_,
      hcaused.holds, fun d => ?_, fun d hd => ?_⟩
    · exact (hcaused.listeners topic).trans (n.listeners_withHost _ topic)
    · simpa using hcaused.received d
    · have hcount := hcaused.changed d (hd.of_listeners (n.listeners_withHost _))
      change _ = if n.buffer.holds then 0 else _ at hcount
      rw [if_neg hholds] at hcount ⊢
      rw [List.count_cons, List.count_cons_of_ne (by simp), hcount]
      by_cases heq : d = id
      · simp [heq]
      · have hne : ¬ id = d := fun h => heq h.symm
        simp [heq, hne]

/-- A cached node pays for what it causes when it drops its value. -/
theorem RecordsPaid.invalidate (id : Nat) : Leads False (invalidate record id) n fun _ n' =>
    ∃ caused, Pays n n' caused := by
  refine .get_bind ?_
  cases hc : n.cached? id with
  | none => exact .of_pure ⟨[], .refl n⟩
  | some c =>
    have hobserved : n.isObserved id = c.observed := by
      rw [isObserved, flags?_of_cached hc]
      rfl
    refine .modify_bind ?_
    rw [modifyCached_dropped]
    split
    · next hc' =>
      refine (h (.received id) _).bind ?_
      rintro _ m ⟨caused, hcaused⟩
      refine (h.announce m id).weaken ?_
      rintro _ n' ⟨caused', hcaused'⟩
      exact ⟨_, hcaused'.dropped (hobserved.trans hc') hcaused⟩
    · next hc' =>
      -- a node that was not observed drops its value and announces nothing
      refine .of_pure ⟨[], (List.append_nil _).symm, n.listeners_dim [id] n.notices, rfl, fun d => ?_,
        fun d _ => by simp⟩
      rw [isObserved_dim]
      by_cases heq : d = id
      · subst heq
        simp [hobserved, hc']
      · simp [heq]

/-- Calling a listener pays for what that causes. -/
theorem RecordsPaid.deliver {topic : Topic} {attached : Attached A}
    (hattached : attached ∈ n.listeners topic) :
    Leads False (deliver Host.idle record attached.listener .changed) n fun _ n' =>
      ∃ caused, Pays n n' caused := by
  have hpass {id : Nat} (hid : attached.listener = .relay id ∨ attached.listener = .follow id) :
      Leads False (record (.changed id) .changed) n fun _ n' => ∃ caused, Pays n n' caused := by
    refine (h (.changed id) n).weaken ?_
    rintro _ n' ⟨caused, hcaused⟩
    refine ⟨_, hcaused.relayed fun huntold => ?_⟩
    exact hid.elim (huntold topic attached hattached).1 (huntold topic attached hattached).2
  have hskip : Leads False (pure ⟨⟩ : Run N A (List Topic) Unit) n fun _ n' => ∃ caused, Pays n n' caused :=
    .of_pure ⟨[], .refl n⟩
  obtain ⟨token, listener⟩ := attached
  cases listener with
  | invalidate id =>
    refine .get_bind ?_
    split
    · exact h.invalidate n id
    · exact hskip
  | relay id =>
    refine .get_bind ?_
    split
    · exact hpass (.inl rfl)
    · exact hskip
  | follow id =>
    refine .get_bind ?_
    split
    · exact hpass (.inr rfl)
    · exact hskip
  | host action => exact hskip

omit n in
/-- Calling listeners one after another pays for what that causes. -/
theorem RecordsPaid.deliver_all {topic : Topic} (all : List (Attached A)) :
    ∀ n : Network N A (List Topic), (∀ attached ∈ all, attached ∈ n.listeners topic) →
      Leads False (all.forM fun attached =>
        Network.deliver Host.idle record attached.listener .changed) n
        fun _ n' => ∃ caused, Pays n n' caused := by
  induction all with
  | nil => exact fun n _ => .of_pure ⟨[], .refl n⟩
  | cons attached all ih =>
    intro n hall
    rw [List.forM_eq_forM, List.forM_cons]
    refine (h.deliver n (hall attached List.mem_cons_self)).bind ?_
    rintro _ m ⟨caused, hcaused⟩
    refine (ih m fun a ha => ?_).weaken ?_
    · exact hcaused.listeners topic ▸ hall a (List.mem_cons_of_mem _ ha)
    · rintro _ n' ⟨caused', hcaused'⟩
      exact ⟨_, hcaused.trans hcaused'⟩

end Record

/-- Cached nodes pay for what they announce in a cascade, however the nodes are wired. -/
theorem pays_raise : ∀ fuel : Nat, RecordsPaid (raiseRecorded (N := N) (A := A) fuel)
  | 0, _, _ => ⟨False.elim, nofun⟩
  | fuel + 1, topic, n => by
    refine .modify_bind (.get_bind ?_)
    exact (pays_raise fuel).deliver_all _ _ fun _ h => h

/-! ## What a cascade leaves behind -/

section Dim

variable (n : Network N A σ) (heard : List Nat) (left : Notices σ)

/-- A node that heard of nothing is left as it is. -/
theorem getElem?_dim_of_notMem {id : Nat} (h : id ∉ heard) :
    (n.dim heard left).nodes[id]? = n.nodes[id]? := by
  change (n.nodes.mapIdx _)[id]? = _
  rw [Array.getElem?_mapIdx]
  cases n.nodes[id]? with
  | none => rfl
  | some node =>
    obtain ⟨body, listeners, gone⟩ := node
    cases body <;> simp [Node.mapBody, Body.relight, h, CachedNode.withFlags, CachedNode.flags]

/-- A cached node that heard of a change drops its value, and is observed no more. -/
theorem cached?_dim_of_mem {id : Nat} {c : CachedNode N A} (hc : n.cached? id = some c)
    (h : id ∈ heard) : (n.dim heard left).cached? id
      = some { c with cache := none, observed := false, stale := c.stale || c.guard.entered } := by
  rw [cached?_eq_some_iff] at hc ⊢
  change (n.mapBodies _).body? id = _
  rw [body?_mapBodies, hc]
  simp [Body.relight, h, CachedNode.withFlags, CachedNode.flags, Flags.dropped]

end Dim

variable {n : Network N A σ} {topic : Topic}

/-- Only cached nodes hear of changes. -/
theorem Typed.exists_cached_of_hears (hn : n.Typed) {c : Nat} (h : n.Hears topic c) :
    ∃ k, n.cached? c = some k := by
  induction h with
  | @here topic token c h =>
    have hfits := hn.fits h
    cases topic with
    | changed i =>
      obtain ⟨k, hk, -⟩ := kind?_eq_cached_iff.mp hfits.2
      exact ⟨k, hk⟩
    | _ => exact hfits.elim
  | beyond _ _ _ ih | relayed _ _ ih => exact ih

/-- Nobody makes a cached node announce a change but the node itself. -/
theorem Typed.isUntold (hn : n.Typed) {d inner : Nat} (hd : n.kind? d = some (.cached inner)) :
    n.IsUntold d := by
  intro topic attached h
  have hfits := hn.fits h
  constructor
  · intro hrelay
    rw [hrelay] at hfits
    cases topic <;> simp [Fits, IsFormula, IsAggregate, hd] at hfits
  · intro hfollow
    rw [hfollow] at hfits
    cases topic <;> simp [Fits, hd] at hfits

/-- Nothing is heard of an announcement for hosts. -/
theorem Outward.not_hears (h : n.Outward topic) (c : Nat) : ¬ n.Hears topic c := by
  rw [Hears.iff_hearsBy]
  rintro ⟨attached, hattached, hby⟩
  have houtward := h attached hattached
  obtain ⟨token, listener⟩ := attached
  cases listener with
  | relay j =>
    obtain ⟨attached', hattached', hby'⟩ := Hears.iff_hearsBy.mp hby
    have hnode := houtward.2 attached' hattached'
    obtain ⟨token', listener'⟩ := attached'
    cases listener' with
    | host action => exact hby'
    | _ => cases hnode
  | host action => exact hby
  | _ => exact houtward

/-- What is announced of a cached node, or of one that is wrapped, is for hosts. -/
theorem Typed.inward_or_outward (hn : n.Typed) (htopic : ∀ c, topic ≠ .members c) :
    n.Inward topic ∨ n.Outward topic := by
  cases topic with
  | changed d =>
    cases hd : n.kind? d with
    | none => exact .inl ⟨htopic, by rintro _ _ ⟨⟩; simp [hd], by rintro _ _ ⟨⟩; simp [hd]⟩
    | some kind =>
      cases kind with
      | cached inner => exact .inr (hn.outward_cached hd)
      | wrapped inner =>
        refine .inr fun attached h => ?_
        have hnode := hn.listeners_wrapped hd attached h
        obtain ⟨token, listener⟩ := attached
        cases listener with
        | host action => trivial
        | _ => cases hnode
      | _ => exact .inl ⟨htopic, by rintro _ _ ⟨⟩; simp [hd], by rintro _ _ ⟨⟩; simp [hd]⟩
  | _ => exact .inl ⟨htopic, by simp, by simp⟩

/-- What a cascade leaves behind that starts with an announcement of a change and causes those on
record. -/
structure Cascaded (n : Network N A σ) (topic : Topic) (caused : List Topic) (n' : Network N A σ) :
    Prop where
  /-- Cached nodes that the cascade reaches are without a value, and they are observed no more. -/
  heard : ∀ i, n.Hears topic i → ∃ c, n.cached? i = some c ∧ n'.cached? i
    = some { c with cache := none, observed := false, stale := c.stale || c.guard.entered }
  /-- All other nodes are as they were. -/
  others : ∀ i, ¬ n.Hears topic i → n'.nodes[i]? = n.nodes[i]?
  /-- Nothing else changes but what is held back. -/
  rest : n' = { n with
    nodes := n'.nodes, buffer := { n.buffer with pending := n'.buffer.pending } }
  /-- Each cached node announces that its value was dropped at most once. -/
  once : ∀ d, caused.count (.received d) ≤ 1
  /-- It does so if the cascade reaches it and it was observed. -/
  received : ∀ d, .received d ∈ caused ↔ n.Hears topic d ∧ n.isObserved d
  /-- With that it makes the announcement for hosts, unless these are held back. -/
  at_once : n.buffer.holds = false → n'.buffer.pending = n.buffer.pending
    ∧ ∀ d c, n.cached? d = some c → caused.count (.changed d) = caused.count (.received d)
  /-- If they are, each of them is held back once. -/
  held : n.buffer.holds = true → (∀ d c, n.cached? d = some c → .changed d ∉ caused)
    ∧ (∀ t, t ∈ n'.buffer.pending
      ↔ t ∈ n.buffer.pending ∨ ∃ d, t = .changed d ∧ n.Hears topic d ∧ n.isObserved d)
    ∧ (n.buffer.pending.Nodup → n'.buffer.pending.Nodup)

theorem emit_apply (host : Host N A σ) (topic : Topic) (signal : Signal N) (n : Network N A σ) :
    emit host topic signal n = raise host n.cascadeBound topic signal n := get_bind_apply _ n

/-- An announcement that is not for a collection dims just the nodes that hear it. -/
theorem emit_idle_changed (hn : n.Typed) (htopic : ∀ c, topic ≠ .members c) :
    ∃ n', emit Host.idle topic .changed n = some (⟨⟩, n')
      ∧ n.Dims (fun _ state => state) (n.Hears topic) n' := by
  rcases hn.inward_or_outward htopic with hinward | houtward
  · obtain ⟨_, n', hrun, hdims⟩ := (emit_changed Host.quiet_idle hn hinward).exists_eq
    exact ⟨n', hrun, hdims⟩
  · have hidle : tellAll (fun _ state => state) (n.reports topic) n.host = n.host := by
      unfold tellAll
      induction n.reports topic with
      | nil => rfl
      | cons _ _ ih => exact ih
    obtain ⟨fuel, hfuel⟩ : ∃ fuel, n.cascadeBound = fuel + 2 :=
      ⟨n.cascadeBound - 2, by unfold cascadeBound; omega⟩
    refine ⟨n, ?_, [], n.notices, n.dim_nil_notices.symm, .refl _ n, fun c => ?_⟩
    · rw [emit, get_bind_apply, hfuel, houtward.raise_eq Host.quiet_idle, hidle]
    · simpa using houtward.not_hears c

/-- An announcement of a change ends, however the nodes are wired, and it reaches just the cached nodes
that hear it. They are left without a value and observed no more, and those of them that were observed
before announced so just once. -/
theorem emit_cascade (hn : n.Typed) (htopic : ∀ c, topic ≠ .members c) (record : List Topic) :
    ∃ n' caused, emit Host.idle topic .changed n = some (⟨⟩, n')
      ∧ raiseRecorded n.cascadeBound topic .changed (n.withHost record)
        = some (⟨⟩, n'.withHost (record ++ topic :: caused))
      ∧ n.Cascaded topic caused n' := by
  obtain ⟨n', hrun, ids, left, hdim, ⟨announcers, -, hannouncers, htold⟩, hids⟩ :=
    emit_idle_changed hn htopic
  rw [emit_apply] at hrun ⊢
  generalize n.cascadeBound = fuel at hrun ⊢
  have herased := erases_raise fuel topic n record
  rw [hrun] at herased
  obtain ⟨⟨_, m⟩, hrecorded, hm⟩ := Option.map_eq_some_iff.mp herased.symm
  obtain rfl : m.withHost n.host = n' := congrArg Prod.snd hm
  obtain ⟨caused, hpays⟩ := (pays_raise fuel topic (n.withHost record)).partly hrecorded
  -- a node is observed no more if it was reached, and it has paid with that
  have hcount (d : Nat) : caused.count (.received d) = (n.isObserved d && decide (d ∈ ids)).toNat := by
    have hpaid := hpays.received d
    have hleft : m.isObserved d = (n.isObserved d && !decide (d ∈ ids)) := by
      rw [← isObserved_dim n ids left, ← hdim]
      rfl
    rw [hleft] at hpaid
    simp only [isObserved_withHost] at hpaid
    revert hpaid
    cases n.isObserved d <;> by_cases hd : d ∈ ids <;> simp [hd]
  have hreceived (d : Nat) : .received d ∈ caused ↔ n.Hears topic d ∧ n.isObserved d := by
    rw [← List.count_pos_iff, hcount, ← hids]
    cases n.isObserved d <;> by_cases hd : d ∈ ids <;> simp [hd]
  have hchanged (d : Nat) (c : CachedNode N A) (hc : n.cached? d = some c) : caused.count (.changed d)
      = if n.buffer.holds then 0 else caused.count (.received d) := by
    have huntold := hn.isUntold (kind?_eq_cached_iff.mpr ⟨c, hc, rfl⟩)
    exact hpays.changed d (huntold.of_listeners fun t => by simp)
  refine ⟨_, caused, hrun, hrecorded.trans ?_, ?_⟩
  · have hlog : m.host = record ++ topic :: caused := hpays.record.trans (List.append_assoc ..)
    rw [← hlog]
    rfl
  refine ⟨fun i hi => ?_, fun i hi => ?_, ?_, fun d => ?_, hreceived,
    fun hholds => ⟨?_, fun d c hc => ?_⟩, fun hholds => ⟨fun d c hc => ?_, fun t => ?_, ?_⟩⟩
  · obtain ⟨c, hc⟩ := hn.exists_cached_of_hears hi
    exact ⟨c, hc, hdim ▸ n.cached?_dim_of_mem ids left hc ((hids i).mpr hi)⟩
  · rw [hdim]
    exact n.getElem?_dim_of_notMem ids left fun h => hi ((hids i).mp h)
  · have hhost : n.host = left.host := congrArg Network.host hdim
    rw [hdim, hhost]
    rfl
  · rw [hcount]
    exact Bool.toNat_le _
  · rw [hdim]
    exact (htold.at_once hholds).1
  · rw [hchanged d c hc, if_neg (by simp [hholds])]
  · rw [← List.count_pos_iff, hchanged d c hc, if_pos hholds]
    exact lt_irrefl 0
  · rw [hdim, show t ∈ (n.dim ids left).buffer.pending ↔ _ from (htold.held hholds).2.1 t]
    refine or_congr_right (exists_congr fun d => ?_)
    rw [hannouncers, hids, and_comm]
  · rw [hdim]
    exact (htold.held hholds).2.2

/-- Listeners fit in every network that a host can get to, whatever it reads and whatever fails. -/
theorem typed_of_visited [Number N] {host : Host N A σ} {tell : A → σ → σ} (hhost : host.Aloof tell)
    (h : Calculator.Visited host n) : n.Typed := (h.rests hhost).inv.wired.typed

/-- A modifier of a stat that reads the total of the stat leaves a cycle of subscriptions behind when the
total is read: it hears of its own announcement. The cascade ends all the same, and the total announces
just once that its value was dropped. -/
theorem circular_cascade_ends : ∃ (n n' : Network Float Unit Unit) (caused : List Topic),
    Calculator.Visited Host.idle n ∧ n.isObserved 5 ∧ n.Hears (.received 5) 5
      ∧ emit Host.idle (.received 5) .changed n = some (⟨⟩, n') ∧ n.Cascaded (.received 5) caused n'
      ∧ caused.count (.received 5) = 1 := by
  let life : Stat Float := ⟨⟨"Life", .character⟩, none, none, .double, false, []⟩
  let m : Modifier Float := ⟨[life], .baseAdd, .total life, 0, ⟨.global, ""⟩⟩
  let read : Calculator.Call Float Unit := .value life .total Path.main
  have hfacts : ((addModifier Host.idle m (Calculator.start .standard none () : Network Float Unit Unit)).bind
      fun r => read.run Host.idle r.2).map (fun r => (r.2.isObserved 5,
        (emit Host.idle (.received 5) .changed r.2).map fun r' => r'.2.isObserved 5))
        = some (true, some false) := by
    decide +kernel
  obtain ⟨⟨_, n⟩, hruns, hobserved⟩ := Option.map_eq_some_iff.mp hfacts
  obtain ⟨⟨_, n₁⟩, hadd, hread⟩ := Option.bind_eq_some_iff.mp hruns
  obtain ⟨hbefore, hafter⟩ := Prod.mk.inj hobserved
  have hadded : Calculator.Visited Host.idle n₁ := by
    have hsound : (Calculator.Call.add m : Calculator.Call Float Unit).Sound
        (Calculator.start .standard none () : Network Float Unit Unit) := trivial
    exact .call (.start .standard none ()) hsound hadd
  have hvisited : Calculator.Visited Host.idle n := by
    have hsound : read.Sound n₁ := trivial
    exact .call hadded hsound hread
  obtain ⟨n', caused, hemit, -, hcascaded⟩ := emit_cascade (typed_of_visited Host.aloof_idle hvisited)
    (fun c => nofun : ∀ c, Topic.received 5 ≠ .members c) []
  obtain ⟨r, hr, hdropped⟩ := Option.map_eq_some_iff.mp hafter
  rw [hemit] at hr
  obtain rfl := Option.some.inj hr
  have hhears : n.Hears (.received 5) 5 := by
    by_contra hnot
    have hsame : n'.isObserved 5 = n.isObserved 5 := by
      rw [isObserved, flags?, body?, hcascaded.others 5 hnot, ← body?, ← flags?, ← isObserved]
    rw [hdropped, hbefore] at hsame
    cases hsame
  have hcount := hcascaded.once 5
  have hpos := List.count_pos_iff.mpr ((hcascaded.received 5).mpr ⟨hhears, hbefore⟩)
  exact ⟨n, n', caused, hvisited, hbefore, hhears, hemit, hcascaded, by omega⟩

end StatEngine.Network
