import StatEngine.Proofs.Batches

/-!
# What a batch coalesces

A caller of the network makes announcements for hosts, and runs batches that may contain other batches
(`Script`). What happens to the host meanwhile is a list of moments: the caller sees to the state of the
host itself, or the host is told of an announcement. If batches hold announcements back, then no host is
told of anything before the outermost batch ends, and then each topic that was announced in it is told
once, in the order of its first announcement (`coalesce`). Otherwise every announcement is told at once.

## Main statements

* `Script.run_eq`: how a script runs, whether batches hold announcements back or not;
* `batch_coalesces`: what an outermost batch does.
-/

namespace StatEngine.Network

variable {N A σ : Type}

/-! ## Scripts -/

/-- What a caller of a network does. -/
inductive Script (σ : Type) where
  /-- Nothing more. -/
  | done
  /-- The caller sees to the state of the host. -/
  | own (f : σ → σ) (rest : Script σ)
  /-- An announcement for hosts, which a batch may hold back. -/
  | announce (topic : Topic) (rest : Script σ)
  /-- A batch. -/
  | batch (inner rest : Script σ)

namespace Script

/-- Run a script. -/
def run (host : Host N A σ) : Script σ → Run N A σ Unit
  | done => pure ()
  | own f rest => do
    modify fun n => { n with host := f n.host }
    rest.run host
  | announce topic rest => do
    Network.announce (emit host) topic
    rest.run host
  | batch inner rest => do
    Network.batch host (inner.run host)
    rest.run host

/-- The topics that a script announces, in order. -/
def topics : Script σ → List Topic
  | done => []
  | own _ rest => rest.topics
  | announce topic rest => topic :: rest.topics
  | batch inner rest => inner.topics ++ rest.topics

/-- What a script itself makes of the state of the host. -/
def settle : Script σ → σ → σ
  | done, state => state
  | own f rest, state => rest.settle (f state)
  | announce _ rest, state => rest.settle state
  | batch inner rest, state => rest.settle (inner.settle state)

end Script

/-! ## Moments -/

/-- What may happen to a host. -/
inductive Moment (σ : Type) where
  /-- The caller sees to the state of the host. -/
  | own (f : σ → σ)
  /-- The host is told of an announcement. -/
  | told (topic : Topic)

/-- The state of the host after one moment, where `reports` is what the host is told by a topic. -/
def Moment.apply (tell : A → σ → σ) (reports : Topic → List (Nat × A)) (state : σ) : Moment σ → σ
  | own f => f state
  | told topic => tellAll tell (reports topic) state

/-- The state of the host after several moments. -/
def replay (tell : A → σ → σ) (reports : Topic → List (Nat × A)) (moments : List (Moment σ))
    (state : σ) : σ :=
  moments.foldl (Moment.apply tell reports) state

/-- What happens to the host in a batch that holds announcements back: the caller does all that it does
to the host, and then the host is told once of each topic, in the order of first announcement. -/
def coalesce (script : Script σ) : List (Moment σ) :=
  .own script.settle :: script.topics.eraseDups.map .told

namespace Script

/-- What happens to the host if announcements are not held back. -/
def atOnce : Script σ → List (Moment σ)
  | done => []
  | own f rest => .own f :: rest.atOnce
  | announce topic rest => .told topic :: rest.atOnce
  | batch inner rest => inner.atOnce ++ rest.atOnce

/-- What happens to the host if no batch is running yet and batches hold announcements back. -/
def buffered : Script σ → List (Moment σ)
  | done => []
  | own f rest => .own f :: rest.buffered
  | announce topic rest => .told topic :: rest.buffered
  | batch inner rest => coalesce inner ++ rest.buffered

/-- The host is told of the topics that a script announces. -/
theorem told_mem_atOnce {topic : Topic} :
    ∀ script : Script σ, Moment.told topic ∈ script.atOnce ↔ topic ∈ script.topics
  | done => by simp [atOnce, topics]
  | own f rest => by simpa [atOnce, topics] using told_mem_atOnce rest
  | announce t rest => by simp [atOnce, topics, told_mem_atOnce rest]
  | batch inner rest => by
    simp [atOnce, topics, told_mem_atOnce inner, told_mem_atOnce rest]

theorem told_mem_coalesce {topic : Topic} {script : Script σ} :
    Moment.told topic ∈ coalesce script ↔ topic ∈ script.topics := by
  simp [coalesce]

end Script

section Replay

variable {tell : A → σ → σ} {reports : Topic → List (Nat × A)}

theorem replay_append (moments moments' : List (Moment σ)) (state : σ) :
    replay tell reports (moments ++ moments') state
      = replay tell reports moments' (replay tell reports moments state) :=
  List.foldl_append

theorem replay_told (topics : List Topic) (state : σ) :
    replay tell reports (topics.map .told) state = tellAll tell (topics.flatMap reports) state := by
  induction topics generalizing state with
  | nil => rfl
  | cons topic topics ih =>
    rw [List.flatMap_cons, tellAll_append]
    exact ih _

end Replay

/-! ## The order of first announcement -/

/-- A topic that is announced again is not held back again. -/
theorem eraseDups_concat (past : List Topic) (topic : Topic) :
    (past ++ [topic]).eraseDups
      = if topic ∈ past then past.eraseDups else past.eraseDups ++ [topic] := by
  by_cases h : topic ∈ past <;> simp [List.eraseDups_append, List.eraseDups_cons, List.removeAll, h]

/-- What a buffer holds back is what was announced, if it was before. -/
theorem Buffer.hold_eraseDups (enabled : Bool) (depth : Nat) (past : List Topic) (topic : Topic) :
    Buffer.hold ⟨enabled, depth, past.eraseDups⟩ topic
      = ⟨enabled, depth, (past ++ [topic]).eraseDups⟩ := by
  by_cases h : topic ∈ past <;> simp [Buffer.hold, eraseDups_concat, h]

/-- Without repetitions, topics are in the order in which they occur first. -/
theorem pairwise_eraseDups (topics : List Topic) :
    topics.eraseDups.Pairwise fun t t' => topics.idxOf t < topics.idxOf t' := by
  induction topics using List.reverseRecOn with
  | nil => simp
  | append_singleton past topic ih =>
    have hbefore {t : Topic} (ht : t ∈ past.eraseDups) : (past ++ [topic]).idxOf t = past.idxOf t :=
      List.idxOf_append_of_mem (List.mem_eraseDups.mp ht)
    have hpast : past.eraseDups.Pairwise
        fun t t' => (past ++ [topic]).idxOf t < (past ++ [topic]).idxOf t' :=
      ih.imp_of_mem fun ht ht' h => by rwa [hbefore ht, hbefore ht']
    rw [eraseDups_concat]
    split
    · exact hpast
    · next hnew =>
      refine List.pairwise_append.mpr ⟨hpast, List.pairwise_singleton _ _, fun t ht t' ht' => ?_⟩
      obtain rfl := List.mem_singleton.mp ht'
      rw [hbefore ht, List.idxOf_append_of_notMem hnew]
      exact Nat.lt_add_right _ (List.idxOf_lt_length_of_mem (List.mem_eraseDups.mp ht))

/-! ## Runs -/

/-- Nobody but hosts listens to the announcements of the host. -/
theorem Typed.outward_named {n : Network N A σ} (hn : n.Typed) (event : Nat) :
    n.Outward (.named event) := by
  intro attached h
  have hfits := hn.fits h
  obtain ⟨token, listener⟩ := attached
  cases listener with
  | host action => trivial
  | _ => exact hfits.elim

/-- The buffer while no batch is running. -/
theorem Calm.buffer_eq {n : Network N A σ} (hn : n.Calm) {enabled : Bool} (h : n.buffer.enabled = enabled) :
    n.buffer = ⟨enabled, 0, []⟩ := by
  obtain ⟨hdepth, hpending⟩ := hn
  cases hb : n.buffer
  simp_all

section Runs

variable {host : Host N A σ} {tell : A → σ → σ} (hhost : host.Quiet tell) {n : Network N A σ}

include hhost

/-- An announcement for hosts is made at once if it is not held back. -/
theorem Outward.announce_eq {topic : Topic} (h : n.Outward topic) {buffer : Buffer}
    (hholds : buffer.holds = false) (state : σ) :
    announce (emit host) topic (n.withBuffer buffer state)
      = some (⟨⟩, n.withBuffer buffer (tellAll tell (n.reports topic) state)) := by
  have hholds' : (n.withBuffer buffer state).buffer.holds = false := hholds
  rw [announce, get_bind_apply, hholds']
  exact h.emit_eq hhost buffer state

omit hhost in
/-- A batch inside another one comes to what runs in it. -/
theorem batch_inner {depth : Nat} {body : Run N A σ Unit} {enabled : Bool} {pending pending' : List Topic}
    {state state' : σ}
    (hbody : body (n.withBuffer ⟨enabled, depth + 2, pending⟩ state)
      = some (⟨⟩, n.withBuffer ⟨enabled, depth + 2, pending'⟩ state')) :
    batch host body (n.withBuffer ⟨enabled, depth + 1, pending⟩ state)
      = some (⟨⟩, n.withBuffer ⟨enabled, depth + 1, pending'⟩ state') := by
  rw [batch, modify_bind_apply]
  exact (bind_apply hbody).trans rfl

/-- An outermost batch comes to what runs in it, and hosts are told of what was held back. -/
theorem batch_outermost {body : Run N A σ Unit} {enabled : Bool} {pending : List Topic}
    {state state' : σ} (h : ∀ t ∈ pending, n.Outward t)
    (hbody : body (n.withBuffer ⟨enabled, 1, []⟩ state)
      = some (⟨⟩, n.withBuffer ⟨enabled, 1, pending⟩ state')) :
    batch host body (n.withBuffer ⟨enabled, 0, []⟩ state)
      = some (⟨⟩, n.withBuffer ⟨enabled, 0, []⟩
        (tellAll tell (pending.flatMap n.reports) state')) := by
  rw [batch, modify_bind_apply]
  refine (bind_apply hbody).trans ?_
  rw [modify_bind_apply, get_bind_apply]
  have hflush := flush_eq hhost ⟨enabled, 0, pending⟩ h state'
    ((n.withBuffer ⟨enabled, 0, pending⟩ state').cascadeBound - 2)
  rw [Nat.sub_add_cancel (by simp only [cascadeBound]; omega)] at hflush
  exact (bind_apply hflush).trans rfl

namespace Script

omit hhost in
/-- While a batch runs that holds announcements back, nobody is told of anything, and what is held back
is what was announced since the outermost batch began. -/
theorem run_held {depth : Nat} (script : Script σ) (past : List Topic) (state : σ) :
    script.run host (n.withBuffer ⟨true, depth + 1, past.eraseDups⟩ state)
      = some (⟨⟩, n.withBuffer ⟨true, depth + 1, (past ++ script.topics).eraseDups⟩
        (script.settle state)) := by
  induction script generalizing depth past state with
  | done => rw [topics, List.append_nil]; rfl
  | own f rest ih =>
    rw [run, modify_bind_apply]
    exact ih past (f state)
  | announce topic rest ih =>
    have hhold : Network.announce (emit host) topic
        (n.withBuffer ⟨true, depth + 1, past.eraseDups⟩ state)
        = some (⟨⟩, n.withBuffer ⟨true, depth + 1, (past ++ [topic]).eraseDups⟩ state) := by
      rw [← Buffer.hold_eraseDups]
      rfl
    rw [run, topics, List.append_cons]
    exact (bind_apply hhold).trans (ih _ _)
  | batch inner rest ihinner ihrest =>
    rw [run, topics, ← List.append_assoc]
    refine (bind_apply (batch_inner (ihinner past state))).trans ?_
    exact ihrest _ _

/-- Hosts are told what an outermost batch coalesces, where batches hold announcements back. -/
theorem batch_held (script : Script σ) (h : ∀ t ∈ script.topics, n.Outward t) (state : σ) :
    Network.batch host (script.run host) (n.withBuffer ⟨true, 0, []⟩ state)
      = some (⟨⟩, n.withBuffer ⟨true, 0, []⟩ (replay tell n.reports (coalesce script) state)) := by
  rw [coalesce, replay, List.foldl_cons, ← replay, replay_told]
  exact batch_outermost hhost (fun t ht => h t (List.mem_eraseDups.mp ht))
    (script.run_held [] state)

/-- Where batches hold nothing back, every announcement is told at once. -/
theorem run_atOnce (depth : Nat) (script : Script σ) (h : ∀ t ∈ script.topics, n.Outward t) (state : σ) :
    script.run host (n.withBuffer ⟨false, depth, []⟩ state)
      = some (⟨⟩, n.withBuffer ⟨false, depth, []⟩
        (replay tell n.reports script.atOnce state)) := by
  induction script generalizing depth state with
  | done => rfl
  | own f rest ih =>
    rw [run, modify_bind_apply]
    exact ih depth h (f state)
  | announce topic rest ih =>
    rw [topics, List.forall_mem_cons] at h
    rw [run]
    refine (bind_apply (h.1.announce_eq hhost ?_ state)).trans (ih depth h.2 _)
    simp [Buffer.holds]
  | batch inner rest ihinner ihrest =>
    rw [topics, List.forall_mem_append] at h
    have hbatch : Network.batch host (inner.run host) (n.withBuffer ⟨false, depth, []⟩ state)
        = some (⟨⟩, n.withBuffer ⟨false, depth, []⟩ (replay tell n.reports inner.atOnce state)) := by
      cases depth with
      | zero => exact batch_outermost hhost (by simp) (ihinner 1 h.1 state)
      | succ depth => exact batch_inner (ihinner (depth + 2) h.1 state)
    rw [run, atOnce, replay_append]
    exact (bind_apply hbatch).trans (ihrest depth h.2 _)

/-- Where batches hold announcements back, hosts are told what the outermost batches coalesce. -/
theorem run_buffered (script : Script σ) (h : ∀ t ∈ script.topics, n.Outward t) (state : σ) :
    script.run host (n.withBuffer ⟨true, 0, []⟩ state)
      = some (⟨⟩, n.withBuffer ⟨true, 0, []⟩ (replay tell n.reports script.buffered state)) := by
  induction script generalizing state with
  | done => rfl
  | own f rest ih =>
    rw [run, modify_bind_apply]
    exact ih h (f state)
  | announce topic rest ih =>
    rw [topics, List.forall_mem_cons] at h
    rw [run]
    refine (bind_apply (h.1.announce_eq hhost ?_ state)).trans (ih h.2 _)
    simp [Buffer.holds, Buffer.isBuffering]
  | batch inner rest ihinner ihrest =>
    rw [topics, List.forall_mem_append] at h
    rw [run, buffered, replay_append]
    exact (bind_apply (batch_held hhost inner h.1 state)).trans (ihrest h.2 _)

/-- What a script tells hosts if no batch is running yet: outside of batches announcements are told at
once, and an outermost batch is told as a whole if batches hold announcements back. -/
theorem run_eq (script : Script σ) (hn : n.Calm) (h : ∀ t ∈ script.topics, n.Outward t) :
    script.run host n = some (⟨⟩, n.withBuffer n.buffer (replay tell n.reports
      (if n.buffer.enabled then script.buffered else script.atOnce) n.host)) := by
  cases henabled : n.buffer.enabled with
  | true =>
    have hrun := run_buffered hhost script h n.host
    rwa [← hn.buffer_eq henabled] at hrun
  | false =>
    have hrun := run_atOnce hhost 0 script h n.host
    rwa [← hn.buffer_eq henabled] at hrun

end Script

/-- What the outermost batch does, where it calls batches and makes announcements for hosts in any order.
If batches hold announcements back, nobody is told of anything while it runs, and when it ends each topic
that was announced is told once, in the order of first announcement; otherwise announcements are told at
once. Afterwards no batch is running and nothing is held back, and hosts were told of the same topics. -/
theorem batch_coalesces (hn : n.Calm) (script : Script σ) (h : ∀ t ∈ script.topics, n.Outward t) :
    (n.buffer.enabled = true →
      script.run host (n.withBuffer { n.buffer with depth := 1 } n.host)
        = some (⟨⟩, n.withBuffer ⟨true, 1, script.topics.eraseDups⟩ (script.settle n.host)))
    ∧ (∃ n', Network.batch host (script.run host) n = some (⟨⟩, n')
      ∧ n' = n.withBuffer n.buffer (replay tell n.reports
        (if n.buffer.enabled then coalesce script else script.atOnce) n.host)
      ∧ n'.Calm)
    ∧ (script.topics.eraseDups.Pairwise fun t t' => script.topics.idxOf t < script.topics.idxOf t')
    ∧ ∀ topic, Moment.told topic ∈ coalesce script ↔ Moment.told topic ∈ script.atOnce := by
  refine ⟨fun henabled => ?_, ⟨_, ?_, rfl, ⟨hn.depth, hn.pending⟩⟩, pairwise_eraseDups _, fun topic => ?_⟩
  · rw [hn.buffer_eq henabled]
    exact script.run_held [] n.host
  · cases henabled : n.buffer.enabled with
    | true =>
      have hrun := script.batch_held hhost h n.host
      rwa [← hn.buffer_eq henabled] at hrun
    | false =>
      have hrun := batch_outermost hhost (by simp) (script.run_atOnce hhost 1 h n.host)
      rwa [← hn.buffer_eq henabled] at hrun
  · rw [Script.told_mem_coalesce, Script.told_mem_atOnce]

end Runs

/-- A host that keeps a list of what it was told. -/
def Host.logging : Host N A (List A) where
  notified := fun action _ => modify fun n => { n with host := n.host ++ [action] }
  supply := fun _ => pure (.value none)
  disposed := fun _ => pure ()
  note := fun _ => pure ()

theorem Host.quiet_logging : (Host.logging : Host N A (List A)).Quiet fun action log => log ++ [action] :=
  ⟨fun _ _ _ => rfl⟩

/-- A network with two announcements of the host, which the host listens to. -/
def withTwoEvents (enabled : Bool) : Network Nat Nat (List Nat) :=
  { Network.empty enabled none [] with events := #[[⟨0, .host 1⟩], [⟨1, .host 2⟩]] }

/-- One topic is announced before and in a batch in a batch, and another one in it; then the caller makes
a note. If announcements are held back, then the note comes first. -/
theorem nested_batches_coalesce :
    let script : Script (List Nat) := .announce (.named 1)
      (.batch (.announce (.named 0) (.announce (.named 1) .done)) (.own (· ++ [9]) .done))
    (batch .logging (script.run .logging) (withTwoEvents true)).map (·.2.host) = some [9, 2, 1]
      ∧ (batch .logging (script.run .logging) (withTwoEvents false)).map (·.2.host)
        = some [2, 1, 2, 9] := by
  intro script
  have houtward (enabled : Bool) : ∀ t ∈ script.topics, (withTwoEvents enabled).Outward t := by
    intro t ht
    obtain rfl | rfl | rfl : t = .named 1 ∨ t = .named 0 ∨ t = .named 1 := by
      simpa [script, Script.topics] using ht
    all_goals
      intro attached h
      obtain rfl := List.mem_singleton.mp h
      trivial
  have hruns (enabled : Bool) := (batch_coalesces Host.quiet_logging (n := withTwoEvents enabled)
    ⟨rfl, rfl⟩ script (houtward enabled)).2.1
  constructor
  · obtain ⟨n', hrun, rfl, -⟩ := hruns true
    rw [hrun]
    rfl
  · obtain ⟨n', hrun, rfl, -⟩ := hruns false
    rw [hrun]
    rfl

end StatEngine.Network
