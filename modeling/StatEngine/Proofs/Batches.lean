import Mathlib.Data.Set.List
import StatEngine.Proofs.Removal

/-!
# Batches

While a batch runs, announcements to hosts are held back, each topic once. When the batch ends they are
made, in the order they came. So hosts are told once of every cached node that made an announcement
during the batch, and for what the network is concerned a batch is what runs in it.

## Main statements

* `leads_batch`: a batch keeps the invariant if what runs in it does.
-/

namespace StatEngine.Network

variable {N A σ : Type} {sc : Regime N} {n m : Network N A σ}

/-- What hosts are told at once. -/
theorem Told.of_at_once {tell : A → σ → σ} {ds : List Nat} (h : n.buffer.holds = false) {state : σ}
    (hstate : n.Unwatched →
      state = tellAll tell (ds.flatMap fun d => n.callbacks (.changed d)) n.host) :
    n.Told tell ds ⟨n.buffer.pending, state⟩ where
  held h' := by
    rw [h] at h'
    cases h'
  at_once _ := ⟨rfl, hstate⟩
  silent hwatch hds := by
    rw [hstate hwatch, hds]
    rfl

/-- No batch is running. -/
structure Calm (n : Network N A σ) : Prop where
  depth : n.buffer.depth = 0
  pending : n.buffer.pending = []

theorem Calm.holds (h : n.Calm) : n.buffer.holds = false := by
  rw [Buffer.holds, Buffer.isBuffering, h.depth]
  simp

theorem Proceeds.calm (h : n.Proceeds m) (hn : n.Calm) : m.Calm :=
  ⟨h.depth.trans hn.depth, (h.at_once hn.holds).trans hn.pending⟩

section Flush

section Buffers

variable (n) (buffer : Buffer) (state : σ)

theorem Outward.withBuffer {topic : Topic} (h : n.Outward topic) :
    (n.withBuffer buffer state).Outward topic := by
  cases topic <;> exact h

@[simp]
theorem reports_withBuffer (topic : Topic) : (n.withBuffer buffer state).reports topic = n.reports topic := by
  cases topic <;> rfl

end Buffers

variable {host : Host N A σ} {tell : A → σ → σ} (hhost : host.Quiet tell)

include hhost

/-- An announcement for hosts that is made at once. -/
theorem Outward.emit_eq {topic : Topic} (h : n.Outward topic) (buffer : Buffer) (state : σ) :
    emit host topic .changed (n.withBuffer buffer state)
      = some (⟨⟩, n.withBuffer buffer (tellAll tell (n.reports topic) state)) := by
  have hraise := (h.withBuffer n buffer state).raise_eq hhost
    ((n.withBuffer buffer state).cascadeBound - 2)
  rw [Nat.sub_add_cancel (by simp only [cascadeBound]; omega), reports_withBuffer] at hraise
  exact (get_bind_apply _ _).trans hraise

/-- Announcements for hosts that are made one after another. -/
theorem forM_emit_eq (buffer : Buffer) {topics : List Topic} (h : ∀ t ∈ topics, n.Outward t)
    (state : σ) :
    (topics.forM fun topic => emit host topic .changed) (n.withBuffer buffer state)
      = some (⟨⟩, n.withBuffer buffer (tellAll tell (topics.flatMap n.reports) state)) := by
  induction topics generalizing state with
  | nil => rfl
  | cons topic topics ih =>
    rw [List.forM_eq_forM, List.forM_cons, List.flatMap_cons, tellAll_append]
    refine (bind_apply ((h topic List.mem_cons_self).emit_eq hhost buffer state)).trans ?_
    exact ih (fun t ht => h t (List.mem_cons_of_mem _ ht)) _

/-- After the outermost batch hosts are told of what was held back, and nothing is held back. -/
theorem flush_eq (buffer : Buffer) (h : ∀ t ∈ buffer.pending, n.Outward t) (state : σ) (fuel : Nat) :
    flush host (fuel + 2) (n.withBuffer buffer state)
      = some (⟨⟩, n.withBuffer { buffer with pending := [] }
        (tellAll tell (buffer.pending.flatMap n.reports) state)) := by
  have hempty (state : σ) (fuel : Nat) :
      flush host (fuel + 1) (n.withBuffer { buffer with pending := [] } state)
        = some (⟨⟩, n.withBuffer { buffer with pending := [] } state) := by
    rw [flush, get_bind_apply, modify_bind_apply]
    rfl
  rw [flush, get_bind_apply, modify_bind_apply]
  cases hpending : buffer.pending with
  | nil =>
    obtain ⟨enabled, depth, pending⟩ := buffer
    obtain rfl : pending = [] := hpending
    rfl
  | cons topic pending =>
    have htold := forM_emit_eq hhost { buffer with pending := [] } (hpending ▸ h) state
    have hrest := hempty (tellAll tell ((topic :: pending).flatMap n.reports) state) fuel
    have hne : (n.withBuffer buffer state).buffer.pending = topic :: pending := hpending
    rw [hne]
    exact (bind_apply htold).trans hrest

/-- What hosts are told of after a batch is what they would have been told of meanwhile, once. -/
theorem Changes.of_batch (hcalm : n.Calm) (hn : m.Typed) {depth : Nat} (hdepth : 0 < depth)
    (h : (n.withBuffer { n.buffer with depth := depth } n.host).Changes tell m) (fuel : Nat) :
    ∃ state, flush host (fuel + 2) (m.withBuffer { m.buffer with depth := 0 } m.host)
        = some (⟨⟩, m.withBuffer n.buffer state) ∧ n.Changes tell (m.withBuffer n.buffer state) := by
  obtain ⟨ds, hnodup, hds, htold⟩ := h.announced
  replace hds (d : Nat) : d ∈ ds ↔ n.isObserved d ∧ m.isObserved d = false := hds d
  have henabled : m.buffer.enabled = n.buffer.enabled := h.enabled
  have hbuffer (pending : List Topic) (hpending : pending = []) :
      (⟨m.buffer.enabled, 0, pending⟩ : Buffer) = n.buffer := by
    rw [henabled, ← hcalm.depth, hpending, ← hcalm.pending]
  -- what is held back are announcements of cached nodes
  have hpending : ∀ t ∈ m.buffer.pending, ∃ id inner, t = .changed id
      ∧ m.kind? id = some (.cached inner) := by
    intro t ht
    refine (h.to_hosts t ht).resolve_left fun hold => ?_
    have : t ∈ n.buffer.pending := hold
    simp [hcalm.pending] at this
  have houtward : ∀ t ∈ m.buffer.pending, m.Outward t := by
    intro t ht
    obtain ⟨id, inner, rfl, hid⟩ := hpending t ht
    exact hn.outward_cached hid
  have hflush := flush_eq hhost { m.buffer with depth := 0 } houtward m.host fuel
  have hstate (hwatch : n.Unwatched) :
      m.buffer.pending.flatMap m.reports = m.buffer.pending.flatMap m.callbacks := by
    refine List.flatMap_congr fun t ht => ?_
    obtain ⟨id, inner, rfl, hid⟩ := hpending t ht
    exact (h.toProceeds.unwatched hwatch).reports_cached hn hid
  refine ⟨_, hflush.trans (by rw [← hbuffer [] rfl]), ?_⟩
  refine ⟨⟨⟨rfl, rfl, fun _ => rfl, fun t ht => .inl ht⟩, h.kind, h.entered, h.callbacks⟩, h.unread,
    ?_, h.kept, h.loose, ⟨h.records.recorded, h.records.unrecorded⟩⟩
  have hcallbacks : m.callbacks = n.callbacks := funext h.callbacks
  cases hbuffered : n.buffer.enabled with
  | true =>
    -- the hosts are told in the order in which announcements came to be held back
    have hholds : (n.withBuffer { n.buffer with depth := depth } n.host).buffer.holds = true := by
      simp [withBuffer, Buffer.holds, Buffer.isBuffering, hbuffered, hdepth]
    obtain ⟨hhost', hheld, hnodup'⟩ := htold.held hholds
    obtain ⟨ds', hds'⟩ : m.buffer.pending ∈ Set.range (List.map Topic.changed) := by
      rw [Set.range_list_map]
      intro t ht
      obtain ⟨id, _, heq, _⟩ := hpending t ht
      exact ⟨id, heq.symm⟩
    have hmem (d : Nat) : d ∈ ds' ↔ n.isObserved d ∧ m.isObserved d = false := by
      rw [← hds d, ← List.mem_map_of_injective (f := Topic.changed) fun _ _ => Topic.changed.inj, hds']
      refine (hheld _).trans ⟨fun hd => ?_, fun hd => .inr ⟨d, hd, rfl⟩⟩
      obtain hd | ⟨d', hd, heq⟩ := hd
      · have : Topic.changed d ∈ n.buffer.pending := hd
        simp [hcalm.pending] at this
      · exact Topic.changed.inj heq ▸ hd
    refine ⟨ds', ?_, hmem, ?_⟩
    · have hempty : n.buffer.pending.Nodup := hcalm.pending ▸ List.nodup_nil
      have hall : m.buffer.pending.Nodup := hnodup' hempty
      exact .of_map Topic.changed (hds' ▸ hall)
    · refine Told.of_at_once hcalm.holds fun hwatch => ?_
      have hhost' : m.host = n.host := hhost' hwatch
      change tellAll tell (m.buffer.pending.flatMap m.reports) m.host = _
      rw [hstate hwatch, ← hds', List.flatMap_map, hcallbacks, hhost']
  | false =>
    have hholds : (n.withBuffer { n.buffer with depth := depth } n.host).buffer.holds = false := by
      simp [withBuffer, Buffer.holds, hbuffered]
    obtain ⟨hpending', hhost'⟩ := htold.at_once hholds
    have hpending' : m.buffer.pending = [] := hpending'.trans hcalm.pending
    refine ⟨ds, hnodup, hds, ?_⟩
    refine Told.of_at_once hcalm.holds fun hwatch => ?_
    rw [hpending']
    exact hhost' hwatch

/-- A batch keeps the invariant if what runs in it does, and tells hosts of what happened in it. -/
theorem leads_batch [Number N] {α : Type} {body : Run N A σ α} (post : α → Registry N → Prop)
    (hcalm : n.Calm)
    (hbody : Leads True body (n.withBuffer { n.buffer with depth := 1 } n.host) fun a m => m.Inv sc
      ∧ (n.withBuffer { n.buffer with depth := 1 } n.host).Changes tell m ∧ post a m.registry) :
    Leads True (batch host body) n fun a n' => n'.Inv sc ∧ n.Changes tell n' ∧ post a n'.registry := by
  refine .modify_bind ?_
  rw [hcalm.depth]
  refine hbody.bind fun a m ⟨hinv, hchanges, hpost⟩ => .modify_bind (.get_bind ?_)
  have hdepth : m.buffer.depth = 1 := hchanges.depth
  rw [hdepth]
  obtain ⟨state, hflush, hchanges'⟩ := hchanges.of_batch hhost hcalm hinv.wired.typed Nat.one_pos
    ((m.withBuffer { m.buffer with depth := 0 } m.host).cascadeBound - 2)
  rw [Nat.sub_add_cancel (by simp only [cascadeBound]; omega)] at hflush
  refine .get_bind (.eq_bind hflush ?_)
  exact .of_pure ⟨hinv.withBuffer _ _, hchanges', hpost⟩

end Flush

end StatEngine.Network
