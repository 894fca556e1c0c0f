import Mathlib.Data.Finset.Card
import Mathlib.Data.Finset.Range
import StatEngine.Network.Cascade
import StatEngine.Proofs.Outcome
import StatEngine.Proofs.Views

/-!
# What an announcement reaches

Listeners fit the topics they are attached to (`Typed`): formulas and aggregates pass announcements on,
and cached nodes drop their values. An announcement of a change is heard by every cached node that it
reaches through such listeners, where cached nodes on the way pass it on if they were observed
(`Hears`). It ends, and the cached nodes that hear it are dimmed; nothing else happens.

## Main statements

* `raise_changed`: an announcement of a change dims just the nodes that hear it;
* `emit_changed`: the bound of an announcement is large enough.
-/

namespace StatEngine.Network

variable {N A σ : Type}

/-- The flags of a cached node that heard of a change. -/
def Flags.dropped (flags : Flags N) : Flags N :=
  { flags with value := none, observed := false, stale := flags.stale || flags.entered }

@[simp]
theorem Flags.dropped_dropped (flags : Flags N) : flags.dropped.dropped = flags.dropped := by
  simp [dropped]

/-- What became of announcements to hosts: those that are held back, and the state of the host after it
was told of the others. -/
structure Notices (σ : Type) where
  /-- What is held back. -/
  pending : List Topic
  /-- The state of the host. -/
  host : σ

/-- What became of announcements to hosts so far. -/
def notices (n : Network N A σ) : Notices σ := ⟨n.buffer.pending, n.host⟩

/-- The network after cached nodes heard of a change, and hosts were told. -/
def dim (n : Network N A σ) (heard : List Nat) (left : Notices σ) : Network N A σ :=
  { n.relight (fun i flags => if i ∈ heard then flags.dropped else flags) with
    buffer := { n.buffer with pending := left.pending }
    host := left.host }

/-- Whether the node at a position evaluates a formula. -/
def IsFormula (n : Network N A σ) (id : Nat) : Prop :=
  ∃ source path, n.kind? id = some (.formula source path)

/-- Whether the node at a position combines a collection. -/
def IsAggregate (n : Network N A σ) (id : Nat) : Prop :=
  ∃ collection form, n.kind? id = some (.aggregate collection form)

/-- Who may listen to what. -/
def Fits (n : Network N A σ) : Topic → Listener A → Prop
  | .changed i, .invalidate c => n.IsFormula i ∧ n.kind? c = some (.cached i)
  | .changed i, .relay j =>
    n.IsAggregate i ∧ n.IsFormula j
      ∨ (∃ inner, n.kind? i = some (.cached inner)) ∧ n.kind? j = some (.wrapped i)
  | .received _, .relay j => n.IsFormula j ∨ n.IsAggregate j
  | .members c, .follow a => ∃ form, n.kind? a = some (.aggregate c form)
  | .paths _, .relay j => n.IsFormula j
  | .layers _, .relay j => n.IsFormula j
  | .changed _, .host _ | .received _, .host _ | .paths _, .host _ | .layers _, .host _
  | .listing, .host _ | .named _, .host _ => True
  | _, _ => False

/-- The node that a listener belongs to, unless it is one of the host. -/
def Listener.node? : Listener A → Option Nat
  | .invalidate id | .relay id | .follow id => some id
  | .host _ => none

/-- Listeners fit the topics they are attached to, and the nodes they belong to are there. -/
structure Typed (n : Network N A σ) : Prop where
  fits : ∀ {topic : Topic} {attached : Attached A}, attached ∈ n.listeners topic →
    n.Fits topic attached.listener
  present : ∀ {topic : Topic} {attached : Attached A}, attached ∈ n.listeners topic →
    ∀ id, attached.listener.node? = some id → n.isPresent (.changed id)

/-- What a listener may cause to be announced: a cached node that drops its value announces that only
if it was observed. -/
inductive Hears (n : Network N A σ) : Topic → Nat → Prop where
  | here {topic : Topic} {token c : Nat} (h : ⟨token, .invalidate c⟩ ∈ n.listeners topic) :
    Hears n topic c
  | beyond {topic : Topic} {token d c : Nat} (h : ⟨token, .invalidate d⟩ ∈ n.listeners topic)
    (observed : n.isObserved d) (rest : Hears n (.received d) c) : Hears n topic c
  | relayed {topic : Topic} {token i c : Nat} (h : ⟨token, .relay i⟩ ∈ n.listeners topic)
    (rest : Hears n (.changed i) c) : Hears n topic c

/-- What is heard because of one listener. -/
def HearsBy (n : Network N A σ) : Listener A → Nat → Prop
  | .invalidate d, c => c = d ∨ n.isObserved d ∧ n.Hears (.received d) c
  | .relay i, c => n.Hears (.changed i) c
  | _, _ => False

section Dim

variable (n : Network N A σ) (heard : List Nat) (left : Notices σ)

@[simp]
theorem kind?_dim (id : Nat) : (n.dim heard left).kind? id = n.kind? id :=
  n.kind?_relight id _

@[simp]
theorem listeners_dim (topic : Topic) :
    (n.dim heard left).listeners topic = n.listeners topic := n.listeners_relight _ topic

theorem notices_dim : (n.dim heard left).notices = left := rfl

@[simp]
theorem holds_dim : (n.dim heard left).buffer.holds = n.buffer.holds := rfl

@[simp]
theorem isPresent_dim (topic : Topic) :
    (n.dim heard left).isPresent topic = n.isPresent topic := n.isPresent_relight _ topic

@[simp]
theorem size_dim : (n.dim heard left).nodes.size = n.nodes.size := n.size_relight _

@[simp]
theorem flags?_dim (id : Nat) : (n.dim heard left).flags? id
    = (n.flags? id).map fun flags => if id ∈ heard then flags.dropped else flags :=
  n.flags?_relight id _

theorem isObserved_dim (id : Nat) :
    (n.dim heard left).isObserved id = (n.isObserved id && !decide (id ∈ heard)) := by
  simp only [isObserved, flags?_dim]
  cases n.flags? id with
  | none => rfl
  | some flags => by_cases h : id ∈ heard <;> simp [h, Flags.dropped]

theorem dim_dim (heard' : List Nat) (left' : Notices σ) :
    (n.dim heard left).dim heard' left' = n.dim (heard ++ heard') left' := by
  have : (n.relight fun i flags => if i ∈ heard then flags.dropped else flags).relight
      (fun i flags => if i ∈ heard' then flags.dropped else flags)
      = n.relight fun i flags => if i ∈ heard ++ heard' then flags.dropped else flags := by
    rw [relight_relight]
    congr 1
    funext i flags
    by_cases h : i ∈ heard <;> by_cases h' : i ∈ heard' <;> simp [h, h']
  exact congrArg (fun m : Network N A σ =>
    { m with buffer := { n.buffer with pending := left'.pending }, host := left'.host }) this

theorem dim_nil : n.dim [] left
    = { n with buffer := { n.buffer with pending := left.pending }, host := left.host } := by
  have : n.relight (fun i flags => if i ∈ ([] : List Nat) then flags.dropped else flags) = n := by
    simpa using n.relight_id
  exact congrArg (fun m : Network N A σ =>
    { m with buffer := { n.buffer with pending := left.pending }, host := left.host }) this

@[simp]
theorem dim_nil_notices : n.dim [] n.notices = n := n.dim_nil _

/-- Dropping the value of one cached node dims it. -/
theorem modifyCached_dropped (id : Nat) :
    (n.modifyCached id fun c =>
      { c with stale := c.stale || c.guard.entered, cache := none, observed := false })
      = n.dim [id] n.notices := by
  refine (n.modifyCached_eq_relight id (f := Flags.dropped) fun c => rfl).trans ?_
  have : n.relight (fun i flags => if i = id then flags.dropped else flags)
      = n.relight fun i flags => if i ∈ [id] then flags.dropped else flags := by
    simp only [List.mem_singleton]
  exact congrArg (fun m : Network N A σ => { m with buffer := n.buffer, host := n.host }) this

end Dim

theorem Fits.of_kind {n m : Network N A σ} (h : ∀ id, m.kind? id = n.kind? id) {topic : Topic}
    {listener : Listener A} (hfits : n.Fits topic listener) : m.Fits topic listener := by
  revert hfits
  cases topic <;> cases listener <;> simp only [Fits, IsFormula, IsAggregate, h, imp_self]

theorem Typed.dim {n : Network N A σ} (hn : n.Typed) (heard : List Nat) (left : Notices σ) :
    (n.dim heard left).Typed where
  fits h := (hn.fits (by simpa using h)).of_kind (by simp)
  present h id hid := by simpa using hn.present (by simpa using h) id hid

namespace Hears

variable {n : Network N A σ} {topic : Topic} {c : Nat}

theorem iff_hearsBy :
    n.Hears topic c ↔ ∃ attached ∈ n.listeners topic, n.HearsBy attached.listener c := by
  constructor
  · rintro (h | ⟨h, observed, rest⟩ | ⟨h, rest⟩)
    · exact ⟨_, h, .inl rfl⟩
    · exact ⟨_, h, .inr ⟨observed, rest⟩⟩
    · exact ⟨_, h, rest⟩
  · rintro ⟨⟨token, listener⟩, h, hby⟩
    cases listener with
    | invalidate d =>
      obtain rfl | ⟨observed, rest⟩ := hby
      · exact .here h
      · exact .beyond h observed rest
    | relay i => exact .relayed h hby
    | follow | host => exact hby.elim

/-- What a node that was observed announces is heard where the node is. -/
theorem trans {d : Nat} (h : n.Hears topic d) (observed : n.isObserved d)
    (rest : n.Hears (.received d) c) : n.Hears topic c := by
  induction h with
  | here h => exact .beyond h observed rest
  | beyond h observed' _ ih => exact .beyond h observed' (ih observed rest)
  | relayed h _ ih => exact .relayed h (ih observed rest)

theorem mono {m : Network N A σ} (hlisteners : ∀ t, m.listeners t = n.listeners t)
    (hobserved : ∀ i, m.isObserved i → n.isObserved i) (h : m.Hears topic c) :
    n.Hears topic c := by
  induction h with
  | here h => exact .here (hlisteners _ ▸ h)
  | beyond h observed _ ih => exact .beyond (hlisteners _ ▸ h) (hobserved _ observed) ih
  | relayed h _ ih => exact .relayed (hlisteners _ ▸ h) ih

theorem of_dim {heard : List Nat} {left : Notices σ}
    (h : (n.dim heard left).Hears topic c) : n.Hears topic c :=
  h.mono (by simp) fun i hi => by
    rw [isObserved_dim] at hi
    exact (Bool.and_eq_true_iff.mp hi).1

end Hears

theorem HearsBy.trans {n : Network N A σ} {listener : Listener A} {d c : Nat}
    (h : n.HearsBy listener d) (observed : n.isObserved d) (rest : n.Hears (.received d) c) :
    n.HearsBy listener c := by
  cases listener with
  | invalidate e =>
    obtain rfl | ⟨observed', h⟩ := h
    · exact .inr ⟨observed, rest⟩
    · exact .inr ⟨observed', h.trans observed rest⟩
  | relay i => exact Hears.trans h observed rest
  | follow | host => exact h.elim

/-- Nothing more is heard because of nodes that heard of a change already. -/
def Closed (n : Network N A σ) (heard : List Nat) : Prop :=
  ∀ d ∈ heard, n.isObserved d → ∀ c, n.Hears (.received d) c → c ∈ heard

/-- What is heard is heard already, or still heard, or heard because of the nodes dimmed last. -/
theorem Hears.dim_or {n : Network N A σ} {heard : List Nat} (hclosed : n.Closed heard)
    (last : List Nat) (left : Notices σ) {topic : Topic} {c : Nat} (h : n.Hears topic c) :
    c ∈ heard ++ last ∨ (n.dim (heard ++ last) left).Hears topic c
      ∨ ∃ d ∈ last, n.isObserved d ∧ (n.dim (heard ++ last) left).Hears (.received d) c := by
  induction h with
  | here h => exact .inr (.inl (.here (by simpa using h)))
  | @beyond topic token e c h observed rest ih =>
    by_cases he : e ∈ heard
    · exact .inl (List.mem_append_left last (hclosed e he observed c rest))
    obtain hc | hc | hc := ih
    · exact .inl hc
    · by_cases hlast : e ∈ last
      · exact .inr (.inr ⟨e, hlast, observed, hc⟩)
      · refine .inr (.inl (.beyond (by simpa using h) ?_ hc))
        rw [isObserved_dim]
        simp [observed, he, hlast]
    · exact .inr (.inr hc)
  | relayed h _ ih =>
    obtain hc | hc | hc := ih
    · exact .inl hc
    · exact .inr (.inl (.relayed (by simpa using h) hc))
    · exact .inr (.inr hc)

/-! ## Bounds -/

/-- A node that was observed passes on what still hears of it once it is dimmed itself. -/
theorem Closed.hearsBy_iff {n : Network N A σ} {heard : List Nat} (hclosed : n.Closed heard) {d : Nat}
    (hobs : n.isObserved d) (left : Notices σ) (c : Nat) :
    c ∈ heard ∨ n.HearsBy (.invalidate d) c
      ↔ c ∈ heard ∨ c = d ∨ (n.dim (heard ++ [d]) left).Hears (.received d) c := by
  constructor
  · rintro (hc | hc | ⟨-, hc⟩)
    · exact .inl hc
    · exact .inr (.inl hc)
    · obtain hc | hc | ⟨e, he, -, hc⟩ := hc.dim_or hclosed [d] left
      · simpa [or_assoc] using (.inl hc : c ∈ heard ++ [d] ∨ _)
      · exact .inr (.inr hc)
      · exact .inr (.inr (List.mem_singleton.mp he ▸ hc))
  · rintro (hc | hc | hc)
    · exact .inl hc
    · exact .inr (.inl hc)
    · exact .inr (.inr ⟨hobs, hc.of_dim⟩)


/-- How many announcements a change makes in each other before it reaches a cached node. -/
def height (n : Network N A σ) : Topic → Nat
  | .changed id =>
    match n.kind? id with
    | some (.aggregate ..) | some (.cached _) => 2
    | _ => 1
  | .received _ => 3
  | .paths _ | .layers _ => 2
  | _ => 1

/-- How many cached nodes were read since they last announced a change. -/
def observedCount (n : Network N A σ) : Nat :=
  ((Finset.range n.nodes.size).filter fun id => n.isObserved id).card

theorem height_dim (n : Network N A σ) (heard : List Nat) (left : Notices σ) (topic : Topic) :
    (n.dim heard left).height topic = n.height topic := by
  cases topic <;> simp [height]

theorem height_pos (n : Network N A σ) (topic : Topic) : 0 < n.height topic := by
  cases topic with
  | changed id => simp only [height]; split <;> omega
  | _ => simp [height]

theorem height_le (n : Network N A σ) (topic : Topic) : n.height topic ≤ 3 := by
  cases topic with
  | changed id => simp only [height]; split <;> omega
  | _ => simp [height]

theorem observedCount_dim_le (n : Network N A σ) (heard : List Nat) (left : Notices σ) :
    (n.dim heard left).observedCount ≤ n.observedCount := by
  refine Finset.card_le_card fun id hid => ?_
  simp only [Finset.mem_filter, isObserved_dim, size_dim, Bool.and_eq_true] at hid ⊢
  exact ⟨hid.1, hid.2.1⟩

/-- Observed nodes are among the nodes. -/
theorem lt_size_of_isObserved {n : Network N A σ} {id : Nat} (h : n.isObserved id) :
    id < n.nodes.size := by
  by_contra hid
  have : n.body? id = none := by simp [body?, Array.getElem?_eq_none (Nat.le_of_not_lt hid)]
  simp [isObserved, flags?, this] at h

/-- Observed nodes are cached. -/
theorem exists_kind?_of_isObserved {n : Network N A σ} {id : Nat} (h : n.isObserved id) :
    ∃ inner, n.kind? id = some (.cached inner) := by
  rw [isObserved, flags?] at h
  rw [kind?]
  cases hbody : n.body? id with
  | none => simp [hbody] at h
  | some body =>
    rw [hbody] at h
    cases body with
    | cached c => exact ⟨c.inner, rfl⟩
    | _ => simp [Body.flags?] at h

/-- A node that is dimmed is observed no more. -/
theorem observedCount_dim_lt {n : Network N A σ} {heard : List Nat} {left : Notices σ} {d : Nat}
    (hd : d ∈ heard) (observed : n.isObserved d) :
    (n.dim heard left).observedCount < n.observedCount := by
  refine Finset.card_lt_card (Finset.ssubset_iff_of_subset (fun id hid => ?_) |>.mpr ⟨d, ?_, ?_⟩)
  · simp only [Finset.mem_filter, isObserved_dim, size_dim, Bool.and_eq_true] at hid ⊢
    exact ⟨hid.1, hid.2.1⟩
  · simp [observed, lt_size_of_isObserved observed]
  · simp [isObserved_dim, hd]

/-! ## Announcements -/

theorem kind?_eq_cached_iff {n : Network N A σ} {id inner : Nat} :
    n.kind? id = some (.cached inner) ↔ ∃ c, n.cached? id = some c ∧ c.inner = inner := by
  simp only [cached?_eq_some_iff, kind?, Option.map_eq_some_iff]
  constructor
  · rintro ⟨body, hbody, hkind⟩
    cases body <;> simp [Body.kind] at hkind
    exact ⟨_, hbody, hkind⟩
  · rintro ⟨c, hc, rfl⟩
    exact ⟨_, hc, rfl⟩

theorem exists_kind?_of_lt (n : Network N A σ) {id : Nat} (h : id < n.nodes.size) :
    ∃ kind, n.kind? id = some kind := by
  simp [kind?, body?, h]

theorem lt_size_of_kind? {n : Network N A σ} {id : Nat} {kind : Kind N A}
    (h : n.kind? id = some kind) : id < n.nodes.size := by
  by_contra hid
  have : n.body? id = none := by simp [body?, Array.getElem?_eq_none (Nat.le_of_not_lt hid)]
  simp [kind?, this] at h

theorem flags?_of_cached {n : Network N A σ} {id : Nat} {c : CachedNode N A}
    (h : n.cached? id = some c) : n.flags? id = some c.flags := by
  rw [cached?_eq_some_iff] at h
  simp [flags?, h, Body.flags?]

/-- Announcements that are passed on come closer to cached nodes. -/
theorem Fits.relay {n : Network N A σ} {topic : Topic} {j : Nat} (h : n.Fits topic (.relay j)) :
    j < n.nodes.size ∧ n.height (.changed j) < n.height topic := by
  cases topic with
  | changed i =>
    obtain ⟨⟨collection, form, hi⟩, source, path, hj⟩ | ⟨⟨inner, hi⟩, hj⟩ := h
    · exact ⟨lt_size_of_kind? hj, by simp [height, hi, hj]⟩
    · exact ⟨lt_size_of_kind? hj, by simp [height, hi, hj]⟩
  | received i =>
    obtain ⟨source, path, hj⟩ | ⟨collection, form, hj⟩ := h
    · exact ⟨lt_size_of_kind? hj, by simp [height, hj]⟩
    · exact ⟨lt_size_of_kind? hj, by simp [height, hj]⟩
  | paths | layers =>
    obtain ⟨source, path, hj⟩ := h
    exact ⟨lt_size_of_kind? hj, by simp [height, hj]⟩
  | _ => exact h.elim

section Raising

/-- A host that takes note of what it is told, and does nothing else. -/
structure Host.Quiet (host : Host N A σ) (tell : A → σ → σ) : Prop where
  notified : ∀ action signal n, host.notified action signal n
    = some (⟨⟩, { n with host := tell action n.host })

theorem Host.quiet_idle : (Host.idle : Host N A σ).Quiet fun _ state => state := ⟨fun _ _ _ => rfl⟩

/-- The action of the host that a listener calls. -/
def Listener.action? : Listener A → Option A
  | .host action => some action
  | _ => none

/-- The token of a listener of the host, with the action it calls. -/
def Attached.callback? (attached : Attached A) : Option (Nat × A) :=
  attached.listener.action?.map (attached.token, ·)

/-- The listeners of the host that a topic calls. -/
def callbacks (n : Network N A σ) (topic : Topic) : List (Nat × A) :=
  (n.listeners topic).filterMap Attached.callback?

/-- Hosts listen to what cached nodes announce to them, and to nothing else. -/
def Unwatched (n : Network N A σ) : Prop :=
  ∀ topic, n.callbacks topic ≠ [] → ∃ i inner, topic = .changed i ∧ n.kind? i = some (.cached inner)

/-- Where a host listens to cached nodes alone, no topic that passes changes on calls it. -/
theorem Unwatched.callbacks_eq_nil {n : Network N A σ} (hn : n.Unwatched) {topic : Topic}
    (h : ∀ i inner, topic = .changed i → n.kind? i ≠ some (.cached inner)) :
    n.callbacks topic = [] := by
  by_contra hne
  obtain ⟨i, inner, rfl, hi⟩ := hn topic hne
  exact h i inner rfl hi

theorem unwatched_dim {n : Network N A σ} {heard : List Nat} {left : Notices σ} :
    (n.dim heard left).Unwatched ↔ n.Unwatched := by
  simp only [Unwatched, kind?_dim, callbacks, listeners_dim]

/-- The state of the host after several of its listeners were called. -/
def tellAll (tell : A → σ → σ) (calls : List (Nat × A)) (state : σ) : σ :=
  calls.foldl (fun state call => tell call.2 state) state

theorem tellAll_append (tell : A → σ → σ) (calls calls' : List (Nat × A)) (state : σ) :
    tellAll tell (calls ++ calls') state = tellAll tell calls' (tellAll tell calls state) :=
  List.foldl_append ..

/-- What became of announcements to hosts after cached nodes made some: a batch holds them back, and
otherwise the hosts were told at once. Those who listen to other things are told too. -/
structure Told (tell : A → σ → σ) (n : Network N A σ) (announcers : List Nat) (left : Notices σ) :
    Prop where
  held : n.buffer.holds = true → (n.Unwatched → left.host = n.host)
    ∧ (∀ t, t ∈ left.pending ↔ t ∈ n.buffer.pending ∨ ∃ d ∈ announcers, t = .changed d)
    ∧ (n.buffer.pending.Nodup → left.pending.Nodup)
  at_once : n.buffer.holds = false → left.pending = n.buffer.pending
    ∧ (n.Unwatched →
      left.host = tellAll tell (announcers.flatMap fun d => n.callbacks (.changed d)) n.host)
  silent : n.Unwatched → announcers = [] → left = n.notices

theorem Told.refl (tell : A → σ → σ) (n : Network N A σ) : n.Told tell [] n.notices :=
  ⟨fun _ => ⟨fun _ => rfl, fun t => by simp [notices], id⟩, fun _ => ⟨rfl, fun _ => rfl⟩,
    fun _ _ => rfl⟩

/-- Nothing is announced by cached nodes if nothing more is held back, and hosts that listen to cached
nodes alone are told of nothing. -/
theorem Told.of_pending {tell : A → σ → σ} {n : Network N A σ} {left : Notices σ}
    (hpending : left.pending = n.buffer.pending) (hhost : n.Unwatched → left.host = n.host) :
    n.Told tell [] left := by
  obtain ⟨pending, host⟩ := left
  obtain rfl : pending = n.buffer.pending := hpending
  refine ⟨fun _ => ⟨hhost, fun t => by simp, id⟩, fun _ => ⟨rfl, hhost⟩, fun hwatch _ => ?_⟩
  rw [notices, ← hhost hwatch]

theorem Told.trans {tell : A → σ → σ} {n m : Network N A σ} {ds ds' : List Nat} {left : Notices σ}
    (h : n.Told tell ds m.notices) (hholds : m.buffer.holds = n.buffer.holds)
    (hcallbacks : ∀ d ∈ ds', m.callbacks (.changed d) = n.callbacks (.changed d))
    (hunwatched : n.Unwatched → m.Unwatched) (h' : m.Told tell ds' left) : n.Told tell (ds ++ ds') left := by
  refine ⟨fun hn => ?_, fun hn => ?_, fun hwatch hn => ?_⟩
  · obtain ⟨hhost, hmem, hnodup⟩ := h.held hn
    obtain ⟨hhost', hmem', hnodup'⟩ := h'.held (hholds.trans hn)
    refine ⟨fun hwatch => (hhost' (hunwatched hwatch)).trans (hhost hwatch), fun t => ?_,
      fun hp => hnodup' (hnodup hp)⟩
    rw [hmem', show t ∈ m.buffer.pending ↔ _ from hmem t]
    simp only [List.mem_append, or_and_right, exists_or, or_assoc]
  · obtain ⟨hpending, hhost⟩ := h.at_once hn
    obtain ⟨hpending', hhost'⟩ := h'.at_once (hholds.trans hn)
    refine ⟨hpending'.trans hpending, fun hwatch => ?_⟩
    rw [hhost' (hunwatched hwatch), List.flatMap_append, tellAll_append, ← hhost hwatch]
    congr 1
    exact List.flatMap_congr hcallbacks
  · obtain ⟨hds, hds'⟩ := List.append_eq_nil_iff.mp hn
    exact (h'.silent (hunwatched hwatch) hds').trans (h.silent hwatch hds)

/-- Just the cached nodes that were observed make announcements to hosts when they are dimmed. -/
def Defers (tell : A → σ → σ) (n : Network N A σ) (heard : List Nat) (left : Notices σ) : Prop :=
  ∃ announcers : List Nat, announcers.Nodup ∧ (∀ d, d ∈ announcers ↔ d ∈ heard ∧ n.isObserved d)
    ∧ n.Told tell announcers left

theorem Defers.refl (tell : A → σ → σ) (n : Network N A σ) : n.Defers tell [] n.notices :=
  ⟨[], List.nodup_nil, by simp, .refl tell n⟩

theorem Defers.trans {tell : A → σ → σ} {n : Network N A σ} {heard heard' : List Nat}
    {left left' : Notices σ} (h : n.Defers tell heard left)
    (h' : (n.dim heard left).Defers tell heard' left') : n.Defers tell (heard ++ heard') left' := by
  obtain ⟨ds, hnodup, hmem, htold⟩ := h
  obtain ⟨ds', hnodup', hmem', htold'⟩ := h'
  refine ⟨ds ++ ds', List.nodup_append.mpr ⟨hnodup, hnodup', fun d hd d' hd' => ?_⟩, fun d => ?_,
    htold.trans (m := n.dim heard left) rfl (fun d _ => ?_) unwatched_dim.mpr htold'⟩
  · rintro rfl
    have := ((hmem' d).mp hd').2
    rw [isObserved_dim] at this
    simp [((hmem d).mp hd).1] at this
  · rw [List.mem_append, hmem, hmem', List.mem_append, isObserved_dim]
    by_cases hd : d ∈ heard <;> simp [hd]
  · rw [callbacks, listeners_dim, callbacks]

/-- What is told has nothing to do with which nodes were dimmed. -/
theorem Told.of_dim {tell : A → σ → σ} {n : Network N A σ} {ids ds : List Nat} {left : Notices σ}
    (h : (n.dim ids n.notices).Told tell ds left) : n.Told tell ds left := by
  refine ⟨fun hholds => ?_, fun hholds => ?_, fun hwatch => h.silent (unwatched_dim.mpr hwatch)⟩
  · exact (h.held hholds).imp_left fun hhost hwatch => hhost (unwatched_dim.mpr hwatch)
  · obtain ⟨hpending, hhost⟩ := h.at_once hholds
    refine ⟨hpending, fun hwatch => (hhost (unwatched_dim.mpr hwatch)).trans ?_⟩
    simp only [callbacks, listeners_dim]
    rfl

/-- A node that was observed makes its announcement after those that heard of it made theirs. -/
theorem Defers.announced {tell : A → σ → σ} {n : Network N A σ} {d : Nat} (hobs : n.isObserved d)
    {ids : List Nat} {left left' : Notices σ} (h : (n.dim [d] n.notices).Defers tell ids left)
    (htold : (n.dim ([d] ++ ids) left).Told tell [d] left') :
    n.Defers tell ([d] ++ ids) left' := by
  obtain ⟨ds, hnodup, hmem, htold'⟩ := h
  refine ⟨ds ++ [d], ?_, fun e => ?_, .trans (m := n.dim ([d] ++ ids) left) htold'.of_dim rfl
    (fun e _ => ?_) unwatched_dim.mpr htold⟩
  · refine List.nodup_append.mpr ⟨hnodup, List.nodup_singleton d, fun e he e' he' => ?_⟩
    rintro rfl
    have := ((hmem e).mp he).2
    rw [isObserved_dim, List.mem_singleton.mp he'] at this
    simp at this
  · rw [List.mem_append, List.mem_singleton, hmem, isObserved_dim]
    by_cases hed : e = d
    · simp [hed, hobs]
    · simp [hed]
  · rw [callbacks, listeners_dim, callbacks]

/-- An announcement of a change dims just the nodes that hear it. -/
def Dims (tell : A → σ → σ) (n : Network N A σ) (heard : Nat → Prop) (n' : Network N A σ) : Prop :=
  ∃ ids left, n' = n.dim ids left ∧ n.Defers tell ids left ∧ ∀ c, c ∈ ids ↔ heard c

/-- A topic that passes changes on between nodes. -/
structure Inward (n : Network N A σ) (topic : Topic) : Prop where
  members : ∀ c, topic ≠ .members c
  cached : ∀ d inner, topic = .changed d → n.kind? d ≠ some (.cached inner)
  wrapped : ∀ d inner, topic = .changed d → n.kind? d ≠ some (.wrapped inner)

theorem Inward.dim {n : Network N A σ} {topic : Topic} (h : n.Inward topic) (heard : List Nat)
    (left : Notices σ) : (n.dim heard left).Inward topic :=
  ⟨h.members, fun d inner hd => by rw [kind?_dim]; exact h.cached d inner hd,
    fun d inner hd => by rw [kind?_dim]; exact h.wrapped d inner hd⟩

theorem inward_paths (n : Network N A σ) (set : Nat) : n.Inward (.paths set) :=
  ⟨by simp, by simp, by simp⟩

theorem inward_layers (n : Network N A σ) (formula : Nat) : n.Inward (.layers formula) :=
  ⟨by simp, by simp, by simp⟩

/-- An announcement with a bound that is large enough for it. -/
def RaisesWithin (host : Host N A σ) (tell : A → σ → σ) (fuel : Nat) : Prop :=
  ∀ (topic : Topic) (n : Network N A σ), n.Typed → n.Inward topic →
    n.height topic + 3 * n.observedCount ≤ fuel →
    Leads True (raise host fuel topic .changed) n fun _ => n.Dims tell (n.Hears topic)

variable {host : Host N A σ} {tell : A → σ → σ} (hhost : host.Quiet tell)

/-- Nobody is called by a topic without listeners. -/
theorem raise_of_nil {n : Network N A σ} {topic : Topic} (h : n.listeners topic = []) (fuel : Nat)
    (signal : Signal N) : raise host (fuel + 1) topic signal n = some (⟨⟩, n) := by
  rw [raise, get_bind_apply, h]
  rfl

/-- A topic that nobody but hosts listens to tells them. -/
theorem raise_hosts (hhost : host.Quiet tell) {n : Network N A σ} {topic : Topic}
    (h : ∀ attached ∈ n.listeners topic, attached.listener.node? = none) (fuel : Nat)
    (signal : Signal N) : raise host (fuel + 1) topic signal n
      = some (⟨⟩, { n with host := tellAll tell (n.callbacks topic) n.host }) := by
  rw [raise, get_bind_apply, callbacks]
  have hall : ∀ (all : List (Attached A)) (state : σ), (∀ a ∈ all, a ∈ n.listeners topic) →
      (all.forM fun attached => deliver host (raise host fuel) attached.listener signal)
        { n with host := state } = some (⟨⟩, { n with
          host := tellAll tell (all.filterMap Attached.callback?) state }) := by
    intro all
    induction all with
    | nil => exact fun _ _ => rfl
    | cons attached all ih =>
      intro state hmem
      rw [List.forM_eq_forM, List.forM_cons]
      have hnode := h attached (hmem attached List.mem_cons_self)
      obtain ⟨token, listener⟩ := attached
      cases listener with
      | host action =>
        exact (bind_apply (hhost.notified ..)).trans
          (ih _ fun a ha => hmem a (List.mem_cons_of_mem _ ha))
      | _ => cases hnode
  exact hall _ n.host fun _ h => h

/-- Nobody but hosts listens to what is wrapped for them. -/
theorem Typed.listeners_wrapped {n : Network N A σ} (hn : n.Typed) {i inner : Nat}
    (hi : n.kind? i = some (.wrapped inner)) :
    ∀ attached ∈ n.listeners (.changed i), attached.listener.node? = none := by
  intro attached h
  have hfits := hn.fits h
  cases hl : attached.listener with
  | host action => rfl
  | _ => simp [hl, Fits, IsFormula, IsAggregate, hi] at hfits

/-- Nobody but hosts listens to what is listed for them. -/
theorem Typed.listeners_listing {n : Network N A σ} (hn : n.Typed) :
    ∀ attached ∈ n.listeners .listing, attached.listener.node? = none := by
  intro attached h
  have hfits := hn.fits h
  cases hl : attached.listener with
  | host action => rfl
  | _ => simp [hl, Fits] at hfits

theorem Typed.not_hears_listing {n : Network N A σ} (hn : n.Typed) (c : Nat) :
    ¬ n.Hears .listing c := by
  rw [Hears.iff_hearsBy]
  rintro ⟨attached, h, hby⟩
  have hnode := hn.listeners_listing attached h
  cases hl : attached.listener with
  | host action => exact absurd hby (by simp [hl, HearsBy])
  | _ => simp [hl, Listener.node?] at hnode

/-- What a host is told because of one listener, directly or by the node that passes it on. -/
def reportsBy (n : Network N A σ) (attached : Attached A) : List (Nat × A) :=
  match attached.listener with
  | .host action => [(attached.token, action)]
  | .relay j => n.callbacks (.changed j)
  | _ => []

/-- What a host is told by an announcement at a topic. -/
def reports (n : Network N A σ) (topic : Topic) : List (Nat × A) :=
  (n.listeners topic).flatMap n.reportsBy

/-- Whether a listener is one of the host, or passes what it is told on to nobody else. -/
def OutwardBy (n : Network N A σ) (attached : Attached A) : Prop :=
  match attached.listener with
  | .host _ => True
  | .relay j => n.isPresent (.changed j)
      ∧ ∀ attached' ∈ n.listeners (.changed j), attached'.listener.node? = none
  | _ => False

/-- Whether an announcement is for hosts alone. -/
def Outward (n : Network N A σ) (topic : Topic) : Prop :=
  ∀ attached ∈ n.listeners topic, n.OutwardBy attached

/-- A listener that passes what it is told on to hosts tells them. -/
theorem OutwardBy.deliver_eq (hhost : host.Quiet tell) {n : Network N A σ} {attached : Attached A}
    (h : n.OutwardBy attached) (fuel : Nat) :
    deliver host (raise host (fuel + 1)) attached.listener .changed n
      = some (⟨⟩, { n with host := tellAll tell (n.reportsBy attached) n.host }) := by
  obtain ⟨token, listener⟩ := attached
  cases listener with
  | host action => exact hhost.notified ..
  | relay j =>
    obtain ⟨hpresent, hlisteners⟩ := h
    rw [deliver, get_bind_apply, if_pos hpresent]
    exact raise_hosts hhost hlisteners fuel .changed
  | _ => exact h.elim

/-- An announcement for hosts tells them, and nobody else. -/
theorem Outward.raise_eq (hhost : host.Quiet tell) {n : Network N A σ} {topic : Topic}
    (h : n.Outward topic) (fuel : Nat) :
    raise host (fuel + 2) topic .changed n
      = some (⟨⟩, { n with host := tellAll tell (n.reports topic) n.host }) := by
  rw [raise, get_bind_apply, reports]
  have hall : ∀ (all : List (Attached A)) (state : σ), (∀ a ∈ all, n.OutwardBy a) →
      (all.forM fun attached => deliver host (raise host (fuel + 1)) attached.listener .changed)
        { n with host := state }
        = some (⟨⟩, { n with host := tellAll tell (all.flatMap n.reportsBy) state }) := by
    intro all
    induction all with
    | nil => exact fun _ _ => rfl
    | cons attached all ih =>
      intro state hall
      have hattached : OutwardBy { n with host := state } attached := hall attached List.mem_cons_self
      rw [List.forM_eq_forM, List.forM_cons, List.flatMap_cons, tellAll_append]
      refine (bind_apply (hattached.deliver_eq hhost fuel)).trans ?_
      exact ih _ fun a ha => hall a (List.mem_cons_of_mem _ ha)
  exact hall _ n.host h

/-- What a cached node announces to hosts is for them alone. -/
theorem Typed.outward_cached {n : Network N A σ} (hn : n.Typed) {d inner : Nat}
    (hd : n.kind? d = some (.cached inner)) : n.Outward (.changed d) := by
  intro attached h
  have hfits := hn.fits h
  obtain ⟨token, listener⟩ := attached
  cases listener with
  | host action => trivial
  | relay j =>
    obtain ⟨⟨_, _, hagg⟩, -⟩ | ⟨-, hj⟩ := hfits
    · simp [hd] at hagg
    · exact ⟨hn.present h j rfl, hn.listeners_wrapped hj⟩
  | invalidate c =>
    obtain ⟨⟨_, _, hformula⟩, -⟩ := hfits
    simp [hd] at hformula
  | follow a => exact hfits.elim

/-- Where hosts listen to cached nodes alone, nodes that pass changes on tell them nothing. -/
theorem Unwatched.reports_cached {n : Network N A σ} (hwatch : n.Unwatched) (hn : n.Typed)
    {d inner : Nat} (hd : n.kind? d = some (.cached inner)) :
    n.reports (.changed d) = n.callbacks (.changed d) := by
  rw [reports, callbacks, List.filterMap_eq_flatMap_toList]
  refine List.flatMap_congr fun attached h => ?_
  have hfits := hn.fits h
  obtain ⟨token, listener⟩ := attached
  cases listener with
  | relay j =>
    obtain ⟨⟨_, _, hagg⟩, -⟩ | ⟨-, hj⟩ := hfits
    · simp [hd] at hagg
    · have hsilent : n.callbacks (.changed j) = [] :=
        hwatch.callbacks_eq_nil fun i inner hi hcached => by cases hi; cases hj.symm.trans hcached
      exact hsilent
  | _ => rfl

/-- What a cached node announces to hosts tells them, and nobody else. -/
theorem raise_cached (hhost : host.Quiet tell) {n : Network N A σ} (hn : n.Typed) {d inner : Nat}
    (hd : n.kind? d = some (.cached inner)) (fuel : Nat) :
    ∃ state, raise host (fuel + 2) (.changed d) .changed n = some (⟨⟩, { n with host := state })
      ∧ (n.Unwatched → state = tellAll tell (n.callbacks (.changed d)) n.host) := by
  refine ⟨_, (hn.outward_cached hd).raise_eq hhost fuel, fun hwatch => ?_⟩
  rw [hwatch.reports_cached hn hd]

include hhost

/-- What a cached node announces to hosts is held back, or tells them. -/
theorem leads_announce {fuel : Nat} {n : Network N A σ} (hn : n.Typed) {d inner : Nat}
    (hd : n.kind? d = some (.cached inner)) (hfuel : 2 ≤ fuel) :
    Leads True (announce (raise host fuel) (.changed d)) n fun _ n' =>
      ∃ left, n' = n.dim [] left ∧ n.Told tell [d] left := by
  refine .get_bind ?_
  split
  next hholds =>
    refine .of_modify ⟨⟨(n.buffer.hold (.changed d)).pending, n.host⟩, ?_,
      fun _ => ⟨fun _ => rfl, fun t => ?_, fun hnodup => ?_⟩, fun h => by simp [hholds] at h, by simp⟩
    · rw [dim_nil, Buffer.hold]
      split <;> rfl
    · by_cases hmem : Topic.changed d ∈ n.buffer.pending
      · simp only [Buffer.hold, hmem, if_true, List.mem_singleton, exists_eq_left]
        exact ⟨.inl, fun h => h.elim id fun h => h ▸ hmem⟩
      · simp [Buffer.hold, hmem]
    · by_cases hmem : Topic.changed d ∈ n.buffer.pending
      · simpa [Buffer.hold, hmem] using hnodup
      · simp [Buffer.hold, hmem, List.nodup_append, hnodup]
        rintro _ h rfl
        exact hmem h
  next hholds =>
    obtain ⟨fuel, rfl⟩ : ∃ k, fuel = k + 2 := ⟨fuel - 2, by omega⟩
    obtain ⟨state, hraise, hstate⟩ := raise_cached hhost hn hd fuel
    refine .of_eq hraise ⟨⟨n.buffer.pending, state⟩, ?_, fun h => ?_, fun _ => ⟨rfl, ?_⟩, by simp⟩
    · rw [dim_nil]
    · simp [hholds] at h
    · simpa using hstate

variable {fuel : Nat} (ih : RaisesWithin host tell fuel) {n : Network N A σ} (hn : n.Typed)
include ih hn

/-- A cached node that is told of a change is dimmed, with those that hear of it from there. -/
theorem leads_invalidate {heard : List Nat} {left : Notices σ} (hclosed : n.Closed heard)
    (hleft : n.Defers tell heard left) {d inner : Nat} (hd : n.kind? d = some (.cached inner))
    (hfuel : 3 * n.observedCount ≤ fuel) :
    Leads True (invalidate (raise host fuel) d) (n.dim heard left) fun _ =>
      n.Dims tell fun c => c ∈ heard ∨ n.HearsBy (.invalidate d) c := by
  obtain ⟨c, hc, -⟩ := kind?_eq_cached_iff.mp ((kind?_dim n heard left d).trans hd)
  have hobserved : c.observed = (n.dim heard left).isObserved d := by
    rw [isObserved, flags?_of_cached hc]
    rfl
  refine .get_bind ?_
  rw [hc]
  refine .modify_bind ?_
  rw [modifyCached_dropped]
  split
  · next hc' =>
    rw [hobserved] at hc'
    have hobs : n.isObserved d := by
      rw [isObserved_dim, Bool.and_eq_true] at hc'
      exact hc'.1
    have hlt : ((n.dim heard left).dim [d] left).observedCount < n.observedCount := by
      rw [dim_dim]
      exact observedCount_dim_lt (by simp) hobs
    -- one node less is observed, so fuel is left to go on from here
    refine (ih (.received d) _ ((hn.dim _ _).dim _ _) ⟨by simp, by simp, by simp⟩
      (by simp only [height, notices_dim]; omega)).bind ?_
    rintro _ _ ⟨ids, left', rfl, hdefers, hids⟩
    rw [dim_dim]
    refine (leads_announce hhost ((hn.dim _ _).dim _ _) ((kind?_dim ..).trans ((kind?_dim ..).trans hd))
      (by omega)).weaken ?_
    rintro _ _ ⟨left'', rfl, htold⟩
    refine ⟨heard ++ ([d] ++ ids), left'', by simp [dim_dim], hleft.trans (hdefers.announced hc' htold),
      fun c => .trans ?_ (hclosed.hearsBy_iff hobs left c).symm⟩
    rw [List.mem_append, List.mem_append, List.mem_singleton, hids, notices_dim, dim_dim]
  · next hc' =>
    -- a node that was not read since, or was told already, passes nothing on
    have hquiet : ¬ (n.isObserved d = true ∧ d ∉ heard) := by
      simpa [hobserved, isObserved_dim] using hc'
    rw [notices_dim, dim_dim]
    refine .of_pure ⟨_, _, rfl, ?_, fun c => ?_⟩
    · refine hleft.trans ⟨[], List.nodup_nil, fun e => ?_, .refl tell _⟩
      rw [isObserved_dim]
      simp only [List.not_mem_nil, List.mem_singleton, false_iff]
      rintro ⟨rfl, h⟩
      exact hquiet (by simpa using h)
    simp only [List.mem_append, List.mem_singleton, HearsBy]
    constructor
    · rintro (hc | hc)
      · exact .inl hc
      · exact .inr (.inl hc)
    · rintro (hc | hc | ⟨hobs, hc⟩)
      · exact .inl hc
      · exact .inr hc
      · have hmem : d ∈ heard := not_not.mp (not_and.mp hquiet hobs)
        exact .inl (hclosed d hmem hobs c hc)

/-- One listener that is called dims what is heard because of it. -/
theorem leads_deliver {heard : List Nat} {left : Notices σ} (hclosed : n.Closed heard)
    (hleft : n.Defers tell heard left) {topic : Topic} (htopic : n.Inward topic)
    {attached : Attached A} (hattached : attached ∈ n.listeners topic)
    (hfuel : n.height topic + 3 * n.observedCount ≤ fuel + 1) :
    Leads True (deliver host (raise host fuel) attached.listener .changed) (n.dim heard left)
      fun _ => n.Dims tell fun c => c ∈ heard ∨ n.HearsBy attached.listener c := by
  have hfits := hn.fits hattached
  obtain ⟨token, listener⟩ := attached
  cases listener with
  | invalidate d =>
    cases topic <;> simp only [Fits] at hfits
    obtain ⟨⟨source, path, hformula⟩, hd⟩ := hfits
    refine .get_bind ?_
    rw [isPresent_dim, if_pos (hn.present hattached d rfl)]
    refine leads_invalidate hhost ih hn hclosed hleft hd ?_
    simp only [height, hformula] at hfuel
    omega
  | relay j =>
    obtain ⟨hj, hheight⟩ := hfits.relay
    refine .get_bind ?_
    rw [isPresent_dim, if_pos (hn.present hattached j rfl)]
    have hle := observedCount_dim_le n heard left
    have hinward : n.Inward (.changed j) := by
      refine ⟨by simp, fun d inner hd hcached => ?_, fun d inner hd hwrapped => ?_⟩
      · cases hd
        cases topic <;> simp [Fits, IsFormula, IsAggregate, hcached] at hfits
      · cases hd
        cases topic <;> simp [Fits, IsFormula, IsAggregate, hwrapped] at hfits
        obtain ⟨inner', hcached⟩ := hfits.1
        exact htopic.cached _ inner' rfl hcached
    refine (ih (.changed j) _ (hn.dim heard left) (hinward.dim heard left) ?_).weaken ?_
    · rw [height_dim]
      omega
    rintro _ _ ⟨ids, left', rfl, hleft', hids⟩
    rw [dim_dim]
    refine ⟨_, _, rfl, hleft.trans hleft', fun c => ?_⟩
    rw [List.mem_append, hids]
    refine or_congr_right' fun hc => ⟨Hears.of_dim, fun h => ?_⟩
    -- what those told before would have passed on was told by them
    obtain hc' | hc' | ⟨_, hlast, -⟩ := h.dim_or hclosed [] left
    · exact absurd (by simpa using hc') hc
    · simpa using hc'
    · cases hlast
  | follow a => cases topic <;> simp [Fits] at hfits; exact (htopic.members _ rfl).elim
  | host action =>
    have hrun : deliver host (raise host fuel) (.host action) .changed (n.dim heard left)
        = some (⟨⟩, n.dim heard ⟨left.pending, tell action left.host⟩) := hhost.notified ..
    -- a host that is called here listens to more than cached nodes
    have hwatched : ¬ n.Unwatched := fun hwatch => by
      have hnone := hwatch.callbacks_eq_nil htopic.cached
      have hcall : (token, action) ∈ n.callbacks topic := List.mem_filterMap.mpr ⟨_, hattached, rfl⟩
      rw [hnone] at hcall
      cases hcall
    obtain ⟨ds, hnodup, hmem, htold⟩ := hleft
    refine .of_eq hrun ⟨heard, _, rfl, ⟨ds, hnodup, hmem, fun h => ?_, fun h => ?_,
      fun hwatch => absurd hwatch hwatched⟩, fun c => (or_iff_left id).symm⟩
    · exact ⟨fun hwatch => absurd hwatch hwatched, (htold.held h).2⟩
    · exact ⟨(htold.at_once h).1, fun hwatch => absurd hwatch hwatched⟩

/-- Listeners that are called one after another dim what is heard because of any of them. -/
theorem leads_deliver_all {topic : Topic} (htopic : n.Inward topic)
    (hfuel : n.height topic + 3 * n.observedCount ≤ fuel + 1) :
    ∀ {all : List (Attached A)} {heard : List Nat} {left : Notices σ},
      (∀ attached ∈ all, attached ∈ n.listeners topic) → n.Closed heard → n.Defers tell heard left →
      Leads True (all.forM fun attached =>
        deliver host (raise host fuel) attached.listener .changed) (n.dim heard left)
        fun _ => n.Dims tell fun c => c ∈ heard ∨ ∃ attached ∈ all, n.HearsBy attached.listener c
  | [], heard, left, _, _, hleft => .of_pure ⟨heard, left, rfl, hleft, by simp⟩
  | attached :: all, heard, left, hall, hclosed, hleft => by
    rw [List.forM_eq_forM, List.forM_cons]
    refine (leads_deliver hhost ih hn hclosed hleft htopic (hall attached List.mem_cons_self)
      hfuel).bind ?_
    rintro _ _ ⟨ids, left', rfl, hleft', hids⟩
    refine (leads_deliver_all htopic hfuel (fun a ha => hall a (List.mem_cons_of_mem _ ha))
      ?_ hleft').weaken ?_
    · intro d hd observed c hc
      refine (hids c).mpr ?_
      obtain hd | hd := (hids d).mp hd
      · exact .inl (hclosed d hd observed c hc)
      · exact .inr (hd.trans observed hc)
    · rintro _ _ ⟨ids', left'', rfl, hleft'', hids'⟩
      refine ⟨ids', left'', rfl, hleft'', fun c => ?_⟩
      simp [hids', hids, or_assoc]

end Raising

section Raised

variable {host : Host N A σ} {tell : A → σ → σ} (hhost : host.Quiet tell)
include hhost

theorem raisesWithin : ∀ fuel, RaisesWithin host tell fuel
  | 0 => fun topic n _ _ hfuel => by
    have := n.height_pos topic
    omega
  | fuel + 1 => fun topic n hn htopic hfuel => by
    refine .get_bind ?_
    have h : Leads True _ (n.dim [] n.notices) _ :=
      leads_deliver_all hhost (raisesWithin fuel) hn htopic hfuel (fun _ h => h) (by simp [Closed])
        (.refl tell n)
    rw [dim_nil_notices] at h
    refine h.weaken ?_
    rintro _ _ ⟨ids, left, rfl, hleft, hids⟩
    exact ⟨ids, left, rfl, hleft, fun c => by simp [hids, Hears.iff_hearsBy]⟩

/-- An announcement of a change dims just the nodes that hear it, if its bound is large enough. -/
theorem raise_changed {n : Network N A σ} (hn : n.Typed) {topic : Topic}
    (htopic : n.Inward topic) {fuel : Nat} (hfuel : 3 * n.nodes.size + 3 ≤ fuel) :
    Leads True (raise host fuel topic .changed) n fun _ => n.Dims tell (n.Hears topic) := by
  refine raisesWithin hhost fuel topic n hn htopic ?_
  have hcount : n.observedCount ≤ n.nodes.size := by
    simpa [observedCount] using Finset.card_filter_le (Finset.range n.nodes.size) fun id => n.isObserved id
  have := n.height_le topic
  omega

/-- An announcement of a change dims just the nodes that hear it. -/
theorem emit_changed {n : Network N A σ} (hn : n.Typed) {topic : Topic} (htopic : n.Inward topic) :
    Leads True (emit host topic .changed) n fun _ => n.Dims tell (n.Hears topic) := by
  refine .get_bind (raise_changed hhost hn htopic ?_)
  rw [cascadeBound]
  omega

end Raised

end StatEngine.Network
