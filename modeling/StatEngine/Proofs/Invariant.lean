import StatEngine.Proofs.Stuck

/-!
# The invariant of a network

`Inv` is what holds of a network at any time, also in the middle of a computation: the nodes on file are
there and connected, the registry is consistent, and all values that are kept can be relied on. While
nodes are read a network only grows (`Extends`): what is kept stays kept, and what is on file stays the
same.

## Main definitions

* `Lit`: what the flags of cached nodes say;
* `Core` and `Inv`: the invariant, without and with the counts of the paths;
* `Extends`: nothing is lost that values rely on;
* `Grows`: parts are made that nothing was read from yet.

## Main statements

* `Grounded.mono`: values can be relied on as long as the network only extends;
* `Grows.core` and `Grows.extension`: making parts extends a network, and keeps the invariant.
-/

namespace StatEngine

open Network

namespace Registry

variable {N : Type}

/-- All that is on file stays on file, and is worth the same. -/
structure Extends (r r' : Registry N) : Prop where
  graph : ∀ k g, r.graph? k = some g →
    ∃ g', r'.graph? k = some g' ∧ g'.stat = g.stat ∧ g'.paths = g.paths
  entry : ∀ k e, r.stage? k = some e → r'.stage? k = some e
  form : ∀ k f p e, r.form? k f p = some e →
    r'.form? k f p = some e ∧ r'.items e.collection = r.items e.collection
  layering : ∀ l x, r.layering l = some x → r'.layering l = some x
  path : ∀ k, ∀ p ∈ r.paths k, p ∈ r'.paths k
  paths : ∀ k, Path.main ∈ r.paths k → r'.paths k = r.paths k
  inputs : r'.inputs = r.inputs

namespace Extends

variable {r r' r'' : Registry N}

theorem refl (r : Registry N) : r.Extends r where
  graph _ g h := ⟨g, h, rfl, rfl⟩
  entry _ _ h := h
  form _ _ _ _ h := ⟨h, rfl⟩
  layering _ _ h := h
  path _ _ h := h
  paths _ _ := rfl
  inputs := rfl

theorem trans (h : r.Extends r') (h' : r'.Extends r'') : r.Extends r'' where
  graph k g hg := by
    obtain ⟨g', hg', hstat, hpaths⟩ := h.graph k g hg
    obtain ⟨g'', hg'', hstat', hpaths'⟩ := h'.graph k g' hg'
    exact ⟨g'', hg'', hstat'.trans hstat, hpaths'.trans hpaths⟩
  entry k e he := h'.entry k e (h.entry k e he)
  form k f p e he := by
    obtain ⟨he', hitems⟩ := h.form k f p e he
    obtain ⟨he'', hitems'⟩ := h'.form k f p e he'
    exact ⟨he'', hitems'.trans hitems⟩
  layering l x hx := h'.layering l x (h.layering l x hx)
  path k p hp := h'.path k p (h.path k p hp)
  paths k hk := (h'.paths k (h.path k _ hk)).trans (h.paths k hk)
  inputs := h'.inputs.trans h.inputs

/-- What is on file for a dependency stays the same. -/
theorem sameAt (h : r.Extends r') {key : DependencyKey} {t : Topic} (ht : r.topic? key = some t) :
    SameAt r r' key := by
  cases key with
  | node k =>
    obtain ⟨e, he, -⟩ := Option.map_eq_some_iff.mp ht
    exact (h.entry k e he).trans he.symm
  | form key form path =>
    obtain ⟨e, he, -⟩ := Option.map_eq_some_iff.mp ht
    refine ⟨(h.form _ _ _ e he).1.trans he.symm, fun e' he' => (h.form _ _ _ e' he').2⟩
  | paths key =>
    obtain ⟨g, hg, rfl⟩ := Option.map_eq_some_iff.mp ht
    obtain ⟨g', hg', -, hpaths⟩ := h.graph key g hg
    refine ⟨?_, h.paths key, fun e he => h.entry _ e he⟩
    rw [topic?, topic?, hg, hg', Option.map_some, Option.map_some, hpaths]

end Extends

end Registry

namespace Network

variable {N A σ : Type}

/-- More announcements to hosts may wait if there is a batch. -/
structure Waits (n n' : Network N A σ) : Prop where
  enabled : n'.buffer.enabled = n.buffer.enabled
  depth : n'.buffer.depth = n.buffer.depth
  at_once : n.buffer.holds = false → n'.buffer.pending = n.buffer.pending
  to_hosts : ∀ topic ∈ n'.buffer.pending, topic ∈ n.buffer.pending
    ∨ ∃ id inner, topic = .changed id ∧ n'.kind? id = some (.cached inner)

theorem Waits.of_buffer {n n' : Network N A σ} (h : n'.buffer = n.buffer) : n.Waits n' :=
  ⟨by rw [h], by rw [h], fun _ => by rw [h], fun _ ht => .inl (h ▸ ht)⟩

/-- What happens all the time: nodes stay what they are made for, no cached node is left that is being
computed, and the hosts that listen go on listening. -/
structure Proceeds (n n' : Network N A σ) : Prop extends n.Waits n' where
  kind : ∀ id kind, n.kind? id = some kind → n'.kind? id = some kind
  entered : ∀ c, n'.isEntered c = n.isEntered c
  callbacks : ∀ t, n'.callbacks t = n.callbacks t

namespace Proceeds

variable {n n' n'' : Network N A σ}

theorem refl (n : Network N A σ) : n.Proceeds n where
  toWaits := .of_buffer rfl
  kind _ _ h := h
  entered _ := rfl
  callbacks _ := rfl

theorem size_le (h : n.Proceeds n') : n.nodes.size ≤ n'.nodes.size := by
  by_contra hlt
  obtain ⟨kind, hkind⟩ := n.exists_kind?_of_lt (Nat.lt_of_not_le hlt)
  exact absurd (lt_size_of_kind? (h.kind _ kind hkind)) (lt_irrefl _)

theorem holds (h : n.Proceeds n') : n'.buffer.holds = n.buffer.holds := by
  rw [Buffer.holds, Buffer.isBuffering, h.enabled, h.depth]
  rfl

theorem trans (h : n.Proceeds n') (h' : n'.Proceeds n'') : n.Proceeds n'' where
  kind id kind hkind := h'.kind id kind (h.kind id kind hkind)
  entered c := (h'.entered c).trans (h.entered c)
  callbacks t := (h'.callbacks t).trans (h.callbacks t)
  enabled := h'.enabled.trans h.enabled
  depth := h'.depth.trans h.depth
  at_once hholds := (h'.at_once (h.holds.trans hholds)).trans (h.at_once hholds)
  to_hosts topic htopic := by
    obtain htopic | hid := h'.to_hosts topic htopic
    · exact (h.to_hosts topic htopic).imp_right fun ⟨id, inner, ht, hid⟩ =>
        ⟨id, inner, ht, h'.kind _ _ hid⟩
    · exact .inr hid

/-- Hosts go on listening to what they listen to, and to nothing else. -/
theorem unwatched (h : n.Proceeds n') (hn : n.Unwatched) : n'.Unwatched := by
  intro topic hne
  rw [h.callbacks] at hne
  obtain ⟨i, inner, rfl, hi⟩ := hn topic hne
  exact ⟨i, inner, rfl, h.kind i _ hi⟩

end Proceeds

/-- No formula records anything: it goes on with what it recorded, unless the node that keeps its value is
attached to nothing any more. -/
structure KeepsRecords (n n' : Network N A σ) : Prop where
  recorded : ∀ id inner, n.kind? (id + 1) = some (.cached inner) →
    n'.recorded id = n.recorded id ∨ n'.held (id + 1) = []
  unrecorded : ∀ id, n.recorded id = [] → n'.recorded id = []

theorem KeepsRecords.of_view {n n' : Network N A σ} (hview : ∀ id, n'.view? id = n.view? id) :
    n.KeepsRecords n' where
  recorded id _ _ := .inl (recorded_of_view (hview id))
  unrecorded id h := (recorded_of_view (hview id)).trans h

/-- What happens while nothing is read: just the cached nodes that are observed no more made an
announcement to hosts. The others keep their values, unless they are attached to nothing any more. -/
structure Changes (tell : A → σ → σ) (n n' : Network N A σ) : Prop extends n.Proceeds n' where
  unread : ∀ d, n'.isObserved d → n.isObserved d
  announced : ∃ ds : List Nat, ds.Nodup ∧ (∀ d, d ∈ ds ↔ n.isObserved d ∧ n'.isObserved d = false)
    ∧ n.Told tell ds n'.notices
  kept : ∀ d, n'.isObserved d → n'.held d = [] ∨ n'.value? d = n.value? d
  loose : ∀ d inner, n.kind? d = some (.cached inner) → n.held d = [] → n'.held d = []
  records : n.KeepsRecords n'

namespace Changes

variable {tell : A → σ → σ} {n n' n'' : Network N A σ}

/-- Cached nodes announce nothing when all that was observed stays observed. -/
theorem of_told (h : n.Proceeds n') (hobserved : ∀ d, n'.isObserved d = n.isObserved d)
    (htold : n.Told tell [] n'.notices)
    (hkept : ∀ d, n'.isObserved d → n'.held d = [] ∨ n'.value? d = n.value? d)
    (hloose : ∀ d inner, n.kind? d = some (.cached inner) → n.held d = [] → n'.held d = [])
    (hrecords : n.KeepsRecords n') : n.Changes tell n' where
  toProceeds := h
  unread d hd := (hobserved d).symm.trans hd
  announced := ⟨[], List.nodup_nil, fun d => by simp [hobserved], htold⟩
  kept := hkept
  loose := hloose
  records := hrecords

/-- Nothing is announced when all that was observed stays observed, and hosts are as they were. -/
theorem of_proceeds (h : n.Proceeds n') (hobserved : ∀ d, n'.isObserved d = n.isObserved d)
    (hnotices : n'.notices = n.notices)
    (hkept : ∀ d, n'.isObserved d → n'.held d = [] ∨ n'.value? d = n.value? d)
    (hloose : ∀ d inner, n.kind? d = some (.cached inner) → n.held d = [] → n'.held d = [])
    (hrecords : n.KeepsRecords n') : n.Changes tell n' :=
  of_told h hobserved (hnotices ▸ .refl tell n) hkept hloose hrecords

/-- Cached nodes announce nothing when there is nothing else to see of them. -/
theorem of_view (h : n.Proceeds n') (hview : ∀ id, n'.view? id = n.view? id)
    (hnotices : n.Unwatched → n'.host = n.host) (hpending : n'.buffer.pending = n.buffer.pending) :
    n.Changes tell n' :=
  .of_told h (fun d => by rw [isObserved, flags?_of_view (hview d), isObserved])
    (.of_pending hpending hnotices)
    (fun d _ => .inr (by rw [value?, flags?_of_view (hview d), value?]))
    (fun d _ _ hheld => (held_of_view (hview d)).trans hheld) (.of_view hview)

theorem refl (n : Network N A σ) : n.Changes tell n :=
  .of_proceeds (.refl n) (fun _ => rfl) rfl (fun _ _ => .inr rfl) (fun _ _ _ h => h) (.of_view fun _ => rfl)

theorem trans (h : n.Changes tell n') (h' : n'.Changes tell n'') : n.Changes tell n'' where
  toProceeds := h.toProceeds.trans h'.toProceeds
  unread d hd := h.unread d (h'.unread d hd)
  announced := by
    obtain ⟨ds, hnodup, hmem, htold⟩ := h.announced
    obtain ⟨ds', hnodup', hmem', htold'⟩ := h'.announced
    refine ⟨ds ++ ds', List.nodup_append.mpr ⟨hnodup, hnodup', fun d hd d' hd' => ?_⟩, fun d => ?_,
      htold.trans h.holds (fun d _ => h.callbacks _) h.unwatched htold'⟩
    · rintro rfl
      have := ((hmem d).mp hd).2
      simp [((hmem' d).mp hd').1] at this
    · rw [List.mem_append, hmem, hmem']
      have hunread := h.unread d
      have hunread' := h'.unread d
      revert hunread hunread'
      cases n.isObserved d <;> cases n'.isObserved d <;> cases n''.isObserved d <;> simp
  kept d hd := by
    have hd' := h'.unread d hd
    obtain ⟨inner, hinner⟩ := exists_kind?_of_isObserved hd'
    obtain hheld | hvalue := h'.kept d hd
    · exact .inl hheld
    · exact (h.kept d hd').imp (h'.loose d inner hinner) hvalue.trans
  loose d inner hd hheld := h'.loose d inner (h.kind d _ hd) (h.loose d inner hd hheld)
  records :=
    { recorded := fun id inner hkind => by
        have hkind' := h.kind _ _ hkind
        obtain heq | hheld := h'.records.recorded id inner hkind'
        · exact (h.records.recorded id inner hkind).imp heq.trans (h'.loose _ inner hkind')
        · exact .inr hheld
      unrecorded := fun id hid => h'.records.unrecorded id (h.records.unrecorded id hid) }

/-- An announcement of a change tells the hosts of the cached nodes that hear it. -/
theorem dim {ids : List Nat} {left : Notices σ} (hd : n.Defers tell ids left) :
    n.Changes tell (n.dim ids left) := by
  obtain ⟨ds, hnodup, hmem, htold⟩ := hd
  refine ⟨⟨⟨rfl, rfl, fun h => (htold.at_once h).1, fun topic ht => ?_⟩, fun id kind hkind => ?_,
    fun c => ?_, fun t => ?_⟩, fun d hd => ?_, ⟨ds, hnodup, fun d => ?_, htold⟩, fun d hd => .inr ?_,
    fun d inner _ hheld => ?_, ⟨fun id _ _ => .inl (recorded_relight ..), fun id hid =>
      (recorded_relight ..).trans hid⟩⟩
  · cases hholds : n.buffer.holds with
    | false => exact .inl ((htold.at_once hholds).1 ▸ ht)
    | true =>
      obtain ht | ⟨d, hd, rfl⟩ := ((htold.held hholds).2.1 topic).mp ht
      · exact .inl ht
      · obtain ⟨inner, hinner⟩ := exists_kind?_of_isObserved ((hmem d).mp hd).2
        exact .inr ⟨d, inner, rfl, (kind?_dim ..).trans hinner⟩
  · rwa [kind?_dim]
  · rw [isEntered, flags?_dim, isEntered]
    cases n.flags? c with
    | none => rfl
    | some flags => by_cases hc : c ∈ ids <;> simp [hc, Flags.dropped]
  · rw [Network.callbacks, listeners_dim, Network.callbacks]
  · rw [isObserved_dim, Bool.and_eq_true] at hd
    exact hd.1
  · rw [hmem, isObserved_dim]
    by_cases hd : d ∈ ids <;> cases n.isObserved d <;> simp [hd]
  · rw [isObserved_dim, Bool.and_eq_true, Bool.not_eq_true', decide_eq_false_iff_not] at hd
    rw [value?_dim, if_neg hd.2]
  · exact (n.held_relight d _).trans hheld

end Changes

/-- While nodes are read, nothing is lost that values rely on. -/
structure Extends (n n' : Network N A σ) : Prop extends n.Proceeds n' where
  registry : n.registry.Extends n'.registry
  value : ∀ c v, n.value? c = some v → n'.value? c = some v
  observed : ∀ c, n.isObserved c → n'.isObserved c
  recorded : ∀ id, n.value? (id + 1) ≠ none → n'.recorded id = n.recorded id
  /-- Cells that are new on file are new. -/
  fresh : ∀ k e, n'.registry.stage? k = some e →
    n.registry.stage? k = some e ∨ n.nodes.size ≤ e.formula
  /-- Hosts that listen to cached nodes alone are told of nothing. -/
  notices : n.Unwatched → n'.notices = n.notices

namespace Extends

variable {n n' n'' : Network N A σ} {sc : Regime N}

theorem refl (n : Network N A σ) : n.Extends n where
  toProceeds := .refl n
  registry := .refl _
  value _ _ h := h
  observed _ h := h
  recorded _ _ := rfl
  fresh _ _ h := .inl h
  notices _ := rfl

theorem trans (h : n.Extends n') (h' : n'.Extends n'') : n.Extends n'' where
  toProceeds := h.toProceeds.trans h'.toProceeds
  registry := h.registry.trans h'.registry
  value c v hv := h'.value c v (h.value c v hv)
  observed c hc := h'.observed c (h.observed c hc)
  recorded id hid := by
    refine (h'.recorded id ?_).trans (h.recorded id hid)
    obtain ⟨v, hv⟩ := Option.ne_none_iff_exists'.mp hid
    rw [h.value _ v hv]
    exact Option.some_ne_none v
  fresh k e he := by
    obtain he | he := h'.fresh k e he
    · exact h.fresh k e he
    · exact .inr (h.size_le.trans he)
  notices hwatch := (h'.notices (h.toProceeds.unwatched hwatch)).trans (h.notices hwatch)

/-- Nothing is lost if all there is to see of the nodes stays the same. -/
theorem of_view (h : n.Proceeds n') (hview : ∀ id, n'.view? id = n.view? id)
    (hregistry : n'.registry = n.registry) (hnotices : n.Unwatched → n'.notices = n.notices) :
    n.Extends n' where
  toProceeds := h
  registry := hregistry ▸ .refl _
  value c v hv := by rwa [value?, flags?_of_view (hview c)]
  observed c hc := by rwa [isObserved, flags?_of_view (hview c)]
  recorded id _ := recorded_of_view (hview id)
  fresh k e he := .inl (hregistry ▸ he)
  notices := hnotices

/-- Networks are ordered by what they have come to know. -/
instance : Preorder (Network N A σ) where
  le := Extends
  le_refl := refl
  le_trans _ _ _ := trans

theorem denotes (h : n.Extends n') {id : Nat} {φ : Formula N} {p : Path (Stat N)}
    (hd : n.Denotes sc id φ p) : n'.Denotes sc id φ p := by
  cases hd with
  | stage he hs hk => exact .stage (h.registry.entry _ _ he) hs hk
  | member hsc he hi =>
    obtain ⟨he', hitems⟩ := h.registry.form _ _ _ _ he
    exact .member hsc he' (hitems ▸ hi)

/-- What a cell computes that was there was on file before. -/
theorem denotes_of_lt (h : n.Extends n') {id : Nat} {φ : Formula N} {p : Path (Stat N)}
    (hd : n'.Denotes sc id φ p) (hid : id < n.nodes.size) : n.Denotes sc id φ p := by
  cases hd with
  | stage he hs hk =>
    obtain he | hnew := h.fresh _ _ he
    · exact .stage he hs hk
    · exact absurd hid (Nat.not_lt_of_le hnew)
  | @member key form path e id m hsc he hi =>
    -- there are no modifiers in new collections
    have hmodifiers : m ∈ n.registry.inputs.modifiers key form path := by
      rw [← h.registry.inputs, Registry.modifiers_eq he]
      exact List.mem_map_of_mem hi
    cases he' : n.registry.form? key form path with
    | none => simp [Registry.inputs, Registry.members, he'] at hmodifiers
    | some e' =>
      obtain ⟨he'', hitems⟩ := h.registry.form _ _ _ _ he'
      obtain rfl := Option.some.inj (he.symm.trans he'')
      exact .member hsc he' (hitems ▸ hi)

variable [Number N]

/-- Values can be relied on as long as the network only extends. -/
theorem grounded (h : n.Extends n') {id : Nat}
    (hid : n.Grounded sc id) : n'.Grounded sc id := by
  refine hid.transfer (P := fun _ => True) (fun id _ hid => ?_)
    (fun id _ hid key hkey c hc => ⟨trivial, ?_⟩) trivial
  · cases hid with
    | intro denotes value resolved =>
    refine ⟨fun _ _ => h.denotes, ?_, h.recorded id (by simp [value]), fun key ⟨s, hs⟩ => ?_⟩
    · rw [value, h.value _ _ value]
    · exact h.registry.sameAt (resolved _ hs)
  · cases hid with
    | intro _ _ _ _ observed => exact h.observed _ (observed key hkey c hc)

end Extends

/-! ## The invariant -/

/-- The flags of a cached node that nobody read yet. -/
def Flags.dark : Flags N := ⟨none, false, false, false⟩

/-- What a node at a position is when it is made. -/
structure View.Fresh (id : Nat) (v : View N A) : Prop where
  dark : ∀ flags, v.flags? = some flags → flags = .dark
  unheld : ∀ s ∈ v.held, ∀ set, s.topic ≠ .paths set
  unrecorded : v.recorded = []
  noted : ∀ source path, v.kind = .formula source path → ∀ s ∈ v.held, ∃ l, s.topic = .layers l
  joined : ∀ c form, v.kind = .aggregate c form → ∀ s ∈ v.held, ∃ c, s.topic = .members c
  next : ∀ i, v.kind = .cached i → id = i + 1

/-- Whether a cached node was read, or is. -/
def Flagged (n : Network N A σ) (c : Nat) : Prop :=
  n.value? c ≠ none ∨ n.isObserved c ∨ n.isEntered c

/-- What the flags of cached nodes say. Where stats are followed, no change comes in while a value is
computed, and the sum over the paths of a stat is read after the stat got the main path, and is told of
changes of the paths. -/
structure Lit (sc : Regime N) (n : Network N A σ) : Prop where
  shown : ∀ c, n.value? c ≠ none → n.isObserved c
  entered : ∀ c flags, n.flags? c = some flags → flags.entered → flags.value = none
    ∧ (sc.Follows → flags.stale = false ∧ ∃ id φ p, c = id + 1 ∧ n.Denotes sc id φ p)
  main : sc.Follows → ∀ key e, n.registry.stage? ⟨key, .uncappedSubtotal, Path.main⟩ = some e →
    n.Flagged (e.formula + 1) → Path.main ∈ n.registry.paths key
  tells : sc.Follows → ∀ key e, n.registry.stage? ⟨key, .uncappedSubtotal, Path.main⟩ = some e →
    n.value? (e.formula + 1) ≠ none ∨ n.isObserved (e.formula + 1) →
    n.isEntered (e.formula + 1) = false →
    ∃ s, (.paths key, s) ∈ n.recorded e.formula ∧ n.registry.topic? (.paths key) = some s.topic

/-- Every stat on the list of the hosts is listed once, and the node that is listed with it shows its
total. -/
structure Lists (n : Network N A σ) : Prop where
  nodup : (n.registry.listed.map (·.1.key)).Nodup
  shows : ∀ x ∈ n.registry.listed, ∃ e, n.registry.stage? ⟨x.1.key, .total, Path.main⟩ = some e
    ∧ n.kind? x.2 = some (.wrapped e.cached) ∧ ∃ s ∈ n.held x.2, s.topic = .changed e.cached

theorem Lists.wrapped {n : Network N A σ} (h : n.Lists) {x : Stat N × Nat}
    (hx : x ∈ n.registry.listed) : ∃ inner, n.kind? x.2 = some (.wrapped inner) := by
  obtain ⟨e, -, hwrapped, -⟩ := h.shows x hx
  exact ⟨e.cached, hwrapped⟩

/-- What is listed still is as it should be if it was, and its totals and nodes stay as they are. -/
theorem Lists.mono {n n' : Network N A σ} (h : n.Lists)
    (hlisted : n'.registry.listed.Sublist n.registry.listed)
    (hstage : ∀ x ∈ n'.registry.listed, ∀ e,
      n.registry.stage? ⟨x.1.key, .total, Path.main⟩ = some e →
      n'.registry.stage? ⟨x.1.key, .total, Path.main⟩ = some e)
    (hnode : ∀ x ∈ n'.registry.listed, ∀ inner, n.kind? x.2 = some (.wrapped inner) →
      n'.kind? x.2 = n.kind? x.2 ∧ n'.held x.2 = n.held x.2) : n'.Lists where
  nodup := h.nodup.sublist (hlisted.map _)
  shows x hx := by
    obtain ⟨e, he, hwrapped, hholds⟩ := h.shows x (hlisted.subset hx)
    obtain ⟨hkind, hheld⟩ := hnode x hx _ hwrapped
    exact ⟨e, hstage x hx e he, hkind.trans hwrapped, hheld ▸ hholds⟩

/-- Other flags take nothing off the list of the hosts. -/
theorem Lists.relight {n : Network N A σ} (h : n.Lists) (f : Nat → Flags N → Flags N) :
    (n.relight f).Lists :=
  h.mono (.refl _) (fun _ _ _ he => he) fun _ _ _ _ => ⟨kind?_relight .., held_relight ..⟩

variable [Number N]

/-- What holds of a network while paths are being counted. -/
structure Core (sc : Regime N) (n : Network N A σ) : Prop where
  wired : n.Wired sc
  orderly : n.registry.Orderly sc
  listed : n.Lists
  lit : n.Lit sc
  sound : n.Sound sc
  /-- Cells that failed are stuck, unless they are being computed. -/
  blocked : ∀ id φ p, n.Denotes sc id φ p → n.Failed (id + 1) → n.isEntered (id + 1) = false →
    n.Stuck sc id φ p
  unreleased : n.released = false

/-- What holds of a network at any time. -/
structure Inv (sc : Regime N) (n : Network N A σ) : Prop extends n.Core sc where
  counted : n.registry.Counted

/-! ## Growth -/

/-- Parts are made that nothing was read from yet. -/
structure Grows (sc : Regime N) (n n' : Network N A σ) : Prop where
  typed : n'.Typed
  ledger : n'.Ledger
  orderly : n'.registry.Orderly sc
  released : n'.released = n.released
  waits : n.Waits n'
  view : ∀ id < n.nodes.size, n'.view? id = n.view? id
  new : ∀ id v, n.nodes.size ≤ id → n'.view? id = some v → v.Fresh id
  made : ∀ id kind, n.nodes.size ≤ id → n'.kind? id = some kind → n'.Made sc kind
  topic : ∀ t, n.hasTopic t → n'.hasTopic t
  present : ∀ set, n.isPresent (.paths set) → n'.isPresent (.paths set)
  there : ∀ id, n.isPresent (.changed id) → n'.isPresent (.changed id)
  followers : ∀ k f p e, n.registry.form? k f p = some e →
    n'.listeners (.members e.collection) = n.listeners (.members e.collection)
  callbacks : ∀ t, n'.callbacks t = n.callbacks t
  notices : n'.notices = n.notices
  registry : n.registry.Extends n'.registry
  graph : ∀ k g', n'.registry.graph? k = some g' →
    (∃ g, n.registry.graph? k = some g ∧ g.paths = g'.paths)
      ∨ n'.hasTopic (.paths g'.paths) ∧ n'.isPresent (.paths g'.paths)
        ∧ n'.listeners (.paths g'.paths) = []
  entry : ∀ k e, n'.registry.stage? k = some e → n.registry.stage? k = some e
    ∨ n'.StageCell sc k e ∧ n.nodes.size ≤ e.formula
  form : ∀ k f p e, n'.registry.form? k f p = some e → n.registry.form? k f p = some e
    ∨ n'.FormCell sc e
  listed : n.Lists → n'.Lists

namespace Grows

variable {sc : Regime N} {n n' : Network N A σ}

omit [Number N] in
theorem kind (h : n.Grows sc n') {id : Nat} {kind : Kind N A} (hkind : n.kind? id = some kind) :
    n'.kind? id = some kind :=
  (kind?_of_view (h.view id (lt_size_of_kind? hkind))).trans hkind

omit [Number N] in
theorem dark (h : n.Grows sc n') {id : Nat} (hid : n.nodes.size ≤ id) {flags : Flags N}
    (hflags : n'.flags? id = some flags) : flags = .dark := by
  cases hview : n'.view? id with
  | none =>
    have : n'.body? id = none := by simpa [view?] using hview
    simp [flags?, this] at hflags
  | some v =>
    refine (h.new id v hid hview).dark flags ?_
    obtain ⟨body, hbody, rfl⟩ := Option.map_eq_some_iff.mp hview
    simpa [flags?, hbody, Body.view] using hflags

omit [Number N] in
theorem flags_eq_or (h : n.Grows sc n') (c : Nat) : n'.flags? c = n.flags? c
    ∨ n.flags? c = none ∧ ∀ flags, n'.flags? c = some flags → flags = .dark := by
  by_cases hc : c < n.nodes.size
  · exact .inl (flags?_of_view (h.view c hc))
  · refine .inr ⟨?_, fun flags => h.dark (Nat.le_of_not_lt hc)⟩
    rw [flags?, n.body?_eq_none (Nat.le_of_not_lt hc)]
    rfl

omit [Number N] in
theorem value (h : n.Grows sc n') (c : Nat) : n'.value? c = n.value? c := by
  obtain hc | ⟨hc, hdark⟩ := h.flags_eq_or c
  · rw [value?, value?, hc]
  · rw [value?, value?, hc]
    cases hflags : n'.flags? c with
    | none => rfl
    | some flags => rw [hdark flags hflags]; rfl

omit [Number N] in
theorem isObserved (h : n.Grows sc n') (c : Nat) : n'.isObserved c = n.isObserved c := by
  obtain hc | ⟨hc, hdark⟩ := h.flags_eq_or c
  · rw [Network.isObserved, Network.isObserved, hc]
  · rw [Network.isObserved, Network.isObserved, hc]
    cases hflags : n'.flags? c with
    | none => rfl
    | some flags => rw [hdark flags hflags]; rfl

omit [Number N] in
theorem isEntered (h : n.Grows sc n') (c : Nat) : n'.isEntered c = n.isEntered c := by
  obtain hc | ⟨hc, hdark⟩ := h.flags_eq_or c
  · rw [Network.isEntered, Network.isEntered, hc]
  · rw [Network.isEntered, Network.isEntered, hc]
    cases hflags : n'.flags? c with
    | none => rfl
    | some flags => rw [hdark flags hflags]; rfl

omit [Number N] in
theorem flagged_iff (h : n.Grows sc n') (c : Nat) : n'.Flagged c ↔ n.Flagged c := by
  rw [Flagged, Flagged, h.value, h.isObserved, h.isEntered]

omit [Number N] in
/-- New nodes were not read. -/
theorem not_flagged (h : n.Grows sc n') {c : Nat} (hc : n.nodes.size ≤ c) : ¬ n'.Flagged c := by
  rw [h.flagged_iff]
  simp [Flagged, value?, Network.isObserved, Network.isEntered, flags?, n.body?_eq_none hc]

omit [Number N] in
/-- Making parts extends a network. -/
theorem extension (h : n.Grows sc n') : n.Extends n' where
  toWaits := h.waits
  kind _ _ := h.kind
  entered := h.isEntered
  callbacks := h.callbacks
  registry := h.registry
  value c v hv := by rw [h.value, hv]
  observed c hc := by rw [h.isObserved, hc]
  recorded id hid := by
    have : id < n.nodes.size := by
      by_contra hge
      rw [value?, flags?, n.body?_eq_none (by omega)] at hid
      exact hid rfl
    exact recorded_of_view (h.view id this)
  fresh k e he := by
    exact (h.entry k e he).imp_right And.right
  notices _ := h.notices

omit [Number N] in
/-- Formulas that are new recorded nothing. -/
theorem recorded_eq_nil (h : n.Grows sc n') {id : Nat} (hid : n.nodes.size ≤ id) :
    n'.recorded id = [] := by
  cases hbody : n'.body? id with
  | none => simp [recorded, hbody]
  | some body =>
    have hfresh := h.new id body.view hid (by rw [view?, hbody]; rfl)
    rw [recorded, hbody]
    exact hfresh.unrecorded

omit [Number N] in
theorem unrecorded (h : n.Grows sc n') (id : Nat) (hid : n.recorded id = []) : n'.recorded id = [] := by
  by_cases hlt : id < n.nodes.size
  · exact (recorded_of_view (h.view id hlt)).trans hid
  · exact h.recorded_eq_nil (Nat.le_of_not_lt hlt)

omit [Number N] in
/-- Nothing is announced when parts are made. -/
theorem changes {tell : A → σ → σ} (h : n.Grows sc n') : n.Changes tell n' :=
  .of_proceeds h.extension.toProceeds h.isObserved h.notices (fun d _ => .inr (h.value d))
    (fun d _ hd hheld => (held_of_view (h.view d (lt_size_of_kind? hd))).trans hheld)
    ⟨fun id _ hid => .inl (recorded_of_view (h.view id (Nat.lt_of_succ_lt (lt_size_of_kind? hid)))),
      h.unrecorded⟩

omit [Number N] in
theorem hasCell (h : n.Grows sc n') {id : Nat} {source : FormulaSource N} {p : Path (Stat N)}
    (hcell : n.HasCell id source p) : n'.HasCell id source p := by
  have hlt := lt_size_of_kind? hcell.exposed
  exact hcell.of_view (fun i hi => h.view _ (by omega)) (h.there _)

omit [Number N] in
/-- New nodes recorded nothing. -/
theorem traced_new (h : n.Grows sc n') {id : Nat} (hid : n.nodes.size ≤ id) : n'.Traced id := by
  cases hbody : n'.body? id with
  | none => exact .of_held (by rw [held, hbody]; rfl)
  | some body =>
    have hfresh := h.new id body.view hid (by rw [view?, hbody, Option.map_some])
    have hkind : n'.kind? id = some body.view.kind := by rw [kind?, hbody]; rfl
    have hheld : n'.held id = body.view.held := by rw [held, hbody]; rfl
    have hrecorded : n'.recorded id = body.view.recorded := by rw [recorded, hbody]; rfl
    refine ⟨fun hid s hs => .inl ?_, fun hid s hs => .inl ?_, fun d hd => ?_⟩
    · obtain ⟨source, path, hformula⟩ := hid
      exact hfresh.noted source path (Option.some.inj (hkind.symm.trans hformula)) s (hheld ▸ hs)
    · obtain ⟨c, form, hagg⟩ := hid
      exact hfresh.joined c form (Option.some.inj (hkind.symm.trans hagg)) s (hheld ▸ hs)
    · rw [hrecorded, hfresh.unrecorded] at hd
      cases hd

omit [Number N] in
theorem wired (h : n.Grows sc n') (hn : n.Wired sc) : n'.Wired sc where
  typed := h.typed
  ledger := h.ledger
  stages k e he := by
    -- what is new on file comes with its cells, and the rest is as it was
    obtain he | ⟨he, -⟩ := h.entry k e he
    · refine (hn.stages k e he).mono (fun _ _ => h.hasCell) (fun g hg => ?_)
        fun l s stage layers hl => ⟨layers, h.registry.layering _ _ hl, fun _ => rfl⟩
      obtain ⟨g', hg', hstat, -⟩ := h.registry.graph _ _ hg
      exact ⟨g', hg', hstat⟩
    · exact he
  forms k f p e he := by
    obtain he | he := h.form k f p e he
    · have hform := hn.forms k f p e he
      have hview := h.view _ (lt_size_of_kind? hform.kind)
      exact hform.mono (kind?_of_view hview) (h.topic _) (h.followers k f p e he)
        (followed_of_view hview) (h.registry.form k f p e he).2 fun _ _ _ _ _ _ => h.hasCell
    · exact he
  sets k g' hg' := by
    obtain ⟨g, hg, hpaths⟩ | hset := h.graph k g' hg'
    · obtain ⟨htopic, hpresent⟩ := hn.sets k g hg
      exact ⟨hpaths ▸ h.topic _ htopic, hpaths ▸ h.present _ hpresent⟩
    · exact ⟨hset.1, hset.2.1⟩
  next c i hc := by
    by_cases hlt : c < n.nodes.size
    · exact hn.next c i ((kind?_of_view (h.view c hlt)).symm.trans hc)
    · obtain ⟨body, hbody, hkind⟩ := Option.map_eq_some_iff.mp hc
      have hview : n'.view? c = some body.view := by rw [view?, hbody, Option.map_some]
      exact (h.new c _ (Nat.le_of_not_lt hlt) hview).next i hkind
  made id kind hk := by
    by_cases hlt : id < n.nodes.size
    · exact (hn.made id kind ((kind?_of_view (h.view id hlt)).symm.trans hk)).mono (fun _ _ => h.kind)
        fun l s stage layers hl => ⟨layers, h.registry.layering _ _ hl, fun _ => rfl⟩
    · exact h.made id kind (Nat.le_of_not_lt hlt) hk
  traced id := by
    by_cases hlt : id < n.nodes.size
    · refine (hn.traced id).of_view (h.view id hlt) fun d hd hfiled => hfiled.mono
        (fun ht => (h.registry.sameAt ht).topic.trans ht) fun k g' hg' hpaths => ?_
      obtain ⟨g, hg, heq⟩ | ⟨-, -, hnone⟩ := h.graph k g' hg'
      · exact ⟨k, g, hg, heq⟩
      · -- nobody is attached to new paths
        have hheld : d.2 ∈ n'.held id := by
          rw [held_of_view (h.view id hlt)]
          exact mem_held_of_recorded hd
        obtain ⟨listener, hlistener, -⟩ := (h.ledger.balance id _).mp hheld
        rw [hpaths, hnone] at hlistener
        cases hlistener
    · exact h.traced_new (Nat.le_of_not_lt hlt)
  path_held hsc key g' hg' id s hs htopic := by
    obtain ⟨g, hg, hpaths⟩ | ⟨-, -, hnone⟩ := h.graph key g' hg'
    · by_cases hlt : id < n.nodes.size
      · rw [held_of_view (h.view id hlt)] at hs
        obtain ⟨e, he, hid⟩ := hn.path_held hsc key g hg id s hs (hpaths ▸ htopic)
        exact ⟨e, h.registry.entry _ e he, hid⟩
      · cases hbody : n'.body? id with
        | none => simp [held, hbody] at hs
        | some body =>
          have hview : n'.view? id = some body.view := by rw [view?, hbody, Option.map_some]
          have hs : s ∈ body.view.held := by simpa [held, hbody, Body.view] using hs
          exact absurd htopic ((h.new id _ (Nat.le_of_not_lt hlt) hview).unheld s hs _)
    · obtain ⟨listener, hlistener, -⟩ := (h.ledger.balance id s).mp hs
      rw [htopic, hnone] at hlistener
      cases hlistener

omit [Number N] in
theorem failed_iff (h : n.Grows sc n') (c : Nat) : n'.Failed c ↔ n.Failed c := by
  rw [Failed, Failed, h.value, h.isObserved]

omit [Number N] in
/-- A cell that failed is not new. -/
theorem denotes_of_failed (h : n.Grows sc n') {id : Nat} {φ : Formula N} {p : Path (Stat N)}
    (hd : n'.Denotes sc id φ p) (hfailed : n'.Failed (id + 1)) : n.Denotes sc id φ p :=
  h.extension.denotes_of_lt hd
    (Nat.lt_of_succ_lt (lt_size_of_isObserved ((h.failed_iff _).mp hfailed).1))

/-- What is stuck stays stuck when parts are made. -/
theorem stuck (h : n.Grows sc n') {id : Nat} {φ : Formula N} {p : Path (Stat N)}
    (hid : id < n.nodes.size) (hstuck : n.Stuck sc id φ p) : n'.Stuck sc id φ p :=
  hstuck.transfer (recorded_of_view (h.view id hid))
    (fun _ ⟨_, hs⟩ => h.registry.sameAt (hstuck.resolved _ hs))
    (fun _ _ _ _ _ hv => (h.value _).trans hv) fun _ _ _ _ => (h.failed_iff _).mpr

omit [Number N] in
theorem lit (h : n.Grows sc n') (hn : n.Wired sc) (hlit : n.Lit sc) : n'.Lit sc where
  shown c hc := by
    rw [h.value] at hc
    rw [h.isObserved]
    exact hlit.shown c hc
  entered c flags hflags hentered := by
    obtain hc | ⟨-, hdark⟩ := h.flags_eq_or c
    · obtain ⟨hvalue, hfollows⟩ := hlit.entered c flags (hc ▸ hflags) hentered
      refine ⟨hvalue, fun hsc => ?_⟩
      obtain ⟨hstale, id, φ, p, hid, hd⟩ := hfollows hsc
      exact ⟨hstale, id, φ, p, hid, h.extension.denotes hd⟩
    · rw [hdark flags hflags] at hentered
      exact absurd hentered (by simp [Flags.dark])
  main hsc key e he hflagged := by
    obtain he | ⟨-, hdark⟩ := h.entry _ e he
    · exact h.registry.path key _ (hlit.main hsc key e he ((h.flagged_iff _).mp hflagged))
    · exact absurd hflagged (h.not_flagged (hdark.trans (Nat.le_succ _)))
  tells hsc key e he hvalue hentered := by
    obtain he | ⟨-, hdark⟩ := h.entry _ e he
    · rw [h.value, h.isObserved] at hvalue
      rw [h.isEntered] at hentered
      obtain ⟨s, hs, htopic⟩ := hlit.tells hsc key e he hvalue hentered
      obtain ⟨l, g, layers, hcell, -⟩ := (hn.stages _ e he).cell
      refine ⟨s, ?_, ?_⟩
      · rwa [recorded_of_view (h.view _ (lt_size_of_kind? hcell.formula))]
      · rw [(h.registry.sameAt htopic).topic, htopic]
    · refine absurd ?_ (h.not_flagged (hdark.trans (Nat.le_succ _)))
      exact hvalue.imp_right .inl

/-- Making parts keeps the invariant. -/
theorem core (h : n.Grows sc n') (hn : n.Core sc) : n'.Core sc where
  wired := h.wired hn.wired
  orderly := h.orderly
  listed := h.listed hn.listed
  lit := h.lit hn.wired hn.lit
  sound id φ p v hd hv := by
    rw [h.value] at hv
    have hlt := lt_size_of_isObserved (hn.lit.shown (id + 1) (by simp [hv]))
    exact h.extension.grounded
      (hn.sound id φ p v (h.extension.denotes_of_lt hd (Nat.lt_of_succ_lt hlt)) hv)
  blocked id φ p hd hfailed hentered := by
    have hd := h.denotes_of_failed hd hfailed
    rw [h.isEntered] at hentered
    obtain ⟨source, hcell, -⟩ := hn.wired.cell_of_denotes hn.orderly.stats hd
    exact h.stuck (lt_size_of_kind? hcell.formula)
      (hn.blocked id φ p hd ((h.failed_iff _).mp hfailed) hentered)
  unreleased := h.released.trans hn.unreleased

end Grows

end Network

end StatEngine
