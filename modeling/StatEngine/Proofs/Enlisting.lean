import StatEngine.Number.Exact
import StatEngine.Proofs.Collecting

/-!
# The stats listed for hosts

A stat that hosts are to see is put on their list when its subgraph is made. No call but one that removes
what is unused takes it off (`Enlists`). It then goes off the list whether or not its subgraph goes too,
unless it has modifiers, or a host listens to the node that shows its total. A stat that is off the list
and still in use is not listed again, even if it gets a modifier (`off_the_list`).

## Main definitions

* `Calculator.Call.Prunes`: a call that removes what is unused;
* `Network.OnList`: a stat is listed once, with a node that shows its total;
* `Calculator.Tended`: the networks that a host gets to when no removal takes a stat off the list.

## Main statements

* `Network.Rests.call_enlists`: a call that does not prune takes nothing off the list;
* `Calculator.tended_shows`: a stat that is in use is listed as long as no removal may take it off.
-/

namespace StatEngine

open Network

variable {N A σ : Type}

/-- A call that removes what is unused. -/
def Calculator.Call.Prunes : Call N A → Prop
  | .prune => True
  | .update settings u => settings.pruneAfterUpdate = true ∧ u.isEmpty = false
  | _ => False

namespace Network

variable {n m n' : Network N A σ} {key : StatKey} {gone : List Nat}

/-- A stat is on the list of the hosts once, with a node that shows its total. -/
def OnList (n : Network N A σ) (key : StatKey) : Prop :=
  ∃ x e, n.listing.entries.filter (fun y => y.1.key == key) = [x]
    ∧ n.registry.stage? ⟨key, .total, Path.main⟩ = some e ∧ n.kind? x.2 = some (.wrapped e.cached)

/-- A stat that is in use is listed if it is to be. -/
def Listed (n : Network N A σ) (key : StatKey) : Prop :=
  ∀ g, n.registry.graph? key = some g → g.stat.listed = true → ∃ x ∈ n.listing.entries, x.1.key = key

/-- A stat that is still in use has modifiers, or a host listened to the node that shows its total. -/
def Tends (n n' : Network N A σ) (key : StatKey) : Prop :=
  ∀ g, n'.registry.graph? key = some g →
    0 < g.modifierCount ∨ ∃ x ∈ n.listing.entries, x.1.key = key ∧ n.callbacks (.changed x.2) ≠ []

/-- What is listed is listed once. -/
theorem Lists.onList (hn : n.Lists) {x : Stat N × Nat} (hx : x ∈ n.listing.entries) :
    n.OnList x.1.key := by
  obtain ⟨e, he, hkind, -⟩ := hn.shows x hx
  refine ⟨x, e, ?_, he, hkind⟩
  have hkeys : ((n.listing.entries.map (·.1.key)).filter (· == x.1.key)).length ≤ 1 := by
    rw [← List.countP_eq_length_filter]
    exact List.nodup_iff_count_le_one.mp hn.nodup x.1.key
  rw [List.filter_map, List.length_map] at hkeys
  have hmem : x ∈ n.listing.entries.filter fun y => y.1.key == x.1.key :=
    List.mem_filter.mpr ⟨hx, beq_self_eq_true _⟩
  obtain ⟨y, hy⟩ := List.length_eq_one_iff.mp (le_antisymm hkeys (List.length_pos_of_mem hmem))
  exact hy.trans (congrArg ([·]) (List.mem_singleton.mp (hy ▸ hmem)).symm)

/-- Stats that are listed stay so, and those that come into use are listed. -/
theorem Listed.enlists {sc : Regime N} (h : n.Listed key) (hn : n.registry.Orderly sc)
    (hlists : n.Enlists n') : n'.Listed key := by
  intro g' hg' hlisted
  obtain rfl := Registry.stat_key hg'
  obtain ⟨id, hid, hgraph'⟩ := Registry.graph?_eq_some_iff.mp hg'
  obtain ⟨hlive, g, hgraph, hstat⟩ | hmade := hlists.made id (Registry.graphId?_spec hid).1 g' hgraph'
  · have hg : n.registry.graph? g.stat.key = some g := by
      obtain ⟨g₁, hg₁, hid⟩ := hn.live_found id hlive
      obtain rfl : g₁ = g := Option.some.inj (hg₁.symm.trans hgraph)
      exact Registry.graph?_eq_some_iff.mpr ⟨id, hid, hgraph⟩
    obtain ⟨x, hx, hkey⟩ := h g (hstat ▸ hg) (hstat ▸ hlisted)
    exact ⟨x, hlists.listed hx, hkey⟩
  · exact hmade hlisted

/-- Removing what is unused takes no stat off the list that has modifiers, and none that a host listens to. -/
theorem Listed.sheds (h : m.Listed key) (hsheds : m.Sheds n' gone)
    (hcallbacks : ∀ t, n'.callbacks t = m.callbacks t) (htends : m.Tends n' key) : n'.Listed key := by
  intro g' hg' hlisted
  obtain ⟨g, hg, hstat, -, hcount⟩ := hsheds.graph key g' hg'
  have hkeep {x : Stat N × Nat} (hx : x ∈ m.registry.listed) (hkey : x.1.key = key) (hgone : x.2 ∉ gone) :
      ∃ y ∈ n'.listing.entries, y.1.key = key := by
    refine ⟨x, ?_, hkey⟩
    change x ∈ n'.registry.listed
    rw [hsheds.listed]
    exact List.mem_filter.mpr ⟨hx, decide_eq_true hgone⟩
  obtain hbusy | ⟨x, hx, hkey, hheard⟩ := htends g' hg'
  · obtain ⟨x, hx, rfl⟩ := h g hg (hstat ▸ hlisted)
    refine hkeep hx rfl fun hgone => ?_
    have := (hsheds.unshown x hx hgone).2 g hg
    omega
  · refine hkeep hx hkey fun hgone => hheard ?_
    rw [← hcallbacks, callbacks, (hsheds.unshown x hx hgone).1]
    rfl

/-- What is attended to stays so when more is listed, and no host listens to anything else. -/
theorem Tends.enlists (h : n.Tends n' key) (hlists : n.Enlists m)
    (hcallbacks : ∀ t, m.callbacks t = n.callbacks t) : m.Tends n' key := fun g hg =>
  (h g hg).imp_right fun ⟨x, hx, hkey, hheard⟩ =>
    ⟨x, hlists.listed hx, hkey, hcallbacks _ ▸ hheard⟩

variable [Number N] {sc : Regime N} {host : Host N A σ} {tell : A → σ → σ}

/-- What is listed stays so, up to where something unused is removed. -/
def EnlistsBefore (tell : A → σ → σ) (n n' : Network N A σ) (prunes : Prop) : Prop :=
  n.Enlists n' ∨ prunes ∧ ∃ m count, n.Enlists m ∧ (∀ t, m.callbacks t = n.callbacks t)
    ∧ m.Trims tell n' count

/-- A call takes nothing off the list before it prunes. -/
theorem Rests.call_enlists (hhost : host.Aloof tell) (hlegible : Legible sc False host) (hn : n.Rests sc)
    {call : Calculator.Call N A} (hcall : call.Fits sc n) :
    Leads False (call.run host) n fun _ n' => n.EnlistsBefore tell n' call.Prunes := by
  have hadvances {x : Run N A σ Unit} (h : Leads False x n fun _ n' => n.Advances sc n') :
      Leads False x n fun _ n' => n.EnlistsBefore tell n' call.Prunes :=
    h.weaken fun _ _ h => .inl h.gains.toEnlists
  have hfiled {x : Run N A σ Unit}
      (h : Leads False x n fun _ n' => n'.Rests sc ∧ n'.registry = n.registry) :
      Leads False x n fun _ n' => n.EnlistsBefore tell n' call.Prunes :=
    h.weaken fun _ n' h => by
      have hlisted : n'.books.listed = n.books.listed := congrArg Registry.listed h.2
      exact .inl (.of_tables (congrArg Registry.live h.2) (congrArg Registry.graphs h.2)
        (hlisted ▸ List.Subset.refl _))
  cases call with
  | add m => exact (hn.books.addModifier hhost.harmless m).weaken fun _ _ h => .inl h.2
  | remove m => exact .discard ((hn.books.removeModifier hhost.harmless m).weaken fun _ _ h => .inl h.2)
  | update settings u =>
    change Leads False (Calculator.update host settings u) n _
    rw [Calculator.update]
    split
    · exact .of_pure (.inl (.refl n))
    next hempty =>
      have hbatch := (leads_updateBatch hhost.toQuiet hn.inv hn.idle hn.calm hcall).and
        (Calculator.bookkept_updateBatch hhost.harmless u hn.books)
      refine (hbatch.mono False.elim fun _ _ h => h).bind ?_
      rintro - m ⟨⟨hinv, hupdates⟩, hbooks, hlists⟩
      split
      next hprunes =>
        have hm : m.Rests sc := hn.of_proceeds hupdates.changes.toProceeds hinv hbooks
        refine ((hm.leads_prune hhost).mono False.elim fun _ _ h => h).bind fun count n' h => .of_pure ?_
        exact .inr ⟨⟨hprunes, eq_false_of_ne_true hempty⟩, m, count, hlists, hupdates.changes.callbacks, h.2⟩
      next => exact .of_pure (.inl hlists)
  | value stat stage path =>
    exact hadvances (.discard (hn.leads_value hhost hlegible hcall.1 stage hcall.2))
  | form stat form path => exact hadvances (hn.leads_form hhost hlegible hcall.1 form hcall.2)
  | paths stat => exact hadvances (hn.leads_paths hhost hcall)
  | read id => exact hadvances (.discard (hlegible hn hcall))
  | prune =>
    refine ((hn.leads_prune hhost).mono False.elim fun _ _ h => h).bind fun count n' h => .of_pure ?_
    exact .inr ⟨trivial, n, count, .refl n, fun _ => rfl, h.2⟩
  | listen topic action => exact hfiled (.discard (hn.leads_listen hcall.1 hcall.2 action))
  | leave s => exact hfiled (hn.leads_leave s)
  | sweep held => exact hfiled (hn.leads_sweep held)

/-- A stat that is in use stays listed if a call that prunes does not take it off. -/
theorem Listed.call (h : n.Listed key) (hhost : host.Aloof tell) (hlegible : Legible sc False host)
    (hn : n.Rests sc) {call : Calculator.Call N A} (hcall : call.Fits sc n)
    (hrun : call.run host n = some (⟨⟩, n')) (htends : call.Prunes → n.Tends n' key) : n'.Listed key := by
  obtain hlists | ⟨hprunes, m, count, hlists, hcallbacks, htrims⟩ :=
    (hn.call_enlists hhost hlegible hcall).partly hrun
  · exact h.enlists hn.inv.orderly hlists
  · obtain ⟨gone, hsheds⟩ := htrims.sheds
    exact (h.enlists hn.inv.orderly hlists).sheds hsheds htrims.changes.callbacks
      ((htends hprunes).enlists hlists hcallbacks)

end Network

namespace Calculator

variable [Number N] {host : Host N A σ} {tell : A → σ → σ} {n : Network N A σ} {key : StatKey}

/-- The networks that a host can get to by calls, when whatever removes what is unused leaves a stat in use
only if it has modifiers, or a host listens to the node that shows its total. -/
inductive Tended (host : Host N A σ) (key : StatKey) : Network N A σ → Prop where
  /-- There is nothing yet. -/
  | start (settings : Settings) (catalog : Option (Catalog N)) (state : σ) :
    Tended host key (Calculator.start settings catalog state)
  /-- One more call was carried out. -/
  | call {n n' : Network N A σ} (before : Tended host key n) {call : Call N A} (hsound : call.Sound n)
    (hrun : call.run host n = some (⟨⟩, n')) (htends : call.Prunes → n.Tends n' key) : Tended host key n'

namespace Tended

theorem visited (h : Tended host key n) : Visited host n := by
  induction h with
  | start settings catalog state => exact .start settings catalog state
  | call _ hsound hrun _ ih => exact ih.call hsound hrun

/-- Calls that are always sound and do not prune may follow. -/
theorem runs {calls : List (Call N A)} (h : Tended host key n)
    (hcalls : ∀ call ∈ calls, (∀ n : Network N A σ, call.Sound n) ∧ ¬ call.Prunes) {n' : Network N A σ}
    (hrun : Calculator.runs host calls n = some (⟨⟩, n')) : Tended host key n' := by
  refine (leads_runs (b := False) (I := Tended host key) (fun call hcall n hn => ?_) h).partly hrun
  obtain ⟨hsound, hprunes⟩ := hcalls call hcall
  exact ⟨False.elim, fun hrun => hn.call (hsound n) hrun fun h => absurd h hprunes⟩

theorem listed (hhost : host.Aloof tell) (h : Tended host key n) : n.Listed key := by
  induction h with
  | start settings catalog state => nofun
  | call before hsound hrun htends ih =>
    exact ih.call hhost (legible_of_explored (explored_free hhost)) (before.visited.rests hhost) hsound.fits
      hrun htends

end Tended

/-- A stat in use that hosts are to see is listed once, with a node that shows its total, if all that was
removed as unused left it with modifiers or listened to. -/
theorem tended_shows (hhost : host.Aloof tell) (h : Tended host key n) {g : Subgraph N}
    (hg : n.registry.graph? key = some g) (hlisted : g.stat.listed = true) : n.OnList key := by
  obtain ⟨x, hx, rfl⟩ := h.listed hhost g hg hlisted
  exact (h.visited.rests hhost).inv.listed.onList hx

namespace Enlisting

/-- A stat that hosts are to see. -/
def life : Stat ℚ := ⟨⟨"Life", .character⟩, none, none, .double, true, []⟩

/-- A stat that is not listed. -/
def rage : Stat ℚ := ⟨⟨"Rage", .character⟩, none, none, .double, false, []⟩

/-- Rage reads the total of life. -/
def gain : Modifier ℚ := ⟨[rage], .baseAdd, .total life, 0, ⟨.global, ""⟩⟩

/-- Life gets a modifier. -/
def base : Modifier ℚ := ⟨[life], .baseAdd, .constant (some (.single 5)), 1, ⟨.global, ""⟩⟩

/-- The total of life comes into use, as rage reads it. -/
def reading : List (Call ℚ Unit) := [.add gain, .value rage .total Path.main]

theorem tended_reading {n : Network ℚ Unit Unit}
    (hrun : runs Host.idle reading (start .standard none ()) = some (⟨⟩, n)) :
    Tended Host.idle life.key n := by
  refine (Tended.start .standard none ()).runs (fun call hcall => ?_) hrun
  obtain rfl | rfl : call = _ ∨ call = _ := by simpa [reading] using hcall
  all_goals exact ⟨fun _ => trivial, nofun⟩

/-- Life is in use, is to be listed, and has a modifier. -/
def due (n : Network ℚ Unit Unit) : Bool :=
  (n.registry.graph? life.key).any fun g => g.stat.listed && decide (0 < g.modifierCount)

theorem exists_of_due {n : Network ℚ Unit Unit} (h : due n = true) :
    ∃ g, n.registry.graph? life.key = some g ∧ g.stat.listed = true ∧ 0 < g.modifierCount := by
  obtain ⟨g, hg, h⟩ := (Option.any_eq_true _ _).mp h
  rw [Bool.and_eq_true, decide_eq_true_iff] at h
  exact ⟨g, hg, h⟩

/-- The node that shows the total of life. -/
def shown (n : Network ℚ Unit Unit) : Nat := (n.listing.entries.head?.map (·.2)).getD 0

/-- A host listens to the node that shows the total of life. -/
def heard (n : Network ℚ Unit Unit) : Bool :=
  n.listing.entries.any fun x => x.1.key == life.key && !(n.callbacks (.changed x.2)).isEmpty

end Enlisting

open Enlisting in
/-- A host that listens to the node that shows a total keeps the stat on the list. -/
theorem tended_shows_heard : ∃ (n : Network ℚ Unit Unit) (g : Subgraph ℚ), Tended Host.idle life.key n
    ∧ n.registry.graph? life.key = some g ∧ g.stat.listed = true ∧ 0 < g.modifierCount
    ∧ n.OnList life.key := by
  have hruns : ((runs (A := Unit) Host.idle reading (start .standard none ())).any fun r =>
      decide (shown r.2 < r.2.nodes.size)
        && ((Call.run Host.idle (.listen (.changed (shown r.2)) ()) r.2).any fun s => heard s.2
          && (Call.run Host.idle .prune s.2).any fun t =>
            (Call.run Host.idle (.add base) t.2).any fun u => due u.2)) = true := by
    decide +kernel
  obtain ⟨⟨⟨⟩, n₁⟩, hread, hfacts⟩ := (Option.any_eq_true _ _).mp hruns
  rw [Bool.and_eq_true, decide_eq_true_iff] at hfacts
  obtain ⟨htopic, hfacts⟩ := hfacts
  obtain ⟨⟨⟨⟩, n₂⟩, hlisten, hfacts⟩ := (Option.any_eq_true _ _).mp hfacts
  rw [Bool.and_eq_true] at hfacts
  obtain ⟨hheard, hfacts⟩ := hfacts
  obtain ⟨⟨⟨⟩, n₃⟩, hprune, hfacts⟩ := (Option.any_eq_true _ _).mp hfacts
  obtain ⟨⟨⟨⟩, n⟩, hadd, hdue⟩ := (Option.any_eq_true _ _).mp hfacts
  have htended₂ : Tended Host.idle life.key n₂ :=
    (tended_reading hread).call (by exact ⟨htopic, nofun⟩) hlisten (by nofun)
  have htended₃ : Tended Host.idle life.key n₃ := htended₂.call (by trivial) hprune fun _ g hg => by
    obtain ⟨x, hx, hkey⟩ := List.any_eq_true.mp hheard
    rw [Bool.and_eq_true, beq_iff_eq, Bool.not_eq_true', List.isEmpty_eq_false_iff] at hkey
    exact .inr ⟨x, hx, hkey⟩
  have htended : Tended Host.idle life.key n := htended₃.call (by trivial) hadd (by nofun)
  obtain ⟨g, hg, hlisted, hcount⟩ := exists_of_due hdue
  exact ⟨n, g, htended, hg, hlisted, hcount, tended_shows Host.aloof_idle htended hg hlisted⟩

open Enlisting in
/-- A stat that no host listens to is taken off the list though it stays in use, and its next modifier does
not put it back. -/
theorem off_the_list : ∃ (n : Network ℚ Unit Unit) (g : Subgraph ℚ), Visited Host.idle n
    ∧ n.registry.graph? life.key = some g ∧ g.stat.listed = true ∧ 0 < g.modifierCount
    ∧ n.listing.entries = [] := by
  have hruns : ((runs (A := Unit) Host.idle reading (start .standard none ())).any fun r =>
      (Call.run Host.idle .prune r.2).any fun s => (Call.run Host.idle (.add base) s.2).any fun t =>
        due t.2 && t.2.listing.entries.isEmpty) = true := by
    decide +kernel
  obtain ⟨⟨⟨⟩, n₁⟩, hread, hfacts⟩ := (Option.any_eq_true _ _).mp hruns
  obtain ⟨⟨⟨⟩, n₂⟩, hprune, hfacts⟩ := (Option.any_eq_true _ _).mp hfacts
  obtain ⟨⟨⟨⟩, n⟩, hadd, hfacts⟩ := (Option.any_eq_true _ _).mp hfacts
  rw [Bool.and_eq_true, List.isEmpty_iff] at hfacts
  have hvisited := (tended_reading hread).visited.call (by trivial) hprune
  obtain ⟨g, hg, hlisted, hcount⟩ := exists_of_due hfacts.1
  exact ⟨n, g, hvisited.call (by trivial) hadd, hg, hlisted, hcount, hfacts.2⟩

end Calculator

end StatEngine
