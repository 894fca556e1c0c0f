import StatEngine.Proofs.Exploring
import StatEngine.Proofs.Hosts

/-!
# Whatever hosts do

A host may use any stats and any formulas, and call a calculator in any order. Between two calls nothing
is being computed then, no batch is running, the invariant holds and the books agree (`Rests`). Calls
that are not about modifiers leave the members of all collections as they are. The same goes for a host
that uses no more than a regime admits, as long as no stat is followed.

## Main definitions

* `Calculator.Call.Sound`: a call that is about what is there;
* `Calculator.Call.Fits`: a call that names what a regime admits;
* `Calculator.Call.KeepsModifiers`: a call that is not about modifiers;
* `Calculator.Visited`: the networks that a host can get to.

## Main statements

* `Network.Rests.call` and `Calculator.Visited.rests`: calls keep what holds between calls.
-/

namespace StatEngine

open Network

variable {N A σ : Type}

namespace Calculator

/-- A call that is about what is there. Hosts do not listen to the members of a collection. -/
def Call.Sound (n : Network N A σ) : Call N A → Prop
  | .read node => n.Readable node
  | .listen topic _ => n.hasTopic topic ∧ ∀ c, topic ≠ .members c
  | _ => True

/-- A call that names what a regime admits, and is about what is there. -/
def Call.Fits (sc : Regime N) (n : Network N A σ) : Call N A → Prop
  | .add m => sc.Allows m
  | .update _ u => ∀ m ∈ u.added, sc.Allows m
  | .value stat _ path => sc.Admits stat ∧ sc.HasPath path
  | .form stat _ path => sc.Admits stat ∧ sc.HasPath path
  | .paths stat => sc.Admits stat
  | .read node => n.Readable node
  | .listen topic _ => n.hasTopic topic ∧ ∀ c, topic ≠ .members c
  | _ => True

/-- A call that registers no modifier, and takes none back. -/
def Call.KeepsModifiers : Call N A → Prop
  | .add _ => False
  | .remove _ => False
  | .update _ _ => False
  | _ => True

end Calculator

/-- Where no stat is followed, every modifier is admitted. -/
theorem Regime.free_allows (m : Modifier N) : (Regime.free : Regime N).Allows m where
  stats _ _ := trivial
  path := trivial
  formula := trivial

/-- Where no stat is followed, every call names what is admitted. -/
theorem Calculator.Call.Sound.fits {n : Network N A σ} {call : Call N A} (h : call.Sound n) :
    call.Fits .free n := by
  cases call with
  | add m => exact Regime.free_allows m
  | update settings u => exact fun m _ => Regime.free_allows m
  | value | form => exact ⟨trivial, trivial⟩
  | read | listen => exact h
  | _ => trivial

namespace Network

variable {n n' : Network N A σ} {sc : Regime N}

/-- The members of collections stay the same. -/
def KeepsMembers (n n' : Network N A σ) : Prop :=
  ∀ k f p, n'.registry.members k f p = n.registry.members k f p

theorem KeepsMembers.of_registry (h : n'.registry = n.registry) : n.KeepsMembers n' := fun k f p => by
  rw [h]

variable [Number N]

/-- What holds between two calls, whatever is used: nothing is being computed, no batch is running, and
the books agree. -/
structure Rests (sc : Regime N) (n : Network N A σ) : Prop extends n.AtRest sc where
  unfollowed : ¬ sc.Follows
  books : n.Bookkept

theorem Rests.sane (hn : n.Rests sc) : n.Sane sc := ⟨hn.unfollowed, hn.inv, hn.books⟩

/-- Hosts may read whatever is there. Reading has a result if `b` holds. -/
def Legible (sc : Regime N) (b : Prop) (host : Host N A σ) : Prop :=
  ∀ {n : Network N A σ} {id : Nat}, n.Rests sc → n.Readable id →
    Leads b (valueOf host id).run n fun _ n' => n.Advances sc n'

theorem legible_of_explored {host : Host N A σ} (h : host.Explored sc) : Legible sc False host :=
  fun hn hid => hn.sane.valueOf h hid

namespace Rests

theorem of_proceeds (hn : n.Rests sc) (h : n.Proceeds n') (hinv : n'.Inv sc) (hbooks : n'.Bookkept) :
    n'.Rests sc := ⟨hn.toAtRest.of_proceeds hinv h, hn.unfollowed, hbooks⟩

theorem of_advances (hn : n.Rests sc) (h : n.Advances sc n') : n'.Rests sc ∧ n.KeepsMembers n' :=
  ⟨hn.of_proceeds h.proceeds h.sane.inv h.sane.books,
    h.gains.members h.sane.inv.orderly hn.inv.orderly⟩

theorem of_hostsDiffer (hn : n.Rests sc) {topic : Topic} (h : n.HostsDiffer n' topic)
    (hbooks : n'.Bookkept) : n'.Rests sc ∧ n'.registry = n.registry :=
  ⟨⟨hn.toAtRest.of_hostsDiffer h, hn.unfollowed, hbooks⟩, h.registry⟩

theorem start (hsc : ¬ sc.Follows) (settings : Settings) (catalog : Option (Catalog N)) (state : σ) :
    (Calculator.start settings catalog state : Network N A σ).Rests sc :=
  ⟨⟨inv_empty _ _ _ _, idle_empty _ _ _, calm_empty _ _ _⟩, hsc,
    Calculator.bookkept_start settings catalog state⟩

section Calls

variable {host : Host N A σ} {tell : A → σ → σ} (hhost : host.Aloof tell)
include hhost

/-- Registering a modifier has a result. Each of its stats gets it after those it has. -/
theorem leads_add (hn : n.Rests sc) {m : Modifier N} (hm : sc.Allows m) :
    Leads True (addModifier host m) n fun _ n' =>
      n'.Rests sc ∧ n.registry.Appends n'.registry m (m.stats.map Stat.key)
        ∧ ((∀ s ∈ m.stats, s.behaviors = []) → n.installed = [] →
          ∀ K, n.Confines K → Covers K m m.stats → n.Spares K n') := by
  have hadd := leads_addModifier hhost.toQuiet hn.inv hn.idle hm
  refine (hadd.and (hn.books.addModifier hhost.harmless m)).weaken ?_
  rintro - n' ⟨⟨hinv, hchanges, -, happends, hspares⟩, hbooks, -⟩
  exact ⟨hn.of_proceeds hchanges.toProceeds hinv hbooks, happends, hspares⟩

/-- Taking a modifier back has a result. Each of its stats loses the oldest one. -/
theorem leads_remove (hn : n.Rests sc) (m : Modifier N) : Leads True (removeModifier host m) n
    fun removed n' => n'.Rests sc ∧ n.registry.Erases n'.registry m (m.stats.map Stat.key)
      ∧ n.TellsRemoval n' m m.stats removed
      ∧ ∀ K, n.Confines K → Covers K m m.stats → n.Spares K n' := by
  have hremove := leads_removeModifier hhost.toQuiet hn.inv hn.idle m
  refine (hremove.and (hn.books.removeModifier hhost.harmless m)).weaken ?_
  rintro removed n' ⟨⟨hinv, hchanges, -, herases, htells, hspares⟩, hbooks, -⟩
  exact ⟨hn.of_proceeds hchanges.toProceeds hinv hbooks, herases, htells, hspares⟩

/-- Applying an update has a result. -/
theorem leads_update (hn : n.Rests sc) (settings : Settings) {u : Update N}
    (hu : ∀ m ∈ u.added, sc.Allows m) :
    Leads True (Calculator.update host settings u) n fun _ n' => n'.Rests sc := by
  have hupdate := Network.leads_update hhost.toQuiet hn.inv hn.idle hn.calm settings hu
  refine (hupdate.and (Calculator.bookkept_update hhost.harmless settings u hn.books)).weaken ?_
  rintro - n' ⟨⟨hinv, hupdates⟩, hbooks⟩
  exact hn.of_proceeds hupdates.changes.toProceeds hinv hbooks

/-- Removing what is unused has a result. -/
theorem leads_prune (hn : n.Rests sc) :
    Leads True (removeUnused host) n fun count n' => n'.Rests sc ∧ n.Trims tell n' count := by
  have hprune := leads_removeUnused hhost.toQuiet hn.inv hn.idle
  refine (hprune.and (hn.books.removeUnused hhost.harmless)).weaken ?_
  rintro count n' ⟨⟨hinv, htrims, -⟩, hbooks⟩
  exact ⟨hn.of_proceeds htrims.changes.toProceeds hinv hbooks, htrims⟩

section Reads

variable {b : Prop} (hlegible : Legible sc b host)

include hlegible

/-- Any stage of any stat may be read. -/
theorem leads_value (hn : n.Rests sc) {stat : Stat N} (hadmits : sc.Admits stat) (stage : Stage)
    {path : Path (Stat N)} (hhas : sc.HasPath path) :
    Leads b (Calculator.value host stat stage path).run n fun _ n' => n.Advances sc n' := by
  rw [Calculator.value, ExceptT.run_bind_lift]
  have hnode : Leads b (Calculator.node host stat stage path) n
      fun id n' => n.Advances sc n' ∧ n'.Readable id := by
    have hmade : Leads True (nodesOf host stat stage path) n _ := hn.sane.nodesOf hhost hadmits hhas
    refine (hmade.mono (fun _ => trivial) fun _ _ h => h).bind ?_
    rintro e n' ⟨hadvances, he⟩
    exact .of_pure ⟨hadvances, (hadvances.sane.readable_stage he).1⟩
  refine hnode.bind ?_
  rintro id n₁ ⟨h₁, hid⟩
  exact (hlegible (hn.of_advances h₁).1 hid).weaken fun _ _ h₂ => h₁.trans h₂

/-- What the modifiers of any form come to may be read. -/
theorem leads_form (hn : n.Rests sc) {stat : Stat N} (hadmits : sc.Admits stat) (form : Form)
    {path : Path (Stat N)} (hhas : sc.HasPath path) :
    Leads b (Calculator.Call.run host (.form stat form path)) n fun _ n' => n.Advances sc n' := by
  have hmade := hn.sane.collectionOf hhost hadmits form hhas
  refine (hmade.mono (fun _ => trivial) fun _ _ h => h).bind ?_
  rintro e n₁ ⟨h₁, he⟩
  have hn₁ := (hn.of_advances h₁).1
  exact .discard ((hlegible hn₁ (h₁.sane.readable_aggregate he)).weaken fun _ _ h₂ => h₁.trans h₂)

end Reads

/-- The paths of any stat may be read. -/
theorem leads_paths (hn : n.Rests sc) {stat : Stat N} (hadmits : sc.Admits stat) :
    Leads False (Calculator.Call.run host (.paths stat)) n fun _ n' => n.Advances sc n' := by
  refine .discard (((hn.sane.pathSetOf hhost hadmits).mono False.elim fun _ _ h => h).bind ?_)
  rintro set n' ⟨hadvances, -⟩
  exact .get_bind (.of_pure hadvances)

omit hhost in
/-- Hosts may attach listeners. -/
theorem leads_listen (hn : n.Rests sc) {topic : Topic} (htopic : n.hasTopic topic)
    (hmembers : ∀ c, topic ≠ .members c) (action : A) :
    Leads False (attach topic (.host action)) n fun _ n' =>
      n'.Rests sc ∧ n'.registry = n.registry := by
  have hbooks := (quietly_attach topic (.host action)).bookkept hn.books
  refine .of_eq rfl ?_
  exact hn.of_hostsDiffer (hn.inv.wired.ledger.hostsDiffer_listen htopic hmembers action)
    (hbooks.partly rfl).1

omit hhost in
/-- Hosts may detach their listeners. -/
theorem leads_leave (hn : n.Rests sc) (s : Subscription) :
    Leads False (Calculator.detachOwn s) n fun _ n' =>
      n'.Rests sc ∧ n'.registry = n.registry := by
  refine .get_bind ?_
  split
  next hown =>
    obtain ⟨attached, hattached, howned⟩ := List.any_eq_true.mp hown
    rw [Bool.and_eq_true, beq_iff_eq] at howned
    obtain ⟨htoken, hhosts⟩ := howned
    obtain ⟨token, listener⟩ := attached
    cases listener with
    | host action =>
      obtain rfl : token = s.token := htoken
      have hdiffer := hn.inv.wired.ledger.hostsDiffer_leave hn.inv.wired.typed hattached
      have hbooks := (quietly_detach s).bookkept hn.books
      exact .of_eq rfl (hn.of_hostsDiffer hdiffer (hbooks.partly rfl).1)
    | _ => cases hhosts
  next => exact .of_pure ⟨hn, rfl⟩

omit hhost in
/-- Hosts may let go of what they do not use. -/
theorem leads_sweep (hn : n.Rests sc) (held : List Nat) :
    Leads False (Network.sweep held) n fun _ n' => n'.Rests sc ∧ n'.registry = n.registry := by
  have hsweep := Network.leads_sweep (b := False) hn.inv hn.idle held
  refine (hsweep.and (hn.books.sweep held)).weaken ?_
  rintro - n' ⟨⟨hinv, hchanges, hregistry⟩, hbooks⟩
  exact ⟨hn.of_proceeds (hchanges fun _ s => s).toProceeds hinv hbooks, hregistry⟩

/-- Calls keep what holds between calls, and those that are not about modifiers leave all of them where
they are. -/
theorem call (hlegible : Legible sc False host) (hn : n.Rests sc) {call : Calculator.Call N A}
    (hcall : call.Fits sc n) :
    Leads False (call.run host) n fun _ n' =>
      n'.Rests sc ∧ (call.KeepsModifiers → n.KeepsMembers n') := by
  have hkeeps {x : Run N A σ Unit}
      (h : Leads False x n fun _ n' => n'.Rests sc ∧ n.KeepsMembers n') :
      Leads False x n fun _ n' => n'.Rests sc ∧ (call.KeepsModifiers → n.KeepsMembers n') :=
    h.weaken fun _ _ h => ⟨h.1, fun _ => h.2⟩
  have hadvances {x : Run N A σ Unit} (h : Leads False x n fun _ n' => n.Advances sc n') :=
    hkeeps (h.weaken fun _ _ h => hn.of_advances h)
  have hfiled {x : Run N A σ Unit}
      (h : Leads False x n fun _ n' => n'.Rests sc ∧ n'.registry = n.registry) :=
    hkeeps (h.weaken fun _ _ h => ⟨h.1, .of_registry h.2⟩)
  cases call with
  | add m => exact (hn.leads_add hhost hcall).mono False.elim fun _ _ h => ⟨h.1, False.elim⟩
  | remove m =>
    exact .discard ((hn.leads_remove hhost m).mono False.elim fun _ _ h => ⟨h.1, False.elim⟩)
  | update settings u =>
    exact (hn.leads_update hhost settings hcall).mono False.elim fun _ _ h => ⟨h, False.elim⟩
  | value stat stage path =>
    exact hadvances (.discard (hn.leads_value hhost hlegible hcall.1 stage hcall.2))
  | form stat form path => exact hadvances (hn.leads_form hhost hlegible hcall.1 form hcall.2)
  | paths stat => exact hadvances (hn.leads_paths hhost hcall)
  | read id => exact hadvances (.discard (hlegible hn hcall))
  | prune =>
    exact hkeeps (.discard ((hn.leads_prune hhost).mono False.elim fun _ _ h => ⟨h.1, h.2.members⟩))
  | listen topic action => exact hfiled (.discard (hn.leads_listen hcall.1 hcall.2 action))
  | leave s => exact hfiled (hn.leads_leave s)
  | sweep held => exact hfiled (hn.leads_sweep held)

end Calls

end Rests

end Network

namespace Calculator

variable [Number N]

/-- The networks that a host can get to by calls. -/
inductive Visited (host : Host N A σ) : Network N A σ → Prop where
  /-- There is nothing yet. -/
  | start (settings : Settings) (catalog : Option (Catalog N)) (state : σ) :
    Visited host (Calculator.start settings catalog state)
  /-- One more call was carried out. -/
  | call {n n' : Network N A σ} (before : Visited host n) {call : Call N A} (hsound : call.Sound n)
    (hrun : call.run host n = some (⟨⟩, n')) : Visited host n'

/-- Between calls nothing is being computed, and all is in order. -/
theorem Visited.rests {host : Host N A σ} {tell : A → σ → σ} (hhost : host.Aloof tell)
    {n : Network N A σ} (h : Visited host n) : n.Rests .free := by
  induction h with
  | start settings catalog state => exact .start Regime.not_follows_free settings catalog state
  | call _ hsound hrun ih => exact ((ih.call hhost (legible_of_explored (explored_free hhost)) hsound.fits).partly hrun).1

end Calculator

end StatEngine
