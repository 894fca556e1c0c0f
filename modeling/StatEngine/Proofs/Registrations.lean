import StatEngine.Proofs.Roaming

/-!
# Modifiers with several stats

A modifier is registered for each of its stats, and taken back for each of them, though every stat keeps
a collection of its own. Nothing that happens in between gets these collections out of step: what they
hold is told by the history of registrations alone (`left`).

## Main definitions

* `Calculator.History`: what a host did with modifiers, and the network it got to;
* `Calculator.netCount`: how often a modifier is registered after a history.

## Main statements

* `Calculator.History.modifiers`: collections hold what is left of the registered modifiers;
* `Calculator.History.registered_as_a_whole`: the stats of a modifier stay in step.
-/

namespace StatEngine

open Network

variable {N A σ : Type}

/-! ## Counting registrations -/

namespace Modifier

theorem same_refl (m : Modifier N) : m.same m = true := same_iff.mpr ⟨rfl, rfl, rfl, rfl⟩

theorem same_symm {a b : Modifier N} (h : a.same b) : b.same a := by
  obtain ⟨hstats, hform, hidentity, hsource⟩ := same_iff.mp h
  exact same_iff.mpr ⟨hstats.symm, hform.symm, hidentity.symm, hsource.symm⟩

theorem same_trans {a b c : Modifier N} (h : a.same b) (h' : b.same c) : a.same c := by
  obtain ⟨hstats, hform, hidentity, hsource⟩ := same_iff.mp h
  obtain ⟨hstats', hform', hidentity', hsource'⟩ := same_iff.mp h'
  exact same_iff.mpr ⟨hstats.trans hstats', hform.trans hform', hidentity.trans hidentity',
    hsource.trans hsource'⟩

end Modifier

/-- Taking a modifier back lowers the count of those that are the same by one, and no other count. -/
theorem countP_eraseP_same {x : Modifier N} {modifiers : List (Modifier N)}
    (h : 0 < modifiers.countP (·.same x)) (m : Modifier N) :
    (modifiers.eraseP (·.same x)).countP (·.same m) + (if x.same m then 1 else 0)
      = modifiers.countP (·.same m) := by
  obtain ⟨a, ha, hsame⟩ := List.countP_pos_iff.mp h
  obtain ⟨b, before, after, -, hb, rfl, heq⟩ := List.exists_of_eraseP (p := (Modifier.same · x)) ha hsame
  have hiff : b.same m = x.same m := Bool.eq_iff_iff.mpr
    ⟨Modifier.same_trans (Modifier.same_symm hb), Modifier.same_trans hb⟩
  rw [heq, List.countP_append, List.countP_append, List.countP_cons, hiff, Nat.add_assoc]

/-- Taking a modifier back leaves the others where they are. -/
theorem filter_iterate_eraseP {α : Type} (q : α → Bool) : ∀ (count : Nat) (l : List α),
    ((List.eraseP q)^[count] l).filter (fun a => !q a) = l.filter fun a => !q a
  | 0, _ => rfl
  | count + 1, l => by
    rw [Function.iterate_succ_apply, filter_iterate_eraseP q count]
    obtain heq | ⟨a, before, after, -, ha, rfl, heq⟩ := List.exists_or_eq_self_of_eraseP q l
    · rw [heq]
    · rw [heq, List.filter_append, List.filter_append, List.filter_cons_of_neg (by simp [ha])]

/-- Every registration of a modifier puts it on file once for each of its stats. -/
theorem countP_registered (m : Modifier N) (modifiers : List (Modifier N)) (key : StatKey) (form : Form)
    (path : PathKey) : (registered modifiers key form path).countP (·.same m)
      = modifiers.countP (·.same m) * m.copies (m.stats.map Stat.key) key form path := by
  induction modifiers with
  | nil => exact (Nat.zero_mul _).symm
  | cons x modifiers ih =>
    have hcons : registered (x :: modifiers) key form path = List.replicate
        (x.copies (x.stats.map Stat.key) key form path) x ++ registered modifiers key form path :=
      List.flatMap_cons
    rw [hcons, List.countP_append, ih, List.countP_replicate, List.countP_cons]
    by_cases hsame : x.same m
    · rw [if_pos hsame, if_pos hsame, Modifier.copies_eq_of_same hsame, Nat.add_mul, Nat.one_mul,
        Nat.add_comm]
    · rw [if_neg hsame, if_neg hsame, Nat.add_zero, Nat.zero_add]

namespace Network

/-- All members that are not there for a modifier stay where they are. -/
def KeepsOthers (n : Network N A σ) (m : Modifier N) (n' : Network N A σ) : Prop :=
  ∀ key form path, (n'.registry.members key form path).filter (fun i => !i.2.same m)
    = (n.registry.members key form path).filter fun i => !i.2.same m

end Network

namespace Registry

variable {n n' : Network N A σ} {m : Modifier N} {keys : List StatKey}

theorem Appends.keepsOthers (h : n.registry.Appends n'.registry m keys) : n.KeepsOthers m n' := by
  intro key form path
  obtain ⟨nodes, -, heq⟩ := h key form path
  have hnone : (nodes.map fun i => (i, m)).filter (fun i => !i.2.same m) = [] := by
    simp [List.filter_eq_nil_iff, Modifier.same_refl]
  rw [heq, List.filter_append, hnone, List.append_nil]

theorem Erases.keepsOthers (h : n.registry.Erases n'.registry m keys) : n.KeepsOthers m n' := by
  intro key form path
  rw [h key form path]
  exact filter_iterate_eraseP (fun i : Nat × Modifier N => i.2.same m) _ _

end Registry

namespace Calculator

/-! ## Histories -/

/-- What came of a call that is about a modifier. -/
inductive Entry (N : Type) where
  /-- A modifier was registered. -/
  | added (modifier : Modifier N)
  /-- A modifier was to be taken back. The answer tells whether it was registered. -/
  | removed (modifier : Modifier N) (answer : Bool)

/-- Whether a modifier was registered. -/
def Entry.adds (m : Modifier N) : Entry N → Bool
  | .added x => x.same m
  | .removed _ _ => false

/-- Whether a modifier was taken back. -/
def Entry.takes (m : Modifier N) : Entry N → Bool
  | .added _ => false
  | .removed x answer => answer && x.same m

/-- How often a modifier is registered: how often it was registered, less how often it was taken back. -/
def netCount (m : Modifier N) (log : List (Entry N)) : Int :=
  log.countP (·.adds m) - log.countP (·.takes m)

/-- One more entry of a history for what is left of the registered modifiers. -/
def Entry.apply (modifiers : List (Modifier N)) : Entry N → List (Modifier N)
  | .added x => modifiers ++ [x]
  | .removed x answer => if answer then modifiers.eraseP (·.same x) else modifiers

/-- What is left of the registered modifiers after a history, in the order they were registered. -/
def left (log : List (Entry N)) : List (Modifier N) := log.foldl Entry.apply []

theorem left_concat (log : List (Entry N)) (entry : Entry N) :
    left (log ++ [entry]) = entry.apply (left log) := List.foldl_concat ..

theorem netCount_concat (m : Modifier N) (log : List (Entry N)) (entry : Entry N) :
    netCount m (log ++ [entry]) = netCount m log + (if entry.adds m then 1 else 0)
      - (if entry.takes m then 1 else 0) := by
  simp only [netCount, List.countP_append, List.countP_singleton]
  split <;> split <;> omega

variable [Number N]

/-- A host got to a network while it registered modifiers and took them back. What else it did in between
is of no concern. -/
inductive History (host : Host N A σ) : List (Entry N) → Network N A σ → Prop where
  /-- There are no modifiers. -/
  | start (settings : Settings) (catalog : Option (Catalog N)) (state : σ) :
    History host [] (Calculator.start settings catalog state)
  /-- A modifier is registered. -/
  | add {log : List (Entry N)} {n n' : Network N A σ} (before : History host log n)
    (modifier : Modifier N) (hrun : addModifier host modifier n = some (⟨⟩, n')) :
    History host (log ++ [.added modifier]) n'
  /-- A modifier is taken back, if it is registered. -/
  | remove {log : List (Entry N)} {n n' : Network N A σ} (before : History host log n)
    (modifier : Modifier N) {answer : Bool}
    (hrun : removeModifier host modifier n = some (answer, n')) :
    History host (log ++ [.removed modifier answer]) n'
  /-- Something is read, what is unused is removed, and the like. -/
  | other {log : List (Entry N)} {n n' : Network N A σ} (before : History host log n)
    {call : Call N A} (hsound : call.Sound n) (hkeeps : call.KeepsModifiers)
    (hrun : call.run host n = some (⟨⟩, n')) : History host log n'

namespace History

variable {host : Host N A σ} {tell : A → σ → σ} {log : List (Entry N)} {n : Network N A σ}

section Step

variable {m : Modifier N}

omit [Number N] in
/-- A modifier is taken back if it is among those that are left, and if it is for any stat at all. -/
theorem taken_iff {n' : Network N A σ} {answer : Bool} {modifiers : List (Modifier N)}
    (hmodifiers : n.registry.inputs.modifiers = registered modifiers)
    (h : n.TellsRemoval n' m m.stats answer) :
    answer = true ↔ m.stats ≠ [] ∧ 0 < modifiers.countP (·.same m) := by
  have hcopies (stat : Stat N) (hstat : stat ∈ m.stats) :
      0 < m.copies (m.stats.map Stat.key) stat.key m.form m.path.key := by
    rw [Modifier.copies, if_pos ⟨rfl, rfl⟩]
    exact List.count_pos_iff.mpr (List.mem_map_of_mem hstat)
  have hfound (stat : Stat N) (hstat : stat ∈ m.stats) :
      (∃ i ∈ n.registry.members stat.key m.form m.path.key, i.2.same m)
        ↔ 0 < modifiers.countP (·.same m) := by
    have hcount : 0 < (registered modifiers stat.key m.form m.path.key).countP (·.same m)
        ↔ 0 < modifiers.countP (·.same m) := by
      rw [countP_registered, Nat.mul_pos_iff_of_pos_right (hcopies stat hstat)]
    rw [← hcount, ← hmodifiers, Registry.inputs, List.countP_map, List.countP_pos_iff]
    exact Iff.rfl
  rw [h.removed_iff]
  constructor
  · rintro ⟨stat, hstat, hi⟩
    exact ⟨List.ne_nil_of_mem hstat, (hfound stat hstat).mp hi⟩
  · rintro ⟨hne, hpos⟩
    obtain ⟨stat, hstat⟩ := List.exists_mem_of_ne_nil _ hne
    exact ⟨stat, hstat, (hfound stat hstat).mpr hpos⟩

end Step

variable (hhost : host.Aloof tell)
include hhost

/-- Between the calls of a history nothing is being computed, and collections hold what is left of the
registered modifiers. -/
theorem rests (h : History host log n) :
    n.Rests .free ∧ n.registry.inputs.modifiers = registered (left log) := by
  induction h with
  | start settings catalog state => exact ⟨.start Regime.not_follows_free settings catalog state, rfl⟩
  | @add log n n' before m hrun ih =>
    obtain ⟨hn, hmodifiers⟩ := ih
    obtain ⟨hn', happends, -⟩ := (hn.leads_add hhost (Regime.free_allows m)).partly hrun
    refine ⟨hn', ?_⟩
    funext key form path
    rw [happends.modifiers, hmodifiers, left_concat, Entry.apply, registered_append]
    exact congrArg _ (List.flatMap_singleton ..).symm
  | @remove log n n' before m answer hrun ih =>
    obtain ⟨hn, hmodifiers⟩ := ih
    obtain ⟨hn', herases, htells, -⟩ := (hn.leads_remove hhost m).partly hrun
    refine ⟨hn', ?_⟩
    rw [left_concat, Entry.apply]
    split
    next =>
      funext key form path
      rw [herases.modifiers, hmodifiers, registered_eraseP]
    next hfalse => rw [htells.unchanged (Bool.eq_false_of_not_eq_true hfalse), hmodifiers]
  | other before hsound hkeeps hrun ih =>
    obtain ⟨hn, hmodifiers⟩ := ih
    obtain ⟨hn', hmembers⟩ := (hn.call hhost (legible_of_explored (explored_free hhost)) hsound.fits).partly hrun
    refine ⟨hn', ?_⟩
    funext key form path
    rw [← hmodifiers]
    exact congrArg (List.map _) (hmembers hkeeps key form path)

/-- A modifier is among those that are left as often as it was registered and not taken back. -/
theorem netCount_eq (h : History host log n) (m : Modifier N) :
    netCount m log = (left log).countP (·.same m) := by
  induction h with
  | start => rfl
  | @add log n n' before x hrun ih =>
    rw [netCount_concat, ih, left_concat, Entry.apply, List.countP_append, List.countP_singleton,
      Entry.adds, Entry.takes]
    split <;> simp_all
  | @remove log n n' before x answer hrun ih =>
    obtain ⟨hn, hmodifiers⟩ := before.rests hhost
    obtain ⟨-, -, htells, -⟩ := (hn.leads_remove hhost x).partly hrun
    have htaken := taken_iff hmodifiers htells
    rw [netCount_concat, ih, left_concat, Entry.apply, Entry.adds, Entry.takes]
    cases answer with
    | false => simp
    | true =>
      obtain ⟨-, hpos⟩ := htaken.mp rfl
      rw [if_pos rfl, ← countP_eraseP_same hpos m, Bool.true_and]
      split <;> simp
  | other _ _ _ _ ih => exact ih

/-- The stats of a modifier stay in step, whatever a host does. If the modifier was registered `k` times
more often than it was taken back, then each of its stats has it `k` times for every time the modifier
lists the stat. Collections hold their modifiers in the order they were registered. Registering the
modifier and taking it back always works out, and leaves the others where they are. It is taken back if
`k` is not zero and there is any stat to take it back for; otherwise nothing happens. -/
theorem registered_as_a_whole (h : History host log n) (m : Modifier N) :
    ∃ k : Nat, netCount m log = k
      ∧ (∀ stat ∈ m.stats, (n.registry.inputs.modifiers stat.key m.form m.path.key).countP (·.same m)
        = k * (m.stats.map Stat.key).count stat.key)
      ∧ n.registry.inputs.modifiers = registered (left log)
      ∧ (∃ n', addModifier host m n = some (⟨⟩, n') ∧ n.KeepsOthers m n')
      ∧ ∃ answer n', removeModifier host m n = some (answer, n') ∧ n.KeepsOthers m n'
        ∧ (answer = true ↔ m.stats ≠ [] ∧ 0 < k) ∧ (answer = false → n' = n) := by
  obtain ⟨hn, hmodifiers⟩ := h.rests hhost
  refine ⟨(left log).countP (·.same m), h.netCount_eq hhost m, fun stat _ => ?_, hmodifiers, ?_, ?_⟩
  · rw [hmodifiers, countP_registered, Modifier.copies, if_pos ⟨rfl, rfl⟩]
  · obtain ⟨_, n', hrun, -, happends, -⟩ := (hn.leads_add hhost (Regime.free_allows m)).exists_eq
    exact ⟨n', hrun, happends.keepsOthers⟩
  · obtain ⟨answer, n', hrun, -, herases, htells, -⟩ := (hn.leads_remove hhost m).exists_eq
    exact ⟨answer, n', hrun, herases.keepsOthers, taken_iff hmodifiers htells, htells.unchanged⟩

end History

/-- A modifier that lists a stat twice is there twice after it was registered, and may be taken back. -/
theorem registered_twice : ∃ (stat : Stat Float) (m : Modifier Float) (n : Network Float Unit Unit),
    History Host.idle [.added m] n ∧ m.stats = [stat, stat]
      ∧ (n.registry.inputs.modifiers stat.key m.form m.path.key).countP (·.same m) = 2
      ∧ ∃ n', removeModifier Host.idle m n = some (true, n') := by
  let life : Stat Float := ⟨⟨"Life", .character⟩, none, none, .double, true, []⟩
  let m : Modifier Float := ⟨[life, life], .baseAdd, .constant none, 0, ⟨.global, ""⟩⟩
  let empty : Network Float Unit Unit := start .standard none ()
  have hempty : empty.Rests .free := .start Regime.not_follows_free .standard none ()
  obtain ⟨_, n, hrun, -⟩ := (hempty.leads_add Host.aloof_idle (Regime.free_allows m)).exists_eq
  have h : History Host.idle [.added m] n := .add (.start .standard none ()) m hrun
  obtain ⟨k, hk, hcount, -, -, answer, n', hremove, -, hanswer, -⟩ :=
    h.registered_as_a_whole Host.aloof_idle m
  have hsame : m.same m = true := m.same_refl
  obtain rfl : k = 1 := by
    have hnet : netCount m [.added m] = 1 := by
      simp [netCount, Entry.adds, Entry.takes, hsame]
    omega
  obtain rfl := hanswer.mpr ⟨List.cons_ne_nil _ _, Nat.one_pos⟩
  refine ⟨life, m, n, h, rfl, ?_, n', hremove⟩
  rw [hcount life List.mem_cons_self]
  decide

end Calculator

end StatEngine
