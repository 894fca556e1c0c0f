import Mathlib.Data.List.Forall2
import StatEngine.Network.Basic

/-!
# Outcomes of runs

`Leads b run n post` says what a run on a network comes to: it has a result if `b` holds, and every
result it has satisfies `post`. Most runs have a result in any case; those that nodes or announcements
make in each other have one if their bound is large enough, and then `b` says so.

## Main statements

* `Leads.bind`: the rule for one run after another;
* `Leads.forM` and `Leads.mapM`: an invariant of every step is an invariant of the loop;
* `Leads.forM_congr`: loops come to the same if their steps do as long as an invariant holds.
-/

namespace StatEngine.Network

variable {N A σ : Type} {α β : Type}

theorem get_bind_apply (next : Network N A σ → Run N A σ β) (n : Network N A σ) :
    (get >>= next) n = next n n := rfl

theorem modify_bind_apply (f : Network N A σ → Network N A σ) (next : PUnit → Run N A σ β)
    (n : Network N A σ) : (modify f >>= next) n = next ⟨⟩ (f n) := rfl

theorem bind_apply {run : Run N A σ α} {next : α → Run N A σ β} {n n' : Network N A σ} {a : α}
    (h : run n = some (a, n')) : (run >>= next) n = next a n' := by
  change (run n).bind _ = _
  rw [h]
  rfl

/-- A loop that is never left early. -/
theorem forIn_eq_forM (step : α → Run N A σ β) (l : List α) :
    (forIn l PUnit.unit fun a _ => do let _ ← step a; pure (ForInStep.yield PUnit.unit))
      = l.forM fun a => (do let _ ← step a; pure ⟨⟩) := by
  induction l with
  | nil => rfl
  | cons a l ih =>
    rw [List.forIn_cons, List.forM_eq_forM, List.forM_cons, ← List.forM_eq_forM, ← ih, bind_assoc,
      bind_assoc]
    rfl

/-- A run has a result if `b` holds, and every result it has satisfies `post`. -/
structure Leads (b : Prop) (run : Run N A σ α) (n : Network N A σ)
    (post : α → Network N A σ → Prop) : Prop where
  /-- There is a result. -/
  total : b → run n ≠ none
  /-- A result is as it should be. -/
  partly : ∀ {a n'}, run n = some (a, n') → post a n'

namespace Leads

variable {b c : Prop} {n : Network N A σ} {post post' : α → Network N A σ → Prop}

/-- A run whose result is known. -/
theorem of_eq {run : Run N A σ α} {a : α} {n' : Network N A σ} (h : run n = some (a, n'))
    (hpost : post a n') : Leads b run n post := by
  refine ⟨fun _ => by simp [h], fun h' => ?_⟩
  rw [h] at h'
  cases h'
  exact hpost

/-- A result that is certain exists. -/
theorem exists_eq {run : Run N A σ α} (h : Leads True run n post) :
    ∃ a n', run n = some (a, n') ∧ post a n' := by
  match hrun : run n with
  | none => exact absurd hrun (h.total trivial)
  | some (a, n') => exact ⟨a, n', rfl, h.partly hrun⟩

/-- A run that comes to the same as another one. -/
theorem congr {run run' : Run N A σ α} {n' : Network N A σ} (h : Leads b run' n' post)
    (heq : run n = run' n') :
    Leads b run n post :=
  ⟨fun hb => heq ▸ h.total hb, fun e => h.partly (heq ▸ e)⟩

theorem mono {run : Run N A σ α} (h : Leads b run n post) (hb : c → b)
    (hpost : ∀ a n', post a n' → post' a n') : Leads c run n post' :=
  ⟨fun hc => h.total (hb hc), fun e => hpost _ _ (h.partly e)⟩

theorem weaken {run : Run N A σ α} (h : Leads b run n post)
    (hpost : ∀ a n', post a n' → post' a n') : Leads b run n post' := h.mono id hpost

/-- What else is known of the results of a run. -/
theorem and {run : Run N A σ α} (h : Leads b run n post) (h' : Leads c run n post') :
    Leads b run n fun a n' => post a n' ∧ post' a n' :=
  ⟨h.total, fun e => ⟨h.partly e, h'.partly e⟩⟩

theorem of_pure {a : α} (h : post a n) : Leads b (pure a) n post := of_eq rfl h

/-- A run that goes on with the result of another one. -/
theorem bind {run : Run N A σ α} {next : α → Run N A σ β} {post' : β → Network N A σ → Prop}
    (h : Leads b run n post) (hnext : ∀ a n', post a n' → Leads b (next a) n' post') :
    Leads b (run >>= next) n post' := by
  have unfold_bind : (run >>= next) n = (run n).bind fun (a, n') => next a n' := rfl
  constructor
  · intro hb
    match hrun : run n with
    | none => exact absurd hrun (h.total hb)
    | some (a, n') =>
      rw [unfold_bind, hrun]
      exact (hnext a n' (h.partly hrun)).total hb
  · intro a n' e
    rw [unfold_bind] at e
    match hrun : run n with
    | none => simp [hrun] at e
    | some (a', n'') =>
      rw [hrun] at e
      exact (hnext a' n'' (h.partly hrun)).partly e

/-- Going on with a result that is known. -/
theorem eq_bind {run : Run N A σ α} {next : α → Run N A σ β} {a : α} {n' : Network N A σ}
    {post : β → Network N A σ → Prop} (h : run n = some (a, n')) (hnext : Leads b (next a) n' post) :
    Leads b (run >>= next) n post := by
  have unfold_bind : (run >>= next) n = (run n).bind fun (a, n') => next a n' := rfl
  refine ⟨fun hb => ?_, fun e => ?_⟩
  · rw [unfold_bind, h]
    exact hnext.total hb
  · rw [unfold_bind, h] at e
    exact hnext.partly e

theorem map {run : Run N A σ α} {f : α → β} {post' : β → Network N A σ → Prop}
    (h : Leads b run n fun a n' => post' (f a) n') : Leads b (f <$> run) n post' :=
  h.bind fun _ _ hpost => of_pure hpost

/-- A run whose answer is of no concern. -/
theorem discard {run : Run N A σ α} {I : Network N A σ → Prop} (h : Leads b run n fun _ n' => I n') :
    Leads b (discard run) n fun _ n' => I n' := h.bind fun _ _ hI => of_pure hI

theorem of_get {post : Network N A σ → Network N A σ → Prop} (h : post n n) :
    Leads b (MonadState.get : Run N A σ _) n post := of_eq rfl h

theorem of_modify {f : Network N A σ → Network N A σ} {post : PUnit → Network N A σ → Prop}
    (h : post ⟨⟩ (f n)) : Leads b (modify f : Run N A σ PUnit) n post := of_eq rfl h

theorem of_modifyGet {f : Network N A σ → α × Network N A σ} (h : post (f n).1 (f n).2) :
    Leads b (MonadStateOf.modifyGet f : Run N A σ α) n post := of_eq rfl h

/-- Looking at the network before going on. -/
theorem get_bind {next : Network N A σ → Run N A σ β} {post : β → Network N A σ → Prop}
    (h : Leads b (next n) n post) : Leads b (MonadState.get >>= next) n post :=
  ⟨h.total, h.partly⟩

/-- Changing the network before going on. -/
theorem modify_bind {f : Network N A σ → Network N A σ} {next : PUnit → Run N A σ β}
    {post : β → Network N A σ → Prop} (h : Leads b (next ⟨⟩) (f n) post) :
    Leads b (modify f >>= next) n post :=
  ⟨h.total, h.partly⟩

/-- What every step of a loop preserves holds after the loop. -/
theorem forM {step : α → Run N A σ PUnit} {I : Network N A σ → Prop} :
    ∀ {l : List α} {n : Network N A σ},
      (∀ a ∈ l, ∀ n, I n → Leads b (step a) n fun _ => I) → I n →
      Leads b (l.forM step) n fun _ => I
  | [], _, _, h => of_pure h
  | a :: l, _, hstep, h => by
    rw [List.forM_eq_forM, List.forM_cons]
    refine (hstep a List.mem_cons_self _ h).bind fun _ n' h' => ?_
    exact forM (fun a' ha' => hstep a' (List.mem_cons_of_mem a ha')) h'

/-- Loops come to the same if their steps do wherever the loop gets to. -/
theorem forM_congr {f g : α → Run N A σ PUnit} {I : Network N A σ → Prop} :
    ∀ {l : List α} {n : Network N A σ}, (∀ a ∈ l, ∀ n, I n → f a n = g a n) →
      (∀ a ∈ l, ∀ n, I n → Leads False (f a) n fun _ => I) → I n → l.forM f n = l.forM g n
  | [], _, _, _, _ => rfl
  | a :: l, n, heq, hstep, h => by
    have ha := heq a List.mem_cons_self n h
    rw [List.forM_eq_forM, List.forM_cons, List.forM_cons]
    cases hrun : f a n with
    | none =>
      change Option.bind (f a n) _ = Option.bind (g a n) _
      rw [← ha, hrun]
      rfl
    | some r =>
      obtain ⟨_, m⟩ := r
      rw [bind_apply hrun, bind_apply (ha.symm.trans hrun)]
      exact forM_congr (fun b hb => heq b (List.mem_cons_of_mem a hb))
        (fun b hb => hstep b (List.mem_cons_of_mem a hb))
        ((hstep a List.mem_cons_self n h).partly hrun)

/-- What every step of a loop preserves holds after the loop, along with a fact about every result. -/
theorem mapM {step : α → Run N A σ β} {I : Network N A σ → Prop} {fact : α → β → Prop} :
    ∀ {l : List α} {n : Network N A σ},
      (∀ a ∈ l, ∀ n, I n → Leads b (step a) n fun r n' => fact a r ∧ I n') → I n →
      Leads b (l.mapM step) n fun rs n' => List.Forall₂ fact l rs ∧ I n'
  | [], _, _, h => of_pure ⟨.nil, h⟩
  | a :: l, _, hstep, h => by
    rw [List.mapM_cons]
    refine (hstep a List.mem_cons_self _ h).bind fun r n' ⟨hr, h'⟩ => ?_
    refine (mapM (fun a' ha' => hstep a' (List.mem_cons_of_mem a ha')) h').bind ?_
    exact fun rs n'' ⟨hrs, h''⟩ => of_pure ⟨.cons hr hrs, h''⟩

end Leads

end StatEngine.Network
