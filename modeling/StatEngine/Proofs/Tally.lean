import Mathlib.Data.List.Nodup

/-!
# Tallies

A tally counts things by a mark: each mark that was counted has one entry, with how often it was counted.
Counting a mark again raises its entry, and a mark goes with its last count.

## Main statements

* `count_raised`, `count_opened`: counting a thing raises the count of its mark by one;
* `count_lowered`, `count_closed`: taking a count back lowers it by one.
-/

namespace StatEngine.Tally

variable {α K : Type} [DecidableEq K] (mark : α → K)

/-- How often a mark was counted. -/
def count (entries : List (α × Nat)) (k : K) : Nat :=
  ((entries.find? fun e => mark e.1 = k).map (·.2)).getD 0

/-- Each mark has one entry, and only while it counts something. -/
structure Sound (entries : List (α × Nat)) : Prop where
  nodup : (entries.map fun e => mark e.1).Nodup
  pos : ∀ e ∈ entries, 0 < e.2

/-- The entry of a mark changed, and the others left alone. -/
def change (k : K) (f : Nat → Nat) (entries : List (α × Nat)) : List (α × Nat) :=
  entries.map fun e => if mark e.1 = k then (e.1, f e.2) else e

variable {mark} {entries : List (α × Nat)} {k : K}

omit [DecidableEq K] in
theorem Sound.nil : Sound mark [] := ⟨List.nodup_nil, by simp⟩

theorem count_cons (e : α × Nat) (k : K) :
    count mark (e :: entries) k = if mark e.1 = k then e.2 else count mark entries k := by
  rw [count, List.find?_cons]
  by_cases h : mark e.1 = k <;> simp [h, count]

omit [DecidableEq K] in
theorem Sound.of_cons {e : α × Nat} (h : Sound mark (e :: entries)) : Sound mark entries :=
  ⟨(List.nodup_cons.mp h.nodup).2, fun x hx => h.pos x (List.mem_cons_of_mem e hx)⟩

/-- A mark is counted if it has an entry. -/
theorem Sound.count_pos_iff (h : Sound mark entries) :
    0 < count mark entries k ↔ k ∈ entries.map fun e => mark e.1 := by
  induction entries with
  | nil => simp [count]
  | cons e entries ih =>
    rw [count_cons, List.map_cons, List.mem_cons, ← ih h.of_cons]
    split
    · next he => simp [he, h.pos e List.mem_cons_self]
    · next he => simp [Ne.symm he]

theorem count_eq_zero (h : k ∉ entries.map fun e => mark e.1) : count mark entries k = 0 := by
  have : entries.find? (fun e => decide (mark e.1 = k)) = none := by
    refine List.find?_eq_none.mpr fun e he => ?_
    simpa using fun heq => h (List.mem_map.mpr ⟨e, he, heq⟩)
  simp [count, this]

/-! ## Counting once more -/

theorem map_mark_change (k : K) (f : Nat → Nat) (entries : List (α × Nat)) :
    ((change mark k f entries).map fun e => mark e.1) = entries.map fun e => mark e.1 := by
  rw [change, List.map_map]
  refine List.map_congr_left fun e _ => ?_
  simp only [Function.comp]
  split <;> rfl

theorem count_change (hk : k ∈ entries.map fun e => mark e.1) (f : Nat → Nat) (k' : K) :
    count mark (change mark k f entries) k'
      = if k' = k then f (count mark entries k) else count mark entries k' := by
  induction entries with
  | nil => cases hk
  | cons e entries ih =>
    rw [change, List.map_cons, ← change, count_cons, count_cons, count_cons]
    by_cases he : mark e.1 = k
    · -- this is the entry that changes; what follows it does not matter for its mark
      simp only [he, if_true]
      by_cases hk' : k' = k
      · simp [hk']
      · simp only [hk', Ne.symm hk', if_false]
        by_cases hmem : k ∈ entries.map fun e => mark e.1
        · rw [ih hmem, if_neg hk']
        · have : change mark k f entries = entries := by
            refine (List.map_congr_left fun x hx => ?_).trans (List.map_id entries)
            rw [if_neg fun heq => hmem (List.mem_map.mpr ⟨x, hx, heq⟩)]
            rfl
          rw [this]
    · have hmem : k ∈ entries.map fun e => mark e.1 := by
        simpa [Ne.symm he] using hk
      simp only [he, if_false]
      rw [ih hmem]
      by_cases he' : mark e.1 = k'
      · have : k' ≠ k := fun heq => he (he'.trans heq)
        simp [he', this]
      · simp [he']

theorem Sound.change (h : Sound mark entries) (k : K) {f : Nat → Nat}
    (hf : ∀ e ∈ entries, mark e.1 = k → 0 < f e.2) : Sound mark (change mark k f entries) where
  nodup := by
    rw [map_mark_change]
    exact h.nodup
  pos e he := by
    obtain ⟨x, hx, rfl⟩ := List.mem_map.mp he
    split
    · next hmark => exact hf x hx hmark
    · exact h.pos x hx

/-- A mark that is counted again counts for one more. -/
theorem count_raised (hk : k ∈ entries.map fun e => mark e.1) (k' : K) :
    count mark (change mark k (· + 1) entries) k'
      = count mark entries k' + if k' = k then 1 else 0 := by
  rw [count_change hk]
  split
  · next h => rw [h]
  · rfl

/-- A mark that is counted for the first time counts for one. -/
theorem count_opened (a : α) (ha : mark a ∉ entries.map fun e => mark e.1) (k' : K) :
    count mark (entries ++ [(a, 1)]) k' = count mark entries k' + if k' = mark a then 1 else 0 := by
  induction entries with
  | nil =>
    rw [List.nil_append, count_cons]
    simp [count, eq_comm]
  | cons e entries ih =>
    rw [List.map_cons, List.mem_cons, not_or] at ha
    rw [List.cons_append, count_cons, count_cons, ih ha.2]
    by_cases he : mark e.1 = k'
    · have : k' ≠ mark a := fun h => ha.1 (h.symm.trans he.symm)
      simp [he, this]
    · simp [he]

omit [DecidableEq K] in
theorem Sound.opened (h : Sound mark entries) (a : α) (ha : mark a ∉ entries.map fun e => mark e.1) :
    Sound mark (entries ++ [(a, 1)]) where
  nodup := by
    rw [List.map_append, List.map_singleton, List.nodup_append]
    refine ⟨h.nodup, List.nodup_singleton _, fun x hx y hy => ?_⟩
    rintro rfl
    exact ha (List.mem_singleton.mp hy ▸ hx)
  pos e he := by
    rw [List.mem_append, List.mem_singleton] at he
    rcases he with he | rfl
    · exact h.pos e he
    · exact Nat.one_pos

/-! ## Taking a count back -/

/-- A mark that was counted more than once is left with one count less. -/
theorem count_lowered (hk : 0 < count mark entries k) (k' : K) :
    count mark (change mark k (· - 1) entries) k' + (if k' = k then 1 else 0)
      = count mark entries k' := by
  have hmem : k ∈ entries.map fun e => mark e.1 := by
    by_contra hmem
    rw [count_eq_zero hmem] at hk
    exact absurd hk (Nat.lt_irrefl 0)
  rw [count_change hmem]
  split
  · next h =>
    subst h
    omega
  · rfl

theorem Sound.lowered (h : Sound mark entries) (hk : 1 < count mark entries k) :
    Sound mark (Tally.change mark k (· - 1) entries) := by
  refine h.change k fun e he hmark => ?_
  -- the entry is the one that counts
  have : count mark entries k = e.2 := by
    clear hk
    induction entries with
    | nil => cases he
    | cons x entries ih =>
      rw [count_cons]
      rcases List.mem_cons.mp he with rfl | he'
      · simp [hmark]
      · have hx : mark x.1 ≠ k := by
          intro hx
          have := (List.nodup_cons.mp h.nodup).1
          exact this (List.mem_map.mpr ⟨e, he', hmark.trans hx.symm⟩)
        simp only [hx, if_false]
        exact ih h.of_cons he'
  omega

/-- A mark that was counted once is not counted any more. -/
theorem count_closed (hk : count mark entries k = 1) (k' : K) :
    count mark (entries.filter fun e => !decide (mark e.1 = k)) k' + (if k' = k then 1 else 0)
      = count mark entries k' := by
  have hfilter : count mark (entries.filter fun e => !decide (mark e.1 = k)) k'
      = if k' = k then 0 else count mark entries k' := by
    clear hk
    induction entries with
    | nil => simp [count]
    | cons e entries ih =>
      by_cases he : mark e.1 = k
      · rw [List.filter_cons_of_neg (by simpa using he), ih, count_cons]
        by_cases hk' : k' = k
        · simp [hk']
        · have : mark e.1 ≠ k' := fun h => hk' (h.symm.trans he)
          simp [hk', this]
      · rw [List.filter_cons_of_pos (by simpa using he), count_cons, count_cons, ih]
        by_cases hk' : k' = k
        · have : mark e.1 ≠ k' := fun h => he (h.trans hk')
          simp [hk', he]
        · simp [hk']
  rw [hfilter]
  split
  · next h => rw [h, hk]
  · rfl

omit [DecidableEq K] in
theorem Sound.filter (h : Sound mark entries) (p : α × Nat → Bool) :
    Sound mark (entries.filter p) where
  nodup := h.nodup.sublist (List.filter_sublist.map _)
  pos e he := h.pos e (List.mem_filter.mp he).1

/-- A sound tally has one entry to erase. -/
theorem Sound.eraseP_eq (h : Sound mark entries) (k : K) :
    entries.eraseP (fun e => decide (mark e.1 = k))
      = entries.filter fun e => !decide (mark e.1 = k) := by
  induction entries with
  | nil => rfl
  | cons e entries ih =>
    by_cases he : mark e.1 = k
    · rw [List.eraseP_cons_of_pos (by simpa using he), List.filter_cons_of_neg (by simpa using he)]
      refine (List.filter_eq_self.mpr fun x hx => ?_).symm
      have : mark x.1 ≠ k := by
        intro hx'
        exact (List.nodup_cons.mp h.nodup).1 (List.mem_map.mpr ⟨x, hx, hx'.trans he.symm⟩)
      simpa using this
    · rw [List.eraseP_cons_of_neg (by simpa using he), List.filter_cons_of_pos (by simpa using he),
        ih h.of_cons]

end StatEngine.Tally
