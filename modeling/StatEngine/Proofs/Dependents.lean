import Mathlib.Data.List.Induction
import Mathlib.Data.List.Nodup
import Mathlib.Logic.Function.Iterate
import Mathlib.Logic.Relation
import StatEngine.DependencyGraph

/-!
# Everything a change reaches

A search that starts from a key and goes from keys to what depends on them finds all that depends on the
key, directly or through others, and finds nothing else. It comes to an end with the bound it is given,
since every key is put on the stack once when it is found, also where keys depend on themselves.

## Main statements

* `DependencyGraph.Sound.addEdge`: graphs that are put together edge by edge can be searched;
* `DependencyGraph.Sound.mem_allDependents_iff`: what is found is what depends on the key;
* `DependencyGraph.Sound.turns_eq`: after as many turns as there are keys, and one, the stack is empty;
* `DependencyGraph.build_answers`: what a graph of any additions holds and answers, read off the additions.
-/

namespace StatEngine.DependencyGraph

variable {K : Type} [DecidableEq K] {g : DependencyGraph K} {k a b : K}

/-- Keys and edges are listed once, and all keys of edges are listed. -/
structure Sound (g : DependencyGraph K) : Prop where
  keys_nodup : g.keys.Nodup
  edges_nodup : g.edges.Nodup
  dependent_mem : ∀ {a b : K}, (a, b) ∈ g.edges → a ∈ g.keys
  dependency_mem : ∀ {a b : K}, (a, b) ∈ g.edges → b ∈ g.keys

/-- The first key depends on the second one directly. -/
def DependsOn (g : DependencyGraph K) (a b : K) : Prop := (a, b) ∈ g.edges

/-! ## Putting graphs together -/

omit [DecidableEq K] in
theorem sound_empty : (empty : DependencyGraph K).Sound where
  keys_nodup := List.nodup_nil
  edges_nodup := List.nodup_nil
  dependent_mem h := by cases h
  dependency_mem h := by cases h

@[simp]
theorem edges_addKey (g : DependencyGraph K) (k : K) : (g.addKey k).edges = g.edges := by
  unfold addKey
  split <;> rfl

@[simp]
theorem mem_keys_addKey : a ∈ (g.addKey k).keys ↔ a ∈ g.keys ∨ a = k := by
  unfold addKey
  split
  next h =>
    refine ⟨.inl, fun ha => ha.elim id ?_⟩
    rintro rfl
    exact h
  next => rw [List.mem_append, List.mem_singleton]

theorem Sound.addKey (h : g.Sound) (k : K) : (g.addKey k).Sound where
  keys_nodup := by
    unfold DependencyGraph.addKey
    split
    next => exact h.keys_nodup
    next hk => exact List.nodup_append.mpr ⟨h.keys_nodup, List.nodup_singleton k, by
      intro x hx y hy
      rw [List.mem_singleton.mp hy]
      rintro rfl
      exact hk hx⟩
  edges_nodup := by
    rw [edges_addKey]
    exact h.edges_nodup
  dependent_mem hab := by
    rw [edges_addKey] at hab
    exact mem_keys_addKey.mpr (.inl (h.dependent_mem hab))
  dependency_mem hab := by
    rw [edges_addKey] at hab
    exact mem_keys_addKey.mpr (.inl (h.dependency_mem hab))

theorem mem_edges_addEdge {dependent dependency : K} :
    (a, b) ∈ (g.addEdge dependent dependency).edges
      ↔ (a, b) ∈ g.edges ∨ a = dependent ∧ b = dependency := by
  rw [addEdge]
  split
  next h =>
    rw [edges_addKey, edges_addKey] at h ⊢
    refine ⟨.inl, fun hab => hab.elim id ?_⟩
    rintro ⟨rfl, rfl⟩
    exact h
  next => rw [List.mem_cons, edges_addKey, edges_addKey, Prod.mk.injEq, or_comm]

theorem Sound.addEdge (h : g.Sound) (dependent dependency : K) :
    (g.addEdge dependent dependency).Sound := by
  have hkeys := (h.addKey dependent).addKey dependency
  rw [DependencyGraph.addEdge]
  split
  next => exact hkeys
  next hnew =>
    refine ⟨hkeys.keys_nodup, List.nodup_cons.mpr ⟨hnew, hkeys.edges_nodup⟩, fun hab => ?_, fun hab => ?_⟩
    · obtain hab | hab := List.mem_cons.mp hab
      · obtain ⟨rfl, rfl⟩ := Prod.mk.inj hab
        simp
      · exact hkeys.dependent_mem hab
    · obtain hab | hab := List.mem_cons.mp hab
      · obtain ⟨rfl, rfl⟩ := Prod.mk.inj hab
        simp
      · exact hkeys.dependency_mem hab

/-! ## Searching -/

theorem mem_dependents : a ∈ g.dependents k ↔ g.DependsOn a k := by
  simp [dependents, DependsOn]

/-- Among edges with the same end, the other ends differ. -/
theorem nodup_ends {near far : K × K → K} (hends : ∀ e e', near e = near e' → far e = far e' → e = e')
    {edges : List (K × K)} (hedges : edges.Nodup) (k : K) :
    ((edges.filter (near · = k)).map far).Nodup := by
  refine (hedges.filter _).map_on fun e he e' he' hfar => hends e e' ?_ hfar
  have hk : near e = k := by simpa using (List.mem_filter.mp he).2
  have hk' : near e' = k := by simpa using (List.mem_filter.mp he').2
  rw [hk, hk']

theorem Sound.dependents_nodup (h : g.Sound) (k : K) : (g.dependents k).Nodup :=
  nodup_ends (fun _ _ hsnd hfst => Prod.ext hfst hsnd) h.edges_nodup k

/-- What is found in one turn of a search. -/
theorem mem_found {found : List K} :
    a ∈ (g.dependents k).filter (· ∉ found) ↔ g.DependsOn a k ∧ a ∉ found := by
  rw [List.mem_filter, mem_dependents, decide_eq_true_eq]

/-- Keys are found once. -/
theorem Sound.nodup_found (h : g.Sound) {found : List K} (hfound : found.Nodup) (k : K) :
    (found ++ (g.dependents k).filter (· ∉ found)).Nodup := by
  refine List.nodup_append.mpr ⟨hfound, (h.dependents_nodup k).filter _, ?_⟩
  rintro a ha b hb rfl
  exact (mem_found.mp hb).2 ha

/-- Only keys of the graph are found. -/
theorem Sound.found_subset (h : g.Sound) {found : List K} (hfound : found ⊆ g.keys) (k : K) :
    found ++ (g.dependents k).filter (· ∉ found) ⊆ g.keys :=
  List.append_subset.mpr ⟨hfound, fun _ ha => h.dependent_mem (mem_found.mp ha).1⟩

/-- What is found stays found. -/
theorem subset_reach (g : DependencyGraph K) : ∀ (fuel : Nat) (stack found : List K),
    found ⊆ g.reach fuel stack found
  | 0, _, _ => List.Subset.refl _
  | _ + 1, [], _ => List.Subset.refl _
  | fuel + 1, _ :: _, found =>
    List.Subset.trans (List.subset_append_left found _) (subset_reach g fuel _ _)

/-- Whatever is found depends on the key where the search started. -/
theorem dependsOn_of_mem_reach {start : K} : ∀ (fuel : Nat) (stack found : List K),
    (∀ x ∈ stack, x = start ∨ Relation.TransGen g.DependsOn x start) →
    (∀ x ∈ found, Relation.TransGen g.DependsOn x start) →
    ∀ x ∈ g.reach fuel stack found, Relation.TransGen g.DependsOn x start
  | 0, _, _, _, hfound => hfound
  | _ + 1, [], _, _, hfound => hfound
  | fuel + 1, k :: stack, found, hstack, hfound => by
    have hnew (x : K) (hx : x ∈ (g.dependents k).filter (· ∉ found)) :
        Relation.TransGen g.DependsOn x start := by
      have hxk : g.DependsOn x k := (mem_found.mp hx).1
      obtain rfl | hk := hstack k List.mem_cons_self
      · exact .single hxk
      · exact .head hxk hk
    refine dependsOn_of_mem_reach fuel _ _ (fun x hx => ?_) fun x hx => ?_
    · rcases List.mem_append.mp hx with hx | hx
      · exact .inr (hnew x (List.mem_reverse.mp hx))
      · exact hstack x (List.mem_cons_of_mem k hx)
    · rcases List.mem_append.mp hx with hx | hx
      · exact hfound x hx
      · exact hnew x hx

/-- Nothing is left out: the stack is empty before the bound is used up, since all that is put on it was
found for the first time. -/
theorem Sound.mem_reach (h : g.Sound) {start : K} : ∀ (fuel : Nat) (stack found : List K),
    found.Nodup → found ⊆ g.keys → stack.length + g.keys.length ≤ fuel + found.length →
    (∀ x, x = start ∨ x ∈ found → x ∈ stack ∨ ∀ a, g.DependsOn a x → a ∈ found) →
    ∀ x, x = start ∨ x ∈ g.reach fuel stack found → ∀ a, g.DependsOn a x →
      a ∈ g.reach fuel stack found := by
  intro fuel
  induction fuel with
  | zero =>
    intro stack found hnodup hsub hlength hdone x hx a ha
    have hle : found.length ≤ g.keys.length := hnodup.length_le_of_subset hsub
    obtain rfl : stack = [] := List.length_eq_zero_iff.mp (by omega)
    exact (hdone x hx).resolve_left List.not_mem_nil a ha
  | succ fuel ih =>
    intro stack found hnodup hsub hlength hdone
    cases stack with
    | nil => exact fun x hx => (hdone x hx).resolve_left List.not_mem_nil
    | cons k stack =>
      set new := (g.dependents k).filter (· ∉ found)
      refine ih (new.reverse ++ stack) (found ++ new) (h.nodup_found hnodup k) (h.found_subset hsub k) ?_
        fun x hx => ?_
      · simp only [List.length_append, List.length_reverse, List.length_cons] at hlength ⊢
        omega
      · -- what was on the stack has been looked at, or still is there
        have hfound : (x = start ∨ x ∈ found) ∨ x ∈ new := by
          rw [List.mem_append] at hx
          tauto
        rcases hfound with hx | hx
        · rcases hdone x hx with hstack | hall
          · rcases List.mem_cons.mp hstack with rfl | hstack
            · refine .inr fun a ha => ?_
              by_cases hin : a ∈ found
              · exact List.mem_append_left _ hin
              · exact List.mem_append_right _ (mem_found.mpr ⟨ha, hin⟩)
            · exact .inl (List.mem_append_right _ hstack)
          · exact .inr fun a ha => List.mem_append_left _ (hall a ha)
        · exact .inl (List.mem_append_left _ (List.mem_reverse.mpr hx))

/-- Nothing is found twice. -/
theorem Sound.reach_nodup (h : g.Sound) : ∀ (fuel : Nat) (stack found : List K),
    found.Nodup → (g.reach fuel stack found).Nodup
  | 0, _, _, hfound => hfound
  | _ + 1, [], _, hfound => hfound
  | fuel + 1, k :: _, _, hfound => h.reach_nodup fuel _ _ (h.nodup_found hfound k)

theorem Sound.allDependents_nodup (h : g.Sound) (k : K) : (g.allDependents k).Nodup := by
  rw [allDependents]
  split
  next => exact h.reach_nodup _ _ _ List.nodup_nil
  next => exact List.nodup_nil

/-- What is found is just what depends on the key, directly or through others. -/
theorem Sound.mem_allDependents_iff (h : g.Sound) :
    a ∈ g.allDependents k ↔ Relation.TransGen g.DependsOn a k := by
  rw [allDependents]
  split
  next hk =>
    constructor
    · refine dependsOn_of_mem_reach _ [k] [] (fun x hx => .inl (List.mem_singleton.mp hx)) ?_ a
      exact fun x hx => by cases hx
    · set all := g.reach (g.keys.length + 1) [k] []
      have hstep : ∀ x, x = k ∨ x ∈ all → ∀ a, g.DependsOn a x → a ∈ all := by
        refine h.mem_reach _ [k] [] List.nodup_nil (List.nil_subset _) ?_ fun x hx => ?_
        · rw [List.length_singleton, List.length_nil]
          omega
        · exact .inl (List.mem_singleton.mpr (hx.resolve_right List.not_mem_nil))
      intro ha
      induction ha using Relation.TransGen.head_induction_on with
      | single hak => exact hstep k (.inl rfl) _ hak
      | head hac _ ih => exact hstep _ (.inr ih) _ hac
  next hk =>
    -- nothing depends on a key that is not there
    refine iff_of_false List.not_mem_nil fun ha => ?_
    obtain ⟨c, -, hck⟩ := Relation.TransGen.tail'_iff.mp ha
    exact hk (h.dependency_mem hck)

/-! ## The end of the search -/

/-- One turn of the search, on the stack and what was found: a key is taken off the stack, and what is
found from it is put there. With an empty stack the search has ended. -/
def turn (g : DependencyGraph K) : List K × List K → List K × List K
  | ([], found) => ([], found)
  | (k :: stack, found) =>
    let new := (g.dependents k).filter (· ∉ found)
    (new.reverse ++ stack, found ++ new)

theorem turn_ended (found : List K) : g.turn ([], found) = ([], found) := rfl

/-- The bounded search takes turns. -/
theorem reach_eq_turns (g : DependencyGraph K) : ∀ (fuel : Nat) (stack found : List K),
    g.reach fuel stack found = (g.turn^[fuel] (stack, found)).2
  | 0, _, _ => rfl
  | fuel + 1, [], found => by
    rw [Function.iterate_fixed (turn_ended found), reach]
  | fuel + 1, k :: stack, found => by
    rw [Function.iterate_succ_apply]
    exact reach_eq_turns g fuel _ _

/-- The stack runs empty: every turn takes a key off it, and no key is put there twice. -/
theorem Sound.turns_stack (h : g.Sound) : ∀ (fuel : Nat) (stack found : List K),
    found.Nodup → found ⊆ g.keys → stack.length + g.keys.length ≤ fuel + found.length →
    (g.turn^[fuel] (stack, found)).1 = [] := by
  intro fuel
  induction fuel with
  | zero =>
    intro stack found hnodup hsub hlength
    have hle : found.length ≤ g.keys.length := hnodup.length_le_of_subset hsub
    obtain rfl : stack = [] := List.length_eq_zero_iff.mp (by omega)
    rfl
  | succ fuel ih =>
    intro stack found hnodup hsub hlength
    cases stack with
    | nil => rw [Function.iterate_fixed (turn_ended found)]
    | cons k stack =>
      rw [Function.iterate_succ_apply]
      refine ih _ _ (h.nodup_found hnodup k) (h.found_subset hsub k) ?_
      simp only [List.length_append, List.length_reverse, List.length_cons] at hlength ⊢
      omega

/-- The search for all that depends on a key has ended with what it answers. -/
theorem Sound.turns_eq (h : g.Sound) (hk : k ∈ g.keys) :
    g.turn^[g.keys.length + 1] ([k], []) = ([], g.allDependents k) := by
  refine Prod.ext (h.turns_stack _ _ _ List.nodup_nil (List.nil_subset _) ?_) ?_
  · rw [List.length_singleton, List.length_nil]
    omega
  · rw [allDependents, if_pos hk, reach_eq_turns]

/-! ## Graphs of additions -/

/-- What is added to a graph. -/
inductive Addition (K : Type) where
  /-- A key. -/
  | key (k : K)
  /-- A dependency of one key on another. -/
  | edge (dependent dependency : K)

/-- The keys that an addition is about. -/
def Addition.keys : Addition K → List K
  | .key k => [k]
  | .edge dependent dependency => [dependent, dependency]

/-- Add to a graph. -/
def add (g : DependencyGraph K) : Addition K → DependencyGraph K
  | .key k => g.addKey k
  | .edge dependent dependency => g.addEdge dependent dependency

/-- The graph of additions, made one after the other. -/
def build (additions : List (Addition K)) : DependencyGraph K := additions.foldl add empty

theorem Sound.add (h : g.Sound) : ∀ addition : Addition K, (g.add addition).Sound
  | .key k => h.addKey k
  | .edge dependent dependency => h.addEdge dependent dependency

theorem mem_keys_addEdge {dependent dependency : K} :
    a ∈ (g.addEdge dependent dependency).keys ↔ a ∈ g.keys ∨ a = dependent ∨ a = dependency := by
  have hkeys : (g.addEdge dependent dependency).keys = ((g.addKey dependent).addKey dependency).keys := by
    rw [addEdge]
    split <;> rfl
  rw [hkeys, mem_keys_addKey, mem_keys_addKey, or_assoc]

theorem mem_keys_add : ∀ {addition : Addition K},
    a ∈ (g.add addition).keys ↔ a ∈ g.keys ∨ a ∈ addition.keys
  | .key k => by rw [add, mem_keys_addKey, Addition.keys, List.mem_singleton]
  | .edge dependent dependency => by rw [add, mem_keys_addEdge, Addition.keys, List.mem_pair]

theorem mem_edges_add : ∀ {addition : Addition K},
    (a, b) ∈ (g.add addition).edges ↔ (a, b) ∈ g.edges ∨ addition = .edge a b
  | .key k => by simp [add]
  | .edge dependent dependency => by
    rw [add, mem_edges_addEdge, Addition.edge.injEq, eq_comm (a := a), eq_comm (a := b)]

theorem sound_build (additions : List (Addition K)) : (build additions).Sound := by
  induction additions using List.reverseRecOn with
  | nil => exact sound_empty
  | append_singleton additions addition ih =>
    rw [build, List.foldl_append]
    exact Sound.add ih addition

/-- The keys of a graph are those of its additions. -/
theorem mem_keys_build {additions : List (Addition K)} :
    a ∈ (build additions).keys ↔ ∃ addition ∈ additions, a ∈ addition.keys := by
  induction additions using List.reverseRecOn with
  | nil => simp [build, empty]
  | append_singleton additions addition ih =>
    have hbuild : build (additions ++ [addition]) = (build additions).add addition := List.foldl_append
    simp only [hbuild, mem_keys_add, ih, List.mem_append, List.mem_singleton, or_and_right, exists_or,
      exists_eq_left]

/-- The edges of a graph are those that were added. -/
theorem dependsOn_build {additions : List (Addition K)} :
    (build additions).DependsOn a b ↔ .edge a b ∈ additions := by
  induction additions using List.reverseRecOn with
  | nil => simp [build, empty, DependsOn]
  | append_singleton additions addition ih =>
    have hbuild : build (additions ++ [addition]) = (build additions).add addition := List.foldl_append
    rw [hbuild, DependsOn, mem_edges_add, List.mem_append, List.mem_singleton, eq_comm (a := addition)]
    exact or_congr_left ih

theorem mem_dependencies : b ∈ g.dependencies k ↔ g.DependsOn k b := by
  simp [dependencies, DependsOn]

theorem Sound.dependencies_nodup (h : g.Sound) (k : K) : (g.dependencies k).Nodup :=
  nodup_ends (fun _ _ => Prod.ext) h.edges_nodup k

/-- Whatever is added, and however often: keys and pairs are held once; what depends on a key is just what
leads to it by a chain of added pairs, the key itself where it lies on a circle; what it depends on is what it
was paired with; and the search for what depends on a key ends. -/
theorem build_answers (additions : List (Addition K)) :
    (build additions).keys.Nodup
      ∧ (∀ k, k ∈ (build additions).keys ↔ ∃ addition ∈ additions, k ∈ addition.keys)
      ∧ (build additions).edges.Nodup
      ∧ (∀ a b, (a, b) ∈ (build additions).edges ↔ .edge a b ∈ additions)
      ∧ ∀ k, ((build additions).allDependents k).Nodup
        ∧ (∀ a, a ∈ (build additions).allDependents k
            ↔ Relation.TransGen (fun a b => .edge a b ∈ additions) a k)
        ∧ ((build additions).dependencies k).Nodup
        ∧ (∀ b, b ∈ (build additions).dependencies k ↔ .edge k b ∈ additions)
        ∧ (k ∈ (build additions).keys → ∃ turns, (build additions).turn^[turns] ([k], [])
            = ([], (build additions).allDependents k)) := by
  have hsound := sound_build additions
  have hdepends : (build additions).DependsOn = fun a b => .edge a b ∈ additions :=
    funext fun a => funext fun b => propext dependsOn_build
  refine ⟨hsound.keys_nodup, fun k => mem_keys_build, hsound.edges_nodup, fun a b => dependsOn_build,
    fun k => ⟨hsound.allDependents_nodup k, fun a => ?_, hsound.dependencies_nodup k, fun b => ?_,
      fun hk => ⟨_, hsound.turns_eq hk⟩⟩⟩
  · rw [hsound.mem_allDependents_iff, hdepends]
  · rw [mem_dependencies, dependsOn_build]

end StatEngine.DependencyGraph
