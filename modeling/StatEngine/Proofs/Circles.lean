import Mathlib.Data.List.Chain
import StatEngine.Proofs.Dependents

/-!
# Circles of dependencies

The search for circles goes from a key to what depends on it, depth first. It meets a key of the path it is
on just where the path closes to a circle, and what it leaves behind is not on any circle: whatever depends
on a key that is done is done as well.

## Main definitions

* `DependencyGraph.IsCircle`: a closed path of keys, each depending on the one before it;
* `DependencyGraph.Searching`: what holds while the search is on a path.

## Main statements

* `DependencyGraph.Sound.leads_visit`: what a visit of one key results in;
* `DependencyGraph.Sound.findCycle?_eq_none_iff`: nothing is found only if there is no circle;
* `DependencyGraph.Sound.isCircle_of_findCycle?`: what is found is a circle;
* `DependencyGraph.Sound.dependents_induction`: induction from keys to what they depend on.
-/

namespace StatEngine.DependencyGraph

variable {K : Type} [DecidableEq K] {g : DependencyGraph K} {path visited : List K} {k a b : K}

/-- A path of keys that ends with the key it starts with and meets no other key twice. Each key depends on
the one before it. -/
structure IsCircle (g : DependencyGraph K) (path : List K) : Prop where
  closes : path.head? = path.getLast?
  length_gt : 1 < path.length
  nodup : path.dropLast.Nodup
  subset_keys : path ⊆ g.keys
  chain : path.IsChain fun a b => g.DependsOn b a

/-- No key depends on itself, directly or through others. -/
def Acyclic (g : DependencyGraph K) : Prop := ∀ k, ¬ Relation.TransGen g.DependsOn k k

omit [DecidableEq K] in
/-- The keys of a circle depend on themselves. -/
theorem IsCircle.not_acyclic (h : g.IsCircle path) : ¬ g.Acyclic := by
  obtain ⟨hcloses, hlength, -, -, hchain⟩ := h
  match path, hlength with
  | a :: b :: rest, _ =>
    have hlast : (b :: rest).getLast (List.cons_ne_nil b rest) = a := by
      simpa [List.getLast?_cons_cons, List.getLast?_eq_getLast_of_ne_nil] using hcloses.symm
    obtain ⟨hab, hrest⟩ := List.isChain_cons_cons.mp hchain
    have hback : Relation.ReflTransGen (fun a b => g.DependsOn b a) b a := by
      rw [← hlast]
      exact List.relationReflTransGen_of_exists_isChain_cons rest hrest rfl
    intro hacyclic
    refine hacyclic a (Relation.TransGen.tail' ?_ hab)
    exact Relation.reflTransGen_swap.mp hback

/-- What holds while a search is on a path: each key on it depends on the one before it, and the keys that
were visited and left are done, with all that depends on them. -/
structure Searching (g : DependencyGraph K) (path visited : List K) : Prop where
  chain : path.IsChain fun a b => g.DependsOn b a
  nodup : path.Nodup
  path_subset : path ⊆ visited
  subset_keys : visited ⊆ g.keys
  done : ∀ {a b : K}, a ∈ visited → a ∉ path → g.DependsOn b a → b ∈ visited ∧ b ∉ path
  acyclic : ∀ {a : K}, a ∈ visited → a ∉ path → ¬ Relation.TransGen g.DependsOn a a

omit [DecidableEq K] in
theorem searching_nil : g.Searching [] [] where
  chain := .nil
  nodup := List.nodup_nil
  path_subset := List.nil_subset _
  subset_keys := List.nil_subset _
  done h := by cases h
  acyclic h := by cases h

namespace Searching

omit [DecidableEq K] in
/-- All that depends on a key that is done is done. -/
theorem done_of_dependsOn (h : g.Searching path visited) (ha : a ∈ visited) (hpath : a ∉ path)
    (hb : Relation.ReflTransGen g.DependsOn b a) : b ∈ visited ∧ b ∉ path := by
  induction hb using Relation.ReflTransGen.head_induction_on with
  | refl => exact ⟨ha, hpath⟩
  | head hdepends _ ih => exact h.done ih.1 ih.2 hdepends

omit [DecidableEq K] in
/-- A key that was not visited is put on the path. -/
theorem enter (h : g.Searching path visited) (hk : k ∈ g.keys) (hnew : k ∉ visited)
    (hlast : ∀ a ∈ path.getLast?, g.DependsOn k a) : g.Searching (path ++ [k]) (k :: visited) where
  chain := List.isChain_append.mpr ⟨h.chain, .singleton k, fun a ha b hb => by
    obtain rfl : k = b := by simpa using hb
    exact hlast a ha⟩
  nodup := List.nodup_append.mpr ⟨h.nodup, List.nodup_singleton k, fun a ha b hb hab => by
    rw [List.mem_singleton.mp hb] at hab
    exact hnew (hab ▸ h.path_subset ha)⟩
  path_subset := by
    intro a ha
    rcases List.mem_append.mp ha with ha | ha
    · exact List.mem_cons_of_mem k (h.path_subset ha)
    · rw [List.mem_singleton.mp ha]
      exact List.mem_cons_self
  subset_keys := List.cons_subset.mpr ⟨hk, h.subset_keys⟩
  done := by
    intro a b ha hpath hb
    rw [List.mem_append, List.mem_singleton, not_or] at hpath
    obtain ⟨hvisited, hleft⟩ := h.done ((List.mem_cons.mp ha).resolve_left hpath.2) hpath.1 hb
    refine ⟨List.mem_cons_of_mem k hvisited, ?_⟩
    rw [List.mem_append, List.mem_singleton, not_or]
    exact ⟨hleft, fun hbk => hnew (hbk ▸ hvisited)⟩
  acyclic := by
    intro a ha hpath
    rw [List.mem_append, List.mem_singleton, not_or] at hpath
    exact h.acyclic ((List.mem_cons.mp ha).resolve_left hpath.2) hpath.1

omit [DecidableEq K] in
/-- The last key of the path is left when all that depends on it is done. -/
theorem leave (h : g.Searching (path ++ [k]) visited)
    (hdone : ∀ a, g.DependsOn a k → a ∈ visited ∧ a ∉ path ++ [k]) : g.Searching path visited where
  chain := (List.isChain_append.mp h.chain).1
  nodup := (List.nodup_append.mp h.nodup).1
  path_subset := List.Subset.trans (List.subset_append_left path [k]) h.path_subset
  subset_keys := h.subset_keys
  done := by
    intro a b ha hpath hb
    have hfull : b ∈ visited ∧ b ∉ path ++ [k] := by
      by_cases hak : a = k
      · exact hdone b (hak ▸ hb)
      · refine h.done ha ?_ hb
        rw [List.mem_append, List.mem_singleton, not_or]
        exact ⟨hpath, hak⟩
    exact ⟨hfull.1, fun hb => hfull.2 (List.mem_append_left [k] hb)⟩
  acyclic := by
    intro a ha hpath hcycle
    by_cases hak : a = k
    · -- a circle through the key would come back to it from a key that is done
      subst hak
      obtain ⟨b, hab, hb⟩ := Relation.TransGen.tail'_iff.mp hcycle
      obtain ⟨hvisited, hleft⟩ := hdone b hb
      have hdone := h.done_of_dependsOn hvisited hleft hab
      exact hdone.2 (List.mem_append_right path List.mem_cons_self)
    · refine h.acyclic ha ?_ hcycle
      rw [List.mem_append, List.mem_singleton, not_or]
      exact ⟨hpath, hak⟩

/-- A key of the path that depends on its last key closes a circle. -/
theorem isCircle (h : g.Searching path visited) (hk : k ∈ path)
    (hlast : ∀ a ∈ path.getLast?, g.DependsOn k a) :
    g.IsCircle (path.dropWhile (· ≠ k) ++ [k]) := by
  obtain ⟨before, after, rfl, hbefore⟩ := List.eq_append_cons_of_mem hk
  have hdrop : (before ++ k :: after).dropWhile (· ≠ k) = k :: after := by
    rw [List.dropWhile_append_of_pos fun a ha => ?_, List.dropWhile_cons_of_neg (by simp)]
    exact decide_eq_true fun hak => hbefore (hak ▸ ha)
  have hsubset : k :: after ⊆ visited :=
    List.Subset.trans (List.subset_append_right before _) h.path_subset
  rw [hdrop]
  refine ⟨?_, ?_, ?_, ?_, ?_⟩
  · rw [List.getLast?_concat, List.cons_append, List.head?_cons]
  · rw [List.length_append, List.length_cons, List.length_singleton]
    omega
  · rw [List.dropLast_concat]
    exact (List.nodup_append.mp h.nodup).2.1
  · refine List.Subset.trans ?_ h.subset_keys
    refine List.append_subset.mpr ⟨hsubset, fun a ha => ?_⟩
    rw [List.mem_singleton.mp ha]
    exact hsubset List.mem_cons_self
  · have hafter := (List.isChain_append.mp h.chain).2.1
    refine List.isChain_append.mpr ⟨hafter, .singleton k, fun a ha b hb => ?_⟩
    obtain rfl : k = b := by simpa using hb
    refine hlast a ?_
    rwa [List.getLast?_append_of_ne_nil _ (List.cons_ne_nil k after)]

end Searching

/-! ## Visiting -/

/-- What a search on a path may result in, after the keys that were visited before it: a circle, or keys that
were visited, the given ones among them. -/
def Leads (g : DependencyGraph K) (path visited keys : List K) : Except (List K) (List K) → Prop
  | .error cycle => g.IsCircle cycle
  | .ok visited' =>
    g.Searching path visited' ∧ visited ⊆ visited' ∧ ∀ k ∈ keys, k ∈ visited' ∧ k ∉ path

omit [DecidableEq K] in
/-- Searches of several keys, one after the other. -/
theorem leads_foldlM {step : List K → K → Except (List K) (List K)} : ∀ {keys visited : List K},
    (∀ k ∈ keys, ∀ visited, g.Searching path visited → g.Leads path visited [k] (step visited k)) →
    g.Searching path visited → g.Leads path visited keys (keys.foldlM step visited)
  | [], _, _, hsearching => ⟨hsearching, List.Subset.refl _, fun _ hk => by cases hk⟩
  | k :: keys, visited, hstep, hsearching => by
    have hfirst := hstep k List.mem_cons_self visited hsearching
    rw [List.foldlM_cons]
    cases hk : step visited k with
    | error cycle => rwa [hk] at hfirst
    | ok between =>
      rw [hk] at hfirst
      obtain ⟨hbetween, hgrown, hvisited⟩ := hfirst
      have hrest := leads_foldlM (fun k hk => hstep k (List.mem_cons_of_mem _ hk)) hbetween
      change g.Leads path visited (k :: keys) (keys.foldlM step between)
      cases hkeys : keys.foldlM step between with
      | error cycle => rwa [hkeys] at hrest
      | ok visited' =>
        rw [hkeys] at hrest
        obtain ⟨hsearched, hgrown', hvisited'⟩ := hrest
        refine ⟨hsearched, List.Subset.trans hgrown hgrown', fun a ha => ?_⟩
        rcases List.mem_cons.mp ha with rfl | ha
        · obtain ⟨hin, hpath⟩ := hvisited a List.mem_cons_self
          exact ⟨hgrown' hin, hpath⟩
        · exact hvisited' a ha

/-- A key is done after all that depends on it. -/
theorem Leads.leave (hpath : k ∉ path) : ∀ {result : Except (List K) (List K)},
    g.Leads (path ++ [k]) (k :: visited) (g.dependents k) result → g.Leads path visited [k] result
  | .error _, hcircle => hcircle
  | .ok _, ⟨hsearched, hgrown, hdone⟩ => by
    refine ⟨hsearched.leave fun a ha => hdone a (mem_dependents.mpr ha), ?_, fun a ha => ?_⟩
    · exact (List.cons_subset.mp hgrown).2
    · rw [List.mem_singleton.mp ha]
      exact ⟨hgrown List.mem_cons_self, hpath⟩

/-- A visit results in a circle, or the key and all that depends on it is done. The bound is not used up: the
keys on the path differ, so that it cannot be longer than all keys. -/
theorem Sound.leads_visit (h : g.Sound) : ∀ (fuel : Nat) (path visited : List K) (k : K),
    g.Searching path visited → k ∈ g.keys → k ∉ visited → (∀ a ∈ path.getLast?, g.DependsOn k a) →
    fuel + path.length = g.keys.length + 1 → g.Leads path visited [k] (g.visit fuel path visited k) := by
  intro fuel
  induction fuel with
  | zero =>
    intro path visited k hsearching _ _ _ hfuel
    have hle : path.length ≤ g.keys.length :=
      hsearching.nodup.length_le_of_subset (List.Subset.trans hsearching.path_subset hsearching.subset_keys)
    omega
  | succ fuel ih =>
    intro path visited k hsearching hk hnew hlast hfuel
    have hpath : k ∉ path := fun hin => hnew (hsearching.path_subset hin)
    have hlast' {a : K} (ha : g.DependsOn a k) : ∀ b ∈ (path ++ [k]).getLast?, g.DependsOn a b := by
      intro b hb
      obtain rfl : k = b := by simpa using hb
      exact ha
    rw [visit]
    refine Leads.leave hpath (leads_foldlM (fun a ha visited hvisited => ?_) (hsearching.enter hk hnew hlast))
    have hdepends : g.DependsOn a k := mem_dependents.mp ha
    split_ifs with hold hclosed
    · exact hvisited.isCircle hclosed (hlast' hdepends)
    · refine ⟨hvisited, List.Subset.refl _, fun b hb => ?_⟩
      rw [List.mem_singleton.mp hb]
      exact ⟨hold, hclosed⟩
    · refine ih _ _ a hvisited (h.dependent_mem hdepends) hold (hlast' hdepends) ?_
      rw [List.length_append, List.length_singleton]
      omega

/-- The searches from all keys lead to a circle, or all keys are done. -/
theorem Sound.leads_findCycle (h : g.Sound) : g.Leads [] [] g.keys
    (g.keys.foldlM (fun visited k =>
      if k ∈ visited then .ok visited else g.visit (g.keys.length + 1) [] visited k) []) := by
  refine leads_foldlM (fun k hk visited hvisited => ?_) searching_nil
  split_ifs with hold
  · refine ⟨hvisited, List.Subset.refl _, fun a ha => ?_⟩
    rw [List.mem_singleton.mp ha]
    exact ⟨hold, List.not_mem_nil⟩
  · exact h.leads_visit _ [] visited k hvisited hk hold (fun a ha => by cases ha) rfl

/-- What is found is a circle. -/
theorem Sound.isCircle_of_findCycle? (h : g.Sound) {cycle : List K} (hfound : g.findCycle? = some cycle) :
    g.IsCircle cycle := by
  have hleads := h.leads_findCycle
  rw [findCycle?] at hfound
  split at hfound
  next => cases hfound
  next heq =>
    rw [heq] at hleads
    rwa [← Option.some.inj hfound]

/-- Nothing is found just where nothing depends on itself. -/
theorem Sound.findCycle?_eq_none_iff (h : g.Sound) : g.findCycle? = none ↔ g.Acyclic := by
  constructor
  · intro hnone k hcycle
    have hleads := h.leads_findCycle
    rw [findCycle?] at hnone
    split at hnone
    next heq =>
      rw [heq] at hleads
      obtain ⟨hsearched, -, hdone⟩ := hleads
      obtain ⟨b, -, hbk⟩ := Relation.TransGen.tail'_iff.mp hcycle
      obtain ⟨hvisited, hpath⟩ := hdone k (h.dependency_mem hbk)
      exact hsearched.acyclic hvisited hpath hcycle
    next => cases hnone
  · intro hacyclic
    cases hfound : g.findCycle? with
    | none => rfl
    | some cycle => exact absurd hacyclic (h.isCircle_of_findCycle? hfound).not_acyclic

/-! ## Graphs without circles -/

/-- Without circles, more keys depend on a key than on what depends on it. -/
theorem Sound.length_allDependents_lt (h : g.Sound) (hacyclic : g.Acyclic) (hab : g.DependsOn a b) :
    (g.allDependents a).length < (g.allDependents b).length := by
  have hself : a ∉ g.allDependents a := fun ha => hacyclic a (h.mem_allDependents_iff.mp ha)
  have hnodup : (a :: g.allDependents a).Nodup :=
    List.nodup_cons.mpr ⟨hself, h.allDependents_nodup a⟩
  refine Nat.lt_of_succ_le (hnodup.length_le_of_subset fun c hc => h.mem_allDependents_iff.mpr ?_)
  obtain rfl | hc := List.mem_cons.mp hc
  · exact .single hab
  · exact (h.mem_allDependents_iff.mp hc).tail hab

/-- Without circles, what holds of a key if it holds of all that depends on it holds of every key. -/
theorem Sound.dependents_induction (h : g.Sound) (hacyclic : g.Acyclic) {motive : K → Prop}
    (hstep : ∀ k, (∀ a, g.DependsOn a k → motive a) → motive k) (k : K) : motive k := by
  induction hlength : (g.allDependents k).length using Nat.strong_induction_on generalizing k with
  | _ length ih =>
    exact hstep k fun a ha => ih _ (hlength ▸ h.length_allDependents_lt hacyclic ha) a rfl

end StatEngine.DependencyGraph
