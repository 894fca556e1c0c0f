import StatEngine.Proofs.Selectivity

/-!
# What is attached after a sweep

What is on file is owned, and what is owned by the network itself is on file or shows what is. So if hosts
hold nothing else, a sweep leaves no node attached to anything that is not on file.

## Main definitions

* `Covered`: a node is on file, or shows one that is;
* `Clean`: only nodes on file are attached to anything.

## Main statements

* `Sane.covered_of_reaches`: only what is on file is reached from the roots, and what shows that;
* `Rests.clean_of_sweep`: a sweep leaves a network clean, if hosts hold nothing else.
-/

namespace StatEngine

open Network

namespace Network

variable {N A σ : Type} {sc : Regime N} {n m : Network N A σ}

/-- A node is on file, or shows one that is. -/
def Covered (n : Network N A σ) (i : Nat) : Prop :=
  n.Spared i ∨ ∃ inner, n.kind? i = some (.exposed inner) ∧ n.Spared inner

/-- Only nodes on file are attached to anything. -/
def Clean (n : Network N A σ) : Prop := ∀ i, n.held i ≠ [] → n.Spared i

/-- What a node of a kind owns. -/
def ownedByKind (n : Network N A σ) : Kind N A → List Nat
  | .cached inner | .exposed inner | .wrapped inner => [inner]
  | .aggregate collection _ => n.ownedByCollection collection
  | _ => []

theorem ownedByNode_eq {i : Nat} {kind : Kind N A} (h : n.kind? i = some kind) :
    n.ownedByNode i = n.ownedByKind kind := by
  obtain ⟨body, hbody, rfl⟩ := exists_body h
  rw [ownedByNode, hbody]
  cases body <;> rfl

variable [Number N]

/-- What a collection on file owns is covered. -/
theorem Sane.covered_of_member (hn : n.Sane sc) {key : StatKey} {form : Form} {path : PathKey}
    {e : FormEntry N} (he : n.registry.form? key form path = some e) {i : Nat}
    (hi : i ∈ n.ownedByCollection e.collection) : n.Covered i := by
  have hmember {j : Nat} (hj : j ∈ (n.registry.items e.collection).map (·.1)) :
      ∃ id, j = id + 2 ∧ n.kind? (id + 2) = some (.exposed (id + 1)) ∧ n.Spared id ∧ n.Spared (id + 1) := by
    obtain ⟨item, hitem, rfl⟩ := List.mem_map.mp hj
    obtain ⟨-, -, -, id, hid, hcell⟩ := (hn.inv.wired.forms _ _ _ _ he).members item hitem
    refine ⟨id, hid, hcell.exposed, ?_, ?_⟩
    · exact .inr (.inl ⟨key, form, path, e, he, .inr ⟨item, hitem, .inr hid.symm⟩⟩)
    · exact .inr (.inl ⟨key, form, path, e, he, .inr ⟨item, hitem, .inl hid.symm⟩⟩)
  rw [ownedByCollection] at hi
  cases hc : n.collections[e.collection]? with
  | none => simp [hc] at hi
  | some collection =>
    rw [hc] at hi
    obtain hi | hi := List.mem_append.mp hi
    · obtain ⟨id, rfl, hexposed, -, hspared⟩ := hmember (by simpa [registry, hc] using hi)
      exact .inr ⟨id + 1, hexposed, hspared⟩
    · obtain ⟨f, hf, rfl⟩ := List.mem_map.mp hi
      have hmem := (hn.mem_members_iff he).mpr ⟨f, by rw [hc]; exact hf, rfl⟩
      obtain ⟨id, hid, -, hspared, -⟩ := hmember hmem
      exact .inl (by rwa [show f.2 = id by omega])

/-- What the network itself owns is covered. -/
theorem Sane.covered_of_root (hn : n.Sane sc) {i : Nat} (hi : i ∈ n.roots) : n.Covered i := by
  have ho := hn.inv.orderly
  obtain hi | hi := List.mem_append.mp hi
  · obtain ⟨g, hg, hi⟩ := List.mem_flatMap.mp hi
    have hg := (mem_inUse_iff ho).mp hg
    obtain hi | hi := List.mem_append.mp hi
    · obtain ⟨e, he, hi⟩ := List.mem_flatMap.mp hi
      have he := ho.nodes_found _ g hg e he
      have hstage := hn.inv.wired.stages _ _ he
      obtain ⟨_, _, _, hcell, -⟩ := hstage.cell
      rw [hstage.cached, hstage.exposed] at hi
      simp only [List.mem_cons, List.not_mem_nil, or_false] at hi
      obtain rfl | rfl | rfl := hi
      · exact .inl (.inl ⟨_, e, he, .inl rfl⟩)
      · exact .inl (.inl ⟨_, e, he, .inr rfl⟩)
      · exact .inr ⟨_, hcell.exposed, .inl ⟨_, e, he, .inr rfl⟩⟩
    · obtain ⟨e, he, hi⟩ := List.mem_flatMap.mp hi
      have he := ho.forms_found _ g hg e he
      obtain rfl | hi := List.mem_cons.mp hi
      · exact .inl (.inr (.inl ⟨_, _, _, e, he, .inl rfl⟩))
      · exact hn.covered_of_member he hi
  · obtain ⟨x, hx, rfl⟩ := List.mem_map.mp hi
    exact .inl (.inr (.inr ⟨x, hx, rfl⟩))

/-- What is owned by nodes that are covered is covered. -/
theorem Sane.covered_owned (hn : n.Sane sc) {i j : Nat} (hi : n.Covered i) (hj : j ∈ n.ownedByNode i) :
    n.Covered j := by
  obtain (⟨k, e, he, hid⟩ | ⟨key, f, p, e, he, hid⟩ | ⟨x, hx, rfl⟩) | ⟨inner, hinner, hspared⟩ := hi
  · obtain ⟨_, _, _, hcell, -⟩ := (hn.inv.wired.stages k e he).cell
    obtain rfl | rfl := hid
    · rw [ownedByNode_eq hcell.formula] at hj
      cases hj
    · rw [ownedByNode_eq hcell.cached] at hj
      obtain rfl := List.mem_singleton.mp hj
      exact .inl (.inl ⟨k, e, he, .inl rfl⟩)
  · have hform := hn.inv.wired.forms key f p e he
    obtain rfl | ⟨item, hitem, hid⟩ := hid
    · rw [ownedByNode_eq hform.kind] at hj
      exact hn.covered_of_member he hj
    · obtain ⟨-, -, -, c, hc, hcell⟩ := hform.members item hitem
      obtain hid | hid := hid
      · obtain rfl : i = c + 1 := by omega
        rw [ownedByNode_eq hcell.cached] at hj
        obtain rfl := List.mem_singleton.mp hj
        exact .inl (.inr (.inl ⟨key, f, p, e, he, .inr ⟨item, hitem, .inr hc.symm⟩⟩))
      · obtain rfl : i = c := by omega
        rw [ownedByNode_eq hcell.formula] at hj
        cases hj
  · obtain ⟨e, he, hwrapped, -⟩ := hn.inv.listed.shows x hx
    rw [ownedByNode_eq hwrapped] at hj
    obtain rfl := List.mem_singleton.mp hj
    exact .inl (.inl ⟨_, e, he, .inr (hn.inv.wired.stages _ e he).cached⟩)
  · rw [ownedByNode_eq hinner] at hj
    obtain rfl := List.mem_singleton.mp hj
    exact .inl hspared

/-- Only what is on file is reached from the roots, and what shows that. -/
theorem Sane.covered_of_reaches (hn : n.Sane sc) {start : List Nat} (hstart : ∀ i ∈ start, i ∈ n.roots)
    {i : Nat} (hi : n.Reaches start i) : n.Covered i :=
  hi.of_closed (fun i hi => hn.covered_of_root (hstart i hi)) fun _ hi _ hj => hn.covered_owned hi hj

/-- A sweep leaves only what is on file attached to anything, if hosts hold nothing else. -/
theorem Rests.clean_of_sweep (hn : n.Rests sc) {held : List Nat} (hheld : ∀ i ∈ held, i ∈ n.roots)
    (h : sweep held n = some (⟨⟩, m)) : m.Clean := by
  intro i hi
  have hreaches := reaches_of_held hn.idle h hi
  obtain ⟨-, hchanges, hreg⟩ := (Network.leads_sweep (b := False) hn.inv hn.idle held).partly h
  rw [Spared, hreg]
  have hroots (j : Nat) (hj : j ∈ n.roots ++ held) : j ∈ n.roots := (List.mem_append.mp hj).elim id (hheld j)
  obtain hspared | ⟨inner, hinner, -⟩ := hn.sane.covered_of_reaches hroots hreaches
  · exact hspared
  · -- a node that shows another one holds nothing
    obtain ⟨body, hbody, hkind⟩ := exists_body ((hchanges fun _ s => s).kind i _ hinner)
    refine absurd ?_ hi
    rw [Network.held, hbody]
    cases body with
    | exposed => rfl
    | _ => cases hkind

end Network

end StatEngine
