import StatEngine.Fault

/-!
# Dependency graphs

A `DependencyGraph` records what depends on what, for keys of any kind. It answers what a key depends
on, what a change of it reaches, whether the dependencies run in a circle, and in which order
everything can be computed.

Keys are numbered in the order they are added and edges are kept newest first, which fixes the order
of every answer: neighbours are visited newest edge first.
-/

namespace StatEngine

/-- Keys and the dependencies among them. -/
structure DependencyGraph (K : Type) where
  /-- Every key, in the order they were added. -/
  keys : List K
  /-- Every dependency as the pair of the dependent and what it depends on, newest first. -/
  edges : List (K × K)

namespace DependencyGraph

variable {K : Type} [DecidableEq K]

/-- The graph of nothing. -/
def empty : DependencyGraph K := ⟨[], []⟩

/-- Add a key unless it is known. -/
def addKey (g : DependencyGraph K) (k : K) : DependencyGraph K :=
  if k ∈ g.keys then g else { g with keys := g.keys ++ [k] }

/-- Let one key depend on another. Unknown keys are added, the dependent first, and a dependency that
is known is not added again. -/
def addEdge (g : DependencyGraph K) (dependent dependency : K) : DependencyGraph K :=
  let g := (g.addKey dependent).addKey dependency
  if (dependent, dependency) ∈ g.edges then g
  else { g with edges := (dependent, dependency) :: g.edges }

/-- The number of a key. -/
def index? (g : DependencyGraph K) (k : K) : Option Nat := g.keys.findIdx? (· = k)

/-- What a key directly depends on, newest first. -/
def dependencies (g : DependencyGraph K) (k : K) : List K :=
  (g.edges.filter (·.1 = k)).map (·.2)

/-- What directly depends on a key, newest first. -/
def dependents (g : DependencyGraph K) (k : K) : List K :=
  (g.edges.filter (·.2 = k)).map (·.1)

/-- The keys not yet known that directly depend on one of the keys on the stack, or on one found on
the way. The first argument bounds the keys that are taken off the stack. -/
def reach (g : DependencyGraph K) : Nat → (stack found : List K) → List K
  | 0, _, found => found
  | _ + 1, [], found => found
  | fuel + 1, k :: stack, found =>
    let new := (g.dependents k).filter (· ∉ found)
    reach g fuel (new.reverse ++ stack) (found ++ new)

/-- Everything a change of `k` reaches: what depends on it directly or through others. -/
def allDependents (g : DependencyGraph K) (k : K) : List K :=
  if k ∈ g.keys then g.reach (g.keys.length + 1) [k] [] else []

/-- Visit a key and all that depends on it, depth first. `path` leads to the key and `visited` was
visited before. The result is what was visited, or a closed path of keys as an error. The first
argument bounds the length of the path. -/
def visit (g : DependencyGraph K) : Nat → (path : List K) → (visited : List K) → K →
    Except (List K) (List K)
  | 0, _, visited, _ => .ok visited
  | fuel + 1, path, visited, k =>
    let path := path ++ [k]
    (g.dependents k).foldlM (fun visited next =>
      if next ∉ visited then g.visit fuel path visited next
      else if next ∈ path then .error (path.dropWhile (· ≠ next) ++ [next])
      else .ok visited) (k :: visited)

/-- A closed path of keys, each depending on the one before it, or nothing if there is none. -/
def findCycle? (g : DependencyGraph K) : Option (List K) :=
  let search := g.keys.foldlM (fun visited k =>
    if k ∈ visited then .ok visited else g.visit (g.keys.length + 1) [] visited k) []
  match search with
  | .ok _ => none
  | .error cycle => some cycle

/-- The state of a depth-first search that finishes a key after all that depends on it. -/
structure Search (K : Type) where
  /-- The keys whose dependents were put on the stack. -/
  discovered : List K
  /-- The keys that are finished, last one first. -/
  finished : List K

/-- Run the search until the stack is empty. The first argument bounds the number of steps. -/
def Search.run (g : DependencyGraph K) : Nat → (stack : List K) → Search K → Search K
  | 0, _, s => s
  | _ + 1, [], s => s
  | fuel + 1, k :: stack, s =>
    if k ∉ s.discovered then
      let s := { s with discovered := k :: s.discovered }
      let new := (g.dependents k).filter (· ∉ s.discovered)
      run g fuel (new.reverse ++ k :: stack) s
    else if k ∉ s.finished then run g fuel stack { s with finished := k :: s.finished }
    else run g fuel stack s

/-- Every key of a graph without cycles, dependencies before dependents. -/
def order (g : DependencyGraph K) : List K :=
  let steps := 2 * g.keys.length + g.edges.length + 1
  (g.keys.foldl (fun s k =>
    if k ∈ s.discovered then s else Search.run g steps [k] s) ⟨[], []⟩).finished

/-- The first key of a list that depends on something that is not before it. `before` holds what comes
before the list. -/
def misplaced? (g : DependencyGraph K) (before : List K) : List K → Option K
  | [] => none
  | k :: rest =>
    if (g.dependencies k).all (· ∈ before) then g.misplaced? (k :: before) rest else some k

/-- The keys sorted, dependencies before dependents. If that fails, the error is a key that is out of
place. -/
def sort (g : DependencyGraph K) : Except K (List K) :=
  match g.misplaced? [] g.order with
  | none => .ok g.order
  | some k => .error k

/-- Nothing, or the fault of a cycle. Keys are written by `write`. -/
def detectCycles {N : Type} (write : K → String) (g : DependencyGraph K) : Except (Fault N) Unit :=
  match g.findCycle? with
  | none => .ok ()
  | some path => .error (.cycle (path.map write))

/-- Every key, dependencies before dependents, or the fault of a cycle. Keys are written by `write`. -/
def evaluationOrder {N : Type} (write : K → String) (g : DependencyGraph K) :
    Except (Fault N) (List K) := do
  g.detectCycles write
  g.sort.mapError fun k => .cycle [write k]

end DependencyGraph

end StatEngine
