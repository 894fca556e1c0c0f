import StatEngine.Entity

/-!
# Orders of identities

Identities are ordered by their alternatives in the order they are declared, then by their parts; texts
are ordered by their characters.
-/

namespace StatEngine

/-- Values in ascending order, each of them once. -/
def sortedDistinct {α : Type} [Ord α] (values : List α) : List α :=
  let sorted := values.mergeSort fun a b => (compare a b).isLE
  sorted.foldr (fun a kept =>
    match kept with
    | b :: _ => if compare a b == .eq then kept else a :: kept
    | [] => [a]) []

end StatEngine
