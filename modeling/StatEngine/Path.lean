import StatEngine.Source

/-!
# Paths

The values of a stat are computed along `Path`s. A path is the source of the modifiers that set the
base value and the chain of stats the value was converted through on its way, oldest first. The
global source without conversions is the main path.

The type of the stats on the chain is a parameter: a path carries whole stats where nodes may have to
be created from it, and only their keys where it serves as an identity.
-/

namespace StatEngine

/-- A source, and the stats a value was converted through. -/
structure Path (S : Type) where
  /-- The source of the base value. -/
  source : Source
  /-- The stats passed before the current one, oldest first. -/
  via : List S
  deriving DecidableEq, Repr

namespace Path

variable {S T : Type}

/-- The path of a source, without conversions. -/
def ofSource (source : Source) : Path S := ⟨source, []⟩

/-- The global source without conversions. -/
def main : Path S := ofSource .global

/-- Whether this is the main path. -/
def isMain (p : Path S) : Bool := p.source.isGlobal && p.via.isEmpty

/-- Whether a value on this path was converted at least once. -/
def isConversion (p : Path S) : Bool := !p.via.isEmpty

/-- The path as seen from a stat that `stat` converts into. -/
def extend (p : Path S) (stat : S) : Path S := ⟨p.source, p.via ++ [stat]⟩

/-- The path before its last conversion, if there is one. -/
def withoutLast? (p : Path S) : Option (Path S) :=
  if p.via.isEmpty then none else some ⟨p.source, p.via.dropLast⟩

/-- The path with every stat replaced. -/
def map (f : S → T) (p : Path S) : Path T := ⟨p.source, p.via.map f⟩

/-- The text of a path: its source, then the stats it came through. -/
def text (write : S → String) (p : Path S) : String :=
  if p.via.isEmpty then p.source.text
  else p.source.text ++ " via " ++ " -> ".intercalate (p.via.map write)

/-- Taking back the conversion a path was extended by gives the path. -/
@[simp]
theorem withoutLast?_extend (p : Path S) (stat : S) : (p.extend stat).withoutLast? = some p := by
  simp [withoutLast?, extend]

end Path

end StatEngine
