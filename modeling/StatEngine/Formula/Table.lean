import StatEngine.Behavior.Effect

/-!
# Formulas against tables

A formula can be evaluated without a network, against a `Table` that says what every lookup finds. What
was looked up is traced, so that a test can tell what a formula depends on.
-/

namespace StatEngine

/-- What lookups find. The first entry of a key counts; what has no entry has no paths, is absent, or
has no modifiers. -/
structure Table (N : Type) where
  /-- The path that is being computed. -/
  path : Path (Stat N)
  /-- The paths of stats. -/
  paths : List (StatKey × List (Path (Stat N)))
  /-- The values of nodes. -/
  values : List (NodeKey × Except (Fault N) (Option (Amount N)))
  /-- The values of the modifiers of a form on a path of a stat. -/
  forms : List ((StatKey × Form × PathKey) × Except (Fault N) (List (Option (Amount N))))

namespace Table

variable {N : Type}

/-- A table in which nothing is found, on the main path. -/
def empty : Table N := ⟨Path.main, [], [], []⟩

/-- What happened while formulas were evaluated. -/
structure Trace (N : Type) where
  /-- The meta stats, unless they were let go of. -/
  catalog : Option (Catalog N)
  /-- What was looked up. -/
  reads : List DependencyKey
  /-- What formulas wanted noted. -/
  notes : List String

/-- Computations that are traced. -/
abbrev Traced (N : Type) := StateM (Trace N)

/-- Trace a lookup. -/
def trace (key : DependencyKey) : Reading N (Traced N) Unit :=
  ExceptT.lift (modify fun t => { t with reads := t.reads ++ [key] })

/-- The meta stat of a request. Without a catalog there is none. -/
def derive (request : MetaStat N) : Reading N (Traced N) (Stat N) := do
  match (← getThe (Trace N)).catalog with
  | none => throw .catalogReleased
  | some catalog =>
    let (stat, catalog) := (Catalog.get request).run catalog
    modifyThe (Trace N) fun t => { t with catalog := some catalog }
    return stat

/-- What a table finds under a key. -/
def find? {K V : Type} [BEq K] (entries : List (K × V)) (key : K) : Option V :=
  (entries.find? (·.1 == key)).map (·.2)

/-- Lookups in a table. -/
def lookup (t : Table N) : Lookup N (Traced N) where
  path := t.path
  paths := fun stat => do
    trace (.paths stat.key)
    return (find? t.paths stat.key).getD []
  value := fun stat stage path => do
    let key : NodeKey := ⟨stat.key, stage, path.key⟩
    trace (.node key)
    Reading.ofExcept ((find? t.values key).getD (.ok none))
  values := fun form places => do
    let perPlace ← places.mapM fun (stat, path) => do
      trace (.form stat.key form path.key)
      Reading.ofExcept ((find? t.forms (stat.key, form, path.key)).getD (.ok []))
    return perPlace.flatten
  derived := derive
  note := fun text => modify fun t => { t with notes := t.notes ++ [text] }

variable [Number N]

/-- What a formula under transformations computes against a table, and the trace of it. -/
def evaluate (t : Table N) (catalog : Option (Catalog N)) (layers : List (Transformation N))
    (formula : Formula N) : Except (Fault N) (Option (Amount N)) × Trace N :=
  ((Transformation.layer layers formula.eval t.lookup).run).run ⟨catalog, [], []⟩

end Table

end StatEngine
