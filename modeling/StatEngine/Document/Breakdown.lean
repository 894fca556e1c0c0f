import StatEngine.Breakdown
import StatEngine.Document.Identity

/-!
# Documents of amounts, settings and breakdowns

Amounts of doubles are records of their bounds. Settings may leave out what is standard but nothing
may be misspelt. A breakdown is a record whose absent amounts are null or left out.
-/

namespace StatEngine

namespace Amount

/-- The document of an amount. -/
def toJson (a : Amount Float) : Json :=
  .object [("minimum", .ofFloat a.minimum), ("maximum", .ofFloat a.maximum)]

/-- The amount of a document. -/
def ofJson? (j : Json) : Option (Amount Float) := do
  match ← j.record? .lenient ["minimum", "maximum"] with
  | [some minimum, some maximum] => return ⟨← minimum.float?, ← maximum.float?⟩
  | _ => none

end Amount

namespace Settings

/-- The document of settings. -/
def toJson (s : Settings) : Json :=
  .object [("prune_after_update", .bool s.pruneAfterUpdate), ("buffer_events", .bool s.bufferEvents)]

/-- The settings of a document. -/
def ofJson? (j : Json) : Option Settings := do
  let orStandard (standard : Bool) : Option Json → Option Bool
    | none => some standard
    | some j => j.bool?
  match ← j.record? .closed ["prune_after_update", "buffer_events"] with
  | [prune, buffer] =>
    return ⟨← orStandard standard.pruneAfterUpdate prune, ← orStandard standard.bufferEvents buffer⟩
  | _ => none

end Settings

namespace PathBreakdown

/-- The names of the fields. -/
def fieldNames : List String := ["path", "path_total", "base", "increase", "more"]

/-- The document of a path breakdown. -/
def toJson (p : PathBreakdown Float) : Json :=
  .object (fieldNames.zip (.string p.path :: p.amounts.map (Json.ofOption Amount.toJson)))

/-- The path breakdown of a document. -/
def ofJson? (j : Json) : Option (PathBreakdown Float) := do
  match ← j.record? .lenient fieldNames with
  | some path :: amounts =>
    match ← amounts.mapM (Json.optional Amount.ofJson?) with
    | [pathTotal, base, increase, more] =>
      return { path := ← path.string?, pathTotal, base, increase, more }
    | _ => none
  | _ => none

end PathBreakdown

namespace Breakdown

/-- The document of a breakdown. -/
def toJson (b : Breakdown Float) : Json :=
  .object [
    ("stat", b.stat.toJson),
    ("total", .ofOption Amount.toJson b.total),
    ("subtotal", .ofOption Amount.toJson b.subtotal),
    ("uncapped_subtotal", .ofOption Amount.toJson b.uncappedSubtotal),
    ("paths", .array (b.paths.map PathBreakdown.toJson))]

/-- The breakdown of a document. -/
def ofJson? (j : Json) : Option (Breakdown Float) := do
  match ← j.record? .lenient ["stat", "total", "subtotal", "uncapped_subtotal", "paths"] with
  | [some stat, total, subtotal, uncapped, some paths] =>
    return {
      stat := ← StatKey.ofJson? stat
      total := ← Json.optional Amount.ofJson? total
      subtotal := ← Json.optional Amount.ofJson? subtotal
      uncappedSubtotal := ← Json.optional Amount.ofJson? uncapped
      paths := ← (← paths.items?).mapM PathBreakdown.ofJson? }
  | _ => none

end Breakdown

end StatEngine
