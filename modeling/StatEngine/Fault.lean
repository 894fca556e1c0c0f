import StatEngine.Amount
import StatEngine.Stage

/-!
# Faults

A calculation that cannot be carried out yields a `Fault`. All of them describe modifiers wired up
badly, or a part of the engine that is gone; a missing value is not a fault.

A cycle is recorded while it unwinds. It starts open, with the node that was re-entered
(`Fault.cycleAt`), every node it unwinds through is appended (`Fault.unwind`), and when the node it
started with is reached the path is closed and turned into the order of evaluation.
-/

namespace StatEngine

/-- Why a value cannot be calculated. -/
inductive Fault (N : Type) where
  /-- A node was read again while it was being computed. The labels of the cycle, from the node
  that was read again back to it. -/
  | cycle (path : List String)
  /-- Several contributors set the same bound of a base. -/
  | ambiguousBaseSet (values : List (Amount N))
  /-- Overrides differ and none of them is zero. -/
  | conflictingOverrides (values : List (Amount N))
  /-- A form that takes the maximum was asked for together with other stats. -/
  | inconsistentMaximum (stat : String) (form : Form)
  /-- The network that owned a node is gone. -/
  | networkReleased
  /-- The catalog that owned a behavior is gone. -/
  | catalogReleased

namespace Fault

variable {N : Type}

/-- A path of labels is closed if it comes back to where it started. -/
def closed (path : List String) : Bool := path.length > 1 && path.head? == path.getLast?

/-- The cycle found by re-entering the node `label`, still open. -/
def cycleAt (label : String) : Fault N := .cycle [label]

/-- Whether the fault is a cycle whose path is closed. -/
def isClosedCycle : Fault N → Bool
  | .cycle path => closed path
  | _ => false

/-- Add the node `label` to an open cycle that unwinds through it. A path that closes is turned into
the order of evaluation; closed cycles and other faults pass unchanged. -/
def unwind (label : String) : Fault N → Fault N
  | .cycle path =>
    if closed path then .cycle path
    else if path.isEmpty then .cycle path
    else
      let path := path ++ [label]
      .cycle (if closed path then path.reverse else path)
  | fault => fault

/-- The texts of amounts, separated by commas. -/
def amountTexts (write : N → String) [Number N] (values : List (Amount N)) : String :=
  ", ".intercalate (values.map (Amount.text write))

/-- The message shown for a fault. -/
def message (write : N → String) [Number N] : Fault N → String
  | .cycle path =>
    "Cyclic dependency detected: "
      ++ if path.isEmpty then "(empty cycle)" else " -> ".intercalate path
  | .ambiguousBaseSet values =>
    "Only one BaseSet modifier may be non-zero, got: " ++ amountTexts write values
  | .conflictingOverrides values =>
    "Override modifiers conflict, got: " ++ amountTexts write values
  | .inconsistentMaximum stat form =>
    form.name ++ " values of " ++ stat ++ " were queried together with values of other stats"
  | .networkReleased => "The calculation graph owning this node was released"
  | .catalogReleased => "The stat factory owning this behavior was released"

/-- Lists of amounts are alike if they are near one by one. -/
def amountsNear [Number N] : List (Amount N) → List (Amount N) → Bool
  | [], [] => true
  | a :: as, b :: bs => a.near b && amountsNear as bs
  | _, _ => false

/-- Whether two faults are of one kind with the same details, amounts compared by nearness. -/
def alike [Number N] : Fault N → Fault N → Bool
  | .cycle p, .cycle q => p == q
  | .ambiguousBaseSet v, .ambiguousBaseSet w => amountsNear v w
  | .conflictingOverrides v, .conflictingOverrides w => amountsNear v w
  | .inconsistentMaximum s f, .inconsistentMaximum t g => s == t && f == g
  | .networkReleased, .networkReleased => true
  | .catalogReleased, .catalogReleased => true
  | _, _ => false

end Fault

end StatEngine
