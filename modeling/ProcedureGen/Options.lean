import ProcedureGen.Text

/-!
# Procedure options

Attributes of a procedure, found on the line of a module that carries the marker.

* `ProcedureOptions.ofLine`: the options named on one line;
* `ProcedureOptions.ofLines`: those of the first line with the marker;
* `ProcedureOptions.clause`: how they stand in a statement.

The order is that of `ProcedureOption.all`, whatever the order on the line.
-/

namespace ProcedureGen

inductive ProcedureOption where
  | immutable | stable | volatile | securityDefiner | securityInvoker
  deriving DecidableEq, Repr

namespace ProcedureOption

/-- The keywords of the option in a statement, and on a marker line. -/
def keywords : ProcedureOption → Text
  | .immutable => "immutable"
  | .stable => "stable"
  | .volatile => "volatile"
  | .securityDefiner => "security definer"
  | .securityInvoker => "security invoker"

/-- All options in the order in which statements name them. -/
def all : List ProcedureOption :=
  [.immutable, .stable, .volatile, .securityDefiner, .securityInvoker]

end ProcedureOption

/-- The options of a procedure. -/
structure ProcedureOptions where
  /-- Whether there was a marker line at all. -/
  isMarked : Bool
  found : List ProcedureOption
  deriving DecidableEq, Repr

namespace ProcedureOptions

/-- The text that makes a line a marker line. -/
def marker : Text := "plv8:"

/-- What a module without a marker line has. -/
def none : ProcedureOptions := ⟨false, []⟩

/-- The options whose keywords stand somewhere on a marker line. -/
def ofLine (line : Text) : ProcedureOptions :=
  ⟨true, ProcedureOption.all.filter fun o => Text.hasPart o.keywords line⟩

/-- The options of the first line that carries the marker. -/
def ofLines (lines : List Text) : ProcedureOptions :=
  match lines.find? (Text.hasPart marker) with
  | some line => ofLine line
  | Option.none => none

/-- What follows the language in a statement.  A marker line without a known option still gives a
blank. -/
def clause (o : ProcedureOptions) : Text :=
  if o.isMarked then " " ++ Text.joinWith " " (o.found.map ProcedureOption.keywords) else []

end ProcedureOptions

end ProcedureGen
