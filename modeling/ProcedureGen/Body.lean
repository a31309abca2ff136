import ProcedureGen.Options
import ProcedureGen.Signature

/-!
# Function bodies

The lines between the braces of the one function that a compiled module exports, and the options of
its marker line.

* `FunctionBody.blockLines`: the lines inside a block;
* `FunctionBody.read`: the body that a module source holds.
-/

namespace ProcedureGen

open Script

/-- The body of an exported function. -/
structure FunctionBody where
  name : Text
  lines : List Text
  options : ProcedureOptions
  deriving DecidableEq, Repr

namespace FunctionBody

/-- A line that shares its row with a brace is trimmed, and left out if nothing remains. -/
def edgeLine (row : Text) : List Text :=
  let t := Text.trim row
  if t.isEmpty then [] else [t]

/-- All rows but the last stand as they are. -/
def behindFirst : List Text → List Text
  | [] => []
  | [last] => edgeLine last
  | row :: rest => row :: behindFirst rest

/-- The rows of a text, the first and the last trimmed. -/
def innerLines (inner : Text) : List Text :=
  match Text.rows inner with
  | [] => []
  | first :: rest => edgeLine first ++ behindFirst rest

/-- A block without its two braces. -/
def withoutBraces (block : Text) : Text :=
  match (Text.dropPrefix? ['{'] block).bind (Text.dropSuffix? ['}']) with
  | some inner => inner
  | none => block

/-- The lines inside a block.  Code on the line of a brace is kept, trimmed. -/
def blockLines (block : Text) : List Text := innerLines (withoutBraces block)

/-- The exported functions of a module. -/
def exports (m : Module) : List Tree :=
  m.items.filterMap fun item =>
    if item.isNode .exportedFunction then item.function? else none

/-- The body that a module source holds; `path` chooses the dialect. -/
def read (path source : Text) : Except Failure FunctionBody :=
  match Module.parse? (.ofPath path) source with
  | none => .error (.unparsable path)
  | some m =>
    match exports m with
    | [] => .error (.noExport path)
    | [f] =>
      match f.child? .body with
      | none => .error (.noExport path)
      | some block =>
        .ok ⟨f.functionName, blockLines block.text, .ofLines (Text.lines source)⟩
    | many => .error (.severalExports path many.length)

end FunctionBody

end ProcedureGen
