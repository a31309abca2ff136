import ProcedureGen.Failure
import ProcedureGen.Script.Module

/-!
# Signatures

A declaration file carries the typed signature that the compiled module has lost.  The first
function without a body counts, exported or not.

* `Script.Dialect.ofPath`: the dialect that a file name asks for;
* `Signature.read`: the signature that a declaration source holds.
-/

namespace ProcedureGen

open Script

/-- The dialect of a file, from the end of its name alone. -/
def Script.Dialect.ofPath (path : Text) : Dialect :=
  if ".d.ts".toList.isSuffixOf path then .ambient
  else if ".ts".toList.isSuffixOf path then .typed
  else .plain

namespace Script
namespace Tree

/-- The content of the function below an item. -/
def function? (item : Tree) : Option Tree :=
  match item with
  | .node .exportedFunction t | .node .bareFunction t =>
    t.children.findSome? fun
      | .node (.function _ _) f => some f
      | _ => none
  | _ => none

/-- The name of a function. -/
def functionName (f : Tree) : Text :=
  match (f.child? .functionName).bind firstToken? with
  | some t => t.word?.getD []
  | none => []

/-- A type without the bar in front of its only alternative. -/
def withoutLeadingBar : Tree → Tree
  | .node .barredUnion (.cat _ (.cat one .empty)) => one.withoutLeadingBar
  | t => t

/-- The text of the parameters, from the first through the last. -/
def parameterText (f : Tree) : Text :=
  match (f.child? .parameters).bind (child? .parameterList) with
  | some list => list.text
  | none => []

end Tree
end Script

/-- Name, parameters and result type of a declared function. -/
structure Signature where
  name : Text
  /-- The parameters as written, without any colon. -/
  params : Text
  returnType : Text
  deriving DecidableEq, Repr

namespace Signature

/-- The result type that makes a procedure a trigger. -/
def triggerType : Text := "trigger"

def isTrigger (s : Signature) : Bool := s.returnType == triggerType

/-- The first function without a body. -/
def declaration? (m : Module) : Option Tree :=
  m.items.findSome? fun item =>
    match item.function? with
    | some f => if (f.child? .body).isNone then some f else none
    | none => none

/-- The signature of a declared function.  A trigger takes no parameters: it receives its rows
without being given them. -/
def ofDeclaration? (f : Tree) : Option Signature :=
  match f.child? .returnType with
  | none => none
  | some t =>
    let returnType := t.withoutLeadingBar.text
    let params := if returnType = triggerType then [] else f.parameterText.filter (· != ':')
    some ⟨f.functionName, params, returnType⟩

/-- The signature that a declaration source holds; `path` chooses the dialect. -/
def read (path source : Text) : Except Failure Signature :=
  match Module.parse? (.ofPath path) source with
  | none => .error (.unparsable path)
  | some m =>
    match declaration? m with
    | none => .error (.noDeclaration path)
    | some f =>
      match ofDeclaration? f with
      | none => .error (.noReturnType path f.functionName)
      | some s => .ok s

end Signature

end ProcedureGen
