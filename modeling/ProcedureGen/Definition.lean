import ProcedureGen.Body

/-!
# Procedure definitions

What one `create function` statement needs, and the statement itself.

* `Definition.qualifiedName`: the name, with its schema if it has one;
* `Definition.render`: the text of the statement.
-/

namespace ProcedureGen

/-- A procedure with its signature and its body. -/
structure Definition where
  /-- Empty for a procedure without a schema. -/
  schema : Text
  signature : Signature
  body : FunctionBody
  deriving DecidableEq, Repr

namespace Definition

def qualifiedName (d : Definition) : Text :=
  if d.schema.isEmpty then d.signature.name else d.schema ++ "." ++ d.signature.name

/-- The name with the parameters in parentheses. -/
def heading (d : Definition) : Text :=
  d.qualifiedName ++ "(" ++ d.signature.params ++ ")"

def dropLine (d : Definition) : Text := "drop function if exists " ++ d.heading ++ ";"

def createLine (d : Definition) : Text := "create or replace function " ++ d.heading

def returnsLine (d : Definition) : Text := "returns " ++ d.signature.returnType ++ " AS $$"

def closingLine (d : Definition) : Text := "$$ language plv8" ++ d.body.options.clause ++ ";"

/-- The statement, line by line. -/
def statementLines (d : Definition) : List Text :=
  d.createLine :: d.returnsLine :: d.body.lines ++ [d.closingLine]

/-- The statement as text, after one that drops the function if `withDrop` asks for it. -/
def render (d : Definition) (withDrop : Bool) : Text :=
  Text.unlines ((if withDrop then [d.dropLine] else []) ++ d.statementLines)

end Definition

end ProcedureGen
