import ProcedureGen.Script.Phrase

/-!
# Common phrases

Words, marks and the end of a statement, which a line end may stand for.
-/

namespace ProcedureGen
namespace Script
namespace Grammar

open Phrase

def word (k : Keyword) : Phrase := .token (.keyword k)

def mark (p : Punctuator) : Phrase := .token (.punctuator p)

/-- A semicolon, or nothing in front of a closing brace, a line end or the end of the text. -/
def statementEnd : Phrase :=
  oneOf [mark .semicolon, ahead (mark .braceClose), ahead (.token .endOfText), .absent .sameLine]

/-- Members separated by commas, where one may stand at the end as well. -/
def members (p : Phrase) (close : Punctuator) : Phrase :=
  .many (.seq p (.either (mark .comma) (ahead (mark close))))

/-- A type annotation, where the dialect has types. -/
def typeMark? (d : Dialect) : Phrase := optionalIf d.hasTypes (.rule .typeMark)

def typeParameters? (d : Dialect) : Phrase :=
  optionalIf d.hasTypes (.rule (.typeParameters false true))

/-- A mark of the typed dialects only. -/
def mark? (d : Dialect) (p : Punctuator) : Phrase := optionalIf d.hasTypes (mark p)

def returnType? (d : Dialect) : Phrase :=
  optionalIf d.hasTypes (.seq (mark .colon) (.node .returnType (.rule (.returnType true))))

/-- A value behind an equals sign. -/
def initial (allowIn : Bool) : Phrase :=
  .node .initial (.seq (mark .assign) (.rule (.assignment allowIn)))

end Grammar
end Script
end ProcedureGen
