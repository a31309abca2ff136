import ProcedureGen.Script.Grammar.Pattern

/-!
# Types

Type annotations and the declarations of the typed dialects.
-/

namespace ProcedureGen
namespace Script
namespace Grammar

open Phrase

/-! ## Types -/

/-- A type annotation behind a colon. -/
def typeMark : Phrase := .node .typeMark (.seq (mark .colon) (.rule (.type true)))

/-- A function type or a constructor type. -/
def functionType (choice : Bool) : Phrase :=
  .seq (.optional (.seq (.optional (word .abstract)) (word .new)))
    (all [.optional (.rule (.typeParameters false true)), .rule (.parameters false), mark .arrow,
      .rule (.returnType choice)])

/-- A type, where `extends` on the same line may begin a choice between two. -/
def type (choice : Bool) : Phrase :=
  .either (functionType choice)
    (if choice then
      .suffixed .typeChoice (.rule (.unionType true))
        (all [.sameLine, word .extends, .rule (.type false), mark .question,
          .rule (.type true), mark .colon, .rule (.type true)])
    else .rule (.unionType false))

/-- The result of a function: a type, or what holds of an argument when the function returns. -/
def returnType (choice : Bool) : Phrase :=
  let subject := .either (word .this) (.token .typeName)
  oneOf [
    all [word .asserts, .sameLine, subject,
      .optional (.seq (word .is) (.rule (.type choice)))],
    all [subject, .sameLine, word .is, .rule (.type choice)],
    .rule (.type choice)]

/-- Alternatives.  A bar in front of the first is a tree of its own kind. -/
def unionType (choice : Bool) : Phrase :=
  alternatives .bar (alternatives .ampersand (.rule (.prefixedType choice)))
where
  alternatives (p : Punctuator) (one : Phrase) : Phrase :=
    .either (.node .barredUnion (all [mark p, one, .many (.seq (mark p) one)]))
      (.suffixed .union one (atLeastOne (.seq (mark p) one)))

/-- Words that stand in front of a type and are no type themselves. -/
def typeOperator : Phrase := oneOf [word .keyof, word .unique, word .readonly]

/-- A type behind an operator, or one with brackets behind it.  What an inferred type extends is
read unless it is the test of a choice. -/
def prefixedType (choice : Bool) : Phrase :=
  let bound := .seq (word .extends) (.rule (.type false))
  oneOf [
    .seq typeOperator (.rule (.prefixedType choice)),
    all [word .infer, .token .typeName,
      .optional (if choice then .seq bound (.absent (mark .question)) else bound)],
    all [.absent typeOperator, .rule .primaryType,
      .many (all [.sameLine, mark .bracketOpen, .optional (.rule (.type true)),
        mark .bracketClose])]]

/-- Names joined by dots. -/
def entityName : Phrase :=
  .seq (.token .typeName) (.many (.seq (mark .dot) (.token .word)))

/-- Types in angles; the list may be empty. -/
def typeArguments : Phrase :=
  all [.token .openAngle,
    .many (.seq (.rule (.type true)) (.either (mark .comma) (ahead (.token .closeAngle)))),
    .token .closeAngle]

def typeArguments? : Phrase := .optional (.seq .sameLine (.rule .typeArguments))

/-- How the module of a type is loaded. -/
def importOptions : Phrase :=
  all [mark .braceOpen, word .with, mark .colon, .rule .object, .optional (mark .comma),
    mark .braceClose]

/-- The type of a module given by its name. -/
def importType : Phrase :=
  all [word .import, mark .parenOpen, .token .string,
    .optional (.seq (mark .comma) (.optional importOptions)), mark .parenClose,
    .many (.seq (mark .dot) (.token .word)), typeArguments?]

/-- The types in brackets, which may have names.  Behind one that may be missing stand only such
types and those that take what is left. -/
def tupleType : Phrase :=
  let name := .optional (all [.optional (mark .ellipsis), .token .word,
    .optional (mark .question), mark .colon])
  let rest := .seq (mark .ellipsis) (.rule (.type true))
  let required := all [name, .rule (.type true), .absent (mark .question)]
  let missing := all [name, .rule (.type true), mark .question]
  all [mark .bracketOpen, members (.either (.seq name rest) required) .bracketClose,
    members (.either (.seq name rest) missing) .bracketClose, mark .bracketClose]

/-- How a type that maps the members of another begins. -/
def mappedStart : Phrase :=
  let sign := .either (mark .plus) (mark .minus)
  .seq (mark .braceOpen) (.either (.seq sign (word .readonly))
    (all [.optional (word .readonly), mark .bracketOpen, .token .typeName, word .in]))

def mappedType : Phrase :=
  let sign := .optional (.either (mark .plus) (mark .minus))
  all [mark .braceOpen,
    .optional (all [sign, word .readonly]), mark .bracketOpen, .token .typeName, word .in,
    .rule (.type true), .optional (.seq (word .as) (.rule (.type true))), mark .bracketClose,
    .optional (.seq sign (mark .question)), .optional typeMark, statementEnd, mark .braceClose]

def templateType : Phrase :=
  .either (.token (.template .whole false))
    (all [.token (.template .head false), .rule (.type true),
      .many (.seq (.token (.templateRest .middle false)) (.rule (.type true))),
      .token (.templateRest .tail false)])

def primaryType : Phrase :=
  oneOf [
    all [mark .parenOpen, .rule (.type true), mark .parenClose],
    tupleType,
    mappedType,
    .seq (.absent mappedStart) (.rule .typeMembers),
    templateType,
    .token .string, .token .number, .seq (mark .minus) (.token .number),
    word .trueWord, word .falseWord, word .null, word .void, word .this,
    all [word .typeof, .either importType (all [.absent (word .void), .token .word,
      .many (.seq (mark .dot) (.either (.token .word) (.token .privateName))), typeArguments?])],
    importType,
    .seq (.rule .entityName) typeArguments?]

/-- Type parameters; the list may be empty, and any word may be a name. -/
def typeParameters (variance constant : Bool) : Phrase :=
  let modifiers := .many (.seq
    (oneOf [only constant (word .const), only variance (.either (word .in) (word .out))])
    (ahead (.token .word)))
  .node .typeParameters (all [.token .openAngle,
    .many (all [modifiers, .token .word,
      .optional (.seq (word .extends) (.rule (.type true))),
      .optional (.seq (mark .assign) (.rule (.type true))),
      .either (mark .comma) (ahead (.token .closeAngle))]),
    .token .closeAngle])

/-! ## Members of object types -/

def memberSeparator : Phrase := oneOf [mark .comma, statementEnd]

def typeMember : Phrase :=
  let call := all [.optional (.rule (.typeParameters false true)), .rule (.parameters false),
    .optional (.seq (mark .colon) (.rule (.returnType true)))]
  let named := .seq (.rule .key) (.optional (mark .question))
  let readonly := .optional (.seq (word .readonly)
    (ahead (.either (.rule .key) (mark .bracketOpen))))
  .seq (oneOf [
    call,
    .seq (word .new) call,
    all [readonly, mark .bracketOpen, .token .typeName, .rule .typeMark, mark .bracketClose,
      .optional (.rule .typeMark)],
    all [word .get, .rule .key, mark .parenOpen, mark .parenClose, .optional (.rule .typeMark)],
    all [word .set, .rule .key, .rule (.parameters false)],
    .seq named call,
    all [readonly, named, .optional (.rule .typeMark)]]) memberSeparator

def typeMembers : Phrase :=
  all [mark .braceOpen, .many (.rule .typeMember), mark .braceClose]

/-! ## Declarations -/

def interface : Phrase :=
  all [word .interface, .sameLine, .token .interfaceName,
    .optional (.rule (.typeParameters true false)),
    .optional (.seq (word .extends)
      (separatedBy (mark .comma) (.seq (.rule .entityName) (.optional (.rule .typeArguments))))),
    .rule .typeMembers]

def typeAlias : Phrase :=
  all [word .type, .sameLine, .token .typeName, .optional (.rule (.typeParameters true false)),
    mark .assign, .rule (.type true), statementEnd]

/-- The name of a constant: a word, or a text, also one in brackets. -/
def constantName : Phrase :=
  oneOf [.token .word, .token .string,
    all [mark .bracketOpen, .either (.token .string) (.token (.template .whole false)),
      mark .bracketClose]]

def enumeration : Phrase :=
  all [.optional (.seq (word .const) .sameLine), word .enum, .token .binding, mark .braceOpen,
    members (.seq constantName (.optional (initial true))) .braceClose, mark .braceClose]

/-- A block of module items, also nested ones. -/
def namespaceBody : Phrase :=
  all [mark .braceOpen, .many (.rule .moduleItem), mark .braceClose]

def «namespace» : Phrase :=
  oneOf [
    all [.either (word .namespace) (word .module), .sameLine, .rule .entityName,
      .rule .namespaceBody],
    all [word .module, .sameLine, .token .string, .either (.rule .namespaceBody) statementEnd],
    .seq (word .global) (.rule .namespaceBody)]

/-- What may stand behind `declare`, functions apart. -/
def declared : Phrase :=
  oneOf [.rule .interface, .rule .typeAlias, .rule .enumeration, .rule .namespace,
    .rule .classDeclaration,
    all [oneOf [word .let, word .const, word .var], .rule (.declarators true false),
      statementEnd]]

/-- The declarations that only the typed dialects have. -/
def declaration (d : Dialect) : Phrase :=
  oneOf [
    .rule .interface, .rule .typeAlias, .rule .enumeration, .rule .namespace,
    all [ahead (.seq (word .abstract) .sameLine), .rule .classDeclaration],
    all [word .declare, .sameLine, .either declared (declaredFunction d)]]

end Grammar
end Script
end ProcedureGen
