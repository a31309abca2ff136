import ProcedureGen.Script.Grammar.Basic

/-!
# Patterns, parameters and functions

What a declaration binds, and what stands between the parentheses of a function.
-/

namespace ProcedureGen
namespace Script
namespace Grammar

open Phrase

/-! ## Patterns -/

def bindingTarget : Phrase :=
  oneOf [.token .binding, .rule .arrayPattern, .rule .objectPattern]

/-- A target with a value of its own, which declaration files do not give. -/
def bindingElement (d : Dialect) : Phrase :=
  .seq (.rule .bindingTarget) (optionalIf (d ≠ .ambient) (initial true))

/-- Elements and holes; a rest element takes no comma behind it. -/
def arrayPattern : Phrase :=
  all [mark .bracketOpen,
    .many (.either (mark .comma)
      (.seq (.rule .bindingElement) (.either (mark .comma) (ahead (mark .bracketClose))))),
    .optional (all [mark .ellipsis, .rule .bindingTarget]),
    mark .bracketClose]

def objectPattern : Phrase :=
  all [mark .braceOpen,
    members (.either (all [.rule .key, mark .colon, .rule .bindingElement])
      (.seq (.token .binding) (.optional (initial true)))) .braceClose,
    .optional (.seq (mark .ellipsis) (.token .binding)),
    mark .braceClose]

/-- The name of a member: a word, a literal, or an expression in brackets. -/
def key : Phrase :=
  .node .key (oneOf [.token .word, .token .string, .token .number,
    all [mark .bracketOpen, .rule (.assignment true), mark .bracketClose]])

/-! ## Parameters -/

/-- Words that make a constructor's parameter a field. -/
def parameterModifiers (d : Dialect) : Phrase :=
  if d = .typed then
    .many (.seq (oneOf [word .public, word .private, word .protected, word .readonly,
      word .override]) (ahead (oneOf [.token .binding, mark .braceOpen, mark .bracketOpen])))
  else .empty

/-- One parameter.  A plain one is a name without a value. -/
def parameter (d : Dialect) (defaults : Bool) : Phrase :=
  oneOf [
    only d.hasTypes (.node .plainParameter (all [word .this, mark? d .question, typeMark? d])),
    .node .plainParameter (all [only' defaults (parameterModifiers d), .token .binding,
      mark? d .question, typeMark? d, .absent (mark .assign)]),
    .node .fancyParameter (all [only' defaults (parameterModifiers d), .rule .bindingTarget,
      mark? d .question, typeMark? d, only' defaults (.optional (initial true))])]
where
  /-- A part that may be empty anyway, left out unless the condition holds. -/
  only' (condition : Bool) (p : Phrase) : Phrase := if condition then p else .empty

def restParameter (d : Dialect) : Phrase :=
  .node .fancyParameter (all [mark .ellipsis, .rule .bindingTarget, typeMark? d])

/-- A parameter list in parentheses.  The list itself leaves out a comma at its end, and a rest
parameter takes none. -/
def parameters (d : Dialect) (defaults : Bool) : Phrase :=
  let last := .seq (restParameter d) (ahead (mark .parenClose))
  .node .parameters (all [mark .parenOpen,
    oneOf [
      .node .parameterList last,
      .seq (.node .parameterList (.seq (separatedBy (mark .comma) (.rule (.parameter defaults)))
        (.optional (.seq (mark .comma) last)))) (.optional (mark .comma)),
      .empty],
    mark .parenClose])

/-- A body; declaration files have none. -/
def body (d : Dialect) : Phrase :=
  only (d ≠ .ambient)
    (.node .body (all [mark .braceOpen, .many (.rule .item), mark .braceClose]))

/-! ## Functions -/

/-- Parameters, result type and body. -/
def implementation (d : Dialect) : Phrase :=
  all [typeParameters? d, .rule (.parameters true), returnType? d, .rule .body]

/-- Parameters and result type alone. -/
def signature (d : Dialect) : Phrase :=
  only d.hasTypes (all [typeParameters? d, .rule (.parameters false), returnType? d,
    .absent (mark .braceOpen), statementEnd])

def asyncFunction : Phrase := all [word .async, .sameLine, word .function]

/-- Reads the four kinds of functions, given what follows the introducing words of each. -/
def functionKinds (rest : Phrase) : Phrase :=
  oneOf [
    .node (.function true true) (all [asyncFunction, mark .star, rest]),
    .node (.function true false) (all [asyncFunction, rest]),
    .node (.function false true) (all [word .function, mark .star, rest]),
    .node (.function false false) (all [word .function, rest])]

/-- A function behind `declare`, which is not asynchronous and has no body. -/
def declaredFunction (d : Dialect) : Phrase :=
  let rest := .seq (.node .functionName (.token .binding)) (signature d)
  .either (.node (.function false true) (all [word .function, mark .star, rest]))
    (.node (.function false false) (all [word .function, rest]))

/-- A named function, whose body only the typed dialects may leave out. -/
def functionDeclaration (d : Dialect) : Phrase :=
  functionKinds (.seq (.node .functionName (.token .binding))
    (.either (implementation d) (signature d)))

def functionExpression (d : Dialect) : Phrase :=
  functionKinds (.seq (.optional (.token .binding)) (implementation d))

/-- A function behind `export default`, whose name may be missing. -/
def defaultFunction (d : Dialect) : Phrase :=
  functionKinds (.seq (.optional (.token .binding)) (.either (implementation d) (signature d)))

/-- The body of an arrow function: a block, or a value that starts with no brace. -/
def arrowBody (allowIn : Bool) : Phrase :=
  .either (.rule .body)
    (.seq (.absent (mark .braceOpen)) (.node .conciseBody (.rule (.assignment allowIn))))

/-- Arrow functions.  No line end stands in front of the arrow, except behind a single parameter
of an asynchronous one. -/
def arrow (d : Dialect) (allowIn : Bool) : Phrase :=
  let list := all [typeParameters? d, .rule (.parameters true), returnType? d, .sameLine]
  let single := .node .parameters (.token .binding)
  let tail := .seq (mark .arrow) (arrowBody allowIn)
  oneOf [
    .node (.arrow true) (all [word .async, .sameLine, list, tail]),
    .node (.arrow true) (all [word .async, .sameLine, single, tail]),
    .node (.arrow false) (all [list, tail]),
    .node (.arrow false) (all [single, .sameLine, tail])]

/-! ## Members -/

/-- A getter has no parameter. -/
def getter (d : Dialect) (key : Phrase) : Phrase :=
  .node .getter (all [word .get, key, .node .parameters (.seq (mark .parenOpen)
    (mark .parenClose)), returnType? d, memberEnd d])
where
  memberEnd (d : Dialect) : Phrase :=
    .either (.rule .body) (only d.hasTypes statementEnd)

/-- A setter has one. -/
def setter (d : Dialect) (key : Phrase) : Phrase :=
  .node .setter (all [word .set, key, .node .parameters (all [mark .parenOpen,
    .node .parameterList (.rule (.parameter true)), .optional (mark .comma), mark .parenClose]),
    returnType? d, getter.memberEnd d])

/-- A method of a class or of an object. -/
def method (d : Dialect) (key : Phrase) : Phrase :=
  let rest := all [key, mark? d .question, typeParameters? d, .rule (.parameters true),
    returnType? d, getter.memberEnd d]
  let asyncWord := .seq (word .async) .sameLine
  oneOf [
    .node (.method true true) (all [asyncWord, mark .star, rest]),
    .node (.method true false) (all [asyncWord, rest]),
    .node (.method false true) (.seq (mark .star) rest),
    .node (.method false false) rest]

/-! ## Classes -/

/-- Words in front of a class member of the typed dialects. -/
def memberModifiers (d : Dialect) : Phrase :=
  if d.hasTypes then
    .many (.seq (oneOf [word .public, word .private, word .protected, word .readonly,
        word .override, word .abstract, word .declare])
      (ahead (oneOf [.token .word, .token .string, .token .number, .token .privateName,
        mark .bracketOpen, mark .star])))
  else .empty

/-- A field, with its value. -/
def field (d : Dialect) (key : Phrase) : Phrase :=
  .node .field (all [key, optionalIf d.hasTypes (.either (mark .question) (mark .bang)),
    typeMark? d,
    .optional (.node .initializer (.seq (mark .assign) (.rule (.assignment true)))),
    statementEnd])

def indexSignature (d : Dialect) : Phrase :=
  only d.hasTypes (all [mark .bracketOpen, .token .typeName, .rule .typeMark,
    mark .bracketClose, .optional (.rule .typeMark), statementEnd])

/-- A member behind `static`.  A field named `get` or `set` has no name behind it, not even on the
next line. -/
def memberBody (d : Dialect) : Phrase :=
  let name := .either (.rule .key) (.node .key (.token .privateName))
  .seq (memberModifiers d)
    (oneOf [indexSignature d, getter d name, setter d name,
      only d.hasTypes (.seq (word .accessor) (field d name)), method d name,
      .seq (.absent (.seq (.either (word .get) (word .set)) name)) (field d name)])

def classMember (d : Dialect) : Phrase :=
  oneOf [mark .semicolon,
    .node .staticBlock (all [word .static, mark .braceOpen, .many (.rule .item),
      mark .braceClose]),
    .node .staticMember (all [memberModifiers d, word .static, .rule .memberBody]),
    .node .instanceMember (.rule .memberBody)]

/-- A class behind its name. -/
def classTail (d : Dialect) : Phrase :=
  all [optionalIf d.hasTypes (.rule (.typeParameters true true)),
    .optional (all [word .extends, .rule .leftHandSide,
      optionalIf d.hasTypes (.rule .typeArguments)]),
    optionalIf d.hasTypes (.seq (word .implements)
      (separatedBy (mark .comma) (.seq (.rule .entityName) (.optional (.rule .typeArguments))))),
    mark .braceOpen, .many (.rule .classMember), mark .braceClose]

def className : Phrase := .seq (.absent (word .implements)) (.token .binding)

def abstract? (d : Dialect) : Phrase := optionalIf d.hasTypes (.seq (word .abstract) .sameLine)

def classDeclaration (d : Dialect) : Phrase :=
  .node .classDefinition (all [abstract? d, word .class, className, classTail d])

def classExpression (d : Dialect) : Phrase :=
  .node .classDefinition (all [abstract? d, word .class, .optional className, classTail d])

end Grammar
end Script
end ProcedureGen
