import ProcedureGen.Script.Grammar.Types

/-!
# Statements and modules

Statements, the declarations that may stand where statements do, and the items of a module.  The
items that a reader of signatures looks for have nodes of their own: an exported function, and a
function that stands there bare.
-/

namespace ProcedureGen
namespace Script
namespace Grammar

open Phrase

def inParens (p : Phrase) : Phrase := all [mark .parenOpen, p, mark .parenClose]

def condition : Phrase := inParens (.rule (.expression true))

def block : Phrase := all [mark .braceOpen, .many (.rule .item), mark .braceClose]

/-! ## Variables -/

/-- Variables with their values.  A pattern needs one; `needsValue` asks one of a name as well. -/
def declarators (d : Dialect) (allowIn needsValue : Bool) : Phrase :=
  let value := initial allowIn
  let maybe (needed : Bool) : Phrase :=
    if needed && d ≠ .ambient then value else .optional value
  separatedBy (mark .comma) (.either
    (all [.token .binding, mark? d .bang, typeMark? d, maybe needsValue])
    (all [.rule .bindingTarget, typeMark? d, maybe true]))

/-- Declarations of variables, with `var` or without. -/
def lexical : Phrase :=
  .either (all [word .let, .rule (.declarators true false), statementEnd])
    (all [word .const, .rule (.declarators true true), statementEnd])

def varStatement : Phrase := all [word .var, .rule (.declarators true false), statementEnd]

/-! ## Loops -/

/-- What a loop over a collection declares or assigns to. -/
def eachBinding (d : Dialect) : Phrase :=
  all [oneOf [word .var, word .let, word .const], .rule .bindingTarget, typeMark? d]

def eachTarget : Phrase := .node .eachTarget (.rule .leftHandSide)

/-- The head of a loop over the values of a collection. -/
def headOf (d : Dialect) : Phrase :=
  all [.either (eachBinding d) eachTarget, word .of, .rule (.assignment true)]

/-- The head of a loop over the names of an object. -/
def headIn (d : Dialect) : Phrase :=
  all [.either (eachBinding d) eachTarget, word .in, .rule (.expression true)]

/-- The head with a start, a test and a step.  The second semicolon may be missing behind a
test. -/
def headSteps : Phrase :=
  all [.optional (oneOf [
      .seq (word .var) (.rule (.declarators false false)),
      .seq (word .let) (.rule (.declarators false false)),
      .seq (word .const) (.rule (.declarators false false)),
      .rule (.expression false)]),
    mark .semicolon,
    .either (mark .semicolon) (.seq (.rule (.expression true)) (.optional (mark .semicolon))),
    .optional (.rule (.expression true))]

def forHead (d : Dialect) : Phrase :=
  oneOf [.seq (.absent (.seq (word .async) (word .of))) (headOf d), headIn d, headSteps]

def loops (d : Dialect) : Phrase :=
  .node .loop (oneOf [
    all [word .for, word .await, inParens (headOf d), .rule .statement],
    all [word .for, inParens (.rule .forHead), .rule .statement],
    all [word .while, condition, .rule .statement],
    all [word .do, .rule .statement, word .while, condition, .optional (mark .semicolon)]])

/-! ## Other statements -/

def jumps : Phrase :=
  let target := .optional (.seq .sameLine (.node .label (.token .identifier)))
  oneOf [
    .node .break (all [word .break, target, statementEnd]),
    .node .continue (all [word .continue, target, statementEnd]),
    .node .return (all [word .return, .optional (.seq .sameLine (.rule (.expression true))),
      statementEnd]),
    all [word .throw, .sameLine, .rule (.expression true), statementEnd]]

def clauses : Phrase :=
  .many (.either
    (all [word .case, .rule (.expression true), mark .colon, .many (.rule .item)])
    (.node .defaultClause (all [word .default, mark .colon, .many (.rule .item)])))

def tryStatement (d : Dialect) : Phrase :=
  let handler := all [word .catch, .optional (inParens (.seq (.rule .bindingTarget)
    (typeMark? d))), .rule .block]
  let finallyBlock := .seq (word .finally) (.rule .block)
  all [word .try, .rule .block,
    .either (.seq handler (.optional finallyBlock)) finallyBlock]

/-- A statement that is a value; declarations and blocks are not read as values. -/
def expressionStatement : Phrase :=
  .node .simpleStatement (all [
    .absent (oneOf [mark .braceOpen, word .function, word .class, asyncFunction]),
    .rule (.expression true), statementEnd])

def statement (d : Dialect) : Phrase :=
  oneOf [.rule .block, varStatement, mark .semicolon,
    all [word .if, condition, .rule .statement,
      .optional (.seq (word .else) (.rule .statement))],
    loops d, jumps,
    .node .switch (all [word .switch, condition, mark .braceOpen, clauses, mark .braceClose]),
    tryStatement d,
    .seq (word .debugger) statementEnd,
    .node .labelled (all [.node .label (.token .identifier), mark .colon, .rule .statement]),
    expressionStatement]

/-- What may stand in a list of statements. -/
def item (d : Dialect) : Phrase :=
  oneOf [only d.hasTypes (.rule .declaration),
    .rule .functionDeclaration, .rule .classDeclaration, lexical, .rule .statement]

/-! ## Modules -/

def exportName : Phrase := .either (.token .word) (.token .string)

/-- A word of the typed dialects that takes only types along. -/
def typeWord? (d : Dialect) (follower : Phrase) : Phrase :=
  optionalIf d.hasTypes (.seq (word .type) (ahead follower))

def attributes : Phrase :=
  .optional (all [.either (word .with) (.seq .sameLine (word .assert)), mark .braceOpen,
    members (all [exportName, mark .colon, .token .string]) .braceClose, mark .braceClose])

def fromModule : Phrase := all [word .from, .token .string, .rule .attributes, statementEnd]

/-- Names in braces, each of which may be marked as a type. -/
def namesInBraces (d : Dialect) (name : Phrase) : Phrase :=
  let asType := all [only d.hasTypes (word .type), name,
    ahead (.either (mark .comma) (mark .braceClose))]
  all [mark .braceOpen, members (.either asType name) .braceClose, mark .braceClose]

/-- The names that an import brings in.  One that is not renamed is a name that may be read, or the
word `default`. -/
def importNames (d : Dialect) : Phrase :=
  let specifier := oneOf [all [exportName, word .as, .token .binding], .token .identifier,
    word .default]
  namesInBraces d specifier

def importClause (d : Dialect) : Phrase :=
  let wholeModule := all [mark .star, word .as, .token .binding]
  oneOf [
    .seq (.token .binding)
      (.optional (.seq (mark .comma) (.either (importNames d) wholeModule))),
    importNames d, wholeModule]

def importItem (d : Dialect) : Phrase :=
  oneOf [
    all [word .import, .token .string, .rule .attributes, statementEnd],
    all [word .import, .rule .importClause, fromModule],
    only d.hasTypes (all [word .import, word .type, .rule .importClause, fromModule]),
    only d.hasTypes (all [word .import, typeWord? d (.seq (.token .binding) (mark .assign)),
      importAlias])]
where
  importAlias : Phrase :=
    all [.token .binding, mark .assign,
      .either (.seq (word .require) (inParens (.token .string))) (.rule .entityName),
      statementEnd]

def exportNames (d : Dialect) (name : Phrase) : Phrase :=
  let specifier := .seq name (.optional (.seq (word .as) exportName))
  namesInBraces d specifier

def exportDefault (d : Dialect) : Phrase :=
  all [word .export, word .default, oneOf [
    defaultFunction d,
    .rule .classExpression,
    only d.hasTypes (.rule .interface),
    .seq (.absent (oneOf [word .function, word .class, asyncFunction]))
      (.seq (.rule (.assignment true)) statementEnd)]]

def exportItem (d : Dialect) : Phrase :=
  oneOf [
    all [word .export, typeWord? d (oneOf [mark .braceOpen, mark .star]), mark .star,
      .optional (.seq (word .as) exportName), fromModule],
    all [word .export, typeWord? d (mark .braceOpen), exportNames d exportName, fromModule],
    all [word .export, typeWord? d (mark .braceOpen), exportNames d (.token .identifier),
      statementEnd],
    exportDefault d,
    .seq (word .export) (oneOf [only d.hasTypes (.rule .declaration), .rule .classDeclaration,
      lexical, varStatement]),
    only d.hasTypes (all [word .export, word .declare, declared]),
    only d.hasTypes (all [word .export, word .import, importItem.importAlias]),
    only d.hasTypes (all [word .export, mark .assign, .rule (.expression true), statementEnd]),
    only d.hasTypes (all [word .export, word .as, word .namespace, .token .identifier,
      statementEnd])]

/-- A function behind `export`; an asynchronous one may have a body in spite of `declare`. -/
def exportedFunction (d : Dialect) : Phrase :=
  .seq (word .export) (.either (.rule .functionDeclaration)
    (only d.hasTypes (.seq (word .declare)
      (.either (declaredFunction d) (.seq (ahead (word .async)) (.rule .functionDeclaration))))))

/-- A function without `export`, with `declare` or without. -/
def bareFunction (d : Dialect) : Phrase :=
  .either (only d.hasTypes (all [word .declare, .sameLine, declaredFunction d]))
    (.rule .functionDeclaration)

def moduleItem (d : Dialect) : Phrase :=
  oneOf [
    .node .exportedFunction (exportedFunction d),
    .node .bareFunction (bareFunction d),
    .node .otherItem (oneOf [exportItem d, importItem d, .rule .item])]

end Grammar
end Script
end ProcedureGen
