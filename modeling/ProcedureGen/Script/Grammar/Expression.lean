import ProcedureGen.Script.Grammar.Basic

/-!
# Expressions

Chains of operators stay flat: one node holds the operands and the operators between them.  What
may be assigned to is read as an expression first; `Tree.isTarget` decides later.
-/

namespace ProcedureGen
namespace Script
namespace Grammar

open Phrase

/-! ## Operators -/

def marks (ps : List Punctuator) : Phrase := oneOf (ps.map mark)

def binaryOperator (allowIn : Bool) : Phrase :=
  oneOf [marks [.power, .star, .slash, .percent, .plus, .minus, .shiftLeft, .shiftRight,
      .shiftRightUnsigned, .less, .greater, .lessEqual, .greaterEqual, .equal, .notEqual,
      .identical, .notIdentical, .ampersand, .caret, .bar, .logicalAnd, .logicalOr, .coalesce],
    word .instanceof, only allowIn (word .in)]

/-- The operators that change a variable in place. -/
def compoundOperator : Phrase :=
  marks [.plusAssign, .minusAssign, .starAssign, .slashAssign, .percentAssign, .powerAssign,
    .shiftLeftAssign, .shiftRightAssign, .shiftRightUnsignedAssign, .ampersandAssign, .barAssign,
    .caretAssign, .logicalAndAssign, .logicalOrAssign, .coalesceAssign]

def unaryOperator : Phrase :=
  oneOf [word .delete, word .void, word .typeof, marks [.plus, .minus, .tilde, .bang]]

/-- Expressions with commas between them. -/
def expression (allowIn : Bool) : Phrase :=
  .suffixed .sequence (.rule (.assignment allowIn))
    (atLeastOne (.seq (mark .comma) (.rule (.assignment allowIn))))

def yieldExpression (allowIn : Bool) : Phrase :=
  let value := .rule (.assignment allowIn)
  .node .yield (.seq (word .yield)
    (.optional (.seq .sameLine (.either (.seq (mark .star) value) value))))

/-- Operands with operators between them; a type may follow `as` and `satisfies`.  An operator behind
the last operand needs one more, also on the next line: a slash is no regular expression there. -/
def binaryChain (d : Dialect) (allowIn : Bool) : Phrase :=
  let step := .seq (binaryOperator allowIn) (.rule .operand)
  let typeStep := all [.sameLine, .either (word .as) (word .satisfies),
    .either (word .const) (.rule (.type true))]
  .notBefore
    (.suffixed .binary (.rule .operand) (atLeastOne (.either step (only d.hasTypes typeStep))))
    (binaryOperator allowIn)

/-- What may be assigned to, with the value that it gets. -/
def assignable (d : Dialect) (allowIn : Bool) : Phrase :=
  let value := .rule (.assignment allowIn)
  .suffixed (.assignment true)
    (.notBefore
      (.suffixed (.assignment false) (binaryChain d allowIn)
        (.node .assigned (.seq compoundOperator value)))
      (mark .slashAssign))
    (.node .assigned (.seq (mark .assign) value))

def conditional (d : Dialect) (allowIn : Bool) : Phrase :=
  .suffixed .conditional (assignable d allowIn)
    (all [mark .question, .rule (.assignment true), mark .colon, .rule (.assignment allowIn)])

def assignment (d : Dialect) (allowIn : Bool) : Phrase :=
  oneOf [.rule (.arrow allowIn), yieldExpression allowIn, conditional d allowIn]

/-- A private name may only ask whether an object has it. -/
def operand : Phrase :=
  .either (.node .privateMember (.seq (.token .privateName) (ahead (word .in)))) (.rule .unary)

def unary (d : Dialect) : Phrase :=
  oneOf [
    .node .unary (.seq unaryOperator (.rule .unary)),
    .node .prefixUpdate (.seq (marks [.increment, .decrement]) (.rule .unary)),
    .node .await (.seq (word .await) (.rule .unary)),
    only d.hasTypes (.node .unary (all [.token .openAngle,
      .either (word .const) (.rule (.type true)), .token .closeAngle, .rule .unary])),
    .suffixed .postfixUpdate (.rule .leftHandSide)
      (.seq .sameLine (marks [.increment, .decrement]))]

/-! ## Chains of members and calls -/

def indexStep : Phrase :=
  .node .index (all [mark .bracketOpen, .rule (.expression true), mark .bracketClose])

def callStep : Phrase := .node .call (.rule .arguments)

/-- The steps that may stand behind `new` as well. -/
def memberStep (d : Dialect) : Phrase :=
  oneOf [
    .node .member (.seq (mark .dot) (.token .word)),
    .node .privateMember (.seq (mark .dot) (.token .privateName)),
    indexStep,
    .node .tagged (.rule (.template true)),
    only d.hasTypes (.node .nonNull (.seq .sameLine (mark .bang)))]

def chainStep (d : Dialect) : Phrase :=
  oneOf [memberStep d, callStep,
    .node .optionalStep (.seq (mark .optionalDot)
      (oneOf [.token .word, .token .privateName, indexStep, callStep])),
    only d.hasTypes (.seq (.rule .typeArguments)
      (.either callStep (.node .tagged (.rule (.template true)))))]

def superBase : Phrase :=
  .either (.node .superCall (.seq (word .super) (.rule .arguments)))
    (.node .superMember (.seq (word .super)
      (.either (.seq (mark .dot) (.token .word)) indexStep)))

/-- An argument or element that spreads a collection. -/
def spread : Phrase := .node .spread (.seq (mark .ellipsis) (.rule (.assignment true)))

def argument : Phrase := .either spread (.rule (.assignment true))

/-- Loads a module.  The typed dialects take options behind its name. -/
def importBase (d : Dialect) : Phrase :=
  .either (.node .importMeta (all [word .import, mark .dot, word .meta]))
    (.node .importCall (all [word .import, mark .parenOpen, argument,
      optionalIf d.hasTypes (.seq (mark .comma) (.optional (.seq argument
        (.optional (mark .comma))))),
      mark .parenClose]))

/-- A constructor call.  Without arguments no optional step may follow. -/
def newExpression (d : Dialect) : Phrase :=
  .either (.node .newTarget (all [word .new, mark .dot, word .target]))
    (.node .new (all [word .new, .rule .newCallee, optionalIf d.hasTypes (.rule .typeArguments),
      .either (.rule .arguments) (.absent (mark .optionalDot))]))

def newCallee (d : Dialect) : Phrase :=
  .suffixed .chain (oneOf [newExpression d, superBase, importBase d, .rule .primary])
    (atLeastOne (memberStep d))

/-- What begins a step of a chain and an operand alike. -/
def stepOpening : Phrase :=
  oneOf [mark .bracketOpen, mark .parenOpen, .token (.template .whole true),
    .token (.template .head true)]

/-- An operand with its members and calls.  Brackets and templates behind it belong to it, also on
the next line. -/
def leftHandSide (d : Dialect) : Phrase :=
  .notBefore
    (.suffixed .chain (oneOf [newExpression d, superBase, importBase d, .rule .primary])
      (atLeastOne (chainStep d)))
    stepOpening

def arguments : Phrase :=
  all [mark .parenOpen,
    .optional (.seq (separatedBy (mark .comma) argument) (.optional (mark .comma))),
    mark .parenClose]

/-! ## Primary expressions -/

def literal : Phrase :=
  .node .literal (oneOf [.token .number, .token .string, word .null, word .trueWord,
    word .falseWord, .token .regex])

def paren : Phrase :=
  .node .paren (all [mark .parenOpen, .rule (.expression true), .optional (mark .comma),
    mark .parenClose])

def primary : Phrase :=
  oneOf [.node .this (word .this), .rule .functionExpression, .rule .classExpression,
    .node .identifier (.token .identifier), literal, .rule (.template false), .rule .array,
    .rule .object, paren]

def array : Phrase :=
  .node .array (all [mark .bracketOpen,
    .many (.either (mark .comma)
      (.seq argument (.either (mark .comma) (ahead (mark .bracketClose))))),
    mark .bracketClose])

def object : Phrase :=
  .node .object (all [mark .braceOpen, members (.rule .property) .braceClose, mark .braceClose])

/-- A template; one with a tag may hold escapes without a meaning. -/
def template (tagged : Bool) : Phrase :=
  .node .template (.either (.token (.template .whole tagged))
    (all [.token (.template .head tagged), .rule (.expression true),
      .many (.seq (.token (.templateRest .middle tagged)) (.rule (.expression true))),
      .token (.templateRest .tail tagged)]))

end Grammar
end Script
end ProcedureGen
