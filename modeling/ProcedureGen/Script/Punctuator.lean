import ProcedureGen.Script.Character

/-!
# Punctuators

The marks of the scripting language.  `Punctuator.read?` takes the longest mark that a text starts
with, so `>>>=` is one mark and not four.
-/

namespace ProcedureGen
namespace Script

inductive Punctuator where
  | braceOpen | braceClose | parenOpen | parenClose | bracketOpen | bracketClose | dot | ellipsis
  | semicolon | comma | less | greater | lessEqual | greaterEqual | equal | notEqual | identical
  | notIdentical | plus | minus | star | slash | percent | power | increment | decrement
  | shiftLeft | shiftRight | shiftRightUnsigned | ampersand | bar | caret | bang | tilde
  | logicalAnd | logicalOr | coalesce | question | optionalDot | colon | arrow | assign
  | plusAssign | minusAssign | starAssign | slashAssign | percentAssign | powerAssign
  | shiftLeftAssign | shiftRightAssign | shiftRightUnsignedAssign | ampersandAssign | barAssign
  | caretAssign | logicalAndAssign | logicalOrAssign | coalesceAssign
  deriving DecidableEq, Repr

namespace Punctuator

/-- The mark as it is written. -/
def spelling : Punctuator → Text
  | .braceOpen => "\x7b"
  | .braceClose => "\x7d"
  | .parenOpen => "("
  | .parenClose => ")"
  | .bracketOpen => "["
  | .bracketClose => "]"
  | .dot => "."
  | .ellipsis => "..."
  | .semicolon => ";"
  | .comma => ","
  | .less => "<"
  | .greater => ">"
  | .lessEqual => "<="
  | .greaterEqual => ">="
  | .equal => "=="
  | .notEqual => "!="
  | .identical => "==="
  | .notIdentical => "!=="
  | .plus => "+"
  | .minus => "-"
  | .star => "*"
  | .slash => "/"
  | .percent => "%"
  | .power => "**"
  | .increment => "++"
  | .decrement => "--"
  | .shiftLeft => "<<"
  | .shiftRight => ">>"
  | .shiftRightUnsigned => ">>>"
  | .ampersand => "&"
  | .bar => "|"
  | .caret => "^"
  | .bang => "!"
  | .tilde => "~"
  | .logicalAnd => "&&"
  | .logicalOr => "||"
  | .coalesce => "??"
  | .question => "?"
  | .optionalDot => "?."
  | .colon => ":"
  | .arrow => "=>"
  | .assign => "="
  | .plusAssign => "+="
  | .minusAssign => "-="
  | .starAssign => "*="
  | .slashAssign => "/="
  | .percentAssign => "%="
  | .powerAssign => "**="
  | .shiftLeftAssign => "<<="
  | .shiftRightAssign => ">>="
  | .shiftRightUnsignedAssign => ">>>="
  | .ampersandAssign => "&="
  | .barAssign => "|="
  | .caretAssign => "^="
  | .logicalAndAssign => "&&="
  | .logicalOrAssign => "||="
  | .coalesceAssign => "??="

/-- All marks, longer ones first. -/
def all : List Punctuator := [
  .shiftRightUnsignedAssign, .ellipsis, .identical, .notIdentical, .shiftRightUnsigned,
  .powerAssign, .shiftLeftAssign, .shiftRightAssign, .logicalAndAssign, .logicalOrAssign,
  .coalesceAssign, .lessEqual, .greaterEqual, .equal, .notEqual, .power, .increment, .decrement,
  .shiftLeft, .shiftRight, .logicalAnd, .logicalOr, .coalesce, .optionalDot, .arrow, .plusAssign,
  .minusAssign, .starAssign, .slashAssign, .percentAssign, .ampersandAssign, .barAssign,
  .caretAssign, .braceOpen, .braceClose, .parenOpen, .parenClose, .bracketOpen, .bracketClose,
  .dot, .semicolon, .comma, .less, .greater, .plus, .minus, .star, .slash, .percent, .ampersand,
  .bar, .caret, .bang, .tilde, .question, .colon, .assign]

/-- The longest mark at the start of a text, and the rest.  `?.` before a digit is a `?` alone, so
that `a?.5:b` keeps its number. -/
def read? (t : Text) : Option (Punctuator × Text) :=
  let found := all.findSome? (fun p => (Text.dropPrefix? p.spelling t).map (p, ·))
  match found with
  | some (.optionalDot, c :: rest) =>
    if isDigit c then some (.question, '.' :: c :: rest) else some (.optionalDot, c :: rest)
  | other => other

end Punctuator

end Script
end ProcedureGen
