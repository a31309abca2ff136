import ProcedureGen.Text

/-!
# Keywords

The words that the grammar gives a meaning of its own.

* `Keyword.isReserved`: never the name of anything;
* `Keyword.isStrictReserved`: reserved because every script is read as a module;
* all others are ordinary names that mean something in some places only.
-/

namespace ProcedureGen
namespace Script

inductive Keyword where
  | break | case | catch | «class» | const | continue | debugger | default | delete | do | else
  | enum | export | extends | falseWord | finally | for | function | if | import | in | instanceof
  | new | null | return | super | switch | this | throw | trueWord | try | typeof | var | void
  | while | with | implements | interface | let | package | «private» | «protected» | «public»
  | static | yield | await | abstract | accessor | as | assert | asserts | async | declare | eval
  | arguments | from | get | global | infer | is | keyof | «meta» | module | namespace | of | out
  | override | readonly | require | satisfies | set | symbol | target | type | unique
  deriving DecidableEq, Repr

namespace Keyword

/-- The word as it is written. -/
def spelling : Keyword → Text
  | .break => "break"
  | .case => "case"
  | .catch => "catch"
  | .class => "class"
  | .const => "const"
  | .continue => "continue"
  | .debugger => "debugger"
  | .default => "default"
  | .delete => "delete"
  | .do => "do"
  | .else => "else"
  | .enum => "enum"
  | .export => "export"
  | .extends => "extends"
  | .falseWord => "false"
  | .finally => "finally"
  | .for => "for"
  | .function => "function"
  | .if => "if"
  | .import => "import"
  | .in => "in"
  | .instanceof => "instanceof"
  | .new => "new"
  | .null => "null"
  | .return => "return"
  | .super => "super"
  | .switch => "switch"
  | .this => "this"
  | .throw => "throw"
  | .trueWord => "true"
  | .try => "try"
  | .typeof => "typeof"
  | .var => "var"
  | .void => "void"
  | .while => "while"
  | .with => "with"
  | .implements => "implements"
  | .interface => "interface"
  | .let => "let"
  | .package => "package"
  | .private => "private"
  | .protected => "protected"
  | .public => "public"
  | .static => "static"
  | .yield => "yield"
  | .await => "await"
  | .abstract => "abstract"
  | .accessor => "accessor"
  | .as => "as"
  | .assert => "assert"
  | .asserts => "asserts"
  | .async => "async"
  | .declare => "declare"
  | .eval => "eval"
  | .arguments => "arguments"
  | .from => "from"
  | .get => "get"
  | .global => "global"
  | .infer => "infer"
  | .is => "is"
  | .keyof => "keyof"
  | .meta => "meta"
  | .module => "module"
  | .namespace => "namespace"
  | .of => "of"
  | .out => "out"
  | .override => "override"
  | .readonly => "readonly"
  | .require => "require"
  | .satisfies => "satisfies"
  | .set => "set"
  | .symbol => "symbol"
  | .target => "target"
  | .type => "type"
  | .unique => "unique"

def all : List Keyword := [
  .break, .case, .catch, .class, .const, .continue, .debugger, .default, .delete, .do, .else, .enum,
  .export, .extends, .falseWord, .finally, .for, .function, .if, .import, .in, .instanceof, .new,
  .null, .return, .super, .switch, .this, .throw, .trueWord, .try, .typeof, .var, .void, .while,
  .with, .implements, .interface, .let, .package, .private, .protected, .public, .static, .yield,
  .await, .abstract, .accessor, .as, .assert, .asserts, .async, .declare, .eval, .arguments, .from,
  .get, .global, .infer, .is, .keyof, .meta, .module, .namespace, .of, .out, .override, .readonly,
  .require, .satisfies, .set, .symbol, .target, .type, .unique]

/-- The keyword that a word spells. -/
def ofText? (word : Text) : Option Keyword := all.find? (fun k => k.spelling == word)

def isReserved : Keyword → Bool
  | .break | .case | .catch | .class | .const | .continue | .debugger | .default | .delete
  | .do | .else | .enum | .export | .extends | .falseWord | .finally | .for | .function
  | .if | .import | .in | .instanceof | .new | .null | .return | .super | .switch | .this
  | .throw | .trueWord | .try | .typeof | .var | .void | .while | .with => true
  | _ => false

def isStrictReserved : Keyword → Bool
  | .implements | .interface | .let | .package | .private | .protected | .public | .static
  | .yield | .await => true
  | _ => false

/-- The two names that may be read but not bound. -/
def isUnbindable : Keyword → Bool
  | .eval | .arguments => true
  | _ => false

end Keyword

end Script
end ProcedureGen
