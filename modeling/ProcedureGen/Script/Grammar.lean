import ProcedureGen.Script.Grammar.Expression
import ProcedureGen.Script.Grammar.Statement
import ProcedureGen.Script.Grammar.Types

/-!
# The grammar

One phrase for each rule, for each dialect.
-/

namespace ProcedureGen
namespace Script

open Phrase

/-- The members of an object. -/
def Grammar.property (d : Dialect) : Phrase :=
  let key := .rule .key
  oneOf [Grammar.spread, Grammar.getter d key, Grammar.setter d key, Grammar.method d key,
    .node .property (all [key, Grammar.mark .colon, .rule (.assignment true)]),
    .node .shorthandDefault (.seq (.token .identifier) (Grammar.initial true)),
    .node .shorthand (.token .word)]

/-- The scripting language. -/
def grammar (d : Dialect) : Grammar
  | .bindingTarget => Grammar.bindingTarget
  | .arrayPattern => Grammar.arrayPattern
  | .objectPattern => Grammar.objectPattern
  | .bindingElement => Grammar.bindingElement d
  | .parameters defaults => Grammar.parameters d defaults
  | .parameter defaults => Grammar.parameter d defaults
  | .body => Grammar.body d
  | .functionDeclaration => Grammar.functionDeclaration d
  | .functionExpression => Grammar.functionExpression d
  | .classDeclaration => Grammar.classDeclaration d
  | .classExpression => Grammar.classExpression d
  | .classMember => Grammar.classMember d
  | .memberBody => Grammar.memberBody d
  | .key => Grammar.key
  | .expression allowIn => Grammar.expression allowIn
  | .assignment allowIn => Grammar.assignment d allowIn
  | .arrow allowIn => Grammar.arrow d allowIn
  | .operand => Grammar.operand
  | .unary => Grammar.unary d
  | .leftHandSide => Grammar.leftHandSide d
  | .newCallee => Grammar.newCallee d
  | .primary => Grammar.primary
  | .arguments => Grammar.arguments
  | .template tagged => Grammar.template tagged
  | .object => Grammar.object
  | .array => Grammar.array
  | .property => Grammar.property d
  | .item => Grammar.item d
  | .statement => Grammar.statement d
  | .block => Grammar.block
  | .forHead => Grammar.forHead d
  | .declarators allowIn needsValue => Grammar.declarators d allowIn needsValue
  | .moduleItem => Grammar.moduleItem d
  | .importClause => Grammar.importClause d
  | .attributes => Grammar.attributes
  | .type choice => Grammar.type choice
  | .returnType choice => Grammar.returnType choice
  | .unionType choice => Grammar.unionType choice
  | .prefixedType choice => Grammar.prefixedType choice
  | .primaryType => Grammar.primaryType
  | .typeArguments => Grammar.typeArguments
  | .typeParameters variance constant => Grammar.typeParameters variance constant
  | .typeMembers => Grammar.typeMembers
  | .typeMember => Grammar.typeMember
  | .typeMark => Grammar.typeMark
  | .entityName => Grammar.entityName
  | .declaration => Grammar.declaration d
  | .enumeration => Grammar.enumeration
  | .interface => Grammar.interface
  | .typeAlias => Grammar.typeAlias
  | .namespace => Grammar.«namespace»
  | .namespaceBody => Grammar.namespaceBody

end Script
end ProcedureGen
