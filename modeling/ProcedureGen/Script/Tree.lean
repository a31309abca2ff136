import ProcedureGen.Script.Token

/-!
# Syntax trees

A tree keeps every token of the script, so its source text can be read off it again.

* `Node`: what a subtree is;
* `Tree.source`: the text of a tree, with the gap in front of its first token;
* `Tree.text`: the same without that gap;
* `Tree.child?`, `Tree.children`: the subtrees directly below a node.
-/

namespace ProcedureGen
namespace Script

/-- What a subtree of a script is. -/
inductive Node where
  -- functions
  | function (isAsync isGenerator : Bool)
  | method (isAsync isGenerator : Bool)
  | arrow (isAsync : Bool)
  | getter | setter | functionName | parameters | parameterList | plainParameter | fancyParameter
  | body | conciseBody | returnType
  -- modules
  | exportedFunction | bareFunction | otherItem
  -- statements
  | labelled | label | loop | eachTarget | switch | defaultClause | break | continue | return
  | simpleStatement
  -- classes
  | classDefinition | instanceMember | staticMember | field | initializer | staticBlock | key
  -- expressions
  | identifier | literal | this | paren | array | object | property | shorthand | shorthandDefault
  | initial | spread | template | sequence | assignment (isPlain : Bool) | assigned | conditional
  | binary | unary | prefixUpdate | postfixUpdate | await | yield | chain | member | privateMember
  | index | call | tagged | optionalStep | nonNull | new | newTarget | importMeta | importCall
  | superMember | superCall
  -- types
  | typeMark | typeParameters | barredUnion | union | typeChoice
  deriving DecidableEq, Repr

/-- A syntax tree over tokens.  Sequences are pairs, so that a tree is a plain binary structure. -/
inductive Tree where
  | empty
  | leaf (token : Token)
  | cat (left right : Tree)
  | node (kind : Node) (content : Tree)
  deriving DecidableEq, Repr

namespace Tree

/-- The tokens of a tree, in order, in front of others. -/
def tokensThen : Tree → List Token → List Token
  | .empty, rest => rest
  | .leaf t, rest => t :: rest
  | .cat a b, rest => a.tokensThen (b.tokensThen rest)
  | .node _ a, rest => a.tokensThen rest

def tokens (t : Tree) : List Token := t.tokensThen []

/-- The source of a list of tokens, gaps included. -/
def sourceOf (tokens : List Token) : Text := tokens.flatMap Token.source

/-- The source of a list of tokens without the gap in front of the first. -/
def textOf : List Token → Text
  | [] => []
  | t :: rest => t.raw ++ sourceOf rest

def source (t : Tree) : Text := sourceOf t.tokens

/-- The text that a tree covers, from its first token through its last. -/
def text (t : Tree) : Text := textOf t.tokens

/-- The subtrees of a sequence, in order, in front of others. -/
def childrenThen : Tree → List Tree → List Tree
  | .empty, rest => rest
  | .cat a b, rest => a.childrenThen (b.childrenThen rest)
  | t, rest => t :: rest

/-- The nodes and leaves directly below a node with this content. -/
def children (t : Tree) : List Tree := t.childrenThen []

/-- The content of the first node of a kind in a sequence. -/
def child? (kind : Node) : Tree → Option Tree
  | .cat a b =>
    match a.child? kind with
    | some t => some t
    | none => b.child? kind
  | .node k t => if k = kind then some t else none
  | _ => none

/-- The first token of a tree. -/
def firstToken? : Tree → Option Token
  | .empty => none
  | .leaf t => some t
  | .cat a b =>
    match a.firstToken? with
    | some t => some t
    | none => b.firstToken?
  | .node _ a => a.firstToken?

def isNode (kind : Node) : Tree → Bool
  | .node k _ => k = kind
  | _ => false

/-- Whether a leaf holds a punctuator. -/
def isMark (p : Punctuator) : Tree → Bool
  | .leaf t => t.kind = .punctuator p
  | _ => false

end Tree

end Script
end ProcedureGen
