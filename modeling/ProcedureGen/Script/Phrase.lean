import ProcedureGen.Script.Tree

/-!
# Phrases

A grammar is data: it gives each rule a phrase, and a phrase is read off a text by ordered choice
without going back into an alternative that has succeeded.

* `Terminal.accept`: one token;
* `Phrase.read`: a phrase, given how to read the rules in it;
* `Grammar.read`: a rule of a grammar, with a bound on the depth of rules in rules.

The token that comes next depends on the place: a slash opens a regular expression only where an
operand may stand, and a closing brace continues a template only inside one.  So tokens are scanned
one at a time, and the terminals that know better scan the next one again.
-/

namespace ProcedureGen
namespace Script

/-- The three forms of the language: plain scripts, scripts with type annotations, and declaration
files, which hold types and signatures without bodies. -/
inductive Dialect where
  | plain | typed | ambient
  deriving DecidableEq, Repr

namespace Dialect

def hasTypes : Dialect → Bool
  | .plain => false
  | _ => true

/-- Whether a keyword may name a variable or a function. -/
def admits (d : Dialect) (k : Keyword) : Bool :=
  if k.isReserved then false
  else if k.isStrictReserved then d = .ambient && k = .await
  else true

end Dialect

/-- The next token of a text and what stands behind it. -/
structure Cursor where
  token : Token
  rest : Text
  deriving DecidableEq, Repr

namespace Cursor

/-- The cursor at the start of a text. -/
def ofText (t : Text) : Cursor :=
  let (token, rest) := Token.scan t
  ⟨token, rest⟩

/-- Takes a token, which may differ from the next one as scanned, and the text behind it. -/
def take (token : Token) (rest : Text) : Tree × Cursor := (.leaf token, ofText rest)

/-- Takes the next token as it was scanned. -/
def advance (c : Cursor) : Tree × Cursor := take c.token c.rest

end Cursor

/-- A class of tokens. -/
inductive Terminal where
  | keyword (word : Keyword)
  | punctuator (mark : Punctuator)
  /-- A name that may be read. -/
  | identifier
  /-- A name that may be bound. -/
  | binding
  /-- A name that may stand for a type. -/
  | typeName
  /-- A name for a type that is none of the basic ones. -/
  | interfaceName
  /-- Any word, also a reserved one. -/
  | word
  | privateName | number | string
  /-- A template piece; `tagged` ones may hold any escape. -/
  | template (part : TemplatePart) (tagged : Bool)
  /-- A template piece behind an inserted expression. -/
  | templateRest (part : TemplatePart) (tagged : Bool)
  | regex
  /-- A `<`, also the first of a longer mark. -/
  | openAngle
  /-- A `>`, also the first of a longer mark. -/
  | closeAngle
  | endOfText
  deriving DecidableEq, Repr

/-- The names of the types that are not declared. -/
def basicTypes : List Text :=
  ["any", "bigint", "boolean", "intrinsic", "never", "number", "object", "string", "symbol",
    "unknown"].map String.toList

namespace Terminal

/-- Whether a token as scanned belongs to the class. -/
def matchesKind (d : Dialect) : Terminal → Kind → Bool
  | .keyword k, .keyword k' => k = k'
  | .punctuator p, .punctuator p' => p = p'
  | .identifier, .name _ => true
  | .identifier, .keyword k => d.admits k
  | .binding, .name _ => true
  | .binding, .keyword k => d.admits k && !k.isUnbindable
  | .typeName, .name _ => true
  | .typeName, .keyword k => !k.isReserved && k ≠ .infer
  | .interfaceName, .name w => w ∉ basicTypes
  | .interfaceName, .keyword k => !k.isReserved && k ≠ .infer && k.spelling ∉ basicTypes
  | .word, .name _ => true
  | .word, .keyword _ => true
  | .word, .escapedKeyword _ => true
  | .privateName, .privateName _ => true
  | .number, .number => true
  | .string, .string => true
  | .template part tagged, .template part' sound => part = part' && (tagged || sound)
  | .endOfText, .endOfText => true
  | _, _ => false

/-- Cuts the first character off a mark. -/
def cut (p : Punctuator) (c : Cursor) : Tree × Cursor :=
  Cursor.take { c.token with kind := .punctuator p, raw := p.spelling }
    (c.token.raw.drop p.spelling.length ++ c.rest)

/-- Takes one token of the class. -/
def accept (d : Dialect) : Terminal → Cursor → Option (Tree × Cursor)
  | .regex, c => (Token.scanRegex c.token c.rest).map fun (t, rest) => Cursor.take t rest
  | .templateRest part tagged, c =>
    match Token.scanTemplateRest c.token c.rest with
    | some (t, rest) =>
      if matchesKind d (.template part tagged) t.kind then some (Cursor.take t rest) else none
    | none => none
  | .openAngle, c =>
    match c.token.kind with
    | .punctuator .less | .punctuator .shiftLeft => some (cut .less c)
    | _ => none
  | .closeAngle, c =>
    match c.token.kind with
    | .punctuator .greater | .punctuator .greaterEqual | .punctuator .shiftRight
    | .punctuator .shiftRightUnsigned | .punctuator .shiftRightAssign
    | .punctuator .shiftRightUnsignedAssign => some (cut .greater c)
    | _ => none
  | t, c => if matchesKind d t c.token.kind then some c.advance else none

end Terminal

/-- The rules of the grammar, by name.  Where a flag `allowIn` stands, the operator `in` may occur
in the expression itself; with `choice` unset, a type does not go on with `extends`; `variance`
and `constant` say which words may stand in front of a type parameter. -/
inductive Rule where
  -- names and patterns
  | bindingTarget | arrayPattern | objectPattern | bindingElement
  -- functions
  | parameters (defaults : Bool) | parameter (defaults : Bool) | body | functionDeclaration
  | functionExpression | classDeclaration | classExpression | classMember | memberBody | key
  -- expressions
  | expression (allowIn : Bool) | assignment (allowIn : Bool) | arrow (allowIn : Bool)
  | operand | unary | leftHandSide | newCallee | primary | arguments | template (tagged : Bool)
  | object | array | property
  -- statements
  | item | statement | block | forHead | declarators (allowIn needsValue : Bool)
  | moduleItem | importClause | attributes
  -- types
  | type (choice : Bool) | returnType (choice : Bool) | unionType (choice : Bool)
  | prefixedType (choice : Bool) | primaryType | typeArguments
  | typeParameters (variance constant : Bool)
  | typeMembers | typeMember | typeMark | entityName
  | declaration | enumeration | interface | typeAlias | «namespace» | namespaceBody
  deriving DecidableEq, Repr

/-- What a rule consists of. -/
inductive Phrase where
  | empty
  | token (t : Terminal)
  /-- Nothing, where the next token stands on the line of the one before. -/
  | sameLine
  | seq (first second : Phrase)
  | either (first second : Phrase)
  | optional (p : Phrase)
  | many (p : Phrase)
  /-- Nothing, where the phrase cannot be read. -/
  | absent (p : Phrase)
  /-- The first phrase, where the second cannot be read behind it. -/
  | notBefore (p next : Phrase)
  | node (kind : Node) (p : Phrase)
  /-- The first phrase; where the second follows, both together under a node. -/
  | suffixed (kind : Node) (p suffix : Phrase)
  | rule (r : Rule)
  deriving DecidableEq, Repr

/-- What reading gives: a tree and the cursor behind it. -/
abbrev Reading := Option (Tree × Cursor)

namespace Phrase

/-- Reads as often as possible, at most `bound` times. -/
def readMany (readOne : Cursor → Reading) : (bound : Nat) → Tree → Cursor → Tree × Cursor
  | 0, done, c => (done, c)
  | bound + 1, done, c =>
    match readOne c with
    | none => (done, c)
    | some (t, c') => readMany readOne bound (.cat done t) c'

/-- Reads a phrase, given how to read rules and how often a repetition may go on. -/
def read (d : Dialect) (bound : Nat) (readRule : Rule → Cursor → Reading) :
    Phrase → Cursor → Reading
  | .empty, c => some (.empty, c)
  | .token t, c => t.accept d c
  | .sameLine, c => if c.token.onNewLine then none else some (.empty, c)
  | .seq p q, c =>
    match p.read d bound readRule c with
    | none => none
    | some (t, c') =>
      match q.read d bound readRule c' with
      | none => none
      | some (u, c'') => some (.cat t u, c'')
  | .either p q, c =>
    match p.read d bound readRule c with
    | some r => some r
    | none => q.read d bound readRule c
  | .optional p, c =>
    match p.read d bound readRule c with
    | some r => some r
    | none => some (.empty, c)
  | .many p, c => some (readMany (fun c' => p.read d bound readRule c') bound .empty c)
  | .absent p, c =>
    match p.read d bound readRule c with
    | some _ => none
    | none => some (.empty, c)
  | .notBefore p q, c =>
    match p.read d bound readRule c with
    | none => none
    | some (t, c') =>
      match q.read d bound readRule c' with
      | some _ => none
      | none => some (t, c')
  | .node k p, c =>
    match p.read d bound readRule c with
    | some (t, c') => some (.node k t, c')
    | none => none
  | .suffixed k p q, c =>
    match p.read d bound readRule c with
    | none => none
    | some (t, c') =>
      match q.read d bound readRule c' with
      | none => some (t, c')
      | some (u, c'') => some (.node k (.cat t u), c'')
  | .rule r, c => readRule r c

/-! ## Writing phrases -/

/-- Phrases one after another. -/
def all : List Phrase → Phrase
  | [] => .empty
  | [p] => p
  | p :: rest => .seq p (all rest)

/-- The first of the phrases that can be read. -/
def oneOf : List Phrase → Phrase
  | [] => .absent .empty
  | [p] => p
  | p :: rest => .either p (oneOf rest)

/-- Nothing, where the phrase can be read. -/
def ahead (p : Phrase) : Phrase := .absent (.absent p)

def atLeastOne (p : Phrase) : Phrase := .seq p (.many p)

/-- Phrases with a separator between neighbours, at least one. -/
def separatedBy (separator p : Phrase) : Phrase := .seq p (.many (.seq separator p))

/-- A phrase of some dialects only. -/
def only (condition : Bool) (p : Phrase) : Phrase := if condition then p else .absent .empty

/-- A part that only some dialects have, and that may be left out there. -/
def optionalIf (condition : Bool) (p : Phrase) : Phrase := if condition then .optional p else .empty

end Phrase

/-- A grammar gives each rule its phrase. -/
abbrev Grammar := Rule → Phrase

namespace Grammar

/-- Reads a rule; `depth` bounds how deep rules stand in rules. -/
def read (g : Grammar) (d : Dialect) : (depth : Nat) → Rule → Cursor → Reading
  | 0, _, _ => none
  | depth + 1, r, c => (g r).read d depth (g.read d depth) c

end Grammar

end Script
end ProcedureGen
