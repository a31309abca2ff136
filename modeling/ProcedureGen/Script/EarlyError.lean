import ProcedureGen.Script.Phrase

/-!
# Early errors

What the grammar alone does not rule out: jumps without a target, `await` outside an asynchronous
function, assignments to what is no variable, and the like.

* `Tree.isTarget`, `Tree.isSimpleTarget`: what may be assigned to;
* `Context`: what the surroundings of a subtree permit;
* `Tree.isSound`: a tree without early errors.

Names are not resolved: a second declaration of a name is no error here.
-/

namespace ProcedureGen
namespace Script

/-! ## Assignment targets -/

namespace Tree

/-- A chain of members that ends in a member and asks nowhere whether there is one. -/
def endsInMember (steps : List Tree) : Bool :=
  let isMember := steps.getLast?.any fun s =>
    s.isNode .member || s.isNode .privateMember || s.isNode .index || s.isNode .nonNull
  isMember && !steps.any (isNode .optionalStep)

/-- A variable or a member, also in parentheses. -/
def isSimpleTarget : Tree → Bool
  | .node .identifier (.leaf t) => t.kind ≠ .keyword .eval && t.kind ≠ .keyword .arguments
  | .node .chain (.cat _ steps) => endsInMember steps.children
  | .node .superMember _ => true
  | .node .paren (.cat _ (.cat e (.cat .empty _))) => e.isSimpleTarget
  | _ => false

/-- Whether nothing but the closing mark follows a rest element. -/
def restIsLast : List Tree → Bool
  | .node .spread _ :: rest => rest.length == 1
  | _ :: rest => restIsLast rest
  | [] => true

/-- Whether a word may name a variable. -/
def isName : Tree → Bool
  | .leaf t => Terminal.matchesKind .plain .identifier t.kind
  | _ => false

/-- A simple target, or a list or object of targets.  Inside, a target may have a value of its own
and the last may take what is left. -/
def isTarget : Tree → Bool
  | .empty => true
  | .leaf _ => true
  | .cat a b => a.isTarget && b.isTarget
  | .node .array t => t.isTarget && restIsLast t.children
  | .node .object t => t.isTarget && restIsLast t.children
  | .node .property (.cat _ (.cat _ value)) => value.isTarget
  | .node (.assignment true) (.cat target _) => target.isTarget
  | .node .spread (.cat _ (.node (.assignment _) _)) => false
  | .node .spread (.cat _ target) => target.isTarget
  | .node .shorthand t => t.isName
  | .node .shorthandDefault _ => true
  | t => t.isSimpleTarget

/-! ## Other shapes -/

/-- The name that a key node spells, private names with their mark. -/
def keyName? (t : Tree) : Option Text :=
  match t.child? .key with
  | some (.leaf token) =>
    match token.kind with
    | .string => some (token.raw.drop 1).dropLast
    | .privateName w => some ('#' :: w)
    | _ => token.word?
  | _ => none

/-- The label below a node. -/
def labelName? (t : Tree) : Option Text :=
  match t.child? .label with
  | some (.leaf token) => token.word?
  | _ => none

/-- Whether a labelled statement is a loop, also under further labels. -/
def labelsLoop : Tree → Bool
  | .node .loop _ => true
  | .node .labelled (.cat _ (.cat _ body)) => body.labelsLoop
  | _ => false

/-- The operand that parentheses enclose. -/
def withoutParens : Tree → Tree
  | .node .paren (.cat _ (.cat e _)) => e.withoutParens
  | t => t

/-- Whether a step of a chain leads to a private member. -/
def isPrivateStep (t : Tree) : Bool :=
  match t with
  | .node .privateMember _ => true
  | .node .optionalStep (.cat _ (.leaf token)) =>
    match token.kind with
    | .privateName _ => true
    | _ => false
  | _ => false

/-- Neither a variable nor a private member may be deleted. -/
def isDeletable (t : Tree) : Bool :=
  match t.withoutParens with
  | .node .identifier _ => false
  | .node .chain (.cat _ steps) => !steps.children.getLast?.any isPrivateStep
  | _ => true

/-- Whether `**` stands right behind an operand with an operator of its own. -/
def powerOfUnary : List Tree → Bool
  | a :: b :: rest =>
    ((a.isNode .unary || a.isNode .await) && b.isMark .power) || powerOfUnary (b :: rest)
  | _ => false

/-- A chain of binary operators mixes `??` with no logical operator. -/
def isSoundChain (parts : List Tree) : Bool :=
  let mixes := parts.any (isMark .coalesce) &&
    parts.any fun t => t.isMark .logicalAnd || t.isMark .logicalOr
  !mixes && !powerOfUnary parts

/-- The text of a statement that is a string alone. -/
def directive? : Tree → Option Text
  | .node .simpleStatement t =>
    match t.children with
    | .node .literal (.leaf token) :: _ => if token.kind = .string then some token.raw else none
    | _ => none
  | _ => none

/-- Whether a function's body asks for strict rules in its own first lines. -/
def isStrict (body : Tree) : Bool :=
  (body.children.drop 1).takeWhile (fun t => t.directive?.isSome) |>.any fun t =>
    (t.directive?.getD []).drop 1 |>.dropLast |> (· == "use strict".toList)

/-- Whether a function has parameters with patterns, values or a rest. -/
def hasFancyParameters (t : Tree) : Bool :=
  match t.child? .parameters with
  | some ps =>
    match ps.child? .parameterList with
    | some list => list.children.any (isNode .fancyParameter)
    | none => false
  | none => false

/-- A function that asks for strict rules has plain parameters. -/
def isSoundFunction (t : Tree) : Bool :=
  !(hasFancyParameters t && (t.child? .body).any isStrict)

/-! ## Classes -/

def memberName? (kind : Node) (member : Tree) : Option Text :=
  (member.child? kind).bind keyName?

/-- A constructor with a body. -/
def isConstructor (member : Tree) : Bool :=
  memberName? (.method false false) member == some "constructor" &&
    ((member.child? (.method false false)).bind (child? .body)).isSome

/-- A constructor has neither type parameters nor a result type. -/
def isPlainConstructor (member : Tree) : Bool :=
  memberName? (.method false false) member != some "constructor" ||
    [Node.typeParameters, .returnType].all fun kind =>
      ((member.child? (.method false false)).bind (child? kind)).isNone

/-- No accessor, asynchronous method or generator takes the constructor's name. -/
def isSoundInstance (member : Tree) : Bool :=
  isPlainConstructor member &&
    [Node.getter, .setter, .method true false, .method false true, .method true true].all
      fun kind => memberName? kind member != some "constructor"

/-- No field takes the constructor's name; none takes its private form. -/
def isSoundMember (member : Tree) : Bool :=
  memberName? .field member != some "constructor" &&
    [Node.field, .getter, .setter, .method false false, .method true false, .method false true,
      .method true true].all fun kind => memberName? kind member != some "#constructor"

/-- A class has one constructor at most. -/
def isSoundClass (t : Tree) : Bool :=
  let instanceMembers := t.children.filterMap fun
    | .node .instanceMember m => some m
    | _ => none
  let staticMembers := t.children.filterMap fun
    | .node .staticMember m => some m
    | _ => none
  (instanceMembers.filter isConstructor).length ≤ 1 &&
    instanceMembers.all (fun m => isSoundInstance m && isSoundMember m) &&
    staticMembers.all (fun m => isSoundMember m && memberName? .field m != some "prototype")

end Tree

/-! ## Surroundings -/

/-- How a function treats what surrounds it. -/
inductive FunctionForm where
  | plain | method | arrow
  deriving DecidableEq, Repr

/-- What the surroundings of a subtree permit. -/
structure Context where
  canReturn : Bool
  canAwait : Bool
  canYield : Bool
  hasNewTarget : Bool
  hasSuperMember : Bool
  hasSuperCall : Bool
  hasArguments : Bool
  inLoop : Bool
  inSwitch : Bool
  /-- The labels in force, and whether each belongs to a loop. -/
  labels : List (Text × Bool)
  /-- Whether the expression is assigned to. -/
  inTarget : Bool
  /-- What the next parameters and the next body belong to. -/
  form : FunctionForm
  isAsync : Bool
  isGenerator : Bool
  deriving DecidableEq, Repr

namespace Context

/-- The top of a module, where `await` is permitted. -/
def top : Context where
  canReturn := false
  canAwait := true
  canYield := false
  hasNewTarget := false
  hasSuperMember := false
  hasSuperCall := false
  hasArguments := true
  inLoop := false
  inSwitch := false
  labels := []
  inTarget := false
  form := .plain
  isAsync := false
  isGenerator := false

/-- Behind the border of a function no jump leads out. -/
def inBody (c : Context) : Context :=
  { c with inLoop := false, inSwitch := false, labels := [], inTarget := false }

/-- The body of the function whose head was just entered. -/
def body (c : Context) : Context :=
  match c.form with
  | .arrow =>
    { c.inBody with
      canReturn := true, canAwait := c.isAsync, canYield := false, hasSuperCall := true }
  | form =>
    { c.inBody with
      canReturn := true, canAwait := c.isAsync, canYield := c.isGenerator, hasNewTarget := true,
      hasSuperMember := form == .method, hasSuperCall := true, hasArguments := true }

/-- The parameters of the function whose head was just entered. -/
def parameters (c : Context) : Context := { c.body with canAwait := false, canYield := false }

/-- The value of a field. -/
def initializer (c : Context) : Context :=
  { c.inBody with
    canReturn := false, canAwait := false, canYield := false, hasNewTarget := true,
    hasSuperMember := true, hasArguments := false }

/-- What holds below a node. -/
def enter (c : Context) (k : Node) (t : Tree) : Context :=
  let inside := { c with inTarget := false }
  let head (form : FunctionForm) (isAsync isGenerator : Bool) : Context :=
    { inside with form := form, isAsync := isAsync, isGenerator := isGenerator }
  match k with
  | .function isAsync isGenerator => head .plain isAsync isGenerator
  | .method isAsync isGenerator => head .method isAsync isGenerator
  | .getter | .setter => head .method false false
  | .arrow isAsync => head .arrow isAsync false
  | .parameters => inside.parameters
  | .body | .conciseBody => inside.body
  | .initializer => inside.initializer
  | .staticBlock => { inside.initializer with canReturn := true }
  | .labelled => { inside with
      labels := ((t.labelName?.getD []), (Tree.node .labelled t).labelsLoop) :: c.labels }
  | .loop => { inside with inLoop := true }
  | .switch => { inside with inSwitch := true }
  | .assignment isPlain => { inside with inTarget := isPlain }
  | .eachTarget => { inside with inTarget := true }
  | .array | .object | .property | .spread => c
  | _ => inside

/-- Whether a node may stand here. -/
def permits (c : Context) (k : Node) (t : Tree) : Bool :=
  match k with
  | .identifier => c.hasArguments || t.firstToken?.map Token.kind != some (.keyword .arguments)
  | .await => c.canAwait
  | .yield => c.canYield
  | .newTarget => c.hasNewTarget
  | .superMember => c.hasSuperMember
  | .superCall => c.hasSuperCall
  | .return => c.canReturn
  | .break =>
    match t.labelName? with
    | some l => c.labels.any (·.1 == l)
    | none => c.inLoop || c.inSwitch
  | .continue =>
    match t.labelName? with
    | some l => c.labels.any (· == (l, true))
    | none => c.inLoop
  | .labelled => !c.labels.any (·.1 == t.labelName?.getD [])
  | .switch => (t.children.filter (Tree.isNode .defaultClause)).length ≤ 1
  | .assignment isPlain =>
    match t with
    | .cat target _ => if isPlain then target.isTarget else target.isSimpleTarget
    | _ => true
  | .eachTarget => t.isTarget
  | .prefixUpdate =>
    match t with
    | .cat _ target => target.isSimpleTarget
    | _ => true
  | .postfixUpdate =>
    match t with
    | .cat target _ => target.isSimpleTarget
    | _ => true
  | .shorthandDefault => c.inTarget
  | .unary =>
    match t with
    | .cat (.leaf op) operand => op.kind ≠ .keyword .delete || operand.isDeletable
    | _ => true
  | .binary => Tree.isSoundChain t.children
  | .chain =>
    !(t.children.any (Tree.isNode .optionalStep) && t.children.any (Tree.isNode .tagged))
  | .function _ _ | .method _ _ | .arrow _ | .setter => t.isSoundFunction
  | .classDefinition => t.isSoundClass
  | _ => true

end Context

/-- Whether a tree has no early error in a context. -/
def Tree.isSound (c : Context) : Tree → Bool
  | .empty => true
  | .leaf _ => true
  | .cat a b => b.isSound c && a.isSound c
  | .node k t => c.permits k t && t.isSound (c.enter k t)

end Script
end ProcedureGen
