import ProcedureGen.Proofs.Script.Forecast

/-!
# What the rules lead to

For each rule of the plain grammar it is written down where it may be read and where it leads; what
its phrase leads to is checked against that.

* `Rule.starts`, `Rule.fits`: where a rule is read;
* `Rule.ends`: the places behind it;
* `grammar_isForeseen`: each rule keeps to what is written down for it.
-/

namespace ProcedureGen
namespace Script

open Phrase Grammar

/-! ## Rules -/

/-- What may follow an expression. -/
def expressionEnds (allowIn : Bool) : List (Expectation × Clear) :=
  if allowIn then
    [(.operator, .whole), (.updated, ⟨true, true, false, false, false⟩), (.closed, .nothing),
      (.value, .nothing)]
  else [(.operator, .nothing), (.updated, .nothing), (.closed, .nothing), (.value, .nothing)]

/-- Whether frames like this one occur. -/
def Frame.isPossible (f : Frame) : Bool :=
  (!f.declares || f.region = .statements || f.region = .loopHead) &&
    match f.expects with
    | .statement | .condition | .loop | .choice | .clauses | .label | .asyncStatement
    | .function .statement | .body .statement | .class .statement =>
      f.region = .statements && !f.declares
    | .target => f.declares
    | .key => f.region = .members || f.region = .fields
    | .body .key => f.region = .members
    | _ => true

/-- Whether `in` ends a declaration. -/
def Frame.inLoopHead (f : Frame) : Bool := f.declares && f.region = .loopHead

namespace Rule

/-- What may be expected where a rule is read. -/
def starts : Rule → List Expectation
  | .expression _ | .assignment _ | .arrow _ | .operand | .unary | .leftHandSide | .newCallee
  | .primary | .functionExpression | .classExpression | .object | .array | .bindingElement
  | .parameter _ | .forHead => [.operand]
  | .template _ => [.operand, .operator]
  | .arguments => [.operator, .name]
  | .bindingTarget | .arrayPattern | .objectPattern => [.operand, .target]
  | .declarators _ _ => [.target]
  | .parameters _ =>
    [.function .statement, .function .operator, .key, .operand, .operator]
  | .body => [.body .statement, .body .operator, .body .key, .arrowBody]
  | .functionDeclaration | .classDeclaration | .item | .statement => [.statement]
  | .block => [.statement, .condition]
  | .key | .classMember | .memberBody | .property => [.key]
  | _ => []

/-- Whether a rule is read within a frame like this one. -/
def fits (r : Rule) (f : Frame) : Bool :=
  f.isPossible &&
    match r with
    | .expression _ =>
      !f.declares && (f.region = .statements || f.region = .group || f.region = .piece ||
        f.region = .loopHead)
    | .assignment allowIn | .arrow allowIn | .declarators allowIn _ => !(f.inLoopHead && allowIn)
    | .bindingElement | .parameter _ => !f.inLoopHead
    | .classMember | .memberBody => f.region = .members
    | .property => f.region = .fields
    | .forHead => f.region = .loopHead && !f.declares
    | _ => true

/-- What is expected behind a rule, and what is known there. -/
def sequels (r : Rule) (f : Frame) : List (Expectation × Clear) :=
  match r with
  | .expression allowIn | .assignment allowIn | .arrow allowIn => expressionEnds allowIn
  | .operand | .unary => [(.operator, ⟨false, false, true, true, false⟩), (.updated, .nothing)]
  | .leftHandSide => [(.operator, ⟨false, false, true, false, false⟩)]
  | .bindingTarget | .arrayPattern | .objectPattern =>
    [(if f.expects = .target then .closed else .operator, .nothing)]
  | .bindingElement | .parameter _ => (.operator, .nothing) :: expressionEnds true
  | .declarators allowIn _ => (.closed, .nothing) :: expressionEnds allowIn
  | .parameters _ =>
    match f.expects with
    | .function sequel => [(.body sequel, .nothing)]
    | .key => [(.body (if f.region = .members then .key else .operator), .nothing)]
    | _ => [(.operator, .nothing)]
  | .body =>
    match f.expects with
    | .body sequel => [(sequel.expects, .nothing)]
    | _ => [(.closed, .nothing)]
  | .functionDeclaration | .classDeclaration | .item | .statement | .block =>
    [(.statement, .nothing)]
  | .key | .classMember | .memberBody => [(.key, .nothing)]
  | .property => (.key, .nothing) :: (.operator, .nothing) :: expressionEnds true
  | _ => [(.operator, .nothing)]

/-- The frames behind a rule, and what is known there.  The head of a `for` may have left its first
part behind. -/
def ends (r : Rule) (f : Frame) : Option (List (Frame × Clear)) :=
  if f.expects ∈ r.starts && r.fits f then
    some <| match r with
      | .forHead =>
        (⟨.operand, .group, false⟩, .nothing) ::
          [Region.group, .loopHead].flatMap fun region =>
            (expressionEnds true).map fun (e, c) => (⟨e, region, false⟩, c)
      | _ => (r.sequels f).map fun (e, c) => ({ f with expects := e }, c)
  else none

/-- Whether a rule begins where an operand may stand. -/
def opens : Rule → Bool
  | .expression _ | .assignment _ | .arrow _ | .operand | .unary | .leftHandSide | .newCallee
  | .primary | .functionExpression | .classExpression | .object | .array => true
  | _ => false

/-- The view with which a rule is read: an operand may begin in other frames as well. -/
def entry (r : Rule) (v : View) : Option View :=
  if r.opens && v.outlook.frame.expects ≠ .operand then
    v.turn { v.outlook.frame with expects := .operand } Role.all fun _ _ => true
  else some v

/-- The places behind a rule. -/
def forecast (r : Rule) (v : View) : Option (List View) :=
  match r.entry v with
  | none => none
  | some w => (r.ends w.outlook.frame).map fun ends =>
    ends.map fun (f, c) => ⟨⟨f, v.outlook.around⟩, c⟩

end Rule

/-- Whether a phrase leads to nothing but the given frames. -/
def Phrase.meets (p : Phrase) (f : Frame) (ends : List (Frame × Clear)) : Bool :=
  match p.forecast Rule.forecast ⟨⟨f, []⟩, .nothing⟩ with
  | none => false
  | some vs => vs.all fun w => w.outlook.around = [] && !w.isNear &&
      ends.any fun (f, c) => w.outlook.frame = f && c.le w.clear

def Region.all : List Region :=
  [.statements, .members, .fields, .loopHead, .middle, .heritage, .group, .piece]

/-- Whether a rule of the plain grammar leads to what is written down for it. -/
def Rule.isForeseen (r : Rule) : Bool :=
  r.starts.all fun e => Region.all.all fun region => [true, false].all fun declares =>
    match r.ends ⟨e, region, declares⟩ with
    | none => true
    | some ends => (grammar .plain r).meets ⟨e, region, declares⟩ ends

theorem grammar_isForeseen (r : Rule) : r.isForeseen = true := by
  revert r
  decide +kernel

theorem grammar_shuns {r : Rule} (h : r ∈ shunning) : (grammar .plain r).shuns = true := by
  revert r
  decide +kernel

end Script
end ProcedureGen
