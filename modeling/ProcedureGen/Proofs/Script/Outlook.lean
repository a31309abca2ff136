import ProcedureGen.Proofs.Script.Goal

/-!
# What may come next

A slash behind an operand divides, and elsewhere it opens a regular expression.  Which of the two it
does follows from the tokens in front of it: an automaton with a stack takes one after another and
knows each time what may come next.

* `Role`: what a token is to the tokens behind it;
* `Frame`: what is expected between two brackets, and what surrounds it;
* `Frame.settle`: the end of a statement, where a line end stands for the semicolon;
* `Frame.after`: what a token changes;
* `Outlook`: a frame with the frames around it;
* `Outlook.goal`: the goal of the next token;
* `Outlook.Supports`: an outlook that may stand in for another one at some place of a text.
-/

namespace ProcedureGen
namespace Script

/-! ## Roles -/

/-- What a token is to the tokens behind it. -/
inductive Role where
  -- words
  | word | async | of | function | «class» | «extends» | «in» | instanceof | new
  /-- A word in front of an operand. -/
  | unary
  /-- A word in front of an operand on the same line, if there is one. -/
  | giving
  /-- A word in front of a label on the same line, if there is one. -/
  | jump
  /-- A word in front of a statement. -/
  | clause
  /-- A word in front of something in parentheses and of a statement. -/
  | condition
  | «switch» | «for» | declare | default | debugger
  -- literals and names
  | privateName | literal | regex | whole | head | middle | tail
  -- marks
  | braceOpen | braceClose | parenOpen | parenClose | bracketOpen | bracketClose | dot | ellipsis
  | semicolon | comma | colon | question | arrow | assign | compound | slash | slashAssign | update
  | sign | bang | star | binary
  /-- The end of the text, and what is no token. -/
  | none
  deriving DecidableEq, Repr

namespace Role

def all : List Role :=
  [.word, .async, .of, .function, .class, .extends, .in, .instanceof, .new, .unary, .giving, .jump,
    .clause, .condition, .switch, .for, .declare, .default, .debugger, .privateName, .literal,
    .regex, .whole, .head, .middle, .tail, .braceOpen, .braceClose, .parenOpen, .parenClose,
    .bracketOpen, .bracketClose, .dot, .ellipsis, .semicolon, .comma, .colon, .question, .arrow,
    .assign, .compound, .slash, .slashAssign, .update, .sign, .bang, .star, .binary, .none]

theorem mem_all (r : Role) : r ∈ all := by
  cases r <;> decide

/-- What holds of every role can be checked role by role. -/
instance {P : Role → Prop} [DecidablePred P] : Decidable (∀ r, P r) :=
  decidable_of_iff (∀ r ∈ all, P r) ⟨fun h r => h r r.mem_all, fun h r _ => h r⟩

def isWord : Role → Bool
  | .word | .async | .of | .function | .class | .extends | .in | .instanceof | .new | .unary
  | .giving | .jump | .clause | .condition | .switch | .for | .declare | .default | .debugger =>
    true
  | _ => false

/-- Whether a token goes on with what stands in front of it, or ends it. -/
def continues : Role → Bool
  | .comma | .colon | .semicolon | .question | .assign | .braceClose | .parenClose
  | .bracketClose => true
  | _ => false

/-- Whether a token goes on with no operand, so that one on a line of its own begins a statement. -/
def startsLine : Role → Bool
  | .in | .instanceof => false
  | .braceOpen | .privateName | .literal | .bang | .update => true
  | r => r.isWord

/-- Whether a token begins a step behind an operand, and an operand as well. -/
def startsStep : Role → Bool
  | .parenOpen | .bracketOpen | .whole | .head => true
  | _ => false

end Role

def Keyword.role : Keyword → Role
  | .break | .continue => .jump
  | .case | .delete | .typeof | .void | .await => .unary
  | .catch | .if | .while => .condition
  | .class => .class
  | .const | .var | .let => .declare
  | .debugger => .debugger
  | .default => .default
  | .do | .else | .try | .finally => .clause
  | .extends => .extends
  | .for => .for
  | .function => .function
  | .in => .in
  | .instanceof => .instanceof
  | .new => .new
  | .return | .throw | .yield => .giving
  | .switch => .switch
  | .async => .async
  | .of => .of
  | _ => .word

def Punctuator.role : Punctuator → Role
  | .braceOpen => .braceOpen
  | .braceClose => .braceClose
  | .parenOpen => .parenOpen
  | .parenClose => .parenClose
  | .bracketOpen => .bracketOpen
  | .bracketClose => .bracketClose
  | .dot | .optionalDot => .dot
  | .ellipsis => .ellipsis
  | .semicolon => .semicolon
  | .comma => .comma
  | .colon => .colon
  | .question => .question
  | .arrow => .arrow
  | .assign => .assign
  | .slash => .slash
  | .slashAssign => .slashAssign
  | .increment | .decrement => .update
  | .plus | .minus => .sign
  | .bang | .tilde => .bang
  | .star => .star
  | .plusAssign | .minusAssign | .starAssign | .percentAssign | .powerAssign | .shiftLeftAssign
  | .shiftRightAssign | .shiftRightUnsignedAssign | .ampersandAssign | .barAssign | .caretAssign
  | .logicalAndAssign | .logicalOrAssign | .coalesceAssign => .compound
  | _ => .binary

def Kind.role : Kind → Role
  | .name _ | .escapedKeyword _ => .word
  | .keyword k => k.role
  | .privateName _ => .privateName
  | .punctuator p => p.role
  | .number | .string => .literal
  | .template .whole _ => .whole
  | .template .head _ => .head
  | .template .middle _ => .middle
  | .template .tail _ => .tail
  | .regex => .regex
  | .endOfText | .invalid => .none

/-! ## Frames -/

/-- What follows a function or a class as a whole. -/
inductive Sequel where
  | statement | operator | key
  deriving DecidableEq, Repr

/-- What is expected next. -/
inductive Expectation where
  | statement | operand
  /-- Behind an operand. -/
  | operator
  /-- Behind an operand that is changed in place. -/
  | updated
  /-- Behind what is no operand and needs nothing behind it. -/
  | closed
  /-- What a declaration binds. -/
  | target
  | label
  /-- An operand on the same line, or nothing. -/
  | value
  /-- The name of a member, behind a dot. -/
  | name
  /-- What stands behind `new`. -/
  | constructor
  /-- The name of a member of a class or an object, or what stands behind it. -/
  | key
  /-- What stands behind the word `async` at the start of a statement. -/
  | asyncStatement
  /-- The parameters of a function. -/
  | function (sequel : Sequel)
  | body (sequel : Sequel)
  | «class» (sequel : Sequel)
  /-- Something in parentheses and then a statement. -/
  | condition
  /-- The head of a `for`. -/
  | loop
  /-- The value of a `switch`. -/
  | choice
  /-- The clauses of a `switch`. -/
  | clauses
  | arrowBody
  deriving DecidableEq, Repr

def Sequel.expects : Sequel → Expectation
  | .statement => .statement
  | .operator => .operator
  | .key => .key

/-- Whether a statement or an operand begins there. -/
def Expectation.isStart : Expectation → Bool
  | .statement | .operand => true
  | _ => false

/-- Whether a line end may be the end of what stands in front of it. -/
def Expectation.isLoose : Expectation → Bool
  | .operator | .updated | .value | .label | .asyncStatement => true
  | _ => false

/-- What a list between two brackets holds. -/
inductive Region where
  | statements
  /-- The members of a class. -/
  | members
  /-- The members of an object or of a pattern. -/
  | fields
  /-- The head of a `for` in front of its first semicolon. -/
  | loopHead
  /-- The middle of a conditional. -/
  | middle
  /-- A superclass. -/
  | heritage
  /-- Expressions in parentheses or brackets. -/
  | group
  /-- An expression in a template. -/
  | piece
  deriving DecidableEq, Repr

/-- What is expected at a place between two brackets. -/
structure Frame where
  expects : Expectation
  region : Region
  /-- Whether variables are being declared. -/
  declares : Bool
  deriving DecidableEq, Repr

/-- What a token does to a frame. -/
inductive Move where
  | stay (frame : Frame)
  /-- An opening bracket: the frame behind the closing one, and the frame inside. -/
  | enter (behind inside : Frame)
  | leave
  deriving DecidableEq, Repr

namespace Frame

def go (f : Frame) (e : Expectation) : Option Move := some (.stay { f with expects := e })

def into (f : Frame) (behind : Expectation) (region : Region) (inside : Expectation) :
    Option Move :=
  some (.enter { f with expects := behind } ⟨inside, region, false⟩)

/-- The start of the next part of a region. -/
def anew (f : Frame) : Frame :=
  match f.region with
  | .statements => ⟨.statement, .statements, false⟩
  | .members => ⟨.key, .members, false⟩
  | .fields => { f with expects := .key }
  | _ => { f with expects := .operand }

/-- What is expected once the next token is seen.  What ends without a semicolon or a comma ends
there: at a line end, and at the border between two expressions in the head of a `for`. -/
def settle (f : Frame) (r : Role) (onNewLine : Bool) : Frame :=
  match f.expects with
  | .closed =>
    if r.continues || (f.region = .loopHead && (r = .of || r = .in)) then f else f.anew
  | .value =>
    if r.continues then f else if onNewLine then f.anew else { f with expects := .operand }
  | .label => if r.continues then f else if onNewLine then f.anew else f
  | .operator =>
    if f.region = .loopHead && r = .of then f
    else if f.region = .heritage then f
    else if r.startsLine && (onNewLine || (f.region = .group && r ≠ .update)) then f.anew
    else f
  | .asyncStatement =>
    if r = .function then f
    else if r.startsLine && onNewLine then f.anew
    else { f with expects := .operator }
  | .updated =>
    if f.region = .loopHead && r = .of then f
    else if (r.startsLine || r.startsStep) && (onNewLine || f.region = .group) then f.anew
    else f
  | .constructor => if r = .dot then f else { f with expects := .operand }
  | .arrowBody => if r = .braceOpen then f else { f with expects := .operand }
  | _ => f

/-! ### Steps -/

/-- A closing mark or a semicolon. -/
def close (f : Frame) : Role → Option Move
  | .braceClose =>
    match f.region with
    | .statements | .members | .fields => some .leave
    | _ => none
  | .parenClose =>
    match f.region with
    | .group | .loopHead => some .leave
    | _ => none
  | .bracketClose => if f.region = .group then some .leave else none
  | .tail => if f.region = .piece then some .leave else none
  | .middle => if f.region = .piece then f.go .operand else none
  | .semicolon =>
    match f.region with
    | .statements | .members => some (.stay f.anew)
    | .loopHead => some (.stay ⟨.operand, .group, false⟩)
    | .group => f.go .operand
    | _ => none
  | .colon =>
    match f.region with
    | .middle => some .leave
    | .statements => if f.expects.isStart then none else some (.stay f.anew)
    | _ => none
  | _ => none

/-- An operand begins. -/
def start (f : Frame) (sequel : Sequel) : Role → Option Move
  | .word | .of | .privateName | .literal | .regex | .whole => f.go .operator
  | .function => f.go (.function sequel)
  | .class => f.go (.class sequel)
  | .new => f.go .constructor
  | .unary | .update | .sign | .bang | .star => f.go .operand
  | .giving => f.go .value
  | .head => f.into .operator .piece .operand
  | .parenOpen | .bracketOpen => f.into .operator .group .operand
  | r => f.close r

def statement (f : Frame) : Role → Option Move
  | .async => f.go .asyncStatement
  | .jump => f.go .label
  | .clause => f.go .statement
  | .condition => f.go .condition
  | .switch => f.go .choice
  | .for => f.go .loop
  | .declare => some (.stay { f with expects := .target, declares := true })
  | .default => f.go .operator
  | .debugger => f.go .closed
  | .braceOpen => f.into .statement .statements .statement
  | r => f.start .statement r

def operand (f : Frame) : Role → Option Move
  | .async => f.go .operator
  | .declare =>
    if f.region = .loopHead then some (.stay { f with expects := .target, declares := true })
    else none
  | .braceOpen => f.into .operator .fields .key
  | .ellipsis | .comma => if f.region = .group then f.go .operand else none
  | .arrow => if f.region = .loopHead then f.go .arrowBody else none
  | r => f.start .operator r

/-- A comma, a question mark or an equals sign behind a value, or the end of it. -/
def carryOn (f : Frame) : Role → Option Move
  | .comma =>
    if f.declares then f.go .target
    else match f.region with
      | .fields => f.go .key
      | .statements | .group | .piece | .loopHead => f.go .operand
      | _ => none
  | .question => f.into .operand .middle .operand
  | .assign => f.go .operand
  | .ellipsis => if f.region = .group then f.go .operand else none
  | r => f.close r

/-- An operator between operands, or a step to a member or a call. -/
def goOn (f : Frame) : Role → Option Move
  | .in => some (.stay { f with
      expects := .operand, declares := f.declares && f.region ≠ .loopHead })
  | .instanceof | .compound | .slash | .slashAssign | .sign | .star | .binary => f.go .operand
  | .whole => f.go .operator
  | .head => f.into .operator .piece .operand
  | .parenOpen | .bracketOpen => f.into .operator .group .operand
  | .dot => f.go .name
  | r => f.carryOn r

def operator (f : Frame) : Role → Option Move
  | .word | .async => f.go .operator
  | .of => f.go (if f.region = .loopHead && !f.declares then .operand else .operator)
  | .function => f.go (.function .operator)
  | .update => f.go .updated
  | .arrow => f.go .arrowBody
  | .braceOpen =>
    if f.region = .heritage then some (.stay { f with expects := .key, region := .members })
    else none
  | r => f.goOn r

def closed (f : Frame) : Role → Option Move
  | .of =>
    if f.region = .loopHead then some (.stay { f with expects := .operand, declares := false })
    else none
  | .in => some (.stay { f with
      expects := .operand, declares := f.declares && f.region ≠ .loopHead })
  | r => f.carryOn r

def key (f : Frame) (r : Role) : Option Move :=
  if r.isWord then f.go .key
  else match r with
    | .privateName | .literal | .star => f.go .key
    | .braceOpen =>
      if f.region = .members then f.into .key .statements .statement else none
    | .parenOpen =>
      f.into (.body (if f.region = .members then .key else .operator)) .group .operand
    | .bracketOpen => f.into .key .group .operand
    | .assign => f.go .operand
    | .ellipsis | .colon => if f.region = .fields then f.go .operand else none
    | .comma => if f.region = .fields then f.go .key else none
    | r => f.close r

def target (f : Frame) : Role → Option Move
  | .word | .async | .of => f.go .closed
  | .braceOpen => f.into .closed .fields .key
  | .bracketOpen => f.into .closed .group .operand
  | r => f.close r

def label (f : Frame) : Role → Option Move
  | .word | .async | .of => f.go .closed
  | r => f.close r

def name (f : Frame) (r : Role) : Option Move :=
  if r.isWord then f.go .operator
  else match r with
    | .privateName => f.go .operator
    | .parenOpen | .bracketOpen => f.into .operator .group .operand
    | _ => none

/-- The word `function` and what stands between it and the parameters. -/
def function (f : Frame) (sequel : Sequel) : Role → Option Move
  | .word | .async | .of | .star => f.go (.function sequel)
  | .parenOpen => f.into (.body sequel) .group .operand
  | _ => none

def «class» (f : Frame) (sequel : Sequel) : Role → Option Move
  | .word | .async | .of => f.go (.class sequel)
  | .extends => f.into sequel.expects .heritage .operand
  | .braceOpen => f.into sequel.expects .members .key
  | _ => none

def condition (f : Frame) : Role → Option Move
  | .parenOpen => f.into .statement .group .operand
  | .braceOpen => f.into .statement .statements .statement
  | _ => none

def loop (f : Frame) : Role → Option Move
  | .unary => f.go .loop
  | .parenOpen => f.into .statement .loopHead .operand
  | _ => none

/-- What a token does where it is what is expected. -/
def step (f : Frame) (r : Role) : Option Move :=
  match f.expects with
  | .statement => f.statement r
  | .operand => f.operand r
  | .operator => f.operator r
  | .updated => f.goOn r
  | .closed => f.closed r
  | .value => f.carryOn r
  | .key => f.key r
  | .target => f.target r
  | .label => f.label r
  | .name => f.name r
  | .constructor => if r = .dot then f.go .name else none
  | .asyncStatement => if r = .function then f.go (.function .statement) else none
  | .function sequel => f.function sequel r
  | .body sequel => if r = .braceOpen then f.into sequel.expects .statements .statement else none
  | .class sequel => f.class sequel r
  | .condition => f.condition r
  | .loop => f.loop r
  | .choice => if r = .parenOpen then f.into .clauses .group .operand else none
  | .clauses => if r = .braceOpen then f.into .statement .statements .statement else none
  | .arrowBody => if r = .braceOpen then f.into .closed .statements .statement else none

def after (f : Frame) (r : Role) (onNewLine : Bool) : Option Move := (f.settle r onNewLine).step r

/-- Whether a slash opens a regular expression. -/
def wantsOperand (f : Frame) (onNewLine : Bool) : Bool :=
  (f.settle .slash onNewLine).expects.isStart

/-- How the next token is scanned, as it looks without a goal. -/
def goal (f : Frame) (t : Token) : Goal :=
  match t.kind.role with
  | .slash | .slashAssign => if f.wantsOperand t.onNewLine then .regex else .plain
  | .braceClose => if f.region = .piece then .templateRest else .plain
  | _ => .plain

theorem settle_of_not_isLoose {f : Frame} (h : f.expects.isLoose = false) (r : Role)
    (b b' : Bool) : f.settle r b = f.settle r b' := by
  unfold settle
  cases hexpects : f.expects <;> simp_all [Expectation.isLoose]

/-- Where a member is named, all words are alike. -/
theorem after_word {f : Frame} {r : Role} (h : f.expects = .name ∨ f.expects = .key)
    (hr : r.isWord = true) (b : Bool) : f.after r b = f.after .word b := by
  have hsettle : ∀ r, f.settle r b = f := by
    intro r
    unfold settle
    rcases h with h | h <;> rw [h]
  simp only [after, hsettle, step]
  have hword : Role.word.isWord = true := rfl
  rcases h with h | h <;> simp [h, name, key, hr, hword]

end Frame

/-! ## Outlooks -/

/-- What is expected at a place of a script, and behind each bracket that is open there. -/
structure Outlook where
  frame : Frame
  around : List Frame
  deriving DecidableEq, Repr

namespace Outlook

def move (around : List Frame) : Move → Option Outlook
  | .stay f => some ⟨f, around⟩
  | .enter behind inside => some ⟨inside, behind :: around⟩
  | .leave =>
    match around with
    | [] => none
    | f :: rest => some ⟨f, rest⟩

def after (o : Outlook) (r : Role) (onNewLine : Bool) : Option Outlook :=
  (o.frame.after r onNewLine).bind (move o.around)

/-- The outlook behind a token. -/
def advance (o : Outlook) (t : Token) : Option Outlook := o.after t.kind.role t.onNewLine

/-- The next token, and the text behind it. -/
def scan (o : Outlook) (x : Text) : Option (Token × Text) := (o.frame.goal (Token.scan x).1).scan x

/-- The same outlook between further brackets. -/
def onBase (o : Outlook) (base : List Frame) : Outlook := ⟨o.frame, o.around ++ base⟩

theorem after_onBase {o o' : Outlook} {r : Role} {b : Bool} (h : o.after r b = some o')
    (base : List Frame) : (o.onBase base).after r b = some (o'.onBase base) := by
  rcases Option.bind_eq_some_iff.1 h with ⟨m, hm, hmove⟩
  refine Option.bind_eq_some_iff.2 ⟨m, hm, ?_⟩
  cases m with
  | stay f =>
      obtain rfl := Option.some.inj hmove
      rfl
  | enter behind inside =>
      obtain rfl := Option.some.inj hmove
      rfl
  | leave =>
      rcases o with ⟨f, _ | ⟨g, rest⟩⟩
      · cases hmove
      · obtain rfl := Option.some.inj hmove
        rfl

/-- What the second outlook foresees at a place, the first one foresees as well. -/
inductive Supports : Outlook → Outlook → Text → Prop where
  | refl (o : Outlook) (x : Text) : Supports o o x
  | step {o a : Outlook} {x : Text} (around : o.around = a.around)
      (region : o.frame.region = a.frame.region)
      (goal : o.frame.goal (Token.scan x).1 = a.frame.goal (Token.scan x).1)
      (foresees : ∀ t y, a.scan x = some (t, y) → (a.advance t).isSome → (o.advance t).isSome)
      (behind : ∀ t y o' a', a.scan x = some (t, y) → o.advance t = some o' →
        a.advance t = some a' → Supports o' a' y) : Supports o a x

namespace Supports

variable {o a b : Outlook} {x y : Text} {t : Token}

theorem around_eq (h : Supports o a x) : o.around = a.around := by
  cases h with
  | refl => rfl
  | step around => exact around

theorem region_eq (h : Supports o a x) : o.frame.region = a.frame.region := by
  cases h with
  | refl => rfl
  | step _ region => exact region

theorem goal_eq (h : Supports o a x) :
    o.frame.goal (Token.scan x).1 = a.frame.goal (Token.scan x).1 := by
  cases h with
  | refl => rfl
  | step _ _ goal => exact goal

theorem scan_eq (h : Supports o a x) : o.scan x = a.scan x := by
  rw [scan, scan, h.goal_eq]

/-- The first outlook goes along with the second one. -/
theorem advance {a' : Outlook} (h : Supports o a x) (hscan : a.scan x = some (t, y))
    (ha : a.advance t = some a') : ∃ o', o.advance t = some o' ∧ Supports o' a' y := by
  cases h with
  | refl => exact ⟨a', ha, .refl a' y⟩
  | step _ _ _ foresees behind =>
      rcases Option.isSome_iff_exists.1 (foresees t y hscan (by simp [ha])) with ⟨o', ho⟩
      exact ⟨o', ho, behind t y o' a' hscan ho ha⟩

theorem trans (h : Supports o b x) (h' : Supports b a x) : Supports o a x := by
  induction h generalizing a with
  | refl => exact h'
  | @step o b x around region goal foresees behind ih =>
      refine .step (around.trans h'.around_eq) (region.trans h'.region_eq) (goal.trans h'.goal_eq)
        (fun t y hscan hdefined => ?_) fun t y o' a' hscan ho ha => ?_
      · rcases Option.isSome_iff_exists.1 hdefined with ⟨a', ha⟩
        rcases h'.advance hscan ha with ⟨b', hb, -⟩
        exact foresees t y (h'.scan_eq ▸ hscan) (by simp [hb])
      · rcases h'.advance hscan ha with ⟨b', hb, hsupports⟩
        exact ih t y o' b' (h'.scan_eq ▸ hscan) ho hb hsupports

end Supports

end Outlook

/-! ## One frame for another -/

/-- The roles of a token that has one of them as it is scanned without a goal. -/
def Role.rescans : Role → List Role
  | .slash => [.slash, .regex]
  | .slashAssign => [.slashAssign, .regex]
  | .braceClose => [.braceClose, .middle, .tail]
  | .regex | .middle | .tail => []
  | r => [r]

/-- Whether one frame foresees what another one foresees, as long as the next token has one of some
roles and passes a test. -/
def Frame.supports (f a : Frame) (roles : List Role) (test : Role → Bool → Bool) : Bool :=
  f.region = a.region &&
    roles.all fun r => [true, false].all fun onNewLine =>
      !test r onNewLine ||
        (r.rescans.all fun s =>
          a.after s onNewLine = none || f.after s onNewLine = a.after s onNewLine) &&
        (r ∉ [.slash, .slashAssign] || f.wantsOperand onNewLine = a.wantsOperand onNewLine)

/-- A role that a token has only where it is asked for. -/
def Role.isRescanned : Role → Bool
  | .regex | .middle | .tail => true
  | _ => false

section Scanning

variable {x y : Text} {t : Token} {k : Kind} {l : Literal}

/-- No token is a regular expression or the rest of a template without being asked for. -/
theorem Token.read?_role (h : Token.read? x = some (k, l)) : k.role.isRescanned = false := by
  have hkeyword : ∀ k : Keyword, k.role.isRescanned = false := by
    intro k
    cases k <;> rfl
  have hmark : ∀ p : Punctuator, p.role.isRescanned = false := by
    intro p
    cases p <;> rfl
  have hword : ∀ w : Word, w.kind.role.isRescanned = false := by
    intro w
    unfold Word.kind
    split
    · rfl
    · split
      · exact hkeyword _
      · split <;> rfl
  revert h
  fun_cases Token.read? x with
  | case1 =>
      intro h
      rcases Prod.mk.inj (Option.some.inj h) with ⟨rfl, -⟩
      rfl
  | case2 | case8 | case9 => simp
  | case3 | case6 =>
      intro h
      rcases Option.map_eq_some_iff.1 h with ⟨m, -, heq⟩
      rcases Prod.mk.inj heq with ⟨rfl, -⟩
      rfl
  | case4 =>
      intro h
      rcases Option.map_eq_some_iff.1 h with ⟨⟨closes, m⟩, -, heq⟩
      rcases Prod.mk.inj heq with ⟨rfl, -⟩
      cases closes <;> rfl
  | case5 =>
      intro h
      rcases Option.map_eq_some_iff.1 h with ⟨w, -, heq⟩
      rcases Prod.mk.inj heq with ⟨rfl, -⟩
      exact hword w
  | case7 =>
      intro h
      rcases Prod.mk.inj (Option.some.inj h) with ⟨rfl, -⟩
      rfl
  | case10 =>
      intro h
      rcases Option.map_eq_some_iff.1 h with ⟨⟨p, after⟩, -, heq⟩
      rcases Prod.mk.inj heq with ⟨rfl, -⟩
      exact hmark p

theorem Token.role_scan (x : Text) : (Token.scan x).1.kind.role.isRescanned = false := by
  by_cases hvalid : (Token.scan x).1.kind = .invalid
  · rw [hvalid]
    rfl
  · exact Token.read?_role (Token.scan_valid rfl hvalid).2

/-- What a token may be where it is scanned with the goal of a frame. -/
theorem Frame.role_of_scan {f : Frame} (h : (f.goal (Token.scan x).1).scan x = some (t, y)) :
    t.kind.role ∈ (Token.scan x).1.kind.role.rescans ∧
      t.onNewLine = (Token.scan x).1.onNewLine := by
  have hrole := Token.role_scan x
  have hself : ∀ r : Role, r.isRescanned = false → r ∈ r.rescans := by decide
  have hplain : Goal.scan .plain x = some (t, y) →
      t.kind.role ∈ (Token.scan x).1.kind.role.rescans ∧
        t.onNewLine = (Token.scan x).1.onNewLine := by
    intro h
    rw [Goal.scan_plain] at h
    rw [h.1]
    rw [h.1] at hrole
    exact ⟨hself _ hrole, rfl⟩
  have hregex : ∀ r : Role, r = .slash ∨ r = .slashAssign → .regex ∈ r.rescans := by
    rintro r (rfl | rfl) <;> decide
  unfold Frame.goal at h
  split at h
  case h_1 hr | h_2 hr =>
    split at h
    · rcases Goal.scan_regex_inv h with ⟨hkind, hline⟩
      rw [hkind]
      exact ⟨hregex _ (by simp [hr]), hline⟩
    · exact hplain h
  next hr =>
    split at h
    · rcases Goal.scan_templateRest_inv h with ⟨-, ⟨part, sound, hkind, hpart⟩, hline⟩
      rw [hr, hkind]
      refine ⟨?_, hline⟩
      rcases hpart with rfl | rfl <;> simp [Kind.role, Role.rescans]
    · exact hplain h
  · exact hplain h

end Scanning

namespace Outlook

variable {f a : Frame} {roles : List Role} {test : Role → Bool → Bool} {x : Text}

theorem supports_of_frame (h : f.supports a roles test = true)
    (hrole : (Token.scan x).1.kind.role ∈ roles)
    (htest : test (Token.scan x).1.kind.role (Token.scan x).1.onNewLine = true)
    (around : List Frame) : Supports ⟨f, around⟩ ⟨a, around⟩ x := by
  simp only [Frame.supports, Bool.and_eq_true, decide_eq_true_eq] at h
  rcases h with ⟨hregion, hroles⟩
  have hline : (Token.scan x).1.onNewLine ∈ [true, false] := by
    cases (Token.scan x).1.onNewLine <;> simp
  have hcheck := List.all_eq_true.1 (List.all_eq_true.1 hroles _ hrole) _ hline
  simp only [htest, Bool.not_true, Bool.false_or, Bool.and_eq_true, Bool.or_eq_true,
    decide_eq_true_eq, List.all_eq_true] at hcheck
  rcases hcheck with ⟨hsteps, hwants⟩
  have hgoal : f.goal (Token.scan x).1 = a.goal (Token.scan x).1 := by
    unfold Frame.goal
    split
    case h_1 hr | h_2 hr => rw [hwants.resolve_left (by simp [hr])]
    · rw [hregion]
    · rfl
  have hadvance : ∀ {t y a'}, Outlook.scan ⟨a, around⟩ x = some (t, y) →
      Outlook.advance ⟨a, around⟩ t = some a' → Outlook.advance ⟨f, around⟩ t = some a' := by
    intro t y a' hscan ha
    rcases Frame.role_of_scan hscan with ⟨hrescan, hsame⟩
    rcases Option.bind_eq_some_iff.1 ha with ⟨m, hm, hmove⟩
    refine Option.bind_eq_some_iff.2 ⟨m, ?_, hmove⟩
    rw [hsame] at hm ⊢
    rcases hsteps _ hrescan with hnone | hsome
    · rw [hnone] at hm
      cases hm
    · exact hsome.trans hm
  refine .step rfl hregion hgoal (fun t y hscan hdefined => ?_) fun t y o' a' hscan ho ha => ?_
  · rcases Option.isSome_iff_exists.1 hdefined with ⟨a', ha⟩
    simp [hadvance hscan ha]
  · obtain rfl := Option.some.inj ((hadvance hscan ha).symm.trans ho)
    exact .refl _ y

end Outlook

end Script
end ProcedureGen
