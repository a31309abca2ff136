import ProcedureGen.Proofs.Script.Outlook
import ProcedureGen.Proofs.Script.Reading

/-!
# Forecasts

Where a phrase of the plain grammar may lead, said in advance: from each place that an outlook
describes, the places behind the phrase, whatever tokens there are.

* `View`: a place, and what is known of the token there;
* `Phrase.forecast`: the places behind a phrase, if every token that it asks for is foreseen;
* `Rule.ends`: the same for the rules of the grammar, written down for each of them;
* `grammar_isForeseen`: each rule keeps to what is written down for it.
-/

namespace ProcedureGen
namespace Script

open Phrase Grammar

/-! ## Values

A check by evaluation takes arguments as they are written, and evaluates them once for each use.
`x.forced k` is `k x`, with `x` evaluated first. -/

section Forced

variable {α : Type}

def Sequel.forced : Sequel → (Sequel → α) → α
  | .statement, k => k .statement
  | .operator, k => k .operator
  | .key, k => k .key

def Expectation.forced : Expectation → (Expectation → α) → α
  | .statement, k => k .statement
  | .operand, k => k .operand
  | .operator, k => k .operator
  | .updated, k => k .updated
  | .closed, k => k .closed
  | .target, k => k .target
  | .label, k => k .label
  | .value, k => k .value
  | .name, k => k .name
  | .constructor, k => k .constructor
  | .key, k => k .key
  | .asyncStatement, k => k .asyncStatement
  | .function a, k => a.forced fun a => k (.function a)
  | .body a, k => a.forced fun a => k (.body a)
  | .class a, k => a.forced fun a => k (.class a)
  | .condition, k => k .condition
  | .loop, k => k .loop
  | .choice, k => k .choice
  | .clauses, k => k .clauses
  | .arrowBody, k => k .arrowBody

def Region.forced : Region → (Region → α) → α
  | .statements, k => k .statements
  | .members, k => k .members
  | .fields, k => k .fields
  | .loopHead, k => k .loopHead
  | .middle, k => k .middle
  | .heritage, k => k .heritage
  | .group, k => k .group
  | .piece, k => k .piece

def Frame.forced (f : Frame) (k : Frame → α) : α :=
  f.expects.forced fun e => f.region.forced fun r =>
    match f.declares with
    | true => k ⟨e, r, true⟩
    | false => k ⟨e, r, false⟩

def Frame.allForced : List Frame → (List Frame → α) → α
  | [], k => k []
  | f :: fs, k => f.forced fun f => allForced fs fun fs => k (f :: fs)

def Outlook.forced (o : Outlook) (k : Outlook → α) : α :=
  o.frame.forced fun f => Frame.allForced o.around fun fs => k ⟨f, fs⟩

theorem Frame.forced_eq (f : Frame) (k : Frame → α) : f.forced k = k f := by
  have hsequel : ∀ (a : Sequel) (k : Sequel → α), a.forced k = k a := by
    intro a k
    cases a <;> rfl
  rcases f with ⟨e, r, d⟩
  have hexpects : ∀ k : Expectation → α, e.forced k = k e := by
    intro k
    cases e with
    | function a | body a | «class» a => exact hsequel a _
    | _ => rfl
  have hregion : ∀ k : Region → α, r.forced k = k r := by
    intro k
    cases r <;> rfl
  rw [forced, hexpects, hregion]
  cases d <;> rfl

theorem Outlook.forced_eq (o : Outlook) (k : Outlook → α) : o.forced k = k o := by
  have hall : ∀ (fs : List Frame) (k : List Frame → α), Frame.allForced fs k = k fs := by
    intro fs
    induction fs with
    | nil => exact fun k => rfl
    | cons f fs ih =>
        intro k
        rw [Frame.allForced, Frame.forced_eq, ih]
  rw [forced, Frame.forced_eq, hall]

end Forced

/-! ## Views -/

/-- What is known of the next token, since some phrases cannot be read there. -/
structure Clear where
  /-- It is no operator between operands. -/
  operator : Bool
  /-- It is not `/=`. -/
  divide : Bool
  /-- It begins no step to a member or a call. -/
  step : Bool
  /-- It is no `++` or `--` on the same line. -/
  update : Bool
  /-- It stands on the same line. -/
  near : Bool
  deriving DecidableEq, Repr

/-- Whether a token stands between operands, and between all of them. -/
def Role.isOperator : Role → Bool
  | .slash | .sign | .star | .in | .instanceof => true
  | _ => false

namespace Clear

def nothing : Clear := ⟨false, false, false, false, false⟩

/-- What is known behind a whole expression. -/
def whole : Clear := ⟨true, true, true, true, false⟩

/-- Whether the next token may have a role. -/
def allows (c : Clear) (r : Role) (onNewLine : Bool) : Bool :=
  !(c.near && onNewLine) && !(c.operator && r.isOperator) && !(c.divide && r = .slashAssign) &&
    !(c.step && r.startsStep) && !(c.update && !onNewLine && r = .update)

/-- What is known where a phrase cannot be read. -/
def without (c : Clear) (p : Phrase) : Clear :=
  if p = binaryOperator true then { c with operator := true }
  else if p = mark .slashAssign then { c with divide := true }
  else if p = stepOpening then { c with step := true }
  else if p = .seq .sameLine (marks [.increment, .decrement]) then { c with update := true }
  else c

/-- Whether no more is known than elsewhere. -/
def le (c c' : Clear) : Bool :=
  (!c.operator || c'.operator) && (!c.divide || c'.divide) && (!c.step || c'.step) &&
    (!c.update || c'.update) && (!c.near || c'.near)

variable {c c' : Clear} {r : Role} {b : Bool}

theorem allows_nothing (r : Role) (b : Bool) : nothing.allows r b = true := rfl

theorem allows_of_le (h : c.le c' = true) (h' : c'.allows r b = true) : c.allows r b = true := by
  unfold le at h
  unfold allows at h' ⊢
  grind

end Clear

/-- A place: the outlook there, and what is known of the next token. -/
structure View where
  outlook : Outlook
  clear : Clear
  deriving DecidableEq, Repr

namespace View

def isNear (v : View) : Bool := v.clear.near

def without (v : View) (p : Phrase) : View := { v with clear := v.clear.without p }

/-- The same place with another frame, which has to be supported by the old one. -/
def turn (v : View) (f : Frame) (roles : List Role) (test : Role → Bool → Bool) : Option View :=
  if v.outlook.frame.supports f roles
        (fun r onNewLine => test r onNewLine && v.clear.allows r onNewLine) &&
      (!v.outlook.frame.expects.isStart || f.expects.isStart)
  then some { v with outlook := ⟨f, v.outlook.around⟩ }
  else none

variable {v w : View} {f : Frame} {roles : List Role} {test : Role → Bool → Bool}

theorem turn_eq_some (h : v.turn f roles test = some w) :
    v.outlook.frame.supports f roles
        (fun r onNewLine => test r onNewLine && v.clear.allows r onNewLine) = true ∧
      (v.outlook.frame.expects.isStart = true → f.expects.isStart = true) ∧
      w = { v with outlook := ⟨f, v.outlook.around⟩ } := by
  simp only [turn] at h
  split at h
  next hcheck =>
    simp only [Bool.and_eq_true, Bool.or_eq_true, Bool.not_eq_true'] at hcheck
    refine ⟨hcheck.1, fun hstart => ?_, (Option.some.inj h).symm⟩
    simpa [hstart] using hcheck.2
  · cases h

end View

/-! ## Lists of views -/

def merge (vs ws : List View) : List View := vs ++ ws.filter (· ∉ vs)

/-- The places behind all of some places. -/
def collect (behind : View → Option (List View)) : List View → Option (List View)
  | [] => some []
  | v :: vs =>
    match behind v, collect behind vs with
    | some us, some ws => some (merge us ws)
    | _, _ => none

/-- The places that can be reached step by step. -/
def closure (behind : View → Option (List View)) : (bound : Nat) → List View → Option (List View)
  | 0, _ => none
  | bound + 1, vs =>
    match collect behind vs with
    | none => none
    | some ws => if ws.all (· ∈ vs) then some vs else closure behind bound (merge vs ws)

section Lists

variable {behind : View → Option (List View)} {vs ws : List View} {v : View}

theorem mem_merge : v ∈ merge vs ws ↔ v ∈ vs ∨ v ∈ ws := by
  by_cases hv : v ∈ vs <;> simp [merge, hv]

theorem exists_of_collect (h : collect behind vs = some ws) (hv : v ∈ vs) :
    ∃ us, behind v = some us ∧ us ⊆ ws := by
  induction vs generalizing ws with
  | nil => cases hv
  | cons w vs ih =>
      simp only [collect] at h
      split at h
      next us more hus hmore =>
        obtain rfl := Option.some.inj h
        rcases List.mem_cons.1 hv with rfl | hv
        · exact ⟨us, hus, fun u hu => mem_merge.2 (.inl hu)⟩
        · rcases ih hmore hv with ⟨us', hus', hsub⟩
          exact ⟨us', hus', fun u hu => mem_merge.2 (.inr (hsub hu))⟩
      · cases h

/-- A list that is reached step by step has nothing behind it but itself. -/
theorem closure_eq_some {bound : Nat} (h : closure behind bound vs = some ws) :
    vs ⊆ ws ∧ ∀ v ∈ ws, ∃ us, behind v = some us ∧ us ⊆ ws := by
  induction bound generalizing vs with
  | zero => cases h
  | succ bound ih =>
      simp only [closure] at h
      split at h
      · cases h
      next us hus =>
        split at h
        next hall =>
          obtain rfl := Option.some.inj h
          refine ⟨fun v hv => hv, fun v hv => ?_⟩
          rcases exists_of_collect hus hv with ⟨us', hus', hsub⟩
          exact ⟨us', hus', fun u hu => by simpa using List.all_eq_true.1 hall u (hsub hu)⟩
        · rcases ih h with ⟨hsub, hclosed⟩
          exact ⟨fun v hv => hsub (mem_merge.2 (.inl hv)), hclosed⟩

end Lists

/-! ## Tokens -/

/-- The roles of the tokens of a class, if its tokens are taken as they are scanned without a goal.
A class of all words has no such list. -/
def Terminal.roles? : Terminal → Option (List Role)
  | .keyword k => some [k.role]
  | .punctuator p => some [p.role]
  | .identifier | .binding => some [.word, .of, .async]
  | .privateName => some [.privateName]
  | .number | .string => some [.literal]
  | .template .whole _ => some [.whole]
  | .template .head _ => some [.head]
  | _ => none

theorem Terminal.accept_of_roles? {t : Terminal} {rs : List Role} (h : t.roles? = some rs)
    (d : Dialect) (c : Cursor) :
    t.accept d c = if t.matchesKind d c.token.kind then some c.advance else none := by
  cases t with
  | regex | templateRest | openAngle | closeAngle => cases h
  | _ => rfl

theorem Terminal.role_of_matchesKind {t : Terminal} {rs : List Role} {k : Kind}
    (h : t.roles? = some rs) (hk : t.matchesKind .plain k = true) : k.role ∈ rs := by
  have hname : ∀ k : Keyword, Dialect.plain.admits k = true →
      k.role ∈ [Role.word, .of, .async] := by
    intro k
    cases k <;> decide
  cases t with
  | keyword | punctuator | privateName | number | string =>
      obtain rfl := Option.some.inj h
      cases k <;> simp_all [matchesKind, Kind.role]
  | identifier | binding =>
      obtain rfl := Option.some.inj h
      cases k with
      | keyword k =>
          simp only [matchesKind, Bool.and_eq_true] at hk
          exact hname k (by simp [hk])
      | _ => simp_all [matchesKind, Kind.role]
  | template part tagged =>
      cases part <;> cases h <;> cases k <;> simp_all [matchesKind, Kind.role]
      all_goals rw [← hk.1]
  | _ => cases h

theorem Terminal.isWord_of_matchesKind {k : Kind} (h : Terminal.word.matchesKind .plain k = true) :
    k.role.isWord = true := by
  have hkeyword : ∀ k : Keyword, k.role.isWord = true := by
    intro k
    cases k <;> rfl
  cases k with
  | name | escapedKeyword => rfl
  | keyword k => exact hkeyword k
  | _ => cases h

/-- Whether a token of a role is scanned with the goal that a frame sets. -/
def Frame.suits (f : Frame) (r : Role) (onNewLine : Bool) : Bool :=
  match r with
  | .regex => f.wantsOperand onNewLine
  | .slash | .slashAssign => !f.wantsOperand onNewLine
  | .braceClose => f.region ≠ .piece
  | .middle | .tail => f.region = .piece
  | _ => true

namespace Frame

variable {f : Frame} {t : Token} {b : Bool}

theorem goal_plain (h : f.suits t.kind.role t.onNewLine = true) : f.goal t = .plain := by
  unfold goal
  unfold suits at h
  split <;> simp_all

theorem goal_regex (ht : t.kind.role = .slash ∨ t.kind.role = .slashAssign)
    (h : f.suits .regex t.onNewLine = true) : f.goal t = .regex := by
  replace h : f.wantsOperand t.onNewLine = true := h
  rcases ht with ht | ht <;> simp [goal, ht, h]

theorem goal_templateRest (ht : t.kind.role = .braceClose)
    (h : f.suits .middle b = true ∨ f.suits .tail b = true) : f.goal t = .templateRest := by
  have hregion : f.region = .piece := by
    rcases h with h | h <;> simpa [suits] using h
  simp [goal, ht, hregion]

end Frame

namespace View

/-- Adds the place behind a token to others, if the token may stand there. -/
def insert (v : View) (r : Role) (onNewLine : Bool) (others : Option (List View)) :
    Option (List View) :=
  if !v.clear.allows r onNewLine then others
  else if !v.outlook.frame.suits r onNewLine then none
  else
    match v.outlook.after r onNewLine, others with
    | some o, some vs => o.forced fun o =>
      if ⟨o, .nothing⟩ ∈ vs then some vs else some (⟨o, .nothing⟩ :: vs)
    | _, _ => none

/-- The places behind a token that has one of some roles.  Where a line end ends nothing, it does
not count. -/
def take (v : View) : List Role → Option (List View)
  | [] => some []
  | r :: rs =>
    let behind := v.insert r true (v.take rs)
    if v.outlook.frame.expects.isLoose || !v.clear.allows r true then v.insert r false behind
    else behind

/-- The places behind a token of some class.  Any word is taken only where a member is named. -/
def accept (v : View) : Terminal → Option (List View)
  | .word =>
    if v.outlook.frame.expects = .name || v.outlook.frame.expects = .key then v.take [.word]
    else none
  | .regex => v.take [.regex]
  | .templateRest .middle _ => v.take [.middle]
  | .templateRest .tail _ => v.take [.tail]
  | t =>
    match t.roles? with
    | some rs => v.take rs
    | none => none

def sameLine (v : View) : Option (List View) :=
  let near : View := { v with clear := { v.clear with near := true } }
  match v.outlook.frame.expects with
  | .statement | .operand => none
  | .value =>
    (near.turn { v.outlook.frame with expects := .operand } Role.all fun _ _ => true).map ([·])
  | _ => some [near]

variable {v : View} {r : Role} {b : Bool} {rs : List Role} {us vs : List View}
  {others : Option (List View)}

/-- Where a line end ends nothing, it does not count. -/
theorem line_of_not_isLoose {o : Outlook} (h : o.frame.expects.isLoose = false) (r : Role)
    (b b' : Bool) : o.after r b = o.after r b' ∧ o.frame.suits r b = o.frame.suits r b' := by
  have hsettle := Frame.settle_of_not_isLoose h
  constructor
  · rw [Outlook.after, Outlook.after, Frame.after, Frame.after, hsettle r b b']
  · unfold Frame.suits Frame.wantsOperand
    split <;> simp only [hsettle .slash b b']

/-- A token is foreseen, and some views hold the place behind it. -/
def Holds (v : View) (r : Role) (b : Bool) (vs : List View) : Prop :=
  v.outlook.frame.suits r b = true ∧ ∃ o, v.outlook.after r b = some o ∧ ⟨o, .nothing⟩ ∈ vs

theorem Holds.mono (h : v.Holds r b vs) (hsub : vs ⊆ us) : v.Holds r b us := by
  rcases h with ⟨hsuits, o, hafter, ho⟩
  exact ⟨hsuits, o, hafter, hsub ho⟩

theorem insert_eq_some (h : v.insert r b others = some us) :
    (∃ vs, others = some vs ∧ vs ⊆ us) ∧ (v.clear.allows r b = true → v.Holds r b us) := by
  simp only [insert] at h
  split at h
  next hallows =>
    refine ⟨⟨us, h, fun u hu => hu⟩, fun hallowed => ?_⟩
    simp [hallowed] at hallows
  · split at h
    · cases h
    next hsuits =>
      split at h
      case h_1 o vs hafter =>
        rw [Outlook.forced_eq] at h
        have hholds : ∀ {us}, ⟨o, .nothing⟩ ∈ us → v.Holds r b us :=
          fun ho => ⟨by simpa using hsuits, o, hafter, ho⟩
        split at h
        next hmem =>
          obtain rfl := Option.some.inj h
          exact ⟨⟨vs, rfl, fun u hu => hu⟩, fun _ => hholds hmem⟩
        · obtain rfl := Option.some.inj h
          exact ⟨⟨vs, rfl, fun u hu => List.mem_cons_of_mem _ hu⟩, fun _ => hholds (by simp)⟩
      · cases h

theorem holds_of_take (h : v.take rs = some us) (hr : r ∈ rs)
    (hallows : v.clear.allows r b = true) : v.Holds r b us := by
  induction rs generalizing us with
  | nil => cases hr
  | cons s rs ih =>
      -- The views behind the token on a line of its own are among those behind it.
      have hboth : ∃ ws, v.insert s true (v.take rs) = some ws ∧ ws ⊆ us ∧
          (v.outlook.frame.expects.isLoose = true ∨ v.clear.allows s true = false →
            v.clear.allows s false = true → v.Holds s false us) := by
        simp only [take] at h
        split at h
        next hcheck =>
          rcases insert_eq_some h with ⟨⟨ws, hws, hsub⟩, hholds⟩
          exact ⟨ws, hws, hsub, fun _ => hholds⟩
        next hcheck =>
          simp only [Bool.or_eq_true, Bool.not_eq_true'] at hcheck
          exact ⟨us, h, fun u hu => hu, fun hnot => absurd hnot hcheck⟩
      rcases hboth with ⟨ws, hws, hsub, hnear⟩
      rcases insert_eq_some hws with ⟨⟨more, hmore, hsub'⟩, hfar⟩
      rcases List.mem_cons.1 hr with rfl | hr
      · cases b with
        | true => exact (hfar hallows).mono hsub
        | false =>
            by_cases hloose : v.outlook.frame.expects.isLoose = true ∨ v.clear.allows r true = false
            · exact hnear hloose hallows
            · simp only [not_or, Bool.not_eq_true, Bool.not_eq_false] at hloose
              rcases line_of_not_isLoose hloose.1 r true false with ⟨hafter, hsuits⟩
              rcases (hfar hloose.2).mono hsub with ⟨hsuits', o, hafter', ho⟩
              exact ⟨hsuits ▸ hsuits', o, hafter ▸ hafter', ho⟩
      · exact ((ih hmore hr).mono hsub').mono hsub

end View

namespace Phrase

def addRole (r : Role) (rs : List Role) : List Role := if r ∈ rs then rs else r :: rs

/-- The roles of the token that a phrase reads, if it reads one and looks at no other. -/
def roles? : Phrase → Option (List Role)
  | .token t => t.roles?
  | .either p q =>
    match p.roles?, q.roles? with
    | some rs, some ss => some (rs.foldr addRole ss)
    | _, _ => none
  | .absent .empty => some []
  | _ => none

variable {p : Phrase} {rs : List Role} {k : Kind} {bound : Nat} {readRule : Rule → Cursor → Reading}

/-- Whether a phrase that reads one token at most reads one of a kind. -/
def takes : Phrase → Kind → Bool
  | .token t, k => t.matchesKind .plain k
  | .either p q, k => p.takes k || q.takes k
  | _, _ => false

theorem roles?_either {p q : Phrase} (h : (either p q).roles? = some rs) :
    ∃ ps qs, p.roles? = some ps ∧ q.roles? = some qs ∧ rs = ps.foldr addRole qs := by
  simp only [roles?] at h
  split at h
  next ps qs hp hq => exact ⟨ps, qs, hp, hq, (Option.some.inj h).symm⟩
  · cases h

theorem mem_foldr_addRole {r : Role} {ps qs : List Role} :
    r ∈ ps.foldr addRole qs ↔ r ∈ ps ∨ r ∈ qs := by
  have hadd : ∀ {s : Role} {l : List Role}, r ∈ addRole s l ↔ r = s ∨ r ∈ l := by
    intro s l
    unfold addRole
    split
    next hmem =>
      constructor
      · exact .inr
      · rintro (rfl | h)
        · exact hmem
        · exact h
    · exact List.mem_cons
  induction ps with
  | nil => simp
  | cons s ps ih => simp only [List.foldr_cons, hadd, ih, List.mem_cons, or_assoc]

/-- Such a phrase looks at the kind of the next token and at nothing else. -/
theorem read_of_roles? (h : p.roles? = some rs) (c : Cursor) :
    p.read .plain bound readRule c =
      if p.takes c.token.kind then some c.advance else none := by
  induction p generalizing rs with
  | token t => exact Terminal.accept_of_roles? h .plain c
  | either p q ihp ihq =>
      rcases roles?_either h with ⟨ps, qs, hp, hq, -⟩
      rw [read, ihp hp, ihq hq, takes]
      cases p.takes c.token.kind <;> simp
  | absent p =>
      cases p with
      | empty => rfl
      | _ => cases h
  | _ => cases h

theorem role_of_takes (h : p.roles? = some rs) (hk : p.takes k = true) : k.role ∈ rs := by
  induction p generalizing rs with
  | token t => exact Terminal.role_of_matchesKind h hk
  | either p q ihp ihq =>
      rcases roles?_either h with ⟨ps, qs, hp, hq, rfl⟩
      rcases (Bool.or_eq_true _ _).mp hk with hk | hk
      · exact mem_foldr_addRole.2 (.inl (ihp hp hk))
      · exact mem_foldr_addRole.2 (.inr (ihq hq hk))
  | _ => cases hk

theorem valid_of_takes (h : p.roles? = some rs) (hk : p.takes k = true) :
    k ≠ .invalid ∧ k ≠ .endOfText := by
  induction p generalizing rs with
  | token t =>
      refine Terminal.valid_of_matchesKind hk ?_
      rintro rfl
      cases h
  | either p q ihp ihq =>
      rcases roles?_either h with ⟨ps, qs, hp, hq, rfl⟩
      rcases (Bool.or_eq_true _ _).mp hk with hk | hk
      · exact ihp hp hk
      · exact ihq hq hk
  | _ => cases hk

/-- What begins no expression at the start of a statement. -/
def declarationStart : Phrase :=
  oneOf [mark .braceOpen, word .function, word .class, asyncFunction]

/-- Rules that cannot be read in front of a closing brace. -/
def shunning : List Rule :=
  [true, false].flatMap (fun flag => [.expression flag, .assignment flag, .arrow flag,
    .parameters flag, .template flag]) ++
  [.operand, .unary, .leftHandSide, .newCallee, .primary, .functionExpression, .classExpression,
    .array, .object, .key]

/-- Whether a phrase cannot be read in front of a closing brace. -/
def shuns : Phrase → Bool
  | .token (.punctuator p) => p ≠ .braceClose
  | .token (.templateRest _ _) => false
  | .token _ => true
  | .seq p q => p.shuns || (p = .empty && q.shuns)
  | .either p q => p.shuns && q.shuns
  | .absent p => p = .empty
  | .notBefore p _ => p.shuns
  | .node _ p => p.shuns
  | .suffixed _ p _ => p.shuns
  | .rule r => r ∈ shunning
  | _ => false

/-- Whether a phrase looks at the kind of the next token and at nothing else. -/
def looksAhead : Phrase → Bool
  | .absent p => p.roles?.isSome
  | p => p.roles?.isSome

/-- The place where a phrase cannot be read. -/
def whereAbsent (v : View) : Phrase → Option View
  | .absent (.token (.punctuator m)) => v.turn v.outlook.frame.anew [m.role] fun _ _ => true
  | .absent (.token (.keyword .in)) =>
    some { v with clear := { v.clear with step := true, update := true } }
  | p =>
    if p = declarationStart && v.outlook.frame = ⟨.statement, .statements, false⟩ then
      some { v with outlook := ⟨⟨.operand, .statements, false⟩, v.outlook.around⟩ }
    else if p = mark .braceOpen && v.outlook.frame.expects = .arrowBody then
      v.turn { v.outlook.frame with expects := .operand } Role.all fun r _ => r ≠ .braceOpen
    else some (v.without p)

/-- The same, if it is foreseen whether the phrase can be read; `behind` are the places behind
it. -/
def forecastAbsent (v : View) (behind : Option (List View)) (p : Phrase) : Option (List View) :=
  if p = .empty then some []
  else if p.looksAhead then (whereAbsent v p).map ([·])
  else
    match behind with
    | some ws => if ws.any View.isNear then none else (whereAbsent v p).map ([·])
    | none => none

/-- The place behind a statement that needs no semicolon. -/
def forecastEnd (v : View) : Option (List View) :=
  if (v.outlook.frame.region = .statements || v.outlook.frame.region = .members) &&
      !v.outlook.frame.expects.isStart
  then (v.turn v.outlook.frame.anew Role.all fun r onNewLine =>
    r = .semicolon || r = .braceClose || r = .none || onNewLine).map
      fun w => [{ w with clear := .nothing }]
  else none

/-- The places behind a phrase, if all that it asks for is foreseen.  A phrase that ends by asking
whether the next token stands on the same line is followed by one that reads no closing brace. -/
def forecast (rules : Rule → View → Option (List View)) : Phrase → View → Option (List View)
  | .empty, v => some [v]
  | .token t, v => v.accept t
  | .sameLine, v => v.sameLine
  | .seq p q, v =>
    match p.forecast rules v with
    | none => none
    | some ws => if ws.any View.isNear && !q.shuns then none else collect (q.forecast rules) ws
  | .either p q, v =>
    if .either p q = statementEnd then forecastEnd v
    else match (either p q).roles? with
      | some rs => v.take rs
      | none =>
        match p.forecast rules v, q.forecast rules (v.without p) with
        | some vs, some ws => if vs.any View.isNear then none else some (merge vs ws)
        | _, _ => none
  | .optional p, v =>
    match p.forecast rules v with
    | some vs => if vs.any View.isNear then none else some (merge vs [v.without p])
    | none => none
  | .many p, v =>
    match closure (p.forecast rules) 4 [v] with
    | some vs => if vs.any View.isNear then none else some vs
    | none => none
  | .absent p, v => forecastAbsent v (p.forecast rules v) p
  | .notBefore p q, v =>
    match p.forecast rules v with
    | some vs =>
      if vs.any View.isNear || q.roles?.isNone then none else some (vs.map (·.without q))
    | none => none
  | .node _ p, v => p.forecast rules v
  | .suffixed _ p q, v =>
    match p.forecast rules v with
    | some vs =>
      match collect (q.forecast rules) vs with
      | some ws =>
        if (vs ++ ws).any View.isNear then none else some (merge (vs.map (·.without q)) ws)
      | none => none
    | none => none
  | .rule r, v => rules r v

end Phrase

/-! ## What cannot come next -/

namespace Clear

variable {c : Clear} {p : Phrase} {bound : Nat} {readRule : Rule → Cursor → Reading} {x : Cursor}
  {k : Kind}

/-- A phrase takes all kinds of some roles if it takes the words, the marks and the pieces of
templates among them. -/
theorem takes_of_role (test : Role → Bool)
    (hword : ∀ w : Keyword, test w.role = true → p.takes (.keyword w) = true)
    (hmark : ∀ m : Punctuator, test m.role = true → p.takes (.punctuator m) = true)
    (hpiece : ∀ part sound, test (Kind.template part sound).role = true →
      p.takes (.template part sound) = true)
    (hother : ∀ r ∈ [Role.word, .privateName, .literal, .regex, .none], test r = false)
    (h : test k.role = true) : p.takes k = true := by
  cases k with
  | keyword w => exact hword w h
  | punctuator m => exact hmark m h
  | template part sound => exact hpiece part sound h
  | _ => exact absurd (h.symm.trans (hother _ (by simp [Kind.role]))) (by simp)

theorem takes_binaryOperator (h : k.role.isOperator = true) :
    (binaryOperator true).takes k = true := by
  refine takes_of_role Role.isOperator (fun w => ?_) (fun m => ?_) (fun part sound => ?_)
    (by decide) h
  · cases w <;> decide
  · cases m <;> decide
  · cases part <;> simp [Kind.role, Role.isOperator]

theorem takes_stepOpening (h : k.role.startsStep = true) : stepOpening.takes k = true := by
  refine takes_of_role Role.startsStep (fun w => ?_) (fun m => ?_) (fun part sound => ?_)
    (by decide) h
  · cases w <;> decide
  · cases m <;> decide
  · cases part <;> cases sound <;> decide

/-- The phrase of the tokens of a role, for some roles. -/
def phraseOf : Role → Phrase
  | .braceOpen => mark .braceOpen
  | .function => word .function
  | .class => word .class
  | .async => word .async
  | .slashAssign => mark .slashAssign
  | .update => marks [.increment, .decrement]
  | _ => .empty

theorem takes_phraseOf {r : Role} (h : k.role = r) (hr : phraseOf r ≠ .empty) :
    (phraseOf r).takes k = true := by
  have hall : ∀ r, phraseOf r ≠ .empty →
      (∀ w : Keyword, decide (w.role = r) = true → (phraseOf r).takes (.keyword w) = true) ∧
        (∀ m : Punctuator, decide (m.role = r) = true →
          (phraseOf r).takes (.punctuator m) = true) ∧
        ∀ r' ∈ [Role.word, .privateName, .literal, .regex, .none] ++
          [.whole, .head, .middle, .tail], decide (r' = r) = false := by
    intro r hr
    cases r with
    | braceOpen | function | «class» | async | slashAssign | update =>
        refine ⟨fun w => ?_, fun m => ?_, by decide⟩
        · cases w <;> decide
        · cases m <;> decide
    | _ => exact absurd rfl hr
  rcases hall r hr with ⟨hword, hmark, hother⟩
  refine takes_of_role (fun r' => r' = r) hword hmark (fun part sound hpiece => ?_)
    (fun r' hr' => hother r' (List.mem_append_left _ hr'))
    (by simpa using h)
  exact absurd (hpiece.symm.trans (hother _ (by cases part <;> simp [Kind.role]))) (by simp)

/-- Where a phrase cannot be read, the next token is none with which it begins. -/
theorem allows_without (h : c.allows x.token.kind.role x.token.onNewLine = true)
    (hread : p.read .plain bound readRule x = none) :
    (c.without p).allows x.token.kind.role x.token.onNewLine = true := by
  have hnot : ∀ {q : Phrase} {rs : List Role}, q.roles? = some rs →
      q.read .plain bound readRule x = none → ¬ q.takes x.token.kind = true := by
    intro q rs hq hnone htakes
    rw [read_of_roles? hq, htakes] at hnone
    cases hnone
  unfold without
  split
  next hp =>
    have hrole := mt takes_binaryOperator (hnot rfl (hp ▸ hread))
    unfold allows at h ⊢
    grind
  split
  next hp =>
    have htakes : (mark .slashAssign).takes x.token.kind ≠ true := hnot rfl (hp ▸ hread)
    have hrole : x.token.kind.role ≠ .slashAssign := fun hrole =>
      htakes (takes_phraseOf hrole (by decide))
    unfold allows at h ⊢
    grind
  split
  next hp =>
    have hrole := mt takes_stepOpening (hnot rfl (hp ▸ hread))
    unfold allows at h ⊢
    grind
  split
  next hp =>
    have hrole : x.token.onNewLine = false → x.token.kind.role ≠ .update := by
      intro hline hrole
      have htakes : (marks [.increment, .decrement]).takes x.token.kind = true :=
        takes_phraseOf hrole (by decide)
      refine hnot rfl ?_ htakes
      cases hmarks : (marks [.increment, .decrement]).read .plain bound readRule x with
      | none => rfl
      | some r => simp [hp, Phrase.read, hline, hmarks] at hread
    unfold allows at h ⊢
    grind
  exact h

end Clear

end Script
end ProcedureGen
