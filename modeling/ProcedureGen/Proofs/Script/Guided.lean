import ProcedureGen.Proofs.Script.EarlyError
import ProcedureGen.Proofs.Script.Foreseen

/-!
# Readings side by side

Two texts are read alike as long as the tokens that are foreseen are alike in both.

* `Guided`: pairs of places from which the same tokens follow;
* `Stands`: two places that a view describes;
* `Outcome`: what reading at such places may give;
* `Phrase.read_guided`, `Grammar.read_guided`: phrases and rules are read alike.
-/

namespace ProcedureGen
namespace Script

open Phrase Grammar

/-! ## Places side by side -/

/-- A token begins a line in the second text where it does in the first one; a closing brace may do
so in the second one alone. -/
def OnLine (x x' : Text) : Prop :=
  (Token.scan x').1.onNewLine = (Token.scan x).1.onNewLine ∨
    (Token.scan x).1.kind = .punctuator .braceClose ∧ (Token.scan x').1.onNewLine = true

/-- The tokens at two places are alike, and behind them stand two such places again. -/
structure Guided (S : Outlook → Text → Text → Prop) : Prop where
  kind : ∀ {o x x'}, S o x x' → (Token.scan x').1.kind = (Token.scan x).1.kind
  stuck : ∀ {o x x'}, S o x x' → o.scan x = none →
    (o.frame.goal (Token.scan x).1).scan x' = none
  scan : ∀ {o x x' t y}, S o x x' → o.scan x = some (t, y) →
    ∃ t' y', (o.frame.goal (Token.scan x).1).scan x' = some (t', y') ∧
      t'.essence = t.essence ∧ ∀ o', o.advance t = some o' → S o' y y' ∧ OnLine y y'

/-- Two places that a view describes. -/
structure Stands (S : Outlook → Text → Text → Prop) (base : List Frame) (v : View)
    (x x' : Text) : Prop where
  supported : ∃ o, S o x x' ∧ o.Supports (v.outlook.onBase base) x
  line : OnLine x x' ∨ v.outlook.frame.expects.isStart = true
  clear : v.clear.allows (Token.scan x).1.kind.role (Token.scan x).1.onNewLine = true

/-- What reading gives at two such places: trees that are alike, and such places behind them; or
nothing.  In front of a closing brace only the first text may have it on the same line. -/
inductive Outcome (S : Outlook → Text → Text → Prop) (base : List Frame) (vs : List View) :
    Reading → Reading → Prop where
  | neither : Outcome S base vs none none
  | both {v : View} {t t' : Tree} {x x' : Text} (mem : v ∈ vs) (stands : Stands S base v x x')
      (same : t'.map Token.essence = t.map Token.essence) :
      Outcome S base vs (some (t, .ofText x)) (some (t', .ofText x'))
  | first {v : View} {t : Tree} {x : Text} (mem : v ∈ vs) (near : v.isNear = true)
      (closes : (Token.scan x).1.kind = .punctuator .braceClose) :
      Outcome S base vs (some (t, .ofText x)) none

/-- What is read at places that some views describe leads to the places that are foreseen. -/
def Foresees (S : Outlook → Text → Text → Prop) (behind : View → Option (List View))
    (read : Cursor → Reading) : Prop :=
  ∀ {base v vs x x'}, behind v = some vs → Stands S base v x x' →
    Outcome S base vs (read (.ofText x)) (read (.ofText x'))

/-- Nothing is read in front of a closing brace. -/
def Shuns (read : Cursor → Reading) : Prop :=
  ∀ {x}, (Token.scan x).1.kind = .punctuator .braceClose → read (.ofText x) = none

variable {S : Outlook → Text → Text → Prop} {base : List Frame} {v w : View} {vs ws : List View}
  {x x' y : Text} {r r' : Reading}

theorem Outcome.mono (h : Outcome S base vs r r') (hsub : vs ⊆ ws) : Outcome S base ws r r' := by
  cases h with
  | neither => exact .neither
  | both mem stands same => exact .both (hsub mem) stands same
  | first mem near closes => exact .first (hsub mem) near closes

/-- Where no place is near, both texts can be read or neither. -/
theorem Outcome.none_iff (h : Outcome S base vs r r') (hnear : ∀ v ∈ vs, v.isNear = false) :
    r = none ↔ r' = none := by
  cases h with
  | neither => simp
  | both => simp
  | first mem near => exact absurd ((hnear _ mem).symm.trans near) (by simp)

theorem Phrase.read_mark {bound : Nat} {readRule : Rule → Cursor → Reading} (m : Punctuator)
    (c : Cursor) :
    (mark m).read .plain bound readRule c =
      if c.token.kind = .punctuator m then some c.advance else none := by
  have haccept : (mark m).read .plain bound readRule c =
      if Terminal.matchesKind .plain (.punctuator m) c.token.kind then some c.advance
      else none := rfl
  rw [haccept]
  cases c.token.kind <;> simp [Terminal.matchesKind, eq_comm]

/-- The end of a statement: a semicolon, or nothing in front of a closing brace, the end of the text
or a line end. -/
theorem Phrase.read_statementEnd {bound : Nat} {readRule : Rule → Cursor → Reading} (c : Cursor) :
    Grammar.statementEnd.read .plain bound readRule c =
      if c.token.kind = .punctuator .semicolon then some c.advance
      else if c.token.kind = .punctuator .braceClose ∨ c.token.kind = .endOfText ∨
          c.token.onNewLine = true then some (.empty, c)
      else none := by
  have hend : Terminal.endOfText.accept .plain c =
      if c.token.kind = .endOfText then some c.advance else none := by
    have haccept : Terminal.endOfText.accept .plain c =
        if Terminal.matchesKind .plain .endOfText c.token.kind then some c.advance else none := rfl
    rw [haccept]
    cases c.token.kind <;> simp [Terminal.matchesKind]
  simp only [Grammar.statementEnd, oneOf, ahead, Phrase.read, read_mark, hend]
  by_cases hsemicolon : c.token.kind = .punctuator .semicolon
  · simp [hsemicolon]
  by_cases hbrace : c.token.kind = .punctuator .braceClose
  · simp [hbrace]
  by_cases htext : c.token.kind = .endOfText
  · simp [htext]
  cases c.token.onNewLine <;> simp [hsemicolon, hbrace, htext]

theorem Frame.after_semicolon_anew {f : Frame} (h : f.region = .statements ∨ f.region = .members)
    (b : Bool) : f.anew.after .semicolon b = some (.stay f.anew) := by
  unfold anew
  rcases h with h | h <;> rw [h] <;> rfl

theorem Phrase.read_either_eq_none {p q : Phrase} {bound : Nat}
    {readRule : Rule → Cursor → Reading} {c : Cursor} :
    (either p q).read .plain bound readRule c = none ↔
      p.read .plain bound readRule c = none ∧ q.read .plain bound readRule c = none := by
  simp only [read]
  cases p.read .plain bound readRule c <;> simp

/-- Where the phrase of a role cannot be read, the next token has another role. -/
theorem Phrase.role_ne_of_read {bound : Nat} {readRule : Rule → Cursor → Reading} {r : Role}
    {rs : List Role} (hroles : (Clear.phraseOf r).roles? = some rs)
    (h : (Clear.phraseOf r).read .plain bound readRule (.ofText x) = none)
    (hr : Clear.phraseOf r ≠ .empty) : (Token.scan x).1.kind.role ≠ r := by
  intro hrole
  have htakes : (Clear.phraseOf r).takes (Cursor.ofText x).token.kind = true :=
    Clear.takes_phraseOf hrole hr
  rw [read_of_roles? hroles, htakes] at h
  cases h

/-- Where it cannot be absent, the next token is one of its tokens. -/
theorem Phrase.role_of_absent {q : Phrase} {bound : Nat} {readRule : Rule → Cursor → Reading}
    {rs : List Role} (hroles : q.roles? = some rs)
    (h : (absent q).read .plain bound readRule (.ofText x) = none) :
    (Token.scan x).1.kind.role ∈ rs := by
  refine role_of_takes hroles ?_
  by_contra hnot
  have hread : q.read .plain bound readRule (.ofText x) = none := by
    rw [read_of_roles? hroles]
    exact if_neg hnot
  have hsome := read_absent_iff.2 ⟨hread, rfl, rfl⟩
  exact absurd (h.symm.trans hsome) (by simp)

/-- A word `async` that begins no function has no word `function` behind it on its line. -/
theorem Phrase.behind_async {bound : Nat} {readRule : Rule → Cursor → Reading}
    (hrole : (Token.scan x).1.kind.role = .async)
    (h : asyncFunction.read .plain bound readRule (.ofText x) = none) :
    (Token.scan (Token.scan x).2).1.kind.role ≠ .function ∨
      (Token.scan (Token.scan x).2).1.onNewLine = true := by
  have hword : (word .async).read .plain bound readRule (.ofText x) =
      some (Cursor.ofText x).advance := by
    have htakes : (word .async).takes (Cursor.ofText x).token.kind = true :=
      Clear.takes_phraseOf hrole (by decide)
    rw [read_of_roles? rfl, htakes]
    rfl
  by_contra hboth
  simp only [not_or, ne_eq, not_not, Bool.not_eq_true] at hboth
  have hsecond : (word .function).read .plain bound readRule (.ofText (Token.scan x).2) = none := by
    rw [Option.eq_none_iff_forall_ne_some]
    rintro ⟨t, c⟩ hread
    have hline : Phrase.sameLine.read .plain bound readRule (.ofText (Token.scan x).2) =
        some (.empty, .ofText (Token.scan x).2) := read_sameLine_iff.2 ⟨hboth.2, rfl, rfl⟩
    have hbehind := read_seq_iff.2 ⟨_, _, _, hline, hread, rfl⟩
    have hall := read_seq_iff.2 ⟨_, _, _, hword, hbehind, rfl⟩
    exact absurd (h.symm.trans hall) (by simp)
  exact role_ne_of_read (r := .function) rfl hsecond (by decide) hboth.1

/-- Such a word goes on as an operand does. -/
theorem Outlook.supports_of_async (hrole : (Token.scan x).1.kind.role = .async)
    (hnext : (Token.scan (Token.scan x).2).1.kind.role ≠ .function ∨
      (Token.scan (Token.scan x).2).1.onNewLine = true) (around : List Frame) :
    Supports ⟨⟨.statement, .statements, false⟩, around⟩
      ⟨⟨.operand, .statements, false⟩, around⟩ x := by
  have hgoal : ∀ f : Frame, f.goal (Token.scan x).1 = .plain := by
    intro f
    unfold Frame.goal
    rw [hrole]
  have hscan : ∀ {f : Frame} {t y}, Outlook.scan ⟨f, around⟩ x = some (t, y) →
      t = (Token.scan x).1 ∧ y = (Token.scan x).2 := by
    intro f t y hscan
    rw [Outlook.scan, hgoal] at hscan
    have heq := (Goal.scan_plain.1 hscan).1
    exact ⟨by rw [heq], by rw [heq]⟩
  refine .step rfl rfl (by rw [hgoal, hgoal]) (fun t y h _ => ?_) fun t y o' a' h ho ha => ?_
  · obtain ⟨rfl, -⟩ := hscan h
    rw [advance, hrole]
    rfl
  · obtain ⟨rfl, rfl⟩ := hscan h
    rw [advance, hrole] at ho ha
    obtain rfl := Option.some.inj ho
    obtain rfl := Option.some.inj ha
    have hcheck : Frame.supports ⟨.asyncStatement, .statements, false⟩
        ⟨.operator, .statements, false⟩ Role.all (fun r onNewLine => r ≠ .function || onNewLine) =
          true := by
      decide +kernel
    exact supports_of_frame hcheck (Role.mem_all _) (by simpa using hnext) around

/-- What begins no declaration and no block goes on as an expression does. -/
theorem Outlook.supports_of_declarationStart {bound : Nat} {readRule : Rule → Cursor → Reading}
    (h : declarationStart.read .plain bound readRule (.ofText x) = none) (around : List Frame) :
    Supports ⟨⟨.statement, .statements, false⟩, around⟩
      ⟨⟨.operand, .statements, false⟩, around⟩ x := by
  simp only [declarationStart, oneOf, read_either_eq_none] at h
  rcases h with ⟨hbrace, hfunction, hclass, hasync⟩
  have hbrace' : (Token.scan x).1.kind.role ≠ .braceOpen := role_ne_of_read rfl hbrace (by decide)
  have hfunction' : (Token.scan x).1.kind.role ≠ .function :=
    role_ne_of_read rfl hfunction (by decide)
  have hclass' : (Token.scan x).1.kind.role ≠ .class := role_ne_of_read rfl hclass (by decide)
  by_cases hrole : (Token.scan x).1.kind.role = .async
  -- Only an asynchronous function would have to stand on the same line.
  · exact supports_of_async hrole (behind_async hrole hasync) around
  · have hcheck : Frame.supports ⟨.statement, .statements, false⟩ ⟨.operand, .statements, false⟩
        Role.all (fun r _ => r ∉ [.async, .braceOpen, .function, .class]) = true := by
      decide +kernel
    exact supports_of_frame hcheck (Role.mem_all _) (by simp [*]) around

namespace Stands

variable {p : Phrase} {bound : Nat} {readRule : Rule → Cursor → Reading}
  {f : Frame} {roles : List Role} {test : Role → Bool → Bool} {t : Token} {o : Outlook}

/-- The tokens at both places are of one kind. -/
theorem kind (h : Stands S base v x x') (hS : Guided S) :
    (Token.scan x').1.kind = (Token.scan x).1.kind := by
  rcases h.supported with ⟨o, ho, -⟩
  exact hS.kind ho

theorem without (h : Stands S base v x x')
    (hread : p.read .plain bound readRule (.ofText x) = none) :
    Stands S base (v.without p) x x' :=
  ⟨h.supported, h.line, Clear.allows_without h.clear hread⟩

/-- A frame may be taken for another one that it supports. -/
theorem turn (h : Stands S base v x x') (hturn : v.turn f roles test = some w)
    (hrole : (Token.scan x).1.kind.role ∈ roles)
    (htest : test (Token.scan x).1.kind.role (Token.scan x).1.onNewLine = true) :
    Stands S base w x x' := by
  rcases View.turn_eq_some hturn with ⟨hsupports, hstart, rfl⟩
  rcases h.supported with ⟨o, ho, hsupported⟩
  have hframe := Outlook.supports_of_frame hsupports hrole (by simp [htest, h.clear])
    (v.outlook.around ++ base)
  exact ⟨⟨o, ho, hsupported.trans hframe⟩, h.line.imp_right hstart, h.clear⟩

/-- Where no token is scanned in the first text, none is scanned in the second one. -/
theorem stuck (h : Stands S base v x x') (hS : Guided S)
    (hscan : (v.outlook.frame.goal (Token.scan x).1).scan x = none) :
    (v.outlook.frame.goal (Token.scan x).1).scan x' = none := by
  rcases h.supported with ⟨o, ho, hsupports⟩
  have hgoal := hsupports.goal_eq
  have hnone := hS.stuck ho (hsupports.scan_eq.trans hscan)
  rwa [hgoal] at hnone

/-- A token is scanned in both texts, and if it is foreseen, the places behind it are as well. -/
theorem step (h : Stands S base v x x') (hS : Guided S)
    (hscan : (v.outlook.frame.goal (Token.scan x).1).scan x = some (t, y)) :
    ∃ t' y', (v.outlook.frame.goal (Token.scan x).1).scan x' = some (t', y') ∧
      t'.essence = t.essence ∧ ∀ o, v.outlook.after t.kind.role t.onNewLine = some o →
        Stands S base ⟨o, .nothing⟩ y y' := by
  rcases h.supported with ⟨o₀, ho, hsupports⟩
  have hgoal := hsupports.goal_eq
  rcases hS.scan ho (hsupports.scan_eq.trans hscan) with ⟨t', y', hscan', hsame, hbehind⟩
  rw [hgoal] at hscan'
  refine ⟨t', y', hscan', hsame, fun o hafter => ?_⟩
  rcases hsupports.advance hscan (Outlook.after_onBase hafter base) with ⟨o₁, ho₁, hsupports'⟩
  rcases hbehind o₁ ho₁ with ⟨hS', hline⟩
  exact ⟨⟨o₁, hS', hsupports'⟩, .inl hline, Clear.allows_nothing _ _⟩

/-! ### Tokens -/

/-- A token that is taken as it is scanned without a goal. -/
theorem advance (h : Stands S base v x x') (hS : Guided S)
    (hvalid : (Token.scan x).1.kind ≠ .invalid ∧ (Token.scan x).1.kind ≠ .endOfText)
    (hholds : v.Holds (Token.scan x).1.kind.role (Token.scan x).1.onNewLine vs) :
    Outcome S base vs (some (Cursor.ofText x).advance) (some (Cursor.ofText x').advance) := by
  rcases hholds with ⟨hsuits, o, hafter, hmem⟩
  have hgoal := Frame.goal_plain hsuits
  have hscan : Goal.scan .plain x = some ((Token.scan x).1, (Token.scan x).2) :=
    Goal.scan_plain.2 ⟨rfl, hvalid⟩
  rcases h.step hS (hgoal ▸ hscan) with ⟨t', y', hscan', hsame, hbehind⟩
  rw [hgoal] at hscan'
  have hadvance : (Cursor.ofText x').advance = (.leaf t', .ofText y') := by
    have heq := (Goal.scan_plain.1 hscan').1
    simp [Cursor.advance, Cursor.take, Cursor.ofText, heq]
  rw [hadvance]
  exact .both hmem (hbehind o hafter) (congrArg Tree.leaf hsame)

theorem peek {rs : List Role} (h : Stands S base v x x') (hS : Guided S)
    (hp : p.roles? = some rs) (htake : v.take rs = some vs) :
    Outcome S base vs (p.read .plain bound readRule (.ofText x))
      (p.read .plain bound readRule (.ofText x')) := by
  have hkind : (Cursor.ofText x').token.kind = (Cursor.ofText x).token.kind := h.kind hS
  rw [read_of_roles? hp, read_of_roles? hp, hkind]
  split
  next htakes =>
    exact h.advance hS (valid_of_takes hp htakes)
      (View.holds_of_take htake (role_of_takes hp htakes) h.clear)
  next => exact .neither

/-- A word where a member is named. -/
theorem word (h : Stands S base v x x') (hS : Guided S)
    (hexpects : v.outlook.frame.expects = .name ∨ v.outlook.frame.expects = .key)
    (htake : v.take [.word] = some vs) :
    Outcome S base vs (Terminal.word.accept .plain (.ofText x))
      (Terminal.word.accept .plain (.ofText x')) := by
  have haccept : ∀ c, Terminal.word.accept .plain c =
      if Terminal.word.matchesKind .plain c.token.kind then some c.advance else none := fun _ => rfl
  have hkind : (Cursor.ofText x').token.kind = (Cursor.ofText x).token.kind := h.kind hS
  rw [haccept, haccept, hkind]
  split
  next hmatches =>
    have hword : (Token.scan x).1.kind.role.isWord = true :=
      Terminal.isWord_of_matchesKind hmatches
    have hclear := h.clear
    have hallows : v.clear.allows .word (Token.scan x).1.onNewLine = true := by
      unfold Clear.allows at hclear ⊢
      simp_all [Role.isOperator, Role.startsStep]
    rcases View.holds_of_take htake (List.mem_singleton_self _) hallows with ⟨-, o, hafter, hmem⟩
    refine h.advance hS (Terminal.valid_of_matchesKind hmatches (by simp)) ⟨?_, o, ?_, hmem⟩
    · unfold Frame.suits
      split <;> simp_all [Role.isWord]
    · rw [Outlook.after, Frame.after_word hexpects hword]
      exact hafter
  next => exact .neither

/-- A token that is scanned with a goal of its own, where the frame sets that goal. -/
theorem rescan (h : Stands S base v x x') (hS : Guided S) {goal : Goal}
    (hgoal : v.outlook.frame.goal (Token.scan x).1 = goal) (keep : Kind → Bool)
    (hafter : ∀ t y, goal.scan x = some (t, y) → keep t.kind = true →
      ∃ o, v.outlook.after t.kind.role t.onNewLine = some o ∧ ⟨o, .nothing⟩ ∈ vs) :
    Outcome S base vs
      ((goal.scan x).bind fun (t, y) => if keep t.kind then some (.leaf t, .ofText y) else none)
      ((goal.scan x').bind fun (t, y) =>
        if keep t.kind then some (.leaf t, .ofText y) else none) := by
  subst hgoal
  cases hscan : (v.outlook.frame.goal (Token.scan x).1).scan x with
  | none =>
      rw [h.stuck hS hscan]
      exact .neither
  | some found =>
      rcases found with ⟨t, y⟩
      rcases h.step hS hscan with ⟨t', y', hscan', hsame, hbehind⟩
      have hkind : t'.kind = t.kind := Token.kind_eq_of_essence hsame
      rw [hscan']
      simp only [Option.bind_some, hkind]
      split
      next hkeep =>
        rcases hafter t y hscan hkeep with ⟨o, hafter, hmem⟩
        exact .both hmem (hbehind o hafter) (congrArg Tree.leaf hsame)
      next => exact .neither

theorem regex (h : Stands S base v x x') (hS : Guided S) (htake : v.take [.regex] = some vs) :
    Outcome S base vs (Terminal.regex.accept .plain (.ofText x))
      (Terminal.regex.accept .plain (.ofText x')) := by
  have haccept : ∀ x, Terminal.regex.accept .plain (.ofText x) =
      (Goal.scan .regex x).bind fun (t, y) =>
        if (fun _ : Kind => true) t.kind then some (.leaf t, .ofText y) else none := by
    intro x
    have hmap : Terminal.regex.accept .plain (.ofText x) =
        (Goal.scan .regex x).map fun (t, y) => (.leaf t, .ofText y) := rfl
    rw [hmap]
    cases Goal.scan .regex x <;> rfl
  have hclear := h.clear
  have hallows : v.clear.allows .regex (Token.scan x).1.onNewLine = true := by
    unfold Clear.allows at hclear ⊢
    simp_all [Role.isOperator, Role.startsStep]
  rcases View.holds_of_take htake (List.mem_singleton_self _) hallows with
    ⟨hsuits, o, hafter, hmem⟩
  rw [haccept, haccept]
  by_cases hslash : (Token.scan x).1.kind.role = .slash ∨ (Token.scan x).1.kind.role = .slashAssign
  · refine h.rescan hS (Frame.goal_regex hslash hsuits) (fun _ => true) fun t y hscan _ => ?_
    rcases Goal.scan_regex_inv hscan with ⟨hkind, hline⟩
    rw [hkind, hline]
    exact ⟨o, hafter, hmem⟩
  -- Nothing but a slash begins a regular expression.
  · have hnone : ∀ z, (Token.scan z).1.kind = (Token.scan x).1.kind →
        Goal.scan .regex z = none := by
      intro z hz
      rw [Option.eq_none_iff_forall_ne_some]
      rintro ⟨t, y⟩ hscan
      refine hslash ?_
      rw [← hz, Goal.kind_of_scan_regex hscan]
      split
      · exact .inr rfl
      · exact .inl rfl
    rw [hnone x rfl, hnone x' (h.kind hS)]
    exact .neither

/-- The rest of a template, where a template is open. -/
theorem templateRest (h : Stands S base v x x') (hS : Guided S) {part : TemplatePart}
    {tagged : Bool} (hpart : part = .middle ∨ part = .tail)
    (htake : v.take [(Kind.template part true).role] = some vs) :
    Outcome S base vs ((Terminal.templateRest part tagged).accept .plain (.ofText x))
      ((Terminal.templateRest part tagged).accept .plain (.ofText x')) := by
  have haccept : ∀ x, (Terminal.templateRest part tagged).accept .plain (.ofText x) =
      (Goal.scan .templateRest x).bind fun (t, y) =>
        if Terminal.matchesKind .plain (.template part tagged) t.kind then
          some (.leaf t, .ofText y) else none := by
    intro x
    have hscan : Token.scanTemplateRest (Cursor.ofText x).token (Cursor.ofText x).rest =
        Goal.scan .templateRest x := rfl
    simp only [Terminal.accept, hscan]
    cases Goal.scan .templateRest x <;> rfl
  have hclear := h.clear
  have hallows : v.clear.allows (Kind.template part true).role (Token.scan x).1.onNewLine =
      true := by
    unfold Clear.allows at hclear ⊢
    rcases hpart with rfl | rfl <;> simp_all [Kind.role, Role.isOperator, Role.startsStep]
  rcases View.holds_of_take htake (List.mem_singleton_self _) hallows with
    ⟨hsuits, o, hafter, hmem⟩
  rw [haccept, haccept]
  by_cases hbrace : (Token.scan x).1.kind = .punctuator .braceClose
  · have hgoal : v.outlook.frame.goal (Token.scan x).1 = .templateRest := by
      refine Frame.goal_templateRest (by rw [hbrace]; rfl) (b := (Token.scan x).1.onNewLine) ?_
      rcases hpart with rfl | rfl
      · exact .inl hsuits
      · exact .inr hsuits
    refine h.rescan hS hgoal (Terminal.matchesKind .plain (.template part tagged))
      fun t y hscan hkeep => ?_
    rcases Goal.scan_templateRest_inv hscan with ⟨-, ⟨part', sound, hkind, -⟩, hline⟩
    have hsame : part' = part := by
      rw [hkind] at hkeep
      simp only [Terminal.matchesKind, Bool.and_eq_true, decide_eq_true_eq] at hkeep
      exact hkeep.1.symm
    refine ⟨o, ?_, hmem⟩
    rw [hkind, hline, hsame]
    rcases hpart with rfl | rfl <;> exact hafter
  -- Nothing but a closing brace begins the rest of a template.
  · have hnone : ∀ z, (Token.scan z).1.kind = (Token.scan x).1.kind →
        Goal.scan .templateRest z = none := by
      intro z hz
      rw [Option.eq_none_iff_forall_ne_some]
      rintro ⟨t, y⟩ hscan
      exact hbrace (hz ▸ (Goal.scan_templateRest_inv hscan).1)
    rw [hnone x rfl, hnone x' (h.kind hS)]
    exact .neither

theorem token (h : Stands S base v x x') (hS : Guided S) {t : Terminal}
    (hv : v.accept t = some vs) :
    Outcome S base vs (t.accept .plain (.ofText x)) (t.accept .plain (.ofText x')) := by
  unfold View.accept at hv
  split at hv
  · split at hv
    next hexpects => exact h.word hS (by simpa using hexpects) hv
    next => cases hv
  · exact h.regex hS hv
  · exact h.templateRest hS (.inl rfl) hv
  · exact h.templateRest hS (.inr rfl) hv
  · split at hv
    next rs hroles =>
      have hpeek : Outcome S base vs
          ((Phrase.token t).read .plain 0 (fun _ _ => none) (.ofText x))
          ((Phrase.token t).read .plain 0 (fun _ _ => none) (.ofText x')) := h.peek hS hroles hv
      exact hpeek
    next => cases hv

/-! ### Lines -/

/-- Only where a line end ends nothing, or nothing has begun yet, may it stand in one text alone. -/
theorem sameLine (h : Stands S base v x x') (hv : v.sameLine = some vs) :
    Outcome S base vs (Phrase.sameLine.read .plain bound readRule (.ofText x))
      (Phrase.sameLine.read .plain bound readRule (.ofText x')) := by
  have hread : ∀ x, Phrase.sameLine.read .plain bound readRule (.ofText x) =
      if (Token.scan x).1.onNewLine then none else some (.empty, .ofText x) := fun _ => rfl
  rw [hread, hread]
  have hline : OnLine x x' := by
    refine h.line.resolve_right fun hstart => ?_
    unfold View.sameLine at hv
    split at hv
    · cases hv
    · cases hv
    all_goals simp_all [Expectation.isStart]
  by_cases hfar : (Token.scan x).1.onNewLine = true
  · rcases hline with hsame | ⟨-, hfar'⟩
    · rw [hsame, if_pos hfar, if_pos hfar]
      exact .neither
    · rw [if_pos hfar, if_pos hfar']
      exact .neither
  · have hnear : Stands S base { v with clear := { v.clear with near := true } } x x' := by
      refine ⟨h.supported, h.line, ?_⟩
      have hclear := h.clear
      unfold Clear.allows at hclear ⊢
      simp_all
    -- The view behind, which says that the next token stands on the same line.
    have hbehind : ∃ w ∈ vs, w.isNear = true ∧ Stands S base w x x' := by
      unfold View.sameLine at hv
      split at hv
      · cases hv
      · cases hv
      · rcases Option.map_eq_some_iff.1 hv with ⟨w, hw, rfl⟩
        refine ⟨w, by simp, ?_, hnear.turn hw (Role.mem_all _) rfl⟩
        rcases View.turn_eq_some hw with ⟨-, -, rfl⟩
        rfl
      · obtain rfl := Option.some.inj hv
        exact ⟨_, by simp, rfl, hnear⟩
    rcases hbehind with ⟨w, hmem, hw, hstands⟩
    rw [if_neg hfar]
    by_cases hfar' : (Token.scan x').1.onNewLine = true
    · rw [if_pos hfar']
      rcases hline with hsame | ⟨hcloses, -⟩
      · exact absurd (hsame ▸ hfar') hfar
      · exact .first hmem hw hcloses
    · rw [if_neg hfar']
      exact .both hmem hstands rfl

theorem statementEnd (h : Stands S base v x x') (hS : Guided S) (hv : forecastEnd v = some vs) :
    Outcome S base vs (Grammar.statementEnd.read .plain bound readRule (.ofText x))
      (Grammar.statementEnd.read .plain bound readRule (.ofText x')) := by
  unfold forecastEnd at hv
  split at hv
  next hframe =>
    simp only [Bool.and_eq_true, Bool.or_eq_true, decide_eq_true_eq, Bool.not_eq_true'] at hframe
    rcases hframe with ⟨hregion, hstart⟩
    rcases Option.map_eq_some_iff.1 hv with ⟨w, hw, rfl⟩
    have hplace : w.outlook = ⟨v.outlook.frame.anew, v.outlook.around⟩ := by
      rw [(View.turn_eq_some hw).2.2]
    have hkind : (Cursor.ofText x').token.kind = (Cursor.ofText x).token.kind := h.kind hS
    have hline : (Cursor.ofText x').token.onNewLine = (Cursor.ofText x).token.onNewLine ∨
        (Cursor.ofText x).token.kind = .punctuator .braceClose :=
      (h.line.resolve_right (by simp [hstart])).imp_right And.left
    rw [read_statementEnd, read_statementEnd, hkind]
    by_cases hsemicolon : (Cursor.ofText x).token.kind = .punctuator .semicolon
    -- The semicolon stands where a new statement or member may begin, and leaves things so.
    · have hscan : (Token.scan x).1.kind = .punctuator .semicolon := hsemicolon
      have hstands := h.turn hw (Role.mem_all _) (by simp [hscan, Kind.role, Punctuator.role])
      have hafter : ∀ b, w.outlook.after .semicolon b = some w.outlook := by
        intro b
        rw [hplace, Outlook.after, Frame.after_semicolon_anew hregion]
        rfl
      rw [if_pos hsemicolon, if_pos hsemicolon]
      refine hstands.advance hS (by simp [hscan]) ⟨?_, w.outlook, ?_, by simp⟩
      · rw [hscan]
        rfl
      · rw [hscan]
        exact hafter _
    · rw [if_neg hsemicolon, if_neg hsemicolon]
      have hsame : ((Cursor.ofText x).token.kind = .punctuator .braceClose ∨
          (Cursor.ofText x).token.kind = .endOfText ∨
            (Cursor.ofText x').token.onNewLine = true) ↔
          ((Cursor.ofText x).token.kind = .punctuator .braceClose ∨
            (Cursor.ofText x).token.kind = .endOfText ∨
              (Cursor.ofText x).token.onNewLine = true) := by
        rcases hline with hline | hbrace
        · rw [hline]
        · simp [hbrace]
      by_cases hends : (Cursor.ofText x).token.kind = .punctuator .braceClose ∨
          (Cursor.ofText x).token.kind = .endOfText ∨ (Cursor.ofText x).token.onNewLine = true
      · have hstands := h.turn hw (Role.mem_all _) (by
          have hscan : (Token.scan x).1.kind = .punctuator .braceClose ∨
            (Token.scan x).1.kind = .endOfText ∨ (Token.scan x).1.onNewLine = true := hends
          rcases hscan with hbrace | htext | hfar
          · simp [hbrace, Kind.role, Punctuator.role]
          · simp [htext, Kind.role]
          · simp [hfar])
        rw [if_pos hends, if_pos (hsame.2 hends)]
        exact .both (List.mem_singleton_self _)
          ⟨hstands.supported, hstands.line, Clear.allows_nothing _ _⟩ rfl
      · rw [if_neg hends, if_neg (mt hsame.1 hends)]
        exact .neither
  next => cases hv

/-! ### Where a phrase cannot be read -/

/-- Where a phrase cannot be read, the place is seen another way. -/
theorem whereAbsent (h : Stands S base v x x') (hv : Phrase.whereAbsent v p = some w)
    (hread : p.read .plain bound readRule (.ofText x) = none) : Stands S base w x x' := by
  unfold Phrase.whereAbsent at hv
  split at hv
  next m => exact h.turn hv (role_of_absent rfl hread) rfl
  next =>
    obtain rfl := Option.some.inj hv
    have hrole := List.mem_singleton.1 (role_of_absent rfl hread)
    refine ⟨h.supported, h.line, ?_⟩
    have hclear := h.clear
    rw [hrole] at hclear ⊢
    simpa [Clear.allows, Keyword.role, Role.startsStep] using hclear
  next =>
    split at hv
    next hstart =>
      obtain rfl := Option.some.inj hv
      simp only [Bool.and_eq_true, decide_eq_true_eq] at hstart
      rcases hstart with ⟨rfl, hframe⟩
      rcases h.supported with ⟨o, ho, hsupports⟩
      have hplace : v.outlook.onBase base =
          ⟨⟨.statement, .statements, false⟩, v.outlook.around ++ base⟩ := by
        rw [← hframe]
        rfl
      rw [hplace] at hsupports
      exact ⟨⟨o, ho, hsupports.trans (Outlook.supports_of_declarationStart hread _)⟩, .inr rfl,
        h.clear⟩
    · split at hv
      next hbody =>
        simp only [Bool.and_eq_true, decide_eq_true_eq] at hbody
        rcases hbody with ⟨rfl, -⟩
        have hrole : (Token.scan x).1.kind.role ≠ .braceOpen :=
          role_ne_of_read rfl hread (by decide)
        exact h.turn hv (Role.mem_all _) (by simpa using hrole)
      next =>
        obtain rfl := Option.some.inj hv
        exact h.without hread

theorem peek_eq_none_iff {rs : List Role} (h : Stands S base v x x') (hS : Guided S)
    (hp : p.roles? = some rs) :
    p.read .plain bound readRule (.ofText x) = none ↔
      p.read .plain bound readRule (.ofText x') = none := by
  have hkind : (Cursor.ofText x').token.kind = (Cursor.ofText x).token.kind := h.kind hS
  rw [read_of_roles? hp, read_of_roles? hp, hkind]
  split <;> simp

/-- A phrase that looks at the kind of the next token alone can be read in both texts or in
neither. -/
theorem read_eq_none_iff (h : Stands S base v x x') (hS : Guided S) (hp : p.looksAhead = true) :
    p.read .plain bound readRule (.ofText x) = none ↔
      p.read .plain bound readRule (.ofText x') = none := by
  have hpeek : ∀ {q : Phrase}, q.roles?.isSome = true →
      (q.read .plain bound readRule (.ofText x) = none ↔
        q.read .plain bound readRule (.ofText x') = none) := by
    intro q hq
    rcases Option.isSome_iff_exists.1 hq with ⟨rs, hroles⟩
    exact h.peek_eq_none_iff hS hroles
  have habsent : ∀ (q : Phrase) (c : Cursor),
      (Phrase.absent q).read .plain bound readRule c = none ↔
        q.read .plain bound readRule c ≠ none := by
    intro q c
    rw [Phrase.read]
    cases q.read .plain bound readRule c <;> simp
  unfold looksAhead at hp
  split at hp
  next q => exact (habsent q _).trans ((not_congr (hpeek hp)).trans (habsent q _).symm)
  next => exact hpeek hp

theorem absent {behind : Option (List View)} (h : Stands S base v x x') (hS : Guided S)
    (hv : forecastAbsent v behind p = some vs)
    (hbehind : ∀ ws, behind = some ws → Outcome S base ws (p.read .plain bound readRule (.ofText x))
      (p.read .plain bound readRule (.ofText x'))) :
    Outcome S base vs ((Phrase.absent p).read .plain bound readRule (.ofText x))
      ((Phrase.absent p).read .plain bound readRule (.ofText x')) := by
  -- Whether the phrase can be read is the same in both texts.
  have hplace : ∀ {w}, (p.read .plain bound readRule (.ofText x) = none ↔
      p.read .plain bound readRule (.ofText x') = none) → Phrase.whereAbsent v p = some w →
      Outcome S base [w] ((Phrase.absent p).read .plain bound readRule (.ofText x))
        ((Phrase.absent p).read .plain bound readRule (.ofText x')) := by
    intro w hsame hw
    rw [Phrase.read, Phrase.read]
    cases hread : p.read .plain bound readRule (.ofText x) with
    | none =>
        rw [hsame.1 hread]
        exact .both (List.mem_singleton_self w) (h.whereAbsent hw hread) rfl
    | some r =>
        cases hread' : p.read .plain bound readRule (.ofText x') with
        | none =>
            rw [hsame.2 hread'] at hread
            cases hread
        | some r' => exact .neither
  unfold forecastAbsent at hv
  split at hv
  next hempty =>
    subst hempty
    exact .neither
  · split at hv
    next hlooks =>
      rcases Option.map_eq_some_iff.1 hv with ⟨w, hw, rfl⟩
      exact hplace (h.read_eq_none_iff hS hlooks) hw
    · split at hv
      next ws =>
        split at hv
        · cases hv
        next hnear =>
          rcases Option.map_eq_some_iff.1 hv with ⟨w, hw, rfl⟩
          exact hplace ((hbehind ws rfl).none_iff (by simpa using hnear)) hw
      · cases hv

end Stands

/-! ## In front of a closing brace -/

theorem Terminal.accept_shuns {t : Terminal} (h : (Phrase.token t).shuns = true) :
    Shuns (t.accept .plain) := by
  intro x hbrace
  have hkind : (Cursor.ofText x).token.kind = .punctuator .braceClose := hbrace
  rw [Option.eq_none_iff_forall_ne_some]
  rintro ⟨tree, c⟩ hread
  rcases accept_inv hread with ⟨token, rest, -, -, htakes⟩
  cases htakes with
  | plain hmatches =>
      rw [hkind] at hmatches
      cases t <;> simp_all [matchesKind, shuns]
  | regex hscan =>
      have hregex := Goal.kind_of_scan_regex (x := x) (t := token) (y := rest) hscan
      rw [hbrace] at hregex
      split at hregex <;> cases hregex
  | templateRest => cases h
  | part ht hq hpart =>
      rw [hkind] at hq
      obtain rfl := Kind.punctuator.inj hq
      rcases ht with ⟨-, rfl⟩ | ⟨-, rfl⟩ <;> exact absurd hpart (by decide)

theorem Phrase.read_shuns {p : Phrase} {bound : Nat} {readRule : Rule → Cursor → Reading}
    (hrules : ∀ r ∈ shunning, Shuns (readRule r)) (hp : p.shuns = true) :
    Shuns (p.read .plain bound readRule) := by
  intro x hbrace
  induction p with
  | token t => exact Terminal.accept_shuns hp hbrace
  | seq p q ihp ihq =>
      simp only [shuns, Bool.or_eq_true, Bool.and_eq_true, decide_eq_true_eq] at hp
      rcases hp with hp | ⟨rfl, hq⟩
      · simp [read, ihp hp]
      · simp [read, ihq hq]
  | either p q ihp ihq =>
      simp only [shuns, Bool.and_eq_true] at hp
      exact read_either_eq_none.2 ⟨ihp hp.1, ihq hp.2⟩
  | absent p =>
      obtain rfl : p = .empty := by simpa [shuns] using hp
      rfl
  | notBefore p q ihp => simp [read, ihp hp]
  | node k p ih => simp [read, ih hp]
  | suffixed k p q ihp => simp [read, ihp hp]
  | rule r => exact hrules r (by simpa [shuns] using hp) hbrace
  | _ => cases hp

theorem Grammar.read_shuns (depth : Nat) {r : Rule} (hr : r ∈ shunning) :
    Shuns ((grammar .plain).read .plain depth r) := by
  induction depth generalizing r with
  | zero => exact fun _ => rfl
  | succ depth ih => exact Phrase.read_shuns (fun r hr => ih hr) (grammar_shuns hr)

/-! ## Phrases side by side -/

section Phrases

variable {rules : Rule → View → Option (List View)} {bound : Nat}
  {readRule : Rule → Cursor → Reading}

/-- Repeating goes on in both texts or ends in both. -/
theorem Phrase.readMany_guided {behind : View → Option (List View)} {readOne : Cursor → Reading}
    (hone : Foresees S behind readOne) (hclosed : ∀ v ∈ vs, ∃ us, behind v = some us ∧ us ⊆ vs)
    (hnear : ∀ v ∈ vs, v.isNear = false) {done done' : Tree}
    (hdone : done'.map Token.essence = done.map Token.essence) (hv : v ∈ vs)
    (h : Stands S base v x x') :
    Outcome S base vs (some (readMany readOne bound done (.ofText x)))
      (some (readMany readOne bound done' (.ofText x'))) := by
  induction bound generalizing done done' v x x' with
  | zero => exact .both hv h hdone
  | succ bound ih =>
      rcases hclosed v hv with ⟨us, hus, hsub⟩
      have houtcome := (hone hus h).mono hsub
      simp only [readMany]
      generalize hr : readOne (.ofText x) = r at houtcome
      generalize hr' : readOne (.ofText x') = r' at houtcome
      cases houtcome with
      | neither => exact .both hv h hdone
      | both mem stands same => exact ih (by simp [hdone, same]) mem stands
      | first mem near => exact absurd ((hnear _ mem).symm.trans near) (by simp)

namespace Outcome

variable {p q : Phrase} {us : List View}

/-- What is read of two phrases in turn.  Where the first one stops near a closing brace, the second
one reads nothing. -/
theorem seq (hp : Outcome S base us (p.read .plain bound readRule (.ofText x))
      (p.read .plain bound readRule (.ofText x')))
    (hq : ∀ {u y y'}, u ∈ us → Stands S base u y y' →
      Outcome S base vs (q.read .plain bound readRule (.ofText y))
        (q.read .plain bound readRule (.ofText y')))
    (hnear : ∀ u ∈ us, u.isNear = true → Shuns (q.read .plain bound readRule)) :
    Outcome S base vs ((Phrase.seq p q).read .plain bound readRule (.ofText x))
      ((Phrase.seq p q).read .plain bound readRule (.ofText x')) := by
  simp only [Phrase.read]
  generalize p.read .plain bound readRule (.ofText x) = r at hp
  generalize p.read .plain bound readRule (.ofText x') = r' at hp
  cases hp with
  | neither => exact .neither
  | @both u t t' y y' mem stands same =>
      have hsecond := hq mem stands
      dsimp only
      generalize q.read .plain bound readRule (.ofText y) = r at hsecond
      generalize q.read .plain bound readRule (.ofText y') = r' at hsecond
      cases hsecond with
      | neither => exact .neither
      | both mem stands same' => exact .both mem stands (by simp [same, same'])
      | first mem near closes => exact .first mem near closes
  | @first u t y mem near closes =>
      dsimp only
      rw [hnear u mem near closes]
      exact .neither

/-- What is read of one of two phrases. -/
theorem either (hp : Outcome S base us (p.read .plain bound readRule (.ofText x))
      (p.read .plain bound readRule (.ofText x')))
    (hnear : ∀ u ∈ us, u.isNear = false)
    (hq : p.read .plain bound readRule (.ofText x) = none →
      Outcome S base vs (q.read .plain bound readRule (.ofText x))
        (q.read .plain bound readRule (.ofText x'))) :
    Outcome S base (merge us vs) ((Phrase.either p q).read .plain bound readRule (.ofText x))
      ((Phrase.either p q).read .plain bound readRule (.ofText x')) := by
  simp only [Phrase.read]
  generalize p.read .plain bound readRule (.ofText x) = r at hp hq
  generalize p.read .plain bound readRule (.ofText x') = r' at hp
  cases hp with
  | neither => exact (hq rfl).mono fun u hu => mem_merge.2 (.inr hu)
  | both mem stands same => exact .both (mem_merge.2 (.inl mem)) stands same
  | first mem near => exact absurd ((hnear _ mem).symm.trans near) (by simp)

/-- What is read of a phrase that need not be there. -/
theorem optional (h : Stands S base v x x')
    (hp : Outcome S base us (p.read .plain bound readRule (.ofText x))
      (p.read .plain bound readRule (.ofText x')))
    (hnear : ∀ u ∈ us, u.isNear = false) :
    Outcome S base (merge us [v.without p])
      ((Phrase.optional p).read .plain bound readRule (.ofText x))
      ((Phrase.optional p).read .plain bound readRule (.ofText x')) := by
  simp only [Phrase.read]
  generalize hr : p.read .plain bound readRule (.ofText x) = r at hp
  generalize p.read .plain bound readRule (.ofText x') = r' at hp
  cases hp with
  | neither => exact .both (mem_merge.2 (.inr (List.mem_singleton_self _))) (h.without hr) rfl
  | both mem stands same => exact .both (mem_merge.2 (.inl mem)) stands same
  | first mem near => exact absurd ((hnear _ mem).symm.trans near) (by simp)

/-- What is read of a phrase that another one does not follow. -/
theorem notBefore (hS : Guided S)
    (hp : Outcome S base us (p.read .plain bound readRule (.ofText x))
      (p.read .plain bound readRule (.ofText x')))
    (hnear : ∀ u ∈ us, u.isNear = false) (hq : q.roles?.isSome = true) :
    Outcome S base (us.map (·.without q))
      ((Phrase.notBefore p q).read .plain bound readRule (.ofText x))
      ((Phrase.notBefore p q).read .plain bound readRule (.ofText x')) := by
  simp only [Phrase.read]
  generalize p.read .plain bound readRule (.ofText x) = r at hp
  generalize p.read .plain bound readRule (.ofText x') = r' at hp
  cases hp with
  | neither => exact .neither
  | @both u t t' y y' mem stands same =>
      rcases Option.isSome_iff_exists.1 hq with ⟨rs, hroles⟩
      have hboth : q.read .plain bound readRule (.ofText y) = none ↔
          q.read .plain bound readRule (.ofText y') = none := stands.peek_eq_none_iff hS hroles
      dsimp only
      generalize hr : q.read .plain bound readRule (.ofText y) = r at hboth
      generalize q.read .plain bound readRule (.ofText y') = r' at hboth
      cases r with
      | none =>
          rw [hboth.1 rfl]
          exact .both (List.mem_map_of_mem mem) (stands.without hr) same
      | some r =>
          cases r' with
          | none => cases hboth.2 rfl
          | some r' => exact .neither
  | first mem near => exact absurd ((hnear _ mem).symm.trans near) (by simp)

/-- What is read of a phrase that another one may follow. -/
theorem suffixed {k : Node} (hp : Outcome S base us (p.read .plain bound readRule (.ofText x))
      (p.read .plain bound readRule (.ofText x')))
    (hq : ∀ {u y y'}, u ∈ us → Stands S base u y y' →
      Outcome S base vs (q.read .plain bound readRule (.ofText y))
        (q.read .plain bound readRule (.ofText y')))
    (hnear : ∀ u ∈ us ++ vs, u.isNear = false) :
    Outcome S base (merge (us.map (·.without q)) vs)
      ((Phrase.suffixed k p q).read .plain bound readRule (.ofText x))
      ((Phrase.suffixed k p q).read .plain bound readRule (.ofText x')) := by
  simp only [Phrase.read]
  generalize p.read .plain bound readRule (.ofText x) = r at hp
  generalize p.read .plain bound readRule (.ofText x') = r' at hp
  cases hp with
  | neither => exact .neither
  | @both u t t' y y' mem stands same =>
      have hsecond := hq mem stands
      dsimp only
      generalize hr : q.read .plain bound readRule (.ofText y) = r at hsecond
      generalize q.read .plain bound readRule (.ofText y') = r' at hsecond
      cases hsecond with
      | neither =>
          exact .both (mem_merge.2 (.inl (List.mem_map_of_mem mem))) (stands.without hr) same
      | both mem stands same' => exact .both (mem_merge.2 (.inr mem)) stands (by simp [same, same'])
      | first mem near =>
          exact absurd ((hnear _ (List.mem_append_right _ mem)).symm.trans near) (by simp)
  | first mem near =>
      exact absurd ((hnear _ (List.mem_append_left _ mem)).symm.trans near) (by simp)

end Outcome

/-- What a phrase reads in two texts is alike, if all that it asks for is foreseen. -/
theorem Phrase.read_guided (hS : Guided S) (hrules : ∀ r, Foresees S (rules r) (readRule r))
    (hshuns : ∀ r ∈ shunning, Shuns (readRule r)) (p : Phrase) :
    Foresees S (p.forecast rules) (p.read .plain bound readRule) := by
  intro base v vs x x' hv h
  have hany : ∀ {ws : List View}, ¬ ws.any View.isNear = true → ∀ w ∈ ws, w.isNear = false := by
    intro ws hws w hw
    by_contra hnear
    exact hws (List.any_eq_true.2 ⟨w, hw, by simpa using hnear⟩)
  induction p generalizing base v vs x x' with
  | empty =>
      obtain rfl := Option.some.inj hv
      exact .both (List.mem_singleton_self v) h rfl
  | token t => exact h.token hS hv
  | sameLine => exact h.sameLine hv
  | seq p q ihp ihq =>
      simp only [forecast] at hv
      split at hv
      · cases hv
      next ws hws =>
        split at hv
        · cases hv
        next hnear =>
          refine .seq (ihp hws h) (fun mem stands => ?_) fun w hw near => read_shuns hshuns ?_
          · rcases exists_of_collect hv mem with ⟨us, hus, hsub⟩
            exact (ihq hus stands).mono hsub
          · by_contra hshun
            exact hnear (by simp [List.any_eq_true.2 ⟨w, hw, near⟩, hshun])
  | either p q ihp ihq =>
      simp only [forecast] at hv
      split at hv
      next hend =>
        rw [hend]
        exact h.statementEnd hS hv
      · split at hv
        next rs hroles => exact h.peek hS hroles hv
        · split at hv
          next us ws hus hws =>
            split at hv
            · cases hv
            next hnear =>
              obtain rfl := Option.some.inj hv
              exact .either (ihp hus h) (hany hnear) fun hr => ihq hws (h.without hr)
          · cases hv
  | optional p ih =>
      simp only [forecast] at hv
      split at hv
      next us hus =>
        split at hv
        · cases hv
        next hnear =>
          obtain rfl := Option.some.inj hv
          exact .optional h (ih hus h) (hany hnear)
      · cases hv
  | many p ih =>
      simp only [forecast] at hv
      split at hv
      next us hus =>
        split at hv
        · cases hv
        next hnear =>
          obtain rfl := Option.some.inj hv
          rcases closure_eq_some hus with ⟨hsub, hclosed⟩
          simp only [read]
          exact readMany_guided (fun hv h => ih hv h) hclosed (hany hnear) rfl
            (hsub (List.mem_singleton_self v)) h
      · cases hv
  | absent p ih => exact h.absent hS hv fun ws hws => ih hws h
  | notBefore p q ihp =>
      simp only [forecast] at hv
      split at hv
      next us hus =>
        split at hv
        · cases hv
        next hnear =>
          obtain rfl := Option.some.inj hv
          simp only [Bool.or_eq_true, not_or, Option.isNone_iff_eq_none] at hnear
          exact .notBefore hS (ihp hus h) (hany hnear.1) (Option.isSome_iff_ne_none.2 hnear.2)
      · cases hv
  | node k p ih =>
      have hread := ih hv h
      simp only [read]
      generalize p.read .plain bound readRule (.ofText x) = r at hread
      generalize p.read .plain bound readRule (.ofText x') = r' at hread
      cases hread with
      | neither => exact .neither
      | both mem stands same => exact .both mem stands (by simp [same])
      | first mem near closes => exact .first mem near closes
  | suffixed k p q ihp ihq =>
      simp only [forecast] at hv
      split at hv
      next us hus =>
        split at hv
        next ws hws =>
          split at hv
          · cases hv
          next hnear =>
            obtain rfl := Option.some.inj hv
            refine .suffixed (ihp hus h) (fun mem stands => ?_) (hany hnear)
            rcases exists_of_collect hws mem with ⟨more, hmore, hsub⟩
            exact (ihq hmore stands).mono hsub
        · cases hv
      · cases hv
  | rule r => exact hrules r hv h

end Phrases

/-! ## Rules side by side -/

/-- The frames around a place may stand in its view or below it. -/
theorem Stands.below (h : Stands S base v x x') :
    Stands S (v.outlook.around ++ base) ⟨⟨v.outlook.frame, []⟩, .nothing⟩ x x' :=
  ⟨h.supported, h.line, Clear.allows_nothing _ _⟩

theorem Stands.above {around : List Frame} {c : Clear} (h : Stands S (around ++ base) v x x')
    (hv : v.outlook.around = []) (hc : c.le v.clear = true) :
    Stands S base ⟨⟨v.outlook.frame, around⟩, c⟩ x x' := by
  rcases h.supported with ⟨o, ho, hsupports⟩
  refine ⟨⟨o, ho, ?_⟩, h.line, Clear.allows_of_le hc h.clear⟩
  have hplace : v.outlook.onBase (around ++ base) = ⟨v.outlook.frame, around ++ base⟩ := by
    simp [Outlook.onBase, hv]
  rwa [hplace] at hsupports

/-- What the phrase of a rule leads to, and what is written down for the rule. -/
theorem Rule.exists_forecast {r : Rule} {f : Frame} {ends : List (Frame × Clear)}
    (h : r.ends f = some ends) :
    ∃ us, (grammar .plain r).forecast Rule.forecast ⟨⟨f, []⟩, .nothing⟩ = some us ∧
      ∀ u ∈ us, u.outlook.around = [] ∧ u.isNear = false ∧
        ∃ c, (u.outlook.frame, c) ∈ ends ∧ c.le u.clear = true := by
  have hstart : f.expects ∈ r.starts := by
    unfold Rule.ends at h
    split at h
    next hcheck => simp_all
    next => cases h
  have hregion : f.region ∈ Region.all := by
    cases f.region <;> decide
  have hdeclares : f.declares ∈ [true, false] := by
    cases f.declares <;> simp
  have hcheck := List.all_eq_true.1 (List.all_eq_true.1
    (List.all_eq_true.1 (grammar_isForeseen r) _ hstart) _ hregion) _ hdeclares
  simp only [h, Phrase.meets] at hcheck
  split at hcheck
  · cases hcheck
  next us hus =>
    refine ⟨us, hus, fun u hu => ?_⟩
    have hmeets := List.all_eq_true.1 hcheck u hu
    simp only [Bool.and_eq_true, decide_eq_true_eq, Bool.not_eq_true', List.any_eq_true] at hmeets
    rcases hmeets with ⟨⟨haround, hnear⟩, ⟨f', c⟩, hmem, hframe, hc⟩
    exact ⟨haround, hnear, c, hframe ▸ hmem, hc⟩

/-- What a rule of the plain grammar reads in two texts is alike. -/
theorem Grammar.read_guided (hS : Guided S) (depth : Nat) (r : Rule) :
    Foresees S r.forecast ((grammar .plain).read .plain depth r) := by
  induction depth generalizing r with
  | zero => exact fun _ _ => .neither
  | succ depth ih =>
      intro base v vs x x' hv h
      unfold Rule.forecast at hv
      split at hv
      · cases hv
      next w hw =>
        rcases Option.map_eq_some_iff.1 hv with ⟨ends, hends, rfl⟩
        -- The frame with which the rule is read.
        have hstands : Stands S base w x x' ∧ w.outlook.around = v.outlook.around := by
          unfold Rule.entry at hw
          split at hw
          · refine ⟨h.turn hw (Role.mem_all _) rfl, ?_⟩
            rw [(View.turn_eq_some hw).2.2]
          · obtain rfl := Option.some.inj hw
            exact ⟨h, rfl⟩
        rcases Rule.exists_forecast hends with ⟨us, hus, hall⟩
        have hread : Outcome S (w.outlook.around ++ base) us
            ((grammar .plain).read .plain (depth + 1) r (.ofText x))
            ((grammar .plain).read .plain (depth + 1) r (.ofText x')) :=
          Phrase.read_guided hS ih (fun r hr => Grammar.read_shuns depth hr) (grammar .plain r) hus
            hstands.1.below
        generalize (grammar .plain).read .plain (depth + 1) r (.ofText x) = r at hread
        generalize (grammar .plain).read .plain (depth + 1) _ (.ofText x') = r' at hread
        cases hread with
        | neither => exact .neither
        | @both u t t' y y' mem stands same =>
            rcases hall u mem with ⟨haround, -, c, hmem, hc⟩
            refine .both (List.mem_map_of_mem hmem) ?_ same
            rw [hstands.2] at stands
            exact stands.above haround hc
        | first mem near =>
            rcases hall _ mem with ⟨-, hnear, -⟩
            exact absurd (hnear.symm.trans near) (by simp)

end Script
end ProcedureGen
