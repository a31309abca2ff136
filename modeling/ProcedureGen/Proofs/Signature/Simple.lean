import ProcedureGen.Proofs.Script.Spelling
import ProcedureGen.Script.Grammar

/-!
# Simple declarations

The declarations that a compiler writes most: aliases of types and functions, one on each line, where
a type is a name with pairs of brackets behind it.  There may be any number of them, with any number
of parameters.

* `SimpleType`, `SimpleParameter`, `SimpleFunction`, `SimpleAlias`, `SimpleLine`: what is declared;
* `SimpleLine.text`: how it is written;
* `SimpleLine.tokens`, `SimpleLine.tree`: its tokens and its tree;
* `SimpleLine.read`: the grammar reads the tree off the tokens.
-/

namespace ProcedureGen

open Script

/-- A word that may be bound in a script: no word with a meaning of its own. -/
structure FreeName where
  word : Text
  isIdentifier : isIdentifier word = true
  isFree : Keyword.ofText? word = none

/-- A word that may name a simple type.  The two names that may not be bound may name types. -/
structure TypeName where
  word : Text
  isIdentifier : isIdentifier word = true
  isFree : Keyword.ofText? word ∈ [none, some .eval, some .arguments]

/-- The name of a type with pairs of brackets behind it. -/
structure SimpleType where
  name : TypeName
  rank : Nat

structure SimpleParameter where
  name : FreeName
  type : SimpleType

structure SimpleFunction where
  isExported : Bool
  name : FreeName
  parameters : List SimpleParameter
  result : SimpleType

structure SimpleAlias where
  name : TypeName
  type : SimpleType

/-- One line of a simple declaration file. -/
inductive SimpleLine where
  | synonym (a : SimpleAlias)
  | function (f : SimpleFunction)

/-! ## Texts -/

/-- Pairs of brackets. -/
def brackets : Nat → Text
  | 0 => []
  | n + 1 => '[' :: ']' :: brackets n

def SimpleType.text (t : SimpleType) : Text := t.name.word ++ brackets t.rank

def SimpleParameter.text (p : SimpleParameter) : Text := p.name.word ++ ": " ++ p.type.text

def SimpleFunction.text (f : SimpleFunction) : Text :=
  (if f.isExported then "export " else "") ++ "declare function " ++ f.name.word ++ "(" ++
    Text.joinWith ", " (f.parameters.map SimpleParameter.text) ++ "): " ++ f.result.text ++ ";\n"

def SimpleAlias.text (a : SimpleAlias) : Text :=
  "export type " ++ a.name.word ++ " = " ++ a.type.text ++ ";\n"

def SimpleLine.text : SimpleLine → Text
  | .synonym a => a.text
  | .function f => f.text

/-! ## Tokens -/

section Tokens

/-- A mark right behind the token before it. -/
def closeMark (p : Punctuator) : Token := ⟨.punctuator p, [], p.spelling, false⟩

/-- A word behind a blank. -/
def spacedWord (k : Kind) (w : Text) : Token := ⟨k, [' '], w, false⟩

def bracketTokens : Nat → List Token
  | 0 => []
  | n + 1 => closeMark .bracketOpen :: closeMark .bracketClose :: bracketTokens n

/-- The tokens of a type behind a blank. -/
def SimpleType.tokens (t : SimpleType) : List Token :=
  spacedWord (wordKind t.name.word) t.name.word :: bracketTokens t.rank

/-- The tokens of a parameter behind a gap. -/
def SimpleParameter.tokens (gap : Text) (p : SimpleParameter) : List Token :=
  ⟨.name p.name.word, gap, p.name.word, false⟩ :: closeMark .colon :: p.type.tokens

/-- The tokens of parameters that others stand before. -/
def moreParameterTokens (ps : List SimpleParameter) : List Token :=
  ps.flatMap fun p => closeMark .comma :: p.tokens [' ']

/-- The tokens of all parameters. -/
def parameterTokens : List SimpleParameter → List Token
  | [] => []
  | p :: ps => p.tokens [] ++ moreParameterTokens ps

/-- The tokens of a function behind the word `declare`. -/
def SimpleFunction.declaredTokens (f : SimpleFunction) : List Token :=
  spacedWord (.keyword .function) "function" :: spacedWord (.name f.name.word) f.name.word ::
    closeMark .parenOpen :: (parameterTokens f.parameters ++
      closeMark .parenClose :: closeMark .colon :: (f.result.tokens ++ [closeMark .semicolon]))

/-- The tokens of an alias behind the word `export`. -/
def SimpleAlias.declaredTokens (a : SimpleAlias) : List Token :=
  spacedWord (.keyword .type) "type" :: spacedWord (wordKind a.name.word) a.name.word ::
    ⟨.punctuator .assign, [' '], ['='], false⟩ :: (a.type.tokens ++ [closeMark .semicolon])

/-- The tokens of a line; `gap` stands in front of it. -/
def SimpleLine.tokens (gap : Text) : SimpleLine → List Token
  | .synonym a => ⟨.keyword .export, gap, "export", gap.any isLineEnd⟩ :: a.declaredTokens
  | .function f =>
    if f.isExported then
      ⟨.keyword .export, gap, "export", gap.any isLineEnd⟩ ::
        spacedWord (.keyword .declare) "declare" :: f.declaredTokens
    else ⟨.keyword .declare, gap, "declare", gap.any isLineEnd⟩ :: f.declaredTokens

end Tokens

/-! ## Trees -/

section Trees

/-- One pair of brackets behind a type. -/
def bracketPair : Tree :=
  .cat .empty (.cat (.leaf (closeMark .bracketOpen))
    (.cat .empty (.leaf (closeMark .bracketClose))))

/-- Pairs of brackets behind others. -/
def bracketTree (done : Tree) : Nat → Tree
  | 0 => done
  | n + 1 => bracketTree (.cat done bracketPair) n

def SimpleType.tree (t : SimpleType) : Tree :=
  .cat .empty (.cat
    (.cat (.cat (.leaf (spacedWord (wordKind t.name.word) t.name.word)) .empty) .empty)
    (bracketTree .empty t.rank))

def SimpleParameter.tree (gap : Text) (p : SimpleParameter) : Tree :=
  .node .plainParameter (.cat .empty
    (.cat (.leaf ⟨.name p.name.word, gap, p.name.word, false⟩) (.cat .empty
      (.cat (.node .typeMark (.cat (.leaf (closeMark .colon)) p.type.tree)) .empty))))

/-- Parameters behind others. -/
def moreParametersTree (done : Tree) (ps : List SimpleParameter) : Tree :=
  ps.foldl (fun done p => .cat done (.cat (.leaf (closeMark .comma)) (p.tree [' ']))) done

def parametersTree : List SimpleParameter → Tree
  | [] => .cat (.leaf (closeMark .parenOpen)) (.cat .empty (.leaf (closeMark .parenClose)))
  | p :: ps =>
    .cat (.leaf (closeMark .parenOpen)) (.cat
      (.cat (.node .parameterList
        (.cat (.cat (p.tree []) (moreParametersTree .empty ps)) .empty)) .empty)
      (.leaf (closeMark .parenClose)))

/-- The content of a function's node. -/
def SimpleFunction.content (f : SimpleFunction) : Tree :=
  .cat (.leaf (spacedWord (.keyword .function) "function"))
    (.cat (.node .functionName (.leaf (spacedWord (.name f.name.word) f.name.word)))
      (.cat .empty (.cat (.node .parameters (parametersTree f.parameters))
        (.cat (.cat (.leaf (closeMark .colon)) (.node .returnType f.result.tree))
          (.cat .empty (.leaf (closeMark .semicolon)))))))

/-- The tree of an alias. -/
def SimpleAlias.content (a : SimpleAlias) : Tree :=
  .cat (.leaf (spacedWord (.keyword .type) "type")) (.cat .empty
    (.cat (.leaf (spacedWord (wordKind a.name.word) a.name.word)) (.cat .empty
      (.cat (.leaf ⟨.punctuator .assign, [' '], ['='], false⟩)
        (.cat a.type.tree (.leaf (closeMark .semicolon)))))))

def SimpleLine.tree (gap : Text) : SimpleLine → Tree
  | .synonym a =>
    .node .otherItem (.cat (.leaf ⟨.keyword .export, gap, "export", gap.any isLineEnd⟩) a.content)
  | .function f =>
    let function := .node (.function false false) f.content
    if f.isExported then
      .node .exportedFunction (.cat (.leaf ⟨.keyword .export, gap, "export", gap.any isLineEnd⟩)
        (.cat (.leaf (spacedWord (.keyword .declare) "declare")) function))
    else
      .node .bareFunction (.cat (.leaf ⟨.keyword .declare, gap, "declare", gap.any isLineEnd⟩)
        (.cat .empty function))

end Trees

/-! ## Reading -/

/-- Reads a rule of the grammar of declaration files off tokens. -/
abbrev readAmbient (depth : Nat) (r : Rule) (ts : List Token) : TokenReading :=
  (grammar .ambient).readTokens .ambient depth r ts

/-- A token behind which a simple type does not go on. -/
def endsType (t : Token) : Prop :=
  t = closeMark .comma ∨ t = closeMark .parenClose ∨ t = closeMark .semicolon

section Reading

variable {depth : Nat} {t : SimpleType} {stop : Token} {us : List Token}

theorem TypeName.kind (w : TypeName) : wordKind w.word = .name w.word ∨
    wordKind w.word = .keyword .eval ∨ wordKind w.word = .keyword .arguments := by
  have hfree := w.isFree
  unfold wordKind
  simp only [List.mem_cons, List.not_mem_nil, or_false] at hfree
  rcases hfree with h | h | h <;> simp [h]

/-- Brackets are read as often as they stand there. -/
theorem readManyTokens_brackets {readOne : List Token → TokenReading} {n bound : Nat}
    {ts : List Token} (done : Tree) (hbound : n ≤ bound)
    (hone : ∀ us, readOne (closeMark .bracketOpen :: closeMark .bracketClose :: us) =
      some (bracketPair, us))
    (hstop : readOne ts = none) :
    Phrase.readManyTokens readOne bound done (bracketTokens n ++ ts) = (bracketTree done n, ts) := by
  induction n generalizing bound done with
  | zero => exact Phrase.readManyTokens_stop hstop
  | succ n ih =>
      rcases Nat.exists_eq_add_of_le' (Nat.one_le_of_lt hbound) with ⟨bound, rfl⟩
      have hfirst := hone (bracketTokens n ++ ts)
      simp only [bracketTokens, List.cons_append, Phrase.readManyTokens, hfirst]
      exact ih _ (Nat.le_of_succ_le_succ hbound)

/-- The name of a type is read alone. -/
theorem readAmbient_primaryType (hstop : endsType stop) :
    readAmbient (depth + 10) .primaryType (t.tokens ++ stop :: us) =
      some (.cat (.cat (.leaf (spacedWord (wordKind t.name.word) t.name.word)) .empty) .empty,
        bracketTokens t.rank ++ stop :: us) := by
  cases hrank : t.rank with
  | zero =>
      simp only [SimpleType.tokens, hrank]
      rcases t.name.kind with h | h | h <;> rw [h] <;> rcases hstop with rfl | rfl | rfl <;> rfl
  | succ n =>
      simp only [SimpleType.tokens, hrank]
      rcases t.name.kind with h | h | h <;> rw [h] <;> rfl

/-- A pair of brackets holds no type. -/
theorem readAmbient_pair {bound : Nat} (us : List Token) :
    (Phrase.all [.sameLine, Grammar.mark .bracketOpen, .optional (.rule (.type true)),
      Grammar.mark .bracketClose]).readTokens .ambient bound (readAmbient (depth + 12))
        (closeMark .bracketOpen :: closeMark .bracketClose :: us) = some (bracketPair, us) := rfl

/-- A simple type begins with no mark, -/
theorem mark_refuses {bound : Nat} {readRule : Rule → List Token → TokenReading}
    {p : Punctuator} {ts : List Token} :
    (Grammar.mark p).readTokens .ambient bound readRule (t.tokens ++ ts) = none := by
  rw [SimpleType.tokens]
  rcases t.name.kind with h | h | h <;> rw [h] <;> rfl

/-- with no operator, -/
theorem typeOperator_refuses {bound : Nat} {readRule : Rule → List Token → TokenReading}
    {ts : List Token} :
    Grammar.typeOperator.readTokens .ambient bound readRule (t.tokens ++ ts) = none := by
  rw [SimpleType.tokens]
  rcases t.name.kind with h | h | h <;> rw [h] <;> rfl

/-- and with no function. -/
theorem functionType_refuses {bound : Nat} {ts : List Token} :
    (Grammar.functionType true).readTokens .ambient bound (readAmbient (depth + 3))
      (t.tokens ++ ts) = none := by
  rw [SimpleType.tokens]
  rcases t.name.kind with h | h | h <;> rw [h] <;> rfl

theorem readAmbient_prefixedType (hrank : t.rank ≤ depth) (hstop : endsType stop) :
    readAmbient (depth + 13) (.prefixedType true) (t.tokens ++ stop :: us) =
      some (t.tree, stop :: us) := by
  have hinferred : ∀ q : Phrase, (Phrase.seq (Grammar.word .infer) q).readTokens .ambient
      (depth + 12) (readAmbient (depth + 12)) (t.tokens ++ stop :: us) = none := by
    intro q
    rw [SimpleType.tokens]
    rcases t.name.kind with h | h | h <;> rw [h] <;> rfl
  have hoperated : ∀ q : Phrase, (Phrase.seq Grammar.typeOperator q).readTokens .ambient
      (depth + 12) (readAmbient (depth + 12)) (t.tokens ++ stop :: us) = none := by
    intro q
    simp only [Phrase.readTokens, typeOperator_refuses]
  have hplain : (Phrase.absent Grammar.typeOperator).readTokens .ambient (depth + 12)
      (readAmbient (depth + 12)) (t.tokens ++ stop :: us) =
        some (.empty, t.tokens ++ stop :: us) := by
    simp only [Phrase.readTokens, typeOperator_refuses]
  have hend : (Phrase.all [.sameLine, Grammar.mark .bracketOpen, .optional (.rule (.type true)),
      Grammar.mark .bracketClose]).readTokens .ambient (depth + 12) (readAmbient (depth + 12))
        (stop :: us) = none := by
    rcases hstop with rfl | rfl | rfl <;> rfl
  have hbound : t.rank ≤ depth + 12 := Nat.le_add_right_of_le hrank
  have hbrackets := readManyTokens_brackets .empty hbound readAmbient_pair hend
  exact Phrase.readTokens_second (hoperated _) (Phrase.readTokens_second (hinferred _)
    (Phrase.readTokens_seq hplain (Phrase.readTokens_seq (readAmbient_primaryType hstop)
      (Phrase.readTokens_many hbrackets))))

/-- A simple type is no alternative among others. -/
theorem readAmbient_unionType (hrank : t.rank ≤ depth) (hstop : endsType stop) :
    readAmbient (depth + 14) (.unionType true) (t.tokens ++ stop :: us) =
      some (t.tree, stop :: us) := by
  have halone : ∀ (p : Punctuator) (one : Phrase), p = .bar ∨ p = .ampersand →
      one.readTokens .ambient (depth + 13) (readAmbient (depth + 13)) (t.tokens ++ stop :: us) =
        some (t.tree, stop :: us) →
      (Grammar.unionType.alternatives p one).readTokens .ambient (depth + 13)
        (readAmbient (depth + 13)) (t.tokens ++ stop :: us) = some (t.tree, stop :: us) := by
    intro p one hp hone
    refine Phrase.readTokens_second ?_ (Phrase.readTokens_unsuffixed hone ?_)
    · have hmark : (Grammar.mark p).readTokens .ambient (depth + 13) (readAmbient (depth + 13))
          (t.tokens ++ stop :: us) = none := mark_refuses
      simp only [Phrase.all, Phrase.readTokens, hmark]
    · rcases hp with rfl | rfl <;> rcases hstop with rfl | rfl | rfl <;> rfl
  exact halone .bar _ (.inl rfl) (halone .ampersand _ (.inr rfl)
    (readAmbient_prefixedType hrank hstop))

/-- A simple type is read whole. -/
theorem readAmbient_type (hrank : t.rank + 15 ≤ depth) (hstop : endsType stop) :
    readAmbient depth (.type true) (t.tokens ++ stop :: us) = some (t.tree, stop :: us) := by
  rcases Nat.exists_eq_add_of_le' (Nat.le_of_add_left_le hrank) with ⟨more, rfl⟩
  refine Phrase.readTokens_second functionType_refuses (Phrase.readTokens_unsuffixed
    (readAmbient_unionType (Nat.le_of_add_le_add_right hrank) hstop) ?_)
  rcases hstop with rfl | rfl | rfl <;> rfl

/-- So is one that a function returns. -/
theorem readAmbient_returnType (hrank : t.rank + 16 ≤ depth) (hstop : endsType stop) :
    readAmbient depth (.returnType true) (t.tokens ++ stop :: us) = some (t.tree, stop :: us) := by
  rcases Nat.exists_eq_add_of_le' (Nat.le_of_add_left_le hrank) with ⟨more, rfl⟩
  have htype : readAmbient (more + 15) (.type true) (t.tokens ++ stop :: us) =
      some (t.tree, stop :: us) := readAmbient_type (Nat.le_of_succ_le_succ hrank) hstop
  refine Phrase.readTokens_second ?_ (Phrase.readTokens_second ?_ htype)
  · rw [SimpleType.tokens]
    rcases t.name.kind with h | h | h <;> rw [h] <;> rfl
  -- The name may be the subject of a guard, but no guard follows it.
  · cases hbrackets : t.rank with
    | zero =>
        simp only [SimpleType.tokens, hbrackets]
        rcases t.name.kind with h | h | h <;> rw [h] <;> rcases hstop with rfl | rfl | rfl <;> rfl
    | succ n =>
        simp only [SimpleType.tokens, hbrackets]
        rcases t.name.kind with h | h | h <;> rw [h] <;> rfl

/-- A parameter is read with its type. -/
theorem readAmbient_parameter {p : SimpleParameter} (gap : Text) (hrank : p.type.rank + 17 ≤ depth)
    (hstop : stop = closeMark .comma ∨ stop = closeMark .parenClose) :
    readAmbient depth (.parameter false) (p.tokens gap ++ stop :: us) =
      some (p.tree gap, stop :: us) := by
  rcases Nat.exists_eq_add_of_le' (Nat.le_of_add_left_le hrank) with ⟨more, rfl⟩
  have hends : endsType stop := hstop.elim .inl fun h => .inr (.inl h)
  have htype : readAmbient (more + 15) (.type true) (p.type.tokens ++ stop :: us) =
      some (p.type.tree, stop :: us) :=
    readAmbient_type (Nat.le_of_succ_le_succ (Nat.le_of_succ_le_succ hrank)) hends
  have hmark : readAmbient (more + 16) .typeMark
      (closeMark .colon :: (p.type.tokens ++ stop :: us)) =
        some (.node .typeMark (.cat (.leaf (closeMark .colon)) p.type.tree), stop :: us) :=
    Phrase.readTokens_node (Phrase.readTokens_seq rfl htype)
  have hend : (Phrase.absent (Grammar.mark .assign)).readTokens .ambient (more + 16)
      (readAmbient (more + 16)) (stop :: us) = some (.empty, stop :: us) := by
    rcases hstop with rfl | rfl <;> rfl
  refine Phrase.readTokens_second rfl (Phrase.readTokens_first (Phrase.readTokens_node ?_))
  exact Phrase.readTokens_seq rfl (Phrase.readTokens_seq rfl (Phrase.readTokens_seq rfl
    (Phrase.readTokens_seq (Phrase.readTokens_optional hmark) hend)))

/-- Behind a parameter stands the comma of the next one, or the end of the list. -/
theorem moreParameterTokens_next (ps : List SimpleParameter) (us : List Token) :
    ∃ stop more, moreParameterTokens ps ++ closeMark .parenClose :: us = stop :: more ∧
      (stop = closeMark .comma ∨ stop = closeMark .parenClose) := by
  cases ps with
  | nil => exact ⟨_, _, rfl, .inr rfl⟩
  | cons p ps => exact ⟨_, _, rfl, .inl rfl⟩

/-- Parameters behind a comma are read as often as they stand there. -/
theorem readManyTokens_parameters {ps : List SimpleParameter} {inner bound : Nat} (done : Tree)
    (hbound : ps.length ≤ bound) (hrank : ∀ p ∈ ps, p.type.rank + 17 ≤ depth) :
    Phrase.readManyTokens (fun ts => (Phrase.seq (Grammar.mark .comma)
      (.rule (.parameter false))).readTokens .ambient inner (readAmbient depth) ts) bound
        done (moreParameterTokens ps ++ closeMark .parenClose :: us) =
      (moreParametersTree done ps, closeMark .parenClose :: us) := by
  induction ps generalizing bound done with
  | nil => exact Phrase.readManyTokens_stop rfl
  | cons p ps ih =>
      rcases Nat.exists_eq_add_of_le' (Nat.one_le_of_lt hbound) with ⟨bound, rfl⟩
      rcases moreParameterTokens_next ps us with ⟨stop, more, hmore, hstop⟩
      have hparameter : readAmbient depth (.parameter false) (p.tokens [' '] ++ stop :: more) =
          some (p.tree [' '], stop :: more) :=
        readAmbient_parameter [' '] (hrank p (by simp)) hstop
      have hone : (Phrase.seq (Grammar.mark .comma) (.rule (.parameter false))).readTokens .ambient
          inner (readAmbient depth) (closeMark .comma :: (p.tokens [' '] ++ stop :: more)) =
            some (.cat (.leaf (closeMark .comma)) (p.tree [' ']), stop :: more) :=
        Phrase.readTokens_seq rfl hparameter
      have htokens : moreParameterTokens (p :: ps) ++ closeMark .parenClose :: us =
          closeMark .comma :: (p.tokens [' '] ++ stop :: more) := by
        rw [← hmore]
        simp [moreParameterTokens]
      rw [htokens, Phrase.readManyTokens, hone, ← hmore]
      exact ih _ (Nat.le_of_succ_le_succ hbound) fun q hq => hrank q (List.mem_cons_of_mem p hq)

/-- A list of parameters is read with its parentheses. -/
theorem readAmbient_parameters {ps : List SimpleParameter} (hlength : ps.length + 19 ≤ depth)
    (hrank : ∀ p ∈ ps, p.type.rank + 19 ≤ depth) :
    readAmbient depth (.parameters false)
        (closeMark .parenOpen :: (parameterTokens ps ++ closeMark .parenClose :: us)) =
      some (.node .parameters (parametersTree ps), us) := by
  rcases Nat.exists_eq_add_of_le' (Nat.le_of_add_left_le hlength) with ⟨more, rfl⟩
  apply Phrase.readTokens_node
  cases ps with
  | nil => rfl
  | cons p ps =>
      have hranks : ∀ q ∈ p :: ps, q.type.rank + 17 ≤ more + 18 := fun q hq =>
        (Nat.le_succ _).trans (Nat.le_of_succ_le_succ (hrank q hq))
      have hbound : ps.length ≤ more + 18 := by
        simp only [List.length_cons] at hlength
        omega
      rcases moreParameterTokens_next ps us with ⟨stop, next, hnext, hstop⟩
      have hmany : Phrase.readManyTokens (fun ts => (Phrase.seq (Grammar.mark .comma)
          (.rule (.parameter false))).readTokens .ambient (more + 18) (readAmbient (more + 18)) ts)
            (more + 18) .empty (stop :: next) =
          (moreParametersTree .empty ps, closeMark .parenClose :: us) := by
        rw [← hnext]
        exact readManyTokens_parameters .empty hbound fun q hq =>
          hranks q (List.mem_cons_of_mem p hq)
      have hfirst : readAmbient (more + 18) (.parameter false) (p.tokens [] ++ stop :: next) =
          some (p.tree [], stop :: next) :=
        readAmbient_parameter [] (hranks p (by simp)) hstop
      rw [parameterTokens, List.append_assoc, hnext]
      refine Phrase.readTokens_seq rfl (Phrase.readTokens_seq (Phrase.readTokens_second rfl
        (Phrase.readTokens_first (Phrase.readTokens_seq (Phrase.readTokens_node
          (Phrase.readTokens_seq (Phrase.readTokens_seq hfirst (Phrase.readTokens_many hmany))
            rfl)) rfl))) rfl)

/-- A function is read with its name, its parameters and its result. -/
theorem readTokens_declaredFunction {f : SimpleFunction}
    (hlength : f.parameters.length + 19 ≤ depth)
    (hrank : ∀ p ∈ f.parameters, p.type.rank + 19 ≤ depth) (hresult : f.result.rank + 19 ≤ depth) :
    (Grammar.declaredFunction .ambient).readTokens .ambient depth (readAmbient depth)
        (f.declaredTokens ++ us) =
      some (.node (.function false false) f.content, us) := by
  have hparameters : readAmbient depth (.parameters false)
      (closeMark .parenOpen :: (parameterTokens f.parameters ++ closeMark .parenClose ::
        closeMark .colon :: (f.result.tokens ++ closeMark .semicolon :: us))) =
      some (.node .parameters (parametersTree f.parameters),
        closeMark .colon :: (f.result.tokens ++ closeMark .semicolon :: us)) :=
    readAmbient_parameters hlength hrank
  have hreturn : readAmbient depth (.returnType true)
      (f.result.tokens ++ closeMark .semicolon :: us) =
        some (f.result.tree, closeMark .semicolon :: us) :=
    readAmbient_returnType (by omega) (.inr (.inr rfl))
  have htokens : f.declaredTokens ++ us =
      spacedWord (.keyword .function) "function" :: spacedWord (.name f.name.word) f.name.word ::
        closeMark .parenOpen :: (parameterTokens f.parameters ++ closeMark .parenClose ::
          closeMark .colon :: (f.result.tokens ++ closeMark .semicolon :: us)) := by
    simp [SimpleFunction.declaredTokens]
  rcases Nat.exists_eq_add_of_le' (Nat.le_of_add_left_le hlength) with ⟨more, rfl⟩
  rw [htokens]
  refine Phrase.readTokens_second rfl (Phrase.readTokens_node (Phrase.readTokens_seq rfl
    (Phrase.readTokens_seq (Phrase.readTokens_node rfl) (Phrase.readTokens_seq rfl
      (Phrase.readTokens_seq hparameters (Phrase.readTokens_seq (Phrase.readTokens_optional
        (Phrase.readTokens_seq rfl (Phrase.readTokens_node hreturn)))
          (Phrase.readTokens_seq rfl rfl)))))))

/-- An alias is read with its type. -/
theorem readAmbient_typeAlias {a : SimpleAlias} (hrank : a.type.rank + 16 ≤ depth) :
    readAmbient depth .typeAlias (a.declaredTokens ++ us) = some (a.content, us) := by
  rcases Nat.exists_eq_add_of_le' (Nat.le_of_add_left_le hrank) with ⟨more, rfl⟩
  have htype : readAmbient (more + 15) (.type true) (a.type.tokens ++ closeMark .semicolon :: us) =
      some (a.type.tree, closeMark .semicolon :: us) :=
    readAmbient_type (Nat.le_of_succ_le_succ hrank) (.inr (.inr rfl))
  have hname : ∀ ts, (Phrase.token .typeName).readTokens .ambient (more + 15)
      (readAmbient (more + 15)) (spacedWord (wordKind a.name.word) a.name.word :: ts) =
        some (.leaf (spacedWord (wordKind a.name.word) a.name.word), ts) := by
    intro ts
    rcases a.name.kind with h | h | h <;> rw [h] <;> rfl
  have htokens : a.declaredTokens ++ us = spacedWord (.keyword .type) "type" ::
      spacedWord (wordKind a.name.word) a.name.word :: ⟨.punctuator .assign, [' '], ['='], false⟩ ::
        (a.type.tokens ++ closeMark .semicolon :: us) := by
    simp [SimpleAlias.declaredTokens]
  rw [htokens]
  exact Phrase.readTokens_seq rfl (Phrase.readTokens_seq rfl (Phrase.readTokens_seq (hname _)
    (Phrase.readTokens_seq rfl (Phrase.readTokens_seq rfl (Phrase.readTokens_seq htype rfl)))))

/-- Whether nothing in a line is longer than a bound. -/
def SimpleLine.Fits (n : Nat) : SimpleLine → Prop
  | .synonym a => a.type.rank ≤ n
  | .function f => f.parameters.length ≤ n ∧ (∀ p ∈ f.parameters, p.type.rank ≤ n) ∧
      f.result.rank ≤ n

/-- A line is read as an item of its module. -/
theorem SimpleLine.read {line : SimpleLine} {n : Nat} (gap : Text) (hfits : line.Fits n)
    (hdepth : n + 20 ≤ depth) :
    readAmbient depth .moduleItem (line.tokens gap ++ us) = some (line.tree gap, us) := by
  rcases Nat.exists_eq_add_of_le' (Nat.le_of_add_left_le hdepth) with ⟨more, rfl⟩
  cases line with
  | synonym a =>
      have hrank : a.type.rank + 16 ≤ more + 18 := by
        have hbound : a.type.rank ≤ n := hfits
        omega
      have hdeclared : readAmbient (more + 19) .declaration (a.declaredTokens ++ us) =
          some (a.content, us) :=
        Phrase.readTokens_second (p := .rule .interface) rfl
          (Phrase.readTokens_first (readAmbient_typeAlias hrank))
      -- Behind `export`, neither names in braces nor a default, but a declaration.
      have hexport : (Grammar.exportItem .ambient).readTokens .ambient (more + 19)
          (readAmbient (more + 19)) ((SimpleLine.synonym a).tokens gap ++ us) =
            some (.cat (.leaf ⟨.keyword .export, gap, "export", gap.any isLineEnd⟩) a.content,
              us) := by
        simp only [SimpleLine.tokens, SimpleAlias.declaredTokens] at hdeclared ⊢
        rcases a.name.kind with h | h | h <;> rw [h] at hdeclared ⊢ <;>
          exact Phrase.readTokens_second rfl (Phrase.readTokens_second rfl
            (Phrase.readTokens_second rfl (Phrase.readTokens_second rfl (Phrase.readTokens_first
              (Phrase.readTokens_seq rfl (Phrase.readTokens_first hdeclared))))))
      exact Phrase.readTokens_second rfl (Phrase.readTokens_second rfl
        (Phrase.readTokens_node (Phrase.readTokens_first hexport)))
  | function f =>
      rcases hfits with ⟨hlength, hranks, hresult⟩
      have hfunction : (Grammar.declaredFunction .ambient).readTokens .ambient (more + 19)
          (readAmbient (more + 19)) (f.declaredTokens ++ us) =
            some (.node (.function false false) f.content, us) :=
        readTokens_declaredFunction (by omega)
          (fun p hp => Nat.add_le_add_right ((hranks p hp).trans (by omega)) 19) (by omega)
      cases hexported : f.isExported with
      | true =>
          simp only [SimpleLine.tokens, SimpleLine.tree, hexported, if_true, List.cons_append]
          exact Phrase.readTokens_first (Phrase.readTokens_node (Phrase.readTokens_seq rfl
            (Phrase.readTokens_second rfl (Phrase.readTokens_seq rfl
              (Phrase.readTokens_first hfunction)))))
      | false =>
          simp only [SimpleLine.tokens, SimpleLine.tree, hexported, Bool.false_eq_true, if_false,
            List.cons_append]
          exact Phrase.readTokens_second rfl (Phrase.readTokens_first (Phrase.readTokens_node
            (Phrase.readTokens_first (Phrase.readTokens_seq rfl (Phrase.readTokens_seq rfl
              hfunction)))))

end Reading

end ProcedureGen
