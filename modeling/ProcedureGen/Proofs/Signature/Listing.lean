import ProcedureGen.Proofs.Script.Module
import ProcedureGen.Proofs.Script.Tree
import ProcedureGen.Proofs.Signature.Simple
import ProcedureGen.Signature

/-!
# Signatures of simple declarations

A file of simple declarations gives the signature of its first function, whatever the number of its
lines and of the parameters.

* `SimpleLine.spelled`, `spelled_lines`: the tokens of such a file are those of its lines;
* `parse?_lines`: it is read as a module of these lines;
* `SimpleFunction.signature`: the signature of a function;
* `Signature.read_simple`: it is the one that is read.
-/

namespace ProcedureGen

open Script

/-! ## Tokens of texts -/

section Texts

variable {rest : Text} {ts : List Token}

theorem spelled_closeMark {p : Punctuator} {c : Char} (hp : p.single? = some c)
    (hlongest : Punctuator.longest? (c :: rest) = some (p, rest)) (h : Spelled rest ts) :
    Spelled (c :: rest) (closeMark p :: ts) := by
  rw [closeMark, (Punctuator.single?_spec hp).1]
  exact Spelled.mark (g := []) rfl hp hlongest h

theorem spelled_spacedWord {w : Text} (hw : isIdentifier w = true) (hrest : Quiet rest)
    (h : Spelled rest ts) : Spelled (' ' :: (w ++ rest)) (spacedWord (wordKind w) w :: ts) :=
  Spelled.word (g := [' ']) rfl hw hrest h

/-- A keyword with a blank on both sides. -/
theorem spelled_keyword (k : Keyword) (h : Spelled (' ' :: rest) ts) :
    Spelled (' ' :: (k.spelling ++ ' ' :: rest)) (spacedWord (.keyword k) k.spelling :: ts) := by
  rw [← wordKind_spelling]
  exact spelled_spacedWord (isIdentifier_spelling k) (quiet_mark (by simp)) h

theorem spelled_brackets (n : Nat) (h : Spelled rest ts) :
    Spelled (brackets n ++ rest) (bracketTokens n ++ ts) := by
  induction n with
  | zero => exact h
  | succ n ih =>
      have hclose := spelled_closeMark (p := .bracketClose) rfl rfl ih
      exact spelled_closeMark (p := .bracketOpen) rfl rfl hclose

theorem FreeName.kind (w : FreeName) : wordKind w.word = .name w.word := by
  rw [wordKind, w.isFree]

theorem SimpleType.spelled (t : SimpleType) (hrest : Quiet rest) (h : Spelled rest ts) :
    Spelled (' ' :: (t.text ++ rest)) (t.tokens ++ ts) := by
  have hquiet : Quiet (brackets t.rank ++ rest) := by
    cases t.rank with
    | zero => exact hrest
    | succ n => exact quiet_mark (by simp)
  have hname := spelled_spacedWord t.name.isIdentifier hquiet (spelled_brackets t.rank h)
  rw [SimpleType.text, List.append_assoc]
  exact hname

theorem SimpleParameter.spelled (gap : Text) (hgap : Gap.pass .blank gap = some .blank)
    (hline : gap.any isLineEnd = false) (p : SimpleParameter) (hrest : Quiet rest)
    (h : Spelled rest ts) : Spelled (gap ++ (p.text ++ rest)) (p.tokens gap ++ ts) := by
  have hcolon := spelled_closeMark (p := .colon) rfl rfl (p.type.spelled hrest h)
  have hname := Spelled.word hgap p.name.isIdentifier (quiet_mark (by simp)) hcolon
  rw [p.name.kind, hline] at hname
  have htext : p.text ++ rest = p.name.word ++ ':' :: ' ' :: (p.type.text ++ rest) := by
    simp [SimpleParameter.text]
  rw [htext]
  exact hname

/-- The text of parameters that others stand before. -/
def moreParametersText (ps : List SimpleParameter) : Text :=
  ps.flatMap fun p => ',' :: ' ' :: p.text

def parametersText (ps : List SimpleParameter) : Text :=
  Text.joinWith ", " (ps.map SimpleParameter.text)

theorem parametersText_cons (p : SimpleParameter) (ps : List SimpleParameter) :
    parametersText (p :: ps) = p.text ++ moreParametersText ps := by
  induction ps generalizing p with
  | nil => simp [parametersText, moreParametersText, Text.joinWith]
  | cons q qs ih =>
      have hnext := ih q
      simp only [parametersText, moreParametersText, List.map_cons, List.flatMap_cons] at hnext ⊢
      rw [Text.joinWith, hnext]
      · simp
      · simp

theorem spelled_moreParameters (ps : List SimpleParameter) (hrest : Quiet rest)
    (h : Spelled rest ts) :
    Spelled (moreParametersText ps ++ rest) (moreParameterTokens ps ++ ts) ∧
      Quiet (moreParametersText ps ++ rest) := by
  induction ps with
  | nil => exact ⟨h, hrest⟩
  | cons p ps ih =>
      have hparameter := p.spelled [' '] rfl rfl ih.2 ih.1
      have hcomma := spelled_closeMark (p := .comma) rfl rfl hparameter
      refine ⟨?_, quiet_mark (by simp)⟩
      simpa [moreParametersText, moreParameterTokens] using hcomma

theorem spelled_parameters (ps : List SimpleParameter) (hrest : Quiet rest) (h : Spelled rest ts) :
    Spelled (parametersText ps ++ rest) (parameterTokens ps ++ ts) := by
  cases ps with
  | nil => exact h
  | cons p ps =>
      rcases spelled_moreParameters ps hrest h with ⟨hmore, hquiet⟩
      rw [parametersText_cons, parameterTokens, List.append_assoc, List.append_assoc]
      exact p.spelled [] rfl rfl hquiet hmore

/-- The text of a function behind the word `declare`. -/
def SimpleFunction.declaredText (f : SimpleFunction) (rest : Text) : Text :=
  ' ' :: (Keyword.function.spelling ++ ' ' :: (f.name.word ++ '(' :: (parametersText f.parameters ++
    ')' :: ':' :: ' ' :: (f.result.text ++ ';' :: rest))))

theorem SimpleFunction.spelled (f : SimpleFunction) (h : Spelled rest ts) :
    Spelled (f.declaredText rest) (f.declaredTokens ++ ts) := by
  have hend := spelled_closeMark (p := .semicolon) rfl rfl h
  have hresult := f.result.spelled (quiet_mark (by simp)) hend
  have hcolon := spelled_closeMark (p := .colon) rfl rfl hresult
  have hclose := spelled_closeMark (p := .parenClose) rfl rfl hcolon
  have hparameters := spelled_parameters f.parameters (quiet_mark (by simp)) hclose
  have hopen := spelled_closeMark (p := .parenOpen) rfl rfl hparameters
  have hname := spelled_spacedWord f.name.isIdentifier (quiet_mark (by simp)) hopen
  rw [f.name.kind] at hname
  have hfunction := spelled_keyword .function hname
  have htokens : f.declaredTokens ++ ts =
      spacedWord (.keyword .function) "function" :: spacedWord (.name f.name.word) f.name.word ::
        closeMark .parenOpen :: (parameterTokens f.parameters ++ closeMark .parenClose ::
          closeMark .colon :: (f.result.tokens ++ closeMark .semicolon :: ts)) := by
    simp [SimpleFunction.declaredTokens]
  rw [htokens]
  exact hfunction

/-- The text of an alias behind the word `export`. -/
def SimpleAlias.declaredText (a : SimpleAlias) (rest : Text) : Text :=
  ' ' :: (Keyword.type.spelling ++ ' ' :: (a.name.word ++ ' ' :: '=' :: ' ' ::
    (a.type.text ++ ';' :: rest)))

theorem SimpleAlias.spelled (a : SimpleAlias) (h : Spelled rest ts) :
    Spelled (a.declaredText rest) (a.declaredTokens ++ ts) := by
  have hend := spelled_closeMark (p := .semicolon) rfl rfl h
  have htype := a.type.spelled (quiet_mark (by simp)) hend
  have hassign := Spelled.mark (g := [' ']) (p := .assign) rfl rfl rfl htype
  have hname := spelled_spacedWord a.name.isIdentifier (quiet_mark (by simp)) hassign
  have hkeyword := spelled_keyword .type hname
  have htokens : a.declaredTokens ++ ts =
      spacedWord (.keyword .type) "type" :: spacedWord (wordKind a.name.word) a.name.word ::
        ⟨.punctuator .assign, [' '], ['='], false⟩ ::
          (a.type.tokens ++ closeMark .semicolon :: ts) := by
    simp [SimpleAlias.declaredTokens]
  rw [htokens]
  exact hkeyword

theorem export_eq : "export ".toList = Keyword.export.spelling ++ [' '] := rfl

theorem exportType_eq : "export type ".toList =
    Keyword.export.spelling ++ ' ' :: (Keyword.type.spelling ++ [' ']) := rfl

theorem declareFunction_eq : "declare function ".toList =
    Keyword.declare.spelling ++ ' ' :: (Keyword.function.spelling ++ [' ']) := rfl

theorem assign_eq : " = ".toList = [' ', '=', ' '] := rfl

theorem ending_eq : ";\n".toList = [';', '\n'] := rfl

theorem SimpleAlias.text_append (a : SimpleAlias) (rest : Text) :
    a.text ++ rest = Keyword.export.spelling ++ a.declaredText ('\n' :: rest) := by
  unfold SimpleAlias.text SimpleAlias.declaredText
  rw [exportType_eq, assign_eq, ending_eq]
  simp only [List.append_assoc, List.cons_append, List.nil_append]

theorem SimpleFunction.text_append (f : SimpleFunction) (rest : Text) :
    f.text ++ rest =
      if f.isExported then
        Keyword.export.spelling ++ ' ' ::
          (Keyword.declare.spelling ++ f.declaredText ('\n' :: rest))
      else Keyword.declare.spelling ++ f.declaredText ('\n' :: rest) := by
  have hopen : "(".toList = ['('] := rfl
  have hclose : "): ".toList = [')', ':', ' '] := rfl
  unfold SimpleFunction.text SimpleFunction.declaredText parametersText
  rw [declareFunction_eq, hopen, hclose, ending_eq]
  split
  · rw [export_eq]
    simp only [List.append_assoc, List.cons_append, List.nil_append]
  · simp only [List.append_assoc, List.cons_append]
    rfl

/-- A line is scanned into its tokens. -/
theorem SimpleLine.spelled {gap : Text} (hgap : Gap.pass .blank gap = some .blank)
    (line : SimpleLine) (h : Spelled ('\n' :: rest) ts) :
    Spelled (gap ++ (line.text ++ rest)) (line.tokens gap ++ ts) := by
  have hstart : ∀ (k : Keyword) {more : Text} {us : List Token}, Spelled (' ' :: more) us →
      Spelled (gap ++ (k.spelling ++ ' ' :: more))
        (⟨.keyword k, gap, k.spelling, gap.any isLineEnd⟩ :: us) := by
    intro k more us hmore
    rw [← wordKind_spelling]
    exact Spelled.word hgap (isIdentifier_spelling k) (quiet_mark (by simp)) hmore
  cases line with
  | synonym a =>
      rw [SimpleLine.text, a.text_append]
      exact hstart .export (a.spelled h)
  | function f =>
      rw [SimpleLine.text, f.text_append]
      cases hexported : f.isExported with
      | true =>
          simp only [SimpleLine.tokens, hexported, if_true, List.cons_append]
          exact hstart .export (spelled_keyword .declare (f.spelled h))
      | false =>
          simp only [SimpleLine.tokens, hexported, Bool.false_eq_true, if_false, List.cons_append]
          exact hstart .declare (f.spelled h)

/-- The tokens of lines, the first behind a gap and each other one behind a line end. -/
def lineTokens (gap : Text) : List SimpleLine → List Token
  | [] => [endToken gap]
  | line :: lines => line.tokens gap ++ lineTokens ['\n'] lines

/-- Lines are scanned into their tokens. -/
theorem spelled_lines (gap : Text) (hgap : Gap.pass .blank gap = some .blank)
    (lines : List SimpleLine) :
    Spelled (gap ++ lines.flatMap SimpleLine.text) (lineTokens gap lines) := by
  induction lines generalizing gap with
  | nil => simpa [lineTokens] using Spelled.ending hgap
  | cons line lines ih =>
      have hmore := ih ['\n'] (by decide)
      rw [List.flatMap_cons]
      exact line.spelled hgap hmore

end Texts

/-! ## Reading lines -/

section Lines

/-- The trees of lines. -/
def lineTrees (gap : Text) : List SimpleLine → List Tree
  | [] => []
  | line :: lines => line.tree gap :: lineTrees ['\n'] lines

/-- Trees one behind another. -/
def joinTrees (done : Tree) (trees : List Tree) : Tree := trees.foldl .cat done

/-- At the end of a text no item is read. -/
theorem readAmbient_end {depth : Nat} (hdepth : 30 ≤ depth) (gap : Text) :
    readAmbient depth .moduleItem [endToken gap] = none := by
  rcases Nat.exists_eq_add_of_le' hdepth with ⟨more, rfl⟩
  rfl

/-- Lines are read one by one up to the end of the text. -/
theorem readManyTokens_lines {lines : List SimpleLine} {n depth bound : Nat} (inner : Nat)
    (gap : Text) (done : Tree) (hbound : lines.length ≤ bound) (hfits : ∀ line ∈ lines, line.Fits n)
    (hdepth : n + 30 ≤ depth) :
    ∃ last, Phrase.readManyTokens
        (fun ts => (Phrase.rule .moduleItem).readTokens .ambient inner (readAmbient depth) ts) bound
          done (lineTokens gap lines) =
      (joinTrees done (lineTrees gap lines), [endToken last]) := by
  induction lines generalizing bound gap done with
  | nil =>
      exact ⟨gap, Phrase.readManyTokens_stop (readAmbient_end (Nat.le_of_add_left_le hdepth) gap)⟩
  | cons line lines ih =>
      rcases Nat.exists_eq_add_of_le' (Nat.one_le_of_lt hbound) with ⟨bound, rfl⟩
      have hline : readAmbient depth .moduleItem (line.tokens gap ++ lineTokens ['\n'] lines) =
          some (line.tree gap, lineTokens ['\n'] lines) :=
        SimpleLine.read gap (hfits line (by simp)) (by omega)
      rcases ih ['\n'] (.cat done (line.tree gap))
        (Nat.le_of_succ_le_succ hbound) (fun l hl => hfits l (List.mem_cons_of_mem line hl))
        with ⟨last, hmore⟩
      refine ⟨last, ?_⟩
      simp only [lineTokens, Phrase.readManyTokens, Phrase.readTokens, hline]
      exact hmore

theorem isSound_brackets (c : Context) (n : Nat) (done : Tree) (hdone : done.isSound c = true) :
    (bracketTree done n).isSound c = true := by
  induction n generalizing done with
  | zero => exact hdone
  | succ n ih => exact ih _ (by simp [Tree.isSound, bracketPair, hdone])

theorem SimpleType.isSound (t : SimpleType) (c : Context) : t.tree.isSound c = true := by
  have hbrackets := isSound_brackets c t.rank .empty rfl
  simp [SimpleType.tree, Tree.isSound, hbrackets]

theorem SimpleParameter.isSound (p : SimpleParameter) (gap : Text) (c : Context) :
    (p.tree gap).isSound c = true := by
  simp [SimpleParameter.tree, Tree.isSound, Context.permits, SimpleType.isSound]

theorem isSound_moreParameters (ps : List SimpleParameter) (c : Context) (done : Tree)
    (hdone : done.isSound c = true) : (moreParametersTree done ps).isSound c = true := by
  induction ps generalizing done with
  | nil => exact hdone
  | cons p ps ih =>
      exact ih _ (by simp [Tree.isSound, SimpleParameter.isSound, hdone])

theorem isSound_parameters (ps : List SimpleParameter) (c : Context) :
    (parametersTree ps).isSound c = true := by
  cases ps with
  | nil => rfl
  | cons p ps =>
      have hmore := fun c => isSound_moreParameters ps c .empty rfl
      simp [parametersTree, Tree.isSound, Context.permits, SimpleParameter.isSound, hmore]

theorem SimpleFunction.isSound (f : SimpleFunction) :
    f.content.isSoundFunction = true ∧ ∀ c, f.content.isSound c = true := by
  have hbody : f.content.child? .body = none := rfl
  refine ⟨by simp [Tree.isSoundFunction, hbody], fun c => ?_⟩
  simp [SimpleFunction.content, Tree.isSound, Context.permits, SimpleType.isSound,
    isSound_parameters]

/-- A line has no early error. -/
theorem SimpleLine.isSound (line : SimpleLine) (gap : Text) (c : Context) :
    (line.tree gap).isSound c = true := by
  cases line with
  | synonym a =>
      simp [SimpleLine.tree, SimpleAlias.content, Tree.isSound, Context.permits, SimpleType.isSound]
  | function f =>
      cases hexported : f.isExported <;>
        simp [SimpleLine.tree, hexported, Tree.isSound, Context.permits, f.isSound]

theorem isSound_lines (lines : List SimpleLine) (gap : Text) (c : Context) (done : Tree)
    (hdone : done.isSound c = true) :
    (joinTrees done (lineTrees gap lines)).isSound c = true := by
  induction lines generalizing gap done with
  | nil => exact hdone
  | cons line lines ih => exact ih _ _ (by simp [Tree.isSound, SimpleLine.isSound, hdone])

theorem length_brackets (n : Nat) : (brackets n).length = 2 * n := by
  induction n with
  | zero => rfl
  | succ n ih =>
      simp only [brackets, List.length_cons, ih]
      omega

theorem SimpleType.rank_le (t : SimpleType) : t.rank ≤ t.text.length := by
  have hlength := length_brackets t.rank
  simp only [SimpleType.text, List.length_append]
  omega

theorem SimpleParameter.rank_lt (p : SimpleParameter) : p.type.rank < p.text.length := by
  have hrank := p.type.rank_le
  have hcolon : ": ".toList.length = 2 := rfl
  simp only [SimpleParameter.text, List.length_append, hcolon]
  omega

/-- The parameters of a function take room in its text. -/
theorem length_parameters (ps : List SimpleParameter) :
    ps.length ≤ (parametersText ps).length ∧
      ∀ p ∈ ps, p.type.rank ≤ (parametersText ps).length := by
  have hmore : ∀ ps : List SimpleParameter, ps.length ≤ (moreParametersText ps).length ∧
      ∀ p ∈ ps, p.type.rank ≤ (moreParametersText ps).length := by
    intro ps
    induction ps with
    | nil => simp
    | cons p ps ih =>
        have hp := p.rank_lt
        simp only [moreParametersText, List.flatMap_cons, List.length_cons, List.length_append,
          List.mem_cons] at ih ⊢
        refine ⟨by omega, fun q hq => ?_⟩
        rcases hq with rfl | hq
        · omega
        · have hrank := ih.2 q hq
          omega
  cases ps with
  | nil => simp
  | cons p ps =>
      have hp := p.rank_lt
      have hps := hmore ps
      rw [parametersText_cons]
      simp only [List.length_cons, List.length_append, List.mem_cons]
      refine ⟨by omega, fun q hq => ?_⟩
      rcases hq with rfl | hq
      · omega
      · have hrank := hps.2 q hq
        omega

/-- Nothing in a line is longer than its text. -/
theorem SimpleLine.fits (line : SimpleLine) {n : Nat} (h : line.text.length ≤ n) :
    line.Fits n ∧ 0 < line.text.length := by
  have hlength := congrArg List.length (List.append_nil line.text)
  cases line with
  | synonym a =>
      have hrank := a.type.rank_le
      rw [SimpleLine.text, a.text_append] at hlength
      simp only [SimpleAlias.declaredText, List.length_append, List.length_cons] at hlength
      rw [SimpleLine.text] at h ⊢
      exact ⟨(by omega : a.type.rank ≤ n), by omega⟩
  | function f =>
      have hresult := f.result.rank_le
      rcases length_parameters f.parameters with ⟨hcount, hranks⟩
      have hroom : f.result.text.length + (parametersText f.parameters).length <
          f.text.length := by
        rw [SimpleLine.text, f.text_append] at hlength
        rw [← hlength]
        split <;>
          simp only [SimpleFunction.declaredText, List.length_append, List.length_cons] <;> omega
      rw [SimpleLine.text] at h ⊢
      refine ⟨⟨by omega, fun p hp => ?_, by omega⟩, by omega⟩
      have hrank := hranks p hp
      omega

/-- Nothing in a file is longer than the file. -/
theorem fits_lines (lines : List SimpleLine) {n : Nat}
    (h : (lines.flatMap SimpleLine.text).length ≤ n) :
    lines.length ≤ n ∧ ∀ line ∈ lines, line.Fits n := by
  induction lines generalizing n with
  | nil => simp
  | cons line lines ih =>
      rw [List.flatMap_cons, List.length_append] at h
      have hline := line.fits (n := n) (by omega)
      have hmore := ih (n := n - line.text.length) (by omega)
      refine ⟨by simp only [List.length_cons]; omega, fun l hl => ?_⟩
      rcases List.mem_cons.1 hl with rfl | hl
      · exact hline.1
      · exact (ih (n := n) (by omega)).2 l hl

/-- A file of lines starts with a letter. -/
theorem head?_lines {lines : List SimpleLine} (h : lines ≠ []) :
    ∃ c more, lines.flatMap SimpleLine.text = c :: more ∧ (c = 'e' ∨ c = 'd') := by
  rcases List.exists_cons_of_ne_nil h with ⟨line, rest, rfl⟩
  rw [List.flatMap_cons]
  cases line with
  | synonym a =>
      rw [SimpleLine.text, a.text_append]
      exact ⟨'e', _, rfl, .inl rfl⟩
  | function f =>
      rw [SimpleLine.text, f.text_append]
      split
      · exact ⟨'e', _, rfl, .inl rfl⟩
      · exact ⟨'d', _, rfl, .inr rfl⟩

/-- A text without anything in front of its items is read as they are. -/
theorem parse?_of_read {d : Dialect} {text : Text} {tree : Tree} {c : Cursor}
    (hmark : withoutMark text = text) (hshebang : splitShebang text = ([], text))
    (hread : Module.phrase.read d (Module.depthOf text)
      ((grammar d).read d (Module.depthOf text)) (Cursor.ofText text) = some (tree, c))
    (hsound : tree.isSound .top = true) : Module.parse? d text = some ⟨text, [], tree⟩ := by
  unfold Module.parse?
  simp only [hmark, hshebang, hread, hsound, if_true]

/-- A file of lines is read as the module of their trees. -/
theorem parse?_lines {lines : List SimpleLine} (h : lines ≠ []) :
    ∃ m last, Module.parse? .ambient (lines.flatMap SimpleLine.text) = some m ∧
      m.tree = .cat (joinTrees .empty (lineTrees [] lines)) (.leaf (endToken last)) := by
  let text := lines.flatMap SimpleLine.text
  rcases head?_lines h with ⟨c, more, htext, hc⟩
  have hmark : withoutMark text = text := by
    rw [show text = c :: more from htext, withoutMark]
    rcases hc with rfl | rfl <;> simp
  have hshebang : splitShebang text = ([], text) := by
    rw [show text = c :: more from htext]
    rcases hc with rfl | rfl <;> rfl
  have hspelled : Spelled text (lineTokens [] lines) := spelled_lines [] rfl lines
  rcases fits_lines lines (le_refl text.length) with ⟨hcount, hfits⟩
  have hbound : lines.length ≤ Module.depthOf text := by
    unfold Module.depthOf
    omega
  have hdepth : text.length + 30 ≤ Module.depthOf text := by
    unfold Module.depthOf
    omega
  rcases readManyTokens_lines (Module.depthOf text) [] .empty hbound hfits hdepth with ⟨last, hmany⟩
  have htokens : Module.phrase.readTokens .ambient (Module.depthOf text)
      (readAmbient (Module.depthOf text)) (lineTokens [] lines) =
        some (.cat (joinTrees .empty (lineTrees [] lines)) (.leaf (endToken last)), []) :=
    Phrase.readTokens_seq (Phrase.readTokens_many hmany) rfl
  have hagree : Agree (Module.phrase.read .ambient (Module.depthOf text)
      ((grammar .ambient).read .ambient (Module.depthOf text)))
      (Module.phrase.readTokens .ambient (Module.depthOf text)
        (readAmbient (Module.depthOf text))) :=
    Phrase.read_agree (Grammar.read_agree (grammar .ambient) .ambient _) Module.phrase
  rcases hagree.some hspelled htokens with ⟨y, -, hread⟩
  have hsound : (Tree.cat (joinTrees .empty (lineTrees [] lines))
      (.leaf (endToken last))).isSound .top = true := by
    simp [Tree.isSound, isSound_lines lines [] .top .empty rfl]
  refine ⟨⟨text, [], .cat (joinTrees .empty (lineTrees [] lines)) (.leaf (endToken last))⟩, last,
    ?_, rfl⟩
  exact parse?_of_read hmark hshebang hread hsound

end Lines

/-! ## Signatures -/

section Signatures

theorem tokens_brackets (done : Tree) (n : Nat) :
    (bracketTree done n).tokens = done.tokens ++ bracketTokens n := by
  induction n generalizing done with
  | zero => simp [bracketTree, bracketTokens]
  | succ n ih => simp [bracketTree, ih, bracketPair, bracketTokens]

theorem SimpleType.tokens_tree (t : SimpleType) : t.tree.tokens = t.tokens := by
  simp [SimpleType.tree, tokens_brackets, SimpleType.tokens]

theorem SimpleParameter.tokens_tree (p : SimpleParameter) (gap : Text) :
    (p.tree gap).tokens = p.tokens gap := by
  simp [SimpleParameter.tree, SimpleType.tokens_tree, SimpleParameter.tokens]

theorem tokens_moreParameters (done : Tree) (ps : List SimpleParameter) :
    (moreParametersTree done ps).tokens = done.tokens ++ moreParameterTokens ps := by
  induction ps generalizing done with
  | nil => simp [moreParametersTree, moreParameterTokens]
  | cons p ps ih =>
      have hstep := ih (.cat done (.cat (.leaf (closeMark .comma)) (p.tree [' '])))
      simp only [moreParametersTree, List.foldl_cons] at hstep ⊢
      rw [hstep]
      simp [SimpleParameter.tokens_tree, moreParameterTokens]

theorem sourceOf_brackets (n : Nat) : Tree.sourceOf (bracketTokens n) = brackets n := by
  induction n with
  | zero => rfl
  | succ n ih =>
      rw [bracketTokens, sourceOf_cons, sourceOf_cons, ih]
      rfl

theorem SimpleType.sourceOf (t : SimpleType) : Tree.sourceOf t.tokens = ' ' :: t.text := by
  rw [SimpleType.tokens, sourceOf_cons, sourceOf_brackets]
  rfl

theorem SimpleType.textOf (t : SimpleType) : Tree.textOf t.tokens = t.text := by
  rw [SimpleType.tokens, Tree.textOf, sourceOf_brackets]
  rfl

theorem SimpleParameter.sourceOf (p : SimpleParameter) :
    Tree.sourceOf (p.tokens [' ']) = ' ' :: p.text := by
  have hcolon : ": ".toList = [':', ' '] := rfl
  rw [SimpleParameter.tokens, sourceOf_cons, sourceOf_cons, SimpleType.sourceOf,
    SimpleParameter.text, hcolon, List.append_assoc]
  rfl

theorem sourceOf_moreParameters (ps : List SimpleParameter) :
    Tree.sourceOf (moreParameterTokens ps) = moreParametersText ps := by
  induction ps with
  | nil => rfl
  | cons p ps ih =>
      simp only [moreParameterTokens, moreParametersText, List.flatMap_cons] at ih ⊢
      rw [List.cons_append, sourceOf_cons, sourceOf_append, SimpleParameter.sourceOf, ih]
      rfl

/-- The parameters of a function are cut out as they are written. -/
theorem SimpleFunction.parameterText (f : SimpleFunction) :
    f.content.parameterText = parametersText f.parameters := by
  have hfound : f.content.child? .parameters = some (parametersTree f.parameters) := rfl
  rw [Tree.parameterText, hfound, Option.bind_some]
  cases f.parameters with
  | nil => rfl
  | cons p ps =>
      have hlist : (parametersTree (p :: ps)).child? .parameterList =
          some (.cat (.cat (p.tree []) (moreParametersTree .empty ps)) .empty) := rfl
      have htokens : (Tree.cat (.cat (p.tree []) (moreParametersTree .empty ps)) .empty).tokens =
          p.tokens [] ++ moreParameterTokens ps := by
        simp [SimpleParameter.tokens_tree, tokens_moreParameters]
      rw [hlist, parametersText_cons]
      change Tree.textOf (Tree.cat _ _).tokens = _
      rw [htokens, SimpleParameter.tokens, List.cons_append, List.cons_append, Tree.textOf,
        sourceOf_cons, sourceOf_append, sourceOf_moreParameters, SimpleType.sourceOf,
        SimpleParameter.text]
      simp only [List.append_assoc]
      rfl

/-! ### Colons -/

/-- A text without any colon. -/
abbrev Text.withoutColons (t : Text) : Text := t.filter (· != ':')

theorem withoutColons_word {w : Text} (hw : isIdentifier w = true) : w.withoutColons = w := by
  rcases isIdentifier_iff.1 hw with ⟨c, v, rfl, hc, hv⟩
  refine List.filter_eq_self.2 fun d hd => ?_
  have hpart : isIdentifierPart d = true := by
    rcases List.mem_cons.1 hd with rfl | hd
    · simp [isIdentifierPart, hc]
    · exact hv d hd
  have hne : d ≠ ':' := by
    rintro rfl
    exact absurd hpart (by decide)
  simpa using hne

theorem withoutColons_brackets (n : Nat) : (brackets n).withoutColons = brackets n := by
  induction n with
  | zero => rfl
  | succ n ih => simp [brackets, ih]

theorem SimpleType.withoutColons (t : SimpleType) : t.text.withoutColons = t.text := by
  rw [SimpleType.text, Text.withoutColons, List.filter_append]
  rw [show t.name.word.filter _ = _ from withoutColons_word t.name.isIdentifier,
    show (brackets t.rank).filter _ = _ from withoutColons_brackets t.rank]

/-- A parameter as it stands in a signature. -/
def SimpleParameter.listed (p : SimpleParameter) : Text := p.name.word ++ " " ++ p.type.text

theorem SimpleParameter.withoutColons (p : SimpleParameter) :
    p.text.withoutColons = p.listed := by
  have hname := withoutColons_word p.name.isIdentifier
  have htype := p.type.withoutColons
  have hcolon : (": ".toList).filter (· != ':') = " ".toList := rfl
  simp only [Text.withoutColons] at hname htype ⊢
  rw [SimpleParameter.text, List.filter_append, List.filter_append, hname, htype, hcolon,
    SimpleParameter.listed]

theorem withoutColons_parameters (ps : List SimpleParameter) :
    (parametersText ps).withoutColons =
      Text.joinWith ", " (ps.map SimpleParameter.listed) := by
  induction ps with
  | nil => rfl
  | cons p ps ih =>
      cases ps with
      | nil => exact p.withoutColons
      | cons q qs =>
          have hsplit : parametersText (p :: q :: qs) =
              p.text ++ ", ".toList ++ parametersText (q :: qs) := rfl
          have hcomma : (", ".toList).filter (· != ':') = ", ".toList := rfl
          have hfirst := p.withoutColons
          simp only [Text.withoutColons] at hfirst ih ⊢
          rw [hsplit, List.filter_append, List.filter_append, hfirst, hcomma, ih]
          rfl

/-! ### Reading signatures -/

/-- The signature of a simple function. -/
def SimpleFunction.signature (f : SimpleFunction) : Signature where
  name := f.name.word
  params :=
    if f.result.text = Signature.triggerType then []
    else Text.joinWith ", " (f.parameters.map SimpleParameter.listed)
  returnType := f.result.text

theorem SimpleFunction.ofDeclaration? (f : SimpleFunction) :
    Signature.ofDeclaration? f.content = some f.signature := by
  have hreturn : f.content.child? .returnType = some f.result.tree := rfl
  have hname : f.content.functionName = f.name.word := rfl
  have hresult : f.result.tree.withoutLeadingBar.text = f.result.text := by
    have hplain : f.result.tree.withoutLeadingBar = f.result.tree := rfl
    rw [hplain, Tree.text, SimpleType.tokens_tree, SimpleType.textOf]
  have hparams := withoutColons_parameters f.parameters
  simp only [Signature.ofDeclaration?, hreturn, hname, hresult, f.parameterText]
  rw [SimpleFunction.signature, ← hparams]

theorem SimpleLine.children (line : SimpleLine) (gap : Text) :
    (line.tree gap).children = [line.tree gap] := by
  cases line with
  | synonym a => rfl
  | function f => cases hexported : f.isExported <;> simp [SimpleLine.tree, hexported]

theorem children_lines (lines : List SimpleLine) (gap : Text) (done : Tree) :
    (joinTrees done (lineTrees gap lines)).children = done.children ++ lineTrees gap lines := by
  induction lines generalizing gap done with
  | nil => simp [lineTrees, joinTrees]
  | cons line lines ih =>
      have hmore := ih ['\n'] (.cat done (line.tree gap))
      simp only [Tree.children_cat, line.children, List.append_assoc] at hmore
      exact hmore

theorem exists_node_of_mem_lines {lines : List SimpleLine} {gap : Text} {t : Tree}
    (h : t ∈ lineTrees gap lines) : ∃ k content, t = .node k content := by
  induction lines generalizing gap with
  | nil => exact absurd h (by simp [lineTrees])
  | cons line lines ih =>
      rcases List.mem_cons.1 h with rfl | h
      · cases line with
        | synonym a => exact ⟨_, _, rfl⟩
        | function f => cases hexported : f.isExported <;> simp [SimpleLine.tree, hexported]
      · exact ih h

/-- The lines of a file are its items. -/
theorem items_lines {m : Module} {lines : List SimpleLine} {last : Text}
    (h : m.tree = .cat (joinTrees .empty (lineTrees [] lines)) (.leaf (endToken last))) :
    m.items = lineTrees [] lines := by
  rw [Module.items, h, Tree.children_cat, children_lines, Tree.children_empty, Tree.children_leaf,
    List.nil_append, List.filter_append]
  refine (congrArg (· ++ _) (List.filter_eq_self.2 fun t ht => ?_)).trans (List.append_nil _)
  rcases exists_node_of_mem_lines ht with ⟨k, content, rfl⟩
  rfl

theorem SimpleAlias.function? (a : SimpleAlias) (gap : Text) :
    ((SimpleLine.synonym a).tree gap).function? = none := rfl

theorem SimpleFunction.function? (f : SimpleFunction) (gap : Text) :
    ((SimpleLine.function f).tree gap).function? = some f.content := by
  cases hexported : f.isExported <;> simp only [SimpleLine.tree, hexported] <;> rfl

/-- The first function of a file is its declaration. -/
theorem declaration?_lines {m : Module} (aliases : List SimpleAlias) (f : SimpleFunction)
    (more : List SimpleLine)
    (h : m.items = lineTrees [] (aliases.map .synonym ++ .function f :: more)) :
    Signature.declaration? m = some f.content := by
  have hbody : f.content.child? .body = none := rfl
  rw [Signature.declaration?, h]
  clear h
  generalize ([] : Text) = gap
  induction aliases generalizing gap with
  | nil => simp [lineTrees, f.function?, hbody]
  | cons a aliases ih =>
      simp only [List.map_cons, List.cons_append, lineTrees, List.findSome?_cons, a.function?]
      exact ih ['\n']

namespace Signature

/-- The first function of a file of simple declarations gives its signature, whatever its size. -/
theorem read_simple {path : Text} (hpath : ".d.ts".toList <:+ path) (aliases : List SimpleAlias)
    (f : SimpleFunction) (more : List SimpleLine) :
    read path (aliases.flatMap SimpleAlias.text ++ f.text ++ more.flatMap SimpleLine.text) =
      .ok f.signature := by
  have htext : (aliases.map SimpleLine.synonym ++ .function f :: more).flatMap SimpleLine.text =
      aliases.flatMap SimpleAlias.text ++ f.text ++ more.flatMap SimpleLine.text := by
    have haliases : (aliases.map SimpleLine.synonym).flatMap SimpleLine.text =
        aliases.flatMap SimpleAlias.text := by
      rw [List.flatMap_map]
      rfl
    rw [List.flatMap_append, List.flatMap_cons, haliases, List.append_assoc]
    rfl
  have hlines : aliases.map SimpleLine.synonym ++ .function f :: more ≠ [] := by simp
  rcases parse?_lines hlines with ⟨m, last, hparse, htree⟩
  have hdeclared := declaration?_lines aliases f more (items_lines htree)
  rw [← Dialect.ofPath_declarations hpath, htext] at hparse
  unfold read
  rw [hparse]
  dsimp only
  rw [hdeclared]
  dsimp only
  rw [f.ofDeclaration?]

/-- A file with an alias, a function with several parameters, and a trigger behind it. -/
def threeLines : Text := [
  "export type row = text[];",
  "export declare function first(a: number, rows: row[][]): arguments[];",
  "declare function second(new_row: row): trigger;"].flatMap (·.toList ++ ['\n'])

theorem read_simple_threeLines : ".d.ts".toList <:+ "f.d.ts".toList ∧
    read "f.d.ts" threeLines = .ok ⟨"first", "a number, rows row[][]", "arguments[]"⟩ := by
  have hpath : ".d.ts".toList <:+ "f.d.ts".toList := ⟨['f'], rfl⟩
  let row : TypeName := ⟨"row", by decide, by decide⟩
  let a : SimpleParameter := ⟨⟨"a", by decide, by decide⟩, ⟨⟨"number", by decide, by decide⟩, 0⟩⟩
  let rows : SimpleParameter := ⟨⟨"rows", by decide, by decide⟩, ⟨row, 2⟩⟩
  let newRow : SimpleParameter := ⟨⟨"new_row", by decide, by decide⟩, ⟨row, 0⟩⟩
  let first : SimpleFunction :=
    ⟨true, ⟨"first", by decide, by decide⟩, [a, rows], ⟨⟨"arguments", by decide, by decide⟩, 1⟩⟩
  let second : SimpleFunction :=
    ⟨false, ⟨"second", by decide, by decide⟩, [newRow], ⟨⟨"trigger", by decide, by decide⟩, 0⟩⟩
  have hread := read_simple hpath [⟨row, ⟨⟨"text", by decide, by decide⟩, 1⟩⟩] first
    [.function second]
  have htext : [(⟨row, ⟨⟨"text", by decide, by decide⟩, 1⟩⟩ : SimpleAlias)].flatMap SimpleAlias.text ++
      first.text ++ [SimpleLine.function second].flatMap SimpleLine.text = threeLines := by
    decide +kernel
  have hsignature : first.signature = ⟨"first", "a number, rows row[][]", "arguments[]"⟩ := rfl
  rw [htext, hsignature] at hread
  exact ⟨hpath, hread⟩

/-- A function may have an identifier that is reserved nowhere as its name, and yet not be read:
`eval` is no name to be bound. -/
theorem read_simple_eval : isIdentifier "eval" = true ∧
    (Keyword.ofText? "eval").any (fun k => k.isReserved || k.isStrictReserved) = false ∧
    read "f.d.ts" "export declare function eval(): number;\n" = .error (.unparsable "f.d.ts") := by
  decide +kernel

end Signature

end Signatures

end ProcedureGen
