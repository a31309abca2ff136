import ProcedureGen.Proofs.Script.Depth
import ProcedureGen.Proofs.Script.Echo
import ProcedureGen.Proofs.Script.Function
import ProcedureGen.Proofs.Script.Spelling

/-!
# Exported functions

The statements of an exported function in the text of its module, and the text of a module that has
given statements.

* `ReadsAt`: what a phrase reads off the front of a text, with a bound on the depth;
* `Tree.plainExport`: the item that exports a function, neither asynchronous nor a generator;
* `ReadsAt.plainExport_inv`, `Tree.isSound_plainExport`: its statements stand in front of a closing
  brace, without early errors;
* `plainExportText`: a module that exports such a function without parameters;
* `Module.parse?_plainExportText`: it is read, if its statements are.
-/

namespace ProcedureGen
namespace Script

open Phrase Grammar

/-! ## Reading texts -/

/-- What a phrase of plain scripts reads off the front of a text, and the text behind that. -/
def ReadsAt (depth : Nat) (p : Phrase) (x : Text) (tree : Tree) (y : Text) : Prop :=
  p.read .plain depth ((grammar .plain).read .plain depth) (.ofText x) = some (tree, .ofText y)

namespace ReadsAt

variable {depth : Nat} {p q : Phrase} {k : Node} {x y z : Text} {tree t u : Tree} {c : Cursor}

theorem eq_some (h : ReadsAt depth p x tree y) :
    p.read .plain depth ((grammar .plain).read .plain depth) (.ofText x) =
      some (tree, .ofText y) := h

/-- What is read leaves a text that is no longer. -/
theorem of_read (h : p.read .plain depth ((grammar .plain).read .plain depth) (.ofText x) =
    some (tree, c)) : ∃ y, c = .ofText y ∧ ReadsAt depth p x tree y ∧ y.length ≤ x.length := by
  have hrules := Grammar.read_advances (grammar_isRanked .plain) .plain depth
  rcases Phrase.read_advances hrules p x tree c h with ⟨y, rfl, hy⟩
  exact ⟨y, rfl, h, hy.length_le⟩

/-- What is read with a bound that is large enough is read with every such bound. -/
theorem depth_eq {n : Nat} (h : ReadsAt depth p x tree y) (hp : p.isProductive = true)
    (hdepth : 11 * (x.length + 1) ≤ depth) (hn : 11 * (x.length + 1) ≤ n) :
    ReadsAt n p x tree y :=
  (Phrase.read_depth_eq .plain hp hn hdepth).trans h

theorem seq_inv (h : ReadsAt depth (.seq p q) x tree y) :
    ∃ t u z, tree = .cat t u ∧ z.length ≤ x.length ∧ ReadsAt depth p x t z ∧
      ReadsAt depth q z u y := by
  rcases read_seq_iff.1 h with ⟨t, c, u, hfirst, hsecond, rfl⟩
  rcases of_read hfirst with ⟨z, rfl, hfirst, hlength⟩
  exact ⟨t, u, z, rfl, hlength, hfirst, hsecond⟩

theorem seq (h : ReadsAt depth p x t z) (h' : ReadsAt depth q z u y) :
    ReadsAt depth (.seq p q) x (.cat t u) y := read_seq_iff.2 ⟨t, _, u, h, h', rfl⟩

theorem either_inv (h : ReadsAt depth (.either p q) x tree y) :
    ReadsAt depth p x tree y ∨ ReadsAt depth q x tree y :=
  (read_either_iff.1 h).imp_right And.right

theorem first (h : ReadsAt depth p x tree y) : ReadsAt depth (.either p q) x tree y :=
  read_either_iff.2 (.inl h)

theorem second (hp : p.read .plain depth ((grammar .plain).read .plain depth) (.ofText x) = none)
    (h : ReadsAt depth q x tree y) : ReadsAt depth (.either p q) x tree y :=
  read_either_iff.2 (.inr ⟨hp, h⟩)

theorem node_inv (h : ReadsAt depth (.node k p) x tree y) :
    ∃ t, tree = .node k t ∧ ReadsAt depth p x t y := by
  rcases read_node_iff.1 h with ⟨t, hread, rfl⟩
  exact ⟨t, rfl, hread⟩

theorem node (h : ReadsAt depth p x t y) (k : Node) : ReadsAt depth (.node k p) x (.node k t) y :=
  read_node_iff.2 ⟨t, h, rfl⟩

theorem rule_inv {r : Rule} (h : ReadsAt depth (.rule r) x tree y) :
    ∃ below, depth = below + 1 ∧ ReadsAt below (grammar .plain r) x tree y := by
  cases depth with
  | zero => cases h
  | succ below => exact ⟨below, rfl, h⟩

theorem readAs (h : ReadsAt depth p x tree y) : ReadAs .plain p tree := ⟨depth, _, _, h⟩

/-- A word or a mark is the next token as it stands there, -/
theorem token_inv {m : Terminal} (hm : m.roles?.isSome = true)
    (h : ReadsAt depth (.token m) x tree y) :
    tree = .leaf (Token.scan x).1 ∧ m.matchesKind .plain (Token.scan x).1.kind = true ∧
      y = (Token.scan x).2 := by
  rcases Option.isSome_iff_exists.1 hm with ⟨rs, hroles⟩
  have haccept : (if m.matchesKind .plain (Cursor.ofText x).token.kind then
      some (Cursor.ofText x).advance else none) = some (tree, .ofText y) :=
    (Terminal.accept_of_roles? hroles .plain (.ofText x)).symm.trans h
  split at haccept
  next hkind =>
    rcases Prod.mk.inj (Option.some.inj haccept) with ⟨htree, hc⟩
    exact ⟨htree.symm, hkind, (Cursor.ofText_injective hc).symm⟩
  · cases haccept

/-- and a token that stands there is read as such. -/
theorem token {m : Terminal} {a : Token} (hm : m.roles?.isSome = true)
    (hscan : Token.scan x = (a, y)) (hkind : m.matchesKind .plain a.kind = true) :
    ReadsAt depth (.token m) x (.leaf a) y := by
  rcases Option.isSome_iff_exists.1 hm with ⟨rs, hroles⟩
  have hcursor : Cursor.ofText x = ⟨a, y⟩ := by rw [Cursor.ofText, hscan]
  have haccept := Terminal.accept_of_roles? hroles .plain (.ofText x)
  rw [hcursor] at haccept
  rw [ReadsAt, hcursor]
  exact haccept.trans (if_pos hkind)

end ReadsAt

/-! ## Plain functions -/

/-- The mark `p` behind the gap `g`. -/
def markBehind (g : Text) (p : Punctuator) : Token := ⟨.punctuator p, g, p.spelling, false⟩

namespace Tree

/-- Whether an item exports a function that is neither asynchronous nor a generator. -/
def isPlainExport : Tree → Bool
  | .node .exportedFunction t => t.children.any (isNode (.function false false))
  | _ => false

/-- The parentheses of a function without parameters. -/
def noParameters : Tree :=
  .cat (.leaf (markBehind [] .parenOpen)) (.cat .empty (.leaf (markBehind [] .parenClose)))

/-- The content of a function without type parameters and result type. -/
def plainFunction (function name opening closing : Token) (parameters items : Tree) : Tree :=
  .cat (.leaf function) (.cat (.node .functionName (.leaf name)) (.cat .empty
    (.cat (.node .parameters parameters) (.cat .empty
      (.node .body (.cat (.leaf opening) (.cat items (.leaf closing))))))))

/-- The item that exports a plain function. -/
def plainExport (introduced function name opening closing : Token) (parameters items : Tree) :
    Tree :=
  .node .exportedFunction (.cat (.leaf introduced) (.node (.function false false)
    (plainFunction function name opening closing parameters items)))

section PlainExport

variable {introduced function name opening closing : Token} {parameters items : Tree}

theorem functionName_plainFunction :
    (plainFunction function name opening closing parameters items).functionName =
      name.word?.getD [] := rfl

theorem isSoundFunction_noParameters :
    (plainFunction function name opening closing noParameters items).isSoundFunction = true := rfl

theorem isSound_noParameters (c : Context) : noParameters.isSound c = true := rfl

/-- The body of an exported function has no early error where the function has none. -/
theorem isSound_plainExport :
    (plainExport introduced function name opening closing parameters items).isSound .top =
      ((plainFunction function name opening closing parameters items).isSoundFunction &&
        (items.isSound Context.top.body && parameters.isSound Context.top.parameters)) := by
  simp only [plainExport, plainFunction, isSound, Context.permits, Context.enter, Bool.true_and,
    Bool.and_true]
  rfl

end PlainExport

end Tree

namespace ReadsAt

variable {depth : Nat} {x y : Text} {tree : Tree}

/-- A body is read up to its statements, and behind them its closing brace. -/
theorem body_inv (h : ReadsAt depth (.rule .body) x tree y) :
    ∃ below opening items x₀ y₀, depth = below + 1 ∧
      tree = .node .body (.cat (.leaf opening) (.cat items (.leaf (Token.scan y₀).1))) ∧
      x₀.length ≤ x.length ∧ ReadsAt below (.many (.rule .item)) x₀ items y₀ ∧ Closes y₀ := by
  rcases h.rule_inv with ⟨below, rfl, hnode⟩
  rcases node_inv hnode with ⟨block, rfl, hblock⟩
  rcases hblock.seq_inv with ⟨opening, rest, x₀, rfl, hlength, hopening, hrest⟩
  rcases token_inv rfl hopening with ⟨rfl, -, -⟩
  rcases hrest.seq_inv with ⟨items, closing, y₀, rfl, -, hitems, hclosing⟩
  rcases token_inv rfl hclosing with ⟨rfl, hcloses, -⟩
  refine ⟨below, _, items, x₀, y₀, rfl, rfl, hlength, hitems, ?_⟩
  unfold Closes
  cases hkind : (Token.scan y₀).1.kind <;> simp_all [Terminal.matchesKind]

/-- Parameters stand in front of a body. -/
theorem implementation_inv (h : ReadsAt depth (implementation .plain) x tree y) :
    ∃ parameters body z,
      tree = .cat .empty (.cat (.node .parameters parameters) (.cat .empty body)) ∧
      z.length ≤ x.length ∧ ReadsAt depth (.rule .body) z body y := by
  rcases h.seq_inv with ⟨types, t, x₁, rfl, hlength₁, htypes, hhead⟩
  obtain rfl := htypes.readAs.empty
  rcases hhead.seq_inv with ⟨parameters, u, x₂, rfl, hlength₂, hparameters, hresult⟩
  rcases ReadAs.node hparameters.readAs.rule with ⟨parameters, rfl, -⟩
  rcases hresult.seq_inv with ⟨result, body, x₃, rfl, hlength₃, hnone, hbody⟩
  obtain rfl := hnone.readAs.empty
  exact ⟨parameters, body, x₃, rfl, by omega, hbody⟩

/-- A plain function is introduced by one word, and has a name. -/
theorem plainFunction_inv {f : Tree} (h : ReadsAt depth (functionDeclaration .plain) x f y)
    (hplain : f.isNode (.function false false) = true) :
    ∃ function x₁ rest z,
      f = .node (.function false false) (.cat (.leaf function)
        (.cat (.node .functionName (.leaf (Token.scan x₁).1)) rest)) ∧
      Terminal.binding.matchesKind .plain (Token.scan x₁).1.kind = true ∧
      z.length ≤ x.length ∧ ReadsAt depth (implementation .plain) z rest y := by
  -- The other kinds of functions give other nodes.
  have hother : ∀ {isAsync isGenerator p}, (isAsync || isGenerator) = true →
      ¬ ReadsAt depth (.node (.function isAsync isGenerator) p) x f y := by
    intro isAsync isGenerator p hkind hread
    rcases hread.node_inv with ⟨t, rfl, -⟩
    cases isAsync <;> cases isGenerator <;> simp [Tree.isNode] at hplain hkind
  have hkind := ((h.either_inv.resolve_left (hother rfl)).either_inv.resolve_left
    (hother rfl)).either_inv.resolve_left (hother rfl)
  rcases hkind.node_inv with ⟨content, rfl, hcontent⟩
  rcases hcontent.seq_inv with ⟨function, t, x₁, rfl, hlength₁, hfunction, hnamed⟩
  rcases token_inv rfl hfunction with ⟨rfl, -, -⟩
  rcases hnamed.seq_inv with ⟨named, rest, z, rfl, hlength, hname, hbehind⟩
  rcases hname.node_inv with ⟨name, rfl, hbinding⟩
  rcases token_inv rfl hbinding with ⟨rfl, hmatches, -⟩
  rcases hbehind.either_inv with himplementation | hsignature
  · exact ⟨_, x₁, rest, z, rfl, hmatches, by omega, himplementation⟩
  · cases hsignature.readAs.only.1

/-- An exported plain function is read up to its statements, and behind them its closing brace. -/
theorem plainExport_inv (h : ReadsAt depth (.rule .moduleItem) x tree y)
    (hplain : tree.isPlainExport = true) :
    ∃ below introduced function opening parameters items x₀ x₁ y₀,
      depth = below + 3 ∧
      tree = Tree.plainExport introduced function (Token.scan x₁).1 opening (Token.scan y₀).1
        parameters items ∧
      Terminal.binding.matchesKind .plain (Token.scan x₁).1.kind = true ∧
      x₀.length ≤ x.length ∧ ReadsAt below (.many (.rule .item)) x₀ items y₀ ∧ Closes y₀ := by
  rcases h.rule_inv with ⟨depth, rfl, hitem⟩
  rcases hitem.either_inv with hexported | hother
  -- No other item is marked as an export.
  swap
  · rcases hother.either_inv with hbare | hother
    · rcases hbare.node_inv with ⟨t, rfl, -⟩
      cases hplain
    · rcases hother.node_inv with ⟨t, rfl, -⟩
      cases hplain
  rcases hexported.node_inv with ⟨t, rfl, hexport⟩
  rcases hexport.seq_inv with ⟨introduced, f, x₂, rfl, hlength₂, hword, hfunction⟩
  rcases token_inv rfl hword with ⟨rfl, -, -⟩
  rcases hfunction.either_inv with hfunction | hdeclared
  -- A plain script declares no function without a body.
  swap
  · cases hdeclared.readAs.only.1
  rcases hfunction.rule_inv with ⟨depth, rfl, hkinds⟩
  have hnode : f.isNode (.function false false) = true := by
    rcases hfunction.readAs.functionDeclaration with ⟨isAsync, isGenerator, g, -, -, rfl, -⟩
    simpa [Tree.isPlainExport, Tree.isNode] using hplain
  rcases plainFunction_inv hkinds hnode with
    ⟨function, x₁, rest, z, rfl, hmatches, hlength, himplementation⟩
  rcases himplementation.implementation_inv with ⟨parameters, body, z', rfl, hlength', hbody⟩
  rcases hbody.body_inv with ⟨below, opening, items, x₀, y₀, rfl, rfl, hlength₀, hitems, hcloses⟩
  exact ⟨below, _, _, _, _, items, x₀, x₁, y₀, rfl, rfl, hmatches, by omega, hitems, hcloses⟩

end ReadsAt

/-! ## Statements of a block -/

/-- Statements in front of a closing brace cover the text up to it. -/
theorem ReadsAt.items_split {depth : Nat} {x y : Text} {items : Tree}
    (h : ReadsAt depth (.many (.rule .item)) x items y) (hy : Closes y) :
    x = items.source ++ (Token.scan y).1.gap ++ '\x7d' :: (Token.scan y).2 := by
  have hrules := Grammar.read_faithful (grammar_isRegular .plain) .plain depth
  rcases Phrase.read_faithful hrules rfl _ _ _ h with ⟨z, hz, goals, hleads⟩
  obtain rfl := Cursor.ofText_injective hz
  rw [hleads.sourceOf_append, Tree.source, List.append_assoc, ← hy.split.1]

/-! ## Writing plain functions -/

section Writing

variable {depth : Nat} {w x y z g : Text} {items : Tree}

/-- The text behind the name of a function without parameters; `x` stands behind its brace. -/
def implementationText (x : Text) : Text := '(' :: ')' :: ' ' :: '\x7b' :: x

/-- The text of a module that exports a plain function. -/
def plainExportText (w x : Text) : Text :=
  Keyword.export.spelling ++
    ' ' :: (Keyword.function.spelling ++ ' ' :: (w ++ implementationText x))

/-- No parameter begins at a closing parenthesis. -/
theorem readsAt_noParameters :
    ReadsAt (depth + 12) (.rule (.parameters true)) ('(' :: ')' :: x)
      (.node .parameters Tree.noParameters) x := by
  have hopen : Token.scan ('(' :: ')' :: x) = (markBehind [] .parenOpen, ')' :: x) :=
    Token.scan_single (g := []) rfl (p := .parenOpen) rfl rfl
  have hclose : Token.scan (')' :: x) = (markBehind [] .parenClose, x) :=
    Token.scan_single (g := []) rfl (p := .parenClose) rfl rfl
  have hlist : ReadsAt (depth + 11) (.seq (oneOf [
      .node .parameterList (.seq (restParameter .plain) (ahead (mark .parenClose))),
      .seq (.node .parameterList (.seq (separatedBy (mark .comma) (.rule (.parameter true)))
        (.optional (.seq (mark .comma) (.seq (restParameter .plain) (ahead (mark .parenClose)))))))
          (.optional (mark .comma)),
      .empty]) (mark .parenClose)) (')' :: x)
      (.cat .empty (.leaf (markBehind [] .parenClose))) x := by
    refine .seq (.second ?_ (.second ?_ rfl))
      (.token (m := .punctuator .parenClose) rfl hclose rfl)
    · rw [Cursor.ofText, hclose]
      rfl
    · rw [Cursor.ofText, hclose]
      rfl
  exact .node (.seq (.token (m := .punctuator .parenOpen) rfl hopen rfl) hlist) .parameters

/-- The grammar reads a body, if it reads its statements, -/
theorem readsAt_body (hitems : ReadsAt depth (.many (.rule .item)) x items y) (hy : Closes y) :
    ReadsAt (depth + 1) (.rule .body) (' ' :: '\x7b' :: x)
      (.node .body (.cat (.leaf (markBehind [' '] .braceOpen))
        (.cat items (.leaf (Token.scan y).1)))) (Token.scan y).2 := by
  have hopening : Token.scan (' ' :: '\x7b' :: x) = (markBehind [' '] .braceOpen, x) :=
    Token.scan_single (g := [' ']) rfl (p := .braceOpen) rfl rfl
  have hclosing : Terminal.matchesKind .plain (.punctuator .braceClose) (Token.scan y).1.kind =
      true := by
    rw [hy]
    rfl
  have hblock : ReadsAt depth (.all [mark .braceOpen, .many (.rule .item), mark .braceClose])
      (' ' :: '\x7b' :: x) _ (Token.scan y).2 :=
    .seq (.token (m := .punctuator .braceOpen) rfl hopening rfl)
      (.seq hitems (.token (m := .punctuator .braceClose) rfl rfl hclosing))
  exact hblock.node .body

/-- and so it reads all that stands behind the name of a function. -/
theorem readsAt_implementation (hitems : ReadsAt (depth + 12) (.many (.rule .item)) x items y)
    (hy : Closes y) :
    ReadsAt (depth + 13) (implementation .plain) (implementationText x)
      (.cat .empty (.cat (.node .parameters Tree.noParameters) (.cat .empty
        (.node .body (.cat (.leaf (markBehind [' '] .braceOpen))
          (.cat items (.leaf (Token.scan y).1))))))) (Token.scan y).2 :=
  .seq (p := typeParameters? .plain) (z := implementationText x) (t := .empty) rfl
    (.seq readsAt_noParameters
      (.seq (p := returnType? .plain) (z := ' ' :: '\x7b' :: x) (t := .empty) rfl
        (readsAt_body hitems hy)))

/-- A keyword between spaces. -/
theorem Token.scan_keyword (k : Keyword) (hg : Gap.pass .blank g = some .blank) (z : Text) :
    Token.scan (g ++ (k.spelling ++ ' ' :: z)) =
      (⟨.keyword k, g, k.spelling, g.any isLineEnd⟩, ' ' :: z) := by
  rw [scan_identifier hg (isIdentifier_spelling k) (quiet_mark (by simp)), wordKind_spelling]

/-- The name of a function without parameters. -/
theorem Token.scan_functionName (hw : isIdentifier w = true) (x : Text) :
    Token.scan (' ' :: (w ++ implementationText x)) =
      (⟨wordKind w, [' '], w, false⟩, implementationText x) :=
  scan_identifier (g := [' ']) rfl hw (quiet_mark (by simp))

/-- No star stands behind a word `function` that a name follows. -/
theorem read_generator_eq_none {p : Phrase} {k : Node} {bound : Nat} {t : Token}
    (hw : isIdentifier w = true) (hx : Token.scan x = (t, ' ' :: (w ++ implementationText z))) :
    (Phrase.node k (.all [Grammar.word .function, mark .star, p])).read .plain bound
      ((grammar .plain).read .plain bound) (.ofText x) = none := by
  rw [Option.eq_none_iff_forall_ne_some]
  rintro ⟨tree, c⟩ hread
  rcases ReadsAt.of_read hread with ⟨y, rfl, hread, -⟩
  rcases hread.node_inv with ⟨u, -, hread⟩
  rcases hread.seq_inv with ⟨word, v, x₁, -, -, hword, hbehind⟩
  rcases hbehind.seq_inv with ⟨star, _, _, -, -, hstar, -⟩
  have hx₁ := (ReadsAt.token_inv rfl hword).2.2
  rw [hx] at hx₁
  have hkind := (ReadsAt.token_inv rfl hstar).2.1
  rw [hx₁, Token.scan_functionName hw] at hkind
  unfold wordKind at hkind
  split at hkind <;> cases hkind

/-- The grammar reads the item that exports a plain function, if it reads the statements. -/
theorem readsAt_plainExport (hw : isIdentifier w = true)
    (hbinding : Terminal.binding.matchesKind .plain (wordKind w) = true)
    (hitems : ReadsAt (depth + 12) (.many (.rule .item)) x items y) (hy : Closes y) :
    ReadsAt (depth + 15) (.rule .moduleItem) (plainExportText w x)
      (Tree.plainExport ⟨.keyword .export, [], Keyword.export.spelling, false⟩
        ⟨.keyword .function, [' '], Keyword.function.spelling, false⟩ ⟨wordKind w, [' '], w, false⟩
        (markBehind [' '] .braceOpen) (Token.scan y).1 Tree.noParameters items)
      (Token.scan y).2 := by
  have hfunction := Token.scan_keyword .function (g := [' ']) rfl (w ++ implementationText x)
  -- The kinds of functions that are tried before need more words, or a star.
  have hasync : ∀ {k : Node} {q : Phrase}, (Phrase.node k (.seq asyncFunction q)).read .plain
      (depth + 13) ((grammar .plain).read .plain (depth + 13)) (.ofText ([' '] ++
        (Keyword.function.spelling ++ ' ' :: (w ++ implementationText x)))) = none := by
    intro k q
    rw [Cursor.ofText, hfunction]
    rfl
  have hdeclaration : ReadsAt (depth + 14) (.rule .functionDeclaration) _ _ (Token.scan y).2 :=
    .second hasync (.second hasync (.second (read_generator_eq_none hw hfunction) (.node
      (.seq (.token (m := .keyword .function) rfl hfunction rfl)
        (.seq (.node (.token (m := .binding) rfl (Token.scan_functionName hw x) hbinding)
          .functionName) (.first (readsAt_implementation hitems hy)))) (.function false false))))
  have hexport := Token.scan_keyword .export (g := []) rfl
    (Keyword.function.spelling ++ ' ' :: (w ++ implementationText x))
  exact .first (.node (.seq (.token (m := .keyword .export) rfl hexport rfl)
    (.first hdeclaration)) .exportedFunction)

/-- The name that a word without escapes gives. -/
theorem Token.word?_wordKind (w g r : Text) (n : Bool) :
    Token.word? ⟨wordKind w, g, r, n⟩ = some w := by
  rw [Token.word?, wordKind]
  cases h : Keyword.ofText? w with
  | none => rfl
  | some k => exact congrArg some (Keyword.spelling_of_ofText? h)

/-- A line end alone holds no item. -/
theorem read_moduleItem_feed {depth : Nat} (hdepth : 22 ≤ depth) :
    (Phrase.rule .moduleItem).read .plain depth ((grammar .plain).read .plain depth)
      (.ofText ['\n']) = none := by
  have hnone : ((Phrase.rule .moduleItem).read .plain 22 ((grammar .plain).read .plain 22)
      (.ofText ['\n'])).isNone = true := by decide +kernel
  have hlarge : 11 * (['\n'].length + 1) ≤ 22 := le_rfl
  rw [Phrase.read_depth_eq .plain (p := .rule .moduleItem) rfl hdepth hlarge]
  exact Option.isNone_iff_eq_none.1 hnone

/-- A module holds one item, if that is read up to the line end at its end. -/
theorem Module.read_single {depth : Nat} {item : Tree} (hdepth : 22 ≤ depth)
    (h : ReadsAt depth (.rule .moduleItem) x item ['\n']) :
    phrase.read .plain depth ((grammar .plain).read .plain depth) (.ofText x) =
      some (.cat (.cat .empty item) (.leaf (endToken ['\n'])), ⟨endToken [], []⟩) := by
  have hfinal : Terminal.accept .plain .endOfText (.ofText ['\n']) =
      some (.leaf (endToken ['\n']), ⟨endToken [], []⟩) := by decide +kernel
  refine read_seq_iff.2 ⟨_, _, _, read_many_iff.2 ?_, hfinal, rfl⟩
  rcases Nat.exists_eq_add_of_le' hdepth with ⟨k, rfl⟩
  have hnone := read_moduleItem_feed hdepth
  simp only [readMany, h.eq_some, hnone]

/-- A module that exports a plain function alone is read, if its statements are. -/
theorem Module.parse?_plainExportText (hw : isIdentifier w = true)
    (hbinding : Terminal.binding.matchesKind .plain (wordKind w) = true)
    (hitems : ReadsAt (11 * (x.length + 1)) (.many (.rule .item)) x items y) (hy : Closes y)
    (hend : (Token.scan y).2 = ['\n']) (hsound : items.isSound Context.top.body = true) :
    ∃ m introduced function parameters, parse? .plain (plainExportText w x) = some m ∧
      m.items = [Tree.plainExport introduced function ⟨wordKind w, [' '], w, false⟩
        (markBehind [' '] .braceOpen) (Token.scan y).1 parameters items] := by
  have hdepth : depthOf (plainExportText w x) = 16 * (plainExportText w x).length + 49 + 15 := by
    unfold depthOf
    omega
  have hlarge : 11 * (x.length + 1) ≤ 16 * (plainExportText w x).length + 49 + 12 := by
    simp [plainExportText, implementationText]
    omega
  have hitem := readsAt_plainExport hw hbinding (hitems.depth_eq rfl le_rfl hlarge) hy
  rw [hend] at hitem
  have hread := read_single (by omega) hitem
  have hcode : splitShebang (withoutMark (plainExportText w x)) = ([], plainExportText w x) := rfl
  unfold parse?
  dsimp only
  rw [hcode, hdepth, hread]
  dsimp only
  rw [if_pos]
  · exact ⟨_, _, _, _, rfl, rfl⟩
  · simp [Tree.isSound, Tree.isSound_plainExport, Tree.isSoundFunction_noParameters,
      Tree.isSound_noParameters, hsound]

end Writing

end Script
end ProcedureGen
