import ProcedureGen.Proofs.Signature.Layout

/-!
# Where the parameters of a signature stand

The parameters of a signature are cut out of the declaration: they are what stands between the
parentheses of the function, but for a comma at the end.

* `Enclosed`: what stands between two parentheses;
* `DeclaredTokens`: the tokens of a declared function, part by part;
* `IsFunction.exists_declaredTokens`: a function without a body has these parts;
* `Signature.read_params`: the parameters of a signature are a piece of the source.
-/

namespace ProcedureGen

open Script

namespace Script

/-! ## Colons -/

/-- Only a colon is written with a colon at its start. -/
theorem Goal.scan_colon {goal : Goal} {x y : Text} {t : Token} (h : goal.scan x = some (t, y))
    (hhead : t.raw.head? = some ':') : t.kind = .punctuator .colon := by
  have hmark : ∀ p : Punctuator, p.spelling.head? = some ':' → p = .colon := by
    intro p
    cases p <;> decide
  rcases scan_inv h with hread | hslash | hbrace | ⟨p, hraw, hkind⟩
  · rcases List.head?_eq_some_iff.1 hhead with ⟨raw, hraw⟩
    have hcolon : Punctuator.read? (':' :: (raw ++ y)) = some (.colon, raw ++ y) :=
      Punctuator.read?_of_longest? rfl (by simp)
    rw [hraw, List.cons_append, Token.read?_mark (by decide) hcolon] at hread
    exact (Prod.mk.inj (Option.some.inj hread)).1.symm
  · exact absurd (hslash.symm.trans hhead) (by decide)
  · exact absurd (hbrace.symm.trans hhead) (by decide)
  · rw [hraw] at hhead
    rw [hkind, hmark p hhead]

/-! ## Between parentheses -/

/-- What stands between two parentheses: the tokens of parameters, the first of which is no colon,
and perhaps a comma behind them. -/
structure Enclosed (content : Tree) (opening : Token) (params comma : List Token)
    (closing : Token) : Prop where
  tokens : content.tokens = opening :: (params ++ comma) ++ [closing]
  opens : opening.kind = .punctuator .parenOpen
  closes : closing.kind = .punctuator .parenClose
  balanced : Brackets.parens.depth 0 (params ++ comma) = some 0
  listed : (content.child? .parameterList).elim [] Tree.tokens = params
  trailing : comma = [] ∨ params ≠ [] ∧ ∃ t, comma = [t] ∧ t.kind = .punctuator .comma
  first : ∀ t ∈ params.head?, t.kind ≠ .punctuator .colon

/-- The rules of what a parameter starts with. -/
def parameterStarts : List Rule :=
  [.parameter false, .bindingTarget, .arrayPattern, .objectPattern]

/-- A parameter starts with a name, with three dots, or with the bracket or brace of a pattern. -/
theorem ReadAs.opens_parameter {p : Phrase} {tree : Tree}
    (hp : p.opensIn (· ≠ some .colon) parameterStarts = true) (h : ReadAs .ambient p tree) :
    tree.tokens ≠ [] ∧ ∀ t ∈ tree.tokens.head?, t.kind ≠ .punctuator .colon := by
  have hrules : ∀ r ∈ parameterStarts,
      (grammar .ambient r).opensIn (· ≠ some .colon) parameterStarts = true := by
    have hall : parameterStarts.all
        (fun r => (grammar .ambient r).opensIn (· ≠ some .colon) parameterStarts) = true := rfl
    exact List.all_eq_true.1 hall
  rcases ReadAs.opens hrules hp h with ⟨t, rest, htokens, htest⟩
  refine ⟨by simp [htokens], fun u hu hkind => ?_⟩
  obtain rfl : t = u := by simpa [htokens] using hu
  simp [hkind, Kind.mark?] at htest

/-- The parentheses of a declared function enclose its parameters. -/
theorem ReadAs.enclosed {content : Tree}
    (h : ReadAs .ambient (Grammar.parameters .ambient false) (.node .parameters content)) :
    ∃ opening params comma closing, Enclosed content opening params comma closing := by
  rcases h.node with ⟨_, heq, hread⟩
  obtain rfl := (Tree.node.inj heq).2
  rcases hread.behindMark with ⟨opening, t, rfl, hopens, hbehind⟩
  rcases hbehind.seq with ⟨list, u, rfl, hlist, hclose⟩
  rcases hclose.mark with ⟨closing, rfl, hcloses⟩
  have hbalanced : Brackets.parens.depth 0 list.tokens = some 0 :=
    hlist.depthIn (grammar_depthIn_parens .ambient) rfl
  have hchild : Tree.child? .parameterList (.cat (.leaf opening) (.cat list (.leaf closing))) =
      Tree.child? .parameterList list := by
    cases hlist : Tree.child? .parameterList list <;> simp [Tree.child?, hlist]
  rcases hlist.either with hrest | hlist
  · rcases hrest.node with ⟨l, rfl, hlast⟩
    refine ⟨opening, l.tokens, [], closing, by simp, hopens, hcloses, by simpa using hbalanced, ?_,
      .inl rfl, (hlast.opens_parameter rfl).2⟩
    rw [hchild]
    rfl
  rcases hlist.either with hlist | hnone
  · rcases hlist.seq with ⟨_, last, rfl, hparams, hlast⟩
    rcases hparams.node with ⟨l, rfl, hmembers⟩
    rcases hmembers.opens_parameter rfl with ⟨hne, hfirst⟩
    refine ⟨opening, l.tokens, last.tokens, closing, by simp, hopens, hcloses,
      by simpa using hbalanced, ?_, ?_, hfirst⟩
    · rw [hchild]
      rfl
    · rcases hlast.optional with hcomma | rfl
      · rcases hcomma.mark with ⟨token, rfl, hkind⟩
        exact .inr ⟨hne, token, rfl, hkind⟩
      · exact .inl rfl
  · obtain rfl := hnone.empty
    refine ⟨opening, [], [], closing, by simp, hopens, hcloses, rfl, ?_, .inl rfl, by simp⟩
    rw [hchild]
    rfl

/-! ## Declared functions -/

/-- The tokens of a declared function, part by part. -/
structure DeclaredTokens where
  /-- What introduces the function, such as `function` itself. -/
  words : List Token
  name : Token
  types : List Token
  opening : Token
  params : List Token
  /-- A comma behind the last parameter, or nothing. -/
  comma : List Token
  closing : Token
  /-- The colon and the result type, or nothing. -/
  result : List Token
  /-- A semicolon, or nothing. -/
  ending : List Token

namespace DeclaredTokens

/-- What stands in front of the parentheses. -/
def front (p : DeclaredTokens) : List Token := p.words ++ p.name :: p.types

/-- What stands behind them. -/
def back (p : DeclaredTokens) : List Token := p.result ++ p.ending

/-- Whether these are the parts of a function. -/
structure Of (p : DeclaredTokens) (f : Tree) : Prop where
  tokens : f.tokens = p.front ++ (p.opening :: (p.params ++ p.comma) ++ p.closing :: p.back)
  words : ∀ t ∈ p.words, t.kind ∈ introducing
  name : f.child? .functionName = some (.leaf p.name)
  types : p.types = (f.child? .typeParameters).elim [] Tree.tokens
  enclosed : ∃ content, f.child? .parameters = some content ∧
    Enclosed content p.opening p.params p.comma p.closing
  result : f.child? .returnType = none ∧ p.result = [] ∨
    ∃ colon t, f.child? .returnType = some t ∧ p.result = colon :: t.tokens ∧
      colon.kind = .punctuator .colon
  ending : p.ending = [] ∨ ∃ t, p.ending = [t] ∧ t.kind = .punctuator .semicolon

end DeclaredTokens

/-- The end of a declaration is a semicolon, or nothing. -/
theorem ReadAs.statementEnd {d : Dialect} {tree : Tree} (h : ReadAs d Grammar.statementEnd tree) :
    tree = .empty ∨ ∃ t, tree = .leaf t ∧ t.kind = .punctuator .semicolon := by
  rcases h.either with hmark | h
  · exact .inr hmark.mark
  refine .inl ?_
  rcases h.either with hnone | h
  · exact hnone.absent
  rcases h.either with hnone | hnone
  · exact hnone.absent
  · exact hnone.absent

/-- In a declaration file every function is made of these parts. -/
theorem IsFunction.exists_declaredTokens {f rest : Tree} {name : Token}
    (h : IsFunction .ambient f name rest) : ∃ p : DeclaredTokens, p.Of f := by
  rcases h.rest with hread | hsignature
  · rcases hread.head with ⟨_, _, _, last, -, -, hlast⟩
    exact absurd hlast.rule (ReadAs.not_only_false (p := .empty))
  · rcases h.introduced.tokens with ⟨words, htokens, hwords⟩
    have hchild := h.introduced.child?
    rcases ReadAs.head hsignature.only.2 with ⟨types, content, result, last, rfl, hhead, hlast⟩
    rcases hlast.seq with ⟨none, ending, rfl, hnone, hending⟩
    obtain rfl := hnone.absent
    rcases hhead.parameters.enclosed with ⟨opening, params, comma, closing, henclosed⟩
    refine ⟨⟨words, name, types.tokens, opening, params, comma, closing, result.tokens,
      ending.tokens⟩, ?_, hwords, ?_, ?_, ⟨content, ?_, henclosed⟩, ?_, ?_⟩
    · simp [htokens, DeclaredTokens.front, DeclaredTokens.back, henclosed.tokens]
    · rw [hchild]
      rfl
    -- What is looked up is found past the parts that stand in front of it, if there are any.
    all_goals
      rcases hhead.types with rfl | ⟨_, rfl⟩ <;>
      rcases hhead.result with rfl | ⟨colon, _, rfl, hcolon⟩ <;>
      rcases hending.statementEnd with rfl | ⟨_, rfl, hend⟩ <;>
      simp [Tree.child?, *]

theorem DeclaredTokens.Of.params_eq {p : DeclaredTokens} {f : Tree} (h : p.Of f) :
    f.parameterTokens = p.params := by
  rcases h.enclosed with ⟨content, hcontent, henclosed⟩
  rw [← henclosed.listed, Tree.parameterTokens, hcontent, Option.bind_some]
  cases Tree.child? .parameterList content <;> rfl

/-- A list of tokens starts with the gap in front of its text. -/
theorem exists_gap (ts : List Token) : ∃ gap, Tree.sourceOf ts = gap ++ Tree.textOf ts := by
  cases ts with
  | nil => exact ⟨[], rfl⟩
  | cons t ts => exact ⟨t.gap, by simp [sourceOf_cons, Tree.textOf]⟩

end Script

namespace Signature

variable {d : Dialect} {path source : Text} {m : Module} {f : Tree} {s : Signature}
  {p : DeclaredTokens}

/-- The text of parameters does not consist of colons alone. -/
theorem params_ne_nil (hm : Module.parse? d source = some m) (hf : declaration? m = some f)
    (hp : p.Of f) (hne : p.params ≠ []) : (Tree.textOf p.params).filter (· != ':') ≠ [] := by
  rcases hp.enclosed with ⟨content, -, henclosed⟩
  rcases List.exists_cons_of_ne_nil hne with ⟨t, ts, hparams⟩
  rcases leads_of_declaration? hm hf with ⟨goals, x, y, hleads⟩
  have htokens : f.tokens =
      (p.front ++ [p.opening]) ++ (t :: ts ++ p.comma ++ p.closing :: p.back) := by
    simp [hp.tokens, hparams]
  rw [htokens] at hleads
  rcases hleads.split with ⟨_, _, z, -, hbehind⟩
  rcases hbehind.cons_inv with ⟨goal, _, _, hscan, -⟩
  rcases List.exists_cons_of_ne_nil (Goal.scan_settled hscan).firm.ne_nil with ⟨c, raw, hraw⟩
  have hc : c ≠ ':' := by
    rintro rfl
    exact henclosed.first t (by simp [hparams]) (Goal.scan_colon hscan (by simp [hraw]))
  rw [hparams, Tree.textOf, hraw, List.cons_append, List.filter_cons_of_pos (by simpa using hc)]
  simp

/-- Where the parameters of a declared function stand.  Their tokens are those between its
parentheses, a comma at the end apart, and their text is the piece of the source from the first of
these tokens through the last. -/
structure Place (source : Text) (m : Module) (f : Tree) (p : DeclaredTokens)
    (before after : List Token) : Prop where
  parts : p.Of f
  pair : BracketPair .parens m.tree.tokens (before ++ p.front) p.opening (p.params ++ p.comma)
    p.closing (p.back ++ after)
  piece : ∃ start gap, source = start ++ m.code ∧
    m.code = Tree.sourceOf (before ++ p.front ++ [p.opening]) ++ (gap ++ Tree.textOf p.params) ++
      Tree.sourceOf (p.comma ++ p.closing :: (p.back ++ after))

/-- Every declaration of a declaration file has its parameters in one place. -/
theorem exists_place (hm : Module.parse? .ambient source = some m) (hf : declaration? m = some f) :
    ∃ p before after, Place source m f p before after := by
  rcases exists_item_of_declaration? hf with ⟨item, hitem, hfunction⟩
  rcases Module.isFunction_of_mem_items hm hitem hfunction with ⟨name, rest, hread⟩
  rcases hread.exists_declaredTokens with ⟨p, hp⟩
  rcases hp.enclosed with ⟨content, -, henclosed⟩
  have hpart : Tree.Part f m.tree :=
    (Tree.part_of_function? hfunction).trans (Tree.part_of_mem_children (List.mem_filter.1 hitem).1)
  rcases hpart.tokens with ⟨before, after, htokens⟩
  have hsplit : m.tree.tokens = (before ++ p.front) ++
      (p.opening :: (p.params ++ p.comma) ++ p.closing :: (p.back ++ after)) := by
    simp [htokens, hp.tokens]
  refine ⟨p, before, after, hp, ?_, ?_⟩
  · rw [hsplit]
    exact .of_depth (by decide) henclosed.opens henclosed.closes henclosed.balanced
  · rcases Module.parse?_scan hm with ⟨goals, hscan⟩
    rcases Module.exists_source_eq hm with ⟨mark, hsource, -⟩
    rcases exists_gap p.params with ⟨gap, hgap⟩
    refine ⟨mark ++ m.shebang, gap, by simp [hsource], ?_⟩
    rw [← sourceOf_scanAs hscan, ← hgap, ← sourceOf_append, ← sourceOf_append, hsplit]
    simp

/-- The parameters of a signature are the text of the whole list between the parentheses of the
declared function, without its colons.  They are empty for a trigger, for a function without
parameters, and for no other. -/
theorem read_params (hpath : ".d.ts".toList <:+ path) (h : read path source = .ok s) :
    ∃ m goals f p before after,
      Module.parse? .ambient source = some m ∧ scanAs goals m.code = some m.tree.tokens ∧
      declaration? m = some f ∧ Place source m f p before after ∧
      (s.returnType ≠ triggerType → s.params = (Tree.textOf p.params).filter (· != ':')) ∧
      (s.params = [] ↔ s.returnType = triggerType ∨ p.params = []) := by
  rcases (read_eq_ok_iff hpath).1 h with ⟨m, f, hm, hfirst, -, hs⟩
  have hf := declaration?_eq_some_iff.2 hfirst
  rcases Module.parse?_scan hm with ⟨goals, hscan⟩
  rcases exists_place hm hf with ⟨p, before, after, hplace⟩
  rw [ofDeclaration?_eq, hplace.parts.params_eq] at hs
  rcases Option.map_eq_some_iff.1 hs with ⟨rs, -, rfl⟩
  refine ⟨m, goals, f, p, before, after, hm, hscan, hf, hplace, fun htype => if_neg htype, ?_⟩
  by_cases htype : Tree.textOf rs = triggerType
  · simp [ofTokens, htype]
  · have hparams : (ofTokens f.functionName p.params rs).params =
        (Tree.textOf p.params).filter (· != ':') := if_neg htype
    have hreturn : (ofTokens f.functionName p.params rs).returnType ≠ triggerType := htype
    rw [hparams]
    constructor
    · intro hnil
      by_contra hnot
      exact params_ne_nil hm hf hplace.parts (fun hnone => hnot (.inr hnone)) hnil
    · rintro (htrigger | hnone)
      · exact absurd htrigger hreturn
      · rw [hnone]
        rfl

/-- A declaration with a type parameter whose bound is a function, and with parameters that are a
function, a pattern of an object and one of an array, one that may be left out and a rest. -/
def manyParameters : Text :=
  "export declare function f<T extends (x: \")\") => void>( // (\n" ++
  "  a: (b: T, c: '(') => string, \x7b d: [e], g \x7d: \x7b d: any[]; g: ')' \x7d,\n" ++
  "  [h]: T[], i?: number /* ) */, ...rest: Array<T> ): Array<text>;\n"

theorem read_params_manyParameters :
    ".d.ts".toList <:+ "f.d.ts".toList ∧
    ∃ s m goals f p before after,
      read "f.d.ts" manyParameters = .ok s ∧
      Module.parse? .ambient manyParameters = some m ∧ scanAs goals m.code = some m.tree.tokens ∧
      declaration? m = some f ∧ Place manyParameters m f p before after ∧
      s.params = (Tree.textOf p.params).filter (· != ':') ∧
      s.params = ("a (b T, c '(') => string, \x7b d [e], g \x7d \x7b d any[]; g ')' \x7d,\n" ++
        "  [h] T[], i? number /* ) */, ...rest Array<T>").toList := by
  have hpath : ".d.ts".toList <:+ "f.d.ts".toList := by decide
  have hread : read "f.d.ts" manyParameters =
      .ok ⟨"f", ("a (b T, c '(') => string, \x7b d [e], g \x7d \x7b d any[]; g ')' \x7d,\n" ++
        "  [h] T[], i? number /* ) */, ...rest Array<T>").toList, "Array<text>"⟩ := by
    decide +kernel
  rcases read_params hpath hread with
    ⟨m, goals, f, p, before, after, hm, hscan, hf, hplace, hparams, -⟩
  exact ⟨hpath, _, m, goals, f, p, before, after, hread, hm, hscan, hf, hplace, hparams (by decide),
    rfl⟩

end Signature

end ProcedureGen
