import ProcedureGen.Proofs.Script.Depth
import ProcedureGen.Proofs.Script.Module
import ProcedureGen.Proofs.Script.Shape

/-!
# Functions at the top of a module

How the functions that are looked up in a module have been read.

* `Introduced`: a function without the words in front of its name;
* `IsFunction`: a function with its name and what stands behind it;
* `ReadAs.moduleItem`: an item of a module holds a function, or it is none of those looked up;
* `Module.read_of_mem_items`: the items of a module have been read in its text.
-/

namespace ProcedureGen
namespace Script

variable {d : Dialect} {p q : Phrase} {tree : Tree}

/-! ## Words in front of others -/

namespace ReadAs

theorem behindMark {m : Punctuator} (h : ReadAs d (.seq (Grammar.mark m) q) tree) :
    ∃ token u, tree = .cat (.leaf token) u ∧ token.kind = .punctuator m ∧ ReadAs d q u := by
  rcases h.seq with ⟨t, u, rfl, hmark, hrest⟩
  rcases hmark.mark with ⟨token, rfl, hkind⟩
  exact ⟨token, u, rfl, hkind, hrest⟩

theorem behindWord {w : Keyword} (h : ReadAs d (.seq (Grammar.word w) q) tree) :
    ∃ token u, tree = .cat (.leaf token) u ∧ token.kind = .keyword w ∧ ReadAs d q u := by
  rcases h.seq with ⟨t, u, rfl, hword, hrest⟩
  rcases hword.word with ⟨token, rfl, hkind⟩
  exact ⟨token, u, rfl, hkind, hrest⟩

/-- What only some dialects have is read in those alone. -/
theorem only {condition : Bool} (h : ReadAs d (.only condition p) tree) :
    condition = true ∧ ReadAs d p tree := by
  cases condition with
  | false => exact absurd h not_only_false
  | true => exact ⟨rfl, h⟩

theorem optionalIf {condition : Bool} (h : ReadAs d (.optionalIf condition p) tree) :
    ReadAs d p tree ∨ tree = .empty := by
  cases condition with
  | false => exact .inr h.empty
  | true => exact h.optional

end ReadAs

/-! ## Named functions -/

/-- The kinds of the words in front of the name of a function. -/
def introducing : List Kind := [.keyword .async, .keyword .function, .punctuator .star]

/-- A function without the words that introduce it, which hold none of its parts. -/
structure Introduced (f rest : Tree) : Prop where
  tokens : ∃ words, f.tokens = words ++ rest.tokens ∧ ∀ t ∈ words, t.kind ∈ introducing
  child? : ∀ k, f.child? k = rest.child? k

namespace Introduced

variable {f rest : Tree}

theorem refl (f : Tree) : Introduced f f := ⟨⟨[], rfl, by simp⟩, fun _ => rfl⟩

theorem word {token : Token} (hkind : token.kind ∈ introducing) (h : Introduced f rest) :
    Introduced (.cat (.leaf token) f) rest := by
  rcases h.tokens with ⟨words, htokens, hwords⟩
  exact ⟨⟨token :: words, by simp [htokens], by simpa [hkind] using hwords⟩, h.child?⟩

/-- Two words that have to stand on one line are a tree of their own. -/
theorem pair {first second : Token} (hfirst : first.kind ∈ introducing)
    (hsecond : second.kind ∈ introducing) (h : Introduced f rest) :
    Introduced (.cat (.cat (.leaf first) (.cat .empty (.leaf second))) f) rest := by
  rcases h.tokens with ⟨words, htokens, hwords⟩
  exact ⟨⟨first :: second :: words, by simp [htokens], by simpa [hfirst, hsecond] using hwords⟩,
    h.child?⟩

end Introduced

/-- A function: words that introduce it, its name, and what the dialect has behind that. -/
structure IsFunction (d : Dialect) (f : Tree) (name : Token) (rest : Tree) : Prop where
  introduced : Introduced f (.cat (.node .functionName (.leaf name)) rest)
  rest : ReadAs d (Grammar.implementation d) rest ∨ ReadAs d (Grammar.signature d) rest

namespace ReadAs

/-- The name of a function, which has a node of its own. -/
theorem named (h : ReadAs d (.seq (.node .functionName (.token .binding)) q) tree) :
    ∃ name rest, tree = .cat (.node .functionName (.leaf name)) rest ∧ ReadAs d q rest := by
  rcases h.seq with ⟨t, rest, rfl, hname, hrest⟩
  rcases hname.node with ⟨t, rfl, hbinding⟩
  rcases hbinding.token with ⟨name, rfl, -⟩
  exact ⟨name, rest, rfl, hrest⟩

/-- A function that is not asynchronous may be a generator. -/
theorem plainFunction (h : ReadAs d (.either
      (.node (.function false true) (.all [Grammar.word .function, Grammar.mark .star, p]))
      (.node (.function false false) (.all [Grammar.word .function, p]))) tree) :
    ∃ isGenerator f rest, tree = .node (.function false isGenerator) f ∧
      Introduced f rest ∧ ReadAs d p rest := by
  rcases h.either with hgenerator | hplain
  · rcases hgenerator.node with ⟨f, rfl, hread⟩
    rcases hread.behindWord with ⟨word, u, rfl, hword, hbehind⟩
    rcases hbehind.behindMark with ⟨star, rest, rfl, hstar, hrest⟩
    exact ⟨_, _, rest, rfl, ((Introduced.refl rest).word (by simp [introducing, hstar])).word
      (by simp [introducing, hword]), hrest⟩
  · rcases hplain.node with ⟨f, rfl, hread⟩
    rcases hread.behindWord with ⟨word, rest, rfl, hword, hrest⟩
    exact ⟨_, _, rest, rfl, (Introduced.refl rest).word (by simp [introducing, hword]), hrest⟩

/-- A function with words in front is one of four kinds. -/
theorem functionKinds (h : ReadAs d (Grammar.functionKinds p) tree) :
    ∃ isAsync isGenerator f rest, tree = .node (.function isAsync isGenerator) f ∧
      Introduced f rest ∧ ReadAs d p rest := by
  have hasync : ∀ {q : Phrase} {t : Tree},
      ReadAs d (.seq (.all [Grammar.word .async, .sameLine, Grammar.word .function]) q) t →
      ∃ first second u, t = .cat (.cat (.leaf first) (.cat .empty (.leaf second))) u ∧
        first.kind ∈ introducing ∧ second.kind ∈ introducing ∧ ReadAs d q u := by
    intro q t h
    rcases h.seq with ⟨words, u, rfl, hwords, hrest⟩
    rcases hwords.behindWord with ⟨first, more, rfl, hfirst, hmore⟩
    rcases hmore.seq with ⟨none, last, rfl, hline, hlast⟩
    rcases hlast.word with ⟨second, rfl, hsecond⟩
    obtain rfl := hline.sameLine
    exact ⟨first, second, u, rfl, by simp [introducing, hfirst], by simp [introducing, hsecond],
      hrest⟩
  rcases h.either with hfirst | h
  · rcases hfirst.node with ⟨f, rfl, hread⟩
    rcases hasync hread with ⟨first, second, u, rfl, hkind, hkind', hbehind⟩
    rcases hbehind.behindMark with ⟨star, rest, rfl, hstar, hrest⟩
    exact ⟨_, _, _, rest, rfl, ((Introduced.refl rest).word (by simp [introducing, hstar])).pair
      hkind hkind', hrest⟩
  rcases h.either with hsecond | h
  · rcases hsecond.node with ⟨f, rfl, hread⟩
    rcases hasync hread with ⟨first, second, rest, rfl, hkind, hkind', hrest⟩
    exact ⟨_, _, _, rest, rfl, (Introduced.refl rest).pair hkind hkind', hrest⟩
  rcases h.plainFunction with ⟨isGenerator, f, rest, rfl, hintroduced, hrest⟩
  exact ⟨_, _, _, rest, rfl, hintroduced, hrest⟩

/-- A function behind `declare` is one of two kinds. -/
theorem declaredFunction (h : ReadAs d (Grammar.declaredFunction d) tree) :
    ∃ isGenerator f name rest, tree = .node (.function false isGenerator) f ∧
      IsFunction d f name rest := by
  rcases h.plainFunction with ⟨isGenerator, f, u, rfl, hintroduced, hrest⟩
  rcases hrest.named with ⟨name, rest, rfl, hsignature⟩
  exact ⟨_, _, name, rest, rfl, hintroduced, .inr hsignature⟩

theorem functionDeclaration (h : ReadAs d (.rule .functionDeclaration) tree) :
    ∃ isAsync isGenerator f name rest, tree = .node (.function isAsync isGenerator) f ∧
      IsFunction d f name rest := by
  rcases functionKinds h.rule with ⟨isAsync, isGenerator, f, u, rfl, hintroduced, hrest⟩
  rcases hrest.named with ⟨name, rest, rfl, hbehind⟩
  exact ⟨_, _, _, name, rest, rfl, hintroduced, hbehind.either⟩

end ReadAs

/-! ## Behind the name -/

/-- Type parameters, parameters and result type of a function. -/
structure Head (d : Dialect) (defaults : Bool) (types content result : Tree) : Prop where
  types : types = .empty ∨ ∃ t, types = .node .typeParameters t
  parameters : ReadAs d (Grammar.parameters d defaults) (.node .parameters content)
  result : result = .empty ∨
    ∃ colon t, result = .cat (.leaf colon) (.node .returnType t) ∧ colon.kind = .punctuator .colon

/-- Functions with a body and functions without one have the same parts in front of it. -/
theorem ReadAs.head {defaults : Bool}
    (h : ReadAs d (.seq (Grammar.typeParameters? d) (.seq (.rule (.parameters defaults))
      (.seq (Grammar.returnType? d) p))) tree) :
    ∃ types content result last,
      tree = .cat types (.cat (.node .parameters content) (.cat result last)) ∧
        Head d defaults types content result ∧ ReadAs d p last := by
  rcases h.seq with ⟨types, t, rfl, htypes, hread⟩
  rcases hread.seq with ⟨parameters, u, rfl, hparameters, hbehind⟩
  rcases hbehind.seq with ⟨result, last, rfl, hresult, hlast⟩
  rcases ReadAs.node hparameters.rule with ⟨content, rfl, -⟩
  refine ⟨types, content, result, last, rfl, ⟨?_, hparameters.rule, ?_⟩, hlast⟩
  · rcases htypes.optionalIf with hread | rfl
    · rcases ReadAs.node hread.rule with ⟨t, rfl, -⟩
      exact .inr ⟨t, rfl⟩
    · exact .inl rfl
  · rcases hresult.optionalIf with hread | rfl
    · rcases hread.behindMark with ⟨colon, t, rfl, hcolon, hbehind⟩
      rcases hbehind.node with ⟨u, rfl, -⟩
      exact .inr ⟨colon, u, rfl, hcolon⟩
    · exact .inl rfl

/-- A plain script has no function without a body. -/
theorem IsFunction.exists_body {f rest : Tree} {name : Token} (h : IsFunction .plain f name rest) :
    ∃ block, f.child? .body = some block := by
  rcases h.rest with hread | hsignature
  · rcases hread.head with ⟨types, content, result, last, rfl, hhead, hlast⟩
    rcases ReadAs.node hlast.rule with ⟨block, rfl, -⟩
    refine ⟨block, ?_⟩
    rw [h.introduced.child?]
    rcases hhead.types with rfl | ⟨_, rfl⟩ <;> rcases hhead.result with rfl | ⟨_, _, rfl, -⟩ <;>
      simp [Tree.child?]
  · cases hsignature.only.1

/-! ## Items -/

namespace ReadAs

/-- Behind `export` stands a function, with `declare` in front of it or without. -/
theorem exportedFunction (h : ReadAs d (Grammar.exportedFunction d) tree) :
    ∃ f name rest, (Tree.node .exportedFunction tree).function? = some f ∧
      IsFunction d f name rest := by
  rcases h.behindWord with ⟨token, t, rfl, -, hbehind⟩
  rcases hbehind.either with hfunction | hdeclared
  · rcases hfunction.functionDeclaration with ⟨_, _, f, name, rest, rfl, hf⟩
    exact ⟨f, name, rest, by simp [Tree.function?], hf⟩
  rcases hdeclared.only.2.behindWord with ⟨declare, u, rfl, -, hbehind⟩
  rcases hbehind.either with hfunction | hasync
  · rcases hfunction.declaredFunction with ⟨_, f, name, rest, rfl, hf⟩
    exact ⟨f, name, rest, by simp [Tree.function?], hf⟩
  · rcases hasync.seq with ⟨none, v, rfl, hnone, hfunction⟩
    obtain rfl := hnone.absent
    rcases hfunction.functionDeclaration with ⟨_, _, f, name, rest, rfl, hf⟩
    exact ⟨f, name, rest, by simp [Tree.function?], hf⟩

theorem bareFunction (h : ReadAs d (Grammar.bareFunction d) tree) :
    ∃ f name rest, (Tree.node .bareFunction tree).function? = some f ∧
      IsFunction d f name rest := by
  rcases h.either with hdeclared | hfunction
  · rcases hdeclared.only.2.behindWord with ⟨declare, t, rfl, -, hbehind⟩
    rcases hbehind.seq with ⟨none, u, rfl, hnone, hfunction⟩
    obtain rfl := hnone.sameLine
    rcases hfunction.declaredFunction with ⟨_, f, name, rest, rfl, hf⟩
    exact ⟨f, name, rest, by simp [Tree.function?], hf⟩
  · rcases hfunction.functionDeclaration with ⟨_, _, f, name, rest, rfl, hf⟩
    exact ⟨f, name, rest, by simp [Tree.function?], hf⟩

/-- An item of a module is a node, and it holds a function unless it is marked as something else. -/
theorem moduleItem (h : ReadAs d (.rule .moduleItem) tree) :
    (∃ k t, tree = .node k t) ∧
      (tree.isNode .otherItem = true ∨
        ∃ f name rest, tree.function? = some f ∧ IsFunction d f name rest) := by
  rcases h.rule.either with hexported | h
  · rcases hexported.node with ⟨t, rfl, hread⟩
    exact ⟨⟨_, t, rfl⟩, .inr hread.exportedFunction⟩
  rcases h.either with hbare | hother
  · rcases hbare.node with ⟨t, rfl, hread⟩
    exact ⟨⟨_, t, rfl⟩, .inr hread.bareFunction⟩
  · rcases hother.node with ⟨t, rfl, -⟩
    exact ⟨⟨_, t, rfl⟩, .inl rfl⟩

end ReadAs

/-! ## Items of modules -/

/-- What a repetition adds to a tree has been read somewhere in the text. -/
theorem Phrase.exists_of_mem_readMany {readOne : Cursor → Reading} {bound : Nat}
    {done tree t : Tree} {x : Text} {c : Cursor}
    (hone : ∀ x tree c, readOne (.ofText x) = some (tree, c) →
      (∃ k u, tree = .node k u) ∧ ∃ y, c = .ofText y ∧ y.length ≤ x.length)
    (h : readMany readOne bound done (.ofText x) = (tree, c)) (ht : t ∈ tree.children) :
    t ∈ done.children ∨
      ∃ y z, y.length ≤ x.length ∧ readOne (.ofText y) = some (t, .ofText z) := by
  induction bound generalizing done x with
  | zero =>
      obtain rfl := (Prod.mk.inj h).1
      exact .inl ht
  | succ bound ih =>
      simp only [readMany] at h
      split at h
      · obtain rfl := (Prod.mk.inj h).1
        exact .inl ht
      next u c' hread =>
        rcases hone x u c' hread with ⟨⟨k, v, rfl⟩, y, rfl, hlength⟩
        rcases ih h with hdone | ⟨y', z, hlength', hread'⟩
        · rw [Tree.children_cat, Tree.children_node, List.mem_append, List.mem_singleton] at hdone
          rcases hdone with hdone | rfl
          · exact .inl hdone
          · exact .inr ⟨x, y, le_rfl, hread⟩
        · exact .inr ⟨y', z, hlength'.trans hlength, hread'⟩

namespace Module

variable {text : Text} {m : Module} {item f : Tree}

/-- The items of a module have been read in its text, -/
theorem read_of_mem_items (h : parse? d text = some m) (hitem : item ∈ m.items) :
    ∃ x y, x.length ≤ m.code.length ∧
      (Phrase.rule .moduleItem).read d (depthOf m.code) ((grammar d).read d (depthOf m.code))
        (.ofText x) = some (item, .ofText y) := by
  rcases parse?_reads h with ⟨-, -, -, items, c, final, c', htree, hitems, hfinal⟩
  rcases Terminal.accept_endOfText hfinal with ⟨token, rfl⟩
  have hrules := Grammar.read_advances (grammar_isRanked d) d (depthOf m.code)
  have hone : ∀ x tree c, (Phrase.rule .moduleItem).read d (depthOf m.code)
      ((grammar d).read d (depthOf m.code)) (.ofText x) = some (tree, c) →
      (∃ k u, tree = .node k u) ∧ ∃ y, c = .ofText y ∧ y.length ≤ x.length := by
    intro x tree c hread
    rcases Phrase.read_advances hrules _ x tree c hread with ⟨y, rfl, hy⟩
    exact ⟨(ReadAs.moduleItem ⟨_, _, _, hread⟩).1, y, rfl, hy.length_le⟩
  rcases Phrase.exists_of_mem_readMany hone (Phrase.read_many_iff.1 hitems)
    (mem_children_of_mem_items htree hitem) with hnone | ⟨x, y, hlength, hread⟩
  · cases hnone
  · exact ⟨x, y, hlength, hread⟩

/-- and so they are items of the grammar. -/
theorem readAs_of_mem_items (h : parse? d text = some m) (hitem : item ∈ m.items) :
    ReadAs d (.rule .moduleItem) item := by
  rcases read_of_mem_items h hitem with ⟨x, y, -, hread⟩
  exact ⟨_, _, _, hread⟩

/-- A function that is found in an item of a module has been read there. -/
theorem isFunction_of_mem_items (h : parse? d text = some m) (hitem : item ∈ m.items)
    (hf : item.function? = some f) :
    ∃ name rest, IsFunction d f name rest := by
  rcases (readAs_of_mem_items h hitem).moduleItem with
    ⟨⟨k, t, rfl⟩, hother | ⟨g, name, rest, hg, hread⟩⟩
  · obtain rfl : k = .otherItem := of_decide_eq_true hother
    cases hf
  · obtain rfl := Option.some.inj (hg.symm.trans hf)
    exact ⟨name, rest, hread⟩

/-- What is marked as an exported function at the top of a module holds one. -/
theorem function?_of_export (h : parse? d text = some m) (hitem : item ∈ m.items)
    (hexport : item.isNode .exportedFunction = true) : item.function?.isSome = true := by
  rcases (readAs_of_mem_items h hitem).moduleItem with ⟨⟨k, t, rfl⟩, hother | ⟨f, -, -, hf, -⟩⟩
  · obtain rfl : k = .otherItem := of_decide_eq_true hother
    cases hexport
  · simp [hf]

end Module

end Script

end ProcedureGen
