import ProcedureGen.Proofs.Body.Block
import ProcedureGen.Proofs.Body.Reading

/-!
# Where a body stands

The text that is cut for a body is the block of the one function that its module exports, from its
first brace to the brace that closes it.

* `BracePair`: two braces among the tokens of a script that are a pair;
* `FunctionBody.read_extent`: the block of a body is a pair of braces of the exported function.
-/

namespace ProcedureGen

open Script

namespace Script

/-- Two braces of a script that are a pair: counted from the first one, the depth is back at zero at
the second one, and nowhere before. -/
structure BracePair (tokens before : List Token) (opening : Token) (inside : List Token)
    (closing : Token) (after : List Token) : Prop where
  split : tokens = before ++ (opening :: inside ++ closing :: after)
  opens : opening.kind = .punctuator .braceOpen
  closes : closing.kind = .punctuator .braceClose
  open_inside : ∀ us, us <+: inside → ∃ n, braceDepth 0 (opening :: us) = some (n + 1)
  closed : braceDepth 0 (opening :: inside ++ [closing]) = some 0

/-- Two braces are a pair like any brackets. -/
theorem BracketPair.bracePair {tokens before inside after : List Token} {opening closing : Token}
    (h : BracketPair .braces tokens before opening inside closing after) :
    BracePair tokens before opening inside closing after where
  split := h.split
  opens := h.opens
  closes := h.closes
  open_inside us hus := by
    rw [braceDepth_eq]
    exact h.open_inside us hus
  closed := (braceDepth_eq _ _).trans h.closed

namespace Tree

variable {s t u block : Tree} {k : Node}

/-- A block with a pair of braces is one wherever it stands. -/
theorem IsPair.bracePair (h : block.IsPair) (hpart : Part block t) :
    ∃ before opening inside closing after,
      block.tokens = opening :: inside ++ [closing] ∧
        BracePair t.tokens before opening inside closing after := by
  rcases h.exists_eq with ⟨opening, inner, closing, rfl, hopens, hcloses, hdepth⟩
  rcases hpart.tokens with ⟨before, after, htokens⟩
  have hpair : BracketPair .braces (before ++ (opening :: inner.tokens ++ closing :: after)) before
      opening inner.tokens closing after :=
    .of_depth (by decide) hopens hcloses ((braceDepth_eq _ _).symm.trans hdepth)
  refine ⟨before, opening, inner.tokens, closing, after, by simp, ?_⟩
  rw [htokens]
  simpa using hpair.bracePair

end Tree

end Script

/-! ## The extent of a body -/

namespace FunctionBody

variable {path source : Text} {b : FunctionBody}

/-- Where the lines of a body stand in a module: `inner` is the text between the braces of the only
function that the module exports. -/
structure Extent (m : Module) (b : FunctionBody) (item block : Tree) (inner : Text) : Prop where
  single : m.items.filter (Tree.isNode .exportedFunction) = [item]
  function : ∃ f, item.function? = some f ∧ f.functionName = b.name ∧ f.child? .body = some block
  pair : ∃ before opening inside closing after,
    block.tokens = opening :: inside ++ [closing] ∧
      BracePair m.tree.tokens before opening inside closing after
  within : ∃ head tail, item.source = head ++ block.text ++ tail
  text : block.text = '\x7b' :: inner ++ ['\x7d']
  lines : b.lines = innerLines inner

/-- The text between two braces is what is left without them. -/
theorem withoutBraces_eq {block inner : Text} (h : block = '\x7b' :: inner ++ ['\x7d']) :
    withoutBraces block = inner := by
  have hopening : Text.dropPrefix? ['\x7b'] block = some (inner ++ ['\x7d']) :=
    Text.dropPrefix?_eq_some_iff.2 h
  have hclosing : Text.dropSuffix? ['\x7d'] (inner ++ ['\x7d']) = some inner :=
    Text.dropSuffix?_eq_some_iff.2 rfl
  rw [withoutBraces, hopening, Option.bind_some, hclosing]

/-- The text that is cut for a body is the block of the one exported function: two braces that are
a pair in the token sequence of the script, and the body of the one item that is marked as exported
function and whose name is returned.  The lines are those of the text between these braces, so
nothing in front of that item or behind it gets into them. -/
theorem read_extent (hpath : ".js".toList <:+ path) (h : FunctionBody.read path source = .ok b) :
    ∃ m goals item block inner front back,
      Module.parse? .plain source = some m ∧
      scanAs goals m.code = some m.tree.tokens ∧
      Extent m b item block inner ∧
      withoutBraces block.text = inner ∧
      source = front ++ item.source ++ back := by
  rcases (read_eq_ok_iff hpath).1 h with ⟨m, item, f, block, hm, hsingle, hfunction, hblock, rfl⟩
  rcases Module.parse?_scan hm with ⟨goals, hscan⟩
  have hitem : item ∈ m.tree.children := by
    have hmem : item ∈ m.items.filter (Tree.isNode .exportedFunction) := by simp [hsingle]
    exact (List.mem_filter.1 (List.mem_filter.1 hmem).1).1
  have hwithin := (Tree.part_of_child? hblock).trans (Tree.part_of_function? hfunction)
  have hplace := Tree.part_of_mem_children hitem
  have hpair : block.IsPair := ((hwithin.trans hplace).nested (Module.parse?_nested hm)).1 rfl
  have hblock' := ((Tree.Part.refl block).node .body).trans hwithin
  rcases hpair.bracePair (hblock'.trans hplace) with
    ⟨before, opening, inside, closing, after, htokens, hbraces⟩
  -- The braces are written as braces, since both are tokens of the code.
  have hmark : ∀ {t : Token} {p : Punctuator}, t ∈ m.tree.tokens →
      t.kind = .punctuator p → t.raw = p.spelling := mark_raw_of_scanAs hscan
  have hopening : opening.raw = ['\x7b'] := hmark (by simp [hbraces.split]) hbraces.opens
  have hclosing : closing.raw = ['\x7d'] := hmark (by simp [hbraces.split]) hbraces.closes
  have htext : block.text =
      '\x7b' :: (Tree.sourceOf inside ++ closing.gap) ++ ['\x7d'] := by
    rw [Tree.text, htokens]
    simp [Tree.textOf, Tree.sourceOf, Token.source, hopening, hclosing]
  rcases hblock'.tokens with ⟨head, tail, hitemTokens⟩
  rcases hplace.tokens with ⟨ahead, behind, htreeTokens⟩
  rcases Module.exists_source_eq hm with ⟨mark, hsource, -⟩
  have hcode : m.code = Tree.sourceOf ahead ++ item.source ++ Tree.sourceOf behind := by
    rw [← sourceOf_scanAs hscan, htreeTokens]
    simp [sourceOf_append, Tree.source]
  refine ⟨m, goals, item, block, Tree.sourceOf inside ++ closing.gap,
    mark ++ m.shebang ++ Tree.sourceOf ahead, Tree.sourceOf behind, hm, hscan, ?_, ?_, ?_⟩
  · refine ⟨hsingle, ⟨f, hfunction, rfl, hblock⟩,
      ⟨before, opening, inside, closing, after, htokens, hbraces⟩, ?_, htext, ?_⟩
    · refine ⟨Tree.sourceOf head ++ opening.gap, Tree.sourceOf tail, ?_⟩
      rw [Tree.source, hitemTokens, htokens, htext]
      simp [sourceOf_append, sourceOf_cons, hopening, hclosing]
    · rw [blockLines, withoutBraces_eq htext]
  · exact withoutBraces_eq htext
  · rw [hsource, hcode]
    simp

/-- A module with a byte order mark and with braces in front of its function, in the parameters, in
the body and behind it. -/
def bracesEverywhere : Text :=
  "\uFEFFconst o = \x7b é: '\x7d' \x7d;\nexport function f(\x7b x = \x7b\x7d \x7d, y = `\x7d$\x7b o \x7d`) \x7b // \x7d\n" ++
  "  return /[\x7d]/.test(y) ? \x7b x \x7d : '\x7d'; \x7d export const after = \x7b\x7d;\n"

theorem read_extent_bracesEverywhere :
    ∃ m b item block inner,
      Module.parse? .plain bracesEverywhere = some m ∧
      FunctionBody.read "f.js" bracesEverywhere = .ok b ∧ Extent m b item block inner ∧
      b.lines =
        ["// \x7d", "return /[\x7d]/.test(y) ? \x7b x \x7d : '\x7d';"].map String.toList := by
  have hread : FunctionBody.read "f.js" bracesEverywhere =
      .ok ⟨"f", ["// \x7d", "return /[\x7d]/.test(y) ? \x7b x \x7d : '\x7d';"],
        .ofLines (Text.lines bracesEverywhere)⟩ := by
    decide +kernel
  have hpath : ".js".toList <:+ "f.js".toList := by decide
  rcases read_extent hpath hread with ⟨m, goals, item, block, inner, front, back, hm, -, hextent, -⟩
  exact ⟨m, _, item, block, inner, hm, hread, hextent, rfl⟩

end FunctionBody

end ProcedureGen
