import ProcedureGen.Body
import ProcedureGen.Proofs.Script.Module

/-!
# The block of a function

The tokens between the braces of the exported function are those of the source text that stands
there, scanned alone.

* `FunctionBody.read_eq_ok_iff_exists`: what is read of a module;
* `FunctionBody.block?`: the block whose lines are read;
* `FunctionBody.interior`: the tokens inside a block;
* `FunctionBody.block?_scan`: they are what the text inside is scanned into.
-/

namespace ProcedureGen

open Script

namespace FunctionBody

variable {path source : Text} {b : FunctionBody} {block : Tree}

/-- The block of the one function that a module exports. -/
def block? (path source : Text) : Option Tree :=
  match Module.parse? (.ofPath path) source with
  | none => none
  | some m =>
    match exports m with
    | [f] => f.child? .body
    | _ => none

/-- The tokens inside a block, with the end of that text in the place of the closing brace. -/
def interior (block : Tree) : List Token :=
  match block.tokens.tail.getLast? with
  | some closing => block.tokens.tail.dropLast ++ [endToken closing.gap]
  | none => []

/-- What is read of a module: the name and the block of the one function that it exports, and the
options of the whole text. -/
theorem read_eq_ok_iff_exists :
    FunctionBody.read path source = .ok b ↔
      ∃ m f block, Module.parse? (.ofPath path) source = some m ∧ exports m = [f] ∧
        f.child? .body = some block ∧
        b = ⟨f.functionName, blockLines block.text, .ofLines (Text.lines source)⟩ := by
  unfold FunctionBody.read
  constructor
  · intro h
    split at h
    · cases h
    next m hm =>
      split at h
      · cases h
      next f hf =>
        split at h
        · cases h
        next block hblock => exact ⟨m, f, block, hm, hf, hblock, (Except.ok.inj h).symm⟩
      · cases h
  · rintro ⟨m, f, block, hm, hf, hblock, rfl⟩
    simp only [hm, hf, hblock]

/-- The lines that are read are those of the block. -/
theorem block?_of_read (h : FunctionBody.read path source = .ok b) :
    ∃ block, block? path source = some block ∧ b.lines = blockLines block.text := by
  rcases read_eq_ok_iff_exists.1 h with ⟨m, f, block, hm, hf, hblock, rfl⟩
  refine ⟨block, ?_, rfl⟩
  simp only [block?, hm, hf, hblock]

/-- The tokens of a block are those inside it between two braces. -/
theorem interior_eq {opening closing : Token} {inner : Tree} :
    interior (.cat (.leaf opening) (.cat inner (.leaf closing))) =
      inner.tokens ++ [endToken closing.gap] := by
  simp [interior]

/-- The block of the exported function is a part of the items of its module. -/
theorem block?_part (h : block? path source = some block) :
    ∃ before code items after,
      source = before ++ code ∧ Covers code items after ∧ items.Nested ∧
        Tree.Part (.node .body block) items := by
  unfold block? at h
  split at h
  · cases h
  next m hm =>
    split at h
    next f hf =>
      have hmem : f ∈ exports m := by simp [hf]
      rcases List.mem_filterMap.1 hmem with ⟨item, hitem, hfunction⟩
      split at hfunction
      · rcases Module.exists_part_of_function? hm hitem hfunction with
          ⟨before, code, items, after, hsource, hcovers, hnested, hpart⟩
        exact ⟨before, code, items, after, hsource, hcovers, hnested,
          (Tree.part_of_child? h).trans hpart⟩
      · cases hfunction
    · cases h

/-- The text between the braces of the exported function stands in the source, and is scanned alone
into the tokens inside the block. -/
theorem block?_scan (h : block? path source = some block) :
    ∃ before after goals,
      source = before ++ block.text ++ after ∧
      block.text = '\x7b' :: Tree.sourceOf (interior block) ++ ['\x7d'] ∧
      scanAs goals (Tree.sourceOf (interior block)) = some (interior block) := by
  rcases block?_part h with ⟨start, code, items, rest, hsource, ⟨goals, hleads⟩, hnested, hpart⟩
  have hblock : block.IsPair := (hpart.nested hnested).1 rfl
  rcases hpart.tokens with ⟨pre, post, htokens⟩
  rw [htokens] at hleads
  rcases hleads.split with ⟨_, _, x, hpre, hleads⟩
  rcases hleads.split with ⟨_, _, y, hleads, -⟩
  rcases hblock.exists_eq with ⟨opening, inner, closing, rfl, hopening, hclosing, -⟩
  rw [interior_eq]
  simp only [Tree.tokens_node, Tree.tokens_cat, Tree.tokens_leaf, List.singleton_append] at hleads
  rcases hleads.cons_inv with ⟨_, _, u, hopen, hleads⟩
  rcases hleads.split with ⟨inside, _, v, hinner, hlast⟩
  rcases hlast.cons_inv with ⟨_, _, w, hclose, -⟩
  have hopenRaw : opening.raw = ['\x7b'] := Goal.scan_mark_raw hopen hopening
  have hcloseRaw : closing.raw = ['\x7d'] := Goal.scan_mark_raw hclose hclosing
  have hsettled := Goal.scan_settled hclose
  have hv : v = closing.gap ++ '\x7d' :: w := by
    rw [hsettled.split, hcloseRaw]
    rfl
  rw [hv] at hinner
  have hinside : Tree.sourceOf (inner.tokens ++ [endToken closing.gap]) =
      Tree.sourceOf inner.tokens ++ closing.gap := by
    simp [Tree.sourceOf, Token.source, endToken]
  rw [hinside]
  have htext : Tree.text (.cat (.leaf opening) (.cat inner (.leaf closing))) =
      '\x7b' :: (Tree.sourceOf inner.tokens ++ closing.gap) ++ ['\x7d'] := by
    simp [Tree.text, Tree.textOf, Tree.sourceOf, Token.source, hopenRaw, hcloseRaw]
  refine ⟨start ++ (Tree.sourceOf pre ++ opening.gap), w, inside, ?_, htext,
    hinner.scanAs hsettled.gap⟩
  rw [htext, hsource, hpre.sourceOf_append, (Goal.scan_settled hopen).split, hopenRaw,
    hinner.sourceOf_append]
  simp

end FunctionBody

end ProcedureGen
