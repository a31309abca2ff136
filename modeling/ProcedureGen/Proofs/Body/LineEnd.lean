import ProcedureGen.Proofs.Body.Extent
import ProcedureGen.Proofs.Script.EarlyError
import ProcedureGen.Proofs.Script.LineEnd

/-!
# Line ends of a module

A module whose line feeds are written as `\r\n` holds the same body: the same name, the same lines
and the same options, or it is refused in the same way.

* `Token.quoted_crlf`: a string on one line says the same with either sort of line ends;
* `Module.parse?_crlf`: the module that is read;
* `FunctionBody.blockLines_crlf`: the lines of the block of a function;
* `FunctionBody.read_lineEnds`: the body that is read.
-/

namespace ProcedureGen

open Script

namespace Script

variable {text : Text} {d : Dialect} {m : Module}

/-! ## Strings -/

/-- What stands between the first and the last character of a token has its own line ends. -/
theorem Token.quoted_crlf {t : Token} (hhead : t.raw.head? ≠ some '\n')
    (hlast : t.raw.getLast? ≠ some '\n') : t.crlf.quoted = Text.crlf t.quoted := by
  have hdrop : ∀ u : Text, u.getLast? ≠ some '\n' →
      (Text.crlf u).dropLast = Text.crlf u.dropLast := by
    intro u hu
    rcases List.eq_nil_or_concat u with rfl | ⟨u, c, rfl⟩
    · rfl
    · rw [List.concat_eq_append, List.getLast?_concat] at hu
      have hc : c ≠ '\n' := fun h => hu (congrArg some h)
      rw [List.concat_eq_append, Text.crlf_append, Text.crlf_cons hc]
      simp
  simp only [quoted, crlf]
  cases hraw : t.raw with
  | nil => rfl
  | cons c u =>
      have hc : c ≠ '\n' := by
        rintro rfl
        exact hhead (by rw [hraw]; rfl)
      rw [Text.crlf_cons hc, List.drop_one, List.drop_one, List.tail_cons, List.tail_cons]
      refine hdrop u fun hu => hlast ?_
      cases u with
      | nil => cases hu
      | cons d u => rwa [hraw, List.getLast?_cons_cons]

/-- Strings on one line stay alone, since no token starts or ends with a line feed. -/
theorem keepsQuoted_crlf {goals : List Goal} {code : Text} {tree : Tree}
    (h : scanAs goals code = some tree.tokens) : tree.KeepsQuoted Token.crlf := by
  intro token htoken s hs
  by_cases hraw : token.raw = []
  · simp [Token.quoted, Token.crlf, hraw]
  · have hfirm := raw_of_scanAs h htoken hraw
    have hhead : token.raw.head? ≠ some '\n' := fun hhead => by
      have hspace := hfirm.2 '\n' hhead
      exact absurd hspace (by decide)
    rw [Token.quoted_crlf hhead (hfirm.1.getLast?_ne (by decide)), Text.crlf_eq_iff hs]

/-! ## Modules -/

theorem withoutMark_crlf (t : Text) : withoutMark (Text.crlf t) = Text.crlf (withoutMark t) := by
  cases t with
  | nil => rfl
  | cons c t =>
      by_cases hfeed : c = '\n'
      · subst hfeed
        rfl
      · rw [Text.crlf_cons hfeed]
        simp only [withoutMark]
        split
        · rfl
        · rw [Text.crlf_cons hfeed]

/-- A line ends in the same place. -/
theorem span_line_crlf (t : Text) :
    (Text.crlf t).span (fun c => !isLineEnd c) =
      ((t.span fun c => !isLineEnd c).1, Text.crlf (t.span fun c => !isLineEnd c).2) := by
  simp only [List.span_eq_takeWhile_dropWhile]
  induction t with
  | nil => rfl
  | cons c t ih =>
      by_cases hfeed : c = '\n'
      · subst hfeed
        simp [isLineEnd]
      · rw [Text.crlf_cons hfeed]
        by_cases hc : isLineEnd c = true
        · simp [hc, Text.crlf_cons hfeed]
        · simpa [hc] using ih

theorem splitShebang_crlf (t : Text) :
    splitShebang (Text.crlf t) = ((splitShebang t).1, Text.crlf (splitShebang t).2) := by
  have hhead : ∀ (c : Char) (u v : Text), c ∈ ['#', '!'] → Text.crlf u = c :: v →
      ∃ w, u = c :: w ∧ Text.crlf w = v := by
    intro c u v hc hu
    have hne : c ≠ '\n' ∧ c ≠ '\r' := by
      rcases List.mem_pair.1 hc with rfl | rfl <;> decide
    have hhead := (Text.head?_crlf hne.1 hne.2).1 (by rw [hu]; rfl)
    rcases List.head?_eq_some_iff.1 hhead with ⟨w, rfl⟩
    rw [Text.crlf_cons hne.1] at hu
    exact ⟨w, rfl, (List.cons.inj hu).2⟩
  fun_cases splitShebang t with
  | case1 rest =>
      have hsplit : splitShebang (Text.crlf ('#' :: '!' :: rest)) =
          (Text.crlf ('#' :: '!' :: rest)).span fun c => !isLineEnd c := rfl
      rw [hsplit, span_line_crlf]
  | case2 t hother =>
      rw [splitShebang]
      intro u hu
      rcases hhead '#' _ _ (by simp) hu with ⟨v, rfl, hv⟩
      rcases hhead '!' _ _ (by simp) hv with ⟨w, rfl, -⟩
      exact hother w rfl

namespace Module

/-- The module with every line feed written as `\r\n`. -/
def crlf (m : Module) : Module := ⟨Text.crlf m.source, m.shebang, m.tree.map Token.crlf⟩

/-- The same module is read off the text with the other line ends. -/
theorem parse?_crlf (h : '\r' ∉ text) : parse? d (Text.crlf text) = (parse? d text).map crlf := by
  have hcode : '\r' ∉ (splitShebang (withoutMark text)).2 := by
    rcases withoutMark_eq text with ⟨mark, hmark, -⟩
    rw [hmark, splitShebang_eq (withoutMark text)] at h
    exact fun hmem => h (List.mem_append_right _ (List.mem_append_right _ hmem))
  unfold parse?
  dsimp only
  rw [withoutMark_crlf, splitShebang_crlf]
  generalize (splitShebang (withoutMark text)).2 = code at hcode
  -- The bound that the longer text asks for may be taken for both.
  have hlength := Text.length_le_crlf code
  have hdepth : phrase.read d (depthOf code) ((grammar d).read d (depthOf code)) (.ofText code) =
      phrase.read d (depthOf (Text.crlf code)) ((grammar d).read d (depthOf (Text.crlf code)))
        (.ofText code) :=
    Module.read_depth_eq d (by unfold depthOf; omega) (by unfold depthOf; omega)
  rw [read_crlf d _ code hcode, hdepth]
  cases hfound : phrase.read d (depthOf (Text.crlf code))
      ((grammar d).read d (depthOf (Text.crlf code))) (.ofText code) with
  | none => rfl
  | some found =>
      rcases found with ⟨tree, c⟩
      rcases read_scan hfound with ⟨goals, hscan⟩
      have hsound := Tree.isSound_map (f := Token.crlf) (fun _ => rfl) (keepsQuoted_crlf hscan) .top
      simp only [Reading.crlf_some, hsound]
      split <;> rfl

end Module

/-! ## Source texts -/

theorem sourceOf_crlf (ts : List Token) :
    Tree.sourceOf (ts.map Token.crlf) = Text.crlf (Tree.sourceOf ts) := by
  induction ts with
  | nil => rfl
  | cons t ts ih =>
      rw [List.map_cons, sourceOf_cons, sourceOf_cons, Text.crlf_append, Text.crlf_append, ih]
      rfl

theorem Tree.text_crlf (t : Tree) : (t.map Token.crlf).text = Text.crlf t.text := by
  rw [Tree.text, Tree.text, tokens_map]
  cases t.tokens with
  | nil => rfl
  | cons token ts =>
      rw [List.map_cons, textOf, textOf, sourceOf_crlf, Text.crlf_append]
      rfl

theorem Module.items_crlf (m : Module) : m.crlf.items = m.items.map (Tree.map Token.crlf) := by
  rw [items, items, crlf, Tree.children_map, List.filter_map]
  congr 2
  funext t
  cases t <;> rfl

end Script

namespace FunctionBody

theorem exports_crlf (m : Module) :
    exports m.crlf = (exports m).map (Script.Tree.map Token.crlf) := by
  rw [exports, exports, Module.items_crlf]
  refine Tree.filterMap_changed (fun item => ?_) m.items
  rw [Tree.isNode_map]
  split
  · exact Tree.function?_map Token.crlf item
  · rfl

variable {path source : Text} {block : Tree}

/-- The block of a function has the same lines inside with either sort of line ends. -/
theorem blockLines_crlf (hblock : block? path source = some block) (h : '\r' ∉ source) :
    blockLines (block.map Token.crlf).text = blockLines block.text := by
  rcases block?_scan hblock with ⟨before, after, goals, hsource, htext, -⟩
  -- The block stands in the source, so there is no carriage return in it either.
  have hinner : '\r' ∉ Tree.sourceOf (interior block) := by
    rw [hsource, htext] at h
    simp only [List.mem_append, List.mem_cons, not_or] at h
    exact h.1.2.1.2
  have hother : (block.map Token.crlf).text =
      '\x7b' :: Text.crlf (Tree.sourceOf (interior block)) ++ ['\x7d'] := by
    rw [Tree.text_crlf, htext, Text.crlf_append, Text.crlf_cons (by decide)]
    rfl
  rw [blockLines, blockLines, withoutBraces_eq htext, withoutBraces_eq hother, innerLines,
    innerLines, Text.rows_crlf hinner]

/-- A module holds the same body with either sort of line ends: the same name, the same lines and
the same options, or it is refused in the same way. -/
theorem read_lineEnds (path source : Text) (h : '\r' ∉ source) :
    read path (Text.crlf source) = read path source := by
  unfold read
  rw [Module.parse?_crlf h, Text.lines_crlf h]
  cases hm : Module.parse? (.ofPath path) source with
  | none => rfl
  | some m =>
      simp only [Option.map_some, exports_crlf]
      -- One function has the same block; none or several are the same error.
      match hexports : exports m with
      | [] => rfl
      | [f] =>
          simp only [List.map_cons, List.map_nil, Tree.child?_map]
          cases hbody : f.child? .body with
          | none => rfl
          | some block =>
              have hblock : block? path source = some block := by
                unfold block?
                simp only [hm, hexports, hbody]
              simp only [Option.map_some]
              rw [Tree.functionName_map Token.crlf fun _ => rfl, blockLines_crlf hblock h]
      | f :: g :: more => simp

/-- A module with line ends in a comment, in a string, in a template and in the place of
semicolons. -/
def brokenLines : Text :=
  "// plv8: immutable\n/* a\nb */ export function f(a) \x7b // c\n" ++
  "  const s = 'a\\\nb'\n  const t = `\n$\x7bs\x7d`\n  return t \x7d\n"

theorem read_lineEnds_brokenLines :
    '\r' ∉ brokenLines ∧
      FunctionBody.read "f.js" (Text.crlf brokenLines) = FunctionBody.read "f.js" brokenLines ∧
      FunctionBody.read "f.js" brokenLines = .ok ⟨"f",
        ["// c", "  const s = 'a\\", "b'", "  const t = `", "$\x7bs\x7d`", "return t"].map
          String.toList, ⟨true, [.immutable]⟩⟩ := by
  have hreturn : '\r' ∉ brokenLines := by decide
  exact ⟨hreturn, read_lineEnds _ _ hreturn, by decide +kernel⟩

end FunctionBody

end ProcedureGen
