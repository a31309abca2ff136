import ProcedureGen.Proofs.Body.Extent
import ProcedureGen.Proofs.Body.Lines
import ProcedureGen.Proofs.Script.Export

/-!
# Wrapping a body again

The lines of a body are put between the braces of a plain function again.

* `FunctionBody.wrapped`, `FunctionBody.rewrapped`: the block and the module with these lines;
* `FunctionBody.blockLines_wrapped`: the block has the lines that were put into it;
* `ReadsAt.items_innerLines`: the statements of a block are read off its lines as well;
* `FunctionBody.read_rewrapped`: so the module is accepted, if the lines are those of a plain
  function;
* `FunctionBody.read_rewrapped_awaiting`: with those of another function it may not be.
-/

namespace ProcedureGen

open Script

namespace Text

variable {t row : Text}

/-- The characters of a row stand in the text. -/
theorem row_subset (h : row ∈ rows t) : row ⊆ t := by
  fun_induction rows t generalizing row with
  | case1 => simp_all
  | case2 rest ih =>
      rcases List.mem_cons.1 h with rfl | h
      · simp
      · exact List.Subset.trans (ih h) (List.subset_cons_self _ _)
  | case3 rest ih =>
      rcases List.mem_cons.1 h with rfl | h
      · simp
      · exact List.Subset.trans (ih h) fun d hd => by simp [hd]
  | case4 c rest _ _ ih =>
      cases hrows : rows rest with
      | nil => exact absurd hrows (rows_ne_nil rest)
      | cons first more =>
          rw [hrows] at h ih
          rcases List.mem_cons.1 h with rfl | h
          · exact List.cons_subset_cons c (ih (by simp))
          · exact List.Subset.trans (ih (List.mem_cons_of_mem first h))
              (List.subset_cons_self _ _)

theorem trim_subset (t : Text) : trim t ⊆ t := by
  intro c hc
  rcases trim_split t with ⟨v, hv, -⟩
  rcases trimEnd_split t with ⟨w, hw, -⟩
  rw [hw, hv]
  simp [hc]

end Text

namespace Script

variable {x y z g : Text} {ts us : List Token} {goals : List Goal} {rows : List Text}

/-- The text behind the opening brace of a block with the given rows, and a line end behind it. -/
def behindBrace (rows : List Text) : Text := '\n' :: (Text.unlines rows ++ ['\x7d', '\n'])

theorem unlines_eq_joined (h : rows ≠ []) : Text.unlines rows = joined rows ++ ['\n'] := by
  induction rows with
  | nil => exact absurd rfl h
  | cons row rows ih =>
      by_cases hrows : rows = []
      · simp [hrows, Text.unlines, joined, Text.joinWith]
      · rw [joined_cons hrows, Text.unlines, List.flatMap_cons, ← Text.unlines, ih hrows]
        simp

/-- Behind the last token of a text a brace closes on a line of its own. -/
theorem scan_closingLine (hg : Gap.Complete .blank g []) :
    Token.scan (g ++ ['\n', '\x7d', '\n']) =
      (⟨.punctuator .braceClose, g ++ ['\n'], ['\x7d'], true⟩, ['\n']) := by
  have hpass : Gap.pass .blank (g ++ ['\n']) = some .blank := by
    have hfeed : Gap.pass .line ['\n'] = some .blank ∧ Gap.pass .blank ['\n'] = some .blank := by
      decide
    rw [Gap.pass_append .blank g (by simp)]
    rcases hg with ⟨-, hopens⟩ | ⟨-, hblank | hline⟩
    · cases hopens
    · rw [hblank]
      exact hfeed.2
    · rw [hline]
      exact hfeed.1
  have hnew : (g ++ ['\n']).any isLineEnd = true := by
    rw [List.any_append]
    simp [show isLineEnd '\n' = true by decide]
  have hscan := Token.scan_braceClose hpass ['\n']
  rw [hnew] at hscan
  simpa using hscan

/-- The tokens of a block are also those of its lines, each on a row of its own. -/
theorem exists_echo_innerLines (h : Leads goals x ts (g ++ '\x7d' :: z))
    (hg : Gap.pass .blank g = some .blank) (hreturn : '\r' ∉ Tree.sourceOf ts ++ g) :
    ∃ us y, Echo goals ts us
        (behindBrace (FunctionBody.innerLines (Tree.sourceOf ts ++ g))) y ∧
      (Token.scan y).2 = ['\n'] := by
  have hscan := h.scanAs hg
  have hfeeds : Text.lineFeeds (Tree.sourceOf ts ++ g) = Tree.sourceOf ts ++ g :=
    Text.lineFeeds_eq_self (Bool.eq_false_iff.2 fun hpart =>
      hreturn ((Text.hasPart_iff.1 hpart).subset (by simp)))
  rw [← hfeeds] at hscan
  rcases scanAs_innerLines hscan with ⟨tokens, htokens, -, hflow⟩
  have hblunt : ∀ c ∈ ['\n', '\x7d', '\n'].head?, isBlunt c = true := by
    rintro c ⟨⟩
    decide
  rcases leads_of_scanAs htokens hblunt with ⟨us, g', rfl, hcomplete, hleads⟩
  have hclosing := scan_closingLine hcomplete
  have hessence := hflow.essence
  have hlines := hflow.lineStarts
  rw [List.map_append, List.map_append] at hessence
  rw [lineStarts_concat, lineStarts_concat] at hlines
  have hecho : Echo goals ts us (joined (FunctionBody.innerLines (Tree.sourceOf ts ++ g)) ++
      ['\n', '\x7d', '\n']) (g' ++ ['\n', '\x7d', '\n']) :=
    ⟨hleads, (List.append_inj' hessence rfl).1, by simpa using hlines, by rw [Closes, hclosing],
      by rw [hclosing]⟩
  have hrest : (Token.scan (g' ++ ['\n', '\x7d', '\n'])).2 = ['\n'] := by rw [hclosing]
  -- Without lines, the line feed behind the opening brace is the one in front of the closing brace.
  by_cases hnone : FunctionBody.innerLines (Tree.sourceOf ts ++ g) = []
  · rw [hnone] at hecho ⊢
    exact ⟨us, _, hecho, hrest⟩
  · rcases hecho.behindFeed with ⟨us', y', hecho', hy'⟩
    rw [behindBrace, unlines_eq_joined hnone]
    refine ⟨us', y', ?_, hy'.trans hrest⟩
    simpa using hecho'

/-- The statements of a block are read off its lines as well. -/
theorem ReadsAt.items_innerLines {depth : Nat} {items : Tree}
    (h : ReadsAt depth (.many (.rule .item)) x items y) (hdepth : 11 * (x.length + 1) ≤ depth)
    (hy : Closes y) (hreturn : '\r' ∉ items.source ++ (Token.scan y).1.gap)
    (hz : z = behindBrace (FunctionBody.innerLines (items.source ++ (Token.scan y).1.gap))) :
    ∃ items' y', ReadsAt (11 * (z.length + 1)) (.many (.rule .item)) z items' y' ∧ Closes y' ∧
      (Token.scan y').2 = ['\n'] ∧ items'.map Token.essence = items.map Token.essence := by
  have hclosing := hy.split
  -- Both texts are read with one bound, which is large enough for either of them.
  have hdeep := h.depth_eq (n := depth + 11 * (z.length + 1)) rfl hdepth (by omega)
  have hecho : ∀ goals ts, Leads goals x ts y → ∃ us y', Echo goals ts us z y' ∧
      (Token.scan y').2 = ['\n'] := by
    intro goals ts hleads
    -- The tokens need not be those of the tree, but they cover the same text.
    have hsource : Tree.sourceOf ts = items.source := by
      have hboth := hleads.sourceOf_append.symm.trans (h.items_split hy)
      rw [List.append_assoc, ← hclosing.1] at hboth
      exact List.append_cancel_right hboth
    rw [hclosing.1] at hleads
    rw [hz, ← hsource]
    exact exists_echo_innerLines hleads hclosing.2.2 (by rwa [hsource])
  rcases Grammar.read_items_echo hdeep hy hecho with ⟨items', y', hread, hsame, hy', hend⟩
  have hreads : ReadsAt _ (.many (.rule .item)) z items' y' := hread
  exact ⟨items', y', hreads.depth_eq rfl (by omega) le_rfl, hy', hend, hsame⟩

end Script

namespace FunctionBody

variable {path source : Text} {b : FunctionBody}

/-- A block with the given lines between its braces. -/
def wrapped (lines : List Text) : Text := '\x7b' :: '\n' :: (Text.unlines lines ++ ['\x7d'])

/-- A module that exports a plain function without parameters around the given lines. -/
def rewrapped (name : Text) (lines : List Text) : Text :=
  "export function " ++ name ++ "() " ++ wrapped lines ++ "\n"

/-- The lines of a block consist of its characters, line ends apart. -/
theorem mem_innerLines {inner line : Text} (h : line ∈ innerLines inner) :
    '\n' ∉ line ∧ line ⊆ inner := by
  have hrow : ∀ row ∈ Text.rows inner, '\n' ∉ row ∧ row ⊆ inner := fun row hrow =>
    ⟨Text.feed_not_mem_row hrow, Text.row_subset hrow⟩
  have hedge : ∀ row ∈ Text.rows inner, line ∈ edgeLine row → '\n' ∉ line ∧ line ⊆ inner := by
    intro row hmem hline
    have htrim : line = Text.trim row := by
      unfold edgeLine at hline
      dsimp only at hline
      split at hline
      · cases hline
      · exact List.mem_singleton.1 hline
    rw [htrim]
    exact ⟨fun hfeed => (hrow row hmem).1 (Text.trim_subset row hfeed),
      List.Subset.trans (Text.trim_subset row) (hrow row hmem).2⟩
  rcases List.exists_cons_of_ne_nil (Text.rows_ne_nil inner) with ⟨first, rest, hrest⟩
  rw [innerLines, hrest] at h
  rw [hrest] at hrow hedge
  rcases List.mem_append.1 h with h | h
  · exact hedge first (by simp) h
  · rcases List.eq_nil_or_concat rest with rfl | ⟨mid, last, rfl⟩
    · cases h
    · rw [List.concat_eq_append] at h hrow hedge
      rw [behindFirst_append] at h
      rcases List.mem_append.1 h with h | h
      · exact hrow line (by simp [h])
      · exact hedge last (by simp) h

/-- A block has the lines that are put into it. -/
theorem blockLines_wrapped {lines : List Text}
    (h : ∀ l ∈ lines, '\n' ∉ l ∧ l.getLast? ≠ some '\r') :
    blockLines (wrapped lines) = lines := by
  have hinner : withoutBraces (wrapped lines) = '\n' :: Text.unlines lines :=
    withoutBraces_eq rfl
  have hrows : Text.rows ('\n' :: Text.unlines lines) = [] :: (lines ++ [[]]) := by
    rw [Text.rows, Text.rows_unlines h]
  have hedge : edgeLine [] = [] := rfl
  rw [blockLines, hinner, innerLines, hrows]
  dsimp only
  rw [behindFirst_append, hedge, List.append_nil, List.nil_append]

theorem rewrapped_eq (name : Text) (lines : List Text) :
    rewrapped name lines = plainExportText name (behindBrace lines) := by
  have hhead : "export function ".toList =
      Keyword.export.spelling ++ ' ' :: (Keyword.function.spelling ++ [' ']) := by decide
  have hparens : "() ".toList = ['(', ')', ' '] := by decide
  have hfeed : "\n".toList = ['\n'] := by decide
  unfold rewrapped wrapped plainExportText implementationText behindBrace
  rw [hhead, hparens, hfeed]
  simp

/-- Whether a module exports a function that is neither asynchronous nor a generator. -/
def exportsPlain (path source : Text) : Bool :=
  (Module.parse? (.ofPath path) source).any fun m => m.items.any Tree.isPlainExport

/-- What the body of a plain function is read from: the statements that are read off `x` up to the
closing brace at the start of `y`. -/
structure Statements (source : Text) (b : FunctionBody) (depth : Nat) (x : Text) (items : Tree)
    (y : Text) : Prop where
  name : isIdentifier b.name = true
  binding : Terminal.binding.matchesKind .plain (wordKind b.name) = true
  reads : ReadsAt depth (.many (.rule .item)) x items y
  deep : 11 * (x.length + 1) ≤ depth
  closes : Closes y
  sound : items.isSound Context.top.body = true
  lines : b.lines = innerLines (items.source ++ (Token.scan y).1.gap)
  within : items.source ++ (Token.scan y).1.gap <:+: source

/-- The only function that is exported is the one without more words. -/
theorem exists_plainExport {m : Module} {f : Tree} (hm : Module.parse? .plain source = some m)
    (hexports : exports m = [f]) (hplain : m.items.any Tree.isPlainExport = true) :
    ∃ item ∈ m.items, item.isPlainExport = true ∧ item.function? = some f := by
  rcases exports_eq_singleton hm hexports with ⟨item, hsingle, hfunction⟩
  rcases List.any_eq_true.1 hplain with ⟨item', hitem, hplain⟩
  have hexported : item'.isNode .exportedFunction = true := by
    unfold Tree.isPlainExport at hplain
    split at hplain
    · rfl
    · cases hplain
  have hmem := List.mem_filter.2 ⟨hitem, hexported⟩
  rw [hsingle, List.mem_singleton] at hmem
  exact ⟨item', hitem, hplain, hmem ▸ hfunction⟩

theorem exists_statements (hpath : ".js".toList <:+ path)
    (hplain : exportsPlain path source = true) (h : read path source = .ok b) :
    ∃ depth x items y, Statements source b depth x items y := by
  rcases read_eq_ok_iff_exists.1 h with ⟨m, f, block, hm, hexports, hblock, rfl⟩
  have hcut : block? path source = some block := by
    simp only [block?, hm, hexports, hblock]
  rw [exportsPlain, hm, Option.any_some] at hplain
  rw [Dialect.ofPath_script hpath] at hm
  rcases exists_plainExport hm hexports hplain with ⟨item, hitem, hplain, hfunction⟩
  rcases Module.read_of_mem_items hm hitem with ⟨x₂, y₂, hlength, hread⟩
  rcases ReadsAt.plainExport_inv hread hplain with
    ⟨below, introduced, function, opening, parameters, items, x, x₁, y, hdepth, rfl, hbinding,
      hlength', hitems, hcloses⟩
  obtain rfl := Option.some.inj hfunction
  obtain rfl := Option.some.inj hblock
  rcases Token.exists_identifier hbinding with ⟨w, hword, hw, hwbinding⟩
  have hname : Tree.functionName (Tree.plainFunction function (Token.scan x₁).1 opening
      (Token.scan y).1 parameters items) = w := by
    rw [Tree.functionName_plainFunction, hword]
    rfl
  rcases block?_scan hcut with ⟨before, after, -, hsource, htext, -⟩
  have hinner : Tree.sourceOf (interior (.cat (.leaf opening)
      (.cat items (.leaf (Token.scan y).1)))) = items.source ++ (Token.scan y).1.gap := by
    rw [interior_eq]
    simp [Tree.source, Tree.sourceOf, Token.source, endToken]
  rw [hinner] at htext
  have hsound := Tree.isSound_of_mem_children (Module.parse?_reads hm).2.2.1
    (List.mem_filter.1 hitem).1
  rw [Tree.isSound_plainExport, Bool.and_eq_true, Bool.and_eq_true] at hsound
  refine ⟨below, x, items, y, by rwa [hname], by rwa [hname], hitems, ?_, hcloses, hsound.2.1,
    ?_, ?_⟩
  · unfold Module.depthOf at hdepth
    omega
  · rw [blockLines, withoutBraces_eq htext]
  · refine ⟨before ++ ['\x7b'], '\x7d' :: after, ?_⟩
    rw [hsource, htext]
    simp

theorem Statements.lines_clean {depth : Nat} {x y : Text} {items : Tree}
    (h : Statements source b depth x items y) (hreturn : '\r' ∉ source) :
    ∀ l ∈ b.lines, '\n' ∉ l ∧ l.getLast? ≠ some '\r' := by
  intro l hl
  rw [h.lines] at hl
  rcases mem_innerLines hl with ⟨hfeed, hsubset⟩
  exact ⟨hfeed, fun hlast =>
    hreturn (h.within.subset (hsubset (List.mem_of_getLast? hlast)))⟩

/-- The block of a function whose statements are read off the given lines. -/
theorem text_eq_wrapped {lines : List Text} {depth : Nat} {items : Tree} {y : Text}
    (h : ReadsAt depth (.many (.rule .item)) (behindBrace lines) items y) (hy : Closes y)
    (hend : (Token.scan y).2 = ['\n']) :
    Tree.text (.cat (.leaf (markBehind [' '] .braceOpen))
      (.cat items (.leaf (Token.scan y).1))) = wrapped lines := by
  have hsplit := h.items_split hy
  rw [hend] at hsplit
  have hinner : '\n' :: Text.unlines lines = items.source ++ (Token.scan y).1.gap :=
    List.append_cancel_right hsplit
  rw [wrapped, ← List.cons_append, hinner]
  simp [Tree.text, Tree.textOf, Tree.source, Tree.sourceOf, Token.source, markBehind,
    hy.split.2.1, Punctuator.spelling]

/-- The lines of a plain function are accepted as the body of one again, and are read as they
were. -/
theorem read_rewrapped (hpath : ".js".toList <:+ path) (hreturn : '\r' ∉ source)
    (hplain : exportsPlain path source = true) (h : read path source = .ok b) :
    read path (rewrapped b.name b.lines) =
      .ok ⟨b.name, b.lines, .ofLines (Text.lines (rewrapped b.name b.lines))⟩ := by
  rcases exists_statements hpath hplain h with ⟨depth, x, items, y, hfrom⟩
  have hinner : '\r' ∉ items.source ++ (Token.scan y).1.gap := fun hmem =>
    hreturn (hfrom.within.subset hmem)
  rcases hfrom.reads.items_innerLines hfrom.deep hfrom.closes hinner rfl with
    ⟨items', y', hitems, hcloses, hend, hsame⟩
  rw [← hfrom.lines] at hitems
  have hsound : items'.isSound Context.top.body = true :=
    (Tree.isSound_of_essence hsame Context.top.body).trans hfrom.sound
  rcases Module.parse?_plainExportText hfrom.name hfrom.binding hitems hcloses hend hsound with
    ⟨m, introduced, function, parameters, hm, hsingle⟩
  rw [← rewrapped_eq] at hm
  have hexported : m.items.filter (Tree.isNode .exportedFunction) =
      [Tree.plainExport introduced function ⟨wordKind b.name, [' '], b.name, false⟩
        (markBehind [' '] .braceOpen) (Token.scan y').1 parameters items'] := by
    rw [hsingle]
    rfl
  refine (read_eq_ok_iff hpath).2 ⟨m, _, _, _, hm, hexported, rfl, rfl, ?_⟩
  rw [Tree.functionName_plainFunction, Token.word?_wordKind, text_eq_wrapped hitems hcloses hend,
    blockLines_wrapped (hfrom.lines_clean hreturn)]
  rfl

/-- A module whose function shares the rows of its braces with code, one template of it going over
two rows. -/
def crowded : Text :=
  "const n = 2;\nexport function g(a, b = n) \x7b /* first */ if (a) return `x  \n y`\n" ++
  "  return \x7b a, b \x7d; \x7d\n"

theorem read_crowded :
    exportsPlain "g.js" crowded = true ∧
      read "g.js" crowded =
        .ok ⟨"g", ["/* first */ if (a) return `x", " y`", "return \x7b a, b \x7d;"],
          .ofLines (Text.lines crowded)⟩ := by
  decide +kernel

theorem read_rewrapped_crowded :
    ∃ b, read "g.js" crowded = .ok b ∧
      b.lines =
        ["/* first */ if (a) return `x", " y`", "return \x7b a, b \x7d;"].map String.toList ∧
      read "g.js" (rewrapped b.name b.lines) =
        .ok ⟨b.name, b.lines, .ofLines (Text.lines (rewrapped b.name b.lines))⟩ :=
  ⟨_, read_crowded.2, rfl, read_rewrapped (by decide) (by decide) read_crowded.1 read_crowded.2⟩

/-- A module whose function waits for another one. -/
def awaiting : Text := "export async function f() \x7b\nawait g();\n\x7d\n"

theorem read_awaiting :
    read "f.js" awaiting = .ok ⟨"f", ["await g();"], .ofLines (Text.lines awaiting)⟩ := by
  decide +kernel

/-- The lines of an asynchronous function are read, but no plain function may have them. -/
theorem read_rewrapped_awaiting :
    read "f.js" awaiting = .ok ⟨"f", ["await g();"], .ofLines (Text.lines awaiting)⟩ ∧
      read "f.js" (rewrapped "f" ["await g();".toList]) = .error (.unparsable "f.js") :=
  ⟨read_awaiting, by decide +kernel⟩

end FunctionBody

end ProcedureGen
