import ProcedureGen.Proofs.Body.Block
import ProcedureGen.Proofs.Definition.Reading

/-!
# The options of a module

The options of a procedure are told by the first line of its module that carries the marker, and can
be told again from the last line of its statement.

* `MarkerLine`: a line of a text is the first one that carries the marker;
* `ProcedureOptions.ofLines_of_markerLine`: the options of a text are those of this line;
* `ProcedureOptions.ofLine_closingLine`: the last line of a statement names the same options;
* `FunctionBody.read_options`: what the options of a module depend on.
-/

namespace ProcedureGen

open ProcedureOptions (marker)

/-- A line stands between two parts of a text, and is the first one that carries the marker.  A `\r`
in front of a line feed may be taken for a part of the line. -/
structure MarkerLine (before line after : Text) : Prop where
  start : before = [] ∨ before.getLast? = some '\n'
  oneLine : '\n' ∉ line
  stop : after = [] ∨ ['\n'] <+: after ∨ ['\r', '\n'] <+: after
  marked : marker <:+: line
  first : ¬ marker <:+: before

theorem marker_noLineEnd : '\n' ∉ marker ∧ '\r' ∉ marker := by decide

/-- A text that holds the marker has a first line with it. -/
theorem exists_markerLine (t : Text) (h : marker <:+: t) :
    ∃ before line after, t = before ++ line ++ after ∧ MarkerLine before line after := by
  have hnone : ¬ marker <:+: [] := by decide
  by_cases ht : '\n' ∈ t
  · rcases List.eq_append_cons_of_mem ht with ⟨row, rest, rfl, hrow⟩
    by_cases hmarked : marker <:+: row
    · exact ⟨[], row, '\n' :: rest, rfl, .inl rfl, hrow, .inr (.inl (by simp)), hmarked, hnone⟩
    -- The row goes before the line that the rest of the text has.
    · have hrest : marker <:+: rest :=
        ((Text.infix_append_cons_iff marker_noLineEnd.1).1 h).resolve_left hmarked
      have hshorter : rest.length < (row ++ '\n' :: rest).length := by simp; omega
      rcases exists_markerLine rest hrest with ⟨before, line, after, rfl, hline⟩
      refine ⟨row ++ '\n' :: before, line, after, by simp, .inr ?_, hline.oneLine, hline.stop,
        hline.marked, fun hbefore => ?_⟩
      · rcases hline.start with rfl | hend
        · simp
        · simp [List.getLast?_cons, hend]
      · rcases (Text.infix_append_cons_iff marker_noLineEnd.1).1 hbefore with hbefore | hbefore
        · exact hmarked hbefore
        · exact hline.first hbefore
  · exact ⟨[], t, [], by simp, .inl rfl, ht, .inl rfl, h, hnone⟩
termination_by t.length

/-- If some line of a text carries the marker, one of them is the first. -/
theorem exists_markedLine_iff {t : Text} :
    (∃ line ∈ Text.lines t, marker <:+: line) ↔
      ∃ before line after, t = before ++ line ++ after ∧ MarkerLine before line after := by
  rw [Text.exists_line_iff (by decide) marker_noLineEnd.1 marker_noLineEnd.2]
  constructor
  · exact exists_markerLine t
  · rintro ⟨before, line, after, rfl, hline⟩
    exact hline.marked.trans ⟨before, after, rfl⟩

namespace ProcedureOptions

variable {before line after : Text} {o : ProcedureOption}

theorem mem_ofLine : o ∈ (ofLine line).found ↔ o.keywords <:+: line := by
  have hall : o ∈ ProcedureOption.all := by cases o <;> decide
  simp [ofLine, hall, Text.hasPart_iff]

theorem found_sublist (line : Text) : (ofLine line).found.Sublist ProcedureOption.all :=
  List.filter_sublist

theorem ofLine_withoutReturn (line : Text) : ofLine (Text.withoutReturn line) = ofLine line := by
  have hreturn : ∀ o : ProcedureOption, '\r' ∉ o.keywords := by
    intro o
    cases o <;> decide
  have hsame : ∀ o : ProcedureOption,
      Text.hasPart o.keywords (Text.withoutReturn line) = Text.hasPart o.keywords line := by
    intro o
    rw [Bool.eq_iff_iff, Text.hasPart_iff, Text.hasPart_iff,
      Text.infix_withoutReturn_iff (hreturn o)]
  simp only [ofLine, hsame]

theorem found_of_unmarked {lines : List Text} (h : (ofLines lines).isMarked = false) :
    (ofLines lines).found = [] := by
  unfold ofLines at h ⊢
  split at h
  next => simp [ofLine] at h
  next => rfl

/-- There is a marker if some line holds it. -/
theorem isMarked_ofLines {lines : List Text} :
    (ofLines lines).isMarked = true ↔ ∃ line ∈ lines, marker <:+: line := by
  simp only [← Text.hasPart_iff, ← List.find?_isSome]
  unfold ofLines
  cases lines.find? (Text.hasPart marker) with
  | some line => simp [ofLine]
  | none => simp [none]

/-! ## Lines of a text -/

/-- A last line without anything in it is no marker line. -/
theorem ofLines_lines (t : Text) : ofLines (Text.lines t) = ofLines (Text.rows t) := by
  rw [Text.lines]
  split
  next hlast =>
    rcases List.getLast?_eq_some_iff.1 hlast with ⟨front, hrows⟩
    have hnil : Text.hasPart marker [] = false := by decide
    rw [hrows, List.dropLast_concat, ofLines, ofLines, List.find?_append]
    simp [hnil]
  next => rfl

theorem ofLines_rows_of_unmarked {row : Text} (hrow : '\n' ∉ row) (h : ¬ marker <:+: row)
    (rest : Text) : ofLines (Text.rows (row ++ '\n' :: rest)) = ofLines (Text.rows rest) := by
  have hnot : Text.hasPart marker (Text.withoutReturn row) = false := by
    rw [← Bool.not_eq_true, Text.hasPart_iff, Text.infix_withoutReturn_iff marker_noLineEnd.2]
    exact h
  rw [Text.rows_append_feed hrow, ofLines, ofLines, List.find?_cons_of_neg (by simp [hnot])]

/-- Whole lines without the marker do not matter. -/
theorem ofLines_rows_append (before rest : Text)
    (hwhole : before = [] ∨ before.getLast? = some '\n') (h : ¬ marker <:+: before) :
    ofLines (Text.rows (before ++ rest)) = ofLines (Text.rows rest) := by
  rcases hwhole with rfl | hend
  · rfl
  · have hfeed : '\n' ∈ before := List.mem_of_getLast? hend
    rcases List.eq_append_cons_of_mem hfeed with ⟨row, more, rfl, hrow⟩
    have hshorter : more.length < (row ++ '\n' :: more).length := by simp; omega
    rw [Text.infix_append_cons_iff marker_noLineEnd.1, not_or] at h
    have hmore : more = [] ∨ more.getLast? = some '\n' := by
      cases more with
      | nil => exact .inl rfl
      | cons c more => exact .inr (by simpa [List.getLast?_append] using hend)
    rw [List.append_assoc, List.cons_append, ofLines_rows_of_unmarked hrow h.1]
    exact ofLines_rows_append more rest hmore h.2
termination_by before.length

theorem ofLines_cons_of_marked {row : Text} (h : marker <:+: row) (rows : List Text) :
    ofLines (row :: rows) = ofLine row := by
  rw [ofLines, List.find?_cons_of_pos (Text.hasPart_iff.2 h)]

/-- The options of a text are those of its first marker line. -/
theorem ofLines_of_markerLine (h : MarkerLine before line after) :
    ofLines (Text.lines (before ++ line ++ after)) = ofLine line := by
  rw [ofLines_lines, List.append_assoc, ofLines_rows_append before _ h.start h.first]
  rcases h.stop with rfl | ⟨rest, rfl⟩ | ⟨rest, rfl⟩
  · rw [List.append_nil, Text.rows_eq_singleton h.oneLine, ofLines_cons_of_marked h.marked]
  · rw [List.singleton_append, Text.rows_append_feed h.oneLine, ofLines_cons_of_marked,
      ofLine_withoutReturn]
    exact (Text.infix_withoutReturn_iff marker_noLineEnd.2).2 h.marked
  · have hsplit : line ++ (['\r', '\n'] ++ rest) = (line ++ ['\r']) ++ '\n' :: rest := by simp
    have hwithout : Text.withoutReturn (line ++ ['\r']) = line := by simp [Text.withoutReturn]
    rw [hsplit, Text.rows_append_feed (by simp [h.oneLine]), hwithout,
      ofLines_cons_of_marked h.marked]

/-! ## The last line of a statement -/

/-- The words of a closing line name no option, and so do no two keywords that meet in it. -/
theorem ofLine_closingLine {d : Definition} (h : d.body.options.IsFound) :
    (ofLine d.closingLine).found = d.body.options.found := by
  have hnone : (ofLine (Statement.closingWords ++ (clause none ++ [';']))).found = [] := by
    decide +kernel
  -- What a line names is one of finitely many lists, and each of them can be tried.
  have hall : ∀ found ∈ ProcedureOption.all.sublists,
      (ofLine (Statement.closingWords ++ (clause ⟨true, found⟩ ++ [';']))).found = found := by
    decide +kernel
  have hline : ∀ line, (ofLine (Statement.closingWords ++
      (clause (ofLine line) ++ [';']))).found = (ofLine line).found := by
    intro line
    exact hall _ (List.mem_sublists.2 (found_sublist line))
  rw [d.closingLine_eq]
  rcases h with ⟨line, hoptions⟩ | ⟨lines, hoptions⟩
  · rw [hoptions]
    exact hline line
  · rw [hoptions, ofLines]
    split
    next line _ => exact hline line
    next => exact hnone

end ProcedureOptions

namespace Definition

variable {d : Definition}

/-- The closing line is the last one, whatever line ends the other parts of a definition hold. -/
theorem getLast?_lines_render (h : d.body.options.IsFound) (withDrop : Bool) :
    (Text.lines (d.render withDrop)).getLast? = some d.closingLine := by
  have hwords : '\n' ∉ Statement.closingWords := by decide
  have hfeed : '\n' ∉ d.closingLine := by
    simp [d.closingLine_eq, hwords, ProcedureOptions.newline_notMem_clause h]
  have hreturn : d.closingLine.getLast? ≠ some '\r' := by
    rw [d.closingLine_eq, ← List.append_assoc, List.getLast?_concat]
    decide
  have hrender : ∃ t, d.render withDrop = t ++ '\n' :: (d.closingLine ++ ['\n']) := by
    have hsplit : d.render withDrop = Text.unlines ((if withDrop then [d.dropLine] else []) ++
        d.createLine :: d.returnsLine :: d.body.lines) ++ (d.closingLine ++ ['\n']) := by
      simp [render, statementLines, Text.unlines]
    rcases List.eq_nil_or_concat ((if withDrop then [d.dropLine] else []) ++
        d.createLine :: d.returnsLine :: d.body.lines) with hnil | ⟨front, last, hfront⟩
    · simp at hnil
    · refine ⟨Text.unlines front ++ last, ?_⟩
      rw [hsplit, hfront]
      simp [Text.unlines]
  rcases hrender with ⟨t, ht⟩
  rw [ht, Text.getLast?_lines t hfeed hreturn]

end Definition

namespace FunctionBody

open Script

variable {path source : Text} {b : FunctionBody}

theorem options_of_read (h : FunctionBody.read path source = .ok b) :
    b.options = .ofLines (Text.lines source) := by
  rcases read_eq_ok_iff_exists.1 h with ⟨m, f, block, -, -, -, rfl⟩
  rfl

/-- The options of a module are those that its first marker line names, in the order of all options
and each once, and without such a line there are none.  So they are the same in a module that has
other lines without the marker before this line, and any lines behind it.  The last line of a
statement with these options names them again. -/
theorem read_options (path source : Text) (b : FunctionBody)
    (h : FunctionBody.read path source = .ok b) :
    (∀ before line after, source = before ++ line ++ after → MarkerLine before line after →
      b.options.isMarked = true ∧ b.options.found.Sublist ProcedureOption.all ∧
        b.options.found.Nodup ∧ ∀ o, o ∈ b.options.found ↔ o.keywords <:+: line) ∧
    (b.options.isMarked = true ↔
      ∃ before line after, source = before ++ line ++ after ∧ MarkerLine before line after) ∧
    (b.options.isMarked = false ↔ ∀ line ∈ Text.lines source, ¬ marker <:+: line) ∧
    (b.options.isMarked = false → b.options.found = []) ∧
    (∀ before line after before' after' c, source = before ++ line ++ after →
      MarkerLine before line after → MarkerLine before' line after' →
      FunctionBody.read path (before' ++ line ++ after') = .ok c → c.options = b.options) ∧
    ∀ d : Definition, d.body.options = b.options → ∀ withDrop, ∃ line,
      (Text.lines (d.render withDrop)).getLast? = some line ∧
        (ProcedureOptions.ofLine line).found = b.options.found := by
  have hoptions := options_of_read h
  have hline : ∀ before line after, source = before ++ line ++ after →
      MarkerLine before line after → b.options = .ofLine line := by
    rintro before line after rfl hline
    rw [hoptions, ProcedureOptions.ofLines_of_markerLine hline]
  have hmarked : b.options.isMarked = true ↔ ∃ line ∈ Text.lines source, marker <:+: line := by
    rw [hoptions, ProcedureOptions.isMarked_ofLines]
  refine ⟨fun before line after hsource hfirst => ?_, ?_, ?_, fun hnone => ?_, ?_, ?_⟩
  · rw [hline before line after hsource hfirst]
    have hsub := ProcedureOptions.found_sublist line
    exact ⟨rfl, hsub, hsub.nodup (by decide), fun o => ProcedureOptions.mem_ofLine⟩
  · rw [hmarked, exists_markedLine_iff]
  · rw [← Bool.not_eq_true, hmarked]
    simp
  · rw [hoptions] at hnone ⊢
    exact ProcedureOptions.found_of_unmarked hnone
  -- Both texts have the line as their first one with the marker.
  · intro before line after before' after' c hsource hfirst hfirst' hread
    rw [options_of_read hread, ProcedureOptions.ofLines_of_markerLine hfirst',
      hline before line after hsource hfirst]
  · intro d hd withDrop
    have hfound : d.body.options.IsFound := .inr ⟨_, hd.trans hoptions⟩
    exact ⟨d.closingLine, d.getLast?_lines_render hfound withDrop,
      hd ▸ ProcedureOptions.ofLine_closingLine hfound⟩

/-- The first marker line of the next two modules: one keyword in another word, one of two words
with only its first word, and one that the order of options puts last. -/
def optionLine : Text := "// plv8: security invoker, unstable security"

def optionEnd : Text := "\r\nexport function f() \x7b\x7d\n"

/-- A line in front, and a further marker line behind. -/
def optionStart : Text := "// immutable\n"

def optionRest : Text := "\n// plv8: volatile\nexport function f() \x7b\x7d"

theorem read_options_twoMarkers :
    ∃ b c, FunctionBody.read "f.js" (optionLine ++ optionEnd) = .ok b ∧
      FunctionBody.read "f.js" (optionStart ++ optionLine ++ optionRest) = .ok c ∧
      MarkerLine [] optionLine optionEnd ∧ MarkerLine optionStart optionLine optionRest ∧
      b.options.isMarked = true ∧ (.stable ∈ b.options.found ∧ .volatile ∉ b.options.found) ∧
      c.options = b.options ∧
      ∃ line, (Text.lines (Definition.render ⟨"s", ⟨"f", "", "trigger"⟩, b⟩ true)).getLast? =
          some line ∧ (ProcedureOptions.ofLine line).found = b.options.found := by
  have hread : FunctionBody.read "f.js" (optionLine ++ optionEnd) =
        .ok ⟨"f", [], .ofLines (Text.lines (optionLine ++ optionEnd))⟩ ∧
      FunctionBody.read "f.js" (optionStart ++ optionLine ++ optionRest) =
        .ok ⟨"f", [], .ofLines (Text.lines (optionStart ++ optionLine ++ optionRest))⟩ := by
    decide +kernel
  have hmarked : marker <:+: optionLine ∧ ¬ marker <:+: optionStart := by
    rw [← Text.hasPart_iff, ← Text.hasPart_iff]
    decide
  have hline : MarkerLine [] optionLine optionEnd :=
    ⟨.inl rfl, by decide, .inr (.inr (by decide)), hmarked.1, by decide⟩
  have hline' : MarkerLine optionStart optionLine optionRest :=
    ⟨.inr (by decide), by decide, .inr (.inl (by decide)), hmarked.1, hmarked.2⟩
  obtain ⟨hfound, -, -, -, hsame, hrender⟩ := read_options "f.js" _ _ hread.1
  obtain ⟨htrue, -, -, hmem⟩ := hfound [] optionLine optionEnd rfl hline
  refine ⟨_, _, hread.1, hread.2, hline, hline', htrue, ⟨?_, ?_⟩,
    hsame [] optionLine optionEnd optionStart optionRest _ rfl hline hline' hread.2,
    hrender ⟨"s", ⟨"f", "", "trigger"⟩, _⟩ rfl true⟩
  · rw [hmem, ← Text.hasPart_iff]
    decide
  · rw [hmem, ← Text.hasPart_iff]
    decide

end FunctionBody
end ProcedureGen
