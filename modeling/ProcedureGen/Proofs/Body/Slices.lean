import ProcedureGen.Proofs.Body.Rewrap

/-!
# The lines of a block

The lines of a block, told by the pieces of its text between line feeds.

* `Text.slices`: these pieces without what belongs to a line end;
* `Text.rows_eq_slices`: they are the rows of the text;
* `FunctionBody.trimmedRow`: what is left of a row that it shares with a brace;
* `FunctionBody.blockLines_slices`: which slices are lines.
-/

namespace ProcedureGen

namespace Text

/-- The pieces of a text between its line feeds.  In front of a line feed a `\r` is left out. -/
def slices (t : Text) : List Text :=
  (t.splitOn '\n').dropLast.map withoutReturn ++ (t.splitOn '\n').getLast?.toList

theorem slices_append_feed {row : Text} (h : '\n' ∉ row) (rest : Text) :
    slices (row ++ '\n' :: rest) = withoutReturn row :: slices rest := by
  rcases List.eq_nil_or_concat (rest.splitOn '\n') with hnil | ⟨front, last, hsplit⟩
  · exact absurd hnil (List.splitOn_ne_nil _ _)
  · rw [List.concat_eq_append] at hsplit
    have hall : (row ++ '\n' :: rest).splitOn '\n' = (row :: front) ++ [last] := by
      rw [List.splitOn_append_cons_self_of_not_mem h, hsplit, List.cons_append]
    rw [slices, slices, hall, hsplit, List.dropLast_concat, List.getLast?_concat,
      List.dropLast_concat, List.getLast?_concat, List.map_cons, List.cons_append]

theorem rows_eq_slices (t : Text) : rows t = slices t := by
  by_cases hfeed : '\n' ∈ t
  -- The first row ends at the first line feed.
  · rcases List.eq_append_cons_of_mem hfeed with ⟨row, rest, ht, hrow⟩
    have hshorter : rest.length < t.length := by simp [ht]; omega
    rw [ht, rows_append_feed hrow, slices_append_feed hrow, rows_eq_slices rest]
  · rw [rows_eq_singleton hfeed, slices, List.splitOn_eq_singleton hfeed]
    rfl
termination_by t.length

end Text

namespace FunctionBody

/-- A row without the white space at its ends, unless nothing else is in it. -/
def trimmedRow (row : Option Text) : List Text := (row.map Text.trim).toList.filter (· ≠ [])

theorem edgeLine_eq_trimmedRow (row : Text) : edgeLine row = trimmedRow (some row) := by
  unfold edgeLine trimmedRow
  cases h : Text.trim row <;> simp [h]

theorem behindFirst_eq (rows : List Text) :
    behindFirst rows = rows.dropLast ++ trimmedRow rows.getLast? := by
  rcases List.eq_nil_or_concat rows with rfl | ⟨front, last, rfl⟩
  · rfl
  · rw [List.concat_eq_append, Script.behindFirst_append, edgeLine_eq_trimmedRow,
      List.dropLast_concat, List.getLast?_concat]

theorem innerLines_eq (inner : Text) :
    innerLines inner = trimmedRow (Text.slices inner).head? ++ (Text.slices inner).tail.dropLast ++
      trimmedRow (Text.slices inner).tail.getLast? := by
  rcases List.exists_cons_of_ne_nil (Text.rows_ne_nil inner) with ⟨first, rest, hrows⟩
  rw [innerLines, ← Text.rows_eq_slices, hrows]
  simp only [edgeLine_eq_trimmedRow, behindFirst_eq, List.head?_cons, List.tail_cons,
    List.append_assoc]

/-- The lines of a block are the slices of the text between its braces.  The first and the last one
are trimmed, as they stand beside the braces, and left out if nothing remains; those between stand
as they are.  So the lines that are put into a block, each on a row of its own, are the lines of it.
-/
theorem blockLines_slices :
    (∀ inner : Text, blockLines ('\x7b' :: inner ++ ['\x7d']) =
      trimmedRow (Text.slices inner).head? ++ (Text.slices inner).tail.dropLast ++
        trimmedRow (Text.slices inner).tail.getLast?) ∧
    ∀ lines : List Text, (∀ l ∈ lines, '\n' ∉ l ∧ l.getLast? ≠ some '\r') →
      blockLines ('\x7b' :: '\n' :: (Text.unlines lines ++ ['\x7d'])) = lines := by
  constructor
  · intro inner
    rw [blockLines, withoutBraces_eq rfl, innerLines_eq]
  · intro lines h
    exact blockLines_wrapped h

/-- Blank lines, white space and a `\r` inside a line are kept. -/
theorem blockLines_slices_blankRows :
    (∀ l ∈ ["".toList, "  a\r b".toList, " ".toList], '\n' ∉ l ∧ l.getLast? ≠ some '\r') ∧
      blockLines ('\x7b' :: '\n' ::
        (Text.unlines ["".toList, "  a\r b".toList, " ".toList] ++ ['\x7d'])) =
          ["".toList, "  a\r b".toList, " ".toList] := by
  have hlines : ∀ l ∈ ["".toList, "  a\r b".toList, " ".toList],
      '\n' ∉ l ∧ l.getLast? ≠ some '\r' := by decide
  exact ⟨hlines, blockLines_slices.2 _ hlines⟩

end FunctionBody

end ProcedureGen
