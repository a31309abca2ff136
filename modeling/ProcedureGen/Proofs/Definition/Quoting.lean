import ProcedureGen.Proofs.Definition.Reading
import ProcedureGen.Proofs.Store.Run

/-!
# The quoted body

The body of a procedure stands between two marks `$$`.  The database takes the text from the first
of them to the next one, wherever that stands.

* `Text.quoted?`: what the database takes, and what stands behind it;
* `Definition.opening`: a statement up to the mark that opens the body;
* `Definition.quoted?_render`: the body is taken as a whole unless one of its lines holds the mark.
-/

namespace ProcedureGen

namespace Text

/-- The mark that stands before and behind a quoted text. -/
def quoteMark : Text := ['$', '$']

/-- The text up to the next mark, and the text behind that mark. -/
def quoted? : Text → Option (Text × Text)
  | [] => none
  | c :: rest =>
    match dropPrefix? quoteMark (c :: rest) with
    | some after => some ([], after)
    | none => (quoted? rest).map fun (t, after) => (c :: t, after)

variable {line rest t q after : Text} {ls : List Text} {c : Char}

theorem quoteMark_prefix_iff : quoteMark <+: c :: t ↔ c = '$' ∧ t.head? = some '$' := by
  cases t with
  | nil => simp [quoteMark]
  | cons d t => simp [quoteMark, eq_comm]

/-- A mark lies within one line. -/
theorem quoteMark_infix_append_iff :
    quoteMark <:+: line ++ '\n' :: rest ↔ quoteMark <:+: line ∨ quoteMark <:+: rest :=
  infix_append_cons_iff (by decide)

theorem quoteMark_infix_unlines_iff :
    quoteMark <:+: unlines ls ++ ['$'] ↔ ∃ line ∈ ls, quoteMark <:+: line := by
  induction ls with
  | nil =>
      have hnone : ¬ quoteMark <:+: ['$'] := by decide
      simp [unlines, hnone]
  | cons line ls ih =>
      have hsplit : unlines (line :: ls) ++ ['$'] = line ++ '\n' :: (unlines ls ++ ['$']) := by
        simp [unlines]
      simp [hsplit, quoteMark_infix_append_iff, ih]

/-- What is taken ends before the first mark, also where a `$` stands in front of that mark. -/
theorem quoted?_append_iff :
    quoted? (q ++ (quoteMark ++ after)) = some (q, after) ↔ ¬ quoteMark <:+: q ++ ['$'] := by
  induction q with
  | nil =>
      have hnone : ¬ quoteMark <:+: ['$'] := by decide
      have hmark : quoted? (quoteMark ++ after) = some ([], after) := rfl
      simp [hmark, hnone]
  | cons c q ih =>
      have hhead : (q ++ (quoteMark ++ after)).head? = (q ++ ['$']).head? := by
        cases q <;> rfl
      have hhere : quoteMark <+: c :: (q ++ (quoteMark ++ after)) ↔
          quoteMark <+: c :: (q ++ ['$']) := by
        rw [quoteMark_prefix_iff, quoteMark_prefix_iff, hhead]
      simp only [List.cons_append, quoted?, List.infix_cons_iff, ← hhere]
      cases hdrop : dropPrefix? quoteMark (c :: (q ++ (quoteMark ++ after))) with
      | some stop =>
          have hstart : quoteMark <+: c :: (q ++ (quoteMark ++ after)) :=
            ⟨stop, (dropPrefix?_eq_some_iff.1 hdrop).symm⟩
          simp [hstart]
      | none =>
          have hstart := dropPrefix?_eq_none_iff.1 hdrop
          simp [hstart, ← ih]

end Text

namespace Definition

variable {d : Definition} {withDrop : Bool}

/-- A statement up to the mark at the end of the line that names the result type. -/
def opening (d : Definition) (withDrop : Bool) : Text :=
  Text.unlines ((if withDrop then [d.dropLine] else []) ++ [d.createLine]) ++ d.returnsLine

/-- What the database takes for the body in the statement of a definition, and what stands behind
the mark that closes it. -/
def quoted? (d : Definition) (withDrop : Bool) : Option (Text × Text) :=
  (Text.dropPrefix? (d.opening withDrop) (d.render withDrop)).bind Text.quoted?

/-- What stands behind the body: the language, the options and the end of the statement. -/
def closing (d : Definition) : Text := " language plv8" ++ d.body.options.clause ++ ";" ++ ['\n']

theorem closingLine_eq_closing (d : Definition) :
    d.closingLine ++ ['\n'] = Text.quoteMark ++ d.closing := rfl

theorem render_eq (d : Definition) (withDrop : Bool) :
    d.render withDrop =
      d.opening withDrop ++ '\n' :: (Text.unlines d.body.lines ++ (Text.quoteMark ++ d.closing)) := by
  rw [← closingLine_eq_closing]
  simp [render, opening, statementLines, Text.unlines]

/-- The database takes the lines of a body for the body, and the rest for the rest, just if none of
the lines holds the mark. -/
theorem quoted?_render (d : Definition) (withDrop : Bool) :
    d.quoted? withDrop =
        some ('\n' :: Text.unlines d.body.lines,
          " language plv8" ++ d.body.options.clause ++ ";" ++ ['\n']) ↔
      ∀ line ∈ d.body.lines, Text.hasPart ['$', '$'] line = false := by
  have hread : d.quoted? withDrop =
      Text.quoted? ('\n' :: Text.unlines d.body.lines ++ (Text.quoteMark ++ d.closing)) := by
    simp [quoted?, render_eq]
  have hclosing : " language plv8" ++ d.body.options.clause ++ ";" ++ ['\n'] = d.closing := rfl
  have hfirst : Text.quoteMark <:+: '\n' :: Text.unlines d.body.lines ++ ['$'] ↔
      ∃ line ∈ d.body.lines, Text.quoteMark <:+: line := by
    simp [List.infix_cons_iff, Text.quoteMark_prefix_iff, Text.quoteMark_infix_unlines_iff]
  rw [hread, hclosing, Text.quoted?_append_iff, hfirst]
  simp [← Text.hasPart_iff, Text.quoteMark]

end Definition

/-! ## A body with a mark -/

namespace Store

/-- A module whose function gives back a text with two dollar signs. -/
def dollarSample : Store := ⟨[
  (["f.js"], .file (Utf8.encode "export function f() \x7b return '$$'; \x7d")),
  (["f.d.ts"], .file (Utf8.encode "export declare function f(): string;"))]⟩

/-- The body of a unit that can be built is cut at the first mark in it. -/
theorem quoted?_dollarSample :
    ∃ d, (dollarSample.run (Definition.build ⟨"/f", "f", ""⟩)).1 = .ok d ∧
      d.body.lines = ["return '$$';"] ∧
      d.quoted? false = some (("\nreturn '" : Text), ("';\n$$ language plv8;\n" : Text)) ∧
      d.quoted? false ≠ some ('\n' :: Text.unlines d.body.lines,
        " language plv8" ++ d.body.options.clause ++ ";" ++ ['\n']) := by
  have hbuild : (dollarSample.run (Definition.build ⟨"/f", "f", ""⟩)).1 =
      .ok ⟨"", ⟨"f", "", "string"⟩, ⟨"f", ["return '$$';"], .none⟩⟩ := by
    decide +kernel
  refine ⟨_, hbuild, rfl, ?_, ?_⟩ <;> decide +kernel

end Store

end ProcedureGen
