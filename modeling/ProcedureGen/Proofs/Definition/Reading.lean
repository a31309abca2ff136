import Mathlib.Data.List.Sublists
import ProcedureGen.Conversion
import ProcedureGen.Proofs.Text

/-!
# Statements read back

A rendered statement can be read again: its lines are found, each line is opened by the words that
stand at its two ends, and a qualified name is split at its dot.

* `Statement`: all that a rendered text says;
* `Statement.read?`: reads a text line by line;
* `Definition.Regular`: the definitions whose parts keep to their places;
* `Definition.read?_render`: reading undoes rendering;
* `Definition.render_lossless`: two definitions with one text say the same.

A part that is not on one line, or a name with a parenthesis or a dot, could be taken for something
else.
-/

namespace ProcedureGen

/-! ## Lines and options -/

namespace Text

/-- The texts that are each followed by a line end, and what stands behind the last of them. -/
def endedLines : Text → List Text
  | [] => []
  | c :: rest => if c = '\n' then [] :: endedLines rest else consRow c (endedLines rest)

variable {line : Text} {ls : List Text}

theorem endedLines_append (h : '\n' ∉ line) (rest : Text) :
    endedLines (line ++ '\n' :: rest) = line :: endedLines rest := by
  induction line with
  | nil => simp [endedLines]
  | cons c line ih =>
      have hc : c ≠ '\n' := by
        rintro rfl
        exact h (by simp)
      have hline : '\n' ∉ line := fun hmem => h (List.mem_cons_of_mem c hmem)
      simp [endedLines, hc, ih hline, consRow]

theorem endedLines_unlines (h : ∀ line ∈ ls, '\n' ∉ line) : endedLines (unlines ls) = ls := by
  induction ls with
  | nil => rfl
  | cons line ls ih =>
      have hline : '\n' ∉ line := h line (by simp)
      have hrest : endedLines (unlines ls) = ls :=
        ih fun more hmore => h more (List.mem_cons_of_mem line hmore)
      calc
        endedLines (unlines (line :: ls)) = endedLines (line ++ '\n' :: unlines ls) := by
          simp [unlines]
        _ = line :: ls := by rw [endedLines_append hline, hrest]

end Text

namespace ProcedureOptions

/-- The options that a clause names. -/
def ofClause (clause : Text) : ProcedureOptions := if clause = [] then none else ofLine clause

/-- Options that have been found on a line, or among some lines. -/
def IsFound (o : ProcedureOptions) : Prop :=
  (∃ line, o = ofLine line) ∨ ∃ lines, o = ofLines lines

variable {o : ProcedureOptions}

/-- Each keyword of a clause is found in it, and no other one: not even where two of them meet. -/
theorem ofLine_clause {found : List ProcedureOption} :
    found.Sublist ProcedureOption.all → ofLine (clause ⟨true, found⟩) = ⟨true, found⟩ := by
  intro h
  have hall : ∀ found ∈ ProcedureOption.all.sublists,
      ofLine (clause ⟨true, found⟩) = ⟨true, found⟩ := by
    decide +kernel
  exact hall found (List.mem_sublists.2 h)

theorem ofClause_clause : o.IsFound → ofClause o.clause = o := by
  have hline : ∀ line, ofClause (ofLine line).clause = ofLine line := by
    intro line
    have hne : (ofLine line).clause ≠ [] := by simp [ofLine, clause]
    calc
      ofClause (ofLine line).clause = ofLine (ofLine line).clause := if_neg hne
      _ = ofLine line := ofLine_clause List.filter_sublist
  rintro (⟨line, rfl⟩ | ⟨lines, rfl⟩)
  · exact hline line
  · cases h : lines.find? (Text.hasPart marker) with
    | none => simp [ofLines, h, none, clause, ofClause]
    | some line => simpa [ofLines, h] using hline line

/-- A clause stays on its line. -/
theorem newline_notMem_clause : o.IsFound → '\n' ∉ o.clause := by
  have hall : ∀ found ∈ ProcedureOption.all.sublists, '\n' ∉ clause ⟨true, found⟩ := by
    decide +kernel
  have hline : ∀ line, '\n' ∉ (ofLine line).clause := by
    intro line
    exact hall _ (List.mem_sublists.2 List.filter_sublist)
  rintro (⟨line, rfl⟩ | ⟨lines, rfl⟩)
  · exact hline line
  · cases h : lines.find? (Text.hasPart marker) with
    | none => simp [ofLines, h, none, clause]
    | some line => simpa [ofLines, h] using hline line

end ProcedureOptions

/-! ## Reading -/

/-- What a statement says. -/
structure Statement where
  withDrop : Bool
  schema : Text
  name : Text
  params : Text
  returnType : Text
  lines : List Text
  options : ProcedureOptions
  deriving DecidableEq

namespace Statement

/-! The words between which the parts of a statement stand. -/

def dropWords : Text := "drop function if exists "

def createWords : Text := "create or replace function "

def returnsWord : Text := "returns "

def openingWords : Text := " AS $$"

def closingWords : Text := "$$ language plv8"

/-- What stands between two texts. -/
def between? (start stop t : Text) : Option Text :=
  (Text.dropPrefix? start t).bind (Text.dropSuffix? stop)

/-- A qualified name as schema and name. -/
def splitName (qualified : Text) : Text × Text :=
  (Text.cutAt? '.' qualified).getD ([], qualified)

/-- The line that names the function, as schema, name and parameters. -/
def readHeading? (line : Text) : Option ((Text × Text) × Text) := do
  let inner ← between? createWords [')'] line
  let (qualified, params) ← Text.cutAt? '(' inner
  return (splitName qualified, params)

/-- The lines behind the one that drops the function. -/
def readLines? (withDrop : Bool) : List Text → Option Statement
  | heading :: returns :: more => do
    let ((schema, name), params) ← readHeading? heading
    let returnType ← between? returnsWord openingWords returns
    let closing ← more.getLast?
    let clause ← between? closingWords [';'] closing
    return ⟨withDrop, schema, name, params, returnType, more.dropLast, .ofClause clause⟩
  | _ => none

/-- Reads a rendered text. -/
def read? (t : Text) : Option Statement :=
  match Text.endedLines t with
  | [] => none
  | first :: rest =>
    if (Text.dropPrefix? dropWords first).isSome then readLines? true rest
    else readLines? false (first :: rest)

@[simp] theorem between?_append (start stop t : Text) :
    between? start stop (start ++ (t ++ stop)) = some t := by
  have hstop : Text.dropSuffix? stop (t ++ stop) = some t := Text.dropSuffix?_eq_some_iff.2 rfl
  simp [between?, hstop]

end Statement

namespace Definition

open Statement

/-- The parts of a definition keep to their places in a statement. -/
structure Regular (d : Definition) : Prop where
  schema : d.schema = [] ∨ isSchemaName d.schema = true
  name : '(' ∉ d.signature.name ∧ '.' ∉ d.signature.name ∧ '\n' ∉ d.signature.name
  params : '\n' ∉ d.signature.params
  returnType : '\n' ∉ d.signature.returnType
  lines : ∀ line ∈ d.body.lines, '\n' ∉ line
  options : d.body.options.IsFound

/-- What the statement of a definition is to say. -/
def statement (d : Definition) (withDrop : Bool) : Statement :=
  ⟨withDrop, d.schema, d.signature.name, d.signature.params, d.signature.returnType,
    d.body.lines, d.body.options⟩

variable {d e : Definition} {c : Char} {withDrop : Bool}

/-! ## Lines by their parts -/

theorem heading_eq (d : Definition) :
    d.heading = (d.qualifiedName ++ '(' :: d.signature.params) ++ [')'] :=
  congrArg (· ++ [')']) (List.append_assoc d.qualifiedName ['('] d.signature.params)

theorem dropLine_eq (d : Definition) : d.dropLine = dropWords ++ (d.heading ++ [';']) :=
  List.append_assoc dropWords d.heading [';']

theorem createLine_eq (d : Definition) : d.createLine = createWords ++ d.heading := rfl

theorem returnsLine_eq (d : Definition) :
    d.returnsLine = returnsWord ++ (d.signature.returnType ++ openingWords) :=
  List.append_assoc returnsWord d.signature.returnType openingWords

theorem closingLine_eq (d : Definition) :
    d.closingLine = closingWords ++ (d.body.options.clause ++ [';']) :=
  List.append_assoc closingWords d.body.options.clause [';']

/-- The statement that drops the function stands on a line of its own before the other one. -/
theorem render_true (d : Definition) : d.render true = d.dropLine ++ '\n' :: d.render false := by
  simp [render, Text.unlines]

theorem render_false (d : Definition) :
    d.render false = d.createLine ++ '\n' ::
      Text.unlines (d.returnsLine :: (d.body.lines ++ [d.closingLine])) := by
  simp [render, Text.unlines, statementLines]

/-! ## Parts of a regular definition -/

/-- The characters of a schema are none of those that end something in a statement. -/
theorem isSchemaName_mem {schema : Text} (h : isSchemaName schema = true) :
    ∀ c ∈ schema, (c.isAlphanum || c = '_' || c = '$') = true := by
  cases schema with
  | nil => simp
  | cons first rest =>
      intro c hc
      simp only [isSchemaName, Bool.and_eq_true, List.all_eq_true] at h
      rcases h with ⟨hfirst, hrest⟩
      rcases List.mem_cons.1 hc with rfl | hc
      · simp only [Char.isAlphanum]
        simp only [Bool.or_eq_true] at hfirst ⊢
        tauto
      · exact hrest c hc

theorem Regular.notMem_schema (hd : d.Regular)
    (hc : (c.isAlphanum || c = '_' || c = '$') = false) : c ∉ d.schema := by
  intro hmem
  rcases hd.schema with hnil | hname
  · simp [hnil] at hmem
  · simp [isSchemaName_mem hname c hmem] at hc

theorem Regular.notMem_qualifiedName (hd : d.Regular)
    (hc : (c.isAlphanum || c = '_' || c = '$') = false) (hdot : c ≠ '.')
    (hname : c ∉ d.signature.name) : c ∉ d.qualifiedName := by
  unfold qualifiedName
  split
  · exact hname
  · simp [hd.notMem_schema hc, hdot, hname]

/-- A name without a dot is told from its schema. -/
theorem splitName_qualifiedName (hd : d.Regular) :
    splitName d.qualifiedName = (d.schema, d.signature.name) := by
  unfold qualifiedName splitName
  by_cases hschema : d.schema = []
  · simp [hschema, Text.cutAt?_eq_none hd.name.2.1]
  · have hcut := Text.cutAt?_append (hd.notMem_schema (c := '.') (by decide)) d.signature.name
    simp [hschema, hcut]

theorem readHeading?_createLine (hd : d.Regular) :
    readHeading? d.createLine = some ((d.schema, d.signature.name), d.signature.params) := by
  have hparen : '(' ∉ d.qualifiedName :=
    hd.notMem_qualifiedName (by decide) (by decide) hd.name.1
  have hcut := Text.cutAt?_append hparen d.signature.params
  simp [readHeading?, createLine_eq, heading_eq, -List.append_assoc, -List.cons_append, hcut,
    splitName_qualifiedName hd]

/-! ## Whole statements -/

theorem readLines?_statementLines (hd : d.Regular) (withDrop : Bool) :
    readLines? withDrop d.statementLines = some (d.statement withDrop) := by
  simp [readLines?, statementLines, readHeading?_createLine hd, returnsLine_eq, closingLine_eq,
    ProcedureOptions.ofClause_clause hd.options, statement]

/-- Every line of a regular statement is one line. -/
theorem Regular.newline_notMem (hd : d.Regular) :
    ∀ line ∈ (if withDrop then [d.dropLine] else []) ++ d.statementLines, '\n' ∉ line := by
  have hwords : '\n' ∉ dropWords ∧ '\n' ∉ createWords ∧ '\n' ∉ returnsWord ∧
      '\n' ∉ openingWords ∧ '\n' ∉ closingWords := by
    decide
  have hname : '\n' ∉ d.qualifiedName :=
    hd.notMem_qualifiedName (by decide) (by decide) hd.name.2.2
  have hclause := ProcedureOptions.newline_notMem_clause hd.options
  intro line hline
  rcases List.mem_append.1 hline with hline | hline
  · have hdrop : line = d.dropLine := by
      cases withDrop <;> simp_all
    simp [hdrop, dropLine_eq, heading_eq, hwords, hname, hd.params]
  · simp only [statementLines, List.cons_append, List.mem_cons, List.mem_append,
      List.not_mem_nil, or_false] at hline
    rcases hline with rfl | rfl | hline | rfl
    · simp [createLine_eq, heading_eq, hwords, hname, hd.params]
    · simp [returnsLine_eq, hwords, hd.returnType]
    · exact hd.lines line hline
    · simp [closingLine_eq, hwords, hclause]

/-- Reading undoes rendering. -/
theorem read?_render (hd : d.Regular) (withDrop : Bool) :
    read? (d.render withDrop) = some (d.statement withDrop) := by
  have hlines : Text.endedLines (d.render withDrop) =
      (if withDrop then [d.dropLine] else []) ++ d.statementLines :=
    Text.endedLines_unlines hd.newline_notMem
  unfold read?
  rw [hlines]
  -- The first words tell whether the statement drops the function.
  cases withDrop with
  | false =>
      have hfirst : Text.dropPrefix? dropWords d.createLine = none := rfl
      simpa [statementLines, hfirst] using readLines?_statementLines hd false
  | true => simpa [dropLine_eq] using readLines?_statementLines hd true

/-- The text of a statement tells everything that the definition says in it.  The line that drops
the function names it, with its parameters, as the statement itself does. -/
theorem render_lossless :
    (∀ (d e : Definition) (b c : Bool), d.Regular → e.Regular → d.render b = e.render c →
      b = c ∧ d.schema = e.schema ∧ d.signature = e.signature ∧ d.body.lines = e.body.lines ∧
        d.body.options = e.body.options) ∧
    ∀ d : Definition,
      d.render true =
          "drop function if exists " ++ (d.qualifiedName ++ "(" ++ d.signature.params ++ ")") ++
            ";" ++ '\n' :: d.render false ∧
        ∃ rest, d.render false =
          "create or replace function " ++ (d.qualifiedName ++ "(" ++ d.signature.params ++ ")") ++
            '\n' :: rest := by
  refine ⟨?_, fun d => ⟨d.render_true, _, d.render_false⟩⟩
  intro d e b c hd he htext
  have hsame : d.statement b = e.statement c := by
    refine Option.some.inj ?_
    calc
      some (d.statement b) = read? (d.render b) := (read?_render hd b).symm
      _ = read? (e.render c) := by rw [htext]
      _ = some (e.statement c) := read?_render he c
  simp only [statement, Statement.mk.injEq] at hsame
  rcases hsame with ⟨hdrop, hschema, hname, hparams, htype, hlines, hoptions⟩
  have hsignature : d.signature = e.signature := by
    cases hd' : d.signature
    cases he' : e.signature
    simp_all
  exact ⟨hdrop, hschema, hsignature, hlines, hoptions⟩

/-- A definition whose parts look like other parts of a statement, with a body of any name: the
statement does not say that one. -/
def intricateSample (bodyName : Text) : Definition :=
  ⟨"s_1", ⟨"f$", "a numeric(3, 1), b text", "table(x text)"⟩,
    ⟨bodyName, ["create or replace function s_1.f$(a text)", "", "$$ language plv8;"],
      .ofLine "// plv8: security definer, stable"⟩⟩

theorem regular_intricateSample (bodyName : Text) : (intricateSample bodyName).Regular := by
  refine ⟨.inr ?_, ?_, ?_, ?_, ?_, .inl ⟨_, rfl⟩⟩ <;> dsimp only [intricateSample] <;> decide

theorem render_lossless_intricateSample :
    (intricateSample "f$").Regular ∧ (intricateSample "").Regular ∧
      (intricateSample "f$").render true = (intricateSample "").render true ∧
      (intricateSample "f$").signature = (intricateSample "").signature ∧
      (intricateSample "f$").body.options = (intricateSample "").body.options := by
  have hd := regular_intricateSample "f$"
  have he := regular_intricateSample ""
  have htext : (intricateSample "f$").render true = (intricateSample "").render true := rfl
  obtain ⟨-, -, hsignature, -, hoptions⟩ :=
    render_lossless.1 (intricateSample "f$") (intricateSample "") true true hd he htext
  exact ⟨hd, he, htext, hsignature, hoptions⟩

end Definition

end ProcedureGen
