import ProcedureGen.Glob.Pattern

/-!
# The marks of a glob

A glob is cut into marks before its structure is read.

* `Mark.read`: the marks of a text; where the text is at fault, the fault is the last mark;
* `ClassReading`: a character class while it is read.

Classes are written in characters but stand for bytes: a member outside ASCII stands for each byte
of its UTF-8 form.
-/

namespace ProcedureGen

namespace Glob

/-- Why a text is no glob. -/
inductive Fault where
  | unclosedClass
  | invalidRange (first last : Char)
  | danglingEscape
  | unclosedGroup
  | unopenedGroup
  deriving DecidableEq, Repr

/-- What is reported of a fault in a glob. -/
def Fault.message (glob : Text) (f : Fault) : Text :=
  let reason : Text := match f with
    | .unclosedClass => "unclosed character class; missing ']'"
    | .invalidRange a b => "invalid range; '" ++ [a] ++ "' > '" ++ [b] ++ "'"
    | .danglingEscape => "dangling '\\'"
    | .unclosedGroup =>
      "unclosed alternate group; missing '\x7d' (maybe escape '\x7b' with '[\x7b]'?)"
    | .unopenedGroup =>
      "unopened alternate group; missing '\x7b' (maybe escape '\x7d' with '[\x7d]'?)"
  "error parsing glob '" ++ glob ++ "': " ++ reason

inductive Mark where
  /-- A character that stands for itself. -/
  | plain (c : Char)
  /-- A character that stands for itself because of a `\` in front. -/
  | escaped (c : Char)
  | question
  | star
  | opening
  | closing
  | comma
  | oneOf (s : ByteClass)
  | fault (f : Fault)
  deriving DecidableEq, Repr

/-! ## Character classes -/

/-- The byte ranges of a range of characters.  A range between characters of several bytes joins
the last byte of the first to the first byte of the second. -/
def byteRanges (first last : Char) : List (UInt8 × UInt8) :=
  let bytes (c : Char) := String.utf8EncodeChar c
  let singles (bs : List UInt8) := bs.map fun b => (b, b)
  if first = last then singles (bytes first)
  else
    singles (bytes first).dropLast ++
      List.zip (bytes first).getLast?.toList (bytes last).head?.toList ++
      singles (bytes last).tail

/-- A character class while it is read, up to its `]`. -/
structure ClassReading where
  isNegated : Bool
  /-- The ranges so far, last first. -/
  ranges : List (Char × Char)
  /-- Whether a `-` waits for the end of the last range. -/
  isOpenRange : Bool
  deriving DecidableEq, Repr

namespace ClassReading

/-- Takes a character that is no delimiter.  After a `-` it ends the last range, so that a second
`-` moves that end on. -/
def add (k : ClassReading) (c : Char) : Except Fault ClassReading :=
  match k.isOpenRange, k.ranges with
  | true, (first, _) :: rest =>
    if c < first then .error (.invalidRange first c)
    else .ok { k with ranges := (first, c) :: rest, isOpenRange := false }
  | _, ranges => .ok { k with ranges := (c, c) :: ranges }

/-- The set of a class that has been closed.  A `-` at the end stands for itself. -/
def close (k : ClassReading) : ByteClass :=
  let ranges := if k.isOpenRange then ('-', '-') :: k.ranges else k.ranges
  ⟨k.isNegated, ranges.reverse.flatMap fun r => byteRanges r.1 r.2⟩

end ClassReading

/-! ## Reading marks -/

/-- Where in a glob the reader is. -/
inductive Place where
  /-- Between two marks. -/
  | outside
  /-- After a `\`. -/
  | afterEscape
  /-- After the `[` of a class, where `!` and `^` negate. -/
  | classStart
  /-- In a class. -/
  | inClass (k : ClassReading)
  deriving DecidableEq, Repr

namespace Mark

/-- The marks of a text.  The first `]` of a class stands for itself, and so does a first `-`. -/
def read : Place → Text → List Mark
  | .outside, [] => []
  | .afterEscape, [] => [.fault .danglingEscape]
  | .classStart, [] | .inClass _, [] => [.fault .unclosedClass]
  | .outside, c :: rest =>
    match c with
    | '\\' => read .afterEscape rest
    | '[' => read .classStart rest
    | '?' => .question :: read .outside rest
    | '*' => .star :: read .outside rest
    | '{' => .opening :: read .outside rest
    | '}' => .closing :: read .outside rest
    | ',' => .comma :: read .outside rest
    | c => .plain c :: read .outside rest
  | .afterEscape, c :: rest => .escaped c :: read .outside rest
  | .classStart, c :: rest =>
    if c = '!' ∨ c = '^' then read (.inClass ⟨true, [], false⟩) rest
    else read (.inClass ⟨false, [(c, c)], false⟩) rest
  | .inClass k, c :: rest =>
    if c = ']' ∧ k.ranges ≠ [] then .oneOf k.close :: read .outside rest
    else if c = '-' ∧ k.ranges ≠ [] ∧ !k.isOpenRange then
      read (.inClass { k with isOpenRange := true }) rest
    else match k.add c with
      | .ok k => read (.inClass k) rest
      | .error f => [.fault f]

end Mark

end Glob

end ProcedureGen
