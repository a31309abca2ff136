import ProcedureGen.Json.Token

/-!
# Drafts of JSON texts

A draft is a JSON text as far as it can be read.  It keeps each fault at the place where a reader
that goes from left to right meets it, so that a reader with a purpose can find another reason to
refuse the text before it gets there.

* `Draft.ofText`: the draft of a text;
* `Draft.firstFault?`: the first fault in it.
-/

namespace ProcedureGen

namespace Json

/-- A value as far as it can be read. -/
inductive Draft where
  /-- Here the text cannot be read on. -/
  | fault (f : Fault)
  | scalar (s : Scalar)
  /-- Items, and why there is no further one if not because of the closing bracket. -/
  | array (items : List Draft) (stop : Option Fault)
  /-- Members in the order of the text, and why there is no further one. -/
  | object (members : List (Text × Draft)) (stop : Option Fault)

namespace Draft

/-! ## Reading -/

/-- How many arrays and objects may stand in one another. -/
def maxDepth : Nat := 127

/-- What has been read, and the tokens that follow. -/
abbrev Read (α : Type) := α × List Token

/-- Reads the items that follow a first one. -/
def moreItems (item : List Token → Read Draft) :
    Nat → List Token → Read (List Draft × Option Fault)
  | 0, rest => (([], some .endInList), rest)
  | n + 1, tokens => match tokens with
    | [] => (([], some .endInList), [])
    | .closeBracket :: rest => (([], none), rest)
    | .comma :: rest => match rest with
      | [] => (([], some .endInValue), [])
      | .closeBracket :: _ => (([], some .trailingComma), [])
      | rest =>
        let (d, rest) := item rest
        let ((ds, stop), rest) := moreItems item n rest
        ((d :: ds, stop), rest)
    | _ => (([], some .expectedCommaOrBracket), [])

/-- Reads the items of an array after its opening bracket. -/
def readItems (item : List Token → Read Draft) (tokens : List Token) :
    Read (List Draft × Option Fault) :=
  match tokens with
  | [] => (([], some .endInList), [])
  | .closeBracket :: rest => (([], none), rest)
  | tokens =>
    let (d, rest) := item tokens
    let ((ds, stop), rest) := moreItems item rest.length rest
    ((d :: ds, stop), rest)

/-- Reads the value of a member, with the colon in front. -/
def readMemberValue (item : List Token → Read Draft) : List Token → Read Draft
  | .colon :: rest => item rest
  | [] => (.fault .endInObject, [])
  | _ => (.fault .expectedColon, [])

/-- Reads the members that follow a first one. -/
def moreMembers (item : List Token → Read Draft) :
    Nat → List Token → Read (List (Text × Draft) × Option Fault)
  | 0, rest => (([], some .endInObject), rest)
  | n + 1, tokens => match tokens with
    | [] => (([], some .endInObject), [])
    | .closeBrace :: rest => (([], none), rest)
    | .comma :: rest => match rest with
      | [] => (([], some .endInValue), [])
      | .closeBrace :: _ => (([], some .trailingComma), [])
      | .string key :: rest =>
        let (d, rest) := readMemberValue item rest
        let ((ds, stop), rest) := moreMembers item n rest
        (((key, d) :: ds, stop), rest)
      | .badString f :: _ => (([], some f), [])
      | _ => (([], some .keyNotString), [])
    | _ => (([], some .expectedCommaOrBrace), [])

/-- Reads the members of an object after its opening brace. -/
def readMembers (item : List Token → Read Draft) (tokens : List Token) :
    Read (List (Text × Draft) × Option Fault) :=
  match tokens with
  | [] => (([], some .endInObject), [])
  | .closeBrace :: rest => (([], none), rest)
  | .string key :: rest =>
    let (d, rest) := readMemberValue item rest
    let ((ds, stop), rest) := moreMembers item rest.length rest
    (((key, d) :: ds, stop), rest)
  | .badString f :: _ => (([], some f), [])
  | _ => (([], some .keyNotString), [])

/-- Reads a value in which so many arrays and objects may stand in one another. -/
def read : Nat → List Token → Read Draft
  | _, .scalar s :: rest => (.scalar s, rest)
  | _, .string t :: rest => (.scalar (.string t), rest)
  | _, .badScalar f :: _ | _, .badString f :: _ => (.fault f, [])
  | 0, .openBracket :: _ | 0, .openBrace :: _ => (.fault .tooDeep, [])
  | n + 1, .openBracket :: rest =>
    let ((items, stop), rest) := readItems (read n) rest
    (.array items stop, rest)
  | n + 1, .openBrace :: rest =>
    let ((members, stop), rest) := readMembers (read n) rest
    (.object members stop, rest)
  | _, [] => (.fault .endInValue, [])
  | _, _ :: _ => (.fault .expectedValue, [])

/-- The draft of a text, and whether something stands behind it. -/
def ofText (t : Text) : Draft × Bool :=
  let (d, rest) := read maxDepth (Token.readAll t)
  (d, !rest.isEmpty)

end Draft

end Json

end ProcedureGen
