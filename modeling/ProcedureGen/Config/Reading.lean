import ProcedureGen.Config.Basic
import ProcedureGen.Json.Value

/-!
# Reading configurations

A configuration is written as a JSON object with the names of its fields, or as an array with their
values in order.

* `Config.ofText`: the configuration of a text, refused for the first reason that is met from left
  to right;
* `Config.ofValue`: the configuration of a value that has been read.
-/

namespace ProcedureGen

namespace Config

open Json (Draft Scalar Value)

inductive Field where
  | root | drop | maxDepth | includes | excludes
  deriving DecidableEq, Repr

namespace Field

/-- All fields, in the order of the array form. -/
def all : List Field := [.root, .drop, .maxDepth, .includes, .excludes]

def name : Field → Text
  | .root => "root"
  | .drop => "drop"
  | .maxDepth => "max_depth"
  | .includes => "include"
  | .excludes => "exclude"

def ofName? (name : Text) : Option Field := all.find? fun f => f.name = name

end Field

/-! ## Misfits -/

/-- What is expected of a value. -/
inductive Expected where
  | config | path | flag | size | list | text
  deriving DecidableEq, Repr

def Expected.describe : Expected → Text
  | .config => "struct Plv8genConfig"
  | .path => "path string"
  | .flag => "a boolean"
  | .size => "usize"
  | .list => "a sequence"
  | .text => "a string"

/-- What is found instead. -/
inductive Found where
  | scalar (s : Scalar)
  | array
  | object
  deriving DecidableEq, Repr

def Found.describe : Found → Text
  | .scalar s => s.describe
  | .array => "sequence"
  | .object => "map"

/-- Why something is no configuration. -/
inductive Misfit where
  /-- It is no JSON. -/
  | notJson (f : Json.Fault)
  | unknownField (key : Text)
  | duplicateField (f : Field)
  | wrongType (found : Found) (expected : Expected)
  | negativeSize (n : Nat)
  | tooManyItems (count : Nat)
  deriving DecidableEq, Repr

namespace Misfit

def quoted (t : Text) : Text := ['\x60'] ++ t ++ ['\x60']

def message : Misfit → Text
  | .notJson f => f.message
  | .unknownField key =>
    "unknown field " ++ quoted key ++ ", expected one of " ++
      Text.joinWith ", " (Field.all.map fun f => quoted f.name)
  | .duplicateField f => "duplicate field " ++ quoted f.name
  | .wrongType found expected =>
    "invalid type: " ++ found.describe ++ ", expected " ++ expected.describe
  | .negativeSize n =>
    "invalid value: " ++ (Json.Number.negative n).describe ++ ", expected " ++
      Expected.size.describe
  | .tooManyItems n =>
    "invalid length " ++ Text.ofNat n ++ ", expected fewer elements in array"

end Misfit

/-! ## Reading -/

/-- Refuses a draft that is not as expected.  An array or object is refused at its first bracket. -/
def refuse (expected : Expected) : Draft → Except Misfit α
  | .fault f => .error (.notJson f)
  | .scalar s => .error (.wrongType (.scalar s) expected)
  | .array .. => .error (.wrongType .array expected)
  | .object .. => .error (.wrongType .object expected)

def readText (expected : Expected) : Draft → Except Misfit Text
  | .scalar (.string t) => .ok t
  | d => refuse expected d

def readFlag : Draft → Except Misfit Bool
  | .scalar (.boolean b) => .ok b
  | d => refuse .flag d

def readSize : Draft → Except Misfit Nat
  | .scalar (.number (.natural n)) => .ok n
  | .scalar (.number (.negative n)) => .error (.negativeSize n)
  | d => refuse .size d

/-- Null stands for a field that is not there. -/
def readOptional (read : Draft → Except Misfit α) : Draft → Except Misfit (Option α)
  | .scalar .null => .ok none
  | d => do return some (← read d)

/-- What remains to be said when there is nothing further to read. -/
def atStop (stop : Option Json.Fault) (a : α) : Except Misfit α :=
  match stop with
  | none => .ok a
  | some f => .error (.notJson f)

def readTexts : Draft → Except Misfit (List Text)
  | .array items stop => do atStop stop (← items.mapM (readText .text))
  | d => refuse .list d

/-- The configuration with a field set as a draft says. -/
def set (c : Config) (f : Field) (d : Draft) : Except Misfit Config :=
  match f with
  | .root => do return { c with root := ← readOptional (readText .path) d }
  | .drop => do return { c with drop := ← readOptional readFlag d }
  | .maxDepth => do return { c with maxDepth := ← readOptional readSize d }
  | .includes => do return { c with includes := ← readTexts d }
  | .excludes => do return { c with excludes := ← readTexts d }

/-- Sets fields as the members of an object say.  A key is looked at before its value. -/
def setMembers (c : Config) (seen : List Field) :
    List (Text × Draft) → Option Json.Fault → Except Misfit Config
  | [], stop => atStop stop c
  | (key, d) :: rest, stop => match Field.ofName? key with
    | none => .error (.unknownField key)
    | some f =>
      if f ∈ seen then .error (.duplicateField f)
      else do (← c.set f d).setMembers (f :: seen) rest stop

/-- What is said of the end of an array that has a value for each field. -/
def afterLast (stop : Option Json.Fault) : Option Json.Fault :=
  match stop with
  | none => none
  | some .endInList => some .endInList
  | some .trailingComma => some .trailingComma
  | some _ => some .trailingCharacters

/-- Sets fields in order as the items of an array say; the others keep what they have. -/
def setItems (c : Config) (tooMany : Misfit) :
    List Field → List Draft → Option Json.Fault → Except Misfit Config
  | [], [], stop => atStop (afterLast stop) c
  | [], _ :: _, _ => .error tooMany
  | _ :: _, [], stop => atStop stop c
  | f :: fs, d :: ds, stop => do (← c.set f d).setItems tooMany fs ds stop

/-- The configuration of a draft.  `tooMany` says how too many items are reported. -/
def ofDraft (tooMany : Nat → Misfit) : Draft → Except Misfit Config
  | .array items stop => empty.setItems (tooMany items.length) Field.all items stop
  | .object members stop => empty.setMembers [] members stop
  | d => refuse .config d

/-- The configuration of a text. -/
def ofText (t : Text) : Except Misfit Config := do
  let (d, hasMore) := Draft.ofText t
  let c ← ofDraft (fun _ => .notJson .trailingCharacters) d
  if hasMore then .error (.notJson .trailingCharacters) else .ok c

/-- The configuration of a value, of which the members are looked at in order of their keys. -/
def ofValue (v : Value) : Except Misfit Config := ofDraft .tooManyItems v.draft

end Config

end ProcedureGen
