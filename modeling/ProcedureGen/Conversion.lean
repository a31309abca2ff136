import ProcedureGen.Definition
import ProcedureGen.Discovery

/-!
# Conversion

Units become statements in files beside them.

* `Definition.build`: the definition of a unit, from its declaration and its module;
* `Definition.write`: a statement put in its place as a whole or not at all;
* `Attempt.make`: one unit converted, and what came of it;
* `convertAll`: units converted one after the other, whatever becomes of each.
-/

namespace ProcedureGen

variable {m : Type → Type} [Monad m] [FileSystem m]

/-- Whether a schema can stand in a statement without quotes: a letter or `_`, then letters, digits,
`_` and `$`. -/
def isSchemaName : Text → Bool
  | [] => false
  | c :: rest =>
    (c.isAlpha || c = '_') && rest.all fun c => c.isAlphanum || c = '_' || c = '$'

/-! ## Definitions of units -/

/-- The signature in the declaration file of a unit. -/
def SourceUnit.readSignature (u : SourceUnit) : m (Except Failure Signature) := do
  match ← FileSystem.read u.declarationPath with
  | .ok source => return Signature.read u.declarationPath source
  | .error fault => return .error (.access u.declarationPath fault)

/-- The body in the module of a unit. -/
def SourceUnit.readBody (u : SourceUnit) : m (Except Failure FunctionBody) := do
  match ← FileSystem.read u.modulePath with
  | .ok source => return FunctionBody.read u.modulePath source
  | .error fault => return .error (.access u.modulePath fault)

namespace Definition

/-- The definition of a unit with a signature and a body of one name. -/
def ofParts (u : SourceUnit) (s : Signature) (b : FunctionBody) : Except Failure Definition :=
  if s.name = b.name then .ok ⟨u.schema, s, b⟩
  else .error (.nameMismatch u.stem s.name b.name)

/-- The definition of a unit.  The first thing that is wrong counts: the schema, the declaration,
the module, the names. -/
def build (u : SourceUnit) : m (Except Failure Definition) := do
  if u.schema ≠ [] ∧ !isSchemaName u.schema then
    return .error (.invalidSchema u.stem u.schema)
  match ← u.readSignature with
  | .error f => return .error f
  | .ok s => match ← u.readBody with
    | .error f => return .error f
    | .ok b => return ofParts u s b

end Definition

/-! ## Writing -/

/-- Behind the path of a file, the path that its text is first written to. -/
def scratchSuffix : Text := ".tmp"

/-- Puts a text in the place of a file by way of a file beside it, which is gone afterwards. -/
def writeWhole (p : Path) (t : Text) : m (Except Failure Unit) := do
  let scratch := p.withSuffix scratchSuffix
  match ← FileSystem.write scratch t with
  | .error fault => return .error (.access scratch fault)
  | .ok () => match ← FileSystem.rename scratch p with
    | .ok () => return .ok ()
    | .error fault =>
      let _ ← FileSystem.remove scratch
      return .error (.access p fault)

/-- Writes the statement of a definition beside a stem, and gives its path. -/
def Definition.write (d : Definition) (stem : Path) (withDrop : Bool) :
    m (Except Failure Path) := do
  let p := stem.withSuffix SourceUnit.statementSuffix
  match ← writeWhole p (d.render withDrop) with
  | .ok () => return .ok p
  | .error f => return .error f

/-! ## Runs -/

/-- What came of one unit. -/
structure Attempt where
  unit : SourceUnit
  definition : Except Failure Definition
  /-- The path of the statement, or why there is none. -/
  outcome : Except Failure Path

namespace Attempt

/-- Converts a unit. -/
def make (withDrop : Bool) (u : SourceUnit) : m Attempt := do
  match ← Definition.build u with
  | .error f => return ⟨u, .error f, .error f⟩
  | .ok d => return ⟨u, .ok d, ← d.write u.stem withDrop⟩

def path? (a : Attempt) : Option Path :=
  match a.outcome with
  | .ok p => some p
  | .error _ => none

def failure? (a : Attempt) : Option (SourceUnit × Failure) :=
  match a.outcome with
  | .ok _ => none
  | .error f => some (a.unit, f)

/-- What the log says of a definition that could be built. -/
def definitionLine (u : SourceUnit) (d : Definition) : Log.Line :=
  ⟨.conversion, .debug, u.stem ++ ": " ++ d.signature.name ++ "(" ++ d.signature.params ++
    ") returns " ++ d.signature.returnType ++ d.body.options.clause⟩

/-- What the log says of an attempt. -/
def log (a : Attempt) : List Log.Line :=
  ⟨.conversion, .info, "Converting " ++ a.unit.display⟩ ::
    (match a.definition with
      | .ok d => [definitionLine a.unit d]
      | .error _ => []) ++
    (match a.outcome with
      | .ok _ => []
      | .error f => [⟨.conversion, .error, f.message⟩])

end Attempt

/-- Converts units in order.  A failure concerns its unit alone. -/
def convertAll (withDrop : Bool) : List SourceUnit → m (List Attempt)
  | [] => return []
  | u :: us => do return (← Attempt.make withDrop u) :: (← convertAll withDrop us)

/-- The outcome of a run. -/
structure Summary where
  converted : List Path
  failed : List (SourceUnit × Failure)
  deriving DecidableEq, Repr

namespace Summary

def ofAttempts (as : List Attempt) : Summary :=
  ⟨as.filterMap Attempt.path?, as.filterMap Attempt.failure?⟩

def isSuccess (s : Summary) : Bool := s.failed.isEmpty

end Summary

/-- What a run over the root of some settings found and made. -/
structure Conversion where
  discovery : Discovery
  attempts : List Attempt

namespace Conversion

def summary (c : Conversion) : Summary := .ofAttempts c.attempts

def log (c : Conversion) : List Log.Line :=
  c.discovery.log ++ c.attempts.flatMap Attempt.log

end Conversion

/-- Converts all units below the root of some settings. -/
def convertTree (s : Settings) : m (Except DiscoveryFault Conversion) := do
  match ← discover s with
  | .error f => return .error f
  | .ok d => return .ok ⟨d, ← convertAll s.drop d.units⟩

end ProcedureGen
