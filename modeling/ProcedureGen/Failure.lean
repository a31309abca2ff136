import ProcedureGen.Text

/-!
# Failures of a unit

Why one module could not be converted.  A failure concerns its unit alone.

* `AccessFault`: why a file could not be read or written;
* `Failure.message`: the text that is reported.
-/

namespace ProcedureGen

/-- Why the file system refused. -/
inductive AccessFault where
  | notFound | notDirectory | isDirectory | nameTooLong | tooManyLinks | notUtf8
  /-- A path that no file can have. -/
  | nulCharacter
  /-- Any other reason, in the words of the system. -/
  | other (description : Text)
  deriving DecidableEq, Repr

namespace AccessFault

def message : AccessFault → Text
  | .notFound => "No such file or directory (os error 2)"
  | .notDirectory => "Not a directory (os error 20)"
  | .isDirectory => "Is a directory (os error 21)"
  | .nameTooLong => "File name too long (os error 36)"
  | .tooManyLinks => "Too many levels of symbolic links (os error 40)"
  | .notUtf8 => "stream did not contain valid UTF-8"
  | .nulCharacter => "file name contained an unexpected NUL byte"
  | .other description => description

end AccessFault

/-- Why a unit could not be converted. -/
inductive Failure where
  /-- A file could not be read or written. -/
  | access (path : Text) (fault : AccessFault)
  /-- A source is no module of its dialect. -/
  | unparsable (path : Text)
  /-- A declaration file declares no function. -/
  | noDeclaration (path : Text)
  /-- The declared function has no result type. -/
  | noReturnType (path name : Text)
  /-- A module exports no function. -/
  | noExport (path : Text)
  /-- A module exports several functions. -/
  | severalExports (path : Text) (count : Nat)
  /-- Declaration and module name different functions. -/
  | nameMismatch (path declared exported : Text)
  /-- A schema is no identifier, so it could not stand unquoted in a statement. -/
  | invalidSchema (path schema : Text)
  deriving DecidableEq, Repr

namespace Failure

def message : Failure → Text
  | .access path fault => "failed to access " ++ path ++ ": " ++ fault.message
  | .unparsable path => "failed to parse " ++ path
  | .noDeclaration path => path ++ " does not declare a function. Did you export the function?"
  | .noReturnType path name =>
    "declared function `" ++ name ++ "` in " ++ path ++ " has no return type annotation"
  | .noExport path => path ++ " does not include an 'export function' statement"
  | .severalExports path count =>
    path ++ " has " ++ Text.ofNat count ++ " 'export function' statements, expected exactly one"
  | .nameMismatch path declared exported =>
    path ++ " exports `" ++ exported ++ "` but its declaration names `" ++ declared ++ "`"
  | .invalidSchema path schema =>
    "schema directory `" ++ schema ++ "` for " ++ path ++ " is not a valid SQL identifier"

end Failure

end ProcedureGen
