import ProcedureGen.Session

/-!
# The program

The command on the files of the system.  Everything that it decides is in `Session`.
-/

namespace ProcedureGen

namespace Program

/-- The number by which the system names a reason.  Some actions give it with the sign changed. -/
def code? : IO.Error → Option Nat
  | .alreadyExists _ n _ | .noFileOrDirectory _ n _ | .invalidArgument _ n _
  | .permissionDenied _ n _ | .resourceExhausted _ n _ | .inappropriateType _ n _
  | .noSuchThing _ n _ | .otherError n _ | .illegalOperation n _ => some (min n.toNat (-n).toNat)
  | _ => none

def faultOf (e : IO.Error) : AccessFault :=
  match code? e with
  | some 2 => .notFound
  | some 20 => .notDirectory
  | some 21 => .isDirectory
  | some 36 => .nameTooLong
  | some 40 => .tooManyLinks
  | _ => .other (toString e).toList

/-- The outcome of an action, its error as a fault. -/
def attempt (action : IO α) : IO (Except AccessFault α) := do
  match ← action.toBaseIO with
  | .ok a => return .ok a
  | .error e => return .error (faultOf e)

/-- A path in the form in which the system takes it. -/
def entryAt (p : Path) : IO.FS.DirEntry := ⟨String.ofList p, ""⟩

def kindOf : IO.FS.FileType → EntryKind
  | .file => .file
  | .dir => .directory
  | _ => .other

instance : FileSystem IO where
  kind? p := do
    match ← (entryAt p).root.metadata.toBaseIO with
    | .ok data => return some (kindOf data.type)
    | .error _ => return none
  ownKind p := attempt do return kindOf (← (entryAt p).root.symlinkMetadata).type
  read p := do
    match ← attempt (IO.FS.readBinFile (String.ofList p)) with
    | .error f => return .error f
    | .ok bytes => match String.fromUTF8? bytes with
      | some s => return .ok s.toList
      | none => return .error .notUtf8
  names p := attempt do
    return (← (entryAt p).root.readDir).toList.map fun e => e.fileName.toList
  write p t := attempt (IO.FS.writeFile (String.ofList p) (String.ofList t))
  rename old new := attempt (IO.FS.rename (String.ofList old) (String.ofList new))
  remove p := attempt (IO.FS.removeFile (String.ofList p))

/-- How the end of a session is told: the first message, and its causes. -/
def fatalText : List Text → Text
  | [] => []
  | [message] => "Error: " ++ message
  | message :: causes =>
    "Error: " ++ message ++ "\n\nCaused by:" ++ causes.flatMap fun c => ("\n    " : Text) ++ c

/-- Prints a report, and gives its exit code. -/
def tell (r : Report) : IO UInt32 := do
  IO.print (String.ofList r.output)
  for line in r.log do
    let text := line.level.name ++ " " ++ line.source.target ++ ": " ++ line.message
    IO.eprintln (String.ofList text)
  match r.fatal with
  | some messages => IO.eprintln (String.ofList (fatalText messages))
  | none => pure ()
  if r.exitCode = 2 then IO.eprintln (String.ofList CommandLine.usageLine)
  return r.exitCode.toUInt32

end Program

end ProcedureGen

/-- Runs the command in the current directory. -/
def main (arguments : List String) : IO UInt32 := do
  let project ← IO.currentDir
  let directives ← IO.getEnv "RUST_LOG"
  ProcedureGen.Program.tell (← ProcedureGen.Session.run (m := IO) project.toString.toList
    (directives.map String.toList) (arguments.map String.toList))
