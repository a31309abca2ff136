import ProcedureGen.CommandLine
import ProcedureGen.Config.Loading
import ProcedureGen.Conversion

/-!
# Sessions

One use of the command, from its arguments to its report.

* `Request.apply`: options take the place of what the configuration says;
* `Session.run`: the whole command.

A session that cannot begin to convert is fatal and writes nothing; a unit that cannot be converted
is reported and leaves the others alone.
-/

namespace ProcedureGen

variable {m : Type → Type} [Monad m] [FileSystem m]

/-- What the command shows of a session. -/
structure Report where
  exitCode : Nat
  output : Text
  log : List Log.Line
  /-- What ended the session, the cause after what it prevents. -/
  fatal : Option (List Text)
  deriving DecidableEq, Repr

/-- The settings with the options of a request.  A depth of zero is refused. -/
def Request.apply (r : Request) (project : Path) (s : Settings) : Option Settings :=
  if r.maxDepth = some 0 then none
  else some { s with
    root := (r.root.map (Path.join project)).getD s.root
    maxDepth := r.maxDepth.getD s.maxDepth
    drop := s.drop || r.withDrop }

/-- Which lines a session shows: all up to debugging for a verbose one, otherwise what the
directives of the environment ask for, if they can be read. -/
def Request.logFilter (r : Request) (directives : Option Text) : Log.Filter :=
  if r.isVerbose then .upTo .debug
  else (directives.bind Log.Filter.parse?).getD (.upTo .info)

/-- What the log says of the configuration. -/
def Settings.log (s : Settings) : List Log.Line :=
  match s.origin with
  | some p => [⟨.commandLine, .info, "Using config: " ++ p⟩]
  | none => []

/-- What the log says at the end.  Failures are told once more. -/
def Summary.log (s : Summary) : List Log.Line :=
  ⟨.commandLine, .info, "Converted " ++ Text.ofNat s.converted.length ++ " function(s)"⟩ ::
    if s.failed = [] then []
    else
      ⟨.commandLine, .warn,
        "Skipped " ++ Text.ofNat s.failed.length ++ " function(s) due to errors:"⟩ ::
      s.failed.map fun f => ⟨.commandLine, .warn, "  " ++ f.1.stem ++ ": " ++ f.2.message⟩

namespace Report

/-- The report of a session that only prints a text. -/
def printing (t : Text) : Report := ⟨0, t, [], none⟩

def misuse : Report := ⟨2, [], [], none⟩

def ofFatal (log : List Log.Line) (messages : List Text) : Report := ⟨1, [], log, some messages⟩

def ofConversion (log : List Log.Line) (c : Conversion) : Report :=
  ⟨if c.summary.isSuccess then 0 else 1, [], log ++ c.log ++ c.summary.log, none⟩

/-- The report with the lines that a filter shows. -/
def filtered (r : Report) (f : Log.Filter) : Report := { r with log := r.log.filter f.shows }

end Report

namespace Session

/-- Converts what a request asks for, with all lines of the log. -/
def convert (project : Path) (r : Request) : m Report := do
  match ← Settings.load project r.config with
  | .error f => return .ofFatal [] ("failed to load configuration".toList :: f.messages)
  | .ok s => match r.apply project s with
    | none => return .ofFatal s.log ["--max-depth must be at least 1"]
    | some t => match ← convertTree t with
      | .error f => return .ofFatal s.log f.messages
      | .ok c => return .ofConversion s.log c

/-- Runs the command in the directory of a project. -/
def run (project : Path) (directives : Option Text) (arguments : List Text) : m Report := do
  match CommandLine.parse arguments with
  | .help => return .printing CommandLine.helpText
  | .version => return .printing CommandLine.versionText
  | .misuse => return .misuse
  | .run r => return (← convert project r).filtered (r.logFilter directives)

end Session

end ProcedureGen
