import ProcedureGen.Path

/-!
# The command line

* `CommandLine.parse`: what the arguments of the command ask for;
* `CommandLine.helpText`, `CommandLine.versionText`: what is printed on request.

Arguments are taken from left to right, and the first request for help or for the version, or the
first misuse, decides.
-/

namespace ProcedureGen

/-- What a run is asked to do.  An option that is not given leaves the choice to the
configuration. -/
structure Request where
  withDrop : Bool
  isVerbose : Bool
  root : Option Path
  config : Option Path
  maxDepth : Option Nat
  deriving DecidableEq, Repr

namespace Request

def empty : Request := ⟨false, false, none, none, none⟩

end Request

/-- What the arguments ask for. -/
inductive CommandLine where
  | run (r : Request)
  | help
  | version
  | misuse
  deriving DecidableEq, Repr

namespace CommandLine

/-! ## Options -/

/-- An option without a value. -/
inductive Flag where
  | drop | verbose | help | version
  deriving DecidableEq, Repr

namespace Flag

def all : List Flag := [.drop, .verbose, .help, .version]

def name : Flag → Text
  | .drop => "drop"
  | .verbose => "verbose"
  | .help => "help"
  | .version => "version"

def letter : Flag → Char
  | .drop => 'd'
  | .verbose => 'v'
  | .help => 'h'
  | .version => 'V'

/-- What a flag leads to: it ends the reading, or a request goes on.  A flag is given once only. -/
def take (r : Request) : Flag → Except CommandLine Request
  | .drop => if r.withDrop then .error .misuse else .ok { r with withDrop := true }
  | .verbose => if r.isVerbose then .error .misuse else .ok { r with isVerbose := true }
  | .help => .error .help
  | .version => .error .version

end Flag

/-- An option with a value. -/
inductive Setting where
  | root | config | maxDepth
  deriving DecidableEq, Repr

/-- The number that digits stand for, after an optional `+`; it has to fit in 64 bits. -/
def size? (t : Text) : Option Nat :=
  let digits := (Text.dropPrefix? "+" t).getD t
  if digits = [] ∨ !digits.all Char.isDigit then none
  else
    let n := digits.foldl (fun n c => n * 10 + (c.toNat - '0'.toNat)) 0
    if n < UInt64.size then some n else none

namespace Setting

def all : List Setting := [.root, .config, .maxDepth]

def name : Setting → Text
  | .root => "root"
  | .config => "config"
  | .maxDepth => "max-depth"

/-- The request with a value set, which is done once only.  A path is not empty. -/
def take (r : Request) (o : Setting) (value : Text) : Except CommandLine Request :=
  match o with
  | .root =>
    if r.root.isSome ∨ value = [] then .error .misuse else .ok { r with root := some value }
  | .config =>
    if r.config.isSome ∨ value = [] then .error .misuse else .ok { r with config := some value }
  | .maxDepth =>
    match r.maxDepth, size? value with
    | none, some n => .ok { r with maxDepth := some n }
    | _, _ => .error .misuse

end Setting

/-! ## Arguments -/

/-- Takes flags that are given by their letters. -/
def takeLetters (r : Request) : List Char → Except CommandLine Request
  | [] => .ok r
  | c :: rest => match Flag.all.find? fun f => f.letter = c with
    | some f => do takeLetters (← f.take r) rest
    | none => .error .misuse

/-- An argument with the name of an option: the name, and the value behind a `=`. -/
def splitName : Text → Text × Option Text
  | [] => ([], none)
  | c :: rest =>
    if c = '=' then ([], some rest)
    else
      let (name, value) := splitName rest
      (c :: name, value)

/-- Whether an argument looks like an option, so that it is no value. -/
def isOption : Text → Bool
  | '-' :: _ :: _ => true
  | _ => false

/-- Takes arguments in order.  Nothing follows the argument that ends the options. -/
def parseFrom (r : Request) : List Text → CommandLine
  | [] => .run r
  | ['-', '-'] :: rest => if rest = [] then .run r else .misuse
  | ('-' :: '-' :: argument) :: rest =>
    let (name, value) := splitName argument
    match Flag.all.find? fun f => f.name = name with
    | some f => match value, f.take r with
      | some _, _ => .misuse
      | none, .ok r => parseFrom r rest
      | none, .error end_ => end_
    | none => match Setting.all.find? fun o => o.name = name with
      | none => .misuse
      | some o => match value, rest with
        | some v, rest => match o.take r v with
          | .ok r => parseFrom r rest
          | .error end_ => end_
        | none, v :: rest =>
          if isOption v then .misuse
          else match o.take r v with
            | .ok r => parseFrom r rest
            | .error end_ => end_
        | none, [] => .misuse
  | ('-' :: c :: letters) :: rest => match takeLetters r (c :: letters) with
    | .ok r => parseFrom r rest
    | .error end_ => end_
  | _ :: _ => .misuse

/-- What the arguments of the command ask for. -/
def parse (arguments : List Text) : CommandLine := parseFrom .empty arguments

/-! ## Texts -/

def versionText : Text := Text.unlines ["plv8gen 0.1.0"]

def usageLine : Text := "Usage: plv8gen [OPTIONS]"

def helpText : Text := Text.unlines [
  "Generate PL/v8 create-function statements from compiled TypeScript functions",
  "",
  usageLine,
  "",
  "Options:",
  "  -d, --drop                   Add drop statements",
  "      --root <ROOT>            Function root directory (overrides config file, default: build/src/functions)",
  "      --config <CONFIG>        Path to config file (default: auto-discover)",
  "      --max-depth <MAX_DEPTH>  Directory levels to scan below the root (overrides config file)",
  "  -v, --verbose                Enable verbose logging (debug level)",
  "  -h, --help                   Print help",
  "  -V, --version                Print version"]

end CommandLine

end ProcedureGen
