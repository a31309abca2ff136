import ProcedureGen.Config.Basic
import ProcedureGen.FileSystem
import ProcedureGen.Log

/-!
# Discovery

The modules below the root that a run converts.

* `SourceUnit`: a module, named by its path without the suffix;
* `Discovery.filesBelow`: the files below a directory, found by a walk;
* `Discovery.ofFiles`: which of the files below a root are taken;
* `discover`: the units below the root of some settings.

At every level the walk takes the names in ascending order, so that what a directory holds stands at
the place of the directory.
-/

namespace ProcedureGen

/-- A compiled module.  Its declaration and its statement stand beside it. -/
structure SourceUnit where
  /-- The path of the module without its suffix. -/
  stem : Path
  name : Text
  /-- The first directory below the root, or empty. -/
  schema : Text
  deriving DecidableEq, Repr

namespace SourceUnit

def moduleSuffix : Text := ".js"

def declarationSuffix : Text := ".d.ts"

def statementSuffix : Text := ".sql"

def modulePath (u : SourceUnit) : Path := u.stem.withSuffix moduleSuffix

def declarationPath (u : SourceUnit) : Path := u.stem.withSuffix declarationSuffix

def statementPath (u : SourceUnit) : Path := u.stem.withSuffix statementSuffix

/-- How a unit is called in the log. -/
def display (u : SourceUnit) : Text :=
  if u.schema = [] then u.name else Path.join u.schema u.name

/-- The name of the module in a file: the file name without the suffix.  A file whose name has
nothing before the suffix is no module. -/
def moduleName? (file : Text) : Option Text :=
  match Text.dropSuffix? moduleSuffix file with
  | none | some [] => none
  | some name => some name

/-- The schema of a module, by what leads to it from the root. -/
def schemaOf (names : List Text) : Text :=
  match names.dropLast with
  | first :: _ => if Path.isName first then first else []
  | [] => []

end SourceUnit

/-! ## Order -/

/-- Puts an element into a sorted list, unless it is there already. -/
def insertSorted {α : Type} [DecidableEq α] [LT α] [DecidableLT α] (a : α) : List α → List α
  | [] => [a]
  | b :: rest =>
    if a = b then b :: rest else if a < b then a :: b :: rest else b :: insertSorted a rest

/-- The elements of a list in ascending order, each once. -/
def sorted {α : Type} [DecidableEq α] [LT α] [DecidableLT α] (l : List α) : List α :=
  l.foldr insertSorted []

/-- What has been found below a root. -/
structure Discovery where
  units : List SourceUnit
  /-- The modules that are not taken, by their paths below the root. -/
  excluded : List Path
  deriving DecidableEq, Repr

/-- Why nothing could be discovered. -/
inductive DiscoveryFault where
  | noDirectory (root : Path)
  | unreadable (root : Path) (fault : AccessFault)
  /-- A file was found whose path does not start with the root. -/
  | escaped (path : Path)
  deriving DecidableEq, Repr

def DiscoveryFault.messages : DiscoveryFault → List Text
  | .noDirectory root => ["function root is not a directory: " ++ root]
  | .unreadable root fault => ["failed to read directory: " ++ root, fault.message]
  | .escaped path => [path ++ " escaped the function root", "prefix not found"]

namespace Discovery

/-! ## The walk -/

section Walk

variable {m : Type → Type} [Monad m] [FileSystem m]

/-- The files that a path stands for: itself, or what `below` finds in a directory.  A link stands
for none. -/
def filesOf (below : Path → m (Except AccessFault (List Path))) (p : Path) :
    m (Except AccessFault (List Path)) := do
  match ← FileSystem.ownKind p with
  | .error fault => return .error fault
  | .ok .file => return .ok [p]
  | .ok .directory => below p
  | .ok .other => return .ok []

/-- What `visit` finds at each of some paths, in their order.  The first fault ends it. -/
def gather (visit : Path → m (Except AccessFault (List Path))) :
    List Path → m (Except AccessFault (List Path))
  | [] => return .ok []
  | p :: rest => do
    match ← visit p with
    | .error fault => return .error fault
    | .ok found => match ← gather visit rest with
      | .error fault => return .error fault
      | .ok more => return .ok (found ++ more)

/-- The files below a directory down to a depth, by their paths. -/
def filesBelow : Nat → Path → m (Except AccessFault (List Path))
  | 0, _ => return .ok []
  | n + 1, p => do
    match ← FileSystem.names p with
    | .error fault => return .error fault
    | .ok names => gather (filesOf (filesBelow n)) ((sorted names).map (Path.join p))

end Walk

/-! ## Choice -/

/-- The path below the root that some names stand for. -/
def relativePath (names : List Text) : Path := Text.joinWith "/" names

/-- What a file below a root is found to be. -/
def ofFile (root : Path) (filter : Filter) (p : Path) : Except DiscoveryFault Discovery :=
  match (Path.fileName? p).bind SourceUnit.moduleName? with
  | none => .ok ⟨[], []⟩
  | some name => match Path.stripPrefix? root p with
    | none => .error (.escaped p)
    | some names =>
      let relative := relativePath names
      if filter.admits relative then
        .ok ⟨[⟨Path.withFileName p name, name, SourceUnit.schemaOf names⟩], []⟩
      else .ok ⟨[], [relative]⟩

/-- What is found among the files below a root. -/
def ofFiles (root : Path) (filter : Filter) : List Path → Except DiscoveryFault Discovery
  | [] => .ok ⟨[], []⟩
  | p :: rest => do
    let found ← ofFile root filter p
    let more ← ofFiles root filter rest
    return ⟨found.units ++ more.units, found.excluded ++ more.excluded⟩

/-- What the log says of modules that are not taken. -/
def log (d : Discovery) : List Log.Line :=
  d.excluded.map fun p => ⟨.discovery, .debug, "excluded by config: " ++ p⟩

end Discovery

/-- What is found below the root of some settings.  The files right below it are always looked
at. -/
def discover {m : Type → Type} [Monad m] [FileSystem m] (s : Settings) :
    m (Except DiscoveryFault Discovery) := do
  if (← FileSystem.kind? s.root) ≠ some .directory then
    return .error (.noDirectory s.root)
  match ← Discovery.filesBelow (max 1 s.maxDepth) s.root with
  | .ok files => return Discovery.ofFiles s.root s.filter files
  | .error fault => return .error (.unreadable s.root fault)

end ProcedureGen
