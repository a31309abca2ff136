import ProcedureGen.Config.Reading
import ProcedureGen.FileSystem

/-!
# Loading configurations

Where a project keeps its configuration.

* `Config.load`: the configuration in a file;
* `Config.find`: the configuration of a project, in the first of three files that is there;
* `Settings.load`: the settings of a project.

A file that is there decides: if it cannot be used, no other one takes its place.
-/

namespace ProcedureGen

variable {m : Type → Type} [Monad m] [FileSystem m]

/-- In what kind of file a configuration stands. -/
inductive ConfigSource where
  /-- A file that holds nothing else. -/
  | ownFile
  /-- A member of a package manifest. -/
  | manifest
  deriving DecidableEq, Repr

/-- Why a configuration could not be loaded. -/
inductive LoadFault where
  | unreadable (source : ConfigSource) (p : Path) (fault : AccessFault)
  | unparsable (source : ConfigSource) (p : Path) (misfit : Config.Misfit)
  /-- The member of a manifest is no configuration. -/
  | unfit (p : Path) (misfit : Config.Misfit)
  | invalid (source : ConfigSource) (p : Path) (defect : Config.Defect)
  deriving DecidableEq, Repr

/-- What is reported, the cause after what it prevents. -/
def LoadFault.messages : LoadFault → List Text
  | .unreadable .ownFile p fault => ["failed to read config file: " ++ p, fault.message]
  | .unreadable .manifest p fault => ["failed to read " ++ p, fault.message]
  | .unparsable .ownFile p misfit => ["failed to parse config file: " ++ p, misfit.message]
  | .unparsable .manifest p misfit => ["failed to parse " ++ p, misfit.message]
  | .unfit p misfit => ["invalid plv8gen config in " ++ p, misfit.message]
  | .invalid .ownFile p defect => ("invalid config in: " ++ p) :: defect.messages
  | .invalid .manifest p defect => ("invalid plv8gen config in " ++ p) :: defect.messages

/-- A configuration that can be used, and where it comes from. -/
structure LoadedConfig where
  config : Config
  path : Path
  settings : Settings
  deriving DecidableEq, Repr

namespace Config

/-- Takes a configuration that can be used. -/
def check (source : ConfigSource) (p : Path) (c : Config) : Except LoadFault LoadedConfig :=
  match c.resolve with
  | .ok s => .ok ⟨c, p, { s with origin := some p }⟩
  | .error d => .error (.invalid source p d)

/-- The configuration in the text of a file of its own. -/
def ofFile (p : Path) (t : Text) : Except LoadFault LoadedConfig :=
  match ofText t with
  | .ok c => check .ownFile p c
  | .error misfit => .error (.unparsable .ownFile p misfit)

/-- The name of the member of a manifest. -/
def manifestKey : Text := "plv8gen"

/-- The configuration in the text of a package manifest, if it has one. -/
def ofManifest (p : Path) (t : Text) : Except LoadFault (Option LoadedConfig) :=
  match Json.Value.ofText t with
  | .error f => .error (.unparsable .manifest p (.notJson f))
  | .ok v => match v.get? manifestKey with
    | none => .ok none
    | some v => match ofValue v with
      | .ok c => (check .manifest p c).map some
      | .error misfit => .error (.unfit p misfit)

/-- Loads the configuration in a file.  Its path is seen from `base` and reported as given. -/
def load (base p : Path) : m (Except LoadFault LoadedConfig) := do
  match ← FileSystem.read (Path.join base p) with
  | .ok t => return ofFile p t
  | .error fault => return .error (.unreadable .ownFile p fault)

/-- Loads the configuration in a package manifest, if it has one. -/
def loadManifest (p : Path) : m (Except LoadFault (Option LoadedConfig)) := do
  match ← FileSystem.read p with
  | .ok t => return ofManifest p t
  | .error fault => return .error (.unreadable .manifest p fault)

/-- The names of a project's configuration file, the first one first. -/
def fileNames : List Text := [".plv8genrc.json", "plv8gen.config.json"]

/-- The name of a package manifest. -/
def manifestName : Text := "package.json"

/-- The first of some files of a project that is there. -/
def firstFile (project : Path) : List Text → m (Option Path)
  | [] => return none
  | name :: rest => do
    let p := Path.join project name
    if (← FileSystem.kind? p).isSome then return some p else firstFile project rest

/-- Finds the configuration of a project.  What is found has a whole path already. -/
def find (project : Path) : m (Except LoadFault (Option LoadedConfig)) := do
  match ← firstFile project fileNames with
  | some p => return (← load [] p).map some
  | none =>
    match ← firstFile project [manifestName] with
    | some p => loadManifest p
    | none => return .ok none

end Config

namespace Settings

/-- The settings of a project without a configuration. -/
def default : Settings := Config.empty.resolve.toOption.get (by decide)

/-- The settings with the root as seen from a project. -/
def anchor (s : Settings) (project : Path) : Settings := { s with root := Path.join project s.root }

/-- Loads the settings of a project, from a given file if there is one. -/
def load (project : Path) (file : Option Path) : m (Except LoadFault Settings) := do
  match file with
  | some p => return (← Config.load project p).map fun c => c.settings.anchor project
  | none => return (← Config.find project).map fun found =>
      match found with
      | some c => c.settings.anchor project
      | none => default.anchor project

end Settings

end ProcedureGen
