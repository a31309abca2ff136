import ProcedureGen.Glob.Reading

/-!
# Configurations

* `Config`: what a project states, every part of it optional;
* `Settings`: what a run goes by, with every choice made;
* `Filter.admits`: which modules are taken;
* `Config.resolve`: the settings of a configuration, or its first defect.
-/

namespace ProcedureGen

/-! ## Filters -/

/-- Which modules are taken, by their paths below the root. -/
structure Filter where
  /-- If present, a path has to be one of some pattern of these. -/
  includes : Option (List Glob.Pattern)
  excludes : List Glob.Pattern
  deriving DecidableEq, Repr

namespace Filter

/-- Whether a path is taken.  What is excluded cannot be included. -/
def admits (f : Filter) (path : Text) : Bool :=
  !(f.excludes.any (·.acceptsText path)) &&
    match f.includes with
    | some patterns => patterns.any (·.acceptsText path)
    | none => true

end Filter

/-! ## Settings -/

/-- What a run goes by. -/
structure Settings where
  /-- The directory of the modules. -/
  root : Text
  /-- Whether statements drop a function first. -/
  drop : Bool
  /-- How many levels below the root are looked at. -/
  maxDepth : Nat
  filter : Filter
  /-- The file that the configuration comes from, if there is one. -/
  origin : Option Text
  deriving DecidableEq, Repr

/-! ## Configurations -/

structure Config where
  root : Option Text
  drop : Option Bool
  maxDepth : Option Nat
  includes : List Text
  excludes : List Text
  deriving DecidableEq, Repr

namespace Config

/-- The configuration that states nothing. -/
def empty : Config := ⟨none, none, none, [], []⟩

def defaultRoot : Text := "build/src/functions"

/-- The root and one level below. -/
def defaultMaxDepth : Nat := 2

/-- Tests are no functions. -/
def defaultExcludes : List Text := ["**/*.test.js", "**/*.spec.js"]

/-- Why a configuration cannot be used. -/
inductive Defect where
  | zeroDepth
  | emptyRoot
  | badInclude (glob : Text) (fault : Glob.Fault)
  | badExclude (glob : Text) (fault : Glob.Fault)
  deriving DecidableEq, Repr

/-- What is reported of a defect, the cause after what it prevents. -/
def Defect.messages : Defect → List Text
  | .zeroDepth => ["max_depth must be at least 1 (got 0)"]
  | .emptyRoot => ["root must not be empty"]
  | .badInclude glob fault => ["invalid include pattern: " ++ glob, fault.message glob]
  | .badExclude glob fault => ["invalid exclude pattern: " ++ glob, fault.message glob]

/-- The patterns of some globs. -/
def patterns (defect : Text → Glob.Fault → Defect) :
    List Text → Except Defect (List Glob.Pattern)
  | [] => .ok []
  | glob :: rest => match Glob.Pattern.ofGlob glob with
    | .ok p => do return p :: (← patterns defect rest)
    | .error f => .error (defect glob f)

/-- The filter of a configuration.  Globs to exclude take the place of the default ones; without
globs to include, all is included. -/
def filter (c : Config) : Except Defect Filter := do
  let includes ← patterns .badInclude c.includes
  let excludes ← patterns .badExclude (if c.excludes = [] then defaultExcludes else c.excludes)
  return ⟨if c.includes = [] then none else some includes, excludes⟩

/-- The settings of a configuration. -/
def resolve (c : Config) : Except Defect Settings :=
  if c.maxDepth = some 0 then .error .zeroDepth
  else if c.root = some [] then .error .emptyRoot
  else do
    return {
      root := c.root.getD defaultRoot
      drop := c.drop.getD false
      maxDepth := c.maxDepth.getD defaultMaxDepth
      filter := ← c.filter
      origin := none }

end Config

end ProcedureGen
