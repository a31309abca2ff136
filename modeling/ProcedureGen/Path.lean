import ProcedureGen.Text

/-!
# Paths

A path is a text with its parts between slashes.  It stays as it is written: nothing is resolved.

* `Path.join`: a path below another;
* `Path.trimEnd`: a path without slashes and `.` parts at its end;
* `Path.parts`: the parts that lead to what a path names;
* `Path.components`: the parts of a path as paths are compared;
* `Path.withFileName`: a path with another name at its end.
-/

namespace ProcedureGen

/-- A path is the text that names a file. -/
abbrev Path := Text

namespace Path

/-- Whether a path starts from the root. -/
def isAbsolute (p : Path) : Bool := p.head? = some '/'

/-- The second path as seen from the first.  An absolute one stays as it is. -/
def join (base p : Path) : Path :=
  if isAbsolute p then p
  else if base = [] ∨ base.getLast? = some '/' then base ++ p
  else base ++ '/' :: p

/-- Drops slashes and `.` parts from the start of a path that is written backwards. -/
def trimReversed : List Char → List Char
  | ['/'] => ['/']
  | '/' :: rest => trimReversed rest
  | ['.', '/'] => ['/']
  | '.' :: '/' :: rest => trimReversed rest
  | rest => rest

/-- A path without slashes and `.` parts at its end. -/
def trimEnd (p : Path) : Path := (trimReversed p.reverse).reverse

/-- The pieces of a path between its slashes. -/
def pieces : Path → List Text
  | [] => [[]]
  | c :: rest => if c = '/' then [] :: pieces rest else Text.consRow c (pieces rest)

/-- The part that stands for where one is. -/
def here : Text := "."

/-- The part that stands for the directory above. -/
def above : Text := ".."

/-- The parts that lead to what a path names.  A slash at the end asks for a directory, as a last
`.` does. -/
def parts (p : Path) : List Text :=
  (pieces p).filter (· ≠ []) ++ if p.getLast? = some '/' then [here] else []

/-! ## Comparison -/

/-- The slash that an absolute path starts with. -/
def top : Text := "/"

/-- Where a path starts, and what is on its way.  Paths that are written differently have the same
components if they differ in slashes and `.` parts alone, a first `.` apart. -/
def components (p : Path) : List Text :=
  let way := (pieces p).filter fun t => t ≠ [] ∧ t ≠ here
  if isAbsolute p then top :: way
  else if (pieces p).head? = some here then here :: way
  else way

/-- Whether a component is the name of something. -/
def isName (component : Text) : Bool :=
  component ≠ top ∧ component ≠ here ∧ component ≠ above

/-- The components of a path after those of `base`, if it has all of these. -/
def stripPrefix? (base p : Path) : Option (List Text) :=
  (components base).isPrefixOf? (components p)

/-! ## File names -/

/-- The name at the end of a path. -/
def fileName? (p : Path) : Option Text := (components p).getLast?.filter isName

/-- A path without its last part. -/
def parent (p : Path) : Path := trimEnd ((trimEnd p).reverse.dropWhile (· ≠ '/')).reverse

/-- A path with a name in the place of the one at its end. -/
def withFileName (p : Path) (name : Text) : Path :=
  if (fileName? p).isSome then join (parent p) name else join p name

/-- A path with a suffix put behind its last part. -/
def withSuffix (p : Path) (suffix : Text) : Path := p ++ suffix

end Path

end ProcedureGen
