import ProcedureGen.Failure
import ProcedureGen.Path

/-!
# The file system of a run

What a run asks of the system that it works on.  The same program runs on files and, in `Store`, on
a value.
-/

namespace ProcedureGen

/-- What stands somewhere. -/
inductive EntryKind where
  | file | directory
  /-- A link, where it is not followed, and whatever else a system knows. -/
  | other
  deriving DecidableEq, Repr

class FileSystem (m : Type → Type) where
  /-- What stands at a path, links followed. -/
  kind? : Path → m (Option EntryKind)
  /-- What stands at a path itself.  A link at its end is not followed. -/
  ownKind : Path → m (Except AccessFault EntryKind)
  /-- The text of a file. -/
  read : Path → m (Except AccessFault Text)
  /-- The names in a directory, in no particular order.  Links are followed. -/
  names : Path → m (Except AccessFault (List Text))
  /-- Makes a file with a text, or puts the text in the place of what the file holds.  A link is
  followed. -/
  write : Path → Text → m (Except AccessFault Unit)
  /-- Moves a file or link to the place of another, which it replaces.  Links are not followed. -/
  rename : Path → Path → m (Except AccessFault Unit)
  /-- Removes a file or link. -/
  remove : Path → m (Except AccessFault Unit)

end ProcedureGen
