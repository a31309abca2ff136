import ProcedureGen.Path
import ProcedureGen.Text.Utf8

/-!
# Stores

A store is the content of a file system as a value.

* `Location`: a place in it, as the names that lead there from the root;
* `Store.entry?`: what stands at a location;
* `Store.insert`, `Store.erase`: the store with one entry changed.
-/

namespace ProcedureGen

/-- The names that lead from the root to a place. -/
abbrev Location := List Text

inductive Entry where
  | file (bytes : List UInt8)
  | directory
  /-- A symbolic link with the path written in it. -/
  | link (target : Path)
  deriving DecidableEq, Repr

/-- The entries of a file system with their locations.  Of two with one location the first counts,
and the root is always there. -/
structure Store where
  entries : List (Location × Entry)
  deriving DecidableEq, Repr

namespace Store

def empty : Store := ⟨[]⟩

/-- What stands at a location. -/
def entry? (s : Store) (l : Location) : Option Entry :=
  if l = [] then some .directory else (s.entries.find? fun e => e.1 = l).map (·.2)

/-- The store without what stands at a location. -/
def erase (s : Store) (l : Location) : Store := ⟨s.entries.filter fun e => e.1 ≠ l⟩

/-- The store with an entry at a location, in the place of what stands there. -/
def insert (s : Store) (l : Location) (e : Entry) : Store := ⟨(l, e) :: (s.erase l).entries⟩

/-- All locations with an entry, apart from the root. -/
def locations (s : Store) : List Location := s.entries.map (·.1)

end Store

end ProcedureGen
