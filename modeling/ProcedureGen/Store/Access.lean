import ProcedureGen.FileSystem
import ProcedureGen.Store.Basic

/-!
# Access to a store by paths

* `Store.locate`: the location that a path leads to;
* the operations of a file system, as functions on stores.

A link is followed wherever it stands on the way, up to a number of times; at the end of a path it
depends on the operation.  A name has a greatest size, a whole path has none.
-/

namespace ProcedureGen

/-- The kind of an entry that is not followed. -/
def Entry.kind : Entry → EntryKind
  | .file _ => .file
  | .directory => .directory
  | .link _ => .other

namespace Store

/-! ## Locations of paths -/

/-- The greatest number of bytes in a name. -/
def maxNameSize : Nat := 255

/-- The greatest number of links on the way of one path. -/
def maxLinks : Nat := 40

/-- The location from which the parts of a path lead on. -/
def startOf (here : Location) (p : Path) : Location := if p.isAbsolute then [] else here

/-- Goes along the parts of a path.  A link hands over to `onLink`, with the location to go on from
and the parts that remain. -/
def walkWith (s : Store) (followLast : Bool)
    (onLink : Location → List Text → Except AccessFault Location) :
    Location → List Text → Except AccessFault Location
  | l, [] => .ok l
  | l, name :: rest =>
    if s.entry? l ≠ some .directory then .error .notDirectory
    else if name = Path.here then walkWith s followLast onLink l rest
    else if name = Path.above then walkWith s followLast onLink l.dropLast rest
    else if maxNameSize < Text.byteSize name then .error .nameTooLong
    else match s.entry? (l ++ [name]) with
      | some (.link target) =>
        if rest = [] ∧ !followLast then .ok (l ++ [name])
        else onLink (startOf l target) (target.parts ++ rest)
      | some _ => walkWith s followLast onLink (l ++ [name]) rest
      | none => if rest = [] then .ok (l ++ [name]) else .error .notFound

/-- Goes along the parts of a path and through at most so many links. -/
def walk (s : Store) (followLast : Bool) :
    Nat → Location → List Text → Except AccessFault Location
  | 0 => walkWith s followLast fun _ _ => .error .tooManyLinks
  | n + 1 => walkWith s followLast (walk s followLast n)

/-- The location that a path leads to.  Nothing need stand there, but the directory that would hold
it is there. -/
def locate (s : Store) (followLast : Bool) (p : Path) : Except AccessFault Location :=
  if '\x00' ∈ p then .error .nulCharacter
  else if p = [] then .error .notFound
  else s.walk followLast maxLinks [] p.parts

/-! ## Reading -/

/-- What stands at a path, links followed. -/
def kind? (s : Store) (p : Path) : Option EntryKind :=
  match s.locate true p with
  | .ok l => match s.entry? l with
    | some (.file _) => some .file
    | some .directory => some .directory
    | _ => none
  | .error _ => none

/-- What stands at a path itself. -/
def ownKind (s : Store) (p : Path) : Except AccessFault EntryKind :=
  match s.locate false p with
  | .error f => .error f
  | .ok l => match s.entry? l with
    | some e => .ok e.kind
    | none => .error .notFound

/-- The bytes of a file. -/
def readBytes (s : Store) (p : Path) : Except AccessFault (List UInt8) :=
  match s.locate true p with
  | .error f => .error f
  | .ok l => match s.entry? l with
    | some (.file bytes) => .ok bytes
    | some .directory => .error .isDirectory
    | _ => .error .notFound

/-- The text of a file. -/
def read (s : Store) (p : Path) : Except AccessFault Text :=
  match s.readBytes p with
  | .error f => .error f
  | .ok bytes => match Utf8.decode? bytes with
    | some t => .ok t
    | none => .error .notUtf8

/-- The names that lead from one location to another below it. -/
def namesFrom? : Location → Location → Option (List Text)
  | [], names => some names
  | _ :: _, [] => none
  | a :: l, b :: k => if a = b then namesFrom? l k else none

/-- The names of what stands right below a location. -/
def namesIn (s : Store) (l : Location) : List Text :=
  ((s.locations.filterMap (namesFrom? l)).filterMap fun
    | [name] => some name
    | _ => none).eraseDups

/-- The names in a directory. -/
def names (s : Store) (p : Path) : Except AccessFault (List Text) :=
  match s.locate true p with
  | .error f => .error f
  | .ok l => if s.entry? l = some .directory then .ok (s.namesIn l) else .error .notDirectory

/-! ## Writing -/

def writeBytes (s : Store) (p : Path) (bytes : List UInt8) : Except AccessFault Store :=
  match s.locate true p with
  | .error f => .error f
  | .ok l =>
    if s.entry? l = some .directory then .error .isDirectory else .ok (s.insert l (.file bytes))

def write (s : Store) (p : Path) (t : Text) : Except AccessFault Store :=
  s.writeBytes p (Utf8.encode t)

/-- Moves a file or link.  Directories stay where they are. -/
def rename (s : Store) (old new : Path) : Except AccessFault Store :=
  match s.locate false old, s.locate false new with
  | .error f, _ | _, .error f => .error f
  | .ok l, .ok k => match s.entry? l with
    | none => .error .notFound
    | some .directory => .error .isDirectory
    | some e =>
      if s.entry? k = some .directory then .error .isDirectory else .ok ((s.erase l).insert k e)

def remove (s : Store) (p : Path) : Except AccessFault Store :=
  match s.locate false p with
  | .error f => .error f
  | .ok l => match s.entry? l with
    | none => .error .notFound
    | some .directory => .error .isDirectory
    | some _ => .ok (s.erase l)

/-! ## A store as a file system -/

/-- Keeps the store that an operation gives; a fault leaves the store as it is. -/
def change (f : Store → Except AccessFault Store) : StateM Store (Except AccessFault Unit) :=
  fun s => match f s with
    | .ok s => (.ok (), s)
    | .error e => (.error e, s)

instance : FileSystem (StateM Store) where
  kind? p := fun s => (s.kind? p, s)
  ownKind p := fun s => (s.ownKind p, s)
  read p := fun s => (s.read p, s)
  names p := fun s => (s.names p, s)
  write p t := change fun s => s.write p t
  rename old new := change fun s => s.rename old new
  remove p := change fun s => s.remove p

end Store

end ProcedureGen
