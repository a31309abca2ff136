import ProcedureGen.Glob.Mark

/-!
# Reading globs

The meaning of a glob.

* `Piece`: what the marks stand for; two stars stand for directories only as a whole part of a path;
* `Pattern.ofGlob`: the pattern of a glob.

An alternative without any text is dropped from a group that has others.
-/

namespace ProcedureGen

namespace Glob

/-- A part of a glob. -/
inductive Piece where
  | literal (c : Char)
  | anyByte
  | anyRun
  /-- A leading `**/`: any directories, possibly none. -/
  | leading
  /-- `/**/`: a slash, or two with any text between them. -/
  | inner
  /-- A trailing `/**`: a slash and any text. -/
  | trailing
  | oneOf (s : ByteClass)
  | group (p : Pattern)
  deriving DecidableEq, Repr

namespace Piece

def slash : Pattern := .byte (.single 0x2F)

def pattern : Piece → Pattern
  | .literal c => .ofBytes (String.utf8EncodeChar c)
  | .anyByte => .byte .all
  | .anyRun => .anything
  | .leading => .either (.either .empty slash) (.seq .anything slash)
  | .inner => .either slash (.seq slash (.seq .anything slash))
  | .trailing => .seq slash .anything
  | .oneOf s => .byte s
  | .group p => p

end Piece

/-- The pattern of some pieces, given last first. -/
def ofPieces (pieces : List Piece) : Pattern :=
  pieces.foldl (fun p piece => Pattern.andThen piece.pattern p) .empty

/-- A group that has been opened and not closed. -/
structure OpenGroup where
  /-- What stands in front of it, last piece first. -/
  before : List Piece
  /-- Its alternatives so far, last first. -/
  branches : List Pattern
  deriving DecidableEq, Repr

/-- A glob while it is read. -/
structure Reading where
  /-- The open groups, innermost first. -/
  groups : List OpenGroup
  /-- The pieces of the current alternative, last first. -/
  pieces : List Piece
  /-- The character in front. -/
  last : Option Char
  deriving DecidableEq, Repr

namespace Reading

def start : Reading := ⟨[], [], none⟩

def push (r : Reading) (piece : Piece) (last : Char) : Reading :=
  { r with pieces := piece :: r.pieces, last := some last }

/-- Puts a piece in the place of the last one, whose slash it contains.  Leading directories take
in all that could follow. -/
def replaceLast (r : Reading) (piece : Piece) (last : Char) : Reading :=
  match r.pieces with
  | .leading :: _ => { r with last := some last }
  | _ :: rest => { r with pieces := piece :: rest, last := some last }
  | [] => r.push piece last

/-- Whether two stars here begin a part of a path. -/
def isAtPart (r : Reading) : Bool :=
  r.last = some '/' || (!r.groups.isEmpty && (r.last = some ',' || r.last = some '{'))

/-- Whether the marks that follow end the alternative. -/
def endsBefore (r : Reading) : List Mark → Bool
  | [] => true
  | .comma :: _ | .closing :: _ => !r.groups.isEmpty
  | _ => false

/-- The alternatives of a closed group, of which those without text are dropped. -/
def groupPattern (branches : List Pattern) : Pattern :=
  .anyOf (branches.reverse.filter (· ≠ .empty))

def step (r : Reading) : Mark → Except Fault Reading
  | .plain c | .escaped c => .ok (r.push (.literal c) c)
  | .question => .ok (r.push .anyByte '?')
  | .star => .ok (r.push .anyRun '*')
  | .oneOf s => .ok (r.push (.oneOf s) ']')
  | .opening => .ok ⟨⟨r.pieces, []⟩ :: r.groups, [], some '{'⟩
  | .comma => match r.groups with
    | [] => .ok (r.push (.literal ',') ',')
    | g :: outer =>
      .ok ⟨{ g with branches := ofPieces r.pieces :: g.branches } :: outer, [], some ','⟩
  | .closing => match r.groups with
    | [] => .error .unopenedGroup
    | g :: outer =>
      .ok ⟨outer, .group (groupPattern (ofPieces r.pieces :: g.branches)) :: g.before, some '}'⟩
  | .fault f => .error f

/-- The pattern of what has been read, at the end of the glob.  Leading directories alone stand for
everything. -/
def finish (r : Reading) : Except Fault Pattern :=
  match r.groups, r.pieces with
  | _ :: _, _ => .error .unclosedGroup
  | [], [.leading] => .ok .anything
  | [], pieces => .ok (ofPieces pieces)

/-- Reads marks to the end. -/
def read (r : Reading) : List Mark → Except Fault Pattern
  | [] => r.finish
  | .star :: .star :: .plain '/' :: rest =>
    if r.pieces = [] then (r.push .leading '/').read rest
    else if r.isAtPart then (r.replaceLast .inner '/').read rest
    else ((r.push .anyRun '*').push (.literal '/') '/').read rest
  | .star :: .star :: rest =>
    if r.pieces = [] ∧ rest = [] then (r.push .leading '*').read rest
    else if r.pieces ≠ [] ∧ r.isAtPart ∧ r.endsBefore rest then
      (r.replaceLast .trailing '*').read rest
    else (r.push .anyRun '*').read rest
  | m :: rest => do (← r.step m).read rest

end Reading

/-- The pattern of a glob. -/
def Pattern.ofGlob (glob : Text) : Except Fault Pattern :=
  Reading.start.read (Mark.read .outside glob)

/-- Whether a path is one of the pattern's, by its bytes. -/
def Pattern.acceptsText (p : Pattern) (path : Text) : Bool :=
  p.accepts (path.flatMap String.utf8EncodeChar)

end Glob

end ProcedureGen
