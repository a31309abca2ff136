import ProcedureGen.Text

/-!
# Byte patterns

What a glob stands for: a regular set of byte strings.

* `Pattern.Matches`: the byte strings a pattern stands for;
* `Pattern.accepts`: the test, by the positions that can be reached from the start.

The test goes once through the bytes for each part of the pattern, so it takes no longer for a
pattern with many stars.
-/

namespace ProcedureGen

namespace Glob

/-! ## Sets of bytes -/

/-- The bytes in some of the ranges, or those in none. -/
structure ByteClass where
  isNegated : Bool
  ranges : List (UInt8 × UInt8)
  deriving DecidableEq, Repr

namespace ByteClass

def contains (s : ByteClass) (b : UInt8) : Bool :=
  s.isNegated != s.ranges.any fun r => r.1 ≤ b && b ≤ r.2

/-- All bytes. -/
def all : ByteClass := ⟨true, []⟩

def single (b : UInt8) : ByteClass := ⟨false, [(b, b)]⟩

end ByteClass

/-! ## Patterns -/

inductive Pattern where
  /-- The empty string. -/
  | empty
  /-- One byte of a set. -/
  | byte (s : ByteClass)
  /-- Any string. -/
  | anything
  | seq (p q : Pattern)
  | either (p q : Pattern)
  deriving DecidableEq, Repr

namespace Pattern

/-- The byte strings that a pattern stands for. -/
inductive Matches : Pattern → List UInt8 → Prop
  | empty : Matches .empty []
  | byte {s : ByteClass} {b : UInt8} : s.contains b = true → Matches (.byte s) [b]
  | anything (bs : List UInt8) : Matches .anything bs
  | seq {p q : Pattern} {bs cs : List UInt8} :
      Matches p bs → Matches q cs → Matches (.seq p q) (bs ++ cs)
  | inl {p q : Pattern} {bs : List UInt8} : Matches p bs → Matches (.either p q) bs
  | inr {p q : Pattern} {bs : List UInt8} : Matches q bs → Matches (.either p q) bs

/-- One pattern after another; the empty pattern leaves no trace. -/
def andThen (p q : Pattern) : Pattern :=
  if p = .empty then q else if q = .empty then p else .seq p q

/-- The strings of a text. -/
def ofBytes (bs : List UInt8) : Pattern :=
  bs.foldr (fun b p => andThen (.byte (.single b)) p) .empty

/-- The strings of some pattern of the list; of an empty list, the empty string. -/
def anyOf : List Pattern → Pattern
  | [] => .empty
  | [p] => p
  | p :: rest => .either p (anyOf rest)

/-! ## The test -/

/-- Marks every position from the first marked one on. -/
def spread : Bool → List Bool → List Bool
  | _, [] => []
  | seen, m :: rest => (seen || m) :: spread (seen || m) rest

/-- Marks the position after each marked one whose byte is in the set. -/
def advance (s : ByteClass) : List UInt8 → List Bool → List Bool
  | b :: bs, m :: ms => (m && s.contains b) :: advance s bs ms
  | _, _ => []

/-- The positions that can be reached from the marked ones through a string of the pattern.  The
list of marks has one more element than that of the bytes. -/
def reach : Pattern → List UInt8 → List Bool → List Bool
  | .empty, _, marks => marks
  | .byte s, bs, marks => false :: advance s bs marks
  | .anything, _, marks => spread false marks
  | .seq p q, bs, marks => reach q bs (reach p bs marks)
  | .either p q, bs, marks => List.zipWith (· || ·) (reach p bs marks) (reach q bs marks)

/-- Whether the byte string is one of the pattern's. -/
def accepts (p : Pattern) (bs : List UInt8) : Bool :=
  (reach p bs (true :: List.replicate bs.length false)).getLast?.getD false

end Pattern

end Glob

end ProcedureGen
