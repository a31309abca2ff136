import ProcedureGen.Script.EarlyError
import ProcedureGen.Script.Grammar

/-!
# Modules

A script that the grammar accepts and that has no early error.

* `Module.parse?`: reads a module;
* `Module.items`: its top-level items, in order;
* `Module.slice?`: the text between two byte positions.
-/

namespace ProcedureGen
namespace Script

/-- A module, as read. -/
structure Module where
  /-- The text without a byte order mark at its start. -/
  source : Text
  /-- The line for the system's loader, from `#!` to its end. -/
  shebang : Text
  tree : Tree
  deriving DecidableEq, Repr

/-- A text without a byte order mark at its start. -/
def withoutMark : Text → Text
  | c :: rest => if c.toNat = 0xFEFF then rest else c :: rest
  | [] => []

/-- A first line that starts with `#!`, and the rest. -/
def splitShebang (t : Text) : Text × Text :=
  match t with
  | '#' :: '!' :: _ => t.span (fun c => !isLineEnd c)
  | _ => ([], t)

namespace Module

/-- Items up to the end of the text. -/
def phrase : Phrase := .seq (.many (.rule .moduleItem)) (.token .endOfText)

/-- A bound on the depth of rules in a text: a token nests at most a dozen of them. -/
def depthOf (t : Text) : Nat := 16 * (t.length + 4)

/-- Reads a module in a dialect. -/
def parse? (d : Dialect) (text : Text) : Option Module :=
  let source := withoutMark text
  let (shebang, code) := splitShebang source
  let depth := depthOf code
  match phrase.read d depth ((grammar d).read d depth) (Cursor.ofText code) with
  | some (tree, _) => if tree.isSound .top then some ⟨source, shebang, tree⟩ else none
  | none => none

/-- The top-level items: functions that are exported, functions that are not, and the rest. -/
def items (m : Module) : List Tree :=
  m.tree.children.filter fun
    | .node _ _ => true
    | _ => false

/-- The text from the start of the first item, or of the loader's line, to the end of the last
item. -/
def text (m : Module) : Text :=
  let tokens := m.items.flatMap Tree.tokens
  if m.items.isEmpty then []
  else if m.shebang.isEmpty then Tree.textOf tokens
  else m.shebang ++ Tree.sourceOf tokens

/-- Splits a text behind a number of bytes, unless that cuts a character. -/
def splitAtByte? : Nat → Text → Option (Text × Text)
  | 0, t => some ([], t)
  | _ + 1, [] => none
  | n + 1, c :: rest =>
    if n + 1 < c.utf8Size then none
    else (splitAtByte? (n + 1 - c.utf8Size) rest).map fun (a, b) => (c :: a, b)

/-- The text between two byte positions of the source. -/
def slice? (m : Module) (low high : Nat) : Option Text :=
  if high < low then none
  else do
    let (_, rest) ← splitAtByte? low m.source
    let (text, _) ← splitAtByte? (high - low) rest
    return text

end Module

end Script
end ProcedureGen
