import ProcedureGen.Text
import ProcedureGen.Script.IdentifierTable

/-!
# Characters of a script

The character classes of the scripting language.  They differ from those of `Text`: a script ends
its lines at four characters, and its blanks include the byte order mark.
-/

namespace ProcedureGen
namespace Script

/-- Line feed, carriage return and the two Unicode separators end a line of a script. -/
def isLineEnd (c : Char) : Bool :=
  c == '\n' || c == '\r' || c.toNat == 0x2028 || c.toNat == 0x2029

/-- Blanks inside a line: tab, vertical tab, form feed, next line, the space separators,
byte order mark. -/
def isBlank (c : Char) : Bool :=
  let n := c.toNat
  n == 9 || n == 11 || n == 12 || n == 0x20 || n == 0x85 || n == 0xA0 || n == 0x1680 ||
    (0x2000 ≤ n && n ≤ 0x200A) || n == 0x202F || n == 0x205F || n == 0x3000 || n == 0xFEFF

def isDigit (c : Char) : Bool := '0' ≤ c && c ≤ '9'

def isOctalDigit (c : Char) : Bool := '0' ≤ c && c ≤ '7'

def isBinaryDigit (c : Char) : Bool := c == '0' || c == '1'

def isLetter (c : Char) : Bool := ('a' ≤ c && c ≤ 'z') || ('A' ≤ c && c ≤ 'Z')

/-- Whether an identifier may begin with the character. -/
def isIdentifierStart (c : Char) : Bool :=
  isLetter c || c == '$' || c == '_' ||
    (0x80 ≤ c.toNat && IdentifierTable.covers c.toNat IdentifierTable.startRanges)

/-- Whether the character may stand inside an identifier; the zero width joiners may. -/
def isIdentifierPart (c : Char) : Bool :=
  isIdentifierStart c || isDigit c || c.toNat == 0x200C || c.toNat == 0x200D ||
    (0x80 ≤ c.toNat && IdentifierTable.covers c.toNat IdentifierTable.partRanges)

/-- The value of a hexadecimal digit. -/
def hexValue? (c : Char) : Option Nat :=
  if isDigit c then some (c.toNat - 48)
  else if 'a' ≤ c && c ≤ 'f' then some (c.toNat - 87)
  else if 'A' ≤ c && c ≤ 'F' then some (c.toNat - 55)
  else none

def isHexDigit (c : Char) : Bool := (hexValue? c).isSome

/-- The value of a run of hexadecimal digits, most significant first. -/
def hexNumber (t : Text) : Nat := t.foldl (fun n c => 16 * n + (hexValue? c).getD 0) 0

end Script
end ProcedureGen
