/-!
# Text

Source text, file names and messages are lists of characters, so that every rule on them is a
recursion on the list.

* `Text.rows`: the pieces between line ends, a final piece included even when it is empty;
* `Text.lines`: the rows without an empty last one;
* `Text.trim`: white space removed at both ends;
* `Text.hasPart`: a text occurs somewhere in another;
* `Text.byteSize`: the length of the UTF-8 form.
-/

namespace ProcedureGen

/-- A text is the list of its characters. -/
abbrev Text := List Char

instance : Coe String Text := ⟨String.toList⟩

namespace Text

/-- The Unicode property White_Space. -/
def isWhiteSpace (c : Char) : Bool :=
  let n := c.toNat
  (9 ≤ n && n ≤ 13) || n == 0x20 || n == 0x85 || n == 0xA0 || n == 0x1680 ||
    (0x2000 ≤ n && n ≤ 0x200A) || n == 0x2028 || n == 0x2029 || n == 0x202F || n == 0x205F ||
    n == 0x3000

/-! ## Trimming -/

def trimStart (t : Text) : Text := t.dropWhile isWhiteSpace

def trimEnd (t : Text) : Text := (t.reverse.dropWhile isWhiteSpace).reverse

/-- The text without white space at its two ends. -/
def trim (t : Text) : Text := trimEnd (trimStart t)

/-! ## Lines -/

/-- Puts a character in front of the first row. -/
def consRow (c : Char) : List Text → List Text
  | [] => [[c]]
  | row :: rest => (c :: row) :: rest

/-- The pieces of a text between its line ends.  A line end is `\n`, or `\r\n` as a whole; a `\r`
elsewhere is an ordinary character. -/
def rows : Text → List Text
  | [] => [[]]
  | '\n' :: rest => [] :: rows rest
  | '\r' :: '\n' :: rest => [] :: rows rest
  | c :: rest => consRow c (rows rest)

/-- The rows of a text, where a line end at the very end starts no further line. -/
def lines (t : Text) : List Text :=
  let all := rows t
  if all.getLast? = some [] then all.dropLast else all

/-! ## Parts -/

/-- Whether `part` stands somewhere in the text. -/
def hasPart (part : Text) : Text → Bool
  | [] => part.isEmpty
  | c :: rest => part.isPrefixOf (c :: rest) || hasPart part rest

/-- The text before a suffix, if the text ends in it. -/
def dropSuffix? (suffix t : Text) : Option Text :=
  if suffix.isSuffixOf t then some (t.take (t.length - suffix.length)) else none

/-- The text after a prefix, if the text starts with it. -/
def dropPrefix? : Text → Text → Option Text
  | [], t => some t
  | _ :: _, [] => none
  | p :: ps, c :: cs => if p = c then dropPrefix? ps cs else none

/-- Each text followed by a line end. -/
def unlines (ls : List Text) : Text := ls.flatMap (· ++ ['\n'])

/-- The texts in one, with `separator` between neighbours. -/
def joinWith (separator : Text) : List Text → Text
  | [] => []
  | [t] => t
  | t :: rest => t ++ separator ++ joinWith separator rest

/-- The number of bytes of the UTF-8 form. -/
def byteSize (t : Text) : Nat := t.foldl (fun n c => n + c.utf8Size) 0

/-- The decimal digits of a number. -/
def ofNat (n : Nat) : Text := Nat.toDigits 10 n

end Text

end ProcedureGen
