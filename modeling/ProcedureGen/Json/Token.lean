import ProcedureGen.Json.Number

/-!
# JSON tokens

* `Scalar`: the values without parts;
* `Token.readAll`: a text as a list of tokens.

A fault in a string or another scalar is part of its token, and nothing follows it: whether it is
reported depends on whether a value may stand there.
-/

namespace ProcedureGen

namespace Json

inductive Scalar where
  | null
  | boolean (b : Bool)
  | number (n : Number)
  | string (t : Text)
  deriving DecidableEq, Repr

/-- How a scalar is named in messages. -/
def Scalar.describe : Scalar → Text
  | .null => "null"
  | .boolean b => "boolean \x60" ++ (if b then "true" else "false") ++ "\x60"
  | .number n => n.describe
  | .string t => "string \"" ++ t ++ "\""

inductive Token where
  | openBracket | closeBracket | openBrace | closeBrace | comma | colon
  | string (t : Text)
  /-- A scalar other than a string. -/
  | scalar (s : Scalar)
  | badString (f : Fault)
  | badScalar (f : Fault)
  /-- A character with which nothing begins. -/
  | other
  deriving DecidableEq, Repr

namespace Token

def isBlank (c : Char) : Bool := c = ' ' || c = '\n' || c = '\t' || c = '\r'

/-! ## Strings -/

def hexDigit? (c : Char) : Option Nat :=
  if c.isDigit then some (c.toNat - '0'.toNat)
  else if 'a' ≤ c ∧ c ≤ 'f' then some (c.toNat - 'a'.toNat + 10)
  else if 'A' ≤ c ∧ c ≤ 'F' then some (c.toNat - 'A'.toNat + 10)
  else none

/-- The 16-bit unit of four hexadecimal digits. -/
def unit? (a b c d : Char) : Option Nat := do
  return (((← hexDigit? a) * 16 + (← hexDigit? b)) * 16 + (← hexDigit? c)) * 16 + (← hexDigit? d)

def isLeading (n : Nat) : Bool := 0xD800 ≤ n && n ≤ 0xDBFF

def isTrailing (n : Nat) : Bool := 0xDC00 ≤ n && n ≤ 0xDFFF

/-- The fault of an escape whose four digits are not all there.  The end of the text counts only
where fewer than four bytes are left. -/
def shortEscape (t : Text) : Fault := if Text.byteSize t < 4 then .endInString else .invalidEscape

/-- The character of an escape by one letter. -/
def escaped? : Char → Option Char
  | '"' => some '"'
  | '\\' => some '\\'
  | '/' => some '/'
  | 'b' => some '\x08'
  | 'f' => some '\x0c'
  | 'n' => some '\n'
  | 'r' => some '\r'
  | 't' => some '\t'
  | _ => none

/-- Reads a string after its first quote. -/
def readString (done : Text) : Text → Except Fault (Text × Text)
  | [] => .error .endInString
  | '"' :: rest => .ok (done.reverse, rest)
  | '\\' :: 'u' :: a :: b :: c :: d :: rest =>
    match unit? a b c d with
    | none => .error .invalidEscape
    | some n =>
      if isTrailing n then .error .loneSurrogate
      else if !isLeading n then readString (Char.ofNat n :: done) rest
      else match rest with
        | '\\' :: 'u' :: e :: f :: g :: h :: rest =>
          match unit? e f g h with
          | none => .error .invalidEscape
          | some m =>
            if isTrailing m then
              readString (Char.ofNat (0x10000 + (n - 0xD800) * 0x400 + (m - 0xDC00)) :: done) rest
            else .error .loneSurrogate
        | '\\' :: 'u' :: rest => .error (shortEscape rest)
        | [] | ['\\'] => .error .endInString
        | _ => .error .unpairedSurrogate
  | '\\' :: 'u' :: rest => .error (shortEscape rest)
  | ['\\'] => .error .endInString
  | '\\' :: c :: rest => match escaped? c with
    | some c => readString (c :: done) rest
    | none => .error .invalidEscape
  | c :: rest => if c.toNat < 0x20 then .error .controlCharacter else readString (c :: done) rest

/-! ## Literals -/

/-- Reads the rest of a literal. -/
def readLiteral : Text → Text → Except Fault Text
  | [], t => .ok t
  | _ :: _, [] => .error .endInValue
  | p :: ps, c :: cs => if p = c then readLiteral ps cs else .error .expectedLiteral

/-! ## Tokens -/

/-- The first token of a text that starts with `c`, and the rest of the text. -/
def read (c : Char) (rest : Text) : Token × Text :=
  let literal (word : Text) (s : Scalar) := match readLiteral word rest with
    | .ok rest => (Token.scalar s, rest)
    | .error f => (.badScalar f, [])
  match c with
  | '[' => (.openBracket, rest)
  | ']' => (.closeBracket, rest)
  | '{' => (.openBrace, rest)
  | '}' => (.closeBrace, rest)
  | ',' => (.comma, rest)
  | ':' => (.colon, rest)
  | '"' => match readString [] rest with
    | .ok (t, rest) => (.string t, rest)
    | .error f => (.badString f, [])
  | 'n' => literal "ull" .null
  | 't' => literal "rue" (.boolean true)
  | 'f' => literal "alse" (.boolean false)
  | c =>
    if c = '-' ∨ c.isDigit then match Number.read (c :: rest) with
      | .ok (n, rest) => (.scalar (.number n), rest)
      | .error f => (.badScalar f, [])
    else (.other, [])

/-- The tokens of a text, of which at most so many characters are read. -/
def readUpTo : Nat → Text → List Token
  | 0, _ => []
  | _, [] => []
  | n + 1, c :: rest =>
    if isBlank c then readUpTo n rest
    else
      let (token, rest) := read c rest
      token :: readUpTo n rest

/-- The tokens of a text. -/
def readAll (t : Text) : List Token := readUpTo t.length t

end Token

end Json

end ProcedureGen
