import ProcedureGen.Double

/-!
# JSON numbers

* `Number`: whole numbers of 64 bits stay whole, all others are floating point;
* `Number.read`: a number at the start of a text;
* `Double.text`: how a floating-point number is written.
-/

namespace ProcedureGen

namespace Double

/-- The shortest digits.  They are written positionally when the first one stands for a power of ten
from -4 to 15, always with a fraction; otherwise with a signed exponent of two digits at least. -/
def text (x : Double) : Text :=
  let d := x.shortest
  let all := Text.ofNat d.digits
  let digits := (all.reverse.dropWhile (· = '0')).reverse
  let point : Int := all.length + d.exponent
  if x.mantissa = 0 then "0.0"
  else if -3 ≤ point ∧ point ≤ 16 then
    if point ≤ 0 then "0." ++ List.replicate (-point).toNat '0' ++ digits
    else if digits.length ≤ point.toNat then
      digits ++ List.replicate (point.toNat - digits.length) '0' ++ ".0"
    else digits.take point.toNat ++ "." ++ digits.drop point.toNat
  else
    let e := point - 1
    let size := Text.ofNat e.natAbs
    digits.take 1 ++ (if digits.length = 1 then [] else '.' :: digits.drop 1) ++
      (if e < 0 then "e-" else "e+") ++ List.replicate (2 - size.length) '0' ++ size

end Double

namespace Json

/-- Why a text is no JSON text. -/
inductive Fault where
  | expectedValue | expectedLiteral | expectedColon | expectedCommaOrBrace
  | expectedCommaOrBracket | keyNotString | trailingComma | trailingCharacters
  | invalidNumber | numberOutOfRange
  | invalidEscape | loneSurrogate | unpairedSurrogate | controlCharacter
  | tooDeep
  | endInValue | endInList | endInObject | endInString
  deriving DecidableEq, Repr

namespace Fault

/-- Whether the text ends too early. -/
def isEnd : Fault → Bool
  | .endInValue | .endInList | .endInObject | .endInString => true
  | _ => false

def message : Fault → Text
  | .expectedValue => "expected value"
  | .expectedLiteral => "expected ident"
  | .expectedColon => "expected \x60:\x60"
  | .expectedCommaOrBrace => "expected \x60,\x60 or \x60\x7d\x60"
  | .expectedCommaOrBracket => "expected \x60,\x60 or \x60]\x60"
  | .keyNotString => "key must be a string"
  | .trailingComma => "trailing comma"
  | .trailingCharacters => "trailing characters"
  | .invalidNumber => "invalid number"
  | .numberOutOfRange => "number out of range"
  | .invalidEscape => "invalid escape"
  | .loneSurrogate => "lone leading surrogate in hex escape"
  | .unpairedSurrogate => "unexpected end of hex escape"
  | .controlCharacter => "control character (\\u0000-\\u001F) found while parsing a string"
  | .tooDeep => "recursion limit exceeded"
  | .endInValue => "EOF while parsing a value"
  | .endInList => "EOF while parsing a list"
  | .endInObject => "EOF while parsing an object"
  | .endInString => "EOF while parsing a string"

end Fault

/-! ## Numbers -/

inductive Number where
  /-- A whole number below `2 ^ 64`. -/
  | natural (n : Nat)
  /-- The negative of a whole number from 1 to `2 ^ 63`. -/
  | negative (n : Nat)
  | float (isNegative : Bool) (x : Double)
  deriving DecidableEq, Repr

namespace Number

/-- One more than the greatest significand. -/
def significandBound : Nat := UInt64.size

/-- One more than the greatest exponent that is counted. -/
def exponentBound : Nat := Nat.pow 2 31

/-- The digits in front, and the rest. -/
def splitDigits (t : Text) : List Nat × Text :=
  ((t.takeWhile Char.isDigit).map fun c => c.toNat - '0'.toNat, t.dropWhile Char.isDigit)

/-- Puts digits behind a significand as long as it stays in bounds.  Gives also the digits that are
left over. -/
def absorb (n : Nat) : List Nat → Nat × List Nat
  | [] => (n, [])
  | d :: ds => if n * 10 + d < significandBound then absorb (n * 10 + d) ds else (n, d :: ds)

/-- A floating-point number, unless it is out of range. -/
def ofDecimal (isNegative : Bool) (significand : Nat) (exponent : Int) : Except Fault Number :=
  match Double.ofDecimal? significand exponent with
  | some x => .ok (.float isNegative x)
  | none => .error .numberOutOfRange

/-- Reads the exponent after an `e`. -/
def readExponent (isNegative : Bool) (significand : Nat) (exponent : Int) (t : Text) :
    Except Fault (Number × Text) :=
  let isSmall := t.head? = some '-'
  let digitsAt := if isSmall || t.head? = some '+' then t.drop 1 else t
  match splitDigits digitsAt, digitsAt with
  | ([], _), [] => .error .endInValue
  | ([], _), _ :: _ => .error .invalidNumber
  | (ds, rest), _ => do
    let e := ds.foldl (fun n d => n * 10 + d) 0
    if e < exponentBound then
      let exponent := if isSmall then exponent - e else exponent + e
      return (← ofDecimal isNegative significand exponent, rest)
    else if significand ≠ 0 && !isSmall then .error .numberOutOfRange
    else return (.float isNegative Double.zero, rest)

/-- Reads what follows the whole part and the fraction. -/
def readTail (isNegative : Bool) (significand : Nat) (exponent : Int) (t : Text) :
    Except Fault (Number × Text) :=
  match t with
  | 'e' :: rest | 'E' :: rest => readExponent isNegative significand exponent rest
  | rest => do return (← ofDecimal isNegative significand exponent, rest)

/-- Reads the fraction after a point.  Its digits beyond the bound do not count. -/
def readFraction (isNegative : Bool) (significand : Nat) (exponent : Int) (t : Text) :
    Except Fault (Number × Text) :=
  match splitDigits t, t with
  | ([], _), [] => .error .endInValue
  | ([], _), _ :: _ => .error .invalidNumber
  | (ds, rest), _ =>
    let (n, extra) := absorb significand ds
    readTail isNegative n (exponent - (ds.length - extra.length : Nat)) rest

/-- A whole number.  Minus zero, and what lies below `-2 ^ 63`, are floating point. -/
def ofWhole (isNegative : Bool) (n : Nat) : Except Fault Number :=
  if !isNegative then .ok (.natural n)
  else if n = 0 ∨ UInt64.size / 2 < n then ofDecimal true n 0
  else .ok (.negative n)

/-- Reads a number after its sign.  Digits of the whole part beyond the bound only count as a power
of ten. -/
def readUnsigned (isNegative : Bool) (t : Text) : Except Fault (Number × Text) :=
  match splitDigits t, t with
  | ([], _), [] => .error .endInValue
  | ([], _), _ :: _ => .error .invalidNumber
  | (0 :: _ :: _, _), _ => .error .invalidNumber
  | (ds, rest), _ =>
    let (n, extra) := absorb 0 ds
    match extra, rest with
    | _, '.' :: rest => readFraction isNegative n extra.length rest
    | [], 'e' :: rest | [], 'E' :: rest => readExponent isNegative n 0 rest
    | [], rest => do return (← ofWhole isNegative n, rest)
    | _ :: _, rest => readTail isNegative n extra.length rest

/-- Reads a number. -/
def read (t : Text) : Except Fault (Number × Text) :=
  match t with
  | '-' :: rest => readUnsigned true rest
  | rest => readUnsigned false rest

/-- How a number is named in messages. -/
def describe : Number → Text
  | .natural n => "integer \x60" ++ Text.ofNat n ++ "\x60"
  | .negative n => "integer \x60-" ++ Text.ofNat n ++ "\x60"
  | .float isNegative x =>
    "floating point \x60" ++ (if isNegative then "-" else "") ++ x.text ++ "\x60"

end Number

end Json

end ProcedureGen
