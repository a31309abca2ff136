import ProcedureGen.Script.Keyword
import ProcedureGen.Script.Punctuator

/-!
# Tokens

A script is a sequence of tokens, each with the gap of blanks and comments in front of it.  Nothing
is lost: the gaps and the written forms of the tokens, put one after another, are the script again.

* `Token.scan`: the first token of a text and the text behind it;
* `Token.scanRegex`: the same where a `/` opens a regular expression;
* `Token.scanTemplateRest`: the same where a closing brace continues a template.

A text that starts with no token yields a token of kind `invalid`, which no rule of the grammar
takes.
-/

namespace ProcedureGen
namespace Script

/-- Which piece of a template literal a token is. -/
inductive TemplatePart where
  | whole | head | middle | tail
  deriving DecidableEq, Repr

/-- What a token is, without how it is written. -/
inductive Kind where
  /-- A word without a meaning of its own, escapes resolved. -/
  | name (word : Text)
  | keyword (word : Keyword)
  /-- A reserved word written with an escape: no keyword, and no name of a variable either. -/
  | escapedKeyword (word : Keyword)
  | privateName (word : Text)
  | punctuator (mark : Punctuator)
  | number
  | string
  /-- A piece of a template; `sound` tells whether all its escapes mean something. -/
  | template (part : TemplatePart) (sound : Bool)
  | regex
  | endOfText
  | invalid
  deriving DecidableEq, Repr

structure Token where
  kind : Kind
  /-- Blanks, line ends and comments in front of the token. -/
  gap : Text
  /-- The token as it is written. -/
  raw : Text
  /-- Whether the gap holds a line end. -/
  onNewLine : Bool
  deriving DecidableEq, Repr

/-! ## Gaps -/

/-- Where a gap scanner is: between tokens, in a comment to the end of the line, or in a comment
that `*` and `/` close. -/
inductive GapState where
  | blank | line | block
  deriving DecidableEq, Repr

structure Gap where
  text : Text
  hasLineEnd : Bool
  /-- `false` if the text ends inside a comment. -/
  closed : Bool
  rest : Text
  deriving DecidableEq, Repr

namespace Gap

/-- Puts one more character in front of a gap. -/
def push (c : Char) (g : Gap) : Gap :=
  { g with text := c :: g.text, hasLineEnd := isLineEnd c || g.hasLineEnd }

def scan : GapState → Text → Gap
  | .blank, '/' :: '/' :: rest => ((scan .line rest).push '/').push '/'
  | .blank, '/' :: '*' :: rest => ((scan .block rest).push '*').push '/'
  | .blank, c :: rest =>
    if isBlank c || isLineEnd c then (scan .blank rest).push c else ⟨[], false, true, c :: rest⟩
  | .line, c :: rest =>
    if isLineEnd c then (scan .blank rest).push c else (scan .line rest).push c
  | .block, '*' :: '/' :: rest => ((scan .blank rest).push '/').push '*'
  | .block, c :: rest => (scan .block rest).push c
  | .block, [] => ⟨[], false, false, []⟩
  | _, [] => ⟨[], false, true, []⟩

end Gap

/-! ## Words -/

/-- A scanned word: its characters with escapes resolved, its written form, and the rest. -/
structure Word where
  decoded : Text
  raw : Text
  rest : Text
  deriving DecidableEq, Repr

namespace Word

/-- Puts a character, written as `raw`, in front of a word. -/
def push (c : Char) (raw : Text) (w : Word) : Word :=
  { w with decoded := c :: w.decoded, raw := raw ++ w.raw }

/-- The character that an escape stands for, if it may stand in a word. -/
def escaped? (n : Nat) : Option Char :=
  let c := Char.ofNat n
  if n ≤ 0x10FFFF && isIdentifierPart c then some c else none

/-- The longest run of identifier characters.  `braced` is the number read so far inside an escape
with braces. -/
def scan : (braced : Option Nat) → Text → Option Word
  | none, '\\' :: 'u' :: '{' :: rest =>
    (scan (some 0) rest).map fun w => { w with raw := '\\' :: 'u' :: '{' :: w.raw }
  | none, '\\' :: 'u' :: a :: b :: c :: d :: rest =>
    if [a, b, c, d].all isHexDigit then
      match escaped? (hexNumber [a, b, c, d]) with
      | some e => (scan none rest).map (push e ['\\', 'u', a, b, c, d])
      | none => none
    else none
  | none, '\\' :: _ => none
  | none, c :: rest =>
    if isIdentifierPart c then (scan none rest).map (push c [c]) else some ⟨[], [], c :: rest⟩
  | none, [] => some ⟨[], [], []⟩
  | some n, '}' :: rest =>
    match escaped? n with
    | some e => (scan none rest).map (push e ['}'])
    | none => none
  | some n, c :: rest =>
    match hexValue? c with
    | some v => (scan (some (min (16 * n + v) 0x110000)) rest).map
        fun w => { w with raw := c :: w.raw }
    | none => none
  | some _, [] => none

/-- A word whose first character may begin an identifier. -/
def read? (t : Text) : Option Word :=
  match scan none t with
  | some w =>
    match w.decoded with
    | c :: _ => if isIdentifierStart c then some w else none
    | [] => none
  | none => none

/-- What a word is: escapes take the keyword meaning away, but leave a reserved word unusable and
make no other name of one that may not be bound. -/
def kind (w : Word) : Kind :=
  match Keyword.ofText? w.decoded with
  | none => .name w.decoded
  | some k =>
    if w.raw = w.decoded || k.isUnbindable then .keyword k
    else if k.isReserved || k.isStrictReserved then .escapedKeyword k
    else .name w.decoded

end Word

/-! ## Literals -/

/-- Whether every escape of a literal means something.  In a template `\0` may precede no digit; in
a string it may precede `8` and `9`. -/
def escapesSound (inTemplate : Bool) : Text → Bool
  | '\\' :: 'u' :: '{' :: rest =>
    let digits := rest.takeWhile isHexDigit
    !digits.isEmpty && hexNumber digits ≤ 0x10FFFF && rest[digits.length]? == some '}' &&
      escapesSound inTemplate rest
  | '\\' :: 'u' :: rest =>
    4 ≤ rest.length && (rest.take 4).all isHexDigit && escapesSound inTemplate rest
  | '\\' :: 'x' :: rest =>
    2 ≤ rest.length && (rest.take 2).all isHexDigit && escapesSound inTemplate rest
  | '\\' :: '0' :: rest =>
    !(rest.take 1).any (if inTemplate then isDigit else isOctalDigit) &&
      escapesSound inTemplate rest
  | '\\' :: c :: rest => !isDigit c && escapesSound inTemplate rest
  | _ :: rest => escapesSound inTemplate rest
  | [] => true

/-- The written form of a literal and the text behind it. -/
structure Literal where
  raw : Text
  rest : Text
  deriving DecidableEq, Repr

namespace Literal

def push (c : Char) (l : Literal) : Literal := { l with raw := c :: l.raw }

/-- The characters of a string up to and including its closing quote. -/
def scanString (quote : Char) : Text → Option Literal
  | '\\' :: '\r' :: '\n' :: rest =>
    (scanString quote rest).map fun l => ((l.push '\n').push '\r').push '\\'
  | '\\' :: c :: rest => (scanString quote rest).map fun l => (l.push c).push '\\'
  | c :: rest =>
    if c = quote then some ⟨[c], rest⟩
    else if c = '\n' || c = '\r' then none
    else (scanString quote rest).map (push c)
  | [] => none

/-- The characters of a template up to and including its closing mark or the opening of an inserted
expression; the flag tells that the template ends there. -/
def scanTemplate : Text → Option (Bool × Literal)
  | '\\' :: c :: rest => (scanTemplate rest).map fun (e, l) => (e, (l.push c).push '\\')
  | '\x60' :: rest => some (true, ⟨['\x60'], rest⟩)
  | '$' :: '{' :: rest => some (false, ⟨['$', '{'], rest⟩)
  | c :: rest => (scanTemplate rest).map fun (e, l) => (e, l.push c)
  | [] => none

/-- The characters of a regular expression behind its opening slash, up to and including the
closing one.  A slash in a class closes nothing. -/
def scanPattern : (inClass : Bool) → Text → Option Literal
  | k, '\\' :: c :: rest =>
    if isLineEnd c then none else (scanPattern k rest).map fun l => (l.push c).push '\\'
  | k, c :: rest =>
    if isLineEnd c then none
    else if c = '/' && !k then some ⟨[c], rest⟩
    else (scanPattern (if c = '[' then true else if c = ']' then false else k) rest).map (push c)
  | _, [] => none

/-- Digits with single underscores between them. -/
def digitsSound : Text → Bool
  | '_' :: _ => false
  | [] => false
  | [_] => true
  | c :: '_' :: rest => c != '_' && digitsSound rest
  | _ :: rest => digitsSound rest

/-- A run of digits and underscores, if it is sound. -/
def digits? (isMember : Char → Bool) (t : Text) : Option Literal :=
  let (run, rest) := t.span (fun c => isMember c || c == '_')
  if digitsSound run then some ⟨run, rest⟩ else none

/-- An exponent, or nothing if the text does not start with one. -/
def exponent? : Text → Option Literal
  | e :: s :: rest =>
    if e = 'e' || e = 'E' then
      if s = '+' || s = '-' then (digits? isDigit rest).map fun l => (l.push s).push e
      else (digits? isDigit (s :: rest)).map (push e)
    else some ⟨[], e :: s :: rest⟩
  | [e] => if e = 'e' || e = 'E' then none else some ⟨[], [e]⟩
  | [] => some ⟨[], []⟩

/-- The fraction behind a decimal point, which may hold no digit at all. -/
def fraction? (t : Text) : Option Literal :=
  match t with
  | c :: _ => if isDigit c || c = '_' then digits? isDigit t else some ⟨[], t⟩
  | [] => some ⟨[], []⟩

/-- The mark of a big integer may follow whole numbers. -/
def suffixed (l : Literal) : Literal :=
  match l.rest with
  | 'n' :: rest => ⟨l.raw ++ ['n'], rest⟩
  | _ => l

/-- Puts a fraction or an exponent behind a literal. -/
def andThen (l : Literal) (next : Text → Option Literal) : Option Literal :=
  (next l.rest).map fun m => ⟨l.raw ++ m.raw, m.rest⟩

/-- A number without the check of what follows it. -/
def number? : Text → Option Literal
  | '.' :: rest => ((digits? isDigit rest).map (push '.')).bind (andThen · exponent?)
  | '0' :: c :: rest =>
    if c = 'x' || c = 'X' then (digits? isHexDigit rest).map fun l => ((suffixed l).push c).push '0'
    else if c = 'o' || c = 'O' then
      (digits? isOctalDigit rest).map fun l => ((suffixed l).push c).push '0'
    else if c = 'b' || c = 'B' then
      (digits? isBinaryDigit rest).map fun l => ((suffixed l).push c).push '0'
    else if isDigit c || c = '_' then none
    else decimal? ('0' :: c :: rest)
  | t => decimal? t
where
  /-- Whole part, then a fraction, an exponent or the mark of a big integer. -/
  decimal? (t : Text) : Option Literal :=
    match digits? isDigit t with
    | none => none
    | some whole =>
      match whole.rest with
      | '.' :: rest =>
        (andThen ⟨whole.raw ++ ['.'], rest⟩ fraction?).bind (andThen · exponent?)
      | 'n' :: _ => some (suffixed whole)
      | _ => andThen whole exponent?

/-- A number; no identifier and no further digit may touch it. -/
def readNumber? (t : Text) : Option Literal :=
  match number? t with
  | none => none
  | some l =>
    match l.rest with
    | c :: _ => if isIdentifierPart c || c = '\\' then none else some l
    | [] => some l

/-- A regular expression with its flags, from the opening slash on. -/
def readRegex? : Text → Option Literal
  | '/' :: rest =>
    match scanPattern false rest with
    | none => none
    | some body =>
      let (flags, after) := body.rest.span isIdentifierPart
      let known := flags.all fun c => "dgimsuyv".toList.contains c
      if known && flags.eraseDups.length = flags.length && after.head? != some '\\' then
        some ⟨'/' :: body.raw ++ flags, after⟩
      else none
  | _ => none

end Literal

/-! ## Tokens -/

namespace Token

/-- What a template piece is, from what stands at its two ends. -/
def templatePart : (opens closes : Bool) → TemplatePart
  | true, true => .whole
  | true, false => .head
  | false, true => .tail
  | false, false => .middle

/-- A template piece whose first character has been read. -/
def readTemplate? (first : Char) (t : Text) : Option (Kind × Literal) :=
  (Literal.scanTemplate t).map fun (closes, l) =>
    (.template (templatePart (first != '}') closes) (escapesSound true l.raw), l.push first)

/-- The kind, the written form and the rest for a text that starts with a token. -/
def read? : Text → Option (Kind × Literal)
  | [] => some (.endOfText, ⟨[], []⟩)
  | '<' :: '!' :: '-' :: '-' :: _ => none
  | '#' :: rest => (Word.read? rest).map fun w => (.privateName w.decoded, ⟨'#' :: w.raw, w.rest⟩)
  | '\x60' :: rest => readTemplate? '\x60' rest
  | c :: rest =>
    if isIdentifierStart c || c = '\\' then
      (Word.read? (c :: rest)).map fun w => (w.kind, ⟨w.raw, w.rest⟩)
    else if isDigit c || (c = '.' && (rest.take 1).any isDigit) then
      (Literal.readNumber? (c :: rest)).map fun l => (.number, l)
    else if c = '\x22' || c = '\x27' then
      match Literal.scanString c rest with
      | some l => if escapesSound false l.raw then some (.string, l.push c) else none
      | none => none
    else
      (Punctuator.read? (c :: rest)).map fun (p, after) => (.punctuator p, ⟨p.spelling, after⟩)

/-- A token from what was read behind a gap. -/
def ofRead (gap : Gap) : Option (Kind × Literal) → Token × Text
  | some (kind, l) => (⟨kind, gap.text, l.raw, gap.hasLineEnd⟩, l.rest)
  | none => (⟨.invalid, gap.text, gap.rest, gap.hasLineEnd⟩, [])

/-- The first token of a text, and the text behind it. -/
def scan (t : Text) : Token × Text :=
  let gap := Gap.scan .blank t
  ofRead gap (if gap.closed then read? gap.rest else none)

/-- The token read again as a regular expression, if a slash begins it. -/
def scanRegex (token : Token) (rest : Text) : Option (Token × Text) :=
  (Literal.readRegex? (token.raw ++ rest)).map fun l =>
    ({ token with kind := .regex, raw := l.raw }, l.rest)

/-- The token read again as the rest of a template, if a closing brace begins it. -/
def scanTemplateRest (token : Token) (rest : Text) : Option (Token × Text) :=
  match token.kind with
  | .punctuator .braceClose =>
    (readTemplate? '}' rest).map fun (kind, l) =>
      ({ token with kind := kind, raw := l.raw }, l.rest)
  | _ => none

/-- The name that a word gives, keyword or not. -/
def word? (token : Token) : Option Text :=
  match token.kind with
  | .name w => some w
  | .keyword k => some k.spelling
  | .escapedKeyword k => some k.spelling
  | _ => none

/-- The token with its gap. -/
def source (token : Token) : Text := token.gap ++ token.raw

end Token

end Script
end ProcedureGen
