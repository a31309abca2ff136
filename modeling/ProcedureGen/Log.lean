import ProcedureGen.Path

/-!
# The log

* `Log.Line`: what is told of a run, with its level and the part of the program that tells it;
* `Log.Filter`: which lines are shown;
* `Log.Filter.parse?`: a filter written as directives.
-/

namespace ProcedureGen

namespace Log

inductive Level where
  | error | warn | info | debug | trace
  deriving DecidableEq, Repr

namespace Level

/-- How much is shown at a level, the most at the last one. -/
def rank : Level → Nat
  | .error => 1
  | .warn => 2
  | .info => 3
  | .debug => 4
  | .trace => 5

def name : Level → Text
  | .error => "ERROR"
  | .warn => "WARN"
  | .info => "INFO"
  | .debug => "DEBUG"
  | .trace => "TRACE"

def all : List Level := [.error, .warn, .info, .debug, .trace]

end Level

/-- Who tells a line. -/
inductive Source where
  | commandLine | conversion | discovery
  deriving DecidableEq, Repr

/-- The name by which directives select a source. -/
def Source.target : Source → Text
  | .commandLine => "plv8gen"
  | .conversion => "plv8gen_core::convert"
  | .discovery => "plv8gen_core::discover"

structure Line where
  source : Source
  level : Level
  message : Text
  deriving DecidableEq, Repr

/-! ## Filters -/

/-- Up to which level the lines of some targets are shown. -/
structure Directive where
  /-- The start of the targets; empty for all. -/
  target : Text
  /-- The rank of the last level that is shown, or 0. -/
  rank : Nat
  deriving DecidableEq, Repr

/-- The directives of a filter.  For a line the one with the longest target counts, and of several
with one target the last. -/
structure Filter where
  directives : List Directive
  deriving DecidableEq, Repr

namespace Filter

/-- Shows everything up to a level. -/
def upTo (l : Level) : Filter := ⟨[⟨[], l.rank⟩]⟩

/-- Of two directives the one that counts; the second stands later. -/
def stronger (d e : Directive) : Directive :=
  if e.target.length < d.target.length then d else e

/-- The directive that counts for a target. -/
def directive? (f : Filter) (target : Text) : Option Directive :=
  (f.directives.filter fun d => d.target.isPrefixOf target).foldl
    (fun best d => some (match best with
      | some b => stronger b d
      | none => d)) none

/-- Whether a line is shown. -/
def shows (f : Filter) (l : Line) : Bool :=
  match f.directive? l.source.target with
  | some d => l.level.rank ≤ d.rank
  | none => false

/-! ## Directives as text -/

/-- The rank of a level by its name in any case, or by its number. -/
def rank? (t : Text) : Option Nat :=
  let name := t.map Char.toUpper
  if name = "OFF" then some 0
  else match Level.all.find? fun l => l.name = name with
    | some l => some l.rank
    | none => match t with
      | [c] => if '0' ≤ c ∧ c ≤ '5' then some (c.toNat - '0'.toNat) else none
      | _ => none

def isTargetChar (c : Char) : Bool := c.isAlphanum || c = '_' || c = ':' || c = '-'

/-- Reads a level, or a target with or without a level.  A target without one shows all. -/
def directiveOf? (t : Text) : Option Directive :=
  match rank? t with
  | some r => some ⟨[], r⟩
  | none =>
    let target := t.takeWhile isTargetChar
    match target, t.dropWhile isTargetChar with
    | [], _ => none
    | _, [] | _, ['='] => some ⟨target, Level.trace.rank⟩
    | _, '=' :: level => (rank? level).map fun r => ⟨target, r⟩
    | _, _ => none

/-- The pieces of a text between commas. -/
def commaPieces : Text → List Text
  | [] => [[]]
  | c :: rest => if c = ',' then [] :: commaPieces rest else Text.consRow c (commaPieces rest)

/-- Reads directives between commas; none if some piece is no directive.  Without a directive
nothing is shown. -/
def parse? (t : Text) : Option Filter :=
  (((commaPieces t).filter (· ≠ [])).mapM directiveOf?).map fun ds => ⟨ds⟩

end Filter

end Log

end ProcedureGen
