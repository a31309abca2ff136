import ProcedureGen.Json.Draft

/-!
# JSON values

A text that can be read to its end is a value.  Of an object's members with one key the last one
counts, and the members stand in the order of their keys.

* `Value.ofText`: the value of a text, or the first fault in it;
* `Value.get?`: a member of an object;
* `Value.draft`: a value as a draft without faults.
-/

namespace ProcedureGen

namespace Json

inductive Value where
  | scalar (s : Scalar)
  | array (items : List Value)
  | object (members : List (Text × Value))

namespace Value

/-- Puts a member in its place among members that are sorted by key. -/
def insertMember (key : Text) (v : Value) : List (Text × Value) → List (Text × Value)
  | [] => [(key, v)]
  | (k, w) :: rest =>
    if key = k then (key, v) :: rest
    else if key < k then (key, v) :: (k, w) :: rest
    else (k, w) :: insertMember key v rest

/-- The object of some members, of which the later ones count. -/
def ofMembers (members : List (Text × Value)) : Value :=
  .object (members.foldl (fun ms m => insertMember m.1 m.2 ms) [])

mutual

/-- The value of a draft, or the first fault in it. -/
def ofDraft : Draft → Except Fault Value
  | .fault f => .error f
  | .scalar s => .ok (.scalar s)
  | .array items stop => do
    let vs ← ofDrafts items
    match stop with
    | none => .ok (.array vs)
    | some f => .error f
  | .object members stop => do
    let vs ← ofDraftMembers members
    match stop with
    | none => .ok (ofMembers vs)
    | some f => .error f

def ofDrafts : List Draft → Except Fault (List Value)
  | [] => .ok []
  | d :: ds => do return (← ofDraft d) :: (← ofDrafts ds)

def ofDraftMembers : List (Text × Draft) → Except Fault (List (Text × Value))
  | [] => .ok []
  | (key, d) :: ds => do return (key, ← ofDraft d) :: (← ofDraftMembers ds)

end

/-- The value of a text. -/
def ofText (t : Text) : Except Fault Value := do
  let (d, hasMore) := Draft.ofText t
  let v ← ofDraft d
  if hasMore then .error .trailingCharacters else .ok v

/-- The member of an object with a key. -/
def get? (v : Value) (key : Text) : Option Value :=
  match v with
  | .object members => (members.find? fun m => m.1 = key).map (·.2)
  | _ => none

mutual

/-- The value as a draft. -/
def draft : Value → Draft
  | .scalar s => .scalar s
  | .array items => .array (drafts items) none
  | .object members => .object (memberDrafts members) none

def drafts : List Value → List Draft
  | [] => []
  | v :: vs => draft v :: drafts vs

def memberDrafts : List (Text × Value) → List (Text × Draft)
  | [] => []
  | (key, v) :: vs => (key, draft v) :: memberDrafts vs

end

end Value

end Json

end ProcedureGen
