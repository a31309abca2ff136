import ProcedureGen.Script.Phrase

/-!
# How phrases are read

One equivalence for each form of a phrase: what it reads, and where it reads nothing.

* `Rule.all`: the rules, of which there are finitely many;
* `Terminal.Takes`, `Terminal.accept_inv`: the ways in which a class takes a token;
* `Phrase.read_seq_iff`, `Phrase.read_either_iff` and the like: when a phrase gives a tree;
* `Phrase.readPair`: two phrases, the second tried behind the first;
* `Phrase.readMany_invariant`: what every repetition keeps.
-/

namespace ProcedureGen
namespace Script

/-! ## Rules -/

/-- All rules, each with all its flags. -/
def Rule.all : List Rule :=
  [.bindingTarget, .arrayPattern, .objectPattern, .bindingElement, .body, .functionDeclaration,
    .functionExpression, .classDeclaration, .classExpression, .classMember, .memberBody, .key,
    .operand, .unary, .leftHandSide, .newCallee, .primary, .arguments, .object, .array, .property,
    .item, .statement, .block, .forHead, .moduleItem, .importClause, .attributes, .primaryType,
    .typeArguments, .typeMembers, .typeMember, .typeMark, .entityName, .declaration, .enumeration,
    .interface, .typeAlias, .namespace, .namespaceBody] ++
  [true, false].flatMap fun flag =>
    [.parameters flag, .parameter flag, .expression flag, .assignment flag, .arrow flag,
      .template flag, .type flag, .returnType flag, .unionType flag, .prefixedType flag] ++
    [true, false].flatMap fun other => [.declarators flag other, .typeParameters flag other]

theorem Rule.mem_all (r : Rule) : r ∈ all := by
  cases r with
  | declarators flag other | typeParameters flag other => cases flag <;> cases other <;> decide
  | parameters flag | parameter flag | expression flag | assignment flag | arrow flag
  | template flag | type flag | returnType flag | unionType flag | prefixedType flag =>
      cases flag <;> decide
  | _ => decide

/-- What holds of every rule can be checked rule by rule. -/
instance {P : Rule → Prop} [DecidablePred P] : Decidable (∀ r, P r) :=
  decidable_of_iff (∀ r ∈ Rule.all, P r) ⟨fun h r => h r r.mem_all, fun h r _ => h r⟩

/-! ## Tokens -/

namespace Terminal

variable {d : Dialect} {t : Terminal} {c c' : Cursor} {tree : Tree}

/-- A class takes the next token of a cursor as it was scanned, or scans it once more, or takes a
part of it and leaves the rest. -/
inductive Takes (d : Dialect) (c : Cursor) : Terminal → Token → Text → Prop where
  | plain {t : Terminal} (h : t.matchesKind d c.token.kind = true) : Takes d c t c.token c.rest
  | regex {token : Token} {rest : Text} (h : Token.scanRegex c.token c.rest = some (token, rest)) :
      Takes d c .regex token rest
  | templateRest {part : TemplatePart} {tagged : Bool} {token : Token} {rest : Text}
      (h : Token.scanTemplateRest c.token c.rest = some (token, rest))
      (hkind : matchesKind d (.template part tagged) token.kind = true) :
      Takes d c (.templateRest part tagged) token rest
  | part {t : Terminal} {p q : Punctuator}
      (ht : t = .openAngle ∧ p = .less ∨ t = .closeAngle ∧ p = .greater)
      (hkind : c.token.kind = .punctuator q) (hpart : p.spelling.isPrefixOf q.spelling = true) :
      Takes d c t { c.token with kind := .punctuator p, raw := p.spelling }
        (c.token.raw.drop p.spelling.length ++ c.rest)

theorem accept_inv (h : t.accept d c = some (tree, c')) :
    ∃ token rest, tree = .leaf token ∧ c' = .ofText rest ∧ Takes d c t token rest := by
  have htake : ∀ {token : Token} {rest : Text}, some (Cursor.take token rest) = some (tree, c') →
      Takes d c t token rest →
      ∃ token rest, tree = .leaf token ∧ c' = .ofText rest ∧ Takes d c t token rest := by
    intro token rest heq htakes
    obtain ⟨rfl, rfl⟩ := Prod.mk.inj (Option.some.inj heq)
    exact ⟨token, rest, rfl, rfl, htakes⟩
  unfold accept at h
  split at h
  · rcases Option.map_eq_some_iff.1 h with ⟨⟨token, rest⟩, hscan, heq⟩
    exact htake (congrArg some heq) (.regex hscan)
  · split at h
    next token rest hscan =>
      split at h
      next hkind => exact htake h (.templateRest hscan hkind)
      · cases h
    · cases h
  · split at h
    case h_1 hkind | h_2 hkind => exact htake h (.part (.inl ⟨rfl, rfl⟩) hkind (by decide))
    · cases h
  · split at h
    case h_1 hkind | h_2 hkind | h_3 hkind | h_4 hkind | h_5 hkind | h_6 hkind =>
      exact htake h (.part (.inr ⟨rfl, rfl⟩) hkind (by decide))
    · cases h
  · split at h
    next hkind => exact htake h (.plain hkind)
    · cases h

end Terminal

/-! ## Phrases -/

namespace Phrase

variable {d : Dialect} {bound : Nat} {readRule : Rule → Cursor → Reading} {p q : Phrase}
variable {k : Node} {c c' : Cursor} {tree : Tree}

attribute [local simp] read

theorem read_empty_iff :
    (Phrase.empty).read d bound readRule c = some (tree, c') ↔ tree = .empty ∧ c' = c := by
  simp [eq_comm]

theorem read_sameLine_iff :
    (Phrase.sameLine).read d bound readRule c = some (tree, c') ↔
      c.token.onNewLine = false ∧ tree = .empty ∧ c' = c := by
  simp only [read]
  cases c.token.onNewLine <;> simp [eq_comm]

theorem read_seq_iff :
    (Phrase.seq p q).read d bound readRule c = some (tree, c') ↔
      ∃ t c₁ u, p.read d bound readRule c = some (t, c₁) ∧
        q.read d bound readRule c₁ = some (u, c') ∧ tree = .cat t u := by
  simp only [read]
  cases hp : p.read d bound readRule c with
  | none => simp
  | some r => cases hq : q.read d bound readRule r.2 <;> grind

theorem read_either_iff :
    (Phrase.either p q).read d bound readRule c = some (tree, c') ↔
      p.read d bound readRule c = some (tree, c') ∨
        p.read d bound readRule c = none ∧ q.read d bound readRule c = some (tree, c') := by
  simp only [read]
  cases hp : p.read d bound readRule c <;> simp

theorem read_optional_iff :
    (Phrase.optional p).read d bound readRule c = some (tree, c') ↔
      p.read d bound readRule c = some (tree, c') ∨
        p.read d bound readRule c = none ∧ tree = .empty ∧ c' = c := by
  simp only [read]
  cases hp : p.read d bound readRule c <;> simp [eq_comm]

theorem read_many_iff :
    (Phrase.many p).read d bound readRule c = some (tree, c') ↔
      readMany (fun c => p.read d bound readRule c) bound .empty c = (tree, c') := by
  simp

theorem read_absent_iff :
    (Phrase.absent p).read d bound readRule c = some (tree, c') ↔
      p.read d bound readRule c = none ∧ tree = .empty ∧ c' = c := by
  simp only [read]
  cases hp : p.read d bound readRule c <;> simp [eq_comm]

theorem read_notBefore_iff :
    (Phrase.notBefore p q).read d bound readRule c = some (tree, c') ↔
      p.read d bound readRule c = some (tree, c') ∧ q.read d bound readRule c' = none := by
  simp only [read]
  cases hp : p.read d bound readRule c with
  | none => simp
  | some r => cases hq : q.read d bound readRule r.2 <;> grind

theorem read_node_iff :
    (Phrase.node k p).read d bound readRule c = some (tree, c') ↔
      ∃ t, p.read d bound readRule c = some (t, c') ∧ tree = .node k t := by
  simp only [read]
  cases hp : p.read d bound readRule c with
  | none => simp
  | some r => grind

theorem read_suffixed_iff :
    (Phrase.suffixed k p q).read d bound readRule c = some (tree, c') ↔
      p.read d bound readRule c = some (tree, c') ∧ q.read d bound readRule c' = none ∨
        ∃ t c₁ u, p.read d bound readRule c = some (t, c₁) ∧
          q.read d bound readRule c₁ = some (u, c') ∧ tree = .node k (.cat t u) := by
  simp only [read]
  cases hp : p.read d bound readRule c with
  | none => simp
  | some r => cases hq : q.read d bound readRule r.2 <;> grind

/-- What a phrase reads, and what another one reads behind it. -/
def readPair (d : Dialect) (bound : Nat) (readRule : Rule → Cursor → Reading) (p q : Phrase)
    (c : Cursor) : Option (Tree × Cursor × Reading) :=
  (p.read d bound readRule c).map fun (t, c') => (t, c', q.read d bound readRule c')

theorem read_seq_eq :
    (Phrase.seq p q).read d bound readRule c =
      (readPair d bound readRule p q c).bind fun (t, _, second) =>
        second.map fun (u, c') => (.cat t u, c') := by
  simp only [read, readPair]
  cases p.read d bound readRule c with
  | none => rfl
  | some r => cases hq : q.read d bound readRule r.2 <;> simp [hq]

theorem read_notBefore_eq :
    (Phrase.notBefore p q).read d bound readRule c =
      (readPair d bound readRule p q c).bind fun (t, c', second) =>
        if second.isSome then none else some (t, c') := by
  simp only [read, readPair]
  cases p.read d bound readRule c with
  | none => rfl
  | some r => cases hq : q.read d bound readRule r.2 <;> simp [hq]

theorem read_suffixed_eq :
    (Phrase.suffixed k p q).read d bound readRule c =
      (readPair d bound readRule p q c).map fun (t, c', second) =>
        match second with
        | none => (t, c')
        | some (u, c'') => (.node k (.cat t u), c'') := by
  simp only [read, readPair]
  cases p.read d bound readRule c with
  | none => rfl
  | some r => cases hq : q.read d bound readRule r.2 <;> simp [hq]

/-- What one more repetition keeps, all repetitions keep. -/
theorem readMany_invariant {readOne : Cursor → Reading} {P : Tree → Prop} {done : Tree}
    (hdone : P done)
    (hone : ∀ done c tree c', P done → readOne c = some (tree, c') → P (.cat done tree))
    (h : readMany readOne bound done c = (tree, c')) : P tree := by
  induction bound generalizing done c with
  | zero =>
      obtain rfl := (Prod.mk.inj h).1
      exact hdone
  | succ bound ih =>
      simp only [readMany] at h
      split at h
      · obtain rfl := (Prod.mk.inj h).1
        exact hdone
      next t c₁ hread => exact ih (hone done c t c₁ hdone hread) h

end Phrase
end Script
end ProcedureGen
