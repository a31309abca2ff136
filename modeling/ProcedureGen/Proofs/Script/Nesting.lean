import ProcedureGen.Proofs.Script.Brackets

/-!
# Braces

The braces of a script close in the order in which they open.  Only braces that are tokens of their
own count: those in strings, templates, regular expressions and comments belong to other tokens or
to gaps.

* `braceDepth`: how many braces are open behind some tokens;
* `Phrase.depthBehind`: the same for what a phrase reads;
* `Tree.Nested`: the body of every function in a tree ends where its first brace closes;
* `Phrase.read_depth`, `Grammar.read_depth`: what balanced phrases read is balanced;
* `Phrase.read_nested`, `Grammar.read_nested`: and its bodies are nested.
-/

namespace ProcedureGen
namespace Script

/-! ## Counting braces -/

/-- The number of open braces behind a token, unless it closes one that has not been opened. -/
def Kind.braceStep (k : Kind) (n : Nat) : Option Nat :=
  match k with
  | .punctuator .braceOpen => some (n + 1)
  | .punctuator .braceClose => if n = 0 then none else some (n - 1)
  | _ => some n

/-- The number of open braces behind some tokens, if `n` are open in front of them and no other is
closed. -/
def braceDepth : Nat → List Token → Option Nat
  | n, [] => some n
  | n, t :: ts => (t.kind.braceStep n).bind fun m => braceDepth m ts

theorem braceDepth_cons (n : Nat) (t : Token) (ts : List Token) :
    braceDepth n (t :: ts) = (t.kind.braceStep n).bind fun m => braceDepth m ts := rfl

theorem Kind.braceStep_eq (k : Kind) (n : Nat) :
    k.braceStep n = Brackets.braces.step k.mark? n := by
  cases k with
  | punctuator p => cases p <;> rfl
  | _ => rfl

/-- Braces are counted like any brackets. -/
theorem braceDepth_eq (n : Nat) (ts : List Token) :
    braceDepth n ts = Brackets.braces.depth n ts := by
  induction ts generalizing n with
  | nil => rfl
  | cons t ts ih =>
      rw [braceDepth_cons, Brackets.depth_cons, t.kind.braceStep_eq]
      exact Option.bind_congr fun m _ => ih m

/-! ## Depth behind phrases -/

namespace Phrase

/-- The number of open braces behind a phrase, if all its ways lead to the same one and each closes
only what it has opened. -/
def depthBehind : Phrase → Nat → Option Nat
  | .token (.punctuator .braceOpen), n => some (n + 1)
  | .token (.punctuator .braceClose), n => if n = 0 then none else some (n - 1)
  | .seq p q, n => (p.depthBehind n).bind q.depthBehind
  | .either p q, n => if q.depthBehind n = p.depthBehind n then p.depthBehind n else none
  | .optional p, n => if p.depthBehind n = some n then some n else none
  | .many p, n => if p.depthBehind n = some n then some n else none
  | .notBefore p _, n => p.depthBehind n
  | .node _ p, n => p.depthBehind n
  | .suffixed _ p q, n =>
    (p.depthBehind n).bind fun m => if q.depthBehind m = some m then some m else none
  | _, n => some n

/-- A phrase of something between two braces, balanced in itself. -/
def isBalancedBlock : Phrase → Bool
  | .seq (.token (.punctuator .braceOpen)) (.seq p (.token (.punctuator .braceClose))) =>
    p.depthBehind 0 == some 0
  | _ => false

/-- Whether a phrase builds bodies from balanced blocks only. -/
def isNesting : Phrase → Bool
  | .seq p q => p.isNesting && q.isNesting
  | .either p q => p.isNesting && q.isNesting
  | .optional p => p.isNesting
  | .many p => p.isNesting
  | .notBefore p _ => p.isNesting
  | .node k p => (k ≠ .body || p.isBalancedBlock) && p.isNesting
  | .suffixed k p q => k ≠ .body && p.isNesting && q.isNesting
  | _ => true

end Phrase

/-- Every rule of the language closes the braces that it opens, -/
theorem grammar_depthBehind (d : Dialect) (r : Rule) : (grammar d r).depthBehind 0 = some 0 := by
  revert r
  cases d <;> decide +kernel

/-- and so does what stands in the body of a function. -/
theorem grammar_isNesting (d : Dialect) (r : Rule) : (grammar d r).isNesting = true := by
  revert r
  cases d <;> decide +kernel

/-! ## Balanced readings -/

/-- A reading of a tree in which every brace closes. -/
def Balancing (read : Cursor → Reading) : Prop :=
  ∀ c tree c', read c = some (tree, c') → braceDepth 0 tree.tokens = some 0

theorem balancing_iff {read : Cursor → Reading} : Balancing read ↔ BalancedIn .braces read := by
  simp only [Balancing, BalancedIn, braceDepth_eq]

namespace Phrase

variable {d : Dialect} {bound : Nat} {readRule : Rule → Cursor → Reading} {p : Phrase}
variable {c c' : Cursor} {tree : Tree} {n m : Nat}

theorem depthBehind_eq (p : Phrase) (n : Nat) : p.depthBehind n = p.depthIn .braces n := by
  induction p generalizing n with
  | token t =>
      cases t with
      | punctuator q => cases q <;> rfl
      | _ => rfl
  | seq p q ihp ihq =>
      rw [depthBehind, depthIn, ihp]
      exact Option.bind_congr fun m _ => ihq m
  | either p q ihp ihq => rw [depthBehind, depthIn, ihp, ihq]
  | optional p ih | many p ih => rw [depthBehind, depthIn, ih]
  | notBefore p q ih => exact ih n
  | node k p ih => exact ih n
  | suffixed k p q ihp ihq =>
      rw [depthBehind, depthIn, ihp]
      exact Option.bind_congr fun m _ => by rw [ihq]
  | _ => rfl

/-- The braces of what a phrase reads are those that stand in the phrase, if the rules in it read
balanced trees. -/
theorem read_depth (hrule : ∀ r, Balancing (readRule r)) (hp : p.depthBehind n = some m)
    (h : p.read d bound readRule c = some (tree, c')) : braceDepth n tree.tokens = some m := by
  rw [braceDepth_eq]
  exact read_depthIn (fun r => balancing_iff.1 (hrule r)) (p.depthBehind_eq n ▸ hp) h

end Phrase

/-- What a grammar of balanced rules reads is balanced. -/
theorem Grammar.read_depth {g : Grammar} (hg : ∀ r, (g r).depthBehind 0 = some 0) (d : Dialect)
    (depth : Nat) (r : Rule) : Balancing (g.read d depth r) :=
  balancing_iff.2 (Grammar.read_depthIn (fun r => (g r).depthBehind_eq 0 ▸ hg r) d depth r)

/-! ## Nested bodies -/

namespace Tree

/-- A block whose braces are a pair: what stands between them closes what it opens. -/
def IsPair : Tree → Prop
  | .cat (.leaf opening) (.cat inner (.leaf closing)) =>
    opening.kind = .punctuator .braceOpen ∧ closing.kind = .punctuator .braceClose ∧
      braceDepth 0 inner.tokens = some 0
  | _ => False

theorem IsPair.exists_eq {t : Tree} (h : t.IsPair) :
    ∃ opening inner closing, t = .cat (.leaf opening) (.cat inner (.leaf closing)) ∧
      opening.kind = .punctuator .braceOpen ∧ closing.kind = .punctuator .braceClose ∧
      braceDepth 0 inner.tokens = some 0 := by
  unfold IsPair at h
  split at h
  next opening inner closing => exact ⟨opening, inner, closing, rfl, h⟩
  · exact h.elim

/-- Whether the braces of all bodies of functions in a tree are pairs. -/
def Nested : Tree → Prop
  | .empty => True
  | .leaf _ => True
  | .cat a b => a.Nested ∧ b.Nested
  | .node k a => (k = .body → a.IsPair) ∧ a.Nested

end Tree

/-- A reading of trees with nested bodies. -/
def Nesting (read : Cursor → Reading) : Prop :=
  ∀ c tree c', read c = some (tree, c') → tree.Nested

namespace Phrase

variable {d : Dialect} {bound : Nat} {readRule : Rule → Cursor → Reading} {p : Phrase}

theorem isBalancedBlock_iff : p.isBalancedBlock = true ↔
    ∃ q, p = .seq (.token (.punctuator .braceOpen))
      (.seq q (.token (.punctuator .braceClose))) ∧ q.depthBehind 0 = some 0 := by
  constructor
  · intro h
    unfold isBalancedBlock at h
    split at h
    next q => exact ⟨q, rfl, by simpa using h⟩
    · cases h
  · rintro ⟨q, rfl, hq⟩
    simp [isBalancedBlock, hq]

theorem isPair_of_read (hrule : ∀ r, Balancing (readRule r)) (hp : p.isBalancedBlock = true)
    {tree : Tree} {c c' : Cursor} (h : p.read d bound readRule c = some (tree, c')) :
    tree.IsPair := by
  rcases isBalancedBlock_iff.1 hp with ⟨q, rfl, hq⟩
  rcases read_seq_iff.1 h with ⟨t, c₁, u, hopen, hrest, rfl⟩
  rcases read_seq_iff.1 hrest with ⟨v, c₂, w, hinner, hclose, rfl⟩
  rcases Terminal.accept_punctuator hopen with ⟨opening, rfl, hopening⟩
  rcases Terminal.accept_punctuator hclose with ⟨closing, rfl, hclosing⟩
  exact ⟨hopening, hclosing, read_depth hrule hq hinner⟩

/-- The bodies of what a nesting phrase reads are nested, if those of the rules in it are. -/
theorem read_nested (hbalanced : ∀ r, Balancing (readRule r)) (hrule : ∀ r, Nesting (readRule r))
    (hp : p.isNesting = true) : Nesting (p.read d bound readRule) := by
  intro c tree c' h
  induction p generalizing c tree c' with
  | empty =>
      rcases read_empty_iff.1 h with ⟨rfl, -⟩
      trivial
  | token t =>
      rcases Terminal.accept_mark h with ⟨token, rfl, -⟩
      trivial
  | sameLine =>
      rcases read_sameLine_iff.1 h with ⟨-, rfl, -⟩
      trivial
  | seq p q ihp ihq =>
      simp only [isNesting, Bool.and_eq_true] at hp
      rcases read_seq_iff.1 h with ⟨t, c₁, u, hfirst, hsecond, rfl⟩
      exact ⟨ihp hp.1 c t c₁ hfirst, ihq hp.2 c₁ u c' hsecond⟩
  | either p q ihp ihq =>
      simp only [isNesting, Bool.and_eq_true] at hp
      rcases read_either_iff.1 h with hfirst | ⟨-, hsecond⟩
      · exact ihp hp.1 c tree c' hfirst
      · exact ihq hp.2 c tree c' hsecond
  | optional p ih =>
      rcases read_optional_iff.1 h with hread | ⟨-, rfl, -⟩
      · exact ih hp c tree c' hread
      · trivial
  | many p ih =>
      have hempty : Tree.empty.Nested := trivial
      exact readMany_invariant hempty
        (fun done c t c' hdone hread => ⟨hdone, ih hp c t c' hread⟩) (read_many_iff.1 h)
  | absent p =>
      rcases read_absent_iff.1 h with ⟨-, rfl, -⟩
      trivial
  | notBefore p q ihp => exact ihp hp c tree c' (read_notBefore_iff.1 h).1
  | node k p ih =>
      simp only [isNesting, Bool.and_eq_true, Bool.or_eq_true, decide_eq_true_eq] at hp
      rcases read_node_iff.1 h with ⟨t, hread, rfl⟩
      exact ⟨fun hk => isPair_of_read hbalanced (hp.1.resolve_left (· hk)) hread,
        ih hp.2 c t c' hread⟩
  | suffixed k p q ihp ihq =>
      simp only [isNesting, Bool.and_eq_true, decide_eq_true_eq] at hp
      rcases read_suffixed_iff.1 h with ⟨hfirst, -⟩ | ⟨t, c₁, u, hfirst, hsecond, rfl⟩
      · exact ihp hp.1.2 c tree c' hfirst
      · exact ⟨fun hk => absurd hk hp.1.1, ihp hp.1.2 c t c₁ hfirst, ihq hp.2 c₁ u c' hsecond⟩
  | rule r => exact hrule r c tree c' h

end Phrase

/-- What a grammar of balanced and nesting rules reads has nested bodies. -/
theorem Grammar.read_nested {g : Grammar} (hdepth : ∀ r, (g r).depthBehind 0 = some 0)
    (hg : ∀ r, (g r).isNesting = true) (d : Dialect) (depth : Nat) (r : Rule) :
    Nesting (g.read d depth r) := by
  induction depth generalizing r with
  | zero =>
      intro c tree c' h
      cases h
  | succ depth ih =>
      exact Phrase.read_nested (fun r => Grammar.read_depth hdepth d depth r) ih (hg r)

end Script
end ProcedureGen
