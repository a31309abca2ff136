import ProcedureGen.Proofs.Script.Phrase
import ProcedureGen.Proofs.Script.Rescan
import ProcedureGen.Script.Grammar

/-!
# Reading trees

A tree that the grammar reads off a text holds the tokens of that text, one by one.

* `Phrase.isRegular`: a phrase takes no end of the text;
* `Covers`: a tree has been read off the front of a text;
* `Phrase.read_faithful`, `Grammar.read_faithful`: what regular phrases read covers the text.
-/

namespace ProcedureGen
namespace Script

/-! ## Trees and their tokens -/

namespace Tree

theorem tokensThen_eq (t : Tree) (rest : List Token) : t.tokensThen rest = t.tokens ++ rest := by
  induction t generalizing rest with
  | empty => rfl
  | leaf token => rfl
  | cat a b iha ihb =>
      have hboth : (cat a b).tokens = a.tokens ++ (b.tokens ++ []) := by
        rw [tokens, tokensThen, iha, ihb]
      rw [hboth, tokensThen, iha, ihb]
      simp
  | node k a ih => exact ih rest

@[simp] theorem tokens_empty : empty.tokens = [] := rfl

@[simp] theorem tokens_leaf (token : Token) : (leaf token).tokens = [token] := rfl

@[simp] theorem tokens_cat (a b : Tree) : (cat a b).tokens = a.tokens ++ b.tokens := by
  rw [tokens, tokensThen, tokensThen_eq, tokensThen_eq, List.append_nil]

@[simp] theorem tokens_node (k : Node) (a : Tree) : (node k a).tokens = a.tokens := rfl

end Tree

/-! ## Regular phrases -/

namespace Phrase

/-- Whether a phrase never takes the end of the text. -/
def isRegular : Phrase → Bool
  | .empty => true
  | .token t => t ≠ .endOfText
  | .sameLine => true
  | .seq p q => p.isRegular && q.isRegular
  | .either p q => p.isRegular && q.isRegular
  | .optional p => p.isRegular
  | .many p => p.isRegular
  | .absent _ => true
  | .notBefore p _ => p.isRegular
  | .node _ p => p.isRegular
  | .suffixed _ p q => p.isRegular && q.isRegular
  | .rule _ => true

end Phrase

/-- Every rule of the language is regular: there are finitely many, and each is checked. -/
theorem grammar_isRegular (d : Dialect) (r : Rule) : (grammar d r).isRegular = true := by
  revert r
  cases d <;> decide +kernel

/-! ## Reading a tree off a text -/

namespace Leads

variable {x y z : Text} {ts us : List Token} {goals more : List Goal}

theorem append (h : Leads goals x ts y) (h' : Leads more y us z) :
    Leads (goals ++ more) x (ts ++ us) z := by
  induction h with
  | nil x => exact h'
  | cons hscan _ ih => exact .cons hscan (ih h')

theorem cons_inv {t : Token} (h : Leads goals x (t :: ts) z) :
    ∃ (goal : Goal) (more : List Goal) (y : Text),
      goal.scan x = some (t, y) ∧ Leads more y ts z := by
  cases h with
  | cons hscan hleads => exact ⟨_, _, _, hscan, hleads⟩

theorem split (h : Leads goals x (ts ++ us) z) :
    ∃ before behind y, Leads before x ts y ∧ Leads behind y us z := by
  induction ts generalizing goals x with
  | nil => exact ⟨[], goals, x, .nil x, h⟩
  | cons t ts ih =>
      rcases h.cons_inv with ⟨goal, more, y, hscan, hleads⟩
      rcases ih hleads with ⟨before, behind, z, hbefore, hbehind⟩
      exact ⟨_, behind, z, .cons hscan hbefore, hbehind⟩

end Leads

/-- A tree has been read off the front of a text. -/
def Covers (x : Text) (tree : Tree) (y : Text) : Prop := ∃ goals, Leads goals x tree.tokens y

namespace Covers

variable {x y z : Text} {tree left right : Tree}

theorem empty (x : Text) : Covers x .empty x := ⟨[], .nil x⟩

theorem leaf (goal : Goal) {token : Token} (h : goal.scan x = some (token, y)) :
    Covers x (.leaf token) y := ⟨[goal], .cons h (.nil y)⟩

theorem cat (h : Covers x left y) (h' : Covers y right z) : Covers x (.cat left right) z := by
  rcases h with ⟨goals, hleads⟩
  rcases h' with ⟨more, hleads'⟩
  exact ⟨goals ++ more, Tree.tokens_cat left right ▸ hleads.append hleads'⟩

theorem node (h : Covers x tree y) (k : Node) : Covers x (.node k tree) y := h

end Covers

/-- What is read off a text, if anything, covers it up to the cursor behind. -/
def Faithful (read : Cursor → Reading) : Prop :=
  ∀ x tree c, read (.ofText x) = some (tree, c) → ∃ y, c = .ofText y ∧ Covers x tree y

namespace Terminal

variable {d : Dialect} {t : Terminal} {k : Kind} {x : Text} {tree : Tree} {c : Cursor}

/-- No class but its own takes the end of the text, and none takes what is no token. -/
theorem valid_of_matchesKind (h : t.matchesKind d k = true) (ht : t ≠ .endOfText) :
    k ≠ .invalid ∧ k ≠ .endOfText := by
  constructor
  · rintro rfl
    cases t <;> simp [matchesKind] at h
  · rintro rfl
    cases t <;> simp_all [matchesKind]

/-- A token that a class takes is scanned with the goal that the class sets. -/
theorem Takes.exists_goal {token : Token} {y : Text} (h : Takes d (.ofText x) t token y)
    (ht : t ≠ .endOfText) : ∃ goal : Goal, goal.scan x = some (token, y) := by
  cases h with
  | plain hmatches =>
      rcases valid_of_matchesKind hmatches ht with ⟨hvalid, hend⟩
      exact ⟨.plain, Goal.scan_plain.2 ⟨rfl, hvalid, hend⟩⟩
  | regex hscan => exact ⟨.regex, hscan⟩
  | templateRest hscan _ => exact ⟨.templateRest, hscan⟩
  | @part _ p q _ hkind hpart =>
      replace hkind : (Token.scan x).1.kind = .punctuator q := hkind
      refine ⟨.part p, ?_⟩
      simp only [Goal.scan, hkind, hpart, if_true]
      rfl

/-- A class reads one token off a text. -/
theorem accept_faithful (d : Dialect) (ht : t ≠ .endOfText) : Faithful (t.accept d) := by
  intro x tree c h
  rcases accept_inv h with ⟨token, y, rfl, rfl, htakes⟩
  rcases htakes.exists_goal ht with ⟨goal, hscan⟩
  exact ⟨y, rfl, .leaf goal hscan⟩

/-- A mark is one leaf, -/
theorem accept_punctuator {p : Punctuator} {c c' : Cursor}
    (h : accept d (.punctuator p) c = some (tree, c')) :
    ∃ token, tree = .leaf token ∧ token.kind = .punctuator p := by
  rcases accept_inv h with ⟨token, rest, rfl, -, htakes⟩
  refine ⟨token, rfl, ?_⟩
  cases htakes with
  | plain hmatches => cases hkind : c.token.kind <;> simp_all [matchesKind]
  | part ht => simp at ht

/-- so is a keyword, -/
theorem accept_keyword {w : Keyword} {c c' : Cursor}
    (h : accept d (.keyword w) c = some (tree, c')) :
    ∃ token, tree = .leaf token ∧ token.kind = .keyword w := by
  rcases accept_inv h with ⟨token, rest, rfl, -, htakes⟩
  refine ⟨token, rfl, ?_⟩
  cases htakes with
  | plain hmatches => cases hkind : c.token.kind <;> simp_all [matchesKind]
  | part ht => simp at ht

/-- and so is the end of the text. -/
theorem accept_endOfText {c c' : Cursor} (h : accept d .endOfText c = some (tree, c')) :
    ∃ token, tree = .leaf token := by
  rcases accept_inv h with ⟨token, -, htree, -⟩
  exact ⟨token, htree⟩

end Terminal

namespace Phrase

variable {d : Dialect} {bound : Nat} {readRule : Rule → Cursor → Reading} {p : Phrase}

theorem readMany_faithful {readOne : Cursor → Reading} (hone : Faithful readOne) (bound : Nat)
    {x y : Text} {done tree : Tree} {c : Cursor} (hdone : Covers x done y)
    (h : readMany readOne bound done (.ofText y) = (tree, c)) :
    ∃ z, c = .ofText z ∧ Covers x tree z := by
  induction bound generalizing y done with
  | zero =>
      rcases Prod.mk.inj h with ⟨rfl, rfl⟩
      exact ⟨y, rfl, hdone⟩
  | succ bound ih =>
      simp only [readMany] at h
      split at h
      · rcases Prod.mk.inj h with ⟨rfl, rfl⟩
        exact ⟨y, rfl, hdone⟩
      next t c' hread =>
        rcases hone y t c' hread with ⟨z, rfl, hcovers⟩
        exact ih (hdone.cat hcovers) h

/-- What a regular phrase reads covers the text, if what the rules in it read does. -/
theorem read_faithful (hrule : ∀ r, Faithful (readRule r)) (hp : p.isRegular = true) :
    Faithful (p.read d bound readRule) := by
  intro x tree c h
  induction p generalizing x tree c with
  | empty =>
      rcases read_empty_iff.1 h with ⟨rfl, rfl⟩
      exact ⟨x, rfl, .empty x⟩
  | token t => exact Terminal.accept_faithful d (by simpa [isRegular] using hp) x tree c h
  | sameLine =>
      rcases read_sameLine_iff.1 h with ⟨-, rfl, rfl⟩
      exact ⟨x, rfl, .empty x⟩
  | seq p q ihp ihq =>
      simp only [isRegular, Bool.and_eq_true] at hp
      rcases read_seq_iff.1 h with ⟨t, c', u, hfirst, hsecond, rfl⟩
      rcases ihp hp.1 x t c' hfirst with ⟨y, rfl, hcovers⟩
      rcases ihq hp.2 y u c hsecond with ⟨z, rfl, hcovers'⟩
      exact ⟨z, rfl, hcovers.cat hcovers'⟩
  | either p q ihp ihq =>
      simp only [isRegular, Bool.and_eq_true] at hp
      rcases read_either_iff.1 h with hfirst | ⟨-, hsecond⟩
      · exact ihp hp.1 x tree c hfirst
      · exact ihq hp.2 x tree c hsecond
  | optional p ih =>
      rcases read_optional_iff.1 h with hread | ⟨-, rfl, rfl⟩
      · exact ih hp x tree c hread
      · exact ⟨x, rfl, .empty x⟩
  | many p ih => exact readMany_faithful (ih hp) bound (.empty x) (read_many_iff.1 h)
  | absent p =>
      rcases read_absent_iff.1 h with ⟨-, rfl, rfl⟩
      exact ⟨x, rfl, .empty x⟩
  | notBefore p q ihp => exact ihp hp x tree c (read_notBefore_iff.1 h).1
  | node k p ih =>
      rcases read_node_iff.1 h with ⟨t, hread, rfl⟩
      rcases ih hp x t c hread with ⟨y, rfl, hcovers⟩
      exact ⟨y, rfl, hcovers.node k⟩
  | suffixed k p q ihp ihq =>
      simp only [isRegular, Bool.and_eq_true] at hp
      rcases read_suffixed_iff.1 h with ⟨hread, -⟩ | ⟨t, c', u, hfirst, hsecond, rfl⟩
      · exact ihp hp.1 x tree c hread
      · rcases ihp hp.1 x t c' hfirst with ⟨y, rfl, hcovers⟩
        rcases ihq hp.2 y u c hsecond with ⟨z, rfl, hcovers'⟩
        exact ⟨z, rfl, (hcovers.cat hcovers').node k⟩
  | rule r => exact hrule r x tree c h

end Phrase

/-- What a regular grammar reads covers the text. -/
theorem Grammar.read_faithful {g : Grammar} (hg : ∀ r, (g r).isRegular = true) (d : Dialect)
    (depth : Nat) (r : Rule) : Faithful (g.read d depth r) := by
  induction depth generalizing r with
  | zero =>
      intro x tree c h
      cases h
  | succ depth ih => exact Phrase.read_faithful ih (hg r)

end Script
end ProcedureGen
