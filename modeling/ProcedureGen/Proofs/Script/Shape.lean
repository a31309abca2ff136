import ProcedureGen.Proofs.Script.Brackets

/-!
# Shapes of trees

What a tree looks like follows from the phrase that it is read for, wherever that is.

* `ReadAs`: a tree that is read for a phrase, at some place of some text;
* `ReadAs.seq`, `ReadAs.either` and the like: what the tree of a phrase is made of;
* `ReadAs.depthIn`: the brackets in it;
* `Phrase.opensIn`, `ReadAs.opens`: the token that it starts with.
-/

namespace ProcedureGen
namespace Script

/-- A rule is read as its phrase, with the rules in it one level further down. -/
theorem Grammar.read_inv {g : Grammar} {d : Dialect} {depth : Nat} {r : Rule} {c c' : Cursor}
    {tree : Tree} (h : g.read d depth r c = some (tree, c')) :
    ∃ below, (g r).read d below (g.read d below) c = some (tree, c') := by
  cases depth with
  | zero => cases h
  | succ below => exact ⟨below, h⟩

/-- A tree that is read for a phrase of the language, at some depth and from some place on. -/
def ReadAs (d : Dialect) (p : Phrase) (tree : Tree) : Prop :=
  ∃ depth c c', p.read d depth ((grammar d).read d depth) c = some (tree, c')

namespace ReadAs

variable {d : Dialect} {p q : Phrase} {tree : Tree} {k : Node}

theorem empty (h : ReadAs d .empty tree) : tree = .empty := by
  rcases h with ⟨depth, c, c', h⟩
  exact (Phrase.read_empty_iff.1 h).1

theorem sameLine (h : ReadAs d .sameLine tree) : tree = .empty := by
  rcases h with ⟨depth, c, c', h⟩
  exact (Phrase.read_sameLine_iff.1 h).2.1

theorem absent (h : ReadAs d (.absent p) tree) : tree = .empty := by
  rcases h with ⟨depth, c, c', h⟩
  exact (Phrase.read_absent_iff.1 h).2.1

/-- What another dialect alone has is never read. -/
theorem not_only_false : ¬ ReadAs d (.only false p) tree := by
  rintro ⟨depth, c, c', h⟩
  cases (Phrase.read_absent_iff.1 h).1

theorem seq (h : ReadAs d (.seq p q) tree) :
    ∃ t u, tree = .cat t u ∧ ReadAs d p t ∧ ReadAs d q u := by
  rcases h with ⟨depth, c, c', h⟩
  rcases Phrase.read_seq_iff.1 h with ⟨t, c₁, u, hfirst, hsecond, rfl⟩
  exact ⟨t, u, rfl, ⟨_, _, _, hfirst⟩, ⟨_, _, _, hsecond⟩⟩

theorem either (h : ReadAs d (.either p q) tree) : ReadAs d p tree ∨ ReadAs d q tree := by
  rcases h with ⟨depth, c, c', h⟩
  rcases Phrase.read_either_iff.1 h with hfirst | ⟨-, hsecond⟩
  · exact .inl ⟨_, _, _, hfirst⟩
  · exact .inr ⟨_, _, _, hsecond⟩

theorem optional (h : ReadAs d (.optional p) tree) : ReadAs d p tree ∨ tree = .empty := by
  rcases h with ⟨depth, c, c', h⟩
  rcases Phrase.read_optional_iff.1 h with hread | ⟨-, htree, -⟩
  · exact .inl ⟨_, _, _, hread⟩
  · exact .inr htree

theorem node (h : ReadAs d (.node k p) tree) : ∃ t, tree = .node k t ∧ ReadAs d p t := by
  rcases h with ⟨depth, c, c', h⟩
  rcases Phrase.read_node_iff.1 h with ⟨t, hread, rfl⟩
  exact ⟨t, rfl, _, _, _, hread⟩

theorem rule {r : Rule} (h : ReadAs d (.rule r) tree) : ReadAs d (grammar d r) tree := by
  rcases h with ⟨depth, c, c', h⟩
  rcases Grammar.read_inv h with ⟨below, hread⟩
  exact ⟨below, c, c', hread⟩

theorem token {t : Terminal} (h : ReadAs d (.token t) tree) :
    ∃ token, tree = .leaf token ∧ token.kind.mark? = t.mark? := by
  rcases h with ⟨depth, c, c', h⟩
  exact Terminal.accept_mark h

theorem mark {m : Punctuator} (h : ReadAs d (Grammar.mark m) tree) :
    ∃ token, tree = .leaf token ∧ token.kind = .punctuator m := by
  rcases h with ⟨depth, c, c', h⟩
  exact Terminal.accept_punctuator h

theorem word {w : Keyword} (h : ReadAs d (Grammar.word w) tree) :
    ∃ token, tree = .leaf token ∧ token.kind = .keyword w := by
  rcases h with ⟨depth, c, c', h⟩
  exact Terminal.accept_keyword h

/-- The brackets in a tree are those that stand in its phrase. -/
theorem depthIn {b : Brackets} {n m : Nat} (hd : ∀ r, (grammar d r).depthIn b 0 = some 0)
    (hp : p.depthIn b n = some m) (h : ReadAs d p tree) : b.depth n tree.tokens = some m := by
  rcases h with ⟨depth, c, c', h⟩
  exact Phrase.read_depthIn (Grammar.read_depthIn hd d depth) hp h

end ReadAs

/-! ## First tokens -/

/-- A tree that starts with a token whose mark, if it is one, passes a test. -/
def Tree.Opens (test : Option Punctuator → Bool) (tree : Tree) : Prop :=
  ∃ token rest, tree.tokens = token :: rest ∧ test token.kind.mark? = true

/-- Whether what a phrase reads always starts with a token, and with one that passes a test, if the
same holds of some rules. -/
def Phrase.opensIn (test : Option Punctuator → Bool) (rules : List Rule) : Phrase → Bool
  | .token t => test t.mark?
  | .seq p q => p.opensIn test rules || (p = .empty && q.opensIn test rules)
  | .either p q => p.opensIn test rules && q.opensIn test rules
  | .node _ p => p.opensIn test rules
  | .rule r => rules.contains r
  | _ => false

section Opens

variable {d : Dialect} {test : Option Punctuator → Bool} {rules : List Rule} {p : Phrase}
  {tree : Tree}

theorem Phrase.read_opens {bound : Nat} {readRule : Rule → Cursor → Reading} {c c' : Cursor}
    (hrule : ∀ r ∈ rules, ∀ c tree c', readRule r c = some (tree, c') → tree.Opens test)
    (hp : p.opensIn test rules = true) (h : p.read d bound readRule c = some (tree, c')) :
    tree.Opens test := by
  induction p generalizing c tree c' with
  | token t =>
      rcases Terminal.accept_mark h with ⟨token, rfl, hmark⟩
      exact ⟨token, [], rfl, hmark ▸ hp⟩
  | seq p q ihp ihq =>
      rcases read_seq_iff.1 h with ⟨t, c₁, u, hfirst, hsecond, rfl⟩
      simp only [opensIn, Bool.or_eq_true, Bool.and_eq_true, decide_eq_true_eq] at hp
      rcases hp with hp | ⟨rfl, hq⟩
      · rcases ihp hp hfirst with ⟨token, rest, htokens, htest⟩
        exact ⟨token, rest ++ u.tokens, by simp [htokens], htest⟩
      · obtain rfl := (read_empty_iff.1 hfirst).1
        rcases ihq hq hsecond with ⟨token, rest, htokens, htest⟩
        exact ⟨token, rest, by simp [htokens], htest⟩
  | either p q ihp ihq =>
      simp only [opensIn, Bool.and_eq_true] at hp
      rcases read_either_iff.1 h with hfirst | ⟨-, hsecond⟩
      · exact ihp hp.1 hfirst
      · exact ihq hp.2 hsecond
  | node k p ih =>
      rcases read_node_iff.1 h with ⟨t, hread, rfl⟩
      have hopens : t.Opens test := ih hp hread
      exact hopens
  | rule r => exact hrule r (by simpa [opensIn] using hp) c tree c' h
  | _ => cases hp

/-- Rules whose phrases open with a token, one of them in front of another, do so. -/
theorem ReadAs.opens (hrules : ∀ r ∈ rules, (grammar d r).opensIn test rules = true)
    (hp : p.opensIn test rules = true) (h : ReadAs d p tree) : tree.Opens test := by
  have hgrammar : ∀ depth, ∀ r ∈ rules, ∀ c tree c',
      (grammar d).read d depth r c = some (tree, c') → tree.Opens test := by
    intro depth
    induction depth with
    | zero =>
        intro r _ c tree c' h
        cases h
    | succ depth ih => exact fun r hr c tree c' h => Phrase.read_opens ih (hrules r hr) h
  rcases h with ⟨depth, c, c', h⟩
  exact Phrase.read_opens (hgrammar depth) hp h

end Opens

end Script
end ProcedureGen
