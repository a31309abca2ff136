import ProcedureGen.Proofs.Script.Phrase
import ProcedureGen.Proofs.Script.Reading

/-!
# Brackets

Two marks of a script, one of which closes what the other one opens.  Only marks that are tokens of
their own count: those in strings, templates, regular expressions and comments belong to other
tokens or to gaps.

* `Brackets.depth`: how many brackets are open behind some tokens;
* `BracketPair`: two brackets among the tokens of a script that are a pair;
* `Phrase.depthIn`: how many brackets are open behind what a phrase reads;
* `Phrase.read_depthIn`, `Grammar.read_depthIn`: what balanced phrases read is balanced.
-/

namespace ProcedureGen
namespace Script

/-! ## Counting brackets -/

/-- The mark that a token is, if it is one. -/
def Kind.mark? : Kind → Option Punctuator
  | .punctuator p => some p
  | _ => none

/-- Two marks, the second of which closes what the first one opens. -/
structure Brackets where
  opening : Punctuator
  closing : Punctuator

namespace Brackets

def braces : Brackets := ⟨.braceOpen, .braceClose⟩

def parens : Brackets := ⟨.parenOpen, .parenClose⟩

/-- The number of open brackets behind a token, unless it closes one that has not been opened. -/
def step (b : Brackets) (mark : Option Punctuator) (n : Nat) : Option Nat :=
  if mark = some b.opening then some (n + 1)
  else if mark = some b.closing then (if n = 0 then none else some (n - 1))
  else some n

/-- The number of open brackets behind some tokens, if `n` are open in front of them and no other is
closed. -/
def depth (b : Brackets) : Nat → List Token → Option Nat
  | n, [] => some n
  | n, t :: ts => (b.step t.kind.mark? n).bind fun m => b.depth m ts

variable {b : Brackets} {mark : Option Punctuator} {n m : Nat} {ts us : List Token}

@[simp] theorem depth_nil (b : Brackets) (n : Nat) : b.depth n [] = some n := rfl

theorem depth_cons (b : Brackets) (n : Nat) (t : Token) (ts : List Token) :
    b.depth n (t :: ts) = (b.step t.kind.mark? n).bind fun m => b.depth m ts := rfl

theorem depth_append (b : Brackets) (n : Nat) (ts us : List Token) :
    b.depth n (ts ++ us) = (b.depth n ts).bind fun m => b.depth m us := by
  induction ts generalizing n with
  | nil => rfl
  | cons t ts ih =>
      rw [List.cons_append, depth_cons, depth_cons, Option.bind_assoc]
      exact Option.bind_congr fun m _ => ih m

/-- Brackets that are open all the time do not matter. -/
theorem step_add (h : b.step mark n = some m) (i : Nat) : b.step mark (n + i) = some (m + i) := by
  unfold step at h ⊢
  grind

theorem depth_add (h : b.depth n ts = some m) (i : Nat) : b.depth (n + i) ts = some (m + i) := by
  induction ts generalizing n with
  | nil =>
      obtain rfl := Option.some.inj h
      rfl
  | cons t ts ih =>
      rcases Option.bind_eq_some_iff.1 h with ⟨j, hj, hts⟩
      rw [depth_cons, step_add hj i]
      exact ih hts

/-- Inside a bracket nothing closes that bracket: what stands between it and some place of a
balanced text leaves it open. -/
theorem depth_inside (h : b.depth 0 (ts ++ us) = some n) : ∃ j, b.depth 1 ts = some (j + 1) := by
  rw [depth_append] at h
  rcases Option.bind_eq_some_iff.1 h with ⟨j, hj, -⟩
  exact ⟨j, depth_add hj 1⟩

end Brackets

/-! ## Pairs -/

/-- Two brackets of a script that are a pair: counted from the first one, the depth is back at zero
at the second one, and nowhere before. -/
structure BracketPair (b : Brackets) (tokens before : List Token) (opening : Token)
    (inside : List Token) (closing : Token) (after : List Token) : Prop where
  split : tokens = before ++ (opening :: inside ++ closing :: after)
  opens : opening.kind = .punctuator b.opening
  closes : closing.kind = .punctuator b.closing
  open_inside : ∀ us, us <+: inside → ∃ n, b.depth 0 (opening :: us) = some (n + 1)
  closed : b.depth 0 (opening :: inside ++ [closing]) = some 0

/-- Brackets around a balanced text are a pair. -/
theorem BracketPair.of_depth {b : Brackets} (hne : b.opening ≠ b.closing) {opening closing : Token}
    {before inside after : List Token} (hopens : opening.kind = .punctuator b.opening)
    (hcloses : closing.kind = .punctuator b.closing) (hdepth : b.depth 0 inside = some 0) :
    BracketPair b (before ++ (opening :: inside ++ closing :: after)) before opening inside closing
      after := by
  have hopening : ∀ us, b.depth 0 (opening :: us) = b.depth 1 us := by
    intro us
    rw [Brackets.depth_cons, hopens, Kind.mark?, Brackets.step, if_pos rfl]
    rfl
  have hclosing : b.step closing.kind.mark? 1 = some 0 := by
    rw [hcloses, Kind.mark?, Brackets.step, if_neg (by simpa using hne.symm), if_pos rfl]
    rfl
  refine ⟨rfl, hopens, hcloses, ?_, ?_⟩
  · rintro us ⟨vs, rfl⟩
    rw [hopening]
    exact Brackets.depth_inside hdepth
  · rw [List.cons_append, hopening, Brackets.depth_append, Brackets.depth_add hdepth 1,
      Option.bind_some, Brackets.depth_cons, hclosing]
    rfl

/-! ## Depth behind phrases -/

/-- The mark that a class of tokens asks for, if it takes no other token. -/
def Terminal.mark? : Terminal → Option Punctuator
  | .punctuator p => some p
  | .openAngle => some .less
  | .closeAngle => some .greater
  | _ => none

namespace Phrase

/-- The number of open brackets behind a phrase, if all its ways lead to the same one and each
closes only what it has opened. -/
def depthIn (b : Brackets) : Phrase → Nat → Option Nat
  | .token t, n => b.step t.mark? n
  | .seq p q, n => (p.depthIn b n).bind (q.depthIn b)
  | .either p q, n => if q.depthIn b n = p.depthIn b n then p.depthIn b n else none
  | .optional p, n => if p.depthIn b n = some n then some n else none
  | .many p, n => if p.depthIn b n = some n then some n else none
  | .notBefore p _, n => p.depthIn b n
  | .node _ p, n => p.depthIn b n
  | .suffixed _ p q, n =>
    (p.depthIn b n).bind fun m => if q.depthIn b m = some m then some m else none
  | _, n => some n

end Phrase

/-- Every rule of the language closes the parentheses that it opens. -/
theorem grammar_depthIn_parens (d : Dialect) (r : Rule) :
    (grammar d r).depthIn .parens 0 = some 0 := by
  revert r
  cases d <;> decide +kernel

namespace Terminal

variable {d : Dialect} {t : Terminal} {k : Kind} {c c' : Cursor} {tree : Tree}

theorem mark?_of_matchesKind (h : t.matchesKind d k = true) : k.mark? = t.mark? := by
  unfold matchesKind at h
  split at h
  case h_2 p q =>
    obtain rfl : p = q := of_decide_eq_true h
    rfl
  all_goals first | rfl | cases h

/-- A class takes one token, and a mark only where it asks for it. -/
theorem accept_mark (h : t.accept d c = some (tree, c')) :
    ∃ token, tree = .leaf token ∧ token.kind.mark? = t.mark? := by
  rcases accept_inv h with ⟨token, rest, rfl, -, htakes⟩
  refine ⟨token, rfl, ?_⟩
  cases htakes with
  | plain hmatches => exact mark?_of_matchesKind hmatches
  | regex hscan =>
      rcases Option.map_eq_some_iff.1 hscan with ⟨l, -, heq⟩
      obtain ⟨rfl, -⟩ := Prod.mk.inj heq
      rfl
  | templateRest _ hmatches => exact (mark?_of_matchesKind hmatches).trans rfl
  | part ht => rcases ht with ⟨rfl, rfl⟩ | ⟨rfl, rfl⟩ <;> rfl

end Terminal

/-! ## Balanced readings -/

/-- A reading of a tree in which every bracket closes. -/
def BalancedIn (b : Brackets) (read : Cursor → Reading) : Prop :=
  ∀ c tree c', read c = some (tree, c') → b.depth 0 tree.tokens = some 0

namespace Phrase

variable {b : Brackets} {d : Dialect} {bound : Nat} {readRule : Rule → Cursor → Reading}
  {p q : Phrase} {c c' : Cursor} {tree : Tree} {n m : Nat}

/-- The brackets of what a phrase reads are those that stand in the phrase, if the rules in it read
balanced trees. -/
theorem read_depthIn (hrule : ∀ r, BalancedIn b (readRule r)) (hp : p.depthIn b n = some m)
    (h : p.read d bound readRule c = some (tree, c')) : b.depth n tree.tokens = some m := by
  induction p generalizing n m c tree c' with
  | empty =>
      rcases read_empty_iff.1 h with ⟨rfl, -⟩
      exact hp
  | token t =>
      rcases Terminal.accept_mark h with ⟨token, rfl, hmark⟩
      rw [Tree.tokens_leaf, Brackets.depth_cons, hmark, ← depthIn, hp]
      rfl
  | sameLine =>
      rcases read_sameLine_iff.1 h with ⟨-, rfl, -⟩
      exact hp
  | seq p q ihp ihq =>
      rcases read_seq_iff.1 h with ⟨t, c₁, u, hfirst, hsecond, rfl⟩
      rcases Option.bind_eq_some_iff.1 hp with ⟨j, hj, hm⟩
      rw [Tree.tokens_cat, Brackets.depth_append, ihp hj hfirst]
      exact ihq hm hsecond
  | either p q ihp ihq =>
      -- Both alternatives end at one depth.
      simp only [depthIn] at hp
      split at hp
      next hsame =>
        rcases read_either_iff.1 h with hfirst | ⟨-, hsecond⟩
        · exact ihp hp hfirst
        · exact ihq (hsame.trans hp) hsecond
      · cases hp
  | optional p ih =>
      simp only [depthIn] at hp
      split at hp
      next hsame =>
        rcases read_optional_iff.1 h with hread | ⟨-, rfl, -⟩
        · exact (ih hsame hread).trans hp
        · exact hp
      · cases hp
  | many p ih =>
      simp only [depthIn] at hp
      split at hp
      next hsame =>
        -- The depth is what the loop keeps.
        obtain rfl : n = m := Option.some.inj hp
        refine readMany_invariant (P := fun t => b.depth n t.tokens = some n) rfl ?_
          (read_many_iff.1 h)
        intro done c t c' hdone hread
        rw [Tree.tokens_cat, Brackets.depth_append, hdone]
        exact ih hsame hread
      · cases hp
  | absent p =>
      rcases read_absent_iff.1 h with ⟨-, rfl, -⟩
      exact hp
  | notBefore p q ihp => exact ihp hp (read_notBefore_iff.1 h).1
  | node k p ih =>
      rcases read_node_iff.1 h with ⟨t, hread, rfl⟩
      rw [Tree.tokens_node]
      exact ih hp hread
  | suffixed k p q ihp ihq =>
      simp only [depthIn] at hp
      rcases Option.bind_eq_some_iff.1 hp with ⟨j, hj, hm⟩
      split at hm
      next hsame =>
        obtain rfl := Option.some.inj hm
        rcases read_suffixed_iff.1 h with ⟨hfirst, -⟩ | ⟨t, c₁, u, hfirst, hsecond, rfl⟩
        · exact ihp hj hfirst
        · rw [Tree.tokens_node, Tree.tokens_cat, Brackets.depth_append, ihp hj hfirst]
          exact ihq hsame hsecond
      · cases hm
  | rule r =>
      -- What is balanced at depth zero is balanced at every depth.
      obtain rfl : n = m := Option.some.inj hp
      simpa using Brackets.depth_add (hrule r c tree c' h) n

end Phrase

/-- What a grammar of balanced rules reads is balanced. -/
theorem Grammar.read_depthIn {b : Brackets} {g : Grammar}
    (hg : ∀ r, (g r).depthIn b 0 = some 0) (d : Dialect) (depth : Nat) (r : Rule) :
    BalancedIn b (g.read d depth r) := by
  induction depth generalizing r with
  | zero =>
      intro c tree c' h
      cases h
  | succ depth ih => exact fun c tree c' h => Phrase.read_depthIn ih (hg r) h

end Script
end ProcedureGen
