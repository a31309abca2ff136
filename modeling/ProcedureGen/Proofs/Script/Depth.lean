import ProcedureGen.Proofs.Script.Phrase
import ProcedureGen.Proofs.Script.Reading
import ProcedureGen.Script.Module

/-!
# The bound on the depth

Rules stand in rules, and a reading bounds how deep.  The bound does not matter: between two tokens
rules nest a few times only, and no repetition goes on without a token.

* `Phrase.mayBeEmpty`, `Phrase.heads`: the phrases that need no token, and the rules that may begin
  a phrase;
* `Rule.rank`: a bound on the rules that nest in front of one token;
* `Behind`, `Advances`: what is read stands at the front of a text;
* `SameRules`, `Phrase.read_bound_eq`: a phrase is read in one way, if the rules that it meets are;
* `Grammar.read_depth_eq`, `Phrase.read_depth_eq`: any two bounds that are large enough agree.
-/

namespace ProcedureGen
namespace Script

/-! ## Phrases in front of tokens -/

namespace Phrase

/-- Whether a phrase may be read without a token in front of the end of the text. -/
def mayBeEmpty : Phrase → Bool
  | .empty => true
  | .token t => t = .endOfText
  | .sameLine => true
  | .seq p q => p.mayBeEmpty && q.mayBeEmpty
  | .either p q => p.mayBeEmpty || q.mayBeEmpty
  | .optional _ => true
  | .many _ => true
  | .absent p => p ≠ .empty
  | .notBefore p _ => p.mayBeEmpty
  | .node _ p => p.mayBeEmpty
  | .suffixed _ p _ => p.mayBeEmpty
  | .rule r => r = .attributes

/-- The rules that may be read where a phrase begins. -/
def heads : Phrase → List Rule
  | .empty => []
  | .token _ => []
  | .sameLine => []
  | .seq p q => p.heads ++ if p.mayBeEmpty then q.heads else []
  | .either p q => p.heads ++ q.heads
  | .optional p => p.heads
  | .many p => p.heads
  | .absent p => p.heads
  | .notBefore p q => p.heads ++ if p.mayBeEmpty then q.heads else []
  | .node _ p => p.heads
  | .suffixed _ p q => p.heads ++ if p.mayBeEmpty then q.heads else []
  | .rule r => [r]

/-- Whether every repetition in a phrase takes a token each time. -/
def isProductive : Phrase → Bool
  | .seq p q => p.isProductive && q.isProductive
  | .either p q => p.isProductive && q.isProductive
  | .optional p => p.isProductive
  | .many p => !p.mayBeEmpty && p.isProductive
  | .absent p => p.isProductive
  | .notBefore p q => p.isProductive && q.isProductive
  | .node _ p => p.isProductive
  | .suffixed _ p q => p.isProductive && q.isProductive
  | _ => true

end Phrase

namespace Rule

/-- How many rules may nest in front of a token, from a rule on. -/
def rank : Rule → Nat
  | .moduleItem => 10
  | .item => 9
  | .statement | .forHead => 8
  | .expression _ => 7
  | .assignment _ | .returnType _ => 6
  | .operand | .type _ => 5
  | .unary | .unionType _ => 4
  | .bindingElement | .parameter _ | .classMember | .leftHandSide | .newCallee | .declarators _ _
  | .prefixedType _ => 3
  | .bindingTarget | .memberBody | .arrow _ | .primary | .property | .primaryType | .typeMember
  | .declaration => 2
  | _ => 1

theorem rank_pos (r : Rule) : 0 < r.rank := by
  cases r <;> simp [rank]

theorem rank_le (r : Rule) : r.rank ≤ 10 := by
  cases r <;> simp [rank]

end Rule

/-- A grammar in which rules nest only so often between two tokens. -/
structure Grammar.IsRanked (g : Grammar) : Prop where
  heads : ∀ r, (g r).heads.all (fun s => s.rank < r.rank) = true
  nonempty : ∀ r, r ≠ .attributes → (g r).mayBeEmpty = false
  productive : ∀ r, (g r).isProductive = true

theorem grammar_isRanked (d : Dialect) : (grammar d).IsRanked := by
  refine ⟨?_, ?_, ?_⟩ <;> cases d <;> decide +kernel

/-! ## Reading from the front -/

/-- The second text is what stands somewhere in the first one up to its end; the proposition says
when something must stand in front of it. -/
def Behind (nonempty : Prop) (x y : Text) : Prop := ∃ z, x = z ++ y ∧ (nonempty → z ≠ [])

namespace Behind

variable {p q r : Prop} {x y z : Text}

theorem refl (hp : ¬ p) (x : Text) : Behind p x x := ⟨[], rfl, fun h => absurd h hp⟩

theorem mono (h : Behind p x y) (hqp : q → p) : Behind q x y := by
  rcases h with ⟨w, hx, hw⟩
  exact ⟨w, hx, fun hq => hw (hqp hq)⟩

/-- Of two steps one must take something. -/
theorem trans (h : Behind p x y) (h' : Behind q y z) (hr : r → p ∨ q) : Behind r x z := by
  rcases h with ⟨v, rfl, hv⟩
  rcases h' with ⟨w, rfl, hw⟩
  refine ⟨v ++ w, by simp, fun hr' hnil => ?_⟩
  rcases List.append_eq_nil_iff.1 hnil with ⟨hv', hw'⟩
  rcases hr hr' with hp | hq
  · exact hv hp hv'
  · exact hw hq hw'

theorem length_le (h : Behind p x y) : y.length ≤ x.length := by
  rcases h with ⟨w, rfl, -⟩
  simp

theorem length_lt (h : Behind True x y) : y.length < x.length := by
  rcases h with ⟨w, rfl, hw⟩
  have hpos := List.length_pos_iff.2 (hw trivial)
  rw [List.length_append]
  omega

/-- Nothing has been taken, or something has. -/
theorem eq_or_behind (h : Behind p x y) : ¬ p ∧ y = x ∨ Behind True x y := by
  rcases h with ⟨w, rfl, hw⟩
  by_cases hnil : w = []
  · exact .inl ⟨fun hp => hw hp hnil, by simp [hnil]⟩
  · exact .inr ⟨w, rfl, fun _ => hnil⟩

end Behind

/-- What is read stands at the front of a text. -/
def Advances (nonempty : Prop) (read : Cursor → Reading) : Prop :=
  ∀ x tree c, read (.ofText x) = some (tree, c) → ∃ y, c = .ofText y ∧ Behind nonempty x y

namespace Terminal

variable {d : Dialect} {t : Terminal} {c c' : Cursor} {tree : Tree}

theorem accept_advances (d : Dialect) (t : Terminal) : Advances (t ≠ .endOfText) (t.accept d) := by
  intro x tree c h
  rcases accept_inv h with ⟨token, y, -, rfl, htakes⟩
  refine ⟨y, rfl, ?_⟩
  by_cases ht : t = .endOfText
  · subst ht
    cases htakes with
    | plain =>
        refine ⟨(Token.scan x).1.gap ++ (Token.scan x).1.raw, ?_, fun hne => absurd rfl hne⟩
        rw [List.append_assoc]
        exact Token.scan_split rfl
    | part ht => simp at ht
  · rcases htakes.exists_goal ht with ⟨goal, hscan⟩
    have hsettled := Goal.scan_settled hscan
    refine ⟨token.gap ++ token.raw, by rw [hsettled.split, List.append_assoc], fun _ hnil => ?_⟩
    exact hsettled.firm.ne_nil (List.append_eq_nil_iff.1 hnil).2

end Terminal

namespace Phrase

variable {d : Dialect} {bound : Nat} {readRule : Rule → Cursor → Reading} {p : Phrase}

theorem readMany_advances {readOne : Cursor → Reading} {nonempty : Prop}
    (hone : Advances nonempty readOne) (bound : Nat) {done tree : Tree} {x : Text} {c : Cursor}
    (h : readMany readOne bound done (.ofText x) = (tree, c)) :
    ∃ y, c = .ofText y ∧ Behind False x y := by
  induction bound generalizing x done with
  | zero => exact ⟨x, ((Prod.mk.inj h).2).symm, .refl id x⟩
  | succ bound ih =>
      simp only [readMany] at h
      split at h
      · exact ⟨x, ((Prod.mk.inj h).2).symm, .refl id x⟩
      next t c' hread =>
        rcases hone x t c' hread with ⟨y, rfl, hy⟩
        rcases ih h with ⟨z, rfl, hz⟩
        exact ⟨z, rfl, hy.trans hz False.elim⟩

/-- A phrase reads from the front of a text, if the rules in it do. -/
theorem read_advances (hrule : ∀ r, Advances (r ≠ .attributes) (readRule r)) (p : Phrase) :
    Advances (p.mayBeEmpty = false) (p.read d bound readRule) := by
  induction p with
  | empty =>
      intro x tree c h
      rcases read_empty_iff.1 h with ⟨-, rfl⟩
      exact ⟨x, rfl, .refl (by simp [mayBeEmpty]) x⟩
  | token t =>
      intro x tree c h
      rcases Terminal.accept_advances d t x tree c h with ⟨y, hc, hy⟩
      exact ⟨y, hc, hy.mono (by simp [mayBeEmpty])⟩
  | sameLine =>
      intro x tree c h
      rcases read_sameLine_iff.1 h with ⟨-, -, rfl⟩
      exact ⟨x, rfl, .refl (by simp [mayBeEmpty]) x⟩
  | seq p q ihp ihq =>
      intro x tree c h
      rcases read_seq_iff.1 h with ⟨t, c₁, u, hfirst, hsecond, -⟩
      rcases ihp x t c₁ hfirst with ⟨y, rfl, hy⟩
      rcases ihq y u c hsecond with ⟨z, rfl, hz⟩
      exact ⟨z, rfl, hy.trans hz (by simp only [mayBeEmpty, Bool.and_eq_false_imp]; grind)⟩
  | either p q ihp ihq =>
      intro x tree c h
      simp only [mayBeEmpty, Bool.or_eq_false_iff]
      rcases read_either_iff.1 h with hfirst | ⟨-, hsecond⟩
      · rcases ihp x tree c hfirst with ⟨y, hc, hy⟩
        exact ⟨y, hc, hy.mono And.left⟩
      · rcases ihq x tree c hsecond with ⟨y, hc, hy⟩
        exact ⟨y, hc, hy.mono And.right⟩
  | optional p ih =>
      intro x tree c h
      rcases read_optional_iff.1 h with hread | ⟨-, -, rfl⟩
      · rcases ih x tree c hread with ⟨y, hc, hy⟩
        exact ⟨y, hc, hy.mono (by simp [mayBeEmpty])⟩
      · exact ⟨x, rfl, .refl (by simp [mayBeEmpty]) x⟩
  | many p ih =>
      intro x tree c h
      rcases readMany_advances ih bound (read_many_iff.1 h) with ⟨y, hc, hy⟩
      exact ⟨y, hc, hy.mono (by simp [mayBeEmpty])⟩
  | absent p =>
      intro x tree c h
      -- Only the empty phrase may never be absent, and it never is.
      rcases read_absent_iff.1 h with ⟨hnone, -, rfl⟩
      refine ⟨x, rfl, .refl (fun hempty => ?_) x⟩
      obtain rfl : p = .empty := by simpa [mayBeEmpty] using hempty
      cases hnone
  | notBefore p q ihp => exact fun x tree c h => ihp x tree c (read_notBefore_iff.1 h).1
  | node k p ih =>
      intro x tree c h
      rcases read_node_iff.1 h with ⟨t, hread, -⟩
      exact ih x t c hread
  | suffixed k p q ihp ihq =>
      intro x tree c h
      rcases read_suffixed_iff.1 h with ⟨hread, -⟩ | ⟨t, c₁, u, hfirst, hsecond, -⟩
      · exact ihp x tree c hread
      · rcases ihp x t c₁ hfirst with ⟨y, rfl, hy⟩
        rcases ihq y u c hsecond with ⟨z, rfl, hz⟩
        exact ⟨z, rfl, hy.trans hz .inl⟩
  | rule r =>
      intro x tree c h
      rcases hrule r x tree c h with ⟨y, hc, hy⟩
      exact ⟨y, hc, hy.mono (by simp [mayBeEmpty])⟩

end Phrase

theorem Grammar.read_advances {g : Grammar} (hg : g.IsRanked) (d : Dialect) (depth : Nat)
    (r : Rule) : Advances (r ≠ .attributes) (g.read d depth r) := by
  induction depth generalizing r with
  | zero =>
      intro x tree c h
      cases h
  | succ depth ih =>
      intro x tree c h
      rcases Phrase.read_advances ih (g r) x tree c h with ⟨y, hc, hy⟩
      exact ⟨y, hc, hy.mono (hg.nonempty r)⟩

/-! ## Two bounds -/

/-- Two ways to read rules agree on some rules where a text begins, and on all behind that. -/
structure SameRules (readRule readRule' : Rule → Cursor → Reading) (rules : List Rule) (x : Text) :
    Prop where
  front : ∀ r ∈ rules, readRule r (.ofText x) = readRule' r (.ofText x)
  behind : ∀ r y, Behind True x y → readRule r (.ofText y) = readRule' r (.ofText y)

namespace SameRules

variable {readRule readRule' : Rule → Cursor → Reading} {rules more : List Rule} {x y : Text}

theorem mono (h : SameRules readRule readRule' rules x) (hsub : ∀ r ∈ more, r ∈ rules) :
    SameRules readRule readRule' more x := ⟨fun r hr => h.front r (hsub r hr), h.behind⟩

theorem drop (h : SameRules readRule readRule' rules x) (hy : Behind True x y) :
    SameRules readRule readRule' more y :=
  ⟨fun r _ => h.behind r y hy, fun r z hz => h.behind r z (hy.trans hz .inl)⟩

end SameRules

namespace Phrase

variable {d : Dialect} {bound bound' : Nat} {readRule readRule' : Rule → Cursor → Reading}
  {p q : Phrase} {x : Text}

/-- Two phrases, one behind the other, are read in one way, if the first is, and the second in every
text that is no longer. -/
theorem readPair_bound_eq (hrule : ∀ r, Advances (r ≠ .attributes) (readRule r))
    (hp : p.read d bound readRule (.ofText x) = p.read d bound' readRule' (.ofText x))
    (hq : ∀ y : Text, y.length ≤ x.length → SameRules readRule readRule' q.heads y →
      q.read d bound readRule (.ofText y) = q.read d bound' readRule' (.ofText y))
    (h : SameRules readRule readRule' (p.heads ++ if p.mayBeEmpty then q.heads else []) x) :
    readPair d bound readRule p q (.ofText x) = readPair d bound' readRule' p q (.ofText x) := by
  simp only [readPair, ← hp]
  refine Option.map_congr fun r hread => ?_
  rcases read_advances hrule p x r.1 r.2 hread with ⟨y, hc, hy⟩
  have hsecond : q.read d bound readRule (.ofText y) = q.read d bound' readRule' (.ofText y) := by
    refine hq y hy.length_le ?_
    rcases hy.eq_or_behind with ⟨hempty, rfl⟩ | hbehind
    · exact h.mono fun r hr => List.mem_append_right _ (by rwa [if_pos (by simpa using hempty)])
    · exact h.drop hbehind
  rw [hc, hsecond]

/-- Repetitions that take a token each agree, if they may go on long enough. -/
theorem readMany_bound_eq {readOne readOne' : Cursor → Reading} (hone : Advances True readOne)
    (hsame : ∀ y, Behind False x y → readOne (.ofText y) = readOne' (.ofText y))
    (hbound : x.length < bound) (hbound' : x.length < bound') (done : Tree) :
    readMany readOne bound done (.ofText x) = readMany readOne' bound' done (.ofText x) := by
  induction bound generalizing x bound' done with
  | zero => omega
  | succ bound ih =>
      obtain ⟨bound', rfl⟩ : ∃ n, bound' = n + 1 := ⟨bound' - 1, by omega⟩
      simp only [readMany]
      rw [← hsame x (.refl id x)]
      cases hread : readOne (.ofText x) with
      | none => rfl
      | some r =>
          rcases hone x r.1 r.2 hread with ⟨y, hc, hy⟩
          have hlt := hy.length_lt
          dsimp only
          rw [hc]
          exact ih (fun z hz => hsame z (hy.trans hz False.elim)) (by omega) (by omega) _

/-- A phrase is read in one way, if the rules that it meets are and its repetitions may go on long
enough. -/
theorem read_bound_eq (hrule : ∀ r, Advances (r ≠ .attributes) (readRule r))
    (hp : p.isProductive = true) (h : SameRules readRule readRule' p.heads x)
    (hbound : x.length < bound) (hbound' : x.length < bound') :
    p.read d bound readRule (.ofText x) = p.read d bound' readRule' (.ofText x) := by
  induction p generalizing x with
  | empty => rfl
  | token t => rfl
  | sameLine => rfl
  | seq p q ihp ihq =>
      simp only [isProductive, Bool.and_eq_true] at hp
      have hfirst := ihp hp.1 (h.mono fun r hr => List.mem_append_left _ hr) hbound hbound'
      have hpair := readPair_bound_eq hrule hfirst
        (fun y hy hq => ihq hp.2 hq (by omega) (by omega)) h
      rw [read_seq_eq, hpair, ← read_seq_eq]
  | either p q ihp ihq =>
      simp only [isProductive, Bool.and_eq_true] at hp
      simp only [read]
      rw [ihp hp.1 (h.mono fun r hr => List.mem_append_left _ hr) hbound hbound',
        ihq hp.2 (h.mono fun r hr => List.mem_append_right _ hr) hbound hbound']
  | optional p ih =>
      simp only [read]
      rw [ih hp h hbound hbound']
  | many p ih =>
      simp only [isProductive, Bool.and_eq_true, Bool.not_eq_true'] at hp
      have hone : Advances True (p.read d bound readRule) := by
        intro y tree c hread
        rcases read_advances hrule p y tree c hread with ⟨z, hc, hz⟩
        exact ⟨z, hc, hz.mono fun _ => hp.1⟩
      simp only [read]
      rw [readMany_bound_eq hone (fun y hy => ?_) hbound hbound']
      rcases hy.eq_or_behind with ⟨-, rfl⟩ | hbehind
      · exact ih hp.2 h hbound hbound'
      · have hlt := hbehind.length_lt
        exact ih hp.2 (h.drop hbehind) (by omega) (by omega)
  | absent p ih =>
      simp only [read]
      rw [ih hp h hbound hbound']
  | notBefore p q ihp ihq =>
      simp only [isProductive, Bool.and_eq_true] at hp
      have hfirst := ihp hp.1 (h.mono fun r hr => List.mem_append_left _ hr) hbound hbound'
      have hpair := readPair_bound_eq hrule hfirst
        (fun y hy hq => ihq hp.2 hq (by omega) (by omega)) h
      rw [read_notBefore_eq, hpair, ← read_notBefore_eq]
  | node k p ih =>
      simp only [read]
      rw [ih hp h hbound hbound']
  | suffixed k p q ihp ihq =>
      simp only [isProductive, Bool.and_eq_true] at hp
      have hfirst := ihp hp.1 (h.mono fun r hr => List.mem_append_left _ hr) hbound hbound'
      have hpair := readPair_bound_eq hrule hfirst
        (fun y hy hq => ihq hp.2 hq (by omega) (by omega)) h
      rw [read_suffixed_eq, hpair, ← read_suffixed_eq]
  | rule r => exact h.front r (by simp [heads])

end Phrase

/-- A rule is read in one way with every bound that is large enough for its text. -/
theorem Grammar.read_depth_eq {g : Grammar} (hg : g.IsRanked) (d : Dialect) {depth depth' : Nat}
    {r : Rule} {x : Text} (hdepth : 11 * x.length + r.rank < depth)
    (hdepth' : 11 * x.length + r.rank < depth') :
    g.read d depth r (.ofText x) = g.read d depth' r (.ofText x) := by
  -- Each rule at the front of a text has a smaller rank, and behind the front the text is shorter.
  induction hn : 11 * x.length + r.rank using Nat.strong_induction_on
    generalizing depth depth' r x with
  | _ n ih =>
    obtain ⟨bound, rfl⟩ : ∃ k, depth = k + 1 := ⟨depth - 1, by omega⟩
    obtain ⟨bound', rfl⟩ : ∃ k, depth' = k + 1 := ⟨depth' - 1, by omega⟩
    have hpos := r.rank_pos
    refine Phrase.read_bound_eq (read_advances hg d bound) (hg.productive r)
      ⟨fun s hs => ?_, fun s y hy => ?_⟩ (by omega) (by omega)
    · have hlt : s.rank < r.rank := by simpa using List.all_eq_true.1 (hg.heads r) s hs
      exact ih _ (by omega) (by omega) (by omega) rfl
    · have hlt := hy.length_lt
      have hle := s.rank_le
      exact ih _ (by omega) (by omega) (by omega) rfl

/-- A phrase is read in one way with every bound that is large enough for its text, -/
theorem Phrase.read_depth_eq (d : Dialect) {p : Phrase} (hp : p.isProductive = true) {x : Text}
    {depth depth' : Nat} (hdepth : 11 * (x.length + 1) ≤ depth)
    (hdepth' : 11 * (x.length + 1) ≤ depth') :
    p.read d depth ((grammar d).read d depth) (.ofText x) =
      p.read d depth' ((grammar d).read d depth') (.ofText x) := by
  have hrules : ∀ r y, Behind False x y → (grammar d).read d depth r (.ofText y) =
      (grammar d).read d depth' r (.ofText y) := by
    intro r y hy
    have hle := hy.length_le
    have hrank := r.rank_le
    exact Grammar.read_depth_eq (grammar_isRanked d) d (by omega) (by omega)
  exact Phrase.read_bound_eq (Grammar.read_advances (grammar_isRanked d) d depth) hp
    ⟨fun r _ => hrules r x (.refl id x), fun r y hy => hrules r y (hy.mono False.elim)⟩
    (by omega) (by omega)

/-- and so is a module. -/
theorem Module.read_depth_eq (d : Dialect) {x : Text} {depth depth' : Nat}
    (hdepth : 11 * (x.length + 1) ≤ depth) (hdepth' : 11 * (x.length + 1) ≤ depth') :
    phrase.read d depth ((grammar d).read d depth) (.ofText x) =
      phrase.read d depth' ((grammar d).read d depth') (.ofText x) :=
  Phrase.read_depth_eq d rfl hdepth hdepth'

end Script
end ProcedureGen
