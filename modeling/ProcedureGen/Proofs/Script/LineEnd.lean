import ProcedureGen.Proofs.Script.Depth
import ProcedureGen.Proofs.Script.Tree

/-!
# Line ends of a script

A script whose line feeds are written as `\r\n` is read into the same tree, with the line ends in
its tokens and between them written that way.

* `Gap.scan_crlf`, `Token.read?_crlf`, `Token.scan_crlf`, `Goal.scan_crlf`: the scanner;
* `IgnoresLineEnds`: a reading that gives the same tree;
* `Terminal.accept_crlf`, `Phrase.read_crlf`, `Grammar.read_crlf`, `Module.read_crlf`: the parser.
-/

namespace ProcedureGen
namespace Script

open Text (crlf)

variable {x y g : Text} {t : Token} {goal : Goal}

/-! ## Scanning -/

/-- The token with every line feed in it and in front of it written as `\r\n`. -/
def Token.crlf (t : Token) : Token := { t with gap := Text.crlf t.gap, raw := Text.crlf t.raw }

theorem any_isLineEnd_crlf (h : '\r' ∉ g) : (crlf g).any isLineEnd = g.any isLineEnd := by
  rw [← any_isLineEnd_lineFeeds (crlf g), Text.lineFeeds_crlf h]

theorem alike_crlf (h : '\r' ∉ x) : Alike x (crlf x) := by
  have halike := alike_lineFeeds (crlf x)
  rw [Text.lineFeeds_crlf h] at halike
  exact halike.symm

namespace Gap

def crlf (g : Gap) : Gap := { g with text := Text.crlf g.text, rest := Text.crlf g.rest }

theorem crlf_push {c : Char} (hc : c ≠ '\n') (g : Gap) : (g.push c).crlf = g.crlf.push c := by
  simp [crlf, push, Text.crlf_cons hc]

theorem crlf_push_feed (g : Gap) : (g.push '\n').crlf = (g.crlf.push '\n').push '\r' := by
  have hfeed : isLineEnd '\n' = true := by decide
  simp [crlf, push, hfeed]

/-- A line end of two characters leads where a line feed leads. -/
theorem scan_return_feed (st : GapState) (x : Text) :
    scan st ('\r' :: '\n' :: x) =
      ((scan (if st = .block then .block else .blank) x).push '\n').push '\r' := by
  cases st with
  | blank =>
      rw [scan_space (by decide), scan_space (by decide)]
      rfl
  | line =>
      rw [scan_line, if_pos (by decide), scan_space (by decide)]
      rfl
  | block =>
      rw [scan_block fun h => absurd h (by decide), scan_block fun h => absurd h (by decide)]
      rfl

/-- A text has the same gap in front with either sort of line ends. -/
theorem scan_crlf (st : GapState) (x : Text) : scan st (Text.crlf x) = (scan st x).crlf := by
  have hmark : ∀ c ∈ ['/', '*'], ∀ {t : Text}, (Text.crlf t).head? = some c → ∃ u, t = c :: u := by
    intro c hc t hhead
    have hne : c ≠ '\n' ∧ c ≠ '\r' := by
      rcases List.mem_pair.1 hc with rfl | rfl <;> decide
    exact List.head?_eq_some_iff.1 ((Text.head?_crlf hne.1 hne.2).1 hhead)
  fun_induction scan st x with
  | case1 rest ih =>
      rw [crlf_push (by decide), crlf_push (by decide), ← ih]
      rfl
  | case2 rest ih =>
      rw [crlf_push (by decide), crlf_push (by decide), ← ih]
      rfl
  | case3 c rest _ _ hc ih =>
      by_cases hfeed : c = '\n'
      · rw [hfeed, Text.crlf_feed, scan_return_feed, crlf_push_feed, ← ih]
        rfl
      · rw [Text.crlf_cons hfeed, scan_space hc, crlf_push hfeed, ih]
  | case4 c rest hline hblock hc =>
      have hfeed : c ≠ '\n' := by
        rintro rfl
        exact hc (by decide)
      -- No comment begins here, since a carriage return is neither of the marks that open one.
      have hopens : opensToken (c :: Text.crlf rest) = true := by
        refine opensToken_of_plain hc (fun u hu heq => ?_) fun u hu heq => ?_
        · rcases hmark '/' (by simp) (t := rest) (by rw [heq]; rfl) with ⟨v, hv⟩
          exact hline v hu hv
        · rcases hmark '*' (by simp) (t := rest) (by rw [heq]; rfl) with ⟨v, hv⟩
          exact hblock v hu hv
      rw [Text.crlf_cons hfeed, scan_of_opensToken hopens]
      simp [crlf, Text.crlf_cons hfeed]
  | case5 c rest hc ih =>
      by_cases hfeed : c = '\n'
      · rw [hfeed, Text.crlf_feed, scan_return_feed, crlf_push_feed, ← ih]
        rfl
      · rw [Text.crlf_cons hfeed, scan_line, if_pos hc, crlf_push hfeed, ih]
  | case6 c rest hc ih =>
      have hfeed : c ≠ '\n' := by
        rintro rfl
        exact hc (by decide)
      rw [Text.crlf_cons hfeed, scan_line, if_neg hc, crlf_push hfeed, ih]
  | case7 rest ih =>
      rw [crlf_push (by decide), crlf_push (by decide), ← ih]
      rfl
  | case8 c rest hopen ih =>
      by_cases hfeed : c = '\n'
      · rw [hfeed, Text.crlf_feed, scan_return_feed, crlf_push_feed, ← ih]
        rfl
      · have hnext : c = '*' → (Text.crlf rest).head? ≠ some '/' := by
          intro hc hhead
          rcases hmark '/' (by simp) hhead with ⟨u, rfl⟩
          exact hopen u hc rfl
        rw [Text.crlf_cons hfeed, scan_block hnext, crlf_push hfeed, ih]
  | case9 => rfl
  | case10 st hst =>
      cases st with
      | blank => rfl
      | line => rfl
      | block => exact absurd rfl hst

end Gap

def Literal.crlf (l : Literal) : Literal := ⟨Text.crlf l.raw, Text.crlf l.rest⟩

/-- A token is read off a text exactly when it is read off the text with other line ends. -/
theorem Token.read?_crlf (h : '\r' ∉ x) :
    read? (Text.crlf x) = (read? x).map fun (k, l) => (k, l.crlf) := by
  cases hread : read? x with
  | some found =>
      rcases found with ⟨k, l⟩
      by_cases hk : k = .endOfText
      · obtain ⟨rfl, rfl⟩ := (read?_kind hread).1 hk
        rw [hk]
        rfl
      · have hagain := read?_again hread hk
        rw [hagain.split, List.mem_append, not_or] at h
        rw [hagain.split, Text.crlf_append]
        exact hagain.again _ _ (.crlf h.1) (alike_crlf h.2)
  | none =>
      -- What is read off the other text would be read off this one, with the line ends undone.
      cases hback : read? (Text.crlf x) with
      | none => rfl
      | some found =>
          rcases found with ⟨k, l⟩
          have hundone := Text.lineFeeds_crlf h
          by_cases hk : k = .endOfText
          · rw [((read?_kind hback).1 hk).1] at hundone
            rw [← hundone] at hread
            cases hread
          · have hagain := read?_again hback hk
            have hlast := hagain.firm.getLast?_ne (c := '\r') (by decide)
            rw [hagain.split, Text.lineFeeds_append fun h => absurd h hlast] at hundone
            have hread' := hagain.again _ _ (.inl (.lineFeeds false l.raw)) (alike_lineFeeds l.rest)
            rw [hundone, hread] at hread'
            cases hread'

/-- A text is scanned into the same first token with either sort of line ends. -/
theorem Token.scan_crlf (h : '\r' ∉ x) :
    scan (Text.crlf x) = ((scan x).1.crlf, Text.crlf (scan x).2) := by
  have hrest : '\r' ∉ (Gap.scan .blank x).rest := by
    rw [← Gap.text_append_rest .blank x, List.mem_append, not_or] at h
    exact h.2
  unfold scan
  rw [Gap.scan_crlf]
  simp only [Gap.crlf, read?_crlf hrest]
  split
  · cases read? (Gap.scan .blank x).rest <;> rfl
  · rfl

/-- So it is with every goal. -/
theorem Goal.scan_crlf (goal : Goal) (h : '\r' ∉ x) :
    goal.scan (crlf x) = (goal.scan x).map fun (t, y) => (t.crlf, crlf y) := by
  cases hscan : goal.scan x with
  | some found =>
      rcases found with ⟨t, y⟩
      have hsettled := scan_settled hscan
      simp only [hsettled.split, List.mem_append, not_or] at h
      have hgap : Gap.pass .blank (crlf t.gap) = some .blank := by
        rw [← Gap.pass_lineFeeds, Text.lineFeeds_crlf h.1]
        exact hsettled.gap
      have hagain := hsettled.again _ _ _ hgap (.crlf h.2.1) (alike_crlf h.2.2)
      rw [any_isLineEnd_crlf h.1, ← hsettled.newLine] at hagain
      rw [hsettled.split, Text.crlf_append, Text.crlf_append]
      exact hagain
  | none =>
      -- A token of the other text would be one of this text, with the line ends undone.
      cases hback : goal.scan (crlf x) with
      | none => rfl
      | some found =>
          have hundone := Goal.scan_lineFeeds hback
          rw [Text.lineFeeds_crlf h, hscan] at hundone
          cases hundone

theorem Goal.not_mem_rest {c : Char} (h : goal.scan x = some (t, y)) (hx : c ∉ x) : c ∉ y := by
  rw [(scan_settled h).split] at hx
  exact fun hy => hx (List.mem_append_right _ (List.mem_append_right _ hy))

theorem Token.not_mem_rest {c : Char} (hx : c ∉ x) : c ∉ (scan x).2 := by
  rw [scan_split (x := x) rfl] at hx
  exact fun hy => hx (List.mem_append_right _ (List.mem_append_right _ hy))

/-! ## Reading -/

/-- The cursor in the text with other line ends. -/
def Cursor.crlf (c : Cursor) : Cursor := ⟨c.token.crlf, Text.crlf c.rest⟩

theorem Cursor.ofText_crlf (h : '\r' ∉ x) : ofText (Text.crlf x) = (ofText x).crlf := by
  simp only [ofText, Token.scan_crlf h]
  rfl

/-- What is read, with other line ends. -/
def Reading.crlf (r : Reading) : Reading := r.map fun (tree, c) => (tree.map Token.crlf, c.crlf)

@[simp] theorem Reading.crlf_none : Reading.crlf none = none := rfl

@[simp] theorem Reading.crlf_some (tree : Tree) (c : Cursor) :
    Reading.crlf (some (tree, c)) = some (tree.map Token.crlf, c.crlf) := rfl

/-- What is read off a text is read off it with other line ends as well. -/
def IgnoresLineEnds (read : Cursor → Reading) : Prop :=
  ∀ x, '\r' ∉ x → read (.ofText (crlf x)) = (read (.ofText x)).crlf

theorem Behind.not_mem {p : Prop} {c : Char} (h : Behind p x y) (hx : c ∉ x) : c ∉ y := by
  rcases h with ⟨z, rfl, -⟩
  exact fun hy => hx (List.mem_append_right z hy)

namespace Terminal

variable {d : Dialect}

theorem take_crlf (h : '\r' ∉ y) :
    some (Cursor.take t.crlf (crlf y)) = Reading.crlf (some (Cursor.take t y)) := by
  rw [Cursor.take, Cursor.ofText_crlf h]
  rfl

theorem take_scan_crlf (goal : Goal) (h : '\r' ∉ x) :
    ((goal.scan (crlf x)).map fun (t, y) => Cursor.take t y) =
      Reading.crlf ((goal.scan x).map fun (t, y) => Cursor.take t y) := by
  rw [Goal.scan_crlf goal h]
  cases hscan : goal.scan x with
  | none => rfl
  | some found => exact take_crlf (Goal.not_mem_rest hscan h)

/-- A mark is cut in the same place. -/
theorem cut_crlf {p q : Punctuator} (h : '\r' ∉ x)
    (hkind : (Token.scan x).1.kind = .punctuator q)
    (hpart : p.spelling.isPrefixOf q.spelling = true) :
    some (cut p (.ofText (crlf x))) = Reading.crlf (some (cut p (.ofText x))) := by
  have hgoal := take_scan_crlf (.part p) h
  have hkind' : (Token.scan (crlf x)).1.kind = .punctuator q := by
    rw [Token.scan_crlf h]
    exact hkind
  simp only [Goal.scan, hkind, hkind', hpart, if_true, Option.map_some] at hgoal
  exact hgoal

/-- A class takes the token that it takes with the other line ends. -/
theorem accept_crlf (d : Dialect) (t : Terminal) : IgnoresLineEnds (t.accept d) := by
  intro x hx
  have hkind : (Cursor.ofText (crlf x)).token.kind = (Cursor.ofText x).token.kind := by
    rw [Cursor.ofText_crlf hx]
    rfl
  -- Most classes look at the kind of the token at hand only.
  have hplain : ∀ t : Terminal,
      (if t.matchesKind d (Cursor.ofText (crlf x)).token.kind
        then some (Cursor.ofText (crlf x)).advance else none) =
      Reading.crlf (if t.matchesKind d (Cursor.ofText x).token.kind
        then some (Cursor.ofText x).advance else none) := by
    intro t
    rw [hkind, Cursor.ofText_crlf hx]
    split
    · exact take_crlf (Token.not_mem_rest hx)
    · rfl
  cases t with
  | regex => exact take_scan_crlf .regex hx
  | templateRest part tagged =>
      have hscan : Token.scanTemplateRest (Cursor.ofText x).token (Cursor.ofText x).rest =
          Goal.scan .templateRest x := rfl
      have hscan' : Token.scanTemplateRest (Cursor.ofText (crlf x)).token
          (Cursor.ofText (crlf x)).rest = _ := Goal.scan_crlf .templateRest hx
      simp only [accept, hscan, hscan']
      cases hfound : Goal.scan .templateRest x with
      | none => rfl
      | some found =>
          simp only [Option.map_some, Token.crlf]
          split
          · exact take_crlf (Goal.not_mem_rest hfound hx)
          · rfl
  | openAngle =>
      simp only [accept, hkind]
      split
      case h_1 hmark | h_2 hmark => exact cut_crlf hx hmark (by decide)
      · rfl
  | closeAngle =>
      simp only [accept, hkind]
      split
      case h_1 hmark | h_2 hmark | h_3 hmark | h_4 hmark | h_5 hmark | h_6 hmark =>
        exact cut_crlf hx hmark (by decide)
      · rfl
  | _ => exact hplain _

end Terminal

namespace Phrase

variable {d : Dialect} {bound : Nat} {readRule : Rule → Cursor → Reading} {p q : Phrase}

/-- Two phrases, one behind the other, are read alike, if each is read alike from the start of a
text. -/
theorem readPair_crlf (hadvance : ∀ r, Advances (r ≠ .attributes) (readRule r))
    (hp : IgnoresLineEnds (p.read d bound readRule))
    (hq : IgnoresLineEnds (q.read d bound readRule)) (hx : '\r' ∉ x) :
    readPair d bound readRule p q (.ofText (crlf x)) =
      (readPair d bound readRule p q (.ofText x)).map fun (t, c, second) =>
        (t.map Token.crlf, c.crlf, second.crlf) := by
  rw [readPair, hp x hx, readPair]
  cases hread : p.read d bound readRule (.ofText x) with
  | none => rfl
  | some found =>
      rcases found with ⟨t, c⟩
      rcases read_advances hadvance p x t c hread with ⟨y, rfl, hy⟩
      have hsecond := hq y (hy.not_mem hx)
      rw [Cursor.ofText_crlf (hy.not_mem hx)] at hsecond
      simp only [Reading.crlf_some, Option.map_some, hsecond]

theorem readMany_crlf {nonempty : Prop} {readOne : Cursor → Reading}
    (hadvance : Advances nonempty readOne) (hone : IgnoresLineEnds readOne) (bound : Nat)
    (done : Tree) (hx : '\r' ∉ x) :
    some (readMany readOne bound (done.map Token.crlf) (.ofText (crlf x))) =
      Reading.crlf (some (readMany readOne bound done (.ofText x))) := by
  induction bound generalizing x done with
  | zero =>
      rw [Cursor.ofText_crlf hx]
      rfl
  | succ bound ih =>
      simp only [readMany, hone x hx]
      cases hread : readOne (.ofText x) with
      | none =>
          rw [Cursor.ofText_crlf hx]
          rfl
      | some found =>
          rcases found with ⟨t, c⟩
          rcases hadvance x t c hread with ⟨y, rfl, hy⟩
          have hmore := ih (.cat done t) (hy.not_mem hx)
          rw [Cursor.ofText_crlf (hy.not_mem hx)] at hmore
          exact hmore

/-- A phrase is read alike with either sort of line ends, if the rules in it are. -/
theorem read_crlf (hadvance : ∀ r, Advances (r ≠ .attributes) (readRule r))
    (hrule : ∀ r, IgnoresLineEnds (readRule r)) (p : Phrase) :
    IgnoresLineEnds (p.read d bound readRule) := by
  -- What reads nothing leaves the cursor where it is.
  have hnothing : ∀ x, '\r' ∉ x →
      some (Tree.empty, Cursor.ofText (crlf x)) = Reading.crlf (some (.empty, .ofText x)) := by
    intro x hx
    rw [Cursor.ofText_crlf hx]
    rfl
  induction p with
  | empty => exact hnothing
  | token t => exact Terminal.accept_crlf d t
  | sameLine =>
      intro x hx
      have hline : (Cursor.ofText (crlf x)).token.onNewLine =
          (Cursor.ofText x).token.onNewLine := by
        rw [Cursor.ofText_crlf hx]
        rfl
      simp only [read, hline]
      split
      · rfl
      · exact hnothing x hx
  | seq p q ihp ihq =>
      intro x hx
      rw [read_seq_eq, readPair_crlf hadvance ihp ihq hx, read_seq_eq]
      rcases readPair d bound readRule p q (.ofText x) with _ | ⟨t, c, _ | ⟨u, c'⟩⟩ <;> rfl
  | either p q ihp ihq =>
      intro x hx
      simp only [read]
      rw [ihp x hx, ihq x hx]
      cases p.read d bound readRule (.ofText x) <;> rfl
  | optional p ih =>
      intro x hx
      simp only [read]
      rw [ih x hx]
      cases p.read d bound readRule (.ofText x) with
      | none => exact hnothing x hx
      | some found => rfl
  | many p ih =>
      intro x hx
      exact readMany_crlf (read_advances hadvance p) ih bound .empty hx
  | absent p ih =>
      intro x hx
      simp only [read]
      rw [ih x hx]
      cases p.read d bound readRule (.ofText x) with
      | none => exact hnothing x hx
      | some found => rfl
  | notBefore p q ihp ihq =>
      intro x hx
      rw [read_notBefore_eq, readPair_crlf hadvance ihp ihq hx, read_notBefore_eq]
      rcases readPair d bound readRule p q (.ofText x) with _ | ⟨t, c, _ | ⟨u, c'⟩⟩ <;> rfl
  | node k p ih =>
      intro x hx
      simp only [read]
      rw [ih x hx]
      cases p.read d bound readRule (.ofText x) <;> rfl
  | suffixed k p q ihp ihq =>
      intro x hx
      rw [read_suffixed_eq, readPair_crlf hadvance ihp ihq hx, read_suffixed_eq]
      rcases readPair d bound readRule p q (.ofText x) with _ | ⟨t, c, _ | ⟨u, c'⟩⟩ <;> rfl
  | rule r => exact hrule r

end Phrase

/-- A rule is read alike with either sort of line ends. -/
theorem Grammar.read_crlf {g : Grammar} (hg : g.IsRanked) (d : Dialect) (depth : Nat) (r : Rule) :
    IgnoresLineEnds (g.read d depth r) := by
  induction depth generalizing r with
  | zero => exact fun x _ => rfl
  | succ depth ih => exact Phrase.read_crlf (read_advances hg d depth) ih (g r)

/-- So are the items of a module up to the end of its text. -/
theorem Module.read_crlf (d : Dialect) (depth : Nat) :
    IgnoresLineEnds (phrase.read d depth ((grammar d).read d depth)) :=
  Phrase.read_crlf (Grammar.read_advances (grammar_isRanked d) d depth)
    (Grammar.read_crlf (grammar_isRanked d) d depth) phrase

end Script
end ProcedureGen
