import Mathlib.Data.List.Basic
import ProcedureGen.Proofs.Text
import ProcedureGen.Script.Token

/-!
# Gaps

What stands between two tokens, and what it does not matter for.

* `Script.isBlunt`: the characters that no token goes on with;
* `Script.Alike`: two texts that look the same to a token in front of them;
* `Gap.pass`: the state in which a text leaves the scanner of gaps;
* `Gap.scan_of_pass`: a text that leaves it between two tokens is a gap in front of every token;
* `Gap.pass_append`: a gap is scanned piece by piece.
-/

namespace ProcedureGen
namespace Script

/-! ## Characters between tokens -/

/-- Whether a character stands between two tokens, outside comments. -/
def isSpace (c : Char) : Bool := isBlank c || isLineEnd c

/-- Whether a character ends every token that has no closing mark of its own. -/
def isBlunt (c : Char) : Bool := isSpace c || c == '\x7d'

/-- All white space stands between tokens. -/
theorem isSpace_of_isWhiteSpace {c : Char} (h : Text.isWhiteSpace c = true) : isSpace c = true := by
  have hfeed : c = '\n' ↔ c.toNat = 10 := Char.toNat_inj.symm
  have hreturn : c = '\r' ↔ c.toNat = 13 := Char.toNat_inj.symm
  simp only [Text.isWhiteSpace, isSpace, isBlank, isLineEnd, Bool.or_eq_true, Bool.and_eq_true,
    decide_eq_true_eq, beq_iff_eq, hfeed, hreturn] at h ⊢
  omega

theorem isBlunt_of_isSpace {c : Char} (h : isSpace c = true) : isBlunt c = true := by
  simp [isBlunt, h]

/-! ## Single characters of gaps -/

namespace Gap

variable {t : Text} {c : Char}

/-- The state in which a text leaves the scanner, if it can stand between tokens. -/
def pass : GapState → Text → Option GapState
  | .blank, '/' :: '/' :: rest => pass .line rest
  | .blank, '/' :: '*' :: rest => pass .block rest
  | .blank, c :: rest => if isSpace c then pass .blank rest else none
  | .line, c :: rest => if isLineEnd c then pass .blank rest else pass .line rest
  | .block, '*' :: '/' :: rest => pass .blank rest
  | .block, _ :: rest => pass .block rest
  | st, [] => some st

@[simp] theorem pass_nil (st : GapState) : pass st [] = some st := by
  cases st <;> rfl

@[simp] theorem pass_line_comment (t : Text) : pass .blank ('/' :: '/' :: t) = pass .line t := rfl

@[simp] theorem pass_block_comment (t : Text) : pass .blank ('/' :: '*' :: t) = pass .block t := rfl

@[simp] theorem pass_block_end (t : Text) : pass .block ('*' :: '/' :: t) = pass .blank t := rfl

theorem scan_line_comment (t : Text) :
    scan .blank ('/' :: '/' :: t) = ((scan .line t).push '/').push '/' := rfl

theorem scan_block_comment (t : Text) :
    scan .blank ('/' :: '*' :: t) = ((scan .block t).push '*').push '/' := rfl

theorem scan_block_end (t : Text) :
    scan .block ('*' :: '/' :: t) = ((scan .blank t).push '/').push '*' := rfl

/-- Where no comment starts, a space is taken and anything else is left. -/
theorem scan_blank (h : c = '/' → t.head? ≠ some '/' ∧ t.head? ≠ some '*') :
    scan .blank (c :: t) =
      if isSpace c then (scan .blank t).push c else ⟨[], false, true, c :: t⟩ := by
  -- The equation of this case alone is slow to derive: that unfolds the tables of characters.
  rw [scan.eq_def]
  split
  next heq =>
    rcases List.cons.inj heq with ⟨rfl, rfl⟩
    exact absurd rfl (h rfl).1
  next heq =>
    rcases List.cons.inj heq with ⟨rfl, rfl⟩
    exact absurd rfl (h rfl).2
  next heq =>
    rcases List.cons.inj heq with ⟨rfl, rfl⟩
    rfl
  all_goals simp_all

theorem scan_space (hc : isSpace c = true) (t : Text) :
    scan .blank (c :: t) = (scan .blank t).push c := by
  rw [scan_blank, if_pos hc]
  rintro rfl
  exact absurd hc (by decide)

theorem scan_line (c : Char) (t : Text) :
    scan .line (c :: t) = (scan (if isLineEnd c then .blank else .line) t).push c := by
  rw [scan.eq_def]
  dsimp only
  split <;> rfl

theorem scan_block (h : c = '*' → t.head? ≠ some '/') :
    scan .block (c :: t) = (scan .block t).push c := by
  rw [scan.eq_def]
  split
  case h_5 heq =>
    rcases List.cons.inj heq with ⟨rfl, rfl⟩
    exact absurd rfl (h rfl)
  all_goals simp_all

theorem pass_blank (h : c = '/' → t.head? ≠ some '/' ∧ t.head? ≠ some '*') :
    pass .blank (c :: t) = if isSpace c then pass .blank t else none := by
  rw [pass.eq_def]
  split
  next heq =>
    rcases List.cons.inj heq with ⟨rfl, rfl⟩
    exact absurd rfl (h rfl).1
  next heq =>
    rcases List.cons.inj heq with ⟨rfl, rfl⟩
    exact absurd rfl (h rfl).2
  next heq =>
    rcases List.cons.inj heq with ⟨rfl, rfl⟩
    rfl
  all_goals simp_all

theorem pass_space (hc : isSpace c = true) (t : Text) : pass .blank (c :: t) = pass .blank t := by
  rw [pass_blank, if_pos hc]
  rintro rfl
  exact absurd hc (by decide)

theorem pass_line (c : Char) (t : Text) :
    pass .line (c :: t) = pass (if isLineEnd c then .blank else .line) t := by
  rw [pass.eq_def]
  dsimp only
  split <;> rfl

theorem pass_block (h : c = '*' → t.head? ≠ some '/') :
    pass .block (c :: t) = pass .block t := by
  rw [pass.eq_def]
  split
  case h_5 heq =>
    rcases List.cons.inj heq with ⟨rfl, rfl⟩
    exact absurd rfl (h rfl)
  all_goals simp_all

end Gap

/-! ## Tables of characters -/

namespace IdentifierTable

variable {n : Nat} {rs qs : List (Nat × Nat)}

theorem covers_iff : covers n rs = true ↔ ∃ r ∈ rs, r.1 ≤ n ∧ n ≤ r.2 := by
  induction rs with
  | nil => simp [covers]
  | cons r rs ih => simp [covers, ih]

theorem covers_append (rs qs : List (Nat × Nat)) :
    covers n (rs ++ qs) = (covers n rs || covers n qs) := by
  induction rs with
  | nil => simp [covers]
  | cons r rs ih => simp [covers, ih, Bool.or_assoc]

/-- No code stands in two tables whose ranges do not meet. -/
theorem covers_apart (h : (rs.all fun r => qs.all fun q => r.2.blt q.1 || q.2.blt r.1) = true)
    (hn : covers n rs = true) : covers n qs = false := by
  rw [← Bool.not_eq_true, covers_iff]
  rintro ⟨q, hq, hlow, hhigh⟩
  rcases covers_iff.1 hn with ⟨r, hr, hlow', hhigh'⟩
  have hapart := List.all_eq_true.1 (List.all_eq_true.1 h r hr) q hq
  simp only [Bool.or_eq_true, Nat.blt_eq] at hapart
  omega

/-- The characters that end a token. -/
def bluntRanges : List (Nat × Nat) :=
  [(9, 13), (0x20, 0x20), (0x7d, 0x7d), (0x85, 0x85), (0xa0, 0xa0), (0x1680, 0x1680),
    (0x2000, 0x200a), (0x2028, 0x2029), (0x202f, 0x202f), (0x205f, 0x205f), (0x3000, 0x3000),
    (0xfeff, 0xfeff)]

/-- The characters of identifiers that stand in neither of the tables. -/
def plainRanges : List (Nat × Nat) :=
  [(0x24, 0x24), (0x30, 0x39), (0x41, 0x5a), (0x5f, 0x5f), (0x61, 0x7a), (0x200c, 0x200d)]

theorem covers_of_isBlunt {c : Char} (h : isBlunt c = true) :
    covers c.toNat bluntRanges = true := by
  have hfeed : c = '\n' ↔ c.toNat = 10 := Char.toNat_inj.symm
  have hreturn : c = '\r' ↔ c.toNat = 13 := Char.toNat_inj.symm
  have hbrace : c = '\x7d' ↔ c.toNat = 0x7d := Char.toNat_inj.symm
  simp only [isBlunt, isSpace, isBlank, isLineEnd, bluntRanges, covers, Bool.or_eq_true,
    Bool.and_eq_true, decide_eq_true_eq, beq_iff_eq, hfeed, hreturn, hbrace, Bool.false_eq_true,
    or_false] at h ⊢
  omega

theorem covers_of_isIdentifierPart {c : Char} (h : isIdentifierPart c = true) :
    covers c.toNat (plainRanges ++ (startRanges ++ partRanges)) = true := by
  have hle : ∀ a b : Char, a ≤ b ↔ a.toNat ≤ b.toNat := fun _ _ => Iff.rfl
  have hdollar : c = '$' ↔ c.toNat = 0x24 := Char.toNat_inj.symm
  have hline : c = '_' ↔ c.toNat = 0x5f := Char.toNat_inj.symm
  rw [covers_append, covers_append, Bool.or_eq_true]
  by_cases htable : (covers c.toNat startRanges || covers c.toNat partRanges) = true
  · exact .inr htable
  · simp only [Bool.or_eq_true, not_or, Bool.not_eq_true] at htable
    simp only [isIdentifierPart, isIdentifierStart, isLetter, isDigit, htable.1, htable.2,
      Bool.or_eq_true, Bool.and_eq_true, decide_eq_true_eq, beq_iff_eq, hle, hdollar, hline,
      Bool.false_eq_true, and_false, or_false, Char.reduceToNat] at h
    simp only [plainRanges, covers, Bool.or_eq_true, Bool.and_eq_true, decide_eq_true_eq,
      Bool.false_eq_true, or_false]
    omega

end IdentifierTable

theorem isIdentifierPart_of_isBlunt {c : Char} (h : isBlunt c = true) :
    isIdentifierPart c = false := by
  rw [← Bool.not_eq_true]
  intro hpart
  have hcovers := IdentifierTable.covers_of_isIdentifierPart hpart
  have hblunt := IdentifierTable.covers_of_isBlunt h
  rw [IdentifierTable.covers_apart (by decide +kernel) hblunt] at hcovers
  cases hcovers

/-! ## Texts on one line -/

/-- A text on one line. -/
def Inline (t : Text) : Prop := ∀ c ∈ t, isLineEnd c = false

@[simp] theorem inline_nil : Inline [] := by
  simp [Inline]

@[simp] theorem inline_cons {c : Char} {t : Text} :
    Inline (c :: t) ↔ isLineEnd c = false ∧ Inline t := List.forall_mem_cons

@[simp] theorem inline_append {t u : Text} : Inline (t ++ u) ↔ Inline t ∧ Inline u :=
  List.forall_mem_append

/-- A text without any space. -/
def Solid (t : Text) : Prop := ∀ c ∈ t, isSpace c = false

@[simp] theorem solid_nil : Solid [] := by
  simp [Solid]

@[simp] theorem solid_cons {c : Char} {t : Text} :
    Solid (c :: t) ↔ isSpace c = false ∧ Solid t := List.forall_mem_cons

@[simp] theorem solid_append {t u : Text} : Solid (t ++ u) ↔ Solid t ∧ Solid u :=
  List.forall_mem_append

theorem Solid.inline {t : Text} (h : Solid t) : Inline t := by
  intro c hc
  have hspace := h c hc
  rw [isSpace, Bool.or_eq_false_iff] at hspace
  exact hspace.2

theorem isSpace_of_isIdentifierPart {c : Char} (h : isIdentifierPart c = true) :
    isSpace c = false := by
  by_contra hspace
  rw [isIdentifierPart_of_isBlunt (isBlunt_of_isSpace (by simpa using hspace))] at h
  cases h

/-- A text that ends in a character that is no space. -/
def Firm (t : Text) : Prop := ∃ p c, t = p ++ [c] ∧ isSpace c = false

namespace Firm

variable {t u : Text}

theorem ne_nil (h : Firm t) : t ≠ [] := by
  rcases h with ⟨p, c, rfl, -⟩
  simp

theorem cons (h : Firm t) (c : Char) : Firm (c :: t) := by
  rcases h with ⟨p, d, rfl, hd⟩
  exact ⟨c :: p, d, rfl, hd⟩

theorem of_solid (ht : Solid t) (hne : t ≠ []) : Firm t := by
  refine ⟨t.dropLast, t.getLast hne, (List.dropLast_append_getLast hne).symm, ?_⟩
  exact ht _ (List.getLast_mem hne)

theorem append (ht : Firm t) (hu : Solid u) : Firm (t ++ u) := by
  by_cases hne : u = []
  · simpa [hne] using ht
  · rcases of_solid hu hne with ⟨p, c, rfl, hc⟩
    exact ⟨t ++ p, c, by simp, hc⟩

theorem getLast?_ne {c : Char} (h : Firm t) (hc : isSpace c = true) : t.getLast? ≠ some c := by
  rcases h with ⟨p, d, rfl, hd⟩
  rw [List.getLast?_concat]
  rintro hlast
  rw [Option.some.inj hlast, hc] at hd
  cases hd

/-- No space stands at the end. -/
theorem eq_nil_of_append (h : Firm (t ++ u)) (hu : ∀ c ∈ u, isSpace c = true) : u = [] := by
  by_contra hne
  have hlast : (t ++ u).getLast? = some (u.getLast hne) := by
    rw [List.getLast?_append_of_ne_nil _ hne, List.getLast?_eq_some_getLast hne]
  exact h.getLast?_ne (hu _ (List.getLast_mem hne)) hlast

end Firm

/-! ## What a token sees of the text behind it -/

/-- The part of a text that a token in front of it may look at. -/
def front (t : Text) : Text := t.takeWhile fun c => !isBlunt c

/-- Two texts that look the same to a token in front of them. -/
def Alike (t u : Text) : Prop := front t = front u

namespace Alike

variable {t u v : Text} {c : Char}

theorem refl (t : Text) : Alike t t := rfl

theorem symm (h : Alike t u) : Alike u t := Eq.symm h

theorem cons (h : Alike t u) (c : Char) : Alike (c :: t) (c :: u) := by
  unfold Alike front at h ⊢
  by_cases hc : isBlunt c = true
  · simp [hc]
  · simp [hc, h]

theorem append_left (h : Alike t u) (v : Text) : Alike (v ++ t) (v ++ u) := by
  induction v with
  | nil => exact h
  | cons c v ih => exact ih.cons c

theorem cons_inv (h : Alike (c :: t) u) (hc : isBlunt c = false) :
    ∃ v, u = c :: v ∧ Alike t v := by
  unfold Alike front at h
  cases u with
  | nil => simp [hc] at h
  | cons d v =>
      by_cases hd : isBlunt d = true
      · simp [hc, hd] at h
      · simp only [List.takeWhile_cons, hc, hd, Bool.not_false, if_true] at h
        rcases List.cons.inj h with ⟨rfl, hv⟩
        exact ⟨v, rfl, hv⟩

theorem append_inv (h : Alike (v ++ t) u) (hv : ∀ c ∈ v, isBlunt c = false) :
    ∃ w, u = v ++ w ∧ Alike t w := by
  induction v generalizing u with
  | nil => exact ⟨u, rfl, h⟩
  | cons c v ih =>
      rcases cons_inv h (hv c (by simp)) with ⟨u, rfl, hu⟩
      rcases ih hu fun d hd => hv d (List.mem_cons_of_mem c hd) with ⟨w, rfl, hw⟩
      exact ⟨w, rfl, hw⟩

/-- Texts that start bluntly, or not at all, look the same. -/
theorem of_blunt (ht : ∀ c ∈ t.head?, isBlunt c = true) (hu : ∀ c ∈ u.head?, isBlunt c = true) :
    Alike t u := by
  have hnil : ∀ {v : Text}, (∀ c ∈ v.head?, isBlunt c = true) → front v = [] := by
    intro v hv
    cases v with
    | nil => rfl
    | cons c v =>
        have hc : isBlunt c = true := hv c rfl
        simp [front, hc]
  exact (hnil ht).trans (hnil hu).symm

/-- The next character is the same, unless both texts start bluntly. -/
theorem head? (h : Alike t u) : ∀ c, isBlunt c = false → (t.head? = some c ↔ u.head? = some c) := by
  intro c hc
  have hfront : ∀ v : Text, v.head? = some c ↔ (front v).head? = some c := by
    intro v
    cases v with
    | nil => rfl
    | cons d v =>
        by_cases hd : isBlunt d = true
        · have hne : d ≠ c := by
            rintro rfl
            simp [hd] at hc
          simp [front, hd, hne]
        · simp [front, hd]
  rw [hfront t, hfront u, show front t = front u from h]

end Alike

/-- Whether a text starts with nothing that a gap could take. -/
def opensToken : Text → Bool
  | c :: t => !isSpace c && !(c == '/' && (t.head? == some '/' || t.head? == some '*'))
  | [] => false

theorem opensToken_cons {c : Char} {t : Text} :
    opensToken (c :: t) = true ↔
      isSpace c = false ∧ (c = '/' → t.head? ≠ some '/' ∧ t.head? ≠ some '*') := by
  simp [opensToken, imp_iff_not_or]

/-- A character that is no space and begins no comment opens a token. -/
theorem opensToken_of_plain {c : Char} {t : Text} (hc : ¬ isSpace c = true)
    (hline : ∀ u, c = '/' → t = '/' :: u → False) (hblock : ∀ u, c = '/' → t = '*' :: u → False) :
    opensToken (c :: t) = true := by
  refine opensToken_cons.2 ⟨by simpa using hc, fun hslash => ⟨fun h => ?_, fun h => ?_⟩⟩
  · rcases List.head?_eq_some_iff.1 h with ⟨u, rfl⟩
    exact hline u hslash rfl
  · rcases List.head?_eq_some_iff.1 h with ⟨u, rfl⟩
    exact hblock u hslash rfl

namespace Gap

variable {st st' : GapState} {g t u : Text} {c : Char}

/-! ## Scanning gaps -/

theorem scan_of_opensToken (ht : opensToken t = true) : scan .blank t = ⟨[], false, true, t⟩ := by
  cases t with
  | nil => cases ht
  | cons c t =>
      rcases opensToken_cons.1 ht with ⟨hc, hslash⟩
      rw [scan_blank hslash, if_neg (by simp [hc])]

/-- A text that leaves the scanner between tokens is a gap in front of every token. -/
theorem scan_of_pass (h : pass st g = some .blank) (ht : opensToken t = true) :
    scan st (g ++ t) = ⟨g, g.any isLineEnd, true, t⟩ := by
  fun_induction pass st g with
  | case1 rest ih => simp [scan_line_comment, ih h, push]
  | case2 rest ih => simp [scan_block_comment, ih h, push]
  | case3 c rest _ _ hc ih => simp [scan_space hc, ih h, push]
  | case4 c rest _ _ hc => cases h
  | case5 c rest hc ih => simp [scan_line, hc, ih h, push]
  | case6 c rest hc ih => simp [scan_line, hc, ih h, push]
  | case7 rest ih => simp [scan_block_end, ih h, push]
  | case8 c rest hopen ih =>
      have hnext : c = '*' → (rest ++ t).head? ≠ some '/' := by
        intro hc hslash
        cases rest with
        | nil => cases h
        | cons d rest =>
            obtain rfl : d = '/' := by simpa using hslash
            exact hopen rest hc rfl
      simp [scan_block hnext, ih h, push]
  | case9 st =>
      obtain rfl : st = .blank := Option.some.inj h
      exact scan_of_opensToken ht

/-- At the end of a text a comment up to the end of the line may be open. -/
theorem scan_of_pass_end (h : pass st g = some .blank ∨ pass st g = some .line) :
    scan st g = ⟨g, g.any isLineEnd, true, []⟩ := by
  fun_induction pass st g with
  | case1 rest ih => simp [scan_line_comment, ih h, push]
  | case2 rest ih => simp [scan_block_comment, ih h, push]
  | case3 c rest _ _ hc ih => simp [scan_space hc, ih h, push]
  | case4 c rest _ _ hc => simp at h
  | case5 c rest hc ih => simp [scan_line, hc, ih h, push]
  | case6 c rest hc ih => simp [scan_line, hc, ih h, push]
  | case7 rest ih => simp [scan_block_end, ih h, push]
  | case8 c rest hopen ih =>
      have hnext : c = '*' → rest.head? ≠ some '/' := by
        intro hc hslash
        rcases List.head?_eq_some_iff.1 hslash with ⟨rest, rfl⟩
        exact hopen rest hc rfl
      simp [scan_block hnext, ih h, push]
  | case9 st =>
      rcases h with h | h
      · obtain rfl : st = .blank := Option.some.inj h
        rfl
      · obtain rfl : st = .line := Option.some.inj h
        rfl

/-- What the scanner takes and what it leaves make up the text. -/
theorem text_append_rest (st : GapState) (t : Text) : (scan st t).text ++ (scan st t).rest = t := by
  fun_induction scan st t <;> simp_all [push]

theorem hasLineEnd_eq (st : GapState) (t : Text) :
    (scan st t).hasLineEnd = (scan st t).text.any isLineEnd := by
  fun_induction scan st t <;> simp_all [push]

theorem pass_of_opensToken (ht : opensToken (c :: t) = true) : pass .blank (c :: t) = none := by
  rcases opensToken_cons.1 ht with ⟨hc, hslash⟩
  rw [pass_blank hslash, if_neg (by simp [hc])]

/-- The ways in which a text can leave the scanner: in front of a token, or at the end. -/
def Complete (st : GapState) (g r : Text) : Prop :=
  (pass st g = some .blank ∧ opensToken r = true) ∨
    (r = [] ∧ (pass st g = some .blank ∨ pass st g = some .line))

theorem complete_scan (st : GapState) (t : Text) (h : (scan st t).closed = true) :
    Complete st (scan st t).text (scan st t).rest := by
  fun_induction scan st t with
  | case1 rest ih => simpa [push, Complete] using ih h
  | case2 rest ih => simpa [push, Complete] using ih h
  | case3 c rest _ _ hc ih => simpa [push, Complete, pass_space hc] using ih h
  | case4 c rest hline hblock hc => exact .inl ⟨rfl, opensToken_of_plain hc hline hblock⟩
  | case5 c rest hc ih => simpa [push, Complete, pass_line, hc] using ih h
  | case6 c rest hc ih => simpa [push, Complete, pass_line, hc] using ih h
  | case7 rest ih => simpa [push, Complete] using ih h
  | case8 c rest hopen ih =>
      have hnext : c = '*' → (scan .block rest).text.head? ≠ some '/' := by
        intro hc hslash
        rcases List.head?_eq_some_iff.1 hslash with ⟨text, htext⟩
        have hrest := text_append_rest .block rest
        rw [htext] at hrest
        exact hopen _ hc hrest.symm
      simpa [push, Complete, pass_block hnext] using ih h
  | case9 => cases h
  | case10 st hst =>
      cases st with
      | blank => exact .inr ⟨rfl, .inl rfl⟩
      | line => exact .inr ⟨rfl, .inr rfl⟩
      | block => exact absurd rfl hst

theorem Complete.of_opens (hg : pass st g = some .blank) (ht : opensToken t = true) :
    Complete st g t := .inl ⟨hg, ht⟩

/-- Behind an open comment stands nothing. -/
theorem closed_of_rest {st : GapState} {t : Text} (h : (scan st t).rest ≠ []) :
    (scan st t).closed = true := by
  fun_induction scan st t <;> simp_all [push]

/-- What the scanner takes, it takes again in front of another text. -/
theorem Complete.scan_eq (h : Complete st g t) :
    scan st (g ++ t) = ⟨g, g.any isLineEnd, true, t⟩ := by
  rcases h with ⟨hpass, ht⟩ | ⟨rfl, hpass⟩
  · exact scan_of_pass hpass ht
  · simpa using scan_of_pass_end hpass

/-! ## Changing gaps -/

/-- A text is scanned piece by piece, unless a comment begins or ends where the pieces meet. -/
theorem pass_append (st : GapState) (g : Text) (ht : ∀ c ∈ t.head?, c ≠ '/' ∧ c ≠ '*') :
    pass st (g ++ t) = (pass st g).bind fun st' => pass st' t := by
  fun_induction pass st g with
  | case1 rest ih => simpa using ih
  | case2 rest ih => simpa using ih
  | case3 c rest _ _ hc ih => simpa [pass_space hc] using ih
  | case4 c rest hline hblock hc =>
      refine pass_of_opensToken (opensToken_of_plain hc ?_ ?_)
      · intro more hslash hmore
        cases rest with
        | nil =>
            obtain rfl : t = '/' :: more := hmore
            exact (ht '/' rfl).1 rfl
        | cons d rest => exact hline rest hslash (by rw [List.cons.inj hmore |>.1])
      · intro more hslash hmore
        cases rest with
        | nil =>
            obtain rfl : t = '*' :: more := hmore
            exact (ht '*' rfl).2 rfl
        | cons d rest => exact hblock rest hslash (by rw [List.cons.inj hmore |>.1])
  | case5 c rest hc ih => simpa [pass_line, hc] using ih
  | case6 c rest hc ih => simpa [pass_line, hc] using ih
  | case7 rest ih => simpa using ih
  | case8 c rest hopen ih =>
      have hnext : c = '*' → (rest ++ t).head? ≠ some '/' := by
        intro hc hslash
        cases rest with
        | nil => exact (ht '/' hslash).1 rfl
        | cons d rest =>
            obtain rfl : d = '/' := by simpa using hslash
            exact hopen rest hc rfl
      simpa [pass_block hnext] using ih
  | case9 st => simp

/-- No space changes the state between tokens, nor that in a comment with a closing mark. -/
theorem pass_spaces {w : Text} (hw : ∀ c ∈ w, isSpace c = true) (t : Text) :
    pass .blank (w ++ t) = pass .blank t ∧ pass .block (w ++ t) = pass .block t := by
  induction w with
  | nil => exact ⟨rfl, rfl⟩
  | cons c w ih =>
      have hc : isSpace c = true := hw c (by simp)
      have hne : c = '*' → (w ++ t).head? ≠ some '/' := by
        rintro rfl
        exact absurd hc (by decide)
      have hrest := ih fun d hd => hw d (List.mem_cons_of_mem c hd)
      exact ⟨(pass_space hc _).trans hrest.1, (pass_block hne).trans hrest.2⟩

/-- A space may end a comment up to the end of the line, and no other. -/
theorem pass_line_spaces {w : Text} (hw : ∀ c ∈ w, isSpace c = true) (t : Text) :
    pass .line (w ++ t) = pass .line t ∨ pass .line (w ++ t) = pass .blank t := by
  induction w with
  | nil => exact .inl rfl
  | cons c w ih =>
      have hrest : ∀ d ∈ w, isSpace d = true := fun d hd => hw d (List.mem_cons_of_mem c hd)
      rw [List.cons_append, pass_line]
      split
      · exact .inr (pass_spaces hrest t).1
      · exact ih hrest

theorem head?_spaces {w : Text} (hw : ∀ c ∈ w, isSpace c = true)
    (ht : ∀ c ∈ t.head?, c ≠ '/' ∧ c ≠ '*') : ∀ c ∈ (w ++ t).head?, c ≠ '/' ∧ c ≠ '*' := by
  cases w with
  | nil => exact ht
  | cons d w =>
      intro c hc
      obtain rfl : d = c := by simpa using hc
      have hd : isSpace d = true := hw d (by simp)
      constructor
      · rintro rfl
        exact absurd hd (by decide)
      · rintro rfl
        exact absurd hd (by decide)

theorem pass_feed (st : GapState) (t : Text) :
    pass st ('\n' :: t) = pass (if st = .block then .block else .blank) t := by
  cases st with
  | blank => exact pass_space (by decide) t
  | line => exact pass_line '\n' t
  | block => exact pass_block fun h => absurd h (by decide)

/-- Spaces in front of a line end may be taken out of a gap. -/
theorem pass_before_feed {w : Text} (hw : ∀ c ∈ w, isSpace c = true) (st : GapState) (g t : Text) :
    pass st (g ++ (w ++ '\n' :: t)) = pass st (g ++ '\n' :: t) := by
  have hfeed : ∀ c ∈ ('\n' :: t).head?, c ≠ '/' ∧ c ≠ '*' := by
    intro c hc
    obtain rfl : '\n' = c := by simpa using hc
    exact ⟨by decide, by decide⟩
  rw [pass_append st g (head?_spaces hw hfeed), pass_append st g hfeed]
  congr 1
  funext st'
  cases st' with
  | blank => exact (pass_spaces hw _).1
  | line =>
      rcases pass_line_spaces hw ('\n' :: t) with h | h
      · exact h
      · rw [h, pass_feed, pass_feed]
        rfl
  | block => exact (pass_spaces hw _).2

/-- So may spaces behind a line end. -/
theorem pass_behind_feed {w : Text} (hw : ∀ c ∈ w, isSpace c = true) (st : GapState) (g t : Text) :
    pass st (g ++ '\n' :: (w ++ t)) = pass st (g ++ '\n' :: t) := by
  have hfeed : ∀ u : Text, ∀ c ∈ ('\n' :: u).head?, c ≠ '/' ∧ c ≠ '*' := by
    intro u c hc
    obtain rfl : '\n' = c := by simpa using hc
    exact ⟨by decide, by decide⟩
  rw [pass_append st g (hfeed _), pass_append st g (hfeed _)]
  congr 1
  funext st'
  rw [pass_feed, pass_feed]
  split
  · exact (pass_spaces hw t).2
  · exact (pass_spaces hw t).1

/-- Spaces at the end of a text may be taken out of its last gap. -/
theorem complete_of_spaces {w : Text} (hw : ∀ c ∈ w, isSpace c = true)
    (h : Complete .blank (g ++ w) []) : Complete .blank g [] := by
  have hpass : pass .blank (g ++ w) = some .blank ∨ pass .blank (g ++ w) = some .line := by
    rcases h with ⟨-, hopens⟩ | ⟨-, hpass⟩
    · cases hopens
    · exact hpass
  have hends := pass_append .blank g (head?_spaces (t := []) hw (by simp))
  rw [List.append_nil] at hends
  refine .inr ⟨rfl, ?_⟩
  cases hg : pass .blank g with
  | none => simp [hends, hg] at hpass
  | some st =>
      cases st with
      | blank => exact .inl rfl
      | line => exact .inr rfl
      | block =>
          have hblock := (pass_spaces hw []).2
          rw [List.append_nil] at hblock
          simp [hends, hg, hblock] at hpass

/-- It does not matter how the line ends of a gap are written. -/
theorem pass_lineFeeds (st : GapState) (g : Text) : pass st (Text.lineFeeds g) = pass st g := by
  have hkept : ∀ {c : Char} (rest : Text), isLineEnd c = false →
      Text.lineFeeds (c :: rest) = c :: Text.lineFeeds rest := by
    intro c rest hc
    rw [Text.lineFeeds_cons, if_neg]
    rintro ⟨rfl, -⟩
    exact absurd hc (by decide)
  fun_induction pass st g with
  | case1 rest ih => simpa [Text.lineFeeds] using ih
  | case2 rest ih => simpa [Text.lineFeeds] using ih
  | case3 c rest _ _ hc ih =>
      rw [Text.lineFeeds_cons]
      split
      · exact ih
      · rw [pass_space hc, ih]
  | case4 c rest hline hblock hc =>
      have hend : isLineEnd c = false := by
        simp only [isSpace, Bool.or_eq_true, not_or, Bool.not_eq_true] at hc
        exact hc.2
      rw [hkept rest hend]
      refine pass_of_opensToken (opensToken_of_plain hc ?_ ?_)
      · intro more hslash hmore
        have hhead := Text.head?_lineFeeds (c := '/') (by decide) (by rw [hmore]; rfl)
        rcases List.head?_eq_some_iff.1 hhead with ⟨more, rfl⟩
        exact hline more hslash rfl
      · intro more hslash hmore
        have hhead := Text.head?_lineFeeds (c := '*') (by decide) (by rw [hmore]; rfl)
        rcases List.head?_eq_some_iff.1 hhead with ⟨more, rfl⟩
        exact hblock more hslash rfl
  | case5 c rest hc ih =>
      rw [Text.lineFeeds_cons]
      split
      next hends =>
        -- The line feed ends the comment as well as the carriage return does.
        rcases List.head?_eq_some_iff.1 hends.2 with ⟨more, rfl⟩
        have hfeed : Text.lineFeeds ('\n' :: more) = '\n' :: Text.lineFeeds more := by
          simp [Text.lineFeeds]
        rw [hfeed] at ih ⊢
        rw [← ih, pass_feed, pass_feed]
        rfl
      · rw [pass_line, if_pos hc, ih]
  | case6 c rest hc ih =>
      have hend : isLineEnd c = false := by simpa using hc
      rw [hkept rest hend, pass_line, if_neg hc, ih]
  | case7 rest ih => simpa [Text.lineFeeds] using ih
  | case8 c rest hopen ih =>
      rw [Text.lineFeeds_cons]
      split
      · exact ih
      · rw [pass_block, ih]
        intro hc hslash
        have hhead := Text.head?_lineFeeds (by decide) hslash
        rcases List.head?_eq_some_iff.1 hhead with ⟨more, rfl⟩
        exact hopen more hc rfl
  | case9 st => simp

end Gap

end Script
end ProcedureGen
