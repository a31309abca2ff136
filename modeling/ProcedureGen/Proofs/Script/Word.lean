import Mathlib.Data.List.TakeDrop
import Mathlib.Data.List.TakeWhile
import ProcedureGen.Proofs.Script.Gap

/-!
# Words, numbers and marks

Tokens without a closing mark of their own.  Each of them is read again wherever it is written, as
long as what stands behind it looks the same.

* `Script.Quiet`: a text that no word and no number goes on with;
* `Word.scan_again`, `Literal.number?_again`, `Punctuator.read?_again`: reading once more.
-/

namespace ProcedureGen
namespace Script

/-! ## What stands behind a word -/

theorem span_eq {p : Char → Bool} {t run rest : Text} (h : t.span p = (run, rest)) :
    t = run ++ rest ∧ (∀ c ∈ run, p c = true) ∧ ∀ c ∈ rest.head?, p c = false := by
  rw [List.span_eq_takeWhile_dropWhile, Prod.mk.injEq] at h
  rcases h with ⟨rfl, rfl⟩
  refine ⟨List.takeWhile_append_dropWhile.symm, fun c hc => List.mem_takeWhile_imp hc,
    fun c hc => ?_⟩
  have hnot := List.head?_dropWhile_not p t
  rw [show (t.dropWhile p).head? = some c from hc] at hnot
  simpa using hnot

theorem span_append {p : Char → Bool} {run rest : Text} (hrun : ∀ c ∈ run, p c = true)
    (hrest : ∀ c ∈ rest.head?, p c = false) : (run ++ rest).span p = (run, rest) := by
  rw [List.span_eq_takeWhile_dropWhile, List.takeWhile_append_of_pos hrun,
    List.dropWhile_append_of_pos hrun]
  cases rest with
  | nil => simp
  | cons c rest => simp [hrest c rfl]

/-- A text that no word and no number goes on with. -/
def Quiet (t : Text) : Prop := ∀ c ∈ t.head?, isIdentifierPart c = false ∧ c ≠ '\\'

theorem Quiet.nil : Quiet [] := by
  simp [Quiet]

theorem Quiet.of_alike {t u : Text} (h : Quiet t) (htu : Alike t u) : Quiet u := by
  intro c hc
  by_cases hblunt : isBlunt c = true
  · refine ⟨isIdentifierPart_of_isBlunt hblunt, ?_⟩
    rintro rfl
    exact absurd hblunt (by decide)
  · exact h c ((htu.head? c (by simpa using hblunt)).2 hc)

/-! ## Words -/

theorem isIdentifierPart_of_isDigit {c : Char} (h : isDigit c = true) :
    isIdentifierPart c = true := by
  simp [isIdentifierPart, h]

theorem isDigit_of_isOctalDigit {c : Char} (h : isOctalDigit c = true) : isDigit c = true := by
  simp only [isOctalDigit, isDigit, Bool.and_eq_true, decide_eq_true_eq] at h ⊢
  exact ⟨h.1, Char.le_trans h.2 (by decide)⟩

theorem isIdentifierPart_of_isLetter {c : Char} (h : isLetter c = true) :
    isIdentifierPart c = true := by
  simp [isIdentifierPart, isIdentifierStart, h]

/-- A digit of any base is a part of an identifier. -/
theorem isIdentifierPart_of_isHexDigit {c : Char} (h : isHexDigit c = true) :
    isIdentifierPart c = true := by
  have hletter : ∀ low high : Char, 'a' ≤ low ∧ high ≤ 'z' ∨ 'A' ≤ low ∧ high ≤ 'Z' →
      (low ≤ c && c ≤ high) = true → isIdentifierPart c = true := by
    intro low high hrange hc
    simp only [Bool.and_eq_true, decide_eq_true_eq] at hc
    apply isIdentifierPart_of_isLetter
    simp only [isLetter, Bool.or_eq_true, Bool.and_eq_true, decide_eq_true_eq]
    rcases hrange with hrange | hrange
    · exact .inl ⟨Char.le_trans hrange.1 hc.1, Char.le_trans hc.2 hrange.2⟩
    · exact .inr ⟨Char.le_trans hrange.1 hc.1, Char.le_trans hc.2 hrange.2⟩
  unfold isHexDigit hexValue? at h
  split at h
  next hc => exact isIdentifierPart_of_isDigit hc
  · split at h
    next hc => exact hletter 'a' 'f' (by decide) hc
    · split at h
      next hc => exact hletter 'A' 'F' (by decide) hc
      · cases h

namespace Word

variable {t u : Text} {w : Word} {braced : Option Nat}

theorem scan_part {c : Char} (hc : isIdentifierPart c = true) (t : Text) :
    scan none (c :: t) = (scan none t).map (push c [c]) := by
  have hne : c ≠ '\\' := by
    rintro rfl
    exact absurd hc (by decide)
  rw [scan]
  · exact if_pos hc
  · exact fun _ h _ => hne h
  · exact fun _ _ _ _ _ h _ => hne h
  · exact hne

theorem scan_quiet (hu : Quiet u) : scan none u = some ⟨[], [], u⟩ := by
  cases u with
  | nil => rfl
  | cons c u =>
      rcases hu c rfl with ⟨hc, hne⟩
      rw [scan]
      · simp [hc]
      · exact fun _ h _ => hne h
      · exact fun _ _ _ _ _ h _ => hne h
      · exact hne

/-- A word is read again in front of everything that it does not go on with. -/
theorem scan_again (h : scan braced t = some w) :
    t = w.raw ++ w.rest ∧ Quiet w.rest ∧
      ∀ u, Quiet u → scan braced (w.raw ++ u) = some { w with rest := u } := by
  fun_induction scan braced t generalizing w with
  -- Escapes: a braced one opens, or one of four digits.
  | case1 rest ih =>
      rcases Option.map_eq_some_iff.1 h with ⟨v, hv, rfl⟩
      rcases ih hv with ⟨rfl, hquiet, hagain⟩
      exact ⟨rfl, hquiet, fun u hu => by simp [scan, hagain u hu]⟩
  | case2 a b c d rest hbrace hhex e he ih =>
      rcases Option.map_eq_some_iff.1 h with ⟨v, hv, rfl⟩
      rcases ih hv with ⟨rfl, hquiet, hagain⟩
      refine ⟨rfl, hquiet, fun u hu => ?_⟩
      simp only [push, List.cons_append, List.nil_append]
      rw [scan, if_pos hhex, he]
      · simp [hagain u hu, push]
      · exact hbrace
  | case3 => cases h
  | case4 => cases h
  | case5 => cases h
  -- A character of the word, and the end of it.
  | case6 c rest _ _ hslash hc ih =>
      rcases Option.map_eq_some_iff.1 h with ⟨v, hv, rfl⟩
      rcases ih hv with ⟨rfl, hquiet, hagain⟩
      refine ⟨rfl, hquiet, fun u hu => ?_⟩
      simp [push, scan_part hc, hagain u hu]
  | case7 c rest _ _ hslash hc =>
      obtain rfl := Option.some.inj h
      refine ⟨rfl, ?_, fun u hu => scan_quiet hu⟩
      intro d hd
      obtain rfl : c = d := Option.some.inj hd
      exact ⟨by simpa using hc, hslash⟩
  | case8 =>
      obtain rfl := Option.some.inj h
      exact ⟨rfl, Quiet.nil, fun u hu => scan_quiet hu⟩
  -- A braced escape: its closing brace, and one of its digits.
  | case9 n rest e he ih =>
      rcases Option.map_eq_some_iff.1 h with ⟨v, hv, rfl⟩
      rcases ih hv with ⟨rfl, hquiet, hagain⟩
      exact ⟨rfl, hquiet, fun u hu => by simp [push, scan, he, hagain u hu]⟩
  | case10 => cases h
  | case11 n c rest hbrace v hvalue ih =>
      rcases Option.map_eq_some_iff.1 h with ⟨v', hv, rfl⟩
      rcases ih hv with ⟨rfl, hquiet, hagain⟩
      refine ⟨rfl, hquiet, fun u hu => ?_⟩
      rw [List.cons_append, scan, hvalue]
      · simp [hagain u hu]
      · exact hbrace
  | case12 => cases h
  | case13 => cases h

theorem scan_solid {braced : Option Nat} {t : Text} {w : Word} (h : scan braced t = some w) :
    Solid w.raw := by
  fun_induction scan braced t generalizing w with
  | case1 rest ih =>
      rcases Option.map_eq_some_iff.1 h with ⟨v, hv, rfl⟩
      simpa using ⟨by decide, by decide, by decide, ih hv⟩
  | case2 a b c d rest _ hhex e _ ih =>
      rcases Option.map_eq_some_iff.1 h with ⟨v, hv, rfl⟩
      have hdigits : ∀ x ∈ [a, b, c, d], isSpace x = false := fun x hx =>
        isSpace_of_isIdentifierPart (isIdentifierPart_of_isHexDigit
          (List.all_eq_true.1 hhex x hx))
      have hescape : Solid ['\\', 'u', a, b, c, d] := by
        simpa [Solid] using ⟨by decide, by decide, by simpa using hdigits⟩
      exact solid_append.2 ⟨hescape, ih hv⟩
  | case3 => cases h
  | case4 => cases h
  | case5 => cases h
  | case6 c rest _ _ _ hc ih =>
      rcases Option.map_eq_some_iff.1 h with ⟨v, hv, rfl⟩
      exact solid_cons.2 ⟨isSpace_of_isIdentifierPart hc, ih hv⟩
  | case7 =>
      obtain rfl := Option.some.inj h
      exact solid_nil
  | case8 =>
      obtain rfl := Option.some.inj h
      exact solid_nil
  | case9 n rest e _ ih =>
      rcases Option.map_eq_some_iff.1 h with ⟨v, hv, rfl⟩
      exact solid_cons.2 ⟨by decide, ih hv⟩
  | case10 => cases h
  | case11 n c rest _ v hvalue ih =>
      rcases Option.map_eq_some_iff.1 h with ⟨v', hv, rfl⟩
      have hhex : isHexDigit c = true := by simp [isHexDigit, hvalue]
      exact solid_cons.2
        ⟨isSpace_of_isIdentifierPart (isIdentifierPart_of_isHexDigit hhex), ih hv⟩
  | case12 => cases h
  | case13 => cases h

/-- A word holds nothing but the characters of words, escaped or not. -/
theorem scan_decoded {braced : Option Nat} {t : Text} {w : Word}
    (h : scan braced t = some w) : ∀ c ∈ w.decoded, isIdentifierPart c = true := by
  have hescaped : ∀ {n : Nat} {e : Char}, escaped? n = some e → isIdentifierPart e = true := by
    intro n e he
    simp only [escaped?] at he
    split at he
    next hcheck =>
      obtain rfl := Option.some.inj he
      exact (Bool.and_eq_true_iff.1 hcheck).2
    · cases he
  fun_induction scan braced t generalizing w with
  | case1 rest ih =>
      rcases Option.map_eq_some_iff.1 h with ⟨v, hv, rfl⟩
      simpa using ih hv
  | case11 n c rest _ v _ ih =>
      rcases Option.map_eq_some_iff.1 h with ⟨v, hv, rfl⟩
      simpa using ih hv
  | case2 a b c d rest _ _ e he ih | case9 n rest e he ih =>
      rcases Option.map_eq_some_iff.1 h with ⟨v, hv, rfl⟩
      simpa [push, hescaped he] using ih hv
  | case6 c rest _ _ _ hc ih =>
      rcases Option.map_eq_some_iff.1 h with ⟨v, hv, rfl⟩
      simpa [push, hc] using ih hv
  | case7 | case8 =>
      obtain rfl := Option.some.inj h
      simp
  | _ => cases h

theorem scan_of_read? (h : read? t = some w) : scan none t = some w := by
  unfold read? at h
  split at h
  next v hv =>
    split at h
    · split at h
      · rw [hv, h]
      · cases h
    · cases h
  · cases h

theorem read?_again (h : read? t = some w) :
    t = w.raw ++ w.rest ∧ Quiet w.rest ∧
      ∀ u, Quiet u → read? (w.raw ++ u) = some { w with rest := u } := by
  have hscan := scan_of_read? h
  rcases scan_again hscan with ⟨ht, hquiet, hagain⟩
  refine ⟨ht, hquiet, fun u hu => ?_⟩
  unfold read? at h ⊢
  rw [hscan] at h
  rw [hagain u hu]
  dsimp only at h ⊢
  split at h
  next c rest hdecoded =>
    split at h
    next hstart => simp [hdecoded, hstart]
    · cases h
  · cases h

theorem read?_solid (h : read? t = some w) : Solid w.raw := scan_solid (scan_of_read? h)

theorem read?_raw (h : read? t = some w) : w.raw ≠ [] := by
  intro hraw
  rcases read?_again h with ⟨ht, hquiet, -⟩
  rw [hraw, List.nil_append] at ht
  rw [ht] at h
  unfold read? at h
  rw [scan_quiet hquiet] at h
  cases h

end Word

namespace Literal

variable {t u : Text} {l : Literal} {isMember : Char → Bool}

/-! ## Numbers -/

/-- A text that no run of digits goes on with. -/
def Stops (isMember : Char → Bool) (t : Text) : Prop :=
  ∀ c ∈ t.head?, isMember c = false ∧ c ≠ '_'

theorem Quiet.stops (hmember : ∀ c, isMember c = true → isIdentifierPart c = true) (h : Quiet t) :
    Stops isMember t := by
  intro c hc
  have hpart := (h c hc).1
  constructor
  · by_contra hne
    rw [hmember c (by simpa using hne)] at hpart
    cases hpart
  · rintro rfl
    exact absurd hpart (by decide)

theorem Stops.append {rest : Text} (h : Stops isMember (t ++ rest)) (hu : Stops isMember u) :
    Stops isMember (t ++ u) := by
  cases t with
  | nil => exact hu
  | cons c t => exact h

theorem digits?_again (h : digits? isMember t = some l) :
    t = l.raw ++ l.rest ∧ Stops isMember l.rest ∧
      ∀ u, Stops isMember u → digits? isMember (l.raw ++ u) = some ⟨l.raw, u⟩ := by
  cases hspan : t.span (fun c => isMember c || c == '_') with
  | mk run rest =>
      rcases span_eq hspan with ⟨rfl, hrun, hrest⟩
      simp only [digits?, hspan] at h
      split at h
      next hsound =>
        obtain rfl := Option.some.inj h
        refine ⟨rfl, fun c hc => by simpa using hrest c hc, fun u hu => ?_⟩
        have hagain := span_append hrun fun c hc => by simpa using hu c hc
        simp only [digits?, hagain, hsound, if_true]
      · cases h

theorem digits?_raw (h : digits? isMember t = some l) :
    ∃ c raw, l.raw = c :: raw ∧ isMember c = true := by
  cases hspan : t.span (fun c => isMember c || c == '_') with
  | mk run rest =>
      rcases span_eq hspan with ⟨-, hrun, -⟩
      simp only [digits?, hspan] at h
      split at h
      next hsound =>
        obtain rfl := Option.some.inj h
        cases run with
        | nil => cases hsound
        | cons c run =>
            have hc := hrun c (by simp)
            have hne : c ≠ '_' := by
              rintro rfl
              cases hsound
            exact ⟨c, run, rfl, by simpa [hne] using hc⟩
      · cases h

theorem digits?_solid (h : digits? isMember t = some l)
    (hmember : ∀ c, isMember c = true → isIdentifierPart c = true) : Solid l.raw := by
  cases hspan : t.span (fun c => isMember c || c == '_') with
  | mk run rest =>
      rcases span_eq hspan with ⟨-, hrun, -⟩
      simp only [digits?, hspan] at h
      split at h
      · obtain rfl := Option.some.inj h
        intro c hc
        have hc := hrun c hc
        simp only [Bool.or_eq_true, beq_iff_eq] at hc
        rcases hc with hc | rfl
        · exact isSpace_of_isIdentifierPart (hmember c hc)
        · decide
      · cases h

/-- Behind a number that has no exponent stands nothing that could begin one. -/
theorem exponent?_quiet (hu : Quiet u) : exponent? u = some ⟨[], u⟩ := by
  have hnone : ∀ c ∈ u.head?, ¬ (c = 'e' ∨ c = 'E') := by
    rintro c hc (rfl | rfl)
    · exact absurd (hu _ hc).1 (by decide)
    · exact absurd (hu _ hc).1 (by decide)
  match u with
  | [] => rfl
  | [e] => simp [exponent?, hnone e rfl]
  | e :: s :: rest => simp [exponent?, hnone e rfl]

theorem exponent?_again (h : exponent? t = some l) (hrest : Quiet l.rest) :
    t = l.raw ++ l.rest ∧ ∀ u, Quiet u → exponent? (l.raw ++ u) = some ⟨l.raw, u⟩ := by
  have hstops : ∀ {u : Text}, Quiet u → Stops isDigit u := fun hu =>
    Quiet.stops (fun _ => isIdentifierPart_of_isDigit) hu
  match t with
  | [] =>
      obtain rfl := Option.some.inj h
      exact ⟨rfl, fun u hu => exponent?_quiet hu⟩
  | [e] =>
      simp only [exponent?] at h
      split at h
      · cases h
      · obtain rfl := Option.some.inj h
        exact ⟨rfl, fun u hu => exponent?_quiet hu⟩
  | e :: s :: rest =>
      simp only [exponent?] at h
      split at h
      next he =>
        split at h
        next hs =>
          rcases Option.map_eq_some_iff.1 h with ⟨m, hm, rfl⟩
          rcases digits?_again hm with ⟨rfl, -, hagain⟩
          refine ⟨rfl, fun u hu => ?_⟩
          simp [push, exponent?, he, hs, hagain u (hstops hu)]
        next hs =>
          rcases Option.map_eq_some_iff.1 h with ⟨m, hm, rfl⟩
          rcases digits?_again hm with ⟨hm', hstop, hagain⟩
          refine ⟨by simp [push, hm'], fun u hu => ?_⟩
          have hdigits := hagain u (hstops hu)
          rcases digits?_raw hm with ⟨d, raw, hraw, -⟩
          obtain rfl : s = d := (by simpa [hraw] using hm' : s = d ∧ _).1
          rw [hraw] at hdigits
          simpa [push, exponent?, he, hs, hraw] using congrArg (Option.map (push e)) hdigits
      · obtain rfl := Option.some.inj h
        exact ⟨rfl, fun u hu => exponent?_quiet hu⟩

theorem fraction?_stops (hu : Stops isDigit u) : fraction? u = some ⟨[], u⟩ := by
  cases u with
  | nil => rfl
  | cons c u =>
      rcases hu c rfl with ⟨hc, hne⟩
      simp [fraction?, hc, hne]

theorem fraction?_again (h : fraction? t = some l) :
    t = l.raw ++ l.rest ∧ Stops isDigit l.rest ∧
      ∀ u, Stops isDigit u → fraction? (l.raw ++ u) = some ⟨l.raw, u⟩ := by
  cases t with
  | nil =>
      obtain rfl := Option.some.inj h
      exact ⟨rfl, by simp [Stops], fun u hu => fraction?_stops hu⟩
  | cons c t =>
      simp only [fraction?] at h
      split at h
      next hc =>
        rcases digits?_again h with ⟨ht, hstop, hagain⟩
        rcases digits?_raw h with ⟨d, raw, hraw, -⟩
        obtain rfl : c = d := (by simpa [hraw] using ht : c = d ∧ _).1
        refine ⟨ht, hstop, fun u hu => ?_⟩
        have hdigits := hagain u hu
        rw [hraw] at hdigits ⊢
        simpa only [List.cons_append, fraction?, if_pos hc] using hdigits
      next hc =>
        obtain rfl := Option.some.inj h
        refine ⟨rfl, ?_, fun u hu => fraction?_stops hu⟩
        intro d hd
        obtain rfl : c = d := Option.some.inj hd
        simpa using hc

/-- What a number in decimal spelling is read from: a fraction behind the whole part, the mark of a
big integer, or neither.  The rules are not a second reader: each keeps what the reader found at its
own place, so that facts about the parts become facts about the number. -/
inductive Decimal (t : Text) : Literal → Prop
  | fraction {whole fr ex : Literal} {rest : Text} (hwhole : digits? isDigit t = some whole)
      (hpoint : whole.rest = '.' :: rest) (hfr : fraction? rest = some fr)
      (hex : exponent? fr.rest = some ex) :
      Decimal t ⟨whole.raw ++ '.' :: (fr.raw ++ ex.raw), ex.rest⟩
  | big {whole : Literal} {rest : Text} (hwhole : digits? isDigit t = some whole)
      (hmark : whole.rest = 'n' :: rest) : Decimal t ⟨whole.raw ++ ['n'], rest⟩
  | plain {whole ex : Literal} (hwhole : digits? isDigit t = some whole)
      (hpoint : whole.rest.head? ≠ some '.') (hmark : whole.rest.head? ≠ some 'n')
      (hex : exponent? whole.rest = some ex) : Decimal t ⟨whole.raw ++ ex.raw, ex.rest⟩

theorem Decimal.of_decimal? (h : number?.decimal? t = some l) : Decimal t l := by
  cases hwhole : digits? isDigit t with
  | none => simp [number?.decimal?, hwhole] at h
  | some whole =>
      simp only [number?.decimal?, hwhole] at h
      split at h
      next rest hpoint =>
        rcases Option.bind_eq_some_iff.1 h with ⟨m, hm, hl⟩
        rcases Option.map_eq_some_iff.1 hm with ⟨fr, hfr, rfl⟩
        rcases Option.map_eq_some_iff.1 hl with ⟨ex, hex, rfl⟩
        simpa using Decimal.fraction hwhole hpoint hfr hex
      next rest hmark =>
        obtain rfl := Option.some.inj h
        simpa [suffixed, hmark] using Decimal.big hwhole hmark
      next hpoint hmark =>
        rcases Option.map_eq_some_iff.1 h with ⟨ex, hex, rfl⟩
        refine .plain hwhole ?_ ?_ hex
        · exact fun hdot => (List.head?_eq_some_iff.1 hdot).elim hpoint
        · exact fun hn => (List.head?_eq_some_iff.1 hn).elim hmark

theorem Decimal.decimal?_eq (h : Decimal t l) : number?.decimal? t = some l := by
  cases h with
  | fraction hwhole hpoint hfr hex =>
      simp [number?.decimal?, hwhole, hpoint, andThen, hfr, hex]
  | big hwhole hmark =>
      simp [number?.decimal?, hwhole, hmark, suffixed]
  | plain hwhole hpoint hmark hex =>
      simp only [number?.decimal?, hwhole]
      split
      next hdot => exact absurd (by rw [hdot]; rfl) hpoint
      next hn => exact absurd (by rw [hn]; rfl) hmark
      · simp [andThen, hex]

/-- Whole part, fraction and exponent are read again. -/
theorem Decimal.again (h : Decimal t l) (hrest : Quiet l.rest) :
    t = l.raw ++ l.rest ∧
      ∀ u, Quiet u → (u.head? = some '.' → l.rest.head? = some '.') →
        Decimal (l.raw ++ u) ⟨l.raw, u⟩ := by
  have hstops : ∀ {u : Text}, Quiet u → Stops isDigit u := fun hu =>
    Quiet.stops (fun _ => isIdentifierPart_of_isDigit) hu
  cases h with
  | @fraction whole fr ex rest hwhole hpoint hfr hex =>
      rcases digits?_again hwhole with ⟨rfl, hstop, hagain⟩
      rcases fraction?_again hfr with ⟨rfl, hstop', hagain'⟩
      rcases exponent?_again hex hrest with ⟨hex', hagain''⟩
      rw [hpoint] at hstop ⊢
      refine ⟨by simp [hex'], fun u hu _ => ?_⟩
      have hfraction := hagain' (ex.raw ++ u) ((hex' ▸ hstop').append (hstops hu))
      have hdigits := hagain ('.' :: (fr.raw ++ (ex.raw ++ u))) hstop
      simpa using Decimal.fraction hdigits rfl hfraction (hagain'' u hu)
  | big hwhole hmark =>
      rcases digits?_again hwhole with ⟨rfl, hstop, hagain⟩
      rw [hmark] at hstop ⊢
      refine ⟨by simp, fun u _ _ => ?_⟩
      simpa using Decimal.big (hagain ('n' :: u) hstop) rfl
  | @plain whole ex hwhole hpoint hmark hex =>
      rcases digits?_again hwhole with ⟨rfl, hstop, hagain⟩
      rcases exponent?_again hex hrest with ⟨hex', hagain'⟩
      refine ⟨by simp [hex'], fun u hu hdot => ?_⟩
      have hdigits := hagain (ex.raw ++ u) ((hex' ▸ hstop).append (hstops hu))
      have hn : u.head? ≠ some 'n' := fun hn => absurd (hu 'n' hn).1 (by decide)
      -- The first character of an exponent decides, and without one the text behind the number.
      rw [hex', List.head?_append] at hpoint hmark
      rw [List.append_assoc]
      refine .plain hdigits ?_ ?_ (hagain' u hu)
      · rw [List.head?_append]
        cases hhead : ex.raw.head? with
        | none => exact fun hu' => hpoint (by rw [hhead]; exact hdot hu')
        | some c => simpa [hhead] using hpoint
      · rw [List.head?_append]
        cases hhead : ex.raw.head? with
        | none => exact hn
        | some c => simpa [hhead] using hmark

theorem Decimal.raw (h : Decimal t l) : ∃ c raw, l.raw = c :: raw ∧ isDigit c = true := by
  cases h with
  | @fraction whole fr ex _ hwhole =>
      rcases digits?_raw hwhole with ⟨c, raw, hraw, hc⟩
      exact ⟨c, raw ++ '.' :: (fr.raw ++ ex.raw), by simp [hraw], hc⟩
  | big hwhole =>
      rcases digits?_raw hwhole with ⟨c, raw, hraw, hc⟩
      exact ⟨c, raw ++ ['n'], by simp [hraw], hc⟩
  | @plain whole ex hwhole =>
      rcases digits?_raw hwhole with ⟨c, raw, hraw, hc⟩
      exact ⟨c, raw ++ ex.raw, by simp [hraw], hc⟩

/-- The digits of a base with the mark of a big integer behind them, or none. -/
theorem suffixed_again {m : Literal} (h : digits? isMember t = some m)
    (hmember : ∀ c, isMember c = true → isIdentifierPart c = true) :
    t = (suffixed m).raw ++ (suffixed m).rest ∧
      ∀ u, Quiet u →
        (digits? isMember ((suffixed m).raw ++ u)).map suffixed = some ⟨(suffixed m).raw, u⟩ := by
  rcases digits?_again h with ⟨rfl, hstop, hagain⟩
  have hplain : ∀ {u : Text}, Quiet u → suffixed ⟨m.raw, u⟩ = ⟨m.raw, u⟩ := by
    intro u hu
    unfold suffixed
    split
    next rest hrest =>
      obtain rfl : u = 'n' :: rest := hrest
      exact absurd (hu 'n' rfl).1 (by decide)
    · rfl
  by_cases hn : ∃ rest, m.rest = 'n' :: rest
  · rcases hn with ⟨rest, hrest⟩
    have hsuffixed : suffixed m = ⟨m.raw ++ ['n'], rest⟩ := by
      simp [suffixed, hrest]
    refine ⟨by simp [hsuffixed, hrest], fun u hu => ?_⟩
    rw [hrest] at hstop
    have hdigits := hagain ('n' :: u) hstop
    rw [hsuffixed, List.append_assoc, List.singleton_append, hdigits]
    rfl
  · have hsuffixed : suffixed m = m := by
      unfold suffixed
      split
      next rest hrest => exact absurd ⟨rest, hrest⟩ hn
      · rfl
    refine ⟨by rw [hsuffixed], fun u hu => ?_⟩
    rw [hsuffixed, hagain u (Quiet.stops hmember hu), Option.map_some, hplain hu]

/-- Whether a character behind a zero makes a number of another kind, or of none. -/
def bases (c : Char) : Bool :=
  (c = 'x' || c = 'X') || (c = 'o' || c = 'O') || (c = 'b' || c = 'B') || (isDigit c || c = '_')

theorem isIdentifierPart_of_bases {c : Char} (h : bases c = true) : isIdentifierPart c = true := by
  have hall : ∀ c ∈ ['x', 'X', 'o', 'O', 'b', 'B', '_'], isIdentifierPart c = true :=
    List.all_eq_true.1 (by decide)
  by_cases hdigit : isDigit c = true
  · exact isIdentifierPart_of_isDigit hdigit
  · apply hall
    simpa [bases, hdigit, or_assoc] using h

/-- Behind a zero, a character that makes a number of another kind leads to its digits. -/
theorem number?_of_bases {c : Char} (h : bases c = true) :
    (∀ rest, number? ('0' :: c :: rest) = none) ∨
      ∃ isMember : Char → Bool, (∀ d, isMember d = true → isIdentifierPart d = true) ∧
        ∀ rest, number? ('0' :: c :: rest) =
          ((digits? isMember rest).map suffixed).map fun l => (l.push c).push '0' := by
  by_cases hx : (c = 'x' || c = 'X') = true
  · refine .inr ⟨isHexDigit, fun _ => isIdentifierPart_of_isHexDigit, fun rest => ?_⟩
    simp only [number?, if_pos hx, Option.map_map]
    rfl
  · by_cases ho : (c = 'o' || c = 'O') = true
    · have hoctal : ∀ d, isOctalDigit d = true → isIdentifierPart d = true := fun d hd =>
        isIdentifierPart_of_isDigit (isDigit_of_isOctalDigit hd)
      refine .inr ⟨isOctalDigit, hoctal, fun rest => ?_⟩
      simp only [number?, if_neg hx, if_pos ho, Option.map_map]
      rfl
    · by_cases hb : (c = 'b' || c = 'B') = true
      · have hbinary : ∀ d, isBinaryDigit d = true → isIdentifierPart d = true := by
          intro d hd
          apply isIdentifierPart_of_isDigit
          simp only [isBinaryDigit, Bool.or_eq_true, beq_iff_eq] at hd
          rcases hd with rfl | rfl
          · decide
          · decide
        refine .inr ⟨isBinaryDigit, hbinary, fun rest => ?_⟩
        simp only [number?, if_neg hx, if_neg ho, if_pos hb, Option.map_map]
        rfl
      · refine .inl fun rest => ?_
        have hdigit : (isDigit c || c = '_') = true := by
          simpa only [bases, hx, ho, hb, Bool.false_or] using h
        simp only [number?, if_neg hx, if_neg ho, if_neg hb, if_pos hdigit]

theorem number?_eq_decimal? (hdot : t.head? ≠ some '.')
    (hzero : ∀ c rest, t = '0' :: c :: rest → bases c = false) :
    number? t = number?.decimal? t := by
  fun_cases number? t with
  | case1 rest => exact absurd rfl hdot
  | case2 c rest hc => simpa only [bases, hc, Bool.true_or, reduceCtorEq] using hzero c rest rfl
  | case3 c rest _ hc =>
      simpa only [bases, hc, Bool.true_or, Bool.or_true, reduceCtorEq] using hzero c rest rfl
  | case4 c rest _ _ hc =>
      simpa only [bases, hc, Bool.true_or, Bool.or_true, reduceCtorEq] using hzero c rest rfl
  | case5 c rest _ _ _ hc =>
      simpa only [bases, hc, Bool.or_true, reduceCtorEq] using hzero c rest rfl
  | case6 => rfl
  | case7 => rfl

/-- What a number is read from: a point and digits, the digits of a base behind a zero, or a decimal
spelling. -/
inductive Number : Text → Literal → Prop
  | point {rest : Text} {digits ex : Literal} (hdigits : digits? isDigit rest = some digits)
      (hex : exponent? digits.rest = some ex) :
      Number ('.' :: rest) ⟨'.' :: (digits.raw ++ ex.raw), ex.rest⟩
  | based {c : Char} {rest : Text} {isMember : Char → Bool} {digits : Literal}
      (hc : bases c = true)
      (hmember : ∀ d, isMember d = true → isIdentifierPart d = true)
      (hnumber : ∀ rest, number? ('0' :: c :: rest) =
        ((digits? isMember rest).map suffixed).map fun l => (l.push c).push '0')
      (hdigits : digits? isMember rest = some digits) :
      Number ('0' :: c :: rest) ⟨'0' :: c :: (suffixed digits).raw, (suffixed digits).rest⟩
  | decimal {t : Text} {l : Literal} (hzero : ∀ c rest, t = '0' :: c :: rest → bases c = false)
      (hdecimal : Decimal t l) : Number t l

theorem Number.of_number? (h : number? t = some l) : Number t l := by
  by_cases hdot : t.head? = some '.'
  · rcases List.head?_eq_some_iff.1 hdot with ⟨rest, rfl⟩
    rcases Option.bind_eq_some_iff.1 h with ⟨m, hm, hl⟩
    rcases Option.map_eq_some_iff.1 hm with ⟨digits, hdigits, rfl⟩
    rcases Option.map_eq_some_iff.1 hl with ⟨ex, hex, rfl⟩
    exact .point hdigits hex
  · by_cases hzero : ∃ c rest, t = '0' :: c :: rest ∧ bases c = true
    · rcases hzero with ⟨c, rest, rfl, hc⟩
      rcases number?_of_bases hc with hnone | ⟨isMember, hmember, hnumber⟩
      · rw [hnone] at h
        cases h
      · rw [hnumber] at h
        rcases Option.map_eq_some_iff.1 h with ⟨m, hm, rfl⟩
        rcases Option.map_eq_some_iff.1 hm with ⟨digits, hdigits, rfl⟩
        exact .based hc hmember hnumber hdigits
    · have hzero' : ∀ c rest, t = '0' :: c :: rest → bases c = false := by
        intro c rest ht
        by_contra hc
        exact hzero ⟨c, rest, ht, by simpa using hc⟩
      rw [number?_eq_decimal? hdot hzero'] at h
      exact .decimal hzero' (Decimal.of_decimal? h)

/-- A number is read again, if the same dot stands behind it or none. -/
theorem number?_again (h : number? t = some l) (hrest : Quiet l.rest) :
    t = l.raw ++ l.rest ∧
      ∀ u, Quiet u → (u.head? = some '.' → l.rest.head? = some '.') →
        number? (l.raw ++ u) = some ⟨l.raw, u⟩ := by
  cases Number.of_number? h with
  | @point rest digits ex hdigits hex =>
      rcases digits?_again hdigits with ⟨rfl, hstop, hagain⟩
      rcases exponent?_again hex hrest with ⟨hex', hagain'⟩
      refine ⟨by simp [hex'], fun u hu _ => ?_⟩
      have hfirst := hagain (ex.raw ++ u) ((hex' ▸ hstop).append
        (Quiet.stops (fun _ => isIdentifierPart_of_isDigit) hu))
      simp [number?, hfirst, push, andThen, hagain' u hu]
  | based _ hmember hnumber hdigits =>
      rcases suffixed_again hdigits hmember with ⟨rfl, hagain⟩
      refine ⟨rfl, fun u hu _ => ?_⟩
      rw [List.cons_append, List.cons_append, hnumber, hagain u hu]
      rfl
  | decimal hzero hdecimal =>
      rcases hdecimal.again hrest with ⟨ht, hagain⟩
      rcases hdecimal.raw with ⟨d, raw, hraw, hd⟩
      refine ⟨ht, fun u hu hdot => ?_⟩
      rw [number?_eq_decimal?, (hagain u hu hdot).decimal?_eq]
      · rw [hraw]
        intro hd'
        obtain rfl : d = '.' := Option.some.inj hd'
        exact absurd hd (by decide)
      · intro c rest hsplit
        rw [hraw] at hsplit ht
        cases raw with
        -- A single zero: what stands behind the number makes none of another kind of it.
        | nil =>
            obtain rfl : u = c :: rest := (List.cons.inj hsplit).2
            by_contra hbases
            have hpart := isIdentifierPart_of_bases (by simpa using hbases)
            rw [(hu c rfl).1] at hpart
            cases hpart
        | cons d' raw =>
            rcases List.cons.inj hsplit with ⟨rfl, hsplit'⟩
            rcases List.cons.inj hsplit' with ⟨rfl, -⟩
            exact hzero d' _ ht

theorem readNumber?_eq_some_iff :
    readNumber? t = some l ↔ number? t = some l ∧ Quiet l.rest := by
  unfold readNumber? Quiet
  cases number? t with
  | none => simp
  | some m =>
      cases hrest : m.rest with
      | nil =>
          simp only [hrest, Option.some.injEq]
          constructor
          · rintro rfl
            simp [hrest]
          · exact fun h => h.1
      | cons c rest =>
          simp only [hrest, Option.some.injEq]
          split
          next hc =>
            simp only [reduceCtorEq, false_iff]
            rintro ⟨rfl, hquiet⟩
            rcases hquiet c (by simp [hrest]) with ⟨hpart, hslash⟩
            simp [hpart, hslash] at hc
          next hc =>
            simp only [Bool.or_eq_true, decide_eq_true_eq, not_or, Bool.not_eq_true] at hc
            constructor
            · intro h
              obtain rfl := Option.some.inj h
              refine ⟨rfl, fun d hd => ?_⟩
              obtain rfl : c = d := by simpa [hrest] using hd
              exact hc
            · rintro ⟨rfl, -⟩
              rfl

theorem readNumber?_again (h : readNumber? t = some l) :
    t = l.raw ++ l.rest ∧ ∀ u, Alike l.rest u → readNumber? (l.raw ++ u) = some ⟨l.raw, u⟩ := by
  rcases readNumber?_eq_some_iff.1 h with ⟨hnumber, hrest⟩
  rcases number?_again hnumber hrest with ⟨ht, hagain⟩
  refine ⟨ht, fun u hu => ?_⟩
  have hu' := hrest.of_alike hu
  exact readNumber?_eq_some_iff.2 ⟨hagain u hu' (hu.head? '.' (by decide)).2, hu'⟩

theorem readNumber?_raw (h : readNumber? t = some l) : l.raw ≠ [] := by
  cases Number.of_number? (readNumber?_eq_some_iff.1 h).1 with
  | point | based => exact List.cons_ne_nil _ _
  | decimal _ hdecimal =>
      rcases hdecimal.raw with ⟨c, raw, hraw, -⟩
      simp [hraw]

/-! No number goes over a line end. -/

theorem exponent?_solid (h : exponent? t = some l) : Solid l.raw := by
  have hpart : ∀ c, isDigit c = true → isIdentifierPart c = true :=
    fun _ => isIdentifierPart_of_isDigit
  match t with
  | [] =>
      obtain rfl := Option.some.inj h
      exact solid_nil
  | [e] =>
      simp only [exponent?] at h
      split at h
      · cases h
      · obtain rfl := Option.some.inj h
        exact solid_nil
  | e :: s :: rest =>
      simp only [exponent?] at h
      split at h
      next he =>
        have he' : isSpace e = false := by
          simp only [Bool.or_eq_true, decide_eq_true_eq] at he
          rcases he with rfl | rfl
          · decide
          · decide
        split at h
        next hs =>
          have hs' : isSpace s = false := by
            simp only [Bool.or_eq_true, decide_eq_true_eq] at hs
            rcases hs with rfl | rfl
            · decide
            · decide
          rcases Option.map_eq_some_iff.1 h with ⟨m, hm, rfl⟩
          exact solid_cons.2 ⟨he', solid_cons.2 ⟨hs', digits?_solid hm hpart⟩⟩
        · rcases Option.map_eq_some_iff.1 h with ⟨m, hm, rfl⟩
          exact solid_cons.2 ⟨he', digits?_solid hm hpart⟩
      · obtain rfl := Option.some.inj h
        exact solid_nil

theorem fraction?_solid (h : fraction? t = some l) : Solid l.raw := by
  cases t with
  | nil =>
      obtain rfl := Option.some.inj h
      exact solid_nil
  | cons c t =>
      simp only [fraction?] at h
      split at h
      · exact digits?_solid h fun _ => isIdentifierPart_of_isDigit
      · obtain rfl := Option.some.inj h
        exact solid_nil

theorem suffixed_solid (h : Solid l.raw) : Solid (suffixed l).raw := by
  unfold suffixed
  split
  · exact solid_append.2 ⟨h, solid_cons.2 ⟨by decide, solid_nil⟩⟩
  · exact h

theorem Decimal.solid (h : Decimal t l) : Solid l.raw := by
  have hdigits : ∀ {whole : Literal}, digits? isDigit t = some whole → Solid whole.raw :=
    fun hwhole => digits?_solid hwhole fun _ => isIdentifierPart_of_isDigit
  cases h with
  | fraction hwhole _ hfr hex =>
      simpa using ⟨hdigits hwhole, by decide, fraction?_solid hfr, exponent?_solid hex⟩
  | big hwhole => exact solid_append.2 ⟨hdigits hwhole, solid_cons.2 ⟨by decide, solid_nil⟩⟩
  | plain hwhole _ _ hex => exact solid_append.2 ⟨hdigits hwhole, exponent?_solid hex⟩

theorem readNumber?_solid (h : readNumber? t = some l) : Solid l.raw := by
  cases Number.of_number? (readNumber?_eq_some_iff.1 h).1 with
  | point hdigits hex =>
      have hraw := digits?_solid hdigits fun _ => isIdentifierPart_of_isDigit
      simpa using ⟨by decide, hraw, exponent?_solid hex⟩
  | based hc hmember _ hdigits =>
      have hraw := suffixed_solid (digits?_solid hdigits hmember)
      have hc' := isSpace_of_isIdentifierPart (isIdentifierPart_of_bases hc)
      exact solid_cons.2 ⟨by decide, solid_cons.2 ⟨hc', hraw⟩⟩
  | decimal _ hdecimal => exact hdecimal.solid

end Literal

/-! ## Marks -/

theorem prefix_of_alike {t u x : Text} (h : Alike t u) (hx : ∀ c ∈ x, isBlunt c = false)
    (hu : x <+: u) : x <+: t := by
  have hfront : ∀ {v : Text}, front (x ++ v) = x ++ front v := fun {v} =>
    List.takeWhile_append_of_pos fun c hc => by simp [hx c hc]
  rcases hu with ⟨v, rfl⟩
  have hsame : front t = x ++ front v := h.trans hfront
  have hpre : x <+: front t := hsame ▸ List.prefix_append x (front v)
  exact hpre.trans (List.takeWhile_prefix _)

namespace Punctuator

variable {p : Punctuator} {t u rest : Text}

theorem spelling_sharp (p : Punctuator) :
    (∀ c ∈ p.spelling, isBlunt c = false) ∨ p.spelling = ['\x7d'] := by
  have hall : (p.spelling.all (!isBlunt ·) || p.spelling == ['\x7d']) = true := by
    cases p <;> rfl
  simpa using hall

theorem spelling_solid (p : Punctuator) : Solid p.spelling := by
  have hall : p.spelling.all (!isSpace ·) = true := by
    cases p <;> rfl
  simpa [Solid] using hall

theorem spelling_ne_nil (p : Punctuator) : p.spelling ≠ [] := by
  cases p <;> decide

/-- The longest mark at the start of a text. -/
def longest? (t : Text) : Option (Punctuator × Text) :=
  all.findSome? fun p => (Text.dropPrefix? p.spelling t).map (p, ·)

theorem longest?_eq (h : longest? t = some (p, rest)) : t = p.spelling ++ rest := by
  rcases List.exists_of_findSome?_eq_some h with ⟨q, -, hq⟩
  rcases Option.map_eq_some_iff.1 hq with ⟨r, hr, heq⟩
  rcases Prod.mk.inj heq with ⟨rfl, rfl⟩
  exact Text.dropPrefix?_eq_some_iff.1 hr

/-- No longer mark can come about if what stands behind a mark looks the same. -/
theorem longest?_again (h : longest? t = some (p, rest)) (hu : Alike rest u) :
    longest? (p.spelling ++ u) = some (p, u) := by
  have ht := longest?_eq h
  rcases List.findSome?_eq_some_iff.1 h with ⟨before, q, after, hall, hq, hbefore⟩
  obtain rfl : q = p := by
    rcases Option.map_eq_some_iff.1 hq with ⟨r, -, heq⟩
    exact (Prod.mk.inj heq).1
  refine List.findSome?_eq_some_iff.2 ⟨before, q, after, hall, by simp, fun x hx => ?_⟩
  have hnone := hbefore x hx
  rw [Option.map_eq_none_iff, Text.dropPrefix?_eq_none_iff] at hnone ⊢
  intro hpre
  apply hnone
  rcases spelling_sharp x with hsharp | hbrace
  · rw [ht]
    exact prefix_of_alike (hu.append_left q.spelling) hsharp hpre
  · rw [hbrace] at hpre ⊢
    rw [ht]
    cases hspelling : q.spelling with
    | nil => exact absurd hspelling (spelling_ne_nil q)
    | cons c more =>
        rw [hspelling] at hpre
        rcases hpre with ⟨v, hv⟩
        obtain rfl : '\x7d' = c := (List.cons.inj hv).1
        exact ⟨more ++ rest, rfl⟩

/-- A slash alone is read where no equals sign stands behind it. -/
theorem longest?_slash {y : Text} (hy : y.head? ≠ some '=') :
    longest? ('/' :: y) = some (.slash, y) := by
  have hmark : ∀ p : Punctuator, p.spelling.head? = some '/' → p ≠ .slash →
      p = .slashAssign := by
    intro p
    cases p <;> decide
  cases h : longest? ('/' :: y) with
  | none =>
      have hall := List.findSome?_eq_none_iff.1 h .slash (by decide)
      simp [Text.dropPrefix?, spelling] at hall
  | some found =>
      rcases found with ⟨p, rest⟩
      have hsplit := longest?_eq h
      rcases List.exists_cons_of_ne_nil (spelling_ne_nil p) with ⟨c, more, hspelling⟩
      rw [hspelling] at hsplit
      rcases List.cons.inj hsplit with ⟨rfl, hrest⟩
      by_cases hp : p = .slash
      · subst hp
        rw [hrest, (List.cons.inj hspelling).2.symm]
        rfl
      · obtain rfl := hmark p (by simp [hspelling]) hp
        rw [hrest, (List.cons.inj hspelling).2.symm] at hy
        exact absurd rfl hy

theorem read?_eq (t : Text) :
    read? t = match longest? t with
      | some (.optionalDot, c :: rest) =>
        if isDigit c then some (.question, '.' :: c :: rest) else some (.optionalDot, c :: rest)
      | other => other := rfl

theorem read?_of_longest? {q : Punctuator} (h : longest? t = some (q, rest))
    (hq : q = .optionalDot → ∀ c ∈ rest.head?, isDigit c = false) : read? t = some (q, rest) := by
  rw [read?_eq, h]
  split
  next c more heq =>
    rcases Prod.mk.inj (Option.some.inj heq) with ⟨rfl, rfl⟩
    rw [if_neg (by simpa using hq rfl c rfl)]
  next => rfl

theorem read?_again (h : read? t = some (p, rest)) :
    t = p.spelling ++ rest ∧ ∀ u, Alike rest u → read? (p.spelling ++ u) = some (p, u) := by
  cases hlongest : longest? t with
  | none =>
      rw [read?_eq, hlongest] at h
      cases h
  | some found =>
      rcases found with ⟨q, r⟩
      have ht := longest?_eq hlongest
      by_cases hdigit : q = .optionalDot → ∀ c ∈ r.head?, isDigit c = false
      · rw [read?_of_longest? hlongest hdigit] at h
        rcases Prod.mk.inj (Option.some.inj h) with ⟨rfl, rfl⟩
        refine ⟨ht, fun u hu => read?_of_longest? (longest?_again hlongest hu) fun hq c hc => ?_⟩
        by_cases hblunt : isBlunt c = true
        · by_contra hc'
          have hpart := isIdentifierPart_of_isDigit (by simpa using hc')
          rw [isIdentifierPart_of_isBlunt hblunt] at hpart
          cases hpart
        · exact hdigit hq c ((hu.head? c (by simpa using hblunt)).2 hc)
      -- The dot belongs to a number: the mark is a question mark alone.
      · have hq : q = .optionalDot := by
          by_contra hq
          exact hdigit fun h => absurd h hq
        subst hq
        obtain ⟨c, more, rfl, hc⟩ : ∃ c more, r = c :: more ∧ isDigit c = true := by
          cases r with
          | nil => exact absurd (fun _ c hc => by cases hc) hdigit
          | cons c more =>
              refine ⟨c, more, rfl, ?_⟩
              by_contra hc
              refine hdigit fun _ d hd => ?_
              obtain rfl : c = d := Option.some.inj hd
              simpa using hc
        rw [read?_eq, hlongest] at h
        dsimp only at h
        rw [if_pos hc] at h
        rcases Prod.mk.inj (Option.some.inj h) with ⟨rfl, rfl⟩
        refine ⟨ht, fun u hu => ?_⟩
        have hsharp : isBlunt c = false := by
          by_contra hblunt
          have hpart := isIdentifierPart_of_isBlunt (c := c) (by simpa using hblunt)
          rw [isIdentifierPart_of_isDigit hc] at hpart
          cases hpart
        rcases hu.cons_inv (by decide) with ⟨v, rfl, hv⟩
        rcases hv.cons_inv hsharp with ⟨w, rfl, hw⟩
        have hagain := longest?_again hlongest (hw.cons c)
        have hspelling : Punctuator.spelling .question ++ '.' :: c :: w =
            Punctuator.spelling .optionalDot ++ c :: w := rfl
        rw [hspelling, read?_eq, hagain]
        exact if_pos hc

end Punctuator

end Script
end ProcedureGen
