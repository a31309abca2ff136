import ProcedureGen.Proofs.Script.Literal

/-!
# Tokens

A token is read again behind any gap and in front of any text that looks the same, and with other
line ends in it.

* `Token.Again`: what reading the beginning of a text once more gives;
* `Token.read?_again`: tokens as the scanner reads them, without their gaps.
-/

namespace ProcedureGen
namespace Script

namespace Token

variable {t u rest : Text} {k : Kind} {l : Literal} {w : Word} {c : Char}

/-- A text that may be read as a token, and what may be changed about it. -/
structure Again (read : Text → Option (Kind × Literal)) (t : Text) (k : Kind) (l : Literal) :
    Prop where
  split : t = l.raw ++ l.rest
  firm : Firm l.raw
  again : ∀ r u, Respelled l.raw r → Alike l.rest u → read (r ++ u) = some (k, ⟨r, u⟩)

theorem readTemplate?_again {first : Char} (h : readTemplate? first t = some (k, l)) :
    first :: t = l.raw ++ l.rest ∧ Firm l.raw ∧ ∃ raw, l.raw = first :: raw ∧
      ∀ r, Respelled raw r →
        ∀ u, readTemplate? first (r ++ u) = some (k, ⟨first :: r, u⟩) := by
  rcases Option.map_eq_some_iff.1 h with ⟨⟨closes, m⟩, hm, heq⟩
  rcases Prod.mk.inj heq with ⟨rfl, rfl⟩
  rcases Literal.scanTemplate_eq_some_iff.1 hm with ⟨hbody, rfl⟩
  refine ⟨rfl, hbody.firm.cons first, m.raw, rfl, fun r hr u => ?_⟩
  have hagain : Literal.scanTemplate (r ++ u) = some (closes, ⟨r, u⟩) :=
    Literal.scanTemplate_eq_some_iff.2 ⟨hbody.respelled hr, rfl⟩
  rw [readTemplate?, hagain, Option.map_some]
  simp only [escapesSound_respelled hr]
  rfl

/-! ## What begins a token -/

/-- Whether a text starts as a word does. -/
def opensWord (c : Char) : Bool := isIdentifierStart c || c = '\\'

/-- Whether a text starts as a number does. -/
def opensNumber (c : Char) (t : Text) : Bool := isDigit c || (c = '.' && (t.take 1).any isDigit)

theorem opensNumber_alike (h : Alike t u) : opensNumber c t = opensNumber c u := by
  have hdigit : ∀ {t u : Text}, Alike t u → (t.take 1).any isDigit = true →
      (u.take 1).any isDigit = true := by
    intro t u h ht
    cases t with
    | nil => cases ht
    | cons d t =>
        have hd : isDigit d = true := by simpa using ht
        have hsharp : isBlunt d = false := by
          by_contra hblunt
          have hpart := isIdentifierPart_of_isBlunt (c := d) (by simpa using hblunt)
          rw [isIdentifierPart_of_isDigit hd] at hpart
          cases hpart
        rcases h.cons_inv hsharp with ⟨v, rfl, -⟩
        simpa using hd
  have hsame : (t.take 1).any isDigit = (u.take 1).any isDigit :=
    Bool.eq_iff_iff.2 ⟨hdigit h, hdigit h.symm⟩
  simp only [opensNumber, hsame]

theorem read?_private (t : Text) :
    read? ('#' :: t) =
      (Word.read? t).map fun w => (.privateName w.decoded, ⟨'#' :: w.raw, w.rest⟩) := by
  rw [read?]

theorem read?_template (t : Text) : read? ('\x60' :: t) = readTemplate? '\x60' t := by
  rw [read?]

/-- The opening of a comment of another language, which no script may hold. -/
def comment : Text := ['<', '!', '-', '-']

/-- A text that starts as most tokens do. -/
structure OpensPlain (c : Char) (t : Text) : Prop where
  notPrivate : c ≠ '#'
  notTemplate : c ≠ '\x60'
  notComment : ¬ comment <+: c :: t

theorem OpensPlain.of_alike (h : OpensPlain c t) (hu : Alike t u) : OpensPlain c u where
  notPrivate := h.notPrivate
  notTemplate := h.notTemplate
  notComment := fun hpre =>
    h.notComment (prefix_of_alike (hu.cons c) (by simp [comment]; decide) hpre)

theorem read?_plain (h : OpensPlain c t) :
    read? (c :: t) =
      if opensWord c then
        (Word.read? (c :: t)).map fun w => (w.kind, ⟨w.raw, w.rest⟩)
      else if opensNumber c t then (Literal.readNumber? (c :: t)).map fun l => (.number, l)
      else if c = '\x22' || c = '\x27' then
        match Literal.scanString c t with
        | some l => if escapesSound false l.raw then some (.string, l.push c) else none
        | none => none
      else
        (Punctuator.read? (c :: t)).map fun (p, after) =>
          (.punctuator p, ⟨p.spelling, after⟩) := by
  rw [read?]
  · rfl
  · rintro rest rfl rfl
    exact h.notComment ⟨rest, rfl⟩
  · exact h.notPrivate
  · exact h.notTemplate

/-- Whether a character begins a mark and nothing else. -/
def opensMark (c : Char) : Bool :=
  !opensWord c && !isDigit c && c ∉ ['#', '\x60', '<', '.', '\x22', '\x27']

theorem read?_mark {p : Punctuator} (hc : opensMark c = true)
    (h : Punctuator.read? (c :: t) = some (p, rest)) :
    read? (c :: t) = some (.punctuator p, ⟨p.spelling, rest⟩) := by
  simp only [opensMark, Bool.and_eq_true, Bool.not_eq_true', decide_eq_true_eq, List.mem_cons,
    List.not_mem_nil, or_false, not_or] at hc
  rcases hc with ⟨⟨hword, hdigit⟩, hprivate, htemplate, hless, hdot, hdouble, hquote⟩
  have hplain : OpensPlain c t := by
    refine ⟨hprivate, htemplate, ?_⟩
    rintro ⟨more, hmore⟩
    exact hless (List.cons.inj hmore).1.symm
  have hnumber : opensNumber c t = false := by simp [opensNumber, hdigit, hdot]
  rw [read?_plain hplain, hword, hnumber, h]
  simp [hdouble, hquote]

/-! ## Reading once more -/

theorem private_again (h : Word.read? t = some w) :
    Again read? ('#' :: t) (.privateName w.decoded) ⟨'#' :: w.raw, w.rest⟩ := by
  rcases Word.read?_again h with ⟨rfl, hquiet, hagain⟩
  have hsolid : Solid ('#' :: w.raw) := solid_cons.2 ⟨by decide, Word.read?_solid h⟩
  refine ⟨rfl, Firm.of_solid hsolid (by simp), fun r u hr hu => ?_⟩
  obtain rfl := hsolid.inline.eq_of_respelled hr
  rw [List.cons_append, read?_private, hagain u (hquiet.of_alike hu)]
  rfl

theorem template_again (h : readTemplate? '\x60' t = some (k, l)) :
    Again read? ('\x60' :: t) k l := by
  rcases readTemplate?_again h with ⟨ht, hfirm, raw, hraw, hagain⟩
  refine ⟨ht, hfirm, fun r u hr hu => ?_⟩
  rw [hraw] at hr
  rcases hr.cons_inv (by decide) with ⟨v, rfl, hv⟩
  rw [List.cons_append, read?_template]
  exact hagain v hv u

theorem word_again (h : Word.read? (c :: t) = some w) (hc : opensWord c = true)
    (hplain : OpensPlain c t) : Again read? (c :: t) w.kind ⟨w.raw, w.rest⟩ := by
  rcases Word.read?_again h with ⟨ht, hquiet, hagain⟩
  have hsolid := Word.read?_solid h
  rcases List.exists_cons_of_ne_nil (Word.read?_raw h) with ⟨d, raw, hraw⟩
  refine ⟨ht, Firm.of_solid hsolid (Word.read?_raw h), fun r u hr hu => ?_⟩
  obtain rfl : r = w.raw := hsolid.inline.eq_of_respelled hr
  have hread := hagain u (hquiet.of_alike hu)
  rw [hraw] at ht hread ⊢
  rcases List.cons.inj ht with ⟨rfl, rfl⟩
  rw [List.cons_append] at hread ⊢
  rw [read?_plain (hplain.of_alike (hu.append_left raw)), if_pos hc, hread]
  simp [hraw, Word.kind]

theorem number_again (h : Literal.readNumber? (c :: t) = some l) (hword : opensWord c = false)
    (hnumber : opensNumber c t = true) (hplain : OpensPlain c t) :
    Again read? (c :: t) .number l := by
  rcases Literal.readNumber?_again h with ⟨ht, hagain⟩
  have hsolid := Literal.readNumber?_solid h
  rcases List.exists_cons_of_ne_nil (Literal.readNumber?_raw h) with ⟨d, raw, hraw⟩
  refine ⟨ht, Firm.of_solid hsolid (Literal.readNumber?_raw h), fun r u hr hu => ?_⟩
  obtain rfl := hsolid.inline.eq_of_respelled hr
  have hread := hagain u hu
  rw [hraw] at ht hread ⊢
  rcases List.cons.inj ht with ⟨rfl, rfl⟩
  rw [List.cons_append] at hread ⊢
  have hlike := hu.append_left raw
  rw [read?_plain (hplain.of_alike hlike), if_neg (by simp [hword]),
    if_pos ((opensNumber_alike hlike).symm.trans hnumber), hread]
  rfl

theorem string_again (h : Literal.scanString c t = some l)
    (hsound : escapesSound false l.raw = true) (hq : Literal.IsQuote c) :
    Again read? (c :: t) .string (l.push c) := by
  have hother : ∀ d ∈ ['\x22', '\x27'], opensWord d = false ∧ isDigit d = false ∧
      d ∉ ['#', '\x60', '<', '.'] := by
    simp
    decide
  have hmem : c ∈ ['\x22', '\x27'] := by simpa [Literal.IsQuote] using hq
  rcases hother c hmem with ⟨hword, hdigit, hne⟩
  simp only [List.mem_cons, List.not_mem_nil, or_false, not_or] at hne
  have hnumber : ∀ t, opensNumber c t = false := fun t => by simp [opensNumber, hdigit, hne]
  have hplain : ∀ t, OpensPlain c t := by
    refine fun t => ⟨hne.1, hne.2.1, ?_⟩
    rintro ⟨v, hv⟩
    exact hne.2.2.1 (List.cons.inj hv).1.symm
  rcases (Literal.scanString_eq_some_iff hq).1 h with ⟨hbody, rfl⟩
  refine ⟨rfl, (hbody.firm hq).cons c, fun r u hr hu => ?_⟩
  rcases hr.cons_inv hq.isSpace with ⟨v, rfl, hv⟩
  have hagain : Literal.scanString c (v ++ u) = some ⟨v, u⟩ :=
    (Literal.scanString_eq_some_iff hq).2 ⟨hbody.respelled hq hv, rfl⟩
  rw [List.cons_append, read?_plain (hplain _), if_neg (by simp [hword]),
    if_neg (by simp [hnumber]), if_pos (by simpa [Literal.IsQuote] using hq), hagain]
  dsimp only
  rw [if_pos ((escapesSound_respelled hv).trans hsound)]
  rfl

theorem mark_again {p : Punctuator} (h : Punctuator.read? (c :: t) = some (p, rest))
    (hword : opensWord c = false) (hnumber : opensNumber c t = false) (hq : ¬ Literal.IsQuote c)
    (hplain : OpensPlain c t) : Again read? (c :: t) (.punctuator p) ⟨p.spelling, rest⟩ := by
  rcases Punctuator.read?_again h with ⟨ht, hagain⟩
  have hsolid := Punctuator.spelling_solid p
  rcases List.exists_cons_of_ne_nil (Punctuator.spelling_ne_nil p) with ⟨d, raw, hraw⟩
  refine ⟨ht, Firm.of_solid hsolid (Punctuator.spelling_ne_nil p), fun r u hr hu => ?_⟩
  obtain rfl : r = p.spelling := hsolid.inline.eq_of_respelled hr
  have hread := hagain u hu
  rw [hraw] at ht hread ⊢
  rcases List.cons.inj ht with ⟨rfl, rfl⟩
  rw [List.cons_append] at hread ⊢
  have hlike := hu.append_left raw
  have hnumber' := (opensNumber_alike (c := c) hlike).symm.trans hnumber
  rw [read?_plain (hplain.of_alike hlike), if_neg (by simp [hword]), if_neg (by simp [hnumber']),
    if_neg (by simpa [Literal.IsQuote] using hq), hread]
  simp [hraw]

/-- A token is read again in front of a text that looks the same, with other line ends. -/
theorem read?_again (h : read? t = some (k, l)) (hk : k ≠ .endOfText) : Again read? t k l := by
  match t with
  | [] =>
      rcases Prod.mk.inj (Option.some.inj h) with ⟨rfl, -⟩
      exact absurd rfl hk
  | c :: rest =>
      by_cases hplain : OpensPlain c rest
      · rw [read?_plain hplain] at h
        by_cases hword : opensWord c = true
        · rw [if_pos hword] at h
          rcases Option.map_eq_some_iff.1 h with ⟨w, hw, heq⟩
          rcases Prod.mk.inj heq with ⟨rfl, rfl⟩
          exact word_again hw hword hplain
        · rw [if_neg hword] at h
          replace hword : opensWord c = false := by simpa using hword
          by_cases hnumber : opensNumber c rest = true
          · rw [if_pos hnumber] at h
            rcases Option.map_eq_some_iff.1 h with ⟨m, hm, heq⟩
            rcases Prod.mk.inj heq with ⟨rfl, rfl⟩
            exact number_again hm hword hnumber hplain
          · rw [if_neg hnumber] at h
            replace hnumber : opensNumber c rest = false := by simpa using hnumber
            split at h
            next hquote =>
              split at h
              next m hm =>
                split at h
                next hsound =>
                  rcases Prod.mk.inj (Option.some.inj h) with ⟨rfl, rfl⟩
                  exact string_again hm hsound (by simpa [Literal.IsQuote] using hquote)
                · cases h
              · cases h
            next hquote =>
              rcases Option.map_eq_some_iff.1 h with ⟨⟨p, after⟩, hp, heq⟩
              rcases Prod.mk.inj heq with ⟨rfl, rfl⟩
              exact mark_again hp hword hnumber (by simpa [Literal.IsQuote] using hquote) hplain
      · by_cases hprivate : c = '#'
        · subst hprivate
          rw [read?_private] at h
          rcases Option.map_eq_some_iff.1 h with ⟨w, hw, heq⟩
          rcases Prod.mk.inj heq with ⟨rfl, rfl⟩
          exact private_again hw
        · by_cases htemplate : c = '\x60'
          · subst htemplate
            exact template_again (read?_template rest ▸ h)
          -- What is left opens a comment, and that is no token.
          · have hcomment : comment <+: c :: rest := by
              by_contra hcomment
              exact hplain ⟨hprivate, htemplate, hcomment⟩
            rcases hcomment with ⟨v, hv⟩
            rw [← hv] at h
            cases h

end Token

end Script
end ProcedureGen
