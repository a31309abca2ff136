import ProcedureGen.Proofs.Script.Word

/-!
# Strings, templates and regular expressions

Tokens with a closing mark.  They are read again in front of any text, and with other white space
beside the line ends inside them.

* `Rewritten`: a text without some of the spaces beside its line feeds;
* `Respelled`: such a text, or one with carriage returns in front of its line feeds;
* `Literal.StringBody`, `Literal.TemplateBody`, `Literal.PatternBody`: what such a token may hold;
* `Literal.scanString_eq_some_iff` and its like: that is what is read, whatever stands behind it;
* `Literal.StringBody.respelled`, `Literal.TemplateBody.respelled`: other line ends change nothing;
* `escapesSound_rewritten`: escapes keep their meaning.
-/

namespace ProcedureGen

namespace Script

theorem beq_feed {c : Char} (hc : isSpace c = false) : (c == '\n') = false := by
  rw [beq_eq_false_iff_ne]
  rintro rfl
  exact absurd hc (by decide)

/-- The second text is the first one without some of the spaces beside its line feeds, a carriage
return in front of a line feed among them.  The flag tells whether a line feed stands in front of
the two. -/
inductive Rewritten : (behindFeed : Bool) → Text → Text → Prop where
  | nil {b : Bool} : Rewritten b [] []
  | cons {b : Bool} (c : Char) {t u : Text} :
      Rewritten (c == '\n') t u → Rewritten b (c :: t) (c :: u)
  | before {b : Bool} {c : Char} {t u : Text} :
      isSpace c = true → Rewritten false t ('\n' :: u) → Rewritten b (c :: t) ('\n' :: u)
  | behind {c : Char} {t u : Text} :
      isSpace c = true → Rewritten true t u → Rewritten true (c :: t) u

namespace Rewritten

variable {b : Bool} {t u w : Text} {c : Char} {p : Char → Bool}

theorem refl (b : Bool) (t : Text) : Rewritten b t t := by
  induction t generalizing b with
  | nil => exact .nil
  | cons c t ih => exact .cons c (ih _)

theorem lineFeeds (b : Bool) (t : Text) : Rewritten b t t.lineFeeds := by
  fun_induction Text.lineFeeds t generalizing b with
  | case1 rest ih => exact .before (by decide) (.cons '\n' (ih _))
  | case2 c rest _ ih => exact .cons c (ih _)
  | case3 => exact .nil

/-- Spaces in front of a line feed may be taken out, -/
theorem delete_before (hw : ∀ c ∈ w, isSpace c = true) (b : Bool) (p q : Text) :
    Rewritten b (p ++ (w ++ '\n' :: q)) (p ++ '\n' :: q) := by
  induction p generalizing b with
  | nil =>
      induction w generalizing b with
      | nil => exact refl b _
      | cons c w ih =>
          exact .before (hw c (by simp)) (ih (fun d hd => hw d (List.mem_cons_of_mem c hd)) false)
  | cons c p ih => exact .cons c (ih _)

/-- and so may spaces behind one. -/
theorem delete_behind (hw : ∀ c ∈ w, isSpace c = true) (b : Bool) (p q : Text) :
    Rewritten b (p ++ '\n' :: (w ++ q)) (p ++ '\n' :: q) := by
  induction p generalizing b with
  | nil =>
      refine .cons '\n' ?_
      induction w with
      | nil => exact refl _ _
      | cons c w ih =>
          exact .behind (hw c (by simp)) (ih fun d hd => hw d (List.mem_cons_of_mem c hd))
  | cons c p ih => exact .cons c (ih _)

theorem nil_inv (h : Rewritten b [] u) : u = [] := by
  cases h
  rfl

theorem cons_inv (h : Rewritten b (c :: t) u) (hc : isSpace c = false) :
    ∃ v, u = c :: v ∧ Rewritten false t v := by
  cases h with
  | cons _ h => exact ⟨_, rfl, beq_feed hc ▸ h⟩
  | before hspace _ => simp [hc] at hspace
  | behind hspace _ => simp [hc] at hspace

/-- A line feed is never put in. -/
theorem feed_mem (h : Rewritten b t u) (hu : '\n' ∈ u) : '\n' ∈ t := by
  induction h with
  | nil => exact hu
  | cons c _ ih =>
      rcases List.mem_cons.1 hu with rfl | hu
      · simp
      · exact List.mem_cons_of_mem c (ih hu)
  | before _ _ ih => exact List.mem_cons_of_mem _ (ih (by simp))
  | behind _ _ ih => exact List.mem_cons_of_mem _ (ih hu)

/-- A text starts with a character that is no space, or does not, however it is rewritten. -/
theorem head? (h : Rewritten false t u) (hc : isSpace c = false) :
    u.head? = some c ↔ t.head? = some c := by
  cases h with
  | nil => rfl
  | cons d h => rfl
  | before hspace h =>
      constructor
      · intro hd
        obtain rfl : '\n' = c := Option.some.inj hd
        exact absurd hc (by decide)
      · intro hd
        rw [Option.some.inj hd, hc] at hspace
        cases hspace

theorem takeWhile (h : Rewritten false t u) (hp : ∀ c, p c = true → isSpace c = false) :
    u.takeWhile p = t.takeWhile p := by
  have hspaces : ∀ {c : Char}, isSpace c = true → p c = false := by
    intro c hc
    by_contra hpc
    simp [hp c (by simpa using hpc)] at hc
  generalize hb : false = b at h
  induction h with
  | nil => rfl
  | cons c _ ih =>
      by_cases hc : p c = true
      · simp only [List.takeWhile_cons, ih (beq_feed (hp c hc)).symm]
      · simp [hc]
  | before hspace _ _ => simp [hspaces hspace, hspaces (c := '\n') (by decide)]
  | behind _ _ _ => cases hb

/-- So does what stands behind its first characters of a kind. -/
theorem getElem?_takeWhile (h : Rewritten false t u) (hp : ∀ c, p c = true → isSpace c = false)
    (hc : isSpace c = false) :
    u[(u.takeWhile p).length]? = some c ↔ t[(t.takeWhile p).length]? = some c := by
  have hspaces : ∀ {d : Char}, isSpace d = true → p d = false ∧ d ≠ c := by
    refine fun {d} hd => ⟨?_, ?_⟩
    · by_contra hpd
      simp [hp d (by simpa using hpd)] at hd
    · rintro rfl
      simp [hc] at hd
  generalize hb : false = b at h
  induction h with
  | nil => rfl
  | cons d _ ih =>
      by_cases hd : p d = true
      · simpa [List.takeWhile_cons, hd] using ih (beq_feed (hp d hd)).symm
      · simp [hd]
  | before hspace _ _ => simp [hspaces hspace, hspaces (d := '\n') (by decide)]
  | behind _ _ _ => cases hb

end Rewritten

theorem Inline.eq_of_rewritten {t u : Text} (ht : Inline t) (h : Rewritten false t u) : u = t := by
  generalize hb : false = b at h
  induction h with
  | nil => rfl
  | cons c _ ih =>
      rw [inline_cons] at ht
      have hfeed : (c == '\n') = false := by
        rw [beq_eq_false_iff_ne]
        rintro rfl
        exact absurd ht.1 (by decide)
      rw [ih ht.2 hfeed.symm]
  | before _ h _ =>
      have hfeed := (inline_cons.1 ht).2 '\n' (h.feed_mem (by simp))
      exact absurd hfeed (by decide)
  | behind _ _ _ => cases hb

/-- The second text is the first one with other line ends: without some of the spaces beside its
line feeds, or with a carriage return in front of each of them. -/
def Respelled (t u : Text) : Prop := Rewritten false t u ∨ '\r' ∉ t ∧ u = Text.crlf t

namespace Respelled

variable {t u : Text} {c : Char}

theorem refl (t : Text) : Respelled t t := .inl (.refl false t)

theorem crlf (h : '\r' ∉ t) : Respelled t (Text.crlf t) := .inr ⟨h, rfl⟩

/-- Writing a carriage return in front of each line feed can be undone. -/
theorem rewritten_crlf (h : '\r' ∉ t) : Rewritten false (Text.crlf t) t := by
  have hfeeds := Rewritten.lineFeeds false (Text.crlf t)
  rwa [Text.lineFeeds_crlf h] at hfeeds

theorem ne_feed (hc : isSpace c = false) : c ≠ '\n' ∧ c ≠ '\r' := by
  constructor
  · rintro rfl
    exact absurd hc (by decide)
  · rintro rfl
    exact absurd hc (by decide)

theorem cons_inv (h : Respelled (c :: t) u) (hc : isSpace c = false) :
    ∃ v, u = c :: v ∧ Respelled t v := by
  rcases h with h | ⟨hreturn, rfl⟩
  · rcases h.cons_inv hc with ⟨v, hu, hv⟩
    exact ⟨v, hu, .inl hv⟩
  · exact ⟨Text.crlf t, Text.crlf_cons (ne_feed hc).1 t,
      .inr ⟨fun hmem => hreturn (List.mem_cons_of_mem c hmem), rfl⟩⟩

theorem head? (h : Respelled t u) (hc : isSpace c = false) :
    u.head? = some c ↔ t.head? = some c := by
  rcases h with h | ⟨-, rfl⟩
  · exact h.head? hc
  · exact Text.head?_crlf (ne_feed hc).1 (ne_feed hc).2

theorem eq_nil_iff (h : Respelled t u) : u = [] ↔ t = [] := by
  rcases h with h | ⟨-, rfl⟩
  · cases h <;> simp
  · cases t with
    | nil => rfl
    | cons c t => by_cases hc : c = '\n' <;> simp [hc, Text.crlf_cons]

end Respelled

theorem Inline.eq_of_respelled {t u : Text} (ht : Inline t) (h : Respelled t u) : u = t := by
  rcases h with h | ⟨-, rfl⟩
  · exact ht.eq_of_rewritten h
  · exact Text.crlf_eq_self fun hfeed => absurd (ht '\n' hfeed) (by decide)

/-! ## Single characters -/

theorem escapesSound_escape {b : Bool} {c : Char} (hc : c ≠ 'u' ∧ c ≠ 'x' ∧ c ≠ '0') (t : Text) :
    escapesSound b ('\\' :: c :: t) = (!isDigit c && escapesSound b t) := by
  rw [escapesSound]
  · exact fun _ h _ => hc.1 h
  · exact hc.1
  · exact hc.2.1
  · exact hc.2.2

namespace Literal

variable {t r u : Text} {l : Literal} {quote : Char}

theorem scanString_return (quote : Char) (t : Text) :
    scanString quote ('\\' :: '\r' :: '\n' :: t) =
      (scanString quote t).map fun l => ((l.push '\n').push '\r').push '\\' := by
  rw [scanString]

theorem scanTemplate_escape (c : Char) (t : Text) :
    scanTemplate ('\\' :: c :: t) =
      (scanTemplate t).map fun (e, l) => (e, (l.push c).push '\\') := by
  rw [scanTemplate]

theorem scanPattern_plain {k : Bool} {c : Char} (hc : c ≠ '\\') :
    scanPattern k (c :: t) =
      if isLineEnd c then none
      else if c = '/' && !k then some ⟨[c], t⟩
      else (scanPattern (if c = '[' then true else if c = ']' then false else k) t).map
        (push c) := by
  rw [scanPattern]
  exact fun _ _ h _ => hc h

theorem scanString_escape {c : Char} (hc : c = '\r' → t.head? ≠ some '\n') :
    scanString quote ('\\' :: c :: t) =
      (scanString quote t).map fun l => (l.push c).push '\\' := by
  rw [scanString]
  rintro rest h rfl
  exact hc h rfl

theorem scanString_plain {c : Char} (hc : c ≠ '\\') :
    scanString quote (c :: t) =
      if c = quote then some ⟨[c], t⟩
      else if c = '\n' || c = '\r' then none
      else (scanString quote t).map (push c) := by
  rw [scanString]
  · exact fun _ h _ => hc h
  · exact fun _ _ h _ => hc h

theorem scanTemplate_plain {c : Char} (hc : c ≠ '\\' ∧ c ≠ '\x60')
    (hopen : c = '$' → t.head? ≠ some '\x7b') :
    scanTemplate (c :: t) = (scanTemplate t).map fun (e, l) => (e, l.push c) := by
  rw [scanTemplate]
  · exact fun _ _ h _ => hc.1 h
  · exact hc.2
  · rintro rest h rfl
    exact hopen h rfl

/-- The two characters that open and close strings. -/
def IsQuote (c : Char) : Prop := c = '\x22' ∨ c = '\x27'

theorem IsQuote.isSpace {c : Char} (h : IsQuote c) : isSpace c = false := by
  rcases h with rfl | rfl
  · decide
  · decide

theorem IsQuote.ne_slash {c : Char} (h : IsQuote c) : c ≠ '\\' := by
  rcases h with rfl | rfl
  · decide
  · decide

end Literal

/-! ## Escapes -/

theorem and_all_take {p : Char → Bool} (n : Nat) (t : Text) :
    (decide (n ≤ t.length) && (t.take n).all p) = decide (n ≤ (t.takeWhile p).length) := by
  induction t generalizing n with
  | nil => cases n <;> simp
  | cons c t ih =>
      cases n with
      | zero => simp
      | succ n =>
          by_cases hc : p c = true
          · simpa [List.takeWhile_cons, hc] using ih n
          · simp [hc]

theorem isSpace_of_isHexDigit (c : Char) (h : isHexDigit c = true) : isSpace c = false :=
  isSpace_of_isIdentifierPart (isIdentifierPart_of_isHexDigit h)

theorem isSpace_of_isDigit (c : Char) (h : isDigit c = true) : isSpace c = false :=
  isSpace_of_isIdentifierPart (isIdentifierPart_of_isDigit h)

theorem escapesSound_plain {b : Bool} {c : Char} {t : Text} (hc : c = '\\' → t = []) :
    escapesSound b (c :: t) = escapesSound b t := by
  have hnone : ∀ {d : Char} {rest : Text}, c = '\\' → t = d :: rest → False := by
    intro d rest h ht
    rw [hc h] at ht
    cases ht
  rw [escapesSound]
  · exact fun _ => hnone
  · exact fun _ => hnone
  · exact fun _ => hnone
  · exact fun _ => hnone
  · exact fun _ _ => hnone

theorem any_take_one {p : Char → Bool} (t : Text) :
    (t.take 1).any p = !(t.takeWhile p).isEmpty := by
  cases t with
  | nil => rfl
  | cons c t => by_cases hc : p c = true <;> simp [hc]

/-- Escapes mean the same whatever spaces stand beside the line feeds around them. -/
theorem escapesSound_rewritten {b f : Bool} {t u : Text} (h : Rewritten f t u) :
    escapesSound b u = escapesSound b t := by
  fun_induction escapesSound b t generalizing f u with
  | case1 rest digits =>
      rename_i ih
      rcases h.cons_inv (by decide) with ⟨v₁, rfl, h₁⟩
      rcases h₁.cons_inv (by decide) with ⟨v₂, rfl, h₂⟩
      rcases h₂.cons_inv (by decide) with ⟨v, rfl, h₃⟩
      -- Neither the digits of a braced escape nor the brace behind them are spaces.
      have hbrace := h₃.getElem?_takeWhile (c := '\x7d') isSpace_of_isHexDigit (by decide)
      have hsame : (v[(v.takeWhile isHexDigit).length]? == some '\x7d') =
          (rest[(rest.takeWhile isHexDigit).length]? == some '\x7d') := by
        rw [Bool.eq_iff_iff, beq_iff_eq, beq_iff_eq]
        exact hbrace
      rw [escapesSound, ih h₃, hsame, h₃.takeWhile isSpace_of_isHexDigit]
  | case2 rest hopen ih =>
      rcases h.cons_inv (by decide) with ⟨v₁, rfl, h₁⟩
      rcases h₁.cons_inv (by decide) with ⟨v, rfl, h₂⟩
      rw [escapesSound, ih h₂, and_all_take, and_all_take, h₂.takeWhile isSpace_of_isHexDigit]
      rintro more rfl
      have hbrace := (h₂.head? (c := '\x7b') (by decide)).1 rfl
      rcases List.head?_eq_some_iff.1 hbrace with ⟨rest, rfl⟩
      exact hopen rest rfl
  | case3 rest ih =>
      rcases h.cons_inv (by decide) with ⟨v₁, rfl, h₁⟩
      rcases h₁.cons_inv (by decide) with ⟨v, rfl, h₂⟩
      rw [escapesSound, ih h₂, and_all_take, and_all_take, h₂.takeWhile isSpace_of_isHexDigit]
  | case4 rest ih =>
      rcases h.cons_inv (by decide) with ⟨v₁, rfl, h₁⟩
      rcases h₁.cons_inv (by decide) with ⟨v, rfl, h₂⟩
      have hdigit : ∀ c, (if b = true then isDigit else isOctalDigit) c = true →
          isSpace c = false := by
        cases b with
        | true => exact isSpace_of_isDigit
        | false => exact fun c hc => isSpace_of_isDigit c (isDigit_of_isOctalDigit hc)
      rw [escapesSound, ih h₂, any_take_one, any_take_one, h₂.takeWhile hdigit]
  | case5 c rest _ hu hx h0 ih =>
      rcases h.cons_inv (by decide) with ⟨v, rfl, h₁⟩
      cases h₁ with
      | cons _ h₂ => rw [escapesSound_escape ⟨hu, hx, h0⟩, ih h₂]
      -- The backslash comes to stand in front of the line feed: an escape that is always sound.
      | before hspace h₂ =>
          have hdigit : isDigit c = false := by
            by_contra hdigit
            rw [isSpace_of_isDigit c (by simpa using hdigit)] at hspace
            cases hspace
          rw [escapesSound_escape (by decide), hdigit, ← ih h₂,
            escapesSound_plain fun h => absurd h (by decide)]
          rfl
  | case6 c rest _ _ _ _ hslash ih =>
      -- A backslash without an escape is the last character.
      have hend : c = '\\' → rest = [] := by
        intro hc
        cases rest with
        | nil => rfl
        | cons d rest => exact (hslash d rest hc rfl).elim
      cases h with
      | cons _ h₁ =>
          rw [escapesSound_plain, ih h₁]
          intro hc
          rw [hend hc] at h₁
          exact h₁.nil_inv
      | before _ h₁ => exact ih h₁
      | behind _ h₁ => exact ih h₁
  | case7 =>
      cases h
      rfl

theorem escapesSound_respelled {b : Bool} {t u : Text} (h : Respelled t u) :
    escapesSound b u = escapesSound b t := by
  rcases h with h | ⟨hreturn, rfl⟩
  · exact escapesSound_rewritten h
  · exact (escapesSound_rewritten (Respelled.rewritten_crlf hreturn)).symm

namespace Literal

variable {t r u : Text} {l : Literal} {quote : Char}

/-! ## Strings -/

/-- What a string holds behind its opening quote, its closing one included.  What stands behind the
string has no part in it. -/
inductive StringBody (quote : Char) : Text → Prop where
  | close : StringBody quote [quote]
  | continuation {raw : Text} :
      StringBody quote raw → StringBody quote ('\\' :: '\r' :: '\n' :: raw)
  | escape (c : Char) {raw : Text} : StringBody quote raw → StringBody quote ('\\' :: c :: raw)
  | plain {c : Char} {raw : Text} : c ≠ '\\' → c ≠ quote → ¬ (c = '\n' ∨ c = '\r') →
      StringBody quote raw → StringBody quote (c :: raw)

namespace StringBody

theorem firm (h : StringBody quote t) (hq : IsQuote quote) : Firm t := by
  induction h with
  | close => exact ⟨[], quote, rfl, hq.isSpace⟩
  | continuation _ ih => exact ((ih.cons _).cons _).cons _
  | escape c _ ih => exact (ih.cons _).cons _
  | plain _ _ _ _ ih => exact ih.cons _

/-- No string goes on with a line feed. -/
theorem not_feed (hq : IsQuote quote) (t : Text) : ¬ StringBody quote ('\n' :: t) := by
  intro h
  cases h with
  | close => exact absurd hq.isSpace (by decide)
  | plain _ _ hend _ => exact hend (.inl rfl)

theorem head?_append (h : StringBody quote t) (hq : IsQuote quote) (u : Text) :
    (t ++ u).head? ≠ some '\n' := by
  rw [List.head?_append_of_ne_nil _ (h.firm hq).ne_nil]
  intro hfeed
  rcases List.head?_eq_some_iff.1 hfeed with ⟨v, rfl⟩
  exact not_feed hq v h

/-- Spaces beside line feeds make no difference: a line feed in a string stands behind a backslash,
and keeps its place there. -/
theorem rewritten {f : Bool} (h : StringBody quote t) (hq : IsQuote quote)
    (hr : Rewritten f t r) : StringBody quote r := by
  induction h generalizing f r with
  | close =>
      rcases hr.cons_inv hq.isSpace with ⟨v, rfl, hv⟩
      rw [hv.nil_inv]
      exact .close
  | continuation _ ih =>
      rcases hr.cons_inv (by decide) with ⟨r₁, rfl, hr₁⟩
      cases hr₁ with
      | cons _ hr₂ =>
          cases hr₂ with
          | cons _ hr₃ => exact .continuation (ih hr₃)
          | before _ hr₃ => exact absurd (ih hr₃) (not_feed hq _)
      | before _ hr₂ =>
          cases hr₂ with
          | cons _ hr₃ => exact .escape '\n' (ih hr₃)
          | before _ hr₃ => exact absurd (ih hr₃) (not_feed hq _)
  | escape c _ ih =>
      rcases hr.cons_inv (by decide) with ⟨r₁, rfl, hr₁⟩
      cases hr₁ with
      | cons _ hr₂ => exact .escape c (ih hr₂)
      | before _ hr₂ => exact absurd (ih hr₂) (not_feed hq _)
  | plain hslash hquote hend _ ih =>
      cases hr with
      | cons _ hr₁ => exact .plain hslash hquote hend (ih hr₁)
      | before _ hr₁ => exact absurd (ih hr₁) (not_feed hq _)
      | behind _ hr₁ => exact ih hr₁

theorem crlf (h : StringBody quote t) (hq : IsQuote quote) (hreturn : '\r' ∉ t) :
    StringBody quote (Text.crlf t) := by
  have hslash : '\\' ≠ '\n' := by decide
  induction h with
  | close =>
      rw [Text.crlf_cons (Respelled.ne_feed hq.isSpace).1, Text.crlf_nil]
      exact .close
  | continuation => simp at hreturn
  | escape c _ ih =>
      simp only [List.mem_cons, not_or] at hreturn
      rw [Text.crlf_cons hslash]
      by_cases hc : c = '\n'
      · subst hc
        rw [Text.crlf_feed]
        exact .continuation (ih hreturn.2.2)
      · rw [Text.crlf_cons hc]
        exact .escape c (ih hreturn.2.2)
  | plain hc hquote hend _ ih =>
      simp only [List.mem_cons, not_or] at hreturn
      rw [Text.crlf_cons fun h => hend (.inl h)]
      exact .plain hc hquote hend (ih hreturn.2)

theorem respelled (h : StringBody quote t) (hq : IsQuote quote) (hr : Respelled t r) :
    StringBody quote r := by
  rcases hr with hr | ⟨hreturn, rfl⟩
  · exact h.rewritten hq hr
  · exact h.crlf hq hreturn

end StringBody

/-- A string is read up to its closing quote, whatever stands behind it. -/
theorem scanString_eq_some_iff (hq : IsQuote quote) :
    scanString quote t = some l ↔ StringBody quote l.raw ∧ t = l.raw ++ l.rest := by
  constructor
  · intro h
    fun_induction scanString quote t generalizing l with
    | case1 rest ih =>
        rcases Option.map_eq_some_iff.1 h with ⟨m, hm, rfl⟩
        rcases ih hm with ⟨hbody, rfl⟩
        exact ⟨.continuation hbody, rfl⟩
    | case2 c rest _ ih =>
        rcases Option.map_eq_some_iff.1 h with ⟨m, hm, rfl⟩
        rcases ih hm with ⟨hbody, rfl⟩
        exact ⟨.escape c hbody, rfl⟩
    | case3 rest =>
        obtain rfl := Option.some.inj h
        exact ⟨.close, rfl⟩
    | case4 => cases h
    | case5 c rest _ hslash hquote hend ih =>
        rcases Option.map_eq_some_iff.1 h with ⟨m, hm, rfl⟩
        rcases ih hm with ⟨hbody, rfl⟩
        have hc : c ≠ '\\' := by
          intro hc
          rcases List.exists_cons_of_ne_nil (hbody.firm hq).ne_nil with ⟨d, raw, hraw⟩
          exact hslash d (raw ++ m.rest) hc (by simp [hraw])
        exact ⟨.plain hc hquote (by simpa using hend) hbody, rfl⟩
    | case6 => cases h
  · cases l with
    | mk raw rest =>
        rintro ⟨h, rfl⟩
        dsimp only at h ⊢
        induction h with
        | close => rw [List.singleton_append, scanString_plain hq.ne_slash, if_pos rfl]
        | continuation _ ih =>
            simp only [List.cons_append]
            rw [scanString_return, ih]
            rfl
        | escape c h ih =>
            simp only [List.cons_append]
            rw [scanString_escape fun _ => h.head?_append hq rest, ih]
            rfl
        | plain hc hquote hend _ ih =>
            rw [List.cons_append, scanString_plain hc, if_neg hquote, if_neg (by simpa using hend),
              ih]
            rfl

/-! ## Templates -/

/-- What a piece of a template holds behind its first character, its closing mark or the opening of
an inserted expression included. -/
inductive TemplateBody : (closes : Bool) → Text → Prop where
  | close : TemplateBody true ['\x60']
  | hole : TemplateBody false ['$', '\x7b']
  | escape {e : Bool} (c : Char) {raw : Text} :
      TemplateBody e raw → TemplateBody e ('\\' :: c :: raw)
  | plain {e : Bool} {c : Char} {raw : Text} : c ≠ '\\' ∧ c ≠ '\x60' →
      (c = '$' → raw.head? ≠ some '\x7b') → TemplateBody e raw → TemplateBody e (c :: raw)

namespace TemplateBody

variable {e : Bool}

theorem firm (h : TemplateBody e t) : Firm t := by
  induction h with
  | close => exact ⟨[], '\x60', rfl, by decide⟩
  | hole => exact ⟨['$'], '\x7b', rfl, by decide⟩
  | escape c _ ih => exact (ih.cons _).cons _
  | plain _ _ _ ih => exact ih.cons _

theorem feed (h : TemplateBody e t) : TemplateBody e ('\n' :: t) :=
  .plain (by decide) (fun h => absurd h (by decide)) h

theorem of_feed (h : TemplateBody e ('\n' :: t)) : TemplateBody e t := by
  cases h with
  | plain _ _ h => exact h

/-- Spaces beside line feeds make no difference: a backslash takes the line feed along that comes to
stand behind it. -/
theorem rewritten {f : Bool} (h : TemplateBody e t) (hr : Rewritten f t r) :
    TemplateBody e r := by
  induction h generalizing f r with
  | close =>
      rcases hr.cons_inv (by decide) with ⟨v, rfl, hv⟩
      rw [hv.nil_inv]
      exact .close
  | hole =>
      rcases hr.cons_inv (by decide) with ⟨v, rfl, hv⟩
      rcases hv.cons_inv (by decide) with ⟨w, rfl, hw⟩
      rw [hw.nil_inv]
      exact .hole
  | escape c _ ih =>
      rcases hr.cons_inv (by decide) with ⟨r₁, rfl, hr₁⟩
      cases hr₁ with
      | cons _ hr₂ => exact .escape c (ih hr₂)
      | before _ hr₂ => exact .escape '\n' (ih hr₂).of_feed
  | plain hc hopen _ ih =>
      cases hr with
      | cons _ hr₁ =>
          refine .plain hc ?_ (ih hr₁)
          rintro rfl hbrace
          exact hopen rfl ((Rewritten.head? hr₁ (by decide)).1 hbrace)
      | before _ hr₁ => exact ih hr₁
      | behind _ hr₁ => exact ih hr₁

theorem crlf (h : TemplateBody e t) : TemplateBody e (Text.crlf t) := by
  have hreturn : ∀ {u : Text}, TemplateBody e u → TemplateBody e ('\r' :: u) := fun hu =>
    .plain (by decide) (fun h => absurd h (by decide)) hu
  induction h with
  | close => exact .close
  | hole => exact .hole
  | escape c _ ih =>
      rw [Text.crlf_cons (by decide)]
      by_cases hc : c = '\n'
      · subst hc
        rw [Text.crlf_feed]
        exact .escape '\r' (ih hreturn).feed
      · rw [Text.crlf_cons hc]
        exact .escape c (ih hreturn)
  | @plain _ c _ hc hopen _ ih =>
      by_cases hfeed : c = '\n'
      · subst hfeed
        rw [Text.crlf_feed]
        exact hreturn (ih hreturn).feed
      · rw [Text.crlf_cons hfeed]
        refine .plain hc (fun hdollar hbrace => hopen hdollar ?_) (ih hreturn)
        exact (Text.head?_crlf (by decide) (by decide)).1 hbrace

theorem respelled (h : TemplateBody e t) (hr : Respelled t r) : TemplateBody e r := by
  rcases hr with hr | ⟨-, rfl⟩
  · exact h.rewritten hr
  · exact h.crlf

end TemplateBody

/-- A piece of a template is read up to its end, whatever stands behind it. -/
theorem scanTemplate_eq_some_iff {e : Bool} :
    scanTemplate t = some (e, l) ↔ TemplateBody e l.raw ∧ t = l.raw ++ l.rest := by
  constructor
  · intro h
    fun_induction scanTemplate t generalizing l with
    | case1 c rest ih =>
        rcases Option.map_eq_some_iff.1 h with ⟨⟨e', m⟩, hm, heq⟩
        rcases Prod.mk.inj heq with ⟨rfl, rfl⟩
        rcases ih hm with ⟨hbody, rfl⟩
        exact ⟨.escape c hbody, rfl⟩
    | case2 rest =>
        rcases Prod.mk.inj (Option.some.inj h) with ⟨rfl, rfl⟩
        exact ⟨.close, rfl⟩
    | case3 rest =>
        rcases Prod.mk.inj (Option.some.inj h) with ⟨rfl, rfl⟩
        exact ⟨.hole, rfl⟩
    | case4 c rest hslash hmark hopen ih =>
        rcases Option.map_eq_some_iff.1 h with ⟨⟨e', m⟩, hm, heq⟩
        rcases Prod.mk.inj heq with ⟨rfl, rfl⟩
        rcases ih hm with ⟨hbody, rfl⟩
        refine ⟨.plain ⟨fun hc => ?_, hmark⟩ (fun hc hbrace => ?_) hbody, rfl⟩
        · rcases List.exists_cons_of_ne_nil hbody.firm.ne_nil with ⟨d, raw, hraw⟩
          exact hslash d (raw ++ m.rest) hc (by simp [hraw])
        · rcases List.head?_eq_some_iff.1 hbrace with ⟨raw, hraw⟩
          exact hopen (raw ++ m.rest) hc (by simp [hraw])
    | case5 => cases h
  · cases l with
    | mk raw rest =>
        rintro ⟨h, rfl⟩
        dsimp only at h ⊢
        induction h with
        | close => rfl
        | hole => rfl
        | escape c _ ih =>
            simp only [List.cons_append]
            rw [scanTemplate_escape, ih]
            rfl
        | plain hc hopen h ih =>
            rw [List.cons_append, scanTemplate_plain hc, ih]
            · rfl
            · rwa [List.head?_append_of_ne_nil _ h.firm.ne_nil]

/-! ## Regular expressions -/

/-- What a regular expression holds behind its opening slash, the closing one included. -/
inductive PatternBody : (inClass : Bool) → Text → Prop where
  | close : PatternBody false ['/']
  | escape {k : Bool} {c : Char} {raw : Text} : isLineEnd c = false →
      PatternBody k raw → PatternBody k ('\\' :: c :: raw)
  | plain {k : Bool} {c : Char} {raw : Text} : c ≠ '\\' → isLineEnd c = false →
      (c = '/' && !k) = false →
      PatternBody (if c = '[' then true else if c = ']' then false else k) raw →
      PatternBody k (c :: raw)

namespace PatternBody

variable {k : Bool}

theorem firm (h : PatternBody k t) : Firm t := by
  induction h with
  | close => exact ⟨[], '/', rfl, by decide⟩
  | escape _ _ ih => exact (ih.cons _).cons _
  | plain _ _ _ _ ih => exact ih.cons _

/-- A regular expression goes over no line end. -/
theorem inline (h : PatternBody k t) : Inline t := by
  induction h with
  | close => exact inline_cons.2 ⟨by decide, inline_nil⟩
  | escape hc _ ih => exact inline_cons.2 ⟨by decide, inline_cons.2 ⟨hc, ih⟩⟩
  | plain _ hc _ _ ih => exact inline_cons.2 ⟨hc, ih⟩

end PatternBody

/-- A regular expression is read up to its closing slash, whatever stands behind it. -/
theorem scanPattern_eq_some_iff {k : Bool} :
    scanPattern k t = some l ↔ PatternBody k l.raw ∧ t = l.raw ++ l.rest := by
  constructor
  · intro h
    fun_induction scanPattern k t generalizing l with
    | case1 => cases h
    | case2 k c rest hc ih =>
        rcases Option.map_eq_some_iff.1 h with ⟨m, hm, rfl⟩
        rcases ih hm with ⟨hbody, rfl⟩
        exact ⟨.escape (by simpa using hc) hbody, rfl⟩
    | case3 => cases h
    | case4 k c rest _ _ hclose =>
        obtain rfl := Option.some.inj h
        simp only [Bool.and_eq_true, decide_eq_true_eq, Bool.not_eq_true'] at hclose
        rcases hclose with ⟨rfl, rfl⟩
        exact ⟨.close, rfl⟩
    | case5 k c rest hslash hc hclose ih =>
        rcases Option.map_eq_some_iff.1 h with ⟨m, hm, rfl⟩
        rcases ih hm with ⟨hbody, rfl⟩
        refine ⟨.plain (fun hc => ?_) (by simpa using hc) (by simpa using hclose) hbody, rfl⟩
        rcases List.exists_cons_of_ne_nil hbody.firm.ne_nil with ⟨d, raw, hraw⟩
        exact hslash d (raw ++ m.rest) hc (by simp [hraw])
    | case6 => cases h
  · cases l with
    | mk raw rest =>
        rintro ⟨h, rfl⟩
        dsimp only at h ⊢
        induction h with
        | close => rfl
        | escape hc _ ih =>
            simp only [List.cons_append]
            rw [scanPattern, if_neg (by simp [hc]), ih]
            rfl
        | plain hc hend hclose _ ih =>
            rw [List.cons_append, scanPattern_plain hc, if_neg (by simp [hend]),
              if_neg (by simp [hclose]), ih]
            rfl

/-- Flags of a regular expression: known ones, none of them twice. -/
def IsFlags (t : Text) : Prop :=
  (∀ c ∈ t, isIdentifierPart c = true) ∧
    (t.all fun c => "dgimsuyv".toList.contains c) = true ∧ t.eraseDups.length = t.length

/-- A regular expression is its body and its flags, and no word goes on with what stands behind. -/
theorem readRegex?_eq_some_iff :
    readRegex? t = some l ↔ t = l.raw ++ l.rest ∧ Quiet l.rest ∧
      ∃ body flags, l.raw = '/' :: (body ++ flags) ∧ PatternBody false body ∧ IsFlags flags := by
  constructor
  · intro h
    unfold readRegex? at h
    split at h
    next rest =>
      split at h
      · cases h
      next body hbody =>
        rcases scanPattern_eq_some_iff.1 hbody with ⟨hpattern, rfl⟩
        cases hspan : body.rest.span isIdentifierPart with
        | mk flags after =>
            rw [hspan] at h
            dsimp only at h
            split at h
            next hflags =>
              obtain rfl := Option.some.inj h
              rcases span_eq hspan with ⟨hrest, hparts, hafter⟩
              simp only [Bool.and_eq_true, decide_eq_true_eq, bne_iff_ne] at hflags
              refine ⟨by simp [hrest], fun c hc => ⟨hafter c hc, ?_⟩, body.raw, flags, rfl,
                hpattern, hparts, hflags.1⟩
              rintro rfl
              exact hflags.2 hc
            · cases h
    · cases h
  · cases l with
    | mk raw rest =>
        rintro ⟨rfl, hquiet, body, flags, rfl, hpattern, hparts, hknown, htwice⟩
        have hscan : scanPattern false (body ++ (flags ++ rest)) = some ⟨body, flags ++ rest⟩ :=
          scanPattern_eq_some_iff.2 ⟨hpattern, rfl⟩
        have hspan := span_append hparts fun c hc => (hquiet c hc).1
        have hslash : (rest.head? != some '\\') = true := by
          simpa using fun h => (hquiet _ h).2 rfl
        simp only [List.cons_append, List.append_assoc, readRegex?, hscan, hspan]
        rw [if_pos (by simp only [hknown, htwice, hslash, decide_true, Bool.and_self])]

theorem readRegex?_again (h : readRegex? t = some l) :
    t = l.raw ++ l.rest ∧ Inline l.raw ∧ Firm l.raw ∧
      ∀ u, Alike l.rest u → readRegex? (l.raw ++ u) = some ⟨l.raw, u⟩ := by
  rcases readRegex?_eq_some_iff.1 h with ⟨ht, hquiet, body, flags, hraw, hpattern, hflags⟩
  have hsolid : Solid flags := fun c hc => isSpace_of_isIdentifierPart (hflags.1 c hc)
  refine ⟨ht, ?_, ?_, fun u hu => readRegex?_eq_some_iff.2
    ⟨rfl, hquiet.of_alike hu, body, flags, hraw, hpattern, hflags⟩⟩
  · rw [hraw]
    exact inline_cons.2 ⟨by decide, inline_append.2 ⟨hpattern.inline, hsolid.inline⟩⟩
  · rw [hraw]
    exact (hpattern.firm.append hsolid).cons '/'

end Literal

end Script

end ProcedureGen
