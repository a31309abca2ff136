import ProcedureGen.Proofs.Script.Token
import ProcedureGen.Script.Phrase

/-!
# Goals

Where the same text may begin more than one token, it is the parser that tells the scanner which one
is meant.  With what it asks for each time, scanning is a function of the text.

* `Goal.scan`: the first token of a text, of the sort that is asked for;
* `Goal.Settled`: a token that has been scanned, and what may be changed about it;
* `Goal.scan_settled`: every token that is scanned is settled;
* `scanAs`: all tokens of a text, with the end of the text as the last one.
-/

namespace ProcedureGen
namespace Script

/-- What the parser asks for where it reads a token. -/
inductive Goal where
  | plain | regex | templateRest
  /-- The first part of a longer mark. -/
  | part (mark : Punctuator)
  deriving DecidableEq, Repr

namespace Goal

/-- The first token of a text, of the sort that is asked for, and what stands behind it. -/
def scan (goal : Goal) (x : Text) : Option (Token × Text) :=
  let (token, rest) := Token.scan x
  match goal with
  | .plain => if token.kind ∈ [.invalid, .endOfText] then none else some (token, rest)
  | .regex => token.scanRegex rest
  | .templateRest => token.scanTemplateRest rest
  | .part p =>
    match token.kind with
    | .punctuator q =>
      if p.spelling.isPrefixOf q.spelling then
        some ({ token with kind := .punctuator p, raw := p.spelling },
          token.raw.drop p.spelling.length ++ rest)
      else none
    | _ => none

end Goal

/-- All tokens of a text, the end of the text among them, if the goals are those of its tokens. -/
def scanAs : List Goal → Text → Option (List Token)
  | [], x =>
    let (token, _) := Token.scan x
    if token.kind = .endOfText then some [token] else none
  | goal :: goals, x =>
    match goal.scan x with
    | none => none
    | some (token, rest) => (scanAs goals rest).map (token :: ·)

namespace Token

variable {x y g : Text} {t : Token} {rest : Text} {k : Kind} {l : Literal}

/-! ## Tokens behind gaps -/

/-- The end of a text and the marks are read in one way only. -/
theorem read?_kind (h : read? y = some (k, l)) :
    (k = .endOfText → y = [] ∧ l = ⟨[], []⟩) ∧ ∀ p, k = .punctuator p → l.raw = p.spelling := by
  have hword : ∀ w : Word, w.kind ≠ .endOfText ∧ ∀ p, w.kind ≠ .punctuator p := by
    intro w
    unfold Word.kind
    split
    · simp
    · split
      · simp
      · split <;> simp
  revert h
  fun_cases read? y with
  | case1 | case7 =>
      intro h
      rcases Prod.mk.inj (Option.some.inj h) with ⟨rfl, rfl⟩
      simp
  | case2 | case8 | case9 => simp
  | case3 | case4 | case6 =>
      intro h
      rcases Option.map_eq_some_iff.1 h with ⟨m, -, heq⟩
      rcases Prod.mk.inj heq with ⟨rfl, rfl⟩
      simp
  | case5 =>
      intro h
      rcases Option.map_eq_some_iff.1 h with ⟨w, -, heq⟩
      rcases Prod.mk.inj heq with ⟨rfl, rfl⟩
      exact ⟨fun h => absurd h (hword w).1, fun p h => absurd h ((hword w).2 p)⟩
  | case10 =>
      intro h
      rcases Option.map_eq_some_iff.1 h with ⟨⟨q, after⟩, -, heq⟩
      rcases Prod.mk.inj heq with ⟨rfl, rfl⟩
      simp

theorem read?_mark_raw {p : Punctuator} (h : read? y = some (.punctuator p, l)) :
    l.raw = p.spelling := (read?_kind h).2 p rfl

theorem read?_eq (h : read? y = some (k, l)) : y = l.raw ++ l.rest := by
  by_cases hk : k = .endOfText
  · subst hk
    rcases (read?_kind h).1 rfl with ⟨rfl, rfl⟩
    rfl
  · exact (read?_again h hk).split

/-- The gap of the first token, and what stands behind it. -/
theorem scan_gap (h : scan x = (t, rest)) :
    t.gap = (Gap.scan .blank x).text ∧ t.onNewLine = t.gap.any isLineEnd ∧
      t.raw ++ rest = (Gap.scan .blank x).rest := by
  have hgap := Gap.hasLineEnd_eq .blank x
  unfold scan at h
  dsimp only at h
  split at h
  next hclosed =>
    cases hread : read? (Gap.scan .blank x).rest with
    | none =>
        rw [hread] at h
        rcases Prod.mk.inj h with ⟨rfl, rfl⟩
        exact ⟨rfl, hgap, List.append_nil _⟩
    | some found =>
        rw [hread] at h
        rcases Prod.mk.inj h with ⟨rfl, rfl⟩
        exact ⟨rfl, hgap, (read?_eq hread).symm⟩
  · rcases Prod.mk.inj h with ⟨rfl, rfl⟩
    exact ⟨rfl, hgap, List.append_nil _⟩

theorem scan_split (h : scan x = (t, rest)) : x = t.gap ++ (t.raw ++ rest) := by
  rcases scan_gap h with ⟨hgap, -, hrest⟩
  rw [hgap, hrest, Gap.text_append_rest]

/-- Every token but an invalid one stands behind a gap that is complete. -/
theorem scan_valid (h : scan x = (t, rest)) (hk : t.kind ≠ .invalid) :
    Gap.Complete .blank t.gap (t.raw ++ rest) ∧
      read? (t.raw ++ rest) = some (t.kind, ⟨t.raw, rest⟩) := by
  rcases scan_gap h with ⟨hgap, -, hrest⟩
  rw [hgap, hrest]
  unfold scan at h
  dsimp only at h
  split at h
  next hclosed =>
    refine ⟨Gap.complete_scan .blank x hclosed, ?_⟩
    cases hread : read? (Gap.scan .blank x).rest with
    | none =>
        rw [hread] at h
        rcases Prod.mk.inj h with ⟨rfl, rfl⟩
        exact absurd rfl hk
    | some found =>
        rw [hread] at h
        rcases Prod.mk.inj h with ⟨rfl, rfl⟩
        rfl
  · rcases Prod.mk.inj h with ⟨rfl, rfl⟩
    exact absurd rfl hk

theorem scan_opens (h : scan x = (t, rest)) (hne : t.raw ++ rest ≠ []) :
    Gap.pass .blank t.gap = some .blank ∧ opensToken (t.raw ++ rest) = true := by
  rcases scan_gap h with ⟨hgap, -, hrest⟩
  rw [hrest] at hne
  rcases Gap.complete_scan .blank x (Gap.closed_of_rest hne) with hopens | ⟨hnil, -⟩
  · rw [hgap, hrest]
    exact hopens
  · exact absurd hnil hne

theorem scan_of_complete (h : Gap.Complete .blank g y) :
    scan (g ++ y) = ofRead ⟨g, g.any isLineEnd, true, y⟩ (read? y) := by
  unfold scan
  rw [h.scan_eq]
  rfl

/-- A closing brace is scanned whatever stands behind it. -/
theorem scan_braceClose (hg : Gap.pass .blank g = some .blank) (rest : Text) :
    scan (g ++ '\x7d' :: rest) =
      (⟨.punctuator .braceClose, g, ['\x7d'], g.any isLineEnd⟩, rest) := by
  have hmark : Punctuator.read? ('\x7d' :: rest) = some (.braceClose, rest) :=
    Punctuator.read?_of_longest? rfl (by simp)
  rw [scan_of_complete (.of_opens hg rfl), read?_mark (by decide) hmark]
  rfl

end Token

/-- A text that begins a token does so with other line ends in the token, and whatever stands
behind. -/
theorem opensToken_again {t r u rest : Text} (h : opensToken (t ++ rest) = true) (ht : t ≠ [])
    (hr : Respelled t r) (hu : Alike rest u) : opensToken (r ++ u) = true := by
  rcases List.exists_cons_of_ne_nil ht with ⟨c, t, rfl⟩
  rw [List.cons_append, opensToken_cons] at h
  rcases hr.cons_inv h.1 with ⟨v, rfl, hv⟩
  have hhead : ∀ d ∈ ['/', '*'], (v ++ u).head? = some d → (t ++ rest).head? = some d := by
    intro d hd hhead
    have hall : ∀ d ∈ ['/', '*'], isBlunt d = false ∧ isSpace d = false := by
      simp
      decide
    have hsharp := hall d hd
    by_cases hnil : t = []
    · rw [hv.eq_nil_iff.2 hnil, List.nil_append] at hhead
      rw [hnil]
      exact (hu.head? d hsharp.1).2 hhead
    · rw [List.head?_append_of_ne_nil _ (mt hv.eq_nil_iff.1 hnil)] at hhead
      rw [List.head?_append_of_ne_nil _ hnil]
      exact (hv.head? hsharp.2).1 hhead
  rw [List.cons_append, opensToken_cons]
  refine ⟨h.1, fun hc => ⟨fun hslash => ?_, fun hstar => ?_⟩⟩
  · exact (h.2 hc).1 (hhead '/' (by simp) hslash)
  · exact (h.2 hc).2 (hhead '*' (by simp) hstar)

/-! ## Settled tokens -/

namespace Goal

variable {goal : Goal} {x y rest : Text} {t token : Token}

/-- A token off the front of a text, and what may be changed about it: the gap in front of it, its
line ends, and the text behind, as long as that looks the same. -/
structure Settled (goal : Goal) (x : Text) (t : Token) (rest : Text) : Prop where
  split : x = t.gap ++ (t.raw ++ rest)
  gap : Gap.pass .blank t.gap = some .blank
  newLine : t.onNewLine = t.gap.any isLineEnd
  opens : opensToken (t.raw ++ rest) = true
  firm : Firm t.raw
  again : ∀ g r u, Gap.pass .blank g = some .blank → Respelled t.raw r → Alike rest u →
    goal.scan (g ++ (r ++ u)) = some (⟨t.kind, g, r, g.any isLineEnd⟩, u)

namespace Settled

variable {c : Char}

/-- A token starts with no space, -/
theorem head?_ne (h : Settled goal x t rest) (hc : isSpace c = true) :
    (t.raw ++ rest).head? ≠ some c := by
  intro hhead
  rcases List.head?_eq_some_iff.1 hhead with ⟨more, hmore⟩
  have hopens := h.opens
  rw [hmore, opensToken_cons, hc] at hopens
  cases hopens.1

/-- and ends in none. -/
theorem getLast?_ne (h : Settled goal x t rest) (hc : isSpace c = true) :
    t.raw.getLast? ≠ some c := h.firm.getLast?_ne hc

/-- A token is scanned again in front of every text that looks the same. -/
theorem scan_again {u : Text} (h : Settled goal x t rest) (hu : Alike rest u) :
    goal.scan (t.gap ++ (t.raw ++ u)) = some (t, u) := by
  rw [h.again t.gap t.raw u h.gap (.refl t.raw) hu, ← h.newLine]

end Settled

theorem scan_plain : scan .plain x = some (t, rest) ↔
    Token.scan x = (t, rest) ∧ t.kind ≠ .invalid ∧ t.kind ≠ .endOfText := by
  cases hscan : Token.scan x with
  | mk token more =>
      simp only [scan, hscan, Prod.mk.injEq]
      split
      next hkind =>
        simp only [reduceCtorEq, false_iff]
        rintro ⟨⟨rfl, -⟩, hvalid, hend⟩
        simp [hvalid, hend] at hkind
      next hkind =>
        simp only [Option.some.injEq, Prod.mk.injEq, iff_self_and]
        rintro ⟨rfl, -⟩
        simpa using hkind

theorem plain_settled (h : scan .plain x = some (t, rest)) : Settled .plain x t rest := by
  rcases scan_plain.1 h with ⟨hscan, hvalid, hend⟩
  have hagain := Token.read?_again (Token.scan_valid hscan hvalid).2 hend
  have hne := hagain.firm.ne_nil
  rcases Token.scan_opens hscan (by simp [hne]) with ⟨hgap, hopens⟩
  refine ⟨Token.scan_split hscan, hgap, (Token.scan_gap hscan).2.1, hopens, hagain.firm,
    fun g r u hg hr hu => ?_⟩
  have hcomplete := Gap.Complete.of_opens hg (opensToken_again hopens hne hr hu)
  rw [scan_plain, Token.scan_of_complete hcomplete, hagain.again r u hr hu]
  exact ⟨rfl, hvalid, hend⟩

/-- What stands behind a gap, as one text. -/
theorem scan_raw_append {g : Text} (hg : Gap.pass .blank g = some .blank) (hy : opensToken y = true)
    (h : Token.scan (g ++ y) = (token, rest)) :
    token.gap = g ∧ token.onNewLine = g.any isLineEnd ∧ token.raw ++ rest = y := by
  have hgap := Token.scan_gap h
  rw [Gap.scan_of_pass hg hy] at hgap
  rcases hgap with ⟨rfl, hend, hrest⟩
  exact ⟨rfl, hend, hrest⟩

theorem regex_settled (h : scan .regex x = some (t, rest)) : Settled .regex x t rest := by
  cases hscan : Token.scan x with
  | mk token more =>
      simp only [scan, hscan, Token.scanRegex] at h
      rcases Option.map_eq_some_iff.1 h with ⟨l, hl, heq⟩
      rcases Prod.mk.inj heq with ⟨rfl, rfl⟩
      rcases Literal.readRegex?_again hl with ⟨hsplit, hinline, hfirm, hagain⟩
      have hx := Token.scan_split hscan
      have hopens := Token.scan_opens hscan (by simp [hsplit, hfirm.ne_nil])
      rw [hsplit] at hx hopens
      refine ⟨hx, hopens.1, (Token.scan_gap hscan).2.1, hopens.2, hfirm,
        fun g r u hg hr hu => ?_⟩
      have hopens' := opensToken_again hopens.2 hfirm.ne_nil hr hu
      obtain rfl : r = l.raw := hinline.eq_of_respelled hr
      cases hscan' : Token.scan (g ++ (l.raw ++ u)) with
      | mk token' more' =>
          rcases scan_raw_append hg hopens' hscan' with ⟨hgap, hend, hmore⟩
          simp only [scan, hscan', Token.scanRegex, hmore, hagain u hu, Option.map_some, hgap, hend]

theorem templateRest_settled (h : scan .templateRest x = some (t, rest)) :
    Settled .templateRest x t rest := by
  cases hscan : Token.scan x with
  | mk token more =>
      simp only [scan, hscan, Token.scanTemplateRest] at h
      split at h
      next hkind =>
        rcases Option.map_eq_some_iff.1 h with ⟨⟨k, l⟩, hl, heq⟩
        rcases Prod.mk.inj heq with ⟨rfl, rfl⟩
        rcases Token.readTemplate?_again hl with ⟨hsplit, hfirm, raw, hraw, hagain⟩
        have hread := (Token.scan_valid hscan (by simp [hkind])).2
        rw [hkind] at hread
        have hbrace : token.raw = ['\x7d'] := Token.read?_mark_raw hread
        have hx := Token.scan_split hscan
        have hopens := Token.scan_opens hscan (by simp [hbrace])
        rw [hbrace, List.singleton_append, hsplit] at hx hopens
        refine ⟨hx, hopens.1, (Token.scan_gap hscan).2.1, hopens.2, hfirm,
          fun g r u hg hr hu => ?_⟩
        dsimp only at hr ⊢
        rw [hraw] at hr
        rcases hr.cons_inv (by decide) with ⟨v, rfl, hv⟩
        simp only [scan, List.cons_append, Token.scan_braceClose hg, Token.scanTemplateRest,
          hagain v hv u, Option.map_some]
      · cases h

theorem part_settled {p : Punctuator} (h : scan (.part p) x = some (t, rest)) :
    Settled (.part p) x t rest := by
  cases hscan : Token.scan x with
  | mk token more =>
      simp only [scan, hscan] at h
      split at h
      next q hkind =>
        split at h
        next hprefix =>
          rcases Prod.mk.inj (Option.some.inj h) with ⟨rfl, rfl⟩
          have hread := (Token.scan_valid hscan (by simp [hkind])).2
          rw [hkind] at hread
          have hraw : token.raw = q.spelling := Token.read?_mark_raw hread
          rcases List.isPrefixOf_iff_prefix.1 hprefix with ⟨v, hv⟩
          have hne := Punctuator.spelling_ne_nil p
          have hsharp : ∀ c ∈ v, isBlunt c = false := by
            rcases Punctuator.spelling_sharp q with hsharp | hbrace
            · exact fun c hc => hsharp c (by simp [← hv, hc])
            -- Nothing stands behind the first part of a closing brace.
            · rw [hbrace] at hv
              rcases List.exists_cons_of_ne_nil hne with ⟨d, w, hd⟩
              rw [hd] at hv
              obtain ⟨-, rfl⟩ := List.append_eq_nil_iff.1 (List.cons.inj hv).2
              simp
          have hx := Token.scan_split hscan
          have hopens := Token.scan_opens hscan (by simp [hraw, Punctuator.spelling_ne_nil])
          rw [hraw, ← hv, List.append_assoc] at hx hopens
          rw [hraw, ← hv, List.drop_left]
          refine ⟨hx, hopens.1, (Token.scan_gap hscan).2.1, hopens.2,
            Firm.of_solid (Punctuator.spelling_solid p) hne, fun g r u hg hr hu => ?_⟩
          have hcomplete := Gap.Complete.of_opens hg (opensToken_again hopens.2 hne hr hu)
          obtain rfl : r = p.spelling := (Punctuator.spelling_solid p).inline.eq_of_respelled hr
          rcases hu.append_inv hsharp with ⟨w, rfl, hw⟩
          have hscan' : Token.scan (g ++ (p.spelling ++ (v ++ w))) =
              (⟨.punctuator q, g, q.spelling, g.any isLineEnd⟩, w) := by
            rw [Token.scan_of_complete hcomplete, ← List.append_assoc, hv, ← hraw]
            rw [(Token.read?_again hread (by simp)).again _ w (.refl _) hw]
            rfl
          simp only [scan, hscan', hprefix, if_true]
          rw [← hv, List.drop_left]
        · cases h
      · cases h

/-- A mark is written in one way. -/
theorem scan_mark_raw {p : Punctuator} (h : goal.scan x = some (t, rest))
    (hk : t.kind = .punctuator p) : t.raw = p.spelling := by
  cases hscan : Token.scan x with
  | mk token more =>
      cases goal with
      | plain =>
          have hread := (Token.scan_valid (scan_plain.1 h).1 (scan_plain.1 h).2.1).2
          rw [hk] at hread
          exact Token.read?_mark_raw hread
      | regex =>
          simp only [scan, hscan, Token.scanRegex] at h
          rcases Option.map_eq_some_iff.1 h with ⟨l, -, heq⟩
          rcases Prod.mk.inj heq with ⟨rfl, -⟩
          cases hk
      | templateRest =>
          simp only [scan, hscan, Token.scanTemplateRest] at h
          split at h
          · rcases Option.map_eq_some_iff.1 h with ⟨⟨k, l⟩, hl, heq⟩
            rcases Prod.mk.inj heq with ⟨rfl, -⟩
            rcases Option.map_eq_some_iff.1 hl with ⟨m, -, heq'⟩
            rw [← (Prod.mk.inj heq').1] at hk
            cases hk
          · cases h
      | part q =>
          simp only [scan, hscan] at h
          split at h
          · split at h
            · rcases Prod.mk.inj (Option.some.inj h) with ⟨rfl, -⟩
              cases hk
              rfl
            · cases h
          · cases h

/-- What begins a regular expression is a slash, with an equals sign or without, where none is asked
for. -/
theorem kind_of_scan_regex (h : scan .regex x = some (t, y)) :
    (Token.scan x).1.kind =
      .punctuator (if (t.raw.drop 1).head? = some '=' then .slashAssign else .slash) := by
  have hsettled := regex_settled h
  have hraw : ∃ body, t.raw = '/' :: body ∧ body ≠ [] := by
    cases hscan : Token.scan x with
    | mk token more =>
        simp only [scan, hscan, Token.scanRegex] at h
        rcases Option.map_eq_some_iff.1 h with ⟨l, hl, heq⟩
        rcases Prod.mk.inj heq with ⟨rfl, -⟩
        rcases Literal.readRegex?_eq_some_iff.1 hl with ⟨-, -, body, flags, hraw, hbody, -⟩
        exact ⟨_, hraw, by simp [hbody.firm.ne_nil]⟩
  rcases hraw with ⟨body, hraw, hbody⟩
  have hhead : (body ++ y).head? = body.head? := List.head?_append_of_ne_nil _ hbody
  have hread : ∃ p rest, Punctuator.read? ('/' :: (body ++ y)) = some (p, rest) ∧
      p = if body.head? = some '=' then .slashAssign else .slash := by
    by_cases hequals : body.head? = some '='
    · rcases List.head?_eq_some_iff.1 hequals with ⟨more, rfl⟩
      exact ⟨_, _, Punctuator.read?_of_longest? rfl (by simp), by simp⟩
    · refine ⟨_, _, Punctuator.read?_of_longest? (Punctuator.longest?_slash ?_) (by simp), ?_⟩
      · rwa [hhead]
      · rw [if_neg hequals]
  rcases hread with ⟨p, rest, hread, hp⟩
  have hcomplete := Gap.Complete.of_opens hsettled.gap hsettled.opens
  rw [hraw, List.cons_append] at hcomplete
  rw [hsettled.split, hraw, List.cons_append, Token.scan_of_complete hcomplete,
    Token.read?_mark (by decide) hread]
  simp [Token.ofRead, hp]

/-- A regular expression stands on the line of the slash that begins it. -/
theorem scan_regex_inv (h : scan .regex x = some (t, y)) :
    t.kind = .regex ∧ t.onNewLine = (Token.scan x).1.onNewLine := by
  cases hscan : Token.scan x with
  | mk token more =>
      simp only [scan, hscan, Token.scanRegex] at h
      rcases Option.map_eq_some_iff.1 h with ⟨l, -, heq⟩
      rcases Prod.mk.inj heq with ⟨rfl, -⟩
      exact ⟨rfl, rfl⟩

/-- A regular expression goes over no line end. -/
theorem inline_of_scan_regex (h : scan .regex x = some (t, y)) : Inline t.raw := by
  cases hscan : Token.scan x with
  | mk token more =>
      simp only [scan, hscan, Token.scanRegex] at h
      rcases Option.map_eq_some_iff.1 h with ⟨l, hl, heq⟩
      rcases Prod.mk.inj heq with ⟨rfl, -⟩
      exact (Literal.readRegex?_again hl).2.1

/-- The rest of a template stands on the line of the closing brace that begins it. -/
theorem scan_templateRest_inv (h : scan .templateRest x = some (t, y)) :
    (Token.scan x).1.kind = .punctuator .braceClose ∧
      (∃ part sound, t.kind = .template part sound ∧ (part = .middle ∨ part = .tail)) ∧
      t.onNewLine = (Token.scan x).1.onNewLine := by
  cases hscan : Token.scan x with
  | mk token more =>
      simp only [scan, hscan, Token.scanTemplateRest] at h
      split at h
      next hkind =>
        rcases Option.map_eq_some_iff.1 h with ⟨⟨k, l⟩, hl, heq⟩
        rcases Prod.mk.inj heq with ⟨rfl, -⟩
        rcases Option.map_eq_some_iff.1 hl with ⟨⟨closes, m⟩, -, heq'⟩
        rcases Prod.mk.inj heq' with ⟨rfl, -⟩
        refine ⟨hkind, ⟨_, _, rfl, ?_⟩, rfl⟩
        cases closes <;> decide
      · cases h

/-- Whatever is asked for stands on the line of the token that stands there without a goal. -/
theorem onNewLine_of_scan (h : goal.scan x = some (t, y)) :
    t.onNewLine = (Token.scan x).1.onNewLine := by
  cases goal with
  | plain => rw [(scan_plain.1 h).1]
  | regex => exact (scan_regex_inv h).2
  | templateRest => exact (scan_templateRest_inv h).2.2
  | part p =>
      simp only [scan] at h
      split at h
      · split at h
        · obtain ⟨rfl, -⟩ := Prod.mk.inj (Option.some.inj h)
          rfl
        · cases h
      · cases h

/-- Every token that is scanned is settled. -/
theorem scan_settled (h : goal.scan x = some (t, rest)) : Settled goal x t rest := by
  cases goal with
  | plain => exact plain_settled h
  | regex => exact regex_settled h
  | templateRest => exact templateRest_settled h
  | part p => exact part_settled h

end Goal

end Script
end ProcedureGen
