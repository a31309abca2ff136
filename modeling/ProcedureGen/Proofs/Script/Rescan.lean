import Mathlib.Data.List.Forall2
import ProcedureGen.Proofs.Script.Goal
import ProcedureGen.Script.Tree

/-!
# Scanning a changed text

What may be done to a text so that it is scanned into the same tokens, behind other gaps.

* `scanAs_lineFeeds`: line ends `\r\n` may be written as `\n`;
* `Leads.scanAs`: a closing brace behind the text may be taken away;
* `scanAs_delete`: spaces at either end of the text, and beside a line feed, may be taken out.
-/

namespace ProcedureGen
namespace Script

open Text (lineFeeds)

variable {x y z a b w g : Text} {t : Token} {ts : List Token} {goal : Goal} {goals : List Goal}

/-! ## Scanning step by step -/

/-- The end of a text behind a gap. -/
def endToken (g : Text) : Token := ⟨.endOfText, g, [], g.any isLineEnd⟩

theorem scanAs_nil : scanAs [] x = some ts ↔ Gap.Complete .blank x [] ∧ ts = [endToken x] := by
  constructor
  · intro h
    cases hscan : Token.scan x with
    | mk t rest =>
        simp only [scanAs, hscan] at h
        split at h
        next hkind =>
          rcases Token.scan_valid hscan (by simp [hkind]) with ⟨hcomplete, hread⟩
          have hend := (Token.read?_kind hread).1 hkind
          rcases List.append_eq_nil_iff.1 hend.1 with ⟨hraw, -⟩
          have hx := Token.scan_split hscan
          have hline := (Token.scan_gap hscan).2.1
          rw [hend.1, List.append_nil] at hx
          rw [hend.1, ← hx] at hcomplete
          refine ⟨hcomplete, ?_⟩
          obtain rfl := Option.some.inj h
          rw [← hx] at hline
          rw [endToken, ← hline, ← hkind, ← hraw, hx]
        · cases h
  · rintro ⟨hcomplete, rfl⟩
    have hscan := Token.scan_of_complete hcomplete
    rw [List.append_nil] at hscan
    simp only [scanAs, hscan]
    rfl

theorem scanAs_cons : scanAs (goal :: goals) x = some ts ↔
    ∃ t rest more,
      goal.scan x = some (t, rest) ∧ scanAs goals rest = some more ∧ ts = t :: more := by
  constructor
  · intro h
    simp only [scanAs] at h
    split at h
    · cases h
    next t rest hscan =>
      rcases Option.map_eq_some_iff.1 h with ⟨more, hmore, rfl⟩
      exact ⟨t, rest, more, hscan, hmore, rfl⟩
  · rintro ⟨t, rest, more, hscan, hmore, rfl⟩
    simp [scanAs, hscan, hmore]

theorem sourceOf_append (ts us : List Token) :
    Tree.sourceOf (ts ++ us) = Tree.sourceOf ts ++ Tree.sourceOf us := List.flatMap_append

theorem sourceOf_cons (t : Token) (ts : List Token) :
    Tree.sourceOf (t :: ts) = t.gap ++ (t.raw ++ Tree.sourceOf ts) := by
  simp [Tree.sourceOf, Token.source]

/-- The tokens of a text are the text. -/
theorem sourceOf_scanAs (h : scanAs goals x = some ts) : Tree.sourceOf ts = x := by
  induction goals generalizing x ts with
  | nil =>
      rcases scanAs_nil.1 h with ⟨-, rfl⟩
      simp [Tree.sourceOf, Token.source, endToken]
  | cons goal goals ih =>
      rcases scanAs_cons.1 h with ⟨t, rest, more, hscan, hmore, rfl⟩
      rw [sourceOf_cons, ih hmore]
      exact (Goal.scan_settled hscan).split.symm

/-- A token that is written at all neither starts nor ends with a space. -/
theorem raw_of_scanAs (h : scanAs goals x = some ts) (ht : t ∈ ts) (hne : t.raw ≠ []) :
    Firm t.raw ∧ ∀ c ∈ t.raw.head?, isSpace c = false := by
  induction goals generalizing x ts with
  | nil =>
      rcases scanAs_nil.1 h with ⟨-, rfl⟩
      rw [List.mem_singleton.1 ht] at hne
      exact absurd rfl hne
  | cons goal goals ih =>
      rcases scanAs_cons.1 h with ⟨u, rest, more, hscan, hmore, rfl⟩
      rcases List.mem_cons.1 ht with rfl | ht
      · have hsettled := Goal.scan_settled hscan
        refine ⟨hsettled.firm, fun c hc => ?_⟩
        by_contra hspace
        have hhead := hsettled.head?_ne (c := c) (by simpa using hspace)
        rw [List.head?_append_of_ne_nil _ hne] at hhead
        exact hhead hc
      · exact ih hmore ht

/-- A token is put in front of a text that looks like the one behind it. -/
theorem Goal.Settled.scanAs (hsettled : goal.Settled x t y) {z : Text} (hz : Alike y z)
    (h : Script.scanAs goals z = some ts) :
    Script.scanAs (goal :: goals) (t.gap ++ (t.raw ++ z)) = some (t :: ts) :=
  scanAs_cons.2 ⟨t, z, ts, hsettled.scan_again hz, h, rfl⟩

/-! ## Tokens at the start of a line -/

/-- Whether each token stands at the start of a line, the end of the text apart. -/
def lineStarts (ts : List Token) : List Bool := ts.dropLast.map Token.onNewLine

theorem lineStarts_cons (h : ts ≠ []) (t : Token) :
    lineStarts (t :: ts) = t.onNewLine :: lineStarts ts := by
  rw [lineStarts, List.dropLast_cons_of_ne_nil h]
  rfl

@[simp] theorem lineStarts_concat (ts : List Token) (t : Token) :
    lineStarts (ts ++ [t]) = ts.map Token.onNewLine := by
  rw [lineStarts, List.dropLast_concat]

/-- The end of a text is a token. -/
theorem ne_nil_of_scanAs (h : scanAs goals x = some ts) : ts ≠ [] := by
  cases goals with
  | nil => simp [(scanAs_nil.1 h).2]
  | cons goal goals =>
      rcases scanAs_cons.1 h with ⟨t, rest, more, -, -, rfl⟩
      simp

/-! ## Writing line ends another way -/

/-- The token with every line end `\r\n` in it and in front of it written as `\n`. -/
def Token.lineFeeds (t : Token) : Token :=
  { t with gap := Text.lineFeeds t.gap, raw := Text.lineFeeds t.raw }

theorem any_isLineEnd_lineFeeds (g : Text) : (lineFeeds g).any isLineEnd = g.any isLineEnd := by
  fun_induction Text.lineFeeds g with
  | case1 rest ih =>
      have hfeed : isLineEnd '\n' = true := by decide
      simp [hfeed]
  | case2 c rest _ ih => simp [ih]
  | case3 => rfl

/-- A token sees nothing of how the line ends behind it are written. -/
theorem alike_lineFeeds (x : Text) : Alike x (lineFeeds x) := by
  fun_induction Text.lineFeeds x with
  | case1 rest ih => exact Alike.of_blunt (by simp; decide) (by simp; decide)
  | case2 c rest _ ih => exact ih.cons c
  | case3 => exact Alike.refl []

theorem Goal.Settled.lineFeeds_split (h : Goal.Settled goal x t y) :
    lineFeeds x = lineFeeds t.gap ++ (lineFeeds t.raw ++ lineFeeds y) := by
  have hraw := h.head?_ne (c := '\n') (by decide)
  have hlast := h.getLast?_ne (c := '\r') (by decide)
  rw [h.split, Text.lineFeeds_append fun _ => hraw, Text.lineFeeds_append fun h => absurd h hlast]

theorem Goal.scan_lineFeeds (h : goal.scan x = some (t, y)) :
    goal.scan (lineFeeds x) = some (t.lineFeeds, lineFeeds y) := by
  have hsettled := scan_settled h
  have hgap : Gap.pass .blank (lineFeeds t.gap) = some .blank :=
    (Gap.pass_lineFeeds _ _).trans hsettled.gap
  have hagain := hsettled.again _ _ _ hgap (.inl (.lineFeeds false t.raw)) (alike_lineFeeds y)
  rw [any_isLineEnd_lineFeeds, ← hsettled.newLine] at hagain
  rw [hsettled.lineFeeds_split]
  exact hagain

/-- A text is scanned into the same tokens whichever way its line ends are written. -/
theorem scanAs_lineFeeds (h : scanAs goals x = some ts) :
    scanAs goals (lineFeeds x) = some (ts.map Token.lineFeeds) := by
  induction goals generalizing x ts with
  | nil =>
      rcases scanAs_nil.1 h with ⟨hcomplete, rfl⟩
      rw [scanAs_nil]
      constructor
      · rcases hcomplete with ⟨-, hopens⟩ | ⟨-, hpass⟩
        · cases hopens
        · exact .inr ⟨rfl, by simpa only [Gap.pass_lineFeeds] using hpass⟩
      · simp [endToken, Token.lineFeeds, any_isLineEnd_lineFeeds]
  | cons goal goals ih =>
      rcases scanAs_cons.1 h with ⟨t, rest, more, hscan, hmore, rfl⟩
      exact scanAs_cons.2 ⟨_, _, _, Goal.scan_lineFeeds hscan, ih hmore, rfl⟩

/-! ## In front of a closing brace -/

/-- Some tokens from the front of a text, and the text behind them. -/
inductive Leads : List Goal → Text → List Token → Text → Prop where
  | nil (x : Text) : Leads [] x [] x
  | cons {goal : Goal} {goals : List Goal} {x y z : Text} {t : Token} {ts : List Token} :
      goal.scan x = some (t, y) → Leads goals y ts z → Leads (goal :: goals) x (t :: ts) z

/-- No token sees a closing brace behind it. -/
theorem alike_brace (g z : Text) : Alike (g ++ '\x7d' :: z) g := by
  have hblunt : Alike ('\x7d' :: z) [] := Alike.of_blunt (by simp; decide) (by simp)
  simpa using hblunt.append_left g

namespace Leads

theorem sourceOf_append (h : Leads goals x ts z) : x = Tree.sourceOf ts ++ z := by
  induction h with
  | nil x => rfl
  | cons hscan _ ih =>
      rw [(Goal.scan_settled hscan).split, ih, sourceOf_cons]
      simp

/-- What stands in front of a closing brace is scanned alone into the same tokens. -/
theorem scanAs (h : Leads goals x ts (g ++ '\x7d' :: z)) (hg : Gap.pass .blank g = some .blank) :
    scanAs goals (Tree.sourceOf ts ++ g) = some (ts ++ [endToken g]) := by
  generalize hy : g ++ '\x7d' :: z = y at h
  induction h with
  | nil x => exact scanAs_nil.2 ⟨.inr ⟨rfl, .inl hg⟩, rfl⟩
  | @cons goal goals x y z t ts hscan hleads ih =>
      have hsettled := Goal.scan_settled hscan
      have halike : Alike y (Tree.sourceOf ts ++ g) := by
        rw [hleads.sourceOf_append, ← hy]
        exact (alike_brace g _).append_left (Tree.sourceOf ts)
      simpa [sourceOf_cons] using hsettled.scanAs halike (ih hy)

end Leads

/-- What is scanned up to the end of a text is scanned in front of texts that begin with a blunt
character. -/
theorem leads_of_scanAs (h : scanAs goals x = some ts) {u : Text}
    (hu : ∀ c ∈ u.head?, isBlunt c = true) :
    ∃ us g, ts = us ++ [endToken g] ∧ Gap.Complete .blank g [] ∧
      Leads goals (x ++ u) us (g ++ u) := by
  induction goals generalizing x ts with
  | nil =>
      rcases scanAs_nil.1 h with ⟨hcomplete, rfl⟩
      exact ⟨[], x, rfl, hcomplete, .nil (x ++ u)⟩
  | cons goal goals ih =>
      rcases scanAs_cons.1 h with ⟨t, rest, more, hscan, hmore, rfl⟩
      rcases ih hmore with ⟨us, g, rfl, hcomplete, hleads⟩
      have hsettled := Goal.scan_settled hscan
      have halike : Alike (rest ++ []) (rest ++ u) :=
        (Alike.of_blunt (by simp) hu).append_left rest
      rw [List.append_nil] at halike
      refine ⟨t :: us, g, rfl, hcomplete, .cons ?_ hleads⟩
      rw [hsettled.split]
      simpa using hsettled.scan_again halike

/-! ## Taking out spaces -/

/-- A place at which spaces may be taken out of a text: beside a line feed, or at the end. -/
def Loose (a b : Text) : Prop := a.getLast? = some '\n' ∨ b = [] ∨ b.head? = some '\n'

theorem Loose.alike (h : Loose a b) (hw : ∀ c ∈ w, isSpace c = true) :
    Alike (a ++ (w ++ b)) (a ++ b) := by
  have hfeed : isBlunt '\n' = true := by decide
  rcases h with ha | hb
  · rcases List.getLast?_eq_some_iff.1 ha with ⟨a, rfl⟩
    have hblunt : Alike ('\n' :: (w ++ b)) ('\n' :: b) := by
      apply Alike.of_blunt <;> simp [hfeed]
    simpa using hblunt.append_left a
  · have hb' : ∀ c ∈ b.head?, isBlunt c = true := by
      rcases hb with rfl | hb
      · simp
      · simp [hb, hfeed]
    have hboth : ∀ c ∈ (w ++ b).head?, isBlunt c = true := by
      cases w with
      | nil => exact hb'
      | cons d w =>
          intro c hc
          obtain rfl : d = c := Option.some.inj hc
          exact isBlunt_of_isSpace (hw d (by simp))
    exact (Alike.of_blunt hboth hb').append_left a

theorem Gap.pass_delete (h : a = [] ∨ a.getLast? = some '\n' ∨ b.head? = some '\n')
    (hw : ∀ c ∈ w, isSpace c = true) : pass .blank (a ++ (w ++ b)) = pass .blank (a ++ b) := by
  rcases h with rfl | ha | hb
  · exact (pass_spaces hw b).1
  · rcases List.getLast?_eq_some_iff.1 ha with ⟨a, rfl⟩
    simpa using pass_behind_feed hw .blank a b
  · rcases List.head?_eq_some_iff.1 hb with ⟨b, rfl⟩
    exact pass_before_feed hw .blank a b

/-- Spaces at a loose place may be taken out of the end of a text. -/
theorem Gap.complete_delete (h : a = [] ∨ Loose a b) (hw : ∀ c ∈ w, isSpace c = true)
    (hcomplete : Complete .blank (a ++ (w ++ b)) []) : Complete .blank (a ++ b) [] := by
  by_cases hb : b = []
  · subst hb
    rw [List.append_nil] at hcomplete ⊢
    exact complete_of_spaces hw hcomplete
  · have hplace : a = [] ∨ a.getLast? = some '\n' ∨ b.head? = some '\n' := by
      simpa [Loose, hb] using h
    simpa only [Complete, pass_delete hplace hw] using hcomplete

/-- A loose place in the gap of a token is loose within the gap. -/
theorem Loose.within_gap {raw : Text} (h : Loose a (g ++ (raw ++ y)))
    (hopens : opensToken (raw ++ y) = true) :
    a.getLast? = some '\n' ∨ g.head? = some '\n' := by
  refine h.imp_right fun hb => ?_
  cases g with
  | nil =>
      rw [List.nil_append] at hb
      rcases hb with hnil | hfeed
      · rw [hnil] at hopens
        cases hopens
      · rcases List.head?_eq_some_iff.1 hfeed with ⟨more, hmore⟩
        rw [hmore, opensToken_cons] at hopens
        exact absurd hopens.1 (by decide)
  | cons c g => simpa using hb

/-- A loose place behind a token is loose in the text behind that token. -/
theorem Loose.behind {raw : Text} (h : Loose (g ++ (raw ++ a)) b) (hfirm : Firm raw) :
    Loose a b := by
  refine h.imp_left fun hfeed => ?_
  cases a with
  | nil =>
      rw [List.append_nil, List.getLast?_append_of_ne_nil _ hfirm.ne_nil] at hfeed
      exact absurd hfeed (hfirm.getLast?_ne (by decide))
  | cons c a => simpa using hfeed

/-- Spaces at a loose place inside a token stand beside one of its line feeds. -/
theorem Loose.rewritten {p q : Text} (h : Loose (g ++ p) (q ++ z)) (hw : ∀ c ∈ w, isSpace c = true)
    (hp : p ≠ []) (hq : q ≠ []) : Rewritten false (p ++ (w ++ q)) (p ++ q) := by
  rcases h with hfeed | hnil | hfeed
  · rw [List.getLast?_append_of_ne_nil _ hp] at hfeed
    rcases List.getLast?_eq_some_iff.1 hfeed with ⟨p, rfl⟩
    simpa using Rewritten.delete_behind hw false p q
  · exact absurd (List.append_eq_nil_iff.1 hnil).1 hq
  · rw [List.head?_append_of_ne_nil _ hq] at hfeed
    rcases List.head?_eq_some_iff.1 hfeed with ⟨q, rfl⟩
    exact Rewritten.delete_before hw false p q

/-- A token behind a gap out of which some text has been taken, or nothing. -/
structure Regapped (w : Text) (t t' : Token) : Prop where
  kind : t'.kind = t.kind
  raw : t'.raw = t.raw
  gap : t'.gap = t.gap ∨ ∃ p q, t.gap = p ++ (w ++ q) ∧ t'.gap = p ++ q

namespace Regapped

variable {t' : Token} {c : Char}

theorem refl (w : Text) (t : Token) : Regapped w t t := ⟨rfl, rfl, .inl rfl⟩

theorem mem_gap (h : Regapped w t t') (hc : c ∉ w) : c ∈ t'.gap ↔ c ∈ t.gap := by
  rcases h.gap with hgap | ⟨p, q, hgap, hgap'⟩
  · rw [hgap]
  · simp [hgap, hgap', hc]

theorem filter_gap {keep : Char → Bool} (h : Regapped w t t') (hw : ∀ c ∈ w, keep c = false) :
    t'.gap.filter keep = t.gap.filter keep := by
  rcases h.gap with hgap | ⟨p, q, hgap, hgap'⟩
  · rw [hgap]
  · have hnone : w.filter keep = [] := List.filter_eq_nil_iff.2 fun c hc => by simp [hw c hc]
    simp [hgap, hgap', hnone]

end Regapped

/-- Where a run of spaces may stand in a text that starts with a gap and a token. -/
theorem split_cases {gap raw rest : Text} (h : gap ++ (raw ++ rest) = a ++ (w ++ b))
    (hopens : opensToken (raw ++ rest) = true) (hfirm : Firm raw)
    (hw : ∀ c ∈ w, isSpace c = true) (hne : w ≠ []) :
    (∃ g, gap = a ++ (w ++ g) ∧ b = g ++ (raw ++ rest)) ∨
      (∃ a', a = gap ++ (raw ++ a') ∧ rest = a' ++ (w ++ b)) ∨
      ∃ p q, p ≠ [] ∧ q ≠ [] ∧ a = gap ++ p ∧ raw = p ++ (w ++ q) := by
  have hhead : ∀ {u v : Text}, u ≠ [] → (∀ c ∈ u, isSpace c = true) → raw ++ rest ≠ u ++ v := by
    intro u v hu hspaces heq
    rcases List.exists_cons_of_ne_nil hu with ⟨c, u, rfl⟩
    rw [heq, List.cons_append, opensToken_cons, hspaces c (by simp)] at hopens
    cases hopens.1
  rcases List.append_eq_append_iff.1 h with ⟨p, rfl, hp⟩ | ⟨g, rfl, hg⟩
  · rcases List.append_eq_append_iff.1 hp with ⟨a', rfl, hrest⟩ | ⟨r, rfl, hr⟩
    · exact .inr (.inl ⟨a', rfl, hrest⟩)
    · rcases List.append_eq_append_iff.1 hr with ⟨q, rfl, -⟩ | ⟨w', rfl, hrest⟩
      -- The run begins inside the token or at its start, and ends inside it.
      · have hp : p ≠ [] := by
          rintro rfl
          exact hhead hne hw (List.append_assoc w q rest)
        have hq : q ≠ [] := by
          rintro rfl
          rw [List.append_nil] at hfirm
          exact hne (hfirm.eq_nil_of_append hw)
        exact .inr (.inr ⟨p, q, hp, hq, rfl, rfl⟩)
      -- No token ends in spaces, so that the run begins behind it.
      · obtain rfl := hfirm.eq_nil_of_append fun c hc => hw c (List.mem_append_left w' hc)
        exact .inr (.inl ⟨[], by simp, by simpa using hrest⟩)
  · rcases List.append_eq_append_iff.1 hg with ⟨g', rfl, hb⟩ | ⟨w', rfl, hraw⟩
    · exact .inl ⟨g', rfl, hb⟩
    · obtain rfl : w' = [] := by
        by_contra hw'
        exact hhead hw' (fun c hc => hw c (List.mem_append_right g hc)) hraw
      exact .inl ⟨[], by simp, by simpa using hraw.symm⟩

/-- Characters behind a text that stand inside no token, if there are any. -/
def InsideNone (a w : Text) (ts : List Token) : Prop :=
  ∀ (pre : List Token) (t : Token) (post : List Token) (p q : Text), ts = pre ++ t :: post →
    p ≠ [] → q ≠ [] → a = Tree.sourceOf pre ++ (t.gap ++ p) → t.raw = p ++ (w ++ q) → w = []

/-- Spaces at a loose place belong to a gap or stand inside a token, and those of a gap may be taken
out.  Only the first token may begin a line no longer, if no line feed stands beside the spaces. -/
theorem scanAs_delete (h : scanAs goals (a ++ (w ++ b)) = some ts)
    (hw : ∀ c ∈ w, isSpace c = true) (hloose : a = [] ∨ Loose a b)
    (hfit : InsideNone a w ts) :
    ∃ ts', scanAs goals (a ++ b) = some ts' ∧ List.Forall₂ (Regapped w) ts ts' ∧
      (lineStarts ts').tail = (lineStarts ts).tail ∧
      (Loose a b → lineStarts ts' = lineStarts ts) := by
  by_cases hne : w = []
  · subst hne
    exact ⟨ts, h, List.forall₂_same.2 fun t _ => .refl [] t, rfl, fun _ => rfl⟩
  · induction goals generalizing a ts with
    | nil =>
        rcases scanAs_nil.1 h with ⟨hcomplete, rfl⟩
        exact ⟨_, scanAs_nil.2 ⟨Gap.complete_delete hloose hw hcomplete, rfl⟩,
          .cons ⟨rfl, rfl, .inr ⟨a, b, rfl, rfl⟩⟩ .nil, rfl, fun _ => rfl⟩
    | cons goal goals ih =>
        rcases scanAs_cons.1 h with ⟨t, rest, more, hscan, hmore, rfl⟩
        have hsettled := Goal.scan_settled hscan
        have hmore' := ne_nil_of_scanAs hmore
        rcases split_cases hsettled.split.symm hsettled.opens hsettled.firm hw hne with
          ⟨g, hgap, rfl⟩ | ⟨a', rfl, rfl⟩ | ⟨p, q, hp, hq, ha, hraw⟩
        -- In the gap of the first token: only this gap changes.
        · have hplace := hloose.imp_right fun hloose => hloose.within_gap hsettled.opens
          have hends : Loose a (g ++ (t.raw ++ rest)) →
              (a ++ g).any isLineEnd = (a ++ (w ++ g)).any isLineEnd := by
            intro hloose
            have hfeed : '\n' ∈ a ∨ '\n' ∈ g := (hloose.within_gap hsettled.opens).imp
              List.mem_of_getLast? List.mem_of_head?
            have hend : isLineEnd '\n' = true := by decide
            rw [List.any_eq_true.2 ⟨'\n', by simpa using hfeed, hend⟩,
              List.any_eq_true.2 ⟨'\n', by grind, hend⟩]
          have hpass := hsettled.gap
          rw [hgap, Gap.pass_delete hplace hw] at hpass
          have hagain := hsettled.again _ _ _ hpass (.refl t.raw) (.refl rest)
          rw [← List.append_assoc]
          exact ⟨_, scanAs_cons.2 ⟨_, _, _, hagain, hmore, rfl⟩,
            .cons ⟨rfl, rfl, .inr ⟨a, g, hgap, rfl⟩⟩ (List.forall₂_same.2 fun t _ => .refl w t),
            by rw [lineStarts_cons hmore', lineStarts_cons hmore']; rfl, fun hloose => by
              rw [lineStarts_cons hmore', lineStarts_cons hmore', hends hloose, hsettled.newLine,
                hgap]⟩
        -- Behind the first token, which sees nothing of it.
        · have hloose' : Loose a' b := by
            refine (hloose.resolve_left ?_).behind hsettled.firm
            simp [hsettled.firm.ne_nil]
          have hfit' : InsideNone a' w more := by
            intro pre u post p q hmore hp hq ha hraw
            refine hfit (t :: pre) u post p q (by simp [hmore]) hp hq ?_ hraw
            simp [ha, sourceOf_cons]
          rcases ih hmore (.inr hloose') hfit' with ⟨ts', hts', hregapped, -, hlines⟩
          have hstarts : lineStarts (t :: ts') = lineStarts (t :: more) := by
            rw [lineStarts_cons (ne_nil_of_scanAs hts'), lineStarts_cons hmore', hlines hloose']
          refine ⟨t :: ts', ?_, .cons (.refl w t) hregapped, congrArg List.tail hstarts,
            fun _ => hstarts⟩
          simpa using hsettled.scanAs (hloose'.alike hw) hts'
        -- Inside the first token, which the caller has ruled out.
        · exact absurd (hfit [] t more p q rfl hp hq ha hraw) hne

/-- What stands behind a token in which spaces are found stands behind these spaces. -/
theorem behind_eq {pre post : List Token} {p q : Text}
    (h : scanAs goals (a ++ (w ++ b)) = some (pre ++ t :: post))
    (ha : a = Tree.sourceOf pre ++ (t.gap ++ p)) (hraw : t.raw = p ++ (w ++ q)) :
    b = q ++ Tree.sourceOf post := by
  have hsource := sourceOf_scanAs h
  rw [sourceOf_append, sourceOf_cons, hraw, ha] at hsource
  simpa using hsource.symm

/-- Spaces at a loose place inside a token may be taken out of the token. -/
theorem scanAs_trim {pre post : List Token} {p q : Text}
    (h : scanAs goals (a ++ (w ++ b)) = some (pre ++ t :: post))
    (hw : ∀ c ∈ w, isSpace c = true) (hloose : Loose a b) (hp : p ≠ []) (hq : q ≠ [])
    (ha : a = Tree.sourceOf pre ++ (t.gap ++ p)) (hraw : t.raw = p ++ (w ++ q)) :
    scanAs goals (a ++ b) = some (pre ++ { t with raw := p ++ q } :: post) := by
  have hb := behind_eq h ha hraw
  induction pre generalizing goals a with
  | nil =>
      have hrewritten : Rewritten false t.raw (p ++ q) := by
        rw [ha, hb, ← List.append_assoc] at hloose
        rw [hraw]
        exact hloose.rewritten hw hp hq
      cases goals with
      | nil =>
          have hend := (List.cons.inj (scanAs_nil.1 h).2).1
          rw [hend] at hraw
          simp [endToken, hp] at hraw
      | cons goal goals =>
          rcases scanAs_cons.1 h with ⟨t', rest, more, hscan, hmore, heq⟩
          rcases List.cons.inj heq with ⟨rfl, rfl⟩
          have hsettled := Goal.scan_settled hscan
          have hagain := hsettled.again _ _ _ hsettled.gap (.inl hrewritten) (.refl rest)
          rw [← hsettled.newLine] at hagain
          rw [List.nil_append, scanAs_cons]
          refine ⟨_, rest, post, ?_, hmore, rfl⟩
          rw [ha, hb, sourceOf_scanAs hmore]
          simpa [Tree.sourceOf] using hagain
  | cons u pre ih =>
      cases goals with
      | nil => simpa using (List.cons.inj (scanAs_nil.1 h).2).2
      | cons goal goals =>
          rcases scanAs_cons.1 h with ⟨u', rest, more, hscan, hmore, heq⟩
          rcases List.cons.inj heq with ⟨rfl, rfl⟩
          have hsettled := Goal.scan_settled hscan
          obtain ⟨a', ha'⟩ : ∃ a', a' = Tree.sourceOf pre ++ (t.gap ++ p) := ⟨_, rfl⟩
          obtain rfl : a = u.gap ++ (u.raw ++ a') := by
            rw [ha, ha', sourceOf_cons]
            simp
          obtain rfl : rest = a' ++ (w ++ b) := by
            simpa using hsettled.split.symm
          have hloose' : Loose a' b := hloose.behind hsettled.firm
          simpa using hsettled.scanAs (hloose'.alike hw) (ih hmore hloose' ha')

end Script
end ProcedureGen
