import ProcedureGen.Proofs.Body.Block
import ProcedureGen.Proofs.Script.EarlyError

/-!
# The lines of a body

Reading lines takes white space out beside the braces and writes line ends another way.  The tokens
stay the same; only those that go over the end of the first line or the start of the last one lose
white space of their own.

* `trimFirstEdge`, `trimLastEdge`: what these tokens lose;
* `scanAs_innerLines`: what the lines of a text are scanned into;
* `FunctionBody.read_lines`: what the lines of a body are scanned into.
-/

namespace ProcedureGen

open Script

namespace Text

variable {p q : Text}

/-- A text without white space in front of its first line feed. -/
def trimFirstRow (t : Text) : Text :=
  trimEnd (t.takeWhile (· ≠ '\n')) ++ t.dropWhile (· ≠ '\n')

/-- A text without white space behind its last line feed. -/
def trimLastRow (t : Text) : Text :=
  (t.reverse.dropWhile (· ≠ '\n')).reverse ++ trimStart (t.reverse.takeWhile (· ≠ '\n')).reverse

theorem trimFirstRow_append (hp : '\n' ∉ p) :
    trimFirstRow (p ++ '\n' :: q) = trimEnd p ++ '\n' :: q := by
  have hpos : ∀ c ∈ p, decide (c ≠ '\n') = true := fun c hc => by
    simpa using ne_of_mem_of_not_mem hc hp
  rw [trimFirstRow, List.takeWhile_append_of_pos hpos, List.dropWhile_append_of_pos hpos]
  simp

theorem trimLastRow_append (hq : '\n' ∉ q) :
    trimLastRow (p ++ '\n' :: q) = p ++ '\n' :: trimStart q := by
  have hpos : ∀ c ∈ q.reverse, decide (c ≠ '\n') = true := fun c hc => by
    simpa using ne_of_mem_of_not_mem (List.mem_reverse.1 hc) hq
  have hreverse : (p ++ '\n' :: q).reverse = q.reverse ++ '\n' :: p.reverse := by simp
  rw [trimLastRow, hreverse, List.takeWhile_append_of_pos hpos, List.dropWhile_append_of_pos hpos]
  simp

/-- The first line feed of a text stands in one place, -/
theorem first_feed_inj {p' q' : Text} (h : p ++ '\n' :: q = p' ++ '\n' :: q') (hp : '\n' ∉ p)
    (hp' : '\n' ∉ p') : p = p' ∧ q = q' := by
  have hcut := cutAt?_append hp q
  rw [h, cutAt?_append hp'] at hcut
  rcases Prod.mk.inj (Option.some.inj hcut) with ⟨rfl, rfl⟩
  exact ⟨rfl, rfl⟩

/-- and so does the last one. -/
theorem last_feed_inj {p' q' : Text} (h : p ++ '\n' :: q = p' ++ '\n' :: q') (hq : '\n' ∉ q)
    (hq' : '\n' ∉ q') : p = p' ∧ q = q' := by
  have hreverse : q.reverse ++ '\n' :: p.reverse = q'.reverse ++ '\n' :: p'.reverse := by
    simpa using congrArg List.reverse h
  rcases first_feed_inj hreverse (by simpa using hq) (by simpa using hq') with ⟨hq, hp⟩
  exact ⟨List.reverse_inj.1 hp, List.reverse_inj.1 hq⟩

end Text

namespace Script

variable {ts us : List Token} {t : Token} {goals : List Goal} {first last : Text} {rows : List Text}

/-- What stands in front of a token besides white space. -/
def Token.comments (t : Token) : Text := t.gap.filter fun c => !Text.isWhiteSpace c

/-- What a token is, how it is written, and the comments in front of it. -/
def Token.substance (t : Token) : Kind × Text × Text := (t.kind, t.raw, t.comments)

/-- Taking white space out of gaps leaves the substance of the tokens. -/
theorem substance_of_regapped {w : Text} (h : List.Forall₂ (Regapped w) ts us)
    (hw : ∀ c ∈ w, Text.isWhiteSpace c = true) :
    us.map Token.substance = ts.map Token.substance := by
  have hdropped : ∀ c ∈ w, (!Text.isWhiteSpace c) = false := fun c hc => by simp [hw c hc]
  induction h with
  | nil => rfl
  | cons hsame _ ih =>
      simp [Token.substance, Token.comments, hsame.kind, hsame.raw, hsame.filter_gap hdropped, ih]

/-- Writing line ends another way leaves comments as they are. -/
theorem comments_lineFeeds (t : Token) : t.lineFeeds.comments = t.comments := by
  have hfilter : ∀ g : Text, (Text.lineFeeds g).filter (fun c => !Text.isWhiteSpace c) =
      g.filter fun c => !Text.isWhiteSpace c := by
    have hreturn : Text.isWhiteSpace '\r' = true := by decide
    intro g
    fun_induction Text.lineFeeds g with
    | case1 rest ih => simp [hreturn, List.filter_cons, ih]
    | case2 c rest _ ih => simp [List.filter_cons, ih]
    | case3 => rfl
  exact hfilter t.gap

/-- Tokens that count for the same, and stand at the start of a line where the others do; the first
one may stand elsewhere. -/
structure Reflowed (ts us : List Token) : Prop where
  essence : us.map Token.essence = ts.map Token.essence
  lineStarts : (lineStarts us).tail = (lineStarts ts).tail

namespace Reflowed

variable {vs : List Token}

theorem trans (h : Reflowed ts us) (h' : Reflowed us vs) : Reflowed ts vs :=
  ⟨h'.essence.trans h.essence, h'.lineStarts.trans h.lineStarts⟩

/-- Taking white space out of gaps leaves all that counts. -/
theorem of_regapped {w : Text} (h : List.Forall₂ (Regapped w) ts us)
    (hlines : (Script.lineStarts us).tail = (Script.lineStarts ts).tail) : Reflowed ts us := by
  refine ⟨?_, hlines⟩
  clear hlines
  induction h with
  | nil => rfl
  | cons hsame _ ih =>
      simp [Token.essence_eq hsame.kind (.inl hsame.raw), ih]

/-- So does changing a token beside a line feed in it. -/
theorem of_trimmed {pre post : List Token} {r p q p' q' : Text} (hraw : t.raw = p ++ '\n' :: q)
    (hr : r = p' ++ '\n' :: q') (hp : p ≠ []) (hq : q ≠ []) (hp' : p' ≠ []) (hq' : q' ≠ []) :
    Reflowed (pre ++ t :: post) (pre ++ { t with raw := r } :: post) := by
  have hquoted : ∀ {u : Token} {p q : Text}, u.raw = p ++ '\n' :: q → p ≠ [] → q ≠ [] →
      '\n' ∈ u.quoted := by
    intro u p q hu hp hq
    rcases List.exists_cons_of_ne_nil hp with ⟨c, p, rfl⟩
    rw [Token.quoted, hu, List.cons_append, List.drop_one, List.tail_cons,
      List.dropLast_append_of_ne_nil (List.cons_ne_nil _ q), List.dropLast_cons_of_ne_nil hq]
    simp
  constructor
  · have hsame : Token.essence { t with raw := r } = t.essence :=
      Token.essence_eq rfl (.inr ⟨hquoted hr hp' hq', hquoted hraw hp hq⟩)
    simp [hsame]
  · have hsplit : ∀ u : Token, Script.lineStarts (pre ++ u :: post) =
        pre.map Token.onNewLine ++ Script.lineStarts (u :: post) := by
      intro u
      rw [Script.lineStarts, List.dropLast_append_of_ne_nil (List.cons_ne_nil u post),
        List.map_append]
      rfl
    rw [hsplit, hsplit]
    cases post <;> rfl

end Reflowed

/-! ## Tokens that go over the edges -/

/-- The tokens of a text without the white space in front of the first line end, where that stands
in a token. -/
def trimFirstEdge : List Token → List Token
  | [] => []
  | t :: ts =>
    if '\n' ∈ t.gap then t :: ts
    else if '\n' ∈ t.raw then { t with raw := Text.trimFirstRow t.raw } :: ts
    else t :: trimFirstEdge ts

/-- The tokens of a text without the white space behind the last line end, where that stands in a
token. -/
def trimLastEdge : List Token → List Token
  | [] => []
  | t :: ts =>
    if '\n' ∈ Tree.sourceOf ts then t :: trimLastEdge ts
    else if '\n' ∈ t.raw then { t with raw := Text.trimLastRow t.raw } :: ts
    else t :: ts

theorem raw_infix_sourceOf (h : t ∈ ts) : t.raw <:+: Tree.sourceOf ts := by
  rcases List.append_of_mem h with ⟨pre, post, rfl⟩
  refine ⟨Tree.sourceOf pre ++ t.gap, Tree.sourceOf post, ?_⟩
  simp [sourceOf_append, sourceOf_cons]

/-- Either no token goes over the end of the first line, or one does. -/
theorem trimFirstEdge_cases (ts : List Token) :
    (trimFirstEdge ts = ts ∧ ∀ pre (t : Token) post, ts = pre ++ t :: post →
      '\n' ∉ Tree.sourceOf pre ++ t.gap → '\n' ∉ t.raw) ∨
    ∃ (pre : List Token) (t : Token) (post : List Token) (p q : Text),
      ts = pre ++ t :: post ∧ '\n' ∉ Tree.sourceOf pre ++ t.gap ∧
      t.raw = p ++ '\n' :: q ∧ '\n' ∉ p ∧
      trimFirstEdge ts = pre ++ { t with raw := Text.trimEnd p ++ '\n' :: q } :: post := by
  induction ts with
  | nil => exact .inl ⟨rfl, by simp⟩
  | cons u ts ih =>
      by_cases hgap : '\n' ∈ u.gap
      -- The first line ends in this gap, which stands in front of every token.
      · refine .inl ⟨by rw [trimFirstEdge, if_pos hgap], fun pre t post hsplit hnot => ?_⟩
        have hmem : '\n' ∈ Tree.sourceOf pre ++ t.gap := by
          cases pre with
          | nil =>
              rw [← (List.cons.inj hsplit).1]
              exact List.mem_append_right _ hgap
          | cons v pre =>
              rw [← (List.cons.inj hsplit).1, sourceOf_cons, List.append_assoc]
              exact List.mem_append_left _ hgap
        exact absurd hmem hnot
      · by_cases hraw : '\n' ∈ u.raw
        -- It ends in this token, or behind it.
        · rcases List.eq_append_cons_of_mem hraw with ⟨p, q, hsplit, hp⟩
          refine .inr ⟨[], u, ts, p, q, rfl, by simpa [Tree.sourceOf] using hgap, hsplit, hp, ?_⟩
          rw [trimFirstEdge, if_neg hgap, if_pos hraw, hsplit, Text.trimFirstRow_append hp]
          rfl
        · have hstep : trimFirstEdge (u :: ts) = u :: trimFirstEdge ts := by
            rw [trimFirstEdge, if_neg hgap, if_neg hraw]
          rcases ih with ⟨heq, hnone⟩ | ⟨pre, t, post, p, q, rfl, hfirst, hsplit, hp, heq⟩
          · refine .inl ⟨by rw [hstep, heq], fun pre t post hsplit hnot => ?_⟩
            cases pre with
            | nil =>
                rw [← (List.cons.inj hsplit).1]
                exact hraw
            | cons v pre =>
                refine hnone pre t post (List.cons.inj hsplit).2 fun hmem => hnot ?_
                rw [sourceOf_cons, List.append_assoc, List.append_assoc]
                exact List.mem_append_right _ (List.mem_append_right _ hmem)
          · refine .inr ⟨u :: pre, t, post, p, q, rfl, ?_, hsplit, hp, by rw [hstep, heq]; rfl⟩
            simp only [sourceOf_cons, List.mem_append, not_or] at hfirst ⊢
            exact ⟨⟨hgap, hraw, hfirst.1⟩, hfirst.2⟩

/-- Either no token goes over the start of the last line, or one does. -/
theorem trimLastEdge_cases (ts : List Token) :
    (trimLastEdge ts = ts ∧ ∀ pre (t : Token) post, ts = pre ++ t :: post →
      '\n' ∉ Tree.sourceOf post → '\n' ∉ t.raw) ∨
    ∃ (pre : List Token) (t : Token) (post : List Token) (p q : Text),
      ts = pre ++ t :: post ∧ '\n' ∉ Tree.sourceOf post ∧ t.raw = p ++ '\n' :: q ∧ '\n' ∉ q ∧
      trimLastEdge ts = pre ++ { t with raw := p ++ '\n' :: Text.trimStart q } :: post := by
  induction ts with
  | nil => exact .inl ⟨rfl, by simp⟩
  | cons u ts ih =>
      by_cases hbehind : '\n' ∈ Tree.sourceOf ts
      -- The last line starts behind this token, in it, or in front of it.
      · have hstep : trimLastEdge (u :: ts) = u :: trimLastEdge ts := by
          rw [trimLastEdge, if_pos hbehind]
        rcases ih with ⟨heq, hnone⟩ | ⟨pre, t, post, p, q, rfl, hlast, hsplit, hq, heq⟩
        · refine .inl ⟨by rw [hstep, heq], fun pre t post hsplit hnot => ?_⟩
          cases pre with
          | nil =>
              rw [← (List.cons.inj hsplit).2] at hnot
              exact absurd hbehind hnot
          | cons v pre => exact hnone pre t post (List.cons.inj hsplit).2 hnot
        · exact .inr ⟨u :: pre, t, post, p, q, rfl, hlast, hsplit, hq, by rw [hstep, heq]; rfl⟩
      · by_cases hraw : '\n' ∈ u.raw
        · have hreverse : '\n' ∈ u.raw.reverse := List.mem_reverse.2 hraw
          rcases List.eq_append_cons_of_mem hreverse with ⟨q, p, hsplit, hq⟩
          have hsplit' : u.raw = p.reverse ++ '\n' :: q.reverse := by
            simpa using congrArg List.reverse hsplit
          have hq' : '\n' ∉ q.reverse := by simpa using hq
          refine .inr ⟨[], u, ts, p.reverse, q.reverse, rfl, hbehind, hsplit', hq', ?_⟩
          rw [trimLastEdge, if_neg hbehind, if_pos hraw, hsplit', Text.trimLastRow_append hq']
          rfl
        · refine .inl ⟨by rw [trimLastEdge, if_neg hbehind, if_neg hraw],
            fun pre t post hsplit _ => ?_⟩
          cases pre with
          | nil =>
              rw [← (List.cons.inj hsplit).1]
              exact hraw
          | cons v pre =>
              rw [(List.cons.inj hsplit).2] at hbehind
              intro hmem
              exact hbehind (by simp [sourceOf_append, sourceOf_cons, hmem])

theorem feed_mem_regapped {w : Text} (hw : '\n' ∉ w) (h : List.Forall₂ (Regapped w) ts us) :
    '\n' ∈ Tree.sourceOf us ↔ '\n' ∈ Tree.sourceOf ts := by
  induction h with
  | nil => rfl
  | cons hsame _ ih => simp [sourceOf_cons, hsame.mem_gap hw, hsame.raw, ih]

/-- A gap that loses no line feed does not count for the last line. -/
theorem trimLastEdge_regapped {w : Text} (hw : '\n' ∉ w) (h : List.Forall₂ (Regapped w) ts us) :
    List.Forall₂ (Regapped w) (trimLastEdge ts) (trimLastEdge us) := by
  induction h with
  | nil => exact .nil
  | @cons t u ts us hsame hmore ih =>
      rw [trimLastEdge, trimLastEdge]
      simp only [feed_mem_regapped hw hmore, hsame.raw]
      split
      · exact .cons hsame ih
      · split
        · exact .cons ⟨hsame.kind, rfl, hsame.gap⟩ hmore
        · exact .cons hsame hmore

/-- What does not depend on how tokens are written stays. -/
theorem map_trimEdges {α : Type} {f : Token → α} (hf : ∀ t r, f { t with raw := r } = f t)
    (ts : List Token) :
    (trimFirstEdge ts).map f = ts.map f ∧ (trimLastEdge ts).map f = ts.map f := by
  constructor
  · rcases trimFirstEdge_cases ts with ⟨heq, -⟩ | ⟨pre, t, post, p, q, rfl, -, -, -, heq⟩
    · rw [heq]
    · simp [heq, hf]
  · rcases trimLastEdge_cases ts with ⟨heq, -⟩ | ⟨pre, t, post, p, q, rfl, -, -, -, heq⟩
    · rw [heq]
    · simp [heq, hf]

/-! ## Rows of a text -/

/-- The rows of a text put together. -/
abbrev joined (rows : List Text) : Text := Text.joinWith ['\n'] rows

theorem joined_cons (h : rows ≠ []) (row : Text) :
    joined (row :: rows) = row ++ '\n' :: joined rows := by
  rw [joined, Text.joinWith_cons h, List.append_assoc]
  rfl

theorem joined_concat (h : rows ≠ []) (row : Text) :
    joined (rows ++ [row]) = joined rows ++ ['\n'] ++ row :=
  Text.joinWith_append h (List.cons_ne_nil row [])

/-- A row that is left out if nothing stands in it. -/
def kept (row : Text) : List Text := if row.isEmpty then [] else [row]

theorem edgeLine_eq (row : Text) : FunctionBody.edgeLine row = kept (Text.trim row) := rfl

theorem behindFirst_append (rows : List Text) (last : Text) :
    FunctionBody.behindFirst (rows ++ [last]) = rows ++ FunctionBody.edgeLine last := by
  induction rows with
  | nil => rfl
  | cons row rows ih =>
      have hne : rows ++ [last] ≠ [] := by simp
      rcases List.exists_cons_of_ne_nil hne with ⟨second, more, hmore⟩
      rw [List.cons_append, hmore, FunctionBody.behindFirst, ← hmore, ih]
      · rfl
      · simp

/-- White space at the start of a text may be taken out. -/
theorem scanAs_delete_start {b w : Text} (h : scanAs goals (w ++ b) = some ts)
    (hw : ∀ c ∈ w, Text.isWhiteSpace c = true) :
    ∃ us, scanAs goals b = some us ∧ us.map Token.substance = ts.map Token.substance ∧
      Reflowed ts us := by
  have hfit : InsideNone [] w ts := by
    intro pre t post p q _ hp _ ha _
    simp [hp] at ha
  rcases scanAs_delete (a := []) h (fun c hc => isSpace_of_isWhiteSpace (hw c hc)) (.inl rfl) hfit
    with ⟨us, hus, hregapped, hlines, -⟩
  exact ⟨us, hus, substance_of_regapped hregapped hw, .of_regapped hregapped hlines⟩

/-- White space at its end may be taken out as well. -/
theorem scanAs_delete_end {a w : Text} (h : scanAs goals (a ++ w) = some ts)
    (hw : ∀ c ∈ w, Text.isWhiteSpace c = true) :
    ∃ us, scanAs goals a = some us ∧ us.map Token.substance = ts.map Token.substance ∧
      Reflowed ts us := by
  have h' : scanAs goals (a ++ (w ++ [])) = some ts := by rwa [List.append_nil]
  have hfit : InsideNone a w ts := by
    rintro pre t post p q rfl _ hq ha hraw
    have hnil := behind_eq h' ha hraw
    simp [hq] at hnil
  rcases scanAs_delete h' (fun c hc => isSpace_of_isWhiteSpace (hw c hc)) (.inr (.inr (.inl rfl)))
    hfit with ⟨us, hus, hregapped, hlines, -⟩
  rw [List.append_nil] at hus
  exact ⟨us, hus, substance_of_regapped hregapped hw, .of_regapped hregapped hlines⟩

/-- White space in front of the first row may be taken out, and the row itself if nothing is left
of it. -/
theorem scanAs_kept_first {v row : Text} (hv : ∀ c ∈ v, Text.isWhiteSpace c = true)
    (h : scanAs goals (joined ((v ++ row) :: rows)) = some ts) :
    ∃ us, scanAs goals (joined (kept row ++ rows)) = some us ∧
      us.map Token.substance = ts.map Token.substance ∧ Reflowed ts us := by
  have hsplit : joined ((v ++ row) :: rows) = v ++ joined (row :: rows) := by
    cases rows with
    | nil => rfl
    | cons second more => simp [joined, Text.joinWith]
  rw [hsplit] at h
  rcases scanAs_delete_start h hv with ⟨us, hus, hsame, hflow⟩
  by_cases hrow : row = []
  · subst hrow
    cases rows with
    | nil => exact ⟨us, hus, hsame, hflow⟩
    | cons second more =>
        rcases scanAs_delete_start (w := ['\n']) hus (by simp; decide) with
          ⟨us', hus', hsame', hflow'⟩
        exact ⟨us', hus', hsame'.trans hsame, hflow.trans hflow'⟩
  · refine ⟨us, ?_, hsame, hflow⟩
    simpa [kept, hrow] using hus

/-- So may white space behind the last row, and that row. -/
theorem scanAs_kept_last {w row : Text} (hw : ∀ c ∈ w, Text.isWhiteSpace c = true)
    (h : scanAs goals (joined (rows ++ [row ++ w])) = some ts) :
    ∃ us, scanAs goals (joined (rows ++ kept row)) = some us ∧
      us.map Token.substance = ts.map Token.substance ∧ Reflowed ts us := by
  have hsplit : joined (rows ++ [row ++ w]) = joined (rows ++ [row]) ++ w := by
    by_cases hrows : rows = []
    · simp [hrows, joined, Text.joinWith]
    · simp [joined_concat hrows]
  rw [hsplit] at h
  rcases scanAs_delete_end h hw with ⟨us, hus, hsame, hflow⟩
  by_cases hrow : row = []
  · subst hrow
    by_cases hrows : rows = []
    · subst hrows
      exact ⟨us, hus, hsame, hflow⟩
    · rw [joined_concat hrows, List.append_nil] at hus
      rcases scanAs_delete_end (w := ['\n']) hus (by simp; decide) with ⟨us', hus', hsame', hflow'⟩
      refine ⟨us', ?_, hsame'.trans hsame, hflow.trans hflow'⟩
      simpa [kept] using hus'
  · refine ⟨us, ?_, hsame, hflow⟩
    simpa [kept, hrow] using hus

/-- White space in front of the first line end may be taken out, from the gap or the token in which
it stands. -/
theorem scanAs_first_edge {w : Text} (hw : ∀ c ∈ w, Text.isWhiteSpace c = true)
    (hend : ∀ c ∈ first.getLast?, Text.isWhiteSpace c = false) (hrow : '\n' ∉ first ++ w)
    (hrows : rows ≠ []) (h : scanAs goals (joined ((first ++ w) :: rows)) = some ts) :
    ∃ us, scanAs goals (joined (first :: rows)) = some us ∧
      List.Forall₂ (Regapped w) (trimFirstEdge ts) us ∧ Reflowed ts us := by
  have hspaces : ∀ c ∈ w, isSpace c = true := fun c hc => isSpace_of_isWhiteSpace (hw c hc)
  rw [joined_cons hrows, List.append_assoc] at h
  rw [joined_cons hrows]
  have hloose : Loose first ('\n' :: joined rows) := .inr (.inr rfl)
  rcases trimFirstEdge_cases ts with ⟨heq, hnone⟩ | ⟨pre, t, post, p, q, rfl, hfront, hraw, hp, heq⟩
  -- The line end stands in a gap, and so does the white space.
  · rw [heq]
    have hfit : InsideNone first w ts := by
      rintro pre t post p q rfl _ hq ha hraw
      have hfeed := behind_eq h ha hraw
      rcases List.exists_cons_of_ne_nil hq with ⟨c, q, rfl⟩
      obtain rfl := (List.cons.inj hfeed).1
      refine absurd (by simp [hraw]) (hnone pre t post rfl fun hmem => hrow ?_)
      rw [ha, ← List.append_assoc, List.append_assoc]
      exact List.mem_append_left _ hmem
    rcases scanAs_delete h hspaces (.inr hloose) hfit with ⟨us, hus, hregapped, hlines, -⟩
    exact ⟨us, hus, hregapped, .of_regapped hregapped hlines⟩
  -- The line end stands in a token, which begins before the white space.
  · have hsource := sourceOf_scanAs h
    have hmem : t ∈ pre ++ t :: post := by simp
    have hfirm := (raw_of_scanAs h hmem (by simp [hraw])).1
    have hhead := (raw_of_scanAs h hmem (by simp [hraw])).2
    have hsplit : (Tree.sourceOf pre ++ t.gap ++ p) ++ '\n' :: (q ++ Tree.sourceOf post) =
        (first ++ w) ++ '\n' :: joined rows := by
      rw [sourceOf_append, sourceOf_cons, hraw] at hsource
      simpa using hsource
    have hnot : '\n' ∉ Tree.sourceOf pre ++ t.gap ++ p :=
      fun hmem => (List.mem_append.1 hmem).elim hfront hp
    have hfirst := (Text.first_feed_inj hsplit hnot hrow).1
    have hsolid : ∀ v, p ≠ [] → w ≠ v ++ p := by
      rintro v hne rfl
      rcases List.exists_cons_of_ne_nil hne with ⟨c, p, rfl⟩
      have hc := hhead c (by simp [hraw])
      rw [hspaces c (by simp)] at hc
      cases hc
    have hne : p ≠ [] := by
      rintro rfl
      have hfeed := hhead '\n' (by simp [hraw])
      exact absurd hfeed (by decide)
    have hback : q ≠ [] := by
      rintro rfl
      exact hfirm.getLast?_ne (c := '\n') (by decide) (by simp [hraw])
    rcases List.append_eq_append_iff.1 hfirst with ⟨f, hf, rfl⟩ | ⟨v, -, hv⟩
    · have hfne : f ≠ [] := by
        rintro rfl
        exact hsolid [] hne rfl
      have hlast : ∀ c ∈ f.getLast?, Text.isWhiteSpace c = false := by
        intro c hc
        refine hend c ?_
        rwa [hf, List.getLast?_append_of_ne_nil _ hfne]
      rw [Text.trimEnd_append hw hlast] at heq
      rw [heq]
      have htrim := scanAs_trim h hspaces hloose hfne (List.cons_ne_nil '\n' q)
        (by rw [hf, List.append_assoc]) (by rw [hraw, List.append_assoc])
      exact ⟨_, htrim, List.forall₂_same.2 fun t _ => .refl w t,
        .of_trimmed hraw rfl hne hback hfne hback⟩
    · exact absurd hv (hsolid v hne)

/-- White space behind the last line end may be taken out, from the gap or the token in which it
stands. -/
theorem scanAs_last_edge {v : Text} (hv : ∀ c ∈ v, Text.isWhiteSpace c = true)
    (hstart : ∀ c ∈ last.head?, Text.isWhiteSpace c = false) (hrow : '\n' ∉ v ++ last)
    (hrows : rows ≠ []) (h : scanAs goals (joined (rows ++ [v ++ last])) = some ts) :
    ∃ us, scanAs goals (joined (rows ++ [last])) = some us ∧
      List.Forall₂ (Regapped v) (trimLastEdge ts) us ∧ Reflowed ts us := by
  have hspaces : ∀ c ∈ v, isSpace c = true := fun c hc => isSpace_of_isWhiteSpace (hv c hc)
  rw [joined_concat hrows] at h ⊢
  have hloose : Loose (joined rows ++ ['\n']) last := .inl (by simp)
  rcases trimLastEdge_cases ts with ⟨heq, hnone⟩ | ⟨pre, t, post, p, q, rfl, hback, hraw, hq, heq⟩
  -- The line end stands in a gap, and so does the white space.
  · rw [heq]
    have hfit : InsideNone (joined rows ++ ['\n']) v ts := by
      rintro pre t post p q rfl hp _ ha hraw
      have hlast := behind_eq h ha hraw
      have hfeed : p.getLast? = some '\n' := by
        have hends := congrArg List.getLast? ha
        rw [← List.append_assoc, List.getLast?_append_of_ne_nil _ hp] at hends
        simpa using hends.symm
      refine absurd ?_ (hnone pre t post rfl fun hmem => hrow ?_)
      · rw [hraw]
        exact List.mem_append_left _ (List.mem_of_getLast? hfeed)
      · rw [hlast]
        exact List.mem_append_right _ (List.mem_append_right _ hmem)
    rcases scanAs_delete h hspaces (.inr hloose) hfit with ⟨us, hus, hregapped, hlines, -⟩
    exact ⟨us, hus, hregapped, .of_regapped hregapped hlines⟩
  -- The line end stands in a token, which ends behind the white space.
  · have hsource := sourceOf_scanAs h
    have hmem : t ∈ pre ++ t :: post := by simp
    have hfirm := (raw_of_scanAs h hmem (by simp [hraw])).1
    have hfront' : p ≠ [] := by
      rintro rfl
      exact absurd ((raw_of_scanAs h hmem (by simp [hraw])).2 '\n' (by simp [hraw])) (by decide)
    have hsplit : (Tree.sourceOf pre ++ t.gap ++ p) ++ '\n' :: (q ++ Tree.sourceOf post) =
        joined rows ++ '\n' :: (v ++ last) := by
      rw [sourceOf_append, sourceOf_cons, hraw] at hsource
      simpa using hsource
    have hnot : '\n' ∉ q ++ Tree.sourceOf post :=
      fun hmem => (List.mem_append.1 hmem).elim hq hback
    rcases Text.last_feed_inj hsplit hnot hrow with ⟨hfront, hlast⟩
    rw [hraw] at hfirm
    have hsolid : ∀ s, v ≠ q ++ s := by
      rintro s rfl
      have hall : ∀ c ∈ '\n' :: q, isSpace c = true := by
        intro c hc
        rcases List.mem_cons.1 hc with rfl | hc
        · decide
        · exact hspaces c (List.mem_append_left s hc)
      cases hfirm.eq_nil_of_append hall
    rcases List.append_eq_append_iff.1 hlast with ⟨s, hs, -⟩ | ⟨f, rfl, hf⟩
    · exact absurd hs (hsolid s)
    · have hfne : f ≠ [] := by
        rintro rfl
        exact hsolid [] (by simp)
      have hhead : ∀ c ∈ f.head?, Text.isWhiteSpace c = false := by
        intro c hc
        refine hstart c ?_
        rwa [hf, List.head?_append_of_ne_nil _ hfne]
      rw [Text.trimStart_append hv hhead] at heq
      rw [heq]
      have htrim := scanAs_trim (p := p ++ ['\n']) h hspaces hloose (by simp) hfne
        (by rw [← hfront]; simp) (by rw [hraw]; simp)
      rw [List.append_assoc p, List.singleton_append] at htrim
      exact ⟨_, htrim, List.forall₂_same.2 fun t _ => .refl v t,
        .of_trimmed hraw rfl hfront' (by simp [hfne]) hfront' hfne⟩

/-- No token goes over a line end that is not there. -/
theorem trimEdges_eq_self (h : '\n' ∉ Tree.sourceOf ts) :
    trimFirstEdge ts = ts ∧ trimLastEdge ts = ts := by
  have hraw : ∀ t ∈ ts, '\n' ∉ t.raw := fun t ht hmem => h ((raw_infix_sourceOf ht).subset hmem)
  constructor
  · rcases trimFirstEdge_cases ts with ⟨heq, -⟩ | ⟨pre, t, post, p, q, rfl, -, hsplit, -, -⟩
    · exact heq
    · exact absurd (by simp [hsplit]) (hraw t (by simp))
  · rcases trimLastEdge_cases ts with ⟨heq, -⟩ | ⟨pre, t, post, p, q, rfl, -, hsplit, -, -⟩
    · exact heq
    · exact absurd (by simp [hsplit]) (hraw t (by simp))

/-- A line between two braces is scanned into its tokens without the white space around them. -/
theorem scanAs_oneLine {row : Text} (hrow : '\n' ∉ row) (h : scanAs goals row = some ts) :
    ∃ us, scanAs goals (joined (kept (Text.trim row))) = some us ∧
      us.map Token.substance = (trimLastEdge (trimFirstEdge ts)).map Token.substance ∧
      Reflowed ts us := by
  rw [← sourceOf_scanAs h] at hrow
  rw [(trimEdges_eq_self hrow).1, (trimEdges_eq_self hrow).2]
  rcases Text.trimStart_split row with ⟨v, hrow', hv⟩
  rcases Text.trimEnd_split (Text.trimStart row) with ⟨w, htrim, hw⟩
  rw [hrow', htrim] at h
  rcases scanAs_delete_start h hv with ⟨us, hus, hsame, hflow⟩
  rcases scanAs_delete_end hus hw with ⟨us', hus', hsame', hflow'⟩
  refine ⟨us', ?_, hsame'.trans hsame, hflow.trans hflow'⟩
  have hjoined : ∀ t : Text, joined (kept t) = t := fun t => by cases t <;> rfl
  rw [hjoined]
  exact hus'

/-- The lines of a text are scanned into its tokens, but for the white space of tokens that go over
the edges. -/
theorem scanAs_innerLines {inner : Text} (h : scanAs goals (Text.lineFeeds inner) = some ts) :
    ∃ us, scanAs goals (joined (FunctionBody.innerLines inner)) = some us ∧
      us.map Token.substance = (trimLastEdge (trimFirstEdge ts)).map Token.substance ∧
      Reflowed ts us := by
  have hclean : ∀ row ∈ Text.rows inner, '\n' ∉ row := fun _ => Text.feed_not_mem_row
  rcases List.exists_cons_of_ne_nil (Text.rows_ne_nil inner) with ⟨first, rest, hrest⟩
  have hlines : FunctionBody.innerLines inner =
      kept (Text.trim first) ++ FunctionBody.behindFirst rest := by
    rw [FunctionBody.innerLines, hrest]
    rfl
  rw [← Text.joinWith_rows, hrest] at h
  rw [hrest] at hclean
  rw [hlines]
  rcases List.eq_nil_or_concat rest with rfl | ⟨mid, last, rfl⟩
  · rw [FunctionBody.behindFirst, List.append_nil]
    exact scanAs_oneLine (hclean first (by simp)) h
  · rw [List.concat_eq_append] at h hclean ⊢
    rw [behindFirst_append, edgeLine_eq]
    have hfirst := hclean first (by simp)
    have hlast := hclean last (by simp)
    rcases Text.trimEnd_split first with ⟨w, hw, hwhite⟩
    rcases Text.trimStart_split last with ⟨v, hv, hwhite'⟩
    rw [hw] at h hfirst
    rw [hv] at hlast
    have hfeed : '\n' ∉ w := fun hmem => hfirst (List.mem_append_right _ hmem)
    -- The two line ends first, as the rows beside the braces may be left out.
    rcases scanAs_first_edge hwhite (Text.trimEnd_getLast? first) hfirst (by simp) h
      with ⟨ts₁, h₁, hregapped₁, hflow₁⟩
    rw [hv, ← List.cons_append] at h₁
    rcases scanAs_last_edge hwhite' (Text.trimStart_head? last) hlast (by simp) h₁
      with ⟨ts₂, h₂, hregapped₂, hflow₂⟩
    rcases Text.trim_split first with ⟨v', hv', hwhite₁⟩
    rcases Text.trimEnd_split (Text.trimStart last) with ⟨w', hw', hwhite₂⟩
    rw [hv', List.cons_append] at h₂
    rcases scanAs_kept_first hwhite₁ h₂ with ⟨ts₃, h₃, hsame₃, hflow₃⟩
    rw [hw', ← List.append_assoc] at h₃
    rcases scanAs_kept_last hwhite₂ h₃ with ⟨ts₄, h₄, hsame₄, hflow₄⟩
    rw [List.append_assoc] at h₄
    refine ⟨ts₄, h₄, ?_, ((hflow₁.trans hflow₂).trans hflow₃).trans hflow₄⟩
    calc ts₄.map Token.substance
        = ts₂.map Token.substance := hsame₄.trans hsame₃
      _ = (trimLastEdge ts₁).map Token.substance := substance_of_regapped hregapped₂ hwhite'
      _ = (trimLastEdge (trimFirstEdge ts)).map Token.substance :=
          substance_of_regapped (trimLastEdge_regapped hfeed hregapped₁) hwhite

end Script

namespace FunctionBody

variable {path source : Text} {b : FunctionBody}

/-- The lines of a body, put together, are scanned into the tokens that stand between the braces of
the exported function in the source: the same ones in the same order, with the same comments between
them, each of them written as in the source with its line ends as `\n`.  Only a token that goes
over the end of the first line loses the white space in front of that line end, and a token that
goes over the start of the last line the white space behind that line end. -/
theorem read_lines (h : FunctionBody.read path source = .ok b) :
    ∃ block before after goals tokens,
      block? path source = some block ∧ source = before ++ block.text ++ after ∧
      block.text = '\x7b' :: Tree.sourceOf (interior block) ++ ['\x7d'] ∧
      scanAs goals (Tree.sourceOf (interior block)) = some (interior block) ∧
      scanAs goals (Text.joinWith ['\n'] b.lines) = some tokens ∧
      tokens.map (fun t => (t.kind, t.comments)) =
        (interior block).map (fun t => (t.kind, t.comments)) ∧
      tokens.map Token.raw =
        (trimLastEdge (trimFirstEdge ((interior block).map Token.lineFeeds))).map Token.raw := by
  rcases block?_of_read h with ⟨block, hblock, hlines⟩
  rcases block?_scan hblock with ⟨before, after, goals, hsource, htext, hscan⟩
  have hwithout : withoutBraces block.text = Tree.sourceOf (interior block) := by
    have hopening : Text.dropPrefix? ['\x7b'] block.text =
        some (Tree.sourceOf (interior block) ++ ['\x7d']) := Text.dropPrefix?_eq_some_iff.2 htext
    have hclosing := Text.dropSuffix?_eq_some_iff.2
      (rfl : Tree.sourceOf (interior block) ++ ['\x7d'] = _ ++ ['\x7d'])
    rw [withoutBraces, hopening, Option.bind_some, hclosing]
  rcases scanAs_innerLines (scanAs_lineFeeds hscan) with ⟨tokens, htokens, hsame, -⟩
  refine ⟨block, before, after, goals, tokens, hblock, hsource, htext, hscan, ?_, ?_, ?_⟩
  · rw [hlines, blockLines, hwithout]
    exact htokens
  · have hkept := congrArg (List.map fun s => (s.1, s.2.2)) hsame
    simp only [List.map_map] at hkept
    have hedges := map_trimEdges (f := fun t => (t.kind, t.comments)) fun _ _ => rfl
    calc tokens.map (fun t => (t.kind, t.comments))
        = (trimLastEdge (trimFirstEdge ((interior block).map Token.lineFeeds))).map
            fun t => (t.kind, t.comments) := hkept
      _ = ((interior block).map Token.lineFeeds).map fun t => (t.kind, t.comments) :=
          (hedges _).2.trans (hedges _).1
      _ = (interior block).map fun t => (t.kind, t.comments) := by
          rw [List.map_map]
          exact List.map_congr_left fun t _ => Prod.ext rfl (comments_lineFeeds t)
  · have hwritten := congrArg (List.map fun s => s.2.1) hsame
    rw [List.map_map, List.map_map] at hwritten
    exact hwritten

/-- A module whose function returns a template that begins on the line of one brace. -/
def templateFromEdge : Text :=
  "export function f(n) \x7b return `a  \r\n  b`\r\n + n / 2; \x7d"

/-- A module whose function returns a template that goes over both edges of its body. -/
def templateOverEdges : Text := "export function f() \x7b return `a  \n  b`; \x7d"

/-- What is read off both modules, and what stands between the braces of their functions. -/
theorem read_templates :
    (FunctionBody.read "f.js" templateFromEdge =
        .ok ⟨"f", ["return `a", "  b`", "+ n / 2;"], .ofLines (Text.lines templateFromEdge)⟩ ∧
      ∀ block ∈ block? "f.js" templateFromEdge,
        (trimLastEdge (trimFirstEdge ((interior block).map Token.lineFeeds))).map Token.raw =
          ["return", "`a\n  b`", "+", "n", "/", "2", ";", ""].map String.toList) ∧
    (FunctionBody.read "f.js" templateOverEdges =
        .ok ⟨"f", ["return `a", "b`;"], .ofLines (Text.lines templateOverEdges)⟩ ∧
      ∀ block ∈ block? "f.js" templateOverEdges,
        ∃ t ∈ interior block, Text.lineFeeds t.raw = "`a  \n  b`".toList) := by
  decide +kernel

theorem read_lines_templateFromEdge :
    ∃ b goals tokens, FunctionBody.read "f.js" templateFromEdge = .ok b ∧
      scanAs goals (Text.joinWith ['\n'] b.lines) = some tokens ∧
      tokens.map Token.raw =
        ["return", "`a\n  b`", "+", "n", "/", "2", ";", ""].map String.toList := by
  obtain ⟨hread, hwritten⟩ := read_templates.1
  rcases read_lines hread with ⟨block, _, _, goals, tokens, hblock, _, _, _, htokens, _, hraw⟩
  exact ⟨_, goals, tokens, hread, htokens, hraw.trans (hwritten block hblock)⟩

/-- White space of a token that stands beside the first or the last line end is lost. -/
theorem read_lines_templateOverEdges :
    ∃ b block, FunctionBody.read "f.js" templateOverEdges = .ok b ∧
      block? "f.js" templateOverEdges = some block ∧
      ∀ goals tokens, scanAs goals (Text.joinWith ['\n'] b.lines) = some tokens →
        tokens.map (fun t => (t.kind, Text.lineFeeds t.raw)) ≠
          (interior block).map fun t => (t.kind, Text.lineFeeds t.raw) := by
  obtain ⟨hread, htemplate⟩ := read_templates.2
  rcases block?_of_read hread with ⟨block, hblock, -⟩
  refine ⟨_, block, hread, hblock, fun goals tokens hscan hsame => ?_⟩
  rcases htemplate block hblock with ⟨t, ht, hraw⟩
  have hmem := List.mem_map_of_mem (f := fun t => (t.kind, Text.lineFeeds t.raw)) ht
  rw [← hsame] at hmem
  rcases List.mem_map.1 hmem with ⟨u, hu, heq⟩
  have hpart := raw_infix_sourceOf hu
  rw [sourceOf_scanAs hscan] at hpart
  have hplain : Text.lineFeeds u.raw = u.raw := by
    apply Text.lineFeeds_eq_self
    by_contra hreturn
    have hinside := (Text.hasPart_iff.1 (by simpa using hreturn)).trans hpart
    exact absurd (Text.hasPart_iff.2 hinside) (by decide)
  rw [← hplain, (Prod.mk.inj heq).2, hraw, ← Text.hasPart_iff] at hpart
  exact absurd hpart (by decide)

end FunctionBody

end ProcedureGen
