import Mathlib.Data.List.Basic
import Mathlib.Data.List.TakeWhile
import ProcedureGen.Text

/-!
# Texts

How the parts, rows and sizes of texts behave when texts are put together.

* `Text.dropPrefix?_append`, `Text.dropSuffix?_eq_some_iff`: what is put in front or behind is found;
* `Text.cutAt?`: a text cut at a character;
* `Text.hasPart_iff`: a part of a text has something before and behind it;
* `Text.infix_append_cons_iff`: a part that does not hold a character does not go over it;
* `Text.exists_line_iff`: a part without line ends stands in a text if it stands in a line of it;
* `Text.crlf`, `Text.rows_crlf`: line ends written in the other way, which changes no row;
* `Text.lineFeeds`, `Text.joinWith_rows`: the rows of a text make up the text, line ends apart;
* `Text.trim_split`: what is trimmed away is white space.
-/

namespace ProcedureGen
namespace Text

variable {suffix t rest : Text}

theorem dropSuffix?_eq_some_iff : dropSuffix? suffix t = some rest ↔ t = rest ++ suffix := by
  unfold dropSuffix?
  constructor
  · intro h
    split at h
    next hsuffix =>
      rcases List.isSuffixOf_iff_suffix.1 hsuffix with ⟨start, rfl⟩
      have hrest : start = rest := by simpa using h
      rw [hrest]
    next => cases h
  · rintro rfl
    have hsuffix : suffix.isSuffixOf (rest ++ suffix) = true :=
      List.isSuffixOf_iff_suffix.2 (List.suffix_append rest suffix)
    simp [hsuffix]

theorem dropPrefix?_eq_some_iff {start : Text} :
    dropPrefix? start t = some rest ↔ t = start ++ rest := by
  induction start generalizing t with
  | nil => simp [dropPrefix?]
  | cons c start ih =>
      cases t with
      | nil => simp [dropPrefix?]
      | cons d t =>
          by_cases hcd : c = d
          · simp [dropPrefix?, hcd, ih]
          · have hdc : ¬ d = c := fun h => hcd h.symm
            simp [dropPrefix?, hcd, hdc]

@[simp] theorem dropPrefix?_append (start t : Text) : dropPrefix? start (start ++ t) = some t :=
  dropPrefix?_eq_some_iff.2 rfl

theorem dropPrefix?_eq_none_iff {start : Text} : dropPrefix? start t = none ↔ ¬ start <+: t := by
  rw [Option.eq_none_iff_forall_ne_some]
  constructor
  · rintro h ⟨rest, rfl⟩
    exact h rest (dropPrefix?_append start rest)
  · intro h rest hrest
    exact h ⟨rest, (dropPrefix?_eq_some_iff.1 hrest).symm⟩

theorem hasPart_iff {part : Text} : hasPart part t = true ↔ part <:+: t := by
  induction t with
  | nil => simp [hasPart]
  | cons c t ih => simp [hasPart, List.infix_cons_iff, ih]

/-- The text before the first place of a character, and the text behind that place. -/
def cutAt? (c : Char) : Text → Option (Text × Text)
  | [] => none
  | d :: rest =>
    if d = c then some ([], rest) else (cutAt? c rest).map fun (start, stop) => (d :: start, stop)

theorem cutAt?_append {c : Char} (h : c ∉ t) (rest : Text) :
    cutAt? c (t ++ c :: rest) = some (t, rest) := by
  induction t with
  | nil => simp [cutAt?]
  | cons d t ih =>
      have hd : d ≠ c := by
        rintro rfl
        exact h (by simp)
      have ht : c ∉ t := fun hmem => h (List.mem_cons_of_mem d hmem)
      simp [cutAt?, hd, ih ht]

theorem cutAt?_eq_none {c : Char} (h : c ∉ t) : cutAt? c t = none := by
  induction t with
  | nil => rfl
  | cons d t ih =>
      have hd : d ≠ c := by
        rintro rfl
        exact h (by simp)
      have ht : c ∉ t := fun hmem => h (List.mem_cons_of_mem d hmem)
      simp [cutAt?, hd, ih ht]

/-! ## Parts -/

section Parts

variable {part start stop : Text} {c : Char}

theorem eq_nil_of_prefix_cons (hc : c ∉ part) (h : part <+: c :: stop) : part = [] := by
  cases part with
  | nil => rfl
  | cons d part =>
      rw [(List.cons_prefix_cons.1 h).1] at hc
      exact absurd (by simp) hc

/-- What does not hold a character does not go over it. -/
theorem infix_append_cons_iff (hc : c ∉ part) :
    part <:+: start ++ c :: stop ↔ part <:+: start ∨ part <:+: stop := by
  rw [List.infix_append_iff, List.infix_cons_iff]
  constructor
  · rintro (h | (h | h) | ⟨front, back, rfl, hfront, hback⟩)
    · exact .inl h
    · rw [eq_nil_of_prefix_cons hc h]
      exact .inl List.nil_infix
    · exact .inr h
    · rw [eq_nil_of_prefix_cons (fun hmem => hc (List.mem_append_right _ hmem)) hback,
        List.append_nil]
      exact .inl hfront.isInfix
  · rintro (h | h)
    · exact .inl h
    · exact .inr (.inl (.inr h))

/-- What does not hold a character stands behind the last one. -/
theorem suffix_append_cons_iff (hc : c ∉ part) : part <:+ start ++ c :: stop ↔ part <:+ stop := by
  constructor
  · intro h
    have hstop : c :: stop <:+ start ++ c :: stop := List.suffix_append start (c :: stop)
    rcases List.suffix_or_suffix_of_suffix h hstop with h | h
    · rcases List.suffix_cons_iff.1 h with rfl | h
      · exact absurd (by simp) hc
      · exact h
    · exact absurd (h.subset (by simp)) hc
  · intro h
    exact (h.trans (List.suffix_cons c stop)).trans (List.suffix_append start (c :: stop))

end Parts

/-! ## Line ends -/

/-- The text with every line end that is written as `\\r\\n` written as `\\n`. -/
def lineFeeds : Text → Text
  | '\r' :: '\n' :: rest => '\n' :: lineFeeds rest
  | c :: rest => c :: lineFeeds rest
  | [] => []

theorem lineFeeds_cons (c : Char) (t : Text) :
    lineFeeds (c :: t) =
      if c = '\r' ∧ t.head? = some '\n' then lineFeeds t else c :: lineFeeds t := by
  by_cases h : c = '\r' ∧ t.head? = some '\n'
  · rcases h with ⟨rfl, hfeed⟩
    rcases List.head?_eq_some_iff.1 hfeed with ⟨rest, rfl⟩
    simp [lineFeeds]
  · rw [if_neg h, lineFeeds]
    rintro rest hc rfl
    exact h ⟨hc, rfl⟩

@[simp] theorem lineFeeds_nil : lineFeeds [] = [] := rfl

/-- Line ends are rewritten piece by piece, unless the pieces meet inside one. -/
theorem lineFeeds_append {t : Text} (h : t.getLast? = some '\r' → rest.head? ≠ some '\n') :
    lineFeeds (t ++ rest) = lineFeeds t ++ lineFeeds rest := by
  induction t with
  | nil => rfl
  | cons c t ih =>
      have hrest : t.getLast? = some '\r' → rest.head? ≠ some '\n' := by
        cases t with
        | nil => simp
        | cons d t => simpa using h
      rw [List.cons_append, lineFeeds_cons, lineFeeds_cons, ih hrest]
      cases t with
      | nil =>
          have hne : ¬ (c = '\r' ∧ rest.head? = some '\n') := by
            rintro ⟨rfl, hfeed⟩
            exact h rfl hfeed
          simp [hne]
      | cons d t =>
          by_cases hends : c = '\r' ∧ (d :: t).head? = some '\n'
          · have hboth : c = '\r' ∧ (d :: t ++ rest).head? = some '\n' := hends
            rw [if_pos hends, if_pos hboth]
          · have hneither : ¬ (c = '\r' ∧ (d :: t ++ rest).head? = some '\n') := hends
            rw [if_neg hends, if_neg hneither, List.cons_append]

/-- A text is left as it is, unless a line end starts with a carriage return. -/
theorem lineFeeds_eq_self {t : Text} (h : hasPart ['\r', '\n'] t = false) : lineFeeds t = t := by
  induction t with
  | nil => rfl
  | cons c t ih =>
      simp only [hasPart, Bool.or_eq_false_iff] at h
      have hne : ¬ (c = '\r' ∧ t.head? = some '\n') := by
        rintro ⟨rfl, hfeed⟩
        rcases List.head?_eq_some_iff.1 hfeed with ⟨rest, rfl⟩
        simp at h
      rw [lineFeeds_cons, if_neg hne, ih h.2]

theorem head?_lineFeeds {t : Text} {c : Char} (hc : c ≠ '\n') (h : (lineFeeds t).head? = some c) :
    t.head? = some c := by
  induction t with
  | nil => simp at h
  | cons d t ih =>
      rw [lineFeeds_cons] at h
      split at h
      next hends =>
        have hfeed := hends.2
        rw [ih h] at hfeed
        exact absurd (Option.some.inj hfeed) hc
      next => simpa using h

/-- The text with every line feed written as `\\r\\n`. -/
def crlf : Text → Text
  | [] => []
  | c :: rest => if c = '\n' then '\r' :: '\n' :: crlf rest else c :: crlf rest

@[simp] theorem crlf_nil : crlf [] = [] := rfl

@[simp] theorem crlf_feed (t : Text) : crlf ('\n' :: t) = '\r' :: '\n' :: crlf t := by
  simp [crlf]

theorem crlf_cons {c : Char} (hc : c ≠ '\n') (t : Text) : crlf (c :: t) = c :: crlf t := by
  simp [crlf, hc]

theorem crlf_append (t rest : Text) : crlf (t ++ rest) = crlf t ++ crlf rest := by
  induction t with
  | nil => rfl
  | cons c t ih =>
      by_cases hc : c = '\n'
      · simp [hc, ih]
      · simp [crlf_cons hc, ih]

theorem feed_mem_crlf {t : Text} (h : '\n' ∈ t) : '\n' ∈ crlf t := by
  rcases List.append_of_mem h with ⟨u, v, rfl⟩
  simp [crlf_append]

theorem length_le_crlf (t : Text) : t.length ≤ (crlf t).length := by
  induction t with
  | nil => exact le_refl 0
  | cons c t ih =>
      by_cases hc : c = '\n'
      · rw [hc, crlf_feed, List.length_cons, List.length_cons, List.length_cons]
        omega
      · rw [crlf_cons hc, List.length_cons, List.length_cons]
        omega

theorem crlf_eq_self {t : Text} (h : '\n' ∉ t) : crlf t = t := by
  induction t with
  | nil => rfl
  | cons c t ih =>
      rw [List.mem_cons, not_or] at h
      rw [crlf_cons (Ne.symm h.1), ih h.2]

/-- A text on one line is not the other form of any other text. -/
theorem crlf_eq_iff {t u : Text} (h : '\n' ∉ u) : crlf t = u ↔ t = u := by
  constructor
  · rintro rfl
    exact (crlf_eq_self fun hfeed => h (feed_mem_crlf hfeed)).symm
  · rintro rfl
    exact crlf_eq_self h

/-- Writing line feeds as `\\r\\n` can be undone, if there was no carriage return before. -/
theorem lineFeeds_crlf {t : Text} (h : '\r' ∉ t) : lineFeeds (crlf t) = t := by
  induction t with
  | nil => rfl
  | cons c t ih =>
      rw [List.mem_cons, not_or] at h
      by_cases hc : c = '\n'
      · rw [hc, crlf_feed, lineFeeds_cons, if_pos ⟨rfl, rfl⟩, lineFeeds_cons,
          if_neg (by simp), ih h.2]
      · rw [crlf_cons hc, lineFeeds_cons, if_neg fun hends => h.1 hends.1.symm, ih h.2]

theorem head?_crlf {t : Text} {c : Char} (hfeed : c ≠ '\n') (hreturn : c ≠ '\r') :
    (crlf t).head? = some c ↔ t.head? = some c := by
  cases t with
  | nil => rfl
  | cons d t =>
      by_cases hd : d = '\n'
      · simp [hd, hfeed.symm, hreturn.symm]
      · simp [crlf_cons hd]

/-! ## Rows -/

theorem rows_ne_nil (t : Text) : rows t ≠ [] := by
  fun_induction rows t with
  | case1 => simp
  | case2 => simp
  | case3 => simp
  | case4 c rest _ _ ih =>
      cases hrows : rows rest with
      | nil => simp [consRow]
      | cons row more => simp [consRow]

/-- No line end stands inside a row. -/
theorem feed_not_mem_row {row : Text} (h : row ∈ rows t) : '\n' ∉ row := by
  fun_induction rows t generalizing row with
  | case1 => simp_all
  | case2 rest ih =>
      rcases List.mem_cons.1 h with rfl | h
      · simp
      · exact ih h
  | case3 rest ih =>
      rcases List.mem_cons.1 h with rfl | h
      · simp
      · exact ih h
  | case4 c rest hfeed _ ih =>
      have hc : '\n' ≠ c := fun h => hfeed h.symm
      cases hrows : rows rest with
      | nil => exact absurd hrows (rows_ne_nil rest)
      | cons first more =>
          rw [hrows] at h ih
          rcases List.mem_cons.1 h with rfl | h
          · simpa [hc] using ih (List.mem_cons_self)
          · exact ih (List.mem_cons_of_mem first h)

theorem joinWith_cons {separator first : Text} {more : List Text} (h : more ≠ []) :
    joinWith separator (first :: more) = first ++ separator ++ joinWith separator more := by
  cases more with
  | nil => exact absurd rfl h
  | cons second more => rfl

theorem joinWith_append {separator : Text} {ts us : List Text} (ht : ts ≠ []) (hu : us ≠ []) :
    joinWith separator (ts ++ us) =
      joinWith separator ts ++ separator ++ joinWith separator us := by
  induction ts with
  | nil => exact absurd rfl ht
  | cons t ts ih =>
      cases ts with
      | nil => exact joinWith_cons hu
      | cons t' ts =>
          have hfirst : joinWith separator (t :: t' :: ts) =
              t ++ separator ++ joinWith separator (t' :: ts) := rfl
          have hmore : t' :: ts ++ us ≠ [] := by simp
          rw [List.cons_append, joinWith_cons hmore, ih (by simp), hfirst]
          simp

/-- The rows of a text, put together again, are the text with its line ends rewritten. -/
theorem joinWith_rows (t : Text) : joinWith ['\n'] (rows t) = lineFeeds t := by
  fun_induction rows t with
  | case1 => rfl
  | case2 rest ih =>
      rw [joinWith_cons (rows_ne_nil rest), ih]
      simp [lineFeeds_cons]
  | case3 rest ih =>
      rw [joinWith_cons (rows_ne_nil rest), ih]
      simp [lineFeeds]
  | case4 c rest hfeed hreturn ih =>
      have hkept : lineFeeds (c :: rest) = c :: lineFeeds rest := by
        rw [lineFeeds]
        exact hreturn
      rw [hkept, ← ih]
      cases hrows : rows rest with
      | nil => exact absurd hrows (rows_ne_nil rest)
      | cons first more =>
          cases more with
          | nil => rfl
          | cons second more => rfl

/-- The rows are the same with either sort of line ends. -/
theorem rows_crlf {t : Text} (h : '\r' ∉ t) : rows (crlf t) = rows t := by
  induction t with
  | nil => rfl
  | cons c t ih =>
      rw [List.mem_cons, not_or] at h
      by_cases hc : c = '\n'
      · rw [hc, crlf_feed, rows, rows, ih h.2]
      · have hrow : ∀ u, rows (c :: u) = consRow c (rows u) := by
          intro u
          rw [rows]
          · exact hc
          · exact fun _ hreturn _ => h.1 hreturn.symm
        rw [crlf_cons hc, hrow, hrow, ih h.2]

theorem lines_crlf {t : Text} (h : '\r' ∉ t) : lines (crlf t) = lines t := by
  unfold lines
  rw [rows_crlf h]

/-- A text on one line is its own row. -/
theorem rows_eq_singleton (h : '\n' ∉ t) : rows t = [t] := by
  induction t with
  | nil => rfl
  | cons c t ih =>
      rw [List.mem_cons, not_or] at h
      rw [rows, ih h.2]
      · rfl
      · exact fun hc => h.1 hc.symm
      · rintro rest - rfl
        exact h.2 (by simp)

/-- A row without the `\r` that belongs to the line end behind it. -/
def withoutReturn (row : Text) : Text := if row.getLast? = some '\r' then row.dropLast else row

theorem withoutReturn_cons {c : Char} (h : t ≠ []) :
    withoutReturn (c :: t) = c :: withoutReturn t := by
  rcases List.exists_cons_of_ne_nil h with ⟨d, t, rfl⟩
  unfold withoutReturn
  rw [List.getLast?_cons_cons]
  split <;> rfl

theorem withoutReturn_eq_self (h : t.getLast? ≠ some '\r') : withoutReturn t = t := if_neg h

/-- A row and the rows behind its line end. -/
theorem rows_append_feed {row : Text} (h : '\n' ∉ row) (rest : Text) :
    rows (row ++ '\n' :: rest) = withoutReturn row :: rows rest := by
  induction row with
  | nil => rfl
  | cons c row ih =>
      rw [List.mem_cons, not_or] at h
      by_cases hrow : row = []
      · subst hrow
        by_cases hc : c = '\r'
        · rw [hc]
          rfl
        · rw [List.cons_append, rows, ih h.2]
          · simp [withoutReturn, consRow, hc]
          · exact fun hfeed => h.1 hfeed.symm
          · exact fun _ hreturn _ => hc hreturn
      · rw [List.cons_append, rows, ih h.2, withoutReturn_cons hrow]
        · rfl
        · exact fun hfeed => h.1 hfeed.symm
        · rintro more - hmore
          rcases List.exists_cons_of_ne_nil hrow with ⟨d, row, rfl⟩
          exact h.2 (by simp [(List.cons.inj hmore).1])

/-- The rows of lines that each have a line end behind them. -/
theorem rows_unlines {ls : List Text} (h : ∀ l ∈ ls, '\n' ∉ l ∧ l.getLast? ≠ some '\r') :
    rows (unlines ls) = ls ++ [[]] := by
  induction ls with
  | nil => rfl
  | cons l ls ih =>
      have hl := h l (by simp)
      have hmore := ih fun l' hl' => h l' (List.mem_cons_of_mem l hl')
      have hsplit : unlines (l :: ls) = l ++ '\n' :: unlines ls := by simp [unlines]
      rw [hsplit, rows_append_feed hl.1, withoutReturn_eq_self hl.2, hmore]
      rfl

theorem infix_withoutReturn_iff {part row : Text} (h : '\r' ∉ part) :
    part <:+: withoutReturn row ↔ part <:+: row := by
  unfold withoutReturn
  split
  next hreturn =>
    rcases List.getLast?_eq_some_iff.1 hreturn with ⟨front, rfl⟩
    rw [List.dropLast_concat, infix_append_cons_iff h]
    refine ⟨.inl, fun hpart => hpart.elim id fun hnil => ?_⟩
    rw [List.infix_nil.1 hnil]
    exact List.nil_infix
  next => rfl

/-- A part without line ends is a part of a row. -/
theorem exists_row_iff {part : Text} (t : Text) (hfeed : '\n' ∉ part) (hreturn : '\r' ∉ part) :
    (∃ row ∈ rows t, part <:+: row) ↔ part <:+: t := by
  by_cases ht : '\n' ∈ t
  · rcases List.eq_append_cons_of_mem ht with ⟨row, rest, rfl, hrow⟩
    have hshorter : rest.length < (row ++ '\n' :: rest).length := by simp; omega
    rw [rows_append_feed hrow, infix_append_cons_iff hfeed, ← exists_row_iff rest hfeed hreturn]
    simp [infix_withoutReturn_iff hreturn]
  · rw [rows_eq_singleton ht]
    simp
termination_by t.length

theorem exists_line_iff {part : Text} (hne : part ≠ []) (hfeed : '\n' ∉ part)
    (hreturn : '\r' ∉ part) :
    (∃ line ∈ lines t, part <:+: line) ↔ part <:+: t := by
  rw [← exists_row_iff t hfeed hreturn, lines]
  split
  next hlast =>
    rcases List.getLast?_eq_some_iff.1 hlast with ⟨front, hrows⟩
    simp [hrows, hne]
  next => rfl

/-- The rows behind a line end are rows of the text. -/
theorem exists_rows_append_feed (t rest : Text) :
    ∃ first more, rows (t ++ '\n' :: rest) = first :: more ++ rows rest := by
  by_cases ht : '\n' ∈ t
  · rcases List.eq_append_cons_of_mem ht with ⟨row, stop, rfl, hrow⟩
    have hshorter : stop.length < (row ++ '\n' :: stop).length := by simp; omega
    rcases exists_rows_append_feed stop rest with ⟨first, more, hrows⟩
    refine ⟨withoutReturn row, first :: more, ?_⟩
    rw [List.append_assoc, List.cons_append, rows_append_feed hrow, hrows]
    rfl
  · exact ⟨withoutReturn t, [], rows_append_feed ht rest⟩
termination_by t.length

theorem getLast?_lines (t : Text) {line : Text} (hfeed : '\n' ∉ line)
    (hreturn : line.getLast? ≠ some '\r') :
    (lines (t ++ '\n' :: (line ++ ['\n']))).getLast? = some line := by
  rcases exists_rows_append_feed t (line ++ ['\n']) with ⟨first, more, hrows⟩
  have hall : rows (t ++ '\n' :: (line ++ ['\n'])) = (first :: more ++ [line]) ++ [[]] := by
    rw [hrows, rows_append_feed hfeed, withoutReturn_eq_self hreturn, List.append_assoc]
    rfl
  rw [lines, hall, List.getLast?_concat, if_pos rfl, List.dropLast_concat, List.getLast?_concat]

/-! ## Trimming -/

theorem trimEnd_append {w : Text} (hw : ∀ c ∈ w, isWhiteSpace c = true)
    (ht : ∀ c ∈ t.getLast?, isWhiteSpace c = false) : trimEnd (t ++ w) = t := by
  have hhead : t.reverse.dropWhile isWhiteSpace = t.reverse := by
    rcases List.eq_nil_or_concat t with rfl | ⟨t, c, rfl⟩
    · rfl
    · have hc : isWhiteSpace c = false := ht c (by simp)
      simp [hc]
  rw [trimEnd, List.reverse_append,
    List.dropWhile_append_of_pos fun c hc => hw c (List.mem_reverse.1 hc), hhead,
    List.reverse_reverse]

theorem trimStart_append {v : Text} (hv : ∀ c ∈ v, isWhiteSpace c = true)
    (ht : ∀ c ∈ t.head?, isWhiteSpace c = false) : trimStart (v ++ t) = t := by
  rw [trimStart, List.dropWhile_append_of_pos hv]
  cases t with
  | nil => rfl
  | cons c t =>
      have hc : isWhiteSpace c = false := ht c rfl
      simp [hc]

theorem trimStart_head? (t : Text) : ∀ c ∈ (trimStart t).head?, isWhiteSpace c = false := by
  intro c hc
  have hnot := List.head?_dropWhile_not isWhiteSpace t
  rw [show (t.dropWhile isWhiteSpace).head? = some c from hc] at hnot
  simpa using hnot

theorem trimEnd_getLast? (t : Text) : ∀ c ∈ (trimEnd t).getLast?, isWhiteSpace c = false := by
  intro c hc
  rw [trimEnd, List.getLast?_reverse] at hc
  exact trimStart_head? t.reverse c hc

/-- What is taken off the start of a text is white space, -/
theorem trimStart_split (t : Text) : ∃ v, t = v ++ trimStart t ∧ ∀ c ∈ v, isWhiteSpace c = true :=
  ⟨t.takeWhile isWhiteSpace, List.takeWhile_append_dropWhile.symm,
    fun _ hc => List.mem_takeWhile_imp hc⟩

/-- and so is what is taken off the end. -/
theorem trimEnd_split (t : Text) : ∃ w, t = trimEnd t ++ w ∧ ∀ c ∈ w, isWhiteSpace c = true := by
  refine ⟨(t.reverse.takeWhile isWhiteSpace).reverse, ?_,
    fun c hc => List.mem_takeWhile_imp (List.mem_reverse.1 hc)⟩
  rw [trimEnd, ← List.reverse_append, List.takeWhile_append_dropWhile, List.reverse_reverse]

/-- The end may be trimmed before the start. -/
theorem trim_split (t : Text) : ∃ v, trimEnd t = v ++ trim t ∧ ∀ c ∈ v, isWhiteSpace c = true := by
  rcases trimStart_split t with ⟨v, hv, hwhite⟩
  rcases trimEnd_split (trimStart t) with ⟨w, hw, hwhite'⟩
  rw [show trimEnd (trimStart t) = trim t from rfl] at hw
  by_cases hnil : trim t = []
  -- Nothing but white space is there, and all of it is taken off the end.
  · have hall : ∀ c ∈ t, isWhiteSpace c = true := by
      rw [hv, hw, hnil]
      intro c hc
      exact (List.mem_append.1 hc).elim (hwhite c) (hwhite' c)
    have hend : trimEnd t = [] := trimEnd_append (t := []) hall (by simp)
    exact ⟨[], by rw [hend, hnil, List.append_nil], by simp⟩
  · have hlast : ∀ c ∈ (v ++ trim t).getLast?, isWhiteSpace c = false := by
      rw [List.getLast?_append_of_ne_nil _ hnil]
      exact trimEnd_getLast? (trimStart t)
    have hends := trimEnd_append hwhite' hlast
    rw [List.append_assoc, ← hw, ← hv] at hends
    exact ⟨v, hends, hwhite⟩

/-! ## Sizes -/

theorem foldl_utf8Size (t : Text) (n : Nat) :
    t.foldl (fun n c => n + c.utf8Size) n = n + byteSize t := by
  -- The sum starts anywhere, as the induction has to go on from the first size.
  induction t generalizing n with
  | nil => rfl
  | cons c t ih =>
      have hcons : byteSize (c :: t) = t.foldl (fun n c => n + c.utf8Size) (0 + c.utf8Size) := rfl
      rw [hcons, List.foldl_cons, ih, ih]
      omega

theorem byteSize_append (t rest : Text) : byteSize (t ++ rest) = byteSize t + byteSize rest := by
  have hboth : byteSize (t ++ rest) = rest.foldl (fun n c => n + c.utf8Size) (byteSize t) :=
    List.foldl_append
  rw [hboth, foldl_utf8Size]

end Text
end ProcedureGen
