import ProcedureGen.Proofs.Script.Rescan

/-!
# Reading tokens

Where no token may be scanned in two ways, a script is read as the list of its tokens.

* `Token.isCalm`: a token that no class of tokens scans once more;
* `Spelled`: a text with the tokens that it is scanned into, all of them calm;
* `Phrase.readTokens`, `Grammar.readTokens`: reading off a list of tokens;
* `Grammar.read_agree`: it gives what reading off the text gives;
* `Spelled.word`, `Spelled.mark`, `Spelled.ending`: words, marks and the end of a spelled text.
-/

namespace ProcedureGen
namespace Script

/-! ## Calm tokens -/

/-- A token that is scanned in one way only: it begins no regular expression, goes on with no
template, and has no part that is an angle. -/
def Token.isCalm (t : Token) : Bool :=
  match t.kind with
  | .punctuator p => p ∉ [.braceClose, .slash, .slashAssign, .less, .shiftLeft, .greater,
      .greaterEqual, .shiftRight, .shiftRightUnsigned, .shiftRightAssign,
      .shiftRightUnsignedAssign]
  | .name _ | .keyword _ => t.raw.head?.any (· != '/')
  | .endOfText => true
  | _ => false

/-- A text that is scanned into calm tokens, and nothing behind them. -/
def Spelled : Text → List Token → Prop
  | x, [] => x = []
  | x, t :: ts => ∃ y, Token.scan x = (t, y) ∧ t.isCalm = true ∧ Spelled y ts

/-- The next token, where the end of the text goes on for ever. -/
def nextToken : List Token → Token
  | [] => endToken []
  | t :: _ => t

namespace Spelled

variable {x : Text} {ts : List Token}

/-- The cursor on a spelled text stands in front of its first token. -/
theorem cursor (h : Spelled x ts) :
    (Cursor.ofText x).token = nextToken ts ∧ (nextToken ts).isCalm = true ∧
      Token.scan x = (nextToken ts, (Cursor.ofText x).rest) ∧
      Spelled (Cursor.ofText x).rest ts.tail := by
  cases ts with
  | nil =>
      obtain rfl : x = [] := h
      exact ⟨rfl, rfl, rfl, rfl⟩
  | cons t ts =>
      rcases h with ⟨y, hscan, hcalm, hmore⟩
      have htoken : Cursor.ofText x = ⟨t, y⟩ := by rw [Cursor.ofText, hscan]
      rw [htoken]
      exact ⟨rfl, hcalm, hscan, hmore⟩

end Spelled

/-! ## Reading off a list -/

/-- What reading off a list of tokens gives: a tree and the tokens behind it. -/
abbrev TokenReading := Option (Tree × List Token)

namespace Phrase

/-- Reads as often as possible, at most `bound` times. -/
def readManyTokens (readOne : List Token → TokenReading) :
    (bound : Nat) → Tree → List Token → Tree × List Token
  | 0, done, ts => (done, ts)
  | bound + 1, done, ts =>
    match readOne ts with
    | none => (done, ts)
    | some (t, us) => readManyTokens readOne bound (.cat done t) us

/-- Reads a phrase off a list of calm tokens. -/
def readTokens (d : Dialect) (bound : Nat) (readRule : Rule → List Token → TokenReading) :
    Phrase → List Token → TokenReading
  | .empty, ts => some (.empty, ts)
  | .token t, ts =>
    if t.matchesKind d (nextToken ts).kind then some (.leaf (nextToken ts), ts.tail) else none
  | .sameLine, ts => if (nextToken ts).onNewLine then none else some (.empty, ts)
  | .seq p q, ts =>
    match p.readTokens d bound readRule ts with
    | none => none
    | some (t, us) =>
      match q.readTokens d bound readRule us with
      | none => none
      | some (u, vs) => some (.cat t u, vs)
  | .either p q, ts =>
    match p.readTokens d bound readRule ts with
    | some r => some r
    | none => q.readTokens d bound readRule ts
  | .optional p, ts =>
    match p.readTokens d bound readRule ts with
    | some r => some r
    | none => some (.empty, ts)
  | .many p, ts =>
    some (readManyTokens (fun us => p.readTokens d bound readRule us) bound .empty ts)
  | .absent p, ts =>
    match p.readTokens d bound readRule ts with
    | some _ => none
    | none => some (.empty, ts)
  | .notBefore p q, ts =>
    match p.readTokens d bound readRule ts with
    | none => none
    | some (t, us) =>
      match q.readTokens d bound readRule us with
      | some _ => none
      | none => some (t, us)
  | .node k p, ts =>
    match p.readTokens d bound readRule ts with
    | some (t, us) => some (.node k t, us)
    | none => none
  | .suffixed k p q, ts =>
    match p.readTokens d bound readRule ts with
    | none => none
    | some (t, us) =>
      match q.readTokens d bound readRule us with
      | none => some (t, us)
      | some (u, vs) => some (.node k (.cat t u), vs)
  | .rule r, ts => readRule r ts

end Phrase

/-- Reads a rule off a list of calm tokens. -/
def Grammar.readTokens (g : Grammar) (d : Dialect) :
    (depth : Nat) → Rule → List Token → TokenReading
  | 0, _, _ => none
  | depth + 1, r, ts => (g r).readTokens d depth (g.readTokens d depth) ts

namespace Phrase

variable {d : Dialect} {bound : Nat} {readRule : Rule → List Token → TokenReading} {p q : Phrase}
variable {k : Node} {t u : Tree} {ts us vs : List Token}

attribute [local simp] readTokens

theorem readTokens_seq (hp : p.readTokens d bound readRule ts = some (t, us))
    (hq : q.readTokens d bound readRule us = some (u, vs)) :
    (seq p q).readTokens d bound readRule ts = some (.cat t u, vs) := by
  simp [hp, hq]

theorem readTokens_first (hp : p.readTokens d bound readRule ts = some (t, us)) :
    (either p q).readTokens d bound readRule ts = some (t, us) := by
  simp [hp]

theorem readTokens_second (hp : p.readTokens d bound readRule ts = none)
    (hq : q.readTokens d bound readRule ts = some (t, us)) :
    (either p q).readTokens d bound readRule ts = some (t, us) := by
  simp [hp, hq]

theorem readTokens_optional (hp : p.readTokens d bound readRule ts = some (t, us)) :
    (optional p).readTokens d bound readRule ts = some (t, us) := by
  simp [hp]

theorem readTokens_node (hp : p.readTokens d bound readRule ts = some (t, us)) :
    (node k p).readTokens d bound readRule ts = some (.node k t, us) := by
  simp [hp]

/-- Where no suffix follows, a phrase is read alone. -/
theorem readTokens_unsuffixed (hp : p.readTokens d bound readRule ts = some (t, us))
    (hq : q.readTokens d bound readRule us = none) :
    (suffixed k p q).readTokens d bound readRule ts = some (t, us) := by
  simp [hp, hq]

theorem readTokens_many
    (hp : readManyTokens (fun us => p.readTokens d bound readRule us) bound .empty ts = (t, us)) :
    (many p).readTokens d bound readRule ts = some (t, us) := by
  simp [hp]

theorem readManyTokens_stop {readOne : List Token → TokenReading} {done : Tree}
    (h : readOne ts = none) : readManyTokens readOne bound done ts = (done, ts) := by
  cases bound with
  | zero => rfl
  | succ bound => simp only [readManyTokens, h]

end Phrase

/-! ## Both readings agree -/

/-- Reading off a spelled text gives what reading off its tokens gives. -/
def Agree (read : Cursor → Reading) (readTokens : List Token → TokenReading) : Prop :=
  ∀ x ts, Spelled x ts →
    match readTokens ts with
    | none => read (.ofText x) = none
    | some (tree, us) => ∃ y, Spelled y us ∧ read (.ofText x) = some (tree, .ofText y)

namespace Agree

variable {read : Cursor → Reading} {readTokens : List Token → TokenReading} {x : Text}
variable {ts us : List Token} {tree : Tree}

theorem some (h : Agree read readTokens) (hx : Spelled x ts)
    (hread : readTokens ts = .some (tree, us)) :
    ∃ y, Spelled y us ∧ read (.ofText x) = .some (tree, .ofText y) := by
  have hagree := h x ts hx
  rwa [hread] at hagree

/-- Both readings fail, or both give one tree. -/
theorem cases (h : Agree read readTokens) (hx : Spelled x ts) :
    (readTokens ts = .none ∧ read (.ofText x) = .none) ∨
      ∃ tree us y, readTokens ts = .some (tree, us) ∧ Spelled y us ∧
        read (.ofText x) = .some (tree, .ofText y) := by
  cases hread : readTokens ts with
  | none =>
      have hagree := h x ts hx
      rw [hread] at hagree
      exact .inl ⟨rfl, hagree⟩
  | some found =>
      rcases h.some hx hread with ⟨y, hy, hread'⟩
      exact .inr ⟨found.1, found.2, y, rfl, hy, hread'⟩

end Agree

namespace Terminal

variable {d : Dialect} {t : Terminal} {x : Text} {ts : List Token}

theorem readRegex?_none {y : Text} (h : y.head? ≠ some '/') : Literal.readRegex? y = none := by
  unfold Literal.readRegex?
  split
  · exact absurd rfl h
  · rfl

/-- No calm token begins with a slash. -/
theorem head?_calm {u : Token} {rest : Text} (hcalm : u.isCalm = true)
    (hscan : Token.scan x = (u, rest)) : (u.raw ++ rest).head? ≠ some '/' := by
  have hread : u.kind ≠ .invalid → Token.read? (u.raw ++ rest) = some (u.kind, ⟨u.raw, rest⟩) :=
    fun hvalid => (Token.scan_valid hscan hvalid).2
  have hword : u.raw.head?.any (· != '/') = true → (u.raw ++ rest).head? ≠ some '/' := by
    cases u.raw with
    | nil => simp
    | cons c raw => simp
  unfold Token.isCalm at hcalm
  split at hcalm
  next p hkind =>
    rw [hkind] at hread
    have hraw : u.raw = p.spelling := Token.read?_mark_raw (hread (by simp))
    have hmark : p.spelling.head? = some '/' → p = .slash ∨ p = .slashAssign := by
      cases p <;> decide
    rw [hraw, List.head?_append_of_ne_nil _ (Punctuator.spelling_ne_nil p)]
    intro hslash
    rcases hmark hslash with rfl | rfl <;> simp at hcalm
  next => exact hword hcalm
  next => exact hword hcalm
  next hkind =>
    rw [hkind] at hread
    rw [((Token.read?_kind (hread (by simp))).1 rfl).1]
    simp
  next => cases hcalm

/-- A calm token is taken as it was scanned, and by no class that scans it once more. -/
theorem accept_calm {c : Cursor} (hcalm : c.token.isCalm = true)
    (hslash : (c.token.raw ++ c.rest).head? ≠ some '/') (t : Terminal) :
    t.accept d c = if t.matchesKind d c.token.kind then some c.advance else none := by
  have hmark : ∀ p, c.token.kind = .punctuator p → p ∉ [.braceClose, .slash, .slashAssign,
      .less, .shiftLeft, .greater, .greaterEqual, .shiftRight, .shiftRightUnsigned,
      .shiftRightAssign, .shiftRightUnsignedAssign] := by
    intro p hkind
    simpa [Token.isCalm, hkind] using hcalm
  cases t with
  | regex =>
      rw [accept, Token.scanRegex, readRegex?_none hslash]
      simp [matchesKind]
  | templateRest part tagged =>
      have hnone : Token.scanTemplateRest c.token c.rest = none := by
        unfold Token.scanTemplateRest
        split
        next hkind => exact absurd (by simp) (hmark _ hkind)
        · rfl
      simp [accept, matchesKind, hnone]
  | openAngle =>
      simp only [accept]
      split
      case h_1 hkind | h_2 hkind => exact absurd (by simp) (hmark _ hkind)
      · simp [matchesKind]
  | closeAngle =>
      simp only [accept]
      split
      case h_1 hkind | h_2 hkind | h_3 hkind | h_4 hkind | h_5 hkind | h_6 hkind =>
        exact absurd (by simp) (hmark _ hkind)
      · simp [matchesKind]
  | _ => rfl

/-- So a class takes the same token off a text and off the list of its tokens. -/
theorem accept_agree (d : Dialect) (t : Terminal) {bound : Nat}
    {readRule : Rule → List Token → TokenReading} :
    Agree (t.accept d) ((Phrase.token t).readTokens d bound readRule) := by
  intro x ts h
  rcases h.cursor with ⟨htoken, hcalm, hscan, hmore⟩
  rw [accept_calm (htoken ▸ hcalm) (htoken ▸ head?_calm hcalm hscan), Cursor.advance, Cursor.take,
    htoken]
  simp only [Phrase.readTokens]
  cases t.matchesKind d (nextToken ts).kind with
  | false => rfl
  | true => exact ⟨_, hmore, rfl⟩

end Terminal

namespace Phrase

variable {d : Dialect} {bound : Nat} {readRule : Rule → Cursor → Reading}
variable {readRuleTokens : Rule → List Token → TokenReading} {p : Phrase}

theorem readMany_agree {readOne : Cursor → Reading} {readOneTokens : List Token → TokenReading}
    (hone : Agree readOne readOneTokens) (bound : Nat) {x : Text} {ts : List Token} (done : Tree)
    (h : Spelled x ts) :
    ∃ y, Spelled y (readManyTokens readOneTokens bound done ts).2 ∧
      readMany readOne bound done (.ofText x) =
        ((readManyTokens readOneTokens bound done ts).1, .ofText y) := by
  induction bound generalizing x ts done with
  | zero => exact ⟨x, h, rfl⟩
  | succ bound ih =>
      rcases hone.cases h with ⟨hread, hread'⟩ | ⟨t, us, y, hread, hy, hread'⟩
      · simp only [readMany, readManyTokens, hread, hread']
        exact ⟨x, h, rfl⟩
      · simp only [readMany, readManyTokens, hread, hread']
        exact ih (.cat done t) hy

/-- A phrase is read off a spelled text as off its tokens, if the rules in it are. -/
theorem read_agree (hrule : ∀ r, Agree (readRule r) (readRuleTokens r)) (p : Phrase) :
    Agree (p.read d bound readRule) (p.readTokens d bound readRuleTokens) := by
  induction p with
  | empty => exact fun x ts h => ⟨x, h, rfl⟩
  | token t => exact Terminal.accept_agree d t
  | sameLine =>
      intro x ts h
      simp only [read, readTokens, h.cursor.1]
      cases (nextToken ts).onNewLine with
      | true => rfl
      | false => exact ⟨x, h, rfl⟩
  | seq p q ihp ihq =>
      intro x ts h
      rcases ihp.cases h with ⟨hp, hp'⟩ | ⟨t, us, y, hp, hy, hp'⟩
      · simp only [read, readTokens, hp, hp']
      · rcases ihq.cases hy with ⟨hq, hq'⟩ | ⟨u, vs, z, hq, hz, hq'⟩
        · simp only [read, readTokens, hp, hp', hq, hq']
        · simp only [read, readTokens, hp, hp', hq, hq']
          exact ⟨z, hz, rfl⟩
  | either p q ihp ihq =>
      intro x ts h
      rcases ihp.cases h with ⟨hp, hp'⟩ | ⟨t, us, y, hp, hy, hp'⟩
      · simp only [read, readTokens, hp, hp']
        exact ihq x ts h
      · simp only [read, readTokens, hp, hp']
        exact ⟨y, hy, rfl⟩
  | optional p ih =>
      intro x ts h
      rcases ih.cases h with ⟨hp, hp'⟩ | ⟨t, us, y, hp, hy, hp'⟩
      · simp only [read, readTokens, hp, hp']
        exact ⟨x, h, rfl⟩
      · simp only [read, readTokens, hp, hp']
        exact ⟨y, hy, rfl⟩
  | many p ih =>
      intro x ts h
      rcases readMany_agree ih bound .empty h with ⟨y, hy, hread⟩
      simp only [read, readTokens, hread]
      exact ⟨y, hy, rfl⟩
  | absent p ih =>
      intro x ts h
      rcases ih.cases h with ⟨hp, hp'⟩ | ⟨t, us, y, hp, -, hp'⟩
      · simp only [read, readTokens, hp, hp']
        exact ⟨x, h, rfl⟩
      · simp only [read, readTokens, hp, hp']
  | notBefore p q ihp ihq =>
      intro x ts h
      rcases ihp.cases h with ⟨hp, hp'⟩ | ⟨t, us, y, hp, hy, hp'⟩
      · simp only [read, readTokens, hp, hp']
      · rcases ihq.cases hy with ⟨hq, hq'⟩ | ⟨u, vs, z, hq, -, hq'⟩
        · simp only [read, readTokens, hp, hp', hq, hq']
          exact ⟨y, hy, rfl⟩
        · simp only [read, readTokens, hp, hp', hq, hq']
  | node k p ih =>
      intro x ts h
      rcases ih.cases h with ⟨hp, hp'⟩ | ⟨t, us, y, hp, hy, hp'⟩
      · simp only [read, readTokens, hp, hp']
      · simp only [read, readTokens, hp, hp']
        exact ⟨y, hy, rfl⟩
  | suffixed k p q ihp ihq =>
      intro x ts h
      rcases ihp.cases h with ⟨hp, hp'⟩ | ⟨t, us, y, hp, hy, hp'⟩
      · simp only [read, readTokens, hp, hp']
      · rcases ihq.cases hy with ⟨hq, hq'⟩ | ⟨u, vs, z, hq, hz, hq'⟩
        · simp only [read, readTokens, hp, hp', hq, hq']
          exact ⟨y, hy, rfl⟩
        · simp only [read, readTokens, hp, hp', hq, hq']
          exact ⟨z, hz, rfl⟩
  | rule r => exact hrule r

end Phrase

/-- A rule is read off a spelled text as off its tokens. -/
theorem Grammar.read_agree (g : Grammar) (d : Dialect) (depth : Nat) (r : Rule) :
    Agree (g.read d depth r) (g.readTokens d depth r) := by
  induction depth generalizing r with
  | zero => exact fun x ts _ => rfl
  | succ depth ih => exact Phrase.read_agree ih (g r)

/-! ## Spelling words and marks -/

/-- Whether a text is a word without escapes. -/
def isIdentifier : Text → Bool
  | [] => false
  | c :: v => isIdentifierStart c && v.all isIdentifierPart

theorem isIdentifier_iff {w : Text} : isIdentifier w = true ↔
    ∃ c v, w = c :: v ∧ isIdentifierStart c = true ∧ ∀ d ∈ v, isIdentifierPart d = true := by
  cases w with
  | nil => simp [isIdentifier]
  | cons c v => simp [isIdentifier]

/-- What a word without escapes is. -/
def wordKind (w : Text) : Kind :=
  match Keyword.ofText? w with
  | some k => .keyword k
  | none => .name w

theorem wordKind_spelling (k : Keyword) : wordKind k.spelling = .keyword k := by
  cases k <;> decide

theorem isIdentifier_spelling (k : Keyword) : isIdentifier k.spelling = true := by
  have hletters : k.spelling.all isLetter = true ∧ k.spelling ≠ [] := by cases k <;> decide
  rcases List.exists_cons_of_ne_nil hletters.2 with ⟨c, v, hcv⟩
  have hall : ∀ d ∈ c :: v, isLetter d = true := by
    rw [← hcv]
    exact List.all_eq_true.1 hletters.1
  refine isIdentifier_iff.2
    ⟨c, v, hcv, ?_, fun d hd => isIdentifierPart_of_isLetter (hall d (by simp [hd]))⟩
  simp [isIdentifierStart, hall c (by simp)]

/-- A mark of one character that is neither a slash nor a part of a number or of an angle. -/
def Punctuator.single? : Punctuator → Option Char
  | .parenOpen => some '('
  | .parenClose => some ')'
  | .bracketOpen => some '['
  | .bracketClose => some ']'
  | .braceOpen => some '\x7b'
  | .comma => some ','
  | .colon => some ':'
  | .semicolon => some ';'
  | .assign => some '='
  | _ => none

/-! ## Names of functions -/

theorem Word.isIdentifier_of_read? {t : Text} {w : Word} (h : Word.read? t = some w) :
    isIdentifier w.decoded = true := by
  have hparts := scan_decoded (scan_of_read? h)
  unfold read? at h
  rw [scan_of_read? h] at h
  dsimp only at h
  split at h
  next c rest hdecoded =>
    split at h
    next hstart =>
      rw [hdecoded] at hparts ⊢
      exact isIdentifier_iff.2
        ⟨c, rest, rfl, hstart, fun d hd => hparts d (List.mem_cons_of_mem c hd)⟩
    · cases h
  · cases h

theorem Keyword.spelling_of_ofText? {w : Text} {k : Keyword} (h : Keyword.ofText? w = some k) :
    k.spelling = w := by
  simpa using List.find?_some h

/-- A word that may be bound may be bound without its escapes as well. -/
theorem Word.binding_wordKind {w : Word} {t : Token} (ht : t.kind = w.kind)
    (h : Terminal.binding.matchesKind .plain w.kind = true) :
    t.word? = some w.decoded ∧
      Terminal.binding.matchesKind .plain (wordKind w.decoded) = true := by
  have hfree : ∀ k : Keyword, (k.isReserved || k.isStrictReserved) = false →
      k.isUnbindable = false → Terminal.binding.matchesKind .plain (.keyword k) = true := by
    intro k
    cases k <;> decide
  unfold Token.word?
  rw [ht]
  cases hkeyword : Keyword.ofText? w.decoded with
  | none =>
      have hkind : w.kind = .name w.decoded := by rw [Word.kind, hkeyword]
      rw [hkind, wordKind, hkeyword]
      exact ⟨rfl, rfl⟩
  | some k =>
      have hspelling := Keyword.spelling_of_ofText? hkeyword
      rw [wordKind, hkeyword]
      rw [Word.kind, hkeyword] at h ⊢
      dsimp only at h ⊢
      split at h
      next hcheck =>
        rw [if_pos hcheck]
        exact ⟨congrArg some hspelling, h⟩
      next hcheck =>
        split at h
        · cases h
        next hreserved =>
          simp only [Bool.or_eq_true, not_or, Bool.not_eq_true] at hcheck
          rw [if_neg (by simpa using hcheck), if_neg hreserved]
          exact ⟨rfl, hfree k (by simpa using hreserved) hcheck.2⟩

theorem Token.exists_word_of_read? {y : Text} {k : Kind} {l : Literal}
    (hread : Token.read? y = some (k, l)) (h : Terminal.binding.matchesKind .plain k = true) :
    ∃ w, Word.read? y = some w ∧ k = w.kind := by
  revert hread
  fun_cases Token.read? y with
  | case5 =>
      intro hread
      rcases Option.map_eq_some_iff.1 hread with ⟨w, hw, heq⟩
      exact ⟨w, hw, (Prod.mk.inj heq).1.symm⟩
  | case2 | case8 | case9 => simp
  | case1 | case7 =>
      intro hread
      rw [← (Prod.mk.inj (Option.some.inj hread)).1] at h
      cases h
  | _ =>
      intro hread
      rcases Option.map_eq_some_iff.1 hread with ⟨m, -, heq⟩
      rw [← (Prod.mk.inj heq).1] at h
      cases h

/-- A word that may be bound is spelled by a text that may be bound. -/
theorem Token.exists_identifier {x : Text}
    (h : Terminal.binding.matchesKind .plain (Token.scan x).1.kind = true) :
    ∃ w, (Token.scan x).1.word? = some w ∧ isIdentifier w = true ∧
      Terminal.binding.matchesKind .plain (wordKind w) = true := by
  have hvalid : (Token.scan x).1.kind ≠ .invalid := by
    intro hkind
    rw [hkind] at h
    cases h
  rcases exists_word_of_read? (Token.scan_valid rfl hvalid).2 h with ⟨w, hw, hkind⟩
  rcases Word.binding_wordKind hkind (hkind ▸ h) with ⟨hword, hbinding⟩
  exact ⟨w.decoded, hword, Word.isIdentifier_of_read? hw, hbinding⟩

/-! ## Tokens of texts -/

section Texts

variable {g w rest : Text} {p : Punctuator} {ts : List Token}

/-- No word goes on with a mark. -/
theorem quiet_mark {c : Char} (hc : c ∈ [' ', '(', ')', '[', ']', ',', ':', ';', '=']) :
    Quiet (c :: rest) := by
  have hall : [' ', '(', ')', '[', ']', ',', ':', ';', '='].all
      (fun c => !isIdentifierPart c && c != '\\') = true := by decide
  intro d hd
  obtain rfl : c = d := Option.some.inj hd
  simpa using List.all_eq_true.1 hall c hc

theorem Word.scan_identifier (hw : ∀ c ∈ w, isIdentifierPart c = true) (hrest : Quiet rest) :
    Word.scan none (w ++ rest) = some ⟨w, w, rest⟩ := by
  induction w with
  | nil => exact Word.scan_quiet hrest
  | cons c w ih =>
      rw [List.cons_append, Word.scan_part (hw c (by simp)),
        ih fun d hd => hw d (List.mem_cons_of_mem c hd)]
      rfl

/-- An identifier is read up to where it ends. -/
theorem Token.read?_identifier (hw : isIdentifier w = true) (hrest : Quiet rest) :
    Token.read? (w ++ rest) = some (wordKind w, ⟨w, rest⟩) := by
  rcases isIdentifier_iff.1 hw with ⟨c, v, rfl, hc, hv⟩
  have hpart : ∀ d ∈ c :: v, isIdentifierPart d = true := by
    intro d hd
    rcases List.mem_cons.1 hd with rfl | hd
    · simp [isIdentifierPart, hc]
    · exact hv d hd
  have hother : ∀ d : Char, isIdentifierStart d = false → c ≠ d := by
    rintro d hd rfl
    exact absurd (hc.symm.trans hd) (by decide)
  have hplain : Token.OpensPlain c (v ++ rest) := by
    refine ⟨hother '#' (by decide), hother '\x60' (by decide), ?_⟩
    rintro ⟨more, hmore⟩
    exact hother '<' (by decide) (List.cons.inj hmore).1.symm
  have hread : Word.read? (c :: (v ++ rest)) = some ⟨c :: v, c :: v, rest⟩ := by
    rw [Word.read?, ← List.cons_append, Word.scan_identifier hpart hrest]
    simp [hc]
  rw [List.cons_append, Token.read?_plain hplain, if_pos (by simp [Token.opensWord, hc]), hread]
  simp only [Option.map_some, Word.kind, wordKind]
  cases Keyword.ofText? (c :: v) <;> simp

theorem Punctuator.single?_spec {c : Char} (h : p.single? = some c) :
    p.spelling = [c] ∧ Token.opensMark c = true ∧ c ≠ '/' ∧ isSpace c = false := by
  unfold single? at h
  split at h
  all_goals first
    | cases h
      exact ⟨rfl, by decide⟩
    | cases h

/-- A mark of one character is read where no longer one begins. -/
theorem Token.read?_single {c : Char} (hp : p.single? = some c)
    (h : Punctuator.longest? (c :: rest) = some (p, rest)) :
    Token.read? (c :: rest) = some (.punctuator p, ⟨p.spelling, rest⟩) := by
  have hmark : Punctuator.read? (c :: rest) = some (p, rest) := by
    apply Punctuator.read?_of_longest? h
    rintro rfl
    cases hp
  exact Token.read?_mark (Punctuator.single?_spec hp).2.1 hmark

/-- An identifier behind a gap. -/
theorem Token.scan_identifier (hg : Gap.pass .blank g = some .blank) (hw : isIdentifier w = true)
    (hrest : Quiet rest) :
    Token.scan (g ++ (w ++ rest)) = (⟨wordKind w, g, w, g.any isLineEnd⟩, rest) := by
  have hread := Token.read?_identifier hw hrest
  rcases isIdentifier_iff.1 hw with ⟨c, v, rfl, hc, -⟩
  have hspace := isSpace_of_isIdentifierPart (c := c) (by simp [isIdentifierPart, hc])
  have hslash : c ≠ '/' := by
    rintro rfl
    exact absurd hc (by decide)
  have hopens : opensToken (c :: v ++ rest) = true :=
    opensToken_cons.2 ⟨hspace, fun h => absurd h hslash⟩
  rw [Token.scan_of_complete (.of_opens hg hopens), hread]
  rfl

/-- A mark behind a gap. -/
theorem Token.scan_single {c : Char} (hg : Gap.pass .blank g = some .blank)
    (hp : p.single? = some c) (hlongest : Punctuator.longest? (c :: rest) = some (p, rest)) :
    Token.scan (g ++ (c :: rest)) = (⟨.punctuator p, g, [c], g.any isLineEnd⟩, rest) := by
  rcases Punctuator.single?_spec hp with ⟨hspelling, -, hother, hspace⟩
  have hopens : opensToken (c :: rest) = true :=
    opensToken_cons.2 ⟨hspace, fun h => absurd (by simp [h]) hother⟩
  rw [Token.scan_of_complete (.of_opens hg hopens), Token.read?_single hp hlongest, hspelling]
  rfl

end Texts

namespace Spelled

variable {g w rest : Text} {p : Punctuator} {ts : List Token} {c : Char}

/-- A word in front of a spelled text. -/
theorem word (hg : Gap.pass .blank g = some .blank) (hw : isIdentifier w = true)
    (hrest : Quiet rest) (h : Spelled rest ts) :
    Spelled (g ++ (w ++ rest)) (⟨wordKind w, g, w, g.any isLineEnd⟩ :: ts) := by
  refine ⟨rest, Token.scan_identifier hg hw hrest, ?_, h⟩
  rcases isIdentifier_iff.1 hw with ⟨c, v, rfl, hc, -⟩
  have hslash : c ≠ '/' := by
    rintro rfl
    exact absurd hc (by decide)
  unfold Token.isCalm wordKind
  cases Keyword.ofText? (c :: v) <;> simp [hslash]

/-- A mark of one character, where no longer one begins. -/
theorem mark (hg : Gap.pass .blank g = some .blank) (hp : p.single? = some c)
    (hlongest : Punctuator.longest? (c :: rest) = some (p, rest)) (h : Spelled rest ts) :
    Spelled (g ++ (c :: rest)) (⟨.punctuator p, g, [c], g.any isLineEnd⟩ :: ts) := by
  refine ⟨rest, Token.scan_single hg hp hlongest, ?_, h⟩
  unfold Punctuator.single? at hp
  split at hp
  all_goals first
    | rfl
    | cases hp

/-- The gap at the end of a text. -/
theorem ending (hg : Gap.pass .blank g = some .blank) : Spelled g [endToken g] := by
  refine ⟨[], ?_, rfl, rfl⟩
  have hscan := Token.scan_of_complete (g := g) (y := []) (.inr ⟨rfl, .inl hg⟩)
  rw [List.append_nil] at hscan
  exact hscan

end Spelled

end Script
end ProcedureGen
