import Mathlib.Data.List.TakeWhile
import ProcedureGen.Json.Number

/-!
# What a number takes

A number depends on the characters that it takes, and on where it ends.

* `Json.Follows`: what a text may be replaced by behind a number;
* `Json.Takes`: a reader takes the front of a text;
* `Number.takes_digits`, `Number.takes_readExponent`: digits and exponents do;
* `Number.takes_read`: numbers do.
-/

namespace ProcedureGen

namespace Json

/-- What can stand inside of a number, but for a sign. -/
def isNumberPart (c : Char) : Bool := c.isDigit || c = '.' || c = 'e' || c = 'E'

/-- Where one text ends a number, so does the other. -/
def Follows (rest more : Text) : Prop :=
  ∀ c, more.head? = some c → isNumberPart c = true → rest.head? = some c

theorem follows_nil (t : Text) : Follows t [] := by simp [Follows]

theorem Follows.append {rest more : Text} (h : Follows rest more) (raw : Text) :
    Follows (raw ++ rest) (raw ++ more) := by
  cases raw with
  | nil => exact h
  | cons c raw => exact fun _ h _ => h

/-- A reader takes the front of a text, whatever follows there. -/
def Takes {α : Type} (read : Text → Except Fault (α × Text)) (t : Text) (a : α) (rest : Text) :
    Prop :=
  ∃ raw, t = raw ++ rest ∧ ∀ more, Follows rest more → read (raw ++ more) = .ok (a, more)

/-- A reader that goes on with another one behind a character takes it too. -/
theorem Takes.cons {α : Type} {read read' : Text → Except Fault (α × Text)} {t rest : Text} {a : α}
    {c : Char} (h : Takes read' t a rest) (hread : ∀ t, read (c :: t) = read' t) :
    Takes read (c :: t) a rest := by
  rcases h with ⟨raw, rfl, htakes⟩
  exact ⟨c :: raw, rfl, fun more hmore => (hread _).trans (htakes more hmore)⟩

namespace Number

variable {t rest : Text} {ds : List Nat} {n : Number} {isNegative : Bool} {significand : Nat}
  {exponent : Int}

theorem takes_digits (h : splitDigits t = (ds, rest)) :
    ∃ raw, t = raw ++ rest ∧ (raw = [] ↔ ds = []) ∧
      ∀ more, Follows rest more → splitDigits (raw ++ more) = (ds, more) := by
  obtain ⟨rfl, rfl⟩ := Prod.mk.inj h
  refine ⟨t.takeWhile Char.isDigit, List.takeWhile_append_dropWhile.symm, by simp,
    fun more hmore => ?_⟩
  have hall : ∀ c ∈ t.takeWhile Char.isDigit, c.isDigit = true :=
    fun c hc => List.mem_takeWhile_imp hc
  -- No further digit stands behind the digits.
  have hend : more.takeWhile Char.isDigit = [] ∧ more.dropWhile Char.isDigit = more := by
    cases more with
    | nil => simp
    | cons c more =>
        by_cases hc : c.isDigit = true
        · have hhead := hmore c rfl (by simp [isNumberPart, hc])
          have := List.head?_dropWhile_not Char.isDigit t
          simp [hhead, hc] at this
        · simp [hc]
  rw [splitDigits, List.takeWhile_append_of_pos hall, List.dropWhile_append_of_pos hall, hend.1,
    hend.2, List.append_nil]

/-- The number with the digits of an exponent. -/
def withExponent (isNegative : Bool) (significand : Nat) (exponent : Int) (isSmall : Bool)
    (ds : List Nat) : Except Fault Number :=
  let e := ds.foldl (fun n d => n * 10 + d) 0
  if e < exponentBound then
    ofDecimal isNegative significand (if isSmall then exponent - e else exponent + e)
  else if significand ≠ 0 && !isSmall then .error .numberOutOfRange
  else .ok (.float isNegative Double.zero)

/-- What stands behind the sign of an exponent. -/
def behindSign (t : Text) : Text :=
  if t.head? = some '-' || t.head? = some '+' then t.drop 1 else t

theorem pair_bind (x : Except Fault Number) (rest : Text) :
    (do return (← x, rest)) = x.map fun n => (n, rest) := by
  cases x <;> rfl

theorem readExponent_of_digits (h : splitDigits (behindSign t) = (ds, rest)) (hds : ds ≠ []) :
    readExponent isNegative significand exponent t =
      (withExponent isNegative significand exponent (t.head? = some '-') ds).map fun n =>
        (n, rest) := by
  obtain ⟨d, ds, rfl⟩ := List.exists_cons_of_ne_nil hds
  unfold behindSign at h
  unfold readExponent withExponent
  simp only [h, pair_bind, decide_eq_true_eq]
  split
  · rfl
  · split <;> rfl

theorem readExponent_of_no_digits (h : splitDigits (behindSign t) = ([], rest)) :
    ∃ f, readExponent isNegative significand exponent t = .error f := by
  unfold behindSign at h
  unfold readExponent
  dsimp only
  generalize (if (decide (t.head? = some '-') || decide (t.head? = some '+')) = true then t.drop 1
    else t) = digits at h ⊢
  rw [h]
  cases digits <;> exact ⟨_, rfl⟩

theorem map_pair_eq_ok_iff {x : Except Fault Number} {r : Text} :
    (x.map fun n => (n, r)) = .ok (n, rest) ↔ x = .ok n ∧ r = rest := by
  cases x <;> simp [Except.map]

theorem behindSign_cons (c : Char) (t : Text) :
    behindSign (c :: t) = if c = '-' ∨ c = '+' then t else c :: t := by
  simp [behindSign]

theorem takes_readExponent (h : readExponent isNegative significand exponent t = .ok (n, rest)) :
    Takes (readExponent isNegative significand exponent) t n rest := by
  rcases hsplit : splitDigits (behindSign t) with ⟨ds, r⟩
  by_cases hds : ds = []
  · subst hds
    rcases readExponent_of_no_digits hsplit with ⟨f, hf⟩
    rw [hf] at h
    cases h
  · rw [readExponent_of_digits hsplit hds, map_pair_eq_ok_iff] at h
    obtain ⟨hvalue, rfl⟩ := h
    rcases takes_digits hsplit with ⟨raw, hraw, hnil, htakes⟩
    have hraw' : raw ≠ [] := mt hnil.1 hds
    -- A sign is taken with the digits; without one, a digit stands first.
    cases t with
    | nil => simp [behindSign, hraw'] at hraw
    | cons c t =>
        rw [behindSign_cons] at hraw
        by_cases hc : c = '-' ∨ c = '+'
        · rw [if_pos hc] at hraw
          refine ⟨c :: raw, by simp [hraw], fun more hmore => ?_⟩
          have hmore' : splitDigits (behindSign (c :: raw ++ more)) = (ds, more) := by
            rw [List.cons_append, behindSign_cons, if_pos hc, htakes more hmore]
          rw [readExponent_of_digits hmore' hds, map_pair_eq_ok_iff]
          exact ⟨hvalue, rfl⟩
        · rw [if_neg hc] at hraw
          obtain ⟨d, raw, rfl⟩ := List.exists_cons_of_ne_nil hraw'
          obtain rfl : c = d := (List.cons.inj hraw).1
          refine ⟨c :: raw, hraw, fun more hmore => ?_⟩
          have hmore' : splitDigits (behindSign (c :: raw ++ more)) = (ds, more) := by
            rw [List.cons_append, behindSign_cons, if_neg hc]
            exact htakes more hmore
          rw [readExponent_of_digits hmore' hds, map_pair_eq_ok_iff]
          exact ⟨hvalue, rfl⟩

/-! ## Fractions and whole numbers -/

theorem readTail_of_exponent {c : Char} (hc : c = 'e' ∨ c = 'E') :
    readTail isNegative significand exponent (c :: t) =
      readExponent isNegative significand exponent t := by
  rcases hc with rfl | rfl <;> rfl

theorem readTail_of_ne (he : t.head? ≠ some 'e') (hE : t.head? ≠ some 'E') :
    readTail isNegative significand exponent t =
      (ofDecimal isNegative significand exponent).map fun n => (n, t) := by
  unfold readTail
  split
  · exact absurd rfl he
  · exact absurd rfl hE
  · exact pair_bind _ _

/-- What a text begins with if it goes on with a number is seen by any text that may follow. -/
theorem head?_ne_of_follows {more : Text} {c : Char} (h : Follows rest more)
    (hc : isNumberPart c = true) (hrest : rest.head? ≠ some c) : more.head? ≠ some c :=
  fun hmore => hrest (h c hmore hc)

theorem takes_readTail (h : readTail isNegative significand exponent t = .ok (n, rest)) :
    Takes (readTail isNegative significand exponent) t n rest := by
  by_cases hexp : ∃ c, t.head? = some c ∧ (c = 'e' ∨ c = 'E')
  · rcases hexp with ⟨c, hhead, hc⟩
    obtain ⟨t, rfl⟩ := List.head?_eq_some_iff.1 hhead
    rw [readTail_of_exponent hc] at h
    exact (takes_readExponent h).cons fun t => readTail_of_exponent hc
  · have he : t.head? ≠ some 'e' := fun h => hexp ⟨_, h, .inl rfl⟩
    have hE : t.head? ≠ some 'E' := fun h => hexp ⟨_, h, .inr rfl⟩
    rw [readTail_of_ne he hE, map_pair_eq_ok_iff] at h
    obtain ⟨hvalue, rfl⟩ := h
    refine ⟨[], rfl, fun more hmore => ?_⟩
    rw [List.nil_append, readTail_of_ne (head?_ne_of_follows hmore (by decide) he)
      (head?_ne_of_follows hmore (by decide) hE), hvalue]
    rfl

theorem readFraction_of_digits (h : splitDigits t = (ds, rest)) (hds : ds ≠ []) :
    readFraction isNegative significand exponent t =
      readTail isNegative (absorb significand ds).1
        (exponent - (ds.length - (absorb significand ds).2.length : Nat)) rest := by
  obtain ⟨d, ds, rfl⟩ := List.exists_cons_of_ne_nil hds
  unfold readFraction
  simp only [h]

theorem readFraction_of_no_digits (h : splitDigits t = ([], rest)) :
    ∃ f, readFraction isNegative significand exponent t = .error f := by
  unfold readFraction
  rw [h]
  cases t <;> exact ⟨_, rfl⟩

theorem takes_readFraction (h : readFraction isNegative significand exponent t = .ok (n, rest)) :
    Takes (readFraction isNegative significand exponent) t n rest := by
  rcases hsplit : splitDigits t with ⟨ds, r⟩
  by_cases hds : ds = []
  · subst hds
    rcases readFraction_of_no_digits hsplit with ⟨f, hf⟩
    rw [hf] at h
    cases h
  · rw [readFraction_of_digits hsplit hds] at h
    rcases takes_digits hsplit with ⟨digits, rfl, -, hdigits⟩
    rcases takes_readTail h with ⟨raw, rfl, htakes⟩
    refine ⟨digits ++ raw, by simp, fun more hmore => ?_⟩
    rw [List.append_assoc, readFraction_of_digits (hdigits _ (hmore.append raw)) hds,
      htakes more hmore]

/-- What is read behind the digits of the whole part. -/
def readBehind (isNegative : Bool) (n : Nat) (extra : List Nat) (t : Text) :
    Except Fault (Number × Text) :=
  match extra, t with
  | _, '.' :: rest => readFraction isNegative n extra.length rest
  | [], 'e' :: rest | [], 'E' :: rest => readExponent isNegative n 0 rest
  | [], rest => do return (← ofWhole isNegative n, rest)
  | _ :: _, rest => readTail isNegative n extra.length rest

theorem readBehind_of_point (extra : List Nat) :
    readBehind isNegative significand extra ('.' :: t) =
      readFraction isNegative significand extra.length t := by
  cases extra <;> rfl

theorem readBehind_of_exponent {c : Char} (hc : c = 'e' ∨ c = 'E') :
    readBehind isNegative significand [] (c :: t) = readExponent isNegative significand 0 t := by
  rcases hc with rfl | rfl <;> rfl

theorem readBehind_of_ne (hpoint : t.head? ≠ some '.') (he : t.head? ≠ some 'e')
    (hE : t.head? ≠ some 'E') :
    readBehind isNegative significand [] t =
      (ofWhole isNegative significand).map fun n => (n, t) := by
  unfold readBehind
  split
  · exact absurd rfl hpoint
  · exact absurd rfl he
  · exact absurd rfl hE
  · exact pair_bind _ _
  next h _ => cases h

theorem readBehind_of_extra {extra : List Nat} (hextra : extra ≠ [])
    (hpoint : t.head? ≠ some '.') :
    readBehind isNegative significand extra t =
      readTail isNegative significand extra.length t := by
  unfold readBehind
  split
  · exact absurd rfl hpoint
  · exact absurd rfl hextra
  · exact absurd rfl hextra
  · exact absurd rfl hextra
  · rfl

theorem takes_readBehind {extra : List Nat}
    (h : readBehind isNegative significand extra t = .ok (n, rest)) :
    Takes (readBehind isNegative significand extra) t n rest := by
  by_cases hpoint : t.head? = some '.'
  · obtain ⟨t, rfl⟩ := List.head?_eq_some_iff.1 hpoint
    rw [readBehind_of_point] at h
    exact (takes_readFraction h).cons fun t => readBehind_of_point extra
  · by_cases hextra : extra = []
    · subst hextra
      by_cases hexp : ∃ c, t.head? = some c ∧ (c = 'e' ∨ c = 'E')
      · rcases hexp with ⟨c, hhead, hc⟩
        obtain ⟨t, rfl⟩ := List.head?_eq_some_iff.1 hhead
        rw [readBehind_of_exponent hc] at h
        exact (takes_readExponent h).cons fun t => readBehind_of_exponent hc
      · have he : t.head? ≠ some 'e' := fun h => hexp ⟨_, h, .inl rfl⟩
        have hE : t.head? ≠ some 'E' := fun h => hexp ⟨_, h, .inr rfl⟩
        rw [readBehind_of_ne hpoint he hE, map_pair_eq_ok_iff] at h
        obtain ⟨hvalue, rfl⟩ := h
        refine ⟨[], rfl, fun more hmore => ?_⟩
        rw [List.nil_append, readBehind_of_ne (head?_ne_of_follows hmore (by decide) hpoint)
          (head?_ne_of_follows hmore (by decide) he) (head?_ne_of_follows hmore (by decide) hE),
          hvalue]
        rfl
    · rw [readBehind_of_extra hextra hpoint] at h
      rcases takes_readTail h with ⟨raw, rfl, htakes⟩
      refine ⟨raw, rfl, fun more hmore => ?_⟩
      rw [readBehind_of_extra hextra
        (head?_ne_of_follows (hmore.append raw) (by decide) hpoint), htakes more hmore]

theorem readUnsigned_of_digits (h : splitDigits t = (ds, rest)) (hds : ds ≠ [])
    (hzero : ∀ d ds', ds ≠ 0 :: d :: ds') :
    readUnsigned isNegative t =
      readBehind isNegative (absorb 0 ds).1 (absorb 0 ds).2 rest := by
  unfold readUnsigned
  rw [h]
  split
  next heq => exact absurd (congrArg Prod.fst heq) hds
  next heq => exact absurd (congrArg Prod.fst heq) hds
  next heq => exact absurd (congrArg Prod.fst heq) (hzero _ _)
  next heq _ _ =>
    obtain ⟨rfl, rfl⟩ := Prod.mk.inj heq
    rfl

theorem readUnsigned_of_no_digits (h : splitDigits t = (ds, rest))
    (hds : ds = [] ∨ ∃ d ds', ds = 0 :: d :: ds') : ∃ f, readUnsigned isNegative t = .error f := by
  unfold readUnsigned
  rw [h]
  rcases hds with rfl | ⟨d, ds', rfl⟩
  · cases t <;> exact ⟨_, rfl⟩
  · exact ⟨_, rfl⟩

theorem takes_readUnsigned (h : readUnsigned isNegative t = .ok (n, rest)) :
    Takes (readUnsigned isNegative) t n rest := by
  rcases hsplit : splitDigits t with ⟨ds, r⟩
  by_cases hds : ds = [] ∨ ∃ d ds', ds = 0 :: d :: ds'
  · rcases readUnsigned_of_no_digits hsplit hds with ⟨f, hf⟩
    rw [hf] at h
    cases h
  · have hnil : ds ≠ [] := fun h => hds (.inl h)
    have hzero : ∀ d ds', ds ≠ 0 :: d :: ds' := fun d ds' h => hds (.inr ⟨d, ds', h⟩)
    rw [readUnsigned_of_digits hsplit hnil hzero] at h
    rcases takes_digits hsplit with ⟨digits, rfl, -, hdigits⟩
    rcases takes_readBehind h with ⟨raw, rfl, htakes⟩
    refine ⟨digits ++ raw, by simp, fun more hmore => ?_⟩
    rw [List.append_assoc, readUnsigned_of_digits (hdigits _ (hmore.append raw)) hnil hzero,
      htakes more hmore]

theorem read_of_minus (t : Text) : Number.read ('-' :: t) = readUnsigned true t := rfl

theorem read_of_ne (h : t.head? ≠ some '-') : Number.read t = readUnsigned false t := by
  unfold Number.read
  split
  · exact absurd rfl h
  · rfl

theorem takes_read (h : Number.read t = .ok (n, rest)) : Takes Number.read t n rest := by
  by_cases hminus : t.head? = some '-'
  · obtain ⟨t, rfl⟩ := List.head?_eq_some_iff.1 hminus
    rw [read_of_minus] at h
    exact (takes_readUnsigned h).cons read_of_minus
  · rw [read_of_ne hminus] at h
    rcases takes_readUnsigned h with ⟨raw, rfl, htakes⟩
    -- Nothing is no number, so that something is taken.
    have hraw : raw ≠ [] := by
      rintro rfl
      have hnothing := htakes [] (follows_nil rest)
      cases hnothing
    refine ⟨raw, rfl, fun more hmore => ?_⟩
    obtain ⟨c, raw, rfl⟩ := List.exists_cons_of_ne_nil hraw
    have hminus' : (c :: raw ++ more).head? ≠ some '-' := hminus
    rw [read_of_ne hminus', htakes more hmore]

end Number

end Json

end ProcedureGen
