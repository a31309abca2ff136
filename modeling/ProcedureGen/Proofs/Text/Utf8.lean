import ProcedureGen.Text.Utf8

/-!
# The bytes of texts

A list of bytes is the form of one text or of none: reading it gives the text, and fails on bytes
that are no text.

* `Utf8.char?_eq_some_iff`: which character a code point stands for;
* `Utf8.decode?_append`: the form of one character is read in front of any bytes;
* `Utf8.decode?_eq_some_iff`: a text is read from its own bytes alone;
* `Utf8.suffix_encode_iff`: a text ends in another one if its bytes end in those of the other.
-/

namespace ProcedureGen
namespace Utf8

variable {least code : Nat} {a b : UInt8} {c : Char} {bytes rest xs ys : List UInt8} {t u : Text}

theorem char?_eq_some_iff : char? least code = some c ↔ least ≤ code ∧ c.toNat = code := by
  unfold char?
  by_cases h : least ≤ code ∧ code.isValidChar
  · rw [dif_pos h]
    constructor
    · intro heq
      obtain rfl := Option.some.inj heq
      exact ⟨h.1, rfl⟩
    · rintro ⟨-, rfl⟩
      rfl
  · rw [dif_neg h]
    simp only [reduceCtorEq, false_iff]
    rintro ⟨hleast, rfl⟩
    exact h ⟨hleast, c.valid⟩

theorem continuation?_eq_some_iff {n : Nat} :
    continuation? b = some n ↔ n < 0x40 ∧ b.toNat = n + 0x80 := by
  unfold continuation?
  split <;> simp only [Option.some.injEq, reduceCtorEq, false_iff] <;> omega

theorem toNat_lt (c : Char) : c.toNat < 0x110000 := by
  have hvalid := c.valid
  simp only [UInt32.isValidChar, Nat.isValidChar] at hvalid
  change c.val.toNat < _
  omega

/-- The form of a character, by how many bytes it takes. -/
theorem encodeChar_eq (c : Char) : String.utf8EncodeChar c =
    if c.toNat < 0x80 then [UInt8.ofNat c.toNat]
    else if c.toNat < 0x800 then
      [UInt8.ofNat (c.toNat / 0x40 + 0xC0), UInt8.ofNat (c.toNat % 0x40 + 0x80)]
    else if c.toNat < 0x10000 then
      [UInt8.ofNat (c.toNat / 0x1000 + 0xE0), UInt8.ofNat (c.toNat / 0x40 % 0x40 + 0x80),
        UInt8.ofNat (c.toNat % 0x40 + 0x80)]
    else
      [UInt8.ofNat (c.toNat / 0x40000 + 0xF0), UInt8.ofNat (c.toNat / 0x1000 % 0x40 + 0x80),
        UInt8.ofNat (c.toNat / 0x40 % 0x40 + 0x80), UInt8.ofNat (c.toNat % 0x40 + 0x80)] := by
  have hc := toNat_lt c
  unfold String.utf8EncodeChar
  change (if c.toNat ≤ 0x7F then _ else if c.toNat ≤ 0x7FF then _ else if c.toNat ≤ 0xFFFF then _
    else _) = _
  -- The first byte takes what is left of the number, so nothing of it is cut off.
  split
  next h =>
    rw [if_pos (by omega)]
    rfl
  split
  next h =>
    have hfirst : c.toNat / 64 % 0x20 = c.toNat / 0x40 := by omega
    rw [if_neg (by omega), if_pos (by omega), ← hfirst]
    rfl
  split
  next h =>
    have hfirst : c.toNat / 4096 % 0x10 = c.toNat / 0x1000 := by omega
    rw [if_neg (by omega), if_neg (by omega), if_pos (by omega), ← hfirst]
    rfl
  next h =>
    have hfirst : c.toNat / 262144 % 0x08 = c.toNat / 0x40000 := by omega
    rw [if_neg (by omega), if_neg (by omega), if_neg (by omega), ← hfirst]
    rfl

theorem ofNat_eq {n : Nat} (h : b.toNat = n) : UInt8.ofNat n = b := by
  rw [← h, UInt8.ofNat_toNat]

theorem toNat_ofNat {n : Nat} (h : n < 0x100) : (UInt8.ofNat n).toNat = n := by
  rw [UInt8.toNat_ofNat']
  omega

/-- The form of one character is read in front of any bytes. -/
theorem decode?_append (c : Char) (rest : List UInt8) :
    decode? (String.utf8EncodeChar c ++ rest) = (decode? rest).map (c :: ·) := by
  have hc := toNat_lt c
  have hchar : ∀ {least code : Nat}, least ≤ code → c.toNat = code → char? least code = some c :=
    fun hleast hcode => char?_eq_some_iff.2 ⟨hleast, hcode⟩
  have hmore : ∀ n : Nat, continuation? (UInt8.ofNat (n % 0x40 + 0x80)) = some (n % 0x40) :=
    fun n => continuation?_eq_some_iff.2 ⟨by omega, toNat_ofNat (by omega)⟩
  rw [encodeChar_eq]
  -- One byte to four: the first one tells how many, and the rest bring six bits each.
  split
  next h =>
    have ha := toNat_ofNat (n := c.toNat) (by omega)
    conv => lhs; rw [List.singleton_append, decode?.eq_def]
    dsimp only
    rw [if_pos (by omega), ha, hchar (by omega) rfl]
    cases decode? rest <;> rfl
  split
  next h =>
    have ha := toNat_ofNat (n := c.toNat / 0x40 + 0xC0) (by omega)
    conv => lhs; rw [List.cons_append, decode?.eq_def]
    dsimp only [List.singleton_append]
    rw [if_neg (by omega), if_neg (by omega), if_pos (by omega), hmore, ha]
    dsimp only [Option.bind_eq_bind, Option.bind_some]
    rw [hchar (by omega) (by omega)]
    cases decode? rest <;> rfl
  split
  next h =>
    have ha := toNat_ofNat (n := c.toNat / 0x1000 + 0xE0) (by omega)
    conv => lhs; rw [List.cons_append, decode?.eq_def]
    dsimp only [List.cons_append, List.nil_append]
    rw [if_neg (by omega), if_neg (by omega), if_neg (by omega), if_pos (by omega), hmore, hmore,
      ha]
    dsimp only [Option.bind_eq_bind, Option.bind_some]
    rw [hchar (by omega) (by omega)]
    cases decode? rest <;> rfl
  next h =>
    have ha := toNat_ofNat (n := c.toNat / 0x40000 + 0xF0) (by omega)
    conv => lhs; rw [List.cons_append, decode?.eq_def]
    dsimp only [List.cons_append, List.nil_append]
    rw [if_neg (by omega), if_neg (by omega), if_neg (by omega), if_neg (by omega), hmore, hmore,
      hmore, ha]
    dsimp only [Option.bind_eq_bind, Option.bind_some]
    rw [hchar (by omega) (by omega)]
    cases decode? rest <;> rfl

theorem encode_cons (c : Char) (t : Text) :
    encode (c :: t) = String.utf8EncodeChar c ++ encode t := List.flatMap_cons ..

theorem decode?_encode (t : Text) : decode? (encode t) = some t := by
  induction t with
  | nil => rfl
  | cons c t ih => rw [encode_cons, decode?_append, ih, Option.map_some]

/-- What is read has the bytes as its form: no character has two. -/
theorem eq_encode_of_decode? (h : decode? bytes = some t) : bytes = encode t := by
  fun_induction decode? bytes generalizing t with
  | case1 =>
      obtain rfl := Option.some.inj h
      rfl
  | case2 a rest h₁ ih =>
      simp only [Option.bind_eq_bind, Option.bind_eq_some_iff, Option.pure_def,
        Option.some.injEq] at h
      rcases h with ⟨c, hc, more, hmore, rfl⟩
      rcases char?_eq_some_iff.1 hc with ⟨-, hcode⟩
      rw [encode_cons, ← ih hmore, encodeChar_eq, if_pos (by omega), ofNat_eq (b := a) (by omega)]
      rfl
  | case5 a h₁ h₂ b rest h₃ ih =>
      simp only [Option.bind_eq_bind, Option.bind_eq_some_iff, Option.pure_def,
        Option.some.injEq] at h
      rcases h with ⟨i, hi, c, hc, more, hmore, rfl⟩
      rcases continuation?_eq_some_iff.1 hi with ⟨hi, hb⟩
      rcases char?_eq_some_iff.1 hc with ⟨hleast, hcode⟩
      rw [encode_cons, ← ih hmore, encodeChar_eq, if_neg (by omega), if_pos (by omega),
        ofNat_eq (b := a) (by omega), ofNat_eq (b := b) (by omega)]
      rfl
  | case7 a h₁ h₂ b h₃ d rest h₄ ih =>
      simp only [Option.bind_eq_bind, Option.bind_eq_some_iff, Option.pure_def,
        Option.some.injEq] at h
      rcases h with ⟨i, hi, j, hj, c, hc, more, hmore, rfl⟩
      rcases continuation?_eq_some_iff.1 hi with ⟨hi, hb⟩
      rcases continuation?_eq_some_iff.1 hj with ⟨hj, hd⟩
      rcases char?_eq_some_iff.1 hc with ⟨hleast, hcode⟩
      rw [encode_cons, ← ih hmore, encodeChar_eq, if_neg (by omega), if_neg (by omega),
        if_pos (by omega), ofNat_eq (b := a) (by omega), ofNat_eq (b := b) (by omega),
        ofNat_eq (b := d) (by omega)]
      rfl
  | case9 a h₁ h₂ b h₃ d h₄ e rest ih =>
      simp only [Option.bind_eq_bind, Option.bind_eq_some_iff, Option.pure_def,
        Option.some.injEq] at h
      rcases h with ⟨i, hi, j, hj, k, hk, c, hc, more, hmore, rfl⟩
      rcases continuation?_eq_some_iff.1 hi with ⟨hi, hb⟩
      rcases continuation?_eq_some_iff.1 hj with ⟨hj, hd⟩
      rcases continuation?_eq_some_iff.1 hk with ⟨hk, he⟩
      rcases char?_eq_some_iff.1 hc with ⟨hleast, hcode⟩
      rw [encode_cons, ← ih hmore, encodeChar_eq, if_neg (by omega), if_neg (by omega),
        if_neg (by omega), ofNat_eq (b := a) (by omega), ofNat_eq (b := b) (by omega),
        ofNat_eq (b := d) (by omega), ofNat_eq (b := e) (by omega)]
      rfl
  | _ => cases h

/-- A text is read from its own bytes and from no others. -/
theorem decode?_eq_some_iff : decode? bytes = some t ↔ bytes = encode t := by
  constructor
  · exact eq_encode_of_decode?
  · rintro rfl
    exact decode?_encode t

/-! ## Parts of a text and of its bytes -/

/-- Bytes that start like a character stand behind whole characters. -/
theorem exists_append_of_encode (h : encode t = xs ++ ys)
    (hfirst : ∀ b ∈ ys.head?, b.IsUTF8FirstByte) :
    ∃ start stop, t = start ++ stop ∧ encode start = xs ∧ encode stop = ys := by
  induction t generalizing xs with
  | nil =>
      rcases List.append_eq_nil_iff.1 h.symm with ⟨rfl, rfl⟩
      exact ⟨[], [], rfl, rfl, rfl⟩
  | cons c t ih =>
      rw [encode_cons, List.append_eq_append_iff] at h
      rcases h with ⟨more, rfl, hmore⟩ | ⟨tail, hchar, rfl⟩
      · rcases ih hmore with ⟨start, stop, rfl, rfl, rfl⟩
        exact ⟨c :: start, stop, rfl, encode_cons c start, rfl⟩
      -- The cut is before, behind or inside the first character.
      · cases tail with
        | nil =>
            rw [List.append_nil] at hchar
            exact ⟨[c], t, rfl, by simp [encode, hchar], rfl⟩
        | cons b tail =>
            have hlength : xs.length < (String.utf8EncodeChar c).length := by simp [hchar]
            have hb : (String.utf8EncodeChar c)[xs.length] = b := by simp [hchar]
            have hzero := UInt8.isUTF8FirstByte_getElem_utf8EncodeChar.1
              (hb.symm ▸ hfirst b rfl : (String.utf8EncodeChar c)[xs.length].IsUTF8FirstByte)
            obtain rfl := List.eq_nil_of_length_eq_zero hzero
            exact ⟨[], c :: t, rfl, rfl, by rw [encode_cons, hchar]; rfl⟩

theorem encode_append (t u : Text) : encode (t ++ u) = encode t ++ encode u := List.flatMap_append

theorem encode_injective (h : encode t = encode u) : t = u := by
  have hboth := congrArg decode? h
  rw [decode?_encode, decode?_encode] at hboth
  exact Option.some.inj hboth

/-- The form of a text starts like a character. -/
theorem head?_encode (t : Text) : ∀ b ∈ (encode t).head?, b.IsUTF8FirstByte := by
  cases t with
  | nil => simp [encode]
  | cons c t =>
      intro b hb
      have hlength := List.length_pos_iff.2 (String.utf8EncodeChar_ne_nil (c := c))
      rw [encode_cons, List.head?_append, List.head?_eq_getElem?,
        List.getElem?_eq_getElem hlength, Option.some_or] at hb
      obtain rfl := Option.some.inj hb
      exact UInt8.isUTF8FirstByte_getElem_utf8EncodeChar.2 rfl

/-- A text ends in another one if its bytes end in those of the other. -/
theorem suffix_encode_iff : encode u <:+ encode t ↔ u <:+ t := by
  constructor
  · rintro ⟨xs, h⟩
    rcases exists_append_of_encode h.symm (head?_encode u) with ⟨start, stop, rfl, -, hstop⟩
    rw [encode_injective hstop]
    exact List.suffix_append start u
  · rintro ⟨start, rfl⟩
    rw [encode_append]
    exact List.suffix_append _ _

end Utf8
end ProcedureGen
