import ProcedureGen.Json.Token
import ProcedureGen.Proofs.Json.Number

/-!
# What a token takes

A token depends on the characters that it takes alone, but for the end of a number.

* `Token.takes_readString`, `Token.takes_read`: a sound token takes the front of a text;
* `Token.readAll_cons`: the tokens of a text, one by one;
* `Token.readAll_append`, `Token.exists_append_of_readAll`: texts are put together and cut where
  their tokens are.
-/

namespace ProcedureGen

namespace Json

namespace Token

variable {t rest done s : Text} {c : Char} {tok : Token}

/-! ## Strings and literals -/

theorem readString_letter {d : Char} (hc : c ≠ 'u') (h : escaped? c = some d) :
    readString done ('\\' :: c :: t) = readString (d :: done) t := by
  rw [readString.eq_def]
  simp [hc, h]

theorem readString_plain (hquote : c ≠ '"') (hescape : c ≠ '\\') (hc : ¬ c.toNat < 0x20) :
    readString done (c :: t) = readString (c :: done) t := by
  rw [readString.eq_def]
  simp [hescape, hc]

theorem takes_readString (h : readString done t = .ok (s, rest)) :
    ∃ raw, t = raw ++ rest ∧ ∀ more, readString done (raw ++ more) = .ok (s, more) := by
  fun_induction readString done t with
  | case2 done t =>
      obtain ⟨rfl, rfl⟩ := Prod.mk.inj (Except.ok.inj h)
      exact ⟨['"'], rfl, fun more => rfl⟩
  -- An escape by a number, of one unit or of two.
  | case5 done a b c d t n hn htrailing hleading ih =>
      rcases ih h with ⟨raw, rfl, htakes⟩
      refine ⟨'\\' :: 'u' :: a :: b :: c :: d :: raw, rfl, fun more => ?_⟩
      simp only [List.cons_append, readString, hn, htrailing, hleading]
      exact htakes more
  | case7 done a b c d n hn htrailing hleading e f g k t m hm hsecond ih =>
      rcases ih h with ⟨raw, rfl, htakes⟩
      refine ⟨'\\' :: 'u' :: a :: b :: c :: d :: '\\' :: 'u' :: e :: f :: g :: k :: raw, rfl,
        fun more => ?_⟩
      simp only [List.cons_append, readString, hn, htrailing, hleading, hm, hsecond]
      exact htakes more
  | case15 done c t _ hc d hd ih =>
      rcases ih h with ⟨raw, rfl, htakes⟩
      refine ⟨'\\' :: c :: raw, rfl, fun more => ?_⟩
      rw [List.cons_append, List.cons_append, readString_letter hc hd, htakes more]
  | case18 done c t hquote _ _ hend hescape hc ih =>
      have hescape' : c ≠ '\\' := by
        rintro rfl
        cases t with
        | nil => exact hend rfl rfl
        | cons d t => exact hescape d t rfl rfl
      rcases ih h with ⟨raw, rfl, htakes⟩
      refine ⟨c :: raw, rfl, fun more => ?_⟩
      rw [List.cons_append, readString_plain hquote hescape' hc, htakes more]
  | case1 | case3 | case4 | case6 | case8 | case9 | case10 | case11 | case12 | case13 | case14
  | case16 | case17 => cases h

theorem takes_readLiteral {word : Text} (h : readLiteral word t = .ok rest) : t = word ++ rest := by
  fun_induction readLiteral word t with
  | case1 t => exact Except.ok.inj h
  | case2 => cases h
  | case3 p word t ih => rw [ih h, List.cons_append]
  | case4 => cases h

theorem readLiteral_append (word more : Text) : readLiteral word (word ++ more) = .ok more := by
  induction word with
  | nil => rfl
  | cons p word ih => simpa [readLiteral] using ih

/-! ## Tokens -/

/-- Whether a text can be read on behind a token. -/
def isSound : Token → Bool
  | .badString _ | .badScalar _ | .other => false
  | _ => true

theorem read_of_number (hc : c = '-' ∨ c.isDigit = true) {n : Number}
    (h : Number.read (c :: t) = .ok (n, rest)) : read c t = (.scalar (.number n), rest) := by
  unfold read
  split <;> simp_all

theorem takes_read (h : read c t = (tok, rest)) (hsound : tok.isSound = true) :
    ∃ raw, t = raw ++ rest ∧ ∀ more, Follows rest more → read c (raw ++ more) = (tok, more) := by
  unfold read at h
  dsimp only at h
  split at h
  case h_1 | h_2 | h_3 | h_4 | h_5 | h_6 =>
    obtain ⟨rfl, rfl⟩ := Prod.mk.inj h
    exact ⟨[], rfl, fun more _ => rfl⟩
  case h_7 =>
    split at h
    next s r hstring =>
      obtain ⟨rfl, rfl⟩ := Prod.mk.inj h
      rcases takes_readString hstring with ⟨raw, rfl, htakes⟩
      refine ⟨raw, rfl, fun more _ => ?_⟩
      simp only [read, htakes more]
    next =>
      obtain ⟨rfl, -⟩ := Prod.mk.inj h
      cases hsound
  case h_8 | h_9 | h_10 =>
    split at h
    next r hliteral =>
      obtain ⟨rfl, rfl⟩ := Prod.mk.inj h
      refine ⟨_, takes_readLiteral hliteral, fun more _ => ?_⟩
      simp only [read, readLiteral_append]
    next =>
      obtain ⟨rfl, -⟩ := Prod.mk.inj h
      cases hsound
  case h_11 =>
    split at h
    next hc =>
      split at h
      next n r hnumber =>
        obtain ⟨rfl, rfl⟩ := Prod.mk.inj h
        rcases Number.takes_read hnumber with ⟨raw, hraw, htakes⟩
        cases raw with
        | nil => cases htakes [] (follows_nil _)
        | cons d raw =>
            obtain ⟨rfl, rfl⟩ := List.cons.inj hraw
            exact ⟨raw, rfl, fun more hmore => read_of_number hc (htakes more hmore)⟩
      next =>
        obtain ⟨rfl, -⟩ := Prod.mk.inj h
        cases hsound
    next =>
      obtain ⟨rfl, -⟩ := Prod.mk.inj h
      cases hsound

theorem rest_of_not_isSound (h : read c t = (tok, rest)) (hsound : tok.isSound = false) :
    rest = [] := by
  unfold read at h
  dsimp only at h
  split at h
  case h_1 | h_2 | h_3 | h_4 | h_5 | h_6 =>
    obtain ⟨rfl, rfl⟩ := Prod.mk.inj h
    cases hsound
  case h_7 | h_8 | h_9 | h_10 =>
    split at h
    · obtain ⟨rfl, rfl⟩ := Prod.mk.inj h
      cases hsound
    · exact (Prod.mk.inj h).2.symm
  case h_11 =>
    split at h
    · split at h
      · obtain ⟨rfl, rfl⟩ := Prod.mk.inj h
        cases hsound
      · exact (Prod.mk.inj h).2.symm
    · exact (Prod.mk.inj h).2.symm

theorem read_suffix (c : Char) (t : Text) : (read c t).2 <:+ t := by
  rcases hread : read c t with ⟨tok, rest⟩
  cases hsound : tok.isSound with
  | true =>
      rcases takes_read hread hsound with ⟨raw, rfl, -⟩
      exact List.suffix_append raw rest
  | false =>
      obtain rfl := rest_of_not_isSound hread hsound
      exact List.nil_suffix

/-! ## Texts -/

theorem readUpTo_blank {n : Nat} (hc : isBlank c = true) :
    readUpTo (n + 1) (c :: t) = readUpTo n t := if_pos hc

theorem readUpTo_token {n : Nat} (hc : isBlank c = false) :
    readUpTo (n + 1) (c :: t) = (read c t).1 :: readUpTo n (read c t).2 := by
  simp [readUpTo, hc]

/-- Any number of characters that is not too small leads to the same tokens. -/
theorem readUpTo_congr {n m : Nat} (hn : t.length ≤ n) (hm : t.length ≤ m) :
    readUpTo n t = readUpTo m t := by
  induction n generalizing m t with
  | zero =>
      obtain rfl := List.length_eq_zero_iff.1 (Nat.le_zero.1 hn)
      cases m <;> rfl
  | succ n ih =>
      cases t with
      | nil => cases m <;> rfl
      | cons c t =>
          simp only [List.length_cons] at hn hm
          obtain ⟨m, rfl⟩ : ∃ k, m = k + 1 := ⟨m - 1, by omega⟩
          cases hc : isBlank c with
          | true =>
              rw [readUpTo_blank hc, readUpTo_blank hc]
              exact ih (by omega) (by omega)
          | false =>
              have hshorter := (read_suffix c t).length_le
              rw [readUpTo_token hc, readUpTo_token hc]
              congr 1
              exact ih (by omega) (by omega)

theorem readAll_blank (hc : isBlank c = true) : readAll (c :: t) = readAll t := readUpTo_blank hc

theorem readAll_cons (hc : isBlank c = false) :
    readAll (c :: t) = (read c t).1 :: readAll (read c t).2 := by
  unfold readAll
  rw [List.length_cons, readUpTo_token hc]
  congr 1
  exact readUpTo_congr (read_suffix c t).length_le le_rfl

theorem length_lt_cons_append (c : Char) (raw rest : Text) :
    rest.length < (c :: (raw ++ rest)).length := by
  rw [List.length_cons, List.length_append]
  omega

/-- A sound text that ends where another one begins. -/
theorem readAll_append {more : Text} (hsound : ∀ tok ∈ readAll t, tok.isSound = true)
    (hmore : Follows [] more) : readAll (t ++ more) = readAll t ++ readAll more := by
  induction hlength : t.length using Nat.strongRecOn generalizing t with
  | ind n ih =>
      subst hlength
      cases t with
      | nil => rfl
      | cons c t =>
          cases hc : isBlank c with
          | true =>
              rw [readAll_blank hc] at hsound
              rw [List.cons_append, readAll_blank hc, readAll_blank hc]
              exact ih _ (by simp) hsound rfl
          | false =>
              rw [readAll_cons hc] at hsound
              rcases hread : read c t with ⟨tok, rest⟩
              rw [hread] at hsound
              rcases takes_read hread (hsound tok (by simp)) with ⟨raw, rfl, htakes⟩
              -- What follows the token begins as before, or is all of what is put behind.
              have hfollows : Follows rest (rest ++ more) := by
                simpa using hmore.append rest
              have hread' : read c (raw ++ rest ++ more) = (tok, rest ++ more) := by
                rw [List.append_assoc]
                exact htakes _ hfollows
              rw [List.cons_append, readAll_cons hc, readAll_cons hc, hread, hread',
                List.cons_append]
              congr 1
              exact ih _ (length_lt_cons_append c raw rest)
                (fun tok' h => hsound tok' (List.mem_cons_of_mem tok h)) rfl

/-- A text is cut where its tokens are. -/
theorem exists_append_of_readAll {front back : List Token} (h : readAll t = front ++ back)
    (hsound : ∀ tok ∈ front, tok.isSound = true) :
    ∃ a b, t = a ++ b ∧ readAll a = front ∧ readAll b = back := by
  induction hlength : t.length using Nat.strongRecOn generalizing t front with
  | ind n ih =>
      subst hlength
      cases front with
      | nil => exact ⟨[], t, rfl, rfl, h⟩
      | cons tok front =>
          cases t with
          | nil => cases h
          | cons c t =>
              cases hc : isBlank c with
              | true =>
                  rw [readAll_blank hc] at h
                  rcases ih t.length (by simp) h hsound rfl with ⟨a, b, rfl, ha, hb⟩
                  exact ⟨c :: a, b, rfl, by rw [readAll_blank hc, ha], hb⟩
              | false =>
                  rcases hread : read c t with ⟨tok', rest⟩
                  rw [readAll_cons hc, hread, List.cons_append] at h
                  obtain ⟨rfl, hrest⟩ := List.cons.inj h
                  rcases takes_read hread (hsound tok' (by simp)) with ⟨raw, rfl, htakes⟩
                  rcases ih rest.length (length_lt_cons_append c raw rest) hrest
                    (fun tok h => hsound tok (List.mem_cons_of_mem _ h)) rfl with
                    ⟨a, b, rfl, ha, hb⟩
                  -- The last number of the front may end where the text is cut.
                  have hfollows : Follows (a ++ b) a := by
                    simpa using (follows_nil b).append a
                  refine ⟨c :: (raw ++ a), b, by simp, ?_, hb⟩
                  rw [readAll_cons hc, htakes a hfollows, ha]

/-- The tokens of a text stand in it together. -/
theorem exists_readAll_eq {ts : List Token} (h : ts <:+: readAll t)
    (hsound : ∀ tok ∈ readAll t, tok.isSound = true) : ∃ part, readAll part = ts := by
  rcases h with ⟨front, back, hall⟩
  rw [List.append_assoc] at hall
  rw [← hall] at hsound
  rcases exists_append_of_readAll hall.symm fun tok h => hsound tok (by simp [h]) with
    ⟨-, t', -, -, ht'⟩
  rcases exists_append_of_readAll ht' fun tok h => hsound tok (by simp [h]) with
    ⟨part, -, -, hpart, -⟩
  exact ⟨part, hpart⟩

end Token

end Json

end ProcedureGen
