import Mathlib.Data.Char
import Mathlib.Data.List.Lex
import Mathlib.Tactic.SplitIfs
import ProcedureGen.Discovery
import ProcedureGen.Text.Utf8

/-!
# The order of names

Names are compared character by character, which is the order of their bytes.

* `mem_sorted`, `pairwise_sorted`: a sorted list holds the same names, each once and in order;
* `Utf8.encode_lt_encode`: texts and their bytes are in the same order.
-/

namespace ProcedureGen

variable {a b : Text} {names : List Text}

/-! ## Sorted names -/

theorem mem_insertSorted : b ∈ insertSorted a names ↔ b = a ∨ b ∈ names := by
  induction names with
  | nil => simp [insertSorted]
  | cons c names ih =>
      unfold insertSorted
      split
      next hac => simp [hac]
      next =>
        split
        · simp
        · rw [List.mem_cons, ih, List.mem_cons]
          tauto

theorem mem_sorted : b ∈ sorted names ↔ b ∈ names := by
  induction names with
  | nil => simp [sorted]
  | cons c names ih =>
      have hcons : sorted (c :: names) = insertSorted c (sorted names) := rfl
      rw [hcons, mem_insertSorted, ih, List.mem_cons]

theorem lt_of_ne_of_not_lt (hne : a ≠ b) (h : ¬ a < b) : b < a := by
  rcases lt_trichotomy a b with hlt | heq | hgt
  · exact absurd hlt h
  · exact absurd heq hne
  · exact hgt

theorem pairwise_insertSorted (h : names.Pairwise (· < ·)) :
    (insertSorted a names).Pairwise (· < ·) := by
  induction names with
  | nil => simp [insertSorted]
  | cons c names ih =>
      have hc := (List.pairwise_cons.1 h).1
      have hnames := (List.pairwise_cons.1 h).2
      unfold insertSorted
      split
      · exact h
      next hac =>
        split
        next hlt =>
          refine List.pairwise_cons.2 ⟨fun d hd => ?_, h⟩
          rcases List.mem_cons.1 hd with rfl | hd
          · exact hlt
          · exact List.lt_trans hlt (hc d hd)
        next hlt =>
          refine List.pairwise_cons.2 ⟨fun d hd => ?_, ih hnames⟩
          rcases mem_insertSorted.1 hd with rfl | hd
          · exact lt_of_ne_of_not_lt hac hlt
          · exact hc d hd

theorem pairwise_sorted (names : List Text) : (sorted names).Pairwise (· < ·) := by
  induction names with
  | nil => exact List.Pairwise.nil
  | cons c names ih => exact pairwise_insertSorted ih

/-! ## Names as bytes -/

namespace Utf8

/-- Of two characters the lesser one has the lesser bytes, whatever follows. -/
theorem encodeChar_lt {c d : Char} (h : c < d) (x y : List UInt8) :
    String.utf8EncodeChar c ++ x < String.utf8EncodeChar d ++ y := by
  have hcd : c.val.toNat < d.val.toNat := h
  have hd : d.val.toNat < 0x110000 := by
    have := d.valid
    unfold UInt32.isValidChar Nat.isValidChar at this
    omega
  -- Both are one to four bytes: the longer one has the greater first byte, and of two with one
  -- length the first bytes that differ hold the digits that differ.
  unfold String.utf8EncodeChar
  generalize c.val.toNat = m at *
  generalize d.val.toNat = n at *
  have h₂ : ∀ k, k / 4096 = k / 64 / 64 := by omega
  have h₃ : ∀ k, k / 262144 = k / 64 / 64 / 64 := by omega
  dsimp only
  split_ifs <;>
    simp only [List.cons_append, List.nil_append, List.cons_lt_cons_iff, UInt8.lt_iff_toNat_lt,
      ← UInt8.toNat_inj, UInt8.toNat_ofNat', h₂, h₃] <;>
    omega

theorem append_lt_append_left (c : List UInt8) {x y : List UInt8} (h : x < y) :
    c ++ x < c ++ y := by
  induction c with
  | nil => exact h
  | cons b c ih => exact List.cons_lt_cons_iff.2 (.inr ⟨rfl, ih⟩)

/-- Texts and their bytes are in the same order. -/
theorem encode_lt_encode {a b : Text} (h : a < b) : encode a < encode b := by
  induction a generalizing b with
  | nil =>
      cases b with
      | nil => exact absurd h (by simp)
      | cons d b =>
          cases hbytes : encode (d :: b) with
          -- No character is without bytes.
          | nil => simp [encode, String.utf8EncodeChar_ne_nil] at hbytes
          | cons first rest => exact List.nil_lt_cons first rest
  | cons c a ih =>
      cases b with
      | nil => exact absurd h (by simp)
      | cons d b =>
          rcases List.cons_lt_cons_iff.1 h with hlt | ⟨rfl, hlt⟩
          · exact encodeChar_lt hlt (encode a) (encode b)
          · exact append_lt_append_left (String.utf8EncodeChar c) (ih hlt)

/-- Lists of texts and of their bytes are in the same order. -/
theorem map_encode_lt {x y : List Text} (h : x < y) : x.map encode < y.map encode := by
  induction x generalizing y with
  | nil =>
      cases y with
      | nil => exact absurd h (by simp)
      | cons b y => exact List.nil_lt_cons _ _
  | cons a x ih =>
      cases y with
      | nil => exact absurd h (by simp)
      | cons b y =>
          rcases List.cons_lt_cons_iff.1 h with hlt | ⟨rfl, hlt⟩
          · exact List.cons_lt_cons_iff.2 (.inl (encode_lt_encode hlt))
          · exact List.cons_lt_cons_iff.2 (.inr ⟨rfl, ih hlt⟩)

end Utf8
end ProcedureGen
