import Mathlib.Data.List.Basic
import ProcedureGen.Glob.Reading
import ProcedureGen.Proofs.Text.Utf8

/-!
# What globs match

The test of a pattern goes once through the bytes for each part of the pattern.  It answers whether
the bytes are a string of the pattern, and so a glob can be read as its pattern.

* `Pattern.getElem?_reach`: the positions that are reached are those behind a string of the pattern;
* `Pattern.accepts_iff`: the test accepts the strings of the pattern;
* `Pattern.exists_ofGlob_suffix`: a glob of any directories, any run and a plain text stands for the
  paths that end in the text.
-/

namespace ProcedureGen
namespace Glob

namespace Pattern

variable {p q : Pattern} {s : ByteClass} {bs cs ds : List UInt8} {marks : List Bool} {seen : Bool}
  {i j : Nat}

/-! ## Strings of a pattern -/

@[simp] theorem matches_empty_iff : Matches .empty bs ↔ bs = [] := by
  constructor
  · rintro ⟨⟩
    rfl
  · rintro rfl
    exact .empty

@[simp] theorem matches_byte_iff : Matches (.byte s) bs ↔ ∃ b, bs = [b] ∧ s.contains b = true := by
  constructor
  · intro h
    cases h with
    | @byte s b hb => exact ⟨b, rfl, hb⟩
  · rintro ⟨b, rfl, hb⟩
    exact .byte hb

@[simp] theorem matches_anything (bs : List UInt8) : Matches .anything bs := .anything bs

theorem matches_seq_iff :
    Matches (.seq p q) bs ↔ ∃ cs ds, bs = cs ++ ds ∧ p.Matches cs ∧ q.Matches ds := by
  constructor
  · intro h
    cases h with
    | seq hp hq => exact ⟨_, _, rfl, hp, hq⟩
  · rintro ⟨cs, ds, rfl, hp, hq⟩
    exact .seq hp hq

theorem matches_either_iff : Matches (.either p q) bs ↔ p.Matches bs ∨ q.Matches bs := by
  constructor
  · intro h
    cases h with
    | inl hp => exact .inl hp
    | inr hq => exact .inr hq
  · rintro (hp | hq)
    · exact .inl hp
    · exact .inr hq

/-! ## Positions -/

theorem getElem?_spread :
    (spread seen marks)[j]? = some true ↔
      j < marks.length ∧ (seen = true ∨ ∃ i ≤ j, marks[i]? = some true) := by
  induction marks generalizing seen j with
  | nil => simp [spread]
  | cons m marks ih =>
      cases j with
      | zero => simp [spread]
      | succ j =>
          have hmore : (∃ i ≤ j + 1, (m :: marks)[i]? = some true) ↔
              m = true ∨ ∃ i ≤ j, marks[i]? = some true := by
            constructor
            · rintro ⟨i, hi, hmark⟩
              cases i with
              | zero => exact .inl (by simpa using hmark)
              | succ i => exact .inr ⟨i, by omega, by simpa using hmark⟩
            · rintro (rfl | ⟨i, hi, hmark⟩)
              · exact ⟨0, by omega, rfl⟩
              · exact ⟨i + 1, by omega, by simpa using hmark⟩
          rw [spread, List.getElem?_cons_succ, ih, hmore, Bool.or_eq_true, or_assoc]
          simp

theorem getElem?_advance (h : marks.length = bs.length + 1) :
    (advance s bs marks)[i]? = some true ↔
      marks[i]? = some true ∧ ∃ b, bs[i]? = some b ∧ s.contains b = true := by
  induction bs generalizing marks i with
  | nil =>
      have hnil : advance s [] marks = [] := by cases marks <;> rfl
      simp [hnil]
  | cons b bs ih =>
      cases marks with
      | nil => simp at h
      | cons m marks =>
          cases i with
          | zero => simp [advance]
          | succ i => simpa [advance] using ih (by simpa using h)

theorem length_spread (seen : Bool) (marks : List Bool) :
    (spread seen marks).length = marks.length := by
  induction marks generalizing seen with
  | nil => rfl
  | cons m marks ih => simp [spread, ih]

theorem length_advance (s : ByteClass) (h : marks.length = bs.length + 1) :
    (advance s bs marks).length = bs.length := by
  induction bs generalizing marks with
  | nil => cases marks <;> rfl
  | cons b bs ih =>
      cases marks with
      | nil => simp at h
      | cons m marks => simp [advance, ih (by simpa using h)]

/-- There stays one mark for every position. -/
theorem length_reach (p : Pattern) (h : marks.length = bs.length + 1) :
    (reach p bs marks).length = bs.length + 1 := by
  induction p generalizing marks with
  | empty => exact h
  | byte s => simp [reach, length_advance s h]
  | anything => simp [reach, length_spread, h]
  | seq p q ihp ihq => exact ihq (ihp h)
  | either p q ihp ihq => simp [reach, ihp h, ihq h]

/-- Some string leads from one position of the bytes to another. -/
def Leads (bs : List UInt8) (i j : Nat) (cs : List UInt8) : Prop :=
  cs <+: bs.drop i ∧ j = i + cs.length

theorem leads_singleton_iff {b : UInt8} : Leads bs i j [b] ↔ bs[i]? = some b ∧ j = i + 1 := by
  rw [Leads, List.singleton_prefix_iff_head?_eq_some, List.head?_drop, List.length_singleton]

theorem leads_append_iff :
    (∃ k, Leads bs i k cs ∧ Leads bs k j ds) ↔ Leads bs i j (cs ++ ds) := by
  constructor
  · rintro ⟨k, ⟨hcs, rfl⟩, hds, rfl⟩
    rcases hcs with ⟨rest, hrest⟩
    refine ⟨?_, by simp [Nat.add_assoc]⟩
    rw [← List.drop_drop, ← hrest, List.drop_left] at hds
    rw [← hrest]
    exact (List.prefix_append_right_inj cs).2 hds
  · rintro ⟨⟨rest, hrest⟩, rfl⟩
    refine ⟨_, ⟨⟨ds ++ rest, by rw [← hrest, List.append_assoc]⟩, rfl⟩, ?_, by simp [Nat.add_assoc]⟩
    rw [← List.drop_drop, ← hrest, List.append_assoc, List.drop_left]
    exact List.prefix_append ds rest

/-- The positions that are reached are those to which a string of the pattern leads. -/
theorem getElem?_reach (p : Pattern) (h : marks.length = bs.length + 1) :
    (reach p bs marks)[j]? = some true ↔
      ∃ i cs, marks[i]? = some true ∧ Leads bs i j cs ∧ p.Matches cs := by
  -- The marks are general because a sequence goes on from those that its first part leaves.
  induction p generalizing marks j with
  | empty =>
      constructor
      · intro hmark
        exact ⟨j, [], hmark, ⟨List.nil_prefix, rfl⟩, .empty⟩
      · rintro ⟨i, cs, hmark, ⟨-, rfl⟩, hmatch⟩
        rw [matches_empty_iff.1 hmatch]
        exact hmark
  | byte s =>
      constructor
      · intro hmark
        cases j with
        | zero => simp [reach] at hmark
        | succ j =>
            rw [reach, List.getElem?_cons_succ, getElem?_advance h] at hmark
            rcases hmark with ⟨hmark, b, hb, hcontains⟩
            exact ⟨j, [b], hmark, leads_singleton_iff.2 ⟨hb, rfl⟩, .byte hcontains⟩
      · rintro ⟨i, cs, hmark, hcs, hmatch⟩
        rcases matches_byte_iff.1 hmatch with ⟨b, rfl, hcontains⟩
        rcases leads_singleton_iff.1 hcs with ⟨hb, rfl⟩
        rw [reach, List.getElem?_cons_succ, getElem?_advance h]
        exact ⟨hmark, b, hb, hcontains⟩
  | anything =>
      rw [reach, getElem?_spread]
      constructor
      · rintro ⟨hj, hnone | ⟨i, hi, hmark⟩⟩
        · cases hnone
        -- The bytes between the two positions lead from one to the other.
        · refine ⟨i, (bs.drop i).take (j - i), hmark, ⟨List.take_prefix _ _, ?_⟩, .anything _⟩
          rw [List.length_take, List.length_drop]
          omega
      · rintro ⟨i, cs, hmark, ⟨hcs, rfl⟩, -⟩
        have hi := (List.getElem?_eq_some_iff.1 hmark).1
        have hlength := hcs.length_le
        rw [List.length_drop] at hlength
        exact ⟨by omega, .inr ⟨i, by omega, hmark⟩⟩
  | seq p q ihp ihq =>
      rw [reach, ihq (length_reach p h)]
      constructor
      · rintro ⟨k, ds, hmark, hds, hq⟩
        rcases (ihp h).1 hmark with ⟨i, cs, hstart, hcs, hp⟩
        exact ⟨i, cs ++ ds, hstart, leads_append_iff.1 ⟨k, hcs, hds⟩, .seq hp hq⟩
      · rintro ⟨i, es, hstart, hes, hmatch⟩
        rcases matches_seq_iff.1 hmatch with ⟨cs, ds, rfl, hp, hq⟩
        rcases leads_append_iff.2 hes with ⟨k, hcs, hds⟩
        exact ⟨k, ds, (ihp h).2 ⟨i, cs, hstart, hcs, hp⟩, hds, hq⟩
  | either p q ihp ihq =>
      -- Both parts start from the same marks, and a position counts if one of them reaches it.
      have hboth : (reach (.either p q) bs marks)[j]? = some true ↔
          (reach p bs marks)[j]? = some true ∨ (reach q bs marks)[j]? = some true := by
        have hp : (reach p bs marks).length = bs.length + 1 := length_reach p h
        have hq : (reach q bs marks).length = bs.length + 1 := length_reach q h
        rw [reach, List.getElem?_zipWith]
        by_cases hj : j < bs.length + 1
        · rw [List.getElem?_eq_getElem (hp.symm ▸ hj), List.getElem?_eq_getElem (hq.symm ▸ hj)]
          simp
        · rw [List.getElem?_eq_none (by omega), List.getElem?_eq_none (by omega)]
          simp
      rw [hboth, ihp h, ihq h]
      simp only [matches_either_iff]
      grind

/-- The test accepts the strings of the pattern and no others. -/
theorem accepts_iff (p : Pattern) (bs : List UInt8) : p.accepts bs = true ↔ p.Matches bs := by
  have hlength : (reach p bs (true :: List.replicate bs.length false)).length = bs.length + 1 :=
    length_reach p (by simp)
  have hstart : ∀ i, (true :: List.replicate bs.length false)[i]? = some true ↔ i = 0 := by
    intro i
    cases i with
    | zero => simp
    | succ i => simp [List.getElem?_replicate]
  have hlast : p.accepts bs = true ↔
      (reach p bs (true :: List.replicate bs.length false))[bs.length]? = some true := by
    rw [accepts, List.getLast?_eq_getElem?, hlength, Nat.add_sub_cancel, Option.getD_eq_iff]
    simp
  rw [hlast, getElem?_reach p (by simp)]
  constructor
  · rintro ⟨i, cs, hi, ⟨hcs, hend⟩, hmatch⟩
    rw [(hstart i).1 hi] at hcs hend
    have hall : cs = bs := hcs.eq_of_length (by simpa using hend.symm)
    exact hall ▸ hmatch
  · intro hmatch
    exact ⟨0, bs, rfl, ⟨List.prefix_refl bs, by simp⟩, hmatch⟩

end Pattern

/-! ## Globs of plain characters -/

/-- A character that stands for itself wherever it is in a glob, outside a class. -/
def IsPlain (c : Char) : Prop := c ∉ ['\\', '[', '?', '*', '{', '}', ',']

instance (c : Char) : Decidable (IsPlain c) := by
  unfold IsPlain
  infer_instance

variable {t path : Text}

theorem Mark.read_plain (h : ∀ c ∈ t, IsPlain c) : Mark.read .outside t = t.map .plain := by
  induction t with
  | nil => rfl
  | cons c t ih =>
      have hc : IsPlain c := h c (by simp)
      have hrest := ih fun d hd => h d (List.mem_cons_of_mem c hd)
      unfold IsPlain at hc
      simp only [List.mem_cons, List.not_mem_nil, or_false, not_or] at hc
      -- None of the characters that mean something else leads into another branch.
      rw [Mark.read, hrest, List.map_cons]
      all_goals simp [hc]

namespace Reading

/-- Plain characters are pieces of their own. -/
theorem read_plain (r : Reading) (t : Text) :
    r.read (t.map .plain) = finish { r with pieces := (t.map .literal).reverse ++ r.pieces } := by
  induction t generalizing r with
  | nil => rfl
  | cons c t ih =>
      have hstep : r.read ((c :: t).map .plain) = (r.push (.literal c) c).read (t.map .plain) := rfl
      rw [hstep, ih]
      simp [push, finish]

theorem finish_eq {r : Reading} (hgroups : r.groups = []) (hpieces : r.pieces ≠ [.leading]) :
    r.finish = .ok (ofPieces r.pieces) := by
  unfold finish
  split
  next h => simp [hgroups] at h
  next h => exact absurd h hpieces
  next => rfl

end Reading

theorem ByteClass.contains_single_iff {a b : UInt8} :
    (ByteClass.single a).contains b = true ↔ b = a := by
  have hle : a ≤ b ∧ b ≤ a ↔ b = a := by grind
  simpa [ByteClass.contains, ByteClass.single] using hle

namespace Pattern

variable {p q : Pattern} {bs : List UInt8}

@[simp] theorem andThen_empty (p : Pattern) : andThen p .empty = p := by
  unfold andThen
  split
  next h => exact h.symm
  next => rfl

theorem matches_andThen_iff :
    (andThen p q).Matches bs ↔ ∃ cs ds, bs = cs ++ ds ∧ p.Matches cs ∧ q.Matches ds := by
  unfold andThen
  split
  next h => simp [h]
  next =>
    split
    next h => simp [h]
    next => exact matches_seq_iff

theorem matches_ofBytes_iff {xs : List UInt8} : (ofBytes xs).Matches bs ↔ bs = xs := by
  induction xs generalizing bs with
  | nil => exact matches_empty_iff
  | cons x xs ih =>
      have hcons : ofBytes (x :: xs) = andThen (.byte (.single x)) (ofBytes xs) := rfl
      rw [hcons, matches_andThen_iff]
      simp only [matches_byte_iff, ByteClass.contains_single_iff, ih]
      constructor
      · rintro ⟨cs, ds, rfl, ⟨b, rfl, rfl⟩, rfl⟩
        rfl
      · rintro rfl
        exact ⟨[x], xs, rfl, ⟨x, rfl, rfl⟩, rfl⟩

theorem ofPieces_cons (piece : Piece) (pieces : List Piece) :
    ofPieces (piece :: pieces) =
      pieces.foldl (fun p piece => andThen piece.pattern p) piece.pattern := by
  rw [ofPieces, List.foldl_cons, andThen_empty]

theorem matches_foldl_iff {pieces : List Piece} :
    (pieces.foldl (fun p piece => andThen piece.pattern p) q).Matches bs ↔
      ∃ cs ds, bs = cs ++ ds ∧ (ofPieces pieces).Matches cs ∧ q.Matches ds := by
  induction pieces generalizing q bs with
  | nil => simp [ofPieces]
  | cons piece pieces ih =>
      simp only [List.foldl_cons, ofPieces_cons, ih, matches_andThen_iff]
      constructor
      · rintro ⟨cs, es, rfl, hcs, ds, es, rfl, hds, hes⟩
        exact ⟨cs ++ ds, es, by simp, ⟨cs, ds, rfl, hcs, hds⟩, hes⟩
      · rintro ⟨ts, es, rfl, ⟨cs, ds, rfl, hcs, hds⟩, hes⟩
        exact ⟨cs, ds ++ es, by simp, hcs, ds, es, rfl, hds, hes⟩

/-- The strings of pieces are put together from strings of the pieces, the last piece first. -/
theorem matches_ofPieces_cons_iff {piece : Piece} {pieces : List Piece} :
    (ofPieces (piece :: pieces)).Matches bs ↔
      ∃ cs ds, bs = cs ++ ds ∧ (ofPieces pieces).Matches cs ∧ piece.pattern.Matches ds := by
  rw [ofPieces_cons]
  exact matches_foldl_iff

/-- The strings of plain characters behind other pieces end in the bytes of the characters. -/
theorem matches_literals_iff {t : Text} {pieces : List Piece} :
    (ofPieces ((t.map .literal).reverse ++ pieces)).Matches bs ↔
      ∃ cs, bs = cs ++ Utf8.encode t ∧ (ofPieces pieces).Matches cs := by
  induction t generalizing bs pieces with
  | nil => simp [Utf8.encode]
  | cons c t ih =>
      have hsplit : ((c :: t).map Piece.literal).reverse ++ pieces =
          (t.map .literal).reverse ++ (.literal c :: pieces) := by simp
      rw [hsplit, ih]
      simp only [matches_ofPieces_cons_iff, Piece.pattern, matches_ofBytes_iff, Utf8.encode_cons]
      constructor
      · rintro ⟨cs, rfl, ds, es, rfl, hds, rfl⟩
        exact ⟨ds, by simp, hds⟩
      · rintro ⟨ds, rfl, hds⟩
        exact ⟨_, by rw [List.append_assoc], ds, _, rfl, hds, rfl⟩

/-- A glob of any directories, any run and a plain text stands for the paths that end in the text,
whatever stands in front of it. -/
theorem exists_ofGlob_suffix {t : Text} (h : ∀ c ∈ t, IsPlain c) :
    ∃ p, Pattern.ofGlob ("**/*".toList ++ t) = .ok p ∧
      ∀ path, p.acceptsText path = true ↔ t <:+ path := by
  have hmarks : Mark.read .outside ("**/*".toList ++ t) =
      .star :: .star :: .plain '/' :: .star :: t.map .plain := by
    rw [← Mark.read_plain h]
    rfl
  have hstar : ∀ r : Reading, r.read (.star :: t.map .plain) =
      (r.push .anyRun '*').read (t.map .plain) := by
    intro r
    cases t <;> rfl
  have hread : Pattern.ofGlob ("**/*".toList ++ t) =
      .ok (ofPieces ((t.map .literal).reverse ++ [.anyRun, .leading])) := by
    have hstart : Reading.start.read (.star :: .star :: .plain '/' :: .star :: t.map .plain) =
        (Reading.start.push .leading '/').read (.star :: t.map .plain) := rfl
    rw [Pattern.ofGlob, hmarks, hstart, hstar, Reading.read_plain, Reading.finish_eq rfl]
    · rfl
    · intro heq
      have hlength := congrArg List.length heq
      simp [Reading.push, Reading.start] at hlength
  refine ⟨_, hread, fun path => ?_⟩
  have hbytes : path.flatMap String.utf8EncodeChar = Utf8.encode path := rfl
  rw [acceptsText, accepts_iff, hbytes, matches_literals_iff, ← Utf8.suffix_encode_iff]
  constructor
  · rintro ⟨cs, hpath, -⟩
    exact ⟨cs, hpath.symm⟩
  · rintro ⟨cs, hpath⟩
    -- No directory is needed in front of the run.
    refine ⟨cs, hpath.symm, matches_ofPieces_cons_iff.2 ⟨[], cs, rfl, ?_, .anything cs⟩⟩
    exact matches_ofPieces_cons_iff.2 ⟨[], [], rfl, .empty, .inl (.inl .empty)⟩

end Pattern
end Glob
end ProcedureGen
