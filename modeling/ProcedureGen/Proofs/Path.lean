import Mathlib.Data.List.Basic
import Mathlib.Data.List.TakeWhile
import ProcedureGen.Path

/-!
# Paths below a root

What a path means is in its *steps*: the pieces between its slashes without empty ones and `.`.
This module says how the operations on paths act on steps and on components:

* `Path.steps_join`, `Path.steps_trimEnd`: a join adds a step, trimming changes none;
* `Path.stripPrefix?_below`: a path below a root gives back the names that were joined to the root;
* `Path.withFileName_join`: another name at the end of a join;
* `Path.folder`, `Path.ending`: a path cut behind its last slash.
-/

namespace ProcedureGen
namespace Path

/-- What can stand as a name in a directory, whatever its size. -/
structure FileName (y : Text) : Prop where
  ne_nil : y ≠ []
  no_slash : '/' ∉ y
  no_nul : '\x00' ∉ y
  ne_here : y ≠ here
  ne_above : y ≠ above

instance (y : Text) : Decidable (FileName y) :=
  decidable_of_iff (y ≠ [] ∧ '/' ∉ y ∧ '\x00' ∉ y ∧ y ≠ here ∧ y ≠ above)
    ⟨fun ⟨a, b, c, d, e⟩ => ⟨a, b, c, d, e⟩, fun ⟨a, b, c, d, e⟩ => ⟨a, b, c, d, e⟩⟩

/-- The pieces of a path that lead somewhere. -/
def steps (p : Path) : List Text := (pieces p).filter fun t => t ≠ [] ∧ t ≠ here

/-- The path of what some names lead to from a base. -/
def below (base : Path) (names : List Text) : Path := names.foldl join base

@[simp] theorem below_nil (base : Path) : below base [] = base := rfl

theorem below_append (base : Path) (names more : List Text) :
    below base (names ++ more) = below (below base names) more := by
  simp [below]

variable {b p x y : Text}

/-! ## Pieces -/

theorem pieces_ne_nil : ∀ p : Path, pieces p ≠ []
  | [] => by simp [pieces]
  | c :: rest => by
      unfold pieces
      split
      · simp
      · cases pieces rest <;> simp [Text.consRow]

theorem consRow_append {rows more : List Text} (c : Char) (h : rows ≠ []) :
    Text.consRow c (rows ++ more) = Text.consRow c rows ++ more := by
  cases rows with
  | nil => exact absurd rfl h
  | cons row rest => rfl

theorem pieces_append_slash (x y : Path) : pieces (x ++ '/' :: y) = pieces x ++ pieces y := by
  induction x with
  | nil => simp [pieces]
  | cons c x ih =>
      by_cases hc : c = '/'
      · simp [pieces, hc, ih]
      · simp [pieces, hc, ih, consRow_append c (pieces_ne_nil x)]

theorem pieces_of_no_slash (h : '/' ∉ y) : pieces y = [y] := by
  induction y with
  | nil => rfl
  | cons c y ih =>
      have hc : c ≠ '/' := by
        intro hc
        exact h (by simp [hc])
      have hy : '/' ∉ y := fun hy => h (List.mem_cons_of_mem c hy)
      simp [pieces, hc, ih hy, Text.consRow]

theorem ne_slash_of_mem_reverse (h : '/' ∉ y) : ∀ c ∈ y.reverse, decide (c ≠ '/') = true := by
  intro c hc
  simpa using ne_of_mem_of_not_mem (List.mem_reverse.1 hc) h

/-! ## Names -/

namespace FileName

theorem not_absolute (h : FileName y) : isAbsolute y = false := by
  cases y with
  | nil => rfl
  | cons c y =>
      have hc : c ≠ '/' := by
        intro hc
        exact h.no_slash (by simp [hc])
      simpa [isAbsolute] using hc

theorem pieces_eq (h : FileName y) : pieces y = [y] := pieces_of_no_slash h.no_slash

theorem getLast?_ne_slash (h : FileName y) : y.getLast? ≠ some '/' := by
  intro hy
  exact h.no_slash (List.mem_of_getLast? hy)

theorem isName (h : FileName y) : Path.isName y = true := by
  have htop : y ≠ top := by
    rintro rfl
    exact h.no_slash (by decide)
  simp [Path.isName, htop, h.ne_here, h.ne_above]

/-- A name with a suffix of more than two characters is a name. -/
theorem append (hy : '/' ∉ y ∧ '\x00' ∉ y) (hx : '/' ∉ x ∧ '\x00' ∉ x) (hsize : 2 < x.length) :
    FileName (y ++ x) := by
  -- It is too long for `.` and `..`.
  have hlength : 2 < (y ++ x).length := by simp; omega
  refine ⟨?_, by simp [hy.1, hx.1], by simp [hy.2, hx.2], ?_, ?_⟩
  · rintro h
    simp [h] at hlength
  · rintro h
    simp [h, here] at hlength
  · rintro h
    simp [h, above] at hlength

end FileName

/-! ## Joins -/

/-- A join puts one slash between its parts.  The base may bring it along. -/
theorem exists_join_eq (hy : FileName y) (hb : b ≠ []) :
    ∃ a, join b y = a ++ '/' :: y ∧ (b = a ∧ b.getLast? ≠ some '/' ∨ b = a ++ ['/']) := by
  by_cases hlast : b.getLast? = some '/'
  · rcases List.getLast?_eq_some_iff.1 hlast with ⟨a, rfl⟩
    exact ⟨a, by simp [join, hy.not_absolute], .inr rfl⟩
  · exact ⟨b, by simp [join, hy.not_absolute, hb, hlast], .inl ⟨rfl, hlast⟩⟩

theorem join_nil (hy : FileName y) : join [] y = y := by
  simp [join, hy.not_absolute]

theorem join_ne_nil (hy : FileName y) : join b y ≠ [] := by
  by_cases hb : b = []
  · simpa [hb, join_nil hy] using hy.ne_nil
  · rcases exists_join_eq hy hb with ⟨a, ha, -⟩
    simp [ha]

theorem getLast?_join (hy : FileName y) : (join b y).getLast? = y.getLast? := by
  by_cases hb : b = []
  · rw [hb, join_nil hy]
  · rcases exists_join_eq hy hb with ⟨a, ha, -⟩
    rw [ha, List.getLast?_append_cons]
    cases y with
    | nil => exact absurd rfl hy.ne_nil
    | cons c y => simp

theorem mem_join {c : Char} (h : c ∈ join b y) : c ∈ b ∨ c = '/' ∨ c ∈ y := by
  unfold join at h
  split at h
  · exact .inr (.inr h)
  · split at h <;> simp at h <;> tauto

theorem join_append (hy : '/' ∉ y) (hne : y ≠ []) : join b y ++ x = join b (y ++ x) := by
  have habs : isAbsolute (y ++ x) = isAbsolute y := by
    cases y with
    | nil => exact absurd rfl hne
    | cons c y => rfl
  unfold join
  rw [habs]
  split
  · rfl
  · split <;> simp

theorem filter_pieces_join (keep : Text → Bool) (hkeep : keep [] = false) (hy : FileName y) :
    (pieces (join b y)).filter keep = (pieces b).filter keep ++ [y].filter keep := by
  by_cases hb : b = []
  · simp [hb, join_nil hy, hy.pieces_eq, pieces, hkeep]
  · rcases exists_join_eq hy hb with ⟨a, ha, h | h⟩
    · rw [ha, pieces_append_slash, hy.pieces_eq, List.filter_append, h.1]
    · rw [ha, h, pieces_append_slash, pieces_append_slash, hy.pieces_eq]
      simp [pieces, hkeep]

/-! ## Steps -/

theorem steps_append_slash (x y : Path) : steps (x ++ '/' :: y) = steps x ++ steps y := by
  simp [steps, pieces_append_slash]

theorem steps_join (hy : FileName y) : steps (join b y) = steps b ++ [y] := by
  unfold steps
  rw [filter_pieces_join _ (by simp) hy]
  simp [hy.ne_nil, hy.ne_here]

theorem steps_below {names : List Text} (h : ∀ y ∈ names, FileName y) :
    steps (below b names) = steps b ++ names := by
  induction names generalizing b with
  | nil => simp [below]
  | cons y names ih =>
      have hy : FileName y := h y (by simp)
      have hrest : ∀ z ∈ names, FileName z := fun z hz => h z (List.mem_cons_of_mem y hz)
      calc
        steps (below b (y :: names)) = steps (join b y) ++ names := ih hrest
        _ = steps b ++ y :: names := by simp [steps_join hy]

/-- The parts of a path that are no `.` are its steps. -/
theorem filter_parts (p : Path) : (parts p).filter (· ≠ here) = steps p := by
  unfold parts steps
  rw [List.filter_append, List.filter_filter]
  split <;> simp [and_comm]

theorem parts_join (hy : FileName y) :
    ∃ way, parts (join b y) = way ++ [y] ∧ way.filter (· ≠ here) = steps b := by
  refine ⟨(pieces b).filter (· ≠ []), ?_, ?_⟩
  · unfold parts
    rw [filter_pieces_join _ (by simp) hy, getLast?_join hy, if_neg hy.getLast?_ne_slash]
    simp [hy.ne_nil]
  · simp [steps, List.filter_filter, and_comm]

/-! ## Trimmed paths -/

theorem steps_trimReversed (r : List Char) : steps (trimReversed r).reverse = steps r.reverse := by
  -- A slash at the end brings the empty piece, and `/.` brings `.`: neither is a step.
  fun_induction trimReversed r with
  | case1 => rfl
  | case2 rest _ ih =>
      have h := steps_append_slash rest.reverse []
      have hnil : steps [] = [] := rfl
      simp [ih, h, hnil]
  | case3 => rfl
  | case4 rest _ ih =>
      have h := steps_append_slash rest.reverse here
      have hhere : steps here = [] := rfl
      simp only [hhere, List.append_nil] at h
      simpa [here, ih] using h.symm
  | case5 => rfl

/-- Trimming a path changes no step. -/
theorem steps_trimEnd (p : Path) : steps (trimEnd p) = steps p := by
  simpa [trimEnd] using steps_trimReversed p.reverse

theorem mem_trimReversed {c : Char} (r : List Char) (h : c ∈ trimReversed r) : c ∈ r := by
  fun_induction trimReversed r with
  | case1 => exact h
  | case2 rest _ ih => exact List.mem_cons_of_mem _ (ih h)
  | case3 => exact List.mem_cons_of_mem _ h
  | case4 rest _ ih => exact List.mem_cons_of_mem _ (List.mem_cons_of_mem _ (ih h))
  | case5 => exact h

theorem mem_trimEnd {c : Char} (h : c ∈ trimEnd p) : c ∈ p := by
  have := mem_trimReversed p.reverse (by simpa [trimEnd] using h)
  simpa using this

/-- A name at the end is not trimmed. -/
theorem trimEnd_append_slash (hy : FileName y) (a : Path) :
    trimEnd (a ++ '/' :: y) = a ++ '/' :: y := by
  -- What is trimmed shows in the last two characters, and a name of one character is no `.`.
  have hreverse : (a ++ '/' :: y).reverse = y.reverse ++ '/' :: a.reverse := by simp
  have hkept : trimReversed (y.reverse ++ '/' :: a.reverse) = y.reverse ++ '/' :: a.reverse := by
    cases hr : y.reverse with
    | nil => exact absurd (List.reverse_eq_nil_iff.1 hr) hy.ne_nil
    | cons c r =>
        have hc : c ≠ '/' := by
          rintro rfl
          exact hy.no_slash (List.mem_reverse.1 (by simp [hr]))
        cases r with
        | nil =>
            have hdot : c ≠ '.' := by
              rintro rfl
              exact hy.ne_here (List.reverse_injective hr)
            simp [trimReversed, hc, hdot]
        | cons d r =>
            have hd : d ≠ '/' := by
              rintro rfl
              exact hy.no_slash (List.mem_reverse.1 (by simp [hr]))
            simp [trimReversed, hc, hd]
  rw [trimEnd, hreverse, hkept, ← hreverse, List.reverse_reverse]

theorem trimEnd_slash {a : Path} (ha : a ≠ []) : trimEnd (a ++ ['/']) = trimEnd a := by
  have hne : a.reverse ≠ [] := by simpa using ha
  have hcons : trimReversed ('/' :: a.reverse) = trimReversed a.reverse := by
    cases hr : a.reverse with
    | nil => exact absurd hr hne
    | cons c r => rfl
  simp [trimEnd, hcons]

/-! ## Components -/

theorem components_join (hy : FileName y) (hb : b ≠ []) :
    components (join b y) = components b ++ [y] := by
  have hway := filter_pieces_join (b := b) (fun t => t ≠ [] ∧ t ≠ here) (by simp) hy
  have hone : [y].filter (fun t => t ≠ [] ∧ t ≠ here) = [y] := by simp [hy.ne_nil, hy.ne_here]
  have habs : isAbsolute (join b y) = isAbsolute b := by
    cases b with
    | nil => exact absurd rfl hb
    | cons c b =>
        rcases exists_join_eq hy hb with ⟨a, ha, h | h⟩
        · rw [ha, ← h.1]
          rfl
        · rw [ha, h]
          cases a <;> rfl
  have hhead : (pieces (join b y)).head? = (pieces b).head? := by
    rcases exists_join_eq hy hb with ⟨a, ha, h | h⟩
    · rw [ha, pieces_append_slash, ← h.1, List.head?_append_of_ne_nil _ (pieces_ne_nil b)]
    · rw [ha, h, pieces_append_slash, pieces_append_slash,
        List.head?_append_of_ne_nil _ (pieces_ne_nil a),
        List.head?_append_of_ne_nil _ (pieces_ne_nil a)]
  -- What is put in front of the steps depends on the base alone.
  unfold components
  rw [habs, hhead]
  simp only [hway, hone]
  split
  · simp
  · split <;> simp

theorem below_ne_nil {names : List Text} (hb : b ≠ []) (h : ∀ y ∈ names, FileName y) :
    below b names ≠ [] := by
  induction names generalizing b with
  | nil => exact hb
  | cons y names ih =>
      exact ih (join_ne_nil (h y (by simp))) fun z hz => h z (List.mem_cons_of_mem y hz)

theorem components_below {names : List Text} (hb : b ≠ []) (h : ∀ y ∈ names, FileName y) :
    components (below b names) = components b ++ names := by
  induction names generalizing b with
  | nil => simp [below]
  | cons y names ih =>
      have hy : FileName y := h y (by simp)
      have hrest : ∀ z ∈ names, FileName z := fun z hz => h z (List.mem_cons_of_mem y hz)
      calc
        components (below b (y :: names)) = components (join b y) ++ names :=
          ih (join_ne_nil hy) hrest
        _ = components b ++ y :: names := by simp [components_join hy hb]

/-- Whatever way a root is written, a path below it has the root as a prefix. -/
theorem stripPrefix?_below {names : List Text} (hb : b ≠ []) (h : ∀ y ∈ names, FileName y) :
    stripPrefix? b (below b names) = some names := by
  simp [stripPrefix?, components_below hb h]

theorem fileName?_join (hy : FileName y) (hb : b ≠ []) : fileName? (join b y) = some y := by
  simp [fileName?, components_join hy hb, hy.isName]

/-! ## Another name at the end -/

theorem parent_join (hy : FileName y) (hb : b ≠ []) : parent (join b y) = trimEnd b := by
  rcases exists_join_eq hy hb with ⟨a, ha, h⟩
  -- The last slash of a join is the one before the name.
  have hdrop : (a ++ '/' :: y).reverse.dropWhile (· ≠ '/') = '/' :: a.reverse := by
    have hreverse : (a ++ '/' :: y).reverse = y.reverse ++ '/' :: a.reverse := by simp
    rw [hreverse, List.dropWhile_append_of_pos (ne_slash_of_mem_reverse hy.no_slash)]
    simp
  have hback : ('/' :: a.reverse).reverse = a ++ ['/'] := by simp
  unfold parent
  rw [ha, trimEnd_append_slash hy, hdrop, hback]
  rcases h with h | h
  · rw [← h.1, trimEnd_slash hb]
  · rw [h]

theorem withFileName_join (hy : FileName y) (hb : b ≠ []) (z : Text) :
    withFileName (join b y) z = join (trimEnd b) z := by
  simp [withFileName, fileName?_join hy hb, parent_join hy hb]

/-! ## The last slash -/

/-- What stands behind the last slash of a path. -/
def ending (p : Path) : Text := (p.reverse.takeWhile (· ≠ '/')).reverse

/-- A path through its last slash, or where one is if it has none. -/
def folder (p : Path) : Path :=
  if '/' ∈ p then (p.reverse.dropWhile (· ≠ '/')).reverse else here

theorem exists_last_slash (h : '/' ∈ p) : ∃ a y, p = a ++ '/' :: y ∧ '/' ∉ y := by
  rcases List.eq_append_cons_of_mem (List.mem_reverse.2 h) with ⟨y, a, hp, hy⟩
  refine ⟨a.reverse, y.reverse, ?_, by simpa using hy⟩
  rw [← List.reverse_reverse p, hp]
  simp

theorem ending_append_slash (a : Path) (hy : '/' ∉ y) : ending (a ++ '/' :: y) = y := by
  have hreverse : (a ++ '/' :: y).reverse = y.reverse ++ '/' :: a.reverse := by simp
  rw [ending, hreverse, List.takeWhile_append_of_pos (ne_slash_of_mem_reverse hy)]
  simp

theorem folder_append_slash (a : Path) (hy : '/' ∉ y) : folder (a ++ '/' :: y) = a ++ ['/'] := by
  have hreverse : (a ++ '/' :: y).reverse = y.reverse ++ '/' :: a.reverse := by simp
  rw [folder, if_pos (by simp), hreverse, List.dropWhile_append_of_pos (ne_slash_of_mem_reverse hy)]
  simp

theorem ending_of_no_slash (h : '/' ∉ p) : ending p = p := by
  rw [ending, List.takeWhile_eq_self_iff.2 (ne_slash_of_mem_reverse h), List.reverse_reverse]

theorem folder_of_no_slash (h : '/' ∉ p) : folder p = here := if_neg h

theorem ending_no_slash (p : Path) : '/' ∉ ending p := by
  by_cases h : '/' ∈ p
  · rcases exists_last_slash h with ⟨a, y, rfl, hy⟩
    rwa [ending_append_slash a hy]
  · rwa [ending_of_no_slash h]

theorem mem_of_mem_ending {c : Char} (h : c ∈ ending p) : c ∈ p := by
  have hmem := (List.takeWhile_sublist _).subset (List.mem_reverse.1 h)
  exact List.mem_reverse.1 hmem

/-- A suffix belongs to the ending. -/
theorem ending_append (hx : '/' ∉ x) : ending (p ++ x) = ending p ++ x := by
  by_cases h : '/' ∈ p
  · rcases exists_last_slash h with ⟨a, y, rfl, hy⟩
    rw [List.append_assoc, List.cons_append, ending_append_slash a (by simp [hx, hy]),
      ending_append_slash a hy]
  · rw [ending_of_no_slash h, ending_of_no_slash (by simp [hx, h])]

theorem folder_append (hx : '/' ∉ x) : folder (p ++ x) = folder p := by
  by_cases h : '/' ∈ p
  · rcases exists_last_slash h with ⟨a, y, rfl, hy⟩
    rw [List.append_assoc, List.cons_append, folder_append_slash a (by simp [hx, hy]),
      folder_append_slash a hy]
  · rw [folder_of_no_slash h, folder_of_no_slash (by simp [hx, h])]

theorem mem_folder_or_ending {c : Char} (h : c ∈ p) : c ∈ folder p ∨ c ∈ ending p := by
  by_cases hslash : '/' ∈ p
  · rcases exists_last_slash hslash with ⟨a, y, rfl, hy⟩
    rw [folder_append_slash a hy, ending_append_slash a hy]
    simp only [List.mem_append, List.mem_cons, List.not_mem_nil, or_false] at h ⊢
    tauto
  · rw [ending_of_no_slash hslash]
    exact .inr h

/-- The parts of a path are those that lead to its folder, but for some `.`, and its ending. -/
theorem parts_ending (hname : FileName (ending p)) :
    ∃ way, parts p = way ++ [ending p] ∧ way.filter (· ≠ here) = steps (folder p) := by
  by_cases hslash : '/' ∈ p
  · rcases exists_last_slash hslash with ⟨a, y, rfl, hy⟩
    rw [ending_append_slash a hy] at hname ⊢
    refine ⟨(pieces a).filter (· ≠ []), ?_, ?_⟩
    · have hlast : (a ++ '/' :: y).getLast? = y.getLast? := by
        rw [List.getLast?_append_cons, List.getLast?_cons, List.getLast?_eq_some_getLast hname.ne_nil]
        rfl
      rw [parts, hlast, if_neg hname.getLast?_ne_slash, pieces_append_slash, hname.pieces_eq]
      simp [hname.ne_nil]
    · rw [folder_append_slash a hy, steps_append_slash]
      simp [steps, pieces, List.filter_filter, and_comm]
  · rw [ending_of_no_slash hslash] at hname ⊢
    refine ⟨[], ?_, by rw [folder_of_no_slash hslash]; rfl⟩
    rw [parts, if_neg hname.getLast?_ne_slash, hname.pieces_eq]
    simp [hname.ne_nil]

end Path
end ProcedureGen
