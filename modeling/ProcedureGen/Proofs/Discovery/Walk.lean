import ProcedureGen.Proofs.Discovery.Order
import ProcedureGen.Proofs.Store.Run

/-!
# The walk below a root

The walk goes by paths and asks for one directory after the other.  Here it is followed on the
locations of a store.

* `Store.filesIn`: the files below a location down to a depth, by the names that lead to them;
* `Store.mem_filesIn`, `Store.pairwise_filesIn`: these are all of them, in ascending order;
* `Store.run_filesBelow`: the walk finds just these, and no fault.
-/

namespace ProcedureGen
namespace Store

open ProcedureGen.Path (FileName below join)

variable {s : Store} {n : Nat} {l R : Location} {root y : Text} {names : List Text}

/-! ## Names in a directory -/

theorem namesFrom?_eq_some_iff {k : Location} :
    namesFrom? l k = some names ↔ k = l ++ names := by
  induction l generalizing k with
  | nil => simp [namesFrom?]
  | cons a l ih =>
      cases k with
      | nil => simp [namesFrom?]
      | cons b k =>
          by_cases hab : a = b
          · simp [namesFrom?, hab, ih]
          · have hba : ¬ b = a := fun h => hab h.symm
            simp [namesFrom?, hab, hba]

theorem mem_namesIn : y ∈ s.namesIn l ↔ s.entry? (l ++ [y]) ≠ none := by
  unfold namesIn
  rw [List.mem_eraseDups, List.mem_filterMap]
  constructor
  · rintro ⟨names, hnames, hy⟩
    rcases List.mem_filterMap.1 hnames with ⟨k, hk, hfrom⟩
    have hone : names = [y] := by
      split at hy
      · simpa using hy
      · cases hy
    rw [hone, namesFrom?_eq_some_iff] at hfrom
    exact entry?_ne_none_of_mem (hfrom ▸ hk)
  · intro h
    have hmem := mem_locations h (by simp)
    exact ⟨[y], List.mem_filterMap.2 ⟨_, hmem, namesFrom?_eq_some_iff.2 rfl⟩, rfl⟩

/-! ## Files below a location -/

/-- The files below a location down to a depth, by the names that lead to them. -/
def filesIn (s : Store) : Nat → Location → List (List Text)
  | 0, _ => []
  | n + 1, l => (sorted (s.namesIn l)).flatMap fun y =>
    match s.entry? (l ++ [y]) with
    | some (.file _) => [[y]]
    | some .directory => (filesIn s n (l ++ [y])).map (y :: ·)
    | _ => []

def filesUnder (s : Store) (n : Nat) (l : Location) (y : Text) : List (List Text) :=
  match s.entry? (l ++ [y]) with
  | some (.file _) => [[y]]
  | some .directory => (s.filesIn n (l ++ [y])).map (y :: ·)
  | _ => []

theorem filesIn_succ (s : Store) (n : Nat) (l : Location) :
    s.filesIn (n + 1) l = (sorted (s.namesIn l)).flatMap (s.filesUnder n l) := rfl

theorem head?_of_mem_filesUnder (h : names ∈ s.filesUnder n l y) : ∃ rest, names = y :: rest := by
  unfold filesUnder at h
  split at h
  · exact ⟨[], by simpa using h⟩
  · rcases List.mem_map.1 h with ⟨rest, -, rfl⟩
    exact ⟨rest, rfl⟩
  · cases h

/-- All files down to the depth are found, and nothing else. -/
theorem mem_filesIn (hs : s.WellFormed) :
    names ∈ s.filesIn n l ↔
      names ≠ [] ∧ names.length ≤ n ∧ ∃ bytes, s.entry? (l ++ names) = some (.file bytes) := by
  induction n generalizing l names with
  | zero =>
      have hzero : names ≠ [] → ¬ names.length ≤ 0 := by simp
      constructor
      · intro h
        cases h
      · rintro ⟨hne, hlength, -⟩
        exact absurd hlength (hzero hne)
  | succ n ih =>
      rw [filesIn_succ, List.mem_flatMap]
      constructor
      · rintro ⟨y, -, hy⟩
        unfold filesUnder at hy
        split at hy
        next bytes hfile =>
          have hone : names = [y] := by simpa using hy
          exact ⟨by simp [hone], by simp [hone], bytes, by simpa [hone] using hfile⟩
        next =>
          rcases List.mem_map.1 hy with ⟨rest, hrest, rfl⟩
          rcases ih.1 hrest with ⟨-, hlength, bytes, hfile⟩
          exact ⟨by simp, by simpa using hlength, bytes, by simpa using hfile⟩
        next => cases hy
      · rintro ⟨hne, hlength, bytes, hfile⟩
        cases names with
        | nil => exact absurd rfl hne
        | cons y rest =>
            have hsplit : l ++ y :: rest = l ++ [y] ++ rest := by simp
            rw [hsplit] at hfile
            by_cases hrest : rest = []
            · have hy : s.entry? (l ++ [y]) = some (.file bytes) := by simpa [hrest] using hfile
              refine ⟨y, mem_sorted.2 (mem_namesIn.2 (by simp [hy])), ?_⟩
              simp [filesUnder, hy, hrest]
            -- Whatever has something below it is a directory, so the walk goes on there.
            · have hy : s.entry? (l ++ [y]) = some .directory :=
                hs.parent_append (entry?_ne_none hfile) hrest
              refine ⟨y, mem_sorted.2 (mem_namesIn.2 (by simp [hy])), ?_⟩
              have hmem : rest ∈ s.filesIn n (l ++ [y]) :=
                ih.2 ⟨hrest, by simpa using hlength, bytes, hfile⟩
              simpa [filesUnder, hy] using hmem

/-- Names are taken in ascending order at every level, so all files are in ascending order. -/
theorem pairwise_filesIn (s : Store) (n : Nat) (l : Location) :
    (s.filesIn n l).Pairwise (· < ·) := by
  induction n generalizing l with
  | zero => exact List.Pairwise.nil
  | succ n ih =>
      rw [filesIn_succ, List.pairwise_flatMap]
      constructor
      · intro y _
        unfold filesUnder
        split
        · simp
        · rw [List.pairwise_map]
          exact (ih (l ++ [y])).imp fun h => List.cons_lt_cons_iff.2 (.inr ⟨rfl, h⟩)
        · exact List.Pairwise.nil
      -- Below different names the first names decide.
      · refine (pairwise_sorted _).imp fun hyz names hnames others hothers => ?_
        rcases head?_of_mem_filesUnder hnames with ⟨rest, rfl⟩
        rcases head?_of_mem_filesUnder hothers with ⟨rest', rfl⟩
        exact List.cons_lt_cons_iff.2 (.inl hyz)

/-! ## The walk by paths -/

theorem names_below (hs : s.WellFormed) (hroot : s.locate true root = .ok R)
    (hdir : s.entry? (R ++ names) = some .directory) :
    s.names (below root names) = .ok (s.namesIn (R ++ names)) := by
  simp [Store.names, locate_below hs hroot hdir, hdir]

theorem ownKind_join (hs : s.WellFormed) (hroot : s.locate true root = .ok R)
    (hdir : s.entry? (R ++ names) = some .directory) {e : Entry}
    (he : s.entry? (R ++ names ++ [y]) = some e) :
    s.ownKind (join (below root names) y) = .ok e.kind := by
  have hname := hs.name (entry?_ne_none he)
  have hnames := hs.names_append (entry?_ne_none hdir)
  have hsteps := Path.steps_below (b := root) fun z hz => (hnames z hz).1
  have hnul : '\x00' ∉ below root names :=
    not_mem_below (by decide) (locate_eq_ok hroot).1 fun z hz => (hnames z hz).1.no_nul
  have hsize : ¬ maxNameSize < Text.byteSize y := by omega
  have hlocate : s.locate false (join (below root names) y) = .ok (R ++ names ++ [y]) := by
    rw [locate_join hs hroot hdir hsteps hnul hname.1 (by simp), leaf, if_neg hsize]
  simp only [Store.ownKind, hlocate, he]

theorem run_gather (visit : Path → StateM Store (Except AccessFault (List Path)))
    (at_ : Text → Path) (found : Text → List Path) (ys : List Text)
    (h : ∀ y ∈ ys, s.run (visit (at_ y)) = (.ok (found y), s)) :
    s.run (Discovery.gather visit (ys.map at_)) = (.ok (ys.flatMap found), s) := by
  induction ys with
  | nil => rfl
  | cons y ys ih =>
      have hy := h y (by simp)
      have hys := ih fun z hz => h z (List.mem_cons_of_mem y hz)
      simp [Discovery.gather, hy, hys]

/-- The walk meets no fault and finds the files below a directory, whatever way the root is
written. -/
theorem run_filesBelow (hs : s.WellFormed) (hroot : s.locate true root = .ok R)
    (hdir : s.entry? (R ++ names) = some .directory) :
    s.run (Discovery.filesBelow n (below root names)) =
      (.ok ((s.filesIn n (R ++ names)).map fun more => below root (names ++ more)), s) := by
  -- The induction is on the depth that is left, for whatever directory the walk has come to.
  induction n generalizing names with
  | zero => rfl
  | succ n ih =>
      have hvisit : ∀ y ∈ sorted (s.namesIn (R ++ names)),
          s.run (Discovery.filesOf (Discovery.filesBelow n) (join (below root names) y)) =
            (.ok ((s.filesUnder n (R ++ names) y).map fun more => below root (names ++ more)), s) := by
        intro y hy
        rcases Option.ne_none_iff_exists'.1 (mem_namesIn.1 (mem_sorted.1 hy)) with ⟨e, he⟩
        have hjoin : join (below root names) y = below root (names ++ [y]) := by simp [below]
        have hkind := ownKind_join hs hroot hdir he
        rw [hjoin] at hkind ⊢
        rw [List.append_assoc] at he
        cases e with
        | file bytes => simp [Discovery.filesOf, filesUnder, hkind, he, Entry.kind]
        | directory =>
            simp [Discovery.filesOf, filesUnder, hkind, he, Entry.kind, ih he, Function.comp_def]
        | link target => simp [Discovery.filesOf, filesUnder, hkind, he, Entry.kind]
      have hgather := run_gather _ _ _ _ hvisit
      rw [filesIn_succ, List.map_flatMap]
      simpa [Discovery.filesBelow, names_below hs hroot hdir] using hgather

end Store
end ProcedureGen
