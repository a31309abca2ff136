import Mathlib.Data.List.Induction
import ProcedureGen.Proofs.Path
import ProcedureGen.Store.Access

/-!
# States of a file system

A store stands for the state of a file system: what matters of it is the entry at every location.

* `Store.WellFormed`: the states that a file system can be in;
* `Store.LinkFreeBelow`: the states without a link below a root;
* `Store.Agree`: two stores that are the same state;
* `Store.SameTree`: two states that differ in files alone.

No two locations share the content of one file.
-/

namespace ProcedureGen

namespace Entry

def isFile : Entry → Bool
  | .file _ => true
  | _ => false

def isLink : Entry → Bool
  | .link _ => true
  | _ => false

end Entry

namespace Store

variable {s t r : Store} {l k : Location} {e : Entry} {y : Text}

/-! ## Single entries -/

@[simp] theorem entry?_nil (s : Store) : s.entry? [] = some .directory := by
  simp only [if_true, entry?]

theorem entry?_erase (s : Store) (hl : l ≠ []) (k : Location) :
    Store.entry? (s.erase l) k = if k = l then none else s.entry? k := by
  by_cases hk : k = []
  · simp [hk, hl.symm]
  · by_cases hkl : k = l
    · subst hkl
      simp [erase, hk, entry?]
    -- What is looked for passes the filter anyway.
    · have hsame : (fun e : Location × Entry => decide (decide (e.1 ≠ l) = true ∧
          decide (e.1 = k) = true)) = fun e => decide (e.1 = k) := by
        funext e
        by_cases he : e.1 = k <;> simp [he, hkl]
      simp only [erase, entry?, hk, hkl, if_false, List.find?_filter]
      rw [hsame]

theorem entry?_insert (s : Store) (hl : l ≠ []) (e : Entry) (k : Location) :
    Store.entry? (s.insert l e) k = if k = l then some e else s.entry? k := by
  by_cases hk : k = []
  · simp [hk, hl.symm]
  · by_cases hkl : k = l
    · simp [insert, entry?, hkl, hl]
    · have hlk : l ≠ k := fun h => hkl h.symm
      have herase := s.entry?_erase hl k
      rw [if_neg hkl] at herase
      rw [if_neg hkl, ← herase]
      simp [insert, entry?, hk, hlk]

theorem entry?_ne_none (h : s.entry? l = some e) : s.entry? l ≠ none := by
  rw [h]
  exact Option.some_ne_none e

theorem mem_locations (h : s.entry? l ≠ none) (hl : l ≠ []) : l ∈ s.locations := by
  rcases Option.ne_none_iff_exists'.1 h with ⟨e, he⟩
  unfold entry? at he
  rw [if_neg hl, Option.map_eq_some_iff] at he
  rcases he with ⟨found, hfound, -⟩
  have hmem := List.mem_of_find?_eq_some hfound
  have heq : found.1 = l := by simpa using List.find?_some hfound
  exact List.mem_map.2 ⟨found, hmem, heq⟩

theorem entry?_ne_none_of_mem (h : l ∈ s.locations) : s.entry? l ≠ none := by
  rcases List.mem_map.1 h with ⟨found, hmem, rfl⟩
  unfold entry?
  split
  · simp
  · intro hnone
    rw [Option.map_eq_none_iff, List.find?_eq_none] at hnone
    exact hnone found hmem (by simp)

/-! ## States that a file system can be in -/

/-- Every entry stands in a directory, under a name that a directory can hold. -/
structure WellFormed (s : Store) : Prop where
  parent : ∀ {l : Location} {y : Text}, s.entry? (l ++ [y]) ≠ none → s.entry? l = some .directory
  name : ∀ {l : Location} {y : Text}, s.entry? (l ++ [y]) ≠ none →
    Path.FileName y ∧ Text.byteSize y ≤ maxNameSize

/-- Whether an entry may stand at a location. -/
def Allows (s : Store) (l : Location) : Prop :=
  ∀ y ∈ l.getLast?, s.entry? l.dropLast = some .directory ∧ Path.FileName y ∧
    Text.byteSize y ≤ maxNameSize

instance (s : Store) (l : Location) : Decidable (s.Allows l) := by
  unfold Allows
  infer_instance

theorem wellFormed_iff : s.WellFormed ↔ ∀ l ∈ s.locations, s.Allows l := by
  constructor
  · intro hs l hl y hy
    rcases List.getLast?_eq_some_iff.1 hy with ⟨k, rfl⟩
    have hentry := entry?_ne_none_of_mem hl
    simpa using ⟨hs.parent hentry, hs.name hentry⟩
  · intro h
    have hallowed : ∀ {l : Location} {y : Text}, s.entry? (l ++ [y]) ≠ none →
        s.entry? l = some .directory ∧ Path.FileName y ∧ Text.byteSize y ≤ maxNameSize := by
      intro l y hentry
      simpa using h (l ++ [y]) (mem_locations hentry (by simp)) y (by simp)
    exact ⟨fun hentry => (hallowed hentry).1, fun hentry => (hallowed hentry).2⟩

instance (s : Store) : Decidable s.WellFormed := decidable_of_iff _ wellFormed_iff.symm

theorem WellFormed.parent_append (hs : s.WellFormed) {names : List Text}
    (h : s.entry? (l ++ names) ≠ none) (hne : names ≠ []) : s.entry? l = some .directory := by
  induction names using List.reverseRecOn with
  | nil => exact absurd rfl hne
  | append_singleton names y ih =>
      rw [← List.append_assoc] at h
      have hparent := hs.parent h
      by_cases hnames : names = []
      · simpa [hnames] using hparent
      · exact ih (by simp [hparent]) hnames

/-- The names that lead from one entry to another are names of entries. -/
theorem WellFormed.names_append (hs : s.WellFormed) {names : List Text}
    (h : s.entry? (l ++ names) ≠ none) :
    ∀ y ∈ names, Path.FileName y ∧ Text.byteSize y ≤ maxNameSize := by
  induction names using List.reverseRecOn with
  | nil => simp
  | append_singleton names z ih =>
      rw [← List.append_assoc] at h
      intro y hy
      rcases List.mem_append.1 hy with hy | hy
      · exact ih (by simp [hs.parent h]) y hy
      · rw [List.mem_singleton.1 hy]
        exact hs.name h

/-! ## Links -/

/-- No link stands below what a path leads to. -/
def LinkFreeBelow (s : Store) (root : Path) : Prop :=
  ∀ R, s.locate true root = .ok R →
    ∀ names target, s.entry? (R ++ names) ≠ some (.link target)

theorem linkFreeBelow_iff {root : Path} {R : Location} (hroot : s.locate true root = .ok R) :
    s.LinkFreeBelow root ↔
      ∀ l ∈ s.locations, R <+: l → ∀ e ∈ s.entry? l, e.isLink = false := by
  constructor
  · rintro h l - ⟨names, rfl⟩ e he
    cases e with
    | link target => exact absurd he (h R hroot names target)
    | file bytes => rfl
    | directory => rfl
  · intro h R' hR' names target hlink
    have hR : R = R' := by
      rw [hroot] at hR'
      simpa using hR'
    subst hR
    by_cases hnil : R ++ names = []
    · rw [hnil, entry?_nil] at hlink
      cases hlink
    · have hmem := mem_locations (entry?_ne_none hlink) hnil
      exact absurd (h _ hmem (List.prefix_append R names) _ hlink) (by simp [Entry.isLink])

instance (s : Store) (root : Path) : Decidable (s.LinkFreeBelow root) :=
  match hroot : s.locate true root with
  | .ok _ => decidable_of_iff _ (linkFreeBelow_iff hroot).symm
  | .error _ => isTrue fun R hR => by
      rw [hroot] at hR
      cases hR

/-! ## Equal states -/

/-- Two stores with the same entry at every location. -/
def Agree (s t : Store) : Prop := ∀ l, s.entry? l = t.entry? l

theorem Agree.refl (s : Store) : Agree s s := fun _ => rfl

theorem Agree.symm (h : Agree s t) : Agree t s := fun l => (h l).symm

theorem Agree.trans (h : Agree s t) (h' : Agree t r) : Agree s r := fun l => (h l).trans (h' l)

/-! ## States that differ in files alone -/

/-- Two stores with the same directories and links. -/
def SameTree (s t : Store) : Prop :=
  ∀ l e (_ : e.isFile = false), s.entry? l = some e ↔ t.entry? l = some e

namespace SameTree

theorem refl (s : Store) : SameTree s s := fun _ _ _ => Iff.rfl

theorem symm (h : SameTree s t) : SameTree t s := fun l e he => (h l e he).symm

theorem trans (h : SameTree s t) (h' : SameTree t r) : SameTree s r :=
  fun l e he => (h l e he).trans (h' l e he)

theorem directory_iff (h : SameTree s t) :
    s.entry? l = some .directory ↔ t.entry? l = some .directory := h l .directory rfl

theorem link_iff (h : SameTree s t) {target : Path} :
    s.entry? l = some (.link target) ↔ t.entry? l = some (.link target) := h l (.link target) rfl

end SameTree

/-- Whether the entry at a location is a file or missing. -/
def HasRoomForFile (s : Store) (l : Location) : Prop := ∀ e ∈ s.entry? l, e.isFile = true

theorem not_hasRoomForFile_iff :
    ¬ s.HasRoomForFile l ↔
      s.entry? l = some .directory ∨ ∃ target, s.entry? l = some (.link target) := by
  unfold HasRoomForFile
  cases s.entry? l with
  | none => simp
  | some e => cases e <;> simp [Entry.isFile]

theorem HasRoomForFile.of_sameTree (hl : s.HasRoomForFile l) (h : SameTree s t) :
    t.HasRoomForFile l := by
  intro e he
  by_contra hfile
  exact hfile (hl e ((h l e (by simpa using hfile)).2 he))

theorem sameTree_of_eq_or {l : Location} (hl : s.HasRoomForFile l) (hl' : t.HasRoomForFile l)
    (h : ∀ k, k ≠ l → t.entry? k = s.entry? k) : SameTree s t := by
  intro k e he
  by_cases hk : k = l
  · subst hk
    constructor
    · intro hs
      simp [hl e hs] at he
    · intro ht
      simp [hl' e ht] at he
  · rw [h k hk]

theorem sameTree_insert_file (hl : s.HasRoomForFile l) (hne : l ≠ []) (bytes : List UInt8) :
    SameTree s (s.insert l (.file bytes)) := by
  apply sameTree_of_eq_or hl
  · intro e he
    rw [entry?_insert s hne, if_pos rfl] at he
    cases he
    rfl
  · intro k hk
    rw [entry?_insert s hne, if_neg hk]

theorem sameTree_erase (hl : s.HasRoomForFile l) (hne : l ≠ []) : SameTree s (s.erase l) := by
  apply sameTree_of_eq_or hl
  · intro e he
    rw [entry?_erase s hne, if_pos rfl] at he
    cases he
  · intro k hk
    rw [entry?_erase s hne, if_neg hk]

end Store
end ProcedureGen
