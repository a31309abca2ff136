import ProcedureGen.Proofs.Discovery.Walk
import ProcedureGen.Proofs.Text

/-!
# Units of files

What discovery makes of the files that the walk finds.

* `SourceUnit.ofNames`: the unit of a module, by the names that lead to it;
* `Store.modulesIn`: the modules that some settings take;
* `Store.run_discover`: discovery gives the units of these modules;
* `Store.locate_stem`: the files of a unit stand beside its module.
-/

namespace ProcedureGen

open ProcedureGen.Path (FileName below join trimEnd)

namespace SourceUnit

variable {file name root : Text} {names folder : List Text}

theorem moduleName?_eq_some_iff :
    moduleName? file = some name ↔ name ≠ [] ∧ file = name ++ moduleSuffix := by
  unfold moduleName?
  constructor
  · intro h
    split at h
    · cases h
    · cases h
    next found hne hdrop =>
      have heq : found = name := by simpa using h
      subst heq
      exact ⟨hne, Text.dropSuffix?_eq_some_iff.1 hdrop⟩
  · rintro ⟨hne, hfile⟩
    rw [Text.dropSuffix?_eq_some_iff.2 hfile]
    cases name with
    | nil => exact absurd rfl hne
    | cons c name => rfl

/-- The name of the module that some names lead to. -/
def nameAt? (names : List Text) : Option Text := names.getLast?.bind moduleName?

/-- The unit of the module that some names lead to from a root. -/
def ofNames (root : Path) (names : List Text) : SourceUnit :=
  let name := (nameAt? names).getD []
  ⟨join (trimEnd (below root names.dropLast)) name, name, schemaOf names⟩

theorem nameAt?_eq_some_iff :
    nameAt? names = some name ↔
      name ≠ [] ∧ ∃ folder, names = folder ++ [name ++ moduleSuffix] := by
  unfold nameAt?
  rw [Option.bind_eq_some_iff]
  constructor
  · rintro ⟨file, hlast, hname⟩
    rcases List.getLast?_eq_some_iff.1 hlast with ⟨folder, rfl⟩
    rcases moduleName?_eq_some_iff.1 hname with ⟨hne, rfl⟩
    exact ⟨hne, folder, rfl⟩
  · rintro ⟨hne, folder, rfl⟩
    exact ⟨_, by simp, moduleName?_eq_some_iff.2 ⟨hne, rfl⟩⟩

theorem schemaOf_eq (h : ∀ y ∈ names, FileName y) :
    schemaOf names = if 2 ≤ names.length then names.head?.getD [] else [] := by
  match names, h with
  | [], _ => rfl
  | [y], _ => rfl
  | y :: z :: rest, h =>
      have hy := (h y (by simp)).isName
      simp [schemaOf, hy]

end SourceUnit

namespace Discovery

variable {root : Path} {names : List Text}

/-- What is found where some names lead to from a root. -/
def ofNames (root : Path) (filter : Filter) (names : List Text) : Discovery :=
  if (SourceUnit.nameAt? names).isSome then
    if filter.admits (relativePath names) then ⟨[.ofNames root names], []⟩
    else ⟨[], [relativePath names]⟩
  else ⟨[], []⟩

/-- No file below a root has escaped it, and its unit can be told from the names. -/
theorem ofFile_below (filter : Filter) (hroot : root ≠ []) (hne : names ≠ [])
    (h : ∀ y ∈ names, FileName y) :
    ofFile root filter (below root names) = .ok (ofNames root filter names) := by
  obtain ⟨folder, file, rfl⟩ : ∃ folder file, names = folder ++ [file] :=
    ⟨names.dropLast, names.getLast hne, (List.dropLast_append_getLast hne).symm⟩
  have hfile : FileName file := h file (by simp)
  have hfolder : below root folder ≠ [] :=
    Path.below_ne_nil hroot fun y hy => h y (List.mem_append_left _ hy)
  have hpath : below root (folder ++ [file]) = join (below root folder) file := by simp [below]
  have hname : Path.fileName? (below root (folder ++ [file])) = some file := by
    rw [hpath, Path.fileName?_join hfile hfolder]
  have hat : SourceUnit.nameAt? (folder ++ [file]) = SourceUnit.moduleName? file := by
    simp [SourceUnit.nameAt?]
  -- The prefix is always found, so that the path cannot have escaped.
  unfold ofFile ofNames
  rw [hname, Path.stripPrefix?_below hroot h, hat]
  cases hmodule : SourceUnit.moduleName? file with
  | none => simp [hmodule]
  | some name =>
      have hunit : SourceUnit.ofNames root (folder ++ [file]) =
          ⟨Path.withFileName (below root (folder ++ [file])) name, name,
            SourceUnit.schemaOf (folder ++ [file])⟩ := by
        rw [hpath, Path.withFileName_join hfile hfolder]
        simp [SourceUnit.ofNames, hat, hmodule]
      simp only [Option.bind_some, hmodule, Option.isSome_some, if_true, hunit]
      split <;> rfl

theorem ofFiles_below (filter : Filter) (hroot : root ≠ []) {files : List (List Text)}
    (h : ∀ names ∈ files, names ≠ [] ∧ ∀ y ∈ names, FileName y) :
    ofFiles root filter (files.map (below root)) =
      .ok ⟨(files.map (ofNames root filter)).flatMap units,
        (files.map (ofNames root filter)).flatMap excluded⟩ := by
  induction files with
  | nil => rfl
  | cons names files ih =>
      have hnames := h names (by simp)
      have hfiles := ih fun more hmore => h more (List.mem_cons_of_mem names hmore)
      have hone := ofFile_below filter hroot hnames.1 hnames.2
      simp only [List.map_cons, List.flatMap_cons, ofFiles, hone, hfiles]
      rfl

end Discovery

namespace Store

variable {s : Store} {c : Settings} {R : Location} {p : Path} {names : List Text}

/-! ## Discovery as a whole -/

/-- Whether some names lead to a module that settings take. -/
def takes (c : Settings) (names : List Text) : Bool :=
  (SourceUnit.nameAt? names).isSome && c.filter.admits (Discovery.relativePath names)

def leavesOut (c : Settings) (names : List Text) : Bool :=
  (SourceUnit.nameAt? names).isSome && !c.filter.admits (Discovery.relativePath names)

def candidates (s : Store) (c : Settings) (R : Location) : List (List Text) :=
  s.filesIn (max 1 c.maxDepth) R

/-- The modules that some settings take, in ascending order. -/
def modulesIn (s : Store) (c : Settings) (R : Location) : List (List Text) :=
  (s.candidates c R).filter (takes c)

theorem flatMap_if {α β : Type} (keep : α → Bool) (f : α → β) (l : List α) :
    l.flatMap (fun a => if keep a then [f a] else []) = (l.filter keep).map f := by
  induction l with
  | nil => rfl
  | cons a l ih => by_cases ha : keep a = true <;> simp [ha, ih]

/-- What is found in one file after another is what is found in each file. -/
theorem flatMap_ofNames {α : Type} {part : Discovery → List α} {keeps : List Text → Bool}
    {value : List Text → α} {c : Settings}
    (h : ∀ names, part (Discovery.ofNames c.root c.filter names) =
      if keeps names then [value names] else []) (files : List (List Text)) :
    (files.map (Discovery.ofNames c.root c.filter)).flatMap part =
      (files.filter keeps).map value := by
  rw [← flatMap_if, List.flatMap_map]
  exact congrArg (files.flatMap ·) (funext h)

theorem units_ofNames (c : Settings) (names : List Text) :
    (Discovery.ofNames c.root c.filter names).units =
      if takes c names then [SourceUnit.ofNames c.root names] else [] := by
  unfold Discovery.ofNames takes
  split <;> split <;> simp_all

theorem excluded_ofNames (c : Settings) (names : List Text) :
    (Discovery.ofNames c.root c.filter names).excluded =
      if leavesOut c names then [Discovery.relativePath names] else [] := by
  unfold Discovery.ofNames leavesOut
  split <;> split <;> simp_all

/-- What discovery finds in a store below a directory. -/
def discoveryIn (s : Store) (c : Settings) (R : Location) : Discovery :=
  ⟨(s.modulesIn c R).map (SourceUnit.ofNames c.root),
    ((s.candidates c R).filter (leavesOut c)).map Discovery.relativePath⟩

theorem kind?_eq_directory_iff :
    s.kind? p = some .directory ↔
      ∃ R, s.locate true p = .ok R ∧ s.entry? R = some .directory := by
  unfold kind?
  cases s.locate true p with
  | error fault => simp
  | ok R =>
      cases h : s.entry? R with
      | none => simp [h]
      | some e => cases e <;> simp [h]

theorem candidates_names (hs : s.WellFormed) (h : names ∈ s.candidates c R) :
    names ≠ [] ∧ ∀ y ∈ names, FileName y := by
  rcases (mem_filesIn hs).1 h with ⟨hne, -, bytes, hfile⟩
  have hnames := hs.names_append (entry?_ne_none hfile)
  exact ⟨hne, fun y hy => (hnames y hy).1⟩

/-- Below a directory discovery succeeds, and it changes nothing. -/
theorem run_discover (hs : s.WellFormed) (hroot : s.locate true c.root = .ok R)
    (hdir : s.entry? R = some .directory) :
    s.run (discover c) = (.ok (s.discoveryIn c R), s) := by
  have hkind : s.kind? c.root = some .directory := kind?_eq_directory_iff.2 ⟨R, hroot, hdir⟩
  have hhere : s.entry? (R ++ []) = some .directory := by simpa using hdir
  have hwalk : s.run (Discovery.filesBelow (max 1 c.maxDepth) c.root) =
      (.ok ((s.candidates c R).map (below c.root)), s) := by
    simpa [candidates] using run_filesBelow (n := max 1 c.maxDepth) hs hroot hhere
  have hfiles := Discovery.ofFiles_below c.filter (locate_eq_ok hroot).2.1
    fun names hnames => candidates_names (c := c) (R := R) hs hnames
  rw [flatMap_ofNames (units_ofNames c), flatMap_ofNames (excluded_ofNames c)] at hfiles
  simp [discover, hkind, hwalk, hfiles, discoveryIn, modulesIn]

theorem run_discover_of_not_directory (h : s.kind? c.root ≠ some .directory) :
    s.run (discover c) = (.error (.noDirectory c.root), s) := by
  simp [discover, h]

theorem exists_of_run_discover (hs : s.WellFormed) {d : Discovery}
    (h : (s.run (discover c)).1 = .ok d) :
    ∃ R, s.locate true c.root = .ok R ∧ s.entry? R = some .directory ∧ d = s.discoveryIn c R := by
  by_cases hkind : s.kind? c.root = some .directory
  · rcases kind?_eq_directory_iff.1 hkind with ⟨R, hroot, hdir⟩
    rw [run_discover hs hroot hdir] at h
    exact ⟨R, hroot, hdir, by simpa using h.symm⟩
  · rw [run_discover_of_not_directory hkind] at h
    cases h

/-! ## The files of a unit -/

theorem ofNames_append (root : Path) (folder : List Text) {name : Text} (hne : name ≠ []) :
    SourceUnit.ofNames root (folder ++ [name ++ SourceUnit.moduleSuffix]) =
      ⟨join (trimEnd (below root folder)) name, name,
        SourceUnit.schemaOf (folder ++ [name ++ SourceUnit.moduleSuffix])⟩ := by
  have hat := SourceUnit.nameAt?_eq_some_iff.2 ⟨hne, folder, rfl⟩
  simp [SourceUnit.ofNames, hat]

/-- What is put behind the stem of a unit names a file beside its module. -/
theorem locate_stem (hs : s.WellFormed) (hroot : s.locate true c.root = .ok R)
    {folder : List Text} {name : Text} (hne : name ≠ [])
    (hmodule : s.entry? (R ++ folder ++ [name ++ SourceUnit.moduleSuffix]) ≠ none)
    {x : Text} (hx : '/' ∉ x ∧ '\x00' ∉ x) (hsize : 2 < x.length) {fl : Bool}
    (hlink : fl = true → ∀ target, s.entry? (R ++ folder ++ [name ++ x]) ≠ some (.link target)) :
    s.locate fl (Path.withSuffix (join (trimEnd (below c.root folder)) name) x) =
      leaf (R ++ folder) (name ++ x) := by
  have hdir : s.entry? (R ++ folder) = some .directory := hs.parent hmodule
  have hfolder := hs.names_append (entry?_ne_none hdir)
  have hfile := (hs.name hmodule).1
  have hslash : '/' ∉ name := fun h => hfile.no_slash (List.mem_append_left _ h)
  have hnul : '\x00' ∉ name := fun h => hfile.no_nul (List.mem_append_left _ h)
  have hsteps : Path.steps (trimEnd (below c.root folder)) = Path.steps c.root ++ folder := by
    rw [Path.steps_trimEnd, Path.steps_below fun y hy => (hfolder y hy).1]
  -- The stem is written with a trimmed folder, which leads where the folder leads.
  have hnone : '\x00' ∉ trimEnd (below c.root folder) := by
    intro h
    exact not_mem_below (by decide) (locate_eq_ok hroot).1 (fun y hy => (hfolder y hy).1.no_nul)
      (Path.mem_trimEnd h)
  rw [Path.withSuffix, Path.join_append hslash hne]
  exact locate_join hs hroot hdir hsteps hnone (FileName.append ⟨hslash, hnul⟩ hx hsize) hlink

end Store
end ProcedureGen
