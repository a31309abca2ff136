import ProcedureGen.Conversion
import ProcedureGen.Proofs.Discovery.Exact

/-!
# The places of a unit

A unit reads two files and writes two others, all of them in one directory.

* `Site`: the directory and the name of a unit, which tell its four places;
* `Site.writes_unique`: what one unit writes no other unit writes;
* `Site.not_writes_module`, `Site.not_writes_declaration`: and no unit reads it;
* `SourceUnit.StandsAt`: the paths of a unit lead to the places of a site;
* `Store.placed_discoveryIn`: the units that are discovered stand at different sites.
-/

namespace ProcedureGen

open ProcedureGen.Path (FileName below join trimEnd)

/-- The directory that holds the files of a unit, and what their names begin with. -/
structure Site where
  folder : Location
  name : Text
  deriving DecidableEq

namespace SourceUnit

/-- Behind the stem of a unit, where its statement is first written to. -/
def scratchEnd : Text := statementSuffix ++ scratchSuffix

def scratchPath (u : SourceUnit) : Path := u.statementPath.withSuffix scratchSuffix

def suffixes : List Text := [moduleSuffix, declarationSuffix, statementSuffix, scratchEnd]

theorem scratchPath_eq (u : SourceUnit) : u.scratchPath = u.stem.withSuffix scratchEnd := by
  simp [scratchPath, statementPath, Path.withSuffix, scratchEnd]

end SourceUnit

open SourceUnit

namespace Site

variable {σ τ : Site} {x y : Text} {l : Location}

def file (σ : Site) (x : Text) : Location := σ.folder ++ [σ.name ++ x]

def Writes (σ : Site) (l : Location) : Prop := l = σ.file statementSuffix ∨ l = σ.file scratchEnd

/-- Whether a unit can write at all: the longer one of its two names is not too long. -/
def Fits (σ : Site) : Prop := Text.byteSize (σ.name ++ scratchEnd) ≤ Store.maxNameSize

instance (σ : Site) : Decidable σ.Fits := by
  unfold Fits
  infer_instance

@[simp] theorem file_ne_nil (σ : Site) (x : Text) : σ.file x ≠ [] := by
  simp [file]

/-- Places whose suffixes end differently are different. -/
theorem file_ne {σ τ : Site} (h : x.getLast? ≠ y.getLast?) (hx : x ≠ []) (hy : y ≠ []) :
    σ.file x ≠ τ.file y := by
  -- One name may begin with the other, as with `a` and `a.sql`, but not end with it.
  intro heq
  have hname : σ.name ++ x = τ.name ++ y := by
    have := congrArg List.getLast? heq
    simpa [file] using this
  apply h
  rw [← List.getLast?_append_of_ne_nil σ.name hx, hname, List.getLast?_append_of_ne_nil τ.name hy]

theorem file_injective (h : σ.file x = τ.file x) : σ = τ := by
  have hparts := List.append_inj' h rfl
  have hname : σ.name ++ x = τ.name ++ x := by simpa using hparts.2
  cases σ
  cases τ
  simp_all

/-- No two units write at one place. -/
theorem writes_unique (hσ : σ.Writes l) (hτ : τ.Writes l) : σ = τ := by
  rcases hσ with rfl | rfl
  · rcases hτ with h | h
    · exact file_injective h
    · exact absurd h (file_ne (by decide) (by decide) (by decide))
  · rcases hτ with h | h
    · exact absurd h (file_ne (by decide) (by decide) (by decide))
    · exact file_injective h

/-- A unit writes no module, be it its own or that of another unit. -/
theorem not_writes_module : ¬ σ.Writes (τ.file moduleSuffix) := by
  rintro (h | h)
  · exact file_ne (by decide) (by decide) (by decide) h
  · exact file_ne (by decide) (by decide) (by decide) h

theorem not_writes_declaration : ¬ σ.Writes (τ.file declarationSuffix) := by
  rintro (h | h)
  · exact file_ne (by decide) (by decide) (by decide) h
  · exact file_ne (by decide) (by decide) (by decide) h

theorem statement_ne_scratch : σ.file statementSuffix ≠ τ.file scratchEnd :=
  file_ne (by decide) (by decide) (by decide)

theorem Fits.statement (h : σ.Fits) :
    Text.byteSize (σ.name ++ statementSuffix) ≤ Store.maxNameSize := by
  unfold Fits at h
  rw [Text.byteSize_append] at h ⊢
  have hsizes : Text.byteSize statementSuffix ≤ Text.byteSize scratchEnd := by decide
  omega

end Site

/-! ## Units at their sites -/

/-- The paths of a unit lead to the places of a site, where no link stands. -/
structure SourceUnit.StandsAt (s : Store) (u : SourceUnit) (σ : Site) : Prop where
  place : ∀ x ∈ suffixes, ∀ fl,
    s.locate fl (u.stem.withSuffix x) = Store.leaf σ.folder (σ.name ++ x)
  noLink : ∀ x ∈ suffixes, ∀ target, s.entry? (σ.file x) ≠ some (.link target)
  folder : s.entry? σ.folder = some .directory
  names : ∀ x ∈ suffixes, FileName (σ.name ++ x)
  /-- The module can be there. -/
  fits : Text.byteSize (σ.name ++ moduleSuffix) ≤ Store.maxNameSize

/-- The paths that a unit writes lead to the places of a site.  A link may stand where the statement
belongs, as it is not followed there. -/
structure SourceUnit.WritesAt (s : Store) (u : SourceUnit) (σ : Site) : Prop where
  scratch : ∀ fl, s.locate fl u.scratchPath = Store.leaf σ.folder (σ.name ++ scratchEnd)
  statement : s.locate false u.statementPath = Store.leaf σ.folder (σ.name ++ statementSuffix)
  noLink : ∀ target, s.entry? (σ.file scratchEnd) ≠ some (.link target)

theorem SourceUnit.StandsAt.writesAt {s : Store} {u : SourceUnit} {σ : Site}
    (hu : u.StandsAt s σ) : u.WritesAt s σ := by
  have hscratch : scratchEnd ∈ suffixes := by decide
  have hstatement : statementSuffix ∈ suffixes := by decide
  refine ⟨fun fl => ?_, hu.place statementSuffix hstatement false, hu.noLink scratchEnd hscratch⟩
  rw [scratchPath_eq]
  exact hu.place scratchEnd hscratch fl

namespace Store

variable {s t : Store} {c : Settings} {u : SourceUnit} {σ : Site} {R : Location} {names : List Text}

theorem standsAt_of_sameTree (h : SameTree s t) (hu : u.StandsAt s σ) : u.StandsAt t σ := by
  constructor
  · intro x hx fl
    rw [← hu.place x hx fl]
    apply locate_of_sameTree h
    rw [hu.place x hx fl]
    exact settled_leaf _ _
  · intro x hx target hlink
    exact hu.noLink x hx target (h.link_iff.2 hlink)
  · exact h.directory_iff.1 hu.folder
  · exact hu.names
  · exact hu.fits

theorem writesAt_of_sameTree (h : SameTree s t) (hu : u.WritesAt s σ) : u.WritesAt t σ := by
  constructor
  · intro fl
    rw [← hu.scratch fl]
    apply locate_of_sameTree h
    rw [hu.scratch fl]
    exact settled_leaf _ _
  · rw [← hu.statement]
    apply locate_of_sameTree h
    rw [hu.statement]
    exact settled_leaf _ _
  · intro target hlink
    exact hu.noLink target (h.link_iff.2 hlink)

theorem eq_of_locate {x : Text} {l : Location} {fl : Bool} (hu : u.StandsAt s σ)
    (hx : x ∈ suffixes) (h : s.locate fl (u.stem.withSuffix x) = .ok l) : l = σ.file x := by
  rw [hu.place x hx fl] at h
  exact eq_of_leaf h

theorem site_eq_of_stem {v : SourceUnit} {τ : Site} (hu : u.StandsAt s σ) (hv : v.StandsAt s τ)
    (h : u.stem = v.stem) : σ = τ := by
  have hmodule : moduleSuffix ∈ suffixes := by decide
  have hplace := hu.place moduleSuffix hmodule true
  rw [h, hv.place moduleSuffix hmodule true] at hplace
  unfold leaf at hplace
  rw [if_neg (Nat.not_lt.2 hu.fits), if_neg (Nat.not_lt.2 hv.fits)] at hplace
  exact Site.file_injective (Except.ok.inj hplace).symm

/-- The site of the module that some names lead to from a root. -/
def siteAt (R : Location) (names : List Text) : Site :=
  ⟨R ++ names.dropLast, (nameAt? names).getD []⟩

/-- The site of a unit, found by its module. -/
def siteOf (s : Store) (u : SourceUnit) : Site :=
  match s.locate true u.modulePath with
  | .ok l => ⟨l.dropLast, u.name⟩
  | .error _ => ⟨[], u.name⟩

theorem siteOf_ofNames (hs : s.WellFormed) (hroot : s.locate true c.root = .ok R)
    (h : s.IsModule c R names) : s.siteOf (ofNames c.root names) = siteAt R names := by
  have hne : names ≠ [] := List.length_pos_iff.1 h.depth.1
  rw [siteOf, (standsFor_ofNames hs hroot h).place]
  simp [siteAt, ofNames, List.dropLast_append_of_ne_nil hne]

theorem siteAt_append (R : Location) (folder : List Text) {name : Text} (hne : name ≠ []) :
    siteAt R (folder ++ [name ++ moduleSuffix]) = ⟨R ++ folder, name⟩ := by
  simp [siteAt, nameAt?_eq_some_iff.2 ⟨hne, folder, rfl⟩]

/-- The paths of the unit of a module lead to the files beside the module, unless through a link. -/
theorem locate_ofNames (hs : s.WellFormed) (hroot : s.locate true c.root = .ok R)
    (h : s.IsModule c R names) {x : Text} (hx : x ∈ suffixes) {fl : Bool}
    (hlink : fl = true → ∀ target, s.entry? ((siteAt R names).file x) ≠ some (.link target)) :
    s.locate fl ((ofNames c.root names).stem.withSuffix x) =
      leaf (siteAt R names).folder ((siteAt R names).name ++ x) := by
  rcases h.file with ⟨bytes, hfile⟩
  rcases h.suffix with ⟨name, hne, hlast⟩
  rcases List.getLast?_eq_some_iff.1 hlast with ⟨folder, rfl⟩
  rw [← List.append_assoc] at hfile
  rw [siteAt_append R folder hne] at hlink ⊢
  have hsuffixes : ∀ x ∈ suffixes, ('/' ∉ x ∧ '\x00' ∉ x) ∧ 2 < x.length := by decide
  rcases hsuffixes x hx with ⟨hx, hsize⟩
  rw [ofNames_append c.root folder hne]
  exact locate_stem hs hroot hne (entry?_ne_none hfile) hx hsize hlink

/-- A module stands in a directory, under a name that is not too long. -/
theorem siteAt_spec (hs : s.WellFormed) (h : s.IsModule c R names) :
    s.entry? (siteAt R names).folder = some .directory ∧
      (∀ x ∈ suffixes, FileName ((siteAt R names).name ++ x)) ∧
      Text.byteSize ((siteAt R names).name ++ moduleSuffix) ≤ maxNameSize := by
  rcases h.file with ⟨bytes, hfile⟩
  rcases h.suffix with ⟨name, hne, hlast⟩
  rcases List.getLast?_eq_some_iff.1 hlast with ⟨folder, rfl⟩
  rw [← List.append_assoc] at hfile
  rw [siteAt_append R folder hne]
  have hsuffixes : ∀ x ∈ suffixes, ('/' ∉ x ∧ '\x00' ∉ x) ∧ 2 < x.length := by decide
  have hentry := entry?_ne_none hfile
  have hmodule := hs.name hentry
  have hslash : '/' ∉ name := fun h => hmodule.1.no_slash (List.mem_append_left _ h)
  have hnul : '\x00' ∉ name := fun h => hmodule.1.no_nul (List.mem_append_left _ h)
  refine ⟨hs.parent hentry, fun x hx => ?_, hmodule.2⟩
  rcases hsuffixes x hx with ⟨hx, hsize⟩
  exact FileName.append ⟨hslash, hnul⟩ hx hsize

theorem standsAt_ofNames (hs : s.WellFormed) (hroot : s.locate true c.root = .ok R)
    (hlinks : s.LinkFreeBelow c.root) (h : s.IsModule c R names) :
    (ofNames c.root names).StandsAt s (siteAt R names) := by
  have hnone : ∀ x target, s.entry? ((siteAt R names).file x) ≠ some (.link target) := by
    intro x target
    rw [Site.file, siteAt, List.append_assoc]
    exact hlinks R hroot _ target
  rcases siteAt_spec hs h with ⟨hfolder, hnames, hfits⟩
  exact ⟨fun x hx fl => locate_ofNames hs hroot h hx fun _ => hnone x, fun x _ => hnone x, hfolder,
    hnames, hfits⟩

structure Placed (s : Store) (site : SourceUnit → Site) (us : List SourceUnit) : Prop where
  stands : ∀ u ∈ us, u.StandsAt s (site u)
  apart : us.Pairwise fun u v => site u ≠ site v

theorem Placed.of_sameTree {site : SourceUnit → Site} {us : List SourceUnit} (h : SameTree s t)
    (hus : s.Placed site us) : t.Placed site us :=
  ⟨fun u hu => standsAt_of_sameTree h (hus.stands u hu), hus.apart⟩

theorem Placed.perm {site : SourceUnit → Site} {us vs : List SourceUnit} (h : vs.Perm us)
    (hus : s.Placed site us) : s.Placed site vs :=
  ⟨fun u hu => hus.stands u (h.mem_iff.1 hu),
    (h.pairwise_iff fun hne => hne.symm).2 hus.apart⟩

theorem siteAt_injective {more : List Text} (hnames : s.IsModule c R names)
    (hmore : s.IsModule c R more) (h : siteAt R names = siteAt R more) : names = more := by
  rcases hnames.suffix with ⟨name, hne, hlast⟩
  rcases List.getLast?_eq_some_iff.1 hlast with ⟨folder, rfl⟩
  rcases hmore.suffix with ⟨name', hne', hlast'⟩
  rcases List.getLast?_eq_some_iff.1 hlast' with ⟨folder', rfl⟩
  simp only [siteAt, nameAt?_eq_some_iff.2 ⟨hne, folder, rfl⟩,
    nameAt?_eq_some_iff.2 ⟨hne', folder', rfl⟩] at h
  simp_all

/-- The units that are discovered have different sites. -/
theorem apart_discoveryIn (hs : s.WellFormed) (hroot : s.locate true c.root = .ok R) :
    (s.discoveryIn c R).units.Pairwise fun u v => s.siteOf u ≠ s.siteOf v := by
  have hsorted := (pairwise_filesIn s (max 1 c.maxDepth) R).filter (takes c)
  refine List.pairwise_map.2 (hsorted.imp_of_mem fun hnames hmore hlt => ?_)
  have hmodule := (mem_modulesIn (c := c) hs).1 hnames
  have hmodule' := (mem_modulesIn (c := c) hs).1 hmore
  rw [siteOf_ofNames hs hroot hmodule, siteOf_ofNames hs hroot hmodule']
  intro hsame
  rw [siteAt_injective hmodule hmodule' hsame] at hlt
  exact List.lt_irrefl _ hlt

/-- Where there are no links, they stand at these sites. -/
theorem placed_discoveryIn (hs : s.WellFormed) (hroot : s.locate true c.root = .ok R)
    (hlinks : s.LinkFreeBelow c.root) : s.Placed s.siteOf (s.discoveryIn c R).units := by
  refine ⟨fun u hu => ?_, apart_discoveryIn hs hroot⟩
  rcases List.mem_map.1 hu with ⟨names, hnames, rfl⟩
  have hmodule := (mem_modulesIn hs).1 hnames
  rw [siteOf_ofNames hs hroot hmodule]
  exact standsAt_ofNames hs hroot hlinks hmodule

end Store
end ProcedureGen
