import ProcedureGen.Proofs.Conversion.Links

/-!
# Where the paths of units lead

The stem of a unit is cut out of the path of its module, and the paths of its files are the stem
with a suffix behind it.  Whatever way the root is written, they lead back to the module and to the
places beside it, and what a unit writes is no place of another unit.

* `Store.Found`: a unit is made of a file that the walk finds;
* `Store.SamePlace`: two paths lead to one place;
* `Store.Apart`: what one unit writes is neither read nor first written to by another;
* `Store.discover_places`: the units that are discovered lead back to their files, and are apart.
-/

namespace ProcedureGen

open SourceUnit
open ProcedureGen.Path (below)

namespace Store

variable {s : Store} {c : Settings} {u v : SourceUnit} {R : Location} {names more : List Text}

/-! ## Files and their units -/

/-- A unit is made of a file that the walk below the root finds. -/
structure Found (s : Store) (c : Settings) (p : Path) (u : SourceUnit) : Prop where
  walked : ∃ files, s.run (Discovery.filesBelow (max 1 c.maxDepth) c.root) = (.ok files, s) ∧
    p ∈ files
  unit : Discovery.ofFile c.root c.filter p = .ok ⟨[u], []⟩

theorem found_ofNames (hs : s.WellFormed) (hroot : s.locate true c.root = .ok R)
    (hdir : s.entry? R = some .directory) (h : s.IsModule c R names) :
    s.Found c (below c.root names) (ofNames c.root names) := by
  have hmem : names ∈ s.modulesIn c R := (mem_modulesIn hs).2 h
  rcases List.mem_filter.1 hmem with ⟨hcandidate, htakes⟩
  rcases candidates_names hs hcandidate with ⟨hne, hnames⟩
  have hhere : s.entry? (R ++ []) = some .directory := by simpa using hdir
  have hwalk := run_filesBelow (n := max 1 c.maxDepth) hs hroot hhere
  refine ⟨⟨_, hwalk, List.mem_map.2 ⟨names, by simpa [candidates] using hcandidate, by simp⟩⟩, ?_⟩
  rw [takes, Bool.and_eq_true] at htakes
  rw [Discovery.ofFile_below c.filter (locate_eq_ok hroot).2.1 hne hnames, Discovery.ofNames,
    if_pos htakes.1, if_pos htakes.2]

/-- The path of a file below a root leads to the file, however the root is written. -/
theorem locate_below_file (hs : s.WellFormed) (hroot : s.locate true c.root = .ok R)
    {bytes : List UInt8} (hne : names ≠ []) (hfile : s.entry? (R ++ names) = some (.file bytes))
    (fl : Bool) : s.locate fl (below c.root names) = .ok (R ++ names) := by
  obtain ⟨folder, y, rfl⟩ : ∃ folder y, names = folder ++ [y] :=
    ⟨names.dropLast, names.getLast hne, (List.dropLast_append_getLast hne).symm⟩
  rw [← List.append_assoc] at hfile
  have hentry := entry?_ne_none hfile
  have hdir : s.entry? (R ++ folder) = some .directory := hs.parent hentry
  have hname := hs.name hentry
  have hfolder := hs.names_append (entry?_ne_none hdir)
  have hsteps := Path.steps_below (b := c.root) fun z hz => (hfolder z hz).1
  have hnul : '\x00' ∉ below c.root folder :=
    not_mem_below (by decide) (locate_eq_ok hroot).1 fun z hz => (hfolder z hz).1.no_nul
  have hnolink : ∀ target, s.entry? (R ++ folder ++ [y]) ≠ some (.link target) := by
    intro target
    rw [hfile]
    simp
  have hleaf := locate_join hs hroot hdir hsteps hnul hname.1 fun _ : fl = true => hnolink
  have hsize : ¬ maxNameSize < Text.byteSize y := Nat.not_lt.2 hname.2
  rw [leaf, if_neg hsize] at hleaf
  simpa [Path.below_append, below] using hleaf

/-- The module of a unit is the file that its names lead to. -/
theorem locate_modulePath (hs : s.WellFormed) (hroot : s.locate true c.root = .ok R)
    (h : s.IsModule c R names) (fl : Bool) :
    s.locate fl (ofNames c.root names).modulePath = .ok (R ++ names) := by
  rcases h.file with ⟨bytes, hfile⟩
  have hplace : (siteAt R names).file moduleSuffix = R ++ names := by
    rcases h.suffix with ⟨name, hne, hlast⟩
    rcases List.getLast?_eq_some_iff.1 hlast with ⟨folder, rfl⟩
    simp [siteAt_append R folder hne, Site.file]
  have hnolink : ∀ target, s.entry? ((siteAt R names).file moduleSuffix) ≠ some (.link target) := by
    intro target
    rw [hplace, hfile]
    simp
  have hsize := Nat.not_lt.2 (siteAt_spec hs h).2.2
  rw [modulePath, locate_ofNames hs hroot h (by decide) fun _ => hnolink, leaf, if_neg hsize,
    ← hplace]
  rfl

/-! ## Places -/

/-- Two paths lead to one place.  Links on the way are followed, one at the end stands for itself:
it is a place of its own. -/
def SamePlace (s : Store) (p q : Path) : Prop :=
  ∃ l, s.locate false p = .ok l ∧ s.locate false q = .ok l

/-- What a unit writes leads to no file that a unit reads, and what it writes first leads to no
statement. -/
structure Apart (s : Store) (u v : SourceUnit) : Prop where
  read : ∀ p ∈ [u.statementPath, u.scratchPath], ∀ q ∈ [v.modulePath, v.declarationPath],
    ¬ s.SamePlace p q
  scratch : ¬ s.SamePlace u.scratchPath v.statementPath

/-- The paths of two modules that lead to one place are those of files of one name. -/
theorem file_eq_of_samePlace (hs : s.WellFormed) (hroot : s.locate true c.root = .ok R)
    (hnames : s.IsModule c R names) (hmore : s.IsModule c R more) {x y : Text}
    (hx : x ∈ suffixes) (hy : y ∈ suffixes)
    (h : s.SamePlace ((ofNames c.root names).stem.withSuffix x)
      ((ofNames c.root more).stem.withSuffix y)) :
    (siteAt R names).file x = (siteAt R more).file y := by
  rcases h with ⟨l, hl, hl'⟩
  rw [locate_ofNames hs hroot hnames hx (by simp)] at hl
  rw [locate_ofNames hs hroot hmore hy (by simp)] at hl'
  rw [Site.file, Site.file, ← eq_of_leaf hl, ← eq_of_leaf hl']

theorem apart_ofNames (hs : s.WellFormed) (hroot : s.locate true c.root = .ok R)
    (hnames : s.IsModule c R names) (hmore : s.IsModule c R more) :
    s.Apart (ofNames c.root names) (ofNames c.root more) := by
  have hdiffer : ∀ x ∈ suffixes, ∀ y ∈ suffixes, x.getLast? ≠ y.getLast? →
      ¬ s.SamePlace ((ofNames c.root names).stem.withSuffix x)
        ((ofNames c.root more).stem.withSuffix y) := by
    intro x hx y hy hlast hsame
    have hnonempty : ∀ x ∈ suffixes, x ≠ [] := by decide
    exact Site.file_ne hlast (hnonempty x hx) (hnonempty y hy)
      (file_eq_of_samePlace hs hroot hnames hmore hx hy hsame)
  -- The four suffixes that meet here end in different letters.
  have hpairs : ∀ x ∈ [statementSuffix, scratchEnd], ∀ y ∈ [moduleSuffix, declarationSuffix],
      x ∈ suffixes ∧ y ∈ suffixes ∧ x.getLast? ≠ y.getLast? := by decide
  refine ⟨fun p hp q hq => ?_, ?_⟩
  · obtain ⟨x, hx, rfl⟩ : ∃ x ∈ [statementSuffix, scratchEnd],
        p = (ofNames c.root names).stem.withSuffix x := by
      simpa [scratchPath_eq, statementPath] using hp
    obtain ⟨y, hy, rfl⟩ : ∃ y ∈ [moduleSuffix, declarationSuffix],
        q = (ofNames c.root more).stem.withSuffix y := by
      simpa [modulePath, declarationPath] using hq
    rcases hpairs x hx y hy with ⟨hx, hy, hlast⟩
    exact hdiffer x hx y hy hlast
  · rw [scratchPath_eq]
    exact hdiffer scratchEnd (by decide) statementSuffix (by decide) (by decide)

/-- The paths of a unit lead to places beside one another.  Where no link stands at the end, this is
so if links at the end are followed as well. -/
structure Beside (s : Store) (u : SourceUnit) (folder : Location) : Prop where
  directory : s.entry? folder = some .directory
  place : ∀ x ∈ suffixes, s.locate false (u.stem.withSuffix x) = leaf folder (u.name ++ x)
  followed : ∀ x ∈ suffixes, s.ownKind (u.stem.withSuffix x) ≠ .ok .other →
    s.locate true (u.stem.withSuffix x) = leaf folder (u.name ++ x)

theorem beside_ofNames (hs : s.WellFormed) (hroot : s.locate true c.root = .ok R)
    (h : s.IsModule c R names) :
    s.Beside (ofNames c.root names) (siteAt R names).folder := by
  have hplace : ∀ x ∈ suffixes, s.locate false ((ofNames c.root names).stem.withSuffix x) =
      leaf (siteAt R names).folder ((ofNames c.root names).name ++ x) :=
    fun x hx => locate_ofNames hs hroot h hx (by simp)
  refine ⟨(siteAt_spec hs h).1, hplace, fun x hx hkind => ?_⟩
  rw [locate_followed (ownKind_ne_other_iff.1 hkind)]
  exact hplace x hx

/-! ## Discovery -/

/-- Whatever way the root is written, each unit that is discovered leads back to the file that it is
made of, and its four files stand beside one another.  Different units have their statements at
different places, and what one unit writes is no place that another one reads. -/
theorem discover_places (s : Store) (c : Settings) (hs : s.WellFormed) {d : Discovery}
    (hd : (s.run (discover c)).1 = .ok d) :
    (∀ u ∈ d.units, ∃ p l bytes, s.Found c p u ∧ s.entry? l = some (.file bytes) ∧
      (∀ fl, s.locate fl p = .ok l ∧ s.locate fl u.modulePath = .ok l) ∧
      s.Beside u l.dropLast) ∧
    (∀ u ∈ d.units, ∀ v ∈ d.units, u ≠ v → ¬ s.SamePlace u.statementPath v.statementPath) ∧
    ∀ u ∈ d.units, ∀ v ∈ d.units, s.Apart u v := by
  rcases exists_of_run_discover hs hd with ⟨R, hroot, hdir, rfl⟩
  have hunit : ∀ u ∈ (s.discoveryIn c R).units,
      ∃ names, s.IsModule c R names ∧ u = ofNames c.root names := by
    intro u hu
    rcases List.mem_map.1 hu with ⟨names, hnames, rfl⟩
    exact ⟨names, (mem_modulesIn hs).1 hnames, rfl⟩
  refine ⟨fun u hu => ?_, fun u hu v hv hne hsame => ?_, fun u hu v hv => ?_⟩
  · rcases hunit u hu with ⟨names, h, rfl⟩
    rcases h.file with ⟨bytes, hfile⟩
    have hne : names ≠ [] := List.length_pos_iff.1 h.depth.1
    refine ⟨_, R ++ names, bytes, found_ofNames hs hroot hdir h, hfile, fun fl => ⟨?_, ?_⟩, ?_⟩
    · exact locate_below_file hs hroot hne hfile fl
    · exact locate_modulePath hs hroot h fl
    · rw [List.dropLast_append_of_ne_nil hne]
      exact beside_ofNames hs hroot h
  · rcases hunit u hu with ⟨names, hnames, rfl⟩
    rcases hunit v hv with ⟨more, hmore, rfl⟩
    have hfile := file_eq_of_samePlace hs hroot hnames hmore (x := statementSuffix)
      (y := statementSuffix) (by decide) (by decide) hsame
    exact hne (congrArg _ (siteAt_injective hnames hmore (Site.file_injective hfile)))
  · rcases hunit u hu with ⟨names, hnames, rfl⟩
    rcases hunit v hv with ⟨more, hmore, rfl⟩
    exact apart_ofNames hs hroot hnames hmore

/-- The sample with a file whose name without its suffix stands for the directory above. -/
def dottedSample : Store := linkedSample.insert ["d", "...js"] (.file [])

theorem discover_places_dottedSample :
    ∃ d, dottedSample.WellFormed ∧ (dottedSample.run (discover sampleSettings)).1 = .ok d ∧
      d.units = ⟨"/r/./x.js/../..", "..", ""⟩ :: sampleUnits ∧
      (∃ p l bytes, dottedSample.Found sampleSettings p ⟨"/r/./x.js/../..", "..", ""⟩ ∧
        dottedSample.entry? l = some (.file bytes) ∧
        dottedSample.locate true "/r/./x.js/../...js" = .ok l) ∧
      ¬ dottedSample.SamePlace "/r/./x.js/../...sql" "/r/./x.js/../..sql" ∧
      dottedSample.Apart ⟨"/r/./x.js/../..", "..", ""⟩ ⟨"/r/./x.js/../a/b", "b", "a"⟩ := by
  have hs : dottedSample.WellFormed := by decide +kernel
  have hd : (dottedSample.run (discover sampleSettings)).1 =
      .ok ⟨⟨"/r/./x.js/../..", "..", ""⟩ :: sampleUnits, []⟩ := by decide +kernel
  obtain ⟨hfiles, hstatements, hapart⟩ := discover_places dottedSample sampleSettings hs hd
  refine ⟨_, hs, hd, rfl, ?_, ?_, ?_⟩
  · obtain ⟨p, l, bytes, hfound, hfile, hplace, -⟩ := hfiles ⟨"/r/./x.js/../..", "..", ""⟩ (by simp)
    exact ⟨p, l, bytes, hfound, hfile, (hplace true).2⟩
  · exact hstatements ⟨"/r/./x.js/../..", "..", ""⟩ (by simp) ⟨"/r/./x.js/../.", ".", ""⟩
      (by simp [sampleUnits]) (by decide)
  · exact hapart _ (by simp) _ (by simp [sampleUnits])

end Store
end ProcedureGen
