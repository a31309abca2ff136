import Mathlib.Data.List.Forall2
import Mathlib.Data.List.Sort
import ProcedureGen.Proofs.Discovery.Units

/-!
# Discovery is exact

Discovery below a directory succeeds.  Its units are those of the modules below the root, one for
each, in the order of the bytes of the names that lead to them.
-/

namespace ProcedureGen
namespace Store

variable {s : Store} {c : Settings} {R : Location} {names : List Text}

/-- Some names lead from a root to a module that settings take. -/
structure IsModule (s : Store) (c : Settings) (R : Location) (names : List Text) : Prop where
  depth : 1 ≤ names.length ∧ names.length ≤ max 1 c.maxDepth
  file : ∃ bytes, s.entry? (R ++ names) = some (.file bytes)
  /-- Only directories are on the way, so that no link is followed. -/
  way : ∀ start, start <+: names → start ≠ names → s.entry? (R ++ start) = some .directory
  suffix : ∃ name, name ≠ [] ∧ names.getLast? = some (name ++ SourceUnit.moduleSuffix)
  admitted : c.filter.admits (Discovery.relativePath names) = true

/-- A unit stands for the module that some names lead to. -/
structure StandsFor (s : Store) (R : Location) (names : List Text) (u : SourceUnit) : Prop where
  place : s.locate true u.modulePath = .ok (R ++ names)
  name : names.getLast? = some (u.name ++ SourceUnit.moduleSuffix)
  schema : u.schema = if 2 ≤ names.length then names.head?.getD [] else []

theorem takes_iff :
    takes c names = true ↔
      (∃ name, name ≠ [] ∧ names.getLast? = some (name ++ SourceUnit.moduleSuffix)) ∧
        c.filter.admits (Discovery.relativePath names) = true := by
  have hname : (SourceUnit.nameAt? names).isSome = true ↔
      ∃ name, name ≠ [] ∧ names.getLast? = some (name ++ SourceUnit.moduleSuffix) := by
    rw [Option.isSome_iff_exists]
    constructor
    · rintro ⟨name, h⟩
      rcases SourceUnit.nameAt?_eq_some_iff.1 h with ⟨hne, folder, rfl⟩
      exact ⟨name, hne, by simp⟩
    · rintro ⟨name, hne, hlast⟩
      rcases List.getLast?_eq_some_iff.1 hlast with ⟨folder, rfl⟩
      exact ⟨name, SourceUnit.nameAt?_eq_some_iff.2 ⟨hne, folder, rfl⟩⟩
  rw [takes, Bool.and_eq_true, hname]

theorem mem_modulesIn (hs : s.WellFormed) :
    names ∈ s.modulesIn c R ↔ s.IsModule c R names := by
  unfold modulesIn candidates
  rw [List.mem_filter, mem_filesIn hs, takes_iff]
  constructor
  · rintro ⟨⟨hne, hdepth, bytes, hfile⟩, hsuffix, hadmitted⟩
    have hlength : 1 ≤ names.length := List.length_pos_iff.2 hne
    refine ⟨⟨hlength, hdepth⟩, ⟨bytes, hfile⟩, ?_, hsuffix, hadmitted⟩
    rintro start ⟨rest, rfl⟩ hproper
    have hrest : rest ≠ [] := by
      rintro rfl
      exact hproper (by simp)
    rw [← List.append_assoc] at hfile
    exact hs.parent_append (entry?_ne_none hfile) hrest
  · intro h
    have hne : names ≠ [] := List.length_pos_iff.1 h.depth.1
    exact ⟨⟨hne, h.depth.2, h.file⟩, h.suffix, h.admitted⟩

theorem IsModule.of_sameTree {t : Store} (h : s.IsModule c R names) (htree : SameTree s t)
    (hentry : t.entry? (R ++ names) = s.entry? (R ++ names)) : t.IsModule c R names := by
  refine ⟨h.depth, ?_, fun start hstart hne => ?_, h.suffix, h.admitted⟩
  · rw [hentry]
    exact h.file
  · exact htree.directory_iff.1 (h.way start hstart hne)

/-- The modules of a state depend on which they are alone. -/
theorem modulesIn_congr {t : Store} (hs : s.WellFormed) (ht : t.WellFormed)
    (h : ∀ names, s.IsModule c R names ↔ t.IsModule c R names) :
    s.modulesIn c R = t.modulesIn c R := by
  have hsorted : ∀ r : Store, (r.modulesIn c R).Pairwise (· < ·) :=
    fun r => (pairwise_filesIn r _ R).filter _
  -- There is one ascending list of given members.
  refine (hsorted s).eq_of_mem_iff (hsorted t) fun names => ?_
  rw [mem_modulesIn hs, mem_modulesIn ht]
  exact h names

theorem standsFor_ofNames (hs : s.WellFormed) (hroot : s.locate true c.root = .ok R)
    (h : s.IsModule c R names) : s.StandsFor R names (SourceUnit.ofNames c.root names) := by
  rcases h.file with ⟨bytes, hfile⟩
  rcases h.suffix with ⟨name, hne, hlast⟩
  rcases List.getLast?_eq_some_iff.1 hlast with ⟨folder, rfl⟩
  have hnames := hs.names_append (entry?_ne_none hfile)
  rw [← List.append_assoc] at hfile
  have hentry := entry?_ne_none hfile
  have hnolink : ∀ target, s.entry? (R ++ folder ++ [name ++ SourceUnit.moduleSuffix]) ≠
      some (.link target) := by
    intro target
    rw [hfile]
    simp
  have hlocate := locate_stem hs hroot hne hentry (by decide) (by decide)
    fun _ : true = true => hnolink
  have hsize : ¬ maxNameSize < Text.byteSize (name ++ SourceUnit.moduleSuffix) := by
    have := (hs.name hentry).2
    omega
  rw [ofNames_append c.root folder hne]
  refine ⟨?_, by simp, SourceUnit.schemaOf_eq fun y hy => (hnames y hy).1⟩
  simpa [SourceUnit.modulePath, leaf, hsize] using hlocate

/-! ## A sample -/

/-- A root behind a link, with files and directories that are called like modules or nearly so, and
with what may be in the way of a statement. -/
def sample : Store := ⟨[
  (["r"], .link "d/"), (["d"], .directory),
  (["d", "a.js"], .file (Utf8.encode "export function a(x) \x7b\n  return x;\n\x7d\n")),
  (["d", "a.d.ts"], .file (Utf8.encode "export declare function a(x: number): number;\n")),
  (["d", "a.sql"], .file []), (["d", "a.sql.tmp"], .file []),
  (["d", "..js"], .file []), (["d", ".js"], .file []),
  (["d", "a"], .directory), (["d", "a", "b.js"], .file []), (["d", "a", "b.sql"], .directory),
  (["d", "x.js"], .directory), (["d", "x.js", "y.js"], .file []),
  (["d", "x.js", "z"], .directory), (["d", "x.js", "z", "z.js"], .file [])]⟩

/-- The sample with a link that is called like a module. -/
def linkedSample : Store := sample.insert ["d", "l.js"] (.link "a.js")

def sampleSettings : Settings := ⟨"/r/./x.js/..", false, 2, ⟨none, []⟩, none⟩

/-- The units of the sample. -/
def sampleUnits : List SourceUnit := [
  ⟨"/r/./x.js/../.", ".", ""⟩, ⟨"/r/./x.js/../a/b", "b", "a"⟩, ⟨"/r/./x.js/../a", "a", ""⟩,
  ⟨"/r/./x.js/../x.js/y", "y", "x.js"⟩]

theorem wellFormed_sample : sample.WellFormed := by
  decide +kernel

theorem linkFreeBelow_sample : sample.LinkFreeBelow sampleSettings.root := by
  decide +kernel

theorem run_discover_sample :
    (sample.run (discover sampleSettings)).1 = .ok ⟨sampleUnits, []⟩ := by
  decide +kernel

/-! ## Exactness -/

/-- Discovery below a directory succeeds, whatever way the root is written, and changes nothing.
It gives one unit for each module that is taken, in the order of the bytes of the names. -/
theorem discover_exact (s : Store) (c : Settings) (hs : s.WellFormed)
    (hroot : s.kind? c.root = some .directory) :
    ∃ (R : Location) (d : Discovery) (modules : List (List Text)),
      s.locate true c.root = .ok R ∧
      s.run (discover c) = (.ok d, s) ∧
      (∀ names, names ∈ modules ↔ s.IsModule c R names) ∧
      modules.Pairwise (fun a b => a.map Utf8.encode < b.map Utf8.encode) ∧
      List.Forall₂ (s.StandsFor R) modules d.units := by
  rcases kind?_eq_directory_iff.1 hroot with ⟨R, hlocate, hdir⟩
  refine ⟨R, s.discoveryIn c R, s.modulesIn c R, hlocate, run_discover hs hlocate hdir,
    fun names => mem_modulesIn hs, ?_, ?_⟩
  · exact ((pairwise_filesIn s _ R).filter _).imp Utf8.map_encode_lt
  · have hall : ∀ names ∈ s.modulesIn c R,
        s.StandsFor R names (SourceUnit.ofNames c.root names) :=
      fun names hnames => standsFor_ofNames hs hlocate ((mem_modulesIn hs).1 hnames)
    exact List.forall₂_map_right_iff.2 (List.forall₂_same.2 hall)

theorem discover_exact_linkedSample :
    linkedSample.WellFormed ∧ linkedSample.kind? sampleSettings.root = some .directory ∧
      ∃ (R : Location) (d : Discovery) (modules : List (List Text)),
        linkedSample.locate true sampleSettings.root = .ok R ∧
        linkedSample.run (discover sampleSettings) = (.ok d, linkedSample) ∧
        (∀ names, names ∈ modules ↔ linkedSample.IsModule sampleSettings R names) ∧
        modules.Pairwise (fun a b => a.map Utf8.encode < b.map Utf8.encode) ∧
        List.Forall₂ (linkedSample.StandsFor R) modules d.units := by
  have hs : linkedSample.WellFormed := by decide +kernel
  have hroot : linkedSample.kind? sampleSettings.root = some .directory := by decide +kernel
  exact ⟨hs, hroot, discover_exact linkedSample sampleSettings hs hroot⟩

/-- The link is not followed, and what lies deeper than two levels is not looked at. -/
example : (linkedSample.run (discover sampleSettings)).1 = .ok ⟨sampleUnits, []⟩ := by
  decide +kernel

end Store
end ProcedureGen
