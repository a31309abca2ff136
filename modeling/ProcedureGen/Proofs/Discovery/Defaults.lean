import ProcedureGen.Proofs.Discovery.Filters
import ProcedureGen.Proofs.Glob.Matching

/-!
# Discovery by default

What a configuration without globs takes: every module but the tests.

* `Config.someMatches_defaultExcludes_iff`: the paths that the default globs stand for;
* `Config.admits_default_iff`: the paths that are taken by default;
* `Store.mem_modulesIn_default`: which modules are found by default, by their names;
* `Store.discover_default`: the units without globs are those of all modules that are no tests.
-/

namespace ProcedureGen

/-! ## Endings of paths -/

section Endings

variable {x file : Text} {names : List Text}

/-- A path ends in a text without slashes if its last name does. -/
theorem suffix_relativePath_iff (hx : '/' ∉ x) (hlast : names.getLast? = some file) :
    x <:+ Discovery.relativePath names ↔ x <:+ file := by
  rcases List.getLast?_eq_some_iff.1 hlast with ⟨folder, rfl⟩
  unfold Discovery.relativePath
  by_cases hfolder : folder = []
  · rw [hfolder]
    rfl
  · have hsplit : Text.joinWith "/" (folder ++ [file]) =
        Text.joinWith "/" folder ++ '/' :: file := by
      rw [Text.joinWith_append hfolder (by simp), List.append_assoc]
      rfl
    rw [hsplit, Text.suffix_append_cons_iff hx]

end Endings

/-! ## Default globs -/

namespace Config

open Glob (Pattern)

variable {c : Config} {f : Filter} {path : Text}

/-- What the name of a test ends in. -/
def testSuffixes : List Text := [".test", ".spec"]

theorem forall_testSuffixes_iff {P : Text → Prop} :
    (∀ x ∈ testSuffixes, P x) ↔ P ".test".toList ∧ P ".spec".toList := by
  simp only [testSuffixes, List.forall_mem_cons, List.not_mem_nil, false_implies, implies_true,
    and_true]

theorem defaultExcludes_eq : defaultExcludes =
    testSuffixes.map fun x => "**/*".toList ++ (x ++ SourceUnit.moduleSuffix) := by decide

theorem exists_ofGlob_default {x : Text} (hx : x ∈ testSuffixes) :
    ∃ p, Pattern.ofGlob ("**/*".toList ++ (x ++ SourceUnit.moduleSuffix)) = .ok p ∧
      ∀ path, p.acceptsText path = true ↔ x ++ SourceUnit.moduleSuffix <:+ path := by
  have hplain : ∀ x ∈ testSuffixes, (x ++ SourceUnit.moduleSuffix).all (Glob.IsPlain ·) := by
    decide
  exact Pattern.exists_ofGlob_suffix fun c hc =>
    of_decide_eq_true (List.all_eq_true.1 (hplain x hx) c hc)

theorem readable_defaultExcludes : Readable defaultExcludes := by
  rw [defaultExcludes_eq]
  intro glob hglob
  rcases List.mem_map.1 hglob with ⟨x, hx, rfl⟩
  rcases exists_ofGlob_default hx with ⟨p, hp, -⟩
  exact ⟨p, hp⟩

/-- The default globs stand for the paths that end like that of a test. -/
theorem someMatches_defaultExcludes_iff :
    SomeMatches defaultExcludes path ↔
      ∃ x ∈ testSuffixes, x ++ SourceUnit.moduleSuffix <:+ path := by
  rw [defaultExcludes_eq]
  constructor
  · rintro ⟨glob, hglob, q, hq, hmatch⟩
    rcases List.mem_map.1 hglob with ⟨x, hx, rfl⟩
    rcases exists_ofGlob_default hx with ⟨p, hp, hpath⟩
    obtain rfl : p = q := Except.ok.inj (hp.symm.trans hq)
    exact ⟨x, hx, (hpath path).1 hmatch⟩
  · rintro ⟨x, hx, hend⟩
    rcases exists_ofGlob_default hx with ⟨p, hp, hpath⟩
    exact ⟨_, List.mem_map_of_mem hx, p, hp, (hpath path).2 hend⟩

/-- Without globs everything is taken but what ends like the path of a test. -/
theorem admits_default_iff (hf : c.filter = .ok f) (hincludes : c.includes = [])
    (hexcludes : c.excludes = []) :
    f.admits path = true ↔ ∀ x ∈ testSuffixes, ¬ x ++ SourceUnit.moduleSuffix <:+ path := by
  have heffective : c.effectiveExcludes = defaultExcludes := if_pos hexcludes
  rw [admits_iff hf, heffective, someMatches_defaultExcludes_iff]
  simp [hincludes]

/-- A configuration without globs can be used if its depth and its root can. -/
theorem exists_resolve_default (hdepth : c.maxDepth ≠ some 0) (hroot : c.root ≠ some [])
    (hincludes : c.includes = []) (hexcludes : c.excludes = []) :
    ∃ u, c.resolve = .ok u ∧ c.filter = .ok u.filter := by
  have heffective : c.effectiveExcludes = defaultExcludes := if_pos hexcludes
  have hinclude : Readable c.includes := by simp [Readable, hincludes]
  have hexclude : Readable c.effectiveExcludes := heffective ▸ readable_defaultExcludes
  rcases exists_filter_iff.2 ⟨hinclude, hexclude⟩ with ⟨f, hf⟩
  exact ⟨_, resolve_eq_ok_iff.2 ⟨hdepth, hroot, f, hf, rfl⟩, hf⟩

/-- The paths that are left out, written out. -/
theorem admits_default_eq_false_iff (hf : c.filter = .ok f) (hincludes : c.includes = [])
    (hexcludes : c.excludes = []) :
    f.admits path = false ↔ ".test.js".toList <:+ path ∨ ".spec.js".toList <:+ path := by
  rw [← Bool.not_eq_true, admits_default_iff hf hincludes hexcludes, forall_testSuffixes_iff,
    not_and_or, not_not, not_not]
  rfl

end Config

namespace Store

variable {s : Store} {u : Settings} {c : Config} {R : Location} {names : List Text} {name : Text}
  {root : Path} {depth : Nat} {d : Discovery}

/-- A module whose name does not end like that of a test is taken. -/
theorem admits_names_iff (hf : c.filter = .ok u.filter) (hincludes : c.includes = [])
    (hexcludes : c.excludes = [])
    (hlast : names.getLast? = some (name ++ SourceUnit.moduleSuffix)) :
    u.filter.admits (Discovery.relativePath names) = true ↔
      ∀ x ∈ Config.testSuffixes, ¬ x <:+ name := by
  have hslash : ∀ x ∈ Config.testSuffixes, '/' ∉ x ++ SourceUnit.moduleSuffix := by decide
  rw [Config.admits_default_iff hf hincludes hexcludes]
  refine forall₂_congr fun x hx => not_congr ?_
  rw [suffix_relativePath_iff (hslash x hx) hlast, List.suffix_append_self_iff]

/-- The modules that are found by default are the files whose names end like that of a module and
not like that of a test. -/
theorem mem_modulesIn_default (hs : s.WellFormed) (hf : c.filter = .ok u.filter)
    (hincludes : c.includes = []) (hexcludes : c.excludes = []) :
    names ∈ s.modulesIn { u with root := root, maxDepth := depth } R ↔
      names.length ≤ max 1 depth ∧ (∃ bytes, s.entry? (R ++ names) = some (.file bytes)) ∧
        ∃ name, name ≠ [] ∧ names.getLast? = some (name ++ SourceUnit.moduleSuffix) ∧
          ∀ x ∈ Config.testSuffixes, ¬ x <:+ name := by
  unfold modulesIn candidates
  rw [List.mem_filter, mem_filesIn hs, takes_iff]
  constructor
  · rintro ⟨⟨-, hdepth, hfile⟩, ⟨name, hne, hlast⟩, hadmitted⟩
    exact ⟨hdepth, hfile, name, hne, hlast,
      (admits_names_iff hf hincludes hexcludes hlast).1 hadmitted⟩
  · rintro ⟨hdepth, hfile, name, hne, hlast, htest⟩
    have hnames : names ≠ [] := by
      rintro rfl
      simp at hlast
    exact ⟨⟨hnames, hdepth, hfile⟩, ⟨name, hne, hlast⟩,
      (admits_names_iff hf hincludes hexcludes hlast).2 htest⟩

/-- A configuration without globs leaves out the paths that end in `.test.js` or `.spec.js` and no
others.  So below every directory and down to every depth, it finds no unit with the name of a test,
and a unit for every other module. -/
theorem discover_default (c : Config) (hdepth : c.maxDepth ≠ some 0) (hroot : c.root ≠ some [])
    (hincludes : c.includes = []) (hexcludes : c.excludes = []) :
    ∃ u, c.resolve = .ok u ∧
      (∀ path, u.filter.admits path = false ↔
        ".test.js".toList <:+ path ∨ ".spec.js".toList <:+ path) ∧
      ∀ (s : Store) (root : Path) (depth : Nat), s.WellFormed → s.kind? root = some .directory →
        ∃ R d, s.locate true root = .ok R ∧ s.foundBy root depth u = .ok d ∧
          (∀ unit ∈ d.units, ¬ ".test".toList <:+ unit.name ∧ ¬ ".spec".toList <:+ unit.name) ∧
          ∀ names name bytes, names.length ≤ max 1 depth →
            s.entry? (R ++ names) = some (.file bytes) →
            names.getLast? = some (name ++ ".js".toList) → name ≠ [] →
            ¬ ".test".toList <:+ name → ¬ ".spec".toList <:+ name →
            ∃ unit ∈ d.units, s.StandsFor R names unit := by
  rcases Config.exists_resolve_default hdepth hroot hincludes hexcludes with ⟨u, hu, hf⟩
  refine ⟨u, hu, fun path => Config.admits_default_eq_false_iff hf hincludes hexcludes,
    fun s root depth hs hkind => ?_⟩
  rcases kind?_eq_directory_iff.1 hkind with ⟨R, hlocate, hdir⟩
  have hfound : s.foundBy root depth u =
      .ok (s.discoveryIn { u with root := root, maxDepth := depth } R) := by
    rw [foundBy, run_discover hs hlocate hdir]
  have hmodules : ∀ names, names ∈ s.modulesIn { u with root := root, maxDepth := depth } R ↔ _ :=
    fun names => mem_modulesIn_default hs hf hincludes hexcludes
  have hstands : ∀ names ∈ s.modulesIn { u with root := root, maxDepth := depth } R,
      s.StandsFor R names (SourceUnit.ofNames root names) :=
    fun names hnames => standsFor_ofNames hs hlocate ((mem_modulesIn hs).1 hnames)
  refine ⟨R, _, hlocate, hfound, fun unit hunit => ?_, ?_⟩
  -- The name of a unit is that of its file without the ending.
  · rcases List.mem_map.1 hunit with ⟨names, hnames, rfl⟩
    rcases (hmodules names).1 hnames with ⟨-, -, name, -, hlast, htest⟩
    have hname : name = (SourceUnit.ofNames root names).name :=
      List.append_cancel_right (Option.some.inj (hlast.symm.trans (hstands names hnames).name))
    rw [← hname]
    exact Config.forall_testSuffixes_iff.1 htest
  · intro names name bytes hlength hfile hlast hne htest hspec
    have hnames := (hmodules names).2 ⟨hlength, ⟨bytes, hfile⟩, name, hne, hlast,
      Config.forall_testSuffixes_iff.2 ⟨htest, hspec⟩⟩
    exact ⟨_, List.mem_map_of_mem hnames, hstands names hnames⟩

/-- Modules and tests, among them a test without another name and a directory that is called like
one. -/
def testedSample : Store := ⟨[
  (["r"], .directory), (["r", "a.js"], .file []), (["r", "a.test.js"], .file []),
  (["r", ".test.js"], .file []), (["r", ".spec"], .directory),
  (["r", ".spec", "b.spec.js"], .file []), (["r", ".spec", "spec.js"], .file []),
  (["r", "x.test.js"], .directory), (["r", "x.test.js", "y.test.x.js"], .file [])]⟩

theorem discover_default_testedSample :
    Config.empty.maxDepth ≠ some 0 ∧ Config.empty.root ≠ some [] ∧ Config.empty.includes = [] ∧
      Config.empty.excludes = [] ∧ testedSample.WellFormed ∧
      testedSample.kind? "/r" = some .directory ∧
      ∃ u, Config.empty.resolve = .ok u ∧
        (∀ path, u.filter.admits path = false ↔
          ".test.js".toList <:+ path ∨ ".spec.js".toList <:+ path) ∧
        ∃ R d, testedSample.locate true "/r" = .ok R ∧ testedSample.foundBy "/r" 2 u = .ok d ∧
          (∀ unit ∈ d.units, ¬ ".test".toList <:+ unit.name ∧ ¬ ".spec".toList <:+ unit.name) ∧
          ∃ unit ∈ d.units, testedSample.StandsFor R ["x.test.js", "y.test.x.js"] unit := by
  have hs : testedSample.WellFormed := by decide +kernel
  have hkind : testedSample.kind? "/r" = some .directory := by decide +kernel
  have hlocate : testedSample.locate true "/r" = .ok ["r"] := by decide +kernel
  obtain ⟨u, hu, hadmits, hfound⟩ := discover_default Config.empty (by decide) (by decide) rfl rfl
  obtain ⟨R, d, hR, hd, htests, hmodules⟩ := hfound testedSample "/r" 2 hs hkind
  obtain rfl : R = ["r"] := Except.ok.inj (hR.symm.trans hlocate)
  refine ⟨by decide, by decide, rfl, rfl, hs, hkind, u, hu, hadmits, ["r"], d, hR, hd, htests, ?_⟩
  exact hmodules ["x.test.js", "y.test.x.js"] "y.test.x" [] (by decide) (by decide +kernel)
    (by decide) (by decide) (by decide) (by decide)

end Store
end ProcedureGen
