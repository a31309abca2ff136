import ProcedureGen.Proofs.Config.Filter
import ProcedureGen.Proofs.Discovery.Exact

/-!
# Filters and discovery

What becomes of the units that are discovered when a configuration gets further globs.  A list of
globs that is empty has a meaning of its own, so this holds for further ones only.

* `Store.foundBy`: what is found below a root by some settings;
* `Store.Narrows`: one discovery finds a part of another;
* `Store.narrows_foundBy`: a filter that admits less finds less;
* `Store.discover_monotone`: further globs, excluded paths, and the order of globs.
-/

namespace ProcedureGen
namespace Store

variable {s : Store} {c : Settings} {u v : Settings} {R : Location} {root : Path} {depth : Nat}

/-- What is found below a root down to a depth, with the filter of some settings. -/
def foundBy (s : Store) (root : Path) (depth : Nat) (u : Settings) :
    Except DiscoveryFault Discovery :=
  (s.run (discover { u with root := root, maxDepth := depth })).1

/-- One discovery finds some of the units of another, in their order, or both fail alike. -/
inductive Narrows : Except DiscoveryFault Discovery → Except DiscoveryFault Discovery → Prop
  | found {d e : Discovery} (h : d.units.Sublist e.units) : Narrows (.ok d) (.ok e)
  | failed (fault : DiscoveryFault) : Narrows (.error fault) (.error fault)

/-! ## Two filters -/

theorem units_sublist (s : Store) (R : Location)
    (h : ∀ path, u.filter.admits path = true → v.filter.admits path = true) :
    (s.discoveryIn { u with root := root, maxDepth := depth } R).units.Sublist
      (s.discoveryIn { v with root := root, maxDepth := depth } R).units := by
  refine List.Sublist.map _ (List.monotone_filter_right _ fun names htakes => ?_)
  simp only [takes, Bool.and_eq_true] at htakes ⊢
  exact ⟨htakes.1, h _ htakes.2⟩

/-- Whether a root can be looked through does not depend on the filter. -/
theorem foundBy_eq (hs : s.WellFormed) (root : Path) :
    (∃ R, ∀ depth u, s.foundBy root depth u =
      .ok (s.discoveryIn { u with root := root, maxDepth := depth } R)) ∨
      ∀ depth u, s.foundBy root depth u = .error (.noDirectory root) := by
  by_cases hkind : s.kind? root = some .directory
  · rcases kind?_eq_directory_iff.1 hkind with ⟨R, hroot, hdir⟩
    refine .inl ⟨R, fun depth u => ?_⟩
    rw [foundBy, run_discover hs hroot hdir]
  · refine .inr fun depth u => ?_
    rw [foundBy, run_discover_of_not_directory hkind]

theorem narrows_foundBy (hs : s.WellFormed) (root : Path) (depth : Nat)
    (h : ∀ path, u.filter.admits path = true → v.filter.admits path = true) :
    Narrows (s.foundBy root depth u) (s.foundBy root depth v) := by
  rcases foundBy_eq hs root with ⟨R, hfound⟩ | hfault
  · rw [hfound, hfound]
    exact .found (units_sublist s R h)
  · rw [hfault, hfault]
    exact .failed _

/-- A discovery depends on what its filter admits alone. -/
theorem foundBy_congr (hs : s.WellFormed) (root : Path) (depth : Nat)
    (h : ∀ path, u.filter.admits path = v.filter.admits path) :
    s.foundBy root depth u = s.foundBy root depth v := by
  rcases foundBy_eq hs root with ⟨R, hfound⟩ | hfault
  · have htakes : takes { u with root := root, maxDepth := depth } =
        takes { v with root := root, maxDepth := depth } := by
      funext names
      simp only [takes, h]
    have hleaves : leavesOut { u with root := root, maxDepth := depth } =
        leavesOut { v with root := root, maxDepth := depth } := by
      funext names
      simp only [leavesOut, h]
    rw [hfound, hfound, discoveryIn, discoveryIn, modulesIn, modulesIn, htakes, hleaves]
    rfl
  · rw [hfault, hfault]

/-- A unit stands somewhere below its root, at a path that is admitted. -/
theorem admits_of_foundBy (hs : s.WellFormed) {d : Discovery} (hd : s.foundBy root depth u = .ok d)
    {unit : SourceUnit} (hunit : unit ∈ d.units) :
    ∃ R names, s.locate true root = .ok R ∧
      s.locate true unit.modulePath = .ok (R ++ names) ∧
      u.filter.admits (Discovery.relativePath names) = true := by
  rcases exists_of_run_discover hs hd with ⟨R, hroot, -, rfl⟩
  rcases List.mem_map.1 hunit with ⟨names, hnames, rfl⟩
  have hmodule := (mem_modulesIn hs).1 hnames
  exact ⟨R, names, hroot, (standsFor_ofNames hs hroot hmodule).place, hmodule.admitted⟩

/-! ## Configurations -/

/-- Below every root and down to every depth: further globs to exclude, where there are some, leave
a part of the units, and with further globs to include, where there are some, the units before are
a part of those after; no unit has a path that a glob excludes, by default or not; and globs in
another order or number, without another one among them, give the same. -/
theorem discover_monotone (s : Store) (hs : s.WellFormed) (root : Path) (depth : Nat) (c : Config)
    (u : Settings) (hc : c.resolve = .ok u) :
    (∀ more v, c.excludes ≠ [] →
      Config.resolve { c with excludes := c.excludes ++ more } = .ok v →
      Narrows (s.foundBy root depth v) (s.foundBy root depth u)) ∧
    (∀ more v, c.includes ≠ [] →
      Config.resolve { c with includes := c.includes ++ more } = .ok v →
      Narrows (s.foundBy root depth u) (s.foundBy root depth v)) ∧
    (∀ d, s.foundBy root depth u = .ok d → ∀ unit ∈ d.units, ∃ R names,
      s.locate true root = .ok R ∧ s.locate true unit.modulePath = .ok (R ++ names) ∧
      ∀ glob ∈ c.effectiveExcludes, ∃ p, Glob.Pattern.ofGlob glob = .ok p ∧
        p.acceptsText (Discovery.relativePath names) = false) ∧
    ∀ includes excludes, (∀ glob, glob ∈ includes ↔ glob ∈ c.includes) →
      (∀ glob, glob ∈ excludes ↔ glob ∈ c.excludes) →
      ∃ v, Config.resolve { c with includes := includes, excludes := excludes } = .ok v ∧
        s.foundBy root depth v = s.foundBy root depth u := by
  rcases Config.resolve_eq_ok_iff.1 hc with ⟨-, -, f, hfilter, hu⟩
  have hadmits : ∀ path, u.filter.admits path = true ↔
      ¬ Config.SomeMatches c.effectiveExcludes path ∧
        (c.includes = [] ∨ Config.SomeMatches c.includes path) := by
    intro path
    rw [hu]
    exact Config.admits_iff hfilter
  refine ⟨fun more v hne hv => ?_, fun more v hne hv => ?_, ?_, ?_⟩
  · rcases Config.resolve_eq_ok_iff.1 hv with ⟨-, -, g, hfilter', rfl⟩
    refine narrows_foundBy hs root depth fun path hpath => ?_
    -- What is excluded before is excluded after, as there were globs that exclude.
    have hadmitted := (Config.admits_iff hfilter').1 hpath
    rw [Config.effectiveExcludes_append hne] at hadmitted
    refine (hadmits path).2 ⟨fun h => hadmitted.1 (h.mono ?_), hadmitted.2⟩
    exact fun glob => List.mem_append_left more
  · rcases Config.resolve_eq_ok_iff.1 hv with ⟨-, -, g, hfilter', rfl⟩
    refine narrows_foundBy hs root depth fun path hpath => ?_
    rcases (hadmits path).1 hpath with ⟨hexcluded, hincluded⟩
    refine (Config.admits_iff hfilter').2 ⟨hexcluded, .inr ?_⟩
    exact (hincluded.resolve_left hne).mono fun glob => List.mem_append_left more
  · intro d hd unit hunit
    rcases admits_of_foundBy hs hd hunit with ⟨R, names, hroot, hplace, hpath⟩
    have hnone := ((hadmits _).1 hpath).1
    refine ⟨R, names, hroot, hplace, fun glob hglob => ?_⟩
    rcases (Config.exists_filter_iff.1 ⟨f, hfilter⟩).2 glob hglob with ⟨p, hp⟩
    refine ⟨p, hp, ?_⟩
    by_contra haccepts
    exact hnone ⟨glob, hglob, p, hp, by simpa using haccepts⟩
  · intro includes excludes hincludes hexcludes
    rcases Config.resolve_of_mem_iff hc hincludes hexcludes with ⟨g, hresolve, hsame⟩
    exact ⟨_, hresolve, foundBy_congr hs root depth hsame⟩

/-- A configuration with one glob to include and one to exclude. -/
def narrowConfig : Config := ⟨none, none, none, ["a*"], ["**/b.js"]⟩

theorem discover_monotone_narrowConfig :
    ∃ u v w, narrowConfig.resolve = .ok u ∧
      Config.resolve { narrowConfig with excludes := ["**/b.js", "?.js"] } = .ok v ∧
      Config.resolve { narrowConfig with includes := ["a*", "x.js/**"] } = .ok w ∧
      Narrows (linkedSample.foundBy "/r/." 2 v) (linkedSample.foundBy "/r/." 2 u) ∧
      Narrows (linkedSample.foundBy "/r/." 2 u) (linkedSample.foundBy "/r/." 2 w) ∧
      (∀ d, linkedSample.foundBy "/r/." 2 u = .ok d → ∀ unit ∈ d.units, ∃ R names,
        linkedSample.locate true "/r/." = .ok R ∧
        linkedSample.locate true unit.modulePath = .ok (R ++ names) ∧
        ∀ glob ∈ narrowConfig.effectiveExcludes, ∃ p, Glob.Pattern.ofGlob glob = .ok p ∧
          p.acceptsText (Discovery.relativePath names) = false) ∧
      ∃ v, Config.resolve { narrowConfig with excludes := ["**/b.js", "**/b.js"] } = .ok v ∧
        linkedSample.foundBy "/r/." 2 v = linkedSample.foundBy "/r/." 2 u := by
  have hs : linkedSample.WellFormed := by decide +kernel
  have hresolve : ∀ c ∈ [narrowConfig, { narrowConfig with excludes := ["**/b.js", "?.js"] },
      { narrowConfig with includes := ["a*", "x.js/**"] }],
      (Config.resolve c).toOption.isSome = true := by decide +kernel
  have hsettings : ∀ {c : Config}, (Config.resolve c).toOption.isSome = true →
      ∃ u, Config.resolve c = .ok u := by
    intro c h
    cases hc : Config.resolve c with
    | ok u => exact ⟨u, rfl⟩
    | error d => simp [hc, Except.toOption] at h
  obtain ⟨u, hu⟩ := hsettings (hresolve narrowConfig (by simp))
  obtain ⟨v, hv⟩ := hsettings (hresolve { narrowConfig with excludes := ["**/b.js", "?.js"] }
    (by simp))
  obtain ⟨w, hw⟩ := hsettings (hresolve { narrowConfig with includes := ["a*", "x.js/**"] }
    (by simp))
  obtain ⟨hless, hmore, hexcluded, hsame⟩ :=
    discover_monotone linkedSample hs "/r/." 2 narrowConfig u hu
  exact ⟨u, v, w, hu, hv, hw, hless ["?.js"] v (by decide) hv,
    hmore ["x.js/**"] w (by decide) hw, hexcluded,
    hsame ["a*"] ["**/b.js", "**/b.js"] (by simp [narrowConfig]) (by simp [narrowConfig])⟩

end Store
end ProcedureGen
