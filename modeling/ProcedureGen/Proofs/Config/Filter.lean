import ProcedureGen.Proofs.Config.Precedence

/-!
# What a configuration takes

Whether a module is taken depends on which globs a configuration has, and not on their order or
number.

* `Config.resolve_eq_ok_iff`: the configurations that can be used, and their settings;
* `Config.SomeMatches`: some glob of a list stands for a path;
* `Config.effectiveExcludes`: the globs that exclude, by default or not;
* `Config.admits_iff`: the paths that the filter of a configuration admits.
-/

namespace ProcedureGen
namespace Config

open Glob (Pattern)

variable {c : Config} {u : Settings} {f : Filter} {globs more : List Text} {ps : List Pattern}
  {path : Text}

theorem resolve_eq_ok_iff :
    c.resolve = .ok u ↔ c.maxDepth ≠ some 0 ∧ c.root ≠ some [] ∧ ∃ f, c.filter = .ok f ∧ u =
      ⟨c.root.getD defaultRoot, c.drop.getD false, c.maxDepth.getD defaultMaxDepth, f, none⟩ := by
  unfold resolve
  by_cases hdepth : c.maxDepth = some 0
  · simp [hdepth]
  · by_cases hroot : c.root = some []
    · simp [hdepth, hroot]
    · rw [if_neg hdepth, if_neg hroot]
      cases hfilter : c.filter with
      | error d => simp [bind, Except.bind]
      | ok f =>
          simp only [bind, Except.bind, pure, Except.pure, Except.ok.injEq, exists_eq_left',
            ne_eq, hdepth, hroot, not_false_eq_true, true_and]
          exact eq_comm

/-! ## Lists of globs -/

/-- Some glob of a list stands for a path. -/
def SomeMatches (globs : List Text) (path : Text) : Prop :=
  ∃ glob ∈ globs, ∃ p, Pattern.ofGlob glob = .ok p ∧ p.acceptsText path = true

theorem SomeMatches.mono (h : SomeMatches globs path) (hsub : ∀ glob ∈ globs, glob ∈ more) :
    SomeMatches more path := by
  rcases h with ⟨glob, hglob, hmatch⟩
  exact ⟨glob, hsub glob hglob, hmatch⟩

/-- Whether every glob of a list can be read. -/
def Readable (globs : List Text) : Prop := ∀ glob ∈ globs, ∃ p, Pattern.ofGlob glob = .ok p

theorem exists_patterns_iff (defect : Text → Glob.Fault → Defect) :
    (∃ ps, patterns defect globs = .ok ps) ↔ Readable globs := by
  induction globs with
  | nil => simp [patterns, Readable]
  | cons glob globs ih =>
      unfold Readable at ih ⊢
      rw [List.forall_mem_cons, ← ih, patterns]
      cases Pattern.ofGlob glob with
      | error fault => simp
      | ok p => cases patterns defect globs <;> simp [bind, Except.bind, pure, Except.pure]

/-- The patterns of a list stand for what some glob of the list stands for. -/
theorem any_patterns_iff {defect : Text → Glob.Fault → Defect}
    (h : patterns defect globs = .ok ps) :
    ps.any (·.acceptsText path) = true ↔ SomeMatches globs path := by
  induction globs generalizing ps with
  | nil =>
      obtain rfl := Except.ok.inj h
      simp [SomeMatches]
  | cons glob globs ih =>
      rw [patterns] at h
      cases hglob : Pattern.ofGlob glob with
      | error fault =>
          rw [hglob] at h
          cases h
      | ok p =>
          simp only [hglob] at h
          rcases bind_eq_ok_iff.1 h with ⟨qs, hqs, hps⟩
          obtain rfl := Except.ok.inj hps
          have hrest := ih hqs
          unfold SomeMatches at hrest ⊢
          rw [List.any_cons, Bool.or_eq_true, hrest]
          simp [hglob]

/-! ## Filters -/

/-- The globs that exclude: those of the configuration, or the default ones if it has none. -/
def effectiveExcludes (c : Config) : List Text :=
  if c.excludes = [] then defaultExcludes else c.excludes

theorem filter_eq_ok_iff :
    c.filter = .ok f ↔ ∃ ps qs, patterns .badInclude c.includes = .ok ps ∧
      patterns .badExclude c.effectiveExcludes = .ok qs ∧
      f = ⟨if c.includes = [] then none else some ps, qs⟩ := by
  unfold filter effectiveExcludes
  rw [bind_eq_ok_iff]
  refine exists_congr fun ps => ?_
  rw [bind_eq_ok_iff]
  simp [pure, Except.pure, eq_comm]

theorem exists_filter_iff :
    (∃ f, c.filter = .ok f) ↔ Readable c.includes ∧ Readable c.effectiveExcludes := by
  rw [← exists_patterns_iff .badInclude, ← exists_patterns_iff .badExclude]
  simp only [filter_eq_ok_iff]
  constructor
  · rintro ⟨f, ps, qs, hps, hqs, -⟩
    exact ⟨⟨ps, hps⟩, qs, hqs⟩
  · rintro ⟨⟨ps, hps⟩, qs, hqs⟩
    exact ⟨_, ps, qs, hps, hqs, rfl⟩

/-- A path is admitted if no glob excludes it and, where there are globs that include, one of them
stands for it. -/
theorem admits_iff (h : c.filter = .ok f) :
    f.admits path = true ↔ ¬ SomeMatches c.effectiveExcludes path ∧
      (c.includes = [] ∨ SomeMatches c.includes path) := by
  rcases filter_eq_ok_iff.1 h with ⟨ps, qs, hps, hqs, rfl⟩
  unfold Filter.admits
  rw [Bool.and_eq_true, Bool.not_eq_true', ← Bool.not_eq_true, any_patterns_iff hqs]
  refine and_congr_right fun _ => ?_
  by_cases hnil : c.includes = []
  · simp [hnil]
  · simp only [hnil, if_false, false_or]
    exact any_patterns_iff hps

/-! ## Changes of a configuration -/

variable {includes excludes : List Text}

theorem effectiveExcludes_append (h : c.excludes ≠ []) (more : List Text) :
    effectiveExcludes { c with excludes := c.excludes ++ more } = c.effectiveExcludes ++ more := by
  simp [effectiveExcludes, h]

theorem nil_of_mem_iff (h : ∀ glob, glob ∈ more ↔ glob ∈ globs) : more = [] ↔ globs = [] := by
  simp only [List.eq_nil_iff_forall_not_mem, h]

theorem mem_effectiveExcludes_iff (includes : List Text)
    (h : ∀ glob, glob ∈ excludes ↔ glob ∈ c.excludes) (glob : Text) :
    glob ∈ effectiveExcludes { c with includes := includes, excludes := excludes } ↔
      glob ∈ c.effectiveExcludes := by
  have hnil := nil_of_mem_iff h
  unfold effectiveExcludes
  by_cases hc : c.excludes = []
  · simp [hc, hnil.2 hc]
  · simp [hc, mt hnil.1 hc, h]

/-- With the same globs in another order or number a configuration can be used as well, and takes
the same. -/
theorem resolve_of_mem_iff (hc : c.resolve = .ok u)
    (hincludes : ∀ glob, glob ∈ includes ↔ glob ∈ c.includes)
    (hexcludes : ∀ glob, glob ∈ excludes ↔ glob ∈ c.excludes) :
    ∃ g, Config.resolve { c with includes := includes, excludes := excludes } =
        .ok { u with filter := g } ∧
      ∀ path, g.admits path = u.filter.admits path := by
  rcases resolve_eq_ok_iff.1 hc with ⟨hdepth, hroot, f, hfilter, rfl⟩
  have hmem := mem_effectiveExcludes_iff includes hexcludes
  rcases exists_filter_iff.1 ⟨f, hfilter⟩ with ⟨hread, hread'⟩
  have hboth : ∃ g, filter { c with includes := includes, excludes := excludes } = .ok g :=
    exists_filter_iff.2 ⟨fun glob h => hread glob ((hincludes glob).1 h),
      fun glob h => hread' glob ((hmem glob).1 h)⟩
  rcases hboth with ⟨g, hg⟩
  refine ⟨g, resolve_eq_ok_iff.2 ⟨hdepth, hroot, g, hg, rfl⟩, fun path => ?_⟩
  have hsame : ∀ {globs more : List Text}, (∀ glob, glob ∈ globs ↔ glob ∈ more) →
      (SomeMatches globs path ↔ SomeMatches more path) :=
    fun h => ⟨fun hm => hm.mono fun glob => (h glob).1, fun hm => hm.mono fun glob => (h glob).2⟩
  rw [Bool.eq_iff_iff, admits_iff hg, admits_iff hfilter, hsame hmem, hsame hincludes,
    nil_of_mem_iff hincludes]

end Config
end ProcedureGen
