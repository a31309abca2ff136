import ProcedureGen.Proofs.Config.Filter
import ProcedureGen.Proofs.Session.Run

/-!
# Options and the configuration

The options of a request do the same to a session as changes of its configuration.

* `Config.Holds`, `Store.HasConfig`: the configuration of a project, whether or not it can be used;
* `Request.edit`: a configuration with the options of a request in it;
* `Request.apply_anchor`: options on settings and options in a configuration;
* `CommandLine.root_ne_nil_of_parse`: a root that is asked for has a name;
* `Store.Reaches`: the settings by which a tree is converted;
* `Store.run_options`: where they come from, and that no option mends a configuration.
-/

namespace ProcedureGen

variable {c c' : Config} {base u : Settings} {r r' : Request} {project p : Path} {text : Text}
  {origin origin' : Option Path}

/-! ## Configurations as they stand -/

namespace Config

/-- A text holds a configuration, which need not be one that can be used. -/
def Holds : ConfigSource → Text → Config → Prop
  | .ownFile, t, c => ofText t = .ok c
  | .manifest, t, c => ∃ v w, Json.Value.ofText t = .ok v ∧ v.get? manifestKey = some w ∧
    ofValue w = .ok c

variable {source : ConfigSource}

theorem gives_iff : Gives source text base ↔ ∃ c, Holds source text c ∧ c.resolve = .ok base := by
  cases source with
  | ownFile => rfl
  | manifest =>
      constructor
      · rintro ⟨v, w, c, hv, hkey, hw, hc⟩
        exact ⟨c, ⟨v, w, hv, hkey, hw⟩, hc⟩
      · rintro ⟨c, ⟨v, w, hv, hkey, hw⟩, hc⟩
        exact ⟨v, w, c, hv, hkey, hw, hc⟩

theorem Holds.unique (h : Holds source text c) (h' : Holds source text c') : c = c' := by
  cases source with
  | ownFile => exact Except.ok.inj (h.symm.trans h')
  | manifest =>
      rcases h with ⟨v, w, hv, hkey, hw⟩
      rcases h' with ⟨v', w', hv', hkey', hw'⟩
      obtain rfl := Except.ok.inj (hv.symm.trans hv')
      obtain rfl := Option.some.inj (hkey.symm.trans hkey')
      exact Except.ok.inj (hw.symm.trans hw')

theorem Holds.not_isBare (h : Holds source text c) : ¬ IsBare source text := by
  cases source with
  | ownFile => exact not_false
  | manifest =>
      rcases h with ⟨v, w, hv, hkey, -⟩
      rintro ⟨v', hv', hnone⟩
      obtain rfl := Except.ok.inj (hv.symm.trans hv')
      rw [hkey] at hnone
      cases hnone

/-- A configuration that cannot be used is told by its defect. -/
theorem Holds.ofContent_of_defect {d : Defect} (h : Holds source text c)
    (hdefect : c.resolve = .error d) :
    ofContent source p (.ok text) = .error (.invalid source p d) := by
  cases source with
  | ownFile =>
      have hofText : ofText text = .ok c := h
      simp [ofContent, ofFile, hofText, check, hdefect, Except.map]
  | manifest =>
      rcases h with ⟨v, w, hv, hkey, hw⟩
      simp [ofContent, ofManifest, hv, hkey, hw, check, hdefect, Except.map]

end Config

namespace Store

variable {s : Store} {file : Option Path} {t : Settings}

/-- A project has a configuration from somewhere, or, from nowhere, the one that states nothing.  It
need not be one that can be used. -/
inductive HasConfig (s : Store) (project : Path) : Option Path → Config → Option Path → Prop
  | given {p : Path} {text : Text} {c : Config} (hread : s.read (Path.join project p) = .ok text)
      (holds : Config.Holds .ownFile text c) : HasConfig s project (some p) c (some p)
  | found {source : ConfigSource} {p : Path} {text : Text} {c : Config}
      (hfirst : s.IsFirst project (source, p)) (hread : s.read p = .ok text)
      (holds : Config.Holds source text c) : HasConfig s project none c (some p)
  | bare {source : ConfigSource} {p : Path} {text : Text}
      (hfirst : s.IsFirst project (source, p)) (hread : s.read p = .ok text)
      (hbare : Config.IsBare source text) : HasConfig s project none .empty none
  | absent (hnone : ∀ c ∈ Config.candidates project, s.kind? c.2 = none) :
      HasConfig s project none .empty none

theorem IsFirst.unique {d d' : ConfigSource × Path} (h : s.IsFirst project d)
    (h' : s.IsFirst project d') : d = d' :=
  Option.some.inj ((find?_candidates_iff.2 h).symm.trans (find?_candidates_iff.2 h'))

theorem IsFirst.not_absent {d : ConfigSource × Path} (h : s.IsFirst project d) :
    ¬ ∀ c ∈ Config.candidates project, s.kind? c.2 = none := by
  intro hnone
  rcases h with ⟨before, after, hall, hkind, -⟩
  exact hkind (hnone d (by simp [hall]))

theorem HasConfig.unique (h : s.HasConfig project file c origin)
    (h' : s.HasConfig project file c' origin') : c = c' ∧ origin = origin' := by
  cases h with
  | given hread holds =>
      cases h' with
      | given hread' holds' =>
          obtain rfl := Except.ok.inj (hread.symm.trans hread')
          exact ⟨holds.unique holds', rfl⟩
  | found hfirst hread holds =>
      cases h' with
      | found hfirst' hread' holds' =>
          cases hfirst.unique hfirst'
          obtain rfl := Except.ok.inj (hread.symm.trans hread')
          exact ⟨holds.unique holds', rfl⟩
      | bare hfirst' hread' hbare =>
          cases hfirst.unique hfirst'
          obtain rfl := Except.ok.inj (hread.symm.trans hread')
          exact absurd hbare holds.not_isBare
      | absent hnone => exact absurd hnone hfirst.not_absent
  | bare hfirst hread hbare =>
      cases h' with
      | found hfirst' hread' holds =>
          cases hfirst.unique hfirst'
          obtain rfl := Except.ok.inj (hread.symm.trans hread')
          exact absurd hbare holds.not_isBare
      | bare => exact ⟨rfl, rfl⟩
      | absent => exact ⟨rfl, rfl⟩
  | absent hnone =>
      cases h' with
      | found hfirst => exact absurd hnone hfirst.not_absent
      | bare => exact ⟨rfl, rfl⟩
      | absent => exact ⟨rfl, rfl⟩

/-- The settings of a project are those of its configuration. -/
theorem settingsOf_eq_ok_iff :
    s.settingsOf project file = .ok t ↔ ∃ c origin base, s.HasConfig project file c origin ∧
      c.resolve = .ok base ∧ t = { base with origin := origin }.anchor project := by
  constructor
  · intro h
    cases file with
    | some p =>
        rw [settingsOf_file, Config.map_ofContent_eq_ok_iff] at h
        rcases h with ⟨text, hread, ⟨base, hgives, rfl⟩ | ⟨hbare, -⟩⟩
        · rcases Config.gives_iff.1 hgives with ⟨c, holds, hc⟩
          exact ⟨c, some p, base, .given hread holds, hc, rfl⟩
        · exact hbare.elim
    | none =>
        by_cases hnone : ∀ c ∈ Config.candidates project, s.kind? c.2 = none
        · rw [settingsOf_of_absent hnone] at h
          obtain rfl := Except.ok.inj h
          exact ⟨_, none, _, .absent hnone, rfl, rfl⟩
        · -- Something stands in one of the places, so that one is the first.
          obtain ⟨⟨source, p⟩, hfirst⟩ : ∃ d, s.IsFirst project d := by
            simp only [← find?_candidates_iff, ← Option.isSome_iff_exists, List.find?_isSome]
            simpa [Option.isSome_iff_ne_none] using hnone
          rw [settingsOf_of_isFirst hfirst, Config.map_ofContent_eq_ok_iff] at h
          rcases h with ⟨text, hread, ⟨base, hgives, rfl⟩ | ⟨hbare, rfl⟩⟩
          · rcases Config.gives_iff.1 hgives with ⟨c, holds, hc⟩
            exact ⟨c, some p, base, .found hfirst hread holds, hc, rfl⟩
          · exact ⟨_, none, _, .bare hfirst hread hbare, rfl, rfl⟩
  · rintro ⟨c, origin, base, hconfig, hc, rfl⟩
    cases hconfig with
    | given hread holds =>
        rw [settingsOf_file, Config.map_ofContent_eq_ok_iff]
        exact ⟨_, hread, .inl ⟨base, Config.gives_iff.2 ⟨c, holds, hc⟩, rfl⟩⟩
    | found hfirst hread holds =>
        rw [settingsOf_of_isFirst hfirst, Config.map_ofContent_eq_ok_iff]
        exact ⟨_, hread, .inl ⟨base, Config.gives_iff.2 ⟨c, holds, hc⟩, rfl⟩⟩
    | bare hfirst hread hbare =>
        rw [settingsOf_of_isFirst hfirst, Config.map_ofContent_eq_ok_iff]
        obtain rfl := Except.ok.inj hc
        exact ⟨_, hread, .inr ⟨hbare, rfl⟩⟩
    | absent hnone =>
        obtain rfl := Except.ok.inj hc
        exact settingsOf_of_absent hnone

/-- A configuration that cannot be used has a place, which is told with its defect. -/
theorem HasConfig.settingsOf_of_defect {d : Config.Defect} (h : s.HasConfig project file c origin)
    (hdefect : c.resolve = .error d) :
    ∃ source p, origin = some p ∧ s.settingsOf project file = .error (.invalid source p d) := by
  cases h with
  | given hread holds =>
      refine ⟨.ownFile, _, rfl, ?_⟩
      rw [settingsOf_file, hread, holds.ofContent_of_defect hdefect]
      rfl
  | @found source p _ _ hfirst hread holds =>
      refine ⟨source, p, rfl, ?_⟩
      rw [settingsOf_of_isFirst hfirst, hread, holds.ofContent_of_defect hdefect]
      rfl
  | bare => cases hdefect
  | absent => cases hdefect

end Store

/-! ## Options in a configuration -/

/-- The configuration with the options of a request in it. -/
def Request.edit (r : Request) (c : Config) : Config :=
  { c with
    root := r.root <|> c.root
    drop := some (c.drop.getD false || r.withDrop)
    maxDepth := r.maxDepth <|> c.maxDepth }

/-- Options on the settings of a configuration come to the same as the settings of the configuration
with the options in it. -/
theorem Request.apply_anchor (hroot : r.root ≠ some []) (hc : c.resolve = .ok base) :
    r.apply project ({ base with origin := origin }.anchor project) =
      (r.edit c).resolve.toOption.map fun u => { u with origin := origin }.anchor project := by
  rcases Config.resolve_eq_ok_iff.1 hc with ⟨hdepth, hname, f, hfilter, rfl⟩
  by_cases hzero : r.maxDepth = some 0
  · have hedit : (r.edit c).resolve = .error .zeroDepth := by simp [Config.resolve, edit, hzero]
    rw [apply, if_pos hzero, hedit]
    rfl
  · have hedit : (r.edit c).resolve =
        .ok ⟨(r.root <|> c.root).getD Config.defaultRoot, c.drop.getD false || r.withDrop,
          (r.maxDepth <|> c.maxDepth).getD Config.defaultMaxDepth, f, none⟩ := by
      refine Config.resolve_eq_ok_iff.2 ⟨?_, ?_, f, hfilter, rfl⟩
      · cases h : r.maxDepth <;> simp_all [edit]
      · cases h : r.root <;> simp_all [edit]
    rw [apply, if_neg hzero, hedit]
    cases r.root <;> cases r.maxDepth <;> rfl

/-! ## Options that are given -/

namespace CommandLine

theorem Flag.root_of_take {f : Flag} (h : f.take r = .ok r') : r'.root = r.root := by
  unfold take at h
  grind

theorem Flag.take_ne_run (r r' : Request) (f : Flag) : f.take r ≠ .error (.run r') := by
  unfold take
  grind

theorem Setting.root_of_take {o : Setting} {value : Text} (h : o.take r value = .ok r')
    (hr : r.root ≠ some []) : r'.root ≠ some [] := by
  unfold take at h
  grind

theorem Setting.take_ne_run (r r' : Request) (o : Setting) (value : Text) :
    o.take r value ≠ .error (.run r') := by
  unfold take
  grind

/-- Letters are for flags, and no flag is for a root. -/
theorem root_of_takeLetters {letters : List Char} (h : takeLetters r letters = .ok r') :
    r'.root = r.root := by
  fun_induction takeLetters r letters with
  | case1 r =>
      obtain rfl := Except.ok.inj h
      rfl
  | case2 r letter letters f _ ih =>
      rcases Config.bind_eq_ok_iff.1 h with ⟨r₁, htake, hrest⟩
      exact (ih r₁ hrest).trans (Flag.root_of_take htake)
  | case3 => cases h

theorem takeLetters_ne_run (r r' : Request) (letters : List Char) :
    takeLetters r letters ≠ .error (.run r') := by
  fun_induction takeLetters r letters with
  | case1 => simp
  | case2 r letter letters f _ ih =>
      cases htake : f.take r with
      | error end_ =>
          intro h
          exact Flag.take_ne_run r r' f (htake.trans h)
      | ok r₁ => exact ih r₁
  | case3 => simp

theorem root_of_parseFrom {arguments : List Text} (h : parseFrom r arguments = .run r')
    (hr : r.root ≠ some []) : r'.root ≠ some [] := by
  fun_induction parseFrom r arguments with
  -- Nothing is left to be taken.
  | case1 | case2 =>
      obtain rfl := CommandLine.run.inj h
      exact hr
  -- An option is taken, and others follow.
  | case5 r _ _ _ _ f _ r₁ htake _ ih =>
      exact ih h (Flag.root_of_take htake ▸ hr)
  | case8 r _ _ _ _ o _ v _ r₁ htake _ ih | case11 r _ _ _ _ o _ v _ _ r₁ htake _ ih =>
      exact ih h (Setting.root_of_take htake hr)
  | case14 r _ _ _ _ _ r₁ htake ih =>
      exact ih h (root_of_takeLetters htake ▸ hr)
  -- An option ends the reading.
  | case6 r _ _ _ _ f _ end_ htake =>
      subst h
      exact absurd htake (Flag.take_ne_run r r' f)
  | case9 r _ _ _ _ o _ v _ end_ htake | case12 r _ _ _ _ o _ v _ _ end_ htake =>
      subst h
      exact absurd htake (Setting.take_ne_run r r' o v)
  | case15 r _ _ _ _ _ end_ htake =>
      subst h
      exact absurd htake (takeLetters_ne_run r r' _)
  | case3 | case4 | case7 | case10 | case13 | case16 => cases h

/-- A root that is asked for has a name. -/
theorem root_ne_nil_of_parse {arguments : List Text} (h : parse arguments = .run r) :
    r.root ≠ some [] :=
  root_of_parseFrom h (by simp [Request.empty])

end CommandLine

theorem Path.isAbsolute_join {q : Path} (h : project.isAbsolute = true) :
    (Path.join project q).isAbsolute = true := by
  unfold join
  by_cases hq : q.isAbsolute = true
  · rw [if_pos hq]
    exact hq
  · rw [if_neg hq]
    unfold isAbsolute at h ⊢
    cases project with
    | nil => simp at h
    | cons first rest => split <;> exact h

/-! ## Sessions -/

/-- What a session shows of a tree that it converts. -/
def Report.ofTree (log : List Log.Line) : Except DiscoveryFault Conversion → Report
  | .error f => .ofFatal log f.messages
  | .ok c => .ofConversion log c

namespace Store

variable {s : Store} {t t' : Settings} {directives : Option Text} {arguments : List Text}

/-- A request comes to a tree that is converted by some settings. -/
def Reaches (s : Store) (project : Path) (r : Request) (t : Settings) : Prop :=
  ∃ base, s.settingsOf project r.config = .ok base ∧ r.apply project base = some t

/-- The options have the effect that they would have in the configuration. -/
theorem reaches_iff (hroot : r.root ≠ some []) :
    s.Reaches project r t ↔ ∃ c origin base u, s.HasConfig project r.config c origin ∧
      c.resolve = .ok base ∧ (r.edit c).resolve = .ok u ∧
      t = { u with origin := origin }.anchor project := by
  unfold Reaches
  simp only [settingsOf_eq_ok_iff]
  constructor
  · rintro ⟨-, ⟨c, origin, base, hconfig, hc, rfl⟩, happly⟩
    rw [Request.apply_anchor hroot hc] at happly
    cases hedit : (r.edit c).resolve with
    | error d =>
        rw [hedit] at happly
        cases happly
    | ok u =>
        rw [hedit] at happly
        exact ⟨c, origin, base, u, hconfig, hc, hedit, (Option.some.inj happly).symm⟩
  · rintro ⟨c, origin, base, u, hconfig, hc, hedit, rfl⟩
    refine ⟨_, ⟨c, origin, base, hconfig, hc, rfl⟩, ?_⟩
    rw [Request.apply_anchor hroot hc, hedit]
    rfl

theorem run_session_of_reaches (hparse : CommandLine.parse arguments = .run r)
    (h : s.Reaches project r t) :
    ∃ log, s.run (Session.run project directives arguments) =
      ((Report.ofTree log (s.run (convertTree t)).1).filtered (r.logFilter directives),
        (s.run (convertTree t)).2) := by
  rcases h with ⟨base, hload, happly⟩
  refine ⟨base.log, ?_⟩
  rw [run_session_of_request hparse, Session.convert, run_bind, run_loadSettings, hload]
  simp only [happly, run_bind]
  cases (s.run (convertTree t)).1 <;> rfl

theorem run_session_of_load_fault {f : LoadFault} (hparse : CommandLine.parse arguments = .run r)
    (h : s.settingsOf project r.config = .error f) :
    s.run (Session.run project directives arguments) =
      (.ofFatal [] ("failed to load configuration".toList :: f.messages), s) := by
  rw [run_session_of_request hparse, Session.convert, run_bind, run_loadSettings, h]
  rfl

theorem Reaches.filter_eq (h : s.Reaches project r t) (hsame : r'.config = r.config)
    (h' : s.Reaches project r' t') : t'.filter = t.filter := by
  have hbase : ∀ {r base t}, Request.apply r project base = some t → t.filter = base.filter := by
    intro r base t happly
    unfold Request.apply at happly
    grind
  rcases h with ⟨base, hload, happly⟩
  rcases h' with ⟨base', hload', happly'⟩
  rw [hsame, hload] at hload'
  obtain rfl := Except.ok.inj hload'
  rw [hbase happly, hbase happly']

/-- A session converts its tree by the settings that the configuration of the project would stand
for with the options in it, if both can be used; so these are the settings of any project in the
same place that has the changed configuration.  The root is absolute then, some level is looked at,
and what is taken is up to the configuration alone.  A configuration that cannot be used ends the
session, whatever options are given. -/
theorem run_options (s : Store) (project : Path) (directives : Option Text) (arguments : List Text)
    (r : Request) (hproject : Path.isAbsolute project = true)
    (hparse : CommandLine.parse arguments = .run r) :
    (∀ t, s.Reaches project r t →
      ∃ log, s.run (Session.run project directives arguments) =
        ((Report.ofTree log (s.run (convertTree t)).1).filtered (r.logFilter directives),
          (s.run (convertTree t)).2)) ∧
    (∀ t, s.Reaches project r t ↔ ∃ c origin base u, s.HasConfig project r.config c origin ∧
      c.resolve = .ok base ∧ (r.edit c).resolve = .ok u ∧
      t = { u with origin := origin }.anchor project) ∧
    (∀ t c origin, s.Reaches project r t → s.HasConfig project r.config c origin →
      (∀ other file place, HasConfig other project file (r.edit c) place →
        other.settingsOf project file = .ok { t with origin := place }) ∧
      Path.isAbsolute t.root = true ∧ 1 ≤ t.maxDepth ∧ c.filter = .ok t.filter) ∧
    (∀ t t' r', s.Reaches project r t → r'.config = r.config → s.Reaches project r' t' →
      t'.filter = t.filter) ∧
    ∀ c origin d, s.HasConfig project r.config c origin → c.resolve = .error d →
      (∀ t, ¬ s.Reaches project r t) ∧
        ∃ source p, origin = some p ∧ s.run (Session.run project directives arguments) =
          (.ofFatal [] ("failed to load configuration".toList ::
            (LoadFault.invalid source p d).messages), s) := by
  have hroot := CommandLine.root_ne_nil_of_parse hparse
  refine ⟨fun t => run_session_of_reaches hparse, fun t => reaches_iff hroot,
    fun t c origin hreaches hconfig => ?_, fun t t' r' => Reaches.filter_eq,
    fun c origin d hconfig hdefect => ?_⟩
  · rcases (reaches_iff hroot).1 hreaches with ⟨c', origin', base, u, hconfig', hc, hedit, rfl⟩
    obtain ⟨rfl, rfl⟩ := hconfig.unique hconfig'
    rcases Config.resolve_eq_ok_iff.1 hedit with ⟨hdepth, -, f, hfilter, rfl⟩
    refine ⟨fun other file place hother => ?_, Path.isAbsolute_join hproject, ?_, hfilter⟩
    · exact settingsOf_eq_ok_iff.2 ⟨_, place, _, hother, hedit, rfl⟩
    · change 1 ≤ (r.edit c).maxDepth.getD Config.defaultMaxDepth
      cases hm : (r.edit c).maxDepth with
      | none => decide
      | some n => exact Nat.one_le_iff_ne_zero.2 fun hn => hdepth (hn ▸ hm)
  · -- The configuration is looked at by itself before any option is.
    rcases hconfig.settingsOf_of_defect hdefect with ⟨source, p, horigin, hload⟩
    refine ⟨fun t ⟨base, hload', _⟩ => ?_, source, p, horigin,
      run_session_of_load_fault hparse hload⟩
    rw [hload] at hload'
    cases hload'

/-- A project whose configuration has a depth of zero, in a file that is not looked for. -/
def zeroDepthSample : Store := ⟨[(["p"], .directory), (["p", "own.json"],
  .file (Utf8.encode "\x7b\"root\": \"a\", \"max_depth\": 0\x7d"))]⟩

/-- Options for a project, of which the last two are for the file with a depth of zero. -/
def overridingArguments : List Text :=
  ["--max-depth", "3", "-d", "--root=b", "--config", "own.json"]

/-- Without the file, the options take the place of what a project has by itself.  With it, the
depth that is asked for does not mend the one that the file has. -/
theorem run_options_overriding :
    zeroDepthSample.Reaches "/p" ⟨true, false, some "b", none, some 3⟩
        { Settings.default with root := "/p/b", drop := true, maxDepth := 3 } ∧
      (∀ t, ¬ zeroDepthSample.Reaches "/p" ⟨true, false, some "b", some "own.json", some 3⟩ t) ∧
      (zeroDepthSample.run (Session.run "/p" none overridingArguments)).1.exitCode = 1 := by
  have hproject : Path.isAbsolute "/p" = true := by decide
  have habsent : ∀ c ∈ Config.candidates "/p", zeroDepthSample.kind? c.2 = none := by
    decide +kernel
  have hdefault := run_options zeroDepthSample "/p" none (overridingArguments.take 4)
    ⟨true, false, some "b", none, some 3⟩ hproject (by decide +kernel)
  have hgiven := run_options zeroDepthSample "/p" none overridingArguments
    ⟨true, false, some "b", some "own.json", some 3⟩ hproject (by decide +kernel)
  have hread : zeroDepthSample.read (Path.join "/p" "own.json") =
      .ok "\x7b\"root\": \"a\", \"max_depth\": 0\x7d" := by decide +kernel
  have hholds : Config.ofText "\x7b\"root\": \"a\", \"max_depth\": 0\x7d" =
      .ok ⟨some "a", none, some 0, [], []⟩ := by decide +kernel
  have hconfig := HasConfig.given hread hholds
  rcases hgiven.2.2.2.2 _ _ .zeroDepth hconfig rfl with ⟨hnone, source, p, -, hrun⟩
  refine ⟨?_, hnone, by rw [hrun]; rfl⟩
  exact (hdefault.2.1 _).2 ⟨.empty, none, _, _, .absent habsent, rfl, rfl, by decide +kernel⟩

end Store

end ProcedureGen
