import ProcedureGen.Config.Loading
import ProcedureGen.Proofs.Store.Run

/-!
# Which configuration counts

A project may keep its configuration in several places.  The first one where something stands
decides alone, whether or not it can be used.

* `Config.candidates`: the places, the first one first;
* `Config.Gives`, `Config.IsBare`: what a text in such a place may hold;
* `Store.IsFirst`: the place that decides;
* `Store.run_find`, `Store.run_load`: what is loaded, and that nothing is changed;
* `Store.load_precedence`: what the settings of a project depend on, and when there are any.
-/

namespace ProcedureGen

namespace Config

variable {p : Path} {t : Text} {source : ConfigSource} {r : Settings}

/-- The places where a project may keep its configuration. -/
def candidates (project : Path) : List (ConfigSource × Path) :=
  (fileNames.map fun name => (.ownFile, Path.join project name)) ++
    [(.manifest, Path.join project manifestName)]

/-- A text holds a configuration that stands for some settings. -/
def Gives : ConfigSource → Text → Settings → Prop
  | .ownFile, t, s => ∃ c, ofText t = .ok c ∧ c.resolve = .ok s
  | .manifest, t, s => ∃ v w c, Json.Value.ofText t = .ok v ∧ v.get? manifestKey = some w ∧
    ofValue w = .ok c ∧ c.resolve = .ok s

/-- A text is right in its place without a configuration, as a manifest may be. -/
def IsBare : ConfigSource → Text → Prop
  | .ownFile, _ => False
  | .manifest, t => ∃ v, Json.Value.ofText t = .ok v ∧ v.get? manifestKey = none

/-- The configuration in a place, by what is read there. -/
def ofContent (source : ConfigSource) (p : Path) :
    Except AccessFault Text → Except LoadFault (Option LoadedConfig)
  | .error fault => .error (.unreadable source p fault)
  | .ok t => match source with
    | .ownFile => (ofFile p t).map some
    | .manifest => ofManifest p t

theorem map_eq_ok_iff {α β ε : Type} {f : α → β} {x : Except ε α} {b : β} :
    x.map f = .ok b ↔ ∃ a, x = .ok a ∧ f a = b := by
  cases x <;> simp [Except.map]

theorem bind_eq_ok_iff {α β ε : Type} {x : Except ε α} {f : α → Except ε β} {b : β} :
    (x >>= f) = .ok b ↔ ∃ a, x = .ok a ∧ f a = .ok b := by
  cases x <;> simp [bind, Except.bind]

theorem check_eq_ok_iff {c : Config} {l : LoadedConfig} :
    check source p c = .ok l ↔
      ∃ s, c.resolve = .ok s ∧ l = ⟨c, p, { s with origin := some p }⟩ := by
  unfold check
  cases c.resolve <;> simp [eq_comm]

theorem ofFile_eq_ok_iff {l : LoadedConfig} :
    ofFile p t = .ok l ↔
      ∃ c s, ofText t = .ok c ∧ c.resolve = .ok s ∧
        l = ⟨c, p, { s with origin := some p }⟩ := by
  unfold ofFile
  cases ofText t <;> simp [check_eq_ok_iff]

theorem ofManifest_eq_ok_iff {found : Option LoadedConfig} :
    ofManifest p t = .ok found ↔
      ∃ v, Json.Value.ofText t = .ok v ∧
        (v.get? manifestKey = none ∧ found = none ∨
          ∃ w c s, v.get? manifestKey = some w ∧ ofValue w = .ok c ∧ c.resolve = .ok s ∧
            found = some ⟨c, p, { s with origin := some p }⟩) := by
  unfold ofManifest
  cases Json.Value.ofText t with
  | error f => simp
  | ok v =>
      cases hkey : v.get? manifestKey with
      | none => simp [hkey, eq_comm]
      | some w =>
          cases hw : ofValue w with
          | error misfit => simp [hkey, hw]
          | ok c =>
              simp only [Except.ok.injEq, exists_eq_left', hkey, hw, Option.some.injEq,
                reduceCtorEq, false_and, false_or, map_eq_ok_iff, check_eq_ok_iff]
              constructor
              · rintro ⟨l, ⟨s, hs, rfl⟩, rfl⟩
                exact ⟨w, c, s, rfl, hw, hs, rfl⟩
              · rintro ⟨_, _, s, rfl, hc, hs, rfl⟩
                obtain rfl := Except.ok.inj (hw.symm.trans hc)
                exact ⟨_, ⟨s, hs, rfl⟩, rfl⟩

/-- The settings that a project has by what was found for it. -/
def settingsOf (project : Path) : Option LoadedConfig → Settings
  | some c => c.settings.anchor project
  | none => Settings.default.anchor project

/-- What is read in a place gives settings if it holds a configuration that stands for them, or
need not hold one. -/
theorem map_ofContent_eq_ok_iff {project : Path} {content : Except AccessFault Text} :
    (ofContent source p content).map (settingsOf project) = .ok r ↔
      ∃ t, content = .ok t ∧
        ((∃ s, Gives source t s ∧ r = { s with origin := some p }.anchor project) ∨
          IsBare source t ∧ r = Settings.default.anchor project) := by
  cases content with
  | error fault => simp [ofContent, Except.map]
  | ok t =>
      cases source with
      | ownFile =>
          simp only [ofContent, map_eq_ok_iff, ofFile_eq_ok_iff, Gives, IsBare, Except.ok.injEq,
            exists_eq_left']
          constructor
          · rintro ⟨-, ⟨l, ⟨c, s, hc, hs, rfl⟩, rfl⟩, rfl⟩
            exact .inl ⟨s, ⟨c, hc, hs⟩, rfl⟩
          · rintro (⟨s, ⟨c, hc, hs⟩, rfl⟩ | ⟨hno, -⟩)
            · exact ⟨_, ⟨_, ⟨c, s, hc, hs, rfl⟩, rfl⟩, rfl⟩
            · exact hno.elim
      | manifest =>
          simp only [ofContent, map_eq_ok_iff, ofManifest_eq_ok_iff, Gives, IsBare,
            Except.ok.injEq, exists_eq_left']
          constructor
          · rintro ⟨-, ⟨v, hv, ⟨hkey, rfl⟩ | ⟨w, c, s, hkey, hw, hs, rfl⟩⟩, rfl⟩
            · exact .inr ⟨⟨v, hv, hkey⟩, rfl⟩
            · exact .inl ⟨s, ⟨v, w, c, hv, hkey, hw, hs⟩, rfl⟩
          · rintro (⟨s, ⟨v, w, c, hv, hkey, hw, hs⟩, rfl⟩ | ⟨⟨v, hv, hkey⟩, rfl⟩)
            · exact ⟨_, ⟨v, hv, .inr ⟨w, c, s, hkey, hw, hs, rfl⟩⟩, rfl⟩
            · exact ⟨none, ⟨v, hv, .inl ⟨hkey, rfl⟩⟩, rfl⟩

end Config

namespace Store

variable {s t : Store} {project p : Path}

/-- The place that decides: something stands there, links followed, and nothing in the places
before it. -/
def IsFirst (s : Store) (project : Path) (c : ConfigSource × Path) : Prop :=
  ∃ before after, Config.candidates project = before ++ c :: after ∧ s.kind? c.2 ≠ none ∧
    ∀ d ∈ before, s.kind? d.2 = none

/-- The settings of a project in a state. -/
def settingsOf (s : Store) (project : Path) (file : Option Path) : Except LoadFault Settings :=
  (s.run (Settings.load project file)).1

theorem find?_candidates_iff {c : ConfigSource × Path} :
    (Config.candidates project).find? (fun d => (s.kind? d.2).isSome) = some c ↔
      s.IsFirst project c := by
  unfold IsFirst
  rw [List.find?_eq_some_iff_append]
  simp only [Option.isSome_iff_ne_none, Bool.not_eq_true', Option.isSome_eq_false_iff,
    Option.isNone_iff_eq_none, ne_eq]
  constructor
  · rintro ⟨hc, before, after, hall, hbefore⟩
    exact ⟨before, after, hall, hc, hbefore⟩
  · rintro ⟨before, after, hall, hc, hbefore⟩
    exact ⟨hc, before, after, hall, hbefore⟩

/-! ## Loading -/

theorem run_firstFile (s : Store) (project : Path) (names : List Text) :
    s.run (Config.firstFile project names) =
      ((names.map (Path.join project)).find? fun p => (s.kind? p).isSome, s) := by
  induction names with
  | nil => rfl
  | cons name names ih =>
      rw [Config.firstFile, run_bind, run_kind?]
      cases hkind : s.kind? (Path.join project name) with
      | none => simp [hkind, ih]
      | some k => simp [hkind]

theorem run_load (s : Store) (base p : Path) :
    s.run (Config.load base p) =
      (match s.read (Path.join base p) with
        | .ok text => Config.ofFile p text
        | .error fault => .error (.unreadable .ownFile p fault), s) := by
  rw [Config.load, run_bind, run_read]
  cases s.read (Path.join base p) <;> rfl

/-- A file of its own that was found is read where it was found. -/
theorem run_load_found (s : Store) (p : Path) :
    s.run (do return (← Config.load [] p).map some) =
      (Config.ofContent .ownFile p (s.read p), s) := by
  have hjoin : Path.join [] p = p := by simp [Path.join]
  rw [run_bind, run_load, hjoin, run_pure]
  cases s.read p <;> rfl

theorem run_loadManifest (s : Store) (p : Path) :
    s.run (Config.loadManifest p) = (Config.ofContent .manifest p (s.read p), s) := by
  rw [Config.loadManifest, run_bind, run_read]
  cases s.read p <;> rfl

/-- The place that decides is read, and no other. -/
theorem run_find (s : Store) (project : Path) :
    s.run (Config.find project) =
      (match (Config.candidates project).find? fun d => (s.kind? d.2).isSome with
        | some (source, p) => Config.ofContent source p (s.read p)
        | none => .ok none, s) := by
  unfold Config.candidates
  rw [Config.find, run_bind, run_firstFile, List.find?_append, List.find?_map, List.find?_map]
  simp only [Function.comp_def]
  cases Config.fileNames.find? fun name => (s.kind? (Path.join project name)).isSome with
  | some name => exact run_load_found s (Path.join project name)
  | none =>
      simp only [Option.map_none, Option.none_or, List.map_cons, List.map_nil, List.find?_cons,
        List.find?_nil, run_bind, run_firstFile]
      cases s.kind? (Path.join project Config.manifestName) with
      | some k => exact run_loadManifest s (Path.join project Config.manifestName)
      | none => rfl

/-- Loading changes nothing. -/
theorem run_loadSettings (s : Store) (project : Path) (file : Option Path) :
    s.run (Settings.load project file) = (s.settingsOf project file, s) := by
  unfold settingsOf
  cases file with
  | some p => rw [Settings.load, run_bind, run_load, run_pure]
  | none => rw [Settings.load, run_bind, run_find, run_pure]

/-- A given file decides, -/
theorem settingsOf_file (s : Store) (project p : Path) :
    s.settingsOf project (some p) =
      (Config.ofContent .ownFile p (s.read (Path.join project p))).map
        (Config.settingsOf project) := by
  rw [settingsOf, Settings.load, run_bind, run_load, run_pure]
  cases s.read (Path.join project p) with
  | error fault => rfl
  | ok text =>
      cases h : Config.ofFile p text <;>
        simp [Config.ofContent, h, Except.map, Config.settingsOf]

theorem settingsOf_none (s : Store) (project : Path) :
    s.settingsOf project none = (s.run (Config.find project)).1.map (Config.settingsOf project) := by
  rw [settingsOf, Settings.load, run_bind, run_find, run_pure]
  rfl

/-- or else the first place where something stands, -/
theorem settingsOf_of_isFirst {c : ConfigSource × Path} (h : s.IsFirst project c) :
    s.settingsOf project none =
      (Config.ofContent c.1 c.2 (s.read c.2)).map (Config.settingsOf project) := by
  rw [settingsOf_none, run_find, find?_candidates_iff.2 h]

/-- or else the project has no configuration. -/
theorem settingsOf_of_absent (h : ∀ c ∈ Config.candidates project, s.kind? c.2 = none) :
    s.settingsOf project none = .ok (Settings.default.anchor project) := by
  have hfind : (Config.candidates project).find? (fun d => (s.kind? d.2).isSome) = none := by
    simpa [List.find?_eq_none] using h
  rw [settingsOf_none, run_find, hfind]
  rfl

/-! ## Precedence -/

/-- A link to nothing stands nowhere. -/
theorem kind?_of_dangling (h : ∀ l, s.locate true p = .ok l → s.entry? l = none) :
    s.kind? p = none := by
  unfold kind?
  cases hl : s.locate true p with
  | error fault => rfl
  | ok l => simp [h l hl]

/-- The settings of a project depend on one file only: a given one, or the first of the places where
something stands, whatever stands in later places.  There are settings only if that file can be read
and used; a manifest may also be without a configuration.  A project without such a file has the
default settings, as have those with such a manifest, and they come from no file. -/
theorem load_precedence (project : Path) :
    (∀ (s t : Store) (p : Path), s.read (Path.join project p) = t.read (Path.join project p) →
      s.settingsOf project (some p) = t.settingsOf project (some p)) ∧
    (∀ (s : Store) (p : Path) (r : Settings), s.settingsOf project (some p) = .ok r ↔
      ∃ text base, s.read (Path.join project p) = .ok text ∧ Config.Gives .ownFile text base ∧
        r = { base with origin := some p }.anchor project) ∧
    (∀ (s t : Store) (c : ConfigSource × Path), s.IsFirst project c → t.IsFirst project c →
      s.read c.2 = t.read c.2 → s.settingsOf project none = t.settingsOf project none) ∧
    (∀ (s : Store) (source : ConfigSource) (p : Path) (r : Settings),
      s.IsFirst project (source, p) →
      (s.settingsOf project none = .ok r ↔
        ∃ text, s.read p = .ok text ∧
          ((∃ base, Config.Gives source text base ∧
              r = { base with origin := some p }.anchor project) ∨
            Config.IsBare source text ∧ r = Settings.default.anchor project))) ∧
    (∀ s : Store, (∀ c ∈ Config.candidates project, s.kind? c.2 = none) →
      s.settingsOf project none = .ok (Settings.default.anchor project)) ∧
    (∀ (s : Store) (p : Path), (∀ l, s.locate true p = .ok l → s.entry? l = none) →
      s.kind? p = none) ∧
    (Settings.default.anchor project).origin = none := by
  refine ⟨fun s t p hread => ?_, fun s p r => ?_, fun s t c hs ht hread => ?_,
    fun s source p r hs => ?_, fun s => settingsOf_of_absent, fun s p => kind?_of_dangling, rfl⟩
  · rw [settingsOf_file, settingsOf_file, hread]
  · rw [settingsOf_file, Config.map_ofContent_eq_ok_iff]
    simp only [Config.IsBare, false_and, or_false, exists_and_left]
  · rw [settingsOf_of_isFirst hs, settingsOf_of_isFirst ht, hread]
  · rw [settingsOf_of_isFirst hs, Config.map_ofContent_eq_ok_iff]

/-- A project with a link to nothing in the first place, a configuration that cannot be used in the
second, and one that could be used in the third. -/
def maskedSample : Store := ⟨[(["p"], .directory), (["p", ".plv8genrc.json"], .link "gone"),
  (["p", "plv8gen.config.json"], .file (Utf8.encode "\x7b\"max_depth\": 0\x7d")),
  (["p", "package.json"], .file (Utf8.encode "\x7b\"plv8gen\": \x7b\"drop\": true\x7d\x7d"))]⟩

/-- The same project without the first and the third. -/
def unmaskedSample : Store :=
  (maskedSample.erase ["p", ".plv8genrc.json"]).erase ["p", "package.json"]

theorem load_precedence_maskedSample :
    maskedSample.IsFirst "/p" (.ownFile, "/p/plv8gen.config.json") ∧
      unmaskedSample.IsFirst "/p" (.ownFile, "/p/plv8gen.config.json") ∧
      maskedSample.read "/p/plv8gen.config.json" = unmaskedSample.read "/p/plv8gen.config.json" ∧
      maskedSample.settingsOf "/p" none = unmaskedSample.settingsOf "/p" none ∧
      maskedSample.settingsOf "/p" none =
        .error (.invalid .ownFile "/p/plv8gen.config.json" .zeroDepth) := by
  have hplaces : Config.candidates "/p" =
      [(ConfigSource.ownFile, "/p/.plv8genrc.json".toList)] ++
        (ConfigSource.ownFile, "/p/plv8gen.config.json".toList) ::
          [(ConfigSource.manifest, "/p/package.json".toList)] := by decide +kernel
  have hmasked : maskedSample.IsFirst "/p" (.ownFile, "/p/plv8gen.config.json") :=
    ⟨_, _, hplaces, by decide +kernel, by decide +kernel⟩
  have hunmasked : unmaskedSample.IsFirst "/p" (.ownFile, "/p/plv8gen.config.json") :=
    ⟨_, _, hplaces, by decide +kernel, by decide +kernel⟩
  have hread : maskedSample.read "/p/plv8gen.config.json" =
      unmaskedSample.read "/p/plv8gen.config.json" := by decide +kernel
  have hsame := (load_precedence "/p").2.2.1 _ _ _ hmasked hunmasked hread
  exact ⟨hmasked, hunmasked, hread, hsame, by decide +kernel⟩

end Store

end ProcedureGen
