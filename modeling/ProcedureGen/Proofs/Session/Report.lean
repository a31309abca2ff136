import ProcedureGen.Proofs.Conversion.Account
import ProcedureGen.Proofs.Session.Run

/-!
# The report of a session

What a session tells of its units while it takes them, what it tells of them at the end, its exit
code and the files that it writes all say the same.

* `Attempt.progress`: what is told of a unit when it is taken;
* `Log.Filter.shows_upTo`, `Report.log_filtered`: which lines are shown without further directives;
* `Store.UsesConfig`: a file from which a project has its configuration;
* `Store.run_report`: the report as a whole;
* `Store.run_report_uncountedScratch`: a file that is written and not counted.
-/

namespace ProcedureGen

/-! ## Lines -/

namespace Log.Filter

/-- Without directives for targets, the level decides. -/
@[simp] theorem shows_upTo (l : Level) (line : Line) :
    (upTo l).shows line = decide (line.level.rank ≤ l.rank) := by
  simp [shows, directive?, upTo]

end Log.Filter

namespace Attempt

/-- What is told of a unit when it is taken: that it is, and why it has failed. -/
def progress (a : Attempt) : List Log.Line :=
  ⟨.conversion, .info, "Converting " ++ a.unit.display⟩ ::
    match a.outcome with
    | .ok _ => []
    | .error f => [⟨.conversion, .error, f.message⟩]

theorem filter_log (a : Attempt) : a.log.filter (Log.Filter.upTo .info).shows = a.progress := by
  unfold log progress
  cases a.definition <;> cases a.outcome <;>
    simp [definitionLine, Log.Level.rank]

/-- The failures are told in the order of the units. -/
theorem errors_progress (as : List Attempt) :
    ((as.flatMap progress).filter fun line => line.level = .error).map Log.Line.message =
      (Summary.ofAttempts as).failed.map fun f => f.2.message := by
  unfold Summary.ofAttempts
  induction as with
  | nil => rfl
  | cons a as ih =>
      simp only [List.flatMap_cons, List.filter_append, List.map_append, List.filterMap_cons,
        failure?] at ih ⊢
      rw [ih]
      cases hout : a.outcome <;> simp [progress, hout]

end Attempt

theorem Settings.log_eq (c : Settings) :
    c.log = c.origin.toList.map fun p => ⟨.commandLine, .info, "Using config: " ++ p⟩ := by
  unfold log
  cases c.origin <;> rfl

theorem Summary.level_of_mem_log {summary : Summary} {line : Log.Line}
    (h : line ∈ summary.log) : line.level = .info ∨ line.level = .warn := by
  unfold log at h
  rcases List.mem_cons.1 h with rfl | h
  · exact .inl rfl
  · split at h
    · cases h
    · rcases List.mem_cons.1 h with rfl | h
      · exact .inr rfl
      · rcases List.mem_map.1 h with ⟨f, -, rfl⟩
        exact .inr rfl

/-- All is shown but for what is told of definitions and of modules that are not taken. -/
theorem Report.log_filtered (base : Settings) (d : Discovery) (as : List Attempt) :
    ((ofConversion base.log ⟨d, as⟩).filtered (.upTo .info)).log =
      base.log ++ as.flatMap Attempt.progress ++ (Summary.ofAttempts as).log := by
  have hbase : base.log.filter (Log.Filter.upTo .info).shows = base.log := by
    unfold Settings.log
    cases base.origin <;> simp [Log.Level.rank]
  have hdiscovery : d.log.filter (Log.Filter.upTo .info).shows = [] := by
    simp [Discovery.log, Log.Level.rank]
  have hsummary : (Summary.ofAttempts as).log.filter (Log.Filter.upTo .info).shows =
      (Summary.ofAttempts as).log := by
    refine List.filter_eq_self.2 fun line hline => ?_
    rcases Summary.level_of_mem_log hline with hlevel | hlevel <;> simp [hlevel, Log.Level.rank]
  simp only [filtered, ofConversion, Conversion.log, Conversion.summary, List.filter_append,
    hbase, hdiscovery, hsummary, List.filter_flatMap, Attempt.filter_log, List.nil_append]

theorem Request.logFilter_quiet {r : Request} (h : r.isVerbose = false) :
    r.logFilter none = .upTo .info := by
  simp [logFilter, h]

namespace Store

variable {s t : Store} {project p : Path} {file : Option Path} {arguments : List Text}
  {r : Request} {base c : Settings}

/-! ## The configuration -/

/-- A project has its configuration from a file: it is given, or it is in the first place where
something stands and holds a configuration. -/
def UsesConfig (s : Store) (project : Path) (file : Option Path) (p : Path) : Prop :=
  file = some p ∨ file = none ∧ ∃ source text base, s.IsFirst project (source, p) ∧
    s.read p = .ok text ∧ Config.Gives source text base

theorem not_gives_of_isBare {source : ConfigSource} {text : Text}
    (h : Config.IsBare source text) (base : Settings) : ¬ Config.Gives source text base := by
  cases source with
  | ownFile => exact h.elim
  | manifest =>
      rcases h with ⟨v, hv, hkey⟩
      rintro ⟨v', w, c, hv', hkey', -⟩
      obtain rfl := Except.ok.inj (hv.symm.trans hv')
      rw [hkey] at hkey'
      cases hkey'

/-- The settings name the file from which they are. -/
theorem origin_eq_some_iff (h : s.settingsOf project file = .ok base) :
    base.origin = some p ↔ s.UsesConfig project file p := by
  unfold UsesConfig
  cases file with
  | some q =>
      rw [settingsOf_file, Config.map_ofContent_eq_ok_iff] at h
      rcases h with ⟨text, -, ⟨given, -, rfl⟩ | ⟨hbare, -⟩⟩
      · simp [Settings.anchor]
      · exact hbare.elim
  | none =>
      simp only [reduceCtorEq, true_and, false_or]
      cases hfind : (Config.candidates project).find? fun d => (s.kind? d.2).isSome with
      | none =>
          rw [settingsOf_of_absent (by simpa [List.find?_eq_none] using hfind)] at h
          obtain rfl := Except.ok.inj h
          refine ⟨fun horigin => (by cases horigin), ?_⟩
          rintro ⟨source, text, given, hfirst, -⟩
          rw [find?_candidates_iff.2 hfirst] at hfind
          cases hfind
      | some place =>
          have hfirst := find?_candidates_iff.1 hfind
          rw [settingsOf_of_isFirst hfirst, Config.map_ofContent_eq_ok_iff] at h
          -- No other place is the first one, so what is read there is the text in question.
          have honly : ∀ {source q}, s.IsFirst project (source, q) → (source, q) = place := by
            intro source q hq
            exact Option.some.inj ((find?_candidates_iff.2 hq).symm.trans hfind)
          rcases h with ⟨text, hread, ⟨given, hgives, rfl⟩ | ⟨hbare, rfl⟩⟩
          · constructor
            · intro horigin
              obtain rfl : place.2 = p := Option.some.inj horigin
              exact ⟨place.1, text, given, hfirst, hread, hgives⟩
            · rintro ⟨source, text', given', hq, -⟩
              obtain rfl := honly hq
              rfl
          · refine ⟨fun horigin => (by cases horigin), ?_⟩
            rintro ⟨source, text', given', hq, hread', hgives⟩
            obtain rfl := honly hq
            obtain rfl := Except.ok.inj (hread.symm.trans hread')
            exact absurd hgives (not_gives_of_isBare hbare given')

/-! ## The whole report -/

/-- A session that is not fatal tells, unless it is asked for more or less, from which file it has
its configuration, if from any, then each unit that it takes and why it fails, then how many have
been converted, and, if some have not, how many and which.  These accounts agree with each other and
with the exit code.  They agree with the files that are written if no link has the name of a scratch
file: each unit that counts has its statement at a place of its own, and nothing else with the name
of a statement has changed. -/
theorem run_report (s : Store) (project : Path) (arguments : List Text) (r : Request)
    (report : Report) (t : Store) (hparse : CommandLine.parse arguments = .run r)
    (hquiet : r.isVerbose = false)
    (hrun : s.run (Session.run project none arguments) = (report, t))
    (hfatal : report.fatal = none) :
    ∃ base c d attempts converted failed, s.Begins project r base c d ∧
      s.run (convertAll c.drop d.units) = (attempts, t) ∧ attempts.map Attempt.unit = d.units ∧
      converted = attempts.filterMap Attempt.path? ∧
      failed = attempts.filterMap Attempt.failure? ∧
      (∀ p, base.origin = some p ↔ s.UsesConfig project r.config p) ∧
      report.log =
        (base.origin.toList.map fun p => ⟨.commandLine, .info, "Using config: " ++ p⟩) ++
          attempts.flatMap Attempt.progress ++
          ⟨.commandLine, .info, "Converted " ++ Text.ofNat converted.length ++ " function(s)"⟩ ::
            (if failed = [] then [] else
              ⟨.commandLine, .warn,
                "Skipped " ++ Text.ofNat failed.length ++ " function(s) due to errors:"⟩ ::
              failed.map fun f =>
                ⟨.commandLine, .warn, "  " ++ f.1.stem ++ ": " ++ f.2.message⟩) ∧
      ((attempts.flatMap Attempt.progress).filter fun line => line.level = .error).map
          Log.Line.message = (failed.map fun f => f.2.message) ∧
      converted.length + failed.length = d.units.length ∧
      report.exitCode = (if failed = [] then 0 else 1) ∧
      (s.WellFormed → (∀ u ∈ d.units, s.ownKind u.scratchPath ≠ .ok .other) →
        ∃ places : List Location, places.Nodup ∧ places.length = converted.length ∧
          (∀ l ∈ places, ∃ a ∈ attempts, ∃ p definition, a.outcome = .ok p ∧
            a.definition = .ok definition ∧ s.locate false p = .ok l ∧
            t.entry? l = some (.file (Utf8.encode (definition.render c.drop)))) ∧
          ∀ l, IsStatementPlace l → l ∉ places → t.entry? l = s.entry? l) := by
  have hgoes : ¬ s.Stops project r := fun hstops =>
    (fatal_session_iff hrun).2 ⟨r, hparse, hstops⟩ hfatal
  rcases (stops_or_begins s project r).resolve_left hgoes with ⟨base, c, d, hbegins⟩
  obtain ⟨attempts, t', hall⟩ : ∃ attempts t', s.run (convertAll c.drop d.units) = (attempts, t') :=
    ⟨_, _, rfl⟩
  rw [run_session_of_begins hparse hbegins, hall, r.logFilter_quiet hquiet] at hrun
  obtain ⟨rfl, rfl⟩ := Prod.ext_iff.1 hrun
  have hunits : attempts.map Attempt.unit = d.units := by
    have := run_convertAll_units s c.drop d.units
    rwa [hall] at this
  have hcount := Summary.length_add_length attempts
  refine ⟨base, c, d, attempts, _, _, hbegins, hall, hunits, rfl, rfl,
    fun p => origin_eq_some_iff hbegins.loaded, ?_, Attempt.errors_progress attempts, ?_, ?_,
    fun hs hnoLink => ?_⟩
  · rw [Report.log_filtered, Settings.log_eq]
    rfl
  · rw [← hunits, List.length_map]
    exact hcount
  · simp [Report.filtered, Report.ofConversion, Conversion.summary, Summary.ofAttempts,
      Summary.isSuccess]
  · rcases aimsAt_discover hs hbegins.found hnoLink with ⟨haims, hapart⟩
    rcases account_convertAll haims hapart hall hunits with ⟨hnodup, hwritten, hrest⟩
    exact ⟨statementPlaces s.siteOf attempts, hnodup, length_statementPlaces s.siteOf attempts,
      hwritten, hrest⟩

theorem run_report_sample :
    sample.WellFormed ∧ ∃ (report : Report) (t : Store) (places : List Location),
      sample.run (Session.run "/" none (sampleArguments "2")) = (report, t) ∧
      report.fatal = none ∧ report.exitCode = 1 ∧ places.length = 1 ∧
      (⟨.commandLine, .info, "Converted 1 function(s)"⟩ : Log.Line) ∈ report.log ∧
      ∀ l, IsStatementPlace l → l ∉ places → t.entry? l = sample.entry? l := by
  obtain ⟨report, t, hrun⟩ : ∃ report t,
    sample.run (Session.run "/" none (sampleArguments "2")) = (report, t) := ⟨_, _, rfl⟩
  have hfatal : (sample.run (Session.run "/" none (sampleArguments "2"))).1.fatal = none := by
    decide +kernel
  rw [hrun] at hfatal
  obtain ⟨base, c, d, attempts, converted, failed, hbegins, hall, -, hconverted, -, -, hlog, -,
    hcount, hexit, hfiles⟩ := run_report sample "/" (sampleArguments "2") (sampleRequest 2) report t
      (by decide +kernel) rfl hrun hfatal
  obtain ⟨rfl, rfl, rfl⟩ := hbegins.unique begins_sample
  have hone : converted.length = 1 := by
    rw [hconverted, show attempts = _ from (congrArg Prod.fst hall).symm]
    decide +kernel
  have hfailed : failed ≠ [] := by
    rintro rfl
    rw [hone] at hcount
    exact absurd hcount (by decide +kernel)
  obtain ⟨places, -, hlength, -, hrest⟩ := hfiles wellFormed_sample (by decide +kernel)
  refine ⟨wellFormed_sample, report, t, places, hrun, hfatal, ?_, hlength.trans hone, ?_, hrest⟩
  · rw [hexit, if_neg hfailed]
  · have hline : "Converted ".toList ++ Text.ofNat converted.length ++ " function(s)".toList =
        "Converted 1 function(s)".toList := by
      rw [hone]
      decide +kernel
    rw [hlog, hline]
    exact List.mem_append_right _ (List.mem_cons_self ..)

/-- The sample with a directory in the place of a statement, and a link in the place of the file
that is written first. -/
def uncountedScratch : Store :=
  ((sample.insert ["d", "a.sql"] .directory).insert ["d", "a.sql.tmp"] (.link "kept.sql")).insert
    ["d", "kept.sql"] (.file [75])

/-- No unit is converted, and yet a file with the name of a statement is written. -/
theorem run_report_uncountedScratch :
    uncountedScratch.WellFormed ∧
      (uncountedScratch.run (Session.run "/" none (sampleArguments "2"))).1.fatal = none ∧
      (⟨.commandLine, .info, "Converted 0 function(s)"⟩ : Log.Line) ∈
        (uncountedScratch.run (Session.run "/" none (sampleArguments "2"))).1.log ∧
      uncountedScratch.entry? ["d", "kept.sql"] = some (.file [75]) ∧
      Store.entry? (uncountedScratch.run (Session.run "/" none (sampleArguments "2"))).2
        ["d", "kept.sql"] ≠ some (.file [75]) := by
  decide +kernel

end Store
end ProcedureGen
