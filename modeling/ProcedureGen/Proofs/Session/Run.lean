import ProcedureGen.Proofs.Config.Precedence
import ProcedureGen.Proofs.Conversion.Sequence
import ProcedureGen.Session

/-!
# The course of a session

A session either stops before its first unit, and then it has changed nothing, or it takes every
unit that it finds, whatever becomes of each.

* `Store.OnlyReads`: an action that leaves every store as it is;
* `Store.Stops`, `Store.Begins`: the two ways in which a request can go;
* `Store.run_session_of_stops`, `Store.run_session_of_begins`: the report and the store of each;
* `Store.run_session`: a session that ends early writes nothing, and no unit ends one.
-/

namespace ProcedureGen
namespace Store

variable {α β : Type} {s t : Store} {project : Path} {directives : Option Text}
  {arguments : List Text} {r : Request} {base c : Settings} {d : Discovery}

/-! ## Actions that only read -/

/-- An action that leaves every store as it is. -/
def OnlyReads (f : StateM Store α) : Prop := ∀ s : Store, (s.run f).2 = s

namespace OnlyReads

theorem pure (a : α) : OnlyReads (Pure.pure a) := fun _ => rfl

theorem bind {f : StateM Store α} {g : α → StateM Store β} (hf : OnlyReads f)
    (hg : ∀ a, OnlyReads (g a)) : OnlyReads (f >>= g) := by
  intro s
  rw [run_bind, hf s]
  exact hg _ s

theorem filesOf {below : Path → StateM Store (Except AccessFault (List Path))}
    (hbelow : ∀ p, OnlyReads (below p)) (p : Path) : OnlyReads (Discovery.filesOf below p) := by
  refine bind (fun _ => rfl) fun kind => ?_
  split
  · exact pure _
  · exact pure _
  · exact hbelow p
  · exact pure _

theorem gather {visit : Path → StateM Store (Except AccessFault (List Path))}
    (hvisit : ∀ p, OnlyReads (visit p)) (ps : List Path) :
    OnlyReads (Discovery.gather visit ps) := by
  induction ps with
  | nil => exact pure _
  | cons p ps ih =>
      refine bind (hvisit p) fun found => ?_
      split
      · exact pure _
      · refine bind ih fun more => ?_
        split <;> exact pure _

theorem filesBelow (n : Nat) (p : Path) :
    OnlyReads (Discovery.filesBelow (m := StateM Store) n p) := by
  induction n generalizing p with
  | zero => exact pure _
  | succ n ih =>
      refine bind (fun _ => rfl) fun names => ?_
      split
      · exact pure _
      · exact gather (filesOf ih) _

theorem discover (c : Settings) : OnlyReads (ProcedureGen.discover (m := StateM Store) c) := by
  refine bind (fun _ => rfl) fun kind => ?_
  split
  · exact pure _
  · refine bind (filesBelow _ _) fun files => ?_
    split <;> exact pure _

end OnlyReads

theorem run_discover_eq (s : Store) (c : Settings) :
    s.run (discover c) = ((s.run (discover c)).1, s) :=
  Prod.ext rfl (OnlyReads.discover c s)

/-! ## Requests -/

/-- A request comes to nothing before the first unit: there are no settings, their depth is refused,
or nothing can be discovered. -/
def Stops (s : Store) (project : Path) (r : Request) : Prop :=
  (∃ f, s.settingsOf project r.config = .error f) ∨
    ∃ base, s.settingsOf project r.config = .ok base ∧
      (r.apply project base = none ∨
        ∃ c f, r.apply project base = some c ∧ (s.run (discover c)).1 = .error f)

/-- A request leads to settings, and units are discovered by them. -/
structure Begins (s : Store) (project : Path) (r : Request) (base c : Settings) (d : Discovery) :
    Prop where
  loaded : s.settingsOf project r.config = .ok base
  applied : r.apply project base = some c
  found : (s.run (discover c)).1 = .ok d

theorem stops_or_begins (s : Store) (project : Path) (r : Request) :
    s.Stops project r ∨ ∃ base c d, s.Begins project r base c d := by
  cases hload : s.settingsOf project r.config with
  | error f => exact .inl (.inl ⟨f, hload⟩)
  | ok base =>
      cases happly : r.apply project base with
      | none => exact .inl (.inr ⟨base, hload, .inl happly⟩)
      | some c =>
          cases hfound : (s.run (discover c)).1 with
          | error f => exact .inl (.inr ⟨base, hload, .inr ⟨c, f, happly, hfound⟩⟩)
          | ok d => exact .inr ⟨base, c, d, hload, happly, hfound⟩

theorem Begins.not_stops (h : s.Begins project r base c d) : ¬ s.Stops project r := by
  rintro (⟨f, hload⟩ | ⟨base', hload, hrest⟩)
  · rw [h.loaded] at hload
    cases hload
  · obtain rfl := Except.ok.inj (h.loaded.symm.trans hload)
    rcases hrest with happly | ⟨c', f, happly, hfound⟩
    · rw [h.applied] at happly
      cases happly
    · obtain rfl := Option.some.inj (h.applied.symm.trans happly)
      rw [h.found] at hfound
      cases hfound

theorem Begins.unique {base' c' : Settings} {d' : Discovery} (h : s.Begins project r base c d)
    (h' : s.Begins project r base' c' d') : base = base' ∧ c = c' ∧ d = d' := by
  obtain rfl := Except.ok.inj (h.loaded.symm.trans h'.loaded)
  obtain rfl := Option.some.inj (h.applied.symm.trans h'.applied)
  exact ⟨rfl, rfl, Except.ok.inj (h.found.symm.trans h'.found)⟩

/-! ## Sessions -/

theorem run_convertTree_of_found (h : (s.run (discover c)).1 = .ok d) :
    s.run (convertTree c) =
      (.ok ⟨d, (s.run (convertAll c.drop d.units)).1⟩, (s.run (convertAll c.drop d.units)).2) := by
  unfold convertTree
  rw [run_bind, run_discover_eq, h]
  rfl

theorem run_convertTree_of_fault {f : DiscoveryFault} (h : (s.run (discover c)).1 = .error f) :
    s.run (convertTree c) = (.error f, s) := by
  unfold convertTree
  rw [run_bind, run_discover_eq, h]
  rfl

/-- The lines of a session that has stopped tell of its configuration at most. -/
theorem run_convert_of_stops (h : s.Stops project r) :
    ∃ log messages, s.run (Session.convert project r) = (.ofFatal log messages, s) ∧
      (log = [] ∨ ∃ base : Settings, log = base.log) := by
  unfold Session.convert
  rw [run_bind, run_loadSettings]
  rcases h with ⟨f, hload⟩ | ⟨base, hload, happly | ⟨c, f, happly, hfound⟩⟩
  · rw [hload]
    exact ⟨[], _, rfl, .inl rfl⟩
  · rw [hload]
    simp only [happly]
    exact ⟨base.log, _, rfl, .inr ⟨base, rfl⟩⟩
  · rw [hload]
    simp only [happly, run_bind, run_convertTree_of_fault hfound]
    exact ⟨base.log, _, rfl, .inr ⟨base, rfl⟩⟩

theorem run_convert_of_begins (h : s.Begins project r base c d) :
    s.run (Session.convert project r) =
      (.ofConversion base.log ⟨d, (s.run (convertAll c.drop d.units)).1⟩,
        (s.run (convertAll c.drop d.units)).2) := by
  unfold Session.convert
  rw [run_bind, run_loadSettings, h.loaded]
  simp only [h.applied, run_bind, run_convertTree_of_found h.found]
  rfl

theorem run_session_of_request (hparse : CommandLine.parse arguments = .run r) :
    s.run (Session.run project directives arguments) =
      ((s.run (Session.convert project r)).1.filtered (r.logFilter directives),
        (s.run (Session.convert project r)).2) := by
  unfold Session.run
  rw [hparse]
  rfl

theorem run_session_of_stops (directives : Option Text)
    (hparse : CommandLine.parse arguments = .run r) (h : s.Stops project r) :
    ∃ log messages, s.run (Session.run project directives arguments) =
        (.ofFatal log messages, s) ∧
      ∀ line ∈ log, ∃ base : Settings, line ∈ base.log := by
  rcases run_convert_of_stops h with ⟨log, messages, hrun, hlog⟩
  rw [run_session_of_request hparse, hrun]
  refine ⟨_, messages, rfl, fun line hline => ?_⟩
  have hmem := (List.mem_filter.1 hline).1
  rcases hlog with rfl | ⟨base, rfl⟩
  · cases hmem
  · exact ⟨base, hmem⟩

theorem run_session_of_begins (hparse : CommandLine.parse arguments = .run r)
    (h : s.Begins project r base c d) :
    s.run (Session.run project directives arguments) =
      ((Report.ofConversion base.log ⟨d, (s.run (convertAll c.drop d.units)).1⟩).filtered
          (r.logFilter directives),
        (s.run (convertAll c.drop d.units)).2) := by
  rw [run_session_of_request hparse, run_convert_of_begins h]

/-- Help, the version and misuse are no fatal ends. -/
theorem run_session_of_no_request (s : Store) (project : Path) (directives : Option Text)
    (h : ∀ r, CommandLine.parse arguments ≠ .run r) :
    ∃ report, s.run (Session.run project directives arguments) = (report, s) ∧
      report.fatal = none := by
  unfold Session.run
  cases hparse : CommandLine.parse arguments with
  | help => exact ⟨_, rfl, rfl⟩
  | version => exact ⟨_, rfl, rfl⟩
  | misuse => exact ⟨_, rfl, rfl⟩
  | run r => exact absurd hparse (h r)

theorem fatal_session_iff {report : Report}
    (hrun : s.run (Session.run project directives arguments) = (report, t)) :
    report.fatal ≠ none ↔ ∃ r, CommandLine.parse arguments = .run r ∧ s.Stops project r := by
  constructor
  · intro hfatal
    by_contra hnone
    push Not at hnone
    by_cases hrequest : ∃ r, CommandLine.parse arguments = .run r
    · rcases hrequest with ⟨r, hparse⟩
      rcases stops_or_begins s project r with hstops | ⟨base, c, d, hbegins⟩
      · exact hnone r hparse hstops
      · rw [run_session_of_begins hparse hbegins] at hrun
        obtain rfl := (Prod.ext_iff.1 hrun).1
        exact hfatal rfl
    · rcases run_session_of_no_request s project directives
        (fun r hparse => hrequest ⟨r, hparse⟩) with ⟨report', hrun', hno⟩
      obtain rfl := (Prod.ext_iff.1 (hrun'.symm.trans hrun)).1
      exact hfatal hno
  · rintro ⟨r, hparse, hstops⟩
    rcases run_session_of_stops directives hparse hstops with
      ⟨log, messages, hrun', -⟩
    obtain rfl := (Prod.ext_iff.1 (hrun'.symm.trans hrun)).1
    simp [Report.ofFatal]

/-- What is told of a configuration is not told of a unit. -/
theorem not_converting_of_mem_log {line : Log.Line} (h : line ∈ base.log) :
    ¬ "Converting ".toList <+: line.message := by
  unfold Settings.log at h
  split at h
  next p _ =>
    obtain rfl := List.mem_singleton.1 h
    rintro ⟨rest, hrest⟩
    injection hrest with hfirst
    exact absurd hfirst (by decide)
  next => cases h

/-! ## Early ends -/

/-- A session is fatal exactly if its request stops.  Then it has written nothing, it fails, and it
has told of no unit.  If the request begins, every unit that is discovered is attempted in turn,
whatever has become of the units before it, and the report tells of all these attempts. -/
theorem run_session (s : Store) (project : Path) (directives : Option Text)
    (arguments : List Text) :
    ∃ report t, s.run (Session.run project directives arguments) = (report, t) ∧
      (report.fatal ≠ none ↔
        ∃ r, CommandLine.parse arguments = .run r ∧ s.Stops project r) ∧
      (report.fatal ≠ none → t = s ∧ report.exitCode = 1 ∧
        ∀ line ∈ report.log, ¬ "Converting ".toList <+: line.message) ∧
      ∀ r base c d, CommandLine.parse arguments = .run r → s.Begins project r base c d →
        report.fatal = none ∧ ∃ attempts, s.run (convertAll c.drop d.units) = (attempts, t) ∧
          report = (Report.ofConversion base.log ⟨d, attempts⟩).filtered
            (r.logFilter directives) ∧
          attempts.map Attempt.unit = d.units ∧
          ∀ us u vs, d.units = us ++ u :: vs → attempts[us.length]? =
            some ((s.run (convertAll c.drop us)).2.run (Attempt.make c.drop u)).1 := by
  obtain ⟨report, t, hrun⟩ : ∃ report t,
    s.run (Session.run project directives arguments) = (report, t) := ⟨_, _, rfl⟩
  have hfatal := fatal_session_iff hrun
  refine ⟨report, t, hrun, hfatal, fun h => ?_, fun r base c d hparse hbegins => ?_⟩
  · rcases hfatal.1 h with ⟨r, hparse, hstops⟩
    rcases run_session_of_stops directives hparse hstops with
      ⟨log, messages, hrun', hlog⟩
    obtain ⟨rfl, rfl⟩ := Prod.ext_iff.1 (hrun'.symm.trans hrun)
    refine ⟨rfl, rfl, fun line hline => ?_⟩
    rcases hlog line hline with ⟨base, hmem⟩
    exact not_converting_of_mem_log hmem
  · rw [run_session_of_begins hparse hbegins] at hrun
    obtain ⟨rfl, rfl⟩ := Prod.ext_iff.1 hrun
    refine ⟨rfl, (s.run (convertAll c.drop d.units)).1, rfl, rfl,
      run_convertAll_units s c.drop d.units, fun us u vs hunits => ?_⟩
    rw [hunits, getElem?_run_convertAll]

/-- Arguments for the sample, with a depth. -/
def sampleArguments (depth : Text) : List Text := ["--root", "/r", "--max-depth", depth]

/-- What the arguments for the sample ask for. -/
def sampleRequest (depth : Nat) : Request := ⟨false, false, some "/r", none, some depth⟩

/-- The first two of the units that they lead to. -/
def sampleStart : List SourceUnit := [⟨"/r/.", ".", ""⟩, ⟨"/r/a/b", "b", "a"⟩]

theorem begins_sample : sample.Begins "/" (sampleRequest 2) (Settings.default.anchor "/")
    { Settings.default with root := "/r", maxDepth := 2 }
    ⟨sampleStart ++ [⟨"/r/a", "a", ""⟩, ⟨"/r/x.js/y", "y", "x.js"⟩], []⟩ :=
  ⟨by decide +kernel, by decide +kernel, by decide +kernel⟩

/-- A depth of zero ends the session over the sample.  Otherwise its first two units fail, and the
third one is converted. -/
theorem run_session_sample :
    (∃ report, sample.run (Session.run "/" none (sampleArguments "0")) = (report, sample) ∧
      report.fatal ≠ none ∧ report.exitCode = 1) ∧
    ∃ report t, ∃ attempts : List Attempt,
      sample.run (Session.run "/" none (sampleArguments "2")) = (report, t) ∧
      report.fatal = none ∧ report.exitCode = 1 ∧
      attempts.map (fun a => a.path?.isSome) = [false, false, true, false] ∧
      attempts[2]? = some ((sample.run (convertAll false sampleStart)).2.run
        (Attempt.make false ⟨"/r/a", "a", ""⟩)).1 := by
  constructor
  · obtain ⟨report, t, hrun, hfatal, hstops, -⟩ :=
      run_session sample "/" none (sampleArguments "0")
    have hends : report.fatal ≠ none :=
      hfatal.2 ⟨sampleRequest 0, by decide +kernel, .inr ⟨_, begins_sample.loaded, .inl rfl⟩⟩
    obtain ⟨rfl, hexit, -⟩ := hstops hends
    exact ⟨report, hrun, hends, hexit⟩
  · obtain ⟨report, t, hrun, -, -, hbegins⟩ := run_session sample "/" none (sampleArguments "2")
    obtain ⟨hfatal, attempts, hall, hreport, -, hunit⟩ :=
      hbegins (sampleRequest 2) _ _ _ (by decide +kernel) begins_sample
    refine ⟨report, t, attempts, hrun, hfatal, ?_, ?_, hunit _ ⟨"/r/a", "a", ""⟩ _ rfl⟩
    · have hexit : (sample.run (Session.run "/" none (sampleArguments "2"))).1.exitCode = 1 := by
        decide +kernel
      rwa [hrun] at hexit
    · rw [show attempts = _ from (congrArg Prod.fst hall).symm]
      decide +kernel

end Store
end ProcedureGen
