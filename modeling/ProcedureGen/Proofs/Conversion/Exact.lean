import Mathlib.Data.List.Pairwise
import ProcedureGen.Proofs.Conversion.Run
import ProcedureGen.Proofs.Conversion.Sequence

/-!
# A run as a whole

What a run over a tree answers, and what it changes.

* `Summary.mem_converted`, `Summary.mem_failed`: every attempt counts once;
* `Store.IsConverted`, `Store.HasFailed`: the two ways in which a unit can end;
* `Effect.eq_of_not_listed`: what is left as it was.

Every unit ends in one of the two ways, and nothing else is changed.
-/

namespace ProcedureGen

open SourceUnit

/-! ## Summaries -/

namespace Summary

variable {as : List Attempt} {u : SourceUnit} {f : Failure} {p : Path}

theorem mem_converted : p ∈ (ofAttempts as).converted ↔ ∃ a ∈ as, a.outcome = .ok p := by
  have hpath : ∀ a : Attempt, a.path? = some p ↔ a.outcome = .ok p := by
    intro a
    unfold Attempt.path?
    cases a.outcome <;> simp
  simp only [ofAttempts, List.mem_filterMap, hpath]

theorem mem_failed :
    (u, f) ∈ (ofAttempts as).failed ↔ ∃ a ∈ as, a.unit = u ∧ a.outcome = .error f := by
  have hfailure : ∀ a : Attempt, a.failure? = some (u, f) ↔ a.unit = u ∧ a.outcome = .error f := by
    intro a
    unfold Attempt.failure?
    cases a.outcome <;> simp
  simp only [ofAttempts, List.mem_filterMap, hfailure]

theorem length_add_length (as : List Attempt) :
    (ofAttempts as).converted.length + (ofAttempts as).failed.length = as.length := by
  have hlength := (perm_units as).length_eq
  rw [length_converted]
  simpa using hlength

theorem converted_sublist
    (h : ∀ a ∈ as, ∀ p, a.outcome = .ok p → p = a.unit.statementPath) :
    (ofAttempts as).converted.Sublist (as.map fun a => a.unit.statementPath) := by
  have hunits := (succeeded_sublist as).map statementPath
  rwa [← converted_eq h, List.map_map] at hunits

theorem failed_sublist (as : List Attempt) :
    ((ofAttempts as).failed.map Prod.fst).Sublist (as.map Attempt.unit) := by
  rw [failed_eq]
  exact List.filter_sublist.map Attempt.unit

end Summary

/-! ## Units after a run -/

namespace Store

variable {s t : Store} {c : Settings} {site : SourceUnit → Site} {us : List SourceUnit}
  {u v : SourceUnit} {l : Location}

/-- A unit has been converted, and nothing else has come of it.  Its statement is at its place, and
is about the unit as it was before the run. -/
structure IsConverted (s t : Store) (c : Settings) (r : Summary) (u : SourceUnit) : Prop where
  listed : u.statementPath ∈ r.converted
  notFailed : ∀ f, (u, f) ∉ r.failed
  statement : ∃ d l, (s.run (Definition.build u)).1 = .ok d ∧
    t.locate false u.statementPath = .ok l ∧
    t.entry? l = some (.file (Utf8.encode (d.render c.drop)))

/-- A unit has failed as it would have done alone, and nothing else has come of it.  What was at the
place of its statement is still there. -/
structure HasFailed (s t : Store) (c : Settings) (r : Summary) (u : SourceUnit) : Prop where
  alone : ∃ f, (u, f) ∈ r.failed ∧ (∀ g, (u, g) ∈ r.failed → g = f) ∧
    .ofAttempts (s.run (convertAll c.drop [u])).1 = Summary.mk [] [(u, f)]
  notConverted : u.statementPath ∉ r.converted
  kept : ∀ l, s.locate false u.statementPath = .ok l → t.entry? l = s.entry? l

/-- The summary of units of which each fares as if it were alone. -/
def summaryOf (s : Store) (site : SourceUnit → Site) (us : List SourceUnit) : Summary :=
  .ofAttempts (us.map fun u => s.attempt (site u) u)

theorem mem_converted_summaryOf :
    u.statementPath ∈ (s.summaryOf site us).converted ↔
      ∃ v ∈ us, v.stem = u.stem ∧ (s.attempt (site v) v).outcome = .ok v.statementPath := by
  simp only [summaryOf, Summary.mem_converted, List.mem_map, exists_exists_and_eq_and]
  constructor
  · rintro ⟨v, hv, hok⟩
    rcases outcome_attempt_eq_ok.1 hok with ⟨hpath, -⟩
    exact ⟨v, hv, (List.append_cancel_right hpath).symm, hpath ▸ hok⟩
  · rintro ⟨v, hv, hstem, hok⟩
    have hpath : v.statementPath = u.statementPath := by simp [statementPath, hstem]
    exact ⟨v, hv, hpath ▸ hok⟩

theorem mem_failed_summaryOf {f : Failure} :
    (u, f) ∈ (s.summaryOf site us).failed ↔
      u ∈ us ∧ (s.attempt (site u) u).outcome = .error f := by
  simp only [summaryOf, Summary.mem_failed, List.mem_map, exists_exists_and_eq_and]
  constructor
  · rintro ⟨v, hv, rfl, hfail⟩
    exact ⟨hv, hfail⟩
  · rintro ⟨hu, hfail⟩
    exact ⟨u, hu, rfl, hfail⟩

theorem converted_sublist (s : Store) (site : SourceUnit → Site) (us : List SourceUnit) :
    (s.summaryOf site us).converted.Sublist (us.map statementPath) := by
  unfold summaryOf
  have hpaths : ∀ a ∈ us.map (fun u => s.attempt (site u) u), ∀ p, a.outcome = .ok p →
      p = a.unit.statementPath := by
    intro a ha p hok
    rcases List.mem_map.1 ha with ⟨u, -, rfl⟩
    exact (outcome_attempt_eq_ok.1 hok).1
  simpa [List.map_map, Function.comp_def] using Summary.converted_sublist hpaths

theorem failed_sublist (s : Store) (site : SourceUnit → Site) (us : List SourceUnit) :
    ((s.summaryOf site us).failed.map Prod.fst).Sublist us := by
  unfold summaryOf
  have hsub := Summary.failed_sublist (us.map fun u => s.attempt (site u) u)
  simpa [List.map_map, Function.comp_def] using hsub

theorem length_summaryOf (s : Store) (site : SourceUnit → Site) (us : List SourceUnit) :
    (s.summaryOf site us).converted.length + (s.summaryOf site us).failed.length = us.length := by
  unfold summaryOf
  simpa using Summary.length_add_length (us.map fun u => s.attempt (site u) u)

theorem Placed.site_eq (hus : s.Placed site us) (hu : u ∈ us) (hv : v ∈ us)
    (h : u.stem = v.stem) : site u = site v :=
  site_eq_of_stem (hus.stands u hu) (hus.stands v hv) h

theorem Placed.eq_of_stem (hus : s.Placed site us) (hu : u ∈ us) (hv : v ∈ us)
    (h : u.stem = v.stem) : u = v := by
  have hsymm : Std.Symm fun u v => site u ≠ site v := ⟨fun _ _ hne => hne.symm⟩
  by_contra hne
  exact hus.apart.forall hu hv hne (hus.site_eq hu hv h)

theorem Placed.nodup (hus : s.Placed site us) : us.Nodup :=
  hus.apart.imp fun hne heq => hne (congrArg site heq)

theorem Placed.nodup_statementPath (hus : s.Placed site us) :
    (us.map statementPath).Nodup :=
  List.Nodup.map_on (fun _ hu _ hv h => hus.eq_of_stem hu hv (List.append_cancel_right h))
    hus.nodup

theorem isConverted_of_ok (hus : s.Placed site us) (h : Effect s t site c.drop us) (hu : u ∈ us)
    {p : Path} (hok : (s.attempt (site u) u).outcome = .ok p) :
    s.IsConverted t c (s.summaryOf site us) u := by
  rcases outcome_attempt_eq_ok.1 hok with ⟨rfl, hend, d, hbuild⟩
  refine ⟨mem_converted_summaryOf.2 ⟨u, hu, rfl, hok⟩, fun f hf => ?_, d, ?_⟩
  · rw [(mem_failed_summaryOf.1 hf).2] at hok
    cases hok
  · have hwritten := h.written u hu _ (.inl rfl)
    have hplace := (standsAt_of_sameTree h.tree (hus.stands u hu)).place statementSuffix
      (by decide) false
    have hfits : (site u).Fits := by
      by_contra hfits
      simp [ending, hfits] at hend
    rw [leaf, if_neg (Nat.not_lt.2 hfits.statement)] at hplace
    refine ⟨(site u).file statementSuffix, hbuild, hplace, ?_⟩
    rw [hwritten, leaves, hbuild, hend]
    simp [Ending.leaves]

theorem hasFailed_of_error (hus : s.Placed site us) (h : Effect s t site c.drop us) (hu : u ∈ us)
    {f : Failure} (hfail : (s.attempt (site u) u).outcome = .error f) :
    s.HasFailed t c (s.summaryOf site us) u := by
  have hnotOk : ∀ p, (s.attempt (site u) u).outcome ≠ .ok p := by
    intro p hok
    rw [hfail] at hok
    cases hok
  refine ⟨⟨f, mem_failed_summaryOf.2 ⟨hu, hfail⟩, fun g hg => ?_, ?_⟩, fun hlisted => ?_,
    fun l hl => ?_⟩
  · rw [(mem_failed_summaryOf.1 hg).2] at hfail
    exact Except.error.inj hfail
  · have halone : s.Placed site [u] :=
      ⟨fun v hv => hus.stands v (by rwa [List.mem_singleton.1 hv]), by simp⟩
    rw [(run_convertAll halone c.drop).1]
    simp only [Summary.ofAttempts, List.map_cons, List.map_nil, List.filterMap_cons,
      List.filterMap_nil, Attempt.path?, Attempt.failure?, hfail]
    rfl
  · rcases mem_converted_summaryOf.1 hlisted with ⟨v, hv, hstem, hok⟩
    rw [hus.eq_of_stem hv hu hstem] at hok
    exact hnotOk _ hok
  · rw [eq_of_locate (hus.stands u hu) (by decide) hl, h.written u hu _ (.inl rfl)]
    exact leaves_of_failed hfail Site.statement_ne_scratch

/-- A change is at the place of a statement that is listed, or at that of a scratch file. -/
theorem Effect.eq_of_not_listed (h : Effect s t site c.drop us) (hus : s.Placed site us)
    (hstatement : ∀ p ∈ (s.summaryOf site us).converted, s.locate false p ≠ .ok l)
    (hscratch : ∀ u ∈ us, s.locate false u.scratchPath ≠ .ok l) : t.entry? l = s.entry? l := by
  by_cases hl : ∃ u ∈ us, (site u).Writes l
  · rcases hl with ⟨u, hu, hwrites⟩
    rw [h.written u hu l hwrites]
    by_cases hfits : (site u).Fits
    · rcases hwrites with rfl | rfl
      -- A unit whose statement is there is listed; any other has left the place alone.
      · cases hout : (s.attempt (site u) u).outcome with
        | error f => exact leaves_of_failed hout Site.statement_ne_scratch
        | ok p =>
            have hplace := (hus.stands u hu).place statementSuffix (by decide) false
            rw [leaf, if_neg (Nat.not_lt.2 hfits.statement)] at hplace
            exact absurd hplace
              (hstatement _ (isConverted_of_ok hus h hu hout).listed)
      · have hplace := (hus.stands u hu).place scratchEnd (by decide) false
        rw [leaf, if_neg (Nat.not_lt.2 hfits), ← scratchPath_eq] at hplace
        exact absurd hplace (hscratch u hu)
    · exact leaves_of_not_fits hfits
  · exact h.rest l fun u hu hwrites => hl ⟨u, hu, hwrites⟩

/-- A run over a tree without links gives each unit that is discovered one outcome, in the order of
discovery: the statement of the unit as it was before the run, or the failure that the unit would
have met alone.  Nothing else changes, apart from scratch files. -/
theorem convertTree_exact (s : Store) (c : Settings) (d : Discovery) (hs : s.WellFormed)
    (hlinks : s.LinkFreeBelow c.root) (hd : (s.run (discover c)).1 = .ok d) :
    ∃ (r : Conversion) (t : Store), s.run (convertTree c) = (.ok r, t) ∧
      (∀ u ∈ d.units, s.IsConverted t c r.summary u ∨ s.HasFailed t c r.summary u) ∧
      r.summary.converted.Sublist (d.units.map statementPath) ∧
      (r.summary.failed.map Prod.fst).Sublist d.units ∧
      (d.units.map statementPath).Nodup ∧ d.units.Nodup ∧
      r.summary.converted.length + r.summary.failed.length = d.units.length ∧
      ∀ l, (∀ p ∈ r.summary.converted, s.locate false p ≠ .ok l) →
        (∀ u ∈ d.units, s.locate false u.scratchPath ≠ .ok l) → t.entry? l = s.entry? l := by
  rcases exists_of_run_discover hs hd with ⟨R, hroot, hdir, rfl⟩
  have hus : s.Placed s.siteOf (s.discoveryIn c R).units := placed_discoveryIn hs hroot hlinks
  rcases run_convertTree hs hroot hdir hus with ⟨t, hrun, h⟩
  refine ⟨_, t, hrun, fun u hu => ?_, s.converted_sublist s.siteOf _, s.failed_sublist s.siteOf _,
    hus.nodup_statementPath, hus.nodup, s.length_summaryOf s.siteOf _,
    fun l => h.eq_of_not_listed hus⟩
  cases hout : (s.attempt (s.siteOf u) u).outcome with
  | ok p => exact .inl (isConverted_of_ok hus h hu hout)
  | error f => exact .inr (hasFailed_of_error hus h hu hout)

theorem convertTree_exact_sample :
    sample.WellFormed ∧ sample.LinkFreeBelow sampleSettings.root ∧
      (sample.run (discover sampleSettings)).1 = .ok ⟨sampleUnits, []⟩ ∧
      ∃ (r : Conversion) (t : Store), sample.run (convertTree sampleSettings) = (.ok r, t) ∧
        (∀ u ∈ sampleUnits, sample.IsConverted t sampleSettings r.summary u ∨
          sample.HasFailed t sampleSettings r.summary u) ∧
        r.summary.converted.length + r.summary.failed.length = 4 := by
  have hs := wellFormed_sample
  have hlinks := linkFreeBelow_sample
  have hd := run_discover_sample
  obtain ⟨r, t, hrun, hunits, -, -, -, -, hlength, -⟩ :=
    convertTree_exact sample sampleSettings ⟨sampleUnits, []⟩ hs hlinks hd
  exact ⟨hs, hlinks, hd, r, t, hrun, hunits, hlength⟩

end Store

end ProcedureGen
