import ProcedureGen.Proofs.Conversion.Links

/-!
# The account of a run

What the outcomes of units say of the files that they write, for units whose paths lead to different
sites.

* `Store.Bears`: what an attempt says of the place of its statement;
* `Store.bears_make`, `Store.bears_convertAll`: one unit, and many;
* `Store.statementPlaces`: the places of the statements that are there, one for each unit that has
  been converted.
-/

namespace ProcedureGen

open SourceUnit

namespace Store

variable {s t r : Store} {c : Settings} {u v : SourceUnit} {us : List SourceUnit} {σ τ : Site}
  {site : SourceUnit → Site} {withDrop : Bool} {l : Location} {a : Attempt} {as : List Attempt}
  {R : Location}

/-! ## One unit -/

/-- What an attempt says of the place of its statement: a definition has been written there, or
nothing has been. -/
structure Bears (s t : Store) (withDrop : Bool) (a : Attempt) (σ : Site) : Prop where
  failed : ∀ f, a.outcome = .error f →
    t.entry? (σ.file statementSuffix) = s.entry? (σ.file statementSuffix)
  written : ∀ p, a.outcome = .ok p → s.locate false p = .ok (σ.file statementSuffix) ∧
    ∃ d, a.definition = .ok d ∧
      t.entry? (σ.file statementSuffix) = some (.file (Utf8.encode (d.render withDrop)))

/-- What another unit writes does not matter. -/
theorem Bears.of_eq (h : Bears s t withDrop a σ)
    (heq : r.entry? (σ.file statementSuffix) = t.entry? (σ.file statementSuffix)) :
    Bears s r withDrop a σ :=
  ⟨fun f hf => heq.trans (h.failed f hf), fun p hp => ⟨(h.written p hp).1, by
    simpa only [heq] using (h.written p hp).2⟩⟩

theorem Bears.of_decays (h : Bears t r withDrop a σ) (hdecays : Decays s t)
    (heq : t.entry? (σ.file statementSuffix) = s.entry? (σ.file statementSuffix)) :
    Bears s r withDrop a σ :=
  ⟨fun f hf => (h.failed f hf).trans heq,
    fun p hp => ⟨hdecays.locate (h.written p hp).1, (h.written p hp).2⟩⟩

/-- A unit writes at its site alone, and its outcome says what it has written. -/
theorem bears_make (hu : u.AimsAt s σ) (withDrop : Bool) :
    Bears s (s.run (Attempt.make withDrop u)).2 withDrop (s.run (Attempt.make withDrop u)).1 σ ∧
      ∀ l, ¬ σ.Writes l →
        Store.entry? (s.run (Attempt.make withDrop u)).2 l = s.entry? l := by
  rcases run_make_aimed hu withDrop with ⟨f, hrun⟩ | ⟨d, e, outcome, hcan, hrun, hok⟩
  · rw [hrun]
    exact ⟨⟨fun _ _ => rfl, fun p hp => by cases hp⟩, fun _ _ => rfl⟩
  · rw [hrun]
    refine ⟨⟨fun f hf => ?_, fun p hp => ?_⟩, fun l hl => ?_⟩
    · have hnot : e ≠ .written := by
        rintro rfl
        rw [show outcome = .error f from hf] at hok
        exact absurd ((hok u.statementPath).2 ⟨rfl, rfl⟩) (by simp)
      rw [Ending.entry?_store]
      cases e with
      | tooLong => rfl
      | scratchTaken => rfl
      | statementTaken => simp [Ending.leaves, Site.statement_ne_scratch]
      | written => exact absurd rfl hnot
    · rcases (hok p).1 hp with ⟨rfl, rfl⟩
      refine ⟨(hcan.statement rfl).1, d, rfl, ?_⟩
      rw [Ending.entry?_store]
      simp [Ending.leaves]
    · rw [Ending.entry?_store, e.leaves_of_not_writes hl]

/-! ## Many units -/

/-- Units at different sites write there alone, and each outcome says what its unit has written. -/
theorem bears_convertAll (hus : ∀ u ∈ us, u.AimsAt s (site u))
    (hapart : us.Pairwise fun u v => site u ≠ site v) (withDrop : Bool) :
    (∀ a ∈ (s.run (convertAll withDrop us)).1, a.unit ∈ us ∧
      Bears s (s.run (convertAll withDrop us)).2 withDrop a (site a.unit)) ∧
    ∀ l, (∀ u ∈ us, ¬ (site u).Writes l) →
      Store.entry? (s.run (convertAll withDrop us)).2 l = s.entry? l := by
  -- The later units are converted in the state that the first one leaves.
  induction us generalizing s with
  | nil => exact ⟨by simp [convertAll], fun _ _ => rfl⟩
  | cons u us ih =>
      have hu := hus u (by simp)
      rcases List.pairwise_cons.1 hapart with ⟨hfirst, hrest⟩
      rcases bears_make hu withDrop with ⟨hbears, hothers⟩
      rcases touches_make hu withDrop with ⟨htouches, hunit, -⟩
      have hus' : ∀ v ∈ us, v.AimsAt (s.run (Attempt.make withDrop u)).2 (site v) :=
        fun v hv => AimsAt.decays (hus v (List.mem_cons_of_mem u hv)) htouches.decays
      rcases ih hus' hrest with ⟨hattempts, hkept⟩
      unfold convertAll
      simp only [run_bind, run_pure]
      refine ⟨fun a ha => ?_, fun l hl => ?_⟩
      · rcases List.mem_cons.1 ha with rfl | ha
        · rw [hunit]
          refine ⟨by simp, hbears.of_eq (hkept _ fun v hv hwrites => ?_)⟩
          exact hfirst v hv (Site.writes_unique (.inl rfl) hwrites)
        · rcases hattempts a ha with ⟨hmem, hlater⟩
          refine ⟨List.mem_cons_of_mem u hmem, hlater.of_decays htouches.decays (hothers _ ?_)⟩
          exact fun hwrites => hfirst a.unit hmem (Site.writes_unique hwrites (.inl rfl))
      · rw [hkept l fun v hv => hl v (List.mem_cons_of_mem u hv), hothers l (hl u (by simp))]

/-! ## Places of statements -/

/-- The places of the statements that are there after some attempts. -/
def statementPlaces (site : SourceUnit → Site) (as : List Attempt) : List Location :=
  (as.filter fun a => a.path?.isSome).map fun a => (site a.unit).file statementSuffix

theorem mem_statementPlaces :
    l ∈ statementPlaces site as ↔
      ∃ a ∈ as, (∃ p, a.outcome = .ok p) ∧ l = (site a.unit).file statementSuffix := by
  have hpath : ∀ a : Attempt, a.path?.isSome ↔ ∃ p, a.outcome = .ok p := by
    intro a
    unfold Attempt.path?
    cases a.outcome <;> simp
  simp only [statementPlaces, List.mem_map, List.mem_filter, hpath, and_assoc, eq_comm]

/-- There are as many as units that have been converted, -/
theorem length_statementPlaces (site : SourceUnit → Site) (as : List Attempt) :
    (statementPlaces site as).length = (Summary.ofAttempts as).converted.length := by
  rw [statementPlaces, List.length_map, Summary.length_converted, Summary.succeeded,
    List.length_map]

/-- and no two are the same. -/
theorem nodup_statementPlaces
    (hapart : (as.map Attempt.unit).Pairwise fun u v => site u ≠ site v) :
    (statementPlaces site as).Nodup := by
  rw [statementPlaces, List.Nodup, List.pairwise_map]
  have hattempts := List.pairwise_map.1 hapart
  exact (hattempts.filter _).imp fun hne heq => hne (Site.file_injective heq)

/-- A location with the name of a statement. -/
def IsStatementPlace (l : Location) : Prop :=
  ∃ folder name, l = folder ++ [name ++ statementSuffix]

theorem not_isStatementPlace_scratch : ¬ IsStatementPlace (σ.file scratchEnd) := by
  rintro ⟨folder, name, h⟩
  have hlast := (List.append_inj' h rfl).2
  exact Site.statement_ne_scratch (σ := ⟨folder, name⟩) (τ := σ)
    (by simpa [Site.file] using h.symm)

/-- As many statements are written as units have been converted, each at a place of its own, and
nothing else that has the name of a statement is changed. -/
theorem account_convertAll (hus : ∀ u ∈ us, u.AimsAt s (site u))
    (hapart : us.Pairwise fun u v => site u ≠ site v)
    (hrun : s.run (convertAll withDrop us) = (as, t)) (hunits : as.map Attempt.unit = us) :
    (statementPlaces site as).Nodup ∧
      (∀ l ∈ statementPlaces site as, ∃ a ∈ as, ∃ p d, a.outcome = .ok p ∧ a.definition = .ok d ∧
        s.locate false p = .ok l ∧
        t.entry? l = some (.file (Utf8.encode (d.render withDrop)))) ∧
      ∀ l, IsStatementPlace l → l ∉ statementPlaces site as → t.entry? l = s.entry? l := by
  rcases bears_convertAll hus hapart withDrop with ⟨hbears, hkept⟩
  rw [hrun] at hbears hkept
  refine ⟨nodup_statementPlaces (hunits ▸ hapart), fun l hl => ?_, fun l hstatement hl => ?_⟩
  · rcases mem_statementPlaces.1 hl with ⟨a, ha, ⟨p, hp⟩, rfl⟩
    rcases (hbears a ha).2.written p hp with ⟨hlocate, d, hd, hfile⟩
    exact ⟨a, ha, p, d, hp, hd, hlocate, hfile⟩
  · by_cases hwrites : ∃ u ∈ us, (site u).Writes l
    · rcases hwrites with ⟨u, hu, rfl | rfl⟩
      · rw [← hunits] at hu
        rcases List.mem_map.1 hu with ⟨a, ha, rfl⟩
        cases hout : a.outcome with
        | error f => exact (hbears a ha).2.failed f hout
        | ok p => exact absurd (mem_statementPlaces.2 ⟨a, ha, ⟨p, hout⟩, rfl⟩) hl
      · exact absurd hstatement not_isStatementPlace_scratch
    · exact hkept l fun u hu h => hwrites ⟨u, hu, h⟩

/-- The units that are discovered aim at different sites, if no link has the name of a scratch
file. -/
theorem aimsAt_discover {d : Discovery} (hs : s.WellFormed) (hd : (s.run (discover c)).1 = .ok d)
    (hnoLink : ∀ u ∈ d.units, s.ownKind u.scratchPath ≠ .ok .other) :
    (∀ u ∈ d.units, u.AimsAt s (s.siteOf u)) ∧
      d.units.Pairwise fun u v => s.siteOf u ≠ s.siteOf v := by
  rcases exists_of_run_discover hs hd with ⟨R, hroot, hdir, rfl⟩
  refine ⟨fun u hu => ?_, apart_discoveryIn hs hroot⟩
  have hfree := ownKind_ne_other_iff.1 (hnoLink u hu)
  rcases List.mem_map.1 hu with ⟨names, hnames, rfl⟩
  have hmodule := (mem_modulesIn hs).1 hnames
  rw [siteOf_ofNames hs hroot hmodule]
  exact aimsAt_ofNames hs hroot hmodule hfree

end Store

end ProcedureGen
