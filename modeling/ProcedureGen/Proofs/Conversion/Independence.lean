import ProcedureGen.Proofs.Conversion.Run

/-!
# Independence

What a run over a tree does not depend on: earlier runs, with or without statements that drop
functions, and the order of the units.

* `Effect.units_discoveryIn`: discovery finds the same before and after a run;
* `Effect.map_attempt`: units fare the same before and after a run.
-/

namespace ProcedureGen

open SourceUnit

namespace Store

variable {s t : Store} {c : Settings} {site : SourceUnit → Site} {us : List SourceUnit}
  {R : Location} {withDrop : Bool}

/-- Discovery finds after a run what it has found before. -/
theorem Effect.units_discoveryIn (h : Effect s t site withDrop us) (hs : s.WellFormed)
    (hus : s.Placed site us) :
    (t.discoveryIn c R).units = (s.discoveryIn c R).units := by
  have hmodules : t.modulesIn c R = s.modulesIn c R :=
    modulesIn_congr (h.wellFormed hs hus) hs fun _ => h.isModule_iff
  simp only [discoveryIn, hmodules]

/-- Units fare after a run as they do before it. -/
theorem Effect.map_attempt (h : Effect s t site withDrop us) (hus : s.Placed site us) :
    us.map (fun u => t.attempt (site u) u) = us.map fun u => s.attempt (site u) u :=
  List.map_congr_left fun u hu => ((h.sources (site u)).attempt (hus.stands u hu)).symm

/-- A second run over a tree without links leaves and answers what it would have without the first,
so that repeating a run changes nothing. -/
theorem regenerate (s : Store) (c : Settings) (first second : Bool) (hs : s.WellFormed)
    (hlinks : s.LinkFreeBelow c.root) (hroot : s.kind? c.root = some .directory) :
    ∃ (r₁ r₂ r : Conversion) (t₁ t₂ t : Store),
      s.run (convertTree { c with drop := first }) = (.ok r₁, t₁) ∧
      t₁.run (convertTree { c with drop := second }) = (.ok r₂, t₂) ∧
      s.run (convertTree { c with drop := second }) = (.ok r, t) ∧
      Agree t₂ t ∧ r₂.summary = r.summary ∧
      (first = second → Agree t₂ t₁ ∧ r₂.summary = r₁.summary) := by
  rcases kind?_eq_directory_iff.1 hroot with ⟨R, hlocate, hdir⟩
  have hus : s.Placed s.siteOf (s.discoveryIn c R).units := placed_discoveryIn hs hlocate hlinks
  rcases run_convertTree (c := { c with drop := first }) hs hlocate hdir hus with ⟨t₁, hrun₁, h₁⟩
  rcases run_convertTree (c := { c with drop := second }) hs hlocate hdir hus with ⟨t, hrun, h⟩
  -- The first run leaves a state of the same kind, in which discovery finds the same.
  have hlocate₁ : t₁.locate true c.root = .ok R := by
    rw [← hlocate]
    apply locate_of_sameTree h₁.tree
    rw [hlocate]
    exact settled_ok R
  have hunits : (t₁.discoveryIn c R).units = (s.discoveryIn c R).units :=
    h₁.units_discoveryIn hs hus
  have hus₁ : t₁.Placed s.siteOf (t₁.discoveryIn c R).units := by
    rw [hunits]
    exact hus.of_sameTree h₁.tree
  obtain ⟨t₂, hrun₂, h₂⟩ := run_convertTree (c := { c with drop := second })
    (h₁.wellFormed hs hus) hlocate₁ (h₁.tree.directory_iff.1 hdir) hus₁
  have hsecond : Effect t₁ t₂ s.siteOf second (s.discoveryIn c R).units := hunits ▸ h₂
  have hagree : Agree t₂ t := (h₁.again hsecond hus).agree h
  have hattempts : (t₁.discoveryIn c R).units.map (fun u => t₁.attempt (s.siteOf u) u) =
      (s.discoveryIn c R).units.map fun u => s.attempt (s.siteOf u) u := by
    rw [hunits]
    exact h₁.map_attempt hus
  refine ⟨_, _, _, t₁, t₂, t, hrun₁, hrun₂, hrun, hagree, congrArg Summary.ofAttempts hattempts,
    fun hsame => ?_⟩
  subst hsame
  have ht : t = t₁ := by
    rw [hrun₁] at hrun
    exact (congrArg Prod.snd hrun).symm
  exact ⟨ht ▸ hagree, congrArg Summary.ofAttempts hattempts⟩

theorem regenerate_sample :
    sample.WellFormed ∧ sample.LinkFreeBelow sampleSettings.root ∧
      sample.kind? sampleSettings.root = some .directory ∧
      ∃ (r₁ r₂ r : Conversion) (t₁ t₂ t : Store),
        sample.run (convertTree { sampleSettings with drop := true }) = (.ok r₁, t₁) ∧
        t₁.run (convertTree { sampleSettings with drop := false }) = (.ok r₂, t₂) ∧
        sample.run (convertTree { sampleSettings with drop := false }) = (.ok r, t) ∧
        Agree t₂ t ∧ r₂.summary = r.summary := by
  have hs := wellFormed_sample
  have hlinks := linkFreeBelow_sample
  have hroot : sample.kind? sampleSettings.root = some .directory := by decide +kernel
  obtain ⟨r₁, r₂, r, t₁, t₂, t, hrun₁, hrun₂, hrun, hagree, hsummary, -⟩ :=
    regenerate sample sampleSettings true false hs hlinks hroot
  exact ⟨hs, hlinks, hroot, r₁, r₂, r, t₁, t₂, t, hrun₁, hrun₂, hrun, hagree, hsummary⟩

/-- Units of a tree without links fare the same, and leave the same, in whatever order they are
converted. -/
theorem convertAll_perm (s : Store) (c : Settings) (d : Discovery) (vs : List SourceUnit)
    (withDrop : Bool) (hs : s.WellFormed) (hlinks : s.LinkFreeBelow c.root)
    (hd : (s.run (discover c)).1 = .ok d) (hvs : vs.Perm d.units) :
    ∃ (as bs : List Attempt) (t r : Store),
      s.run (convertAll withDrop vs) = (as, t) ∧ s.run (convertAll withDrop d.units) = (bs, r) ∧
      Agree t r ∧
      as.map Attempt.unit = vs ∧ bs.map Attempt.unit = d.units ∧
      (∀ a ∈ as, ∀ b ∈ bs, a.unit = b.unit → a.outcome = b.outcome) ∧
      (Summary.ofAttempts as).converted.Perm (Summary.ofAttempts bs).converted ∧
      (Summary.ofAttempts as).failed.Perm (Summary.ofAttempts bs).failed := by
  rcases exists_of_run_discover hs hd with ⟨R, hlocate, hdir, rfl⟩
  have hus : s.Placed s.siteOf (s.discoveryIn c R).units := placed_discoveryIn hs hlocate hlinks
  rcases run_convertAll (hus.perm hvs) withDrop with ⟨has, h⟩
  rcases run_convertAll hus withDrop with ⟨hbs, h'⟩
  have hperm := hvs.map fun u => s.attempt (s.siteOf u) u
  refine ⟨_, _, _, _, Prod.ext has rfl, Prod.ext hbs rfl, (h.perm hvs.symm).agree h', ?_, ?_,
    fun a ha b hb hunit => ?_, hperm.filterMap _, hperm.filterMap _⟩
  · simp [Function.comp_def]
  · simp [Function.comp_def]
  · rcases List.mem_map.1 ha with ⟨u, -, rfl⟩
    rcases List.mem_map.1 hb with ⟨v, -, rfl⟩
    obtain rfl : u = v := by simpa using hunit
    rfl

theorem convertAll_perm_sample :
    sample.WellFormed ∧ sample.LinkFreeBelow sampleSettings.root ∧
      (sample.run (discover sampleSettings)).1 = .ok ⟨sampleUnits, []⟩ ∧
      sampleUnits.reverse.Perm sampleUnits ∧
      ∃ (as bs : List Attempt) (t r : Store),
        sample.run (convertAll true sampleUnits.reverse) = (as, t) ∧
        sample.run (convertAll true sampleUnits) = (bs, r) ∧ Agree t r ∧
        (∀ a ∈ as, ∀ b ∈ bs, a.unit = b.unit → a.outcome = b.outcome) := by
  have hs := wellFormed_sample
  have hlinks := linkFreeBelow_sample
  have hd := run_discover_sample
  have hvs : sampleUnits.reverse.Perm sampleUnits := List.reverse_perm sampleUnits
  obtain ⟨as, bs, t, r, has, hbs, hagree, -, -, houtcomes, -⟩ :=
    convertAll_perm sample sampleSettings ⟨sampleUnits, []⟩ sampleUnits.reverse true hs hlinks hd
      hvs
  exact ⟨hs, hlinks, hd, hvs, as, bs, t, r, has, hbs, hagree, houtcomes⟩

end Store

end ProcedureGen
