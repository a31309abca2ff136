import ProcedureGen.Proofs.Conversion.Unit

/-!
# Many units

The conversion of units that stand at different sites: each of them fares as if it were alone.

* `Store.Effect`: what differs between the states before and after, place by place;
* `Store.run_convertAll`: the outcomes and the effect of converting units in order;
* `Effect.perm`, `Effect.again`: neither the order of the units nor an earlier run matters;
* `Effect.wellFormed`, `Effect.linkFreeBelow`: what a state keeps.
-/

namespace ProcedureGen

open SourceUnit

namespace Store

variable {s t r : Store} {c : Settings} {site : SourceUnit → Site} {us vs : List SourceUnit}
  {u : SourceUnit} {before withDrop : Bool} {σ : Site} {l : Location}

/-- The second state is the first after some units have been converted, each as if it were alone. -/
structure Effect (s t : Store) (site : SourceUnit → Site) (withDrop : Bool)
    (us : List SourceUnit) : Prop where
  tree : SameTree s t
  written : ∀ u ∈ us, ∀ l, (site u).Writes l → t.entry? l = s.leaves withDrop u (site u) l
  rest : ∀ l, (∀ u ∈ us, ¬ (site u).Writes l) → t.entry? l = s.entry? l

namespace Effect

theorem nil (s : Store) (site : SourceUnit → Site) (withDrop : Bool) :
    Effect s s site withDrop [] :=
  ⟨.refl s, by simp, fun _ _ => rfl⟩

/-- The sources of all units are as before, also those of the units that have been converted. -/
theorem sources (h : Effect s t site withDrop us) (σ : Site) : SameSources s t σ :=
  ⟨h.tree, (h.rest _ fun _ _ => Site.not_writes_module).symm,
    (h.rest _ fun _ _ => Site.not_writes_declaration).symm⟩

/-- What a unit writes is as before, as long as the unit is not converted. -/
theorem untouched (h : Effect s t site withDrop us) (hne : ∀ v ∈ us, σ ≠ site v)
    (hl : σ.Writes l) : t.entry? l = s.entry? l :=
  h.rest l fun v hv hwrites => hne v hv (Site.writes_unique hl hwrites)

theorem singleton (hu : u.StandsAt s (site u)) (withDrop : Bool) :
    Effect s (s.run (Attempt.make withDrop u)).2 site withDrop [u] := by
  rcases run_make hu withDrop with ⟨-, htree, hentry⟩
  refine ⟨htree, fun v hv l _ => ?_, fun l hl => ?_⟩
  · rw [List.mem_singleton.1 hv]
    exact hentry l
  · rw [hentry l]
    exact leaves_of_not_writes (hl u (by simp))

theorem cons (h : Effect s t site withDrop [u]) (h' : Effect t r site withDrop us)
    (hus : s.Placed site (u :: us)) : Effect s r site withDrop (u :: us) := by
  have hapart := List.pairwise_cons.1 hus.apart
  refine ⟨h.tree.trans h'.tree, fun v hv l hl => ?_, fun l hl => ?_⟩
  · rcases List.mem_cons.1 hv with rfl | hv
    -- The later units leave alone what the first one has written.
    · rw [h'.untouched hapart.1 hl]
      exact h.written v (by simp) l hl
    -- The first unit has left alone what a later one reads, and what is at its places.
    · have hne : ∀ w ∈ [u], site v ≠ site w := by
        intro w hw
        rw [List.mem_singleton.1 hw]
        exact (hapart.1 v hv).symm
      rw [h'.written v hv l hl]
      exact ((h.sources (site v)).leaves (hus.stands v (List.mem_cons_of_mem u hv))
        (h.untouched hne hl).symm withDrop).symm
  · rw [h'.rest l fun v hv => hl v (List.mem_cons_of_mem u hv)]
    exact h.rest l fun v hv => hl v (by simp [List.mem_singleton.1 hv])

theorem agree (h : Effect s t site withDrop us) (h' : Effect s r site withDrop us) :
    Agree t r := by
  intro l
  by_cases hl : ∃ u ∈ us, (site u).Writes l
  · rcases hl with ⟨u, hu, hwrites⟩
    rw [h.written u hu l hwrites, h'.written u hu l hwrites]
  · have hnone : ∀ u ∈ us, ¬ (site u).Writes l := fun u hu hwrites => hl ⟨u, hu, hwrites⟩
    rw [h.rest l hnone, h'.rest l hnone]

theorem perm (h : Effect s t site withDrop us) (hvs : vs.Perm us) :
    Effect s t site withDrop vs :=
  ⟨h.tree, fun u hu => h.written u (hvs.mem_iff.1 hu),
    fun l hl => h.rest l fun u hu => hl u (hvs.mem_iff.2 hu)⟩

/-- A second run leaves what it would have left without the first. -/
theorem again (h : Effect s t site before us) (h' : Effect t r site withDrop us)
    (hus : s.Placed site us) : Effect s r site withDrop us := by
  refine ⟨h.tree.trans h'.tree, fun u hu l hl => ?_, fun l hl => ?_⟩
  · rw [h'.written u hu l hl]
    exact (h.sources (site u)).leaves_again (hus.stands u hu) (h.written u hu l hl) withDrop
  · rw [h'.rest l hl, h.rest l hl]

theorem wellFormed (h : Effect s t site withDrop us) (hs : s.WellFormed)
    (hus : s.Placed site us) : t.WellFormed := by
  have hplace : ∀ {l : Location} {y : Text}, t.entry? (l ++ [y]) ≠ none →
      s.entry? l = some .directory ∧ Path.FileName y ∧ Text.byteSize y ≤ maxNameSize := by
    intro l y hentry
    by_cases hbefore : s.entry? (l ++ [y]) = none
    -- Only the statement of a unit can be new.
    · have hwritten : ∃ u ∈ us, (site u).Writes (l ++ [y]) := by
        by_contra hnone
        rw [h.rest _ fun u hu hwrites => hnone ⟨u, hu, hwrites⟩] at hentry
        exact hentry hbefore
      rcases hwritten with ⟨u, hu, hwrites⟩
      rw [h.written u hu _ hwrites] at hentry
      rcases fits_of_leaves hbefore hentry with ⟨heq, hfits⟩
      rcases List.append_inj' heq rfl with ⟨rfl, hy⟩
      obtain rfl : y = (site u).name ++ statementSuffix := by simpa using hy
      have hstands := hus.stands u hu
      exact ⟨hstands.folder, hstands.names _ (by decide), hfits.statement⟩
    · exact ⟨hs.parent hbefore, hs.name hbefore⟩
  exact ⟨fun hentry => h.tree.directory_iff.1 (hplace hentry).1, fun hentry => (hplace hentry).2⟩

theorem isModule_iff (h : Effect s t site withDrop us) {R : Location} {names : List Text} :
    t.IsModule c R names ↔ s.IsModule c R names := by
  have hentry : (∃ name : Text, name ≠ [] ∧ names.getLast? = some (name ++ moduleSuffix)) →
      t.entry? (R ++ names) = s.entry? (R ++ names) := by
    rintro ⟨name, -, hlast⟩
    rcases List.getLast?_eq_some_iff.1 hlast with ⟨folder, rfl⟩
    rw [← List.append_assoc]
    exact h.rest (Site.file ⟨R ++ folder, name⟩ moduleSuffix) fun _ _ => Site.not_writes_module
  exact ⟨fun hmodule => hmodule.of_sameTree h.tree.symm (hentry hmodule.suffix).symm,
    fun hmodule => hmodule.of_sameTree h.tree (hentry hmodule.suffix)⟩

end Effect

/-- Units that are converted in order fare as if each were alone. -/
theorem run_convertAll (hus : s.Placed site us) (withDrop : Bool) :
    (s.run (convertAll withDrop us)).1 = us.map (fun u => s.attempt (site u) u) ∧
      Effect s (s.run (convertAll withDrop us)).2 site withDrop us := by
  -- The rest of the units is converted in the state that the first one leaves.
  induction us generalizing s with
  | nil => exact ⟨rfl, .nil s site withDrop⟩
  | cons u us ih =>
      have hu := hus.stands u (by simp)
      have hfirst := Effect.singleton hu withDrop
      have hrest : s.Placed site us :=
        ⟨fun v hv => hus.stands v (List.mem_cons_of_mem u hv), (List.pairwise_cons.1 hus.apart).2⟩
      rcases ih (hrest.of_sameTree hfirst.tree) with ⟨has, heffect⟩
      have hsame : us.map (fun v => s.attempt (site v) v) =
          us.map fun v => Store.attempt (s.run (Attempt.make withDrop u)).2 (site v) v :=
        List.map_congr_left fun v hv => (hfirst.sources (site v)).attempt (hrest.stands v hv)
      unfold convertAll
      simp only [run_bind, run_pure, List.map_cons]
      rw [(run_make hu withDrop).1, has, hsame]
      exact ⟨rfl, hfirst.cons heffect hus⟩

/-! ## Whole trees -/

/-- A run over the root of some settings converts the units that are discovered. -/
theorem run_convertTree {R : Location} (hs : s.WellFormed) (hroot : s.locate true c.root = .ok R)
    (hdir : s.entry? R = some .directory) (hus : s.Placed site (s.discoveryIn c R).units) :
    ∃ t, s.run (convertTree c) =
        (.ok ⟨s.discoveryIn c R, (s.discoveryIn c R).units.map fun u => s.attempt (site u) u⟩,
          t) ∧
      Effect s t site c.drop (s.discoveryIn c R).units := by
  rcases run_convertAll hus c.drop with ⟨has, heffect⟩
  refine ⟨_, ?_, heffect⟩
  unfold convertTree
  simp only [run_bind, run_discover hs hroot hdir, run_pure, has]

end Store

end ProcedureGen
