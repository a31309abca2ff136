import Mathlib.Data.List.Perm.Basic
import ProcedureGen.Conversion
import ProcedureGen.Proofs.Discovery.Exact

/-!
# Units in order

Units are converted one after the other, each in the state that those before it leave.  This holds
of any units in any state: some may be the same, some may stand in the way of others.

* `Summary.succeeded`: the units that have been converted, as often as they have been;
* `Summary.converted_eq`, `Summary.perm_units`: what a summary lists, and that every unit counts;
* `Store.run_convertAll_append`: a list of units is converted part by part;
* `Store.convertAll_compositional`: the parts of a run and of its summary.
-/

namespace ProcedureGen

/-! ## Summaries -/

namespace Summary

variable {as : List Attempt} {u : SourceUnit}

/-- The units that have been converted, each as often as it has been. -/
def succeeded (as : List Attempt) : List SourceUnit :=
  (as.filter fun a => a.path?.isSome).map Attempt.unit

theorem ofAttempts_append (as bs : List Attempt) :
    ofAttempts (as ++ bs) = ⟨(ofAttempts as).converted ++ (ofAttempts bs).converted,
      (ofAttempts as).failed ++ (ofAttempts bs).failed⟩ := by
  simp only [ofAttempts, List.filterMap_append]

theorem length_converted (as : List Attempt) :
    (ofAttempts as).converted.length = (succeeded as).length := by
  rw [ofAttempts, succeeded, List.length_map, List.length_filterMap_eq_countP,
    List.countP_eq_length_filter]

/-- The statements that are listed are those of the units that have been converted. -/
theorem converted_eq (h : ∀ a ∈ as, ∀ p, a.outcome = .ok p → p = a.unit.statementPath) :
    (ofAttempts as).converted = (succeeded as).map SourceUnit.statementPath := by
  unfold ofAttempts succeeded
  induction as with
  | nil => rfl
  | cons a as ih =>
      have hrest := ih fun b hb => h b (List.mem_cons_of_mem a hb)
      have hfirst := h a (by simp)
      simp only [List.filterMap_cons, List.filter_cons, Attempt.path?] at hrest ⊢
      cases hout : a.outcome with
      | error f => simpa using hrest
      | ok p => simp [hrest, hfirst p hout]

/-- All other units are listed as failed. -/
theorem failed_eq (as : List Attempt) :
    (ofAttempts as).failed.map Prod.fst =
      (as.filter fun a => !a.path?.isSome).map Attempt.unit := by
  unfold ofAttempts
  induction as with
  | nil => rfl
  | cons a as ih =>
      simp only [List.filterMap_cons, List.filter_cons, Attempt.path?, Attempt.failure?] at ih ⊢
      cases a.outcome with
      | error f => simp [ih]
      | ok p => simpa using ih

theorem succeeded_sublist (as : List Attempt) : (succeeded as).Sublist (as.map Attempt.unit) :=
  List.filter_sublist.map Attempt.unit

/-- Every unit counts once for each time that it is attempted. -/
theorem perm_units (as : List Attempt) :
    (succeeded as ++ (ofAttempts as).failed.map Prod.fst).Perm (as.map Attempt.unit) := by
  rw [failed_eq, succeeded, ← List.map_append]
  exact (List.filter_append_perm (fun a : Attempt => a.path?.isSome) as).map Attempt.unit

/-- A unit that is not listed as failed has been converted each time. -/
theorem count_succeeded (h : ∀ f, (u, f) ∉ (ofAttempts as).failed) :
    (succeeded as).count u = (as.map Attempt.unit).count u := by
  have hnone : u ∉ (ofAttempts as).failed.map Prod.fst := by
    intro hmem
    rcases List.mem_map.1 hmem with ⟨⟨v, f⟩, hf, rfl⟩
    exact h f hf
  rw [← (perm_units as).count_eq, List.count_append, List.count_eq_zero.2 hnone, Nat.add_zero]

end Summary

/-! ## Runs -/

namespace Store

variable {s : Store} {withDrop : Bool} {u : SourceUnit} {us : List SourceUnit} {p : Path}

theorem run_make_unit (s : Store) (withDrop : Bool) (u : SourceUnit) :
    (s.run (Attempt.make withDrop u)).1.unit = u := by
  unfold Attempt.make
  rw [run_bind]
  split <;> rfl

/-- A statement is written at the path of its unit, or not at all. -/
theorem run_make_path (h : (s.run (Attempt.make withDrop u)).1.outcome = .ok p) :
    p = u.statementPath := by
  unfold Attempt.make at h
  rw [run_bind] at h
  split at h
  next => cases h
  next d _ =>
    rw [run_bind] at h
    unfold Definition.write at h
    rw [run_bind] at h
    dsimp only [run_pure] at h
    split at h
    next => exact (Except.ok.inj h).symm
    next => cases h

theorem run_convertAll_cons (s : Store) (withDrop : Bool) (u : SourceUnit) (us : List SourceUnit) :
    s.run (convertAll withDrop (u :: us)) =
      ((s.run (Attempt.make withDrop u)).1 ::
          ((s.run (Attempt.make withDrop u)).2.run (convertAll withDrop us)).1,
        ((s.run (Attempt.make withDrop u)).2.run (convertAll withDrop us)).2) := rfl

theorem run_convertAll_units (s : Store) (withDrop : Bool) (us : List SourceUnit) :
    (s.run (convertAll withDrop us)).1.map Attempt.unit = us := by
  induction us generalizing s with
  | nil => rfl
  | cons u us ih => rw [run_convertAll_cons, List.map_cons, run_make_unit, ih]

theorem run_convertAll_paths (s : Store) (withDrop : Bool) (us : List SourceUnit) :
    ∀ a ∈ (s.run (convertAll withDrop us)).1, ∀ p, a.outcome = .ok p →
      p = a.unit.statementPath := by
  induction us generalizing s with
  | nil => simp [convertAll]
  | cons u us ih =>
      rw [run_convertAll_cons, List.forall_mem_cons, run_make_unit]
      exact ⟨fun p => run_make_path, ih _⟩

/-- The later units are converted in the state that the earlier ones leave. -/
theorem run_convertAll_append (s : Store) (withDrop : Bool) (us vs : List SourceUnit) :
    s.run (convertAll withDrop (us ++ vs)) =
      ((s.run (convertAll withDrop us)).1 ++
          ((s.run (convertAll withDrop us)).2.run (convertAll withDrop vs)).1,
        ((s.run (convertAll withDrop us)).2.run (convertAll withDrop vs)).2) := by
  induction us generalizing s with
  | nil => rfl
  | cons u us ih =>
      rw [List.cons_append, run_convertAll_cons, ih, run_convertAll_cons]
      rfl

/-- Whatever comes of the units before it, a unit is attempted in the state that they leave. -/
theorem getElem?_run_convertAll (s : Store) (withDrop : Bool) (us : List SourceUnit)
    (u : SourceUnit) (vs : List SourceUnit) :
    (s.run (convertAll withDrop (us ++ u :: vs))).1[us.length]? =
      some ((s.run (convertAll withDrop us)).2.run (Attempt.make withDrop u)).1 := by
  have hlength : (s.run (convertAll withDrop us)).1.length = us.length := by
    rw [← List.length_map Attempt.unit, run_convertAll_units]
  rw [run_convertAll_append, List.getElem?_append_right (Nat.le_of_eq hlength), hlength,
    Nat.sub_self, run_convertAll_cons]
  rfl

/-- Two lists of units, one after the other, leave and answer what they leave and answer together.
Every unit is attempted once, where it stands, and the statements that are listed are those of the
units that have not failed, in their order and as often as they stand there. -/
theorem convertAll_compositional (s : Store) (withDrop : Bool) (us vs : List SourceUnit) :
    ∃ (as bs cs : List Attempt) (t r : Store),
      s.run (convertAll withDrop us) = (as, t) ∧ t.run (convertAll withDrop vs) = (bs, r) ∧
      s.run (convertAll withDrop (us ++ vs)) = (cs, r) ∧
      (Summary.ofAttempts cs).converted =
        (Summary.ofAttempts as).converted ++ (Summary.ofAttempts bs).converted ∧
      (Summary.ofAttempts cs).failed =
        (Summary.ofAttempts as).failed ++ (Summary.ofAttempts bs).failed ∧
      cs.map Attempt.unit = us ++ vs ∧
      (∀ before u after, us ++ vs = before ++ u :: after → cs[before.length]? =
        some ((s.run (convertAll withDrop before)).2.run (Attempt.make withDrop u)).1) ∧
      (Summary.ofAttempts cs).converted =
        (Summary.succeeded cs).map (fun u => u.stem.withSuffix ".sql") ∧
      (Summary.succeeded cs).Sublist (us ++ vs) ∧
      (Summary.succeeded cs ++ (Summary.ofAttempts cs).failed.map Prod.fst).Perm (us ++ vs) ∧
      ∀ u, (∀ f, (u, f) ∉ (Summary.ofAttempts cs).failed) →
        (Summary.succeeded cs).count u = (us ++ vs).count u := by
  obtain ⟨as, t, hus⟩ : ∃ as t, s.run (convertAll withDrop us) = (as, t) := ⟨_, _, rfl⟩
  obtain ⟨bs, r, hvs⟩ : ∃ bs r, t.run (convertAll withDrop vs) = (bs, r) := ⟨_, _, rfl⟩
  have hboth : s.run (convertAll withDrop (us ++ vs)) = (as ++ bs, r) := by
    rw [run_convertAll_append, hus, hvs]
  have hunits := run_convertAll_units s withDrop (us ++ vs)
  have hpaths := run_convertAll_paths s withDrop (us ++ vs)
  rw [hboth] at hunits hpaths
  refine ⟨as, bs, as ++ bs, t, r, hus, hvs, hboth, ?_, ?_, hunits, fun before u after h => ?_,
    Summary.converted_eq hpaths, ?_, ?_, fun u hu => ?_⟩
  · rw [Summary.ofAttempts_append]
  · rw [Summary.ofAttempts_append]
  · have hunit := getElem?_run_convertAll s withDrop before u after
    rwa [← h, hboth] at hunit
  · rw [← hunits]
    exact Summary.succeeded_sublist (as ++ bs)
  · rw [← hunits]
    exact Summary.perm_units (as ++ bs)
  · rw [← hunits]
    exact Summary.count_succeeded hu

/-- A module of the sample and one that is not there. -/
def mixedStart : List SourceUnit := [⟨"/r/a", "a", ""⟩, ⟨"/r/b", "b", ""⟩]

/-- The same module by another path, with a schema that cannot be used, and as before. -/
def mixedRest : List SourceUnit :=
  [⟨"/d/a", "a", ""⟩, ⟨"/r/a", "a", "no-schema"⟩, ⟨"/r/a", "a", ""⟩]

theorem convertAll_compositional_mixed :
    ∃ (as bs cs : List Attempt) (t r : Store),
      sample.run (convertAll true mixedStart) = (as, t) ∧
      t.run (convertAll true mixedRest) = (bs, r) ∧
      sample.run (convertAll true (mixedStart ++ mixedRest)) = (cs, r) ∧
      (Summary.ofAttempts cs).converted =
        ["/r/a.sql".toList, "/d/a.sql".toList, "/r/a.sql".toList] ∧
      cs[2]? = some ((sample.run (convertAll true mixedStart)).2.run
        (Attempt.make true ⟨"/d/a", "a", ""⟩)).1 ∧
      (Summary.succeeded cs).count ⟨"/r/a", "a", ""⟩ = 2 := by
  obtain ⟨as, bs, cs, t, r, has, hbs, hcs, -, -, -, hunit, -, -, -, hcount⟩ :=
    convertAll_compositional sample true mixedStart mixedRest
  have hsummary : (Summary.ofAttempts cs).converted =
        ["/r/a.sql".toList, "/d/a.sql".toList, "/r/a.sql".toList] ∧
      ⟨"/r/a", "a", ""⟩ ∉ (Summary.ofAttempts cs).failed.map Prod.fst := by
    rw [show cs = _ from (congrArg Prod.fst hcs).symm]
    decide +kernel
  refine ⟨as, bs, cs, t, r, has, hbs, hcs, hsummary.1,
    hunit mixedStart ⟨"/d/a", "a", ""⟩ mixedRest.tail rfl, ?_⟩
  rw [hcount _ fun f hf => hsummary.2 (List.mem_map_of_mem hf)]
  decide

end Store
end ProcedureGen
