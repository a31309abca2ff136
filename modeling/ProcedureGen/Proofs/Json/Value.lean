import Mathlib.Data.Char
import Mathlib.Data.List.Forall2
import Mathlib.Data.List.Lex
import Mathlib.Data.List.Pairwise
import ProcedureGen.Json.Value

/-!
# Values of drafts

* `Value.ofDraft_array_eq_ok_iff`, `Value.ofDraft_object_eq_ok_iff`: the drafts with parts that have
  a value;
* `keepLast`: members without those that a later one with the same key takes the place of;
* `Value.ofMembers_keepLast`: the others do not count;
* `Value.perm_insertMembers`: members with different keys are all there, in some order.
-/

namespace ProcedureGen

namespace Json

namespace Value

variable {items : List Draft} {members : List (Text × Draft)} {stop : Option Fault} {v : Value}

/-- The parts of a draft have values. -/
abbrev Stands (m : Text × Draft) (w : Text × Value) : Prop := m.1 = w.1 ∧ ofDraft m.2 = .ok w.2

theorem ofDrafts_eq_ok_iff {vs : List Value} :
    ofDrafts items = .ok vs ↔ List.Forall₂ (fun d v => ofDraft d = .ok v) items vs := by
  induction items generalizing vs with
  | nil => simp [ofDrafts, eq_comm]
  | cons d items ih =>
      rw [ofDrafts, List.forall₂_cons_left_iff]
      simp only [← ih]
      cases ofDraft d with
      | error f => simp [bind, Except.bind]
      | ok v =>
          cases ofDrafts items <;> simp [bind, Except.bind, pure, Except.pure, eq_comm]

theorem ofDraftMembers_eq_ok_iff {vs : List (Text × Value)} :
    ofDraftMembers members = .ok vs ↔ List.Forall₂ Stands members vs := by
  induction members generalizing vs with
  | nil => simp [ofDraftMembers, eq_comm]
  | cons m members ih =>
      rcases m with ⟨key, d⟩
      rw [ofDraftMembers, List.forall₂_cons_left_iff]
      simp only [← ih]
      cases hd : ofDraft d with
      | error f => simp [bind, Except.bind, hd]
      | ok v =>
          cases ofDraftMembers members with
          | error f => simp [bind, Except.bind]
          | ok ws =>
              simp only [bind, Except.bind, pure, Except.pure, Except.ok.injEq, Stands, hd]
              constructor
              · rintro rfl
                exact ⟨_, _, ⟨rfl, rfl⟩, rfl, rfl⟩
              · rintro ⟨⟨key', v'⟩, _, ⟨hkey, hv⟩, rfl, rfl⟩
                rw [hkey, hv]

theorem ofDraft_array_eq_ok_iff :
    ofDraft (.array items stop) = .ok v ↔
      stop = none ∧ ∃ vs, List.Forall₂ (fun d v => ofDraft d = .ok v) items vs ∧ v = .array vs := by
  simp only [← ofDrafts_eq_ok_iff, ofDraft]
  cases ofDrafts items <;> cases stop <;> simp [bind, Except.bind, eq_comm]

theorem ofDraft_object_eq_ok_iff :
    ofDraft (.object members stop) = .ok v ↔
      stop = none ∧ ∃ vs, List.Forall₂ Stands members vs ∧ v = ofMembers vs := by
  simp only [← ofDraftMembers_eq_ok_iff, ofDraft]
  cases ofDraftMembers members <;> cases stop <;> simp [bind, Except.bind, eq_comm]

theorem map_fst_of_stands {vs : List (Text × Value)} (h : List.Forall₂ Stands members vs) :
    members.map Prod.fst = vs.map Prod.fst := by
  induction h with
  | nil => rfl
  | cons hm _ ih => rw [List.map_cons, List.map_cons, hm.1, ih]

theorem drafts_eq_map (vs : List Value) : drafts vs = vs.map draft := by
  induction vs with
  | nil => rfl
  | cons v vs ih => rw [drafts, List.map_cons, ih]

theorem memberDrafts_eq_map (vs : List (Text × Value)) :
    memberDrafts vs = vs.map fun m => (m.1, m.2.draft) := by
  induction vs with
  | nil => rfl
  | cons m vs ih => rw [memberDrafts, List.map_cons, ih]

/-! ## The last members -/

/-- Members without those that a later one with the same key takes the place of. -/
def keepLast {α : Type} (ms : List (Text × α)) : List (Text × α) :=
  ms.pwFilter fun m m' => m.1 ≠ m'.1

theorem mem_of_mem_keepLast {α : Type} {ms : List (Text × α)} {m : Text × α}
    (h : m ∈ keepLast ms) : m ∈ ms := (List.pwFilter_sublist ms).subset h

theorem keepLast_map {α β : Type} (f : Text × α → β) (ms : List (Text × α)) :
    keepLast (ms.map fun m => (m.1, f m)) = (keepLast ms).map fun m => (m.1, f m) :=
  List.pwFilter_map _ _

theorem forall_mem_keepLast {α : Type} {ms : List (Text × α)} {m : Text × α} :
    (∀ m' ∈ keepLast ms, m.1 ≠ m'.1) ↔ ∀ m' ∈ ms, m.1 ≠ m'.1 :=
  List.forall_mem_pwFilter (fun h => by grind) m ms

theorem keepLast_of_mem {α : Type} {ms : List (Text × α)} {m : Text × α}
    (h : m.1 ∈ ms.map Prod.fst) : keepLast (m :: ms) = keepLast ms := by
  refine List.pwFilter_cons_of_neg fun hall => ?_
  rcases List.mem_map.1 h with ⟨m', hm', hkey⟩
  exact forall_mem_keepLast.1 hall m' hm' hkey.symm

theorem keepLast_of_notMem {α : Type} {ms : List (Text × α)} {m : Text × α}
    (h : m.1 ∉ ms.map Prod.fst) : keepLast (m :: ms) = m :: keepLast ms := by
  refine List.pwFilter_cons_of_pos (forall_mem_keepLast.2 fun m' hm' hkey => h ?_)
  exact hkey ▸ List.mem_map_of_mem hm'

theorem stands_keepLast {vs : List (Text × Value)} (h : List.Forall₂ Stands members vs) :
    List.Forall₂ Stands (keepLast members) (keepLast vs) := by
  induction h with
  | nil => exact .nil
  | @cons m v ms vs hm hms ih =>
      have hkeys := map_fst_of_stands hms
      by_cases hmem : m.1 ∈ ms.map Prod.fst
      · rw [keepLast_of_mem hmem, keepLast_of_mem (by rwa [← hkeys, ← hm.1])]
        exact ih
      · rw [keepLast_of_notMem hmem, keepLast_of_notMem (by rwa [← hkeys, ← hm.1])]
        exact .cons hm ih

/-! ## Members in their places -/

variable {key key' : Text} {v w : Value} {ms : List (Text × Value)}

/-- Puts members in their places. -/
abbrev insertMembers (ms added : List (Text × Value)) : List (Text × Value) :=
  added.foldl (fun ms m => insertMember m.1 m.2 ms) ms

/-- A member takes the place of one with the same key. -/
theorem insertMember_same (key : Text) (v w : Value) (ms : List (Text × Value)) :
    insertMember key v (insertMember key w ms) = insertMember key v ms := by
  induction ms with
  | nil => simp [insertMember]
  | cons m ms ih =>
      rcases m with ⟨k, u⟩
      rcases lt_trichotomy key k with hlt | rfl | hlt
      · simp [insertMember, hlt, hlt.ne]
      · simp [insertMember]
      · simp [insertMember, hlt.ne', hlt.not_gt, ih]

/-- Members with different keys do not get in each other's way. -/
theorem insertMember_comm (hne : key ≠ key') (v w : Value) (ms : List (Text × Value)) :
    insertMember key v (insertMember key' w ms) = insertMember key' w (insertMember key v ms) := by
  induction ms with
  | nil => rcases lt_or_gt_of_ne hne with h | h <;> simp [insertMember, h, h.ne, h.ne', h.not_gt]
  | cons m ms ih =>
      rcases m with ⟨k, u⟩
      simp only [insertMember]
      grind [insertMember]

/-- A member that a later one takes the place of does not count. -/
theorem insertMembers_insertMember {added : List (Text × Value)}
    (h : key ∈ added.map Prod.fst) (v : Value) (ms : List (Text × Value)) :
    insertMembers (insertMember key v ms) added = insertMembers ms added := by
  induction added generalizing ms with
  | nil => cases h
  | cons m added ih =>
      rcases m with ⟨k, w⟩
      by_cases hkey : key = k
      · -- The member meets the one that takes its place.
        subst hkey
        simp only [insertMembers, List.foldl_cons, insertMember_same]
      · have hmem : key ∈ added.map Prod.fst := by simpa [hkey] using h
        simp only [insertMembers, List.foldl_cons, insertMember_comm (Ne.symm hkey)]
        exact ih hmem _

theorem insertMembers_keepLast (ms added : List (Text × Value)) :
    insertMembers ms (keepLast added) = insertMembers ms added := by
  induction added generalizing ms with
  | nil => rfl
  | cons m added ih =>
      by_cases hmem : m.1 ∈ added.map Prod.fst
      · rw [keepLast_of_mem hmem, ih]
        exact (insertMembers_insertMember hmem m.2 ms).symm
      · rw [keepLast_of_notMem hmem]
        exact ih _

/-- Of the members with one key the last one counts. -/
theorem ofMembers_keepLast (ms : List (Text × Value)) : ofMembers (keepLast ms) = ofMembers ms :=
  congrArg object (insertMembers_keepLast [] ms)

theorem perm_insertMember (h : key ∉ ms.map Prod.fst) (v : Value) :
    (insertMember key v ms).Perm ((key, v) :: ms) := by
  induction ms with
  | nil => exact .refl _
  | cons m ms ih =>
      rcases m with ⟨k, w⟩
      simp only [List.map_cons, List.mem_cons, not_or] at h
      rw [insertMember, if_neg h.1]
      split
      · exact .refl _
      · exact ((ih h.2).cons _).trans (.swap _ _ _)

/-- Members with different keys are all there. -/
theorem perm_insertMembers {added : List (Text × Value)}
    (h : ((ms ++ added).map Prod.fst).Nodup) : (insertMembers ms added).Perm (ms ++ added) := by
  induction added generalizing ms with
  | nil => simp
  | cons m added ih =>
      -- The first member that is added may as well have been there.
      have hmove : (ms ++ m :: added).Perm (m :: ms ++ added) := List.perm_middle
      have hnodup := (hmove.map Prod.fst).nodup_iff.1 h
      have hkey : m.1 ∉ ms.map Prod.fst := by
        rw [List.cons_append, List.map_cons, List.nodup_cons, List.map_append] at hnodup
        exact fun hmem => hnodup.1 (List.mem_append_left _ hmem)
      have hput := (perm_insertMember hkey m.2).append_right added
      have hrest := ih ((hput.map Prod.fst).nodup_iff.2 hnodup)
      exact hrest.trans (hput.trans hmove.symm)

end Value

end Json

end ProcedureGen
