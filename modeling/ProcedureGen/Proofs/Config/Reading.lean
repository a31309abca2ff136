import ProcedureGen.Config.Reading
import ProcedureGen.Proofs.Json.Value

/-!
# Reading configurations twice

A configuration is read from the draft of a text, or from the value that the text has.

* `Config.set_comm`: the order in which fields are set does not matter;
* `Config.setMembers_perm`: nor does the order of members;
* `Config.nodup_of_setMembers`: a member cannot be repeated;
* `Config.set_draft`: a draft and its value say the same of a field;
* `Config.ofValue_eq_ok_iff`: a draft and its value are the same configuration, if they are one.
-/

namespace ProcedureGen

namespace Config

open Json (Draft Scalar Value)

variable {c c' : Config} {f g : Field} {d e : Draft} {v : Value} {seen seen' : List Field}
  {key : Text} {ms ms' : List (Text × Draft)} {stop : Option Json.Fault}

/-! ## Fields -/

/-- The configuration with a field of another one. -/
def withField (c : Config) (f : Field) (other : Config) : Config :=
  match f with
  | .root => { c with root := other.root }
  | .drop => { c with drop := other.drop }
  | .maxDepth => { c with maxDepth := other.maxDepth }
  | .includes => { c with includes := other.includes }
  | .excludes => { c with excludes := other.excludes }

theorem withField_comm (hne : f ≠ g) (c a b : Config) :
    (c.withField f a).withField g b = (c.withField g b).withField f a := by
  cases f <;> cases g <;> first | rfl | exact absurd rfl hne

theorem bind_return_eq_ok_iff {α : Type} {x : Except Misfit α} {put : α → Config} :
    (do return put (← x)) = .ok c' ↔ ∃ a, x = .ok a ∧ c' = put a := by
  cases x <;> simp [bind, Except.bind, pure, Except.pure, eq_comm]

/-- What a draft says of a field has nothing to do with what has been said before. -/
theorem set_eq_ok_iff :
    c.set f d = .ok c' ↔ ∃ a, empty.set f d = .ok a ∧ c' = c.withField f a := by
  cases f with
  | root | drop | maxDepth | includes | excludes =>
      simp only [set, bind_return_eq_ok_iff, withField]
      grind

/-- Different fields do not get in each other's way. -/
theorem set_comm {c₁ c₂ : Config} (hne : f ≠ g) (hf : c.set f d = .ok c₁)
    (hg : c₁.set g e = .ok c₂) : ∃ c₁', c.set g e = .ok c₁' ∧ c₁'.set f d = .ok c₂ := by
  rcases set_eq_ok_iff.1 hf with ⟨a, ha, rfl⟩
  rcases set_eq_ok_iff.1 hg with ⟨b, hb, rfl⟩
  refine ⟨c.withField g b, set_eq_ok_iff.2 ⟨b, hb, rfl⟩, set_eq_ok_iff.2 ⟨a, ha, ?_⟩⟩
  exact withField_comm hne c a b

/-! ## Members -/

theorem setMembers_cons_eq_ok_iff :
    c.setMembers seen ((key, d) :: ms) stop = .ok c' ↔
      ∃ f a, Field.ofName? key = some f ∧ f ∉ seen ∧ c.set f d = .ok a ∧
        a.setMembers (f :: seen) ms stop = .ok c' := by
  cases hkey : Field.ofName? key with
  | none => simp [setMembers, hkey]
  | some f =>
      by_cases hseen : f ∈ seen
      · simp [setMembers, hkey, hseen]
      · cases hset : c.set f d <;> simp [setMembers, hkey, hseen, hset, bind, Except.bind]

/-- Only which fields have been set counts. -/
theorem setMembers_congr (h : ∀ f, f ∈ seen ↔ f ∈ seen') (c : Config)
    (ms : List (Text × Draft)) (stop : Option Json.Fault) :
    c.setMembers seen ms stop = c.setMembers seen' ms stop := by
  induction ms generalizing c seen seen' with
  | nil => rfl
  | cons m ms ih =>
      rcases m with ⟨key, d⟩
      simp only [setMembers, h]
      grind

theorem setMembers_of_perm (h : ms.Perm ms') (hset : c.setMembers seen ms stop = .ok c') :
    c.setMembers seen ms' stop = .ok c' := by
  induction h generalizing c seen with
  | nil => exact hset
  | cons m _ ih =>
      rcases setMembers_cons_eq_ok_iff.1 hset with ⟨f, a, hf, hseen, ha, hms⟩
      exact setMembers_cons_eq_ok_iff.2 ⟨f, a, hf, hseen, ha, ih hms⟩
  | swap m m' ms =>
      -- Two members that can be set one after the other have different fields.
      rcases setMembers_cons_eq_ok_iff.1 hset with ⟨f, a, hf, hseen, ha, hset'⟩
      rcases setMembers_cons_eq_ok_iff.1 hset' with ⟨g, b, hg, hseen', hb, hms⟩
      simp only [List.mem_cons, not_or] at hseen'
      rcases set_comm (Ne.symm hseen'.1) ha hb with ⟨a', ha', hb'⟩
      refine setMembers_cons_eq_ok_iff.2 ⟨g, a', hg, hseen'.2, ha', ?_⟩
      refine setMembers_cons_eq_ok_iff.2 ⟨f, b, hf, ?_, hb', ?_⟩
      · simpa [hseen] using Ne.symm hseen'.1
      · have hsame : ∀ k, k ∈ g :: f :: seen ↔ k ∈ f :: g :: seen := by simp [or_left_comm]
        rwa [← setMembers_congr hsame]
  | trans _ _ ih ih' => exact ih' (ih hset)

/-- The order of members does not matter. -/
theorem setMembers_perm (h : ms.Perm ms') :
    c.setMembers seen ms stop = .ok c' ↔ c.setMembers seen ms' stop = .ok c' :=
  ⟨setMembers_of_perm h, setMembers_of_perm h.symm⟩

/-- Members set different fields, and none that has been set. -/
theorem nodup_of_setMembers (h : c.setMembers seen ms stop = .ok c') :
    (ms.map Prod.fst).Nodup ∧ ∀ m ∈ ms, ∃ f, Field.ofName? m.1 = some f ∧ f ∉ seen := by
  induction ms generalizing c seen with
  | nil => simp
  | cons m ms ih =>
      rcases setMembers_cons_eq_ok_iff.1 h with ⟨f, a, hf, hseen, -, hms⟩
      rcases ih hms with ⟨hnodup, hfields⟩
      constructor
      · rw [List.map_cons, List.nodup_cons]
        -- A later member with the same key would be for the same field.
        refine ⟨fun hmem => ?_, hnodup⟩
        rcases List.mem_map.1 hmem with ⟨m', hm', hkey⟩
        rcases hfields m' hm' with ⟨g, hg, hnot⟩
        rw [hkey, hf] at hg
        cases hg
        simp at hnot
      · intro m' hm'
        rcases List.mem_cons.1 hm' with rfl | hm'
        · exact ⟨f, hf, hseen⟩
        · rcases hfields m' hm' with ⟨g, hg, hnot⟩
          exact ⟨g, hg, fun hmem => hnot (List.mem_cons_of_mem f hmem)⟩

/-! ## Values -/

/-- A draft with a value is a scalar, an array or an object, as the value is. -/
theorem cases_of_ofDraft (h : Value.ofDraft d = .ok v) :
    (∃ s, d = .scalar s ∧ v.draft = .scalar s) ∨
    (∃ items vs, d = .array items none ∧ v.draft = .array vs none ∧
      List.Forall₂ (fun d d' => ∃ v, Value.ofDraft d = .ok v ∧ d' = v.draft) items vs) ∨
    ∃ ms vs, d = .object ms none ∧ v.draft = .object vs none := by
  cases d with
  | fault f => cases h
  | scalar s =>
      cases h
      exact .inl ⟨s, rfl, rfl⟩
  | array items stop =>
      rcases Value.ofDraft_array_eq_ok_iff.1 h with ⟨rfl, vs, hvs, rfl⟩
      refine .inr (.inl ⟨items, Value.drafts vs, rfl, rfl, ?_⟩)
      rw [Value.drafts_eq_map, List.forall₂_map_right_iff]
      exact hvs.imp fun d v hv => ⟨v, hv, rfl⟩
  | object ms stop =>
      rcases Value.ofDraft_object_eq_ok_iff.1 h with ⟨rfl, vs, -, rfl⟩
      exact .inr (.inr ⟨ms, _, rfl, rfl⟩)

theorem readText_draft (expected : Expected) (h : Value.ofDraft d = .ok v) :
    readText expected v.draft = readText expected d := by
  rcases cases_of_ofDraft h with ⟨s, rfl, hv⟩ | ⟨items, vs, rfl, hv, -⟩ | ⟨ms, vs, rfl, hv⟩ <;>
    rw [hv] <;> rfl

theorem readTexts_draft (h : Value.ofDraft d = .ok v) : readTexts v.draft = readTexts d := by
  rcases cases_of_ofDraft h with ⟨s, rfl, hv⟩ | ⟨items, vs, rfl, hv, hitems⟩ | ⟨ms, vs, rfl, hv⟩
  · rw [hv]
  · rw [hv]
    have hsame : vs.mapM (readText .text) = items.mapM (readText .text) := by
      clear h hv
      induction hitems with
      | nil => rfl
      | cons hd _ ih =>
          rcases hd with ⟨v, hv, rfl⟩
          rw [List.mapM_cons, List.mapM_cons, readText_draft .text hv, ih]
    simp only [readTexts, hsame]
  · rw [hv]
    rfl

/-- A draft and its value say the same of a field. -/
theorem set_draft (h : Value.ofDraft d = .ok v) : c.set f v.draft = c.set f d := by
  cases f with
  | includes | excludes => simp only [set, readTexts_draft h]
  | root | drop | maxDepth =>
      rcases cases_of_ofDraft h with ⟨s, rfl, hv⟩ | ⟨items, vs, rfl, hv, -⟩ | ⟨ms, vs, rfl, hv⟩ <;>
        rw [hv] <;> rfl

theorem setMembers_draft {vs : List (Text × Value)} (h : List.Forall₂ Value.Stands ms vs) :
    c.setMembers seen (Value.memberDrafts vs) stop = c.setMembers seen ms stop := by
  induction h generalizing c seen with
  | nil => rfl
  | @cons m v ms vs hm _ ih =>
      rcases m with ⟨key, d⟩
      rcases v with ⟨key', v⟩
      rcases hm with ⟨rfl, hv⟩
      simp only [Value.memberDrafts, setMembers, set_draft hv, ih]

/-- An array sets the same fields by its values; only how too many items are told may differ. -/
theorem setItems_draft {items : List Draft} {vs : List Value} {fs : List Field}
    {tooMany tooMany' : Misfit}
    (h : List.Forall₂ (fun d v => Value.ofDraft d = .ok v) items vs) :
    c.setItems tooMany fs (Value.drafts vs) none = .ok c' ↔
      c.setItems tooMany' fs items none = .ok c' := by
  induction h generalizing c fs with
  | nil => cases fs <;> rfl
  | @cons d v items vs hd _ ih =>
      cases fs with
      | nil => simp [setItems, Value.drafts]
      | cons f fs =>
          simp only [Value.drafts, setItems, set_draft hd]
          cases c.set f d with
          | error misfit => simp [bind, Except.bind]
          | ok a => simpa [bind, Except.bind] using ih

/-- A draft without repeated keys is the configuration that its value is. -/
theorem ofValue_eq_ok_iff {tooMany : Nat → Misfit} (h : Value.ofDraft d = .ok v)
    (hkeys : ∀ ms, d = .object ms none → (ms.map Prod.fst).Nodup) :
    ofValue v = .ok c ↔ ofDraft tooMany d = .ok c := by
  cases d with
  | fault f => cases h
  | scalar s =>
      cases h
      rfl
  | array items stop =>
      rcases Value.ofDraft_array_eq_ok_iff.1 h with ⟨rfl, vs, hvs, rfl⟩
      exact setItems_draft hvs
  | object ms stop =>
      rcases Value.ofDraft_object_eq_ok_iff.1 h with ⟨rfl, vs, hvs, rfl⟩
      -- The members of the value are those of the draft in the order of their keys.
      have hnodup := hkeys ms rfl
      rw [Value.map_fst_of_stands hvs] at hnodup
      have hperm : (Value.insertMembers [] vs).Perm vs := Value.perm_insertMembers hnodup
      have hdrafts : (Value.memberDrafts (Value.insertMembers [] vs)).Perm
          (Value.memberDrafts vs) := by
        rw [Value.memberDrafts_eq_map, Value.memberDrafts_eq_map]
        exact hperm.map _
      calc ofValue (Value.ofMembers vs) = .ok c
          ↔ empty.setMembers [] (Value.memberDrafts (Value.insertMembers [] vs)) none = .ok c :=
            Iff.rfl
        _ ↔ empty.setMembers [] (Value.memberDrafts vs) none = .ok c := setMembers_perm hdrafts
        _ ↔ ofDraft tooMany (.object ms none) = .ok c := by rw [setMembers_draft hvs]; rfl

end Config

end ProcedureGen
