import ProcedureGen.Proofs.Store.Run

/-!
# States that lose links

Links may be replaced by files while paths are in use.  A path that still leads somewhere then leads
where it led before, but it may lead nowhere.

* `Store.walk_last`: the end of a way, where nothing is followed;
* `Store.locate_followed`: a path that ends at no link, followed or not;
* `Store.Decays`: a state with the directories of another one and with no link of its own;
* `Decays.locate`: the paths that still lead somewhere.
-/

namespace ProcedureGen
namespace Store

open ProcedureGen.Path (here above)

variable {s t r : Store} {fl : Bool} {n : Nat} {l k : Location} {p y : Text} {ps : List Text}

/-! ## Ways and their ends -/

/-- What stands at the end of a way does not matter, unless it is followed. -/
theorem walk_last (hl : s.entry? l = some .directory) (hy : Enters y) :
    s.walk false n l [y] = .ok (l ++ [y]) := by
  rw [walk_enters hl hy]
  cases s.entry? (l ++ [y]) with
  | none => simp
  | some e => cases e <;> simp

theorem walk_followed_of_follow
    (hfollow : ∀ l ps, (∀ k target, s.follow false n l ps = .ok k →
      s.entry? k ≠ some (.link target)) → s.follow true n l ps = s.follow false n l ps)
    (hend : ∀ k target, s.walk false n l ps = .ok k → s.entry? k ≠ some (.link target)) :
    s.walk true n l ps = s.walk false n l ps := by
  induction ps generalizing l with
  | nil => simp
  | cons y ps ih =>
      by_cases hl : s.entry? l = some .directory
      · by_cases hy : Enters y
        · cases he : s.entry? (l ++ [y]) with
          | none =>
              rw [walk_enters hl hy, walk_enters hl hy, he]
          | some e =>
              cases e with
              -- No link stands at the end, and one on the way is followed by both.
              | link target =>
                  by_cases hps : ps = []
                  · subst hps
                    exact absurd he (hend _ target (walk_last hl hy))
                  · rw [walk_enters hl hy, he] at hend
                    rw [walk_enters hl hy, walk_enters hl hy, he]
                    simp only [hps, false_and, if_false] at hend ⊢
                    exact hfollow _ _ hend
              | file bytes =>
                  rw [walk_enters hl hy, he] at hend
                  rw [walk_enters hl hy, walk_enters hl hy, he]
                  exact ih hend
              | directory =>
                  rw [walk_enters hl hy, he] at hend
                  rw [walk_enters hl hy, walk_enters hl hy, he]
                  exact ih hend
        · rw [walk_turn hl hy] at hend
          rw [walk_turn hl hy, walk_turn hl hy]
          cases hturn : turn l y with
          | ok k =>
              rw [hturn] at hend
              exact ih hend
          | error fault => rfl
      · rw [walk_of_not_directory hl (by simp), walk_of_not_directory hl (by simp)]

theorem walk_followed
    (hend : ∀ k target, s.walk false n l ps = .ok k → s.entry? k ≠ some (.link target)) :
    s.walk true n l ps = s.walk false n l ps := by
  induction n generalizing l ps with
  | zero => exact walk_followed_of_follow (fun _ _ _ => rfl) hend
  | succ n ih => exact walk_followed_of_follow (fun _ _ hend => ih hend) hend

/-- A path that ends at no link leads to one place, whether its end is followed or not. -/
theorem locate_followed
    (hend : ∀ k target, s.locate false p = .ok k → s.entry? k ≠ some (.link target)) :
    s.locate true p = s.locate false p := by
  unfold locate at hend ⊢
  split
  · rfl
  next hnul =>
    split
    · rfl
    next hnil =>
      rw [if_neg hnul, if_neg hnil] at hend
      exact walk_followed hend

/-! ## Loss of links -/

/-- The second state has the directories of the first, and no link that the first has not. -/
structure Decays (s t : Store) : Prop where
  directory : ∀ l, s.entry? l = some .directory ↔ t.entry? l = some .directory
  link : ∀ l target, t.entry? l = some (.link target) → s.entry? l = some (.link target)

namespace Decays

theorem refl (s : Store) : Decays s s := ⟨fun _ => Iff.rfl, fun _ _ h => h⟩

theorem trans (h : Decays s t) (h' : Decays t r) : Decays s r :=
  ⟨fun l => (h.directory l).trans (h'.directory l),
    fun l target hlink => h.link l target (h'.link l target hlink)⟩

theorem insert_file (hl : s.entry? l ≠ some .directory) (hne : l ≠ []) (bytes : List UInt8) :
    Decays s (s.insert l (.file bytes)) := by
  constructor
  · intro k
    rw [entry?_insert s hne]
    by_cases hk : k = l
    · simp [hk, hl]
    · rw [if_neg hk]
  · intro k target hlink
    rw [entry?_insert s hne] at hlink
    split at hlink
    · cases hlink
    · exact hlink

theorem erase (hl : s.entry? l ≠ some .directory) (hne : l ≠ []) : Decays s (s.erase l) := by
  constructor
  · intro k
    rw [entry?_erase s hne]
    by_cases hk : k = l
    · simp [hk, hl]
    · rw [if_neg hk]
  · intro k target hlink
    rw [entry?_erase s hne] at hlink
    split at hlink
    · cases hlink
    · exact hlink

theorem walk_of_follow (h : Decays s t)
    (hfollow : ∀ l ps, t.follow false n l ps = .ok k → s.follow false n l ps = .ok k)
    (hk : t.walk false n l ps = .ok k) : s.walk false n l ps = .ok k := by
  induction ps generalizing l with
  | nil => simpa using hk
  | cons y ps ih =>
      by_cases hl' : t.entry? l = some .directory
      · have hl : s.entry? l = some .directory := (h.directory l).2 hl'
        by_cases hy : Enters y
        · by_cases hps : ps = []
          · subst hps
            rw [walk_last hl' hy] at hk
            rw [walk_last hl hy, hk]
          -- In the middle of the way there is a directory, or a link that was there before.
          · rw [walk_enters hl' hy] at hk
            rw [walk_enters hl hy]
            cases he : t.entry? (l ++ [y]) with
            | none => simp [he, hps] at hk
            | some e =>
                cases e with
                | file bytes =>
                    have hfile : t.entry? (l ++ [y]) ≠ some .directory := by simp [he]
                    simp [he, walk_of_not_directory hfile hps] at hk
                | directory =>
                    rw [he] at hk
                    rw [(h.directory _).2 he]
                    exact ih hk
                | link target =>
                    rw [he] at hk
                    rw [h.link _ target he]
                    simp only [hps, false_and, if_false] at hk ⊢
                    exact hfollow _ _ hk
        · rw [walk_turn hl' hy] at hk
          rw [walk_turn hl hy]
          cases hturn : turn l y with
          | ok place =>
              rw [hturn] at hk
              exact ih hk
          | error fault =>
              rw [hturn] at hk
              cases hk
      · rw [walk_of_not_directory hl' (by simp)] at hk
        cases hk

theorem walk (h : Decays s t) (hk : t.walk false n l ps = .ok k) :
    s.walk false n l ps = .ok k := by
  induction n generalizing l ps with
  | zero => exact h.walk_of_follow (fun _ _ hk => hk) hk
  | succ n ih => exact h.walk_of_follow (fun _ _ hk => ih hk) hk

/-- A path that still leads somewhere leads where it led before. -/
theorem locate (h : Decays s t) (hk : t.locate false p = .ok k) : s.locate false p = .ok k := by
  rcases locate_eq_ok hk with ⟨hnul, hnil, hwalk⟩
  unfold Store.locate
  rw [if_neg hnul, if_neg hnil]
  exact h.walk hwalk

end Decays

end Store
end ProcedureGen
