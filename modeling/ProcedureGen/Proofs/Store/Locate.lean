import ProcedureGen.Proofs.Store.State

/-!
# Where paths lead

How `Store.locate` goes along a path below a root, whatever way the root is written and whatever
links stand on the way to it.

* `Store.walk_append`: a way that ends in a directory can be gone on with;
* `Store.walk_filter`: a `.` on the way changes nothing;
* `Store.walk_of_sameTree`: files on the way do not matter;
* `Store.locate_join`: a name in a directory below a root leads right there;
* `Store.locate_ending`: a path leads right into its folder.
-/

namespace ProcedureGen
namespace Store

open ProcedureGen.Path (here above steps FileName below join)

variable {s t : Store} {fl : Bool} {n : Nat} {l R : Location} {root b p y : Text}
  {ps names : List Text}

/-! ## Single steps -/

/-- Goes on behind a link, if one more link is allowed. -/
def follow (s : Store) (fl : Bool) : Nat → Location → List Text → Except AccessFault Location
  | 0, _, _ => .error .tooManyLinks
  | n + 1, l, ps => s.walk fl n l ps

@[simp] theorem walk_nil (s : Store) (fl : Bool) (n : Nat) (l : Location) :
    s.walk fl n l [] = .ok l := by
  cases n <;> rfl

theorem walk_cons (s : Store) (fl : Bool) (n : Nat) (l : Location) (y : Text) (ps : List Text) :
    s.walk fl n l (y :: ps) =
      if s.entry? l ≠ some .directory then .error .notDirectory
      else if y = here then s.walk fl n l ps
      else if y = above then s.walk fl n l.dropLast ps
      else if maxNameSize < Text.byteSize y then .error .nameTooLong
      else match s.entry? (l ++ [y]) with
        | some (.link target) =>
          if ps = [] ∧ !fl then .ok (l ++ [y])
          else s.follow fl n (startOf l target) (target.parts ++ ps)
        | some _ => s.walk fl n (l ++ [y]) ps
        | none => if ps = [] then .ok (l ++ [y]) else .error .notFound := by
  cases n <;> rfl

theorem walk_of_not_directory (hl : s.entry? l ≠ some .directory) (hps : ps ≠ []) :
    s.walk fl n l ps = .error .notDirectory := by
  cases ps with
  | nil => exact absurd rfl hps
  | cons y ps => rw [walk_cons, if_pos hl]

/-- Whether a name leads from a directory to something in it. -/
def Enters (y : Text) : Prop := y ≠ here ∧ y ≠ above ∧ Text.byteSize y ≤ maxNameSize

theorem enters_of_fileName (hy : FileName y) (hsize : Text.byteSize y ≤ maxNameSize) :
    Enters y := ⟨hy.ne_here, hy.ne_above, hsize⟩

def turn (l : Location) (y : Text) : Except AccessFault Location :=
  if y = here then .ok l else if y = above then .ok l.dropLast else .error .nameTooLong

theorem walk_enters (hl : s.entry? l = some .directory) (hy : Enters y) :
    s.walk fl n l (y :: ps) = match s.entry? (l ++ [y]) with
      | some (.link target) =>
        if ps = [] ∧ !fl then .ok (l ++ [y])
        else s.follow fl n (startOf l target) (target.parts ++ ps)
      | some _ => s.walk fl n (l ++ [y]) ps
      | none => if ps = [] then .ok (l ++ [y]) else .error .notFound := by
  rw [walk_cons, if_neg (not_not.2 hl), if_neg hy.1, if_neg hy.2.1, if_neg (Nat.not_lt.2 hy.2.2)]

theorem walk_turn (hl : s.entry? l = some .directory) (hy : ¬ Enters y) :
    s.walk fl n l (y :: ps) = match turn l y with
      | .ok k => s.walk fl n k ps
      | .error fault => .error fault := by
  rw [walk_cons, if_neg (not_not.2 hl)]
  unfold turn
  by_cases hhere : y = here
  · simp only [if_pos hhere]
  · by_cases habove : y = above
    · simp only [if_neg hhere, if_pos habove]
    · have hsize : maxNameSize < Text.byteSize y := by
        by_contra hsize
        exact hy ⟨hhere, habove, Nat.not_lt.1 hsize⟩
      simp only [if_neg hhere, if_neg habove, if_pos hsize]

/-! ## Longer ways -/

/-- From a place that a way leads to, one goes on as if one had started there.  Links may have been
used up. -/
def GoesOn (s : Store) (R : Location) (go : Bool → List Text → Except AccessFault Location) : Prop :=
  ∃ m, ∀ fl rest, rest ≠ [] → go fl rest = s.walk fl m R rest

theorem goesOn_walk (hR : s.entry? R = some .directory)
    (hfollow : ∀ l ps, s.follow true n l ps = .ok R →
      GoesOn s R fun fl rest => s.follow fl n l (ps ++ rest)) :
    s.walk true n l ps = .ok R → GoesOn s R fun fl rest => s.walk fl n l (ps ++ rest) := by
  induction ps generalizing l with
  | nil =>
      intro h
      have hl : l = R := by simpa using h
      exact ⟨n, fun fl rest _ => by simp [hl]⟩
  | cons y ps ih =>
      intro h
      by_cases hl : s.entry? l = some .directory
      · by_cases hy : Enters y
        · rw [walk_enters hl hy] at h
          simp only [List.cons_append, walk_enters hl hy]
          cases he : s.entry? (l ++ [y]) with
          | none =>
              -- The way would end where nothing is, and not in the directory.
              have hend : l ++ [y] = R := by
                rw [he] at h
                dsimp only at h
                split at h
                · exact Except.ok.inj h
                · cases h
              simp [hend, hR] at he
          | some e =>
              cases e with
              | link target =>
                  have hgo : s.follow true n (startOf l target) (target.parts ++ ps) = .ok R := by
                    simpa [he] using h
                  rcases hfollow _ _ hgo with ⟨m, hm⟩
                  refine ⟨m, fun fl rest hrest => ?_⟩
                  simpa [hrest] using hm fl rest hrest
              | file bytes => exact ih (by simpa [he] using h)
              | directory => exact ih (by simpa [he] using h)
        · rw [walk_turn hl hy] at h
          simp only [List.cons_append, walk_turn hl hy]
          cases hturn : turn l y with
          | ok k => exact ih (by simpa [hturn] using h)
          | error fault => simp [hturn] at h
      · rw [walk_of_not_directory hl (by simp)] at h
        cases h

/-- A way that ends in a directory can be gone on with from there. -/
theorem walk_append (hR : s.entry? R = some .directory) (h : s.walk true n l ps = .ok R) :
    GoesOn s R fun fl rest => s.walk fl n l (ps ++ rest) := by
  -- The induction is on the links that may still be followed.
  induction n generalizing l ps with
  | zero =>
      refine goesOn_walk hR (fun l ps h => ?_) h
      cases h
  | succ n ih => exact goesOn_walk hR (fun l ps h => ih h) h

theorem walk_filter_of_follow
    (hfollow : ∀ l ps, s.follow fl n l (ps ++ [y]) =
      s.follow fl n l (ps.filter (· ≠ here) ++ [y])) :
    s.walk fl n l (ps ++ [y]) = s.walk fl n l (ps.filter (· ≠ here) ++ [y]) := by
  induction ps generalizing l with
  | nil => rfl
  | cons z ps ih =>
      by_cases hdir : s.entry? l = some .directory
      · by_cases hhere : z = here
        · rw [List.cons_append, walk_cons]
          simp [hdir, hhere, ih]
        · have hlinks : ∀ target : Path, s.follow fl n (startOf l target)
              (target.parts ++ (ps ++ [y])) = s.follow fl n (startOf l target)
              (target.parts ++ (ps.filter (· ≠ here) ++ [y])) := by
            intro target
            rw [← List.append_assoc, ← List.append_assoc, hfollow, hfollow _ (_ ++ ps.filter _)]
            simp [List.filter_filter]
          have hkeep : (z :: ps).filter (· ≠ here) = z :: ps.filter (· ≠ here) := by simp [hhere]
          rw [hkeep, List.cons_append, List.cons_append, walk_cons, walk_cons]
          simp only [hlinks, ih, List.append_eq_nil_iff, List.cons_ne_nil, and_false, false_and]
      · rw [walk_of_not_directory hdir (by simp), walk_of_not_directory hdir (by simp)]

/-- A `.` on the way to something changes nothing. -/
theorem walk_filter (s : Store) (fl : Bool) (n : Nat) (l : Location) (ps : List Text) (y : Text) :
    s.walk fl n l (ps ++ [y]) = s.walk fl n l (ps.filter (· ≠ here) ++ [y]) := by
  -- A link puts its own parts in front, so that the induction is on the links that are left.
  induction n generalizing l ps with
  | zero => exact walk_filter_of_follow fun l ps => rfl
  | succ n ih => exact walk_filter_of_follow fun l ps => ih l ps

/-! ## Ways in states that differ in files alone -/

/-- Whether an answer does not depend on a file being there: all but two errors. -/
def Settled (a : Except AccessFault Location) : Prop :=
  a ≠ .error .notFound ∧ a ≠ .error .notDirectory

/-- At the end of a way it does not matter whether there is a file. -/
theorem walk_hasRoom (hl : s.entry? l = some .directory) (hy : Enters y)
    (hroom : s.HasRoomForFile (l ++ [y])) : s.walk fl n l [y] = .ok (l ++ [y]) := by
  rw [walk_enters hl hy]
  cases he : s.entry? (l ++ [y]) with
  | none => simp
  | some e =>
      cases e with
      | file bytes => simp
      | directory => exact absurd (hroom _ he) (by decide)
      | link target => exact absurd (hroom _ he) (by simp [Entry.isFile])

/-- In the middle of a way it does. -/
theorem not_settled_of_hasRoom (hl : s.entry? l = some .directory) (hy : Enters y)
    (hroom : s.HasRoomForFile (l ++ [y])) (hps : ps ≠ []) :
    ¬ Settled (s.walk fl n l (y :: ps)) := by
  rw [walk_enters hl hy]
  cases he : s.entry? (l ++ [y]) with
  | none => simp [hps, Settled]
  | some e =>
      cases e with
      | file bytes =>
          have hfile : s.entry? (l ++ [y]) ≠ some .directory := by simp [he]
          simp [walk_of_not_directory hfile hps, Settled]
      | directory => exact absurd (hroom _ he) (by decide)
      | link target => exact absurd (hroom _ he) (by simp [Entry.isFile])

theorem walk_sameTree_of_follow (h : SameTree s t)
    (hfollow : ∀ l ps, Settled (s.follow fl n l ps) → t.follow fl n l ps = s.follow fl n l ps)
    (hs : Settled (s.walk fl n l ps)) : t.walk fl n l ps = s.walk fl n l ps := by
  induction ps generalizing l with
  | nil => simp
  | cons y ps ih =>
      by_cases hl : s.entry? l = some .directory
      · have hl' : t.entry? l = some .directory := h.directory_iff.1 hl
        by_cases hy : Enters y
        · by_cases hroom : s.HasRoomForFile (l ++ [y])
          -- Only here can a file be in one of the states and not in the other.
          · by_cases hps : ps = []
            · subst hps
              rw [walk_hasRoom hl hy hroom, walk_hasRoom hl' hy (hroom.of_sameTree h)]
            · exact absurd hs (not_settled_of_hasRoom hl hy hroom hps)
          · rcases not_hasRoomForFile_iff.1 hroom with he | ⟨target, he⟩
            · rw [walk_enters hl hy, he] at hs
              rw [walk_enters hl hy, walk_enters hl' hy, he, h.directory_iff.1 he]
              exact ih hs
            · rw [walk_enters hl hy, he] at hs
              rw [walk_enters hl hy, walk_enters hl' hy, he, h.link_iff.1 he]
              dsimp only at hs ⊢
              split
              · rfl
              next hlast =>
                rw [if_neg hlast] at hs
                exact hfollow _ _ hs
        · rw [walk_turn hl hy] at hs
          rw [walk_turn hl hy, walk_turn hl' hy]
          cases hturn : turn l y with
          | ok k =>
              rw [hturn] at hs
              exact ih hs
          | error fault => rfl
      · have hl' : t.entry? l ≠ some .directory := fun ht => hl (h.directory_iff.2 ht)
        rw [walk_of_not_directory hl (by simp), walk_of_not_directory hl' (by simp)]

/-- Files on the way do not matter, unless the way ends in a place that must be there. -/
theorem walk_of_sameTree (h : SameTree s t) (hs : Settled (s.walk fl n l ps)) :
    t.walk fl n l ps = s.walk fl n l ps := by
  induction n generalizing l ps with
  | zero => exact walk_sameTree_of_follow h (fun _ _ _ => rfl) hs
  | succ n ih => exact walk_sameTree_of_follow h (fun _ _ hs => ih hs) hs

theorem locate_of_sameTree (h : SameTree s t) (hs : Settled (s.locate fl p)) :
    t.locate fl p = s.locate fl p := by
  unfold locate at hs ⊢
  split
  · rfl
  next hnul =>
    split
    · rfl
    next hnil =>
      rw [if_neg hnul, if_neg hnil] at hs
      exact walk_of_sameTree h hs

theorem settled_ok (l : Location) : Settled (.ok l) := by
  simp [Settled]

/-! ## Ways below a root -/

/-- Where a name in a directory leads. -/
def leaf (l : Location) (y : Text) : Except AccessFault Location :=
  if maxNameSize < Text.byteSize y then .error .nameTooLong else .ok (l ++ [y])

theorem settled_leaf (l : Location) (y : Text) : Settled (leaf l y) := by
  unfold leaf Settled
  split <;> simp

theorem eq_of_leaf {k : Location} (h : leaf l y = .ok k) : k = l ++ [y] := by
  unfold leaf at h
  split at h
  · cases h
  · exact (Except.ok.inj h).symm

theorem walk_name (hl : s.entry? l = some .directory) (hy : FileName y)
    (hlink : fl = true → ∀ target, s.entry? (l ++ [y]) ≠ some (.link target)) :
    s.walk fl n l [y] = leaf l y := by
  unfold leaf
  by_cases hsize : maxNameSize < Text.byteSize y
  · rw [if_pos hsize, walk_turn hl fun hy' => Nat.not_lt.2 hy'.2.2 hsize]
    simp [turn, hy.ne_here, hy.ne_above]
  · rw [if_neg hsize, walk_enters hl (enters_of_fileName hy (Nat.not_lt.1 hsize))]
    split
    next target he =>
      cases fl with
      | false => simp
      | true => exact absurd he (hlink rfl target)
    · simp
    · simp

theorem walk_directories (hs : s.WellFormed) (h : s.entry? (l ++ names) = some .directory) :
    s.walk fl n l (names ++ ps) = s.walk fl n (l ++ names) ps := by
  induction names generalizing l with
  | nil => simp
  | cons y names ih =>
      have hthere : s.entry? (l ++ y :: names) ≠ none := by simp [h]
      have hl : s.entry? l = some .directory := hs.parent_append hthere (List.cons_ne_nil _ _)
      have hsplit : l ++ y :: names = (l ++ [y]) ++ names := by simp
      rw [hsplit] at h
      have hy : s.entry? (l ++ [y]) = some .directory := by
        by_cases hnames : names = []
        · simpa [hnames] using h
        · exact hs.parent_append (entry?_ne_none h) hnames
      have hname := hs.name (l := l) (y := y) (by simp [hy])
      rw [hsplit, ← ih h, List.cons_append, walk_enters hl (enters_of_fileName hname.1 hname.2), hy]

theorem locate_eq_ok (h : s.locate fl p = .ok R) :
    '\x00' ∉ p ∧ p ≠ [] ∧ s.walk fl maxLinks [] (Path.parts p) = .ok R := by
  unfold locate at h
  split at h
  · cases h
  next hnul =>
    split at h
    · cases h
    next hnil => exact ⟨hnul, hnil, h⟩

/-- A name joined to a path into a directory below a root leads right there.  Only a link that is
followed leads elsewhere. -/
theorem locate_join (hs : s.WellFormed) (hroot : s.locate true root = .ok R)
    (hdir : s.entry? (R ++ names) = some .directory) (hb : steps b = steps root ++ names)
    (hnul : '\x00' ∉ b) (hy : FileName y)
    (hlink : fl = true → ∀ target, s.entry? (R ++ names ++ [y]) ≠ some (.link target)) :
    s.locate fl (join b y) = leaf (R ++ names) y := by
  rcases locate_eq_ok hroot with ⟨-, -, hwalk⟩
  have hthere : s.entry? (R ++ names) ≠ none := by simp [hdir]
  have hR : s.entry? R = some .directory := by
    by_cases hnames : names = []
    · simpa [hnames] using hdir
    · exact hs.parent_append hthere hnames
  have hkeep : names.filter (· ≠ here) = names := by
    refine List.filter_eq_self.2 fun z hz => ?_
    simpa using (hs.names_append hthere z hz).1.ne_here
  have hnone : '\x00' ∉ join b y := by
    intro hmem
    rcases Path.mem_join hmem with h | h | h
    · exact hnul h
    · exact absurd h (by decide)
    · exact hy.no_nul h
  rcases Path.parts_join (b := b) hy with ⟨way, hparts, hway⟩
  rcases walk_append hR hwalk with ⟨m, hm⟩
  -- The parts of the path are those of the root, then the names, but for some `.` between them.
  calc
    s.locate fl (join b y) = s.walk fl maxLinks [] (Path.parts (join b y)) := by
      rw [locate, if_neg hnone, if_neg (Path.join_ne_nil hy)]
    _ = s.walk fl maxLinks [] (steps b ++ [y]) := by rw [hparts, walk_filter, hway]
    _ = s.walk fl maxLinks [] (Path.parts root ++ names ++ [y]) := by
      rw [walk_filter _ _ _ _ (Path.parts root ++ names), List.filter_append, Path.filter_parts,
        hkeep, hb]
    _ = s.walk fl m R (names ++ [y]) := by
      rw [List.append_assoc]
      exact hm fl (names ++ [y]) (by simp)
    _ = s.walk fl m (R ++ names) [y] := walk_directories hs hdir
    _ = leaf (R ++ names) y := walk_name hdir hy hlink

/-- A path whose folder is there leads right into it, unless by a link that is followed. -/
theorem locate_ending (hfolder : s.locate true (Path.folder p) = .ok R)
    (hR : s.entry? R = some .directory) (hy : FileName (Path.ending p))
    (hlink : fl = true → ∀ target, s.entry? (R ++ [Path.ending p]) ≠ some (.link target)) :
    s.locate fl p = leaf R (Path.ending p) := by
  rcases locate_eq_ok hfolder with ⟨hnul, -, hwalk⟩
  have hnone : '\x00' ∉ p := fun h => (Path.mem_folder_or_ending h).elim hnul hy.no_nul
  have hne : p ≠ [] := by
    rintro rfl
    exact hy.ne_nil rfl
  rcases Path.parts_ending hy with ⟨way, hparts, hway⟩
  rcases walk_append hR hwalk with ⟨m, hm⟩
  calc
    s.locate fl p = s.walk fl maxLinks [] (Path.parts p) := by
      rw [locate, if_neg hnone, if_neg hne]
    _ = s.walk fl maxLinks [] (steps (Path.folder p) ++ [Path.ending p]) := by
      rw [hparts, walk_filter, hway]
    _ = s.walk fl maxLinks [] (Path.parts (Path.folder p) ++ [Path.ending p]) := by
      rw [walk_filter _ _ _ _ (Path.parts (Path.folder p)), Path.filter_parts]
    _ = s.walk fl m R [Path.ending p] := hm fl [Path.ending p] (by simp)
    _ = leaf R (Path.ending p) := walk_name hR hy hlink

theorem not_mem_below {c : Char} (hc : c ≠ '/') (hroot : c ∉ root) (h : ∀ y ∈ names, c ∉ y) :
    c ∉ below root names := by
  induction names generalizing root with
  | nil => exact hroot
  | cons y names ih =>
      refine ih (fun hmem => ?_) fun z hz => h z (List.mem_cons_of_mem y hz)
      rcases Path.mem_join hmem with hmem | hmem | hmem
      · exact hroot hmem
      · exact hc hmem
      · exact h y (by simp) hmem

theorem locate_below (hs : s.WellFormed) (hroot : s.locate true root = .ok R)
    (hdir : s.entry? (R ++ names) = some .directory) :
    s.locate true (below root names) = .ok (R ++ names) := by
  induction names using List.reverseRecOn with
  | nil => simpa [below] using hroot
  | append_singleton names y _ =>
      rw [← List.append_assoc] at hdir
      have hparent : s.entry? (R ++ names) = some .directory := hs.parent (entry?_ne_none hdir)
      have hname := hs.name (entry?_ne_none hdir)
      have hnames := hs.names_append (entry?_ne_none hparent)
      have hsteps := Path.steps_below (b := root) fun z hz => (hnames z hz).1
      have hnul : '\x00' ∉ below root names :=
        not_mem_below (by decide) (locate_eq_ok hroot).1 fun z hz => (hnames z hz).1.no_nul
      have hsize : ¬ maxNameSize < Text.byteSize y := by omega
      have hnolink : ∀ target, s.entry? (R ++ names ++ [y]) ≠ some (.link target) := by
        intro target
        rw [hdir]
        simp
      have hleaf := locate_join hs hroot hparent hsteps hnul hname.1 fun _ : true = true => hnolink
      simpa [Path.below_append, below, leaf, hsize] using hleaf

end Store
end ProcedureGen
