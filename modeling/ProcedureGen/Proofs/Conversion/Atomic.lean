import ProcedureGen.Proofs.Conversion.Links

/-!
# All or nothing

A statement is put in its place as a whole, or nothing is changed but for what was left of an
earlier attempt.

* `Store.Absent`, `Store.SameApart`: what a state does not hold, and what it has in common with
  another one;
* `Store.exists_writesAt`: the site of a unit whose folder is there;
* `Store.write_allOrNothing`: when a statement is written, and what is there afterwards;
* `Store.write_allOrNothing_fails`: a name that no file can have, and a folder behind the statement.
-/

namespace ProcedureGen

open SourceUnit
open ProcedureGen.Path (FileName)

namespace Store

variable {s t : Store} {u : SourceUnit} {σ : Site} {p : Path} {l : Location} {bytes : List UInt8}

/-- Nothing stands at a path. -/
def Absent (s : Store) (p : Path) : Prop := ∀ k, s.ownKind p ≠ .ok k

/-- A state has become another one at the places of some paths alone. -/
def SameApart (s t : Store) (ps : List Path) : Prop :=
  ∀ l, (∀ p ∈ ps, s.locate false p ≠ .ok l) → t.entry? l = s.entry? l

theorem SameApart.refl (s : Store) (ps : List Path) : s.SameApart s ps := fun _ _ => rfl

theorem ownKind_eq_ok_iff {k : EntryKind} :
    s.ownKind p = .ok k ↔ ∃ l e, s.locate false p = .ok l ∧ s.entry? l = some e ∧ e.kind = k := by
  unfold ownKind
  cases s.locate false p with
  | error f => simp
  | ok l => cases he : s.entry? l <;> simp [he]

theorem ownKind_leaf {R : Location} {y : Text} {k : EntryKind}
    (h : s.locate false p = leaf R y) (hsize : Text.byteSize y ≤ maxNameSize) :
    s.ownKind p = .ok k ↔ ∃ e, s.entry? (R ++ [y]) = some e ∧ e.kind = k := by
  rw [leaf, if_neg (Nat.not_lt.2 hsize)] at h
  simp [ownKind_eq_ok_iff, h]

theorem ownKind_leaf_directory {R : Location} {y : Text} (h : s.locate false p = leaf R y)
    (hsize : Text.byteSize y ≤ maxNameSize) :
    s.ownKind p = .ok .directory ↔ s.entry? (R ++ [y]) = some .directory := by
  rw [ownKind_leaf h hsize]
  constructor
  · rintro ⟨e, he, hkind⟩
    cases e with
    | directory => exact he
    | file bytes => cases hkind
    | link target => cases hkind
  · intro he
    exact ⟨_, he, rfl⟩

theorem absent_of_locate_error {f : AccessFault} (h : s.locate false p = .error f) :
    s.Absent p := by
  intro k hk
  rcases ownKind_eq_ok_iff.1 hk with ⟨l, e, hl, -⟩
  rw [h] at hl
  cases hl

/-- Where no path led to anything that is left, nothing is found. -/
theorem Decays.absent (h : Decays s t) (hgone : ∀ l, s.locate false p = .ok l → t.entry? l = none) :
    t.Absent p := by
  intro k hk
  rcases ownKind_eq_ok_iff.1 hk with ⟨l, e, hl, he, -⟩
  rw [hgone l (h.locate hl)] at he
  cases he

/-! ## The site of a statement -/

theorem nul_mem_scratchPath (h : '\x00' ∈ u.stem) : '\x00' ∈ u.scratchPath := by
  rw [scratchPath_eq]
  exact List.mem_append_left _ h

theorem locate_of_nul {fl : Bool} (h : '\x00' ∈ p) : s.locate fl p = .error .nulCharacter :=
  if_pos h

theorem ending_scratchPath (u : SourceUnit) :
    Path.ending u.scratchPath = Path.ending u.stem ++ scratchEnd := by
  rw [scratchPath_eq]
  exact Path.ending_append (by decide)

theorem fileName_ending {x : Text} (hnul : '\x00' ∉ u.stem)
    (hx : ('/' ∉ x ∧ '\x00' ∉ x) ∧ 2 < x.length) : FileName (Path.ending (u.stem ++ x)) := by
  have hending : '\x00' ∉ Path.ending u.stem := fun h => hnul (Path.mem_of_mem_ending h)
  rw [Path.ending_append hx.1.1]
  exact FileName.append ⟨Path.ending_no_slash u.stem, hending⟩ hx.1 hx.2

/-- A unit whose folder is there writes in this folder, if its stem can be the start of a name. -/
theorem exists_writesAt (hs : s.WellFormed)
    (hfolder : s.kind? (Path.folder u.statementPath) = some .directory)
    (hlink : s.ownKind u.scratchPath ≠ .ok .other) (hnul : '\x00' ∉ u.stem) :
    ∃ σ, u.WritesAt s σ ∧ σ.name = Path.ending u.stem := by
  rcases kind?_eq_directory_iff.1 hfolder with ⟨R, hlocate, hR⟩
  -- Both paths have the folder of the stem.
  have hplace : ∀ {x : Text} {fl : Bool}, ('/' ∉ x ∧ '\x00' ∉ x) ∧ 2 < x.length →
      (fl = true → ∀ target, s.entry? (R ++ [Path.ending u.stem ++ x]) ≠ some (.link target)) →
      s.locate fl (u.stem ++ x) = leaf R (Path.ending u.stem ++ x) := by
    intro x fl hx hfree
    have hsame : Path.folder (u.stem ++ x) = Path.folder u.statementPath := by
      rw [Path.folder_append hx.1.1, statementPath, Path.withSuffix, Path.folder_append (by decide)]
    rw [← hsame] at hlocate
    rw [← Path.ending_append hx.1.1] at hfree ⊢
    exact locate_ending hlocate hR (fileName_ending hnul hx) hfree
  have hold : s.locate false u.scratchPath = leaf R (Path.ending u.stem ++ scratchEnd) := by
    rw [scratchPath_eq]
    exact hplace (by decide) (by simp)
  have hnoLink : ∀ target, s.entry? (R ++ [Path.ending u.stem ++ scratchEnd]) ≠
      some (.link target) := by
    intro target he
    have hsize := (hs.name (entry?_ne_none he)).2
    exact hlink ((ownKind_leaf hold hsize).2 ⟨_, he, rfl⟩)
  refine ⟨⟨R, Path.ending u.stem⟩, ⟨fun fl => ?_, hplace (by decide) (by simp), hnoLink⟩, rfl⟩
  rw [scratchPath_eq]
  exact hplace (by decide) fun _ => hnoLink

theorem aimsAt_of_writesAt (hu : u.WritesAt s σ) : u.AimsAt s σ := by
  have hscratch : ∀ l, s.locate false u.scratchPath = .ok l → l = σ.file scratchEnd :=
    fun l hl => eq_of_leaf ((hu.scratch false).symm.trans hl)
  refine ⟨fun l hl => eq_of_leaf (hu.statement.symm.trans hl), hscratch, fun l target hl => ?_⟩
  rw [hscratch l hl]
  exact hu.noLink target

/-! ## Writing -/

/-- The ways in which writing can end where the first file that is written is not in the way. -/
theorem ending_of_writesAt (hu : u.WritesAt s σ)
    (hfree : s.ownKind u.scratchPath ≠ .ok .directory) :
    s.ending σ = .tooLong ∧ ¬ σ.Fits ∨
      s.ending σ = .statementTaken ∧ σ.Fits ∧ s.ownKind u.statementPath = .ok .directory ∨
      s.ending σ = .written ∧ σ.Fits ∧ s.ownKind u.statementPath ≠ .ok .directory := by
  unfold ending
  by_cases hfits : σ.Fits
  · have hscratch : s.entry? (σ.file scratchEnd) ≠ some .directory :=
      mt (ownKind_leaf_directory (hu.scratch false) hfits).2 hfree
    have hdir := ownKind_leaf_directory hu.statement hfits.statement
    rw [if_neg (not_not.2 hfits), if_neg hscratch]
    by_cases hstatement : s.ownKind u.statementPath = .ok .directory
    · exact .inr (.inl ⟨if_pos (hdir.1 hstatement), hfits, hstatement⟩)
    · exact .inr (.inr ⟨if_neg (mt hdir.2 hstatement), hfits, hstatement⟩)
  · exact .inl ⟨if_pos hfits, hfits⟩

theorem canEnd_of_writesAt (hu : u.WritesAt s σ)
    (hfree : s.ownKind u.scratchPath ≠ .ok .directory) : s.CanEnd u σ (s.ending σ) := by
  have hscratch : σ.Fits → s.locate false u.scratchPath = .ok (σ.file scratchEnd) ∧
      s.entry? (σ.file scratchEnd) ≠ some .directory := by
    intro hfits
    refine ⟨(hu.scratch false).trans (if_neg (Nat.not_lt.2 hfits)), ?_⟩
    exact mt (ownKind_leaf_directory (hu.scratch false) hfits).2 hfree
  rcases ending_of_writesAt hu hfree with ⟨hend, -⟩ | ⟨hend, hfits, -⟩ | ⟨hend, hfits, hstatement⟩
  · exact ⟨by simp [hend], by simp [hend]⟩
  · exact ⟨fun _ => hscratch hfits, by simp [hend]⟩
  · refine ⟨fun _ => hscratch hfits, fun _ => ⟨?_, ?_⟩⟩
    · exact hu.statement.trans (if_neg (Nat.not_lt.2 hfits.statement))
    · exact mt (ownKind_leaf_directory hu.statement hfits.statement).2 hstatement

/-- A file that has been written is read by its path if its folder is still reached. -/
theorem read_written (h : Decays s t) (hname : FileName (Path.ending p))
    (hsize : Text.byteSize (Path.ending p) ≤ maxNameSize) (hl : s.locate false p = .ok l)
    (hfile : t.entry? l = some (.file bytes))
    (hfolder : t.kind? (Path.folder p) = some .directory) :
    t.ownKind p = .ok .file ∧ t.readBytes p = .ok bytes := by
  rcases kind?_eq_directory_iff.1 hfolder with ⟨R, hlocate, hR⟩
  have hleaf : leaf R (Path.ending p) = .ok (R ++ [Path.ending p]) := if_neg (Nat.not_lt.2 hsize)
  have hown : t.locate false p = leaf R (Path.ending p) := locate_ending hlocate hR hname (by simp)
  -- The path still leads where it led when it was written.
  obtain rfl : l = R ++ [Path.ending p] :=
    Except.ok.inj (hl.symm.trans (h.locate (hown.trans hleaf)))
  have hread : t.locate true p = leaf R (Path.ending p) :=
    locate_ending hlocate hR hname (by simp [hfile])
  constructor
  · exact (ownKind_leaf hown hsize).2 ⟨_, hfile, rfl⟩
  · unfold readBytes
    rw [hread, hleaf]
    simp only [hfile]

/-! ## What is left -/

/-- What has been written first is moved or taken away. -/
theorem absent_scratchPath {e : Ending} (haims : u.AimsAt s σ) (hcan : s.CanEnd u σ e)
    (he : e = .statementTaken ∨ e = .written) : (e.store s σ bytes).Absent u.scratchPath := by
  refine (hcan.decays bytes).absent fun l hl => ?_
  rw [haims.scratch l hl, Ending.entry?_store]
  rcases he with rfl | rfl
  · exact if_pos rfl
  · exact (if_neg Site.statement_ne_scratch.symm).trans (if_pos rfl)

theorem sameApart_written (hcan : s.CanEnd u σ .written) :
    s.SameApart (Ending.written.store s σ bytes) [u.statementPath, u.scratchPath] := by
  intro l hl
  refine (hcan.touches bytes).rest l fun v hv => ?_
  rw [List.mem_singleton.1 hv]
  exact ⟨hl _ (by simp), hl _ (by simp)⟩

theorem sameApart_statementTaken (hcan : s.CanEnd u σ .statementTaken) :
    s.SameApart (Ending.statementTaken.store s σ bytes) [u.scratchPath] := by
  intro l hl
  rw [Ending.entry?_store]
  refine if_neg fun heq => hl u.scratchPath (by simp) ?_
  rw [heq, (hcan.scratch (.inl rfl)).1]

theorem run_write_of_nul (h : '\x00' ∈ u.stem) (d : Definition) (withDrop : Bool) :
    s.run (d.write u.stem withDrop) = (.error (.access u.scratchPath .nulCharacter), s) := by
  have hwrite : s.write u.scratchPath (d.render withDrop) = .error .nulCharacter := by
    unfold write writeBytes
    rw [locate_of_nul (nul_mem_scratchPath h)]
  have hwhole := run_writeWhole_refused (p := u.statementPath) (q := u.scratchPath) rfl hwrite
  unfold Definition.write
  rw [run_bind]
  unfold statementPath at hwhole
  rw [hwhole]
  rfl

/-- Where the folder of a statement is there, and nothing or a file where it is first written to, a
statement is written exactly if its stem has no NUL, the longer one of the two names is not too long
and no directory stands in the place of the statement.  Then the statement is a file in this place,
whatever stood there, and it is read by its path unless this leads through a link that stood there.
Otherwise the failure tells of the path that is to blame.  Nothing else is changed, and no scratch
file is left. -/
theorem write_allOrNothing (hs : s.WellFormed)
    (hfolder : s.kind? (Path.folder u.statementPath) = some .directory)
    (hfree : s.ownKind u.scratchPath ≠ .ok .directory)
    (hlink : s.ownKind u.scratchPath ≠ .ok .other) (d : Definition) (withDrop : Bool) :
    ∃ answer t, s.run (d.write u.stem withDrop) = (answer, t) ∧ t.Absent u.scratchPath ∧
      ((∃ p, answer = .ok p) ↔ '\x00' ∉ u.stem ∧
        Text.byteSize (Path.ending u.scratchPath) ≤ maxNameSize ∧
        s.ownKind u.statementPath ≠ .ok .directory) ∧
      (∀ p, answer = .ok p → p = u.statementPath ∧
        s.SameApart t [u.statementPath, u.scratchPath] ∧
        (∃ l, s.locate false u.statementPath = .ok l ∧
          t.entry? l = some (.file (Utf8.encode (d.render withDrop)))) ∧
        (t.kind? (Path.folder u.statementPath) = some .directory →
          t.ownKind u.statementPath = .ok .file ∧
            t.readBytes u.statementPath = .ok (Utf8.encode (d.render withDrop)))) ∧
      ∀ f, answer = .error f → s.SameApart t [u.scratchPath] ∧
        (f = .access u.scratchPath .nulCharacter ∧ '\x00' ∈ u.stem ∨
          f = .access u.scratchPath .nameTooLong ∧
            maxNameSize < Text.byteSize (Path.ending u.scratchPath) ∨
          f = .access u.statementPath .isDirectory ∧
            s.ownKind u.statementPath = .ok .directory) := by
  by_cases hnul : '\x00' ∈ u.stem
  · refine ⟨_, _, run_write_of_nul hnul d withDrop, ?_, by simp [hnul], by simp, fun f hf => ?_⟩
    · exact absent_of_locate_error (locate_of_nul (nul_mem_scratchPath hnul))
    · exact ⟨.refl s _, .inl ⟨(Except.error.inj hf).symm, hnul⟩⟩
  · rcases exists_writesAt hs hfolder hlink hnul with ⟨σ, hu, hname⟩
    have hfits : Text.byteSize (Path.ending u.scratchPath) ≤ maxNameSize ↔ σ.Fits := by
      rw [ending_scratchPath, ← hname, Site.Fits]
    have hcan := canEnd_of_writesAt hu hfree
    have haims := aimsAt_of_writesAt hu
    refine ⟨_, _, run_writeStatement hu d withDrop, ?_⟩
    rw [hfits]
    -- The longer name cannot be taken, or the shorter one is taken, or nothing is in the way.
    rcases ending_of_writesAt hu hfree with
      ⟨hend, hlong⟩ | ⟨hend, hshort, hstatement⟩ | ⟨hend, hshort, hstatement⟩
    · rw [hend]
      refine ⟨?_, by simp [Ending.answer, hlong], by simp [Ending.answer], fun f hf => ?_⟩
      · have hsize := Nat.not_le.1 hlong
        exact absent_of_locate_error ((hu.scratch false).trans (if_pos hsize))
      · refine ⟨.refl s _, .inr (.inl ⟨(Except.error.inj hf).symm, ?_⟩)⟩
        exact Nat.not_le.1 (hfits.not.2 hlong)
    · rw [hend] at hcan ⊢
      refine ⟨absent_scratchPath haims hcan (.inl rfl), by simp [Ending.answer, hstatement],
        by simp [Ending.answer], fun f hf => ⟨sameApart_statementTaken hcan, ?_⟩⟩
      exact .inr (.inr ⟨(Except.error.inj hf).symm, hstatement⟩)
    · rw [hend] at hcan ⊢
      have hplace := (hcan.statement rfl).1
      have hfile : Store.entry? (Ending.written.store s σ (Utf8.encode (d.render withDrop)))
          (σ.file statementSuffix) = some (.file (Utf8.encode (d.render withDrop))) := by
        rw [Ending.entry?_store]
        exact if_pos rfl
      refine ⟨absent_scratchPath haims hcan (.inr rfl),
        by simp [Ending.answer, hnul, hshort, hstatement], fun p hp => ?_, by simp [Ending.answer]⟩
      refine ⟨(Except.ok.inj hp).symm, sameApart_written hcan, ⟨_, hplace, hfile⟩, ?_⟩
      have hname' := fileName_ending (x := statementSuffix) hnul (by decide)
      have hsize : Text.byteSize (Path.ending u.statementPath) ≤ maxNameSize := by
        rw [statementPath, Path.withSuffix, Path.ending_append (by decide), ← hname]
        exact hshort.statement
      exact read_written (hcan.decays _) hname' hsize hplace hfile

/-- A folder with a link where a statement belongs, to a folder inside, and with the rest of an
earlier attempt. -/
def ringSample : Store := ⟨[(["d"], .directory), (["d", "in"], .directory),
  (["d", "f.sql"], .link "in"), (["d", "f.sql.tmp"], .file [75])]⟩

def constantDefinition : Definition := ⟨"", ⟨"f", "", "int"⟩, ⟨"f", ["return 1;"], .none⟩⟩

/-- The link is replaced, and what it led to stays. -/
theorem write_allOrNothing_ringSample :
    ringSample.WellFormed ∧ ringSample.kind? (Path.folder "/d/f.sql") = some .directory ∧
      ringSample.ownKind "/d/f.sql.tmp" = .ok .file ∧ ringSample.ownKind "/d/f.sql" = .ok .other ∧
      ∃ t, ringSample.run (constantDefinition.write "/d/f" false) = (.ok "/d/f.sql", t) ∧
        t.Absent "/d/f.sql.tmp" ∧
        t.entry? ["d", "f.sql"] = some (.file (Utf8.encode (constantDefinition.render false))) ∧
        t.entry? ["d", "in"] = some .directory := by
  have hs : ringSample.WellFormed := by decide +kernel
  have hfolder : ringSample.kind? (Path.folder "/d/f.sql") = some .directory := by decide +kernel
  have hold : ringSample.ownKind "/d/f.sql.tmp" = .ok .file := by decide +kernel
  have hstatement : ringSample.ownKind "/d/f.sql" = .ok .other := by decide +kernel
  obtain ⟨answer, t, hrun, habsent, hiff, hok, -⟩ :=
    write_allOrNothing (u := ⟨"/d/f", "f", ""⟩) hs hfolder (by decide +kernel) (by decide +kernel)
      constantDefinition false
  obtain ⟨p, rfl⟩ := hiff.2 (by decide +kernel)
  obtain ⟨rfl, happly, ⟨l, hl, hfile⟩, -⟩ := hok p rfl
  have hplace : ringSample.locate false "/d/f.sql" = .ok ["d", "f.sql"] := by decide +kernel
  obtain rfl : l = ["d", "f.sql"] := Except.ok.inj (hl.symm.trans hplace)
  refine ⟨hs, hfolder, hold, hstatement, t, hrun, habsent, hfile, ?_⟩
  exact happly ["d", "in"] (by decide +kernel)

/-- In the same folder, nothing is written for a stem with a NUL, although no name is too long and
nothing is in the way; and a statement whose path leads through the link is there afterwards, but
no longer at this path. -/
theorem write_allOrNothing_fails :
    (ringSample.kind? (Path.folder "/d/\x00.sql") = some .directory ∧
      ringSample.Absent "/d/\x00.sql.tmp" ∧
      Text.byteSize (Path.ending "/d/\x00.sql.tmp") ≤ maxNameSize ∧
      ringSample.ownKind "/d/\x00.sql" ≠ .ok .directory ∧
      (ringSample.run (constantDefinition.write "/d/\x00" false)).1 ≠ .ok "/d/\x00.sql") ∧
    ringSample.kind? (Path.folder "/d/f.sql/../f.sql") = some .directory ∧
      ringSample.ownKind "/d/f.sql/../f.sql.tmp" = .ok .file ∧
      (ringSample.run (constantDefinition.write "/d/f.sql/../f" false)).1 =
        .ok "/d/f.sql/../f.sql" ∧
      Store.ownKind (ringSample.run (constantDefinition.write "/d/f.sql/../f" false)).2
        "/d/f.sql/../f.sql" ≠ .ok .file := by
  refine ⟨⟨by decide +kernel, ?_, by decide +kernel, by decide +kernel, by decide +kernel⟩,
    by decide +kernel, by decide +kernel, by decide +kernel, by decide +kernel⟩
  exact absent_of_locate_error (f := .nulCharacter) (by decide +kernel)

end Store
end ProcedureGen
