import ProcedureGen.Proofs.Conversion.Site

/-!
# One unit

What the conversion of one unit answers and what it changes, for a unit that stands at a site.

* `Store.run_build_congr`: the definition depends on the two sources alone;
* `Ending`: the four ways in which writing can end;
* `Store.run_writeStatement`: what writing answers and what it changes;
* `Store.run_make`: the effect of one conversion, place by place;
* `Store.SameSources`: what a conversion depends on.
-/

namespace ProcedureGen

open SourceUnit

/-- The ways in which the writing of a statement can end. -/
inductive Ending where
  | tooLong
  /-- A directory stands where the statement is first written to. -/
  | scratchTaken
  /-- A directory stands where the statement belongs. -/
  | statementTaken
  | written
  deriving DecidableEq

namespace Ending

def answer (u : SourceUnit) : Ending → Except Failure Path
  | tooLong => .error (.access u.scratchPath .nameTooLong)
  | scratchTaken => .error (.access u.scratchPath .isDirectory)
  | statementTaken => .error (.access u.statementPath .isDirectory)
  | written => .ok u.statementPath

def store (s : Store) (σ : Site) (bytes : List UInt8) : Ending → Store
  | tooLong | scratchTaken => s
  | statementTaken => (s.insert (σ.file scratchEnd) (.file bytes)).erase (σ.file scratchEnd)
  | written =>
    ((s.insert (σ.file scratchEnd) (.file bytes)).erase (σ.file scratchEnd)).insert
      (σ.file statementSuffix) (.file bytes)

/-- What writing leaves at a location, after what stood there before. -/
def leaves (σ : Site) (bytes : List UInt8) (l : Location) (before : Option Entry) :
    Ending → Option Entry
  | tooLong | scratchTaken => before
  | statementTaken => if l = σ.file scratchEnd then none else before
  | written =>
    if l = σ.file statementSuffix then some (.file bytes)
    else if l = σ.file scratchEnd then none
    else before

variable {σ : Site} {bytes before : List UInt8} {l : Location}

theorem entry?_store (e : Ending) (s : Store) (σ : Site) (bytes : List UInt8) (l : Location) :
    Store.entry? (e.store s σ bytes) l = e.leaves σ bytes l (s.entry? l) := by
  have hne := σ.file_ne_nil
  cases e with
  | tooLong => rfl
  | scratchTaken => rfl
  | statementTaken =>
      simp only [store, leaves, Store.entry?_erase _ (hne _), Store.entry?_insert _ (hne _)]
      split <;> rfl
  | written =>
      simp only [store, leaves, Store.entry?_erase _ (hne _), Store.entry?_insert _ (hne _)]
      split
      · rfl
      · split <;> rfl

/-- Nothing is left of what has been written before. -/
theorem leaves_leaves (e : Ending) (before : List UInt8) (entry : Option Entry) :
    e.leaves σ bytes l (e.leaves σ before l entry) = e.leaves σ bytes l entry := by
  cases e with
  | tooLong => rfl
  | scratchTaken => rfl
  | statementTaken =>
      simp only [leaves]
      split <;> rfl
  | written =>
      simp only [leaves]
      split
      · rfl
      · split <;> rfl

theorem leaves_of_not_writes (e : Ending) (hl : ¬ σ.Writes l) (entry : Option Entry) :
    e.leaves σ bytes l entry = entry := by
  have hstatement : l ≠ σ.file statementSuffix := fun h => hl (.inl h)
  have hscratch : l ≠ σ.file scratchEnd := fun h => hl (.inr h)
  cases e <;> simp [leaves, hstatement, hscratch]

end Ending

namespace Store

variable {s t r : Store} {u : SourceUnit} {σ : Site} {d : Definition} {withDrop : Bool} {p : Path}
  {l k : Location} {y x : Text} {fl : Bool}

/-! ## Definitions -/

/-- What is read from a file, or why it cannot be read. -/
def readFor {α : Type} (s : Store) (p : Path) (f : Text → Except Failure α) : Except Failure α :=
  match s.read p with
  | .ok source => f source
  | .error fault => .error (.access p fault)

theorem readFor_congr {α : Type} (f : Text → Except Failure α) (h : s.read p = t.read p) :
    s.readFor p f = t.readFor p f := by
  rw [readFor, readFor, h]

theorem run_readSignature (s : Store) (u : SourceUnit) : s.run u.readSignature =
    (s.readFor u.declarationPath (Signature.read u.declarationPath), s) := by
  unfold readSignature readFor
  rw [run_bind, run_read]
  dsimp only
  split <;> simp only [*, run_pure]

theorem run_readBody (s : Store) (u : SourceUnit) : s.run u.readBody =
    (s.readFor u.modulePath (FunctionBody.read u.modulePath), s) := by
  unfold readBody readFor
  rw [run_bind, run_read]
  dsimp only
  split <;> simp only [*, run_pure]

/-- The definition of a unit in a store. -/
def definition (s : Store) (u : SourceUnit) : Except Failure Definition :=
  if u.schema ≠ [] ∧ !isSchemaName u.schema then .error (.invalidSchema u.stem u.schema)
  else match s.readFor u.declarationPath (Signature.read u.declarationPath) with
    | .error f => .error f
    | .ok sig => match s.readFor u.modulePath (FunctionBody.read u.modulePath) with
      | .error f => .error f
      | .ok b => Definition.ofParts u sig b

/-- Building a definition changes nothing. -/
theorem run_build (s : Store) (u : SourceUnit) :
    s.run (Definition.build u) = (s.definition u, s) := by
  unfold Definition.build definition
  split
  · rfl
  · rw [run_bind, run_readSignature]
    cases s.readFor u.declarationPath (Signature.read u.declarationPath) with
    | error f => rfl
    | ok sig =>
        dsimp only
        rw [run_bind, run_readBody]
        cases s.readFor u.modulePath (FunctionBody.read u.modulePath) <;> rfl

theorem run_build_snd (s : Store) (u : SourceUnit) : (s.run (Definition.build u)).2 = s := by
  rw [run_build]

/-- A definition depends on the two sources of its unit alone. -/
theorem run_build_congr (hd : s.read u.declarationPath = t.read u.declarationPath)
    (hm : s.read u.modulePath = t.read u.modulePath) :
    (s.run (Definition.build u)).1 = (t.run (Definition.build u)).1 := by
  rw [run_build, run_build, definition, definition, readFor_congr _ hd, readFor_congr _ hm]

theorem read_congr (hs : s.locate true p = leaf l y) (ht : t.locate true p = leaf l y)
    (h : s.entry? (l ++ [y]) = t.entry? (l ++ [y])) : s.read p = t.read p := by
  have hbytes : s.readBytes p = t.readBytes p := by
    unfold readBytes
    rw [hs, ht]
    unfold leaf
    by_cases hsize : maxNameSize < Text.byteSize y
    · simp only [if_pos hsize]
    · simp only [if_neg hsize, h]
  unfold read
  rw [hbytes]

/-! ## Writing -/

theorem write_leaf (h : s.locate true p = leaf l y) (text : Text) :
    s.write p text =
      if maxNameSize < Text.byteSize y then .error .nameTooLong
      else if s.entry? (l ++ [y]) = some .directory then .error .isDirectory
      else .ok (s.insert (l ++ [y]) (.file (Utf8.encode text))) := by
  unfold write writeBytes
  rw [h]
  unfold leaf
  by_cases hsize : maxNameSize < Text.byteSize y
  · simp only [if_pos hsize]
  · simp only [if_neg hsize]

theorem rename_file {q : Path} {bytes : List UInt8} (hp : s.locate false p = .ok l)
    (hq : s.locate false q = .ok k) (hfile : s.entry? l = some (.file bytes)) :
    s.rename p q =
      if s.entry? k = some .directory then .error .isDirectory
      else .ok ((s.erase l).insert k (.file bytes)) := by
  unfold rename
  simp only [hp, hq, hfile]

theorem remove_file {bytes : List UInt8} (hp : s.locate false p = .ok l)
    (hfile : s.entry? l = some (.file bytes)) : s.remove p = .ok (s.erase l) := by
  unfold remove
  simp only [hp, hfile]

section Whole

variable {q : Path} {text : Text} {fault : AccessFault}

theorem run_writeWhole_refused (hq : p.withSuffix scratchSuffix = q)
    (hwrite : s.write q text = .error fault) :
    s.run (writeWhole p text) = (.error (.access q fault), s) := by
  subst hq
  unfold writeWhole
  rw [run_bind, run_write, run_change, hwrite]
  rfl

theorem run_writeWhole_blocked (hq : p.withSuffix scratchSuffix = q)
    (hwrite : s.write q text = .ok t) (hrename : t.rename q p = .error fault)
    (hremove : t.remove q = .ok r) :
    s.run (writeWhole p text) = (.error (.access p fault), r) := by
  subst hq
  unfold writeWhole
  rw [run_bind, run_write, run_change, hwrite]
  simp only
  rw [run_bind, run_rename, run_change, hrename]
  simp only
  rw [run_bind, run_remove, run_change, hremove]
  rfl

theorem run_writeWhole_done (hq : p.withSuffix scratchSuffix = q)
    (hwrite : s.write q text = .ok t) (hrename : t.rename q p = .ok r) :
    s.run (writeWhole p text) = (.ok (), r) := by
  subst hq
  unfold writeWhole
  rw [run_bind, run_write, run_change, hwrite]
  simp only
  rw [run_bind, run_rename, run_change, hrename]
  rfl

end Whole

def ending (s : Store) (σ : Site) : Ending :=
  if ¬ σ.Fits then .tooLong
  else if s.entry? (σ.file scratchEnd) = some .directory then .scratchTaken
  else if s.entry? (σ.file statementSuffix) = some .directory then .statementTaken
  else .written

theorem ending_congr (h : SameTree s t) (σ : Site) : s.ending σ = t.ending σ := by
  unfold ending
  simp only [h.directory_iff]

theorem hasRoomForFile_iff (hlink : ∀ target, s.entry? l ≠ some (.link target)) :
    s.HasRoomForFile l ↔ s.entry? l ≠ some .directory := by
  constructor
  · intro h hdir
    exact absurd (h .directory hdir) (by decide)
  · intro h e he
    cases e with
    | file bytes => rfl
    | directory => exact absurd he h
    | link target => exact absurd he (hlink target)

theorem run_writeWhole (hu : u.WritesAt s σ) (text : Text) :
    s.run (writeWhole u.statementPath text) =
      (((s.ending σ).answer u).map fun _ => (),
        (s.ending σ).store s σ (Utf8.encode text)) := by
  have hwrite := write_leaf (hu.scratch true) text
  unfold ending
  by_cases hfits : σ.Fits
  -- The scratch file has the longer name: where it fits, the statement fits.
  · have hsize : ¬ maxNameSize < Text.byteSize (σ.name ++ scratchEnd) := Nat.not_lt.2 hfits
    have hsize' : ¬ maxNameSize < Text.byteSize (σ.name ++ statementSuffix) :=
      Nat.not_lt.2 hfits.statement
    rw [if_neg hsize] at hwrite
    rw [if_neg (not_not.2 hfits)]
    by_cases htaken : s.entry? (σ.file scratchEnd) = some .directory
    · rw [if_pos htaken]
      exact run_writeWhole_refused rfl (hwrite.trans (if_pos htaken))
    -- The scratch file has been written, and both places are as they were.
    · rw [if_neg htaken]
      have hwritten := hwrite.trans (if_neg htaken)
      have hroom := (hasRoomForFile_iff hu.noLink).2 htaken
      have htree := sameTree_insert_file hroom (σ.file_ne_nil scratchEnd) (Utf8.encode text)
      have hu' := writesAt_of_sameTree htree hu
      have hold := hu'.scratch false
      rw [leaf, if_neg hsize] at hold
      have hnew := hu'.statement
      rw [leaf, if_neg hsize'] at hnew
      have hfile := entry?_insert s (σ.file_ne_nil scratchEnd) (.file (Utf8.encode text))
        (σ.file scratchEnd)
      rw [if_pos rfl] at hfile
      have hrename := rename_file hold hnew hfile
      have hdir := htree.directory_iff (l := σ.file statementSuffix)
      by_cases hblocked : s.entry? (σ.file statementSuffix) = some .directory
      · rw [if_pos hblocked]
        exact run_writeWhole_blocked rfl hwritten (hrename.trans (if_pos (hdir.1 hblocked)))
          (remove_file hold hfile)
      · rw [if_neg hblocked]
        exact run_writeWhole_done rfl hwritten
          (hrename.trans (if_neg fun h => hblocked (hdir.2 h)))
  · have hsize : maxNameSize < Text.byteSize (σ.name ++ scratchEnd) := Nat.not_le.1 hfits
    rw [if_pos hsize] at hwrite
    rw [if_pos hfits]
    exact run_writeWhole_refused rfl hwrite

theorem run_writeStatement (hu : u.WritesAt s σ) (d : Definition) (withDrop : Bool) :
    s.run (d.write u.stem withDrop) =
      ((s.ending σ).answer u, (s.ending σ).store s σ (Utf8.encode (d.render withDrop))) := by
  have hwhole := run_writeWhole hu (d.render withDrop)
  unfold Definition.write
  rw [run_bind]
  unfold statementPath at hwhole
  rw [hwhole]
  cases s.ending σ <;> rfl

theorem sameTree_ending (hu : u.StandsAt s σ) (bytes : List UInt8) :
    SameTree s ((s.ending σ).store s σ bytes) := by
  have hscratch : scratchEnd ∈ suffixes := by decide
  have hstatement : statementSuffix ∈ suffixes := by decide
  have hne := σ.file_ne_nil
  -- The scratch file comes and goes where there was a file or nothing.
  have hgone : s.entry? (σ.file scratchEnd) ≠ some .directory →
      SameTree s ((s.insert (σ.file scratchEnd) (.file bytes)).erase (σ.file scratchEnd)) := by
    intro htaken
    have hroom := (hasRoomForFile_iff (hu.noLink _ hscratch)).2 htaken
    have htree := sameTree_insert_file hroom (hne scratchEnd) bytes
    exact htree.trans (sameTree_erase (hroom.of_sameTree htree) (hne scratchEnd))
  unfold ending
  split
  · exact .refl s
  · split
    · exact .refl s
    next htaken =>
      split
      · exact hgone htaken
      next hblocked =>
        have hroom := (hasRoomForFile_iff (hu.noLink _ hstatement)).2 hblocked
        have htree := hgone htaken
        exact htree.trans
          (sameTree_insert_file (hroom.of_sameTree htree) (hne statementSuffix) bytes)

/-! ## Attempts -/

/-- What comes of a unit at a site. -/
def attempt (s : Store) (σ : Site) (u : SourceUnit) : Attempt :=
  let d := (s.run (Definition.build u)).1
  ⟨u, d, d.bind fun _ => (s.ending σ).answer u⟩

@[simp] theorem attempt_unit (s : Store) (σ : Site) (u : SourceUnit) :
    (s.attempt σ u).unit = u := rfl

theorem outcome_attempt_eq_ok :
    (s.attempt σ u).outcome = .ok p ↔
      p = u.statementPath ∧ s.ending σ = .written ∧
        ∃ d, (s.run (Definition.build u)).1 = .ok d := by
  unfold attempt
  cases (s.run (Definition.build u)).1 with
  | error f => simp [Except.bind]
  | ok d => cases s.ending σ <;> simp [Except.bind, Ending.answer, eq_comm]

/-- What the conversion of a unit at a site leaves at a location. -/
def leaves (s : Store) (withDrop : Bool) (u : SourceUnit) (σ : Site) (l : Location) :
    Option Entry :=
  match (s.run (Definition.build u)).1 with
  | .error _ => s.entry? l
  | .ok d => (s.ending σ).leaves σ (Utf8.encode (d.render withDrop)) l (s.entry? l)

/-- The effect of one conversion: what is answered, what stays and what is changed. -/
theorem run_make (hu : u.StandsAt s σ) (withDrop : Bool) :
    (s.run (Attempt.make withDrop u)).1 = s.attempt σ u ∧
      SameTree s (s.run (Attempt.make withDrop u)).2 ∧
      ∀ l, Store.entry? (s.run (Attempt.make withDrop u)).2 l = s.leaves withDrop u σ l := by
  unfold Attempt.make attempt leaves
  rw [run_bind, run_build_snd]
  cases (s.run (Definition.build u)).1 with
  | error f => exact ⟨rfl, .refl s, fun _ => rfl⟩
  | ok d =>
      simp only [run_bind, run_writeStatement hu.writesAt, run_pure]
      exact ⟨rfl, sameTree_ending hu _, Ending.entry?_store _ s σ _⟩

theorem leaves_of_not_writes {withDrop : Bool} (hl : ¬ σ.Writes l) :
    s.leaves withDrop u σ l = s.entry? l := by
  unfold leaves
  split
  · rfl
  · exact Ending.leaves_of_not_writes _ hl _

theorem leaves_of_failed {withDrop : Bool} {f : Failure}
    (hfail : (s.attempt σ u).outcome = .error f) (hl : l ≠ σ.file scratchEnd) :
    s.leaves withDrop u σ l = s.entry? l := by
  unfold leaves
  split
  · rfl
  next d hbuild =>
    cases hend : s.ending σ with
    | tooLong => rfl
    | scratchTaken => rfl
    | statementTaken => simp [Ending.leaves, hl]
    | written =>
        rw [outcome_attempt_eq_ok.2 ⟨rfl, hend, d, hbuild⟩] at hfail
        cases hfail

theorem leaves_of_not_fits {withDrop : Bool} (h : ¬ σ.Fits) :
    s.leaves withDrop u σ l = s.entry? l := by
  unfold leaves ending
  rw [if_pos h]
  split <;> rfl

/-- Only a statement is ever left where nothing stood. -/
theorem fits_of_leaves {withDrop : Bool} (hl : s.entry? l = none)
    (h : s.leaves withDrop u σ l ≠ none) : l = σ.file statementSuffix ∧ σ.Fits := by
  unfold leaves at h
  rw [hl] at h
  split at h
  · exact absurd rfl h
  · cases hend : s.ending σ with
    | tooLong => simp [hend, Ending.leaves] at h
    | scratchTaken => simp [hend, Ending.leaves] at h
    | statementTaken => simp [hend, Ending.leaves] at h
    | written =>
        constructor
        · by_contra hne
          simp [hend, Ending.leaves, hne] at h
        · by_contra hfits
          simp [ending, hfits] at hend

/-- Two states with the same sources of a unit, and the same directories and links everywhere. -/
structure SameSources (s t : Store) (σ : Site) : Prop where
  tree : SameTree s t
  module : s.entry? (σ.file moduleSuffix) = t.entry? (σ.file moduleSuffix)
  declaration : s.entry? (σ.file declarationSuffix) = t.entry? (σ.file declarationSuffix)

theorem SameSources.build (h : SameSources s t σ) (hu : u.StandsAt s σ) :
    (s.run (Definition.build u)).1 = (t.run (Definition.build u)).1 := by
  have hu' := standsAt_of_sameTree h.tree hu
  have hmodule : moduleSuffix ∈ suffixes := by decide
  have hdeclaration : declarationSuffix ∈ suffixes := by decide
  exact run_build_congr
    (read_congr (hu.place _ hdeclaration true) (hu'.place _ hdeclaration true) h.declaration)
    (read_congr (hu.place _ hmodule true) (hu'.place _ hmodule true) h.module)

/-- What comes of a unit depends on its sources, and on directories in the way. -/
theorem SameSources.attempt (h : SameSources s t σ) (hu : u.StandsAt s σ) :
    s.attempt σ u = t.attempt σ u := by
  unfold Store.attempt
  rw [h.build hu, ending_congr h.tree]

theorem SameSources.leaves (h : SameSources s t σ) (hu : u.StandsAt s σ)
    (hl : s.entry? l = t.entry? l) (withDrop : Bool) :
    s.leaves withDrop u σ l = t.leaves withDrop u σ l := by
  unfold Store.leaves
  rw [h.build hu, ending_congr h.tree, hl]

/-- What an earlier conversion has left is of no influence. -/
theorem SameSources.leaves_again {before : Bool} (h : SameSources s t σ) (hu : u.StandsAt s σ)
    (hl : t.entry? l = s.leaves before u σ l) (withDrop : Bool) :
    t.leaves withDrop u σ l = s.leaves withDrop u σ l := by
  unfold Store.leaves at hl ⊢
  rw [← h.build hu, ← ending_congr h.tree, hl]
  split
  · rfl
  · exact Ending.leaves_leaves _ _ _

end Store

end ProcedureGen
