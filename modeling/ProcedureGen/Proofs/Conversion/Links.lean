import ProcedureGen.Proofs.Conversion.Exact
import ProcedureGen.Proofs.Store.Decay

/-!
# Conversion among links

What a run changes when links stand anywhere below the root.  A statement takes the place of a link,
but a scratch file is written through one.

* `SourceUnit.AimsAt`: the paths that a unit writes lead to the places of a site, if anywhere;
* `Store.Touches`: what some units may change;
* `Store.touches_make`, `Store.touches_convertAll`: what one unit changes, and what many do;
* `Store.convertTree_among_links`: what a whole run changes, if no link has the name of a scratch
  file;
* `Store.run_writeWhole_link`: what happens to such a link, and to the file behind it.
-/

namespace ProcedureGen

open SourceUnit

/-- The two paths that a unit writes lead to the places of a site or nowhere, and the first one
leads to no link. -/
structure SourceUnit.AimsAt (s : Store) (u : SourceUnit) (σ : Site) : Prop where
  statement : ∀ l, s.locate false u.statementPath = .ok l → l = σ.file statementSuffix
  scratch : ∀ l, s.locate false u.scratchPath = .ok l → l = σ.file scratchEnd
  noLink : ∀ l target, s.locate false u.scratchPath = .ok l → s.entry? l ≠ some (.link target)

namespace Store

variable {s t r : Store} {c : Settings} {u v : SourceUnit} {us : List SourceUnit} {σ : Site}
  {withDrop : Bool} {l k : Location} {p : Path} {R : Location}

def HoldsFile (s : Store) (l : Location) : Prop := ∃ bytes, s.entry? l = some (.file bytes)

theorem AimsAt.decays (hu : u.AimsAt s σ) (h : Decays s t) : u.AimsAt t σ := by
  refine ⟨fun l hl => hu.statement l (h.locate hl), fun l hl => hu.scratch l (h.locate hl), ?_⟩
  intro l target hl hlink
  exact hu.noLink l target (h.locate hl) (h.link l target hlink)

/-! ## What units may change -/

/-- The second state is the first after some units may have written.  Files are written, links are
taken away, and only scratch files are. -/
structure Touches (s t : Store) (us : List SourceUnit) : Prop where
  decays : Decays s t
  rest : ∀ l, (∀ u ∈ us, s.locate false u.statementPath ≠ .ok l ∧
    s.locate false u.scratchPath ≠ .ok l) → t.entry? l = s.entry? l
  holdsFile : ∀ l, s.HoldsFile l → (∀ u ∈ us, s.locate false u.scratchPath ≠ .ok l) →
    t.HoldsFile l

namespace Touches

theorem refl (s : Store) (us : List SourceUnit) : Touches s s us :=
  ⟨.refl s, fun _ _ => rfl, fun _ hl _ => hl⟩

theorem cons (h : Touches s t [u]) (h' : Touches t r us) : Touches s r (u :: us) := by
  refine ⟨h.decays.trans h'.decays, fun l hl => ?_, fun l hfile hl => ?_⟩
  · have hfirst : ∀ v ∈ [u], s.locate false v.statementPath ≠ .ok l ∧
        s.locate false v.scratchPath ≠ .ok l := by
      intro v hv
      exact hl v (by simp [List.mem_singleton.1 hv])
    have hothers : ∀ v ∈ us, t.locate false v.statementPath ≠ .ok l ∧
        t.locate false v.scratchPath ≠ .ok l := by
      intro v hv
      have hv := hl v (List.mem_cons_of_mem u hv)
      exact ⟨fun h'' => hv.1 (h.decays.locate h''), fun h'' => hv.2 (h.decays.locate h'')⟩
    rw [h'.rest l hothers, h.rest l hfirst]
  · refine h'.holdsFile l (h.holdsFile l hfile fun v hv => ?_) fun v hv h'' => ?_
    · exact hl v (by simp [List.mem_singleton.1 hv])
    · exact hl v (List.mem_cons_of_mem u hv) (h.decays.locate h'')

end Touches

/-! ## One unit -/

theorem write_aimed (hu : u.AimsAt s σ) (text : Text) (h : s.write u.scratchPath text = .ok t) :
    s.locate false u.scratchPath = .ok (σ.file scratchEnd) ∧
      s.entry? (σ.file scratchEnd) ≠ some .directory ∧
      t = s.insert (σ.file scratchEnd) (.file (Utf8.encode text)) := by
  unfold write writeBytes at h
  rw [locate_followed fun l target => hu.noLink l target] at h
  cases hl : s.locate false u.scratchPath with
  | error fault => simp [hl] at h
  | ok l =>
      obtain rfl := hu.scratch l hl
      simp only [hl] at h
      split at h
      · cases h
      next hdir => exact ⟨rfl, hdir, (Except.ok.inj h).symm⟩

/-- A renaming that succeeds gives the statement file what the scratch file held, at a place that
was free before the scratch file was written. -/
theorem rename_aimed {bytes : List UInt8} {r : Store} (hu : u.AimsAt s σ) (htree : SameTree s t)
    (hold : t.locate false u.scratchPath = .ok (σ.file scratchEnd))
    (hfile : t.entry? (σ.file scratchEnd) = some (.file bytes))
    (h : t.rename u.scratchPath u.statementPath = .ok r) :
    s.locate false u.statementPath = .ok (σ.file statementSuffix) ∧
      s.entry? (σ.file statementSuffix) ≠ some .directory ∧
      r = (t.erase (σ.file scratchEnd)).insert (σ.file statementSuffix) (.file bytes) := by
  cases hnew : t.locate false u.statementPath with
  | error fault => simp [rename, hold, hnew] at h
  | ok k =>
      have hplace := (locate_of_sameTree htree.symm (by rw [hnew]; exact settled_ok _)).trans hnew
      obtain rfl := hu.statement k hplace
      rw [rename_file hold hnew hfile] at h
      split at h
      · cases h
      next hfree =>
        exact ⟨hplace, fun hdir => hfree (htree.directory_iff.1 hdir), (Except.ok.inj h).symm⟩

/-- The writing of a statement can end in a way: what it has written was free to be written. -/
structure CanEnd (s : Store) (u : SourceUnit) (σ : Site) (e : Ending) : Prop where
  scratch : e = .statementTaken ∨ e = .written →
    s.locate false u.scratchPath = .ok (σ.file scratchEnd) ∧
      s.entry? (σ.file scratchEnd) ≠ some .directory
  statement : e = .written →
    s.locate false u.statementPath = .ok (σ.file statementSuffix) ∧
      s.entry? (σ.file statementSuffix) ≠ some .directory

theorem CanEnd.decays {e : Ending} (h : s.CanEnd u σ e) (bytes : List UInt8) :
    Decays s (e.store s σ bytes) := by
  have hne := σ.file_ne_nil
  have hgone : s.entry? (σ.file scratchEnd) ≠ some .directory →
      Decays s ((s.insert (σ.file scratchEnd) (.file bytes)).erase (σ.file scratchEnd)) := by
    intro hdir
    have hwritten := Decays.insert_file hdir (hne _) bytes
    exact hwritten.trans (.erase (fun h => hdir ((hwritten.directory _).2 h)) (hne _))
  cases e with
  | tooLong => exact .refl s
  | scratchTaken => exact .refl s
  | statementTaken => exact hgone (h.scratch (.inl rfl)).2
  | written =>
      have hcleared := hgone (h.scratch (.inr rfl)).2
      have hdir := (h.statement rfl).2
      exact hcleared.trans (.insert_file (fun h => hdir ((hcleared.directory _).2 h)) (hne _) bytes)

theorem CanEnd.touches {e : Ending} (h : s.CanEnd u σ e) (bytes : List UInt8) :
    Touches s (e.store s σ bytes) [u] := by
  refine ⟨h.decays bytes, fun l hl => ?_, fun l hfile hl => ?_⟩
  · have hl := hl u (by simp)
    rw [Ending.entry?_store]
    cases e with
    | tooLong => rfl
    | scratchTaken => rfl
    | statementTaken =>
        refine if_neg fun heq => hl.2 ?_
        rw [heq, (h.scratch (.inl rfl)).1]
    | written =>
        have hstatement : l ≠ σ.file statementSuffix := by
          rintro rfl
          exact hl.1 (h.statement rfl).1
        have hscratch : l ≠ σ.file scratchEnd := by
          rintro rfl
          exact hl.2 (h.scratch (.inr rfl)).1
        simp [Ending.leaves, hstatement, hscratch]
  · have hl := hl u (by simp)
    unfold HoldsFile at hfile ⊢
    rw [Ending.entry?_store]
    cases e with
    | tooLong => exact hfile
    | scratchTaken => exact hfile
    | statementTaken =>
        have hscratch : l ≠ σ.file scratchEnd := by
          rintro rfl
          exact hl (h.scratch (.inl rfl)).1
        simpa [Ending.leaves, hscratch] using hfile
    | written =>
        have hscratch : l ≠ σ.file scratchEnd := by
          rintro rfl
          exact hl (h.scratch (.inr rfl)).1
        by_cases hstatement : l = σ.file statementSuffix
        · simp [Ending.leaves, hstatement]
        · simpa [Ending.leaves, hstatement, hscratch] using hfile

/-- The writing of a statement ends in one of the ways in which it ends where there are no links. -/
theorem run_writeWhole_aimed (hu : u.AimsAt s σ) (text : Text) :
    ∃ e : Ending, s.CanEnd u σ e ∧
      (s.run (writeWhole u.statementPath text)).2 = e.store s σ (Utf8.encode text) ∧
      ((s.run (writeWhole u.statementPath text)).1 = .ok () ↔ e = .written) := by
  cases hwrite : s.write u.scratchPath text with
  | error fault =>
      refine ⟨.tooLong, ⟨by simp, by simp⟩, ?_⟩
      rw [run_writeWhole_refused rfl hwrite]
      simp [Ending.store]
  | ok t =>
      rcases write_aimed hu text hwrite with ⟨hscratch, hdir, rfl⟩
      have hne := σ.file_ne_nil
      have hroom : s.HasRoomForFile (σ.file scratchEnd) := by
        intro e he
        cases e with
        | file bytes => rfl
        | directory => exact absurd he hdir
        | link target => exact absurd he (hu.noLink _ target hscratch)
      have htree := sameTree_insert_file hroom (hne scratchEnd) (Utf8.encode text)
      have hold := (locate_of_sameTree htree (by rw [hscratch]; exact settled_ok _)).trans hscratch
      have hfile : Store.entry? (s.insert (σ.file scratchEnd) (.file (Utf8.encode text)))
          (σ.file scratchEnd) = some (.file (Utf8.encode text)) := by
        rw [entry?_insert s (hne _), if_pos rfl]
      cases hrename : Store.rename (s.insert (σ.file scratchEnd) (.file (Utf8.encode text)))
          u.scratchPath u.statementPath with
      | error fault =>
          refine ⟨.statementTaken, ⟨fun _ => ⟨hscratch, hdir⟩, by simp⟩, ?_⟩
          rw [run_writeWhole_blocked rfl hwrite hrename (remove_file hold hfile)]
          simp [Ending.store]
      | ok r =>
          rcases rename_aimed hu htree hold hfile hrename with ⟨hplace, hfree, rfl⟩
          refine ⟨.written, ⟨fun _ => ⟨hscratch, hdir⟩, fun _ => ⟨hplace, hfree⟩⟩, ?_⟩
          rw [run_writeWhole_done rfl hwrite hrename]
          exact ⟨rfl, fun _ => rfl, fun _ => rfl⟩

/-- An attempt at a unit among links: there is no definition and nothing is done, or one is written
in one of the ways in which writing can end. -/
theorem run_make_aimed (hu : u.AimsAt s σ) (withDrop : Bool) :
    (∃ f, s.run (Attempt.make withDrop u) = (⟨u, .error f, .error f⟩, s)) ∨
      ∃ d e outcome, s.CanEnd u σ e ∧
        s.run (Attempt.make withDrop u) =
          (⟨u, .ok d, outcome⟩, e.store s σ (Utf8.encode (d.render withDrop))) ∧
        ∀ p, outcome = .ok p ↔ e = .written ∧ p = u.statementPath := by
  unfold Attempt.make
  rw [run_bind, run_build_snd]
  cases (s.run (Definition.build u)).1 with
  | error f => exact .inl ⟨f, rfl⟩
  | ok d =>
      rcases run_writeWhole_aimed hu (d.render withDrop) with ⟨e, hcan, hstore, hok⟩
      have hwrite : s.run (d.write u.stem withDrop) =
          ((s.run (writeWhole u.statementPath (d.render withDrop))).1.map fun _ => u.statementPath,
            (s.run (writeWhole u.statementPath (d.render withDrop))).2) := by
        unfold Definition.write statementPath
        rw [run_bind]
        cases (s.run (writeWhole (u.stem.withSuffix statementSuffix) (d.render withDrop))).1 <;> rfl
      simp only [run_bind, run_pure, hwrite]
      rw [hstore]
      refine .inr ⟨d, e, _, hcan, rfl, fun p => ?_⟩
      rw [← hok]
      cases (s.run (writeWhole u.statementPath (d.render withDrop))).1 <;>
        simp [Except.map, eq_comm]

/-- An attempt has given a statement, which is a file at its place. -/
structure Succeeded (s t : Store) (a : Attempt) (p : Path) : Prop where
  path : p = a.unit.statementPath
  file : ∃ l, s.locate false p = .ok l ∧ t.HoldsFile l

/-- What the conversion of one unit changes. -/
theorem touches_make (hu : u.AimsAt s σ) (withDrop : Bool) :
    Touches s (s.run (Attempt.make withDrop u)).2 [u] ∧
      (s.run (Attempt.make withDrop u)).1.unit = u ∧
      ∀ p, (s.run (Attempt.make withDrop u)).1.outcome = .ok p →
        s.Succeeded (s.run (Attempt.make withDrop u)).2 (s.run (Attempt.make withDrop u)).1 p := by
  rcases run_make_aimed hu withDrop with ⟨f, hrun⟩ | ⟨d, e, outcome, hcan, hrun, hok⟩
  · rw [hrun]
    refine ⟨.refl s _, rfl, fun p hp => ?_⟩
    cases hp
  · rw [hrun]
    refine ⟨hcan.touches _, rfl, fun p hp => ?_⟩
    rcases (hok p).1 hp with ⟨rfl, rfl⟩
    refine ⟨rfl, σ.file statementSuffix, (hcan.statement rfl).1,
      Utf8.encode (d.render withDrop), ?_⟩
    rw [Ending.entry?_store]
    simp [Ending.leaves]

/-! ## Many units -/

/-- What the conversion of many units changes.  A statement that one unit has written is not touched
by another, unless it is put in its place. -/
theorem touches_convertAll (hus : ∀ u ∈ us, ∃ σ, u.AimsAt s σ) (withDrop : Bool) :
    Touches s (s.run (convertAll withDrop us)).2 us ∧
      ∀ a ∈ (s.run (convertAll withDrop us)).1, a.unit ∈ us ∧
        ∀ p, a.outcome = .ok p → s.Succeeded (s.run (convertAll withDrop us)).2 a p := by
  -- The later units are converted in a state with fewer links, where their paths lead no further.
  induction us generalizing s with
  | nil => exact ⟨.refl s _, by simp [convertAll]⟩
  | cons u us ih =>
      rcases hus u (by simp) with ⟨σ, hu⟩
      rcases touches_make hu withDrop with ⟨hfirst, hunit, hok⟩
      have hothers : ∀ v ∈ us, ∃ τ, v.AimsAt (s.run (Attempt.make withDrop u)).2 τ := by
        intro v hv
        rcases hus v (List.mem_cons_of_mem u hv) with ⟨τ, hv⟩
        exact ⟨τ, AimsAt.decays hv hfirst.decays⟩
      rcases ih hothers with ⟨hrest, hattempts⟩
      unfold convertAll
      simp only [run_bind, run_pure]
      refine ⟨hfirst.cons hrest, fun a ha => ?_⟩
      rcases List.mem_cons.1 ha with rfl | ha
      · refine ⟨by simp [hunit], fun p hp => ?_⟩
        rcases hok p hp with ⟨rfl, l, hl, hfile⟩
        refine ⟨rfl, l, hl, hrest.holdsFile l hfile fun v hv hscratch => ?_⟩
        rcases hus v (List.mem_cons_of_mem u hv) with ⟨τ, hv⟩
        rw [hunit] at hl
        have hstatement := hu.statement l hl
        rw [hv.scratch l (hfirst.decays.locate hscratch)] at hstatement
        exact Site.statement_ne_scratch hstatement.symm
      · rcases hattempts a ha with ⟨hmem, hsucceeded⟩
        refine ⟨List.mem_cons_of_mem u hmem, fun p hp => ?_⟩
        rcases hsucceeded p hp with ⟨hpath, l, hl, hfile⟩
        exact ⟨hpath, l, hfirst.decays.locate hl, hfile⟩

/-! ## Whole trees -/

theorem ownKind_ne_other_iff :
    s.ownKind p ≠ .ok .other ↔
      ∀ l target, s.locate false p = .ok l → s.entry? l ≠ some (.link target) := by
  unfold ownKind
  cases s.locate false p with
  | error fault => simp
  | ok l =>
      have hone : (∀ k target, (.ok l : Except AccessFault Location) = .ok k →
          s.entry? k ≠ some (.link target)) ↔ ∀ target, s.entry? l ≠ some (.link target) := by
        refine ⟨fun h target => h l target rfl, fun h k target hk => ?_⟩
        obtain rfl := Except.ok.inj hk
        exact h target
      rw [hone]
      cases he : s.entry? l with
      | none => simp [he]
      | some e => cases e <;> simp [he, Entry.kind]

/-- The units that a run over the root of some settings finds.  It may fail to look for any. -/
def unitsFound (s : Store) (c : Settings) : List SourceUnit :=
  match (s.run (discover c)).1 with
  | .ok d => d.units
  | .error _ => []

theorem run_convertTree_of_error {f : DiscoveryFault} (h : s.run (discover c) = (.error f, s)) :
    s.run (convertTree c) = (.error f, s) := by
  unfold convertTree
  rw [run_bind, h]
  rfl

theorem aimsAt_ofNames (hs : s.WellFormed) (hroot : s.locate true c.root = .ok R)
    {names : List Text} (h : s.IsModule c R names)
    (hnoLink : ∀ l target, s.locate false (ofNames c.root names).scratchPath = .ok l →
      s.entry? l ≠ some (.link target)) :
    (ofNames c.root names).AimsAt s (siteAt R names) := by
  have hplace : ∀ x ∈ suffixes, ∀ l,
      s.locate false ((ofNames c.root names).stem.withSuffix x) = .ok l →
      l = (siteAt R names).file x := by
    intro x hx l hl
    rw [locate_ofNames hs hroot h hx (by simp)] at hl
    exact eq_of_leaf hl
  refine ⟨hplace statementSuffix (by decide), fun l hl => ?_, hnoLink⟩
  rw [scratchPath_eq] at hl
  exact hplace scratchEnd (by decide) l hl

/-- Whatever links stand below the root, if none of them has the name of a scratch file, a run leaves
every file as it was but for statements and scratch files, and every statement that it gives is a
file at its place.  A path on whose way a link has been replaced may lead nowhere afterwards. -/
theorem convertTree_among_links (s : Store) (c : Settings) (hs : s.WellFormed)
    (hnoLink : ∀ u ∈ s.unitsFound c, s.ownKind u.scratchPath ≠ .ok .other) :
    ∃ t, (s.run (convertTree c)).2 = t ∧
      (∀ l bytes, s.entry? l = some (.file bytes) →
        (∀ u ∈ s.unitsFound c, s.locate false u.statementPath ≠ .ok l ∧
          s.locate false u.scratchPath ≠ .ok l) →
        t.entry? l = some (.file bytes)) ∧
      ∀ r, (s.run (convertTree c)).1 = .ok r → ∀ p ∈ r.summary.converted,
        (∃ u ∈ s.unitsFound c, p = u.statementPath) ∧
        ∃ l bytes, s.locate false p = .ok l ∧ t.entry? l = some (.file bytes) ∧
          ∀ k, t.locate false p = .ok k → k = l := by
  refine ⟨_, rfl, ?_⟩
  by_cases hroot : s.kind? c.root = some .directory
  · rcases kind?_eq_directory_iff.1 hroot with ⟨R, hlocate, hdir⟩
    have hfound := run_discover hs hlocate hdir
    have hunits : s.unitsFound c = (s.discoveryIn c R).units := by simp [unitsFound, hfound]
    rw [hunits] at hnoLink ⊢
    have haims : ∀ u ∈ (s.discoveryIn c R).units, ∃ σ, u.AimsAt s σ := by
      intro u hu
      have hfree := ownKind_ne_other_iff.1 (hnoLink u hu)
      rcases List.mem_map.1 hu with ⟨names, hnames, rfl⟩
      exact ⟨_, aimsAt_ofNames hs hlocate ((mem_modulesIn hs).1 hnames) hfree⟩
    rcases touches_convertAll haims c.drop with ⟨htouches, hattempts⟩
    unfold convertTree
    simp only [run_bind, hfound, run_pure]
    refine ⟨fun l bytes hfile hl => ?_, fun r hr p hp => ?_⟩
    · rw [htouches.rest l hl, hfile]
    · obtain rfl := Except.ok.inj hr
      rcases Summary.mem_converted.1 hp with ⟨a, ha, hok⟩
      rcases hattempts a ha with ⟨hmem, hsucceeded⟩
      rcases hsucceeded p hok with ⟨hpath, l, hl, bytes, hfile⟩
      refine ⟨⟨a.unit, hmem, hpath⟩, l, bytes, hl, hfile, fun k hk => ?_⟩
      exact Except.ok.inj ((htouches.decays.locate hk).symm.trans hl)
  · have hfault := run_discover_of_not_directory hroot
    rw [run_convertTree_of_error hfault]
    refine ⟨fun l bytes hfile _ => hfile, fun r hr => ?_⟩
    cases hr

/-- The sample with a link in the place of a statement. -/
def linkedStatement : Store :=
  (linkedSample.insert ["d", "a.sql"] (.link "kept.txt")).insert ["d", "kept.txt"] (.file [75])

theorem convertTree_among_links_linkedStatement :
    linkedStatement.WellFormed ∧
      (∀ u ∈ linkedStatement.unitsFound sampleSettings,
        linkedStatement.ownKind u.scratchPath ≠ .ok .other) ∧
      ∃ t, (linkedStatement.run (convertTree sampleSettings)).2 = t ∧
        t.entry? ["d", "kept.txt"] = some (.file [75]) ∧
        ∃ bytes, t.entry? ["d", "a.sql"] = some (.file bytes) := by
  have hs : linkedStatement.WellFormed := by decide +kernel
  have hnoLink : ∀ u ∈ linkedStatement.unitsFound sampleSettings,
      linkedStatement.ownKind u.scratchPath ≠ .ok .other := by decide +kernel
  obtain ⟨t, ht, hkept, hconverted⟩ :=
    convertTree_among_links linkedStatement sampleSettings hs hnoLink
  have hanswer : (linkedStatement.run (convertTree sampleSettings)).1.map (·.summary.converted) =
      .ok ["/r/./x.js/../a.sql"] := by decide +kernel
  refine ⟨hs, hnoLink, t, ht,
    hkept ["d", "kept.txt"] [75] (by decide +kernel) (by decide +kernel), ?_⟩
  cases hr : (linkedStatement.run (convertTree sampleSettings)).1 with
  | error f =>
      rw [hr] at hanswer
      cases hanswer
  | ok r =>
      rw [hr] at hanswer
      have hpaths : r.summary.converted = ["/r/./x.js/../a.sql"] := Except.ok.inj hanswer
      obtain ⟨-, l, bytes, hl, hfile, -⟩ := hconverted r hr "/r/./x.js/../a.sql" (by simp [hpaths])
      have hplace : linkedStatement.locate false "/r/./x.js/../a.sql" = .ok ["d", "a.sql"] := by
        decide +kernel
      obtain rfl : l = ["d", "a.sql"] := Except.ok.inj (hl.symm.trans hplace)
      exact ⟨bytes, hfile⟩

/-! ## Links in the place of scratch files -/

/-- A link with the name of a scratch file is written through, and becomes the statement. -/
theorem run_writeWhole_link {m : Location} {target : Path}
    (hl : s.locate false (p.withSuffix scratchSuffix) = .ok l)
    (hlink : s.entry? l = some (.link target))
    (hk : s.locate true (p.withSuffix scratchSuffix) = .ok k) (hroom : s.HasRoomForFile k)
    (hm : s.locate false p = .ok m) (hfree : s.entry? m ≠ some .directory) (hkm : k ≠ m)
    (hlm : l ≠ m) (text : Text) :
    ∃ t, s.run (writeWhole p text) = (.ok (), t) ∧
      t.entry? k = some (.file (Utf8.encode text)) ∧ t.entry? m = some (.link target) := by
  have hnil : ∀ {j : Location}, s.entry? j ≠ some .directory → j ≠ [] := by
    rintro j hj rfl
    exact hj (entry?_nil s)
  have hdir : s.entry? k ≠ some .directory := fun h => absurd (hroom _ h) (by decide)
  have hkl : k ≠ l := by
    rintro rfl
    exact absurd (hroom _ hlink) (by simp [Entry.isFile])
  have hk' : k ≠ [] := hnil hdir
  have hl' : l ≠ [] := hnil (by simp [hlink])
  have htree := sameTree_insert_file hroom hk' (Utf8.encode text)
  have hwrite : s.write (p.withSuffix scratchSuffix) text =
      .ok (s.insert k (.file (Utf8.encode text))) := by
    unfold write writeBytes
    simp only [hk, if_neg hdir]
  -- The written file is behind the link, so that the link itself is what is moved.
  have hold := (locate_of_sameTree htree (by rw [hl]; exact settled_ok l)).trans hl
  have hnew := (locate_of_sameTree htree (by rw [hm]; exact settled_ok m)).trans hm
  have hmoved : Store.rename (s.insert k (.file (Utf8.encode text))) (p.withSuffix scratchSuffix) p =
      .ok (((s.insert k (.file (Utf8.encode text))).erase l).insert m (.link target)) := by
    unfold rename
    have hlink' := htree.link_iff.1 hlink
    have hfree' := fun h => hfree (htree.directory_iff.2 h)
    simp only [hold, hnew, hlink', if_neg hfree']
  refine ⟨_, run_writeWhole_done rfl hwrite hmoved, ?_, ?_⟩
  · rw [entry?_insert _ (hnil hfree), if_neg hkm, entry?_erase _ hl', if_neg hkl,
      entry?_insert _ hk', if_pos rfl]
  · rw [entry?_insert _ (hnil hfree), if_pos rfl]

/-- The sample with a link in the place of a scratch file. -/
def linkedScratch : Store :=
  (linkedSample.insert ["d", "a.sql.tmp"] (.link "kept.txt")).insert ["d", "kept.txt"] (.file [75])

/-- A file that belongs to no unit is overwritten, and the statement is a link to it. -/
theorem convertTree_writes_through_linkedScratch :
    linkedScratch.WellFormed ∧
      linkedScratch.entry? ["d", "kept.txt"] = some (.file [75]) ∧
      (∀ u ∈ linkedScratch.unitsFound sampleSettings,
        linkedScratch.locate false u.statementPath ≠ .ok ["d", "kept.txt"] ∧
          linkedScratch.locate false u.scratchPath ≠ .ok ["d", "kept.txt"]) ∧
      (linkedScratch.run (convertTree sampleSettings)).1.map (·.summary.converted) =
        .ok ["/r/./x.js/../a.sql"] ∧
      Store.entry? (linkedScratch.run (convertTree sampleSettings)).2 ["d", "kept.txt"] ≠
        some (.file [75]) ∧
      Store.entry? (linkedScratch.run (convertTree sampleSettings)).2 ["d", "a.sql"] =
        some (.link "kept.txt") := by
  decide +kernel

end Store
end ProcedureGen
