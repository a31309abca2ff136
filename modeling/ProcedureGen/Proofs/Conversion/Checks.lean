import ProcedureGen.Proofs.Body.Reading
import ProcedureGen.Proofs.Conversion.Unit
import ProcedureGen.Proofs.Signature.Layout
import ProcedureGen.Proofs.Text.Utf8

/-!
# Checks of a unit

A definition is built from a unit if nothing is wrong with it, and else the first thing that is
wrong says why there is none: the schema, the declaration, the module, the names.

* `IsPlainName`: the names that a schema may have;
* `Store.Reads`, `Store.FileFault`: what is read from a file, or what is wrong with it;
* `Store.FirstFault`: the first thing that is wrong with a unit;
* `Store.build_checks`: a definition is built if there is none, and the failure is that one.
-/

namespace ProcedureGen

open Script SourceUnit

/-! ## Schemas -/

def IsLetter (c : Char) : Prop := 'A' ≤ c ∧ c ≤ 'Z' ∨ 'a' ≤ c ∧ c ≤ 'z'

/-- A name that needs no quotes: a letter or `_`, and then letters, digits, `_` and `$` to its
end. -/
def IsPlainName (t : Text) : Prop :=
  ∃ c rest, t = c :: rest ∧ (IsLetter c ∨ c = '_') ∧
    ∀ d ∈ rest, IsLetter d ∨ '0' ≤ d ∧ d ≤ '9' ∨ d = '_' ∨ d = '$'

theorem isAlpha_iff {c : Char} : c.isAlpha = true ↔ IsLetter c := by
  have hupper : c.isUpper = decide ('A' ≤ c ∧ c ≤ 'Z') := rfl
  have hlower : c.isLower = (decide ('a' ≤ c) && decide (c ≤ 'z')) := rfl
  have halpha : c.isAlpha = (c.isUpper || c.isLower) := rfl
  simp [halpha, hupper, hlower, IsLetter]

theorem isAlphanum_iff {c : Char} : c.isAlphanum = true ↔ IsLetter c ∨ '0' ≤ c ∧ c ≤ '9' := by
  have hdigit : c.isDigit = (decide ('0' ≤ c) && decide (c ≤ '9')) := rfl
  have halphanum : c.isAlphanum = (c.isAlpha || c.isDigit) := rfl
  rw [halphanum, Bool.or_eq_true, isAlpha_iff, hdigit]
  simp

theorem isSchemaName_iff {t : Text} : isSchemaName t = true ↔ IsPlainName t := by
  cases t with
  | nil => simp [isSchemaName, IsPlainName]
  | cons c rest =>
      simp [isSchemaName, IsPlainName, isAlpha_iff, isAlphanum_iff, or_assoc]

/-- A line end behind a name does not belong to it. -/
theorem not_isPlainName_newline (t : Text) : ¬ IsPlainName (t ++ ['\n']) := by
  rintro ⟨c, rest, heq, hc, hrest⟩
  have hmem : '\n' ∈ c :: rest := by simp [← heq]
  rcases List.mem_cons.1 hmem with rfl | hmem
  · revert hc
    simp only [IsLetter]
    decide
  · have hend := hrest '\n' hmem
    revert hend
    simp only [IsLetter]
    decide

/-! ## Files -/

namespace Store

variable {α : Type} {s : Store} {u : SourceUnit} {p : Path} {e : Failure}

/-- A path leads to a file with the bytes of a text that is good for something. -/
def Reads (s : Store) (p : Path) (good : Text → Prop) : Prop :=
  ∃ source l, s.locate true p = .ok l ∧ s.entry? l = some (.file (Utf8.encode source)) ∧
    good source

/-- What is wrong with a file: it cannot be read as a text, or something is wrong with the text. -/
inductive FileFault (s : Store) (p : Path) (wrong : Text → Failure → Prop) : Failure → Prop where
  | unreadable {fault : AccessFault} (h : s.read p = .error fault) :
      FileFault s p wrong (.access p fault)
  | wrong {source : Text} {e : Failure} (h : s.read p = .ok source) (he : wrong source e) :
      FileFault s p wrong e

/-- The text of a file is the one whose bytes it holds. -/
theorem read_eq_ok_iff {source : Text} : s.read p = .ok source ↔
    ∃ l, s.locate true p = .ok l ∧ s.entry? l = some (.file (Utf8.encode source)) := by
  unfold read readBytes
  cases s.locate true p with
  | error fault => simp
  | ok l =>
      rcases hentry : s.entry? l with _ | bytes | _ | target
      case some.file =>
        have hdecode : Utf8.decode? bytes = some source ↔ bytes = Utf8.encode source :=
          Utf8.decode?_eq_some_iff
        cases htext : Utf8.decode? bytes <;> simp_all
      all_goals simp [hentry]

theorem readFor_eq_ok_iff {f : Text → Except Failure α} {a : α} :
    s.readFor p f = .ok a ↔ s.Reads p fun source => f source = .ok a := by
  have hread : s.readFor p f = .ok a ↔ ∃ source, s.read p = .ok source ∧ f source = .ok a := by
    unfold readFor
    cases s.read p <;> simp
  simp only [hread, Reads, read_eq_ok_iff]
  constructor
  · rintro ⟨source, ⟨l, hlocate, hentry⟩, hf⟩
    exact ⟨source, l, hlocate, hentry, hf⟩
  · rintro ⟨source, l, hlocate, hentry, hf⟩
    exact ⟨source, ⟨l, hlocate, hentry⟩, hf⟩

theorem readFor_eq_error_iff {f : Text → Except Failure α} :
    s.readFor p f = .error e ↔ s.FileFault p (fun source e => f source = .error e) e := by
  unfold readFor
  constructor
  · intro h
    split at h
    next source hread => exact .wrong hread h
    next fault hread =>
      obtain rfl := Except.error.inj h
      exact .unreadable hread
  · intro h
    cases h with
    | unreadable hread => simp only [hread]
    | wrong hread he => simp only [hread, he]

/-! ## The first thing that is wrong -/

/-- Whether a unit has no schema or one that needs no quotes. -/
def HasSchema (u : SourceUnit) : Prop := u.schema = [] ∨ IsPlainName u.schema

def Declares (s : Store) (u : SourceUnit) (sig : Signature) : Prop :=
  s.Reads u.declarationPath fun source => Signature.Declares source sig

def Exports (s : Store) (u : SourceUnit) (b : FunctionBody) : Prop :=
  s.Reads u.modulePath fun source => FunctionBody.Exports source b

/-- The first thing that is wrong with a unit.  Each of them counts only if what comes before it is
right, whatever comes after it. -/
inductive FirstFault (s : Store) (u : SourceUnit) : Failure → Prop where
  | schema (h : ¬ HasSchema u) : FirstFault s u (.invalidSchema u.stem u.schema)
  | declaration {e : Failure} (hschema : HasSchema u)
      (h : s.FileFault u.declarationPath (Signature.DeclarationFault u.declarationPath) e) :
      FirstFault s u e
  | module {e : Failure} {sig : Signature} (hschema : HasSchema u) (hsig : s.Declares u sig)
      (h : s.FileFault u.modulePath (FunctionBody.ModuleFault u.modulePath) e) : FirstFault s u e
  | names {sig : Signature} {b : FunctionBody} (hschema : HasSchema u) (hsig : s.Declares u sig)
      (hbody : s.Exports u b) (h : sig.name ≠ b.name) :
      FirstFault s u (.nameMismatch u.stem sig.name b.name)

/-- A schema that ends in a line end is none. -/
theorem not_hasSchema_of_newline {t : Text} (h : u.schema = t ++ ['\n']) : ¬ HasSchema u := by
  rintro (hnone | hplain)
  · simp [h] at hnone
  · exact not_isPlainName_newline t (h ▸ hplain)

theorem hasSchema_iff : ¬ (u.schema ≠ [] ∧ (!isSchemaName u.schema) = true) ↔ HasSchema u := by
  rw [HasSchema, ← isSchemaName_iff]
  cases isSchemaName u.schema <;> simp

/-- The declaration of a unit is a declaration file, -/
theorem declarationPath_suffix (u : SourceUnit) : ".d.ts".toList <:+ u.declarationPath :=
  List.suffix_append u.stem _

/-- and its module is a compiled script. -/
theorem modulePath_suffix (u : SourceUnit) : ".js".toList <:+ u.modulePath :=
  List.suffix_append u.stem _

theorem declares_iff {sig : Signature} : s.Declares u sig ↔
    s.readFor u.declarationPath (Signature.read u.declarationPath) = .ok sig := by
  rw [readFor_eq_ok_iff]
  simp only [Declares, Signature.read_eq_ok_iff (declarationPath_suffix u)]

theorem declarationFault_iff :
    s.FileFault u.declarationPath (Signature.DeclarationFault u.declarationPath) e ↔
      s.readFor u.declarationPath (Signature.read u.declarationPath) = .error e := by
  rw [readFor_eq_error_iff]
  simp only [Signature.read_eq_error_iff (declarationPath_suffix u)]

theorem exports_iff {b : FunctionBody} : s.Exports u b ↔
    s.readFor u.modulePath (FunctionBody.read u.modulePath) = .ok b := by
  rw [readFor_eq_ok_iff]
  simp only [Exports, FunctionBody.read_eq_ok_iff (modulePath_suffix u)]

theorem moduleFault_iff :
    s.FileFault u.modulePath (FunctionBody.ModuleFault u.modulePath) e ↔
      s.readFor u.modulePath (FunctionBody.read u.modulePath) = .error e := by
  rw [readFor_eq_error_iff]
  simp only [FunctionBody.read_eq_error_iff (modulePath_suffix u)]

/-- With a schema that is right, the files are read one after the other. -/
theorem definition_of_hasSchema (h : HasSchema u) : s.definition u =
    match s.readFor u.declarationPath (Signature.read u.declarationPath) with
    | .error e => .error e
    | .ok sig => match s.readFor u.modulePath (FunctionBody.read u.modulePath) with
      | .error e => .error e
      | .ok b => Definition.ofParts u sig b :=
  if_neg (hasSchema_iff.2 h)

/-- The first thing that is wrong is the failure. -/
theorem FirstFault.definition (h : s.FirstFault u e) : s.definition u = .error e := by
  cases h with
  | schema h => exact if_pos (not_not.1 (mt hasSchema_iff.1 h))
  | declaration hschema h => rw [definition_of_hasSchema hschema, declarationFault_iff.1 h]
  | module hschema hsig h =>
      rw [definition_of_hasSchema hschema, declares_iff.1 hsig, moduleFault_iff.1 h]
  | names hschema hsig hbody h =>
      rw [definition_of_hasSchema hschema, declares_iff.1 hsig, exports_iff.1 hbody]
      exact if_neg h

/-- Without it there is a definition. -/
theorem definition_of_parts {sig : Signature} {b : FunctionBody} (hschema : HasSchema u)
    (hsig : s.Declares u sig) (hbody : s.Exports u b) (h : sig.name = b.name) :
    s.definition u = .ok ⟨u.schema, sig, b⟩ := by
  rw [definition_of_hasSchema hschema, declares_iff.1 hsig, exports_iff.1 hbody]
  exact if_pos h

/-- Something is wrong with a unit, or nothing is. -/
theorem firstFault_or_parts (s : Store) (u : SourceUnit) :
    (∃ e, s.FirstFault u e) ∨
      ∃ sig b, HasSchema u ∧ s.Declares u sig ∧ s.Exports u b ∧ sig.name = b.name := by
  by_cases hschema : HasSchema u
  · cases hsig : s.readFor u.declarationPath (Signature.read u.declarationPath) with
    | error e => exact .inl ⟨e, .declaration hschema (declarationFault_iff.2 hsig)⟩
    | ok sig =>
        replace hsig := declares_iff.2 hsig
        cases hbody : s.readFor u.modulePath (FunctionBody.read u.modulePath) with
        | error e => exact .inl ⟨e, .module hschema hsig (moduleFault_iff.2 hbody)⟩
        | ok b =>
            replace hbody := exports_iff.2 hbody
            by_cases hname : sig.name = b.name
            · exact .inr ⟨sig, b, hschema, hsig, hbody, hname⟩
            · exact .inl ⟨_, .names hschema hsig hbody hname⟩
  · exact .inl ⟨_, .schema hschema⟩

/-- A trigger is declared without parameters. -/
theorem Declares.params_of_isTrigger {sig : Signature} (h : s.Declares u sig)
    (htrigger : sig.isTrigger = true) : sig.params = [] := by
  rcases h with ⟨source, -, -, -, m, f, -, -, -, hsig⟩
  rw [Signature.ofDeclaration?_eq] at hsig
  rcases Option.map_eq_some_iff.1 hsig with ⟨rs, -, rfl⟩
  exact if_pos (eq_of_beq htrigger)

/-- A definition is built from a unit exactly when nothing is wrong with it, and else the failure is
the first thing that is wrong.  Nothing is changed.  The schema counts whatever the files are, and
the declaration counts whatever the module is.  A line end behind a schema is wrong, and a trigger
has no parameters. -/
theorem build_checks (s : Store) (u : SourceUnit) :
    (s.run (Definition.build u)).2 = s ∧
    (∀ d, (s.run (Definition.build u)).1 = .ok d ↔
      HasSchema u ∧ s.Declares u d.signature ∧ s.Exports u d.body ∧
        d.signature.name = d.body.name ∧ d.schema = u.schema) ∧
    (∀ e, (s.run (Definition.build u)).1 = .error e ↔ s.FirstFault u e) ∧
    (∀ t, u.schema = t ++ ['\n'] →
      (s.run (Definition.build u)).1 = .error (.invalidSchema u.stem u.schema)) ∧
    (∀ d, (s.run (Definition.build u)).1 = .ok d →
      d.signature.isTrigger = true → d.signature.params = []) ∧
    (∀ t : Store, ¬ HasSchema u → (t.run (Definition.build u)).1 = (s.run (Definition.build u)).1) ∧
    ∀ (t : Store) e,
      s.FileFault u.declarationPath (Signature.DeclarationFault u.declarationPath) e →
      t.read u.declarationPath = s.read u.declarationPath →
      (t.run (Definition.build u)).1 = (s.run (Definition.build u)).1 := by
  simp only [run_build]
  have hok : ∀ d, s.definition u = .ok d ↔
      HasSchema u ∧ s.Declares u d.signature ∧ s.Exports u d.body ∧
        d.signature.name = d.body.name ∧ d.schema = u.schema := by
    rintro ⟨schema, sig, b⟩
    constructor
    · intro h
      rcases firstFault_or_parts s u with ⟨e, hfault⟩ | ⟨sig', b', hschema, hsig, hbody, hname⟩
      · cases hfault.definition.symm.trans h
      · cases (definition_of_parts hschema hsig hbody hname).symm.trans h
        exact ⟨hschema, hsig, hbody, hname, rfl⟩
    · rintro ⟨hschema, hsig, hbody, hname, rfl⟩
      exact definition_of_parts hschema hsig hbody hname
  refine ⟨trivial, hok, fun e => ⟨fun h => ?_, FirstFault.definition⟩,
    fun t h => FirstFault.definition (.schema (not_hasSchema_of_newline h)),
    fun d h => ((hok d).1 h).2.1.params_of_isTrigger, fun t hschema => ?_, fun t e h hread => ?_⟩
  · rcases firstFault_or_parts s u with ⟨e', hfault⟩ | ⟨sig, b, hschema, hsig, hbody, hname⟩
    · cases hfault.definition.symm.trans h
      exact hfault
    · cases (definition_of_parts hschema hsig hbody hname).symm.trans h
  · rw [FirstFault.definition (.schema hschema), FirstFault.definition (.schema hschema)]
  · by_cases hschema : HasSchema u
    · have hfault : t.FileFault u.declarationPath
          (Signature.DeclarationFault u.declarationPath) e := by
        rw [declarationFault_iff, readFor_congr _ hread]
        exact declarationFault_iff.1 h
      rw [FirstFault.definition (.declaration hschema hfault),
        FirstFault.definition (.declaration hschema h)]
    · rw [FirstFault.definition (.schema hschema), FirstFault.definition (.schema hschema)]

/-- A unit of two files. -/
def pairSample (declaration module : Text) : Store := ⟨[(["d"], .directory),
  (["d", "f.d.ts"], .file (Utf8.encode declaration)), (["d", "f.js"], .file (Utf8.encode module))]⟩

def withoutReturnType : Store :=
  pairSample "declare function f(); declare function f(): text;" "export function g( \x7b"

def withParameter : Store :=
  pairSample "declare function f(row: text): trigger;"
    "export default function g() \x7b\x7d export function f(row) \x7b\x7d"

/-- With much that is wrong at once the first counts, and the second declaration is no help. -/
theorem build_checks_withoutReturnType :
    withoutReturnType.FirstFault ⟨"/d/f", "f", "a\n"⟩ (.invalidSchema "/d/f" "a\n") ∧
      withoutReturnType.FirstFault ⟨"/d/f", "f", "a"⟩ (.noReturnType "/d/f.d.ts" "f") ∧
      ∃ d, (withParameter.run (Definition.build ⟨"/d/f", "f", "a"⟩)).1 = .ok d ∧
        withParameter.Exports ⟨"/d/f", "f", "a"⟩ d.body ∧ d.signature.params = [] := by
  have hbuild : (withParameter.run (Definition.build ⟨"/d/f", "f", "a"⟩)).1 =
      .ok ⟨"a", ⟨"f", "", "trigger"⟩, ⟨"f", [], .ofLines []⟩⟩ := by decide +kernel
  obtain ⟨-, hok, -, -, htrigger, -⟩ := build_checks withParameter ⟨"/d/f", "f", "a"⟩
  exact ⟨((build_checks _ _).2.2.1 _).1 (by decide +kernel),
    ((build_checks _ _).2.2.1 _).1 (by decide +kernel),
    _, hbuild, ((hok _).1 hbuild).2.2.1, htrigger _ hbuild (by decide)⟩

end Store

end ProcedureGen
