import ProcedureGen.Proofs.Script.Function

/-!
# How a declaration is read

The declaration of a source is its first function without a body, and it needs a result type.

* `Signature.Bodiless`, `Signature.IsFirst`: functions without a body, and the first of a module;
* `Signature.leads_of_declaration?`: the tokens of the declaration stand in the source;
* `Signature.read_eq_ok_iff`: a signature is read if a source declares it;
* `Signature.read_eq_error_iff`: else the failure is the first thing that is wrong.
-/

namespace ProcedureGen
namespace Signature

open Script

variable {path source : Text} {m : Module} {f : Tree} {sig : Signature} {e : Failure}

/-! ## The declaration -/

/-- The function of an item, if it has no body. -/
def bodiless? (item : Tree) : Option Tree :=
  match item.function? with
  | some f => if (f.child? .body).isNone then some f else none
  | none => none

/-- An item with a function that has no body. -/
def Bodiless (item f : Tree) : Prop := item.function? = some f ∧ f.child? .body = none

theorem bodiless?_eq_some_iff {item : Tree} : bodiless? item = some f ↔ Bodiless item f := by
  unfold bodiless? Bodiless
  cases item.function? with
  | none => simp
  | some g =>
      simp only [Option.isNone_iff_eq_none, Option.ite_none_right_eq_some, Option.some.injEq]
      constructor
      · rintro ⟨hbody, rfl⟩
        exact ⟨rfl, hbody⟩
      · rintro ⟨rfl, hbody⟩
        exact ⟨hbody, rfl⟩

theorem bodiless?_eq_none_iff {item : Tree} : bodiless? item = none ↔ ∀ f, ¬ Bodiless item f := by
  simp only [Option.eq_none_iff_forall_ne_some, ne_eq, bodiless?_eq_some_iff]

/-- The first function without a body among the items of a module. -/
def IsFirst (m : Module) (f : Tree) : Prop :=
  ∃ before item after, m.items = before ++ item :: after ∧ Bodiless item f ∧
    ∀ other ∈ before, ∀ g, ¬ Bodiless other g

theorem declaration?_eq_some_iff : declaration? m = some f ↔ IsFirst m f := by
  have hfirst : declaration? m = m.items.findSome? bodiless? := rfl
  simp only [hfirst, IsFirst, List.findSome?_eq_some_iff, bodiless?_eq_some_iff,
    bodiless?_eq_none_iff]

theorem declaration?_eq_none_iff : declaration? m = none ↔
    ∀ item ∈ m.items, ∀ g, ¬ Bodiless item g := by
  have hfirst : declaration? m = m.items.findSome? bodiless? := rfl
  simp only [hfirst, List.findSome?_eq_none_iff, bodiless?_eq_none_iff]

/-- The declaration is a part of the items of its module. -/
theorem exists_item_of_declaration? (h : declaration? m = some f) :
    ∃ item ∈ m.items, item.function? = some f := by
  rcases declaration?_eq_some_iff.1 h with ⟨before, item, after, hitems, ⟨hfunction, -⟩, -⟩
  exact ⟨item, by simp [hitems], hfunction⟩

/-- The tokens of the declaration have been read off the source. -/
theorem leads_of_declaration? {d : Dialect} {source : Text} (hm : Module.parse? d source = some m)
    (hf : declaration? m = some f) : ∃ goals x y, Leads goals x f.tokens y := by
  rcases exists_item_of_declaration? hf with ⟨item, hitem, hfunction⟩
  rcases Module.exists_part_of_function? hm hitem hfunction with
    ⟨before, code, items, after, -, ⟨goals, hleads⟩, -, hpart⟩
  exact hpart.leads hleads

/-! ## Reading -/

theorem ofDeclaration?_eq_none_iff :
    ofDeclaration? f = none ↔ f.child? .returnType = none := by
  unfold ofDeclaration?
  cases f.child? .returnType <;> simp

/-- A source declares a function with a result type, which gives the signature. -/
def Declares (source : Text) (sig : Signature) : Prop :=
  ∃ m f, Module.parse? .ambient source = some m ∧ IsFirst m f ∧
    (f.child? .returnType).isSome = true ∧ ofDeclaration? f = some sig

/-- What can be wrong with a declaration source, in the order in which it counts. -/
inductive DeclarationFault (path source : Text) : Failure → Prop where
  | unparsable (h : Module.parse? .ambient source = none) :
      DeclarationFault path source (.unparsable path)
  | noDeclaration {m : Module} (hm : Module.parse? .ambient source = some m)
      (h : ∀ item ∈ m.items, ∀ f, ¬ Bodiless item f) :
      DeclarationFault path source (.noDeclaration path)
  | noReturnType {m : Module} {f : Tree} (hm : Module.parse? .ambient source = some m)
      (hf : IsFirst m f) (h : f.child? .returnType = none) :
      DeclarationFault path source (.noReturnType path f.functionName)

theorem read_eq_ok_iff (hpath : ".d.ts".toList <:+ path) :
    read path source = .ok sig ↔ Declares source sig := by
  unfold read Declares
  rw [Dialect.ofPath_declarations hpath]
  constructor
  · intro h
    split at h
    · cases h
    next m hm =>
      split at h
      · cases h
      next f hf =>
        split at h
        · cases h
        next sig' hsig =>
          obtain rfl := Except.ok.inj h
          have hreturn : f.child? .returnType ≠ none := by
            rw [Ne, ← ofDeclaration?_eq_none_iff, hsig]
            simp
          exact ⟨m, f, hm, declaration?_eq_some_iff.1 hf, Option.isSome_iff_ne_none.2 hreturn, hsig⟩
  · rintro ⟨m, f, hm, hfirst, -, hsig⟩
    simp only [hm, declaration?_eq_some_iff.2 hfirst, hsig]

theorem read_eq_error_iff (hpath : ".d.ts".toList <:+ path) :
    read path source = .error e ↔ DeclarationFault path source e := by
  unfold read
  rw [Dialect.ofPath_declarations hpath]
  constructor
  · intro h
    split at h
    next hm =>
      obtain rfl := Except.error.inj h
      exact .unparsable hm
    next m hm =>
      split at h
      next hf =>
        obtain rfl := Except.error.inj h
        exact .noDeclaration hm (declaration?_eq_none_iff.1 hf)
      next f hf =>
        split at h
        next hsig =>
          obtain rfl := Except.error.inj h
          exact .noReturnType hm (declaration?_eq_some_iff.1 hf) (ofDeclaration?_eq_none_iff.1 hsig)
        · cases h
  · intro h
    cases h with
    | unparsable hm => simp only [hm]
    | noDeclaration hm hnone => simp only [hm, declaration?_eq_none_iff.2 hnone]
    | noReturnType hm hf hreturn =>
        simp only [hm, declaration?_eq_some_iff.2 hf, ofDeclaration?_eq_none_iff.2 hreturn]

end Signature
end ProcedureGen
