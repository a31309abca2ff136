import ProcedureGen.Proofs.Body.Block
import ProcedureGen.Proofs.Script.Function

/-!
# How a body is read

A body is that of the one function that a module exports.

* `FunctionBody.exports_eq_singleton`: the one function stands in the one item marked as exported;
* `FunctionBody.read_eq_ok_iff`: a body is read if a source exports it;
* `FunctionBody.read_eq_error_iff`: else the failure is the first thing that is wrong.
-/

namespace ProcedureGen
namespace FunctionBody

open Script

variable {path source : Text} {m : Module} {f : Tree} {b : FunctionBody} {e : Failure}

/-! ## Exported functions -/

/-- How many functions a module exports at its top. -/
def exportCount (m : Module) : Nat := m.items.countP (Tree.isNode .exportedFunction)

/-- Every item that is marked as an exported function gives one. -/
theorem length_exports (hm : Module.parse? .plain source = some m) :
    (exports m).length = exportCount m := by
  rw [exports, exportCount, List.length_filterMap_eq_countP]
  refine List.countP_congr fun item hitem => ?_
  cases hnode : item.isNode .exportedFunction with
  | false => simp
  | true => simp [Module.function?_of_export hm hitem hnode]

/-- A module with one exported function has one item that is marked as such. -/
theorem exports_eq_singleton (hm : Module.parse? .plain source = some m) (h : exports m = [f]) :
    ∃ item, m.items.filter (Tree.isNode .exportedFunction) = [item] ∧
      item.function? = some f := by
  have hcount : (m.items.filter (Tree.isNode .exportedFunction)).length = 1 := by
    rw [← List.countP_eq_length_filter, ← exportCount, ← length_exports hm, h]
    rfl
  rcases List.length_eq_one_iff.1 hcount with ⟨item, hsingle⟩
  have hitem : item ∈ m.items.filter (Tree.isNode .exportedFunction) := by simp [hsingle]
  rcases List.mem_filter.1 hitem with ⟨hmem, hnode⟩
  rcases Option.isSome_iff_exists.1 (Module.function?_of_export hm hmem hnode) with ⟨g, hg⟩
  rw [exports, ← List.filterMap_filter, hsingle, List.filterMap_cons_some hg] at h
  exact ⟨item, hsingle, hg.trans (congrArg some (List.cons.inj h).1)⟩

/-- In a plain script an exported function has a body. -/
theorem exists_block (hm : Module.parse? .plain source = some m) (hf : exports m = [f]) :
    ∃ item block, m.items.filter (Tree.isNode .exportedFunction) = [item] ∧
      item.function? = some f ∧ f.child? .body = some block := by
  rcases exports_eq_singleton hm hf with ⟨item, hsingle, hfunction⟩
  have hitem : item ∈ m.items :=
    List.mem_of_mem_filter (p := Tree.isNode .exportedFunction) (by simp [hsingle])
  rcases Module.isFunction_of_mem_items hm hitem hfunction with ⟨name, rest, hread⟩
  rcases hread.exists_body with ⟨block, hblock⟩
  exact ⟨item, block, hsingle, hfunction, hblock⟩

/-! ## Reading -/

/-- A source exports one function, whose body it is. -/
def Exports (source : Text) (b : FunctionBody) : Prop :=
  ∃ m item f block, Module.parse? .plain source = some m ∧
    m.items.filter (Tree.isNode .exportedFunction) = [item] ∧ item.function? = some f ∧
    f.child? .body = some block ∧
    b = ⟨f.functionName, blockLines block.text, .ofLines (Text.lines source)⟩

/-- What can be wrong with a module source. -/
inductive ModuleFault (path source : Text) : Failure → Prop where
  | unparsable (h : Module.parse? .plain source = none) :
      ModuleFault path source (.unparsable path)
  | noExport {m : Module} (hm : Module.parse? .plain source = some m) (h : exportCount m = 0) :
      ModuleFault path source (.noExport path)
  | severalExports {m : Module} (hm : Module.parse? .plain source = some m)
      (h : 2 ≤ exportCount m) : ModuleFault path source (.severalExports path (exportCount m))

theorem read_eq_ok_iff (hpath : ".js".toList <:+ path) :
    FunctionBody.read path source = .ok b ↔ Exports source b := by
  rw [read_eq_ok_iff_exists, Dialect.ofPath_script hpath]
  constructor
  · rintro ⟨m, f, block, hm, hf, hblock, rfl⟩
    rcases exports_eq_singleton hm hf with ⟨item, hsingle, hfunction⟩
    exact ⟨m, item, f, block, hm, hsingle, hfunction, hblock, rfl⟩
  · rintro ⟨m, item, f, block, hm, hsingle, hfunction, hblock, rfl⟩
    have hexports : exports m = [f] := by
      rw [exports, ← List.filterMap_filter, hsingle, List.filterMap_cons_some hfunction]
      rfl
    exact ⟨m, f, block, hm, hexports, hblock, rfl⟩

theorem read_eq_error_iff (hpath : ".js".toList <:+ path) :
    FunctionBody.read path source = .error e ↔ ModuleFault path source e := by
  unfold FunctionBody.read
  rw [Dialect.ofPath_script hpath]
  constructor
  · intro h
    split at h
    next hm =>
      obtain rfl := Except.error.inj h
      exact .unparsable hm
    next m hm =>
      have hcount := length_exports hm
      split at h
      next hnone =>
        obtain rfl := Except.error.inj h
        exact .noExport hm (by simpa [hnone] using hcount.symm)
      next f hf =>
        rcases exists_block hm hf with ⟨_, block, -, -, hblock⟩
        simp [hblock] at h
      next hnil hone =>
        obtain rfl := Except.error.inj h
        rw [hcount]
        refine .severalExports hm (hcount ▸ ?_)
        cases hexports : exports m with
        | nil => exact absurd hexports hnil
        | cons f more =>
            cases more with
            | nil => exact absurd hexports (hone f)
            | cons g more => simp
  · intro h
    cases h with
    | unparsable hm => simp only [hm]
    | noExport hm hcount =>
        have hnone := List.eq_nil_of_length_eq_zero ((length_exports hm).trans hcount)
        simp only [hm, hnone]
    | @severalExports m hm hcount =>
        have hlength := length_exports hm
        cases hexports : exports m with
        | nil => simp [hexports] at hlength; omega
        | cons f more =>
            cases more with
            | nil => simp [hexports] at hlength; omega
            | cons g more => simp only [hm, hexports, ← hlength]

end FunctionBody
end ProcedureGen
