import ProcedureGen.Proofs.Store.Locate

/-!
# Runs on a store

`Store.run` gives what an action answers on a store and the store that it leaves.  The lemmas say
what the operations of a file system do there: the reading ones change nothing.
-/

namespace ProcedureGen
namespace Store

variable {α β : Type}

/-- What an action answers on a store, and the store that it leaves. -/
def run (s : Store) (f : StateM Store α) : α × Store := f s

@[simp] theorem run_pure (s : Store) (a : α) : s.run (pure a) = (a, s) := rfl

@[simp] theorem run_bind (s : Store) (f : StateM Store α) (g : α → StateM Store β) :
    s.run (f >>= g) = (s.run f).2.run (g (s.run f).1) := rfl

@[simp] theorem run_kind? (s : Store) (p : Path) :
    s.run (FileSystem.kind? p) = (s.kind? p, s) := rfl

@[simp] theorem run_ownKind (s : Store) (p : Path) :
    s.run (FileSystem.ownKind p) = (s.ownKind p, s) := rfl

@[simp] theorem run_read (s : Store) (p : Path) :
    s.run (FileSystem.read p) = (s.read p, s) := rfl

@[simp] theorem run_names (s : Store) (p : Path) :
    s.run (FileSystem.names p) = (s.names p, s) := rfl

/-- A change that succeeds leaves the changed store, any other leaves all as it is. -/
theorem run_change (s : Store) (f : Store → Except AccessFault Store) :
    s.run (change f) = match f s with
      | .ok t => (.ok (), t)
      | .error fault => (.error fault, s) := by
  unfold run change
  cases f s <;> rfl

theorem run_write (s : Store) (p : Path) (t : Text) :
    s.run (FileSystem.write p t) = s.run (change fun s => s.write p t) := rfl

theorem run_rename (s : Store) (old new : Path) :
    s.run (FileSystem.rename old new) = s.run (change fun s => s.rename old new) := rfl

theorem run_remove (s : Store) (p : Path) :
    s.run (FileSystem.remove p) = s.run (change fun s => s.remove p) := rfl

end Store
end ProcedureGen
