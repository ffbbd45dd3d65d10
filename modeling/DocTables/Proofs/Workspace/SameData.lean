import DocTables.Proofs.Store.SameData
import DocTables.Proofs.Workspace.Kept

/-! Workspaces whose stores hold the same data. Reading from the stores leaves such a workspace. -/
namespace DocTables.Workspace
open Effect
variable {α : Type} {w₀ w w' : Workspace}

/-- The same but for notes of calls and of reads in the stores. -/
structure SameData (w w' : Workspace) : Prop where
  memory : ∀ name, (w.memory name).SameData (w'.memory name)
  contexts : w'.contexts = w.contexts
  relations : w'.relations = w.relations
  handles : w'.handles = w.handles
  tables : w'.tables = w.tables

namespace SameData

theorem refl (w : Workspace) : SameData w w := ⟨fun _ => .refl _, rfl, rfl, rfl, rfl⟩

theorem setMemory (h : SameData w₀ w) {name : String} {m : Memory}
    (hm : (w.memory name).SameData m) : SameData w₀ (w.setMemory name m) := by
  refine ⟨fun other => ?_, h.contexts, h.relations, h.handles, h.tables⟩
  by_cases hother : other = name
  · rw [hother, memory_setMemory]
    exact (h.memory name).trans hm
  · rw [memory_setMemory_of_ne hother]
    exact h.memory other

theorem onStore (h : SameData w₀ w) {name : String} {act : StoreM Memory α}
    (hact : (w.memory name).SameData (act (w.memory name)).2) :
    SameData w₀ (onStore name act w).2 := by
  rw [onStore_apply]
  exact h.setMemory hact

end SameData

theorem keptByReads_sameData (w₀ : Workspace) : KeptByReads (SameData w₀) where
  query _ source q := fun _ h => h.onStore (.query _ source q)
  startRead _ id := fun _ h => h.onStore (.startRead _ id)
  finishRead _ id := fun _ h => h.onStore (.finishRead _ id)

end DocTables.Workspace
