/-
This file is about the record under one pair of a key and an owner, and what may happen
to the store so that it stays.
-/

import Fleece.Names
import Fleece.Refinement

namespace Fleece

namespace FleeceStateManager

/-- From a packed manager to one of the same node with the same record under a pair. -/
structure Untouched (pair : UInt32 × UInt64) (manager next : FleeceStateManager) : Prop where
  packed : next.PackedInvariant
  node : next.nodeId = manager.nodeId
  view : next.view pair = manager.view pair

variable {pair : UInt32 × UInt64} {manager : FleeceStateManager}

theorem Untouched.refl (packed : manager.PackedInvariant) : manager.Untouched pair manager :=
  ⟨packed, rfl, rfl⟩

theorem Untouched.trans {next last : FleeceStateManager} (left : manager.Untouched pair next)
    (right : next.Untouched pair last) : manager.Untouched pair last :=
  ⟨right.packed, right.node.trans left.node, right.view.trans left.view⟩

/-- What the embedding and the scripts may do to the store so that the record of a pair stays. -/
def LeavesAlone (nodeId : UInt64) (pair : UInt32 × UInt64) (operation : Operation) : Prop :=
  operation ≠ .compact ∧ pair ∉ operation.touched nodeId

theorem Untouched.operation (packed : manager.PackedInvariant) {operation : Operation}
    (leaves : LeavesAlone manager.nodeId pair operation) :
    manager.Untouched pair (operation.next manager) :=
  ⟨packed.operation leaves.1, operation_nodeId packed.store operation,
    packed.view_next leaves.1 leaves.2⟩

theorem Untouched.after (packed : manager.PackedInvariant) {operations : List Operation}
    (leaves : ∀ operation ∈ operations, LeavesAlone manager.nodeId pair operation) :
    manager.Untouched pair (manager.after operations) := by
  induction operations generalizing manager with
  | nil => exact .refl packed
  | cons operation rest inductionHypothesis =>
    have first := Untouched.operation packed (leaves operation List.mem_cons_self)
    refine first.trans (inductionHypothesis first.packed fun other member => ?_)
    rw [first.node]
    exact leaves other (List.mem_cons_of_mem _ member)

/-- What is read under a name of some owner is left alone with its record. -/
theorem Untouched.getNamed {next : FleeceStateManager} {owner : UInt64} {name : CString}
    (kept : manager.Untouched (hashName name, owner) next) :
    next.getNamed owner name = manager.getNamed owner name := by
  rw [getNamed_eq, getNamed_eq, liveView, liveView, kept.view]

theorem Untouched.getNamed_own {next : FleeceStateManager} {name : CString}
    (kept : manager.Untouched (hashName name, manager.nodeId) next) :
    next.getNamed next.nodeId name = manager.getNamed manager.nodeId name := by
  rw [kept.node, kept.getNamed]

end FleeceStateManager

end Fleece
