/-
This file compares the two exporters of shared deltas. The bounded one finds its
records through a sorted array of slot indices and a mask, and its high-water mark
through a loop of its own. It still writes the header of the unbounded one, and the
records of the slots it takes in the order the unbounded one writes them. Where it
takes them all the two frames are one.
-/

import Fleece.RoundTrip

namespace Fleece

namespace FleeceStateManager

/-- The frame of `export_shared_delta` with its record array restricted to the slots of a mask. -/
def restrictedDelta (manager : FleeceStateManager) (since : UInt64)
    (kept : Fin fieldCapacity → Bool) : Blob :=
  let hw := maxTimestamp (manager.slots.filter fun f =>
    f.slotExists && f.nodeId == sharedOwnerId && f.isNamed)
  let carried := ((List.finRange fieldCapacity).filter fun i =>
    isExported sharedOwnerId since (manager.fields i) && kept i).map manager.fields
  .ofBuffer (gossipMagic ++
    writeHeader manager.nodeId sharedOwnerId hw (manager.computeStreamDigest sharedOwnerId)
      carried.length ++
    carried.flatMap (writeRecord true))

/-- Without a restriction it is the frame itself. -/
theorem restrictedDelta_all {manager : FleeceStateManager} {since : UInt64}
    {kept : Fin fieldCapacity → Bool}
    (all : ∀ i, isExported sharedOwnerId since (manager.fields i) = true → kept i = true) :
    manager.restrictedDelta since kept = manager.exportSharedDelta since := by
  have carried : ((List.finRange fieldCapacity).filter fun i =>
      isExported sharedOwnerId since (manager.fields i) && kept i).map manager.fields =
      manager.slots.filter (isExported sharedOwnerId since) := by
    have same : (fun i => isExported sharedOwnerId since (manager.fields i) && kept i) =
        isExported sharedOwnerId since ∘ manager.fields := by
      funext i
      cases exported : isExported sharedOwnerId since (manager.fields i) with
      | false => rw [Bool.false_and, Function.comp_apply, exported]
      | true => rw [Bool.true_and, Function.comp_apply, exported, all i exported]
    rw [same, slots, List.ofFn_eq_map, List.filter_map]
  unfold restrictedDelta exportSharedDelta exportFieldsSince
  rw [carried]
  rfl

/-- A shared slot has a name, so the two loops for the high-water mark see the same slots. -/
theorem maxTimestampForOwner_shared {manager : FleeceStateManager}
    (store : manager.StoreInvariant) :
    manager.maxTimestampForOwner sharedOwnerId = maxTimestamp (manager.slots.filter fun f =>
      f.slotExists && f.nodeId == sharedOwnerId && f.isNamed) := by
  unfold maxTimestampForOwner
  refine congrArg maxTimestamp (List.filter_congr fun f member => ?_)
  obtain ⟨i, rfl⟩ := mem_slots.mp member
  cases owned : (manager.fields i).slotExists && (manager.fields i).nodeId == sharedOwnerId with
  | false => rfl
  | true =>
    rw [Bool.and_eq_true, beq_iff_eq] at owned
    have foreign : (manager.fields i).nodeId ≠ manager.nodeId := by
      rw [owned.2]
      exact store.realNode.symm
    rw [Bool.true_and, store.named i owned.1 foreign]

/-- The slots taken are the eligible slots of the mask, in slot order. -/
theorem filter_isExported_take (manager : FleeceStateManager) (since : UInt64) (capBytes : Nat) :
    ((List.finRange fieldCapacity).filter fun i =>
      isExported sharedOwnerId since (manager.fields i) &&
        (manager.packShared since capBytes).1.take i) = manager.takenSlots since capBytes :=
  filter_and_take fun _ => id

theorem bounded_frame_eq_restrictedDelta {manager : FleeceStateManager}
    (store : manager.StoreInvariant) (since : UInt64) (capBytes : Nat) :
    (manager.exportSharedDeltaBounded since capBytes).frame =
      manager.restrictedDelta since (manager.packShared since capBytes).1.take := by
  have written := flatMap_writeRecord store fun f =>
    carried_of_mem_entries (.sharedDeltaBounded since capBytes)
  rw [exportSharedDeltaBounded_eq store]
  unfold restrictedDelta
  simp only
  rw [filter_isExported_take, ← maxTimestampForOwner_shared store]
  unfold FrameContents.frame FrameContents.encode GossipExport.contents
  simp only
  rw [← written, List.length_map]
  rfl

/-- The bounded delta export of a reachable store writes the frame of the unbounded one restricted
to the slots it takes. If it takes every eligible slot, the frame is the unbounded one. And it
changes nothing in the manager but the export times. -/
theorem bounded_export_agrees {nodeId : UInt64} {start : FleeceStateManager}
    (created : createWithNodeId nodeId = some start) (operations : List Operation) (since : UInt64)
    (capBytes : Nat) :
    let manager := start.after operations
    let exported := manager.exportSharedDeltaBounded since capBytes
    let taken := (manager.packShared since capBytes).1.take
    exported.frame = manager.restrictedDelta since taken ∧
      manager.restrictedDelta since (fun _ => true) = manager.exportSharedDelta since ∧
      ((∀ i, isExported sharedOwnerId since (manager.fields i) = true → taken i = true) →
        exported.frame = manager.exportSharedDelta since) ∧
      exported.manager = { manager with fields := exported.manager.fields } ∧
      ∀ i, { exported.manager.fields i with lastExportTs := (manager.fields i).lastExportTs } =
        manager.fields i := by
  intro manager exported taken
  have store : manager.StoreInvariant := storeInvariant_after created operations
  have frame : exported.frame = manager.restrictedDelta since taken :=
    bounded_frame_eq_restrictedDelta store since capBytes
  obtain ⟨rest, same⟩ := markSteps_rest (exportSharedDeltaBounded_steps manager since capBytes)
  refine ⟨frame, restrictedDelta_all fun _ _ => rfl,
    fun all => frame.trans (restrictedDelta_all all), rest, fun i => ?_⟩
  -- two entries that differ in the export time alone agree once it is put back
  have put (f : FieldEntry) : { f with lastExportTs := (manager.fields i).lastExportTs } =
      { unmarked f with lastExportTs := (manager.fields i).lastExportTs } := rfl
  rw [put]
  exact congrArg (fun f => { f with lastExportTs := (manager.fields i).lastExportTs }) (same i)

/-- Of two records a cap of 400 bytes takes both, and a cap of 0 bytes the first. -/
theorem bounded_export_agrees_writes :
    let operations := [Operation.write (.setShared ⟨[0x61], by decide⟩ ⟨[1], by decide⟩),
      .write (.setShared ⟨[0x62], by decide⟩ ⟨[2], by decide⟩)]
    let manager := (blank 7).after operations
    (manager.exportSharedDeltaBounded 0 400).frame = manager.exportSharedDelta 0 ∧
      (manager.exportSharedDeltaBounded 0 0).frame =
        manager.restrictedDelta 0 (fun i => decide (i = 0)) := by
  intro operations manager
  have created : createWithNodeId 7 = some (blank 7) := rfl
  obtain ⟨_, _, whole, _⟩ := bounded_export_agrees created operations 0 400
  obtain ⟨first, _⟩ := bounded_export_agrees created operations 0 0
  have all : ∀ i, isExported sharedOwnerId 0 (((blank 7).after operations).fields i) = true →
      (((blank 7).after operations).packShared 0 400).1.take i = true := by decide +kernel
  have taken : (((blank 7).after operations).packShared 0 0).1.take = fun i => decide (i = 0) := by
    refine funext ?_
    decide +kernel
  rw [← taken]
  exact ⟨whole all, first⟩

end FleeceStateManager

end Fleece
