/-
This file says what a step of the runtime asks of the store: one operation of the
state manager or none. So what holds of a store after any operations holds of the
store of a runtime after any steps.
-/

import Fleece.Gossip

namespace Fleece

namespace FleeceRuntime

/-- What `runtime_gossip_receive` asks of the store: an import, unless the frame is empty or has
the magic bytes of a control frame. -/
def operationOfReceive (data : Blob) : Option Operation :=
  if data.size = 0 ∨ data.bytes.take 2 = controlMagic.take 2 ∧ data.size ≥ 3 then none
  else some (.importFrom data)

/-- The test of the beacon branch, which the node id puts out of step with other nodes. -/
def beaconDue (runtime : FleeceRuntime) : Bool :=
  (runtime.gossipTickCount + runtime.stateManager.nodeId.toUInt32) % runtime.beaconEveryTicks == 0

/-- What a turn asks of the store: the export of a delta or of a beacon. -/
def operationOfTurn (runtime : FleeceRuntime) : Option Operation :=
  if runtime.deltaDue then
    some (.exportSharedDeltaBounded runtime.sharedGossipWatermark gossipFrameBytes)
  else if runtime.beaconDue then some (.exportSharedDeltaBounded 0xFFFFFFFFFFFFFFFF 0)
  else none

/-- What a step asks of the store. -/
def operationOf (runtime : FleeceRuntime) : Act → Option Operation
  | .write change => some (.write change)
  | .receive _ data => operationOfReceive data
  | .gossipFrame data => if data.size = 0 then none else some (.importFrom data)
  | .turn => runtime.operationOfTurn
  | .tick => some .tick
  | .controlFrame _ => none
  | .initializeComms => none
  | .close => none
  | .setGossipCadence _ _ => none

theorem operationOf_ne_compact (runtime : FleeceRuntime) (act : Act) :
    runtime.operationOf act ≠ some Operation.compact := by
  cases act with
  | receive source data =>
    simp only [operationOf, operationOfReceive]
    split_ifs <;> nofun
  | gossipFrame data =>
    simp only [operationOf]
    split_ifs <;> nofun
  | turn =>
    simp only [operationOf, operationOfTurn]
    split_ifs <;> nofun
  | _ => nofun

/-- The store after an operation or none. -/
def storeAfter (manager : FleeceStateManager) : Option Operation → FleeceStateManager
  | none => manager
  | some operation => operation.next manager

theorem importAndTrack_talks (runtime : FleeceRuntime) (data : Blob) :
    { runtime with
      stateManager := (runtime.stateManager.importFrom data).manager : FleeceRuntime }.Talks
        (runtime.importAndTrack data) := by
  unfold importAndTrack
  simp only
  split
  · exact .refl _
  · exact noteBehind_talks _ _ _

/-- A frame that comes in changes the store as it asks, and all else is talk. -/
theorem gossipReceive_talks (runtime : FleeceRuntime) (source : Destination) (data : Blob) :
    { runtime with
      stateManager := storeAfter runtime.stateManager (operationOfReceive data) :
        FleeceRuntime }.Talks (runtime.gossipReceive source data) := by
  unfold gossipReceive operationOfReceive
  by_cases empty : data.size = 0
  · rw [if_pos empty, if_pos (Or.inl empty)]
    exact .refl runtime
  rw [if_neg empty]
  by_cases control : data.bytes.take 2 = controlMagic.take 2 ∧ data.size ≥ 3
  · rw [if_pos control, if_pos (Or.inr control)]
    split_ifs
    · exact handleFxFrame_talks runtime data source
    · exact .refl runtime
  · rw [if_neg control, if_neg (not_or.mpr ⟨empty, control⟩)]
    exact importAndTrack_talks runtime data

theorem stateManager_gossipPhase (runtime : FleeceRuntime) :
    runtime.gossipPhase.stateManager =
      storeAfter runtime.stateManager runtime.operationOfTurn := by
  unfold gossipPhase operationOfTurn deltaDue beaconDue
  simp only
  split_ifs <;> rfl

theorem stateManager_gossipTurn (runtime : FleeceRuntime) :
    runtime.gossipTurn.stateManager = runtime.gossipPhase.stateManager := by
  rw [← (sendResyncRequests_talks runtime.gossipPhase).store]
  unfold gossipTurn
  generalize runtime.gossipPhase.sendResyncRequests = last
  simp only

/-- The store after a step is the store after what the step asks of it. -/
theorem stateManager_step (runtime : FleeceRuntime) (act : Act) :
    (runtime.step act).stateManager =
      storeAfter runtime.stateManager (runtime.operationOf act) := by
  cases act with
  | write change => rfl
  | receive source data => exact (gossipReceive_talks runtime source data).store
  | gossipFrame data =>
    simp only [step, onGossipFrame, operationOf]
    split_ifs
    · rfl
    · exact (importAndTrack_talks runtime data).store
  | controlFrame data =>
    simp only [step, onControlFrame, operationOf]
    split_ifs
    · exact (handleFxFrame_talks runtime data .mesh).store
    · rfl
  | tick => rfl
  | turn => exact (stateManager_gossipTurn runtime).trans (stateManager_gossipPhase runtime)
  | initializeComms => rfl
  | close => rfl
  | setGossipCadence gossipEvery beaconEvery =>
    simp only [step, setGossipCadence, operationOf]
    split_ifs <;> rfl

/-- What every operation but compaction keeps of a store, every step keeps. -/
theorem step_keeps {property : FleeceStateManager → Prop}
    (keeps : ∀ manager (operation : Operation), operation ≠ .compact → property manager →
      property (operation.next manager)) {runtime : FleeceRuntime}
    (holds : property runtime.stateManager) (act : Act) :
    property (runtime.step act).stateManager := by
  rw [stateManager_step]
  cases asked : runtime.operationOf act with
  | none => exact holds
  | some operation =>
    refine keeps _ operation (fun compacts => ?_) holds
    exact operationOf_ne_compact runtime act (asked.trans (congrArg some compacts))

theorem packedInvariant_step {runtime : FleeceRuntime}
    (invariant : runtime.stateManager.PackedInvariant) (act : Act) :
    (runtime.step act).stateManager.PackedInvariant :=
  @step_keeps FleeceStateManager.PackedInvariant
    (fun _ _ stays packed => packed.operation stays) runtime invariant act

end FleeceRuntime

end Fleece
