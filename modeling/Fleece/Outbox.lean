/-
This file is about the frames of a runtime: those it has handed to its transport and
those that wait in the deferred queue. A step adds frames of two kinds, control
frames and the export of the step, so what holds of both kinds holds of every frame a
node ever sends.
-/

import Fleece.Fetch
import Fleece.Steps

namespace Fleece

/-- A buffer that starts with the magic bytes of a control frame asks nothing of the store. -/
theorem FleeceRuntime.operationOfReceive_control {rest : List UInt8}
    (short : (controlMagic ++ rest).length < 2 ^ 32) :
    operationOfReceive (.ofBuffer (controlMagic ++ rest)) = none := by
  have bytes := Blob.ofBuffer_bytes_of_lt short
  refine if_pos (Or.inr ?_)
  rw [Blob.size, bytes]
  exact ⟨rfl, by rw [List.length_append]; exact Nat.le_add_right 3 _⟩

namespace FleeceRuntime

/-- Every frame the runtime has sent or has waiting meets a condition. -/
structure Posts (runtime : FleeceRuntime) (met : Blob → Prop) : Prop where
  sent : ∀ post ∈ runtime.comms.sent, met post.2
  waiting : ∀ i tx, runtime.pendingTx i = some tx → met tx.data

/-- The frame is one the runtime has sent or has waiting. -/
def HasPost (runtime : FleeceRuntime) (data : Blob) : Prop :=
  (∃ post ∈ runtime.comms.sent, data = post.2) ∨
    ∃ i tx, runtime.pendingTx i = some tx ∧ data = tx.data

variable {runtime next : FleeceRuntime} {met : Blob → Prop}

theorem Posts.of_hasPost (posts : runtime.Posts met) {data : Blob} (has : runtime.HasPost data) :
    met data := by
  rcases has with ⟨post, member, rfl⟩ | ⟨i, tx, held, rfl⟩
  · exact posts.sent post member
  · exact posts.waiting i tx held

theorem Posts.mono (posts : runtime.Posts met) {weaker : Blob → Prop}
    (weaken : ∀ data, met data → weaker data) : runtime.Posts weaker :=
  ⟨fun post member => weaken _ (posts.sent post member),
    fun i tx held => weaken _ (posts.waiting i tx held)⟩

/-- A step that sends nothing and leaves the queue alone. -/
theorem Posts.of_same (posts : runtime.Posts met) (sent : next.comms.sent = runtime.comms.sent)
    (waiting : next.pendingTx = runtime.pendingTx) : next.Posts met := by
  refine ⟨?_, ?_⟩
  · rw [sent]
    exact posts.sent
  · rw [waiting]
    exact posts.waiting

theorem mem_sent_send {comms : FleeceComms} {destination : Destination} {data : Blob}
    {post : Destination × Blob} (member : post ∈ (comms.send destination data).1.sent) :
    post ∈ comms.sent ∨ post = (destination, data) := by
  unfold FleeceComms.send at member
  split_ifs at member
  · exact Or.inl member
  · exact (List.mem_append.mp member).imp id List.mem_singleton.mp

theorem Posts.send (posts : runtime.Posts met) {destination : Destination} {data : Blob}
    (isMet : met data) (sent : next.comms.sent = (runtime.comms.send destination data).1.sent)
    (waiting : next.pendingTx = runtime.pendingTx) : next.Posts met := by
  refine ⟨fun post member => ?_, waiting ▸ posts.waiting⟩
  rw [sent] at member
  rcases mem_sent_send member with before | rfl
  · exact posts.sent post before
  · exact isMet

theorem Posts.enqueueTx (posts : runtime.Posts met) {dest : Destination} {data : Blob}
    (isMet : met data) : (runtime.enqueueTx dest data).Posts met := by
  unfold FleeceRuntime.enqueueTx
  split
  · rename_i free _
    refine ⟨posts.sent, fun i tx held => ?_⟩
    change Function.update runtime.pendingTx free _ i = some tx at held
    rcases eq_or_ne i free with rfl | other
    · rw [Function.update_self] at held
      rw [← Option.some.inj held]
      exact isMet
    · rw [Function.update_of_ne other] at held
      exact posts.waiting i tx held
  · exact posts.of_same rfl rfl

theorem Posts.flushSlot (posts : runtime.Posts met) (i : Fin maxPendingTx) :
    (runtime.flushSlot i).Posts met := by
  unfold FleeceRuntime.flushSlot
  split
  · exact posts
  · rename_i tx held
    split_ifs
    · exact posts
    · refine ⟨fun post member => ?_, fun j other kept => ?_⟩
      · rcases mem_sent_send member with before | rfl
        · exact posts.sent post before
        · exact posts.waiting i tx held
      · change Function.update runtime.pendingTx i none j = some other at kept
        rcases eq_or_ne j i with rfl | different
        · rw [Function.update_self] at kept
          cases kept
        · rw [Function.update_of_ne different] at kept
          exact posts.waiting j other kept

theorem Posts.flushPendingTx (posts : runtime.Posts met) : runtime.flushPendingTx.Posts met :=
  List.foldlRecOn (motive := fun runtime : FleeceRuntime => runtime.Posts met) _ _ posts
    fun _ kept i _ => kept.flushSlot i

theorem Posts.withTarget {found : FleeceRuntime × Option (Fin maxResyncTargets)}
    (posts : found.1.Posts met) (change : ResyncTarget → ResyncTarget) :
    (FleeceRuntime.withTarget found change).Posts met := by
  unfold FleeceRuntime.withTarget
  split
  · exact posts
  · exact posts.of_same rfl rfl

theorem Posts.resyncTargetForId (posts : runtime.Posts met) (nodeId : UInt64) :
    (runtime.resyncTargetForId nodeId).1.Posts met := by
  unfold FleeceRuntime.resyncTargetForId
  split
  · exact posts
  · split
    · exact posts.of_same rfl rfl
    · exact posts

/-- A control frame asks for nothing that fits no frame. -/
theorem operationOfReceive_controlFrame (nodeId : UInt64) (tag : UInt8) {hashes : List UInt32}
    (few : hashes.length ≤ maxFetchKeys) :
    operationOfReceive (.ofBuffer (controlFrame nodeId tag hashes)) = none := by
  have each (hash : UInt32) : (writeUint hash.toUInt64).length ≤ 9 := by
    rw [length_writeUint]
    exact uintSize_le hash.toUInt64
  have items := length_flatMap_le each hashes
  have fits : hashes.length * 9 ≤ 64 * 9 := Nat.mul_le_mul_right _ few
  have tagSize := uintSize_le tag.toUInt64
  have nodeSize := uintSize_le nodeId
  have countSize : arrayHeaderSize hashes.length ≤ 9 := uintSize_le _
  unfold controlFrame
  simp only [List.append_assoc]
  refine operationOfReceive_control ?_
  simp only [List.length_append, length_writeArrayHeader, length_writeUint,
    show controlMagic.length = 3 from rfl, show arrayHeaderSize 3 = 1 from rfl]
  omega

/-- Nor does the index of a store. -/
theorem operationOfReceive_index (manager : FleeceStateManager) :
    operationOfReceive manager.exportSharedIndex = none := by
  have each (f : FieldEntry) : (writeArrayHeader 2 ++ writeUint f.key.toUInt64 ++
      writeUint f.timestamp).length ≤ 19 := by
    have hash := uintSize_le f.key.toUInt64
    have stamp := uintSize_le f.timestamp
    rw [List.length_append, List.length_append, length_writeArrayHeader, length_writeUint,
      length_writeUint, show arrayHeaderSize 2 = 1 from rfl]
    omega
  have items := length_flatMap_le each
    (manager.slots.filter (FleeceStateManager.isLiveNamed sharedOwnerId))
  have few : (manager.slots.filter (FleeceStateManager.isLiveNamed sharedOwnerId)).length ≤ 128 :=
    (List.length_filter_le _ _).trans List.length_ofFn.le
  have nodeSize := uintSize_le manager.nodeId
  have countSize : arrayHeaderSize
      (manager.slots.filter (FleeceStateManager.isLiveNamed sharedOwnerId)).length ≤ 9 :=
    uintSize_le _
  unfold FleeceStateManager.exportSharedIndex
  simp only [List.append_assoc] at items ⊢
  refine operationOfReceive_control ?_
  simp only [List.length_append, length_writeArrayHeader, length_writeUint,
    show controlMagic.length = 3 from rfl, show arrayHeaderSize 3 = 1 from rfl,
    show uintSize 1 = 1 from rfl] at items ⊢
  omega

/-- The values a control frame asks for. -/
def exportOfControl (data : Blob) : Option GossipExport :=
  match readControlHead data.bytes data.size with
  | .error _ => none
  | .ok head =>
    if head.tag = 2 then
      match readHashes data.bytes data.size head.items.toNat head.pos [] with
      | .error _ => none
      | .ok hashes => if hashes.length > 0 then some (.sharedByHash hashes) else none
    else none

/-- The export of a frame that comes in: none, unless it is a control frame. -/
def exportOfReceive (data : Blob) : Option GossipExport :=
  if data.size ≠ 0 ∧ data.bytes.take 2 = controlMagic.take 2 ∧ data.size ≥ 3 ∧
      data.bytes.take 3 = controlMagic then
    exportOfControl data
  else none

/-- The export of a turn: a delta, a beacon or none. -/
def exportOfTurn (runtime : FleeceRuntime) : Option GossipExport :=
  if runtime.deltaDue then
    some (.sharedDeltaBounded runtime.sharedGossipWatermark gossipFrameBytes)
  else if runtime.beaconDue then some (.sharedDeltaBounded 0xFFFFFFFFFFFFFFFF 0)
  else none

theorem Posts.importAndTrack (posts : runtime.Posts met) (data : Blob) :
    (runtime.importAndTrack data).Posts met := by
  have imported : { runtime with
      stateManager := (runtime.stateManager.importFrom data).manager : FleeceRuntime }.Posts met :=
    posts.of_same rfl rfl
  unfold FleeceRuntime.importAndTrack
  simp only
  split
  · exact imported
  · exact Posts.withTarget (imported.resyncTargetForId _) _

theorem Posts.gossipPhase (posts : runtime.Posts met)
    (exports : ∀ kind, runtime.exportOfTurn = some kind → met (kind.frame runtime.stateManager)) :
    runtime.gossipPhase.Posts met := by
  unfold FleeceRuntime.gossipPhase
  unfold exportOfTurn deltaDue beaconDue at exports
  simp only
  split_ifs with due beacon
  · exact posts.send (exports _ (if_pos due)) rfl rfl
  · exact posts.send (exports _ ((if_neg due).trans (if_pos beacon))) rfl rfl
  · exact posts

section Control

variable (control : ∀ data, operationOfReceive data = none → met data)
include control

theorem Posts.sendControlEx (posts : runtime.Posts met) (target : Destination) (tag : UInt8)
    {hashes : List UInt32} (few : hashes.length ≤ maxFetchKeys) (defer : Bool) :
    (runtime.sendControlEx target tag hashes defer).Posts met := by
  have isMet := control _ (operationOfReceive_controlFrame runtime.stateManager.nodeId tag few)
  unfold FleeceRuntime.sendControlEx
  cases defer with
  | true => exact posts.enqueueTx isMet
  | false => exact posts.send isMet rfl rfl

theorem Posts.requestMissingKeys (posts : runtime.Posts met) (origin : UInt64)
    (pairs : List (UInt64 × UInt64)) : (runtime.requestMissingKeys origin pairs).1.Posts met := by
  unfold FleeceRuntime.requestMissingKeys
  simp only
  split_ifs
  · exact posts.sendControlEx control _ 2 (FleeceStateManager.length_wantedKeys_le _ _) true
  · dsimp only
    exact Posts.withTarget (posts.resyncTargetForId origin) _

theorem Posts.handleFxFrame (posts : runtime.Posts met) (data : Blob) (source : Destination)
    (exports : ∀ kind, exportOfControl data = some kind → met (kind.frame runtime.stateManager)) :
    (runtime.handleFxFrame data source).Posts met := by
  unfold FleeceRuntime.handleFxFrame
  unfold exportOfControl at exports
  split
  · exact posts
  · rename_i head readHead
    simp only
    split_ifs with index values reply
    · exact posts.enqueueTx (control _ (operationOfReceive_index _))
    · split
      · exact posts
      · rename_i hashes readAll
        split_ifs with some
        · refine posts.enqueueTx (exports (.sharedByHash hashes) ?_)
          simp only [readHead, values, readAll, some, if_true]
        · exact posts
    · split
      · exact posts
      · exact Posts.requestMissingKeys control
          (Posts.withTarget (posts.resyncTargetForId _) _) _ _
    · exact posts

theorem Posts.gossipReceive (posts : runtime.Posts met) (source : Destination) (data : Blob)
    (exports : ∀ kind, exportOfReceive data = some kind → met (kind.frame runtime.stateManager)) :
    (runtime.gossipReceive source data).Posts met := by
  unfold FleeceRuntime.gossipReceive
  split_ifs with empty isControl whole
  · exact posts
  · refine posts.handleFxFrame control data source fun kind asked => exports kind ?_
    rw [exportOfReceive, if_pos ⟨empty, isControl.1, isControl.2, whole⟩, asked]
  · exact posts
  · exact posts.importAndTrack data

theorem Posts.resyncSlot {state : FleeceRuntime × Nat} (posts : state.1.Posts met)
    (i : Fin maxResyncTargets) : (FleeceRuntime.resyncSlot state i).1.Posts met := by
  have asked {runtime : FleeceRuntime} (posts : runtime.Posts met)
      (change : ResyncTarget → ResyncTarget) :
      (FleeceRuntime.withTarget (runtime.requestIndex i, some i) change).Posts met :=
    Posts.withTarget (posts.sendControlEx control _ 0 (Nat.zero_le _) false) change
  unfold FleeceRuntime.resyncSlot
  simp only
  split_ifs
  · exact posts
  · dsimp only
    exact asked (asked posts _) _
  · dsimp only
    exact asked posts _
  · dsimp only
    exact asked posts _
  · exact posts

theorem Posts.sendResyncRequests (posts : runtime.Posts met) :
    runtime.sendResyncRequests.Posts met :=
  List.foldlRecOn (motive := fun state : FleeceRuntime × Nat => state.1.Posts met) _ _
    posts.flushPendingTx fun _ kept i _ => kept.resyncSlot control i

theorem Posts.gossipTurn (posts : runtime.Posts met)
    (exports : ∀ kind, runtime.exportOfTurn = some kind → met (kind.frame runtime.stateManager)) :
    runtime.gossipTurn.Posts met := by
  have spoken := (posts.gossipPhase exports).sendResyncRequests control
  unfold FleeceRuntime.gossipTurn
  generalize runtime.gossipPhase.sendResyncRequests = last at spoken ⊢
  exact ⟨spoken.sent, spoken.waiting⟩

end Control

end FleeceRuntime

end Fleece
