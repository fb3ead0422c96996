/-
This file is about what a node lets its peers see of the fields of its own. The
runtime sends the shared stream alone, and the two streams share one clock and one
array of slots. So a write of the node's own may show in two ways: it moves the
clock by which shared writes are stamped, and it may take the last free slot.

A store is pictured with its own fields blotted out. Every step of the runtime that
is not a write of the node's own is a step of the picture, and sends what it sends
there; of such a write the picture keeps whether the clock and the number of slots
have moved.
-/

import Fleece.Convergence
import Fleece.Failures
import Fleece.Gossip
import Fleece.Lockstep
import Fleece.Steps

namespace Fleece

/-! ### The store with its own fields blotted out -/

/-- A slot of the node's own. -/
def FieldEntry.isOwn (nodeId : UInt64) (f : FieldEntry) : Bool :=
  f.slotExists && f.nodeId == nodeId

/-- A slot of the node's own, with nothing left but that. -/
def FieldEntry.blot (nodeId : UInt64) (f : FieldEntry) : FieldEntry :=
  if f.isOwn nodeId then { FieldEntry.zero with slotExists := true, nodeId := nodeId } else f

namespace FleeceStateManager

/-- The store with the node's own fields blotted out. -/
def hide (manager : FleeceStateManager) : FleeceStateManager :=
  { manager with fields := fun i => (manager.fields i).blot manager.nodeId }

variable {manager next : FleeceStateManager}

theorem blot_of_notOwn {nodeId : UInt64} {f : FieldEntry} (foreign : f.isOwn nodeId = false) :
    f.blot nodeId = f := by
  rw [FieldEntry.blot, foreign]
  exact if_neg Bool.false_ne_true

theorem blot_of_isOwn {nodeId : UInt64} {f : FieldEntry} (own : f.isOwn nodeId = true) :
    f.blot nodeId = { FieldEntry.zero with slotExists := true, nodeId := nodeId } := if_pos own

theorem isOwn_blot (nodeId : UInt64) (f : FieldEntry) :
    (f.blot nodeId).isOwn nodeId = f.isOwn nodeId := by
  cases own : f.isOwn nodeId with
  | false => rw [blot_of_notOwn own, own]
  | true =>
    rw [blot_of_isOwn own]
    exact Bool.and_eq_true_iff.mpr ⟨rfl, beq_self_eq_true nodeId⟩

/-- A test that no slot of the node's own passes does not see through the blots. -/
theorem test_blot {nodeId : UInt64} {test : FieldEntry → Bool}
    (blind : ∀ f, f.isOwn nodeId = true → test f = false) (f : FieldEntry) :
    test (f.blot nodeId) = test f := by
  cases own : f.isOwn nodeId with
  | false => rw [blot_of_notOwn own]
  | true => rw [blind f own, blind _ ((isOwn_blot nodeId f).trans own)]

theorem isOwn_of_owner {nodeId owner : UInt64} (foreign : owner ≠ nodeId) {f : FieldEntry}
    (own : f.isOwn nodeId = true) : (f.nodeId == owner) = false := by
  rw [beq_eq_false_iff_ne, eq_of_beq (Bool.and_eq_true_iff.mp own).2]
  exact foreign.symm

theorem notOwn_of_owner {nodeId owner : UInt64} (foreign : owner ≠ nodeId) {f : FieldEntry}
    (owned : f.nodeId = owner) : f.isOwn nodeId = false := by
  rw [FieldEntry.isOwn, owned, beq_false_of_ne foreign, Bool.and_false]

/-- Storing an entry of another owner commutes with blotting. -/
theorem update_hide {i : Fin fieldCapacity} {f : FieldEntry}
    (foreign : f.isOwn manager.nodeId = false) :
    (fun j => (Function.update manager.fields i f j).blot manager.nodeId) =
      Function.update manager.hide.fields i f := by
  funext j
  rcases eq_or_ne j i with rfl | other
  · rw [Function.update_self, Function.update_self, blot_of_notOwn foreign]
  · rw [Function.update_of_ne other, Function.update_of_ne other]
    rfl

section Lookup

variable {key : UInt32} {owner : UInt64} (foreign : owner ≠ manager.nodeId)
include foreign

theorem findSlotOwned_hide : manager.hide.findSlotOwned key owner =
    manager.findSlotOwned key owner := by
  unfold findSlotOwned
  refine congrArg Fin.find? (funext fun i => ?_)
  refine @test_blot manager.nodeId
    (fun f => f.slotExists && f.key == key && f.nodeId == owner) (fun f own => ?_) _
  rw [isOwn_of_owner foreign own, Bool.and_false]

theorem notOwn_of_found {i : Fin fieldCapacity} (found : manager.findSlotOwned key owner = some i) :
    (manager.fields i).isOwn manager.nodeId = false :=
  notOwn_of_owner foreign (label_of_findSlotOwned found).2.2

theorem fields_hide_of_found {i : Fin fieldCapacity}
    (found : manager.findSlotOwned key owner = some i) :
    manager.hide.fields i = manager.fields i := blot_of_notOwn (notOwn_of_found foreign found)

theorem findFieldOwned_hide : manager.hide.findFieldOwned key owner =
    manager.findFieldOwned key owner := by
  unfold findFieldOwned
  rw [findSlotOwned_hide foreign]
  cases found : manager.findSlotOwned key owner with
  | none => rfl
  | some i => rw [Option.filter_some, Option.filter_some, fields_hide_of_found foreign found]

theorem view_hide : manager.hide.view (key, owner) = manager.view (key, owner) := by
  cases found : manager.findSlotOwned key owner with
  | none =>
    rw [view_eq_none_iff.mpr found,
      view_eq_none_iff.mpr ((findSlotOwned_hide foreign).trans found)]
  | some i =>
    rw [view_of_findSlotOwned found,
      view_of_findSlotOwned ((findSlotOwned_hide foreign).trans found),
      fields_hide_of_found foreign found]

theorem notOwn_overwrite (f : FieldEntry) (origin : UInt64) (name : Option CString) (data : Blob)
    (timestamp : UInt64) (isTombstone : Bool) :
    (overwrite f owner origin name data timestamp isTombstone).isOwn manager.nodeId = false :=
  notOwn_of_owner foreign (show (overwrite f owner origin name data timestamp
    isTombstone).nodeId = owner from rfl)

theorem upsertField_hide (invariant : manager.PackedInvariant) (origin : UInt64)
    (name : Option CString) (data : Blob) (timestamp : UInt64) (isTombstone : Bool) :
    manager.hide.upsertField key owner origin name data timestamp isTombstone =
      ((manager.upsertField key owner origin name data timestamp isTombstone).1.hide,
        (manager.upsertField key owner origin name data timestamp isTombstone).2) := by
  unfold upsertField
  rw [findSlotOwned_hide foreign]
  cases found : manager.findSlotOwned key owner with
  | some i =>
    simp only
    rw [fields_hide_of_found foreign found]
    refine Prod.ext ?_ rfl
    exact congrArg (fun fields => { manager with fields := fields })
      (update_hide (notOwn_overwrite foreign ..)).symm
  | none =>
    simp only
    by_cases room : manager.fieldCount < fieldCapacity
    · have free : (manager.fields ⟨manager.fieldCount, room⟩).isOwn manager.nodeId = false := by
        refine Bool.and_eq_false_imp.mpr fun present => ?_
        exact absurd ((invariant.packed _).mp present) (lt_irrefl _)
      have same : manager.hide.fields ⟨manager.fieldCount, room⟩ =
          manager.fields ⟨manager.fieldCount, room⟩ := blot_of_notOwn free
      rw [dif_pos room, dif_pos (show manager.hide.fieldCount < fieldCapacity from room)]
      refine Prod.ext ?_ rfl
      simp only
      rw [show manager.hide.fields ⟨manager.hide.fieldCount, room⟩ = _ from same]
      exact congrArg (fun fields => { manager with
        fields := fields, fieldCount := manager.fieldCount + 1 })
        (update_hide (notOwn_overwrite foreign ..)).symm
    · rw [dif_neg room, dif_neg (show ¬ manager.hide.fieldCount < fieldCapacity from room)]

end Lookup

/-! ### Peers and merges -/

theorem touchPeer_hide (nodeId : UInt64) :
    manager.hide.touchPeer nodeId = (manager.touchPeer nodeId).hide := by
  unfold touchPeer
  by_cases own : nodeId = manager.nodeId
  · rw [if_pos own, if_pos (show nodeId = manager.hide.nodeId from own)]
  · rw [if_neg own, if_neg (show ¬ nodeId = manager.hide.nodeId from own)]
    split_ifs
    · rfl
    · rw [show manager.hide.peersSeen = manager.peersSeen from rfl]
      cases Fin.find? fun i => (manager.peersSeen i).slotExists &&
          (manager.peersSeen i).nodeId == nodeId with
      | some i => rfl
      | none =>
        simp only
        cases Fin.find? fun i => !(manager.peersSeen i).slotExists with
        | some i => rfl
        | none => rfl

section Merge

variable (invariant : manager.PackedInvariant)
include invariant

theorem mergeShared_hide (origin : UInt64) (name : CString) (data : Blob) (timestamp : UInt64)
    (isTombstone : Bool) : manager.hide.mergeShared origin name data timestamp isTombstone =
      ((manager.mergeShared origin name data timestamp isTombstone).1.hide,
        (manager.mergeShared origin name data timestamp isTombstone).2) := by
  have foreign : sharedOwnerId ≠ (manager.raiseClock timestamp).nodeId :=
    invariant.store.realNode.symm
  have raised : (manager.raiseClock timestamp).PackedInvariant := invariant.of_same rfl rfl rfl
  unfold mergeShared
  split_ifs
  · rfl
  · simp only
    rw [show manager.hide.raiseClock timestamp = (manager.raiseClock timestamp).hide from rfl,
      findSlotOwned_hide foreign]
    cases found : (manager.raiseClock timestamp).findSlotOwned (hashName name) sharedOwnerId with
    | none => exact upsertField_hide foreign raised ..
    | some i =>
      simp only
      rw [fields_hide_of_found foreign found]
      split_ifs
      · rfl
      · rfl
      · exact upsertField_hide foreign raised ..

theorem mergeNamed_hide (owner : UInt64) (name : CString) (data : Blob) (timestamp : UInt64)
    (isTombstone : Bool) : manager.hide.mergeNamed owner name data timestamp isTombstone =
      ((manager.mergeNamed owner name data timestamp isTombstone).1.hide,
        (manager.mergeNamed owner name data timestamp isTombstone).2) := by
  have touched : ((manager.touchPeer owner).raiseClock timestamp).PackedInvariant :=
    (invariant.touchPeer owner).of_same rfl rfl rfl
  unfold mergeNamed
  by_cases refused : (!mergeable name data isTombstone) = true
  · rw [if_pos refused, if_pos refused]
  · rw [if_neg refused, if_neg refused]
    by_cases own : owner = manager.nodeId
    · rw [if_pos own, if_pos (show owner = manager.hide.nodeId from own)]
    · have foreign : owner ≠ ((manager.touchPeer owner).raiseClock timestamp).nodeId := by
        show owner ≠ (manager.touchPeer owner).nodeId
        rwa [touchPeer_nodeId]
      rw [if_neg own, if_neg (show ¬ owner = manager.hide.nodeId from own)]
      simp only
      rw [touchPeer_hide, show (manager.touchPeer owner).hide.raiseClock timestamp =
        ((manager.touchPeer owner).raiseClock timestamp).hide from rfl, findSlotOwned_hide foreign]
      cases found : ((manager.touchPeer owner).raiseClock timestamp).findSlotOwned (hashName name)
        owner with
      | none => exact upsertField_hide foreign touched ..
      | some i =>
        simp only
        rw [fields_hide_of_found foreign found]
        split_ifs
        · rfl
        · exact upsertField_hide foreign touched ..

theorem mergeRecord_hide (owner : UInt64) (record : GossipRecord) :
    manager.hide.mergeRecord owner record = (manager.mergeRecord owner record).hide := by
  unfold mergeRecord
  split_ifs
  · rw [mergeShared_hide invariant]
  · rw [mergeNamed_hide invariant]

end Merge

/-! ### Reading the streams of others -/

/-- A pass over the slots that takes none of the node's own. -/
theorem filter_slots_hide {test : FieldEntry → Bool}
    (blind : ∀ f, f.isOwn manager.nodeId = true → test f = false) :
    manager.hide.slots.filter test = manager.slots.filter test := by
  unfold slots
  rw [List.ofFn_eq_map, List.ofFn_eq_map, List.filter_map, List.filter_map]
  have same : test ∘ manager.hide.fields = test ∘ manager.fields :=
    funext fun i => test_blot blind (manager.fields i)
  rw [same]
  refine List.map_congr_left fun i member => ?_
  refine blot_of_notOwn (Bool.not_eq_true _ ▸ fun own => ?_)
  rw [List.mem_filter, Function.comp_apply, blind _ own] at member
  exact Bool.false_ne_true member.2

section Streams

variable {owner : UInt64} (foreign : owner ≠ manager.nodeId)
include foreign

theorem live_blind (f : FieldEntry) (own : f.isOwn manager.nodeId = true) :
    isLiveNamed owner f = false := by
  rw [isLiveNamed, isOwn_of_owner foreign own, Bool.and_false, Bool.false_and]

theorem exported_blind (since : UInt64) (f : FieldEntry) (own : f.isOwn manager.nodeId = true) :
    isExported owner since f = false := by
  rw [isExported, isOwn_of_owner foreign own, Bool.and_false, Bool.false_and, Bool.false_and]

theorem computeStreamDigest_hide :
    manager.hide.computeStreamDigest owner = manager.computeStreamDigest owner := by
  unfold computeStreamDigest
  rw [filter_slots_hide (live_blind foreign)]

theorem maxTimestampForOwner_hide :
    manager.hide.maxTimestampForOwner owner = manager.maxTimestampForOwner owner := by
  unfold maxTimestampForOwner
  rw [filter_slots_hide fun f own => by rw [isOwn_of_owner foreign own, Bool.and_false]]

end Streams

section Shared

variable (realNode : manager.nodeId ≠ sharedOwnerId)
include realNode

theorem countNewShared_hide (since : UInt64) :
    manager.hide.countNewShared since = manager.countNewShared since := by
  unfold countNewShared
  rw [filter_slots_hide (exported_blind realNode.symm since)]

theorem sharedAtLeast_hide (keyHash : UInt32) (timestamp : UInt64) :
    manager.hide.sharedAtLeast keyHash timestamp = manager.sharedAtLeast keyHash timestamp := by
  unfold sharedAtLeast
  rw [findSlotOwned_hide realNode.symm]
  cases found : manager.findSlotOwned keyHash sharedOwnerId with
  | none => rfl
  | some i =>
    simp only
    rw [fields_hide_of_found realNode.symm found]

theorem exportSharedIndex_hide : manager.hide.exportSharedIndex = manager.exportSharedIndex := by
  unfold exportSharedIndex
  rw [filter_slots_hide (live_blind realNode.symm)]
  rfl

theorem selectByHash_hide (hashes : List UInt32) :
    manager.hide.selectByHash hashes = manager.selectByHash hashes := by
  unfold selectByHash
  rw [filter_slots_hide (live_blind realNode.symm), computeStreamDigest_hide realNode.symm]
  rfl

theorem exportSharedByHash_hide (hashes : List UInt32) :
    manager.hide.exportSharedByHash hashes = manager.exportSharedByHash hashes := by
  unfold exportSharedByHash
  rw [selectByHash_hide realNode, computeStreamDigest_hide realNode.symm]
  rfl

theorem collectEligible_hide (since : UInt64) :
    manager.hide.collectEligible since = manager.collectEligible since := by
  unfold collectEligible
  have blind := exported_blind realNode.symm since
  have same (i : Fin fieldCapacity) : isExported sharedOwnerId since (manager.hide.fields i) =
      isExported sharedOwnerId since (manager.fields i) := test_blot blind _
  simp only [same]
  refine List.map_congr_left fun i member => ?_
  have kept : manager.hide.fields i = manager.fields i := by
    refine blot_of_notOwn (Bool.not_eq_true _ ▸ fun own => ?_)
    rw [List.mem_filter, blind _ own] at member
    exact Bool.false_ne_true member.2
  rw [kept]

end Shared

/-! ### The bounded export -/

/-- The state of the packing loop over the blotted array. -/
def hidePacking (nodeId : UInt64) (state : Packing) : Packing :=
  { state with fields := fun i => (state.fields i).blot nodeId }

theorem isOwn_push (clock nodeId : UInt64) (state : Packing) (entry : Eligible)
    (i : Fin fieldCapacity) :
    ((state.push clock entry).fields i).isOwn nodeId = (state.fields i).isOwn nodeId := by
  rw [fields_push]
  split_ifs <;> rfl

theorem push_hide (clock : UInt64) {nodeId : UInt64} {state : Packing} {entry : Eligible}
    (foreign : (state.fields entry.index).isOwn nodeId = false) :
    (hidePacking nodeId state).push clock entry = hidePacking nodeId (state.push clock entry) := by
  have kept : (hidePacking nodeId state).fields entry.index = state.fields entry.index :=
    blot_of_notOwn foreign
  have fields : ((hidePacking nodeId state).push clock entry).fields =
      (hidePacking nodeId (state.push clock entry)).fields := by
    funext i
    show _ = ((state.push clock entry).fields i).blot nodeId
    rw [fields_push, fields_push]
    split_ifs with here
    · rw [here, kept, blot_of_notOwn]
      exact foreign
    · rfl
  unfold Packing.push at fields ⊢
  simp only at fields ⊢
  rw [fields, kept]
  rfl

theorem pack_hide (clock : UInt64) (capBytes : Nat) {nodeId : UInt64} {state : Packing}
    {rows : List Eligible}
    (foreign : ∀ entry ∈ rows, (state.fields entry.index).isOwn nodeId = false) :
    pack clock capBytes (hidePacking nodeId state) rows =
      (hidePacking nodeId (pack clock capBytes state rows).1,
        (pack clock capBytes state rows).2) := by
  induction rows generalizing state with
  | nil => rfl
  | cons entry rest inductionHypothesis =>
    have here := foreign entry List.mem_cons_self
    have kept : (hidePacking nodeId state).fields entry.index = state.fields entry.index :=
      blot_of_notOwn here
    unfold pack
    rw [kept, push_hide clock here, show (hidePacking nodeId state).count = state.count from rfl,
      show (hidePacking nodeId state).body = state.body from rfl]
    split_ifs
    · rfl
    · exact inductionHypothesis fun other member =>
        (isOwn_push clock nodeId state entry other.index).trans
          (foreign other (List.mem_cons_of_mem entry member))

section Bounded

variable (realNode : manager.nodeId ≠ sharedOwnerId)
include realNode

theorem notOwn_of_exported {since : UInt64} {f : FieldEntry}
    (exported : isExported sharedOwnerId since f = true) : f.isOwn manager.nodeId = false := by
  refine Bool.not_eq_true _ ▸ fun own => ?_
  rw [exported_blind realNode.symm since f own] at exported
  exact Bool.false_ne_true exported

theorem packShared_hide (since : UInt64) (capBytes : Nat) :
    manager.hide.packShared since capBytes =
      (hidePacking manager.nodeId (manager.packShared since capBytes).1,
        (manager.packShared since capBytes).2) := by
  unfold packShared
  rw [collectEligible_hide realNode,
    show manager.hide.startPacking = hidePacking manager.nodeId manager.startPacking from rfl]
  refine pack_hide manager.localTimestamp capBytes fun entry member => ?_
  exact notOwn_of_exported realNode (mem_collectEligible.mp ((sortEligible_perm _).subset member)).1

theorem notOwn_of_taken {since : UInt64} {capBytes : Nat} {i : Fin fieldCapacity}
    (taken : (manager.packShared since capBytes).1.take i = true) :
    ((manager.packShared since capBytes).1.fields i).isOwn manager.nodeId = false := by
  have member : i ∈ manager.takenSlots since capBytes :=
    List.mem_filter.mpr ⟨List.mem_finRange i, taken⟩
  obtain ⟨rows, _, final⟩ := manager.packShared_split since capBytes
  rw [final, fields_foldl_push]
  have foreign := notOwn_of_exported realNode (isExported_of_mem_takenSlots member)
  split_ifs
  · exact foreign
  · exact foreign

/-- The entries that are written are not blotted. -/
theorem takenFields_hide (since : UInt64) (capBytes : Nat) :
    let packed := (manager.packShared since capBytes).1
    let hidden := hidePacking manager.nodeId packed
    ((List.finRange fieldCapacity).filter fun i =>
        (hidden.fields i).slotExists && hidden.take i).map hidden.fields =
      ((List.finRange fieldCapacity).filter fun i =>
        (packed.fields i).slotExists && packed.take i).map packed.fields := by
  intro packed hidden
  have same (i : Fin fieldCapacity) : (hidden.fields i).slotExists =
      (packed.fields i).slotExists := by
    show ((packed.fields i).blot manager.nodeId).slotExists = _
    cases own : (packed.fields i).isOwn manager.nodeId with
    | false => rw [blot_of_notOwn own]
    | true => rw [blot_of_isOwn own, (Bool.and_eq_true_iff.mp own).1]
  simp only [same]
  refine List.map_congr_left fun i member => blot_of_notOwn ?_
  exact notOwn_of_taken realNode (Bool.and_eq_true_iff.mp (List.mem_filter.mp member).2).2

theorem exportSharedDeltaBounded_hide (since : UInt64) (capBytes : Nat) :
    manager.hide.exportSharedDeltaBounded since capBytes =
      { manager.exportSharedDeltaBounded since capBytes with
        manager := (manager.exportSharedDeltaBounded since capBytes).manager.hide } := by
  unfold exportSharedDeltaBounded
  rw [packShared_hide realNode]
  simp only
  generalize marks : ({ manager with
    fields := (manager.packShared since capBytes).1.fields } : FleeceStateManager) = marked
  have node : marked.nodeId = manager.nodeId := by rw [← marks]
  have hidden : ({ manager.hide with fields := (hidePacking manager.nodeId
      (manager.packShared since capBytes).1).fields } : FleeceStateManager) = marked.hide := by
    rw [← marks]
    rfl
  have foreign : sharedOwnerId ≠ marked.nodeId := node ▸ realNode.symm
  rw [takenFields_hide realNode, hidden, maxTimestampForOwner_hide foreign,
    computeStreamDigest_hide foreign]
  rfl

end Bounded

/-! ### Imports -/

theorem importRecords_hide (invariant : manager.PackedInvariant) (owner : UInt64)
    (buf : List UInt8) (size count pos : Nat) :
    importRecords owner buf size manager.hide count pos =
      { importRecords owner buf size manager count pos with
        manager := (importRecords owner buf size manager count pos).manager.hide } := by
  induction count generalizing manager pos with
  | zero => rfl
  | succ count inductionHypothesis =>
    unfold importRecords
    cases readRecord owner buf size pos with
    | error halt => rfl
    | ok result =>
      obtain ⟨record, after⟩ := result
      cases record with
      | none =>
        simp only [Option.elim_none]
        rw [inductionHypothesis invariant]
      | some record =>
        simp only [Option.elim_some]
        rw [mergeRecord_hide invariant, inductionHypothesis (mergeSteps_packedInvariant
          (mergeRecord_steps invariant.store.realNode owner record) invariant)]

theorem importFrom_hide (invariant : manager.PackedInvariant) (frame : Blob) :
    manager.hide.importFrom frame =
      { manager.importFrom frame with manager := (manager.importFrom frame).manager.hide } := by
  have owner := @owner_of_parseFrame manager.nodeId frame
  unfold parseFrame at owner
  unfold importFrom importImpl
  rw [show manager.hide.nodeId = manager.nodeId from rfl]
  cases sent : readSender manager.nodeId frame.bytes frame.size with
  | error halt => rfl
  | ok sender =>
    simp only
    cases header : readStream manager.nodeId frame.bytes frame.size sender.2 with
    | error halt => rfl
    | ok stream =>
      simp only
      rw [touchPeer_hide]
      cases counted : readMajor frame.bytes frame.size stream.pos 4 with
      | error halt => rfl
      | ok count =>
        have touched := invariant.touchPeer sender.1
        have node := nodeId_of_steps (importRecords_steps stream.ownerNodeId frame.bytes frame.size
          count.1.toNat touched.store.realNode count.2)
        rw [touchPeer_nodeId] at node
        simp only [sent, header, counted, bind, Except.bind] at owner
        have foreign := owner invariant.store.realNode rfl
        simp only at foreign
        rw [← node] at foreign
        simp only
        unfold importStream
        simp only
        rw [importRecords_hide touched]
        simp only
        rw [computeStreamDigest_hide foreign]
        cases (importRecords stream.ownerNodeId frame.bytes frame.size
            (manager.touchPeer sender.1) count.1.toNat count.2).code with
        | error halt => rfl
        | ok done => rfl

/-! ### Writes -/

section Shared

variable (invariant : manager.PackedInvariant)
include invariant

theorem setShared_hide (name : CString) (data : Blob) : manager.hide.setShared name data =
    ((manager.setShared name data).1.hide, (manager.setShared name data).2) := by
  have noted : manager.noteWrite.advanceClock.PackedInvariant := invariant.of_same rfl rfl rfl
  have stored := @upsertField_hide manager.noteWrite.advanceClock (hashName name) sharedOwnerId
    invariant.store.realNode.symm noted manager.nodeId (some name) data
    (manager.localTimestamp + 1) false
  unfold setShared
  split_ifs
  · rfl
  · exact stored

theorem removeShared_hide (name : CString) : manager.hide.removeShared name =
    ((manager.removeShared name).1.hide, (manager.removeShared name).2) := by
  have foreign := invariant.store.realNode.symm
  unfold removeShared
  rw [findFieldOwned_hide foreign]
  cases found : manager.findFieldOwned (hashName name) sharedOwnerId with
  | none => rfl
  | some i =>
    have slot := (findSlotOwned_of_findFieldOwned found).1
    simp only
    rw [fields_hide_of_found foreign slot]
    let buried : FieldEntry :=
      { manager.fields i with
        data := .empty
        timestamp := manager.localTimestamp + 1
        originNodeId := manager.nodeId
        isTombstone := true }
    have ownless : buried.isOwn manager.nodeId = false := notOwn_of_found foreign slot
    refine Prod.ext ?_ rfl
    exact congrArg (fun fields => { manager.advanceClock.noteWrite with fields := fields })
      (@update_hide manager i buried ownless).symm

theorem setSharedCas_hide (name : CString) (expected : Option Blob) (data : Blob) :
    manager.hide.setSharedCas name expected data =
      ((manager.setSharedCas name expected data).1.hide,
        (manager.setSharedCas name expected data).2) := by
  have foreign := invariant.store.realNode.symm
  have ticked : manager.advanceClock.PackedInvariant := invariant.of_same rfl rfl rfl
  have stored := @upsertField_hide manager.advanceClock (hashName name) sharedOwnerId foreign ticked
    manager.nodeId (some name) data (manager.localTimestamp + 1) false
  have asked : manager.hide.casMatches name expected = manager.casMatches name expected := by
    unfold casMatches
    rw [findFieldOwned_hide foreign]
    cases found : manager.findFieldOwned (hashName name) sharedOwnerId with
    | none => cases expected <;> rfl
    | some i =>
      have kept := fields_hide_of_found foreign (findSlotOwned_of_findFieldOwned found).1
      cases expected with
      | none => rfl
      | some expected =>
        simp only
        rw [kept]
  unfold setSharedCas
  rw [asked]
  split_ifs
  · rfl
  · simp only
    rw [show manager.hide.advanceClock = manager.advanceClock.hide from rfl,
      show manager.hide.nodeId = manager.nodeId from rfl,
      show manager.hide.localTimestamp = manager.localTimestamp from rfl, stored]
    simp only
    generalize manager.advanceClock.upsertField (hashName name) sharedOwnerId manager.nodeId
      (some name) data (manager.localTimestamp + 1) false = result
    split_ifs
    · rfl
    · rfl
  · rfl

theorem exec_hide {change : LocalWrite} (isShared : (Operation.write change).isPrivate = false) :
    change.exec manager.hide = ((change.exec manager).1.hide, (change.exec manager).2) := by
  cases change with
  | set key data => cases isShared
  | remove key => cases isShared
  | setNamed name data => cases isShared
  | removeNamed name => cases isShared
  | setShared name data => exact setShared_hide invariant name data
  | removeShared name => exact removeShared_hide invariant name
  | setSharedCas name expected data => exact setSharedCas_hide invariant name expected data

end Shared

/-- The store at another clock, with the slots up to another count taken for the node's own. -/
def stretch (manager : FleeceStateManager) (clock : UInt64) (count : Nat) : FleeceStateManager :=
  { manager with
    localTimestamp := clock
    fieldCount := count
    fields := fun i =>
      if manager.fieldCount ≤ i.val ∧ i.val < count then
        { FieldEntry.zero with slotExists := true, nodeId := manager.nodeId }
      else manager.fields i }

theorem stretch_same (clock : UInt64) :
    manager.stretch clock manager.fieldCount = { manager with localTimestamp := clock } := by
  have fields : (manager.stretch clock manager.fieldCount).fields = manager.fields :=
    funext fun i => if_neg fun both => absurd both.2 (not_lt.mpr both.1)
  exact congrArg (fun fields => { manager with localTimestamp := clock, fields := fields }) fields

/-- A slot of the node's own is written over. -/
theorem hide_update_own {i : Fin fieldCapacity} {f : FieldEntry}
    (before : (manager.fields i).isOwn manager.nodeId = true)
    (own : f.isOwn manager.nodeId = true) :
    ({ manager with fields := Function.update manager.fields i f } : FleeceStateManager).hide =
      manager.hide := by
  refine congrArg (fun fields => { manager with fields := fields }) (funext fun j => ?_)
  simp only
  rcases eq_or_ne j i with rfl | other
  · rw [Function.update_self, blot_of_isOwn own, blot_of_isOwn before]
  · rw [Function.update_of_ne other]

theorem upsertField_own {owner : UInt64} (isOwner : owner = manager.nodeId) (key : UInt32)
    (name : Option CString) (data : Blob) (timestamp : UInt64) (isTombstone : Bool) :
    (manager.upsertField key owner owner name data timestamp isTombstone).1.hide =
      manager.hide.stretch
        (manager.upsertField key owner owner name data timestamp isTombstone).1.localTimestamp
        (manager.upsertField key owner owner name data timestamp isTombstone).1.fieldCount := by
  have same : manager.hide.stretch manager.localTimestamp manager.fieldCount = manager.hide :=
    @stretch_same manager.hide manager.localTimestamp
  unfold upsertField
  cases found : manager.findSlotOwned key owner with
  | some i =>
    obtain ⟨present, _, owned⟩ := label_of_findSlotOwned found
    refine (hide_update_own ?_ ?_).trans same.symm
    · exact Bool.and_eq_true_iff.mpr ⟨present, beq_iff_eq.mpr (owned.trans isOwner)⟩
    · exact Bool.and_eq_true_iff.mpr ⟨present, beq_iff_eq.mpr isOwner⟩
  | none =>
    simp only
    by_cases room : manager.fieldCount < fieldCapacity
    · rw [dif_pos room]
      refine congrArg (fun fields => { manager with
        fields := fields, fieldCount := manager.fieldCount + 1 }) (funext fun j => ?_)
      simp only
      by_cases here : j = ⟨manager.fieldCount, room⟩
      · have within : manager.fieldCount ≤ j.val ∧ j.val < manager.fieldCount + 1 := by
          rw [here]
          exact ⟨le_rfl, Nat.lt_succ_self _⟩
        rw [here, Function.update_self, blot_of_isOwn]
        · exact (if_pos (here ▸ within)).symm
        · exact Bool.and_eq_true_iff.mpr ⟨rfl, beq_iff_eq.mpr isOwner⟩
      · have outside : ¬ (manager.fieldCount ≤ j.val ∧ j.val < manager.fieldCount + 1) :=
          fun both => here (Fin.ext (le_antisymm (Nat.lt_succ_iff.mp both.2) both.1))
        rw [Function.update_of_ne here]
        exact (if_neg outside).symm
    · rw [dif_neg room]
      exact same.symm

theorem entomb_own {key : UInt32} {found : Option (Fin fieldCapacity)}
    (isFound : found = manager.findFieldOwned key manager.nodeId) :
    (manager.entomb found).1.hide = manager.hide.stretch (manager.entomb found).1.localTimestamp
      (manager.entomb found).1.fieldCount := by
  cases found with
  | none => exact (@stretch_same manager.hide manager.localTimestamp).symm
  | some i =>
    obtain ⟨present, _, owned⟩ :=
      label_of_findSlotOwned (findSlotOwned_of_findFieldOwned isFound.symm).1
    have own : (manager.fields i).isOwn manager.nodeId = true :=
      Bool.and_eq_true_iff.mpr ⟨present, beq_iff_eq.mpr owned⟩
    let buried : FieldEntry :=
      { manager.fields i with
        data := .empty
        timestamp := manager.localTimestamp + 1
        isTombstone := true }
    have ownBuried : buried.isOwn manager.nodeId = true := own
    exact (@hide_update_own manager.advanceClock i buried own ownBuried).trans
      (@stretch_same manager.hide (manager.localTimestamp + 1)).symm

/-- Of a write of the node's own the picture keeps the clock and the number of slots. -/
theorem exec_own {change : LocalWrite} (isPrivate : (Operation.write change).isPrivate = true) :
    (change.exec manager).1.hide = manager.hide.stretch (change.exec manager).1.localTimestamp
      (change.exec manager).1.fieldCount := by
  have same := (@stretch_same manager.hide manager.localTimestamp).symm
  have stored := @upsertField_own manager.advanceClock manager.nodeId rfl
  have ticked (clock : UInt64) (count : Nat) :
      manager.advanceClock.hide.stretch clock count = manager.hide.stretch clock count := by
    unfold stretch
    rfl
  simp only [ticked] at stored
  cases change with
  | set key data =>
    show (manager.set key data).1.hide = manager.hide.stretch
      (manager.set key data).1.localTimestamp (manager.set key data).1.fieldCount
    unfold set
    split_ifs
    · exact same
    · exact stored key none data (manager.localTimestamp + 1) false
  | remove key =>
    rw [show (LocalWrite.remove key).exec manager = manager.entomb (manager.findField key) from rfl]
    exact @entomb_own manager key (manager.findField key) rfl
  | setNamed name data =>
    show (manager.setNamed name data).1.hide = manager.hide.stretch
      (manager.setNamed name data).1.localTimestamp (manager.setNamed name data).1.fieldCount
    unfold setNamed
    split_ifs
    · exact same
    · exact stored (hashName name) (some name) data (manager.localTimestamp + 1) false
  | removeNamed name =>
    rw [show (LocalWrite.removeNamed name).exec manager = manager.entomb
      (manager.findFieldOwned (hashName name) manager.nodeId) from rfl]
    exact @entomb_own manager (hashName name)
      (manager.findFieldOwned (hashName name) manager.nodeId) rfl
  | setShared name data => cases isPrivate
  | removeShared name => cases isPrivate
  | setSharedCas name expected data => cases isPrivate

end FleeceStateManager

/-! ### The runtime -/

namespace FleeceRuntime

/-- The runtime with the node's own fields blotted out. -/
def hide (runtime : FleeceRuntime) : FleeceRuntime :=
  { runtime with stateManager := runtime.stateManager.hide }

/-- A write of the node's own. -/
def Act.isPrivate : Act → Bool
  | .write change => (Operation.write change).isPrivate
  | _ => false

theorem resyncTargetForId_hide (runtime : FleeceRuntime) (nodeId : UInt64) :
    runtime.hide.resyncTargetForId nodeId =
      ((runtime.resyncTargetForId nodeId).1.hide, (runtime.resyncTargetForId nodeId).2) := by
  unfold resyncTargetForId
  rw [show runtime.hide.resyncTargets = runtime.resyncTargets from rfl]
  split
  · rfl
  · split <;> rfl

theorem withTarget_hide (found : FleeceRuntime × Option (Fin maxResyncTargets))
    (change : ResyncTarget → ResyncTarget) :
    withTarget (found.1.hide, found.2) change = (withTarget found change).hide := by
  obtain ⟨runtime, index⟩ := found
  cases index with
  | none => rfl
  | some i => rfl

theorem enqueueTx_hide (runtime : FleeceRuntime) (dest : Destination) (data : Blob) :
    runtime.hide.enqueueTx dest data = (runtime.enqueueTx dest data).hide := by
  unfold enqueueTx
  rw [show runtime.hide.pendingTx = runtime.pendingTx from rfl]
  split <;> rfl

theorem flushSlot_hide (runtime : FleeceRuntime) (i : Fin maxPendingTx) :
    runtime.hide.flushSlot i = (runtime.flushSlot i).hide := by
  unfold flushSlot
  rw [show runtime.hide.pendingTx = runtime.pendingTx from rfl,
    show runtime.hide.gossipTickCount = runtime.gossipTickCount from rfl]
  split
  · rfl
  · split_ifs <;> rfl

theorem flushPendingTx_hide (runtime : FleeceRuntime) :
    runtime.hide.flushPendingTx = runtime.flushPendingTx.hide :=
  List.foldl_hom hide flushSlot_hide

theorem sendControlEx_hide (runtime : FleeceRuntime) (target : Destination) (tag : UInt8)
    (hashes : List UInt32) (defer : Bool) :
    runtime.hide.sendControlEx target tag hashes defer =
      (runtime.sendControlEx target tag hashes defer).hide := by
  unfold sendControlEx
  cases defer with
  | false => rfl
  | true => exact enqueueTx_hide runtime target _

theorem noteBehind_hide (runtime : FleeceRuntime) (behindShared : Bool) (sender : UInt64) :
    runtime.hide.noteBehind behindShared sender =
      (runtime.noteBehind behindShared sender).hide := by
  unfold noteBehind
  rw [resyncTargetForId_hide]
  exact withTarget_hide _ _

theorem resyncSlot_hide (state : FleeceRuntime × Nat) (i : Fin maxResyncTargets) :
    resyncSlot (state.1.hide, state.2) i =
      ((resyncSlot state i).1.hide, (resyncSlot state i).2) := by
  have asked (runtime : FleeceRuntime) (change : ResyncTarget → ResyncTarget) :
      withTarget (runtime.hide.requestIndex i, some i) change =
        (withTarget (runtime.requestIndex i, some i) change).hide := rfl
  unfold resyncSlot
  simp only
  rw [show state.1.hide.resyncTargets = state.1.resyncTargets from rfl,
    show state.1.hide.gossipTickCount = state.1.gossipTickCount from rfl,
    show state.1.hide.stateManager.ticksSinceLastWrite =
      state.1.stateManager.ticksSinceLastWrite from rfl]
  split_ifs
  · rfl
  · dsimp only
    rw [asked, asked]
  · dsimp only
    rw [asked]
  · dsimp only
    rw [asked]
  · rfl

theorem sendResyncRequests_hide (runtime : FleeceRuntime) :
    runtime.hide.sendResyncRequests = runtime.sendResyncRequests.hide := by
  unfold sendResyncRequests
  have turns := @List.foldl_hom _ _ _ (fun state : FleeceRuntime × Nat => (state.1.hide, state.2))
    resyncSlot resyncSlot (List.finRange maxResyncTargets) (runtime.flushPendingTx, 0)
    resyncSlot_hide
  simp only at turns
  rw [flushPendingTx_hide, turns]

section Public

variable {runtime : FleeceRuntime} (realNode : runtime.stateManager.nodeId ≠ sharedOwnerId)
include realNode

theorem requestMissingKeys_hide (origin : UInt64) (pairs : List (UInt64 × UInt64)) :
    runtime.hide.requestMissingKeys origin pairs =
      ((runtime.requestMissingKeys origin pairs).1.hide,
        (runtime.requestMissingKeys origin pairs).2) := by
  have wanted : wantedKeys runtime.stateManager.hide pairs =
      wantedKeys runtime.stateManager pairs := by
    unfold wantedKeys
    simp only [FleeceStateManager.sharedAtLeast_hide realNode]
  unfold requestMissingKeys
  rw [show runtime.hide.stateManager = runtime.stateManager.hide from rfl, wanted]
  simp only
  split_ifs
  · rw [sendControlEx_hide]
  · rw [resyncTargetForId_hide]
    simp only
    rw [withTarget_hide]

theorem handleFxFrame_hide (data : Blob) (source : Destination) :
    runtime.hide.handleFxFrame data source = (runtime.handleFxFrame data source).hide := by
  unfold handleFxFrame
  rw [show runtime.hide.stateManager = runtime.stateManager.hide from rfl,
    FleeceStateManager.exportSharedIndex_hide realNode]
  split
  · rfl
  · simp only
    split_ifs
    · exact enqueueTx_hide ..
    · split
      · rfl
      · rw [FleeceStateManager.exportSharedByHash_hide realNode]
        split_ifs
        · exact enqueueTx_hide ..
        · rfl
    · split
      · rfl
      · have kept (nodeId : UInt64) (change : ResyncTarget → ResyncTarget) :
            (withTarget (runtime.resyncTargetForId nodeId) change).stateManager =
              runtime.stateManager :=
          ((resyncTargetForId_talks runtime nodeId).trans (withTarget_talks _ change)).store
        rw [resyncTargetForId_hide, withTarget_hide]
        refine congrArg Prod.fst (requestMissingKeys_hide ?_ _ _)
        rw [kept]
        exact realNode
    · rfl

theorem sendDelta_hide : runtime.hide.sendDelta = runtime.sendDelta.hide := by
  unfold sendDelta
  rw [show runtime.hide.stateManager = runtime.stateManager.hide from rfl,
    FleeceStateManager.exportSharedDeltaBounded_hide realNode]
  rfl

theorem sendBeacon_hide : runtime.hide.sendBeacon = runtime.sendBeacon.hide := by
  unfold sendBeacon
  rw [show runtime.hide.stateManager = runtime.stateManager.hide from rfl,
    FleeceStateManager.exportSharedDeltaBounded_hide realNode]
  rfl

theorem gossipPhase_hide : runtime.hide.gossipPhase = runtime.gossipPhase.hide := by
  have counted : runtime.hide.stateManager.countNewShared runtime.hide.sharedGossipWatermark =
      runtime.stateManager.countNewShared runtime.sharedGossipWatermark :=
    FleeceStateManager.countNewShared_hide realNode _
  have ticks : runtime.hide.gossipTickCount = runtime.gossipTickCount := rfl
  have cadence : runtime.hide.gossipEveryTicks = runtime.gossipEveryTicks := rfl
  have beacons : runtime.hide.beaconEveryTicks = runtime.beaconEveryTicks := rfl
  have identity : runtime.hide.stateManager.nodeId = runtime.stateManager.nodeId := rfl
  unfold gossipPhase
  simp only [counted, ticks, cadence, beacons, identity, sendDelta_hide realNode,
    sendBeacon_hide realNode]
  split
  · rfl
  · split <;> rfl

theorem gossipTurn_hide : runtime.hide.gossipTurn = runtime.gossipTurn.hide := by
  unfold gossipTurn
  rw [gossipPhase_hide realNode, sendResyncRequests_hide]
  generalize runtime.gossipPhase.sendResyncRequests = last
  simp only [hide]

end Public

section Import

variable {runtime : FleeceRuntime} (invariant : runtime.stateManager.PackedInvariant)
include invariant

theorem importAndTrack_hide (data : Blob) :
    runtime.hide.importAndTrack data = (runtime.importAndTrack data).hide := by
  unfold importAndTrack
  rw [show runtime.hide.stateManager = runtime.stateManager.hide from rfl,
    FleeceStateManager.importFrom_hide invariant]
  simp only
  split
  · rfl
  · exact noteBehind_hide { runtime with
      stateManager := (runtime.stateManager.importFrom data).manager } _ _

theorem gossipReceive_hide (source : Destination) (data : Blob) :
    runtime.hide.gossipReceive source data = (runtime.gossipReceive source data).hide := by
  unfold gossipReceive
  split_ifs
  · rfl
  · exact handleFxFrame_hide invariant.store.realNode data source
  · rfl
  · exact importAndTrack_hide invariant data

/-- A step that is not a write of the node's own. -/
theorem step_hide {act : Act} (isPublic : act.isPrivate = false) :
    runtime.hide.step act = (runtime.step act).hide := by
  cases act with
  | write change =>
    have written := FleeceStateManager.exec_hide invariant isPublic
    show { runtime.hide with stateManager := (change.exec runtime.stateManager.hide).1 } = _
    rw [written]
    rfl
  | receive source data => exact gossipReceive_hide invariant source data
  | gossipFrame data =>
    show runtime.hide.onGossipFrame data = (runtime.onGossipFrame data).hide
    unfold onGossipFrame
    split_ifs
    · rfl
    · exact importAndTrack_hide invariant data
  | controlFrame data =>
    show runtime.hide.onControlFrame data = (runtime.onControlFrame data).hide
    unfold onControlFrame
    split_ifs
    · exact handleFxFrame_hide invariant.store.realNode data .mesh
    · rfl
  | tick => rfl
  | turn => exact gossipTurn_hide invariant.store.realNode
  | initializeComms => rfl
  | close => rfl
  | setGossipCadence gossipEvery beaconEvery =>
    show runtime.hide.setGossipCadence gossipEvery beaconEvery =
      (runtime.setGossipCadence gossipEvery beaconEvery).hide
    unfold setGossipCadence
    split_ifs <;> rfl

end Import

/-! ### Two runs side by side -/

/-- The two nodes take the same step, not a write of the node's own, or each makes such a write,
and these leave the clocks alike and as many slots in use. -/
def Matched (runtime second : FleeceRuntime) (act other : Act) : Prop :=
  (act = other ∧ act.isPrivate = false) ∨
    ∃ change changed, act = .write change ∧ other = .write changed ∧
      act.isPrivate = true ∧ other.isPrivate = true ∧
      (change.exec runtime.stateManager).1.localTimestamp =
        (changed.exec second.stateManager).1.localTimestamp ∧
      (change.exec runtime.stateManager).1.fieldCount =
        (changed.exec second.stateManager).1.fieldCount

/-- Two nodes that look alike but for the fields of their own. -/
structure LookAlike (runtime second : FleeceRuntime) : Prop where
  hidden : runtime.hide = second.hide
  packed : runtime.stateManager.PackedInvariant
  packedSecond : second.stateManager.PackedInvariant

theorem write_hide {runtime : FleeceRuntime} {change : LocalWrite}
    (isPrivate : (Operation.write change).isPrivate = true) :
    (runtime.step (.write change)).hide =
      { runtime.hide with
        stateManager := runtime.hide.stateManager.stretch
          (change.exec runtime.stateManager).1.localTimestamp
          (change.exec runtime.stateManager).1.fieldCount } := by
  show { runtime with
    stateManager := (change.exec runtime.stateManager).1.hide : FleeceRuntime } = _
  rw [FleeceStateManager.exec_own isPrivate]
  rfl

theorem LookAlike.step {runtime second : FleeceRuntime} (alike : runtime.LookAlike second)
    {act other : Act} (matched : runtime.Matched second act other) :
    (runtime.step act).LookAlike (second.step other) := by
  refine ⟨?_, packedInvariant_step alike.packed act, packedInvariant_step alike.packedSecond other⟩
  rcases matched with ⟨rfl, isPublic⟩ |
    ⟨change, changed, rfl, rfl, isPrivate, isPrivateSecond, clocks, counts⟩
  · rw [← step_hide alike.packed isPublic, ← step_hide alike.packedSecond isPublic, alike.hidden]
  · rw [write_hide isPrivate, write_hide isPrivateSecond, alike.hidden, clocks, counts]

/-- The fields a node has of its own stay with it. Two runs from one fresh store, of which the
second makes other writes of the node's own wherever the first makes one, hand the transport the
same frames in the same order and end with the same frames waiting, the same view of every peer,
the same watermark and the same shared stream, as long as these writes move the clock alike and
take as many slots. -/
theorem own_writes_stay_private {nodeId : UInt64} {manager : FleeceStateManager}
    (created : FleeceStateManager.createWithNodeId nodeId = some manager) {acts others : List Act}
    (lockstep : InLockstep FleeceRuntime.step Matched (create manager) (create manager) acts
      others) :
    let first := runFrom FleeceRuntime.step (create manager) acts
    let second := runFrom FleeceRuntime.step (create manager) others
    first.comms = second.comms ∧ first.pendingTx = second.pendingTx ∧
      first.resyncTargets = second.resyncTargets ∧
      first.sharedGossipWatermark = second.sharedGossipWatermark ∧
      first.stateManager.localTimestamp = second.stateManager.localTimestamp ∧
      ∀ key, first.stateManager.view (key, sharedOwnerId) =
        second.stateManager.view (key, sharedOwnerId) := by
  intro first second
  have packed := FleeceStateManager.packedInvariant_create created
  have alike : first.LookAlike second := lockstep.related
    (fun _ _ _ _ alike matched => alike.step matched) ⟨rfl, packed, packed⟩
  have same {Part : Type} (part : FleeceRuntime → Part) : part first.hide = part second.hide :=
    congrArg part alike.hidden
  refine ⟨same FleeceRuntime.comms, same FleeceRuntime.pendingTx, same FleeceRuntime.resyncTargets,
    same FleeceRuntime.sharedGossipWatermark, same (·.stateManager.localTimestamp), fun key => ?_⟩
  rw [← FleeceStateManager.view_hide alike.packed.store.realNode.symm,
    ← FleeceStateManager.view_hide alike.packedSecond.store.realNode.symm]
  exact same fun runtime => runtime.stateManager.view (key, sharedOwnerId)

/-- Two nodes that hold fields of their own under different names, with values of different sizes,
and send one delta each. -/
theorem own_writes_stay_private_delta :
    let acts (change : LocalWrite) : List Act := [.initializeComms, .write change,
      .write (.setShared ⟨[0x61], by decide⟩ ⟨[1], by decide⟩), .turn]
    let first := runFrom FleeceRuntime.step (create (FleeceStateManager.blank 7))
      (acts (.setNamed ⟨[0x6B], by decide⟩ ⟨[1], by decide⟩))
    let second := runFrom FleeceRuntime.step (create (FleeceStateManager.blank 7))
      (acts (.setNamed ⟨[0x71], by decide⟩ ⟨[2, 3], by decide⟩))
    first.comms.sent.length = 1 ∧ first.comms = second.comms ∧
      first.stateManager.view (hashName ⟨[0x6B], by decide⟩, 7) ≠
        second.stateManager.view (hashName ⟨[0x6B], by decide⟩, 7) := by
  intro acts first second
  refine ⟨by decide +kernel, ?_, by decide +kernel⟩
  have lockstep : InLockstep FleeceRuntime.step Matched (create (FleeceStateManager.blank 7))
      (create (FleeceStateManager.blank 7)) (acts (.setNamed ⟨[0x6B], by decide⟩ ⟨[1], by decide⟩))
      (acts (.setNamed ⟨[0x71], by decide⟩ ⟨[2, 3], by decide⟩)) :=
    ⟨.inl ⟨rfl, rfl⟩, .inr ⟨_, _, rfl, rfl, rfl, rfl, by decide +kernel, by decide +kernel⟩,
      .inl ⟨rfl, rfl⟩, .inl ⟨rfl, rfl⟩, trivial⟩
  exact (own_writes_stay_private
    (show FleeceStateManager.createWithNodeId 7 = some (FleeceStateManager.blank 7) from rfl)
    lockstep).1

end FleeceRuntime

end Fleece
