/-
This file proves the round trip of the wire format. Each of the six gossip exporters
writes its bytes on its own; all of them are shown to encode the contents of a frame
in the one format `Fleece/Wire.lean` reads back. The control frames of the repair,
the stream index and the value request, are read back by the parser of the runtime.
-/

import Fleece.Wire
import Fleece.Packing
import Fleece.Runtime
import Fleece.History

namespace Fleece

/-! ### What the exporters say -/

/-- The exporters of gossip frames. -/
inductive GossipExport where
  | full
  | delta (sinceTimestamp : UInt64)
  | shared
  | sharedDelta (sinceTimestamp : UInt64)
  | sharedDeltaBounded (sinceTimestamp : UInt64) (capBytes : Nat)
  | sharedByHash (hashes : List UInt32)

namespace GossipExport

/-- The frame an exporter returns. -/
def frame (manager : FleeceStateManager) : GossipExport → Blob
  | .full => manager.exportFrame
  | .delta since => manager.exportDelta since
  | .shared => manager.exportShared
  | .sharedDelta since => manager.exportSharedDelta since
  | .sharedDeltaBounded since capBytes => (manager.exportSharedDeltaBounded since capBytes).frame
  | .sharedByHash hashes => manager.exportSharedByHash hashes

/-- The stream an exporter is about. -/
def owner (manager : FleeceStateManager) : GossipExport → UInt64
  | .full => manager.nodeId
  | .delta _ => manager.nodeId
  | _ => sharedOwnerId

/-- The entries an exporter puts in its frame, in slot order. -/
def entries (manager : FleeceStateManager) : GossipExport → List FieldEntry
  | .full => manager.slots.filter (FleeceStateManager.isExported manager.nodeId 0)
  | .delta since => manager.slots.filter (FleeceStateManager.isExported manager.nodeId since)
  | .shared => manager.slots.filter (FleeceStateManager.isExported sharedOwnerId 0)
  | .sharedDelta since => manager.slots.filter (FleeceStateManager.isExported sharedOwnerId since)
  | .sharedDeltaBounded since capBytes => (manager.takenSlots since capBytes).map manager.fields
  | .sharedByHash hashes => (manager.selectByHash hashes).taken

/-- The high-water mark an exporter advertises. -/
def hw (manager : FleeceStateManager) : GossipExport → UInt64
  | .sharedDeltaBounded _ _ => manager.maxTimestampForOwner sharedOwnerId
  | .sharedByHash hashes => (manager.selectByHash hashes).hw
  | other => maxTimestamp (manager.slots.filter fun f =>
      f.slotExists && f.nodeId == other.owner manager && f.isNamed)

/-- What the frame of an exporter says. -/
def contents (manager : FleeceStateManager) (kind : GossipExport) : FrameContents where
  senderNodeId := manager.nodeId
  ownerNodeId := kind.owner manager
  hw := kind.hw manager
  digest := manager.computeStreamDigest (kind.owner manager)
  records := (kind.entries manager).map FieldEntry.record

end GossipExport

namespace FleeceStateManager

/-! ### The exporters encode it -/

theorem mem_slots {manager : FleeceStateManager} {f : FieldEntry} :
    f ∈ manager.slots ↔ ∃ i, manager.fields i = f := by
  unfold slots
  rw [List.mem_ofFn]

/-- A slot that exists and has a name can be sent. -/
theorem StoreInvariant.sendable {manager : FleeceStateManager} (invariant : manager.StoreInvariant)
    {f : FieldEntry} (member : f ∈ manager.slots) (present : f.slotExists = true)
    (named : f.isNamed = true) : f.record.Sendable f.nodeId := by
  obtain ⟨i, rfl⟩ := mem_slots.mp member
  exact ⟨GossipRecord.isNamed_iff.mp named, invariant.filled i present,
    invariant.authored i present⟩

/-- The bytes of a record are its encoding: a tombstone has no payload to write. -/
theorem writeRecord_eq {owner : UInt64} {f : FieldEntry} (filled : f.record.Filled) :
    writeRecord (owner == sharedOwnerId) f = f.record.encode owner := by
  have payload : (if f.isTombstone then [] else f.data.bytes) = f.data.bytes := by
    split_ifs with dead
    · rw [show f.data = .empty from filled.mp dead]
      rfl
    · rfl
  unfold writeRecord GossipRecord.encode GossipRecord.encodeAuthor GossipRecord.encodeBody
  rw [payload]
  simp only [beq_iff_eq, List.append_assoc]
  rfl

/-- An entry that a frame carries: it exists under the owner of the stream and has a name. -/
def Carried (manager : FleeceStateManager) (owner : UInt64) (f : FieldEntry) : Prop :=
  f ∈ manager.slots ∧ f.slotExists = true ∧ f.nodeId = owner ∧ f.isNamed = true

theorem Carried.view {manager : FleeceStateManager} (distinct : manager.DistinctSlots)
    {owner : UInt64} {f : FieldEntry} (carried : manager.Carried owner f) :
    manager.view (f.key, owner) = some f.record := by
  obtain ⟨slot, present, rfl, _⟩ := carried
  obtain ⟨i, rfl⟩ := mem_slots.mp slot
  rw [FleeceStateManager.view, lookup_of_exists distinct present, Option.map_some]

theorem carried_of_isExported {manager : FleeceStateManager} {owner since : UInt64} {f : FieldEntry}
    (member : f ∈ manager.slots) (exported : isExported owner since f = true) :
    manager.Carried owner f := by
  rw [isExported, Bool.and_eq_true, Bool.and_eq_true, Bool.and_eq_true, beq_iff_eq] at exported
  obtain ⟨⟨⟨present, owned⟩, named⟩, _⟩ := exported
  exact ⟨member, present, owned, named⟩

theorem carried_of_isLiveNamed {manager : FleeceStateManager} {owner : UInt64} {f : FieldEntry}
    (member : f ∈ manager.slots) (live : isLiveNamed owner f = true) :
    manager.Carried owner f ∧ f.isTombstone = false := by
  rw [isLiveNamed, Bool.and_eq_true, Bool.and_eq_true, Bool.and_eq_true, beq_iff_eq,
    Bool.not_eq_true'] at live
  obtain ⟨⟨⟨present, alive⟩, owned⟩, named⟩ := live
  exact ⟨⟨member, present, owned, named⟩, alive⟩

theorem takeByHash_taken (hashes : List UInt32) (reply : ValueReply) (f : FieldEntry) :
    (takeByHash hashes reply f).taken = reply.taken ∨
      (takeByHash hashes reply f).taken = reply.taken ++ [f] := by
  unfold takeByHash
  simp only
  split
  · exact Or.inl rfl
  · split
    · exact Or.inl rfl
    · exact Or.inr rfl

/-- The first pass of the value reply takes entries from those it is given. -/
theorem mem_taken_foldl {hashes : List UInt32} {live : List FieldEntry} {reply : ValueReply}
    {f : FieldEntry} (member : f ∈ (live.foldl (takeByHash hashes) reply).taken) :
    f ∈ reply.taken ∨ f ∈ live := by
  induction live generalizing reply with
  | nil => exact Or.inl member
  | cons entry rest inductionHypothesis =>
    rcases inductionHypothesis member with before | later
    · rcases takeByHash_taken hashes reply entry with same | appended
      · rw [same] at before
        exact Or.inl before
      · rw [appended] at before
        rcases List.mem_append.mp before with old | new
        · exact Or.inl old
        · exact Or.inr (List.mem_cons.mpr (Or.inl (List.mem_singleton.mp new)))
    · exact Or.inr (List.mem_cons_of_mem _ later)

theorem length_taken_foldl (hashes : List UInt32) (live : List FieldEntry) (reply : ValueReply) :
    (live.foldl (takeByHash hashes) reply).taken.length ≤ reply.taken.length + live.length := by
  induction live generalizing reply with
  | nil => exact le_refl _
  | cons entry rest inductionHypothesis =>
    have later := inductionHypothesis (takeByHash hashes reply entry)
    rw [List.foldl_cons, List.length_cons]
    rcases takeByHash_taken hashes reply entry with same | appended
    · rw [same] at later
      omega
    · rw [appended, List.length_append, List.length_singleton] at later
      omega

theorem mem_selectByHash {manager : FleeceStateManager} {hashes : List UInt32} {f : FieldEntry}
    (member : f ∈ (manager.selectByHash hashes).taken) :
    manager.Carried sharedOwnerId f ∧ f.isTombstone = false := by
  rcases mem_taken_foldl member with absent | live
  · exact absurd absent List.not_mem_nil
  · obtain ⟨slot, alive⟩ := List.mem_filter.mp live
    exact carried_of_isLiveNamed slot alive

theorem carried_of_mem_entries {manager : FleeceStateManager} (kind : GossipExport) {f : FieldEntry}
    (member : f ∈ kind.entries manager) : manager.Carried (kind.owner manager) f := by
  have filtered {owner since : UInt64}
      (found : f ∈ manager.slots.filter (isExported owner since)) : manager.Carried owner f :=
    carried_of_isExported (List.mem_filter.mp found).1 (List.mem_filter.mp found).2
  cases kind with
  | full => exact filtered member
  | delta since => exact filtered member
  | shared => exact filtered member
  | sharedDelta since => exact filtered member
  | sharedDeltaBounded since capBytes =>
    obtain ⟨i, taken, rfl⟩ := List.mem_map.mp member
    exact carried_of_isExported (mem_slots.mpr ⟨i, rfl⟩) (isExported_of_mem_takenSlots taken)
  | sharedByHash hashes => exact (mem_selectByHash member).1

/-- What does not read export times reads the same in the slots after a mark. -/
theorem map_filter_slots_of_unmarked {Result : Type} {manager next : FleeceStateManager}
    (same : ∀ j, unmarked (next.fields j) = unmarked (manager.fields j)) {keep : FieldEntry → Bool}
    {read : FieldEntry → Result} (keepBlind : ∀ f, keep (unmarked f) = keep f)
    (readBlind : ∀ f, read (unmarked f) = read f) :
    (next.slots.filter keep).map read = (manager.slots.filter keep).map read := by
  have listed (store : FleeceStateManager) : (store.slots.filter keep).map read =
      ((List.finRange fieldCapacity).filter fun i => keep (store.fields i)).map
        fun i => read (store.fields i) := by
    unfold slots
    rw [List.ofFn_eq_map, List.filter_map, List.map_map]
    rfl
  rw [listed, listed]
  have kept : (fun i => keep (next.fields i)) = fun i => keep (manager.fields i) :=
    funext fun i => read_of_unmarked (same i) keep keepBlind
  have reads : (fun i => read (next.fields i)) = fun i => read (manager.fields i) :=
    funext fun i => read_of_unmarked (same i) read readBlind
  rw [kept, reads]

theorem maxTimestamp_eq_foldl (entries : List FieldEntry) :
    maxTimestamp entries = (entries.map FieldEntry.timestamp).foldl
      (fun hw stamp => if stamp > hw then stamp else hw) 0 := by
  rw [List.foldl_map]
  rfl

section Marks

variable {manager next : FleeceStateManager}
  (same : ∀ j, unmarked (next.fields j) = unmarked (manager.fields j))
include same

theorem computeStreamDigest_of_unmarked (owner : UInt64) :
    next.computeStreamDigest owner = manager.computeStreamDigest owner := by
  unfold computeStreamDigest
  rw [map_filter_slots_of_unmarked same (fun _ => rfl) fun _ => rfl]

theorem maxTimestampForOwner_of_unmarked (owner : UInt64) :
    next.maxTimestampForOwner owner = manager.maxTimestampForOwner owner := by
  unfold maxTimestampForOwner
  rw [maxTimestamp_eq_foldl, maxTimestamp_eq_foldl,
    map_filter_slots_of_unmarked same (fun _ => rfl) fun _ => rfl]

end Marks

/-- The records of a list of carried entries, in the bytes the exporters write. -/
theorem flatMap_writeRecord {manager : FleeceStateManager} (invariant : manager.StoreInvariant)
    {owner : UInt64} {entries : List FieldEntry}
    (carried : ∀ f ∈ entries, manager.Carried owner f) :
    entries.flatMap (writeRecord (owner == sharedOwnerId)) =
      (entries.map FieldEntry.record).flatMap (GossipRecord.encode owner) := by
  rw [List.flatMap_map]
  refine List.flatMap_congr fun f member => ?_
  obtain ⟨slot, present, _, named⟩ := carried f member
  exact writeRecord_eq (invariant.sendable slot present named).filled

theorem exportFieldsSince_eq {manager : FleeceStateManager} (invariant : manager.StoreInvariant)
    (owner since : UInt64) :
    manager.exportFieldsSince owner since = FrameContents.frame {
      senderNodeId := manager.nodeId
      ownerNodeId := owner
      hw := maxTimestamp (manager.slots.filter fun f =>
        f.slotExists && f.nodeId == owner && f.isNamed)
      digest := manager.computeStreamDigest owner
      records := (manager.slots.filter (isExported owner since)).map FieldEntry.record } := by
  unfold exportFieldsSince FrameContents.frame FrameContents.encode
  simp only
  rw [flatMap_writeRecord invariant fun f member => carried_of_isExported
    (List.mem_filter.mp member).1 (List.mem_filter.mp member).2, List.length_map]

theorem exportSharedDeltaBounded_eq {manager : FleeceStateManager}
    (invariant : manager.StoreInvariant) (since : UInt64) (capBytes : Nat) :
    (manager.exportSharedDeltaBounded since capBytes).frame =
      ((GossipExport.sharedDeltaBounded since capBytes).contents manager).frame := by
  have same := (markSteps_rest (exportSharedDeltaBounded_steps manager since capBytes)).2
  generalize marked : (manager.exportSharedDeltaBounded since capBytes).manager = next at same
  have kept : ((List.finRange fieldCapacity).filter fun i =>
      (next.fields i).slotExists && (manager.packShared since capBytes).1.take i) =
      manager.takenSlots since capBytes := by
    refine filter_and_take fun i exported => ?_
    obtain ⟨_, present, _⟩ := carried_of_isExported (mem_slots.mpr ⟨i, rfl⟩) exported
    rw [read_of_unmarked (same i) FieldEntry.slotExists fun _ => rfl, present]
  have written : ((manager.takenSlots since capBytes).map next.fields).flatMap (writeRecord true) =
      ((manager.takenSlots since capBytes).map manager.fields).flatMap (writeRecord true) := by
    rw [List.flatMap_map, List.flatMap_map]
    exact congrArg (List.flatMap · _)
      (funext fun i => read_of_unmarked (same i) (writeRecord true) fun _ => rfl)
  have encoded := flatMap_writeRecord invariant fun f =>
    carried_of_mem_entries (.sharedDeltaBounded since capBytes)
  have frame : (manager.exportSharedDeltaBounded since capBytes).frame = .ofBuffer (gossipMagic ++
      writeHeader manager.nodeId sharedOwnerId (next.maxTimestampForOwner sharedOwnerId)
        (next.computeStreamDigest sharedOwnerId) (manager.packShared since capBytes).1.count ++
      (((List.finRange fieldCapacity).filter fun i => (next.fields i).slotExists &&
        (manager.packShared since capBytes).1.take i).map next.fields).flatMap
          (writeRecord true)) := by
    rw [← marked]
    rfl
  rw [frame, kept, written, computeStreamDigest_of_unmarked same,
    maxTimestampForOwner_of_unmarked same, ← length_takenSlots]
  unfold FrameContents.frame FrameContents.encode GossipExport.contents
  simp only
  rw [← encoded, List.length_map]
  show _ = Blob.ofBuffer (_ ++ writeHeader _ _ _ _ (List.map _ _).length ++ _)
  rw [List.length_map]
  rfl

theorem exportSharedByHash_eq (manager : FleeceStateManager) (hashes : List UInt32) :
    manager.exportSharedByHash hashes =
      ((GossipExport.sharedByHash hashes).contents manager).frame := by
  have encoded : ((manager.selectByHash hashes).taken.flatMap fun f =>
      writeArrayHeader 5 ++ writeUint f.originNodeId ++ writeBool false ++ writeText f.name.chars ++
        writeUint f.timestamp ++ writeBytes f.data.bytes) =
      ((manager.selectByHash hashes).taken.map FieldEntry.record).flatMap
        (GossipRecord.encode sharedOwnerId) := by
    rw [List.flatMap_map]
    refine List.flatMap_congr fun f member => ?_
    have live : f.record.isTombstone = false := (mem_selectByHash member).2
    unfold GossipRecord.encode GossipRecord.encodeAuthor GossipRecord.encodeBody
    rw [if_pos rfl, if_pos rfl, live]
    simp only [List.append_assoc]
    rfl
  unfold exportSharedByHash
  simp only
  rw [encoded]
  unfold FrameContents.frame FrameContents.encode GossipExport.contents GossipExport.entries
  rw [List.length_map]
  rfl

/-- Every exporter hands over the frame of its contents. -/
theorem frame_eq_contents {manager : FleeceStateManager} (invariant : manager.StoreInvariant)
    (kind : GossipExport) : kind.frame manager = (kind.contents manager).frame := by
  cases kind with
  | full => exact exportFieldsSince_eq invariant manager.nodeId 0
  | delta since => exact exportFieldsSince_eq invariant manager.nodeId since
  | shared => exact exportFieldsSince_eq invariant sharedOwnerId 0
  | sharedDelta since => exact exportFieldsSince_eq invariant sharedOwnerId since
  | sharedDeltaBounded since capBytes => exact exportSharedDeltaBounded_eq invariant since capBytes
  | sharedByHash hashes => exact exportSharedByHash_eq manager hashes

/-! ### Sizes -/

theorem length_entries_le (manager : FleeceStateManager) (kind : GossipExport) :
    (kind.entries manager).length ≤ fieldCapacity := by
  have slots : manager.slots.length = fieldCapacity := List.length_ofFn
  have filtered (keep : FieldEntry → Bool) : (manager.slots.filter keep).length ≤ fieldCapacity :=
    (List.length_filter_le _ _).trans slots.le
  cases kind with
  | full => exact filtered _
  | delta since => exact filtered _
  | shared => exact filtered _
  | sharedDelta since => exact filtered _
  | sharedDeltaBounded since capBytes =>
    show ((manager.takenSlots since capBytes).map manager.fields).length ≤ fieldCapacity
    rw [List.length_map]
    exact (List.length_filter_le _ _).trans (List.length_finRange).le
  | sharedByHash hashes =>
    refine le_trans ?_ (filtered (isLiveNamed sharedOwnerId))
    exact (length_taken_foldl hashes _ _).trans_eq (Nat.zero_add _)

theorem length_encode_lt (owner : UInt64) (record : GossipRecord) :
    (record.encode owner).length < 2 ^ 33 := by
  obtain ⟨_, width⟩ := arity_eq owner
  have author : (record.encodeAuthor owner).length ≤ 9 := by
    unfold GossipRecord.encodeAuthor
    split_ifs
    · rw [length_writeUint]
      exact uintSize_le _
    · exact Nat.zero_le _
  have body : record.encodeBody.length ≤ 1 + (9 + 63) + 9 + (9 + 2 ^ 32) := by
    rw [length_encodeBody]
    have name := record.name.lengthLt
    have data := record.data.sizeLt
    have nameHead := uintSize_le (UInt64.ofNat record.name.chars.length)
    have stamp := uintSize_le record.timestamp
    have dataHead := uintSize_le (UInt64.ofNat record.data.bytes.length)
    simp only [textSize, bytesSize]
    simp only [fieldNameMax] at name
    omega
  have head := uintSize_le (UInt64.ofNat (if owner = sharedOwnerId then 5 else 4))
  rw [GossipRecord.encode, List.length_append, List.length_append, length_writeArrayHeader]
  unfold arrayHeaderSize
  omega

theorem FrameContents.length_encode (contents : FrameContents) :
    contents.encode.length = 4 + uintSize contents.senderNodeId + uintSize contents.ownerNodeId +
      uintSize contents.hw + uintSize contents.digest + arrayHeaderSize contents.records.length +
      (contents.records.map fun record =>
        (record.encode contents.ownerNodeId).length).sum := by
  rw [FrameContents.encode, writeHeader, List.length_append, List.length_append,
    List.length_flatMap]
  simp only [List.length_append, length_writeArrayHeader, length_writeUint,
    show gossipMagic.length = 3 from rfl, show arrayHeaderSize 5 = 1 from rfl]
  omega

theorem sum_length_encode_le (owner : UInt64) (records : List GossipRecord) :
    (records.map fun record => (record.encode owner).length).sum ≤ records.length * 2 ^ 33 := by
  rw [← List.length_map fun record => (GossipRecord.encode owner record).length]
  refine List.sum_le_card_nsmul _ _ fun size member => ?_
  obtain ⟨record, _, rfl⟩ := List.mem_map.mp member
  exact (length_encode_lt owner record).le

theorem length_frame_lt {contents : FrameContents} (few : contents.records.length ≤ fieldCapacity) :
    contents.encode.length < 2 ^ 63 := by
  have records := sum_length_encode_le contents.ownerNodeId contents.records
  have total : contents.records.length * 2 ^ 33 ≤ 128 * 2 ^ 33 := Nat.mul_le_mul_right _ few
  have sender := uintSize_le contents.senderNodeId
  have owner := uintSize_le contents.ownerNodeId
  have hw := uintSize_le contents.hw
  have digest := uintSize_le contents.digest
  have countHead := uintSize_le (UInt64.ofNat contents.records.length)
  rw [FrameContents.length_encode, arrayHeaderSize]
  omega

theorem length_records_le (manager : FleeceStateManager) (kind : GossipExport) :
    (kind.contents manager).records.length ≤ fieldCapacity := by
  show (List.map _ _).length ≤ _
  rw [List.length_map]
  exact length_entries_le manager kind

/-- The bounded exporters measure a record by the bytes it takes. -/
theorem length_encode_eq_recordSize {f : FieldEntry} (filled : f.record.Filled) :
    (f.record.encode sharedOwnerId).length = recordSize f := by
  rw [← writeRecord_eq filled, beq_self_eq_true]
  unfold writeRecord recordSize
  simp only [if_true, List.length_append, length_writeArrayHeader, length_writeUint,
    length_writeBool, length_writeText, length_writeBytes]
  split_ifs <;> rfl

theorem arrayHeaderSize_le {count : Nat} (few : count ≤ fieldCapacity) :
    arrayHeaderSize count ≤ 3 := by
  have small : UInt64.ofNat count ≤ 0xFFFF := by
    rw [UInt64.le_iff_toNat_le, UInt64.toNat_ofNat']
    exact (Nat.mod_le _ _).trans (few.trans (by decide))
  unfold arrayHeaderSize uintSize
  split_ifs <;> decide

/-- A bounded frame is no longer than its magic and what the packing loop has counted. -/
theorem length_bounded_le {manager : FleeceStateManager} (invariant : manager.StoreInvariant)
    (since : UInt64) (capBytes : Nat) :
    ((GossipExport.sharedDeltaBounded since capBytes).contents manager).encode.length ≤
      3 + (manager.packShared since capBytes).1.body := by
  obtain ⟨taken, split, final⟩ := manager.packShared_split since capBytes
  have perm := takenSlots_perm manager since capBytes split final
  have few := length_records_le manager (.sharedDeltaBounded since capBytes)
  have records : (((GossipExport.sharedDeltaBounded since capBytes).contents manager).records.flatMap
      (GossipRecord.encode sharedOwnerId)).length =
      ((manager.takenSlots since capBytes).map fun i => recordSize (manager.fields i)).sum := by
    show ((((manager.takenSlots since capBytes).map manager.fields).map FieldEntry.record).flatMap
      _).length = _
    rw [List.map_map, List.flatMap_map, List.length_flatMap]
    refine congrArg List.sum (List.map_congr_left fun i member => ?_)
    obtain ⟨_, present, _⟩ := carried_of_isExported (mem_slots.mpr ⟨i, rfl⟩)
      (isExported_of_mem_takenSlots member)
    exact length_encode_eq_recordSize (invariant.filled i present)
  rw [(perm.map _).sum_eq, List.map_map] at records
  have body : (manager.packShared since capBytes).1.body = manager.boundedHeaderSize +
      (taken.map fun entry => recordSize (manager.fields entry.index)).sum := by
    rw [final, body_foldl_push]
    rfl
  have count := arrayHeaderSize_le few
  have hw := uintSize_le ((GossipExport.sharedDeltaBounded since capBytes).contents manager).hw
  have digest :=
    uintSize_le ((GossipExport.sharedDeltaBounded since capBytes).contents manager).digest
  rw [body, FrameContents.encode, List.length_append, List.length_append, writeHeader]
  simp only [List.length_append, length_writeArrayHeader, length_writeUint,
    show gossipMagic.length = 3 from rfl]
  rw [show ((GossipExport.sharedDeltaBounded since capBytes).contents manager).ownerNodeId =
    sharedOwnerId from rfl, records, boundedHeaderSize, Function.comp_def]
  have sender : ((GossipExport.sharedDeltaBounded since capBytes).contents manager).senderNodeId =
    manager.nodeId := rfl
  rw [sender]
  omega

/-! ### Gossip frames -/

theorem sendable_contents {manager : FleeceStateManager} (invariant : manager.StoreInvariant)
    (kind : GossipExport) :
    ∀ record ∈ (kind.contents manager).records, record.Sendable (kind.owner manager) := by
  intro record member
  obtain ⟨f, entry, rfl⟩ := List.mem_map.mp member
  obtain ⟨slot, present, owned, named⟩ := carried_of_mem_entries kind entry
  rw [← owned]
  exact invariant.sendable slot present named

/-- The stream of an export is not the reader's own. -/
theorem owner_foreign {manager : FleeceStateManager} (kind : GossipExport) {nodeId : UInt64}
    (foreign : nodeId ≠ manager.nodeId) :
    kind.owner manager = sharedOwnerId ∨ kind.owner manager ≠ nodeId := by
  cases kind with
  | full => exact Or.inr foreign.symm
  | delta since => exact Or.inr foreign.symm
  | shared => exact Or.inl rfl
  | sharedDelta since => exact Or.inl rfl
  | sharedDeltaBounded since capBytes => exact Or.inl rfl
  | sharedByHash hashes => exact Or.inl rfl

section Gossip

variable {manager : FleeceStateManager} (invariant : manager.StoreInvariant) (kind : GossipExport)
  {nodeId : UInt64} (foreign : nodeId ≠ manager.nodeId)
include invariant foreign

/-- A frame whose size fits 32 bits is read back whole by any other node. -/
theorem parseFrame_export (fits : (kind.contents manager).encode.length < 2 ^ 32) :
    parseFrame nodeId (kind.frame manager) = .ok ⟨manager.nodeId, kind.owner manager,
      manager.computeStreamDigest (kind.owner manager), (kind.contents manager).records,
      .ok ()⟩ := by
  rw [frame_eq_contents invariant]
  exact parseFrame_frame_of_lt foreign.symm invariant.realNode (owner_foreign kind foreign)
    ((length_records_le manager kind).trans_lt (by decide)) (sendable_contents invariant kind) fits

/-- Whatever its size, another node reads the first records of a frame or nothing. -/
theorem parseFrame_export_cut {parsed : ParsedFrame}
    (read : parseFrame nodeId (kind.frame manager) = .ok parsed) :
    parsed.senderNodeId = manager.nodeId ∧ parsed.ownerNodeId = kind.owner manager ∧
      parsed.records <+: (kind.contents manager).records := by
  rw [frame_eq_contents invariant] at read
  exact parseFrame_frame foreign.symm invariant.realNode (owner_foreign kind foreign)
    ((length_records_le manager kind).trans_lt (by decide)) (sendable_contents invariant kind)
    (length_frame_lt (length_records_le manager kind)) read

end Gossip

end FleeceStateManager

/-! ### Control frames -/

section Control

variable {buf : List UInt8} {size pos : Nat} (small : size < 2 ^ 63)
include small

theorem readControlHead_of_holdsAt {tag origin : UInt64} {count : Nat}
    (held : HoldsAt buf 0 (controlMagic ++ writeArrayHeader 3 ++ writeUint tag ++ writeUint origin ++
      writeArrayHeader count))
    (inside : 4 + uintSize tag + uintSize origin + arrayHeaderSize count ≤ size) :
    readControlHead buf size = .ok ⟨tag, origin, UInt64.ofNat count,
      4 + uintSize tag + uintSize origin + arrayHeaderSize count⟩ := by
  obtain ⟨front, countHeld⟩ := holdsAt_append.mp held
  obtain ⟨front, originHeld⟩ := holdsAt_append.mp front
  obtain ⟨front, tagHeld⟩ := holdsAt_append.mp front
  obtain ⟨_, arityHeld⟩ := holdsAt_append.mp front
  simp only [List.length_append, length_writeArrayHeader, length_writeUint, Nat.zero_add,
    show controlMagic.length = 3 from rfl, show arrayHeaderSize 3 = 1 from rfl]
    at countHeld originHeld tagHeld arityHeld
  have countSize : arrayHeaderSize count = uintSize (UInt64.ofNat count) := rfl
  have arityRead : readMajor buf size 3 4 = .ok (3, 4) :=
    readMajor_of_holdsAt small 4 3 (by decide) arityHeld
      (show 4 ≤ size by omega)
  unfold readControlHead
  rw [arityRead]
  simp only [bind, Except.bind, ne_eq, not_true_eq_false, if_false]
  rw [readMajor_of_holdsAt small 0 tag (by decide) tagHeld (by omega)]
  simp only
  rw [readMajor_of_holdsAt small 0 origin (by decide) originHeld (by omega)]
  simp only
  rw [readMajor_of_holdsAt small 4 _ (by decide) countHeld (by omega)]
  rfl

theorem readHashes_of_holdsAt {hashes : List UInt32} (before : List UInt32)
    (few : before.length + hashes.length ≤ maxFetchKeys)
    (held : HoldsAt buf pos (hashes.flatMap fun hash => writeUint hash.toUInt64))
    (inside : pos + (hashes.flatMap fun hash => writeUint hash.toUInt64).length ≤ size) :
    readHashes buf size hashes.length pos before = .ok (before ++ hashes) := by
  induction hashes generalizing pos before with
  | nil => rw [List.append_nil]; rfl
  | cons hash rest inductionHypothesis =>
    rw [List.flatMap_cons] at held inside
    rw [List.length_append, length_writeUint] at inside
    rw [List.length_cons] at few ⊢
    obtain ⟨hashHeld, restHeld⟩ := holdsAt_append.mp held
    rw [length_writeUint] at restHeld
    unfold readHashes
    rw [if_pos (by omega), readMajor_of_holdsAt small 0 _ (by decide) hashHeld (by omega)]
    simp only [bind, Except.bind]
    have inRange : hash.toUInt64 ≤ 0xFFFFFFFF := by
      rw [UInt64.le_iff_toNat_le, UInt32.toNat_toUInt64]
      exact Nat.le_of_lt_succ hash.toNat_lt
    rw [if_pos inRange, UInt32.toUInt32_toUInt64, inductionHypothesis (before ++ [hash])
      (by rw [List.length_append, List.length_singleton]; omega) restHeld (by omega),
      List.append_assoc, List.singleton_append]

theorem readPairs_of_holdsAt {pairs : List (UInt64 × UInt64)} (before : List (UInt64 × UInt64))
    (few : before.length + pairs.length ≤ maxResyncTargets * 4)
    (held : HoldsAt buf pos (pairs.flatMap fun pair =>
      writeArrayHeader 2 ++ writeUint pair.1 ++ writeUint pair.2))
    (inside : pos + (pairs.flatMap fun pair =>
      writeArrayHeader 2 ++ writeUint pair.1 ++ writeUint pair.2).length ≤ size) :
    readPairs buf size pairs.length pos before = .ok (before ++ pairs) := by
  induction pairs generalizing pos before with
  | nil => rw [List.append_nil]; rfl
  | cons pair rest inductionHypothesis =>
    rw [List.flatMap_cons] at held inside
    rw [List.length_append, List.length_append, List.length_append, length_writeArrayHeader,
      length_writeUint, length_writeUint, show arrayHeaderSize 2 = 1 from rfl] at inside
    rw [List.length_cons] at few ⊢
    obtain ⟨pairHeld, restHeld⟩ := holdsAt_append.mp held
    obtain ⟨front, stampHeld⟩ := holdsAt_append.mp pairHeld
    obtain ⟨arityHeld, hashHeld⟩ := holdsAt_append.mp front
    simp only [List.length_append, length_writeArrayHeader, length_writeUint,
      show arrayHeaderSize 2 = 1 from rfl] at restHeld stampHeld hashHeld
    have arityRead : readMajor buf size pos 4 = .ok (2, pos + 1) :=
      readMajor_of_holdsAt small 4 2 (by decide) arityHeld (show pos + 1 ≤ size by omega)
    unfold readPairs
    rw [if_pos (by omega), arityRead]
    simp only [bind, Except.bind, ne_eq, not_true_eq_false, if_false]
    rw [readMajor_of_holdsAt small 0 _ (by decide) hashHeld (by omega)]
    simp only
    rw [Nat.add_assoc, readMajor_of_holdsAt small 0 _ (by decide) stampHeld (by omega)]
    simp only
    rw [Nat.add_assoc, inductionHypothesis (before ++ [pair])
      (by rw [List.length_append, List.length_singleton]; omega) restHeld (by omega),
      List.append_assoc, List.singleton_append]

end Control

theorem length_flatMap_le {Item : Type} {write : Item → List UInt8} {bound : Nat}
    (each : ∀ item, (write item).length ≤ bound) (items : List Item) :
    (items.flatMap write).length ≤ items.length * bound := by
  induction items with
  | nil => exact Nat.zero_le _
  | cons item rest inductionHypothesis =>
    have first := each item
    rw [List.flatMap_cons, List.length_append, List.length_cons, Nat.succ_mul]
    omega

/-- A control frame that is written whole: its head is read back, and its items are in place. -/
theorem control_of_buffer {tag origin : UInt64} {count : Nat} {items : List UInt8} {frame : Blob}
    (built : frame = .ofBuffer (controlMagic ++ writeArrayHeader 3 ++ writeUint tag ++
      writeUint origin ++ writeArrayHeader count ++ items))
    (fits : items.length < 2 ^ 31) :
    ∃ pos, readControlHead frame.bytes frame.size = .ok ⟨tag, origin, UInt64.ofNat count, pos⟩ ∧
      HoldsAt frame.bytes pos items ∧ pos + items.length ≤ frame.size := by
  have tagSize := uintSize_le tag
  have originSize := uintSize_le origin
  have countSize : arrayHeaderSize count ≤ 9 := uintSize_le _
  have head : (controlMagic ++ writeArrayHeader 3 ++ writeUint tag ++ writeUint origin ++
      writeArrayHeader count).length =
      4 + uintSize tag + uintSize origin + arrayHeaderSize count := by
    simp only [List.length_append, length_writeArrayHeader, length_writeUint,
      show controlMagic.length = 3 from rfl, show arrayHeaderSize 3 = 1 from rfl]
  have short : (controlMagic ++ writeArrayHeader 3 ++ writeUint tag ++ writeUint origin ++
      writeArrayHeader count ++ items).length < 2 ^ 32 := by
    rw [List.length_append, head]
    omega
  have bytes := Blob.ofBuffer_bytes_of_lt short
  rw [← built] at bytes
  have size : frame.size = _ := congrArg List.length bytes
  have held : HoldsAt frame.bytes 0 (controlMagic ++ writeArrayHeader 3 ++ writeUint tag ++
      writeUint origin ++ writeArrayHeader count ++ items) := by
    rw [HoldsAt, List.drop_zero, bytes]
  obtain ⟨headHeld, itemsHeld⟩ := holdsAt_append.mp held
  rw [Nat.zero_add, head] at itemsHeld
  rw [List.length_append, head] at size
  have small : frame.size < 2 ^ 63 := frame.sizeLt.trans (by decide)
  exact ⟨_, readControlHead_of_holdsAt small headHeld (by omega), itemsHeld, by omega⟩

/-- The live entries of the shared stream as the index lists them, in slot order. -/
def livePairs (manager : FleeceStateManager) : List (UInt64 × UInt64) :=
  (manager.slots.filter (FleeceStateManager.isLiveNamed sharedOwnerId)).map fun f =>
    (f.key.toUInt64, f.timestamp)

theorem length_livePairs_le (manager : FleeceStateManager) :
    (livePairs manager).length ≤ fieldCapacity := by
  rw [livePairs, List.length_map]
  exact (List.length_filter_le _ _).trans List.length_ofFn.le

/-- The index is read back as the live entries of its sender. -/
theorem index_round_trip (manager : FleeceStateManager) :
    ∃ pos, readControlHead manager.exportSharedIndex.bytes manager.exportSharedIndex.size =
        .ok ⟨1, manager.nodeId, UInt64.ofNat (livePairs manager).length, pos⟩ ∧
      readPairs manager.exportSharedIndex.bytes manager.exportSharedIndex.size
        (livePairs manager).length pos [] = .ok (livePairs manager) := by
  have built : manager.exportSharedIndex = .ofBuffer (controlMagic ++ writeArrayHeader 3 ++
      writeUint 1 ++ writeUint manager.nodeId ++ writeArrayHeader (livePairs manager).length ++
      (livePairs manager).flatMap fun pair =>
        writeArrayHeader 2 ++ writeUint pair.1 ++ writeUint pair.2) := by
    unfold FleeceStateManager.exportSharedIndex livePairs
    rw [List.flatMap_map, List.length_map]
  have each (pair : UInt64 × UInt64) :
      (writeArrayHeader 2 ++ writeUint pair.1 ++ writeUint pair.2).length ≤ 19 := by
    have hash := uintSize_le pair.1
    have stamp := uintSize_le pair.2
    rw [List.length_append, List.length_append, length_writeArrayHeader, length_writeUint,
      length_writeUint, show arrayHeaderSize 2 = 1 from rfl]
    omega
  have few := length_livePairs_le manager
  have items := length_flatMap_le each (livePairs manager)
  have small : manager.exportSharedIndex.size < 2 ^ 63 :=
    manager.exportSharedIndex.sizeLt.trans (by decide)
  have fits : (livePairs manager).length * 19 ≤ 128 * 19 := Nat.mul_le_mul_right _ few
  obtain ⟨pos, head, held, inside⟩ := control_of_buffer built (by omega)
  exact ⟨pos, head, readPairs_of_holdsAt small [] (by rw [List.length_nil, Nat.zero_add]; exact few)
    held inside⟩

/-- A request for at most `FLEECE_MAX_FETCH_KEYS` values is read back as the list of hashes it was
built from. -/
theorem request_round_trip (nodeId : UInt64) {hashes : List UInt32}
    (few : hashes.length ≤ maxFetchKeys) :
    ∃ pos, readControlHead (Blob.ofBuffer (controlFrame nodeId 2 hashes)).bytes
          (Blob.ofBuffer (controlFrame nodeId 2 hashes)).size =
        .ok ⟨2, nodeId, UInt64.ofNat hashes.length, pos⟩ ∧
      readHashes (Blob.ofBuffer (controlFrame nodeId 2 hashes)).bytes
        (Blob.ofBuffer (controlFrame nodeId 2 hashes)).size hashes.length pos [] = .ok hashes := by
  have each (hash : UInt32) : (writeUint hash.toUInt64).length ≤ 9 := by
    rw [length_writeUint]
    exact uintSize_le hash.toUInt64
  have items := length_flatMap_le each hashes
  have fits : hashes.length * 9 ≤ 64 * 9 := Nat.mul_le_mul_right _ few
  have small : (Blob.ofBuffer (controlFrame nodeId 2 hashes)).size < 2 ^ 63 :=
    (Blob.ofBuffer (controlFrame nodeId 2 hashes)).sizeLt.trans (by decide)
  have built : Blob.ofBuffer (controlFrame nodeId 2 hashes) = .ofBuffer (controlMagic ++
      writeArrayHeader 3 ++ writeUint 2 ++ writeUint nodeId ++ writeArrayHeader hashes.length ++
      hashes.flatMap fun hash => writeUint hash.toUInt64) := rfl
  obtain ⟨pos, head, held, inside⟩ := control_of_buffer built (by omega)
  exact ⟨pos, head, readHashes_of_holdsAt small [] (by rw [List.length_nil, Nat.zero_add]; exact few)
    held inside⟩

/-! ### The runtime reads them -/

/-- The index reply of a store, as `handle_fx_frame` takes it: the round with its sender is closed
and the diff is made over its live entries. -/
theorem handleFxFrame_index (runtime : FleeceRuntime) (source : Destination)
    (manager : FleeceStateManager) :
    runtime.handleFxFrame manager.exportSharedIndex source =
      ((FleeceRuntime.withTarget (runtime.resyncTargetForId manager.nodeId) fun target =>
        { target with awaitingIndex := false }).requestMissingKeys manager.nodeId
          (livePairs manager)).1 := by
  obtain ⟨pos, head, pairs⟩ := index_round_trip manager
  have count : (UInt64.ofNat (livePairs manager).length).toNat = (livePairs manager).length := by
    rw [UInt64.toNat_ofNat', Nat.mod_eq_of_lt ((length_livePairs_le manager).trans_lt (by decide))]
  unfold FleeceRuntime.handleFxFrame
  simp only [head, count, pairs]
  rfl

/-- A value request, as `handle_fx_frame` takes it. -/
theorem handleFxFrame_request (runtime : FleeceRuntime) (source : Destination) (nodeId : UInt64)
    {hashes : List UInt32} (few : hashes.length ≤ maxFetchKeys) :
    runtime.handleFxFrame (.ofBuffer (controlFrame nodeId 2 hashes)) source =
      if hashes.length > 0 then
        runtime.enqueueTx (FleeceRuntime.replyDest nodeId source)
          (runtime.stateManager.exportSharedByHash hashes)
      else runtime := by
  obtain ⟨pos, head, read⟩ := request_round_trip nodeId few
  have count : (UInt64.ofNat hashes.length).toNat = hashes.length := by
    rw [UInt64.toNat_ofNat', Nat.mod_eq_of_lt (few.trans_lt (by decide))]
  unfold FleeceRuntime.handleFxFrame
  simp only [head, count, read]
  rfl

open FleeceStateManager in
/-- The round trip over the whole format, from any reachable store. A gossip frame whose size
fits 32 bits is accepted by every other node, which recovers its sender, its stream, its digest
and its records, and whose import merges exactly these records in order after it has touched the
sender. The stream index is diffed as the live entries in slot order, and a value request is
answered for the hashes it was built from. -/
theorem wire_round_trip {nodeId : UInt64} {manager : FleeceStateManager}
    (created : createWithNodeId nodeId = some manager) (operations : List Operation) :
    (∀ kind : GossipExport,
      (kind.contents (manager.after operations)).encode.length < 2 ^ 32 →
      ∀ receiver : FleeceStateManager, receiver.nodeId ≠ (manager.after operations).nodeId →
        parseFrame receiver.nodeId (kind.frame (manager.after operations)) = .ok {
          senderNodeId := (manager.after operations).nodeId
          ownerNodeId := kind.owner (manager.after operations)
          digest := (manager.after operations).computeStreamDigest
            (kind.owner (manager.after operations))
          records := (kind.entries (manager.after operations)).map FieldEntry.record
          code := .ok () } ∧
        (receiver.importFrame (kind.frame (manager.after operations))).2 = 0 ∧
        (receiver.importFrom (kind.frame (manager.after operations))).senderNodeId =
          some (manager.after operations).nodeId ∧
        (receiver.importFrame (kind.frame (manager.after operations))).1 =
          (receiver.touchPeer (manager.after operations).nodeId).mergeRecords
            (kind.owner (manager.after operations))
            ((kind.entries (manager.after operations)).map FieldEntry.record)) ∧
    (∀ (runtime : FleeceRuntime) (source : Destination),
      runtime.handleFxFrame (manager.after operations).exportSharedIndex source =
        ((FleeceRuntime.withTarget (runtime.resyncTargetForId (manager.after operations).nodeId)
          fun target => { target with awaitingIndex := false }).requestMissingKeys
            (manager.after operations).nodeId (livePairs (manager.after operations))).1) ∧
    ∀ (runtime : FleeceRuntime) (source : Destination) (hashes : List UInt32),
      hashes.length ≤ maxFetchKeys →
      (∃ pos, readControlHead
          (Blob.ofBuffer (controlFrame (manager.after operations).nodeId 2 hashes)).bytes
          (Blob.ofBuffer (controlFrame (manager.after operations).nodeId 2 hashes)).size =
          .ok ⟨2, (manager.after operations).nodeId, UInt64.ofNat hashes.length, pos⟩ ∧
        readHashes (Blob.ofBuffer (controlFrame (manager.after operations).nodeId 2 hashes)).bytes
          (Blob.ofBuffer (controlFrame (manager.after operations).nodeId 2 hashes)).size
          hashes.length pos [] = .ok hashes) ∧
      runtime.handleFxFrame
          (.ofBuffer (controlFrame (manager.after operations).nodeId 2 hashes)) source =
        if hashes.length > 0 then
          runtime.enqueueTx (FleeceRuntime.replyDest (manager.after operations).nodeId source)
            (runtime.stateManager.exportSharedByHash hashes)
        else runtime := by
  have invariant := storeInvariant_after created operations
  refine ⟨fun kind fits receiver foreign => ?_, fun runtime source =>
    handleFxFrame_index runtime source _, fun runtime source hashes few =>
    ⟨request_round_trip _ few, handleFxFrame_request runtime source _ few⟩⟩
  have parsed := parseFrame_export invariant kind foreign fits
  obtain ⟨code, sender⟩ := importFrom_of_parsed parsed rfl
  refine ⟨parsed, code, sender, ?_⟩
  show (receiver.importFrom _).manager = _
  rw [importFrom_manager, parsed]
  rfl

open FleeceStateManager in
/-- A node that imports the world of another after one write holds its record. -/
theorem wire_round_trip_write :
    let goal : CString := ⟨[0x67], by decide⟩
    let value : Blob := ⟨[1], by decide⟩
    let exporter := (blank 7).after [.write (.setShared goal value)]
    ((blank 9).importFrame (GossipExport.shared.frame exporter)).2 = 0 ∧
      ((blank 9).importFrame (GossipExport.shared.frame exporter)).1 =
        ((blank 9).touchPeer exporter.nodeId).mergeRecords sharedOwnerId
          ((GossipExport.shared.entries exporter).map FieldEntry.record) ∧
      (GossipExport.shared.entries exporter).length = 1 := by
  intro goal value exporter
  obtain ⟨gossip, _⟩ := wire_round_trip (show createWithNodeId 7 = some (blank 7) from rfl)
    [.write (.setShared goal value)]
  obtain ⟨_, code, _, effect⟩ := gossip .shared (by decide +kernel) (blank 9) (by decide +kernel)
  exact ⟨code, effect, by decide +kernel⟩

end Fleece
