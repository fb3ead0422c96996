/-
This file compares the two passes of every encoder. A first loop adds up sizes, the
buffer is allocated, and a second loop writes. What is written fits the buffer
whatever the ids, the timestamps, the counts and the lengths are.
-/

import Fleece.Fetch
import Fleece.Backlog
import Fleece.PlanRoundTrip

namespace Fleece

/-- What the second pass of an encoder writes, and the bytes its first pass allocates. -/
structure EncoderBuffer where
  written : List UInt8
  allocated : Nat

/-- `send_control_ex`: `uint8_t buf[16 + FLEECE_MAX_FETCH_KEYS * 5 + 16]`. -/
def controlBuffer (nodeId : UInt64) (tag : UInt8) (hashes : List UInt32) : EncoderBuffer where
  written := controlFrame nodeId tag hashes
  allocated := 16 + maxFetchKeys * 5 + 16

/-- `fleece_goap_serialize`. -/
def GoapTables.serializeBuffer (tables : GoapTables) : EncoderBuffer where
  written := tables.written
  allocated := 3 + tables.serializeBodySize

/-- One turn of the sizing loop of `export_fields_since`. -/
def fieldSize (isSharedStream : Bool) (f : FieldEntry) : Nat :=
  arrayHeaderSize (if isSharedStream then 5 else 4) +
    (if isSharedStream then uintSize f.originNodeId else 0) + 1 +
    textSize f.name.chars.length + uintSize f.timestamp +
    bytesSize (if f.isTombstone then 0 else f.data.size)

namespace FleeceStateManager

/-- `export_fields_since`. -/
def fieldsSinceBuffer (manager : FleeceStateManager) (ownerFilter sinceTimestamp : UInt64) :
    EncoderBuffer :=
  let isSharedStream := ownerFilter == sharedOwnerId
  let hw := maxTimestamp (manager.slots.filter fun f =>
    f.slotExists && f.nodeId == ownerFilter && f.isNamed)
  let digest := manager.computeStreamDigest ownerFilter
  let exported := manager.slots.filter (isExported ownerFilter sinceTimestamp)
  { written := gossipMagic ++ writeHeader manager.nodeId ownerFilter hw digest exported.length ++
      exported.flatMap (writeRecord isSharedStream)
    allocated := 3 + (arrayHeaderSize 5 + uintSize manager.nodeId + uintSize ownerFilter +
      uintSize hw + uintSize digest + (exported.map (fieldSize isSharedStream)).sum +
      arrayHeaderSize exported.length) }

/-- `fleece_state_manager_export_shared_delta_bounded`. -/
def boundedBuffer (manager : FleeceStateManager) (sinceTimestamp : UInt64) (capBytes : Nat) :
    EncoderBuffer :=
  let packed := manager.packShared sinceTimestamp capBytes
  let marked := { manager with fields := packed.1.fields }
  let taken := ((List.finRange fieldCapacity).filter fun i =>
    (marked.fields i).slotExists && packed.1.take i).map marked.fields
  { written := gossipMagic ++
      writeHeader marked.nodeId sharedOwnerId (marked.maxTimestampForOwner sharedOwnerId)
        (marked.computeStreamDigest sharedOwnerId) packed.1.count ++
      taken.flatMap (writeRecord true)
    allocated := 3 + packed.1.body }

/-- `fleece_state_manager_export_shared_index`. -/
def indexBuffer (manager : FleeceStateManager) : EncoderBuffer :=
  let live := manager.slots.filter (isLiveNamed sharedOwnerId)
  { written := controlMagic ++ writeArrayHeader 3 ++ writeUint 1 ++ writeUint manager.nodeId ++
      writeArrayHeader live.length ++
      live.flatMap fun f =>
        writeArrayHeader 2 ++ writeUint f.key.toUInt64 ++ writeUint f.timestamp
    allocated := 3 + arrayHeaderSize 3 + 1 + uintSize manager.nodeId + arrayHeaderSize live.length +
      live.length *
        (arrayHeaderSize 2 + uintSize 0xFFFFFFFF + uintSize 0xFFFFFFFFFFFFFFFF) }

/-- `fleece_state_manager_export_shared_by_hash`, with the count header shrunk in the end. -/
def byHashBuffer (manager : FleeceStateManager) (hashes : List UInt32) : EncoderBuffer :=
  let reply := manager.selectByHash hashes
  { written := gossipMagic ++
      writeHeader manager.nodeId sharedOwnerId reply.hw
        (manager.computeStreamDigest sharedOwnerId) reply.taken.length ++
      reply.taken.flatMap fun f =>
        writeArrayHeader 5 ++ writeUint f.originNodeId ++ writeBool false ++
          writeText f.name.chars ++ writeUint f.timestamp ++ writeBytes f.data.bytes
    allocated := 3 + (reply.body - arrayHeaderSize hashes.length +
      arrayHeaderSize reply.taken.length) }

/-! ### What is written -/

theorem length_writeHeader (sender owner hw digest : UInt64) (count : Nat) :
    (writeHeader sender owner hw digest count).length =
      1 + uintSize sender + uintSize owner + uintSize hw + uintSize digest +
        arrayHeaderSize count := by
  simp only [writeHeader, List.length_append, length_writeArrayHeader, length_writeUint,
    show arrayHeaderSize 5 = 1 from rfl]

theorem length_writeRecord (isSharedStream : Bool) (f : FieldEntry) :
    (writeRecord isSharedStream f).length = fieldSize isSharedStream f := by
  have payload : (if f.isTombstone then [] else f.data.bytes).length =
      if f.isTombstone then 0 else f.data.size := by
    split_ifs <;> rfl
  cases isSharedStream <;>
    simp only [writeRecord, fieldSize, List.length_append, length_writeArrayHeader,
      length_writeUint, length_writeBool, length_writeText, length_writeBytes, payload, if_true,
      if_false, Bool.false_eq_true, List.length_nil]

theorem length_flatMap_writeRecord (isSharedStream : Bool) (entries : List FieldEntry) :
    (entries.flatMap (writeRecord isSharedStream)).length =
      (entries.map (fieldSize isSharedStream)).sum := by
  rw [List.length_flatMap]
  exact congrArg List.sum (List.map_congr_left fun f _ => length_writeRecord isSharedStream f)

theorem arrayHeaderSize_le_two {count : Nat} (few : count ≤ fieldCapacity) :
    arrayHeaderSize count ≤ 2 := by
  have small : UInt64.ofNat count ≤ 0xFF := by
    rw [UInt64.le_iff_toNat_le, UInt64.toNat_ofNat']
    exact (Nat.mod_le _ _).trans (few.trans (by decide))
  unfold arrayHeaderSize uintSize
  split_ifs <;> decide

theorem uintSize_hash_le (hash : UInt32) : uintSize hash.toUInt64 ≤ 5 := by
  have small : hash.toUInt64 ≤ 0xFFFFFFFF := by
    rw [UInt64.le_iff_toNat_le, UInt32.toNat_toUInt64]
    exact Nat.le_of_lt_succ hash.toNat_lt
  unfold uintSize
  split_ifs <;> omega

/-- The full and the delta export fill their buffer. -/
theorem length_fieldsSinceBuffer (manager : FleeceStateManager) (owner since : UInt64) :
    (manager.fieldsSinceBuffer owner since).written.length =
      (manager.fieldsSinceBuffer owner since).allocated := by
  simp only [fieldsSinceBuffer, List.length_append, length_writeHeader,
    length_flatMap_writeRecord, show gossipMagic.length = 3 from rfl,
    show arrayHeaderSize 5 = 1 from rfl]
  omega

theorem takenSlots_written (manager : FleeceStateManager) (since : UInt64) (capBytes : Nat) :
    ((List.finRange fieldCapacity).filter fun i =>
      ((manager.packShared since capBytes).1.fields i).slotExists &&
        (manager.packShared since capBytes).1.take i) = manager.takenSlots since capBytes := by
  have same := (markSteps_rest (exportSharedDeltaBounded_steps manager since capBytes)).2
  refine filter_and_take fun i exported => ?_
  obtain ⟨_, present, _⟩ := carried_of_isExported (mem_slots.mpr ⟨i, rfl⟩) exported
  exact (read_of_unmarked (same i) FieldEntry.slotExists fun _ => rfl).trans present

/-- The frame of the bounded export, byte for byte. -/
theorem length_boundedBuffer (manager : FleeceStateManager) (since : UInt64) (capBytes : Nat) :
    (manager.boundedBuffer since capBytes).written.length =
      3 + (1 + uintSize manager.nodeId + uintSize sharedOwnerId + uintSize manager.getSharedHw +
        uintSize (manager.computeStreamDigest sharedOwnerId) +
        arrayHeaderSize (manager.takenSlots since capBytes).length) +
        ((manager.takenSlots since capBytes).map fun i => recordSize (manager.fields i)).sum := by
  have same := (markSteps_rest (exportSharedDeltaBounded_steps manager since capBytes)).2
  have hw := maxTimestampForOwner_of_unmarked same sharedOwnerId
  have digest := computeStreamDigest_of_unmarked same sharedOwnerId
  have sizes : ((manager.takenSlots since capBytes).map fun i =>
      fieldSize true ((manager.packShared since capBytes).1.fields i)) =
      (manager.takenSlots since capBytes).map fun i => recordSize (manager.fields i) := by
    refine List.map_congr_left fun i _ => ?_
    exact read_of_unmarked (same i) (fieldSize true) fun _ => rfl
  unfold boundedBuffer
  simp only [List.length_append, length_writeHeader, length_flatMap_writeRecord,
    show gossipMagic.length = 3 from rfl, List.map_map, Function.comp_def]
  rw [takenSlots_written, sizes, ← length_takenSlots]
  unfold exportSharedDeltaBounded at hw digest
  simp only at hw digest
  rw [hw, digest]
  rfl

theorem body_packShared_taken (manager : FleeceStateManager) (since : UInt64) (capBytes : Nat) :
    (manager.packShared since capBytes).1.body = manager.boundedHeaderSize +
      ((manager.takenSlots since capBytes).map fun i => recordSize (manager.fields i)).sum := by
  rw [body_packShared, List.sum_toFinset _ (nodup_takenSlots manager since capBytes)]

theorem length_takenSlots_le (manager : FleeceStateManager) (since : UInt64) (capBytes : Nat) :
    (manager.takenSlots since capBytes).length ≤ fieldCapacity :=
  (List.length_filter_le _ _).trans (List.length_finRange).le

theorem length_boundedBuffer_le (manager : FleeceStateManager) (since : UInt64) (capBytes : Nat) :
    (manager.boundedBuffer since capBytes).written.length ≤
      (manager.boundedBuffer since capBytes).allocated := by
  have count := arrayHeaderSize_le_two (length_takenSlots_le manager since capBytes)
  have hw := uintSize_le manager.getSharedHw
  have digest := uintSize_le (manager.computeStreamDigest sharedOwnerId)
  rw [length_boundedBuffer]
  show _ ≤ 3 + (manager.packShared since capBytes).1.body
  rw [body_packShared_taken, boundedHeaderSize, show arrayHeaderSize 5 = 1 from rfl]
  omega

theorem length_indexBuffer_le (manager : FleeceStateManager) :
    manager.indexBuffer.written.length ≤ manager.indexBuffer.allocated := by
  have pairs (live : List FieldEntry) :
      (live.flatMap fun f => writeArrayHeader 2 ++ writeUint f.key.toUInt64 ++
        writeUint f.timestamp).length ≤ live.length * 15 := by
    induction live with
    | nil => exact Nat.zero_le _
    | cons f rest inductionHypothesis =>
      have key := uintSize_hash_le f.key
      have timestamp := uintSize_le f.timestamp
      rw [List.flatMap_cons, List.length_append, List.length_cons]
      simp only [List.length_append, length_writeArrayHeader, length_writeUint,
        show arrayHeaderSize 2 = 1 from rfl] at inductionHypothesis ⊢
      omega
  have live := pairs (manager.slots.filter (isLiveNamed sharedOwnerId))
  simp only [indexBuffer, List.length_append, length_writeArrayHeader, length_writeUint,
    show controlMagic.length = 3 from rfl, show uintSize 1 = 1 from rfl,
    show arrayHeaderSize 2 + uintSize 0xFFFFFFFF + uintSize 0xFFFFFFFFFFFFFFFF = 15 from rfl]
    at live ⊢
  omega

/-- The value reply, byte for byte. -/
theorem length_byHashBuffer (manager : FleeceStateManager) (hashes : List UInt32) :
    (manager.byHashBuffer hashes).written.length =
      3 + (1 + uintSize manager.nodeId + uintSize sharedOwnerId +
        uintSize (manager.selectByHash hashes).hw +
        uintSize (manager.computeStreamDigest sharedOwnerId) +
        arrayHeaderSize (manager.selectByHash hashes).taken.length) +
        ((manager.selectByHash hashes).taken.map answerSize).sum := by
  have records (taken : List FieldEntry) :
      (taken.flatMap fun f => writeArrayHeader 5 ++ writeUint f.originNodeId ++ writeBool false ++
        writeText f.name.chars ++ writeUint f.timestamp ++ writeBytes f.data.bytes).length =
        (taken.map answerSize).sum := by
    rw [List.length_flatMap]
    refine congrArg List.sum (List.map_congr_left fun f _ => ?_)
    simp only [List.length_append, length_writeArrayHeader, length_writeUint, length_writeBool,
      length_writeText, length_writeBytes, answerSize, Blob.size]
  unfold byHashBuffer
  simp only [List.length_append, length_writeHeader, records,
    show gossipMagic.length = 3 from rfl]

theorem length_byHashBuffer_le (manager : FleeceStateManager) (hashes : List UInt32) :
    (manager.byHashBuffer hashes).written.length ≤ (manager.byHashBuffer hashes).allocated := by
  have capped := (manager.capped_selectByHash hashes).body
  have hw := uintSize_le (manager.selectByHash hashes).hw
  rw [length_byHashBuffer]
  show _ ≤ 3 + ((manager.selectByHash hashes).body - arrayHeaderSize hashes.length +
    arrayHeaderSize (manager.selectByHash hashes).taken.length)
  rw [capped, answerHeaderSize, show arrayHeaderSize 5 = 1 from rfl]
  omega

/-! ### No sum wraps -/

theorem fieldSize_le (isSharedStream : Bool) (f : FieldEntry) :
    fieldSize isSharedStream f ≤ 2 ^ 33 := by
  have header := uintSize_le (UInt64.ofNat (if isSharedStream then 5 else 4))
  have origin := uintSize_le f.originNodeId
  have nameHead := uintSize_le (UInt64.ofNat f.name.chars.length)
  have timestamp := uintSize_le f.timestamp
  have dataHead := uintSize_le (UInt64.ofNat (if f.isTombstone then 0 else f.data.size))
  have name : f.name.chars.length < 64 := f.name.lengthLt
  have data : (if f.isTombstone then 0 else f.data.size) < 2 ^ 32 := by
    split_ifs
    · decide
    · exact f.data.sizeLt
  have author : (if isSharedStream then uintSize f.originNodeId else 0) ≤ 9 := by
    split_ifs <;> omega
  unfold fieldSize arrayHeaderSize textSize bytesSize
  omega

theorem sum_sizes_le {size : FieldEntry → Nat} (bounded : ∀ f, size f ≤ 2 ^ 33)
    {entries : List FieldEntry} (few : entries.length ≤ fieldCapacity) :
    (entries.map size).sum ≤ 2 ^ 40 := by
  have sum := List.sum_le_card_nsmul (entries.map size) (2 ^ 33) fun width member => by
    obtain ⟨f, _, rfl⟩ := List.mem_map.mp member
    exact bounded f
  rw [List.length_map, smul_eq_mul] at sum
  exact sum.trans ((Nat.mul_le_mul_right _ few).trans (by decide))

theorem answerSize_le (f : FieldEntry) : answerSize f ≤ 2 ^ 33 := by
  have origin := uintSize_le f.originNodeId
  have nameHead := uintSize_le (UInt64.ofNat f.name.chars.length)
  have timestamp := uintSize_le f.timestamp
  have dataHead := uintSize_le (UInt64.ofNat f.data.size)
  have name : f.name.chars.length < 64 := f.name.lengthLt
  have data : f.data.size < 2 ^ 32 := f.data.sizeLt
  unfold answerSize textSize bytesSize
  rw [show arrayHeaderSize 5 = 1 from rfl]
  omega

theorem length_slots_filter_le (manager : FleeceStateManager) (keep : FieldEntry → Bool) :
    (manager.slots.filter keep).length ≤ fieldCapacity :=
  (List.length_filter_le _ _).trans (List.length_ofFn).le

/-- What the exports of the store allocate is far below what `size_t` holds. -/
theorem allocated_lt (manager : FleeceStateManager) :
    (∀ owner since, (manager.fieldsSinceBuffer owner since).allocated < 2 ^ 64) ∧
      (∀ since capBytes, (manager.boundedBuffer since capBytes).allocated < 2 ^ 64) ∧
      manager.indexBuffer.allocated < 2 ^ 64 ∧
      ∀ hashes, (manager.byHashBuffer hashes).allocated < 2 ^ 64 := by
  have node := uintSize_le manager.nodeId
  have shared := uintSize_le sharedOwnerId
  refine ⟨fun owner since => ?_, fun since capBytes => ?_, ?_, fun hashes => ?_⟩
  · have few := manager.length_slots_filter_le (isExported owner since)
    have records := sum_sizes_le (fieldSize_le (owner == sharedOwnerId)) few
    have count := uintSize_le (UInt64.ofNat (manager.slots.filter (isExported owner since)).length)
    have ownerWidth := uintSize_le owner
    have hw := uintSize_le (maxTimestamp (manager.slots.filter fun f =>
      f.slotExists && f.nodeId == owner && f.isNamed))
    have digest := uintSize_le (manager.computeStreamDigest owner)
    simp only [fieldsSinceBuffer, arrayHeaderSize, show uintSize (UInt64.ofNat 5) = 1 from rfl]
    omega
  · have few : ((manager.takenSlots since capBytes).map manager.fields).length ≤
        fieldCapacity := by
      rw [List.length_map]
      exact manager.length_takenSlots_le since capBytes
    have records := sum_sizes_le (fieldSize_le true) few
    rw [List.map_map] at records
    show 3 + (manager.packShared since capBytes).1.body < _
    rw [body_packShared_taken, boundedHeaderSize, show arrayHeaderSize 5 = 1 from rfl]
    change ((manager.takenSlots since capBytes).map fun i =>
      recordSize (manager.fields i)).sum ≤ _ at records
    omega
  · have few : (manager.slots.filter (isLiveNamed sharedOwnerId)).length ≤ 128 :=
      manager.length_slots_filter_le _
    have count := arrayHeaderSize_le_two few
    simp only [indexBuffer, show arrayHeaderSize 3 = 1 from rfl,
      show arrayHeaderSize 2 + uintSize 0xFFFFFFFF + uintSize 0xFFFFFFFFFFFFFFFF = 15 from rfl]
      at few count ⊢
    omega
  · have few : (manager.selectByHash hashes).taken.length ≤ fieldCapacity := by
      have all := length_taken_foldl hashes (manager.slots.filter (isLiveNamed sharedOwnerId))
        { hw := 0
          body := arrayHeaderSize 5 + uintSize manager.nodeId + uintSize sharedOwnerId + 9 +
            uintSize (manager.computeStreamDigest sharedOwnerId) + arrayHeaderSize hashes.length
          taken := [] }
      rw [List.length_nil, Nat.zero_add] at all
      exact all.trans (manager.length_slots_filter_le _)
    have records := sum_sizes_le answerSize_le few
    have count := arrayHeaderSize_le_two few
    have digest := uintSize_le (manager.computeStreamDigest sharedOwnerId)
    have capped := (manager.capped_selectByHash hashes).body
    show 3 + ((manager.selectByHash hashes).body - arrayHeaderSize hashes.length +
      arrayHeaderSize (manager.selectByHash hashes).taken.length) < _
    rw [capped, answerHeaderSize, show arrayHeaderSize 5 = 1 from rfl]
    omega

end FleeceStateManager

theorem length_controlBuffer_le (nodeId : UInt64) (tag : UInt8) {hashes : List UInt32}
    (few : hashes.length ≤ maxFetchKeys) :
    (controlBuffer nodeId tag hashes).written.length ≤
      (controlBuffer nodeId tag hashes).allocated := by
  have records (hashes : List UInt32) :
      (hashes.flatMap fun hash => writeUint hash.toUInt64).length ≤ hashes.length * 5 := by
    induction hashes with
    | nil => exact Nat.zero_le _
    | cons hash rest inductionHypothesis =>
      have width := FleeceStateManager.uintSize_hash_le hash
      rw [List.flatMap_cons, List.length_append, List.length_cons, length_writeUint]
      omega
  have written := records hashes
  have node := uintSize_le nodeId
  have tagWidth := uintSize_le tag.toUInt64
  have count := FleeceStateManager.arrayHeaderSize_le_two
    (few.trans (show maxFetchKeys ≤ fieldCapacity by decide))
  simp only [controlBuffer, controlFrame, List.length_append, length_writeArrayHeader,
    length_writeUint, show controlMagic.length = 3 from rfl,
    show arrayHeaderSize 3 = 1 from rfl] at written ⊢
  omega

/-- No encoder writes past the buffer it has allocated, and two of them fill it. -/
theorem encoders_within_buffers (manager : FleeceStateManager) (tables : GoapTables) :
    (∀ owner since, manager.exportFieldsSince owner since =
        .ofBuffer (manager.fieldsSinceBuffer owner since).written ∧
      (manager.fieldsSinceBuffer owner since).written.length =
        (manager.fieldsSinceBuffer owner since).allocated) ∧
    (∀ since capBytes, (manager.exportSharedDeltaBounded since capBytes).frame =
        .ofBuffer (manager.boundedBuffer since capBytes).written ∧
      (manager.boundedBuffer since capBytes).written.length ≤
        (manager.boundedBuffer since capBytes).allocated) ∧
    (manager.exportSharedIndex = .ofBuffer manager.indexBuffer.written ∧
      manager.indexBuffer.written.length ≤ manager.indexBuffer.allocated) ∧
    (∀ hashes, manager.exportSharedByHash hashes =
        .ofBuffer (manager.byHashBuffer hashes).written ∧
      (manager.byHashBuffer hashes).written.length ≤ (manager.byHashBuffer hashes).allocated) ∧
    (tables.serialize = .ofBuffer tables.serializeBuffer.written ∧
      tables.serializeBuffer.written.length = tables.serializeBuffer.allocated) ∧
    (∀ nodeId tag (hashes : List UInt32), hashes.length ≤ maxFetchKeys →
      (controlBuffer nodeId tag hashes).written.length ≤
        (controlBuffer nodeId tag hashes).allocated) := by
  refine ⟨fun owner since => ⟨rfl, manager.length_fieldsSinceBuffer owner since⟩,
    fun since capBytes => ⟨rfl, manager.length_boundedBuffer_le since capBytes⟩,
    ⟨rfl, manager.length_indexBuffer_le⟩,
    fun hashes => ⟨rfl, manager.length_byHashBuffer_le hashes⟩,
    ⟨rfl, tables.length_written⟩,
    fun nodeId tag hashes few => length_controlBuffer_le nodeId tag few⟩

end Fleece
