/-
This file models the serialisers of `fleece_state_manager.c`: the stream digest,
the full and delta exports of one stream, the bounded delta export with its
sorting, packing and watermark clamp, the stream index and the value reply.

Every exporter writes its own bytes, as in the source, although their records
have one shape. A frame is handed over with the 32-bit size the source returns,
so a buffer of 2^32 bytes or more is cut there.
-/

import Fleece.StateManager

namespace Fleece

/-! ### Stream digests -/

/-- `fnv64_mix`. -/
def fnv64Mix (hash : UInt64) (bytes : List UInt8) : UInt64 :=
  bytes.foldl (fun hash byte => (hash ^^^ byte.toUInt64) * 0x100000001b3) hash

/-- Fixed-width little-endian mix of a word. -/
def fnv64MixUint (hash value : UInt64) : UInt64 :=
  fnv64Mix hash ((List.range 8).map fun i => (value >>> UInt64.ofNat (8 * i)).toUInt8)

/-- The hash of one entry: name, separator, author, timestamp, size and payload. -/
def entryDigest (f : FieldEntry) : UInt64 :=
  let named := fnv64Mix 0xcbf29ce484222325 f.name.chars
  let separated := fnv64Mix named [0xFF]
  let authored := fnv64MixUint separated f.originNodeId
  let stamped := fnv64MixUint authored f.timestamp
  let sized := fnv64MixUint stamped (UInt64.ofNat f.data.size)
  fnv64Mix sized f.data.bytes

namespace FleeceStateManager

/-- `compute_stream_digest`: the sum over the live named entries, in which no order counts. -/
def computeStreamDigest (manager : FleeceStateManager) (ownerNodeId : UInt64) : UInt64 :=
  ((manager.slots.filter (isLiveNamed ownerNodeId)).map entryDigest).sum

end FleeceStateManager

/-- The loop `if (f->timestamp > hw) hw = f->timestamp`. -/
def maxTimestamp (fields : List FieldEntry) : UInt64 :=
  fields.foldl (fun hw f => if f.timestamp > hw then f.timestamp else hw) 0

namespace FleeceStateManager

/-- `max_timestamp_for_owner`, over tombstones and unnamed entries too. -/
def maxTimestampForOwner (manager : FleeceStateManager) (ownerNodeId : UInt64) : UInt64 :=
  maxTimestamp (manager.slots.filter fun f => f.slotExists && f.nodeId == ownerNodeId)

/-- `fleece_state_manager_get_self_hw`. -/
def getSelfHw (manager : FleeceStateManager) : UInt64 :=
  manager.maxTimestampForOwner manager.nodeId

/-- `fleece_state_manager_get_shared_hw`. -/
def getSharedHw (manager : FleeceStateManager) : UInt64 :=
  manager.maxTimestampForOwner sharedOwnerId

/-- `fleece_state_manager_get_peer_self_hw`, which is 0 for the shared stream. -/
def getPeerSelfHw (manager : FleeceStateManager) (peerId : UInt64) : UInt64 :=
  if peerId = sharedOwnerId then 0 else manager.maxTimestampForOwner peerId

end FleeceStateManager

/-! ### Frames -/

/-- The buffer a serialiser filled, with the size `(uint32_t)pos` it reports. -/
def Blob.ofBuffer (buf : List UInt8) : Blob where
  bytes := buf.take (buf.length % 2 ^ 32)
  sizeLt := by
    rw [List.length_take]
    exact lt_of_le_of_lt (min_le_left _ _) (Nat.mod_lt _ (by decide))

/-- The prefix of a gossip frame: `'F'`, `'G'` and `FLEECE_GOSSIP_VERSION`. -/
def gossipMagic : List UInt8 := [0x46, 0x47, 5]

/-- The prefix of a control frame: `'F'`, `'X'` and `FLEECE_CONTROL_VERSION`. -/
def controlMagic : List UInt8 := [0x46, 0x58, 2]

/-- The header `[sender, owner, hw, digest, [records]]` up to the record count. -/
def writeHeader (sender ownerNodeId hw digest : UInt64) (count : Nat) : List UInt8 :=
  writeArrayHeader 5 ++ writeUint sender ++ writeUint ownerNodeId ++ writeUint hw ++
    writeUint digest ++ writeArrayHeader count

/-- One record; the author is written for the shared stream only. -/
def writeRecord (isSharedStream : Bool) (f : FieldEntry) : List UInt8 :=
  writeArrayHeader (if isSharedStream then 5 else 4) ++
    (if isSharedStream then writeUint f.originNodeId else []) ++
    writeBool f.isTombstone ++ writeText f.name.chars ++ writeUint f.timestamp ++
    writeBytes (if f.isTombstone then [] else f.data.bytes)

/-- The size of one shared record, as the bounded exporters measure it. -/
def recordSize (f : FieldEntry) : Nat :=
  arrayHeaderSize 5 + uintSize f.originNodeId + 1 + textSize f.name.chars.length +
    uintSize f.timestamp + bytesSize (if f.isTombstone then 0 else f.data.size)

namespace FleeceStateManager

/-! ### Full and delta exports -/

/-- The entries of one stream an export since `sinceTimestamp` carries. -/
def isExported (ownerFilter sinceTimestamp : UInt64) (f : FieldEntry) : Bool :=
  f.slotExists && f.nodeId == ownerFilter && f.isNamed && !decide (f.timestamp ≤ sinceTimestamp)

/-- `export_fields_since`: a header, and the records of one stream after a timestamp. -/
def exportFieldsSince (manager : FleeceStateManager) (ownerFilter sinceTimestamp : UInt64) :
    Blob :=
  let isSharedStream := ownerFilter == sharedOwnerId
  let hw := maxTimestamp (manager.slots.filter fun f =>
    f.slotExists && f.nodeId == ownerFilter && f.isNamed)
  let digest := manager.computeStreamDigest ownerFilter
  let exported := manager.slots.filter (isExported ownerFilter sinceTimestamp)
  .ofBuffer (gossipMagic ++ writeHeader manager.nodeId ownerFilter hw digest exported.length ++
    exported.flatMap (writeRecord isSharedStream))

/-- `fleece_state_manager_export`. -/
def exportFrame (manager : FleeceStateManager) : Blob :=
  manager.exportFieldsSince manager.nodeId 0

/-- `fleece_state_manager_export_delta`. -/
def exportDelta (manager : FleeceStateManager) (sinceTimestamp : UInt64) : Blob :=
  manager.exportFieldsSince manager.nodeId sinceTimestamp

/-- `fleece_state_manager_export_shared`. -/
def exportShared (manager : FleeceStateManager) : Blob :=
  manager.exportFieldsSince sharedOwnerId 0

/-- `fleece_state_manager_export_shared_delta`. -/
def exportSharedDelta (manager : FleeceStateManager) (sinceTimestamp : UInt64) : Blob :=
  manager.exportFieldsSince sharedOwnerId sinceTimestamp

/-- `fleece_state_manager_count_new_shared`. -/
def countNewShared (manager : FleeceStateManager) (sinceTimestamp : UInt64) : Nat :=
  (manager.slots.filter (isExported sharedOwnerId sinceTimestamp)).length

end FleeceStateManager

/-! ### The bounded delta export -/

/-- One row of the three parallel arrays `eligible`, `eligible_export_ts` and `eligible_ts`. -/
structure Eligible where
  index : Fin fieldCapacity
  exportTs : UInt64
  timestamp : UInt64
  deriving DecidableEq

/-- The comparison of the insertion sort: `first` sorts after `second`. -/
def Eligible.after (first second : Eligible) : Bool :=
  decide (first.exportTs > second.exportTs) ||
    (first.exportTs == second.exportTs && decide (first.timestamp > second.timestamp))

/-- The inner `while` loop of the sort. The sorted prefix is held right to left, so that its
head is `eligible[b - 1]`. -/
def insertSorted (entry : Eligible) : List Eligible → List Eligible
  | [] => [entry]
  | last :: before =>
    if last.after entry then last :: insertSorted entry before else entry :: last :: before

/-- The insertion sort by `(last_export_ts, timestamp)` ascending. -/
def sortEligible (eligible : List Eligible) : List Eligible :=
  (eligible.foldl (fun sorted entry => insertSorted entry sorted) []).reverse

/-- The state of the packing loop. -/
structure Packing where
  fields : Fin fieldCapacity → FieldEntry
  take : Fin fieldCapacity → Bool
  count : Nat
  body : Nat
  maxTs : UInt64

/-- The record of a row is taken, and its slot marked with the clock. -/
def Packing.push (clock : UInt64) (state : Packing) (entry : Eligible) : Packing :=
  let f := state.fields entry.index
  { fields := Function.update state.fields entry.index { f with lastExportTs := clock }
    take := Function.update state.take entry.index true
    count := state.count + 1
    body := state.body + recordSize f
    maxTs := if f.timestamp > state.maxTs then f.timestamp else state.maxTs }

/-- The packing loop: it returns its final state and the rows from `stop_e` on. -/
def pack (clock : UInt64) (capBytes : Nat) : Packing → List Eligible → Packing × List Eligible
  | state, [] => (state, [])
  | state, entry :: rest =>
    if state.count > 0 ∧ state.body + recordSize (state.fields entry.index) > capBytes then
      (state, entry :: rest)
    else pack clock capBytes (state.push clock entry) rest

/-- The loop that finds `leftover_min_ts`, from `UINT64_MAX` down. -/
def leftoverMinTs (leftover : List Eligible) : UInt64 :=
  leftover.foldl (fun least entry => if entry.timestamp < least then entry.timestamp else least)
    0xFFFFFFFFFFFFFFFF

/-- The watermark reported to the caller, kept below every record left over. -/
def clampWatermark (maxTs : UInt64) (leftover : List Eligible) : UInt64 :=
  if leftoverMinTs leftover ≠ 0xFFFFFFFFFFFFFFFF ∧ leftoverMinTs leftover - 1 < maxTs then
    leftoverMinTs leftover - 1
  else maxTs

/-- What `export_shared_delta_bounded` returns, with the manager it leaves behind. -/
structure BoundedExport where
  manager : FleeceStateManager
  frame : Blob
  includedMaxTs : UInt64

namespace FleeceStateManager

/-- The collection loop, in slot order. -/
def collectEligible (manager : FleeceStateManager) (sinceTimestamp : UInt64) : List Eligible :=
  ((List.finRange fieldCapacity).filter fun i =>
      isExported sharedOwnerId sinceTimestamp (manager.fields i)).map fun i =>
    ⟨i, (manager.fields i).lastExportTs, (manager.fields i).timestamp⟩

/-- The header budget of the bounded export: `hw` and the digest at nine bytes, the count at
three. -/
def boundedHeaderSize (manager : FleeceStateManager) : Nat :=
  arrayHeaderSize 5 + uintSize manager.nodeId + uintSize sharedOwnerId + 9 + 9 + 3

/-- The packing loop before its first turn. -/
def startPacking (manager : FleeceStateManager) : Packing where
  fields := manager.fields
  take := fun _ => false
  count := 0
  body := manager.boundedHeaderSize
  maxTs := 0

/-- The packing loop run on the sorted eligible records. -/
def packShared (manager : FleeceStateManager) (sinceTimestamp : UInt64) (capBytes : Nat) :
    Packing × List Eligible :=
  pack manager.localTimestamp capBytes manager.startPacking
    (sortEligible (manager.collectEligible sinceTimestamp))

/-- `fleece_state_manager_export_shared_delta_bounded`: the frame, the marked slots and the clamped
watermark. -/
def exportSharedDeltaBounded (manager : FleeceStateManager) (sinceTimestamp : UInt64)
    (capBytes : Nat) : BoundedExport :=
  let packed := manager.packShared sinceTimestamp capBytes
  let marked := { manager with fields := packed.1.fields }
  let taken := ((List.finRange fieldCapacity).filter fun i =>
    (marked.fields i).slotExists && packed.1.take i).map marked.fields
  { manager := marked
    frame := .ofBuffer (gossipMagic ++
      writeHeader marked.nodeId sharedOwnerId (marked.maxTimestampForOwner sharedOwnerId)
        (marked.computeStreamDigest sharedOwnerId) packed.1.count ++
      taken.flatMap (writeRecord true))
    includedMaxTs := clampWatermark packed.1.maxTs packed.2 }

/-! ### The stream index and the value reply -/

/-- `fleece_state_manager_export_shared_index`: the hash and the timestamp of each live entry. -/
def exportSharedIndex (manager : FleeceStateManager) : Blob :=
  let live := manager.slots.filter (isLiveNamed sharedOwnerId)
  .ofBuffer (controlMagic ++ writeArrayHeader 3 ++ writeUint 1 ++ writeUint manager.nodeId ++
    writeArrayHeader live.length ++
    live.flatMap fun f =>
      writeArrayHeader 2 ++ writeUint f.key.toUInt64 ++ writeUint f.timestamp)

/-- The state of the first pass of `export_shared_by_hash`. -/
structure ValueReply where
  hw : UInt64
  body : Nat
  taken : List FieldEntry

/-- One turn of the first pass, over the live shared entries. -/
def takeByHash (hashes : List UInt32) (reply : ValueReply) (f : FieldEntry) : ValueReply :=
  let hw := if f.timestamp > reply.hw then f.timestamp else reply.hw
  if !hashes.contains f.key then { reply with hw := hw }
  else
    let record := arrayHeaderSize 5 + uintSize f.originNodeId + 1 +
      textSize f.name.chars.length + uintSize f.timestamp + bytesSize f.data.size
    if reply.taken.length > 0 ∧ reply.body + record > 320 then { reply with hw := hw }
    else ⟨hw, reply.body + record, reply.taken ++ [f]⟩

/-- The first pass of `export_shared_by_hash`, with its 320-byte cap. -/
def selectByHash (manager : FleeceStateManager) (hashes : List UInt32) : ValueReply :=
  (manager.slots.filter (isLiveNamed sharedOwnerId)).foldl (takeByHash hashes)
    { hw := 0
      body := arrayHeaderSize 5 + uintSize manager.nodeId + uintSize sharedOwnerId + 9 +
        uintSize (manager.computeStreamDigest sharedOwnerId) + arrayHeaderSize hashes.length
      taken := [] }

/-- `fleece_state_manager_export_shared_by_hash`: the entries that were asked for, as far as they
fit. -/
def exportSharedByHash (manager : FleeceStateManager) (hashes : List UInt32) : Blob :=
  let reply := manager.selectByHash hashes
  .ofBuffer (gossipMagic ++
    writeHeader manager.nodeId sharedOwnerId reply.hw (manager.computeStreamDigest sharedOwnerId)
      reply.taken.length ++
    reply.taken.flatMap fun f =>
      writeArrayHeader 5 ++ writeUint f.originNodeId ++ writeBool false ++
        writeText f.name.chars ++ writeUint f.timestamp ++ writeBytes f.data.bytes)

end FleeceStateManager

end Fleece
