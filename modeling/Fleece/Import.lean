/-
This file models `import_impl` of `fleece_state_manager.c`. The header is read in
the three stretches between which the source changes something a caller can see:
up to the sender id, which is then written to the out-parameter; up to the digest,
after which the sender is touched; and the record count. The record loop reads one
record, merges it, and goes on, so that a frame refused in the middle keeps the
records before the damage.

A run of the loop counts the records it starts. The count is not in the source; it
is what a bound on the work per frame is about.
-/

import Fleece.Export

namespace Fleece

/-! ### Reading -/

/-- `if (!fleece_cbor_read_head(...) || major != expected) return -1`: the argument and the
position after it. -/
def readMajor (buf : List UInt8) (size pos : Nat) (major : UInt8) :
    Except Halt (UInt64 × Nat) := do
  let head ← readHead buf size pos
  if head.major ≠ major then .error .rejected else .ok (head.value, head.pos)

/-- The magic bytes, the outer array and the sender, up to the loopback check. -/
def readSender (nodeId : UInt64) (buf : List UInt8) (size : Nat) : Except Halt (UInt64 × Nat) :=
  if size < 3 then .error .rejected
  else do
    let magic ← slice buf 0 3
    if magic ≠ gossipMagic then .error .rejected
    else
      let (arity, pos) ← readMajor buf size 3 4
      if arity ≠ 5 then .error .rejected
      else
        let (sender, pos) ← readMajor buf size pos 0
        if sender = nodeId ∨ sender = sharedOwnerId then .error .rejected
        else .ok (sender, pos)

/-- The stream owner and the advertised digest, and the position after them. -/
structure StreamHeader where
  ownerNodeId : UInt64
  digest : UInt64
  pos : Nat

/-- The owner, `hw` and the digest. -/
def readStream (nodeId : UInt64) (buf : List UInt8) (size pos : Nat) :
    Except Halt StreamHeader := do
  let (ownerNodeId, pos) ← readMajor buf size pos 0
  if ownerNodeId ≠ sharedOwnerId ∧ ownerNodeId = nodeId then .error .rejected
  else
    let (_, pos) ← readMajor buf size pos 0
    let (digest, pos) ← readMajor buf size pos 0
    .ok ⟨ownerNodeId, digest, pos⟩

/-- A record as it is handed to the merge. -/
structure GossipRecord where
  originNodeId : UInt64
  isTombstone : Bool
  name : FieldName
  timestamp : UInt64
  data : Blob
  deriving DecidableEq

/-- `char name[FLEECE_FIELD_NAME_MAX]` filled from the wire: at most 63 bytes, which end at the
first NUL among them. -/
def FieldName.ofWire (bytes : List UInt8) : FieldName where
  chars := (bytes.take (fieldNameMax - 1)).takeWhile (· ≠ 0)
  noNul := fun member => by
    have nonzero := List.mem_takeWhile_imp member
    simp at nonzero
  lengthLt := by
    refine lt_of_le_of_lt (List.takeWhile_prefix _).length_le ?_
    rw [List.length_take]
    exact lt_of_le_of_lt (min_le_left _ _) (by decide)

/-- The data of a record: `(uint32_t)value` bytes from the wire. -/
def Blob.ofWire (bytes : List UInt8) : Blob := .ofBuffer bytes

/-- The author of a record, which only the shared stream carries. -/
def readAuthor (ownerNodeId : UInt64) (buf : List UInt8) (size pos : Nat) :
    Except Halt (UInt64 × Nat) :=
  if ownerNodeId = sharedOwnerId then readMajor buf size pos 0 else .ok (ownerNodeId, pos)

/-- The fields of a record after its author. The record is `none` where the source skips it for
its empty name. -/
def readBody (originNodeId : UInt64) (buf : List UInt8) (size pos : Nat) :
    Except Halt (Option GossipRecord × Nat) := do
  let (flag, pos) ← readMajor buf size pos 7
  if flag ≠ 20 ∧ flag ≠ 21 then .error .rejected
  else
    let (nameLen, pos) ← readMajor buf size pos 3
    if !boundsOk pos nameLen size then .error .rejected
    else
      let nameBytes ← slice buf pos (min nameLen.toNat (fieldNameMax - 1))
      let (timestamp, pos) ← readMajor buf size (pos + nameLen.toNat) 0
      let (dataLen, pos) ← readMajor buf size pos 2
      if !boundsOk pos dataLen size then .error .rejected
      else
        let data ← slice buf pos dataLen.toNat
        let record : GossipRecord := {
          originNodeId := originNodeId
          isTombstone := flag == 21
          name := .ofWire nameBytes
          timestamp := timestamp
          data := if flag == 21 then .empty else .ofWire data }
        .ok (if nameBytes = [] then none else some record, pos + dataLen.toNat)

/-- The body of the record loop up to the merge. -/
def readRecord (ownerNodeId : UInt64) (buf : List UInt8) (size pos : Nat) :
    Except Halt (Option GossipRecord × Nat) := do
  let (arity, pos) ← readMajor buf size pos 4
  if arity ≠ (if ownerNodeId = sharedOwnerId then 5 else 4) then .error .rejected
  else
    let (originNodeId, pos) ← readAuthor ownerNodeId buf size pos
    readBody originNodeId buf size pos

namespace FleeceStateManager

/-! ### Merging -/

/-- The merge call at the end of the loop body; its return value is ignored. -/
def mergeRecord (ownerNodeId : UInt64) (manager : FleeceStateManager) (record : GossipRecord) :
    FleeceStateManager :=
  if ownerNodeId = sharedOwnerId then
    (manager.mergeShared record.originNodeId record.name.toCString record.data record.timestamp
      record.isTombstone).1
  else
    (manager.mergeNamed ownerNodeId record.name.toCString record.data record.timestamp
      record.isTombstone).1

/-- The record loop where it stops: the manager, the halt if there was one, and the number of
records it started. -/
structure LoopResult where
  manager : FleeceStateManager
  code : Except Halt Unit
  iterations : Nat

/-- `for (uint64_t i = 0; i < count; i++)`. -/
def importRecords (ownerNodeId : UInt64) (buf : List UInt8) (size : Nat) :
    FleeceStateManager → Nat → Nat → LoopResult
  | manager, 0, _ => ⟨manager, .ok (), 0⟩
  | manager, count + 1, pos =>
    match readRecord ownerNodeId buf size pos with
    | .error halt => ⟨manager, .error halt, 1⟩
    | .ok (record, pos) =>
      let merged := record.elim manager (manager.mergeRecord ownerNodeId)
      let rest := importRecords ownerNodeId buf size merged count pos
      { rest with iterations := rest.iterations + 1 }

/-- The outcome of an import: the manager, the halt if there was one (`return -1`), the
out-parameters that were written, and the records started. -/
structure ImportResult where
  manager : FleeceStateManager
  code : Except Halt Unit
  senderNodeId : Option UInt64
  behindSelf : Option Bool
  behindShared : Option Bool
  iterations : Nat

/-- An import that stops before its record loop. -/
def refused (manager : FleeceStateManager) (halt : Halt) (senderNodeId : Option UInt64) :
    ImportResult :=
  ⟨manager, .error halt, senderNodeId, none, none, 0⟩

/-- The record loop and the gap detection after it. -/
def importStream (manager : FleeceStateManager) (buf : List UInt8) (size : Nat) (sender : UInt64)
    (stream : StreamHeader) (count : UInt64) (pos : Nat) : ImportResult :=
  let run := importRecords stream.ownerNodeId buf size manager count.toNat pos
  match run.code with
  | .error halt => ⟨run.manager, .error halt, some sender, none, none, run.iterations⟩
  | .ok () =>
    let isSharedStream := stream.ownerNodeId == sharedOwnerId
    let behind := run.manager.computeStreamDigest stream.ownerNodeId != stream.digest
    { manager := run.manager
      code := .ok ()
      senderNodeId := some sender
      behindSelf := some (!isSharedStream && behind)
      behindShared := some (isSharedStream && behind)
      iterations := run.iterations }

/-- `import_impl`: the sender, the header of the stream, then its records one by one. -/
def importImpl (manager : FleeceStateManager) (buf : List UInt8) (size : Nat) : ImportResult :=
  match readSender manager.nodeId buf size with
  | .error halt => manager.refused halt none
  | .ok (sender, pos) =>
    match readStream manager.nodeId buf size pos with
    | .error halt => manager.refused halt (some sender)
    | .ok stream =>
      let touched := manager.touchPeer sender
      match readMajor buf size stream.pos 4 with
      | .error halt => touched.refused halt (some sender)
      | .ok (count, pos) => touched.importStream buf size sender stream count pos

/-- `import`, `import_ex` and `import_from` differ in the out-parameters they pass. -/
def importFrom (manager : FleeceStateManager) (frame : Blob) : ImportResult :=
  manager.importImpl frame.bytes frame.size

/-- `fleece_state_manager_import`. -/
def importFrame (manager : FleeceStateManager) (frame : Blob) : FleeceStateManager × Int :=
  let result := manager.importFrom frame
  (result.manager, match result.code with
    | .ok () => 0
    | .error _ => -1)

end FleeceStateManager

end Fleece
