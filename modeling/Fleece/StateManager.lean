/-
This file models the store of `fleece_state_manager.c`: the slot array, the peer
table and every local operation on them, from `hash_name` to
`ticks_since_last_write`. Serialisation is in `Fleece/Export.lean` and
`Fleece/Import.lean`.

The slot array is a function of the slot index, as the source addresses it: a
slot past `field_count` still exists in memory, and lookups scan all of it.
Allocation is taken to succeed, and a pointer argument is taken to be non-NULL;
the source answers a NULL argument with `-1` before it touches the manager.
A definition carries the name of the source function it models, without the
`fleece_state_manager_` prefix; a function that returns a code returns it beside
the manager.
-/

import Fleece.Cbor
import Fleece.Slots

namespace Fleece

/-! ### Buffers and strings -/

/-- `FIELD_CAPACITY`, which every creation sets as `field_capacity`. -/
abbrev fieldCapacity : Nat := 128

/-- `FLEECE_MAX_TRACKED_PEERS`. -/
abbrev maxTrackedPeers : Nat := 32

/-- `FLEECE_FIELD_NAME_MAX`: a stored name has at most 63 bytes and its terminator. -/
abbrev fieldNameMax : Nat := 64

/-- `FLEECE_SHARED_OWNER_ID`, the owner of the shared stream. No node has this id. -/
abbrev sharedOwnerId : UInt64 := 0

/-- A buffer passed as a pointer and a `uint32_t` size. -/
structure Blob where
  bytes : List UInt8
  sizeLt : bytes.length < 2 ^ 32
  deriving DecidableEq

/-- The `size` that travels with the pointer. -/
def Blob.size (blob : Blob) : Nat := blob.bytes.length

/-- The NULL buffer of size zero. -/
def Blob.empty : Blob := ⟨[], by decide⟩

/-- A NUL-terminated string, without its terminator. -/
structure CString where
  chars : List UInt8
  noNul : 0 ∉ chars
  deriving DecidableEq

/-- The contents of a `char name[FLEECE_FIELD_NAME_MAX]` up to its terminator. -/
structure FieldName extends CString where
  lengthLt : chars.length < fieldNameMax
  deriving DecidableEq

/-- The empty name of a slot written through the raw-key interface. -/
def FieldName.empty : FieldName := ⟨⟨[], by decide⟩, by decide⟩

/-- `strncpy(field->name, name, FLEECE_FIELD_NAME_MAX - 1)` and the terminator after it. -/
def FieldName.copy (name : CString) : FieldName where
  chars := name.chars.take (fieldNameMax - 1)
  noNul := fun member => name.noNul (List.mem_of_mem_take member)
  lengthLt := by
    rw [List.length_take]
    exact lt_of_le_of_lt (min_le_left _ _) (by decide)

/-- `hash_name`: 32-bit FNV-1a. -/
def hashName (name : CString) : UInt32 :=
  name.chars.foldl (fun hash char => (hash ^^^ char.toUInt32) * 16777619) 2166136261

/-! ### The data model -/

/-- `struct FieldEntry`. The size of the value is the size of `data`. -/
structure FieldEntry where
  key : UInt32
  data : Blob
  timestamp : UInt64
  nodeId : UInt64
  originNodeId : UInt64
  name : FieldName
  slotExists : Bool
  isTombstone : Bool
  lastExportTs : UInt64
  deriving DecidableEq

/-- A slot as `calloc` and `memset` leave it. -/
def FieldEntry.zero : FieldEntry where
  key := 0
  data := .empty
  timestamp := 0
  nodeId := 0
  originNodeId := 0
  name := .empty
  slotExists := false
  isTombstone := false
  lastExportTs := 0

/-- `name[0] != '\0'`. -/
def FieldEntry.isNamed (field : FieldEntry) : Bool := !field.name.chars.isEmpty

/-- `struct PeerSeen`: a node that was heard, and the tick at which it was heard last. -/
structure PeerSeen where
  nodeId : UInt64
  lastSeenTick : UInt64
  slotExists : Bool
  deriving DecidableEq

/-- `struct FleeceStateManager`: the slots, the clock of the node and the peers it has heard. -/
structure FleeceStateManager where
  fields : Fin fieldCapacity → FieldEntry
  fieldCount : Nat
  localTimestamp : UInt64
  nodeId : UInt64
  currentTick : UInt64
  lastWriteTick : UInt64
  peersSeen : Fin maxTrackedPeers → PeerSeen

/-- `FleeceFieldVersion`: what `get_version` reports of a live field. -/
structure FleeceFieldVersion where
  timestamp : UInt64
  nodeId : UInt64
  size : Nat
  deriving DecidableEq

namespace FleeceStateManager

/-- A manager as the allocation and the assignments of `create_with_node_id` leave it. -/
def blank (nodeId : UInt64) : FleeceStateManager where
  fields := fun _ => .zero
  fieldCount := 0
  localTimestamp := 0
  nodeId := nodeId
  currentTick := 0
  lastWriteTick := 0xFFFFFFFFFFFFFFFF
  peersSeen := fun _ => ⟨0, 0, false⟩

/-- `fleece_state_manager_create_with_node_id`, which refuses the id of the shared stream. -/
def createWithNodeId (nodeId : UInt64) : Option FleeceStateManager :=
  if nodeId = sharedOwnerId then none else some (blank nodeId)

/-- `fleece_state_manager_create`, with the id that the source uses by default. -/
def create : Option FleeceStateManager := createWithNodeId 0x123456789ABCDEF0

/-- The slots in array order, as every `for (i = 0; i < field_capacity; i++)` visits them. -/
def slots (manager : FleeceStateManager) : List FieldEntry := List.ofFn manager.fields

/-! ### Peer liveness -/

/-- `touch_peer`: the entry of the peer, or a free one, is stamped with the current tick; a full
table notes nothing. -/
def touchPeer (manager : FleeceStateManager) (nodeId : UInt64) : FleeceStateManager :=
  if nodeId = manager.nodeId then manager
  else if nodeId = sharedOwnerId then manager
  else match Fin.find? fun i =>
      (manager.peersSeen i).slotExists && (manager.peersSeen i).nodeId == nodeId with
  | some i =>
    { manager with
      peersSeen := Function.update manager.peersSeen i
        { manager.peersSeen i with lastSeenTick := manager.currentTick } }
  | none => match Fin.find? fun i => !(manager.peersSeen i).slotExists with
    | some i =>
      { manager with
        peersSeen := Function.update manager.peersSeen i ⟨nodeId, manager.currentTick, true⟩ }
    -- the table is full
    | none => manager

/-- `fleece_state_manager_tick`. -/
def tick (manager : FleeceStateManager) : FleeceStateManager :=
  { manager with currentTick := manager.currentTick + 1 }

/-- `fleece_state_manager_ticks_since_seen`: the largest value for a node never heard. -/
def ticksSinceSeen (manager : FleeceStateManager) (nodeId : UInt64) : UInt64 :=
  match Fin.find? fun i =>
      (manager.peersSeen i).slotExists && (manager.peersSeen i).nodeId == nodeId with
  | some i => manager.currentTick - (manager.peersSeen i).lastSeenTick
  | none => 0xFFFFFFFFFFFFFFFF

/-! ### Slot lookup and insertion -/

/-- `find_slot_owned`: the first existing slot of the pair, live or a tombstone. -/
def findSlotOwned (manager : FleeceStateManager) (key : UInt32) (ownerNodeId : UInt64) :
    Option (Fin fieldCapacity) :=
  Fin.find? fun i => (manager.fields i).slotExists && (manager.fields i).key == key &&
    (manager.fields i).nodeId == ownerNodeId

/-- `find_field_owned`: the slot of the pair, if it is live. -/
def findFieldOwned (manager : FleeceStateManager) (key : UInt32) (ownerNodeId : UInt64) :
    Option (Fin fieldCapacity) :=
  (manager.findSlotOwned key ownerNodeId).filter fun i => !(manager.fields i).isTombstone

/-- `find_field`: the live slot of one of the node's own fields. -/
def findField (manager : FleeceStateManager) (key : UInt32) : Option (Fin fieldCapacity) :=
  manager.findFieldOwned key manager.nodeId

/-- What `upsert_field` stores in the slot it found or took; `name` is NULL for the raw-key
interface, which leaves the name of the slot alone. -/
def overwrite (field : FieldEntry) (ownerNodeId originNodeId : UInt64) (name : Option CString)
    (data : Blob) (timestamp : UInt64) (isTombstone : Bool) : FieldEntry :=
  { field with
    data := if isTombstone then .empty else data
    timestamp := timestamp
    nodeId := ownerNodeId
    originNodeId := originNodeId
    isTombstone := isTombstone
    name := match name with
      | some name => FieldName.copy name
      | none => field.name }

/-- `upsert_field`. A new slot is taken at `field_count` and keeps whatever `last_export_ts`
the memory there holds. -/
def upsertField (manager : FleeceStateManager) (key : UInt32) (ownerNodeId originNodeId : UInt64)
    (name : Option CString) (data : Blob) (timestamp : UInt64) (isTombstone : Bool) :
    FleeceStateManager × Int :=
  match manager.findSlotOwned key ownerNodeId with
  | some i =>
    ({ manager with
        fields := Function.update manager.fields i
          (overwrite (manager.fields i) ownerNodeId originNodeId name data timestamp isTombstone) },
      0)
  | none =>
    if room : manager.fieldCount < fieldCapacity then
      let field := { manager.fields ⟨manager.fieldCount, room⟩ with
        key := key, slotExists := true, name := .empty }
      ({ manager with
          fields := Function.update manager.fields ⟨manager.fieldCount, room⟩
            (overwrite field ownerNodeId originNodeId name data timestamp isTombstone)
          fieldCount := manager.fieldCount + 1 },
        0)
    else (manager, -1)

/-- `++manager->local_timestamp`. -/
def advanceClock (manager : FleeceStateManager) : FleeceStateManager :=
  { manager with localTimestamp := manager.localTimestamp + 1 }

/-! ### Raw-key fields -/

/-- `fleece_state_manager_set`, which writes under a raw key and keeps no name. -/
def set (manager : FleeceStateManager) (key : UInt32) (data : Blob) : FleeceStateManager × Int :=
  if data.size = 0 then (manager, -1)
  else manager.advanceClock.upsertField key manager.nodeId manager.nodeId none data
    (manager.localTimestamp + 1) false

/-- The value at a slot that was found, or the `-1` of a lookup that failed. -/
def readSlot (manager : FleeceStateManager) (found : Option (Fin fieldCapacity)) : Option Blob :=
  found.map fun i => (manager.fields i).data

/-- `fleece_state_manager_get`. -/
def get (manager : FleeceStateManager) (key : UInt32) : Option Blob :=
  manager.readSlot (manager.findField key)

/-- `fleece_state_manager_exists`. -/
def existsField (manager : FleeceStateManager) (key : UInt32) : Bool :=
  (manager.findField key).isSome

/-- The common body of `remove` and `remove_named`: the slot becomes a tombstone stamped with a
fresh clock tick. -/
def entomb (manager : FleeceStateManager) (found : Option (Fin fieldCapacity)) :
    FleeceStateManager × Int :=
  match found with
  | none => (manager, -1)
  | some i =>
    ({ manager.advanceClock with
        fields := Function.update manager.fields i
          { manager.fields i with
            data := .empty
            timestamp := manager.localTimestamp + 1
            isTombstone := true } },
      0)

/-- `fleece_state_manager_remove`. -/
def remove (manager : FleeceStateManager) (key : UInt32) : FleeceStateManager × Int :=
  manager.entomb (manager.findField key)

/-- The slots `compact` keeps: live entries of any kind, and named tombstones. -/
def keptByCompact (field : FieldEntry) : Bool :=
  field.slotExists && (!field.isTombstone || field.isNamed)

/-- The slots that are kept move down to the front; `field_count` becomes their number. -/
def compact (manager : FleeceStateManager) : FleeceStateManager :=
  { manager with
    fields := (Slots.retain keptByCompact .zero manager.fields).1
    fieldCount := (Slots.retain keptByCompact .zero manager.fields).2 }

/-- `fleece_state_manager_get_version`. -/
def getVersion (manager : FleeceStateManager) (key : UInt32) : Option FleeceFieldVersion :=
  (manager.findField key).map fun i =>
    ⟨(manager.fields i).timestamp, (manager.fields i).nodeId, (manager.fields i).data.size⟩

/-! ### Named, owner-scoped fields -/

/-- `fleece_state_manager_set_named`: a write to the node's own stream. -/
def setNamed (manager : FleeceStateManager) (name : CString) (data : Blob) :
    FleeceStateManager × Int :=
  if name.chars.isEmpty || data.size == 0 then (manager, -1)
  else manager.advanceClock.upsertField (hashName name) manager.nodeId manager.nodeId (some name)
    data (manager.localTimestamp + 1) false

/-- `fleece_state_manager_remove_named`. -/
def removeNamed (manager : FleeceStateManager) (name : CString) : FleeceStateManager × Int :=
  manager.entomb (manager.findFieldOwned (hashName name) manager.nodeId)

/-- `fleece_state_manager_get_named`. -/
def getNamed (manager : FleeceStateManager) (ownerNodeId : UInt64) (name : CString) :
    Option Blob :=
  manager.readSlot (manager.findFieldOwned (hashName name) ownerNodeId)

/-- `fleece_state_manager_exists_named`. -/
def existsNamed (manager : FleeceStateManager) (ownerNodeId : UInt64) (name : CString) : Bool :=
  (manager.findFieldOwned (hashName name) ownerNodeId).isSome

/-- `fleece_state_manager_get_meta_named`: the return code, the timestamp and the origin. -/
def getMetaNamed (manager : FleeceStateManager) (ownerNodeId : UInt64) (name : CString) :
    Int × UInt64 × UInt64 :=
  match manager.findFieldOwned (hashName name) ownerNodeId with
  | none => (-1, 0, 0)
  | some i => (0, (manager.fields i).timestamp, (manager.fields i).originNodeId)

/-! ### Shared fields -/

/-- `manager->last_write_tick = manager->current_tick`. -/
def noteWrite (manager : FleeceStateManager) : FleeceStateManager :=
  { manager with lastWriteTick := manager.currentTick }

/-- `fleece_state_manager_set_shared`: owned by the shared stream, authored by the node. -/
def setShared (manager : FleeceStateManager) (name : CString) (data : Blob) :
    FleeceStateManager × Int :=
  if name.chars.isEmpty || data.size == 0 then (manager, -1)
  else manager.noteWrite.advanceClock.upsertField (hashName name) sharedOwnerId manager.nodeId
    (some name) data (manager.localTimestamp + 1) false

/-- `fleece_state_manager_remove_shared`: unlike the self-stream deletes, the tombstone also
takes this node as its author. -/
def removeShared (manager : FleeceStateManager) (name : CString) : FleeceStateManager × Int :=
  match manager.findFieldOwned (hashName name) sharedOwnerId with
  | none => (manager, -1)
  | some i =>
    ({ manager.advanceClock.noteWrite with
        fields := Function.update manager.fields i
          { manager.fields i with
            data := .empty
            timestamp := manager.localTimestamp + 1
            originNodeId := manager.nodeId
            isTombstone := true } },
      0)

/-- The comparison of `set_shared_cas`: `expected` is NULL to require an absent field. -/
def casMatches (manager : FleeceStateManager) (name : CString) (expected : Option Blob) : Bool :=
  match expected, manager.findFieldOwned (hashName name) sharedOwnerId with
  | none, none => true
  | none, some _ => false
  | some _, none => false
  | some expected, some i => decide ((manager.fields i).data = expected)

/-- `fleece_state_manager_set_shared_cas`: the result is 1 where the value differs from the expected
one. -/
def setSharedCas (manager : FleeceStateManager) (name : CString) (expected : Option Blob)
    (data : Blob) : FleeceStateManager × Int :=
  if name.chars.isEmpty || data.size == 0 then (manager, -1)
  else if manager.casMatches name expected then
    let stored := manager.advanceClock.upsertField (hashName name) sharedOwnerId manager.nodeId
      (some name) data (manager.localTimestamp + 1) false
    if stored.2 ≠ 0 then (stored.1, -1) else (stored.1.noteWrite, 0)
  else (manager, 1)

/-! ### Listings -/

/-- `fleece_state_manager_list_nodes`: the owners of live fields, each one once, without the shared
stream. -/
def listNodes (manager : FleeceStateManager) (maxNodes : Nat) : List UInt64 :=
  manager.slots.foldl (fun out f =>
    if out.length < maxNodes && f.slotExists && !f.isTombstone && f.nodeId != sharedOwnerId &&
        !out.contains f.nodeId then
      out ++ [f.nodeId]
    else out) []

/-- `fleece_state_manager_list_heard_peers`, in the order of the table. -/
def listHeardPeers (manager : FleeceStateManager) (maxNodes : Nat) : List UInt64 :=
  (((List.ofFn manager.peersSeen).filter fun p => p.slotExists && p.nodeId != manager.nodeId &&
    p.nodeId != sharedOwnerId).map PeerSeen.nodeId).take maxNodes

/-- The live named entries of one owner, which listings, digests and the index run over. -/
def isLiveNamed (ownerNodeId : UInt64) (f : FieldEntry) : Bool :=
  f.slotExists && !f.isTombstone && f.nodeId == ownerNodeId && f.isNamed

/-- `fleece_state_manager_list_fields`: the names of the live named entries of one owner. -/
def listFields (manager : FleeceStateManager) (ownerNodeId : UInt64) (maxNames : Nat) :
    List FieldName :=
  ((manager.slots.filter (isLiveNamed ownerNodeId)).map FieldEntry.name).take maxNames

/-! ### Merging a peer's record -/

/-- `manager->local_timestamp = max(local, remote)`. -/
def raiseClock (manager : FleeceStateManager) (remoteTimestamp : UInt64) : FleeceStateManager :=
  { manager with localTimestamp :=
      if manager.localTimestamp > remoteTimestamp then manager.localTimestamp
      else remoteTimestamp }

/-- The argument checks both merges make: a non-empty name, and data unless the record is a
tombstone. -/
def mergeable (name : CString) (data : Blob) (isTombstone : Bool) : Bool :=
  !name.chars.isEmpty && (isTombstone || data.size != 0)

/-- `fleece_state_manager_merge_named`: a record of a peer's own stream, taken where it is newer
than the stored one. -/
def mergeNamed (manager : FleeceStateManager) (ownerNodeId : UInt64) (name : CString)
    (data : Blob) (remoteTimestamp : UInt64) (isTombstone : Bool) : FleeceStateManager × Int :=
  if !mergeable name data isTombstone then (manager, -1)
  else if ownerNodeId = manager.nodeId then (manager, -1)
  else
    let touched := (manager.touchPeer ownerNodeId).raiseClock remoteTimestamp
    match touched.findSlotOwned (hashName name) ownerNodeId with
    | some i =>
      if (touched.fields i).timestamp ≥ remoteTimestamp then (touched, 0)
      else touched.upsertField (hashName name) ownerNodeId ownerNodeId (some name) data
        remoteTimestamp isTombstone
    | none => touched.upsertField (hashName name) ownerNodeId ownerNodeId (some name) data
        remoteTimestamp isTombstone

/-- `fleece_state_manager_merge_shared`: the last writer wins, and a tie goes to the higher
origin. -/
def mergeShared (manager : FleeceStateManager) (originNodeId : UInt64) (name : CString)
    (data : Blob) (remoteTimestamp : UInt64) (isTombstone : Bool) : FleeceStateManager × Int :=
  if !mergeable name data isTombstone then (manager, -1)
  else
    let raised := manager.raiseClock remoteTimestamp
    match raised.findSlotOwned (hashName name) sharedOwnerId with
    | some i =>
      if (raised.fields i).timestamp > remoteTimestamp then (raised, 0)
      -- exact tie: the higher origin wins on every node
      else if (raised.fields i).timestamp = remoteTimestamp ∧
          (raised.fields i).originNodeId ≥ originNodeId then (raised, 0)
      else raised.upsertField (hashName name) sharedOwnerId originNodeId (some name) data
        remoteTimestamp isTombstone
    | none => raised.upsertField (hashName name) sharedOwnerId originNodeId (some name) data
        remoteTimestamp isTombstone

/-- `fleece_state_manager_ticks_since_last_write`. -/
def ticksSinceLastWrite (manager : FleeceStateManager) : UInt64 :=
  if manager.lastWriteTick = 0xFFFFFFFFFFFFFFFF then 0xFFFFFFFFFFFFFFFF
  else if manager.currentTick < manager.lastWriteTick then 0
  else manager.currentTick - manager.lastWriteTick

/-- `fleece_state_manager_shared_at_least`. -/
def sharedAtLeast (manager : FleeceStateManager) (keyHash : UInt32) (timestamp : UInt64) : Int :=
  match manager.findSlotOwned keyHash sharedOwnerId with
  | none => 0
  | some i => if (manager.fields i).timestamp ≥ timestamp then 1 else 0

end FleeceStateManager

end Fleece
