/-
This file models the part of `fleece_runtime.c` that speaks to peers: the control
frames of the targeted repair, the per-peer bookkeeping, the deferred transmit
queue and the gossip phase of the main loop, over the send call of
`fleece_comms.c`. A send is refused while the transport is not initialised and is
otherwise handed to the transport; what was handed over is kept in order.

Scripts, the planner, telemetry and debug output are left out: none of them reads
or writes what is modelled here, and what a script does to the store is an
operation of the state manager.
-/

import Fleece.Import

namespace Fleece

/-! ### The transport -/

/-- A comms destination: the names the runtime writes, or an address a transport passed in. -/
inductive Destination where
  | broadcast
  | mesh
  | node (nodeId : UInt64)
  | address (text : List UInt8)
  deriving DecidableEq

/-- `struct FleeceComms`, of which the model keeps whether it is open and what it has sent. -/
structure FleeceComms where
  isInitialized : Bool
  /-- What the send callback was handed, in order. -/
  sent : List (Destination × Blob)

/-- `fleece_comms_send`. -/
def FleeceComms.send (comms : FleeceComms) (destination : Destination) (data : Blob) :
    FleeceComms × Int :=
  if !comms.isInitialized || data.size == 0 then (comms, -1)
  else ({ comms with sent := comms.sent ++ [(destination, data)] }, 0)

/-- `fleece_comms_initialize`. -/
def FleeceComms.initializeComms (comms : FleeceComms) : FleeceComms :=
  { comms with isInitialized := true }

/-- `fleece_comms_close`. -/
def FleeceComms.close (comms : FleeceComms) : FleeceComms := { comms with isInitialized := false }

/-! ### The data model -/

/-- `FLEECE_MAX_RESYNC_TARGETS`. -/
abbrev maxResyncTargets : Nat := 32

/-- `FLEECE_MAX_PENDING_TX`, the slots of the deferred queue. -/
abbrev maxPendingTx : Nat := 16

/-- `FLEECE_MAX_FETCH_KEYS`, the most keys that one value request names. -/
abbrev maxFetchKeys : Nat := 64

/-- `FLEECE_RESYNC_PROBE_TICKS`: a peer not heard for so long is asked again. -/
abbrev resyncProbeTicks : UInt64 := 100

/-- `FLEECE_RESYNC_RETRY_TICKS`: an index request without an answer is sent again after these. -/
abbrev resyncRetryTicks : UInt64 := 8

/-- `FLEECE_RESYNC_QUIESCE_TICKS`: no repair is started so soon after a write of the node. -/
abbrev resyncQuiesceTicks : UInt64 := 5

/-- `FLEECE_RESYNC_STARTS_PER_TICK`, the repair rounds that one turn may start. -/
abbrev resyncStartsPerTick : Nat := 2

/-- `FLEECE_GOSSIP_FRAME_BYTES`, the cap of a delta. -/
abbrev gossipFrameBytes : Nat := 320

/-- One peer's repair bookkeeping. Its comms destination is a function of its node id. -/
structure ResyncTarget where
  nodeId : UInt64
  lastHeardTick : UInt64
  needShared : Bool
  awaitingIndex : Bool
  lastIndexReqTick : UInt64
  slotExists : Bool

/-- The destination string of a target: its own name, or the anonymous aggregate. -/
def ResyncTarget.source (target : ResyncTarget) : Destination :=
  if target.nodeId = 0 then .mesh else .node target.nodeId

/-- `struct PendingTx`: a deferred frame, and the first tick at which it may leave. -/
structure PendingTx where
  dest : Destination
  data : Blob
  readyTick : UInt64

/-- `struct FleeceRuntime`: a store, its transport, and what the gossip loop remembers. -/
structure FleeceRuntime where
  stateManager : FleeceStateManager
  comms : FleeceComms
  sharedGossipWatermark : UInt64
  gossipTickCount : UInt32
  gossipEveryTicks : UInt32
  beaconEveryTicks : UInt32
  pendingTx : Fin maxPendingTx → Option PendingTx
  pendingTxDropped : UInt32
  resyncTargets : Fin maxResyncTargets → ResyncTarget

/-- `runtime_create_internal`: the record is zeroed, the transport is not initialised, and the
cadence is the default one. -/
def FleeceRuntime.create (stateManager : FleeceStateManager) : FleeceRuntime where
  stateManager := stateManager
  comms := ⟨false, []⟩
  sharedGossipWatermark := 0
  gossipTickCount := 0
  gossipEveryTicks := 10
  beaconEveryTicks := 20
  pendingTx := fun _ => none
  pendingTxDropped := 0
  resyncTargets := fun _ => ⟨0, 0, false, false, 0, false⟩

/-! ### Control frames -/

/-- The buffer `send_control_ex` fills. -/
def controlFrame (nodeId : UInt64) (tag : UInt8) (hashes : List UInt32) : List UInt8 :=
  controlMagic ++ writeArrayHeader 3 ++ writeUint tag.toUInt64 ++ writeUint nodeId ++
    writeArrayHeader hashes.length ++ hashes.flatMap fun hash => writeUint hash.toUInt64

/-- The tag, the origin and the item count of a control frame, and the position after them. -/
structure ControlHead where
  tag : UInt64
  origin : UInt64
  items : UInt64
  pos : Nat
  deriving DecidableEq

/-- The first three items of a control frame, behind its three magic bytes. -/
def readControlHead (buf : List UInt8) (size : Nat) : Except Halt ControlHead := do
  let (arity, pos) ← readMajor buf size 3 4
  if arity ≠ 3 then .error .rejected
  else
    let (tag, pos) ← readMajor buf size pos 0
    let (origin, pos) ← readMajor buf size pos 0
    let (items, pos) ← readMajor buf size pos 4
    .ok ⟨tag, origin, items, pos⟩

/-- The loop of a value request: hashes outside 32 bits are skipped, and at most
`FLEECE_MAX_FETCH_KEYS` are taken. -/
def readHashes (buf : List UInt8) (size : Nat) :
    Nat → Nat → List UInt32 → Except Halt (List UInt32)
  | 0, _, hashes => .ok hashes
  | items + 1, pos, hashes =>
    if hashes.length < maxFetchKeys then do
      let (value, pos) ← readMajor buf size pos 0
      readHashes buf size items pos
        (if value ≤ 0xFFFFFFFF then hashes ++ [value.toUInt32] else hashes)
    else .ok hashes

/-- The loop of an index reply, which takes at most `FLEECE_MAX_RESYNC_TARGETS * 4` pairs. -/
def readPairs (buf : List UInt8) (size : Nat) :
    Nat → Nat → List (UInt64 × UInt64) → Except Halt (List (UInt64 × UInt64))
  | 0, _, pairs => .ok pairs
  | items + 1, pos, pairs =>
    if pairs.length < maxResyncTargets * 4 then do
      let (arity, pos) ← readMajor buf size pos 4
      if arity ≠ 2 then .error .rejected
      else
        let (hash, pos) ← readMajor buf size pos 0
        let (timestamp, pos) ← readMajor buf size pos 0
        readPairs buf size items pos (pairs ++ [(hash, timestamp)])
    else .ok pairs

namespace FleeceRuntime

/-! ### Bookkeeping -/

/-- `resync_target_for_id`: the entry of a peer, taken if there is none and the table has room. -/
def resyncTargetForId (runtime : FleeceRuntime) (nodeId : UInt64) :
    FleeceRuntime × Option (Fin maxResyncTargets) :=
  match Fin.find? fun i => (runtime.resyncTargets i).slotExists &&
      (runtime.resyncTargets i).nodeId == nodeId with
  | some i => (runtime, some i)
  | none => match Fin.find? fun i => !(runtime.resyncTargets i).slotExists with
    | some i =>
      ({ runtime with
          resyncTargets := Function.update runtime.resyncTargets i {
            nodeId := nodeId
            lastHeardTick := runtime.gossipTickCount.toUInt64
            needShared := false
            awaitingIndex := false
            lastIndexReqTick := 0
            slotExists := true } }, some i)
    | none => (runtime, none)

/-- Changes the entry a lookup returned, if it returned one. -/
def withTarget (found : FleeceRuntime × Option (Fin maxResyncTargets))
    (change : ResyncTarget → ResyncTarget) : FleeceRuntime :=
  match found.2 with
  | none => found.1
  | some i =>
    { found.1 with
      resyncTargets := Function.update found.1.resyncTargets i (change (found.1.resyncTargets i)) }

/-- `enqueue_tx`: the frame waits in the first free slot, and is counted as dropped if there is
none. -/
def enqueueTx (runtime : FleeceRuntime) (dest : Destination) (data : Blob) : FleeceRuntime :=
  match Fin.find? fun i => (runtime.pendingTx i).isNone with
  | some i =>
    { runtime with
      pendingTx := Function.update runtime.pendingTx i
        (some ⟨dest, data, (runtime.gossipTickCount + 1).toUInt64⟩) }
  | none => { runtime with pendingTxDropped := runtime.pendingTxDropped + 1 }

/-- One turn of the loop of `flush_pending_tx`. -/
def flushSlot (runtime : FleeceRuntime) (i : Fin maxPendingTx) : FleeceRuntime :=
  match runtime.pendingTx i with
  | none => runtime
  | some tx =>
    if runtime.gossipTickCount.toUInt64 < tx.readyTick then runtime
    else
      { runtime with
        comms := (runtime.comms.send tx.dest tx.data).1
        pendingTx := Function.update runtime.pendingTx i none }

/-- `flush_pending_tx`. -/
def flushPendingTx (runtime : FleeceRuntime) : FleeceRuntime :=
  (List.finRange maxPendingTx).foldl flushSlot runtime

/-! ### The repair handshake -/

/-- `send_control_ex`: a control frame is sent at once or put in the queue. -/
def sendControlEx (runtime : FleeceRuntime) (target : Destination) (tag : UInt8)
    (hashes : List UInt32) (defer : Bool) : FleeceRuntime :=
  let frame := Blob.ofBuffer (controlFrame runtime.stateManager.nodeId tag hashes)
  if defer then runtime.enqueueTx target frame
  else { runtime with comms := (runtime.comms.send target frame).1 }

/-- `unicast_dest_for`, with the fallback of its callers. -/
def replyDest (origin : UInt64) (fallback : Destination) : Destination :=
  if origin = 0 then fallback else .node origin

/-- The diff loop of `request_missing_keys`: the keys this store lacks or holds an older version
of, at most `FLEECE_MAX_FETCH_KEYS`. -/
def wantedKeys (manager : FleeceStateManager) (pairs : List (UInt64 × UInt64)) : List UInt32 :=
  pairs.foldl (fun wanted pair =>
    if wanted.length < maxFetchKeys ∧ pair.1 ≤ 0xFFFFFFFF ∧
        manager.sharedAtLeast pair.1.toUInt32 pair.2 = 0 then
      wanted ++ [pair.1.toUInt32]
    else wanted) []

/-- `request_missing_keys`: the value request, or the certificate of an empty diff. -/
def requestMissingKeys (runtime : FleeceRuntime) (replyOrigin : UInt64)
    (pairs : List (UInt64 × UInt64)) : FleeceRuntime × Bool :=
  let wanted := wantedKeys runtime.stateManager pairs
  if wanted.length > 0 then
    (runtime.sendControlEx (replyDest replyOrigin .mesh) 2 wanted true, true)
  else
    (withTarget (runtime.resyncTargetForId replyOrigin) fun target =>
      { target with needShared := false }, false)

/-- `handle_fx_frame`. A frame that does not parse changes nothing. -/
def handleFxFrame (runtime : FleeceRuntime) (data : Blob) (replySource : Destination) :
    FleeceRuntime :=
  match readControlHead data.bytes data.size with
  | .error _ => runtime
  | .ok head =>
    let dest := replyDest head.origin replySource
    if head.tag = 0 then runtime.enqueueTx dest runtime.stateManager.exportSharedIndex
    else if head.tag = 2 then
      match readHashes data.bytes data.size head.items.toNat head.pos [] with
      | .error _ => runtime
      | .ok hashes =>
        if hashes.length > 0 then
          runtime.enqueueTx dest (runtime.stateManager.exportSharedByHash hashes)
        else runtime
    else if head.tag = 1 then
      match readPairs data.bytes data.size head.items.toNat head.pos [] with
      | .error _ => runtime
      | .ok pairs =>
        let closed := withTarget (runtime.resyncTargetForId head.origin) fun target =>
          { target with awaitingIndex := false }
        (closed.requestMissingKeys head.origin pairs).1
    else runtime

/-- The flag semantics `import_and_track` and `note_behind_from` share. -/
def noteBehind (runtime : FleeceRuntime) (behindShared : Bool) (sender : UInt64) : FleeceRuntime :=
  withTarget (runtime.resyncTargetForId sender) fun target =>
    { target with
      lastHeardTick := runtime.gossipTickCount.toUInt64
      needShared :=
        if behindShared then true else if !target.awaitingIndex then false else target.needShared }

/-- `import_and_track`. -/
def importAndTrack (runtime : FleeceRuntime) (data : Blob) : FleeceRuntime :=
  let result := runtime.stateManager.importFrom data
  let imported := { runtime with stateManager := result.manager }
  match result.code with
  | .error _ => imported
  | .ok () => imported.noteBehind (result.behindShared.getD false) (result.senderNodeId.getD 0)

/-- `runtime_gossip_receive`: a control frame by its magic bytes, else gossip. -/
def gossipReceive (runtime : FleeceRuntime) (source : Destination) (data : Blob) : FleeceRuntime :=
  if data.size = 0 then runtime
  else if data.bytes.take 2 = controlMagic.take 2 ∧ data.size ≥ 3 then
    if data.bytes.take 3 = controlMagic then runtime.handleFxFrame data source else runtime
  else runtime.importAndTrack data

/-- `fleece_runtime_on_control_frame`. -/
def onControlFrame (runtime : FleeceRuntime) (data : Blob) : FleeceRuntime :=
  if data.bytes.take 3 = controlMagic then runtime.handleFxFrame data .mesh else runtime

/-- `fleece_runtime_on_gossip_frame`. -/
def onGossipFrame (runtime : FleeceRuntime) (data : Blob) : FleeceRuntime :=
  if data.size = 0 then runtime else runtime.importAndTrack data

/-! ### The main loop -/

/-- The index request `send_control` makes of a peer. -/
def requestIndex (runtime : FleeceRuntime) (i : Fin maxResyncTargets) : FleeceRuntime :=
  runtime.sendControlEx (runtime.resyncTargets i).source 0 [] false

/-- One turn of the loop of `runtime_send_resync_requests`, with the rounds started so far. -/
def resyncSlot (state : FleeceRuntime × Nat) (i : Fin maxResyncTargets) : FleeceRuntime × Nat :=
  let runtime := state.1
  let target := runtime.resyncTargets i
  if !target.slotExists then state
  else
    let now := runtime.gossipTickCount.toUInt64
    let quiet := decide (runtime.stateManager.ticksSinceLastWrite ≥ resyncQuiesceTicks)
    let repaired :=
      if target.needShared && quiet && decide (state.2 < resyncStartsPerTick) &&
          (!target.awaitingIndex || decide (now - target.lastIndexReqTick ≥ resyncRetryTicks)) then
        (withTarget (runtime.requestIndex i, some i) fun target =>
          { target with awaitingIndex := true, lastIndexReqTick := now }, state.2 + 1)
      else state
    if now - target.lastHeardTick ≥ resyncProbeTicks then
      (withTarget (repaired.1.requestIndex i, some i) fun target =>
        { target with awaitingIndex := true, lastHeardTick := now }, repaired.2)
    else repaired

/-- `runtime_send_resync_requests`: the queue is flushed, then every target has its turn. -/
def sendResyncRequests (runtime : FleeceRuntime) : FleeceRuntime :=
  ((List.finRange maxResyncTargets).foldl resyncSlot (runtime.flushPendingTx, 0)).1

/-- The delta branch of the gossip phase: the result of the send is not looked at. -/
def sendDelta (runtime : FleeceRuntime) : FleeceRuntime :=
  let exported := runtime.stateManager.exportSharedDeltaBounded runtime.sharedGossipWatermark
    gossipFrameBytes
  { runtime with
    stateManager := exported.manager
    comms := (runtime.comms.send .broadcast exported.frame).1
    sharedGossipWatermark := exported.includedMaxTs }

/-- The beacon branch: a header without records. -/
def sendBeacon (runtime : FleeceRuntime) : FleeceRuntime :=
  let exported := runtime.stateManager.exportSharedDeltaBounded 0xFFFFFFFFFFFFFFFF 0
  { runtime with
    stateManager := exported.manager
    comms := (runtime.comms.send .broadcast exported.frame).1 }

/-- The gossip phase of `fleece_runtime_start`. -/
def gossipPhase (runtime : FleeceRuntime) : FleeceRuntime :=
  let gossipDue := runtime.gossipTickCount % runtime.gossipEveryTicks == 0
  let beaconDue := (runtime.gossipTickCount + runtime.stateManager.nodeId.toUInt32) %
    runtime.beaconEveryTicks == 0
  let haveNew := decide (runtime.stateManager.countNewShared runtime.sharedGossipWatermark > 0)
  if gossipDue && haveNew then runtime.sendDelta
  else if beaconDue then runtime.sendBeacon
  else runtime

/-- `fleece_runtime_set_gossip_cadence`. -/
def setGossipCadence (runtime : FleeceRuntime) (gossipEveryTicks beaconEveryTicks : UInt32) :
    FleeceRuntime :=
  if gossipEveryTicks = 0 ∨ beaconEveryTicks = 0 then runtime
  else
    { runtime with gossipEveryTicks := gossipEveryTicks, beaconEveryTicks := beaconEveryTicks }

/-- Phase 3 and the tick count after it. -/
def gossipTurn (runtime : FleeceRuntime) : FleeceRuntime :=
  let spoken := runtime.gossipPhase.sendResyncRequests
  { spoken with gossipTickCount := spoken.gossipTickCount + 1 }

end FleeceRuntime

end Fleece
