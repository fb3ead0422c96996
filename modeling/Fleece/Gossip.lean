/-
This file is about the watermark of the gossip phase. A node writes, receives
frames, opens and closes its transport and takes turns of its main loop, in any
order; each turn that finds records above the watermark broadcasts a bounded frame
and moves the watermark to what the frame reports.

Every record at or below the watermark was broadcast, as long as each such frame
goes out and fits 32 bits, no record has the largest timestamp, and no import
stores a record below the watermark. The loop looks at neither of the first and the
last, and the two runs at the end show what follows.
-/

import Fleece.Backlog
import Fleece.Refinement

namespace Fleece

namespace FleeceRuntime

/-! ### What talking leaves alone -/

/-- The runtime has only talked: store and watermark are as they were, and what was sent stays
sent. -/
structure Talks (runtime next : FleeceRuntime) : Prop where
  store : next.stateManager = runtime.stateManager
  watermark : next.sharedGossipWatermark = runtime.sharedGossipWatermark
  sent : runtime.comms.sent <+: next.comms.sent

theorem Talks.refl (runtime : FleeceRuntime) : runtime.Talks runtime :=
  ⟨rfl, rfl, List.prefix_refl _⟩

theorem Talks.trans {first second third : FleeceRuntime} (before : first.Talks second)
    (after : second.Talks third) : first.Talks third :=
  ⟨after.store.trans before.store, after.watermark.trans before.watermark,
    before.sent.trans after.sent⟩

theorem sent_send (comms : FleeceComms) (destination : Destination) (data : Blob) :
    comms.sent <+: (comms.send destination data).1.sent := by
  unfold FleeceComms.send
  split_ifs
  · exact List.prefix_refl _
  · exact List.prefix_append _ _

theorem resyncTargetForId_talks (runtime : FleeceRuntime) (nodeId : UInt64) :
    runtime.Talks (runtime.resyncTargetForId nodeId).1 := by
  unfold resyncTargetForId
  split
  · exact .refl runtime
  · split
    · exact ⟨rfl, rfl, List.prefix_refl _⟩
    · exact .refl runtime

theorem withTarget_talks (found : FleeceRuntime × Option (Fin maxResyncTargets))
    (change : ResyncTarget → ResyncTarget) : found.1.Talks (withTarget found change) := by
  unfold withTarget
  split
  · exact .refl found.1
  · exact ⟨rfl, rfl, List.prefix_refl _⟩

theorem enqueueTx_talks (runtime : FleeceRuntime) (dest : Destination) (data : Blob) :
    runtime.Talks (runtime.enqueueTx dest data) := by
  unfold enqueueTx
  split
  · exact ⟨rfl, rfl, List.prefix_refl _⟩
  · exact ⟨rfl, rfl, List.prefix_refl _⟩

theorem sendControlEx_talks (runtime : FleeceRuntime) (target : Destination) (tag : UInt8)
    (hashes : List UInt32) (defer : Bool) :
    runtime.Talks (runtime.sendControlEx target tag hashes defer) := by
  unfold sendControlEx
  simp only
  split_ifs
  · exact enqueueTx_talks runtime target _
  · exact ⟨rfl, rfl, sent_send _ _ _⟩

theorem requestMissingKeys_talks (runtime : FleeceRuntime) (origin : UInt64)
    (pairs : List (UInt64 × UInt64)) : runtime.Talks (runtime.requestMissingKeys origin pairs).1 := by
  unfold requestMissingKeys
  simp only
  split_ifs
  · exact sendControlEx_talks runtime (replyDest origin .mesh) 2 _ true
  · dsimp only
    exact (resyncTargetForId_talks runtime origin).trans (withTarget_talks _ _)

theorem handleFxFrame_talks (runtime : FleeceRuntime) (data : Blob) (source : Destination) :
    runtime.Talks (runtime.handleFxFrame data source) := by
  unfold handleFxFrame
  split
  · exact .refl runtime
  · simp only
    split_ifs
    · exact enqueueTx_talks runtime _ _
    · split
      · exact .refl runtime
      · split_ifs
        · exact enqueueTx_talks runtime _ _
        · exact .refl runtime
    · split
      · exact .refl runtime
      · exact ((resyncTargetForId_talks runtime _).trans (withTarget_talks _ _)).trans
          (requestMissingKeys_talks _ _ _)
    · exact .refl runtime

theorem noteBehind_talks (runtime : FleeceRuntime) (behindShared : Bool) (sender : UInt64) :
    runtime.Talks (runtime.noteBehind behindShared sender) :=
  (resyncTargetForId_talks runtime sender).trans (withTarget_talks _ _)

theorem flushPendingTx_talks (runtime : FleeceRuntime) : runtime.Talks runtime.flushPendingTx := by
  have turn (runtime : FleeceRuntime) (i : Fin maxPendingTx) :
      runtime.Talks (runtime.flushSlot i) := by
    unfold flushSlot
    split
    · exact .refl runtime
    · split_ifs
      · exact .refl runtime
      · exact ⟨rfl, rfl, sent_send _ _ _⟩
  exact List.foldlRecOn _ flushSlot (.refl runtime) fun next talks i _ => talks.trans (turn next i)

theorem resyncSlot_talks (state : FleeceRuntime × Nat) (i : Fin maxResyncTargets) :
    state.1.Talks (resyncSlot state i).1 := by
  have request (runtime : FleeceRuntime) (change : ResyncTarget → ResyncTarget) :
      runtime.Talks (withTarget (runtime.requestIndex i, some i) change) :=
    (sendControlEx_talks runtime _ 0 [] false).trans
      (withTarget_talks (runtime.requestIndex i, some i) change)
  unfold resyncSlot
  simp only
  split_ifs
  · exact .refl state.1
  · dsimp only
    exact (request state.1 _).trans (request _ _)
  · dsimp only
    exact request state.1 _
  · dsimp only
    exact request state.1 _
  · exact .refl state.1

theorem sendResyncRequests_talks (runtime : FleeceRuntime) :
    runtime.Talks runtime.sendResyncRequests :=
  List.foldlRecOn _ resyncSlot (motive := fun state => runtime.Talks state.1)
    (flushPendingTx_talks runtime) fun state talks i _ => talks.trans (resyncSlot_talks state i)

end FleeceRuntime

/-! ### What a merge stores -/

namespace FleeceStateManager

/-- A merge would store the shared record: it passes the argument checks, there is a slot for it,
and the record under its key does not stay. -/
def takes (manager : FleeceStateManager) (record : GossipRecord) : Bool :=
  mergeable record.name.toCString record.data record.isTombstone &&
    manager.hasSlot (hashName record.name.toCString, sharedOwnerId) &&
    (manager.view (hashName record.name.toCString, sharedOwnerId)).all fun old =>
      decide (record.Outranks old)

theorem hasSlot_of_stored {manager next : FleeceStateManager} {f : FieldEntry}
    (stored : Stored manager next f) : manager.hasSlot (f.key, f.nodeId) = true := by
  unfold hasSlot
  cases stored with
  | inPlace i found fields count present marked =>
    rw [view_of_findSlotOwned found, Option.isSome_some, Bool.true_or]
  | appended absent room fields count present marked =>
    rw [decide_eq_true room, Bool.or_true]

/-- A merge of a shared record changes nothing, or stores a record with its timestamp under its
key. -/
theorem stored_mergeRecord {manager : FleeceStateManager} (invariant : manager.PackedInvariant)
    (record : GossipRecord) :
    (manager.mergeRecord sharedOwnerId record).view = manager.view ∨
      manager.takes record = true ∧ ∃ stored, stored.timestamp = record.timestamp ∧
        (manager.mergeRecord sharedOwnerId record).view = Function.update manager.view
          (hashName record.name.toCString, sharedOwnerId) (some stored) := by
  unfold FleeceStateManager.mergeRecord
  rw [if_pos rfl]
  cases accepted : mergeable record.name.toCString record.data record.isTombstone with
  | false =>
    refine Or.inl ?_
    unfold mergeShared
    rw [accepted]
    rfl
  | true =>
    have outcome := mergeShared_outcome manager record.originNodeId record.name.toCString
      record.data record.timestamp record.isTombstone accepted
    generalize manager.mergeShared record.originNodeId record.name.toCString record.data
      record.timestamp record.isTombstone = result at outcome ⊢
    cases outcome with
    | kept old found stays => exact Or.inl rfl
    | noSlot absent full => exact Or.inl rfl
    | stored next f storedAt rest label held newer =>
      have raised : (manager.raiseClock record.timestamp).PackedInvariant :=
        invariant.of_same rfl rfl rfl
      have slot := hasSlot_of_stored storedAt
      rw [label] at slot
      refine Or.inr ⟨?_, f.record, held ▸ rfl, ?_⟩
      · rw [takes, accepted, Bool.true_and, Bool.and_eq_true]
        refine ⟨slot, ?_⟩
        cases found : manager.view (hashName record.name.toCString, sharedOwnerId) with
        | none => rfl
        | some old => exact decide_eq_true (newer old found)
      · have wrote := view_stored storedAt raised
        rw [label] at wrote
        exact wrote

/-- Every shared record up to the watermark meets a condition. -/
def UpTo (manager : FleeceStateManager) (watermark : UInt64) (met : GossipRecord → Prop) : Prop :=
  ∀ key record, manager.view (key, sharedOwnerId) = some record →
    record.timestamp ≤ watermark → met record

theorem UpTo.stored {manager next : FleeceStateManager} {watermark : UInt64}
    {met : GossipRecord → Prop} (upTo : manager.UpTo watermark met) {pair : UInt32 × UInt64}
    {stored : GossipRecord} (later : watermark < stored.timestamp)
    (wrote : next.view = Function.update manager.view pair (some stored)) :
    next.UpTo watermark met := by
  intro key record held early
  rw [wrote] at held
  rcases eq_or_ne (key, sharedOwnerId) pair with rfl | different
  · rw [Function.update_self] at held
    rw [← Option.some.inj held] at early
    exact absurd later (UInt64.not_lt.mpr early)
  · rw [Function.update_of_ne different] at held
    exact upTo key record held early

theorem UpTo.of_view {manager next : FleeceStateManager} {watermark : UInt64}
    {met : GossipRecord → Prop} (upTo : manager.UpTo watermark met)
    (same : ∀ key, next.view (key, sharedOwnerId) = manager.view (key, sharedOwnerId)) :
    next.UpTo watermark met := by
  intro key record held
  rw [same] at held
  exact upTo key record held

theorem UpTo.mergeRecords {manager : FleeceStateManager} {watermark : UInt64}
    {met : GossipRecord → Prop} (upTo : manager.UpTo watermark met)
    (invariant : manager.PackedInvariant) {records : List GossipRecord}
    (timely : Along (FleeceStateManager.mergeRecord sharedOwnerId)
      (fun state record => state.takes record = true → watermark < record.timestamp)
      manager records) :
    (manager.mergeRecords sharedOwnerId records).UpTo watermark met := by
  induction records generalizing manager with
  | nil => exact upTo
  | cons record rest inductionHypothesis =>
    have merged : (manager.mergeRecord sharedOwnerId record).UpTo watermark met := by
      rcases stored_mergeRecord invariant record with same | ⟨taken, stored, stamp, wrote⟩
      · exact upTo.of_view fun key => congrFun same _
      · exact upTo.stored (stamp ▸ timely.1 taken) wrote
    exact inductionHypothesis merged (mergeSteps_packedInvariant
      (mergeRecord_steps invariant.store.realNode sharedOwnerId record) invariant) timely.2

/-- No record of what was parsed is stored at or below the watermark. -/
def Timely (manager : FleeceStateManager) (watermark : UInt64) : Except Halt ParsedFrame → Prop
  | .error _ => True
  | .ok parsed => parsed.ownerNodeId = sharedOwnerId →
    Along (FleeceStateManager.mergeRecord sharedOwnerId)
      (fun state record => state.takes record = true → watermark < record.timestamp)
      (manager.touchPeer parsed.senderNodeId) parsed.records

instance (manager : FleeceStateManager) (watermark : UInt64) (read : Except Halt ParsedFrame) :
    Decidable (manager.Timely watermark read) :=
  match read with
  | .error _ => .isTrue trivial
  | .ok _ => inferInstanceAs (Decidable (_ → _))

/-- No record of the frame is stored at or below the watermark. -/
def TimelyFrame (manager : FleeceStateManager) (watermark : UInt64) (frame : Blob) : Prop :=
  manager.Timely watermark (parseFrame manager.nodeId frame)

theorem UpTo.importFrom {manager : FleeceStateManager} {watermark : UInt64}
    {met : GossipRecord → Prop} (upTo : manager.UpTo watermark met)
    (invariant : manager.PackedInvariant) {frame : Blob}
    (timely : manager.TimelyFrame watermark frame) :
    (manager.importFrom frame).manager.UpTo watermark met := by
  rw [importFrom_manager]
  unfold TimelyFrame at timely
  cases read : parseFrame manager.nodeId frame with
  | error halt => exact upTo
  | ok parsed =>
    rw [read] at timely
    simp only at timely ⊢
    by_cases stream : parsed.ownerNodeId = sharedOwnerId
    · rw [stream]
      have touched : (manager.touchPeer parsed.senderNodeId).UpTo watermark met :=
        upTo.of_view fun key => congrFun (view_of_same (touchPeer_fields _ _)) _
      exact touched.mergeRecords (invariant.touchPeer _) (timely stream)
    · have whole : (manager.touchPeer parsed.senderNodeId).mergeRecords parsed.ownerNodeId
          parsed.records = (Operation.importFrom frame).next manager := by
        show _ = (manager.importFrom frame).manager
        rw [importFrom_manager, read]
      have stays : Operation.importFrom frame ≠ .compact := nofun
      rw [whole]
      refine upTo.of_view fun key => invariant.view_next stays fun touched => stream ?_
      obtain ⟨again, success, record, _, same⟩ := touched
      rw [read] at success
      cases success
      exact (Prod.mk.inj same).2.symm

theorem UpTo.write {manager : FleeceStateManager} {watermark : UInt64}
    {met : GossipRecord → Prop} (upTo : manager.UpTo watermark met)
    (invariant : manager.PackedInvariant) (behind : watermark ≤ manager.localTimestamp)
    (small : manager.localTimestamp ≠ clockMax) (change : LocalWrite) :
    (change.exec manager).1.UpTo watermark met := by
  have outcome := exec_outcome manager change
  generalize asked : change.request manager.nodeId manager.localTimestamp manager.view = request
    at outcome
  generalize change.exec manager = result at outcome ⊢
  cases outcome with
  | refused code denied => exact upTo
  | noSlot next pair record accepted absent full fields =>
    exact upTo.of_view fun key => congrFun (view_of_same fields) _
  | wrote next f accepted stored node peers tick clock =>
    obtain ⟨stamp, _⟩ := LocalWrite.stamped_of_request (asked.trans accepted)
    refine upTo.stored ?_ (view_stored stored invariant)
    rw [stamp]
    exact UInt64.lt_of_le_of_lt behind (lt_add_one_of_ne_max small)

end FleeceStateManager

/-! ### The gossip phase -/

/-- A frame was handed to the transport for broadcast from which every other node reads the
record. -/
def FleeceComms.Broadcast (comms : FleeceComms) (nodeId : UInt64) (record : GossipRecord) : Prop :=
  ∃ frame, (Destination.broadcast, frame) ∈ comms.sent ∧ ∀ reader ≠ nodeId,
    ∃ parsed, parseFrame reader frame = .ok parsed ∧ parsed.ownerNodeId = sharedOwnerId ∧
      record ∈ parsed.records

theorem FleeceComms.Broadcast.mono {comms next : FleeceComms} {nodeId : UInt64}
    {record : GossipRecord} (broadcast : comms.Broadcast nodeId record)
    (kept : comms.sent <+: next.sent) : next.Broadcast nodeId record := by
  obtain ⟨frame, sent, read⟩ := broadcast
  exact ⟨frame, kept.subset sent, read⟩

namespace FleeceStateManager

/-- A record fits the frame it is sent in alone, which has to be shorter than 2^32 bytes. -/
def fitsFrame (manager : FleeceStateManager) (f : FieldEntry) : Bool :=
  decide (3 + (manager.boundedHeaderSize + recordSize f) < 2 ^ 32)

/-- The frame of the gossip phase is shorter than 2^32 bytes, if each record is. -/
theorem length_delta_lt {manager : FleeceStateManager} (invariant : manager.StoreInvariant)
    {since : UInt64}
    (fit : ∀ i ∈ manager.pending since, manager.fitsFrame (manager.fields i) = true) :
    ((GossipExport.sharedDeltaBounded since gossipFrameBytes).contents manager).encode.length <
      2 ^ 32 := by
  refine (length_bounded_le invariant since gossipFrameBytes).trans_lt ?_
  have frame : (manager.packShared since gossipFrameBytes).1.count ≤ 1 ∨
      (manager.packShared since gossipFrameBytes).1.body ≤ gossipFrameBytes :=
    pack_body_le _ (Or.inl (Nat.zero_le 1))
  rcases frame with few | fits
  · rw [← length_takenSlots] at few
    rw [body_packShared]
    cases slots : manager.takenSlots since gossipFrameBytes with
    | nil =>
      have header : manager.boundedHeaderSize ≤ 40 := by
        have node := uintSize_le manager.nodeId
        unfold boundedHeaderSize
        rw [show arrayHeaderSize 5 = 1 from rfl, show uintSize sharedOwnerId = 1 from rfl]
        omega
      rw [List.toFinset_nil, Finset.sum_empty]
      omega
    | cons i rest =>
      rw [slots, List.length_cons] at few
      have single : rest = [] := List.eq_nil_of_length_eq_zero (by omega)
      have taken : i ∈ manager.takenSlots since gossipFrameBytes := slots ▸ List.mem_cons_self
      have size := of_decide_eq_true (fit i (mem_pending.mpr (isExported_of_mem_takenSlots taken)))
      rw [single, List.toFinset_cons, List.toFinset_nil, LawfulSingleton.insert_empty_eq,
        Finset.sum_singleton]
      exact size
  · exact (Nat.add_le_add_left fits 3).trans_lt (by decide)

end FleeceStateManager

namespace FleeceRuntime

/-- What a node does: the local writes, the frames its transport or its host hands it, the ticks
and the turns of the main loop, and what is done to its transport and its cadence. -/
inductive Act where
  | write (change : LocalWrite)
  | receive (source : Destination) (data : Blob)
  | gossipFrame (data : Blob)
  | controlFrame (data : Blob)
  | tick
  | turn
  | initializeComms
  | close
  | setGossipCadence (gossipEveryTicks beaconEveryTicks : UInt32)

/-- What an act does to the runtime. -/
def step (runtime : FleeceRuntime) : Act → FleeceRuntime
  | .write change => { runtime with stateManager := (change.exec runtime.stateManager).1 }
  | .receive source data => runtime.gossipReceive source data
  | .gossipFrame data => runtime.onGossipFrame data
  | .controlFrame data => runtime.onControlFrame data
  | .tick => { runtime with stateManager := runtime.stateManager.tick }
  | .turn => runtime.gossipTurn
  | .initializeComms => { runtime with comms := runtime.comms.initializeComms }
  | .close => { runtime with comms := runtime.comms.close }
  | .setGossipCadence gossipEvery beaconEvery => runtime.setGossipCadence gossipEvery beaconEvery

/-- This turn of the main loop broadcasts a delta. -/
def deltaDue (runtime : FleeceRuntime) : Bool :=
  runtime.gossipTickCount % runtime.gossipEveryTicks == 0 &&
    decide (runtime.stateManager.countNewShared runtime.sharedGossipWatermark > 0)

/-- The step does not lose a record: a write does not wrap the clock, an import stores nothing at
or below the watermark, and a delta goes out over an open transport, with every record small
enough for a frame and below the largest timestamp. -/
def Careful (runtime : FleeceRuntime) : Act → Prop
  | .write _ => runtime.stateManager.localTimestamp ≠ clockMax
  | .receive _ data => runtime.stateManager.TimelyFrame runtime.sharedGossipWatermark data
  | .gossipFrame data => runtime.stateManager.TimelyFrame runtime.sharedGossipWatermark data
  | .turn => runtime.deltaDue = true → runtime.comms.isInitialized = true ∧
    ∀ i ∈ runtime.stateManager.pending runtime.sharedGossipWatermark,
      runtime.stateManager.fitsFrame (runtime.stateManager.fields i) = true ∧
        (runtime.stateManager.fields i).timestamp ≠ clockMax
  | _ => True

instance (runtime : FleeceRuntime) (act : Act) : Decidable (runtime.Careful act) :=
  match act with
  | .write _ => inferInstanceAs (Decidable (_ ≠ _))
  | .receive _ data =>
    inferInstanceAs (Decidable (FleeceStateManager.Timely _ _ (parseFrame _ data)))
  | .gossipFrame data =>
    inferInstanceAs (Decidable (FleeceStateManager.Timely _ _ (parseFrame _ data)))
  | .turn => inferInstanceAs (Decidable (_ → _ ∧ _))
  | .controlFrame _ => .isTrue trivial
  | .tick => .isTrue trivial
  | .initializeComms => .isTrue trivial
  | .close => .isTrue trivial
  | .setGossipCadence _ _ => .isTrue trivial

/-- A record above the watermark that the delta passes is in its frame. -/
theorem delta_carries {runtime : FleeceRuntime} (packed : runtime.stateManager.PackedInvariant)
    (isOpen : runtime.comms.isInitialized = true)
    (ready : ∀ i ∈ runtime.stateManager.pending runtime.sharedGossipWatermark,
      runtime.stateManager.fitsFrame (runtime.stateManager.fields i) = true ∧
        (runtime.stateManager.fields i).timestamp ≠ clockMax)
    {key : UInt32} {record : GossipRecord}
    (held : runtime.stateManager.view (key, sharedOwnerId) = some record)
    (later : runtime.sharedGossipWatermark < record.timestamp)
    (passed : record.timestamp ≤ runtime.sendDelta.sharedGossipWatermark) :
    runtime.sendDelta.comms.Broadcast runtime.stateManager.nodeId record := by
  have store := packed.store
  have fits := FleeceStateManager.length_delta_lt store fun i member => (ready i member).1
  obtain ⟨f, found, rfl⟩ := Option.map_eq_some_iff.mp held
  obtain ⟨i, rfl, present, _, owned⟩ := FleeceStateManager.exists_of_lookup found
  have foreign : (runtime.stateManager.fields i).nodeId ≠ runtime.stateManager.nodeId := by
    rw [owned]
    exact store.realNode.symm
  have exported : FleeceStateManager.isExported sharedOwnerId runtime.sharedGossipWatermark
      (runtime.stateManager.fields i) = true := by
    rw [FleeceStateManager.isExported, present, owned, beq_self_eq_true,
      store.named i present foreign, Bool.true_and, Bool.true_and, Bool.true_and, Bool.not_eq_true',
      decide_eq_false_iff_not]
    exact UInt64.not_le.mpr later
  have taken := FleeceStateManager.mem_takenSlots_of_le
    (fun j isExported => (ready j (FleeceStateManager.mem_pending.mpr isExported)).2) exported passed
  let kind := GossipExport.sharedDeltaBounded runtime.sharedGossipWatermark gossipFrameBytes
  have nonempty : (kind.frame runtime.stateManager).size ≠ 0 := by
    rw [FleeceStateManager.frame_eq_contents store, Blob.size, FrameContents.frame,
      Blob.ofBuffer_bytes_of_lt fits]
    exact List.length_pos_iff.mpr (List.cons_ne_nil _ _) |>.ne'
  refine ⟨kind.frame runtime.stateManager, ?_, fun reader other => ?_⟩
  · show _ ∈ (runtime.comms.send .broadcast (kind.frame runtime.stateManager)).1.sent
    unfold FleeceComms.send
    rw [isOpen, Bool.not_true, Bool.false_or, if_neg (mt eq_of_beq nonempty)]
    exact List.mem_append_right _ (List.mem_singleton.mpr rfl)
  · refine ⟨_, FleeceStateManager.parseFrame_export store kind other fits, rfl, ?_⟩
    exact List.mem_map_of_mem (List.mem_map_of_mem taken)

/-- The watermark a delta leaves is a timestamp of the store. -/
theorem watermark_sendDelta_le {runtime : FleeceRuntime}
    (clock : runtime.stateManager.ClockInvariant) :
    runtime.sendDelta.sharedGossipWatermark ≤ runtime.stateManager.localTimestamp := by
  rcases FleeceStateManager.includedMaxTs_le runtime.stateManager runtime.sharedGossipWatermark
    gossipFrameBytes with zero | ⟨i, exported, le⟩
  · show (runtime.stateManager.exportSharedDeltaBounded _ _).includedMaxTs ≤ _
    rw [zero]
    exact UInt64.zero_le
  · obtain ⟨_, present, _⟩ := FleeceStateManager.carried_of_isExported
      (FleeceStateManager.mem_slots.mpr ⟨i, rfl⟩) exported
    exact UInt64.le_trans le (clock.stamps i present)

/-- What holds after every run of careful steps. -/
structure Covered (runtime : FleeceRuntime) : Prop where
  packed : runtime.stateManager.PackedInvariant
  clock : runtime.stateManager.ClockInvariant
  behind : runtime.sharedGossipWatermark ≤ runtime.stateManager.localTimestamp
  upTo : runtime.stateManager.UpTo runtime.sharedGossipWatermark
    (runtime.comms.Broadcast runtime.stateManager.nodeId)

theorem covered_create {nodeId : UInt64} {manager : FleeceStateManager}
    (created : FleeceStateManager.createWithNodeId nodeId = some manager) :
    (create manager).Covered where
  packed := FleeceStateManager.packedInvariant_create created
  clock := FleeceStateManager.clockInvariant_create created
  behind := UInt64.zero_le
  upTo key record held := by
    have empty : manager.view (key, sharedOwnerId) = none :=
      congrFun (FleeceStateManager.refines_create created).view.symm _
    rw [show (create manager).stateManager = manager from rfl, empty] at held
    cases held

section Covered

variable {runtime next : FleeceRuntime} (covered : runtime.Covered)
include covered

theorem Covered.talks (talks : runtime.Talks next) : next.Covered := by
  obtain ⟨store, watermark, sent⟩ := talks
  refine ⟨store ▸ covered.packed, store ▸ covered.clock, ?_, ?_⟩
  · rw [store, watermark]
    exact covered.behind
  · rw [store, watermark]
    intro key record held early
    exact (covered.upTo key record held early).mono sent

/-- An operation on the store that keeps what is up to the watermark. -/
theorem Covered.operation {operation : Operation} (stays : operation ≠ .compact)
    (noWrap : runtime.stateManager.NoWrap operation)
    (upTo : (operation.next runtime.stateManager).UpTo runtime.sharedGossipWatermark
      (runtime.comms.Broadcast runtime.stateManager.nodeId)) :
    { runtime with stateManager := operation.next runtime.stateManager : FleeceRuntime }.Covered := by
  have store := covered.packed.store
  refine ⟨covered.packed.operation stays, ?_, ?_, ?_⟩
  · exact (FleeceStateManager.operation_keeps store covered.clock operation fun change isWrite =>
      noWrap (isWrite ▸ rfl)).1
  · exact UInt64.le_trans covered.behind (FleeceStateManager.clock_le_next store noWrap)
  · show (operation.next runtime.stateManager).UpTo _
      (runtime.comms.Broadcast (operation.next runtime.stateManager).nodeId)
    rw [FleeceStateManager.operation_nodeId store]
    exact upTo

theorem Covered.importAndTrack {data : Blob}
    (timely : runtime.stateManager.TimelyFrame runtime.sharedGossipWatermark data) :
    (runtime.importAndTrack data).Covered := by
  have imported := covered.operation (show Operation.importFrom data ≠ .compact from nofun) nofun
    (covered.upTo.importFrom covered.packed timely)
  unfold FleeceRuntime.importAndTrack
  simp only
  split
  · exact imported
  · exact imported.talks (noteBehind_talks _ _ _)

/-- The bounded export only marks slots. -/
theorem Covered.bounded (since : UInt64) (capBytes : Nat) :
    { runtime with stateManager := (runtime.stateManager.exportSharedDeltaBounded since
      capBytes).manager : FleeceRuntime }.Covered := by
  refine covered.operation
    (show Operation.exportSharedDeltaBounded since capBytes ≠ .compact from nofun) nofun ?_
  refine covered.upTo.of_view fun key => covered.packed.view_next ?_ (Set.notMem_empty _)
  exact nofun

theorem Covered.sendBeacon : runtime.sendBeacon.Covered :=
  (covered.bounded _ _).talks ⟨rfl, rfl, sent_send _ _ _⟩

theorem Covered.sendDelta (isOpen : runtime.comms.isInitialized = true)
    (ready : ∀ i ∈ runtime.stateManager.pending runtime.sharedGossipWatermark,
      runtime.stateManager.fitsFrame (runtime.stateManager.fields i) = true ∧
        (runtime.stateManager.fields i).timestamp ≠ clockMax) :
    runtime.sendDelta.Covered := by
  have marked := covered.bounded runtime.sharedGossipWatermark gossipFrameBytes
  have unmarked := FleeceStateManager.exportSharedDeltaBounded_steps runtime.stateManager
    runtime.sharedGossipWatermark gossipFrameBytes
  have view : runtime.sendDelta.stateManager.view = runtime.stateManager.view :=
    FleeceStateManager.view_of_unmarked (FleeceStateManager.markSteps_rest unmarked).2
  refine ⟨marked.packed, marked.clock, ?_, fun key record held early => ?_⟩
  · exact watermark_sendDelta_le covered.clock
  · rw [view] at held
    by_cases before : record.timestamp ≤ runtime.sharedGossipWatermark
    · exact (covered.upTo key record held before).mono (sent_send _ _ _)
    · exact delta_carries covered.packed isOpen ready held (UInt64.not_le.mp before) early

theorem Covered.turn (careful : runtime.Careful .turn) : runtime.gossipTurn.Covered := by
  have phase : runtime.gossipPhase.Covered := by
    unfold gossipPhase
    simp only
    split_ifs with due beacon
    · obtain ⟨isOpen, ready⟩ := careful due
      exact covered.sendDelta isOpen ready
    · exact covered.sendBeacon
    · exact covered
  have spoken := phase.talks (sendResyncRequests_talks _)
  unfold gossipTurn
  generalize runtime.gossipPhase.sendResyncRequests = last at spoken ⊢
  exact ⟨spoken.packed, spoken.clock, spoken.behind, spoken.upTo⟩

theorem Covered.step {act : Act} (careful : runtime.Careful act) : (runtime.step act).Covered := by
  cases act with
  | write change =>
    exact covered.operation (show Operation.write change ≠ .compact from nofun) (fun _ => careful)
      (covered.upTo.write covered.packed covered.behind careful change)
  | receive source data =>
    simp only [FleeceRuntime.step, gossipReceive]
    split_ifs
    · exact covered
    · exact covered.talks (handleFxFrame_talks runtime data source)
    · exact covered
    · exact covered.importAndTrack careful
  | gossipFrame data =>
    simp only [FleeceRuntime.step, onGossipFrame]
    split_ifs
    · exact covered
    · exact covered.importAndTrack careful
  | controlFrame data =>
    simp only [FleeceRuntime.step, onControlFrame]
    split_ifs
    · exact covered.talks (handleFxFrame_talks runtime data .mesh)
    · exact covered
  | tick =>
    exact covered.operation (show Operation.tick ≠ .compact from nofun) nofun
      (covered.upTo.of_view fun key => rfl)
  | turn => exact covered.turn careful
  | initializeComms => exact covered.talks ⟨rfl, rfl, List.prefix_refl _⟩
  | close => exact covered.talks ⟨rfl, rfl, List.prefix_refl _⟩
  | setGossipCadence gossipEvery beaconEvery =>
    simp only [FleeceRuntime.step, setGossipCadence]
    split_ifs
    · exact covered
    · exact covered.talks ⟨rfl, rfl, List.prefix_refl _⟩

end Covered

/-- In every state a run of careful steps reaches, every shared named record at or below the
watermark was broadcast in its current version, and so every other one is above it. -/
theorem watermark_covers_broadcast {nodeId : UInt64} {manager : FleeceStateManager}
    (created : FleeceStateManager.createWithNodeId nodeId = some manager) (acts : List Act)
    (careful : Along FleeceRuntime.step Careful (create manager) acts) :
    ∀ f, (runFrom FleeceRuntime.step (create manager) acts).stateManager.Carried sharedOwnerId f →
      f.timestamp ≤ (runFrom FleeceRuntime.step (create manager) acts).sharedGossipWatermark →
      (runFrom FleeceRuntime.step (create manager) acts).comms.Broadcast
        (runFrom FleeceRuntime.step (create manager) acts).stateManager.nodeId f.record := by
  have covered := careful.invariant (fun _ _ holds allowed => Covered.step holds allowed)
    (covered_create created)
  intro f carried early
  exact covered.upTo f.key f.record (carried.view covered.packed.store.distinct) early

/-- A write, and a turn over an open transport. -/
theorem watermark_covers_broadcast_write :
    let acts : List Act := [.initializeComms,
      .write (.setShared ⟨[0x61], by decide⟩ ⟨[1], by decide⟩), .turn]
    let runtime := runFrom FleeceRuntime.step (create (FleeceStateManager.blank 7)) acts
    runtime.sharedGossipWatermark = 1 ∧
      runtime.comms.Broadcast runtime.stateManager.nodeId
        (runtime.stateManager.fields 0).record := by
  intro acts runtime
  have careful : Along FleeceRuntime.step Careful (create (FleeceStateManager.blank 7)) acts := by
    decide +kernel
  have carried : runtime.stateManager.Carried sharedOwnerId (runtime.stateManager.fields 0) :=
    ⟨FleeceStateManager.mem_slots.mpr ⟨0, rfl⟩, by decide +kernel⟩
  exact ⟨by decide +kernel, watermark_covers_broadcast
    (show FleeceStateManager.createWithNodeId 7 = some (FleeceStateManager.blank 7) from rfl) acts
    careful _ carried (by decide +kernel)⟩

/-- Two runs that lose a record. In the first the transport is closed when the delta is sent: the
watermark passes the record all the same. In the second a peer with a slow clock sends a record
after the watermark has passed its timestamp: it is stored below the watermark. -/
theorem watermark_passes_unsent :
    let first := Act.write (.setShared ⟨[0x61], by decide⟩ ⟨[1], by decide⟩)
    let second := Act.write (.setShared ⟨[0x62], by decide⟩ ⟨[1], by decide⟩)
    let frame := GossipExport.shared.frame ((FleeceStateManager.blank 9).after
      [.write (.setShared ⟨[0x63], by decide⟩ ⟨[1], by decide⟩)])
    let closed := runFrom FleeceRuntime.step (create (FleeceStateManager.blank 7)) [first, .turn]
    let slow := runFrom FleeceRuntime.step (create (FleeceStateManager.blank 7))
      [.initializeComms, first, second, .turn, .receive .mesh frame]
    (closed.stateManager.Carried sharedOwnerId (closed.stateManager.fields 0) ∧
        (closed.stateManager.fields 0).timestamp ≤ closed.sharedGossipWatermark ∧
        ¬ closed.comms.Broadcast 7 (closed.stateManager.fields 0).record) ∧
      slow.stateManager.Carried sharedOwnerId (slow.stateManager.fields 2) ∧
        (slow.stateManager.fields 2).timestamp ≤ slow.sharedGossipWatermark ∧
        ¬ slow.comms.Broadcast 7 (slow.stateManager.fields 2).record := by
  intro first second frame closed slow
  refine ⟨⟨⟨FleeceStateManager.mem_slots.mpr ⟨0, rfl⟩, by decide +kernel⟩, by decide +kernel, ?_⟩,
    ⟨FleeceStateManager.mem_slots.mpr ⟨2, rfl⟩, by decide +kernel⟩, by decide +kernel, ?_⟩
  · rintro ⟨sent, member, _⟩
    have none : closed.comms.sent = [] := by decide +kernel
    rw [none] at member
    exact absurd member List.not_mem_nil
  · rintro ⟨sent, member, read⟩
    obtain ⟨parsed, isParsed, _, carried⟩ := read 9 (by decide)
    have absent : ∀ post ∈ slow.comms.sent, (parseFrame 9 post.2).toOption.all (fun parsed =>
        decide ((slow.stateManager.fields 2).record ∉ parsed.records)) = true := by decide +kernel
    have here := absent _ member
    rw [isParsed] at here
    exact absurd carried (of_decide_eq_true here)

end FleeceRuntime

end Fleece
