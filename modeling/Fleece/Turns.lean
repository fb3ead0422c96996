/-
This file follows the table of repair targets over the turns of the main loop. A
turn asks the peers that need repair for their index, at most two of them, in the
order of the table, and a request that was not answered is due again after eight
ticks. Between two turns anything may come in.

A retry counts against the two starts of a turn, so that peers at the head of the
table that never answer can take all of them. How long a target waits is therefore
a matter of how many rounds the targets before it have to start: in eight turns
sixteen can be started, and each target takes one of them, and one more for every
answer that leaves it in need.
-/

import Fleece.Inbound

namespace Fleece

namespace FleeceRuntime

/-! ### One turn of the resync loop -/

/-- The target is there and its repair is pending. -/
def needs (runtime : FleeceRuntime) (i : Fin maxResyncTargets) : Bool :=
  (runtime.resyncTargets i).slotExists && (runtime.resyncTargets i).needShared

/-- No local write for `FLEECE_RESYNC_QUIESCE_TICKS`. -/
def isQuiet (runtime : FleeceRuntime) : Bool :=
  decide (runtime.stateManager.ticksSinceLastWrite ≥ resyncQuiesceTicks)

/-- A request would be sent if it were this target's turn: no round is in flight, or the one in
flight has gone unanswered for `FLEECE_RESYNC_RETRY_TICKS`. -/
def isDue (runtime : FleeceRuntime) (i : Fin maxResyncTargets) : Bool :=
  runtime.needs i && runtime.isQuiet && (!(runtime.resyncTargets i).awaitingIndex ||
    decide (runtime.gossipTickCount.toUInt64 - (runtime.resyncTargets i).lastIndexReqTick ≥
      resyncRetryTicks))

/-- The peer has not been heard for `FLEECE_RESYNC_PROBE_TICKS`. -/
def isProbed (runtime : FleeceRuntime) (i : Fin maxResyncTargets) : Bool :=
  (runtime.resyncTargets i).slotExists &&
    decide (runtime.gossipTickCount.toUInt64 - (runtime.resyncTargets i).lastHeardTick ≥
      resyncProbeTicks)

/-- The targets among the first `count` of the table that are due. -/
def dueAmong (runtime : FleeceRuntime) (count : Nat) : Finset (Fin maxResyncTargets) :=
  Finset.univ.filter fun i => i.val < count ∧ runtime.isDue i = true

/-- The target is due, and fewer than `FLEECE_RESYNC_STARTS_PER_TICK` before it are. -/
def isStarted (runtime : FleeceRuntime) (i : Fin maxResyncTargets) : Bool :=
  runtime.isDue i && decide ((runtime.dueAmong i.val).card < resyncStartsPerTick)

/-- The entry of a target after the loop, which may have started a round with it. -/
def entryAfter (runtime : FleeceRuntime) (starts : Bool) (i : Fin maxResyncTargets) :
    ResyncTarget :=
  let target := runtime.resyncTargets i
  let now := runtime.gossipTickCount.toUInt64
  let repaired :=
    if starts then { target with awaitingIndex := true, lastIndexReqTick := now } else target
  if runtime.isProbed i then { repaired with awaitingIndex := true, lastHeardTick := now }
  else repaired

/-- The frame of an index request. -/
def indexRequest (nodeId : UInt64) : Blob := .ofBuffer (controlFrame nodeId 0 [])

/-- What the loop hands the transport for a target. -/
def requestsTo (runtime : FleeceRuntime) (i : Fin maxResyncTargets) : List (Destination × Blob) :=
  List.replicate ((runtime.isStarted i).toNat + (runtime.isProbed i).toNat)
    ((runtime.resyncTargets i).source, indexRequest runtime.stateManager.nodeId)

/-- The loop after its first `count` targets. -/
def scanned (runtime : FleeceRuntime) (count : Nat) : FleeceRuntime × Nat :=
  ({ runtime with
      comms := { runtime.comms with
        sent := runtime.comms.sent ++ if runtime.comms.isInitialized then
          ((List.finRange maxResyncTargets).take count).flatMap runtime.requestsTo else [] }
      resyncTargets := fun i =>
        if i.val < count then runtime.entryAfter (runtime.isStarted i) i
        else runtime.resyncTargets i },
    min resyncStartsPerTick (runtime.dueAmong count).card)

theorem take_finRange_succ {n : Nat} (i : Fin n) :
    (List.finRange n).take (i.val + 1) = (List.finRange n).take i.val ++ [i] := by
  rw [List.take_add_one]
  simp

theorem dueAmong_succ (runtime : FleeceRuntime) (i : Fin maxResyncTargets) :
    runtime.dueAmong (i.val + 1) =
      if runtime.isDue i then insert i (runtime.dueAmong i.val) else runtime.dueAmong i.val := by
  ext j
  by_cases due : runtime.isDue i = true
  · rw [if_pos due]
    simp only [dueAmong, Finset.mem_filter, Finset.mem_univ, true_and, Finset.mem_insert]
    grind
  · rw [if_neg due]
    simp only [dueAmong, Finset.mem_filter, Finset.mem_univ, true_and]
    grind

theorem card_dueAmong_succ (runtime : FleeceRuntime) (i : Fin maxResyncTargets) :
    (runtime.dueAmong (i.val + 1)).card =
      (runtime.dueAmong i.val).card + (runtime.isDue i).toNat := by
  rw [dueAmong_succ]
  by_cases due : runtime.isDue i = true
  · rw [if_pos due, due, Finset.card_insert_of_notMem (by simp [dueAmong])]
    rfl
  · rw [if_neg due, Bool.eq_false_iff.mpr due]
    rfl

/-- A started round is what the next slot adds to the starts already made. -/
theorem min_dueAmong_succ (runtime : FleeceRuntime) (i : Fin maxResyncTargets) :
    min resyncStartsPerTick (runtime.dueAmong (i.val + 1)).card =
      min resyncStartsPerTick (runtime.dueAmong i.val).card + (runtime.isStarted i).toNat := by
  rw [card_dueAmong_succ, isStarted]
  cases runtime.isDue i with
  | false => simp
  | true =>
    by_cases few : (runtime.dueAmong i.val).card < resyncStartsPerTick
    · simp only [few, decide_true, Bool.and_self, Bool.toNat_true]
      omega
    · simp only [few, decide_false, Bool.and_false, Bool.toNat_false, Bool.toNat_true]
      omega

theorem size_indexRequest (nodeId : UInt64) : 0 < (indexRequest nodeId).size := by
  have short : (controlFrame nodeId 0 []).length = 6 + uintSize nodeId := by
    simp only [controlFrame, List.length_append, length_writeArrayHeader, length_writeUint,
      List.flatMap_nil, List.length_nil, show controlMagic.length = 3 from rfl,
      show arrayHeaderSize 3 = 1 from rfl, show arrayHeaderSize 0 = 1 from rfl,
      show uintSize (0 : UInt8).toUInt64 = 1 from rfl]
    omega
  have bounded := uintSize_le nodeId
  unfold indexRequest Blob.size
  rw [Blob.ofBuffer_bytes_of_lt (by omega), short]
  omega

theorem send_indexRequest (comms : FleeceComms) (destination : Destination) (nodeId : UInt64) :
    (comms.send destination (indexRequest nodeId)).1 = { comms with
      sent := comms.sent ++ if comms.isInitialized then [(destination, indexRequest nodeId)]
        else [] } := by
  have sized : ((indexRequest nodeId).size == 0) = false :=
    beq_false_of_ne (size_indexRequest nodeId).ne'
  obtain ⟨isOpen, sent⟩ := comms
  cases isOpen with
  | false => simp [FleeceComms.send]
  | true => simp [FleeceComms.send, sized]

theorem requestIndex_eq (runtime : FleeceRuntime) (i : Fin maxResyncTargets) :
    runtime.requestIndex i = { runtime with comms := { runtime.comms with
      sent := runtime.comms.sent ++ if runtime.comms.isInitialized then
        [((runtime.resyncTargets i).source, indexRequest runtime.stateManager.nodeId)]
        else [] } } :=
  congrArg (fun comms => { runtime with comms := comms }) (send_indexRequest _ _ _)

/-- One turn of the loop in one piece: the requests it makes and the entry it leaves. -/
theorem resyncSlot_eq (state : FleeceRuntime × Nat) (i : Fin maxResyncTargets) :
    resyncSlot state i =
      let starts := state.1.isDue i && decide (state.2 < resyncStartsPerTick)
      ({ state.1 with
          comms := { state.1.comms with
            sent := state.1.comms.sent ++ if state.1.comms.isInitialized then
              List.replicate (starts.toNat + (state.1.isProbed i).toNat)
                ((state.1.resyncTargets i).source, indexRequest state.1.stateManager.nodeId)
              else [] }
          resyncTargets := Function.update state.1.resyncTargets i
            (state.1.entryAfter starts i) },
        state.2 + starts.toNat) := by
  obtain ⟨runtime, count⟩ := state
  simp only [resyncSlot]
  cases held : (runtime.resyncTargets i).slotExists with
  | false =>
    simp [isDue, needs, isProbed, entryAfter, held]
  | true =>
    have condition : ((runtime.resyncTargets i).needShared &&
        decide (runtime.stateManager.ticksSinceLastWrite ≥ resyncQuiesceTicks) &&
        decide (count < resyncStartsPerTick) && (!(runtime.resyncTargets i).awaitingIndex ||
          decide (runtime.gossipTickCount.toUInt64 - (runtime.resyncTargets i).lastIndexReqTick ≥
            resyncRetryTicks))) =
        (runtime.isDue i && decide (count < resyncStartsPerTick)) := by
      rw [isDue, needs, held, Bool.true_and, Bool.and_right_comm]
      rfl
    have probed : decide (runtime.gossipTickCount.toUInt64 -
        (runtime.resyncTargets i).lastHeardTick ≥ resyncProbeTicks) = runtime.isProbed i := by
      rw [isProbed, held, Bool.true_and]
    rw [condition]
    simp only [Bool.not_true, Bool.false_eq_true, if_false, ← probed, entryAfter, decide_eq_true_eq]
    cases runtime.isDue i && decide (count < resyncStartsPerTick) with
    | false =>
      by_cases late : runtime.gossipTickCount.toUInt64 -
        (runtime.resyncTargets i).lastHeardTick ≥ resyncProbeTicks
      · simp [late, withTarget, requestIndex_eq]
      · simp [late]
    | true =>
      by_cases late : runtime.gossipTickCount.toUInt64 -
        (runtime.resyncTargets i).lastHeardTick ≥ resyncProbeTicks
      · simp only [late, withTarget, requestIndex_eq, if_true, Function.update_self,
          Function.update_idem, Bool.toNat_true, decide_true]
        cases runtime.comms.isInitialized with
        | false => simp
        | true => simp [ResyncTarget.source]
      · simp [late, withTarget, requestIndex_eq]

theorem resyncSlot_scanned (runtime : FleeceRuntime) (i : Fin maxResyncTargets) :
    resyncSlot (runtime.scanned i.val) i = runtime.scanned (i.val + 1) := by
  have entry : (runtime.scanned i.val).1.resyncTargets i = runtime.resyncTargets i :=
    if_neg (lt_irrefl _)
  have due : (runtime.scanned i.val).1.isDue i = runtime.isDue i := by
    simp only [isDue, needs, entry]
    rfl
  have probed : (runtime.scanned i.val).1.isProbed i = runtime.isProbed i := by
    simp only [isProbed, entry]
    rfl
  have capped : (runtime.isDue i && decide ((runtime.scanned i.val).2 < resyncStartsPerTick)) =
      runtime.isStarted i := by
    simp [scanned, isStarted]
  have after (starts : Bool) : (runtime.scanned i.val).1.entryAfter starts i =
      runtime.entryAfter starts i := by
    simp only [entryAfter, probed, entry]
    rfl
  rw [resyncSlot_eq]
  simp only [due, capped, probed, after, entry]
  have sent : (runtime.scanned i.val).1.comms.sent ++
      (if runtime.comms.isInitialized then runtime.requestsTo i else []) =
      (runtime.scanned (i.val + 1)).1.comms.sent := by
    simp only [scanned, take_finRange_succ, List.flatMap_append, List.flatMap_singleton]
    cases runtime.comms.isInitialized with
    | false => simp
    | true => simp [List.append_assoc]
  have table : Function.update (runtime.scanned i.val).1.resyncTargets i
        (runtime.entryAfter (runtime.isStarted i) i) =
      (runtime.scanned (i.val + 1)).1.resyncTargets := by
    funext j
    by_cases equal : j = i
    · subst equal
      simp [scanned]
    · have apart : j.val ≠ i.val := fun same => equal (Fin.ext same)
      simp only [Function.update_of_ne equal, scanned]
      grind
  have count : (runtime.scanned i.val).2 + (runtime.isStarted i).toNat =
      (runtime.scanned (i.val + 1)).2 :=
    (min_dueAmong_succ runtime i).symm
  rw [table, count]
  refine Prod.ext (congrArg (fun sent => { (runtime.scanned (i.val + 1)).1 with comms :=
    { runtime.comms with sent := sent } }) sent) rfl

theorem foldl_resyncSlot (runtime : FleeceRuntime) :
    (List.finRange maxResyncTargets).foldl resyncSlot (runtime, 0) =
      runtime.scanned maxResyncTargets := by
  have upTo (count : Nat) (most : count ≤ maxResyncTargets) :
      ((List.finRange maxResyncTargets).take count).foldl resyncSlot (runtime, 0) =
        runtime.scanned count := by
    induction count with
    | zero =>
      simp [scanned, dueAmong]
    | succ count inductionHypothesis =>
      rw [take_finRange_succ ⟨count, most⟩, List.foldl_append, inductionHypothesis (by omega)]
      exact resyncSlot_scanned runtime ⟨count, most⟩
  have all := upTo maxResyncTargets le_rfl
  rwa [List.take_of_length_le (by simp)] at all

/-! ### Turns and the traffic between them -/

/-- What the resync loop reads of the runtime is the same. -/
structure SameLoop (runtime next : FleeceRuntime) : Prop where
  targets : next.resyncTargets = runtime.resyncTargets
  now : next.gossipTickCount = runtime.gossipTickCount
  quiet : next.isQuiet = runtime.isQuiet
  isOpen : next.comms.isInitialized = runtime.comms.isInitialized
  nodeId : next.stateManager.nodeId = runtime.stateManager.nodeId

theorem SameLoop.trans {first second third : FleeceRuntime} (one : first.SameLoop second)
    (two : second.SameLoop third) : first.SameLoop third :=
  ⟨two.targets.trans one.targets, two.now.trans one.now, two.quiet.trans one.quiet,
    two.isOpen.trans one.isOpen, two.nodeId.trans one.nodeId⟩

theorem SameLoop.isDue {runtime next : FleeceRuntime} (same : runtime.SameLoop next)
    (i : Fin maxResyncTargets) : next.isDue i = runtime.isDue i := by
  rw [FleeceRuntime.isDue, FleeceRuntime.isDue, needs, needs, same.targets, same.now, same.quiet]

theorem SameLoop.isProbed {runtime next : FleeceRuntime} (same : runtime.SameLoop next)
    (i : Fin maxResyncTargets) : next.isProbed i = runtime.isProbed i := by
  rw [FleeceRuntime.isProbed, FleeceRuntime.isProbed, same.targets, same.now]

theorem SameLoop.isStarted {runtime next : FleeceRuntime} (same : runtime.SameLoop next)
    (i : Fin maxResyncTargets) : next.isStarted i = runtime.isStarted i := by
  have among : next.dueAmong i.val = runtime.dueAmong i.val := by
    ext j
    simp only [dueAmong, Finset.mem_filter, same.isDue]
  rw [FleeceRuntime.isStarted, FleeceRuntime.isStarted, same.isDue, among]

theorem SameLoop.entryAfter {runtime next : FleeceRuntime} (same : runtime.SameLoop next)
    (starts : Bool) (i : Fin maxResyncTargets) :
    next.entryAfter starts i = runtime.entryAfter starts i := by
  rw [FleeceRuntime.entryAfter, FleeceRuntime.entryAfter, same.isProbed, same.targets, same.now]

theorem isInitialized_send (comms : FleeceComms) (destination : Destination) (data : Blob) :
    (comms.send destination data).1.isInitialized = comms.isInitialized := by
  unfold FleeceComms.send
  split <;> rfl

theorem gossipPhase_sameLoop (runtime : FleeceRuntime) : runtime.SameLoop runtime.gossipPhase := by
  unfold gossipPhase
  simp only
  split
  · exact ⟨rfl, rfl, rfl, isInitialized_send _ _ _, rfl⟩
  · split
    · exact ⟨rfl, rfl, rfl, isInitialized_send _ _ _, rfl⟩
    · exact ⟨rfl, rfl, rfl, rfl, rfl⟩

theorem flushSlot_sameLoop (runtime : FleeceRuntime) (i : Fin maxPendingTx) :
    runtime.SameLoop (runtime.flushSlot i) := by
  unfold flushSlot
  split
  · exact ⟨rfl, rfl, rfl, rfl, rfl⟩
  · split
    · exact ⟨rfl, rfl, rfl, rfl, rfl⟩
    · exact ⟨rfl, rfl, rfl, isInitialized_send _ _ _, rfl⟩

theorem flushPendingTx_sameLoop (runtime : FleeceRuntime) :
    runtime.SameLoop runtime.flushPendingTx := by
  unfold flushPendingTx
  generalize List.finRange maxPendingTx = slots
  induction slots generalizing runtime with
  | nil => exact ⟨rfl, rfl, rfl, rfl, rfl⟩
  | cons i rest inductionHypothesis =>
    exact (flushSlot_sameLoop runtime i).trans (inductionHypothesis _)

/-- The runtime as the resync loop of a turn finds it. -/
def loopStart (runtime : FleeceRuntime) : FleeceRuntime := runtime.gossipPhase.flushPendingTx

theorem loopStart_sameLoop (runtime : FleeceRuntime) : runtime.SameLoop runtime.loopStart :=
  (gossipPhase_sameLoop runtime).trans (flushPendingTx_sameLoop _)

theorem gossipTurn_eq (runtime : FleeceRuntime) : runtime.gossipTurn =
    { (runtime.loopStart.scanned maxResyncTargets).1 with
      gossipTickCount := runtime.gossipTickCount + 1 } := by
  have now : (runtime.loopStart.scanned maxResyncTargets).1.gossipTickCount =
      runtime.gossipTickCount := runtime.loopStart_sameLoop.now
  unfold gossipTurn sendResyncRequests
  simp only
  rw [show runtime.gossipPhase.flushPendingTx = runtime.loopStart from rfl, foldl_resyncSlot, now]

section Turn

variable (runtime : FleeceRuntime) (i : Fin maxResyncTargets)

theorem resyncTargets_gossipTurn :
    runtime.gossipTurn.resyncTargets i = runtime.entryAfter (runtime.isStarted i) i := by
  have same := runtime.loopStart_sameLoop
  rw [gossipTurn_eq]
  simp only [scanned, i.isLt, if_true, same.isStarted, same.entryAfter]

theorem gossipTickCount_gossipTurn :
    runtime.gossipTurn.gossipTickCount = runtime.gossipTickCount + 1 := by
  rw [gossipTurn_eq]

/-- A turn neither writes nor opens or closes the transport. -/
theorem kept_gossipTurn : runtime.gossipTurn.isQuiet = runtime.isQuiet ∧
    runtime.gossipTurn.comms.isInitialized = runtime.comms.isInitialized ∧
    runtime.gossipTurn.stateManager.nodeId = runtime.stateManager.nodeId := by
  have same := runtime.loopStart_sameLoop
  rw [gossipTurn_eq]
  exact ⟨same.quiet, same.isOpen, same.nodeId⟩

/-- The turn hands the transport an index request for the target, after the deferred frames. -/
def Asks : Prop :=
  ((runtime.resyncTargets i).source, indexRequest runtime.stateManager.nodeId) ∈
    runtime.gossipTurn.comms.sent.drop runtime.loopStart.comms.sent.length

variable {runtime i}

theorem sent_gossipTurn (isOpen : runtime.comms.isInitialized = true) :
    runtime.gossipTurn.comms.sent.drop runtime.loopStart.comms.sent.length =
      (List.finRange maxResyncTargets).flatMap runtime.requestsTo := by
  have same := runtime.loopStart_sameLoop
  have requests : runtime.loopStart.requestsTo = runtime.requestsTo := by
    funext j
    rw [requestsTo, requestsTo, same.targets, same.nodeId, same.isStarted, same.isProbed]
  rw [gossipTurn_eq]
  simp only [scanned, same.isOpen, isOpen, if_true]
  rw [List.take_of_length_le (by simp), List.drop_left, requests]

theorem asks_of_started (isOpen : runtime.comms.isInitialized = true)
    (started : runtime.isStarted i = true) : runtime.Asks i := by
  rw [Asks, sent_gossipTurn isOpen]
  refine List.mem_flatMap.mpr ⟨i, List.mem_finRange i, ?_⟩
  rw [requestsTo, started, List.mem_replicate]
  exact ⟨by simp, rfl⟩

/-- A request that a turn sends belongs to a target that was started or probed. -/
theorem source_of_asks (isOpen : runtime.comms.isInitialized = true) (asked : runtime.Asks i) :
    ∃ j, (runtime.resyncTargets j).source = (runtime.resyncTargets i).source ∧
      (runtime.isStarted j || runtime.isProbed j) = true := by
  rw [Asks, sent_gossipTurn isOpen] at asked
  obtain ⟨j, _, request⟩ := List.mem_flatMap.mp asked
  obtain ⟨some, equal⟩ := List.mem_replicate.mp request
  refine ⟨j, (congrArg Prod.fst equal).symm, ?_⟩
  by_contra neither
  simp only [Bool.not_eq_true, Bool.or_eq_false_iff] at neither
  exact some (by rw [neither.1, neither.2]; rfl)

end Turn

/-- The tick is the same, and an entry that was there is still there, with its peer and the tick
of its last request. -/
structure KeepsEntries (runtime next : FleeceRuntime) : Prop where
  now : next.gossipTickCount = runtime.gossipTickCount
  entry : ∀ i, (runtime.resyncTargets i).slotExists = true →
    (next.resyncTargets i).slotExists = true ∧
      (next.resyncTargets i).nodeId = (runtime.resyncTargets i).nodeId ∧
      (next.resyncTargets i).lastIndexReqTick = (runtime.resyncTargets i).lastIndexReqTick

theorem KeepsEntries.of_same {runtime next : FleeceRuntime}
    (now : next.gossipTickCount = runtime.gossipTickCount)
    (same : next.resyncTargets = runtime.resyncTargets) : runtime.KeepsEntries next :=
  ⟨now, fun i held => by rw [same]; exact ⟨held, rfl, rfl⟩⟩

theorem KeepsEntries.trans {first second third : FleeceRuntime} (one : first.KeepsEntries second)
    (two : second.KeepsEntries third) : first.KeepsEntries third where
  now := two.now.trans one.now
  entry := fun i held => by
    obtain ⟨middle, peer, request⟩ := one.entry i held
    obtain ⟨last, samePeer, sameRequest⟩ := two.entry i middle
    exact ⟨last, samePeer.trans peer, sameRequest.trans request⟩

theorem resyncTargetForId_keepsEntries (runtime : FleeceRuntime) (nodeId : UInt64) :
    runtime.KeepsEntries (runtime.resyncTargetForId nodeId).1 := by
  unfold resyncTargetForId
  split
  · exact .of_same rfl rfl
  · split
    · rename_i i free
      have vacant := (Bool.not_eq_true' _).mp (Fin.eq_true_of_find?_eq_some free)
      refine ⟨rfl, fun j held => ?_⟩
      have apart : j ≠ i := by
        rintro rfl
        rw [vacant] at held
        cases held
      simp only [Function.update_of_ne apart, held, and_self]
    · exact .of_same rfl rfl

/-- The flags and the tick of the last frame may change freely. -/
theorem withTarget_keepsEntries (found : FleeceRuntime × Option (Fin maxResyncTargets))
    {change : ResyncTarget → ResyncTarget}
    (kept : ∀ target, (change target).slotExists = target.slotExists ∧
      (change target).nodeId = target.nodeId ∧
      (change target).lastIndexReqTick = target.lastIndexReqTick) :
    found.1.KeepsEntries (withTarget found change) := by
  unfold withTarget
  split
  · exact .of_same rfl rfl
  · rename_i i _
    refine ⟨rfl, fun j held => ?_⟩
    by_cases equal : j = i
    · subst equal
      simp only [Function.update_self]
      obtain ⟨there, peer, request⟩ := kept (found.1.resyncTargets j)
      exact ⟨there.trans held, peer, request⟩
    · simp only [Function.update_of_ne equal, held, and_self]

theorem track_keepsEntries (runtime : FleeceRuntime) (nodeId : UInt64)
    (change : ResyncTarget → ResyncTarget)
    (kept : ∀ target, (change target).slotExists = target.slotExists ∧
      (change target).nodeId = target.nodeId ∧
      (change target).lastIndexReqTick = target.lastIndexReqTick) :
    runtime.KeepsEntries (withTarget (runtime.resyncTargetForId nodeId) change) :=
  (resyncTargetForId_keepsEntries runtime nodeId).trans (withTarget_keepsEntries _ kept)

theorem enqueueTx_keepsEntries (runtime : FleeceRuntime) (dest : Destination) (data : Blob) :
    runtime.KeepsEntries (runtime.enqueueTx dest data) := by
  unfold enqueueTx
  split <;> exact .of_same rfl rfl

theorem noteBehind_keepsEntries (runtime : FleeceRuntime) (behindShared : Bool) (sender : UInt64) :
    runtime.KeepsEntries (runtime.noteBehind behindShared sender) :=
  track_keepsEntries runtime sender _ fun _ => ⟨rfl, rfl, rfl⟩

theorem requestMissingKeys_keepsEntries (runtime : FleeceRuntime) (origin : UInt64)
    (pairs : List (UInt64 × UInt64)) :
    runtime.KeepsEntries (runtime.requestMissingKeys origin pairs).1 := by
  unfold requestMissingKeys
  simp only
  split
  · exact enqueueTx_keepsEntries _ _ _
  · exact track_keepsEntries runtime origin (fun target => { target with needShared := false })
      fun _ => ⟨rfl, rfl, rfl⟩

theorem handleFxFrame_keepsEntries (runtime : FleeceRuntime) (data : Blob) (source : Destination) :
    runtime.KeepsEntries (runtime.handleFxFrame data source) := by
  have idle : runtime.KeepsEntries runtime := .of_same rfl rfl
  unfold handleFxFrame
  cases readControlHead data.bytes data.size with
  | error halt => exact idle
  | ok head =>
    simp only
    split
    · exact enqueueTx_keepsEntries _ _ _
    · split
      · cases readHashes data.bytes data.size head.items.toNat head.pos [] with
        | error halt => exact idle
        | ok hashes =>
          simp only
          split
          · exact enqueueTx_keepsEntries _ _ _
          · exact idle
      · split
        · cases readPairs data.bytes data.size head.items.toNat head.pos [] with
          | error halt => exact idle
          | ok pairs =>
            have closed := track_keepsEntries runtime head.origin
              (fun target => { target with awaitingIndex := false }) fun _ => ⟨rfl, rfl, rfl⟩
            exact closed.trans (requestMissingKeys_keepsEntries _ _ _)
        · exact idle

theorem importAndTrack_keepsEntries (runtime : FleeceRuntime) (data : Blob) :
    runtime.KeepsEntries (runtime.importAndTrack data) := by
  have merged : runtime.KeepsEntries { runtime with
      stateManager := (runtime.stateManager.importFrom data).manager } := .of_same rfl rfl
  unfold importAndTrack
  simp only
  split
  · exact merged
  · exact merged.trans (noteBehind_keepsEntries _ _ _)

/-- Whatever happens between two turns keeps the entries. -/
theorem step_keepsEntries (runtime : FleeceRuntime) {act : Act} (between : act ≠ .turn) :
    runtime.KeepsEntries (runtime.step act) := by
  cases act with
  | turn => exact absurd rfl between
  | receive source data =>
    simp only [step, gossipReceive]
    split
    · exact .of_same rfl rfl
    · split
      · split
        · exact handleFxFrame_keepsEntries _ _ _
        · exact .of_same rfl rfl
      · exact importAndTrack_keepsEntries _ _
  | gossipFrame data =>
    rw [step, onGossipFrame_eq]
    exact importAndTrack_keepsEntries _ _
  | controlFrame data =>
    simp only [step, onControlFrame]
    split
    · exact handleFxFrame_keepsEntries _ _ _
    · exact .of_same rfl rfl
  | setGossipCadence gossipEveryTicks beaconEveryTicks =>
    simp only [step, setGossipCadence]
    split <;> exact .of_same rfl rfl
  | write change => exact .of_same rfl rfl
  | tick => exact .of_same rfl rfl
  | initializeComms => exact .of_same rfl rfl
  | close => exact .of_same rfl rfl

theorem runFrom_keepsEntries (runtime : FleeceRuntime) {acts : List Act}
    (between : Act.turn ∉ acts) : runtime.KeepsEntries (runFrom step runtime acts) := by
  induction acts generalizing runtime with
  | nil => exact .of_same rfl rfl
  | cons act rest inductionHypothesis =>
    obtain ⟨first, others⟩ := not_or.mp (List.mem_cons.not.mp between)
    exact (step_keepsEntries runtime (Ne.symm first)).trans (inductionHypothesis _ others)

/-! ### Waiting for a turn -/

/-- The runtime right before turn `n`, when `traffic n` is what happens since the turn before. -/
def beforeTurn (runtime : FleeceRuntime) (traffic : Nat → List Act) : Nat → FleeceRuntime
  | 0 => runFrom step runtime (traffic 0)
  | n + 1 => runFrom step (beforeTurn runtime traffic n).gossipTurn (traffic (n + 1))

/-- The traffic after turn `n` leaves the target something to start: it needs repair anew, or its
round was answered and it still does. -/
def arises (runtime : FleeceRuntime) (traffic : Nat → List Act) (n : Nat)
    (i : Fin maxResyncTargets) : Bool :=
  let ended := (runtime.beforeTurn traffic n).gossipTurn
  let next := runtime.beforeTurn traffic (n + 1)
  next.needs i && (!ended.needs i ||
    (ended.resyncTargets i).awaitingIndex && !(next.resyncTargets i).awaitingIndex)

/-- The rounds that the targets before `i` can start in the eight turns from turn `n` on: one for
each that needs repair at the first of them, and one for each time something arises. -/
def demand (runtime : FleeceRuntime) (traffic : Nat → List Act) (i : Fin maxResyncTargets)
    (n : Nat) : Nat :=
  ∑ j ∈ Finset.Iio i, (((runtime.beforeTurn traffic n).needs j).toNat +
    ∑ m ∈ Finset.range 7, (runtime.arises traffic (n + m) j).toNat)

/-- The loop starts as many rounds as targets are due, up to the cap. -/
theorem sum_isStarted (runtime : FleeceRuntime) (count : Nat) (most : count ≤ maxResyncTargets) :
    ∑ j with j.val < count, (runtime.isStarted j).toNat =
      min resyncStartsPerTick (runtime.dueAmong count).card := by
  induction count with
  | zero => simp [dueAmong]
  | succ count inductionHypothesis =>
    have split : (Finset.univ.filter fun j : Fin maxResyncTargets => j.val < count + 1) =
        insert ⟨count, most⟩ (Finset.univ.filter fun j => j.val < count) := by
      ext j
      simp only [Finset.mem_filter, Finset.mem_univ, true_and, Finset.mem_insert, Fin.ext_iff]
      omega
    rw [split, Finset.sum_insert (by simp), inductionHypothesis (by omega), Nat.add_comm]
    exact (min_dueAmong_succ runtime ⟨count, most⟩).symm

/-- A target that is due and not started comes after two that are. -/
theorem two_started {runtime : FleeceRuntime} {i : Fin maxResyncTargets}
    (due : runtime.isDue i = true) (left : runtime.isStarted i = false) :
    ∑ j ∈ Finset.Iio i, (runtime.isStarted j).toNat = resyncStartsPerTick := by
  have many : resyncStartsPerTick ≤ (runtime.dueAmong i.val).card := by
    rw [isStarted, due, Bool.true_and, decide_eq_false_iff_not] at left
    exact not_lt.mp left
  rw [← min_eq_left many, ← sum_isStarted runtime i.val i.isLt.le]
  refine Finset.sum_congr ?_ fun _ _ => rfl
  ext j
  simp only [Finset.mem_Iio, Finset.mem_filter, Finset.mem_univ, true_and]
  exact Fin.lt_def

/-- A round that the target can still start in the stretch of turns that began at tick `start`:
it needs repair, and its last request is not one of this stretch that is still unanswered. -/
def hasClaim (runtime : FleeceRuntime) (start : Nat) (i : Fin maxResyncTargets) : Bool :=
  runtime.needs i && (!(runtime.resyncTargets i).awaitingIndex ||
    decide ((runtime.resyncTargets i).lastIndexReqTick.toNat < start) ||
    decide (runtime.gossipTickCount.toNat ≤ (runtime.resyncTargets i).lastIndexReqTick.toNat))

theorem needs_gossipTurn (runtime : FleeceRuntime) (i : Fin maxResyncTargets) :
    runtime.gossipTurn.needs i = runtime.needs i := by
  rw [needs, resyncTargets_gossipTurn, entryAfter]
  grind [needs]

theorem hasClaim_of_isStarted {runtime : FleeceRuntime} {start : Nat}
    {i : Fin maxResyncTargets} (recent : runtime.gossipTickCount.toNat < start + 8)
    (started : runtime.isStarted i = true) : runtime.hasClaim start i = true := by
  have due := (Bool.and_eq_true_iff.mp started).1
  obtain ⟨needed, cooled⟩ := Bool.and_eq_true_iff.mp due
  obtain ⟨needed, _⟩ := Bool.and_eq_true_iff.mp needed
  rw [hasClaim, needed, Bool.true_and]
  cases waiting : (runtime.resyncTargets i).awaitingIndex with
  | false => rfl
  | true =>
    rw [waiting, Bool.not_true, Bool.false_or, decide_eq_true_iff, ge_iff_le,
      UInt64.le_iff_toNat_le] at cooled
    have small := runtime.gossipTickCount.toNat_lt
    rw [Bool.not_true, Bool.false_or, ← Bool.decide_or, decide_eq_true_iff]
    by_contra neither
    obtain ⟨late, early⟩ := not_or.mp neither
    have order : (runtime.resyncTargets i).lastIndexReqTick ≤
        runtime.gossipTickCount.toUInt64 := by
      rw [UInt64.le_iff_toNat_le, UInt32.toNat_toUInt64]
      omega
    rw [UInt64.toNat_sub_of_le _ _ order, UInt32.toNat_toUInt64] at cooled
    have retry : resyncRetryTicks.toNat = 8 := rfl
    omega

/-- A turn that starts a round with a target takes up its claim, and no turn makes one. -/
theorem isStarted_claim {runtime : FleeceRuntime} {start : Nat} (i : Fin maxResyncTargets)
    (near : start ≤ runtime.gossipTickCount.toNat)
    (recent : runtime.gossipTickCount.toNat < start + 8)
    (noWrap : runtime.gossipTickCount.toNat + 1 < 2 ^ 32) :
    (runtime.isStarted i).toNat + (runtime.gossipTurn.hasClaim start i).toNat ≤
      (runtime.hasClaim start i).toNat := by
  have next : runtime.gossipTurn.gossipTickCount.toNat = runtime.gossipTickCount.toNat + 1 := by
    rw [gossipTickCount_gossipTurn, UInt32.toNat_add]
    exact Nat.mod_eq_of_lt noWrap
  cases started : runtime.isStarted i with
  | true =>
    have spent : runtime.gossipTurn.hasClaim start i = false := by
      have stamped : (runtime.gossipTurn.resyncTargets i).awaitingIndex = true ∧
          (runtime.gossipTurn.resyncTargets i).lastIndexReqTick =
            runtime.gossipTickCount.toUInt64 := by
        rw [resyncTargets_gossipTurn, started, entryAfter]
        grind
      rw [hasClaim, stamped.1, stamped.2, next, UInt32.toNat_toUInt64]
      simp only [Bool.not_true, Bool.false_or, Bool.and_eq_false_iff, Bool.or_eq_false_iff,
        decide_eq_false_iff_not]
      omega
    rw [spent, hasClaim_of_isStarted recent started]
    rfl
  | false =>
    rw [Bool.toNat_false, Nat.zero_add]
    refine Bool.toNat_le_toNat fun claim => ?_
    have kept : (runtime.gossipTurn.resyncTargets i).lastIndexReqTick =
          (runtime.resyncTargets i).lastIndexReqTick ∧
        ((runtime.resyncTargets i).awaitingIndex = true →
          (runtime.gossipTurn.resyncTargets i).awaitingIndex = true) := by
      rw [resyncTargets_gossipTurn, started, entryAfter]
      grind
    rw [hasClaim, needs_gossipTurn, kept.1, next] at claim
    rw [hasClaim]
    grind

/-- Traffic gives a target a claim only where something arises. -/
theorem hasClaim_traffic {ended next : FleeceRuntime} (keeps : ended.KeepsEntries next)
    (start : Nat) (i : Fin maxResyncTargets) :
    (next.hasClaim start i).toNat ≤ (ended.hasClaim start i).toNat +
      (next.needs i && (!ended.needs i || (ended.resyncTargets i).awaitingIndex &&
        !(next.resyncTargets i).awaitingIndex)).toNat := by
  cases needed : ended.needs i with
  | false =>
    simp only [Bool.not_false, Bool.true_or, Bool.and_true]
    refine le_add_left (Bool.toNat_le_toNat fun claim => ?_)
    exact (Bool.and_eq_true_iff.mp claim).1
  | true =>
    have held := (Bool.and_eq_true_iff.mp needed).1
    have request := (keeps.entry i held).2.2
    simp only [hasClaim, needed, request, keeps.now]
    cases next.needs i <;> cases (ended.resyncTargets i).awaitingIndex <;>
      cases (next.resyncTargets i).awaitingIndex <;> simp [Bool.toNat_le]

/-- Of the four quarters of a window of 32 ticks, one neither runs into the end of the counter nor
comes within eight ticks after a given one. -/
theorem exists_quarter (now : Nat) {last : Nat} (_bounded : last < 2 ^ 64) :
    ∃ quarter < 4, (now + 8 * quarter) % 2 ^ 32 + 7 < 2 ^ 32 ∧
      ∀ m < 8, 8 ≤ (2 ^ 64 - last + (now + (8 * quarter + m)) % 2 ^ 32) % 2 ^ 64 := by
  by_contra none
  have bad (quarter : Nat) (inside : quarter < 4)
      (clear : (now + 8 * quarter) % 2 ^ 32 + 7 < 2 ^ 32) :
      ∃ m < 8, (2 ^ 64 - last + (now + (8 * quarter + m)) % 2 ^ 32) % 2 ^ 64 < 8 := by
    by_contra all
    refine none ⟨quarter, inside, clear, fun m less => ?_⟩
    by_contra close
    exact all ⟨m, less, by omega⟩
  by_cases one : (now + 8 * 0) % 2 ^ 32 + 7 < 2 ^ 32
  · obtain ⟨a, _, _⟩ := bad 0 (by omega) one
    by_cases three : (now + 8 * 2) % 2 ^ 32 + 7 < 2 ^ 32
    · obtain ⟨b, _, _⟩ := bad 2 (by omega) three
      omega
    · obtain ⟨b, _, _⟩ := bad 3 (by omega) (by omega)
      omega
  · obtain ⟨a, _, _⟩ := bad 1 (by omega) (by omega)
    obtain ⟨b, _, _⟩ := bad 3 (by omega) (by omega)
    omega

section Stretch

variable {runtime : FleeceRuntime} {traffic : Nat → List Act}
  (between : ∀ n, Act.turn ∉ traffic n)
include between

theorem beforeTurn_keepsEntries (n : Nat) :
    (runtime.beforeTurn traffic n).gossipTurn.KeepsEntries
      (runtime.beforeTurn traffic (n + 1)) :=
  runFrom_keepsEntries _ (between (n + 1))

theorem gossipTickCount_beforeTurn (n m : Nat) :
    (runtime.beforeTurn traffic (n + m)).gossipTickCount.toNat =
      ((runtime.beforeTurn traffic n).gossipTickCount.toNat + m) % 2 ^ 32 := by
  induction m with
  | zero => exact (Nat.mod_eq_of_lt (UInt32.toNat_lt _)).symm
  | succ m inductionHypothesis =>
    rw [← Nat.add_assoc, (beforeTurn_keepsEntries between (n + m)).now, gossipTickCount_gossipTurn,
      UInt32.toNat_add, inductionHypothesis]
    simp [Nat.add_assoc]

/-- Over a stretch of eight turns, the rounds started with a target are at most what it can
start; the claim it still has is counted with them. -/
theorem sum_isStarted_le {n : Nat}
    (noWrap : (runtime.beforeTurn traffic n).gossipTickCount.toNat + 7 < 2 ^ 32)
    (i : Fin maxResyncTargets) (count : Nat) (most : count ≤ 7) :
    ∑ m ∈ Finset.range count, ((runtime.beforeTurn traffic (n + m)).isStarted i).toNat +
        ((runtime.beforeTurn traffic (n + count)).hasClaim
          (runtime.beforeTurn traffic n).gossipTickCount.toNat i).toNat ≤
      ((runtime.beforeTurn traffic n).needs i).toNat +
        ∑ m ∈ Finset.range count, (runtime.arises traffic (n + m) i).toNat := by
  induction count with
  | zero =>
    rw [Finset.sum_range_zero, Finset.sum_range_zero, Nat.zero_add, Nat.add_zero, Nat.add_zero]
    exact Bool.toNat_le_toNat fun claim => (Bool.and_eq_true_iff.mp claim).1
  | succ count inductionHypothesis =>
    have earlier := inductionHypothesis (by omega)
    have now : (runtime.beforeTurn traffic (n + count)).gossipTickCount.toNat =
        (runtime.beforeTurn traffic n).gossipTickCount.toNat + count := by
      rw [gossipTickCount_beforeTurn between n count, Nat.mod_eq_of_lt (by omega)]
    have turn : ((runtime.beforeTurn traffic (n + count)).isStarted i).toNat +
        ((runtime.beforeTurn traffic (n + count)).gossipTurn.hasClaim
          (runtime.beforeTurn traffic n).gossipTickCount.toNat i).toNat ≤ _ :=
      isStarted_claim i (by omega) (by omega) (by omega)
    have after : ((runtime.beforeTurn traffic (n + (count + 1))).hasClaim
          (runtime.beforeTurn traffic n).gossipTickCount.toNat i).toNat ≤
        ((runtime.beforeTurn traffic (n + count)).gossipTurn.hasClaim
          (runtime.beforeTurn traffic n).gossipTickCount.toNat i).toNat +
        (runtime.arises traffic (n + count) i).toNat :=
      hasClaim_traffic (beforeTurn_keepsEntries between (n + count)) _ i
    rw [Finset.sum_range_succ, Finset.sum_range_succ]
    omega

/-- In eight turns the targets before `i` start no more rounds than they can. -/
theorem sum_isStarted_le_demand {n : Nat}
    (noWrap : (runtime.beforeTurn traffic n).gossipTickCount.toNat + 7 < 2 ^ 32)
    (i : Fin maxResyncTargets) :
    ∑ m ∈ Finset.range 8, ∑ j ∈ Finset.Iio i,
        ((runtime.beforeTurn traffic (n + m)).isStarted j).toNat ≤
      runtime.demand traffic i n := by
  rw [Finset.sum_comm, demand]
  refine Finset.sum_le_sum fun j _ => ?_
  have counted := sum_isStarted_le between noWrap j 7 le_rfl
  have now : (runtime.beforeTurn traffic (n + 7)).gossipTickCount.toNat =
      (runtime.beforeTurn traffic n).gossipTickCount.toNat + 7 := by
    rw [gossipTickCount_beforeTurn between n 7, Nat.mod_eq_of_lt noWrap]
  have last : ((runtime.beforeTurn traffic (n + 7)).isStarted j).toNat ≤
      ((runtime.beforeTurn traffic (n + 7)).hasClaim
        (runtime.beforeTurn traffic n).gossipTickCount.toNat j).toNat :=
    Bool.toNat_le_toNat fun started => hasClaim_of_isStarted (by omega) started
  rw [Finset.sum_range_succ]
  omega

/-- A target that is not asked keeps the tick of its last request. -/
theorem lastIndexReqTick_of_idle {i : Fin maxResyncTargets} {first : Nat}
    (needed : ∀ k < 32, (runtime.beforeTurn traffic (first + k)).needs i = true)
    (idle : ∀ k < 32, (runtime.beforeTurn traffic (first + k)).isStarted i = false)
    {k : Nat} (inside : k < 32) :
    ((runtime.beforeTurn traffic (first + k)).resyncTargets i).lastIndexReqTick =
      ((runtime.beforeTurn traffic first).resyncTargets i).lastIndexReqTick := by
  induction k with
  | zero => rfl
  | succ k inductionHypothesis =>
    have before : k < 32 := by omega
    have turn : ((runtime.beforeTurn traffic (first + k)).gossipTurn.resyncTargets i).slotExists =
          true ∧
        ((runtime.beforeTurn traffic (first + k)).gossipTurn.resyncTargets i).lastIndexReqTick =
          ((runtime.beforeTurn traffic (first + k)).resyncTargets i).lastIndexReqTick := by
      have held := (Bool.and_eq_true_iff.mp (needed k before)).1
      rw [resyncTargets_gossipTurn, idle k before, entryAfter]
      grind
    have traffic := (beforeTurn_keepsEntries between (first + k)).entry i turn.1
    exact (traffic.2.2.trans turn.2).trans (inductionHypothesis before)

end Stretch

/-- A target that needs repair for 32 turns of a quiet node, with the transport up, is asked for
its index in one of them, when in each quarter of these turns the targets before it have fewer
than sixteen rounds to start. -/
theorem target_served_of_light {runtime : FleeceRuntime} {traffic : Nat → List Act}
    (between : ∀ n, Act.turn ∉ traffic n) {i : Fin maxResyncTargets} {first : Nat}
    (waiting : ∀ k < 32, (runtime.beforeTurn traffic (first + k)).needs i = true ∧
      (runtime.beforeTurn traffic (first + k)).isQuiet = true ∧
      (runtime.beforeTurn traffic (first + k)).comms.isInitialized = true)
    (light : ∀ quarter < 4, runtime.demand traffic i (first + 8 * quarter) < 16) :
    ∃ k < 32, (runtime.beforeTurn traffic (first + k)).Asks i := by
  by_contra never
  have idle (k : Nat) (inside : k < 32) :
      (runtime.beforeTurn traffic (first + k)).isStarted i = false := by
    by_contra started
    exact never ⟨k, inside, asks_of_started (waiting k inside).2.2
      (Bool.eq_true_of_not_eq_false started)⟩
  have last (k : Nat) (inside : k < 32) :=
    lastIndexReqTick_of_idle between (fun k inside => (waiting k inside).1) idle inside
  obtain ⟨quarter, inside, noWrap, cooled⟩ :=
    exists_quarter (runtime.beforeTurn traffic first).gossipTickCount.toNat
      ((runtime.beforeTurn traffic first).resyncTargets i).lastIndexReqTick.toNat_lt
  have due (m : Nat) (less : m < 8) :
      (runtime.beforeTurn traffic (first + (8 * quarter + m))).isDue i = true := by
    obtain ⟨needed, quiet, _⟩ := waiting (8 * quarter + m) (by omega)
    have ready : (runtime.beforeTurn traffic (first + (8 * quarter + m))).gossipTickCount.toUInt64 -
        ((runtime.beforeTurn traffic (first + (8 * quarter + m))).resyncTargets i).lastIndexReqTick ≥
          resyncRetryTicks := by
      rw [ge_iff_le, UInt64.le_iff_toNat_le, UInt64.toNat_sub, UInt32.toNat_toUInt64,
        gossipTickCount_beforeTurn between, last (8 * quarter + m) (by omega)]
      exact cooled m less
    rw [isDue, needed, quiet, decide_eq_true ready]
    simp
  have busy (m : Nat) (less : m < 8) : ∑ j ∈ Finset.Iio i,
      ((runtime.beforeTurn traffic (first + 8 * quarter + m)).isStarted j).toNat = 2 := by
    rw [Nat.add_assoc]
    exact two_started (due m less) (idle _ (by omega))
  have total := sum_isStarted_le_demand (n := first + 8 * quarter) between
    (by rw [gossipTickCount_beforeTurn between]; exact noWrap) i
  rw [Finset.sum_congr rfl fun m member => busy m (Finset.mem_range.mp member)] at total
  have few := light quarter inside
  simp at total
  omega

/-! ### A crowd of silent peers -/

/-- Peer `j` of seventeen that all reported a gap at tick 0 and never answer, `now` ticks later:
the first sixteen were asked two at a time, in turn, and the last one never. -/
def crowdEntry (now j : Nat) : ResyncTarget where
  nodeId := UInt64.ofNat (j + 1)
  lastHeardTick := 0
  needShared := decide (j < 17)
  awaitingIndex := decide (j < 16 ∧ j / 2 < now)
  lastIndexReqTick :=
    if j < 16 ∧ j / 2 < now then UInt64.ofNat (now - 1 - (now - 1 - j / 2) % 8) else 0
  slotExists := decide (j < 17)

/-- A runtime at a tick with seventeen peers that all need a repair and stay silent. -/
def crowd (now : Nat) : FleeceRuntime :=
  { create (.blank 7) with
    comms := ⟨true, []⟩
    gossipTickCount := UInt32.ofNat now
    resyncTargets := fun j => crowdEntry now j.val }

deriving instance DecidableEq for ResyncTarget

/-- No traffic at all. -/
def silence : Nat → List Act := fun _ => []

theorem crowd_turn : ∀ now : Fin 32, ∀ j : Fin maxResyncTargets,
    (crowd now).entryAfter ((crowd now).isStarted j) j = crowdEntry (now + 1) j := by
  decide +kernel

/-- In silence the crowd is as its entries say. -/
theorem crowd_silence {n : Nat} (early : n ≤ 32) :
    (crowd n).SameLoop ((crowd 0).beforeTurn silence n) := by
  induction n with
  | zero => exact ⟨rfl, rfl, rfl, rfl, rfl⟩
  | succ n inductionHypothesis =>
    have same := inductionHypothesis (by omega)
    obtain ⟨quiet, isOpen, nodeId⟩ := kept_gossipTurn ((crowd 0).beforeTurn silence n)
    show (crowd (n + 1)).SameLoop ((crowd 0).beforeTurn silence n).gossipTurn
    refine ⟨?_, ?_, quiet.trans same.quiet, isOpen.trans same.isOpen, nodeId.trans same.nodeId⟩
    · funext j
      rw [resyncTargets_gossipTurn, same.isStarted, same.entryAfter]
      exact crowd_turn ⟨n, early⟩ j
    · rw [gossipTickCount_gossipTurn, same.now]
      exact (UInt32.ofNat_add n 1).symm

theorem crowd_waits {k : Nat} (early : k < 32) {j : Fin maxResyncTargets} (among : j.val < 17) :
    ((crowd 0).beforeTurn silence (0 + k)).needs j = true ∧
      ((crowd 0).beforeTurn silence (0 + k)).isQuiet = true ∧
      ((crowd 0).beforeTurn silence (0 + k)).comms.isInitialized = true := by
  rw [Nat.zero_add]
  have same := crowd_silence early.le
  refine ⟨?_, same.quiet.trans rfl, same.isOpen.trans rfl⟩
  rw [needs, same.targets]
  simp [crowd, crowdEntry, among]

/-- Nothing arises in silence. -/
theorem arises_silence (runtime : FleeceRuntime) (n : Nat) (j : Fin maxResyncTargets) :
    runtime.arises silence n j = false := by
  have still : runtime.beforeTurn silence (n + 1) = (runtime.beforeTurn silence n).gossipTurn := rfl
  unfold arises
  rw [still]
  simp

theorem target_served_of_light_crowd :
    (∀ quarter < 4, (crowd 0).demand silence 15 (0 + 8 * quarter) < 16) ∧
      ∃ k < 32, ((crowd 0).beforeTurn silence (0 + k)).Asks 15 := by
  have light (quarter : Nat) (inside : quarter < 4) :
      (crowd 0).demand silence 15 (0 + 8 * quarter) < 16 := by
    have early : 0 + 8 * quarter ≤ 32 := by omega
    simp only [demand, arises_silence, Bool.toNat_false, Finset.sum_const_zero, Nat.add_zero]
    calc ∑ j ∈ Finset.Iio (15 : Fin maxResyncTargets), _
        ≤ ∑ j ∈ Finset.Iio (15 : Fin maxResyncTargets), 1 :=
          Finset.sum_le_sum fun j _ => Bool.toNat_le _
      _ < 16 := by decide
  exact ⟨light, target_served_of_light (fun _ => List.not_mem_nil)
    (fun k early => crowd_waits early (by decide)) light⟩

/-- Behind sixteen peers that never answer, the seventeenth is not asked once in 32 turns. -/
theorem target_starves :
    (∀ k < 32, ((crowd 0).beforeTurn silence (0 + k)).needs 16 = true ∧
      ((crowd 0).beforeTurn silence (0 + k)).isQuiet = true ∧
      ((crowd 0).beforeTurn silence (0 + k)).comms.isInitialized = true) ∧
      ¬ ∃ k < 32, ((crowd 0).beforeTurn silence (0 + k)).Asks 16 := by
  refine ⟨fun k early => crowd_waits early (by decide), ?_⟩
  rintro ⟨k, early, asked⟩
  rw [Nat.zero_add] at asked
  have same := crowd_silence early.le
  obtain ⟨j, equal, chosen⟩ := source_of_asks (same.isOpen.trans rfl) asked
  rw [same.targets] at equal
  rw [same.isStarted, same.isProbed] at chosen
  have apart : ∀ now : Fin 32, ∀ j : Fin maxResyncTargets,
      (crowdEntry now j).source = (crowdEntry now 16).source →
        ((crowd now).isStarted j || (crowd now).isProbed j) = false := by
    decide +kernel
  rw [apart ⟨k, early⟩ j equal] at chosen
  cases chosen

end FleeceRuntime

end Fleece
