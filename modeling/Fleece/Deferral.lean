/-
This file is about the frames that a runtime composes while a frame comes in. They are
not sent from inside the transport's own cycle: they wait in one of sixteen slots for
the second turn of the main loop after them, and all that is sent is sent in a turn.

Where no more than sixteen frames come in during two turns, each of them finds a slot
for its answer.
-/

import Fleece.Outbox
import Fleece.Turns

namespace Fleece

namespace FleeceRuntime

variable {runtime next last : FleeceRuntime}

/-! ### Between two turns -/

/-- Nothing is sent, and the queue and the count of turns are as they were. -/
structure Still (runtime next : FleeceRuntime) : Prop where
  sent : next.comms.sent = runtime.comms.sent
  count : next.gossipTickCount = runtime.gossipTickCount
  waiting : next.pendingTx = runtime.pendingTx
  dropped : next.pendingTxDropped = runtime.pendingTxDropped

theorem Still.refl (runtime : FleeceRuntime) : runtime.Still runtime := ⟨rfl, rfl, rfl, rfl⟩

theorem Still.trans (first : runtime.Still next) (second : next.Still last) :
    runtime.Still last :=
  ⟨second.sent.trans first.sent, second.count.trans first.count,
    second.waiting.trans first.waiting, second.dropped.trans first.dropped⟩

/-- Nothing is sent, and at most one frame is to be deferred: it takes a free slot until the turn
after the next one, or is dropped where there is none. -/
inductive Defers (runtime next : FleeceRuntime) : Prop
  | still (same : runtime.Still next)
  | queued (sent : next.comms.sent = runtime.comms.sent)
      (count : next.gossipTickCount = runtime.gossipTickCount)
      (dropped : next.pendingTxDropped = runtime.pendingTxDropped) (i : Fin maxPendingTx)
      (free : runtime.pendingTx i = none) (tx : PendingTx)
      (ready : tx.readyTick = (runtime.gossipTickCount + 1).toUInt64)
      (waiting : next.pendingTx = Function.update runtime.pendingTx i (some tx))
  | dropped (sent : next.comms.sent = runtime.comms.sent)
      (count : next.gossipTickCount = runtime.gossipTickCount)
      (waiting : next.pendingTx = runtime.pendingTx)
      (full : ∀ i, runtime.pendingTx i ≠ none)

theorem Defers.after_still (same : runtime.Still next) (defers : next.Defers last) :
    runtime.Defers last := by
  cases defers with
  | still after => exact .still (same.trans after)
  | queued sent count dropped i free tx ready waiting =>
    rw [same.sent] at sent
    rw [same.waiting] at free waiting
    rw [same.count] at ready
    exact .queued sent (count.trans same.count) (dropped.trans same.dropped) i free tx ready waiting
  | dropped sent count waiting full =>
    rw [same.waiting] at waiting full
    exact .dropped (sent.trans same.sent) (count.trans same.count) waiting full

theorem resyncTargetForId_still (runtime : FleeceRuntime) (nodeId : UInt64) :
    runtime.Still (runtime.resyncTargetForId nodeId).1 := by
  unfold resyncTargetForId
  split
  · exact .refl runtime
  · split
    · exact ⟨rfl, rfl, rfl, rfl⟩
    · exact .refl runtime

theorem withTarget_still (found : FleeceRuntime × Option (Fin maxResyncTargets))
    (change : ResyncTarget → ResyncTarget) : found.1.Still (withTarget found change) := by
  unfold withTarget
  split
  · exact .refl found.1
  · exact ⟨rfl, rfl, rfl, rfl⟩

theorem enqueueTx_defers (runtime : FleeceRuntime) (dest : Destination) (data : Blob) :
    runtime.Defers (runtime.enqueueTx dest data) := by
  unfold enqueueTx
  cases found : Fin.find? fun i => (runtime.pendingTx i).isNone with
  | none =>
    refine .dropped rfl rfl rfl fun i absent => ?_
    have taken := Fin.find?_eq_none_iff.mp found i
    rw [absent] at taken
    cases taken
  | some i =>
    have free := Option.isNone_iff_eq_none.mp (Fin.eq_true_of_find?_eq_some found)
    exact .queued rfl rfl rfl i free _ rfl rfl

theorem requestMissingKeys_defers (runtime : FleeceRuntime) (origin : UInt64)
    (pairs : List (UInt64 × UInt64)) :
    runtime.Defers (runtime.requestMissingKeys origin pairs).1 := by
  unfold requestMissingKeys
  simp only
  split_ifs
  · exact enqueueTx_defers runtime _ _
  · dsimp only
    exact .still ((resyncTargetForId_still runtime origin).trans (withTarget_still _ _))

theorem handleFxFrame_defers (runtime : FleeceRuntime) (data : Blob) (source : Destination) :
    runtime.Defers (runtime.handleFxFrame data source) := by
  unfold handleFxFrame
  split
  · exact .still (.refl runtime)
  · simp only
    split_ifs
    · exact enqueueTx_defers runtime _ _
    · split
      · exact .still (.refl runtime)
      · split_ifs
        · exact enqueueTx_defers runtime _ _
        · exact .still (.refl runtime)
    · split
      · exact .still (.refl runtime)
      · exact Defers.after_still ((resyncTargetForId_still runtime _).trans (withTarget_still _ _))
          (requestMissingKeys_defers _ _ _)
    · exact .still (.refl runtime)

theorem noteBehind_still (runtime : FleeceRuntime) (behindShared : Bool) (sender : UInt64) :
    runtime.Still (runtime.noteBehind behindShared sender) :=
  (resyncTargetForId_still runtime sender).trans (withTarget_still _ _)

theorem importAndTrack_still (runtime : FleeceRuntime) (data : Blob) :
    runtime.Still (runtime.importAndTrack data) := by
  have imported : runtime.Still
      { runtime with stateManager := (runtime.stateManager.importFrom data).manager } :=
    ⟨rfl, rfl, rfl, rfl⟩
  unfold importAndTrack
  simp only
  split
  · exact imported
  · exact imported.trans (noteBehind_still _ _ _)

/-- The frames that a runtime may answer. -/
def Act.isIncoming : Act → Bool
  | .receive _ _ => true
  | .controlFrame _ => true
  | _ => false

theorem step_still (runtime : FleeceRuntime) {act : Act} (within : act ≠ .turn)
    (silent : act.isIncoming = false) : runtime.Still (runtime.step act) := by
  cases act with
  | turn => exact absurd rfl within
  | receive source data => cases silent
  | controlFrame data => cases silent
  | write change => exact ⟨rfl, rfl, rfl, rfl⟩
  | gossipFrame data =>
    simp only [step, onGossipFrame]
    split_ifs
    · exact .refl runtime
    · exact importAndTrack_still runtime data
  | tick => exact ⟨rfl, rfl, rfl, rfl⟩
  | initializeComms => exact ⟨rfl, rfl, rfl, rfl⟩
  | close => exact ⟨rfl, rfl, rfl, rfl⟩
  | setGossipCadence gossipEvery beaconEvery =>
    simp only [step, setGossipCadence]
    split_ifs
    · exact .refl runtime
    · exact ⟨rfl, rfl, rfl, rfl⟩

/-- Outside its turns a runtime sends nothing. -/
theorem step_defers (runtime : FleeceRuntime) {act : Act} (within : act ≠ .turn) :
    runtime.Defers (runtime.step act) := by
  cases act with
  | receive source data =>
    simp only [step, gossipReceive]
    split_ifs
    · exact .still (.refl runtime)
    · exact handleFxFrame_defers runtime data source
    · exact .still (.refl runtime)
    · exact .still (importAndTrack_still runtime data)
  | controlFrame data =>
    simp only [step, onControlFrame]
    split_ifs
    · exact handleFxFrame_defers runtime data .mesh
    · exact .still (.refl runtime)
  | turn => exact absurd rfl within
  | _ => exact .still (step_still runtime within rfl)

/-! ### A turn -/

/-- The frame has waited for long enough. -/
def Due (runtime : FleeceRuntime) (tx : PendingTx) : Prop :=
  ¬ runtime.gossipTickCount.toUInt64 < tx.readyTick

instance (runtime : FleeceRuntime) (tx : PendingTx) : Decidable (runtime.Due tx) :=
  inferInstanceAs (Decidable (¬ _))

/-- Some frames are handed to the transport, and the queue is as it was. -/
structure Speaks (runtime next : FleeceRuntime) : Prop where
  sent : runtime.comms.sent <+: next.comms.sent
  isInitialized : next.comms.isInitialized = runtime.comms.isInitialized
  count : next.gossipTickCount = runtime.gossipTickCount
  waiting : next.pendingTx = runtime.pendingTx
  dropped : next.pendingTxDropped = runtime.pendingTxDropped

theorem Speaks.refl (runtime : FleeceRuntime) : runtime.Speaks runtime :=
  ⟨List.prefix_refl _, rfl, rfl, rfl, rfl⟩

theorem Speaks.trans (first : runtime.Speaks next) (second : next.Speaks last) :
    runtime.Speaks last :=
  ⟨first.sent.trans second.sent, second.isInitialized.trans first.isInitialized,
    second.count.trans first.count, second.waiting.trans first.waiting,
    second.dropped.trans first.dropped⟩

theorem gossipPhase_speaks (runtime : FleeceRuntime) : runtime.Speaks runtime.gossipPhase := by
  unfold gossipPhase
  simp only
  split_ifs
  · exact ⟨sent_send _ _ _, isInitialized_send _ _ _, rfl, rfl, rfl⟩
  · exact ⟨sent_send _ _ _, isInitialized_send _ _ _, rfl, rfl, rfl⟩
  · exact .refl runtime

theorem withTarget_speaks (found : FleeceRuntime × Option (Fin maxResyncTargets))
    (change : ResyncTarget → ResyncTarget) : found.1.Speaks (withTarget found change) := by
  unfold withTarget
  split
  · exact .refl found.1
  · exact ⟨List.prefix_refl _, rfl, rfl, rfl, rfl⟩

theorem resyncSlot_speaks (state : FleeceRuntime × Nat) (i : Fin maxResyncTargets) :
    state.1.Speaks (resyncSlot state i).1 := by
  have asks (runtime : FleeceRuntime) (change : ResyncTarget → ResyncTarget) :
      runtime.Speaks (withTarget (runtime.requestIndex i, some i) change) := by
    have asked : runtime.Speaks (runtime.requestIndex i) :=
      ⟨sent_send _ _ _, isInitialized_send _ _ _, rfl, rfl, rfl⟩
    exact asked.trans (withTarget_speaks (runtime.requestIndex i, some i) change)
  unfold resyncSlot
  simp only
  split_ifs
  · exact .refl _
  · dsimp only
    exact (asks _ _).trans (asks _ _)
  · dsimp only
    exact asks _ _
  · dsimp only
    exact asks _ _
  · exact .refl _

/-- What the loop over some slots of the queue does: the due frames there are handed to the
transport and leave their slots. -/
structure Flushes (runtime next : FleeceRuntime) (slots : List (Fin maxPendingTx)) : Prop where
  sent : runtime.comms.sent <+: next.comms.sent
  isInitialized : next.comms.isInitialized = runtime.comms.isInitialized
  count : next.gossipTickCount = runtime.gossipTickCount
  dropped : next.pendingTxDropped = runtime.pendingTxDropped
  waiting : ∀ i, next.pendingTx i =
    (runtime.pendingTx i).filter fun tx => decide (i ∉ slots ∨ ¬ runtime.Due tx)
  handed : ∀ i ∈ slots, ∀ tx, runtime.pendingTx i = some tx → runtime.Due tx →
    runtime.comms.isInitialized = true → tx.data.size ≠ 0 →
      (tx.dest, tx.data) ∈ next.comms.sent.drop runtime.comms.sent.length

theorem flushSlot_flushes (runtime : FleeceRuntime) (i : Fin maxPendingTx) :
    runtime.Flushes (runtime.flushSlot i) [i] := by
  have others (j : Fin maxPendingTx) (other : j ≠ i) :
      runtime.pendingTx j =
        (runtime.pendingTx j).filter fun tx => decide (j ∉ [i] ∨ ¬ runtime.Due tx) := by
    have elsewhere : j ∉ [i] := fun member => other (List.mem_singleton.mp member)
    cases runtime.pendingTx j with
    | none => rfl
    | some tx =>
      rw [Option.filter_some, decide_eq_true (Or.inl elsewhere)]
      rfl
  unfold flushSlot
  cases held : runtime.pendingTx i with
  | none =>
    refine ⟨List.prefix_refl _, rfl, rfl, rfl, fun j => ?_, fun j member tx found => ?_⟩
    · rcases eq_or_ne j i with rfl | other
      · rw [held]
        rfl
      · exact others j other
    · rw [List.mem_singleton.mp member, held] at found
      cases found
  | some tx =>
    simp only
    by_cases early : runtime.gossipTickCount.toUInt64 < tx.readyTick
    · rw [if_pos early]
      refine ⟨List.prefix_refl _, rfl, rfl, rfl, fun j => ?_, fun j member other found due => ?_⟩
      · rcases eq_or_ne j i with rfl | other
        · have stays : j ∉ [j] ∨ ¬ runtime.Due tx := Or.inr (not_not_intro early)
          rw [held, Option.filter_some, decide_eq_true stays]
          rfl
        · exact others j other
      · rw [List.mem_singleton.mp member, held] at found
        exact absurd (Option.some.inj found ▸ early) due
    · rw [if_neg early]
      refine ⟨sent_send _ _ _, isInitialized_send _ _ _, rfl, rfl, fun j => ?_,
        fun j member other found due isOpen filled => ?_⟩
      · show Function.update runtime.pendingTx i none j = _
        rcases eq_or_ne j i with rfl | other
        · have leaves : ¬ (j ∉ [j] ∨ ¬ runtime.Due tx) :=
            not_or.mpr ⟨not_not_intro (List.mem_singleton_self j), not_not_intro early⟩
          rw [Function.update_self, held, Option.filter_some, decide_eq_false leaves]
          rfl
        · rw [Function.update_of_ne other]
          exact others j other
      · rw [List.mem_singleton.mp member, held] at found
        obtain rfl := Option.some.inj found
        show _ ∈ (runtime.comms.send tx.dest tx.data).1.sent.drop _
        have goes : (!runtime.comms.isInitialized || tx.data.size == 0) = false := by
          rw [isOpen, Bool.not_true, Bool.false_or]
          exact beq_eq_false_iff_ne.mpr filled
        unfold FleeceComms.send
        rw [goes]
        simp

theorem Flushes.trans {slots others : List (Fin maxPendingTx)}
    (first : runtime.Flushes next slots) (second : next.Flushes last others) :
    runtime.Flushes last (slots ++ others) := by
  have same (tx : PendingTx) : next.Due tx ↔ runtime.Due tx := by
    unfold Due
    rw [first.count]
  obtain ⟨more, sent⟩ := first.sent
  obtain ⟨rest, later⟩ := second.sent
  refine ⟨first.sent.trans second.sent, second.isInitialized.trans first.isInitialized,
    second.count.trans first.count, second.dropped.trans first.dropped, fun i => ?_,
    fun i member tx held due isOpen filled => ?_⟩
  · rw [second.waiting, first.waiting, Option.filter_filter]
    refine congrFun (congrArg Option.filter (funext fun tx => ?_)) _
    simp only [same, List.mem_append]
    grind
  · rw [← later, ← sent, List.append_assoc, List.drop_left]
    by_cases early : i ∈ slots
    · have handed := first.handed i early tx held due isOpen filled
      rw [← sent, List.drop_left] at handed
      exact List.mem_append_left _ handed
    · have kept : next.pendingTx i = some tx := by
        rw [first.waiting, held, Option.filter_some, decide_eq_true (Or.inl early)]
        rfl
      have handed := second.handed i ((List.mem_append.mp member).resolve_left early) tx kept
        ((same tx).mpr due) (first.isInitialized.trans isOpen) filled
      rw [← later, List.drop_left] at handed
      exact List.mem_append_right _ handed

theorem flushPendingTx_flushes (runtime : FleeceRuntime) :
    runtime.Flushes runtime.flushPendingTx (List.finRange maxPendingTx) := by
  have loop (slots : List (Fin maxPendingTx)) (runtime : FleeceRuntime) :
      runtime.Flushes (slots.foldl flushSlot runtime) slots := by
    induction slots generalizing runtime with
    | nil =>
      refine ⟨List.prefix_refl _, rfl, rfl, rfl, fun i => ?_, fun i member => nomatch member⟩
      have all (tx : PendingTx) : i ∉ ([] : List (Fin maxPendingTx)) ∨ ¬ runtime.Due tx :=
        Or.inl List.not_mem_nil
      cases held : runtime.pendingTx i with
      | none => exact held
      | some tx =>
        rw [Option.filter_some, decide_eq_true (all tx)]
        exact held
    | cons i rest inductionHypothesis =>
      exact (flushSlot_flushes runtime i).trans (inductionHypothesis (runtime.flushSlot i))
  exact loop _ runtime

/-- A turn sends what is due, and nothing else leaves the queue. -/
structure Turns (runtime next : FleeceRuntime) : Prop where
  count : next.gossipTickCount = runtime.gossipTickCount + 1
  dropped : next.pendingTxDropped = runtime.pendingTxDropped
  waiting : ∀ i, next.pendingTx i =
    (runtime.pendingTx i).filter fun tx => decide (¬ runtime.Due tx)
  handed : ∀ i tx, runtime.pendingTx i = some tx → runtime.Due tx →
    runtime.comms.isInitialized = true → tx.data.size ≠ 0 →
      (tx.dest, tx.data) ∈ next.comms.sent.drop runtime.comms.sent.length

theorem gossipTurn_turns (runtime : FleeceRuntime) : runtime.Turns runtime.gossipTurn := by
  have phase := gossipPhase_speaks runtime
  have flushed := flushPendingTx_flushes runtime.gossipPhase
  have asked : runtime.gossipPhase.flushPendingTx.Speaks
      runtime.gossipPhase.sendResyncRequests :=
    List.foldlRecOn (motive := fun state : FleeceRuntime × Nat =>
      runtime.gossipPhase.flushPendingTx.Speaks state.1) _ _ (.refl _)
      fun state kept i _ => kept.trans (resyncSlot_speaks state i)
  have due (tx : PendingTx) : runtime.gossipPhase.Due tx ↔ runtime.Due tx := by
    unfold Due
    rw [phase.count]
  unfold gossipTurn
  generalize runtime.gossipPhase.sendResyncRequests = spoken at asked ⊢
  generalize runtime.gossipPhase.flushPendingTx = drained at flushed asked
  generalize runtime.gossipPhase = broadcast at phase flushed due
  obtain ⟨first, sentFirst⟩ := phase.sent
  obtain ⟨second, sentSecond⟩ := flushed.sent
  obtain ⟨third, sentThird⟩ := asked.sent
  constructor
  case count =>
    show spoken.gossipTickCount + 1 = _
    rw [asked.count, flushed.count, phase.count]
  case dropped => exact asked.dropped.trans (flushed.dropped.trans phase.dropped)
  case waiting =>
    intro i
    show spoken.pendingTx i = _
    rw [asked.waiting, flushed.waiting, phase.waiting]
    refine congrFun (congrArg Option.filter (funext fun tx => ?_)) _
    simp only [List.mem_finRange, not_true_eq_false, false_or, due]
  case handed =>
    intro i tx held isDue isOpen filled
    rw [← phase.waiting] at held
    have member := flushed.handed i (List.mem_finRange i) tx held ((due tx).mpr isDue)
      (phase.isInitialized.trans isOpen) filled
    rw [← sentSecond, List.drop_left] at member
    show _ ∈ spoken.comms.sent.drop _
    rw [← sentThird, ← sentSecond, ← sentFirst, List.append_assoc, List.append_assoc,
      List.drop_left]
    exact List.mem_append_right _ (List.mem_append_left _ member)

/-! ### The second turn -/

theorem toUInt64_lt_succ {count : UInt32} (noWrap : count ≠ 0xFFFFFFFF) :
    count.toUInt64 < (count + 1).toUInt64 := by
  have below : count.toNat ≠ 4294967295 := fun same => noWrap (UInt32.toNat_inj.mp same)
  have bound := count.toNat_lt
  rw [UInt64.lt_iff_toNat_lt, UInt32.toNat_toUInt64, UInt32.toNat_toUInt64, UInt32.toNat_add]
  have one : (1 : UInt32).toNat = 1 := rfl
  omega

/-- What is not changed by steps other than turns. -/
structure Waits (runtime next : FleeceRuntime) : Prop where
  sent : next.comms.sent = runtime.comms.sent
  count : next.gossipTickCount = runtime.gossipTickCount
  waiting : ∀ i tx, runtime.pendingTx i = some tx → next.pendingTx i = some tx

theorem Defers.waits (defers : runtime.Defers next) : runtime.Waits next := by
  cases defers with
  | still same =>
    refine ⟨same.sent, same.count, fun i tx held => ?_⟩
    rw [same.waiting]
    exact held
  | queued sent count dropped free absent tx ready waiting =>
    refine ⟨sent, count, fun i other held => ?_⟩
    have elsewhere : i ≠ free := by
      rintro rfl
      rw [absent] at held
      cases held
    rw [waiting, Function.update_of_ne elsewhere]
    exact held
  | dropped sent count waiting full =>
    refine ⟨sent, count, fun i tx held => ?_⟩
    rw [waiting]
    exact held

theorem run_waits (runtime : FleeceRuntime) {acts : List Act} (within : .turn ∉ acts) :
    runtime.Waits (runFrom step runtime acts) := by
  induction acts generalizing runtime with
  | nil => exact ⟨rfl, rfl, fun _ _ held => held⟩
  | cons act rest inductionHypothesis =>
    have first := (step_defers runtime fun same => within (same ▸ List.mem_cons_self)).waits
    have later := inductionHypothesis (runtime.step act)
      fun member => within (List.mem_cons_of_mem act member)
    exact ⟨later.sent.trans first.sent, later.count.trans first.count,
      fun i tx held => later.waiting i tx (first.waiting i tx held)⟩

/-- A frame that is deferred is not sent before the second turn after it, whatever comes in between,
and in that turn it is handed to the transport and leaves its slot. -/
theorem deferred_frames_leave_in_second_turn {runtime : FleeceRuntime} {act : Act}
    (within : act ≠ .turn) {i : Fin maxPendingTx} {tx : PendingTx}
    (free : runtime.pendingTx i = none) (queued : (runtime.step act).pendingTx i = some tx)
    (noWrap : runtime.gossipTickCount ≠ 0xFFFFFFFF) {between later : List Act}
    (quiet : .turn ∉ between) (quietLater : .turn ∉ later) :
    let first := runFrom step (runtime.step act) between
    let second := runFrom step (first.step .turn) later
    first.comms.sent = runtime.comms.sent ∧ first.pendingTx i = some tx ∧
      second.comms.sent = (first.step .turn).comms.sent ∧ second.pendingTx i = some tx ∧
      (second.step .turn).pendingTx i = none ∧
      (second.comms.isInitialized = true → tx.data.size ≠ 0 →
        (tx.dest, tx.data) ∈ (second.step .turn).comms.sent.drop second.comms.sent.length) := by
  intro first second
  have defers := step_defers runtime within
  have waits : (runtime.step act).Waits first := run_waits _ quiet
  have waitsLater : (first.step .turn).Waits second := run_waits _ quietLater
  have turn : first.Turns (first.step .turn) := gossipTurn_turns first
  have turnLater : second.Turns (second.step .turn) := gossipTurn_turns second
  have ready : tx.readyTick = (runtime.gossipTickCount + 1).toUInt64 := by
    cases defers with
    | still same =>
      rw [same.waiting, free] at queued
      cases queued
    | queued sent count dropped j absent other isReady waiting =>
      rw [waiting] at queued
      rcases eq_or_ne i j with rfl | elsewhere
      · rw [Function.update_self] at queued
        rw [← Option.some.inj queued]
        exact isReady
      · rw [Function.update_of_ne elsewhere, free] at queued
        cases queued
    | dropped sent count waiting full => exact absurd free (full i)
  have counted : first.gossipTickCount = runtime.gossipTickCount :=
    waits.count.trans defers.waits.count
  have held : first.pendingTx i = some tx := waits.waiting i tx queued
  have early : ¬ first.Due tx := by
    unfold Due
    rw [counted, ready, not_not]
    exact toUInt64_lt_succ noWrap
  have kept : (first.step .turn).pendingTx i = some tx := by
    rw [turn.waiting, held, Option.filter_some, decide_eq_true early]
    rfl
  have stays : second.pendingTx i = some tx := waitsLater.waiting i tx kept
  have due : second.Due tx := by
    unfold Due
    rw [waitsLater.count, turn.count, counted, ready]
    exact UInt64.lt_irrefl _
  refine ⟨waits.sent.trans defers.waits.sent, held, waitsLater.sent, stays, ?_,
    turnLater.handed i tx stays due⟩
  rw [turnLater.waiting, stays, Option.filter_some, decide_eq_false (not_not_intro due)]
  rfl

/-- The answer to a node that asks for the index. -/
theorem deferred_frames_leave_in_second_turn_index :
    let runtime := (create (.blank 7)).step .initializeComms
    let act := Act.controlFrame (.ofBuffer (controlFrame 9 0 []))
    ((runtime.step act).step .turn).comms.sent = [] ∧
      (.node 9, runtime.stateManager.exportSharedIndex) ∈
        (((runtime.step act).step .turn).step .turn).comms.sent := by
  intro runtime act
  have queued : (runtime.step act).pendingTx 0 =
      some ⟨.node 9, runtime.stateManager.exportSharedIndex, 1⟩ := rfl
  have free : runtime.pendingTx 0 = none := by
    generalize FleeceStateManager.blank 7 = manager at runtime
    rfl
  have within : act ≠ .turn := Act.noConfusion
  have leaves := deferred_frames_leave_in_second_turn within free queued (by decide)
    List.not_mem_nil List.not_mem_nil
  simp only [runFrom_nil] at leaves
  obtain ⟨-, -, -, -, -, leaves⟩ := leaves
  have sent := leaves (by decide +kernel) (by decide +kernel)
  exact ⟨by decide +kernel, List.mem_of_mem_drop sent⟩

/-! ### How many frames may come in -/

/-- A turn of the main loop. -/
def Act.isTurn : Act → Bool
  | .turn => true
  | _ => false

/-- The slots of the queue whose frames meet a condition. -/
def slotsWhere (runtime : FleeceRuntime) (condition : PendingTx → Bool) :
    Finset (Fin maxPendingTx) :=
  Finset.univ.filter fun i => (runtime.pendingTx i).any condition

/-- What waits for the next turn came in during `older`, what waits for the turn after it during
`newer`, and `newer` is the time since the last turn. -/
structure Accounts (runtime : FleeceRuntime) (older newer : List Act) : Prop where
  dropped : runtime.pendingTxDropped = 0
  olderTurns : older.countP Act.isTurn ≤ 1
  newerTurns : newer.countP Act.isTurn = 0
  ready : ∀ i tx, runtime.pendingTx i = some tx →
    tx.readyTick = runtime.gossipTickCount.toUInt64 ∨
      tx.readyTick = (runtime.gossipTickCount + 1).toUInt64
  ripe : (runtime.slotsWhere fun tx => tx.readyTick == runtime.gossipTickCount.toUInt64).card ≤
    older.countP Act.isIncoming
  fresh : (runtime.slotsWhere fun tx =>
      tx.readyTick == (runtime.gossipTickCount + 1).toUInt64).card ≤ newer.countP Act.isIncoming

variable {condition : PendingTx → Bool} {older newer : List Act} {act : Act}

theorem mem_slotsWhere {i : Fin maxPendingTx} :
    i ∈ runtime.slotsWhere condition ↔
      ∃ tx, runtime.pendingTx i = some tx ∧ condition tx = true := by
  unfold slotsWhere
  rw [Finset.mem_filter, Option.any_eq_true]
  exact and_iff_right (Finset.mem_univ i)

theorem slotsWhere_congr (waiting : next.pendingTx = runtime.pendingTx) :
    next.slotsWhere condition = runtime.slotsWhere condition := by
  unfold slotsWhere
  rw [waiting]

theorem count_ne_succ (count : UInt32) : count.toUInt64 ≠ (count + 1).toUInt64 := by
  intro same
  have nats := congrArg UInt64.toNat same
  have bound := count.toNat_lt
  have one : (1 : UInt32).toNat = 1 := rfl
  rw [UInt32.toNat_toUInt64, UInt32.toNat_toUInt64, UInt32.toNat_add] at nats
  omega

theorem accounts_create (manager : FleeceStateManager) : (create manager).Accounts [] [] := by
  have empty (condition : PendingTx → Bool) : ((create manager).slotsWhere condition).card = 0 := by
    refine Finset.card_eq_zero.mpr (Finset.eq_empty_of_forall_notMem fun i member => ?_)
    obtain ⟨tx, held, -⟩ := mem_slotsWhere.mp member
    cases held
  exact ⟨rfl, Nat.zero_le 1, rfl, fun i tx held => (nomatch held), (empty _).le, (empty _).le⟩

theorem Accounts.still (accounts : runtime.Accounts older newer) (same : runtime.Still next)
    (within : act.isTurn = false) : next.Accounts older (newer ++ [act]) where
  dropped := same.dropped.trans accounts.dropped
  olderTurns := accounts.olderTurns
  newerTurns := by
    rw [List.countP_append, accounts.newerTurns, List.countP_singleton, within]
    rfl
  ready := by
    rw [same.waiting, same.count]
    exact accounts.ready
  ripe := by
    rw [slotsWhere_congr same.waiting, same.count]
    exact accounts.ripe
  fresh := by
    rw [slotsWhere_congr same.waiting, same.count, List.countP_append]
    exact accounts.fresh.trans (Nat.le_add_right _ _)

/-- A full queue holds an answer to each of sixteen frames. -/
theorem Accounts.full (accounts : runtime.Accounts older newer)
    (full : ∀ i, runtime.pendingTx i ≠ none) :
    maxPendingTx ≤ (older ++ newer).countP Act.isIncoming := by
  have covered : (Finset.univ : Finset (Fin maxPendingTx)) ⊆
      (runtime.slotsWhere fun tx => tx.readyTick == runtime.gossipTickCount.toUInt64) ∪
        runtime.slotsWhere fun tx => tx.readyTick == (runtime.gossipTickCount + 1).toUInt64 := by
    intro i _
    obtain ⟨tx, held⟩ := Option.ne_none_iff_exists'.mp (full i)
    refine Finset.mem_union.mpr ((accounts.ready i tx held).imp ?_ ?_)
    · exact fun isRipe => mem_slotsWhere.mpr ⟨tx, held, beq_iff_eq.mpr isRipe⟩
    · exact fun isFresh => mem_slotsWhere.mpr ⟨tx, held, beq_iff_eq.mpr isFresh⟩
  calc
    maxPendingTx = (Finset.univ : Finset (Fin maxPendingTx)).card :=
      (Finset.card_fin maxPendingTx).symm
    _ ≤ _ := Finset.card_le_card covered
    _ ≤ _ := Finset.card_union_le _ _
    _ ≤ older.countP Act.isIncoming + newer.countP Act.isIncoming :=
      Nat.add_le_add accounts.ripe accounts.fresh
    _ = _ := List.countP_append.symm

theorem Accounts.defers (accounts : runtime.Accounts older newer) (defers : runtime.Defers next)
    (within : act.isTurn = false) (incoming : act.isIncoming = true)
    (few : (older ++ (newer ++ [act])).countP Act.isIncoming ≤ maxPendingTx) :
    next.Accounts older (newer ++ [act]) := by
  have more : (newer ++ [act]).countP Act.isIncoming = newer.countP Act.isIncoming + 1 := by
    rw [List.countP_append, List.countP_singleton, if_pos incoming]
  cases defers with
  | still same => exact accounts.still same within
  | dropped sent count waiting full =>
    have sixteen := accounts.full full
    rw [List.countP_append] at few sixteen
    omega
  | queued sent count dropped i free tx ready waiting =>
    have slots (condition : PendingTx → Bool) (j : Fin maxPendingTx)
        (member : j ∈ next.slotsWhere condition) :
        j ∈ runtime.slotsWhere condition ∨ j = i ∧ condition tx = true := by
      obtain ⟨other, held, meets⟩ := mem_slotsWhere.mp member
      rw [waiting] at held
      rcases eq_or_ne j i with rfl | elsewhere
      · rw [Function.update_self] at held
        rw [Option.some.inj held]
        exact Or.inr ⟨rfl, meets⟩
      · rw [Function.update_of_ne elsewhere] at held
        exact Or.inl (mem_slotsWhere.mpr ⟨other, held, meets⟩)
    constructor
    case dropped => exact dropped.trans accounts.dropped
    case olderTurns => exact accounts.olderTurns
    case newerTurns =>
      rw [List.countP_append, accounts.newerTurns, List.countP_singleton, within]
      rfl
    case ready =>
      intro j other held
      rw [waiting] at held
      rw [count]
      rcases eq_or_ne j i with rfl | elsewhere
      · rw [Function.update_self] at held
        rw [← Option.some.inj held]
        exact Or.inr ready
      · rw [Function.update_of_ne elsewhere] at held
        exact accounts.ready j other held
    case ripe =>
      rw [count]
      refine (Finset.card_le_card fun j member => ?_).trans accounts.ripe
      refine (slots _ j member).resolve_right fun isNew => ?_
      exact count_ne_succ runtime.gossipTickCount ((beq_iff_eq.mp isNew.2).symm.trans ready)
    case fresh =>
      rw [count, more]
      refine (Finset.card_le_card fun j member => ?_).trans
        ((Finset.card_insert_le i _).trans (Nat.add_le_add_right accounts.fresh 1))
      exact Finset.mem_insert.mpr ((slots _ j member).symm.imp And.left id)

theorem Accounts.turns (accounts : runtime.Accounts older newer) (turns : runtime.Turns next) :
    next.Accounts (newer ++ [.turn]) [] := by
  have left (i : Fin maxPendingTx) (tx : PendingTx) (held : next.pendingTx i = some tx) :
      runtime.pendingTx i = some tx ∧ tx.readyTick = next.gossipTickCount.toUInt64 := by
    rw [turns.waiting, Option.filter_eq_some_iff, decide_eq_true_eq] at held
    refine ⟨held.1, ?_⟩
    rw [turns.count]
    refine (accounts.ready i tx held.1).resolve_left fun isRipe => held.2 ?_
    unfold Due
    rw [isRipe]
    exact UInt64.lt_irrefl _
  constructor
  case dropped => exact turns.dropped.trans accounts.dropped
  case olderTurns =>
    rw [List.countP_append, accounts.newerTurns]
    exact le_rfl
  case newerTurns => rfl
  case ready => exact fun i tx held => Or.inl (left i tx held).2
  case ripe =>
    have fewer : newer.countP Act.isIncoming ≤ (newer ++ [Act.turn]).countP Act.isIncoming := by
      rw [List.countP_append]
      exact Nat.le_add_right _ _
    refine (Finset.card_le_card fun i member => ?_).trans (accounts.fresh.trans fewer)
    obtain ⟨tx, held, isRipe⟩ := mem_slotsWhere.mp member
    obtain ⟨before, ready⟩ := left i tx held
    rw [turns.count] at ready
    exact mem_slotsWhere.mpr ⟨tx, before, beq_iff_eq.mpr ready⟩
  case fresh =>
    refine (Finset.card_eq_zero.mpr (Finset.eq_empty_of_forall_notMem fun i member => ?_)).le
    obtain ⟨tx, held, isFresh⟩ := mem_slotsWhere.mp member
    exact count_ne_succ _ ((left i tx held).2.symm.trans (beq_iff_eq.mp isFresh))

/-- No stretch of a run with at most one turn in it brings more frames than the queue has slots. -/
def Unhurried (acts : List Act) : Prop :=
  ∀ window, window <:+: acts → window.countP Act.isTurn ≤ 1 →
    window.countP Act.isIncoming ≤ maxPendingTx

/-- Where no more than sixteen frames come in during any two turns of the main loop, no frame that
is to be deferred is dropped. -/
theorem no_frame_is_dropped (manager : FleeceStateManager) {acts : List Act}
    (unhurried : Unhurried acts) :
    (runFrom step (create manager) acts).pendingTxDropped = 0 := by
  have runs : ∃ before older newer, acts = before ++ (older ++ newer) ∧
      (runFrom step (create manager) acts).Accounts older newer := by
    induction acts using List.reverseRecOn with
    | nil => exact ⟨[], [], [], rfl, accounts_create manager⟩
    | append_singleton acts act inductionHypothesis =>
      obtain ⟨before, older, newer, rfl, accounts⟩ := inductionHypothesis fun window within =>
        unhurried window (within.trans (List.infix_append' [] acts [act]))
      rw [runFrom_append, runFrom_cons, runFrom_nil]
      generalize runFrom step (create manager) _ = runtime at accounts ⊢
      by_cases turned : act = .turn
      · subst turned
        have turns : runtime.Turns (runtime.step .turn) := gossipTurn_turns runtime
        exact ⟨before ++ older, newer ++ [Act.turn], [], by simp, accounts.turns turns⟩
      · have within : act.isTurn = false := by cases act <;> first | rfl | exact absurd rfl turned
        refine ⟨before, older, newer ++ [act], by simp, ?_⟩
        cases incoming : act.isIncoming with
        | false => exact accounts.still (step_still runtime turned incoming) within
        | true =>
          refine accounts.defers (step_defers runtime turned) within incoming (unhurried _ ?_ ?_)
          · exact ⟨before, [], by simp⟩
          · rw [List.countP_append, List.countP_append, accounts.newerTurns,
              List.countP_singleton, within]
            exact accounts.olderTurns
  obtain ⟨before, older, newer, -, accounts⟩ := runs
  exact accounts.dropped

/-- Nodes ask for the index sixteen times in every two turns. -/
theorem no_frame_is_dropped_sixteen :
    let asks := List.replicate 8 (Act.controlFrame (.ofBuffer (controlFrame 9 0 [])))
    (runFrom step (create (.blank 7)) (asks ++ .turn :: asks)).pendingTxDropped = 0 :=
  no_frame_is_dropped (.blank 7) fun _ within _ => within.sublist.countP_le.trans (by decide)

/-- The seventeenth frame of a turn has no slot. -/
example :
    (runFrom step (create (.blank 7)) (List.replicate 17
      (.controlFrame (.ofBuffer (controlFrame 9 0 []))))).pendingTxDropped = 1 := by
  decide +kernel

end FleeceRuntime

end Fleece
