/-
This file compares the two ways a gossip frame comes in: through the hooks of the
runtime, and through the Reticulum module, which merges the frame itself and
reports the gap to a callback. The runtime ignores a frame that is refused; the
module reports it all the same, and the report says that the node is current with
the sender. This is the only difference between them.
-/

import Fleece.Gossip

namespace Fleece

/-! ### The Reticulum module -/

/-- The globals of `fleece_reticulum.cpp` that an inbound gossip frame meets. -/
structure FleeceReticulum where
  /-- `g_state_manager` is the state manager of the runtime, and not null. -/
  isAttached : Bool
  packetsReceived : UInt32
  importFailures : UInt32
  gapCallback : Option (FleeceRuntime → Bool → UInt64 → FleeceRuntime)

/-- `import_gossip_frame`. The callback is called whatever the import returned. -/
def FleeceReticulum.importGossipFrame (module : FleeceReticulum) (runtime : FleeceRuntime)
    (data : Blob) : FleeceReticulum × FleeceRuntime :=
  if !module.isAttached then (module, runtime)
  else
    let result := runtime.stateManager.importFrom data
    let imported := { runtime with stateManager := result.manager }
    let failed : UInt32 := match result.code with
      | .ok () => 0
      | .error _ => 1
    ({ module with
        packetsReceived := module.packetsReceived + 1
        importFailures := module.importFailures + failed },
      match module.gapCallback with
      | none => imported
      | some callback =>
        callback imported (result.behindShared.getD false) (result.senderNodeId.getD 0))

/-- The module attached to the runtime's state manager, with the callback that hands the report
to `fleece_runtime_note_behind_from`. -/
def FleeceReticulum.wired (packetsReceived importFailures : UInt32) : FleeceReticulum where
  isAttached := true
  packetsReceived := packetsReceived
  importFailures := importFailures
  gapCallback := some FleeceRuntime.noteBehind

/-- What a table says of a target: its peer, both flags and when it was heard. -/
def ResyncTarget.tracked (target : ResyncTarget) : Option (UInt64 × Bool × Bool × UInt64) :=
  if target.slotExists then
    some (target.nodeId, target.needShared, target.awaitingIndex, target.lastHeardTick)
  else none

namespace FleeceRuntime

/-- The same state manager and the same table of targets. -/
structure SameBookkeeping (first second : FleeceRuntime) : Prop where
  store : first.stateManager = second.stateManager
  targets : ∀ i, (first.resyncTargets i).tracked = (second.resyncTargets i).tracked

/-- The frame is read to its end. -/
def isWellFormed (nodeId : UInt64) (frame : Blob) : Bool :=
  match parseFrame nodeId frame with
  | .error _ => false
  | .ok parsed => match parsed.code with
    | .error _ => false
    | .ok () => true

/-- The sender a frame names before anything in it is refused, and 0 if it names none. -/
def namedSender (nodeId : UInt64) (frame : Blob) : UInt64 :=
  ((readSender nodeId frame.bytes frame.size).toOption.map Prod.fst).getD 0

/-- The entry of a peer in the table. -/
def targetOf (runtime : FleeceRuntime) (nodeId : UInt64) : Option (Fin maxResyncTargets) :=
  Fin.find? fun i => (runtime.resyncTargets i).slotExists &&
    (runtime.resyncTargets i).nodeId == nodeId

/-- A report that the node is current with a peer finds nothing to write: the entry was heard on
this tick and its flag is down or held up by a round in flight, or there is no entry and none
is free. -/
def isCurrent (runtime : FleeceRuntime) (nodeId : UInt64) : Bool :=
  match runtime.targetOf nodeId with
  | some i =>
    (runtime.resyncTargets i).lastHeardTick == runtime.gossipTickCount.toUInt64 &&
      (!(runtime.resyncTargets i).needShared || (runtime.resyncTargets i).awaitingIndex)
  | none => (Fin.find? fun i => !(runtime.resyncTargets i).slotExists).isNone

/-! ### The two inbound paths -/

/-- A frame that was read past its header names the sender it was read with. -/
theorem namedSender_of_read {nodeId : UInt64} {frame : Blob} {parsed : ParsedFrame}
    (read : parseFrame nodeId frame = .ok parsed) :
    namedSender nodeId frame = parsed.senderNodeId := by
  obtain ⟨senderEnd, _, sender, _⟩ := reads_of_parseFrame read
  rw [namedSender, sender]
  rfl

theorem importCode_eq_zero {code : Except Halt Unit} (zero : importCode code = 0) :
    code = .ok () := by
  cases code with
  | error halt => cases zero
  | ok done => rfl

theorem importCode_ne_zero {code : Except Halt Unit} (failed : importCode code = -1) :
    ∃ halt, code = .error halt := by
  cases code with
  | error halt => exact ⟨halt, rfl⟩
  | ok done => cases failed

/-- What an import reports: it succeeds on the frames that are read to their end, and on all
others it leaves the gap flag alone after it has named the sender, if it came that far. -/
theorem importFrom_report (manager : FleeceStateManager) (frame : Blob) :
    if isWellFormed manager.nodeId frame then (manager.importFrom frame).code = .ok ()
    else (∃ halt, (manager.importFrom frame).code = .error halt) ∧
      (manager.importFrom frame).behindShared = none ∧
      (manager.importFrom frame).senderNodeId.getD 0 = namedSender manager.nodeId frame := by
  have output := FleeceStateManager.importFrom_output manager frame
  unfold isWellFormed
  cases read : parseFrame manager.nodeId frame with
  | error halt =>
    rw [read] at output
    injection output with code sender _ gap
    exact ⟨importCode_ne_zero code, gap, congrArg (Option.getD · 0) sender⟩
  | ok parsed =>
    rw [read] at output
    cases ended : parsed.code with
    | error halt =>
      simp only [ended] at output ⊢
      injection output with code sender _ gap
      refine ⟨importCode_ne_zero code, gap, ?_⟩
      rw [namedSender_of_read read]
      exact congrArg (Option.getD · 0) sender
    | ok done =>
      simp only [ended] at output ⊢
      injection output with code
      exact importCode_eq_zero code

/-- A report that the node is current leaves the table as it was exactly where it finds nothing
to write. -/
theorem noteBehind_current (runtime : FleeceRuntime) (nodeId : UInt64) :
    (∀ i, ((runtime.noteBehind false nodeId).resyncTargets i).tracked =
      (runtime.resyncTargets i).tracked) ↔ runtime.isCurrent nodeId = true := by
  unfold noteBehind resyncTargetForId isCurrent targetOf
  cases entry : Fin.find? fun i => (runtime.resyncTargets i).slotExists &&
      (runtime.resyncTargets i).nodeId == nodeId with
  | some i =>
    have held := (Bool.and_eq_true_iff.mp (Fin.eq_true_of_find?_eq_some entry)).1
    simp only [withTarget]
    constructor
    · intro same
      have here := same i
      rw [Function.update_self] at here
      simp only [ResyncTarget.tracked, held, if_true, Option.some.injEq, Prod.mk.injEq] at here
      grind
    · intro current j
      by_cases equal : j = i
      · subst equal
        rw [Function.update_self]
        simp only [ResyncTarget.tracked, held, if_true]
        grind
      · rw [Function.update_of_ne equal]
  | none =>
    simp only
    cases free : Fin.find? fun i => !(runtime.resyncTargets i).slotExists with
    | none => simp [withTarget]
    | some i =>
      have vacant := (Bool.not_eq_true' _).mp (Fin.eq_true_of_find?_eq_some free)
      simp only [withTarget, Function.update_idem, Option.isNone_some, Bool.false_eq_true,
        iff_false]
      intro same
      have here := same i
      rw [Function.update_self, Function.update_self] at here
      simp [ResyncTarget.tracked, vacant] at here

/-- The early return on an empty frame changes nothing. -/
theorem onGossipFrame_eq (runtime : FleeceRuntime) (data : Blob) :
    runtime.onGossipFrame data = runtime.importAndTrack data := by
  unfold onGossipFrame
  by_cases blank : data.size = 0
  · rw [if_pos blank]
    have short : readSender runtime.stateManager.nodeId data.bytes data.size = .error .rejected := by
      rw [readSender, if_pos (by rw [blank]; decide)]
    simp only [importAndTrack, FleeceStateManager.importFrom, FleeceStateManager.importImpl, short]
    rfl
  · rw [if_neg blank]

/-- The two ways a gossip frame comes in leave the same state manager and the same targets
exactly where the frame is read to its end, or where the report of a refused frame finds
nothing to write. -/
theorem inbound_paths_agree_iff (packetsReceived importFailures : UInt32)
    (runtime : FleeceRuntime) (data : Blob) :
    SameBookkeeping ((FleeceReticulum.wired packetsReceived importFailures).importGossipFrame
        runtime data).2 (runtime.onGossipFrame data) ↔
      isWellFormed runtime.stateManager.nodeId data = true ∨
        runtime.isCurrent (namedSender runtime.stateManager.nodeId data) = true := by
  have report := importFrom_report runtime.stateManager data
  rw [onGossipFrame_eq]
  simp only [FleeceReticulum.importGossipFrame, FleeceReticulum.wired, Bool.not_true,
    Bool.false_eq_true, if_false, importAndTrack]
  by_cases accepted : isWellFormed runtime.stateManager.nodeId data = true
  · rw [if_pos accepted] at report
    rw [report]
    exact iff_of_true ⟨rfl, fun _ => rfl⟩ (.inl accepted)
  · rw [if_neg accepted] at report
    obtain ⟨⟨halt, code⟩, gap, sender⟩ := report
    rw [code, gap, sender, or_iff_right accepted]
    let imported : FleeceRuntime :=
      { runtime with stateManager := (runtime.stateManager.importFrom data).manager }
    refine Iff.trans ?_ (imported.noteBehind_current _)
    exact ⟨fun same => same.targets, fun same => ⟨(noteBehind_talks imported _ _).store, same⟩⟩

/-- A frame that is no frame at all gives the anonymous target an entry, but only when it comes
in through the module. -/
theorem refused_frame_noted :
    ¬ SameBookkeeping
      ((FleeceReticulum.wired 0 0).importGossipFrame (create (.blank 7)) ⟨[0], by decide⟩).2
      ((create (.blank 7)).onGossipFrame ⟨[0], by decide⟩) := by
  intro same
  exact absurd (same.targets 0) (by decide)

end FleeceRuntime

end Fleece
