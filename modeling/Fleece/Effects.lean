/-
This file shows that every operation is made of the steps of the store. A merge
stores the peer's record unless the record under its pair outranks it; an import is
a sequence of merges, cut short where the frame is damaged; the packing loop of the
bounded export marks one slot after another; and the rest leaves the array alone.
-/

import Fleece.Operations

namespace Fleece

namespace FleeceStateManager

/-! ### Merges -/

/-- What became of a record that passed the argument checks of a merge. -/
inductive MergeOutcome (base : FleeceStateManager) (pair : UInt32 × UInt64) (record : GossipRecord)
    (outranks : GossipRecord → Prop) : FleeceStateManager × Int → Prop
  | kept (old : GossipRecord) (found : base.view pair = some old) (stays : ¬ outranks old) :
      MergeOutcome base pair record outranks (base, 0)
  | noSlot (absent : base.view pair = none) (full : fieldCapacity ≤ base.fieldCount) :
      MergeOutcome base pair record outranks (base, -1)
  | stored (next : FleeceStateManager) (f : FieldEntry) (storedAt : Stored base next f)
      (rest : next = { base with fields := next.fields, fieldCount := next.fieldCount })
      (label : (f.key, f.nodeId) = pair) (held : f.record = record)
      (newer : ∀ old, base.view pair = some old → outranks old) :
      MergeOutcome base pair record outranks (next, 0)

theorem upsertField_mergeOutcome {base : FleeceStateManager} {key : UInt32} {owner : UInt64}
    {origin : UInt64} {name : CString} {data : Blob} {timestamp : UInt64} {isTombstone : Bool}
    {outranks : GossipRecord → Prop}
    (newer : ∀ old, base.view (key, owner) = some old → outranks old) :
    MergeOutcome base (key, owner)
      (.upserted origin (.copy name) data timestamp isTombstone) outranks
      (base.upsertField key owner origin (some name) data timestamp isTombstone) := by
  rcases upsertField_cases base key owner origin (some name) data timestamp isTombstone with
    ⟨result, absent, full⟩ | ⟨f, next, result, storedAt, rest, keyEq, ownerEq, recordEq⟩
  · rw [result]
    exact .noSlot (view_eq_none_iff.mpr absent) full
  · rw [result]
    refine .stored next f storedAt rest ?_ recordEq newer
    rw [keyEq, ownerEq]

theorem mergeShared_outcome (manager : FleeceStateManager) (origin : UInt64) (name : CString)
    (data : Blob) (timestamp : UInt64) (isTombstone : Bool)
    (accepted : mergeable name data isTombstone = true) :
    MergeOutcome (manager.raiseClock timestamp) (hashName name, sharedOwnerId)
      (.upserted origin (.copy name) data timestamp isTombstone)
      (GossipRecord.Outranks (.upserted origin (.copy name) data timestamp isTombstone))
      (manager.mergeShared origin name data timestamp isTombstone) := by
  unfold mergeShared
  rw [accepted, Bool.not_true, if_neg Bool.false_ne_true]
  simp only
  cases found : (manager.raiseClock timestamp).findSlotOwned (hashName name) sharedOwnerId with
  | none =>
    refine upsertField_mergeOutcome fun old held => ?_
    rw [view_eq_none_iff.mpr found] at held
    cases held
  | some i =>
    have held := view_of_findSlotOwned found
    simp only
    split_ifs with older tie
    · refine .kept _ held ?_
      rintro (later | ⟨same, _⟩)
      · exact UInt64.lt_asymm later older
      · exact UInt64.ne_of_lt older same.symm
    · refine .kept _ held ?_
      rintro (later | ⟨_, higher⟩)
      · exact UInt64.ne_of_lt later tie.1
      · exact UInt64.not_lt.mpr tie.2 higher
    · refine upsertField_mergeOutcome fun old present => ?_
      rw [held] at present
      rw [← Option.some.inj present]
      rcases UInt64.lt_or_eq_of_le (UInt64.not_lt.mp older) with later | same
      · exact Or.inl later
      · exact Or.inr ⟨same, UInt64.not_le.mp fun lower => tie ⟨same, lower⟩⟩

theorem mergeNamed_outcome (manager : FleeceStateManager) (owner : UInt64) (name : CString)
    (data : Blob) (timestamp : UInt64) (isTombstone : Bool)
    (accepted : mergeable name data isTombstone = true) (foreign : owner ≠ manager.nodeId) :
    MergeOutcome ((manager.touchPeer owner).raiseClock timestamp) (hashName name, owner)
      (.upserted owner (.copy name) data timestamp isTombstone)
      (fun old => old.timestamp < timestamp)
      (manager.mergeNamed owner name data timestamp isTombstone) := by
  unfold mergeNamed
  rw [accepted, Bool.not_true, if_neg Bool.false_ne_true, if_neg foreign]
  simp only
  cases found : ((manager.touchPeer owner).raiseClock timestamp).findSlotOwned (hashName name)
      owner with
  | none =>
    refine upsertField_mergeOutcome fun old held => ?_
    rw [view_eq_none_iff.mpr found] at held
    cases held
  | some i =>
    have held := view_of_findSlotOwned found
    simp only
    split_ifs with older
    · exact .kept _ held (UInt64.not_lt.mpr older)
    · refine upsertField_mergeOutcome fun old present => ?_
      rw [held] at present
      rw [← Option.some.inj present]
      exact UInt64.not_le.mp older

/-! ### Quiet steps -/

theorem touchPeer_rest (manager : FleeceStateManager) (nodeId : UInt64) :
    manager.touchPeer nodeId =
      { manager with peersSeen := (manager.touchPeer nodeId).peersSeen } := by
  unfold touchPeer
  split_ifs
  · rfl
  · rfl
  · split
    · rfl
    · split <;> rfl

theorem touchPeer_fields (manager : FleeceStateManager) (nodeId : UInt64) :
    (manager.touchPeer nodeId).fields = manager.fields := by
  rw [touchPeer_rest]

theorem touchPeer_nodeId (manager : FleeceStateManager) (nodeId : UInt64) :
    (manager.touchPeer nodeId).nodeId = manager.nodeId := by
  rw [touchPeer_rest]

theorem touchPeer_localTimestamp (manager : FleeceStateManager) (nodeId : UInt64) :
    (manager.touchPeer nodeId).localTimestamp = manager.localTimestamp := by
  rw [touchPeer_rest]

theorem touchPeer_quiet (manager : FleeceStateManager) (nodeId : UInt64) :
    MergeStep manager (manager.touchPeer nodeId) := by
  rw [touchPeer_rest]
  exact .quiet rfl rfl rfl (UInt64.le_refl _)

theorem le_raiseClock (manager : FleeceStateManager) (timestamp : UInt64) :
    manager.localTimestamp ≤ (manager.raiseClock timestamp).localTimestamp ∧
      timestamp ≤ (manager.raiseClock timestamp).localTimestamp := by
  unfold raiseClock
  simp only
  split_ifs with above
  · exact ⟨UInt64.le_refl _, UInt64.le_of_lt above⟩
  · exact ⟨UInt64.not_lt.mp above, UInt64.le_refl _⟩

theorem raiseClock_of_le {manager : FleeceStateManager} {timestamp : UInt64}
    (early : timestamp ≤ manager.localTimestamp) : manager.raiseClock timestamp = manager := by
  unfold raiseClock
  split_ifs with later
  · rfl
  · rw [UInt64.le_antisymm early (UInt64.not_lt.mp later)]

theorem raiseClock_quiet (manager : FleeceStateManager) (timestamp : UInt64) :
    MergeStep manager (manager.raiseClock timestamp) :=
  .quiet rfl rfl rfl (le_raiseClock manager timestamp).1

/-! ### Merges are steps -/

/-- A merge outcome over a raised clock is at most one step of the store. -/
theorem MergeOutcome.steps {base : FleeceStateManager} {pair : UInt32 × UInt64}
    {record : GossipRecord} {outranks : GossipRecord → Prop}
    {result : FleeceStateManager × Int} (outcome : MergeOutcome base pair record outranks result)
    (stamp : record.timestamp ≤ base.localTimestamp) (foreign : pair.2 ≠ base.nodeId)
    (named : record.isNamed = true) (filled : record.Filled)
    (authored : pair.2 ≠ sharedOwnerId → record.originNodeId = pair.2)
    (stronger : ∀ old, outranks old → record.Outranks old) :
    Relation.ReflTransGen MergeStep base result.1 := by
  cases outcome with
  | kept old found stays => exact .refl
  | noSlot absent full => exact .refl
  | stored next f storedAt rest label held newer =>
    refine .single (.merge f storedAt ?_ ?_ ?_ ?_ ?_ ?_ ?_ fun old found => ?_)
    · rw [rest]
    · rw [rest]
    · rwa [← held] at stamp
    · rw [← label] at foreign
      exact foreign
    · rwa [← held] at named
    · rwa [held]
    · rw [← label, ← held] at authored
      exact authored
    · have before : base.view pair = some old.record := by
        rw [← label, view, found, Option.map_some]
      have outranked := stronger _ (newer _ before)
      rwa [← held] at outranked

theorem upserted_checked (origin timestamp : UInt64) {name : CString} {data : Blob}
    {isTombstone : Bool} (accepted : mergeable name data isTombstone = true) :
    (GossipRecord.upserted origin (.copy name) data timestamp isTombstone).isNamed = true ∧
      (GossipRecord.upserted origin (.copy name) data timestamp isTombstone).Filled := by
  rw [mergeable, Bool.and_eq_true, Bool.not_eq_true', ← Bool.not_eq_true, List.isEmpty_iff,
    Bool.or_eq_true, bne_iff_ne] at accepted
  refine ⟨GossipRecord.isNamed_iff.mpr (FieldName.copy_nonempty accepted.1),
    GossipRecord.filled_upserted fun live => accepted.2.resolve_left ?_⟩
  rw [live]
  exact Bool.false_ne_true

theorem mergeShared_steps {manager : FleeceStateManager} (realNode : manager.nodeId ≠ sharedOwnerId)
    (origin : UInt64) (name : CString) (data : Blob) (timestamp : UInt64) (isTombstone : Bool) :
    Relation.ReflTransGen MergeStep manager
      (manager.mergeShared origin name data timestamp isTombstone).1 := by
  by_cases accepted : mergeable name data isTombstone = true
  · obtain ⟨named, filled⟩ := upserted_checked origin timestamp accepted
    exact .head (raiseClock_quiet manager timestamp)
      ((mergeShared_outcome manager origin name data timestamp isTombstone accepted).steps
        (le_raiseClock manager timestamp).2 realNode.symm named filled (absurd rfl) fun _ => id)
  · unfold mergeShared
    rw [Bool.eq_false_of_not_eq_true accepted, Bool.not_false, if_pos rfl]

theorem mergeNamed_steps (manager : FleeceStateManager) (owner : UInt64) (name : CString)
    (data : Blob) (timestamp : UInt64) (isTombstone : Bool) :
    Relation.ReflTransGen MergeStep manager
      (manager.mergeNamed owner name data timestamp isTombstone).1 := by
  by_cases accepted : mergeable name data isTombstone = true
  · by_cases foreign : owner = manager.nodeId
    · unfold mergeNamed
      rw [accepted, Bool.not_true, if_neg Bool.false_ne_true, if_pos foreign]
    · obtain ⟨named, filled⟩ := upserted_checked owner timestamp accepted
      refine .head (touchPeer_quiet manager owner) (.head (raiseClock_quiet _ timestamp)
        ((mergeNamed_outcome manager owner name data timestamp isTombstone accepted foreign).steps
          (le_raiseClock _ timestamp).2 ?_ named filled (fun _ => rfl) fun _ later => Or.inl later))
      show owner ≠ (manager.touchPeer owner).nodeId
      rwa [touchPeer_nodeId]
  · unfold mergeNamed
    rw [Bool.eq_false_of_not_eq_true accepted, Bool.not_false, if_pos rfl]

/-! ### Imports -/

theorem mergeRecord_steps {manager : FleeceStateManager} (realNode : manager.nodeId ≠ sharedOwnerId)
    (owner : UInt64) (record : GossipRecord) :
    Relation.ReflTransGen MergeStep manager (manager.mergeRecord owner record) := by
  unfold mergeRecord
  split_ifs
  · exact mergeShared_steps realNode _ _ _ _ _
  · exact mergeNamed_steps manager _ _ _ _ _

theorem MergeStep.nodeId {manager next : FleeceStateManager} (step : MergeStep manager next) :
    next.nodeId = manager.nodeId := by
  cases step with
  | quiet fields count node clock => exact node
  | merge f stored node => exact node

theorem nodeId_of_steps {manager next : FleeceStateManager}
    (steps : Relation.ReflTransGen MergeStep manager next) : next.nodeId = manager.nodeId := by
  induction steps with
  | refl => rfl
  | tail _ step inductionHypothesis => exact step.nodeId.trans inductionHypothesis

theorem importRecords_steps (owner : UInt64) (buf : List UInt8) (size count : Nat)
    {manager : FleeceStateManager} (realNode : manager.nodeId ≠ sharedOwnerId) (pos : Nat) :
    Relation.ReflTransGen MergeStep manager
      (importRecords owner buf size manager count pos).manager := by
  induction count generalizing manager pos with
  | zero => exact .refl
  | succ count inductionHypothesis =>
    unfold importRecords
    cases readRecord owner buf size pos with
    | error halt => exact .refl
    | ok result =>
      obtain ⟨record, after⟩ := result
      have merged : Relation.ReflTransGen MergeStep manager
          (record.elim manager (manager.mergeRecord owner)) := by
        cases record with
        | none => exact .refl
        | some record => exact mergeRecord_steps realNode owner record
      exact merged.trans (inductionHypothesis ((nodeId_of_steps merged).symm ▸ realNode) after)

theorem importStream_manager (manager : FleeceStateManager) (buf : List UInt8) (size : Nat)
    (sender : UInt64) (stream : StreamHeader) (count : UInt64) (pos : Nat) :
    (manager.importStream buf size sender stream count pos).manager =
      (importRecords stream.ownerNodeId buf size manager count.toNat pos).manager := by
  unfold importStream
  simp only
  split <;> rfl

theorem importFrom_steps {manager : FleeceStateManager} (realNode : manager.nodeId ≠ sharedOwnerId)
    (frame : Blob) :
    Relation.ReflTransGen MergeStep manager (manager.importFrom frame).manager := by
  unfold importFrom importImpl
  cases readSender manager.nodeId frame.bytes frame.size with
  | error halt => exact .refl
  | ok sender =>
    simp only
    cases readStream manager.nodeId frame.bytes frame.size sender.2 with
    | error halt => exact .refl
    | ok stream =>
      refine .head (touchPeer_quiet manager sender.1) ?_
      simp only
      cases readMajor frame.bytes frame.size stream.pos 4 with
      | error halt => exact .refl
      | ok count =>
        simp only
        rw [importStream_manager]
        refine importRecords_steps _ _ _ _ ?_ _
        rwa [touchPeer_nodeId]

/-! ### The packing loop -/

/-- The packing loop marks the slots it takes, one after another. -/
theorem pack_steps (manager : FleeceStateManager) (capBytes : Nat) (state : Packing)
    (rows : List Eligible) :
    Relation.ReflTransGen MarkStep { manager with fields := state.fields }
      { manager with fields := (pack manager.localTimestamp capBytes state rows).1.fields } := by
  induction rows generalizing state with
  | nil => exact .refl
  | cons entry rest inductionHypothesis =>
    unfold pack
    split_ifs
    · exact .refl
    · exact .head ⟨entry.index, rfl⟩ (inductionHypothesis (state.push manager.localTimestamp entry))

theorem exportSharedDeltaBounded_steps (manager : FleeceStateManager) (since : UInt64)
    (capBytes : Nat) :
    Relation.ReflTransGen MarkStep manager
      (manager.exportSharedDeltaBounded since capBytes).manager :=
  pack_steps manager capBytes manager.startPacking _

/-! ### Every operation -/

/-- An operation is a local write, a sequence of merges, a sequence of marks, or `compact`. -/
theorem operation_effect {manager : FleeceStateManager} (invariant : manager.StoreInvariant)
    (operation : Operation) :
    (∃ change, operation = .write change ∧ WriteEffect manager (operation.next manager)) ∨
      Relation.ReflTransGen MergeStep manager (operation.next manager) ∨
      Relation.ReflTransGen MarkStep manager (operation.next manager) ∨ operation = .compact := by
  cases operation with
  | write change => exact Or.inl ⟨change, rfl, write_effect invariant change⟩
  | query asked => exact Or.inr (Or.inl .refl)
  | mergeNamed owner name data timestamp isTombstone =>
    exact Or.inr (Or.inl (mergeNamed_steps manager owner name data timestamp isTombstone))
  | mergeShared origin name data timestamp isTombstone =>
    exact Or.inr (Or.inl
      (mergeShared_steps invariant.realNode origin name data timestamp isTombstone))
  | importFrom frame => exact Or.inr (Or.inl (importFrom_steps invariant.realNode frame))
  | exportSharedDeltaBounded since capBytes =>
    exact Or.inr (Or.inr (Or.inl (exportSharedDeltaBounded_steps manager since capBytes)))
  | tick => exact Or.inr (Or.inl (.single (.quiet rfl rfl rfl (UInt64.le_refl _))))
  | compact => exact Or.inr (Or.inr (Or.inr rfl))

theorem operation_nodeId {manager : FleeceStateManager} (store : manager.StoreInvariant)
    (operation : Operation) : (operation.next manager).nodeId = manager.nodeId := by
  rcases operation_effect store operation with ⟨change, isWrite, effect⟩ | merges | marks | rfl
  · cases effect with
    | unchanged same => rw [same]
    | noSlot fields count node clock => exact node
    | wrote f stored node clock => exact node
  · exact nodeId_of_steps merges
  · rw [(markSteps_rest marks).1]
  · rfl

theorem operation_storeInvariant {manager : FleeceStateManager} (store : manager.StoreInvariant)
    (operation : Operation) : (operation.next manager).StoreInvariant := by
  rcases operation_effect store operation with ⟨change, isWrite, effect⟩ | merges | marks | rfl
  · exact effect.storeInvariant store
  · exact (mergeSteps_keep merges store).1
  · exact (markSteps_keep marks store).1
  · exact compact_storeInvariant store

theorem next_importFrom (manager : FleeceStateManager) (frame : Blob) :
    (Operation.importFrom frame).next manager = (manager.importFrom frame).manager := rfl

theorem importFrom_storeInvariant {manager : FleeceStateManager} (store : manager.StoreInvariant)
    (frame : Blob) : (manager.importFrom frame).manager.StoreInvariant := by
  rw [← next_importFrom]
  exact operation_storeInvariant store _

theorem importFrom_nodeId {manager : FleeceStateManager} (store : manager.StoreInvariant)
    (frame : Blob) : (manager.importFrom frame).manager.nodeId = manager.nodeId := by
  rw [← next_importFrom]
  exact operation_nodeId store _

theorem next_setShared (manager : FleeceStateManager) (name : CString) (data : Blob) :
    (Operation.write (.setShared name data)).next manager = (manager.setShared name data).1 := rfl

theorem setShared_storeInvariant {manager : FleeceStateManager} (store : manager.StoreInvariant)
    (name : CString) (data : Blob) : (manager.setShared name data).1.StoreInvariant := by
  rw [← next_setShared]
  exact operation_storeInvariant store _

theorem setShared_nodeId {manager : FleeceStateManager} (store : manager.StoreInvariant)
    (name : CString) (data : Blob) : (manager.setShared name data).1.nodeId = manager.nodeId := by
  rw [← next_setShared]
  exact operation_nodeId store _

/-- An operation that does not wrap the clock keeps it above every timestamp and moves foreign
slots up. -/
theorem operation_keeps {manager : FleeceStateManager} (store : manager.StoreInvariant)
    (clock : manager.ClockInvariant) (operation : Operation)
    (small : ∀ change, operation = .write change → manager.localTimestamp ≠ clockMax) :
    (operation.next manager).ClockInvariant ∧ Climbs manager (operation.next manager) := by
  rcases operation_effect store operation with ⟨change, isWrite, effect⟩ | merges | marks | rfl
  · exact effect.keeps store clock (small change isWrite)
  · obtain ⟨_, clockNext, climbs⟩ := mergeSteps_keep merges store
    exact ⟨clockNext clock, climbs⟩
  · obtain ⟨_, clockNext, climbs⟩ := markSteps_keep marks store
    exact ⟨clockNext clock, climbs⟩
  · exact ⟨compact_clockInvariant clock, compact_climbs store⟩

end FleeceStateManager

end Fleece
