/-
This file is about runs of one state manager under any of its operations, from
`create` on. Three facts hold of every run in which no local write is made at the
largest clock value: the clock is at or above every stored timestamp and never
goes back, a local write outranks every record stored before it, and a shared slot
is never lost and never falls back to an older version, whatever is imported and
however often the array is compacted.

The condition on the clock is not idle. A frame may carry the timestamp
`2^64 - 1`; after it has been merged, the next local write wraps the clock to zero.
-/

import Fleece.Effects

namespace Fleece

/-- The operation is a local write or delete. -/
def Operation.isLocalWrite : Operation → Bool
  | .write _ => true
  | _ => false

/-- The operation is a compaction. -/
def Operation.isCompact : Operation → Bool
  | .compact => true
  | _ => false

/-- The operation may store a record. -/
def Operation.isStoring : Operation → Bool
  | .write _ => true
  | .mergeNamed .. => true
  | .mergeShared .. => true
  | .importFrom _ => true
  | _ => false

namespace FleeceStateManager

/-- A step at which the clock does not wrap: no local write at the largest clock value. -/
def NoWrap (manager : FleeceStateManager) (operation : Operation) : Prop :=
  operation.isLocalWrite = true → manager.localTimestamp ≠ clockMax

instance (manager : FleeceStateManager) (operation : Operation) :
    Decidable (manager.NoWrap operation) :=
  inferInstanceAs (Decidable (_ → _))

/-- The state after a run of operations. -/
def after (manager : FleeceStateManager) (operations : List Operation) : FleeceStateManager :=
  runFrom Operation.next manager operations

theorem after_append (manager : FleeceStateManager) (first second : List Operation) :
    manager.after (first ++ second) = (manager.after first).after second :=
  runFrom_append manager first second

/-- The invariants of every state a run without a wrap reaches. -/
structure Invariant (manager : FleeceStateManager) : Prop where
  store : manager.StoreInvariant
  clock : manager.ClockInvariant

theorem invariant_create {nodeId : UInt64} {manager : FleeceStateManager}
    (created : createWithNodeId nodeId = some manager) : manager.Invariant :=
  ⟨storeInvariant_create created, clockInvariant_create created⟩

/-- The invariant of the store holds after any operations, also where the clock wraps. -/
theorem StoreInvariant.after {manager : FleeceStateManager} (store : manager.StoreInvariant)
    (operations : List Operation) : (manager.after operations).StoreInvariant := by
  have along : Along Operation.next (fun _ _ => True) manager operations :=
    Along.of_forall fun _ _ => trivial
  exact along.invariant (fun _ operation holds _ => operation_storeInvariant holds operation) store

theorem storeInvariant_after {nodeId : UInt64} {manager : FleeceStateManager}
    (created : createWithNodeId nodeId = some manager) (operations : List Operation) :
    (manager.after operations).StoreInvariant :=
  (storeInvariant_create created).after operations

theorem node_after {nodeId : UInt64} {manager : FleeceStateManager}
    (created : createWithNodeId nodeId = some manager) (operations : List Operation) :
    (manager.after operations).nodeId = nodeId := by
  have along : Along Operation.next (fun _ _ => True) manager operations :=
    Along.of_forall fun _ _ => trivial
  have start : manager.nodeId = nodeId := by
    unfold createWithNodeId at created
    split_ifs at created
    rw [← Option.some.inj created]
    rfl
  have keeps (state : FleeceStateManager) (operation : Operation)
      (holds : state.StoreInvariant ∧ state.nodeId = nodeId) (_ : True) :
      (operation.next state).StoreInvariant ∧ (operation.next state).nodeId = nodeId :=
    ⟨operation_storeInvariant holds.1 operation,
      (operation_nodeId holds.1 operation).trans holds.2⟩
  exact (along.invariant keeps ⟨storeInvariant_create created, start⟩).2

theorem Invariant.keeps {manager : FleeceStateManager} (invariant : manager.Invariant)
    {operation : Operation} (noWrap : manager.NoWrap operation) :
    (operation.next manager).Invariant ∧ Climbs manager (operation.next manager) := by
  obtain ⟨clock, climbs⟩ :=
    operation_keeps invariant.store invariant.clock operation fun change isWrite =>
      noWrap (isWrite ▸ rfl)
  exact ⟨⟨operation_storeInvariant invariant.store operation, clock⟩, climbs⟩

theorem Invariant.after {manager : FleeceStateManager} (invariant : manager.Invariant)
    {operations : List Operation} (noWrap : Along Operation.next NoWrap manager operations) :
    (manager.after operations).Invariant :=
  noWrap.invariant (fun _ _ holds unwrapped => (holds.keeps unwrapped).1) invariant

theorem Invariant.climbs {manager : FleeceStateManager} (invariant : manager.Invariant)
    {operations : List Operation} (noWrap : Along Operation.next NoWrap manager operations) :
    Climbs manager (manager.after operations) :=
  noWrap.climbs Climbs Climbs.refl Climbs.trans (fun _ _ holds unwrapped => (holds.keeps unwrapped).1)
    (fun _ _ holds unwrapped => (holds.keeps unwrapped).2) invariant

/-! ### The clock does not go back -/

theorem MergeStep.clock_le {manager next : FleeceStateManager} (step : MergeStep manager next) :
    manager.localTimestamp ≤ next.localTimestamp := by
  cases step with
  | quiet fields count node clock => exact clock
  | merge f stored node clock =>
    rw [clock]
    exact UInt64.le_refl _

theorem clock_le_of_mergeSteps {manager next : FleeceStateManager}
    (steps : Relation.ReflTransGen MergeStep manager next) :
    manager.localTimestamp ≤ next.localTimestamp := by
  induction steps with
  | refl => exact UInt64.le_refl _
  | tail _ step inductionHypothesis => exact UInt64.le_trans inductionHypothesis step.clock_le

theorem clock_le_next {manager : FleeceStateManager} (invariant : manager.StoreInvariant)
    {operation : Operation} (noWrap : manager.NoWrap operation) :
    manager.localTimestamp ≤ (operation.next manager).localTimestamp := by
  rcases operation_effect invariant operation with ⟨change, isWrite, effect⟩ | merges | marks | rfl
  · have up := UInt64.le_of_lt (lt_add_one_of_ne_max (noWrap (isWrite ▸ rfl)))
    cases effect with
    | unchanged same =>
      rw [same]
      exact UInt64.le_refl _
    | noSlot fields count node clock => rwa [clock]
    | wrote f stored node clock => rwa [clock]
  · exact clock_le_of_mergeSteps merges
  · rw [(markSteps_rest marks).1]
    exact UInt64.le_refl _
  · exact UInt64.le_refl _

theorem Invariant.clock_le {manager : FleeceStateManager} (invariant : manager.Invariant)
    {operations : List Operation} (noWrap : Along Operation.next NoWrap manager operations) :
    manager.localTimestamp ≤ (manager.after operations).localTimestamp :=
  noWrap.climbs (fun first second => first.localTimestamp ≤ second.localTimestamp)
    (fun _ => UInt64.le_refl _) (fun _ _ _ => UInt64.le_trans)
    (fun _ _ holds unwrapped => (holds.keeps unwrapped).1)
    (fun _ _ holds unwrapped => clock_le_next holds.store unwrapped) invariant

/-! ### A shared slot is never lost -/

theorem record_of_unmarked {f g : FieldEntry} (same : unmarked g = unmarked f) :
    g.record = f.record :=
  read_of_unmarked same FieldEntry.record fun _ => rfl

/-- An operation that stores nothing leaves the record of a foreign slot as it is. -/
theorem lookup_of_not_storing {manager : FleeceStateManager} (invariant : manager.StoreInvariant)
    {operation : Operation} (quiet : operation.isStoring = false) {key : UInt32} {owner : UInt64}
    {f : FieldEntry} (foreign : owner ≠ manager.nodeId) (found : manager.lookup key owner = some f) :
    ∃ g, (operation.next manager).lookup key owner = some g ∧ g.record = f.record := by
  cases operation with
  | write change => cases quiet
  | mergeNamed owner name data timestamp isTombstone => cases quiet
  | mergeShared origin name data timestamp isTombstone => cases quiet
  | importFrom frame => cases quiet
  | query asked => exact ⟨f, found, rfl⟩
  | tick => exact ⟨f, found, rfl⟩
  | exportSharedDeltaBounded since capBytes =>
    have marked := lookup_of_unmarked
      (markSteps_rest (exportSharedDeltaBounded_steps manager since capBytes)).2 key owner
    rw [found, Option.map_some] at marked
    obtain ⟨g, held, same⟩ := Option.map_eq_some_iff.mp marked
    exact ⟨g, held, record_of_unmarked same⟩
  | compact =>
    refine ⟨f, ?_, rfl⟩
    show manager.compact.lookup key owner = some f
    rw [compact_lookup invariant.distinct fun i labelled => ?_]
    · exact found
    · obtain ⟨present, _, ownerEq⟩ := fieldLabel_eq_some_iff.mp labelled
      exact keptByCompact_of_foreign invariant present (ownerEq.symm ▸ foreign)

/-- Some operation of the list replaced the record `old` under a key of the shared stream, which
stood there until then, by one of a greater version. -/
def Replaced (manager : FleeceStateManager) (operations : List Operation) (key : UInt32)
    (old latest : FieldEntry) : Prop :=
  ∃ first operation rest held fresh, operations = first ++ operation :: rest ∧
    operation.isStoring = true ∧
    (manager.after first).lookup key sharedOwnerId = some held ∧ held.record = old.record ∧
    (manager.after (first ++ [operation])).lookup key sharedOwnerId = some fresh ∧
    old.version < fresh.version ∧ fresh.version ≤ latest.version

theorem Replaced.cons {manager : FleeceStateManager} {operations : List Operation} {key : UInt32}
    {old between latest : FieldEntry} {operation : Operation} (same : between.record = old.record)
    (replaced : Replaced (operation.next manager) operations key between latest) :
    Replaced manager (operation :: operations) key old latest := by
  obtain ⟨first, changing, rest, held, fresh, split, storing, before, heldEq, now, up, top⟩ :=
    replaced
  refine ⟨operation :: first, changing, rest, held, fresh, ?_, storing, before,
    heldEq.trans same, now, ?_, top⟩
  · rw [split, List.cons_append]
  · rwa [FieldEntry.version, ← same]

/-- From a state with a shared slot on, the slot keeps its record until it is replaced by a
greater version. -/
theorem Invariant.shared_slot {manager : FleeceStateManager} (invariant : manager.Invariant)
    {operations : List Operation} (noWrap : Along Operation.next NoWrap manager operations)
    {key : UInt32} {f : FieldEntry} (found : manager.lookup key sharedOwnerId = some f) :
    ∃ g, (manager.after operations).lookup key sharedOwnerId = some g ∧
      (g.record = f.record ∨ Replaced manager operations key f g) := by
  induction operations generalizing manager f with
  | nil => exact ⟨f, found, Or.inl rfl⟩
  | cons operation rest inductionHypothesis =>
    obtain ⟨unwrapped, noWrapRest⟩ := noWrap
    obtain ⟨next, climbs⟩ := invariant.keeps unwrapped
    obtain ⟨h, now, move⟩ := climbs.2 key sharedOwnerId f invariant.store.realNode.symm found
    rcases move with same | up
    · obtain ⟨g, last, fate⟩ := inductionHypothesis next noWrapRest now
      have sameRecord := record_of_unmarked same
      exact ⟨g, last, fate.imp (fun kept => kept.trans sameRecord) (Replaced.cons sameRecord)⟩
    · have storing : operation.isStoring = true := by
        by_contra quiet
        obtain ⟨g, held, same⟩ := lookup_of_not_storing invariant.store
          (Bool.eq_false_of_not_eq_true quiet) invariant.store.realNode.symm found
        rw [now] at held
        rw [Option.some.inj held, FieldEntry.version, FieldEntry.version, same] at up
        exact lt_irrefl _ up
      have later := (next.climbs noWrapRest).2 key sharedOwnerId h next.store.realNode.symm now
      obtain ⟨g, last, lastMove⟩ := later
      refine ⟨g, last, Or.inr ⟨[], operation, rest, f, h, rfl, storing, found, rfl, now, up, ?_⟩⟩
      exact lastMove.elim (fun same => (version_of_unmarked same).ge) le_of_lt

/-- A shared slot is never lost and never falls back: after any further operations it is there,
under a version that is not lower, and it holds the same record (a tombstone the same tombstone)
unless a write or a merge has put a strictly greater version in its place. -/
theorem shared_slot_durable {nodeId : UInt64} {manager : FleeceStateManager}
    (created : createWithNodeId nodeId = some manager) (before later : List Operation)
    (noWrap : Along Operation.next NoWrap manager (before ++ later)) {key : UInt32}
    {f : FieldEntry} (found : (manager.after before).lookup key sharedOwnerId = some f) :
    ∃ g, (manager.after (before ++ later)).lookup key sharedOwnerId = some g ∧
      f.version ≤ g.version ∧
      (g.record = f.record ∨ Replaced (manager.after before) later key f g) := by
  obtain ⟨noWrapBefore, noWrapLater⟩ := along_append.mp noWrap
  have reached := (invariant_create created).after noWrapBefore
  obtain ⟨g, last, fate⟩ := reached.shared_slot noWrapLater found
  refine ⟨g, ?_, ?_, fate⟩
  · rwa [after_append]
  · rcases fate with same | ⟨_, _, _, _, _, _, _, _, _, _, up, top⟩
    · rw [FieldEntry.version, FieldEntry.version, same]
    · exact up.le.trans top

/-- A deleted field stays deleted through a compaction and the replay of its older value. -/
theorem shared_slot_durable_replay :
    let goal : CString := ⟨[0x67], by decide⟩
    let value : Blob := ⟨[1], by decide⟩
    let before := [Operation.write (.setShared goal value), .write (.removeShared goal)]
    let later := [Operation.compact, .mergeShared 7 goal value 1 false]
    ∃ f g, ((blank 7).after before).lookup (hashName goal) sharedOwnerId = some f ∧
      f.isTombstone = true ∧
      ((blank 7).after (before ++ later)).lookup (hashName goal) sharedOwnerId = some g ∧
      f.version ≤ g.version ∧
      (g.record = f.record ∨ Replaced ((blank 7).after before) later (hashName goal) f g) := by
  intro goal value before later
  have deleted : ((((blank 7).after before).lookup (hashName goal) sharedOwnerId).map
      FieldEntry.isTombstone) = some true := by decide +kernel
  obtain ⟨f, found, dead⟩ := Option.map_eq_some_iff.mp deleted
  obtain ⟨g, last, durable⟩ := shared_slot_durable
    (show createWithNodeId 7 = some (blank 7) from rfl) before later (by decide +kernel) found
  exact ⟨f, g, found, dead, last, durable⟩

/-! ### A local write comes out on top -/

/-- A local write that succeeds stores its record under its pair, stamped with the next clock
value. -/
theorem write_stamps {manager : FleeceStateManager} (distinct : manager.DistinctSlots)
    {change : LocalWrite} (success : (change.exec manager).2 = 0) :
    ∃ f, (change.exec manager).1.lookup (change.target manager.nodeId).1
        (change.target manager.nodeId).2 = some f ∧
      f.timestamp = manager.localTimestamp + 1 := by
  have outcome := exec_outcome manager change
  generalize asked : change.request manager.nodeId manager.localTimestamp manager.view = request
    at outcome
  generalize change.exec manager = result at outcome success
  cases outcome with
  | refused code denied =>
    rcases LocalWrite.code_of_refused (asked.trans denied) with failed | failed
    · exact absurd (failed.symm.trans success) (by decide)
    · exact absurd (failed.symm.trans success) (by decide)
  | noSlot next pair record accepted absent full fields count node peers tick clock =>
    cases success
  | wrote next f accepted stored node peers tick clock =>
    refine ⟨f, ?_, (LocalWrite.stamped_of_request (asked.trans accepted)).stamp⟩
    rw [← LocalWrite.target_of_request (asked.trans accepted)]
    exact stored.lookup_self distinct

/-- In every state of a run that never wraps the clock, the clock is at or above every stored
timestamp, and every local write that succeeded on the way was stamped above every timestamp
stored before it, above zero, and above every earlier clock value; so it is exported since any
watermark an earlier clock value bounds. -/
theorem local_write_dominates {nodeId : UInt64} {manager : FleeceStateManager}
    (created : createWithNodeId nodeId = some manager) (operations : List Operation)
    (noWrap : Along Operation.next NoWrap manager operations) :
    (∀ i, ((manager.after operations).fields i).slotExists = true →
      ((manager.after operations).fields i).timestamp ≤
        (manager.after operations).localTimestamp) ∧
    ∀ before change rest, operations = before ++ .write change :: rest →
      (change.exec (manager.after before)).2 = 0 →
      ∃ f, (manager.after (before ++ [.write change])).lookup (change.target nodeId).1
          (change.target nodeId).2 = some f ∧
        0 < f.timestamp ∧
        (∀ i, ((manager.after before).fields i).slotExists = true →
          ((manager.after before).fields i).timestamp < f.timestamp) ∧
        ∀ earlier between, before = earlier ++ between →
          ∀ watermark ≤ (manager.after earlier).localTimestamp,
            watermark < f.timestamp ∧
              (f.isNamed = true → isExported (change.target nodeId).2 watermark f = true) := by
  have start := invariant_create created
  refine ⟨(start.after noWrap).clock.stamps, ?_⟩
  rintro before change rest rfl success
  obtain ⟨noWrapBefore, unwrapped, _⟩ := along_append.mp noWrap
  have reached := start.after noWrapBefore
  have up : (manager.after before).localTimestamp < (manager.after before).localTimestamp + 1 :=
    lt_add_one_of_ne_max (unwrapped rfl)
  obtain ⟨f, found, stamp⟩ := write_stamps reached.store.distinct success
  rw [node_after created before] at found
  have above {bound : UInt64} (below : bound ≤ (manager.after before).localTimestamp) :
      bound < f.timestamp := by
    rw [stamp]
    exact UInt64.lt_of_le_of_lt below up
  refine ⟨f, ?_, above UInt64.zero_le, fun i present => above (reached.clock.stamps i present), ?_⟩
  · rw [after_append]
    exact found
  · rintro earlier between rfl watermark bounded
    have later : watermark < f.timestamp := by
      refine above (UInt64.le_trans bounded ?_)
      obtain ⟨noWrapEarlier, noWrapBetween⟩ := along_append.mp noWrapBefore
      rw [after_append]
      exact (start.after noWrapEarlier).clock_le noWrapBetween
    refine ⟨later, fun named => ?_⟩
    obtain ⟨i, held, present, _, owner⟩ := exists_of_lookup found
    rw [isExported, present, owner, named, beq_self_eq_true, Bool.and_self, Bool.and_self,
      Bool.true_and, Bool.not_eq_true', decide_eq_false_iff_not]
    exact UInt64.not_le.mpr later

/-- A write after an import outranks what was imported. -/
theorem local_write_dominates_after_merge :
    let goal : CString := ⟨[0x67], by decide⟩
    let value : Blob := ⟨[1], by decide⟩
    let before := [Operation.mergeShared 9 goal value 41 false]
    let change := LocalWrite.setShared goal value
    ∃ f, ((blank 7).after (before ++ [.write change])).lookup (change.target 7).1
        (change.target 7).2 = some f ∧
      0 < f.timestamp ∧ ∀ i, (((blank 7).after before).fields i).slotExists = true →
        (((blank 7).after before).fields i).timestamp < f.timestamp := by
  intro goal value before change
  obtain ⟨_, writes⟩ := local_write_dominates
    (show createWithNodeId 7 = some (blank 7) from rfl) (before ++ [.write change])
    (by decide +kernel)
  obtain ⟨f, found, positive, above, _⟩ := writes before change [] rfl (by decide +kernel)
  exact ⟨f, found, positive, above⟩

/-- A gossip frame of node 2 with one live record, stamped `2^64 - 1`. -/
def lastStampFrame : Blob where
  bytes := [0x46, 0x47, 5, 0x85, 2, 0, 0, 0, 0x81, 0x85, 2, 0xf4, 0x61, 0x61, 0x1b, 0xff, 0xff, 0xff,
    0xff, 0xff, 0xff, 0xff, 0xff, 0x41, 1]
  sizeLt := by decide

/-- The import accepts the frame, and the local write after it succeeds with timestamp zero,
below the clock's own record. -/
theorem local_write_wraps :
    let other : CString := ⟨[0x62], by decide⟩
    let change := LocalWrite.setShared other ⟨[1], by decide⟩
    let imported := (blank 1).after [.importFrom lastStampFrame]
    let written := (blank 1).after [.importFrom lastStampFrame, .write change]
    importCode ((blank 1).importFrom lastStampFrame).code = 0 ∧ (change.exec imported).2 = 0 ∧
      written.localTimestamp = 0 ∧
      (written.lookup (change.target 1).1 (change.target 1).2).map FieldEntry.timestamp = some 0 ∧
      (written.fields 0).slotExists = true ∧
      written.localTimestamp < (written.fields 0).timestamp := by
  decide +kernel

end FleeceStateManager

end Fleece
