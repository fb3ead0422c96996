/-
This file is about calls that fail and still leave something behind. A setter moves
the clock, and `set_shared` notes the write, before it looks for a slot; when there
is none, the call returns -1 and the clock has moved. Every other failed write
leaves the manager as it was. A frame that is refused in the middle keeps the
records that were read before the damage.
-/

import Fleece.Wire
import Fleece.History

namespace Fleece

namespace FleeceStateManager

/-! ### Failed local writes -/

/-- There is no slot of the pair, and none to take. -/
def LacksSlot (manager : FleeceStateManager) (key : UInt32) (ownerNodeId : UInt64) : Prop :=
  manager.findSlotOwned key ownerNodeId = none ∧ fieldCapacity ≤ manager.fieldCount

end FleeceStateManager

/-- The write passes the checks of its arguments and finds no slot to store its value in. -/
def LocalWrite.LacksSlot (manager : FleeceStateManager) : LocalWrite → Prop
  | .set key data => data.size ≠ 0 ∧ manager.LacksSlot key manager.nodeId
  | .remove _ => False
  | .setNamed name data =>
    name.chars ≠ [] ∧ data.size ≠ 0 ∧ manager.LacksSlot (hashName name) manager.nodeId
  | .removeNamed _ => False
  | .setShared name data =>
    name.chars ≠ [] ∧ data.size ≠ 0 ∧ manager.LacksSlot (hashName name) sharedOwnerId
  | .removeShared _ => False
  | .setSharedCas name expected data =>
    name.chars ≠ [] ∧ data.size ≠ 0 ∧ expected = none ∧
      manager.LacksSlot (hashName name) sharedOwnerId

namespace FleeceStateManager

/-- A call that fails leaves the manager as it was. -/
def Atomic (manager : FleeceStateManager) (result : FleeceStateManager × Int) : Prop :=
  result.2 ≠ 0 → result.1 = manager

theorem atomic_refused (manager : FleeceStateManager) (code : Int) :
    manager.Atomic (manager, code) := fun _ => rfl

theorem atomic_failure {manager next : FleeceStateManager} {code : Int} (failed : code ≠ 0) :
    manager.Atomic (next, code) ↔ next = manager :=
  ⟨fun atomic => atomic failed, fun same _ => same⟩

theorem atomic_success (manager next : FleeceStateManager) : manager.Atomic (next, 0) :=
  fun failed => absurd rfl failed

theorem advanced_ne {manager base : FleeceStateManager}
    (clock : base.localTimestamp = manager.localTimestamp + 1) : base ≠ manager := by
  rintro rfl
  grind

/-- A write through `upsert_field`, from a manager whose clock has moved. -/
theorem upsertField_atomic_iff {manager base : FleeceStateManager} {key : UInt32}
    {owner origin : UInt64} {name : Option CString} {data : Blob} {timestamp : UInt64}
    (fields : base.fields = manager.fields) (count : base.fieldCount = manager.fieldCount)
    (clock : base.localTimestamp = manager.localTimestamp + 1) :
    manager.Atomic (base.upsertField key owner origin name data timestamp false) ↔
      ¬ manager.LacksSlot key owner := by
  have found : base.findSlotOwned key owner = manager.findSlotOwned key owner := by
    unfold findSlotOwned
    rw [fields]
  rcases upsertField_cases base key owner origin name data timestamp false with
    ⟨result, absent, full⟩ | ⟨f, next, result, storedAt, _, keyEq, ownerEq, _⟩
  · rw [result]
    rw [atomic_failure (by decide)]
    refine iff_of_false (advanced_ne clock) ?_
    exact not_not.mpr ⟨found.symm.trans absent, count ▸ full⟩
  · rw [result]
    refine iff_of_true (atomic_success manager next) ?_
    rintro ⟨absent, full⟩
    rw [← found, ← keyEq, ← ownerEq] at absent
    cases storedAt with
    | inPlace i present => exact Option.some_ne_none i (present.symm.trans absent)
    | appended _ room => exact absurd (count ▸ full) (not_le.mpr room)

theorem accepted_iff {name : CString} {data : Blob} :
    ¬ (name.chars.isEmpty || data.size == 0) = true ↔ name.chars ≠ [] ∧ data.size ≠ 0 := by
  rw [Bool.or_eq_true, not_or, List.isEmpty_iff, beq_iff_eq]

/-- A setter of a named field: it is refused for its arguments, or goes through `upsert_field`. -/
theorem setter_atomic_iff {manager base : FleeceStateManager} {owner : UInt64} {name : CString}
    {data : Blob} {timestamp : UInt64} (fields : base.fields = manager.fields)
    (count : base.fieldCount = manager.fieldCount)
    (clock : base.localTimestamp = manager.localTimestamp + 1) :
    manager.Atomic (if name.chars.isEmpty || data.size == 0 then (manager, -1)
        else base.upsertField (hashName name) owner manager.nodeId (some name) data timestamp
          false) ↔
      ¬ (name.chars ≠ [] ∧ data.size ≠ 0 ∧ manager.LacksSlot (hashName name) owner) := by
  rw [← and_assoc, ← accepted_iff]
  split_ifs with refused
  · exact iff_of_true (atomic_refused manager (-1)) fun lacking => lacking.1 refused
  · rw [and_iff_right refused]
    exact upsertField_atomic_iff fields count clock

theorem entomb_atomic (manager : FleeceStateManager) (found : Option (Fin fieldCapacity)) :
    manager.Atomic (manager.entomb found) := by
  cases found with
  | none => exact atomic_refused manager (-1)
  | some i => exact atomic_success manager _

theorem remove_atomic (manager : FleeceStateManager) (key : UInt32) :
    manager.Atomic (manager.remove key) := entomb_atomic manager _

theorem removeNamed_atomic (manager : FleeceStateManager) (name : CString) :
    manager.Atomic (manager.removeNamed name) := entomb_atomic manager _

theorem removeShared_atomic (manager : FleeceStateManager) (name : CString) :
    manager.Atomic (manager.removeShared name) := by
  unfold removeShared
  split
  · exact atomic_refused manager (-1)
  · exact atomic_success manager _

theorem casMatches_of_absent {manager : FleeceStateManager} {name : CString}
    {expected : Option Blob}
    (absent : manager.findSlotOwned (hashName name) sharedOwnerId = none) :
    manager.casMatches name expected = true ↔ expected = none := by
  have notFound : manager.findFieldOwned (hashName name) sharedOwnerId = none := by
    rw [findFieldOwned, absent, Option.filter_none]
  rw [casMatches_iff, findFieldOwned_eq_none_iff.mp notFound, Option.map_none]
  exact eq_comm

theorem setSharedCas_atomic_iff (manager : FleeceStateManager) (name : CString)
    (expected : Option Blob) (data : Blob) :
    manager.Atomic (manager.setSharedCas name expected data) ↔
      ¬ (name.chars ≠ [] ∧ data.size ≠ 0 ∧ expected = none ∧
        manager.LacksSlot (hashName name) sharedOwnerId) := by
  unfold setSharedCas
  by_cases refused : (name.chars.isEmpty || data.size == 0) = true
  · rw [if_pos refused]
    exact iff_of_true (atomic_refused manager (-1))
      fun lacking => accepted_iff.mpr ⟨lacking.1, lacking.2.1⟩ refused
  · obtain ⟨named, filled⟩ := accepted_iff.mp refused
    rw [if_neg refused, and_iff_right named, and_iff_right filled]
    by_cases same : manager.casMatches name expected = true
    · have stored : manager.Atomic (manager.advanceClock.upsertField (hashName name)
          sharedOwnerId manager.nodeId (some name) data (manager.localTimestamp + 1) false) ↔
          ¬ manager.LacksSlot (hashName name) sharedOwnerId :=
        upsertField_atomic_iff rfl rfl rfl
      rw [if_pos same]
      have lacks : (expected = none ∧ manager.LacksSlot (hashName name) sharedOwnerId) ↔
          manager.LacksSlot (hashName name) sharedOwnerId :=
        and_iff_right_of_imp fun lacking => (casMatches_of_absent lacking.1).mp same
      rw [lacks, ← stored]
      generalize manager.advanceClock.upsertField (hashName name) sharedOwnerId manager.nodeId
        (some name) data (manager.localTimestamp + 1) false = result
      obtain ⟨next, code⟩ := result
      simp only
      split_ifs with failed
      · rw [atomic_failure failed, atomic_failure (by decide)]
      · exact iff_of_true (atomic_success manager _) fun wrong => absurd wrong failed
    · rw [if_neg same]
      refine iff_of_true (atomic_refused manager 1) ?_
      rintro ⟨none, absent, _⟩
      exact same ((casMatches_of_absent absent).mpr none)

theorem set_atomic_iff (manager : FleeceStateManager) (key : UInt32) (data : Blob) :
    manager.Atomic (manager.set key data) ↔
      ¬ (data.size ≠ 0 ∧ manager.LacksSlot key manager.nodeId) := by
  unfold set
  split_ifs with empty
  · exact iff_of_true (atomic_refused manager (-1)) fun lacking => lacking.1 empty
  · rw [and_iff_right empty]
    exact upsertField_atomic_iff rfl rfl rfl

/-- A local write that fails leaves the manager as it was, unless it fails for want of a slot. -/
theorem exec_atomic_iff (manager : FleeceStateManager) (change : LocalWrite) :
    manager.Atomic (change.exec manager) ↔ ¬ change.LacksSlot manager := by
  cases change with
  | set key data => exact set_atomic_iff manager key data
  | remove key => exact iff_of_true (remove_atomic manager key) id
  | setNamed name data => exact setter_atomic_iff rfl rfl rfl
  | removeNamed name => exact iff_of_true (removeNamed_atomic manager name) id
  | setShared name data => exact setter_atomic_iff rfl rfl rfl
  | removeShared name => exact iff_of_true (removeShared_atomic manager name) id
  | setSharedCas name expected data => exact setSharedCas_atomic_iff manager name expected data

/-- In any state, a local write that fails leaves the manager as it was if and only if it does not
fail for want of a slot; and any number of such failures leave it as it was. -/
theorem failed_write_atomic_iff (manager : FleeceStateManager) :
    (∀ change : LocalWrite,
      ((change.exec manager).2 ≠ 0 → (change.exec manager).1 = manager) ↔
        ¬ change.LacksSlot manager) ∧
      ∀ changes : List LocalWrite,
        Along (fun state change => (change.exec state).1)
          (fun state change => (change.exec state).2 ≠ 0 ∧ ¬ change.LacksSlot state)
          manager changes →
        runFrom (fun state change => (change.exec state).1) manager changes = manager := by
  refine ⟨exec_atomic_iff manager, fun changes along => ?_⟩
  refine @Along.invariant _ _ _ _ (fun state => state = manager) _ _ along ?_ rfl
  rintro state change rfl ⟨failed, slot⟩
  exact (exec_atomic_iff state change).mpr slot failed

/-- A field of the local node for each of the keys below a bound. -/
def fill (count : Nat) : List Operation :=
  (List.range count).map fun i => .write (.set (UInt32.ofNat i) ⟨[1], by decide⟩)

/-- The first slots of a store hold one field of node 7 each, and the others none. -/
structure Filled (manager : FleeceStateManager) (count : Nat) : Prop where
  node : manager.nodeId = 7
  fieldCount : manager.fieldCount = count
  clock : manager.localTimestamp = UInt64.ofNat count
  quiet : manager.lastWriteTick = 0xFFFFFFFFFFFFFFFF
  tick : manager.currentTick = 0
  held : ∀ i : Fin fieldCapacity, (manager.fields i).slotExists = decide (i.val < count) ∧
    (i.val < count → (manager.fields i).key = UInt32.ofNat i ∧ (manager.fields i).nodeId = 7)

theorem findSlotOwned_eq_none {manager : FleeceStateManager} {key : UInt32} {owner : UInt64}
    (absent : ∀ i, (manager.fields i).slotExists = true →
      ¬ ((manager.fields i).key = key ∧ (manager.fields i).nodeId = owner)) :
    manager.findSlotOwned key owner = none := by
  cases found : manager.findSlotOwned key owner with
  | none => rfl
  | some i =>
    obtain ⟨present, label⟩ := label_of_findSlotOwned found
    exact absurd label (absent i present)

theorem Filled.next {manager : FleeceStateManager} {count : Nat} (filled : Filled manager count)
    (room : count < fieldCapacity) :
    Filled (manager.set (UInt32.ofNat count) ⟨[1], by decide⟩).1 (count + 1) := by
  obtain ⟨node, fieldCount, clock, quiet, tick, held⟩ := filled
  have absent : manager.advanceClock.findSlotOwned (UInt32.ofNat count) manager.nodeId = none := by
    refine findSlotOwned_eq_none fun i present label => ?_
    have inside : i.val < count := by
      rw [show (manager.advanceClock.fields i).slotExists = _ from (held i).1] at present
      exact of_decide_eq_true present
    have same := ((held i).2 inside).1.symm.trans label.1
    have values := congrArg UInt32.toNat same
    have small : fieldCapacity < 2 ^ 32 := by decide
    rw [UInt32.toNat_ofNat', UInt32.toNat_ofNat', Nat.mod_eq_of_lt (by omega),
      Nat.mod_eq_of_lt (by omega)] at values
    omega
  have inCount : manager.advanceClock.fieldCount < fieldCapacity := by
    show manager.fieldCount < fieldCapacity
    rwa [fieldCount]
  unfold set upsertField
  rw [if_neg (by decide), absent]
  simp only
  rw [dif_pos inCount]
  refine ⟨node, congrArg (· + 1) fieldCount, ?_, quiet, tick, fun i => ?_⟩
  · show manager.localTimestamp + 1 = _
    rw [clock]
    exact (UInt64.ofNat_add count 1).symm
  · show (Function.update manager.fields ⟨manager.fieldCount, inCount⟩ _ i).slotExists = _ ∧
      (_ → (Function.update manager.fields ⟨manager.fieldCount, inCount⟩ _ i).key = _ ∧
        (Function.update manager.fields ⟨manager.fieldCount, inCount⟩ _ i).nodeId = 7)
    rcases eq_or_ne i ⟨manager.fieldCount, inCount⟩ with rfl | other
    · rw [Function.update_self]
      refine ⟨(decide_eq_true ?_).symm, fun _ => ⟨?_, node⟩⟩
      · show manager.fieldCount < count + 1
        omega
      · show UInt32.ofNat count = UInt32.ofNat manager.fieldCount
        rw [fieldCount]
    · have notHere : i.val ≠ count := fun same => other (Fin.ext (same.trans fieldCount.symm))
      rw [Function.update_of_ne other]
      refine ⟨(held i).1.trans (decide_eq_decide.mpr (by omega)), fun inside => ?_⟩
      exact (held i).2 (by omega)

theorem after_set (manager : FleeceStateManager) (key : UInt32) (data : Blob) :
    manager.after [.write (.set key data)] = (manager.set key data).1 := rfl

theorem filled_fill {count : Nat} (room : count ≤ fieldCapacity) :
    Filled ((blank 7).after (fill count)) count := by
  induction count with
  | zero => exact ⟨rfl, rfl, rfl, rfl, rfl, fun i => ⟨rfl, fun inside => absurd inside (by omega)⟩⟩
  | succ count inductionHypothesis =>
    have split : (blank 7).after (fill (count + 1)) = (((blank 7).after (fill count)).set
        (UInt32.ofNat count) ⟨[1], by decide⟩).1 := by
      unfold fill
      rw [List.range_succ, List.map_append, after_append, List.map_singleton, after_set]
    rw [split]
    exact (inductionHypothesis (by omega)).next (by omega)

theorem setShared_of_filled {manager : FleeceStateManager} (filled : Filled manager 128)
    {name : CString} {data : Blob} (accepted : name.chars ≠ [] ∧ data.size ≠ 0) :
    manager.setShared name data = (manager.noteWrite.advanceClock, -1) := by
  have absent : manager.noteWrite.advanceClock.findSlotOwned (hashName name) sharedOwnerId =
      none := by
    refine findSlotOwned_eq_none fun i _ label => ?_
    have owner := ((filled.held i).2 i.isLt).2.symm.trans label.2
    exact absurd owner (by decide)
  have full : ¬ manager.noteWrite.advanceClock.fieldCount < fieldCapacity := by
    show ¬ manager.fieldCount < fieldCapacity
    rw [filled.fieldCount]
    exact lt_irrefl _
  unfold setShared upsertField
  rw [if_neg (accepted_iff.mpr accepted), absent]
  simp only
  rw [dif_neg full]

/-- In a full store a write of a new shared field fails; the clock has moved, and the write is
noted. -/
theorem failed_write_moves_clock :
    let manager := (blank 7).after (fill 128)
    let result := manager.setShared ⟨[0x67], by decide⟩ ⟨[1], by decide⟩
    result.2 = -1 ∧ manager.localTimestamp = 128 ∧ result.1.localTimestamp = 129 ∧
      manager.lastWriteTick = 0xFFFFFFFFFFFFFFFF ∧ result.1.lastWriteTick = 0 ∧
      result.1 ≠ manager := by
  have moves (manager : FleeceStateManager) (filled : Filled manager 128) :
      let result := manager.setShared ⟨[0x67], by decide⟩ ⟨[1], by decide⟩
      result.2 = -1 ∧ manager.localTimestamp = 128 ∧ result.1.localTimestamp = 129 ∧
        manager.lastWriteTick = 0xFFFFFFFFFFFFFFFF ∧ result.1.lastWriteTick = 0 ∧
        result.1 ≠ manager := by
    rw [setShared_of_filled filled (by decide)]
    refine ⟨rfl, filled.clock, ?_, filled.quiet, filled.tick, advanced_ne rfl⟩
    show manager.localTimestamp + 1 = 129
    rw [filled.clock]
    rfl
  exact moves _ (filled_fill le_rfl)

/-! ### Refused frames -/

/-- The rule of the two merges: a shared record needs the greater version, another a later
timestamp. -/
def Beats (ownerNodeId : UInt64) (record old : GossipRecord) : Prop :=
  if ownerNodeId = sharedOwnerId then record.Outranks old else old.timestamp < record.timestamp

/-- The merge of a record comes to nothing: the record has no name or no data, or its timestamp is
not past the clock and the field it is for is newer, or lacks a slot. -/
def Ignores (manager : FleeceStateManager) (ownerNodeId : UInt64) (record : GossipRecord) : Prop :=
  mergeable record.name.toCString record.data record.isTombstone = false ∨
    record.timestamp ≤ manager.localTimestamp ∧
      (manager.view (hashName record.name.toCString, ownerNodeId) = none →
        fieldCapacity ≤ manager.fieldCount) ∧
      ∀ old, manager.view (hashName record.name.toCString, ownerNodeId) = some old →
        ¬ Beats ownerNodeId record old

/-- The part of a manager that merges read and write, the peer table apart. -/
structure SameStore (manager next : FleeceStateManager) : Prop where
  fields : next.fields = manager.fields
  fieldCount : next.fieldCount = manager.fieldCount
  clock : next.localTimestamp = manager.localTimestamp
  node : next.nodeId = manager.nodeId

theorem SameStore.ignores_iff {manager next : FleeceStateManager} (same : SameStore manager next)
    (owner : UInt64) (record : GossipRecord) :
    next.Ignores owner record ↔ manager.Ignores owner record := by
  unfold Ignores
  rw [view_of_same same.fields, same.clock, same.fieldCount]

theorem sameStore_touchPeer (manager : FleeceStateManager) (node : UInt64) :
    SameStore manager (manager.touchPeer node) := by
  rw [touchPeer_rest]
  exact ⟨rfl, rfl, rfl, rfl⟩

/-- A record that passes the checks goes through `upsert_field` under the rule of its stream, after
the clock has been raised to its timestamp. -/
theorem mergeRecord_outcome {manager : FleeceStateManager} {owner : UInt64} {record : GossipRecord}
    (foreign : owner ≠ manager.nodeId)
    (accepted : mergeable record.name.toCString record.data record.isTombstone = true) :
    ∃ base stored code, SameStore manager base ∧ stored.timestamp = record.timestamp ∧
      (∀ old, Beats owner record old → old.version < stored.version) ∧
      MergeOutcome (base.raiseClock record.timestamp) (hashName record.name.toCString, owner)
        stored (Beats owner record) (manager.mergeRecord owner record, code) := by
  by_cases shared : owner = sharedOwnerId
  · have rule : Beats owner record = GossipRecord.Outranks (.upserted record.originNodeId
        (.copy record.name.toCString) record.data record.timestamp record.isTombstone) := by
      funext old
      rw [Beats, if_pos shared]
      rfl
    have merged : manager.mergeRecord owner record = (manager.mergeShared record.originNodeId
        record.name.toCString record.data record.timestamp record.isTombstone).1 := by
      rw [mergeRecord, if_pos shared]
    have outcome := mergeShared_outcome manager record.originNodeId record.name.toCString
      record.data record.timestamp record.isTombstone accepted
    rw [merged, rule, shared]
    exact ⟨manager, .upserted record.originNodeId (.copy record.name.toCString) record.data
      record.timestamp record.isTombstone, _, ⟨rfl, rfl, rfl, rfl⟩, rfl,
      fun _ => outranks_iff.mp, outcome⟩
  · have rule : Beats owner record = fun old => old.timestamp < record.timestamp := by
      funext old
      rw [Beats, if_neg shared]
    have merged : manager.mergeRecord owner record = (manager.mergeNamed owner
        record.name.toCString record.data record.timestamp record.isTombstone).1 := by
      rw [mergeRecord, if_neg shared]
    have outcome := mergeNamed_outcome manager owner record.name.toCString record.data
      record.timestamp record.isTombstone accepted foreign
    rw [merged, rule]
    exact ⟨manager.touchPeer owner, .upserted owner (.copy record.name.toCString) record.data
      record.timestamp record.isTombstone, _, sameStore_touchPeer manager owner, rfl,
      fun _ later => outranks_iff.mp (Or.inl later), outcome⟩

theorem mergeRecord_of_refused {manager : FleeceStateManager} {owner : UInt64}
    {record : GossipRecord}
    (refused : mergeable record.name.toCString record.data record.isTombstone = false) :
    manager.mergeRecord owner record = manager := by
  unfold mergeRecord mergeShared mergeNamed
  rw [refused, Bool.not_false, if_pos rfl, if_pos rfl]
  exact ite_self manager

theorem Stored.hasSlot {manager next : FleeceStateManager} {f : FieldEntry}
    (stored : Stored manager next f) :
    manager.findSlotOwned f.key f.nodeId ≠ none ∨ manager.fieldCount < fieldCapacity := by
  cases stored with
  | inPlace i found => exact Or.inl fun absent => Option.some_ne_none i (found.symm.trans absent)
  | appended _ room => exact Or.inr room

/-- An ignored record leaves the store as it was. -/
theorem mergeRecord_of_ignores {manager : FleeceStateManager} {owner : UInt64}
    {record : GossipRecord} (foreign : owner ≠ manager.nodeId)
    (ignored : manager.Ignores owner record) :
    SameStore manager (manager.mergeRecord owner record) := by
  rcases ignored with refused | ⟨past, noRoom, beaten⟩
  · rw [mergeRecord_of_refused refused]
    exact ⟨rfl, rfl, rfl, rfl⟩
  · by_cases accepted : mergeable record.name.toCString record.data record.isTombstone = true
    · obtain ⟨base, stored, code, same, _, _, outcome⟩ := mergeRecord_outcome foreign accepted
      rw [raiseClock_of_le (same.clock ▸ past)] at outcome
      rw [← view_of_same same.fields] at noRoom beaten
      rw [← same.fieldCount] at noRoom
      generalize manager.mergeRecord owner record = next at outcome
      cases outcome with
      | kept old found loses => exact same
      | noSlot absent full => exact same
      | stored next f storedAt rest label held newer =>
        cases found : base.view (hashName record.name.toCString, owner) with
        | none =>
          have full := noRoom found
          rw [← label] at found
          rcases storedAt.hasSlot with present | room
          · exact absurd (view_eq_none_iff.mp found) present
          · exact absurd full (not_le.mpr room)
        | some old => exact absurd (newer old found) (beaten old found)
    · rw [mergeRecord_of_refused (Bool.eq_false_of_not_eq_true accepted)]
      exact ⟨rfl, rfl, rfl, rfl⟩

/-- A record that is not ignored shows in every later store: the clock has moved, or the record
of its pair is another. -/
theorem changed_of_not_ignores {manager last : FleeceStateManager} (store : manager.StoreInvariant)
    {owner : UInt64} {record : GossipRecord} (foreign : owner ≠ manager.nodeId)
    (effective : ¬ manager.Ignores owner record)
    (climbs : Climbs (manager.mergeRecord owner record) last)
    (clock : (manager.mergeRecord owner record).localTimestamp ≤ last.localTimestamp) :
    last.localTimestamp ≠ manager.localTimestamp ∨ last.view ≠ manager.view := by
  have accepted : mergeable record.name.toCString record.data record.isTombstone = true := by
    by_contra refused
    exact effective (Or.inl (Bool.eq_false_of_not_eq_true refused))
  have steps := mergeRecord_steps store.realNode owner record
  have storeNext := (mergeSteps_keep steps store).1
  have nodeNext := nodeId_of_steps steps
  obtain ⟨base, stored, code, same, _, stronger, outcome⟩ := mergeRecord_outcome foreign accepted
  have view : base.view = manager.view := view_of_same same.fields
  generalize manager.mergeRecord owner record = next at climbs clock outcome storeNext nodeNext
  have raised : next.localTimestamp = (base.raiseClock record.timestamp).localTimestamp := by
    cases outcome with
    | kept old found loses => rfl
    | noSlot absent full => rfl
    | stored next f storedAt rest label held newer => rw [rest]
  by_cases past : record.timestamp ≤ manager.localTimestamp
  · rw [raiseClock_of_le (same.clock ▸ past)] at outcome
    cases outcome with
    | kept old found loses =>
      rw [view] at found
      refine absurd (Or.inr ⟨past, fun absent => ?_, fun other held => ?_⟩) effective
      · exact absurd (found.symm.trans absent) (Option.some_ne_none old)
      · rwa [← Option.some.inj (found.symm.trans held)]
    | noSlot absent full =>
      rw [view] at absent
      rw [same.fieldCount] at full
      refine absurd (Or.inr ⟨past, fun _ => full, fun other held => ?_⟩) effective
      exact absurd (held.symm.trans absent) (Option.some_ne_none other)
    | stored next f storedAt rest label held newer =>
      -- the version it stored is above the one before, and versions only rise after it
      refine Or.inr fun unchanged => ?_
      have here := storedAt.lookup_self (by
        unfold DistinctSlots
        rw [same.fields]
        exact store.distinct)
      obtain ⟨keyEq, ownerEq⟩ := Prod.mk.inj label
      obtain ⟨g, found, move⟩ := climbs.2 f.key f.nodeId f (by
        rw [ownerEq, nodeNext]
        exact foreign) here
      have before : base.view (hashName record.name.toCString, owner) = some g.record := by
        rw [view, ← unchanged, ← label, FleeceStateManager.view, found, Option.map_some]
      have below : g.version < f.version := by
        have rise := stronger g.record (newer g.record before)
        rw [← held] at rise
        exact rise
      rcases move with equal | above
      · exact absurd (version_of_unmarked equal) (ne_of_lt below)
      · exact lt_asymm below above
  · have later : manager.localTimestamp < record.timestamp := UInt64.not_le.mp past
    have above := (le_raiseClock base record.timestamp).2
    rw [← raised] at above
    have moved := UInt64.lt_of_lt_of_le later (UInt64.le_trans above clock)
    exact Or.inl (UInt64.ne_of_lt moved).symm

theorem mergeRecords_steps {manager : FleeceStateManager}
    (realNode : manager.nodeId ≠ sharedOwnerId) (owner : UInt64) (records : List GossipRecord) :
    Relation.ReflTransGen MergeStep manager (manager.mergeRecords owner records) := by
  induction records generalizing manager with
  | nil => exact .refl
  | cons record rest inductionHypothesis =>
    have steps := mergeRecord_steps realNode owner record
    exact steps.trans (inductionHypothesis ((nodeId_of_steps steps).symm ▸ realNode))

/-- The records of a frame leave the clock and the fields as they were if and only if each of them
is ignored. -/
theorem mergeRecords_ignored_iff {manager : FleeceStateManager} (store : manager.StoreInvariant)
    {owner : UInt64} (foreign : owner ≠ manager.nodeId) (records : List GossipRecord) :
    ((manager.mergeRecords owner records).localTimestamp = manager.localTimestamp ∧
        (manager.mergeRecords owner records).view = manager.view ↔
      ∀ record ∈ records, manager.Ignores owner record) ∧
      ((∀ record ∈ records, manager.Ignores owner record) →
        SameStore manager (manager.mergeRecords owner records)) := by
  induction records generalizing manager with
  | nil =>
    exact ⟨iff_of_true ⟨rfl, rfl⟩ fun _ absent => absurd absent List.not_mem_nil,
      fun _ => ⟨rfl, rfl, rfl, rfl⟩⟩
  | cons record rest inductionHypothesis =>
    have steps := mergeRecord_steps store.realNode owner record
    have storeNext := (mergeSteps_keep steps store).1
    have foreignNext : owner ≠ (manager.mergeRecord owner record).nodeId := by
      rwa [nodeId_of_steps steps]
    rw [mergeRecords_cons, List.forall_mem_cons]
    by_cases ignored : manager.Ignores owner record
    · obtain ⟨unchanged, same⟩ := inductionHypothesis storeNext foreignNext
      have here := mergeRecord_of_ignores foreign ignored
      simp only [here.ignores_iff] at unchanged same
      rw [here.clock, view_of_same here.fields] at unchanged
      rw [and_iff_right ignored]
      refine ⟨unchanged, fun all => ?_⟩
      have last := same all
      exact ⟨last.fields.trans here.fields, last.fieldCount.trans here.fieldCount,
        last.clock.trans here.clock, last.node.trans here.node⟩
    · have later := mergeRecords_steps storeNext.realNode owner rest
      have changed := changed_of_not_ignores store foreign ignored
        (mergeSteps_keep later storeNext).2.2 (clock_le_of_mergeSteps later)
      refine ⟨iff_of_false ?_ fun all => ignored all.1, fun all => absurd all.1 ignored⟩
      rintro ⟨clock, view⟩
      exact changed.elim (absurd clock) (absurd view)

theorem owner_of_parseFrame {nodeId : UInt64} {frame : Blob} {parsed : ParsedFrame}
    (realNode : nodeId ≠ sharedOwnerId) (read : parseFrame nodeId frame = .ok parsed) :
    parsed.ownerNodeId ≠ nodeId := by
  obtain ⟨senderEnd, stream, _, header, owner, _⟩ := reads_of_parseFrame read
  rw [owner]
  intro own
  unfold readStream at header
  cases first : readMajor frame.bytes frame.size senderEnd 0 with
  | error halt =>
    rw [first] at header
    cases header
  | ok result =>
    rw [first] at header
    simp only [bind, Except.bind] at header
    split_ifs at header with loops
    cases second : readMajor frame.bytes frame.size result.2 0 with
    | error halt =>
      rw [second] at header
      cases header
    | ok middle =>
      rw [second] at header
      simp only at header
      cases third : readMajor frame.bytes frame.size middle.2 0 with
      | error halt =>
        rw [third] at header
        cases header
      | ok last =>
        rw [third] at header
        cases header
        exact loops ⟨fun shared => realNode (own.symm.trans shared), own⟩

/-- Every record that is read before the frame ends or is refused comes to nothing. -/
def IgnoresFrame (manager : FleeceStateManager) (frame : Blob) : Prop :=
  ∀ parsed, parseFrame manager.nodeId frame = .ok parsed →
    ∀ record ∈ parsed.records, manager.Ignores parsed.ownerNodeId record

/-- An import leaves the clock and the fields as they were if and only if it ignores the frame. -/
theorem importFrom_ignored_iff {manager : FleeceStateManager} (store : manager.StoreInvariant)
    (frame : Blob) :
    ((manager.importFrom frame).manager.localTimestamp = manager.localTimestamp ∧
        (manager.importFrom frame).manager.view = manager.view ↔ manager.IgnoresFrame frame) ∧
      (manager.IgnoresFrame frame → SameStore manager (manager.importFrom frame).manager) := by
  rw [importFrom_manager]
  unfold IgnoresFrame
  cases read : parseFrame manager.nodeId frame with
  | error halt =>
    refine ⟨iff_of_true ⟨rfl, rfl⟩ fun parsed absent => ?_, fun _ => ⟨rfl, rfl, rfl, rfl⟩⟩
    cases absent
  | ok parsed =>
    have touched := sameStore_touchPeer manager parsed.senderNodeId
    have storeTouched := storeInvariant_of_same touched.fields touched.fieldCount touched.node store
    have foreign : parsed.ownerNodeId ≠ (manager.touchPeer parsed.senderNodeId).nodeId := by
      rw [touched.node]
      exact owner_of_parseFrame store.realNode read
    obtain ⟨unchanged, same⟩ := mergeRecords_ignored_iff storeTouched foreign parsed.records
    simp only [touched.ignores_iff] at unchanged same
    rw [touched.clock, view_of_same touched.fields] at unchanged
    have every : (∀ other, Except.ok parsed = Except.ok (ε := Halt) other →
        ∀ record ∈ other.records, manager.Ignores other.ownerNodeId record) ↔
        ∀ record ∈ parsed.records, manager.Ignores parsed.ownerNodeId record :=
      ⟨fun all => all parsed rfl, fun all other found => Except.ok.inj found ▸ all⟩
    rw [every]
    refine ⟨unchanged, fun all => ?_⟩
    have last := same all
    exact ⟨last.fields.trans touched.fields, last.fieldCount.trans touched.fieldCount,
      last.clock.trans touched.clock, last.node.trans touched.node⟩

/-- For a reachable store, a frame that is refused leaves every slot and the clock as they were if
and only if each record before the damage comes to nothing. -/
theorem refused_frame_unchanged_iff {nodeId : UInt64} {start : FleeceStateManager}
    (created : createWithNodeId nodeId = some start) (operations : List Operation) (frame : Blob) :
    let manager := start.after operations
    let result := manager.importFrame frame
    ((result.2 = -1 → result.1.fields = manager.fields ∧
        result.1.localTimestamp = manager.localTimestamp) ↔
      (result.2 = -1 → manager.IgnoresFrame frame)) ∧
    ((result.2 = -1 → result.1.view = manager.view ∧
        result.1.localTimestamp = manager.localTimestamp) ↔
      (result.2 = -1 → manager.IgnoresFrame frame)) := by
  intro manager result
  have store : manager.StoreInvariant := storeInvariant_after created operations
  obtain ⟨unchanged, same⟩ := importFrom_ignored_iff store frame
  have imported : result.1 = (manager.importFrom frame).manager := rfl
  rw [imported]
  constructor
  · refine forall_congr' fun _ => ⟨fun kept => ?_, fun ignored => ?_⟩
    · exact unchanged.mp ⟨kept.2, view_of_same kept.1⟩
    · exact ⟨(same ignored).fields, (same ignored).clock⟩
  · exact forall_congr' fun _ => and_comm.trans unchanged

/-- A frame of one record that announces two. -/
def cutFrame : Blob :=
  ⟨[0x46, 0x47, 5, 0x85, 2, 0, 0, 0, 0x82, 0x85, 2, 0xF4, 0x61, 0x61, 1, 0x41, 1], by decide⟩

/-- The second time it arrives, the frame changes nothing. -/
theorem refused_frame_unchanged_again :
    let manager := (blank 7).after [.importFrom cutFrame]
    (manager.importFrame cutFrame).2 = -1 ∧ manager.IgnoresFrame cutFrame := by
  intro manager
  have rejected : (((blank 7).after [.importFrom cutFrame]).importFrame cutFrame).2 = -1 := by
    decide +kernel
  have fields : ∀ i, (((blank 7).after [.importFrom cutFrame]).importFrame cutFrame).1.fields i =
      ((blank 7).after [.importFrom cutFrame]).fields i := by decide +kernel
  have clock : (((blank 7).after [.importFrom cutFrame]).importFrame cutFrame).1.localTimestamp =
      ((blank 7).after [.importFrom cutFrame]).localTimestamp := by decide +kernel
  have unchanged := (refused_frame_unchanged_iff (show createWithNodeId 7 = some (blank 7) from rfl)
    [.importFrom cutFrame] cutFrame).1
  exact ⟨rejected, unchanged.mp (fun _ => ⟨funext fields, clock⟩) rejected⟩

/-- The first time it arrives it is refused, but its record has been stored and its timestamp has
moved the clock. -/
theorem refused_frame_stores :
    let manager := blank 7
    let result := manager.importFrame cutFrame
    result.2 = -1 ∧ manager.view (hashName ⟨[0x61], by decide⟩, sharedOwnerId) = none ∧
      result.1.view (hashName ⟨[0x61], by decide⟩, sharedOwnerId) =
        some ⟨2, false, ⟨⟨[0x61], by decide⟩, by decide⟩, 1, ⟨[1], by decide⟩⟩ ∧
      manager.localTimestamp = 0 ∧ result.1.localTimestamp = 1 := by
  decide +kernel

end FleeceStateManager

end Fleece
