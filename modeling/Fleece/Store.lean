/-
This file says once what an operation can do to the slot array, in four kinds of
steps: a record is stored under its key and owner with a fresh local timestamp, a
peer's record is stored because it is newer than the one it replaces, the export
time of a slot is marked, or the array is compacted. Every operation of the state
manager is one of these or a sequence of them (`Fleece/Operations.lean`), so an
invariant of the store is proved from the four and from nothing else.

The array is read as a map through `Fleece/Slots.lean`. Its invariant is written
to survive `compact`, which may leave a tombstone of the local node existing past
`field_count`: only slots of the local node ever lie there.
-/

import Fleece.Runs
import Fleece.Import

namespace Fleece

/-- The key and the owner of an existing slot. -/
def fieldLabel (f : FieldEntry) : Option (UInt32 × UInt64) :=
  if f.slotExists then some (f.key, f.nodeId) else none

theorem fieldLabel_eq_some_iff {f : FieldEntry} {key : UInt32} {ownerNodeId : UInt64} :
    fieldLabel f = some (key, ownerNodeId) ↔
      f.slotExists = true ∧ f.key = key ∧ f.nodeId = ownerNodeId := by
  unfold fieldLabel
  split
  · rename_i present
    simp only [Option.some.injEq, Prod.mk.injEq, present, true_and]
  · rename_i absent
    simp only [reduceCtorEq, absent, false_and]

theorem fieldLabel_of_exists {f : FieldEntry} (present : f.slotExists = true) :
    fieldLabel f = some (f.key, f.nodeId) :=
  fieldLabel_eq_some_iff.mpr ⟨present, rfl, rfl⟩

namespace FieldEntry

/-- The record a slot holds under its key and owner. -/
def record (f : FieldEntry) : GossipRecord where
  originNodeId := f.originNodeId
  isTombstone := f.isTombstone
  name := f.name
  timestamp := f.timestamp
  data := f.data

end FieldEntry

namespace GossipRecord

/-- The name is not empty. -/
def isNamed (record : GossipRecord) : Bool := !record.name.chars.isEmpty

/-- The tombstones are the records without a payload. -/
def Filled (record : GossipRecord) : Prop := record.isTombstone = true ↔ record.data = .empty

end GossipRecord

namespace FleeceStateManager

/-- The slot of a key and an owner, live or a tombstone. -/
def lookup (manager : FleeceStateManager) (key : UInt32) (ownerNodeId : UInt64) :
    Option FieldEntry :=
  Slots.lookup fieldLabel manager.fields (key, ownerNodeId)

/-- No two existing slots share a key and an owner. -/
def DistinctSlots (manager : FleeceStateManager) : Prop :=
  Slots.Distinct fieldLabel manager.fields

theorem findSlotOwned_eq (manager : FleeceStateManager) (key : UInt32) (ownerNodeId : UInt64) :
    manager.findSlotOwned key ownerNodeId =
      Slots.find fieldLabel manager.fields (key, ownerNodeId) := by
  unfold findSlotOwned Slots.find
  refine congrArg Fin.find? (funext fun i => ?_)
  rw [Bool.eq_iff_iff, decide_eq_true_iff, fieldLabel_eq_some_iff]
  simp only [Bool.and_eq_true, beq_iff_eq, and_assoc]

theorem map_findSlotOwned (manager : FleeceStateManager) (key : UInt32) (ownerNodeId : UInt64) :
    (manager.findSlotOwned key ownerNodeId).map manager.fields = manager.lookup key ownerNodeId := by
  rw [findSlotOwned_eq]
  rfl

theorem lookup_of_findSlotOwned {manager : FleeceStateManager} {key : UInt32}
    {ownerNodeId : UInt64} {i : Fin fieldCapacity}
    (found : manager.findSlotOwned key ownerNodeId = some i) :
    manager.lookup key ownerNodeId = some (manager.fields i) := by
  rw [← map_findSlotOwned, found, Option.map_some]

theorem label_of_findSlotOwned {manager : FleeceStateManager} {key : UInt32}
    {ownerNodeId : UInt64} {i : Fin fieldCapacity}
    (found : manager.findSlotOwned key ownerNodeId = some i) :
    (manager.fields i).slotExists = true ∧ (manager.fields i).key = key ∧
      (manager.fields i).nodeId = ownerNodeId := by
  rw [findSlotOwned_eq] at found
  exact fieldLabel_eq_some_iff.mp (Slots.label_of_find found)

theorem lookup_eq_none_iff {manager : FleeceStateManager} {key : UInt32} {ownerNodeId : UInt64} :
    manager.lookup key ownerNodeId = none ↔ manager.findSlotOwned key ownerNodeId = none := by
  rw [← map_findSlotOwned, Option.map_eq_none_iff]

theorem exists_of_lookup {manager : FleeceStateManager} {key : UInt32} {ownerNodeId : UInt64}
    {f : FieldEntry} (found : manager.lookup key ownerNodeId = some f) :
    ∃ i, manager.fields i = f ∧ f.slotExists = true ∧ f.key = key ∧ f.nodeId = ownerNodeId := by
  obtain ⟨i, held, labelled⟩ := Slots.exists_of_lookup found
  exact ⟨i, held, fieldLabel_eq_some_iff.mp labelled⟩

theorem lookup_of_exists {manager : FleeceStateManager} (distinct : manager.DistinctSlots)
    {i : Fin fieldCapacity} (present : (manager.fields i).slotExists = true) :
    manager.lookup (manager.fields i).key (manager.fields i).nodeId = some (manager.fields i) :=
  Slots.lookup_eq_of_label distinct (fieldLabel_of_exists present)

/-! ### Storing one entry -/

/-- One entry is stored: in the slot of its key and owner, or in a new slot at `field_count`.
The slot keeps the export time it had. -/
inductive Stored (manager next : FleeceStateManager) (f : FieldEntry) : Prop
  | inPlace (i : Fin fieldCapacity) (found : manager.findSlotOwned f.key f.nodeId = some i)
      (fields : next.fields = Function.update manager.fields i f)
      (count : next.fieldCount = manager.fieldCount)
      (present : f.slotExists = true) (marked : f.lastExportTs = (manager.fields i).lastExportTs)
  | appended (absent : manager.findSlotOwned f.key f.nodeId = none)
      (room : manager.fieldCount < fieldCapacity)
      (fields : next.fields = Function.update manager.fields ⟨manager.fieldCount, room⟩ f)
      (count : next.fieldCount = manager.fieldCount + 1)
      (present : f.slotExists = true)
      (marked : f.lastExportTs = (manager.fields ⟨manager.fieldCount, room⟩).lastExportTs)

/-- The index an entry is stored at, with what the array held there. -/
theorem Stored.index {manager next : FleeceStateManager} {f : FieldEntry}
    (stored : Stored manager next f) :
    ∃ i : Fin fieldCapacity, next.fields = Function.update manager.fields i f ∧
      f.slotExists = true ∧ f.lastExportTs = (manager.fields i).lastExportTs ∧
      ((manager.findSlotOwned f.key f.nodeId = some i ∧ next.fieldCount = manager.fieldCount) ∨
        (manager.findSlotOwned f.key f.nodeId = none ∧ i.val = manager.fieldCount ∧
          next.fieldCount = manager.fieldCount + 1)) := by
  cases stored with
  | inPlace i found fields count present marked =>
    exact ⟨i, fields, present, marked, Or.inl ⟨found, count⟩⟩
  | appended absent room fields count present marked =>
    exact ⟨⟨manager.fieldCount, room⟩, fields, present, marked, Or.inr ⟨absent, rfl, count⟩⟩

/-- `upsert_field` stores its entry or refuses it for lack of a slot. -/
theorem upsertField_cases (manager : FleeceStateManager) (key : UInt32)
    (ownerNodeId originNodeId : UInt64) (name : Option CString) (data : Blob) (timestamp : UInt64)
    (isTombstone : Bool) :
    (manager.upsertField key ownerNodeId originNodeId name data timestamp isTombstone = (manager, -1)
        ∧ manager.findSlotOwned key ownerNodeId = none ∧ fieldCapacity ≤ manager.fieldCount) ∨
      ∃ f next, manager.upsertField key ownerNodeId originNodeId name data timestamp isTombstone =
          (next, 0) ∧
        Stored manager next f ∧ next = { manager with
          fields := next.fields, fieldCount := next.fieldCount } ∧
        f.key = key ∧ f.nodeId = ownerNodeId ∧ f.record = {
          originNodeId := originNodeId
          isTombstone := isTombstone
          name := match name with
            | some name => FieldName.copy name
            | none => ((manager.lookup key ownerNodeId).map FieldEntry.name).getD .empty
          timestamp := timestamp
          data := if isTombstone then .empty else data } := by
  unfold upsertField
  cases found : manager.findSlotOwned key ownerNodeId with
  | some i =>
    obtain ⟨present, keyEq, ownerEq⟩ := label_of_findSlotOwned found
    refine Or.inr ⟨overwrite (manager.fields i) ownerNodeId originNodeId name data timestamp
      isTombstone, _, rfl, ?_, rfl, keyEq, rfl, ?_⟩
    · refine Stored.inPlace i ?_ rfl rfl present rfl
      show manager.findSlotOwned (manager.fields i).key ownerNodeId = some i
      rw [keyEq, found]
    · rw [lookup_of_findSlotOwned found]
      rfl
  | none =>
    by_cases room : manager.fieldCount < fieldCapacity
    · rw [dif_pos room]
      refine Or.inr ⟨overwrite { manager.fields ⟨manager.fieldCount, room⟩ with
        key := key, slotExists := true, name := .empty } ownerNodeId originNodeId name data timestamp
        isTombstone, _, rfl, Stored.appended found room rfl rfl rfl rfl, rfl, rfl, rfl, ?_⟩
      rw [lookup_eq_none_iff.mpr found]
      rfl
    · rw [dif_neg room]
      exact Or.inl ⟨rfl, rfl, not_lt.mp room⟩

/-! ### What one step can do -/

/-- One step of a merge: the array is left alone while the clock may rise, or a peer's record
is stored because it is newer than the one under its key and owner. -/
inductive MergeStep (manager next : FleeceStateManager) : Prop
  | quiet (fields : next.fields = manager.fields) (count : next.fieldCount = manager.fieldCount)
      (node : next.nodeId = manager.nodeId)
      (clock : manager.localTimestamp ≤ next.localTimestamp)
  | merge (f : FieldEntry) (stored : Stored manager next f) (node : next.nodeId = manager.nodeId)
      (clock : next.localTimestamp = manager.localTimestamp)
      (stamp : f.timestamp ≤ manager.localTimestamp) (foreign : f.nodeId ≠ manager.nodeId)
      (named : f.isNamed = true) (filled : f.record.Filled)
      (authored : f.nodeId ≠ sharedOwnerId → f.originNodeId = f.nodeId)
      (newer : ∀ old, manager.lookup f.key f.nodeId = some old → old.timestamp < f.timestamp ∨
        (old.timestamp = f.timestamp ∧ old.originNodeId < f.originNodeId))

/-- One step of the packing loop: the export time of a slot becomes the clock. -/
def MarkStep (manager next : FleeceStateManager) : Prop :=
  ∃ i, next = { manager with
    fields := Function.update manager.fields i
      { manager.fields i with lastExportTs := manager.localTimestamp } }

/-- What a local write or delete does to the store: its arguments are refused, there is no slot
for it, or its entry is stored under the next clock value. -/
inductive WriteEffect (manager next : FleeceStateManager) : Prop
  | unchanged (same : next = manager)
  | noSlot (fields : next.fields = manager.fields) (count : next.fieldCount = manager.fieldCount)
      (node : next.nodeId = manager.nodeId)
      (clock : next.localTimestamp = manager.localTimestamp + 1)
  | wrote (f : FieldEntry) (stored : Stored manager next f) (node : next.nodeId = manager.nodeId)
      (clock : next.localTimestamp = manager.localTimestamp + 1)
      (stamp : f.timestamp = manager.localTimestamp + 1)
      (own : f.nodeId = manager.nodeId ∨
        (f.nodeId = sharedOwnerId ∧ f.originNodeId = manager.nodeId ∧ f.isNamed = true))
      (filled : f.record.Filled)
      (authored : f.nodeId ≠ sharedOwnerId → f.originNodeId = f.nodeId)

/-! ### The invariant of the store -/

/-- What every state keeps, also after `compact`. -/
structure StoreInvariant (manager : FleeceStateManager) : Prop where
  realNode : manager.nodeId ≠ sharedOwnerId
  distinct : manager.DistinctSlots
  countLe : manager.fieldCount ≤ fieldCapacity
  /-- A slot past `field_count` belongs to the local node. -/
  beyond : ∀ i, (manager.fields i).slotExists = true → manager.fieldCount ≤ i.val →
    (manager.fields i).nodeId = manager.nodeId
  /-- A slot of another owner has a name. -/
  named : ∀ i, (manager.fields i).slotExists = true → (manager.fields i).nodeId ≠ manager.nodeId →
    (manager.fields i).isNamed = true
  filled : ∀ i, (manager.fields i).slotExists = true → (manager.fields i).record.Filled
  /-- Outside the shared stream the author of a slot is its owner. -/
  authored : ∀ i, (manager.fields i).slotExists = true →
    (manager.fields i).nodeId ≠ sharedOwnerId →
    (manager.fields i).originNodeId = (manager.fields i).nodeId

theorem storeInvariant_create {nodeId : UInt64} {manager : FleeceStateManager}
    (created : createWithNodeId nodeId = some manager) : manager.StoreInvariant := by
  unfold createWithNodeId at created
  split_ifs at created with reserved
  rw [← Option.some.inj created]
  have empty (i : Fin fieldCapacity) : ((blank nodeId).fields i).slotExists ≠ true :=
    Bool.false_ne_true
  refine ⟨reserved, ?_, Nat.zero_le _, fun i present => absurd present (empty i),
    fun i present => absurd present (empty i), fun i present => absurd present (empty i),
    fun i present => absurd present (empty i)⟩
  intro i j wanted labelled
  exact absurd (fieldLabel_eq_some_iff.mp labelled).1 (empty i)

/-- The label a stored entry gets was free or its slot's own. -/
theorem own_label {manager : FleeceStateManager} {f : FieldEntry}
    (distinct : manager.DistinctSlots) {i : Fin fieldCapacity} (present : f.slotExists = true)
    (place : manager.findSlotOwned f.key f.nodeId = some i ∨
      manager.findSlotOwned f.key f.nodeId = none) :
    ∀ j wanted, fieldLabel f = some wanted → fieldLabel (manager.fields j) = some wanted →
      j = i := by
  intro j wanted new old
  rw [fieldLabel_of_exists present] at new
  rw [← Option.some.inj new] at old
  rcases place with found | absent
  · rw [findSlotOwned_eq] at found
    exact distinct j i _ old (Slots.label_of_find found)
  · rw [findSlotOwned_eq] at absent
    exact absurd old (Slots.find_eq_none_iff.mp absent j)

theorem Stored.distinct {manager next : FleeceStateManager} {f : FieldEntry}
    (stored : Stored manager next f) (distinct : manager.DistinctSlots) : next.DistinctSlots := by
  obtain ⟨i, fields, present, _, place⟩ := stored.index
  unfold DistinctSlots
  rw [fields]
  exact Slots.distinct_update distinct i
    (own_label distinct present (place.imp And.left And.left))

theorem Stored.lookup_self {manager next : FleeceStateManager} {f : FieldEntry}
    (stored : Stored manager next f) (distinct : manager.DistinctSlots) :
    next.lookup f.key f.nodeId = some f := by
  have after := stored.distinct distinct
  obtain ⟨i, fields, present, _⟩ := stored.index
  unfold lookup DistinctSlots at *
  rw [fields] at after ⊢
  exact Slots.lookup_update_self after (fieldLabel_of_exists present)

/-- Storing an entry leaves every other pair alone, unless the new slot is taken from it. -/
theorem Stored.lookup_of_ne {manager next : FleeceStateManager} {f : FieldEntry}
    (stored : Stored manager next f) {key : UInt32} {ownerNodeId : UInt64}
    (other : (key, ownerNodeId) ≠ (f.key, f.nodeId))
    (spared : ∀ i : Fin fieldCapacity, manager.fieldCount ≤ i.val →
      fieldLabel (manager.fields i) ≠ some (key, ownerNodeId)) :
    next.lookup key ownerNodeId = manager.lookup key ownerNodeId := by
  obtain ⟨i, fields, present, _, place⟩ := stored.index
  unfold lookup
  rw [fields]
  refine Slots.lookup_update_of_ne i ?_ ?_
  · rcases place with ⟨found, _⟩ | ⟨_, index, _⟩
    · rw [findSlotOwned_eq] at found
      rw [Slots.label_of_find found]
      exact fun same => other (Option.some.inj same).symm
    · exact spared i (le_of_eq index.symm)
  · rw [fieldLabel_of_exists present]
    exact fun same => other (Option.some.inj same).symm

/-- No slot past `field_count` belongs to another owner. -/
theorem StoreInvariant.spared {manager : FleeceStateManager} (invariant : manager.StoreInvariant)
    {key : UInt32} {ownerNodeId : UInt64} (foreign : ownerNodeId ≠ manager.nodeId)
    (i : Fin fieldCapacity) (after : manager.fieldCount ≤ i.val) :
    fieldLabel (manager.fields i) ≠ some (key, ownerNodeId) := by
  intro labelled
  obtain ⟨present, _, owner⟩ := fieldLabel_eq_some_iff.mp labelled
  exact foreign (owner.symm.trans (invariant.beyond i present after))

theorem Stored.storeInvariant {manager next : FleeceStateManager} {f : FieldEntry}
    (stored : Stored manager next f) (node : next.nodeId = manager.nodeId)
    (named : f.nodeId ≠ manager.nodeId → f.isNamed = true) (filled : f.record.Filled)
    (authored : f.nodeId ≠ sharedOwnerId → f.originNodeId = f.nodeId)
    (invariant : manager.StoreInvariant) : next.StoreInvariant := by
  have distinct := stored.distinct invariant.distinct
  obtain ⟨i, fields, present, _, place⟩ := stored.index
  refine ⟨node ▸ invariant.realNode, distinct, ?_, ?_, ?_, ?_, ?_⟩
  · rcases place with ⟨_, count⟩ | ⟨_, index, count⟩
    · exact count ▸ invariant.countLe
    · rw [count, ← index]
      exact i.isLt
  · intro j existsNow after
    have old : manager.fieldCount ≤ j.val := by
      rcases place with ⟨_, count⟩ | ⟨_, _, count⟩ <;> omega
    rw [fields] at existsNow ⊢
    rw [node]
    rcases eq_or_ne j i with rfl | different
    · rw [Function.update_self]
      rcases place with ⟨found, _⟩ | ⟨_, index, count⟩
      · obtain ⟨presentOld, _, owner⟩ := label_of_findSlotOwned found
        rw [← owner]
        exact invariant.beyond j presentOld old
      · omega
    · rw [Function.update_of_ne different] at existsNow ⊢
      exact invariant.beyond j existsNow old
  · intro j existsNow foreign
    rw [node] at foreign
    rw [fields] at existsNow foreign ⊢
    rcases eq_or_ne j i with rfl | different
    · rw [Function.update_self] at foreign ⊢
      exact named foreign
    · rw [Function.update_of_ne different] at existsNow foreign ⊢
      exact invariant.named j existsNow foreign
  · intro j existsNow
    rw [fields] at existsNow ⊢
    rcases eq_or_ne j i with rfl | different
    · rwa [Function.update_self]
    · rw [Function.update_of_ne different] at existsNow ⊢
      exact invariant.filled j existsNow
  · intro j existsNow owned
    rw [fields] at existsNow owned ⊢
    rcases eq_or_ne j i with rfl | different
    · rw [Function.update_self] at owned ⊢
      exact authored owned
    · rw [Function.update_of_ne different] at existsNow owned ⊢
      exact invariant.authored j existsNow owned

theorem storeInvariant_of_same {manager next : FleeceStateManager}
    (fields : next.fields = manager.fields) (count : next.fieldCount = manager.fieldCount)
    (node : next.nodeId = manager.nodeId) (invariant : manager.StoreInvariant) :
    next.StoreInvariant := by
  obtain ⟨realNode, distinct, countLe, beyond, named, filled, authored⟩ := invariant
  unfold DistinctSlots at distinct
  refine ⟨?_, ?_, ?_, ?_, ?_, ?_, ?_⟩
  · rwa [node]
  · unfold DistinctSlots
    rwa [fields]
  · rwa [count]
  · rwa [fields, count, node]
  · rwa [fields, node]
  · rwa [fields]
  · rwa [fields]

/-! ### Marking and compacting -/

/-- An entry apart from its export time. -/
def unmarked (f : FieldEntry) : FieldEntry := { f with lastExportTs := 0 }

/-- What does not read the export time does not see a mark. -/
theorem read_of_unmarked {Result : Type} {f g : FieldEntry} (same : unmarked g = unmarked f)
    (read : FieldEntry → Result) (blind : ∀ f, read (unmarked f) = read f) : read g = read f := by
  rw [← blind g, same, blind f]

theorem MarkStep.fields {manager next : FleeceStateManager} (step : MarkStep manager next)
    (j : Fin fieldCapacity) : unmarked (next.fields j) = unmarked (manager.fields j) := by
  obtain ⟨i, rfl⟩ := step
  rcases eq_or_ne j i with rfl | different
  · simp only [Function.update_self]
    rfl
  · simp only [Function.update_of_ne different]

theorem fieldLabel_unmarked (f : FieldEntry) : fieldLabel (unmarked f) = fieldLabel f := rfl

/-- A mark changes nothing but export times. -/
theorem markSteps_rest {manager next : FleeceStateManager}
    (steps : Relation.ReflTransGen MarkStep manager next) :
    next = { manager with fields := next.fields } ∧
      ∀ j, unmarked (next.fields j) = unmarked (manager.fields j) := by
  induction steps with
  | refl => exact ⟨rfl, fun _ => rfl⟩
  | tail _ step inductionHypothesis =>
    have marked := step.fields
    obtain ⟨rest, same⟩ := inductionHypothesis
    refine ⟨?_, fun j => (marked j).trans (same j)⟩
    obtain ⟨i, rfl⟩ := step
    rw [rest]

theorem label_of_unmarked {manager next : FleeceStateManager} {j : Fin fieldCapacity}
    (same : unmarked (next.fields j) = unmarked (manager.fields j)) :
    fieldLabel (next.fields j) = fieldLabel (manager.fields j) := by
  rw [← fieldLabel_unmarked, same, fieldLabel_unmarked]

theorem lookup_of_unmarked {manager next : FleeceStateManager}
    (same : ∀ j, unmarked (next.fields j) = unmarked (manager.fields j)) (key : UInt32)
    (ownerNodeId : UInt64) :
    (next.lookup key ownerNodeId).map unmarked = (manager.lookup key ownerNodeId).map unmarked := by
  have index : Slots.find fieldLabel next.fields (key, ownerNodeId) =
      Slots.find fieldLabel manager.fields (key, ownerNodeId) := by
    unfold Slots.find
    exact congrArg Fin.find? (funext fun j => by rw [label_of_unmarked (same j)])
  unfold FleeceStateManager.lookup Slots.lookup
  rw [index, Option.map_map, Option.map_map]
  exact congrArg (Option.map · _) (funext same)

theorem MarkStep.storeInvariant {manager next : FleeceStateManager} (step : MarkStep manager next)
    (invariant : manager.StoreInvariant) : next.StoreInvariant := by
  have same := step.fields
  have labels := fun j => label_of_unmarked (same j)
  obtain ⟨i, rfl⟩ := step
  refine ⟨invariant.realNode, ?_, invariant.countLe, ?_, ?_, ?_, ?_⟩
  · intro first second wanted firstLabel secondLabel
    rw [labels] at firstLabel secondLabel
    exact invariant.distinct first second wanted firstLabel secondLabel
  · intro j present after
    rw [read_of_unmarked (same j) FieldEntry.nodeId fun _ => rfl]
    rw [read_of_unmarked (same j) FieldEntry.slotExists fun _ => rfl] at present
    exact invariant.beyond j present after
  · intro j present foreign
    rw [read_of_unmarked (same j) FieldEntry.isNamed fun _ => rfl]
    rw [read_of_unmarked (same j) FieldEntry.slotExists fun _ => rfl] at present
    rw [read_of_unmarked (same j) FieldEntry.nodeId fun _ => rfl] at foreign
    exact invariant.named j present foreign
  · intro j present
    rw [read_of_unmarked (same j) FieldEntry.record fun _ => rfl]
    rw [read_of_unmarked (same j) FieldEntry.slotExists fun _ => rfl] at present
    exact invariant.filled j present
  · intro j present owned
    rw [read_of_unmarked (same j) FieldEntry.originNodeId fun _ => rfl,
      read_of_unmarked (same j) FieldEntry.nodeId fun _ => rfl]
    rw [read_of_unmarked (same j) FieldEntry.slotExists fun _ => rfl] at present
    rw [read_of_unmarked (same j) FieldEntry.nodeId fun _ => rfl] at owned
    exact invariant.authored j present owned

theorem compact_distinct {manager : FleeceStateManager} (distinct : manager.DistinctSlots) :
    manager.compact.DistinctSlots :=
  Slots.distinct_retain keptByCompact .zero distinct rfl

theorem exists_compact_iff (manager : FleeceStateManager) {f : FieldEntry}
    (kept : keptByCompact f = true) :
    (∃ i, manager.compact.fields i = f) ↔ ∃ i, manager.fields i = f :=
  Slots.exists_retain_iff keptByCompact .zero manager.fields rfl kept

/-- `compact` does not change the slot of a pair whose slot it keeps. -/
theorem compact_lookup {manager : FleeceStateManager} (distinct : manager.DistinctSlots)
    {key : UInt32} {ownerNodeId : UInt64}
    (kept : ∀ i, fieldLabel (manager.fields i) = some (key, ownerNodeId) →
      keptByCompact (manager.fields i) = true) :
    manager.compact.lookup key ownerNodeId = manager.lookup key ownerNodeId := by
  refine Slots.lookup_congr (compact_distinct distinct) distinct fun f labelled => ?_
  by_cases keptHere : keptByCompact f = true
  · exact exists_compact_iff manager keptHere
  · have absent : ¬ ∃ i, manager.fields i = f := by
      rintro ⟨i, rfl⟩
      exact keptHere (kept i labelled)
    refine iff_of_false ?_ absent
    rintro ⟨j, held⟩
    by_cases before : j.val < (Slots.retain keptByCompact .zero manager.fields).2
    · rw [← held] at keptHere
      exact keptHere (Slots.retain_front keptByCompact .zero manager.fields before).1
    · have beyond := Slots.retain_beyond keptByCompact .zero manager.fields (not_lt.mp before)
      split_ifs at beyond with keptSource
      · rw [← held, show manager.compact.fields j = .zero from beyond] at labelled
        exact absurd labelled (by simp [fieldLabel, FieldEntry.zero])
      · exact absent ⟨j, beyond.symm.trans held⟩

theorem keptByCompact_of_foreign {manager : FleeceStateManager}
    (invariant : manager.StoreInvariant) {i : Fin fieldCapacity}
    (present : (manager.fields i).slotExists = true)
    (foreign : (manager.fields i).nodeId ≠ manager.nodeId) :
    keptByCompact (manager.fields i) = true := by
  rw [keptByCompact, present, invariant.named i present foreign, Bool.or_true, Bool.and_self]

theorem compact_storeInvariant {manager : FleeceStateManager} (invariant : manager.StoreInvariant) :
    manager.compact.StoreInvariant := by
  have front (j : Fin fieldCapacity) (before : j.val < manager.compact.fieldCount) :
      ∃ i, manager.fields i = manager.compact.fields j :=
    (Slots.retain_front keptByCompact .zero manager.fields before).2
  have beyond (j : Fin fieldCapacity) (after : manager.compact.fieldCount ≤ j.val)
      (present : (manager.compact.fields j).slotExists = true) :
      keptByCompact (manager.fields j) = false ∧ manager.compact.fields j = manager.fields j := by
    have left := Slots.retain_beyond keptByCompact .zero manager.fields after
    split_ifs at left with kept
    · rw [show manager.compact.fields j = .zero from left] at present
      exact absurd present (by simp [FieldEntry.zero])
    · exact ⟨Bool.eq_false_of_not_eq_true kept, left⟩
  -- every slot of the compacted array that exists is an old slot
  have origin (j : Fin fieldCapacity) (present : (manager.compact.fields j).slotExists = true) :
      ∃ i, manager.fields i = manager.compact.fields j := by
    rcases lt_or_ge j.val manager.compact.fieldCount with before | after
    · exact front j before
    · exact ⟨j, (beyond j after present).2.symm⟩
  refine ⟨invariant.realNode, compact_distinct invariant.distinct,
    Slots.write_retain_le keptByCompact .zero manager.fields, ?_, ?_, ?_, ?_⟩
  · intro j present after
    obtain ⟨dropped, left⟩ := beyond j after present
    rw [left] at present ⊢
    by_contra foreign
    rw [keptByCompact_of_foreign invariant present foreign] at dropped
    cases dropped
  · intro j present foreign
    obtain ⟨i, held⟩ := origin j present
    rw [← held] at present foreign ⊢
    exact invariant.named i present foreign
  · intro j present
    obtain ⟨i, held⟩ := origin j present
    rw [← held] at present ⊢
    exact invariant.filled i present
  · intro j present owned
    obtain ⟨i, held⟩ := origin j present
    rw [← held] at present owned ⊢
    exact invariant.authored i present owned

end FleeceStateManager

end Fleece
