/-
This file is about names and the 32-bit hashes that stand for them. A slot keeps the
first 63 bytes of a name under the hash of the whole name, and every lookup goes by
the hash alone. A name of at most 63 bytes is kept whole, so that the key of its slot
is the hash of the name that travels; of a longer one it is not.

Two names share a field exactly if they share a hash, and a field reaches another node
under the hash of what the slot kept of its name.
-/

import Fleece.Repair

namespace Fleece

/-! ### Names of at most 63 bytes -/

/-- The slot field `name` holds the whole name. -/
def CString.isShort (name : CString) : Bool := decide (name.chars.length < fieldNameMax)

/-- The name an operation is given. -/
def Operation.name : Operation → Option CString
  | .write change => change.name
  | .mergeNamed _ name _ _ _ => some name
  | .mergeShared _ name _ _ _ => some name
  | _ => none

/-- The name an operation is given, if any, is at most 63 bytes long; the names in a frame always
are. -/
def Operation.isShort (operation : Operation) : Bool := operation.name.all CString.isShort

theorem CString.copy_of_isShort {name : CString} (short : name.isShort = true) :
    (FieldName.copy name).toCString = name := by
  obtain ⟨chars, noNul⟩ := name
  have whole : chars.take (fieldNameMax - 1) = chars :=
    List.take_of_length_le (Nat.le_sub_one_of_lt (of_decide_eq_true short))
  simp only [FieldName.copy, whole]

namespace FleeceStateManager

/-- The key of every named slot is the hash of the name it keeps. -/
def Keyed (manager : FleeceStateManager) : Prop :=
  ∀ i, (manager.fields i).slotExists = true → (manager.fields i).isNamed = true →
    (manager.fields i).key = hashName (manager.fields i).name.toCString

theorem Keyed.view {manager : FleeceStateManager} (keyed : manager.Keyed)
    {pair : UInt32 × UInt64} {record : GossipRecord} (found : manager.view pair = some record)
    (named : record.isNamed = true) : pair.1 = hashName record.name.toCString := by
  obtain ⟨f, held, rfl⟩ := Option.map_eq_some_iff.mp found
  obtain ⟨i, rfl, present, key, _⟩ := exists_of_lookup held
  rw [← key]
  exact keyed i present named

theorem Keyed.of_same {manager next : FleeceStateManager} (keyed : manager.Keyed)
    (fields : next.fields = manager.fields) : next.Keyed := by
  unfold Keyed
  rw [fields]
  exact keyed

theorem Keyed.stored {manager next : FleeceStateManager} {f : FieldEntry}
    (keyed : manager.Keyed) (stored : Stored manager next f)
    (fits : f.isNamed = true → f.key = hashName f.name.toCString) : next.Keyed := by
  obtain ⟨i, fields, _⟩ := stored.index
  intro j present named
  rw [fields] at present named ⊢
  rcases eq_or_ne j i with rfl | different
  · rw [Function.update_self] at named ⊢
    exact fits named
  · rw [Function.update_of_ne different] at present named ⊢
    exact keyed j present named

theorem Keyed.compact {manager : FleeceStateManager} (keyed : manager.Keyed) :
    manager.compact.Keyed := by
  intro j present named
  rcases manager.compact_fields j with blank | ⟨i, held⟩
  · rw [blank] at present
    exact absurd present Bool.false_ne_true
  · rw [held] at present named ⊢
    exact keyed i present named

theorem Keyed.of_unmarked {manager next : FleeceStateManager} (keyed : manager.Keyed)
    (same : ∀ j, unmarked (next.fields j) = unmarked (manager.fields j)) : next.Keyed := by
  intro j present named
  rw [read_of_unmarked (same j) FieldEntry.slotExists fun _ => rfl] at present
  rw [read_of_unmarked (same j) FieldEntry.isNamed fun _ => rfl] at named
  rw [read_of_unmarked (same j) FieldEntry.key fun _ => rfl,
    read_of_unmarked (same j) FieldEntry.name fun _ => rfl]
  exact keyed j present named

/-- A local write with a short name puts its record under the hash of the name kept. -/
theorem Keyed.write {manager : FleeceStateManager} (keyed : manager.Keyed) {change : LocalWrite}
    (short : change.name.all CString.isShort = true) : (change.exec manager).1.Keyed := by
  have outcome := exec_outcome manager change
  generalize asked : change.request manager.nodeId manager.localTimestamp manager.view =
    request at outcome
  generalize change.exec manager = result at outcome ⊢
  cases outcome with
  | refused code denied => exact keyed
  | noSlot next pair record accepted absent full fields => exact keyed.of_same fields
  | wrote next f accepted stored =>
    refine keyed.stored stored fun named => ?_
    rcases LocalWrite.name_of_request (asked.trans accepted) with
      ⟨name, given, key, copied⟩ | ⟨old, found, kept, _⟩ | ⟨_, unnamed⟩
    · rw [given, Option.all_some] at short
      show f.key = hashName f.record.name.toCString
      rw [copied, CString.copy_of_isShort short]
      exact key
    · show f.key = hashName f.record.name.toCString
      have namedOld : old.isNamed = true := by
        rw [GossipRecord.isNamed, ← kept]
        exact named
      rw [kept]
      exact keyed.view found namedOld
    · rw [FieldEntry.isNamed, show f.name = .empty from unnamed] at named
      exact absurd named Bool.false_ne_true

theorem Keyed.merge {base : FleeceStateManager} (keyed : base.Keyed) {name : CString}
    {owner origin timestamp : UInt64} {data : Blob} {isTombstone : Bool}
    {outranks : GossipRecord → Prop} {result : FleeceStateManager × Int}
    (short : name.isShort = true)
    (outcome : MergeOutcome base (hashName name, owner)
      (.upserted origin (.copy name) data timestamp isTombstone) outranks result) :
    result.1.Keyed := by
  cases outcome with
  | kept old found stays => exact keyed
  | noSlot absent full => exact keyed
  | stored next f storedAt rest label held newer =>
    refine keyed.stored storedAt fun _ => ?_
    have copied : f.name = .copy name := congrArg GossipRecord.name held
    rw [(Prod.mk.inj label).1, copied, CString.copy_of_isShort short]

theorem Keyed.mergeShared {manager : FleeceStateManager} (keyed : manager.Keyed) {name : CString}
    (short : name.isShort = true) (origin : UInt64) (data : Blob) (timestamp : UInt64)
    (isTombstone : Bool) :
    (manager.mergeShared origin name data timestamp isTombstone).1.Keyed := by
  cases accepted : mergeable name data isTombstone with
  | false =>
    unfold FleeceStateManager.mergeShared
    rw [accepted]
    exact keyed
  | true =>
    have raised : (manager.raiseClock timestamp).Keyed := keyed
    exact raised.merge short
      (mergeShared_outcome manager origin name data timestamp isTombstone accepted)

theorem Keyed.mergeNamed {manager : FleeceStateManager} (keyed : manager.Keyed) {name : CString}
    (short : name.isShort = true) (owner : UInt64) (data : Blob) (timestamp : UInt64)
    (isTombstone : Bool) :
    (manager.mergeNamed owner name data timestamp isTombstone).1.Keyed := by
  cases accepted : mergeable name data isTombstone with
  | false =>
    unfold FleeceStateManager.mergeNamed
    rw [accepted]
    exact keyed
  | true =>
    by_cases own : owner = manager.nodeId
    · unfold FleeceStateManager.mergeNamed
      rw [accepted, if_neg (by decide), if_pos own]
      exact keyed
    · have touched : ((manager.touchPeer owner).raiseClock timestamp).Keyed :=
        keyed.of_same (touchPeer_fields manager owner)
      exact touched.merge short
        (mergeNamed_outcome manager owner name data timestamp isTombstone accepted own)

theorem FieldName.isShort (name : FieldName) : name.toCString.isShort = true :=
  decide_eq_true name.lengthLt

theorem Keyed.mergeRecords {manager : FleeceStateManager} (keyed : manager.Keyed) (owner : UInt64)
    (records : List GossipRecord) : (manager.mergeRecords owner records).Keyed := by
  induction records generalizing manager with
  | nil => exact keyed
  | cons record rest inductionHypothesis =>
    refine inductionHypothesis ?_
    unfold FleeceStateManager.mergeRecord
    split_ifs
    · exact keyed.mergeShared (FieldName.isShort record.name) _ _ _ _
    · exact keyed.mergeNamed (FieldName.isShort record.name) _ _ _ _

theorem Keyed.importFrom {manager : FleeceStateManager} (keyed : manager.Keyed) (frame : Blob) :
    (manager.importFrom frame).manager.Keyed := by
  rw [importFrom_manager]
  cases parseFrame manager.nodeId frame with
  | error halt => exact keyed
  | ok parsed =>
    have touched : (manager.touchPeer parsed.senderNodeId).Keyed :=
      keyed.of_same (touchPeer_fields manager _)
    exact touched.mergeRecords _ _

theorem Keyed.operation {manager : FleeceStateManager} (keyed : manager.Keyed)
    {operation : Operation} (short : operation.isShort = true) :
    (operation.next manager).Keyed := by
  cases operation with
  | write change => exact keyed.write short
  | query asked => exact keyed
  | mergeNamed owner name data timestamp isTombstone => exact keyed.mergeNamed short _ _ _ _
  | mergeShared origin name data timestamp isTombstone => exact keyed.mergeShared short _ _ _ _
  | importFrom frame => exact keyed.importFrom frame
  | exportSharedDeltaBounded since capBytes =>
    exact keyed.of_unmarked
      (markSteps_rest (exportSharedDeltaBounded_steps manager since capBytes)).2
  | tick => exact keyed
  | compact => exact keyed.compact

theorem keyed_create {nodeId : UInt64} {manager : FleeceStateManager}
    (created : createWithNodeId nodeId = some manager) : manager.Keyed := by
  unfold createWithNodeId at created
  split_ifs at created
  rw [← Option.some.inj created]
  exact fun i present => absurd present Bool.false_ne_true

/-- In a run that only gives names of at most 63 bytes the key of every named slot is the hash of
its name. -/
theorem keyed_after {nodeId : UInt64} {manager : FleeceStateManager}
    (created : createWithNodeId nodeId = some manager) {operations : List Operation}
    (short : ∀ operation ∈ operations, operation.isShort = true) :
    (manager.after operations).Keyed := by
  have along : Along Operation.next (fun _ operation => operation.isShort = true) manager
    operations := Along.of_forall short
  exact along.invariant (fun _ _ keyed fits => keyed.operation fits) (keyed_create created)

/-! ### What a program reads of a field -/

theorem getNamed_eq (manager : FleeceStateManager) (owner : UInt64) (name : CString) :
    manager.getNamed owner name =
      (manager.liveView (hashName name, owner)).map GossipRecord.data := by
  rw [← map_findFieldOwned, Option.map_map]
  rfl

theorem existsNamed_eq (manager : FleeceStateManager) (owner : UInt64) (name : CString) :
    manager.existsNamed owner name = (manager.liveView (hashName name, owner)).isSome := by
  rw [← map_findFieldOwned, Option.isSome_map]
  rfl

theorem getMetaNamed_eq (manager : FleeceStateManager) (owner : UInt64) (name : CString) :
    manager.getMetaNamed owner name = (manager.liveView (hashName name, owner)).elim (-1, 0, 0)
      fun record => (0, record.timestamp, record.originNodeId) := by
  rw [← map_findFieldOwned]
  unfold getMetaNamed
  cases manager.findFieldOwned (hashName name) owner with
  | none => rfl
  | some i => rfl

/-- The live entries of an owner that a listing shows under a name. -/
def isListedAs (owner : UInt64) (name : CString) (f : FieldEntry) : Bool :=
  isLiveNamed owner f && f.name.toCString == name

/-- How often a listing shows a name. -/
def timesListed (manager : FleeceStateManager) (owner : UInt64) (maxNames : Nat) (name : CString) :
    Nat :=
  ((manager.listFields owner maxNames).filter fun listed => listed.toCString == name).length

/-- A listing has room for all live names of its owner. -/
def ListsAll (manager : FleeceStateManager) (owner : UInt64) (maxNames : Nat) : Prop :=
  (manager.slots.filter (isLiveNamed owner)).length ≤ maxNames

theorem timesListed_eq {manager : FleeceStateManager} {owner : UInt64} {maxNames : Nat}
    (whole : manager.ListsAll owner maxNames) (name : CString) :
    manager.timesListed owner maxNames name = manager.slots.countP (isListedAs owner name) := by
  unfold timesListed listFields
  rw [List.take_of_length_le (by rw [List.length_map]; exact whole), List.filter_map,
    List.length_map, List.filter_filter, List.countP_eq_length_filter]
  congr 2
  ext f
  exact Bool.and_comm _ _

/-- The reads of a field give the same in both stores: its value, whether it exists, its version,
and how often a listing with room for all names shows it. -/
structure SameReads (manager next : FleeceStateManager) (owner : UInt64) (name : CString) : Prop
    where
  getNamed : next.getNamed owner name = manager.getNamed owner name
  existsNamed : next.existsNamed owner name = manager.existsNamed owner name
  getMetaNamed : next.getMetaNamed owner name = manager.getMetaNamed owner name
  listFields : ∀ maxNames, manager.ListsAll owner maxNames → next.ListsAll owner maxNames →
    next.timesListed owner maxNames name = manager.timesListed owner maxNames name

/-! ### Where a write of a field goes -/

/-- The slot a record under the pair goes to: its own, or the one at `field_count`. -/
def slotFor (manager : FleeceStateManager) (pair : UInt32 × UInt64) :
    Option (Fin fieldCapacity) :=
  match manager.findSlotOwned pair.1 pair.2 with
  | some i => some i
  | none => if room : manager.fieldCount < fieldCapacity then some ⟨manager.fieldCount, room⟩
      else none

theorem Stored.slotFor {manager next : FleeceStateManager} {f : FieldEntry}
    (stored : Stored manager next f) : ∃ i, manager.slotFor (f.key, f.nodeId) = some i ∧
      next.fields = Function.update manager.fields i f := by
  unfold FleeceStateManager.slotFor
  cases stored with
  | inPlace i found fields count present marked => exact ⟨i, by rw [found], fields⟩
  | appended absent room fields count present marked =>
    exact ⟨⟨manager.fieldCount, room⟩, by rw [absent, dif_pos room], fields⟩

/-- The pair under which a slot holds a live entry. -/
def liveLabel (f : FieldEntry) : Option (UInt32 × UInt64) :=
  if f.isTombstone then none else fieldLabel f

theorem liveLabel_eq_some_iff {f : FieldEntry} {pair : UInt32 × UInt64} :
    liveLabel f = some pair ↔ fieldLabel f = some pair ∧ f.isTombstone = false := by
  unfold liveLabel
  cases f.isTombstone with
  | false => exact ⟨fun labelled => ⟨labelled, rfl⟩, And.left⟩
  | true => exact ⟨nofun, fun labelled => nomatch labelled.2⟩

theorem distinct_liveLabel {manager : FleeceStateManager} (distinct : manager.DistinctSlots) :
    Slots.Distinct liveLabel manager.fields := by
  intro i j wanted first second
  exact distinct i j wanted (liveLabel_eq_some_iff.mp first).1 (liveLabel_eq_some_iff.mp second).1

/-- A live record is what a slot with its live label holds. -/
theorem liveView_eq {manager : FleeceStateManager} (distinct : manager.DistinctSlots)
    (pair : UInt32 × UInt64) :
    manager.liveView pair = (Slots.lookup liveLabel manager.fields pair).map FieldEntry.record := by
  ext record
  constructor
  · intro live
    obtain ⟨held, alive⟩ := Option.filter_eq_some_iff.mp live
    obtain ⟨f, found, rfl⟩ := Option.map_eq_some_iff.mp held
    obtain ⟨i, rfl, labelled⟩ := Slots.exists_of_lookup found
    rw [Slots.lookup_eq_of_label (distinct_liveLabel distinct)
      (liveLabel_eq_some_iff.mpr ⟨labelled, (Bool.not_eq_true' _).mp alive⟩)]
    rfl
  · intro live
    obtain ⟨f, found, rfl⟩ := Option.map_eq_some_iff.mp live
    obtain ⟨i, rfl, labelled⟩ := Slots.exists_of_lookup found
    obtain ⟨label, alive⟩ := liveLabel_eq_some_iff.mp labelled
    refine Option.filter_eq_some_iff.mpr ⟨?_, (Bool.not_eq_true' _).mpr alive⟩
    show (Slots.lookup fieldLabel manager.fields (pair.1, pair.2)).map FieldEntry.record = _
    rw [Slots.lookup_eq_of_label distinct label]
    rfl

/-- The slot holds a live field of the owner that reads of the name find or listings show. -/
def Bears (owner : UInt64) (name : CString) (f : FieldEntry) : Prop :=
  liveLabel f = some (hashName name, owner) ∨ isListedAs owner name f = true

instance (owner : UInt64) (name : CString) (f : FieldEntry) : Decidable (Bears owner name f) :=
  inferInstanceAs (Decidable (_ ∨ _))

/-- Overwriting a slot that does not bear a name with one that does not leaves its reads alone. -/
theorem sameReads_of_update {manager next : FleeceStateManager} {owner : UInt64} {name : CString}
    (distinct : manager.DistinctSlots) (distinctNext : next.DistinctSlots)
    {i : Fin fieldCapacity} {f : FieldEntry}
    (fields : next.fields = Function.update manager.fields i f)
    (oldOther : ¬ Bears owner name (manager.fields i)) (newOther : ¬ Bears owner name f) :
    manager.SameReads next owner name := by
  have live : next.liveView (hashName name, owner) = manager.liveView (hashName name, owner) := by
    rw [liveView_eq distinct, liveView_eq distinctNext, fields,
      Slots.lookup_update_of_ne i (oldOther ∘ Or.inl) (newOther ∘ Or.inl)]
  refine ⟨?_, ?_, ?_, fun maxNames whole wholeNext => ?_⟩
  · rw [getNamed_eq, getNamed_eq, live]
  · rw [existsNamed_eq, existsNamed_eq, live]
  · rw [getMetaNamed_eq, getMetaNamed_eq, live]
  · rw [timesListed_eq whole, timesListed_eq wholeNext]
    have counted := Slots.countP_update manager.fields i f (isListedAs owner name)
    rw [if_neg (oldOther ∘ Or.inr), if_neg (newOther ∘ Or.inr), ← fields] at counted
    exact counted

end FleeceStateManager

/-- The writes of one field: of a shared one, or of one of the local node's own. -/
inductive FieldWrite where
  | setShared (data : Blob)
  | removeShared
  | setSharedCas (expected : Option Blob) (data : Blob)
  | mergeShared (originNodeId : UInt64) (data : Blob) (remoteTimestamp : UInt64)
      (isTombstone : Bool)
  | setNamed (data : Blob)
  | removeNamed

namespace FieldWrite

/-- The write as an operation of the store, on the field with the name. -/
def operation (name : CString) : FieldWrite → Operation
  | .setShared data => .write (.setShared name data)
  | .removeShared => .write (.removeShared name)
  | .setSharedCas expected data => .write (.setSharedCas name expected data)
  | .mergeShared origin data timestamp isTombstone =>
    .mergeShared origin name data timestamp isTombstone
  | .setNamed data => .write (.setNamed name data)
  | .removeNamed => .write (.removeNamed name)

/-- The owner of the field that is written. -/
def owner (nodeId : UInt64) : FieldWrite → UInt64
  | .setNamed _ => nodeId
  | .removeNamed => nodeId
  | _ => sharedOwnerId

end FieldWrite

namespace FleeceStateManager

/-- What a successful write of a field does: nothing, or it fills the slot of the field with its
record, which is a tombstone or has the name that was given. -/
inductive FieldEffect (manager next : FleeceStateManager) (owner : UInt64) (name : CString) : Prop
  | same (fields : next.fields = manager.fields)
  | filled (i : Fin fieldCapacity) (f : FieldEntry)
      (slot : manager.slotFor (hashName name, owner) = some i)
      (fields : next.fields = Function.update manager.fields i f)
      (label : fieldLabel f = some (hashName name, owner))
      (named : f.isTombstone = true ∨ f.name = .copy name)

theorem Stored.fieldEffect {manager next : FleeceStateManager} {f : FieldEntry} {owner : UInt64}
    {name : CString} (stored : Stored manager next f)
    (pair : (f.key, f.nodeId) = (hashName name, owner))
    (named : f.isTombstone = true ∨ f.name = .copy name) :
    manager.FieldEffect next owner name := by
  obtain ⟨i, slot, fields⟩ := stored.slotFor
  obtain ⟨_, _, present, _⟩ := stored.index
  rw [pair] at slot
  exact .filled i f slot fields ((fieldLabel_of_exists present).trans (congrArg some pair)) named

/-- A local write that is given a name and succeeds has filled the slot of the name. -/
theorem fieldEffect_of_write {manager : FleeceStateManager} {change : LocalWrite}
    {name : CString} {owner : UInt64} (given : change.name = some name)
    (target : change.target manager.nodeId = (hashName name, owner))
    (success : (change.exec manager).2 = 0) :
    manager.FieldEffect (change.exec manager).1 owner name := by
  have outcome := exec_outcome manager change
  generalize asked : change.request manager.nodeId manager.localTimestamp manager.view =
    request at outcome
  generalize change.exec manager = result at outcome success ⊢
  cases outcome with
  | refused code denied =>
    rcases LocalWrite.code_of_refused (asked.trans denied) with failed | failed
    · exact absurd (failed.symm.trans success) (by decide)
    · exact absurd (failed.symm.trans success) (by decide)
  | noSlot next pair record accepted => exact absurd (show (-1 : Int) = 0 from success) (by decide)
  | wrote next f accepted stored =>
    have pair := LocalWrite.target_of_request (asked.trans accepted)
    refine stored.fieldEffect (pair.trans target) ?_
    rcases LocalWrite.name_of_request (asked.trans accepted) with
      ⟨other, same, _, copied⟩ | ⟨old, _, _, unnamed | buried⟩ | ⟨unnamed, _⟩
    · rw [Option.some.inj (given.symm.trans same)]
      exact Or.inr copied
    · rw [given] at unnamed
      cases unnamed
    · exact Or.inl buried
    · rw [given] at unnamed
      cases unnamed

theorem fieldEffect_of_success {manager : FleeceStateManager} {change : FieldWrite}
    {name : CString} (success : ((change.operation name).exec manager).2 = .code 0) :
    manager.FieldEffect ((change.operation name).next manager) (change.owner manager.nodeId)
      name := by
  have write {change : LocalWrite} {owner : UInt64} (given : change.name = some name)
      (target : change.target manager.nodeId = (hashName name, owner))
      (success : ((Operation.write change).exec manager).2 = .code 0) :
      manager.FieldEffect ((Operation.write change).next manager) owner name :=
    fieldEffect_of_write given target (Output.code.inj success)
  cases change with
  | setShared data => exact write rfl rfl success
  | removeShared => exact write rfl rfl success
  | setSharedCas expected data => exact write rfl rfl success
  | setNamed data => exact write rfl rfl success
  | removeNamed => exact write rfl rfl success
  | mergeShared origin data timestamp isTombstone =>
    show manager.FieldEffect (manager.mergeShared origin name data timestamp isTombstone).1 _ _
    cases accepted : mergeable name data isTombstone with
    | false =>
      unfold mergeShared
      rw [accepted]
      exact .same rfl
    | true =>
      have outcome := mergeShared_outcome manager origin name data timestamp isTombstone accepted
      generalize manager.mergeShared origin name data timestamp isTombstone = result at outcome ⊢
      cases outcome with
      | kept old found stays => exact .same rfl
      | noSlot absent full => exact .same rfl
      | stored next f storedAt rest label held newer =>
        have storedHere : Stored manager next f := storedAt.of_same rfl rfl rfl rfl
        exact storedHere.fieldEffect label (Or.inr (congrArg GossipRecord.name held))

/-! ### Isolation -/

/-- No successful write of the second field of the owner changes a read of the first. -/
def Isolated (manager : FleeceStateManager) (owner : UInt64) (first second : CString) : Prop :=
  ∀ change : FieldWrite, change.owner manager.nodeId = owner →
    ((change.operation second).exec manager).2 = .code 0 →
    manager.SameReads ((change.operation second).next manager) owner first

/-- If a write of the second name finds a slot, the names have different hashes and the slot does
not bear the first. -/
def KeepsApart (manager : FleeceStateManager) (owner : UInt64) (first second : CString) : Prop :=
  ∀ i, manager.slotFor (hashName second, owner) = some i →
    hashName first ≠ hashName second ∧ ¬ Bears owner first (manager.fields i)

instance (manager : FleeceStateManager) (owner : UInt64) (first second : CString) :
    Decidable (manager.KeepsApart owner first second) :=
  inferInstanceAs (Decidable (∀ _, _ → _))

theorem not_bears_of_named {owner : UInt64} {first second : CString} (short : second.isShort = true)
    (different : first ≠ second) (apart : hashName first ≠ hashName second) {f : FieldEntry}
    (label : fieldLabel f = some (hashName second, owner))
    (named : f.isTombstone = true ∨ f.name = .copy second) : ¬ Bears owner first f := by
  rintro (found | listed)
  · have same := (liveLabel_eq_some_iff.mp found).1.symm.trans label
    exact apart (Prod.mk.inj (Option.some.inj same)).1
  · obtain ⟨live, shown⟩ := Bool.and_eq_true_iff.mp listed
    rcases named with dead | copied
    · rw [isLiveNamed, dead, Bool.not_true, Bool.and_false, Bool.false_and, Bool.false_and] at live
      cases live
    · rw [copied, CString.copy_of_isShort short] at shown
      exact different (beq_iff_eq.mp shown).symm

theorem KeepsApart.isolated {manager : FleeceStateManager} {owner : UInt64} {first second : CString}
    (keeps : manager.KeepsApart owner first second) (store : manager.StoreInvariant)
    (short : second.isShort = true) (different : first ≠ second) :
    manager.Isolated owner first second := by
  intro change stream success
  have storeNext := operation_storeInvariant store (change.operation second)
  have effect := fieldEffect_of_success success
  rw [stream] at effect
  cases effect with
  | same fields =>
    have live : ((change.operation second).next manager).liveView = manager.liveView := by
      funext pair
      rw [liveView_eq store.distinct, liveView_eq storeNext.distinct, fields]
    refine ⟨?_, ?_, ?_, fun maxNames whole wholeNext => ?_⟩
    · rw [getNamed_eq, getNamed_eq, live]
    · rw [existsNamed_eq, existsNamed_eq, live]
    · rw [getMetaNamed_eq, getMetaNamed_eq, live]
    · rw [timesListed_eq whole, timesListed_eq wholeNext, slots, slots, fields]
  | filled i f slot fields label named =>
    obtain ⟨apart, free⟩ := keeps i slot
    exact sameReads_of_update store.distinct storeNext.distinct fields free
      (not_bears_of_named short different apart label named)

/-- A request that finds a slot is stored there. -/
theorem wrote_of_request {manager : FleeceStateManager} {change : LocalWrite}
    {pair : UInt32 × UInt64} {record : GossipRecord}
    (asked : change.request manager.nodeId manager.localTimestamp manager.view =
      .ok (pair, record)) {i : Fin fieldCapacity} (slot : manager.slotFor pair = some i) :
    (change.exec manager).2 = 0 ∧ ∃ f, Stored manager (change.exec manager).1 f ∧
      (f.key, f.nodeId) = pair ∧ f.record = record ∧
      (change.exec manager).1.fields = Function.update manager.fields i f := by
  have outcome := exec_outcome manager change
  rw [asked] at outcome
  generalize change.exec manager = result at outcome ⊢
  cases outcome with
  | refused code denied => cases denied
  | noSlot next other stored accepted absent full =>
    obtain ⟨rfl, rfl⟩ := Prod.mk.inj (Except.ok.inj accepted)
    have missing : manager.findSlotOwned pair.1 pair.2 = none := view_eq_none_iff.mp absent
    unfold slotFor at slot
    rw [missing] at slot
    exact absurd (slot.symm.trans (dif_neg (not_lt.mpr full))) (by simp)
  | wrote next f accepted stored =>
    obtain ⟨rfl, rfl⟩ := Prod.mk.inj (Except.ok.inj accepted)
    obtain ⟨j, place, fields⟩ := stored.slotFor
    rw [Option.some.inj (place.symm.trans slot)] at fields
    exact ⟨rfl, f, stored, rfl, rfl, fields⟩

/-- A set of a field that finds a slot succeeds, and the field then has the value. -/
theorem set_field {manager : FleeceStateManager} (store : manager.StoreInvariant) {owner : UInt64}
    (stream : owner = sharedOwnerId ∨ owner = manager.nodeId) {name : CString}
    (nonempty : name.chars ≠ []) {data : Blob} (filled : data.size ≠ 0) {i : Fin fieldCapacity}
    (slot : manager.slotFor (hashName name, owner) = some i) :
    ∃ change : FieldWrite, change.owner manager.nodeId = owner ∧
      ((change.operation name).exec manager).2 = .code 0 ∧
      ((change.operation name).next manager).getNamed owner name = some data ∧
      ∃ f, fieldLabel f = some (hashName name, owner) ∧ f.name = .copy name ∧
        ((change.operation name).next manager).fields = Function.update manager.fields i f := by
  have accepted : (name.chars.isEmpty || data.size == 0) = false := by
    rw [Bool.or_eq_false_iff, beq_eq_false_iff_ne, List.isEmpty_eq_false_iff]
    exact ⟨nonempty, filled⟩
  have stores {change : LocalWrite}
      (asked : change.request manager.nodeId manager.localTimestamp manager.view =
        .ok ((hashName name, owner),
          .upserted manager.nodeId (.copy name) data (manager.localTimestamp + 1) false)) :
      ((Operation.write change).exec manager).2 = .code 0 ∧
        ((Operation.write change).next manager).getNamed owner name = some data ∧
        ∃ f, fieldLabel f = some (hashName name, owner) ∧ f.name = .copy name ∧
          ((Operation.write change).next manager).fields =
            Function.update manager.fields i f := by
    obtain ⟨code, f, stored, pair, held, fields⟩ := wrote_of_request asked slot
    obtain ⟨keyEq, ownerEq⟩ := Prod.mk.inj pair
    obtain ⟨_, _, present, _⟩ := stored.index
    have label := (fieldLabel_of_exists present).trans (congrArg some pair)
    have found : (change.exec manager).1.view (hashName name, owner) = some f.record := by
      rw [view, ← keyEq, ← ownerEq, stored.lookup_self store.distinct, Option.map_some]
    refine ⟨congrArg Output.code code, ?_, f, label, congrArg GossipRecord.name held, fields⟩
    show (change.exec manager).1.getNamed owner name = some data
    rw [getNamed_eq, liveView, found, held]
    rfl
  rcases stream with rfl | rfl
  · refine ⟨.setShared data, rfl, stores ?_⟩
    simp only [LocalWrite.request, LocalWrite.request.put, accepted]
    rfl
  · refine ⟨.setNamed data, rfl, stores ?_⟩
    simp only [LocalWrite.request, LocalWrite.request.put, accepted]
    rfl

theorem Isolated.keepsApart {manager : FleeceStateManager} {owner : UInt64} {first second : CString}
    (isolated : manager.Isolated owner first second) (store : manager.StoreInvariant)
    (stream : owner = sharedOwnerId ∨ owner = manager.nodeId) (nonempty : second.chars ≠ [])
    (short : second.isShort = true) (different : first ≠ second) :
    manager.KeepsApart owner first second := by
  intro i slot
  have single (byte : UInt8) : (⟨[byte], by simp⟩ : Blob).size ≠ 0 := Nat.one_ne_zero
  have apart : hashName first ≠ hashName second := by
    intro same
    -- whatever the second field is set to, the first would have had that value before
    have reads (byte : UInt8) : manager.getNamed owner first = some ⟨[byte], by simp⟩ := by
      obtain ⟨change, owned, success, value, _⟩ := set_field store stream nonempty (single byte) slot
      rw [← (isolated change owned success).getNamed, getNamed_eq, same, ← getNamed_eq]
      exact value
    have clash := (reads 0).symm.trans (reads 1)
    simp at clash
  refine ⟨apart, fun bears => ?_⟩
  obtain ⟨change, owned, success, _, f, label, named, fields⟩ :=
    set_field store stream nonempty (single 0) slot
  have storeNext := operation_storeInvariant store (change.operation second)
  have free := not_bears_of_named short different apart label (Or.inr named)
  have reads := isolated change owned success
  rcases bears with found | listed
  · have before : manager.existsNamed owner first = true := by
      rw [existsNamed_eq, liveView_eq store.distinct,
        Slots.lookup_eq_of_label (distinct_liveLabel store.distinct) found]
      rfl
    have after : ((change.operation second).next manager).existsNamed owner first = false := by
      rw [existsNamed_eq, liveView_eq storeNext.distinct, Slots.lookup_eq_none_iff.mpr]
      · rfl
      · intro j
        rw [fields]
        rcases eq_or_ne j i with rfl | other
        · rw [Function.update_self]
          exact free ∘ Or.inl
        · rw [Function.update_of_ne other]
          exact fun labelled => other (distinct_liveLabel store.distinct j i _ labelled found)
    rw [reads.existsNamed, before] at after
    cases after
  · have counted := Slots.countP_update manager.fields i f (isListedAs owner first)
    rw [if_pos listed, if_neg (free ∘ Or.inr), ← fields] at counted
    have same := reads.listFields
      (max (manager.slots.filter (isLiveNamed owner)).length
        (((change.operation second).next manager).slots.filter (isLiveNamed owner)).length)
      (le_max_left _ _) (le_max_right _ _)
    rw [timesListed_eq (le_max_left _ _), timesListed_eq (le_max_right _ _)] at same
    have less : ((change.operation second).next manager).slots.countP (isListedAs owner first) + 1 =
      manager.slots.countP (isListedAs owner first) := counted
    rw [same] at less
    exact Nat.succ_ne_self _ less

/-- In every state that is reached, the shared fields of two names, and likewise the local node's
own ones, are isolated exactly if a write of the second keeps away from what bears the first. -/
theorem fields_isolated_iff {nodeId : UInt64} {manager : FleeceStateManager}
    (created : createWithNodeId nodeId = some manager) (operations : List Operation)
    {owner : UInt64} (stream : owner = sharedOwnerId ∨ owner = nodeId) {first second : CString}
    (nonempty : second.chars ≠ []) (short : second.chars.length < fieldNameMax)
    (different : first ≠ second) :
    (manager.after operations).Isolated owner first second ↔
      (manager.after operations).KeepsApart owner first second := by
  have store := storeInvariant_after created operations
  have shortName : second.isShort = true := decide_eq_true short
  constructor
  · intro isolated
    refine isolated.keepsApart store ?_ nonempty shortName different
    rwa [node_after created operations]
  · intro keeps
    exact keeps.isolated store shortName different

theorem fields_isolated_iff_written :
    let value : Blob := ⟨[1], by decide⟩
    let goal : CString := ⟨[0x67], by decide⟩
    let home : CString := ⟨[0x68], by decide⟩
    ((blank 7).after [.write (.setShared goal value)]).Isolated sharedOwnerId goal home ∧
      ((blank 7).after [.write (.setShared goal value)]).getNamed sharedOwnerId goal =
        some value := by
  intro value goal home
  refine ⟨(fields_isolated_iff (show createWithNodeId 7 = some (blank 7) from rfl) _ (Or.inl rfl)
    (by decide) (by decide) (by decide)).mpr ?_, ?_⟩
  · decide +kernel
  · decide +kernel

/-- `costarring` and `liquid` have the same 32-bit hash: a value set under the one is read under
the other. -/
theorem fields_collide :
    let value : Blob := ⟨[1], by decide⟩
    let costarring : CString :=
      ⟨[0x63, 0x6f, 0x73, 0x74, 0x61, 0x72, 0x72, 0x69, 0x6e, 0x67], by decide⟩
    let liquid : CString := ⟨[0x6c, 0x69, 0x71, 0x75, 0x69, 0x64], by decide⟩
    costarring ≠ liquid ∧ ((blank 7).setShared liquid value).2 = 0 ∧
      (blank 7).getNamed sharedOwnerId costarring = none ∧
      ((blank 7).setShared liquid value).1.getNamed sharedOwnerId costarring = some value ∧
      ((blank 7).setNamed liquid value).2 = 0 ∧
      (blank 7).getNamed 7 costarring = none ∧
      ((blank 7).setNamed liquid value).1.getNamed 7 costarring = some value := by
  decide +kernel

end FleeceStateManager

end Fleece
