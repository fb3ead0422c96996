/-
This file lists the operations of the state manager and says what each of them
does to the array, read as a map from pairs of a key and an owner to records. A
local write asks for one record under one pair (`LocalWrite.request`), and either
the request is refused, or there is no slot for it, or the record is stored. A
merge stores the peer's record unless the one under its pair outranks it. Every
other operation stores nothing, and this is where each of them is shown to be one
of the steps of `Fleece/Store.lean`.
-/

import Fleece.Versions

namespace Fleece

/-! ### The operations -/

/-- The local writes and deletes. -/
inductive LocalWrite where
  | set (key : UInt32) (data : Blob)
  | remove (key : UInt32)
  | setNamed (name : CString) (data : Blob)
  | removeNamed (name : CString)
  | setShared (name : CString) (data : Blob)
  | removeShared (name : CString)
  | setSharedCas (name : CString) (expected : Option Blob) (data : Blob)

/-- The operations that only read. -/
inductive Query where
  | get (key : UInt32)
  | existsField (key : UInt32)
  | getVersion (key : UInt32)
  | getNamed (ownerNodeId : UInt64) (name : CString)
  | existsNamed (ownerNodeId : UInt64) (name : CString)
  | getMetaNamed (ownerNodeId : UInt64) (name : CString)
  | sharedAtLeast (keyHash : UInt32) (timestamp : UInt64)
  | listNodes (maxNodes : Nat)
  | listFields (ownerNodeId : UInt64) (maxNames : Nat)
  | streamDigest (ownerNodeId : UInt64)
  | selfHw
  | sharedHw
  | peerSelfHw (peerId : UInt64)
  | countNewShared (sinceTimestamp : UInt64)
  | exportFrame
  | exportDelta (sinceTimestamp : UInt64)
  | exportShared
  | exportSharedDelta (sinceTimestamp : UInt64)
  | exportSharedIndex
  | exportSharedByHash (hashes : List UInt32)
  | listHeardPeers (maxNodes : Nat)
  | ticksSinceSeen (nodeId : UInt64)
  | ticksSinceLastWrite

/-- The operations of the state manager. -/
inductive Operation where
  | write (change : LocalWrite)
  | query (asked : Query)
  | mergeNamed (ownerNodeId : UInt64) (name : CString) (data : Blob) (remoteTimestamp : UInt64)
      (isTombstone : Bool)
  | mergeShared (originNodeId : UInt64) (name : CString) (data : Blob) (remoteTimestamp : UInt64)
      (isTombstone : Bool)
  | importFrom (frame : Blob)
  | exportSharedDeltaBounded (sinceTimestamp : UInt64) (capBytes : Nat)
  | tick
  | compact

/-- What an operation returns, its out-parameters included. -/
inductive Output where
  | nothing
  | code (code : Int)
  | value (value : Option Blob)
  | flag (flag : Bool)
  | version (version : Option FleeceFieldVersion)
  | metadata (code : Int) (timestamp originNodeId : UInt64)
  | nodes (nodes : List UInt64)
  | names (names : List FieldName)
  | word (word : UInt64)
  | count (count : Nat)
  | frame (frame : Blob)
  | bounded (frame : Blob) (includedMaxTs : UInt64)
  | imported (code : Int) (senderNodeId : Option UInt64) (behindSelf behindShared : Option Bool)
  deriving DecidableEq

/-- The store after a write, and the code that it returns. -/
def LocalWrite.exec (manager : FleeceStateManager) : LocalWrite → FleeceStateManager × Int
  | .set key data => manager.set key data
  | .remove key => manager.remove key
  | .setNamed name data => manager.setNamed name data
  | .removeNamed name => manager.removeNamed name
  | .setShared name data => manager.setShared name data
  | .removeShared name => manager.removeShared name
  | .setSharedCas name expected data => manager.setSharedCas name expected data

/-- The answer of the store. -/
def Query.answer (manager : FleeceStateManager) : Query → Output
  | .get key => .value (manager.get key)
  | .existsField key => .flag (manager.existsField key)
  | .getVersion key => .version (manager.getVersion key)
  | .getNamed owner name => .value (manager.getNamed owner name)
  | .existsNamed owner name => .flag (manager.existsNamed owner name)
  | .getMetaNamed owner name =>
    let found := manager.getMetaNamed owner name
    .metadata found.1 found.2.1 found.2.2
  | .sharedAtLeast keyHash timestamp => .code (manager.sharedAtLeast keyHash timestamp)
  | .listNodes maxNodes => .nodes (manager.listNodes maxNodes)
  | .listFields owner maxNames => .names (manager.listFields owner maxNames)
  | .streamDigest owner => .word (manager.computeStreamDigest owner)
  | .selfHw => .word manager.getSelfHw
  | .sharedHw => .word manager.getSharedHw
  | .peerSelfHw peerId => .word (manager.getPeerSelfHw peerId)
  | .countNewShared since => .count (manager.countNewShared since)
  | .exportFrame => .frame manager.exportFrame
  | .exportDelta since => .frame (manager.exportDelta since)
  | .exportShared => .frame manager.exportShared
  | .exportSharedDelta since => .frame (manager.exportSharedDelta since)
  | .exportSharedIndex => .frame manager.exportSharedIndex
  | .exportSharedByHash hashes => .frame (manager.exportSharedByHash hashes)
  | .listHeardPeers maxNodes => .nodes (manager.listHeardPeers maxNodes)
  | .ticksSinceSeen nodeId => .word (manager.ticksSinceSeen nodeId)
  | .ticksSinceLastWrite => .word manager.ticksSinceLastWrite

/-- The code of an import: 0, or -1 wherever it stopped. -/
def importCode : Except Halt Unit → Int
  | .ok () => 0
  | .error _ => -1

/-- The store after an operation, and what it returns. -/
def Operation.exec (manager : FleeceStateManager) : Operation → FleeceStateManager × Output
  | .write change => ((change.exec manager).1, .code (change.exec manager).2)
  | .query asked => (manager, asked.answer manager)
  | .mergeNamed owner name data timestamp isTombstone =>
    let merged := manager.mergeNamed owner name data timestamp isTombstone
    (merged.1, .code merged.2)
  | .mergeShared origin name data timestamp isTombstone =>
    let merged := manager.mergeShared origin name data timestamp isTombstone
    (merged.1, .code merged.2)
  | .importFrom frame =>
    let result := manager.importFrom frame
    (result.manager, .imported (importCode result.code) result.senderNodeId result.behindSelf
      result.behindShared)
  | .exportSharedDeltaBounded since capBytes =>
    let exported := manager.exportSharedDeltaBounded since capBytes
    (exported.manager, .bounded exported.frame exported.includedMaxTs)
  | .tick => (manager.tick, .nothing)
  | .compact => (manager.compact, .nothing)

/-- The manager an operation leaves behind. -/
def Operation.next (manager : FleeceStateManager) (operation : Operation) : FleeceStateManager :=
  (operation.exec manager).1

namespace FleeceStateManager

/-! ### The array as a map -/

/-- The record under a pair of a key and an owner, live or a tombstone. -/
def view (manager : FleeceStateManager) (pair : UInt32 × UInt64) : Option GossipRecord :=
  (manager.lookup pair.1 pair.2).map FieldEntry.record

/-- The record under a pair, if it is live. -/
def liveView (manager : FleeceStateManager) (pair : UInt32 × UInt64) : Option GossipRecord :=
  (manager.view pair).filter fun record => !record.isTombstone

theorem view_of_findSlotOwned {manager : FleeceStateManager} {key : UInt32} {owner : UInt64}
    {i : Fin fieldCapacity} (found : manager.findSlotOwned key owner = some i) :
    manager.view (key, owner) = some (manager.fields i).record := by
  rw [view, lookup_of_findSlotOwned found, Option.map_some]

theorem view_eq_none_iff {manager : FleeceStateManager} {key : UInt32} {owner : UInt64} :
    manager.view (key, owner) = none ↔ manager.findSlotOwned key owner = none := by
  rw [view, Option.map_eq_none_iff, lookup_eq_none_iff]

/-- A lookup of a live field is a lookup in the map. -/
theorem map_findFieldOwned (manager : FleeceStateManager) (key : UInt32) (owner : UInt64) :
    (manager.findFieldOwned key owner).map (fun i => (manager.fields i).record) =
      manager.liveView (key, owner) := by
  unfold findFieldOwned liveView
  cases found : manager.findSlotOwned key owner with
  | none => rw [view_eq_none_iff.mpr found, Option.filter_none, Option.filter_none, Option.map_none]
  | some i =>
    rw [view_of_findSlotOwned found]
    by_cases dead : (manager.fields i).isTombstone
    · rw [Option.filter_some, Option.filter_some, if_neg (by simp [dead]),
        if_neg (by simp [FieldEntry.record, dead]), Option.map_none]
    · rw [Option.filter_some, Option.filter_some, if_pos (by simp [dead]),
        if_pos (by simp [FieldEntry.record, dead]), Option.map_some]

theorem findFieldOwned_eq_none_iff {manager : FleeceStateManager} {key : UInt32} {owner : UInt64} :
    manager.findFieldOwned key owner = none ↔ manager.liveView (key, owner) = none := by
  rw [← map_findFieldOwned, Option.map_eq_none_iff]

/-- A field that was found is live, and is the slot of its pair. -/
theorem findSlotOwned_of_findFieldOwned {manager : FleeceStateManager} {key : UInt32}
    {owner : UInt64} {i : Fin fieldCapacity}
    (found : manager.findFieldOwned key owner = some i) :
    manager.findSlotOwned key owner = some i ∧
      manager.liveView (key, owner) = some (manager.fields i).record := by
  refine ⟨(Option.filter_eq_some_iff.mp found).1, ?_⟩
  rw [← map_findFieldOwned, found, Option.map_some]

end FleeceStateManager

/-! ### Local writes -/

/-- The record `upsert_field` stores for its arguments. -/
def GossipRecord.upserted (originNodeId : UInt64) (name : FieldName) (data : Blob)
    (timestamp : UInt64) (isTombstone : Bool) : GossipRecord where
  originNodeId := originNodeId
  isTombstone := isTombstone
  name := name
  timestamp := timestamp
  data := if isTombstone then .empty else data

/-- A record after its delete. -/
def GossipRecord.buried (old : GossipRecord) (timestamp : UInt64) : GossipRecord :=
  { old with data := .empty, timestamp := timestamp, isTombstone := true }

/-- The pair a local write is about and the record it asks for there, read off the map; or the
code it is refused with. -/
def LocalWrite.request (nodeId clock : UInt64) (view : UInt32 × UInt64 → Option GossipRecord) :
    LocalWrite → Except Int ((UInt32 × UInt64) × GossipRecord)
  | .set key data =>
    if data.size = 0 then .error (-1)
    else .ok ((key, nodeId), .upserted nodeId
      (((view (key, nodeId)).map GossipRecord.name).getD .empty) data (clock + 1) false)
  | .remove key => bury (key, nodeId) id
  | .setNamed name data => put (name.chars.isEmpty || data.size == 0) name data nodeId
  | .removeNamed name => bury (hashName name, nodeId) id
  | .setShared name data => put (name.chars.isEmpty || data.size == 0) name data sharedOwnerId
  | .removeShared name =>
    bury (hashName name, sharedOwnerId) fun record => { record with originNodeId := nodeId }
  | .setSharedCas name expected data =>
    if name.chars.isEmpty || data.size == 0 then .error (-1)
    else if (live (hashName name, sharedOwnerId)).map GossipRecord.data = expected then
      put false name data sharedOwnerId
    else .error 1
where
  live (pair : UInt32 × UInt64) : Option GossipRecord :=
    (view pair).filter fun record => !record.isTombstone
  bury (pair : UInt32 × UInt64) (author : GossipRecord → GossipRecord) :
      Except Int ((UInt32 × UInt64) × GossipRecord) :=
    match live pair with
    | none => .error (-1)
    | some old => .ok (pair, author (old.buried (clock + 1)))
  put (refused : Bool) (name : CString) (data : Blob) (ownerNodeId : UInt64) :
      Except Int ((UInt32 × UInt64) × GossipRecord) :=
    if refused then .error (-1)
    else .ok ((hashName name, ownerNodeId), .upserted nodeId (.copy name) data (clock + 1) false)

/-- The pair of a key and an owner a local write is about. -/
def LocalWrite.target (nodeId : UInt64) : LocalWrite → UInt32 × UInt64
  | .set key _ => (key, nodeId)
  | .remove key => (key, nodeId)
  | .setNamed name _ => (hashName name, nodeId)
  | .removeNamed name => (hashName name, nodeId)
  | .setShared name _ => (hashName name, sharedOwnerId)
  | .removeShared name => (hashName name, sharedOwnerId)
  | .setSharedCas name _ _ => (hashName name, sharedOwnerId)

/-- The name a write is given. -/
def LocalWrite.name : LocalWrite → Option CString
  | .set _ _ => none
  | .remove _ => none
  | .setNamed name _ => some name
  | .removeNamed name => some name
  | .setShared name _ => some name
  | .removeShared name => some name
  | .setSharedCas name _ _ => some name

/-- What became of a local write. -/
inductive LocalWrite.Outcome (manager : FleeceStateManager)
    (request : Except Int ((UInt32 × UInt64) × GossipRecord)) :
    FleeceStateManager × Int → Prop
  | refused (code : Int) (denied : request = .error code) : Outcome manager request (manager, code)
  | noSlot (next : FleeceStateManager) (pair : UInt32 × UInt64) (record : GossipRecord)
      (asked : request = .ok (pair, record)) (absent : manager.view pair = none)
      (full : fieldCapacity ≤ manager.fieldCount) (fields : next.fields = manager.fields)
      (count : next.fieldCount = manager.fieldCount) (node : next.nodeId = manager.nodeId)
      (peers : next.peersSeen = manager.peersSeen) (tick : next.currentTick = manager.currentTick)
      (clock : next.localTimestamp = manager.localTimestamp + 1) :
      Outcome manager request (next, -1)
  | wrote (next : FleeceStateManager) (f : FieldEntry)
      (asked : request = .ok ((f.key, f.nodeId), f.record)) (stored : manager.Stored next f)
      (node : next.nodeId = manager.nodeId)
      (peers : next.peersSeen = manager.peersSeen) (tick : next.currentTick = manager.currentTick)
      (clock : next.localTimestamp = manager.localTimestamp + 1) :
      Outcome manager request (next, 0)

namespace FleeceStateManager

/-- `Stored` reads the array and the count of the manager it starts from. -/
theorem Stored.of_same {base manager next last : FleeceStateManager} {f : FieldEntry}
    (stored : Stored base next f) (fields : base.fields = manager.fields)
    (count : base.fieldCount = manager.fieldCount) (lastFields : last.fields = next.fields)
    (lastCount : last.fieldCount = next.fieldCount) : Stored manager last f := by
  have found : base.findSlotOwned f.key f.nodeId = manager.findSlotOwned f.key f.nodeId := by
    unfold findSlotOwned
    rw [fields]
  cases stored with
  | inPlace i foundBase fieldsEq countEq present marked =>
    refine .inPlace i (found ▸ foundBase) ?_ ?_ present ?_
    · rw [lastFields, fieldsEq, fields]
    · rw [lastCount, countEq, count]
    · rw [marked, fields]
  | appended absent room fieldsEq countEq present marked =>
    refine .appended (found ▸ absent) (count ▸ room) ?_ ?_ present ?_
    · rw [lastFields, fieldsEq, fields]
      congr 2
    · rw [lastCount, countEq, count]
    · rw [marked, fields]
      congr 3

theorem view_of_same {manager next : FleeceStateManager} (fields : next.fields = manager.fields) :
    next.view = manager.view := by
  funext pair
  unfold view lookup
  rw [fields]

/-- A write through `upsert_field`, from a manager that differs from the caller's in its clock
and its ticks. -/
theorem upsertField_outcome {manager base : FleeceStateManager} {key : UInt32} {owner : UInt64}
    {origin : UInt64} {name : Option CString} {data : Blob} {timestamp : UInt64}
    {stored : FieldName} (fields : base.fields = manager.fields)
    (count : base.fieldCount = manager.fieldCount) (node : base.nodeId = manager.nodeId)
    (peers : base.peersSeen = manager.peersSeen) (tick : base.currentTick = manager.currentTick)
    (clock : base.localTimestamp = manager.localTimestamp + 1)
    (named : stored = match name with
      | some name => .copy name
      | none => ((manager.view (key, owner)).map GossipRecord.name).getD .empty) :
    LocalWrite.Outcome manager
      (.ok ((key, owner), .upserted origin stored data timestamp false))
      (base.upsertField key owner origin name data timestamp false) := by
  rcases upsertField_cases base key owner origin name data timestamp false with
    ⟨result, absent, full⟩ | ⟨f, next, result, storedAt, rest, keyEq, ownerEq, recordEq⟩
  · rw [result]
    refine .noSlot base _ _ rfl ?_ (count ▸ full) fields count node peers tick clock
    rw [← view_of_same fields]
    exact view_eq_none_iff.mpr absent
  · rw [result]
    have asked : f.record = .upserted origin stored data timestamp false := by
      rw [recordEq, named, ← view_of_same fields]
      cases name with
      | some name => rfl
      | none =>
        unfold GossipRecord.upserted view
        rw [Option.map_map]
        rfl
    refine .wrote next f ?_ (storedAt.of_same fields count rfl rfl) ?_ ?_ ?_ ?_
    · rw [keyEq, ownerEq, asked]
    · rw [rest]
      exact node
    · rw [rest]
      exact peers
    · rw [rest]
      exact tick
    · rw [rest]
      exact clock

theorem liveOf_view (manager : FleeceStateManager) (pair : UInt32 × UInt64) :
    LocalWrite.request.live manager.view pair = manager.liveView pair := rfl

/-- A delete in place: the slot that was found is overwritten with its buried record. -/
theorem entomb_outcome {manager next : FleeceStateManager} {key : UInt32} {owner : UInt64}
    {author : GossipRecord → GossipRecord} {i : Fin fieldCapacity} {f : FieldEntry}
    (found : manager.findFieldOwned key owner = some i)
    (fields : next.fields = Function.update manager.fields i f)
    (label : f.slotExists = (manager.fields i).slotExists ∧ f.key = (manager.fields i).key ∧
      f.nodeId = (manager.fields i).nodeId ∧ f.lastExportTs = (manager.fields i).lastExportTs)
    (record : f.record = author ((manager.fields i).record.buried (manager.localTimestamp + 1)))
    (rest : next.fieldCount = manager.fieldCount ∧ next.nodeId = manager.nodeId ∧
      next.peersSeen = manager.peersSeen ∧ next.currentTick = manager.currentTick ∧
      next.localTimestamp = manager.localTimestamp + 1) :
    LocalWrite.Outcome manager
      (LocalWrite.request.bury manager.localTimestamp manager.view (key, owner) author)
      (next, 0) := by
  obtain ⟨slot, live⟩ := findSlotOwned_of_findFieldOwned found
  obtain ⟨present, keyEq, ownerEq⟩ := label_of_findSlotOwned slot
  obtain ⟨existsEq, sameKey, sameOwner, marked⟩ := label
  obtain ⟨count, node, peers, tick, clock⟩ := rest
  refine .wrote next f ?_ (.inPlace i ?_ fields count ?_ marked) node peers tick clock
  · unfold LocalWrite.request.bury
    rw [liveOf_view, live, record, sameKey, sameOwner, keyEq, ownerEq]
  · rw [sameKey, sameOwner, keyEq, ownerEq, slot]
  · rw [existsEq, present]

theorem bury_of_none {manager : FleeceStateManager} {key : UInt32} {owner : UInt64}
    {author : GossipRecord → GossipRecord} (absent : manager.findFieldOwned key owner = none) :
    LocalWrite.request.bury manager.localTimestamp manager.view (key, owner) author =
      .error (-1) := by
  unfold LocalWrite.request.bury
  rw [liveOf_view, findFieldOwned_eq_none_iff.mp absent]

theorem casMatches_iff (manager : FleeceStateManager) (name : CString) (expected : Option Blob) :
    manager.casMatches name expected = true ↔
      (manager.liveView (hashName name, sharedOwnerId)).map GossipRecord.data = expected := by
  unfold casMatches
  rw [← map_findFieldOwned, Option.map_map]
  cases expected <;> cases manager.findFieldOwned (hashName name) sharedOwnerId <;>
    simp [FieldEntry.record]

/-- The last lines of `set_shared_cas`, which note the write only after it succeeded. -/
theorem noteWrite_outcome {manager : FleeceStateManager} {stored : FleeceStateManager × Int}
    {asked : (UInt32 × UInt64) × GossipRecord}
    (outcome : LocalWrite.Outcome manager (.ok asked) stored) :
    LocalWrite.Outcome manager (.ok asked)
      (if stored.2 ≠ 0 then (stored.1, -1) else (stored.1.noteWrite, 0)) := by
  cases outcome with
  | refused code denied => cases denied
  | noSlot next pair record accepted absent full fields count node peers tick clock =>
    exact .noSlot next pair record accepted absent full fields count node peers tick clock
  | wrote next f accepted storedAt node peers tick clock =>
    exact .wrote next.noteWrite f accepted (storedAt.of_same rfl rfl rfl rfl) node peers tick clock

/-- Every local write does what it asks for, unless it is refused or finds no slot. -/
theorem exec_outcome (manager : FleeceStateManager) (change : LocalWrite) :
    LocalWrite.Outcome manager
      (change.request manager.nodeId manager.localTimestamp manager.view)
      (change.exec manager) := by
  cases change with
  | set key data =>
    simp only [LocalWrite.exec, LocalWrite.request, set]
    split_ifs
    · exact .refused (-1) rfl
    · exact upsertField_outcome rfl rfl rfl rfl rfl rfl rfl
  | remove key =>
    simp only [LocalWrite.exec, LocalWrite.request, remove, findField, entomb]
    cases found : manager.findFieldOwned key manager.nodeId with
    | none => exact .refused (-1) (bury_of_none found)
    | some i => exact entomb_outcome found rfl ⟨rfl, rfl, rfl, rfl⟩ rfl ⟨rfl, rfl, rfl, rfl, rfl⟩
  | setNamed name data =>
    simp only [LocalWrite.exec, LocalWrite.request, setNamed, LocalWrite.request.put]
    split_ifs
    · exact .refused (-1) rfl
    · exact upsertField_outcome rfl rfl rfl rfl rfl rfl rfl
  | removeNamed name =>
    simp only [LocalWrite.exec, LocalWrite.request, removeNamed, entomb]
    cases found : manager.findFieldOwned (hashName name) manager.nodeId with
    | none => exact .refused (-1) (bury_of_none found)
    | some i => exact entomb_outcome found rfl ⟨rfl, rfl, rfl, rfl⟩ rfl ⟨rfl, rfl, rfl, rfl, rfl⟩
  | setShared name data =>
    simp only [LocalWrite.exec, LocalWrite.request, setShared, LocalWrite.request.put]
    split_ifs
    · exact .refused (-1) rfl
    · exact upsertField_outcome rfl rfl rfl rfl rfl rfl rfl
  | removeShared name =>
    simp only [LocalWrite.exec, LocalWrite.request]
    unfold removeShared
    cases found : manager.findFieldOwned (hashName name) sharedOwnerId with
    | none => exact .refused (-1) (bury_of_none found)
    | some i => exact entomb_outcome found rfl ⟨rfl, rfl, rfl, rfl⟩ rfl ⟨rfl, rfl, rfl, rfl, rfl⟩
  | setSharedCas name expected data =>
    simp only [LocalWrite.exec, LocalWrite.request, setSharedCas]
    have matching := casMatches_iff manager name expected
    rw [← liveOf_view] at matching
    by_cases refused : name.chars.isEmpty || data.size == 0
    · rw [if_pos refused, if_pos refused]
      exact .refused (-1) rfl
    · rw [if_neg refused, if_neg refused]
      by_cases same : manager.casMatches name expected = true
      · rw [if_pos same, if_pos (matching.mp same)]
        exact noteWrite_outcome (upsertField_outcome rfl rfl rfl rfl rfl rfl rfl)
      · rw [if_neg same, if_neg (same ∘ matching.mpr)]
        exact .refused 1 rfl

end FleeceStateManager

theorem Blob.ne_empty_of_size {data : Blob} (nonzero : data.size ≠ 0) : data ≠ .empty := by
  intro same
  rw [same] at nonzero
  exact nonzero rfl

theorem GossipRecord.filled_upserted {originNodeId : UInt64} {name : FieldName} {data : Blob}
    {timestamp : UInt64} {isTombstone : Bool} (payload : isTombstone = false → data.size ≠ 0) :
    (GossipRecord.upserted originNodeId name data timestamp isTombstone).Filled := by
  cases isTombstone with
  | true => exact iff_of_true rfl rfl
  | false => exact iff_of_false Bool.false_ne_true (Blob.ne_empty_of_size (payload rfl))

theorem FieldName.copy_nonempty {name : CString} (nonempty : name.chars ≠ []) :
    (FieldName.copy name).chars ≠ [] := by
  intro blank
  rcases List.take_eq_nil_iff.mp blank with zero | empty
  · exact absurd zero (by decide)
  · exact nonempty empty

theorem GossipRecord.isNamed_iff {record : GossipRecord} :
    record.isNamed = true ↔ record.name.chars ≠ [] := by
  rw [GossipRecord.isNamed, Bool.not_eq_true', ← Bool.not_eq_true, List.isEmpty_iff]

namespace LocalWrite

variable {nodeId clock : UInt64} {view : UInt32 × UInt64 → Option GossipRecord}

/-- The record a request asks for under a pair: it is stamped with the next clock value and has
a payload unless it is a tombstone, and under the shared owner it is authored here and has a name
or the name of the record before it. -/
structure Stamped (nodeId clock : UInt64) (view : UInt32 × UInt64 → Option GossipRecord)
    (pair : UInt32 × UInt64) (record : GossipRecord) : Prop where
  stamp : record.timestamp = clock + 1
  filled : record.Filled
  own : pair.2 = nodeId ∨ (pair.2 = sharedOwnerId ∧ record.originNodeId = nodeId ∧
    (record.isNamed = true ∨ ∃ old, view pair = some old ∧ record.name = old.name))
  author : pair.2 = nodeId → record.originNodeId = nodeId ∨
    ∃ old, view pair = some old ∧ record.originNodeId = old.originNodeId

theorem stamped_of_bury {pair asked : UInt32 × UInt64} {record : GossipRecord}
    {author : GossipRecord → GossipRecord}
    (buried : request.bury clock view pair author = .ok (asked, record))
    (authorRest : ∀ old, { author old with originNodeId := old.originNodeId } = old)
    (own : (pair.2 = nodeId ∧ ∀ old, (author old).originNodeId = old.originNodeId) ∨
      (pair.2 = sharedOwnerId ∧ ∀ old, (author old).originNodeId = nodeId)) :
    Stamped nodeId clock view asked record := by
  unfold request.bury at buried
  cases live : request.live view pair with
  | none =>
    rw [live] at buried
    cases buried
  | some old =>
    rw [live] at buried
    obtain ⟨rfl, rfl⟩ := Prod.mk.inj (Except.ok.inj buried)
    have rest := authorRest (old.buried (clock + 1))
    have stamp := congrArg GossipRecord.timestamp rest
    have flag := congrArg GossipRecord.isTombstone rest
    have payload := congrArg GossipRecord.data rest
    have name := congrArg GossipRecord.name rest
    have found := (Option.filter_eq_some_iff.mp live).1
    refine ⟨stamp, iff_of_true flag payload, ?_, fun _ => ?_⟩
    · exact own.imp And.left fun shared => ⟨shared.1, shared.2 _, Or.inr ⟨old, found, name⟩⟩
    · exact own.symm.imp (fun shared => shared.2 _) fun self => ⟨old, found, self.2 _⟩

theorem stamped_of_put {refused : Bool} {name : CString} {data : Blob} {owner : UInt64}
    {asked : UInt32 × UInt64} {record : GossipRecord}
    (put : request.put nodeId clock refused name data owner = .ok (asked, record))
    (checked : refused = false → name.chars ≠ [] ∧ data.size ≠ 0)
    (own : owner = nodeId ∨ owner = sharedOwnerId) : Stamped nodeId clock view asked record := by
  unfold request.put at put
  split_ifs at put with denied
  obtain ⟨rfl, rfl⟩ := Prod.mk.inj (Except.ok.inj put)
  obtain ⟨nonempty, payload⟩ := checked (Bool.eq_false_of_not_eq_true denied)
  refine ⟨rfl, GossipRecord.filled_upserted fun _ => payload, own.imp_right fun shared => ?_,
    fun _ => Or.inl rfl⟩
  exact ⟨shared, rfl, Or.inl (GossipRecord.isNamed_iff.mpr (FieldName.copy_nonempty nonempty))⟩

theorem checked_of_not_refused {name : CString} {data : Blob}
    (accepted : (name.chars.isEmpty || data.size == 0) = false) :
    name.chars ≠ [] ∧ data.size ≠ 0 := by
  rw [Bool.or_eq_false_iff, beq_eq_false_iff_ne, ← Bool.not_eq_true, List.isEmpty_iff] at accepted
  exact accepted

theorem bury_pair {pair asked : UInt32 × UInt64} {record : GossipRecord}
    {author : GossipRecord → GossipRecord}
    (buried : request.bury clock view pair author = .ok (asked, record)) : asked = pair := by
  unfold request.bury at buried
  split at buried
  · cases buried
  · exact (Prod.mk.inj (Except.ok.inj buried)).1.symm

theorem put_pair {refused : Bool} {name : CString} {data : Blob} {owner : UInt64}
    {asked : UInt32 × UInt64} {record : GossipRecord}
    (put : request.put nodeId clock refused name data owner = .ok (asked, record)) :
    asked = (hashName name, owner) := by
  unfold request.put at put
  split_ifs at put
  exact (Prod.mk.inj (Except.ok.inj put)).1.symm

/-- The record a write asks for has the name it was given, or keeps the one of its slot, which a
write that is given a name does only for a tombstone; a raw key without a slot gets none. -/
theorem name_of_request {change : LocalWrite} {pair : UInt32 × UInt64} {record : GossipRecord}
    (asked : change.request nodeId clock view = .ok (pair, record)) :
    (∃ name, change.name = some name ∧ pair.1 = hashName name ∧ record.name = .copy name) ∨
      (∃ old, view pair = some old ∧ record.name = old.name ∧
        (change.name = none ∨ record.isTombstone = true)) ∨
      change.name = none ∧ record.name = .empty := by
  have put {refused : Bool} {name : CString} {data : Blob} {owner : UInt64}
      (asked : request.put nodeId clock refused name data owner = .ok (pair, record)) :
      pair.1 = hashName name ∧ record.name = .copy name := by
    unfold request.put at asked
    split_ifs at asked
    obtain ⟨rfl, rfl⟩ := Prod.mk.inj (Except.ok.inj asked)
    exact ⟨rfl, rfl⟩
  have bury {target : UInt32 × UInt64} {author : GossipRecord → GossipRecord}
      (asked : request.bury clock view target author = .ok (pair, record))
      (keeps : ∀ old, (author old).name = old.name ∧ (author old).isTombstone = old.isTombstone) :
      ∃ old, view pair = some old ∧ record.name = old.name ∧
        (change.name = none ∨ record.isTombstone = true) := by
    unfold request.bury at asked
    cases live : request.live view target with
    | none =>
      rw [live] at asked
      cases asked
    | some old =>
      rw [live] at asked
      obtain ⟨rfl, rfl⟩ := Prod.mk.inj (Except.ok.inj asked)
      exact ⟨old, (Option.filter_eq_some_iff.mp live).1, (keeps _).1, Or.inr (keeps _).2⟩
  cases change with
  | set key data =>
    simp only [request] at asked
    split_ifs at asked
    obtain ⟨rfl, rfl⟩ := Prod.mk.inj (Except.ok.inj asked)
    cases found : view (key, nodeId) with
    | none => exact Or.inr (Or.inr ⟨rfl, rfl⟩)
    | some old => exact Or.inr (Or.inl ⟨old, rfl, rfl, Or.inl rfl⟩)
  | remove key =>
    simp only [request] at asked
    exact Or.inr (Or.inl (bury asked fun _ => ⟨rfl, rfl⟩))
  | setNamed name data =>
    simp only [request] at asked
    exact Or.inl ⟨name, rfl, put asked⟩
  | removeNamed name =>
    simp only [request] at asked
    exact Or.inr (Or.inl (bury asked fun _ => ⟨rfl, rfl⟩))
  | setShared name data =>
    simp only [request] at asked
    exact Or.inl ⟨name, rfl, put asked⟩
  | removeShared name =>
    simp only [request] at asked
    exact Or.inr (Or.inl (bury asked fun _ => ⟨rfl, rfl⟩))
  | setSharedCas name expected data =>
    simp only [request] at asked
    split_ifs at asked
    exact Or.inl ⟨name, rfl, put asked⟩

theorem target_of_request {change : LocalWrite} {pair : UInt32 × UInt64} {record : GossipRecord}
    (asked : change.request nodeId clock view = .ok (pair, record)) :
    pair = change.target nodeId := by
  cases change with
  | set key data =>
    simp only [request] at asked
    split_ifs at asked
    exact (Prod.mk.inj (Except.ok.inj asked)).1.symm
  | remove key => exact bury_pair asked
  | setNamed name data => exact put_pair asked
  | removeNamed name => exact bury_pair asked
  | setShared name data => exact put_pair asked
  | removeShared name =>
    simp only [request] at asked
    exact bury_pair asked
  | setSharedCas name expected data =>
    simp only [request] at asked
    split_ifs at asked
    exact put_pair asked

/-- A refusal is -1, or 1 where the comparison of `set_shared_cas` failed. -/
theorem code_of_refused {change : LocalWrite} {code : Int}
    (denied : change.request nodeId clock view = .error code) : code = -1 ∨ code = 1 := by
  have bury {pair : UInt32 × UInt64} {author : GossipRecord → GossipRecord}
      (denied : request.bury clock view pair author = .error code) : code = -1 := by
    unfold request.bury at denied
    split at denied
    · exact (Except.error.inj denied).symm
    · cases denied
  have put {refused : Bool} {name : CString} {data : Blob} {owner : UInt64}
      (denied : request.put nodeId clock refused name data owner = .error code) : code = -1 := by
    unfold request.put at denied
    split_ifs at denied
    exact (Except.error.inj denied).symm
  cases change with
  | set key data =>
    simp only [request] at denied
    split_ifs at denied
    exact Or.inl (Except.error.inj denied).symm
  | remove key => exact Or.inl (bury denied)
  | setNamed name data => exact Or.inl (put denied)
  | removeNamed name => exact Or.inl (bury denied)
  | setShared name data => exact Or.inl (put denied)
  | removeShared name =>
    simp only [request] at denied
    exact Or.inl (bury denied)
  | setSharedCas name expected data =>
    simp only [request] at denied
    split_ifs at denied
    · exact Or.inl (Except.error.inj denied).symm
    · exact Or.inl (put denied)
    · exact Or.inr (Except.error.inj denied).symm

theorem stamped_of_request {change : LocalWrite} {pair : UInt32 × UInt64} {record : GossipRecord}
    (asked : change.request nodeId clock view = .ok (pair, record)) :
    Stamped nodeId clock view pair record := by
  cases change with
  | set key data =>
    simp only [request] at asked
    split_ifs at asked with empty
    obtain ⟨rfl, rfl⟩ := Prod.mk.inj (Except.ok.inj asked)
    exact ⟨rfl, GossipRecord.filled_upserted fun _ => empty, Or.inl rfl, fun _ => Or.inl rfl⟩
  | remove key => exact stamped_of_bury asked (fun _ => rfl) (Or.inl ⟨rfl, fun _ => rfl⟩)
  | setNamed name data => exact stamped_of_put asked checked_of_not_refused (Or.inl rfl)
  | removeNamed name => exact stamped_of_bury asked (fun _ => rfl) (Or.inl ⟨rfl, fun _ => rfl⟩)
  | setShared name data => exact stamped_of_put asked checked_of_not_refused (Or.inr rfl)
  | removeShared name =>
    simp only [request] at asked
    exact stamped_of_bury asked (fun _ => rfl) (Or.inr ⟨rfl, fun _ => rfl⟩)
  | setSharedCas name expected data =>
    simp only [request] at asked
    split_ifs at asked with refused
    have checked := checked_of_not_refused (Bool.eq_false_of_not_eq_true refused)
    exact stamped_of_put asked (fun _ => checked) (Or.inr rfl)

end LocalWrite

namespace FleeceStateManager

/-- A slot of the shared owner has a name. -/
theorem StoreInvariant.view_named {manager : FleeceStateManager}
    (invariant : manager.StoreInvariant) {pair : UInt32 × UInt64} {record : GossipRecord}
    (foreign : pair.2 ≠ manager.nodeId) (found : manager.view pair = some record) :
    record.isNamed = true := by
  obtain ⟨f, held, rfl⟩ := Option.map_eq_some_iff.mp found
  obtain ⟨i, rfl, present, _, owner⟩ := exists_of_lookup held
  exact invariant.named i present (owner ▸ foreign)

/-- Outside the shared stream the author of a record is its owner. -/
theorem StoreInvariant.view_authored {manager : FleeceStateManager}
    (invariant : manager.StoreInvariant) {pair : UInt32 × UInt64} {record : GossipRecord}
    (notShared : pair.2 ≠ sharedOwnerId) (found : manager.view pair = some record) :
    record.originNodeId = pair.2 := by
  obtain ⟨f, held, rfl⟩ := Option.map_eq_some_iff.mp found
  obtain ⟨i, rfl, present, _, owner⟩ := exists_of_lookup held
  rw [← owner] at notShared ⊢
  exact invariant.authored i present notShared

/-- A local write is one step of the store. -/
theorem write_effect {manager : FleeceStateManager} (invariant : manager.StoreInvariant)
    (change : LocalWrite) : WriteEffect manager (change.exec manager).1 := by
  have outcome := exec_outcome manager change
  generalize asked : change.request manager.nodeId manager.localTimestamp manager.view = request
    at outcome
  generalize change.exec manager = result at outcome
  cases outcome with
  | refused code denied => exact .unchanged rfl
  | noSlot next pair record accepted absent full fields count node peers tick clock =>
    exact .noSlot fields count node clock
  | wrote next f accepted stored node peers tick clock =>
    obtain ⟨stamp, filled, own, author⟩ := LocalWrite.stamped_of_request (asked.trans accepted)
    refine .wrote f stored node clock stamp (own.imp_right ?_) filled fun notShared => ?_
    · rintro ⟨shared, authored, name⟩
      refine ⟨shared, authored, ?_⟩
      rcases name with fresh | ⟨old, found, same⟩
      · exact fresh
      · have named : old.isNamed = true := by
          refine invariant.view_named ?_ found
          rw [shared]
          exact invariant.realNode.symm
        show f.record.isNamed = true
        rwa [GossipRecord.isNamed, same]
    · have self : f.nodeId = manager.nodeId := own.resolve_right fun shared => notShared shared.1
      rcases author self with fresh | ⟨old, found, same⟩
      · exact fresh.trans self.symm
      · exact same.trans (invariant.view_authored notShared found)

end FleeceStateManager

end Fleece
