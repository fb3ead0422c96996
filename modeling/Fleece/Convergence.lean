/-
This file is about a world of nodes that share one stream: each node writes and
deletes shared fields, exports them in any of the frames that carry them, and
imports whatever the others have exported, in any order, any number of times or
never. A log kept for each node, which is not in the source, holds the records it
has written or merged.

Every record ever written is stamped by its author's clock, which is above all the
author's earlier stamps, so a timestamp and an author name one record among all the
stores and frames of the world. A shared slot is a register over the log of its
node, and so two nodes with the same log have the same shared fields.
-/

import Fleece.Register
import Fleece.Refinement

namespace Fleece

/-! ### One store and its log -/

/-- The local writes of the shared stream. -/
inductive SharedWrite where
  | setShared (name : CString) (data : Blob)
  | removeShared (name : CString)
  | setSharedCas (name : CString) (expected : Option Blob) (data : Blob)

namespace SharedWrite

/-- The name of the field that is written. -/
def name : SharedWrite → CString
  | .setShared name _ => name
  | .removeShared name => name
  | .setSharedCas name _ _ => name

/-- The shared write among the writes of the store. -/
def toLocal : SharedWrite → LocalWrite
  | .setShared name data => .setShared name data
  | .removeShared name => .removeShared name
  | .setSharedCas name expected data => .setSharedCas name expected data

/-- The key of the field that is written. -/
def key (change : SharedWrite) : UInt32 := hashName change.name

theorem target_toLocal (change : SharedWrite) (nodeId : UInt64) :
    change.toLocal.target nodeId = (change.key, sharedOwnerId) := by
  cases change with
  | setShared name data => rfl
  | removeShared name => rfl
  | setSharedCas name expected data => rfl

/-- The record a shared write asks for has the name it is given, or keeps the one it had. -/
theorem name_of_request {change : SharedWrite} {nodeId clock : UInt64}
    {view : UInt32 × UInt64 → Option GossipRecord} {pair : UInt32 × UInt64} {record : GossipRecord}
    (asked : change.toLocal.request nodeId clock view = .ok (pair, record)) :
    record.name = .copy change.name ∨ ∃ old, view pair = some old ∧ record.name = old.name := by
  have given : change.toLocal.name = some change.name := by
    cases change with
    | setShared name data => rfl
    | removeShared name => rfl
    | setSharedCas name expected data => rfl
  rcases LocalWrite.name_of_request asked with
    ⟨name, same, _, copied⟩ | ⟨old, found, kept, _⟩ | ⟨unnamed, _⟩
  · rw [copied, Option.some.inj (same.symm.trans given)]
    exact Or.inl rfl
  · exact Or.inr ⟨old, found, kept⟩
  · rw [given] at unnamed
    cases unnamed

end SharedWrite

/-- A record under the key of its name. -/
def GossipRecord.keyed (record : GossipRecord) : UInt32 × GossipRecord :=
  (hashName record.name.toCString, record)

theorem FieldName.copy_toCString (name : FieldName) : FieldName.copy name.toCString = name :=
  FieldName.ext (List.take_of_length_le (Nat.le_sub_one_of_lt name.lengthLt))

/-- A name of at most 63 bytes is kept whole. -/
theorem hashName_copy {name : CString} (short : name.chars.length < fieldNameMax) :
    hashName (FieldName.copy name).toCString = hashName name := by
  unfold hashName
  rw [show (FieldName.copy name).toCString.chars = name.chars from
    List.take_of_length_le (Nat.le_sub_one_of_lt short)]

/-- What a merge stores of a record that was sent is the record. -/
theorem GossipRecord.upserted_self {record : GossipRecord} (filled : record.Filled) :
    GossipRecord.upserted record.originNodeId (.copy record.name.toCString) record.data
      record.timestamp record.isTombstone = record := by
  unfold GossipRecord.upserted
  rw [FieldName.copy_toCString]
  obtain ⟨origin, isTombstone, name, timestamp, data⟩ := record
  cases isTombstone with
  | false => rfl
  | true =>
    rw [show data = .empty from filled.mp rfl]
    rfl

theorem GossipRecord.Sendable.mergeable {owner : UInt64} {record : GossipRecord}
    (sendable : record.Sendable owner) :
    FleeceStateManager.mergeable record.name.toCString record.data record.isTombstone = true := by
  have named : record.name.toCString.chars.isEmpty = false := by
    rw [← Bool.not_eq_true, List.isEmpty_iff]
    exact sendable.named
  rw [FleeceStateManager.mergeable, named, Bool.not_false, Bool.true_and, Bool.or_eq_true,
    bne_iff_ne]
  by_cases dead : record.isTombstone = true
  · exact Or.inl dead
  · refine Or.inr fun blank => dead (sendable.filled.mpr ?_)
    exact Blob.ext (List.eq_nil_of_length_eq_zero blank)

namespace FleeceStateManager

/-- Every shared slot is a register over the records of its key in the log. -/
def Summarises (manager : FleeceStateManager) (log : List (UInt32 × GossipRecord)) : Prop :=
  ∀ key, Register.Holds GossipRecord.version {record | (key, record) ∈ log}
    (manager.view (key, sharedOwnerId))

theorem Summarises.of_view {manager next : FleeceStateManager}
    {log : List (UInt32 × GossipRecord)} (summary : manager.Summarises log)
    (same : next.view = manager.view) : next.Summarises log := by
  intro key
  rw [same]
  exact summary key

theorem summarises_create {nodeId : UInt64} {manager : FleeceStateManager}
    (created : createWithNodeId nodeId = some manager) : manager.Summarises [] := by
  intro key
  have empty : manager.view (key, sharedOwnerId) = none :=
    congrFun (refines_create created).view.symm _
  rw [empty, show {record : GossipRecord | (key, record) ∈ []} = ∅ from
    Set.eq_empty_of_forall_notMem fun _ => List.not_mem_nil]
  exact Register.holds_empty

/-- A record offered to the slot of its key is added to the log. -/
theorem Summarises.offer {manager next : FleeceStateManager} {log : List (UInt32 × GossipRecord)}
    (summary : manager.Summarises log) {key : UInt32} {record : GossipRecord}
    (offered : ∀ other, next.view (other, sharedOwnerId) =
      Function.update manager.view (key, sharedOwnerId)
        (Register.offer GossipRecord.version (manager.view (key, sharedOwnerId)) record)
        (other, sharedOwnerId)) :
    next.Summarises (log ++ [(key, record)]) := by
  intro other
  rw [offered]
  rcases eq_or_ne other key with rfl | different
  · have seen : {held | (other, held) ∈ log ++ [(other, record)]} =
        insert record {held | (other, held) ∈ log} := by
      ext held
      simp only [Set.mem_ofPred_eq, Set.mem_insert_iff, List.mem_append, List.mem_singleton,
        Prod.mk.injEq, true_and]
      exact or_comm
    rw [seen, Function.update_self]
    exact (summary other).offer record
  · have seen : {held | (other, held) ∈ log ++ [(key, record)]} = {held | (other, held) ∈ log} := by
      ext held
      simp only [Set.mem_ofPred_eq, List.mem_append, List.mem_singleton, Prod.mk.injEq, different,
        false_and, or_false]
    rw [seen, Function.update_of_ne fun same => different (Prod.mk.inj same).1]
    exact summary other

/-- A merge offers its record to the shared slot of its key. -/
theorem view_mergeOutcome {base : FleeceStateManager} {key : UInt32} {record : GossipRecord}
    {result : FleeceStateManager × Int} (invariant : base.StoreInvariant)
    (slot : base.hasSlot (key, sharedOwnerId) = true)
    (outcome : MergeOutcome base (key, sharedOwnerId) record record.Outranks result)
    (other : UInt32) :
    result.1.view (other, sharedOwnerId) = Function.update base.view (key, sharedOwnerId)
      (Register.offer GossipRecord.version (base.view (key, sharedOwnerId)) record)
      (other, sharedOwnerId) := by
  cases outcome with
  | kept old found stays =>
    rw [found, Register.offer_of_le (not_lt.mp (stays ∘ outranks_iff.mpr)), ← found,
      Function.update_eq_self]
  | noSlot absent full => exact (not_full_of_hasSlot slot absent full).elim
  | stored next f storedAt rest label held newer =>
    rw [view_stored_foreign storedAt invariant invariant.realNode.symm, label, held]
    cases found : base.view (key, sharedOwnerId) with
    | none => rfl
    | some old => rw [Register.offer_of_lt (outranks_iff.mp (newer old found))]

/-- The merge of a record that was sent offers it to the slot of its name. -/
theorem view_mergeRecord {manager : FleeceStateManager} (invariant : manager.StoreInvariant)
    {record : GossipRecord} (sendable : record.Sendable sharedOwnerId)
    (room : hasSlotFor sharedOwnerId manager record = true) (other : UInt32) :
    (manager.mergeRecord sharedOwnerId record).view (other, sharedOwnerId) =
      Function.update manager.view (record.keyed.1, sharedOwnerId)
        (Register.offer GossipRecord.version (manager.view (record.keyed.1, sharedOwnerId)) record)
        (other, sharedOwnerId) := by
  have raised : (manager.raiseClock record.timestamp).StoreInvariant :=
    ((raiseClock_quiet manager record.timestamp).keeps invariant).1
  have outcome := mergeShared_outcome manager record.originNodeId record.name.toCString record.data
    record.timestamp record.isTombstone sendable.mergeable
  rw [hasSlotFor, sendable.mergeable, Bool.not_true, Bool.false_or] at room
  rw [GossipRecord.upserted_self sendable.filled] at outcome
  unfold FleeceStateManager.mergeRecord
  rw [if_pos rfl]
  exact view_mergeOutcome raised room outcome other

theorem Summarises.mergeRecord {manager : FleeceStateManager} {log : List (UInt32 × GossipRecord)}
    (summary : manager.Summarises log) (invariant : manager.StoreInvariant) {record : GossipRecord}
    (sendable : record.Sendable sharedOwnerId)
    (room : hasSlotFor sharedOwnerId manager record = true) :
    (manager.mergeRecord sharedOwnerId record).Summarises (log ++ [record.keyed]) :=
  summary.offer (view_mergeRecord invariant sendable room)

theorem mergeRecord_storeInvariant {manager : FleeceStateManager}
    (invariant : manager.StoreInvariant) (owner : UInt64) (record : GossipRecord) :
    (manager.mergeRecord owner record).StoreInvariant :=
  (mergeSteps_keep (mergeRecord_steps invariant.realNode owner record) invariant).1

theorem Summarises.mergeRecords {manager : FleeceStateManager} {log : List (UInt32 × GossipRecord)}
    (summary : manager.Summarises log) (invariant : manager.StoreInvariant)
    {records : List GossipRecord} (sendable : ∀ record ∈ records, record.Sendable sharedOwnerId)
    (room : Along (FleeceStateManager.mergeRecord sharedOwnerId)
      (fun state record => hasSlotFor sharedOwnerId state record = true) manager records) :
    (manager.mergeRecords sharedOwnerId records).Summarises
      (log ++ records.map GossipRecord.keyed) := by
  induction records generalizing manager log with
  | nil =>
    rw [List.map_nil, List.append_nil]
    exact summary
  | cons record rest inductionHypothesis =>
    have merged := summary.mergeRecord invariant (sendable record List.mem_cons_self) room.1
    have whole := inductionHypothesis merged (mergeRecord_storeInvariant invariant _ record)
      (fun later member => sendable later (List.mem_cons_of_mem _ member)) room.2
    rw [List.append_assoc] at whole
    exact whole

theorem ClockInvariant.view_le {manager : FleeceStateManager} (clock : manager.ClockInvariant)
    {pair : UInt32 × UInt64} {record : GossipRecord} (found : manager.view pair = some record) :
    record.timestamp ≤ manager.localTimestamp := by
  obtain ⟨f, held, rfl⟩ := Option.map_eq_some_iff.mp found
  obtain ⟨i, rfl, present, _⟩ := exists_of_lookup held
  exact clock.stamps i present

/-- A shared write is refused, or puts a record stamped with the next clock value and authored
here under the key of its name. -/
theorem sharedWrite_outcome {manager : FleeceStateManager} (invariant : manager.PackedInvariant)
    (keyed : ∀ key record, manager.view (key, sharedOwnerId) = some record →
      key = hashName record.name.toCString) {change : SharedWrite}
    (short : change.name.chars.length < fieldNameMax)
    (room : manager.hasRoom (.write change.toLocal) = true) :
    ((change.toLocal.exec manager).2 ≠ 0 ∧ (change.toLocal.exec manager).1 = manager) ∨
      ∃ record, (change.toLocal.exec manager).2 = 0 ∧
        (change.toLocal.exec manager).1.view =
          Function.update manager.view (change.key, sharedOwnerId) (some record) ∧
        (change.toLocal.exec manager).1.localTimestamp = manager.localTimestamp + 1 ∧
        record.timestamp = manager.localTimestamp + 1 ∧
        record.originNodeId = manager.nodeId ∧ change.key = hashName record.name.toCString := by
  have outcome := exec_outcome manager change.toLocal
  simp only [hasRoom] at room
  generalize asked : change.toLocal.request manager.nodeId manager.localTimestamp manager.view =
    request at outcome room
  generalize change.toLocal.exec manager = result at outcome ⊢
  cases outcome with
  | refused code denied =>
    refine Or.inl ⟨fun zero => ?_, rfl⟩
    rcases LocalWrite.code_of_refused (asked.trans denied) with failed | failed
    · exact absurd (failed.symm.trans zero) (by decide)
    · exact absurd (failed.symm.trans zero) (by decide)
  | noSlot next pair record accepted absent full =>
    rw [accepted] at room
    exact (not_full_of_hasSlot room absent full).elim
  | wrote next f accepted stored node peers tick clock =>
    have target := LocalWrite.target_of_request (asked.trans accepted)
    rw [SharedWrite.target_toLocal] at target
    have name := SharedWrite.name_of_request (asked.trans accepted)
    obtain ⟨stamp, _, own, _⟩ := LocalWrite.stamped_of_request (asked.trans accepted)
    refine Or.inr ⟨f.record, rfl, ?_, clock, stamp, ?_, ?_⟩
    · rw [view_stored stored invariant, target]
    · rcases own with self | ⟨_, author, _⟩
      · rw [target] at self
        exact absurd self.symm invariant.store.realNode
      · exact author
    · rcases name with fresh | ⟨old, found, same⟩
      · rw [fresh, hashName_copy short]
        rfl
      · rw [target] at found
        rw [same]
        exact keyed _ _ found

theorem Summarises.write {manager : FleeceStateManager} {log : List (UInt32 × GossipRecord)}
    (summary : manager.Summarises log) (clock : manager.ClockInvariant)
    (small : manager.localTimestamp ≠ clockMax) {next : FleeceStateManager} {key : UInt32}
    {record : GossipRecord}
    (wrote : next.view = Function.update manager.view (key, sharedOwnerId) (some record))
    (stamp : record.timestamp = manager.localTimestamp + 1) :
    next.Summarises (log ++ [(key, record)]) := by
  refine summary.offer fun other => congrFun (wrote.trans (congrArg _ ?_)) _
  cases found : manager.view (key, sharedOwnerId) with
  | none => rfl
  | some old =>
    refine (Register.offer_of_lt (outranks_iff.mp (Or.inl ?_))).symm
    rw [stamp]
    exact UInt64.lt_of_le_of_lt (clock.view_le found) (lt_add_one_of_ne_max small)

/-- Stores with the same live records of an owner have the same digest of its stream. -/
theorem digest_congr {first second : FleeceStateManager} (distinct : first.DistinctSlots)
    (distinctSecond : second.DistinctSlots) {owner : UInt64}
    (same : ∀ key, first.liveView (key, owner) = second.liveView (key, owner)) :
    first.computeStreamDigest owner = second.computeStreamDigest owner := by
  obtain ⟨registry, refines⟩ := exists_refines distinct
  obtain ⟨other, refinesSecond⟩ := exists_refines distinctSecond
  rw [← refines.digest distinct, ← refinesSecond.digest distinctSecond, Registry.digest,
    Registry.digest, Registry.liveNamed_congr fun key => ?_]
  rw [refines.live, refinesSecond.live]
  exact same key

end FleeceStateManager

/-! ### The world -/

/-- The operation that exports a frame. -/
def GossipExport.operation : GossipExport → Operation
  | .full => .query .exportFrame
  | .delta since => .query (.exportDelta since)
  | .shared => .query .exportShared
  | .sharedDelta since => .query (.exportSharedDelta since)
  | .sharedDeltaBounded since capBytes => .exportSharedDeltaBounded since capBytes
  | .sharedByHash hashes => .query (.exportSharedByHash hashes)

/-- The operations of a node that are not about the shared stream: the writes of its own one,
the queries and the ticks. -/
def Operation.isPrivate : Operation → Bool
  | .write (.set _ _) => true
  | .write (.remove _) => true
  | .write (.setNamed _ _) => true
  | .write (.removeNamed _) => true
  | .query _ => true
  | .tick => true
  | _ => false

/-- The shared record a write leaves under its key, if it succeeds. -/
def FleeceStateManager.written (manager : FleeceStateManager) (change : SharedWrite) :
    List (UInt32 × GossipRecord) :=
  if (change.toLocal.exec manager).2 = 0 then
    (((change.toLocal.exec manager).1.view (change.key, sharedOwnerId)).map
      fun record => (change.key, record)).toList
  else []

/-- The shared records an import of the frame hands to the merge. -/
def FleeceStateManager.merged (manager : FleeceStateManager) (frame : Blob) :
    List (UInt32 × GossipRecord) :=
  match parseFrame manager.nodeId frame with
  | .error _ => []
  | .ok parsed =>
    if parsed.ownerNodeId = sharedOwnerId then
      (parsed.records.filter fun record => FleeceStateManager.mergeable record.name.toCString
        record.data record.isTombstone).map GossipRecord.keyed
    else []

/-- The stores of the nodes, every frame that was exported with its exporter, and for each node
the shared records it has written or merged, each under its key. -/
structure World (Node : Type) where
  managers : Node → FleeceStateManager
  sent : List (Node × Blob)
  log : Node → List (UInt32 × GossipRecord)

namespace World

/-- What can happen: a shared write, any other operation of a node on its own, an export, and the
delivery of some frame that was exported before. -/
inductive Act (Node : Type) where
  | write (node : Node) (change : SharedWrite)
  | keep (node : Node) (operation : Operation)
  | send (node : Node) (kind : GossipExport)
  | deliver (node : Node) (index : Nat)

/-- The world before any step: no frame was sent, and no write is logged. -/
def start {Node : Type} (managers : Node → FleeceStateManager) : World Node :=
  ⟨managers, [], fun _ => []⟩

variable {Node : Type} [DecidableEq Node]

/-- A node operates and logs some records. -/
def update (world : World Node) (node : Node) (operation : Operation)
    (entries : List (UInt32 × GossipRecord)) : World Node :=
  { world with
    managers := Function.update world.managers node (operation.next (world.managers node))
    log := Function.update world.log node (world.log node ++ entries) }

/-- What a step changes: the store of one node, and the exports and the writes that are logged. -/
def step (world : World Node) : Act Node → World Node
  | .write node change =>
    world.update node (.write change.toLocal) ((world.managers node).written change)
  | .keep node operation => world.update node operation []
  | .send node kind =>
    { world.update node kind.operation [] with
      sent := world.sent ++ [(node, kind.frame (world.managers node))] }
  | .deliver node index =>
    match world.sent[index]? with
    | none => world
    | some (_, frame) =>
      world.update node (.importFrom frame) ((world.managers node).merged frame)

/-- A frame is imported by other nodes than its exporter, which do not run out of slots. -/
def Admits (world : World Node) (node : Node) : Option (Node × Blob) → Prop
  | none => True
  | some (sender, frame) =>
    node ≠ sender ∧ (world.managers node).hasRoom (.importFrom frame) = true

/-- A shared write is of a name of at most 63 bytes, no operation runs out of slots, and none wraps
a clock. -/
def Legal (world : World Node) : Act Node → Prop
  | .write node change =>
    change.name.chars.length < fieldNameMax ∧
      (world.managers node).hasRoom (.write change.toLocal) = true ∧
      (world.managers node).localTimestamp ≠ clockMax
  | .keep node operation =>
    operation.isPrivate = true ∧ (world.managers node).NoWrap operation
  | .send _ _ => True
  | .deliver node index => world.Admits node world.sent[index]?

instance (world : World Node) (node : Node) (post : Option (Node × Blob)) :
    Decidable (world.Admits node post) :=
  match post with
  | none => .isTrue trivial
  | some _ => inferInstanceAs (Decidable (_ ∧ _))

instance (world : World Node) (act : Act Node) : Decidable (world.Legal act) :=
  match act with
  | .write _ _ => inferInstanceAs (Decidable (_ ∧ _ ∧ _))
  | .keep _ _ => inferInstanceAs (Decidable (_ ∧ _))
  | .send _ _ => .isTrue trivial
  | .deliver node index => inferInstanceAs (Decidable (world.Admits node world.sent[index]?))

/-- Some node has written or merged the record under the key. -/
def Known (world : World Node) (entry : UInt32 × GossipRecord) : Prop :=
  ∃ node, entry ∈ world.log node

/-- The record is under its key in some store, or in some frame as another node reads it, or it
was so in some log. -/
def Occurs (world : World Node) (entry : UInt32 × GossipRecord) : Prop :=
  (∃ node, (world.managers node).view (entry.1, sharedOwnerId) = some entry.2) ∨
    (∃ sender frame reader parsed, (sender, frame) ∈ world.sent ∧
      reader ≠ (world.managers sender).nodeId ∧ parseFrame reader frame = .ok parsed ∧
      parsed.ownerNodeId = sharedOwnerId ∧ ∃ record ∈ parsed.records, entry = record.keyed) ∨
    world.Known entry

variable {world : World Node} {node : Node} {operation : Operation}
  {entries : List (UInt32 × GossipRecord)}

theorem mem_log_update {other : Node} {entry : UInt32 × GossipRecord} :
    entry ∈ (world.update node operation entries).log other ↔
      entry ∈ world.log other ∨ other = node ∧ entry ∈ entries := by
  show entry ∈ Function.update world.log node _ other ↔ _
  rcases eq_or_ne other node with rfl | different
  · rw [Function.update_self, List.mem_append, eq_self, true_and]
  · rw [Function.update_of_ne different, eq_false different, false_and, or_false]

theorem known_update {entry : UInt32 × GossipRecord} :
    (world.update node operation entries).Known entry ↔ world.Known entry ∨ entry ∈ entries := by
  constructor
  · rintro ⟨other, member⟩
    rcases mem_log_update.mp member with before | ⟨_, new⟩
    · exact Or.inl ⟨other, before⟩
    · exact Or.inr new
  · rintro (⟨other, member⟩ | new)
    · exact ⟨other, mem_log_update.mpr (Or.inl member)⟩
    · exact ⟨node, mem_log_update.mpr (Or.inr ⟨rfl, new⟩)⟩

/-- What holds in every world a legal run reaches from new stores with the ids `ids`. -/
structure Invariant (ids : Node → UInt64) (world : World Node) : Prop where
  packed (node : Node) : (world.managers node).PackedInvariant
  clock (node : Node) : (world.managers node).ClockInvariant
  identity (node : Node) : (world.managers node).nodeId = ids node
  summary (node : Node) : (world.managers node).Summarises (world.log node)
  keyed (entry : UInt32 × GossipRecord) :
    world.Known entry → entry.1 = hashName entry.2.name.toCString
  /-- The clock of the author has reached every record. -/
  authored (entry : UInt32 × GossipRecord) : world.Known entry →
    ∃ author, entry.2.originNodeId = ids author ∧
      entry.2.timestamp ≤ (world.managers author).localTimestamp
  unique (first second : UInt32 × GossipRecord) : world.Known first → world.Known second →
    first.2.version = second.2.version → first = second
  /-- What another node reads in a frame of the shared stream are records that are known. -/
  carried (sender : Node) (frame : Blob) : (sender, frame) ∈ world.sent → ∀ reader ≠ ids sender,
    ∀ parsed, parseFrame reader frame = .ok parsed → parsed.ownerNodeId = sharedOwnerId →
      ∀ record ∈ parsed.records, record.Sendable sharedOwnerId ∧ world.Known record.keyed

section Keeps

variable {ids : Node → UInt64} (invariant : world.Invariant ids)
include invariant

theorem Invariant.clock_le (noWrap : (world.managers node).NoWrap operation) (other : Node) :
    (world.managers other).localTimestamp ≤
      ((world.update node operation entries).managers other).localTimestamp := by
  show _ ≤ (Function.update world.managers node _ other).localTimestamp
  rcases eq_or_ne other node with rfl | different
  · rw [Function.update_self]
    exact FleeceStateManager.clock_le_next (invariant.packed other).store noWrap
  · rw [Function.update_of_ne different]
    exact UInt64.le_refl _

/-- A node operates, and the records it logs are known to some node or new. -/
theorem Invariant.update (stays : operation ≠ .compact)
    (noWrap : (world.managers node).NoWrap operation)
    (summary : (operation.next (world.managers node)).Summarises (world.log node ++ entries))
    (keyed : ∀ entry ∈ entries, entry.1 = hashName entry.2.name.toCString)
    (authored : ∀ entry ∈ entries, ∃ author, entry.2.originNodeId = ids author ∧
      entry.2.timestamp ≤
        ((world.update node operation entries).managers author).localTimestamp)
    (unique : ∀ entry ∈ entries, ∀ other, world.Known other ∨ other ∈ entries →
      entry.2.version = other.2.version → entry = other) :
    (world.update node operation entries).Invariant ids := by
  -- The store of the node has moved, every other one is as it was.
  have each (holds : Node → FleeceStateManager → Prop)
      (before : ∀ other, holds other (world.managers other))
      (here : holds node (operation.next (world.managers node))) (other : Node) :
      holds other ((world.update node operation entries).managers other) := by
    show holds other (Function.update world.managers node _ other)
    rcases eq_or_ne other node with rfl | different
    · rwa [Function.update_self]
    · rw [Function.update_of_ne different]
      exact before other
  have store := (invariant.packed node).store
  refine ⟨each (fun _ manager => manager.PackedInvariant) invariant.packed
      ((invariant.packed node).operation stays),
    each (fun _ manager => manager.ClockInvariant) invariant.clock ?_,
    each (fun other manager => manager.nodeId = ids other) invariant.identity ?_, ?_, ?_, ?_, ?_, ?_⟩
  · exact (FleeceStateManager.operation_keeps store (invariant.clock node) operation
      fun change isWrite => noWrap (isWrite ▸ rfl)).1
  · rw [FleeceStateManager.operation_nodeId store]
    exact invariant.identity node
  · intro other
    show FleeceStateManager.Summarises (Function.update world.managers node _ other)
      (Function.update world.log node _ other)
    rcases eq_or_ne other node with rfl | different
    · rwa [Function.update_self, Function.update_self]
    · rw [Function.update_of_ne different, Function.update_of_ne different]
      exact invariant.summary other
  · intro entry known
    rcases known_update.mp known with before | new
    · exact invariant.keyed entry before
    · exact keyed entry new
  · intro entry known
    rcases known_update.mp known with before | new
    · obtain ⟨author, origin, reached⟩ := invariant.authored entry before
      exact ⟨author, origin, UInt64.le_trans reached (invariant.clock_le noWrap author)⟩
    · exact authored entry new
  · intro first second known knownSecond same
    rcases known_update.mp known with before | new
    · rcases known_update.mp knownSecond with beforeSecond | newSecond
      · exact invariant.unique first second before beforeSecond same
      · exact (unique second newSecond first (Or.inl before) same.symm).symm
    · exact unique first new second (known_update.mp knownSecond) same
  · intro sender frame wasSent reader foreign parsed read stream record member
    obtain ⟨sendable, known⟩ :=
      invariant.carried sender frame wasSent reader foreign parsed read stream record member
    exact ⟨sendable, known_update.mpr (Or.inl known)⟩

/-- A node operates and logs records that are known. -/
theorem Invariant.learn (stays : operation ≠ .compact)
    (noWrap : (world.managers node).NoWrap operation)
    (summary : (operation.next (world.managers node)).Summarises (world.log node ++ entries))
    (known : ∀ entry ∈ entries, world.Known entry) :
    (world.update node operation entries).Invariant ids := by
  refine invariant.update stays noWrap summary
    (fun entry member => invariant.keyed entry (known entry member)) (fun entry member => ?_)
    fun entry member other knownOther same => ?_
  · obtain ⟨author, origin, reached⟩ := invariant.authored entry (known entry member)
    exact ⟨author, origin, UInt64.le_trans reached (invariant.clock_le noWrap author)⟩
  · exact invariant.unique entry other (known entry member)
      (knownOther.elim id (known other)) same

/-- An operation that is not about the shared stream. -/
theorem Invariant.untouched (stays : operation ≠ .compact)
    (noWrap : (world.managers node).NoWrap operation)
    (apart : ∀ key, (key, sharedOwnerId) ∉ operation.touched (world.managers node).nodeId) :
    (world.update node operation []).Invariant ids := by
  refine invariant.learn stays noWrap (fun key => ?_) fun _ absent => absurd absent List.not_mem_nil
  rw [List.append_nil, (invariant.packed node).view_next stays (apart key)]
  exact invariant.summary node key

theorem Invariant.write (distinct : Function.Injective ids) {change : SharedWrite}
    (legal : world.Legal (.write node change)) :
    (world.step (.write node change)).Invariant ids := by
  obtain ⟨short, room, small⟩ := legal
  have noWrap : (world.managers node).NoWrap (.write change.toLocal) := fun _ => small
  have stays : Operation.write change.toLocal ≠ .compact := nofun
  have keyed (key : UInt32) (record : GossipRecord)
      (held : (world.managers node).view (key, sharedOwnerId) = some record) :
      key = hashName record.name.toCString :=
    invariant.keyed (key, record) ⟨node, (invariant.summary node key).among record held⟩
  simp only [step, FleeceStateManager.written]
  rcases FleeceStateManager.sharedWrite_outcome (invariant.packed node) keyed short room with
    ⟨failed, same⟩ | ⟨record, code, wrote, clock, stamp, origin, label⟩
  · rw [if_neg failed]
    refine invariant.learn stays noWrap ?_ fun _ absent => absurd absent List.not_mem_nil
    show FleeceStateManager.Summarises (change.toLocal.exec (world.managers node)).1 _
    rw [same, List.append_nil]
    exact invariant.summary node
  · rw [if_pos code, wrote, Function.update_self]
    have summary := (invariant.summary node).write (invariant.clock node) small wrote stamp
    have fresh := lt_add_one_of_ne_max small
    refine invariant.update stays noWrap summary ?_ ?_ ?_
    · intro entry member
      rw [List.mem_singleton.mp member]
      exact label
    · intro entry member
      rw [List.mem_singleton.mp member]
      refine ⟨node, origin.trans (invariant.identity node), ?_⟩
      show record.timestamp ≤ (Function.update world.managers node _ node).localTimestamp
      rw [Function.update_self, stamp]
      exact (congrArg _ clock).mpr (UInt64.le_refl _)
    · intro entry member other known same
      rw [List.mem_singleton.mp member] at same ⊢
      rcases known with before | new
      · -- A record of this author is stamped no later than the clock it had.
        obtain ⟨sameStamp, sameOrigin⟩ := version_inj.mp same
        obtain ⟨author, by_, reached⟩ := invariant.authored other before
        have isHere : author = node := distinct (by
          rw [← by_, ← sameOrigin]
          exact origin.trans (invariant.identity node))
        rw [isHere, ← sameStamp, stamp] at reached
        exact absurd reached (UInt64.not_le.mpr fresh)
      · exact (List.mem_singleton.mp new).symm

theorem Invariant.keep {operation : Operation} (legal : world.Legal (.keep node operation)) :
    (world.step (.keep node operation)).Invariant ids := by
  obtain ⟨isPrivate, noWrap⟩ := legal
  have foreign : sharedOwnerId ≠ (world.managers node).nodeId :=
    (invariant.packed node).store.realNode.symm
  have own {key other : UInt32} :
      (key, sharedOwnerId) ∉ ({(other, (world.managers node).nodeId)} : Set (UInt32 × UInt64)) :=
    fun member => foreign (Prod.mk.inj member).2
  cases operation with
  | write change =>
    refine invariant.untouched nofun noWrap fun key => ?_
    cases change with
    | set other data => exact own
    | remove other => exact own
    | setNamed name data => exact own
    | removeNamed name => exact own
    | setShared name data => cases isPrivate
    | removeShared name => cases isPrivate
    | setSharedCas name expected data => cases isPrivate
  | query asked => exact invariant.untouched nofun noWrap fun _ => Set.notMem_empty _
  | tick => exact invariant.untouched nofun noWrap fun _ => Set.notMem_empty _
  | mergeNamed owner name data timestamp isTombstone => cases isPrivate
  | mergeShared origin name data timestamp isTombstone => cases isPrivate
  | importFrom frame => cases isPrivate
  | exportSharedDeltaBounded since capBytes => cases isPrivate
  | compact => cases isPrivate

omit [DecidableEq Node] in
/-- An exported frame carries records of its exporter's store, which are in its log. -/
theorem Invariant.exported (kind : GossipExport) {reader : UInt64}
    (foreign : reader ≠ (world.managers node).nodeId) {parsed : ParsedFrame}
    (read : parseFrame reader (kind.frame (world.managers node)) = .ok parsed)
    (stream : parsed.ownerNodeId = sharedOwnerId) {record : GossipRecord}
    (member : record ∈ parsed.records) :
    record.Sendable sharedOwnerId ∧ world.Known record.keyed := by
  have store := (invariant.packed node).store
  obtain ⟨_, owner, cut⟩ := FleeceStateManager.parseFrame_export_cut store kind foreign read
  have inFrame := cut.subset member
  have sendable := FleeceStateManager.sendable_contents store kind record inFrame
  rw [← owner, stream] at sendable
  refine ⟨sendable, node, ?_⟩
  obtain ⟨f, entry, rfl⟩ := List.mem_map.mp inFrame
  have held := (FleeceStateManager.carried_of_mem_entries kind entry).view store.distinct
  rw [← owner, stream] at held
  have logged := (invariant.summary node f.key).among f.record held
  have label := invariant.keyed (f.key, f.record) ⟨node, logged⟩
  rwa [GossipRecord.keyed, ← label]

theorem Invariant.send (kind : GossipExport) :
    (world.step (.send node kind)).Invariant ids := by
  have quiet : (world.update node kind.operation []).Invariant ids := by
    cases kind <;> exact invariant.untouched nofun nofun fun _ => Set.notMem_empty _
  refine ⟨quiet.packed, quiet.clock, quiet.identity, quiet.summary, quiet.keyed, quiet.authored,
    quiet.unique, ?_⟩
  intro sender frame wasSent reader foreign parsed read stream record member
  rcases List.mem_append.mp wasSent with before | new
  · exact quiet.carried sender frame before reader foreign parsed read stream record member
  · obtain ⟨rfl, rfl⟩ := Prod.mk.inj (List.mem_singleton.mp new)
    rw [← invariant.identity] at foreign
    obtain ⟨sendable, known⟩ := invariant.exported kind foreign read stream member
    have later : (world.update sender kind.operation []).Known record.keyed :=
      known_update.mpr (Or.inl known)
    exact ⟨sendable, later⟩

theorem Invariant.deliver (distinct : Function.Injective ids) {index : Nat}
    (legal : world.Legal (.deliver node index)) :
    (world.step (.deliver node index)).Invariant ids := by
  simp only [step]
  cases found : world.sent[index]? with
  | none => exact invariant
  | some post =>
    obtain ⟨sender, frame⟩ := post
    simp only [Legal, found] at legal
    obtain ⟨other, room⟩ := legal
    have wasSent := List.mem_of_getElem? found
    have foreign : (world.managers node).nodeId ≠ ids sender := by
      rw [invariant.identity]
      exact distinct.ne other
    have stays : Operation.importFrom frame ≠ .compact := nofun
    have noWrap : (world.managers node).NoWrap (.importFrom frame) := nofun
    simp only [FleeceStateManager.merged]
    cases read : parseFrame (world.managers node).nodeId frame with
    | error halt =>
      refine invariant.untouched stays noWrap fun key touched => ?_
      obtain ⟨parsed, success, _⟩ := touched
      rw [read] at success
      cases success
    | ok parsed =>
      simp only
      split_ifs with stream
      · have carried :=
          invariant.carried sender frame wasSent _ foreign parsed read stream
        have all : (parsed.records.filter fun record => FleeceStateManager.mergeable
            record.name.toCString record.data record.isTombstone) = parsed.records :=
          List.filter_eq_self.mpr fun record member => (carried record member).1.mergeable
        rw [all]
        refine invariant.learn stays noWrap ?_ ?_
        · show FleeceStateManager.Summarises ((world.managers node).importFrom frame).manager _
          rw [FleeceStateManager.importFrom_manager, read]
          simp only [FleeceStateManager.hasRoom, read, stream] at room ⊢
          have touched : ((world.managers node).touchPeer parsed.senderNodeId).Summarises
              (world.log node) :=
            (invariant.summary node).of_view (FleeceStateManager.view_of_same
              (FleeceStateManager.touchPeer_fields _ _))
          exact touched.mergeRecords ((invariant.packed node).touchPeer _).store
            (fun record member => (carried record member).1) (of_decide_eq_true room)
        · intro entry member
          obtain ⟨record, isRead, rfl⟩ := List.mem_map.mp member
          exact (carried record isRead).2
      · refine invariant.untouched stays noWrap fun key touched => stream ?_
        obtain ⟨again, success, record, _, same⟩ := touched
        rw [read] at success
        cases success
        exact (Prod.mk.inj same).2.symm

end Keeps

omit [DecidableEq Node] in
theorem invariant_start {ids : Node → UInt64} {managers : Node → FleeceStateManager}
    (created : ∀ node, FleeceStateManager.createWithNodeId (ids node) = some (managers node)) :
    (start managers).Invariant ids where
  packed node := FleeceStateManager.packedInvariant_create (created node)
  clock node := FleeceStateManager.clockInvariant_create (created node)
  identity node := FleeceStateManager.node_after (created node) []
  summary node := FleeceStateManager.summarises_create (created node)
  keyed _ known := by
    obtain ⟨_, absent⟩ := known
    exact absurd absent List.not_mem_nil
  authored _ known := by
    obtain ⟨_, absent⟩ := known
    exact absurd absent List.not_mem_nil
  unique _ _ known := by
    obtain ⟨_, absent⟩ := known
    exact absurd absent List.not_mem_nil
  carried _ _ absent := absurd absent List.not_mem_nil

theorem Invariant.run {ids : Node → UInt64} (distinct : Function.Injective ids)
    (invariant : world.Invariant ids) {acts : List (Act Node)}
    (legal : Along step Legal world acts) : (runFrom step world acts).Invariant ids := by
  refine legal.invariant (fun world act holds allowed => ?_) invariant
  cases act with
  | write node change => exact holds.write distinct allowed
  | keep node operation => exact holds.keep allowed
  | send node kind => exact holds.send kind
  | deliver node index => exact holds.deliver distinct allowed

omit [DecidableEq Node] in
theorem Invariant.known_of_occurs {ids : Node → UInt64} (invariant : world.Invariant ids)
    {entry : UInt32 × GossipRecord} (occurs : world.Occurs entry) : world.Known entry := by
  rcases occurs with ⟨node, held⟩ | ⟨sender, frame, reader, parsed, wasSent, foreign, read, stream,
    record, member, rfl⟩ | known
  · exact ⟨node, (invariant.summary node entry.1).among entry.2 held⟩
  · rw [invariant.identity] at foreign
    exact (invariant.carried sender frame wasSent reader foreign parsed read stream record member).2
  · exact known

omit [DecidableEq Node] in
/-- Nodes that have written or merged the same records hold the same shared fields. -/
theorem Invariant.agree {ids : Node → UInt64} (invariant : world.Invariant ids)
    {node other : Node} (same : ∀ entry, entry ∈ world.log node ↔ entry ∈ world.log other)
    (key : UInt32) : (world.managers node).view (key, sharedOwnerId) =
      (world.managers other).view (key, sharedOwnerId) := by
  have seen : {record | (key, record) ∈ world.log other} =
      {record | (key, record) ∈ world.log node} := by
    ext record
    exact (same (key, record)).symm
  have holdsOther := invariant.summary other key
  rw [seen] at holdsOther
  refine (invariant.summary node key).unique (fun first member second memberSecond equal => ?_)
    holdsOther
  exact (Prod.mk.inj (invariant.unique (key, first) (key, second) ⟨node, member⟩
    ⟨node, memberSecond⟩ equal)).2

/-- Strong convergence. In every world a legal run of nodes with distinct ids reaches, a key, a
timestamp and an author name at most one record among all stores and all frames; the shared slot
of a key holds the greatest of the records its node has written or merged for the key; and nodes
that have written or merged the same records hold the same shared fields. -/
theorem shared_convergence {ids : Node → UInt64} (distinct : Function.Injective ids)
    {managers : Node → FleeceStateManager}
    (created : ∀ node, FleeceStateManager.createWithNodeId (ids node) = some (managers node))
    (acts : List (Act Node)) (legal : Along step Legal (start managers) acts) :
    (∀ key first second, (runFrom step (start managers) acts).Occurs (key, first) →
      (runFrom step (start managers) acts).Occurs (key, second) →
      first.timestamp = second.timestamp → first.originNodeId = second.originNodeId →
      first = second) ∧
    (∀ node key, Register.Holds GossipRecord.version
      {record | (key, record) ∈ (runFrom step (start managers) acts).log node}
      (((runFrom step (start managers) acts).managers node).view (key, sharedOwnerId))) ∧
    ∀ node other,
      (∀ entry, entry ∈ (runFrom step (start managers) acts).log node ↔
        entry ∈ (runFrom step (start managers) acts).log other) →
      (∀ key, ((runFrom step (start managers) acts).managers node).view (key, sharedOwnerId) =
        ((runFrom step (start managers) acts).managers other).view (key, sharedOwnerId)) ∧
      ((runFrom step (start managers) acts).managers node).computeStreamDigest sharedOwnerId =
        ((runFrom step (start managers) acts).managers other).computeStreamDigest
          sharedOwnerId := by
  have invariant := (invariant_start created).run distinct legal
  refine ⟨fun key first second occurs occursSecond stamp origin => ?_,
    fun node key => invariant.summary node key, fun node other same => ?_⟩
  · have equal := invariant.unique _ _ (invariant.known_of_occurs occurs)
      (invariant.known_of_occurs occursSecond) (version_inj.mpr ⟨stamp, origin⟩)
    exact (Prod.mk.inj equal).2
  · refine ⟨invariant.agree same, ?_⟩
    refine FleeceStateManager.digest_congr (invariant.packed node).store.distinct
      (invariant.packed other).store.distinct fun key => ?_
    rw [FleeceStateManager.liveView, invariant.agree same, FleeceStateManager.liveView]

/-- Two nodes write one field in turn, and each imports what the other has sent, one of them
twice. -/
theorem shared_convergence_two_nodes :
    let goal : CString := ⟨[0x67], by decide⟩
    let ids : Fin 2 → UInt64 := ![7, 9]
    let acts : List (Act (Fin 2)) := [.write 0 (.setShared goal ⟨[1], by decide⟩),
      .send 0 .shared, .deliver 1 0, .write 1 (.setShared goal ⟨[2], by decide⟩),
      .send 1 (.sharedDeltaBounded 0 320), .deliver 0 1, .deliver 0 1]
    let world := runFrom step (start fun node => FleeceStateManager.blank (ids node)) acts
    (world.managers 0).view (hashName goal, sharedOwnerId) =
        some ⟨9, false, .copy goal, 2, ⟨[2], by decide⟩⟩ ∧
      (world.managers 1).view (hashName goal, sharedOwnerId) =
        (world.managers 0).view (hashName goal, sharedOwnerId) := by
  intro goal ids acts world
  have created (node : Fin 2) : FleeceStateManager.createWithNodeId (ids node) =
      some (FleeceStateManager.blank (ids node)) := by
    fin_cases node <;> rfl
  have legal : Along step Legal (start fun node => FleeceStateManager.blank (ids node)) acts := by
    decide +kernel
  obtain ⟨_, _, agree⟩ := shared_convergence (show Function.Injective ids by decide) created acts
    legal
  have learned : world.log 1 ⊆ world.log 0 ∧ world.log 0 ⊆ world.log 1 := by decide +kernel
  obtain ⟨same, _⟩ := agree 1 0 fun entry =>
    ⟨fun member => learned.1 member, fun member => learned.2 member⟩
  exact ⟨by decide +kernel, same _⟩

end World

end Fleece
