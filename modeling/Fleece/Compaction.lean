/-
This file compares a run that compacts the array with the same run without the
compaction. `compact` drops the tombstones without a name, which no read reports,
so the two runs should not be told apart: they hold the same record under every
pair, up to such tombstones, and return the same results, up to the order of
listings and of exported records.

That is so as long as the compaction leaves no slot behind. A dropped tombstone
that no kept slot was moved onto still exists past `field_count`; a later write
finds and revives it there, and a later insertion takes the slot from it.
-/

import Fleece.Refinement

namespace Fleece

namespace FleeceStateManager

/-! ### A compaction that leaves nothing behind -/

/-- A step that does not compact, or compacts and leaves no tombstone existing at or past the
number of slots it keeps. -/
def Tidy (manager : FleeceStateManager) (operation : Operation) : Prop :=
  operation.isCompact = true → ∀ i, manager.compact.fieldCount ≤ i.val →
    (manager.fields i).slotExists = true → keptByCompact (manager.fields i) = true

instance (manager : FleeceStateManager) (operation : Operation) :
    Decidable (manager.Tidy operation) :=
  inferInstanceAs (Decidable (_ → ∀ _, _ → _ → _))

section Compact

variable {manager : FleeceStateManager} (invariant : manager.PackedInvariant)
  (tidy : manager.Tidy .compact)
include invariant tidy

theorem compact_packedInvariant : manager.compact.PackedInvariant := by
  refine ⟨compact_storeInvariant invariant.store, fun j => ⟨fun present => ?_, fun before => ?_⟩⟩
  · by_contra after
    have left : manager.compact.fields j = _ :=
      Slots.retain_beyond keptByCompact .zero manager.fields (not_lt.mp after)
    split_ifs at left with kept
    · rw [left] at present
      exact Bool.false_ne_true present
    · rw [left] at present
      exact kept (tidy rfl j (not_lt.mp after) present)
  · have kept := (Slots.retain_front keptByCompact .zero manager.fields before).1
    exact (Bool.and_eq_true_iff.mp kept).1

theorem compact_lookup_iff {key : UInt32} {owner : UInt64} {f : FieldEntry} :
    manager.compact.lookup key owner = some f ↔
      manager.lookup key owner = some f ∧ keptByCompact f = true := by
  have compacted := compact_packedInvariant invariant tidy
  constructor
  · intro found
    obtain ⟨j, held, labelled⟩ := (Slots.lookup_eq_some_iff compacted.store.distinct).mp found
    have before : j.val < manager.compact.fieldCount := by
      refine (compacted.packed j).mp ?_
      rw [held]
      exact (fieldLabel_eq_some_iff.mp labelled).1
    obtain ⟨kept, i, source⟩ := Slots.retain_front keptByCompact .zero manager.fields before
    rw [show (Slots.retain keptByCompact .zero manager.fields).1 j = f from held] at kept source
    exact ⟨(Slots.lookup_eq_some_iff invariant.store.distinct).mpr ⟨i, source, labelled⟩, kept⟩
  · rintro ⟨found, kept⟩
    obtain ⟨i, held, labelled⟩ := (Slots.lookup_eq_some_iff invariant.store.distinct).mp found
    obtain ⟨j, source⟩ := (exists_compact_iff manager kept).mpr ⟨i, held⟩
    exact (Slots.lookup_eq_some_iff compacted.store.distinct).mpr ⟨j, source, labelled⟩

/-- The record under a pair is kept, unless no read reports it. -/
theorem view_compact (pair : UInt32 × UInt64) :
    manager.compact.view pair = (manager.view pair).filter GossipRecord.isVisible := by
  have kept {f : FieldEntry} (found : manager.lookup pair.1 pair.2 = some f) :
      keptByCompact f = f.record.isVisible := by
    obtain ⟨_, _, present, _⟩ := exists_of_lookup found
    rw [keptByCompact, present, Bool.true_and]
    rfl
  unfold FleeceStateManager.view
  cases found : manager.lookup pair.1 pair.2 with
  | none =>
    have absent : manager.compact.lookup pair.1 pair.2 = none := by
      refine Option.eq_none_iff_forall_ne_some.mpr fun f compacted => ?_
      rw [((compact_lookup_iff invariant tidy).mp compacted).1] at found
      cases found
    rw [absent]
    rfl
  | some f =>
    rw [Option.map_some, Option.filter_some]
    split_ifs with visible
    · rw [(compact_lookup_iff invariant tidy).mpr ⟨found, (kept found).trans visible⟩,
        Option.map_some]
    · have absent : manager.compact.lookup pair.1 pair.2 = none := by
        refine Option.eq_none_iff_forall_ne_some.mpr fun g compacted => ?_
        obtain ⟨old, keptOld⟩ := (compact_lookup_iff invariant tidy).mp compacted
        rw [found] at old
        rw [← Option.some.inj old, kept found] at keptOld
        exact visible keptOld
      rw [absent]
      rfl

end Compact

/-! ### Two stores that read alike -/

/-- The two stores hold the same records, up to tombstones without a name. -/
structure Alike (plain compacted : FleeceStateManager) : Prop where
  node : compacted.nodeId = plain.nodeId
  clock : compacted.localTimestamp = plain.localTimestamp
  visible : ∀ pair, (compacted.view pair).filter GossipRecord.isVisible =
    (plain.view pair).filter GossipRecord.isVisible

theorem alike_compact {manager : FleeceStateManager} (invariant : manager.PackedInvariant)
    (tidy : manager.Tidy .compact) : manager.Alike manager.compact := by
  refine ⟨rfl, rfl, fun pair => ?_⟩
  rw [view_compact invariant tidy, Option.filter_filter]
  simp only [Bool.and_self]

theorem Alike.of_same {plain compacted nextPlain nextCompacted : FleeceStateManager}
    (alike : plain.Alike compacted) (plainFields : nextPlain.fields = plain.fields)
    (compactedFields : nextCompacted.fields = compacted.fields)
    (node : nextCompacted.nodeId = nextPlain.nodeId)
    (clock : nextCompacted.localTimestamp = nextPlain.localTimestamp) :
    nextPlain.Alike nextCompacted := by
  refine ⟨node, clock, fun pair => ?_⟩
  rw [view_of_same plainFields, view_of_same compactedFields]
  exact alike.visible pair

section Alike

variable {plain compacted : FleeceStateManager} (alike : plain.Alike compacted)
include alike

theorem Alike.live : compacted.liveView = plain.liveView := by
  funext pair
  have visible : ∀ found : Option GossipRecord, (found.filter fun record => !record.isTombstone) =
      (found.filter GossipRecord.isVisible).filter fun record => !record.isTombstone := by
    intro found
    rw [Option.filter_filter]
    refine congrArg (Option.filter · found) (funext fun record => ?_)
    unfold GossipRecord.isVisible
    cases record.isTombstone with
    | false => rfl
    | true => exact (Bool.and_false _).symm
  unfold liveView
  rw [visible, alike.visible, ← visible]

omit alike in
/-- Only slots of the local node may be invisible. -/
theorem visible_of_foreign {manager : FleeceStateManager} (invariant : manager.StoreInvariant)
    {pair : UInt32 × UInt64} (foreign : pair.2 ≠ manager.nodeId) :
    (manager.view pair).filter GossipRecord.isVisible = manager.view pair := by
  cases found : manager.view pair with
  | none => rfl
  | some record =>
    have named := invariant.view_named foreign found
    rw [Option.filter_some, if_pos]
    rw [GossipRecord.isVisible, named, Bool.or_true]

theorem Alike.view_of_foreign (invariant : plain.StoreInvariant)
    (invariantCompacted : compacted.StoreInvariant) {pair : UInt32 × UInt64}
    (foreign : pair.2 ≠ plain.nodeId) : compacted.view pair = plain.view pair := by
  rw [← visible_of_foreign invariant foreign, ← alike.visible,
    visible_of_foreign invariantCompacted (alike.node ▸ foreign)]

/-- The name a raw-key write finds in its slot. -/
theorem Alike.name (pair : UInt32 × UInt64) :
    ((compacted.view pair).map GossipRecord.name).getD .empty =
      ((plain.view pair).map GossipRecord.name).getD .empty := by
  have read : ∀ found : Option GossipRecord, (found.map GossipRecord.name).getD .empty =
      ((found.filter GossipRecord.isVisible).map GossipRecord.name).getD .empty := by
    intro found
    cases found with
    | none => rfl
    | some record =>
      rw [Option.filter_some]
      split_ifs with visible
      · rfl
      · -- an invisible record has the empty name
        rw [GossipRecord.isVisible, Bool.or_eq_true, not_or, GossipRecord.isNamed_iff, not_not]
          at visible
        exact FieldName.ext visible.2
  rw [read, alike.visible, ← read]

theorem Alike.request (change : LocalWrite) :
    change.request compacted.nodeId compacted.localTimestamp compacted.view =
      change.request plain.nodeId plain.localTimestamp plain.view := by
  have live : LocalWrite.request.live compacted.view = LocalWrite.request.live plain.view := by
    funext pair
    rw [liveOf_view, liveOf_view, alike.live]
  have bury (pair : UInt32 × UInt64) (author : GossipRecord → GossipRecord) :
      LocalWrite.request.bury plain.localTimestamp compacted.view pair author =
        LocalWrite.request.bury plain.localTimestamp plain.view pair author := by
    unfold LocalWrite.request.bury
    rw [live]
  rw [alike.node, alike.clock]
  cases change with
  | set key data =>
    simp only [LocalWrite.request]
    rw [alike.name]
  | remove key =>
    simp only [LocalWrite.request]
    exact bury _ _
  | setNamed name data => simp only [LocalWrite.request]
  | removeNamed name =>
    simp only [LocalWrite.request]
    exact bury _ _
  | setShared name data => simp only [LocalWrite.request]
  | removeShared name =>
    simp only [LocalWrite.request]
    exact bury _ _
  | setSharedCas name expected data =>
    simp only [LocalWrite.request]
    rw [live]

/-- The same record stored in both. -/
theorem Alike.stored {nextPlain nextCompacted : FleeceStateManager} {f g : FieldEntry}
    (invariant : plain.PackedInvariant) (invariantCompacted : compacted.PackedInvariant)
    (stored : Stored plain nextPlain f) (storedCompacted : Stored compacted nextCompacted g)
    (pair : (g.key, g.nodeId) = (f.key, f.nodeId)) (record : g.record = f.record)
    (node : nextCompacted.nodeId = nextPlain.nodeId)
    (clock : nextCompacted.localTimestamp = nextPlain.localTimestamp) :
    nextPlain.Alike nextCompacted := by
  refine ⟨node, clock, fun other => ?_⟩
  rw [view_stored stored invariant, view_stored storedCompacted invariantCompacted, pair, record]
  rcases eq_or_ne other (f.key, f.nodeId) with rfl | different
  · rw [Function.update_self, Function.update_self]
  · rw [Function.update_of_ne different, Function.update_of_ne different]
    exact alike.visible other

theorem Alike.write (invariant : plain.PackedInvariant)
    (invariantCompacted : compacted.PackedInvariant) {change : LocalWrite}
    (room : plain.hasRoom (.write change) = true)
    (roomCompacted : compacted.hasRoom (.write change) = true) :
    (change.exec compacted).2 = (change.exec plain).2 ∧
      (change.exec plain).1.Alike (change.exec compacted).1 := by
  have outcome := exec_outcome plain change
  have outcomeCompacted := exec_outcome compacted change
  simp only [hasRoom] at room roomCompacted
  rw [alike.request change] at outcomeCompacted roomCompacted
  generalize change.request plain.nodeId plain.localTimestamp plain.view = request
    at outcome outcomeCompacted room roomCompacted
  generalize change.exec plain = result at outcome ⊢
  generalize change.exec compacted = resultCompacted at outcomeCompacted ⊢
  cases outcome with
  | refused code denied =>
    cases outcomeCompacted with
    | refused codeCompacted deniedCompacted =>
      rw [denied] at deniedCompacted
      exact ⟨(Except.error.inj deniedCompacted).symm, alike⟩
    | noSlot next pair record accepted =>
      rw [denied] at accepted
      cases accepted
    | wrote next f accepted =>
      rw [denied] at accepted
      cases accepted
  | noSlot next pair record accepted absent full =>
    rw [accepted] at room
    exact (not_full_of_hasSlot room absent full).elim
  | wrote next f accepted stored node peers tick clock =>
    cases outcomeCompacted with
    | refused code denied =>
      rw [accepted] at denied
      cases denied
    | noSlot nextCompacted pair record acceptedCompacted absent full =>
      rw [acceptedCompacted] at roomCompacted
      exact (not_full_of_hasSlot roomCompacted absent full).elim
    | wrote nextCompacted g acceptedCompacted storedCompacted nodeCompacted peersCompacted
        tickCompacted clockCompacted =>
      rw [accepted] at acceptedCompacted
      obtain ⟨pair, record⟩ := Prod.mk.inj (Except.ok.inj acceptedCompacted)
      refine ⟨rfl, alike.stored invariant invariantCompacted stored storedCompacted pair.symm
        record.symm ?_ ?_⟩
      · rw [node, nodeCompacted, alike.node]
      · rw [clock, clockCompacted, alike.clock]

/-- The same record merged into both. -/
theorem Alike.merge {pair : UInt32 × UInt64} {record : GossipRecord}
    {outranks : GossipRecord → Prop} {result resultCompacted : FleeceStateManager × Int}
    (invariant : plain.PackedInvariant) (invariantCompacted : compacted.PackedInvariant)
    (foreign : pair.2 ≠ plain.nodeId) (slot : plain.hasSlot pair = true)
    (slotCompacted : compacted.hasSlot pair = true)
    (outcome : MergeOutcome plain pair record outranks result)
    (outcomeCompacted : MergeOutcome compacted pair record outranks resultCompacted) :
    resultCompacted.2 = result.2 ∧ result.1.Alike resultCompacted.1 := by
  have view := alike.view_of_foreign invariant.store invariantCompacted.store foreign
  cases outcome with
  | kept old found stays =>
    cases outcomeCompacted with
    | kept oldCompacted foundCompacted staysCompacted => exact ⟨rfl, alike⟩
    | noSlot absent full => exact (not_full_of_hasSlot slotCompacted absent full).elim
    | stored next f storedAt rest label held newer =>
      exact absurd (newer old (view.trans found)) stays
  | noSlot absent full => exact (not_full_of_hasSlot slot absent full).elim
  | stored next f storedAt rest label held newer =>
    cases outcomeCompacted with
    | kept old found stays => exact absurd (newer old (view.symm.trans found)) stays
    | noSlot absent full => exact (not_full_of_hasSlot slotCompacted absent full).elim
    | stored nextCompacted g storedCompacted restCompacted labelCompacted heldCompacted _ =>
      refine ⟨rfl, alike.stored invariant invariantCompacted storedAt storedCompacted
        (labelCompacted.trans label.symm) (heldCompacted.trans held.symm) ?_ ?_⟩
      · rw [rest, restCompacted, alike.node]
      · rw [rest, restCompacted, alike.clock]

theorem Alike.raiseClock (timestamp : UInt64) :
    (plain.raiseClock timestamp).Alike (compacted.raiseClock timestamp) := by
  refine ⟨alike.node, ?_, alike.visible⟩
  unfold FleeceStateManager.raiseClock
  rw [alike.clock]

theorem Alike.touchPeer (nodeId : UInt64) :
    (plain.touchPeer nodeId).Alike (compacted.touchPeer nodeId) := by
  refine alike.of_same (touchPeer_fields plain nodeId) (touchPeer_fields compacted nodeId) ?_ ?_
  · rw [touchPeer_nodeId, touchPeer_nodeId, alike.node]
  · rw [touchPeer_localTimestamp, touchPeer_localTimestamp, alike.clock]

omit alike in
theorem hasSlot_touchPeer (manager : FleeceStateManager) (nodeId : UInt64)
    (pair : UInt32 × UInt64) : (manager.touchPeer nodeId).hasSlot pair = manager.hasSlot pair := by
  unfold hasSlot
  rw [view_of_same (touchPeer_fields manager nodeId), touchPeer_rest]

theorem Alike.mergeShared (invariant : plain.PackedInvariant)
    (invariantCompacted : compacted.PackedInvariant) {origin : UInt64} {name : CString}
    {data : Blob} {timestamp : UInt64} {isTombstone : Bool}
    (room : plain.hasRoom (.mergeShared origin name data timestamp isTombstone) = true)
    (roomCompacted : compacted.hasRoom (.mergeShared origin name data timestamp isTombstone) = true) :
    (compacted.mergeShared origin name data timestamp isTombstone).2 =
        (plain.mergeShared origin name data timestamp isTombstone).2 ∧
      (plain.mergeShared origin name data timestamp isTombstone).1.Alike
        (compacted.mergeShared origin name data timestamp isTombstone).1 := by
  by_cases accepted : mergeable name data isTombstone = true
  · simp only [hasRoom, accepted, Bool.not_true, Bool.false_or] at room roomCompacted
    exact (alike.raiseClock timestamp).merge (invariant.of_same rfl rfl rfl)
      (invariantCompacted.of_same rfl rfl rfl) invariant.store.realNode.symm room roomCompacted
      (mergeShared_outcome plain origin name data timestamp isTombstone accepted)
      (mergeShared_outcome compacted origin name data timestamp isTombstone accepted)
  · unfold FleeceStateManager.mergeShared
    rw [Bool.eq_false_of_not_eq_true accepted, Bool.not_false, if_pos rfl, if_pos rfl]
    exact ⟨rfl, alike⟩

theorem Alike.mergeNamed (invariant : plain.PackedInvariant)
    (invariantCompacted : compacted.PackedInvariant) {owner : UInt64} {name : CString}
    {data : Blob} {timestamp : UInt64} {isTombstone : Bool}
    (room : plain.hasRoom (.mergeNamed owner name data timestamp isTombstone) = true)
    (roomCompacted : compacted.hasRoom (.mergeNamed owner name data timestamp isTombstone) = true) :
    (compacted.mergeNamed owner name data timestamp isTombstone).2 =
        (plain.mergeNamed owner name data timestamp isTombstone).2 ∧
      (plain.mergeNamed owner name data timestamp isTombstone).1.Alike
        (compacted.mergeNamed owner name data timestamp isTombstone).1 := by
  by_cases accepted : mergeable name data isTombstone = true
  · by_cases own : owner = plain.nodeId
    · unfold FleeceStateManager.mergeNamed
      rw [accepted, Bool.not_true, if_neg Bool.false_ne_true, if_neg Bool.false_ne_true, if_pos own,
        if_pos (own.trans alike.node.symm)]
      exact ⟨rfl, alike⟩
    · have ownCompacted : owner ≠ compacted.nodeId := alike.node.symm ▸ own
      simp only [hasRoom, accepted, Bool.not_true, Bool.false_or, Bool.or_eq_true, beq_iff_eq, own,
        ownCompacted, false_or] at room roomCompacted
      rw [← hasSlot_touchPeer _ owner] at room roomCompacted
      refine ((alike.touchPeer owner).raiseClock timestamp).merge
        ((invariant.touchPeer owner).of_same rfl rfl rfl)
        ((invariantCompacted.touchPeer owner).of_same rfl rfl rfl) ?_ room roomCompacted
        (mergeNamed_outcome plain owner name data timestamp isTombstone accepted own)
        (mergeNamed_outcome compacted owner name data timestamp isTombstone accepted ownCompacted)
      show owner ≠ (plain.touchPeer owner).nodeId
      rwa [touchPeer_nodeId]
  · unfold FleeceStateManager.mergeNamed
    rw [Bool.eq_false_of_not_eq_true accepted, Bool.not_false, if_pos rfl, if_pos rfl]
    exact ⟨rfl, alike⟩

theorem Alike.mergeRecord (invariant : plain.PackedInvariant)
    (invariantCompacted : compacted.PackedInvariant) {owner : UInt64} {record : GossipRecord}
    (room : hasSlotFor owner plain record = true)
    (roomCompacted : hasSlotFor owner compacted record = true) :
    (plain.mergeRecord owner record).Alike (compacted.mergeRecord owner record) := by
  unfold hasSlotFor at room roomCompacted
  unfold FleeceStateManager.mergeRecord
  split_ifs with isShared
  · subst isShared
    exact (alike.mergeShared invariant invariantCompacted room roomCompacted).2
  · refine (alike.mergeNamed invariant invariantCompacted ?_ ?_).2
    · rw [Bool.or_eq_true] at room
      simp only [hasRoom, Bool.or_eq_true]
      exact room.imp_left Or.inl
    · rw [Bool.or_eq_true] at roomCompacted
      simp only [hasRoom, Bool.or_eq_true]
      exact roomCompacted.imp_left Or.inl

end Alike

theorem Alike.mergeRecords {plain compacted : FleeceStateManager} (alike : plain.Alike compacted)
    (invariant : plain.PackedInvariant) (invariantCompacted : compacted.PackedInvariant)
    {owner : UInt64} {records : List GossipRecord}
    (room : Along (FleeceStateManager.mergeRecord owner)
      (fun state record => hasSlotFor owner state record = true) plain records)
    (roomCompacted : Along (FleeceStateManager.mergeRecord owner)
      (fun state record => hasSlotFor owner state record = true) compacted records) :
    (plain.mergeRecords owner records).Alike (compacted.mergeRecords owner records) := by
  induction records generalizing plain compacted with
  | nil => exact alike
  | cons record rest inductionHypothesis =>
    refine inductionHypothesis
      (alike.mergeRecord invariant invariantCompacted room.1 roomCompacted.1)
      (mergeSteps_packedInvariant ?_ invariant) (mergeSteps_packedInvariant ?_ invariantCompacted)
      room.2 roomCompacted.2
    · exact mergeRecord_steps invariant.store.realNode owner record
    · exact mergeRecord_steps invariantCompacted.store.realNode owner record

/-! ### Results that read alike -/

/-- Two gossip frames that say the same, their records in any order. -/
def FramesAlike (first second : Blob) : Prop :=
  ∃ contents other : FrameContents, first = contents.frame ∧ second = other.frame ∧
    contents.senderNodeId = other.senderNodeId ∧ contents.ownerNodeId = other.ownerNodeId ∧
    contents.hw = other.hw ∧ contents.digest = other.digest ∧
    contents.records.Perm other.records

end FleeceStateManager

/-- Two results that say the same, listings and exported records in any order. -/
def Output.Alike : Output → Output → Prop
  | .names first, .names second => first.Perm second
  | .frame first, .frame second => FleeceStateManager.FramesAlike first second
  | first, second => first = second

/-- The operations whose results are compared. -/
def Operation.isCompared : Operation → Bool
  | .write _ => true
  | .mergeNamed .. => true
  | .mergeShared .. => true
  | .importFrom _ => true
  | .query (.get _) => true
  | .query (.existsField _) => true
  | .query (.getVersion _) => true
  | .query (.getNamed _ _) => true
  | .query (.existsNamed _ _) => true
  | .query (.getMetaNamed _ _) => true
  | .query (.listFields _ _) => true
  | .query (.streamDigest _) => true
  | .query .exportFrame => true
  | .query (.exportDelta _) => true
  | .query .exportShared => true
  | .query (.exportSharedDelta _) => true
  | _ => false

namespace FleeceStateManager

/-- A listing has room for every name. -/
def Unclipped (manager : FleeceStateManager) : Operation → Prop
  | .query (.listFields owner maxNames) =>
    (manager.slots.filter (isLiveNamed owner)).length ≤ maxNames
  | _ => True

theorem exports_alike {first second : Registry} {owner since : UInt64} {answer other : Output}
    (node : first.nodeId = second.nodeId) (named : first.named owner = second.named owner)
    (exports : first.Exports owner since answer) (exportsOther : second.Exports owner since other) :
    answer.Alike other := by
  obtain ⟨frame, rfl, contents, rfl, sender, stream, hw, digest, records⟩ := exports
  obtain ⟨frameOther, rfl, contentsOther, rfl, senderOther, streamOther, hwOther, digestOther,
    recordsOther⟩ := exportsOther
  refine ⟨contents, contentsOther, rfl, rfl, ?_, stream.trans streamOther.symm, ?_, ?_, ?_⟩
  · rw [sender, senderOther, node]
  · rw [hw, hwOther, named]
  · rw [digest, digestOther, Registry.digest, Registry.digest, Registry.liveNamed,
      Registry.liveNamed, named]
  · refine Multiset.coe_eq_coe.mp ?_
    rw [records, recordsOther, Registry.newer, Registry.newer, named]

theorem listing_perm {names other : List FieldName} {listed : Multiset FieldName} {maxNames : Nat}
    (some : (names : Multiset FieldName) ≤ listed)
    (length : names.length = min maxNames (Multiset.card listed))
    (someOther : (other : Multiset FieldName) ≤ listed)
    (lengthOther : other.length = min maxNames (Multiset.card listed))
    (room : Multiset.card listed ≤ maxNames) : names.Perm other := by
  have all {names : List FieldName} (some : (names : Multiset FieldName) ≤ listed)
      (length : names.length = min maxNames (Multiset.card listed)) : ↑names = listed := by
    refine Multiset.eq_of_le_of_card_le some ?_
    rw [Multiset.coe_card, length, min_eq_right room]
  exact Multiset.coe_eq_coe.mp ((all some length).trans (all someOther lengthOther).symm)

section Results

variable {plain compacted : FleeceStateManager} (alike : plain.Alike compacted)
  (invariant : plain.PackedInvariant) (invariantCompacted : compacted.PackedInvariant)
include alike invariant invariantCompacted

theorem Alike.query {asked : Query} (isCompared : (Operation.query asked).isCompared = true)
    (unclipped : plain.Unclipped (.query asked)) :
    (asked.answer plain).Alike (asked.answer compacted) := by
  obtain ⟨registry, refines⟩ := exists_refines invariant.store.distinct
  obtain ⟨other, refinesOther⟩ := exists_refines invariantCompacted.store.distinct
  have node : registry.nodeId = other.nodeId := by
    rw [refines.node, refinesOther.node, alike.node]
  have live : registry.live = other.live := by
    rw [refines.live, refinesOther.live, alike.live]
  have named (owner : UInt64) : registry.named owner = other.named owner := by
    refine Registry.named_congr (fun pair => ?_) owner
    rw [refines.view, refinesOther.view, alike.visible]
  have liveNamed (owner : UInt64) : registry.liveNamed owner = other.liveNamed owner := by
    rw [Registry.liveNamed, Registry.liveNamed, named]
  have answers := refines.answers invariant.store asked
  have answersOther := refinesOther.answers invariantCompacted.store asked
  cases asked with
  | get key =>
    simp only [Registry.Answers, node, live] at answers answersOther
    exact answers.trans answersOther.symm
  | existsField key =>
    simp only [Registry.Answers, node, live] at answers answersOther
    exact answers.trans answersOther.symm
  | getVersion key =>
    simp only [Registry.Answers, node, live] at answers answersOther
    exact answers.trans answersOther.symm
  | getNamed owner name =>
    simp only [Registry.Answers, live] at answers answersOther
    exact answers.trans answersOther.symm
  | existsNamed owner name =>
    simp only [Registry.Answers, live] at answers answersOther
    exact answers.trans answersOther.symm
  | getMetaNamed owner name =>
    simp only [Registry.Answers, live] at answers answersOther
    exact answers.trans answersOther.symm
  | streamDigest owner =>
    simp only [Registry.Answers, Registry.digest, liveNamed] at answers answersOther
    exact answers.trans answersOther.symm
  | listFields owner maxNames =>
    obtain ⟨names, listed, some, length⟩ := answers
    obtain ⟨namesOther, listedOther, someOther, lengthOther⟩ := answersOther
    have room : Multiset.card (registry.liveNamed owner) ≤ maxNames := by
      rw [refines.liveNamed invariant.store.distinct, Multiset.coe_card, ← length_liveNamed]
      exact unclipped
    rw [← liveNamed] at someOther lengthOther
    rw [← Multiset.card_map fun entry => entry.2.name] at length lengthOther room
    rw [listed, listedOther]
    exact listing_perm some length someOther lengthOther room
  | exportFrame =>
    simp only [Registry.Answers, node] at answers answersOther
    exact exports_alike node (named _) answers answersOther
  | exportDelta since =>
    simp only [Registry.Answers, node] at answers answersOther
    exact exports_alike node (named _) answers answersOther
  | exportShared => exact exports_alike node (named _) answers answersOther
  | exportSharedDelta since => exact exports_alike node (named _) answers answersOther
  | sharedAtLeast keyHash timestamp => cases isCompared
  | listNodes maxNodes => cases isCompared
  | selfHw => cases isCompared
  | sharedHw => cases isCompared
  | peerSelfHw peerId => cases isCompared
  | countNewShared since => cases isCompared
  | exportSharedIndex => cases isCompared
  | exportSharedByHash hashes => cases isCompared
  | listHeardPeers maxNodes => cases isCompared
  | ticksSinceSeen nodeId => cases isCompared
  | ticksSinceLastWrite => cases isCompared

theorem Alike.digest (owner : UInt64) :
    compacted.computeStreamDigest owner = plain.computeStreamDigest owner := by
  have answer := alike.query invariant invariantCompacted
    (show (Operation.query (.streamDigest owner)).isCompared = true from rfl) trivial
  exact (Output.word.inj answer).symm

theorem Alike.importFrom {frame : Blob} (room : plain.hasRoom (.importFrom frame) = true)
    (roomCompacted : compacted.hasRoom (.importFrom frame) = true) :
    ((Operation.importFrom frame).exec compacted).2 = ((Operation.importFrom frame).exec plain).2 ∧
      (plain.importFrom frame).manager.Alike (compacted.importFrom frame).manager := by
  rw [importFrom_output, importFrom_output, importFrom_manager, importFrom_manager, alike.node]
  simp only [hasRoom] at room roomCompacted
  rw [alike.node] at roomCompacted
  cases read : parseFrame plain.nodeId frame with
  | error halt => exact ⟨rfl, alike⟩
  | ok parsed =>
    rw [read] at room roomCompacted
    have touched := alike.touchPeer parsed.senderNodeId
    have merged := touched.mergeRecords (invariant.touchPeer _) (invariantCompacted.touchPeer _)
      (of_decide_eq_true room) (of_decide_eq_true roomCompacted)
    refine ⟨?_, merged⟩
    have digest := merged.digest (mergeRecords_packedInvariant (invariant.touchPeer _) _ _)
      (mergeRecords_packedInvariant (invariantCompacted.touchPeer _) _ _) parsed.ownerNodeId
    simp only
    rw [digest]

/-- One operation apart from `compact` on both stores. -/
theorem Alike.operation {operation : Operation} (stays : operation ≠ .compact)
    (room : plain.hasRoom operation = true) (roomCompacted : compacted.hasRoom operation = true) :
    (operation.next plain).Alike (operation.next compacted) ∧
      (operation.isCompared = true → plain.Unclipped operation →
        (operation.exec plain).2.Alike (operation.exec compacted).2) := by
  cases operation with
  | write change =>
    obtain ⟨code, next⟩ := alike.write invariant invariantCompacted room roomCompacted
    exact ⟨next, fun _ _ => congrArg Output.code code.symm⟩
  | query asked => exact ⟨alike, alike.query invariant invariantCompacted⟩
  | mergeNamed owner name data timestamp isTombstone =>
    obtain ⟨code, next⟩ := alike.mergeNamed invariant invariantCompacted room roomCompacted
    exact ⟨next, fun _ _ => congrArg Output.code code.symm⟩
  | mergeShared origin name data timestamp isTombstone =>
    obtain ⟨code, next⟩ := alike.mergeShared invariant invariantCompacted room roomCompacted
    exact ⟨next, fun _ _ => congrArg Output.code code.symm⟩
  | importFrom frame =>
    obtain ⟨output, next⟩ := alike.importFrom invariant invariantCompacted room roomCompacted
    exact ⟨next, fun _ _ => output.symm⟩
  | exportSharedDeltaBounded since capBytes =>
    obtain ⟨rest, same⟩ := markSteps_rest (exportSharedDeltaBounded_steps plain since capBytes)
    obtain ⟨restCompacted, sameCompacted⟩ :=
      markSteps_rest (exportSharedDeltaBounded_steps compacted since capBytes)
    refine ⟨⟨alike.node, alike.clock, fun pair => ?_⟩, nofun⟩
    show ((compacted.exportSharedDeltaBounded since capBytes).manager.view pair).filter _ =
      ((plain.exportSharedDeltaBounded since capBytes).manager.view pair).filter _
    rw [view_of_unmarked same, view_of_unmarked sameCompacted, alike.visible]
  | tick => exact ⟨alike.of_same rfl rfl alike.node alike.clock, nofun⟩
  | compact => exact absurd rfl stays

end Results

/-! ### Runs -/

theorem Alike.run {plain compacted : FleeceStateManager} (alike : plain.Alike compacted)
    (invariant : plain.PackedInvariant) (invariantCompacted : compacted.PackedInvariant)
    {operations : List Operation} (uncompacted : .compact ∉ operations)
    (room : Along Operation.next (fun state operation => state.hasRoom operation = true) plain
      operations)
    (roomCompacted : Along Operation.next
      (fun state operation => state.hasRoom operation = true) compacted operations) :
    (plain.after operations).Alike (compacted.after operations) ∧
      (plain.after operations).PackedInvariant ∧ (compacted.after operations).PackedInvariant := by
  induction operations generalizing plain compacted with
  | nil => exact ⟨alike, invariant, invariantCompacted⟩
  | cons operation rest inductionHypothesis =>
    have stays : operation ≠ .compact := fun same => uncompacted (same ▸ List.mem_cons_self)
    obtain ⟨next, _⟩ := alike.operation invariant invariantCompacted stays room.1 roomCompacted.1
    exact inductionHypothesis next (invariant.operation stays) (invariantCompacted.operation stays)
      (fun member => uncompacted (List.mem_cons_of_mem _ member)) room.2 roomCompacted.2

theorem packedInvariant_after_tidy {nodeId : UInt64} {manager : FleeceStateManager}
    (created : createWithNodeId nodeId = some manager) {operations : List Operation}
    (tidy : Along Operation.next Tidy manager operations) :
    (manager.after operations).PackedInvariant := by
  refine tidy.invariant (fun state operation holds clean => ?_) (packedInvariant_create created)
  by_cases compacts : operation = .compact
  · subst compacts
    exact compact_packedInvariant holds clean
  · exact holds.operation compacts

/-- A compaction is invisible where it, and every one before it, leaves no tombstone behind: from
any state reached, after any operations that run out of slots neither with the compaction nor
without it, the next operation returns the same with it as without it, listings with room for all
names and exported records in any order. -/
theorem compact_invisible {nodeId : UInt64} {manager : FleeceStateManager}
    (created : createWithNodeId nodeId = some manager) (before later : List Operation)
    (operation : Operation) (tidy : Along Operation.next Tidy manager (before ++ [.compact]))
    (uncompacted : .compact ∉ later)
    (room : Along Operation.next (fun state operation => state.hasRoom operation = true)
      (manager.after before) (later ++ [operation]))
    (roomCompacted : Along Operation.next (fun state operation => state.hasRoom operation = true)
      (manager.after before).compact (later ++ [operation]))
    (compared : operation.isCompared = true)
    (unclipped : ((manager.after before).after later).Unclipped operation) :
    (operation.exec ((manager.after before).after later)).2.Alike
      (operation.exec ((manager.after before).compact.after later)).2 := by
  obtain ⟨tidyBefore, tidyHere, _⟩ := along_append.mp tidy
  obtain ⟨roomLater, roomHere, _⟩ := along_append.mp room
  obtain ⟨roomLaterCompacted, roomHereCompacted, _⟩ := along_append.mp roomCompacted
  have reached := packedInvariant_after_tidy created tidyBefore
  obtain ⟨alike, invariant, invariantCompacted⟩ := (alike_compact reached tidyHere).run reached
    (compact_packedInvariant reached tidyHere) uncompacted roomLater roomLaterCompacted
  have stays : operation ≠ .compact := by
    rintro rfl
    cases compared
  exact (alike.operation invariant invariantCompacted stays roomHere roomHereCompacted).2 compared
    unclipped

/-- The tombstone of the first of two fields is overwritten by the second, and the field is
inserted anew. -/
theorem compact_invisible_first :
    let value : Blob := ⟨[1], by decide⟩
    let before := [Operation.write (.set 1 value), .write (.set 2 value), .write (.remove 1)]
    let later := [Operation.write (.set 1 value)]
    ((Operation.query (.get 1)).exec (((blank 7).after before).after later)).2.Alike
        ((Operation.query (.get 1)).exec (((blank 7).after before).compact.after later)).2 ∧
      ((blank 7).after before).fieldCount = 2 ∧ ((blank 7).after before).compact.fieldCount = 1 := by
  intro value before later
  refine ⟨compact_invisible (show createWithNodeId 7 = some (blank 7) from rfl) before later
    (.query (.get 1)) ?_ ?_ ?_ ?_ rfl trivial, ?_, ?_⟩
  · decide +kernel
  · simp [later]
  · decide +kernel
  · decide +kernel
  · decide +kernel
  · decide +kernel

/-- The tombstone of the last of two fields stays behind the compaction. The next write of the
field revives it there, and the insertion of a third field then takes its slot: the value is
lost, though both runs have room for a hundred more. -/
theorem compact_loses_write :
    let value : Blob := ⟨[1], by decide⟩
    let before := [Operation.write (.set 1 value), .write (.set 2 value), .write (.remove 2)]
    let later := [Operation.write (.set 2 value), .write (.set 3 value)]
    let read := Operation.query (.get 2)
    Along Operation.next (fun state operation => state.hasRoom operation = true)
        ((blank 7).after before) (later ++ [read]) ∧
      Along Operation.next (fun state operation => state.hasRoom operation = true)
        ((blank 7).after before).compact (later ++ [read]) ∧
      (read.exec (((blank 7).after before).after later)).2 = .value (some value) ∧
      (read.exec (((blank 7).after before).compact.after later)).2 = .value none := by
  decide +kernel

end FleeceStateManager

end Fleece
