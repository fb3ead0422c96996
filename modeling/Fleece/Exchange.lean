/-
This file is about a node that imports what another node has exported. With a slot for
every key that is new to it, a shared slot of the receiver ends up with the greatest
of the record it had and the records of the frame under its key. From that come three
facts about exchanges: a field reaches a fresh node under its name, a delta that only
leaves out records the receiver has reached does what the full export does, and two
nodes that exchange their full exports have the same shared slots.

All of it is about frames of less than 2^32 bytes: the size of a longer one is cut to
32 bits, and its end is lost.
-/

import Fleece.Names

namespace Fleece

namespace FleeceStateManager

/-! ### Slots for new keys -/

/-- The keys of the records that have no shared slot yet. -/
def newKeys (manager : FleeceStateManager) (records : List GossipRecord) : Finset UInt32 :=
  (records.map fun record => record.keyed.1).toFinset.filter fun key =>
    manager.view (key, sharedOwnerId) = none

theorem mem_newKeys {manager : FleeceStateManager} {records : List GossipRecord} {key : UInt32} :
    key ∈ manager.newKeys records ↔
      (∃ record ∈ records, record.keyed.1 = key) ∧ manager.view (key, sharedOwnerId) = none := by
  rw [newKeys, Finset.mem_filter, List.mem_toFinset, List.mem_map]

/-- A merge takes a new slot exactly for a key that has none. -/
theorem fieldCount_mergeRecord {manager : FleeceStateManager} {record : GossipRecord}
    (sendable : record.Sendable sharedOwnerId)
    (room : hasSlotFor sharedOwnerId manager record = true) :
    (manager.mergeRecord sharedOwnerId record).fieldCount = manager.fieldCount +
      if manager.view (record.keyed.1, sharedOwnerId) = none then 1 else 0 := by
  have outcome := mergeShared_outcome manager record.originNodeId record.name.toCString record.data
    record.timestamp record.isTombstone sendable.mergeable
  rw [hasSlotFor, sendable.mergeable, Bool.not_true, Bool.false_or] at room
  unfold mergeRecord
  rw [if_pos rfl]
  generalize manager.mergeShared record.originNodeId record.name.toCString record.data
    record.timestamp record.isTombstone = result at outcome ⊢
  cases outcome with
  | kept old found stays =>
    have held : manager.view (record.keyed.1, sharedOwnerId) ≠ none :=
      fun absent => Option.some_ne_none old (found.symm.trans absent)
    rw [if_neg held]
    rfl
  | noSlot absent full => exact (not_full_of_hasSlot room absent full).elim
  | stored next f storedAt rest label held newer =>
    obtain ⟨keyEq, ownerEq⟩ := Prod.mk.inj label
    cases storedAt with
    | inPlace i found fields count present marked =>
      rw [keyEq, ownerEq] at found
      have held : manager.view (record.keyed.1, sharedOwnerId) ≠ none :=
        fun absent => Option.some_ne_none i (found.symm.trans (view_eq_none_iff.mp absent))
      rw [if_neg held]
      exact count
    | appended absent full fields count present marked =>
      rw [keyEq, ownerEq] at absent
      have missing : manager.view (record.keyed.1, sharedOwnerId) = none :=
        view_eq_none_iff.mpr absent
      rw [if_pos missing]
      exact count

theorem view_mergeRecord_eq_none_iff {manager : FleeceStateManager}
    (invariant : manager.StoreInvariant) {record : GossipRecord}
    (sendable : record.Sendable sharedOwnerId)
    (room : hasSlotFor sharedOwnerId manager record = true) {key : UInt32} :
    (manager.mergeRecord sharedOwnerId record).view (key, sharedOwnerId) = none ↔
      key ≠ record.keyed.1 ∧ manager.view (key, sharedOwnerId) = none := by
  rw [view_mergeRecord invariant sendable room]
  rcases eq_or_ne key record.keyed.1 with rfl | different
  · rw [Function.update_self]
    exact iff_of_false (Register.offer_ne_none _ _) fun absent => absent.1 rfl
  · rw [Function.update_of_ne fun same => different (Prod.mk.inj same).1]
    exact ⟨fun absent => ⟨different, absent⟩, And.right⟩

/-- A record that has got its slot takes its key from the new ones. -/
theorem newKeys_mergeRecord {manager : FleeceStateManager} (invariant : manager.StoreInvariant)
    {record : GossipRecord} {rest : List GossipRecord} (sendable : record.Sendable sharedOwnerId)
    (room : hasSlotFor sharedOwnerId manager record = true) :
    (manager.mergeRecord sharedOwnerId record).newKeys rest =
      (manager.newKeys (record :: rest)).erase record.keyed.1 := by
  ext key
  rw [Finset.mem_erase, mem_newKeys, mem_newKeys,
    view_mergeRecord_eq_none_iff invariant sendable room]
  constructor
  · rintro ⟨⟨other, member, same⟩, different, absent⟩
    exact ⟨different, ⟨other, List.mem_cons_of_mem _ member, same⟩, absent⟩
  · rintro ⟨different, ⟨other, member, same⟩, absent⟩
    rcases List.mem_cons.mp member with rfl | inRest
    · exact absurd same.symm different
    · exact ⟨⟨other, inRest, same⟩, different, absent⟩

/-- The merge of a record without a slot does nothing but raise the clock. -/
theorem mergeRecord_of_noSlot {manager : FleeceStateManager} {record : GossipRecord}
    (sendable : record.Sendable sharedOwnerId)
    (full : hasSlotFor sharedOwnerId manager record = false) :
    manager.mergeRecord sharedOwnerId record = manager.raiseClock record.timestamp := by
  have outcome := mergeShared_outcome manager record.originNodeId record.name.toCString record.data
    record.timestamp record.isTombstone sendable.mergeable
  rw [hasSlotFor, sendable.mergeable, Bool.not_true, Bool.false_or, hasSlot, Bool.or_eq_false_iff,
    decide_eq_false_iff_not] at full
  have absent : manager.view (hashName record.name.toCString, sharedOwnerId) = none := by
    simpa using full.1
  unfold mergeRecord
  rw [if_pos rfl]
  generalize manager.mergeShared record.originNodeId record.name.toCString record.data
    record.timestamp record.isTombstone = result at outcome ⊢
  cases outcome with
  | kept old found stays => rfl
  | noSlot absent full => rfl
  | stored next f storedAt rest label held newer =>
    obtain ⟨keyEq, ownerEq⟩ := Prod.mk.inj label
    cases storedAt with
    | inPlace i found =>
      rw [keyEq, ownerEq] at found
      exact absurd (view_eq_none_iff.mp absent) (found ▸ Option.some_ne_none i)
    | appended none room => exact absurd room full.2

/-- The slots of other keys keep what they hold. -/
theorem view_mergeRecord_of_ne {manager : FleeceStateManager} (invariant : manager.StoreInvariant)
    {record : GossipRecord} (sendable : record.Sendable sharedOwnerId) {key : UInt32}
    (other : record.keyed.1 ≠ key) :
    (manager.mergeRecord sharedOwnerId record).view (key, sharedOwnerId) =
      manager.view (key, sharedOwnerId) := by
  cases room : hasSlotFor sharedOwnerId manager record with
  | true =>
    rw [view_mergeRecord invariant sendable room,
      Function.update_of_ne fun same => other (Prod.mk.inj same).1.symm]
  | false => rw [mergeRecord_of_noSlot sendable room]; rfl

theorem mergeRecords_storeInvariant {manager : FleeceStateManager}
    (invariant : manager.StoreInvariant) (records : List GossipRecord) :
    (manager.mergeRecords sharedOwnerId records).StoreInvariant := by
  induction records generalizing manager with
  | nil => exact invariant
  | cons record rest inductionHypothesis =>
    exact inductionHypothesis (mergeRecord_storeInvariant invariant _ record)

theorem view_mergeRecords_of_ne {manager : FleeceStateManager}
    (invariant : manager.StoreInvariant) {records : List GossipRecord}
    (sendable : ∀ record ∈ records, record.Sendable sharedOwnerId) {key : UInt32}
    (others : ∀ record ∈ records, record.keyed.1 ≠ key) :
    (manager.mergeRecords sharedOwnerId records).view (key, sharedOwnerId) =
      manager.view (key, sharedOwnerId) := by
  induction records generalizing manager with
  | nil => rfl
  | cons record rest inductionHypothesis =>
    refine (inductionHypothesis (mergeRecord_storeInvariant invariant _ record)
      (fun later member => sendable later (List.mem_cons_of_mem _ member))
      fun later member => others later (List.mem_cons_of_mem _ member)).trans ?_
    exact view_mergeRecord_of_ne invariant (sendable record List.mem_cons_self)
      (others record List.mem_cons_self)

/-- With a free slot for every new key, each merge of the records finds a slot. -/
theorem room_of_newKeys {manager : FleeceStateManager} (invariant : manager.StoreInvariant)
    {records : List GossipRecord} (sendable : ∀ record ∈ records, record.Sendable sharedOwnerId)
    (free : manager.fieldCount + (manager.newKeys records).card ≤ fieldCapacity) :
    Along (mergeRecord sharedOwnerId)
      (fun state record => hasSlotFor sharedOwnerId state record = true) manager records := by
  induction records generalizing manager with
  | nil => trivial
  | cons record rest inductionHypothesis =>
    have slot : hasSlotFor sharedOwnerId manager record = true := by
      rw [hasSlotFor, hasSlot, Bool.or_eq_true, Bool.or_eq_true, decide_eq_true_iff]
      cases found : manager.view (hashName record.name.toCString, sharedOwnerId) with
      | some old => exact Or.inr (Or.inl rfl)
      | none =>
        have new : record.keyed.1 ∈ manager.newKeys (record :: rest) :=
          mem_newKeys.mpr ⟨⟨record, List.mem_cons_self, rfl⟩, found⟩
        exact Or.inr (Or.inr (lt_of_lt_of_le
          (Nat.lt_add_of_pos_right (Finset.card_pos.mpr ⟨_, new⟩)) free))
    have sendableHere := sendable record List.mem_cons_self
    refine ⟨slot, inductionHypothesis (mergeRecord_storeInvariant invariant _ record)
      (fun later member => sendable later (List.mem_cons_of_mem _ member)) ?_⟩
    rw [newKeys_mergeRecord invariant sendableHere slot, fieldCount_mergeRecord sendableHere slot]
    split_ifs with absent
    · have new : record.keyed.1 ∈ manager.newKeys (record :: rest) :=
        mem_newKeys.mpr ⟨⟨record, List.mem_cons_self, rfl⟩, absent⟩
      have counted := Finset.card_erase_add_one new
      omega
    · exact (Nat.add_le_add_left Finset.card_erase_le _).trans free

/-- An import offers the records it reads to the slots of their names. -/
theorem Summarises.importFrom {manager : FleeceStateManager} {log : List (UInt32 × GossipRecord)}
    (summary : manager.Summarises log) (invariant : manager.StoreInvariant) {frame : Blob}
    {parsed : ParsedFrame} (read : parseFrame manager.nodeId frame = .ok parsed)
    (stream : parsed.ownerNodeId = sharedOwnerId)
    (sendable : ∀ record ∈ parsed.records, record.Sendable sharedOwnerId)
    (free : manager.fieldCount + (manager.newKeys parsed.records).card ≤ fieldCapacity) :
    (manager.importFrom frame).manager.Summarises
      (log ++ parsed.records.map GossipRecord.keyed) := by
  have touched : (manager.touchPeer parsed.senderNodeId).StoreInvariant :=
    ((touchPeer_quiet manager _).keeps invariant).1
  have fields := touchPeer_fields manager parsed.senderNodeId
  rw [importFrom_manager, read]
  simp only
  rw [stream]
  refine (summary.of_view (view_of_same fields)).mergeRecords touched sendable
    (room_of_newKeys touched sendable ?_)
  unfold newKeys at free ⊢
  rw [view_of_same fields, touchPeer_rest]
  exact free

/-- The records of a shared export are shared records of the exporter. -/
theorem view_of_mem_contents {manager : FleeceStateManager} (invariant : manager.StoreInvariant)
    {kind : GossipExport} (stream : kind.owner manager = sharedOwnerId) {record : GossipRecord}
    (member : record ∈ (kind.contents manager).records) :
    ∃ key, manager.view (key, sharedOwnerId) = some record := by
  obtain ⟨f, exported, rfl⟩ := List.mem_map.mp member
  have carried := carried_of_mem_entries kind exported
  rw [stream] at carried
  exact ⟨f.key, carried.view invariant.distinct⟩

theorem mem_contents_shared {manager : FleeceStateManager} (invariant : manager.StoreInvariant)
    {key : UInt32} {record : GossipRecord}
    (found : manager.view (key, sharedOwnerId) = some record) (stamped : record.timestamp ≠ 0) :
    record ∈ (GossipExport.shared.contents manager).records := by
  obtain ⟨f, held, rfl⟩ := Option.map_eq_some_iff.mp found
  obtain ⟨i, rfl, present, _, owned⟩ := exists_of_lookup held
  have foreign : (manager.fields i).nodeId ≠ manager.nodeId := by
    rw [owned]
    exact invariant.realNode.symm
  refine List.mem_map.mpr ⟨_, List.mem_filter.mpr ⟨mem_slots.mpr ⟨i, rfl⟩, ?_⟩, rfl⟩
  rw [isExported, present, owned, invariant.named i present foreign, beq_self_eq_true,
    Bool.true_and, Bool.true_and, Bool.true_and, Bool.not_eq_true', decide_eq_false_iff_not]
  exact fun early => stamped (UInt64.le_antisymm early UInt64.zero_le)

theorem mem_foldl_wantKey {manager : FleeceStateManager} {pairs : List (UInt64 × UInt64)}
    {wanted : List UInt32} {key : UInt32} (member : key ∈ pairs.foldl manager.wantKey wanted) :
    key ∈ wanted ∨ ∃ pair ∈ pairs, pair.1.toUInt32 = key ∧ manager.sharedAtLeast key pair.2 = 0 := by
  induction pairs generalizing wanted with
  | nil => exact Or.inl member
  | cons pair rest inductionHypothesis =>
    rcases inductionHypothesis member with early | ⟨later, inRest, same, missing⟩
    · unfold wantKey at early
      split_ifs at early with asked
      · rcases List.mem_append.mp early with before | here
        · exact Or.inl before
        · rw [List.mem_singleton] at here
          exact Or.inr ⟨pair, List.mem_cons_self, here.symm, here ▸ asked.2.2⟩
      · exact Or.inl early
    · exact Or.inr ⟨later, List.mem_cons_of_mem _ inRest, same, missing⟩

/-- What an accepted `set_shared` stores. -/
theorem setShared_wrote {manager : FleeceStateManager} {name : CString} {data : Blob}
    (accepted : (manager.setShared name data).2 = 0) :
    ∃ f, Stored manager (manager.setShared name data).1 f ∧
      (f.key, f.nodeId) = (hashName name, sharedOwnerId) ∧ f.record = .upserted manager.nodeId
        (.copy name) data (manager.localTimestamp + 1) false := by
  have outcome : LocalWrite.Outcome manager _ (manager.setShared name data) :=
    exec_outcome manager (.setShared name data)
  generalize asked : (LocalWrite.setShared name data).request manager.nodeId
    manager.localTimestamp manager.view = request at outcome
  generalize manager.setShared name data = result at outcome accepted ⊢
  cases outcome with
  | refused code denied =>
    rcases LocalWrite.code_of_refused (asked.trans denied) with failed | failed
    · exact absurd (failed.symm.trans accepted) (by decide)
    · exact absurd (failed.symm.trans accepted) (by decide)
  | noSlot next pair record wanted =>
    exact absurd (show (-1 : Int) = 0 from accepted) (by decide)
  | wrote next f wanted stored =>
    have request := asked.trans wanted
    simp only [LocalWrite.request, LocalWrite.request.put] at request
    split_ifs at request
    obtain ⟨pair, record⟩ := Prod.mk.inj (Except.ok.inj request)
    exact ⟨f, stored, pair.symm, record.symm⟩

/-- No stored timestamp is ahead of the clock. -/
def Stamped (manager : FleeceStateManager) : Prop :=
  ∀ i, (manager.fields i).slotExists = true →
    (manager.fields i).timestamp ≤ manager.localTimestamp

theorem MergeStep.stamped {manager next : FleeceStateManager} (step : MergeStep manager next)
    (stamped : manager.Stamped) : next.Stamped := by
  cases step with
  | quiet fields count node clock =>
    intro i present
    rw [fields] at present ⊢
    exact UInt64.le_trans (stamped i present) clock
  | merge f stored node clock stamp =>
    obtain ⟨i, fields, _⟩ := stored.index
    intro j present
    rw [fields] at present ⊢
    rw [clock]
    rcases eq_or_ne j i with rfl | different
    · rwa [Function.update_self]
    · rw [Function.update_of_ne different] at present ⊢
      exact stamped j present

theorem stamped_of_steps {manager next : FleeceStateManager}
    (steps : Relation.ReflTransGen MergeStep manager next) (stamped : manager.Stamped) :
    next.Stamped := by
  induction steps with
  | refl => exact stamped
  | tail _ step inductionHypothesis => exact step.stamped inductionHypothesis

/-- The record is in its shared slot, or a greater one is. -/
def Covers (manager : FleeceStateManager) (record : GossipRecord) : Prop :=
  ∃ held, manager.view (record.keyed.1, sharedOwnerId) = some held ∧ record.version ≤ held.version

theorem Covers.climbs {manager next : FleeceStateManager} {record : GossipRecord}
    (covers : manager.Covers record) (real : manager.nodeId ≠ sharedOwnerId)
    (climbs : Climbs manager next) : next.Covers record := by
  obtain ⟨held, found, reached⟩ := covers
  obtain ⟨f, slot, rfl⟩ := Option.map_eq_some_iff.mp found
  obtain ⟨g, kept, move⟩ := climbs.2 _ _ f real.symm slot
  refine ⟨g.record, Option.map_eq_some_iff.mpr ⟨g, kept, rfl⟩, reached.trans ?_⟩
  rcases move with same | up
  · exact (version_of_unmarked same).ge
  · exact le_of_lt up

/-- The merge of a record that is already reached only raises the clock. -/
theorem mergeRecord_of_covers {manager : FleeceStateManager} {record : GossipRecord}
    (sendable : record.Sendable sharedOwnerId) (covers : manager.Covers record) :
    manager.mergeRecord sharedOwnerId record = manager.raiseClock record.timestamp := by
  obtain ⟨held, found, reached⟩ := covers
  have outcome := mergeShared_outcome manager record.originNodeId record.name.toCString record.data
    record.timestamp record.isTombstone sendable.mergeable
  rw [GossipRecord.upserted_self sendable.filled] at outcome
  unfold mergeRecord
  rw [if_pos rfl]
  generalize manager.mergeShared record.originNodeId record.name.toCString record.data
    record.timestamp record.isTombstone = result at outcome ⊢
  cases outcome with
  | kept old _ stays => rfl
  | noSlot absent full => rfl
  | stored next f storedAt rest label held newer =>
    exact absurd (outranks_iff.mp (newer _ found)) (not_lt.mpr reached)

theorem Covers.early {manager : FleeceStateManager} {record : GossipRecord}
    (covers : manager.Covers record) (stamped : manager.Stamped) :
    record.timestamp ≤ manager.localTimestamp := by
  obtain ⟨held, found, reached⟩ := covers
  obtain ⟨f, slot, rfl⟩ := Option.map_eq_some_iff.mp found
  obtain ⟨i, rfl, present, _⟩ := exists_of_lookup slot
  exact UInt64.le_trans (timestamp_le_of_version reached) (stamped i present)

/-- Records that are already reached can be left out of what is merged. -/
theorem mergeRecords_filter {manager : FleeceStateManager} (invariant : manager.StoreInvariant)
    (stamped : manager.Stamped) (keep : GossipRecord → Bool) {records : List GossipRecord}
    (sendable : ∀ record ∈ records, record.Sendable sharedOwnerId)
    (covered : ∀ record ∈ records, keep record = false → manager.Covers record) :
    manager.mergeRecords sharedOwnerId (records.filter keep) =
      manager.mergeRecords sharedOwnerId records := by
  induction records generalizing manager with
  | nil => rfl
  | cons record rest inductionHypothesis =>
    have sendableRest (later : GossipRecord) (member : later ∈ rest) :=
      sendable later (List.mem_cons_of_mem _ member)
    cases kept : keep record with
    | true =>
      have steps := mergeRecord_steps invariant.realNode sharedOwnerId record
      obtain ⟨invariantNext, _, climbs⟩ := mergeSteps_keep steps invariant
      have stampedNext : (manager.mergeRecord sharedOwnerId record).Stamped :=
        stamped_of_steps steps stamped
      rw [List.filter_cons_of_pos kept]
      exact inductionHypothesis invariantNext stampedNext sendableRest fun later member left =>
        (covered later (List.mem_cons_of_mem _ member) left).climbs invariant.realNode climbs
    | false =>
      have covers := covered record List.mem_cons_self kept
      have noop := mergeRecord_of_covers (sendable record List.mem_cons_self) covers
      rw [raiseClock_of_le (covers.early stamped)] at noop
      rw [List.filter_cons_of_neg (Bool.eq_false_iff.mp kept), inductionHypothesis invariant stamped
        sendableRest fun later member => covered later (List.mem_cons_of_mem _ member)]
      rw [mergeRecords_cons, noop]

end FleeceStateManager

/-! ### Deltas -/

theorem uintSize_mono {first second : UInt64} (le : first ≤ second) :
    uintSize first ≤ uintSize second := by
  unfold uintSize
  grind

namespace FleeceStateManager

/-- The records of a delta are those of the full export that are later than the watermark. -/
theorem records_sharedDelta (manager : FleeceStateManager) (since : UInt64) :
    ((GossipExport.sharedDelta since).contents manager).records =
      (GossipExport.shared.contents manager).records.filter fun record =>
        decide (since < record.timestamp) := by
  show List.map _ (manager.slots.filter _) = (List.map _ (manager.slots.filter _)).filter _
  rw [List.filter_map, List.filter_filter]
  congr 2
  funext f
  rw [isExported_eq, isExported_eq, Function.comp_apply]
  by_cases later : since < f.record.timestamp
  · rw [decide_eq_true later, decide_eq_true
      (UInt64.lt_of_le_of_lt UInt64.zero_le later : (0 : UInt64) < f.record.timestamp)]
    simp
  · rw [decide_eq_false later]
    simp

theorem length_sharedDelta_le (manager : FleeceStateManager) (since : UInt64) :
    ((GossipExport.sharedDelta since).contents manager).encode.length ≤
      (GossipExport.shared.contents manager).encode.length := by
  have part := List.filter_sublist (p := fun record : GossipRecord =>
    decide (since < record.timestamp)) (l := (GossipExport.shared.contents manager).records)
  rw [← records_sharedDelta] at part
  have sum := (part.map fun record => (record.encode sharedOwnerId).length).sum_le_sum
    fun _ _ => Nat.zero_le _
  have count : arrayHeaderSize ((GossipExport.sharedDelta since).contents manager).records.length ≤
      arrayHeaderSize (GossipExport.shared.contents manager).records.length := by
    refine uintSize_mono ?_
    have few := length_records_le manager .shared
    have fewer := part.length_le
    rw [UInt64.le_iff_toNat_le, UInt64.toNat_ofNat', UInt64.toNat_ofNat', Nat.mod_eq_of_lt,
      Nat.mod_eq_of_lt]
    · exact fewer
    · exact few.trans_lt (by decide)
    · exact (fewer.trans few).trans_lt (by decide)
  rw [FrameContents.length_encode, FrameContents.length_encode]
  exact Nat.add_le_add (Nat.add_le_add_left count _) sum

theorem import_sharedDelta {sender receiver : FleeceStateManager}
    (store : sender.StoreInvariant) (storeReceiver : receiver.StoreInvariant)
    (stamped : receiver.Stamped) (foreign : receiver.nodeId ≠ sender.nodeId) (since : UInt64)
    (covered : ∀ record ∈ (GossipExport.shared.contents sender).records,
      record.timestamp ≤ since → receiver.Covers record)
    (fits : (GossipExport.shared.contents sender).encode.length < 2 ^ 32) :
    (Operation.importFrom (sender.exportSharedDelta since)).exec receiver =
      (Operation.importFrom sender.exportShared).exec receiver := by
  have full := parseFrame_export store .shared foreign fits
  have delta := parseFrame_export store (.sharedDelta since) foreign
    ((sender.length_sharedDelta_le since).trans_lt fits)
  have touched : (receiver.touchPeer sender.nodeId).StoreInvariant :=
    ((touchPeer_quiet receiver _).keeps storeReceiver).1
  have same : (receiver.touchPeer sender.nodeId).mergeRecords sharedOwnerId
        ((GossipExport.sharedDelta since).contents sender).records =
      (receiver.touchPeer sender.nodeId).mergeRecords sharedOwnerId
        (GossipExport.shared.contents sender).records := by
    rw [records_sharedDelta]
    refine mergeRecords_filter touched ((touchPeer_quiet receiver _).stamped stamped) _
      (sendable_contents store .shared) fun record member early => ?_
    refine (covered record member ?_).climbs storeReceiver.realNode
      ((touchPeer_quiet receiver _).keeps storeReceiver).2.2
    exact UInt64.not_lt.mp (of_decide_eq_false early)
  refine Prod.ext ?_ ?_
  · show (Operation.importFrom _).next receiver = (Operation.importFrom _).next receiver
    rw [next_importFrom, next_importFrom, importFrom_manager, importFrom_manager]
    rw [show parseFrame receiver.nodeId (sender.exportSharedDelta since) = _ from delta,
      show parseFrame receiver.nodeId sender.exportShared = _ from full]
    exact same
  · rw [importFrom_output, importFrom_output,
      show parseFrame receiver.nodeId (sender.exportSharedDelta since) = _ from delta,
      show parseFrame receiver.nodeId sender.exportShared = _ from full]
    simp only
    rw [show GossipExport.owner sender (.sharedDelta since) = sharedOwnerId from rfl,
      show GossipExport.owner sender .shared = sharedOwnerId from rfl, same]

/-- A receiver that has reached every shared record up to `since` is left in the same state by the
delta since then as by the full export, and is told the same about being behind. -/
theorem delta_equals_full {nodeId otherId : UInt64} {sender receiver : FleeceStateManager}
    (created : createWithNodeId nodeId = some sender)
    (createdOther : createWithNodeId otherId = some receiver) (apart : otherId ≠ nodeId)
    (operations operationsOther : List Operation)
    (short : ∀ operation ∈ operations, operation.isShort = true) (since : UInt64)
    (stamped : ∀ i, ((receiver.after operationsOther).fields i).slotExists = true →
      ((receiver.after operationsOther).fields i).timestamp ≤
        (receiver.after operationsOther).localTimestamp)
    (dominated : ∀ key record, (sender.after operations).view (key, sharedOwnerId) = some record →
      record.timestamp ≤ since →
      ∃ held, (receiver.after operationsOther).view (key, sharedOwnerId) = some held ∧
        record.version ≤ held.version)
    (fits : (GossipExport.shared.contents (sender.after operations)).encode.length < 2 ^ 32) :
    let delta := (receiver.after operationsOther).importFrom
      ((sender.after operations).exportSharedDelta since)
    let full := (receiver.after operationsOther).importFrom (sender.after operations).exportShared
    delta.manager = full.manager ∧ delta.behindShared = full.behindShared := by
  intro delta full
  have store := storeInvariant_after created operations
  have foreign : (receiver.after operationsOther).nodeId ≠ (sender.after operations).nodeId := by
    rw [node_after created, node_after createdOther]
    exact apart
  have same := import_sharedDelta store (storeInvariant_after createdOther operationsOther) stamped
    foreign since (fun record member early => ?_) fits
  · obtain ⟨managers, outputs⟩ := Prod.mk.inj same
    exact ⟨managers, (Output.imported.inj outputs).2.2.2⟩
  · obtain ⟨key, found⟩ := view_of_mem_contents store rfl member
    have named := store.view_named store.realNode.symm found
    have keyed : key = record.keyed.1 := (keyed_after created short).view found named
    obtain ⟨held, slot, reached⟩ := dominated key record found early
    rw [keyed] at slot
    exact ⟨held, slot, reached⟩

/-- Domination, slot by slot. -/
theorem dominated_of_slots {sender receiver : FleeceStateManager} {since : UInt64}
    (reached : ∀ i, (sender.fields i).slotExists = true → (sender.fields i).timestamp ≤ since →
      ((receiver.view ((sender.fields i).key, sharedOwnerId)).any fun held =>
        !decide ((sender.fields i).record.Outranks held)) = true) (key : UInt32)
    (record : GossipRecord) (found : sender.view (key, sharedOwnerId) = some record)
    (early : record.timestamp ≤ since) :
    ∃ held, receiver.view (key, sharedOwnerId) = some held ∧ record.version ≤ held.version := by
  obtain ⟨f, slot, rfl⟩ := Option.map_eq_some_iff.mp found
  obtain ⟨i, rfl, present, rfl, _⟩ := exists_of_lookup slot
  obtain ⟨held, here, stays⟩ := (Option.any_eq_true _ _).mp (reached i present early)
  refine ⟨held, here, not_lt.mp fun up => ?_⟩
  rw [decide_eq_true (outranks_iff.mpr up)] at stays
  cases stays

/-- The receiver has imported the first of two fields of the sender, and then gets the second. -/
theorem delta_equals_full_second :
    let goal : CString := ⟨[0x67], by decide⟩
    let home : CString := ⟨[0x68], by decide⟩
    let value : Blob := ⟨[1], by decide⟩
    let first := Operation.write (.setShared goal value)
    let second := Operation.write (.setShared home value)
    let receiver := (blank 9).after [.importFrom ((blank 7).after [first]).exportShared]
    let sender := (blank 7).after [first, second]
    (receiver.importFrom (sender.exportSharedDelta 1)).manager =
        (receiver.importFrom sender.exportShared).manager ∧
      (receiver.importFrom (sender.exportSharedDelta 1)).behindShared =
        (receiver.importFrom sender.exportShared).behindShared := by
  intro goal home value first second receiver sender
  have reached : ∀ i, (((blank 7).after [first, second]).fields i).slotExists = true →
      (((blank 7).after [first, second]).fields i).timestamp ≤ 1 →
      ((((blank 9).after [.importFrom ((blank 7).after [first]).exportShared]).view
        ((((blank 7).after [first, second]).fields i).key, sharedOwnerId)).any fun held =>
          !decide ((((blank 7).after [first, second]).fields i).record.Outranks held)) = true := by
    decide +kernel
  refine delta_equals_full (show createWithNodeId 7 = some (blank 7) from rfl)
    (show createWithNodeId 9 = some (blank 9) from rfl) (by decide) [first, second]
    [.importFrom ((blank 7).after [first]).exportShared] (by decide) 1 ?_ ?_ ?_
  · decide +kernel
  · exact dominated_of_slots reached
  · decide +kernel

/-! ### Frames of 2^32 bytes and more -/

/-- A frame that is cut before the end of its sender is refused. -/
theorem parseFrame_cut_sender {contents : FrameContents} {nodeId : UInt64}
    (foreign : contents.senderNodeId ≠ nodeId) (real : contents.senderNodeId ≠ sharedOwnerId)
    (bounded : contents.encode.length < 2 ^ 63)
    (cutShort : contents.encode.length % 2 ^ 32 < 4 + uintSize contents.senderNodeId) :
    ∃ halt, parseFrame nodeId contents.frame = .error halt := by
  have cut : contents.frame.bytes <+: contents.encode := List.take_prefix _ _
  have size : contents.frame.size ≤ contents.encode.length % 2 ^ 32 := List.length_take_le _ _
  unfold parseFrame
  cases senderCut : readSender nodeId contents.frame.bytes contents.frame.size with
  | error halt => exact ⟨halt, rfl⟩
  | ok sender =>
    have head : gossipMagic ++ (writeArrayHeader 5 ++ writeUint contents.senderNodeId) <+:
        contents.encode := by
      rw [FrameContents.encode, writeHeader]
      simp only [List.append_assoc]
      refine (List.prefix_append_right_inj _).mpr ((List.prefix_append_right_inj _).mpr ?_)
      exact List.prefix_append _ _
    have inside := head.length_le
    simp only [List.length_append, length_writeArrayHeader, length_writeUint,
      show gossipMagic.length = 3 from rfl, show arrayHeaderSize 5 = 1 from rfl] at inside
    have whole := readSender_of_holdsAt bounded foreign real
      (show HoldsAt contents.encode 0 _ from head) (by omega)
    rw [readSender_cut cut cut.length_le nodeId _ senderCut] at whole
    have safe := @readSender_safe contents.frame.bytes contents.frame.size le_rfl
      (contents.frame.sizeLt.trans (by decide)) nodeId
    rw [senderCut, Except.ok.inj whole] at safe
    exact absurd (safe.2.trans size) (not_le.mpr cutShort)

theorem filter_slots_single {manager : FleeceStateManager} {i : Fin fieldCapacity} {f : FieldEntry}
    (fields : manager.fields = Function.update (fun _ => .zero) i f) {keep : FieldEntry → Bool}
    (kept : keep f = true) (dropped : keep .zero = false) : manager.slots.filter keep = [f] := by
  have bound : i.val < (List.ofFn fun _ : Fin fieldCapacity => FieldEntry.zero).length := by
    rw [List.length_ofFn]
    exact i.isLt
  rw [slots, fields, Slots.ofFn_update, List.set_eq_take_append_cons_drop, if_pos bound,
    List.ofFn_const, List.take_replicate, List.drop_replicate, List.filter_append,
    List.filter_cons_of_pos kept, List.filter_replicate, List.filter_replicate, dropped]
  rfl

/-- The first write of a node is accepted. -/
theorem setShared_blank {nodeId : UInt64} {name : CString} {data : Blob}
    (nonempty : name.chars ≠ []) (filled : data.size ≠ 0) :
    ((blank nodeId).setShared name data).2 = 0 := by
  have accepted : ¬ (name.chars.isEmpty || data.size == 0) = true := by
    rw [Bool.or_eq_true, beq_iff_eq, List.isEmpty_iff]
    exact not_or.mpr ⟨nonempty, filled⟩
  unfold setShared
  rw [if_neg accepted]
  rcases upsertField_cases (blank nodeId).noteWrite.advanceClock (hashName name) sharedOwnerId
    nodeId (some name) data (0 + 1) false with ⟨_, _, full⟩ | ⟨f, next, stored, _⟩
  · exact absurd (show fieldCapacity ≤ 0 from full) (by decide)
  · exact congrArg Prod.snd stored

theorem view_first_write {nodeId : UInt64} {name : CString} {data : Blob}
    (created : createWithNodeId nodeId = some (blank nodeId))
    (accepted : ((blank nodeId).setShared name data).2 = 0) (key : UInt32) :
    ((blank nodeId).setShared name data).1.view (key, sharedOwnerId) =
      if key = hashName name then some (.upserted nodeId (.copy name) data 1 false) else none := by
  obtain ⟨f, stored, pair, held⟩ := setShared_wrote accepted
  have store := storeInvariant_create created
  rw [view_stored_foreign stored store store.realNode.symm, pair, held]
  split_ifs with here
  · rw [here, Function.update_self]
    rfl
  · rw [Function.update_of_ne fun same => here (Prod.mk.inj same).1]
    exact congrFun (refines_create created).view.symm _

/-- The only record of the first export of a node is the first one it wrote. -/
theorem contents_first_write {nodeId : UInt64} {name : CString} {data : Blob}
    (accepted : ((blank nodeId).setShared name data).2 = 0) (nonempty : name.chars ≠ []) :
    (GossipExport.shared.contents ((blank nodeId).setShared name data).1).records =
        [.upserted nodeId (.copy name) data 1 false] ∧
      (GossipExport.shared.contents ((blank nodeId).setShared name data).1).hw = 1 := by
  obtain ⟨f, stored, pair, held⟩ := setShared_wrote accepted
  obtain ⟨_, owned⟩ := Prod.mk.inj pair
  obtain ⟨i, fields, present, _⟩ := stored.index
  have named : f.isNamed = true := by
    show f.record.isNamed = true
    rw [held, GossipRecord.isNamed_iff]
    exact FieldName.copy_nonempty nonempty
  have stamp : f.timestamp = 1 := congrArg GossipRecord.timestamp held
  constructor
  · show List.map _ (List.filter _ (slots _)) = _
    rw [filter_slots_single fields, List.map_singleton, held]
    · rfl
    · rw [isExported, present, owned, named, stamp]
      decide
    · rfl
  · show maxTimestamp (List.filter _ (slots _)) = 1
    rw [filter_slots_single fields, maxTimestamp, List.foldl_cons, List.foldl_nil, stamp]
    · rfl
    · rw [present, owned, named]
      rfl
    · rfl

theorem length_encode_shared (record : GossipRecord) :
    (record.encode sharedOwnerId).length = 2 + uintSize record.originNodeId +
      textSize record.name.chars.length + uintSize record.timestamp +
      bytesSize record.data.size := by
  rw [GossipRecord.encode, if_pos rfl, List.length_append, List.length_append,
    GossipRecord.encodeAuthor, if_pos rfl, length_writeArrayHeader, length_writeUint,
    length_encodeBody, show arrayHeaderSize 5 = 1 from rfl]
  show 1 + uintSize record.originNodeId + (1 + textSize record.name.chars.length +
    uintSize record.timestamp + bytesSize record.data.size) = _
  omega

/-- The first export of the node with the id 2^63, whose first field has a name of one byte and a
payload of 2^32 - 36 bytes, is cut to at most eight bytes. -/
theorem length_giant_export {char : UInt8} (noNul : 0 ∉ [char]) {data : Blob}
    (giant : data.size = 4294967260)
    (accepted : ((blank 0x8000000000000000).setShared ⟨[char], noNul⟩ data).2 = 0) :
    (GossipExport.shared.contents
      ((blank 0x8000000000000000).setShared ⟨[char], noNul⟩ data).1).encode.length % 2 ^ 32 ≤ 8 := by
  obtain ⟨records, hw⟩ := contents_first_write accepted (List.cons_ne_nil _ _)
  have node : ((blank 0x8000000000000000).setShared ⟨[char], noNul⟩ data).1.nodeId =
      0x8000000000000000 := setShared_nodeId
    (storeInvariant_create (show createWithNodeId 0x8000000000000000 = some (blank _) from rfl))
    ⟨[char], noNul⟩ data
  generalize ((blank 0x8000000000000000).setShared ⟨[char], noNul⟩ data).1 = writer at *
  have payload : (GossipRecord.encode sharedOwnerId (.upserted 0x8000000000000000
      (.copy ⟨[char], noNul⟩) data 1 false)).length = 4294967279 := by
    rw [length_encode_shared]
    show 2 + uintSize 0x8000000000000000 + textSize 1 + uintSize 1 + bytesSize data.size = _
    rw [giant]
    decide
  have pos := uintSize_pos (GossipExport.shared.contents writer).digest
  have digest := uintSize_le (GossipExport.shared.contents writer).digest
  rw [FrameContents.length_encode, hw, records, List.map_singleton, List.sum_singleton,
    show (GossipExport.shared.contents writer).ownerNodeId = sharedOwnerId from rfl, payload,
    show (GossipExport.shared.contents writer).senderNodeId = _ from node,
    show uintSize sharedOwnerId = 1 from rfl, show uintSize 0x8000000000000000 = 9 from rfl,
    show uintSize 1 = 1 from rfl, show arrayHeaderSize [_].length = 1 from rfl]
  omega

/-- Two nodes with the ids 2^63 and 2^63 + 1 write the same field first. -/
theorem import_giant_export {goal : CString} {giant value : Blob} {char : UInt8}
    (noNul : 0 ∉ [char]) (name : goal = ⟨[char], noNul⟩) (giantSize : giant.size = 4294967260)
    (filled : value.size ≠ 0) :
    let sender := ((blank 0x8000000000000000).setShared goal giant).1
    let receiver := ((blank 0x8000000000000001).setShared goal value).1
    (∀ key record, sender.view (key, sharedOwnerId) = some record → record.timestamp ≤ 1 →
        ∃ held, receiver.view (key, sharedOwnerId) = some held ∧ record.version ≤ held.version) ∧
      (receiver.importFrom (sender.exportSharedDelta 1)).manager =
        receiver.touchPeer 0x8000000000000000 ∧
      (receiver.importFrom sender.exportShared).manager = receiver := by
  intro sender receiver
  have nonempty : goal.chars ≠ [] := by
    rw [name]
    exact List.cons_ne_nil _ _
  have accepted : ((blank 0x8000000000000000).setShared goal giant).2 = 0 :=
    setShared_blank nonempty (by rw [giantSize]; decide)
  have acceptedReceiver : ((blank 0x8000000000000001).setShared goal value).2 = 0 :=
    setShared_blank nonempty filled
  have blankSender := storeInvariant_create
    (show createWithNodeId 0x8000000000000000 = some (blank _) from rfl)
  have blankReceiver := storeInvariant_create
    (show createWithNodeId 0x8000000000000001 = some (blank _) from rfl)
  have store : sender.StoreInvariant :=
    setShared_storeInvariant blankSender goal giant
  have node : sender.nodeId = 0x8000000000000000 :=
    setShared_nodeId blankSender goal giant
  have nodeReceiver : receiver.nodeId = 0x8000000000000001 :=
    setShared_nodeId blankReceiver goal value
  have foreign : receiver.nodeId ≠ sender.nodeId := by
    rw [node, nodeReceiver]
    decide
  have cut : (GossipExport.shared.contents sender).encode.length % 2 ^ 32 ≤ 8 := by
    subst name
    exact length_giant_export _ giantSize accepted
  have records : (GossipExport.shared.contents sender).records =
      [.upserted 0x8000000000000000 (.copy goal) giant 1 false] :=
    (contents_first_write accepted nonempty).1
  have view (key : UInt32) : sender.view (key, sharedOwnerId) = if key = hashName goal then
      some (.upserted 0x8000000000000000 (.copy goal) giant 1 false) else none :=
    view_first_write rfl accepted key
  have viewReceiver (key : UInt32) : receiver.view (key, sharedOwnerId) =
      if key = hashName goal then
        some (.upserted 0x8000000000000001 (.copy goal) value 1 false) else none :=
    view_first_write rfl acceptedReceiver key
  clear_value sender receiver
  refine ⟨fun key record found early => ?_, ?_, ?_⟩
  · rw [view] at found
    rw [viewReceiver]
    split_ifs at found ⊢ with here
    rw [← Option.some.inj found]
    refine ⟨_, rfl, not_lt.mp fun up => ?_⟩
    rcases outranks_iff.mpr up with later | ⟨_, higher⟩
    · exact absurd (show (1 : UInt64) < 1 from later) (by decide)
    · exact absurd (show (0x8000000000000001 : UInt64) < 0x8000000000000000 from higher)
        (by decide)
  · have none : ((GossipExport.sharedDelta 1).contents sender).records = [] := by
      rw [records_sharedDelta, records]
      rfl
    have fits : ((GossipExport.sharedDelta 1).contents sender).encode.length < 2 ^ 32 := by
      have senderSize := uintSize_le ((GossipExport.sharedDelta 1).contents sender).senderNodeId
      have owner := uintSize_le ((GossipExport.sharedDelta 1).contents sender).ownerNodeId
      have hw := uintSize_le ((GossipExport.sharedDelta 1).contents sender).hw
      have digest := uintSize_le ((GossipExport.sharedDelta 1).contents sender).digest
      rw [FrameContents.length_encode, none, List.map_nil, List.sum_nil, List.length_nil,
        show arrayHeaderSize 0 = 1 from rfl]
      omega
    rw [importFrom_manager, show parseFrame receiver.nodeId (sender.exportSharedDelta 1) = _ from
      parseFrame_export store (.sharedDelta 1) foreign fits, ← node]
    simp only
    rw [none]
    rfl
  · have frame : sender.exportShared = (GossipExport.shared.contents sender).frame :=
      frame_eq_contents store .shared
    have width : uintSize (GossipExport.shared.contents sender).senderNodeId = 9 := by
      rw [show (GossipExport.shared.contents sender).senderNodeId = _ from node]
      rfl
    obtain ⟨halt, refused⟩ := @parseFrame_cut_sender (GossipExport.shared.contents sender)
      receiver.nodeId foreign.symm store.realNode
      (length_frame_lt (length_records_le sender .shared)) (by omega)
    rw [importFrom_manager, frame, refused]

/-- A shared field of 2^32 - 36 bytes makes the full export of its node at least 2^32 bytes long.
The size that is reported is at most eight bytes, and the frame is refused; the receiver, whose
own record outranks the field, accepts the empty delta and sees the sender. -/
theorem delta_differs_when_cut :
    let goal : CString := ⟨[0x67], by decide⟩
    let value : Blob := ⟨[1], by decide⟩
    let giant : Blob := ⟨List.replicate 4294967260 0, by rw [List.length_replicate]; decide⟩
    let sender := ((blank 0x8000000000000000).setShared goal giant).1
    let receiver := ((blank 0x8000000000000001).setShared goal value).1
    (∀ key record, sender.view (key, sharedOwnerId) = some record → record.timestamp ≤ 1 →
        ∃ held, receiver.view (key, sharedOwnerId) = some held ∧
          record.version ≤ held.version) ∧
      ((receiver.importFrom (sender.exportSharedDelta 1)).manager.peersSeen 0).slotExists = true ∧
      ((receiver.importFrom sender.exportShared).manager.peersSeen 0).slotExists = false := by
  intro goal value giant sender receiver
  obtain ⟨dominated, delta, full⟩ := import_giant_export (by decide) (show goal = _ from rfl)
    (show giant.size = 4294967260 from List.length_replicate) (show value.size ≠ 0 by decide)
  refine ⟨dominated, ?_, ?_⟩
  · rw [delta]
    decide +kernel
  · rw [full]
    decide +kernel

end FleeceStateManager

end Fleece
