/-
This file is about a claim on its way to another node. A claim is a shared field under
the hash of `claim_<key>`, and of that name a slot keeps 63 bytes: the claim travels
under the hash of these. For a key of at most 57 bytes that is the same hash. For a
longer one it is another, and the node that has read the frame finds no claim.

Nothing is assumed about the store that the frame comes to. It may be full, so that
the import drops records; the claim gets a slot exactly if one is left for it, and
then the slot ends up with the greatest of what it held and what came for it.
-/

import Fleece.AntiEntropy
import Fleece.ExactScores

namespace Fleece

namespace FleeceStateManager

/-! ### Merging into a store that may be full -/

section Room

variable {manager : FleeceStateManager}

/-- Whether all slots are taken after the merges depends on how many keys were new. -/
theorem fieldCount_mergeRecords_lt_iff (invariant : manager.StoreInvariant)
    {records : List GossipRecord} (sendable : ∀ record ∈ records, record.Sendable sharedOwnerId) :
    (manager.mergeRecords sharedOwnerId records).fieldCount < fieldCapacity ↔
      manager.fieldCount + (manager.newKeys records).card < fieldCapacity := by
  induction records generalizing manager with
  | nil => rfl
  | cons record rest inductionHypothesis =>
    have sendableHere := sendable record List.mem_cons_self
    refine (inductionHypothesis (mergeRecord_storeInvariant invariant _ record)
      fun later member => sendable later (List.mem_cons_of_mem _ member)).trans ?_
    cases room : hasSlotFor sharedOwnerId manager record with
    | true =>
      rw [newKeys_mergeRecord invariant sendableHere room, fieldCount_mergeRecord sendableHere room]
      split_ifs with absent
      · have new : record.keyed.1 ∈ manager.newKeys (record :: rest) :=
          mem_newKeys.mpr ⟨⟨record, List.mem_cons_self, rfl⟩, absent⟩
        have counted := Finset.card_erase_add_one new
        omega
      · rw [Finset.erase_eq_of_notMem fun new => absent (mem_newKeys.mp new).2, Nat.add_zero]
    | false =>
      have full : ¬ manager.fieldCount < fieldCapacity := by
        rw [hasSlotFor, hasSlot, Bool.or_eq_false_iff, Bool.or_eq_false_iff] at room
        exact of_decide_eq_false room.2.2
      rw [mergeRecord_of_noSlot sendableHere room]
      exact iff_of_false (fun less => full (Nat.lt_of_le_of_lt (Nat.le_add_right _ _) less))
        fun less => full (Nat.lt_of_le_of_lt (Nat.le_add_right _ _) less)

/-- The records that come for the slot of a key. -/
def arriving (key : UInt32) (records : List GossipRecord) : List GossipRecord :=
  records.filter fun record => record.keyed.1 == key

theorem mem_arriving {key : UInt32} {records : List GossipRecord} {record : GossipRecord} :
    record ∈ arriving key records ↔ record ∈ records ∧ record.keyed.1 = key := by
  rw [arriving, List.mem_filter, beq_iff_eq]

theorem arriving_nil (key : UInt32) : arriving key [] = [] := rfl

theorem arriving_cons_self (record : GossipRecord) (rest : List GossipRecord) :
    arriving record.keyed.1 (record :: rest) = record :: arriving record.keyed.1 rest :=
  List.filter_cons_of_pos (beq_self_eq_true record.keyed.1)

theorem arriving_cons_of_ne {key : UInt32} {record : GossipRecord} (other : record.keyed.1 ≠ key)
    (rest : List GossipRecord) : arriving key (record :: rest) = arriving key rest :=
  List.filter_cons_of_neg fun same => other (beq_iff_eq.mp same)

/-- A slot that is there is offered what comes for it. -/
theorem view_mergeRecords_of_present (invariant : manager.StoreInvariant)
    {records : List GossipRecord} (sendable : ∀ record ∈ records, record.Sendable sharedOwnerId)
    {key : UInt32} (present : manager.view (key, sharedOwnerId) ≠ none) :
    (manager.mergeRecords sharedOwnerId records).view (key, sharedOwnerId) =
      Register.offerAll GossipRecord.version (manager.view (key, sharedOwnerId))
        (arriving key records) := by
  induction records generalizing manager with
  | nil =>
    rw [arriving_nil, Register.offerAll_nil]
    rfl
  | cons record rest inductionHypothesis =>
    have sendableHere := sendable record List.mem_cons_self
    have onward := inductionHypothesis (mergeRecord_storeInvariant invariant sharedOwnerId record)
      fun later member => sendable later (List.mem_cons_of_mem _ member)
    by_cases here : record.keyed.1 = key
    · subst here
      have room : hasSlotFor sharedOwnerId manager record = true := by
        rw [hasSlotFor, hasSlot]
        have isSome := Option.isSome_iff_ne_none.mpr present
        simp only [GossipRecord.keyed] at isSome
        rw [isSome, Bool.true_or, Bool.or_true]
      have offered := view_mergeRecord invariant sendableHere room record.keyed.1
      rw [Function.update_self] at offered
      rw [offered] at onward
      rw [mergeRecords_cons, arriving_cons_self, Register.offerAll_cons]
      exact onward (Register.offer_ne_none _ record)
    · have same := view_mergeRecord_of_ne invariant sendableHere here
      rw [same] at onward
      rw [mergeRecords_cons, arriving_cons_of_ne here]
      exact onward present

/-- The first record that comes for a key takes a free slot, and the later ones find it. -/
theorem view_mergeRecords_first (invariant : manager.StoreInvariant) {first : GossipRecord}
    {rest : List GossipRecord}
    (sendable : ∀ record ∈ first :: rest, record.Sendable sharedOwnerId)
    (absent : manager.view (first.keyed.1, sharedOwnerId) = none)
    (free : manager.fieldCount < fieldCapacity) :
    (manager.mergeRecords sharedOwnerId (first :: rest)).view (first.keyed.1, sharedOwnerId) =
      Register.offerAll GossipRecord.version none (arriving first.keyed.1 (first :: rest)) := by
  have slot : hasSlotFor sharedOwnerId manager first = true := by
    rw [hasSlotFor, hasSlot, decide_eq_true free, Bool.or_true, Bool.or_true]
  have stored := view_mergeRecord invariant (sendable first List.mem_cons_self) slot first.keyed.1
  rw [Function.update_self, absent] at stored
  have onward := @view_mergeRecords_of_present
    (manager.mergeRecord sharedOwnerId first) (mergeRecord_storeInvariant invariant _ first) rest
    (fun record member => sendable record (List.mem_cons_of_mem _ member)) first.keyed.1
  rw [stored] at onward
  rw [mergeRecords_cons, arriving_cons_self, Register.offerAll_cons]
  exact onward (Register.offer_ne_none none first)

/-- No slot is left for a key where all are taken. -/
theorem view_mergeRecords_of_full (invariant : manager.StoreInvariant)
    {records : List GossipRecord} (sendable : ∀ record ∈ records, record.Sendable sharedOwnerId)
    {key : UInt32} (absent : manager.view (key, sharedOwnerId) = none)
    (full : fieldCapacity ≤ manager.fieldCount) :
    (manager.mergeRecords sharedOwnerId records).view (key, sharedOwnerId) = none := by
  induction records generalizing manager with
  | nil => exact absent
  | cons record rest inductionHypothesis =>
    have sendableHere := sendable record List.mem_cons_self
    have onward := inductionHypothesis (mergeRecord_storeInvariant invariant sharedOwnerId record)
      fun later member => sendable later (List.mem_cons_of_mem _ member)
    cases room : hasSlotFor sharedOwnerId manager record with
    | true =>
      refine onward ((view_mergeRecord_eq_none_iff invariant sendableHere room).mpr ⟨?_, absent⟩) ?_
      · rintro rfl
        rw [hasSlotFor, sendableHere.mergeable, Bool.not_true, Bool.false_or] at room
        exact not_full_of_hasSlot room absent full
      · rw [fieldCount_mergeRecord sendableHere room]
        exact full.trans (Nat.le_add_right _ _)
    | false =>
      rw [mergeRecord_of_noSlot sendableHere room] at onward
      rw [mergeRecords_cons, mergeRecord_of_noSlot sendableHere room]
      exact onward absent full

/-- A slot is left for the key when the first record comes for it. -/
def HasRoomFor (manager : FleeceStateManager) (records : List GossipRecord) (key : UInt32) : Prop :=
  manager.view (key, sharedOwnerId) = none →
    manager.fieldCount +
      (manager.newKeys (records.takeWhile fun record => record.keyed.1 != key)).card < fieldCapacity

/-- The slot of a key after the merges: with room it was offered what came for it, and without room
there is none. -/
theorem view_mergeRecords (invariant : manager.StoreInvariant) {records : List GossipRecord}
    (sendable : ∀ record ∈ records, record.Sendable sharedOwnerId) (key : UInt32) :
    (manager.HasRoomFor records key →
      (manager.mergeRecords sharedOwnerId records).view (key, sharedOwnerId) =
        Register.offerAll GossipRecord.version (manager.view (key, sharedOwnerId))
          (arriving key records)) ∧
      (¬ manager.HasRoomFor records key →
        (manager.mergeRecords sharedOwnerId records).view (key, sharedOwnerId) = none) := by
  by_cases present : manager.view (key, sharedOwnerId) = none
  case neg =>
    exact ⟨fun _ => view_mergeRecords_of_present invariant sendable present,
      fun noRoom => absurd (fun absent => absurd absent present) noRoom⟩
  -- the records split where the first one comes for the key
  let before := records.takeWhile fun record => record.keyed.1 != key
  let later := records.dropWhile fun record => record.keyed.1 != key
  have split : before ++ later = records := List.takeWhile_append_dropWhile
  have sendableBefore : ∀ record ∈ before, record.Sendable sharedOwnerId := fun record member =>
    sendable record (split ▸ List.mem_append_left _ member)
  have sendableLater : ∀ record ∈ later, record.Sendable sharedOwnerId := fun record member =>
    sendable record (split ▸ List.mem_append_right _ member)
  have others : ∀ record ∈ before, record.keyed.1 ≠ key := fun record member =>
    bne_iff_ne.mp
      (List.mem_takeWhile_imp (p := fun record : GossipRecord => record.keyed.1 != key) member)
  have merged : manager.mergeRecords sharedOwnerId records =
      (manager.mergeRecords sharedOwnerId before).mergeRecords sharedOwnerId later := by
    rw [← split]
    exact List.foldl_append
  have middle := mergeRecords_storeInvariant invariant before
  have absent := (view_mergeRecords_of_ne invariant sendableBefore others).trans present
  have arrivingLater : arriving key records = arriving key later := by
    rw [← split, arriving, List.filter_append, List.filter_eq_nil_iff.mpr, List.nil_append]
    · rfl
    · exact fun record member same => others record member (beq_iff_eq.mp same)
  rw [merged]
  constructor
  · intro room
    have free := (fieldCount_mergeRecords_lt_iff invariant sendableBefore).mpr (room present)
    rw [present, arrivingLater]
    cases laterEq : later with
    | nil => exact absent
    | cons first rest =>
      have stops := List.head?_dropWhile_not
        (fun record : GossipRecord => record.keyed.1 != key) records
      rw [show records.dropWhile _ = first :: rest from laterEq] at stops
      obtain rfl : first.keyed.1 = key := by simpa using stops
      exact view_mergeRecords_first middle (laterEq ▸ sendableLater) absent free
  · intro noRoom
    have full := (Classical.not_imp.mp noRoom).2
    rw [← fieldCount_mergeRecords_lt_iff invariant sendableBefore] at full
    exact view_mergeRecords_of_full middle sendableLater absent (not_lt.mp full)

end Room

/-! ### A claim that was written -/

section Written

variable {Score : Type} [Add Score] [LT Score] [DecidableLT Score] [BEq Score] [Neg Score]
  [Zero Score] [OfScientific Score] {host : ScriptHost Score} {auction : Auction Score}

/-- A key that is cut to 63 bytes has the same claim, as far as a slot keeps its name. -/
theorem copy_claimName_copy (key : CString) :
    FieldName.copy (claimName (FieldName.copy key).toCString) = FieldName.copy (claimName key) := by
  have cut (chars : List UInt8) : ((claimPrefix ++ chars).take (fieldNameMax + 7)).take
      (fieldNameMax - 1) = claimPrefix ++ chars.take 57 := by
    rw [List.take_take, show min (fieldNameMax - 1) (fieldNameMax + 7) = 63 from rfl,
      List.take_append, List.take_of_length_le (show claimPrefix.length ≤ 63 by decide)]
    rfl
  refine FieldName.ext ((cut _).trans (Eq.trans ?_ (cut _).symm))
  show claimPrefix ++ (key.chars.take 63).take 57 = _
  rw [List.take_take]
  rfl

/-- The record of a claim that a call has written under the key it returns. -/
structure IsClaimed (host : ScriptHost Score) (writer claimer : FleeceStateManager) (key : CString)
    (score : Score) (record : GossipRecord) : Prop where
  found : claimer.view (claimKey key, sharedOwnerId) = some record
  alive : record.isTombstone = false
  name : record.name = .copy (claimName key)
  timestamp : record.timestamp = writer.localTimestamp + 1
  parsed : parseClaim host record.data = some (writer.nodeId, score)

theorem isClaimed_of_call {writer claimer : FleeceStateManager} (store : writer.StoreInvariant)
    {currentKey : CString} {key : FieldName} {score : Score}
    (call : writer.claimBestGoal host auction currentKey = (claimer, 0, key))
    (wrote : claimer.liveShared (claimKey key.toCString) ≠
      writer.liveShared (claimKey key.toCString))
    (held : (claimer.readClaim host key.toCString).1 = some (writer.nodeId, score)) :
    claimer.StoreInvariant ∧ claimer.nodeId = writer.nodeId ∧
      ∃ record, IsClaimed host writer claimer key.toCString score record := by
  obtain ⟨record, live, parsed⟩ := exists_of_readClaim held
  have both := live
  rw [liveShared, liveView] at both
  obtain ⟨found, alive⟩ := Option.filter_eq_some_iff.mp both
  cases scorer : auction.scoreGoal with
  | none =>
    have refused : writer.claimBestGoal host auction currentKey = (writer, -1, .empty) := by
      rw [claimBestGoal, scorer]
    have code : (-1 : Int) = 0 := (Prod.mk.inj (Prod.mk.inj (refused.symm.trans call)).2).1
    cases code
  | some calls =>
    obtain ⟨kept, same, settled⟩ := claimBestGoal_settled host store scorer currentKey
    rw [call] at kept same settled
    have written : ∃ named score, IsNewClaim host writer named score record ∧
        FieldName.copy (claimName named) = FieldName.copy (claimName key.toCString) := by
      generalize outcome : (claimer, key) = result at settled
      cases settled with
      | kept next unchanged =>
        cases outcome
        exact absurd (congrFun unchanged _) wrote
      | reasserted next named score written holds claim changed =>
        cases outcome
        rw [changed] at wrote live
        rw [Function.update_apply] at live
        split_ifs at live with here
        · cases live
          exact ⟨named, score, claim, (copy_claimName_copy named).symm⟩
        · exact absurd (Function.update_of_ne here _ _) wrote
      | switched next bid written isBid better claim changed =>
        cases outcome
        rw [changed] at live
        have kept := live_of_vacate live
        rw [Function.update_self] at kept
        cases kept
        exact ⟨bid.key.toCString, bid.score, claim, rfl⟩
    obtain ⟨named, offered, claim, copied⟩ := written
    exact ⟨kept, same.nodeId, record, found, claim.alive, claim.name.trans copied, claim.timestamp,
      parsed⟩

/-! ### The claim at another node -/

omit [Add Score] [LT Score] [DecidableLT Score] [BEq Score] [Neg Score] [Zero Score]
  [OfScientific Score]

/-- The records of the shared export of a node that another node reads: all of them, or those before
the place where the frame was cut. -/
def receivedFrom (exporter : FleeceStateManager) (nodeId : UInt64) : List GossipRecord :=
  match parseFrame nodeId exporter.exportShared with
  | .ok parsed => parsed.records
  | .error _ => []

section Received

variable {reader exporter : FleeceStateManager} (storeExporter : exporter.StoreInvariant)
  (foreign : reader.nodeId ≠ exporter.nodeId)
include storeExporter foreign

theorem receivedFrom_prefix :
    exporter.receivedFrom reader.nodeId <+: (GossipExport.shared.contents exporter).records := by
  unfold receivedFrom
  cases read : parseFrame reader.nodeId exporter.exportShared with
  | error halt => exact List.nil_prefix
  | ok parsed => exact (parseFrame_export_cut storeExporter .shared foreign read).2.2

theorem receivedFrom_of_fits
    (fits : (GossipExport.shared.contents exporter).encode.length < 2 ^ 32) :
    exporter.receivedFrom reader.nodeId = (GossipExport.shared.contents exporter).records := by
  have parsed := parseFrame_export storeExporter .shared foreign fits
  unfold receivedFrom
  rw [show exporter.exportShared = GossipExport.shared.frame exporter from rfl, parsed]

theorem importFrom_merges (store : reader.StoreInvariant) :
    ∃ base : FleeceStateManager, base.StoreInvariant ∧ base.fields = reader.fields ∧
      base.fieldCount = reader.fieldCount ∧
      (reader.importFrom exporter.exportShared).manager =
        base.mergeRecords sharedOwnerId (exporter.receivedFrom reader.nodeId) := by
  unfold receivedFrom
  rw [importFrom_manager]
  cases read : parseFrame reader.nodeId exporter.exportShared with
  | error halt => exact ⟨reader, store, rfl, rfl, rfl⟩
  | ok parsed =>
    obtain ⟨_, owner, _⟩ := parseFrame_export_cut storeExporter .shared foreign read
    refine ⟨_, ((touchPeer_quiet reader parsed.senderNodeId).keeps store).1, touchPeer_fields _ _,
      ?_, ?_⟩
    · rw [touchPeer_rest]
    · simp only
      rw [owner]
      rfl

end Received

theorem hasRoomFor_congr {base reader : FleeceStateManager} (fields : base.fields = reader.fields)
    (count : base.fieldCount = reader.fieldCount) (records : List GossipRecord) (key : UInt32) :
    base.HasRoomFor records key ↔ reader.HasRoomFor records key := by
  unfold HasRoomFor newKeys
  rw [view_of_same fields, count]

/-- What a node shows of a claim once it has merged some records: it has a slot for the key, and
this slot, which was offered the records under its hash, holds a live one with that claim. -/
structure Shows (host : ScriptHost Score) (reader : FleeceStateManager)
    (received : List GossipRecord) (key : CString) (claim : UInt64 × Score) : Prop where
  room : reader.HasRoomFor received (claimKey key)
  holds : ∃ record, Register.offerAll GossipRecord.version
      (reader.view (claimKey key, sharedOwnerId)) (arriving (claimKey key) received) =
        some record ∧
    record.isTombstone = false ∧ parseClaim host record.data = some claim

/-- When a claim that was written is the last word under its hash: a slot keeps the hash of its
name, the clock has not wrapped, the reader has a slot for it, and nothing that the reader holds or
that comes with it under its hash is as late as the claim. -/
structure VisibleWhen (writer claimer reader : FleeceStateManager) (key : CString) : Prop where
  name : hashName (FieldName.copy (claimName key)).toCString = claimKey key
  noWrap : writer.localTimestamp ≠ clockMax
  room : reader.HasRoomFor (GossipExport.shared.contents claimer).records (claimKey key)
  latest : ∀ record rival, claimer.view (claimKey key, sharedOwnerId) = some record →
    reader.view (claimKey key, sharedOwnerId) = some rival ∨ rival ≠ record ∧
      rival ∈ arriving (claimKey key) (GossipExport.shared.contents claimer).records →
    rival.version < record.version

/-- The claim is not exported twice under its hash: no other record there has its version or its
content. -/
def NoTwin (host : ScriptHost Score) (claimer : FleeceStateManager) (key : CString)
    (claim : UInt64 × Score) : Prop :=
  ∀ record rival, claimer.view (claimKey key, sharedOwnerId) = some record → rival ≠ record →
    rival ∈ arriving (claimKey key) (GossipExport.shared.contents claimer).records →
    rival.version ≠ record.version ∧ parseClaim host rival.data ≠ some claim

section Seen

variable {writer claimer reader : FleeceStateManager} {key : CString} {score : Score}

/-- A node reads a claim from an export exactly if it shows it after what it has received. -/
theorem readClaim_import_iff (store : reader.StoreInvariant)
    (storeClaimer : claimer.StoreInvariant) (foreign : reader.nodeId ≠ claimer.nodeId)
    {claim : UInt64 × Score} :
    ((reader.importFrom claimer.exportShared).manager.readClaim host key).1 = some claim ↔
      Shows host reader (claimer.receivedFrom reader.nodeId) key claim := by
  obtain ⟨base, storeBase, fields, count, imported⟩ :=
    importFrom_merges storeClaimer foreign store
  have received := receivedFrom_prefix storeClaimer foreign
  have merged := view_mergeRecords storeBase (fun sent member =>
    sendable_contents storeClaimer .shared sent (received.subset member)) (claimKey key)
  rw [hasRoomFor_congr fields count, view_of_same fields, ← imported] at merged
  constructor
  · intro read
    obtain ⟨owner, score⟩ := claim
    obtain ⟨record, live, parsed⟩ := exists_of_readClaim read
    rw [liveShared, liveView] at live
    obtain ⟨stored, alive⟩ := Option.filter_eq_some_iff.mp live
    have room : reader.HasRoomFor (claimer.receivedFrom reader.nodeId) (claimKey key) := by
      by_contra noRoom
      rw [merged.2 noRoom] at stored
      cases stored
    rw [merged.1 room] at stored
    exact ⟨room, record, stored, by simpa using alive, parsed⟩
  · rintro ⟨room, record, stored, alive, parsed⟩
    have live : (reader.importFrom claimer.exportShared).manager.liveShared (claimKey key) =
        some record := by
      rw [liveShared, liveView, merged.1 room, stored, Option.filter_some, alive]
      rfl
    rw [readClaim_of_some live, parsed]

variable {record : GossipRecord} (claimed : IsClaimed host writer claimer key score record)
include claimed

theorem shows_of_visibleWhen (storeClaimer : claimer.StoreInvariant)
    (visibleWhen : VisibleWhen writer claimer reader key) :
    Shows host reader (GossipExport.shared.contents claimer).records key
      (writer.nodeId, score) := by
  have stamped : record.timestamp ≠ 0 := by
    intro zero
    have up := lt_add_one_of_ne_max visibleWhen.noWrap
    rw [← claimed.timestamp, zero] at up
    exact absurd UInt64.zero_le (UInt64.not_le.mpr up)
  have here : record ∈
      arriving (claimKey key) (GossipExport.shared.contents claimer).records := by
    refine mem_arriving.mpr ⟨mem_contents_shared storeClaimer claimed.found stamped, ?_⟩
    rw [GossipRecord.keyed, claimed.name, visibleWhen.name]
  exact ⟨visibleWhen.room, record, Register.offerAll_of_latest here fun rival =>
    visibleWhen.latest record rival claimed.found, claimed.alive, claimed.parsed⟩

theorem visibleWhen_of_shows (unclaimed : reader.liveShared (claimKey key) = none)
    (noTwin : NoTwin host claimer key (writer.nodeId, score)) {received : List GossipRecord}
    (cut : received <+: (GossipExport.shared.contents claimer).records)
    (shows : Shows host reader received key (writer.nodeId, score)) :
    (hashName (FieldName.copy (claimName key)).toCString = claimKey key ∧
        writer.localTimestamp ≠ clockMax) ∧
      (received = (GossipExport.shared.contents claimer).records →
        VisibleWhen writer claimer reader key) := by
  obtain ⟨room, seen, stored, alive, parsed⟩ := shows
  have start : Register.Holds GossipRecord.version
      {old | reader.view (claimKey key, sharedOwnerId) = some old}
      (reader.view (claimKey key, sharedOwnerId)) := Register.holds_self _
  have holds := start.offerAll (arriving (claimKey key) received)
  -- what is shown is the claim: the reader held none, and nothing else that came is one
  have notHeld : reader.view (claimKey key, sharedOwnerId) ≠ some seen := by
    intro held
    rw [liveShared, liveView, held, Option.filter_some, alive] at unclaimed
    cases unclaimed
  have arrived := mem_arriving.mp ((holds.among seen stored).resolve_left notHeld)
  have same : seen = record := by
    by_contra other
    exact (noTwin record seen claimed.found other
      (mem_arriving.mpr ⟨cut.subset arrived.1, arrived.2⟩)).2 parsed
  subst same
  have name : hashName (FieldName.copy (claimName key)).toCString = claimKey key := by
    rw [← claimed.name]
    exact arrived.2
  have noWrap : writer.localTimestamp ≠ clockMax := by
    intro wraps
    refine timestamp_of_mem_shared (cut.subset arrived.1) ?_
    rw [claimed.timestamp, wraps]
    decide
  refine ⟨⟨name, noWrap⟩, ?_⟩
  rintro rfl
  refine ⟨name, noWrap, room, fun record rival found before => ?_⟩
  obtain rfl : seen = record := Option.some.inj (claimed.found.symm.trans found)
  rcases before with held | ⟨other, came⟩
  · rw [held] at stored
    exact (Register.offerAll_replaces stored).resolve_left fun same => notHeld (same ▸ held)
  · obtain ⟨best, there, reached⟩ := holds.greatest rival (Or.inr came)
    obtain rfl : seen = best := Option.some.inj (stored.symm.trans there)
    exact lt_of_le_of_ne reached (noTwin seen rival found other came).1

end Seen

end Written

/-- After a node has written a claim, a node without one that imports its full export reads that
claim if and only if the slot of its hash, offered what has come, holds it. So it does if a slot
keeps the hash of its name, the clock has not wrapped, there is room and nothing later is under the
hash; and with no second record like it, only so. -/
theorem claim_visible_iff {Score : Type} [Add Score] [LT Score] [DecidableLT Score] [BEq Score]
    [Neg Score] [Zero Score] [OfScientific Score] {nodeId otherId : UInt64}
    {manager other claimer : FleeceStateManager} (created : createWithNodeId nodeId = some manager)
    (createdOther : createWithNodeId otherId = some other) (apart : otherId ≠ nodeId)
    (operations operationsOther : List Operation) {host : ScriptHost Score}
    {auction : Auction Score} {currentKey : CString} {key : FieldName} {score : Score}
    (call : (manager.after operations).claimBestGoal host auction currentKey = (claimer, 0, key))
    (wrote : claimer.liveShared (claimKey key.toCString) ≠
      (manager.after operations).liveShared (claimKey key.toCString))
    (held : (claimer.readClaim host key.toCString).1 = some (nodeId, score))
    (unclaimed : (other.after operationsOther).getNamed sharedOwnerId (claimName key.toCString) =
      none) :
    let writer := manager.after operations
    let reader := other.after operationsOther
    let exported := GossipExport.shared.contents claimer
    let received := claimer.receivedFrom otherId
    let imported := (reader.importFrom claimer.exportShared).manager
    let shows := Shows host reader received key.toCString (nodeId, score)
    ((imported.readClaim host key.toCString).1 = some (nodeId, score) ↔ shows) ∧
      (exported.encode.length < 2 ^ 32 → received = exported.records) ∧
      (exported.encode.length < 2 ^ 32 → VisibleWhen writer claimer reader key.toCString →
        shows) ∧
      (NoTwin host claimer key.toCString (nodeId, score) → shows →
        (hashName (FieldName.copy (claimName key.toCString)).toCString =
            claimKey key.toCString ∧ writer.localTimestamp ≠ clockMax) ∧
          (exported.encode.length < 2 ^ 32 →
            VisibleWhen writer claimer reader key.toCString)) := by
  intro writer reader exported received imported shows
  have node : writer.nodeId = nodeId := node_after created operations
  have nodeOther : reader.nodeId = otherId := node_after createdOther operationsOther
  have store := storeInvariant_after createdOther operationsOther
  rw [← node] at held
  obtain ⟨storeClaimer, same, record, claimed⟩ :=
    isClaimed_of_call (storeInvariant_after created operations) call wrote held
  have foreign : reader.nodeId ≠ claimer.nodeId := by
    rw [nodeOther, same, node]
    exact apart
  have noClaim : reader.liveShared (claimKey key.toCString) = none :=
    Option.map_eq_none_iff.mp ((getNamed_claim reader key.toCString).symm.trans unclaimed)
  have fromReader : received = claimer.receivedFrom reader.nodeId :=
    congrArg claimer.receivedFrom nodeOther.symm
  have whole (fits : exported.encode.length < 2 ^ 32) : received = exported.records :=
    fromReader.trans (receivedFrom_of_fits storeClaimer foreign fits)
  refine ⟨?_, whole, fun fits visibleWhen => ?_, fun noTwin shown => ?_⟩
  · exact (readClaim_import_iff store storeClaimer foreign).trans (by rw [← fromReader])
  · have shown := shows_of_visibleWhen claimed storeClaimer visibleWhen
    rw [node, ← whole fits] at shown
    exact shown
  · rw [← node] at noTwin
    have cut := fromReader ▸ receivedFrom_prefix storeClaimer foreign
    obtain ⟨both, only⟩ := visibleWhen_of_shows claimed noClaim noTwin cut (node ▸ shown)
    exact ⟨both, fun fits => only (whole fits)⟩

/-- Node 9 has imported the goal of node 7, and then imports the claim on it. -/
theorem claim_visible_short :
    let goal : CString := ⟨[0x67, 0x31], by decide⟩
    let auction : Auction ℚ :=
      ⟨⟨[0x67], by decide⟩, 1, false, 100, some fun _ _ _ => some 5⟩
    let writer := (blank 7).after [.write (.setShared goal ⟨[0x31], by decide⟩)]
    let claimer := (writer.claimBestGoal exactHost auction ⟨[], by decide⟩).1
    let reader := (blank 9).after [.importFrom writer.exportShared]
    reader.getNamed sharedOwnerId goal = some ⟨[0x31], by decide⟩ ∧
      ((reader.importFrom claimer.exportShared).manager.readClaim exactHost goal).1 =
        some (7, 5) := by
  intro goal auction writer claimer reader
  let key := FieldName.copy goal
  have alone : ∀ record ∈ (GossipExport.shared.contents claimer).records,
      record.keyed.1 = claimKey key.toCString →
        claimer.view (claimKey key.toCString, sharedOwnerId) = some record := by
    decide +kernel
  have nothing : reader.view (claimKey key.toCString, sharedOwnerId) = none := by decide +kernel
  have returned : (writer.claimBestGoal exactHost auction ⟨[], by decide⟩).2 = (0, key) := by
    decide +kernel
  have call : writer.claimBestGoal exactHost auction ⟨[], by decide⟩ = (claimer, 0, key) :=
    Prod.mk.eta.symm.trans (congrArg (Prod.mk claimer) returned)
  obtain ⟨exactly, _, visible, _⟩ := claim_visible_iff
    (show createWithNodeId 7 = some (blank 7) from rfl)
    (show createWithNodeId 9 = some (blank 9) from rfl) (by decide)
    [.write (.setShared goal ⟨[0x31], by decide⟩)] [.importFrom writer.exportShared] call
    (by decide +kernel) (show (claimer.readClaim exactHost goal).1 = some (7, 5) by decide +kernel)
    (by decide +kernel)
  refine ⟨by decide +kernel, exactly.mpr (visible (by decide +kernel) ⟨by decide +kernel,
    by decide +kernel, fun _ => by decide +kernel, fun record rival found before => ?_⟩)⟩
  rcases before with held | ⟨other, came⟩
  · exact absurd (held.symm.trans nothing) (Option.some_ne_none rival)
  · obtain ⟨arrived, same⟩ := mem_arriving.mp came
    exact absurd (Option.some.inj ((alone rival arrived same).symm.trans found)) other

/-- The claim on a goal whose key has 58 bytes is under the hash of 64 bytes at node 7, and under
the hash of 63 at node 9. -/
theorem claim_hidden_long :
    let goal : CString := ⟨List.replicate 58 0x67, by decide⟩
    let auction : Auction ℚ :=
      ⟨⟨[0x67], by decide⟩, 1, false, 100, some fun _ _ _ => some 5⟩
    let writer := (blank 7).after [.write (.setShared goal ⟨[0x31], by decide⟩)]
    let claimed := writer.claimBestGoal exactHost auction ⟨[], by decide⟩
    let reader := (blank 9).after [.importFrom writer.exportShared]
    let imported := (reader.importFrom claimed.1.exportShared).manager
    claimed.2 = (0, FieldName.copy goal) ∧
      (claimed.1.readClaim exactHost goal).1 = some (7, 5) ∧
      reader.getNamed sharedOwnerId goal = some ⟨[0x31], by decide⟩ ∧
      reader.getNamed sharedOwnerId (claimName goal) = none ∧
      (imported.readClaim exactHost goal).1 = none := by
  decide +kernel

end FleeceStateManager

end Fleece
