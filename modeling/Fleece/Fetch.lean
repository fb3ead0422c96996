/-
This file follows the targeted repair over its rounds. In one round the requester
reads the index of the responder, asks for the keys it lacks or holds an older
version of, and imports the answer. Two caps cut the lists: a request has at most
64 hashes, and an answer stops at 320 bytes once it carries a record.

The first record an answer takes is taken whatever its size, so that every round
delivers a record the requester was missing, unless this record is so large that
the size of its frame does not fit 32 bits. Such a frame is cut, the record is lost
on the way, and as the next round asks and answers the same, the repair stands still.
-/

import Fleece.AntiEntropy

namespace Fleece

/-! ### One round -/

/-- The keys that `handle_fx_frame` requests on an index frame. -/
def FleeceStateManager.wantedFrom (manager : FleeceStateManager) (index : Blob) : List UInt32 :=
  match readControlHead index.bytes index.size with
  | .error _ => []
  | .ok head =>
    if head.tag = 1 then
      match readPairs index.bytes index.size head.items.toNat head.pos [] with
      | .error _ => []
      | .ok pairs => FleeceRuntime.wantedKeys manager pairs
    else []

/-- The value request for some keys. -/
def FleeceStateManager.valueRequest (manager : FleeceStateManager) (hashes : List UInt32) : Blob :=
  .ofBuffer (controlFrame manager.nodeId 2 hashes)

/-- The frame with which `handle_fx_frame` answers a value request. -/
def FleeceStateManager.answerTo (manager : FleeceStateManager) (request : Blob) : Option Blob :=
  match readControlHead request.bytes request.size with
  | .error _ => none
  | .ok head =>
    if head.tag = 2 then
      match readHashes request.bytes request.size head.items.toNat head.pos [] with
      | .error _ => none
      | .ok hashes =>
        if hashes.length > 0 then some (manager.exportSharedByHash hashes) else none
    else none

/-- The requester after one round of the repair, from the index of the responder to the import of
its answer. An empty diff ends the round. -/
def FleeceStateManager.fetchRound (responder requester : FleeceStateManager) :
    FleeceStateManager :=
  let wanted := requester.wantedFrom responder.exportSharedIndex
  if wanted.length > 0 then
    (responder.answerTo (requester.valueRequest wanted)).elim requester fun answer =>
      (requester.importFrom answer).manager
  else requester

namespace FleeceStateManager

theorem wantedFrom_index (manager responder : FleeceStateManager) :
    manager.wantedFrom responder.exportSharedIndex =
      FleeceRuntime.wantedKeys manager (livePairs responder) := by
  obtain ⟨pos, head, pairs⟩ := index_round_trip responder
  have count : (UInt64.ofNat (livePairs responder).length).toNat = (livePairs responder).length := by
    rw [UInt64.toNat_ofNat', Nat.mod_eq_of_lt ((length_livePairs_le responder).trans_lt (by decide))]
  unfold wantedFrom
  simp only [head, count, pairs, if_true]

theorem answerTo_request (manager requester : FleeceStateManager) {hashes : List UInt32}
    (few : hashes.length ≤ maxFetchKeys) (some : hashes.length > 0) :
    manager.answerTo (requester.valueRequest hashes) =
      .some (manager.exportSharedByHash hashes) := by
  obtain ⟨pos, head, read⟩ := request_round_trip requester.nodeId few
  have count : (UInt64.ofNat hashes.length).toNat = hashes.length := by
    rw [UInt64.toNat_ofNat', Nat.mod_eq_of_lt (few.trans_lt (by decide))]
  unfold answerTo valueRequest
  simp only [head, count, read, if_true, if_pos some]

theorem length_wantedKeys_le (manager : FleeceStateManager) (pairs : List (UInt64 × UInt64)) :
    (FleeceRuntime.wantedKeys manager pairs).length ≤ maxFetchKeys := by
  have bounded (wanted : List UInt32) (few : wanted.length ≤ maxFetchKeys) :
      (pairs.foldl manager.wantKey wanted).length ≤ maxFetchKeys := by
    induction pairs generalizing wanted with
    | nil => exact few
    | cons pair rest inductionHypothesis =>
      refine inductionHypothesis (manager.wantKey wanted pair) ?_
      unfold wantKey
      split_ifs with room
      · rw [List.length_append]
        exact room.1
      · exact few
  exact bounded [] (Nat.zero_le _)

/-- A round imports the answer to the whole diff, and does nothing where the diff is empty. -/
theorem fetchRound_eq (responder requester : FleeceStateManager) :
    responder.fetchRound requester =
      if (FleeceRuntime.wantedKeys requester (livePairs responder)).length > 0 then
        (requester.importFrom (responder.exportSharedByHash
          (FleeceRuntime.wantedKeys requester (livePairs responder)))).manager
      else requester := by
  unfold fetchRound
  rw [wantedFrom_index]
  simp only
  split_ifs with some
  · rw [answerTo_request responder requester (length_wantedKeys_le _ _) some]
    rfl
  · rfl

/-! ### The answer -/

/-- The bytes the 320-byte cap counts for a record. -/
def answerSize (f : FieldEntry) : Nat :=
  arrayHeaderSize 5 + uintSize f.originNodeId + 1 + textSize f.name.chars.length +
    uintSize f.timestamp + bytesSize f.data.size

/-- What the first pass keeps to: it counts the bytes of what it took, and it goes over the cap
only with its first record. -/
structure Capped (hashes : List UInt32) (start : Nat) (reply : ValueReply) : Prop where
  body : reply.body = start + (reply.taken.map answerSize).sum
  cap : reply.taken.length ≤ 1 ∨ reply.body ≤ 320
  wanted : ∀ f ∈ reply.taken, f.key ∈ hashes

theorem Capped.take {hashes : List UInt32} {start : Nat} {reply : ValueReply}
    (capped : Capped hashes start reply) (f : FieldEntry) :
    Capped hashes start (takeByHash hashes reply f) := by
  unfold takeByHash
  simp only
  split
  · exact ⟨capped.body, capped.cap, capped.wanted⟩
  · rename_i asked
    split
    · exact ⟨capped.body, capped.cap, capped.wanted⟩
    · rename_i fits
      refine ⟨?_, ?_, ?_⟩
      · simp only [List.map_append, List.sum_append, List.map_cons, List.map_nil, List.sum_cons,
          List.sum_nil, capped.body, answerSize]
        omega
      · rw [List.length_append, List.length_singleton]
        rcases not_and_or.mp fits with first | small
        · exact .inl (by omega)
        · exact .inr (not_lt.mp small)
      · intro g member
        rcases List.mem_append.mp member with before | here
        · exact capped.wanted g before
        · rw [List.mem_singleton.mp here]
          simpa using asked

theorem Capped.foldl {hashes : List UInt32} {start : Nat} {reply : ValueReply}
    (capped : Capped hashes start reply) (live : List FieldEntry) :
    Capped hashes start (live.foldl (takeByHash hashes) reply) := by
  induction live generalizing reply with
  | nil => exact capped
  | cons f rest inductionHypothesis => exact inductionHypothesis (capped.take f)

/-- The header as the cap counts it. -/
def answerHeaderSize (manager : FleeceStateManager) (hashes : List UInt32) : Nat :=
  arrayHeaderSize 5 + uintSize manager.nodeId + uintSize sharedOwnerId + 9 +
    uintSize (manager.computeStreamDigest sharedOwnerId) + arrayHeaderSize hashes.length

theorem capped_selectByHash (manager : FleeceStateManager) (hashes : List UInt32) :
    Capped hashes (manager.answerHeaderSize hashes) (manager.selectByHash hashes) := by
  refine Capped.foldl ⟨?_, .inl (Nat.zero_le _), fun f member => ?_⟩ _
  · simp only [List.map_nil, List.sum_nil, Nat.add_zero, answerHeaderSize]
  · cases member

/-- The first wanted record is taken. -/
theorem taken_ne_nil {hashes : List UInt32} {live : List FieldEntry} {reply : ValueReply}
    (offered : reply.taken ≠ [] ∨ ∃ f ∈ live, f.key ∈ hashes) :
    (live.foldl (takeByHash hashes) reply).taken ≠ [] := by
  induction live generalizing reply with
  | nil => exact offered.resolve_right fun ⟨_, member, _⟩ => List.not_mem_nil member
  | cons entry rest inductionHypothesis =>
    refine inductionHypothesis ?_
    by_cases already : reply.taken ≠ []
    · refine .inl ?_
      rcases takeByHash_taken hashes reply entry with same | appended
      · rwa [same]
      · rw [appended]
        simp
    · obtain ⟨f, member, asked⟩ := offered.resolve_left already
      rcases List.mem_cons.mp member with rfl | later
      · refine .inl ?_
        have first : ¬ reply.taken.length > 0 := by
          rw [not_not.mp already]
          decide
        unfold takeByHash
        simp [asked, first]
      · exact .inr ⟨f, later, asked⟩

theorem hw_foldl (hashes : List UInt32) (live : List FieldEntry) (reply : ValueReply) :
    (live.foldl (takeByHash hashes) reply).hw =
      live.foldl (fun hw f => if f.timestamp > hw then f.timestamp else hw) reply.hw := by
  induction live generalizing reply with
  | nil => rfl
  | cons f rest inductionHypothesis =>
    rw [List.foldl_cons, List.foldl_cons, inductionHypothesis]
    unfold takeByHash
    simp only
    split
    · rfl
    · split <;> rfl

/-- The frame that carries one record of the shared stream alone. -/
def aloneContents (manager : FleeceStateManager) (f : FieldEntry) : FrameContents where
  senderNodeId := manager.nodeId
  ownerNodeId := sharedOwnerId
  hw := maxTimestamp (manager.slots.filter (isLiveNamed sharedOwnerId))
  digest := manager.computeStreamDigest sharedOwnerId
  records := [f.record]

/-- The frame of this record alone has a size that fits 32 bits. -/
def FitsAlone (manager : FleeceStateManager) (f : FieldEntry) : Prop :=
  (manager.aloneContents f).encode.length < 2 ^ 32

theorem contents_of_single {manager : FleeceStateManager} {hashes : List UInt32} {f : FieldEntry}
    (single : (manager.selectByHash hashes).taken = [f]) :
    (GossipExport.sharedByHash hashes).contents manager = manager.aloneContents f := by
  have records : (GossipExport.sharedByHash hashes).entries manager = [f] := single
  have hw : (GossipExport.sharedByHash hashes).hw manager =
      maxTimestamp (manager.slots.filter (isLiveNamed sharedOwnerId)) := hw_foldl _ _ _
  unfold GossipExport.contents
  rw [records, hw]
  rfl

theorem length_encode_answer {manager : FleeceStateManager} (invariant : manager.StoreInvariant)
    {f : FieldEntry} (carried : manager.Carried sharedOwnerId f) (alive : f.isTombstone = false) :
    (f.record.encode sharedOwnerId).length = answerSize f := by
  have sendable := invariant.sendable carried.1 carried.2.1 carried.2.2.2
  rw [length_encode_eq_recordSize sendable.filled, recordSize, alive]
  rfl

theorem length_encode_entries {manager : FleeceStateManager} (invariant : manager.StoreInvariant)
    {entries : List FieldEntry} (live : ∀ f ∈ entries, manager.Carried sharedOwnerId f ∧
      f.isTombstone = false) :
    ((entries.map FieldEntry.record).map fun record => (record.encode sharedOwnerId).length) =
      entries.map answerSize := by
  rw [List.map_map]
  refine List.map_congr_left fun f member => ?_
  exact length_encode_answer invariant (live f member).1 (live f member).2

/-- An answer with several records is within the cap, and so is each of them. -/
theorem several_fit {manager : FleeceStateManager} (invariant : manager.StoreInvariant)
    {hashes : List UInt32} (several : 1 < (manager.selectByHash hashes).taken.length) :
    ((GossipExport.sharedByHash hashes).contents manager).encode.length < 2 ^ 32 ∧
      ∀ f ∈ (manager.selectByHash hashes).taken, manager.FitsAlone f := by
  have capped := manager.capped_selectByHash hashes
  have within := capped.cap.resolve_left (not_le.mpr several)
  have live (f : FieldEntry) (member : f ∈ (manager.selectByHash hashes).taken) :=
    mem_selectByHash member
  have few := length_records_le manager (.sharedByHash hashes)
  rw [capped.body] at within
  have owner : (((GossipExport.sharedByHash hashes).contents manager).records.map fun record =>
      (record.encode sharedOwnerId).length) = (manager.selectByHash hashes).taken.map answerSize :=
    length_encode_entries invariant live
  have node := uintSize_le manager.nodeId
  have shared := uintSize_le sharedOwnerId
  have digest := uintSize_le (manager.computeStreamDigest sharedOwnerId)
  refine ⟨?_, fun f member => ?_⟩
  · have hw := uintSize_le ((GossipExport.sharedByHash hashes).hw manager)
    have count := arrayHeaderSize_le few
    rw [FrameContents.length_encode]
    simp only [GossipExport.contents, GossipExport.owner] at owner count ⊢
    rw [owner]
    omega
  · have hw := uintSize_le (maxTimestamp (manager.slots.filter (isLiveNamed sharedOwnerId)))
    have one : answerSize f ≤ ((manager.selectByHash hashes).taken.map answerSize).sum :=
      List.single_le_sum (fun _ _ => Nat.zero_le _) _ (List.mem_map_of_mem member)
    rw [FitsAlone, FrameContents.length_encode]
    simp only [aloneContents, List.map_cons, List.map_nil, List.sum_cons, List.sum_nil,
      List.length_singleton, length_encode_answer invariant (live f member).1 (live f member).2,
      show arrayHeaderSize 1 = 1 from rfl]
    omega

/-! ### What the requester is missing -/

/-- The entry is live in the shared stream, and the requester lacks its key or holds it with an
older timestamp. -/
def isStale (requester : FleeceStateManager) (f : FieldEntry) : Bool :=
  isLiveNamed sharedOwnerId f && decide (requester.sharedAtLeast f.key f.timestamp = 0)

/-- The keys that are live at the responder and missing or stale at the requester. -/
def staleKeys (requester responder : FleeceStateManager) : Finset UInt32 :=
  ((responder.slots.filter requester.isStale).map FieldEntry.key).toFinset

/-- The keys that are live in the shared stream. -/
def liveKeys (manager : FleeceStateManager) : Finset UInt32 :=
  ((manager.slots.filter (isLiveNamed sharedOwnerId)).map FieldEntry.key).toFinset

theorem mem_staleKeys {requester responder : FleeceStateManager} {key : UInt32} :
    key ∈ requester.staleKeys responder ↔ ∃ f ∈ responder.slots,
      isLiveNamed sharedOwnerId f = true ∧ f.key = key ∧
        requester.sharedAtLeast key f.timestamp = 0 := by
  simp only [staleKeys, List.mem_toFinset, List.mem_map, List.mem_filter, isStale, Bool.and_eq_true,
    decide_eq_true_eq]
  grind

theorem mem_liveKeys {manager : FleeceStateManager} {f : FieldEntry} (slot : f ∈ manager.slots)
    (live : isLiveNamed sharedOwnerId f = true) : f.key ∈ manager.liveKeys :=
  List.mem_toFinset.mpr (List.mem_map_of_mem (List.mem_filter.mpr ⟨slot, live⟩))

theorem mem_staleKeys_of_wanted {requester responder : FleeceStateManager} {key : UInt32}
    (wanted : key ∈ FleeceRuntime.wantedKeys requester (livePairs responder)) :
    key ∈ requester.staleKeys responder := by
  rcases mem_foldl_wantKey wanted with none | ⟨pair, listed, same, missing⟩
  · cases none
  · obtain ⟨f, member, rfl⟩ := List.mem_map.mp listed
    obtain ⟨slot, live⟩ := List.mem_filter.mp member
    rw [UInt32.toUInt32_toUInt64] at same
    exact mem_staleKeys.mpr ⟨f, slot, live, same, missing⟩

/-- The diff is empty exactly when nothing is missing. -/
theorem wantedKeys_eq_nil_iff {requester responder : FleeceStateManager} :
    FleeceRuntime.wantedKeys requester (livePairs responder) = [] ↔
      requester.staleKeys responder = ∅ := by
  constructor
  · intro empty
    refine Finset.eq_empty_of_forall_notMem fun key stale => ?_
    obtain ⟨f, slot, live, same, missing⟩ := mem_staleKeys.mp stale
    have inRange : f.key.toUInt64 ≤ 0xFFFFFFFF := by
      rw [UInt64.le_iff_toNat_le, UInt32.toNat_toUInt64]
      exact Nat.le_of_lt_succ f.key.toNat_lt
    have reached := sharedAtLeast_of_wantedKeys empty
      (List.mem_map_of_mem (List.mem_filter.mpr ⟨slot, live⟩)) inRange
    rw [UInt32.toUInt32_toUInt64, same] at reached
    exact reached missing
  · intro empty
    refine List.eq_nil_iff_forall_not_mem.mpr fun key wanted => ?_
    have stale := mem_staleKeys_of_wanted wanted
    rw [empty] at stale
    cases stale

/-! ### Room for what is missing -/

/-- The keys among these that the store has no slot for. -/
def missing (manager : FleeceStateManager) (keys : Finset UInt32) : Finset UInt32 :=
  keys.filter fun key => manager.view (key, sharedOwnerId) = none

/-- There is a free slot for each of the keys the store does not hold: the slots from
`field_count` on, as many as are needed, and nothing is in them. -/
structure HasFree (manager : FleeceStateManager) (keys : Finset UInt32) : Prop where
  count : manager.fieldCount + (manager.missing keys).card ≤ fieldCapacity
  free : ∀ i : Fin fieldCapacity, manager.fieldCount ≤ i.val →
    i.val < manager.fieldCount + (manager.missing keys).card →
    (manager.fields i).slotExists = false

/-- Every slot in use is still there, under its key and owner, and its version is not lowered. -/
def Raises (manager next : FleeceStateManager) : Prop :=
  ∀ i, (manager.fields i).slotExists = true →
    fieldLabel (next.fields i) = fieldLabel (manager.fields i) ∧
      (manager.fields i).version ≤ (next.fields i).version

theorem Raises.of_fields {manager next : FleeceStateManager} (same : next.fields = manager.fields) :
    manager.Raises next := by
  intro i _
  rw [same]
  exact ⟨rfl, le_rfl⟩

theorem Raises.trans {first second third : FleeceStateManager} (lower : first.Raises second)
    (upper : second.Raises third) : first.Raises third := by
  intro i present
  obtain ⟨label, version⟩ := lower i present
  have still : (second.fields i).slotExists = true := by
    rw [fieldLabel_of_exists present] at label
    exact (fieldLabel_eq_some_iff.mp label).1
  obtain ⟨labelNext, versionNext⟩ := upper i still
  exact ⟨labelNext.trans label, version.trans versionNext⟩

/-- Where a merge into the shared stream writes: nowhere, over an older version of its key, or into
the slot at `field_count` when the key has none. -/
theorem mergeRecord_place {manager : FleeceStateManager} {record : GossipRecord}
    (sendable : record.Sendable sharedOwnerId) :
    (manager.mergeRecord sharedOwnerId record).fields = manager.fields ∨
      ∃ i f, (manager.mergeRecord sharedOwnerId record).fields =
          Function.update manager.fields i f ∧
        (fieldLabel f = fieldLabel (manager.fields i) ∧ (manager.fields i).slotExists = true ∧
            (manager.fields i).version < f.version ∨
          manager.view (record.keyed.1, sharedOwnerId) = none ∧ i.val = manager.fieldCount) := by
  have outcome := mergeShared_outcome manager record.originNodeId record.name.toCString record.data
    record.timestamp record.isTombstone sendable.mergeable
  unfold mergeRecord
  rw [if_pos rfl]
  generalize manager.mergeShared record.originNodeId record.name.toCString record.data
    record.timestamp record.isTombstone = result at outcome ⊢
  cases outcome with
  | kept old found stays => exact .inl rfl
  | noSlot absent full => exact .inl rfl
  | stored next f storedAt rest label held newer =>
    obtain ⟨keyEq, ownerEq⟩ := Prod.mk.inj label
    refine .inr ?_
    cases storedAt with
    | inPlace i found fields count present marked =>
      have here : manager.findSlotOwned f.key f.nodeId = some i := found
      have old := label_of_findSlotOwned here
      have version := newer (manager.fields i).record (label ▸ view_of_findSlotOwned here)
      refine ⟨i, f, fields, .inl ⟨?_, old.1, ?_⟩⟩
      · rw [fieldLabel_of_exists present, fieldLabel_of_exists old.1, old.2.1, old.2.2]
      · rw [version_lt_iff, held]
        exact version
    | appended absent full fields count present marked =>
      rw [keyEq, ownerEq] at absent
      exact ⟨_, f, fields, .inr ⟨view_eq_none_iff.mpr absent, rfl⟩⟩

theorem missing_card_pos {manager : FleeceStateManager} {keys : Finset UInt32} {key : UInt32}
    (asked : key ∈ keys) (absent : manager.view (key, sharedOwnerId) = none) :
    0 < (manager.missing keys).card :=
  Finset.card_pos.mpr ⟨key, Finset.mem_filter.mpr ⟨asked, absent⟩⟩

theorem HasFree.room {manager : FleeceStateManager} {keys : Finset UInt32}
    (free : manager.HasFree keys) {record : GossipRecord} (asked : record.keyed.1 ∈ keys) :
    hasSlotFor sharedOwnerId manager record = true := by
  rw [hasSlotFor, hasSlot, Bool.or_eq_true, Bool.or_eq_true, decide_eq_true_iff]
  cases found : manager.view (hashName record.name.toCString, sharedOwnerId) with
  | some old => exact .inr (.inl rfl)
  | none =>
    exact .inr (.inr (lt_of_lt_of_le (Nat.lt_add_of_pos_right (missing_card_pos asked found))
      free.count))

theorem missing_mergeRecord {manager : FleeceStateManager} (invariant : manager.StoreInvariant)
    {record : GossipRecord} (sendable : record.Sendable sharedOwnerId)
    (room : hasSlotFor sharedOwnerId manager record = true) (keys : Finset UInt32) :
    (manager.mergeRecord sharedOwnerId record).missing keys =
      (manager.missing keys).erase record.keyed.1 := by
  ext key
  simp only [missing, Finset.mem_filter, Finset.mem_erase,
    view_mergeRecord_eq_none_iff invariant sendable room]
  exact and_left_comm

/-- A slot that a merge takes is one that was needed. -/
theorem fieldCount_add_missing {manager : FleeceStateManager} (invariant : manager.StoreInvariant)
    {record : GossipRecord} (sendable : record.Sendable sharedOwnerId)
    (room : hasSlotFor sharedOwnerId manager record = true) {keys : Finset UInt32}
    (asked : record.keyed.1 ∈ keys) :
    (manager.mergeRecord sharedOwnerId record).fieldCount +
        ((manager.mergeRecord sharedOwnerId record).missing keys).card =
      manager.fieldCount + (manager.missing keys).card := by
  rw [fieldCount_mergeRecord sendable room, missing_mergeRecord invariant sendable room]
  split_ifs with absent
  · have member : record.keyed.1 ∈ manager.missing keys := Finset.mem_filter.mpr ⟨asked, absent⟩
    have positive := missing_card_pos asked absent
    rw [Finset.card_erase_of_mem member]
    omega
  · have other : record.keyed.1 ∉ manager.missing keys :=
      fun member => absent (Finset.mem_filter.mp member).2
    rw [Finset.erase_eq_of_notMem other, Nat.add_zero]

/-- A merge of a record whose key is among these finds a slot, leaves room for the others and
lowers nothing. -/
theorem HasFree.mergeRecord {manager : FleeceStateManager} {keys : Finset UInt32}
    (free : manager.HasFree keys) (invariant : manager.StoreInvariant) {record : GossipRecord}
    (sendable : record.Sendable sharedOwnerId) (asked : record.keyed.1 ∈ keys) :
    hasSlotFor sharedOwnerId manager record = true ∧
      (manager.mergeRecord sharedOwnerId record).HasFree keys ∧
      manager.Raises (manager.mergeRecord sharedOwnerId record) := by
  have room := free.room asked
  have count := fieldCount_mergeRecord sendable room
  have total := fieldCount_add_missing invariant sendable room asked
  have more : manager.fieldCount ≤ (manager.mergeRecord sharedOwnerId record).fieldCount := by
    rw [count]
    exact Nat.le_add_right _ _
  rcases mergeRecord_place sendable with same | ⟨i, f, fields, place⟩
  · refine ⟨room, ⟨total ▸ free.count, fun j after inside => ?_⟩, .of_fields same⟩
    rw [same]
    exact free.free j (more.trans after) (total ▸ inside)
  · refine ⟨room, ⟨total ▸ free.count, fun j after inside => ?_⟩, fun j present => ?_⟩
    · have vacant := free.free j (more.trans after) (total ▸ inside)
      have apart : j ≠ i := by
        rintro rfl
        rcases place with ⟨_, present, _⟩ | ⟨absent, index⟩
        · rw [vacant] at present
          cases present
        · rw [count, if_pos absent] at after
          omega
      rw [fields, Function.update_of_ne apart]
      exact vacant
    · rw [fields]
      by_cases equal : j = i
      · subst equal
        rw [Function.update_self]
        rcases place with ⟨label, _, newer⟩ | ⟨absent, index⟩
        · exact ⟨label, newer.le⟩
        · have positive := missing_card_pos asked absent
          rw [free.free j index.ge (by omega)] at present
          cases present
      · rw [Function.update_of_ne equal]
        exact ⟨rfl, le_rfl⟩

theorem HasFree.mergeRecords {manager : FleeceStateManager} {keys : Finset UInt32}
    (free : manager.HasFree keys) (invariant : manager.StoreInvariant)
    {records : List GossipRecord} (sendable : ∀ record ∈ records, record.Sendable sharedOwnerId)
    (asked : ∀ record ∈ records, record.keyed.1 ∈ keys) :
    Along (FleeceStateManager.mergeRecord sharedOwnerId)
        (fun state record => hasSlotFor sharedOwnerId state record = true) manager records ∧
      (manager.mergeRecords sharedOwnerId records).HasFree keys ∧
      manager.Raises (manager.mergeRecords sharedOwnerId records) := by
  induction records generalizing manager with
  | nil => exact ⟨trivial, free, .of_fields rfl⟩
  | cons record rest inductionHypothesis =>
    obtain ⟨room, freeNext, raised⟩ := free.mergeRecord invariant
      (sendable record List.mem_cons_self) (asked record List.mem_cons_self)
    obtain ⟨along, freeLast, raisedLast⟩ := inductionHypothesis freeNext
      (mergeRecord_storeInvariant invariant _ record)
      (fun later member => sendable later (List.mem_cons_of_mem _ member))
      (fun later member => asked later (List.mem_cons_of_mem _ member))
    exact ⟨⟨room, along⟩, freeLast, raised.trans raisedLast⟩

end FleeceStateManager

end Fleece
