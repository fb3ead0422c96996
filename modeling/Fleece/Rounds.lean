/-
This file runs the targeted repair round after round. A round with a non-empty
diff merges at least one record that the requester was missing, as long as every
such record fits a frame of its own, so that the repair ends after at most as many
rounds as there are stale keys. A record that fits no frame stays stale for ever.
-/

import Fleece.Fetch
import Fleece.Gossip

namespace Fleece

namespace FleeceStateManager

/-- A frame with one record that is cut delivers no record. -/
theorem parseFrame_cut_single {contents : FrameContents} {nodeId : UInt64} {record : GossipRecord}
    {parsed : ParsedFrame} (foreign : contents.senderNodeId ≠ nodeId)
    (real : contents.senderNodeId ≠ sharedOwnerId)
    (owned : contents.ownerNodeId = sharedOwnerId ∨ contents.ownerNodeId ≠ nodeId)
    (single : contents.records = [record]) (sendable : record.Sendable contents.ownerNodeId)
    (bounded : contents.encode.length < 2 ^ 63) (long : 2 ^ 32 ≤ contents.encode.length)
    (read : parseFrame nodeId contents.frame = .ok parsed) : parsed.records = [] := by
  have cut : contents.frame.bytes <+: contents.encode := List.take_prefix _ _
  have small : contents.frame.size < 2 ^ 63 := contents.frame.sizeLt.trans (by decide)
  obtain ⟨senderEnd, streamEnd, countEnd, senderRead, streamRead, countRead, _, held, total⟩ :=
    parse_of_encode bounded foreign real owned
      (fun other member => by
        rw [single, List.mem_singleton] at member
        exact member ▸ sendable) rfl rfl
  obtain ⟨_, stream, senderCut, streamCut, owner, rest⟩ := reads_of_parseFrame read
  have senderIn := (@readSender_safe contents.frame.bytes contents.frame.size le_rfl small
    nodeId).bound senderCut
  have streamIn := (readStream_safe le_rfl small senderIn nodeId).bound streamCut
  rw [readSender_cut cut cut.length_le nodeId _ senderCut] at senderRead
  obtain ⟨_, rfl⟩ := Prod.mk.inj (Except.ok.inj senderRead)
  rw [readStream_cut cut cut.length_le nodeId _ _ streamCut] at streamRead
  obtain rfl := Except.ok.inj streamRead
  rcases rest with none | ⟨count, pos, countCut, records⟩
  · exact none
  · have countIn := (readMajor_safe le_rfl small streamIn 4).bound countCut
    rw [readMajor_cut cut cut.length_le _ 4 _ countCut] at countRead
    obtain ⟨rfl, rfl⟩ := Prod.mk.inj (Except.ok.inj countRead)
    rw [single, List.flatMap_singleton] at held total
    have whole := readRecord_of_holdsAt bounded sendable held total.le le_rfl
    rw [records, single]
    show (parseRecords contents.ownerNodeId _ _ (0 + 1) pos).1 = []
    unfold parseRecords
    cases found : readRecord contents.ownerNodeId contents.frame.bytes contents.frame.size pos with
    | error halt => rfl
    | ok result =>
      -- the record ends where the whole frame ends, which is past the cut
      have recordIn := (readRecord_safe le_rfl small countIn contents.ownerNodeId).bound found
      rw [readRecord_cut cut cut.length_le _ _ _ found] at whole
      rw [Except.ok.inj whole, total] at recordIn
      exact absurd recordIn (not_le.mpr (lt_of_lt_of_le contents.frame.sizeLt long))

/-! ### What a round brings -/

/-- After a merge of records each slot has reached what it held and what it was offered. -/
theorem reached_mergeRecords {manager : FleeceStateManager} (invariant : manager.StoreInvariant)
    {records : List GossipRecord} (sendable : ∀ record ∈ records, record.Sendable sharedOwnerId)
    (room : Along (FleeceStateManager.mergeRecord sharedOwnerId)
      (fun state record => hasSlotFor sharedOwnerId state record = true) manager records)
    {key : UInt32} {record : GossipRecord}
    (offered : manager.view (key, sharedOwnerId) = some record ∨
      record ∈ records ∧ record.keyed.1 = key) :
    ∃ held, (manager.mergeRecords sharedOwnerId records).view (key, sharedOwnerId) = some held ∧
      record.timestamp ≤ held.timestamp := by
  have summary := (summarises_self invariant.distinct).mergeRecords invariant sendable room key
  have seen : (key, record) ∈ manager.streamOf sharedOwnerId ++
      records.map GossipRecord.keyed := by
    rw [List.mem_append, mem_streamOf invariant.distinct]
    refine offered.imp_right fun ⟨member, same⟩ => ?_
    exact List.mem_map.mpr ⟨record, member, Prod.ext same rfl⟩
  obtain ⟨held, found, later⟩ := summary.greatest record seen
  exact ⟨held, found, timestamp_le_of_version later⟩

section Round

variable {requester responder : FleeceStateManager} (store : requester.StoreInvariant)
  (storeResponder : responder.StoreInvariant) (foreign : requester.nodeId ≠ responder.nodeId)
include store storeResponder foreign

/-- An answer is merged record by record, up to where its frame is cut. -/
theorem importFrom_answer (hashes : List UInt32) :
    ∃ (base : FleeceStateManager) (records : List GossipRecord), base.StoreInvariant ∧
      base.fields = requester.fields ∧
      base.fieldCount = requester.fieldCount ∧ base.nodeId = requester.nodeId ∧
      (requester.importFrom (responder.exportSharedByHash hashes)).manager =
        base.mergeRecords sharedOwnerId records ∧
      records <+: (responder.selectByHash hashes).taken.map FieldEntry.record ∧
      (((GossipExport.sharedByHash hashes).contents responder).encode.length < 2 ^ 32 →
        records = (responder.selectByHash hashes).taken.map FieldEntry.record) ∧
      ∀ f, (responder.selectByHash hashes).taken = [f] → ¬ responder.FitsAlone f →
        records = [] := by
  rw [importFrom_manager]
  let kind := GossipExport.sharedByHash hashes
  cases read : parseFrame requester.nodeId (responder.exportSharedByHash hashes) with
  | error halt =>
    refine ⟨requester, [], store, rfl, rfl, rfl, rfl, List.nil_prefix, fun fits => ?_,
      fun _ _ _ => rfl⟩
    rw [show responder.exportSharedByHash hashes = kind.frame responder from rfl,
      parseFrame_export storeResponder kind foreign fits] at read
    cases read
  | ok parsed =>
    obtain ⟨_, owner, cut⟩ := parseFrame_export_cut storeResponder kind foreign read
    refine ⟨requester.touchPeer parsed.senderNodeId, parsed.records,
      ((touchPeer_quiet requester _).keeps store).1, touchPeer_fields _ _, ?_,
      touchPeer_nodeId _ _, ?_, cut, fun fits => ?_, fun f single large => ?_⟩
    · rw [touchPeer_rest]
    · simp only
      rw [owner]
      rfl
    · rw [show responder.exportSharedByHash hashes = kind.frame responder from rfl,
        parseFrame_export storeResponder kind foreign fits] at read
      exact congrArg ParsedFrame.records (Except.ok.inj read).symm
    · have taken := @mem_selectByHash responder hashes f
        (by rw [single]; exact List.mem_singleton_self f)
      have sendable := storeResponder.sendable taken.1.1 taken.1.2.1 taken.1.2.2.2
      rw [exportSharedByHash_eq, contents_of_single single] at read
      rw [taken.1.2.2.1] at sendable
      exact @parseFrame_cut_single (responder.aloneContents f) _ _ _ foreign.symm
        storeResponder.realNode (.inl rfl) rfl sendable
        (length_frame_lt (show 1 ≤ fieldCapacity by decide)) (not_lt.mp large) read

end Round

/-- Two live shared entries of one key are one entry. -/
theorem live_unique {manager : FleeceStateManager} (distinct : manager.DistinctSlots)
    {f g : FieldEntry} (slot : f ∈ manager.slots) (live : isLiveNamed sharedOwnerId f = true)
    (slotOther : g ∈ manager.slots) (liveOther : isLiveNamed sharedOwnerId g = true)
    (same : f.key = g.key) : f = g := by
  obtain ⟨⟨_, present, owner, _⟩, _⟩ := carried_of_isLiveNamed slot live
  obtain ⟨⟨_, presentOther, ownerOther, _⟩, _⟩ := carried_of_isLiveNamed slotOther liveOther
  obtain ⟨i, rfl⟩ := mem_slots.mp slot
  obtain ⟨j, rfl⟩ := mem_slots.mp slotOther
  rw [distinct i j _ (fieldLabel_of_exists present)
    (by rw [fieldLabel_of_exists presentOther, same, owner, ownerOther])]

theorem HasFree.of_same {manager next : FleeceStateManager} {keys : Finset UInt32}
    (free : manager.HasFree keys) (fields : next.fields = manager.fields)
    (count : next.fieldCount = manager.fieldCount) : next.HasFree keys := by
  have same : next.missing keys = manager.missing keys := by
    unfold missing
    rw [view_of_same fields]
  refine ⟨?_, ?_⟩
  · rw [count, same]
    exact free.count
  · rw [count, same, fields]
    exact free.free

theorem fetchRound_steps {responder requester : FleeceStateManager}
    (store : requester.StoreInvariant) :
    Relation.ReflTransGen MergeStep requester (responder.fetchRound requester) := by
  rw [fetchRound_eq]
  split_ifs
  · exact importFrom_steps store.realNode _
  · exact .refl

/-- What a round needs of its requester, and leaves to the next one. -/
structure Ready (responder requester : FleeceStateManager) : Prop where
  store : requester.StoreInvariant
  foreign : requester.nodeId ≠ responder.nodeId
  free : requester.HasFree responder.liveKeys

/-- A round as the merge of some records: what it merges, and what that does. -/
structure Fetched (responder requester base : FleeceStateManager) (records : List GossipRecord) :
    Prop where
  store : base.StoreInvariant
  fields : base.fields = requester.fields
  merged : responder.fetchRound requester = base.mergeRecords sharedOwnerId records
  sendable : ∀ record ∈ records, record.Sendable sharedOwnerId
  stale : ∀ record ∈ records, ∃ f ∈ responder.slots, requester.isStale f = true ∧
    f.record = record ∧ record.keyed.1 = f.key
  room : Along (mergeRecord sharedOwnerId)
    (fun state record => hasSlotFor sharedOwnerId state record = true) base records
  free : (base.mergeRecords sharedOwnerId records).HasFree responder.liveKeys
  raises : base.Raises (base.mergeRecords sharedOwnerId records)
  delivers : (∀ f ∈ responder.slots, requester.isStale f = true → responder.FitsAlone f) →
    records ≠ []
  avoids : ∀ f ∈ responder.slots, requester.isStale f = true → ¬ responder.FitsAlone f →
    ∀ record ∈ records, record.keyed.1 ≠ f.key

section Asked

variable {requester responder : FleeceStateManager}

/-- Something is taken for the keys a requester wants, when it wants any. -/
theorem taken_of_wanted (asked : FleeceRuntime.wantedKeys requester (livePairs responder) ≠ []) :
    (responder.selectByHash
      (FleeceRuntime.wantedKeys requester (livePairs responder))).taken ≠ [] := by
  obtain ⟨key, wanted⟩ := List.exists_mem_of_ne_nil _ asked
  obtain ⟨f, slot, live, same, _⟩ := mem_staleKeys.mp (mem_staleKeys_of_wanted wanted)
  exact taken_ne_nil (.inr ⟨f, List.mem_filter.mpr ⟨slot, live⟩, same ▸ wanted⟩)

variable (store : responder.StoreInvariant)
include store

/-- What is taken for the keys a requester wants are records it is missing, under their keys. -/
theorem stale_of_taken (keyed : responder.Keyed) {f : FieldEntry}
    (member : f ∈ (responder.selectByHash
      (FleeceRuntime.wantedKeys requester (livePairs responder))).taken) :
    f ∈ responder.slots ∧ requester.isStale f = true ∧ f.record.Sendable sharedOwnerId ∧
      f.record.keyed.1 = f.key := by
  obtain ⟨carried, alive⟩ := mem_selectByHash member
  have live : isLiveNamed sharedOwnerId f = true := by
    rw [isLiveNamed, carried.2.1, alive, carried.2.2.1, carried.2.2.2]
    rfl
  have sendable := store.sendable carried.1 carried.2.1 carried.2.2.2
  rw [carried.2.2.1] at sendable
  obtain ⟨g, slot, liveOther, same, absent⟩ := mem_staleKeys.mp
    (mem_staleKeys_of_wanted ((responder.capped_selectByHash _).wanted f member))
  obtain rfl := live_unique store.distinct slot liveOther carried.1 live same
  refine ⟨carried.1, ?_, sendable, ?_⟩
  · rw [isStale, live, Bool.true_and, decide_eq_true absent]
  · exact (keyed.view (carried.view store.distinct) carried.2.2.2).symm

/-- An answer takes a single record, or it fits a frame and so does each record it takes. -/
theorem single_or_fits {hashes : List UInt32} (offered : (responder.selectByHash hashes).taken ≠ []) :
    (∃ f, (responder.selectByHash hashes).taken = [f]) ∨
      ((GossipExport.sharedByHash hashes).contents responder).encode.length < 2 ^ 32 ∧
        ∀ f ∈ (responder.selectByHash hashes).taken, responder.FitsAlone f := by
  by_cases several : 1 < (responder.selectByHash hashes).taken.length
  · exact .inr (several_fit store several)
  · exact .inl (List.length_eq_one_iff.mp (le_antisymm (not_lt.mp several)
      (List.length_pos_of_ne_nil offered)))

end Asked

section Progress

variable {requester responder : FleeceStateManager} (ready : responder.Ready requester)
  (store : responder.StoreInvariant) (keyed : responder.Keyed)
include ready store keyed

/-- A round with something to repair merges records the requester is missing. It merges one at
least, when each of those it could take fits a frame; and none that does not. -/
theorem fetchRound_merges (some : requester.staleKeys responder ≠ ∅) :
    ∃ base records, Fetched responder requester base records := by
  let hashes := FleeceRuntime.wantedKeys requester (livePairs responder)
  have wanted : hashes ≠ [] := fun empty => some (wantedKeys_eq_nil_iff.mp empty)
  have offered : (responder.selectByHash hashes).taken ≠ [] := taken_of_wanted wanted
  obtain ⟨base, records, storeBase, fields, count, node, imported, cut, whole, lost⟩ :=
    importFrom_answer ready.store store ready.foreign hashes
  have taken (record : GossipRecord) (member : record ∈ records) :
      record.Sendable sharedOwnerId ∧ ∃ f ∈ responder.slots, requester.isStale f = true ∧
        f.record = record ∧ record.keyed.1 = f.key := by
    obtain ⟨f, taken, rfl⟩ := List.mem_map.mp (cut.subset member)
    obtain ⟨slot, isStale, sendable, key⟩ := stale_of_taken store keyed taken
    exact ⟨sendable, f, slot, isStale, rfl, key⟩
  have keys (record : GossipRecord) (member : record ∈ records) :
      record.keyed.1 ∈ responder.liveKeys := by
    obtain ⟨_, f, slot, isStale, _, key⟩ := taken record member
    exact key ▸ mem_liveKeys slot (Bool.and_eq_true_iff.mp isStale).1
  obtain ⟨room, free, raises⟩ := (ready.free.of_same fields count).mergeRecords storeBase
    (fun record member => (taken record member).1) keys
  have merged : responder.fetchRound requester = base.mergeRecords sharedOwnerId records := by
    rw [fetchRound_eq, if_pos (List.length_pos_of_ne_nil wanted)]
    exact imported
  refine ⟨base, records, storeBase, fields, merged, fun record member => (taken record member).1,
    fun record member => (taken record member).2, room, free, raises, fun fits => ?_,
    fun f slot isStale large record member same => ?_⟩
  · have short : ((GossipExport.sharedByHash hashes).contents responder).encode.length < 2 ^ 32 := by
      rcases single_or_fits store offered with ⟨f, single⟩ | ⟨short, _⟩
      · have taken : f ∈ (responder.selectByHash hashes).taken := by
          rw [single]
          exact List.mem_singleton_self f
        obtain ⟨slot, isStale, _⟩ := stale_of_taken store keyed taken
        rw [contents_of_single single]
        exact fits f slot isStale
      · exact short
    rw [whole short]
    exact List.map_eq_nil_iff.not.mpr offered
  · obtain ⟨g, taken, rfl⟩ := List.mem_map.mp (cut.subset member)
    obtain ⟨slotOther, staleOther, _, key⟩ := stale_of_taken store keyed taken
    obtain rfl := live_unique store.distinct slot (Bool.and_eq_true_iff.mp isStale).1 slotOther
      (Bool.and_eq_true_iff.mp staleOther).1 (same.symm.trans key)
    have single : (responder.selectByHash hashes).taken = [f] := by
      rcases single_or_fits store offered with ⟨g, only⟩ | ⟨_, each⟩
      · rw [only] at taken ⊢
        rw [List.mem_singleton.mp taken]
      · exact absurd (each f taken) large
    rw [lost f single large] at member
    cases member

/-- A round lowers no version, keeps what the next one needs, and makes nothing stale. -/
theorem fetchRound_keeps :
    responder.Ready (responder.fetchRound requester) ∧
      requester.Raises (responder.fetchRound requester) ∧
      (responder.fetchRound requester).staleKeys responder ⊆ requester.staleKeys responder := by
  by_cases none : requester.staleKeys responder = ∅
  · have same : responder.fetchRound requester = requester := by
      rw [fetchRound_eq, wantedKeys_eq_nil_iff.mpr none]
      rfl
    rw [same]
    exact ⟨ready, .of_fields rfl, subset_rfl⟩
  · have steps := @fetchRound_steps responder _ ready.store
    obtain ⟨base, records, fetched⟩ := fetchRound_merges ready store keyed none
    refine ⟨⟨(mergeSteps_keep steps ready.store).1, ?_, ?_⟩, ?_, fun key stale => ?_⟩
    · rw [nodeId_of_steps steps]
      exact ready.foreign
    · rw [fetched.merged]
      exact fetched.free
    · rw [fetched.merged]
      exact (Raises.of_fields fetched.fields).trans fetched.raises
    · obtain ⟨f, slot, live, same, absent⟩ := mem_staleKeys.mp stale
      refine mem_staleKeys.mpr ⟨f, slot, live, same, ?_⟩
      by_contra reached
      obtain ⟨held, found, later⟩ := sharedAtLeast_ne_zero_iff.mp reached
      rw [← view_of_same fetched.fields] at found
      obtain ⟨best, foundNext, still⟩ := reached_mergeRecords fetched.store fetched.sendable
        fetched.room (.inl found)
      rw [← fetched.merged] at foundNext
      exact sharedAtLeast_ne_zero_iff.mpr ⟨best, foundNext, UInt64.le_trans later still⟩ absent

/-- A round with something to repair repairs something, when each record it could take fits a
frame. -/
theorem fetchRound_progress (some : requester.staleKeys responder ≠ ∅)
    (fits : ∀ f ∈ responder.slots, requester.isStale f = true → responder.FitsAlone f) :
    (responder.fetchRound requester).staleKeys responder ⊂ requester.staleKeys responder := by
  obtain ⟨base, records, fetched⟩ := fetchRound_merges ready store keyed some
  obtain ⟨record, member⟩ := List.exists_mem_of_ne_nil records (fetched.delivers fits)
  obtain ⟨f, slot, isStale, rfl, key⟩ := fetched.stale record member
  obtain ⟨live, absent⟩ := Bool.and_eq_true_iff.mp isStale
  refine Finset.ssubset_iff_subset_ne.mpr
    ⟨(fetchRound_keeps ready store keyed).2.2, fun equal => ?_⟩
  have stale : f.key ∈ (responder.fetchRound requester).staleKeys responder := by
    rw [equal]
    exact mem_staleKeys.mpr ⟨f, slot, live, rfl, of_decide_eq_true absent⟩
  obtain ⟨g, slotOther, liveOther, same, still⟩ := mem_staleKeys.mp stale
  obtain rfl := live_unique store.distinct slotOther liveOther slot live same
  obtain ⟨held, found, later⟩ := reached_mergeRecords fetched.store fetched.sendable
    fetched.room (.inr ⟨member, key⟩)
  rw [← fetched.merged] at found
  exact sharedAtLeast_ne_zero_iff.mpr ⟨held, found, later⟩ still

/-- A record that does not fit a frame stays missing. -/
theorem fetchRound_stuck {f : FieldEntry} (slot : f ∈ responder.slots)
    (isStale : requester.isStale f = true) (large : ¬ responder.FitsAlone f) :
    (responder.fetchRound requester).isStale f = true := by
  obtain ⟨live, absent⟩ := Bool.and_eq_true_iff.mp isStale
  have some : requester.staleKeys responder ≠ ∅ := Finset.ne_empty_of_mem
    (mem_staleKeys.mpr ⟨f, slot, live, rfl, of_decide_eq_true absent⟩)
  obtain ⟨base, records, fetched⟩ := fetchRound_merges ready store keyed some
  have same : (responder.fetchRound requester).view (f.key, sharedOwnerId) =
      requester.view (f.key, sharedOwnerId) := by
    rw [fetched.merged, view_mergeRecords_of_ne fetched.store fetched.sendable
      (fetched.avoids f slot isStale large), view_of_same fetched.fields]
  rw [FleeceStateManager.isStale, live, Bool.true_and, decide_eq_true_iff]
  by_contra reached
  obtain ⟨held, found, later⟩ := sharedAtLeast_ne_zero_iff.mp reached
  rw [same] at found
  exact sharedAtLeast_ne_zero_iff.mpr ⟨held, found, later⟩ (of_decide_eq_true absent)

end Progress

/-! ### Whole repairs -/

instance (manager : FleeceStateManager) (f : FieldEntry) : Decidable (manager.FitsAlone f) :=
  inferInstanceAs (Decidable (_ < _))

/-- The requester after some rounds. -/
def fetchRounds (responder requester : FleeceStateManager) (count : Nat) : FleeceStateManager :=
  responder.fetchRound^[count] requester

theorem fetchRounds_succ (responder requester : FleeceStateManager) (count : Nat) :
    responder.fetchRounds requester (count + 1) =
      responder.fetchRound (responder.fetchRounds requester count) :=
  Function.iterate_succ_apply' _ _ _

/-- The repair makes progress: every round with a diff lowers the number of keys that are missing
or stale, and after at most as many rounds as there were the diff is empty. -/
structure Repairs (responder requester : FleeceStateManager) : Prop where
  progress : ∀ count, (responder.fetchRounds requester count).wantedFrom
      responder.exportSharedIndex ≠ [] →
    ((responder.fetchRounds requester (count + 1)).staleKeys responder).card <
      ((responder.fetchRounds requester count).staleKeys responder).card
  settles : ∃ count ≤ (requester.staleKeys responder).card,
    (responder.fetchRounds requester count).wantedFrom responder.exportSharedIndex = []

/-- What is stale later was stale at the start. -/
theorem isStale_of_subset {requester responder later : FleeceStateManager}
    (store : responder.StoreInvariant) {f : FieldEntry}
    (fewer : later.staleKeys responder ⊆ requester.staleKeys responder)
    (slot : f ∈ responder.slots) (isStale : later.isStale f = true) :
    requester.isStale f = true := by
  obtain ⟨live, absent⟩ := Bool.and_eq_true_iff.mp isStale
  obtain ⟨g, slotOther, liveOther, same, missing⟩ := mem_staleKeys.mp
    (fewer (mem_staleKeys.mpr ⟨f, slot, live, rfl, of_decide_eq_true absent⟩))
  obtain rfl := live_unique store.distinct slotOther liveOther slot live same
  rw [FleeceStateManager.isStale, live, Bool.true_and, decide_eq_true missing]

section Repair

variable {requester responder : FleeceStateManager} (ready : responder.Ready requester)
  (store : responder.StoreInvariant) (keyed : responder.Keyed)
include ready store keyed

theorem fetchRounds_keep (count : Nat) :
    responder.Ready (responder.fetchRounds requester count) ∧
      (responder.fetchRounds requester count).staleKeys responder ⊆
        requester.staleKeys responder := by
  induction count with
  | zero => exact ⟨ready, subset_rfl⟩
  | succ count inductionHypothesis =>
    obtain ⟨readyHere, fewer⟩ := inductionHypothesis
    obtain ⟨readyNext, _, less⟩ := fetchRound_keeps readyHere store keyed
    rw [fetchRounds_succ]
    exact ⟨readyNext, less.trans fewer⟩

theorem fetchRounds_stuck {f : FieldEntry} (slot : f ∈ responder.slots)
    (isStale : requester.isStale f = true) (large : ¬ responder.FitsAlone f) (count : Nat) :
    (responder.fetchRounds requester count).isStale f = true := by
  induction count with
  | zero => exact isStale
  | succ count inductionHypothesis =>
    rw [fetchRounds_succ]
    exact fetchRound_stuck (fetchRounds_keep ready store keyed count).1 store keyed slot
      inductionHypothesis large

/-- The repair makes progress exactly when every record it has to bring fits a frame alone. -/
theorem repairs_iff : responder.Repairs requester ↔
    ∀ f ∈ responder.slots, requester.isStale f = true → responder.FitsAlone f := by
  constructor
  · intro repairs f slot isStale
    by_contra large
    obtain ⟨count, _, settled⟩ := repairs.settles
    rw [wantedFrom_index, wantedKeys_eq_nil_iff] at settled
    obtain ⟨live, absent⟩ := Bool.and_eq_true_iff.mp
      (fetchRounds_stuck ready store keyed slot isStale large count)
    have stale := mem_staleKeys.mpr ⟨f, slot, live, rfl, of_decide_eq_true absent⟩
    rw [settled] at stale
    cases stale
  · intro fits
    have progress (count : Nat) (some : (responder.fetchRounds requester count).staleKeys
        responder ≠ ∅) : ((responder.fetchRounds requester (count + 1)).staleKeys responder).card <
          ((responder.fetchRounds requester count).staleKeys responder).card := by
      obtain ⟨readyHere, fewer⟩ := fetchRounds_keep ready store keyed count
      rw [fetchRounds_succ]
      exact Finset.card_lt_card (fetchRound_progress readyHere store keyed some
        fun f slot isStale => fits f slot
          (isStale_of_subset store fewer slot isStale))
    refine ⟨fun count some => progress count ?_, ?_⟩
    · rwa [wantedFrom_index, ne_eq, wantedKeys_eq_nil_iff] at some
    · by_contra never
      have waits (count : Nat) (early : count ≤ (requester.staleKeys responder).card) :
          (responder.fetchRounds requester count).staleKeys responder ≠ ∅ := by
        intro empty
        refine never ⟨count, early, ?_⟩
        rw [wantedFrom_index, wantedKeys_eq_nil_iff]
        exact empty
      -- each round takes one key at least, and after the last one none would be left
      have left (count : Nat) (early : count ≤ (requester.staleKeys responder).card) :
          ((responder.fetchRounds requester count).staleKeys responder).card + count ≤
            (requester.staleKeys responder).card := by
        induction count with
        | zero => exact le_rfl
        | succ count inductionHypothesis =>
          have before := inductionHypothesis (by omega)
          have lower := progress count (waits count (by omega))
          omega
      have last := left _ le_rfl
      exact waits _ le_rfl (Finset.card_eq_zero.mp (by omega))

end Repair

/-! ### The handlers behind a round -/

/-- A node that finds something to ask for in an index queues the value request. -/
theorem handleFxFrame_asks {runtime : FleeceRuntime} {responder : FleeceStateManager}
    (source : Destination)
    (some : (runtime.stateManager.wantedFrom responder.exportSharedIndex).length > 0) :
    ∃ closed, runtime.Talks closed ∧ runtime.handleFxFrame responder.exportSharedIndex source =
      closed.enqueueTx (FleeceRuntime.replyDest responder.nodeId .mesh)
        (runtime.stateManager.valueRequest
          (runtime.stateManager.wantedFrom responder.exportSharedIndex)) := by
  let closed := FleeceRuntime.withTarget (runtime.resyncTargetForId responder.nodeId) fun target =>
    { target with awaitingIndex := false }
  have talks : runtime.Talks closed :=
    (FleeceRuntime.resyncTargetForId_talks runtime _).trans (FleeceRuntime.withTarget_talks _ _)
  refine ⟨closed, talks, ?_⟩
  rw [handleFxFrame_index]
  rw [wantedFrom_index] at some ⊢
  show (closed.requestMissingKeys _ _).1 = _
  unfold FleeceRuntime.requestMissingKeys
  simp only
  rw [talks.store, if_pos some]
  simp only [FleeceRuntime.sendControlEx, if_true, valueRequest, talks.store]

/-- A node that is asked for values queues the answer. -/
theorem handleFxFrame_answers (runtime : FleeceRuntime) (requester : FleeceStateManager)
    (source : Destination) {hashes : List UInt32} (few : hashes.length ≤ maxFetchKeys)
    (some : hashes.length > 0) :
    ∃ answer, runtime.stateManager.answerTo (requester.valueRequest hashes) = .some answer ∧
      runtime.handleFxFrame (requester.valueRequest hashes) source =
        runtime.enqueueTx (FleeceRuntime.replyDest requester.nodeId source) answer := by
  have asked := handleFxFrame_request runtime source requester.nodeId few
  rw [if_pos some] at asked
  exact ⟨_, answerTo_request _ _ few some, asked⟩

/-- Targeted repair from any two reachable stores, the one with names of at most 63 bytes and the
other with a free slot for each live key it lacks. No round lowers the version of a slot of the
requester, serving changes nothing in the store of the responder, and the repair makes progress
exactly when every live record that the requester is missing fits a frame of its own. -/
theorem repair_progress_iff {nodeId otherId : UInt64} {node other : FleeceStateManager}
    (created : createWithNodeId nodeId = some node)
    (createdOther : createWithNodeId otherId = some other) (apart : nodeId ≠ otherId)
    (operations operationsOther : List Operation)
    (short : ∀ operation ∈ operationsOther, operation.isShort = true)
    (free : (node.after operations).HasFree (other.after operationsOther).liveKeys) :
    let requester := node.after operations
    let responder := other.after operationsOther
    (∀ count, (responder.fetchRounds requester count).Raises
      (responder.fetchRounds requester (count + 1))) ∧
    (∀ (runtime : FleeceRuntime) (frame : Blob) (source : Destination),
      runtime.stateManager = responder →
      (runtime.handleFxFrame frame source).stateManager = responder) ∧
    (responder.Repairs requester ↔
      ∀ f ∈ responder.slots, requester.isStale f = true → responder.FitsAlone f) := by
  intro requester responder
  have store := storeInvariant_after createdOther operationsOther
  have keyed := keyed_after createdOther short
  have ready : responder.Ready requester := by
    refine ⟨storeInvariant_after created operations, ?_, free⟩
    rw [node_after created operations, node_after createdOther operationsOther]
    exact apart
  refine ⟨fun count => ?_, fun runtime frame source same => ?_, repairs_iff ready store keyed⟩
  · rw [fetchRounds_succ]
    exact (fetchRound_keeps (fetchRounds_keep ready store keyed count).1 store keyed).2.1
  · rw [(FleeceRuntime.handleFxFrame_talks runtime frame source).store]
    exact same

/-- One field of node 7 is brought to node 9. -/
theorem repair_progress_iff_field :
    let goal : CString := ⟨[0x67], by decide⟩
    let value : Blob := ⟨[1], by decide⟩
    let responder := (blank 7).after [.write (.setShared goal value)]
    ((blank 9).staleKeys responder).card = 1 ∧ responder.Repairs (blank 9) := by
  intro goal value responder
  have free : ((blank 9).after []).HasFree responder.liveKeys :=
    ⟨by decide +kernel, fun i _ _ => rfl⟩
  obtain ⟨_, _, progress⟩ := repair_progress_iff
    (show createWithNodeId 9 = some (blank 9) from rfl)
    (show createWithNodeId 7 = some (blank 7) from rfl) (by decide) []
    [.write (.setShared goal value)] (by decide) free
  exact ⟨by decide +kernel, progress.mpr (by decide +kernel)⟩

/-- A record of 2^32 - 1 bytes fits no frame. -/
theorem not_fitsAlone {manager : FleeceStateManager} {f : FieldEntry}
    (giant : f.data.size = 4294967295) : ¬ manager.FitsAlone f := by
  have written := length_encode_shared f.record
  have size : f.record.data.size = 4294967295 := giant
  rw [FitsAlone, FrameContents.length_encode]
  simp only [aloneContents, List.map_cons, List.map_nil, List.sum_cons, List.sum_nil, written, size,
    bytesSize]
  omega

/-- A store that was just created has a free slot for every live key. -/
theorem hasFree_blank (nodeId : UInt64) (responder : FleeceStateManager) :
    (blank nodeId).HasFree responder.liveKeys := by
  refine ⟨?_, fun i _ _ => rfl⟩
  show 0 + _ ≤ fieldCapacity
  rw [Nat.zero_add]
  calc ((blank nodeId).missing responder.liveKeys).card
      ≤ responder.liveKeys.card := Finset.card_filter_le _ _
    _ ≤ ((responder.slots.filter (isLiveNamed sharedOwnerId)).map FieldEntry.key).length :=
        List.toFinset_card_le _
    _ ≤ responder.slots.length := by
        rw [List.length_map]
        exact List.length_filter_le _ _
    _ = fieldCapacity := List.length_ofFn

/-- The first field of a node, with a payload of 2^32 - 1 bytes, is never brought to a node that
was just created. -/
theorem not_repairs_giant {goal : CString} {giant : Blob} (named : goal.chars ≠ [])
    (giantSize : giant.size = 4294967295) (short : goal.chars.length < fieldNameMax) :
    ¬ ((blank 7).setShared goal giant).1.Repairs (blank 9) := by
  have accepted : ((blank 7).setShared goal giant).2 = 0 :=
    setShared_blank named (by rw [giantSize]; decide)
  have created : createWithNodeId 7 = some (blank 7) := rfl
  have store : ((blank 7).setShared goal giant).1.StoreInvariant :=
    setShared_storeInvariant (storeInvariant_create created) goal giant
  have keyed : ((blank 7).setShared goal giant).1.Keyed :=
    (keyed_create created).operation (show (Operation.write (.setShared goal giant)).isShort = true
      from decide_eq_true short)
  have node : ((blank 7).setShared goal giant).1.nodeId = 7 :=
    setShared_nodeId (storeInvariant_create created) goal giant
  obtain ⟨f, stored, pair, held⟩ := setShared_wrote accepted
  obtain ⟨_, owned⟩ := Prod.mk.inj pair
  obtain ⟨i, fields, present, _⟩ := stored.index
  have slot : f ∈ ((blank 7).setShared goal giant).1.slots :=
    mem_slots.mpr ⟨i, by rw [fields, Function.update_self]⟩
  have isNamed : f.isNamed = true := by
    show f.record.isNamed = true
    rw [held, GossipRecord.isNamed_iff]
    exact FieldName.copy_nonempty named
  have alive : f.isTombstone = false := congrArg GossipRecord.isTombstone held
  have size : f.data.size = 4294967295 :=
    (congrArg (fun record : GossipRecord => record.data.size) held).trans giantSize
  have stale : (blank 9).isStale f = true := by
    have absent : (blank 9).sharedAtLeast f.key f.timestamp = 0 := by
      have nothing : (blank 9).view (f.key, sharedOwnerId) = none := congrFun (refines_create
        (show createWithNodeId 9 = some (blank 9) from rfl)).view.symm _
      unfold sharedAtLeast
      rw [view_eq_none_iff.mp nothing]
    rw [isStale, isLiveNamed, present, alive, owned, isNamed, absent]
    rfl
  generalize ((blank 7).setShared goal giant).1 = responder at *
  have ready : responder.Ready (blank 9) := by
    refine ⟨storeInvariant_create (show createWithNodeId 9 = some (blank 9) from rfl), ?_,
      hasFree_blank 9 responder⟩
    rw [node]
    decide
  intro repairs
  exact not_fitsAlone size ((repairs_iff ready store keyed).mp repairs f slot stale)

/-- A record of 2^32 - 1 bytes never arrives. -/
theorem repair_stands_still :
    let goal : CString := ⟨[0x67], by decide⟩
    let giant : Blob := ⟨List.replicate 4294967295 0, by rw [List.length_replicate]; decide⟩
    let responder := ((blank 7).setShared goal giant).1
    (blank 9).HasFree responder.liveKeys ∧ ¬ responder.Repairs (blank 9) := by
  intro goal giant responder
  exact ⟨hasFree_blank 9 responder,
    not_repairs_giant (List.cons_ne_nil _ _) List.length_replicate (by decide)⟩

end FleeceStateManager

end Fleece
