/-
This file is about the digest of a stream and the exchange it triggers. The digest is a
sum over the live named entries of an owner, and where no name is longer than 63 bytes
no two slots of an owner have the same name, so that the digest is a function of the
set of these entries. Two nodes that exchange their full exports, one way and then the
other, end with the same shared slots and the same digest, and further frames between
them change nothing.

A record with the timestamp zero is in no export. An exchange heals exactly if each such
record is reached at the other node by another way.
-/

import Fleece.Exchange

namespace Fleece

/-! ### The digest is a function of the live entries -/

/-- What the digest reads of an entry. -/
def FieldEntry.content (f : FieldEntry) : FieldName × UInt64 × UInt64 × Blob :=
  (f.name, f.originNodeId, f.timestamp, f.data)

/-- The digest of an entry from what it reads. -/
def contentDigest (content : FieldName × UInt64 × UInt64 × Blob) : UInt64 :=
  GossipRecord.digest ⟨content.2.1, false, content.1, content.2.2.1, content.2.2.2⟩

theorem entryDigest_eq (f : FieldEntry) : entryDigest f = contentDigest f.content := rfl

namespace FleeceStateManager

/-- The contents of the live named entries of an owner. -/
def liveContents (manager : FleeceStateManager) (owner : UInt64) :
    Set (FieldName × UInt64 × UInt64 × Blob) :=
  {content | ∃ f ∈ manager.slots, isLiveNamed owner f = true ∧ f.content = content}

theorem filter_slots_eq (manager : FleeceStateManager) (keep : FieldEntry → Bool) :
    manager.slots.filter keep =
      ((List.finRange fieldCapacity).filter fun i => keep (manager.fields i)).map
        manager.fields := by
  rw [slots, List.ofFn_eq_map, List.filter_map]
  rfl

/-- No two live entries of an owner have the same name. -/
theorem nodup_liveNames {manager : FleeceStateManager} (distinct : manager.DistinctSlots)
    (keyed : manager.Keyed) (owner : UInt64) :
    ((manager.slots.filter (isLiveNamed owner)).map FieldEntry.name).Nodup := by
  rw [filter_slots_eq, List.map_map]
  refine ((List.nodup_finRange _).filter _).map_on fun i first j second name => ?_
  obtain ⟨⟨_, present, owned, named⟩, _⟩ :=
    carried_of_isLiveNamed (mem_slots.mpr ⟨i, rfl⟩) (List.mem_filter.mp first).2
  obtain ⟨⟨_, presentOther, ownedOther, namedOther⟩, _⟩ :=
    carried_of_isLiveNamed (mem_slots.mpr ⟨j, rfl⟩) (List.mem_filter.mp second).2
  have same : (manager.fields i).name = (manager.fields j).name := name
  have key : (manager.fields i).key = (manager.fields j).key := by
    rw [keyed i present named, keyed j presentOther namedOther, same]
  refine distinct i j ((manager.fields i).key, owner) ?_ ?_
  · exact fieldLabel_eq_some_iff.mpr ⟨present, rfl, owned⟩
  · exact fieldLabel_eq_some_iff.mpr ⟨presentOther, key.symm, ownedOther⟩

theorem nodup_liveContents {manager : FleeceStateManager} (distinct : manager.DistinctSlots)
    (keyed : manager.Keyed) (owner : UInt64) :
    ((manager.slots.filter (isLiveNamed owner)).map FieldEntry.content).Nodup := by
  refine List.Nodup.of_map Prod.fst ?_
  rw [List.map_map]
  exact nodup_liveNames distinct keyed owner

theorem digest_of_liveContents {first second : FleeceStateManager}
    (distinct : first.DistinctSlots) (distinctSecond : second.DistinctSlots)
    (keyed : first.Keyed) (keyedSecond : second.Keyed) {owner : UInt64}
    (same : first.liveContents owner = second.liveContents owner) :
    first.computeStreamDigest owner = second.computeStreamDigest owner := by
  have perm : ((first.slots.filter (isLiveNamed owner)).map FieldEntry.content).Perm
      ((second.slots.filter (isLiveNamed owner)).map FieldEntry.content) := by
    refine (List.perm_ext_iff_of_nodup (nodup_liveContents distinct keyed owner)
      (nodup_liveContents distinctSecond keyedSecond owner)).mpr fun content => ?_
    have member := Set.ext_iff.mp same content
    simp only [liveContents, Set.mem_ofPred_eq] at member
    simp only [List.mem_map, List.mem_filter, and_assoc]
    exact member
  have digest (manager : FleeceStateManager) : manager.computeStreamDigest owner =
      (((manager.slots.filter (isLiveNamed owner)).map
        FieldEntry.content).map contentDigest).sum := by
    rw [List.map_map]
    exact congrArg List.sum (List.map_congr_left fun f _ => entryDigest_eq f)
  rw [digest, digest, (perm.map contentDigest).sum_eq]

/-! ### One import -/

/-- The keys under which there is a shared slot. -/
def sharedKeys (manager : FleeceStateManager) : Finset UInt32 :=
  ((manager.streamOf sharedOwnerId).map Prod.fst).toFinset

theorem mem_streamOf {manager : FleeceStateManager} (distinct : manager.DistinctSlots)
    {owner : UInt64} {key : UInt32} {record : GossipRecord} :
    (key, record) ∈ manager.streamOf owner ↔ manager.view (key, owner) = some record := by
  unfold streamOf
  simp only [List.mem_map, List.mem_filter, Bool.and_eq_true, beq_iff_eq, Prod.mk.injEq]
  constructor
  · rintro ⟨f, ⟨member, present, owned⟩, rfl, rfl⟩
    obtain ⟨i, rfl⟩ := mem_slots.mp member
    rw [view, ← owned]
    exact Option.map_eq_some_iff.mpr ⟨_, lookup_of_exists distinct present, rfl⟩
  · intro found
    obtain ⟨f, held, rfl⟩ := Option.map_eq_some_iff.mp found
    obtain ⟨i, rfl, present, key, owned⟩ := exists_of_lookup held
    exact ⟨_, ⟨mem_slots.mpr ⟨i, rfl⟩, present, owned⟩, key, rfl⟩

theorem mem_sharedKeys {manager : FleeceStateManager} (distinct : manager.DistinctSlots)
    {key : UInt32} : key ∈ manager.sharedKeys ↔ manager.view (key, sharedOwnerId) ≠ none := by
  rw [sharedKeys, List.mem_toFinset, List.mem_map, Option.ne_none_iff_exists']
  constructor
  · rintro ⟨⟨_, record⟩, member, rfl⟩
    exact ⟨record, (mem_streamOf distinct).mp member⟩
  · rintro ⟨record, found⟩
    exact ⟨(key, record), (mem_streamOf distinct).mpr found, rfl⟩

/-- The shared slots of a store summarise themselves. -/
theorem summarises_self {manager : FleeceStateManager} (distinct : manager.DistinctSlots) :
    manager.Summarises (manager.streamOf sharedOwnerId) := by
  intro key
  refine ⟨fun record found => (mem_streamOf distinct).mpr found, fun record member => ?_⟩
  exact ⟨record, (mem_streamOf distinct).mp member, le_rfl⟩

theorem timestamp_of_mem_shared {manager : FleeceStateManager} {record : GossipRecord}
    (member : record ∈ (GossipExport.shared.contents manager).records) :
    record.timestamp ≠ 0 := by
  obtain ⟨f, exported, rfl⟩ := List.mem_map.mp member
  have later := (List.mem_filter.mp exported).2
  rw [isExported_eq] at later
  have dated := of_decide_eq_true (Bool.and_eq_true_iff.mp (Bool.and_eq_true_iff.mp later).2).1
  intro zero
  rw [zero] at dated
  exact absurd dated (by decide)

/-- The records an exchange offers to the slot of a key at a node: the one it has, and the one the
other node has, unless its timestamp is zero. -/
def Offered (manager exporter : FleeceStateManager) (key : UInt32) : Set GossipRecord :=
  {record | manager.view (key, sharedOwnerId) = some record ∨
    exporter.view (key, sharedOwnerId) = some record ∧ record.timestamp ≠ 0}

/-- An import of a full export leaves in every shared slot the greatest of what was offered. -/
theorem holds_importFrom {manager exporter : FleeceStateManager} (invariant : manager.StoreInvariant)
    (invariantExporter : exporter.StoreInvariant) (keyed : exporter.Keyed)
    (foreign : manager.nodeId ≠ exporter.nodeId)
    (free : manager.fieldCount + (exporter.sharedKeys \ manager.sharedKeys).card ≤ fieldCapacity)
    (fits : (GossipExport.shared.contents exporter).encode.length < 2 ^ 32) (key : UInt32) :
    Register.Holds GossipRecord.version (manager.Offered exporter key)
      ((manager.importFrom exporter.exportShared).manager.view (key, sharedOwnerId)) := by
  have keyOf {record : GossipRecord} {key : UInt32}
      (found : exporter.view (key, sharedOwnerId) = some record) : record.keyed.1 = key :=
    (keyed.view found (invariantExporter.view_named invariantExporter.realNode.symm found)).symm
  have room : (manager.newKeys (GossipExport.shared.contents exporter).records).card ≤
      (exporter.sharedKeys \ manager.sharedKeys).card := by
    refine Finset.card_le_card fun new member => ?_
    obtain ⟨⟨record, exported, rfl⟩, absent⟩ := mem_newKeys.mp member
    obtain ⟨other, found⟩ := view_of_mem_contents invariantExporter rfl exported
    rw [Finset.mem_sdiff, mem_sharedKeys invariantExporter.distinct,
      mem_sharedKeys invariant.distinct, not_not, keyOf found]
    exact ⟨found ▸ Option.some_ne_none _, keyOf found ▸ absent⟩
  have summary := (summarises_self invariant.distinct).importFrom invariant
    (parseFrame_export invariantExporter .shared foreign fits) rfl
    (sendable_contents invariantExporter .shared) ((Nat.add_le_add_left room _).trans free) key
  have offered : {record | (key, record) ∈ manager.streamOf sharedOwnerId ++
      (GossipExport.shared.contents exporter).records.map GossipRecord.keyed} =
      manager.Offered exporter key := by
    ext record
    simp only [Set.mem_ofPred_eq, Offered, List.mem_append, mem_streamOf invariant.distinct]
    refine or_congr_right ⟨fun member => ?_, fun ⟨found, stamped⟩ => ?_⟩
    · obtain ⟨other, exported, same⟩ := List.mem_map.mp member
      obtain ⟨keyEq, rfl⟩ := Prod.mk.inj same
      obtain ⟨held, found⟩ := view_of_mem_contents invariantExporter rfl exported
      rw [← keyEq, show hashName other.name.toCString = held from keyOf found]
      exact ⟨found, timestamp_of_mem_shared exported⟩
    · exact List.mem_map.mpr ⟨record, mem_contents_shared invariantExporter found stamped,
        Prod.ext (keyOf found) rfl⟩
  rw [offered] at summary
  exact summary

/-! ### A two-way exchange -/

/-- Every record with the timestamp zero, which no export carries, is reached at the other node. -/
def ZerosReached (manager other : FleeceStateManager) : Prop :=
  ∀ key record, manager.view (key, sharedOwnerId) = some record → record.timestamp = 0 →
    ∃ held, other.view (key, sharedOwnerId) = some held ∧ record.version ≤ held.version

/-- A slot that holds the greatest of what was offered in the first import, and one that holds the
greatest of what is then offered in the second, agree exactly if no record of timestamp zero is
left out. -/
theorem slots_agree_iff {first second healed back : FleeceStateManager}
    (unique : ∀ key one other, first.view (key, sharedOwnerId) = some one →
      second.view (key, sharedOwnerId) = some other → one.version = other.version → one = other)
    (holds : ∀ key, Register.Holds GossipRecord.version (first.Offered second key)
      (healed.view (key, sharedOwnerId)))
    (holdsBack : ∀ key, Register.Holds GossipRecord.version (second.Offered healed key)
      (back.view (key, sharedOwnerId))) :
    (∀ key, healed.view (key, sharedOwnerId) = back.view (key, sharedOwnerId)) ↔
      first.ZerosReached second ∧ second.ZerosReached first := by
  constructor
  · intro agree
    constructor
    · intro key record found zero
      obtain ⟨best, held, reached⟩ := (holds key).greatest record (Or.inl found)
      rcases (holdsBack key).among best (agree key ▸ held) with own | ⟨_, stamped⟩
      · exact ⟨best, own, reached⟩
      · rcases (holds key).among best held with here | ⟨other, _⟩
        · rw [found] at here
          exact absurd (Option.some.inj here ▸ zero) stamped
        · exact ⟨best, other, reached⟩
    · intro key record found zero
      obtain ⟨best, held, reached⟩ := (holdsBack key).greatest record (Or.inl found)
      rw [← agree key] at held
      rcases (holds key).among best held with here | ⟨other, stamped⟩
      · exact ⟨best, here, reached⟩
      · rw [found] at other
        exact absurd (Option.some.inj other ▸ zero) stamped
  · rintro ⟨reachedSecond, reachedFirst⟩ key
    -- both slots hold the greatest of the two records the nodes started with
    let seen : Set GossipRecord := {record | first.view (key, sharedOwnerId) = some record ∨
      second.view (key, sharedOwnerId) = some record}
    have injective : Set.InjOn GossipRecord.version seen := by
      rintro one (here | there) other (hereOther | thereOther) same
      · exact Option.some.inj (here.symm.trans hereOther)
      · exact unique key one other here thereOther same
      · exact (unique key other one hereOther there same.symm).symm
      · exact Option.some.inj (there.symm.trans thereOther)
    have whole : Register.Holds GossipRecord.version seen (healed.view (key, sharedOwnerId)) := by
      refine ⟨fun record held => ?_, fun record member => ?_⟩
      · exact ((holds key).among record held).imp id And.left
      · rcases member with here | there
        · exact (holds key).greatest record (Or.inl here)
        · by_cases zero : record.timestamp = 0
          · obtain ⟨held, found, above⟩ := reachedFirst key record there zero
            obtain ⟨best, stored, top⟩ := (holds key).greatest held (Or.inl found)
            exact ⟨best, stored, above.trans top⟩
          · exact (holds key).greatest record (Or.inr ⟨there, zero⟩)
    have wholeBack : Register.Holds GossipRecord.version seen (back.view (key, sharedOwnerId)) := by
      refine ⟨fun record held => ?_, fun record member => ?_⟩
      · rcases (holdsBack key).among record held with own | ⟨stored, _⟩
        · exact Or.inr own
        · exact whole.among record stored
      · obtain ⟨best, stored, top⟩ := whole.greatest record member
        by_cases zero : best.timestamp = 0
        · rcases whole.among best stored with here | there
          · obtain ⟨held, found, above⟩ := reachedSecond key best here zero
            obtain ⟨last, kept, higher⟩ := (holdsBack key).greatest held (Or.inl found)
            exact ⟨last, kept, top.trans (above.trans higher)⟩
          · obtain ⟨last, kept, above⟩ := (holdsBack key).greatest best (Or.inl there)
            exact ⟨last, kept, top.trans above⟩
        · obtain ⟨last, kept, above⟩ := (holdsBack key).greatest best (Or.inr ⟨stored, zero⟩)
          exact ⟨last, kept, top.trans above⟩
    exact whole.unique injective wholeBack

/-! ### Frames between nodes that agree -/

theorem mergeRecords_of_covers {manager : FleeceStateManager} {records : List GossipRecord}
    (sendable : ∀ record ∈ records, record.Sendable sharedOwnerId)
    (covered : ∀ record ∈ records, manager.Covers record) :
    (manager.mergeRecords sharedOwnerId records).fields = manager.fields := by
  induction records generalizing manager with
  | nil => rfl
  | cons record rest inductionHypothesis =>
    have raised := mergeRecord_of_covers (sendable record List.mem_cons_self)
      (covered record List.mem_cons_self)
    rw [mergeRecords_cons, raised]
    exact inductionHypothesis (fun later member => sendable later (List.mem_cons_of_mem _ member))
      fun later member => covered later (List.mem_cons_of_mem _ member)

/-- A shared frame of a node with the same shared slots changes no slot. -/
theorem importFrom_of_agree {manager exporter : FleeceStateManager}
    (invariant : exporter.StoreInvariant) (keyed : exporter.Keyed)
    (foreign : manager.nodeId ≠ exporter.nodeId)
    (agree : ∀ key, exporter.view (key, sharedOwnerId) = manager.view (key, sharedOwnerId))
    {kind : GossipExport} (stream : kind.owner exporter = sharedOwnerId) :
    (manager.importFrom (kind.frame exporter)).manager.fields = manager.fields := by
  rw [importFrom_manager]
  cases read : parseFrame manager.nodeId (kind.frame exporter) with
  | error halt => rfl
  | ok parsed =>
    obtain ⟨_, owner, cut⟩ := parseFrame_export_cut invariant kind foreign read
    simp only
    rw [owner, stream, ← touchPeer_fields manager parsed.senderNodeId]
    refine mergeRecords_of_covers (fun record member => ?_) fun record member => ?_
    · rw [← stream]
      exact sendable_contents invariant kind record (cut.subset member)
    · obtain ⟨key, found⟩ := view_of_mem_contents invariant stream (cut.subset member)
      have key' := keyed.view found (invariant.view_named invariant.realNode.symm found)
      refine ⟨record, ?_, le_rfl⟩
      rw [view_of_same (touchPeer_fields manager parsed.senderNodeId), GossipRecord.keyed,
        ← show key = _ from key', ← agree]
      exact found

/-- The imports of some frames of a node. -/
def importsOf (exporter : FleeceStateManager) (kinds : List GossipExport) : List Operation :=
  kinds.map fun kind => .importFrom (kind.frame exporter)

theorem after_importsOf {manager exporter : FleeceStateManager}
    (invariant : manager.StoreInvariant) (invariantExporter : exporter.StoreInvariant)
    (keyed : exporter.Keyed) (foreign : manager.nodeId ≠ exporter.nodeId)
    (agree : ∀ key, exporter.view (key, sharedOwnerId) = manager.view (key, sharedOwnerId))
    {kinds : List GossipExport} (stream : ∀ kind ∈ kinds, kind.owner exporter = sharedOwnerId) :
    (manager.after (exporter.importsOf kinds)).fields = manager.fields := by
  induction kinds generalizing manager with
  | nil => rfl
  | cons kind rest inductionHypothesis =>
    have same := importFrom_of_agree invariantExporter keyed foreign agree
      (stream kind List.mem_cons_self)
    have invariantNext := operation_storeInvariant invariant (.importFrom (kind.frame exporter))
    have node := operation_nodeId invariant (.importFrom (kind.frame exporter))
    refine (inductionHypothesis invariantNext (node.symm ▸ foreign) (fun key => ?_)
      fun later member => stream later (List.mem_cons_of_mem _ member)).trans same
    rw [agree]
    exact (congrFun (view_of_same same) _).symm

/-- What a two-way exchange leaves behind, with what the second import reported: the same shared
slots, tombstones included, the same digest, no gap, and nothing for a later frame to change. -/
structure Healed (first second : FleeceStateManager) (behindShared : Option Bool) : Prop where
  slots : ∀ key, first.view (key, sharedOwnerId) = second.view (key, sharedOwnerId)
  digest : first.computeStreamDigest sharedOwnerId = second.computeStreamDigest sharedOwnerId
  level : behindShared = some false
  settled : ∀ kinds : List GossipExport,
    (∀ kind ∈ kinds, kind.owner first = sharedOwnerId ∧ kind.owner second = sharedOwnerId) →
    (second.after (first.importsOf kinds)).fields = second.fields ∧
      (first.after (second.importsOf kinds)).fields = first.fields

theorem importFrom_behindShared {manager exporter : FleeceStateManager}
    (invariant : exporter.StoreInvariant) (foreign : manager.nodeId ≠ exporter.nodeId)
    (fits : (GossipExport.shared.contents exporter).encode.length < 2 ^ 32) :
    (manager.importFrom exporter.exportShared).behindShared =
      some ((manager.importFrom exporter.exportShared).manager.computeStreamDigest sharedOwnerId !=
        exporter.computeStreamDigest sharedOwnerId) := by
  have read : parseFrame manager.nodeId exporter.exportShared = _ :=
    parseFrame_export invariant .shared foreign fits
  have output := importFrom_output manager exporter.exportShared
  have managerEq := importFrom_manager manager exporter.exportShared
  rw [read] at output managerEq
  rw [(Output.imported.inj output).2.2.2, managerEq]
  simp only [show GossipExport.shared.owner exporter = sharedOwnerId from rfl, beq_self_eq_true,
    Bool.true_and]

/-- Nodes that agree after the second import are healed. -/
theorem healed_of_agree {second healed back : FleeceStateManager}
    (imported : (second.importFrom healed.exportShared).manager = back)
    (storeSecond : second.StoreInvariant) (keyedSecond : second.Keyed)
    (storeHealed : healed.StoreInvariant) (keyedHealed : healed.Keyed)
    (foreign : second.nodeId ≠ healed.nodeId)
    (fits : (GossipExport.shared.contents healed).encode.length < 2 ^ 32)
    (agree : ∀ key, healed.view (key, sharedOwnerId) = back.view (key, sharedOwnerId)) :
    Healed healed back (second.importFrom healed.exportShared).behindShared := by
  have storeBack : back.StoreInvariant := by
    rw [← imported]
    exact importFrom_storeInvariant storeSecond healed.exportShared
  have keyedBack : back.Keyed := by
    rw [← imported]
    exact keyedSecond.importFrom healed.exportShared
  have foreignBack : back.nodeId ≠ healed.nodeId := by
    rw [← imported]
    exact (importFrom_nodeId storeSecond healed.exportShared).trans_ne foreign
  have digest : healed.computeStreamDigest sharedOwnerId =
      back.computeStreamDigest sharedOwnerId := by
    refine digest_congr storeHealed.distinct storeBack.distinct fun key => ?_
    rw [liveView, liveView, agree]
  refine ⟨agree, digest, ?_, fun kinds stream => ⟨?_, ?_⟩⟩
  · rw [importFrom_behindShared storeHealed foreign fits, imported, digest, bne_self_eq_false]
  · exact after_importsOf storeBack storeHealed keyedHealed foreignBack agree
      fun kind member => (stream kind member).1
  · exact after_importsOf storeHealed storeBack keyedBack foreignBack.symm
      (fun key => (agree key).symm) fun kind member => (stream kind member).2

theorem exchange_heals_iff {first second healed : FleeceStateManager}
    (imported : (first.importFrom second.exportShared).manager = healed)
    (store : first.StoreInvariant) (storeSecond : second.StoreInvariant) (keyed : first.Keyed)
    (keyedSecond : second.Keyed) (foreign : first.nodeId ≠ second.nodeId)
    (unique : ∀ key one other, first.view (key, sharedOwnerId) = some one →
      second.view (key, sharedOwnerId) = some other → one.version = other.version → one = other)
    (free : first.fieldCount + (second.sharedKeys \ first.sharedKeys).card ≤ fieldCapacity)
    (freeBack : second.fieldCount + (first.sharedKeys \ second.sharedKeys).card ≤ fieldCapacity)
    (fits : (GossipExport.shared.contents second).encode.length < 2 ^ 32)
    (fitsBack : (GossipExport.shared.contents healed).encode.length < 2 ^ 32) :
    Healed healed (second.importFrom healed.exportShared).manager
        (second.importFrom healed.exportShared).behindShared ↔
      first.ZerosReached second ∧ second.ZerosReached first := by
  have holds := holds_importFrom store storeSecond keyedSecond foreign free fits
  have storeHealed : healed.StoreInvariant := by
    rw [← imported]
    exact importFrom_storeInvariant store second.exportShared
  have keyedHealed : healed.Keyed := by
    rw [← imported]
    exact keyed.importFrom second.exportShared
  have foreignBack : second.nodeId ≠ healed.nodeId := by
    rw [← imported]
    exact ((importFrom_nodeId store second.exportShared).trans_ne foreign).symm
  rw [imported] at holds
  -- what the first import brings in is known to the second node already
  have known : healed.sharedKeys \ second.sharedKeys ⊆ first.sharedKeys \ second.sharedKeys := by
    intro key member
    rw [Finset.mem_sdiff, mem_sharedKeys storeHealed.distinct, mem_sharedKeys storeSecond.distinct,
      not_not] at member
    obtain ⟨record, found⟩ := Option.ne_none_iff_exists'.mp member.1
    rw [Finset.mem_sdiff, mem_sharedKeys store.distinct, mem_sharedKeys storeSecond.distinct,
      not_not]
    refine ⟨?_, member.2⟩
    rcases (holds key).among record found with here | ⟨there, _⟩
    · exact here ▸ Option.some_ne_none _
    · rw [member.2] at there
      cases there
  have holdsBack := holds_importFrom storeSecond storeHealed keyedHealed foreignBack
    ((Nat.add_le_add_left (Finset.card_le_card known) _).trans freeBack) fitsBack
  rw [← slots_agree_iff unique holds holdsBack]
  exact ⟨Healed.slots, healed_of_agree rfl storeSecond keyedSecond storeHealed keyedHealed
    foreignBack fitsBack⟩

/-- The digest of a stream is a function of the set of its live named entries, and a two-way
exchange of full exports heals exactly if every record with the timestamp zero is reached at the
other node. -/
theorem full_exchange_heals {firstId secondId : UInt64} {firstNode secondNode : FleeceStateManager}
    (created : createWithNodeId firstId = some firstNode)
    (createdSecond : createWithNodeId secondId = some secondNode)
    (operations operationsSecond : List Operation)
    (short : ∀ operation ∈ operations, operation.isShort = true)
    (shortSecond : ∀ operation ∈ operationsSecond, operation.isShort = true) :
    let first := firstNode.after operations
    let second := secondNode.after operationsSecond
    let healed := (first.importFrom second.exportShared).manager
    (∀ owner, first.liveContents owner = second.liveContents owner →
      first.computeStreamDigest owner = second.computeStreamDigest owner) ∧
    (firstId ≠ secondId →
      (∀ key one other, first.view (key, sharedOwnerId) = some one →
        second.view (key, sharedOwnerId) = some other → one.version = other.version →
        one = other) →
      first.fieldCount + (second.sharedKeys \ first.sharedKeys).card ≤ fieldCapacity →
      second.fieldCount + (first.sharedKeys \ second.sharedKeys).card ≤ fieldCapacity →
      (GossipExport.shared.contents second).encode.length < 2 ^ 32 →
      (GossipExport.shared.contents healed).encode.length < 2 ^ 32 →
      (Healed healed (second.importFrom healed.exportShared).manager
          (second.importFrom healed.exportShared).behindShared ↔
        first.ZerosReached second ∧ second.ZerosReached first)) := by
  have store := storeInvariant_after created operations
  have storeSecond := storeInvariant_after createdSecond operationsSecond
  have keyed := keyed_after created short
  have keyedSecond := keyed_after createdSecond shortSecond
  have node := node_after created operations
  have nodeSecond := node_after createdSecond operationsSecond
  generalize firstNode.after operations = first at *
  generalize secondNode.after operationsSecond = second at *
  refine ⟨fun owner same => digest_of_liveContents store.distinct storeSecond.distinct keyed
    keyedSecond same, fun apart unique free freeBack fits fitsBack => ?_⟩
  have foreign : first.nodeId ≠ second.nodeId := by
    rw [node, nodeSecond]
    exact apart
  exact exchange_heals_iff rfl store storeSecond keyed keyedSecond foreign unique free freeBack fits
    fitsBack

theorem after_setShared (manager : FleeceStateManager) (name : CString) (data : Blob) :
    manager.after [.write (.setShared name data)] = (manager.setShared name data).1 := rfl

/-- Two nodes that have written one field each exchange their exports. -/
theorem full_exchange_heals_two_fields :
    let goal : CString := ⟨[0x67], by decide⟩
    let home : CString := ⟨[0x68], by decide⟩
    let value : Blob := ⟨[1], by decide⟩
    let first := (blank 7).after [.write (.setShared goal value)]
    let second := (blank 9).after [.write (.setShared home value)]
    let healed := (first.importFrom second.exportShared).manager
    Healed healed (second.importFrom healed.exportShared).manager
      (second.importFrom healed.exportShared).behindShared := by
  intro goal home value first second healed
  have view (key : UInt32) :
      ((blank 7).after [.write (.setShared goal value)]).view (key, sharedOwnerId) =
        if key = hashName goal then some (.upserted 7 (.copy goal) value 1 false) else none := by
    have accepted : ((blank 7).setShared goal value).2 = 0 := setShared_blank (by decide) (by decide)
    rw [after_setShared]
    exact view_first_write rfl accepted key
  have viewSecond (key : UInt32) :
      ((blank 9).after [.write (.setShared home value)]).view (key, sharedOwnerId) =
        if key = hashName home then some (.upserted 9 (.copy home) value 1 false) else none := by
    have accepted : ((blank 9).setShared home value).2 = 0 := setShared_blank (by decide) (by decide)
    rw [after_setShared]
    exact view_first_write rfl accepted key
  have apart : hashName goal ≠ hashName home := by decide +kernel
  have exchange := (full_exchange_heals (show createWithNodeId 7 = some (blank 7) from rfl)
    (show createWithNodeId 9 = some (blank 9) from rfl) [.write (.setShared goal value)]
    [.write (.setShared home value)] (by decide) (by decide)).2 (by decide)
  refine (exchange (fun key one other found there => ?_) ?_ ?_ ?_ ?_).mpr ⟨?_, ?_⟩
  · rw [view] at found
    rw [viewSecond] at there
    split_ifs at found there with here
    exact absurd (here.symm.trans ‹_›) apart
  · decide +kernel
  · decide +kernel
  · decide +kernel
  · decide +kernel
  · intro key record found zero
    rw [view] at found
    split_ifs at found
    rw [← Option.some.inj found] at zero
    exact absurd (show (1 : UInt64) = 0 from zero) (by decide)
  · intro key record found zero
    rw [viewSecond] at found
    split_ifs at found
    rw [← Option.some.inj found] at zero
    exact absurd (show (1 : UInt64) = 0 from zero) (by decide)

/-- A shared record merged with the timestamp zero is in no export: after the exchange one node has
it and the other does not. -/
theorem full_exchange_misses_zero :
    let goal : CString := ⟨[0x67], by decide⟩
    let value : Blob := ⟨[1], by decide⟩
    let first := (blank 7).after [.mergeShared 8 goal value 0 false]
    let second := blank 9
    let healed := (first.importFrom second.exportShared).manager
    let back := (second.importFrom healed.exportShared).manager
    (healed.view (hashName goal, sharedOwnerId)).isSome = true ∧
      (back.view (hashName goal, sharedOwnerId)).isSome = false ∧
      healed.computeStreamDigest sharedOwnerId ≠ back.computeStreamDigest sharedOwnerId ∧
      (second.importFrom healed.exportShared).behindShared = some true := by
  decide +kernel

end FleeceStateManager

end Fleece
