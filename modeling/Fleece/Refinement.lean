/-
This file proves that the slot array refines the map of `Fleece/Registry.lean`. The
relation is that both give the same record for every pair; from it the entries of
the map are, up to their order, the existing slots of the array, so that listings,
digests and high-water marks agree as well, and the number of pairs is
`field_count`. It is kept by every operation, also by a compaction that leaves no
slot behind, and every operation returns what the map says.
-/

import Fleece.Registry
import Fleece.RoundTrip
import Fleece.Safety

namespace Fleece

namespace FleeceStateManager

/-- The array stands for the map. -/
structure Refines (manager : FleeceStateManager) (registry : Registry) : Prop where
  node : registry.nodeId = manager.nodeId
  clock : registry.clock = manager.localTimestamp
  view : registry.view = manager.view

theorem Refines.of_same {manager next : FleeceStateManager} {registry : Registry}
    (refines : manager.Refines registry) (fields : next.fields = manager.fields)
    (node : next.nodeId = manager.nodeId) (clock : next.localTimestamp = manager.localTimestamp) :
    next.Refines registry :=
  ⟨refines.node.trans node.symm, refines.clock.trans clock.symm,
    refines.view.trans (view_of_same fields).symm⟩

theorem view_of_unmarked {manager next : FleeceStateManager}
    (same : ∀ j, unmarked (next.fields j) = unmarked (manager.fields j)) :
    next.view = manager.view := by
  funext pair
  have marked := congrArg (Option.map FieldEntry.record) (lookup_of_unmarked same pair.1 pair.2)
  rwa [Option.map_map, Option.map_map] at marked

/-- Every array without a double slot stands for some map. -/
theorem exists_refines {manager : FleeceStateManager} (distinct : manager.DistinctSlots) :
    ∃ registry, manager.Refines registry :=
  ⟨⟨manager.nodeId, manager.localTimestamp, Slots.toFinmap FieldEntry.record distinct⟩, rfl, rfl,
    funext fun pair => Slots.lookup_toFinmap distinct pair⟩

theorem refines_create {nodeId : UInt64} {manager : FleeceStateManager}
    (created : createWithNodeId nodeId = some manager) : manager.Refines (.create nodeId) := by
  unfold createWithNodeId at created
  split_ifs at created
  rw [← Option.some.inj created]
  refine ⟨rfl, rfl, funext fun pair => ?_⟩
  have empty : (blank nodeId).lookup pair.1 pair.2 = none := by
    refine Slots.lookup_eq_none_iff.mpr fun i labelled => ?_
    exact Bool.false_ne_true (fieldLabel_eq_some_iff.mp labelled).1
  rw [FleeceStateManager.view, empty]
  rfl

/-! ### The entries of the map -/

/-- The existing slots, as entries of a map. -/
def entries (manager : FleeceStateManager) : List (Sigma fun _ : UInt32 × UInt64 => GossipRecord) :=
  Slots.entries fieldLabel FieldEntry.record manager.fields

theorem Refines.entries {manager : FleeceStateManager} {registry : Registry}
    (refines : manager.Refines registry) (distinct : manager.DistinctSlots) :
    registry.records.entries = ↑manager.entries :=
  Slots.entries_eq_of_lookup distinct fun pair => congrFun refines.view pair

theorem length_entries {manager : FleeceStateManager} (invariant : manager.PackedInvariant) :
    manager.entries.length = manager.fieldCount := by
  have present (i : Fin fieldCapacity) :
      (Slots.entry fieldLabel FieldEntry.record (manager.fields i)).isSome =
        decide (i.val < manager.fieldCount) := by
    rw [Bool.eq_iff_iff, decide_eq_true_iff, ← invariant.packed i, Slots.entry, Option.isSome_map,
      fieldLabel]
    split_ifs with existing
    · exact iff_of_true rfl existing
    · exact iff_of_false Bool.false_ne_true existing
  unfold FleeceStateManager.entries Slots.entries
  rw [List.ofFn_eq_map, List.filterMap_map, List.length_filterMap_eq_countP]
  have counted : (List.finRange fieldCapacity).countP (fun i => decide (i.val < manager.fieldCount)) =
      (Finset.univ.filter fun i : Fin fieldCapacity => i.val < manager.fieldCount).card := by
    rw [Finset.card, Finset.filter_val, Multiset.card, List.countP_eq_length_filter]
    rfl
  rw [← min_eq_right invariant.store.countLe, ← Fin.card_filter_val_lt, ← counted]
  exact congrArg (fun keep => List.countP keep _) (funext present)

/-- The map has as many pairs as the array has slots. -/
theorem Refines.card {manager : FleeceStateManager} {registry : Registry}
    (refines : manager.Refines registry) (invariant : manager.PackedInvariant) :
    registry.records.keys.card = manager.fieldCount := by
  show Multiset.card (registry.records.entries.map Sigma.fst) = _
  rw [Multiset.card_map, refines.entries invariant.store.distinct, Multiset.coe_card,
    length_entries invariant]

/-! ### Putting a record -/

theorem Refines.mem_iff {manager : FleeceStateManager} {registry : Registry}
    (refines : manager.Refines registry) {pair : UInt32 × UInt64} :
    pair ∈ registry.records ↔ manager.view pair ≠ none := by
  rw [← refines.view, Registry.view, ne_eq, Finmap.lookup_eq_none, not_not]

/-- A record is stored under its pair, and nothing else changes in the map. -/
theorem view_stored {manager next : FleeceStateManager} {f : FieldEntry}
    (stored : Stored manager next f) (invariant : manager.PackedInvariant) :
    next.view = Function.update manager.view (f.key, f.nodeId) (some f.record) := by
  funext pair
  rcases eq_or_ne pair (f.key, f.nodeId) with rfl | other
  · rw [Function.update_self, FleeceStateManager.view, stored.lookup_self invariant.store.distinct,
      Option.map_some]
  · rw [Function.update_of_ne other, FleeceStateManager.view, FleeceStateManager.view]
    refine congrArg (Option.map FieldEntry.record) (stored.lookup_of_ne other fun i beyond => ?_)
    intro labelled
    exact absurd ((invariant.packed i).mp (fieldLabel_eq_some_iff.mp labelled).1) (not_lt.mpr beyond)

/-- The same for the pairs of other owners, also after a `compact`. -/
theorem view_stored_foreign {manager next : FleeceStateManager} {f : FieldEntry}
    (stored : Stored manager next f) (invariant : manager.StoreInvariant) {pair : UInt32 × UInt64}
    (foreign : pair.2 ≠ manager.nodeId) :
    next.view pair = Function.update manager.view (f.key, f.nodeId) (some f.record) pair := by
  rcases eq_or_ne pair (f.key, f.nodeId) with rfl | different
  · rw [Function.update_self, view, stored.lookup_self invariant.distinct, Option.map_some]
  · rw [Function.update_of_ne different, view, view,
      stored.lookup_of_ne different (invariant.spared foreign)]

/-- What is stored in the array is put in the map. -/
theorem Refines.stored {manager next : FleeceStateManager} {registry : Registry} {f : FieldEntry}
    (refines : manager.Refines registry) (invariant : manager.PackedInvariant)
    (stored : Stored manager next f) (node : next.nodeId = manager.nodeId)
    (clock : next.localTimestamp = manager.localTimestamp) :
    (registry.put (f.key, f.nodeId) f.record).2 = 0 ∧
      next.Refines (registry.put (f.key, f.nodeId) f.record).1 := by
  have fits : (f.key, f.nodeId) ∈ registry.records ∨
      registry.records.keys.card < fieldCapacity := by
    rw [refines.mem_iff, refines.card invariant]
    cases stored with
    | inPlace i found =>
      rw [view_of_findSlotOwned found]
      exact Or.inl (Option.some_ne_none _)
    | appended absent room => exact Or.inr room
  unfold Registry.put
  rw [if_pos fits]
  refine ⟨rfl, refines.node.trans node.symm, refines.clock.trans clock.symm, ?_⟩
  rw [view_stored stored invariant, ← refines.view]
  funext pair
  rcases eq_or_ne pair (f.key, f.nodeId) with rfl | other
  · rw [Function.update_self]
    exact Finmap.lookup_insert _
  · rw [Function.update_of_ne other]
    exact Finmap.lookup_insert_of_ne _ other

theorem Refines.noSlot {manager : FleeceStateManager} {registry : Registry}
    (refines : manager.Refines registry) (invariant : manager.PackedInvariant)
    {pair : UInt32 × UInt64} (absent : manager.view pair = none)
    (full : fieldCapacity ≤ manager.fieldCount) (record : GossipRecord) :
    registry.put pair record = (registry, -1) := by
  unfold Registry.put
  rw [if_neg]
  rw [refines.mem_iff, refines.card invariant, absent]
  exact not_or.mpr ⟨fun wrong => wrong rfl, not_lt.mpr full⟩

theorem PackedInvariant.of_same {manager next : FleeceStateManager}
    (invariant : manager.PackedInvariant) (fields : next.fields = manager.fields)
    (count : next.fieldCount = manager.fieldCount) (node : next.nodeId = manager.nodeId) :
    next.PackedInvariant :=
  ⟨storeInvariant_of_same fields count node invariant.store,
    packed_of_same fields count invariant.packed⟩

/-! ### Writes and merges -/

theorem Refines.write {manager : FleeceStateManager} {registry : Registry}
    (refines : manager.Refines registry) (invariant : manager.PackedInvariant)
    (change : LocalWrite) :
    (change.exec manager).2 = (registry.write change).2 ∧
      (change.exec manager).1.Refines (registry.write change).1 := by
  have outcome := exec_outcome manager change
  have ticked : manager.advanceClock.Refines { registry with clock := registry.clock + 1 } :=
    ⟨refines.node, congrArg (· + 1) refines.clock, refines.view⟩
  have tickedInvariant : manager.advanceClock.PackedInvariant := invariant.of_same rfl rfl rfl
  have asked : change.request registry.nodeId registry.clock registry.view =
      change.request manager.nodeId manager.localTimestamp manager.view := by
    rw [refines.node, refines.clock, refines.view]
  unfold Registry.write
  rw [asked]
  generalize change.request manager.nodeId manager.localTimestamp manager.view = request at outcome ⊢
  generalize change.exec manager = result at outcome ⊢
  cases outcome with
  | refused code denied =>
    rw [denied]
    exact ⟨rfl, refines⟩
  | noSlot next pair record accepted absent full fields count node peers tick clock =>
    rw [accepted]
    simp only
    rw [ticked.noSlot tickedInvariant absent full]
    exact ⟨rfl, ticked.of_same fields node clock⟩
  | wrote next f accepted stored node peers tick clock =>
    rw [accepted]
    simp only
    obtain ⟨code, refinesNext⟩ := ticked.stored tickedInvariant
      (stored.of_same rfl rfl rfl rfl) node clock
    exact ⟨code.symm, refinesNext⟩

theorem Refines.merge {base : FleeceStateManager} {registry : Registry} {pair : UInt32 × UInt64}
    {record : GossipRecord} {outranks : GossipRecord → Prop} [DecidablePred outranks]
    {result : FleeceStateManager × Int}
    (refines : base.Refines (registry.raiseClock record.timestamp))
    (invariant : base.PackedInvariant)
    (outcome : MergeOutcome base pair record outranks result) :
    result.2 = (registry.merge pair record outranks).2 ∧
      result.1.Refines (registry.merge pair record outranks).1 := by
  have held : registry.view pair = base.view pair := congrFun refines.view pair
  unfold Registry.merge
  rw [held]
  cases outcome with
  | kept old found stays =>
    rw [found]
    simp only
    rw [if_neg stays]
    exact ⟨rfl, refines⟩
  | noSlot absent full =>
    rw [absent]
    simp only
    rw [refines.noSlot invariant absent full]
    exact ⟨rfl, refines⟩
  | stored next f storedAt rest label heldRecord newer =>
    have put := refines.stored invariant storedAt (by rw [rest]) (by rw [rest])
    rw [label, heldRecord] at put
    cases found : base.view pair with
    | none => exact ⟨put.1.symm, put.2⟩
    | some old =>
      simp only
      rw [if_pos (newer old found)]
      exact ⟨put.1.symm, put.2⟩

theorem Refines.raiseClock {manager : FleeceStateManager} {registry : Registry}
    (refines : manager.Refines registry) (timestamp : UInt64) :
    (manager.raiseClock timestamp).Refines (registry.raiseClock timestamp) := by
  refine ⟨refines.node, ?_, refines.view⟩
  unfold Registry.raiseClock FleeceStateManager.raiseClock
  rw [refines.clock]

theorem Refines.touchPeer {manager : FleeceStateManager} {registry : Registry}
    (refines : manager.Refines registry) (nodeId : UInt64) :
    (manager.touchPeer nodeId).Refines registry :=
  refines.of_same (touchPeer_fields manager nodeId) (touchPeer_nodeId manager nodeId)
    (touchPeer_localTimestamp manager nodeId)

theorem PackedInvariant.touchPeer {manager : FleeceStateManager}
    (invariant : manager.PackedInvariant) (nodeId : UInt64) :
    (manager.touchPeer nodeId).PackedInvariant := by
  rw [touchPeer_rest]
  exact invariant.of_same rfl rfl rfl

theorem Refines.mergeShared {manager : FleeceStateManager} {registry : Registry}
    (refines : manager.Refines registry) (invariant : manager.PackedInvariant) (origin : UInt64)
    (name : CString) (data : Blob) (timestamp : UInt64) (isTombstone : Bool) :
    (manager.mergeShared origin name data timestamp isTombstone).2 =
        (registry.mergeShared origin name data timestamp isTombstone).2 ∧
      (manager.mergeShared origin name data timestamp isTombstone).1.Refines
        (registry.mergeShared origin name data timestamp isTombstone).1 := by
  by_cases accepted : mergeable name data isTombstone = true
  · unfold Registry.mergeShared
    rw [accepted, Bool.not_true, if_neg Bool.false_ne_true]
    have raised : (manager.raiseClock timestamp).PackedInvariant := invariant.of_same rfl rfl rfl
    exact (refines.raiseClock timestamp).merge raised
      (mergeShared_outcome manager origin name data timestamp isTombstone accepted)
  · unfold FleeceStateManager.mergeShared Registry.mergeShared
    rw [Bool.eq_false_of_not_eq_true accepted, Bool.not_false, if_pos rfl, if_pos rfl]
    exact ⟨rfl, refines⟩

theorem Refines.mergeNamed {manager : FleeceStateManager} {registry : Registry}
    (refines : manager.Refines registry) (invariant : manager.PackedInvariant) (owner : UInt64)
    (name : CString) (data : Blob) (timestamp : UInt64) (isTombstone : Bool) :
    (manager.mergeNamed owner name data timestamp isTombstone).2 =
        (registry.mergeNamed owner name data timestamp isTombstone).2 ∧
      (manager.mergeNamed owner name data timestamp isTombstone).1.Refines
        (registry.mergeNamed owner name data timestamp isTombstone).1 := by
  by_cases accepted : mergeable name data isTombstone = true
  · by_cases own : owner = manager.nodeId
    · unfold FleeceStateManager.mergeNamed Registry.mergeNamed
      rw [accepted, Bool.not_true, if_neg Bool.false_ne_true, if_neg Bool.false_ne_true, if_pos own,
        if_pos (own.trans refines.node.symm)]
      exact ⟨rfl, refines⟩
    · unfold Registry.mergeNamed
      rw [accepted, Bool.not_true, if_neg Bool.false_ne_true, refines.node, if_neg own]
      have raised : ((manager.touchPeer owner).raiseClock timestamp).PackedInvariant :=
        (invariant.touchPeer owner).of_same rfl rfl rfl
      exact ((refines.touchPeer owner).raiseClock timestamp).merge raised
        (mergeNamed_outcome manager owner name data timestamp isTombstone accepted own)
  · unfold FleeceStateManager.mergeNamed Registry.mergeNamed
    rw [Bool.eq_false_of_not_eq_true accepted, Bool.not_false, if_pos rfl, if_pos rfl]
    exact ⟨rfl, refines⟩

theorem mergeSteps_packedInvariant {manager next : FleeceStateManager}
    (steps : Relation.ReflTransGen MergeStep manager next) (invariant : manager.PackedInvariant) :
    next.PackedInvariant :=
  ⟨(mergeSteps_keep steps invariant.store).1, mergeSteps_packed steps invariant.packed⟩

theorem mergeRecords_packedInvariant {manager : FleeceStateManager}
    (invariant : manager.PackedInvariant) (owner : UInt64) (records : List GossipRecord) :
    (manager.mergeRecords owner records).PackedInvariant := by
  induction records generalizing manager with
  | nil => exact invariant
  | cons record rest inductionHypothesis =>
    exact inductionHypothesis (mergeSteps_packedInvariant
      (mergeRecord_steps invariant.store.realNode owner record) invariant)

theorem Refines.mergeRecords {manager : FleeceStateManager} {registry : Registry}
    (refines : manager.Refines registry) (invariant : manager.PackedInvariant) (owner : UInt64)
    (records : List GossipRecord) :
    (manager.mergeRecords owner records).Refines
      (records.foldl (Registry.mergeRecord owner) registry) := by
  induction records generalizing manager registry with
  | nil => exact refines
  | cons record rest inductionHypothesis =>
    have merged : (manager.mergeRecord owner record).Refines (registry.mergeRecord owner record) := by
      unfold FleeceStateManager.mergeRecord Registry.mergeRecord
      split_ifs
      · exact (refines.mergeShared invariant _ _ _ _ _).2
      · exact (refines.mergeNamed invariant _ _ _ _ _).2
    exact inductionHypothesis merged (mergeSteps_packedInvariant
      (mergeRecord_steps invariant.store.realNode owner record) invariant)

/-! ### The records of an owner -/

/-- The records of one owner with their keys, in slot order. -/
def streamOf (manager : FleeceStateManager) (owner : UInt64) : List (UInt32 × GossipRecord) :=
  (manager.slots.filter fun f => f.slotExists && f.nodeId == owner).map fun f => (f.key, f.record)

/-- What reads the slots of one owner reads its records. -/
theorem map_filter_streamOf {Result : Type} (manager : FleeceStateManager) {owner : UInt64}
    {keep : FieldEntry → Bool} {read : FieldEntry → Result}
    {pick : UInt32 × GossipRecord → Bool} {tell : UInt32 × GossipRecord → Result}
    (kept : ∀ f, keep f = (f.slotExists && f.nodeId == owner && pick (f.key, f.record)))
    (told : ∀ f, read f = tell (f.key, f.record)) :
    (manager.slots.filter keep).map read = ((manager.streamOf owner).filter pick).map tell := by
  unfold streamOf
  rw [List.filter_map, List.map_map, List.filter_filter, funext told]
  refine congrArg (List.map _) (List.filter_congr fun f _ => ?_)
  rw [kept f, Bool.and_comm]
  rfl

theorem Refines.stream {manager : FleeceStateManager} {registry : Registry}
    (refines : manager.Refines registry) (distinct : manager.DistinctSlots) (owner : UInt64) :
    registry.stream owner = ↑(manager.streamOf owner) := by
  have listed : manager.streamOf owner = (manager.entries.filter fun entry =>
      decide (entry.1.2 = owner)).map fun entry => (entry.1.1, entry.2) := by
    unfold streamOf slots FleeceStateManager.entries
    refine Slots.map_filter_eq (fun (pair : UInt32 × UInt64) _ => decide (pair.2 = owner))
      (fun (pair : UInt32 × UInt64) record => (pair.1, record)) ?_ ?_ ?_
    · intro f unlabelled
      unfold fieldLabel at unlabelled
      split_ifs at unlabelled with present
      rw [Bool.eq_false_of_not_eq_true present, Bool.false_and]
    · intro f wanted labelled
      obtain ⟨present, _, ownerEq⟩ := fieldLabel_eq_some_iff.mp labelled
      rw [present, ownerEq, Bool.true_and, beq_eq_decide]
    · intro f wanted labelled
      rw [(fieldLabel_eq_some_iff.mp labelled).2.1]
  unfold Registry.stream
  rw [refines.entries distinct, listed, Multiset.filter_coe, Multiset.map_coe]

theorem isLiveNamed_eq (owner : UInt64) (f : FieldEntry) : isLiveNamed owner f =
    (f.slotExists && f.nodeId == owner && (!f.record.isTombstone && f.record.isNamed)) := by
  unfold isLiveNamed
  show (f.slotExists && !f.isTombstone && f.nodeId == owner && f.isNamed) =
    (f.slotExists && f.nodeId == owner && (!f.isTombstone && f.isNamed))
  cases f.slotExists <;> cases f.isTombstone <;> cases f.nodeId == owner <;> rfl

theorem length_liveNamed (manager : FleeceStateManager) (owner : UInt64) :
    (manager.slots.filter (isLiveNamed owner)).length = ((manager.streamOf owner).filter fun entry =>
      !entry.2.isTombstone && entry.2.isNamed).length := by
  have names : (manager.slots.filter (isLiveNamed owner)).map FieldEntry.name =
      ((manager.streamOf owner).filter fun entry =>
        !entry.2.isTombstone && entry.2.isNamed).map fun entry => entry.2.name :=
    map_filter_streamOf manager (isLiveNamed_eq owner) fun _ => rfl
  have count := congrArg List.length names
  rwa [List.length_map, List.length_map] at count

section Streams

variable {manager : FleeceStateManager} {registry : Registry} (refines : manager.Refines registry)
  (distinct : manager.DistinctSlots) (owner : UInt64)
include refines distinct

theorem Refines.named : registry.named owner =
    ↑((manager.streamOf owner).filter fun entry => entry.2.isNamed) := by
  unfold Registry.named
  rw [refines.stream distinct, Multiset.filter_coe]
  simp only [Bool.decide_eq_true]

theorem Refines.liveNamed : registry.liveNamed owner = ↑((manager.streamOf owner).filter fun entry =>
    !entry.2.isTombstone && entry.2.isNamed) := by
  unfold Registry.liveNamed
  rw [refines.named distinct, Multiset.filter_coe, List.filter_filter]
  simp only [Bool.decide_eq_true]

theorem Refines.newer (since : UInt64) : registry.newer owner since =
    ↑((manager.streamOf owner).filter fun entry =>
      decide (since < entry.2.timestamp) && entry.2.isNamed) := by
  unfold Registry.newer
  rw [refines.named distinct, Multiset.filter_coe, List.filter_filter]

theorem Refines.digest : registry.digest owner = manager.computeStreamDigest owner := by
  have listed : (manager.slots.filter (isLiveNamed owner)).map entryDigest =
      ((manager.streamOf owner).filter fun entry =>
        !entry.2.isTombstone && entry.2.isNamed).map fun entry => entry.2.digest :=
    map_filter_streamOf manager (isLiveNamed_eq owner) fun _ => rfl
  unfold Registry.digest computeStreamDigest
  rw [refines.liveNamed distinct, Multiset.map_coe, Multiset.sum_coe, listed]

end Streams

/-- The loop that keeps the greatest timestamp. -/
theorem toNat_maxTimestamp (fields : List FieldEntry) :
    (maxTimestamp fields).toNat = (fields.map fun f => f.timestamp.toNat).foldr max 0 := by
  have loop (stamps : List UInt64) (hw : UInt64) :
      (stamps.foldl (fun hw stamp => if stamp > hw then stamp else hw) hw).toNat =
        max hw.toNat ((stamps.map UInt64.toNat).foldr max 0) := by
    induction stamps generalizing hw with
    | nil => exact (max_eq_left (Nat.zero_le _)).symm
    | cons stamp rest inductionHypothesis =>
      rw [List.foldl_cons, inductionHypothesis, List.map_cons, List.foldr_cons, ← max_assoc]
      refine congrArg (max · _) ?_
      split_ifs with above
      · exact (max_eq_right (UInt64.lt_iff_toNat_lt.mp above).le).symm
      · exact (max_eq_left (UInt64.le_iff_toNat_le.mp (UInt64.not_lt.mp above))).symm
  rw [maxTimestamp_eq_foldl, loop, List.map_map]
  exact max_eq_right (Nat.zero_le _)

/-- The high-water mark of some slots of one owner. -/
theorem maxTimestamp_eq_highWater (manager : FleeceStateManager) {owner : UInt64}
    {keep : FieldEntry → Bool} {pick : UInt32 × GossipRecord → Bool}
    (kept : ∀ f, keep f = (f.slotExists && f.nodeId == owner && pick (f.key, f.record))) :
    maxTimestamp (manager.slots.filter keep) =
      Registry.highWater ↑((manager.streamOf owner).filter pick) := by
  have read : (manager.slots.filter keep).map (fun f => f.timestamp.toNat) =
      ((manager.streamOf owner).filter pick).map fun entry => entry.2.timestamp.toNat :=
    map_filter_streamOf manager kept fun _ => rfl
  refine UInt64.toNat_inj.mp ?_
  unfold Registry.highWater
  rw [toNat_maxTimestamp, read, Multiset.map_coe, Multiset.sup_coe, UInt64.toNat_ofNat']
  refine (Nat.mod_eq_of_lt ?_).symm
  rw [← read]
  exact (toNat_maxTimestamp _).symm ▸ UInt64.toNat_lt _

/-! ### Listings -/

/-- One turn of the loop of `list_nodes`. -/
def listNodesStep (maxNodes : Nat) (out : List UInt64) (f : FieldEntry) : List UInt64 :=
  if out.length < maxNodes && f.slotExists && !f.isTombstone && f.nodeId != sharedOwnerId &&
      !out.contains f.nodeId then
    out ++ [f.nodeId]
  else out

/-- The slots whose owners `list_nodes` reports. -/
def isLiveOwned (f : FieldEntry) : Bool :=
  f.slotExists && (!f.isTombstone && f.nodeId != sharedOwnerId)

theorem listNodesStep_eq (maxNodes : Nat) (out : List UInt64) (f : FieldEntry) :
    listNodesStep maxNodes out f =
      if isLiveOwned f = true ∧ f.nodeId ∉ out ∧ out.length < maxNodes then out ++ [f.nodeId]
      else out := by
  unfold listNodesStep isLiveOwned
  congr 1
  simp only [Bool.and_eq_true, decide_eq_true_eq, Bool.not_eq_true', List.contains_eq_mem,
    decide_eq_false_iff_not, eq_iff_iff]
  tauto

/-- The loop of `list_nodes` lists owners once each, as many as there is room for. -/
theorem listNodes_loop (maxNodes : Nat) (fields : List FieldEntry) (out : List UInt64)
    (distinct : out.Nodup) (short : out.length ≤ maxNodes) :
    (fields.foldl (listNodesStep maxNodes) out).Nodup ∧
      (fields.foldl (listNodesStep maxNodes) out).toFinset ⊆
        out.toFinset ∪ ((fields.filter isLiveOwned).map FieldEntry.nodeId).toFinset ∧
      (fields.foldl (listNodesStep maxNodes) out).length = min maxNodes
        (out.toFinset ∪ ((fields.filter isLiveOwned).map FieldEntry.nodeId).toFinset).card := by
  induction fields generalizing out with
  | nil =>
    rw [List.filter_nil, List.map_nil, List.toFinset_nil, Finset.union_empty,
      List.toFinset_card_of_nodup distinct, min_eq_right short]
    exact ⟨distinct, Finset.Subset.refl _, rfl⟩
  | cons f rest inductionHypothesis =>
    have candidates : ((f :: rest).filter isLiveOwned).map FieldEntry.nodeId =
        (if isLiveOwned f then [f.nodeId] else []) ++
          (rest.filter isLiveOwned).map FieldEntry.nodeId := by
      rw [List.filter_cons]
      split_ifs <;> rfl
    rw [candidates, List.toFinset_append, ← Finset.union_assoc, List.foldl_cons]
    by_cases taken : isLiveOwned f = true
    · rw [if_pos taken, ← List.toFinset_append]
      by_cases known : f.nodeId ∈ out
      · -- a known owner adds nothing
        have same : listNodesStep maxNodes out f = out := by
          rw [listNodesStep_eq, if_neg fun listed => listed.2.1 known]
        have union : (out ++ [f.nodeId]).toFinset = out.toFinset := by
          rw [List.toFinset_append]
          refine Finset.union_eq_left.mpr fun owner member => ?_
          rw [List.mem_toFinset] at member ⊢
          exact List.mem_singleton.mp member ▸ known
        rw [same, union]
        exact inductionHypothesis out distinct short
      · by_cases room : out.length < maxNodes
        · have added : listNodesStep maxNodes out f = out ++ [f.nodeId] := by
            rw [listNodesStep_eq, if_pos ⟨taken, known, room⟩]
          rw [added]
          refine inductionHypothesis _ ?_ ?_
          · rw [← List.concat_eq_append]
            exact .concat known distinct
          · rw [List.length_append, List.length_singleton]
            exact room
        · -- the list is full, and stays as it is
          have same : listNodesStep maxNodes out f = out := by
            rw [listNodesStep_eq, if_neg fun listed => room listed.2.2]
          rw [same]
          obtain ⟨nodup, subset, length⟩ := inductionHypothesis out distinct short
          have full : out.toFinset.card = maxNodes := by
            rw [List.toFinset_card_of_nodup distinct]
            exact le_antisymm short (not_lt.mp room)
          have wider : out.toFinset ⊆ (out ++ [f.nodeId]).toFinset := by
            rw [List.toFinset_append]
            exact Finset.subset_union_left
          refine ⟨nodup, subset.trans (Finset.union_subset_union_left wider), length.trans ?_⟩
          rw [min_eq_left, min_eq_left]
          · exact full ▸ Finset.card_le_card (wider.trans Finset.subset_union_left)
          · exact full ▸ Finset.card_le_card Finset.subset_union_left
    · have same : listNodesStep maxNodes out f = out := by
        rw [listNodesStep_eq, if_neg fun listed => taken listed.1]
      rw [if_neg taken, List.toFinset_nil, Finset.union_empty, same]
      exact inductionHypothesis out distinct short

theorem Refines.nodes {manager : FleeceStateManager} {registry : Registry}
    (refines : manager.Refines registry) (distinct : manager.DistinctSlots) :
    registry.nodes = ((manager.slots.filter isLiveOwned).map FieldEntry.nodeId).toFinset := by
  have listed : (manager.slots.filter isLiveOwned).map FieldEntry.nodeId =
      (manager.entries.filter fun entry =>
        !entry.2.isTombstone && entry.1.2 != sharedOwnerId).map fun entry => entry.1.2 := by
    unfold slots FleeceStateManager.entries
    refine Slots.map_filter_eq
      (fun (pair : UInt32 × UInt64) (record : GossipRecord) =>
        !record.isTombstone && pair.2 != sharedOwnerId)
      (fun (pair : UInt32 × UInt64) _ => pair.2) ?_ ?_ ?_
    · intro f unlabelled
      unfold fieldLabel at unlabelled
      split_ifs at unlabelled with present
      rw [isLiveOwned, Bool.eq_false_of_not_eq_true present, Bool.false_and]
    · intro f wanted labelled
      obtain ⟨present, _, owner⟩ := fieldLabel_eq_some_iff.mp labelled
      rw [isLiveOwned, present, owner, Bool.true_and]
      rfl
    · intro f wanted labelled
      exact (fieldLabel_eq_some_iff.mp labelled).2.2
  unfold Registry.nodes
  rw [refines.entries distinct, listed, Multiset.filter_coe, Multiset.map_coe]
  simp only [Bool.decide_eq_true]
  rfl

/-! ### Exports -/

theorem isExported_eq (owner since : UInt64) (f : FieldEntry) : isExported owner since f =
    (f.slotExists && f.nodeId == owner && (decide (since < f.record.timestamp) &&
      f.record.isNamed)) := by
  have later : (!decide (f.timestamp ≤ since)) = decide (since < f.timestamp) := by
    rw [Bool.eq_iff_iff, Bool.not_eq_true', decide_eq_false_iff_not, decide_eq_true_iff,
      UInt64.not_le]
  unfold isExported
  rw [later, Bool.and_assoc]
  exact congrArg _ (Bool.and_comm _ _)

theorem isNamedOf_eq (owner : UInt64) (f : FieldEntry) :
    (f.slotExists && f.nodeId == owner && f.isNamed) =
      (f.slotExists && f.nodeId == owner && f.record.isNamed) := rfl

section Exports

variable {manager : FleeceStateManager} {registry : Registry} (refines : manager.Refines registry)
  (invariant : manager.StoreInvariant)
include refines invariant

theorem Refines.exports (owner since : UInt64) :
    registry.Exports owner since (.frame (manager.exportFieldsSince owner since)) := by
  have records : (manager.slots.filter (isExported owner since)).map FieldEntry.record =
      ((manager.streamOf owner).filter fun entry =>
        decide (since < entry.2.timestamp) && entry.2.isNamed).map Prod.snd :=
    map_filter_streamOf manager (isExported_eq owner since) fun _ => rfl
  refine ⟨_, rfl, _, exportFieldsSince_eq invariant owner since, refines.node.symm, rfl, ?_,
    (refines.digest invariant.distinct owner).symm, ?_⟩
  · rw [refines.named invariant.distinct]
    exact maxTimestamp_eq_highWater manager (isNamedOf_eq owner)
  · rw [refines.newer invariant.distinct, Multiset.map_coe]
    exact congrArg _ records

theorem Refines.exportSharedIndex :
    registry.Answers .exportSharedIndex (.frame manager.exportSharedIndex) := by
  have pairs : (manager.slots.filter (isLiveNamed sharedOwnerId)).map
      (fun f => (f.key, f.timestamp)) =
      ((manager.streamOf sharedOwnerId).filter fun entry =>
        !entry.2.isTombstone && entry.2.isNamed).map fun entry => (entry.1, entry.2.timestamp) :=
    map_filter_streamOf manager (isLiveNamed_eq sharedOwnerId) fun _ => rfl
  refine ⟨(manager.slots.filter (isLiveNamed sharedOwnerId)).map fun f => (f.key, f.timestamp),
    ?_, ?_⟩
  · unfold FleeceStateManager.exportSharedIndex Registry.Answers.indexFrame
    rw [List.length_map, List.flatMap_map, refines.node]
  · rw [refines.liveNamed invariant.distinct, Multiset.map_coe, pairs]

omit refines invariant in
/-- The first pass of the value reply takes some of the entries asked for, in their order. -/
theorem taken_sublist (hashes : List UInt32) (live : List FieldEntry) (reply : ValueReply) :
    ((live.foldl (takeByHash hashes) reply).taken).Sublist
      (reply.taken ++ live.filter fun f => hashes.contains f.key) := by
  induction live generalizing reply with
  | nil =>
    rw [List.filter_nil, List.append_nil]
    exact List.Sublist.refl _
  | cons f rest inductionHypothesis =>
    refine (inductionHypothesis (takeByHash hashes reply f)).trans ?_
    have turn : (takeByHash hashes reply f).taken.Sublist
        (reply.taken ++ if hashes.contains f.key then [f] else []) := by
      unfold takeByHash
      simp only
      cases hashes.contains f.key with
      | false => exact List.sublist_append_left _ _
      | true =>
        simp only [Bool.not_true, Bool.false_eq_true, if_false, if_true]
        split
        · exact List.sublist_append_left _ _
        · exact List.Sublist.refl _
    have split : (f :: rest).filter (fun f => hashes.contains f.key) =
        (if hashes.contains f.key then [f] else []) ++
          rest.filter fun f => hashes.contains f.key := by
      rw [List.filter_cons]
      split_ifs <;> rfl
    rw [split, ← List.append_assoc]
    exact turn.append (List.Sublist.refl _)

omit refines invariant in
theorem takeByHash_hw (hashes : List UInt32) (reply : ValueReply) (f : FieldEntry) :
    (takeByHash hashes reply f).hw = if f.timestamp > reply.hw then f.timestamp else reply.hw := by
  unfold takeByHash
  simp only
  split
  · rfl
  · split <;> rfl

omit refines invariant in
theorem selectByHash_hw (hashes : List UInt32) (live : List FieldEntry) (reply : ValueReply) :
    (live.foldl (takeByHash hashes) reply).hw =
      live.foldl (fun hw f => if f.timestamp > hw then f.timestamp else hw) reply.hw := by
  induction live generalizing reply with
  | nil => rfl
  | cons f rest inductionHypothesis =>
    rw [List.foldl_cons, List.foldl_cons, inductionHypothesis, takeByHash_hw]

theorem Refines.exportSharedByHash (hashes : List UInt32) :
    registry.Answers (.exportSharedByHash hashes)
      (.frame (manager.exportSharedByHash hashes)) := by
  let taken := (manager.selectByHash hashes).taken
  have asked : taken.Sublist ((manager.slots.filter (isLiveNamed sharedOwnerId)).filter
      fun f => hashes.contains f.key) := taken_sublist hashes _ _
  have records : ((manager.slots.filter (isLiveNamed sharedOwnerId)).filter
      fun f => hashes.contains f.key).map (fun f => (f.key, f.record)) =
      (((manager.streamOf sharedOwnerId).filter fun entry =>
        !entry.2.isTombstone && entry.2.isNamed).filter fun entry => decide (entry.1 ∈ hashes)) := by
    rw [List.filter_filter, List.filter_filter, ← List.map_id (List.filter _ (manager.streamOf _))]
    refine map_filter_streamOf manager (fun f => ?_) fun _ => rfl
    rw [isLiveNamed_eq, Bool.and_comm, Bool.and_assoc, List.contains_eq_mem]
    exact congrArg _ (Bool.and_comm _ _)
  refine ⟨↑(taken.map fun f => (f.key, f.record)), ?_, _, rfl, _,
    exportSharedByHash_eq manager hashes, refines.node.symm, rfl, ?_,
    (refines.digest invariant.distinct _).symm, ?_⟩
  · rw [refines.liveNamed invariant.distinct, Multiset.filter_coe, ← records]
    exact Multiset.coe_le.mpr (asked.map _).subperm
  · rw [refines.liveNamed invariant.distinct]
    refine Eq.trans (selectByHash_hw hashes _ _) ?_
    exact maxTimestamp_eq_highWater manager (isLiveNamed_eq sharedOwnerId)
  · rw [Multiset.map_coe, List.map_map]
    rfl

theorem Refines.exportSharedDeltaBounded (since : UInt64) (capBytes : Nat) :
    ∃ records ≤ registry.newer sharedOwnerId since, registry.Frames sharedOwnerId
      (Registry.highWater (registry.stream sharedOwnerId)) records
      (manager.exportSharedDeltaBounded since capBytes).frame := by
  have asked : ((manager.takenSlots since capBytes).map manager.fields).Sublist
      (manager.slots.filter (isExported sharedOwnerId since)) := by
    unfold slots
    rw [List.ofFn_eq_map, List.filter_map]
    refine List.Sublist.map _ (List.monotone_filter_right _ fun i taken => ?_)
    exact isExported_of_mem_takenSlots (List.mem_filter.mpr ⟨List.mem_finRange i, taken⟩)
  have records : (manager.slots.filter (isExported sharedOwnerId since)).map
      (fun f => (f.key, f.record)) = (manager.streamOf sharedOwnerId).filter fun entry =>
        decide (since < entry.2.timestamp) && entry.2.isNamed := by
    rw [← List.map_id (List.filter _ (manager.streamOf _))]
    exact map_filter_streamOf manager (isExported_eq sharedOwnerId since) fun _ => rfl
  refine ⟨↑(((manager.takenSlots since capBytes).map manager.fields).map
    fun f => (f.key, f.record)), ?_, _, exportSharedDeltaBounded_eq invariant since capBytes,
    refines.node.symm, rfl, ?_, (refines.digest invariant.distinct _).symm, ?_⟩
  · rw [refines.newer invariant.distinct, ← records]
    exact Multiset.coe_le.mpr (asked.map _).subperm
  · have all : manager.streamOf sharedOwnerId =
        (manager.streamOf sharedOwnerId).filter fun _ => true := (List.filter_true _).symm
    rw [refines.stream invariant.distinct, all]
    refine maxTimestamp_eq_highWater manager fun f => ?_
    rw [Bool.and_true]
  · rw [Multiset.map_coe, List.map_map]
    rfl

end Exports

/-! ### Every operation -/

section Reads

variable {manager : FleeceStateManager} {registry : Registry} (refines : manager.Refines registry)
include refines

theorem Refines.live : registry.live = manager.liveView := by
  funext pair
  unfold Registry.live liveView
  rw [refines.view]

/-- What is read of a live field is read of its record. -/
theorem Refines.found {Result : Type} (key : UInt32) (owner : UInt64)
    (read : FieldEntry → Result) (tell : GossipRecord → Result)
    (told : ∀ f, f.nodeId = owner → read f = tell f.record) :
    (manager.findFieldOwned key owner).map (fun i => read (manager.fields i)) =
      (registry.live (key, owner)).map tell := by
  rw [refines.live, ← map_findFieldOwned, Option.map_map]
  cases found : manager.findFieldOwned key owner with
  | none => rfl
  | some i =>
    have slot := (findSlotOwned_of_findFieldOwned found).1
    exact congrArg some (told _ (label_of_findSlotOwned slot).2.2)

theorem Refines.answers (invariant : manager.StoreInvariant) (asked : Query) :
    registry.Answers asked (asked.answer manager) := by
  have distinct := invariant.distinct
  have value (key : UInt32) (owner : UInt64) :
      manager.readSlot (manager.findFieldOwned key owner) =
        (registry.live (key, owner)).map GossipRecord.data :=
    refines.found key owner FieldEntry.data GossipRecord.data fun _ _ => rfl
  have flag (key : UInt32) (owner : UInt64) :
      (manager.findFieldOwned key owner).isSome = (registry.live (key, owner)).isSome := by
    rw [refines.live, ← map_findFieldOwned, Option.isSome_map]
  have mark (owner : UInt64) :
      manager.maxTimestampForOwner owner = Registry.highWater (registry.stream owner) := by
    rw [refines.stream distinct, ← List.filter_true (manager.streamOf owner)]
    refine maxTimestamp_eq_highWater manager fun f => ?_
    rw [Bool.and_true]
  cases asked with
  | get key =>
    show Output.value _ = .value _
    rw [refines.node]
    exact congrArg Output.value (value key manager.nodeId)
  | existsField key =>
    show Output.flag _ = .flag _
    rw [refines.node]
    exact congrArg Output.flag (flag key manager.nodeId)
  | getVersion key =>
    show Output.version _ = .version _
    have version : manager.getVersion key = (registry.live (key, manager.nodeId)).map fun record =>
        ⟨record.timestamp, manager.nodeId, record.data.size⟩ := by
      unfold FleeceStateManager.getVersion findField
      refine refines.found key manager.nodeId
        (fun f => FleeceFieldVersion.mk f.timestamp f.nodeId f.data.size)
        (fun record => ⟨record.timestamp, manager.nodeId, record.data.size⟩) fun f owned => ?_
      rw [owned]
      rfl
    rw [refines.node, version]
  | getNamed owner name => exact congrArg Output.value (value (hashName name) owner)
  | existsNamed owner name => exact congrArg Output.flag (flag (hashName name) owner)
  | getMetaNamed owner name =>
    show Output.metadata _ _ _ = _
    rw [refines.live, ← map_findFieldOwned]
    unfold getMetaNamed
    cases manager.findFieldOwned (hashName name) owner with
    | none => rfl
    | some i => rfl
  | sharedAtLeast keyHash timestamp =>
    show Output.code _ = .code _
    rw [refines.view]
    unfold FleeceStateManager.sharedAtLeast
    cases found : manager.findSlotOwned keyHash sharedOwnerId with
    | none =>
      rw [view_eq_none_iff.mpr found]
      rfl
    | some i =>
      rw [view_of_findSlotOwned found]
      rfl
  | listNodes maxNodes =>
    obtain ⟨nodup, subset, length⟩ := listNodes_loop maxNodes manager.slots [] List.nodup_nil
      (Nat.zero_le _)
    rw [List.toFinset_nil, Finset.empty_union, ← refines.nodes distinct] at subset length
    exact ⟨_, rfl, nodup, subset, length⟩
  | listFields owner maxNames =>
    have names : (manager.slots.filter (isLiveNamed owner)).map FieldEntry.name =
        ((manager.streamOf owner).filter fun entry =>
          !entry.2.isTombstone && entry.2.isNamed).map fun entry => entry.2.name :=
      map_filter_streamOf manager (isLiveNamed_eq owner) fun _ => rfl
    refine ⟨_, rfl, ?_, ?_⟩
    · rw [refines.liveNamed distinct, Multiset.map_coe, ← names]
      exact Multiset.coe_le.mpr (List.take_sublist _ _).subperm
    · rw [refines.liveNamed distinct, Multiset.coe_card, ← length_liveNamed]
      refine List.length_take.trans ?_
      rw [List.length_map]
  | streamDigest owner => exact congrArg Output.word (refines.digest distinct owner).symm
  | selfHw =>
    show Output.word _ = .word _
    rw [refines.node]
    exact congrArg Output.word (mark manager.nodeId)
  | sharedHw => exact congrArg Output.word (mark sharedOwnerId)
  | peerSelfHw peerId =>
    show Output.word _ = .word _
    unfold getPeerSelfHw
    rw [mark peerId]
  | countNewShared since =>
    have records : (manager.slots.filter (isExported sharedOwnerId since)).map FieldEntry.record =
        ((manager.streamOf sharedOwnerId).filter fun entry =>
          decide (since < entry.2.timestamp) && entry.2.isNamed).map Prod.snd :=
      map_filter_streamOf manager (isExported_eq sharedOwnerId since) fun _ => rfl
    show Output.count _ = .count _
    rw [refines.newer distinct, Multiset.coe_card, ← List.length_map Prod.snd, ← records,
      List.length_map]
    rfl
  | exportFrame =>
    show registry.Exports registry.nodeId 0 _
    rw [refines.node]
    exact refines.exports invariant manager.nodeId 0
  | exportDelta since =>
    show registry.Exports registry.nodeId since _
    rw [refines.node]
    exact refines.exports invariant manager.nodeId since
  | exportShared => exact refines.exports invariant sharedOwnerId 0
  | exportSharedDelta since => exact refines.exports invariant sharedOwnerId since
  | exportSharedIndex => exact refines.exportSharedIndex invariant
  | exportSharedByHash hashes => exact refines.exportSharedByHash invariant hashes
  | listHeardPeers maxNodes => trivial
  | ticksSinceSeen nodeId => trivial
  | ticksSinceLastWrite => trivial

end Reads

theorem Refines.importFrom {manager : FleeceStateManager} {registry : Registry}
    (refines : manager.Refines registry) (invariant : manager.PackedInvariant) (frame : Blob) :
    ((Operation.importFrom frame).exec manager).2 = (registry.importFrom frame).2 ∧
      (manager.importFrom frame).manager.Refines (registry.importFrom frame).1 := by
  rw [importFrom_output]
  have imported := importFrom_manager manager frame
  unfold Registry.importFrom
  rw [refines.node]
  cases read : parseFrame manager.nodeId frame with
  | error halt =>
    rw [read] at imported
    rw [imported]
    exact ⟨rfl, refines⟩
  | ok parsed =>
    rw [read] at imported
    simp only at imported ⊢
    have touched := invariant.touchPeer parsed.senderNodeId
    have refinesNext := (refines.touchPeer parsed.senderNodeId).mergeRecords touched
      parsed.ownerNodeId parsed.records
    have next := mergeRecords_packedInvariant touched parsed.ownerNodeId parsed.records
    rw [imported, refinesNext.digest next.store.distinct]
    refine ⟨?_, refinesNext⟩
    cases parsed.code <;> rfl

/-- One operation, apart from `compact`: the array moves as the map does, and returns what it
says. -/
theorem Refines.operation {manager : FleeceStateManager} {registry : Registry}
    (refines : manager.Refines registry) (invariant : manager.PackedInvariant)
    {operation : Operation} (stays : operation ≠ .compact) :
    (operation.next manager).Refines (registry.next operation) ∧
      registry.Returns operation (operation.exec manager).2 := by
  cases operation with
  | write change =>
    obtain ⟨code, next⟩ := refines.write invariant change
    exact ⟨next, congrArg Output.code code⟩
  | query asked => exact ⟨refines, refines.answers invariant.store asked⟩
  | mergeNamed owner name data timestamp isTombstone =>
    obtain ⟨code, next⟩ := refines.mergeNamed invariant owner name data timestamp isTombstone
    exact ⟨next, congrArg Output.code code⟩
  | mergeShared origin name data timestamp isTombstone =>
    obtain ⟨code, next⟩ := refines.mergeShared invariant origin name data timestamp isTombstone
    exact ⟨next, congrArg Output.code code⟩
  | importFrom frame => exact (refines.importFrom invariant frame).symm
  | exportSharedDeltaBounded since capBytes =>
    obtain ⟨records, some, frames⟩ :=
      refines.exportSharedDeltaBounded invariant.store since capBytes
    refine ⟨?_, records, some, _, _, rfl, frames⟩
    obtain ⟨rest, same⟩ := markSteps_rest (exportSharedDeltaBounded_steps manager since capBytes)
    refine ⟨?_, ?_, refines.view.trans (view_of_unmarked same).symm⟩
    · exact refines.node
    · exact refines.clock
  | tick => exact ⟨refines.of_same rfl rfl rfl, rfl⟩
  | compact => exact absurd rfl stays

/-! ### Runs -/

theorem PackedInvariant.operation {manager : FleeceStateManager}
    (invariant : manager.PackedInvariant) {operation : Operation} (stays : operation ≠ .compact) :
    (operation.next manager).PackedInvariant :=
  ⟨operation_storeInvariant invariant.store operation,
    operation_packed invariant.store invariant.packed stays⟩

/-- An operation on some pairs leaves the record of every other pair as it is. -/
theorem PackedInvariant.view_next {manager : FleeceStateManager}
    (invariant : manager.PackedInvariant) {operation : Operation} (stays : operation ≠ .compact)
    {pair : UInt32 × UInt64} (untouched : pair ∉ operation.touched manager.nodeId) :
    (operation.next manager).view pair = manager.view pair := by
  obtain ⟨registry, refines⟩ := exists_refines invariant.store.distinct
  rw [← (refines.operation invariant stays).1.view, ← refines.view]
  refine Registry.view_next_of_untouched stays ?_
  rwa [refines.node]

theorem Refines.run {manager : FleeceStateManager} {registry : Registry}
    (refines : manager.Refines registry) (invariant : manager.PackedInvariant)
    {operations : List Operation} (uncompacted : .compact ∉ operations) :
    (manager.after operations).Refines (runFrom Registry.next registry operations) := by
  induction operations generalizing manager registry with
  | nil => exact refines
  | cons operation rest inductionHypothesis =>
    have stays : operation ≠ .compact := fun same => uncompacted (same ▸ List.mem_cons_self)
    exact inductionHypothesis (refines.operation invariant stays).1 (invariant.operation stays)
      fun member => uncompacted (List.mem_cons_of_mem _ member)

/-- In every state a run without `compact` reaches, the array is a finite map: a pair has at most
one slot, the existing slots are those before `field_count`, there are at most as many as the
capacity, and a slot of another owner has a name. The run of the map on the same operations has
the same record under every pair, every further operation returns what the map says, and it
leaves alone every pair it is not about. -/
theorem slots_refine_map {nodeId : UInt64} {manager : FleeceStateManager}
    (created : createWithNodeId nodeId = some manager) (operations : List Operation)
    (uncompacted : .compact ∉ operations) :
    (manager.after operations).DistinctSlots ∧
      (∀ i, ((manager.after operations).fields i).slotExists = true ↔
        i.val < (manager.after operations).fieldCount) ∧
      (manager.after operations).fieldCount ≤ fieldCapacity ∧
      (∀ i, ((manager.after operations).fields i).slotExists = true →
        ((manager.after operations).fields i).nodeId ≠ nodeId →
        ((manager.after operations).fields i).isNamed = true) ∧
      (manager.after operations).view =
        (runFrom Registry.next (.create nodeId) operations).view ∧
      ∀ operation, operation ≠ .compact →
        (runFrom Registry.next (.create nodeId) operations).Returns operation
          (operation.exec (manager.after operations)).2 ∧
        ∀ pair ∉ operation.touched nodeId,
          (operation.next (manager.after operations)).view pair =
            (manager.after operations).view pair := by
  have refines := (refines_create created).run (packedInvariant_create created) uncompacted
  have invariant := packedInvariant_after created uncompacted
  have node := node_after created operations
  refine ⟨invariant.store.distinct, invariant.packed, invariant.store.countLe, ?_,
    refines.view.symm, fun operation stays => ?_⟩
  · rw [← node]
    exact invariant.store.named
  · refine ⟨(refines.operation invariant stays).2, fun pair untouched => ?_⟩
    rw [← node] at untouched
    exact invariant.view_next stays untouched

/-- A raw-key field that is deleted and set again is one pair of the map, under its last value. -/
theorem slots_refine_map_revived :
    let value : Blob := ⟨[1], by decide⟩
    let operations := [Operation.write (.set 5 value), .write (.remove 5), .write (.set 5 value)]
    ((blank 7).after operations).fieldCount = 1 ∧
      (runFrom Registry.next (.create 7) operations).view (5, 7) =
        some ⟨7, false, .empty, 3, value⟩ ∧
      (runFrom Registry.next (.create 7) operations).Returns (.query (.get 5))
        (.value (some value)) := by
  intro value operations
  obtain ⟨_, _, _, _, view, step⟩ := slots_refine_map
    (show createWithNodeId 7 = some (blank 7) from rfl) operations (by simp [operations])
  have held : ((blank 7).after operations).view (5, 7) = some ⟨7, false, .empty, 3, value⟩ := by
    decide +kernel
  have answer : ((Operation.query (.get 5)).exec ((blank 7).after operations)).2 =
      .value (some value) := by decide +kernel
  refine ⟨by decide +kernel, (congrFun view (5, 7)).symm.trans held, ?_⟩
  rw [← answer]
  exact (step (.query (.get 5)) nofun).1

end FleeceStateManager

end Fleece
