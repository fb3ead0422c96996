/-
This file is about a snapshot that is taken after a commit. The commit writes the
fields of the blackboard and removes nothing, so a field that the blackboard lacks
is in the next snapshot again; one that moved from self to the world is read from
the world, which is read last, and one that moved the other way stays there.

So the next snapshot is the committed blackboard if and only if no two names have
one slot, every field that was committed comes among the first 64 of its namespace,
and every field that was dropped comes after them or moved to the world.
-/

import Fleece.Commit

namespace Fleece

/-- A call of `fleece_goap_bb_set` or `fleece_goap_bb_delete`. -/
inductive BbCall where
  | set (call : SetCall)
  | delete (name : CString)

namespace FleeceGoapBlackboard

/-- The blackboard after the calls, whatever they return. -/
def applyCalls (bb : FleeceGoapBlackboard) (calls : List BbCall) : FleeceGoapBlackboard :=
  calls.foldl (fun bb call =>
    match call with
    | .set call => (bb.set call.name call.data call.isShared).1
    | .delete name => (bb.delete name).1) bb

end FleeceGoapBlackboard

namespace FleeceStateManager

/-- The next snapshot has the fields, the namespaces and the bytes that were committed. -/
def ReturnsCommitted (manager : FleeceStateManager) (bb : FleeceGoapBlackboard) : Prop :=
  (manager.bbCommit bb).1.snapshot.fields.Perm bb.fields

/-- A slot is free for every field that has none. -/
def HasSlotsFor (manager : FleeceStateManager) (bb : FleeceGoapBlackboard) : Prop :=
  manager.fieldCount + (bb.fields.filter fun field =>
    (manager.view (manager.pairOf field.place)).isNone).length ≤ fieldCapacity

/-- The fields have names and slots of their own: no two of them share a hash in one namespace, and
none has the hash and the bytes of a live field with another name. -/
structure OwnSlots (manager : FleeceStateManager) (bb : FleeceGoapBlackboard) : Prop where
  named : ∀ field ∈ bb.fields, field.name.chars ≠ []
  apart : ∀ field ∈ bb.fields, ∀ other ∈ bb.fields,
    manager.pairOf field.place = manager.pairOf other.place → field = other
  shown : ∀ field ∈ bb.fields, ∀ record,
    manager.liveView (manager.pairOf field.place) = some record →
      record.data = field.data → record.name = field.name

/-- The blackboard has a field of its namespace and its hash. -/
def StaysIn (manager : FleeceStateManager) (bb : FleeceGoapBlackboard) (field : FleeceGoapField) :
    Prop :=
  ∃ other ∈ bb.fields, manager.pairOf other.place = manager.pairOf field.place

/-- The pairs that have a slot, in slot order. -/
def pairs (manager : FleeceStateManager) : List (UInt32 × UInt64) :=
  manager.slots.filterMap fieldLabel

/-- The pairs that have a slot once the blackboard is committed, in slot order. -/
def pairsWith (manager : FleeceStateManager) (bb : FleeceGoapBlackboard) :
    List (UInt32 × UInt64) :=
  manager.pairs ++ (bb.fields.map fun field => manager.pairOf field.place).filter fun pair =>
    (manager.view pair).isNone

/-- The first 64 of a namespace among the fields of the blackboard and the live named fields of the
store, in slot order. -/
def listingWith (manager : FleeceStateManager) (bb : FleeceGoapBlackboard) (isShared : Bool) :
    List (UInt32 × UInt64) :=
  ((manager.pairsWith bb).filter fun pair =>
    pair.2 == manager.ownerOf isShared &&
      (decide (pair ∈ bb.fields.map fun field => manager.pairOf field.place) ||
        (manager.liveView pair).any GossipRecord.isNamed)).take snapshotNameMax

/-- The next listing has every field of the blackboard, and a field of the snapshot that the
blackboard lacks only if it moved from self to the world. -/
structure ListsCommitted (manager : FleeceStateManager) (bb : FleeceGoapBlackboard) : Prop where
  listed : ∀ field ∈ bb.fields, manager.pairOf field.place ∈ manager.listingWith bb field.isShared
  gone : ∀ field ∈ manager.snapshot.fields, manager.StaysIn bb field ∨
    manager.pairOf field.place ∉ manager.listingWith bb field.isShared ∨
      (field.isShared = false ∧ ∃ other ∈ bb.fields, other.place = (field.name.toCString, true))

/-! ### Live fields by pair -/

section Fields

variable {manager : FleeceStateManager}

theorem ownerOf_inj (store : manager.StoreInvariant) {first second : Bool}
    (same : manager.ownerOf first = manager.ownerOf second) : first = second := by
  unfold ownerOf at same
  cases first <;> cases second
  · rfl
  · exact absurd same store.realNode
  · exact absurd same.symm store.realNode
  · rfl

/-- A live named field is the live record under the pair of its name. -/
theorem holdsField_iff (store : manager.StoreInvariant) (keyed : manager.Keyed) {place : Place}
    {data : Blob} : manager.HoldsField place data ↔ place.1.chars ≠ [] ∧
      ∃ record, manager.liveView (manager.pairOf place) = some record ∧
        record.name.toCString = place.1 ∧ record.data = data := by
  constructor
  · rintro ⟨i, live, name, value⟩
    obtain ⟨carried, alive⟩ := carried_of_isLiveNamed (mem_slots.mpr ⟨i, rfl⟩) live
    have label : liveLabel (manager.fields i) = some (manager.pairOf place) := by
      refine liveLabel_eq_some_iff.mpr
        ⟨fieldLabel_eq_some_iff.mpr ⟨carried.2.1, ?_, carried.2.2.1⟩, alive⟩
      rw [keyed i carried.2.1 carried.2.2.2, name]
    refine ⟨?_, (manager.fields i).record, ?_, name, value⟩
    · rw [← name]
      exact GossipRecord.isNamed_iff.mp
        (show (manager.fields i).record.isNamed = true from carried.2.2.2)
    · rw [liveView_eq store.distinct,
        Slots.lookup_eq_of_label (distinct_liveLabel store.distinct) label]
      rfl
  · rintro ⟨nonempty, record, live, name, value⟩
    obtain ⟨held, alive⟩ := Option.filter_eq_some_iff.mp live
    obtain ⟨f, found, rfl⟩ := Option.map_eq_some_iff.mp held
    obtain ⟨i, rfl, present, key, owned⟩ := exists_of_lookup found
    refine ⟨i, ?_, name, value⟩
    have named : (manager.fields i).record.isNamed = true :=
      GossipRecord.isNamed_iff.mpr (by rwa [name])
    rw [isLiveNamed_eq, present, owned, alive, named]
    simp only [pairOf, beq_self_eq_true, Bool.and_self]

end Fields

/-! ### Slot order -/

section Order

/-- A label that is put in behind all others comes last. -/
theorem filterMap_ofFn_update {α β : Type} {label : α → Option β} {a : α} {b : β}
    (new : label a = some b) {n : Nat} {f : Fin n → α} {place : Fin n}
    (last : ∀ i, place ≤ i → label (f i) = none) :
    (List.ofFn (Function.update f place a)).filterMap label =
      (List.ofFn f).filterMap label ++ [b] := by
  induction n with
  | zero => exact place.elim0
  | succ n inductionHypothesis =>
    rw [List.ofFn_succ, List.ofFn_succ, List.filterMap_cons, List.filterMap_cons]
    cases place using Fin.cases with
    | zero =>
      have rest : (List.ofFn fun i : Fin n => f i.succ).filterMap label = [] := by
        refine List.filterMap_eq_nil_iff.mpr fun x member => ?_
        obtain ⟨i, rfl⟩ := List.mem_ofFn.mp member
        exact last i.succ (Fin.zero_le _)
      have same : (fun i : Fin n => Function.update f 0 a i.succ) = fun i => f i.succ :=
        funext fun i => Function.update_of_ne (Fin.succ_ne_zero i) _ _
      rw [same, rest, Function.update_self, new, last 0 le_rfl]
      rfl
    | succ place =>
      have same : (fun i : Fin n => Function.update f place.succ a i.succ) =
          Function.update (fun i : Fin n => f i.succ) place a :=
        Function.update_comp_eq_of_injective f (Fin.succ_injective n) place a
      rw [same, inductionHypothesis fun i after => last i.succ (Fin.succ_le_succ_iff.mpr after),
        Function.update_of_ne (Fin.succ_ne_zero place).symm]
      cases label (f 0) <;> rfl

variable {manager : FleeceStateManager}

theorem pairs_stored {next : FleeceStateManager} {f : FieldEntry}
    (stored : manager.Stored next f) (packed : manager.PackedSlots) :
    next.pairs = manager.pairs ++
      if (manager.view (f.key, f.nodeId)).isNone then [(f.key, f.nodeId)] else [] := by
  unfold pairs slots
  cases stored with
  | inPlace i found fields count present marked =>
    rw [view_of_findSlotOwned found, fields, Option.isNone_some, if_neg Bool.false_ne_true,
      List.append_nil, List.ofFn_eq_map, List.ofFn_eq_map, List.filterMap_map, List.filterMap_map]
    refine List.filterMap_congr fun j _ => ?_
    show fieldLabel (Function.update manager.fields i f j) = fieldLabel (manager.fields j)
    rcases eq_or_ne j i with rfl | other
    · rw [Function.update_self, fieldLabel_of_exists present]
      exact (fieldLabel_eq_some_iff.mpr (label_of_findSlotOwned found)).symm
    · rw [Function.update_of_ne other]
  | appended absent room fields count present marked =>
    rw [view_eq_none_iff.mpr absent, fields, Option.isNone_none, if_pos rfl]
    refine filterMap_ofFn_update (fieldLabel_of_exists present) fun i after => ?_
    have free : ¬ (manager.fields i).slotExists = true := fun here =>
      absurd ((packed i).mp here) (not_lt.mpr after)
    exact if_neg free

theorem pairs_commitField (packed : manager.PackedInvariant) {field : FleeceGoapField}
    (named : field.name.chars ≠ [])
    (room : manager.view (manager.pairOf field.place) = none →
      manager.fieldCount < fieldCapacity) :
    (manager.commitField field).1.pairs = manager.pairs ++
      if (manager.view (manager.pairOf field.place)).isNone then [manager.pairOf field.place]
      else [] := by
  have effect := manager.commitField_effect field
  generalize manager.commitField field = result at effect ⊢
  cases effect with
  | unchanged same =>
    obtain ⟨record, _, _, held⟩ := isSome_view_of_read same
    rw [held, Option.isNone_some, if_neg Bool.false_ne_true, List.append_nil]
  | written next f differs nonempty stored label record rest =>
    rw [pairs_stored stored packed.packed, label]
  | unnamed differs unnamed => exact absurd unnamed named
  | noSlot differs absent full => exact absurd (room absent) (not_lt.mpr full)

/-- The fields without a slot get the next ones, in their order. -/
theorem pairs_commitFields (packed : manager.PackedInvariant) {fields : List FleeceGoapField}
    (storable : manager.Storable fields) :
    (manager.commitFields fields).1.pairs = manager.pairs ++
      (fields.map fun field => manager.pairOf field.place).filter fun pair =>
        (manager.view pair).isNone := by
  induction fields generalizing manager with
  | nil => rw [commitFields_nil, List.map_nil, List.filter_nil, List.append_nil]
  | cons field rest inductionHypothesis =>
    obtain ⟨named, room⟩ := storable.head
    have stores := commitField_stores packed named room
    have packedNext := packed.commitField field
    have first := pairs_commitField packed named room
    have apart := (List.nodup_cons.mp storable.apart).1
    rw [commitFields_cons]
    generalize manager.commitField field = result at stores packedNext first ⊢
    rw [if_neg (not_not.mpr stores.code),
      inductionHypothesis packedNext (storable.tail stores), first]
    have pair : result.1.pairOf = manager.pairOf := by
      funext place
      rw [pairOf, pairOf, ownerOf, ownerOf, stores.node]
    have later : ((rest.map fun other => manager.pairOf other.place).filter fun wanted =>
        (result.1.view wanted).isNone) =
        (rest.map fun other => manager.pairOf other.place).filter fun wanted =>
          (manager.view wanted).isNone :=
      List.filter_congr fun wanted member => by
        rw [stores.others wanted]
        rintro rfl
        exact apart member
    rw [pair, later, List.append_assoc, List.map_cons, List.filter_cons]
    cases manager.view (manager.pairOf field.place) with
    | none => rw [Option.isNone_none, if_pos rfl, if_pos rfl, List.singleton_append]
    | some record =>
      rw [Option.isNone_some, if_neg Bool.false_ne_true, if_neg Bool.false_ne_true,
        List.nil_append]

/-- The pairs of the live named fields of an owner, in slot order. -/
theorem filter_pairs (distinct : manager.DistinctSlots) (owner : UInt64) :
    (manager.pairs.filter fun pair =>
        pair.2 == owner && (manager.liveView pair).any GossipRecord.isNamed) =
      (manager.slots.filter (isLiveNamed owner)).map fun f => (f.key, f.nodeId) := by
  unfold pairs
  rw [List.filter_filterMap, ← List.filterMap_eq_filter, List.map_filterMap]
  refine List.filterMap_congr fun f member => ?_
  obtain ⟨i, rfl⟩ := mem_slots.mp member
  rw [Option.guard_apply, Option.map_if]
  by_cases present : (manager.fields i).slotExists = true
  · have label := fieldLabel_of_exists present
    have live : (manager.liveView ((manager.fields i).key, (manager.fields i).nodeId)).any
        GossipRecord.isNamed =
          (!(manager.fields i).isTombstone && (manager.fields i).isNamed) := by
      rw [liveView, view, lookup, Slots.lookup_eq_of_label distinct label, Option.map_some,
        Option.filter_some]
      show Option.any _ (if (!(manager.fields i).isTombstone) = true then _ else none) = _
      cases (manager.fields i).isTombstone with
      | true => rfl
      | false => rfl
    rw [label, Option.filter_some, live, isLiveNamed, present, Bool.true_and, Bool.and_left_comm,
      Bool.and_assoc]
  · rw [show fieldLabel (manager.fields i) = none from if_neg present, Option.filter_none, if_neg]
    rw [isLiveNamed]
    simp only [present, Bool.false_and, Bool.false_eq_true, not_false_eq_true]

/-- A live named field is listed if its pair is. -/
theorem lists_iff (store : manager.StoreInvariant) (keyed : manager.Keyed) {place : Place}
    {data : Blob} (held : manager.HoldsField place data) : manager.Lists place ↔
      manager.pairOf place ∈ ((manager.slots.filter (isLiveNamed (manager.ownerOf place.2))).map
        fun f => (f.key, f.nodeId)).take snapshotNameMax := by
  obtain ⟨i, live, isName, _⟩ := held
  unfold Lists listFields
  rw [← List.map_take, ← List.map_take, List.map_map, List.mem_map, List.mem_map]
  have pairs {f : FieldEntry} (member : f ∈ (manager.slots.filter
      (isLiveNamed (manager.ownerOf place.2))).take snapshotNameMax) : ∃ j,
        manager.fields j = f ∧ isLiveNamed (manager.ownerOf place.2) (manager.fields j) = true ∧
        (f.key, f.nodeId) = manager.pairOf (f.name.toCString, place.2) := by
    obtain ⟨slot, alive⟩ := List.mem_filter.mp (List.mem_of_mem_take member)
    obtain ⟨j, rfl⟩ := mem_slots.mp slot
    obtain ⟨carried, _⟩ := carried_of_isLiveNamed slot alive
    exact ⟨j, rfl, alive, Prod.ext (keyed j carried.2.1 carried.2.2.2) carried.2.2.1⟩
  constructor
  · rintro ⟨f, member, same⟩
    obtain ⟨_, _, _, pair⟩ := pairs member
    rw [show f.name.toCString = place.1 from same] at pair
    exact ⟨f, member, pair⟩
  · rintro ⟨f, member, pair⟩
    obtain ⟨j, rfl, alive, _⟩ := pairs member
    obtain ⟨carried, _⟩ := carried_of_isLiveNamed (mem_slots.mpr ⟨i, rfl⟩) live
    obtain ⟨other, _⟩ := carried_of_isLiveNamed (mem_slots.mpr ⟨j, rfl⟩) alive
    have own : fieldLabel (manager.fields i) = some (manager.pairOf place) := by
      refine fieldLabel_eq_some_iff.mpr ⟨carried.2.1, ?_, carried.2.2.1⟩
      rw [keyed i carried.2.1 carried.2.2.2, isName]
    have same : fieldLabel (manager.fields j) = some (manager.pairOf place) := by
      rw [fieldLabel_of_exists other.2.1, pair]
    obtain rfl := store.distinct i j _ own same
    exact ⟨_, member, isName⟩

end Order

/-! ### The store after a commit -/

section Committed

variable {manager : FleeceStateManager} {bb : FleeceGoapBlackboard}
  (packed : manager.PackedInvariant) (keyed : manager.Keyed)

theorem pairOf_bbCommit : (manager.bbCommit bb).1.pairOf = manager.pairOf := by
  funext place
  rw [pairOf, pairOf, ownerOf, ownerOf, bbCommit, node_commitFields]

variable (bb) in
include packed in
theorem packedInvariant_bbCommit : (manager.bbCommit bb).1.PackedInvariant :=
  commitFields_invariant (fun _ _ _ holds => holds.operation nofun) packed bb.fields

variable (bb) in
include keyed in
theorem keyed_bbCommit : (manager.bbCommit bb).1.Keyed :=
  commitFields_invariant (fun _ _ short holds => holds.write short) keyed bb.fields

theorem OwnSlots.storable (own : manager.OwnSlots bb) (room : manager.HasSlotsFor bb) :
    manager.Storable bb.fields :=
  ⟨own.named, bb.nodup_fields.map_on fun field member other isOther same =>
    own.apart field member other isOther same, room⟩

include packed in
theorem liveView_bbCommit_of_apart (storable : manager.Storable bb.fields)
    {pair : UInt32 × UInt64} (absent : ∀ field ∈ bb.fields, manager.pairOf field.place ≠ pair) :
    (manager.bbCommit bb).1.liveView pair = manager.liveView pair := by
  have same : (manager.bbCommit bb).1.view pair = manager.view pair :=
    (commitFields_view packed storable).1 pair absent
  unfold liveView
  rw [same]

include packed in
/-- Every field is live after the commit, under its own name. -/
theorem liveView_bbCommit_of_mem (own : manager.OwnSlots bb) (room : manager.HasSlotsFor bb)
    {field : FleeceGoapField} (member : field ∈ bb.fields) :
    ∃ record, (manager.bbCommit bb).1.liveView (manager.pairOf field.place) = some record ∧
      record.name = field.name ∧ record.data = field.data := by
  have stored : manager.StoredAs (manager.bbCommit bb).1 field :=
    (commitFields_view packed (own.storable room)).2 field member
  by_cases same : manager.read field.place = some field.data
  · obtain ⟨record, live, data, _⟩ := isSome_view_of_read same
    refine ⟨record, ?_, own.shown field member record live data, data⟩
    unfold liveView at live ⊢
    rw [stored.kept same, live]
  · obtain ⟨timestamp, written⟩ := stored.written same
    refine ⟨.upserted manager.nodeId field.name field.data timestamp false, ?_, rfl, rfl⟩
    rw [liveView, written]
    rfl

include packed keyed in
/-- The live fields after the commit: those of the blackboard, and those it has no field for. -/
theorem holdsField_bbCommit_iff (own : manager.OwnSlots bb) (room : manager.HasSlotsFor bb)
    {place : Place} {data : Blob} : (manager.bbCommit bb).1.HoldsField place data ↔
      bb.space place = some data ∨
        ((∀ field ∈ bb.fields, manager.pairOf field.place ≠ manager.pairOf place) ∧
          manager.HoldsField place data) := by
  have storeNext := (packedInvariant_bbCommit bb packed).store
  rw [holdsField_iff storeNext (keyed_bbCommit bb keyed), pairOf_bbCommit,
    FleeceGoapBlackboard.space_eq_some_iff]
  by_cases given : ∃ field ∈ bb.fields, manager.pairOf field.place = manager.pairOf place
  · obtain ⟨field, member, pair⟩ := given
    obtain ⟨record, live, name, value⟩ := liveView_bbCommit_of_mem packed own room member
    rw [pair] at live
    rw [live]
    constructor
    · rintro ⟨_, _, same, isName, rfl⟩
      obtain rfl := Option.some.inj same
      refine Or.inl ⟨field, member, Prod.ext ?_ ?_, value.symm⟩
      · rw [← isName, name]
        rfl
      · exact ownerOf_inj packed.store (congrArg Prod.snd pair)
    · rintro (⟨other, isOther, rfl, rfl⟩ | ⟨absent, _⟩)
      · obtain rfl := own.apart field member other isOther pair
        exact ⟨own.named field member, record, rfl, congrArg _ name, value⟩
      · exact absurd pair (absent field member)
  · have absent : ∀ field ∈ bb.fields, manager.pairOf field.place ≠ manager.pairOf place :=
      fun field member same => given ⟨field, member, same⟩
    rw [liveView_bbCommit_of_apart packed (own.storable room) absent,
      ← holdsField_iff packed.store keyed]
    constructor
    · exact fun held => Or.inr ⟨absent, held⟩
    · rintro (⟨field, member, rfl, _⟩ | ⟨_, held⟩)
      · exact absurd rfl (absent field member)
      · exact held

include packed keyed in
/-- A next snapshot that is what was committed shows that the fields had slots of their own. -/
theorem ownSlots_of_returns (room : manager.HasSlotsFor bb)
    (returns : manager.ReturnsCommitted bb) : manager.OwnSlots bb := by
  have storeNext := (packedInvariant_bbCommit bb packed).store
  have keyedNext := keyed_bbCommit bb keyed
  have same := FleeceGoapBlackboard.space_eq_iff.mpr returns
  have held {field : FleeceGoapField} (member : field ∈ bb.fields) : field.name.chars ≠ [] ∧
      ∃ record, (manager.bbCommit bb).1.liveView (manager.pairOf field.place) = some record ∧
        record.name.toCString = field.name.toCString ∧ record.data = field.data := by
    have found := FleeceGoapBlackboard.space_of_mem member
    rw [← same] at found
    have live := (holdsField_iff storeNext keyedNext).mp
      (holdsField_of_snapshot storeNext keyedNext found)
    rwa [pairOf_bbCommit] at live
  have named : ∀ field ∈ bb.fields, field.name.chars ≠ [] := fun field member => (held member).1
  have apart : ∀ field ∈ bb.fields, ∀ other ∈ bb.fields,
      manager.pairOf field.place = manager.pairOf other.place → field = other := by
    intro field member other isOther pair
    obtain ⟨_, record, live, name, _⟩ := held member
    obtain ⟨_, second, liveOther, nameOther, _⟩ := held isOther
    rw [pair, liveOther] at live
    rw [← Option.some.inj live] at name
    exact FleeceGoapBlackboard.field_eq_of_name member isOther (name.symm.trans nameOther)
  refine ⟨named, apart, fun field member record live data => ?_⟩
  have storable : manager.Storable bb.fields :=
    ⟨named, bb.nodup_fields.map_on fun field member other isOther pair =>
      apart field member other isOther pair, room⟩
  have read : manager.read field.place = some field.data := by
    rw [read_eq, ledger_value, live, Option.map_some, data]
  have kept : (manager.bbCommit bb).1.view (manager.pairOf field.place) =
      manager.view (manager.pairOf field.place) :=
    ((commitFields_view packed storable).2 field member).kept read
  obtain ⟨_, after, liveAfter, name, _⟩ := held member
  rw [liveView, kept] at liveAfter
  rw [Option.some.inj (live.symm.trans liveAfter)]
  exact FieldName.ext (congrArg CString.chars name)

include packed keyed in
/-- What the next listing of a namespace shows of the live fields. -/
theorem lists_bbCommit_iff (own : manager.OwnSlots bb) (room : manager.HasSlotsFor bb)
    {place : Place} {data : Blob} (held : (manager.bbCommit bb).1.HoldsField place data) :
    (manager.bbCommit bb).1.Lists place ↔
      manager.pairOf place ∈ manager.listingWith bb place.2 := by
  have storeNext := (packedInvariant_bbCommit bb packed).store
  have storable := own.storable room
  have owner : (manager.bbCommit bb).1.ownerOf place.2 = manager.ownerOf place.2 :=
    congrArg Prod.snd (congrFun pairOf_bbCommit place)
  rw [lists_iff storeNext (keyed_bbCommit bb keyed) held, pairOf_bbCommit, owner,
    ← filter_pairs storeNext.distinct, bbCommit, pairs_commitFields packed storable, listingWith,
    pairsWith]
  have same (pair : UInt32 × UInt64) :
      ((manager.commitFields bb.fields).1.liveView pair).any GossipRecord.isNamed =
        (decide (pair ∈ bb.fields.map fun field => manager.pairOf field.place) ||
          (manager.liveView pair).any GossipRecord.isNamed) := by
    by_cases given : pair ∈ bb.fields.map fun field => manager.pairOf field.place
    · rw [decide_eq_true given, Bool.true_or]
      obtain ⟨field, member, rfl⟩ := List.mem_map.mp given
      obtain ⟨record, live, name, _⟩ := liveView_bbCommit_of_mem packed own room member
      rw [bbCommit] at live
      rw [live]
      refine GossipRecord.isNamed_iff.mpr ?_
      rw [name]
      exact own.named field member
    · rw [decide_eq_false given, Bool.false_or]
      have absent : ∀ field ∈ bb.fields, manager.pairOf field.place ≠ pair :=
        fun field member clash => given (List.mem_map.mpr ⟨field, member, clash⟩)
      have kept := liveView_bbCommit_of_apart packed storable absent
      rw [bbCommit] at kept
      rw [kept]
  simp only [same]

variable (complete : manager.SnapshotComplete)
include complete

/-- The live fields of the store are those of its snapshot. -/
theorem holdsField_iff_mem {place : Place} {data : Blob} : manager.HoldsField place data ↔
    ∃ field ∈ manager.snapshot.fields, field.place = place ∧ field.data = data := by
  rw [← complete.exact, FleeceGoapBlackboard.space_eq_some_iff]

include packed keyed in
/-- A next listing of what was committed makes a next snapshot of it. -/
theorem returns_of_listsCommitted (own : manager.OwnSlots bb) (room : manager.HasSlotsFor bb)
    (lists : manager.ListsCommitted bb) : manager.ReturnsCommitted bb := by
  have storeNext := (packedInvariant_bbCommit bb packed).store
  have keyedNext := keyed_bbCommit bb keyed
  have holds := @holdsField_bbCommit_iff manager bb packed keyed own room
  have listed := @lists_bbCommit_iff manager bb packed keyed own room
  -- a field that the blackboard lacks is not listed, or it has moved to the world
  have hidden {place : Place} {data : Blob} (live : (manager.bbCommit bb).1.HoldsField place data)
      (isListed : (manager.bbCommit bb).1.Lists place) : bb.space place = some data ∨
        (place.2 = false ∧ ∃ value, bb.space (place.1, true) = some value) := by
    rcases holds.mp live with here | ⟨absent, old⟩
    · exact Or.inl here
    · obtain ⟨field, member, rfl, _⟩ := (holdsField_iff_mem complete).mp old
      rcases lists.gone field member with ⟨other, isOther, pair⟩ | unlisted | ⟨self, other, moved⟩
      · exact absurd pair (absent other isOther)
      · exact absurd ((listed live).mp isListed) unlisted
      · refine Or.inr ⟨self, other.data, ?_⟩
        rw [← show other.place = (field.place.1, true) from moved.2]
        exact FleeceGoapBlackboard.space_of_mem moved.1
  have shown {place : Place} {data : Blob} (here : bb.space place = some data) :
      (manager.bbCommit bb).1.HoldsField place data ∧ (manager.bbCommit bb).1.Lists place := by
    have live := holds.mpr (Or.inl here)
    obtain ⟨field, member, rfl, _⟩ := FleeceGoapBlackboard.space_eq_some_iff.mp here
    exact ⟨live, (listed live).mpr (lists.listed field member)⟩
  refine FleeceGoapBlackboard.space_eq_iff.mp (funext fun place => Option.ext fun data => ?_)
  obtain ⟨name, isShared⟩ := place
  rw [snapshot_eq_some_iff storeNext keyedNext]
  constructor
  · rintro ⟨⟨live, isListed⟩, alone⟩
    rcases hidden live isListed with here | ⟨self, value, moved⟩
    · exact here
    · exact absurd (shown moved) (alone self value)
  · intro here
    refine ⟨shown here, ?_⟩
    rintro rfl value ⟨world, isListed⟩
    rcases hidden world isListed with moved | ⟨isSelf, _⟩
    · exact absurd (FleeceGoapBlackboard.isShared_unique here moved) Bool.false_ne_true
    · exact absurd isSelf Bool.true_eq_false.mp

include packed keyed in
/-- A next snapshot of what was committed comes from a listing of it. -/
theorem listsCommitted_of_returns (own : manager.OwnSlots bb) (room : manager.HasSlotsFor bb)
    (returns : manager.ReturnsCommitted bb) : manager.ListsCommitted bb := by
  have storeNext := (packedInvariant_bbCommit bb packed).store
  have keyedNext := keyed_bbCommit bb keyed
  have same := FleeceGoapBlackboard.space_eq_iff.mpr returns
  constructor
  · intro field member
    have held := FleeceGoapBlackboard.space_of_mem member
    rw [← same] at held
    obtain ⟨⟨live, isListed⟩, _⟩ := (snapshot_eq_some_iff storeNext keyedNext).mp held
    exact (lists_bbCommit_iff packed keyed own room live).mp isListed
  · intro field member
    by_contra kept
    push Not at kept
    obtain ⟨leaves, isListed, stays⟩ := kept
    have live : (manager.bbCommit bb).1.HoldsField field.place field.data :=
      (holdsField_bbCommit_iff packed keyed own room).mpr (Or.inr
        ⟨fun other isOther pair => leaves ⟨other, isOther, pair⟩,
          (holdsField_iff_mem complete).mpr ⟨field, member, rfl, rfl⟩⟩)
    have shown := (lists_bbCommit_iff packed keyed own room live).mpr isListed
    have held : (manager.bbCommit bb).1.snapshot.space field.place = some field.data := by
      refine (snapshot_eq_some_iff storeNext keyedNext).mpr ⟨⟨live, shown⟩, ?_⟩
      rintro isSelf value world
      have moved := (snapshot_eq_some_iff storeNext keyedNext).mpr ⟨world, nofun⟩
      rw [same] at moved
      obtain ⟨other, isOther, place, _⟩ := FleeceGoapBlackboard.space_eq_some_iff.mp moved
      exact stays isSelf other isOther place
    rw [same] at held
    obtain ⟨other, isOther, place, _⟩ := FleeceGoapBlackboard.space_eq_some_iff.mp held
    exact leaves ⟨other, isOther, congrArg manager.pairOf place⟩

end Committed

/-- In a state that is reached with names of at most 63 bytes, that fits a snapshot with no name in
both namespaces, and with enough free slots, take any blackboard that sets and deletes make of the
snapshot, and commit it. The next snapshot is that blackboard if and only if its fields have slots
of their own and the first 64 fields of either namespace are what it should show. -/
theorem commit_round_trip_iff {nodeId : UInt64} {manager : FleeceStateManager}
    (created : createWithNodeId nodeId = some manager) (operations : List Operation)
    (short : ∀ operation ∈ operations, operation.isShort = true)
    (tidy : Along Operation.next Tidy manager operations)
    (few : (manager.after operations).SnapshotFits)
    (disjoint : (manager.after operations).DisjointNames) (calls : List BbCall)
    (room : (manager.after operations).HasSlotsFor
      ((manager.after operations).snapshot.applyCalls calls)) :
    (manager.after operations).ReturnsCommitted
        ((manager.after operations).snapshot.applyCalls calls) ↔
      (manager.after operations).OwnSlots
          ((manager.after operations).snapshot.applyCalls calls) ∧
        (manager.after operations).ListsCommitted
          ((manager.after operations).snapshot.applyCalls calls) := by
  have packed := packedInvariant_after_tidy created tidy
  have keyed := keyed_after created short
  have complete := snapshotComplete_of_fits packed.store keyed disjoint few
  constructor
  · intro returns
    have own := ownSlots_of_returns packed keyed room returns
    exact ⟨own, listsCommitted_of_returns packed keyed complete own room returns⟩
  · rintro ⟨own, lists⟩
    exact returns_of_listsCommitted packed keyed complete own room lists

theorem commit_round_trip_written :
    let value (byte : UInt8) : Blob := ⟨[byte], by rw [List.length_singleton]; decide⟩
    let goal : CString := ⟨[0x67], by decide⟩
    let home : CString := ⟨[0x68], by decide⟩
    let live := (blank 7).after [.write (.setShared goal (value 1))]
    live.ReturnsCommitted (live.snapshot.applyCalls [.set ⟨home, value 2, false⟩]) := by
  intro value goal home live
  let calls : List BbCall := [.set ⟨home, value 2, false⟩]
  have slots : ∀ field ∈ (live.snapshot.applyCalls calls).fields,
      field.name.chars ≠ [] ∧ (live.liveView (live.pairOf field.place)).all
        (fun record => decide (record.name = field.name)) = true := by
    decide +kernel
  have stays : ∀ field ∈ live.snapshot.fields,
      ∃ other ∈ (live.snapshot.applyCalls calls).fields,
        live.pairOf other.place = live.pairOf field.place := by
    decide +kernel
  refine (commit_round_trip_iff (show createWithNodeId 7 = some (blank 7) from rfl) _ ?_ ?_ ?_ ?_
    calls ?_).mpr ⟨⟨fun field member => (slots field member).1, ?_, ?_⟩, ?_,
      fun field member => Or.inl (stays field member)⟩
  · decide +kernel
  · exact ⟨nofun, trivial⟩
  · exact ⟨by show _ ≤ _; decide +kernel, by show _ ≤ _; decide +kernel⟩
  · decide +kernel
  · show _ ≤ _
    decide +kernel
  · decide +kernel
  · intro field member record found _
    have same := (slots field member).2
    rw [found] at same
    exact of_decide_eq_true same
  · decide +kernel

/-- The field `x` is deleted from the snapshot. The commit returns 0, and the next snapshot has `x`
with its value. -/
theorem commit_revives_deleted :
    let value : Blob := ⟨[1], by decide⟩
    let box : CString := ⟨[0x78], by decide⟩
    let live := (blank 7).after [.write (.setNamed box value)]
    let result := live.snapshot.applyCalls [.delete box]
    live.SnapshotFits ∧ live.DisjointNames ∧ live.HasSlotsFor result ∧
      (live.bbCommit result).2 = 0 ∧
      result.fields = [] ∧
      (live.bbCommit result).1.snapshot.space (box, false) = some value ∧
      ¬ live.ReturnsCommitted result := by
  intro value box live result
  have back : (live.bbCommit result).1.snapshot.space (box, false) = some value := by
    decide +kernel
  have empty : result.fields = [] := by decide +kernel
  refine ⟨⟨?_, ?_⟩, ?_, ?_, ?_, empty, back, fun returns => ?_⟩
  · show _ ≤ _
    decide +kernel
  · show _ ≤ _
    decide +kernel
  · decide +kernel
  · show _ ≤ _
    decide +kernel
  · decide +kernel
  · unfold ReturnsCommitted at returns
    rw [empty] at returns
    obtain ⟨field, member, _⟩ := FleeceGoapBlackboard.space_eq_some_iff.mp back
    rw [returns.eq_nil] at member
    exact absurd member List.not_mem_nil
end FleeceStateManager

end Fleece
