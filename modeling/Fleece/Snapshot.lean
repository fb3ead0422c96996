/-
This file models `fleece_goap_js_bb_from_state`, the snapshot that planning and the
executor start from: the fields of the local node, then the shared ones, each read
by name and set in a blackboard.

The names go through a buffer of 64 for either namespace, while the store has 128
slots for both together. So the snapshot of a store whose self fields and world
fields have different names is complete exactly if neither namespace has more than
64 live fields; of a larger one the fields that come last in slot order are left
out, and the call still returns 0.
-/

import Fleece.AntiEntropy
import Fleece.Failures
import Fleece.Namespaces

namespace Fleece

/-- The size of `names` in `bb_from_state`. -/
abbrev snapshotNameMax : Nat := 64

namespace FleeceStateManager

/-- The owner of the fields of a namespace. -/
def ownerOf (manager : FleeceStateManager) (isShared : Bool) : UInt64 :=
  if isShared then sharedOwnerId else manager.nodeId

/-- One turn of either loop of `bb_from_state`. -/
def loadField (manager : FleeceStateManager) (isShared : Bool) (bb : FleeceGoapBlackboard)
    (name : FieldName) : FleeceGoapBlackboard × Int :=
  match manager.getNamed (manager.ownerOf isShared) name.toCString with
  | none => (bb, 0)
  | some data => bb.set name.toCString data isShared

/-- Either loop, over the names listed. -/
def loadFields (manager : FleeceStateManager) (isShared : Bool) (bb : FleeceGoapBlackboard) :
    List FieldName → FleeceGoapBlackboard × Int
  | [] => (bb, 0)
  | name :: rest =>
    let result := manager.loadField isShared bb name
    if result.2 ≠ 0 then (result.1, -1) else manager.loadFields isShared result.1 rest

theorem loadFields_cons (manager : FleeceStateManager) (isShared : Bool)
    (bb : FleeceGoapBlackboard) (name : FieldName) (rest : List FieldName) :
    manager.loadFields isShared bb (name :: rest) =
      if (manager.loadField isShared bb name).2 ≠ 0 then
        ((manager.loadField isShared bb name).1, -1)
      else manager.loadFields isShared (manager.loadField isShared bb name).1 rest := rfl

/-- `fleece_goap_js_bb_from_state`. -/
def bbFromState (manager : FleeceStateManager) (bb : FleeceGoapBlackboard) :
    FleeceGoapBlackboard × Int :=
  let self := manager.loadFields false bb (manager.listFields manager.nodeId snapshotNameMax)
  if self.2 ≠ 0 then self
  else manager.loadFields true self.1 (manager.listFields sharedOwnerId snapshotNameMax)

/-- The blackboard of a snapshot, as `brain_fresh_bb` and the action library take it. -/
def snapshot (manager : FleeceStateManager) : FleeceGoapBlackboard :=
  (manager.bbFromState .empty).1

/-! ### What a snapshot holds -/

/-- Every field has the value that the store gives under its name. -/
def Mirrors (manager : FleeceStateManager) (bb : FleeceGoapBlackboard) : Prop :=
  ∀ field ∈ bb.fields,
    manager.getNamed (manager.ownerOf field.isShared) field.name.toCString = some field.data

theorem Mirrors.loadField {manager : FleeceStateManager} {bb : FleeceGoapBlackboard}
    (mirrors : manager.Mirrors bb) (isShared : Bool) (name : FieldName) :
    manager.Mirrors (manager.loadField isShared bb name).1 := by
  unfold FleeceStateManager.loadField
  cases found : manager.getNamed (manager.ownerOf isShared) name.toCString with
  | none => exact mirrors
  | some data =>
    intro field member
    cases accepted : FleeceGoapBlackboard.accepts name.toCString data with
    | false =>
      simp only [FleeceGoapBlackboard.set_of_refused accepted] at member
      exact mirrors field member
    | true =>
      rcases (FleeceGoapBlackboard.mem_set_iff accepted).mp member with
        ⟨place, value⟩ | ⟨isOld, _⟩
      · obtain ⟨isName, space⟩ := Prod.mk.inj place
        rw [isName, space, value]
        exact found
      · exact mirrors field isOld

theorem Mirrors.loadFields {manager : FleeceStateManager} {bb : FleeceGoapBlackboard}
    (mirrors : manager.Mirrors bb) (isShared : Bool) (names : List FieldName) :
    manager.Mirrors (manager.loadFields isShared bb names).1 := by
  induction names generalizing bb with
  | nil => exact mirrors
  | cons name rest inductionHypothesis =>
    have kept := mirrors.loadField isShared name
    rw [loadFields_cons]
    generalize manager.loadField isShared bb name = result at kept ⊢
    split_ifs
    · exact kept
    · exact inductionHypothesis kept

/-- What a loop loads under a name. -/
def loaded (manager : FleeceStateManager) (isShared : Bool) (names : List FieldName)
    (name : CString) : Option Blob :=
  if name ∈ names.map FieldName.toCString then manager.getNamed (manager.ownerOf isShared) name
  else none

/-- Of two loads of one name the later one decides. -/
theorem loaded_cons (manager : FleeceStateManager) (isShared : Bool) (name : FieldName)
    (rest : List FieldName) (other : CString) :
    manager.loaded isShared (name :: rest) other =
      (manager.loaded isShared rest other).or (manager.loaded isShared [name] other) := by
  simp only [loaded, List.map_cons, List.map_nil, List.mem_cons, List.not_mem_nil, or_false]
  by_cases later : other ∈ rest.map FieldName.toCString
  · rw [if_pos (Or.inr later), if_pos later]
    cases manager.getNamed (manager.ownerOf isShared) other with
    | none => rw [ite_self, Option.none_or]
    | some data => rfl
  · rw [if_neg later, Option.none_or]
    exact if_congr (or_iff_left later) rfl rfl

section Load

variable {manager : FleeceStateManager} (filled : ∀ owner name data,
  manager.getNamed owner name = some data → data.size ≠ 0)
include filled

/-- A turn of a loop succeeds, and what it loads takes both places of the name. -/
theorem loadField_spec (isShared : Bool) (bb : FleeceGoapBlackboard) (name : FieldName) :
    (manager.loadField isShared bb name).2 = 0 ∧
      ∀ place, (manager.loadField isShared bb name).1.space place =
        match manager.loaded isShared [name] place.1 with
        | some data => if place.2 = isShared then some data else none
        | none => bb.space place := by
  have single (other : CString) : manager.loaded isShared [name] other =
      if other = name.toCString then manager.getNamed (manager.ownerOf isShared) other
      else none := by
    simp only [loaded, List.map_cons, List.map_nil, List.mem_singleton]
  unfold loadField
  cases found : manager.getNamed (manager.ownerOf isShared) name.toCString with
  | none =>
    refine ⟨rfl, fun place => ?_⟩
    rw [single]
    by_cases own : place.1 = name.toCString
    · rw [if_pos own, own, found]
    · rw [if_neg own]
  | some data =>
    have accepted : FleeceGoapBlackboard.accepts name.toCString data = true :=
      Bool.and_eq_true_iff.mpr
        ⟨bne_iff_ne.mpr (filled _ _ _ found), decide_eq_true name.lengthLt⟩
    refine ⟨FleeceGoapBlackboard.set_code.mpr accepted, fun place => ?_⟩
    rw [single]
    refine (FleeceGoapBlackboard.space_set accepted place).trans ?_
    by_cases own : place.1 = name.toCString
    · simp only [Prod.ext_iff, own, true_and, if_true, found]
    · rw [if_neg fun same => own (congrArg Prod.fst same), if_neg own, if_neg own]

/-- A loop over names succeeds, and what it loads takes both places of each name. -/
theorem loadFields_spec (isShared : Bool) (bb : FleeceGoapBlackboard) (names : List FieldName) :
    (manager.loadFields isShared bb names).2 = 0 ∧
      ∀ place, (manager.loadFields isShared bb names).1.space place =
        match manager.loaded isShared names place.1 with
        | some data => if place.2 = isShared then some data else none
        | none => bb.space place := by
  induction names generalizing bb with
  | nil => exact ⟨rfl, fun place => rfl⟩
  | cons name rest inductionHypothesis =>
    obtain ⟨code, spaces⟩ := loadField_spec filled isShared bb name
    obtain ⟨codeRest, spacesRest⟩ := inductionHypothesis (manager.loadField isShared bb name).1
    rw [loadFields_cons, if_neg (not_not.mpr code)]
    refine ⟨codeRest, fun place => ?_⟩
    rw [spacesRest, spaces, loaded_cons manager isShared name rest]
    cases manager.loaded isShared rest place.1 with
    | some data => rfl
    | none => rfl

/-- A snapshot succeeds, and a name that is loaded from the world is not loaded from self. -/
theorem snapshot_spec : (manager.bbFromState .empty).2 = 0 ∧
    ∀ place, manager.snapshot.space place =
      match manager.loaded true (manager.listFields sharedOwnerId snapshotNameMax) place.1 with
      | some data => if place.2 = true then some data else none
      | none =>
        if place.2 = false then
          manager.loaded false (manager.listFields manager.nodeId snapshotNameMax) place.1
        else none := by
  unfold snapshot bbFromState
  obtain ⟨codeSelf, self⟩ := loadFields_spec filled false .empty
    (manager.listFields manager.nodeId snapshotNameMax)
  simp only
  rw [if_neg (not_not.mpr codeSelf)]
  obtain ⟨codeWorld, world⟩ := loadFields_spec filled true
    (manager.loadFields false .empty (manager.listFields manager.nodeId snapshotNameMax)).1
    (manager.listFields sharedOwnerId snapshotNameMax)
  refine ⟨codeWorld, fun place => ?_⟩
  rw [world]
  cases manager.loaded true (manager.listFields sharedOwnerId snapshotNameMax) place.1 with
  | some data => rfl
  | none =>
    simp only
    rw [self]
    cases manager.loaded false (manager.listFields manager.nodeId snapshotNameMax) place.1 with
    | some data => rfl
    | none => exact (ite_self none).symm

end Load

/-! ### Complete snapshots -/

/-- A live named field of the store. -/
def HoldsField (manager : FleeceStateManager) (place : Place) (data : Blob) : Prop :=
  ∃ i, isLiveNamed (manager.ownerOf place.2) (manager.fields i) = true ∧
    (manager.fields i).name.toCString = place.1 ∧ (manager.fields i).data = data

/-- The snapshot succeeds and holds the live named fields of the store and nothing else. -/
structure SnapshotComplete (manager : FleeceStateManager) : Prop where
  code : (manager.bbFromState .empty).2 = 0
  exact : ∀ place data, manager.snapshot.space place = some data ↔ manager.HoldsField place data

/-- No live self field has the name of a live world field. -/
def DisjointNames (manager : FleeceStateManager) : Prop :=
  ∀ i j, isLiveNamed manager.nodeId (manager.fields i) = true →
    isLiveNamed sharedOwnerId (manager.fields j) = true →
      (manager.fields i).name ≠ (manager.fields j).name

/-- The second field matters only where the first is a live self field. -/
theorem disjointNames_iff (manager : FleeceStateManager) : manager.DisjointNames ↔
    ∀ i, isLiveNamed manager.nodeId (manager.fields i) = true →
      ∀ j, isLiveNamed sharedOwnerId (manager.fields j) = true →
        (manager.fields i).name ≠ (manager.fields j).name :=
  ⟨fun disjoint i self j world => disjoint i j self world,
    fun disjoint i j self world => disjoint i self j world⟩

instance (manager : FleeceStateManager) : Decidable manager.DisjointNames :=
  decidable_of_iff' _ manager.disjointNames_iff

section Complete

variable {manager : FleeceStateManager}

theorem data_of_getNamed (store : manager.StoreInvariant) (owner : UInt64) (name : CString)
    (data : Blob) (found : manager.getNamed owner name = some data) : data.size ≠ 0 := by
  rw [getNamed_eq] at found
  obtain ⟨record, live, rfl⟩ := Option.map_eq_some_iff.mp found
  obtain ⟨held, alive⟩ := Option.filter_eq_some_iff.mp live
  obtain ⟨f, here, rfl⟩ := Option.map_eq_some_iff.mp held
  obtain ⟨i, rfl, present, _⟩ := exists_of_lookup here
  intro empty
  have none : (manager.fields i).record.data = .empty := by
    generalize (manager.fields i).record.data = data at empty
    obtain ⟨bytes, small⟩ := data
    obtain rfl : bytes = [] := List.length_eq_zero_iff.mp empty
    rfl
  have dead := (store.filled i present).mpr none
  rw [dead] at alive
  cases alive

/-- A live named field is what a read under its name gives. -/
theorem getNamed_of_isLiveNamed (distinct : manager.DistinctSlots) (keyed : manager.Keyed)
    {owner : UInt64} {i : Fin fieldCapacity} (live : isLiveNamed owner (manager.fields i) = true) :
    manager.getNamed owner (manager.fields i).name.toCString = some (manager.fields i).data := by
  obtain ⟨carried, alive⟩ := carried_of_isLiveNamed (mem_slots.mpr ⟨i, rfl⟩) live
  have label : liveLabel (manager.fields i) =
      some (hashName (manager.fields i).name.toCString, owner) := by
    refine liveLabel_eq_some_iff.mpr ⟨fieldLabel_eq_some_iff.mpr ⟨carried.2.1, ?_, carried.2.2.1⟩,
      alive⟩
    exact keyed i carried.2.1 carried.2.2.2
  rw [getNamed_eq, liveView_eq distinct,
    Slots.lookup_eq_of_label (distinct_liveLabel distinct) label]
  rfl

theorem mem_listFields_of_listsAll {owner : UInt64} {count : Nat}
    (whole : manager.ListsAll owner count) {name : FieldName} :
    name ∈ manager.listFields owner count ↔
      ∃ i, isLiveNamed owner (manager.fields i) = true ∧ (manager.fields i).name = name := by
  unfold listFields
  rw [List.take_of_length_le (by rw [List.length_map]; exact whole), List.mem_map]
  constructor
  · rintro ⟨f, member, rfl⟩
    obtain ⟨slot, live⟩ := List.mem_filter.mp member
    obtain ⟨i, rfl⟩ := mem_slots.mp slot
    exact ⟨i, live, rfl⟩
  · rintro ⟨i, live, rfl⟩
    exact ⟨_, List.mem_filter.mpr ⟨mem_slots.mpr ⟨i, rfl⟩, live⟩, rfl⟩

theorem exists_of_mem_listFields {owner : UInt64} {count : Nat} {name : FieldName}
    (listed : name ∈ manager.listFields owner count) :
    ∃ i, isLiveNamed owner (manager.fields i) = true ∧ (manager.fields i).name = name := by
  obtain ⟨f, member, rfl⟩ := List.mem_map.mp (List.mem_of_mem_take listed)
  obtain ⟨slot, live⟩ := List.mem_filter.mp member
  obtain ⟨i, rfl⟩ := mem_slots.mp slot
  exact ⟨i, live, rfl⟩

/-- Where a listing is cut off, a live field is left out. -/
theorem exists_unlisted (distinct : manager.DistinctSlots) (keyed : manager.Keyed) {owner : UInt64}
    {count : Nat} (cut : ¬ manager.ListsAll owner count) :
    ∃ i, isLiveNamed owner (manager.fields i) = true ∧
      (manager.fields i).name ∉ manager.listFields owner count := by
  have names := nodup_liveNames distinct keyed owner
  have long : count < ((manager.slots.filter (isLiveNamed owner)).map FieldEntry.name).length := by
    rw [List.length_map]
    exact not_le.mp cut
  obtain ⟨f, member, last⟩ := List.mem_map.mp (List.getElem_mem long)
  obtain ⟨slot, live⟩ := List.mem_filter.mp member
  obtain ⟨i, rfl⟩ := mem_slots.mp slot
  refine ⟨i, live, fun listed => ?_⟩
  obtain ⟨j, before, same⟩ := List.mem_take_iff_getElem.mp listed
  have equal := (names.getElem_inj_iff).mp (same.trans last)
  omega

/-- The name is among the first 64 of its namespace. -/
def Lists (manager : FleeceStateManager) (place : Place) : Prop :=
  place.1 ∈ (manager.listFields (manager.ownerOf place.2) snapshotNameMax).map FieldName.toCString

theorem lists_of_listsAll {place : Place}
    (whole : manager.ListsAll (manager.ownerOf place.2) snapshotNameMax) {data : Blob}
    (held : manager.HoldsField place data) : manager.Lists place := by
  obtain ⟨i, live, isName, _⟩ := held
  exact List.mem_map.mpr ⟨_, (mem_listFields_of_listsAll whole).mpr ⟨i, live, rfl⟩, isName⟩

/-- What the snapshot loads of a namespace: its live fields, as far as the buffer has room. -/
theorem loaded_eq_some_iff (distinct : manager.DistinctSlots) (keyed : manager.Keyed)
    {isShared : Bool} {name : CString} {data : Blob} :
    manager.loaded isShared (manager.listFields (manager.ownerOf isShared) snapshotNameMax) name =
      some data ↔ manager.HoldsField (name, isShared) data ∧ manager.Lists (name, isShared) := by
  unfold loaded Lists
  rw [Option.ite_none_right_eq_some, and_comm]
  refine and_congr_left fun listed => ?_
  obtain ⟨fieldName, isListed, rfl⟩ := List.mem_map.mp listed
  obtain ⟨i, live, rfl⟩ := exists_of_mem_listFields isListed
  have found := getNamed_of_isLiveNamed distinct keyed live
  constructor
  · intro read
    rw [found] at read
    exact ⟨i, live, rfl, Option.some.inj read⟩
  · rintro ⟨j, liveOther, isName, rfl⟩
    rw [← getNamed_of_isLiveNamed distinct keyed liveOther, isName]

/-- Neither namespace has more live fields than the buffer has names. -/
def SnapshotFits (manager : FleeceStateManager) : Prop :=
  manager.ListsAll manager.nodeId snapshotNameMax ∧
    manager.ListsAll sharedOwnerId snapshotNameMax

theorem SnapshotFits.listsAll (fits : manager.SnapshotFits) (isShared : Bool) :
    manager.ListsAll (manager.ownerOf isShared) snapshotNameMax := by
  cases isShared with
  | false => exact fits.1
  | true => exact fits.2

variable (store : manager.StoreInvariant) (keyed : manager.Keyed)
include store keyed

/-- A world field that is listed is in the snapshot, and so is a self field that is listed, without
a namesake among the former. -/
theorem snapshot_eq_some_iff {name : CString} {isShared : Bool} {data : Blob} :
    manager.snapshot.space (name, isShared) = some data ↔
      (manager.HoldsField (name, isShared) data ∧ manager.Lists (name, isShared)) ∧
        (isShared = false → ∀ value,
          ¬ (manager.HoldsField (name, true) value ∧ manager.Lists (name, true))) := by
  have spaces := (snapshot_spec (data_of_getNamed store)).2
  have self {name : CString} {data : Blob} :
      manager.loaded false (manager.listFields manager.nodeId snapshotNameMax) name = some data ↔
        manager.HoldsField (name, false) data ∧ manager.Lists (name, false) :=
    loaded_eq_some_iff store.distinct keyed
  have world {name : CString} {data : Blob} :
      manager.loaded true (manager.listFields sharedOwnerId snapshotNameMax) name = some data ↔
        manager.HoldsField (name, true) data ∧ manager.Lists (name, true) :=
    loaded_eq_some_iff store.distinct keyed
  rw [spaces]
  cases found : manager.loaded true (manager.listFields sharedOwnerId snapshotNameMax) name with
  | some value =>
    cases isShared with
    | true =>
      rw [← world, found]
      exact (and_iff_left nofun).symm
    | false => exact iff_of_false nofun fun ⟨_, alone⟩ => alone rfl value (world.mp found)
  | none =>
    have alone (value : Blob) :
        ¬ (manager.HoldsField (name, true) value ∧ manager.Lists (name, true)) := by
      rw [← world, found]
      exact nofun
    cases isShared with
    | true => exact iff_of_false nofun fun ⟨held, _⟩ => alone data held
    | false => exact self.trans (and_iff_left fun _ => alone).symm

theorem snapshotComplete_of_fits (disjoint : manager.DisjointNames) (fits : manager.SnapshotFits) :
    manager.SnapshotComplete := by
  refine ⟨(snapshot_spec (data_of_getNamed store)).1, fun ⟨name, isShared⟩ data => ?_⟩
  rw [snapshot_eq_some_iff store keyed]
  constructor
  · exact fun ⟨⟨held, _⟩, _⟩ => held
  · intro held
    refine ⟨⟨held, lists_of_listsAll (fits.listsAll isShared) held⟩, ?_⟩
    rintro isSelf value ⟨⟨j, liveShared, isName, _⟩, _⟩
    subst isSelf
    obtain ⟨i, live, rfl, _⟩ := held
    exact disjoint i j live liveShared (FieldName.ext (congrArg CString.chars isName.symm))

/-- What a snapshot holds is a live named field. -/
theorem holdsField_of_snapshot {place : Place} {data : Blob}
    (held : manager.snapshot.space place = some data) : manager.HoldsField place data :=
  ((snapshot_eq_some_iff store keyed).mp held).1.1

theorem fits_of_snapshotComplete (complete : manager.SnapshotComplete) : manager.SnapshotFits := by
  have whole (isShared : Bool) :
      manager.ListsAll (manager.ownerOf isShared) snapshotNameMax := by
    by_contra cut
    obtain ⟨i, live, unlisted⟩ := exists_unlisted store.distinct keyed cut
    have held := (complete.exact ((manager.fields i).name.toCString, isShared)
      (manager.fields i).data).mpr ⟨i, live, rfl, rfl⟩
    obtain ⟨other, isListed, same⟩ :=
      List.mem_map.mp ((snapshot_eq_some_iff store keyed).mp held).1.2
    rw [FieldName.ext (congrArg CString.chars same)] at isListed
    exact unlisted isListed
  exact ⟨whole false, whole true⟩

end Complete

/-- In every state that is reached with names of at most 63 bytes, and in which no self field has
the name of a world field, the snapshot is complete if and only if neither namespace has more than
64 live fields. -/
theorem snapshot_complete_iff {nodeId : UInt64} {manager : FleeceStateManager}
    (created : createWithNodeId nodeId = some manager) (operations : List Operation)
    (short : ∀ operation ∈ operations, operation.isShort = true)
    (disjoint : (manager.after operations).DisjointNames) :
    (manager.after operations).SnapshotComplete ↔ (manager.after operations).SnapshotFits := by
  have store := storeInvariant_after created operations
  have keyed := keyed_after created short
  exact ⟨fits_of_snapshotComplete store keyed, snapshotComplete_of_fits store keyed disjoint⟩

theorem snapshot_complete_iff_written :
    let value : Blob := ⟨[1], by decide⟩
    let goal : CString := ⟨[0x67], by decide⟩
    let home : CString := ⟨[0x68], by decide⟩
    ((blank 7).after
      [.write (.setShared goal value), .write (.setNamed home value)]).SnapshotComplete := by
  intro value goal home
  refine (snapshot_complete_iff (show createWithNodeId 7 = some (blank 7) from rfl) _ ?_ ?_).mpr ?_
  · decide
  · decide +kernel
  · unfold SnapshotFits ListsAll
    decide +kernel

/-! ### A store with 65 fields of its own -/

theorem noNul_digit (i : Nat) : (0 : UInt8) ∉ [UInt8.ofNat (i % 255 + 1)] := by
  intro member
  have same := congrArg UInt8.toNat (List.mem_singleton.mp member)
  rw [UInt8.toNat_ofNat'] at same
  have small : i % 255 < 255 := Nat.mod_lt _ (by decide)
  rw [Nat.mod_eq_of_lt (by omega)] at same
  exact absurd same (Nat.succ_ne_zero _).symm

/-- A name of one byte. -/
def digitName (i : Nat) : CString := ⟨[UInt8.ofNat (i % 255 + 1)], noNul_digit i⟩

theorem digitName_inj {i j : Nat} (first : i < 255) (second : j < 255)
    (same : digitName i = digitName j) : i = j := by
  have values := congrArg UInt8.toNat (List.cons.inj (congrArg CString.chars same)).1
  rw [UInt8.toNat_ofNat', UInt8.toNat_ofNat', Nat.mod_eq_of_lt first, Nat.mod_eq_of_lt second,
    Nat.mod_eq_of_lt (by omega), Nat.mod_eq_of_lt (by omega)] at values
  omega

/-- The hash of one byte can be undone: the factor of FNV-1a is odd. -/
theorem hashName_digitName_inj {i j : Nat}
    (same : hashName (digitName i) = hashName (digitName j)) : digitName i = digitName j := by
  have undo (hash : UInt32) : hash * 16777619 * 899433627 = hash := by
    rw [UInt32.mul_assoc]
    exact UInt32.mul_one hash
  have back := congrArg (fun hash => 2166136261 ^^^ (hash * 899433627)) same
  simp only [hashName, digitName, List.foldl_cons, List.foldl_nil, undo, ← UInt32.xor_assoc,
    UInt32.xor_self, UInt32.zero_xor] at back
  have byte := congrArg UInt32.toUInt8 back
  rw [UInt8.toUInt8_toUInt32, UInt8.toUInt8_toUInt32] at byte
  simp only [digitName, byte]

theorem sizeLt_one : ([1] : List UInt8).length < 2 ^ 32 := by decide

/-- So many writes of fields with different names. -/
def fillNamed (count : Nat) : List Operation :=
  (List.range count).map fun i => .write (.setNamed (digitName i) ⟨[1], sizeLt_one⟩)

/-- The first slots of a store hold one field of node 7 each, with names of one byte, and the others
hold none. -/
structure FilledNamed (manager : FleeceStateManager) (count : Nat) : Prop where
  node : manager.nodeId = 7
  fieldCount : manager.fieldCount = count
  held : ∀ i : Fin fieldCapacity, (manager.fields i).slotExists = decide (i.val < count) ∧
    (i.val < count → isLiveNamed 7 (manager.fields i) = true ∧
      (manager.fields i).key = hashName (digitName i) ∧
      (manager.fields i).name.toCString = digitName i)

theorem FilledNamed.next {manager : FleeceStateManager} {count : Nat}
    (filled : FilledNamed manager count) (room : count < fieldCapacity) :
    FilledNamed (manager.setNamed (digitName count) ⟨[1], sizeLt_one⟩).1 (count + 1) := by
  obtain ⟨node, fieldCount, held⟩ := filled
  have absent : manager.advanceClock.findSlotOwned (hashName (digitName count)) manager.nodeId =
      none := by
    refine findSlotOwned_eq_none fun i present label => ?_
    have inside : i.val < count := by
      rw [show (manager.advanceClock.fields i).slotExists = _ from (held i).1] at present
      exact of_decide_eq_true present
    have same := hashName_digitName_inj (((held i).2 inside).2.1.symm.trans label.1)
    have small : fieldCapacity < 255 := by decide
    have equal := digitName_inj (by omega) (by omega) same
    omega
  have inCount : manager.advanceClock.fieldCount < fieldCapacity := by
    show manager.fieldCount < fieldCapacity
    rwa [fieldCount]
  have accepted : ((digitName count).chars.isEmpty || (⟨[1], sizeLt_one⟩ : Blob).size == 0) =
      false := rfl
  have copied : (FieldName.copy (digitName count)).toCString = digitName count :=
    CString.copy_of_isShort (show decide (1 < fieldNameMax) = true by decide)
  unfold setNamed upsertField
  rw [accepted, if_neg Bool.false_ne_true, absent]
  simp only
  rw [dif_pos inCount]
  refine ⟨node, congrArg (· + 1) fieldCount, fun i => ?_⟩
  show (Function.update manager.fields ⟨manager.fieldCount, inCount⟩ _ i).slotExists = _ ∧
    (_ → isLiveNamed 7 (Function.update manager.fields ⟨manager.fieldCount, inCount⟩ _ i) = true ∧
      (Function.update manager.fields ⟨manager.fieldCount, inCount⟩ _ i).key = _ ∧
      (Function.update manager.fields ⟨manager.fieldCount, inCount⟩ _ i).name.toCString = _)
  rcases eq_or_ne i ⟨manager.fieldCount, inCount⟩ with rfl | other
  · rw [Function.update_self]
    refine ⟨(decide_eq_true ?_).symm, fun _ => ⟨?_, ?_, ?_⟩⟩
    · show manager.fieldCount < count + 1
      omega
    · show (true && !false && manager.nodeId == 7 && true) = true
      rw [node]
      rfl
    · show hashName (digitName count) = hashName (digitName manager.fieldCount)
      rw [fieldCount]
    · show (FieldName.copy (digitName count)).toCString = digitName manager.fieldCount
      rw [copied, fieldCount]
  · have notHere : i.val ≠ count := fun same => other (Fin.ext (same.trans fieldCount.symm))
    rw [Function.update_of_ne other]
    refine ⟨(held i).1.trans (decide_eq_decide.mpr (by omega)), fun inside => ?_⟩
    exact (held i).2 (by omega)

theorem after_setNamed (manager : FleeceStateManager) (name : CString) (data : Blob) :
    manager.after [.write (.setNamed name data)] = (manager.setNamed name data).1 := rfl

theorem filledNamed_fill {count : Nat} (room : count ≤ fieldCapacity) :
    FilledNamed ((blank 7).after (fillNamed count)) count := by
  induction count with
  | zero => exact ⟨rfl, rfl, fun i => ⟨rfl, fun inside => absurd inside (Nat.not_lt_zero _)⟩⟩
  | succ count inductionHypothesis =>
    have split : (blank 7).after (fillNamed (count + 1)) =
        (((blank 7).after (fillNamed count)).setNamed (digitName count) ⟨[1], sizeLt_one⟩).1 := by
      unfold fillNamed
      rw [List.range_succ, List.map_append, after_append, List.map_singleton, after_setNamed]
    rw [split]
    exact (inductionHypothesis (by omega)).next (by omega)

theorem FilledNamed.long {manager : FleeceStateManager} {count : Nat}
    (filled : FilledNamed manager count) (room : count ≤ fieldCapacity) :
    count ≤ (manager.slots.filter (isLiveNamed 7)).length := by
  have names : ((List.range count).map digitName).Nodup :=
    List.nodup_range.map_on fun i first j second same => by
      rw [List.mem_range] at first second
      have small : fieldCapacity < 255 := by decide
      exact digitName_inj (by omega) (by omega) same
  have subset : (List.range count).map digitName ⊆
      (manager.slots.filter (isLiveNamed 7)).map fun f => f.name.toCString := by
    intro name member
    obtain ⟨i, inside, rfl⟩ := List.mem_map.mp member
    rw [List.mem_range] at inside
    obtain ⟨live, _, isName⟩ := (filled.held ⟨i, by omega⟩).2 inside
    exact List.mem_map.mpr ⟨_, List.mem_filter.mpr ⟨mem_slots.mpr ⟨_, rfl⟩, live⟩, isName⟩
  have le := (names.subperm subset).length_le
  rwa [List.length_map, List.length_map, List.length_range] at le

theorem FilledNamed.disjointNames {manager : FleeceStateManager} {count : Nat}
    (filled : FilledNamed manager count) : manager.DisjointNames := by
  intro i j _ shared
  obtain ⟨carried, _⟩ := carried_of_isLiveNamed (mem_slots.mpr ⟨j, rfl⟩) shared
  have inside : j.val < count := of_decide_eq_true ((filled.held j).1.symm.trans carried.2.1)
  have own := carried_of_isLiveNamed (mem_slots.mpr ⟨j, rfl⟩) ((filled.held j).2 inside).1
  exact absurd (own.1.2.2.1.symm.trans carried.2.2.1) (by decide)

theorem FilledNamed.not_fits {manager : FleeceStateManager} {count : Nat}
    (filled : FilledNamed manager count) (room : count ≤ fieldCapacity)
    (many : snapshotNameMax < count) : ¬ manager.SnapshotFits := by
  intro fits
  have small := fits.1
  rw [filled.node] at small
  exact absurd ((filled.long room).trans small) (not_le.mpr many)

theorem isShort_fillNamed (count : Nat) :
    ∀ operation ∈ fillNamed count, operation.isShort = true := by
  intro operation member
  obtain ⟨i, _, rfl⟩ := List.mem_map.mp member
  exact (show decide (1 < fieldNameMax) = true by decide)

/-- A store with 65 fields of the local node and none in the world: the snapshot returns 0 and
lacks one of them. -/
theorem snapshot_incomplete :
    createWithNodeId 7 = some (blank 7) ∧
      (∀ operation ∈ fillNamed 65, operation.isShort = true) ∧
      ((blank 7).after (fillNamed 65)).DisjointNames ∧
      (((blank 7).after (fillNamed 65)).bbFromState .empty).2 = 0 ∧
      ¬ ((blank 7).after (fillNamed 65)).SnapshotComplete := by
  have created : createWithNodeId 7 = some (blank 7) := rfl
  have store := storeInvariant_after created (fillNamed 65)
  have filled := filledNamed_fill (show 65 ≤ fieldCapacity by decide)
  refine ⟨created, isShort_fillNamed 65, filled.disjointNames,
    (snapshot_spec (data_of_getNamed store)).1, fun complete => ?_⟩
  exact filled.not_fits (by decide) (by decide)
    (fits_of_snapshotComplete store (keyed_after created (isShort_fillNamed 65)) complete)

end FleeceStateManager

end Fleece
