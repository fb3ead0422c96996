/-
This file models the blackboard of `fleece_planner.c`, the state the planner
searches over: an ordered array of named fields, each in one of two namespaces,
and the byte string the search tells states apart by.

No two fields of a blackboard share a name and no field is empty, as every
blackboard is filled through `fleece_goap_bb_set`. A definition carries the name of
the source function it models, without the `fleece_goap_bb_` prefix; allocation is
taken to succeed.
-/

import Fleece.StateManager

namespace Fleece

/-- `FleeceGoapField`. Its name has the size of a field name of the store. -/
structure FleeceGoapField where
  name : FieldName
  data : Blob
  isShared : Bool
  filled : data.size ≠ 0
  deriving DecidableEq

/-- `FleeceGoapBlackboard`, up to its count. -/
structure FleeceGoapBlackboard where
  fields : List FleeceGoapField
  distinct : (fields.map FleeceGoapField.name).Nodup
  deriving DecidableEq

namespace FleeceGoapBlackboard

/-- A blackboard without fields. -/
def empty : FleeceGoapBlackboard := ⟨[], List.nodup_nil⟩

/-- Lookup by name, over both namespaces. -/
def index (bb : FleeceGoapBlackboard) (name : CString) : Option Nat :=
  bb.fields.findIdx? fun field => decide (field.name.toCString = name)

/-- `fleece_goap_bb_get`. -/
def get (bb : FleeceGoapBlackboard) (name : CString) : Option Blob :=
  (bb.index name).bind fun i => (bb.fields[i]?).map FleeceGoapField.data

/-- Overwrite the value and the namespace of the field at a position. -/
def replace (bb : FleeceGoapBlackboard) (i : Nat) (data : Blob) (isShared : Bool)
    (filled : data.size ≠ 0) : FleeceGoapBlackboard where
  fields := bb.fields.modify i fun field => ⟨field.name, data, isShared, filled⟩
  distinct := by
    have names : (bb.fields.modify i fun field => ⟨field.name, data, isShared, filled⟩).map
        FleeceGoapField.name = bb.fields.map FleeceGoapField.name := by
      refine List.ext_getElem? fun j => ?_
      rw [List.getElem?_map, List.getElem?_map, List.getElem?_modify]
      cases bb.fields[j]? with
      | none => rfl
      | some field =>
        rw [Option.map_eq_map, Option.map_some, Option.map_some]
        split_ifs <;> rfl
    rw [names]
    exact bb.distinct

theorem index_eq_none_iff {bb : FleeceGoapBlackboard} {name : CString} :
    bb.index name = none ↔ ∀ field ∈ bb.fields, field.name.toCString ≠ name := by
  rw [index, List.findIdx?_eq_none_iff]
  exact forall₂_congr fun _ _ => decide_eq_false_iff_not

/-- Put a field with a new name behind the others. -/
def append (bb : FleeceGoapBlackboard) (field : FleeceGoapField)
    (absent : bb.index field.name.toCString = none) : FleeceGoapBlackboard where
  fields := bb.fields ++ [field]
  distinct := by
    rw [List.map_append, List.nodup_append]
    refine ⟨bb.distinct, List.nodup_singleton _, ?_⟩
    intro name member other single
    obtain ⟨held, isHeld, rfl⟩ := List.mem_map.mp member
    rw [List.mem_singleton.mp single]
    exact fun same => index_eq_none_iff.mp absent held isHeld (congrArg FieldName.toCString same)

/-- `fleece_goap_bb_set`, which goes by the name alone and moves a field to the namespace it is
given. -/
def set (bb : FleeceGoapBlackboard) (name : CString) (data : Blob) (isShared : Bool) :
    FleeceGoapBlackboard × Int :=
  if empty : data.size = 0 then (bb, -1)
  else
    match found : bb.index name with
    | some i => (bb.replace i data isShared empty, 0)
    | none =>
      if short : name.chars.length < fieldNameMax then
        (bb.append ⟨⟨name, short⟩, data, isShared, empty⟩ found, 0)
      else (bb, -1)

/-- The loop of `fleece_goap_bb_clone`. -/
def cloneFrom (dst : FleeceGoapBlackboard) : List FleeceGoapField → FleeceGoapBlackboard × Int
  | [] => (dst, 0)
  | field :: rest =>
    let result := dst.set field.name.toCString field.data field.isShared
    if result.2 = 0 then cloneFrom result.1 rest else (.empty, -1)

/-- `fleece_goap_bb_clone`. -/
def clone (src : FleeceGoapBlackboard) : FleeceGoapBlackboard × Int := cloneFrom .empty src.fields

/-- A clone of the rest of the fields, put behind those that are there. -/
theorem cloneFrom_eq (dst : FleeceGoapBlackboard) (rest : List FleeceGoapField)
    (distinct : ((dst.fields ++ rest).map FleeceGoapField.name).Nodup) :
    cloneFrom dst rest = (⟨dst.fields ++ rest, distinct⟩, 0) := by
  induction rest generalizing dst with
  | nil =>
    rw [cloneFrom, Prod.mk.injEq, FleeceGoapBlackboard.mk.injEq]
    exact ⟨(List.append_nil _).symm, rfl⟩
  | cons field rest inductionHypothesis =>
    have absent : dst.index field.name.toCString = none := by
      refine index_eq_none_iff.mpr fun held isHeld same => ?_
      rw [List.map_append, List.nodup_append] at distinct
      refine distinct.2.2 held.name (List.mem_map_of_mem isHeld) field.name
        (List.mem_map_of_mem List.mem_cons_self) ?_
      cases heldName : held.name
      cases fieldName : field.name
      rw [heldName, fieldName] at same
      cases same
      rfl
    have put : dst.set field.name.toCString field.data field.isShared =
        (dst.append field absent, 0) := by
      unfold set
      rw [dif_neg field.filled]
      split
      next found =>
        rw [absent] at found
        cases found
      next => rw [dif_pos field.name.lengthLt]
    have moved : (dst.append field absent).fields ++ rest = dst.fields ++ field :: rest :=
      List.append_assoc _ _ _
    simp only [cloneFrom]
    rw [put, if_pos rfl, inductionHypothesis _ (moved ▸ distinct)]
    simp only [moved]

/-- A clone is the blackboard itself. -/
theorem clone_eq (src : FleeceGoapBlackboard) : src.clone = (src, 0) :=
  cloneFrom_eq .empty src.fields src.distinct

/-! ### The state key -/

/-- One pass of the insertion sort of `make_state_key`: the fields sorted so far, last first, and
the next one moved in front of those with a greater name. -/
def insertBackwards (field : FleeceGoapField) : List FleeceGoapField → List FleeceGoapField
  | [] => [field]
  | held :: rest =>
    if field.name.chars < held.name.chars then held :: insertBackwards field rest
    else field :: held :: rest

/-- The fields as `make_state_key` sorts them, by name. -/
def sortedFields (bb : FleeceGoapBlackboard) : List FleeceGoapField :=
  (bb.fields.foldl (fun sorted field => insertBackwards field sorted) []).reverse

/-- `w` or `s` and a colon, the name, the separator 0x1F and the value. -/
def fieldKey (field : FleeceGoapField) : List UInt8 :=
  (if field.isShared then 0x77 else 0x73) :: 0x3A :: field.name.chars ++ 0x1F :: field.data.bytes

/-- `make_state_key`: the bytes that its length, a `uint32_t`, covers. -/
def makeStateKey (bb : FleeceGoapBlackboard) : List UInt8 :=
  let buf := (bb.sortedFields.map fieldKey).flatten
  buf.take (buf.length % 2 ^ 32)

end FleeceGoapBlackboard

end Fleece
