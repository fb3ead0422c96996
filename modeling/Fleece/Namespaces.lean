/-
This file is about the two namespaces of a blackboard. A field is found by its name
over both, and `fleece_goap_bb_set` writes the namespace of the field it finds along
with the value. So a name lives in one namespace at a time: a call for the other one
moves the field there.

A blackboard is read as a map from places, a name in a namespace, to values. A set
and a delete each change the two places of one name and no other. After a run of
calls the blackboard holds what two independent namespaces would hold if and only
if no name was given in both.
-/

import Fleece.StateKeys

namespace Fleece

/-- A name in a namespace; `true` is the world. -/
abbrev Place := CString × Bool

/-- `fleece_goap_bb_set` returns 0: the value is not empty and the name fits its buffer. -/
def FleeceGoapBlackboard.accepts (name : CString) (data : Blob) : Bool :=
  data.size != 0 && decide (name.chars.length < fieldNameMax)

/-- The arguments of a call of `fleece_goap_bb_set`. -/
structure SetCall where
  name : CString
  data : Blob
  isShared : Bool
  deriving DecidableEq

namespace SetCall

/-- The place that the call sets. -/
def place (call : SetCall) : Place := (call.name, call.isShared)

/-- The call returns 0. -/
def isAccepted (call : SetCall) : Bool := FleeceGoapBlackboard.accepts call.name call.data

end SetCall

namespace FleeceGoapField

/-- The place that the field is at. -/
def place (field : FleeceGoapField) : Place := (field.name.toCString, field.isShared)

end FleeceGoapField

namespace FleeceGoapBlackboard

/-- `fleece_goap_bb_delete`. -/
def delete (bb : FleeceGoapBlackboard) (name : CString) : FleeceGoapBlackboard × Int :=
  match bb.index name with
  | none => (bb, 0)
  | some i =>
    (⟨bb.fields.eraseIdx i, bb.distinct.sublist ((bb.fields.eraseIdx_sublist i).map _)⟩, 0)

/-- The value at a place. -/
def space (bb : FleeceGoapBlackboard) (place : Place) : Option Blob :=
  (bb.fields.find? fun field => decide (field.place = place)).map FleeceGoapField.data

theorem place_inj {bb : FleeceGoapBlackboard} {field other : FleeceGoapField}
    (member : field ∈ bb.fields) (isOther : other ∈ bb.fields) (same : field.place = other.place) :
    field = other :=
  field_eq_of_name member isOther (Prod.mk.inj same).1

theorem space_eq_some_iff {bb : FleeceGoapBlackboard} {place : Place} {data : Blob} :
    bb.space place = some data ↔ ∃ field ∈ bb.fields, field.place = place ∧ field.data = data := by
  constructor
  · intro found
    obtain ⟨field, here, value⟩ := Option.map_eq_some_iff.mp found
    have isPlace := List.find?_some here
    exact ⟨field, List.mem_of_find?_eq_some here, of_decide_eq_true isPlace, value⟩
  · rintro ⟨field, member, rfl, rfl⟩
    cases found : bb.fields.find? fun other => decide (other.place = field.place) with
    | none => exact absurd rfl (of_decide_eq_false ((Bool.not_eq_true _).mp
        (List.find?_eq_none.mp found field member)))
    | some other =>
      have same := List.find?_some found
      rw [space, found, Option.map_some,
        place_inj (List.mem_of_find?_eq_some found) member (of_decide_eq_true same)]

theorem space_of_mem {bb : FleeceGoapBlackboard} {field : FleeceGoapField}
    (member : field ∈ bb.fields) : bb.space field.place = some field.data :=
  space_eq_some_iff.mpr ⟨field, member, rfl, rfl⟩

theorem space_eq_none_iff {bb : FleeceGoapBlackboard} {place : Place} :
    bb.space place = none ↔ ∀ field ∈ bb.fields, field.place ≠ place := by
  rw [space, Option.map_eq_none_iff, List.find?_eq_none]
  exact forall₂_congr fun _ _ => decide_eq_true_iff.not

/-- Two blackboards with the same values at all places hold the same fields, in whatever order. -/
theorem space_eq_iff {bb other : FleeceGoapBlackboard} :
    bb.space = other.space ↔ bb.fields.Perm other.fields := by
  have mem_of {bb other : FleeceGoapBlackboard} (same : bb.space = other.space)
      {field : FleeceGoapField} (member : field ∈ bb.fields) : field ∈ other.fields := by
    have found := space_of_mem member
    rw [same] at found
    obtain ⟨held, isHeld, place, value⟩ := space_eq_some_iff.mp found
    have name : held.name.toCString = field.name.toCString := congrArg Prod.fst place
    have isShared : held.isShared = field.isShared := congrArg Prod.snd place
    exact field_ext name isShared (congrArg Blob.bytes value) ▸ isHeld
  rw [List.perm_ext_iff_of_nodup bb.nodup_fields other.nodup_fields]
  refine ⟨fun same field => ⟨mem_of same, mem_of same.symm⟩,
    fun same => funext fun place => Option.ext fun value => ?_⟩
  rw [space_eq_some_iff, space_eq_some_iff]
  exact exists_congr fun field => and_congr_left fun _ => same field

/-- A name is held in one namespace at most. -/
theorem isShared_unique {bb : FleeceGoapBlackboard} {name : CString} {isShared other : Bool}
    {data value : Blob} (held : bb.space (name, isShared) = some data)
    (alsoHeld : bb.space (name, other) = some value) : isShared = other := by
  obtain ⟨field, member, place, _⟩ := space_eq_some_iff.mp held
  obtain ⟨second, isSecond, placeSecond, _⟩ := space_eq_some_iff.mp alsoHeld
  have same := field_eq_of_name member isSecond
    ((Prod.mk.inj place).1.trans (Prod.mk.inj placeSecond).1.symm)
  rw [← (Prod.mk.inj place).2, ← (Prod.mk.inj placeSecond).2, same]

/-- A read by name is the read of its two places, self first. -/
theorem get_eq (bb : FleeceGoapBlackboard) (name : CString) :
    bb.get name = (bb.space (name, false)).or (bb.space (name, true)) := by
  cases found : bb.index name with
  | none =>
    have absent (isShared : Bool) : bb.space (name, isShared) = none :=
      space_eq_none_iff.mpr fun field member place =>
        index_eq_none_iff.mp found field member (Prod.mk.inj place).1
    rw [get, found, absent, absent]
    rfl
  | some i =>
    obtain ⟨field, here, rfl⟩ := index_spec found
    have held := space_of_mem (List.mem_of_getElem? here)
    rw [get, found, Option.bind_some, here, Option.map_some]
    cases isShared : field.isShared with
    | false =>
      rw [FleeceGoapField.place, isShared] at held
      rw [held]
      rfl
    | true =>
      rw [FleeceGoapField.place, isShared] at held
      cases own : bb.space (field.name.toCString, false) with
      | none => exact held.symm
      | some data => exact absurd (isShared_unique own held) Bool.false_ne_true

/-! ### One call -/

theorem mem_replace_iff {bb : FleeceGoapBlackboard} {i : Nat} {old : FleeceGoapField}
    (here : bb.fields[i]? = some old) (data : Blob) (isShared : Bool) (filled : data.size ≠ 0)
    {field : FleeceGoapField} : field ∈ (bb.replace i data isShared filled).fields ↔
      field = ⟨old.name, data, isShared, filled⟩ ∨
        (field ∈ bb.fields ∧ field.name.toCString ≠ old.name.toCString) := by
  have inside : i < bb.fields.length := (List.getElem?_eq_some_iff.mp here).1
  constructor
  · intro member
    obtain ⟨j, at'⟩ := List.mem_iff_getElem?.mp member
    rw [replace, List.getElem?_modify] at at'
    rcases eq_or_ne i j with rfl | other
    · simp only [reduceIte, here] at at'
      exact Or.inl (Option.some.inj at').symm
    · simp only [if_neg other] at at'
      obtain ⟨held, isHeld, same⟩ := Option.map_eq_some_iff.mp at'
      obtain rfl : held = field := same
      refine Or.inr ⟨List.mem_of_getElem? isHeld, fun sameName => other ?_⟩
      have equal := field_eq_of_name (List.mem_of_getElem? isHeld) (List.mem_of_getElem? here)
        sameName
      rw [equal] at isHeld
      exact (List.getElem?_inj inside bb.nodup_fields).mp (here.trans isHeld.symm)
  · rintro (rfl | ⟨member, otherName⟩)
    · refine List.mem_iff_getElem?.mpr ⟨i, ?_⟩
      simp only [replace, List.getElem?_modify, reduceIte, here]
      rfl
    · obtain ⟨j, at'⟩ := List.mem_iff_getElem?.mp member
      refine List.mem_iff_getElem?.mpr ⟨j, ?_⟩
      have other : i ≠ j := by
        rintro rfl
        rw [here] at at'
        exact otherName (congrArg (fun field => field.name.toCString) (Option.some.inj at').symm)
      simp only [replace, List.getElem?_modify, if_neg other, at']
      rfl

theorem set_of_refused {bb : FleeceGoapBlackboard} {name : CString} {data : Blob}
    (refused : accepts name data = false) (isShared : Bool) :
    bb.set name data isShared = (bb, -1) := by
  unfold set
  by_cases empty : data.size = 0
  · rw [dif_pos empty]
  · have long : ¬ name.chars.length < fieldNameMax := by
      rcases Bool.and_eq_false_iff.mp refused with isEmpty | long
      · exact absurd (bne_eq_false_iff_eq.mp isEmpty) empty
      · exact of_decide_eq_false long
    rw [dif_neg empty]
    split
    next i found =>
      obtain ⟨field, _, isName⟩ := index_spec found
      exact absurd (isName ▸ field.name.lengthLt) long
    next => rw [dif_neg long]

/-- The fields after a set that is accepted: the field set, and those with other names. -/
theorem mem_set_iff {bb : FleeceGoapBlackboard} {name : CString} {data : Blob}
    (accepted : accepts name data = true) {isShared : Bool} {field : FleeceGoapField} :
    field ∈ (bb.set name data isShared).1.fields ↔
      (field.place = (name, isShared) ∧ field.data = data) ∨
        (field ∈ bb.fields ∧ field.name.toCString ≠ name) := by
  obtain ⟨nonempty, short⟩ := Bool.and_eq_true_iff.mp accepted
  have filled : data.size ≠ 0 := bne_iff_ne.mp nonempty
  have eq_iff {held : FieldName} (same : held.toCString = name) :
      field = ⟨held, data, isShared, filled⟩ ↔
        field.place = (name, isShared) ∧ field.data = data := by
    constructor
    · rintro rfl
      exact ⟨congrArg (·, isShared) same, rfl⟩
    · rintro ⟨place, value⟩
      obtain ⟨isName, space⟩ := Prod.mk.inj place
      exact field_ext (isName.trans same.symm) space (congrArg Blob.bytes value)
  unfold set
  rw [dif_neg filled]
  split
  next i found =>
    obtain ⟨old, here, isName⟩ := index_spec found
    rw [mem_replace_iff here, eq_iff isName, isName]
  next found =>
    rw [dif_pos (of_decide_eq_true short)]
    show field ∈ bb.fields ++ [_] ↔ _
    rw [List.mem_append, List.mem_singleton, eq_iff rfl, or_comm]
    refine or_congr_right (and_iff_left_of_imp fun member => ?_).symm
    exact index_eq_none_iff.mp found field member

theorem set_code {bb : FleeceGoapBlackboard} {name : CString} {data : Blob}
    {isShared : Bool} : (bb.set name data isShared).2 = 0 ↔ accepts name data = true := by
  cases accepted : accepts name data with
  | false =>
    rw [set_of_refused accepted isShared]
    exact iff_of_false (show (-1 : Int) ≠ 0 by decide) Bool.false_ne_true
  | true =>
    obtain ⟨nonempty, short⟩ := Bool.and_eq_true_iff.mp accepted
    unfold set
    rw [dif_neg (bne_iff_ne.mp nonempty)]
    split
    next => exact iff_of_true rfl rfl
    next =>
      rw [dif_pos (of_decide_eq_true short)]
      exact iff_of_true rfl rfl

/-- A set that is accepted takes both places of its name. -/
theorem space_set {bb : FleeceGoapBlackboard} {name : CString} {data : Blob}
    (accepted : accepts name data = true) {isShared : Bool} (place : Place) :
    (bb.set name data isShared).1.space place =
      if place = (name, isShared) then some data
      else if place.1 = name then none else bb.space place := by
  refine Option.ext fun value => ?_
  rw [space_eq_some_iff]
  simp only [mem_set_iff accepted]
  have here : ∃ field : FleeceGoapField, field.place = (name, isShared) ∧ field.data = data :=
    let ⟨nonempty, short⟩ := Bool.and_eq_true_iff.mp accepted
    ⟨⟨⟨name, of_decide_eq_true short⟩, data, isShared, bne_iff_ne.mp nonempty⟩, rfl, rfl⟩
  split_ifs with own sameName
  · constructor
    · rintro ⟨field, ⟨_, value⟩ | ⟨_, other⟩, isPlace, rfl⟩
      · exact congrArg some value.symm
      · exact absurd (congrArg Prod.fst (isPlace.trans own)) other
    · intro same
      obtain ⟨field, isPlace, value⟩ := here
      exact ⟨field, Or.inl ⟨isPlace, value⟩, isPlace.trans own.symm,
        value.trans (Option.some.inj same)⟩
  · refine iff_of_false ?_ (by simp)
    rintro ⟨field, ⟨isPlace, _⟩ | ⟨_, other⟩, rfl, _⟩
    · exact own isPlace
    · exact other sameName
  · rw [space_eq_some_iff]
    constructor
    · rintro ⟨field, ⟨isPlace, _⟩ | ⟨member, _⟩, rfl, value⟩
      · exact absurd isPlace own
      · exact ⟨field, member, rfl, value⟩
    · rintro ⟨field, member, rfl, value⟩
      exact ⟨field, Or.inr ⟨member, sameName⟩, rfl, value⟩

/-! ### A run of calls -/

/-- The blackboard after the calls, whatever they return. -/
def applySets (bb : FleeceGoapBlackboard) (calls : List SetCall) : FleeceGoapBlackboard :=
  calls.foldl (fun bb call => (bb.set call.name call.data call.isShared).1) bb

/-- What two namespaces that know nothing of each other hold after the calls. -/
def overlay (space : Place → Option Blob) (calls : List SetCall) : Place → Option Blob :=
  calls.foldl (fun space call =>
    if call.isAccepted then Function.update space call.place (some call.data) else space) space

/-- The places that the blackboard holds or an accepted call gives. -/
def places (bb : FleeceGoapBlackboard) (calls : List SetCall) : List Place :=
  bb.fields.map FleeceGoapField.place ++ (calls.filter SetCall.isAccepted).map SetCall.place

/-- The blackboard after the calls holds what two independent namespaces hold, a read by name
gives the self value first, and the state key has every one of these fields in it, up to a total
of 2^32 bytes. -/
structure IndependentNamespaces (bb : FleeceGoapBlackboard) (calls : List SetCall) : Prop where
  holds : (bb.applySets calls).space = overlay bb.space calls
  selfFirst : ∀ name, (bb.applySets calls).get name =
    (overlay bb.space calls (name, false)).or (overlay bb.space calls (name, true))
  inKey : (bb.applySets calls).keyLength < 2 ^ 32 → ∀ field : FleeceGoapField,
    overlay bb.space calls field.place = some field.data →
      fieldKey field <:+: (bb.applySets calls).makeStateKey

/-- No name is given in both namespaces. -/
def OneNamespaceEach (places : List Place) : Prop :=
  ∀ first ∈ places, ∀ second ∈ places, first.1 = second.1 → first.2 = second.2

instance (places : List Place) : Decidable (OneNamespaceEach places) :=
  inferInstanceAs (Decidable (∀ first ∈ places, ∀ second ∈ places, _ → _))

theorem overlay_cons (space : Place → Option Blob) (call : SetCall) (calls : List SetCall) :
    overlay space (call :: calls) = overlay
      (if call.isAccepted then Function.update space call.place (some call.data) else space)
      calls := rfl

/-- The two namespaces lose nothing. -/
theorem overlay_isSome {space : Place → Option Blob} {place : Place} (calls : List SetCall)
    (held : (space place).isSome = true) : (overlay space calls place).isSome = true := by
  induction calls generalizing space with
  | nil => exact held
  | cons call rest inductionHypothesis =>
    rw [overlay_cons]
    refine inductionHypothesis ?_
    split_ifs
    · rw [Function.update_apply]
      split_ifs
      · rfl
      · exact held
    · exact held

theorem overlay_isSome_of_mem {bb : FleeceGoapBlackboard} {calls : List SetCall} {place : Place}
    (member : place ∈ bb.places calls) : (overlay bb.space calls place).isSome = true := by
  rcases List.mem_append.mp member with start | given
  · obtain ⟨field, isField, rfl⟩ := List.mem_map.mp start
    exact overlay_isSome calls (by rw [space_of_mem isField]; rfl)
  · obtain ⟨call, isCall, rfl⟩ := List.mem_map.mp given
    obtain ⟨isCall, accepted⟩ := List.mem_filter.mp isCall
    obtain ⟨before, after, rfl⟩ := List.append_of_mem isCall
    rw [overlay, List.foldl_append, List.foldl_cons, if_pos accepted]
    exact overlay_isSome after (by rw [Function.update_self]; rfl)

/-- A set is a plain update where the name is not held in the other namespace. -/
theorem space_set_of_oneNamespace {bb : FleeceGoapBlackboard} {call : SetCall}
    {rest : List SetCall} (single : OneNamespaceEach (bb.places (call :: rest))) :
    (bb.set call.name call.data call.isShared).1.space =
      if call.isAccepted then Function.update bb.space call.place (some call.data)
      else bb.space := by
  cases accepted : call.isAccepted with
  | false => rw [set_of_refused accepted call.isShared, if_neg Bool.false_ne_true]
  | true =>
    have given : call.place ∈ bb.places (call :: rest) :=
      List.mem_append_right _ (List.mem_map_of_mem
        (List.mem_filter.mpr ⟨List.mem_cons_self, accepted⟩))
    rw [if_pos rfl]
    funext place
    rw [space_set accepted, Function.update_apply]
    show (if place = call.place then some call.data
      else if place.1 = call.name then none else bb.space place) = _
    split_ifs with own sameName
    · rfl
    · refine (space_eq_none_iff.mpr fun field member isPlace => own ?_).symm
      have held : place ∈ bb.places (call :: rest) :=
        List.mem_append_left _ (isPlace ▸ List.mem_map_of_mem member)
      exact Prod.ext sameName (single place held call.place given sameName)
    · rfl

theorem places_set_subset {bb : FleeceGoapBlackboard} {call : SetCall} {rest : List SetCall} :
    (bb.set call.name call.data call.isShared).1.places rest ⊆ bb.places (call :: rest) := by
  intro place member
  rcases List.mem_append.mp member with held | given
  · obtain ⟨field, isField, rfl⟩ := List.mem_map.mp held
    cases accepted : call.isAccepted with
    | false =>
      rw [set_of_refused accepted call.isShared] at isField
      exact List.mem_append_left _ (List.mem_map_of_mem isField)
    | true =>
      rcases (mem_set_iff accepted).mp isField with ⟨isPlace, _⟩ | ⟨isOld, _⟩
      · rw [isPlace]
        exact List.mem_append_right _ (List.mem_map_of_mem
          (List.mem_filter.mpr ⟨List.mem_cons_self, accepted⟩))
      · exact List.mem_append_left _ (List.mem_map_of_mem isOld)
  · obtain ⟨later, isLater, rfl⟩ := List.mem_map.mp given
    obtain ⟨isLater, accepted⟩ := List.mem_filter.mp isLater
    exact List.mem_append_right _ (List.mem_map_of_mem
      (List.mem_filter.mpr ⟨List.mem_cons_of_mem _ isLater, accepted⟩))

theorem space_applySets {bb : FleeceGoapBlackboard} {calls : List SetCall}
    (single : OneNamespaceEach (bb.places calls)) :
    (bb.applySets calls).space = overlay bb.space calls := by
  induction calls generalizing bb with
  | nil => rfl
  | cons call rest inductionHypothesis =>
    rw [overlay_cons, ← space_set_of_oneNamespace single]
    exact inductionHypothesis fun first isFirst second isSecond =>
      single first (places_set_subset isFirst) second (places_set_subset isSecond)

/-- A field that the blackboard holds stands in its state key. -/
theorem fieldKey_infix {bb : FleeceGoapBlackboard} (short : bb.keyLength < 2 ^ 32)
    {field : FleeceGoapField} (held : bb.space field.place = some field.data) :
    fieldKey field <:+: bb.makeStateKey := by
  obtain ⟨other, member, place, data⟩ := space_eq_some_iff.mp held
  obtain ⟨name, isShared⟩ := Prod.mk.inj place
  obtain rfl := field_ext name isShared (congrArg Blob.bytes data)
  obtain ⟨before, after, split⟩ := List.append_of_mem
    (bb.sortedFields_perm.mem_iff.mpr member)
  rw [makeStateKey_of_short short, keyBytes, split, List.map_append, List.map_cons,
    List.flatten_append, List.flatten_cons]
  exact ⟨_, _, List.append_assoc _ _ _⟩

/-- After any calls on any blackboard the two namespaces are independent if and only if no name
was given in both, by the blackboard or by an accepted call. -/
theorem namespaces_independent_iff (bb : FleeceGoapBlackboard) (calls : List SetCall) :
    bb.IndependentNamespaces calls ↔ OneNamespaceEach (bb.places calls) := by
  constructor
  · intro independent first isFirst second isSecond sameName
    obtain ⟨data, held⟩ := Option.isSome_iff_exists.mp (overlay_isSome_of_mem isFirst)
    obtain ⟨value, alsoHeld⟩ := Option.isSome_iff_exists.mp (overlay_isSome_of_mem isSecond)
    rw [← independent.holds] at held alsoHeld
    obtain ⟨name, isShared⟩ := first
    obtain rfl : name = second.1 := sameName
    exact isShared_unique held alsoHeld
  · intro single
    have holds := space_applySets single
    refine ⟨holds, fun name => ?_, fun short field held => ?_⟩
    · rw [get_eq, holds]
    · rw [← holds] at held
      exact fieldKey_infix short held

/-- `foodCount` is set to 1 in the self namespace and to 2 in the world: the self field is gone,
and a read gives 2. -/
theorem namespaces_collide :
    let foodCount : CString :=
      ⟨[0x66, 0x6f, 0x6f, 0x64, 0x43, 0x6f, 0x75, 0x6e, 0x74], by decide⟩
    let calls : List SetCall := [⟨foodCount, ⟨[0x31], by decide⟩, false⟩,
      ⟨foodCount, ⟨[0x32], by decide⟩, true⟩]
    ¬ empty.IndependentNamespaces calls ∧
      (empty.applySets calls).space (foodCount, false) = none ∧
      (empty.applySets calls).get foodCount = some ⟨[0x32], by decide⟩ := by
  intro foodCount calls
  have gone : (empty.applySets calls).space (foodCount, false) = none := by decide
  refine ⟨fun independent => ?_, gone, by decide⟩
  have held : overlay empty.space calls (foodCount, false) = some ⟨[0x31], by decide⟩ := by decide
  rw [← independent.holds, gone] at held
  cases held

end FleeceGoapBlackboard

end Fleece
