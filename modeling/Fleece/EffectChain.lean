/-
This file is about the effects of an action, the script functions that
`js_action_apply` applies one after another to an object made of the blackboard. If
each function does on objects what a function on blackboards does, the blackboard
that is read back is the composition of these, up to the order of its fields.

Two things stand in the way. An action without effects fills in nothing, so its
blackboard is empty and not the source. And a field with the name `__proto__` does
not get into the object.
-/

import Fleece.JsEval

namespace Fleece

namespace FleeceGoapBlackboard

/-- The blackboard without the field of a name. -/
def without (bb : FleeceGoapBlackboard) (name : CString) : FleeceGoapBlackboard where
  fields := bb.fields.filter fun field => decide (field.name.toCString ≠ name)
  distinct := bb.distinct.sublist ((List.filter_sublist).map _)

/-- The call that sets a field. -/
def setCall (field : FleeceGoapField) : SetCall := ⟨field.name.toCString, field.data, field.isShared⟩

/-- The fields after calls with different names that are all accepted. -/
theorem mem_applySets_iff {bb : FleeceGoapBlackboard} {calls : List SetCall}
    (accepted : ∀ call ∈ calls, call.isAccepted = true)
    (apart : (calls.map SetCall.name).Nodup) {field : FleeceGoapField} :
    field ∈ (bb.applySets calls).fields ↔
      (∃ call ∈ calls, field.place = call.place ∧ field.data = call.data) ∨
        (field ∈ bb.fields ∧ ∀ call ∈ calls, field.name.toCString ≠ call.name) := by
  induction calls generalizing bb with
  | nil => simp [applySets]
  | cons call rest inductionHypothesis =>
    rw [List.map_cons, List.nodup_cons] at apart
    have here := accepted call List.mem_cons_self
    show field ∈ ((bb.set call.name call.data call.isShared).1.applySets rest).fields ↔ _
    rw [inductionHypothesis (fun other member => accepted other (List.mem_cons_of_mem _ member))
      apart.2, mem_set_iff here]
    constructor
    · rintro (⟨other, member, same⟩ | ⟨⟨place, data⟩ | ⟨old, notThis⟩, notLater⟩)
      · exact Or.inl ⟨other, List.mem_cons_of_mem _ member, same⟩
      · exact Or.inl ⟨call, List.mem_cons_self, place, data⟩
      · refine Or.inr ⟨old, fun other member => ?_⟩
        rcases List.mem_cons.mp member with rfl | later
        · exact notThis
        · exact notLater other later
    · rintro (⟨other, member, place, data⟩ | ⟨old, notThese⟩)
      · rcases List.mem_cons.mp member with rfl | later
        · refine Or.inr ⟨Or.inl ⟨place, data⟩, fun after isAfter same => apart.1 ?_⟩
          rw [show field.name.toCString = other.name from congrArg Prod.fst place] at same
          exact List.mem_map.mpr ⟨after, isAfter, same.symm⟩
        · exact Or.inl ⟨other, later, place, data⟩
      · exact Or.inr ⟨Or.inr ⟨old, notThese call List.mem_cons_self⟩,
          fun other member => notThese other (List.mem_cons_of_mem _ member)⟩

/-- Setting the fields of a blackboard, in any order, gives that blackboard. -/
theorem applySets_perm {bb : FleeceGoapBlackboard} {calls : List SetCall}
    (same : calls.Perm (bb.fields.map setCall)) :
    (FleeceGoapBlackboard.empty.applySets calls).fields.Perm bb.fields := by
  have accepted : ∀ call ∈ calls, call.isAccepted = true := by
    intro call member
    obtain ⟨field, _, rfl⟩ := List.mem_map.mp (same.mem_iff.mp member)
    exact Bool.and_eq_true_iff.mpr
      ⟨bne_iff_ne.mpr field.filled, decide_eq_true field.name.lengthLt⟩
  have apart : (calls.map SetCall.name).Nodup := by
    rw [(same.map SetCall.name).nodup_iff, List.map_map]
    exact bb.nodup_fields.map_on fun first isFirst second isSecond =>
      field_eq_of_name isFirst isSecond
  rw [List.perm_ext_iff_of_nodup (nodup_fields _) bb.nodup_fields]
  intro field
  rw [mem_applySets_iff accepted apart]
  simp only [same.mem_iff, List.mem_map]
  constructor
  · rintro (⟨_, ⟨held, member, rfl⟩, place, data⟩ | ⟨old, _⟩)
    · obtain ⟨name, space⟩ := Prod.mk.inj place
      exact field_ext name.symm space.symm (congrArg Blob.bytes data.symm) ▸ member
    · exact absurd old List.not_mem_nil
  · exact fun member => Or.inl ⟨_, ⟨field, member, rfl⟩, rfl, rfl⟩

end FleeceGoapBlackboard

namespace ScriptEngine

variable {Value Cost : Type} (engine : ScriptEngine Value Cost)

/-! ### Objects and blackboards -/

/-- The properties of the object are printed as the fields of the blackboard. -/
def Represents (object : BbObject Value) (bb : FleeceGoapBlackboard) : Prop :=
  ∀ isShared, ((object.properties isShared).map fun property =>
      (property.1, engine.stringify property.2)).Perm
    ((bb.fields.filter fun field => field.isShared == isShared).map fun field =>
      (field.name.toCString, some field.data))

/-- The value is an object, and it represents the blackboard. -/
def Shows (bbjs : Value) (bb : FleeceGoapBlackboard) : Prop :=
  ∃ object, engine.bbObject bbjs = some object ∧ engine.Represents object bb

/-- The source compiles to a function that does on objects what the effect does on blackboards. -/
def Realises (src : CString) (effect : FleeceGoapBlackboard → FleeceGoapBlackboard) : Prop :=
  ∀ bbjs bb, engine.Shows bbjs bb →
    ∃ result, engine.call (engine.jsFn src) bbjs = some result ∧ engine.Shows result (effect bb)

/-- Every field is a JSON text as the engine prints it. -/
def Canonical (bb : FleeceGoapBlackboard) : Prop :=
  ∀ field ∈ bb.fields, ∃ value, engine.parseJson field.data = some value ∧
    engine.isUndefined value = false ∧ engine.stringify value = some field.data

variable {engine} {bbjs : Value} {bb other : FleeceGoapBlackboard}

/-- The calls that the properties of a namespace make are those that set its fields. -/
theorem Represents.propertyCalls {object : BbObject Value} (represents : engine.Represents object bb)
    (isShared : Bool) : (engine.propertyCalls isShared (object.properties isShared)).Perm
      ((bb.fields.filter fun field => field.isShared == isShared).map
        FleeceGoapBlackboard.setCall) := by
  let callOf (printed : CString × Option Blob) : Option SetCall :=
    printed.2.map fun text => ⟨printed.1, text, isShared⟩
  have calls := (represents isShared).filterMap callOf
  rw [List.filterMap_map, List.filterMap_map] at calls
  refine calls.trans (List.Perm.of_eq ?_)
  rw [← List.filterMap_eq_map]
  refine List.filterMap_congr fun field member => ?_
  have space : field.isShared = isShared := beq_iff_eq.mp (List.mem_filter.mp member).2
  show some _ = some (FleeceGoapBlackboard.setCall field)
  rw [FleeceGoapBlackboard.setCall, space]

/-- The blackboard that is read from an object is the one it shows. -/
theorem Shows.goapJsToBb (shows : engine.Shows bbjs bb) :
    (engine.goapJsToBb bbjs .empty).1 = 0 ∧
      (engine.goapJsToBb bbjs .empty).2.fields.Perm bb.fields := by
  obtain ⟨object, read, represents⟩ := shows
  have whole : (engine.propertyCalls false object.self ++
      engine.propertyCalls true object.world).Perm
        (bb.fields.map FleeceGoapBlackboard.setCall) := by
    have parts := (represents.propertyCalls false).append (represents.propertyCalls true)
    refine parts.trans ?_
    rw [← List.map_append]
    refine List.Perm.map _ ?_
    have world : (fun field : FleeceGoapField => field.isShared == true) =
        fun field => !(field.isShared == false) := funext fun field => by
      cases field.isShared <;> rfl
    rw [world]
    exact List.filter_append_perm _ bb.fields
  unfold ScriptEngine.goapJsToBb
  rw [read]
  refine ⟨rfl, ?_⟩
  show (((FleeceGoapBlackboard.empty.applySets _).applySets _).fields).Perm _
  unfold FleeceGoapBlackboard.applySets
  rw [← List.foldl_append]
  exact FleeceGoapBlackboard.applySets_perm whole

/-- The property of a field in the object of a blackboard. -/
def fieldProperty (engine : ScriptEngine Value Cost) (field : FleeceGoapField) :
    Option (CString × Value) :=
  if field.name.toCString = protoName then none
  else ((engine.parseJson field.data).filter fun value => !engine.isUndefined value).map fun value =>
    (field.name.toCString, value)

theorem properties_addField (object : BbObject Value) (field : FleeceGoapField) (isShared : Bool) :
    (engine.addField object field).properties isShared = object.properties isShared ++
      if field.isShared == isShared then (engine.fieldProperty field).toList else [] := by
  unfold addField fieldProperty
  cases engine.parseJson field.data with
  | none =>
    simp
  | some value =>
    simp only [Option.filter_some]
    cases engine.isUndefined value with
    | true => simp
    | false =>
      simp only [Bool.not_false, if_true, Option.map_some, BbObject.setProperty,
        Bool.false_eq_true, if_false]
      by_cases proto : field.name.toCString = protoName
      · simp [proto]
      · cases field.isShared <;> cases isShared <;> simp [proto, BbObject.properties]

/-- The properties of the object that is made of fields. -/
theorem properties_foldl_addField (fields : List FleeceGoapField) (object : BbObject Value)
    (isShared : Bool) : (fields.foldl engine.addField object).properties isShared =
      object.properties isShared ++
        (fields.filter fun field => field.isShared == isShared).filterMap engine.fieldProperty := by
  induction fields generalizing object with
  | nil => rw [List.foldl_nil, List.filter_nil, List.filterMap_nil, List.append_nil]
  | cons field rest inductionHypothesis =>
    rw [List.foldl_cons, inductionHypothesis, properties_addField, List.filter_cons,
      List.append_assoc]
    congr 1
    split_ifs
    · rw [List.filterMap_cons]
      cases engine.fieldProperty field <;> rfl
    · rfl

theorem names_filterMap_sublist (fields : List FleeceGoapField) :
    ((fields.filterMap engine.fieldProperty).map Prod.fst).Sublist
      (fields.map fun field => field.name.toCString) := by
  induction fields with
  | nil => exact List.Sublist.refl _
  | cons field rest inductionHypothesis =>
    rw [List.filterMap_cons, List.map_cons]
    cases found : engine.fieldProperty field with
    | none => exact inductionHypothesis.cons _
    | some property =>
      have isName : property.1 = field.name.toCString := by
        unfold fieldProperty at found
        split_ifs at found
        obtain ⟨value, _, rfl⟩ := Option.map_eq_some_iff.mp found
        rfl
      show List.Sublist (property.1 :: _) _
      rw [isName]
      exact inductionHypothesis.cons_cons _

/-- Canonical fields are printed as they are, but for `__proto__`. -/
theorem print_filterMap {fields : List FleeceGoapField}
    (canonical : ∀ field ∈ fields, ∃ value, engine.parseJson field.data = some value ∧
      engine.isUndefined value = false ∧ engine.stringify value = some field.data) :
    ((fields.filterMap engine.fieldProperty).map fun property =>
        (property.1, engine.stringify property.2)) =
      (fields.filter fun field => decide (field.name.toCString ≠ protoName)).map fun field =>
        (field.name.toCString, some field.data) := by
  rw [← List.filterMap_eq_filter, List.map_filterMap, List.map_filterMap]
  refine List.filterMap_congr fun field member => ?_
  obtain ⟨value, parsed, isDefined, printed⟩ := canonical field member
  rw [fieldProperty, Option.guard_apply]
  by_cases proto : field.name.toCString = protoName
  · rw [if_pos proto, if_neg (by simp [proto])]
    rfl
  · rw [if_neg proto, if_pos (decide_eq_true proto), parsed, Option.filter_some, isDefined]
    exact congrArg (fun text => some (field.name.toCString, text)) printed

/-- The object of a blackboard shows it, but for the field `__proto__`. -/
theorem Canonical.shows (canonical : engine.Canonical bb) :
    engine.Shows (engine.goapBbToJs bb) (bb.without protoName) := by
  have properties (isShared : Bool) :
      (bb.fields.foldl engine.addField .empty).properties isShared =
        (bb.fields.filter fun field => field.isShared == isShared).filterMap
          engine.fieldProperty := by
    rw [properties_foldl_addField]
    cases isShared <;> rfl
  have distinct : (bb.fields.foldl engine.addField .empty).IsDistinct := by
    intro isShared
    rw [properties]
    refine (names_filterMap_sublist _).nodup ?_
    exact (bb.nodup_fields.filter _).map_on fun first isFirst second isSecond =>
      FleeceGoapBlackboard.field_eq_of_name (List.mem_of_mem_filter isFirst)
        (List.mem_of_mem_filter isSecond)
  obtain ⟨read, isRead, same⟩ := engine.bbObject_newObject _ distinct
  refine ⟨read, isRead, fun isShared => ((same isShared).map _).trans (List.Perm.of_eq ?_)⟩
  rw [properties, print_filterMap fun field member => canonical field (List.mem_of_mem_filter member),
    FleeceGoapBlackboard.without, List.filter_comm]

/-! ### The effects of an action -/

/-- The effects one after another, from the left. -/
def composition (effects : List (FleeceGoapBlackboard → FleeceGoapBlackboard))
    (bb : FleeceGoapBlackboard) : FleeceGoapBlackboard :=
  effects.foldl (fun bb effect => effect bb) bb

variable {sources : List CString}
  {effects : List (FleeceGoapBlackboard → FleeceGoapBlackboard)}

/-- The loop over the sources carries the composition. -/
theorem Shows.foldlM (realised : List.Forall₂ engine.Realises sources effects)
    (shows : engine.Shows bbjs bb) : ∃ result,
      sources.foldlM engine.applyEffect bbjs = some result ∧
        engine.Shows result (composition effects bb) := by
  induction realised generalizing bbjs bb with
  | nil => exact ⟨bbjs, rfl, shows⟩
  | @cons src effect sources effects isEffect _ inductionHypothesis =>
    obtain ⟨next, called, shown⟩ := isEffect bbjs bb shows
    obtain ⟨result, rest, last⟩ := inductionHypothesis shown
    have isObject : (engine.bbObject next).isSome = true := by
      obtain ⟨object, read, _⟩ := shown
      rw [read]
      rfl
    refine ⟨result, ?_, last⟩
    rw [List.foldlM_cons, applyEffect, called, Option.filter_some, isObject, if_pos rfl]
    exact rest

theorem Shows.unique (shows : engine.Shows bbjs bb) (also : engine.Shows bbjs other) :
    bb.fields.Perm other.fields :=
  shows.goapJsToBb.2.symm.trans also.goapJsToBb.2

theorem length_markName : ([0x78] : List UInt8).length < fieldNameMax := by decide

/-- The blackboard with one field of the node. -/
def marked : FleeceGoapBlackboard :=
  ⟨[⟨⟨⟨[0x78], noNul_markName⟩, length_markName⟩, ⟨[0x31], size_markData⟩, false,
    Nat.one_ne_zero⟩], List.nodup_singleton _⟩

/-- The blackboard with its fields in the other namespace. -/
def swapped (bb : FleeceGoapBlackboard) : FleeceGoapBlackboard where
  fields := bb.fields.map fun field => { field with isShared := !field.isShared }
  distinct := by
    rw [List.map_map]
    exact bb.distinct

end ScriptEngine

end Fleece
