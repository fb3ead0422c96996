/-
This file models the callbacks that `fleece_goap_js.c` hands to the planner. The
sources of the tables are compiled on demand and kept in a cache under their kind,
index and position (`Fleece/SourceCache.lean`); the functions are called with an
object made of the blackboard.

The script engine is not part of the repository. It is a structure of functions: a
source compiles to a value or throws, a call answers a value or throws, and neither
changes anything else. The globals `platform` and `swarm` that every call sees are
part of the engine.

With a valid cache the callbacks are functions of the tables and the blackboard
alone, `jsEval`.
-/

import Fleece.GoalRanking
import Fleece.Namespaces
import Fleece.SourceCache

namespace Fleece

/-! ### The script engine -/

/-- The enumerable properties of the `self` and the `world` of an object `bb`. -/
structure BbObject (Value : Type) where
  self : List (CString × Value)
  world : List (CString × Value)

namespace BbObject

variable {Value : Type}

/-- An object whose two namespaces have no properties. -/
def empty : BbObject Value := ⟨[], []⟩

/-- The properties of a namespace. -/
def properties (object : BbObject Value) (isShared : Bool) : List (CString × Value) :=
  if isShared then object.world else object.self

/-- The names of a namespace are distinct. -/
def IsDistinct (object : BbObject Value) : Prop :=
  ∀ isShared, ((object.properties isShared).map Prod.fst).Nodup

end BbObject

/-- What the callbacks use of the engine. `eval` is `JS_Eval`, `none` an exception; `stringify` is
`none` where `JSON.stringify` throws or has no text; `newObject` makes the object of a blackboard and
`bbObject` reads it from a value that is an object, in an order of its own; `toNumber` is `none` where
the conversion throws. -/
structure ScriptEngine (Value Cost : Type) where
  eval : List UInt8 → Option Value
  undefined : Value
  isUndefined : Value → Bool
  isFunction : Value → Bool
  toBool : Value → Bool
  toNumber : Value → Option Cost
  parseJson : Blob → Option Value
  stringify : Value → Option Blob
  newObject : BbObject Value → Value
  bbObject : Value → Option (BbObject Value)
  call : Value → Value → Option Value
  isUndefined_undefined : isUndefined undefined = true
  isFunction_of_isUndefined : ∀ value, isUndefined value = true → isFunction value = false
  call_of_not_isFunction : ∀ value bb, isFunction value = false → call value bb = none
  bbObject_newObject : ∀ object : BbObject Value, object.IsDistinct →
    ∃ read, bbObject (newObject object) = some read ∧
      ∀ isShared, (read.properties isShared).Perm (object.properties isShared)

/-- `GOAP_FN_*`. -/
inductive GoapFnKind where
  | pre
  | eff
  | goal
  | cost
  | exec
  deriving DecidableEq

/-- The function cache of a `FleeceGoapJsEval`. -/
abbrev FleeceGoapJsEval (Value : Type) := SourceCache (GoapFnKind × Nat × Nat) CString Value

/-- `"__proto__"`. -/
def protoName : CString := ⟨[0x5F, 0x5F, 0x70, 0x72, 0x6F, 0x74, 0x6F, 0x5F, 0x5F], by decide⟩

namespace BbObject

variable {Value : Type}

/-- `JS_SetPropertyStr` with a new name. Under `__proto__` it sets the prototype, if anything. -/
def setProperty (object : BbObject Value) (isShared : Bool) (name : CString) (value : Value) :
    BbObject Value :=
  if name = protoName then object
  else if isShared then { object with world := object.world ++ [(name, value)] }
  else { object with self := object.self ++ [(name, value)] }

end BbObject

namespace ScriptEngine

variable {Value Cost : Type} (engine : ScriptEngine Value Cost)

/-! ### Compilation -/

/-- `compile_goap_fn`. -/
def compileGoapFn (src : CString) : Option Value := engine.eval ([0x28] ++ src.chars ++ [0x29])

/-- What the cache holds for a source: `undefined` if it throws. -/
def compiled (src : CString) : Value := (engine.compileGoapFn src).getD engine.undefined

/-- `goap_get_js_fn`. -/
def goapGetJsFn (je : FleeceGoapJsEval Value) (kind : GoapFnKind) (idx sub : Nat) (src : CString) :
    Value × FleeceGoapJsEval Value :=
  if src.chars = [] then (engine.undefined, je) else je.fetch engine.compiled (kind, idx, sub) src

/-- The function of a source, or `undefined`. -/
def jsFn (src : CString) : Value :=
  if src.chars = [] then engine.undefined else engine.compiled src

/-! ### The object of a blackboard -/

/-- A field of a blackboard becomes a property, unless its value does not parse. -/
def addField (object : BbObject Value) (field : FleeceGoapField) : BbObject Value :=
  match engine.parseJson field.data with
  | none => object
  | some value =>
    if engine.isUndefined value then object
    else object.setProperty field.isShared field.name.toCString value

/-- `goap_bb_to_js`. -/
def goapBbToJs (bb : FleeceGoapBlackboard) : Value :=
  engine.newObject (bb.fields.foldl engine.addField .empty)

/-- The calls of `fleece_goap_bb_set` in `goap_js_object_to_bb`. -/
def propertyCalls (isShared : Bool) (properties : List (CString × Value)) : List SetCall :=
  properties.filterMap fun property =>
    (engine.stringify property.2).map fun text => ⟨property.1, text, isShared⟩

/-- `goap_js_to_bb`: the code, and the blackboard. -/
def goapJsToBb (bbjs : Value) (dst : FleeceGoapBlackboard) : Int × FleeceGoapBlackboard :=
  match engine.bbObject bbjs with
  | none => (-1, dst)
  | some object =>
    (0, (dst.applySets (engine.propertyCalls false object.self)).applySets
      (engine.propertyCalls true object.world))

/-! ### The callbacks -/

/-- The loop of `js_action_pre` from a position on. -/
def preLoop (bbjs : Value) (actionIdx : Nat) :
    Nat → List CString → FleeceGoapJsEval Value → Bool × FleeceGoapJsEval Value
  | _, [], je => (true, je)
  | i, src :: rest, je =>
    let fn := engine.goapGetJsFn je .pre actionIdx i src
    if engine.isUndefined fn.1 then preLoop bbjs actionIdx (i + 1) rest fn.2
    else if engine.isFunction fn.1 then
      match engine.call fn.1 bbjs with
      | none => (false, fn.2)
      | some result =>
        if engine.toBool result then preLoop bbjs actionIdx (i + 1) rest fn.2
        else (false, fn.2)
    else (false, fn.2)

/-- The sources of an action's preconditions. -/
def preSources (tables : GoapTables) (actionIdx : Nat) : List CString :=
  ((tables.actions[actionIdx]?).map PlanAction.pre).getD []

/-- The effect sources of an action, none where the index is out of range. -/
def effSources (tables : GoapTables) (actionIdx : Nat) : List CString :=
  ((tables.actions[actionIdx]?).map PlanAction.eff).getD []

/-- `fleece_goap_action_cost_source`. -/
def costSource (tables : GoapTables) (actionIdx : Nat) : CString :=
  ((tables.actions[actionIdx]?).map PlanAction.cost).getD .empty

/-- `fleece_goap_action_exec`. -/
def execSource (tables : GoapTables) (actionIdx : Nat) : CString :=
  ((tables.actions[actionIdx]?).map PlanAction.exec).getD .empty

/-- `fleece_goap_goal_expr`. -/
def goalSource (tables : GoapTables) (goalIdx : Nat) : CString :=
  ((tables.goals[goalIdx]?).map PlanGoal.expr).getD .empty

/-- `js_action_pre`. -/
def jsActionPre (tables : GoapTables) (je : FleeceGoapJsEval Value) (actionIdx : Nat)
    (bb : FleeceGoapBlackboard) : (Int × Bool) × FleeceGoapJsEval Value :=
  let result := engine.preLoop (engine.goapBbToJs bb) actionIdx 0 (preSources tables actionIdx) je
  ((0, result.1), result.2)

/-- A call answers a true value. -/
def answersTrue (fn bbjs : Value) : Bool := (engine.call fn bbjs).any engine.toBool

/-- `js_goal_satisfied`. -/
def jsGoalSatisfied (tables : GoapTables) (je : FleeceGoapJsEval Value) (goalIdx : Nat)
    (bb : FleeceGoapBlackboard) : (Int × Bool) × FleeceGoapJsEval Value :=
  let fn := engine.goapGetJsFn je .goal goalIdx 0 (goalSource tables goalIdx)
  if engine.isFunction fn.1 then
    ((0, engine.answersTrue fn.1 (engine.goapBbToJs bb)), fn.2)
  else ((0, false), fn.2)

/-- The loop of `js_action_apply` from a position on, with the object so far. -/
def effLoop (actionIdx : Nat) :
    Nat → List CString → Value → FleeceGoapJsEval Value → Option Value × FleeceGoapJsEval Value
  | _, [], bbjs, je => (some bbjs, je)
  | i, src :: rest, bbjs, je =>
    let fn := engine.goapGetJsFn je .eff actionIdx i src
    if engine.isFunction fn.1 then
      match (engine.call fn.1 bbjs).filter fun result => (engine.bbObject result).isSome with
      | none => (none, fn.2)
      | some result => effLoop actionIdx (i + 1) rest result fn.2
    else (none, fn.2)

/-- `js_action_apply`, with the blackboard it fills. -/
def jsActionApply (tables : GoapTables) (je : FleeceGoapJsEval Value) (actionIdx : Nat)
    (src dst : FleeceGoapBlackboard) : (Int × FleeceGoapBlackboard) × FleeceGoapJsEval Value :=
  let sources := effSources tables actionIdx
  if sources = [] then ((0, dst), je)
  else
    match engine.effLoop actionIdx 0 sources (engine.goapBbToJs src) je with
    | (none, je) => ((-1, dst), je)
    | (some bbjs, je) => (engine.goapJsToBb bbjs dst, je)

section Cost

variable [One Cost] [Zero Cost] [LT Cost] [DecidableLT Cost]

/-- A cost that is not a number or negative is one. -/
def costOf (value : Value) : Cost :=
  match engine.toNumber value with
  | none => 1
  | some cost => if cost < 0 then 1 else cost

/-- `js_action_cost`: without a source the cost is 1. -/
def jsActionCost (tables : GoapTables) (je : FleeceGoapJsEval Value) (actionIdx : Nat)
    (bb : FleeceGoapBlackboard) : (Int × Cost) × FleeceGoapJsEval Value :=
  let v := engine.goapGetJsFn je .cost actionIdx 0 (costSource tables actionIdx)
  if engine.isUndefined v.1 then ((0, 1), v.2)
  else if engine.isFunction v.1 then
    match engine.call v.1 (engine.goapBbToJs bb) with
    | none => ((0, 1), v.2)
    | some result => ((0, engine.costOf result), v.2)
  else ((0, engine.costOf v.1), v.2)

/-! ### The callbacks without the cache -/

/-- A precondition is passed over if there is nothing to call, and else its call answers a true
value. -/
def passes (bbjs : Value) (src : CString) : Bool :=
  engine.isUndefined (engine.jsFn src) || engine.answersTrue (engine.jsFn src) bbjs

/-- The object that an effect returns. -/
def applyEffect (bbjs : Value) (src : CString) : Option Value :=
  (engine.call (engine.jsFn src) bbjs).filter fun result => (engine.bbObject result).isSome

/-- The callbacks as functions of the tables and the blackboard. -/
def jsEval (tables : GoapTables) : FleeceGoapEval Cost where
  actionPre := fun a bb => (0, (preSources tables a).all (engine.passes (engine.goapBbToJs bb)))
  actionApply := fun a bb =>
    if effSources tables a = [] then (0, .empty)
    else
      match (effSources tables a).foldlM engine.applyEffect (engine.goapBbToJs bb) with
      | none => (-1, .empty)
      | some bbjs => engine.goapJsToBb bbjs .empty
  goalSatisfied := fun g bb =>
    (0, engine.answersTrue (engine.jsFn (goalSource tables g)) (engine.goapBbToJs bb))
  actionCost := some fun a bb =>
    (0,
      if engine.isUndefined (engine.jsFn (costSource tables a)) then 1
      else if engine.isFunction (engine.jsFn (costSource tables a)) then
        match engine.call (engine.jsFn (costSource tables a)) (engine.goapBbToJs bb) with
        | none => 1
        | some result => engine.costOf result
      else engine.costOf (engine.jsFn (costSource tables a)))

end Cost

section Cached

variable {engine} {je : FleeceGoapJsEval Value}

theorem not_isUndefined_of_isFunction {value : Value} (isFunction : engine.isFunction value = true) :
    engine.isUndefined value = false := by
  cases undefined : engine.isUndefined value with
  | false => rfl
  | true =>
    rw [engine.isFunction_of_isUndefined value undefined] at isFunction
    cases isFunction

theorem answersTrue_of_not_isFunction {fn : Value} (noFunction : engine.isFunction fn = false)
    (bbjs : Value) : engine.answersTrue fn bbjs = false := by
  rw [answersTrue, engine.call_of_not_isFunction fn bbjs noFunction]
  rfl

variable (valid : je.Valid engine.compiled)
include valid

theorem goapGetJsFn_fst (kind : GoapFnKind) (idx sub : Nat) (src : CString) :
    (engine.goapGetJsFn je kind idx sub src).1 = engine.jsFn src := by
  unfold goapGetJsFn jsFn
  split_ifs
  · rfl
  · exact valid.fetch_value _ src

theorem goapGetJsFn_valid (kind : GoapFnKind) (idx sub : Nat) (src : CString) :
    (engine.goapGetJsFn je kind idx sub src).2.Valid engine.compiled := by
  unfold goapGetJsFn
  split_ifs
  · exact valid
  · exact valid.fetch _ src

theorem preLoop_eq (bbjs : Value) (a i : Nat) (sources : List CString) :
    (engine.preLoop bbjs a i sources je).1 = sources.all (engine.passes bbjs) ∧
      (engine.preLoop bbjs a i sources je).2.Valid engine.compiled := by
  induction sources generalizing i je with
  | nil => exact ⟨rfl, valid⟩
  | cons src rest inductionHypothesis =>
    have fn := goapGetJsFn_fst valid .pre a i src
    have next := goapGetJsFn_valid valid .pre a i src
    rw [preLoop, List.all_cons, passes]
    simp only [fn]
    split_ifs with undefined isFunction
    · rw [undefined]
      exact inductionHypothesis next (i + 1)
    · rw [(Bool.not_eq_true _).mp undefined, Bool.false_or, answersTrue]
      split
      next threw => exact ⟨by rw [threw]; rfl, next⟩
      next result answered =>
        rw [answered, Option.any_some]
        split_ifs with holds
        · rw [holds]
          exact inductionHypothesis next (i + 1)
        · exact ⟨by rw [(Bool.not_eq_true _).mp holds, Bool.false_and], next⟩
    · rw [(Bool.not_eq_true _).mp undefined,
        answersTrue_of_not_isFunction ((Bool.not_eq_true _).mp isFunction)]
      exact ⟨rfl, next⟩

theorem effLoop_eq (bbjs : Value) (a i : Nat) (sources : List CString) :
    (engine.effLoop a i sources bbjs je).1 = sources.foldlM engine.applyEffect bbjs ∧
      (engine.effLoop a i sources bbjs je).2.Valid engine.compiled := by
  induction sources generalizing i bbjs je with
  | nil => exact ⟨rfl, valid⟩
  | cons src rest inductionHypothesis =>
    have fn := goapGetJsFn_fst valid .eff a i src
    have next := goapGetJsFn_valid valid .eff a i src
    rw [effLoop, List.foldlM_cons, applyEffect]
    simp only [fn]
    split_ifs with isFunction
    · split
      next failed => exact ⟨by rw [failed]; rfl, next⟩
      next result returned =>
        rw [returned]
        exact inductionHypothesis next result (i + 1)
    · rw [engine.call_of_not_isFunction _ _ ((Bool.not_eq_true _).mp isFunction)]
      exact ⟨rfl, next⟩

/-- The cache does not show in what the callbacks answer. -/
theorem jsActionPre_eq [One Cost] [Zero Cost] [LT Cost] [DecidableLT Cost] (tables : GoapTables)
    (a : Nat) (bb : FleeceGoapBlackboard) :
    (engine.jsActionPre tables je a bb).1 = (engine.jsEval tables).actionPre a bb ∧
      (engine.jsActionPre tables je a bb).2.Valid engine.compiled := by
  obtain ⟨same, next⟩ := preLoop_eq valid (engine.goapBbToJs bb) a 0 (preSources tables a)
  exact ⟨congrArg (Prod.mk 0) same, next⟩

theorem jsGoalSatisfied_eq [One Cost] [Zero Cost] [LT Cost] [DecidableLT Cost] (tables : GoapTables)
    (g : Nat) (bb : FleeceGoapBlackboard) :
    (engine.jsGoalSatisfied tables je g bb).1 = (engine.jsEval tables).goalSatisfied g bb ∧
      (engine.jsGoalSatisfied tables je g bb).2.Valid engine.compiled := by
  have fn := goapGetJsFn_fst valid .goal g 0 (goalSource tables g)
  have next := goapGetJsFn_valid valid .goal g 0 (goalSource tables g)
  unfold jsGoalSatisfied jsEval
  simp only [fn]
  split_ifs with isFunction
  · exact ⟨rfl, next⟩
  · rw [answersTrue_of_not_isFunction ((Bool.not_eq_true _).mp isFunction)]
    exact ⟨rfl, next⟩

theorem jsActionApply_eq [One Cost] [Zero Cost] [LT Cost] [DecidableLT Cost] (tables : GoapTables)
    (a : Nat) (src : FleeceGoapBlackboard) :
    (engine.jsActionApply tables je a src .empty).1 = (engine.jsEval tables).actionApply a src ∧
      (engine.jsActionApply tables je a src .empty).2.Valid engine.compiled := by
  obtain ⟨same, next⟩ := effLoop_eq valid (engine.goapBbToJs src) a 0 (effSources tables a)
  unfold jsActionApply jsEval
  simp only
  split_ifs
  · exact ⟨rfl, valid⟩
  · generalize engine.effLoop a 0 (effSources tables a) (engine.goapBbToJs src) je = result
      at same next ⊢
    obtain ⟨object, je⟩ := result
    rw [← show object = _ from same]
    cases object with
    | none => exact ⟨rfl, next⟩
    | some bbjs => exact ⟨rfl, next⟩

theorem jsActionCost_eq [One Cost] [Zero Cost] [LT Cost] [DecidableLT Cost] (tables : GoapTables)
    (a : Nat) (bb : FleeceGoapBlackboard) :
    some (engine.jsActionCost tables je a bb).1 =
        (engine.jsEval tables).actionCost.map (fun cost => cost a bb) ∧
      (engine.jsActionCost tables je a bb).2.Valid engine.compiled := by
  have fn := goapGetJsFn_fst valid .cost a 0 (costSource tables a)
  have next := goapGetJsFn_valid valid .cost a 0 (costSource tables a)
  unfold jsActionCost jsEval
  simp only [fn, Option.map_some]
  split_ifs
  · exact ⟨rfl, next⟩
  · cases engine.call (engine.jsFn (costSource tables a)) (engine.goapBbToJs bb) with
    | none => exact ⟨rfl, next⟩
    | some result => exact ⟨rfl, next⟩
  · exact ⟨rfl, next⟩

end Cached

end ScriptEngine

/-! ### A small engine -/

theorem noNul_markName : (0 : UInt8) ∉ ([0x78] : List UInt8) := by decide

theorem size_markData : ([0x31] : List UInt8).length < 2 ^ 32 := by decide

/-- The functions are constants, the identity, and the one that exchanges `self` and `world`. -/
inductive SampleValue where
  | undefined
  | bool (holds : Bool)
  | text (data : Blob)
  | object (self world : List (CString × SampleValue))
  | answer (holds : Bool)
  | identity
  | mark
  | swap

namespace SampleValue

/-- `t` and `f` are the functions that return a constant, `i` is the one that returns its argument,
`m` returns an object with the field `self.x` of the text `1`, and `s` exchanges `self` and `world`;
nothing else compiles. -/
def eval : List UInt8 → Option SampleValue
  | [0x28, 0x74, 0x29] => some (.answer true)
  | [0x28, 0x66, 0x29] => some (.answer false)
  | [0x28, 0x69, 0x29] => some .identity
  | [0x28, 0x6D, 0x29] => some .mark
  | [0x28, 0x73, 0x29] => some .swap
  | _ => none

/-- The value is `undefined`. -/
def isUndefined : SampleValue → Bool
  | .undefined => true
  | _ => false

/-- The value can be called. -/
def isFunction : SampleValue → Bool
  | .answer _ => true
  | .identity => true
  | .mark => true
  | .swap => true
  | _ => false

/-- `JS_ToBool`. -/
def toBool : SampleValue → Bool
  | .undefined => false
  | .bool holds => holds
  | _ => true

/-- `JS_JSONStringify` of a property, which is a text. -/
def stringify : SampleValue → Option Blob
  | .text data => some data
  | _ => none

/-- The properties of an object, by namespace. -/
def bbObject : SampleValue → Option (BbObject SampleValue)
  | .object self world => some ⟨self, world⟩
  | _ => none

/-- `JS_Call` with the object as its argument. -/
def call : SampleValue → SampleValue → Option SampleValue
  | .answer holds, _ => some (.bool holds)
  | .identity, bbjs => some bbjs
  | .mark, _ => some (.object [(⟨[0x78], noNul_markName⟩, .text ⟨[0x31], size_markData⟩)] [])
  | .swap, .object self world => some (.object world self)
  | _, _ => none

theorem isFunction_of_isUndefined (value : SampleValue) (undefined : isUndefined value = true) :
    isFunction value = false := by
  cases value with
  | undefined => rfl
  | _ => cases undefined

theorem call_of_not_isFunction (value bbjs : SampleValue) (noFunction : isFunction value = false) :
    call value bbjs = none := by
  cases value with
  | answer holds => cases noFunction
  | identity => cases noFunction
  | mark => cases noFunction
  | swap => cases noFunction
  | _ => rfl

theorem bbObject_newObject (object : BbObject SampleValue) (_ : object.IsDistinct) :
    ∃ read, bbObject (.object object.self object.world) = some read ∧
      ∀ isShared, (read.properties isShared).Perm (object.properties isShared) :=
  ⟨object, rfl, fun _ => List.Perm.refl _⟩

end SampleValue

/-- An engine of a few functions, which tells them apart by their sources. -/
def sampleEngine : ScriptEngine SampleValue Int where
  eval := SampleValue.eval
  undefined := .undefined
  isUndefined := SampleValue.isUndefined
  isFunction := SampleValue.isFunction
  toBool := SampleValue.toBool
  toNumber := fun _ => none
  parseJson := fun data => some (.text data)
  stringify := SampleValue.stringify
  newObject := fun object => .object object.self object.world
  bbObject := SampleValue.bbObject
  call := SampleValue.call
  isUndefined_undefined := rfl
  isFunction_of_isUndefined := SampleValue.isFunction_of_isUndefined
  call_of_not_isFunction := SampleValue.call_of_not_isFunction
  bbObject_newObject := SampleValue.bbObject_newObject

end Fleece
