/-
This file models what `fleece_goap_js.c` does with the goal that a brain holds:
`action_library_tick`, which completes the goal, runs the action that applies to it,
or authors a prerequisite and gives the claim up, and
`goal_pool_spawn_prerequisite`.

A call of a script may answer otherwise each time and may use the store. What the calls
of one tick come to is a parameter: for each call, by its number, an answer and the
operations on the store that it makes. The event callback is left out; the events are
listed.
-/

import Fleece.Auction
import Fleece.BrainTick
import Fleece.History
import Fleece.Preconditions
import Fleece.SelfDiff

namespace Fleece

/-! ### Calls of the script -/

/-- `FleeceGoalPoolTransitionKind`: what happened to the key that is held. -/
inductive FleeceGoalPoolTransitionKind where
  | claim
  | lost
  | blocked
  | done
  deriving DecidableEq

/-- What the calls of a tick come to, by the number of calls before them: the value of the global
`goalSatisfied` there, the answer of a function to an object, or nothing where it throws, and the
answer of an `exec` body with the object afterwards. -/
structure LibraryScript (Value : Type) where
  goalSatisfied : Nat → Value
  call : Nat → Value → Value → Option Value × List Operation
  callExec : Nat → Value → Value → Int → Option (Value × Value) × List Operation

/-- The number of calls so far, and the store. -/
structure ScriptState where
  calls : Nat
  manager : FleeceStateManager

namespace LibraryScript

variable {Value Cost : Type} (script : LibraryScript Value) (engine : ScriptEngine Value Cost)

/-- A call of a function on an object; the script may operate on the store while it runs. -/
def callFn (fn bbjs : Value) (state : ScriptState) : Option Value × ScriptState :=
  let called := script.call state.calls fn bbjs
  (called.1, ⟨state.calls + 1, state.manager.after called.2⟩)

/-- `js_call_goal_satisfied`: false where the global is not a function. -/
def jsCallGoalSatisfied (bb : FleeceGoapBlackboard) (state : ScriptState) : Bool × ScriptState :=
  let fn := script.goalSatisfied state.calls
  if engine.isFunction fn then
    let called := script.callFn fn (engine.goapBbToJs bb) state
    (called.1.any engine.toBool, called.2)
  else (false, state)

/-- `action_call_bool`: a missing function counts as true, one that throws as false. -/
def actionCallBool (fn : Value) (bb : FleeceGoapBlackboard) (state : ScriptState) :
    Bool × ScriptState :=
  if engine.isUndefined fn then (true, state)
  else
    let called := script.callFn fn (engine.goapBbToJs bb) state
    (called.1.any engine.toBool, called.2)

/-- `action_library_find_applicable`, from the action with the index `i` on. -/
def findApplicable (bb : FleeceGoapBlackboard) :
    Nat → List Value → ScriptState → Option Nat × ScriptState
  | _, [], state => (none, state)
  | i, fn :: rest, state =>
    let held := script.actionCallBool engine fn bb state
    if held.1 then (some i, held.2) else findApplicable bb (i + 1) rest held.2

/-- `action_call_eff`: the blackboard of the object that is returned. -/
def actionCallEff (fn : Value) (bb : FleeceGoapBlackboard) (state : ScriptState) :
    Option FleeceGoapBlackboard × ScriptState :=
  if engine.isUndefined fn then (none, state)
  else
    let called := script.callFn fn (engine.goapBbToJs bb) state
    match called.1 with
    | none => (none, called.2)
    | some result =>
      let read := engine.goapJsToBb result .empty
      (if (engine.bbObject result).isSome ∧ read.1 = 0 then some read.2 else none, called.2)

/-- The search for a provider: the first effect after which the goal is satisfied or an action
applies. It goes on to the end where there is no blackboard to compare with. -/
def findProvider (preFns : List Value) (bb : FleeceGoapBlackboard) (haveRtOrig : Bool) :
    List Value → ScriptState → Option FleeceGoapBlackboard × ScriptState
  | [], state => (none, state)
  | fn :: rest, state =>
    let simulated := script.actionCallEff engine fn bb state
    match simulated.1 with
    | none => findProvider preFns bb haveRtOrig rest simulated.2
    | some sim =>
      let satisfied := script.jsCallGoalSatisfied engine sim simulated.2
      let nowOk :=
        if satisfied.1 then satisfied
        else
          let applicable := script.findApplicable engine sim 0 preFns satisfied.2
          (applicable.1.isSome, applicable.2)
      if nowOk.1 && haveRtOrig then (some sim, nowOk.2)
      else findProvider preFns bb haveRtOrig rest nowOk.2

/-- The calls of an engine whose functions answer the same each time and leave the store alone. -/
def ofEngine (goalSatisfied : Value) : LibraryScript Value where
  goalSatisfied := fun _ => goalSatisfied
  call := fun _ fn bbjs => (engine.call fn bbjs, [])
  callExec := fun _ _ _ _ => (none, [])

theorem actionCallBool_ofEngine (goalSatisfied fn : Value) (bb : FleeceGoapBlackboard)
    (state : ScriptState) :
    ((ofEngine engine goalSatisfied).actionCallBool engine fn bb state).1 =
      engine.actionCallBool fn bb := by
  unfold actionCallBool ScriptEngine.actionCallBool
  split_ifs <;> rfl

/-- With such an engine the action that applies is the one that `ScriptEngine.findApplicable`
selects. -/
theorem findApplicable_ofEngine (goalSatisfied : Value) (library : ActionLibrary Value)
    (bb : FleeceGoapBlackboard) (state : ScriptState) :
    ((ofEngine engine goalSatisfied).findApplicable engine bb 0 library.preFns state).1 =
      engine.findApplicable library bb := by
  have from_index (i : Nat) (fns : List Value) (state : ScriptState) :
      ((ofEngine engine goalSatisfied).findApplicable engine bb i fns state).1 =
        (fns.findIdx? fun fn => engine.actionCallBool fn bb).map (· + i) := by
    induction fns generalizing i state with
    | nil => rfl
    | cons fn rest inductionHypothesis =>
      have called := actionCallBool_ofEngine engine goalSatisfied fn bb state
      rw [findApplicable, List.findIdx?_cons, called]
      split_ifs
      · rw [Option.map_some, Nat.zero_add]
      · have shifted : (fun found => found + i) ∘ (fun found => found + 1) =
            fun found => found + (i + 1) := by
          funext found
          simp only [Function.comp_apply]
          omega
        rw [inductionHypothesis, Option.map_map, shifted]
  rw [from_index 0 library.preFns state]
  exact Option.map_id'

end LibraryScript

/-- `action_call_identity`. -/
def ScriptEngine.actionCallIdentity {Value Cost : Type} (engine : ScriptEngine Value Cost)
    (bb : FleeceGoapBlackboard) : Option FleeceGoapBlackboard :=
  let read := engine.goapJsToBb (engine.goapBbToJs bb) .empty
  if read.1 = 0 then some read.2 else none

/-! ### The prerequisite -/

/-- `"goal_pre_"`. -/
def goalPrePrefix : List UInt8 := [0x67, 0x6F, 0x61, 0x6C, 0x5F, 0x70, 0x72, 0x65, 0x5F]

/-- `"goal_pre_%08llx"` of the low 32 bits of the id. -/
def prerequisiteKey (selfId : UInt64) : CString where
  chars := goalPrePrefix ++ Hexadecimal.digits 8 (selfId.toNat % 2 ^ 32)
  noNul member := by
    rcases List.mem_append.mp member with inPrefix | inDigits
    · exact absurd inPrefix (by decide)
    · exact Hexadecimal.zero_notMem_digits _ _ inDigits

/-- `{"params":%s,"kind":"prereq","priority":100,"required_agents":["%016llx"],"interrupt":true}`. -/
def prerequisiteText (diff : List UInt8) (selfId : UInt64) : List UInt8 :=
  [0x7B, 0x22, 0x70, 0x61, 0x72, 0x61, 0x6D, 0x73, 0x22, 0x3A] ++ diff ++
    [0x2C, 0x22, 0x6B, 0x69, 0x6E, 0x64, 0x22, 0x3A, 0x22, 0x70, 0x72, 0x65, 0x72, 0x65, 0x71, 0x22,
      0x2C, 0x22, 0x70, 0x72, 0x69, 0x6F, 0x72, 0x69, 0x74, 0x79, 0x22, 0x3A, 0x31, 0x30, 0x30,
      0x2C, 0x22, 0x72, 0x65, 0x71, 0x75, 0x69, 0x72, 0x65, 0x64, 0x5F, 0x61, 0x67, 0x65, 0x6E, 0x74,
      0x73, 0x22, 0x3A, 0x5B, 0x22] ++ Hexadecimal.print selfId ++
    [0x22, 0x5D, 0x2C, 0x22, 0x69, 0x6E, 0x74, 0x65, 0x72, 0x72, 0x75, 0x70, 0x74, 0x22, 0x3A, 0x74,
      0x72, 0x75, 0x65, 0x7D]

/-- The string in `char diff[256]`. -/
def diffText (orig sim : FleeceGoapBlackboard) : List UInt8 :=
  (buildSelfDiffJson orig sim 256).2.takeWhile fun byte => byte != 0

namespace FleeceStateManager

/-- `goal_pool_spawn_prerequisite`: nothing is written where the goal exists already. -/
def goalPoolSpawnPrerequisite (manager : FleeceStateManager) (selfId : UInt64)
    (orig sim : FleeceGoapBlackboard) : FleeceStateManager :=
  if fieldNameMax ≤ (prerequisiteKey selfId).chars.length then manager
  else if manager.existsNamed sharedOwnerId (prerequisiteKey selfId) then manager
  else if (buildSelfDiffJson orig sim 256).1 ≠ 0 then manager
  else if fits : (prerequisiteText (diffText orig sim) selfId).length < 384 then
    (manager.setShared (prerequisiteKey selfId)
      ⟨prerequisiteText (diffText orig sim) selfId, fits.trans (by decide)⟩).1
  else manager

end FleeceStateManager

/-! ### A tick -/

/-- What `action_library_tick` works on: the fields of the brain, its store and its script, and the
key that is held. -/
structure LibraryTick (Value : Type) where
  manager : FleeceStateManager
  library : ActionLibrary Value
  keyField : FieldName
  lastLogged : FieldName
  tickCount : UInt32
  script : LibraryScript Value
  current : FieldName

/-- What a tick leaves. -/
structure LibraryTicked where
  manager : FleeceStateManager
  lastLogged : FieldName
  events : List (FleeceGoalPoolTransitionKind × FieldName)

/-- What a tick finds to do. -/
inductive Dispatch where
  | nothing (manager : FleeceStateManager)
  | done (manager : FleeceStateManager)
  | exec (idx : Nat) (bb : FleeceGoapBlackboard) (state : ScriptState)
  | blocked (orig sim : FleeceGoapBlackboard) (manager : FleeceStateManager)

namespace LibraryTick

variable {Value Cost : Type} (engine : ScriptEngine Value Cost) (tick : LibraryTick Value)

/-- The choice that `action_library_tick` makes for the goal that is held. -/
def dispatch : Dispatch :=
  if tick.current.chars = [] ∨ tick.library.preFns = [] then .nothing tick.manager
  else
    let snapshot := tick.manager.bbFromState .empty
    if snapshot.2 ≠ 0 then .nothing tick.manager
    else
      let bb := snapshot.1
      let satisfied := tick.script.jsCallGoalSatisfied engine bb ⟨0, tick.manager⟩
      if satisfied.1 then .done satisfied.2.manager
      else
        let applicable :=
          tick.script.findApplicable engine bb 0 tick.library.preFns satisfied.2
        match applicable.1 with
        | some idx => .exec idx bb applicable.2
        | none =>
          let rtOrig := engine.actionCallIdentity bb
          let provider := tick.script.findProvider engine tick.library.preFns bb rtOrig.isSome
            tick.library.effFns applicable.2
          match rtOrig, provider.1 with
          | some orig, some sim => .blocked orig sim provider.2.manager
          | _, _ => .nothing provider.2.manager

/-- The events of a change of the key that is held. -/
def transitions : List (FleeceGoalPoolTransitionKind × FieldName) :=
  if tick.current = tick.lastLogged then []
  else
    (if tick.lastLogged.chars = [] then [] else [(.lost, tick.lastLogged)]) ++
      if tick.current.chars = [] then [] else [(.claim, tick.current)]

/-- `"\"\""` under the field of the held key. -/
def clearKeyField (manager : FleeceStateManager) : FleeceStateManager :=
  (manager.setNamed tick.keyField.toCString ⟨[0x22, 0x22], by decide⟩).1

/-- The call of an `exec` body and the commit of what it leaves. -/
def runExec (idx : Nat) (bb : FleeceGoapBlackboard) (state : ScriptState) : FleeceStateManager :=
  match (tick.library.execFns[idx]?).filter fun fn => !engine.isUndefined fn with
  | none => state.manager
  | some fn =>
    let called :=
      tick.script.callExec state.calls fn (engine.goapBbToJs bb) (toInt32 tick.tickCount)
    let manager := state.manager.after called.2
    match called.1 with
    | none => manager
    | some (result, bbjs) =>
      let extract := if (engine.bbObject result).isSome then result else bbjs
      let read := engine.goapJsToBb extract .empty
      if read.1 = 0 then (manager.bbCommit read.2).1 else manager

/-- `action_library_tick`. -/
def run : LibraryTicked :=
  match tick.dispatch engine with
  | .nothing manager => ⟨manager, tick.current, tick.transitions⟩
  | .done manager =>
    let completed := (manager.removeShared tick.current.toCString).1
    let released := (completed.removeShared (claimName tick.current.toCString)).1
    ⟨tick.clearKeyField released, .empty, tick.transitions ++ [(.done, tick.current)]⟩
  | .exec idx bb state => ⟨tick.runExec engine idx bb state, tick.current, tick.transitions⟩
  | .blocked orig sim manager =>
    let spawned := manager.goalPoolSpawnPrerequisite tick.manager.nodeId orig sim
    let released := (spawned.removeShared (claimName tick.current.toCString)).1
    ⟨tick.clearKeyField released, .empty, tick.transitions ++ [(.blocked, tick.current)]⟩

end LibraryTick

end Fleece
