/-
This file models a tick of the brain in `fleece_goap_js.c`: `js_action_exec` and
`fleece_goap_brain_tick`.

A tick works on a world of any kind, through the functions of a host: the script
engine, whose `exec` bodies may read and change the world, the snapshot, the commit
and the tick of the goal pool. `embeddedHost` has the state manager for its world.
The report of divergences and the event callback change nothing that a tick reads
and are left out.
-/

import Fleece.Brain
import Fleece.Commit
import Fleece.JsEval

namespace Fleece

open ScriptEngine (execSource)

variable {Value Cost World : Type}

/-! ### The host -/

/-- What a tick uses outside of its brain. The planner's callbacks are those of the world at the
time. `freshBb` is `brain_fresh_bb`, with the tick count. `callExec` calls a function with an object
made of a blackboard and a tick: it answers a value and the object afterwards, or throws. -/
structure BrainHost (Value Cost World : Type) where
  engine : ScriptEngine Value Cost
  eval : GoapTables → World → FleeceGoapEval Cost
  goalPoolTick : UInt32 → World → World
  freshBb : UInt32 → World → Option FleeceGoapBlackboard × World
  callExec : Value → Value → Int → World → Option (Value × Value) × World
  bbCommit : FleeceGoapBlackboard → World → World × Int

/-- What `js_action_exec` does; `called` is the tick with which it called the body, if it did. -/
structure ActionExec (World : Type) where
  code : Int
  dst : FleeceGoapBlackboard
  done : Bool
  called : Option Int
  world : World

/-- The conversion of a `uint32_t` to `int32_t`. -/
def toInt32 (n : UInt32) : Int := Int.bmod n.toNat (2 ^ 32)

namespace BrainHost

variable (host : BrainHost Value Cost World)

/-- The call of an `exec` body. -/
def callBody (fn : Value) (bb : FleeceGoapBlackboard) (tick : UInt32) (world : World) :
    ActionExec World :=
  match host.callExec fn (host.engine.goapBbToJs bb) (toInt32 tick) world with
  | (none, world) => ⟨-1, .empty, false, some (toInt32 tick), world⟩
  | (some (result, bbjs), world) =>
    let extract := if (host.engine.bbObject result).isSome then result else bbjs
    let read := host.engine.goapJsToBb extract .empty
    ⟨read.1, read.2, host.engine.toBool result, some (toInt32 tick), world⟩

/-- `js_action_exec`: an action without an `exec` function leaves everything as it is. -/
def jsActionExec (tables : GoapTables) (je : FleeceGoapJsEval Value) (actionIdx : Nat)
    (bb : FleeceGoapBlackboard) (tick : UInt32) (world : World) :
    ActionExec World × FleeceGoapJsEval Value :=
  let src := execSource tables actionIdx
  if src.chars = [] then (⟨0, .empty, false, none, world⟩, je)
  else
    let fn := host.engine.goapGetJsFn je .exec actionIdx 0 src
    if host.engine.isUndefined fn.1 then (⟨0, .empty, false, none, world⟩, fn.2)
    else if host.engine.isFunction fn.1 then (host.callBody fn.1 bb tick world, fn.2)
    else (⟨0, .empty, false, none, world⟩, fn.2)

/-- `js_action_exec` without the cache. -/
def actionExec (tables : GoapTables) (actionIdx : Nat) (bb : FleeceGoapBlackboard) (tick : UInt32)
    (world : World) : ActionExec World :=
  let fn := host.engine.jsFn (execSource tables actionIdx)
  if host.engine.isFunction fn then host.callBody fn bb tick world
  else ⟨0, .empty, false, none, world⟩

variable {host}

theorem jsActionExec_eq {je : FleeceGoapJsEval Value} (valid : je.Valid host.engine.compiled)
    (tables : GoapTables) (actionIdx : Nat) (bb : FleeceGoapBlackboard) (tick : UInt32)
    (world : World) :
    (host.jsActionExec tables je actionIdx bb tick world).1 =
        host.actionExec tables actionIdx bb tick world ∧
      (host.jsActionExec tables je actionIdx bb tick world).2.Valid host.engine.compiled := by
  have fn := ScriptEngine.goapGetJsFn_fst valid .exec actionIdx 0 (execSource tables actionIdx)
  have next := ScriptEngine.goapGetJsFn_valid valid .exec actionIdx 0 (execSource tables actionIdx)
  unfold jsActionExec actionExec
  simp only [fn]
  by_cases empty : (execSource tables actionIdx).chars = []
  · have none : host.engine.jsFn (execSource tables actionIdx) = host.engine.undefined := by
      rw [ScriptEngine.jsFn, if_pos empty]
    rw [if_pos empty, none, if_neg]
    · exact ⟨rfl, valid⟩
    · rw [host.engine.isFunction_of_isUndefined _ host.engine.isUndefined_undefined]
      exact Bool.false_ne_true
  rw [if_neg empty]
  split_ifs with undefined isFunction isFunction
  · exact absurd ((ScriptEngine.not_isUndefined_of_isFunction isFunction).symm.trans undefined)
      Bool.false_ne_true
  · exact ⟨rfl, next⟩
  · exact ⟨rfl, next⟩
  · exact ⟨rfl, next⟩

end BrainHost

/-! ### A tick -/

/-- The part of a tick before the replanning. The outcome is the code that the tick returns at once,
or the event with which it goes on to the replanning, if an action ended. -/
structure Executed (Cost World : Type) where
  brain : FleeceGoapBrain Cost
  world : World
  called : Option Int
  outcome : Except Int (Option BrainEvent)

/-- A tick. The result is the brain, the code and the event of the replanning, if there was one. -/
structure Ticked (Cost World : Type) where
  called : Option Int
  ended : Option BrainEvent
  world : World
  result : Except Nat (FleeceGoapBrain Cost × Int × Option BrainEvent)

namespace FleeceGoapBrain

variable (host : BrainHost Value Cost World) (tables : GoapTables)

/-- The action has ended. -/
def endAction (brain : FleeceGoapBrain Cost) : FleeceGoapBrain Cost :=
  { brain with actionIdx := none, execProgress := 0, plan := none }

/-- The watchdog gives up on the action. -/
def isWedged (brain : FleeceGoapBrain Cost) : Bool :=
  decide (0 < brain.maxActionTicks) && decide (brain.maxActionTicks ≤ brain.execProgress)

/-- One execution of the body of the action, with the commit of what it leaves. -/
def execBody (brain : FleeceGoapBrain Cost) (actionIdx : Nat) (world : World) :
    Executed Cost World :=
  match host.freshBb brain.tickCount world with
  | (none, world) => ⟨brain, world, none, .error (-1)⟩
  | (some bb, world) =>
    let exec := host.actionExec tables actionIdx bb brain.execProgress world
    if exec.code ≠ 0 then ⟨{ brain with actionIdx := none }, exec.world, exec.called, .error 0⟩
    else
      let committed := host.bbCommit exec.dst exec.world
      if committed.2 ≠ 0 then ⟨brain, committed.1, exec.called, .error (-1)⟩
      else if exec.done then ⟨brain.endAction, committed.1, exec.called, .ok (some .actionDone)⟩
      else ⟨brain, committed.1, exec.called, .error 0⟩

/-- A tick up to the replanning. -/
def execute (brain : FleeceGoapBrain Cost) (world : World) : Executed Cost World :=
  match brain.actionIdx with
  | none => ⟨brain, world, none, .ok none⟩
  | some actionIdx =>
    if (execSource tables actionIdx).chars = [] then
      ⟨brain.endAction, world, none, .ok (some .actionDone)⟩
    else
      let counted := { brain with execProgress := brain.execProgress + 1 }
      if counted.isWedged then ⟨counted.endAction, world, none, .ok (some .aborted)⟩
      else counted.execBody host tables actionIdx world

section Tick

variable [Ring Cost] [LinearOrder Cost] {Score : Type} [Zero Score] [One Score] [Add Score]
  [Sub Score] [Mul Score] [Div Score] [BEq Score] [LT Score] [DecidableLT Score] [LE Score]
  [DecidableLE Score]

/-- `fleece_goap_brain_tick`. -/
def tick (goap : GoapObject) (reader : ScoreReader Score) (brain : FleeceGoapBrain Cost)
    (world : World) : Ticked Cost World :=
  let tickCount := brain.tickCount + 1
  let ran := { brain with tickCount := tickCount }.execute host goap.toGoapTables
    (host.goalPoolTick tickCount world)
  match ran.outcome with
  | .error code => ⟨ran.called, none, ran.world, .ok (ran.brain, code, none)⟩
  | .ok ended =>
    match host.freshBb tickCount ran.world with
    | (none, world) => ⟨ran.called, ended, world, .ok (ran.brain, -1, none)⟩
    | (some bb, world) =>
      ⟨ran.called, ended, world,
        (ran.brain.brainReplan goap reader (host.eval goap.toGoapTables world) bb).map
          fun replanned => (replanned.1, 0, some replanned.2)⟩

end Tick

end FleeceGoapBrain

/-! ### The host of an application -/

/-- The host whose world is the state manager, with whatever else the scripts and the hooks of the
application work on. -/
def embeddedHost {Environment : Type} [One Cost] [Zero Cost] [LT Cost] [DecidableLT Cost]
    (engine : ScriptEngine Value Cost)
    (goalPoolTick : UInt32 → FleeceStateManager × Environment → FleeceStateManager × Environment)
    (worldModel : UInt32 → FleeceGoapBlackboard → Environment → FleeceGoapBlackboard × Environment)
    (callExec : Value → Value → Int → FleeceStateManager × Environment →
      Option (Value × Value) × (FleeceStateManager × Environment)) :
    BrainHost Value Cost (FleeceStateManager × Environment) where
  engine := engine
  eval := fun tables _ => engine.jsEval tables
  goalPoolTick := goalPoolTick
  freshBb := fun tickCount world =>
    match world.1.bbFromState .empty with
    | (bb, 0) =>
      let model := worldModel tickCount bb world.2
      (some model.1, (world.1, model.2))
    | _ => (none, world)
  callExec := callExec
  bbCommit := fun bb world =>
    let committed := world.1.bbCommit bb
    ((committed.1, world.2), committed.2)

/-- The host of the sample engine, whose functions see no tick and no world. -/
def sampleHost : BrainHost SampleValue Int (FleeceStateManager × Unit) :=
  embeddedHost sampleEngine (fun _ world => world) (fun _ bb environment => (bb, environment))
    fun fn bbjs _ world =>
      ((sampleEngine.call fn bbjs).map fun result => (result, bbjs), world)

end Fleece
