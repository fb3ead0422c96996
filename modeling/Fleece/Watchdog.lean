/-
This file is about the watchdog of the brain: how often the ticks call the body of
an action before it ends, and how it ends.

The progress is counted before it is compared with `max_action_ticks`, and the tick
in which the two are equal gives up on the action without a call. So the body is
called in one tick less than the cap allows, and an action that would be done in its
last tick is aborted. From 2^31 on, the tick that the body gets is negative.
-/

import Fleece.BrainTick

namespace Fleece

open ScriptEngine (execSource)

variable {Value Cost World : Type}

/-- What the body of an action reports in a tick: `none` if something fails. -/
def BrainHost.bodyReport (host : BrainHost Value Cost World) (tables : GoapTables) (actionIdx : Nat)
    (tickCount progress : UInt32) (world : World) : Option Bool :=
  match host.freshBb tickCount (host.goalPoolTick tickCount world) with
  | (none, _) => none
  | (some bb, world) =>
    let exec := host.actionExec tables actionIdx bb progress world
    if exec.code = 0 ∧ (host.bbCommit exec.dst exec.world).2 = 0 then some exec.done else none

/-- The `int32_t` of a progress is the progress itself below 2^31 only. -/
theorem toInt32_eq_iff {n : Nat} (fits : n < 2 ^ 32) :
    toInt32 (UInt32.ofNat n) = n ↔ n < 2 ^ 31 := by
  unfold toInt32
  rw [UInt32.toNat_ofNat', Nat.mod_eq_of_lt fits, Int.bmod_def]
  norm_num at fits ⊢
  split_ifs <;> omega

/-! ### A tick of an action that is being executed -/

namespace BrainHost

variable {host : BrainHost Value Cost World} {tables : GoapTables} {actionIdx : Nat}
  (hasBody : host.engine.isFunction (host.engine.jsFn (execSource tables actionIdx)) = true)
include hasBody

theorem execSource_ne_nil : (execSource tables actionIdx).chars ≠ [] := by
  intro empty
  rw [ScriptEngine.jsFn, if_pos empty,
    host.engine.isFunction_of_isUndefined _ host.engine.isUndefined_undefined] at hasBody
  cases hasBody

theorem actionExec_called (bb : FleeceGoapBlackboard) (tick : UInt32) (world : World) :
    (host.actionExec tables actionIdx bb tick world).called = some (toInt32 tick) := by
  unfold actionExec
  simp only
  rw [if_pos hasBody]
  unfold callBody
  split <;> rfl

/-- One execution of the body in which nothing fails. -/
theorem execBody_of_report {brain : FleeceGoapBrain Cost} {start : World} {done : Bool}
    (reported : host.bodyReport tables actionIdx brain.tickCount brain.execProgress start =
      some done) :
    ∃ after, brain.execBody host tables actionIdx (host.goalPoolTick brain.tickCount start) =
      if done then
        ⟨brain.endAction, after, some (toInt32 brain.execProgress), .ok (some .actionDone)⟩
      else ⟨brain, after, some (toInt32 brain.execProgress), .error 0⟩ := by
  unfold bodyReport at reported
  unfold FleeceGoapBrain.execBody
  generalize host.freshBb brain.tickCount (host.goalPoolTick brain.tickCount start) = fresh
    at reported ⊢
  obtain ⟨given, world⟩ := fresh
  cases given with
  | none => cases reported
  | some bb =>
    simp only at reported ⊢
    split_ifs at reported with succeeded
    obtain rfl := Option.some.inj reported
    rw [if_neg (not_not.mpr succeeded.1), if_neg (not_not.mpr succeeded.2),
      actionExec_called hasBody]
    exact ⟨_, rfl⟩

end BrainHost

namespace FleeceGoapBrain

/-- The brain after ticks that have executed the action. -/
def executing (brain : FleeceGoapBrain Cost) (ticks : Nat) : FleeceGoapBrain Cost :=
  { brain with
    tickCount := brain.tickCount + UInt32.ofNat ticks
    execProgress := UInt32.ofNat ticks }

theorem executing_zero {brain : FleeceGoapBrain Cost} (fresh : brain.execProgress = 0) :
    brain.executing 0 = brain := by
  unfold executing
  rw [show UInt32.ofNat 0 = 0 from rfl, UInt32.add_zero, ← fresh]

theorem executing_succ (brain : FleeceGoapBrain Cost) (ticks : Nat) :
    { brain.executing ticks with
      tickCount := (brain.executing ticks).tickCount + 1
      execProgress := (brain.executing ticks).execProgress + 1 } = brain.executing (ticks + 1) := by
  have next : UInt32.ofNat ticks + 1 = UInt32.ofNat (ticks + 1) := (UInt32.ofNat_add ticks 1).symm
  unfold executing
  simp only
  rw [UInt32.add_assoc, next]

theorem isWedged_executing {brain : FleeceGoapBrain Cost} (limited : 0 < brain.maxActionTicks)
    {ticks : Nat} (fits : ticks < 2 ^ 32) :
    (brain.executing ticks).isWedged = decide (brain.maxActionTicks.toNat ≤ ticks) := by
  unfold isWedged executing
  simp only
  rw [decide_eq_true limited, Bool.true_and, decide_eq_decide, UInt32.le_iff_toNat_le,
    UInt32.toNat_ofNat', Nat.mod_eq_of_lt fits]

/-- What the body of an action reports in the call with a number, from the first on, when the ticks
find the worlds. -/
def reportAt (brain : FleeceGoapBrain Cost) (host : BrainHost Value Cost World)
    (tables : GoapTables) (actionIdx : Nat) (worlds : Nat → World) (i : Nat) : Option Bool :=
  host.bodyReport tables actionIdx (brain.tickCount + UInt32.ofNat (i + 1)) (UInt32.ofNat (i + 1))
    (worlds i)

/-- The ticks that the body gets in its first calls. -/
def bodyTicks (calls : Nat) : List Int :=
  (List.range calls).map fun i => toInt32 (UInt32.ofNat (i + 1))

theorem bodyTicks_succ (calls : Nat) :
    bodyTicks (calls + 1) = bodyTicks calls ++ [toInt32 (UInt32.ofNat (calls + 1))] := by
  unfold bodyTicks
  rw [List.range_succ, List.map_append]
  rfl

theorem length_bodyTicks (calls : Nat) : (bodyTicks calls).length = calls := by
  rw [bodyTicks, List.length_map, List.length_range]

/-- The body gets the numbers of its calls if there are less than 2^31. -/
theorem bodyTicks_eq_iff {calls : Nat} (fits : calls + 1 < 2 ^ 32) :
    bodyTicks (calls + 1) = (List.range (calls + 1)).map (fun i : Nat => (i : Int) + 1) ↔
      calls + 1 < 2 ^ 31 := by
  unfold bodyTicks
  rw [List.map_inj_left]
  constructor
  · intro same
    exact (toInt32_eq_iff fits).mp (same calls (List.mem_range.mpr calls.lt_succ_self))
  · intro small i member
    have less := List.mem_range.mp member
    exact (toInt32_eq_iff (by omega : i + 1 < 2 ^ 32)).mpr (by omega)

section Executing

variable {host : BrainHost Value Cost World} {tables : GoapTables} {actionIdx : Nat}
  {brain : FleeceGoapBrain Cost} (selected : brain.actionIdx = some actionIdx)
  (hasBody : host.engine.isFunction (host.engine.jsFn (execSource tables actionIdx)) = true)
include selected hasBody

theorem execute_executing (ticks : Nat) (world : World) :
    { brain.executing ticks with
      tickCount := (brain.executing ticks).tickCount + 1 }.execute host tables world =
      if (brain.executing (ticks + 1)).isWedged then
        ⟨(brain.executing (ticks + 1)).endAction, world, none, .ok (some .aborted)⟩
      else (brain.executing (ticks + 1)).execBody host tables actionIdx world := by
  have isSelected : (brain.executing ticks).actionIdx = some actionIdx := selected
  rw [← executing_succ brain ticks]
  unfold execute
  simp only [isSelected]
  rw [if_neg (BrainHost.execSource_ne_nil hasBody)]

/-- The body is called in a tick before the one in which the progress comes to the cap. -/
theorem execute_of_report {worlds : Nat → World} {ticks : Nat} {done : Bool}
    (limited : 0 < brain.maxActionTicks) (below : ticks + 1 < brain.maxActionTicks.toNat)
    (reported : brain.reportAt host tables actionIdx worlds ticks = some done) :
    ∃ after, { brain.executing ticks with
        tickCount := (brain.executing ticks).tickCount + 1 }.execute host tables
        (host.goalPoolTick ((brain.executing ticks).tickCount + 1) (worlds ticks)) =
      if done then
        ⟨(brain.executing (ticks + 1)).endAction, after, some (toInt32 (UInt32.ofNat (ticks + 1))),
          .ok (some .actionDone)⟩
      else
        ⟨brain.executing (ticks + 1), after, some (toInt32 (UInt32.ofNat (ticks + 1))),
          .error 0⟩ := by
  have fits : ticks + 1 < 2 ^ 32 := below.trans brain.maxActionTicks.toNat_lt
  have counted : (brain.executing ticks).tickCount + 1 = (brain.executing (ticks + 1)).tickCount :=
    congrArg FleeceGoapBrain.tickCount (executing_succ brain ticks)
  rw [execute_executing selected hasBody, isWedged_executing limited fits,
    decide_eq_false (not_le.mpr below), if_neg Bool.false_ne_true, counted]
  exact BrainHost.execBody_of_report hasBody reported

end Executing

variable [Ring Cost] [LinearOrder Cost] {Score : Type} [Zero Score] [One Score] [Add Score]
  [Sub Score] [Mul Score] [Div Score] [BEq Score] [LT Score] [DecidableLT Score] [LE Score]
  [DecidableLE Score]

section Tick

variable {host : BrainHost Value Cost World} {goap : GoapObject} (reader : ScoreReader Score)
  {brain : FleeceGoapBrain Cost} {world : World}

/-- A tick that ends an action, whatever the replanning comes to. -/
theorem tick_of_ended {ran : Executed Cost World} {event : BrainEvent}
    (executed : { brain with tickCount := brain.tickCount + 1 }.execute host goap.toGoapTables
      (host.goalPoolTick (brain.tickCount + 1) world) = ran)
    (ended : ran.outcome = .ok (some event)) :
    (brain.tick host goap reader world).called = ran.called ∧
      (brain.tick host goap reader world).ended = some event := by
  unfold tick
  simp only
  rw [executed, ended]
  simp only
  split <;> exact ⟨rfl, rfl⟩

/-- A tick that comes to no replanning. -/
theorem tick_of_returned {ran : Executed Cost World} {code : Int}
    (executed : { brain with tickCount := brain.tickCount + 1 }.execute host goap.toGoapTables
      (host.goalPoolTick (brain.tickCount + 1) world) = ran)
    (returned : ran.outcome = .error code) :
    brain.tick host goap reader world =
      ⟨ran.called, none, ran.world, .ok (ran.brain, code, none)⟩ := by
  unfold tick
  simp only
  rw [executed, returned]

variable {actionIdx ticks : Nat} (selected : brain.actionIdx = some actionIdx)
  (limited : 0 < brain.maxActionTicks)
  (hasBody : host.engine.isFunction
    (host.engine.jsFn (execSource goap.toGoapTables actionIdx)) = true)
include selected limited hasBody

/-- The tick in which the progress comes to the cap does not call the body. -/
theorem tick_aborts (world : World) (isLast : brain.maxActionTicks.toNat = ticks + 1) :
    ((brain.executing ticks).tick host goap reader world).called = none ∧
      ((brain.executing ticks).tick host goap reader world).ended = some .aborted := by
  have fits : ticks + 1 < 2 ^ 32 := isLast ▸ brain.maxActionTicks.toNat_lt
  have executed := execute_executing selected hasBody ticks
    (host.goalPoolTick ((brain.executing ticks).tickCount + 1) world)
  rw [isWedged_executing limited fits, isLast, decide_eq_true le_rfl, if_pos rfl] at executed
  exact tick_of_ended reader executed rfl

end Tick

section Run

variable (host : BrainHost Value Cost World) (goap : GoapObject) (reader : ScoreReader Score)
  (worlds : Nat → World)

/-- The ticks until the action ends: the ticks with which the body is called, and the event. Each
finds a world of its own; at most a number of ticks is made. -/
def actionRun : Nat → Nat → FleeceGoapBrain Cost → List Int × Option BrainEvent
  | 0, _, _ => ([], none)
  | ticks + 1, i, brain =>
    let ticked := brain.tick host goap reader (worlds i)
    if ticked.ended.isSome then (ticked.called.toList, ticked.ended)
    else
      match ticked.result with
      | .error _ => (ticked.called.toList, none)
      | .ok (next, _) =>
        let rest := actionRun ticks (i + 1) next
        (ticked.called.toList ++ rest.1, rest.2)

/-- The body is called as often as it takes to be done, but not more often than the cap, with the
number of the call, and the action is aborted only if it is not done by then. -/
def WatchdogExact (brain : FleeceGoapBrain Cost) (doneAt : ℕ∞) : Prop :=
  ∃ ticks event, actionRun host goap reader worlds ticks 0 brain =
      ((List.range (min doneAt brain.maxActionTicks.toNat).toNat).map fun i : Nat => (i : Int) + 1,
        some event) ∧
    (event = .actionDone ↔ doneAt ≤ brain.maxActionTicks.toNat) ∧
    (event = .aborted ↔ brain.maxActionTicks.toNat < doneAt)

variable {host goap reader worlds} {brain : FleeceGoapBrain Cost}

/-- Once the action has ended, further ticks are not part of the run. -/
theorem actionRun_of_ended {ticks more i : Nat} {event : BrainEvent}
    (ended : (actionRun host goap reader worlds ticks i brain).2 = some event)
    (atLeast : ticks ≤ more) :
    actionRun host goap reader worlds more i brain =
      actionRun host goap reader worlds ticks i brain := by
  induction ticks generalizing i brain more with
  | zero => nomatch ended
  | succ ticks inductionHypothesis =>
    obtain ⟨more, rfl⟩ : ∃ other, more = other + 1 := ⟨more - 1, by omega⟩
    rw [actionRun] at ended ⊢
    rw [actionRun]
    simp only at ended ⊢
    split_ifs at ended ⊢
    · rfl
    · cases result : (brain.tick host goap reader (worlds i)).result with
      | error past => rfl
      | ok next =>
        rw [result] at ended
        simp only at ended ⊢
        rw [inductionHypothesis ended (by omega)]

/-- Two runs from one brain that both end are one. -/
theorem actionRun_unique {ticks others i : Nat} {event other : BrainEvent}
    (ended : (actionRun host goap reader worlds ticks i brain).2 = some event)
    (otherEnded : (actionRun host goap reader worlds others i brain).2 = some other) :
    actionRun host goap reader worlds ticks i brain =
      actionRun host goap reader worlds others i brain := by
  obtain fewer | fewer := le_total ticks others
  · exact (actionRun_of_ended ended fewer).symm
  · exact actionRun_of_ended otherEnded fewer

/-! ### A run -/

section Exact

variable (reader) {actionIdx : Nat} (selected : brain.actionIdx = some actionIdx)
  (limited : 0 < brain.maxActionTicks)
  (hasBody : host.engine.isFunction
    (host.engine.jsFn (execSource goap.toGoapTables actionIdx)) = true)
include selected limited hasBody

/-- As long as the body is not done and the cap not reached, every tick calls it. -/
theorem actionRun_busy {calls : Nat} (below : calls < brain.maxActionTicks.toNat)
    (busy : ∀ i < calls, brain.reportAt host goap.toGoapTables actionIdx worlds i = some false)
    (ticks : Nat) :
    actionRun host goap reader worlds (calls + ticks) 0 (brain.executing 0) =
      (bodyTicks calls ++
        (actionRun host goap reader worlds ticks calls (brain.executing calls)).1,
        (actionRun host goap reader worlds ticks calls (brain.executing calls)).2) := by
  induction calls generalizing ticks with
  | zero => rw [Nat.zero_add]; rfl
  | succ calls inductionHypothesis =>
    obtain ⟨after, executed⟩ :=
      execute_of_report selected hasBody limited below (busy calls calls.lt_succ_self)
    have ticked := tick_of_returned reader executed rfl
    rw [Nat.add_assoc, Nat.add_comm 1 ticks,
      inductionHypothesis (by omega) (fun i less => busy i (by omega)) (ticks + 1), actionRun,
      ticked, bodyTicks_succ, List.append_assoc]
    rfl

/-- The body is done before the cap is reached. -/
theorem actionRun_done {calls : Nat} (below : calls + 1 < brain.maxActionTicks.toNat)
    (busy : ∀ i < calls, brain.reportAt host goap.toGoapTables actionIdx worlds i = some false)
    (done : brain.reportAt host goap.toGoapTables actionIdx worlds calls = some true) :
    actionRun host goap reader worlds (calls + 1) 0 (brain.executing 0) =
      (bodyTicks (calls + 1), some .actionDone) := by
  obtain ⟨after, executed⟩ := execute_of_report selected hasBody limited below done
  obtain ⟨called, ended⟩ := tick_of_ended reader executed rfl
  rw [actionRun_busy reader selected limited hasBody (by omega) busy, actionRun, ended, called,
    bodyTicks_succ]
  rfl

/-- The body is not done in one tick less than the cap. -/
theorem actionRun_aborted {calls : Nat} (isLast : brain.maxActionTicks.toNat = calls + 1)
    (busy : ∀ i < calls, brain.reportAt host goap.toGoapTables actionIdx worlds i = some false) :
    actionRun host goap reader worlds (calls + 1) 0 (brain.executing 0) =
      (bodyTicks calls, some .aborted) := by
  obtain ⟨called, ended⟩ := tick_aborts reader selected limited hasBody (worlds calls) isLast
  rw [actionRun_busy reader selected limited hasBody (by omega) busy, actionRun, ended, called]
  simp

end Exact

/-- The calls that an exact watchdog makes, as soon as one run is known to end. -/
theorem calls_of_watchdogExact {ticks : Nat} {calls : List Int} {event : BrainEvent} {doneAt : ℕ∞}
    (isExact : WatchdogExact host goap reader worlds brain doneAt)
    (run : actionRun host goap reader worlds ticks 0 brain = (calls, some event)) :
    calls = (List.range (min doneAt brain.maxActionTicks.toNat).toNat).map
      fun i : Nat => (i : Int) + 1 := by
  obtain ⟨others, other, otherRun, _⟩ := isExact
  have same := actionRun_unique (congrArg Prod.snd run) (congrArg Prod.snd otherRun)
  rw [run, otherRun] at same
  exact congrArg Prod.fst same

/-- A body that is done before the cap is reached gets the numbers of its calls, if there are less
than 2^31. -/
theorem watchdogExact_of_done {calls : Nat} (early : calls + 1 < brain.maxActionTicks.toNat)
    (run : actionRun host goap reader worlds (calls + 1) 0 brain =
      (bodyTicks (calls + 1), some .actionDone)) :
    WatchdogExact host goap reader worlds brain (calls + 1 : ℕ) ↔ calls + 1 < 2 ^ 31 := by
  have isEarly : ((calls + 1 : ℕ) : ℕ∞) < brain.maxActionTicks.toNat := Nat.cast_lt.mpr early
  have count : (min ((calls + 1 : ℕ) : ℕ∞) brain.maxActionTicks.toNat).toNat = calls + 1 := by
    rw [min_eq_left isEarly.le, ENat.toNat_natCast]
  have numbered := bodyTicks_eq_iff (early.trans brain.maxActionTicks.toNat_lt)
  constructor
  · intro isExact
    have same := calls_of_watchdogExact isExact run
    rw [count] at same
    exact numbered.mp same
  · intro small
    refine ⟨calls + 1, .actionDone, ?_, iff_of_true rfl isEarly.le,
      iff_of_false nofun isEarly.asymm⟩
    rw [run, count, numbered.mpr small]

/-- A body that is not done by then lacks the last call. -/
theorem not_watchdogExact_of_aborted {calls : Nat} {doneAt : ℕ∞}
    (isLast : brain.maxActionTicks.toNat = calls + 1)
    (late : (brain.maxActionTicks.toNat : ℕ∞) ≤ doneAt)
    (run : actionRun host goap reader worlds (calls + 1) 0 brain =
      (bodyTicks calls, some .aborted)) :
    ¬ WatchdogExact host goap reader worlds brain doneAt := by
  intro isExact
  have lengths := congrArg List.length (calls_of_watchdogExact isExact run)
  rw [length_bodyTicks, List.length_map, List.length_range, min_eq_right late,
    ENat.toNat_natCast] at lengths
  omega

end Run

/-- For every host, table, brain that has selected an action with a body and has a cap, and worlds
that its ticks find: if the body reports done in its call `doneAt` and nothing fails up to the cap,
then the watchdog is exact if and only if the body is done before the cap is reached, and before
2^31. -/
theorem watchdog_exact_iff (host : BrainHost Value Cost World) (goap : GoapObject)
    (reader : ScoreReader Score) (worlds : Nat → World) (brain : FleeceGoapBrain Cost)
    (actionIdx : Nat) (doneAt : ℕ∞) (selected : brain.actionIdx = some actionIdx)
    (fresh : brain.execProgress = 0) (limited : 0 < brain.maxActionTicks)
    (hasBody : host.engine.isFunction
      (host.engine.jsFn (execSource goap.toGoapTables actionIdx)) = true)
    (callable : 0 < doneAt)
    (reports : ∀ i : Nat, i < doneAt → i < brain.maxActionTicks.toNat →
      ∃ done, brain.reportAt host goap.toGoapTables actionIdx worlds i = some done ∧
        (done = true ↔ (i + 1 : ℕ) = doneAt)) :
    WatchdogExact host goap reader worlds brain doneAt ↔
      doneAt < brain.maxActionTicks.toNat ∧ doneAt < (2 ^ 31 : ℕ) := by
  have starts := executing_zero fresh
  have busy {i : Nat} (early : (i + 1 : ℕ) < doneAt) (below : i < brain.maxActionTicks.toNat) :
      brain.reportAt host goap.toGoapTables actionIdx worlds i = some false := by
    obtain ⟨done, reported, isDone⟩ :=
      reports i ((Nat.cast_lt.mpr i.lt_succ_self).trans early) below
    rw [reported, Bool.eq_false_iff.mpr fun isTrue => early.ne (isDone.mp isTrue)]
  by_cases early : doneAt < brain.maxActionTicks.toNat
  · lift doneAt to ℕ using early.ne_top
    obtain ⟨calls, rfl⟩ : ∃ calls, doneAt = calls + 1 :=
      Nat.exists_eq_add_one.mpr (Nat.cast_pos.mp callable)
    have below : calls + 1 < brain.maxActionTicks.toNat := Nat.cast_lt.mp early
    have done : brain.reportAt host goap.toGoapTables actionIdx worlds calls = some true := by
      obtain ⟨done, reported, isDone⟩ :=
        reports calls (Nat.cast_lt.mpr calls.lt_succ_self) (by omega)
      rw [reported, isDone.mpr rfl]
    have run := actionRun_done reader selected limited hasBody below
      (fun i less => busy (Nat.cast_lt.mpr (by omega)) (by omega)) done
    rw [starts] at run
    rw [watchdogExact_of_done below run, and_iff_right early, Nat.cast_lt]
  · have late : (brain.maxActionTicks.toNat : ℕ∞) ≤ doneAt := not_lt.mp early
    obtain ⟨calls, isLast⟩ : ∃ calls, brain.maxActionTicks.toNat = calls + 1 :=
      Nat.exists_eq_add_one.mpr (UInt32.lt_iff_toNat_lt.mp limited)
    have run := actionRun_aborted reader selected limited hasBody isLast fun i less =>
      busy ((Nat.cast_lt.mpr (by omega : i + 1 < brain.maxActionTicks.toNat)).trans_le late)
        (by omega)
    rw [starts] at run
    exact iff_of_false (not_watchdogExact_of_aborted isLast late run) fun both => early both.1

/-- The host of the sample engine, where every body is done from a call with a number on. -/
def patientHost (calls : Int) : BrainHost SampleValue Int (FleeceStateManager × Unit) :=
  { sampleHost with
    callExec := fun fn bbjs tick world =>
      ((sampleEngine.call fn bbjs).map fun _ => (.bool (decide (calls ≤ tick)), bbjs), world) }

/-- A body that is done in its third call, under a cap of five ticks. -/
theorem watchdog_exact_third_call :
    let given : FleeceGoapActionDef :=
      ⟨⟨some ⟨[0x61], by decide⟩, none, none, none, .zero, some ⟨[0x74], by decide⟩, [], []⟩,
        by decide, by decide⟩
    ∃ tables, GoapTables.empty.addAction given = some (tables, 0) ∧
      let goap : GoapObject := ⟨tables, 2048, 512, 8⟩
      let brain : FleeceGoapBrain Int :=
        { create goap with actionIdx := some 0, maxActionTicks := 5 }
      WatchdogExact (patientHost 3) goap wholeReader (fun _ => (.blank 1, ())) brain 3 ∧
        actionRun (patientHost 3) goap wholeReader (fun _ => (.blank 1, ())) 3 0 brain =
          ([1, 2, 3], some .actionDone) := by
  intro given
  refine ⟨_, rfl, ?_⟩
  intro goap brain
  refine ⟨(watchdog_exact_iff (patientHost 3) goap wholeReader _ brain 0 3 rfl rfl (by decide)
    (by decide) (by decide) fun i early _ => ?_).mpr ⟨by decide, by decide⟩, by decide +kernel⟩
  have below : i < 3 := by exact_mod_cast early
  interval_cases i
  · exact ⟨false, by decide +kernel, by decide⟩
  · exact ⟨false, by decide +kernel, by decide⟩
  · exact ⟨true, by decide +kernel, by decide⟩

/-- A body that is done at once, under a cap of one tick: it is not called, and the action is
aborted. -/
theorem watchdog_aborts_uncalled :
    let given : FleeceGoapActionDef :=
      ⟨⟨some ⟨[0x61], by decide⟩, none, none, none, .zero, some ⟨[0x74], by decide⟩, [], []⟩,
        by decide, by decide⟩
    ∃ tables, GoapTables.empty.addAction given = some (tables, 0) ∧
      let goap : GoapObject := ⟨tables, 2048, 512, 8⟩
      let brain : FleeceGoapBrain Int :=
        { create goap with actionIdx := some 0, maxActionTicks := 1 }
      brain.reportAt sampleHost tables 0 (fun _ => (.blank 1, ())) 0 = some true ∧
        actionRun sampleHost goap wholeReader (fun _ => (.blank 1, ())) 1 0 brain =
          ([], some .aborted) ∧
        ¬ WatchdogExact sampleHost goap wholeReader (fun _ => (.blank 1, ())) brain 1 := by
  intro given
  refine ⟨_, rfl, ?_⟩
  intro goap brain
  have run : actionRun sampleHost goap wholeReader (fun _ => (.blank 1, ())) 1 0 brain =
      ([], some .aborted) := by decide +kernel
  exact ⟨by decide +kernel, run, not_watchdogExact_of_aborted rfl le_rfl run⟩

end FleeceGoapBrain

end Fleece
