/-
This file is about runs of a brain whose tables change between its ticks.

The brain keeps one deadline for each goal that there was when it was created, and
the index of its action, while the tables may grow, be emptied or be replaced. A
replanning that comes to a goal beyond those it has deadlines for reads past their
end while the cooldown is on, and a tick executes whatever action stands at the
index by then.
-/

import Fleece.BrainTick
import Fleece.PlanBlob
import Fleece.Runs

namespace Fleece

open ScriptEngine (execSource)

variable {Value Cost World : Type}

/-! ### What a tick does to the brain -/

namespace FleeceGoapBrain

section Execute

variable (host : BrainHost Value Cost World) (tables : GoapTables)

/-- A tick that returns before the replanning keeps the action or drops it, and one that goes on has
none; the deadlines stay. -/
structure Keeps (brain : FleeceGoapBrain Cost) (ran : Executed Cost World) : Prop where
  untils : ran.brain.goalCooldownUntil = brain.goalCooldownUntil
  returned : ∀ code, ran.outcome = .error code →
    ran.brain.actionIdx = none ∨ ran.brain.actionIdx = brain.actionIdx
  wentOn : ∀ ended, ran.outcome = .ok ended → ran.brain.actionIdx = none

theorem execBody_keeps (brain : FleeceGoapBrain Cost) (actionIdx : Nat) (world : World) :
    brain.Keeps (brain.execBody host tables actionIdx world) := by
  unfold execBody
  split
  · exact ⟨rfl, fun _ _ => .inr rfl, nofun⟩
  · simp only
    split_ifs
    · exact ⟨rfl, fun _ _ => .inl rfl, nofun⟩
    · exact ⟨rfl, fun _ _ => .inr rfl, nofun⟩
    · exact ⟨rfl, nofun, fun _ _ => rfl⟩
    · exact ⟨rfl, fun _ _ => .inr rfl, nofun⟩

theorem execute_keeps (brain : FleeceGoapBrain Cost) (world : World) :
    brain.Keeps (brain.execute host tables world) := by
  unfold execute
  split
  next none => exact ⟨rfl, nofun, fun _ _ => none⟩
  next actionIdx selected =>
    simp only
    split_ifs
    · exact ⟨rfl, nofun, fun _ _ => rfl⟩
    · exact ⟨rfl, nofun, fun _ _ => rfl⟩
    · have kept := execBody_keeps host tables
        { brain with execProgress := brain.execProgress + 1 } actionIdx world
      exact ⟨kept.untils, kept.returned, kept.wentOn⟩

/-- The brain with which a tick goes on to the replanning, the world it has come to, and the
blackboard it plans on, unless it returns before. -/
def replanInput (brain : FleeceGoapBrain Cost) (world : World) :
    Option (FleeceGoapBrain Cost × World × FleeceGoapBlackboard) :=
  let tickCount := brain.tickCount + 1
  let ran := { brain with tickCount := tickCount }.execute host tables
    (host.goalPoolTick tickCount world)
  match ran.outcome with
  | .error _ => none
  | .ok _ =>
    match host.freshBb tickCount ran.world with
    | (none, _) => none
    | (some bb, world) => some (ran.brain, world, bb)

end Execute

variable [Ring Cost] [LinearOrder Cost] {Score : Type} [Zero Score] [One Score] [Add Score]
  [Sub Score] [Mul Score] [Div Score] [BEq Score] [LT Score] [DecidableLT Score] [LE Score]
  [DecidableLE Score]

section Tick

variable (host : BrainHost Value Cost World) (goap : GoapObject) (reader : ScoreReader Score)

/-- While the cooldown is on, the replanning of a tick comes only to goals with an index below a
number. -/
def ReplansWithin (created : Nat) (brain : FleeceGoapBrain Cost) (world : World) : Prop :=
  ∀ ran after bb, brain.replanInput host goap.toGoapTables world = some (ran, after, bb) →
    0 < ran.goalCooldownTicks →
    ∀ goal ∈ ran.consulted goap (host.eval goap.toGoapTables after) bb
      (rankedGoals goap reader (host.eval goap.toGoapTables after) bb), goal < created

/-- What a tick comes to: it returns before the replanning, or it is one. -/
inductive TickEnd (brain : FleeceGoapBrain Cost) (world : World) : Prop
  | returned (next : FleeceGoapBrain Cost) (code : Int)
      (input : brain.replanInput host goap.toGoapTables world = none)
      (result : (brain.tick host goap reader world).result = .ok (next, code, none))
      (untils : next.goalCooldownUntil = brain.goalCooldownUntil)
      (action : next.actionIdx = none ∨ next.actionIdx = brain.actionIdx)
  | replanned (ran : FleeceGoapBrain Cost) (after : World) (bb : FleeceGoapBlackboard)
      (input : brain.replanInput host goap.toGoapTables world = some (ran, after, bb))
      (result : (brain.tick host goap reader world).result =
        (ran.brainReplan goap reader (host.eval goap.toGoapTables after) bb).map
          fun replan => (replan.1, 0, some replan.2))
      (untils : ran.goalCooldownUntil = brain.goalCooldownUntil)

theorem tick_ends (brain : FleeceGoapBrain Cost) (world : World) :
    TickEnd host goap reader brain world := by
  let executed := execute host goap.toGoapTables { brain with tickCount := brain.tickCount + 1 }
    (host.goalPoolTick (brain.tickCount + 1) world)
  have kept : Keeps { brain with tickCount := brain.tickCount + 1 } executed :=
    execute_keeps host goap.toGoapTables _ _
  cases outcome : executed.outcome with
  | error code =>
    refine .returned executed.brain code ?_ ?_ kept.untils (kept.returned code outcome)
    · simp only [replanInput, executed, outcome]
    · simp only [tick, executed, outcome]
  | ok ended =>
    cases fresh : host.freshBb (brain.tickCount + 1) executed.world with
    | mk given after =>
      cases given with
      | none =>
        refine .returned executed.brain (-1) ?_ ?_ kept.untils (.inl (kept.wentOn ended outcome))
        · simp only [replanInput, executed, outcome, fresh]
        · simp only [tick, executed, outcome, fresh]
      | some bb =>
        refine .replanned executed.brain after bb ?_ ?_ kept.untils
        · simp only [replanInput, executed, outcome, fresh]
        · simp only [tick, executed, outcome, fresh]

end Tick

section Replan

variable (goap : GoapObject) (reader : ScoreReader Score) (eval : FleeceGoapEval Cost)
  (bb : FleeceGoapBlackboard)

theorem consulted_cleared (brain : FleeceGoapBrain Cost) (goals : List Nat) :
    brain.cleared.consulted goap eval bb goals = brain.consulted goap eval bb goals := by
  induction goals with
  | nil => rfl
  | cons goal rest inductionHypothesis =>
    rw [consulted, consulted, inductionHypothesis]
    rfl

/-- A replanning uses an index past the end exactly if it comes to one. -/
theorem brainReplan_error_iff (brain : FleeceGoapBrain Cost) :
    (∃ goal, brain.brainReplan goap reader eval bb = .error goal) ↔
      ∃ goal ∈ brain.consulted goap eval bb (rankedGoals goap reader eval bb),
        brain.IsPastEnd goal := by
  have tried := brain.brainReplan_tried goap reader eval bb
  rw [← consulted_cleared]
  generalize brain.brainReplan goap reader eval bb = result at tried ⊢
  cases tried with
  | pastEnd goal reached outside _ => exact iff_of_true ⟨goal, rfl⟩ ⟨goal, reached, outside⟩
  | idle untils inside _ length =>
    exact iff_of_false nofun fun ⟨goal, member, outside⟩ => inside goal member outside
  | selected untils goal planned inside _ hasPlan length =>
    exact iff_of_false nofun fun ⟨goal, member, outside⟩ => inside goal member outside

theorem findAction_lt {goap : FleeceGoap} {id : CString} {a : Nat}
    (found : goap.findAction id = some a) : a < goap.actions.length :=
  (List.findIdx?_eq_some_iff_getElem.mp found).1

variable {goap reader eval bb}

/-- A replanning that succeeds selects an action of the tables, or none. -/
theorem brainReplan_ok {brain next : FleeceGoapBrain Cost} {event : BrainEvent}
    (replanned : brain.brainReplan goap reader eval bb = .ok (next, event)) :
    next.goalCooldownUntil.length = brain.goalCooldownUntil.length ∧
      ∀ a, next.actionIdx = some a → event = .replan ∧ a < goap.actions.length := by
  have tried := brain.brainReplan_tried goap reader eval bb
  rw [replanned] at tried
  cases tried with
  | idle untils inside _ length => exact ⟨length, nofun⟩
  | selected untils goal planned inside _ hasPlan length =>
    refine ⟨length, fun a found => ⟨rfl, ?_⟩⟩
    exact (findAction_lt found).trans_eq List.length_pmap

end Replan

/-- A tick uses no index past the end of `goal_cooldown_until` exactly if its replanning comes to no
goal without an element. -/
theorem tick_ne_error_iff (host : BrainHost Value Cost World) (goap : GoapObject)
    (reader : ScoreReader Score) (brain : FleeceGoapBrain Cost) (world : World) :
    (∀ goal, (brain.tick host goap reader world).result ≠ .error goal) ↔
      ReplansWithin host goap reader brain.goalCooldownUntil.length brain world := by
  unfold ReplansWithin
  cases tick_ends host goap reader brain world with
  | returned next code input result _ _ =>
    rw [input, result]
    exact iff_of_true (fun _ => nofun) nofun
  | replanned ran after bb input result same =>
    have reaches := brainReplan_error_iff goap reader (host.eval goap.toGoapTables after) bb ran
    rw [input, result]
    constructor
    · intro safe ran' after' bb' equal on goal member
      cases equal
      refine not_le.mp fun outside => ?_
      obtain ⟨past, failed⟩ := reaches.mpr ⟨goal, member, on, same ▸ outside⟩
      exact safe past (by rw [failed]; rfl)
    · intro within goal failed
      cases replanned : ran.brainReplan goap reader (host.eval goap.toGoapTables after) bb with
      | ok replan =>
        rw [replanned] at failed
        nomatch failed
      | error past =>
        obtain ⟨other, member, on, outside⟩ := reaches.mp ⟨past, replanned⟩
        exact absurd (within ran after bb rfl on other member) (not_lt.mpr (same ▸ outside))

end FleeceGoapBrain

/-! ### Runs -/

/-- A call between two ticks: on the goap, on the brain, or whatever else changes the world. -/
inductive BrainCall (World : Type) where
  | register (call : Registration)
  | reset
  | deserialize (blob : Blob)
  | setMaxIters (maxIters : UInt32)
  | setMaxNodes (maxNodes : UInt32)
  | setMaxPlanDepth (maxDepth : UInt32)
  | setMaxActionTicks (maxTicks : UInt32)
  | setGoalCooldownTicks (ticks : UInt32)
  | changeWorld (world : World)

/-- A goap, the brain that drives it, and the action that was selected last, as it was then. -/
structure BrainSystem (Cost World : Type) where
  goap : GoapObject
  brain : FleeceGoapBrain Cost
  world : World
  selected : Option (PlanAction CString)

namespace BrainSystem

/-- A brain that was created for a goap, in some world, and has selected no action. -/
def start (goap : GoapObject) (world : World) : BrainSystem Cost World where
  goap := goap
  brain := .create goap
  world := world
  selected := none

/-- The tables that a call leaves. A call whose behaviour is not defined leaves the old ones. -/
def setTables (system : BrainSystem Cost World) (tables : Option GoapTables) :
    BrainSystem Cost World :=
  { system with goap := { system.goap with toGoapTables := tables.getD system.goap.toGoapTables } }

/-- What a call between two ticks does to the system; a budget of 0 is refused. -/
def call (system : BrainSystem Cost World) : BrainCall World → BrainSystem Cost World
  | .register call => system.setTables ((system.goap.register call).map Prod.fst)
  | .reset => system.setTables (some .empty)
  | .deserialize blob => system.setTables ((system.goap.deserialize blob).map Prod.fst)
  | .setMaxIters maxIters =>
    if 0 < maxIters then { system with goap := { system.goap with maxIters := maxIters } }
    else system
  | .setMaxNodes maxNodes =>
    if 0 < maxNodes then { system with goap := { system.goap with maxNodes := maxNodes } }
    else system
  | .setMaxPlanDepth maxDepth =>
    if 0 < maxDepth then { system with goap := { system.goap with maxPlanDepth := maxDepth } }
    else system
  | .setMaxActionTicks maxTicks =>
    { system with brain := { system.brain with maxActionTicks := maxTicks } }
  | .setGoalCooldownTicks ticks =>
    { system with brain := { system.brain with goalCooldownTicks := ticks } }
  | .changeWorld world => { system with world := world }

/-- What some calls do in their order. -/
def callAll (system : BrainSystem Cost World) (calls : List (BrainCall World)) :
    BrainSystem Cost World :=
  calls.foldl call system

/-- The calls change nothing that the brain keeps of the tables. -/
theorem callAll_brain (system : BrainSystem Cost World) (calls : List (BrainCall World)) :
    (system.callAll calls).brain.goalCooldownUntil = system.brain.goalCooldownUntil ∧
      (system.callAll calls).brain.actionIdx = system.brain.actionIdx ∧
      (system.callAll calls).selected = system.selected := by
  induction calls generalizing system with
  | nil => exact ⟨rfl, rfl, rfl⟩
  | cons first rest inductionHypothesis =>
    obtain ⟨untils, action, selected⟩ := inductionHypothesis (system.call first)
    have same : (system.call first).brain.goalCooldownUntil = system.brain.goalCooldownUntil ∧
        (system.call first).brain.actionIdx = system.brain.actionIdx ∧
        (system.call first).selected = system.selected := by
      unfold call
      split <;> try split_ifs
      all_goals exact ⟨rfl, rfl, rfl⟩
    exact ⟨untils.trans same.1, action.trans same.2.1, selected.trans same.2.2⟩

section Round

variable [Ring Cost] [LinearOrder Cost] {Score : Type} [Zero Score] [One Score] [Add Score]
  [Sub Score] [Mul Score] [Div Score] [BEq Score] [LT Score] [DecidableLT Score] [LE Score]
  [DecidableLE Score] (host : BrainHost Value Cost World) (reader : ScoreReader Score)

/-- A tick. One that uses an index past the end of `goal_cooldown_until` is taken to leave the
brain. -/
def tick (system : BrainSystem Cost World) : BrainSystem Cost World :=
  let ticked := system.brain.tick host system.goap reader system.world
  match ticked.result with
  | .error _ => { system with world := ticked.world }
  | .ok (next, _, event) =>
    { system with
      brain := next
      world := ticked.world
      selected := if event = some .replan then next.actionIdx.bind (system.goap.actions[·]?)
        else system.selected }

/-- Calls, and then a tick. -/
def round (system : BrainSystem Cost World) (calls : List (BrainCall World)) :
    BrainSystem Cost World :=
  (system.callAll calls).tick host reader

/-- The tick after the calls uses no index past the end of `goal_cooldown_until`, and the action
that it executes is the one that was selected. -/
def Safe (system : BrainSystem Cost World) (calls : List (BrainCall World)) : Prop :=
  let before := system.callAll calls
  (∀ goal, (before.brain.tick host before.goap reader before.world).result ≠ .error goal) ∧
    ∀ a, before.brain.actionIdx = some a →
      ∃ action, before.selected = some action ∧ before.goap.actions[a]? = some action

/-- The calls leave the record of the action that is being executed as it is, and while the cooldown
is on the replanning comes only to goals with an index below a number. -/
def Fits (created : Nat) (system : BrainSystem Cost World) (calls : List (BrainCall World)) :
    Prop :=
  let before := system.callAll calls
  before.brain.ReplansWithin host before.goap reader created before.world ∧
    ∀ a, system.brain.actionIdx = some a → before.goap.actions[a]? = system.goap.actions[a]?

/-- Every round of a run is safe. -/
def RunsSafely (goap : GoapObject) (world : World) (rounds : List (List (BrainCall World))) :
    Prop :=
  Along (round host reader) (Safe host reader) (start goap world) rounds

/-- There is a deadline for each of the goals that there were, and the index of the action is that
of the action that was selected. -/
structure Consistent (created : Nat) (system : BrainSystem Cost World) : Prop where
  untils : system.brain.goalCooldownUntil.length = created
  action : ∀ a, system.brain.actionIdx = some a →
    ∃ action, system.selected = some action ∧ system.goap.actions[a]? = some action

variable {host reader} {created : Nat} {system : BrainSystem Cost World}

omit [Ring Cost] [LinearOrder Cost] in
theorem consistent_start (goap : GoapObject) (world : World) :
    (start goap world : BrainSystem Cost World).Consistent goap.goals.length :=
  ⟨List.length_replicate, nofun⟩

theorem safe_iff (consistent : system.Consistent created) (calls : List (BrainCall World)) :
    system.Safe host reader calls ↔ system.Fits host reader created calls := by
  obtain ⟨untils, action, selected⟩ := system.callAll_brain calls
  unfold Safe Fits
  simp only
  rw [FleeceGoapBrain.tick_ne_error_iff, untils, consistent.untils, action, selected]
  refine and_congr_right fun _ => forall_congr' fun a => forall_congr' fun executed => ?_
  obtain ⟨chosen, isChosen, stands⟩ := consistent.action a executed
  rw [stands]
  constructor
  · rintro ⟨other, isOther, same⟩
    rw [same, ← isOther, isChosen]
  · intro same
    exact ⟨chosen, isChosen, same⟩

/-- A safe round leaves the brain consistent. -/
theorem consistent_round (consistent : system.Consistent created) {calls : List (BrainCall World)}
    (safe : system.Safe host reader calls) :
    (system.round host reader calls).Consistent created := by
  obtain ⟨untils, action, selected⟩ := system.callAll_brain calls
  obtain ⟨inside, stands⟩ := safe
  unfold round tick
  generalize system.callAll calls = before at untils action selected inside stands ⊢
  simp only
  cases before.brain.tick_ends host before.goap reader before.world with
  | returned next code _ result sameUntils kept =>
    rw [result]
    refine ⟨?_, fun a executed => ?_⟩
    · rw [← consistent.untils, ← untils, ← sameUntils]
    · obtain none | same := kept
      · exact nomatch none.symm.trans executed
      · exact stands a (same ▸ executed)
  | replanned ran after bb _ result sameUntils =>
    cases replanned : ran.brainReplan before.goap reader
        (host.eval before.goap.toGoapTables after) bb with
    | error past =>
      rw [replanned] at result
      exact absurd result (inside past)
    | ok replan =>
      obtain ⟨next, event⟩ := replan
      rw [replanned] at result
      rw [result]
      obtain ⟨length, inTable⟩ := FleeceGoapBrain.brainReplan_ok replanned
      refine ⟨?_, fun a executed => ?_⟩
      · rw [← consistent.untils, ← untils, ← sameUntils, ← length]
        rfl
      · obtain ⟨rfl, below⟩ := inTable a executed
        refine ⟨before.goap.actions[a], ?_, List.getElem?_eq_getElem below⟩
        change (if some BrainEvent.replan = some .replan then
          next.actionIdx.bind (before.goap.actions[·]?) else before.selected) = _
        rw [if_pos rfl, show next.actionIdx = some a from executed, Option.bind_some,
          List.getElem?_eq_getElem below]

/-- For every host, goap that a brain is created for, world, and run of rounds of calls and a tick
each: the ticks use only indices for which `goal_cooldown_until` has an element, and execute only
the action that was selected, exactly if in every round the calls leave the record of that action as
it is, and the replanning, while the cooldown is on, comes only to goals whose index is below the
number of goals at the creation of the brain. -/
theorem brain_indices_valid_iff (host : BrainHost Value Cost World) (reader : ScoreReader Score)
    (goap : GoapObject) (world : World) (rounds : List (List (BrainCall World))) :
    RunsSafely host reader goap world rounds ↔
      Along (round host reader) (Fits host reader goap.goals.length) (start goap world) rounds :=
  along_iff (fun _ calls consistent => safe_iff consistent calls)
    (fun _ _ consistent safe => consistent_round consistent safe) (consistent_start goap world)

end Round

/-- The host of the sample engine, with a road from the place where the brain is to its goal. -/
def roadHost : BrainHost SampleValue Int (FleeceStateManager × Unit) :=
  { sampleHost with
    eval := fun _ _ => roadEval [⟨0x31, 0x32, 1⟩] 0x32
    freshBb := fun _ world => (some (atPlace 0x31), world) }

/-- A brain is created before its goap has goals: with the cooldown on, the first goal is one too
many. And a brain whose action was selected executes what stands at its index after the tables were
reset. -/
theorem stale_indices :
    let goal : FleeceGoapGoalDef :=
      ⟨some ⟨[0x67], by decide⟩, none, none, ⟨0x3FF0000000000000⟩, none⟩
    let scan : FleeceGoapActionDef :=
      ⟨⟨some ⟨[0x61], by decide⟩, none, none, none, .zero, some ⟨[0x66], by decide⟩, [], []⟩,
        by decide, by decide⟩
    let land : FleeceGoapActionDef :=
      ⟨⟨some ⟨[0x62], by decide⟩, none, none, none, .zero, some ⟨[0x74], by decide⟩, [], []⟩,
        by decide, by decide⟩
    ¬ RunsSafely sampleHost wholeReader ⟨.empty, 2048, 512, 8⟩ (.blank 1, ())
        [[.setGoalCooldownTicks 3, .register (.addGoal goal)]] ∧
      ∃ tables, GoapTables.empty.registerAll [.addAction scan, .addGoal goal] = some tables ∧
        ¬ RunsSafely roadHost wholeReader ⟨tables, 2048, 512, 8⟩ (.blank 1, ())
          [[], [.reset, .register (.addAction land)]] := by
  intro goal scan land
  constructor
  · rintro ⟨⟨inside, _⟩, _⟩
    let before : BrainSystem Int (FleeceStateManager × Unit) :=
      (start ⟨.empty, 2048, 512, 8⟩ (.blank 1, ())).callAll
        [.setGoalCooldownTicks 3, .register (.addGoal goal)]
    let ticked := before.brain.tick sampleHost before.goap wholeReader before.world
    have failed : ticked.result.toOption = none := by decide +kernel
    cases result : ticked.result with
    | error past => exact inside past result
    | ok next =>
      rw [result] at failed
      nomatch failed
  · let tables := (GoapTables.empty.registerAll [.addAction scan, .addGoal goal]).getD .empty
    let before : BrainSystem Int (FleeceStateManager × Unit) :=
      (round roadHost wholeReader (start ⟨tables, 2048, 512, 8⟩ (.blank 1, ())) []).callAll
        [.reset, .register (.addAction land)]
    have executed : before.brain.actionIdx = some 0 := by decide +kernel
    have differs : before.selected ≠ before.goap.actions[0]? := by decide +kernel
    refine ⟨tables, rfl, ?_⟩
    rintro ⟨_, ⟨_, stands⟩, _⟩
    obtain ⟨action, isSelected, same⟩ := stands 0 executed
    exact differs (isSelected.trans same.symm)

end BrainSystem

end Fleece
