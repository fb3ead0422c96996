/-
This file models the replanning of the brain in `fleece_goap_js.c`: `brain_replan`
ranks the goals, plans for them one at a time and takes the first action of the
first plan that has one.

The goal goes to the planner as an id and the action comes back as one, and both are
looked up in their tables, where the first record with the id is found. So the plan
is for the selected goal, and the selected action is the first of the plan, exactly
if the tables have no earlier record with the same id. The ranking drops what is at
or below zero; a utility that is no number is not dropped.
-/

import Fleece.GoalRanking
import Fleece.Soundness

namespace Fleece

variable {Cost : Type}

/-! ### The first action of a plan -/

/-- The actions that the walk from a node to the root spells, from the root on. -/
def planRoute (nodes : List (SearchNode Cost)) (nodeIdx : Nat) : List (Option Nat) :=
  (walk nodes nodes.length (some nodeIdx)).dropLast.reverse

namespace FleeceGoap

/-- `fleece_goap_find_action`: the first action with the id. -/
def findAction (goap : FleeceGoap) (id : CString) : Option Nat :=
  goap.actions.findIdx? fun a => decide (a.id.toCString = id)

theorem resolveTargets_singleton (goap : FleeceGoap) {id : CString} {goal : Nat} :
    goap.resolveTargets [id] = some [goal] ↔ goap.findGoal id = some goal := by
  unfold resolveTargets
  rw [if_neg (by simp), List.mapM_cons, List.mapM_nil]
  cases goap.findGoal id with
  | none => simp
  | some found => simp

variable [Ring Cost] [LinearOrder Cost]

/-- The first action, by its index, of the plan that a search for the targets finds. -/
def firstAction (goap : FleeceGoap) (eval : FleeceGoapEval Cost) (targets : List Nat)
    (start : FleeceGoapBlackboard) : Option Nat :=
  match goap.search eval targets start with
  | (.found nodeIdx _, search) => (planRoute search.nodes nodeIdx).head?.join
  | _ => none

/-- The first id of a plan is that of the first action of its search, whose preconditions hold. -/
theorem firstAction_of_plan {goap : FleeceGoap} {eval : FleeceGoapEval Cost}
    {start : FleeceGoapBlackboard} {goalIds : List CString} {plan : FleeceGoapPlan Cost}
    {first : FieldName} (returned : goap.plan start goalIds eval = some plan)
    (isFirst : plan.actionIds.head? = some first) :
    ∃ targets a action, goap.resolveTargets goalIds = some targets ∧
      goap.firstAction eval targets start = some a ∧ goap.actions[a]? = some action ∧
      action.id = first ∧ eval.actionPre a start = (0, true) := by
  obtain ⟨targets, nodeIdx, iters, search, resolved, ended, spelled⟩ := search_of_plan returned
  have how := search_ended goap eval targets start
  rw [ended] at how
  cases how with
  | @found _ node _ _ invariant held goal least wentOn inTime =>
    obtain ⟨route, keys, nodeAt, ids, _⟩ := planTo_spec invariant held spelled
    have inside := (List.getElem?_eq_some_iff.mp held).1
    have walked : planRoute search.nodes nodeIdx = route.map some := by
      rw [planRoute, nodeAt.chain.walk_eq inside, List.dropLast_concat, List.reverse_reverse]
    cases route with
    | nil =>
      rw [List.map_nil, List.map_eq_nil_iff] at ids
      rw [ids] at isFirst
      cases isFirst
    | cons a rest =>
      obtain ⟨next, taken⟩ := nodeAt.explores.reaches.head
      have inTable : a < goap.actions.length := lt_of_successor taken
      have sameId : some first = (goap.actions[a]?).map GoapAction.id := by
        have heads := congrArg List.head? ids
        rw [List.head?_map, isFirst] at heads
        exact Option.some.inj heads
      rw [List.getElem?_eq_getElem inTable, Option.map_some] at sameId
      refine ⟨targets, a, goap.actions[a], resolved, ?_, List.getElem?_eq_getElem inTable,
        (Option.some.inj sameId).symm, ?_⟩
      · rw [firstAction, ended]
        simp only [walked]
        rfl
      · unfold problem at taken
        simp only [successor, if_pos inTable] at taken
        split_ifs at taken with applicable
        exact Prod.ext applicable.1 applicable.2

end FleeceGoap

/-! ### Distinct ids -/

/-! ### The brain -/

/-- The part of a `FleeceGoapBrain` that its ticks work on. An index of -1 is `none`. -/
structure FleeceGoapBrain (Cost : Type) where
  plan : Option (FleeceGoapPlan Cost)
  goalIdx : Option Nat
  actionIdx : Option Nat
  execProgress : UInt32
  maxActionTicks : UInt32
  goalCooldownUntil : List UInt32
  goalCooldownTicks : UInt32
  tickCount : UInt32

/-- The events of a tick. -/
inductive BrainEvent where
  | replan
  | actionDone
  | aborted
  | idle
  deriving DecidableEq

/-- `fleece_goap_brain_create`. -/
def FleeceGoapBrain.create (goap : GoapObject) : FleeceGoapBrain Cost where
  plan := none
  goalIdx := none
  actionIdx := none
  execProgress := 0
  maxActionTicks := 0
  goalCooldownUntil := List.replicate goap.goals.length 0
  goalCooldownTicks := 0
  tickCount := 0

namespace FleeceGoapBrain

/-- The goal failed to plan recently. -/
def isCooling (brain : FleeceGoapBrain Cost) (goal : Nat) : Bool :=
  decide (0 < brain.goalCooldownTicks) &&
    (brain.goalCooldownUntil[goal]?).any fun until' => decide (brain.tickCount < until')

/-- The goal is not tried again for a while. -/
def coolDown (brain : FleeceGoapBrain Cost) (goal : Nat) : FleeceGoapBrain Cost :=
  if 0 < brain.goalCooldownTicks then
    { brain with goalCooldownUntil :=
        brain.goalCooldownUntil.set goal (brain.tickCount + brain.goalCooldownTicks) }
  else brain

/-- `goal_cooldown_until` is used at an index past its end. -/
def IsPastEnd (brain : FleeceGoapBrain Cost) (goal : Nat) : Prop :=
  0 < brain.goalCooldownTicks ∧ brain.goalCooldownUntil.length ≤ goal

instance (brain : FleeceGoapBrain Cost) (goal : Nat) : Decidable (brain.IsPastEnd goal) :=
  inferInstanceAs (Decidable (_ ∧ _))

variable [Ring Cost] [LinearOrder Cost]

section Replan

variable (goap : GoapObject) (eval : FleeceGoapEval Cost) (bb : FleeceGoapBlackboard)

/-- The plan for a goal, with the id of its first action, unless it is empty. -/
def planFor (goal : Nat) : Option (FleeceGoapPlan Cost × FieldName) :=
  (goap.goals[goal]?).bind fun g =>
    (goap.searched.plan bb [g.id] eval).bind fun plan =>
      plan.actionIds.head?.map fun first => (plan, first)

/-- The goal is selected with a plan for it. -/
def select (brain : FleeceGoapBrain Cost) (goal : Nat)
    (planned : FleeceGoapPlan Cost × FieldName) : FleeceGoapBrain Cost :=
  { brain with
    plan := some planned.1
    goalIdx := some goal
    actionIdx := goap.searched.findAction planned.2.toCString
    execProgress := 0 }

/-- The loop of `brain_replan` over the ranked goals. The error is the index of a goal that
`goal_cooldown_until` has no element for. -/
def tryGoals (brain : FleeceGoapBrain Cost) :
    List Nat → Except Nat (FleeceGoapBrain Cost × BrainEvent)
  | [] => .ok (brain, .idle)
  | goal :: rest =>
    if brain.IsPastEnd goal then .error goal
    else if brain.isCooling goal then brain.tryGoals rest
    else
      match planFor goap eval bb goal with
      | some planned => .ok (select goap brain goal planned, .replan)
      | none => (brain.coolDown goal).tryGoals rest

/-! ### What the loop comes to -/

/-- The goals the loop comes to: up to the first that is not cooling down and has a plan. -/
def consulted (brain : FleeceGoapBrain Cost) : List Nat → List Nat
  | [] => []
  | goal :: rest =>
    goal :: if brain.isCooling goal = false ∧ (planFor goap eval bb goal).isSome = true then []
      else brain.consulted rest

/-- The first goal that is not cooling down and has a plan, unless one before it is past the end. -/
def candidate (brain : FleeceGoapBrain Cost) (goals : List Nat) : Option Nat :=
  (goals.takeWhile fun goal => decide ¬ brain.IsPastEnd goal).find? fun goal =>
    !brain.isCooling goal && (planFor goap eval bb goal).isSome

/-- The loop on a list of goals, by what it comes to. -/
inductive Tried (brain : FleeceGoapBrain Cost) (goals : List Nat) :
    Except Nat (FleeceGoapBrain Cost × BrainEvent) → Prop
  | pastEnd (goal : Nat) (reached : goal ∈ brain.consulted goap eval bb goals)
      (outside : brain.IsPastEnd goal) (none : brain.candidate goap eval bb goals = none) :
      Tried brain goals (.error goal)
  | idle (untils : List UInt32)
      (inside : ∀ goal ∈ brain.consulted goap eval bb goals, ¬ brain.IsPastEnd goal)
      (none : brain.candidate goap eval bb goals = none)
      (length : untils.length = brain.goalCooldownUntil.length) :
      Tried brain goals (.ok ({ brain with goalCooldownUntil := untils }, .idle))
  | selected (untils : List UInt32) (goal : Nat) (planned : FleeceGoapPlan Cost × FieldName)
      (inside : ∀ goal ∈ brain.consulted goap eval bb goals, ¬ brain.IsPastEnd goal)
      (first : brain.candidate goap eval bb goals = some goal)
      (hasPlan : planFor goap eval bb goal = some planned)
      (length : untils.length = brain.goalCooldownUntil.length) :
      Tried brain goals
        (.ok (select goap { brain with goalCooldownUntil := untils } goal planned, .replan))

variable {goap eval bb} {brain : FleeceGoapBrain Cost}

omit [Ring Cost] [LinearOrder Cost] in
theorem coolDown_eq (brain : FleeceGoapBrain Cost) (goal : Nat) : ∃ untils : List UInt32,
    brain.coolDown goal = { brain with goalCooldownUntil := untils } ∧
      untils.length = brain.goalCooldownUntil.length ∧
      ∀ other, other ≠ goal → untils[other]? = brain.goalCooldownUntil[other]? := by
  unfold coolDown
  split_ifs
  · exact ⟨_, rfl, List.length_set, fun other differs => List.getElem?_set_ne differs.symm⟩
  · exact ⟨_, rfl, rfl, fun _ _ => rfl⟩

variable (goap eval bb) in
/-- What the loop comes to does not depend on the elements of goals that it does not come to. -/
theorem consulted_congr {untils : List UInt32} {goals : List Nat}
    (length : untils.length = brain.goalCooldownUntil.length)
    (same : ∀ goal ∈ goals, untils[goal]? = brain.goalCooldownUntil[goal]?) :
    consulted goap eval bb { brain with goalCooldownUntil := untils } goals =
        brain.consulted goap eval bb goals ∧
      candidate goap eval bb { brain with goalCooldownUntil := untils } goals =
        brain.candidate goap eval bb goals := by
  have cooling : ∀ goal ∈ goals,
      isCooling { brain with goalCooldownUntil := untils } goal = brain.isCooling goal := by
    intro goal member
    unfold isCooling
    rw [same goal member]
  have pastEnd (goal : Nat) :
      IsPastEnd { brain with goalCooldownUntil := untils } goal ↔ brain.IsPastEnd goal := by
    unfold IsPastEnd
    rw [length]
  constructor
  · clear same
    induction goals with
    | nil => rfl
    | cons goal rest inductionHypothesis =>
      rw [consulted, consulted, cooling goal List.mem_cons_self,
        inductionHypothesis fun other member => cooling other (List.mem_cons_of_mem _ member)]
  · unfold candidate
    simp only [pastEnd]
    refine List.find?_congr fun goal member => ?_
    rw [cooling goal ((List.takeWhile_prefix _).subset member)]

/-- A goal that is cooling down or has no plan is passed over. -/
theorem consulted_skip {goal : Nat} (rest : List Nat) (inside : ¬ brain.IsPastEnd goal)
    (skipped : ¬ (brain.isCooling goal = false ∧ (planFor goap eval bb goal).isSome = true)) :
    brain.consulted goap eval bb (goal :: rest) = goal :: brain.consulted goap eval bb rest ∧
      brain.candidate goap eval bb (goal :: rest) = brain.candidate goap eval bb rest := by
  refine ⟨by rw [consulted, if_neg skipped], ?_⟩
  unfold candidate
  rw [List.takeWhile_cons, if_pos (decide_eq_true inside), List.find?_cons_of_neg]
  intro taken
  obtain ⟨warm, hasPlan⟩ := Bool.and_eq_true_iff.mp taken
  exact skipped ⟨by simpa using warm, hasPlan⟩

/-- The loop after a goal that is passed over. -/
theorem Tried.skip {goal : Nat} {rest : List Nat} {untils : List UInt32}
    {result : Except Nat (FleeceGoapBrain Cost × BrainEvent)} (inside : ¬ brain.IsPastEnd goal)
    (skipped : ¬ (brain.isCooling goal = false ∧ (planFor goap eval bb goal).isSome = true))
    (length : untils.length = brain.goalCooldownUntil.length)
    (same : ∀ other ∈ rest, untils[other]? = brain.goalCooldownUntil[other]?)
    (tried : Tried goap eval bb { brain with goalCooldownUntil := untils } rest result) :
    Tried goap eval bb brain (goal :: rest) result := by
  obtain ⟨consultedEq, candidateEq⟩ := consulted_congr goap eval bb length same
  obtain ⟨consultedCons, candidateCons⟩ := consulted_skip rest inside skipped
  have pastEnd (other : Nat) :
      IsPastEnd { brain with goalCooldownUntil := untils } other ↔ brain.IsPastEnd other := by
    unfold IsPastEnd
    rw [length]
  have stays (insideRest : ∀ other ∈ consulted goap eval bb
      { brain with goalCooldownUntil := untils } rest,
      ¬ IsPastEnd { brain with goalCooldownUntil := untils } other) :
      ∀ other ∈ brain.consulted goap eval bb (goal :: rest), ¬ brain.IsPastEnd other := by
    intro other member
    rw [consultedCons, ← consultedEq] at member
    obtain rfl | later := List.mem_cons.mp member
    · exact inside
    · exact fun outside => insideRest other later ((pastEnd other).mpr outside)
  cases tried with
  | pastEnd other reached outside none =>
    refine .pastEnd other ?_ ((pastEnd other).mp outside) ?_
    · rw [consultedCons, ← consultedEq]
      exact List.mem_cons_of_mem _ reached
    · rw [candidateCons, ← candidateEq, none]
  | idle untils' insideRest none lengthRest =>
    refine .idle untils' (stays insideRest) ?_ (lengthRest.trans length)
    rw [candidateCons, ← candidateEq, none]
  | selected untils' other planned insideRest first hasPlan lengthRest =>
    refine .selected untils' other planned (stays insideRest) ?_ hasPlan (lengthRest.trans length)
    rw [candidateCons, ← candidateEq, first]

theorem tryGoals_tried (brain : FleeceGoapBrain Cost) {goals : List Nat} (distinct : goals.Nodup) :
    Tried goap eval bb brain goals (brain.tryGoals goap eval bb goals) := by
  induction goals generalizing brain with
  | nil => exact .idle brain.goalCooldownUntil (fun _ member => nomatch member) rfl rfl
  | cons goal rest inductionHypothesis =>
    obtain ⟨fresh, distinctRest⟩ := List.nodup_cons.mp distinct
    rw [tryGoals]
    by_cases outside : brain.IsPastEnd goal
    · rw [if_pos outside]
      refine .pastEnd goal (by rw [consulted]; exact List.mem_cons_self) outside ?_
      unfold candidate
      rw [List.takeWhile_cons, if_neg (by simpa using outside)]
      rfl
    rw [if_neg outside]
    by_cases cooling : brain.isCooling goal = true
    · rw [if_pos cooling]
      refine .skip outside ?_ rfl (fun _ _ => rfl) (inductionHypothesis brain distinctRest)
      rw [cooling]
      exact fun taken => nomatch taken.1
    rw [if_neg cooling]
    cases hasPlan : planFor goap eval bb goal with
    | some planned =>
      have taken : brain.isCooling goal = false ∧ (planFor goap eval bb goal).isSome = true :=
        ⟨Bool.eq_false_of_not_eq_true cooling, by rw [hasPlan]; rfl⟩
      refine .selected brain.goalCooldownUntil goal planned ?_ ?_ hasPlan rfl
      · intro other member
        rw [consulted, if_pos taken, List.mem_singleton] at member
        rwa [member]
      · unfold candidate
        rw [List.takeWhile_cons, if_pos (decide_eq_true outside), List.find?_cons_of_pos]
        rw [taken.1, taken.2]
        rfl
    | none =>
      obtain ⟨untils, cooled, length, same⟩ := coolDown_eq brain goal
      refine .skip outside ?_ length
        (fun other member => same other fun equal => fresh (equal ▸ member)) ?_
      · rw [hasPlan]
        exact fun taken => nomatch taken.2
      · have tried := inductionHypothesis (brain.coolDown goal) distinctRest
        rw [cooled] at tried ⊢
        exact tried

end Replan

/-! ### A replanning -/

section Score

variable {Score : Type} [Zero Score] [One Score] [Add Score] [Sub Score] [Mul Score] [Div Score]
  [BEq Score] [LT Score] [DecidableLT Score] [LE Score] [DecidableLE Score]
  (goap : GoapObject) (reader : ScoreReader Score) (eval : FleeceGoapEval Cost)
  (bb : FleeceGoapBlackboard)

/-- The goals in the order in which a replanning tries them. -/
def rankedGoals : List Nat := goap.rankGoals reader eval bb 0 goap.goals.length

/-- The plan is dropped, and no goal and no action is selected. -/
def cleared (brain : FleeceGoapBrain Cost) : FleeceGoapBrain Cost :=
  { brain with plan := none, goalIdx := none, actionIdx := none }

/-- `brain_replan`: the goals are tried in the order of their utility. -/
def brainReplan (brain : FleeceGoapBrain Cost) : Except Nat (FleeceGoapBrain Cost × BrainEvent) :=
  brain.cleared.tryGoals goap eval bb (rankedGoals goap reader eval bb)

/-- The brain is to execute the first action of a plan for the goal, which is not satisfied and is
of use. -/
structure PlannedFor (goal : Nat) (brain : FleeceGoapBrain Cost) : Prop where
  unsatisfied : eval.goalSatisfied goal bb = (0, false)
  useful : 0 < goap.goalUtility reader goal bb
  plan : ∃ g plan, goap.goals[goal]? = some g ∧ brain.plan = some plan ∧
    goap.searched.plan bb [g.id] eval = some plan ∧
    goap.searched.resolveTargets [g.id] = some [goal]
  action : ∃ a, brain.actionIdx = some a ∧ goap.searched.firstAction eval [goal] bb = some a ∧
    eval.actionPre a bb = (0, true)

/-- A goal that a replanning selects is one that its plan is for. -/
def PlansSelected (brain : FleeceGoapBrain Cost) : Prop :=
  ∀ next event goal, brain.brainReplan goap reader eval bb = .ok (next, event) →
    next.goalIdx = some goal → PlannedFor goap reader eval bb goal next

/-- The first goal in the ranking that is not cooling down and has a plan has a utility that
compares with zero, is the first with its id, and the first action of the search for it is the first
with its id. -/
def FindsCandidate (brain : FleeceGoapBrain Cost) : Prop :=
  ∀ goal, brain.candidate goap eval bb (rankedGoals goap reader eval bb) = some goal →
    (goap.goalUtility reader goal bb ≤ 0 ∨ 0 < goap.goalUtility reader goal bb) ∧
      (∀ g, goap.goals[goal]? = some g → goap.searched.findGoal g.id = some goal) ∧
      ∀ a action, goap.searched.firstAction eval [goal] bb = some a →
        goap.searched.actions[a]? = some action →
        goap.searched.findAction action.id.toCString = some a

variable {goap reader eval bb}

omit [Ring Cost] [LinearOrder Cost] in
theorem nodup_rankedGoals : (rankedGoals goap reader eval bb).Nodup :=
  (InsertionSort.sort_perm _).nodup_iff.mpr
    ((List.nodup_range.filter _).sublist (List.take_sublist _ _))

variable (goap reader eval bb) in
/-- What a replanning comes to. -/
theorem brainReplan_tried (brain : FleeceGoapBrain Cost) :
    Tried goap eval bb brain.cleared (rankedGoals goap reader eval bb)
      (brain.brainReplan goap reader eval bb) :=
  tryGoals_tried brain.cleared nodup_rankedGoals

/-- A replanning that selects a goal selects the candidate. -/
theorem candidate_of_selected {brain next : FleeceGoapBrain Cost} {event : BrainEvent} {goal : Nat}
    (replanned : brain.brainReplan goap reader eval bb = .ok (next, event))
    (selected : next.goalIdx = some goal) :
    brain.candidate goap eval bb (rankedGoals goap reader eval bb) = some goal ∧
      ∃ plan first, planFor goap eval bb goal = some (plan, first) ∧ next.plan = some plan ∧
        next.actionIdx = goap.searched.findAction first.toCString := by
  have tried := brain.brainReplan_tried goap reader eval bb
  rw [replanned] at tried
  cases tried with
  | idle untils inside none length => nomatch selected
  | selected untils other planned inside first hasPlan length =>
    obtain rfl : other = goal := Option.some.inj selected
    exact ⟨first, planned.1, planned.2, hasPlan, rfl, rfl⟩

/-- A replanning with a candidate selects it. -/
theorem selected_of_candidate {brain : FleeceGoapBrain Cost} {goal : Nat}
    (isCandidate : brain.candidate goap eval bb (rankedGoals goap reader eval bb) = some goal) :
    ∃ next event, brain.brainReplan goap reader eval bb = .ok (next, event) ∧
      next.goalIdx = some goal := by
  have tried := brain.brainReplan_tried goap reader eval bb
  generalize brain.brainReplan goap reader eval bb = result at tried ⊢
  cases tried with
  | pastEnd other reached outside none => exact nomatch none.symm.trans isCandidate
  | idle untils inside none length => exact nomatch none.symm.trans isCandidate
  | selected untils other planned inside first hasPlan length =>
    obtain rfl : other = goal := Option.some.inj (first.symm.trans isCandidate)
    exact ⟨_, _, rfl, rfl⟩

theorem mem_of_candidate {brain : FleeceGoapBrain Cost} {goals : List Nat} {goal : Nat}
    (isCandidate : brain.candidate goap eval bb goals = some goal) :
    goal ∈ goals :=
  (List.takeWhile_prefix _).subset (List.mem_of_find?_eq_some isCandidate)

theorem plannedFor_iff {brain next : FleeceGoapBrain Cost} {event : BrainEvent} {goal : Nat}
    (replanned : brain.brainReplan goap reader eval bb = .ok (next, event))
    (selected : next.goalIdx = some goal) :
    PlannedFor goap reader eval bb goal next ↔
      (goap.goalUtility reader goal bb ≤ 0 ∨ 0 < goap.goalUtility reader goal bb) ∧
        (∀ g, goap.goals[goal]? = some g → goap.searched.findGoal g.id = some goal) ∧
        ∀ a action, goap.searched.firstAction eval [goal] bb = some a →
          goap.searched.actions[a]? = some action →
          goap.searched.findAction action.id.toCString = some a := by
  obtain ⟨isCandidate, plan, first, hasPlan, stored, action⟩ :=
    candidate_of_selected replanned selected
  obtain ⟨_, unsatisfied, notBelow⟩ := goap.mem_rankGoals reader eval (mem_of_candidate isCandidate)
  obtain ⟨g, isGoal, made⟩ := Option.bind_eq_some_iff.mp hasPlan
  obtain ⟨given, returned, heads⟩ := Option.bind_eq_some_iff.mp made
  obtain ⟨_, isFirst, same⟩ := Option.map_eq_some_iff.mp heads
  cases same
  obtain ⟨targets, a, record, resolved, begins, inTable, sameId, applicable⟩ :=
    FleeceGoap.firstAction_of_plan returned isFirst
  constructor
  · rintro ⟨_, useful, ⟨other, _, isOther, _, _, targetOne⟩, chosen, isChosen, beginsChosen, _⟩
    obtain rfl : g = other := Option.some.inj (isGoal.symm.trans isOther)
    refine ⟨.inr useful, fun other isOther => ?_, fun b entry beginsOther isEntry => ?_⟩
    · obtain rfl : g = other := Option.some.inj (isGoal.symm.trans isOther)
      exact goap.searched.resolveTargets_singleton.mp targetOne
    · obtain rfl : targets = [goal] := Option.some.inj (resolved.symm.trans targetOne)
      obtain rfl : a = b := Option.some.inj (begins.symm.trans beginsOther)
      obtain rfl : a = chosen := Option.some.inj (begins.symm.trans beginsChosen)
      obtain rfl : record = entry := Option.some.inj (inTable.symm.trans isEntry)
      rw [sameId, ← action, isChosen]
  · rintro ⟨compares, finds, firstFound⟩
    have targetOne := goap.searched.resolveTargets_singleton.mpr (finds g isGoal)
    obtain rfl : targets = [goal] := Option.some.inj (resolved.symm.trans targetOne)
    refine ⟨unsatisfied, compares.resolve_left notBelow,
      ⟨g, plan, isGoal, stored, returned, targetOne⟩, a, ?_, begins, applicable⟩
    rw [action, ← sameId, firstFound a record begins inTable]

/-- For all tables, callbacks, blackboards and brains: the replanning selects a goal that is not
satisfied and has a utility above zero, keeps a plan for it, and is to execute the first action of
that plan, exactly if the first goal in the ranking that is not cooling down and has a plan has a
utility that compares with zero and is the first with its id, and the first action of the search for
it is the first with its id. -/
theorem plans_selected_iff (goap : GoapObject) (reader : ScoreReader Score)
    (eval : FleeceGoapEval Cost) (bb : FleeceGoapBlackboard) (brain : FleeceGoapBrain Cost) :
    PlansSelected goap reader eval bb brain ↔ FindsCandidate goap reader eval bb brain := by
  constructor
  · intro plans goal isCandidate
    obtain ⟨next, event, replanned, selected⟩ := selected_of_candidate isCandidate
    exact (plannedFor_iff replanned selected).mp (plans next event goal replanned selected)
  · intro finds next event goal replanned selected
    exact (plannedFor_iff replanned selected).mpr
      (finds goal (candidate_of_selected replanned selected).1)

end Score

/-- Two actions have one id, and only the second can be taken where the brain is. It is the whole
plan for the goal, and the brain is to execute the first. -/
theorem same_id_runs_other :
    let action : FleeceGoapActionDef :=
      ⟨⟨some ⟨[0x61], by decide⟩, none, some ⟨[0x63], by decide⟩, none, .zero, none, [], []⟩,
        by decide, by decide⟩
    let goal : FleeceGoapGoalDef :=
      ⟨some ⟨[0x67], by decide⟩, none, none, ⟨0x3FF0000000000000⟩, none⟩
    let eval := roadEval [⟨0x32, 0x33, 1⟩, ⟨0x31, 0x33, 1⟩] 0x33
    ∃ tables, GoapTables.empty.registerAll [.addAction action, .addAction action, .addGoal goal] =
        some tables ∧
      let goap : GoapObject := ⟨tables, 2048, 512, 8⟩
      (∃ next, (create goap).brainReplan goap wholeReader eval (atPlace 0x31) =
          .ok (next, .replan) ∧ next.goalIdx = some 0 ∧ next.actionIdx = some 0) ∧
        eval.actionPre 0 (atPlace 0x31) = (0, false) ∧
        ¬ PlansSelected goap wholeReader eval (atPlace 0x31) (create goap) := by
  intro action goal eval
  refine ⟨_, rfl, ?_⟩
  intro goap
  have selected : ((create goap).brainReplan goap wholeReader eval (atPlace 0x31)).toOption.map
      (fun replanned => (replanned.2, replanned.1.goalIdx, replanned.1.actionIdx)) =
        some (.replan, some 0, some 0) := by decide +kernel
  cases replanned : (create goap).brainReplan goap wholeReader eval (atPlace 0x31) with
  | error past =>
    rw [replanned] at selected
    nomatch selected
  | ok result =>
    rw [replanned] at selected
    obtain ⟨next, event⟩ := result
    have parts : (event, next.goalIdx, next.actionIdx) = (.replan, some 0, some 0) :=
      Option.some.inj selected
    simp only [Prod.mk.injEq] at parts
    obtain ⟨rfl, isGoal, isAction⟩ := parts
    refine ⟨⟨next, rfl, isGoal, isAction⟩, rfl, fun plans => ?_⟩
    obtain ⟨a, executed, _, applicable⟩ := (plans next .replan 0 replanned isGoal).action
    obtain rfl : 0 = a := Option.some.inj (isAction.symm.trans executed)
    exact absurd (congrArg Prod.snd applicable) Bool.false_ne_true

end FleeceGoapBrain

end Fleece
