/-
This file proves that a plan can be carried out. The route that the parents of the
goal node spell can be replayed from the start blackboard, action by action, at the
cost the plan reports, and it ends where every target is met, within the depth cap
and the budget of iterations.
-/

import Fleece.Search

namespace Fleece

open Routes

variable {Cost : Type} [Ring Cost] [LinearOrder Cost]

namespace FleeceGoap

variable {goap : FleeceGoap} {eval : FleeceGoapEval Cost} {targets : List Nat}
  {start bb : FleeceGoapBlackboard}

/-! ### What the callbacks said -/

omit [Ring Cost] [LinearOrder Cost] in
theorem lt_of_successor {a : Nat} {dst : FleeceGoapBlackboard}
    (generated : goap.successor eval a bb = some dst) : a < goap.actions.length := by
  by_contra outside
  rw [successor, if_neg outside] at generated
  cases generated

omit [Ring Cost] [LinearOrder Cost] in
theorem satisfied_of_goalsMet (met : goalsMet eval targets bb = true) {target : Nat}
    (member : target ∈ targets) : eval.goalSatisfied target bb = (0, true) := by
  obtain ⟨accepted, satisfied⟩ := Bool.and_eq_true_iff.mp (List.all_eq_true.mp met target member)
  exact Prod.ext (of_decide_eq_true accepted) satisfied

omit [Ring Cost] [LinearOrder Cost] in
theorem countUnsatisfied_of_goalsMet (met : goalsMet eval targets bb = true) :
    countUnsatisfied eval targets bb = 0 := by
  rw [countUnsatisfied, List.countP_eq_zero]
  intro target member
  rw [List.all_eq_true.mp met target member]
  exact Bool.false_ne_true

/-- The ids of a route that can be taken are ids of the table. -/
theorem map_actionId {route : List Nat} {cost : Cost}
    (reaches : Reaches (goap.problem eval targets start) route bb cost) :
    (route.map fun a => some (goap.actionId (some a))) =
      route.map fun a => (goap.actions[a]?).map GoapAction.id := by
  induction reaches with
  | start => rfl
  | @step route state next cost a before taken inductionHypothesis =>
    have inside : a < goap.actions.length := lt_of_successor taken
    rw [List.map_append, List.map_append, inductionHypothesis, List.map_singleton,
      List.map_singleton, List.getElem?_eq_getElem inside, actionId, Option.bind_some,
      List.getElem?_eq_getElem inside]
    rfl

/-! ### From the plan to the search -/

/-- A plan is what the search found. -/
theorem search_of_plan {goalIds : List CString} {plan : FleeceGoapPlan Cost}
    (returned : goap.plan start goalIds eval = some plan) :
    ∃ targets nodeIdx iters search, goap.resolveTargets goalIds = some targets ∧
      goap.search eval targets start = (.found nodeIdx iters, search) ∧
      goap.planTo search.nodes nodeIdx iters = some plan := by
  obtain ⟨targets, resolved, found⟩ := Option.bind_eq_some_iff.mp returned
  simp only [start.clone_eq, if_true] at found
  refine ⟨targets, ?_⟩
  split at found
  next nodeIdx iters search ended => exact ⟨nodeIdx, iters, search, resolved, ended, found⟩
  next => cases found

/-- The plan to a node of the search spells the route to it. -/
theorem planTo_spec {search : Search Cost} {nodeIdx iters : Nat} {plan : FleeceGoapPlan Cost}
    {node : SearchNode Cost} (invariant : goap.SearchInvariant eval targets start search)
    (held : search.nodes[nodeIdx]? = some node)
    (spelled : goap.planTo search.nodes nodeIdx iters = some plan) :
    ∃ route keys, goap.NodeAt eval targets start search nodeIdx node route keys ∧
      plan.actionIds.map some = route.map (fun a => (goap.actions[a]?).map GoapAction.id) ∧
      plan.actionIds.length = route.length ∧ plan.totalCost = node.g ∧ plan.iters = iters := by
  obtain ⟨route, keys, nodeAt⟩ := invariant.nodes nodeIdx node held
  have inside := (List.getElem?_eq_some_iff.mp held).1
  simp only [planTo, held, Option.map_some, nodeAt.chain.walk_eq inside, List.dropLast_concat,
    List.reverse_reverse] at spelled
  obtain rfl := Option.some.inj spelled
  refine ⟨route, keys, nodeAt, ?_, ?_, rfl, rfl⟩
  · rw [← map_actionId nodeAt.explores.reaches, List.map_map, List.map_map]
    rfl
  · rw [List.length_map, List.length_map]

/-- A returned plan can be replayed from the start blackboard: each action's preconditions hold
and its effects apply where the replay has come to, every target goal is met at the end, and the
plan has the cost of the replay, at most `max_plan_depth` actions and at most `max_iters`
iterations. -/
theorem plan_replays {goalIds : List CString} {plan : FleeceGoapPlan Cost}
    (returned : goap.plan start goalIds eval = some plan) :
    ∃ targets route bb, goap.resolveTargets goalIds = some targets ∧
      plan.actionIds.map some = route.map (fun a => (goap.actions[a]?).map GoapAction.id) ∧
      Reaches (goap.problem eval targets start) route bb plan.totalCost ∧
      (∀ target ∈ targets, eval.goalSatisfied target bb = (0, true)) ∧
      plan.actionIds.length ≤ goap.maxPlanDepth.toNat ∧ plan.iters ≤ goap.maxIters.toNat := by
  obtain ⟨targets, nodeIdx, iters, search, resolved, ended, spelled⟩ := search_of_plan returned
  have how := search_ended goap eval targets start
  rw [ended] at how
  cases how with
  | @found _ node _ _ invariant held goal least wentOn inTime =>
    obtain ⟨route, keys, nodeAt, ids, length, cost, counted⟩ := planTo_spec invariant held spelled
    refine ⟨targets, route, node.bb, resolved, ids, ?_, fun target => satisfied_of_goalsMet goal, ?_,
      counted ▸ inTime⟩
    · rw [cost]
      exact nodeAt.explores.reaches
    · rw [length, nodeAt.depth]
      exact nodeAt.capped

end FleeceGoap

/-! ### A map to plan on -/

/-- A road from one place to another. A place is the JSON digit in the field `at`. -/
structure Road where
  origin : UInt8
  target : UInt8
  cost : Int

/-- The field that says where the traveller is. -/
def placeName : CString := ⟨[0x61, 0x74], by decide⟩

/-- The blackboard of a traveller at a place. -/
def atPlace (place : UInt8) : FleeceGoapBlackboard where
  fields := [⟨⟨placeName, by decide⟩, ⟨[place], by rw [List.length_singleton]; decide⟩, false,
    Nat.one_ne_zero⟩]
  distinct := List.nodup_singleton _

/-- Taking a road leads to its target at its cost; every goal is to be at one place. -/
def roadEval (roads : List Road) (goal : UInt8) : FleeceGoapEval Int where
  actionPre := fun a bb => (0, decide ((bb.get placeName).map Blob.bytes =
    (roads[a]?).map fun road => [road.origin]))
  actionApply := fun a _ =>
    match roads[a]? with
    | some road => (0, atPlace road.target)
    | none => (-1, .empty)
  goalSatisfied := fun _ bb => (0, decide ((bb.get placeName).map Blob.bytes = some [goal]))
  actionCost := some fun a _ =>
    match roads[a]? with
    | some road => (0, road.cost)
    | none => (-1, 0)

/-- The id of a road is its two places. -/
def Road.id (road : Road) : FieldName where
  chars := [road.origin, road.target].filter fun place => place ≠ 0
  noNul := fun member => of_decide_eq_true (List.mem_filter.mp member).2 rfl
  lengthLt := (List.length_filter_le _ _).trans_lt (by decide : 2 < fieldNameMax)

/-- A table with one action for each road, each with a cost source, and one goal. -/
def roadGoap (roads : List Road) (maxPlanDepth : UInt32) : FleeceGoap where
  actions := roads.map fun road => ⟨road.id, ⟨⟨[0x63], by decide⟩, by decide⟩⟩
  goals := [⟨⟨⟨[0x67], by decide⟩, by decide⟩⟩]
  maxIters := 2048
  maxNodes := 512
  maxPlanDepth := maxPlanDepth

namespace FleeceGoap

/-- From 1 over 2 to 3 in two actions. -/
theorem plan_replays_roads :
    let roads : List Road := [⟨0x31, 0x32, 1⟩, ⟨0x32, 0x33, 2⟩]
    let plan : FleeceGoapPlan Int := ⟨roads.map Road.id, 3, 3⟩
    (roadGoap roads 8).plan (atPlace 0x31) [] (roadEval roads 0x33) = some plan ∧
      ∃ targets route bb, (roadGoap roads 8).resolveTargets [] = some targets ∧
        plan.actionIds.map some =
          route.map (fun a => ((roadGoap roads 8).actions[a]?).map GoapAction.id) ∧
        Reaches ((roadGoap roads 8).problem (roadEval roads 0x33) targets (atPlace 0x31)) route bb
          plan.totalCost ∧
        (∀ target ∈ targets, (roadEval roads 0x33).goalSatisfied target bb = (0, true)) ∧
        plan.actionIds.length ≤ (roadGoap roads 8).maxPlanDepth.toNat ∧
        plan.iters ≤ (roadGoap roads 8).maxIters.toNat := by
  intro roads plan
  have returned : (roadGoap roads 8).plan (atPlace 0x31) [] (roadEval roads 0x33) = some plan := by
    decide +kernel
  exact ⟨returned, plan_replays returned⟩

end FleeceGoap

end Fleece
