/-
This file models how `fleece_planner.c` scores the goals of its tables and picks
among them: the utility curves, `fleece_goap_goal_utility`,
`fleece_goap_select_goal` and `fleece_goap_rank_goals`.

A score is of any type that has the operators and comparisons of `double`; nothing
here uses a law of arithmetic, so a comparison may fail in both directions, as it
does with a NaN. How a stored number becomes a score and how a text is read as one
are parameters.
-/

import Fleece.Plan
import Fleece.Planner

namespace Fleece

/-- The scores that the tables and the blackboard give: `number` is the value of a stored `double`,
and `strtod` reads a text from its first byte to its last. -/
structure ScoreReader (Score : Type) where
  number : Binary64 → Score
  strtod : List UInt8 → Option Score

/-- A `FleeceGoap`: its tables and the limits of its searches. -/
structure GoapObject extends GoapTables where
  maxIters : UInt32
  maxNodes : UInt32
  maxPlanDepth : UInt32

/-- What the planner looks at of an action that fits its arrays. -/
def PlanAction.searched (a : PlanAction CString) (fits : a.Fits) : GoapAction :=
  ⟨⟨a.id, fits.id⟩, ⟨a.cost, fits.cost⟩⟩

/-- What the planner looks at of a goal that fits its arrays. -/
def PlanGoal.searched (g : PlanGoal CString) (fits : g.Fits) : GoapGoal := ⟨⟨g.id, fits.id⟩⟩

/-- What a search reads of the object. -/
def GoapObject.searched (goap : GoapObject) : FleeceGoap where
  actions := goap.actions.pmap PlanAction.searched goap.fits.actions
  goals := goap.goals.pmap PlanGoal.searched goap.fits.goals
  maxIters := goap.maxIters
  maxNodes := goap.maxNodes
  maxPlanDepth := goap.maxPlanDepth

/-! ### Scores -/

/-- A point of a curve, over the scores that it is read as. -/
structure CurvePoint (Score : Type) where
  x : Score
  y : Score

section Scores

variable {Score : Type} [Zero Score] [One Score] [Add Score] [Sub Score] [Mul Score] [Div Score]
  [BEq Score] [LT Score] [DecidableLT Score] [LE Score] [DecidableLE Score]

/-- The loop of `curve_score` over the segments. -/
def segmentScore : List (CurvePoint Score) → Score → Score
  | a :: b :: rest, v =>
    if v ≥ a.x ∧ v ≤ b.x then
      a.y + (b.y - a.y) * ((v - a.x) / (if b.x - a.x != 0 then b.x - a.x else 1))
    else segmentScore (b :: rest) v
  | _, _ => 0

/-- `curve_score`. -/
def curveScore (points : List (CurvePoint Score)) (v : Score) : Score :=
  match points.head?, points.getLast? with
  | some first, some last =>
    if v ≤ first.x then first.y else if v ≥ last.x then last.y else segmentScore points v
  | _, _ => 0

/-- The points of a curve. -/
def PlanUtility.curve (u : PlanUtility CString) (reader : ScoreReader Score) :
    List (CurvePoint Score) :=
  u.points.map fun point => ⟨reader.number point.x, reader.number point.y⟩

/-- `json_to_double`: the text ends at its first NUL. -/
def jsonToDouble (reader : ScoreReader Score) (data : Blob) : Option Score :=
  if data.size = 0 ∨ 64 ≤ data.size then none
  else reader.strtod (data.bytes.takeWhile (· ≠ 0))

namespace GoapTables

variable (tables : GoapTables) (reader : ScoreReader Score)

/-- The first curve with the id, unless the id is empty. -/
def findCurve (curveId : CString) : Option (PlanUtility CString) :=
  if curveId.chars = [] then none
  else tables.utilities.find? fun u => decide (u.id = curveId)

/-- The score of a curve on a blackboard. -/
def curveUtility (u : PlanUtility CString) (bb : FleeceGoapBlackboard) : Score :=
  match if u.dim.chars = [] then none else bb.get u.dim with
  | some data =>
    match jsonToDouble reader data with
    | some v => curveScore (u.curve reader) v
    | none => 0
  | none =>
    match (u.curve reader).head? with
    | some point => point.y
    | none => 1

/-- `fleece_goap_goal_utility`: the priority of the goal, times the score of its curve. -/
def goalUtility (goalIdx : Nat) (bb : FleeceGoapBlackboard) : Score :=
  match tables.goals[goalIdx]? with
  | none => 0
  | some g =>
    let score := match tables.findCurve g.curveId with
      | some u => curveUtility reader u bb
      | none => 1
    score * reader.number g.priority

/-! ### Goals -/

variable {Cost : Type} (eval : FleeceGoapEval Cost)

/-- The callback answered 0 and `false`. -/
def isUnsatisfied (bb : FleeceGoapBlackboard) (goal : Nat) : Bool :=
  decide ((eval.goalSatisfied goal bb).1 = 0) && !(eval.goalSatisfied goal bb).2

/-- One turn of the loop of `fleece_goap_select_goal`, with the best goal so far and its score. -/
def selectTurn (bb : FleeceGoapBlackboard) (best : Option Nat × Score) (goal : Nat) :
    Option Nat × Score :=
  if isUnsatisfied eval bb goal = true ∧ tables.goalUtility reader goal bb > best.2 then
    (some goal, tables.goalUtility reader goal bb)
  else best

/-- `fleece_goap_select_goal`: the first goal of the greatest utility above the threshold. -/
def selectGoal (bb : FleeceGoapBlackboard) (threshold : Score) : Option Nat :=
  ((List.range tables.goals.length).foldl (tables.selectTurn reader eval bb) (none, threshold)).1

/-- The goals that are not satisfied and whose utility is not at or below the threshold. -/
def isRanked (bb : FleeceGoapBlackboard) (threshold : Score) (goal : Nat) : Bool :=
  isUnsatisfied eval bb goal && !decide (tables.goalUtility reader goal bb ≤ threshold)

/-- `fleece_goap_rank_goals`: the first goals that fit in the array, sorted by insertion. -/
def rankGoals (bb : FleeceGoapBlackboard) (threshold : Score) (cap : Nat) : List Nat :=
  InsertionSort.sort
    (fun first second =>
      decide (tables.goalUtility reader first bb < tables.goalUtility reader second bb))
    (((List.range tables.goals.length).filter (tables.isRanked reader eval bb threshold)).take cap)

theorem mem_rankGoals {bb : FleeceGoapBlackboard} {threshold : Score} {goal : Nat}
    (member : goal ∈ tables.rankGoals reader eval bb threshold tables.goals.length) :
    goal < tables.goals.length ∧ eval.goalSatisfied goal bb = (0, false) ∧
      ¬ tables.goalUtility reader goal bb ≤ threshold := by
  have taken := List.mem_of_mem_take (InsertionSort.mem_sort.mp member)
  obtain ⟨inRange, ranked⟩ := List.mem_filter.mp taken
  obtain ⟨unsatisfied, above⟩ := Bool.and_eq_true_iff.mp ranked
  obtain ⟨code, unmet⟩ := Bool.and_eq_true_iff.mp unsatisfied
  rw [Bool.not_eq_true'] at unmet above
  exact ⟨List.mem_range.mp inRange, Prod.ext (of_decide_eq_true code) unmet,
    of_decide_eq_false above⟩

end GoapTables

end Scores

/-- Scores that are whole numbers, with no text read as one. -/
def wholeReader : ScoreReader Int where
  number := fun v => if v.isNegative then -v.trunc else v.trunc
  strtod := fun _ => none

end Fleece
