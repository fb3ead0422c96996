/-
This file models `fleece_goap_plan`, the A* search of `fleece_planner.c`, with what
it calls: the set of state keys it has seen, the open list, the heuristic, the cost
of an action and the walk back along the parents.

The callbacks of the host are functions of the action or goal and the blackboard;
each returns its code beside what it writes. Costs are exact: the type of costs is
any linearly ordered ring in place of `double`. Allocation is taken to succeed and
pointers are taken to be non-NULL, up to `action_cost`, which the host may leave
out. An index `UINT32_MAX` is `none`; that no node ever has this index is
`SearchInvariant.length_lt` in `Fleece/Search.lean`.

The source closes a state when it is first generated, before it looks at the depth
cap, and by its key alone. A state that is first generated past the cap is closed
all the same and no node is kept for it.
-/

import Fleece.Blackboard
import Fleece.Heap
import Fleece.Probing
import Fleece.Routes

namespace Fleece

/-! ### Tables and callbacks -/

/-- The contents of a `char[FLEECE_GOAP_SOURCE_MAX]` up to its terminator. -/
structure GoapSource extends CString where
  lengthLt : chars.length < 2048
  deriving DecidableEq

/-- The part of a `GoapAction` that the search reads. -/
structure GoapAction where
  id : FieldName
  cost : GoapSource
  deriving DecidableEq

/-- The part of a `GoapGoal` that the search reads. -/
structure GoapGoal where
  id : FieldName
  deriving DecidableEq

/-- The part of a `FleeceGoap` that the search reads: actions, goals and budgets. -/
structure FleeceGoap where
  actions : List GoapAction
  goals : List GoapGoal
  maxIters : UInt32
  maxNodes : UInt32
  maxPlanDepth : UInt32
  deriving DecidableEq

/-- `FleeceGoapEval`, with its callbacks as functions of the index and the blackboard. -/
structure FleeceGoapEval (Cost : Type) where
  actionPre : Nat → FleeceGoapBlackboard → Int × Bool
  actionApply : Nat → FleeceGoapBlackboard → Int × FleeceGoapBlackboard
  goalSatisfied : Nat → FleeceGoapBlackboard → Int × Bool
  actionCost : Option (Nat → FleeceGoapBlackboard → Int × Cost)

/-- `FleeceGoapPlan`. -/
structure FleeceGoapPlan (Cost : Type) where
  actionIds : List FieldName
  totalCost : Cost
  iters : Nat
  deriving DecidableEq

/-! ### The visited set -/

/-- `fnv1a64`. -/
def fnv1a64 (data : List UInt8) : UInt64 :=
  data.foldl (fun h byte => (h ^^^ byte.toUInt64) * 1099511628211) 1469598103934665603

/-- `VisitedEntry`: the hash of a state key, and the key. -/
structure VisitedEntry where
  hash : UInt64
  key : List UInt8
  deriving DecidableEq

/-- `VisitedSet`: a slot that is not `used` is `none`. -/
structure VisitedSet where
  slots : Nat → Option VisitedEntry
  cap : Nat

namespace VisitedSet

/-- `visited_init`: the capacity is computed in 32 bits. -/
def init (maxNodes : UInt32) : VisitedSet where
  slots := fun _ => none
  cap := (maxNodes * 2 + 1).toNat

/-- The slot of a probe; the sum of slot and probe wraps at 32 bits before the remainder. -/
def path (cap : Nat) (entry : VisitedEntry) (probe : Nat) : Nat :=
  (entry.hash.toNat % cap + probe) % 2 ^ 32 % cap

/-- The entry that a key is stored as. -/
def entryFor (key : List UInt8) : VisitedEntry := ⟨fnv1a64 key, key⟩

/-- `visited_add`. -/
def add (set : VisitedSet) (key : List UInt8) : VisitedSet × Bool :=
  let result := Probing.add (path set.cap) set.cap set.slots (entryFor key)
  ({ set with slots := result.1 }, result.2)

end VisitedSet

/-! ### Nodes and open list -/

variable {Cost : Type}

/-- `SearchNode`: a state, how it was come to, its depth and its cost. -/
structure SearchNode (Cost : Type) where
  bb : FleeceGoapBlackboard
  parent : Option Nat
  actionIdx : Option Nat
  depth : Nat
  g : Cost
  f : Cost
  deriving DecidableEq

/-- `HeapEntry`: a node by its index, with its estimated cost. -/
structure HeapEntry (Cost : Type) where
  f : Cost
  idx : Nat
  deriving DecidableEq

/-- What `fleece_goap_plan` keeps between two rounds of its loop. -/
structure Search (Cost : Type) where
  nodes : List (SearchNode Cost)
  heap : List (HeapEntry Cost)
  visited : VisitedSet

/-- Why the loop ends: a node that meets the goals was popped, the heap became empty, or a budget
was spent. -/
inductive SearchEnd where
  | found (nodeIdx iters : Nat)
  | emptied
  | spent
  deriving DecidableEq

/-- `heap_push`. -/
def heapPush [LinearOrder Cost] (heap : List (HeapEntry Cost)) (idx : Nat) (f : Cost) :
    List (HeapEntry Cost) :=
  Heap.push HeapEntry.f heap ⟨f, idx⟩

/-- `heap_pop`. -/
def heapPop [LinearOrder Cost] (heap : List (HeapEntry Cost)) :
    Option (HeapEntry Cost × List (HeapEntry Cost)) :=
  Heap.pop HeapEntry.f heap

/-- The action indices that the walk from a node to the root collects. -/
def walk (nodes : List (SearchNode Cost)) : Nat → Option Nat → List (Option Nat)
  | 0, _ => []
  | _ + 1, none => []
  | steps + 1, some cur =>
    match nodes[cur]? with
    | none => []
    | some node => node.actionIdx :: walk nodes steps node.parent

namespace FleeceGoap

/-! ### Goals and costs -/

/-- `fleece_goap_find_goal`: the first goal with the id. -/
def findGoal (goap : FleeceGoap) (id : CString) : Option Nat :=
  goap.goals.findIdx? fun goal => decide (goal.id.toCString = id)

/-- The targets of a search: the goals with these ids, or all goals when no id is given. -/
def resolveTargets (goap : FleeceGoap) (goalIds : List CString) : Option (List Nat) :=
  if goalIds.isEmpty then some (List.range goap.goals.length) else goalIds.mapM goap.findGoal

/-- The callback answered 0 and `true`. -/
def isSatisfied (eval : FleeceGoapEval Cost) (bb : FleeceGoapBlackboard) (target : Nat) : Bool :=
  decide ((eval.goalSatisfied target bb).1 = 0) && (eval.goalSatisfied target bb).2

/-- `goals_met`. -/
def goalsMet (eval : FleeceGoapEval Cost) (targets : List Nat) (bb : FleeceGoapBlackboard) : Bool :=
  targets.all (isSatisfied eval bb)

/-- `count_unsatisfied`, the heuristic of the search. -/
def countUnsatisfied (eval : FleeceGoapEval Cost) (targets : List Nat)
    (bb : FleeceGoapBlackboard) : Nat :=
  targets.countP fun target => !isSatisfied eval bb target

/-- The action's preconditions hold and its effects were applied. -/
def successor (goap : FleeceGoap) (eval : FleeceGoapEval Cost) (a : Nat)
    (bb : FleeceGoapBlackboard) : Option FleeceGoapBlackboard :=
  if a < goap.actions.length then
    if (eval.actionPre a bb).1 = 0 ∧ (eval.actionPre a bb).2 = true then
      if (eval.actionApply a bb).1 = 0 then some (eval.actionApply a bb).2 else none
    else none
  else none

variable [Ring Cost] [LinearOrder Cost]

/-- An action without a cost source costs one, and so does one whose callback fails or answers a
negative cost. -/
def actionCostFor (goap : FleeceGoap) (eval : FleeceGoapEval Cost) (a : Nat)
    (bb : FleeceGoapBlackboard) : Cost :=
  if ((goap.actions[a]?).map fun action => action.cost.chars.isEmpty) = some true then 1
  else
    match eval.actionCost with
    | some cost => if (cost a bb).1 = 0 ∧ ¬ (cost a bb).2 < 0 then (cost a bb).2 else 1
    | none => 1

/-! ### The search -/

/-- The node that an action at the node with the index `nodeIdx` leads to. -/
def nextNode (goap : FleeceGoap) (eval : FleeceGoapEval Cost) (targets : List Nat) (nodeIdx : Nat)
    (node : SearchNode Cost) (a : Nat) (dst : FleeceGoapBlackboard) : SearchNode Cost where
  bb := dst
  parent := some nodeIdx
  actionIdx := some a
  depth := node.depth + 1
  g := node.g + goap.actionCostFor eval a node.bb
  f := node.g + goap.actionCostFor eval a node.bb + countUnsatisfied eval targets dst

/-- The body of the loop over the actions at the node with the index `nodeIdx`. -/
def tryAction (goap : FleeceGoap) (eval : FleeceGoapEval Cost) (targets : List Nat) (nodeIdx : Nat)
    (search : Search Cost) (a : Nat) : Search Cost :=
  match search.nodes[nodeIdx]? with
  | none => search
  | some node =>
    match goap.successor eval a node.bb with
    | none => search
    | some dst =>
      let added := search.visited.add dst.makeStateKey
      if added.2 = false then search
      else
        let next := goap.nextNode eval targets nodeIdx node a dst
        if next.depth > goap.maxPlanDepth.toNat then { search with visited := added.1 }
        else
          { nodes := search.nodes ++ [next]
            heap := heapPush search.heap search.nodes.length next.f
            visited := added.1 }

/-- The loop over the actions for a node that was popped. -/
def expand (goap : FleeceGoap) (eval : FleeceGoapEval Cost) (targets : List Nat)
    (search : Search Cost) (nodeIdx : Nat) : Search Cost :=
  (List.range goap.actions.length).foldl (goap.tryAction eval targets nodeIdx) search

/-- The A* loop, with the iterations that are left of the budget. -/
def searchLoop (goap : FleeceGoap) (eval : FleeceGoapEval Cost) (targets : List Nat) :
    Nat → Nat → Search Cost → SearchEnd × Search Cost
  | 0, _, search => (.spent, search)
  | left + 1, iters, search =>
    if search.nodes.length ≤ goap.maxNodes.toNat then
      match heapPop search.heap with
      | none => (.emptied, search)
      | some (entry, heap) =>
        let popped := { search with heap := heap }
        if (search.nodes[entry.idx]?).any (fun node => goalsMet eval targets node.bb) then
          (.found entry.idx (iters + 1), popped)
        else searchLoop goap eval targets left (iters + 1) (goap.expand eval targets popped entry.idx)
    else (.spent, search)

/-- The root node, closed and opened. -/
def searchStart (goap : FleeceGoap) (eval : FleeceGoapEval Cost) (targets : List Nat)
    (bb : FleeceGoapBlackboard) : Search Cost :=
  let root : SearchNode Cost :=
    { bb := bb
      parent := none
      actionIdx := none
      depth := 0
      g := 0
      f := countUnsatisfied eval targets bb }
  { nodes := [root]
    heap := heapPush [] 0 root.f
    visited := ((VisitedSet.init goap.maxNodes).add bb.makeStateKey).1 }

/-- The search of `fleece_goap_plan`: how it ends, and what it leaves. -/
def search (goap : FleeceGoap) (eval : FleeceGoapEval Cost) (targets : List Nat)
    (bb : FleeceGoapBlackboard) : SearchEnd × Search Cost :=
  goap.searchLoop eval targets goap.maxIters.toNat 0 (goap.searchStart eval targets bb)

/-! ### The plan -/

/-- The id that a plan reports of an action. -/
def actionId (goap : FleeceGoap) (actionIdx : Option Nat) : FieldName :=
  ((actionIdx.bind fun a => goap.actions[a]?).map GoapAction.id).getD .empty

/-- The plan that the walk from a goal node spells: the root's entry is left out and the rest is
turned around. -/
def planTo (goap : FleeceGoap) (nodes : List (SearchNode Cost)) (nodeIdx iters : Nat) :
    Option (FleeceGoapPlan Cost) :=
  (nodes[nodeIdx]?).map fun node =>
    let rev := walk nodes nodes.length (some nodeIdx)
    { actionIds := rev.dropLast.reverse.map goap.actionId
      totalCost := node.g
      iters := iters }

/-- `fleece_goap_plan`. -/
def plan (goap : FleeceGoap) (start : FleeceGoapBlackboard) (goalIds : List CString)
    (eval : FleeceGoapEval Cost) : Option (FleeceGoapPlan Cost) :=
  (goap.resolveTargets goalIds).bind fun targets =>
    let root := start.clone
    if root.2 = 0 then
      match goap.search eval targets root.1 with
      | (.found nodeIdx iters, search) => goap.planTo search.nodes nodeIdx iters
      | _ => none
    else none

end FleeceGoap

end Fleece
