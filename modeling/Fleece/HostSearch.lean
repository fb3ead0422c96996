/-
This file models `fleece_goap_plan` for a host whose callbacks keep a state of their
own, so that one question may be answered in two ways. The set of state keys is a
parameter: the search hands it every key it comes to and goes on with a state if
the set says that its key is new. With `visited_add` for the set and a host that
keeps no state this is the search of `Fleece/Planner.lean`.

Two sets that give the same answers lead to the same search. So two searches agree
from end to end, or there is a first answer in which their sets differ.
-/

import Fleece.Search

namespace Fleece

variable {Cost Host Seen Other : Type}

/-- `FleeceGoapEval` with its `user_data`: what a callback answers, and the state of the host
after it. -/
structure HostEval (Cost Host : Type) where
  actionPre : Nat → FleeceGoapBlackboard → Host → (Int × Bool) × Host
  actionApply : Nat → FleeceGoapBlackboard → Host → (Int × FleeceGoapBlackboard) × Host
  goalSatisfied : Nat → FleeceGoapBlackboard → Host → (Int × Bool) × Host
  actionCost : Option (Nat → FleeceGoapBlackboard → Host → (Int × Cost) × Host)

/-- Callbacks of a host that keeps no state. -/
def FleeceGoapEval.stateless (eval : FleeceGoapEval Cost) : HostEval Cost Unit where
  actionPre := fun a bb _ => (eval.actionPre a bb, ())
  actionApply := fun a bb _ => (eval.actionApply a bb, ())
  goalSatisfied := fun target bb _ => (eval.goalSatisfied target bb, ())
  actionCost := eval.actionCost.map fun cost a bb _ => (cost a bb, ())

/-- What `fleece_goap_plan` keeps between two rounds of its loop, and the state of the host. -/
structure HostSearch (Cost Host Seen : Type) where
  nodes : List (SearchNode Cost)
  heap : List (HeapEntry Cost)
  seen : Seen
  host : Host

/-- The search of a host that keeps no state. -/
def Search.hosted (search : Search Cost) : HostSearch Cost Unit VisitedSet :=
  ⟨search.nodes, search.heap, search.visited, ()⟩

namespace HostEval

variable (eval : HostEval Cost Host)

/-- `goals_met`: the first target that is not satisfied ends the loop. -/
def goalsMet (bb : FleeceGoapBlackboard) : List Nat → Host → Bool × Host
  | [], host => (true, host)
  | target :: rest, host =>
    let answer := eval.goalSatisfied target bb host
    if answer.1.1 = 0 ∧ answer.1.2 = true then goalsMet bb rest answer.2 else (false, answer.2)

/-- The goal test of the node with an index. -/
def metAt (targets : List Nat) (nodes : List (SearchNode Cost)) (nodeIdx : Nat) (host : Host) :
    Bool × Host :=
  match nodes[nodeIdx]? with
  | none => (false, host)
  | some node => eval.goalsMet node.bb targets host

/-- `count_unsatisfied`, which asks the host for every target. -/
def countUnsatisfied (bb : FleeceGoapBlackboard) : List Nat → Host → Nat × Host
  | [], host => (0, host)
  | target :: rest, host =>
    let answer := eval.goalSatisfied target bb host
    let later := countUnsatisfied bb rest answer.2
    if answer.1.1 = 0 ∧ answer.1.2 = true then later else (later.1 + 1, later.2)

end HostEval

/-- A key that is refused leaves the table as it is. -/
theorem VisitedSet.add_refused {set : VisitedSet} {key : List UInt8}
    (refused : (set.add key).2 = false) : (set.add key).1 = set := by
  have same := Probing.addFrom_refused refused
  show { set with slots := _ } = set
  exact congrArg (fun slots => { set with slots := slots }) same

namespace FleeceGoap

variable [Ring Cost] [LinearOrder Cost]

section Definitions

variable (goap : FleeceGoap) (eval : HostEval Cost Host) (add : Seen → List UInt8 → Seen × Bool)
  (targets : List Nat)

/-- `action_cost_for`: 1 without a source or a callback. -/
def hostCostFor (a : Nat) (bb : FleeceGoapBlackboard) (host : Host) : Cost × Host :=
  if ((goap.actions[a]?).map fun action => action.cost.chars.isEmpty) = some true then (1, host)
  else
    match eval.actionCost with
    | some cost =>
      let answer := cost a bb host
      (if answer.1.1 = 0 ∧ ¬ answer.1.2 < 0 then answer.1.2 else 1, answer.2)
    | none => (1, host)

/-- What the loop over the actions does with a successor, after the set has answered. -/
def hostTake (nodeIdx : Nat) (search : HostSearch Cost Host Seen) (node : SearchNode Cost) (a : Nat)
    (cost : Cost) (dst : FleeceGoapBlackboard) (host : Host) (added : Seen × Bool) :
    HostSearch Cost Host Seen :=
  if added.2 = false then { search with seen := added.1, host := host }
  else
    let unsatisfied := eval.countUnsatisfied dst targets host
    let next : SearchNode Cost :=
      { bb := dst
        parent := some nodeIdx
        actionIdx := some a
        depth := node.depth + 1
        g := node.g + cost
        f := node.g + cost + unsatisfied.1 }
    if next.depth > goap.maxPlanDepth.toNat then
      { search with seen := added.1, host := unsatisfied.2 }
    else
      { nodes := search.nodes ++ [next]
        heap := heapPush search.heap search.nodes.length next.f
        seen := added.1
        host := unsatisfied.2 }

/-- The body of the loop over the actions at the node with the index `nodeIdx`. -/
def hostTryAction (nodeIdx : Nat) (search : HostSearch Cost Host Seen) (a : Nat) :
    HostSearch Cost Host Seen :=
  match search.nodes[nodeIdx]? with
  | none => search
  | some node =>
    let pre := eval.actionPre a node.bb search.host
    if pre.1.1 = 0 ∧ pre.1.2 = true then
      let cost := goap.hostCostFor eval a node.bb pre.2
      let applied := eval.actionApply a node.bb cost.2
      if applied.1.1 = 0 then
        goap.hostTake eval targets nodeIdx search node a cost.1 applied.1.2 applied.2
          (add search.seen applied.1.2.makeStateKey)
      else { search with host := applied.2 }
    else { search with host := pre.2 }

/-- The loop over the actions for a node that was popped. -/
def hostExpand (search : HostSearch Cost Host Seen) (nodeIdx : Nat) : HostSearch Cost Host Seen :=
  (List.range goap.actions.length).foldl (goap.hostTryAction eval add targets nodeIdx) search

/-- The A* loop, with the iterations that are left of the budget. -/
def hostSearchLoop : Nat → Nat → HostSearch Cost Host Seen →
    SearchEnd × HostSearch Cost Host Seen
  | 0, _, search => (.spent, search)
  | left + 1, iters, search =>
    if search.nodes.length ≤ goap.maxNodes.toNat then
      match heapPop search.heap with
      | none => (.emptied, search)
      | some (entry, heap) =>
        let met := eval.metAt targets search.nodes entry.idx search.host
        let popped := { search with heap := heap, host := met.2 }
        if met.1 = true then (.found entry.idx (iters + 1), popped)
        else hostSearchLoop left (iters + 1) (goap.hostExpand eval add targets popped entry.idx)
    else (.spent, search)

/-- The root node, opened, with its key handed to the set. -/
def hostSearchStart (seen : Seen) (bb : FleeceGoapBlackboard) (host : Host) :
    HostSearch Cost Host Seen :=
  let unsatisfied := eval.countUnsatisfied bb targets host
  let root : SearchNode Cost :=
    { bb := bb
      parent := none
      actionIdx := none
      depth := 0
      g := 0
      f := unsatisfied.1 }
  { nodes := [root]
    heap := heapPush [] 0 root.f
    seen := (add seen bb.makeStateKey).1
    host := unsatisfied.2 }

/-- The search of `fleece_goap_plan` with a host that may change at every call. -/
def hostSearch (seen : Seen) (bb : FleeceGoapBlackboard) (host : Host) :
    SearchEnd × HostSearch Cost Host Seen :=
  goap.hostSearchLoop eval add targets goap.maxIters.toNat 0
    (hostSearchStart eval add targets seen bb host)

end Definitions

/-! ### What the set keeps -/

section Keeps

variable {goap : FleeceGoap} {eval : HostEval Cost Host} {add : Seen → List UInt8 → Seen × Bool}
  {targets : List Nat} {Property : Seen → Prop}
  (keeps : ∀ seen key, Property seen → Property (add seen key).1)
include keeps

omit keeps in
@[simp] theorem seen_hostTake (nodeIdx : Nat) (search : HostSearch Cost Host Seen)
    (node : SearchNode Cost) (a : Nat) (cost : Cost) (dst : FleeceGoapBlackboard) (host : Host)
    (added : Seen × Bool) :
    (goap.hostTake eval targets nodeIdx search node a cost dst host added).seen = added.1 := by
  unfold hostTake
  simp only
  split_ifs <;> rfl

theorem hostTryAction_keeps {nodeIdx : Nat} {search : HostSearch Cost Host Seen}
    (holds : Property search.seen) (a : Nat) :
    Property (goap.hostTryAction eval add targets nodeIdx search a).seen := by
  unfold hostTryAction
  split
  next => exact holds
  next node held =>
    simp only
    split_ifs
    · rw [seen_hostTake]
      exact keeps _ _ holds
    · exact holds
    · exact holds

theorem hostExpand_keeps {search : HostSearch Cost Host Seen} (holds : Property search.seen)
    (nodeIdx : Nat) : Property (goap.hostExpand eval add targets search nodeIdx).seen := by
  unfold hostExpand
  generalize List.range goap.actions.length = actions
  induction actions generalizing search with
  | nil => exact holds
  | cons a rest inductionHypothesis => exact inductionHypothesis (hostTryAction_keeps keeps holds a)

theorem hostSearchLoop_keeps {left iters : Nat} {search : HostSearch Cost Host Seen}
    (holds : Property search.seen) :
    Property (goap.hostSearchLoop eval add targets left iters search).2.seen := by
  induction left generalizing iters search with
  | zero => exact holds
  | succ left inductionHypothesis =>
    unfold hostSearchLoop
    split_ifs
    · split
      next => exact holds
      next entry heap popped =>
        simp only
        split_ifs
        · exact holds
        · refine inductionHypothesis (hostExpand_keeps keeps ?_ entry.idx)
          exact holds
    · exact holds

/-- Whatever an addition keeps holds of the set in the end. -/
theorem hostSearch_keeps {seen : Seen} (holds : Property seen) (bb : FleeceGoapBlackboard)
    (host : Host) : Property (goap.hostSearch eval add targets seen bb host).2.seen :=
  hostSearchLoop_keeps keeps (keeps _ _ holds)

end Keeps

/-! ### Two sets -/

/-- Two sets that match go on to match, or at the same key both are lost for good. -/
structure Agree (add : Seen → List UInt8 → Seen × Bool)
    (addOther : Other → List UInt8 → Other × Bool) (Match : Seen → Other → Prop)
    (Lost : Seen → Prop) (LostOther : Other → Prop) : Prop where
  step : ∀ seen other key, Match seen other →
    ((add seen key).2 = (addOther other key).2 ∧
      Match (add seen key).1 (addOther other key).1) ∨
    (Lost (add seen key).1 ∧ LostOther (addOther other key).1)
  lost : ∀ seen key, Lost seen → Lost (add seen key).1
  lostOther : ∀ other key, LostOther other → LostOther (addOther other key).1

/-- Two searches are at the same point, or both sets are lost. -/
def Together (Match : Seen → Other → Prop) (Lost : Seen → Prop) (LostOther : Other → Prop)
    (first : HostSearch Cost Host Seen) (second : HostSearch Cost Host Other) : Prop :=
  (first.nodes = second.nodes ∧ first.heap = second.heap ∧ first.host = second.host ∧
    Match first.seen second.seen) ∨ (Lost first.seen ∧ LostOther second.seen)

section Agree

variable {goap : FleeceGoap} {eval : HostEval Cost Host} {add : Seen → List UInt8 → Seen × Bool}
  {addOther : Other → List UInt8 → Other × Bool} {targets : List Nat}
  {Match : Seen → Other → Prop} {Lost : Seen → Prop} {LostOther : Other → Prop}
  (agree : Agree add addOther Match Lost LostOther)
include agree

omit agree in
/-- The same answer leads to the same point. -/
theorem hostTake_together {first : HostSearch Cost Host Seen} {second : HostSearch Cost Host Other}
    (nodes : first.nodes = second.nodes) (heap : first.heap = second.heap) (nodeIdx : Nat)
    (node : SearchNode Cost) (a : Nat) (cost : Cost) (dst : FleeceGoapBlackboard) (host : Host)
    {added : Seen × Bool} {addedOther : Other × Bool} (answer : added.2 = addedOther.2)
    (isMatch : Match added.1 addedOther.1) :
    Together Match Lost LostOther
      (goap.hostTake eval targets nodeIdx first node a cost dst host added)
      (goap.hostTake eval targets nodeIdx second node a cost dst host addedOther) := by
  unfold hostTake
  rw [answer, nodes, heap]
  simp only
  split_ifs
  · exact .inl ⟨rfl, rfl, rfl, isMatch⟩
  · exact .inl ⟨rfl, rfl, rfl, isMatch⟩
  · exact .inl ⟨rfl, rfl, rfl, isMatch⟩

theorem hostTryAction_together {first : HostSearch Cost Host Seen}
    {second : HostSearch Cost Host Other} (together : Together Match Lost LostOther first second)
    (nodeIdx a : Nat) :
    Together Match Lost LostOther (goap.hostTryAction eval add targets nodeIdx first a)
      (goap.hostTryAction eval addOther targets nodeIdx second a) := by
  rcases together with ⟨nodes, heap, host, isMatch⟩ | ⟨lost, lostOther⟩
  · unfold hostTryAction
    rw [nodes, host]
    cases held : second.nodes[nodeIdx]? with
    | none => exact .inl ⟨nodes, heap, host, isMatch⟩
    | some node =>
      simp only
      split_ifs
      · rcases agree.step _ _ _ isMatch with ⟨answer, next⟩ | ⟨lost, lostOther⟩
        · exact hostTake_together nodes heap nodeIdx node a _ _ _ answer next
        · refine .inr ⟨?_, ?_⟩
          · rw [seen_hostTake]
            exact lost
          · rw [seen_hostTake]
            exact lostOther
      · exact .inl ⟨rfl, heap, rfl, isMatch⟩
      · exact .inl ⟨rfl, heap, rfl, isMatch⟩
  · exact .inr ⟨hostTryAction_keeps agree.lost lost a,
      hostTryAction_keeps agree.lostOther lostOther a⟩

theorem hostExpand_together {first : HostSearch Cost Host Seen}
    {second : HostSearch Cost Host Other} (together : Together Match Lost LostOther first second)
    (nodeIdx : Nat) :
    Together Match Lost LostOther (goap.hostExpand eval add targets first nodeIdx)
      (goap.hostExpand eval addOther targets second nodeIdx) := by
  unfold hostExpand
  generalize List.range goap.actions.length = actions
  induction actions generalizing first second with
  | nil => exact together
  | cons a rest inductionHypothesis =>
    exact inductionHypothesis (hostTryAction_together agree together nodeIdx a)

theorem hostSearchLoop_together {left iters : Nat} {first : HostSearch Cost Host Seen}
    {second : HostSearch Cost Host Other}
    (together : Together Match Lost LostOther first second) :
    Together Match Lost LostOther (goap.hostSearchLoop eval add targets left iters first).2
      (goap.hostSearchLoop eval addOther targets left iters second).2 := by
  induction left generalizing iters first second with
  | zero => exact together
  | succ left inductionHypothesis =>
    rcases together with ⟨nodes, heap, host, isMatch⟩ | ⟨lost, lostOther⟩
    · unfold hostSearchLoop
      rw [nodes, heap, host]
      split_ifs
      · cases heapPop second.heap with
        | none => exact .inl ⟨nodes, heap, host, isMatch⟩
        | some popped =>
          simp only
          split_ifs
          · exact .inl ⟨rfl, rfl, rfl, isMatch⟩
          · refine inductionHypothesis (hostExpand_together agree (.inl ?_) popped.1.idx)
            exact ⟨rfl, rfl, rfl, isMatch⟩
      · exact .inl ⟨nodes, heap, host, isMatch⟩
    · exact .inr ⟨hostSearchLoop_keeps agree.lost lost,
        hostSearchLoop_keeps agree.lostOther lostOther⟩

/-- Two searches end at the same point, or both sets were lost on the way. -/
theorem hostSearch_together {seen : Seen} {other : Other} (isMatch : Match seen other)
    (bb : FleeceGoapBlackboard) (host : Host) :
    Together Match Lost LostOther (goap.hostSearch eval add targets seen bb host).2
      (goap.hostSearch eval addOther targets other bb host).2 := by
  refine hostSearchLoop_together agree ?_
  rcases agree.step _ _ bb.makeStateKey isMatch with ⟨_, next⟩ | lost
  · exact .inl ⟨rfl, rfl, rfl, next⟩
  · exact .inr lost

end Agree

/-! ### A host that keeps no state -/

section Stateless

variable {goap : FleeceGoap} {eval : FleeceGoapEval Cost} {targets : List Nat}

omit [Ring Cost] [LinearOrder Cost] in
theorem satisfied_stateless {bb : FleeceGoapBlackboard} {target : Nat} :
    ((eval.stateless.goalSatisfied target bb ()).1.1 = 0 ∧
      (eval.stateless.goalSatisfied target bb ()).1.2 = true) ↔
      isSatisfied eval bb target = true := by
  rw [isSatisfied, Bool.and_eq_true, decide_eq_true_iff]
  rfl

omit [Ring Cost] [LinearOrder Cost] in
theorem goalsMet_stateless (bb : FleeceGoapBlackboard) (targets : List Nat) :
    eval.stateless.goalsMet bb targets () = (goalsMet eval targets bb, ()) := by
  induction targets with
  | nil => rfl
  | cons target rest inductionHypothesis =>
    unfold HostEval.goalsMet
    rw [goalsMet, List.all_cons]
    cases met : isSatisfied eval bb target with
    | true => exact (if_pos (satisfied_stateless.mpr met)).trans inductionHypothesis
    | false => exact if_neg (satisfied_stateless.not.mpr (by rw [met]; exact Bool.false_ne_true))

omit [Ring Cost] [LinearOrder Cost] in
theorem metAt_stateless (nodes : List (SearchNode Cost)) (nodeIdx : Nat) (host : Unit) :
    eval.stateless.metAt targets nodes nodeIdx host =
      ((nodes[nodeIdx]?).any (fun node => goalsMet eval targets node.bb), ()) := by
  unfold HostEval.metAt
  cases nodes[nodeIdx]? with
  | none => rfl
  | some node => exact goalsMet_stateless node.bb targets

omit [Ring Cost] [LinearOrder Cost] in
theorem countUnsatisfied_stateless (bb : FleeceGoapBlackboard) (targets : List Nat) :
    eval.stateless.countUnsatisfied bb targets () = (countUnsatisfied eval targets bb, ()) := by
  induction targets with
  | nil => rfl
  | cons target rest inductionHypothesis =>
    unfold HostEval.countUnsatisfied
    rw [countUnsatisfied, List.countP_cons]
    cases met : isSatisfied eval bb target with
    | true => exact (if_pos (satisfied_stateless.mpr met)).trans inductionHypothesis
    | false =>
      refine (if_neg (satisfied_stateless.not.mpr (by rw [met]; exact Bool.false_ne_true))).trans ?_
      exact congrArg (fun later : Nat × Unit => (later.1 + 1, later.2)) inductionHypothesis

theorem hostCostFor_stateless (a : Nat) (bb : FleeceGoapBlackboard) :
    goap.hostCostFor eval.stateless a bb () = (goap.actionCostFor eval a bb, ()) := by
  unfold hostCostFor actionCostFor
  split_ifs
  · rfl
  · unfold FleeceGoapEval.stateless
    cases eval.actionCost <;> rfl

theorem hostTake_stateless (nodeIdx : Nat) (search : Search Cost) (node : SearchNode Cost) (a : Nat)
    {dst : FleeceGoapBlackboard} (held : search.nodes[nodeIdx]? = some node)
    (generated : goap.successor eval a node.bb = some dst) :
    goap.hostTake eval.stateless targets nodeIdx search.hosted node a
        (goap.actionCostFor eval a node.bb) dst () (search.visited.add dst.makeStateKey) =
      (goap.tryAction eval targets nodeIdx search a).hosted := by
  have depth : (goap.nextNode eval targets nodeIdx node a dst).depth = node.depth + 1 := rfl
  simp only [hostTake, tryAction, held, generated, countUnsatisfied_stateless, depth]
  split_ifs with refused deep
  · rw [VisitedSet.add_refused refused]
    rfl
  · rfl
  · rfl

/-- An action tried by either model leads to the same point. -/
theorem hostTryAction_stateless (nodeIdx : Nat) (search : Search Cost) {a : Nat}
    (inside : a < goap.actions.length) :
    goap.hostTryAction eval.stateless VisitedSet.add targets nodeIdx search.hosted a =
      (goap.tryAction eval targets nodeIdx search a).hosted := by
  cases held : search.nodes[nodeIdx]? with
  | none => simp only [hostTryAction, tryAction, Search.hosted, held]
  | some node =>
    unfold hostTryAction
    rw [show search.hosted.nodes = search.nodes from rfl, held]
    simp only
    have pre : ((eval.stateless.actionPre a node.bb search.hosted.host).1.1 = 0 ∧
        (eval.stateless.actionPre a node.bb search.hosted.host).1.2 = true) ↔
        (eval.actionPre a node.bb).1 = 0 ∧ (eval.actionPre a node.bb).2 = true := Iff.rfl
    by_cases met : (eval.actionPre a node.bb).1 = 0 ∧ (eval.actionPre a node.bb).2 = true
    · rw [if_pos (pre.mpr met)]
      by_cases applied : (eval.actionApply a node.bb).1 = 0
      · rw [if_pos (show (eval.stateless.actionApply a node.bb _).1.1 = 0 from applied)]
        have generated : goap.successor eval a node.bb = some (eval.actionApply a node.bb).2 := by
          rw [successor, if_pos inside, if_pos met, if_pos applied]
        rw [← hostTake_stateless nodeIdx search node a held generated,
          show (eval.stateless.actionPre a node.bb search.hosted.host).2 = () from rfl,
          hostCostFor_stateless]
        rfl
      · rw [if_neg (show ¬(eval.stateless.actionApply a node.bb _).1.1 = 0 from applied)]
        have idle : goap.successor eval a node.bb = none := by
          rw [successor, if_pos inside, if_pos met, if_neg applied]
        simp only [tryAction, held, idle]
        rfl
    · rw [if_neg (pre.not.mpr met)]
      have idle : goap.successor eval a node.bb = none := by
        rw [successor, if_pos inside, if_neg met]
      simp only [tryAction, held, idle]
      rfl

theorem hostExpand_stateless (search : Search Cost) (nodeIdx : Nat) :
    goap.hostExpand eval.stateless VisitedSet.add targets search.hosted nodeIdx =
      (goap.expand eval targets search nodeIdx).hosted := by
  have along (actions : List Nat) (inside : ∀ a ∈ actions, a < goap.actions.length)
      (search : Search Cost) :
      actions.foldl (goap.hostTryAction eval.stateless VisitedSet.add targets nodeIdx)
          search.hosted = (actions.foldl (goap.tryAction eval targets nodeIdx) search).hosted := by
    induction actions generalizing search with
    | nil => rfl
    | cons a rest inductionHypothesis =>
      rw [List.foldl_cons, List.foldl_cons,
        hostTryAction_stateless nodeIdx search (inside a List.mem_cons_self)]
      exact inductionHypothesis (fun later member => inside later (List.mem_cons_of_mem _ member)) _
  exact along _ (fun a member => List.mem_range.mp member) search

theorem hostSearchLoop_stateless (left iters : Nat) (search : Search Cost) :
    goap.hostSearchLoop eval.stateless VisitedSet.add targets left iters search.hosted =
      ((goap.searchLoop eval targets left iters search).1,
        (goap.searchLoop eval targets left iters search).2.hosted) := by
  induction left generalizing iters search with
  | zero => rfl
  | succ left inductionHypothesis =>
    unfold hostSearchLoop searchLoop
    rw [show search.hosted.nodes = search.nodes from rfl,
      show search.hosted.heap = search.heap from rfl]
    split_ifs
    · cases heapPop search.heap with
      | none => rfl
      | some popped =>
        simp only [metAt_stateless search.nodes popped.1.idx]
        split_ifs
        · rfl
        · rw [← inductionHypothesis, ← hostExpand_stateless]
          rfl
    · rfl

/-- For a host that keeps no state, with `visited_add` for the set, this is the search of the
planner. -/
theorem hostSearch_stateless (goap : FleeceGoap) (eval : FleeceGoapEval Cost) (targets : List Nat)
    (bb : FleeceGoapBlackboard) :
    goap.hostSearch eval.stateless VisitedSet.add targets (VisitedSet.init goap.maxNodes) bb () =
      ((goap.search eval targets bb).1, (goap.search eval targets bb).2.hosted) := by
  unfold hostSearch search
  rw [← hostSearchLoop_stateless]
  unfold hostSearchStart
  rw [countUnsatisfied_stateless]
  rfl

end Stateless

end FleeceGoap

end Fleece
