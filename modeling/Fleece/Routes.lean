/-
This file is about planning problems: a start, actions that lead from one state to
the next at a cost, and a goal. A route is a sequence of actions that can be taken
from the start one after another, and it reaches one state at one cost.

A search keeps some of the states it comes across and goes on from them. Two facts
about routes are what its correctness rests on. Along any route, either every state
is one the search went on from, or there is a first that is not, so that the search
either kept it without having gone on from it yet or has lost it. And where every
action costs at least one, a route that goes on costs at least one more.
-/

import Mathlib

namespace Fleece.Routes

/-- A search problem: where it starts, what an action leads to and costs, and what is to be
reached. -/
structure Problem (State Action Cost : Type) where
  start : State
  next : Action → State → Option State
  cost : Action → State → Cost
  Goal : State → Prop

variable {State Action Cost : Type} [Ring Cost]

/-- The actions of the route can be taken one after another from the start. -/
inductive Reaches (problem : Problem State Action Cost) : List Action → State → Cost → Prop
  | start : Reaches problem [] problem.start 0
  | step {route : List Action} {state next : State} {cost : Cost} {action : Action}
      (before : Reaches problem route state cost) (taken : problem.next action state = some next) :
      Reaches problem (route ++ [action]) next (cost + problem.cost action state)

/-- A route of at most `limit` actions to the goal. -/
structure Solves (problem : Problem State Action Cost) (limit : Nat) (route : List Action)
    (state : State) (cost : Cost) : Prop where
  reaches : Reaches problem route state cost
  goal : problem.Goal state
  short : route.length ≤ limit

/-- A route that meets no label twice and does not go on from the goal. These are the routes a
search can take that closes every state it comes across by its label. -/
inductive Explores {Label : Type} (problem : Problem State Action Cost) (label : State → Label) :
    List Action → List Label → State → Cost → Prop
  | start : Explores problem label [] [label problem.start] problem.start 0
  | step {route : List Action} {labels : List Label} {state next : State} {cost : Cost}
      {action : Action} (before : Explores problem label route labels state cost)
      (notYet : ¬ problem.Goal state) (taken : problem.next action state = some next)
      (fresh : label next ∉ labels) :
      Explores problem label (route ++ [action]) (label next :: labels) next
        (cost + problem.cost action state)

variable {problem : Problem State Action Cost} {route : List Action} {state : State} {cost : Cost}

theorem Explores.reaches {Label : Type} {label : State → Label} {labels : List Label}
    (explores : Explores problem label route labels state cost) :
    Reaches problem route state cost := by
  induction explores with
  | start => exact .start
  | step _ _ taken _ inductionHypothesis => exact inductionHypothesis.step taken

theorem Explores.label_mem {Label : Type} {label : State → Label} {labels : List Label}
    (explores : Explores problem label route labels state cost) : label state ∈ labels := by
  cases explores with
  | start => exact List.mem_singleton_self _
  | step => exact List.mem_cons_self

/-- A route reaches one state, at one cost. -/
theorem Reaches.unique {other : State} {price : Cost} (reaches : Reaches problem route state cost)
    (again : Reaches problem route other price) : other = state ∧ price = cost := by
  induction reaches generalizing other price with
  | start =>
    generalize empty : ([] : List Action) = taken at again
    cases again with
    | start => exact ⟨rfl, rfl⟩
    | step => exact absurd empty.symm (List.append_ne_nil_of_right_ne_nil _ (List.cons_ne_nil _ _))
  | @step route state next cost action before taken inductionHypothesis =>
    generalize whole : route ++ [action] = given at again
    cases again with
    | start => exact absurd whole (List.append_ne_nil_of_right_ne_nil _ (List.cons_ne_nil _ _))
    | step beforeAgain takenAgain =>
      obtain ⟨rfl, lastSame⟩ := List.append_inj' whole rfl
      obtain rfl := (List.cons.inj lastSame).1
      obtain ⟨rfl, rfl⟩ := inductionHypothesis beforeAgain
      exact ⟨Option.some.inj (takenAgain.symm.trans taken), rfl⟩

/-- The first action of a route can be taken at the start. -/
theorem Reaches.head {first : Action} {rest : List Action}
    (reaches : Reaches problem (first :: rest) state cost) :
    ∃ next, problem.next first problem.start = some next := by
  generalize whole : first :: rest = route at reaches
  induction reaches generalizing rest with
  | start => cases whole
  | @step route state next cost action before taken inductionHypothesis =>
    cases route with
    | nil =>
      obtain ⟨rfl, _⟩ := List.cons.inj whole
      obtain ⟨rfl, _⟩ := before.unique .start
      exact ⟨next, taken⟩
    | cons other route =>
      obtain ⟨rfl, _⟩ := List.cons.inj whole
      exact inductionHypothesis rfl

/-- Along a route, every state is one the search went on from, or there is one that waits. -/
theorem Reaches.frontier (Expanded Waiting : State → Cost → Prop)
    (reaches : Reaches problem route state cost)
    (root : Expanded problem.start 0 ∨ Waiting problem.start 0)
    (goesOn : ∀ before action here next price, before ++ [action] <+: route →
      Reaches problem before here price → Expanded here price →
      problem.next action here = some next →
      Expanded next (price + problem.cost action here) ∨
        Waiting next (price + problem.cost action here)) :
    Expanded state cost ∨ ∃ part here price, part <+: route ∧ Reaches problem part here price ∧
      Waiting here price := by
  induction reaches with
  | start => exact root.imp id fun waiting => ⟨[], _, 0, List.prefix_rfl, .start, waiting⟩
  | @step route state next cost action before taken inductionHypothesis =>
    have shorter : route <+: route ++ [action] := List.prefix_append _ _
    rcases inductionHypothesis fun early other here later price part =>
        goesOn early other here later price (part.trans shorter) with
      expanded | ⟨part, here, price, isPart, met, waiting⟩
    · exact (goesOn route action state next cost List.prefix_rfl before expanded taken).imp id
        fun waiting => ⟨_, _, _, List.prefix_rfl, before.step taken, waiting⟩
    · exact .inr ⟨part, here, price, isPart.trans shorter, met, waiting⟩

variable [LinearOrder Cost] [IsStrictOrderedRing Cost]

/-- Where every action costs at least one, going on costs at least one more. -/
theorem Reaches.cost_le (reaches : Reaches problem route state cost)
    (costly : ∀ action here, 1 ≤ problem.cost action here) {part : List Action} {here : State}
    {price : Cost} (isPart : part <+: route) (met : Reaches problem part here price) :
    (part = route ∧ here = state ∧ price = cost) ∨ price + 1 ≤ cost := by
  induction reaches with
  | start =>
    obtain rfl := List.prefix_nil.mp isPart
    exact .inl ⟨rfl, Reaches.start.unique met⟩
  | @step route state next cost action before taken inductionHypothesis =>
    rcases List.prefix_concat_iff.mp isPart with rfl | earlier
    · exact .inl ⟨rfl, (before.step taken).unique met⟩
    · refine .inr ?_
      have more := costly action state
      rcases inductionHypothesis earlier with ⟨_, _, rfl⟩ | less
      · exact add_le_add_right more price
      · calc price + 1 ≤ cost := less
          _ ≤ cost + problem.cost action state := le_add_of_nonneg_right (zero_le_one.trans more)

end Fleece.Routes
