/-
This file is about runs of a machine with a step function: what holds of every
state a run reaches, and what relates its first state to its last. A condition
may be asked of every step of the run; an invariant, or a relation between the
ends, is then proved from what one step does.
-/

import Mathlib

namespace Fleece

variable {State Act : Type} (step : State → Act → State)

/-- The state a run ends in. -/
def runFrom (start : State) (acts : List Act) : State := acts.foldl step start

/-- Every step of the run meets a condition on the state before it and the action. -/
def Along (condition : State → Act → Prop) : State → List Act → Prop
  | _, [] => True
  | state, act :: rest => condition state act ∧ Along condition (step state act) rest

/-- Some step of the run meets a condition on the state before it and the action. -/
def Sometime (condition : State → Act → Prop) : State → List Act → Prop
  | _, [] => False
  | state, act :: rest => condition state act ∨ Sometime condition (step state act) rest

variable {step} {condition : State → Act → Prop}

instance Along.decide [∀ state act, Decidable (condition state act)] (start : State)
    (acts : List Act) : Decidable (Along step condition start acts) :=
  match acts with
  | [] => .isTrue trivial
  | act :: rest =>
    have : Decidable (Along step condition (step start act) rest) := Along.decide _ rest
    inferInstanceAs (Decidable (_ ∧ _))

@[simp] theorem runFrom_nil (start : State) : runFrom step start [] = start := rfl

@[simp] theorem runFrom_cons (start : State) (act : Act) (rest : List Act) :
    runFrom step start (act :: rest) = runFrom step (step start act) rest := rfl

theorem runFrom_append (start : State) (first second : List Act) :
    runFrom step start (first ++ second) = runFrom step (runFrom step start first) second :=
  List.foldl_append

theorem along_append {start : State} {first second : List Act} :
    Along step condition start (first ++ second) ↔
      Along step condition start first ∧
        Along step condition (runFrom step start first) second := by
  induction first generalizing start with
  | nil => simp [Along]
  | cons act rest inductionHypothesis =>
    rw [List.cons_append, Along, Along, inductionHypothesis, runFrom_cons, and_assoc]

/-- A condition on the actions alone. -/
theorem Along.of_forall {fits : Act → Prop} {start : State} {acts : List Act}
    (all : ∀ act ∈ acts, fits act) : Along step (fun _ act => fits act) start acts := by
  induction acts generalizing start with
  | nil => trivial
  | cons act rest inductionHypothesis =>
    exact ⟨all act List.mem_cons_self,
      inductionHypothesis fun other member => all other (List.mem_cons_of_mem act member)⟩

theorem Along.mono {weaker : State → Act → Prop} {start : State} {acts : List Act}
    (along : Along step condition start acts)
    (weaken : ∀ state act, condition state act → weaker state act) :
    Along step weaker start acts := by
  induction acts generalizing start with
  | nil => trivial
  | cons act rest inductionHypothesis =>
    exact ⟨weaken start act along.1, inductionHypothesis along.2⟩

/-- Two conditions that come to the same under an invariant, which a step under them keeps. -/
theorem along_iff {other : State → Act → Prop} {invariant : State → Prop} {start : State}
    {acts : List Act}
    (same : ∀ state act, invariant state → (condition state act ↔ other state act))
    (keeps : ∀ state act, invariant state → condition state act → invariant (step state act))
    (holds : invariant start) :
    Along step condition start acts ↔ Along step other start acts := by
  induction acts generalizing start with
  | nil => exact Iff.rfl
  | cons act rest inductionHypothesis =>
    rw [Along, Along, ← same start act holds]
    exact and_congr_right fun met => inductionHypothesis (keeps start act holds met)

/-- An invariant that every step under the condition keeps holds at the end of the run. -/
theorem Along.invariant {invariant : State → Prop} {start : State} {acts : List Act}
    (along : Along step condition start acts)
    (keeps : ∀ state act, invariant state → condition state act → invariant (step state act))
    (holds : invariant start) : invariant (runFrom step start acts) := by
  induction acts generalizing start with
  | nil => exact holds
  | cons act rest inductionHypothesis =>
    exact inductionHypothesis along.2 (keeps start act holds along.1)

/-- A preorder that every step under the condition and the invariant climbs relates the two
ends of the run. -/
theorem Along.climbs {invariant : State → Prop} (related : State → State → Prop)
    {start : State} {acts : List Act} (along : Along step condition start acts)
    (refl : ∀ state, related state state)
    (trans : ∀ first second third, related first second → related second third →
      related first third)
    (keeps : ∀ state act, invariant state → condition state act → invariant (step state act))
    (climb : ∀ state act, invariant state → condition state act → related state (step state act))
    (holds : invariant start) : related start (runFrom step start acts) := by
  induction acts generalizing start with
  | nil => exact refl start
  | cons act rest inductionHypothesis =>
    exact trans _ _ _ (climb start act holds along.1)
      (inductionHypothesis along.2 (keeps start act holds along.1))

end Fleece
