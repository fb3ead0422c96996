/-
This file is about two runs of one machine side by side, which take as many steps
but need not take the same ones. A relation between their states that every pair
of matched steps keeps still holds where the runs end; in particular a picture of
the state that does not tell the two steps apart does not tell the two runs apart.
-/

import Fleece.Runs

namespace Fleece

variable {State Act : Type} (step : State → Act → State)

/-- The two runs take as many steps, and any two steps they take together meet a condition on the
states before them and the actions. -/
def InLockstep (matched : State → State → Act → Act → Prop) :
    State → State → List Act → List Act → Prop
  | _, _, [], [] => True
  | first, second, act :: rest, other :: others =>
    matched first second act other ∧
      InLockstep matched (step first act) (step second other) rest others
  | _, _, _, _ => False

variable {step} {matched : State → State → Act → Act → Prop}

/-- A relation that every pair of matched steps keeps relates the ends of the runs. -/
theorem InLockstep.related {related : State → State → Prop} {first second : State}
    {acts others : List Act} (lockstep : InLockstep step matched first second acts others)
    (keeps : ∀ first second act other, related first second → matched first second act other →
      related (step first act) (step second other))
    (holds : related first second) :
    related (runFrom step first acts) (runFrom step second others) := by
  induction acts generalizing first second others with
  | nil =>
    cases others with
    | nil => exact holds
    | cons other others => exact lockstep.elim
  | cons act rest inductionHypothesis =>
    cases others with
    | nil => exact lockstep.elim
    | cons other others =>
      rw [runFrom_cons, runFrom_cons]
      exact inductionHypothesis lockstep.2 (keeps first second act other holds lockstep.1)

end Fleece
