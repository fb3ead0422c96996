/-
This file is about places that hold values, where a holder moves to a greater value: a
place takes a value that is above the one it held, and at most one other place gives up
a value below it. However many moves there are, only finitely many change anything.

A value weighs three times as much as all the values below it, so that a move makes the
weight of all places greater although it may take two values away.
-/

import Mathlib

namespace Fleece.Potential

/-! ### Sequences that climb -/

/-- A bounded sequence that never falls rises only finitely often. -/
theorem finite_climbs {climb : ℕ → ℕ} (rises : ∀ i, climb i ≤ climb (i + 1)) {limit : ℕ}
    (bound : ∀ i, climb i ≤ limit) : {i | climb i < climb (i + 1)}.Finite := by
  have monotone : Monotone climb := monotone_nat_of_le_succ rises
  -- where it rises, the value above the step tells the step
  refine Set.Finite.of_finite_image ((Set.finite_Iic limit).subset ?_)
    (f := fun i => climb (i + 1)) ?_
  · rintro _ ⟨i, _, rfl⟩
    exact bound (i + 1)
  · intro i first j second same
    rcases lt_trichotomy i j with before | rfl | after
    · exact absurd (same.ge.trans (monotone before)) (not_le.mpr second)
    · rfl
    · exact absurd (same.le.trans (monotone after)) (not_le.mpr first)

/-- Behind the last change a sequence stays what it is. -/
theorem eventually_constant {Content : Type*} {content : ℕ → Content}
    (changes : {i | content (i + 1) ≠ content i}.Finite) :
    ∃ stable, ∀ i, stable ≤ i → content i = content stable := by
  obtain ⟨last, above⟩ := changes.bddAbove
  refine ⟨last + 1, fun i late => ?_⟩
  induction i, late using Nat.le_induction with
  | base => rfl
  | succ i late inductionHypothesis =>
    by_contra moved
    have changed : content (i + 1) ≠ content i := fun same => moved (same.trans inductionHypothesis)
    exact absurd (above changed) (by omega)

/-! ### Weights -/

section Weights

variable {Value : Type*} [LinearOrder Value] (values : Finset Value)

/-- How many values are below. -/
def rank (value : Value) : ℕ := (values.filter (· < value)).card

/-- The weight of a place: a power of three, so that a value outweighs two of any lower one. -/
def weight : Option Value → ℕ
  | none => 0
  | some value => 3 ^ rank values value

variable {values}

theorem rank_lt_rank {lower upper : Value} (member : lower ∈ values) (less : lower < upper) :
    rank values lower < rank values upper := by
  refine Finset.card_lt_card (Finset.ssubset_iff_of_subset ?_ |>.mpr ⟨lower, ?_, ?_⟩)
  · exact fun value below => Finset.mem_filter.mpr ⟨(Finset.mem_filter.mp below).1,
      (Finset.mem_filter.mp below).2.trans less⟩
  · exact Finset.mem_filter.mpr ⟨member, less⟩
  · exact fun below => lt_irrefl lower (Finset.mem_filter.mp below).2

theorem weight_le (value : Option Value) : weight values value ≤ 3 ^ values.card := by
  cases value with
  | none => exact Nat.zero_le _
  | some value => exact Nat.pow_le_pow_right (by decide) (Finset.card_filter_le _ _)

/-- Two values that are below a third weigh less together. -/
theorem weight_add_lt {first second : Option Value} {upper : Value}
    (firstBelow : ∀ value, first = some value → value ∈ values ∧ value < upper)
    (secondBelow : ∀ value, second = some value → value ∈ values ∧ value < upper) :
    weight values first + weight values second < weight values (some upper) := by
  have below (value : Option Value)
      (small : ∀ lower, value = some lower → lower ∈ values ∧ lower < upper) :
      3 * weight values value ≤ weight values (some upper) := by
    cases value with
    | none => exact Nat.zero_le _
    | some lower =>
      obtain ⟨member, less⟩ := small lower rfl
      calc 3 * 3 ^ rank values lower
          = 3 ^ (rank values lower + 1) := by rw [Nat.pow_succ, Nat.mul_comm]
        _ ≤ 3 ^ rank values upper :=
          Nat.pow_le_pow_right (by decide) (rank_lt_rank member less)
  have positive : 0 < weight values (some upper) := Nat.pow_pos (by decide)
  have firstLight := below first firstBelow
  have secondLight := below second secondBelow
  omega

end Weights

/-! ### Moves -/

section Moves

variable {Place Value : Type*} [LinearOrder Value] (places : Finset Place) (values : Finset Value)

/-- The weight of all places. -/
def potential (held : Place → Option Value) : ℕ := ∑ place ∈ places, weight values (held place)

theorem potential_le (held : Place → Option Value) :
    potential places values held ≤ places.card * 3 ^ values.card := by
  rw [potential, ← smul_eq_mul]
  exact Finset.sum_le_card_nsmul _ _ _ fun place _ => weight_le (held place)

variable [DecidableEq Place]

/-- The place takes the value, which is above what it held, and the place that is left, if there is
one, gives up a value below it. -/
structure Moves (before after : Place → Option Value) (left : Option Place) (place : Place)
    (value : Value) : Prop where
  moved : after = fun other => if other = place then some value
    else if left = some other then none else before other
  taken : ∀ old, before place = some old → old ∈ values ∧ old < value
  given : ∀ old, left.bind before = some old → old ∈ values ∧ old < value

variable {places values}

/-- A move makes the weight greater. -/
theorem potential_lt {before after : Place → Option Value} {left : Option Place} {place : Place}
    {value : Value} (moves : Moves values before after left place value) (inside : place ∈ places) :
    potential places values before < potential places values after := by
  let lost := weight values (left.bind before)
  have atPlace : after place = some value := by
    rw [moves.moved]
    exact if_pos rfl
  have elsewhere : ∀ other ∈ places.erase place, weight values (before other) ≤
      weight values (after other) + if left = some other then lost else 0 := by
    intro other member
    rw [moves.moved]
    simp only [if_neg (Finset.ne_of_mem_erase member)]
    split_ifs with leaves
    · simp only [lost, leaves, Option.bind_some]
      exact Nat.le_add_left _ _
    · exact Nat.le_refl _
  have once : (∑ other ∈ places.erase place, if left = some other then lost else 0) ≤ lost := by
    cases left with
    | none => simp
    | some other =>
      simp only [Option.some.injEq, Finset.sum_ite_eq]
      split_ifs
      · exact Nat.le_refl _
      · exact Nat.zero_le _
  have rest := (Finset.sum_le_sum elsewhere).trans_eq Finset.sum_add_distrib
  have heavier := weight_add_lt moves.taken moves.given
  rw [potential, potential, ← Finset.add_sum_erase _ _ inside, ← Finset.add_sum_erase _ _ inside,
    atPlace]
  omega

end Moves

end Fleece.Potential
