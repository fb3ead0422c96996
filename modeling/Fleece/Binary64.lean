/-
This file is about the 64-bit binary floating-point format: a bit pattern with a
sign, eleven bits of exponent and fifty-two bits of fraction. A finite number is a
whole multiple of 2^-1074, so its absolute value is a natural number in that unit,
and nothing here is rounded but the conversion of a whole number.

The order of the numbers is the order of their bit patterns, read as a sign and a
magnitude: the exponent stands above the fraction, and the two zeros have one
magnitude. A comparison with a pattern that is not a number is false.
-/

import Mathlib

namespace Fleece

/-- A `double`, by its bit pattern. -/
structure Binary64 where
  bits : UInt64
  deriving DecidableEq

namespace Binary64

/-! ### The parts of a pattern -/

/-- The sign bit is set. -/
def isNegative (v : Binary64) : Bool := decide (2 ^ 63 ≤ v.bits.toNat)

/-- The pattern without its sign. -/
def magnitude (v : Binary64) : Nat := v.bits.toNat % 2 ^ 63

/-- The biased exponent. -/
def exponent (v : Binary64) : Nat := v.magnitude / 2 ^ 52

/-- The fraction bits. -/
def fraction (v : Binary64) : Nat := v.magnitude % 2 ^ 52

/-- All exponent bits are set, and some fraction bit. -/
def isNan (v : Binary64) : Bool := decide (2047 * 2 ^ 52 < v.magnitude)

/-- Some exponent bit is not set. -/
def isFinite (v : Binary64) : Bool := decide (v.magnitude < 2047 * 2 ^ 52)

/-- The place of a number in the order. -/
def order (v : Binary64) : Int := if v.isNegative then -v.magnitude else v.magnitude

/-- The absolute value of a finite number, as a multiple of 2^-1074. -/
def scaled (v : Binary64) : Nat :=
  if v.exponent = 0 then v.fraction else (2 ^ 52 + v.fraction) * 2 ^ (v.exponent - 1)

/-! ### Comparisons -/

/-- `<`, false where one side is not a number. -/
def lt (first second : Binary64) : Bool :=
  !first.isNan && !second.isNan && decide (first.order < second.order)

/-- `>=`, false where one side is not a number. -/
def ge (first second : Binary64) : Bool :=
  !first.isNan && !second.isNan && decide (second.order ≤ first.order)

/-- `==`, false where one side is not a number; the two zeros are equal. -/
def eq (first second : Binary64) : Bool :=
  !first.isNan && !second.isNan && decide (first.order = second.order)

/-- `0.0`. -/
def zero : Binary64 := ⟨0⟩

/-- The number with the two zeros made one. -/
def unsignedZero (v : Binary64) : Binary64 := if v.magnitude = 0 then zero else v

/-! ### Whole numbers -/

/-- The whole part of the absolute value. -/
def trunc (v : Binary64) : Nat := v.scaled / 2 ^ 1074

/-- `v == floor(v)` of a finite value. -/
def isInteger (v : Binary64) : Bool := v.isFinite && v.scaled % 2 ^ 1074 == 0

/-- A whole number scaled to fifty-three bits, to the nearest and in the middle to the even. -/
def significand (n : Nat) : Nat :=
  if n.log2 ≤ 52 then n * 2 ^ (52 - n.log2)
  else
    let shift := n.log2 - 52
    let quotient := n / 2 ^ shift
    let rest := n % 2 ^ shift
    if 2 ^ shift < 2 * rest ∨ 2 ^ shift = 2 * rest ∧ quotient % 2 = 1 then quotient + 1
    else quotient

/-- The nearest number to a whole one, which is below 2^1023. -/
def ofNat (n : Nat) : Binary64 :=
  if n = 0 then zero else ⟨UInt64.ofNat ((n.log2 + 1022) * 2 ^ 52 + significand n)⟩

theorem isNegative_iff {v : Binary64} : v.isNegative = true ↔ 2 ^ 63 ≤ v.bits.toNat :=
  decide_eq_true_iff

theorem bits_eq (v : Binary64) :
    v.bits.toNat = (if v.isNegative then 2 ^ 63 else 0) + v.magnitude := by
  have small := v.bits.toNat_lt
  unfold magnitude
  by_cases negative : v.isNegative = true
  · have large := isNegative_iff.mp negative
    rw [if_pos negative]
    omega
  · have low : ¬ 2 ^ 63 ≤ v.bits.toNat := fun large => negative (isNegative_iff.mpr large)
    rw [if_neg negative]
    omega

/-- A number is given by its sign and its magnitude. -/
theorem ext_parts {v w : Binary64} (sign : v.isNegative = w.isNegative)
    (magnitude : v.magnitude = w.magnitude) : v = w := by
  obtain ⟨bits⟩ := v
  obtain ⟨other⟩ := w
  congr 1
  apply UInt64.toNat_inj.mp
  rw [bits_eq ⟨bits⟩, bits_eq ⟨other⟩, sign, magnitude]

theorem natAbs_order (v : Binary64) : v.order.natAbs = v.magnitude := by
  unfold order
  split_ifs <;> omega

/-- Two numbers that compare equal differ in the sign of zero at most. -/
theorem unsignedZero_of_eq {v w : Binary64} (equal : v.eq w = true) :
    v.unsignedZero = w.unsignedZero := by
  rw [eq, Bool.and_eq_true, decide_eq_true_iff] at equal
  have same : v.magnitude = w.magnitude := by
    rw [← natAbs_order, ← natAbs_order, equal.2]
  unfold unsignedZero
  rw [same]
  split_ifs with zero
  · rfl
  · refine ext_parts ?_ same
    have order := equal.2
    unfold Binary64.order at order
    rw [same] at order
    cases sign : v.isNegative <;> cases otherSign : w.isNegative <;> simp_all

/-! ### The nearest number to a whole one -/

theorem significand_bounds {n : Nat} (positive : n ≠ 0) :
    2 ^ 52 ≤ significand n ∧ significand n ≤ 2 ^ 53 := by
  have low := Nat.log2_self_le positive
  have high := Nat.lt_log2_self (n := n)
  unfold significand
  split_ifs with short
  · have scale : 2 ^ n.log2 * 2 ^ (52 - n.log2) = 2 ^ 52 := by
      rw [← pow_add]
      congr 1
      omega
    have scaleNext : 2 ^ (n.log2 + 1) * 2 ^ (52 - n.log2) = 2 ^ 53 := by
      rw [pow_succ, Nat.mul_right_comm, scale, ← pow_succ]
    refine ⟨scale ▸ Nat.mul_le_mul_right _ low, ?_⟩
    exact scaleNext ▸ Nat.mul_le_mul_right _ high.le
  · have scale : 2 ^ 52 * 2 ^ (n.log2 - 52) = 2 ^ n.log2 := by
      rw [← pow_add]
      congr 1
      omega
    have scaleNext : 2 ^ 53 * 2 ^ (n.log2 - 52) = 2 ^ (n.log2 + 1) := by
      rw [pow_succ 2 52, Nat.mul_right_comm, scale, pow_succ]
    have least : 2 ^ 52 ≤ n / 2 ^ (n.log2 - 52) :=
      (Nat.le_div_iff_mul_le (by positivity)).mpr (scale ▸ low)
    have most : n / 2 ^ (n.log2 - 52) < 2 ^ 53 :=
      (Nat.div_lt_iff_lt_mul (by positivity)).mpr (scaleNext ▸ high)
    simp only
    split_ifs <;> omega

section OfNat

variable {n : Nat} (positive : n ≠ 0) (small : n < 2 ^ 1023)
include positive small

theorem magnitude_ofNat :
    (ofNat n).magnitude = (n.log2 + 1022) * 2 ^ 52 + significand n ∧
      (ofNat n).isNegative = false ∧ (ofNat n).isNan = false := by
  obtain ⟨low, high⟩ := significand_bounds positive
  have log : n.log2 < 1023 := (Nat.log2_lt positive).mpr small
  have bits : (ofNat n).bits.toNat = (n.log2 + 1022) * 2 ^ 52 + significand n := by
    rw [ofNat, if_neg positive]
    refine UInt64.toNat_ofNat_of_lt' (show _ < 2 ^ 64 from ?_)
    omega
  have whole : (ofNat n).magnitude = (n.log2 + 1022) * 2 ^ 52 + significand n := by
    unfold magnitude
    rw [bits]
    exact Nat.mod_eq_of_lt (by omega)
  refine ⟨whole, ?_, ?_⟩
  · rw [isNegative, bits, decide_eq_false_iff_not]
    omega
  · rw [isNan, whole, decide_eq_false_iff_not]
    omega

/-- The rounded number, as a multiple of 2^-1074. -/
theorem scaled_ofNat : (ofNat n).scaled = significand n * 2 ^ (n.log2 + 1022) := by
  obtain ⟨low, high⟩ := significand_bounds positive
  obtain ⟨whole, _⟩ := magnitude_ofNat positive small
  unfold scaled exponent fraction
  rw [whole]
  rcases high.lt_or_eq with below | top
  · have quotient : ((n.log2 + 1022) * 2 ^ 52 + significand n) / 2 ^ 52 = n.log2 + 1023 := by omega
    have rest : 2 ^ 52 + ((n.log2 + 1022) * 2 ^ 52 + significand n) % 2 ^ 52 = significand n := by
      omega
    rw [quotient, rest, if_neg (by omega), show n.log2 + 1023 - 1 = n.log2 + 1022 by omega]
  · -- the carry of a significand that was rounded up to the next power of two
    have quotient : ((n.log2 + 1022) * 2 ^ 52 + significand n) / 2 ^ 52 = n.log2 + 1024 := by omega
    have rest : ((n.log2 + 1022) * 2 ^ 52 + significand n) % 2 ^ 52 = 0 := by omega
    rw [quotient, rest, if_neg (by omega), top, Nat.add_zero,
      show n.log2 + 1024 - 1 = n.log2 + 1022 + 1 by omega, pow_succ 2 (n.log2 + 1022), pow_succ 2 52,
      Nat.mul_assoc, Nat.mul_comm 2]

theorem dvd_scaled_ofNat : 2 ^ 1074 ∣ (ofNat n).scaled := by
  rw [scaled_ofNat positive small, significand]
  split_ifs with short
  · have scale : 2 ^ (52 - n.log2) * 2 ^ (n.log2 + 1022) = 2 ^ 1074 := by
      rw [← pow_add, show 52 - n.log2 + (n.log2 + 1022) = 1074 by omega]
    exact ⟨n, by rw [Nat.mul_assoc, scale, Nat.mul_comm]⟩
  all_goals exact Dvd.dvd.mul_left (pow_dvd_pow 2 (by omega)) _

end OfNat

theorem ofNat_sign {n : Nat} (small : n < 2 ^ 1023) :
    (ofNat n).isNegative = false ∧ (ofNat n).isNan = false := by
  rcases eq_or_ne n 0 with rfl | positive
  · exact ⟨rfl, rfl⟩
  · exact (magnitude_ofNat positive small).2

theorem order_ofNat {n : Nat} (small : n < 2 ^ 1023) : (ofNat n).order = (ofNat n).magnitude := by
  rw [order, (ofNat_sign small).1]
  rfl

theorem unsignedZero_ofNat {n : Nat} (small : n < 2 ^ 1023) : (ofNat n).unsignedZero = ofNat n := by
  unfold unsignedZero
  split_ifs with nothing
  · exact ext_parts (ofNat_sign small).1.symm nothing.symm
  · rfl

theorem scaled_congr {v w : Binary64} (same : v.magnitude = w.magnitude) : v.scaled = w.scaled := by
  unfold scaled exponent fraction
  rw [same]

theorem fraction_lt (v : Binary64) : v.fraction < 2 ^ 52 := Nat.mod_lt _ (by decide)

theorem magnitude_eq (v : Binary64) : v.magnitude = v.exponent * 2 ^ 52 + v.fraction :=
  (Nat.div_add_mod' _ _).symm

theorem magnitude_of_scaled_zero {v : Binary64} (nothing : v.scaled = 0) : v.magnitude = 0 := by
  unfold scaled at nothing
  rw [magnitude_eq]
  split_ifs at nothing with lowest
  · rw [lowest, nothing]
    rfl
  · have positive : 0 < (2 ^ 52 + v.fraction) * 2 ^ (v.exponent - 1) := by positivity
    omega

/-- A significand of fifty-three bits survives the scaling. -/
theorem significand_mul {n digits : Nat} (shift : Nat) (low : 2 ^ 52 ≤ digits)
    (high : digits < 2 ^ 53) (shape : n * 2 ^ 1074 = digits * 2 ^ shift) (positive : n ≠ 0) :
    n.log2 + 1022 = shift ∧ significand n = digits := by
  have log : n.log2 + 1074 = 52 + shift := by
    have below : 2 ^ (n.log2 + 1074) < 2 ^ (53 + shift) := by
      calc 2 ^ (n.log2 + 1074) ≤ n * 2 ^ 1074 := by
            rw [pow_add]
            exact Nat.mul_le_mul_right _ (Nat.log2_self_le positive)
        _ = digits * 2 ^ shift := shape
        _ < 2 ^ (53 + shift) := by
            rw [pow_add]
            exact Nat.mul_lt_mul_of_pos_right high (Nat.two_pow_pos _)
    have above : 2 ^ (52 + shift) < 2 ^ (n.log2 + 1 + 1074) := by
      calc 2 ^ (52 + shift) ≤ digits * 2 ^ shift := by
            rw [pow_add]
            exact Nat.mul_le_mul_right _ low
        _ = n * 2 ^ 1074 := shape.symm
        _ < 2 ^ (n.log2 + 1 + 1074) := by
            rw [pow_add]
            exact Nat.mul_lt_mul_of_pos_right Nat.lt_log2_self (Nat.two_pow_pos _)
    have first := (Nat.pow_lt_pow_iff_right (by decide)).mp below
    have second := (Nat.pow_lt_pow_iff_right (by decide)).mp above
    omega
  refine ⟨by omega, ?_⟩
  unfold significand
  split_ifs with short
  · have scale : 2 ^ 1074 = 2 ^ (52 - n.log2) * 2 ^ shift := by
      rw [← pow_add, show 52 - n.log2 + shift = 1074 by omega]
    rw [scale, ← Nat.mul_assoc] at shape
    exact Nat.eq_of_mul_eq_mul_right (Nat.two_pow_pos _) shape
  · have scale : 2 ^ shift = 2 ^ (n.log2 - 52) * 2 ^ 1074 := by
      rw [← pow_add, show n.log2 - 52 + 1074 = shift by omega]
    rw [scale, ← Nat.mul_assoc] at shape
    have product : n = digits * 2 ^ (n.log2 - 52) :=
      Nat.eq_of_mul_eq_mul_right (Nat.two_pow_pos _) shape
    have unit : 0 < 2 ^ (n.log2 - 52) := Nat.two_pow_pos _
    have quotient : n / 2 ^ (n.log2 - 52) = digits := Nat.div_eq_of_eq_mul_left unit product
    have rest : n % 2 ^ (n.log2 - 52) = 0 :=
      Nat.mod_eq_zero_of_dvd (Dvd.intro_left digits product.symm)
    simp only [quotient, rest]
    rw [if_neg (by omega)]

/-- A whole number is its own nearest number. -/
theorem magnitude_ofNat_trunc {v : Binary64} (integer : 2 ^ 1074 ∣ v.scaled)
    (small : v.trunc < 2 ^ 1023) : (ofNat v.trunc).magnitude = v.magnitude := by
  have whole : v.trunc * 2 ^ 1074 = v.scaled := Nat.div_mul_cancel integer
  rcases eq_or_ne v.trunc 0 with nothing | positive
  · rw [nothing, Nat.zero_mul] at whole
    rw [nothing, magnitude_of_scaled_zero whole.symm]
    rfl
  · have fraction := v.fraction_lt
    have normal : v.exponent ≠ 0 := by
      intro lowest
      rw [scaled, if_pos lowest] at whole
      have least : 2 ^ 1074 ≤ v.fraction :=
        whole ▸ Nat.le_mul_of_pos_left _ (Nat.pos_of_ne_zero positive)
      have larger : 2 ^ 52 ≤ 2 ^ 1074 := Nat.pow_le_pow_right (by decide) (by decide)
      exact absurd (fraction.trans_le larger) (not_lt.mpr least)
    rw [scaled, if_neg normal] at whole
    obtain ⟨log, digits⟩ := significand_mul (v.exponent - 1) (Nat.le_add_right _ _)
      (by omega) whole positive
    rw [(magnitude_ofNat positive small).1, digits, magnitude_eq, log]
    omega

theorem trunc_of_zero {v : Binary64} (nothing : v.magnitude = 0) : v.trunc = 0 := by
  rw [trunc, scaled_congr (show v.magnitude = zero.magnitude from nothing),
    show zero.scaled = 0 from rfl, Nat.zero_div]

theorem order_of_zero {v : Binary64} (nothing : v.magnitude = 0) : v.order = 0 :=
  Int.natAbs_eq_zero.mp (v.natAbs_order.trans nothing)

theorem order_unsignedZero (v : Binary64) : v.unsignedZero.order = v.order := by
  unfold unsignedZero
  split_ifs with nothing
  · exact (order_of_zero nothing).symm
  · rfl

theorem isNan_unsignedZero (v : Binary64) : v.unsignedZero.isNan = v.isNan := by
  unfold unsignedZero
  split_ifs with nothing
  · rw [isNan, isNan, nothing]
    rfl
  · rfl

/-! ### Whole numbers below 2^64 -/

/-- 2^64 as a number. -/
def two64 : Binary64 := ⟨0x43F0000000000000⟩

section Small

variable {v : Binary64} (atLeast : v.ge zero = true) (below : v.lt two64 = true)
include atLeast below

theorem order_of_small : v.order = v.magnitude ∧ v.magnitude < 1087 * 2 ^ 52 := by
  rw [ge, Bool.and_eq_true, decide_eq_true_iff, show zero.order = 0 from rfl] at atLeast
  rw [lt, Bool.and_eq_true, decide_eq_true_iff] at below
  have top : two64.order = 1087 * 2 ^ 52 := rfl
  have sign : v.order = v.magnitude := by
    have size := natAbs_order v
    omega
  have bound := below.2
  rw [top, sign] at bound
  exact ⟨sign, by exact_mod_cast bound⟩

theorem trunc_lt : v.trunc < 2 ^ 64 := by
  obtain ⟨_, bound⟩ := order_of_small atLeast below
  have fraction := v.fraction_lt
  have exponent : v.exponent ≤ 1086 := by
    rw [magnitude_eq] at bound
    omega
  refine Nat.div_lt_of_lt_mul ?_
  have larger : 2 ^ 53 * 2 ^ 1085 = 2 ^ 1074 * 2 ^ 64 := by
    rw [← pow_add, ← pow_add]
  rw [← larger, scaled]
  split_ifs with lowest
  · have unit : 0 < 2 ^ 1085 := Nat.two_pow_pos 1085
    exact lt_of_lt_of_le (by omega : v.fraction < 2 ^ 53) (Nat.le_mul_of_pos_right _ unit)
  · have power : 2 ^ (v.exponent - 1) ≤ 2 ^ 1085 := Nat.pow_le_pow_right (by decide) (by omega)
    exact Nat.mul_lt_mul_of_lt_of_le (by omega) power (Nat.two_pow_pos _)

theorem trunc_small : v.trunc < 2 ^ 1023 :=
  (trunc_lt atLeast below).trans (Nat.pow_lt_pow_right (by decide) (by decide))

/-- The writer's two ways to ask whether a number is a whole one. -/
theorem eq_ofNat_trunc : v.eq (ofNat v.trunc) = v.isInteger := by
  obtain ⟨sign, bound⟩ := order_of_small atLeast below
  have finite : v.isFinite = true := decide_eq_true (by omega)
  have number : v.isNan = false := decide_eq_false (by omega)
  rw [Bool.eq_iff_iff, isInteger, finite, Bool.true_and, beq_iff_eq, ← Nat.dvd_iff_mod_eq_zero]
  constructor
  · intro equal
    rw [eq, Bool.and_eq_true, decide_eq_true_iff] at equal
    have same : v.magnitude = (ofNat v.trunc).magnitude := by
      rw [← natAbs_order, equal.2, natAbs_order]
    rw [scaled_congr same]
    rcases eq_or_ne v.trunc 0 with nothing | positive
    · rw [nothing]
      exact dvd_zero _
    · exact dvd_scaled_ofNat positive (trunc_small atLeast below)
  · intro integer
    have small := trunc_small atLeast below
    rw [eq, number, (ofNat_sign small).2, order_ofNat small, magnitude_ofNat_trunc integer small,
      sign]
    exact decide_eq_true rfl

/-- A whole number is what its whole part is read back as. -/
theorem ofNat_trunc (integer : v.isInteger = true) : ofNat v.trunc = v.unsignedZero := by
  rw [← eq_ofNat_trunc atLeast below] at integer
  rw [unsignedZero_of_eq integer, unsignedZero_ofNat (trunc_small atLeast below)]

end Small

/-! ### Whole numbers of fifty-three digits -/

/-- A whole number that the format holds as it is. -/
def IsExact (n : Nat) : Prop := ∃ digits shift, n = digits * 2 ^ shift ∧ digits < 2 ^ 53

/-- The first digits of an exact number are an exact number. -/
theorem IsExact.div {n : Nat} (isExact : IsExact n) (count : Nat) : IsExact (n / 2 ^ count) := by
  obtain ⟨digits, shift, rfl, bound⟩ := isExact
  rcases le_total count shift with few | many
  · refine ⟨digits, shift - count, ?_, bound⟩
    rw [Nat.mul_div_assoc _ (pow_dvd_pow 2 few), Nat.pow_div few (by decide)]
  · refine ⟨digits / 2 ^ (count - shift), 0, ?_, (Nat.div_le_self _ _).trans_lt bound⟩
    have split : 2 ^ count = 2 ^ (count - shift) * 2 ^ shift := by
      rw [← pow_add, Nat.sub_add_cancel many]
    rw [split, Nat.mul_div_mul_right _ _ (Nat.two_pow_pos _), pow_zero, Nat.mul_one]

theorem isExact_scaled (v : Binary64) : IsExact v.scaled := by
  have fraction := v.fraction_lt
  unfold scaled
  split_ifs with lowest
  · exact ⟨v.fraction, 0, (Nat.mul_one _).symm, by omega⟩
  · exact ⟨2 ^ 52 + v.fraction, v.exponent - 1, rfl, by omega⟩

theorem isExact_trunc (v : Binary64) : IsExact v.trunc := v.isExact_scaled.div 1074

theorem IsExact.significand_mul {n : Nat} (isExact : IsExact n) (positive : n ≠ 0) :
    significand n * 2 ^ (n.log2 + 1022) = n * 2 ^ 1074 := by
  unfold significand
  split_ifs with short
  · rw [Nat.mul_assoc, ← pow_add, show 52 - n.log2 + (n.log2 + 1022) = 1074 by omega]
  · obtain ⟨digits, shift, shape, bound⟩ := isExact
    have power : 2 ^ n.log2 < 2 ^ (53 + shift) := by
      calc 2 ^ n.log2 ≤ n := Nat.log2_self_le positive
        _ = digits * 2 ^ shift := shape
        _ < 2 ^ (53 + shift) := by
            rw [pow_add]
            exact Nat.mul_lt_mul_of_pos_right bound (Nat.two_pow_pos _)
    have few : n.log2 < 53 + shift := (Nat.pow_lt_pow_iff_right (by decide)).mp power
    have divides : 2 ^ (n.log2 - 52) ∣ n := by
      refine (pow_dvd_pow 2 (by omega : n.log2 - 52 ≤ shift)).trans ?_
      exact Dvd.intro_left digits shape.symm
    have unit : 0 < 2 ^ (n.log2 - 52) := Nat.two_pow_pos _
    have rest : n % 2 ^ (n.log2 - 52) = 0 := Nat.mod_eq_zero_of_dvd divides
    simp only [rest]
    rw [if_neg (by omega), show n.log2 + 1022 = n.log2 - 52 + 1074 by omega, pow_add,
      ← Nat.mul_assoc, Nat.div_mul_cancel divides]

/-- An exact number is its own nearest number. -/
theorem trunc_ofNat {n : Nat} (isExact : IsExact n) (small : n < 2 ^ 1023) : (ofNat n).trunc = n := by
  rcases eq_or_ne n 0 with rfl | positive
  · rw [trunc, show (ofNat 0).scaled = 0 from rfl, Nat.zero_div]
  · rw [trunc, scaled_ofNat positive small, isExact.significand_mul positive]
    exact Nat.mul_div_cancel _ (Nat.two_pow_pos 1074)

theorem isExact_of_lt {n : Nat} (small : n < 2 ^ 53) : IsExact n :=
  ⟨n, 0, (Nat.mul_one n).symm, small⟩

/-- Rounding does not lead below 2^53 from above. -/
theorem le_trunc_ofNat {n : Nat} (large : 2 ^ 53 ≤ n) (small : n < 2 ^ 1023) :
    2 ^ 53 ≤ (ofNat n).trunc := by
  have positive : n ≠ 0 := by omega
  have log : 53 ≤ n.log2 := (Nat.le_log2 positive).mpr large
  rw [trunc, scaled_ofNat positive small, Nat.le_div_iff_mul_le (Nat.two_pow_pos 1074)]
  have power : 2 ^ 53 * 2 ^ 1074 = 2 ^ 52 * 2 ^ 1075 := by
    rw [← pow_add, ← pow_add]
  rw [power]
  exact Nat.mul_le_mul (significand_bounds positive).1
    (Nat.pow_le_pow_right (by decide) (by omega))

/-- Rounding at most doubles a number. -/
theorem trunc_ofNat_le {n : Nat} (small : n < 2 ^ 1023) : (ofNat n).trunc ≤ 2 * n := by
  rcases eq_or_ne n 0 with rfl | positive
  · exact (trunc_of_zero rfl).le
  · refine Nat.div_le_of_le_mul ?_
    have power : 2 ^ 53 * 2 ^ (n.log2 + 1022) = 2 ^ 1074 * (2 * 2 ^ n.log2) := by
      rw [← pow_succ', ← pow_add, ← pow_add]
      congr 1
      omega
    rw [scaled_ofNat positive small]
    refine (Nat.mul_le_mul_right _ (significand_bounds positive).2).trans (power.le.trans ?_)
    exact Nat.mul_le_mul_left _ (Nat.mul_le_mul_left _ (Nat.log2_self_le positive))

end Binary64

end Fleece
