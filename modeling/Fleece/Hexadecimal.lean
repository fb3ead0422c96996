/-
This file is about 64-bit words as hexadecimal text: `%016llx`, which prints sixteen
digits, and `strtoull` to the base sixteen, which reads past blanks, a sign and a `0x`,
takes the digits it finds and stops at the largest word. What was printed is read back.
-/

import Mathlib

namespace Fleece

namespace Hexadecimal

/-! ### Printing -/

/-- A digit below sixteen, in lower case. -/
def digit (n : Nat) : UInt8 := UInt8.ofNat (if n < 10 then 0x30 + n else 0x57 + n)

/-- The low digits of a number, the most significant one first. -/
def digits : Nat → Nat → List UInt8
  | 0, _ => []
  | count + 1, n => digit (n / 16 ^ count % 16) :: digits count n

/-- `%016llx`. -/
def print (value : UInt64) : List UInt8 := digits 16 value.toNat

/-! ### Reading -/

/-- What `isspace` accepts in the locale of C. -/
def isSpace (char : UInt8) : Bool := char == 0x20 || (0x09 ≤ char && char ≤ 0x0D)

/-- The value of a hexadecimal digit of either case. -/
def digitValue (char : UInt8) : Option Nat :=
  if 0x30 ≤ char ∧ char ≤ 0x39 then some (char.toNat - 0x30)
  else if 0x61 ≤ char ∧ char ≤ 0x66 then some (char.toNat - 0x57)
  else if 0x41 ≤ char ∧ char ≤ 0x46 then some (char.toNat - 0x37)
  else none

/-- The digits up to the first other character, behind those read before. -/
def readDigits : Nat → List UInt8 → Nat
  | value, [] => value
  | value, char :: rest =>
    match digitValue char with
    | some d => readDigits (value * 16 + d) rest
    | none => value

/-- A `0x` is skipped where a digit follows it. -/
def skipBase : List UInt8 → List UInt8
  | zero :: x :: d :: rest =>
    if zero = 0x30 ∧ (x = 0x78 ∨ x = 0x58) ∧ (digitValue d).isSome = true then d :: rest
    else zero :: x :: d :: rest
  | text => text

/-- The word of a number that was read: the largest one where it overflows. -/
def saturate (negative : Bool) (value : Nat) : UInt64 :=
  if 2 ^ 64 ≤ value then 0xFFFFFFFFFFFFFFFF
  else if negative then 0 - UInt64.ofNat value
  else UInt64.ofNat value

/-- `strtoull(text, NULL, 16)`. -/
def strtoull (text : List UInt8) : UInt64 :=
  match text.dropWhile isSpace with
  | [] => 0
  | sign :: rest =>
    if sign = 0x2D then saturate true (readDigits 0 (skipBase rest))
    else if sign = 0x2B then saturate false (readDigits 0 (skipBase rest))
    else saturate false (readDigits 0 (skipBase (sign :: rest)))

/-! ### Reading what was printed -/

theorem digit_facts : ∀ d < 16, isSpace (digit d) = false ∧ digit d ≠ 0x2D ∧ digit d ≠ 0x2B ∧
    digit d ≠ 0x78 ∧ digit d ≠ 0x58 ∧ digitValue (digit d) = some d := by
  decide

@[simp] theorem length_digits (count n : Nat) : (digits count n).length = count := by
  induction count with
  | zero => rfl
  | succ count inductionHypothesis => rw [digits, List.length_cons, inductionHypothesis]

@[simp] theorem length_print (value : UInt64) : (print value).length = 16 := length_digits 16 _

theorem exists_of_mem_digits {count n : Nat} {char : UInt8} (member : char ∈ digits count n) :
    ∃ d < 16, char = digit d := by
  induction count with
  | zero => cases member
  | succ count inductionHypothesis =>
    rcases List.mem_cons.mp member with rfl | later
    · exact ⟨_, Nat.mod_lt _ (by decide), rfl⟩
    · exact inductionHypothesis later

theorem zero_notMem_digits (count n : Nat) : 0 ∉ digits count n := by
  intro member
  obtain ⟨d, small, same⟩ := exists_of_mem_digits member
  have nonzero : ∀ d < 16, digit d ≠ 0 := by decide
  exact nonzero d small same.symm

theorem readDigits_digits (count n start : Nat) :
    readDigits start (digits count n) = start * 16 ^ count + n % 16 ^ count := by
  induction count generalizing start with
  | zero => rw [digits, readDigits, Nat.pow_zero, Nat.mul_one, Nat.mod_one, Nat.add_zero]
  | succ count inductionHypothesis =>
    have value := (digit_facts (n / 16 ^ count % 16) (Nat.mod_lt _ (by decide))).2.2.2.2.2
    rw [digits, readDigits, value]
    simp only
    rw [inductionHypothesis, Nat.mod_pow_succ, pow_succ]
    ring

theorem skipBase_digits (count n : Nat) : skipBase (digits count n) = digits count n := by
  match count with
  | 0 => rfl
  | 1 => rfl
  | 2 => rfl
  | count + 3 =>
    obtain ⟨_, _, _, notX, notUpperX, _⟩ :=
      digit_facts (n / 16 ^ (count + 1) % 16) (Nat.mod_lt _ (by decide))
    rw [digits, digits, digits, skipBase, if_neg]
    rintro ⟨_, isX | isX, _⟩
    · exact notX isX
    · exact notUpperX isX

/-- A word that was printed is read back. -/
theorem strtoull_print (value : UInt64) : strtoull (print value) = value := by
  obtain ⟨notSpace, notMinus, notPlus, _⟩ :=
    digit_facts (value.toNat / 16 ^ 15 % 16) (Nat.mod_lt _ (by decide))
  have read : readDigits 0 (skipBase (print value)) = value.toNat := by
    rw [print, skipBase_digits, readDigits_digits, Nat.zero_mul, Nat.zero_add]
    exact Nat.mod_eq_of_lt value.toNat_lt
  have shape : print value = digit (value.toNat / 16 ^ 15 % 16) :: digits 15 value.toNat := rfl
  rw [shape] at read
  rw [shape, strtoull, List.dropWhile_cons_of_neg (by rw [notSpace]; exact Bool.false_ne_true)]
  simp only
  rw [if_neg notMinus, if_neg notPlus, read, saturate, if_neg (Nat.not_le.mpr value.toNat_lt),
    if_neg Bool.false_ne_true, UInt64.ofNat_toNat]

end Hexadecimal

end Fleece
