/-
This file is a script engine with exact numbers: it prints a rational score in decimal, as
a fraction where it is not whole, and reads back what it has printed. The claims of the
auction about scores that are stored exactly are about engines such as this one.
-/

import Fleece.Claims

namespace Fleece

/-! ### Decimal numbers -/

namespace Decimal

/-- The decimal digits of a number. -/
def print (n : ℕ) : List UInt8 :=
  if n = 0 then [0x30]
  else (Nat.digits 10 n).reverse.map fun digit => UInt8.ofNat (0x30 + digit)

/-- The number of some decimal digits. -/
def read (chars : List UInt8) : ℕ :=
  Nat.ofDigits 10 (chars.map fun char => char.toNat - 0x30).reverse

theorem toNat_digit {digit : ℕ} (small : digit < 10) :
    (UInt8.ofNat (0x30 + digit)).toNat = 0x30 + digit := by
  rw [UInt8.toNat_ofNat']
  exact Nat.mod_eq_of_lt (by omega)

theorem read_print (n : ℕ) : read (print n) = n := by
  unfold print
  split_ifs with zero
  · rw [zero]
    rfl
  · have values : ((Nat.digits 10 n).reverse.map fun digit => UInt8.ofNat (0x30 + digit)).map
        (fun char => char.toNat - 0x30) = (Nat.digits 10 n).reverse := by
      rw [List.map_map]
      refine (List.map_congr_left fun digit member => ?_).trans (List.map_id _)
      have small := Nat.digits_lt_base (by decide) (List.mem_reverse.mp member)
      show (UInt8.ofNat (0x30 + digit)).toNat - 0x30 = digit
      rw [toNat_digit small, Nat.add_sub_cancel_left]
    rw [read, values, List.reverse_reverse, Nat.ofDigits_digits]

/-- Only digits are printed. -/
theorem print_ge (n : ℕ) : ∀ char ∈ print n, 0x30 ≤ char.toNat := by
  unfold print
  split_ifs
  · exact fun char member => List.mem_singleton.mp member ▸ le_rfl
  · intro char member
    obtain ⟨digit, isDigit, rfl⟩ := List.mem_map.mp member
    rw [toNat_digit (Nat.digits_lt_base (by decide) (List.mem_reverse.mp isDigit))]
    exact Nat.le_add_right _ _

end Decimal

/-! ### Rational numbers -/

/-- The numerator, and the denominator behind a slash if it is not one. -/
def printUnsigned (numerator denominator : ℕ) : List UInt8 :=
  Decimal.print numerator ++ if denominator = 1 then [] else 0x2F :: Decimal.print denominator

/-- A rational as a fraction of decimal numbers, with its sign in front. -/
def printRational (score : ℚ) : List UInt8 :=
  if score.num < 0 then 0x2D :: printUnsigned score.num.natAbs score.den
  else printUnsigned score.num.natAbs score.den

/-- The rational of a fraction without a sign. -/
def readUnsigned (chars : List UInt8) : ℚ :=
  match chars.dropWhile (· != 0x2F) with
  | [] => Decimal.read chars
  | _ :: denominator => Decimal.read (chars.takeWhile (· != 0x2F)) / Decimal.read denominator

/-- The rational of a fraction. -/
def readRational (chars : List UInt8) : ℚ :=
  if chars.head? = some 0x2D then -readUnsigned chars.tail else readUnsigned chars

/-- No digit is a slash or a minus sign. -/
theorem Decimal.print_ne {char : UInt8} (low : char.toNat < 0x30) (n : ℕ) :
    ∀ digit ∈ Decimal.print n, digit ≠ char := by
  rintro digit member rfl
  exact absurd (Decimal.print_ge n digit member) (Nat.not_le.mpr low)

theorem readUnsigned_print (n d : ℕ) : readUnsigned (printUnsigned n d) = n / d := by
  have digits : ∀ char ∈ Decimal.print n, (char != 0x2F) = true := fun char member =>
    bne_iff_ne.mpr (Decimal.print_ne (by decide) n char member)
  unfold readUnsigned printUnsigned
  rw [List.dropWhile_append_of_pos digits, List.takeWhile_append_of_pos digits]
  split_ifs with whole
  · rw [List.append_nil, List.dropWhile_nil]
    simp only
    rw [Decimal.read_print, whole, Nat.cast_one, div_one]
  · rw [List.dropWhile_cons_of_neg (by decide), List.takeWhile_cons_of_neg (by decide),
      List.append_nil]
    simp only
    rw [Decimal.read_print, Decimal.read_print]

theorem head_printUnsigned (n d : ℕ) : (printUnsigned n d).head? ≠ some 0x2D := by
  intro minus
  have shape : Decimal.print n ≠ [] := by
    unfold Decimal.print
    split_ifs with zero
    · exact List.cons_ne_nil _ _
    · rw [ne_eq, List.map_eq_nil_iff, List.reverse_eq_nil_iff]
      exact Nat.digits_ne_nil_iff_ne_zero.mpr zero
  rw [printUnsigned, List.head?_append_of_ne_nil _ shape] at minus
  exact Decimal.print_ne (by decide) n _ (List.mem_of_mem_head? minus) rfl

/-- A score that was printed is read back. -/
theorem readRational_print (score : ℚ) : readRational (printRational score) = score := by
  have unsigned : readUnsigned (printUnsigned score.num.natAbs score.den) = |score| := by
    rw [readUnsigned_print, Nat.cast_natAbs, ← Rat.num_abs_eq_abs_num, ← Rat.den_abs_eq_den]
    exact Rat.num_div_den |score|
  unfold readRational printRational
  split_ifs with negative minus
  · rw [List.tail_cons, unsigned, abs_of_neg (Rat.num_neg.mp negative), neg_neg]
  · exact absurd rfl minus
  · rename_i minus
    exact absurd minus (head_printUnsigned _ _)
  · rw [unsigned, abs_of_nonneg (Rat.num_nonneg.mp (not_lt.mp negative))]

/-! ### The engine -/

/-- The text of a claim apart from its owner and its score. -/
def parseExactClaim (bytes : List UInt8) : Option (Option (List UInt8) × Option ℚ) :=
  if bytes.take 6 = [0x7B, 0x22, 0x6F, 0x22, 0x3A, 0x22] ∧
      (bytes.drop 22).take 6 = [0x22, 0x2C, 0x22, 0x62, 0x22, 0x3A] ∧
      bytes.getLast? = some 0x7D then
    some (some ((bytes.drop 6).take 16), some (readRational (bytes.drop 28).dropLast))
  else none

/-- A host whose scores are rationals, printed without loss. -/
def exactHost : ScriptHost ℚ where
  parseClaim := parseExactClaim
  printScore := printRational

theorem exactHost_readsBack : exactHost.ReadsBack := by
  intro owner raw score accepted
  let front : List UInt8 := [0x7B, 0x22, 0x6F, 0x22, 0x3A, 0x22]
  let middle : List UInt8 := [0x22, 0x2C, 0x22, 0x62, 0x22, 0x3A]
  have text : claimText exactHost owner score =
      front ++ (Hexadecimal.print owner ++ (middle ++ (printRational score ++ [0x7D]))) := by
    simp only [claimText, exactHost, List.append_assoc, front, middle]
  have behindFront : (claimText exactHost owner score).drop 6 =
      Hexadecimal.print owner ++ (middle ++ (printRational score ++ [0x7D])) := by
    rw [text]
    exact List.drop_left' rfl
  have behindOwner : (claimText exactHost owner score).drop 22 =
      middle ++ (printRational score ++ [0x7D]) := by
    rw [show 22 = 6 + 16 from rfl, ← List.drop_drop, behindFront]
    exact List.drop_left' (Hexadecimal.length_print owner)
  have behindMiddle : (claimText exactHost owner score).drop 28 = printRational score ++ [0x7D] := by
    rw [show 28 = 22 + 6 from rfl, ← List.drop_drop, behindOwner]
    exact List.drop_left' rfl
  show parseExactClaim (claimText exactHost owner score) = _
  unfold parseExactClaim
  rw [behindMiddle, behindOwner, behindFront, List.take_left' (Hexadecimal.length_print owner),
    List.dropLast_concat, readRational_print, if_pos]
  refine ⟨?_, List.take_left' rfl, ?_⟩
  · rw [text]
    exact List.take_left' rfl
  · rw [text, ← List.append_assoc, ← List.append_assoc, ← List.append_assoc]
    exact List.getLast?_concat

end Fleece
