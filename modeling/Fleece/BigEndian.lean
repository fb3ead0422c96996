/-
This file builds the big-endian layout of a 64-bit word in a byte list and the
loop that reads it back. The writer emits the low `count` bytes of a word, most
significant first; the reader shifts an accumulator left by eight and takes in
one byte per step. Reading back what was written appends the low bytes of the
word to the accumulator, so that a word which fits its width is recovered
exactly.
-/

import Mathlib

namespace Fleece

/-! ### Writing and reading -/

/-- The low `count` bytes of a word, most significant byte first. -/
def bigEndian : Nat → UInt64 → List UInt8
  | 0, _ => []
  | count + 1, value => (value >>> UInt64.ofNat (8 * count)).toUInt8 :: bigEndian count value

/-- One step of the reading loop: `v = (v << 8) | byte`. -/
def shiftIn (value : UInt64) (byte : UInt8) : UInt64 := (value <<< 8) ||| byte.toUInt64

@[simp] theorem length_bigEndian (count : Nat) (value : UInt64) :
    (bigEndian count value).length = count := by
  induction count with
  | zero => rfl
  | succ count inductionHypothesis => rw [bigEndian, List.length_cons, inductionHypothesis]

/-! ### Reading back what was written -/

theorem shiftIn_toNat (value : UInt64) (byte : UInt8) :
    (shiftIn value byte).toNat = (value.toNat * 256 + byte.toNat) % 2 ^ 64 := by
  have byteLt : byte.toNat < 2 ^ 8 := byte.toNat_lt
  have shifted : (value.toNat <<< 8) % 2 ^ 64 = (value.toNat % 2 ^ 56) <<< 8 := by
    simp only [Nat.shiftLeft_eq]
    omega
  rw [shiftIn, UInt64.toNat_or, UInt64.toNat_shiftLeft, UInt8.toNat_toUInt64,
    show (8 : UInt64).toNat % 64 = 8 from rfl, shifted,
    ← Nat.shiftLeft_add_eq_or_of_lt byteLt, Nat.shiftLeft_eq]
  omega

theorem bigEndian_head_toNat (count : Nat) (small : count < 8) (value : UInt64) :
    (value >>> UInt64.ofNat (8 * count)).toUInt8.toNat = value.toNat / 256 ^ count % 256 := by
  have shift : (UInt64.ofNat (8 * count)).toNat % 64 = 8 * count := by
    rw [UInt64.toNat_ofNat', Nat.mod_eq_of_lt (by omega), Nat.mod_eq_of_lt (by omega)]
  rw [UInt64.toNat_toUInt8, UInt64.toNat_shiftRight, shift, Nat.shiftRight_eq_div_pow, Nat.pow_mul]

/-- Reading the bytes of a word appends its low bytes to the accumulator. -/
theorem foldl_shiftIn_bigEndian (count : Nat) (bound : count ≤ 8) (start value : UInt64) :
    ((bigEndian count value).foldl shiftIn start).toNat =
      (start.toNat * 256 ^ count + value.toNat % 256 ^ count) % 2 ^ 64 := by
  induction count generalizing start with
  | zero =>
    rw [bigEndian, List.foldl_nil, Nat.pow_zero, Nat.mul_one, Nat.mod_one, Nat.add_zero,
      Nat.mod_eq_of_lt start.toNat_lt]
  | succ count inductionHypothesis =>
    have split : value.toNat % 256 ^ (count + 1) =
        value.toNat % 256 ^ count + 256 ^ count * (value.toNat / 256 ^ count % 256) :=
      Nat.mod_pow_succ
    have step : start.toNat * 256 ^ (count + 1) + value.toNat % 256 ^ (count + 1) =
        (start.toNat * 256 + value.toNat / 256 ^ count % 256) * 256 ^ count +
          value.toNat % 256 ^ count := by
      rw [split]
      ring
    rw [bigEndian, List.foldl_cons, inductionHypothesis (by omega), shiftIn_toNat,
      bigEndian_head_toNat count (by omega), step, Nat.add_mod, Nat.mod_mul_mod, ← Nat.add_mod]

/-- A word that fits its width is recovered exactly. -/
theorem foldl_shiftIn_bigEndian_zero (count : Nat) (bound : count ≤ 8) (value : UInt64)
    (fits : value.toNat < 256 ^ count) : (bigEndian count value).foldl shiftIn 0 = value := by
  apply UInt64.toNat_inj.mp
  rw [foldl_shiftIn_bigEndian count bound, UInt64.toNat_zero, Nat.zero_mul, Nat.zero_add,
    Nat.mod_eq_of_lt fits, Nat.mod_eq_of_lt value.toNat_lt]

end Fleece
