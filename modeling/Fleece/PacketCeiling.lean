/-
This file is about `single_packet_payload_ceiling` of `fleece_reticulum.cpp`: the largest
payload that is put directly into one radio packet. What a payload may take up is cut
down to whole cipher blocks and then by the byte of padding that is always there. When
not even one block is left, taking off that byte wraps, and the ceiling is the largest
value of the type.
-/

import Mathlib

namespace Fleece

/-! ### The ceiling -/

/-- The constants of `RNS::Type` that the ceiling is computed from. -/
structure ReticulumConstants where
  mtu : ℕ+
  headerMaxsize : ℕ+
  ifacMinSize : ℕ+
  fernetOverhead : ℕ+
  keysize : ℕ+

/-- `AES128_BLOCKSIZE`, in bytes. -/
def aes128Blocksize : UInt64 := 16

namespace ReticulumConstants

variable (constants : ReticulumConstants) (radioMtu : UInt32)

/-- `mtu`: the configured one, or that of Reticulum when none is configured. -/
def effectiveMtu : UInt64 :=
  if radioMtu > 0 then radioMtu.toUInt64 else UInt64.ofNat constants.mtu

/-- What the header of a packet takes. -/
def headerBytes : Nat := constants.headerMaxsize + constants.ifacMinSize

/-- What the encryption of a payload adds. -/
def cryptoBytes : Nat := constants.fernetOverhead + constants.keysize / 16

/-- `single_packet_payload_ceiling`, in `size_t`. -/
def singlePacketPayloadCeiling : UInt64 :=
  let mtu := constants.effectiveMtu radioMtu
  let header := UInt64.ofNat constants.headerBytes
  let crypto := UInt64.ofNat constants.cryptoBytes
  if mtu ≤ header + crypto then 0
  else
    let mdu := mtu - header
    (mdu - crypto) / aes128Blocksize * aes128Blocksize - 1

/-! ### What it is for -/

/-- A payload in whole cipher blocks, with at least one byte of padding. -/
def padded (payload : Nat) : Nat := (payload / 16 + 1) * 16

/-- The padded payload, its header and what encryption adds are one packet. -/
def FitsOnePacket (payload : Nat) : Prop :=
  padded payload + constants.headerBytes + constants.cryptoBytes ≤
    (constants.effectiveMtu radioMtu).toNat

/-- Nothing is put directly into a packet, or whatever is up to the ceiling fits. -/
def CeilingSafe : Prop :=
  let ceiling := (constants.singlePacketPayloadCeiling radioMtu).toNat
  ceiling = 0 ∨
    ceiling + constants.headerBytes + constants.cryptoBytes ≤
        (constants.effectiveMtu radioMtu).toNat ∧
      ∀ payload ≤ ceiling, constants.FitsOnePacket radioMtu payload

/-- What header and encryption take, as the code adds it. -/
def overhead : Nat := (constants.headerBytes + constants.cryptoBytes) % 2 ^ 64

theorem toNat_overhead :
    (UInt64.ofNat constants.headerBytes + UInt64.ofNat constants.cryptoBytes).toNat =
      constants.overhead := by
  rw [UInt64.toNat_add, UInt64.toNat_ofNat', UInt64.toNat_ofNat', ← Nat.add_mod, overhead]

variable {constants radioMtu}

theorem ceiling_of_le (low : (constants.effectiveMtu radioMtu).toNat ≤ constants.overhead) :
    constants.singlePacketPayloadCeiling radioMtu = 0 := by
  rw [← toNat_overhead] at low
  exact if_pos low

/-- What is left for the payload, and the ceiling as the last step wraps it. -/
theorem toNat_ceiling (high : constants.overhead < (constants.effectiveMtu radioMtu).toNat) :
    (constants.singlePacketPayloadCeiling radioMtu).toNat =
      (((constants.effectiveMtu radioMtu).toNat - constants.overhead) / 16 * 16 + (2 ^ 64 - 1)) %
        2 ^ 64 := by
  rw [← toNat_overhead] at high ⊢
  have above : ¬ constants.effectiveMtu radioMtu ≤
      UInt64.ofNat constants.headerBytes + UInt64.ofNat constants.cryptoBytes := not_le.mpr high
  simp only [singlePacketPayloadCeiling, if_neg above]
  generalize constants.effectiveMtu radioMtu = mtu at high ⊢
  generalize UInt64.ofNat constants.headerBytes = header at high ⊢
  generalize UInt64.ofNat constants.cryptoBytes = crypto at high ⊢
  have left : (mtu - header - crypto).toNat = mtu.toNat - (header + crypto).toNat := by
    have word := mtu.toNat_lt
    have headerWord := header.toNat_lt
    have cryptoWord := crypto.toNat_lt
    rw [UInt64.toNat_add] at high ⊢
    rw [UInt64.toNat_sub, UInt64.toNat_sub]
    omega
  have word := mtu.toNat_lt
  rw [UInt64.toNat_sub, UInt64.toNat_mul, UInt64.toNat_div, left]
  show (2 ^ 64 - 1 + (mtu.toNat - (header + crypto).toNat) / 16 * 16 % 2 ^ 64) % 2 ^ 64 = _
  omega

/-- Less than a block is left. -/
theorem ceiling_wraps (high : constants.overhead < (constants.effectiveMtu radioMtu).toNat)
    (low : (constants.effectiveMtu radioMtu).toNat < constants.overhead + 16) :
    (constants.singlePacketPayloadCeiling radioMtu).toNat = 2 ^ 64 - 1 := by
  rw [toNat_ceiling high, Nat.div_eq_of_lt (by omega)]
  rfl

/-- At least a block is left. -/
theorem ceiling_of_ge (room : constants.overhead + 16 ≤ (constants.effectiveMtu radioMtu).toNat) :
    (constants.singlePacketPayloadCeiling radioMtu).toNat + 1 =
      ((constants.effectiveMtu radioMtu).toNat - constants.overhead) / 16 * 16 := by
  have word := (constants.effectiveMtu radioMtu).toNat_lt
  rw [toNat_ceiling (by omega)]
  omega

/-- The ceiling is safe unless header and encryption leave something, but less than a block. -/
theorem ceilingSafe_iff (constants : ReticulumConstants) (radioMtu : UInt32) :
    constants.CeilingSafe radioMtu ↔
      (constants.effectiveMtu radioMtu).toNat ≤
          (constants.headerBytes + constants.cryptoBytes) % 2 ^ 64 ∨
        constants.headerBytes + constants.cryptoBytes + 16 ≤
          (constants.effectiveMtu radioMtu).toNat := by
  have word := (constants.effectiveMtu radioMtu).toNat_lt
  have cut : constants.overhead = (constants.headerBytes + constants.cryptoBytes) % 2 ^ 64 := rfl
  rw [← cut, CeilingSafe]
  constructor
  · intro safe
    by_contra neither
    obtain ⟨high, low⟩ := not_or.mp neither
    rw [not_le] at high low
    rcases lt_or_ge (constants.effectiveMtu radioMtu).toNat (constants.overhead + 16) with
      band | room
    · have wrapped := ceiling_wraps high band
      rw [wrapped] at safe
      rcases safe with zero | ⟨fits, -⟩
      · omega
      · omega
    · have whole := ceiling_of_ge room
      rcases safe with zero | ⟨fits, -⟩
      · omega
      · omega
  · rintro (low | room)
    · left
      rw [ceiling_of_le low]
      rfl
    · have sum : constants.overhead = constants.headerBytes + constants.cryptoBytes :=
        Nat.mod_eq_of_lt (by omega)
      have whole := ceiling_of_ge (sum ▸ room)
      refine .inr ⟨by omega, fun payload small => ?_⟩
      rw [FitsOnePacket, padded]
      omega

end ReticulumConstants

/-- Constants of the size that Reticulum has. -/
def reticulumExample : ReticulumConstants where
  mtu := 500
  headerMaxsize := 35
  ifacMinSize := 1
  fernetOverhead := 48
  keysize := 512

/-- A packet of 120 bytes has 4 left beside header and encryption, and everything is put into it. -/
theorem ceiling_everything : reticulumExample.singlePacketPayloadCeiling 120 = 0xFFFFFFFFFFFFFFFF ∧
    ¬ reticulumExample.CeilingSafe 120 := by
  refine ⟨by decide +kernel, fun safe => ?_⟩
  rcases safe with zero | ⟨fits, -⟩
  · exact absurd zero (by decide +kernel)
  · exact absurd fits (by decide +kernel)

end Fleece
