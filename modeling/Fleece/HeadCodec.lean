/-
This file states the contract of the CBOR head codec at a position of a buffer: a head
is written in its width and nothing beside it, it is read back, no proper prefix of it
is read, no read leaves the buffer, and the bounds check is the comparison of integers.

The check in front of the initial byte adds one to the position, in the width of a
`size_t`. A position in a buffer is at most its size, a `uint32_t`, so the sum is exact;
the contract needs no more of the position than that.
-/

import Fleece.Cbor

namespace Fleece

/-! ### Writing into a buffer -/

/-- `buf[(*pos)++] = ...` for each byte. -/
def putBytes (buf : List UInt8) (pos : Nat) : List UInt8 → List UInt8 × Nat
  | [] => (buf, pos)
  | byte :: rest => putBytes (buf.set pos byte) (pos + 1) rest

/-- `fleece_cbor_write_head` on a buffer with room. -/
def writeHeadAt (buf : List UInt8) (pos : Nat) (major : UInt8) (value : UInt64) :
    List UInt8 × Nat :=
  putBytes buf pos (writeHead major value)

/-- The bytes in front of those written, and those behind, stay. -/
theorem putBytes_append (before old after bytes : List UInt8) (room : old.length = bytes.length) :
    putBytes (before ++ old ++ after) before.length bytes =
      (before ++ bytes ++ after, before.length + bytes.length) := by
  induction bytes generalizing before old with
  | nil =>
    obtain rfl := List.length_eq_zero_iff.mp room
    rfl
  | cons byte rest inductionHypothesis =>
    obtain ⟨first, others, rfl⟩ := List.exists_cons_of_length_eq_add_one room
    have next := inductionHypothesis (before ++ [byte]) others (Nat.succ.inj room)
    rw [List.length_append, List.length_singleton] at next
    have written : (before ++ first :: others ++ after).set before.length byte =
        before ++ [byte] ++ others ++ after := by
      rw [List.append_assoc, List.set_append_right _ _ le_rfl, Nat.sub_self]
      simp
    rw [putBytes, written, next, List.length_cons]
    simp only [List.append_assoc, List.cons_append, List.nil_append, Nat.add_assoc, Nat.add_comm 1]

/-- A window of a buffer. -/
theorem buffer_split (buf : List UInt8) (pos len : Nat) :
    buf.take pos ++ (buf.drop pos).take len ++ buf.drop (pos + len) = buf := by
  rw [List.append_assoc, ← List.drop_drop, List.take_append_drop, List.take_append_drop]

/-! ### The contract -/

/-- What the codec does at a position. -/
structure HeadCodec (pos : Nat) : Prop where
  /-- Exactly `uintSize` bytes are written. -/
  written : ∀ (buf : List UInt8) (major : UInt8) (value : UInt64),
    pos + uintSize value ≤ buf.length →
      writeHeadAt buf pos major value =
        (buf.take pos ++ writeHead major value ++ buf.drop (pos + uintSize value),
          pos + uintSize value)
  /-- The head is read back, whatever is before and behind it. -/
  readBack : ∀ (buf : List UInt8) (major : UInt8) (value : UInt64), major < 8 →
    buf.length < 2 ^ 32 → pos + uintSize value ≤ buf.length →
      readHead (writeHeadAt buf pos major value).1 buf.length pos =
        .ok ⟨major, value, pos + uintSize value⟩
  /-- No proper prefix is read. -/
  cut : ∀ (buf : List UInt8) (major : UInt8) (value : UInt64) (size : Nat), major < 8 →
    buf.length < 2 ^ 32 → pos + uintSize value ≤ buf.length → size < pos + uintSize value →
      readHead ((writeHeadAt buf pos major value).1.take size) size pos = .error .rejected
  /-- No read leaves the buffer, and one that succeeds moves the position by a width. -/
  inside : ∀ buf : List UInt8, buf.length < 2 ^ 32 →
    readHead buf buf.length pos ≠ .error .outOfBounds ∧
      ∀ head, readHead buf buf.length pos = .ok head → head.pos ≤ buf.length ∧
        (head.pos = pos + 1 ∨ head.pos = pos + 2 ∨ head.pos = pos + 3 ∨ head.pos = pos + 5 ∨
          head.pos = pos + 9)
  bounds : ∀ (len : UInt64) (size : Nat), boundsOk pos len size = true ↔ pos + len.toNat ≤ size

section Position

variable {pos : Nat}

theorem writeHeadAt_eq {buf : List UInt8} (major : UInt8) {value : UInt64}
    (room : pos + uintSize value ≤ buf.length) :
    writeHeadAt buf pos major value =
      (buf.take pos ++ writeHead major value ++ buf.drop (pos + uintSize value),
        pos + uintSize value) := by
  have front : (buf.take pos).length = pos := List.length_take_of_le (by omega)
  have window : ((buf.drop pos).take (uintSize value)).length = (writeHead major value).length := by
    rw [length_writeHead, List.length_take_of_le]
    rw [List.length_drop]
    omega
  have put := putBytes_append (buf.take pos) _ (buf.drop (pos + uintSize value)) _ window
  rwa [buffer_split, front, length_writeHead] at put

theorem readHead_written {buf : List UInt8} {major : UInt8} {value : UInt64} (majorLt : major < 8)
    (short : buf.length < 2 ^ 32) (room : pos + uintSize value ≤ buf.length) :
    readHead (writeHeadAt buf pos major value).1 buf.length pos =
      .ok ⟨major, value, pos + uintSize value⟩ := by
  refine readHead_of_holdsAt major value majorLt ?_ room (short.trans (by decide))
  rw [writeHeadAt_eq major room]
  have front : (buf.take pos).length = pos := List.length_take_of_le (by omega)
  refine ⟨buf.drop (pos + uintSize value), ?_⟩
  rw [List.append_assoc, List.drop_append_of_le_length front.ge, List.drop_of_length_le front.le,
    List.nil_append]

theorem readHead_cut_written {buf : List UInt8} {major : UInt8} {value : UInt64} {size : Nat}
    (majorLt : major < 8) (short : buf.length < 2 ^ 32)
    (room : pos + uintSize value ≤ buf.length) (less : size < pos + uintSize value) :
    readHead ((writeHeadAt buf pos major value).1.take size) size pos = .error .rejected := by
  have whole := readHead_written majorLt short room
  have length : (writeHeadAt buf pos major value).1.length = buf.length := by
    rw [writeHeadAt_eq major room]
    simp only [List.length_append, List.length_take, List.length_drop, length_writeHead]
    omega
  have front : ((writeHeadAt buf pos major value).1.take size).length = size :=
    List.length_take_of_le (by omega)
  rcases readHead_cases front.ge pos (by omega) with refused | ⟨head, read, inside, -⟩
  · exact refused
  · -- a head of the prefix would be the head of the whole, which ends behind the prefix
    rw [readHead_cut (List.take_prefix _ _) (by omega : size ≤ buf.length) pos read] at whole
    obtain rfl := Except.ok.inj whole
    exact absurd inside (not_le.mpr less)

theorem readHead_inside (small : pos + 1 < 2 ^ 64) {buf : List UInt8} (short : buf.length < 2 ^ 32) :
    readHead buf buf.length pos ≠ .error .outOfBounds ∧
      ∀ head, readHead buf buf.length pos = .ok head → head.pos ≤ buf.length ∧
        (head.pos = pos + 1 ∨ head.pos = pos + 2 ∨ head.pos = pos + 3 ∨ head.pos = pos + 5 ∨
          head.pos = pos + 9) := by
  by_cases near : pos < 2 ^ 63
  · rcases readHead_cases (le_refl buf.length) pos near with refused | ⟨head, read, inside, width⟩
    · rw [refused]
      exact ⟨nofun, nofun⟩
    · rw [read]
      refine ⟨nofun, fun other same => ?_⟩
      obtain rfl := Except.ok.inj same
      exact ⟨inside, width⟩
  · have refused : readHead buf buf.length pos = .error .rejected := by
      rw [readHead, sizeAdd_eq small, if_pos (by omega)]
    rw [refused]
    exact ⟨nofun, nofun⟩

/-- The codec meets its contract at every position that a `size_t` counts past, and so at every
position in a buffer or at its end. -/
theorem headCodec_of_lt (small : pos + 1 < 2 ^ 64) : HeadCodec pos where
  written _ major _ room := writeHeadAt_eq major room
  readBack _ _ _ majorLt short room := readHead_written majorLt short room
  cut _ _ _ _ majorLt short room less := readHead_cut_written majorLt short room less
  inside _ short := readHead_inside small short
  bounds _ _ := boundsOk_iff

end Position

/-- Behind the prefix of a plan blob, where its decoder starts. -/
theorem headCodec_of_lt_prefix : HeadCodec 3 ∧
    readHead (writeHeadAt [0x46, 0x50, 2, 0, 0, 0, 0, 0xFF] 3 4 70000).1 8 3 =
      .ok ⟨4, 70000, 8⟩ :=
  ⟨headCodec_of_lt (by decide),
    (headCodec_of_lt (by decide)).readBack _ _ _ (by decide) (by decide) (by decide)⟩

end Fleece
