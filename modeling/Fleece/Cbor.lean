/-
This file models `fleece_cbor.c`, the codec under the gossip frames, the control
frames and the plan blobs. An encoder is the list of bytes it writes; a decoder
is a function of a buffer, its size and a position, as in the source, and a read
outside the buffer is a halt of its own, `outOfBounds`, distinct from the
`return false` of a rejected encoding. A definition carries the name of the
source function it models, without the `fleece_cbor_` prefix.

Three facts about a head carry every later argument about frames: a head that was
written is read back with its value and its width, a successful read moves the
position forward and keeps it inside the buffer, and no read of the decoder ever
leaves the buffer. A fourth, that a read which succeeds on a prefix of a buffer
succeeds alike on the whole, is what a frame cut at a 32-bit size needs.
-/

import Fleece.BigEndian
import Fleece.Binary64

namespace Fleece

/-! ### Sizing -/

/-- The width of the head of an argument (`fleece_cbor_uint_size`). -/
def uintSize (value : UInt64) : Nat :=
  if value < 24 then 1
  else if value ≤ 0xFF then 2
  else if value ≤ 0xFFFF then 3
  else if value ≤ 0xFFFFFFFF then 5
  else 9

/-- `fleece_cbor_bytes_size`. -/
def bytesSize (len : Nat) : Nat := uintSize (UInt64.ofNat len) + len

/-- `fleece_cbor_text_size`. -/
def textSize (len : Nat) : Nat := uintSize (UInt64.ofNat len) + len

/-- `fleece_cbor_array_header_size`. -/
def arrayHeaderSize (count : Nat) : Nat := uintSize (UInt64.ofNat count)

/-- The numbers that are written as whole ones: the condition `num_size` and `write_num` share,
whose cast to `uint64_t` drops what is behind the point. -/
def numIsUint (v : Binary64) : Bool :=
  v.ge .zero && v.lt .two64 && v.eq (.ofNat v.trunc)

/-- `fleece_cbor_num_size`: a number that is an unsigned integer takes the width of one. -/
def numSize (v : Binary64) : Nat := if numIsUint v then uintSize (UInt64.ofNat v.trunc) else 9

/-! ### Encoding -/

/-- `fleece_cbor_write_head`: the initial byte, then the argument in the shortest of five
widths. -/
def writeHead (major : UInt8) (value : UInt64) : List UInt8 :=
  let mt := major <<< 5
  if value < 24 then [mt ||| value.toUInt8]
  else if value ≤ 0xFF then (mt ||| 24) :: bigEndian 1 value
  else if value ≤ 0xFFFF then (mt ||| 25) :: bigEndian 2 value
  else if value ≤ 0xFFFFFFFF then (mt ||| 26) :: bigEndian 4 value
  else (mt ||| 27) :: bigEndian 8 value

/-- `fleece_cbor_write_uint`, of major type 0. -/
def writeUint (value : UInt64) : List UInt8 := writeHead 0 value

/-- `fleece_cbor_write_array_header`, of major type 4. -/
def writeArrayHeader (count : Nat) : List UInt8 := writeHead 4 (UInt64.ofNat count)

/-- `fleece_cbor_write_bytes`: a head of major type 2 and the bytes. -/
def writeBytes (data : List UInt8) : List UInt8 := writeHead 2 (UInt64.ofNat data.length) ++ data

/-- `fleece_cbor_write_text`: a head of major type 3 and the bytes. -/
def writeText (text : List UInt8) : List UInt8 := writeHead 3 (UInt64.ofNat text.length) ++ text

/-- `fleece_cbor_write_bool`. -/
def writeBool (value : Bool) : List UInt8 := [if value then 0xF5 else 0xF4]

/-- `fleece_cbor_write_num`: an unsigned integer where the number is one, else a binary64. -/
def writeNum (v : Binary64) : List UInt8 :=
  if numIsUint v then writeUint (UInt64.ofNat v.trunc) else 0xFB :: bigEndian 8 v.bits

/-! ### Decoding -/

/-- Why a decoder stops early: the source returns `false` (or `-1`), or a byte outside the
buffer would be read. -/
inductive Halt
  | rejected
  | outOfBounds
  deriving DecidableEq, Repr

/-- `buf[index]`; a read outside the buffer is an outcome of its own. -/
def byteAt (buf : List UInt8) (index : Nat) : Except Halt UInt8 :=
  match buf[index]? with
  | some byte => .ok byte
  | none => .error .outOfBounds

/-- The `len` bytes from `&buf[pos]`. -/
def slice (buf : List UInt8) (pos len : Nat) : Except Halt (List UInt8) :=
  if pos + len ≤ buf.length then .ok ((buf.drop pos).take len) else .error .outOfBounds

/-- The addition of two values of `size_t`. -/
def sizeAdd (first second : Nat) : Nat := (first + second) % 2 ^ 64

/-- The major type and the argument of a head, and the position after it. -/
structure Head where
  major : UInt8
  value : UInt64
  pos : Nat
  deriving DecidableEq

/-- The argument loop `for (...) v = (v << 8) | buf[(*pos)++]`. -/
def readArgument (buf : List UInt8) : Nat → Nat → UInt64 → Except Halt UInt64
  | 0, _, value => .ok value
  | count + 1, pos, value => do
    let byte ← byteAt buf pos
    readArgument buf count (pos + 1) (shiftIn value byte)

/-- An argument of `count` bytes after the initial byte. -/
def readWide (buf : List UInt8) (size pos count : Nat) (major : UInt8) : Except Halt Head :=
  if sizeAdd pos count > size then .error .rejected
  else do
    let value ← readArgument buf count pos 0
    .ok ⟨major, value, pos + count⟩

/-- `fleece_cbor_read_head`. -/
def readHead (buf : List UInt8) (size pos : Nat) : Except Halt Head :=
  if sizeAdd pos 1 > size then .error .rejected
  else do
    let initial ← byteAt buf pos
    let major := initial >>> 5
    let info := initial &&& 0x1F
    if info < 24 then .ok ⟨major, info.toUInt64, pos + 1⟩
    else if info = 24 then readWide buf size (pos + 1) 1 major
    else if info = 25 then readWide buf size (pos + 1) 2 major
    else if info = 26 then readWide buf size (pos + 1) 4 major
    else if info = 27 then readWide buf size (pos + 1) 8 major
    else .error .rejected

/-- `fleece_cbor_bounds_ok`, written so that it does not wrap. -/
def boundsOk (pos : Nat) (len : UInt64) (size : Nat) : Bool :=
  decide (len.toNat ≤ size) && decide (pos ≤ size - len.toNat)

/-- `fleece_cbor_read_num`: a whole number of any width, or a float64 whose pattern is the argument
of its head. -/
def readNum (buf : List UInt8) (size pos : Nat) : Except Halt (Binary64 × Nat) :=
  if pos ≥ size then .error .rejected
  else do
    let initial ← byteAt buf pos
    let head ← readHead buf size pos
    if head.major = 0 then .ok (.ofNat head.value.toNat, head.pos)
    else if initial = 0xFB then .ok (⟨head.value⟩, head.pos)
    else .error .rejected

/-! ### Sizes of what is written -/

@[simp] theorem length_writeHead (major : UInt8) (value : UInt64) :
    (writeHead major value).length = uintSize value := by
  unfold writeHead uintSize
  simp only
  split_ifs <;> simp

@[simp] theorem length_writeUint (value : UInt64) : (writeUint value).length = uintSize value :=
  length_writeHead 0 value

@[simp] theorem length_writeArrayHeader (count : Nat) :
    (writeArrayHeader count).length = arrayHeaderSize count :=
  length_writeHead 4 _

@[simp] theorem length_writeBytes (data : List UInt8) :
    (writeBytes data).length = bytesSize data.length := by
  rw [writeBytes, List.length_append, length_writeHead, bytesSize]

@[simp] theorem length_writeText (text : List UInt8) :
    (writeText text).length = textSize text.length := by
  rw [writeText, List.length_append, length_writeHead, textSize]

@[simp] theorem length_writeBool (value : Bool) : (writeBool value).length = 1 := rfl

@[simp] theorem length_writeNum (v : Binary64) : (writeNum v).length = numSize v := by
  unfold writeNum numSize
  split_ifs
  · exact length_writeUint _
  · rw [List.length_cons, length_bigEndian]

theorem uintSize_pos (value : UInt64) : 0 < uintSize value := by
  unfold uintSize
  split_ifs <;> omega

theorem uintSize_le (value : UInt64) : uintSize value ≤ 9 := by
  unfold uintSize
  split_ifs <;> omega

/-! ### Bytes at a position -/

/-- The buffer holds the bytes `bytes` from position `pos` on. -/
def HoldsAt (buf : List UInt8) (pos : Nat) (bytes : List UInt8) : Prop := bytes <+: buf.drop pos

theorem holdsAt_append {buf first second : List UInt8} {pos : Nat} :
    HoldsAt buf pos (first ++ second) ↔
      HoldsAt buf pos first ∧ HoldsAt buf (pos + first.length) second := by
  unfold HoldsAt
  constructor
  · rintro ⟨rest, whole⟩
    refine ⟨⟨second ++ rest, by rw [← whole, List.append_assoc]⟩, rest, ?_⟩
    rw [← List.drop_drop, ← whole, List.append_assoc, List.drop_left]
  · rintro ⟨⟨rest, whole⟩, tail⟩
    rw [← List.drop_drop, ← whole, List.drop_left] at tail
    obtain ⟨last, tail⟩ := tail
    exact ⟨last, by rw [← whole, ← tail, List.append_assoc]⟩

theorem HoldsAt.length_le {buf bytes : List UInt8} {pos : Nat} (held : HoldsAt buf pos bytes)
    (start : pos ≤ buf.length) : pos + bytes.length ≤ buf.length := by
  have shorter := List.IsPrefix.length_le held
  rw [List.length_drop] at shorter
  omega

theorem HoldsAt.byteAt {buf bytes : List UInt8} {pos : Nat} {byte : UInt8}
    (held : HoldsAt buf pos (byte :: bytes)) : byteAt buf pos = .ok byte := by
  obtain ⟨rest, whole⟩ := held
  have found : buf[pos]? = some byte := by
    rw [← List.head?_drop, ← whole, List.cons_append, List.head?_cons]
  rw [Fleece.byteAt, found]

theorem HoldsAt.tail {buf bytes : List UInt8} {pos : Nat} {byte : UInt8}
    (held : HoldsAt buf pos (byte :: bytes)) : HoldsAt buf (pos + 1) bytes :=
  (holdsAt_append.mp (show HoldsAt buf pos ([byte] ++ bytes) from held)).2

theorem HoldsAt.slice {buf bytes : List UInt8} {pos : Nat} (held : HoldsAt buf pos bytes)
    (start : pos ≤ buf.length) : slice buf pos bytes.length = .ok bytes := by
  rw [Fleece.slice, if_pos (held.length_le start)]
  obtain ⟨rest, whole⟩ := held
  rw [← whole, List.take_left]

/-! ### Reading back a head -/

theorem sizeAdd_eq {first second : Nat} (small : first + second < 2 ^ 64) :
    sizeAdd first second = first + second := Nat.mod_eq_of_lt small

theorem readArgument_of_holdsAt {buf bytes : List UInt8} {pos : Nat} (start : UInt64)
    (held : HoldsAt buf pos bytes) :
    readArgument buf bytes.length pos start = .ok (bytes.foldl shiftIn start) := by
  induction bytes generalizing pos start with
  | nil => rfl
  | cons byte rest inductionHypothesis =>
    rw [List.length_cons, readArgument, held.byteAt]
    exact inductionHypothesis (shiftIn start byte) held.tail

theorem readWide_of_holdsAt {buf : List UInt8} {size pos : Nat} (count : Nat) (major : UInt8)
    (value : UInt64) (held : HoldsAt buf pos (bigEndian count value)) (bound : count ≤ 8)
    (fits : value.toNat < 256 ^ count) (inside : pos + count ≤ size) (small : size < 2 ^ 63) :
    readWide buf size pos count major = .ok ⟨major, value, pos + count⟩ := by
  have whole := readArgument_of_holdsAt 0 held
  rw [length_bigEndian, foldl_shiftIn_bigEndian_zero count bound value fits] at whole
  rw [readWide, sizeAdd_eq (by omega), if_neg (by omega), whole]
  rfl

/-- The two parts of an initial byte. -/
theorem initial_parts (major info : UInt8) (majorLt : major < 8) (infoLt : info < 32) :
    ((major <<< 5) ||| info) >>> 5 = major ∧ ((major <<< 5) ||| info) &&& 0x1F = info := by
  have majorNat : major.toNat < 8 := majorLt
  have infoNat : info.toNat < 2 ^ 5 := infoLt
  have joined : ((major <<< 5) ||| info).toNat = major.toNat * 32 + info.toNat := by
    have shifted : (major.toNat <<< 5) % 2 ^ 8 = major.toNat <<< 5 := by
      rw [Nat.shiftLeft_eq]
      omega
    rw [UInt8.toNat_or, UInt8.toNat_shiftLeft, show (5 : UInt8).toNat % 8 = 5 from rfl, shifted,
      ← Nat.shiftLeft_add_eq_or_of_lt infoNat, Nat.shiftLeft_eq]
  constructor
  · apply UInt8.toNat_inj.mp
    rw [UInt8.toNat_shiftRight, joined, show (5 : UInt8).toNat % 8 = 5 from rfl,
      Nat.shiftRight_eq_div_pow]
    omega
  · apply UInt8.toNat_inj.mp
    rw [UInt8.toNat_and, joined, show (0x1F : UInt8).toNat = 2 ^ 5 - 1 from rfl,
      Nat.and_two_pow_sub_one_eq_mod]
    omega

/-- A head that was written is read back with its major type, its argument and its width. -/
theorem readHead_of_holdsAt {buf : List UInt8} {size pos : Nat} (major : UInt8) (value : UInt64)
    (majorLt : major < 8) (held : HoldsAt buf pos (writeHead major value))
    (inside : pos + uintSize value ≤ size) (small : size < 2 ^ 63) :
    readHead buf size pos = .ok ⟨major, value, pos + uintSize value⟩ := by
  have positive := uintSize_pos value
  -- one case per width; the initial byte is the same computation in all five
  have wide (info : UInt8) (count : Nat) (infoLt : info < 32) (bound : count ≤ 8)
      (shape : writeHead major value = ((major <<< 5) ||| info) :: bigEndian count value)
      (width : uintSize value = 1 + count) (fits : value.toNat < 256 ^ count) :
      byteAt buf pos = .ok ((major <<< 5) ||| info) ∧
        readWide buf size (pos + 1) count major = .ok ⟨major, value, pos + uintSize value⟩ := by
    rw [shape] at held
    rw [width] at inside ⊢
    refine ⟨held.byteAt, ?_⟩
    rw [readWide_of_holdsAt count major value held.tail bound fits (by omega) small,
      Nat.add_assoc]
  rw [readHead, sizeAdd_eq (by omega), if_neg (by omega)]
  by_cases tiny : value < 24
  · have infoNat : value.toNat < 24 := tiny
    have low : value.toUInt8.toNat = value.toNat := by
      rw [UInt64.toNat_toUInt8]
      omega
    have infoLt : value.toUInt8 < 24 := by
      rw [UInt8.lt_iff_toNat_lt, low]
      exact infoNat
    obtain ⟨high, rest⟩ := initial_parts major value.toUInt8 majorLt
      (by rw [UInt8.lt_iff_toNat_lt, low]; exact lt_trans infoNat (by decide))
    have back : value.toUInt8.toUInt64 = value := by
      apply UInt64.toNat_inj.mp
      rw [UInt8.toNat_toUInt64, low]
    rw [writeHead, if_pos tiny] at held
    rw [held.byteAt]
    simp only [bind, Except.bind, high, rest, if_pos infoLt, back, uintSize, if_pos tiny]
  · rcases le_or_gt value.toNat 0xFF with small8 | large8
    · have le8 : value ≤ 0xFF := small8
      obtain ⟨first, rest⟩ := wide 24 1 (by decide) (by decide)
        (by simp only [writeHead, if_neg tiny, if_pos le8])
        (by simp only [uintSize, if_neg tiny, if_pos le8]) (by omega)
      obtain ⟨high, info⟩ := initial_parts major 24 majorLt (by decide)
      rw [first]
      simpa [bind, Except.bind, high, info] using rest
    · have gt8 : ¬ value ≤ 0xFF := not_le.mpr large8
      rcases le_or_gt value.toNat 0xFFFF with small16 | large16
      · have le16 : value ≤ 0xFFFF := small16
        obtain ⟨first, rest⟩ := wide 25 2 (by decide) (by decide)
          (by simp only [writeHead, if_neg tiny, if_neg gt8, if_pos le16])
          (by simp only [uintSize, if_neg tiny, if_neg gt8, if_pos le16]) (by omega)
        obtain ⟨high, info⟩ := initial_parts major 25 majorLt (by decide)
        rw [first]
        simpa [bind, Except.bind, high, info] using rest
      · have gt16 : ¬ value ≤ 0xFFFF := not_le.mpr large16
        rcases le_or_gt value.toNat 0xFFFFFFFF with small32 | large32
        · have le32 : value ≤ 0xFFFFFFFF := small32
          obtain ⟨first, rest⟩ := wide 26 4 (by decide) (by decide)
            (by simp only [writeHead, if_neg tiny, if_neg gt8, if_neg gt16, if_pos le32])
            (by simp only [uintSize, if_neg tiny, if_neg gt8, if_neg gt16, if_pos le32])
            (by omega)
          obtain ⟨high, info⟩ := initial_parts major 26 majorLt (by decide)
          rw [first]
          simpa [bind, Except.bind, high, info] using rest
        · have gt32 : ¬ value ≤ 0xFFFFFFFF := not_le.mpr large32
          obtain ⟨first, rest⟩ := wide 27 8 (by decide) (by decide)
            (by simp only [writeHead, if_neg tiny, if_neg gt8, if_neg gt16, if_neg gt32])
            (by simp only [uintSize, if_neg tiny, if_neg gt8, if_neg gt16, if_neg gt32])
            value.toNat_lt
          obtain ⟨high, info⟩ := initial_parts major 27 majorLt (by decide)
          rw [first]
          simpa [bind, Except.bind, high, info] using rest

/-! ### Reading back a number -/

theorem numIsUint_of_zero {v : Binary64} (nothing : v.magnitude = 0) : numIsUint v = true := by
  have number : v.isNan = false := by
    rw [Binary64.isNan, nothing]
    rfl
  unfold numIsUint Binary64.ge Binary64.lt Binary64.eq
  rw [Binary64.trunc_of_zero nothing, Binary64.order_of_zero nothing, number]
  rfl

theorem numSize_pos (v : Binary64) : 0 < numSize v := by
  unfold numSize
  split_ifs
  · exact uintSize_pos _
  · decide

theorem writeNum_unsignedZero (v : Binary64) : writeNum v.unsignedZero = writeNum v := by
  unfold Binary64.unsignedZero
  split_ifs with nothing
  · have zero : Binary64.zero.magnitude = 0 := rfl
    rw [writeNum, writeNum, if_pos (numIsUint_of_zero nothing), if_pos (numIsUint_of_zero zero),
      Binary64.trunc_of_zero nothing, Binary64.trunc_of_zero zero]
  · rfl

/-- A number that was written is read back, up to the sign of zero. -/
theorem readNum_of_holdsAt {buf : List UInt8} {size pos : Nat} {v : Binary64}
    (held : HoldsAt buf pos (writeNum v)) (inside : pos + numSize v ≤ size) (small : size < 2 ^ 63) :
    readNum buf size pos = .ok (v.unsignedZero, pos + numSize v) := by
  have positive := numSize_pos v
  rw [readNum, if_neg (by omega)]
  unfold writeNum at held
  unfold numSize at inside ⊢
  by_cases isUint : numIsUint v = true
  · rw [if_pos isUint] at held inside ⊢
    have initial : ∃ byte, byteAt buf pos = .ok byte := by
      obtain ⟨byte, rest, shape⟩ := List.exists_cons_of_length_pos
        (show 0 < (writeUint (UInt64.ofNat v.trunc)).length by simp [uintSize_pos])
      rw [shape] at held
      exact ⟨byte, held.byteAt⟩
    obtain ⟨byte, first⟩ := initial
    rw [first]
    simp only [bind, Except.bind]
    rw [readHead_of_holdsAt 0 _ (by decide) held inside small]
    simp only [if_pos]
    rw [numIsUint, Bool.and_eq_true, Bool.and_eq_true] at isUint
    obtain ⟨⟨atLeast, below⟩, whole⟩ := isUint
    rw [Binary64.eq_ofNat_trunc atLeast below] at whole
    rw [UInt64.toNat_ofNat_of_lt' (Binary64.trunc_lt atLeast below),
      Binary64.ofNat_trunc atLeast below whole]
  · rw [if_neg isUint] at held inside ⊢
    have wide := readWide_of_holdsAt 8 7 v.bits held.tail (by decide) v.bits.toNat_lt
      (by omega : pos + 1 + 8 ≤ size) small
    have whole : v.unsignedZero = v := by
      rw [Binary64.unsignedZero, if_neg fun nothing => isUint (numIsUint_of_zero nothing)]
    rw [held.byteAt, whole, readHead, sizeAdd_eq (by omega), if_neg (by omega), held.byteAt]
    simp only [bind, Except.bind, show (0xFB : UInt8) >>> 5 = 7 from rfl,
      show (0xFB : UInt8) &&& 0x1F = 27 from rfl]
    rw [if_neg (by decide), if_neg (by decide), if_neg (by decide), if_neg (by decide),
      if_pos trivial, wide]
    rfl

/-! ### What a read can do -/

theorem boundsOk_iff {size pos : Nat} {len : UInt64} :
    boundsOk pos len size = true ↔ pos + len.toNat ≤ size := by
  rw [boundsOk, Bool.and_eq_true, decide_eq_true_iff, decide_eq_true_iff]
  omega

theorem byteAt_of_lt {buf : List UInt8} {index : Nat} (inside : index < buf.length) :
    ∃ byte, byteAt buf index = .ok byte := by
  rw [byteAt, List.getElem?_eq_getElem inside]
  exact ⟨_, rfl⟩

theorem readArgument_of_le {buf : List UInt8} (count pos : Nat) (start : UInt64)
    (inside : pos + count ≤ buf.length) : ∃ value, readArgument buf count pos start = .ok value := by
  induction count generalizing pos start with
  | zero => exact ⟨start, rfl⟩
  | succ count inductionHypothesis =>
    obtain ⟨byte, found⟩ := byteAt_of_lt (show pos < buf.length by omega)
    rw [readArgument, found]
    exact inductionHypothesis (pos + 1) (shiftIn start byte) (by omega)

theorem readWide_cases {buf : List UInt8} {size : Nat} (whole : size ≤ buf.length) (pos count : Nat)
    (small : pos + count < 2 ^ 64) (major : UInt8) :
    readWide buf size pos count major = .error .rejected ∨
      ∃ value, readWide buf size pos count major = .ok ⟨major, value, pos + count⟩ ∧
        pos + count ≤ size := by
  rw [readWide, sizeAdd_eq small]
  by_cases inside : pos + count ≤ size
  · obtain ⟨value, found⟩ := readArgument_of_le count pos 0 (inside.trans whole)
    rw [if_neg (by omega), found]
    exact Or.inr ⟨value, rfl, inside⟩
  · rw [if_pos (by omega)]
    exact Or.inl rfl

/-- A read is refused, or it succeeds inside the buffer with one of the five widths. It never
reads outside. -/
theorem readHead_cases {buf : List UInt8} {size : Nat} (whole : size ≤ buf.length) (pos : Nat)
    (small : pos < 2 ^ 63) :
    readHead buf size pos = .error .rejected ∨
      ∃ head, readHead buf size pos = .ok head ∧ head.pos ≤ size ∧
        (head.pos = pos + 1 ∨ head.pos = pos + 2 ∨ head.pos = pos + 3 ∨ head.pos = pos + 5 ∨
          head.pos = pos + 9) := by
  rw [readHead, sizeAdd_eq (by omega)]
  by_cases inside : pos + 1 ≤ size
  · obtain ⟨initial, found⟩ := byteAt_of_lt (show pos < buf.length by omega)
    rw [if_neg (by omega), found]
    simp only [bind, Except.bind]
    have wide (count : Nat) (width : count = 1 ∨ count = 2 ∨ count = 4 ∨ count = 8) :
        readWide buf size (pos + 1) count (initial >>> 5) = .error .rejected ∨
          ∃ head, readWide buf size (pos + 1) count (initial >>> 5) = .ok head ∧
            head.pos ≤ size ∧ (head.pos = pos + 1 ∨ head.pos = pos + 2 ∨ head.pos = pos + 3 ∨
              head.pos = pos + 5 ∨ head.pos = pos + 9) := by
      rcases readWide_cases whole (pos + 1) count (by omega) (initial >>> 5) with
        refused | ⟨value, read, bound⟩
      · exact Or.inl refused
      · exact Or.inr ⟨_, read, bound, by simp only; omega⟩
    split_ifs
    · exact Or.inr ⟨_, rfl, inside, Or.inl rfl⟩
    · exact wide 1 (by omega)
    · exact wide 2 (by omega)
    · exact wide 4 (by omega)
    · exact wide 8 (by omega)
    · exact Or.inl rfl
  · rw [if_pos (by omega)]
    exact Or.inl rfl

/-! ### Reads on a prefix of a buffer -/

theorem byteAt_cut {buf buf' : List UInt8} (cut : buf <+: buf') {index : Nat} {byte : UInt8}
    (read : byteAt buf index = .ok byte) : byteAt buf' index = .ok byte := by
  obtain ⟨rest, rfl⟩ := cut
  unfold byteAt at read ⊢
  cases found : buf[index]? with
  | none => simp only [found, reduceCtorEq] at read
  | some other =>
    obtain ⟨inside, _⟩ := List.getElem?_eq_some_iff.mp found
    rw [List.getElem?_append_left inside]
    exact read

theorem readArgument_cut {buf buf' : List UInt8} (cut : buf <+: buf') (count pos : Nat)
    (start : UInt64) {value : UInt64} (read : readArgument buf count pos start = .ok value) :
    readArgument buf' count pos start = .ok value := by
  induction count generalizing pos start with
  | zero => exact read
  | succ count inductionHypothesis =>
    rw [readArgument] at read ⊢
    cases found : byteAt buf pos with
    | error halt =>
      rw [found] at read
      cases read
    | ok byte =>
      rw [found] at read
      rw [byteAt_cut cut found]
      exact inductionHypothesis (pos + 1) (shiftIn start byte) read

theorem readWide_cut {buf buf' : List UInt8} (cut : buf <+: buf') {size size' : Nat}
    (shorter : size ≤ size') (pos count : Nat) (major : UInt8) {head : Head}
    (read : readWide buf size pos count major = .ok head) :
    readWide buf' size' pos count major = .ok head := by
  unfold readWide at read ⊢
  split_ifs at read with beyond
  rw [if_neg (by omega)]
  cases found : readArgument buf count pos 0 with
  | error halt =>
    rw [found] at read
    cases read
  | ok value =>
    rw [found] at read
    rw [readArgument_cut cut count pos 0 found]
    exact read

/-- A head read inside a prefix is the head read in the whole buffer. -/
theorem readHead_cut {buf buf' : List UInt8} (cut : buf <+: buf') {size size' : Nat}
    (shorter : size ≤ size') (pos : Nat) {head : Head} (read : readHead buf size pos = .ok head) :
    readHead buf' size' pos = .ok head := by
  unfold readHead at read ⊢
  split_ifs at read with beyond
  rw [if_neg (by omega)]
  cases found : byteAt buf pos with
  | error halt =>
    rw [found] at read
    cases read
  | ok initial =>
    rw [found] at read
    rw [byteAt_cut cut found]
    simp only [bind, Except.bind] at read ⊢
    split_ifs at read ⊢
    · exact read
    all_goals exact readWide_cut cut shorter _ _ _ read

end Fleece
