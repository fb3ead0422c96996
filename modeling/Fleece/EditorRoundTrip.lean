/-
This file is about what the editor reads back. Its reader takes a head apart exactly,
also one of eight bytes, since every whole part of a float has at most fifty-three
digits. It is then to read a float64 behind the head it has read already, and asks for
that head in the wrong place, so what it reads back is a number that is whole and below
2^64. A text is read back as the characters that were written, but for a byte order
mark in front.

A number that is not whole has one way to be read at all: a pattern of 27. The eight
bytes behind it are then taken for the number. What follows a number in a blob never
starts with two zeros, so that is another number than the one that was written.
-/

import Fleece.EditorAgreement

namespace Fleece

namespace Editor

/-! ### Strings -/

theorem utf8EncodeChar_ne_nil (c : Char) : String.utf8EncodeChar c ≠ [] := by
  intro nothing
  have size := String.length_utf8EncodeChar c
  have positive := c.utf8Size_pos
  rw [nothing, List.length_nil] at size
  omega

theorem decodeChars_textEncode (s : List Char) (fuel : Nat)
    (enough : (textEncode s).length ≤ fuel) : decodeChars fuel (textEncode s) = s := by
  induction s generalizing fuel with
  | nil => cases fuel <;> rfl
  | cons c s inductionHypothesis =>
    have bytes : textEncode (c :: s) = String.utf8EncodeChar c ++ textEncode s := List.flatMap_cons
    have positive := c.utf8Size_pos
    have size := String.length_utf8EncodeChar c
    rw [bytes, List.length_append] at enough
    obtain ⟨left, rfl⟩ : ∃ left, fuel = left + 1 := Nat.exists_eq_add_one.mpr (by omega)
    have first : (textEncode (c :: s)).toByteArray.utf8DecodeChar? 0 = some c := by
      rw [bytes, List.toByteArray_append]
      exact ByteArray.utf8DecodeChar?_utf8EncodeChar_append
    have some : textEncode (c :: s) ≠ [] := by
      rw [bytes]
      exact List.append_ne_nil_of_left_ne_nil (utf8EncodeChar_ne_nil c) _
    have rest : (textEncode (c :: s)).drop c.utf8Size = textEncode s := by
      rw [bytes, ← size, List.drop_left]
    rw [decodeChars, if_neg some, first]
    simp only
    rw [rest, inductionHypothesis left (by omega)]

/-- A string is read back without the byte order mark in front. -/
theorem textDecode_textEncode_iff (s : List Char) :
    textDecode (textEncode s) = s ↔ s.head? ≠ some '\uFEFF' := by
  unfold textDecode
  rw [decodeChars_textEncode s _ le_rfl]
  cases s with
  | nil => simp
  | cons c rest =>
    simp only [List.head?_cons, ne_eq, Option.some.injEq]
    split_ifs with mark
    · refine iff_of_false (fun same => ?_) (not_not_intro mark)
      exact absurd (congrArg List.length same) (by simp)
    · exact iff_of_true rfl mark

/-! ### Heads -/

namespace Reader

theorem rounded_of_isExact {n : Nat} (isExact : Binary64.IsExact n) (small : n < 2 ^ 64) :
    rounded n = n :=
  Binary64.trunc_ofNat isExact (small.trans (Nat.pow_lt_pow_right (by decide) (by decide)))

theorem bigEndian_digit (count : Nat) (small : count < 8) (value : UInt64) :
    value.toNat / 256 ^ (count + 1) * 256 +
        ((value >>> UInt64.ofNat (8 * count)).toUInt8).toNat =
      value.toNat / 256 ^ count := by
  rw [bigEndian_head_toNat count small, pow_succ, ← Nat.div_div_eq_div_mul]
  exact Nat.div_add_mod' _ _

/-- The bytes of a number of fifty-three digits are read back exactly. -/
theorem readInt_bigEndian {value : UInt64} (isExact : Binary64.IsExact value.toNat)
    (rest : List UInt8) (count : Nat) (bound : count ≤ 8) :
    readInt count (bigEndian count value ++ rest) (some (value.toNat / 256 ^ count)) =
      (some value.toNat, rest) := by
  induction count with
  | zero => rw [pow_zero, Nat.div_one, bigEndian, List.nil_append, readInt]
  | succ count inductionHypothesis =>
    have part : Binary64.IsExact (value.toNat / 256 ^ count) := by
      rw [show 256 = 2 ^ 8 from rfl, ← pow_mul]
      exact isExact.div _
    have below : value.toNat / 256 ^ count < 2 ^ 64 :=
      (Nat.div_le_self _ _).trans_lt value.toNat_lt
    rw [bigEndian, List.cons_append, readInt, Option.map_some, bigEndian_digit count (by omega),
      rounded_of_isExact part below]
    exact inductionHypothesis (by omega)

/-- The bytes of any number are read exactly, or as a number from 2^53 on. -/
theorem readInt_bigEndian_cases (value : UInt64) (rest : List UInt8) (count : Nat)
    (bound : count ≤ 8) (start : Nat) (small : start < 2 ^ (9 * (8 - count))) :
    ∃ v, readInt count (bigEndian count value ++ rest) (some start) = (some v, rest) ∧
      (v < 2 ^ 53 → v = start * 256 ^ count + value.toNat % 256 ^ count) := by
  induction count generalizing start with
  | zero =>
    refine ⟨start, by rw [bigEndian, List.nil_append, readInt], fun _ => ?_⟩
    rw [pow_zero, Nat.mul_one, Nat.mod_one, Nat.add_zero]
  | succ count inductionHypothesis =>
    have digit := bigEndian_head_toNat count (by omega) value
    rw [bigEndian, List.cons_append, readInt, Option.map_some, digit]
    have digitLt := Nat.mod_lt (value.toNat / 256 ^ count) (show 0 < 256 by decide)
    set next := start * 256 + value.toNat / 256 ^ count % 256 with nextDef
    have step : 2 ^ (9 * (8 - count)) = 2 * (2 ^ (9 * (8 - (count + 1))) * 256) := by
      rw [show 256 = 2 ^ 8 from rfl, ← pow_add, ← pow_succ']
      congr 1
      omega
    have nextLt : 2 * next < 2 ^ (9 * (8 - count)) := by omega
    have most : 2 ^ (9 * (8 - count)) ≤ 2 ^ 1023 :=
      Nat.pow_le_pow_right (by decide) (by omega)
    have inRange : next < 2 ^ 1023 := (show next < 2 ^ (9 * (8 - count)) by omega).trans_le most
    obtain ⟨v, read, exact⟩ := inductionHypothesis (by omega) (rounded next)
      ((Binary64.trunc_ofNat_le inRange).trans_lt nextLt)
    refine ⟨v, read, fun below => ?_⟩
    rcases lt_or_ge next (2 ^ 53) with tiny | large
    · rw [exact below, rounded, Binary64.trunc_ofNat (Binary64.isExact_of_lt tiny) inRange, nextDef,
        Nat.mod_pow_succ, pow_succ]
      ring
    · have high : 2 ^ 53 ≤ rounded next := Binary64.le_trunc_ofNat large inRange
      have above : rounded next ≤ rounded next * 256 ^ count :=
        Nat.le_mul_of_pos_right _ (by positivity)
      have same := exact below
      omega

theorem readWide_bigEndian {value : UInt64} (isExact : Binary64.IsExact value.toNat) (major : UInt8)
    (count : Nat) (bound : count ≤ 8) (fits : value.toNat < 256 ^ count) (rest : List UInt8) :
    readWide major count (bigEndian count value ++ rest) =
      (⟨major, some value.toNat⟩, some rest) := by
  have read := readInt_bigEndian isExact rest count bound
  rw [Nat.div_eq_of_lt fits] at read
  rw [readWide, read]

/-- A head that was written is read back when its argument has at most fifty-three digits. -/
theorem readHead_written (major : UInt8) (majorLt : major < 8) {value : UInt64}
    (isExact : Binary64.IsExact value.toNat) (rest : List UInt8) :
    readHead (some (writeHead major value ++ rest)) =
      .ok (⟨major, some value.toNat⟩, some rest) := by
  unfold writeHead
  by_cases tiny : value < 24
  · have infoNat : value.toNat < 24 := tiny
    have low : value.toUInt8.toNat = value.toNat := by
      rw [UInt64.toNat_toUInt8]
      omega
    have infoLt : value.toUInt8 < 24 := by
      rw [UInt8.lt_iff_toNat_lt, low]
      exact infoNat
    obtain ⟨high, info⟩ := initial_parts major value.toUInt8 majorLt
      (by rw [UInt8.lt_iff_toNat_lt, low]; exact lt_trans infoNat (by decide))
    rw [if_pos tiny, List.singleton_append, readHead, high, info, if_pos infoLt, low]
  · rw [if_neg tiny]
    split_ifs with small8 small16 small32
    · obtain ⟨high, info⟩ := initial_parts major 24 majorLt (by decide)
      have read := readWide_bigEndian isExact major 1 (by decide)
        (lt_of_le_of_lt small8 (by decide)) rest
      rw [List.cons_append, readHead, high, info, if_neg (by decide), if_pos rfl, read]
    · obtain ⟨high, info⟩ := initial_parts major 25 majorLt (by decide)
      have read := readWide_bigEndian isExact major 2 (by decide)
        (lt_of_le_of_lt small16 (by decide)) rest
      rw [List.cons_append, readHead, high, info, if_neg (by decide), if_neg (by decide),
        if_pos rfl, read]
    · obtain ⟨high, info⟩ := initial_parts major 26 majorLt (by decide)
      have read := readWide_bigEndian isExact major 4 (by decide)
        (lt_of_le_of_lt small32 (by decide)) rest
      rw [List.cons_append, readHead, high, info, if_neg (by decide), if_neg (by decide),
        if_neg (by decide), if_pos rfl, read]
    · obtain ⟨high, info⟩ := initial_parts major 27 majorLt (by decide)
      have read := readWide_bigEndian isExact major 8 le_rfl value.toNat_lt rest
      rw [List.cons_append, readHead, high, info, if_neg (by decide), if_neg (by decide),
        if_neg (by decide), if_neg (by decide), if_pos rfl, read]

theorem readHead_count {major : UInt8} (majorLt : major < 8) {count : Nat} (few : count < 2 ^ 53)
    (rest : List UInt8) :
    readHead (some (writeHead major (UInt64.ofNat count) ++ rest)) =
      .ok (⟨major, some count⟩, some rest) := by
  have value : (UInt64.ofNat count).toNat = count :=
    UInt64.toNat_ofNat_of_lt' (few.trans (by decide))
  have isExact : Binary64.IsExact (UInt64.ofNat count).toNat := by
    rw [value]
    exact Binary64.isExact_of_lt few
  rw [readHead_written major majorLt isExact, value]

/-! ### Texts, counts and numbers -/

theorem arrayHeader_written {count : Nat} (few : count < 2 ^ 53) (rest : List UInt8) :
    arrayHeader (some (writeArrayHeader count ++ rest)) = .ok (some count, some rest) := by
  rw [arrayHeader, writeArrayHeader, readHead_count (by decide) few]
  rfl

theorem text_written {bytes : List UInt8} (short : bytes.length < 2 ^ 53) (rest : List UInt8) :
    text (some (writeText bytes ++ rest)) = .ok (textDecode bytes, some rest) := by
  have inside : ¬ (bytes ++ rest).length < bytes.length := by
    rw [List.length_append]
    omega
  rw [text, writeText, List.append_assoc, readHead_count (by decide) short]
  simp only [bind, Except.bind, ne_eq, not_true_eq_false, if_false, if_neg inside, List.take_left,
    List.drop_left]

/-- A whole number below 2^64 is read back, up to the sign of zero. -/
theorem num_written {v : Binary64} (isUint : Fleece.numIsUint v = true) (rest : List UInt8) :
    num (some (writeNum v ++ rest)) = .ok (v.unsignedZero, some rest) := by
  have parts := isUint
  rw [Fleece.numIsUint, Bool.and_eq_true, Bool.and_eq_true] at parts
  obtain ⟨⟨atLeast, below⟩, whole⟩ := parts
  rw [Binary64.eq_ofNat_trunc atLeast below] at whole
  have value : (UInt64.ofNat v.trunc).toNat = v.trunc :=
    UInt64.toNat_ofNat_of_lt' (Binary64.trunc_lt atLeast below)
  have isExact : Binary64.IsExact (UInt64.ofNat v.trunc).toNat := by
    rw [value]
    exact v.isExact_trunc
  rw [num, writeNum, if_pos isUint, writeUint, readHead_written 0 (by decide) isExact, value]
  simp only [bind, Except.bind, if_true, toNumber, Option.elim]
  rw [Binary64.ofNat_trunc atLeast below whole]

/-! ### What is not whole -/

/-- The bytes do not start with a zero. -/
def Clear (bytes : List UInt8) : Prop := bytes.head? ≠ some 0

theorem clear_writeHead {major : UInt8} (positive : 0 < major) (majorLt : major < 8) (value : UInt64)
    (rest : List UInt8) : Clear (writeHead major value ++ rest) := by
  have nonzero (info : UInt8) (infoLt : info < 32) : (major <<< 5) ||| info ≠ 0 := by
    intro zero
    obtain ⟨high, _⟩ := initial_parts major info majorLt infoLt
    rw [zero] at high
    exact absurd high (UInt8.ne_of_lt positive)
  unfold Clear writeHead
  split_ifs with tiny
  · have low : value.toUInt8 < 32 := by
      have infoNat : value.toNat < 24 := tiny
      rw [UInt8.lt_iff_toNat_lt, UInt64.toNat_toUInt8]
      exact (Nat.mod_le _ _).trans_lt (infoNat.trans (by decide))
    exact fun zero => nonzero _ low (Option.some.inj zero)
  · exact fun zero => nonzero 24 (by decide) (Option.some.inj zero)
  · exact fun zero => nonzero 25 (by decide) (Option.some.inj zero)
  · exact fun zero => nonzero 26 (by decide) (Option.some.inj zero)
  · exact fun zero => nonzero 27 (by decide) (Option.some.inj zero)

/-- Two zeros never follow a number of the format, not even a number that is zero. -/
theorem not_zeros_writeNum (v : Binary64) {rest : List UInt8} (clear : Clear rest) :
    ¬ [0, 0] <+: writeNum v ++ rest := by
  unfold writeNum writeUint writeHead
  split_ifs with isUint tiny
  · rintro ⟨after, same⟩
    have second : 0 :: after = rest := (List.cons.inj same).2
    exact clear (congrArg List.head? second.symm)
  all_goals exact fun ⟨after, same⟩ => absurd (List.cons.inj same).1 (by decide)

theorem not_zeros_of_clear {rest : List UInt8} (clear : Clear rest) : ¬ [0, 0] <+: rest := by
  rintro ⟨after, rfl⟩
  exact clear rfl

theorem le_foldl_shiftIn (bytes : List UInt8) (start : UInt64)
    (small : (start.toNat + 1) * 256 ^ bytes.length ≤ 2 ^ 64) :
    start.toNat * 256 ^ bytes.length ≤ (bytes.foldl shiftIn start).toNat := by
  induction bytes generalizing start with
  | nil => simp
  | cons byte bytes inductionHypothesis =>
    have byteLt := byte.toNat_lt
    rw [List.length_cons, pow_succ] at small ⊢
    have unit : 0 < 256 ^ bytes.length := by positivity
    have next : (shiftIn start byte).toNat = start.toNat * 256 + byte.toNat := by
      rw [shiftIn_toNat]
      refine Nat.mod_eq_of_lt ?_
      have wide : (start.toNat + 1) * 256 ≤ (start.toNat + 1) * (256 ^ bytes.length * 256) :=
        Nat.mul_le_mul_left _ (Nat.le_mul_of_pos_left _ unit)
      omega
    have bound : (shiftIn start byte).toNat + 1 ≤ (start.toNat + 1) * 256 := by
      rw [next]
      omega
    have rest := inductionHypothesis (shiftIn start byte) (by
      refine (Nat.mul_le_mul_right _ bound).trans (le_of_eq_of_le ?_ small)
      ring)
    refine le_trans (le_of_eq_of_le ?_ (Nat.mul_le_mul_right (256 ^ bytes.length)
      (show start.toNat * 256 ≤ (shiftIn start byte).toNat by omega))) rest
    ring

/-- Eight bytes that make a small number start with two zeros. -/
theorem zeros_of_foldl_small {bytes : List UInt8} (eight : 8 ≤ bytes.length)
    (small : ((bytes.take 8).foldl shiftIn 0).toNat < 256) : [0, 0] <+: bytes := by
  obtain ⟨first, second, rest, rfl⟩ : ∃ first second rest, bytes = first :: second :: rest := by
    match bytes, eight with
    | first :: second :: rest, _ => exact ⟨first, second, rest, rfl⟩
  have firstLt := first.toNat_lt
  have secondLt := second.toNat_lt
  have length : (rest.take 6).length = 6 := by
    rw [List.length_take]
    simp only [List.length_cons] at eight
    omega
  have start : (shiftIn (shiftIn 0 first) second).toNat = first.toNat * 256 + second.toNat := by
    rw [shiftIn_toNat, shiftIn_toNat, UInt64.toNat_zero]
    omega
  have least := le_foldl_shiftIn (rest.take 6) (shiftIn (shiftIn 0 first) second) (by
    rw [start, length]
    omega)
  rw [start, length] at least
  rw [show (first :: second :: rest).take 8 = first :: second :: rest.take 6 from rfl,
    List.foldl_cons, List.foldl_cons] at small
  have firstZero : first = 0 := UInt8.toNat_inj.mp (show first.toNat = 0 by omega)
  have secondZero : second = 0 := UInt8.toNat_inj.mp (show second.toNat = 0 by omega)
  exact ⟨rest, by rw [firstZero, secondZero]; rfl⟩

/-- A number of the pattern 27 is read as itself. -/
def Trusted (v result : Binary64) : Prop := v.bits = 27 → result = v

/-- A number that is read, and not as another one, is whole and below 2^64. -/
theorem isUint_of_num {v result : Binary64} {rest : List UInt8} {left : Left}
    (parsed : num (some (writeNum v ++ rest)) = .ok (result, left)) (clear : ¬ [0, 0] <+: rest)
    (trusted : Trusted v result) : Fleece.numIsUint v = true := by
  by_contra notUint
  obtain ⟨w, read, exact⟩ := readInt_bigEndian_cases v.bits rest 8 le_rfl 0 (by decide)
  have head : readHead (some (0xFB :: bigEndian 8 v.bits ++ rest)) =
      .ok (⟨7, some w⟩, some rest) := by
    have wide : readWide 7 8 (bigEndian 8 v.bits ++ rest) = (⟨7, some w⟩, some rest) := by
      rw [readWide, read]
    exact congrArg Except.ok wide
  rw [num, writeNum, if_neg notUint, head] at parsed
  simp only [bind, Except.bind] at parsed
  rw [if_neg (by decide)] at parsed
  split_ifs at parsed with pattern short
  · have bits : v.bits = 27 := by
      apply UInt64.toNat_inj.mp
      have value := Option.some.inj pattern.2
      have same := exact (by omega)
      have small := v.bits.toNat_lt
      rw [show (27 : UInt64).toNat = 27 from rfl]
      omega
    have value := congrArg Binary64.bits (Prod.mk.inj (Except.ok.inj parsed)).1
    rw [trusted bits, bits] at value
    refine clear (zeros_of_foldl_small (by omega) ?_)
    exact lt_of_eq_of_lt (congrArg UInt64.toNat value) (by decide)

/-! ### Records -/

theorem ok_bind {Value Result : Type} (value : Value) (next : Value → Except String Result) :
    (Except.ok value >>= next) = next value := rfl

theorem of_bind_ok {Value Result : Type} {first : Except String Value}
    {next : Value → Except String Result} {result : Result}
    (succeeds : first >>= next = .ok result) :
    ∃ value, first = .ok value ∧ next value = .ok result := by
  cases first with
  | error message => cases succeeds
  | ok value => exact ⟨value, rfl, succeeds⟩

/-- A reader of what a writer wrote: the encoding starts with a byte other than zero, a good element
is read back as its value, and an element that is read as one it trusts is good. -/
structure ReadsBack {Element Result : Type} (read : Left → Except String (Result × Left))
    (encode : Element → List UInt8) (value : Element → Result) (good : Element → Prop)
    (trusted : Element → Result → Prop) : Prop where
  leads : ∀ x, ∃ byte rest, byte ≠ 0 ∧ encode x = byte :: rest
  written : ∀ x, (encode x).length < 2 ^ 53 → good x → ∀ rest,
    read (some (encode x ++ rest)) = .ok (value x, some rest)
  good : ∀ x, (encode x).length < 2 ^ 53 → ∀ rest result left, Clear rest →
    read (some (encode x ++ rest)) = .ok (result, left) → trusted x result → good x

theorem leads_writeHead {major : UInt8} (positive : 0 < major) (majorLt : major < 8)
    (value : UInt64) (after : List UInt8) :
    ∃ byte rest, byte ≠ 0 ∧ writeHead major value ++ after = byte :: rest := by
  have clear := clear_writeHead positive majorLt value after
  have length := uintSize_pos value
  rw [← length_writeHead major value] at length
  obtain ⟨byte, rest, shape⟩ := List.exists_cons_of_length_pos length
  rw [shape] at clear ⊢
  exact ⟨byte, rest ++ after, fun zero => clear (congrArg some zero), rfl⟩

/-- Texts are always read back. -/
theorem readsBack_text :
    ReadsBack text writeText textDecode (fun _ => True) (fun _ _ => True) where
  leads bytes := leads_writeHead (by decide) (by decide) _ bytes
  written bytes short _ rest := by
    rw [length_writeText, textSize] at short
    exact text_written (by omega) rest
  good _ _ _ _ _ _ _ _ := trivial

section Tables

variable {Element Result : Type} {read : Left → Except String (Result × Left)}
  {encode : Element → List UInt8} {value : Element → Result} {good : Element → Prop}
  {trusted : Element → Result → Prop} (reads : ReadsBack read encode value good trusted)
include reads

theorem ReadsBack.clear (x : Element) (rest : List UInt8) : Clear (encode x ++ rest) := by
  obtain ⟨byte, after, nonzero, shape⟩ := reads.leads x
  rw [shape]
  exact fun zero => nonzero (Option.some.inj zero)

theorem ReadsBack.length_le (xs : List Element) : xs.length ≤ (xs.flatMap encode).length := by
  induction xs with
  | nil => exact Nat.zero_le _
  | cons x xs inductionHypothesis =>
    obtain ⟨byte, after, _, shape⟩ := reads.leads x
    rw [List.flatMap_cons, List.length_append, shape, List.length_cons, List.length_cons]
    omega

theorem ReadsBack.repeated_written (xs : List Element) (small : (xs.flatMap encode).length < 2 ^ 53)
    (every : ∀ x ∈ xs, good x) (rest : List UInt8) :
    repeated read xs.length (some (xs.flatMap encode ++ rest)) =
      .ok (xs.map value, some rest) := by
  induction xs with
  | nil => rfl
  | cons x xs inductionHypothesis =>
    rw [List.flatMap_cons, List.length_append] at small
    rw [List.flatMap_cons, List.length_cons, repeated, List.append_assoc,
      reads.written x (by omega) (every x List.mem_cons_self), ok_bind]
    simp only
    rw [inductionHypothesis (by omega) fun y member => every y (List.mem_cons_of_mem _ member)]
    rfl

theorem ReadsBack.good_of_repeated (xs : List Element)
    (small : (xs.flatMap encode).length < 2 ^ 53) {rest : List UInt8} (clear : Clear rest)
    {results : List Result} {left : Left}
    (parsed : repeated read xs.length (some (xs.flatMap encode ++ rest)) = .ok (results, left))
    (trust : ∀ p ∈ xs.zip results, trusted p.1 p.2) : ∀ x ∈ xs, good x := by
  induction xs generalizing results with
  | nil => exact fun _ member => absurd member List.not_mem_nil
  | cons x xs inductionHypothesis =>
    rw [List.flatMap_cons, List.length_append] at small
    rw [List.flatMap_cons, List.length_cons, repeated, List.append_assoc] at parsed
    obtain ⟨⟨result, after⟩, first, parsed⟩ := of_bind_ok parsed
    obtain ⟨⟨others, last⟩, tail, parsed⟩ := of_bind_ok parsed
    obtain ⟨rfl, rfl⟩ := Prod.mk.inj (Except.ok.inj parsed)
    rw [List.zip_cons_cons, List.forall_mem_cons] at trust
    have next : Clear (xs.flatMap encode ++ rest) := by
      cases xs with
      | nil => exact clear
      | cons y ys =>
        rw [List.flatMap_cons, List.append_assoc]
        exact reads.clear y _
    have goodFirst := reads.good x (by omega) _ result after next first trust.1
    rw [reads.written x (by omega) goodFirst] at first
    obtain ⟨-, rfl⟩ := Prod.mk.inj (Except.ok.inj first)
    exact List.forall_mem_cons.mpr ⟨goodFirst, inductionHypothesis (by omega) tail trust.2⟩

/-- The tables of a reader that reads back. -/
theorem ReadsBack.array :
    ReadsBack (array read) (fun xs => writeArrayHeader xs.length ++ xs.flatMap encode)
      (List.map value) (fun xs => ∀ x ∈ xs, good x)
      (fun xs results => ∀ p ∈ xs.zip results, trusted p.1 p.2) where
  leads xs := leads_writeHead (by decide) (by decide) _ _
  written xs small every rest := by
    have count := reads.length_le xs
    rw [List.length_append] at small
    rw [Reader.array, List.append_assoc, arrayHeader_written (by omega), ok_bind]
    exact reads.repeated_written xs (by omega) every rest
  good xs small rest results left clear parsed trust := by
    have count := reads.length_le xs
    rw [List.length_append] at small
    rw [Reader.array, List.append_assoc, arrayHeader_written (by omega), ok_bind] at parsed
    exact reads.good_of_repeated xs (by omega) clear parsed trust

end Tables

theorem readsBack_texts :
    ReadsBack (array text) writeTexts (List.map textDecode) (fun texts => ∀ t ∈ texts, True)
      (fun texts results => ∀ p ∈ texts.zip results, True) :=
  readsBack_text.array

theorem readsBack_action :
    ReadsBack parseAction PlanAction.encode (PlanAction.map textDecode Binary64.unsignedZero)
      (fun a => Fleece.numIsUint a.dur = true) (fun a result => Trusted a.dur result.dur) where
  leads a := by
    simp only [PlanAction.encode, List.append_assoc]
    exact leads_writeHead (by decide) (by decide) _ _
  written a small good rest := by
    simp only [PlanAction.encode, List.length_append] at small
    have id := readsBack_text.written a.id (by omega) trivial
    have name := readsBack_text.written a.name (by omega) trivial
    have cost := readsBack_text.written a.cost (by omega) trivial
    have dest := readsBack_text.written a.dest (by omega) trivial
    have exec := readsBack_text.written a.exec (by omega) trivial
    have pre := readsBack_texts.written a.pre (by omega) fun _ _ => trivial
    have eff := readsBack_texts.written a.eff (by omega) fun _ _ => trivial
    have size := arrayHeader_written (by decide : 8 < 2 ^ 53)
    simp only [parseAction, PlanAction.encode, List.append_assoc, size, ok_bind, id, name, cost,
      dest, num_written good, exec, pre, eff, ne_eq, not_true_eq_false, if_false]
    rfl
  good a small rest result left _ parsed trusted := by
    simp only [PlanAction.encode, List.length_append] at small
    have id := readsBack_text.written a.id (by omega) trivial
    have name := readsBack_text.written a.name (by omega) trivial
    have cost := readsBack_text.written a.cost (by omega) trivial
    have dest := readsBack_text.written a.dest (by omega) trivial
    have size := arrayHeader_written (by decide : 8 < 2 ^ 53)
    simp only [parseAction, PlanAction.encode, List.append_assoc, size, ok_bind, id, name, cost,
      dest, ne_eq, not_true_eq_false, if_false] at parsed
    obtain ⟨⟨dur, afterDur⟩, read, parsed⟩ := of_bind_ok parsed
    obtain ⟨⟨exec, afterExec⟩, _, parsed⟩ := of_bind_ok parsed
    obtain ⟨⟨pre, afterPre⟩, _, parsed⟩ := of_bind_ok parsed
    obtain ⟨⟨eff, afterEff⟩, _, parsed⟩ := of_bind_ok parsed
    obtain ⟨rfl, -⟩ := Prod.mk.inj (Except.ok.inj parsed)
    exact isUint_of_num read (not_zeros_of_clear (readsBack_text.clear _ _)) trusted

theorem readsBack_goal :
    ReadsBack parseGoal PlanGoal.encode (PlanGoal.map textDecode Binary64.unsignedZero)
      (fun g => Fleece.numIsUint g.priority = true)
      (fun g result => Trusted g.priority result.priority) where
  leads g := by
    simp only [PlanGoal.encode, List.append_assoc]
    exact leads_writeHead (by decide) (by decide) _ _
  written g small good rest := by
    simp only [PlanGoal.encode, List.length_append] at small
    have id := readsBack_text.written g.id (by omega) trivial
    have name := readsBack_text.written g.name (by omega) trivial
    have expr := readsBack_text.written g.expr (by omega) trivial
    have curveId := readsBack_text.written g.curveId (by omega) trivial
    have size := arrayHeader_written (by decide : 5 < 2 ^ 53)
    simp only [parseGoal, PlanGoal.encode, List.append_assoc, size, ok_bind, id, name, expr,
      num_written good, curveId, ne_eq, not_true_eq_false, if_false]
    rfl
  good g small rest result left _ parsed trusted := by
    simp only [PlanGoal.encode, List.length_append] at small
    have id := readsBack_text.written g.id (by omega) trivial
    have name := readsBack_text.written g.name (by omega) trivial
    have expr := readsBack_text.written g.expr (by omega) trivial
    have size := arrayHeader_written (by decide : 5 < 2 ^ 53)
    simp only [parseGoal, PlanGoal.encode, List.append_assoc, size, ok_bind, id, name, expr, ne_eq,
      not_true_eq_false, if_false] at parsed
    obtain ⟨⟨priority, afterPriority⟩, read, parsed⟩ := of_bind_ok parsed
    obtain ⟨⟨curveId, afterCurveId⟩, _, parsed⟩ := of_bind_ok parsed
    obtain ⟨rfl, -⟩ := Prod.mk.inj (Except.ok.inj parsed)
    exact isUint_of_num read (not_zeros_of_clear (readsBack_text.clear _ _)) trusted

theorem readsBack_point :
    ReadsBack parsePoint PlanPoint.encode (PlanPoint.map Binary64.unsignedZero)
      (fun p => p.Every fun v => Fleece.numIsUint v = true)
      (fun p result => Trusted p.x result.x ∧ Trusted p.y result.y) where
  leads p := by
    simp only [PlanPoint.encode, List.append_assoc]
    exact leads_writeHead (by decide) (by decide) _ _
  written p small good rest := by
    have size := arrayHeader_written (by decide : 2 < 2 ^ 53)
    simp only [parsePoint, PlanPoint.encode, List.append_assoc, size, ok_bind, num_written good.x,
      num_written good.y, ne_eq, not_true_eq_false, if_false]
    rfl
  good p small rest result left clear parsed trusted := by
    have size := arrayHeader_written (by decide : 2 < 2 ^ 53)
    simp only [parsePoint, PlanPoint.encode, List.append_assoc, size, ok_bind, ne_eq,
      not_true_eq_false, if_false] at parsed
    obtain ⟨⟨x, afterX⟩, readX, parsed⟩ := of_bind_ok parsed
    obtain ⟨⟨y, afterY⟩, readY, parsed⟩ := of_bind_ok parsed
    obtain ⟨rfl, -⟩ := Prod.mk.inj (Except.ok.inj parsed)
    have isUintX := isUint_of_num readX (not_zeros_writeNum p.y clear) trusted.1
    rw [num_written isUintX] at readX
    obtain ⟨-, rfl⟩ := Prod.mk.inj (Except.ok.inj readX)
    exact ⟨isUintX, isUint_of_num readY (not_zeros_of_clear clear) trusted.2⟩

/-- The numbers of a curve that the reader gives back. -/
structure TrustedCurve (u : PlanUtility (List UInt8)) (result : PlanUtility (List Char)) : Prop where
  xMin : Trusted u.xMin result.xMin
  xMax : Trusted u.xMax result.xMax
  points : ∀ p ∈ u.points.zip result.points, Trusted p.1.x p.2.x ∧ Trusted p.1.y p.2.y

theorem readsBack_utility :
    ReadsBack parseUtility PlanUtility.encode (PlanUtility.map textDecode Binary64.unsignedZero)
      (fun u => u.Every (fun _ => True) fun v => Fleece.numIsUint v = true) TrustedCurve where
  leads u := by
    simp only [PlanUtility.encode, List.append_assoc]
    exact leads_writeHead (by decide) (by decide) _ _
  written u small good rest := by
    simp only [PlanUtility.encode, List.length_append] at small
    have id := readsBack_text.written u.id (by omega) trivial
    have name := readsBack_text.written u.name (by omega) trivial
    have dim := readsBack_text.written u.dim (by omega) trivial
    have points := readsBack_point.array.written u.points
      (by rw [List.length_append]; omega) good.points
    have size := arrayHeader_written (by decide : 7 < 2 ^ 53)
    simp only [List.append_assoc] at points
    simp only [parseUtility, PlanUtility.encode, List.append_assoc, size, ok_bind, id, name, dim,
      num_written good.xMin, num_written good.xMax, points, ne_eq, not_true_eq_false, if_false]
    rfl
  good u small rest result left clear parsed trusted := by
    simp only [PlanUtility.encode, List.length_append] at small
    have id := readsBack_text.written u.id (by omega) trivial
    have name := readsBack_text.written u.name (by omega) trivial
    have dim := readsBack_text.written u.dim (by omega) trivial
    have size := arrayHeader_written (by decide : 7 < 2 ^ 53)
    simp only [parseUtility, PlanUtility.encode, List.append_assoc, size, ok_bind, id, name, dim,
      ne_eq, not_true_eq_false, if_false] at parsed
    obtain ⟨⟨xMin, afterMin⟩, readMin, parsed⟩ := of_bind_ok parsed
    obtain ⟨⟨xMax, afterMax⟩, readMax, parsed⟩ := of_bind_ok parsed
    obtain ⟨⟨points, afterPoints⟩, readPoints, parsed⟩ := of_bind_ok parsed
    obtain ⟨rfl, -⟩ := Prod.mk.inj (Except.ok.inj parsed)
    have table : Clear (writeArrayHeader u.points.length ++
        (u.points.flatMap PlanPoint.encode ++ rest)) :=
      clear_writeHead (by decide) (by decide) _ _
    have isUintMin := isUint_of_num readMin (not_zeros_writeNum u.xMax table) trusted.xMin
    rw [num_written isUintMin] at readMin
    obtain ⟨-, rfl⟩ := Prod.mk.inj (Except.ok.inj readMin)
    have isUintMax := isUint_of_num readMax (not_zeros_of_clear table) trusted.xMax
    rw [num_written isUintMax] at readMax
    obtain ⟨-, rfl⟩ := Prod.mk.inj (Except.ok.inj readMax)
    rw [← List.append_assoc] at readPoints
    have isUintPoints := readsBack_point.array.good u.points (by rw [List.length_append]; omega)
      rest points afterPoints clear readPoints trusted.points
    exact ⟨trivial, trivial, trivial, isUintMin, isUintMax, isUintPoints⟩

theorem readsBack_mission :
    ReadsBack parseMission PlanMission.encode (PlanMission.map textDecode) (fun _ => True)
      (fun _ _ => True) where
  leads m := by
    simp only [PlanMission.encode, List.append_assoc]
    exact leads_writeHead (by decide) (by decide) _ _
  written m small _ rest := by
    simp only [PlanMission.encode, List.length_append] at small
    have id := readsBack_text.written m.id (by omega) trivial
    have name := readsBack_text.written m.name (by omega) trivial
    have goalIds := readsBack_texts.written m.goalIds (by omega) fun _ _ => trivial
    have note := readsBack_text.written m.note (by omega) trivial
    have size := arrayHeader_written (by decide : 4 < 2 ^ 53)
    simp only [parseMission, PlanMission.encode, List.append_assoc, size, ok_bind, id, name,
      goalIds, note, ne_eq, not_true_eq_false, if_false]
    rfl
  good _ _ _ _ _ _ _ _ := trivial

/-- The numbers of a plan that the reader gives back. -/
structure TrustedPlan (plan : Plan (List UInt8)) (result : Plan (List Char)) : Prop where
  actions : ∀ p ∈ plan.actions.zip result.actions, Trusted p.1.dur p.2.dur
  goals : ∀ p ∈ plan.goals.zip result.goals, Trusted p.1.priority p.2.priority
  utilities : ∀ p ∈ plan.utilities.zip result.utilities, TrustedCurve p.1 p.2

/-- Every number of the plan is whole and below 2^64. -/
def Whole {Text : Type} (plan : Plan Text) : Prop :=
  plan.Every (fun _ => True) fun v => Fleece.numIsUint v = true

theorem readsBack_body :
    ReadsBack parseBody Plan.encode (Plan.map textDecode Binary64.unsignedZero) Whole
      TrustedPlan where
  leads plan := by
    simp only [Plan.encode, List.append_assoc]
    exact leads_writeHead (by decide) (by decide) _ _
  written plan small good rest := by
    simp only [Plan.encode, List.length_append] at small
    have size := arrayHeader_written (by decide : 5 < 2 ^ 53)
    have name := readsBack_text.written plan.name (by omega) trivial
    have actions := readsBack_action.array.written plan.actions
      (by rw [List.length_append]; omega) fun a member => (good.actions a member).dur
    have goals := readsBack_goal.array.written plan.goals
      (by rw [List.length_append]; omega) fun g member => (good.goals g member).priority
    have utilities := readsBack_utility.array.written plan.utilities
      (by rw [List.length_append]; omega) good.utilities
    have missions := readsBack_mission.array.written plan.missions
      (by rw [List.length_append]; omega) fun _ _ => trivial
    simp only [List.append_assoc] at actions goals utilities missions
    simp only [parseBody, Plan.encode, List.append_assoc, size, ok_bind, name, actions, goals,
      utilities, missions, ne_eq, not_true_eq_false, if_false]
    rfl
  good plan small rest result left clear parsed trusted := by
    simp only [Plan.encode, List.length_append] at small
    have size := arrayHeader_written (by decide : 5 < 2 ^ 53)
    have name := readsBack_text.written plan.name (by omega) trivial
    simp only [parseBody, Plan.encode, List.append_assoc, size, ok_bind, name, ne_eq,
      not_true_eq_false, if_false] at parsed
    obtain ⟨⟨actions, afterActions⟩, readActions, parsed⟩ := of_bind_ok parsed
    obtain ⟨⟨goals, afterGoals⟩, readGoals, parsed⟩ := of_bind_ok parsed
    obtain ⟨⟨utilities, afterUtilities⟩, readUtilities, parsed⟩ := of_bind_ok parsed
    obtain ⟨⟨missions, afterMissions⟩, _, parsed⟩ := of_bind_ok parsed
    obtain ⟨rfl, -⟩ := Prod.mk.inj (Except.ok.inj parsed)
    have table (count : Nat) (after : List UInt8) : Clear (writeArrayHeader count ++ after) :=
      clear_writeHead (by decide) (by decide) _ _
    -- each table that is good leaves the reader in front of the next one
    have wholeActions := readsBack_action.array.good plan.actions
      (by rw [List.length_append]; omega) _ actions afterActions (table _ _)
      (by rwa [List.append_assoc]) trusted.actions
    have nextActions := readsBack_action.array.written plan.actions
      (by rw [List.length_append]; omega) wholeActions
    simp only [List.append_assoc] at nextActions
    rw [nextActions] at readActions
    obtain ⟨-, rfl⟩ := Prod.mk.inj (Except.ok.inj readActions)
    have wholeGoals := readsBack_goal.array.good plan.goals
      (by rw [List.length_append]; omega) _ goals afterGoals (table _ _)
      (by rwa [List.append_assoc]) trusted.goals
    have nextGoals := readsBack_goal.array.written plan.goals
      (by rw [List.length_append]; omega) wholeGoals
    simp only [List.append_assoc] at nextGoals
    rw [nextGoals] at readGoals
    obtain ⟨-, rfl⟩ := Prod.mk.inj (Except.ok.inj readGoals)
    have wholeUtilities := readsBack_utility.array.good plan.utilities
      (by rw [List.length_append]; omega) _ utilities afterUtilities (table _ _)
      (by rwa [List.append_assoc]) trusted.utilities
    constructor
    case name => exact trivial
    case actions =>
      exact fun a member => ⟨trivial, trivial, trivial, trivial, wholeActions a member, trivial,
        fun _ _ => trivial, fun _ _ => trivial⟩
    case goals =>
      exact fun g member => ⟨trivial, trivial, trivial, wholeGoals g member, trivial⟩
    case utilities => exact wholeUtilities
    case missions => exact fun _ _ => ⟨trivial, trivial, fun _ _ => trivial, trivial⟩

end Reader

/-! ### Blobs -/

open Reader

section Blobs

variable {plan : Plan (List UInt8)} (small : plan.encode.length < 2 ^ 53)
include small

/-- A blob whose numbers are whole is accepted. -/
theorem parse_of_whole (whole : Whole plan) :
    parse (planMagic ++ plan.encode) = .ok (plan.map textDecode Binary64.unsignedZero) := by
  have read := readsBack_body.written plan small whole []
  rw [List.append_nil] at read
  rw [planMagic, List.cons_append, List.cons_append, List.cons_append, List.nil_append, parse,
    if_neg (by decide), if_neg (by decide), read]
  rfl

theorem whole_of_parse {result : Plan (List Char)}
    (accepted : parse (planMagic ++ plan.encode) = .ok result) (trusted : TrustedPlan plan result) :
    Whole plan := by
  rw [planMagic, List.cons_append, List.cons_append, List.cons_append, List.nil_append, parse,
    if_neg (by decide), if_neg (by decide)] at accepted
  obtain ⟨⟨parsed, left⟩, read, ends⟩ := of_bind_ok accepted
  simp only at ends
  split_ifs at ends with atEnd
  obtain rfl := Except.ok.inj ends
  rw [← List.append_nil plan.encode] at read
  exact readsBack_body.good plan small [] parsed left (fun zero => by cases zero) read trusted

end Blobs

/-! ### Models -/

theorem of_zip_map {Element First Second Image : Type} {form : Element → First}
    {first : Element → Image} {second : Second → Image} {elements : List Element}
    {results : List Second} (same : results.map second = elements.map first) :
    ∀ p ∈ (elements.map form).zip results, ∃ x, p.1 = form x ∧ second p.2 = first x := by
  induction elements generalizing results with
  | nil => exact fun p member => absurd member List.not_mem_nil
  | cons x elements inductionHypothesis =>
    cases results with
    | nil => exact fun p member => absurd member List.not_mem_nil
    | cons result results =>
      obtain ⟨head, tail⟩ := List.cons.inj same
      rw [List.map_cons, List.zip_cons_cons]
      exact List.forall_mem_cons.mpr ⟨⟨x, rfl, head⟩, inductionHypothesis tail⟩

theorem trusted_of_unsignedZero {v result : Binary64} (same : result.unsignedZero = v.unsignedZero) :
    Trusted v result := by
  obtain ⟨bits⟩ := v
  rintro rfl
  rw [show (⟨27⟩ : Binary64).unsignedZero = ⟨27⟩ from rfl, Binary64.unsignedZero] at same
  split_ifs at same
  · exact absurd same (by decide)
  · exact same

/-- A reader that gives the model back, up to the sign of zero, can be trusted. -/
theorem trustedPlan_of_map_eq {model result : Plan (List Char)}
    (same : result.map id Binary64.unsignedZero = model.map id Binary64.unsignedZero) :
    TrustedPlan (model.map textEncode id) result := by
  simp only [Plan.map, Plan.mk.injEq] at same
  obtain ⟨_, actions, goals, utilities, _⟩ := same
  constructor
  case actions =>
    intro p member
    obtain ⟨a, first, second⟩ := of_zip_map actions p member
    rw [first]
    exact trusted_of_unsignedZero (congrArg PlanAction.dur second)
  case goals =>
    intro p member
    obtain ⟨g, first, second⟩ := of_zip_map goals p member
    rw [first]
    exact trusted_of_unsignedZero (congrArg PlanGoal.priority second)
  case utilities =>
    intro p member
    obtain ⟨u, first, second⟩ := of_zip_map utilities p member
    rw [first]
    refine ⟨trusted_of_unsignedZero (congrArg PlanUtility.xMin second),
      trusted_of_unsignedZero (congrArg PlanUtility.xMax second), fun q held => ?_⟩
    obtain ⟨point, left, right⟩ := of_zip_map (congrArg PlanUtility.points second) q held
    rw [left]
    exact ⟨trusted_of_unsignedZero (congrArg PlanPoint.x right),
      trusted_of_unsignedZero (congrArg PlanPoint.y right)⟩

/-- The editor reads back what it wrote of a model. -/
def RoundTrips (model : Model) : Prop :=
  ∃ bytes result, serialize model = some bytes ∧ parse bytes = .ok result ∧
    result.map id Binary64.unsignedZero = model.toPlan.map id Binary64.unsignedZero

theorem unsignedZero_idem :
    Binary64.unsignedZero ∘ Binary64.unsignedZero = Binary64.unsignedZero := by
  funext v
  rw [Function.comp_apply]
  unfold Binary64.unsignedZero
  split_ifs <;> rfl

/-- What a model whose numbers are whole is read back as. -/
theorem map_decoded (model : Plan (List Char)) :
    ((model.map textEncode id).map textDecode Binary64.unsignedZero).map id
        Binary64.unsignedZero =
      model.map (textDecode ∘ textEncode) Binary64.unsignedZero := by
  rw [Plan.map_map, Plan.map_map, Function.id_comp, Function.comp_id, unsignedZero_idem]

theorem roundTrips_iff {model : Model} (finite : model.IsFinite) :
    RoundTrips model ↔
      model.Every (fun s => s.head? ≠ some '\uFEFF') (fun v => numIsUint v = true) ∧
        3 + (model.toPlan.map textEncode id).encode.length < 2 ^ 32 := by
  have length : (pushed model.toPlan).length =
      3 + (model.toPlan.map textEncode id).encode.length := by
    rw [pushed_eq_of_finite finite, List.length_append]
    rfl
  unfold RoundTrips serialize
  rw [length]
  by_cases small : 3 + (model.toPlan.map textEncode id).encode.length < 2 ^ 32
  · rw [if_pos small, pushed_eq_of_finite finite, and_iff_left small]
    have short : (model.toPlan.map textEncode id).encode.length < 2 ^ 53 := by omega
    constructor
    · rintro ⟨bytes, result, written, accepted, same⟩
      obtain rfl := Option.some.inj written
      have whole := whole_of_parse short accepted (trustedPlan_of_map_eq same)
      rw [parse_of_whole short whole] at accepted
      obtain rfl := Except.ok.inj accepted
      rw [map_decoded] at same
      have texts := Plan.every_of_map_eq same
      have numbers := Plan.every_map_iff.mp whole
      exact (texts.and numbers).mono
        (fun s held => (textDecode_textEncode_iff s).mp held.1)
        (fun v held => (numIsUint_eq v).trans held.2)
    · intro every
      have whole : Whole (model.toPlan.map textEncode id) :=
        Plan.every_map_iff.mpr (every.mono (fun _ _ => trivial)
          fun v isUint => (numIsUint_eq v).symm.trans isUint)
      refine ⟨_, _, rfl, parse_of_whole short whole, ?_⟩
      rw [map_decoded]
      exact Plan.map_congr (fun s noMark => (textDecode_textEncode_iff s).mpr noMark)
        (fun _ _ => rfl) every
  · rw [if_neg small]
    refine ⟨fun succeeds => ?_, fun conditions => absurd conditions.2 small⟩
    obtain ⟨_, _, written, _⟩ := succeeds
    cases written

/-! ### Blobs of the planner -/

section Tables

variable {tables : GoapTables} (small : 3 + tables.serializeBodySize < 2 ^ 32)
include small

theorem parse_serialize :
    parse tables.serialize.bytes =
        parse (planMagic ++ (tables.toPlan.map CString.written id).encode) ∧
      (tables.toPlan.map CString.written id).encode.length < 2 ^ 53 := by
  have length := tables.length_written
  have bytes : tables.serialize.bytes = tables.written :=
    Blob.ofBuffer_bytes_of_lt (length.trans_lt small)
  refine ⟨congrArg parse bytes, ?_⟩
  rw [GoapTables.written, GoapTables.serializeBody, List.length_append] at length
  omega

theorem accepts_of_whole (whole : Whole tables.toPlan) :
    ∃ result, parse tables.serialize.bytes = .ok result := by
  obtain ⟨bytes, short⟩ := parse_serialize small
  rw [bytes]
  exact ⟨_, parse_of_whole short (Plan.every_map_iff.mpr whole)⟩

theorem whole_of_accepted (patterns : tables.Every (fun _ => True) fun v => v.bits ≠ 27)
    {result : Plan (List Char)} (accepted : parse tables.serialize.bytes = .ok result) :
    Whole tables.toPlan := by
  obtain ⟨bytes, short⟩ := parse_serialize small
  rw [bytes] at accepted
  have written := (Plan.every_map_iff.mpr patterns :
    (tables.toPlan.map CString.written id).Every (fun _ => True) fun v => v.bits ≠ 27)
  refine Plan.every_map_iff.mp (whole_of_parse short accepted ?_)
  constructor
  case actions =>
    intro p member pattern
    exact absurd pattern (written.actions _ (List.of_mem_zip member).1).dur
  case goals =>
    intro p member pattern
    exact absurd pattern (written.goals _ (List.of_mem_zip member).1).priority
  case utilities =>
    intro p member
    have numbers := written.utilities _ (List.of_mem_zip member).1
    refine ⟨fun pattern => absurd pattern numbers.xMin, fun pattern => absurd pattern numbers.xMax,
      fun q held => ?_⟩
    have point := numbers.points _ (List.of_mem_zip held).1
    exact ⟨fun pattern => absurd pattern point.x, fun pattern => absurd pattern point.y⟩

end Tables

/-- The editor reads its own blobs back exactly when their numbers are whole and below 2^64, no text
starts with a byte order mark and the blob fits an array. It accepts the planner's blobs whose
numbers are whole, and no others but those with a pattern that it can misread. -/
theorem roundTrips_and_accepts (model : Model) (tables : GoapTables) :
    (model.IsFinite →
      (RoundTrips model ↔
        model.Every (fun s => s.head? ≠ some '\uFEFF') (fun v => numIsUint v = true) ∧
          3 + (model.toPlan.map textEncode id).encode.length < 2 ^ 32)) ∧
    (3 + tables.serializeBodySize < 2 ^ 32 →
      (Whole tables.toPlan → ∃ result, parse tables.serialize.bytes = .ok result) ∧
      (tables.Every (fun _ => True) (fun v => v.bits ≠ 27) →
        ∀ result, parse tables.serialize.bytes = .ok result → Whole tables.toPlan)) :=
  ⟨fun finite => roundTrips_iff finite, fun small =>
    ⟨accepts_of_whole small, fun patterns _ => whole_of_accepted small patterns⟩⟩

/-- The editor's ramp comes back, and so does a plan with a goal and a ramp, whose points were given
to the planner from right to left. -/
theorem roundTrips_and_accepts_ramp :
    let one : Binary64 := ⟨0x3FF0000000000000⟩
    let curveId : CString := ⟨[0x75], by decide⟩
    let goal : FleeceGoapGoalDef := ⟨some ⟨[0x67], by decide⟩, none, none, one, curveId⟩
    let curve : FleeceGoapUtilityDef :=
      ⟨⟨curveId, none, none, .zero, one, [⟨one, one⟩, ⟨.zero, .zero⟩]⟩, by decide⟩
    RoundTrips ramp ∧ ∃ tables,
      GoapTables.empty.registerAll [.addGoal goal, .addUtility curve] = some tables ∧
        ∃ result, parse tables.serialize.bytes = .ok result := by
  intro one curveId goal curve
  have finite : ramp.IsFinite :=
    oneCurve_every trivial trivial trivial (by decide) (by decide)
      (List.forall_mem_cons.mpr ⟨⟨by decide, by decide⟩,
        List.forall_mem_singleton.mpr ⟨by decide, by decide⟩⟩)
  have zeroWhole : numIsUint ⟨0⟩ = true := by decide +kernel
  have oneWhole : numIsUint ⟨0x3FF0000000000000⟩ = true := by decide +kernel
  have whole : ramp.Every (fun s => s.head? ≠ some '\uFEFF') fun v => numIsUint v = true :=
    oneCurve_every (by decide) (by decide) (by decide) zeroWhole oneWhole
      (List.forall_mem_cons.mpr ⟨⟨zeroWhole, zeroWhole⟩,
        List.forall_mem_singleton.mpr ⟨oneWhole, oneWhole⟩⟩)
  let tables := (GoapTables.empty.registerAll [.addGoal goal, .addUtility curve]).getD .empty
  have registered : GoapTables.empty.registerAll [.addGoal goal, .addUtility curve] =
      some tables := rfl
  have plan : tables.toPlan = ⟨.empty, [], [⟨⟨[0x67], by decide⟩, .empty, .empty, one, curveId⟩],
      [⟨curveId, .empty, .empty, .zero, one, [⟨.zero, .zero⟩, ⟨one, one⟩]⟩], []⟩ := by
    decide +kernel
  have zeroUint : Fleece.numIsUint .zero = true := by decide +kernel
  have oneUint : Fleece.numIsUint one = true := by decide +kernel
  have wholeTables : Whole tables.toPlan := by
    rw [plan]
    constructor
    case name => exact trivial
    case goals => exact List.forall_mem_singleton.mpr ⟨trivial, trivial, trivial, oneUint, trivial⟩
    case utilities =>
      exact List.forall_mem_singleton.mpr ⟨trivial, trivial, trivial, zeroUint, oneUint,
        List.forall_mem_cons.mpr ⟨⟨zeroUint, zeroUint⟩,
          List.forall_mem_singleton.mpr ⟨oneUint, oneUint⟩⟩⟩
    all_goals exact fun _ member => absurd member List.not_mem_nil
  have both := roundTrips_and_accepts ramp tables
  exact ⟨(both.1 finite).mpr ⟨whole, by decide +kernel⟩, tables, registered,
    (both.2 (by decide +kernel)).1 wholeTables⟩

/-- A curve of the editor with a point in the middle. -/
def half : Model := oneCurve [⟨⟨0⟩, ⟨0x3FE0000000000000⟩⟩] (by decide)

theorem not_roundTrips_half : half.IsFinite ∧ ¬ RoundTrips half := by
  have finite : half.IsFinite :=
    oneCurve_every trivial trivial trivial (by decide) (by decide)
      (List.forall_mem_singleton.mpr ⟨by decide, by decide⟩)
  refine ⟨finite, fun succeeds => ?_⟩
  have every := ((roundTrips_iff finite).mp succeeds).1
  have curve := every.utilities _ (List.mem_singleton_self _)
  have point := (curve.points _ (List.mem_singleton_self _)).y
  exact absurd point (by decide +kernel)

end Editor

end Fleece
