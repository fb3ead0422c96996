/-
This file holds a plan blob to the format its body is said to have. Every record of
the body but one is a well-formed data item. The head of a utility curve declares
seven items where six follow, so each curve takes one item more than it brings: a body
with curves becomes well-formed only by as many items more, and is itself the
beginning of a longer item.
-/

import Fleece.DataItem
import Fleece.PlanRoundTrip

namespace Fleece

open DataItem (Consumes WellFormed takeHead bigEndianValue)

/-! ### Heads -/

theorem bigEndianValue_bigEndian (count : Nat) (bound : count ≤ 8) (value : UInt64) :
    bigEndianValue (bigEndian count value) = value.toNat % 256 ^ count := by
  have general (start : Nat) :
      (bigEndian count value).foldl (fun value byte => value * 256 + byte.toNat) start =
        start * 256 ^ count + value.toNat % 256 ^ count := by
    induction count generalizing start with
    | zero => rw [bigEndian, List.foldl_nil, Nat.pow_zero, Nat.mul_one, Nat.mod_one, Nat.add_zero]
    | succ count inductionHypothesis =>
      rw [bigEndian, List.foldl_cons, inductionHypothesis (by omega),
        bigEndian_head_toNat count (by omega), Nat.mod_pow_succ]
      ring
  rw [bigEndianValue, general, Nat.zero_mul, Nat.zero_add]

/-- The head of a value in `count` bytes. -/
theorem takeHead_wide {initial : UInt8} {count : Nat} (value : UInt64) (rest : List UInt8)
    (width : DataItem.argumentWidth (initial &&& 0x1F) = some count) (positive : count ≠ 0)
    (bound : count ≤ 8) (fits : value.toNat < 256 ^ count) :
    takeHead (initial :: bigEndian count value ++ rest) =
      some (⟨initial >>> 5, initial &&& 0x1F, value.toNat⟩, rest) := by
  have length : (bigEndian count value).length = count := length_bigEndian count value
  have argument : bigEndianValue ((bigEndian count value ++ rest).take count) = value.toNat := by
    rw [List.take_left' length, bigEndianValue_bigEndian count bound, Nat.mod_eq_of_lt fits]
  have inside : count ≤ (bigEndian count value ++ rest).length := by
    rw [List.length_append, length]
    omega
  rw [List.cons_append, takeHead]
  simp only [width, if_pos inside, if_neg positive, argument, List.drop_left' length]

/-- A head that was written is a head of its major type and its value. -/
theorem takeHead_writeHead (major : UInt8) (majorLt : major < 8) (value : UInt64) :
    ∃ info, ∀ rest, takeHead (writeHead major value ++ rest) =
      some (⟨major, info, value.toNat⟩, rest) := by
  have wide (info : UInt8) (count : Nat) (infoLt : info < 32)
      (width : DataItem.argumentWidth info = some count) (positive : count ≠ 0)
      (bound : count ≤ 8) (fits : value.toNat < 256 ^ count) (rest : List UInt8) :
      takeHead ((major <<< 5 ||| info) :: bigEndian count value ++ rest) =
        some (⟨major, info, value.toNat⟩, rest) := by
    obtain ⟨high, low⟩ := initial_parts major info majorLt infoLt
    have argument : DataItem.argumentWidth ((major <<< 5 ||| info) &&& 0x1F) = some count := by
      rw [low, width]
    have taken := takeHead_wide value rest argument positive bound fits
    rwa [high, low] at taken
  unfold writeHead
  simp only
  split_ifs with tiny small8 small16 small32
  · have low : value.toUInt8.toNat = value.toNat := by
      rw [UInt64.toNat_toUInt8]
      exact Nat.mod_eq_of_lt (lt_trans (UInt64.lt_iff_toNat_lt.mp tiny) (by decide))
    have infoLt : value.toUInt8 < 24 := by
      rw [UInt8.lt_iff_toNat_lt, low]
      exact tiny
    obtain ⟨high, info⟩ := initial_parts major value.toUInt8 majorLt (by
      rw [UInt8.lt_iff_toNat_lt, low]
      exact lt_trans (UInt64.lt_iff_toNat_lt.mp tiny) (by decide))
    refine ⟨value.toUInt8, fun rest => ?_⟩
    rw [List.singleton_append, takeHead]
    simp only [high, info, DataItem.argumentWidth, if_pos infoLt, Nat.zero_le, if_true, low,
      List.drop_zero]
  · exact ⟨24, wide 24 1 (by decide) rfl (by decide) (by decide)
      (lt_of_le_of_lt (UInt64.le_iff_toNat_le.mp small8) (by decide))⟩
  · exact ⟨25, wide 25 2 (by decide) rfl (by decide) (by decide)
      (lt_of_le_of_lt (UInt64.le_iff_toNat_le.mp small16) (by decide))⟩
  · exact ⟨26, wide 26 4 (by decide) rfl (by decide) (by decide)
      (lt_of_le_of_lt (UInt64.le_iff_toNat_le.mp small32) (by decide))⟩
  · exact ⟨27, wide 27 8 (by decide) rfl (by decide) (by decide) value.toNat_lt⟩

/-! ### Items -/

theorem consumes_text {text : List UInt8} (short : text.length < 2 ^ 32) :
    Consumes (writeText text) 1 0 := by
  obtain ⟨info, taken⟩ := takeHead_writeHead 3 (by decide) (UInt64.ofNat text.length)
  rw [toNat_ofNat_count short] at taken
  exact Consumes.head taken rfl

theorem consumes_header {count : Nat} (few : count < 2 ^ 32) :
    Consumes (writeArrayHeader count) 1 count := by
  obtain ⟨info, taken⟩ := takeHead_writeHead 4 (by decide) (UInt64.ofNat count)
  rw [toNat_ofNat_count few] at taken
  rw [← List.append_nil (writeArrayHeader count)]
  exact Consumes.head taken rfl

theorem consumes_num (v : Binary64) : Consumes (writeNum v) 1 0 := by
  unfold writeNum
  split_ifs
  · obtain ⟨info, taken⟩ := takeHead_writeHead 0 (by decide) (UInt64.ofNat v.trunc)
    rw [← List.append_nil (writeUint _)]
    exact Consumes.head taken rfl
  · rw [← List.append_nil (0xFB :: _)]
    exact Consumes.head
      (fun rest => takeHead_wide v.bits rest rfl (by decide) (by decide) v.bits.toNat_lt) rfl

/-- An array header and as many items. -/
theorem consumes_array {Element : Type} {encode : Element → List UInt8} {elements : List Element}
    (few : elements.length < 2 ^ 32)
    (each : ∀ element ∈ elements, Consumes (encode element) 1 0) :
    Consumes (writeArrayHeader elements.length ++ elements.flatMap encode) 1 0 := by
  have items := Consumes.flatMap elements each
  rw [Nat.zero_add] at items
  exact (consumes_header few).append items

theorem consumes_texts {texts : List (List UInt8)} (few : texts.length < 2 ^ 32)
    (short : ∀ t ∈ texts, t.length < 2 ^ 32) : Consumes (writeTexts texts) 1 0 :=
  consumes_array few fun t member => consumes_text (short t member)

theorem length_written_lt (text : CString) : text.written.length < 2 ^ 32 := by
  rw [CString.length_written]
  exact Nat.mod_lt _ (by decide)

theorem consumes_writtenTexts {texts : List CString} (few : texts.length < 2 ^ 32) :
    Consumes (writeTexts (texts.map CString.written)) 1 0 := by
  refine consumes_texts ((List.length_map _).trans_lt few) fun t member => ?_
  obtain ⟨text, _, rfl⟩ := List.mem_map.mp member
  exact length_written_lt text

theorem consumes_written (text : CString) : Consumes (writeText text.written) 1 0 :=
  consumes_text (length_written_lt text)

theorem consumes_action {a : PlanAction CString} (fits : a.Fits) :
    Consumes (a.map CString.written id).encode 1 0 :=
  consumes_header (by decide : 8 < 2 ^ 32)
    |>.item (consumes_written a.id)
    |>.item (consumes_written a.name)
    |>.item (consumes_written a.cost)
    |>.item (consumes_written a.dest)
    |>.item (consumes_num a.dur)
    |>.item (consumes_written a.exec)
    |>.item (consumes_writtenTexts fits.preCount)
    |>.item (consumes_writtenTexts fits.effCount)

theorem consumes_goal (g : PlanGoal CString) : Consumes (g.map CString.written id).encode 1 0 :=
  consumes_header (by decide : 5 < 2 ^ 32)
    |>.item (consumes_written g.id)
    |>.item (consumes_written g.name)
    |>.item (consumes_written g.expr)
    |>.item (consumes_num g.priority)
    |>.item (consumes_written g.curveId)

theorem consumes_point (p : PlanPoint) : Consumes p.encode 1 0 :=
  consumes_header (by decide : 2 < 2 ^ 32)
    |>.item (consumes_num p.x)
    |>.item (consumes_num p.y)

/-- A utility curve leaves one item owed. -/
theorem consumes_utility {u : PlanUtility CString} (fits : u.Fits) :
    Consumes (u.map CString.written id).encode 1 1 := by
  have points : Consumes (writeArrayHeader u.points.length ++ u.points.flatMap PlanPoint.encode)
      1 0 :=
    consumes_array (fits.pointCount.trans_lt (by decide)) fun p _ => consumes_point p
  unfold PlanUtility.encode PlanUtility.map
  rw [map_points_id]
  exact consumes_header (by decide : 7 < 2 ^ 32)
    |>.item (consumes_written u.id)
    |>.item (consumes_written u.name)
    |>.item (consumes_written u.dim)
    |>.item (consumes_num u.xMin)
    |>.item (consumes_num u.xMax)
    |>.item points

theorem consumes_mission {m : PlanMission CString} (fits : m.Fits) :
    Consumes (m.map CString.written).encode 1 0 :=
  consumes_header (by decide : 4 < 2 ^ 32)
    |>.item (consumes_written m.id)
    |>.item (consumes_written m.name)
    |>.item (consumes_writtenTexts fits.goalCount)
    |>.item (consumes_written m.note)

theorem consumes_utilities {utilities : List (PlanUtility CString)}
    (few : utilities.length < 2 ^ 32) (fits : ∀ u ∈ utilities, u.Fits) :
    Consumes (writeArrayHeader utilities.length ++
      utilities.flatMap fun u => (u.map CString.written id).encode) 1 utilities.length := by
  refine (consumes_header few).append ?_
  cases count : utilities.length with
  | zero =>
    rw [List.length_eq_zero_iff.mp count]
    exact .nil
  | succ left =>
    refine .flatMap_same utilities fun u member => ?_
    have one := (consumes_utility (fits u member)).frame left
    rwa [Nat.add_comm] at one

namespace GoapTables

/-- The body leaves one item owed for each utility curve. -/
theorem consumes_serializeBody (tables : GoapTables) :
    Consumes tables.serializeBody 1 tables.utilities.length := by
  have most : goapTableMax < 2 ^ 32 := by decide
  have fits := tables.fits
  unfold serializeBody Plan.encode Plan.map
  simp only [List.length_map, List.flatMap_map]
  have actions := consumes_array (fits.actionCount.trans_lt most) fun a member =>
    consumes_action (fits.actions a member)
  have goals := consumes_array (fits.goalCount.trans_lt most) fun g _ => consumes_goal g
  have utilities := consumes_utilities (fits.utilityCount.trans_lt most) fits.utilities
  have missions := consumes_array (fits.missionCount.trans_lt most) fun m member =>
    consumes_mission (fits.missions m member)
  exact consumes_header (by decide : 5 < 2 ^ 32)
    |>.item (consumes_written tables.name)
    |>.item actions
    |>.item goals
    |>.append (utilities.frame 1)
    |>.item missions

theorem consumes_zeros (count : Nat) : Consumes (List.replicate count 0) count 0 := by
  have zero : Consumes [0] 1 0 := by
    obtain ⟨info, taken⟩ := takeHead_writeHead 0 (by decide) 0
    exact Consumes.head taken rfl
  induction count with
  | zero => exact .nil
  | succ count inductionHypothesis =>
    have first := zero.frame count
    rw [Nat.add_comm 1, Nat.zero_add] at first
    exact first.append inductionHypothesis

/-- The body and one more item for each utility curve. -/
theorem wellFormed_padded (tables : GoapTables) :
    WellFormed (tables.serializeBody ++ List.replicate tables.utilities.length 0) :=
  (tables.consumes_serializeBody.append (consumes_zeros _)).wellFormed

/-- What is behind the prefix in the blob is a first part of the body. -/
theorem drop_serialize (tables : GoapTables) :
    tables.serialize.bytes.drop 3 =
      tables.serializeBody.take ((3 + tables.serializeBodySize) % 2 ^ 32 - 3) := by
  show (tables.written.take (tables.written.length % 2 ^ 32)).drop 3 = _
  rw [length_written, List.drop_take]
  rfl

theorem serializeBodySize_pos (tables : GoapTables) : 0 < tables.serializeBodySize := by
  have outer : arrayHeaderSize 5 = 1 := rfl
  unfold serializeBodySize
  omega

/-- A blob that is a well-formed item was not cut, and nothing is missing in it. -/
theorem plain_of_wellFormed {tables : GoapTables}
    (wellFormed : WellFormed (tables.serialize.bytes.drop 3)) :
    tables.utilities = [] ∧ 3 + tables.serializeBodySize < 2 ^ 32 := by
  rw [drop_serialize] at wellFormed
  have whole := tables.wellFormed_padded
  rw [← List.take_append_drop ((3 + tables.serializeBodySize) % 2 ^ 32 - 3) tables.serializeBody,
    List.append_assoc] at whole
  obtain ⟨rest, padding⟩ := List.append_eq_nil_iff.mp (wellFormed.append_eq_nil whole)
  have short := List.drop_eq_nil_iff.mp rest
  rw [length_serializeBody] at short
  have positive := tables.serializeBodySize_pos
  have none : tables.utilities.length = 0 := List.replicate_eq_nil_iff 0 |>.mp padding
  exact ⟨List.length_eq_zero_iff.mp none, by omega⟩

theorem wellFormed_of_plain {tables : GoapTables} (none : tables.utilities = [])
    (small : 3 + tables.serializeBodySize < 2 ^ 32) :
    WellFormed (tables.serialize.bytes.drop 3) := by
  have whole := tables.wellFormed_padded
  rw [none, List.length_nil, List.replicate_zero, List.append_nil] at whole
  rwa [drop_serialize, Nat.mod_eq_of_lt small, List.take_of_length_le]
  rw [length_serializeBody]
  omega

/-- A plan blob carries a well-formed data item behind its prefix exactly when the plan has no
utility curve and its size fits 32 bits. -/
theorem wellFormed_serialize_iff (tables : GoapTables) :
    WellFormed (tables.serialize.bytes.drop 3) ↔
      tables.utilities = [] ∧ 3 + tables.serializeBodySize < 2 ^ 32 :=
  ⟨plain_of_wellFormed, fun plain => wellFormed_of_plain plain.1 plain.2⟩

theorem not_wellFormed_hunger : ¬ WellFormed (hunger.serialize.bytes.drop 3) :=
  fun wellFormed => List.cons_ne_nil _ _ (plain_of_wellFormed wellFormed).1

end GoapTables

end Fleece
