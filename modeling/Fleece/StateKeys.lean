/-
This file is about the state keys of the planner. The fields are put down in the
order of their names, each with its namespace, its name up to the byte 0x1F, and its
value up to nowhere: the value is a JSON text, and since the next field begins with
a letter that no number goes on with, the text cannot be read to end elsewhere. So
two blackboards have the same bytes if and only if they hold the same entries.

The length of a key is a `uint32_t`. From 2^32 bytes on the end of the key is lost,
and the last value with it.
-/

import Fleece.Blackboard
import Fleece.JsonText
import Fleece.Soundness

namespace Fleece

namespace FleeceGoapBlackboard

/-- The namespace and the value that the blackboard holds under a name. -/
def entry (bb : FleeceGoapBlackboard) (name : CString) : Option (Bool × List UInt8) :=
  (bb.index name).bind fun i => (bb.fields[i]?).map fun field => (field.isShared, field.data.bytes)

/-- The same map from names to namespaces and values. -/
def SameEntries (bb other : FleeceGoapBlackboard) : Prop := ∀ name, bb.entry name = other.entry name

/-- Names without the separator and values that are JSON texts. -/
structure HoldsJson (bb : FleeceGoapBlackboard) : Prop where
  names : ∀ field ∈ bb.fields, 0x1F ∉ field.name.chars
  values : ∀ field ∈ bb.fields, Json.Text field.data.bytes

/-- The `total` that `make_state_key` adds up. -/
def keyLength (bb : FleeceGoapBlackboard) : Nat :=
  (bb.fields.map fun field => 2 + field.name.chars.length + 1 + field.data.size).sum

/-! ### Entries -/

theorem eq_of_chars {name other : CString} (same : name.chars = other.chars) : name = other := by
  cases name
  cases other
  cases same
  rfl

theorem field_ext {field other : FleeceGoapField} (name : field.name.toCString = other.name.toCString)
    (isShared : field.isShared = other.isShared) (data : field.data.bytes = other.data.bytes) :
    field = other := by
  obtain ⟨⟨nameChars, _⟩, ⟨bytes, _⟩, shared, _⟩ := field
  obtain ⟨⟨nameChars', _⟩, ⟨bytes', _⟩, shared', _⟩ := other
  obtain rfl : nameChars = nameChars' := name
  obtain rfl : bytes = bytes' := data
  obtain rfl : shared = shared' := isShared
  rfl

theorem nodup_fields (bb : FleeceGoapBlackboard) : bb.fields.Nodup := bb.distinct.of_map _

theorem field_eq_of_name {bb : FleeceGoapBlackboard} {field other : FleeceGoapField}
    (member : field ∈ bb.fields) (isOther : other ∈ bb.fields)
    (same : field.name.toCString = other.name.toCString) : field = other := by
  refine List.inj_on_of_nodup_map bb.distinct member isOther ?_
  cases name : field.name
  cases nameOther : other.name
  rw [name, nameOther] at same
  cases same
  rfl

theorem index_spec {bb : FleeceGoapBlackboard} {name : CString} {i : Nat}
    (found : bb.index name = some i) :
    ∃ field, bb.fields[i]? = some field ∧ field.name.toCString = name := by
  obtain ⟨inside, here, _⟩ := List.findIdx?_eq_some_iff_getElem.mp found
  exact ⟨_, List.getElem?_eq_getElem inside, of_decide_eq_true here⟩

/-- The entry of a field that the blackboard holds. -/
theorem entry_of_mem {bb : FleeceGoapBlackboard} {field : FleeceGoapField}
    (member : field ∈ bb.fields) :
    bb.entry field.name.toCString = some (field.isShared, field.data.bytes) := by
  cases found : bb.index field.name.toCString with
  | none => exact absurd rfl (index_eq_none_iff.mp found field member)
  | some i =>
    obtain ⟨held, at', name⟩ := index_spec found
    obtain rfl := field_eq_of_name (List.mem_of_getElem? at') member name
    rw [entry, found, Option.bind_some, at', Option.map_some]

theorem entry_eq_some_iff {bb : FleeceGoapBlackboard} {name : CString}
    {value : Bool × List UInt8} : bb.entry name = some value ↔
      ∃ field ∈ bb.fields, field.name.toCString = name ∧
        (field.isShared, field.data.bytes) = value := by
  constructor
  · intro found
    obtain ⟨i, isIndex, held⟩ := Option.bind_eq_some_iff.mp found
    obtain ⟨field, at', isName⟩ := index_spec isIndex
    rw [at', Option.map_some] at held
    exact ⟨field, List.mem_of_getElem? at', isName, Option.some.inj held⟩
  · rintro ⟨field, member, rfl, rfl⟩
    exact entry_of_mem member

/-- Blackboards with the same entries hold the same fields, in whatever order. -/
theorem sameEntries_iff {bb other : FleeceGoapBlackboard} :
    bb.SameEntries other ↔ bb.fields.Perm other.fields := by
  have mem_of {bb other : FleeceGoapBlackboard} (same : bb.SameEntries other)
      {field : FleeceGoapField} (member : field ∈ bb.fields) : field ∈ other.fields := by
    have found := entry_of_mem member
    rw [same] at found
    obtain ⟨held, isHeld, name, value⟩ := entry_eq_some_iff.mp found
    obtain ⟨isShared, data⟩ := Prod.mk.inj value
    exact field_ext name isShared data ▸ isHeld
  rw [List.perm_ext_iff_of_nodup bb.nodup_fields other.nodup_fields]
  refine ⟨fun same field => ⟨mem_of same, mem_of fun name => (same name).symm⟩,
    fun same name => Option.ext fun value => ?_⟩
  rw [entry_eq_some_iff, entry_eq_some_iff]
  exact exists_congr fun field => and_congr_left fun _ => same field

/-! ### The sorted fields -/

theorem insertBackwards_perm (field : FleeceGoapField) (sorted : List FleeceGoapField) :
    (insertBackwards field sorted).Perm (field :: sorted) := by
  induction sorted with
  | nil => exact .refl _
  | cons held rest inductionHypothesis =>
    unfold insertBackwards
    split_ifs
    · exact (inductionHypothesis.cons held).trans (.swap field held rest)
    · exact .refl _

/-- Last first, each name before those on the left of it. -/
def Descending (fields : List FleeceGoapField) : Prop :=
  fields.Pairwise fun first second => second.name.chars < first.name.chars

theorem insertBackwards_descending {field : FleeceGoapField} {sorted : List FleeceGoapField}
    (isNew : ∀ held ∈ sorted, held.name.chars ≠ field.name.chars) (descending : Descending sorted) :
    Descending (insertBackwards field sorted) := by
  induction sorted with
  | nil => exact List.pairwise_singleton _ _
  | cons held rest inductionHypothesis =>
    obtain ⟨below, tail⟩ := List.pairwise_cons.mp descending
    unfold insertBackwards
    split_ifs with moves
    · refine List.pairwise_cons.mpr ⟨fun other member => ?_, inductionHypothesis
        (fun other member => isNew other (List.mem_cons_of_mem _ member)) tail⟩
      rcases List.mem_cons.mp ((insertBackwards_perm field rest).mem_iff.mp member) with rfl | later
      · exact moves
      · exact below other later
    · have above : held.name.chars < field.name.chars := by
        by_contra notAbove
        exact isNew held List.mem_cons_self (List.le_antisymm moves notAbove)
      refine List.pairwise_cons.mpr ⟨fun other member => ?_, descending⟩
      rcases List.mem_cons.mp member with rfl | later
      · exact above
      · exact List.lt_trans (below other later) above

theorem foldl_insertBackwards (fields sorted : List FleeceGoapField) (descending : Descending sorted)
    (distinct : ((sorted ++ fields).map fun field => field.name.chars).Nodup) :
    let result := fields.foldl (fun sorted field => insertBackwards field sorted) sorted
    result.Perm (sorted ++ fields) ∧ Descending result := by
  induction fields generalizing sorted with
  | nil => exact ⟨(List.append_nil sorted).symm ▸ .refl _, descending⟩
  | cons field rest inductionHypothesis =>
    have moved : (insertBackwards field sorted ++ rest).Perm (sorted ++ field :: rest) :=
      ((insertBackwards_perm field sorted).append_right rest).trans List.perm_middle.symm
    have isNew : ∀ held ∈ sorted, held.name.chars ≠ field.name.chars := by
      rw [List.map_append, List.nodup_append] at distinct
      exact fun held member => distinct.2.2 _ (List.mem_map_of_mem member) _
        (List.mem_map_of_mem List.mem_cons_self)
    obtain ⟨perm, last⟩ := inductionHypothesis (insertBackwards field sorted)
      (insertBackwards_descending isNew descending) ((moved.map _).nodup_iff.mpr distinct)
    exact ⟨perm.trans moved, last⟩

theorem nodup_chars (bb : FleeceGoapBlackboard) :
    (bb.fields.map fun field => field.name.chars).Nodup :=
  (List.nodup_map_iff_inj_on bb.nodup_fields).mpr fun _ member _ isOther same =>
    field_eq_of_name member isOther (eq_of_chars same)

theorem sortedFields_perm (bb : FleeceGoapBlackboard) : bb.sortedFields.Perm bb.fields :=
  (List.reverse_perm _).trans (foldl_insertBackwards bb.fields [] .nil bb.nodup_chars).1

/-- The fields in the order of their names. -/
theorem sortedFields_ascending (bb : FleeceGoapBlackboard) :
    bb.sortedFields.Pairwise fun first second => first.name.chars < second.name.chars :=
  List.pairwise_reverse.mpr (foldl_insertBackwards bb.fields [] .nil bb.nodup_chars).2

/-- The order of the names leaves one way to put the same fields down. -/
theorem sortedFields_eq_iff {bb other : FleeceGoapBlackboard} :
    bb.sortedFields = other.sortedFields ↔ bb.SameEntries other := by
  rw [sameEntries_iff]
  constructor
  · intro same
    exact (bb.sortedFields_perm.symm.trans (same ▸ .refl _)).trans other.sortedFields_perm
  · intro perm
    refine List.Perm.eq_of_pairwise (fun first second _ _ before behind => ?_)
      bb.sortedFields_ascending other.sortedFields_ascending
      ((bb.sortedFields_perm.trans perm).trans other.sortedFields_perm.symm)
    exact (List.lt_asymm before behind).elim

/-! ### Reading a key -/

/-- The bytes of the fields, one after another. -/
def keyBytes (fields : List FleeceGoapField) : List UInt8 := (fields.map fieldKey).flatten

/-- What stands before the first separator. -/
theorem separator_inj {separator : UInt8} {first second left right : List UInt8}
    (absent : separator ∉ first) (absentOther : separator ∉ second)
    (same : first ++ separator :: left = second ++ separator :: right) :
    first = second ∧ left = right := by
  rcases List.append_eq_append_iff.mp same with ⟨gap, longer, rest⟩ | ⟨gap, longer, rest⟩
  · cases gap with
    | nil => exact ⟨by rw [longer, List.append_nil], (List.cons.inj rest).2⟩
    | cons byte tail =>
      rw [longer, ← (List.cons.inj rest).1] at absentOther
      exact absurd (List.mem_append_right _ List.mem_cons_self) absentOther
  · cases gap with
    | nil => exact ⟨by rw [longer, List.append_nil], (List.cons.inj rest).2.symm⟩
    | cons byte tail =>
      rw [longer, ← (List.cons.inj rest).1] at absent
      exact absurd (List.mem_append_right _ List.mem_cons_self) absent

/-- A field is read from its bytes in one way. -/
theorem fieldKey_inj {field other : FleeceGoapField} {left right : List UInt8}
    (name : 0x1F ∉ field.name.chars) (nameOther : 0x1F ∉ other.name.chars)
    (text : Json.Text field.data.bytes) (textOther : Json.Text other.data.bytes)
    (same : fieldKey field ++ left = fieldKey other ++ right)
    (ends : ∀ byte ∈ left.head?, Json.isNumberByte byte = false)
    (endsOther : ∀ byte ∈ right.head?, Json.isNumberByte byte = false) :
    field = other ∧ left = right := by
  unfold fieldKey at same
  simp only [List.cons_append, List.append_assoc] at same
  obtain ⟨space, afterSpace⟩ := List.cons.inj same
  obtain ⟨chars, tails⟩ := separator_inj name nameOther (List.cons.inj afterSpace).2
  obtain ⟨data, rest⟩ := text.split textOther tails ends endsOther
  have isShared : field.isShared = other.isShared := by
    cases isField : field.isShared <;> cases isOther : other.isShared <;>
      first | rfl | (rw [isField, isOther] at space; exact absurd space (by decide))
  exact ⟨field_ext (eq_of_chars chars) isShared data, rest⟩

/-- The fields are read from their bytes in one way. -/
theorem keyBytes_inj {fields others : List FleeceGoapField}
    (json : ∀ field ∈ fields, 0x1F ∉ field.name.chars ∧ Json.Text field.data.bytes)
    (jsonOther : ∀ field ∈ others, 0x1F ∉ field.name.chars ∧ Json.Text field.data.bytes)
    (same : keyBytes fields = keyBytes others) : fields = others := by
  have begins (fields : List FleeceGoapField) :
      ∀ byte ∈ (keyBytes fields).head?, Json.isNumberByte byte = false := by
    cases fields with
    | nil => exact fun _ => nofun
    | cons field rest =>
      intro byte isHead
      obtain rfl := Option.some.inj isHead
      cases field.isShared <;> decide
  induction fields generalizing others with
  | nil =>
    cases others with
    | nil => rfl
    | cons other rest => cases same
  | cons field rest inductionHypothesis =>
    cases others with
    | nil => cases same
    | cons other restOther =>
      obtain ⟨rfl, later⟩ := fieldKey_inj (json field List.mem_cons_self).1
        (jsonOther other List.mem_cons_self).1 (json field List.mem_cons_self).2
        (jsonOther other List.mem_cons_self).2 same (begins rest) (begins restOther)
      rw [inductionHypothesis (fun held member => json held (List.mem_cons_of_mem _ member))
        (fun held member => jsonOther held (List.mem_cons_of_mem _ member)) later]

theorem length_fieldKey (field : FleeceGoapField) :
    (fieldKey field).length = 2 + field.name.chars.length + 1 + field.data.size := by
  unfold fieldKey
  simp only [List.length_append, List.length_cons, Blob.size]
  omega

theorem length_keyBytes (bb : FleeceGoapBlackboard) :
    (keyBytes bb.sortedFields).length = bb.keyLength := by
  rw [keyBytes, List.length_flatten, List.map_map, keyLength, ← (bb.sortedFields_perm.map _).sum_eq]
  exact congrArg List.sum (List.map_congr_left fun field _ => length_fieldKey field)

theorem makeStateKey_eq (bb : FleeceGoapBlackboard) :
    bb.makeStateKey = (keyBytes bb.sortedFields).take (bb.keyLength % 2 ^ 32) := by
  rw [← length_keyBytes]
  rfl

theorem makeStateKey_of_short {bb : FleeceGoapBlackboard} (short : bb.keyLength < 2 ^ 32) :
    bb.makeStateKey = keyBytes bb.sortedFields := by
  rw [makeStateKey_eq, Nat.mod_eq_of_lt short, ← length_keyBytes, List.take_length]

theorem HoldsJson.sorted {bb : FleeceGoapBlackboard} (json : bb.HoldsJson) :
    ∀ field ∈ bb.sortedFields, 0x1F ∉ field.name.chars ∧ Json.Text field.data.bytes :=
  fun field member =>
    have held := bb.sortedFields_perm.mem_iff.mp member
    ⟨json.names field held, json.values field held⟩

theorem makeStateKey_eq_iff {bb other : FleeceGoapBlackboard} (json : bb.HoldsJson)
    (jsonOther : other.HoldsJson) (short : bb.keyLength < 2 ^ 32)
    (shortOther : other.keyLength < 2 ^ 32) :
    bb.makeStateKey = other.makeStateKey ↔ bb.SameEntries other := by
  rw [makeStateKey_of_short short, makeStateKey_of_short shortOther, ← sortedFields_eq_iff]
  exact ⟨keyBytes_inj json.sorted jsonOther.sorted, congrArg keyBytes⟩

/-! ### Long keys -/

/-- A number of one digit again and again. -/
theorem text_replicate {digit : UInt8} (isDigit : Json.isDigit digit) (nonzero : digit ≠ 0x30)
    {count : Nat} (some : count ≠ 0) : Json.Text (List.replicate count digit) := by
  obtain ⟨count, rfl⟩ := Nat.exists_eq_succ_of_ne_zero some
  have digits : (List.replicate count digit).all Json.isDigit :=
    List.all_eq_true.mpr fun byte member => by rw [List.eq_of_mem_replicate member, isDigit]
  have number : Json.Number ([] ++ digit :: List.replicate count digit ++ [] ++ []) :=
    .mk List.mem_cons_self (.inr ⟨digit, _, rfl, isDigit, nonzero, digits⟩) (.inl rfl) (.inl rfl)
  rw [List.nil_append, List.append_nil, List.append_nil] at number
  exact .number number

/-- Another JSON text of the same length. -/
theorem exists_other_text {bytes : List UInt8} (some : bytes ≠ []) :
    ∃ other, other.length = bytes.length ∧ other ≠ bytes ∧ Json.Text other := by
  have count : bytes.length ≠ 0 := fun none => some (List.length_eq_zero_iff.mp none)
  by_cases ones : List.replicate bytes.length 0x31 = bytes
  · refine ⟨List.replicate bytes.length 0x32, List.length_replicate, fun twos => ?_,
      text_replicate (by decide) (by decide) count⟩
    exact absurd (List.replicate_right_injective count (ones.trans twos.symm)) (by decide)
  · exact ⟨List.replicate bytes.length 0x31, List.length_replicate, ones,
      text_replicate (by decide) (by decide) count⟩

/-- The blackboard with another value in the field of a name. -/
def withValue (bb : FleeceGoapBlackboard) (old : FleeceGoapField) (data : Blob)
    (filled : data.size ≠ 0) : FleeceGoapBlackboard where
  fields := bb.fields.map fun field =>
    if field = old then { field with data := data, filled := filled } else field
  distinct := by
    rw [List.map_map]
    have names : (bb.fields.map (FleeceGoapField.name ∘ fun field =>
        if field = old then { field with data := data, filled := filled } else field)) =
        bb.fields.map FleeceGoapField.name := by
      refine List.map_congr_left fun field _ => ?_
      rw [Function.comp_apply]
      split_ifs <;> rfl
    rw [names]
    exact bb.distinct

section Long

variable {bb : FleeceGoapBlackboard} {front : List FleeceGoapField} {old : FleeceGoapField}
  (order : bb.sortedFields = front ++ [old]) {data : Blob} (filled : data.size ≠ 0)
include order

/-- The last of the sorted fields has another value, and the others stay where they are. -/
theorem sortedFields_withValue : (bb.withValue old data filled).sortedFields =
    front ++ [{ old with data := data, filled := filled }] := by
  have ascending := bb.sortedFields_ascending
  have perm := bb.sortedFields_perm
  rw [order] at ascending perm
  have distinct := perm.nodup_iff.mpr bb.nodup_fields
  have others : front.map (fun field =>
      if field = old then { field with data := data, filled := filled } else field) = front := by
    refine (List.map_congr_left fun field member => ?_).trans (List.map_id front)
    exact if_neg fun same => (List.nodup_append.mp distinct).2.2 field member old
      (List.mem_singleton_self old) same
  have moved := perm.map fun field =>
    if field = old then { field with data := data, filled := filled } else field
  rw [List.map_append, others, List.map_singleton, if_pos rfl] at moved
  refine List.Perm.eq_of_pairwise (fun first second _ _ before behind => ?_)
    (bb.withValue old data filled).sortedFields_ascending ?_
    ((bb.withValue old data filled).sortedFields_perm.trans moved.symm)
  · exact (List.lt_asymm before behind).elim
  · obtain ⟨left, _, across⟩ := List.pairwise_append.mp ascending
    refine List.pairwise_append.mpr ⟨left, List.pairwise_singleton _ _, ?_⟩
    intro field member last isLast
    rw [List.mem_singleton.mp isLast]
    exact across field member old (List.mem_singleton_self old)

end Long

/-- The bytes of a field before its value. -/
def fieldHead (field : FleeceGoapField) : List UInt8 :=
  (if field.isShared then 0x77 else 0x73) :: 0x3A :: field.name.chars ++ [0x1F]

theorem keyBytes_concat (front : List FleeceGoapField) (field : FleeceGoapField) :
    keyBytes (front ++ [field]) = keyBytes front ++ fieldHead field ++ field.data.bytes := by
  simp only [keyBytes, fieldKey, fieldHead, List.map_append, List.flatten_append, List.map_singleton,
    List.flatten_singleton, List.append_assoc, List.cons_append, List.nil_append]

/-- Where the key is too long, another blackboard has the same one. -/
theorem exists_same_key {bb : FleeceGoapBlackboard} (json : bb.HoldsJson)
    (long : 2 ^ 32 ≤ bb.keyLength) : ∃ other : FleeceGoapBlackboard, other.HoldsJson ∧
      other.keyLength ≤ bb.keyLength ∧ bb.makeStateKey = other.makeStateKey ∧
      ¬ bb.SameEntries other := by
  have some : bb.sortedFields ≠ [] := by
    intro none
    rw [← length_keyBytes, none] at long
    exact absurd long (by decide)
  obtain ⟨front, old, order⟩ : ∃ front old, bb.sortedFields = front ++ [old] :=
    ⟨_, _, (List.dropLast_append_getLast some).symm⟩
  obtain ⟨bytes, length, different, text⟩ :=
    exists_other_text fun none => old.filled (List.length_eq_zero_iff.mpr none)
  let data : Blob := ⟨bytes, length.trans_lt old.data.sizeLt⟩
  have filled : data.size ≠ 0 := length.trans_ne old.filled
  have changed := sortedFields_withValue order filled
  have whole := length_keyBytes bb
  have wholeOther := length_keyBytes (bb.withValue old data filled)
  rw [order, keyBytes_concat, List.length_append] at whole
  rw [changed, keyBytes_concat, List.length_append] at wholeOther
  have sameLength : (bb.withValue old data filled).keyLength = bb.keyLength := by
    rw [← wholeOther, ← whole]
    exact congrArg (_ + ·) length
  refine ⟨bb.withValue old data filled, ?_, sameLength.le, ?_, fun same => ?_⟩
  · have held : ∀ field ∈ (bb.withValue old data filled).fields,
        0x1F ∉ field.name.chars ∧ Json.Text field.data.bytes := by
      intro field member
      rw [← (sortedFields_perm _).mem_iff, changed] at member
      rcases List.mem_append.mp member with early | last
      · exact json.sorted field (order ▸ List.mem_append_left _ early)
      · rw [List.mem_singleton.mp last]
        exact ⟨(json.sorted old (order ▸ List.mem_append_right _ (List.mem_singleton_self old))).1,
          text⟩
    exact ⟨fun field member => (held field member).1, fun field member => (held field member).2⟩
  · -- the cut takes off 2^32 bytes at least, and no value has as many
    have cut : bb.keyLength % 2 ^ 32 ≤ (keyBytes front ++ fieldHead old).length := by
      have size : old.data.bytes.length < 2 ^ 32 := old.data.sizeLt
      omega
    rw [makeStateKey_eq, makeStateKey_eq, sameLength, order, changed, keyBytes_concat,
      keyBytes_concat, List.take_append_of_le_length cut]
    exact (List.take_append_of_le_length cut).symm
  · have equal := sortedFields_eq_iff.mpr same
    rw [order, changed] at equal
    have last := List.cons.inj (List.append_cancel_left equal)
    exact different (congrArg (fun field => field.data.bytes) last.1).symm

/-- A blackboard has a key of its own among the blackboards whose keys are no longer if and only if
its key is shorter than 2^32 bytes. -/
theorem state_key_canonical_iff {bb : FleeceGoapBlackboard} (json : bb.HoldsJson) :
    (∀ other : FleeceGoapBlackboard, other.HoldsJson → other.keyLength ≤ bb.keyLength →
      (bb.makeStateKey = other.makeStateKey ↔ bb.SameEntries other)) ↔ bb.keyLength < 2 ^ 32 := by
  constructor
  · intro canonical
    by_contra long
    obtain ⟨other, jsonOther, shorter, same, different⟩ :=
      exists_same_key json (Nat.not_lt.mp long)
    exact different ((canonical other jsonOther shorter).mp same)
  · intro short other jsonOther shorter
    exact makeStateKey_eq_iff json jsonOther short (shorter.trans_lt short)

theorem length_placeName_lt : placeName.chars.length < fieldNameMax := by decide

/-- The blackboard whose one value is a number of one digit again and again. -/
def ofDigits (digit : UInt8) (count : Nat) (some : count ≠ 0) (small : count < 2 ^ 32) :
    FleeceGoapBlackboard where
  fields := [⟨⟨placeName, length_placeName_lt⟩,
    ⟨List.replicate count digit, by rw [List.length_replicate]; exact small⟩, false, by
      rw [Blob.size, List.length_replicate]
      exact some⟩]
  distinct := List.nodup_singleton _

theorem holdsJson_ofDigits {digit : UInt8} (isDigit : Json.isDigit digit) (nonzero : digit ≠ 0x30)
    {count : Nat} (some : count ≠ 0) (small : count < 2 ^ 32) :
    (ofDigits digit count some small).HoldsJson := by
  constructor
  · intro field member
    rw [List.mem_singleton.mp member]
    exact (by decide : 0x1F ∉ placeName.chars)
  · intro field member
    rw [List.mem_singleton.mp member]
    exact text_replicate isDigit nonzero some

theorem keyLength_ofDigits (digit : UInt8) (count : Nat) (some : count ≠ 0)
    (small : count < 2 ^ 32) : (ofDigits digit count some small).keyLength = 5 + count := by
  rw [keyLength, ofDigits, List.map_singleton, List.sum_singleton, Blob.size,
    List.length_replicate]
  rfl

/-- Two short blackboards. -/
theorem state_key_canonical_digits :
    let first := ofDigits 0x31 1 (by decide) (by decide)
    let second := ofDigits 0x32 1 (by decide) (by decide)
    first.keyLength < 2 ^ 32 ∧
      (first.makeStateKey = second.makeStateKey ↔ first.SameEntries second) := by
  intro first second
  have json : first.HoldsJson := holdsJson_ofDigits (by decide) (by decide) _ _
  have jsonOther : second.HoldsJson := holdsJson_ofDigits (by decide) (by decide) _ _
  have short : first.keyLength < 2 ^ 32 := by
    rw [keyLength_ofDigits]
    decide
  refine ⟨short, (state_key_canonical_iff json).mpr short second jsonOther ?_⟩
  rw [keyLength_ofDigits, keyLength_ofDigits]

/-- The numbers 11...1 and 22...2 of 2^32 - 5 digits under a name of two bytes: both keys have
2^32 bytes, and of both no byte is left. -/
theorem state_keys_collide :
    let first := ofDigits 0x31 (2 ^ 32 - 5) (by decide) (by decide)
    let second := ofDigits 0x32 (2 ^ 32 - 5) (by decide) (by decide)
    first.HoldsJson ∧ second.HoldsJson ∧ first.makeStateKey = second.makeStateKey ∧
      ¬ first.SameEntries second := by
  intro first second
  have empty {digit : UInt8} {count : Nat} (some : count ≠ 0) (small : count < 2 ^ 32)
      (whole : 5 + count = 2 ^ 32) : (ofDigits digit count some small).makeStateKey = [] := by
    rw [makeStateKey_eq, keyLength_ofDigits, whole, Nat.mod_self, List.take_zero]
  have differ {count : Nat} (some : count ≠ 0) (small : count < 2 ^ 32) :
      ¬ (ofDigits 0x31 count some small).SameEntries (ofDigits 0x32 count some small) := by
    intro same
    have fields := List.perm_singleton.mp (sameEntries_iff.mp same)
    have bytes := congrArg (List.map fun field => field.data.bytes) fields
    have digits := (List.cons.inj bytes).1
    have equal := (List.replicate_inj.mp digits).2
    exact absurd (equal.resolve_left some) (by decide)
  refine ⟨holdsJson_ofDigits (by decide) (by decide) _ _,
    holdsJson_ofDigits (by decide) (by decide) _ _, ?_, differ _ _⟩
  exact (empty _ _ (by decide)).trans (empty _ _ (by decide)).symm

end FleeceGoapBlackboard

end Fleece
