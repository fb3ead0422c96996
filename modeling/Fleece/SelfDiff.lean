/-
This file models `build_self_diff_json` of `fleece_goap_js.c`, which writes the fields
of the node's own that differ between two blackboards as a JSON object into a buffer,
and is about what the object says.

A name is copied between two quotes as it is. A value is looked up in the original
blackboard by its name alone, in both namespaces. A field is copied only if six bytes
besides its name and its value leave the buffer short of full, one or two more than it
takes.
-/

import Fleece.JsonObject
import Fleece.Namespaces
import Fleece.Runs

namespace Fleece

open Json (Denotes Object Plain Spaced Utf8 writeItems writeObject)

/-! ### The loop -/

/-- What the loop has written and, which is not in the source, the fields it has copied. -/
structure DiffBuild where
  out : List UInt8
  first : Bool
  copied : List FleeceGoapField

namespace DiffBuild

/-- The opening brace, before the first field. -/
def start : DiffBuild := ⟨[0x7B], true, []⟩

/-- A field is written behind a comma, unless it is the first. -/
def copy (build : DiffBuild) (field : FleeceGoapField) : DiffBuild where
  out := build.out ++ (if build.first then [] else [0x2C]) ++
    0x22 :: (field.name.chars ++ 0x22 :: 0x3A :: field.data.bytes)
  first := false
  copied := build.copied ++ [field]

/-- One turn of the loop. -/
def turn (orig : FleeceGoapBlackboard) (outCap : Nat) (build : DiffBuild)
    (field : FleeceGoapField) : DiffBuild :=
  if field.isShared then build
  else if orig.get field.name.toCString = some field.data then build
  else
    let need := field.name.chars.length + field.data.size + 6
    if outCap ≤ build.out.length + need then build else build.copy field

end DiffBuild

section Diff

variable (orig sim : FleeceGoapBlackboard) (outCap : Nat)

/-- The loop over the fields of the simulated blackboard. -/
def diffLoop : DiffBuild := runFrom (DiffBuild.turn orig outCap) .start sim.fields

/-- `build_self_diff_json`: the code and the bytes written. -/
def buildSelfDiffJson : Int × List UInt8 :=
  if outCap < 3 then (-1, [])
  else
    let build := diffLoop orig sim outCap
    if outCap ≤ build.out.length + 1 then (-1, build.out) else (0, build.out ++ [0x7D, 0])

/-! ### What the object should say -/

variable (field : FleeceGoapField)

/-- A field of the node's own that the original does not have, or has with another value. -/
def IsChanged : Prop := field.isShared = false ∧ orig.space field.place ≠ some field.data

instance : Decidable (IsChanged orig field) := inferInstanceAs (Decidable (_ ∧ _))

/-- The field as a member of a JSON object: its name and its value. -/
def FleeceGoapField.member : List UInt8 × List UInt8 := (field.name.chars, field.data.bytes)

/-- The bytes of the object with some fields. -/
def objectSize (fields : List FleeceGoapField) : Nat :=
  (writeObject (fields.map FleeceGoapField.member)).length

/-- There is room for the object with one more field and for the terminator. -/
def Fits (kept : List FleeceGoapField) : Prop := objectSize (kept ++ [field]) < outCap

instance (kept : List FleeceGoapField) : Decidable (Fits outCap field kept) :=
  inferInstanceAs (Decidable (_ < _))

/-- The object says what the node's own fields of `sim` have over those of `orig`, as far as there
is room for it. -/
structure DiffExact (code : Int) (out : List UInt8) : Prop where
  code : code = 0
  room : out.length ≤ outCap
  /-- The text, before its terminator, is an object with the fields that were copied. -/
  object : ∃ text written, out = text ++ [0] ∧ Utf8 text ∧ Object text written ∧
    List.Forall₂ Denotes written ((diffLoop orig sim outCap).copied.map FleeceGoapField.member)
  changed : (diffLoop orig sim outCap).copied.Sublist
    (sim.fields.filter fun field => decide (IsChanged orig field))
  /-- A field is left out at its turn only if it does not fit. -/
  leftOut : Along (DiffBuild.turn orig outCap)
    (fun build field => IsChanged orig field → DiffBuild.turn orig outCap build field = build →
      ¬ Fits outCap field build.copied) .start sim.fields

/-! ### When it does -/

/-- The fields that fit are kept, each behind those before it. -/
def keepTurn (kept : List FleeceGoapField) (field : FleeceGoapField) : List FleeceGoapField :=
  if IsChanged orig field ∧ Fits outCap field kept then kept ++ [field] else kept

/-- A field is copied, and copied well: the world of the original does not have its name with its
value, the object so far leaves six bytes besides its name and its value, and its name needs no
escape and is UTF-8. -/
structure CopiedWell (kept : List FleeceGoapField) : Prop where
  visible : orig.space (field.name.toCString, true) ≠ some field.data
  spare : objectSize kept + field.name.chars.length + field.data.size + 6 ≤ outCap
  plain : Plain field.name.chars
  utf8 : Utf8 field.name.chars

variable {orig sim : FleeceGoapBlackboard} {outCap : Nat} {field : FleeceGoapField}

/-! ### A turn -/

/-- The object is open, what was copied is in it, and there is room to close it. -/
structure DiffBuild.Valid (outCap : Nat) (build : DiffBuild) : Prop where
  out : build.out = 0x7B :: writeItems (build.copied.map FleeceGoapField.member)
  first : build.first = true ↔ build.copied = []
  room : build.out.length + 2 ≤ outCap

theorem DiffBuild.valid_start (large : 3 ≤ outCap) : DiffBuild.start.Valid outCap :=
  ⟨rfl, Iff.intro (fun _ => rfl) fun _ => rfl, large⟩

theorem DiffBuild.Valid.size {build : DiffBuild} (valid : build.Valid outCap) :
    objectSize build.copied = build.out.length + 1 := by
  rw [objectSize, Json.length_writeObject, valid.out, List.length_cons]

theorem objectSize_concat (kept : List FleeceGoapField) (field : FleeceGoapField) :
    objectSize (kept ++ [field]) = objectSize kept + (if kept = [] then 0 else 1) +
      (field.name.chars.length + field.data.size + 3) := by
  unfold objectSize
  rw [List.map_append, List.map_singleton, Json.length_writeObject_concat]
  simp only [List.map_eq_nil_iff]
  rfl

theorem DiffBuild.Valid.copy {build : DiffBuild} (valid : build.Valid outCap)
    (spare : objectSize build.copied + field.name.chars.length + field.data.size + 6 ≤ outCap) :
    (build.copy field).Valid outCap := by
  have comma : (if build.first then ([] : List UInt8) else [0x2C]) =
      if build.copied.map FleeceGoapField.member = [] then [] else [0x2C] := by
    simp only [List.map_eq_nil_iff, valid.first]
  have out : (build.copy field).out =
      0x7B :: writeItems ((build.copied ++ [field]).map FleeceGoapField.member) := by
    rw [List.map_append, List.map_singleton, Json.writeItems_concat]
    show build.out ++ _ ++ _ = _
    rw [comma, valid.out]
    rfl
  refine ⟨out, ?_, ?_⟩
  · exact iff_of_false Bool.false_ne_true (List.append_ne_nil_of_right_ne_nil _
      (List.cons_ne_nil field []))
  · have size := Json.length_writeObject ((build.copied ++ [field]).map FleeceGoapField.member)
    have grown := objectSize_concat build.copied field
    rw [out, List.length_cons]
    unfold objectSize at grown spare
    split_ifs at grown <;> omega

/-- A field that is hidden by neither namespace of the original, with six bytes to spare. -/
def Passes (orig : FleeceGoapBlackboard) (outCap : Nat) (kept : List FleeceGoapField)
    (field : FleeceGoapField) : Prop :=
  field.isShared = false ∧ orig.get field.name.toCString ≠ some field.data ∧
    objectSize kept + field.name.chars.length + field.data.size + 6 ≤ outCap

instance (orig : FleeceGoapBlackboard) (kept : List FleeceGoapField) :
    Decidable (Passes orig outCap kept field) := inferInstanceAs (Decidable (_ ∧ _))

theorem DiffBuild.Valid.turn {build : DiffBuild} (valid : build.Valid outCap)
    (orig : FleeceGoapBlackboard) (field : FleeceGoapField) :
    build.turn orig outCap field =
      if Passes orig outCap build.copied field then build.copy field else build := by
  have size := valid.size
  unfold DiffBuild.turn
  by_cases shared : field.isShared = true
  · rw [if_pos shared, if_neg]
    rintro ⟨own, _⟩
    rw [own] at shared
    cases shared
  rw [if_neg shared]
  by_cases hidden : orig.get field.name.toCString = some field.data
  · rw [if_pos hidden, if_neg]
    exact fun passes => passes.2.1 hidden
  rw [if_neg hidden]
  dsimp only
  by_cases full : outCap ≤ build.out.length + (field.name.chars.length + field.data.size + 6)
  · rw [if_pos full, if_neg]
    rintro ⟨_, _, spare⟩
    omega
  · rw [if_neg full, if_pos]
    exact ⟨(Bool.not_eq_true _).mp shared, hidden, by omega⟩

/-- A value that a lookup by name finds is that of one of its places. -/
theorem FleeceGoapBlackboard.get_eq_some_iff {bb : FleeceGoapBlackboard} {name : CString}
    {data : Blob} : bb.get name = some data ↔
      bb.space (name, false) = some data ∨ bb.space (name, true) = some data := by
  rw [get_eq]
  cases own : bb.space (name, false) with
  | none => exact (or_iff_right nofun).symm
  | some value =>
    refine (or_iff_left fun world => ?_).symm
    exact absurd (isShared_unique own world) Bool.false_ne_true

/-- A field passes if it has changed, with room for six bytes, and is not hidden by the world. -/
theorem passes_iff {kept : List FleeceGoapField} : Passes orig outCap kept field ↔
    IsChanged orig field ∧ orig.space (field.name.toCString, true) ≠ some field.data ∧
      objectSize kept + field.name.chars.length + field.data.size + 6 ≤ outCap := by
  unfold Passes IsChanged FleeceGoapField.place
  rw [and_assoc]
  refine and_congr_right fun own => ?_
  rw [own, ← and_assoc]
  refine and_congr_left fun _ => ?_
  rw [← not_or]
  exact not_congr FleeceGoapBlackboard.get_eq_some_iff

theorem Passes.fits {kept : List FleeceGoapField} (passes : Passes orig outCap kept field) :
    Fits outCap field kept := by
  have grown := objectSize_concat kept field
  have spare := passes.2.2
  unfold Fits
  split_ifs at grown <;> omega

/-! ### The loop -/

/-- At every turn a changed field that fits is copied, and all names that are copied stand for
themselves, exactly if each changed field that fits behind those before it is copied well. -/
theorem along_turn_iff {build : DiffBuild} (valid : build.Valid outCap)
    (fields : List FleeceGoapField) :
    (Along (DiffBuild.turn orig outCap)
        (fun build field => IsChanged orig field → DiffBuild.turn orig outCap build field = build →
          ¬ Fits outCap field build.copied) build fields ∧
      ∀ field ∈ (runFrom (DiffBuild.turn orig outCap) build fields).copied,
        Plain field.name.chars ∧ Utf8 field.name.chars) ↔
      (∀ field ∈ build.copied, Plain field.name.chars ∧ Utf8 field.name.chars) ∧
        Along (keepTurn orig outCap)
          (fun kept field => IsChanged orig field → Fits outCap field kept →
            CopiedWell orig outCap field kept) build.copied fields := by
  induction fields generalizing build with
  | nil =>
    rw [runFrom_nil, Along, Along]
    exact and_comm
  | cons field rest inductionHypothesis =>
    rw [runFrom_cons, Along, Along]
    by_cases passes : Passes orig outCap build.copied field
    · obtain ⟨changed, visible, spare⟩ := passes_iff.mp passes
      have turned : build.turn orig outCap field = build.copy field :=
        (valid.turn orig field).trans (if_pos passes)
      have kept : keepTurn orig outCap build.copied field = build.copied ++ [field] :=
        if_pos ⟨changed, passes.fits⟩
      have moved : build.copy field ≠ build := fun same => by
        have longer := congrArg (fun build => build.copied.length) same
        simp only [DiffBuild.copy, List.length_append, List.length_singleton] at longer
        omega
      have well : (IsChanged orig field → Fits outCap field build.copied →
          CopiedWell orig outCap field build.copied) ↔
            Plain field.name.chars ∧ Utf8 field.name.chars :=
        ⟨fun copied => ⟨(copied changed passes.fits).plain, (copied changed passes.fits).utf8⟩,
          fun name _ _ => ⟨visible, spare, name.1, name.2⟩⟩
      have names : (∀ other ∈ (build.copy field).copied,
          Plain other.name.chars ∧ Utf8 other.name.chars) ↔
          (∀ other ∈ build.copied, Plain other.name.chars ∧ Utf8 other.name.chars) ∧
            Plain field.name.chars ∧ Utf8 field.name.chars := by
        rw [← List.forall_mem_singleton (p := fun other : FleeceGoapField =>
          Plain other.name.chars ∧ Utf8 other.name.chars), ← List.forall_mem_append]
        rfl
      rw [turned, kept, and_assoc, inductionHypothesis (valid.copy spare),
        and_iff_right fun _ same => absurd same moved, well, names, and_assoc]
      rfl
    · have turned : build.turn orig outCap field = build :=
        (valid.turn orig field).trans (if_neg passes)
      rw [turned, and_assoc, inductionHypothesis valid]
      by_cases fits : IsChanged orig field ∧ Fits outCap field build.copied
      · refine iff_of_false (fun left => left.1 fits.1 rfl fits.2) fun right => passes ?_
        obtain ⟨visible, spare, _, _⟩ := right.2.1 fits.1 fits.2
        exact passes_iff.mpr ⟨fits.1, visible, spare⟩
      · have kept : keepTurn orig outCap build.copied field = build.copied := if_neg fits
        rw [kept]
        have none : (IsChanged orig field → build = build → ¬ Fits outCap field build.copied) :=
          fun changed _ room => fits ⟨changed, room⟩
        have noneKept : (IsChanged orig field → Fits outCap field build.copied →
            CopiedWell orig outCap field build.copied) :=
          fun changed room => absurd ⟨changed, room⟩ fits
        rw [and_iff_right none, and_iff_right noneKept]

theorem diffLoop_valid (orig sim : FleeceGoapBlackboard) (large : 3 ≤ outCap) :
    (diffLoop orig sim outCap).Valid outCap := by
  have steps (build : DiffBuild) (field : FleeceGoapField) (valid : build.Valid outCap) :
      (build.turn orig outCap field).Valid outCap := by
    rw [valid.turn]
    split_ifs with passes
    · exact valid.copy passes.2.2
    · exact valid
  exact Along.invariant (.of_forall fun _ _ => trivial)
    (fun build field valid _ => steps build field valid) (DiffBuild.valid_start large)

/-- The code is 0, and the object is closed and terminated inside of the buffer. -/
theorem buildSelfDiffJson_eq (orig sim : FleeceGoapBlackboard) (large : 3 ≤ outCap) :
    buildSelfDiffJson orig sim outCap =
        (0, writeObject ((diffLoop orig sim outCap).copied.map FleeceGoapField.member) ++ [0]) ∧
      objectSize (diffLoop orig sim outCap).copied < outCap := by
  have valid := diffLoop_valid orig sim large
  have size := valid.size
  have room := valid.room
  refine ⟨?_, by omega⟩
  unfold buildSelfDiffJson
  rw [if_neg (Nat.not_lt.mpr large)]
  dsimp only
  rw [if_neg (by omega), valid.out, writeObject]
  simp only [List.cons_append, List.append_assoc, List.nil_append]

/-- What is copied has changed, in the order of the fields. -/
theorem copied_sublist {build : DiffBuild} (valid : build.Valid outCap)
    (fields : List FleeceGoapField) :
    ∃ added, (runFrom (DiffBuild.turn orig outCap) build fields).copied = build.copied ++ added ∧
      added.Sublist (fields.filter fun field => decide (IsChanged orig field)) := by
  induction fields generalizing build with
  | nil => exact ⟨[], (List.append_nil _).symm, List.Sublist.refl _⟩
  | cons field rest inductionHypothesis =>
    rw [runFrom_cons, valid.turn]
    split_ifs with passes
    · obtain ⟨added, copied, sublist⟩ := inductionHypothesis (valid.copy passes.2.2)
      refine ⟨field :: added, ?_, ?_⟩
      · rw [copied, DiffBuild.copy, List.append_assoc]
        rfl
      · rw [List.filter_cons, if_pos (decide_eq_true (passes_iff.mp passes).1)]
        exact sublist.cons_cons field
    · obtain ⟨added, copied, sublist⟩ := inductionHypothesis valid
      refine ⟨added, copied, sublist.trans ?_⟩
      exact (List.sublist_cons_self field rest).filter _

/-- For every two blackboards of which the second holds JSON texts, and every room for at least three
bytes: the object says what it should exactly if every changed field that fits behind those kept
before it is copied well. -/
theorem selfDiff_exact_iff (orig sim : FleeceGoapBlackboard) (outCap : Nat) (large : 3 ≤ outCap)
    (values : ∀ field ∈ sim.fields, Spaced field.data.bytes ∧ Utf8 field.data.bytes) :
    DiffExact orig sim outCap (buildSelfDiffJson orig sim outCap).1
        (buildSelfDiffJson orig sim outCap).2 ↔
      Along (keepTurn orig outCap)
        (fun kept field => IsChanged orig field → Fits outCap field kept →
          CopiedWell orig outCap field kept) [] sim.fields := by
  obtain ⟨built, room⟩ := buildSelfDiffJson_eq orig sim large
  obtain ⟨added, copied, sublist⟩ := copied_sublist (DiffBuild.valid_start large) sim.fields
  have changed : (diffLoop orig sim outCap).copied.Sublist
      (sim.fields.filter fun field => decide (IsChanged orig field)) := by
    rw [diffLoop, copied]
    exact sublist
  have along := @along_turn_iff orig outCap .start (DiffBuild.valid_start large) sim.fields
  rw [show DiffBuild.start.copied = [] from rfl, and_iff_right (fun _ => nofun)] at along
  rw [← along, built]
  have written : (∀ member ∈ (diffLoop orig sim outCap).copied.map FleeceGoapField.member,
      Spaced member.2 ∧ Utf8 member.2) := by
    intro member isMember
    obtain ⟨field, isField, rfl⟩ := List.mem_map.mp isMember
    exact values field (List.mem_of_mem_filter (changed.subset isField))
  have denotes := Json.writeObject_denotes_iff written
  rw [List.forall_mem_map] at denotes
  constructor
  · rintro ⟨_, _, ⟨text, members, whole, utf8, object, denote⟩, _, leftOut⟩
    obtain rfl := (List.append_inj' whole rfl).1
    exact ⟨leftOut, denotes.mp ⟨utf8, members, object, denote⟩⟩
  · rintro ⟨leftOut, names⟩
    obtain ⟨utf8, members, object, denote⟩ := denotes.mpr names
    refine ⟨rfl, ?_, ⟨_, members, rfl, utf8, object, denote⟩, changed, leftOut⟩
    rw [List.length_append]
    exact room

end Diff

/-- A blackboard with the one field `name` of the node's own, whose value is 1. -/
def sampleSelf (name : List UInt8) (noNul : 0 ∉ name) : FleeceGoapBlackboard :=
  (FleeceGoapBlackboard.empty.set ⟨name, noNul⟩ ⟨[0x31], by decide⟩ false).1

theorem spaced_one : Spaced [0x31] ∧ Utf8 [0x31] := by
  refine ⟨⟨[], [0x31], [], rfl, rfl, .number ?_, rfl⟩, .ascii (by decide)⟩
  refine @Json.Number.mk [] [0x31] [] [] (by decide) (.inr ⟨0x31, [], rfl, ?_⟩) (.inl rfl) (.inl rfl)
  decide

/-- A field `up` that the original lacks is in the object. -/
theorem selfDiff_exact_up :
    DiffExact .empty (sampleSelf [0x75, 0x70] (by decide)) 512
      (buildSelfDiffJson .empty (sampleSelf [0x75, 0x70] (by decide)) 512).1
      (buildSelfDiffJson .empty (sampleSelf [0x75, 0x70] (by decide)) 512).2 := by
  refine (selfDiff_exact_iff .empty _ 512 (by decide) ?_).mpr ⟨?_, trivial⟩
  · exact List.forall_mem_singleton.mpr spaced_one
  · refine fun _ _ => ⟨nofun, by decide, by decide, ?_⟩
    exact (@Utf8.ascii 0x75 (by decide)).append (@Utf8.ascii 0x70 (by decide))

/-- A field `a"b` is written as `{"a"b":1}`. -/
theorem selfDiff_quoted_name :
    let sim := sampleSelf [0x61, 0x22, 0x62] (by decide)
    (∀ field ∈ sim.fields, Spaced field.data.bytes ∧ Utf8 field.data.bytes) ∧
      buildSelfDiffJson .empty sim 512 =
        (0, [0x7B, 0x22, 0x61, 0x22, 0x62, 0x22, 0x3A, 0x31, 0x7D, 0]) ∧
      ¬ DiffExact .empty sim 512 (buildSelfDiffJson .empty sim 512).1
        (buildSelfDiffJson .empty sim 512).2 := by
  intro sim
  have copied : (diffLoop .empty sim 512).copied.map FleeceGoapField.member =
      [([0x61, 0x22, 0x62], [0x31])] := by decide +kernel
  have denotes := @Json.writeObject_denotes_iff [([0x61, 0x22, 0x62], [0x31])]
    (List.forall_mem_singleton.mpr spaced_one)
  refine ⟨List.forall_mem_singleton.mpr spaced_one, by decide +kernel, ?_⟩
  rintro ⟨_, _, ⟨text, members, whole, utf8, object, denote⟩, _, _⟩
  rw [(buildSelfDiffJson_eq .empty sim (by decide)).1, copied] at whole
  rw [copied] at denote
  obtain rfl := (List.append_inj' whole rfl).1
  have plain := (denotes.mp ⟨utf8, members, object, denote⟩ _ List.mem_cons_self).1
  exact (plain 0x22 (List.mem_cons_of_mem _ List.mem_cons_self)).2.1 rfl

end Fleece
