/-
This file proves the round trip of a plan blob. A reader decodes some bytes to a value
when it reads that value wherever they stand in the buffer and goes on right behind
them. Readers that decode in this sense compose as the writers do, so one lemma for
each record follows the order of its fields, and one for the loop over a table serves
all four tables.

The reader registers what it reads through the calls that built the tables, which
check the texts against their arrays and sort the points again. Both leave a record
of the tables as it was.
-/

import Fleece.PlanBlob
import Fleece.Wire

namespace Fleece

/-! ### Readers -/

/-- The bytes stand at a position inside the buffer. -/
def StandsAt (buf : List UInt8) (pos : Nat) (bytes : List UInt8) : Prop :=
  pos ≤ buf.length ∧ HoldsAt buf pos bytes

theorem standsAt_append {buf first second : List UInt8} {pos : Nat} :
    StandsAt buf pos (first ++ second) ↔
      StandsAt buf pos first ∧ StandsAt buf (pos + first.length) second := by
  unfold StandsAt
  rw [holdsAt_append]
  constructor
  · rintro ⟨start, left, right⟩
    exact ⟨⟨start, left⟩, left.length_le start, right⟩
  · rintro ⟨⟨start, left⟩, _, right⟩
    exact ⟨start, left, right⟩

theorem standsAt_of_append (before bytes : List UInt8) (buf : List UInt8)
    (whole : buf = before ++ bytes) : StandsAt buf before.length bytes := by
  subst whole
  refine ⟨?_, ?_⟩
  · rw [List.length_append]
    omega
  · rw [HoldsAt, List.drop_left]

/-- The reader yields the value wherever these bytes stand in the buffer. -/
def Decodes {Value : Type} (buf : List UInt8) (read : Nat → Except Halt (Value × Nat))
    (bytes : List UInt8) (value : Value) : Prop :=
  ∀ pos, StandsAt buf pos bytes → read pos = .ok (value, pos + bytes.length)

section Readers

variable {buf : List UInt8} (small : buf.length < 2 ^ 63)
include small

theorem decodes_major (major : UInt8) (value : UInt64) (majorLt : major < 8) :
    Decodes buf (fun pos => readMajor buf buf.length pos major) (writeHead major value) value := by
  intro pos stands
  have inside := stands.2.length_le stands.1
  rw [length_writeHead] at inside ⊢
  exact readMajor_of_holdsAt small major value majorLt stands.2 inside

theorem decodes_num (v : Binary64) :
    Decodes buf (readNum buf buf.length) (writeNum v) v.unsignedZero := by
  intro pos stands
  have inside := stands.2.length_le stands.1
  rw [length_writeNum] at inside ⊢
  exact readNum_of_holdsAt stands.2 inside small

omit small in
theorem CString.ofWire_chars (text : CString) : CString.ofWire text.chars = text := by
  have whole : text.chars.takeWhile (· ≠ 0) = text.chars := by
    refine List.takeWhile_eq_self_iff.mpr fun char member => ?_
    exact decide_eq_true fun zero => text.noNul (zero ▸ member)
  obtain ⟨chars, noNul⟩ := text
  rwa [CString.ofWire, CString.mk.injEq]

theorem decodes_text {text : CString} (short : text.chars.length < 2 ^ 64) :
    Decodes buf (readTextDyn buf buf.length) (writeText text.chars) text := by
  intro pos stands
  have inside := stands.2.length_le stands.1
  rw [length_writeText, textSize] at inside ⊢
  obtain ⟨after, read, bounds, sliced, width⟩ :=
    readCounted_of_holdsAt small 3 (by decide) short stands.2 inside le_rfl
  rw [readTextDyn, read]
  simp only [bind, Except.bind, bounds, toNat_ofNat_length short, sliced, width,
    CString.ofWire_chars]
  rfl

omit small in
/-- A loop over readers that decode. -/
theorem decodes_each {Element Value : Type} {read : Nat → Nat → Except Halt (Value × Nat)}
    {encode : Element → List UInt8} {value : Element → Value} (elements : List Element)
    (index : Nat)
    (decodes : ∀ element ∈ elements, ∀ i < index + elements.length,
      Decodes buf (read i) (encode element) (value element)) :
    Decodes buf (fun pos => readEach read elements.length index pos) (elements.flatMap encode)
      (elements.map value) := by
  intro pos stands
  induction elements generalizing index pos with
  | nil => rfl
  | cons element rest inductionHypothesis =>
    rw [List.length_cons] at decodes
    rw [List.flatMap_cons, standsAt_append] at stands
    have later := inductionHypothesis (index + 1)
      (fun other member i bound =>
        decodes other (List.mem_cons_of_mem _ member) i (by omega)) _ stands.2
    simp only [List.length_cons, readEach, bind, Except.bind, later,
      decodes element List.mem_cons_self index (by omega) pos stands.1]
    rw [List.flatMap_cons, List.length_append, List.map_cons, Nat.add_assoc]

omit small in
theorem toNat_ofNat_count {count : Nat} (few : count < 2 ^ 32) :
    (UInt64.ofNat count).toNat = count :=
  UInt64.toNat_ofNat_of_lt' (few.trans (by decide))

theorem decodes_count (count : Nat) :
    Decodes buf (fun pos => readMajor buf buf.length pos 4) (writeArrayHeader count)
      (UInt64.ofNat count) := decodes_major small 4 _ (by decide)

theorem decodes_texts {texts : List CString} (short : ∀ t ∈ texts, t.chars.length < 2 ^ 64)
    (few : texts.length < 2 ^ 32) :
    Decodes buf (readTexts buf buf.length) (writeTexts (texts.map CString.chars)) texts := by
  intro pos stands
  rw [writeTexts, List.length_map, List.flatMap_map] at stands ⊢
  obtain ⟨counted, elements⟩ := standsAt_append.mp stands
  have each : Decodes buf
      (fun pos => readEach (fun _ pos => readTextDyn buf buf.length pos) texts.length 0 pos)
      (texts.flatMap fun t => writeText t.chars) (texts.map id) :=
    decodes_each texts 0 fun t member _ _ => decodes_text small (short t member)
  have count := decodes_count small texts.length pos counted
  have loop := each _ elements
  have fits : ¬ 2 ^ 64 ≤ texts.length * 8 := by omega
  simp only at count loop
  rw [readTexts, count]
  simp only [bind, Except.bind, toNat_ofNat_count few, if_neg fits]
  rw [loop, List.map_id, List.length_append, Nat.add_assoc]

omit small in
theorem counted_of_lt {Element : Type} {elements : List Element}
    (few : elements.length < 2 ^ 32) : counted elements = elements := by
  rw [counted, Nat.mod_eq_of_lt few, List.take_length]

theorem decodes_point (slots index : Nat) (room : index < slots) (p : PlanPoint) :
    Decodes buf (readPoint buf buf.length slots index) p.encode (p.map Binary64.unsignedZero) := by
  intro pos stands
  unfold PlanPoint.encode at stands ⊢
  simp only [List.append_assoc, standsAt_append] at stands
  obtain ⟨arity, x, y⟩ := stands
  have arityRead := decodes_count small 2 pos arity
  simp only at arityRead
  rw [readPoint, arityRead]
  simp only [bind, Except.bind, decodes_num small p.x _ x]
  rw [if_neg (by decide), if_neg (by omega), decodes_num small p.y _ y, List.length_append,
    List.length_append, Nat.add_assoc, Nat.add_assoc, Nat.add_assoc]
  rfl

theorem decodes_points {points : List PlanPoint} (few : points.length < 2 ^ 32) :
    Decodes buf (readPoints buf buf.length)
      (writeArrayHeader points.length ++ points.flatMap PlanPoint.encode)
      (points.map (PlanPoint.map Binary64.unsignedZero)) := by
  intro pos stands
  obtain ⟨counted, elements⟩ := standsAt_append.mp stands
  have slots : points.length * 16 % 2 ^ 64 / 16 = points.length := by omega
  have each := decodes_each points 0
    (fun p _ i bound => decodes_point small points.length i (by omega) p) _ elements
  have count := decodes_count small points.length pos counted
  simp only at count each
  rw [readPoints, count]
  simp only [bind, Except.bind, toNat_ofNat_count few, slots]
  rw [each, List.length_append, Nat.add_assoc]

/-! ### Records -/

omit small in
/-- The definition that a record of the tables is read back as. -/
def PlanAction.given (a : PlanAction CString) (fits : a.Fits) : FleeceGoapActionDef where
  toPlanAction := a.map some Binary64.unsignedZero
  preCount := (List.length_map some).trans_lt fits.preCount
  effCount := (List.length_map some).trans_lt fits.effCount

omit small in
/-- The definition that the record of a goal is read as. -/
def PlanGoal.given (g : PlanGoal CString) : FleeceGoapGoalDef := g.map some Binary64.unsignedZero

omit small in
/-- The definition that the record of a curve is read as. -/
def PlanUtility.given (u : PlanUtility CString) (fits : u.Fits) : FleeceGoapUtilityDef where
  toPlanUtility := u.map some Binary64.unsignedZero
  pointCount := (List.length_map _).trans_lt (fits.pointCount.trans_lt (by decide))

omit small in
/-- The definition that the record of a mission is read as. -/
def PlanMission.given (m : PlanMission CString) (fits : m.Fits) : FleeceGoapMissionDef where
  toPlanMission := m.map some
  goalCount := (List.length_map some).trans_lt fits.goalCount

theorem decodes_action {a : PlanAction CString} (fits : a.Fits)
    (short : a.Every (CString.FitsIn (2 ^ 32)) fun _ => True) :
    Decodes buf (readAction buf buf.length) (a.map CString.chars id).encode (a.given fits) := by
  intro pos stands
  have wide {t : CString} (fitsIn : t.FitsIn (2 ^ 32)) : t.chars.length < 2 ^ 64 :=
    lt_trans fitsIn (by decide)
  unfold PlanAction.encode PlanAction.map at stands ⊢
  simp only [List.append_assoc, standsAt_append, id_eq] at stands
  obtain ⟨arity, id, name, cost, dest, dur, exec, pre, eff⟩ := stands
  have arityRead := decodes_count small 8 pos arity
  have preRead := decodes_texts small (fun t member => wide (short.pre t member)) fits.preCount _ pre
  have effRead := decodes_texts small (fun t member => wide (short.eff t member)) fits.effCount _ eff
  simp only at arityRead
  rw [readAction, arityRead]
  simp only [bind, Except.bind, decodes_text small (wide short.id) _ id,
    decodes_text small (wide short.name) _ name, decodes_text small (wide short.cost) _ cost,
    decodes_text small (wide short.dest) _ dest, decodes_num small a.dur _ dur,
    decodes_text small (wide short.exec) _ exec, preRead, effRead]
  rw [if_neg (by decide)]
  refine congrArg Except.ok (Prod.ext (FleeceGoapActionDef.ext ?_) ?_)
  · have preWhole := counted_of_lt ((List.length_map some).trans_lt fits.preCount)
    have effWhole := counted_of_lt ((List.length_map some).trans_lt fits.effCount)
    simp only [preWhole, effWhole]
    rfl
  · simp only [List.length_append, Nat.add_assoc, id_eq]

theorem decodes_goal {g : PlanGoal CString}
    (short : g.Every (CString.FitsIn (2 ^ 32)) fun _ => True) :
    Decodes buf (readGoal buf buf.length) (g.map CString.chars id).encode g.given := by
  intro pos stands
  have wide {t : CString} (fitsIn : t.FitsIn (2 ^ 32)) : t.chars.length < 2 ^ 64 :=
    lt_trans fitsIn (by decide)
  unfold PlanGoal.encode PlanGoal.map at stands ⊢
  simp only [List.append_assoc, standsAt_append, id_eq] at stands
  obtain ⟨arity, id, name, expr, priority, curveId⟩ := stands
  have arityRead := decodes_count small 5 pos arity
  simp only at arityRead
  rw [readGoal, arityRead]
  simp only [bind, Except.bind, decodes_text small (wide short.id) _ id,
    decodes_text small (wide short.name) _ name, decodes_text small (wide short.expr) _ expr,
    decodes_num small g.priority _ priority, decodes_text small (wide short.curveId) _ curveId]
  rw [if_neg (by decide)]
  refine congrArg Except.ok (Prod.ext rfl ?_)
  simp only [List.length_append, Nat.add_assoc, id_eq]

theorem decodes_utility {u : PlanUtility CString} (fits : u.Fits)
    (short : u.Every (CString.FitsIn (2 ^ 32)) fun _ => True) :
    Decodes buf (readUtility buf buf.length) (u.map CString.chars id).encode (u.given fits) := by
  intro pos stands
  have wide {t : CString} (fitsIn : t.FitsIn (2 ^ 32)) : t.chars.length < 2 ^ 64 :=
    lt_trans fitsIn (by decide)
  unfold PlanUtility.encode PlanUtility.map at stands ⊢
  rw [map_points_id] at stands ⊢
  simp only [List.append_assoc, standsAt_append, id_eq] at stands
  obtain ⟨arity, id, name, dim, xMin, xMax, points⟩ := stands
  have arityRead := decodes_count small 7 pos arity
  have few : u.points.length < 2 ^ 32 := fits.pointCount.trans_lt (by decide)
  have pointsRead := decodes_points small few _ (standsAt_append.mpr points)
  simp only at arityRead
  rw [readUtility, arityRead]
  simp only [bind, Except.bind, decodes_text small (wide short.id) _ id,
    decodes_text small (wide short.name) _ name, decodes_text small (wide short.dim) _ dim,
    decodes_num small u.xMin _ xMin, decodes_num small u.xMax _ xMax, pointsRead]
  rw [if_neg (by decide)]
  refine congrArg Except.ok (Prod.ext (FleeceGoapUtilityDef.ext ?_) ?_)
  · have whole : counted (u.points.map (PlanPoint.map Binary64.unsignedZero)) =
        u.points.map (PlanPoint.map Binary64.unsignedZero) :=
      counted_of_lt ((List.length_map _).trans_lt few)
    simp only [whole]
    rfl
  · simp only [List.length_append, Nat.add_assoc, id_eq]

theorem decodes_mission {m : PlanMission CString} (fits : m.Fits)
    (short : m.Every (CString.FitsIn (2 ^ 32))) :
    Decodes buf (readMission buf buf.length) (m.map CString.chars).encode (m.given fits) := by
  intro pos stands
  have wide {t : CString} (fitsIn : t.FitsIn (2 ^ 32)) : t.chars.length < 2 ^ 64 :=
    lt_trans fitsIn (by decide)
  unfold PlanMission.encode PlanMission.map at stands ⊢
  simp only [List.append_assoc, standsAt_append] at stands
  obtain ⟨arity, id, name, goalIds, note⟩ := stands
  have arityRead := decodes_count small 4 pos arity
  have goalsRead :=
    decodes_texts small (fun t member => wide (short.goalIds t member)) fits.goalCount _ goalIds
  simp only at arityRead
  rw [readMission, arityRead]
  simp only [bind, Except.bind, decodes_text small (wide short.id) _ id,
    decodes_text small (wide short.name) _ name, goalsRead,
    decodes_text small (wide short.note) _ note]
  rw [if_neg (by decide)]
  refine congrArg Except.ok (Prod.ext (FleeceGoapMissionDef.ext ?_) ?_)
  · have whole := counted_of_lt ((List.length_map some).trans_lt fits.goalCount)
    simp only [whole]
    rfl
  · simp only [List.length_append, Nat.add_assoc]

end Readers

/-! ### Registering again -/

theorem copyStr_of_fitsIn {size : Nat} {text : CString} (fits : text.FitsIn size) :
    copyStr size (some text) = some text := if_pos fits

theorem map_dupStr_some (texts : List CString) : (texts.map some).map dupStr = texts := by
  rw [List.map_map]
  exact List.map_id texts

theorem newAction_given {a : PlanAction CString} (fits : a.Fits) :
    newAction (a.given fits) = some (a.map id Binary64.unsignedZero) := by
  simp only [newAction, PlanAction.given, PlanAction.map, copyStr_of_fitsIn fits.id,
    copyStr_of_fitsIn fits.name, copyStr_of_fitsIn fits.cost, copyStr_of_fitsIn fits.exec,
    copyStr_of_fitsIn fits.dest, map_dupStr_some, List.map_id, id_eq, Option.bind_eq_bind,
    Option.bind_some]

theorem newGoal_given {g : PlanGoal CString} (fits : g.Fits) :
    newGoal g.given = some (g.map id Binary64.unsignedZero) := by
  simp only [newGoal, PlanGoal.given, PlanGoal.map, copyStr_of_fitsIn fits.id,
    copyStr_of_fitsIn fits.name, copyStr_of_fitsIn fits.expr, copyStr_of_fitsIn fits.curveId,
    id_eq, Option.bind_eq_bind, Option.bind_some]

/-- The sign of zero makes no difference to the order of points. -/
theorem sortedByX_map {points : List PlanPoint} :
    SortedByX (points.map (PlanPoint.map Binary64.unsignedZero)) ↔ SortedByX points := by
  unfold SortedByX InsertionSort.Sorted
  rw [List.pairwise_map]
  simp only [PlanPoint.standsAfter, Binary64.lt, PlanPoint.map, Binary64.order_unsignedZero,
    Binary64.isNan_unsignedZero]

theorem newUtility_given {u : PlanUtility CString} (fits : u.Fits)
    (numbers : ∀ p ∈ u.points, p.x.isNan = false) :
    newUtility (u.given fits) = some (u.map id Binary64.unsignedZero) := by
  have sorted := sortedByX_map.mpr (fits.sorted numbers)
  simp only [newUtility, PlanUtility.given, PlanUtility.map, copyStr_of_fitsIn fits.id,
    copyStr_of_fitsIn fits.name, copyStr_of_fitsIn fits.dim, id_eq, Option.bind_eq_bind,
    Option.bind_some, sortPoints, InsertionSort.sort_of_sorted sorted]

theorem newMission_given {m : PlanMission CString} (fits : m.Fits) :
    newMission (m.given fits) = some (m.map id) := by
  simp only [newMission, PlanMission.given, PlanMission.map, copyStr_of_fitsIn fits.id,
    copyStr_of_fitsIn fits.name, copyStr_of_fitsIn fits.note, map_dupStr_some, List.map_id, id_eq,
    Option.bind_eq_bind, Option.bind_some]

/-! ### Tables -/

namespace GoapTables

section Table

variable {Record Def : Type} (table : PlanTable Record) {buf : List UInt8}
  {read : Nat → Except Halt (Def × Nat)} {add : GoapTables → Def → Option (GoapTables × Int)}
  {encode : Record → List UInt8}

/-- The record is read as a definition whose registration puts the record behind the others. -/
def Restores (buf : List UInt8) (read : Nat → Except Halt (Def × Nat))
    (add : GoapTables → Def → Option (GoapTables × Int)) (encode : Record → List UInt8)
    (record : Record) : Prop :=
  ∃ given, Decodes buf read (encode record) given ∧
    ∀ tables : GoapTables, table.count tables.toPlan < goapTableMax →
      ∃ next, add tables given = some (next, 0) ∧
        next.toPlan = table.extend tables.toPlan [record]

theorem readRecords_extends (records : List Record) (tables : GoapTables) (pos : Nat)
    (restores : ∀ record ∈ records, Restores table buf read add encode record)
    (room : table.count tables.toPlan + records.length ≤ goapTableMax)
    (stands : StandsAt buf pos (records.flatMap encode)) :
    ∃ next, readRecords read add records.length tables pos =
        some (next, .ok (pos + (records.flatMap encode).length)) ∧
      next.toPlan = table.extend tables.toPlan records := by
  induction records generalizing tables pos with
  | nil => exact ⟨tables, rfl, (table.extend_nil _).symm⟩
  | cons record rest inductionHypothesis =>
    rw [List.length_cons] at room
    rw [List.flatMap_cons, standsAt_append] at stands
    obtain ⟨given, decodes, adds⟩ := restores record List.mem_cons_self
    obtain ⟨middle, added, middlePlan⟩ := adds tables (by omega)
    have more : table.count middle.toPlan + rest.length ≤ goapTableMax := by
      rw [middlePlan, table.count_extend]
      omega
    obtain ⟨next, readRest, nextPlan⟩ := inductionHypothesis middle (pos + (encode record).length)
      (fun other member => restores other (List.mem_cons_of_mem _ member)) more stands.2
    refine ⟨next, ?_, ?_⟩
    · simp only [List.length_cons, readRecords, decodes pos stands.1, added]
      rw [if_pos trivial, readRest, List.flatMap_cons, List.length_append, Nat.add_assoc]
    · rw [nextPlan, middlePlan, table.extend_cons]

theorem readTable_extends (small : buf.length < 2 ^ 63) (records : List Record)
    (tables : GoapTables) (pos : Nat)
    (restores : ∀ record ∈ records, Restores table buf read add encode record)
    (room : table.count tables.toPlan + records.length ≤ goapTableMax)
    (stands : StandsAt buf pos (writeArrayHeader records.length ++ records.flatMap encode)) :
    ∃ next, readTable buf buf.length read add tables pos = some (next, .ok (pos +
        (writeArrayHeader records.length ++ records.flatMap encode).length)) ∧
      next.toPlan = table.extend tables.toPlan records := by
  obtain ⟨counted, elements⟩ := standsAt_append.mp stands
  obtain ⟨next, readAll, plan⟩ :=
    readRecords_extends table records tables _ restores room elements
  have few : records.length < 2 ^ 32 := by
    have most : goapTableMax < 2 ^ 32 := by decide
    omega
  have count := decodes_count small records.length pos counted
  simp only at count
  refine ⟨next, ?_, plan⟩
  unfold readTable
  rw [count]
  simp only [toNat_ofNat_count few]
  rw [readAll, List.length_append, Nat.add_assoc]

end Table

section Records

variable {buf : List UInt8} (small : buf.length < 2 ^ 63)
include small

theorem restores_action {a : PlanAction CString} (fits : a.Fits)
    (short : a.Every (CString.FitsIn (2 ^ 32)) fun _ => True) :
    Restores (.actions (PlanAction.map id Binary64.unsignedZero)) buf (readAction buf buf.length)
      addAction (fun a => (a.map CString.chars id).encode) a :=
  ⟨a.given fits, decodes_action small fits short, fun tables room =>
    tables.addAction_of_new (Option.some_ne_none _) (newAction_given fits) room⟩

theorem restores_goal {g : PlanGoal CString} (fits : g.Fits)
    (short : g.Every (CString.FitsIn (2 ^ 32)) fun _ => True) :
    Restores (.goals (PlanGoal.map id Binary64.unsignedZero)) buf (readGoal buf buf.length) addGoal
      (fun g => (g.map CString.chars id).encode) g :=
  ⟨g.given, decodes_goal small short, fun tables room =>
    tables.addGoal_of_new (Option.some_ne_none _) (newGoal_given fits) room⟩

theorem restores_utility {u : PlanUtility CString} (fits : u.Fits)
    (short : u.Every (CString.FitsIn (2 ^ 32)) fun _ => True)
    (numbers : ∀ p ∈ u.points, p.x.isNan = false) :
    Restores (.utilities (PlanUtility.map id Binary64.unsignedZero)) buf
      (readUtility buf buf.length) addUtility (fun u => (u.map CString.chars id).encode) u :=
  ⟨u.given fits, decodes_utility small fits short, fun tables room =>
    tables.addUtility_of_new (Option.some_ne_none _) (newUtility_given fits numbers)
      ((List.length_map _).trans_le fits.pointCount) room⟩

theorem restores_mission {m : PlanMission CString} (fits : m.Fits)
    (short : m.Every (CString.FitsIn (2 ^ 32))) :
    Restores (.missions (PlanMission.map id)) buf (readMission buf buf.length) addMission
      (fun m => (m.map CString.chars).encode) m :=
  ⟨m.given fits, decodes_mission small fits short, fun tables room =>
    tables.addMission_of_new (Option.some_ne_none _) (newMission_given fits) room⟩

theorem readText_of_stands (name : FieldName) {pos : Nat}
    (stands : StandsAt buf pos (writeText name.chars)) :
    readText buf buf.length pos = .ok (name, pos + (writeText name.chars).length) := by
  have inside := stands.2.length_le stands.1
  have length := name.lengthLt
  have short : name.chars.length < 2 ^ 64 := length.trans (by decide)
  rw [length_writeText, textSize] at inside ⊢
  obtain ⟨after, read, bounds, sliced, width⟩ :=
    readCounted_of_holdsAt small 3 (by decide) short stands.2 inside le_rfl
  have whole : min name.chars.length (goapNameMax - 1) = name.chars.length :=
    min_eq_left (Nat.le_sub_one_of_lt length)
  rw [readText, read]
  simp only [bind, Except.bind, bounds, toNat_ofNat_length short, whole, sliced, width,
    FieldName.ofWire_chars]
  rfl

end Records

/-- The texts of a plan are written whole. -/
theorem map_written {plan : Plan CString}
    (short : plan.Every (CString.FitsIn (2 ^ 32)) fun _ => True) :
    plan.map CString.written id = plan.map CString.chars id := by
  have whole (t : CString) (fitsIn : t.FitsIn (2 ^ 32)) : t.written = t.chars := by
    rw [CString.written, Nat.mod_eq_of_lt fitsIn, List.take_length]
  exact Plan.map_congr whole (fun _ _ => rfl) short

/-- What follows the header of the body is read back as the tables, up to the sign of zero. -/
theorem readTables_of_stands {buf : List UInt8} (small : buf.length < 2 ^ 63) {tables : GoapTables}
    (finite : tables.IsFinite) (short : tables.Every (CString.FitsIn (2 ^ 32)) fun _ => True)
    {pos : Nat} (stands : StandsAt buf pos (tables.toPlan.map CString.chars id).encode) :
    ∃ restored pos', readTables buf buf.length (pos + (writeArrayHeader 5).length) =
        some (restored, .ok pos') ∧
      restored.toPlan = tables.toPlan.map id Binary64.unsignedZero := by
  have numbers (u : PlanUtility CString) (member : u ∈ tables.utilities) (p : PlanPoint)
      (point : p ∈ u.points) : p.x.isNan = false := by
    have isFinite := ((finite.utilities u member).points p point).x
    rw [Binary64.isFinite, decide_eq_true_iff] at isFinite
    exact decide_eq_false (by omega)
  have advance (bytes more : List UInt8) :
      pos + bytes.length + more.length = pos + (bytes ++ more).length := by
    rw [List.length_append, Nat.add_assoc]
  simp only [Plan.encode, Plan.map, List.length_map, List.flatMap_map] at stands
  obtain ⟨stands, missions⟩ := standsAt_append.mp stands
  obtain ⟨stands, utilities⟩ := standsAt_append.mp stands
  obtain ⟨stands, goals⟩ := standsAt_append.mp stands
  obtain ⟨stands, actions⟩ := standsAt_append.mp stands
  obtain ⟨_, name⟩ := standsAt_append.mp stands
  let nameRead : FieldName := ⟨tables.name, tables.fits.name⟩
  obtain ⟨first, actionsRead, firstPlan⟩ := readTable_extends
    (.actions (PlanAction.map id Binary64.unsignedZero)) small tables.actions
    (named nameRead) _ (fun a member => restores_action small (tables.fits.actions a member)
      (short.actions a member)) ((Nat.zero_add _).trans_le tables.fits.actionCount) actions
  obtain ⟨second, goalsRead, secondPlan⟩ := readTable_extends
    (.goals (PlanGoal.map id Binary64.unsignedZero)) small tables.goals
    first _ (fun g member => restores_goal small (tables.fits.goals g member)
      (short.goals g member)) (by
        rw [firstPlan]
        exact (Nat.zero_add _).trans_le tables.fits.goalCount) goals
  obtain ⟨third, utilitiesRead, thirdPlan⟩ := readTable_extends
    (.utilities (PlanUtility.map id Binary64.unsignedZero)) small tables.utilities
    second _ (fun u member => restores_utility small (tables.fits.utilities u member)
      (short.utilities u member) (numbers u member)) (by
        rw [secondPlan, firstPlan]
        exact (Nat.zero_add _).trans_le tables.fits.utilityCount) utilities
  obtain ⟨restored, missionsRead, restoredPlan⟩ := readTable_extends
    (.missions (PlanMission.map id)) small tables.missions
    third _ (fun m member => restores_mission small (tables.fits.missions m member)
      (short.missions m member)) (by
        rw [thirdPlan, secondPlan, firstPlan]
        exact (Nat.zero_add _).trans_le tables.fits.missionCount) missions
  refine ⟨restored, _, Eq.trans ?_ missionsRead, ?_⟩
  · unfold readTables
    rw [readText_of_stands small nameRead name]
    simp only
    rw [advance, actionsRead]
    simp only [Parse.andThen]
    rw [advance, goalsRead]
    simp only
    rw [advance, utilitiesRead]
    simp only
    rw [advance]
  · rw [restoredPlan, thirdPlan, secondPlan, firstPlan]
    rfl

/-! ### Sizes -/

end GoapTables

theorem CString.length_written (text : CString) :
    text.written.length = text.chars.length % 2 ^ 32 := by
  rw [written, List.length_take, min_eq_left (Nat.mod_le _ _)]

theorem length_writeText_written (text : CString) : (writeText text.written).length = text.size := by
  rw [length_writeText, CString.length_written, CString.size]

theorem length_flatMap_map {Element Form : Type} (form : Element → Form) (encode : Form → List UInt8)
    (size : Element → Nat) (sized : ∀ element, (encode (form element)).length = size element)
    (elements : List Element) :
    ((elements.map form).flatMap encode).length = (elements.map size).sum := by
  rw [List.length_flatMap, List.map_map]
  exact congrArg List.sum (List.map_congr_left fun element _ => sized element)

theorem length_writeTexts_written (texts : List CString) :
    (writeTexts (texts.map CString.written)).length = textsSize texts := by
  rw [writeTexts, List.length_append, length_writeArrayHeader, List.length_map,
    length_flatMap_map CString.written writeText CString.size length_writeText_written, textsSize]

theorem length_encodeAction (a : PlanAction CString) :
    (a.map CString.written id).encode.length = a.size := by
  simp only [PlanAction.encode, PlanAction.map, List.length_append, length_writeArrayHeader,
    length_writeText_written, length_writeNum, length_writeTexts_written, PlanAction.size, id_eq]
  omega

theorem length_encodeGoal (g : PlanGoal CString) :
    (g.map CString.written id).encode.length = g.size := by
  simp only [PlanGoal.encode, PlanGoal.map, List.length_append, length_writeArrayHeader,
    length_writeText_written, length_writeNum, PlanGoal.size, id_eq]
  omega

theorem length_encodePoint (p : PlanPoint) : (p.map id).encode.length = p.size := by
  simp only [PlanPoint.encode, PlanPoint.map, List.length_append, length_writeArrayHeader,
    length_writeNum, PlanPoint.size, id_eq]
  omega

theorem length_encodeUtility (u : PlanUtility CString) :
    (u.map CString.written id).encode.length = u.size := by
  simp only [PlanUtility.encode, PlanUtility.map, List.length_append, length_writeArrayHeader,
    length_writeText_written, length_writeNum, List.length_map, PlanUtility.size, id_eq,
    length_flatMap_map (PlanPoint.map id) PlanPoint.encode PlanPoint.size length_encodePoint]
  omega

theorem length_encodeMission (m : PlanMission CString) :
    (m.map CString.written).encode.length = m.size := by
  simp only [PlanMission.encode, PlanMission.map, List.length_append, length_writeArrayHeader,
    length_writeText_written, length_writeTexts_written, PlanMission.size]
  omega

namespace GoapTables

/-- The sizing pass measures what the writing pass writes. -/
theorem length_serializeBody (tables : GoapTables) :
    tables.serializeBody.length = tables.serializeBodySize := by
  simp only [serializeBody, Plan.encode, Plan.map, List.length_append, length_writeArrayHeader,
    length_writeText_written, List.length_map,
    length_flatMap_map (PlanAction.map CString.written id) PlanAction.encode PlanAction.size
      length_encodeAction,
    length_flatMap_map (PlanGoal.map CString.written id) PlanGoal.encode PlanGoal.size
      length_encodeGoal,
    length_flatMap_map (PlanUtility.map CString.written id) PlanUtility.encode PlanUtility.size
      length_encodeUtility,
    length_flatMap_map (PlanMission.map CString.written) PlanMission.encode PlanMission.size
      length_encodeMission, serializeBodySize]

theorem length_written (tables : GoapTables) :
    tables.written.length = 3 + tables.serializeBodySize := by
  rw [written, List.length_append, length_serializeBody]
  rfl

end GoapTables

/-! ### Writing again -/

theorem encodePoint_map (p : PlanPoint) : (p.map Binary64.unsignedZero).encode = p.encode := by
  simp only [PlanPoint.encode, PlanPoint.map, writeNum_unsignedZero]

section Again

variable {Text : Type} (text : Text → List UInt8)

theorem encodeAction_map (a : PlanAction Text) :
    (a.map text Binary64.unsignedZero).encode = (a.map text id).encode := by
  simp only [PlanAction.encode, PlanAction.map, writeNum_unsignedZero, id_eq]

theorem encodeGoal_map (g : PlanGoal Text) :
    (g.map text Binary64.unsignedZero).encode = (g.map text id).encode := by
  simp only [PlanGoal.encode, PlanGoal.map, writeNum_unsignedZero, id_eq]

theorem encodeUtility_map (u : PlanUtility Text) :
    (u.map text Binary64.unsignedZero).encode = (u.map text id).encode := by
  simp only [PlanUtility.encode, PlanUtility.map, writeNum_unsignedZero, id_eq, List.length_map,
    List.flatMap_map, encodePoint_map]
  rfl

/-- The sign of zero is not written. -/
theorem encode_map (plan : Plan Text) :
    (plan.map text Binary64.unsignedZero).encode = (plan.map text id).encode := by
  simp only [Plan.encode, Plan.map, List.length_map, List.flatMap_map, encodeAction_map,
    encodeGoal_map, encodeUtility_map]

end Again

namespace GoapTables

theorem readPrefix_of_written {tables : GoapTables} (small : tables.written.length < 2 ^ 63) :
    readPrefix tables.written tables.written.length =
        .ok (planMagic.length + (writeArrayHeader 5).length) ∧
      StandsAt tables.written planMagic.length tables.serializeBody := by
  have stands : StandsAt tables.written planMagic.length tables.serializeBody :=
    standsAt_of_append planMagic _ _ rfl
  have whole : StandsAt tables.written 0 tables.written :=
    ⟨Nat.zero_le _, List.prefix_refl _⟩
  have magic : slice tables.written 0 3 = .ok planMagic :=
    (standsAt_append.mp whole).1.2.slice (Nat.zero_le _)
  have long : 3 ≤ tables.written.length := by
    rw [length_written]
    omega
  have header : StandsAt tables.written planMagic.length (writeArrayHeader 5) := by
    have body := stands
    unfold serializeBody Plan.encode at body
    simp only [standsAt_append] at body
    exact body.1.1.1.1.1
  have arity := decodes_count small 5 planMagic.length header
  simp only [show planMagic.length = 3 from rfl] at arity
  refine ⟨?_, stands⟩
  rw [readPrefix, if_neg (by omega), magic]
  simp only [bind, Except.bind, ne_eq, not_true_eq_false, if_false, arity]
  rw [if_neg (by decide)]
  rfl

/-- A plan blob is as long as the sizing pass says, it is read back as the tables, up to the sign
of zero, and what was read is written as the same bytes. -/
theorem deserialize_serialize {tables : GoapTables} (finite : tables.IsFinite)
    (short : tables.Every (CString.FitsIn (2 ^ 32)) fun _ => True)
    (small : 3 + tables.serializeBodySize < 2 ^ 32) (old : GoapTables) :
    tables.written.length = 3 + tables.serializeBodySize ∧
      tables.serialize.bytes = tables.written ∧
      ∃ restored, old.deserialize tables.serialize = some (restored, .ok ()) ∧
        restored.toPlan = tables.toPlan.map id Binary64.unsignedZero ∧
        restored.serialize = tables.serialize := by
  have length := tables.length_written
  have bytes : tables.serialize.bytes = tables.written :=
    Blob.ofBuffer_bytes_of_lt (length.trans_lt small)
  have smaller : tables.written.length < 2 ^ 63 := (length.trans_lt small).trans (by decide)
  obtain ⟨outer, stands⟩ := readPrefix_of_written smaller
  rw [serializeBody, map_written short] at stands
  obtain ⟨restored, pos, read, plan⟩ := readTables_of_stands smaller finite short stands
  refine ⟨length, bytes, restored, ?_, plan, ?_⟩
  · rw [deserialize, Blob.size, bytes, outer]
    simp only
    rw [read]
    rfl
  · have body : restored.serializeBody = tables.serializeBody := by
      rw [serializeBody, plan, Plan.map_map, serializeBody]
      exact encode_map _ _
    rw [serialize, serialize, written, written, body]

theorem noNul_letter : (0 : UInt8) ∉ ([0x67] : List UInt8) := by decide

/-- A plan with one goal, of priority minus zero, and its utility curve. -/
def hunger : GoapTables where
  name := ⟨[0x66], by decide⟩
  actions := []
  goals := [⟨⟨[0x67], noNul_letter⟩, .empty, .empty, ⟨0x8000000000000000⟩, ⟨[0x75], by decide⟩⟩]
  utilities := [⟨⟨[0x75], by decide⟩, .empty, .empty, ⟨0⟩, ⟨0x3FF0000000000000⟩,
    [⟨⟨0⟩, ⟨0x3FF0000000000000⟩⟩, ⟨⟨0x3FE0000000000000⟩, ⟨0⟩⟩]⟩]
  missions := []
  fits := by
    constructor
    case goals => exact List.forall_mem_singleton.mpr (by constructor <;> decide)
    case utilities =>
      refine List.forall_mem_singleton.mpr
        ⟨by decide, by decide, by decide, by decide, fun _ => ?_⟩
      exact List.pairwise_pair.mpr (by decide)
    all_goals first | decide | exact fun _ member => absurd member List.not_mem_nil

theorem deserialize_serialize_hunger : ∃ restored,
    empty.deserialize hunger.serialize = some (restored, .ok ()) ∧
      restored.toPlan = hunger.toPlan.map id Binary64.unsignedZero ∧
      restored.serialize = hunger.serialize := by
  refine (deserialize_serialize ?_ ?_ (by decide +kernel) empty).2.2
  · constructor
    case goals => exact List.forall_mem_singleton.mpr (by constructor <;> decide)
    case utilities =>
      refine List.forall_mem_singleton.mpr ⟨trivial, trivial, trivial, by decide, by decide, ?_⟩
      exact List.forall_mem_cons.mpr ⟨⟨by decide, by decide⟩,
        List.forall_mem_singleton.mpr ⟨by decide, by decide⟩⟩
    all_goals first | trivial | exact fun _ member => absurd member List.not_mem_nil
  · constructor
    case goals => exact List.forall_mem_singleton.mpr (by constructor <;> decide)
    case utilities =>
      refine List.forall_mem_singleton.mpr
        ⟨by decide, by decide, by decide, trivial, trivial, fun _ _ => ⟨trivial, trivial⟩⟩
    all_goals first | decide | exact fun _ member => absurd member List.not_mem_nil

end GoapTables

end Fleece
