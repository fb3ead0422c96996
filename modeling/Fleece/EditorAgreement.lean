/-
This file compares the two writers of a plan blob, the editor's and the planner's. They
agree byte by byte on heads, texts and numbers, so the editor writes the encoding of its
model. The planner writes the encoding of its tables, and these hold the points of a
curve sorted, where the editor keeps the order they were given in. The encoding of a
point can be read back, so two orders of points that differ are written differently.
-/

import Fleece.Editor
import Fleece.PlanRoundTrip

namespace Fleece

namespace Editor

/-! ### Heads -/

theorem initial_eq (major info : Nat) :
    UInt8.ofNat (major <<< 5 ||| info) = (UInt8.ofNat major <<< 5) ||| UInt8.ofNat info := by
  rw [UInt8.ofNat_or, UInt8.ofNat_shiftLeft _ _ (by decide)]
  rfl

theorem bigEndian_eq (count : Nat) (bound : count ≤ 8) (value : UInt64) :
    bigEndian count value =
      (List.range count).reverse.map fun i => UInt8.ofNat (value.toNat / 256 ^ i % 256) := by
  induction count with
  | zero => rfl
  | succ count inductionHypothesis =>
    have first : (value >>> UInt64.ofNat (8 * count)).toUInt8 =
        UInt8.ofNat (value.toNat / 256 ^ count % 256) := by
      apply UInt8.toNat_inj.mp
      rw [bigEndian_head_toNat count (by omega), UInt8.toNat_ofNat_of_lt' (Nat.mod_lt _ (by decide))]
    rw [bigEndian, List.range_succ, List.reverse_append, List.reverse_singleton,
      List.singleton_append, List.map_cons, first, inductionHypothesis (by omega)]

theorem lowByte_shift {v : Nat} (small : v < 2 ^ 32) {i : Nat} (bound : i < 4) :
    lowByte (toInt32 v >>> (8 * i)) = UInt8.ofNat (v / 256 ^ i % 256) := by
  unfold lowByte toInt32
  congr 1
  rw [Int.shiftRight_eq_div_pow]
  interval_cases i <;> split_ifs <;> omega

theorem lowByte_wide (v : Nat) : lowByte (toInt32 v) = UInt8.ofNat (v % 256) := by
  unfold lowByte toInt32
  congr 1
  split_ifs <;> omega

/-- The two writers of a head agree. -/
theorem head_eq {major v : Nat} (small : v < 2 ^ 64) :
    Writer.head major v = writeHead (UInt8.ofNat major) (UInt64.ofNat v) := by
  have value : (UInt64.ofNat v).toNat = v := UInt64.toNat_ofNat_of_lt' small
  unfold Writer.head writeHead
  simp only [UInt64.lt_iff_toNat_lt, UInt64.le_iff_toNat_le, value,
    show (24 : UInt64).toNat = 24 from rfl, show (0xFF : UInt64).toNat = 0xFF from rfl,
    show (0xFFFF : UInt64).toNat = 0xFFFF from rfl,
    show (0xFFFFFFFF : UInt64).toNat = 0xFFFFFFFF from rfl]
  split_ifs with tiny small8 small16 small32
  · rw [initial_eq]
    congr 2
    apply UInt8.toNat_inj.mp
    rw [UInt64.toNat_toUInt8, value, UInt8.toNat_ofNat']
  · rw [initial_eq, bigEndian_eq 1 (by decide), value]
    have whole : v % 256 = v := Nat.mod_eq_of_lt (by omega)
    simp [List.range_succ, whole]
  · rw [initial_eq, bigEndian_eq 2 (by decide), value]
    have high : lowByte (toInt32 v >>> (8 : Nat)) = UInt8.ofNat (v / 256 % 256) := by
      have shifted := lowByte_shift (by omega : v < 2 ^ 32) (by decide : 1 < 4)
      rwa [Nat.mul_one, Nat.pow_one] at shifted
    have low := lowByte_wide v
    simp [List.range_succ, high, low]
  · rw [initial_eq, bigEndian_eq 4 (by decide), value]
    refine congrArg₂ List.cons rfl ?_
    refine List.map_congr_left fun i member => lowByte_shift (by omega) ?_
    have four : ∀ i ∈ [3, 2, 1, 0], i < 4 := by decide
    exact four i member
  · rw [initial_eq, bigEndian_eq 8 (by decide), value]
    exact congrArg₂ List.cons rfl (List.map_congr_left fun i _ => lowByte_wide _)

/-! ### Texts and numbers -/

theorem arrayHeader_eq {count : Nat} (few : count < 2 ^ 32) :
    Writer.arrayHeader count = writeArrayHeader count :=
  head_eq (few.trans (by decide))

theorem length_textEncode_le (s : List Char) : (textEncode s).length ≤ 4 * s.length := by
  rw [textEncode, List.length_flatMap, Nat.mul_comm]
  refine List.sum_le_card_nsmul _ 4 ?_ |>.trans_eq ?_
  · intro size member
    obtain ⟨c, _, rfl⟩ := List.mem_map.mp member
    rw [String.length_utf8EncodeChar]
    exact c.utf8Size_le_four
  · rw [List.length_map, smul_eq_mul]

theorem text_eq {s : List Char} (short : s.length < 2 ^ 53) :
    Writer.text s = writeText (textEncode s) := by
  have bound := length_textEncode_le s
  rw [Writer.text, writeText, head_eq (by omega)]
  rfl

theorem numIsUint_eq (v : Binary64) : numIsUint v = Fleece.numIsUint v := by
  unfold numIsUint Fleece.numIsUint
  cases atLeast : v.ge .zero
  · rw [Bool.and_false, Bool.false_and, Bool.false_and]
  · cases below : v.lt .two64
    · rw [Bool.and_false, Bool.and_false, Bool.false_and]
    · rw [Binary64.eq_ofNat_trunc atLeast below, Bool.and_true, Bool.and_true, Bool.true_and,
        Bool.true_and]

theorem num_eq (v : Binary64) : Writer.num v = writeNum v := by
  unfold Writer.num writeNum
  rw [numIsUint_eq]
  split_ifs with isUint
  · rw [Fleece.numIsUint, Bool.and_eq_true, Bool.and_eq_true] at isUint
    exact head_eq (Binary64.trunc_lt isUint.1.1 isUint.1.2)
  · rfl

theorem orZero_eq {v : Binary64} (finite : v.isFinite = true) : orZero v = v.unsignedZero := by
  have number : v.isNan = false := by
    rw [Binary64.isFinite, decide_eq_true_iff] at finite
    exact decide_eq_false (by omega)
  unfold orZero Binary64.unsignedZero
  simp only [number, Bool.false_eq_true, false_or]

/-! ### Plans -/

theorem texts_eq {texts : List (List Char)} (few : texts.length < 2 ^ 32)
    (short : ∀ s ∈ texts, s.length < 2 ^ 53) :
    Writer.arrayHeader texts.length ++ texts.flatMap Writer.text =
      writeTexts (texts.map textEncode) := by
  rw [writeTexts, List.length_map, List.flatMap_map, arrayHeader_eq few]
  exact congrArg _ (List.flatMap_congr fun s member => text_eq (short s member))

theorem pushedPoint_eq (p : PlanPoint) :
    Writer.arrayHeader 2 ++ Writer.num (orZero p.x) ++ Writer.num (orZero p.y) =
      (p.map orZero).encode := by
  rw [arrayHeader_eq (by decide), num_eq, num_eq]
  rfl

/-- The editor writes the encoding of its model. -/
theorem pushed_eq (model : Model) :
    pushed model.toPlan = planMagic ++ (model.toPlan.map textEncode orZero).encode := by
  have arrays := model.arrays
  have strings := model.strings
  have actions (a : PlanAction (List Char)) (member : a ∈ model.actions) :
      Writer.arrayHeader 8 ++ Writer.text a.id ++ Writer.text a.name ++ Writer.text a.cost ++
          Writer.text a.dest ++ Writer.num (orZero a.dur) ++ Writer.text a.exec ++
          (Writer.arrayHeader a.pre.length ++ a.pre.flatMap Writer.text) ++
          (Writer.arrayHeader a.eff.length ++ a.eff.flatMap Writer.text) =
        (a.map textEncode orZero).encode := by
    have short := strings.actions a member
    rw [arrayHeader_eq (by decide), text_eq short.id, text_eq short.name, text_eq short.cost,
      text_eq short.dest, num_eq, text_eq short.exec, texts_eq (arrays.pre a member) short.pre,
      texts_eq (arrays.eff a member) short.eff]
    rfl
  have goals (g : PlanGoal (List Char)) (member : g ∈ model.goals) :
      Writer.arrayHeader 5 ++ Writer.text g.id ++ Writer.text g.name ++ Writer.text g.expr ++
          Writer.num (orZero g.priority) ++ Writer.text g.curveId =
        (g.map textEncode orZero).encode := by
    have short := strings.goals g member
    rw [arrayHeader_eq (by decide), text_eq short.id, text_eq short.name, text_eq short.expr,
      num_eq, text_eq short.curveId]
    rfl
  have utilities (u : PlanUtility (List Char)) (member : u ∈ model.utilities) :
      Writer.arrayHeader 7 ++ Writer.text u.id ++ Writer.text u.name ++ Writer.text u.dim ++
          Writer.num (orZero u.xMin) ++ Writer.num (orZero u.xMax) ++
          (Writer.arrayHeader u.points.length ++ u.points.flatMap fun p =>
            Writer.arrayHeader 2 ++ Writer.num (orZero p.x) ++ Writer.num (orZero p.y)) =
        (u.map textEncode orZero).encode := by
    have short := strings.utilities u member
    rw [arrayHeader_eq (by decide), text_eq short.id, text_eq short.name, text_eq short.dim,
      num_eq, num_eq, arrayHeader_eq (arrays.points u member)]
    simp only [pushedPoint_eq, PlanUtility.map, PlanUtility.encode, List.length_map,
      List.flatMap_map]
  have missions (m : PlanMission (List Char)) (member : m ∈ model.missions) :
      Writer.arrayHeader 4 ++ Writer.text m.id ++ Writer.text m.name ++
          (Writer.arrayHeader m.goalIds.length ++ m.goalIds.flatMap Writer.text) ++
          Writer.text m.note =
        (m.map textEncode).encode := by
    have short := strings.missions m member
    rw [arrayHeader_eq (by decide), text_eq short.id, text_eq short.name,
      texts_eq (arrays.goalIds m member) short.goalIds, text_eq short.note]
    rfl
  unfold pushed Plan.encode Plan.map
  simp only [List.length_map, List.flatMap_map]
  rw [List.flatMap_congr actions, List.flatMap_congr goals, List.flatMap_congr utilities,
    List.flatMap_congr missions, arrayHeader_eq (by decide), text_eq strings.name,
    arrayHeader_eq arrays.actions, arrayHeader_eq arrays.goals, arrayHeader_eq arrays.utilities,
    arrayHeader_eq arrays.missions]
  simp only [List.append_assoc]

theorem pushed_eq_of_finite {model : Model} (finite : model.IsFinite) :
    pushed model.toPlan = planMagic ++ (model.toPlan.map textEncode id).encode := by
  have numbers : model.toPlan.map textEncode orZero =
      model.toPlan.map textEncode Binary64.unsignedZero :=
    Plan.map_congr (fun _ _ => rfl) (fun _ isFinite => orZero_eq isFinite) finite
  rw [pushed_eq, numbers, encode_map]

/-! ### Registration -/

end Editor

/-- The C string of a string: its bytes up to the first NUL. -/
def CString.ofEditor (s : List Char) : CString := .ofWire (Editor.textEncode s)

namespace Editor

/-- A string of the editor as the pointer that a definition holds. -/
def textDef (s : List Char) : Option CString := some (.ofEditor s)

/-- The definition of an action; the counts are handed over in 32 bits. -/
def actionDef (a : PlanAction (List Char)) : FleeceGoapActionDef where
  toPlanAction := { a.map textDef id with
    pre := counted (a.pre.map textDef)
    eff := counted (a.eff.map textDef) }
  preCount := length_counted_lt _
  effCount := length_counted_lt _

/-- The definition that a goal of the editor is read as. -/
def goalDef (g : PlanGoal (List Char)) : FleeceGoapGoalDef := g.map textDef id

/-- The definition that a curve of the editor is read as. -/
def utilityDef (u : PlanUtility (List Char)) : FleeceGoapUtilityDef where
  toPlanUtility := { u.map textDef id with points := counted u.points }
  pointCount := length_counted_lt _

/-- The definition that a mission of the editor is read as. -/
def missionDef (m : PlanMission (List Char)) : FleeceGoapMissionDef where
  toPlanMission := { m.map textDef with goalIds := counted (m.goalIds.map textDef) }
  goalCount := length_counted_lt _

/-- The calls that register a model: its name, and its records table by table. -/
def registrations (model : Plan (List Char)) : List Registration :=
  [.setName (textDef model.name)] ++ model.actions.map (fun a => .addAction (actionDef a)) ++
    model.goals.map (fun g => .addGoal (goalDef g)) ++
    model.utilities.map (fun u => .addUtility (utilityDef u)) ++
    model.missions.map fun m => .addMission (missionDef m)

theorem counted_texts {texts : List (List Char)} (few : texts.length < 2 ^ 32) :
    (counted (texts.map textDef)).map dupStr = texts.map CString.ofEditor := by
  rw [counted_of_lt ((List.length_map _).trans_lt few), List.map_map]
  rfl

section Registered

variable {tables next : GoapTables}

theorem registered_action {a : PlanAction (List Char)} (pre : a.pre.length < 2 ^ 32)
    (eff : a.eff.length < 2 ^ 32)
    (added : tables.register (.addAction (actionDef a)) = some (next, 0)) :
    next.toPlan = (PlanTable.actions (PlanAction.map CString.ofEditor id)).extend tables.toPlan
      [a] := by
  obtain ⟨record, made, plan⟩ := tables.of_addAction added
  have same : (actionDef a).toPlanAction.map dupStr id = a.map CString.ofEditor id := by
    simp only [actionDef, PlanAction.map, counted_texts pre, counted_texts eff]
    rfl
  rw [plan, eq_of_newAction made, same]
  rfl

theorem registered_goal {g : PlanGoal (List Char)}
    (added : tables.register (.addGoal (goalDef g)) = some (next, 0)) :
    next.toPlan = (PlanTable.goals (PlanGoal.map CString.ofEditor id)).extend tables.toPlan [g] := by
  obtain ⟨record, made, plan⟩ := tables.of_addGoal added
  rw [plan, eq_of_newGoal made]
  rfl

theorem registered_utility {u : PlanUtility (List Char)} (points : u.points.length < 2 ^ 32)
    (added : tables.register (.addUtility (utilityDef u)) = some (next, 0)) :
    next.toPlan = (PlanTable.utilities fun u => (u.map CString.ofEditor id).sorted).extend
      tables.toPlan [u] := by
  obtain ⟨record, made, plan⟩ := tables.of_addUtility added
  have same : (utilityDef u).toPlanUtility.map dupStr id = u.map CString.ofEditor id := by
    simp only [utilityDef, PlanUtility.map, counted_of_lt points]
    rfl
  rw [plan, eq_of_newUtility made, same]
  rfl

theorem registered_mission {m : PlanMission (List Char)} (goalIds : m.goalIds.length < 2 ^ 32)
    (added : tables.register (.addMission (missionDef m)) = some (next, 0)) :
    next.toPlan = (PlanTable.missions (PlanMission.map CString.ofEditor)).extend tables.toPlan
      [m] := by
  obtain ⟨record, made, plan⟩ := tables.of_addMission added
  have same : (missionDef m).toPlanMission.map dupStr = m.map CString.ofEditor := by
    simp only [missionDef, PlanMission.map, counted_texts goalIds]
    rfl
  rw [plan, eq_of_newMission made, same]
  rfl

theorem registered_name {name : List Char}
    (named : tables.registerAll [.setName (textDef name)] = some next) :
    next.toPlan = { tables.toPlan with name := CString.ofEditor name } := by
  simp only [GoapTables.registerAll, GoapTables.register, Option.bind_eq_bind,
    Option.bind_some] at named
  split_ifs at named with success
  exact tables.of_setName (Prod.ext (Option.some.inj named) success)

/-- The tables that registering a model leaves: its records, with the points of the curves
sorted. -/
theorem tables_of_registrations {model : Model}
    (registered : GoapTables.empty.registerAll (registrations model.toPlan) = some tables) :
    tables.toPlan = (model.toPlan.map CString.ofEditor id).sorted := by
  have arrays := model.arrays
  simp only [registrations, GoapTables.registerAll_append, Option.bind_eq_some_iff] at registered
  obtain ⟨fourth, ⟨third, ⟨second, ⟨first, named, actions⟩, goals⟩, utilities⟩, missions⟩ :=
    registered
  have secondPlan := GoapTables.registerAll_extends _ (fun a member _ _ =>
    registered_action (arrays.pre a member) (arrays.eff a member)) actions
  have thirdPlan := GoapTables.registerAll_extends _ (fun g _ _ _ => registered_goal) goals
  have fourthPlan := GoapTables.registerAll_extends _ (fun u member _ _ =>
    registered_utility (arrays.points u member)) utilities
  have lastPlan := GoapTables.registerAll_extends _ (fun m member _ _ =>
    registered_mission (arrays.goalIds m member)) missions
  rw [lastPlan, fourthPlan, thirdPlan, secondPlan, registered_name named, Plan.sorted, Plan.map,
    List.map_map]
  rfl

end Registered

/-! ### Sorted and unsorted points -/

theorem eq_of_flatMap_eq {Element : Type} {first second : Element → List UInt8}
    {elements : List Element}
    (sameLength : ∀ element ∈ elements, (first element).length = (second element).length)
    (same : elements.flatMap first = elements.flatMap second) :
    ∀ element ∈ elements, first element = second element := by
  induction elements with
  | nil => exact fun _ member => absurd member List.not_mem_nil
  | cons element rest inductionHypothesis =>
    rw [List.flatMap_cons, List.flatMap_cons] at same
    obtain ⟨head, tail⟩ := List.append_inj same (sameLength element List.mem_cons_self)
    refine List.forall_mem_cons.mpr ⟨head, ?_⟩
    exact inductionHypothesis (fun other member => sameLength other (List.mem_cons_of_mem _ member))
      tail

/-- The points that an encoding holds, up to the sign of zero. -/
theorem points_of_encode_eq {first second : List PlanPoint} (few : first.length < 2 ^ 32)
    (sameLength : first.length = second.length)
    (small : (writeArrayHeader first.length ++ first.flatMap PlanPoint.encode).length < 2 ^ 63)
    (same : first.flatMap PlanPoint.encode = second.flatMap PlanPoint.encode) :
    first.map (PlanPoint.map Binary64.unsignedZero) =
      second.map (PlanPoint.map Binary64.unsignedZero) := by
  have whole (bytes : List UInt8) : StandsAt bytes 0 bytes :=
    ⟨Nat.zero_le _, List.prefix_refl _⟩
  have readFirst := decodes_points small few 0 (whole _)
  have readSecond := decodes_points small (sameLength ▸ few) 0 (by
    rw [← sameLength, ← same]
    exact whole _)
  rw [readFirst] at readSecond
  exact (Prod.mk.inj (Except.ok.inj readSecond)).1

theorem length_encode_sortedUtility (u : PlanUtility (List UInt8)) :
    u.sorted.encode.length = u.encode.length := by
  have points : ((sortPoints u.points).flatMap PlanPoint.encode).length =
      (u.points.flatMap PlanPoint.encode).length :=
    ((InsertionSort.sort_perm u.points).flatMap_right _).length_eq
  have count : (sortPoints u.points).length = u.points.length := InsertionSort.length_sort _
  simp only [PlanUtility.encode, PlanUtility.sorted, List.length_append, points, count]

theorem length_encode_sorted (plan : Plan (List UInt8)) :
    plan.sorted.encode.length = plan.encode.length := by
  have utilities : ((plan.utilities.map PlanUtility.sorted).flatMap PlanUtility.encode).length =
      (plan.utilities.flatMap PlanUtility.encode).length := by
    rw [List.length_flatMap, List.length_flatMap, List.map_map]
    exact congrArg List.sum (List.map_congr_left fun u _ => length_encode_sortedUtility u)
  simp only [Plan.encode, Plan.sorted, List.length_append, List.length_map, utilities]

/-- A plan is written as the plan with its points sorted exactly when they are. -/
theorem encode_sorted_iff {plan : Plan (List UInt8)} (finite : plan.IsFinite)
    (small : plan.encode.length < 2 ^ 63) (few : ∀ u ∈ plan.utilities, u.points.length < 2 ^ 32) :
    plan.encode = plan.sorted.encode ↔ ∀ u ∈ plan.utilities, SortedByX u.points := by
  constructor
  · intro same u member
    simp only [Plan.encode, Plan.sorted, List.length_map, List.flatMap_map] at same small
    have tables := List.append_cancel_left (List.append_cancel_left (List.append_cancel_right same))
    have utility : u.encode = u.sorted.encode :=
      eq_of_flatMap_eq (fun u _ => (length_encode_sortedUtility u).symm) tables u member
    have count : (sortPoints u.points).length = u.points.length := InsertionSort.length_sort _
    have inner : u.encode.length ≤ (plan.utilities.flatMap PlanUtility.encode).length := by
      rw [List.flatMap_def]
      exact (List.sublist_flatten_of_mem (List.mem_map_of_mem member)).length_le
    simp only [PlanUtility.encode, PlanUtility.sorted, count] at utility
    have points := List.append_cancel_left (List.append_cancel_left utility)
    have bound : (writeArrayHeader u.points.length ++
        u.points.flatMap PlanPoint.encode).length < 2 ^ 63 := by
      simp only [PlanUtility.encode, List.length_append] at inner small ⊢
      omega
    have sorted : SortedByX (sortPoints u.points) := by
      refine sortPoints_sorted fun p point => ?_
      have isFinite := ((finite.utilities u member).points p point).x
      rw [Binary64.isFinite, decide_eq_true_iff] at isFinite
      exact decide_eq_false (by omega)
    rw [← sortedByX_map, points_of_encode_eq (few u member) count.symm bound points, sortedByX_map]
    exact sorted
  · intro sorted
    have utilities : plan.utilities.map PlanUtility.sorted = plan.utilities := by
      conv_rhs => rw [← List.map_id plan.utilities]
      refine List.map_congr_left fun u member => ?_
      rw [PlanUtility.sorted, sortPoints, InsertionSort.sort_of_sorted (sorted u member)]
      rfl
    rw [Plan.sorted, utilities]

theorem zero_not_mem_utf8EncodeChar {c : Char} (real : c ≠ '\x00') :
    0 ∉ String.utf8EncodeChar c := by
  have byte (n : Nat) : (0 : UInt8) = UInt8.ofNat n ↔ n % 256 = 0 := by
    rw [← UInt8.toNat_inj, UInt8.toNat_ofNat', eq_comm]
    rfl
  have positive : c.val.toNat ≠ 0 := fun zero =>
    real (Char.ext (UInt32.toNat_inj.mp zero))
  unfold String.utf8EncodeChar
  simp only
  split_ifs <;> simp only [List.mem_cons, List.not_mem_nil, byte, or_false] <;> omega

theorem zero_not_mem_textEncode {s : List Char} (noNul : '\x00' ∉ s) : 0 ∉ textEncode s := by
  intro member
  obtain ⟨c, held, zero⟩ := List.mem_flatMap.mp member
  exact zero_not_mem_utf8EncodeChar (fun same => noNul (same ▸ held)) zero

theorem ofEditor_chars {s : List Char} (noNul : '\x00' ∉ s) :
    (CString.ofEditor s).chars = textEncode s := by
  refine List.takeWhile_eq_self_iff.mpr fun char member => ?_
  exact decide_eq_true fun zero => zero_not_mem_textEncode noNul (zero ▸ member)

/-- A string without a NUL whose encoding has a length of 32 bits. -/
def IsPlain (s : List Char) : Prop := '\x00' ∉ s ∧ (textEncode s).length < 2 ^ 32

theorem written_ofEditor {s : List Char} (plain : IsPlain s) :
    (CString.ofEditor s).written = textEncode s := by
  rw [CString.written, ofEditor_chars plain.1, Nat.mod_eq_of_lt plain.2, List.take_length]

theorem map_sorted {Text Other : Type} (text : Text → Other) (plan : Plan Text) :
    plan.sorted.map text id = (plan.map text id).sorted := by
  have utilities : PlanUtility.map text id ∘ PlanUtility.sorted =
      PlanUtility.sorted ∘ PlanUtility.map text id := by
    funext u
    simp only [Function.comp_apply, PlanUtility.map, PlanUtility.sorted, map_points_id]
  simp only [Plan.map, Plan.sorted, List.map_map, utilities]

section Agreement

variable {model : Model} {tables : GoapTables}
  (registered : GoapTables.empty.registerAll (registrations model.toPlan) = some tables)
  (plain : model.Every IsPlain fun v => v.isFinite = true)
include registered plain

/-- The planner writes the encoding of the model with its points sorted. -/
theorem written_eq :
    tables.written = planMagic ++ (model.toPlan.map textEncode id).sorted.encode := by
  have texts : model.toPlan.map (CString.written ∘ CString.ofEditor) (id ∘ id) =
      model.toPlan.map textEncode id :=
    Plan.map_congr (fun _ isPlain => written_ofEditor isPlain) (fun _ _ => rfl) plain
  rw [GoapTables.written, GoapTables.serializeBody, tables_of_registrations registered, map_sorted,
    Plan.map_map, texts]

/-- The editor's bytes are the planner's exactly when the points are sorted. -/
theorem pushed_eq_written_iff (small : 3 + tables.serializeBodySize < 2 ^ 32) :
    pushed model.toPlan = tables.written ↔ ∀ u ∈ model.utilities, SortedByX u.points := by
  have finite : model.IsFinite := plain.mono (fun _ _ => trivial) fun _ isFinite => isFinite
  have length := tables.length_written
  rw [written_eq registered plain, List.length_append, length_encode_sorted] at length
  have bound : (model.toPlan.map textEncode id).encode.length < 2 ^ 63 := by
    have prefixLength : planMagic.length = 3 := rfl
    omega
  rw [pushed_eq_of_finite finite, written_eq registered plain, List.append_cancel_left_eq,
    encode_sorted_iff (Plan.every_map_iff.mpr finite) bound]
  · simp only [Plan.map, List.forall_mem_map, PlanUtility.map, map_points_id]
  · simp only [Plan.map, List.forall_mem_map, PlanUtility.map, map_points_id]
    exact model.arrays.points

theorem length_pushed : (pushed model.toPlan).length = 3 + tables.serializeBodySize := by
  have finite : model.IsFinite := plain.mono (fun _ _ => trivial) fun _ isFinite => isFinite
  rw [← tables.length_written, written_eq registered plain, pushed_eq_of_finite finite,
    List.length_append, List.length_append, length_encode_sorted]

/-- The two blobs agree exactly when the points of every curve are given in ascending order and the
size of the blob fits 32 bits. -/
theorem serialize_eq_iff :
    serialize model = some tables.serialize.bytes ↔
      (∀ u ∈ model.utilities, SortedByX u.points) ∧ 3 + tables.serializeBodySize < 2 ^ 32 := by
  have length := length_pushed registered plain
  unfold serialize
  rw [length]
  by_cases small : 3 + tables.serializeBodySize < 2 ^ 32
  · have bytes : tables.serialize.bytes = tables.written :=
      Blob.ofBuffer_bytes_of_lt (tables.length_written.trans_lt small)
    rw [if_pos small, bytes, Option.some_inj, pushed_eq_written_iff registered plain small,
      and_iff_left small]
  · rw [if_neg small]
    exact ⟨fun same => absurd same (Option.some_ne_none _).symm, fun plan => absurd plan.2 small⟩

end Agreement

/-- A model with one curve. -/
def oneCurve (points : List PlanPoint) (few : points.length < 2 ^ 32) : Model where
  name := ['f']
  actions := []
  goals := []
  utilities := [⟨['u'], [], [], ⟨0⟩, ⟨0x3FF0000000000000⟩, points⟩]
  missions := []
  arrays := by
    constructor
    case actions => exact (by decide : 0 < 2 ^ 32)
    case goals => exact (by decide : 0 < 2 ^ 32)
    case utilities => exact (by decide : 1 < 2 ^ 32)
    case missions => exact (by decide : 0 < 2 ^ 32)
    case points => exact List.forall_mem_singleton.mpr few
    all_goals exact fun _ member => absurd member List.not_mem_nil
  strings := by
    constructor
    case name => exact (by decide : ['f'].length < 2 ^ 53)
    case utilities =>
      exact List.forall_mem_singleton.mpr
        ⟨(by decide : ['u'].length < 2 ^ 53), (by decide : 0 < 2 ^ 53), (by decide : 0 < 2 ^ 53),
          trivial, trivial, fun _ _ => ⟨trivial, trivial⟩⟩
    all_goals exact fun _ member => absurd member List.not_mem_nil

theorem oneCurve_every {isText : List Char → Prop} {isNumber : Binary64 → Prop}
    {points : List PlanPoint} {few : points.length < 2 ^ 32} (name : isText ['f']) (id : isText ['u'])
    (blank : isText []) (zero : isNumber ⟨0⟩) (one : isNumber ⟨0x3FF0000000000000⟩)
    (every : ∀ p ∈ points, p.Every isNumber) : (oneCurve points few).Every isText isNumber := by
  constructor
  case name => exact name
  case utilities => exact List.forall_mem_singleton.mpr ⟨id, blank, blank, zero, one, every⟩
  all_goals exact fun _ member => absurd member List.not_mem_nil

theorem oneCurve_plain {points : List PlanPoint} {few : points.length < 2 ^ 32}
    (finite : ∀ p ∈ points, p.Every fun v => v.isFinite = true) :
    (oneCurve points few).Every IsPlain fun v => v.isFinite = true := by
  have letter (c : Char) (plain : '\x00' ≠ c) (short : (textEncode [c]).length < 2 ^ 32) :
      IsPlain [c] := ⟨fun member => plain (List.mem_singleton.mp member), short⟩
  exact oneCurve_every (letter 'f' (by decide) (by decide)) (letter 'u' (by decide) (by decide))
    ⟨List.not_mem_nil, (by decide : 0 < 2 ^ 32)⟩ (by decide) (by decide) finite

/-- Two points from left to right. -/
def ramp : Model := oneCurve [⟨⟨0⟩, ⟨0⟩⟩, ⟨⟨0x3FF0000000000000⟩, ⟨0x3FF0000000000000⟩⟩] (by decide)

/-- The same points from right to left. -/
def slope : Model := oneCurve [⟨⟨0x3FF0000000000000⟩, ⟨0x3FF0000000000000⟩⟩, ⟨⟨0⟩, ⟨0⟩⟩] (by decide)

theorem serialize_eq_iff_ramp : ∃ tables,
    GoapTables.empty.registerAll (registrations ramp.toPlan) = some tables ∧
      serialize ramp = some tables.serialize.bytes := by
  have succeeds : (GoapTables.empty.registerAll (registrations ramp.toPlan)).isSome = true := by
    decide +kernel
  obtain ⟨tables, registered⟩ := Option.isSome_iff_exists.mp succeeds
  have plain : ramp.Every IsPlain fun v => v.isFinite = true :=
    oneCurve_plain (List.forall_mem_cons.mpr ⟨⟨by decide, by decide⟩,
      List.forall_mem_singleton.mpr ⟨by decide, by decide⟩⟩)
  have small : (pushed ramp.toPlan).length < 2 ^ 32 := by decide +kernel
  rw [length_pushed registered plain] at small
  exact ⟨tables, registered, (serialize_eq_iff registered plain).mpr
    ⟨List.forall_mem_singleton.mpr (List.pairwise_pair.mpr (by decide)), small⟩⟩

theorem serialize_slope : ∃ tables,
    GoapTables.empty.registerAll (registrations slope.toPlan) = some tables ∧
      slope.Every IsPlain (fun v => v.isFinite = true) ∧
      serialize slope ≠ some tables.serialize.bytes := by
  have succeeds : (GoapTables.empty.registerAll (registrations slope.toPlan)).isSome = true := by
    decide +kernel
  obtain ⟨tables, registered⟩ := Option.isSome_iff_exists.mp succeeds
  have plain : slope.Every IsPlain fun v => v.isFinite = true :=
    oneCurve_plain (List.forall_mem_cons.mpr ⟨⟨by decide, by decide⟩,
      List.forall_mem_singleton.mpr ⟨by decide, by decide⟩⟩)
  have short : (pushed slope.toPlan).length < 2 ^ 32 := by decide +kernel
  have small := short
  rw [length_pushed registered plain] at small
  have bytes : tables.serialize.bytes = tables.written :=
    Blob.ofBuffer_bytes_of_lt (tables.length_written.trans_lt small)
  refine ⟨tables, registered, plain, fun same => ?_⟩
  rw [serialize, if_pos short, bytes, Option.some_inj,
    pushed_eq_written_iff registered plain small] at same
  have sorted := List.pairwise_pair.mp (same _ (List.mem_singleton_self _))
  exact absurd sorted (by decide)

end Editor

end Fleece
