/-
This file is about passing a plan on. The decoder takes heads of any width, texts with
NUL in them and points in any order, so a blob that it accepts need not be one that the
planner would write. What it registers takes no more bytes when it is written again, so
the second blob fits 32 bits as the first did, and from there on nothing changes.
-/

import Fleece.Allocations
import Fleece.Exchange
import Fleece.PlanRoundTrip

namespace Fleece

/-! ### Widths -/

theorem readArgument_lt {buf : List UInt8} (count pos : Nat) {start value : UInt64} {digits : Nat}
    (below : start.toNat < 256 ^ digits) (read : readArgument buf count pos start = .ok value) :
    value.toNat < 256 ^ (digits + count) := by
  induction count generalizing pos start digits with
  | zero =>
    cases read
    exact below
  | succ count inductionHypothesis =>
    obtain ⟨byte, _, read⟩ := parts_of_bind read
    have shifted : (shiftIn start byte).toNat < 256 ^ (digits + 1) := by
      have byteLt : byte.toNat < 256 := byte.toNat_lt
      have least := Nat.mod_le (start.toNat * 256 + byte.toNat) (2 ^ 64)
      rw [shiftIn_toNat, pow_succ]
      omega
    have bound := inductionHypothesis (pos + 1) shifted read
    rwa [Nat.add_assoc, Nat.add_comm 1 count] at bound

theorem uintSize_eq (value : UInt64) : uintSize value =
    if value.toNat < 24 then 1 else if value.toNat ≤ 255 then 2
    else if value.toNat ≤ 65535 then 3 else if value.toNat ≤ 4294967295 then 5 else 9 := by
  simp only [uintSize, UInt64.lt_iff_toNat_lt, UInt64.le_iff_toNat_le]
  rfl

/-- An argument was read from at least as many bytes as it takes. -/
theorem uintSize_of_readHead {buf : List UInt8} {size pos : Nat} {head : Head}
    (found : readHead buf size pos = .ok head) : pos + uintSize head.value ≤ head.pos := by
  have wide (count : Nat) (major : UInt8)
      (fits : ∀ value : UInt64, value.toNat < 256 ^ count → uintSize value ≤ count + 1)
      (read : readWide buf size (pos + 1) count major = .ok head) :
      pos + uintSize head.value ≤ head.pos := by
    obtain ⟨value, argument, read⟩ := parts_of_bind (passed_guard read).2
    have none : (0 : UInt64).toNat < 256 ^ 0 := Nat.one_pos
    have bound := readArgument_lt count (pos + 1) none argument
    rw [Nat.zero_add] at bound
    cases read
    have width := fits value bound
    show pos + uintSize value ≤ pos + 1 + count
    omega
  obtain ⟨initial, _, found⟩ := parts_of_bind (passed_guard found).2
  simp only at found
  split_ifs at found with short
  · cases found
    show pos + uintSize (initial &&& 0x1F).toUInt64 ≤ pos + 1
    have small : (initial &&& 0x1F).toUInt64 < 24 := by
      rw [UInt64.lt_iff_toNat_lt, UInt8.toNat_toUInt64]
      exact UInt8.lt_iff_toNat_lt.mp short
    rw [uintSize, if_pos small]
  all_goals
    refine wide _ _ (fun value bound => ?_) found
    rw [uintSize_eq]
    split_ifs <;> omega

theorem uintSize_ofNat_le {count : Nat} {value : UInt64} (le : count ≤ value.toNat) :
    uintSize (UInt64.ofNat count) ≤ uintSize value := by
  refine uintSize_mono (UInt64.le_iff_toNat_le.mpr ?_)
  rw [UInt64.toNat_ofNat']
  exact (Nat.mod_le count _).trans le

theorem numIsUint_ofNat {n : Nat} (small : n < 2 ^ 53) : numIsUint (.ofNat n) = true := by
  have range : n < 2 ^ 1023 := small.trans (Nat.pow_lt_pow_right (by decide) (by decide))
  have whole := Binary64.trunc_ofNat (Binary64.isExact_of_lt small) range
  have number := (Binary64.ofNat_sign range).2
  have order := Binary64.order_ofNat range
  have bound : (Binary64.ofNat n).magnitude < 1087 * 2 ^ 52 := by
    rcases eq_or_ne n 0 with rfl | positive
    · decide
    · have log : n.log2 < 53 := (Nat.log2_lt positive).mpr small
      have digits := (Binary64.significand_bounds positive).2
      rw [(Binary64.magnitude_ofNat positive range).1]
      omega
  have least : Binary64.zero.order ≤ (Binary64.ofNat n).order := order ▸ Int.natCast_nonneg _
  have most : (Binary64.ofNat n).order < Binary64.two64.order := by
    have top : Binary64.two64.order = ((1087 * 2 ^ 52 : Nat) : Int) := rfl
    rw [order, top]
    exact Int.ofNat_lt.mpr bound
  have zeroIs : Binary64.zero.isNan = false := rfl
  have two64Is : Binary64.two64.isNan = false := rfl
  unfold numIsUint Binary64.ge Binary64.lt Binary64.eq
  rw [whole, number, zeroIs, two64Is, decide_eq_true least, decide_eq_true most,
    decide_eq_true rfl]
  rfl

theorem numSize_le (v : Binary64) : numSize v ≤ 9 := by
  unfold numSize
  split_ifs
  · exact uintSize_le _
  · exact le_rfl

/-- A whole number takes no more bytes after it was rounded. -/
theorem numSize_ofNat_le (value : UInt64) :
    numSize (.ofNat value.toNat) ≤ uintSize value := by
  have range : value.toNat < 2 ^ 1023 :=
    value.toNat_lt.trans (Nat.pow_lt_pow_right (by decide) (by decide))
  by_cases small : value.toNat < 2 ^ 53
  · rw [numSize, if_pos (numIsUint_ofNat small),
      Binary64.trunc_ofNat (Binary64.isExact_of_lt small) range, UInt64.ofNat_toNat]
  · have widest : uintSize value = 9 := by
      rw [uintSize_eq]
      split_ifs <;> omega
    exact (numSize_le _).trans widest.ge

/-! ### Readers -/

section Readers

variable {buf : List UInt8}

/-- A read goes on by at least the bytes that its result takes, and stays inside the buffer. -/
def Covers {Element : Type} (buf : List UInt8) (size : Element → Nat)
    (read : Nat → Except Halt (Element × Nat)) : Prop :=
  ∀ pos element next, read pos = .ok (element, next) →
    pos + size element ≤ next ∧ next ≤ buf.length

theorem CString.size_le {text : CString} {len : UInt64} (short : text.chars.length ≤ len.toNat) :
    text.size ≤ uintSize len + len.toNat := by
  have fewer : text.chars.length % 2 ^ 32 ≤ len.toNat := (Nat.mod_le _ _).trans short
  exact Nat.add_le_add (uintSize_ofNat_le fewer) fewer

theorem length_slice {pos count : Nat} {bytes : List UInt8}
    (found : slice buf pos count = .ok bytes) : bytes.length = count := by
  unfold slice at found
  split_ifs at found with inside
  cases found
  rw [List.length_take, List.length_drop]
  omega

/-- A float64 is nine bytes long. -/
theorem pos_of_float {size pos : Nat} {head : Head} (first : byteAt buf pos = .ok 0xFB)
    (read : readHead buf size pos = .ok head) : head.pos = pos + 9 := by
  have info : (0xFB : UInt8) &&& 0x1F = 27 := rfl
  obtain ⟨initial, again, read⟩ := parts_of_bind (passed_guard read).2
  rw [first] at again
  cases again
  simp only [info] at read
  obtain ⟨value, argument, read⟩ := parts_of_bind (passed_guard read).2
  cases read
  rfl

variable (small : buf.length < 2 ^ 32)
include small

theorem covers_major (major : UInt8) :
    Covers buf uintSize fun pos => readMajor buf buf.length pos major :=
  fun _ _ _ found => ⟨uintSize_of_readHead (readMajor_ok found),
    (forward_head small (readMajor_ok found)).2⟩

theorem covers_num : Covers buf numSize (readNum buf buf.length) := by
  intro pos number next found
  have inside := (forward_num small pos number next found).2
  refine ⟨?_, inside⟩
  obtain ⟨initial, first, found⟩ := parts_of_bind (passed_guard found).2
  obtain ⟨head, read, found⟩ := parts_of_bind found
  have width := uintSize_of_readHead read
  split_ifs at found with whole float
  · cases found
    exact (Nat.add_le_add_left (numSize_ofNat_le _) pos).trans width
  · cases found
    have size := numSize_le ⟨head.value⟩
    have wide := pos_of_float (float ▸ first) read
    omega

theorem covers_textDyn : Covers buf CString.size (readTextDyn buf buf.length) := by
  intro pos text next found
  refine ⟨?_, (forward_textDyn small pos text next found).2⟩
  obtain ⟨⟨len, start⟩, header, found⟩ := parts_of_bind found
  obtain ⟨bytes, read, found⟩ := parts_of_bind (passed_guard found).2
  have width := (covers_major small 3 pos len start header).1
  have short : (CString.ofWire bytes).chars.length ≤ len.toNat :=
    (List.takeWhile_sublist _).length_le.trans (length_slice read).le
  have size := CString.size_le short
  cases found
  omega

theorem covers_text :
    Covers buf (fun name => CString.size name.toCString) (readText buf buf.length) := by
  intro pos name next found
  obtain ⟨⟨len, start⟩, header, found⟩ := parts_of_bind found
  obtain ⟨fits, found⟩ := passed_guard found
  have inside : start + len.toNat ≤ buf.length := boundsOk_iff.mp (by simpa using fits)
  obtain ⟨bytes, read, found⟩ := parts_of_bind found
  have width := (covers_major small 3 pos len start header).1
  have short : (FieldName.ofWire bytes).toCString.chars.length ≤ len.toNat :=
    calc
      _ ≤ (bytes.take (fieldNameMax - 1)).length := (List.takeWhile_sublist _).length_le
      _ ≤ bytes.length := (List.take_sublist _ _).length_le
      _ ≤ len.toNat := (length_slice read).le.trans (min_le_left _ _)
  have size := CString.size_le short
  cases found
  refine ⟨?_, inside⟩
  show pos + (FieldName.ofWire bytes).toCString.size ≤ _
  omega

theorem covers_point (slots index : Nat) :
    Covers buf PlanPoint.size (readPoint buf buf.length slots index) := by
  intro pos point next found
  refine ⟨?_, (forward_point small slots index pos point next found).2⟩
  obtain ⟨⟨arity, start⟩, header, found⟩ := parts_of_bind found
  obtain ⟨isTwo, found⟩ := passed_guard found
  obtain ⟨⟨x, middle⟩, xRead, found⟩ := parts_of_bind found
  obtain ⟨⟨y, last⟩, yRead, found⟩ := parts_of_bind (passed_guard found).2
  have first := (covers_major small 4 pos arity start header).1
  have second := (covers_num small start x middle xRead).1
  have third := (covers_num small middle y last yRead).1
  rw [not_not.mp isTwo] at first
  have same : arrayHeaderSize 2 = uintSize 2 := rfl
  have size : PlanPoint.size ⟨x, y⟩ = arrayHeaderSize 2 + (numSize x + numSize y) := rfl
  cases found
  omega

omit small in
/-- A list takes the bytes of its elements. -/
theorem covers_each {Element : Type} {size : Element → Nat}
    {read : Nat → Nat → Except Halt (Element × Nat)}
    (covers : ∀ index, Covers buf size (read index)) (left index pos : Nat)
    {elements : List Element} {next : Nat}
    (found : readEach read left index pos = .ok (elements, next)) :
    pos + (elements.map size).sum ≤ next := by
  induction left generalizing index pos elements next with
  | zero =>
    cases found
    exact le_rfl
  | succ left inductionHypothesis =>
    obtain ⟨⟨element, middle⟩, first, found⟩ := parts_of_bind found
    obtain ⟨⟨rest, last⟩, later, found⟩ := parts_of_bind found
    have sum := inductionHypothesis (index + 1) middle later
    have width := (covers index pos element middle first).1
    cases found
    rw [List.map_cons, List.sum_cons]
    omega

theorem covers_array {Element : Type} {size : Element → Nat}
    {read : Nat → Nat → Except Halt (Element × Nat)}
    (forward : ∀ index, Forward buf (read index)) (covers : ∀ index, Covers buf size (read index))
    {pos start next : Nat} {count : UInt64} {elements : List Element}
    (header : readMajor buf buf.length pos 4 = .ok (count, start))
    (found : readEach read count.toNat 0 start = .ok (elements, next)) :
    pos + (arrayHeaderSize elements.length + (elements.map size).sum) ≤ next ∧
      next ≤ buf.length ∧ counted elements = elements := by
  obtain ⟨width, inside⟩ := covers_major small 4 pos count start header
  obtain ⟨length, room, bound⟩ := readEach_forward forward count.toNat 0 start found
  have sum := covers_each covers count.toNat 0 start found
  have within := bound inside
  rw [arrayHeaderSize, length, UInt64.ofNat_toNat]
  exact ⟨by omega, within, counted_of_lt (by omega)⟩

theorem covers_texts : Covers buf textsSize (readTexts buf buf.length) := by
  intro pos texts next found
  obtain ⟨⟨count, start⟩, header, found⟩ := parts_of_bind found
  have array := covers_array small (fun _ => forward_textDyn small) (fun _ => covers_textDyn small)
    header (passed_guard found).2
  exact ⟨array.1, array.2.1⟩

omit small in
theorem mem_readEach {Element : Type} {fits : Element → Prop}
    {read : Nat → Nat → Except Halt (Element × Nat)}
    (each : ∀ index pos element next, read index pos = .ok (element, next) → fits element)
    (left index pos : Nat) {elements : List Element} {next : Nat}
    (found : readEach read left index pos = .ok (elements, next)) : ∀ e ∈ elements, fits e := by
  induction left generalizing index pos elements next with
  | zero =>
    cases found
    exact fun _ member => absurd member List.not_mem_nil
  | succ left inductionHypothesis =>
    obtain ⟨⟨element, middle⟩, first, found⟩ := parts_of_bind found
    obtain ⟨⟨rest, last⟩, later, found⟩ := parts_of_bind found
    have others := inductionHypothesis (index + 1) middle later
    cases found
    exact List.forall_mem_cons.mpr ⟨each index pos element middle first, others⟩

theorem short_textDyn {pos next : Nat} {text : CString}
    (found : readTextDyn buf buf.length pos = .ok (text, next)) : text.FitsIn (2 ^ 32) := by
  obtain ⟨⟨len, start⟩, header, found⟩ := parts_of_bind found
  obtain ⟨fits, found⟩ := passed_guard found
  have inside : start + len.toNat ≤ buf.length := boundsOk_iff.mp (by simpa using fits)
  obtain ⟨bytes, read, found⟩ := parts_of_bind found
  have short : (CString.ofWire bytes).chars.length ≤ len.toNat :=
    (List.takeWhile_sublist _).length_le.trans (length_slice read).le
  cases found
  show (CString.ofWire bytes).chars.length < 2 ^ 32
  omega

theorem short_texts {pos next : Nat} {texts : List CString}
    (found : readTexts buf buf.length pos = .ok (texts, next)) :
    ∀ t ∈ texts, t.FitsIn (2 ^ 32) := by
  obtain ⟨⟨count, start⟩, header, found⟩ := parts_of_bind found
  exact mem_readEach (fun _ _ _ _ read => short_textDyn small read) _ _ _ (passed_guard found).2

theorem counted_texts {pos next : Nat} {texts : List CString}
    (found : readTexts buf buf.length pos = .ok (texts, next)) :
    (counted (texts.map some)).map dupStr = texts := by
  obtain ⟨⟨count, start⟩, header, found⟩ := parts_of_bind found
  have array := covers_array small (fun _ => forward_textDyn small) (fun _ => covers_textDyn small)
    header (passed_guard found).2
  have mapped : counted (texts.map some) = (counted texts).map some := by
    rw [counted, counted, List.length_map, List.map_take]
  rw [mapped, array.2.2, map_dupStr_some]

theorem covers_points {pos next : Nat} {points : List PlanPoint}
    (found : readPoints buf buf.length pos = .ok (points, next)) :
    pos + (arrayHeaderSize points.length + (points.map PlanPoint.size).sum) ≤ next ∧
      next ≤ buf.length ∧ counted points = points := by
  obtain ⟨⟨count, start⟩, header, found⟩ := parts_of_bind found
  exact covers_array small (forward_point small _) (covers_point small _) header found

/-! ### Records -/

omit small in
/-- The texts that are kept outside an array of fixed size. -/
structure PlanAction.HasShortTexts (a : PlanAction CString) : Prop where
  pre : ∀ t ∈ a.pre, t.FitsIn (2 ^ 32)
  eff : ∀ t ∈ a.eff, t.FitsIn (2 ^ 32)

theorem covers_action {pos next : Nat} {given : FleeceGoapActionDef} {a : PlanAction CString}
    (found : readAction buf buf.length pos = .ok (given, next)) (made : newAction given = some a) :
    pos + a.size ≤ next ∧ next ≤ buf.length ∧ a.HasShortTexts := by
  obtain ⟨⟨arity, start⟩, header, found⟩ := parts_of_bind found
  obtain ⟨isEight, found⟩ := passed_guard found
  obtain ⟨⟨id, afterId⟩, idRead, found⟩ := parts_of_bind found
  obtain ⟨⟨name, afterName⟩, nameRead, found⟩ := parts_of_bind found
  obtain ⟨⟨cost, afterCost⟩, costRead, found⟩ := parts_of_bind found
  obtain ⟨⟨dest, afterDest⟩, destRead, found⟩ := parts_of_bind found
  obtain ⟨⟨dur, afterDur⟩, durRead, found⟩ := parts_of_bind found
  obtain ⟨⟨exec, afterExec⟩, execRead, found⟩ := parts_of_bind found
  obtain ⟨⟨pre, afterPre⟩, preRead, found⟩ := parts_of_bind found
  obtain ⟨⟨eff, afterEff⟩, effRead, found⟩ := parts_of_bind found
  have arityWidth := (covers_major small 4 pos arity start header).1
  have idWidth := (covers_textDyn small start id afterId idRead).1
  have nameWidth := (covers_textDyn small afterId name afterName nameRead).1
  have costWidth := (covers_textDyn small afterName cost afterCost costRead).1
  have destWidth := (covers_textDyn small afterCost dest afterDest destRead).1
  have durWidth := (covers_num small afterDest dur afterDur durRead).1
  have execWidth := (covers_textDyn small afterDur exec afterExec execRead).1
  have preWidth := (covers_texts small afterExec pre afterPre preRead).1
  obtain ⟨effWidth, inside⟩ := covers_texts small afterPre eff afterEff effRead
  have wholePre := counted_texts small preRead
  have wholeEff := counted_texts small effRead
  have shortPre := short_texts small preRead
  have shortEff := short_texts small effRead
  have same : arrayHeaderSize 8 = uintSize 8 := rfl
  rw [not_not.mp isEight] at arityWidth
  cases found
  have parts := eq_of_newAction made
  simp only [PlanAction.map, wholePre, wholeEff, dupStr, Option.getD_some, id_eq] at parts
  rw [parts, PlanAction.size]
  simp only
  exact ⟨by omega, inside, shortPre, shortEff⟩

theorem covers_goal {pos next : Nat} {given : FleeceGoapGoalDef} {g : PlanGoal CString}
    (found : readGoal buf buf.length pos = .ok (given, next)) (made : newGoal given = some g) :
    pos + g.size ≤ next ∧ next ≤ buf.length := by
  obtain ⟨⟨arity, start⟩, header, found⟩ := parts_of_bind found
  obtain ⟨isFive, found⟩ := passed_guard found
  obtain ⟨⟨id, afterId⟩, idRead, found⟩ := parts_of_bind found
  obtain ⟨⟨name, afterName⟩, nameRead, found⟩ := parts_of_bind found
  obtain ⟨⟨expr, afterExpr⟩, exprRead, found⟩ := parts_of_bind found
  obtain ⟨⟨priority, afterPriority⟩, priorityRead, found⟩ := parts_of_bind found
  obtain ⟨⟨curveId, afterCurve⟩, curveRead, found⟩ := parts_of_bind found
  have arityWidth := (covers_major small 4 pos arity start header).1
  have idWidth := (covers_textDyn small start id afterId idRead).1
  have nameWidth := (covers_textDyn small afterId name afterName nameRead).1
  have exprWidth := (covers_textDyn small afterName expr afterExpr exprRead).1
  have priorityWidth := (covers_num small afterExpr priority afterPriority priorityRead).1
  obtain ⟨curveWidth, inside⟩ := covers_textDyn small afterPriority curveId afterCurve curveRead
  have same : arrayHeaderSize 5 = uintSize 5 := rfl
  rw [not_not.mp isFive] at arityWidth
  cases found
  have parts := eq_of_newGoal made
  simp only [PlanGoal.map, dupStr, Option.getD_some, id_eq] at parts
  rw [parts, PlanGoal.size]
  simp only
  exact ⟨by omega, inside⟩

theorem covers_utility {pos next : Nat} {given : FleeceGoapUtilityDef} {u : PlanUtility CString}
    (found : readUtility buf buf.length pos = .ok (given, next))
    (made : newUtility given = some u) :
    pos + u.size ≤ next ∧ next ≤ buf.length := by
  obtain ⟨⟨arity, start⟩, header, found⟩ := parts_of_bind found
  obtain ⟨isSeven, found⟩ := passed_guard found
  obtain ⟨⟨id, afterId⟩, idRead, found⟩ := parts_of_bind found
  obtain ⟨⟨name, afterName⟩, nameRead, found⟩ := parts_of_bind found
  obtain ⟨⟨dim, afterDim⟩, dimRead, found⟩ := parts_of_bind found
  obtain ⟨⟨xMin, afterMin⟩, minRead, found⟩ := parts_of_bind found
  obtain ⟨⟨xMax, afterMax⟩, maxRead, found⟩ := parts_of_bind found
  obtain ⟨⟨points, afterPoints⟩, pointsRead, found⟩ := parts_of_bind found
  have arityWidth := (covers_major small 4 pos arity start header).1
  have idWidth := (covers_textDyn small start id afterId idRead).1
  have nameWidth := (covers_textDyn small afterId name afterName nameRead).1
  have dimWidth := (covers_textDyn small afterName dim afterDim dimRead).1
  have minWidth := (covers_num small afterDim xMin afterMin minRead).1
  have maxWidth := (covers_num small afterMin xMax afterMax maxRead).1
  obtain ⟨pointsWidth, inside, whole⟩ := covers_points small pointsRead
  have same : arrayHeaderSize 7 = uintSize 7 := rfl
  rw [not_not.mp isSeven] at arityWidth
  cases found
  have parts := eq_of_newUtility made
  have sorted : (sortPoints points).Perm points := InsertionSort.sort_perm _
  simp only [PlanUtility.map, PlanUtility.sorted, map_points_id, whole, dupStr, Option.getD_some,
    id_eq] at parts
  rw [parts, PlanUtility.size]
  simp only [sorted.length_eq, (sorted.map PlanPoint.size).sum_eq]
  exact ⟨by omega, inside⟩

theorem covers_mission {pos next : Nat} {given : FleeceGoapMissionDef} {m : PlanMission CString}
    (found : readMission buf buf.length pos = .ok (given, next))
    (made : newMission given = some m) :
    pos + m.size ≤ next ∧ next ≤ buf.length ∧ ∀ t ∈ m.goalIds, t.FitsIn (2 ^ 32) := by
  obtain ⟨⟨arity, start⟩, header, found⟩ := parts_of_bind found
  obtain ⟨isFour, found⟩ := passed_guard found
  obtain ⟨⟨id, afterId⟩, idRead, found⟩ := parts_of_bind found
  obtain ⟨⟨name, afterName⟩, nameRead, found⟩ := parts_of_bind found
  obtain ⟨⟨goalIds, afterGoals⟩, goalsRead, found⟩ := parts_of_bind found
  obtain ⟨⟨note, afterNote⟩, noteRead, found⟩ := parts_of_bind found
  have arityWidth := (covers_major small 4 pos arity start header).1
  have idWidth := (covers_textDyn small start id afterId idRead).1
  have nameWidth := (covers_textDyn small afterId name afterName nameRead).1
  have goalsWidth := (covers_texts small afterName goalIds afterGoals goalsRead).1
  obtain ⟨noteWidth, inside⟩ := covers_textDyn small afterGoals note afterNote noteRead
  have whole := counted_texts small goalsRead
  have short := short_texts small goalsRead
  have same : arrayHeaderSize 4 = uintSize 4 := rfl
  rw [not_not.mp isFour] at arityWidth
  cases found
  have parts := eq_of_newMission made
  simp only [PlanMission.map, whole, dupStr, Option.getD_some] at parts
  rw [parts, PlanMission.size]
  simp only
  exact ⟨by omega, inside, short⟩

end Readers

/-! ### Tables -/

namespace GoapTables

section Table

variable {Record Def : Type} (table : PlanTable Record) {buf : List UInt8}
  {read : Nat → Except Halt (Def × Nat)} {add : GoapTables → Def → Option (GoapTables × Int)}
  {size : Record → Nat} {isShort : Record → Prop}

/-- A definition that is read and registered puts one record behind the others, which takes no more
bytes than the read went on by. -/
def Registers (buf : List UInt8) (read : Nat → Except Halt (Def × Nat))
    (add : GoapTables → Def → Option (GoapTables × Int)) (size : Record → Nat)
    (isShort : Record → Prop) : Prop :=
  ∀ pos given next (tables after : GoapTables), read pos = .ok (given, next) →
    add tables given = some (after, 0) →
      ∃ record, after.toPlan = table.extend tables.toPlan [record] ∧
        pos + size record ≤ next ∧ next ≤ buf.length ∧ isShort record

variable {table}

theorem readRecords_covers (registers : Registers table buf read add size isShort) (left : Nat)
    {tables after : GoapTables} {pos next : Nat}
    (found : readRecords read add left tables pos = some (after, .ok next)) :
    ∃ records, records.length = left ∧ after.toPlan = table.extend tables.toPlan records ∧
      pos + (records.map size).sum ≤ next ∧ (pos ≤ buf.length → next ≤ buf.length) ∧
        ∀ record ∈ records, isShort record := by
  induction left generalizing tables pos with
  | zero =>
    cases found
    exact ⟨[], rfl, (table.extend_nil _).symm, le_rfl, id, fun _ member => nomatch member⟩
  | succ left inductionHypothesis =>
    rw [readRecords] at found
    cases first : read pos with
    | error halt =>
      rw [first] at found
      cases found
    | ok result =>
      obtain ⟨given, middle⟩ := result
      simp only [first] at found
      cases added : add tables given with
      | none =>
        rw [added] at found
        cases found
      | some outcome =>
        obtain ⟨more, code⟩ := outcome
        simp only [added] at found
        split_ifs at found with success
        · subst success
          obtain ⟨record, grown, width, inside, short⟩ := registers pos given middle _ _ first added
          obtain ⟨rest, length, plan, sum, bound, shorts⟩ := inductionHypothesis found
          refine ⟨record :: rest, congrArg (· + 1) length, ?_, ?_, fun _ => bound inside,
            List.forall_mem_cons.mpr ⟨short, shorts⟩⟩
          · rw [plan, grown, table.extend_cons]
          · rw [List.map_cons, List.sum_cons]
            omega
        · cases found

theorem readTable_covers (small : buf.length < 2 ^ 32)
    (registers : Registers table buf read add size isShort)
    {tables after : GoapTables} {pos next : Nat}
    (found : readTable buf buf.length read add tables pos = some (after, .ok next)) :
    ∃ records, after.toPlan = table.extend tables.toPlan records ∧
      pos + (arrayHeaderSize records.length + (records.map size).sum) ≤ next ∧
        next ≤ buf.length ∧ ∀ record ∈ records, isShort record := by
  unfold readTable at found
  cases header : readMajor buf buf.length pos 4 with
  | error halt =>
    rw [header] at found
    cases found
  | ok result =>
    obtain ⟨count, start⟩ := result
    simp only [header] at found
    obtain ⟨width, inside⟩ := covers_major small 4 pos count start header
    obtain ⟨records, length, plan, sum, bound, shorts⟩ := readRecords_covers registers _ found
    refine ⟨records, plan, ?_, bound inside, shorts⟩
    rw [arrayHeaderSize, length, UInt64.ofNat_toNat]
    omega

end Table

section Records

variable {buf : List UInt8} (small : buf.length < 2 ^ 32)
include small

theorem registers_action : Registers (.actions id) buf (readAction buf buf.length) addAction
    PlanAction.size PlanAction.HasShortTexts := by
  intro pos given next tables after found added
  obtain ⟨a, made, plan⟩ := of_addAction tables added
  exact ⟨a, plan, covers_action small found made⟩

theorem registers_goal : Registers (.goals id) buf (readGoal buf buf.length) addGoal
    PlanGoal.size fun _ => True := by
  intro pos given next tables after found added
  obtain ⟨g, made, plan⟩ := of_addGoal tables added
  obtain ⟨width, inside⟩ := covers_goal small found made
  exact ⟨g, plan, width, inside, trivial⟩

theorem registers_utility : Registers (.utilities id) buf (readUtility buf buf.length) addUtility
    PlanUtility.size fun _ => True := by
  intro pos given next tables after found added
  obtain ⟨u, made, plan⟩ := of_addUtility tables added
  obtain ⟨width, inside⟩ := covers_utility small found made
  exact ⟨u, plan, width, inside, trivial⟩

theorem registers_mission : Registers (.missions id) buf (readMission buf buf.length) addMission
    PlanMission.size fun m => ∀ t ∈ m.goalIds, t.FitsIn (2 ^ 32) := by
  intro pos given next tables after found added
  obtain ⟨m, made, plan⟩ := of_addMission tables added
  exact ⟨m, plan, covers_mission small found made⟩

omit small in
theorem of_andThen {first : Parse} {next : GoapTables → Nat → Parse} {tables : GoapTables}
    {pos : Nat} (found : first.andThen next = some (tables, .ok pos)) :
    ∃ middle start, first = some (middle, .ok start) ∧
      next middle start = some (tables, .ok pos) := by
  unfold Parse.andThen at found
  split at found
  · cases found
  · cases found
  · exact ⟨_, _, rfl, found⟩

/-- The tables that are read take no more bytes than they were read from, and their texts are
shorter than 2^32 bytes. -/
theorem readTables_covers {pos next : Nat} {tables : GoapTables}
    (found : readTables buf buf.length pos = some (tables, .ok next)) :
    pos + tables.serializeBodySize ≤ next + arrayHeaderSize 5 ∧ next ≤ buf.length ∧
      tables.Every (CString.FitsIn (2 ^ 32)) fun _ => True := by
  unfold readTables at found
  cases header : readText buf buf.length pos with
  | error halt =>
    rw [header] at found
    cases found
  | ok result =>
    obtain ⟨name, afterName⟩ := result
    simp only [header] at found
    obtain ⟨first, afterActions, actionsRead, found⟩ := of_andThen found
    obtain ⟨second, afterGoals, goalsRead, found⟩ := of_andThen found
    obtain ⟨third, afterUtilities, utilitiesRead, missionsRead⟩ := of_andThen found
    have nameWidth := (covers_text small pos name afterName header).1
    obtain ⟨actions, firstPlan, actionsWidth, -, actionTexts⟩ :=
      readTable_covers small (registers_action small) actionsRead
    obtain ⟨goals, secondPlan, goalsWidth, -⟩ :=
      readTable_covers small (registers_goal small) goalsRead
    obtain ⟨utilities, thirdPlan, utilitiesWidth, -⟩ :=
      readTable_covers small (registers_utility small) utilitiesRead
    obtain ⟨missions, plan, missionsWidth, inside, missionTexts⟩ :=
      readTable_covers small (registers_mission small) missionsRead
    have whole : tables.toPlan = ⟨name.toCString, actions, goals, utilities, missions⟩ := by
      rw [plan, thirdPlan, secondPlan, firstPlan]
      simp only [PlanTable.missions, PlanTable.utilities, PlanTable.goals, PlanTable.actions,
        List.map_id]
      rfl
    refine ⟨?_, inside, ?_⟩
    · unfold serializeBodySize
      rw [whole]
      simp only at nameWidth ⊢
      omega
    · have wide {count : Nat} {t : CString} (fitsIn : t.FitsIn count) (le : count ≤ 2 ^ 32) :
          t.FitsIn (2 ^ 32) := Nat.lt_of_lt_of_le fitsIn le
      have inActions {a : PlanAction CString} (member : a ∈ tables.actions) : a ∈ actions := by
        rwa [whole] at member
      have inMissions {m : PlanMission CString} (member : m ∈ tables.missions) : m ∈ missions := by
        rwa [whole] at member
      have fits := tables.fits
      constructor
      case name => exact wide fits.name (by decide)
      case actions =>
        intro a member
        have texts := actionTexts a (inActions member)
        obtain ⟨id, name, cost, exec, dest, -, -⟩ := fits.actions a member
        exact ⟨wide id (by decide), wide name (by decide), wide cost (by decide),
          wide dest (by decide), trivial, wide exec (by decide), texts.pre, texts.eff⟩
      case goals =>
        intro g member
        obtain ⟨id, name, expr, curveId⟩ := fits.goals g member
        exact ⟨wide id (by decide), wide name (by decide), wide expr (by decide), trivial,
          wide curveId (by decide)⟩
      case utilities =>
        intro u member
        obtain ⟨id, name, dim, -, -⟩ := fits.utilities u member
        exact ⟨wide id (by decide), wide name (by decide), wide dim (by decide), trivial, trivial,
          fun _ _ => ⟨trivial, trivial⟩⟩
      case missions =>
        intro m member
        obtain ⟨id, name, note, -⟩ := fits.missions m member
        exact ⟨wide id (by decide), wide name (by decide), missionTexts m (inMissions member),
          wide note (by decide)⟩

end Records

theorem restores_written (other : GoapTables) {tables : GoapTables} (finite : tables.IsFinite)
    (short : tables.Every (CString.FitsIn (2 ^ 32)) fun _ => True)
    (fits : tables.written.length < 2 ^ 32) :
    ∃ restored, other.deserialize tables.serialize = some (restored, .ok ()) ∧
      restored.toPlan = tables.toPlan.map id Binary64.unsignedZero ∧
      restored.serialize = tables.serialize := by
  have bytes : tables.serialize.bytes = tables.written := Blob.ofBuffer_bytes_of_lt fits
  have small : tables.written.length < 2 ^ 63 := fits.trans (by decide)
  obtain ⟨outer, stands⟩ := readPrefix_of_written small
  rw [serializeBody, map_written short] at stands
  obtain ⟨restored, pos, read, plan⟩ := readTables_of_stands small finite short stands
  have body : restored.serializeBody = tables.serializeBody := by
    rw [serializeBody, plan, Plan.map_map, serializeBody]
    exact encode_map _ _
  refine ⟨restored, ?_, plan, ?_⟩
  · rw [deserialize, Blob.size, bytes, outer]
    simp only
    rw [read]
    rfl
  · rw [serialize, serialize, written, written, body]

/-- A blob that the decoder accepts is registered as tables that take no more bytes when they are
written again. Where their numbers are finite, what is written is accepted in turn as the same
tables, up to the sign of zero, and written as the same bytes. -/
theorem accepted_plan_is_passed_on {old tables : GoapTables} {blob : Blob}
    (accepted : old.deserialize blob = some (tables, .ok ())) :
    tables.serialize.bytes = tables.written ∧ tables.written.length ≤ blob.size ∧
      (tables.IsFinite → ∀ other : GoapTables,
        ∃ restored, other.deserialize tables.serialize = some (restored, .ok ()) ∧
          restored.toPlan = tables.toPlan.map id Binary64.unsignedZero ∧
          restored.serialize = tables.serialize) := by
  have small := blob.sizeLt
  unfold deserialize at accepted
  cases outer : readPrefix blob.bytes blob.size with
  | error halt =>
    rw [outer] at accepted
    cases accepted
  | ok start =>
    simp only [outer, Option.map_eq_some_iff, Prod.mk.injEq] at accepted
    obtain ⟨⟨reached, result⟩, read, same, returned⟩ := accepted
    subst same
    cases result with
    | error halt => cases returned
    | ok next =>
      have after : 3 + arrayHeaderSize 5 ≤ start := by
        obtain ⟨magic, _, outer⟩ := parts_of_bind (passed_guard outer).2
        obtain ⟨_, outer⟩ := passed_guard outer
        obtain ⟨⟨arity, pos⟩, header, outer⟩ := parts_of_bind outer
        obtain ⟨isFive, outer⟩ := passed_guard outer
        have width := (covers_major small 4 3 arity pos header).1
        rw [not_not.mp isFive] at width
        cases outer
        exact width
      obtain ⟨width, inside, short⟩ := readTables_covers small read
      have fewer : reached.written.length ≤ blob.size := by
        rw [length_written, Blob.size]
        omega
      have fits : reached.written.length < 2 ^ 32 := fewer.trans_lt small
      exact ⟨Blob.ofBuffer_bytes_of_lt fits, fewer, fun finite other =>
        other.restores_written finite short fits⟩

/-- A name of one byte whose length takes two, and a curve with the points (1, 0) and (0, 1), the
last zero of which takes two bytes. -/
def looseBlob : Blob := .ofBuffer
  (planMagic ++ [0x85, 0x78, 1, 0x67, 0x80, 0x80, 0x81, 0x87, 0x61, 0x67, 0x60, 0x60, 0, 1,
    0x82, 0x82, 1, 0, 0x82, 0x18, 0, 1, 0x80])

/-- The plan of the blob, with the points in order. -/
def loosePlan : Plan CString where
  name := ⟨[0x67], noNul_letter⟩
  actions := []
  goals := []
  utilities := [⟨⟨[0x67], noNul_letter⟩, .empty, .empty, .zero, .ofNat 1,
    [⟨.zero, .ofNat 1⟩, ⟨.ofNat 1, .zero⟩]⟩]
  missions := []

theorem accepted_plan_is_passed_on_loose :
    ∃ tables restored, empty.deserialize looseBlob = some (tables, .ok ()) ∧
      tables.toPlan = loosePlan ∧ tables.written.length ≤ looseBlob.size ∧
      empty.deserialize tables.serialize = some (restored, .ok ()) ∧
      restored.serialize = tables.serialize := by
  have read : (empty.deserialize looseBlob).map (fun result => (result.1.toPlan, result.2)) =
      some (loosePlan, .ok ()) := by decide +kernel
  obtain ⟨⟨tables, code⟩, accepted, same⟩ := Option.map_eq_some_iff.mp read
  obtain ⟨plan, rfl⟩ := Prod.mk.inj same
  obtain ⟨_, fewer, again⟩ := accepted_plan_is_passed_on accepted
  have finite : tables.IsFinite := by
    show tables.toPlan.IsFinite
    rw [plan]
    constructor
    case utilities =>
      refine List.forall_mem_singleton.mpr ⟨trivial, trivial, trivial, by decide, by decide, ?_⟩
      exact List.forall_mem_cons.mpr ⟨⟨by decide, by decide⟩,
        List.forall_mem_singleton.mpr ⟨by decide, by decide⟩⟩
    all_goals first | trivial | exact fun _ member => absurd member List.not_mem_nil
  obtain ⟨restored, readAgain, _, stable⟩ := again finite empty
  exact ⟨tables, restored, accepted, plan, fewer, readAgain, stable⟩

end GoapTables

end Fleece
