/-
This file follows `fleece_goap_deserialize` from array to array: how many elements
the allocation holds, which of them are written, and what count is handed on. The
arrays of strings are allocated by `fleece_calloc`, which refuses a product that does
not fit. The points of a curve are allocated by `fleece_malloc` with a product that
wraps: from 2^60 points on there is room for their number modulo 2^60, and the loop
writes on until the blob ends.

No count is cut to 32 bits in the end: a loop that comes to its end has read as many
elements from a blob of fewer than 2^32 bytes. The arrays are listed beside the readers of
the blob, and these are shown to stray, and to hand on their counts, just as the list says.
-/

import Fleece.PlanBlob
import Fleece.Safety

namespace Fleece

/-! ### The arrays of a blob -/

section Arrays

variable (buf : List UInt8) (size : Nat)

/-- What becomes of an array: the elements that its allocation holds, the indices that are written,
and when the loop ends, the elements that were parsed and the count that is handed on. -/
structure ArrayTrace where
  slots : Nat
  written : List Nat
  handed : Option (Nat × Nat)
  deriving DecidableEq

/-- `pre[j] = read_text_dyn(...)`: the place is written whether the string was read or not. -/
def textWrites : Nat → Nat → Nat → List Nat
  | 0, _, _ => []
  | left + 1, index, pos =>
    index :: match readTextDyn buf size pos with
      | .error _ => []
      | .ok (_, pos) => textWrites left (index + 1) pos

/-- `pts[j].x` and `pts[j].y` are written when they have been read. -/
def pointWrites : Nat → Nat → Nat → List Nat
  | 0, _, _ => []
  | left + 1, index, pos =>
    match readMajor buf size pos 4 with
    | .error _ => []
    | .ok (arity, pos) =>
      if arity ≠ 2 then []
      else
        match readNum buf size pos with
        | .error _ => []
        | .ok (_, pos) =>
          index :: match readNum buf size pos with
            | .error _ => []
            | .ok (_, pos) => index :: pointWrites left (index + 1) pos

/-- An array of strings from `fleece_calloc`. -/
def textsTrace (pos : Nat) : Option ArrayTrace :=
  match readMajor buf size pos 4 with
  | .error _ => none
  | .ok (count, start) =>
    if 2 ^ 64 ≤ count.toNat * 8 then none
    else some
      { slots := count.toNat
        written := textWrites buf size count.toNat 0 start
        handed := match readTexts buf size pos with
          | .error _ => none
          | .ok (texts, _) => some (texts.length, count.toNat % 2 ^ 32) }

/-- The points of a curve from `fleece_malloc`. -/
def pointsTrace (pos : Nat) : Option ArrayTrace :=
  match readMajor buf size pos 4 with
  | .error _ => none
  | .ok (count, start) =>
    some
      { slots := count.toNat * 16 % 2 ^ 64 / 16
        written := pointWrites buf size count.toNat 0 start
        handed := match readPoints buf size pos with
          | .error _ => none
          | .ok (points, _) => some (points.length, count.toNat % 2 ^ 32) }

/-- The array stays inside its allocation, and its count is the number of its elements. -/
def ArrayTrace.StaysInside (trace : ArrayTrace) : Prop :=
  (∀ index ∈ trace.written, index < trace.slots) ∧
    ∀ handed ∈ trace.handed, handed.2 = handed.1

/-- The kinds of arrays whose length the blob announces. -/
inductive ArrayKind
  | texts
  | points
  deriving DecidableEq

/-- What is read into the array whose header stands at a position. -/
def traceOf : ArrayKind × Nat → Option ArrayTrace
  | (.texts, pos) => textsTrace buf size pos
  | (.points, pos) => pointsTrace buf size pos

/-! ### The way to the arrays -/

/-- The record of an action up to its array of preconditions. -/
def actionHead (pos : Nat) : Except Halt Nat := do
  let (arity, pos) ← readMajor buf size pos 4
  if arity ≠ 8 then .error .rejected
  else
    let (_, pos) ← readTextDyn buf size pos
    let (_, pos) ← readTextDyn buf size pos
    let (_, pos) ← readTextDyn buf size pos
    let (_, pos) ← readTextDyn buf size pos
    let (_, pos) ← readNum buf size pos
    let (_, pos) ← readTextDyn buf size pos
    .ok pos

/-- The record of a utility up to its points. -/
def utilityHead (pos : Nat) : Except Halt Nat := do
  let (arity, pos) ← readMajor buf size pos 4
  if arity ≠ 7 then .error .rejected
  else
    let (_, pos) ← readTextDyn buf size pos
    let (_, pos) ← readTextDyn buf size pos
    let (_, pos) ← readTextDyn buf size pos
    let (_, pos) ← readNum buf size pos
    let (_, pos) ← readNum buf size pos
    .ok pos

/-- The record of a mission up to its goal ids. -/
def missionHead (pos : Nat) : Except Halt Nat := do
  let (arity, pos) ← readMajor buf size pos 4
  if arity ≠ 4 then .error .rejected
  else
    let (_, pos) ← readTextDyn buf size pos
    let (_, pos) ← readTextDyn buf size pos
    .ok pos

/-- The arrays of the record of an action: its preconditions, then its effects. -/
def actionArrays (pos : Nat) : List (ArrayKind × Nat) :=
  match actionHead buf size pos with
  | .error _ => []
  | .ok pre =>
    (.texts, pre) :: match readTexts buf size pre with
      | .error _ => []
      | .ok (_, eff) => [(.texts, eff)]

/-- The array of the record of a curve: its points. -/
def utilityArrays (pos : Nat) : List (ArrayKind × Nat) :=
  match utilityHead buf size pos with
  | .error _ => []
  | .ok points => [(.points, points)]

/-- The array of the record of a mission: its goal ids. -/
def missionArrays (pos : Nat) : List (ArrayKind × Nat) :=
  match missionHead buf size pos with
  | .error _ => []
  | .ok goalIds => [(.texts, goalIds)]

end Arrays

namespace GoapTables

/-- The arrays of the records of one table. -/
def recordArrays {Def : Type} (arrays : Nat → List (ArrayKind × Nat))
    (read : Nat → Except Halt (Def × Nat)) (add : GoapTables → Def → Option (GoapTables × Int)) :
    Nat → GoapTables → Nat → List (ArrayKind × Nat)
  | 0, _, _ => []
  | left + 1, tables, pos =>
    arrays pos ++ match read pos with
      | .error _ => []
      | .ok (given, pos) =>
        match add tables given with
        | none => []
        | some (next, code) =>
          if code = 0 then recordArrays arrays read add left next pos else []

/-- The arrays of one table, as far as it is read. -/
def tableArrays {Def : Type} (buf : List UInt8) (size : Nat)
    (arrays : Nat → List (ArrayKind × Nat)) (read : Nat → Except Halt (Def × Nat))
    (add : GoapTables → Def → Option (GoapTables × Int)) (tables : GoapTables) (pos : Nat) :
    List (ArrayKind × Nat) :=
  match readMajor buf size pos 4 with
  | .error _ => []
  | .ok (count, pos) => recordArrays arrays read add count.toNat tables pos

/-- The arrays that come after a table that was read. -/
def afterTable (parse : Parse) (next : GoapTables → Nat → List (ArrayKind × Nat)) :
    List (ArrayKind × Nat) :=
  match parse with
  | some (tables, .ok pos) => next tables pos
  | _ => []

/-- The arrays of the body, in the order of its tables. The table of goals has none. -/
def bodyArrays (buf : List UInt8) (size pos : Nat) : List (ArrayKind × Nat) :=
  match readText buf size pos with
  | .error _ => []
  | .ok (name, pos) =>
    tableArrays buf size (actionArrays buf size) (readAction buf size) addAction (named name) pos ++
      afterTable (readTable buf size (readAction buf size) addAction (named name) pos)
        fun tables pos => afterTable (readTable buf size (readGoal buf size) addGoal tables pos)
        fun tables pos =>
          tableArrays buf size (utilityArrays buf size) (readUtility buf size) addUtility tables
            pos ++
            afterTable (readTable buf size (readUtility buf size) addUtility tables pos)
            fun tables pos =>
              tableArrays buf size (missionArrays buf size) (readMission buf size) addMission tables
                pos

/-- The arrays that `fleece_goap_deserialize` comes to, by the position of their headers. -/
def arraysOf (blob : Blob) : List (ArrayKind × Nat) :=
  match readPrefix blob.bytes blob.size with
  | .error _ => []
  | .ok pos => bodyArrays blob.bytes blob.size pos

end GoapTables

/-! ### Loops that end -/

section Ends

variable {buf : List UInt8}

/-- A read that goes forward and does not leave the buffer. -/
def Forward {Element : Type} (buf : List UInt8) (read : Nat → Except Halt (Element × Nat)) : Prop :=
  ∀ pos element next, read pos = .ok (element, next) → pos < next ∧ next ≤ buf.length

theorem inside_of_readHead {size pos : Nat} {head : Head}
    (found : readHead buf size pos = .ok head) : pos < buf.length := by
  unfold readHead at found
  split_ifs at found
  by_contra outside
  rw [byteAt, List.getElem?_eq_none (by omega)] at found
  cases found

/-- A read that succeeded has done all its parts. -/
theorem parts_of_bind {First Second : Type} {first : Except Halt First}
    {rest : First → Except Halt Second} {result : Second} (found : first >>= rest = .ok result) :
    ∃ part, first = .ok part ∧ rest part = .ok result := by
  cases first with
  | error halt => cases found
  | ok part => exact ⟨part, rfl, found⟩

theorem passed_guard {Result : Type} {bad : Prop} [Decidable bad] {halt : Halt}
    {read : Except Halt Result} {result : Result}
    (found : (if bad then .error halt else read) = .ok result) : ¬ bad ∧ read = .ok result := by
  split_ifs at found with wrong
  exact ⟨wrong, found⟩

theorem readMajor_ok {size pos next : Nat} {major : UInt8} {value : UInt64}
    (found : readMajor buf size pos major = .ok (value, next)) :
    readHead buf size pos = .ok ⟨major, value, next⟩ := by
  obtain ⟨head, read, found⟩ := parts_of_bind found
  obtain ⟨same, found⟩ := passed_guard found
  cases found
  rw [read, ← not_not.mp same]

variable (small : buf.length < 2 ^ 32)
include small

theorem forward_head {pos : Nat} {head : Head} (found : readHead buf buf.length pos = .ok head) :
    pos < head.pos ∧ head.pos ≤ buf.length := by
  have inside := inside_of_readHead found
  rcases readHead_cases (le_refl buf.length) pos (by omega) with
    refused | ⟨read, readFound, bound, width⟩
  · rw [refused] at found
    cases found
  · rw [readFound] at found
    cases found
    exact ⟨by omega, bound⟩

theorem forward_major (major : UInt8) :
    Forward buf fun pos => readMajor buf buf.length pos major :=
  fun _ _ _ found => forward_head small (readMajor_ok found)

theorem forward_num : Forward buf (readNum buf buf.length) := by
  intro pos value next found
  obtain ⟨initial, first, found⟩ := parts_of_bind (passed_guard found).2
  obtain ⟨head, read, found⟩ := parts_of_bind found
  have forward := forward_head small read
  split_ifs at found <;> cases found <;> exact forward

theorem forward_textDyn : Forward buf (readTextDyn buf buf.length) := by
  intro pos text next found
  obtain ⟨⟨len, start⟩, header, found⟩ := parts_of_bind found
  obtain ⟨fits, found⟩ := passed_guard found
  have inside : start + len.toNat ≤ buf.length := boundsOk_iff.mp (by simpa using fits)
  obtain ⟨bytes, read, found⟩ := parts_of_bind found
  have forward := (forward_major small 3 pos len start header).1
  cases found
  exact ⟨by omega, inside⟩

theorem forward_point (slots index : Nat) : Forward buf (readPoint buf buf.length slots index) := by
  intro pos point next found
  obtain ⟨⟨arity, start⟩, header, found⟩ := parts_of_bind found
  obtain ⟨⟨x, middle⟩, xRead, found⟩ := parts_of_bind (passed_guard found).2
  obtain ⟨⟨y, last⟩, yRead, found⟩ := parts_of_bind (passed_guard found).2
  have first := (forward_major small 4 pos arity start header).1
  have second := (forward_num small start x middle xRead).1
  have third := forward_num small middle y last yRead
  cases found
  exact ⟨by omega, third.2⟩

omit small in
/-- A loop over a reader that goes forward ends with as many elements as it was to read, and not
with more than the buffer has bytes. -/
theorem readEach_forward {Element : Type} {read : Nat → Nat → Except Halt (Element × Nat)}
    (forward : ∀ index, Forward buf (read index)) (left index pos : Nat) {elements : List Element}
    {next : Nat} (found : readEach read left index pos = .ok (elements, next)) :
    elements.length = left ∧ pos + left ≤ next ∧ (pos ≤ buf.length → next ≤ buf.length) := by
  induction left generalizing index pos elements next with
  | zero =>
    cases found
    exact ⟨rfl, le_refl _, id⟩
  | succ left inductionHypothesis =>
    obtain ⟨⟨element, middle⟩, first, found⟩ := parts_of_bind found
    obtain ⟨⟨rest, last⟩, later, found⟩ := parts_of_bind found
    obtain ⟨length, room, bound⟩ := inductionHypothesis (index + 1) middle later
    obtain ⟨onward, inside⟩ := forward index pos element middle first
    cases found
    exact ⟨congrArg (· + 1) length, by omega, fun _ => bound inside⟩

/-- No count is cut when the loop ends. -/
theorem readEach_count {Element : Type} {read : Nat → Nat → Except Halt (Element × Nat)}
    (forward : ∀ index, Forward buf (read index)) {left pos : Nat} {elements : List Element}
    {next : Nat} (inside : pos ≤ buf.length)
    (found : readEach read left 0 pos = .ok (elements, next)) :
    left % 2 ^ 32 = elements.length := by
  obtain ⟨length, room, bound⟩ := readEach_forward forward left 0 pos found
  have within := bound inside
  rw [length]
  exact Nat.mod_eq_of_lt (by omega)

/-! ### Arrays of strings -/

omit small in
theorem textWrites_lt (size left index pos : Nat) :
    ∀ i ∈ textWrites buf size left index pos, i < index + left := by
  induction left generalizing index pos with
  | zero => exact fun i member => absurd member List.not_mem_nil
  | succ left inductionHypothesis =>
    intro i member
    rcases List.mem_cons.mp member with rfl | member
    · omega
    · split at member
      · exact absurd member List.not_mem_nil
      · rename_i text next read
        have bound := inductionHypothesis (index + 1) next i member
        omega

/-- An array of strings stays inside its allocation. -/
theorem textsTrace_staysInside {pos : Nat} {trace : ArrayTrace}
    (traced : textsTrace buf buf.length pos = some trace) : trace.StaysInside := by
  unfold textsTrace at traced
  split at traced
  · cases traced
  · rename_i count start header
    split_ifs at traced with wraps
    cases traced
    refine ⟨fun index member => ?_, fun handed mem => ?_⟩
    · show index < count.toNat
      simpa using textWrites_lt buf.length count.toNat 0 start index member
    · cases read : readTexts buf buf.length pos with
      | error halt =>
        rw [read] at mem
        cases mem
      | ok result =>
        obtain ⟨texts, next⟩ := result
        rw [read] at mem
        cases mem
        unfold readTexts at read
        rw [header] at read
        have within := (forward_major small 4 pos count start header).2
        exact readEach_count small (fun _ => forward_textDyn small) within (passed_guard read).2

end Ends

/-! ### The points of a curve -/

section Points

variable (buf : List UInt8) (size : Nat)

/-- The header of a point, and its `x`. -/
def readX (pos : Nat) : Except Halt (Binary64 × Nat) := do
  let (arity, pos) ← readMajor buf size pos 4
  if arity ≠ 2 then .error .rejected else readNum buf size pos

/-- From here come `whole` points, and after them `x` of one more. -/
def HoldsPoints : Nat → Nat → Prop
  | 0, pos => ∃ x, readX buf size pos = .ok x
  | whole + 1, pos =>
    ∃ x y, readX buf size pos = .ok x ∧ readNum buf size x.2 = .ok y ∧ HoldsPoints whole y.2

/-- The header announces 2^60 points or more, and one follows for every place of the allocation and
one beyond. -/
def Overruns (pos : Nat) : Prop :=
  ∃ count start, readMajor buf size pos 4 = .ok (count, start) ∧ 2 ^ 60 ≤ count.toNat ∧
    HoldsPoints buf size (count.toNat % 2 ^ 60) start

variable {buf size}

/-- What a point writes: nothing before `x` is read, then its place, and from there on the rest if
`y` is read too. -/
theorem pointWrites_succ (left index pos : Nat) :
    pointWrites buf size (left + 1) index pos =
      match readX buf size pos with
      | .error _ => []
      | .ok (_, pos) =>
        index :: match readNum buf size pos with
          | .error _ => []
          | .ok (_, pos) => index :: pointWrites buf size left (index + 1) pos := by
  rw [pointWrites, readX]
  cases readMajor buf size pos 4 with
  | error halt => rfl
  | ok header =>
    simp only [bind, Except.bind]
    split_ifs
    · rfl
    · rfl

/-- A place `whole` beyond the first is written as soon as that many points were read, and `x` of
the next. -/
theorem exists_pointWrites_iff (left index pos whole : Nat) :
    (∃ i ∈ pointWrites buf size left index pos, index + whole ≤ i) ↔
      whole < left ∧ HoldsPoints buf size whole pos := by
  induction left generalizing index pos whole with
  | zero => simp [pointWrites]
  | succ left inductionHypothesis =>
    rw [pointWrites_succ]
    cases xRead : readX buf size pos with
    | error halt => cases whole <;> simp [HoldsPoints, xRead]
    | ok x =>
      obtain ⟨x, middle⟩ := x
      cases whole with
      | zero => simp [HoldsPoints, xRead]
      | succ whole =>
        cases yRead : readNum buf size middle with
        | error halt => simp [HoldsPoints, xRead, yRead]
        | ok y =>
          obtain ⟨y, next⟩ := y
          have later := inductionHypothesis (index + 1) next whole
          rw [show index + 1 + whole = index + (whole + 1) by omega] at later
          have held : HoldsPoints buf size (whole + 1) pos ↔ HoldsPoints buf size whole next := by
            simp [HoldsPoints, xRead, yRead]
          simp only [yRead, List.mem_cons, exists_eq_or_imp, held, later, Nat.add_lt_add_iff_right]
          constructor
          · rintro (beyond | beyond | found)
            · omega
            · omega
            · exact found
          · exact fun found => Or.inr (Or.inr found)

theorem slots_eq (count : Nat) : count * 16 % 2 ^ 64 / 16 = count % 2 ^ 60 := by
  omega

/-- The points stay inside their allocation unless the blob overruns it. -/
theorem pointsTrace_staysInside_iff (small : buf.length < 2 ^ 32) {pos : Nat} {trace : ArrayTrace}
    (traced : pointsTrace buf buf.length pos = some trace) :
    trace.StaysInside ↔ ¬ Overruns buf buf.length pos := by
  unfold pointsTrace at traced
  split at traced
  · cases traced
  · rename_i count start header
    cases traced
    have counts : ∀ handed ∈ (match readPoints buf buf.length pos with
        | .error _ => none
        | .ok (points, _) => some (points.length, count.toNat % 2 ^ 32)), handed.2 = handed.1 := by
      intro handed mem
      cases read : readPoints buf buf.length pos with
      | error halt =>
        rw [read] at mem
        cases mem
      | ok result =>
        rw [read] at mem
        cases mem
        unfold readPoints at read
        rw [header] at read
        have within := (forward_major small 4 pos count start header).2
        exact readEach_count small (forward_point small _) within read
    have beyond : (∃ i ∈ pointWrites buf buf.length count.toNat 0 start,
        0 + count.toNat % 2 ^ 60 ≤ i) ↔ _ := exists_pointWrites_iff _ _ _ _
    rw [Nat.zero_add] at beyond
    have wraps : count.toNat % 2 ^ 60 < count.toNat ↔ 2 ^ 60 ≤ count.toNat := by
      have bound := count.toNat_lt
      omega
    have overruns : Overruns buf buf.length pos ↔
        2 ^ 60 ≤ count.toNat ∧ HoldsPoints buf buf.length (count.toNat % 2 ^ 60) start := by
      simp [Overruns, header]
    rw [overruns, ← wraps, ← beyond, ArrayTrace.StaysInside, slots_eq]
    simp only [not_exists, not_and, not_le]
    exact and_iff_left counts

end Points

/-! ### The arrays are those of the records -/

section Records

variable {buf : List UInt8} (small : buf.length < 2 ^ 32)
include small

omit small in
/-- A read and what is safe from where it ends. -/
theorem SafeRead.chain {First Second : Type} {size pos : Nat} {place : First → Nat}
    {position : Second → Nat} {read : Except Halt First} {rest : First → Except Halt Second}
    (safe : SafeRead size pos place read)
    (safeRest : ∀ first, place first ≤ size →
      SafeRead size (place first) position (rest first)) :
    SafeRead size pos position (read >>= rest) :=
  safe.bind fun first after bound => (safeRest first bound).from after.le

theorem readNum_safe (pos : Nat) :
    SafeRead buf.length pos Prod.snd (readNum buf buf.length pos) := by
  unfold readNum
  refine .guard fun room => ?_
  obtain ⟨initial, first⟩ := byteAt_of_lt (not_le.mp room)
  rw [first]
  show SafeRead buf.length pos Prod.snd (readHead buf buf.length pos >>= _)
  have safe : SafeRead buf.length pos Head.pos (readHead buf buf.length pos) := by
    cases read : readHead buf buf.length pos with
    | error halt =>
      rcases readHead_cases (le_refl buf.length) pos (by omega) with refused | ⟨_, found, _⟩
      · rw [read] at refused
        exact Except.error.inj refused
      · rw [read] at found
        cases found
    | ok head => exact forward_head small read
  refine safe.bind fun head after bound => ?_
  split_ifs
  · exact ⟨after, bound⟩
  · exact ⟨after, bound⟩
  · exact rfl

theorem readTextDyn_safe {pos : Nat} (inside : pos ≤ buf.length) :
    SafeRead buf.length pos Prod.snd (readTextDyn buf buf.length pos) := by
  unfold readTextDyn
  refine (readMajor_safe (le_refl _) (by omega) inside 3).bind ?_
  rintro ⟨len, start⟩ (after : pos < start) -
  refine .guard fun fits => ?_
  have room : start + len.toNat ≤ buf.length := boundsOk_iff.mp (by simpa using fits)
  rw [slice_of_le (le_refl buf.length) room]
  exact ⟨after.trans_le (Nat.le_add_right _ _), room⟩

omit small in
theorem readEach_safe {Element : Type} {read : Nat → Nat → Except Halt (Element × Nat)}
    (safe : ∀ index pos, pos ≤ buf.length → SafeRead buf.length pos Prod.snd (read index pos))
    (left index : Nat) {pos start : Nat} (after : start < pos) (inside : pos ≤ buf.length) :
    SafeRead buf.length start Prod.snd (readEach read left index pos) := by
  induction left generalizing index pos with
  | zero => exact ⟨after, inside⟩
  | succ left inductionHypothesis =>
    refine ((safe index pos inside).from after.le).bind ?_
    rintro ⟨element, middle⟩ (onward : start < middle) (bound : middle ≤ buf.length)
    refine (inductionHypothesis (index + 1) onward bound).bind ?_
    rintro ⟨rest, last⟩ (final : start < last) (finalIn : last ≤ buf.length)
    exact ⟨final, finalIn⟩

theorem readTexts_safe {pos : Nat} (inside : pos ≤ buf.length) :
    SafeRead buf.length pos Prod.snd (readTexts buf buf.length pos) := by
  unfold readTexts
  refine (readMajor_safe (le_refl _) (by omega) inside 4).bind ?_
  rintro ⟨count, start⟩ (after : pos < start) (bound : start ≤ buf.length)
  exact .guard fun _ =>
    readEach_safe (fun _ _ within => readTextDyn_safe small within) _ _ after bound

theorem readX_safe {pos : Nat} (inside : pos ≤ buf.length) :
    SafeRead buf.length pos Prod.snd (readX buf buf.length pos) := by
  unfold readX
  refine (readMajor_safe (le_refl _) (by omega) inside 4).bind ?_
  rintro ⟨arity, start⟩ (after : pos < start) -
  exact .guard fun _ => (readNum_safe small start).from after.le

omit small in
theorem readPoint_eq (size slots index pos : Nat) :
    readPoint buf size slots index pos = (do
      let x ← readX buf size pos
      if slots ≤ index then .error .outOfBounds
      else
        let y ← readNum buf size x.2
        .ok (⟨x.1, y.1⟩, y.2)) := by
  unfold readPoint readX
  cases readMajor buf size pos 4 with
  | error halt => rfl
  | ok header =>
    simp only [bind, Except.bind]
    split_ifs <;> rfl

/-- The model of the loop reports the first place beyond the allocation. -/
theorem readEach_point_iff (left index whole : Nat) {pos : Nat} (inside : pos ≤ buf.length) :
    readEach (readPoint buf buf.length (index + whole)) left index pos = .error .outOfBounds ↔
      whole < left ∧ HoldsPoints buf buf.length whole pos := by
  induction left generalizing index whole pos with
  | zero => simp [readEach]
  | succ left inductionHypothesis =>
    have xSafe := readX_safe small inside
    rw [readEach, readPoint_eq]
    cases xRead : readX buf buf.length pos with
    | error halt =>
      rw [xRead] at xSafe
      cases xSafe
      cases whole <;> simp [HoldsPoints, xRead, bind, Except.bind]
    | ok x =>
      cases whole with
      | zero => simp [HoldsPoints, xRead, bind, Except.bind]
      | succ whole =>
        have ySafe := readNum_safe small x.2
        cases yRead : readNum buf buf.length x.2 with
        | error halt =>
          rw [yRead] at ySafe
          cases ySafe
          simp [HoldsPoints, xRead, yRead, bind, Except.bind]
        | ok y =>
          obtain ⟨y, next⟩ := y
          rw [yRead] at ySafe
          have later := inductionHypothesis (index + 1) whole ySafe.2
          rw [show index + 1 + whole = index + (whole + 1) by omega] at later
          have held : HoldsPoints buf buf.length (whole + 1) pos ↔
              HoldsPoints buf buf.length whole next := by
            simp [HoldsPoints, xRead, yRead]
          rw [held, Nat.add_lt_add_iff_right, ← later]
          simp only [bind, Except.bind, yRead, if_neg (show ¬ index + (whole + 1) ≤ index by omega)]
          cases readEach (readPoint buf buf.length (index + (whole + 1))) left (index + 1) next <;>
            simp

theorem readPoints_outOfBounds_iff {pos : Nat} (inside : pos ≤ buf.length) :
    readPoints buf buf.length pos = .error .outOfBounds ↔ Overruns buf buf.length pos := by
  have safe := readMajor_safe (le_refl buf.length) (by omega) inside 4
  unfold readPoints
  cases header : readMajor buf buf.length pos 4 with
  | error halt =>
    rw [header] at safe
    cases safe
    simp [Overruns, header, bind, Except.bind]
  | ok result =>
    obtain ⟨count, start⟩ := result
    rw [header] at safe
    have loop := readEach_point_iff small count.toNat 0 (count.toNat % 2 ^ 60) safe.2
    rw [Nat.zero_add, ← slots_eq] at loop
    refine loop.trans ?_
    have bound := count.toNat_lt
    have wraps : count.toNat * 16 % 2 ^ 64 / 16 < count.toNat ↔ 2 ^ 60 ≤ count.toNat := by
      omega
    rw [wraps, slots_eq]
    simp [Overruns, header]

omit small in
/-- The record reader strays where the head of the record leads to points that overrun. -/
theorem strays_bind {First Second : Type} {size pos : Nat} {place : First → Nat}
    {first : Except Halt First} {rest : First → Except Halt Second}
    {head : First → Except Halt Nat} {bad : Nat → Prop}
    (safe : SafeRead size pos place first)
    (later : ∀ part, pos < place part → place part ≤ size →
      (rest part = .error .outOfBounds ↔ ∃ points, head part = .ok points ∧ bad points)) :
    first >>= rest = .error .outOfBounds ↔ ∃ points, first >>= head = .ok points ∧ bad points := by
  cases first with
  | error halt =>
    cases safe
    simp [bind, Except.bind]
  | ok part => exact later part safe.1 safe.2

theorem readUtility_outOfBounds_iff {pos : Nat} (inside : pos ≤ buf.length) :
    readUtility buf buf.length pos = .error .outOfBounds ↔
      ∃ points, utilityHead buf buf.length pos = .ok points ∧ Overruns buf buf.length points := by
  unfold readUtility utilityHead
  refine strays_bind (readMajor_safe (le_refl _) (by omega) inside 4) ?_
  rintro ⟨arity, start⟩ - (bound : start ≤ buf.length)
  simp only
  split_ifs
  · simp
  refine strays_bind (readTextDyn_safe small bound) ?_
  rintro ⟨id, idEnd⟩ - (bound : idEnd ≤ buf.length)
  refine strays_bind (readTextDyn_safe small bound) ?_
  rintro ⟨name, nameEnd⟩ - (bound : nameEnd ≤ buf.length)
  refine strays_bind (readTextDyn_safe small bound) ?_
  rintro ⟨dim, dimEnd⟩ - (bound : dimEnd ≤ buf.length)
  refine strays_bind (readNum_safe small dimEnd) ?_
  rintro ⟨xMin, xMinEnd⟩ - (bound : xMinEnd ≤ buf.length)
  refine strays_bind (readNum_safe small xMinEnd) ?_
  rintro ⟨xMax, xMaxEnd⟩ - (bound : xMaxEnd ≤ buf.length)
  have points := readPoints_outOfBounds_iff small bound
  simp only [Except.ok.injEq, exists_eq_left', ← points]
  cases readPoints buf buf.length xMaxEnd <;> simp [bind, Except.bind]

theorem readUtility_inside {pos : Nat} {given : FleeceGoapUtilityDef} {next : Nat}
    (found : readUtility buf buf.length pos = .ok (given, next)) : next ≤ buf.length := by
  unfold readUtility at found
  obtain ⟨⟨arity, start⟩, header, found⟩ := parts_of_bind found
  obtain ⟨⟨id, idEnd⟩, idRead, found⟩ := parts_of_bind (passed_guard found).2
  obtain ⟨⟨name, nameEnd⟩, nameRead, found⟩ := parts_of_bind found
  obtain ⟨⟨dim, dimEnd⟩, dimRead, found⟩ := parts_of_bind found
  obtain ⟨⟨xMin, xMinEnd⟩, xMinRead, found⟩ := parts_of_bind found
  obtain ⟨⟨xMax, xMaxEnd⟩, xMaxRead, found⟩ := parts_of_bind found
  obtain ⟨⟨points, last⟩, pointsRead, found⟩ := parts_of_bind found
  cases found
  obtain ⟨⟨count, pointsStart⟩, countRead, loop⟩ := parts_of_bind pointsRead
  have within := (forward_major small 4 xMaxEnd count pointsStart countRead).2
  exact (readEach_forward (forward_point small _) count.toNat 0 pointsStart loop).2.2 within

/-- What is handed on for an array: the elements that were parsed, and the count. -/
def handedOf (buf : List UInt8) (array : ArrayKind × Nat) : Option (Nat × Nat) :=
  (traceOf buf buf.length array).bind ArrayTrace.handed

theorem handedOf_texts {pos next : Nat} {texts : List CString}
    (found : readTexts buf buf.length pos = .ok (texts, next)) :
    handedOf buf (.texts, pos) = some (texts.length, texts.length) ∧ texts.length < 2 ^ 32 := by
  obtain ⟨⟨count, start⟩, header, loop⟩ := parts_of_bind found
  obtain ⟨fits, loop⟩ := passed_guard loop
  have same := readEach_count small (fun _ => forward_textDyn small)
    (forward_major small 4 pos count start header).2 loop
  refine ⟨?_, same ▸ Nat.mod_lt _ (by decide)⟩
  simp only [handedOf, traceOf, textsTrace, header, if_neg fits, found, Option.bind_some, same]

theorem handedOf_points {pos next : Nat} {points : List PlanPoint}
    (found : readPoints buf buf.length pos = .ok (points, next)) :
    handedOf buf (.points, pos) = some (points.length, points.length) ∧
      points.length < 2 ^ 32 := by
  obtain ⟨⟨count, start⟩, header, loop⟩ := parts_of_bind found
  have same := readEach_count small (forward_point small _)
    (forward_major small 4 pos count start header).2 loop
  refine ⟨?_, same ▸ Nat.mod_lt _ (by decide)⟩
  simp only [handedOf, traceOf, pointsTrace, header, found, Option.bind_some, same]

omit small in
theorem length_counted {Element : Type} {elements : List Element}
    (few : elements.length < 2 ^ 32) : (counted elements).length = elements.length := by
  rw [counted, List.length_take, Nat.mod_eq_of_lt few, min_self]

/-- A definition that was read carries the counts of the arrays of its record. -/
theorem readAction_handed {pos next : Nat} {given : FleeceGoapActionDef}
    (found : readAction buf buf.length pos = .ok (given, next)) :
    (actionArrays buf buf.length pos).map (handedOf buf) =
      [some (given.pre.length, given.pre.length), some (given.eff.length, given.eff.length)] := by
  obtain ⟨⟨arity, start⟩, header, found⟩ := parts_of_bind found
  obtain ⟨eight, found⟩ := passed_guard found
  obtain ⟨⟨id, idEnd⟩, idRead, found⟩ := parts_of_bind found
  obtain ⟨⟨name, nameEnd⟩, nameRead, found⟩ := parts_of_bind found
  obtain ⟨⟨cost, costEnd⟩, costRead, found⟩ := parts_of_bind found
  obtain ⟨⟨dest, destEnd⟩, destRead, found⟩ := parts_of_bind found
  obtain ⟨⟨dur, durEnd⟩, durRead, found⟩ := parts_of_bind found
  obtain ⟨⟨exec, execEnd⟩, execRead, found⟩ := parts_of_bind found
  obtain ⟨⟨pre, preEnd⟩, preRead, found⟩ := parts_of_bind found
  obtain ⟨⟨eff, effEnd⟩, effRead, found⟩ := parts_of_bind found
  cases found
  have head : actionHead buf buf.length pos = .ok execEnd := by
    simp only [actionHead, header, idRead, nameRead, costRead, destRead, durRead, execRead, bind,
      Except.bind, if_neg eight]
  obtain ⟨preHanded, preFew⟩ := handedOf_texts small preRead
  obtain ⟨effHanded, effFew⟩ := handedOf_texts small effRead
  simp only [actionArrays, head, preRead, List.map_cons, List.map_nil, preHanded, effHanded]
  rw [length_counted ((List.length_map _).trans_lt preFew),
    length_counted ((List.length_map _).trans_lt effFew), List.length_map, List.length_map]

theorem readUtility_handed {pos next : Nat} {given : FleeceGoapUtilityDef}
    (found : readUtility buf buf.length pos = .ok (given, next)) :
    (utilityArrays buf buf.length pos).map (handedOf buf) =
      [some (given.points.length, given.points.length)] := by
  obtain ⟨⟨arity, start⟩, header, found⟩ := parts_of_bind found
  obtain ⟨seven, found⟩ := passed_guard found
  obtain ⟨⟨id, idEnd⟩, idRead, found⟩ := parts_of_bind found
  obtain ⟨⟨name, nameEnd⟩, nameRead, found⟩ := parts_of_bind found
  obtain ⟨⟨dim, dimEnd⟩, dimRead, found⟩ := parts_of_bind found
  obtain ⟨⟨xMin, xMinEnd⟩, xMinRead, found⟩ := parts_of_bind found
  obtain ⟨⟨xMax, xMaxEnd⟩, xMaxRead, found⟩ := parts_of_bind found
  obtain ⟨⟨points, last⟩, pointsRead, found⟩ := parts_of_bind found
  cases found
  have head : utilityHead buf buf.length pos = .ok xMaxEnd := by
    simp only [utilityHead, header, idRead, nameRead, dimRead, xMinRead, xMaxRead, bind,
      Except.bind, if_neg seven]
  obtain ⟨handed, few⟩ := handedOf_points small pointsRead
  simp only [utilityArrays, head, List.map_cons, List.map_nil, handed]
  rw [length_counted few]

theorem readMission_handed {pos next : Nat} {given : FleeceGoapMissionDef}
    (found : readMission buf buf.length pos = .ok (given, next)) :
    (missionArrays buf buf.length pos).map (handedOf buf) =
      [some (given.goalIds.length, given.goalIds.length)] := by
  obtain ⟨⟨arity, start⟩, header, found⟩ := parts_of_bind found
  obtain ⟨four, found⟩ := passed_guard found
  obtain ⟨⟨id, idEnd⟩, idRead, found⟩ := parts_of_bind found
  obtain ⟨⟨name, nameEnd⟩, nameRead, found⟩ := parts_of_bind found
  obtain ⟨⟨goalIds, goalEnd⟩, goalRead, found⟩ := parts_of_bind found
  obtain ⟨⟨note, noteEnd⟩, noteRead, found⟩ := parts_of_bind found
  cases found
  have head : missionHead buf buf.length pos = .ok nameEnd := by
    simp only [missionHead, header, idRead, nameRead, bind, Except.bind, if_neg four]
  obtain ⟨handed, few⟩ := handedOf_texts small goalRead
  simp only [missionArrays, head, List.map_cons, List.map_nil, handed]
  rw [length_counted ((List.length_map _).trans_lt few), List.length_map]

theorem readAction_safe {pos : Nat} (inside : pos ≤ buf.length) :
    SafeRead buf.length pos Prod.snd (readAction buf buf.length pos) := by
  unfold readAction
  refine (readMajor_safe (le_refl _) (by omega) inside 4).chain ?_
  rintro ⟨arity, start⟩ (bound : start ≤ buf.length)
  refine .guard fun _ => (readTextDyn_safe small bound).chain ?_
  rintro ⟨id, idEnd⟩ (bound : idEnd ≤ buf.length)
  refine (readTextDyn_safe small bound).chain ?_
  rintro ⟨name, nameEnd⟩ (bound : nameEnd ≤ buf.length)
  refine (readTextDyn_safe small bound).chain ?_
  rintro ⟨cost, costEnd⟩ (bound : costEnd ≤ buf.length)
  refine (readTextDyn_safe small bound).chain ?_
  rintro ⟨dest, destEnd⟩ (bound : destEnd ≤ buf.length)
  refine (readNum_safe small destEnd).chain ?_
  rintro ⟨dur, durEnd⟩ (bound : durEnd ≤ buf.length)
  refine (readTextDyn_safe small bound).chain ?_
  rintro ⟨exec, execEnd⟩ (bound : execEnd ≤ buf.length)
  refine (readTexts_safe small bound).chain ?_
  rintro ⟨pre, preEnd⟩ (bound : preEnd ≤ buf.length)
  refine (readTexts_safe small bound).bind ?_
  rintro ⟨eff, effEnd⟩ (after : preEnd < effEnd) (bound : effEnd ≤ buf.length)
  exact ⟨after, bound⟩

theorem readGoal_safe {pos : Nat} (inside : pos ≤ buf.length) :
    SafeRead buf.length pos Prod.snd (readGoal buf buf.length pos) := by
  unfold readGoal
  refine (readMajor_safe (le_refl _) (by omega) inside 4).chain ?_
  rintro ⟨arity, start⟩ (bound : start ≤ buf.length)
  refine .guard fun _ => (readTextDyn_safe small bound).chain ?_
  rintro ⟨id, idEnd⟩ (bound : idEnd ≤ buf.length)
  refine (readTextDyn_safe small bound).chain ?_
  rintro ⟨name, nameEnd⟩ (bound : nameEnd ≤ buf.length)
  refine (readTextDyn_safe small bound).chain ?_
  rintro ⟨expr, exprEnd⟩ (bound : exprEnd ≤ buf.length)
  refine (readNum_safe small exprEnd).chain ?_
  rintro ⟨priority, priorityEnd⟩ (bound : priorityEnd ≤ buf.length)
  refine (readTextDyn_safe small bound).bind ?_
  rintro ⟨curveId, curveEnd⟩ (after : priorityEnd < curveEnd) (bound : curveEnd ≤ buf.length)
  exact ⟨after, bound⟩

theorem readMission_safe {pos : Nat} (inside : pos ≤ buf.length) :
    SafeRead buf.length pos Prod.snd (readMission buf buf.length pos) := by
  unfold readMission
  refine (readMajor_safe (le_refl _) (by omega) inside 4).chain ?_
  rintro ⟨arity, start⟩ (bound : start ≤ buf.length)
  refine .guard fun _ => (readTextDyn_safe small bound).chain ?_
  rintro ⟨id, idEnd⟩ (bound : idEnd ≤ buf.length)
  refine (readTextDyn_safe small bound).chain ?_
  rintro ⟨name, nameEnd⟩ (bound : nameEnd ≤ buf.length)
  refine (readTexts_safe small bound).chain ?_
  rintro ⟨goalIds, goalEnd⟩ (bound : goalEnd ≤ buf.length)
  refine (readTextDyn_safe small bound).bind ?_
  rintro ⟨note, noteEnd⟩ (after : goalEnd < noteEnd) (bound : noteEnd ≤ buf.length)
  exact ⟨after, bound⟩

end Records

namespace GoapTables

section Strays

variable {buf : List UInt8}

/-- The parse wrote or read outside. -/
def Parse.Strays (parse : Parse) : Prop := ∃ left, parse = some (left, .error .outOfBounds)

/-- Among the arrays there are points that overrun. -/
def Overrun (buf : List UInt8) (arrays : List (ArrayKind × Nat)) : Prop :=
  ∃ pos, (ArrayKind.points, pos) ∈ arrays ∧ Overruns buf buf.length pos

theorem overrun_nil : ¬ Overrun buf [] := fun ⟨_, member, _⟩ => absurd member List.not_mem_nil

theorem overrun_append {first second : List (ArrayKind × Nat)} :
    Overrun buf (first ++ second) ↔ Overrun buf first ∨ Overrun buf second := by
  simp only [Overrun, List.mem_append, or_and_right, exists_or]

theorem strays_andThen {first : Parse} {next : GoapTables → Nat → Parse} :
    (first.andThen next).Strays ↔
      first.Strays ∨ ∃ tables pos, first = some (tables, .ok pos) ∧ (next tables pos).Strays := by
  unfold Parse.Strays
  rcases first with _ | ⟨tables, _ | pos⟩ <;> simp [Parse.andThen]

theorem overrun_afterTable {parse : Parse} {next : GoapTables → Nat → List (ArrayKind × Nat)} :
    Overrun buf (afterTable parse next) ↔
      ∃ tables pos, parse = some (tables, .ok pos) ∧ Overrun buf (next tables pos) := by
  rcases parse with _ | ⟨tables, _ | pos⟩ <;> simp [afterTable, overrun_nil]

/-- A record reader strays exactly where its arrays do, and stays inside when it succeeds. -/
structure Follows {Def : Type} (buf : List UInt8) (read : Nat → Except Halt (Def × Nat))
    (arrays : Nat → List (ArrayKind × Nat)) : Prop where
  strays : ∀ pos, pos ≤ buf.length →
    (read pos = .error .outOfBounds ↔ Overrun buf (arrays pos))
  inside : ∀ pos given next, pos ≤ buf.length → read pos = .ok (given, next) → next ≤ buf.length

theorem Follows.of_safe {Def : Type} {read : Nat → Except Halt (Def × Nat)}
    {arrays : Nat → List (ArrayKind × Nat)}
    (safe : ∀ pos, pos ≤ buf.length → SafeRead buf.length pos Prod.snd (read pos))
    (texts : ∀ pos points, (ArrayKind.points, points) ∉ arrays pos) : Follows buf read arrays where
  strays pos inside := by
    refine iff_of_false (fun outside => ?_) fun ⟨points, member, _⟩ => texts pos points member
    have safe := safe pos inside
    rw [outside] at safe
    cases safe
  inside pos given next inside found := (safe pos inside).bound found

variable {Def : Type} {read : Nat → Except Halt (Def × Nat)}
  {arrays : Nat → List (ArrayKind × Nat)} (add : GoapTables → Def → Option (GoapTables × Int))

theorem Follows.records (follows : Follows buf read arrays) (left : Nat) (tables : GoapTables)
    {pos : Nat} (inside : pos ≤ buf.length) :
    ((readRecords read add left tables pos).Strays ↔
        Overrun buf (recordArrays arrays read add left tables pos)) ∧
      ∀ tables' pos', readRecords read add left tables pos = some (tables', .ok pos') →
        pos' ≤ buf.length := by
  induction left generalizing tables pos with
  | zero =>
    refine ⟨iff_of_false ?_ overrun_nil, ?_⟩
    · rintro ⟨stopped, found⟩
      cases found
    · rintro tables' pos' found
      cases found
      exact inside
  | succ left inductionHypothesis =>
    have strays := follows.strays pos inside
    rw [readRecords, recordArrays, overrun_append, ← strays]
    cases found : read pos with
    | error halt => simp [Parse.Strays, overrun_nil]
    | ok result =>
      obtain ⟨given, next⟩ := result
      have within := follows.inside pos given next inside found
      cases added : add tables given with
      | none => simp [added, Parse.Strays, overrun_nil]
      | some result =>
        obtain ⟨after, code⟩ := result
        by_cases registered : code = 0
        · simpa [added, registered] using inductionHypothesis after within
        · simp [added, registered, Parse.Strays, overrun_nil]

theorem Follows.table (follows : Follows buf read arrays) (small : buf.length < 2 ^ 32)
    (tables : GoapTables) {pos : Nat} (inside : pos ≤ buf.length) :
    ((readTable buf buf.length read add tables pos).Strays ↔
        Overrun buf (tableArrays buf buf.length arrays read add tables pos)) ∧
      ∀ tables' pos', readTable buf buf.length read add tables pos = some (tables', .ok pos') →
        pos' ≤ buf.length := by
  have safe := readMajor_safe (le_refl buf.length) (by omega) inside 4
  unfold readTable tableArrays
  cases header : readMajor buf buf.length pos 4 with
  | error halt =>
    rw [header] at safe
    cases safe
    simp [Parse.Strays, overrun_nil]
  | ok result =>
    rw [header] at safe
    exact follows.records add result.1.toNat tables safe.2

end Strays

section Follow

variable {buf : List UInt8} (small : buf.length < 2 ^ 32)
include small

theorem follows_action : Follows buf (readAction buf buf.length) (actionArrays buf buf.length) := by
  refine .of_safe (fun pos inside => readAction_safe small inside) fun pos points member => ?_
  unfold actionArrays at member
  split at member
  · cases member
  · split at member <;> simp at member

theorem follows_goal : Follows buf (readGoal buf buf.length) fun _ => [] :=
  .of_safe (fun _ inside => readGoal_safe small inside) fun _ _ => List.not_mem_nil

theorem follows_utility :
    Follows buf (readUtility buf buf.length) (utilityArrays buf buf.length) where
  strays pos inside := by
    rw [readUtility_outOfBounds_iff small inside, Overrun, utilityArrays]
    cases utilityHead buf buf.length pos <;> simp
  inside pos given next _ found := readUtility_inside small found

theorem follows_mission :
    Follows buf (readMission buf buf.length) (missionArrays buf buf.length) := by
  refine .of_safe (fun pos inside => readMission_safe small inside) fun pos points member => ?_
  unfold missionArrays at member
  split at member <;> simp at member

end Follow

theorem tableArrays_nil {Def : Type} (buf : List UInt8) (size : Nat)
    (read : Nat → Except Halt (Def × Nat)) (add : GoapTables → Def → Option (GoapTables × Int))
    (tables : GoapTables) (pos : Nat) :
    tableArrays buf size (fun _ => []) read add tables pos = [] := by
  have records (left : Nat) (tables : GoapTables) (pos : Nat) :
      recordArrays (fun _ => []) read add left tables pos = [] := by
    induction left generalizing tables pos with
    | zero => rfl
    | succ left inductionHypothesis =>
      rw [recordArrays, List.nil_append]
      split
      · rfl
      · split
        · rfl
        · split_ifs
          · exact inductionHypothesis _ _
          · rfl
  unfold tableArrays
  split
  · rfl
  · exact records _ _ _

theorem readTables_strays_iff {buf : List UInt8} (small : buf.length < 2 ^ 32) {pos : Nat}
    (inside : pos ≤ buf.length) :
    (readTables buf buf.length pos).Strays ↔ Overrun buf (bodyArrays buf buf.length pos) := by
  have safe : SafeRead buf.length pos Prod.snd (readText buf buf.length pos) := by
    unfold readText
    refine (readMajor_safe (le_refl _) (by omega) inside 3).bind ?_
    rintro ⟨len, start⟩ (after : pos < start) -
    refine .guard fun fits => ?_
    have room : start + len.toNat ≤ buf.length := boundsOk_iff.mp (by simpa using fits)
    rw [slice_of_le (le_refl buf.length)
      ((Nat.add_le_add_left (min_le_left _ _) _).trans room)]
    exact ⟨after.trans_le (Nat.le_add_right _ _), room⟩
  unfold readTables bodyArrays
  cases nameRead : readText buf buf.length pos with
  | error halt =>
    rw [nameRead] at safe
    cases safe
    simp [Parse.Strays, overrun_nil]
  | ok result =>
    obtain ⟨name, start⟩ := result
    rw [nameRead] at safe
    obtain ⟨actions, actionsIn⟩ :=
      (follows_action small).table addAction small (named name) safe.2
    simp only [strays_andThen, overrun_append, overrun_afterTable]
    refine or_congr actions (exists₂_congr fun afterActions goalsAt =>
      and_congr_right fun done => ?_)
    obtain ⟨goals, goalsIn⟩ :=
      (follows_goal small).table addGoal small afterActions (actionsIn _ _ done)
    rw [tableArrays_nil] at goals
    rw [or_iff_right (goals.not.mpr overrun_nil)]
    refine exists₂_congr fun afterGoals utilitiesAt => and_congr_right fun done => ?_
    obtain ⟨utilities, utilitiesIn⟩ :=
      (follows_utility small).table addUtility small afterGoals (goalsIn _ _ done)
    refine or_congr utilities (exists₂_congr fun afterUtilities missionsAt =>
      and_congr_right fun done => ?_)
    exact ((follows_mission small).table addMission small afterUtilities
      (utilitiesIn _ _ done)).1

theorem readPrefix_safe {buf : List UInt8} (small : buf.length < 2 ^ 32) :
    SafeRead buf.length 3 id (readPrefix buf buf.length) := by
  unfold readPrefix
  refine .guard fun short => ?_
  have inside : 3 ≤ buf.length := not_lt.mp short
  rw [slice_of_le (le_refl buf.length) (show 0 + 3 ≤ buf.length from inside)]
  refine .guard fun _ => (readMajor_safe (le_refl _) (by omega) inside 4).bind ?_
  rintro ⟨arity, start⟩ after bound
  exact .guard fun _ => ⟨after, bound⟩

/-- A deserialization goes outside exactly where the points of a curve overrun their allocation. -/
theorem deserialize_outOfBounds_iff (tables : GoapTables) (blob : Blob) :
    (∃ left, tables.deserialize blob = some (left, .error .outOfBounds)) ↔
      Overrun blob.bytes (arraysOf blob) := by
  have small : blob.bytes.length < 2 ^ 32 := blob.sizeLt
  have safe := readPrefix_safe small
  unfold deserialize arraysOf
  rw [show blob.size = blob.bytes.length from rfl]
  cases found : readPrefix blob.bytes blob.bytes.length with
  | error halt =>
    rw [found] at safe
    cases safe
    simp [overrun_nil]
  | ok pos =>
    rw [found] at safe
    refine Iff.trans ?_ (readTables_strays_iff small safe.2)
    unfold Parse.Strays
    rcases stopped : readTables blob.bytes blob.bytes.length pos with _ | ⟨after, _ | stop⟩ <;>
      simp [stopped, Except.map]

/-- The arrays that a deserialization comes to stay inside their allocations, with the counts that
were parsed, unless a curve announces 2^60 points or more and the blob holds enough of them: in a
run that a refused allocation ends after `reached` arrays, or in a whole one. -/
theorem deserialize_inside_iff (blob : Blob) (reached : Nat) :
    (∀ array ∈ (arraysOf blob).take reached,
      ∀ trace ∈ traceOf blob.bytes blob.size array, trace.StaysInside) ↔
      ∀ pos, (ArrayKind.points, pos) ∈ (arraysOf blob).take reached →
        ¬ Overruns blob.bytes blob.size pos := by
  have small : blob.bytes.length < 2 ^ 32 := blob.sizeLt
  constructor
  · intro stays pos member overruns
    obtain ⟨count, start, header, many, held⟩ := overruns
    have traced : ∃ trace, pointsTrace blob.bytes blob.bytes.length pos = some trace := by
      rw [pointsTrace, show readMajor blob.bytes blob.bytes.length pos 4 = _ from header]
      exact ⟨_, rfl⟩
    obtain ⟨trace, traced⟩ := traced
    exact (pointsTrace_staysInside_iff small traced).mp (stays _ member trace traced)
      ⟨count, start, header, many, held⟩
  · rintro fits ⟨kind, pos⟩ member trace traced
    cases kind with
    | texts => exact textsTrace_staysInside small traced
    | points => exact (pointsTrace_staysInside_iff small traced).mpr (fits pos member)

/-- One utility whose curve announces 2^60 + 1 points. Two follow. -/
def longCurve : Blob where
  bytes := planMagic ++ [0x85, 0x60, 0x80, 0x80, 0x81, 0x87, 0x60, 0x60, 0x60, 0, 0] ++
    [0x9B, 0x10, 0, 0, 0, 0, 0, 0, 1] ++ [0x82, 0, 0] ++ [0x82, 0, 0]
  sizeLt := by decide

/-- The allocation holds one point, and the second is written too. -/
theorem long_curve_overruns :
    ¬ ∀ array ∈ arraysOf longCurve,
      ∀ trace ∈ traceOf longCurve.bytes longCurve.size array, trace.StaysInside := by
  intro stays
  have reached : (ArrayKind.points, 14) ∈ arraysOf longCurve := by decide +kernel
  have traced : traceOf longCurve.bytes longCurve.size (.points, 14) =
      some ⟨1, [0, 0, 1, 1], none⟩ := by decide +kernel
  have inside := (stays _ reached _ traced).1 1 (by decide)
  exact absurd inside (by decide)

end GoapTables

end Fleece
