/-
This file treats a fixed array of labelled slots as a partial map. A slot carries
a label or is free, a lookup scans for the first slot with a label, and the array
stands for the map from labels to slots as long as no two slots share a label.

Overwriting one slot is then an update of the map at one label, whichever way the
slot was found: the label's own slot, or one that carried no label a reader still
needs. The in-place filter moves the slots it keeps to the front and blanks the
places they came from; it does not touch a slot it drops, so a dropped slot that
nothing was moved onto is still there afterwards.
-/

import Mathlib

namespace Fleece.Slots

variable {Slot Label : Type} [DecidableEq Label] {size : Nat} (label : Slot → Option Label)

/-- The first slot with the label. -/
def find (slots : Fin size → Slot) (wanted : Label) : Option (Fin size) :=
  Fin.find? fun i => decide (label (slots i) = some wanted)

/-- The slot with the label. -/
def lookup (slots : Fin size → Slot) (wanted : Label) : Option Slot :=
  (find label slots wanted).map slots

/-- No two slots share a label. -/
def Distinct (slots : Fin size → Slot) : Prop :=
  ∀ i j wanted, label (slots i) = some wanted → label (slots j) = some wanted → i = j

variable {label} {slots : Fin size → Slot}

/-! ### Finding a slot -/

theorem label_of_find {wanted : Label} {i : Fin size} (found : find label slots wanted = some i) :
    label (slots i) = some wanted := by
  have matched := Fin.eq_true_of_find?_eq_some found
  exact of_decide_eq_true matched

theorem find_eq_none_iff {wanted : Label} :
    find label slots wanted = none ↔ ∀ i, label (slots i) ≠ some wanted := by
  rw [find, Fin.find?_eq_none_iff]
  exact forall_congr' fun i => decide_eq_false_iff_not

theorem find_isSome_of_label {wanted : Label} {i : Fin size}
    (labelled : label (slots i) = some wanted) : (find label slots wanted).isSome := by
  by_contra absent
  exact find_eq_none_iff.mp (Option.not_isSome_iff_eq_none.mp absent) i labelled

/-- With distinct labels the slot found is the one with the label. -/
theorem find_eq_some_iff (distinct : Distinct label slots) {wanted : Label} {i : Fin size} :
    find label slots wanted = some i ↔ label (slots i) = some wanted := by
  refine ⟨label_of_find, fun labelled => ?_⟩
  obtain ⟨j, found⟩ := Option.isSome_iff_exists.mp (find_isSome_of_label labelled)
  rw [found, distinct i j wanted labelled (label_of_find found)]

/-! ### The map an array stands for -/

theorem lookup_eq_none_iff {wanted : Label} :
    lookup label slots wanted = none ↔ ∀ i, label (slots i) ≠ some wanted := by
  rw [lookup, Option.map_eq_none_iff, find_eq_none_iff]

theorem exists_of_lookup {wanted : Label} {slot : Slot}
    (found : lookup label slots wanted = some slot) :
    ∃ i, slots i = slot ∧ label slot = some wanted := by
  obtain ⟨i, index, rfl⟩ := Option.map_eq_some_iff.mp found
  exact ⟨i, rfl, label_of_find index⟩

theorem lookup_eq_of_label (distinct : Distinct label slots) {wanted : Label} {i : Fin size}
    (labelled : label (slots i) = some wanted) : lookup label slots wanted = some (slots i) := by
  rw [lookup, (find_eq_some_iff distinct).mpr labelled, Option.map_some]

theorem lookup_eq_some_iff (distinct : Distinct label slots) {wanted : Label} {slot : Slot} :
    lookup label slots wanted = some slot ↔ ∃ i, slots i = slot ∧ label slot = some wanted := by
  refine ⟨exists_of_lookup, ?_⟩
  rintro ⟨i, rfl, labelled⟩
  exact lookup_eq_of_label distinct labelled

/-- Two arrays with distinct labels that hold the same slots under a label agree there. -/
theorem lookup_congr {other : Fin size → Slot} (distinct : Distinct label slots)
    (distinctOther : Distinct label other) {wanted : Label}
    (same : ∀ slot, label slot = some wanted → ((∃ i, slots i = slot) ↔ ∃ i, other i = slot)) :
    lookup label slots wanted = lookup label other wanted := by
  refine Option.ext fun slot => ?_
  rw [lookup_eq_some_iff distinct, lookup_eq_some_iff distinctOther]
  constructor
  · rintro ⟨i, held, labelled⟩
    obtain ⟨j, found⟩ := (same slot labelled).mp ⟨i, held⟩
    exact ⟨j, found, labelled⟩
  · rintro ⟨j, held, labelled⟩
    obtain ⟨i, found⟩ := (same slot labelled).mpr ⟨j, held⟩
    exact ⟨i, found, labelled⟩

/-! ### Overwriting one slot -/

omit [DecidableEq Label] in
/-- Overwriting a slot keeps labels distinct when its new label is new or its own. -/
theorem distinct_update (distinct : Distinct label slots) (i : Fin size) {slot : Slot}
    (own : ∀ j wanted, label slot = some wanted → label (slots j) = some wanted → j = i) :
    Distinct label (Function.update slots i slot) := by
  have at_i : ∀ j wanted, label (Function.update slots i slot j) = some wanted →
      (j = i ∧ label slot = some wanted) ∨ (j ≠ i ∧ label (slots j) = some wanted) := by
    intro j wanted labelled
    rcases eq_or_ne j i with rfl | other
    · rw [Function.update_self] at labelled
      exact Or.inl ⟨rfl, labelled⟩
    · rw [Function.update_of_ne other] at labelled
      exact Or.inr ⟨other, labelled⟩
  intro first second wanted firstLabel secondLabel
  rcases at_i first wanted firstLabel with ⟨rfl, new⟩ | ⟨firstOther, old⟩
  · rcases at_i second wanted secondLabel with ⟨rfl, _⟩ | ⟨_, kept⟩
    · rfl
    · exact (own second wanted new kept).symm
  · rcases at_i second wanted secondLabel with ⟨rfl, new⟩ | ⟨_, kept⟩
    · exact own first wanted new old
    · exact distinct first second wanted old kept

theorem lookup_update_self {i : Fin size} {slot : Slot} {wanted : Label}
    (distinct : Distinct label (Function.update slots i slot))
    (labelled : label slot = some wanted) :
    lookup label (Function.update slots i slot) wanted = some slot := by
  refine (lookup_eq_some_iff distinct).mpr ⟨i, ?_, labelled⟩
  rw [Function.update_self]

/-- A label that neither the old nor the new slot carries is looked up as before. -/
theorem lookup_update_of_ne (i : Fin size) {slot : Slot} {wanted : Label}
    (oldOther : label (slots i) ≠ some wanted) (newOther : label slot ≠ some wanted) :
    lookup label (Function.update slots i slot) wanted = lookup label slots wanted := by
  have same : ∀ j, decide (label (Function.update slots i slot j) = some wanted) =
      decide (label (slots j) = some wanted) := by
    intro j
    by_cases equal : j = i
    · subst equal
      rw [Function.update_self, decide_eq_false oldOther, decide_eq_false newOther]
    · rw [Function.update_of_ne equal]
  have index : find label (Function.update slots i slot) wanted = find label slots wanted := by
    unfold find
    exact congrArg Fin.find? (funext same)
  rw [lookup, lookup, index]
  cases found : find label slots wanted with
  | none => rfl
  | some j =>
    have different : j ≠ i := by
      rintro rfl
      exact oldOther (label_of_find found)
    rw [Option.map_some, Option.map_some, Function.update_of_ne different]

/-- Overwriting the slot that a lookup finds, under the same label. -/
theorem lookup_update_found {i : Fin size} {slot : Slot} {wanted : Label}
    (found : find label slots wanted = some i) (labelled : label slot = some wanted) :
    lookup label (Function.update slots i slot) wanted = some slot := by
  have same : ∀ j, decide (label (Function.update slots i slot j) = some wanted) =
      decide (label (slots j) = some wanted) := by
    intro j
    rcases eq_or_ne j i with rfl | other
    · rw [Function.update_self, labelled, label_of_find found]
    · rw [Function.update_of_ne other]
  have index : find label (Function.update slots i slot) wanted = some i := by
    rw [← found]
    unfold find
    exact congrArg Fin.find? (funext same)
  rw [lookup, index, Option.map_some, Function.update_self]

/-- A slot with a label that no slot had. -/
theorem lookup_update_absent {i : Fin size} {slot : Slot} {wanted : Label}
    (absent : lookup label slots wanted = none) (labelled : label slot = some wanted) :
    lookup label (Function.update slots i slot) wanted = some slot := by
  obtain ⟨j, found⟩ := Option.isSome_iff_exists.mp (find_isSome_of_label
    (show label (Function.update slots i slot i) = some wanted by rwa [Function.update_self]))
  have here : j = i := by
    by_contra other
    have labelledOld := label_of_find found
    rw [Function.update_of_ne other] at labelledOld
    exact lookup_eq_none_iff.mp absent j labelledOld
  rw [lookup, found, Option.map_some, here, Function.update_self]

theorem ofFn_update (slots : Fin size → Slot) (i : Fin size) (slot : Slot) :
    List.ofFn (Function.update slots i slot) = (List.ofFn slots).set i.val slot := by
  refine List.ext_getElem (by simp) fun j bound _ => ?_
  rw [List.getElem_ofFn, List.getElem_set, List.getElem_ofFn, Function.update_apply]
  exact if_congr (by rw [Fin.ext_iff, eq_comm]) rfl rfl

/-- Overwriting a slot changes a count by what it was and what it becomes. -/
theorem countP_update (slots : Fin size → Slot) (i : Fin size) (slot : Slot) (keep : Slot → Bool) :
    (List.ofFn (Function.update slots i slot)).countP keep + (if keep (slots i) then 1 else 0) =
      (List.ofFn slots).countP keep + if keep slot then 1 else 0 := by
  have bound : i.val < (List.ofFn slots).length := by
    rw [List.length_ofFn]
    exact i.isLt
  have counted : (if keep (slots i) then 1 else 0) ≤ (List.ofFn slots).countP keep := by
    split_ifs with kept
    · exact List.countP_pos_iff.mpr ⟨slots i, List.mem_ofFn.mpr ⟨i, rfl⟩, kept⟩
    · exact Nat.zero_le _
  rw [ofFn_update, List.countP_set bound, List.getElem_ofFn, Fin.eta, Nat.add_right_comm,
    Nat.sub_add_cancel counted]

/-! ### The array as a finite map -/

section Entries

variable {Value : Type} (label) (value : Slot → Value)

/-- A labelled slot as an entry of a map: its label and what is read from it. -/
def entry (slot : Slot) : Option (Sigma fun _ : Label => Value) :=
  (label slot).map fun wanted => ⟨wanted, value slot⟩

/-- The labelled slots, in order. -/
def entries (slots : Fin size → Slot) : List (Sigma fun _ : Label => Value) :=
  (List.ofFn slots).filterMap (entry label value)

variable {label value}

omit [DecidableEq Label] in
theorem entry_eq_some_iff {slot : Slot} {wanted : Label} {content : Value} :
    entry label value slot = some ⟨wanted, content⟩ ↔
      label slot = some wanted ∧ value slot = content := by
  unfold entry
  rw [Option.map_eq_some_iff]
  constructor
  · rintro ⟨found, labelled, same⟩
    cases same
    exact ⟨labelled, rfl⟩
  · rintro ⟨labelled, rfl⟩
    exact ⟨wanted, labelled, rfl⟩

omit [DecidableEq Label] in
theorem mem_entries {wanted : Label} {content : Value} :
    ⟨wanted, content⟩ ∈ entries label value slots ↔
      ∃ i, label (slots i) = some wanted ∧ value (slots i) = content := by
  unfold entries
  rw [List.mem_filterMap]
  constructor
  · rintro ⟨slot, member, read⟩
    obtain ⟨i, rfl⟩ := List.mem_ofFn.mp member
    exact ⟨i, entry_eq_some_iff.mp read⟩
  · rintro ⟨i, read⟩
    exact ⟨slots i, List.mem_ofFn.mpr ⟨i, rfl⟩, entry_eq_some_iff.mpr read⟩

omit [DecidableEq Label] in
/-- With distinct labels no two entries share theirs. -/
theorem nodupKeys_entries (distinct : Distinct label slots) :
    (entries label value slots).NodupKeys := by
  have keys : (entries label value slots).keys = (List.finRange size).filterMap fun i =>
      label (slots i) := by
    unfold entries List.keys
    rw [List.ofFn_eq_map, List.filterMap_map, List.map_filterMap]
    refine congrArg (List.filterMap · _) (funext fun i => ?_)
    show (Option.map _ (label (slots i))).map Sigma.fst = label (slots i)
    rw [Option.map_map]
    exact Option.map_id'
  show (entries label value slots).keys.Nodup
  rw [keys]
  exact (List.nodup_finRange size).filterMap fun i j wanted first second =>
    distinct i j wanted first second

/-- The finite map an array stands for. -/
def toFinmap (value : Slot → Value) (distinct : Distinct label slots) :
    Finmap fun _ : Label => Value :=
  ⟨↑(entries label value slots), Multiset.coe_nodupKeys.mpr (nodupKeys_entries distinct)⟩

theorem lookup_toFinmap (distinct : Distinct label slots) (wanted : Label) :
    (toFinmap value distinct).lookup wanted = (lookup label slots wanted).map value := by
  refine Option.ext fun content => ?_
  rw [Finmap.lookup_eq_some_iff, toFinmap, Multiset.mem_coe, mem_entries]
  constructor
  · rintro ⟨i, labelled, rfl⟩
    rw [lookup_eq_of_label distinct labelled]
    rfl
  · intro found
    obtain ⟨slot, held, rfl⟩ := Option.map_eq_some_iff.mp found
    obtain ⟨i, rfl, labelled⟩ := exists_of_lookup held
    exact ⟨i, labelled, rfl⟩

/-- A finite map that agrees with the array on every label has the array's entries. -/
theorem entries_eq_of_lookup (distinct : Distinct label slots) {map : Finmap fun _ : Label => Value}
    (same : ∀ wanted, map.lookup wanted = (lookup label slots wanted).map value) :
    map.entries = ↑(entries label value slots) := by
  have agreed : map = toFinmap value distinct :=
    Finmap.ext_lookup fun wanted => (same wanted).trans (lookup_toFinmap distinct wanted).symm
  rw [agreed]
  rfl

omit [DecidableEq Label] in
/-- A listing of some of the labelled slots is a listing of entries. -/
theorem map_filter_eq {Result : Type} {keep : Slot → Bool} {read : Slot → Result}
    (keepEntry : Label → Value → Bool) (readEntry : Label → Value → Result)
    (unlabelled : ∀ slot, label slot = none → keep slot = false)
    (kept : ∀ slot wanted, label slot = some wanted → keep slot = keepEntry wanted (value slot))
    (reads : ∀ slot wanted, label slot = some wanted →
      read slot = readEntry wanted (value slot)) :
    ((List.ofFn slots).filter keep).map read =
      ((entries label value slots).filter fun found => keepEntry found.1 found.2).map
        fun found => readEntry found.1 found.2 := by
  unfold entries
  induction List.ofFn slots with
  | nil => rfl
  | cons slot rest inductionHypothesis =>
    rw [List.filterMap_cons, List.filter_cons]
    cases labelled : label slot with
    | none =>
      rw [unlabelled slot labelled, if_neg Bool.false_ne_true, inductionHypothesis, entry, labelled]
      rfl
    | some wanted =>
      rw [entry, labelled, Option.map_some, kept slot wanted labelled]
      simp only
      rw [List.filter_cons]
      split_ifs
      · rw [List.map_cons, List.map_cons, inductionHypothesis, reads slot wanted labelled]
      · exact inductionHypothesis

end Entries

/-! ### The in-place filter -/

section Retain

variable (keep : Slot → Bool) (blank : Slot)

/-- One turn of the filter loop, on the array and the write index. The write index never passes
the read index, so `write != read` is `write < read`. -/
def retainStep (state : (Fin size → Slot) × Nat) (read : Fin size) : (Fin size → Slot) × Nat :=
  if keep (state.1 read) then
    if behind : state.2 < read.val then
      (Function.update
        (Function.update state.1 ⟨state.2, behind.trans read.isLt⟩ (state.1 read)) read blank,
        state.2 + 1)
    else (state.1, state.2 + 1)
  else state

/-- The filter loop over the whole array: the array it leaves and the final write index. -/
@[irreducible] def retain (slots : Fin size → Slot) : (Fin size → Slot) × Nat :=
  (List.finRange size).foldl (retainStep keep blank) (slots, 0)

/-- The filter after `read` turns: the kept slots so far are at the front, in order, the slots
between the two indices are as they were or blank, and the rest is untouched. -/
structure Retaining (slots : Fin size → Slot) (read : Nat)
    (state : (Fin size → Slot) × Nat) : Prop where
  write_le : state.2 ≤ read
  length : (((List.ofFn slots).take read).filter keep).length = state.2
  front : ∀ j : Fin size, j.val < state.2 →
    (((List.ofFn slots).take read).filter keep)[j.val]? = some (state.1 j)
  middle : ∀ j : Fin size, state.2 ≤ j.val → j.val < read →
    state.1 j = if keep (slots j) then blank else slots j
  rest : ∀ j : Fin size, read ≤ j.val → state.1 j = slots j

variable {keep blank}

theorem Retaining.step {slots : Fin size → Slot} {state : (Fin size → Slot) × Nat}
    {read : Fin size} (retaining : Retaining keep blank slots read.val state) :
    Retaining keep blank slots (read.val + 1) (retainStep keep blank state read) := by
  obtain ⟨writeLe, length, front, middle, rest⟩ := retaining
  have current : state.1 read = slots read := rest read le_rfl
  have taken : (List.ofFn slots).take (read.val + 1) =
      (List.ofFn slots).take read.val ++ [slots read] := by
    rw [List.take_add_one, List.getElem?_ofFn, dif_pos read.isLt]
    rfl
  unfold retainStep
  rw [current]
  by_cases kept : keep (slots read) = true
  · have filtered : ((List.ofFn slots).take (read.val + 1)).filter keep =
        ((List.ofFn slots).take read.val).filter keep ++ [slots read] := by
      rw [taken, List.filter_append, List.filter_cons_of_pos kept, List.filter_nil]
    rw [if_pos kept]
    by_cases behind : state.2 < read.val
    · rw [dif_pos behind]
      refine ⟨by simp only; omega, by rw [filtered, List.length_append, length]; rfl, ?_, ?_, ?_⟩
      · intro j before
        simp only at before ⊢
        have notRead : j ≠ read := fun same => by subst same; omega
        rw [filtered, Function.update_of_ne notRead]
        rcases Nat.lt_or_eq_of_le (Nat.lt_succ_iff.mp before) with earlier | last
        · rw [List.getElem?_append_left (by omega), front j earlier, Function.update_of_ne]
          exact fun same => by subst same; exact lt_irrefl _ earlier
        · have here : j = ⟨state.2, behind.trans read.isLt⟩ := Fin.ext last
          rw [List.getElem?_append_right (by omega), length, last, Nat.sub_self, here,
            Function.update_self]
          rfl
      · intro j after before
        simp only at after before ⊢
        rcases eq_or_ne j read with rfl | notRead
        · rw [Function.update_self, if_pos kept]
        · rw [Function.update_of_ne notRead, Function.update_of_ne (fun same => by
            subst same; simp only at after; omega)]
          exact middle j (by omega) (by have := Fin.val_ne_of_ne notRead; omega)
      · intro j after
        simp only
        rw [Function.update_of_ne (fun same => by subst same; omega),
          Function.update_of_ne (fun same => by subst same; simp only at after; omega)]
        exact rest j (by omega)
    · have together : state.2 = read.val := le_antisymm writeLe (not_lt.mp behind)
      rw [dif_neg behind]
      refine ⟨by simp only; omega, by rw [filtered, List.length_append, length]; rfl, ?_, ?_, ?_⟩
      · intro j before
        rw [filtered]
        rcases Nat.lt_or_eq_of_le (Nat.lt_succ_iff.mp before) with earlier | last
        · rw [List.getElem?_append_left (by omega), front j earlier]
        · have here : j = read := Fin.ext (last.trans together)
          rw [List.getElem?_append_right (by omega), length, last, Nat.sub_self, here, current]
          rfl
      · intro j after before
        simp only at after before
        omega
      · intro j after
        exact rest j (by omega)
  · have filtered : ((List.ofFn slots).take (read.val + 1)).filter keep =
        ((List.ofFn slots).take read.val).filter keep := by
      rw [taken, List.filter_append, List.filter_cons_of_neg kept, List.filter_nil,
        List.append_nil]
    rw [if_neg kept]
    refine ⟨by omega, by rw [filtered, length], ?_, ?_, ?_⟩
    · intro j before
      rw [filtered, front j before]
    · intro j after before
      rcases eq_or_ne j read with rfl | notRead
      · rw [current, if_neg kept]
      · exact middle j after (by have := Fin.val_ne_of_ne notRead; omega)
    · intro j after
      exact rest j (by omega)

variable (keep blank)

theorem retaining_retain (slots : Fin size → Slot) :
    Retaining keep blank slots size (retain keep blank slots) := by
  have turns : ∀ count ≤ size, Retaining keep blank slots count
      (((List.finRange size).take count).foldl (retainStep keep blank) (slots, 0)) := by
    intro count
    induction count with
    | zero =>
      intro _
      refine ⟨le_rfl, rfl, ?_, ?_, fun _ _ => rfl⟩
      · intro j before
        exact absurd before (Nat.not_lt_zero _)
      · intro j _ before
        exact absurd before (Nat.not_lt_zero _)
    | succ count inductionHypothesis =>
      intro inside
      have next : (List.finRange size).take (count + 1) =
          (List.finRange size).take count ++ [⟨count, inside⟩] := by
        rw [List.take_add_one, List.getElem?_eq_getElem (by rw [List.length_finRange]; exact inside),
          List.getElem_finRange]
        rfl
      rw [next, List.foldl_append]
      have before : Retaining keep blank slots (⟨count, inside⟩ : Fin size).val _ :=
        inductionHypothesis (by omega)
      exact before.step
  have whole := turns size le_rfl
  unfold retain
  rwa [List.take_of_length_le (by rw [List.length_finRange])] at whole

theorem write_retain_le (slots : Fin size → Slot) : (retain keep blank slots).2 ≤ size :=
  (retaining_retain keep blank slots).write_le

theorem length_filter_eq_write (slots : Fin size → Slot) :
    ((List.ofFn slots).filter keep).length = (retain keep blank slots).2 := by
  have length := (retaining_retain keep blank slots).length
  rwa [List.take_of_length_le (by rw [List.length_ofFn])] at length

theorem getElem?_filter_eq_retain (slots : Fin size → Slot) {j : Fin size}
    (before : j.val < (retain keep blank slots).2) :
    ((List.ofFn slots).filter keep)[j.val]? = some ((retain keep blank slots).1 j) := by
  have front := (retaining_retain keep blank slots).front j before
  rwa [List.take_of_length_le (by rw [List.length_ofFn])] at front

/-- A slot in front of the final write index is a kept slot of the old array. -/
theorem retain_front (slots : Fin size → Slot) {j : Fin size}
    (before : j.val < (retain keep blank slots).2) :
    keep ((retain keep blank slots).1 j) = true ∧ ∃ i, slots i = (retain keep blank slots).1 j := by
  have member := List.mem_of_getElem? (getElem?_filter_eq_retain keep blank slots before)
  obtain ⟨held, kept⟩ := List.mem_filter.mp member
  exact ⟨kept, List.mem_ofFn.mp held⟩

/-- A slot past the final write index was dropped and left in place, or is blank. -/
theorem retain_beyond (slots : Fin size → Slot) {j : Fin size}
    (after : (retain keep blank slots).2 ≤ j.val) :
    (retain keep blank slots).1 j = if keep (slots j) then blank else slots j :=
  (retaining_retain keep blank slots).middle j after j.isLt

/-- The filter loses no kept slot and makes none up. -/
theorem exists_retain_iff (slots : Fin size → Slot) (dropped : keep blank = false) {slot : Slot}
    (kept : keep slot = true) :
    (∃ j, (retain keep blank slots).1 j = slot) ↔ ∃ i, slots i = slot := by
  constructor
  · rintro ⟨j, held⟩
    by_cases before : j.val < (retain keep blank slots).2
    · rw [← held]
      exact (retain_front keep blank slots before).2
    · rw [retain_beyond keep blank slots (not_lt.mp before)] at held
      split_ifs at held with keptHere
      · rw [← held, dropped] at kept
        cases kept
      · exact ⟨j, held⟩
  · rintro ⟨i, rfl⟩
    have member : slots i ∈ (List.ofFn slots).filter keep :=
      List.mem_filter.mpr ⟨List.mem_ofFn.mpr ⟨i, rfl⟩, kept⟩
    obtain ⟨j, found⟩ := List.mem_iff_getElem?.mp member
    have inside := (List.getElem?_eq_some_iff.mp found).1
    rw [length_filter_eq_write keep blank] at inside
    have bound : j < size := lt_of_lt_of_le inside (write_retain_le keep blank slots)
    refine ⟨⟨j, bound⟩, ?_⟩
    have front := getElem?_filter_eq_retain keep blank slots
      (show (⟨j, bound⟩ : Fin size).val < _ from inside)
    exact (Option.some.inj (found.symm.trans front)).symm

omit [DecidableEq Label] in
theorem distinct_retain {slots : Fin size → Slot} (distinct : Distinct label slots)
    (unlabelled : label blank = none) :
    Distinct label (retain keep blank slots).1 := by
  have pairwise : ((List.ofFn slots).filter keep).Pairwise
      fun first second => ∀ wanted, label first = some wanted → label second ≠ some wanted := by
    refine List.Pairwise.filter keep (List.pairwise_ofFn.mpr fun i j before wanted first second => ?_)
    exact absurd (distinct i j wanted first second) (ne_of_lt before)
  have beyond : ∀ (j : Fin size) wanted, ¬ j.val < (retain keep blank slots).2 →
      label ((retain keep blank slots).1 j) = some wanted →
      keep (slots j) = false ∧ label (slots j) = some wanted := by
    intro j wanted after labelled
    rw [retain_beyond keep blank slots (not_lt.mp after)] at labelled
    split_ifs at labelled with keptHere
    · rw [unlabelled] at labelled
      cases labelled
    · exact ⟨Bool.eq_false_of_not_eq_true keptHere, labelled⟩
  -- a front slot and a left-over slot of one label would be one old slot, kept and dropped
  have clash : ∀ (i j : Fin size) wanted, i.val < (retain keep blank slots).2 →
      ¬ j.val < (retain keep blank slots).2 →
      label ((retain keep blank slots).1 i) = some wanted →
      label ((retain keep blank slots).1 j) = some wanted → False := by
    intro i j wanted before after first second
    obtain ⟨kept, source, held⟩ := retain_front keep blank slots before
    obtain ⟨dropped, labelled⟩ := beyond j wanted after second
    rw [← held] at kept first
    rw [distinct source j wanted first labelled, dropped] at kept
    cases kept
  have ordered : ∀ i j : Fin size, ∀ wanted, i.val < j.val →
      j.val < (retain keep blank slots).2 →
      label ((retain keep blank slots).1 i) = some wanted →
      label ((retain keep blank slots).1 j) ≠ some wanted := by
    intro i j wanted before inside first
    have left := getElem?_filter_eq_retain keep blank slots
      (before.trans inside)
    have right := getElem?_filter_eq_retain keep blank slots inside
    obtain ⟨leftInside, leftEq⟩ := List.getElem?_eq_some_iff.mp left
    obtain ⟨rightInside, rightEq⟩ := List.getElem?_eq_some_iff.mp right
    have apart := List.pairwise_iff_getElem.mp pairwise i.val j.val leftInside rightInside before
      wanted
    rw [leftEq, rightEq] at apart
    exact apart first
  intro i j wanted first second
  by_cases iFront : i.val < (retain keep blank slots).2 <;>
    by_cases jFront : j.val < (retain keep blank slots).2
  · rcases lt_trichotomy i j with before | same | after
    · exact absurd second (ordered i j wanted before jFront first)
    · exact same
    · exact absurd first (ordered j i wanted after iFront second)
  · exact (clash i j wanted iFront jFront first second).elim
  · exact (clash j i wanted jFront iFront second first).elim
  · exact distinct i j wanted (beyond i wanted iFront first).2 (beyond j wanted jFront second).2

end Retain

end Fleece.Slots
