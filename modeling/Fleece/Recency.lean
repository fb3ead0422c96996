/-
This file treats a full array of labelled slots as a memory of what was seen last. What
is seen goes to its own slot, to a free one, or to the slot whose content has not been
seen for the longest time.

Such an array forgets a label only for labels that were seen later. So the labels
that were seen since some time are all there, as long as there are no more of them
than slots.
-/

import Fleece.Slots

namespace Fleece.Recency

variable {Slot Label Time : Type} [DecidableEq Label] [LinearOrder Time]

/-! ### The oldest slot -/

section Oldest

variable {size : Nat} (time : Slot → Time)

/-- The scan for the first slot with the least time. -/
def oldest (slots : Fin (size + 1) → Slot) : Fin (size + 1) :=
  (List.finRange (size + 1)).tail.foldl
    (fun oldest i => if time (slots i) < time (slots oldest) then i else oldest) 0

variable {time}

theorem foldl_oldest_le (slots : Fin (size + 1) → Slot) (rest : List (Fin (size + 1)))
    (first : Fin (size + 1)) :
    let last := rest.foldl
      (fun oldest i => if time (slots i) < time (slots oldest) then i else oldest) first
    ∀ i ∈ first :: rest, time (slots last) ≤ time (slots i) := by
  induction rest generalizing first with
  | nil => exact List.forall_mem_singleton.mpr le_rfl
  | cons next rest inductionHypothesis =>
    have later := inductionHypothesis
      (if time (slots next) < time (slots first) then next else first)
    simp only [List.forall_mem_cons, List.foldl_cons] at later ⊢
    obtain ⟨picked, beyond⟩ := later
    refine ⟨picked.trans ?_, picked.trans ?_, beyond⟩
    · split_ifs with earlier
      · exact earlier.le
      · exact le_rfl
    · split_ifs with earlier
      · exact le_rfl
      · exact not_lt.mp earlier

theorem oldest_le (slots : Fin (size + 1) → Slot) (i : Fin (size + 1)) :
    time (slots (oldest time slots)) ≤ time (slots i) := by
  have whole : (0 : Fin (size + 1)) :: (List.finRange (size + 1)).tail =
      List.finRange (size + 1) := by
    rw [List.finRange_succ, List.tail_cons]
  have scanned := @foldl_oldest_le _ _ _ _ time slots (List.finRange (size + 1)).tail 0
  rw [whole] at scanned
  exact scanned i (List.mem_finRange i)

end Oldest

/-! ### What the array remembers -/

variable {size : Nat} (label : Slot → Option Label) (time : Slot → Time)

/-- The array remembers what was seen when: each label has at most one slot, with the time it was
seen last, and a label that was seen and has no slot is older than all that have one. -/
structure Remembers (slots : Fin size → Slot) (seen : Label → Option Time) : Prop where
  distinct : Slots.Distinct label slots
  latest : ∀ i wanted, label (slots i) = some wanted → seen wanted = some (time (slots i))
  forgotten : ∀ wanted at', seen wanted = some at' → (∃ i, label (slots i) = some wanted) ∨
    ∀ i, label (slots i) ≠ none ∧ at' ≤ time (slots i)

/-- The slot where a label goes: its own, a free one where it has none, or the one with the least
time where it has none and none is free. -/
inductive Place (slots : Fin size → Slot) (wanted : Label) (i : Fin size) : Prop
  | own (found : label (slots i) = some wanted)
  | free (absent : ∀ j, label (slots j) ≠ some wanted) (vacant : label (slots i) = none)
  | least (absent : ∀ j, label (slots j) ≠ some wanted) (full : ∀ j, label (slots j) ≠ none)
      (earliest : ∀ j, time (slots i) ≤ time (slots j))

variable {label time} {slots : Fin size → Slot} {seen : Label → Option Time}

omit [DecidableEq Label] in
theorem Place.only {wanted : Label} {i j : Fin size}
    (distinct : Slots.Distinct label slots) (place : Place label time slots wanted i)
    (labelled : label (slots j) = some wanted) : j = i := by
  cases place with
  | own found => exact distinct j i wanted labelled found
  | free absent vacant => exact absurd labelled (absent j)
  | least absent full earliest => exact absurd labelled (absent j)

/-- A label that is seen at a time no earlier than any before. -/
theorem Remembers.see (remembers : Remembers label time slots seen) {slot : Slot} {wanted : Label}
    (labelled : label slot = some wanted) {i : Fin size}
    (place : Place label time slots wanted i)
    (now : ∀ other at', seen other = some at' → at' ≤ time slot) :
    Remembers label time (Function.update slots i slot)
      (Function.update seen wanted (some (time slot))) := by
  have own (j : Fin size) (other : Label) (new : label slot = some other)
      (old : label (slots j) = some other) : j = i := by
    obtain rfl : wanted = other := Option.some.inj (labelled.symm.trans new)
    exact place.only remembers.distinct old
  refine ⟨Slots.distinct_update remembers.distinct i own, fun j other found => ?_,
    fun other at' was => ?_⟩
  · rcases eq_or_ne j i with rfl | apart
    · rw [Function.update_self] at found ⊢
      obtain rfl : wanted = other := Option.some.inj (labelled.symm.trans found)
      rw [Function.update_self]
    · rw [Function.update_of_ne apart] at found ⊢
      have different : other ≠ wanted := by
        rintro rfl
        exact apart (place.only remembers.distinct found)
      rw [Function.update_of_ne different]
      exact remembers.latest j other found
  rcases eq_or_ne other wanted with rfl | different
  · exact Or.inl ⟨i, by rw [Function.update_self, labelled]⟩
  rw [Function.update_of_ne different] at was
  -- every slot has a label no older than the other one, before and after
  have beyond (all : ∀ j, label (slots j) ≠ none ∧ at' ≤ time (slots j)) (j : Fin size) :
      label (Function.update slots i slot j) ≠ none ∧
        at' ≤ time (Function.update slots i slot j) := by
    rcases eq_or_ne j i with rfl | apart
    · rw [Function.update_self, labelled]
      exact ⟨Option.some_ne_none _, now other at' was⟩
    · rw [Function.update_of_ne apart]
      exact all j
  rcases remembers.forgotten other at' was with ⟨j, found⟩ | all
  · rcases eq_or_ne j i with rfl | apart
    · cases place with
      | own mine => exact absurd (Option.some.inj (found.symm.trans mine)) different
      | free absent vacant => exact absurd (found.symm.trans vacant) (Option.some_ne_none _)
      | least absent full earliest =>
        have there := Option.some.inj ((remembers.latest j other found).symm.trans was)
        exact Or.inr (beyond fun k => ⟨full k, there ▸ earliest k⟩)
    · exact Or.inl ⟨j, by rw [Function.update_of_ne apart, found]⟩
  · exact Or.inr (beyond all)

omit [DecidableEq Label] in
/-- What changes neither the labels nor the times. -/
theorem Remembers.congr (remembers : Remembers label time slots seen) {next : Fin size → Slot}
    (labels : ∀ i, label (next i) = label (slots i)) (times : ∀ i, time (next i) = time (slots i)) :
    Remembers label time next seen := by
  refine ⟨fun i j wanted first second => ?_, fun i wanted found => ?_, fun wanted at' was => ?_⟩
  · rw [labels] at first second
    exact remembers.distinct i j wanted first second
  · rw [labels] at found
    rw [times]
    exact remembers.latest i wanted found
  · simp only [labels, times]
    exact remembers.forgotten wanted at' was

/-- The labels that were seen since some time are all there if the slots suffice for them. -/
theorem Remembers.recent (remembers : Remembers label time slots seen) {since : Time}
    {recent : Finset Label} (few : recent.card ≤ size)
    (covers : ∀ wanted at', seen wanted = some at' → since ≤ at' → wanted ∈ recent)
    {wanted : Label} {at' : Time} (was : seen wanted = some at') (late : since ≤ at') :
    ∃ i, label (slots i) = some wanted := by
  rcases remembers.forgotten wanted at' was with found | all
  · exact found
  by_contra absent
  rw [not_exists] at absent
  choose held labelled using fun i => Option.ne_none_iff_exists'.mp (all i).1
  have others (i : Fin size) : held i ∈ recent.erase wanted := by
    refine Finset.mem_erase.mpr ⟨fun same => absent i (same ▸ labelled i), ?_⟩
    exact covers (held i) _ (remembers.latest i _ (labelled i)) (late.trans (all i).2)
  have injective : Function.Injective held := fun i j same =>
    remembers.distinct i j (held i) (labelled i) (same ▸ labelled j)
  have room : (Finset.univ : Finset (Fin size)).card ≤ (recent.erase wanted).card :=
    Finset.card_le_card_of_injOn held (fun i _ => others i) injective.injOn
  rw [Finset.card_univ, Fintype.card_fin] at room
  have smaller := Finset.card_erase_lt_of_mem (covers wanted at' was late)
  omega

end Fleece.Recency
