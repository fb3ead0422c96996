/-
This file is about insertion sort on an array: each element moves to the left past
the elements that stand after it and stops at the first that does not. Whether an
element stands after another is any test. The result is a rearrangement of the
input, it is sorted where the test is that of an order, and a sorted input stays as
it is whatever the test.
-/

import Mathlib

namespace Fleece.InsertionSort

variable {Element : Type} (after : Element → Element → Bool)

/-- Move the key to the left past the elements that stand after it. -/
def insert (sorted : List Element) (key : Element) : List Element :=
  sorted.rdropWhile (after · key) ++ key :: sorted.rtakeWhile (after · key)

/-- Each element in its turn is put in among those before it. -/
def sort (elements : List Element) : List Element := elements.foldl (insert after) []

/-- No element stands after one that follows it. -/
def Sorted (elements : List Element) : Prop :=
  elements.Pairwise fun first second => after first second = false

variable {after}

theorem insert_perm (sorted : List Element) (key : Element) :
    (insert after sorted key).Perm (key :: sorted) := by
  unfold insert
  refine List.perm_middle.trans (List.Perm.cons key ?_)
  rw [List.rdropWhile_append_rtakeWhile]

theorem foldl_insert_perm (elements sorted : List Element) :
    (elements.foldl (insert after) sorted).Perm (sorted ++ elements) := by
  induction elements generalizing sorted with
  | nil => rw [List.foldl_nil, List.append_nil]
  | cons key rest inductionHypothesis =>
    refine (inductionHypothesis (insert after sorted key)).trans ?_
    exact ((insert_perm sorted key).append_right rest).trans List.perm_middle.symm

theorem sort_perm (elements : List Element) : (sort after elements).Perm elements :=
  foldl_insert_perm elements []

theorem length_sort (elements : List Element) : (sort after elements).length = elements.length :=
  (sort_perm elements).length_eq

theorem mem_sort {elements : List Element} {element : Element} :
    element ∈ sort after elements ↔ element ∈ elements := (sort_perm elements).mem_iff

/-! ### Images -/

theorem insert_concat (sorted : List Element) (last key : Element) :
    insert after (sorted ++ [last]) key =
      if after last key then insert after sorted key ++ [last] else sorted ++ [last, key] := by
  unfold insert
  rw [List.rdropWhile_concat, List.rtakeWhile_concat]
  split_ifs
  · rw [List.append_assoc, List.cons_append]
  · rw [List.append_assoc, List.singleton_append]

section Image

variable {Image : Type} {afterImage : Image → Image → Bool} {image : Element → Image}

theorem insert_map {sorted : List Element} {key : Element}
    (same : ∀ element ∈ sorted, afterImage (image element) (image key) = after element key) :
    insert afterImage (sorted.map image) (image key) = (insert after sorted key).map image := by
  induction sorted using List.reverseRecOn with
  | nil => rfl
  | append_singleton sorted last inductionHypothesis =>
    rw [List.map_append, List.map_singleton, insert_concat, insert_concat,
      same last (List.mem_append_right _ (List.mem_singleton_self last))]
    split_ifs
    · rw [inductionHypothesis fun element member => same element (List.mem_append_left _ member),
        List.map_append, List.map_singleton]
    · rw [List.map_append, List.map_cons, List.map_singleton]

theorem foldl_insert_map (elements before : List Element)
    (same : ∀ first ∈ before ++ elements, ∀ second ∈ before ++ elements,
      afterImage (image first) (image second) = after first second) :
    (elements.map image).foldl (insert afterImage) (before.map image) =
      (elements.foldl (insert after) before).map image := by
  induction elements generalizing before with
  | nil => rfl
  | cons key rest inductionHypothesis =>
    have moved : (insert after before key ++ rest).Perm (before ++ key :: rest) :=
      ((insert_perm before key).append_right rest).trans List.perm_middle.symm
    rw [List.map_cons, List.foldl_cons, List.foldl_cons, insert_map fun element member =>
      same element (List.mem_append_left _ member) key
        (List.mem_append_right _ List.mem_cons_self)]
    exact inductionHypothesis _ fun first firstMember second secondMember =>
      same first (moved.mem_iff.mp firstMember) second (moved.mem_iff.mp secondMember)

/-- Images that are compared as the elements are sorted as the elements are. -/
theorem sort_map {elements : List Element}
    (same : ∀ first ∈ elements, ∀ second ∈ elements,
      afterImage (image first) (image second) = after first second) :
    sort afterImage (elements.map image) = (sort after elements).map image :=
  foldl_insert_map elements [] same

end Image

/-! ### Stability -/

section Stability

variable {Earlier : Element → Element → Prop}

/-- Two elements are in the order they came in, or the later one moved past the other. -/
def Stable (after : Element → Element → Bool) (Earlier : Element → Element → Prop)
    (elements : List Element) : Prop :=
  elements.Pairwise fun first second => Earlier first second ∨ after second first = true

theorem insert_stable {sorted : List Element} {key : Element}
    (stable : Stable after Earlier sorted) (last : ∀ element ∈ sorted, Earlier element key) :
    Stable after Earlier (insert after sorted key) := by
  have whole : sorted.rdropWhile (after · key) ++ sorted.rtakeWhile (after · key) = sorted :=
    List.rdropWhile_append_rtakeWhile
  have parts : Stable after Earlier
      (sorted.rdropWhile (after · key) ++ sorted.rtakeWhile (after · key)) := by rwa [whole]
  obtain ⟨left, right, across⟩ := List.pairwise_append.mp parts
  unfold insert
  refine List.pairwise_append.mpr ⟨left, List.pairwise_cons.mpr ⟨fun passed member => ?_, right⟩, ?_⟩
  · exact .inr (@List.mem_rtakeWhile_imp _ (after · key) _ _ member)
  · intro first firstMember second secondMember
    rcases List.mem_cons.mp secondMember with rfl | rest
    · exact .inl (last first ((List.rdropWhile_prefix _ _).subset firstMember))
    · exact across first firstMember second rest

theorem foldl_insert_stable (elements before : List Element) (stable : Stable after Earlier before)
    (order : elements.Pairwise Earlier)
    (last : ∀ held ∈ before, ∀ element ∈ elements, Earlier held element) :
    Stable after Earlier (elements.foldl (insert after) before) := by
  induction elements generalizing before with
  | nil => exact stable
  | cons key rest inductionHypothesis =>
    obtain ⟨first, later⟩ := List.pairwise_cons.mp order
    refine inductionHypothesis _ (insert_stable stable fun held member =>
      last held member key List.mem_cons_self) later fun held member element inRest => ?_
    rcases List.mem_cons.mp ((insert_perm before key).mem_iff.mp member) with rfl | old
    · exact first element inRest
    · exact last held old element (List.mem_cons_of_mem key inRest)

/-- Elements that do not stand after each other keep the order they came in. -/
theorem sort_stable {elements : List Element} (order : elements.Pairwise Earlier) :
    Stable after Earlier (sort after elements) :=
  foldl_insert_stable elements [] List.Pairwise.nil order fun _ member =>
    absurd member List.not_mem_nil

end Stability

/-! ### Sorted inputs -/

/-- A key that none of the elements stands after is put behind them. -/
theorem insert_of_last {sorted : List Element} {key : Element}
    (last : ∀ element ∈ sorted, after element key = false) :
    insert after sorted key = sorted ++ [key] := by
  unfold insert
  rw [List.rdropWhile_eq_self_iff.mpr, List.rtakeWhile_eq_nil_iff.mpr]
  all_goals
    intro nonempty
    rw [last _ (List.getLast_mem nonempty)]
    exact Bool.false_ne_true

theorem foldl_insert_of_sorted (elements before : List Element)
    (sorted : Sorted after (before ++ elements)) :
    elements.foldl (insert after) before = before ++ elements := by
  induction elements generalizing before with
  | nil => exact (List.append_nil before).symm
  | cons key rest inductionHypothesis =>
    have last : ∀ element ∈ before, after element key = false := fun element member =>
      (List.pairwise_append.mp sorted).2.2 element member key List.mem_cons_self
    rw [List.append_cons] at sorted ⊢
    rw [List.foldl_cons, insert_of_last last]
    exact inductionHypothesis (before ++ [key]) sorted

/-- A sorted array stays as it is. -/
theorem sort_of_sorted {elements : List Element} (sorted : Sorted after elements) :
    sort after elements = elements := foldl_insert_of_sorted elements [] sorted

/-! ### Sorted results -/

section Order

variable {Valid : Element → Prop}
  (oneWay : ∀ first second, after first second = true → after second first = false)
  (notAfter : ∀ first second third, Valid second → after first second = false →
    after second third = false → after first third = false)
include oneWay notAfter

theorem insert_sorted {sorted : List Element} {key : Element}
    (valid : ∀ element ∈ sorted, Valid element) (isSorted : Sorted after sorted) :
    Sorted after (insert after sorted key) := by
  have whole : sorted.rdropWhile (after · key) ++ sorted.rtakeWhile (after · key) = sorted :=
    List.rdropWhile_append_rtakeWhile
  have parts : Sorted after (sorted.rdropWhile (after · key) ++ sorted.rtakeWhile (after · key)) := by
    rwa [whole]
  obtain ⟨left, right, across⟩ := List.pairwise_append.mp parts
  have behind : ∀ element ∈ sorted.rtakeWhile (after · key), after key element = false :=
    fun element member =>
      oneWay element key (@List.mem_rtakeWhile_imp _ (after · key) _ _ member)
  -- an element to the left of the key is not after the last of them, and that is not after the key
  have before : ∀ element ∈ sorted.rdropWhile (after · key), after element key = false := by
    intro element member
    have nonempty := List.ne_nil_of_mem member
    have stops := List.rdropWhile_last_not (after · key) sorted nonempty
    rw [Bool.not_eq_true] at stops
    rw [← List.dropLast_append_getLast nonempty, List.mem_append, List.mem_singleton] at member
    rcases member with inner | rfl
    · refine notAfter element _ key ?_ ?_ stops
      · exact valid _ ((List.rdropWhile_prefix _ _).subset (List.getLast_mem nonempty))
      · have chain := left
        rw [← List.dropLast_append_getLast nonempty] at chain
        exact (List.pairwise_append.mp chain).2.2 element inner _ (List.mem_singleton_self _)
    · exact stops
  unfold insert
  refine List.pairwise_append.mpr ⟨left, List.pairwise_cons.mpr ⟨behind, right⟩, ?_⟩
  intro first firstMember second secondMember
  rcases List.mem_cons.mp secondMember with rfl | rest
  · exact before first firstMember
  · exact across first firstMember second rest

theorem foldl_insert_sorted (elements before : List Element)
    (valid : ∀ element ∈ before ++ elements, Valid element) (isSorted : Sorted after before) :
    Sorted after (elements.foldl (insert after) before) := by
  induction elements generalizing before with
  | nil => exact isSorted
  | cons key rest inductionHypothesis =>
    refine inductionHypothesis (insert after before key) ?_ ?_
    · intro element member
      refine valid element ?_
      rcases List.mem_append.mp member with inserted | later
      · rcases List.mem_cons.mp ((insert_perm before key).mem_iff.mp inserted) with rfl | held
        · exact List.mem_append_right _ List.mem_cons_self
        · exact List.mem_append_left _ held
      · exact List.mem_append_right _ (List.mem_cons_of_mem _ later)
    · exact insert_sorted oneWay notAfter
        (fun element member => valid element (List.mem_append_left _ member)) isSorted

theorem sort_sorted {elements : List Element} (valid : ∀ element ∈ elements, Valid element) :
    Sorted after (sort after elements) :=
  foldl_insert_sorted oneWay notAfter elements [] valid List.Pairwise.nil

end Order

end Fleece.InsertionSort
