/-
This file is about the binary heap kept in an array: the entry at a position ranks
no later than the entries at its two children. Both repairs move a hole instead of
swapping: the entry that is out of place is held back, entries in its way are
copied into the hole one after another, and the held entry is written once, where
the hole stops.

The argument looks at the array with the held entry written into the hole. A move
of the hole is then a swap of two positions, which keeps the entries, and the order
is broken at the hole alone, towards its parent while the hole moves up and towards
its children while it moves down.
-/

import Mathlib

namespace Fleece.Heap

variable {Entry Priority : Type} [LinearOrder Priority] (key : Entry → Priority)

/-! ### The operations -/

/-- Move the hole at `i` up while the parent ranks strictly after the held entry. -/
def siftUp (items : List Entry) (i : Nat) (inside : i < items.length) (entry : Entry) :
    List Entry :=
  if i = 0 then items.set i entry
  else if key items[(i - 1) / 2] ≤ key entry then items.set i entry
  else siftUp (items.set i items[(i - 1) / 2]) ((i - 1) / 2) (by rw [List.length_set]; omega) entry
termination_by i

/-- The entry is added at the end and moved up to its place. -/
def push (items : List Entry) (entry : Entry) : List Entry :=
  siftUp key (items ++ [entry]) items.length (by rw [List.length_append]; exact Nat.lt_succ_self _)
    entry

/-- The child that ranks first, the left one on a tie. -/
def lesserChild (items : List Entry) (i : Nat) (more : i * 2 + 1 < items.length) :
    Fin items.length :=
  if right : i * 2 + 2 < items.length then
    if key items[i * 2 + 2] < key items[i * 2 + 1] then ⟨i * 2 + 2, right⟩ else ⟨i * 2 + 1, more⟩
  else ⟨i * 2 + 1, more⟩

theorem lt_lesserChild (items : List Entry) (i : Nat) (more : i * 2 + 1 < items.length) :
    i < (lesserChild key items i more).val := by
  unfold lesserChild
  split_ifs <;> simp only <;> omega

/-- Move the hole at `i` down while a child ranks strictly before the held entry. -/
def siftDown (items : List Entry) (i : Nat) (entry : Entry) : List Entry :=
  if more : i * 2 + 1 < items.length then
    let child := lesserChild key items i more
    if key entry ≤ key items[child] then items.set i entry
    else siftDown (items.set i items[child]) child entry
  else items.set i entry
termination_by items.length - i
decreasing_by
  have := lt_lesserChild key items i more
  have := (lesserChild key items i more).isLt
  rw [List.length_set]
  omega

/-- The entry at the root, and the heap whose last entry was let down from there. -/
def pop : List Entry → Option (Entry × List Entry)
  | [] => none
  | first :: rest => some (first, siftDown key (first :: rest).dropLast 0
      ((first :: rest).getLast (List.cons_ne_nil _ _)))

variable {key} {items : List Entry} {entry : Entry}

/-! ### The entries -/

/-- Moving the hole from `i` to `j` swaps the two positions. -/
theorem move_perm {i j : Nat} (insideI : i < items.length) (insideJ : j < items.length)
    (apart : i ≠ j) : ((items.set i items[j]).set j entry).Perm (items.set i entry) := by
  have swapped := @List.set_set_perm _ (items.set i entry) i j (by rwa [List.length_set])
    (by rwa [List.length_set])
  rwa [List.getElem_set_self, List.getElem_set_ne apart, List.set_set] at swapped

theorem siftUp_perm (items : List Entry) (i : Nat) (inside : i < items.length) (entry : Entry) :
    (siftUp key items i inside entry).Perm (items.set i entry) := by
  fun_induction siftUp key items i inside entry with
  | case1 => exact .rfl
  | case2 => exact .rfl
  | case3 items i inside below _ inductionHypothesis =>
    exact inductionHypothesis.trans (move_perm inside _ (by omega))

theorem push_perm (items : List Entry) (entry : Entry) :
    (push key items entry).Perm (entry :: items) := by
  refine (siftUp_perm _ _ _ _).trans ?_
  rw [List.set_append_right _ _ le_rfl, Nat.sub_self]
  exact List.perm_append_singleton entry items

theorem siftDown_perm (items : List Entry) (i : Nat) (entry : Entry) (inside : i < items.length) :
    (siftDown key items i entry).Perm (items.set i entry) := by
  fun_induction siftDown key items i entry with
  | case1 => exact .rfl
  | case2 items i more child _ inductionHypothesis =>
    refine (inductionHypothesis ?_).trans (move_perm inside child.isLt ?_)
    · rw [List.length_set]
      exact child.isLt
    · exact (lt_lesserChild key items i more).ne
  | case3 => exact .rfl

theorem pop_perm {first : Entry} {rest : List Entry}
    (popped : pop key items = some (first, rest)) : items.Perm (first :: rest) := by
  cases items with
  | nil => cases popped
  | cons head tail =>
    obtain ⟨rfl, rfl⟩ := Prod.mk.inj (Option.some.inj popped)
    refine List.Perm.cons head ?_
    cases tail using List.reverseRecOn with
    | nil =>
      unfold siftDown
      rfl
    | append_singleton tail last =>
      have inside : 0 < (head :: tail).length := Nat.succ_pos _
      have down := @siftDown_perm _ _ _ key (head :: tail) 0 last inside
      rw [List.set_cons_zero] at down
      have split : head :: (tail ++ [last]) = (head :: tail) ++ [last] := rfl
      simp only [split, List.dropLast_concat, List.getLast_append_singleton]
      exact (List.perm_append_singleton last tail).trans down.symm

/-! ### The order -/

/-- The entry at one position ranks no later than the entry at another. -/
def Before (key : Entry → Priority) (items : List Entry) (p c : Nat) : Prop :=
  ∀ first ∈ items[p]?, ∀ second ∈ items[c]?, key first ≤ key second

/-- No entry ranks before its parent. -/
def Ordered (key : Entry → Priority) (items : List Entry) : Prop :=
  ∀ c, 0 < c → Before key items ((c - 1) / 2) c

/-- Only the entry at `i` may rank before its parent, and what is below it ranks after that
parent too. -/
structure UpReady (key : Entry → Priority) (items : List Entry) (i : Nat) : Prop where
  ordered : ∀ c, 0 < c → c ≠ i → Before key items ((c - 1) / 2) c
  below : ∀ c, 0 < c → (c - 1) / 2 = i → 0 < i → Before key items ((i - 1) / 2) c

/-- Only the entry at `i` may rank after its children, and these rank after its parent too. -/
structure DownReady (key : Entry → Priority) (items : List Entry) (i : Nat) : Prop where
  ordered : ∀ c, 0 < c → (c - 1) / 2 ≠ i → Before key items ((c - 1) / 2) c
  below : ∀ c, 0 < c → (c - 1) / 2 = i → 0 < i → Before key items ((i - 1) / 2) c

theorem Before.trans {p c d : Nat} (inside : c < items.length) (first : Before key items p c)
    (second : Before key items c d) : Before key items p d := by
  intro one isOne other isOther
  have here : items[c] ∈ items[c]? := Option.mem_def.mpr (List.getElem?_eq_getElem inside)
  exact (first one isOne _ here).trans (second _ here other isOther)

theorem before_of_getElem {p c : Nat} (insideP : p < items.length) (insideC : c < items.length)
    (early : key items[p] ≤ key items[c]) : Before key items p c := by
  rw [Before, List.getElem?_eq_getElem insideP, List.getElem?_eq_getElem insideC]
  rintro _ ⟨⟩ _ ⟨⟩
  exact early

theorem before_of_outside {p c : Nat} (outside : items.length ≤ c) : Before key items p c := by
  intro _ _ second member
  rw [List.getElem?_eq_none outside] at member
  cases member

theorem ordered_nil : Ordered key ([] : List Entry) := fun c _ => before_of_outside (Nat.zero_le c)

/-- One array is another with two positions swapped. -/
structure Swapped (items next : List Entry) (i j : Nat) : Prop where
  atFirst : next[i]? = items[j]?
  atSecond : next[j]? = items[i]?
  elsewhere : ∀ c, c ≠ i → c ≠ j → next[c]? = items[c]?

theorem swapped_move {i j : Nat} (insideI : i < items.length) (insideJ : j < items.length)
    (apart : i ≠ j) :
    Swapped (items.set i entry) ((items.set i items[j]).set j entry) i j where
  atFirst := by
    rw [List.getElem?_set_ne apart.symm, List.getElem?_set_self insideI,
      List.getElem?_set_ne apart, List.getElem?_eq_getElem insideJ]
  atSecond := by
    rw [List.getElem?_set_self (by rwa [List.length_set]), List.getElem?_set_self insideI]
  elsewhere := by
    intro c notFirst notSecond
    rw [List.getElem?_set_ne notSecond.symm, List.getElem?_set_ne notFirst.symm,
      List.getElem?_set_ne notFirst.symm]

theorem before_congr {next : List Entry} {p c p' c' : Nat} (first : next[p]? = items[p']?)
    (second : next[c]? = items[c']?) : Before key next p c ↔ Before key items p' c' := by
  rw [Before, Before, first, second]

section Swap

variable {next : List Entry} {i j : Nat} (swapped : Swapped items next i j)
include swapped

/-- The entry in the hole trades places with its parent `j`. -/
theorem UpReady.move (ready : UpReady key items i) (inside : i < items.length) (pos : 0 < i)
    (parent : (i - 1) / 2 = j) (late : Before key items i j) : UpReady key next j := by
  have lower : j < i := by omega
  constructor
  · intro c posC other
    by_cases isHole : c = i
    · rw [isHole, parent]
      exact (before_congr swapped.atSecond swapped.atFirst).mpr late
    · have same := swapped.elsewhere c isHole other
      by_cases child : (c - 1) / 2 = i
      · rw [child, before_congr swapped.atFirst same]
        exact parent ▸ ready.below c posC child pos
      · by_cases sibling : (c - 1) / 2 = j
        · rw [sibling, before_congr swapped.atSecond same]
          exact late.trans (by omega) (sibling ▸ ready.ordered c posC isHole)
        · rw [before_congr (swapped.elsewhere _ child sibling) same]
          exact ready.ordered c posC isHole
  · intro c posC child posJ
    have above := swapped.elsewhere ((j - 1) / 2) (by omega) (by omega)
    have parentBefore := ready.ordered j posJ (by omega)
    by_cases isHole : c = i
    · rw [isHole, before_congr above swapped.atFirst]
      exact parentBefore
    · rw [before_congr above (swapped.elsewhere c isHole (by omega))]
      exact parentBefore.trans (by omega) (child ▸ ready.ordered c posC isHole)

/-- The entry in the hole trades places with its child `j`, which ranks no later than the other
child. -/
theorem DownReady.move (ready : DownReady key items i) (pos : 0 < j)
    (parent : (j - 1) / 2 = i) (early : Before key items j i)
    (least : ∀ c, 0 < c → (c - 1) / 2 = i → Before key items j c) : DownReady key next j := by
  have lower : i < j := by omega
  constructor
  · intro c posC other
    by_cases isChild : c = j
    · rw [isChild, parent]
      exact (before_congr swapped.atFirst swapped.atSecond).mpr early
    · by_cases isHole : c = i
      · rw [isHole, before_congr (swapped.elsewhere _ (by omega) (by omega)) swapped.atFirst]
        exact ready.below j pos parent (by omega)
      · have same := swapped.elsewhere c isHole isChild
        by_cases sibling : (c - 1) / 2 = i
        · rw [sibling, before_congr swapped.atFirst same]
          exact least c posC sibling
        · rw [before_congr (swapped.elsewhere _ sibling other) same]
          exact ready.ordered c posC sibling
  · intro c posC child _
    rw [parent, before_congr swapped.atFirst (swapped.elsewhere c (by omega) (by omega))]
    exact child ▸ ready.ordered c posC (by omega)

end Swap

theorem siftUp_ordered (items : List Entry) (i : Nat) (inside : i < items.length) (entry : Entry)
    (ready : UpReady key (items.set i entry) i) : Ordered key (siftUp key items i inside entry) := by
  fun_induction siftUp key items i inside entry with
  | case1 => exact fun c pos => ready.ordered c pos (by omega)
  | case2 items i inside below early =>
    intro c pos
    by_cases isHole : c = i
    · rw [isHole]
      refine before_of_getElem (by rw [List.length_set]; omega) (by rwa [List.length_set]) ?_
      rwa [List.getElem_set_self, List.getElem_set_ne (by omega)]
    · exact ready.ordered c pos isHole
  | case3 items i inside below late inductionHypothesis =>
    have swapped := @swapped_move _ items entry i ((i - 1) / 2) inside (by omega) (by omega)
    refine inductionHypothesis (UpReady.move swapped ready ?_ (by omega) rfl ?_)
    · rwa [List.length_set]
    · refine before_of_getElem (by rwa [List.length_set]) (by rw [List.length_set]; omega) ?_
      rw [List.getElem_set_self, List.getElem_set_ne (by omega)]
      exact (not_le.mp late).le

theorem push_ordered (ordered : Ordered key items) (entry : Entry) :
    Ordered key (push key items entry) := by
  refine siftUp_ordered _ _ _ _ ⟨fun c pos other => ?_, fun c pos child _ => ?_⟩
  · rw [List.set_append_right _ _ le_rfl, Nat.sub_self, List.set_cons_zero]
    rcases lt_or_ge c items.length with inside | outside
    · rw [before_congr (List.getElem?_append_left (by omega)) (List.getElem?_append_left inside)]
      exact ordered c pos
    · refine before_of_outside ?_
      rw [List.length_append, List.length_singleton]
      omega
  · refine before_of_outside ?_
    rw [List.length_set, List.length_append, List.length_singleton]
    omega

/-- The child chosen ranks no later than its sibling. -/
theorem lesserChild_before (items : List Entry) (i : Nat) (more : i * 2 + 1 < items.length) {c : Nat}
    (pos : 0 < c) (child : (c - 1) / 2 = i) :
    Before key items (lesserChild key items i more).val c := by
  have isChild : c = i * 2 + 1 ∨ c = i * 2 + 2 := by omega
  unfold lesserChild
  split_ifs with right less
  · rcases isChild with rfl | rfl
    · exact before_of_getElem right more less.le
    · exact before_of_getElem right right le_rfl
  · rcases isChild with rfl | rfl
    · exact before_of_getElem more more le_rfl
    · exact before_of_getElem more right (not_lt.mp less)
  · rcases isChild with rfl | rfl
    · exact before_of_getElem more more le_rfl
    · exact before_of_outside (not_lt.mp right)

theorem parent_lesserChild (items : List Entry) (i : Nat) (more : i * 2 + 1 < items.length) :
    ((lesserChild key items i more).val - 1) / 2 = i := by
  unfold lesserChild
  split_ifs <;> simp only <;> omega

theorem siftDown_ordered (items : List Entry) (i : Nat) (entry : Entry) (inside : i < items.length)
    (ready : DownReady key (items.set i entry) i) : Ordered key (siftDown key items i entry) := by
  fun_induction siftDown key items i entry with
  | case1 items i more child early =>
    have lower : i < child.val := lt_lesserChild key items i more
    have hole : Before key (items.set i entry) i child.val :=
      before_of_getElem (by rwa [List.length_set]) (by rw [List.length_set]; exact child.isLt)
        (by rwa [List.getElem_set_self, List.getElem_set_ne lower.ne])
    intro c pos
    by_cases isChild : (c - 1) / 2 = i
    · have least := @lesserChild_before _ _ _ key items i more c pos isChild
      rw [isChild]
      refine hole.trans (by rw [List.length_set]; exact child.isLt) ?_
      rwa [before_congr (List.getElem?_set_ne lower.ne) (List.getElem?_set_ne (by omega))]
    · exact ready.ordered c pos isChild
  | case2 items i more child late inductionHypothesis =>
    have lower : i < child.val := lt_lesserChild key items i more
    have swapped := @swapped_move _ items entry i child.val inside child.isLt lower.ne
    refine inductionHypothesis (by rw [List.length_set]; exact child.isLt)
      (DownReady.move swapped ready (by omega) (parent_lesserChild items i more) ?_ ?_)
    · refine before_of_getElem (by rw [List.length_set]; exact child.isLt)
        (by rwa [List.length_set]) ?_
      rw [List.getElem_set_self, List.getElem_set_ne lower.ne]
      exact (not_le.mp late).le
    · intro c pos isChild
      rw [before_congr (List.getElem?_set_ne lower.ne) (List.getElem?_set_ne (by omega))]
      exact lesserChild_before items i more pos isChild
  | case3 items i last =>
    intro c pos
    by_cases isChild : (c - 1) / 2 = i
    · exact before_of_outside (by rw [List.length_set]; omega)
    · exact ready.ordered c pos isChild

theorem pop_ordered {first : Entry} {rest : List Entry} (ordered : Ordered key items)
    (popped : pop key items = some (first, rest)) : Ordered key rest := by
  cases items with
  | nil => cases popped
  | cons head tail =>
    obtain ⟨rfl, rfl⟩ := Prod.mk.inj (Option.some.inj popped)
    cases tail using List.reverseRecOn with
    | nil =>
      unfold siftDown
      exact ordered_nil
    | append_singleton tail last =>
      have split : head :: (tail ++ [last]) = (head :: tail) ++ [last] := rfl
      simp only [split, List.dropLast_concat, List.getLast_append_singleton]
      refine siftDown_ordered _ _ _ (Nat.succ_pos _) ⟨fun c pos other => ?_, fun c _ _ => nofun⟩
      rw [List.set_cons_zero]
      rcases lt_or_ge c (head :: tail).length with inside | outside
      · have kept (k : Nat) (posK : 0 < k) (insideK : k < (head :: tail).length) :
            (last :: tail)[k]? = (head :: (tail ++ [last]))[k]? := by
          obtain ⟨k, rfl⟩ := Nat.exists_eq_succ_of_ne_zero posK.ne'
          rw [List.getElem?_cons_succ, List.getElem?_cons_succ,
            List.getElem?_append_left (Nat.lt_of_succ_lt_succ insideK)]
        rw [before_congr (kept _ (Nat.pos_of_ne_zero other) (by omega)) (kept c pos inside)]
        exact ordered c pos
      · exact before_of_outside outside

/-- The root of an ordered heap ranks no later than any entry. -/
theorem root_before (ordered : Ordered key items) (c : Nat) : Before key items 0 c := by
  induction c using Nat.strongRecOn with
  | ind c inductionHypothesis =>
    by_cases isRoot : c = 0
    · rintro first isFirst second isSecond
      rw [isRoot] at isSecond
      rw [Option.mem_unique isFirst isSecond]
    · rcases lt_or_ge c items.length with inside | outside
      · exact (inductionHypothesis ((c - 1) / 2) (by omega)).trans (by omega)
          (ordered c (Nat.pos_of_ne_zero isRoot))
      · exact before_of_outside outside

/-- What is popped ranks no later than what stays. -/
theorem pop_least {first : Entry} {rest : List Entry} (ordered : Ordered key items)
    (popped : pop key items = some (first, rest)) {other : Entry} (member : other ∈ rest) :
    key first ≤ key other := by
  have isMember : other ∈ items := (pop_perm popped).symm.subset (List.mem_cons_of_mem _ member)
  obtain ⟨c, held⟩ := List.mem_iff_getElem?.mp isMember
  have isRoot : first ∈ items[0]? := by
    cases items with
    | nil => cases popped
    | cons head tail =>
      obtain ⟨rfl, _⟩ := Prod.mk.inj (Option.some.inj popped)
      rfl
  exact root_before ordered c first isRoot other held

theorem pop_eq_none_iff : pop key items = none ↔ items = [] := by
  cases items with
  | nil => exact ⟨fun _ => rfl, fun _ => rfl⟩
  | cons head tail => exact ⟨nofun, nofun⟩

end Fleece.Heap
