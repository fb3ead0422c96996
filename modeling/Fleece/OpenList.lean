/-
This file is about the open list of the search as the source keeps it: a block of
slots that is doubled when it is full, of which the first `len` are in use. Each call
is shown to do to the slots in use what the heap of the library does to a list, with the
last entry held aside and the slots behind the used ones left alone. Over any sequence
of calls the open list is then a priority queue.
-/

import Fleece.Planner
import Fleece.Runs

namespace Fleece

variable {Cost : Type}

/-! ### The block -/

/-- `Heap`: a block of `cap` slots, of which the first `len` are in use. The capacity is a power of
two, so that no position the code computes from one in use wraps. -/
structure OpenList (Cost : Type) where
  items : List (HeapEntry Cost)
  len : Nat
  fits : len ≤ items.length
  doubled : items.length = 0 ∨ items.length ∣ 2 ^ 31

namespace OpenList

/-- The open list before the first push. -/
def empty : OpenList Cost where
  items := []
  len := 0
  fits := le_rfl
  doubled := .inl rfl

/-- `cap`: the number of entries that memory was taken for. -/
def cap (heap : OpenList Cost) : Nat := heap.items.length

/-- The entries in use. -/
def live (heap : OpenList Cost) : List (HeapEntry Cost) := heap.items.take heap.len

theorem length_live (heap : OpenList Cost) : heap.live.length = heap.len :=
  List.length_take_of_le heap.fits

/-- The capacity that `heap_push` asks for, doubled in `uint32_t`. -/
def newCap (heap : OpenList Cost) : Nat := if heap.cap = 0 then 16 else heap.cap * 2 % 2 ^ 32

theorem doubled_newCap (heap : OpenList Cost) (more : heap.cap < heap.newCap) :
    heap.newCap ∣ 2 ^ 31 := by
  unfold newCap at more ⊢
  split_ifs at more ⊢ with isZero
  · decide
  · obtain ⟨k, small, equal⟩ :=
      (Nat.dvd_prime_pow Nat.prime_two).mp (heap.doubled.resolve_left isZero)
    rw [cap, equal, ← Nat.pow_succ] at more ⊢
    rcases Nat.lt_or_eq_of_le small with less | last
    · rw [Nat.mod_eq_of_lt (Nat.pow_lt_pow_right (by decide) (by omega))]
      exact Nat.pow_dvd_pow 2 less
    · rw [last] at more
      exact absurd more (by decide)

/-- A block with room for one more entry. -/
abbrev Roomy (Cost : Type) : Type := { heap : OpenList Cost // heap.len < heap.items.length }

/-- `fleece_realloc` of a full block, with what the block handed out holds behind the old items. It
fails when no block of the new capacity is handed out; a capacity that wraps asks for no bytes. -/
def grow (heap : OpenList Cost) (fresh : List (HeapEntry Cost)) : Option (Roomy Cost) :=
  if full : heap.len = heap.cap then
    if granted : heap.cap < heap.newCap ∧ heap.cap + fresh.length = heap.newCap then
      have length : (heap.items ++ fresh).length = heap.newCap := by
        rw [List.length_append]
        exact granted.2
      some
        ⟨{ items := heap.items ++ fresh
           len := heap.len
           fits := length ▸ full ▸ granted.1.le
           doubled := .inr (length ▸ heap.doubled_newCap granted.1) },
          show heap.len < (heap.items ++ fresh).length from length ▸ full ▸ granted.1⟩
    else none
  else some ⟨heap, lt_of_le_of_ne heap.fits full⟩

/-- Growing the block leaves the slots in use alone. -/
theorem live_grow {heap : OpenList Cost} {fresh : List (HeapEntry Cost)} {room : Roomy Cost}
    (grown : heap.grow fresh = some room) : room.val.live = heap.live := by
  unfold grow at grown
  split_ifs at grown with full granted
  · obtain rfl := Option.some.inj grown
    exact List.take_append_of_le_length heap.fits
  · obtain rfl := Option.some.inj grown
    rfl

/-! ### The two calls -/

section Calls

variable [LinearOrder Cost]

/-- `heap_push`. A push whose allocation fails leaves the heap alone. -/
def heapPush (heap : OpenList Cost) (idx : Nat) (f : Cost) (fresh : List (HeapEntry Cost)) :
    Option (OpenList Cost) :=
  (heap.grow fresh).map fun room =>
    have length := (@Heap.siftUp_perm _ _ _ HeapEntry.f room.val.items room.val.len room.property
      ⟨f, idx⟩).length_eq.trans List.length_set
    { items := Heap.siftUp HeapEntry.f room.val.items room.val.len room.property ⟨f, idx⟩
      len := room.val.len + 1
      fits := length ▸ room.property
      doubled := length ▸ room.val.doubled }

/-- `m`, the child that ranks first among the first `len` slots. -/
def child (items : List (HeapEntry Cost)) (len : Nat) (fits : len ≤ items.length) (i : Nat)
    (more : i * 2 + 1 < len) : Fin items.length :=
  if right : i * 2 + 2 < len then
    if items[i * 2 + 2].f < items[i * 2 + 1].f then ⟨i * 2 + 2, by omega⟩
    else ⟨i * 2 + 1, by omega⟩
  else ⟨i * 2 + 1, by omega⟩

theorem lt_child (items : List (HeapEntry Cost)) (len : Nat) (fits : len ≤ items.length) (i : Nat)
    (more : i * 2 + 1 < len) : i < (child items len fits i more).val := by
  unfold child
  split_ifs <;> simp only <;> omega

/-- The loop of `heap_pop`: the hole at `i` moves down the first `len` slots. -/
def sink (items : List (HeapEntry Cost)) (len : Nat) (fits : len ≤ items.length) (i : Nat)
    (last : HeapEntry Cost) : List (HeapEntry Cost) :=
  if more : i * 2 + 1 < len then
    let m := child items len fits i more
    if last.f ≤ items[m].f then items.set i last
    else sink (items.set i items[m]) len (by rwa [List.length_set]) m last
  else items.set i last
termination_by len - i
decreasing_by
  have := lt_child items len fits i more
  omega

theorem length_sink (items : List (HeapEntry Cost)) (len : Nat) (fits : len ≤ items.length)
    (i : Nat) (last : HeapEntry Cost) : (sink items len fits i last).length = items.length := by
  fun_induction sink items len fits i last with
  | case1 => exact List.length_set
  | case2 items fits i more m late inductionHypothesis =>
    exact inductionHypothesis.trans List.length_set
  | case3 => exact List.length_set

/-- `heap_pop`: the index at the root, and the heap without its entry. -/
def heapPop (heap : OpenList Cost) : Option (Nat × OpenList Cost) :=
  if used : heap.len = 0 then none
  else
    have fits := heap.fits
    have inside : 0 < heap.items.length := by omega
    have lastInside : heap.len - 1 < heap.items.length := by omega
    have length := length_sink heap.items (heap.len - 1) lastInside.le 0 heap.items[heap.len - 1]
    some (heap.items[0].idx,
      { items := sink heap.items (heap.len - 1) lastInside.le 0 heap.items[heap.len - 1]
        len := heap.len - 1
        fits := length ▸ lastInside.le
        doubled := length ▸ heap.doubled })

/-! ### The slots in use -/

/-- What the slot of the hole held before does not matter. -/
theorem siftUp_set (items : List (HeapEntry Cost)) (i : Nat) (inside : i < items.length)
    (held entry : HeapEntry Cost) :
    Heap.siftUp HeapEntry.f (items.set i held) i (by rwa [List.length_set]) entry =
      Heap.siftUp HeapEntry.f items i inside entry := by
  unfold Heap.siftUp
  by_cases isRoot : i = 0
  · rw [if_pos isRoot, if_pos isRoot, List.set_set]
  · have above : (i - 1) / 2 < (items.set i held).length := by
      rw [List.length_set]
      omega
    have parent : (items.set i held)[(i - 1) / 2] = items[(i - 1) / 2] :=
      List.getElem_set_ne (by omega) _
    simp only [if_neg isRoot, parent, List.set_set]

theorem take_siftUp (items : List (HeapEntry Cost)) (i : Nat) (inside : i < items.length)
    (entry : HeapEntry Cost) {len : Nat} (used : i < len) :
    (Heap.siftUp HeapEntry.f items i inside entry).take len =
      Heap.siftUp HeapEntry.f (items.take len) i (by rw [List.length_take]; omega) entry := by
  fun_induction Heap.siftUp HeapEntry.f items i inside entry with
  | case1 items inside =>
    unfold Heap.siftUp
    rw [if_pos rfl, List.take_set]
  | case2 items i inside below early =>
    unfold Heap.siftUp
    rw [if_neg below, if_pos (by rwa [List.getElem_take]), List.take_set]
  | case3 items i inside below late inductionHypothesis =>
    rw [inductionHypothesis (by omega)]
    conv_rhs => rw [Heap.siftUp, if_neg below, if_neg (by rwa [List.getElem_take])]
    simp only [List.take_set, List.getElem_take]

/-- Among the slots in use the child chosen is the one the heap of these slots chooses. -/
theorem lesserChild_take (items : List (HeapEntry Cost)) (len : Nat) (fits : len ≤ items.length)
    (i : Nat) (more : i * 2 + 1 < len) (inside : i * 2 + 1 < (items.take len).length) :
    (Heap.lesserChild HeapEntry.f (items.take len) i inside).val =
      (child items len fits i more).val := by
  have length : (items.take len).length = len := List.length_take_of_le fits
  unfold Heap.lesserChild child
  simp only [length, List.getElem_take]
  split_ifs <;> rfl

theorem take_sink (items : List (HeapEntry Cost)) (len : Nat) (fits : len ≤ items.length) (i : Nat)
    (last : HeapEntry Cost) :
    (sink items len fits i last).take len = Heap.siftDown HeapEntry.f (items.take len) i last := by
  have length (items : List (HeapEntry Cost)) (fits : len ≤ items.length) :
      (items.take len).length = len := List.length_take_of_le fits
  fun_induction sink items len fits i last with
  | case1 items fits i more m early =>
    have same := lesserChild_take items len fits i more (by rwa [length items fits])
    rw [Heap.siftDown, dif_pos (by rwa [length items fits])]
    simp only [Fin.getElem_fin, same, List.getElem_take]
    rw [if_pos (show last.f ≤ items[(child items len fits i more).val].f from early), List.take_set]
  | case2 items fits i more m late inductionHypothesis =>
    have same := lesserChild_take items len fits i more (by rwa [length items fits])
    rw [inductionHypothesis, List.take_set]
    conv_rhs => rw [Heap.siftDown, dif_pos (by rwa [length items fits])]
    simp only [Fin.getElem_fin, same, List.getElem_take]
    rw [if_neg (show ¬ last.f ≤ items[(child items len fits i more).val].f from late)]
  | case3 items fits i last =>
    rw [Heap.siftDown, dif_neg (by rwa [length items fits]), List.take_set]

/-- The slots in use after a push. -/
theorem take_siftUp_end (items : List (HeapEntry Cost)) (len : Nat) (inside : len < items.length)
    (entry : HeapEntry Cost) :
    (Heap.siftUp HeapEntry.f items len inside entry).take (len + 1) =
      Heap.push HeapEntry.f (items.take len) entry := by
  have length : (items.take len).length = len := List.length_take_of_le inside.le
  have slots : (items.take (len + 1)).set len entry = items.take len ++ [entry] := by
    rw [List.take_succ_eq_append_getElem inside, List.set_append_right _ _ length.le, length,
      Nat.sub_self, List.set_cons_zero]
  rw [take_siftUp _ _ _ _ (Nat.lt_succ_self len), ← siftUp_set _ _ _ entry, Heap.push]
  simp only [slots, length]

/-- A push that does not fail does to the slots in use what the heap's own push does. -/
theorem live_heapPush {heap next : OpenList Cost} {idx : Nat} {f : Cost}
    {fresh : List (HeapEntry Cost)} (pushed : heap.heapPush idx f fresh = some next) :
    next.live = Fleece.heapPush heap.live idx f := by
  obtain ⟨room, grown, rfl⟩ := Option.map_eq_some_iff.mp pushed
  rw [Fleece.heapPush, ← live_grow grown]
  exact take_siftUp_end _ _ room.property _

theorem pop_eq_some {entries : List (HeapEntry Cost)} (occupied : entries ≠ []) :
    Heap.pop HeapEntry.f entries = some (entries.head occupied,
      Heap.siftDown HeapEntry.f entries.dropLast 0 (entries.getLast occupied)) := by
  cases entries with
  | nil => exact absurd rfl occupied
  | cons first rest => rfl

/-- A pop does to the slots in use what the heap's own pop does, and reports the index it finds at
the root. -/
theorem live_heapPop (heap : OpenList Cost) :
    heap.heapPop.map (fun popped => (popped.1, popped.2.live)) =
      (Fleece.heapPop heap.live).map fun popped => (popped.1.idx, popped.2) := by
  have length := heap.length_live
  unfold heapPop
  split_ifs with used
  · rw [List.length_eq_zero_iff.mp (length.trans used)]
    rfl
  · have fits := heap.fits
    have occupied : heap.live ≠ [] := fun none => used (length ▸ none ▸ rfl)
    have last : heap.live.getLast occupied = heap.items[heap.len - 1] := by
      rw [List.getLast_eq_getElem]
      simp only [length]
      exact List.getElem_take
    have front : heap.live.dropLast = heap.items.take (heap.len - 1) := by
      rw [List.dropLast_eq_take, length, live, List.take_take, Nat.min_eq_left (Nat.sub_le _ _)]
    have root : heap.live.head occupied = heap.items[0] := by
      rw [List.head_eq_getElem]
      exact List.getElem_take
    rw [Fleece.heapPop, pop_eq_some occupied, last, front, root, Option.map_some, Option.map_some,
      live, take_sink]

end Calls
end OpenList

/-! ### Sequences of calls -/

section Runs

variable [LinearOrder Cost]

/-- A call of `heap_push`, with the entries that `realloc` may add, or one of `heap_pop`. -/
inductive OpenCall (Cost : Type) where
  | push (idx : Nat) (f : Cost) (fresh : List (HeapEntry Cost))
  | pop

/-- The open list with what was pushed into it and what was popped. -/
structure OpenRun (Cost : Type) where
  heap : OpenList Cost
  pushed : List (HeapEntry Cost)
  popped : List (HeapEntry Cost)

namespace OpenRun

/-- The open list before the first call. -/
def start : OpenRun Cost := ⟨.empty, [], []⟩

/-- What a call does to the open list, and to what was pushed and popped. -/
def step (run : OpenRun Cost) : OpenCall Cost → OpenRun Cost
  | .push idx f fresh =>
    match run.heap.heapPush idx f fresh with
    | none => run
    | some heap => { run with heap := heap, pushed := ⟨f, idx⟩ :: run.pushed }
  | .pop =>
    match run.heap.heapPop with
    | none => run
    | some (_, heap) => { run with heap := heap, popped := run.heap.live.head?.toList ++ run.popped }

/-- The heap order, and the entries as those pushed without those popped. -/
structure Queue (run : OpenRun Cost) : Prop where
  ordered : Heap.Ordered HeapEntry.f run.heap.live
  entries : (run.pushed : Multiset (HeapEntry Cost)) = run.popped + run.heap.live

/-- What a pop takes from the slots in use. -/
theorem heapPop_spec {heap next : OpenList Cost} {idx : Nat}
    (popped : heap.heapPop = some (idx, next)) :
    ∃ entry, entry ∈ heap.live.head? ∧ entry.idx = idx ∧
      Fleece.heapPop heap.live = some (entry, next.live) := by
  have live := heap.live_heapPop
  rw [popped, Option.map_some] at live
  obtain ⟨⟨entry, rest⟩, taken, same⟩ := Option.map_eq_some_iff.mp live.symm
  have index : entry.idx = idx := congrArg Prod.fst same
  have left : rest = next.live := congrArg Prod.snd same
  refine ⟨entry, ?_, index, left ▸ taken⟩
  clear live left
  cases slots : heap.live with
  | nil =>
    rw [slots] at taken
    cases taken
  | cons first rest =>
    rw [slots] at taken
    exact congrArg (some ·.1) (Option.some.inj taken)

theorem Queue.step {run : OpenRun Cost} (queue : run.Queue) (call : OpenCall Cost) :
    (run.step call).Queue := by
  cases call with
  | push idx f fresh =>
    rw [OpenRun.step]
    cases pushed : run.heap.heapPush idx f fresh with
    | none => exact queue
    | some heap =>
      have live := OpenList.live_heapPush pushed
      constructor
      · simp only [live]
        exact Heap.push_ordered queue.ordered _
      · have entries := Multiset.coe_eq_coe.mpr
          (@Heap.push_perm _ _ _ HeapEntry.f run.heap.live ⟨f, idx⟩)
        simp only [live, Fleece.heapPush, entries]
        rw [← Multiset.cons_coe, ← Multiset.cons_coe, queue.entries, Multiset.add_cons]
  | pop =>
    rw [OpenRun.step]
    cases popped : run.heap.heapPop with
    | none => exact queue
    | some answer =>
      obtain ⟨entry, root, -, taken⟩ := heapPop_spec popped
      constructor
      · exact Heap.pop_ordered queue.ordered taken
      · have entries := Multiset.coe_eq_coe.mpr (Heap.pop_perm taken)
        simp only [Option.mem_def.mp root, Option.toList_some, List.singleton_append]
        rw [queue.entries, entries, ← Multiset.cons_coe, ← Multiset.cons_coe, Multiset.add_cons,
          Multiset.cons_add]

end OpenRun
end Runs
end Fleece
