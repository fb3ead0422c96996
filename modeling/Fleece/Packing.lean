/-
This file says what the sort, the packing loop and the clamp of the bounded export
do. The rows are sorted by export time and timestamp. The loop takes them from the
front until one does not fit, so its final state is the one that taking exactly
these rows leads to: their slots are marked with the clock and nothing else is,
their number is counted, and the largest of their timestamps is kept. The watermark
is then below every row that was left over.
-/

import Fleece.Effects

namespace Fleece

/-! ### The sort -/

theorem insertSorted_perm (entry : Eligible) (sorted : List Eligible) :
    (insertSorted entry sorted).Perm (entry :: sorted) := by
  induction sorted with
  | nil => exact .refl _
  | cons last before inductionHypothesis =>
    unfold insertSorted
    split_ifs
    · exact (inductionHypothesis.cons last).trans (.swap entry last before)
    · exact .refl _

theorem sortEligible_perm (eligible : List Eligible) : (sortEligible eligible).Perm eligible := by
  have sorted (rows sorted : List Eligible) :
      (rows.foldl (fun sorted entry => insertSorted entry sorted) sorted).Perm
        (rows.reverse ++ sorted) := by
    induction rows generalizing sorted with
    | nil => exact .refl _
    | cons entry rest inductionHypothesis =>
      rw [List.foldl_cons, List.reverse_cons, List.append_assoc]
      exact (inductionHypothesis _).trans ((insertSorted_perm entry sorted).append_left _)
  unfold sortEligible
  refine (List.reverse_perm _).trans ((sorted eligible []).trans ?_)
  rw [List.append_nil]
  exact List.reverse_perm _

/-- The order of the sort. -/
def Eligible.rank (entry : Eligible) : ℕ ×ₗ ℕ :=
  toLex (entry.exportTs.toNat, entry.timestamp.toNat)

theorem Eligible.after_iff {first second : Eligible} :
    first.after second = true ↔ second.rank < first.rank := by
  unfold Eligible.after Eligible.rank
  rw [Bool.or_eq_true, Bool.and_eq_true, decide_eq_true_iff, decide_eq_true_iff, beq_iff_eq,
    Prod.Lex.toLex_lt_toLex, gt_iff_lt, gt_iff_lt, UInt64.lt_iff_toNat_lt, UInt64.lt_iff_toNat_lt,
    ← UInt64.toNat_inj, eq_comm]

theorem Eligible.rank_le_iff {first second : Eligible} (same : first.exportTs = second.exportTs) :
    first.rank ≤ second.rank ↔ first.timestamp ≤ second.timestamp := by
  unfold Eligible.rank
  rw [Prod.Lex.toLex_le_toLex, same, UInt64.le_iff_toNat_le, eq_self, true_and]
  exact or_iff_right (Nat.lt_irrefl _)

theorem Eligible.exportTs_le {first second : Eligible} (ranked : first.rank ≤ second.rank) :
    first.exportTs ≤ second.exportTs := by
  unfold Eligible.rank at ranked
  rw [UInt64.le_iff_toNat_le]
  rcases Prod.Lex.toLex_le_toLex.mp ranked with below | ⟨same, _⟩
  · exact below.le
  · exact same.le

theorem insertSorted_sorted {entry : Eligible} {sorted : List Eligible}
    (descending : sorted.Pairwise fun first second => second.rank ≤ first.rank) :
    (insertSorted entry sorted).Pairwise fun first second => second.rank ≤ first.rank := by
  induction sorted with
  | nil => exact List.pairwise_singleton _ _
  | cons last before inductionHypothesis =>
    obtain ⟨above, rest⟩ := List.pairwise_cons.mp descending
    unfold insertSorted
    split_ifs with isAfter
    · refine List.pairwise_cons.mpr ⟨fun other member => ?_, inductionHypothesis rest⟩
      rcases List.mem_cons.mp ((insertSorted_perm entry before).mem_iff.mp member) with rfl | held
      · exact (Eligible.after_iff.mp isAfter).le
      · exact above other held
    · have below : last.rank ≤ entry.rank := not_lt.mp (isAfter ∘ Eligible.after_iff.mpr)
      refine List.pairwise_cons.mpr ⟨fun other member => ?_, descending⟩
      rcases List.mem_cons.mp member with rfl | held
      · exact below
      · exact (above other held).trans below

/-- The rows come out in ascending order. -/
theorem sortEligible_sorted (eligible : List Eligible) :
    (sortEligible eligible).Pairwise fun first second => first.rank ≤ second.rank := by
  have sorted (rows sorted : List Eligible)
      (descending : sorted.Pairwise fun first second => second.rank ≤ first.rank) :
      (rows.foldl (fun sorted entry => insertSorted entry sorted) sorted).Pairwise
        fun first second => second.rank ≤ first.rank := by
    induction rows generalizing sorted with
    | nil => exact descending
    | cons entry rest inductionHypothesis =>
      exact inductionHypothesis _ (insertSorted_sorted descending)
  exact List.pairwise_reverse.mpr (sorted eligible [] .nil)

/-! ### The rows that are taken -/

/-- The loop takes the rows before those it leaves, one after another. -/
theorem pack_split (clock : UInt64) (capBytes : Nat) (state : Packing) (rows : List Eligible) :
    ∃ taken, rows = taken ++ (pack clock capBytes state rows).2 ∧
      (pack clock capBytes state rows).1 = taken.foldl (Packing.push clock) state := by
  induction rows generalizing state with
  | nil => exact ⟨[], rfl, rfl⟩
  | cons entry rest inductionHypothesis =>
    unfold pack
    split_ifs
    · exact ⟨[], rfl, rfl⟩
    · obtain ⟨taken, split, final⟩ := inductionHypothesis (state.push clock entry)
      exact ⟨entry :: taken, congrArg (List.cons entry) split, final⟩

section Push

variable (clock : UInt64) (taken : List Eligible) (state : Packing)

theorem count_foldl_push :
    (taken.foldl (Packing.push clock) state).count = state.count + taken.length := by
  induction taken generalizing state with
  | nil => rfl
  | cons entry rest inductionHypothesis =>
    rw [List.foldl_cons, inductionHypothesis, List.length_cons]
    show state.count + 1 + rest.length = _
    omega

theorem take_foldl_push (i : Fin fieldCapacity) :
    (taken.foldl (Packing.push clock) state).take i = true ↔
      state.take i = true ∨ i ∈ taken.map Eligible.index := by
  induction taken generalizing state with
  | nil => exact (or_iff_left List.not_mem_nil).symm
  | cons entry rest inductionHypothesis =>
    rw [List.foldl_cons, inductionHypothesis, List.map_cons, List.mem_cons, ← or_assoc]
    refine or_congr_left ?_
    show Function.update state.take entry.index true i = true ↔ _
    rcases eq_or_ne i entry.index with rfl | different
    · rw [Function.update_self]
      exact iff_of_true rfl (Or.inr rfl)
    · rw [Function.update_of_ne different]
      exact (or_iff_left different).symm

theorem fields_push (entry : Eligible) (i : Fin fieldCapacity) :
    (state.push clock entry).fields i =
      if i = entry.index then { state.fields i with lastExportTs := clock } else state.fields i := by
  show Function.update state.fields entry.index _ i = _
  rcases eq_or_ne i entry.index with rfl | different
  · rw [Function.update_self, if_pos rfl]
  · rw [Function.update_of_ne different, if_neg different]

/-- The slots of the rows that are taken are marked, and no others. -/
theorem fields_foldl_push (i : Fin fieldCapacity) :
    (taken.foldl (Packing.push clock) state).fields i =
      if i ∈ taken.map Eligible.index then { state.fields i with lastExportTs := clock }
      else state.fields i := by
  induction taken generalizing state with
  | nil => rfl
  | cons entry rest inductionHypothesis =>
    rw [List.foldl_cons, inductionHypothesis, fields_push, List.map_cons]
    by_cases here : i = entry.index
    · rw [if_pos here, if_pos (List.mem_cons.mpr (Or.inl here))]
      split_ifs <;> rfl
    · rw [if_neg here]
      exact if_congr (by rw [List.mem_cons, or_iff_right here]) rfl rfl

theorem recordSize_push (entry : Eligible) (i : Fin fieldCapacity) :
    recordSize ((state.push clock entry).fields i) = recordSize (state.fields i) := by
  rw [fields_push]
  split_ifs <;> rfl

theorem timestamp_push (entry : Eligible) (i : Fin fieldCapacity) :
    ((state.push clock entry).fields i).timestamp = (state.fields i).timestamp := by
  rw [fields_push]
  split_ifs <;> rfl

theorem body_foldl_push :
    (taken.foldl (Packing.push clock) state).body =
      state.body + (taken.map fun entry => recordSize (state.fields entry.index)).sum := by
  induction taken generalizing state with
  | nil => rfl
  | cons entry rest inductionHypothesis =>
    rw [List.foldl_cons, inductionHypothesis, List.map_cons, List.sum_cons, ← Nat.add_assoc]
    simp only [recordSize_push]
    rfl

/-- The largest timestamp is at least the one before and each of those taken. -/
theorem le_maxTs_foldl_push :
    state.maxTs ≤ (taken.foldl (Packing.push clock) state).maxTs ∧
      ∀ entry ∈ taken, (state.fields entry.index).timestamp ≤
        (taken.foldl (Packing.push clock) state).maxTs := by
  induction taken generalizing state with
  | nil => exact ⟨UInt64.le_refl _, fun _ member => absurd member List.not_mem_nil⟩
  | cons entry rest inductionHypothesis =>
    obtain ⟨before, each⟩ := inductionHypothesis (state.push clock entry)
    have here : state.maxTs ≤ (state.push clock entry).maxTs ∧
        (state.fields entry.index).timestamp ≤ (state.push clock entry).maxTs := by
      simp only [Packing.push]
      split_ifs with above
      · exact ⟨UInt64.le_of_lt above, UInt64.le_refl _⟩
      · exact ⟨UInt64.le_refl _, UInt64.not_lt.mp above⟩
    rw [List.foldl_cons]
    refine ⟨UInt64.le_trans here.1 before, fun other member => ?_⟩
    rcases List.mem_cons.mp member with rfl | later
    · exact UInt64.le_trans here.2 before
    · have stamp := each other later
      rwa [timestamp_push] at stamp

/-- The largest timestamp is the one before or one of those taken. -/
theorem maxTs_foldl_push :
    (taken.foldl (Packing.push clock) state).maxTs = state.maxTs ∨
      ∃ entry ∈ taken, (taken.foldl (Packing.push clock) state).maxTs =
        (state.fields entry.index).timestamp := by
  induction taken generalizing state with
  | nil => exact Or.inl rfl
  | cons entry rest inductionHypothesis =>
    rw [List.foldl_cons]
    rcases inductionHypothesis (state.push clock entry) with same | ⟨other, member, same⟩
    · rw [same]
      simp only [Packing.push]
      split_ifs
      · exact Or.inr ⟨entry, List.mem_cons_self, rfl⟩
      · exact Or.inl rfl
    · rw [timestamp_push] at same
      exact Or.inr ⟨other, List.mem_cons_of_mem _ member, same⟩

end Push

section Frame

variable {clock : UInt64} {capBytes : Nat} {state : Packing}

/-- The loop stops at a row that does not fit, and not before it has taken one. -/
theorem pack_stops {rows rest : List Eligible} {entry : Eligible}
    (stopped : (pack clock capBytes state rows).2 = entry :: rest) :
    0 < (pack clock capBytes state rows).1.count ∧
      capBytes < (pack clock capBytes state rows).1.body +
        recordSize ((pack clock capBytes state rows).1.fields entry.index) := by
  induction rows generalizing state with
  | nil => cases stopped
  | cons row later inductionHypothesis =>
    unfold pack at stopped ⊢
    split_ifs at stopped ⊢ with tooLarge
    · obtain ⟨rfl, rfl⟩ := List.cons.inj stopped
      exact tooLarge
    · exact inductionHypothesis stopped

/-- A frame of more than one row is no larger than the cap. -/
theorem pack_body_le (rows : List Eligible) (start : state.count ≤ 1 ∨ state.body ≤ capBytes) :
    (pack clock capBytes state rows).1.count ≤ 1 ∨
      (pack clock capBytes state rows).1.body ≤ capBytes := by
  induction rows generalizing state with
  | nil => exact start
  | cons entry rest inductionHypothesis =>
    unfold pack
    split_ifs with tooLarge
    · exact start
    · refine inductionHypothesis ?_
      rcases Nat.eq_zero_or_pos state.count with empty | some
      · exact Or.inl (Nat.le_of_eq (congrArg (· + 1) empty))
      · exact Or.inr (not_lt.mp fun above => tooLarge ⟨some, above⟩)

end Frame

/-! ### The watermark -/

theorem le_clockMax (value : UInt64) : value ≤ clockMax :=
  UInt64.le_iff_toNat_le.mpr (Nat.le_of_lt_succ value.toNat_lt)

theorem sub_one_lt_self {value : UInt64} (positive : value ≠ 0) : value - 1 < value := by
  grind

theorem le_sub_one_of_lt {low value : UInt64} (above : low < value) : low ≤ value - 1 := by
  grind

section Watermark

variable {leftover : List Eligible}

theorem leftoverMinTs_cases (leftover : List Eligible) :
    (∀ entry ∈ leftover, leftoverMinTs leftover ≤ entry.timestamp) ∧
      (leftoverMinTs leftover = 0xFFFFFFFFFFFFFFFF ∨
        ∃ entry ∈ leftover, leftoverMinTs leftover = entry.timestamp) := by
  have loop (rows : List Eligible) (least : UInt64) :
      let final := rows.foldl (fun least entry =>
        if entry.timestamp < least then entry.timestamp else least) least
      final ≤ least ∧ (∀ entry ∈ rows, final ≤ entry.timestamp) ∧
        (final = least ∨ ∃ entry ∈ rows, final = entry.timestamp) := by
    induction rows generalizing least with
    | nil => exact ⟨UInt64.le_refl _, fun _ absent => absurd absent List.not_mem_nil, Or.inl rfl⟩
    | cons entry rest inductionHypothesis =>
      obtain ⟨below, each, attained⟩ := inductionHypothesis
        (if entry.timestamp < least then entry.timestamp else least)
      rw [List.foldl_cons]
      split_ifs at below each attained ⊢ with lower
      · refine ⟨UInt64.le_trans below (UInt64.le_of_lt lower), fun other member => ?_, Or.inr ?_⟩
        · rcases List.mem_cons.mp member with rfl | later
          · exact below
          · exact each other later
        · rcases attained with same | ⟨other, member, same⟩
          · exact ⟨entry, List.mem_cons_self, same⟩
          · exact ⟨other, List.mem_cons_of_mem _ member, same⟩
      · refine ⟨below, fun other member => ?_, ?_⟩
        · rcases List.mem_cons.mp member with rfl | later
          · exact UInt64.le_trans below (UInt64.not_lt.mp lower)
          · exact each other later
        · rcases attained with same | ⟨other, member, same⟩
          · exact Or.inl same
          · exact Or.inr ⟨other, List.mem_cons_of_mem _ member, same⟩
  exact (loop leftover 0xFFFFFFFFFFFFFFFF).2

theorem clampWatermark_le (maxTs : UInt64) (leftover : List Eligible) :
    clampWatermark maxTs leftover ≤ maxTs := by
  unfold clampWatermark
  split_ifs with clamped
  · exact UInt64.le_of_lt clamped.2
  · exact UInt64.le_refl _

/-- The watermark is below every row that is left over, as long as their timestamps are below the
value the minimum starts from. -/
theorem clampWatermark_lt (maxTs : UInt64) {since : UInt64}
    (eligible : ∀ entry ∈ leftover, since < entry.timestamp)
    (small : ∀ entry ∈ leftover, entry.timestamp ≠ clockMax) {entry : Eligible}
    (member : entry ∈ leftover) : clampWatermark maxTs leftover < entry.timestamp := by
  obtain ⟨least, attained⟩ := leftoverMinTs_cases leftover
  have below := least entry member
  rcases attained with none | ⟨lowest, isLeft, same⟩
  · rw [none] at below
    exact absurd (UInt64.le_antisymm (le_clockMax _) below) (small entry member)
  · have positive : leftoverMinTs leftover ≠ 0 := fun zero =>
      UInt64.not_lt_zero (zero ▸ same ▸ eligible lowest isLeft)
    have under := UInt64.lt_of_lt_of_le (sub_one_lt_self positive) below
    unfold clampWatermark
    split_ifs with clamped
    · exact under
    · have notMax : leftoverMinTs leftover ≠ 0xFFFFFFFFFFFFFFFF := same ▸ small lowest isLeft
      exact UInt64.lt_of_le_of_lt (UInt64.not_lt.mp fun above => clamped ⟨notMax, above⟩) under

/-- The watermark does not go back behind the one the export started from. -/
theorem le_clampWatermark {low maxTs : UInt64} (eligible : ∀ entry ∈ leftover, low < entry.timestamp)
    (some : low ≤ maxTs) : low ≤ clampWatermark maxTs leftover := by
  obtain ⟨least, attained⟩ := leftoverMinTs_cases leftover
  unfold clampWatermark
  split_ifs with clamped
  · rcases attained with none | ⟨entry, member, same⟩
    · exact absurd none clamped.1
    · rw [same]
      exact le_sub_one_of_lt (eligible entry member)
  · exact some

end Watermark

namespace FleeceStateManager

/-! ### The bounded export -/

theorem map_index_collectEligible (manager : FleeceStateManager) (since : UInt64) :
    (manager.collectEligible since).map Eligible.index = (List.finRange fieldCapacity).filter
      fun i => isExported sharedOwnerId since (manager.fields i) := by
  unfold collectEligible
  rw [List.map_map]
  exact List.map_id _

/-- The rows are the records since the watermark, with their export time and timestamp. -/
theorem mem_collectEligible {manager : FleeceStateManager} {since : UInt64} {entry : Eligible} :
    entry ∈ manager.collectEligible since ↔
      isExported sharedOwnerId since (manager.fields entry.index) = true ∧
        entry.exportTs = (manager.fields entry.index).lastExportTs ∧
        entry.timestamp = (manager.fields entry.index).timestamp := by
  unfold collectEligible
  rw [List.mem_map]
  constructor
  · rintro ⟨i, member, rfl⟩
    exact ⟨(List.mem_filter.mp member).2, rfl, rfl⟩
  · rintro ⟨exported, exportTs, timestamp⟩
    refine ⟨entry.index, List.mem_filter.mpr ⟨List.mem_finRange _, exported⟩, ?_⟩
    rw [← exportTs, ← timestamp]

/-- The rows the bounded export takes. -/
theorem packShared_split (manager : FleeceStateManager) (since : UInt64) (capBytes : Nat) :
    ∃ taken, sortEligible (manager.collectEligible since) =
        taken ++ (manager.packShared since capBytes).2 ∧
      (manager.packShared since capBytes).1 =
        taken.foldl (Packing.push manager.localTimestamp) manager.startPacking :=
  pack_split manager.localTimestamp capBytes manager.startPacking _

/-- The indices of the slots the bounded export writes, in slot order. -/
def takenSlots (manager : FleeceStateManager) (since : UInt64) (capBytes : Nat) :
    List (Fin fieldCapacity) :=
  (List.finRange fieldCapacity).filter fun i => (manager.packShared since capBytes).1.take i

theorem nodup_takenSlots (manager : FleeceStateManager) (since : UInt64) (capBytes : Nat) :
    (manager.takenSlots since capBytes).Nodup := (List.nodup_finRange _).filter _

/-- Every slot has one row at most. -/
theorem nodup_rows (manager : FleeceStateManager) (since : UInt64) :
    ((sortEligible (manager.collectEligible since)).map Eligible.index).Nodup := by
  rw [((sortEligible_perm _).map _).nodup_iff, map_index_collectEligible]
  exact (List.nodup_finRange _).filter _

/-- The rows that are taken and the slots that are written are the same. -/
theorem takenSlots_perm (manager : FleeceStateManager) (since : UInt64) (capBytes : Nat)
    {taken : List Eligible}
    (split : sortEligible (manager.collectEligible since) =
      taken ++ (manager.packShared since capBytes).2)
    (final : (manager.packShared since capBytes).1 =
      taken.foldl (Packing.push manager.localTimestamp) manager.startPacking) :
    (manager.takenSlots since capBytes).Perm (taken.map Eligible.index) := by
  have distinct : (taken.map Eligible.index).Nodup := by
    have all := nodup_rows manager since
    rw [split, List.map_append] at all
    exact (List.nodup_append.mp all).1
  refine (List.perm_ext_iff_of_nodup (nodup_takenSlots manager since capBytes) distinct).mpr
    fun i => ?_
  rw [takenSlots, List.mem_filter, final, take_foldl_push, and_iff_right (List.mem_finRange i)]
  exact or_iff_right Bool.false_ne_true

theorem length_takenSlots (manager : FleeceStateManager) (since : UInt64) (capBytes : Nat) :
    (manager.takenSlots since capBytes).length = (manager.packShared since capBytes).1.count := by
  obtain ⟨taken, split, final⟩ := manager.packShared_split since capBytes
  rw [(takenSlots_perm manager since capBytes split final).length_eq, List.length_map, final,
    count_foldl_push]
  exact (Nat.zero_add _).symm

theorem isExported_of_mem_takenSlots {manager : FleeceStateManager} {since : UInt64}
    {capBytes : Nat} {i : Fin fieldCapacity} (member : i ∈ manager.takenSlots since capBytes) :
    isExported sharedOwnerId since (manager.fields i) = true := by
  obtain ⟨taken, split, final⟩ := manager.packShared_split since capBytes
  rw [(takenSlots_perm manager since capBytes split final).mem_iff, List.mem_map] at member
  obtain ⟨entry, taken, rfl⟩ := member
  have row : entry ∈ manager.collectEligible since := by
    rw [← (sortEligible_perm _).mem_iff, split]
    exact List.mem_append_left _ taken
  exact (mem_collectEligible.mp row).1

/-- What holds of every exported slot takes no slot away from a pass over the taken ones. -/
theorem filter_and_take {manager : FleeceStateManager} {since : UInt64} {capBytes : Nat}
    {keep : Fin fieldCapacity → Bool}
    (keeps : ∀ i, isExported sharedOwnerId since (manager.fields i) = true → keep i = true) :
    ((List.finRange fieldCapacity).filter fun i =>
      keep i && (manager.packShared since capBytes).1.take i) =
      manager.takenSlots since capBytes := by
  refine List.filter_congr fun i member => ?_
  cases took : (manager.packShared since capBytes).1.take i with
  | false => exact Bool.and_false _
  | true =>
    have exported := isExported_of_mem_takenSlots (List.mem_filter.mpr ⟨member, took⟩)
    rw [Bool.and_true, keeps i exported]

theorem lt_of_isExported {owner since : UInt64} {f : FieldEntry}
    (exported : isExported owner since f = true) : since < f.timestamp := by
  rw [isExported, Bool.and_eq_true, Bool.not_eq_true', decide_eq_false_iff_not] at exported
  exact UInt64.not_le.mp exported.2

theorem isExported_mono {owner since later : UInt64} {f : FieldEntry} (earlier : since ≤ later)
    (exported : isExported owner later f = true) : isExported owner since f = true := by
  have above := UInt64.lt_of_le_of_lt earlier (lt_of_isExported exported)
  rw [isExported, Bool.and_eq_true] at exported ⊢
  rw [Bool.not_eq_true', decide_eq_false_iff_not, UInt64.not_le]
  exact ⟨exported.1, above⟩

section Rows

variable {manager : FleeceStateManager} {since : UInt64} {capBytes : Nat}

/-- The rows left over are records since the watermark. -/
theorem isExported_of_leftover {entry : Eligible}
    (left : entry ∈ (manager.packShared since capBytes).2) :
    isExported sharedOwnerId since (manager.fields entry.index) = true ∧
      entry.timestamp = (manager.fields entry.index).timestamp := by
  obtain ⟨taken, split, _⟩ := manager.packShared_split since capBytes
  have row : entry ∈ manager.collectEligible since := by
    rw [← (sortEligible_perm _).mem_iff, split]
    exact List.mem_append_right _ left
  obtain ⟨exported, _, stamp⟩ := mem_collectEligible.mp row
  exact ⟨exported, stamp⟩

theorem lt_of_leftover {entry : Eligible} (left : entry ∈ (manager.packShared since capBytes).2) :
    since < entry.timestamp := by
  obtain ⟨exported, stamp⟩ := isExported_of_leftover left
  rw [stamp]
  exact lt_of_isExported exported

/-- A record since the old watermark that the new one has passed was taken, where no record has
the largest timestamp. -/
theorem mem_takenSlots_of_le
    (small : ∀ i, isExported sharedOwnerId since (manager.fields i) = true →
      (manager.fields i).timestamp ≠ clockMax)
    {i : Fin fieldCapacity} (exported : isExported sharedOwnerId since (manager.fields i) = true)
    (passed : (manager.fields i).timestamp ≤
      (manager.exportSharedDeltaBounded since capBytes).includedMaxTs) :
    i ∈ manager.takenSlots since capBytes := by
  obtain ⟨taken, split, final⟩ := manager.packShared_split since capBytes
  have row : Eligible.mk i (manager.fields i).lastExportTs (manager.fields i).timestamp ∈
      taken ++ (manager.packShared since capBytes).2 := by
    rw [← split, (sortEligible_perm _).mem_iff]
    exact mem_collectEligible.mpr ⟨exported, rfl, rfl⟩
  rw [(takenSlots_perm manager since capBytes split final).mem_iff, List.mem_map]
  rcases List.mem_append.mp row with isTaken | isLeft
  · exact ⟨_, isTaken, rfl⟩
  · have above := clampWatermark_lt (manager.packShared since capBytes).1.maxTs
      (fun _ => lt_of_leftover) (fun entry member => ?_) isLeft
    · exact absurd passed (UInt64.not_le.mpr above)
    · obtain ⟨isExported, stamp⟩ := isExported_of_leftover member
      rw [stamp]
      exact small _ isExported

/-- The watermark is no later than some record since the old one, if there is one at all. -/
theorem includedMaxTs_le (manager : FleeceStateManager) (since : UInt64) (capBytes : Nat) :
    (manager.exportSharedDeltaBounded since capBytes).includedMaxTs = 0 ∨
      ∃ i, isExported sharedOwnerId since (manager.fields i) = true ∧
        (manager.exportSharedDeltaBounded since capBytes).includedMaxTs ≤
          (manager.fields i).timestamp := by
  obtain ⟨taken, split, final⟩ := manager.packShared_split since capBytes
  have clamped : (manager.exportSharedDeltaBounded since capBytes).includedMaxTs ≤
      (manager.packShared since capBytes).1.maxTs := clampWatermark_le _ _
  rw [final] at clamped
  rcases maxTs_foldl_push manager.localTimestamp taken manager.startPacking with
    zero | ⟨entry, member, same⟩
  · rw [zero] at clamped
    exact Or.inl (UInt64.le_antisymm clamped UInt64.zero_le)
  · have row : entry ∈ manager.collectEligible since := by
      rw [← (sortEligible_perm _).mem_iff, split]
      exact List.mem_append_left _ member
    rw [same] at clamped
    exact Or.inr ⟨entry.index, (mem_collectEligible.mp row).1, clamped⟩

end Rows

end FleeceStateManager

end Fleece
