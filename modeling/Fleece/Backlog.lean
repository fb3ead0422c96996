/-
This file is about the backlog of the gossip loop. Each round sends one bounded
frame of the records above the watermark and moves the watermark to what the frame
reports. A round takes a record that was not yet sent under the present clock, or
else, once there is none, the records of the lowest timestamp: the watermark moves
past these when they all fit one frame, and stays below them for ever when they do
not. So the backlog drains exactly when the records of each timestamp fit a frame
together, or there is only one of them.
-/

import Fleece.Packing
import Fleece.Runtime
import Fleece.History

namespace Fleece

namespace FleeceStateManager

/-! ### The loop -/

/-- One frame of the gossip loop: the store it leaves and the watermark it reports. -/
def gossipRound (state : FleeceStateManager × UInt64) : FleeceStateManager × UInt64 :=
  let exported := state.1.exportSharedDeltaBounded state.2 gossipFrameBytes
  (exported.manager, exported.includedMaxTs)

/-- The loop `while (count_new_shared(since) > 0)` with no writes and no merges, for a number of
frames at most. -/
def drain : Nat → FleeceStateManager × UInt64 → FleeceStateManager × UInt64
  | 0, state => state
  | rounds + 1, state =>
    if state.1.countNewShared state.2 > 0 then drain rounds (gossipRound state) else state

/-- The loop stops. -/
def Drains (manager : FleeceStateManager) (since : UInt64) : Prop :=
  ∃ rounds, (drain rounds (manager, since)).1.countNewShared (drain rounds (manager, since)).2 = 0

/-- A shared record with a timestamp. -/
def isSharedAt (timestamp : UInt64) (f : FieldEntry) : Bool :=
  f.slotExists && f.nodeId == sharedOwnerId && f.isNamed && f.timestamp == timestamp

/-- The slots of the shared records with one timestamp. -/
def sharedAt (manager : FleeceStateManager) (timestamp : UInt64) : Finset (Fin fieldCapacity) :=
  Finset.univ.filter fun i => isSharedAt timestamp (manager.fields i) = true

/-- Above the watermark, the records of each timestamp fit one frame, unless there is only one. -/
def TiesFit (manager : FleeceStateManager) (since : UInt64) : Prop :=
  ∀ timestamp, since < timestamp → (manager.sharedAt timestamp).card ≤ 1 ∨
    manager.boundedHeaderSize +
      ∑ i ∈ manager.sharedAt timestamp, recordSize (manager.fields i) ≤ gossipFrameBytes

/-- The slots of the records above the watermark. -/
def pending (manager : FleeceStateManager) (since : UInt64) : Finset (Fin fieldCapacity) :=
  Finset.univ.filter fun i => isExported sharedOwnerId since (manager.fields i) = true

/-- Those that were not yet sent under the present clock. -/
def unsent (manager : FleeceStateManager) (since : UInt64) : Finset (Fin fieldCapacity) :=
  (manager.pending since).filter fun i => (manager.fields i).lastExportTs ≠ manager.localTimestamp

theorem mem_pending {manager : FleeceStateManager} {since : UInt64} {i : Fin fieldCapacity} :
    i ∈ manager.pending since ↔ isExported sharedOwnerId since (manager.fields i) = true := by
  rw [pending, Finset.mem_filter, and_iff_right (Finset.mem_univ i)]

theorem card_pending (manager : FleeceStateManager) (since : UInt64) :
    (manager.pending since).card = manager.countNewShared since := by
  have listed : manager.slots = (List.finRange fieldCapacity).map manager.fields :=
    List.ofFn_eq_map
  have indices : manager.pending since = ((List.finRange fieldCapacity).filter fun i =>
      isExported sharedOwnerId since (manager.fields i)).toFinset := by
    ext i
    rw [mem_pending, List.mem_toFinset, List.mem_filter, and_iff_right (List.mem_finRange i)]
  rw [indices, List.toFinset_card_of_nodup ((List.nodup_finRange _).filter _), countNewShared,
    listed, List.filter_map, List.length_map]
  rfl

theorem mem_sharedAt {manager : FleeceStateManager} {since timestamp : UInt64}
    (above : since < timestamp) {i : Fin fieldCapacity} : i ∈ manager.sharedAt timestamp ↔
      i ∈ manager.pending since ∧ (manager.fields i).timestamp = timestamp := by
  rw [sharedAt, Finset.mem_filter, and_iff_right (Finset.mem_univ i), mem_pending, isSharedAt,
    isExported, Bool.and_eq_true, Bool.and_eq_true _ (!_), beq_iff_eq, Bool.not_eq_true',
    decide_eq_false_iff_not, UInt64.not_le]
  constructor
  · rintro ⟨shared, rfl⟩
    exact ⟨⟨shared, above⟩, rfl⟩
  · rintro ⟨⟨shared, _⟩, stamp⟩
    exact ⟨shared, stamp⟩

/-! ### One round -/

section Round

variable {manager : FleeceStateManager} {since : UInt64}

/-- A bounded export marks the slots it takes with the clock and leaves the rest of the store
alone. -/
theorem fields_exportSharedDeltaBounded (manager : FleeceStateManager) (since : UInt64)
    (capBytes : Nat) (i : Fin fieldCapacity) :
    (manager.exportSharedDeltaBounded since capBytes).manager.fields i =
      if i ∈ manager.takenSlots since capBytes then
        { manager.fields i with lastExportTs := manager.localTimestamp }
      else manager.fields i := by
  obtain ⟨taken, split, final⟩ := manager.packShared_split since capBytes
  have marked : (manager.exportSharedDeltaBounded since capBytes).manager.fields =
      (manager.packShared since capBytes).1.fields := rfl
  rw [marked, final, fields_foldl_push]
  exact if_congr (takenSlots_perm manager since capBytes split final).mem_iff.symm rfl rfl

theorem gossipRound_fields (i : Fin fieldCapacity) : (gossipRound (manager, since)).1.fields i =
    if i ∈ manager.takenSlots since gossipFrameBytes then
      { manager.fields i with lastExportTs := manager.localTimestamp }
    else manager.fields i :=
  fields_exportSharedDeltaBounded manager since gossipFrameBytes i

theorem gossipRound_unmarked (i : Fin fieldCapacity) :
    unmarked ((gossipRound (manager, since)).1.fields i) = unmarked (manager.fields i) := by
  rw [gossipRound_fields]
  split_ifs <;> rfl

theorem mem_pending_gossipRound {later : UInt64} {i : Fin fieldCapacity} :
    i ∈ (gossipRound (manager, since)).1.pending later ↔ i ∈ manager.pending later := by
  rw [mem_pending, mem_pending, read_of_unmarked (gossipRound_unmarked i)
    (isExported sharedOwnerId later) fun _ => rfl]

theorem sharedAt_gossipRound (timestamp : UInt64) :
    (gossipRound (manager, since)).1.sharedAt timestamp = manager.sharedAt timestamp := by
  ext i
  rw [sharedAt, sharedAt, Finset.mem_filter, Finset.mem_filter,
    read_of_unmarked (gossipRound_unmarked i) (isSharedAt timestamp) fun _ => rfl]

theorem recordSize_gossipRound (i : Fin fieldCapacity) :
    recordSize ((gossipRound (manager, since)).1.fields i) = recordSize (manager.fields i) :=
  read_of_unmarked (gossipRound_unmarked i) recordSize fun _ => rfl

theorem timestamp_gossipRound (i : Fin fieldCapacity) :
    ((gossipRound (manager, since)).1.fields i).timestamp = (manager.fields i).timestamp :=
  read_of_unmarked (gossipRound_unmarked i) FieldEntry.timestamp fun _ => rfl

/-- Whether the records of a timestamp fit one frame is not changed by a round. -/
theorem sum_gossipRound (timestamp : UInt64) :
    (gossipRound (manager, since)).1.boundedHeaderSize +
        ∑ i ∈ (gossipRound (manager, since)).1.sharedAt timestamp,
          recordSize ((gossipRound (manager, since)).1.fields i) =
      manager.boundedHeaderSize +
        ∑ i ∈ manager.sharedAt timestamp, recordSize (manager.fields i) := by
  rw [sharedAt_gossipRound, Finset.sum_congr rfl fun i _ => recordSize_gossipRound i]
  rfl

theorem body_packShared (manager : FleeceStateManager) (since : UInt64) (capBytes : Nat) :
    (manager.packShared since capBytes).1.body = manager.boundedHeaderSize +
      ∑ i ∈ (manager.takenSlots since capBytes).toFinset, recordSize (manager.fields i) := by
  obtain ⟨taken, split, final⟩ := manager.packShared_split since capBytes
  have perm := takenSlots_perm manager since capBytes split final
  rw [List.sum_toFinset _ (nodup_takenSlots manager since capBytes),
    (perm.map fun i => recordSize (manager.fields i)).sum_eq, List.map_map, final, body_foldl_push]
  rfl

/-- Records of one timestamp that do not fit one frame are never passed. -/
theorem gossipRound_blocked
    (small : ∀ i ∈ manager.pending since, (manager.fields i).timestamp ≠ clockMax)
    {timestamp : UInt64} (above : since < timestamp)
    (several : 1 < (manager.sharedAt timestamp).card)
    (large : gossipFrameBytes < manager.boundedHeaderSize +
      ∑ i ∈ manager.sharedAt timestamp, recordSize (manager.fields i)) :
    (gossipRound (manager, since)).2 < timestamp := by
  rw [← UInt64.not_le]
  intro passed
  have allTaken : manager.sharedAt timestamp ⊆
      (manager.takenSlots since gossipFrameBytes).toFinset := by
    intro i member
    obtain ⟨isPending, stamp⟩ := (mem_sharedAt above).mp member
    rw [List.mem_toFinset]
    refine mem_takenSlots_of_le (fun j exported => small j (mem_pending.mpr exported))
      (mem_pending.mp isPending) ?_
    rw [stamp]
    exact passed
  have sizes := Finset.sum_le_sum_of_subset (f := fun i => recordSize (manager.fields i)) allTaken
  have count := Finset.card_le_card allTaken
  rw [List.toFinset_card_of_nodup (nodup_takenSlots ..), length_takenSlots] at count
  have frame : (manager.packShared since gossipFrameBytes).1.count ≤ 1 ∨
      (manager.packShared since gossipFrameBytes).1.body ≤ gossipFrameBytes :=
    pack_body_le _ (Or.inl (Nat.zero_le 1))
  rcases frame with single | fits
  · exact absurd (several.trans_le count) (not_lt.mpr single)
  · rw [body_packShared] at fits
    exact absurd (large.trans_le (Nat.add_le_add_left sizes _)) (not_lt.mpr fits)

/-- An export with records to send takes the first of the sorted rows. -/
theorem exists_first (capBytes : Nat) (some : (manager.pending since).Nonempty) :
    ∃ first rest, sortEligible (manager.collectEligible since) =
        first :: rest ++ (manager.packShared since capBytes).2 ∧
      (manager.packShared since capBytes).1 =
        (first :: rest).foldl (Packing.push manager.localTimestamp) manager.startPacking := by
  obtain ⟨taken, split, final⟩ := manager.packShared_split since capBytes
  cases taken with
  | cons first rest => exact ⟨first, rest, split, final⟩
  | nil =>
    obtain ⟨i, isPending⟩ := some
    have row : Eligible.mk i (manager.fields i).lastExportTs (manager.fields i).timestamp ∈
        sortEligible (manager.collectEligible since) := by
      rw [(sortEligible_perm _).mem_iff]
      exact mem_collectEligible.mpr ⟨mem_pending.mp isPending, rfl, rfl⟩
    rw [split, List.nil_append] at row
    obtain ⟨head, tail, left⟩ := List.exists_cons_of_ne_nil (List.ne_nil_of_mem row)
    have stopped : 0 < (manager.packShared since capBytes).1.count := (pack_stops left).1
    rw [final] at stopped
    exact absurd stopped (Nat.lt_irrefl 0)

/-- The sorted rows are the pending records. -/
theorem row_iff {entry : Eligible} : entry ∈ sortEligible (manager.collectEligible since) ↔
    entry.index ∈ manager.pending since ∧
      entry.exportTs = (manager.fields entry.index).lastExportTs ∧
      entry.timestamp = (manager.fields entry.index).timestamp := by
  rw [(sortEligible_perm _).mem_iff, mem_collectEligible, mem_pending]

theorem le_includedMaxTs (capBytes : Nat) (some : (manager.pending since).Nonempty) :
    since ≤ (manager.exportSharedDeltaBounded since capBytes).includedMaxTs := by
  obtain ⟨first, rest, split, final⟩ := exists_first capBytes some
  obtain ⟨isPending, _, stamp⟩ := row_iff.mp
    (split ▸ List.mem_append_left _ List.mem_cons_self : first ∈ _)
  refine le_clampWatermark (fun _ => lt_of_leftover) ?_
  rw [final]
  have reached := (le_maxTs_foldl_push manager.localTimestamp (first :: rest)
    manager.startPacking).2 first List.mem_cons_self
  exact UInt64.le_trans (UInt64.le_of_lt (lt_of_isExported (mem_pending.mp isPending))) reached

theorem le_gossipRound (some : (manager.pending since).Nonempty) :
    since ≤ (gossipRound (manager, since)).2 :=
  le_includedMaxTs gossipFrameBytes some

/-- In ascending rows of which one that is left over is no later than the first, the rows taken
and the one the loop stopped at are all of one timestamp. -/
theorem tied_of_ascending {first head : Eligible} {rest tail : List Eligible}
    (ascending : (first :: rest ++ head :: tail).Pairwise
      fun one two => one.timestamp ≤ two.timestamp)
    {entry : Eligible} (left : entry ∈ head :: tail) (early : entry.timestamp ≤ first.timestamp)
    {row : Eligible} (member : row ∈ first :: rest ++ [head]) :
    row.timestamp = first.timestamp := by
  obtain ⟨taken, leftover, across⟩ := List.pairwise_append.mp ascending
  have headLow : head.timestamp ≤ first.timestamp := by
    rcases List.mem_cons.mp left with rfl | later
    · exact early
    · exact UInt64.le_trans ((List.pairwise_cons.mp leftover).1 entry later) early
  have headHigh (other : Eligible) (isTaken : other ∈ first :: rest) :
      other.timestamp ≤ head.timestamp := across other isTaken head List.mem_cons_self
  rcases List.mem_append.mp member with isTaken | isHead
  · refine UInt64.le_antisymm (UInt64.le_trans (headHigh row isTaken) headLow) ?_
    rcases List.mem_cons.mp isTaken with rfl | later
    · exact UInt64.le_refl _
    · exact (List.pairwise_cons.mp taken).1 row later
  · rw [List.mem_singleton.mp isHead]
    exact UInt64.le_antisymm headLow (headHigh first List.mem_cons_self)

/-- The rows taken and the one the loop stopped at do not fit together. -/
theorem large_of_stopped {taken tail : List Eligible} {head : Eligible}
    (final : (manager.packShared since gossipFrameBytes).1 =
      taken.foldl (Packing.push manager.localTimestamp) manager.startPacking)
    (stopped : (manager.packShared since gossipFrameBytes).2 = head :: tail) :
    gossipFrameBytes < manager.boundedHeaderSize + (((taken ++ [head]).map Eligible.index).map
      fun i => recordSize (manager.fields i)).sum := by
  have large : gossipFrameBytes < (manager.packShared since gossipFrameBytes).1.body +
      recordSize ((manager.packShared since gossipFrameBytes).1.fields head.index) :=
    (pack_stops stopped).2
  have size : recordSize ((manager.packShared since gossipFrameBytes).1.fields head.index) =
      recordSize (manager.fields head.index) := recordSize_gossipRound head.index
  rw [size, final, body_foldl_push, Nat.add_assoc] at large
  rw [List.map_map, List.map_append, List.sum_append, List.map_singleton, List.sum_singleton]
  exact large

/-- Where all pending records were sent under the present clock and ties fit, the rows left over
are above the first one. -/
theorem first_lt_leftover (fit : manager.TiesFit since)
    (sent : ∀ i ∈ manager.pending since,
      (manager.fields i).lastExportTs = manager.localTimestamp)
    {first : Eligible} {rest : List Eligible}
    (split : sortEligible (manager.collectEligible since) =
      first :: rest ++ (manager.packShared since gossipFrameBytes).2)
    (final : (manager.packShared since gossipFrameBytes).1 =
      (first :: rest).foldl (Packing.push manager.localTimestamp) manager.startPacking)
    {entry : Eligible} (left : entry ∈ (manager.packShared since gossipFrameBytes).2) :
    first.timestamp < entry.timestamp := by
  have mark (row : Eligible) (member : row ∈ sortEligible (manager.collectEligible since)) :
      row.exportTs = manager.localTimestamp := by
    obtain ⟨isPending, exportTs, _⟩ := row_iff.mp member
    rw [exportTs, sent _ isPending]
  -- With one mark on all rows, the sort is by timestamp.
  have ascending : (sortEligible (manager.collectEligible since)).Pairwise
      fun one two => one.timestamp ≤ two.timestamp := by
    refine (sortEligible_sorted _).imp_of_mem fun member memberTwo le => ?_
    exact (Eligible.rank_le_iff ((mark _ member).trans (mark _ memberTwo).symm)).mp le
  obtain ⟨head, tail, stopped⟩ := List.exists_cons_of_ne_nil (List.ne_nil_of_mem left)
  rw [← UInt64.not_le]
  intro early
  have listed : (first :: rest ++ [head]).Sublist (sortEligible (manager.collectEligible since)) := by
    rw [split, stopped]
    exact (List.Sublist.refl _).append (List.singleton_sublist.mpr List.mem_cons_self)
  rw [split, stopped] at ascending
  rw [stopped] at left
  have above : since < first.timestamp := by
    obtain ⟨isPending, _, stamp⟩ := row_iff.mp (listed.subset List.mem_cons_self)
    rw [stamp]
    exact lt_of_isExported (mem_pending.mp isPending)
  have within : ((first :: rest ++ [head]).map Eligible.index).toFinset ⊆
      manager.sharedAt first.timestamp := by
    intro i member
    obtain ⟨row, isRow, rfl⟩ := List.mem_map.mp (List.mem_toFinset.mp member)
    obtain ⟨isPending, _, stamp⟩ := row_iff.mp (listed.subset isRow)
    exact (mem_sharedAt above).mpr
      ⟨isPending, stamp.symm.trans (tied_of_ascending ascending left early isRow)⟩
  have distinct : ((first :: rest ++ [head]).map Eligible.index).Nodup :=
    (nodup_rows manager since).sublist (listed.map _)
  have large := large_of_stopped final stopped
  rw [← List.sum_toFinset _ distinct] at large
  rcases fit first.timestamp above with single | fits
  · have count := Finset.card_le_card within
    rw [List.toFinset_card_of_nodup distinct, List.length_map, List.length_append,
      List.length_cons, List.length_singleton] at count
    omega
  · have sizes := Finset.sum_le_sum_of_subset (f := fun i => recordSize (manager.fields i)) within
    exact absurd (large.trans_le ((Nat.add_le_add_left sizes _).trans fits)) (Nat.lt_irrefl _)

/-- A round passes a record, or sends one that was not yet sent under the present clock. -/
theorem gossipRound_progress (fit : manager.TiesFit since)
    (marks : ∀ i ∈ manager.pending since,
      (manager.fields i).lastExportTs ≤ manager.localTimestamp)
    (some : (manager.pending since).Nonempty) :
    (∃ i ∈ manager.pending since,
      i ∉ (gossipRound (manager, since)).1.pending (gossipRound (manager, since)).2) ∨
    ∃ i ∈ manager.unsent since,
      i ∉ (gossipRound (manager, since)).1.unsent (gossipRound (manager, since)).2 := by
  obtain ⟨first, rest, split, final⟩ := exists_first gossipFrameBytes some
  have isRow : first ∈ sortEligible (manager.collectEligible since) := by
    rw [split]
    exact List.mem_cons_self
  obtain ⟨isPending, exportTs, stamp⟩ := row_iff.mp isRow
  rcases (manager.unsent since).eq_empty_or_nonempty with none | ⟨fresh, isFresh⟩
  · -- All were sent: the sort is by timestamp, and the watermark passes the first row.
    have sent (i : Fin fieldCapacity) (member : i ∈ manager.pending since) :
        (manager.fields i).lastExportTs = manager.localTimestamp := by
      by_contra unsent
      exact absurd (Finset.mem_filter.mpr ⟨member, unsent⟩) (none ▸ Finset.notMem_empty i)
    refine Or.inl ⟨first.index, isPending, fun still => ?_⟩
    rw [mem_pending_gossipRound] at still
    have reached := (le_maxTs_foldl_push manager.localTimestamp (first :: rest)
      manager.startPacking).2 first List.mem_cons_self
    have passed : first.timestamp ≤ (gossipRound (manager, since)).2 := by
      refine le_clampWatermark (fun _ => first_lt_leftover fit sent split final) ?_
      rw [final, stamp]
      exact reached
    rw [stamp] at passed
    exact absurd (lt_of_isExported (mem_pending.mp still)) (UInt64.not_lt.mpr passed)
  · -- The first row has the least mark, so it was not yet sent either.
    obtain ⟨freshPending, freshMark⟩ := Finset.mem_filter.mp isFresh
    have freshRow : Eligible.mk fresh (manager.fields fresh).lastExportTs
        (manager.fields fresh).timestamp ∈ sortEligible (manager.collectEligible since) :=
      row_iff.mpr ⟨freshPending, rfl, rfl⟩
    have least : first.exportTs ≤ (manager.fields fresh).lastExportTs := by
      have sorted := sortEligible_sorted (manager.collectEligible since)
      rw [split] at sorted freshRow
      rcases List.mem_cons.mp freshRow with same | later
      · rw [← same]
        exact UInt64.le_refl _
      · exact Eligible.exportTs_le ((List.pairwise_cons.mp sorted).1 _ later)
    have old : first.exportTs ≠ manager.localTimestamp := fun now =>
      freshMark (UInt64.le_antisymm (marks fresh freshPending) (now ▸ least))
    refine Or.inr ⟨first.index, Finset.mem_filter.mpr ⟨isPending, exportTs ▸ old⟩, fun still => ?_⟩
    have isTaken : first.index ∈ manager.takenSlots since gossipFrameBytes := by
      rw [(takenSlots_perm manager since gossipFrameBytes split final).mem_iff]
      exact List.mem_map_of_mem List.mem_cons_self
    have mark := (Finset.mem_filter.mp still).2
    rw [gossipRound_fields, if_pos isTaken] at mark
    exact mark rfl

end Round

/-! ### The loop stops, or never does -/

section Loop

variable {manager : FleeceStateManager} {since : UInt64}

/-- What a round keeps: the watermark does not go back, so no record becomes pending, and a slot
that was sent under the present clock stays so. -/
theorem pending_gossipRound (some : (manager.pending since).Nonempty) :
    (gossipRound (manager, since)).1.pending (gossipRound (manager, since)).2 ⊆
        manager.pending since ∧
      (gossipRound (manager, since)).1.unsent (gossipRound (manager, since)).2 ⊆
        manager.unsent since := by
  have fewer : (gossipRound (manager, since)).1.pending (gossipRound (manager, since)).2 ⊆
      manager.pending since := by
    intro i member
    rw [mem_pending_gossipRound] at member
    exact mem_pending.mpr (isExported_mono (le_gossipRound some) (mem_pending.mp member))
  refine ⟨fewer, fun i member => ?_⟩
  obtain ⟨still, mark⟩ := Finset.mem_filter.mp member
  refine Finset.mem_filter.mpr ⟨fewer still, fun now => mark ?_⟩
  rw [gossipRound_fields]
  split_ifs
  · rfl
  · exact now

/-- The export times of the pending records are not ahead of the clock. -/
def MarksBehind (manager : FleeceStateManager) (since : UInt64) : Prop :=
  ∀ i ∈ manager.pending since, (manager.fields i).lastExportTs ≤ manager.localTimestamp

theorem MarksBehind.gossipRound (marks : manager.MarksBehind since)
    (some : (manager.pending since).Nonempty) :
    (gossipRound (manager, since)).1.MarksBehind (gossipRound (manager, since)).2 := by
  intro i member
  have before := marks i ((pending_gossipRound some).1 member)
  rw [gossipRound_fields]
  split_ifs
  · exact UInt64.le_refl _
  · exact before

theorem TiesFit.gossipRound (fit : manager.TiesFit since)
    (some : (manager.pending since).Nonempty) :
    (gossipRound (manager, since)).1.TiesFit (gossipRound (manager, since)).2 := by
  intro timestamp above
  rw [sum_gossipRound, sharedAt_gossipRound]
  exact fit timestamp (UInt64.lt_of_le_of_lt (le_gossipRound some) above)

theorem nonempty_pending_iff : (manager.pending since).Nonempty ↔
    manager.countNewShared since > 0 := by
  rw [← card_pending, gt_iff_lt, Finset.card_pos]

theorem drain_succ (some : (manager.pending since).Nonempty) (rounds : Nat) :
    drain (rounds + 1) (manager, since) = drain rounds
      ((gossipRound (manager, since)).1, (gossipRound (manager, since)).2) :=
  if_pos (nonempty_pending_iff.mp some)

/-- Every round lowers the number of pending records or of those not yet sent. -/
theorem drain_stops {rounds : Nat} (fit : manager.TiesFit since) (marks : manager.MarksBehind since)
    (enough : (manager.pending since).card + (manager.unsent since).card ≤ rounds) :
    (drain rounds (manager, since)).1.countNewShared (drain rounds (manager, since)).2 = 0 := by
  induction rounds generalizing manager since with
  | zero =>
    show manager.countNewShared since = 0
    rw [← card_pending]
    omega
  | succ rounds inductionHypothesis =>
    rcases (manager.pending since).eq_empty_or_nonempty with none | some
    · have stopped : drain (rounds + 1) (manager, since) = (manager, since) :=
        if_neg fun left => Finset.not_nonempty_iff_eq_empty.mpr none (nonempty_pending_iff.mpr left)
      rw [stopped, ← card_pending, none, Finset.card_empty]
    · obtain ⟨fewer, fewerUnsent⟩ := pending_gossipRound some
      rw [drain_succ some]
      refine inductionHypothesis (fit.gossipRound some) (marks.gossipRound some) ?_
      have pendingLe := Finset.card_le_card fewer
      have unsentLe := Finset.card_le_card fewerUnsent
      rcases gossipRound_progress fit marks some with ⟨i, was, gone⟩ | ⟨i, was, gone⟩
      · have less := Finset.card_lt_card (Finset.ssubset_iff_of_subset fewer |>.mpr ⟨i, was, gone⟩)
        omega
      · have less := Finset.card_lt_card
          (Finset.ssubset_iff_of_subset fewerUnsent |>.mpr ⟨i, was, gone⟩)
        omega

/-- Records of one timestamp that do not fit one frame keep the loop going for ever. -/
theorem drain_blocked (rounds : Nat)
    (small : ∀ i ∈ manager.pending since, (manager.fields i).timestamp ≠ clockMax)
    {timestamp : UInt64} (above : since < timestamp)
    (several : 1 < (manager.sharedAt timestamp).card)
    (large : gossipFrameBytes < manager.boundedHeaderSize +
      ∑ i ∈ manager.sharedAt timestamp, recordSize (manager.fields i)) :
    (drain rounds (manager, since)).1.countNewShared (drain rounds (manager, since)).2 ≠ 0 := by
  have some : (manager.pending since).Nonempty := by
    obtain ⟨i, member⟩ := Finset.card_pos.mp (Nat.zero_lt_of_lt several)
    exact ⟨i, ((mem_sharedAt above).mp member).1⟩
  induction rounds generalizing manager since with
  | zero => exact (nonempty_pending_iff.mp some).ne'
  | succ rounds inductionHypothesis =>
    rw [drain_succ some]
    have next := gossipRound_blocked small above several large
    refine inductionHypothesis (fun i member => ?_) next ?_ ?_ ?_
    · rw [timestamp_gossipRound]
      exact small i ((pending_gossipRound some).1 member)
    · rwa [sharedAt_gossipRound]
    · rwa [sum_gossipRound]
    · obtain ⟨i, member⟩ := Finset.card_pos.mp (Nat.zero_lt_of_lt several)
      rw [← sharedAt_gossipRound] at member
      exact ⟨i, ((mem_sharedAt next).mp member).1⟩

end Loop

/-- Only the timestamps of pending records matter. -/
theorem tiesFit_iff {manager : FleeceStateManager} {since : UInt64} : manager.TiesFit since ↔
    ∀ i ∈ manager.pending since, (manager.sharedAt (manager.fields i).timestamp).card ≤ 1 ∨
      manager.boundedHeaderSize + ∑ j ∈ manager.sharedAt (manager.fields i).timestamp,
        recordSize (manager.fields j) ≤ gossipFrameBytes := by
  constructor
  · intro fit i member
    exact fit _ (lt_of_isExported (mem_pending.mp member))
  · intro each timestamp above
    rcases (manager.sharedAt timestamp).eq_empty_or_nonempty with none | ⟨i, member⟩
    · rw [none, Finset.card_empty]
      exact Or.inl (Nat.zero_le 1)
    · obtain ⟨isPending, rfl⟩ := (mem_sharedAt above).mp member
      exact each i isPending

instance (manager : FleeceStateManager) (since : UInt64) : Decidable (manager.TiesFit since) :=
  decidable_of_iff _ tiesFit_iff.symm

/-- The backlog of any reachable store, from any watermark, with timestamps below the largest. The
loop stops only if the records of each timestamp above the watermark fit one frame, or there is
one of them only; and it does stop then, after at most two frames for each slot, unless a clock
that wrapped has left export times ahead of it. -/
theorem backlog_drains {nodeId : UInt64} {manager : FleeceStateManager}
    (created : createWithNodeId nodeId = some manager) (operations : List Operation) (since : UInt64)
    (small : ∀ i ∈ (manager.after operations).pending since,
      ((manager.after operations).fields i).timestamp ≠ clockMax) :
    ((manager.after operations).Drains since → (manager.after operations).TiesFit since) ∧
      ((manager.after operations).MarksBehind since → (manager.after operations).TiesFit since →
        (manager.after operations).Drains since ∧
        (drain (2 * fieldCapacity) (manager.after operations, since)).1.countNewShared
          (drain (2 * fieldCapacity) (manager.after operations, since)).2 = 0) ∧
      (Along Operation.next NoWrap manager operations →
        (manager.after operations).MarksBehind since) := by
  refine ⟨fun ⟨rounds, stopped⟩ timestamp above => ?_, fun marks fit => ?_, fun noWrap i _ => ?_⟩
  · by_contra unfit
    rw [not_or, not_le, not_le] at unfit
    exact drain_blocked rounds small above unfit.1 unfit.2 stopped
  · have enough : ((manager.after operations).pending since).card +
        ((manager.after operations).unsent since).card ≤ 2 * fieldCapacity := by
      have bound (slots : Finset (Fin fieldCapacity)) : slots.card ≤ fieldCapacity :=
        (Finset.card_le_univ slots).trans_eq (Fintype.card_fin _)
      rw [Nat.two_mul]
      exact Nat.add_le_add (bound _) (bound _)
    have stops := drain_stops fit marks enough
    exact ⟨⟨_, stops⟩, stops⟩
  · exact ((invariant_create created).after noWrap).clock.marks i

/-- Two records of one node are sent and passed. -/
theorem backlog_drains_writes :
    let operations := [Operation.write (.setShared ⟨[0x61], by decide⟩ ⟨[1], by decide⟩),
      .write (.setShared ⟨[0x62], by decide⟩ ⟨[2], by decide⟩)]
    ((blank 7).after operations).countNewShared 0 = 2 ∧ ((blank 7).after operations).Drains 0 := by
  intro operations
  obtain ⟨_, drains, marks⟩ := backlog_drains
    (show createWithNodeId 7 = some (blank 7) from rfl) operations 0 (by decide +kernel)
  have fit : ((blank 7).after operations).TiesFit 0 := by decide +kernel
  have noWrap : Along Operation.next NoWrap (blank 7) operations := by decide +kernel
  exact ⟨by decide +kernel, (drains (marks noWrap) fit).1⟩

/-- Two peers have stamped a record of 150 bytes with the same clock value: the records do not fit
one frame, the watermark stays below them, and the loop never stops. -/
theorem backlog_stuck :
    let payload : Blob := ⟨List.replicate 150 1, by rw [List.length_replicate]; decide⟩
    let operations := [Operation.mergeShared 8 ⟨[0x61], by decide⟩ payload 1 false,
      .mergeShared 9 ⟨[0x62], by decide⟩ payload 1 false]
    (∀ i ∈ ((blank 7).after operations).pending 0,
        (((blank 7).after operations).fields i).timestamp = 1) ∧
      ¬ ((blank 7).after operations).Drains 0 := by
  intro payload operations
  have stamps : ∀ i ∈ ((blank 7).after operations).pending 0,
      (((blank 7).after operations).fields i).timestamp = 1 := by decide +kernel
  refine ⟨stamps, fun ⟨rounds, stopped⟩ => ?_⟩
  refine drain_blocked rounds (fun i member => ?_) (show (0 : UInt64) < 1 by decide)
    (by decide +kernel) (by decide +kernel) stopped
  rw [stamps i member]
  decide

end FleeceStateManager

end Fleece
