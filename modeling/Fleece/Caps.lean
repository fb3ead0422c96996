/-
This file says when a frame of two or more records is larger than the cap it was
packed for. The cap is checked against a running sum that leaves out the three bytes
of the magic, and counts the high-water mark (the bounded export the digest as well)
at nine bytes. Below 2^32 they are four bytes shorter, which makes up for the magic.
Above, the frame is too large when its records fill the cap to the last byte or two.
-/

import Fleece.Sizing
import Fleece.Fairness

namespace Fleece

/-- First fit: of the sizes that come, each one is chosen that fits under the cap with those
before it. -/
inductive FirstFit (cap : Nat) : Nat → List Nat → List Nat → Prop
  | done {used : Nat} : FirstFit cap used [] []
  | fits {used size : Nat} {rest chosen : List Nat} (room : used + size ≤ cap)
      (tail : FirstFit cap (used + size) rest chosen) :
      FirstFit cap used (size :: rest) (size :: chosen)
  | skips {used size : Nat} {rest chosen : List Nat} (full : cap < used + size)
      (tail : FirstFit cap used rest chosen) : FirstFit cap used (size :: rest) chosen

/-- First fit chooses in one way only. -/
theorem FirstFit.unique {cap used : Nat} {sizes chosen other : List Nat}
    (first : FirstFit cap used sizes chosen) (second : FirstFit cap used sizes other) :
    chosen = other := by
  induction first generalizing other with
  | done =>
    cases second
    rfl
  | fits room tail inductionHypothesis =>
    cases second with
    | fits room' tail' => rw [inductionHypothesis tail']
    | skips full tail' => omega
  | skips full tail inductionHypothesis =>
    cases second with
    | fits room tail' => omega
    | skips full' tail' => exact inductionHypothesis tail'

theorem uintSize_eq_nine {value : UInt64} (large : 0xFFFFFFFF < value) : uintSize value = 9 := by
  unfold uintSize
  split_ifs with least byte half word
  · exact absurd (UInt64.lt_trans large least) (by decide)
  · exact absurd (UInt64.lt_of_lt_of_le large byte) (by decide)
  · exact absurd (UInt64.lt_of_lt_of_le large half) (by decide)
  · exact absurd (UInt64.lt_of_lt_of_le large word) (by decide)
  · rfl

theorem uintSize_le_five {value : UInt64} (small : ¬0xFFFFFFFF < value) : uintSize value ≤ 5 := by
  have below := UInt64.not_lt.mp small
  unfold uintSize
  split_ifs <;> omega

namespace FleeceStateManager

/-! ### The bounded export -/

/-- What the loop counts for the header and the first records of the export order. -/
def countedSize (manager : FleeceStateManager) (since : UInt64) (count : Nat) : Nat :=
  manager.boundedHeaderSize +
    (((manager.exportOrder since).take count).map fun i => recordSize (manager.fields i)).sum

/-- Two or more of the records that go first fit under the cap, and do no longer with the header of
their count. -/
def FillsCap (manager : FleeceStateManager) (since : UInt64) (capBytes : Nat) : Prop :=
  ∃ count, 2 ≤ count ∧ count ≤ (manager.exportOrder since).length ∧
    manager.countedSize since count ≤ capBytes ∧
    capBytes < manager.countedSize since count + arrayHeaderSize count

theorem recordSize_pos (f : FieldEntry) : 3 ≤ recordSize f := by
  have origin := uintSize_pos f.originNodeId
  unfold recordSize
  rw [show arrayHeaderSize 5 = 1 from rfl]
  omega

/-- One more record is three bytes more at least. -/
theorem countedSize_lt {manager : FleeceStateManager} {since : UInt64} {first second : Nat}
    (lt : first < second) (few : second ≤ (manager.exportOrder since).length) :
    manager.countedSize since first + 3 ≤ manager.countedSize since second := by
  have inside : first < (manager.exportOrder since).length := by omega
  have split : (manager.exportOrder since).take second =
      (manager.exportOrder since).take first ++
        ((manager.exportOrder since).drop first).take (second - first) := by
    rw [← List.take_add, Nat.add_sub_cancel' (Nat.le_of_lt lt)]
  obtain ⟨more, positive⟩ : ∃ more, second - first = more + 1 := ⟨second - first - 1, by omega⟩
  have here := recordSize_pos (manager.fields (manager.exportOrder since)[first])
  rw [countedSize, countedSize, split, positive, List.drop_eq_getElem_cons inside,
    List.take_succ_cons, List.map_append, List.sum_append, List.map_cons, List.sum_cons]
  omega

section Packed

variable (manager : FleeceStateManager) (since : UInt64) (capBytes : Nat)

/-- The records that are taken are the first of the export order. -/
theorem packShared_takes :
    (manager.takenSlots since capBytes).length ≤ (manager.exportOrder since).length ∧
      (manager.packShared since capBytes).1.body =
        manager.countedSize since (manager.takenSlots since capBytes).length := by
  obtain ⟨first, ⟨rest, order⟩, perm⟩ := manager.exists_prefix_of_taken since capBytes
  refine ⟨?_, ?_⟩
  · rw [← order, List.length_append, perm.length_eq]
    omega
  · rw [body_packShared_taken, countedSize, perm.length_eq, ← order, List.take_left,
      (perm.map fun i => recordSize (manager.fields i)).sum_eq]

/-- Where the loop stops, it has taken a record and the next one does not fit. -/
theorem packShared_stops
    (stopped : (manager.takenSlots since capBytes).length < (manager.exportOrder since).length) :
    0 < (manager.takenSlots since capBytes).length ∧
      capBytes < manager.countedSize since ((manager.takenSlots since capBytes).length + 1) := by
  obtain ⟨taken, split, final⟩ := manager.packShared_split since capBytes
  have count : (manager.takenSlots since capBytes).length = taken.length := by
    rw [(takenSlots_perm manager since capBytes split final).length_eq, List.length_map]
  cases left : (manager.packShared since capBytes).2 with
  | nil =>
    rw [exportOrder, List.length_map, split, left, List.append_nil, count] at stopped
    exact absurd stopped (lt_irrefl _)
  | cons entry rest =>
    obtain ⟨some, large⟩ := pack_stops left
    have same : recordSize ((manager.packShared since capBytes).1.fields entry.index) =
        recordSize (manager.fields entry.index) :=
      read_of_unmarked ((markSteps_rest (exportSharedDeltaBounded_steps manager since
        capBytes)).2 entry.index) recordSize fun _ => rfl
    have body := (manager.packShared_takes since capBytes).2
    refine ⟨(manager.length_takenSlots since capBytes).symm ▸ some, ?_⟩
    have next : manager.countedSize since (taken.length + 1) =
        manager.countedSize since taken.length + recordSize (manager.fields entry.index) := by
      have order : manager.exportOrder since =
          taken.map Eligible.index ++ entry.index :: rest.map Eligible.index := by
        rw [exportOrder, split, left, List.map_append, List.map_cons]
      have long : (taken.map Eligible.index).length = taken.length := List.length_map _
      rw [countedSize, countedSize, order, ← long, List.take_left, List.take_append,
        List.take_of_length_le (Nat.le_succ _), Nat.add_sub_cancel_left, List.take_succ_cons,
        List.take_zero, List.map_append, List.sum_append, List.map_singleton, List.sum_singleton,
        Nat.add_assoc]
    rw [count, next, ← count, ← body, ← same]
    exact large

/-- A cap that the first records fill is filled by those that are taken. -/
theorem taken_of_fillsCap {count : Nat} (several : 2 ≤ count)
    (few : count ≤ (manager.exportOrder since).length)
    (within : manager.countedSize since count ≤ capBytes)
    (full : capBytes < manager.countedSize since count + arrayHeaderSize count)
    (short : arrayHeaderSize count ≤ 2) :
    (manager.takenSlots since capBytes).length = count := by
  obtain ⟨most, body⟩ := manager.packShared_takes since capBytes
  rcases lt_trichotomy (manager.takenSlots since capBytes).length count with less | same | more
  · obtain ⟨_, large⟩ := manager.packShared_stops since capBytes (lt_of_lt_of_le less few)
    have next : (manager.takenSlots since capBytes).length + 1 ≤ count := less
    rcases Nat.lt_or_eq_of_le next with gap | last
    · have larger := countedSize_lt gap few
      omega
    · rw [last] at large
      omega
  · exact same
  · have larger := countedSize_lt more most
    have first : manager.startPacking.count ≤ 1 ∨ manager.startPacking.body ≤ capBytes :=
      .inl (Nat.zero_le 1)
    have packed := @pack_body_le manager.localTimestamp capBytes _
      (sortEligible (manager.collectEligible since)) first
    have taken := manager.length_takenSlots since capBytes
    unfold packShared at taken body
    omega

/-- A frame of several records goes over the cap where its high-water mark and its digest are as
long as they were counted, and its records fill the cap. -/
theorem boundedBuffer_within_cap_iff :
    (2 ≤ (manager.takenSlots since capBytes).length →
        (manager.boundedBuffer since capBytes).written.length ≤ capBytes) ↔
      ¬(0xFFFFFFFF < manager.getSharedHw ∧
        0xFFFFFFFF < manager.computeStreamDigest sharedOwnerId ∧
        manager.FillsCap since capBytes) := by
  obtain ⟨most, body⟩ := manager.packShared_takes since capBytes
  have written := manager.length_boundedBuffer since capBytes
  have counted := manager.body_packShared_taken since capBytes
  rw [boundedHeaderSize, show arrayHeaderSize 5 = 1 from rfl] at counted
  have hwLe := uintSize_le manager.getSharedHw
  have digestLe := uintSize_le (manager.computeStreamDigest sharedOwnerId)
  have countLe := arrayHeaderSize_le_two (manager.length_takenSlots_le since capBytes)
  have within : (manager.takenSlots since capBytes).length ≤ 1 ∨
      (manager.packShared since capBytes).1.body ≤ capBytes := by
    rw [length_takenSlots]
    exact pack_body_le _ (.inl (Nat.zero_le 1))
  constructor
  · rintro small ⟨longHw, longDigest, count, several, few, fits, full⟩
    have short : arrayHeaderSize count ≤ 2 := by
      have all := (nodup_rows manager since).length_le_card
      rw [Fintype.card_fin] at all
      exact arrayHeaderSize_le_two (few.trans all)
    have same := manager.taken_of_fillsCap since capBytes several few fits full short
    rw [same] at small written body
    have bound := small several
    have nineHw := uintSize_eq_nine longHw
    have nineDigest := uintSize_eq_nine longDigest
    omega
  · intro rare several
    by_contra large
    have longHw : 0xFFFFFFFF < manager.getSharedHw := by
      by_contra shortHw
      have five := uintSize_le_five shortHw
      omega
    have longDigest : 0xFFFFFFFF < manager.computeStreamDigest sharedOwnerId := by
      by_contra shortDigest
      have five := uintSize_le_five shortDigest
      omega
    have nineHw := uintSize_eq_nine longHw
    have nineDigest := uintSize_eq_nine longDigest
    exact rare ⟨longHw, longDigest, (manager.takenSlots since capBytes).length, several, most,
      by omega, by omega⟩

end Packed

/-! ### The value reply -/

/-- The live records of the shared stream that are asked for, in slot order. -/
def requested (manager : FleeceStateManager) (hashes : List UInt32) : List FieldEntry :=
  manager.slots.filter fun f => isLiveNamed sharedOwnerId f && hashes.contains f.key

/-- The largest timestamp among the live records of the shared stream. -/
def liveHw (manager : FleeceStateManager) : UInt64 :=
  maxTimestamp (manager.slots.filter (isLiveNamed sharedOwnerId))

/-- The first record that is asked for, with one or more of those that first fit puts beside it,
leaves no room for the magic. -/
def CrowdsCap (manager : FleeceStateManager) (hashes : List UInt32) : Prop :=
  ∃ first rest chosen, (manager.requested hashes).map answerSize = first :: rest ∧
    FirstFit 320 (manager.answerHeaderSize hashes + first) rest chosen ∧ chosen ≠ [] ∧
    320 + arrayHeaderSize hashes.length <
      3 + manager.answerHeaderSize hashes + (first + chosen.sum) +
        arrayHeaderSize (chosen.length + 1)

section Reply

variable (hashes : List UInt32) (reply : ValueReply) {f : FieldEntry}

/-- A record that is not asked for, or does not fit, is passed over. -/
theorem takeByHash_passes (passed : hashes.contains f.key = false ∨
    (reply.taken ≠ [] ∧ 320 < reply.body + answerSize f)) :
    (takeByHash hashes reply f).taken = reply.taken ∧
      (takeByHash hashes reply f).body = reply.body := by
  unfold takeByHash
  simp only
  split
  · exact ⟨rfl, rfl⟩
  · rename_i asked
    rcases passed with unasked | ⟨some, full⟩
    · rw [unasked] at asked
      exact absurd rfl asked
    · rw [if_pos ⟨List.length_pos_of_ne_nil some, full⟩]
      exact ⟨rfl, rfl⟩

/-- One that is asked for and fits is taken, and so is the first one. -/
theorem takeByHash_takes (asked : hashes.contains f.key = true)
    (fits : reply.taken = [] ∨ reply.body + answerSize f ≤ 320) :
    (takeByHash hashes reply f).taken = reply.taken ++ [f] ∧
      (takeByHash hashes reply f).body = reply.body + answerSize f := by
  have room : ¬(reply.taken.length > 0 ∧ reply.body + answerSize f > 320) := by
    rintro ⟨some, full⟩
    rcases fits with none | small
    · exact absurd none (List.ne_nil_of_length_pos some)
    · omega
  unfold answerSize at room
  unfold takeByHash
  simp only [asked, Bool.not_true, Bool.false_eq_true, if_false]
  rw [if_neg room]
  exact ⟨rfl, rfl⟩

end Reply

/-- After the first record, the loop takes those that first fit chooses. -/
theorem firstFit_foldl (hashes : List UInt32) (live : List FieldEntry) (reply : ValueReply)
    (some : reply.taken ≠ []) :
    ∃ chosen, (live.foldl (takeByHash hashes) reply).taken.map answerSize =
        reply.taken.map answerSize ++ chosen ∧
      FirstFit 320 reply.body ((live.filter fun f => hashes.contains f.key).map answerSize)
        chosen := by
  induction live generalizing reply with
  | nil => exact ⟨[], (List.append_nil _).symm, .done⟩
  | cons f rest inductionHypothesis =>
    rw [List.foldl_cons, List.filter_cons]
    cases asked : hashes.contains f.key with
    | false =>
      obtain ⟨taken, body⟩ := takeByHash_passes hashes reply (.inl asked)
      obtain ⟨chosen, rows, fit⟩ := inductionHypothesis (takeByHash hashes reply f) (taken ▸ some)
      rw [taken] at rows
      rw [body] at fit
      exact ⟨chosen, rows, fit⟩
    | true =>
      rw [if_pos rfl, List.map_cons]
      by_cases full : 320 < reply.body + answerSize f
      · obtain ⟨taken, body⟩ := takeByHash_passes hashes reply (.inr ⟨some, full⟩)
        obtain ⟨chosen, rows, fit⟩ :=
          inductionHypothesis (takeByHash hashes reply f) (taken ▸ some)
        rw [taken] at rows
        rw [body] at fit
        exact ⟨chosen, rows, .skips full fit⟩
      · obtain ⟨taken, body⟩ := takeByHash_takes hashes reply asked (.inr (not_lt.mp full))
        obtain ⟨chosen, rows, fit⟩ := inductionHypothesis (takeByHash hashes reply f) (by
          rw [taken]
          exact List.append_ne_nil_of_left_ne_nil some _)
        rw [body] at fit
        refine ⟨answerSize f :: chosen, ?_, .fits (not_lt.mp full) fit⟩
        rw [rows, taken, List.map_append, List.append_assoc]
        rfl

/-- The first record that is asked for is taken, and those that fit beside it. -/
theorem firstFit_start (hashes : List UInt32) (live : List FieldEntry) (reply : ValueReply)
    (none : reply.taken = []) {first : Nat} {rest : List Nat}
    (asked : (live.filter fun f => hashes.contains f.key).map answerSize = first :: rest) :
    ∃ chosen, (live.foldl (takeByHash hashes) reply).taken.map answerSize = first :: chosen ∧
      FirstFit 320 (reply.body + first) rest chosen := by
  induction live generalizing reply with
  | nil => cases asked
  | cons f later inductionHypothesis =>
    rw [List.foldl_cons]
    rw [List.filter_cons] at asked
    cases here : hashes.contains f.key with
    | false =>
      rw [here] at asked
      obtain ⟨taken, body⟩ := takeByHash_passes hashes reply (.inl here)
      have fit := inductionHypothesis (takeByHash hashes reply f) (taken.trans none) asked
      rwa [body] at fit
    | true =>
      rw [here, if_pos rfl, List.map_cons] at asked
      obtain ⟨rfl, rfl⟩ := List.cons.inj asked
      obtain ⟨taken, body⟩ := takeByHash_takes hashes reply here (.inl none)
      obtain ⟨chosen, rows, fit⟩ :=
        firstFit_foldl hashes later (takeByHash hashes reply f) (by
          rw [taken]
          exact List.append_ne_nil_of_right_ne_nil _ (List.cons_ne_nil f []))
      rw [taken, none] at rows
      rw [body] at fit
      exact ⟨chosen, rows, fit⟩

section Reply

variable (manager : FleeceStateManager) (hashes : List UInt32)

theorem hw_selectByHash : (manager.selectByHash hashes).hw = manager.liveHw :=
  hw_foldl hashes _ _

theorem filter_requested : (manager.slots.filter (isLiveNamed sharedOwnerId)).filter
    (fun f => hashes.contains f.key) = manager.requested hashes := by
  rw [List.filter_filter, requested]
  exact List.filter_congr fun f _ => Bool.and_comm _ _

/-- The records of the reply are those that first fit takes from the ones that are asked for. -/
theorem selectByHash_takes {first : Nat} {rest : List Nat}
    (asked : (manager.requested hashes).map answerSize = first :: rest) :
    ∃ chosen, (manager.selectByHash hashes).taken.map answerSize = first :: chosen ∧
      FirstFit 320 (manager.answerHeaderSize hashes + first) rest chosen := by
  rw [← filter_requested] at asked
  exact firstFit_start hashes _ _ rfl asked

theorem selectByHash_of_none (asked : manager.requested hashes = []) :
    (manager.selectByHash hashes).taken = [] := by
  refine List.eq_nil_iff_forall_not_mem.mpr fun f member => ?_
  have wanted := (manager.capped_selectByHash hashes).wanted f member
  have live : f ∈ manager.slots.filter (isLiveNamed sharedOwnerId) :=
    (mem_taken_foldl member).resolve_left List.not_mem_nil
  have listed : f ∈ manager.requested hashes := by
    rw [← filter_requested]
    exact List.mem_filter.mpr ⟨live, List.contains_iff_mem.mpr wanted⟩
  rw [asked] at listed
  exact List.not_mem_nil listed

/-- A reply of several records goes over the cap where its high-water mark is as long as it was
counted, and its records leave no room for the magic. -/
theorem byHashBuffer_within_cap_iff :
    (2 ≤ (manager.selectByHash hashes).taken.length →
        (manager.byHashBuffer hashes).written.length ≤ 320) ↔
      ¬(0xFFFFFFFF < manager.liveHw ∧ manager.CrowdsCap hashes) := by
  have capped := manager.capped_selectByHash hashes
  have written := manager.length_byHashBuffer hashes
  have body := capped.body
  have header : manager.answerHeaderSize hashes = 1 + uintSize manager.nodeId +
      uintSize sharedOwnerId + 9 + uintSize (manager.computeStreamDigest sharedOwnerId) +
      arrayHeaderSize hashes.length := rfl
  rw [hw_selectByHash] at written
  constructor
  · rintro small ⟨longHw, first, rest, chosen, asked, fit, some, crowded⟩
    obtain ⟨others, rows, fit'⟩ := manager.selectByHash_takes hashes asked
    rw [fit'.unique fit] at rows
    have count : (manager.selectByHash hashes).taken.length = chosen.length + 1 := by
      rw [← List.length_map answerSize, rows, List.length_cons]
    have several := List.length_pos_of_ne_nil some
    have bound := small (by omega)
    have nine := uintSize_eq_nine longHw
    rw [written, rows, count, List.sum_cons] at bound
    omega
  · intro rare several
    by_contra large
    have within := capped.cap.resolve_left (by omega)
    have count : arrayHeaderSize (manager.selectByHash hashes).taken.length ≤ 2 :=
      arrayHeaderSize_le_two (length_entries_le manager (.sharedByHash hashes))
    have positive := uintSize_pos (UInt64.ofNat hashes.length)
    have longHw : 0xFFFFFFFF < manager.liveHw := by
      by_contra shortHw
      have five := uintSize_le_five shortHw
      unfold arrayHeaderSize at written count header
      omega
    have nine := uintSize_eq_nine longHw
    cases asked : (manager.requested hashes).map answerSize with
    | nil =>
      rw [manager.selectByHash_of_none hashes (List.map_eq_nil_iff.mp asked)] at several
      exact absurd several (by decide)
    | cons first rest =>
      obtain ⟨chosen, rows, fit⟩ := manager.selectByHash_takes hashes asked
      have length : (manager.selectByHash hashes).taken.length = chosen.length + 1 := by
        rw [← List.length_map answerSize, rows, List.length_cons]
      refine rare ⟨longHw, first, rest, chosen, asked, fit, ?_, ?_⟩
      · rintro rfl
        rw [length] at several
        exact absurd several (by decide)
      · rw [rows, length, List.sum_cons] at written
        rw [rows, List.sum_cons] at body
        omega

end Reply

/-- A frame of two or more records is within its cap if and only if the timestamps are not so
large, or the records do not fill it. -/
theorem frames_within_cap_iff (manager : FleeceStateManager) (since : UInt64) (capBytes : Nat)
    (hashes : List UInt32) :
    (manager.exportSharedDeltaBounded since capBytes).frame =
        .ofBuffer (manager.boundedBuffer since capBytes).written ∧
    ((2 ≤ (manager.takenSlots since capBytes).length →
        (manager.boundedBuffer since capBytes).written.length ≤ capBytes) ↔
      ¬(0xFFFFFFFF < manager.getSharedHw ∧
        0xFFFFFFFF < manager.computeStreamDigest sharedOwnerId ∧
        manager.FillsCap since capBytes)) ∧
    manager.exportSharedByHash hashes = .ofBuffer (manager.byHashBuffer hashes).written ∧
    ((2 ≤ (manager.selectByHash hashes).taken.length →
        (manager.byHashBuffer hashes).written.length ≤ 320) ↔
      ¬(0xFFFFFFFF < manager.liveHw ∧ manager.CrowdsCap hashes)) :=
  ⟨rfl, boundedBuffer_within_cap_iff manager since capBytes, rfl,
    byHashBuffer_within_cap_iff manager hashes⟩

/-- A value of `count` bytes. -/
def valueOf (count : UInt8) : Blob :=
  ⟨List.replicate count.toNat 1, by
    rw [List.length_replicate]
    exact count.toNat_lt.trans (by decide)⟩

/-- Two records that fill the cap: the frames are one byte and two bytes too large. -/
theorem frames_exceed_cap :
    let manager := (blank 7).after
      [.mergeShared 8 ⟨[0x61], by decide⟩ (valueOf 132) 0x100000000 false,
        .mergeShared 9 ⟨[0x62], by decide⟩ (valueOf 133) 0x100000001 false]
    let hashes := [hashName ⟨[0x61], by decide⟩, hashName ⟨[0x62], by decide⟩]
    (manager.takenSlots 0 321).length = 2 ∧
      (manager.exportSharedDeltaBounded 0 321).frame.size = 322 ∧
      (manager.selectByHash hashes).taken.length = 2 ∧
      (manager.exportSharedByHash hashes).size = 322 := by
  decide +kernel

end FleeceStateManager

end Fleece
