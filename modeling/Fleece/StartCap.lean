/-
This file counts the index requests of one call of `runtime_send_resync_requests`.
The cap on the rounds that start is shared by all peers, but only the gap-driven
requests are held to it. A liveness probe sends the same request on the same turn
of the loop without counting, also to a peer that has just been asked.
-/

import Fleece.Turns

namespace Fleece

/-! ### At most one a label -/

/-- No label is given out twice by the weights of the items that have it. -/
theorem sum_label_le_one_iff {Item Label : Type} [Fintype Item] [DecidableEq Item]
    [DecidableEq Label] {label : Item → Label} {weight : Item → ℕ} :
    (∀ wanted, ∑ i, (if label i = wanted then weight i else 0) ≤ 1) ↔
      (∀ i, weight i ≤ 1) ∧
        ∀ i j, 0 < weight i → 0 < weight j → label i = label j → i = j := by
  constructor
  · intro once
    refine ⟨fun i => ?_, fun i j some someOther same => ?_⟩
    · calc weight i = if label i = label i then weight i else 0 := (if_pos rfl).symm
        _ ≤ ∑ j, if label j = label i then weight j else 0 :=
          Finset.single_le_sum (f := fun j => if label j = label i then weight j else 0)
            (fun _ _ => Nat.zero_le _) (Finset.mem_univ i)
        _ ≤ 1 := once (label i)
    · by_contra apart
      have most : weight i + weight j ≤ 1 := calc
        weight i + weight j = (if label i = label i then weight i else 0) +
            (if label j = label i then weight j else 0) := by rw [if_pos rfl, if_pos same.symm]
        _ = ∑ k ∈ {i, j}, if label k = label i then weight k else 0 :=
          (Finset.sum_pair (f := fun k => if label k = label i then weight k else 0) apart).symm
        _ ≤ ∑ k, if label k = label i then weight k else 0 :=
          Finset.sum_le_sum_of_subset (Finset.subset_univ _)
        _ ≤ 1 := once (label i)
      omega
  · rintro ⟨single, distinct⟩ wanted
    by_cases some : ∃ i, label i = wanted ∧ 0 < weight i
    · obtain ⟨i, rfl, positive⟩ := some
      rw [Finset.sum_eq_single i]
      · rw [if_pos rfl]
        exact single i
      · intro j _ other
        by_cases same : label j = label i
        · rw [if_pos same]
          by_contra more
          exact other (distinct j i (Nat.pos_of_ne_zero more) positive same)
        · exact if_neg same
      · exact fun absent => absurd (Finset.mem_univ i) absent
    · rw [Finset.sum_eq_zero]
      · exact Nat.zero_le 1
      · intro i _
        split_ifs with same
        · by_contra more
          exact some ⟨i, same, Nat.pos_of_ne_zero more⟩
        · rfl

namespace FleeceRuntime

/-- The requests one call hands the transport, after the frames that were deferred. -/
def indexRequests (runtime : FleeceRuntime) : List (Destination × Blob) :=
  runtime.sendResyncRequests.comms.sent.drop runtime.flushPendingTx.comms.sent.length

/-- The targets that a liveness probe is sent to. -/
def probed (runtime : FleeceRuntime) : Finset (Fin maxResyncTargets) :=
  Finset.univ.filter fun i => runtime.isProbed i = true

/-- The targets that are due a gap-driven request. -/
def due (runtime : FleeceRuntime) : Finset (Fin maxResyncTargets) :=
  Finset.univ.filter fun i => runtime.isDue i = true

theorem indexRequests_eq (runtime : FleeceRuntime) : runtime.indexRequests =
    if runtime.comms.isInitialized then
      (List.finRange maxResyncTargets).flatMap runtime.requestsTo else [] := by
  have same := runtime.flushPendingTx_sameLoop
  have requests : runtime.flushPendingTx.requestsTo = runtime.requestsTo := by
    funext j
    rw [requestsTo, requestsTo, same.targets, same.nodeId, same.isStarted, same.isProbed]
  unfold indexRequests sendResyncRequests
  rw [foldl_resyncSlot]
  simp only [scanned, same.isOpen, requests]
  rw [List.take_of_length_le (by simp), List.drop_left]

/-- The requests that one target is sent. -/
def asked (runtime : FleeceRuntime) (i : Fin maxResyncTargets) : Nat :=
  (runtime.isStarted i).toNat + (runtime.isProbed i).toNat

theorem sum_finRange {n : Nat} (weight : Fin n → Nat) :
    ((List.finRange n).map weight).sum = ∑ i, weight i := by
  rw [← List.ofFn_eq_map, List.sum_ofFn]

theorem length_indexRequests {runtime : FleeceRuntime}
    (isOpen : runtime.comms.isInitialized = true) :
    runtime.indexRequests.length = ∑ i, runtime.asked i := by
  rw [indexRequests_eq, if_pos isOpen, List.length_flatMap, sum_finRange]
  refine Finset.sum_congr rfl fun i _ => ?_
  exact List.length_replicate

theorem countP_indexRequests {runtime : FleeceRuntime}
    (isOpen : runtime.comms.isInitialized = true) (wanted : Destination) :
    (runtime.indexRequests.countP fun request => decide (request.1 = wanted)) =
      ∑ i, if (runtime.resyncTargets i).source = wanted then runtime.asked i else 0 := by
  rw [indexRequests_eq, if_pos isOpen, List.countP_flatMap, sum_finRange]
  refine Finset.sum_congr rfl fun i _ => ?_
  rw [Function.comp_apply, requestsTo, List.countP_replicate]
  simp only [decide_eq_true_eq]
  rfl

/-- Of the targets that are due the first two are asked. -/
theorem sum_isStarted_univ (runtime : FleeceRuntime) :
    ∑ i, (runtime.isStarted i).toNat = min resyncStartsPerTick runtime.due.card := by
  have all := sum_isStarted runtime maxResyncTargets le_rfl
  have every : runtime.dueAmong maxResyncTargets = runtime.due := by
    ext i
    simp [dueAmong, due]
  rw [every, Finset.filter_true_of_mem fun i _ => i.isLt] at all
  exact all

theorem sum_isProbed (runtime : FleeceRuntime) :
    ∑ i, (runtime.isProbed i).toNat = runtime.probed.card := by
  rw [probed, Finset.card_filter]
  refine Finset.sum_congr rfl fun i _ => ?_
  cases runtime.isProbed i <;> rfl

/-- The call keeps to the cap: at most two index requests, and at most one to each destination. -/
def WithinStartCap (runtime : FleeceRuntime) : Prop :=
  runtime.indexRequests.length ≤ resyncStartsPerTick ∧
    ∀ wanted, (runtime.indexRequests.countP fun request => decide (request.1 = wanted)) ≤ 1

/-- In any state, one call keeps to the cap if and only if the transport is closed, or the rounds
it starts and the probes that are due are two at most together, no peer is due both, and no two of
the targets it asks go by one name. -/
theorem start_cap_iff (runtime : FleeceRuntime) :
    runtime.WithinStartCap ↔
      runtime.comms.isInitialized = false ∨
        (min resyncStartsPerTick runtime.due.card + runtime.probed.card ≤ resyncStartsPerTick ∧
          (∀ i, ¬ (runtime.isStarted i = true ∧ runtime.isProbed i = true)) ∧
          ∀ i j, (runtime.isStarted i || runtime.isProbed i) = true →
            (runtime.isStarted j || runtime.isProbed j) = true →
            (runtime.resyncTargets i).source = (runtime.resyncTargets j).source → i = j) := by
  unfold WithinStartCap
  cases isOpen : runtime.comms.isInitialized with
  | false =>
    have none : runtime.indexRequests = [] := by
      rw [indexRequests_eq, isOpen]
      rfl
    rw [none]
    exact iff_of_true ⟨Nat.zero_le _, fun _ => Nat.zero_le 1⟩ (Or.inl rfl)
  | true =>
    have total : ∑ i, runtime.asked i =
        min resyncStartsPerTick runtime.due.card + runtime.probed.card := by
      simp only [asked]
      rw [Finset.sum_add_distrib, sum_isStarted_univ, sum_isProbed]
    have single (i : Fin maxResyncTargets) : runtime.asked i ≤ 1 ↔
        ¬ (runtime.isStarted i = true ∧ runtime.isProbed i = true) := by
      unfold asked
      cases runtime.isStarted i <;> cases runtime.isProbed i <;> decide
    have some (i : Fin maxResyncTargets) : 0 < runtime.asked i ↔
        (runtime.isStarted i || runtime.isProbed i) = true := by
      unfold asked
      cases runtime.isStarted i <;> cases runtime.isProbed i <;> decide
    simp only [length_indexRequests isOpen, countP_indexRequests isOpen, sum_label_le_one_iff,
      total, single, some, Bool.true_eq_false, false_or]

/-- Three peers that were last heard a hundred ticks ago, one of them diverged. -/
def unheardPeers : FleeceRuntime :=
  { create (.blank 7) with
    comms := ⟨true, []⟩
    gossipTickCount := 100
    resyncTargets := fun i =>
      ⟨UInt64.ofNat (i.val + 8), 0, decide (i.val = 0), false, 0, decide (i.val < 3)⟩ }

/-- The diverged peer is asked twice, and four requests go out in one call. -/
theorem start_cap_exceeded :
    unheardPeers.indexRequests = [(.node 8, indexRequest 7), (.node 8, indexRequest 7),
      (.node 9, indexRequest 7), (.node 10, indexRequest 7)] ∧ ¬ unheardPeers.WithinStartCap := by
  have sent : unheardPeers.indexRequests = [(.node 8, indexRequest 7), (.node 8, indexRequest 7),
      (.node 9, indexRequest 7), (.node 10, indexRequest 7)] := by decide +kernel
  refine ⟨sent, fun within => ?_⟩
  have few := within.1
  rw [sent] at few
  exact absurd few (by decide)

end FleeceRuntime

end Fleece
