/-
This file is about what the bounded export leaves for later. The watermark it
reports stays below every record it did not take, so nothing is skipped. And no
record waits for ever, however much is written in the meantime: a slot that goes
before a waiting one is marked with the clock, and once the clock has moved past
the mark of the waiting slot it never goes before it again. Each of the other
slots can do so once, and all of them once more in the first export, whose clock
may still be the one the waiting slot was marked with.
-/

import Fleece.Backlog
import Fleece.RoundTrip

namespace Fleece

namespace FleeceStateManager

/-! ### Nothing is skipped -/

/-- The order of the export: by the time of the last export, then by timestamp. -/
def rankOf (manager : FleeceStateManager) (i : Fin fieldCapacity) : ℕ ×ₗ ℕ :=
  toLex ((manager.fields i).lastExportTs.toNat, (manager.fields i).timestamp.toNat)

theorem rank_eq_rankOf {manager : FleeceStateManager} {since : UInt64} {entry : Eligible}
    (row : entry ∈ sortEligible (manager.collectEligible since)) :
    entry.rank = manager.rankOf entry.index := by
  obtain ⟨_, exportTs, timestamp⟩ := row_iff.mp row
  rw [Eligible.rank, rankOf, exportTs, timestamp]

/-- The pending slots in the order of the export. -/
def exportOrder (manager : FleeceStateManager) (since : UInt64) : List (Fin fieldCapacity) :=
  (sortEligible (manager.collectEligible since)).map Eligible.index

theorem mem_exportOrder {manager : FleeceStateManager} {since : UInt64} {i : Fin fieldCapacity} :
    i ∈ manager.exportOrder since ↔ i ∈ manager.pending since := by
  rw [exportOrder, List.mem_map]
  constructor
  · rintro ⟨entry, row, rfl⟩
    exact (row_iff.mp row).1
  · intro isPending
    exact ⟨⟨i, (manager.fields i).lastExportTs, (manager.fields i).timestamp⟩,
      row_iff.mpr ⟨isPending, rfl, rfl⟩, rfl⟩

theorem exportOrder_sorted (manager : FleeceStateManager) (since : UInt64) :
    (manager.exportOrder since).Pairwise fun i j => manager.rankOf i ≤ manager.rankOf j := by
  rw [exportOrder, List.pairwise_map]
  refine (sortEligible_sorted _).imp_of_mem fun first second le => ?_
  rwa [← rank_eq_rankOf first, ← rank_eq_rankOf second]

section Export

variable {manager : FleeceStateManager} {since : UInt64} {capBytes : Nat}

/-- What is taken comes first in the order of the export. -/
theorem exists_prefix_of_taken (manager : FleeceStateManager) (since : UInt64) (capBytes : Nat) :
    ∃ first, first <+: manager.exportOrder since ∧
      (manager.takenSlots since capBytes).Perm first := by
  obtain ⟨taken, split, final⟩ := manager.packShared_split since capBytes
  refine ⟨taken.map Eligible.index, ?_, takenSlots_perm manager since capBytes split final⟩
  rw [exportOrder, split, List.map_append]
  exact List.prefix_append _ _

/-- A slot that is taken is no later in the order than one that is left. -/
theorem rankOf_le_of_left {i j : Fin fieldCapacity} (isTaken : i ∈ manager.takenSlots since capBytes)
    (isPending : j ∈ manager.pending since) (left : j ∉ manager.takenSlots since capBytes) :
    manager.rankOf i ≤ manager.rankOf j := by
  obtain ⟨first, ⟨rest, split⟩, perm⟩ := manager.exists_prefix_of_taken since capBytes
  have sorted := manager.exportOrder_sorted since
  have member := mem_exportOrder.mpr isPending
  rw [← split] at sorted member
  rw [perm.mem_iff] at isTaken left
  refine (List.pairwise_append.mp sorted).2.2 i isTaken j ?_
  exact (List.mem_append.mp member).resolve_left left

theorem takenSlots_ne_nil (some : (manager.pending since).Nonempty) :
    manager.takenSlots since capBytes ≠ [] := by
  obtain ⟨first, rest, split, final⟩ := exists_first capBytes some
  intro none
  have perm := takenSlots_perm manager since capBytes split final
  rw [none, List.map_cons] at perm
  exact absurd perm.length_eq (Nat.succ_ne_zero _).symm

/-- The watermark is no later than some record that is taken. -/
theorem includedMaxTs_le_taken (some : (manager.pending since).Nonempty) :
    ∃ i ∈ manager.takenSlots since capBytes,
      (manager.exportSharedDeltaBounded since capBytes).includedMaxTs ≤
        (manager.fields i).timestamp := by
  obtain ⟨first, rest, split, final⟩ := exists_first capBytes some
  have perm := takenSlots_perm manager since capBytes split final
  have clamped : (manager.exportSharedDeltaBounded since capBytes).includedMaxTs ≤
      (manager.packShared since capBytes).1.maxTs := clampWatermark_le _ _
  rw [final] at clamped
  rcases maxTs_foldl_push manager.localTimestamp (first :: rest) manager.startPacking with
    zero | ⟨entry, member, same⟩
  · refine ⟨first.index, perm.mem_iff.mpr (List.mem_map_of_mem List.mem_cons_self), ?_⟩
    rw [zero] at clamped
    exact UInt64.le_trans clamped UInt64.zero_le
  · refine ⟨entry.index, perm.mem_iff.mpr (List.mem_map_of_mem member), ?_⟩
    rwa [same] at clamped

theorem includedMaxTs_lt_left
    (small : ∀ i ∈ manager.pending since, (manager.fields i).timestamp ≠ clockMax)
    {i : Fin fieldCapacity} (isPending : i ∈ manager.pending since)
    (left : i ∉ manager.takenSlots since capBytes) :
    (manager.exportSharedDeltaBounded since capBytes).includedMaxTs <
      (manager.fields i).timestamp := by
  by_contra passed
  exact left (mem_takenSlots_of_le (fun j exported => small j (mem_pending.mpr exported))
    (mem_pending.mp isPending) (UInt64.not_lt.mp passed))

end Export

/-- The bounded export of any reachable store, for any watermark and any cap, with timestamps below
the largest. Its frame is that of the slots it takes; these come first among the pending ones in
the order of the export, and they alone are marked with the clock. The watermark is below every
pending record that is not in the frame. If anything is pending, something is taken, the watermark
does not go back, and it is no later than the latest record in the frame. -/
theorem bounded_export_skips_nothing {nodeId : UInt64} {start : FleeceStateManager}
    (created : createWithNodeId nodeId = some start) (operations : List Operation) (since : UInt64)
    (capBytes : Nat)
    (small : ∀ i ∈ (start.after operations).pending since,
      ((start.after operations).fields i).timestamp ≠ clockMax) :
    let manager := start.after operations
    let exported := manager.exportSharedDeltaBounded since capBytes
    let carried := manager.takenSlots since capBytes
    let contents := (GossipExport.sharedDeltaBounded since capBytes).contents manager
    exported.frame = contents.frame ∧
      contents.records = carried.map (fun i => (manager.fields i).record) ∧
      (∀ i ∈ manager.pending since, i ∉ carried →
        exported.includedMaxTs < (manager.fields i).timestamp) ∧
      ((manager.pending since).Nonempty → carried ≠ [] ∧ since ≤ exported.includedMaxTs ∧
        ∃ i ∈ carried, exported.includedMaxTs ≤ (manager.fields i).timestamp) ∧
      (manager.exportOrder since).Nodup ∧
      (∀ i, i ∈ manager.exportOrder since ↔ i ∈ manager.pending since) ∧
      (manager.exportOrder since).Pairwise (fun i j => manager.rankOf i ≤ manager.rankOf j) ∧
      (∃ first, first <+: manager.exportOrder since ∧ carried.Perm first) ∧
      (∀ i, exported.manager.fields i = if i ∈ carried then
        { manager.fields i with lastExportTs := manager.localTimestamp } else manager.fields i) := by
  intro manager exported carried contents
  have store := storeInvariant_after created operations
  refine ⟨frame_eq_contents store (.sharedDeltaBounded since capBytes), ?_, ?_, ?_,
    nodup_rows manager since, fun i => mem_exportOrder, exportOrder_sorted manager since,
    exists_prefix_of_taken manager since capBytes,
    fields_exportSharedDeltaBounded manager since capBytes⟩
  · exact List.map_map
  · exact fun i isPending left => includedMaxTs_lt_left small isPending left
  · exact fun some => ⟨takenSlots_ne_nil some, le_includedMaxTs capBytes some,
      includedMaxTs_le_taken some⟩

/-- Of two records of one clock value each, the frame of the older leaves the watermark behind the
newer. -/
theorem bounded_export_skips_nothing_writes :
    let operations := [Operation.write (.setShared ⟨[0x61], by decide⟩ ⟨[1], by decide⟩),
      .write (.setShared ⟨[0x62], by decide⟩ ⟨[2], by decide⟩)]
    1 ∈ ((blank 7).after operations).pending 0 ∧
      1 ∉ ((blank 7).after operations).takenSlots 0 0 ∧
      (((blank 7).after operations).exportSharedDeltaBounded 0 0).includedMaxTs <
        (((blank 7).after operations).fields 1).timestamp := by
  intro operations
  obtain ⟨_, _, skips, _⟩ := bounded_export_skips_nothing
    (show createWithNodeId 7 = some (blank 7) from rfl) operations 0 0 (by decide +kernel)
  have isPending : 1 ∈ ((blank 7).after operations).pending 0 := by decide +kernel
  have left : 1 ∉ ((blank 7).after operations).takenSlots 0 0 := by decide +kernel
  exact ⟨isPending, left, skips 1 isPending left⟩

/-! ### What churn leaves alone -/

end FleeceStateManager

/-- The operations that may come between two exports: all but a compaction and another bounded
export. -/
def Operation.isChurn : Operation → Bool
  | .compact => false
  | .exportSharedDeltaBounded _ _ => false
  | _ => true

namespace FleeceStateManager

/-- No slot is marked anew, and what is pending stays so. -/
structure Churned (manager next : FleeceStateManager) : Prop where
  marks : ∀ i, (next.fields i).lastExportTs = (manager.fields i).lastExportTs
  pending : ∀ since, manager.pending since ⊆ next.pending since

theorem Churned.of_fields {manager next : FleeceStateManager} (same : next.fields = manager.fields) :
    manager.Churned next := by
  refine ⟨fun i => by rw [same], fun since i isPending => ?_⟩
  rw [mem_pending] at isPending ⊢
  rwa [same]

theorem Churned.trans {first second third : FleeceStateManager} (lower : first.Churned second)
    (upper : second.Churned third) : first.Churned third :=
  ⟨fun i => (upper.marks i).trans (lower.marks i),
    fun since => (lower.pending since).trans (upper.pending since)⟩

theorem isExported_iff {owner since : UInt64} {f : FieldEntry} :
    isExported owner since f = true ↔
      f.slotExists = true ∧ f.nodeId = owner ∧ f.isNamed = true ∧ since < f.timestamp := by
  rw [isExported, Bool.and_eq_true, Bool.and_eq_true, Bool.and_eq_true, beq_iff_eq,
    Bool.not_eq_true', decide_eq_false_iff_not, UInt64.not_le, and_assoc, and_assoc]

/-- An entry that is stored over a shared one with a name and no earlier timestamp. -/
theorem Stored.churned {manager next : FleeceStateManager} (store : manager.StoreInvariant)
    {f : FieldEntry} (stored : Stored manager next f)
    (named : f.nodeId = sharedOwnerId → f.isNamed = true)
    (later : ∀ old, manager.lookup f.key f.nodeId = some old → old.timestamp ≤ f.timestamp) :
    manager.Churned next := by
  obtain ⟨i, fields, present, marked, place⟩ := stored.index
  refine ⟨fun j => ?_, fun since j isPending => ?_⟩
  · rw [fields]
    by_cases equal : j = i
    · rw [equal, Function.update_self, marked]
    · rw [Function.update_of_ne equal]
  · rw [mem_pending] at isPending ⊢
    rw [fields]
    by_cases equal : j = i
    · obtain rfl := equal
      rw [Function.update_self]
      obtain ⟨there, shared, _, above⟩ := isExported_iff.mp isPending
      rcases place with ⟨found, _⟩ | ⟨_, atEnd, _⟩
      · have owner : f.nodeId = sharedOwnerId :=
          (label_of_findSlotOwned found).2.2.symm.trans shared
        refine isExported_iff.mpr ⟨present, owner, named owner, ?_⟩
        exact UInt64.lt_of_lt_of_le above (later _ (lookup_of_findSlotOwned found))
      · exact absurd ((store.beyond j there atEnd.ge).symm.trans shared) store.realNode
    · rwa [Function.update_of_ne equal]

theorem MergeStep.churned {manager next : FleeceStateManager} (store : manager.StoreInvariant)
    (step : MergeStep manager next) : manager.Churned next := by
  cases step with
  | quiet fields count node clock => exact .of_fields fields
  | merge f stored node clock stamp foreign named filled authored newer =>
    refine stored.churned store (fun _ => named) fun old found => ?_
    rcases newer old found with later | ⟨same, _⟩
    · exact UInt64.le_of_lt later
    · exact UInt64.le_of_eq same

theorem churned_of_steps {manager next : FleeceStateManager}
    (steps : Relation.ReflTransGen MergeStep manager next) (store : manager.StoreInvariant) :
    manager.Churned next := by
  induction steps with
  | refl => exact .of_fields rfl
  | tail before step inductionHypothesis =>
    exact inductionHypothesis.trans (step.churned (mergeSteps_keep before store).1)

theorem WriteEffect.churned {manager next : FleeceStateManager} (invariant : manager.Invariant)
    (small : manager.localTimestamp ≠ clockMax) (effect : WriteEffect manager next) :
    manager.Churned next := by
  cases effect with
  | unchanged same => exact .of_fields (congrArg fields same)
  | noSlot fields count node clock => exact .of_fields fields
  | wrote f stored node clock stamp own filled authored =>
    refine stored.churned invariant.store (fun shared => ?_) fun old found => ?_
    · rcases own with local_ | ⟨_, _, named⟩
      · exact absurd (local_.symm.trans shared) invariant.store.realNode
      · exact named
    · obtain ⟨i, rfl, present, _⟩ := exists_of_lookup found
      rw [stamp]
      exact UInt64.le_of_lt (UInt64.lt_of_le_of_lt (invariant.clock.stamps i present)
        (lt_add_one_of_ne_max small))

theorem churned_operation {manager : FleeceStateManager} (invariant : manager.Invariant)
    {operation : Operation} (churn : operation.isChurn = true) (noWrap : manager.NoWrap operation) :
    manager.Churned (operation.next manager) := by
  have real := invariant.store.realNode
  cases operation with
  | write change => exact (write_effect invariant.store change).churned invariant (noWrap rfl)
  | query asked => exact .of_fields rfl
  | mergeNamed owner name data timestamp isTombstone =>
    exact churned_of_steps (mergeNamed_steps ..) invariant.store
  | mergeShared origin name data timestamp isTombstone =>
    exact churned_of_steps (mergeShared_steps real ..) invariant.store
  | importFrom frame => exact churned_of_steps (importFrom_steps real frame) invariant.store
  | exportSharedDeltaBounded since capBytes => cases churn
  | tick => exact .of_fields rfl
  | compact => cases churn

/-- The operation is churn, and leaves the clock below its largest value. -/
def Churns (manager : FleeceStateManager) (operation : Operation) : Prop :=
  operation.isChurn = true ∧ (operation.next manager).localTimestamp ≠ clockMax

instance (manager : FleeceStateManager) (operation : Operation) :
    Decidable (manager.Churns operation) :=
  inferInstanceAs (Decidable (_ ∧ _))

/-- A run that leaves every clock value below the largest does not wrap. -/
theorem noWrap_of_below {manager : FleeceStateManager} {operations : List Operation}
    (start : manager.localTimestamp ≠ clockMax)
    (below : Along Operation.next
      (fun state operation => (operation.next state).localTimestamp ≠ clockMax)
      manager operations) :
    Along Operation.next NoWrap manager operations ∧
      (manager.after operations).localTimestamp ≠ clockMax := by
  induction operations generalizing manager with
  | nil => exact ⟨trivial, start⟩
  | cons operation rest inductionHypothesis =>
    obtain ⟨noWrap, last⟩ := inductionHypothesis below.1 below.2
    exact ⟨⟨fun _ => start, noWrap⟩, last⟩

theorem churned_after {manager : FleeceStateManager} (invariant : manager.Invariant)
    (start : manager.localTimestamp ≠ clockMax) {operations : List Operation}
    (churns : Along Operation.next Churns manager operations) :
    (manager.after operations).Invariant ∧ manager.Churned (manager.after operations) ∧
      (manager.after operations).localTimestamp ≠ clockMax := by
  induction operations generalizing manager with
  | nil => exact ⟨invariant, .of_fields rfl, start⟩
  | cons operation rest inductionHypothesis =>
    obtain ⟨⟨churn, below⟩, later⟩ := churns
    have next : (operation.next manager).Invariant := (invariant.keeps fun _ => start).1
    obtain ⟨last, churned, small⟩ := inductionHypothesis next below later
    exact ⟨last, (churned_operation invariant churn fun _ => start).trans churned, small⟩

/-! ### A waiting record -/

/-- One export with what happens before it, and the cap it is given. -/
structure Turn where
  before : List Operation
  capBytes : Nat

/-- The operations before an export and the export itself, which hands its watermark on. -/
def exportTurn (state : FleeceStateManager × UInt64) (turn : Turn) : FleeceStateManager × UInt64 :=
  let exported := (state.1.after turn.before).exportSharedDeltaBounded state.2 turn.capBytes
  (exported.manager, exported.includedMaxTs)

/-- The record of the slot is in the frame of this turn. -/
def Sends (i : Fin fieldCapacity) (state : FleeceStateManager × UInt64) (turn : Turn) : Prop :=
  i ∈ (state.1.after turn.before).takenSlots state.2 turn.capBytes

instance (i : Fin fieldCapacity) (state : FleeceStateManager × UInt64) (turn : Turn) :
    Decidable (Sends i state turn) :=
  inferInstanceAs (Decidable (_ ∈ _))

/-- A slot that is pending, with the mark it waits under. -/
structure Waits (i : Fin fieldCapacity) (mark : UInt64) (state : FleeceStateManager × UInt64) :
    Prop where
  invariant : state.1.Invariant
  below : state.1.localTimestamp ≠ clockMax
  pending : i ∈ state.1.pending state.2
  marked : (state.1.fields i).lastExportTs = mark

/-- The other slots whose marks are no later: those that can go first. -/
def ahead (manager : FleeceStateManager) (i : Fin fieldCapacity) (mark : UInt64) :
    Finset (Fin fieldCapacity) :=
  (Finset.univ.erase i).filter fun j => (manager.fields j).lastExportTs ≤ mark

section Waiting

variable {i : Fin fieldCapacity} {mark : UInt64} {state : FleeceStateManager × UInt64} {turn : Turn}
  (waits : Waits i mark state)
include waits

/-- A slot that is not sent goes on waiting under the same mark. -/
theorem Waits.next (churns : Along Operation.next Churns state.1 turn.before)
    (left : ¬ Sends i state turn) : Waits i mark (exportTurn state turn) := by
  obtain ⟨invariant, churned, below⟩ := churned_after waits.invariant waits.below churns
  have pending := churned.pending state.2 waits.pending
  have small (j : Fin fieldCapacity) (isPending : j ∈ (state.1.after turn.before).pending state.2) :
      ((state.1.after turn.before).fields j).timestamp ≠ clockMax := by
    have stamp := invariant.clock.stamps j (isExported_iff.mp (mem_pending.mp isPending)).1
    intro largest
    rw [largest] at stamp
    exact below (UInt64.le_antisymm (le_clockMax _) stamp)
  have passed : (exportTurn state turn).2 < ((state.1.after turn.before).fields i).timestamp :=
    includedMaxTs_lt_left small pending left
  have kept : (exportTurn state turn).1.fields i = (state.1.after turn.before).fields i := by
    refine (fields_exportSharedDeltaBounded ..).trans (if_neg left)
  have next : ((Operation.exportSharedDeltaBounded state.2 turn.capBytes).next
      (state.1.after turn.before)).Invariant := (invariant.keeps fun isWrite => by cases isWrite).1
  refine ⟨next, below, ?_, ?_⟩
  · rw [mem_pending, kept]
    obtain ⟨present, shared, named, _⟩ := isExported_iff.mp (mem_pending.mp pending)
    exact isExported_iff.mpr ⟨present, shared, named, passed⟩
  · rw [kept, churned.marks, waits.marked]

/-- Once the clock has moved past the mark, a slot that goes first does so for the last time. -/
theorem Waits.overtaken (churns : Along Operation.next Churns state.1 turn.before)
    (advances : state.1.localTimestamp < (state.1.after turn.before).localTimestamp)
    (left : ¬ Sends i state turn) :
    (exportTurn state turn).1.ahead i mark ⊂ state.1.ahead i mark := by
  obtain ⟨_, churned, _⟩ := churned_after waits.invariant waits.below churns
  have pending := churned.pending state.2 waits.pending
  have marks (j : Fin fieldCapacity) : ((exportTurn state turn).1.fields j).lastExportTs =
      if Sends j state turn then (state.1.after turn.before).localTimestamp
      else (state.1.fields j).lastExportTs := by
    refine (congrArg FieldEntry.lastExportTs (fields_exportSharedDeltaBounded ..)).trans ?_
    rw [apply_ite FieldEntry.lastExportTs, churned.marks]
    rfl
  have late : mark < (state.1.after turn.before).localTimestamp := by
    rw [← waits.marked]
    exact UInt64.lt_of_le_of_lt (waits.invariant.clock.marks i) advances
  have fewer : (exportTurn state turn).1.ahead i mark ⊆ state.1.ahead i mark := by
    intro j member
    obtain ⟨other, early⟩ := Finset.mem_filter.mp member
    rw [marks] at early
    split_ifs at early with sent
    · exact absurd early (UInt64.not_le.mpr late)
    · exact Finset.mem_filter.mpr ⟨other, early⟩
  obtain ⟨j, sent⟩ := List.exists_mem_of_ne_nil _
    (takenSlots_ne_nil ⟨i, pending⟩ :
      (state.1.after turn.before).takenSlots state.2 turn.capBytes ≠ [])
  have other : j ≠ i := fun same => left (same ▸ sent)
  have before : (state.1.fields j).lastExportTs ≤ mark := by
    have ranked := rankOf_le_of_left sent pending left
    rw [← churned.marks, ← waits.marked, ← churned.marks, UInt64.le_iff_toNat_le]
    exact Prod.Lex.monotone_fst _ _ ranked
  refine (Finset.ssubset_iff_of_subset fewer).mpr ⟨j, ?_, fun still => ?_⟩
  · exact Finset.mem_filter.mpr ⟨Finset.mem_erase.mpr ⟨other, Finset.mem_univ j⟩, before⟩
  · have early := (Finset.mem_filter.mp still).2
    rw [marks, if_pos (show Sends j state turn from sent)] at early
    exact absurd early (UInt64.not_le.mpr late)

end Waiting

/-- What the turns of a run may do before their exports. -/
def TurnChurns (state : FleeceStateManager × UInt64) (turn : Turn) : Prop :=
  Along Operation.next Churns state.1 turn.before

instance (state : FleeceStateManager × UInt64) (turn : Turn) : Decidable (TurnChurns state turn) :=
  inferInstanceAs (Decidable (Along _ _ _ _))

/-- The clock has moved since the export before. -/
def Advances (state : FleeceStateManager × UInt64) (turn : Turn) : Prop :=
  state.1.localTimestamp < (state.1.after turn.before).localTimestamp

instance (state : FleeceStateManager × UInt64) (turn : Turn) : Decidable (Advances state turn) :=
  inferInstanceAs (Decidable (_ < _))

/-- With more turns than slots that can go first, the waiting slot is sent. -/
theorem Waits.sometime_sent {i : Fin fieldCapacity} {mark : UInt64}
    {state : FleeceStateManager × UInt64} (waits : Waits i mark state) {turns : List Turn}
    (churns : Along exportTurn TurnChurns state turns)
    (advances : Along exportTurn Advances state turns)
    (enough : (state.1.ahead i mark).card < turns.length) :
    Sometime exportTurn (Sends i) state turns := by
  induction turns generalizing state with
  | nil => exact absurd enough (Nat.not_lt_zero _)
  | cons turn rest inductionHypothesis =>
    by_cases sent : Sends i state turn
    · exact .inl sent
    · have fewer := Finset.card_lt_card (waits.overtaken churns.1 advances.1 sent)
      refine .inr (inductionHypothesis (waits.next churns.1 sent) churns.2 advances.2 ?_)
      exact lt_of_lt_of_le fewer (Nat.le_of_lt_succ enough)

/-- A record that is pending in any reachable store is sent, as it stands then, by one of the next
129 exports, each of which starts at the watermark of the one before: whatever their caps, and
whatever is written, deleted and merged in between, as long as the clock has moved from each export
to the next and stays below its largest value. -/
theorem pending_sent_within {nodeId : UInt64} {start : FleeceStateManager}
    (created : createWithNodeId nodeId = some start) (operations : List Operation)
    (below : Along Operation.next
      (fun state operation => (operation.next state).localTimestamp ≠ clockMax) start operations)
    (since : UInt64) {i : Fin fieldCapacity} (eligible : i ∈ (start.after operations).pending since)
    (first : Turn) (later : List Turn) (many : (first :: later).length = 129)
    (churns : Along exportTurn TurnChurns (start.after operations, since) (first :: later))
    (advances : Along exportTurn Advances (exportTurn (start.after operations, since) first) later) :
    Sometime exportTurn (Sends i) (start.after operations, since) (first :: later) := by
  have zero : start.localTimestamp ≠ clockMax := by
    unfold createWithNodeId at created
    split_ifs at created
    rw [← Option.some.inj created]
    exact (by decide : (0 : UInt64) ≠ clockMax)
  obtain ⟨noWrap, small⟩ := noWrap_of_below zero below
  have waits : Waits i ((start.after operations).fields i).lastExportTs
      (start.after operations, since) :=
    ⟨(invariant_create created).after noWrap, small, eligible, rfl⟩
  by_cases sent : Sends i (start.after operations, since) first
  · exact .inl sent
  · refine .inr ((waits.next churns.1 sent).sometime_sent churns.2 advances ?_)
    refine lt_of_le_of_lt (Finset.card_filter_le _ _) ?_
    rw [Finset.card_erase_of_mem (Finset.mem_univ i), Finset.card_univ, Fintype.card_fin]
    rw [Nat.succ.inj many]
    decide

theorem localTimestamp_setShared (manager : FleeceStateManager) {name : CString} {data : Blob}
    (accepted : (name.chars.isEmpty || data.size == 0) = false) :
    (manager.setShared name data).1.localTimestamp = manager.localTimestamp + 1 := by
  unfold setShared
  rw [accepted, if_neg Bool.false_ne_true]
  rcases upsertField_cases manager.noteWrite.advanceClock (hashName name) sharedOwnerId
    manager.nodeId (some name) data (manager.localTimestamp + 1) false with
    ⟨result, _⟩ | ⟨f, next, result, _, rest, _⟩
  · rw [result]
    rfl
  · rw [result, rest]
    rfl

/-- A field that is rewritten before every export is churn that moves the clock. -/
theorem along_rewrites {name : CString} {data : Blob}
    (accepted : (name.chars.isEmpty || data.size == 0) = false) (capBytes count : Nat)
    (state : FleeceStateManager × UInt64)
    (small : state.1.localTimestamp.toNat + count < clockMax.toNat) :
    Along exportTurn (fun state turn => TurnChurns state turn ∧ Advances state turn) state
      (List.replicate count ⟨[.write (.setShared name data)], capBytes⟩) := by
  induction count generalizing state with
  | zero => trivial
  | succ count inductionHypothesis =>
    have clock := localTimestamp_setShared state.1 accepted
    have next : (state.1.localTimestamp + 1).toNat = state.1.localTimestamp.toNat + 1 := by
      rw [UInt64.toNat_add]
      exact Nat.mod_eq_of_lt (lt_of_le_of_lt (by rw [UInt64.toNat_one]; omega) clockMax.toNat_lt)
    rw [List.replicate_succ]
    refine ⟨⟨⟨⟨rfl, fun largest => ?_⟩, trivial⟩, ?_⟩, inductionHypothesis _ ?_⟩
    · rw [next_setShared, clock] at largest
      rw [largest] at next
      omega
    · show state.1.localTimestamp < (state.1.setShared name data).1.localTimestamp
      rw [clock, UInt64.lt_iff_toNat_lt, next]
      exact Nat.lt_succ_self _
    · show (state.1.setShared name data).1.localTimestamp.toNat + count < _
      rw [clock, next]
      omega

/-- A record that was written once, beside one that is rewritten before every export, with room
for one record in a frame. -/
theorem pending_sent_within_rewrites :
    let write : Operation := .write (.setShared ⟨[0x61], by decide⟩ ⟨[1], by decide⟩)
    let rewrite : Operation := .write (.setShared ⟨[0x62], by decide⟩ ⟨[2], by decide⟩)
    0 ∈ ((blank 7).after [write]).pending 0 ∧
      Sometime exportTurn (Sends 0) ((blank 7).after [write], 0)
        (⟨[], 0⟩ :: List.replicate 128 ⟨[rewrite], 0⟩) := by
  intro write rewrite
  have isPending : 0 ∈ ((blank 7).after [write]).pending 0 := by decide +kernel
  have along : Along exportTurn (fun state turn => TurnChurns state turn ∧ Advances state turn)
      (exportTurn ((blank 7).after [write], 0) ⟨[], 0⟩) (List.replicate 128 ⟨[rewrite], 0⟩) :=
    along_rewrites rfl 0 128 _ (by decide +kernel)
  refine ⟨isPending, pending_sent_within (show createWithNodeId 7 = some (blank 7) from rfl) [write]
    (by decide +kernel) 0 isPending ⟨[], 0⟩ _ (by rw [List.length_cons, List.length_replicate])
    ⟨trivial, ?_⟩ ?_⟩
  · exact along.mono fun _ _ both => both.1
  · exact along.mono fun _ _ both => both.2

end FleeceStateManager

end Fleece
