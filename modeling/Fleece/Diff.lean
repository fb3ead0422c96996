/-
This file compares the diff of the repair with the rule of the merge. The diff sees
the key and the timestamp of a record and asks for it if the slot of the key is
older or missing. The merge also compares authors: on equal timestamps the higher
one wins. So a record that is ahead by its author alone would change the slot, and
is never asked for.
-/

import Fleece.Fetch
import Fleece.Failures

namespace Fleece

namespace FleeceStateManager

/-- The pairs of an index that the diff finds to be missing or stale. -/
def stalePairs (manager : FleeceStateManager) (pairs : List (UInt64 × UInt64)) :
    List (UInt64 × UInt64) :=
  pairs.filter fun pair => decide (pair.1 ≤ 0xFFFFFFFF) &&
    decide (manager.sharedAtLeast pair.1.toUInt32 pair.2 = 0)

/-- Below the cap the diff loop asks for all of them. -/
theorem wantedKeys_of_few {manager : FleeceStateManager} {pairs : List (UInt64 × UInt64)}
    (few : (manager.stalePairs pairs).length ≤ maxFetchKeys) :
    FleeceRuntime.wantedKeys manager pairs =
      (manager.stalePairs pairs).map fun pair => pair.1.toUInt32 := by
  have loop (rest : List (UInt64 × UInt64)) (wanted : List UInt32)
      (few : wanted.length + (manager.stalePairs rest).length ≤ maxFetchKeys) :
      rest.foldl manager.wantKey wanted =
        wanted ++ (manager.stalePairs rest).map fun pair => pair.1.toUInt32 := by
    induction rest generalizing wanted with
    | nil => exact (List.append_nil wanted).symm
    | cons pair rest inductionHypothesis =>
      rw [List.foldl_cons]
      by_cases stale : pair.1 ≤ 0xFFFFFFFF ∧ manager.sharedAtLeast pair.1.toUInt32 pair.2 = 0
      · have listed : manager.stalePairs (pair :: rest) = pair :: manager.stalePairs rest := by
          unfold stalePairs
          rw [List.filter_cons_of_pos]
          rwa [Bool.and_eq_true, decide_eq_true_iff, decide_eq_true_iff]
        rw [listed, List.length_cons] at few
        have turn : manager.wantKey wanted pair = wanted ++ [pair.1.toUInt32] :=
          if_pos ⟨by omega, stale⟩
        rw [turn, listed, List.map_cons, inductionHypothesis]
        · rw [List.append_assoc, List.singleton_append]
        · rw [List.length_append, List.length_singleton]
          omega
      · have listed : manager.stalePairs (pair :: rest) = manager.stalePairs rest := by
          unfold stalePairs
          rw [List.filter_cons_of_neg]
          rwa [Bool.and_eq_true, decide_eq_true_iff, decide_eq_true_iff]
        have turn : manager.wantKey wanted pair = wanted := if_neg fun asked => stale asked.2
        rw [listed] at few ⊢
        rw [turn]
        exact inductionHypothesis wanted few
  have whole := loop pairs [] (by rwa [List.length_nil, Nat.zero_add])
  exact whole

/-- A live record of the responder is asked for if and only if the requester holds nothing as late
under its key. -/
theorem mem_wantedKeys_iff {requester responder : FleeceStateManager}
    (store : responder.StoreInvariant)
    (few : (requester.stalePairs (livePairs responder)).length ≤ maxFetchKeys) {key : UInt32}
    {record : GossipRecord} (live : responder.liveView (key, sharedOwnerId) = some record) :
    key ∈ FleeceRuntime.wantedKeys requester (livePairs responder) ↔
      ∀ held, requester.view (key, sharedOwnerId) = some held →
        held.timestamp < record.timestamp := by
  have asked : key ∈ FleeceRuntime.wantedKeys requester (livePairs responder) ↔
      requester.sharedAtLeast key record.timestamp = 0 := by
    rw [wantedKeys_of_few few, List.mem_map]
    constructor
    · rintro ⟨pair, stale, rfl⟩
      obtain ⟨listed, missing⟩ := List.mem_filter.mp stale
      obtain ⟨f, member, rfl⟩ := List.mem_map.mp listed
      obtain ⟨slot, isLive⟩ := List.mem_filter.mp member
      have carried := (carried_of_isLiveNamed slot isLive).1
      rw [UInt32.toUInt32_toUInt64] at missing live ⊢
      have found := (Option.filter_eq_some_iff.mp live).1
      rw [carried.view store.distinct] at found
      rw [← Option.some.inj found]
      exact of_decide_eq_true (Bool.and_eq_true_iff.mp missing).2
    · intro missing
      refine ⟨_, List.mem_filter.mpr ⟨mem_livePairs store live, ?_⟩, UInt32.toUInt32_toUInt64 key⟩
      have inRange : key.toUInt64 ≤ 0xFFFFFFFF := by
        rw [UInt64.le_iff_toNat_le, UInt32.toNat_toUInt64]
        exact Nat.le_of_lt_succ key.toNat_lt
      rw [UInt32.toUInt32_toUInt64, Bool.and_eq_true, decide_eq_true_iff, decide_eq_true_iff]
      exact ⟨inRange, missing⟩
  have reached := @sharedAtLeast_ne_zero_iff requester key record.timestamp
  rw [asked]
  constructor
  · intro missing held found
    by_contra late
    exact reached.mpr ⟨held, found, UInt64.not_lt.mp late⟩ missing
  · intro older
    by_contra present
    obtain ⟨held, found, late⟩ := reached.mp present
    exact UInt64.not_lt.mpr late (older held found)

/-- The merge of a live record changes the slot of its key if and only if there is a slot, and the
record outranks what is held under its key. -/
theorem mergeShared_changes_iff {manager : FleeceStateManager} (store : manager.StoreInvariant)
    {key : UInt32} {record : GossipRecord} (sendable : record.Sendable sharedOwnerId)
    (keyed : key = hashName record.name.toCString) :
    (manager.mergeShared record.originNodeId record.name.toCString record.data record.timestamp
        record.isTombstone).1.view (key, sharedOwnerId) ≠ manager.view (key, sharedOwnerId) ↔
      manager.hasSlot (key, sharedOwnerId) = true ∧
        ∀ held, manager.view (key, sharedOwnerId) = some held → record.Outranks held := by
  have outcome := mergeShared_outcome manager record.originNodeId record.name.toCString record.data
    record.timestamp record.isTombstone sendable.mergeable
  rw [GossipRecord.upserted_self sendable.filled, ← keyed] at outcome
  have raised := ((raiseClock_quiet manager record.timestamp).keeps store).1
  have view : (manager.raiseClock record.timestamp).view = manager.view := rfl
  generalize manager.mergeShared record.originNodeId record.name.toCString record.data
    record.timestamp record.isTombstone = result at outcome
  cases outcome with
  | kept old found stays =>
    refine iff_of_false (not_not.mpr (congrFun view _)) fun ahead => stays (ahead.2 old ?_)
    rwa [view] at found
  | noSlot absent full =>
    refine iff_of_false (not_not.mpr (congrFun view _)) fun ahead => ?_
    rw [view] at absent
    exact not_full_of_hasSlot ahead.1 absent full
  | stored next f storedAt rest label held newer =>
    rw [view] at newer
    have slot : manager.hasSlot (key, sharedOwnerId) = true := by
      rw [hasSlot, Bool.or_eq_true, decide_eq_true_iff]
      rcases storedAt.hasSlot with present | room
      · refine Or.inl (Option.isSome_iff_ne_none.mpr fun absent => present ?_)
        rw [← label] at absent
        exact view_eq_none_iff.mp absent
      · exact Or.inr room
    have now : next.view (key, sharedOwnerId) = some record := by
      rw [view_stored_foreign storedAt raised raised.realNode.symm, label, held,
        Function.update_self]
    refine iff_of_true (fun same => ?_) ⟨slot, newer⟩
    have before : manager.view (key, sharedOwnerId) = some record := same.symm.trans now
    exact lt_irrefl _ (outranks_iff.mp (newer record before))

/-- The diff agrees with the merge on one live record. -/
theorem diff_agrees_iff {requester responder : FleeceStateManager}
    (store : requester.StoreInvariant) (storeResponder : responder.StoreInvariant)
    (few : (requester.stalePairs (livePairs responder)).length ≤ maxFetchKeys) {key : UInt32}
    {record : GossipRecord} (live : responder.liveView (key, sharedOwnerId) = some record)
    (sendable : record.Sendable sharedOwnerId) (keyed : key = hashName record.name.toCString) :
    (key ∈ FleeceRuntime.wantedKeys requester (livePairs responder) ↔
        (requester.mergeShared record.originNodeId record.name.toCString record.data
          record.timestamp record.isTombstone).1.view (key, sharedOwnerId) ≠
            requester.view (key, sharedOwnerId)) ↔
      requester.hasSlot (key, sharedOwnerId) = true ∧
        ¬ ∃ held, requester.view (key, sharedOwnerId) = some held ∧
          held.timestamp = record.timestamp ∧ held.originNodeId < record.originNodeId := by
  rw [mem_wantedKeys_iff storeResponder few live, mergeShared_changes_iff store sendable keyed]
  cases found : requester.view (key, sharedOwnerId) with
  | none => simp
  | some held =>
    have slot : requester.hasSlot (key, sharedOwnerId) = true := by
      rw [hasSlot, found, Option.isSome_some, Bool.true_or]
    simp only [slot, true_and, Option.some.injEq, forall_eq', exists_eq_left',
      GossipRecord.Outranks]
    constructor
    · rintro same ⟨tie, higher⟩
      exact UInt64.ne_of_lt (same.mpr (Or.inr ⟨tie, higher⟩)) tie
    · intro noTie
      exact ⟨Or.inl, fun ahead => ahead.resolve_right noTie⟩

end FleeceStateManager

namespace World

variable {Node : Type} [DecidableEq Node]

/-- In every world a legal run reaches, for any two nodes and every key that is live at the second,
the first asks for the key when it reads the index of the second if and only if the merge of the
live record would change its slot, unless the first has no slot for the key, or holds it under the
same timestamp and a lower author. -/
theorem diff_agrees_unless_tied {ids : Node → UInt64} (distinct : Function.Injective ids)
    {managers : Node → FleeceStateManager}
    (created : ∀ node, FleeceStateManager.createWithNodeId (ids node) = some (managers node))
    (acts : List (Act Node)) (legal : Along step Legal (start managers) acts) (node other : Node)
    {key : UInt32} {record : GossipRecord}
    (live : ((runFrom step (start managers) acts).managers other).liveView (key, sharedOwnerId) =
      some record) :
    let requester := (runFrom step (start managers) acts).managers node
    let responder := (runFrom step (start managers) acts).managers other
    (requester.stalePairs (livePairs responder)).length ≤ maxFetchKeys →
    ((key ∈ requester.wantedFrom responder.exportSharedIndex ↔
        (requester.mergeShared record.originNodeId record.name.toCString record.data
          record.timestamp record.isTombstone).1.view (key, sharedOwnerId) ≠
            requester.view (key, sharedOwnerId)) ↔
      requester.hasSlot (key, sharedOwnerId) = true ∧
        ¬ ∃ held, requester.view (key, sharedOwnerId) = some held ∧
          held.timestamp = record.timestamp ∧ held.originNodeId < record.originNodeId) := by
  intro requester responder few
  have invariant := (invariant_start created).run distinct legal
  have store : requester.StoreInvariant := (invariant.packed node).store
  have storeOther : responder.StoreInvariant := (invariant.packed other).store
  have held : responder.view (key, sharedOwnerId) = some record :=
    (Option.filter_eq_some_iff.mp live).1
  have keyed : key = hashName record.name.toCString :=
    invariant.keyed (key, record) ⟨other, (invariant.summary other key).among record held⟩
  obtain ⟨f, found, rfl⟩ := Option.map_eq_some_iff.mp held
  obtain ⟨i, rfl, present, _, owner⟩ := FleeceStateManager.exists_of_lookup found
  have named : (responder.fields i).isNamed = true :=
    storeOther.named i present (owner ▸ storeOther.realNode.symm)
  have sendable := storeOther.sendable (FleeceStateManager.mem_slots.mpr ⟨i, rfl⟩) present named
  rw [owner] at sendable
  rw [FleeceStateManager.wantedFrom_index]
  exact FleeceStateManager.diff_agrees_iff store storeOther few live sendable keyed

/-- A field that one of two nodes has written, and the other lacks. -/
theorem diff_agrees_unless_tied_missing :
    let goal : CString := ⟨[0x67], by decide⟩
    let ids : Fin 2 → UInt64 := ![7, 9]
    let acts : List (Act (Fin 2)) := [.write 0 (.setShared goal ⟨[1], by decide⟩)]
    let world := runFrom step (start fun node => FleeceStateManager.blank (ids node)) acts
    (hashName goal ∈ (world.managers 1).wantedFrom (world.managers 0).exportSharedIndex ↔
      ((world.managers 1).mergeShared 7 (FieldName.copy goal).toCString ⟨[1], by decide⟩ 1
        false).1.view (hashName goal, sharedOwnerId) ≠
          (world.managers 1).view (hashName goal, sharedOwnerId)) := by
  intro goal ids acts world
  have distinct : Function.Injective ids := by decide
  have created (node : Fin 2) : FleeceStateManager.createWithNodeId (ids node) =
      some (FleeceStateManager.blank (ids node)) := by
    fin_cases node <;> rfl
  have legal : Along step Legal (start fun node => FleeceStateManager.blank (ids node)) acts := by
    decide +kernel
  have live : (world.managers 0).liveView (hashName goal, sharedOwnerId) =
      some ⟨7, false, .copy goal, 1, ⟨[1], by decide⟩⟩ := by decide +kernel
  have few : ((world.managers 1).stalePairs (livePairs (world.managers 0))).length ≤
      maxFetchKeys := by decide +kernel
  have slot : (world.managers 1).hasSlot (hashName goal, sharedOwnerId) = true := by
    decide +kernel
  have absent : (world.managers 1).view (hashName goal, sharedOwnerId) = none := by
    decide +kernel
  refine (diff_agrees_unless_tied distinct created acts legal 1 0 live few).mpr ⟨slot, ?_⟩
  rintro ⟨held, found, _⟩
  exact Option.some_ne_none held (found.symm.trans absent)

/-- Two nodes have written one field with the same timestamp. The node with the lower id does not
ask for the record of the other, which would win at the merge. -/
theorem diff_misses_tie :
    let goal : CString := ⟨[0x67], by decide⟩
    let ids : Fin 2 → UInt64 := ![7, 9]
    let acts : List (Act (Fin 2)) := [.write 0 (.setShared goal ⟨[1], by decide⟩),
      .write 1 (.setShared goal ⟨[2], by decide⟩)]
    let world := runFrom step (start fun node => FleeceStateManager.blank (ids node)) acts
    Along step Legal (start fun node => FleeceStateManager.blank (ids node)) acts ∧
      (world.managers 1).liveView (hashName goal, sharedOwnerId) =
        some ⟨9, false, .copy goal, 1, ⟨[2], by decide⟩⟩ ∧
      (world.managers 0).stalePairs (livePairs (world.managers 1)) = [] ∧
      hashName goal ∉ (world.managers 0).wantedFrom (world.managers 1).exportSharedIndex ∧
      ((world.managers 0).mergeShared 9 (FieldName.copy goal).toCString ⟨[2], by decide⟩ 1
        false).1.view (hashName goal, sharedOwnerId) ≠
          (world.managers 0).view (hashName goal, sharedOwnerId) := by
  decide +kernel

end World

end Fleece
