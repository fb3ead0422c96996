/-
This file orders the versions of a field by `(timestamp, origin_node_id)` and
proves the two facts about the clock that last-writer-wins rests on. The clock is
at or above every stored timestamp, so a local write outranks whatever it
replaces. And the slot of a key under a foreign owner only ever moves up: each
step keeps it as it is, apart from its export time, or puts a strictly greater
version in its place.

Both hold as long as the clock does not wrap: a local write at `2^64 - 1` stamps
its slot with zero.
-/

import Fleece.Store

namespace Fleece

/-- The version of a record, compared first by timestamp and then by author. -/
def GossipRecord.version (record : GossipRecord) : ℕ ×ₗ ℕ :=
  toLex (record.timestamp.toNat, record.originNodeId.toNat)

/-- The pair that merges of a slot go by: its timestamp and its origin. -/
def FieldEntry.version (f : FieldEntry) : ℕ ×ₗ ℕ := f.record.version

/-- The order of the shared stream: the later timestamp wins, and on a tie the higher author. -/
def GossipRecord.Outranks (record old : GossipRecord) : Prop :=
  old.timestamp < record.timestamp ∨
    (old.timestamp = record.timestamp ∧ old.originNodeId < record.originNodeId)

instance (record old : GossipRecord) : Decidable (record.Outranks old) :=
  inferInstanceAs (Decidable (_ ∨ _))

theorem outranks_iff {record old : GossipRecord} :
    record.Outranks old ↔ old.version < record.version := by
  rw [GossipRecord.Outranks, GossipRecord.version, GossipRecord.version,
    Prod.Lex.toLex_lt_toLex, UInt64.lt_iff_toNat_lt, UInt64.lt_iff_toNat_lt, UInt64.toNat_inj]

theorem timestamp_le_of_version {record held : GossipRecord} (le : record.version ≤ held.version) :
    record.timestamp ≤ held.timestamp := by
  by_contra late
  exact absurd le (not_le.mpr (outranks_iff.mp (.inl (UInt64.not_le.mp late))))

theorem version_lt_iff {f g : FieldEntry} : f.version < g.version ↔ g.record.Outranks f.record :=
  outranks_iff.symm

theorem version_inj {record other : GossipRecord} :
    record.version = other.version ↔
      record.timestamp = other.timestamp ∧ record.originNodeId = other.originNodeId := by
  rw [GossipRecord.version, GossipRecord.version, toLex_inj, Prod.mk.injEq, UInt64.toNat_inj,
    UInt64.toNat_inj]

/-- The largest clock value. -/
abbrev clockMax : UInt64 := 0xFFFFFFFFFFFFFFFF

theorem lt_add_one_of_ne_max {clock : UInt64} (small : clock ≠ clockMax) : clock < clock + 1 := by
  grind

namespace FleeceStateManager

/-! ### Foreign slots move up -/

/-- Every slot of a foreign owner is still there, unchanged or under a greater version. -/
def Climbs (manager next : FleeceStateManager) : Prop :=
  next.nodeId = manager.nodeId ∧ ∀ key ownerNodeId f, ownerNodeId ≠ manager.nodeId →
    manager.lookup key ownerNodeId = some f →
    ∃ g, next.lookup key ownerNodeId = some g ∧ (unmarked g = unmarked f ∨ f.version < g.version)

theorem version_unmarked (f : FieldEntry) : (unmarked f).version = f.version := rfl

theorem version_of_unmarked {f g : FieldEntry} (same : unmarked g = unmarked f) :
    g.version = f.version := by
  rw [← version_unmarked, same, version_unmarked]

theorem Climbs.refl (manager : FleeceStateManager) : Climbs manager manager :=
  ⟨rfl, fun _ _ f _ found => ⟨f, found, Or.inl rfl⟩⟩

theorem Climbs.trans (first second third : FleeceStateManager) (lower : Climbs first second)
    (upper : Climbs second third) : Climbs first third := by
  refine ⟨upper.1.trans lower.1, fun key ownerNodeId f foreign found => ?_⟩
  obtain ⟨g, middle, firstMove⟩ := lower.2 key ownerNodeId f foreign found
  obtain ⟨h, last, secondMove⟩ := upper.2 key ownerNodeId g (lower.1 ▸ foreign) middle
  refine ⟨h, last, ?_⟩
  rcases firstMove with firstSame | firstUp <;> rcases secondMove with secondSame | secondUp
  · exact Or.inl (secondSame.trans firstSame)
  · exact Or.inr (version_of_unmarked firstSame ▸ secondUp)
  · exact Or.inr (version_of_unmarked secondSame ▸ firstUp)
  · exact Or.inr (firstUp.trans secondUp)

theorem climbs_of_same {manager next : FleeceStateManager} (fields : next.fields = manager.fields)
    (node : next.nodeId = manager.nodeId) : Climbs manager next := by
  refine ⟨node, fun key ownerNodeId f _ found => ⟨f, ?_, Or.inl rfl⟩⟩
  unfold lookup at found ⊢
  rwa [fields]

/-- Storing an entry that outranks the one it replaces moves its slot up and no other. -/
theorem Stored.climbs {manager next : FleeceStateManager} {f : FieldEntry}
    (stored : Stored manager next f) (node : next.nodeId = manager.nodeId)
    (invariant : manager.StoreInvariant)
    (newer : f.nodeId ≠ manager.nodeId → ∀ old, manager.lookup f.key f.nodeId = some old →
      old.version < f.version) : Climbs manager next := by
  refine ⟨node, fun key ownerNodeId old foreign found => ?_⟩
  by_cases same : (key, ownerNodeId) = (f.key, f.nodeId)
  · obtain ⟨keyEq, ownerEq⟩ := Prod.mk.inj same
    subst keyEq ownerEq
    exact ⟨f, stored.lookup_self invariant.distinct, Or.inr (newer foreign old found)⟩
  · refine ⟨old, ?_, Or.inl rfl⟩
    rwa [stored.lookup_of_ne same (invariant.spared foreign)]

theorem MarkStep.climbs {manager next : FleeceStateManager} (step : MarkStep manager next) :
    Climbs manager next := by
  have node : next.nodeId = manager.nodeId := by
    obtain ⟨i, rfl⟩ := step
    rfl
  refine ⟨node, fun key ownerNodeId f _ found => ?_⟩
  have marked := lookup_of_unmarked step.fields key ownerNodeId
  rw [found, Option.map_some] at marked
  obtain ⟨g, held, same⟩ := Option.map_eq_some_iff.mp marked
  exact ⟨g, held, Or.inl same⟩

theorem compact_climbs {manager : FleeceStateManager} (invariant : manager.StoreInvariant) :
    Climbs manager manager.compact := by
  refine ⟨rfl, fun key ownerNodeId f foreign found => ⟨f, ?_, Or.inl rfl⟩⟩
  rw [compact_lookup invariant.distinct fun i labelled => ?_]
  · exact found
  · obtain ⟨present, _, owner⟩ := fieldLabel_eq_some_iff.mp labelled
    exact keptByCompact_of_foreign invariant present (owner.symm ▸ foreign)

/-! ### The clock dominates -/

/-- The clock is at or above every stored timestamp and every export time. -/
structure ClockInvariant (manager : FleeceStateManager) : Prop where
  stamps : ∀ i, (manager.fields i).slotExists = true →
    (manager.fields i).timestamp ≤ manager.localTimestamp
  marks : ∀ i, (manager.fields i).lastExportTs ≤ manager.localTimestamp

theorem clockInvariant_create {nodeId : UInt64} {manager : FleeceStateManager}
    (created : createWithNodeId nodeId = some manager) : manager.ClockInvariant := by
  unfold createWithNodeId at created
  split_ifs at created
  rw [← Option.some.inj created]
  exact ⟨fun i present => absurd present Bool.false_ne_true, fun i => UInt64.le_refl 0⟩

theorem clockInvariant_of_same {manager next : FleeceStateManager}
    (fields : next.fields = manager.fields)
    (clock : manager.localTimestamp ≤ next.localTimestamp) (invariant : manager.ClockInvariant) :
    next.ClockInvariant := by
  refine ⟨fun i present => ?_, fun i => ?_⟩
  · rw [fields] at present ⊢
    exact UInt64.le_trans (invariant.stamps i present) clock
  · rw [fields]
    exact UInt64.le_trans (invariant.marks i) clock

theorem Stored.clockInvariant {manager next : FleeceStateManager} {f : FieldEntry}
    (stored : Stored manager next f) (clock : manager.localTimestamp ≤ next.localTimestamp)
    (stamp : f.timestamp ≤ next.localTimestamp) (invariant : manager.ClockInvariant) :
    next.ClockInvariant := by
  obtain ⟨i, fields, _, marked, _⟩ := stored.index
  refine ⟨fun j present => ?_, fun j => ?_⟩
  · rw [fields] at present ⊢
    rcases eq_or_ne j i with rfl | different
    · rwa [Function.update_self]
    · rw [Function.update_of_ne different] at present ⊢
      exact UInt64.le_trans (invariant.stamps j present) clock
  · rw [fields]
    rcases eq_or_ne j i with rfl | different
    · rw [Function.update_self, marked]
      exact UInt64.le_trans (invariant.marks j) clock
    · rw [Function.update_of_ne different]
      exact UInt64.le_trans (invariant.marks j) clock

theorem MarkStep.clockInvariant {manager next : FleeceStateManager} (step : MarkStep manager next)
    (invariant : manager.ClockInvariant) : next.ClockInvariant := by
  obtain ⟨i, rfl⟩ := step
  refine ⟨fun j present => ?_, fun j => ?_⟩
  · simp only at present ⊢
    rcases eq_or_ne j i with rfl | different
    · rw [Function.update_self] at present ⊢
      exact invariant.stamps j present
    · rw [Function.update_of_ne different] at present ⊢
      exact invariant.stamps j present
  · simp only
    rcases eq_or_ne j i with rfl | different
    · rw [Function.update_self]
      exact UInt64.le_refl _
    · rw [Function.update_of_ne different]
      exact invariant.marks j

/-- Every slot of the compacted array is an old slot or blank. -/
theorem compact_fields (manager : FleeceStateManager) (j : Fin fieldCapacity) :
    manager.compact.fields j = .zero ∨ ∃ i, manager.compact.fields j = manager.fields i := by
  rcases lt_or_ge j.val manager.compact.fieldCount with before | after
  · obtain ⟨_, i, held⟩ := Slots.retain_front keptByCompact .zero manager.fields before
    exact Or.inr ⟨i, held.symm⟩
  · have left := Slots.retain_beyond keptByCompact .zero manager.fields after
    split_ifs at left
    · exact Or.inl left
    · exact Or.inr ⟨j, left⟩

theorem compact_clockInvariant {manager : FleeceStateManager} (invariant : manager.ClockInvariant) :
    manager.compact.ClockInvariant := by
  refine ⟨fun j present => ?_, fun j => ?_⟩
  · rcases manager.compact_fields j with blank | ⟨i, held⟩
    · rw [blank] at present
      exact absurd present (by simp [FieldEntry.zero])
    · rw [held] at present ⊢
      exact invariant.stamps i present
  · rcases manager.compact_fields j with blank | ⟨i, held⟩
    · rw [blank]
      exact UInt64.zero_le
    · rw [held]
      exact invariant.marks i

/-! ### One operation -/

theorem MergeStep.keeps {manager next : FleeceStateManager} (step : MergeStep manager next)
    (invariant : manager.StoreInvariant) :
    next.StoreInvariant ∧ (manager.ClockInvariant → next.ClockInvariant) ∧
      Climbs manager next := by
  cases step with
  | quiet fields count node clock =>
    exact ⟨storeInvariant_of_same fields count node invariant,
      clockInvariant_of_same fields clock, climbs_of_same fields node⟩
  | merge f stored node clock stamp foreign named filled authored newer =>
    refine ⟨stored.storeInvariant node (fun _ => named) filled authored invariant,
      stored.clockInvariant (by rw [clock]; exact UInt64.le_refl _) (by rw [clock]; exact stamp),
      stored.climbs node invariant fun _ old found => version_lt_iff.mpr (newer old found)⟩

theorem mergeSteps_keep {manager next : FleeceStateManager}
    (steps : Relation.ReflTransGen MergeStep manager next) (invariant : manager.StoreInvariant) :
    next.StoreInvariant ∧ (manager.ClockInvariant → next.ClockInvariant) ∧
      Climbs manager next := by
  induction steps with
  | refl => exact ⟨invariant, id, Climbs.refl manager⟩
  | tail _ step inductionHypothesis =>
    obtain ⟨store, clock, climbs⟩ := inductionHypothesis
    obtain ⟨storeNext, clockNext, climbsNext⟩ := step.keeps store
    exact ⟨storeNext, clockNext ∘ clock, climbs.trans _ _ _ climbsNext⟩

theorem markSteps_keep {manager next : FleeceStateManager}
    (steps : Relation.ReflTransGen MarkStep manager next) (invariant : manager.StoreInvariant) :
    next.StoreInvariant ∧ (manager.ClockInvariant → next.ClockInvariant) ∧
      Climbs manager next := by
  induction steps with
  | refl => exact ⟨invariant, id, Climbs.refl manager⟩
  | tail _ step inductionHypothesis =>
    obtain ⟨store, clock, climbs⟩ := inductionHypothesis
    exact ⟨step.storeInvariant store, fun before => step.clockInvariant (clock before),
      climbs.trans _ _ _ step.climbs⟩

theorem WriteEffect.storeInvariant {manager next : FleeceStateManager}
    (effect : WriteEffect manager next) (store : manager.StoreInvariant) : next.StoreInvariant := by
  cases effect with
  | unchanged same => rwa [same]
  | noSlot fields count node tick => exact storeInvariant_of_same fields count node store
  | wrote f stored node tick stamp own filled authored =>
    exact stored.storeInvariant node (fun foreign => (own.resolve_left foreign).2.2) filled authored
      store

/-- A local write below the largest clock value keeps the clock above every timestamp and moves
foreign slots up. -/
theorem WriteEffect.keeps {manager next : FleeceStateManager} (effect : WriteEffect manager next)
    (store : manager.StoreInvariant) (clock : manager.ClockInvariant)
    (small : manager.localTimestamp ≠ clockMax) :
    next.ClockInvariant ∧ Climbs manager next := by
  have up := lt_add_one_of_ne_max small
  cases effect with
  | unchanged same =>
    rw [same]
    exact ⟨clock, Climbs.refl manager⟩
  | noSlot fields count node tick =>
    exact ⟨clockInvariant_of_same fields (tick ▸ UInt64.le_of_lt up) clock,
      climbs_of_same fields node⟩
  | wrote f stored node tick stamp own filled authored =>
    refine ⟨stored.clockInvariant (tick ▸ UInt64.le_of_lt up) ?_ clock,
      stored.climbs node store fun _ old found => version_lt_iff.mpr (Or.inl ?_)⟩
    · rw [stamp, tick]
      exact UInt64.le_refl _
    · obtain ⟨i, held, present, _⟩ := exists_of_lookup found
      show old.timestamp < f.timestamp
      rw [stamp, ← held]
      rw [← held] at present
      exact UInt64.lt_of_le_of_lt (clock.stamps i present) up

end FleeceStateManager

end Fleece
