/-
This file is about what the targeted repair certifies. Each of two nodes diffs the
stream index of the other against its own store and finds nothing to fetch. The
index lists the live entries by key and timestamp, and the diff asks for a slot,
live or a tombstone, with a timestamp that is no older. So a key that is live at
one node is live at the other with the same timestamp, or was deleted there no
earlier; a delete that only one of them knows is left to the gossip.
-/

import Fleece.Convergence

namespace Fleece

/-- The index reply is read to its end, and the diff against it finds nothing to fetch. -/
def FleeceRuntime.Certifies (runtime : FleeceRuntime) (index : Blob) : Prop :=
  ∃ head pairs, readControlHead index.bytes index.size = .ok head ∧ head.tag = 1 ∧
    readPairs index.bytes index.size head.items.toNat head.pos [] = .ok pairs ∧
    (runtime.requestMissingKeys head.origin pairs).2 = false

theorem requestMissingKeys_eq_false_iff {runtime : FleeceRuntime} {origin : UInt64}
    {pairs : List (UInt64 × UInt64)} : (runtime.requestMissingKeys origin pairs).2 = false ↔
      FleeceRuntime.wantedKeys runtime.stateManager pairs = [] := by
  unfold FleeceRuntime.requestMissingKeys
  rw [← List.length_eq_zero_iff]
  simp only
  split_ifs with wanted
  · exact ⟨nofun, fun none => absurd wanted (none ▸ Nat.lt_irrefl 0)⟩
  · exact ⟨fun _ => Nat.eq_zero_of_not_pos wanted, fun _ => rfl⟩

theorem certifies_index_iff {runtime : FleeceRuntime} {manager : FleeceStateManager} :
    runtime.Certifies manager.exportSharedIndex ↔
      FleeceRuntime.wantedKeys runtime.stateManager (livePairs manager) = [] := by
  obtain ⟨pos, head, read⟩ := index_round_trip manager
  have count : (UInt64.ofNat (livePairs manager).length).toNat = (livePairs manager).length := by
    rw [UInt64.toNat_ofNat', Nat.mod_eq_of_lt ((length_livePairs_le manager).trans_lt (by decide))]
  constructor
  · rintro ⟨found, pairs, isHead, _, isRead, empty⟩
    rw [head] at isHead
    cases isHead
    rw [count, read] at isRead
    rw [Except.ok.inj isRead]
    exact requestMissingKeys_eq_false_iff.mp empty
  · intro empty
    refine ⟨_, _, head, rfl, ?_, requestMissingKeys_eq_false_iff.mpr empty⟩
    rw [count]
    exact read

namespace FleeceStateManager

theorem sharedAtLeast_ne_zero_iff {manager : FleeceStateManager} {key : UInt32}
    {timestamp : UInt64} : manager.sharedAtLeast key timestamp ≠ 0 ↔
      ∃ held, manager.view (key, sharedOwnerId) = some held ∧ timestamp ≤ held.timestamp := by
  unfold sharedAtLeast
  cases found : manager.findSlotOwned key sharedOwnerId with
  | none =>
    rw [view_eq_none_iff.mpr found]
    exact ⟨fun held => absurd rfl held, fun ⟨_, absent, _⟩ => nomatch absent⟩
  | some i =>
    rw [view_of_findSlotOwned found]
    simp only
    split_ifs with newer
    · exact ⟨fun _ => ⟨_, rfl, newer⟩, fun _ => by decide⟩
    · refine ⟨fun held => absurd rfl held, fun ⟨held, same, later⟩ => ?_⟩
      rw [← Option.some.inj same] at later
      exact absurd later newer

/-- One turn of the diff loop. -/
def wantKey (manager : FleeceStateManager) (wanted : List UInt32) (pair : UInt64 × UInt64) :
    List UInt32 :=
  if wanted.length < maxFetchKeys ∧ pair.1 ≤ 0xFFFFFFFF ∧
      manager.sharedAtLeast pair.1.toUInt32 pair.2 = 0 then
    wanted ++ [pair.1.toUInt32]
  else wanted

theorem prefix_foldl_wantKey (manager : FleeceStateManager) (pairs : List (UInt64 × UInt64))
    (wanted : List UInt32) : wanted <+: pairs.foldl manager.wantKey wanted := by
  induction pairs generalizing wanted with
  | nil => exact List.prefix_refl _
  | cons pair rest inductionHypothesis =>
    refine List.IsPrefix.trans ?_ (inductionHypothesis (manager.wantKey wanted pair))
    unfold wantKey
    split_ifs
    · exact List.prefix_append _ _
    · exact List.prefix_refl _

/-- Where the diff is empty, the store has reached every pair of the index. -/
theorem sharedAtLeast_of_wantedKeys {manager : FleeceStateManager} {pairs : List (UInt64 × UInt64)}
    (empty : FleeceRuntime.wantedKeys manager pairs = []) {pair : UInt64 × UInt64}
    (member : pair ∈ pairs) (inRange : pair.1 ≤ 0xFFFFFFFF) :
    manager.sharedAtLeast pair.1.toUInt32 pair.2 ≠ 0 := by
  obtain ⟨before, after, rfl⟩ := List.append_of_mem member
  have whole : (before ++ pair :: after).foldl manager.wantKey [] = [] := empty
  rw [List.foldl_append, List.foldl_cons] at whole
  have start : before.foldl manager.wantKey [] = [] := by
    have cut := manager.prefix_foldl_wantKey (pair :: after) (before.foldl manager.wantKey [])
    rw [List.foldl_cons, whole] at cut
    exact List.prefix_nil.mp cut
  have cut := manager.prefix_foldl_wantKey after
    (manager.wantKey (before.foldl manager.wantKey []) pair)
  rw [whole, start] at cut
  intro missing
  rw [wantKey, if_pos ⟨by decide, inRange, missing⟩] at cut
  exact absurd (List.prefix_nil.mp cut) (List.cons_ne_nil _ _)

theorem mem_livePairs {manager : FleeceStateManager} (invariant : manager.StoreInvariant)
    {key : UInt32} {record : GossipRecord}
    (live : manager.liveView (key, sharedOwnerId) = some record) :
    (key.toUInt64, record.timestamp) ∈ livePairs manager := by
  obtain ⟨held, alive⟩ := Option.filter_eq_some_iff.mp live
  obtain ⟨f, found, rfl⟩ := Option.map_eq_some_iff.mp held
  obtain ⟨i, rfl, present, rfl, owned⟩ := exists_of_lookup found
  refine List.mem_map.mpr ⟨_, List.mem_filter.mpr ⟨mem_slots.mpr ⟨i, rfl⟩, ?_⟩, rfl⟩
  have foreign : (manager.fields i).nodeId ≠ manager.nodeId := by
    rw [owned]
    exact invariant.realNode.symm
  rw [isLiveNamed_eq, present, owned, alive, Bool.true_and, Bool.true_and, beq_self_eq_true,
    Bool.true_and]
  exact invariant.named i present foreign

/-- The store has reached every live shared record of the other one: it holds the key with a
timestamp that is no older. -/
def Reaches (manager other : FleeceStateManager) : Prop :=
  ∀ key record, other.liveView (key, sharedOwnerId) = some record →
    ∃ held, manager.view (key, sharedOwnerId) = some held ∧ record.timestamp ≤ held.timestamp

theorem reaches_of_certifies {runtime : FleeceRuntime} {other : FleeceStateManager}
    (invariant : other.StoreInvariant) (certified : runtime.Certifies other.exportSharedIndex) :
    runtime.stateManager.Reaches other := by
  intro key record live
  have inRange : key.toUInt64 ≤ 0xFFFFFFFF := by
    rw [UInt64.le_iff_toNat_le, UInt32.toNat_toUInt64]
    exact Nat.le_of_lt_succ key.toNat_lt
  have reached := sharedAtLeast_of_wantedKeys (certifies_index_iff.mp certified)
    (mem_livePairs invariant live) inRange
  rw [UInt32.toUInt32_toUInt64] at reached
  exact sharedAtLeast_ne_zero_iff.mp reached

/-- What a certificate says of every live shared record of the other store: this store has deleted
its key no earlier, or holds it live with the same timestamp, and the same record if the author is
the same. -/
def CaughtUp (manager other : FleeceStateManager) : Prop :=
  ∀ key record, other.liveView (key, sharedOwnerId) = some record →
    ∃ held, manager.view (key, sharedOwnerId) = some held ∧
      (held.isTombstone = true ∧ record.timestamp ≤ held.timestamp ∨
        held.isTombstone = false ∧ held.timestamp = record.timestamp ∧
          (held.originNodeId = record.originNodeId → held = record))

/-- A shared key that both stores hold is deleted in both or live in both, under one author. -/
def SameLife (manager other : FleeceStateManager) : Prop :=
  ∀ key record held, manager.view (key, sharedOwnerId) = some record →
    other.view (key, sharedOwnerId) = some held →
    record.isTombstone = held.isTombstone ∧
      (record.isTombstone = false → record.originNodeId = held.originNodeId)

theorem caughtUp_of_reaches {manager other : FleeceStateManager} (reaches : manager.Reaches other)
    (reached : other.Reaches manager)
    (unique : ∀ key first second, manager.view (key, sharedOwnerId) = some first →
      other.view (key, sharedOwnerId) = some second → first.version = second.version →
      first = second) : manager.CaughtUp other := by
  intro key record live
  obtain ⟨held, found, newer⟩ := reaches key record live
  refine ⟨held, found, ?_⟩
  cases dead : held.isTombstone with
  | true => exact Or.inl ⟨rfl, newer⟩
  | false =>
    have alive : manager.liveView (key, sharedOwnerId) = some held := by
      rw [liveView, found, Option.filter_some, dead, Bool.not_false, if_pos rfl]
    obtain ⟨back, foundBack, newerBack⟩ := reached key held alive
    have there := (Option.filter_eq_some_iff.mp live).1
    rw [there] at foundBack
    rw [← Option.some.inj foundBack] at newerBack
    have stamp := UInt64.le_antisymm newerBack newer
    exact Or.inr ⟨rfl, stamp, fun author =>
      unique key held record found there (version_inj.mpr ⟨stamp, author⟩)⟩

/-- A live record of the other store is live here, if no delete and no other author is in the
way. -/
theorem CaughtUp.live {manager other : FleeceStateManager} (caught : manager.CaughtUp other)
    (life : manager.SameLife other) {key : UInt32} {record : GossipRecord}
    (live : other.liveView (key, sharedOwnerId) = some record) :
    manager.liveView (key, sharedOwnerId) = some record := by
  obtain ⟨there, alive⟩ := Option.filter_eq_some_iff.mp live
  obtain ⟨held, found, fate⟩ := caught key record live
  obtain ⟨sameFate, sameAuthor⟩ := life key held record found there
  rw [Bool.not_eq_true'] at alive
  rcases fate with ⟨dead, _⟩ | ⟨liveHere, _, same⟩
  · rw [dead, alive] at sameFate
    cases sameFate
  · rw [liveView, found, Option.filter_some, liveHere, Bool.not_false, if_pos rfl,
      same (sameAuthor liveHere)]

theorem SameLife.symm {manager other : FleeceStateManager} (life : manager.SameLife other) :
    other.SameLife manager := by
  intro key record held found foundOther
  obtain ⟨fate, author⟩ := life key held record foundOther found
  exact ⟨fate.symm, fun alive => (author (fate.trans alive)).symm⟩

end FleeceStateManager

namespace World

variable {Node : Type} [DecidableEq Node]

/-- Two nodes of any world a legal run reaches, each of which finds nothing to fetch in the index
of the other: each has caught up with the live records of the other, and where no key is deleted
at one of them only and none is live under two authors, they have the same live shared fields and
the same digest. -/
theorem empty_diffs_certify {ids : Node → UInt64} (distinct : Function.Injective ids)
    {managers : Node → FleeceStateManager}
    (created : ∀ node, FleeceStateManager.createWithNodeId (ids node) = some (managers node))
    (acts : List (Act Node)) (legal : Along step Legal (start managers) acts) (node other : Node)
    {first second : FleeceRuntime}
    (store : first.stateManager = (runFrom step (start managers) acts).managers node)
    (storeOther : second.stateManager = (runFrom step (start managers) acts).managers other)
    (certified : first.Certifies second.stateManager.exportSharedIndex)
    (certifiedOther : second.Certifies first.stateManager.exportSharedIndex) :
    first.stateManager.CaughtUp second.stateManager ∧
      second.stateManager.CaughtUp first.stateManager ∧
      (first.stateManager.SameLife second.stateManager →
        (∀ key, first.stateManager.liveView (key, sharedOwnerId) =
          second.stateManager.liveView (key, sharedOwnerId)) ∧
        first.stateManager.computeStreamDigest sharedOwnerId =
          second.stateManager.computeStreamDigest sharedOwnerId) := by
  have invariant := (invariant_start created).run distinct legal
  have packed := invariant.packed node
  have packedOther := invariant.packed other
  have unique (key : UInt32) (one two : GossipRecord)
      (held : first.stateManager.view (key, sharedOwnerId) = some one)
      (heldOther : second.stateManager.view (key, sharedOwnerId) = some two)
      (same : one.version = two.version) : one = two := by
    rw [store] at held
    rw [storeOther] at heldOther
    exact (Prod.mk.inj (invariant.unique (key, one) (key, two)
      ⟨node, (invariant.summary node key).among one held⟩
      ⟨other, (invariant.summary other key).among two heldOther⟩ same)).2
  rw [← store] at packed
  rw [← storeOther] at packedOther
  have reaches := FleeceStateManager.reaches_of_certifies packedOther.store certified
  have reached := FleeceStateManager.reaches_of_certifies packed.store certifiedOther
  have caught := FleeceStateManager.caughtUp_of_reaches reaches reached unique
  have caughtOther := FleeceStateManager.caughtUp_of_reaches reached reaches
    fun key one two held heldOther same => (unique key two one heldOther held same.symm).symm
  refine ⟨caught, caughtOther, fun life => ?_⟩
  have live (key : UInt32) : first.stateManager.liveView (key, sharedOwnerId) =
      second.stateManager.liveView (key, sharedOwnerId) := by
    ext record
    exact ⟨caughtOther.live life.symm, caught.live life⟩
  exact ⟨live, FleeceStateManager.digest_congr packed.store.distinct packedOther.store.distinct
    live⟩

/-- Two nodes after the field of one of them was delivered to the other. -/
theorem empty_diffs_certify_delivered :
    let goal : CString := ⟨[0x67], by decide⟩
    let ids : Fin 2 → UInt64 := ![7, 9]
    let acts : List (Act (Fin 2)) := [.write 0 (.setShared goal ⟨[1], by decide⟩),
      .send 0 .shared, .deliver 1 0]
    let world := runFrom step (start fun node => FleeceStateManager.blank (ids node)) acts
    (world.managers 1).liveView (hashName goal, sharedOwnerId) =
        some ⟨7, false, .copy goal, 1, ⟨[1], by decide⟩⟩ ∧
      (world.managers 0).liveView (hashName goal, sharedOwnerId) =
        (world.managers 1).liveView (hashName goal, sharedOwnerId) := by
  intro goal ids acts world
  have distinct : Function.Injective ids := by decide
  have created (node : Fin 2) : FleeceStateManager.createWithNodeId (ids node) =
      some (FleeceStateManager.blank (ids node)) := by
    fin_cases node <;> rfl
  have legal : Along step Legal (start fun node => FleeceStateManager.blank (ids node)) acts := by
    decide +kernel
  have learned : world.log 0 ⊆ world.log 1 ∧ world.log 1 ⊆ world.log 0 := by decide +kernel
  have same := ((invariant_start created).run distinct legal).agree fun entry =>
    ⟨fun member => learned.1 member, fun member => learned.2 member⟩
  have life : (world.managers 0).SameLife (world.managers 1) := by
    intro key record held found foundOther
    have identical := found.symm.trans ((same key).trans foundOther)
    rw [Option.some.inj identical]
    exact ⟨rfl, fun _ => rfl⟩
  have certified : (FleeceRuntime.create (world.managers 0)).Certifies
      (FleeceRuntime.create (world.managers 1)).stateManager.exportSharedIndex :=
    certifies_index_iff.mpr (by decide +kernel)
  have certifiedOther : (FleeceRuntime.create (world.managers 1)).Certifies
      (FleeceRuntime.create (world.managers 0)).stateManager.exportSharedIndex :=
    certifies_index_iff.mpr (by decide +kernel)
  have store (node : Fin 2) :
      (FleeceRuntime.create (world.managers node)).stateManager = world.managers node := rfl
  obtain ⟨_, _, agree⟩ := empty_diffs_certify distinct created acts legal 0 1 (store 0) (store 1)
    certified certifiedOther
  rw [store, store] at agree
  exact ⟨by decide +kernel, (agree life).1 _⟩

/-- A delete that one of two nodes does not know: both diffs are empty, and the field is live at
one node only. -/
theorem empty_diffs_miss_delete :
    let goal : CString := ⟨[0x67], by decide⟩
    let ids : Fin 2 → UInt64 := ![7, 9]
    let acts : List (Act (Fin 2)) := [.write 0 (.setShared goal ⟨[1], by decide⟩),
      .send 0 .shared, .deliver 1 0, .write 0 (.removeShared goal)]
    let world := runFrom step (start fun node => FleeceStateManager.blank (ids node)) acts
    let first := FleeceRuntime.create (world.managers 0)
    let second := FleeceRuntime.create (world.managers 1)
    Along step Legal (start fun node => FleeceStateManager.blank (ids node)) acts ∧
      first.Certifies (world.managers 1).exportSharedIndex ∧
      second.Certifies (world.managers 0).exportSharedIndex ∧
      (world.managers 0).liveView (hashName goal, sharedOwnerId) = none ∧
      (world.managers 1).liveView (hashName goal, sharedOwnerId) =
        some ⟨7, false, .copy goal, 1, ⟨[1], by decide⟩⟩ ∧
      (world.managers 0).computeStreamDigest sharedOwnerId ≠
        (world.managers 1).computeStreamDigest sharedOwnerId := by
  intro goal ids acts world first second
  refine ⟨by decide +kernel, certifies_index_iff.mpr (by decide +kernel),
    certifies_index_iff.mpr (by decide +kernel), by decide +kernel, by decide +kernel,
    by decide +kernel⟩

end World

end Fleece
