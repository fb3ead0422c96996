/-
This file is about the order of the writes in a mesh. A write comes after every record
that its node has written or was handed before; through the clock, which a merge raises
to what it merges, it is stamped above all of them, and above what these came after in
turn. So a node that has seen a write shows nothing that the write came after, in
whatever order the frames reached it, and a deletion is not undone by what it deleted.
-/

import Fleece.Mesh

namespace Fleece.RuntimeMesh

variable {Node : Type} [DecidableEq Node] {ids : Node → UInt64}

/-- The node has written the record or was handed it in a frame. -/
def Seen (start : RuntimeMesh Node) (acts : List (Act Node)) (node : Node)
    (entry : UInt32 × GossipRecord) : Prop :=
  Wrote start acts node entry ∨ ∃ frame ∈ (runFrom step start acts).delivered node,
    FleeceRuntime.operationOfReceive frame = some (.importFrom frame) ∧
      entry ∈ ((runFrom step start acts).nodes node).stateManager.merged frame

/-- When the second record was written, its author had seen the first. -/
def Precedes (start : RuntimeMesh Node) (acts : List (Act Node))
    (first second : UInt32 × GossipRecord) : Prop :=
  ∃ before act rest node, acts = before ++ act :: rest ∧
    (runFrom step start before).Writes act node second ∧ Seen start before node first

theorem Followed.log_of_seen {start : RuntimeMesh Node} {acts : List (Act Node)}
    {world : World Node} (followed : Followed start (runFrom step start acts) acts world)
    {node : Node} {entry : UInt32 × GossipRecord} (seen : Seen start acts node entry) :
    entry ∈ world.log node := by
  rcases seen with wrote | ⟨frame, handed, isGossip, merged⟩
  · exact followed.logged node entry wrote
  · rw [followed.refines.store] at merged
    exact followed.refines.heard node frame handed isGossip entry merged

omit [DecidableEq Node] in
/-- What a node has logged it still holds, or a record stamped no earlier. -/
theorem stamp_le_held {world : World Node} (invariant : world.Invariant ids) {node : Node}
    {entry : UInt32 × GossipRecord} (logged : entry ∈ world.log node) :
    ∃ best, (world.managers node).view (entry.1, sharedOwnerId) = some best ∧
      entry.2.timestamp ≤ best.timestamp := by
  obtain ⟨best, held, le⟩ := (invariant.summary node entry.1).greatest entry.2 logged
  exact ⟨best, held, (Prod.Lex.le_iff.mp le).elim le_of_lt fun same => le_of_eq same.1⟩

omit [DecidableEq Node] in
theorem legal_of_writes {mesh : RuntimeMesh Node} {act : Act Node} (legal : mesh.Legal act)
    {node : Node} {write : SharedWrite} (isWrite : act = .run node (.write write.toLocal)) :
    (mesh.nodes node).stateManager.localTimestamp ≠ clockMax ∧
      write.name.chars.length < fieldNameMax ∧
      (mesh.nodes node).stateManager.hasRoom (.write write.toLocal) = true := by
  rw [isWrite] at legal
  obtain ⟨small, room⟩ := legal
  exact ⟨small, room write (by cases write <;> rfl)⟩

theorem precedes_lt (distinct : Function.Injective ids) {managers : Node → FleeceStateManager}
    (created : ∀ node, FleeceStateManager.createWithNodeId (ids node) = some (managers node))
    {acts : List (Act Node)} (legal : Along step Legal (start managers) acts)
    {first second : UInt32 × GossipRecord}
    (precedes : Precedes (start managers) acts first second) :
    first.2.timestamp < second.2.timestamp := by
  obtain ⟨before, act, rest, node, rfl, writes, seen⟩ := precedes
  obtain ⟨legalBefore, legalHere⟩ := along_append.mp legal
  obtain ⟨followed, along, holds⟩ := followed_run distinct created before legalBefore
  have invariant := (World.invariant_start created).run distinct along
  obtain ⟨write, isWrite, wrote, _⟩ := writes
  obtain ⟨small, short, room⟩ := legal_of_writes legalHere.1 isWrite
  rw [holds.refines.store] at small room wrote
  obtain ⟨best, held, le⟩ := stamp_le_held invariant (holds.log_of_seen seen)
  have reached := UInt64.le_trans le ((invariant.clock node).view_le held)
  rw [(written_stamp invariant short room wrote).2]
  exact UInt64.lt_of_le_of_lt reached (lt_add_one_of_ne_max small)

/-- Causes come first. In every legal run of a mesh of nodes with distinct ids, a record that was
written after another, directly or through others, has the greater timestamp; and a node that has
seen the later one does not show the earlier. -/
theorem causal_order_kept {ids : Node → UInt64} (distinct : Function.Injective ids)
    {managers : Node → FleeceStateManager}
    (created : ∀ node, FleeceStateManager.createWithNodeId (ids node) = some (managers node))
    (acts : List (Act Node)) (legal : Along step Legal (start managers) acts)
    {first second : UInt32 × GossipRecord}
    (caused : Relation.TransGen (Precedes (start managers) acts) first second) :
    first.2.timestamp < second.2.timestamp ∧
      (first.1 = second.1 → ∀ node, Seen (start managers) acts node second →
        ((runFrom step (start managers) acts).nodes node).stateManager.view
          (first.1, sharedOwnerId) ≠ some first.2) := by
  have earlier : first.2.timestamp < second.2.timestamp := by
    induction caused with
    | single precedes => exact precedes_lt distinct created legal precedes
    | tail _ precedes before =>
      exact UInt64.lt_trans before (precedes_lt distinct created legal precedes)
  refine ⟨earlier, fun sameKey node seen shown => ?_⟩
  obtain ⟨followed, along, holds⟩ := followed_run distinct created acts legal
  have invariant := (World.invariant_start created).run distinct along
  obtain ⟨best, held, le⟩ := stamp_le_held invariant (holds.log_of_seen seen)
  rw [holds.refines.store, sameKey, held] at shown
  rw [Option.some.inj shown] at le
  exact absurd earlier (UInt64.not_lt.mpr le)

/-- A node deletes what it has heard of, and a third node hears of the deletion first. -/
theorem causal_order_kept_deletion :
    let goal : CString := ⟨[0x67], by decide⟩
    let ids : Fin 3 → UInt64 := ![7, 9, 11]
    let managers (node : Fin 3) := FleeceStateManager.blank (ids node)
    let before : List (Act (Fin 3)) := [.run 0 .initializeComms, .run 1 .initializeComms,
      .run 0 (.write (.setShared goal ⟨[1], by decide⟩)), .run 0 .turn, .deliver 1 0 .mesh 0]
    let rest : List (Act (Fin 3)) := [.run 1 .turn, .deliver 2 1 .mesh 0, .deliver 2 0 .mesh 0]
    let acts := before ++ .run 1 (.write (.removeShared goal)) :: rest
    let written : GossipRecord := ⟨7, false, .copy goal, 1, ⟨[1], by decide⟩⟩
    let deleted : GossipRecord := ⟨9, true, .copy goal, 2, .empty⟩
    written.timestamp < deleted.timestamp ∧
      ((runFrom step (start managers) acts).nodes 2).stateManager.view
        (hashName goal, sharedOwnerId) ≠ some written := by
  intro goal ids managers before rest acts written deleted
  have created (node : Fin 3) : FleeceStateManager.createWithNodeId (ids node) =
      some (managers node) := by
    fin_cases node <;> rfl
  have legal : Along step Legal (start managers) acts := by decide +kernel
  have handed (acts : List (Act (Fin 3))) (node : Fin 3) (entry : UInt32 × GossipRecord)
      (reads : ∃ frame ∈ (runFrom step (start managers) acts).delivered node,
        (FleeceRuntime.operationOfReceive frame).isSome = true ∧
          entry ∈ ((runFrom step (start managers) acts).nodes node).stateManager.merged frame) :
      Seen (start managers) acts node entry := by
    obtain ⟨frame, member, isGossip, merged⟩ := reads
    refine Or.inr ⟨frame, member, operationOfReceive_of_ne_none ?_, merged⟩
    exact Option.isSome_iff_ne_none.mp isGossip
  have caused : Precedes (start managers) acts (hashName goal, written)
      (hashName goal, deleted) := by
    refine ⟨before, _, rest, 1, rfl, ⟨.removeShared goal, rfl, ?_, ?_⟩, handed before 1 _ ?_⟩
    · decide +kernel
    · decide +kernel
    · decide +kernel
  have heard : Seen (start managers) acts 2 (hashName goal, deleted) := by
    refine handed acts 2 _ ?_
    decide +kernel
  obtain ⟨earlier, hidden⟩ := causal_order_kept (show Function.Injective ids by decide) created acts
    legal (.single caused)
  exact ⟨earlier, hidden rfl 2 heard⟩

end Fleece.RuntimeMesh
