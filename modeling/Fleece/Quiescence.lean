/-
This file is about a mesh that comes to rest: no node has a record above its
watermark, and every frame that was broadcast has reached every other node, at any time
and in any order. Then all nodes hold the same shared fields. Nothing else has to be
delivered: no index, no request and no reply.

A node's own records are stamped above its watermark, so only a delta passes them, and
that delta carries them. The records of others may fall below the watermark and stay
there; they are not this node's to tell.
-/

import Fleece.Mesh

namespace Fleece

namespace World

variable {Node : Type} [DecidableEq Node] {world : World Node} {ids : Node → UInt64}

/-- Every record that is known is in the log of its author, and there are finitely many. -/
structure Attributed (ids : Node → UInt64) (world : World Node) : Prop where
  authored (entry : UInt32 × GossipRecord) : world.Known entry →
    ∃ author, entry.2.originNodeId = ids author ∧ entry ∈ world.log author
  finite : {entry | world.Known entry}.Finite

/-- A node logs records that are known or its own. -/
theorem Attributed.update (attributed : world.Attributed ids) {node : Node} {operation : Operation}
    {entries : List (UInt32 × GossipRecord)}
    (new : ∀ entry ∈ entries, world.Known entry ∨ entry.2.originNodeId = ids node) :
    (world.update node operation entries).Attributed ids where
  authored entry known := by
    have before (old : world.Known entry) : ∃ author, entry.2.originNodeId = ids author ∧
        entry ∈ (world.update node operation entries).log author := by
      obtain ⟨author, origin, logged⟩ := attributed.authored entry old
      exact ⟨author, origin, mem_log_update.mpr (Or.inl logged)⟩
    rcases known_update.mp known with old | member
    · exact before old
    · rcases new entry member with old | own
      · exact before old
      · exact ⟨node, own, mem_log_update.mpr (Or.inr ⟨rfl, member⟩)⟩
  finite := by
    refine (attributed.finite.union (List.finite_toSet entries)).subset fun entry known => ?_
    exact known_update.mp known

theorem Attributed.step (attributed : world.Attributed ids) (invariant : world.Invariant ids)
    (distinct : Function.Injective ids) {act : Act Node} (legal : world.Legal act) :
    (world.step act).Attributed ids := by
  have nothing (node : Node) (operation : Operation) :
      (world.update node operation []).Attributed ids :=
    attributed.update fun entry absent => absurd absent List.not_mem_nil
  cases act with
  | write node change =>
    refine attributed.update fun entry wrote => Or.inr ?_
    rw [← invariant.identity]
    exact (RuntimeMesh.written_stamp invariant legal.1 legal.2.1 wrote).1
  | keep node operation => exact nothing node operation
  | send node kind =>
    exact ⟨(nothing node kind.operation).authored, (nothing node kind.operation).finite⟩
  | deliver node index =>
    simp only [World.step]
    cases found : world.sent[index]? with
    | none => exact attributed
    | some post =>
      simp only [Legal, found] at legal
      refine attributed.update fun entry merged => Or.inl ?_
      exact RuntimeMesh.known_of_merged invariant distinct legal.1
        (List.mem_of_getElem? found) merged

theorem attributed_run (distinct : Function.Injective ids) {managers : Node → FleeceStateManager}
    (created : ∀ node, FleeceStateManager.createWithNodeId (ids node) = some (managers node))
    {acts : List (Act Node)} (legal : Along step Legal (start managers) acts) :
    (runFrom step (start managers) acts).Attributed ids := by
  have nothing (entry : UInt32 × GossipRecord) : ¬ (start managers).Known entry := by
    rintro ⟨_, absent⟩
    exact absurd absent List.not_mem_nil
  have keeps (world : World Node) (act : Act Node)
      (holds : world.Invariant ids ∧ world.Attributed ids) (allowed : world.Legal act) :
      (world.step act).Invariant ids ∧ (world.step act).Attributed ids := by
    have along : Along step Legal world [act] := ⟨allowed, trivial⟩
    exact ⟨holds.1.run distinct along, holds.2.step holds.1 distinct allowed⟩
  have initially : (start managers).Attributed ids :=
    ⟨fun entry known => absurd known (nothing entry),
      Set.finite_empty.subset fun entry known => absurd known (nothing entry)⟩
  exact (legal.invariant keeps ⟨invariant_start created, initially⟩).2

omit [DecidableEq Node] in
/-- A record of its own that a node holds after it has merged what others sent, it held before. -/
theorem own_held_before {next : World Node} (invariant : world.Invariant ids)
    (attributed : world.Attributed ids) (distinct : Function.Injective ids)
    (invariantNext : next.Invariant ids) (known : ∀ entry, next.Known entry → world.Known entry)
    {node : Node} (log : world.log node ⊆ next.log node) {key : UInt32} {record : GossipRecord}
    (held : (next.managers node).view (key, sharedOwnerId) = some record)
    (own : record.originNodeId = ids node) :
    (world.managers node).view (key, sharedOwnerId) = some record := by
  have logged := (invariantNext.summary node key).among record held
  have isKnown := known (key, record) ⟨node, logged⟩
  obtain ⟨author, origin, before⟩ := attributed.authored (key, record) isKnown
  rw [← distinct (own.symm.trans origin)] at before
  have among : {record | (key, record) ∈ world.log node} ⊆
      {record | (key, record) ∈ next.log node} :=
    fun other member => log member
  refine (invariant.summary node key).of_greatest among
    (fun first member second memberSecond same => ?_) (fun other member => ?_) before
  · exact (Prod.mk.inj (invariantNext.unique (key, first) (key, second) ⟨node, member⟩
      ⟨node, memberSecond⟩ same)).2
  · obtain ⟨best, same, above⟩ := (invariantNext.summary node key).greatest other member
    rw [held] at same
    rwa [Option.some.inj same]

end World

namespace FleeceRuntime

/-! ### What a node has told of its own records -/

/-- The record is one of the node's own only if it was broadcast. -/
def Told (runtime : FleeceRuntime) (record : GossipRecord) : Prop :=
  record.originNodeId = runtime.stateManager.nodeId →
    runtime.comms.Broadcast runtime.stateManager.nodeId record

/-- Every record of its own that the node holds at or below the watermark was broadcast. -/
structure Announced (runtime : FleeceRuntime) : Prop where
  packed : runtime.stateManager.PackedInvariant
  clock : runtime.stateManager.ClockInvariant
  behind : runtime.sharedGossipWatermark ≤ runtime.stateManager.localTimestamp
  upTo : runtime.stateManager.UpTo runtime.sharedGossipWatermark runtime.Told

theorem announced_create {nodeId : UInt64} {manager : FleeceStateManager}
    (created : FleeceStateManager.createWithNodeId nodeId = some manager) :
    (create manager).Announced :=
  have covered := covered_create created
  ⟨covered.packed, covered.clock, covered.behind,
    fun key record held early _ => covered.upTo key record held early⟩

section Announced

variable {runtime next : FleeceRuntime} (announced : runtime.Announced)
include announced

theorem Announced.talks (talks : runtime.Talks next) : next.Announced := by
  obtain ⟨store, watermark, sent⟩ := talks
  refine ⟨store ▸ announced.packed, store ▸ announced.clock, ?_, ?_⟩
  · rw [store, watermark]
    exact announced.behind
  · rw [store, watermark]
    intro key record held early own
    rw [store] at own ⊢
    exact (announced.upTo key record held early own).mono sent

/-- An operation on the store after which what it holds of the node's own up to the watermark was
held before or was broadcast. -/
theorem Announced.operation {operation : Operation} (stays : operation ≠ .compact)
    (noWrap : runtime.stateManager.NoWrap operation)
    (upTo : (operation.next runtime.stateManager).UpTo runtime.sharedGossipWatermark runtime.Told) :
    { runtime with
      stateManager := operation.next runtime.stateManager : FleeceRuntime }.Announced := by
  have store := announced.packed.store
  refine ⟨announced.packed.operation stays, ?_, ?_, ?_⟩
  · exact (FleeceStateManager.operation_keeps store announced.clock operation fun change isWrite =>
      noWrap (isWrite ▸ rfl)).1
  · exact UInt64.le_trans announced.behind (FleeceStateManager.clock_le_next store noWrap)
  · intro key record held early own
    have identity := FleeceStateManager.operation_nodeId store operation
    change record.originNodeId = (operation.next runtime.stateManager).nodeId at own
    show runtime.comms.Broadcast (operation.next runtime.stateManager).nodeId record
    rw [identity] at own ⊢
    exact upTo key record held early own

theorem Announced.bounded (since : UInt64) (capBytes : Nat) :
    { runtime with stateManager := (runtime.stateManager.exportSharedDeltaBounded since
      capBytes).manager : FleeceRuntime }.Announced := by
  refine announced.operation
    (show Operation.exportSharedDeltaBounded since capBytes ≠ .compact from nofun) nofun ?_
  refine announced.upTo.of_view fun key => announced.packed.view_next ?_ (Set.notMem_empty _)
  exact nofun

theorem Announced.sendDelta (isOpen : runtime.comms.isInitialized = true)
    (ready : ∀ i ∈ runtime.stateManager.pending runtime.sharedGossipWatermark,
      runtime.stateManager.fitsFrame (runtime.stateManager.fields i) = true ∧
        (runtime.stateManager.fields i).timestamp ≠ clockMax) :
    runtime.sendDelta.Announced := by
  have marked := announced.bounded runtime.sharedGossipWatermark gossipFrameBytes
  have unmarked := FleeceStateManager.exportSharedDeltaBounded_steps runtime.stateManager
    runtime.sharedGossipWatermark gossipFrameBytes
  have view : runtime.sendDelta.stateManager.view = runtime.stateManager.view :=
    FleeceStateManager.view_of_unmarked (FleeceStateManager.markSteps_rest unmarked).2
  refine ⟨marked.packed, marked.clock, watermark_sendDelta_le announced.clock,
    fun key record held early own => ?_⟩
  rw [view] at held
  by_cases before : record.timestamp ≤ runtime.sharedGossipWatermark
  · exact (announced.upTo key record held before own).mono (sent_send _ _ _)
  · exact delta_carries announced.packed isOpen ready held (UInt64.not_le.mp before) early

theorem Announced.turn (careful : runtime.Careful .turn) : runtime.gossipTurn.Announced := by
  have phase : runtime.gossipPhase.Announced := by
    unfold gossipPhase
    simp only
    split_ifs with due beacon
    · obtain ⟨isOpen, ready⟩ := careful due
      exact announced.sendDelta isOpen ready
    · exact (announced.bounded _ _).talks ⟨rfl, rfl, sent_send _ _ _⟩
    · exact announced
  have spoken := phase.talks (sendResyncRequests_talks _)
  unfold gossipTurn
  generalize runtime.gossipPhase.sendResyncRequests = last at spoken ⊢
  exact ⟨spoken.packed, spoken.clock, spoken.behind, spoken.upTo⟩

theorem Announced.write {change : LocalWrite}
    (small : runtime.stateManager.localTimestamp ≠ clockMax) :
    (runtime.step (.write change)).Announced :=
  announced.operation (show Operation.write change ≠ .compact from nofun) (fun _ => small)
    (announced.upTo.write announced.packed announced.behind small change)

/-- A frame that comes in leaves the watermark, and brings back no record of the node's own. -/
theorem Announced.receive {source : Destination} {data : Blob}
    (kept : ∀ key record, (runtime.step (.receive source data)).stateManager.view
      (key, sharedOwnerId) = some record → record.originNodeId = runtime.stateManager.nodeId →
      runtime.stateManager.view (key, sharedOwnerId) = some record) :
    (runtime.step (.receive source data)).Announced := by
  have talks := gossipReceive_talks runtime source data
  have store := talks.store
  unfold operationOfReceive at talks store
  split_ifs at talks store with control
  · exact announced.talks talks
  · refine Announced.talks (announced.operation
      (show Operation.importFrom data ≠ .compact from nofun) nofun
      fun key record held early own => ?_) talks
    refine announced.upTo key record (kept key record ?_ own) early own
    show (runtime.gossipReceive source data).stateManager.view (key, sharedOwnerId) = some record
    rw [store]
    exact held

end Announced

end FleeceRuntime

/-! ### The mesh at rest -/

/-- A frame from which a node reads records is gossip. -/
theorem operationOfReceive_of_parse {reader : UInt64} {frame : Blob} {parsed : ParsedFrame}
    (read : parseFrame reader frame = .ok parsed) :
    FleeceRuntime.operationOfReceive frame = some (.importFrom frame) := by
  obtain ⟨senderEnd, _, sender, _⟩ := reads_of_parseFrame read
  unfold readSender at sender
  split_ifs at sender with short
  have magic : frame.bytes.take 3 = gossipMagic := by
    have inside : 0 + 3 ≤ frame.bytes.length := Nat.not_lt.mp short
    unfold slice at sender
    rw [if_pos inside] at sender
    by_contra different
    simp [bind, Except.bind, different] at sender
  refine if_neg (not_or.mpr ⟨by omega, fun control => ?_⟩)
  have both : (frame.bytes.take 3).take 2 = gossipMagic.take 2 := congrArg _ magic
  rw [List.take_take, show min 2 3 = 2 from rfl, control.1] at both
  exact absurd both (by decide)

/-- Every shared record of a store with nothing to send is at or below the watermark. -/
theorem FleeceStateManager.le_of_quiet {manager : FleeceStateManager}
    (invariant : manager.StoreInvariant) {since : UInt64} (quiet : manager.countNewShared since = 0)
    {key : UInt32} {record : GossipRecord}
    (held : manager.view (key, sharedOwnerId) = some record) : record.timestamp ≤ since := by
  obtain ⟨f, found, rfl⟩ := Option.map_eq_some_iff.mp held
  obtain ⟨i, rfl, present, _, owned⟩ := FleeceStateManager.exists_of_lookup found
  by_contra later
  have foreign : (manager.fields i).nodeId ≠ manager.nodeId := by
    rw [owned]
    exact invariant.realNode.symm
  have exported : i ∈ manager.pending since := by
    rw [FleeceStateManager.mem_pending, FleeceStateManager.isExported, present, owned,
      beq_self_eq_true, invariant.named i present foreign, Bool.true_and, Bool.true_and,
      Bool.true_and, Bool.not_eq_true', decide_eq_false_iff_not]
    exact later
  rw [← FleeceStateManager.card_pending, Finset.card_eq_zero] at quiet
  exact Finset.notMem_empty i (quiet ▸ exported)

namespace RuntimeMesh

variable {Node : Type} [DecidableEq Node] {mesh : RuntimeMesh Node} {world : World Node}
  {ids : Node → UInt64}

/-- A delta that is due goes out over an open transport, in a frame that fits. -/
def Careful (mesh : RuntimeMesh Node) : Act Node → Prop
  | .run node .turn => (mesh.nodes node).Careful .turn
  | _ => True

instance (mesh : RuntimeMesh Node) (act : Act Node) : Decidable (mesh.Careful act) :=
  match act with
  | .run node .turn => inferInstanceAs (Decidable ((mesh.nodes node).Careful .turn))
  | .run _ (.write _) => .isTrue trivial
  | .run _ (.receive _ _) => .isTrue trivial
  | .run _ (.gossipFrame _) => .isTrue trivial
  | .run _ (.controlFrame _) => .isTrue trivial
  | .run _ .tick => .isTrue trivial
  | .run _ .initializeComms => .isTrue trivial
  | .run _ .close => .isTrue trivial
  | .run _ (.setGossipCadence _ _) => .isTrue trivial
  | .deliver _ _ _ _ => .isTrue trivial

theorem announced_step (refines : mesh.Refines world) (invariant : world.Invariant ids)
    (attributed : world.Attributed ids) (distinct : Function.Injective ids) {act : Act Node}
    (legal : mesh.Legal act) (careful : mesh.Careful act)
    (announced : ∀ node, (mesh.nodes node).Announced) (node : Node) :
    ((mesh.step act).nodes node).Announced := by
  have moved {mover : Node} {runtime : FleeceRuntime} (here : runtime.Announced) :
      (Function.update mesh.nodes mover runtime node).Announced := by
    rcases eq_or_ne node mover with rfl | different
    · rwa [Function.update_self]
    · rw [Function.update_of_ne different]
      exact announced node
  cases act with
  | run mover act =>
    refine moved ?_
    cases act with
    | write change => exact (announced mover).write legal.1
    | receive source data => exact legal.elim
    | gossipFrame data => exact legal.elim
    | controlFrame data => exact legal.elim
    | tick =>
      exact (announced mover).operation (show Operation.tick ≠ .compact from nofun) nofun
        ((announced mover).upTo.of_view fun key => rfl)
    | turn => exact (announced mover).turn careful
    | initializeComms => exact (announced mover).talks ⟨rfl, rfl, List.prefix_refl _⟩
    | close => exact (announced mover).talks ⟨rfl, rfl, List.prefix_refl _⟩
    | setGossipCadence gossipEvery beaconEvery =>
      simp only [FleeceRuntime.step, FleeceRuntime.setGossipCadence]
      split_ifs
      · exact announced mover
      · exact (announced mover).talks ⟨rfl, rfl, List.prefix_refl _⟩
  | deliver receiver sender source index =>
    obtain ⟨acts, along, follows, known, _⟩ := refines.step invariant distinct legal
    have store := follows.store receiver
    simp only [step] at store ⊢
    cases found : (mesh.nodes sender).comms.sent[index]? with
    | none => exact announced node
    | some post =>
      rw [found] at store
      refine moved ((announced receiver).receive fun key record held own => ?_)
      simp only [Function.update_self] at store
      rw [store] at held
      rw [refines.store] at own ⊢
      refine World.own_held_before invariant attributed distinct (invariant.run distinct along)
        (fun entry isKnown => ?_) (log_subset_run world acts receiver) held
        (own.trans (invariant.identity receiver))
      rcases known entry isKnown with before | ⟨writer, write, isWrite, _⟩
      · exact before
      · cases isWrite

theorem announced_run (distinct : Function.Injective ids) {managers : Node → FleeceStateManager}
    (created : ∀ node, FleeceStateManager.createWithNodeId (ids node) = some (managers node))
    (acts : List (Act Node)) (legal : Along step Legal (start managers) acts)
    (careful : Along step Careful (start managers) acts) (node : Node) :
    ((runFrom step (start managers) acts).nodes node).Announced := by
  induction acts using List.reverseRecOn generalizing node with
  | nil => exact FleeceRuntime.announced_create (created node)
  | append_singleton acts act inductionHypothesis =>
    obtain ⟨legalBefore, legalHere⟩ := along_append.mp legal
    obtain ⟨carefulBefore, carefulHere⟩ := along_append.mp careful
    obtain ⟨followed, along, holds⟩ := followed_run distinct created acts legalBefore
    rw [runFrom_append]
    exact announced_step holds.refines ((World.invariant_start created).run distinct along)
      (World.attributed_run distinct created along) distinct legalHere.1 carefulHere.1
      (inductionHypothesis legalBefore carefulBefore) node

omit [DecidableEq Node] in
/-- A record of its own that a node at rest holds is in the log of every node it was broadcast
to. -/
theorem told_of_quiet (refines : mesh.Refines world) (invariant : world.Invariant ids)
    (announced : ∀ node, (mesh.nodes node).Announced)
    (quiet : ∀ node, (mesh.nodes node).stateManager.countNewShared
      (mesh.nodes node).sharedGossipWatermark = 0)
    (heard : ∀ node sender, node ≠ sender → ∀ frame,
      (Destination.broadcast, frame) ∈ (mesh.nodes sender).comms.sent →
      frame ∈ mesh.delivered node)
    (distinct : Function.Injective ids) {author : Node} {key : UInt32} {record : GossipRecord}
    (own : record.originNodeId = ids author)
    (held : (world.managers author).view (key, sharedOwnerId) = some record) (node : Node) :
    (key, record) ∈ world.log node := by
  have logged := (invariant.summary author key).among record held
  rcases eq_or_ne node author with rfl | foreign
  · exact logged
  have identity : (mesh.nodes author).stateManager.nodeId = ids author := by
    rw [refines.store, invariant.identity]
  rw [← refines.store] at held
  have early := FleeceStateManager.le_of_quiet (announced author).packed.store (quiet author) held
  obtain ⟨frame, sent, reads⟩ := (announced author).upTo key record held early
    (own.trans identity.symm)
  have other : (world.managers node).nodeId ≠ (mesh.nodes author).stateManager.nodeId := by
    rw [invariant.identity, identity]
    exact distinct.ne foreign
  obtain ⟨parsed, read, stream, member⟩ := reads _ other
  have isGossip := operationOfReceive_of_parse read
  have exported := ((refines.posts author).sent _ sent).resolve_left (isGossip ▸ nofun)
  have carried := invariant.carried author frame exported _ (identity ▸ other) parsed read stream
    record member
  have label := invariant.keyed (key, record) ⟨author, logged⟩
  refine refines.heard node frame (heard node author foreign frame sent) isGossip _ ?_
  simp only [FleeceStateManager.merged, read, stream, if_true]
  rw [show (key, record) = record.keyed from Prod.ext label rfl]
  exact List.mem_map_of_mem (List.mem_filter.mpr ⟨member, carried.1.mergeable⟩)

/-- A mesh at rest agrees. After any legal run of nodes with distinct ids, in which every delta that
was due went out in a frame that fits, if no node has a record above its watermark and every frame
that was broadcast has reached every other node, then all nodes hold the same shared fields and
compute the same digest of them. -/
theorem quiet_mesh_agrees {ids : Node → UInt64} (distinct : Function.Injective ids)
    {managers : Node → FleeceStateManager}
    (created : ∀ node, FleeceStateManager.createWithNodeId (ids node) = some (managers node))
    (acts : List (Act Node)) (legal : Along step Legal (start managers) acts)
    (careful : Along step Careful (start managers) acts)
    (quiet : ∀ node, ((runFrom step (start managers) acts).nodes node).stateManager.countNewShared
      ((runFrom step (start managers) acts).nodes node).sharedGossipWatermark = 0)
    (heard : ∀ node sender, node ≠ sender → ∀ frame, (Destination.broadcast, frame) ∈
      ((runFrom step (start managers) acts).nodes sender).comms.sent →
      frame ∈ (runFrom step (start managers) acts).delivered node) (node other : Node) :
    (∀ key, ((runFrom step (start managers) acts).nodes node).stateManager.view
        (key, sharedOwnerId) =
      ((runFrom step (start managers) acts).nodes other).stateManager.view (key, sharedOwnerId)) ∧
      ((runFrom step (start managers) acts).nodes node).stateManager.computeStreamDigest
          sharedOwnerId =
        ((runFrom step (start managers) acts).nodes other).stateManager.computeStreamDigest
          sharedOwnerId := by
  obtain ⟨followed, along, ⟨refines, _, _⟩⟩ := followed_run distinct created acts legal
  have announced := announced_run distinct created acts legal careful
  have invariant := (World.invariant_start created).run distinct along
  have attributed := World.attributed_run distinct created along
  generalize runFrom step (start managers) acts = mesh at refines announced quiet heard ⊢
  generalize runFrom World.step (World.start managers) followed = world
    at refines invariant attributed
  have agree (key : UInt32) (node other : Node) :
      (world.managers node).view (key, sharedOwnerId) =
        (world.managers other).view (key, sharedOwnerId) := by
    have apart : Function.Injective (Prod.mk key : GossipRecord → UInt32 × GossipRecord) :=
      fun first second same => (Prod.mk.inj same).2
    have finite : (Set.preimage (Prod.mk key) {entry | world.Known entry}).Finite :=
      attributed.finite.preimage apart.injOn
    refine Register.agree_of_told (fun node => invariant.summary node key) finite
      (fun node record logged => ⟨node, logged⟩) (fun first known second knownSecond same => ?_)
      (fun record known => ?_) node other
    · exact (Prod.mk.inj (invariant.unique (key, first) (key, second) known knownSecond same)).2
    · obtain ⟨author, own, logged⟩ := attributed.authored (key, record) known
      exact ⟨author, logged, fun held =>
        told_of_quiet refines invariant announced quiet heard distinct own held⟩
  rw [refines.store, refines.store]
  refine ⟨fun key => agree key node other, ?_⟩
  refine FleeceStateManager.digest_congr (invariant.packed node).store.distinct
    (invariant.packed other).store.distinct fun key => ?_
  rw [FleeceStateManager.liveView, agree key node other, FleeceStateManager.liveView]

/-- Two nodes write one field at once, and each hears the delta of the other. -/
theorem quiet_mesh_agrees_on_conflict :
    let goal : CString := ⟨[0x67], by decide⟩
    let ids : Fin 2 → UInt64 := ![7, 9]
    let acts : List (Act (Fin 2)) := [.run 0 .initializeComms, .run 1 .initializeComms,
      .run 0 (.write (.setShared goal ⟨[1], by decide⟩)),
      .run 1 (.write (.setShared goal ⟨[2], by decide⟩)), .run 0 .turn, .run 1 .turn,
      .deliver 1 0 .mesh 0, .deliver 0 1 .mesh 0]
    let managers (node : Fin 2) := FleeceStateManager.blank (ids node)
    ((runFrom step (start managers) acts).nodes 0).stateManager.view
          (hashName goal, sharedOwnerId) =
        some ⟨9, false, .copy goal, 1, ⟨[2], by decide⟩⟩ ∧
      ((runFrom step (start managers) acts).nodes 1).stateManager.view
          (hashName goal, sharedOwnerId) =
        ((runFrom step (start managers) acts).nodes 0).stateManager.view
          (hashName goal, sharedOwnerId) := by
  intro goal ids acts managers
  have created (node : Fin 2) : FleeceStateManager.createWithNodeId (ids node) =
      some (managers node) := by
    fin_cases node <;> rfl
  have legal : Along step Legal (start managers) acts := by decide +kernel
  have careful : Along step Careful (start managers) acts := by decide +kernel
  have quiet : ∀ node, ((runFrom step (start managers) acts).nodes node).stateManager.countNewShared
      ((runFrom step (start managers) acts).nodes node).sharedGossipWatermark = 0 := by
    decide +kernel
  have heard : ∀ node sender, node ≠ sender → ∀ post ∈
      ((runFrom step (start managers) acts).nodes sender).comms.sent, post.1 = .broadcast →
      post.2 ∈ (runFrom step (start managers) acts).delivered node := by
    decide +kernel
  obtain ⟨same, _⟩ := quiet_mesh_agrees (show Function.Injective ids by decide) created acts legal
    careful quiet (fun node sender foreign frame sent => heard node sender foreign _ sent rfl) 1 0
  exact ⟨by decide +kernel, same (hashName goal)⟩

end RuntimeMesh

end Fleece
