/-
This file is about nodes that run the loop of the runtime and hear each other over a
transport that promises nothing: any frame a node has handed over may reach any other
node, late, more than once or never. Between two deliveries a node writes, ticks, takes
turns of its main loop and opens or closes its transport.

Such a mesh is a world of stores whose exports are the frames of the gossip phase and
the value replies; control frames move nothing. So a record that is anywhere, in a
store or in a frame, is one that the node named as its author has written.
-/

import Fleece.Convergence
import Fleece.Outbox

namespace Fleece

/-- The shared write that a local write is, if it is one. -/
def LocalWrite.shared : LocalWrite → Option SharedWrite
  | .setShared name data => some (.setShared name data)
  | .removeShared name => some (.removeShared name)
  | .setSharedCas name expected data => some (.setSharedCas name expected data)
  | .set _ _ => none
  | .remove _ => none
  | .setNamed _ _ => none
  | .removeNamed _ => none

theorem LocalWrite.toLocal_of_shared {change : LocalWrite} {write : SharedWrite}
    (isShared : change.shared = some write) : write.toLocal = change := by
  cases change <;> cases isShared <;> rfl

theorem LocalWrite.isPrivate_of_shared {change : LocalWrite} (isOwn : change.shared = none) :
    (Operation.write change).isPrivate = true := by
  cases change <;> first | rfl | cases isOwn

/-- The nodes, and the frames each of them was handed, which the source does not keep. -/
structure RuntimeMesh (Node : Type) where
  nodes : Node → FleeceRuntime
  delivered : Node → List Blob

namespace RuntimeMesh

/-- What can happen: a step of a node on its own, and the delivery of a frame that a node has
handed to its transport, under some address. -/
inductive Act (Node : Type) where
  | run (node : Node) (act : FleeceRuntime.Act)
  | deliver (node sender : Node) (source : Destination) (index : Nat)

/-- The nodes before any step, with the stores they were created with. -/
def start {Node : Type} (managers : Node → FleeceStateManager) : RuntimeMesh Node :=
  ⟨fun node => .create (managers node), fun _ => []⟩

variable {Node : Type} [DecidableEq Node]

/-- What a step changes: one node, and what it was handed. -/
def step (mesh : RuntimeMesh Node) : Act Node → RuntimeMesh Node
  | .run node act =>
    { mesh with nodes := Function.update mesh.nodes node ((mesh.nodes node).step act) }
  | .deliver node sender source index =>
    match (mesh.nodes sender).comms.sent[index]? with
    | none => mesh
    | some post =>
      { nodes := Function.update mesh.nodes node ((mesh.nodes node).step (.receive source post.2))
        delivered := Function.update mesh.delivered node (mesh.delivered node ++ [post.2]) }

/-- A write does not wrap the clock; one of the shared stream is of a name of at most 63 bytes and
does not run out of slots. -/
def LegalWrite (manager : FleeceStateManager) (change : LocalWrite) : Prop :=
  manager.localTimestamp ≠ clockMax ∧ ∀ write ∈ change.shared,
    write.name.chars.length < fieldNameMax ∧ manager.hasRoom (.write change) = true

/-- A node's own step brings in no frame: frames come from the transport. -/
def LegalRun (manager : FleeceStateManager) : FleeceRuntime.Act → Prop
  | .write change => LegalWrite manager change
  | .receive _ _ => False
  | .gossipFrame _ => False
  | .controlFrame _ => False
  | _ => True

/-- No write and no import runs out of slots, no write wraps a clock, and no node is handed a frame
of its own. -/
def Legal (mesh : RuntimeMesh Node) : Act Node → Prop
  | .run node act => LegalRun (mesh.nodes node).stateManager act
  | .deliver node sender _ index => node ≠ sender ∧
    ∀ post ∈ (mesh.nodes sender).comms.sent[index]?,
      (mesh.nodes node).stateManager.hasRoom (.importFrom post.2) = true

instance (manager : FleeceStateManager) (change : LocalWrite) :
    Decidable (LegalWrite manager change) :=
  inferInstanceAs (Decidable (_ ∧ _))

instance (manager : FleeceStateManager) (act : FleeceRuntime.Act) :
    Decidable (LegalRun manager act) :=
  match act with
  | .write change => inferInstanceAs (Decidable (LegalWrite manager change))
  | .receive _ _ => .isFalse id
  | .gossipFrame _ => .isFalse id
  | .controlFrame _ => .isFalse id
  | .tick => .isTrue trivial
  | .turn => .isTrue trivial
  | .initializeComms => .isTrue trivial
  | .close => .isTrue trivial
  | .setGossipCadence _ _ => .isTrue trivial

instance (mesh : RuntimeMesh Node) (act : Act Node) : Decidable (mesh.Legal act) :=
  match act with
  | .run _ _ => inferInstanceAs (Decidable (LegalRun _ _))
  | .deliver _ _ _ _ => inferInstanceAs (Decidable (_ ∧ _))

/-- The record is under its key in some store, or some other node reads it in a frame that its
sender has handed to the transport or has waiting. -/
def Occurs (mesh : RuntimeMesh Node) (entry : UInt32 × GossipRecord) : Prop :=
  (∃ node, (mesh.nodes node).stateManager.view (entry.1, sharedOwnerId) = some entry.2) ∨
    ∃ sender frame reader parsed, (mesh.nodes sender).HasPost frame ∧
      FleeceRuntime.operationOfReceive frame = some (.importFrom frame) ∧
      reader ≠ (mesh.nodes sender).stateManager.nodeId ∧ parseFrame reader frame = .ok parsed ∧
      parsed.ownerNodeId = sharedOwnerId ∧ ∃ record ∈ parsed.records, entry = record.keyed

/-- The step is a shared write of the node that leaves the record, authored by the node. -/
def Writes (mesh : RuntimeMesh Node) (act : Act Node) (node : Node)
    (entry : UInt32 × GossipRecord) : Prop :=
  ∃ write : SharedWrite, act = .run node (.write write.toLocal) ∧
    entry ∈ (mesh.nodes node).stateManager.written write ∧
    entry.2.originNodeId = (mesh.nodes node).stateManager.nodeId

/-! ### The mesh is a world of stores -/

/-- A frame of a node asks nothing of a store, or the world has it as an export of the node. -/
def Exported (world : World Node) (node : Node) (data : Blob) : Prop :=
  FleeceRuntime.operationOfReceive data = none ∨ (node, data) ∈ world.sent

/-- The mesh is at a world of stores: the same stores, with every gossip frame among its exports. -/
structure Refines (mesh : RuntimeMesh Node) (world : World Node) : Prop where
  store (node : Node) : (mesh.nodes node).stateManager = world.managers node
  posts (node : Node) : (mesh.nodes node).Posts (Exported world node)
  /-- What a node was handed it has merged. -/
  heard (node : Node) : ∀ data ∈ mesh.delivered node,
    FleeceRuntime.operationOfReceive data = some (.importFrom data) →
      ∀ entry ∈ (world.managers node).merged data, entry ∈ world.log node

variable {mesh : RuntimeMesh Node} {world next : World Node} {ids : Node → UInt64}

omit [DecidableEq Node] in
theorem Exported.mono {node : Node} {data : Blob} (exported : Exported world node data)
    (kept : world.sent ⊆ next.sent) : Exported next node data :=
  exported.imp id fun member => kept member

theorem merged_congr {first second : FleeceStateManager} (same : first.nodeId = second.nodeId)
    (data : Blob) : first.merged data = second.merged data := by
  unfold FleeceStateManager.merged
  rw [same]

theorem log_subset_update (world : World Node) (node : Node) (operation : Operation)
    (entries : List (UInt32 × GossipRecord)) (other : Node) :
    world.log other ⊆ (world.update node operation entries).log other :=
  fun _ member => World.mem_log_update.mpr (Or.inl member)

theorem log_subset_step (world : World Node) (act : World.Act Node) (node : Node) :
    world.log node ⊆ (world.step act).log node := by
  cases act with
  | write other change => exact log_subset_update world other _ _ node
  | keep other operation => exact log_subset_update world other _ _ node
  | send other kind => exact log_subset_update world other kind.operation [] node
  | deliver other index =>
    simp only [World.step]
    split
    · exact List.Subset.refl _
    · exact log_subset_update world other _ _ node

theorem log_subset_run (world : World Node) (acts : List (World.Act Node)) (node : Node) :
    world.log node ⊆ (runFrom World.step world acts).log node :=
  List.foldlRecOn (motive := fun next : World Node => world.log node ⊆ next.log node) _ _
    (List.Subset.refl _) fun next kept act _ =>
      List.Subset.trans kept (log_subset_step next act node)

/-- One node moves, and the world with it. -/
theorem Refines.move (refines : mesh.Refines world) {node : Node} {runtime : FleeceRuntime}
    (store : next.managers = Function.update world.managers node runtime.stateManager)
    (identity : runtime.stateManager.nodeId = (world.managers node).nodeId)
    (sent : world.sent ⊆ next.sent) (log : ∀ other, world.log other ⊆ next.log other)
    (posts : runtime.Posts (Exported next node)) :
    Refines { mesh with nodes := Function.update mesh.nodes node runtime } next where
  store other := by
    rw [store]
    rcases eq_or_ne other node with rfl | different
    · simp only [Function.update_self]
    · simp only [Function.update_of_ne different]
      exact refines.store other
  posts other := by
    rcases eq_or_ne other node with rfl | different
    · simp only [Function.update_self]
      exact posts
    · simp only [Function.update_of_ne different]
      exact (refines.posts other).mono fun _ exported => exported.mono sent
  heard other data member isGossip entry merged := by
    refine log other (refines.heard other data member isGossip entry ?_)
    rw [store] at merged
    rcases eq_or_ne other node with rfl | different
    · rw [Function.update_self] at merged
      rwa [merged_congr identity] at merged
    · rwa [Function.update_of_ne different] at merged

/-- The world comes by a run to be what the mesh refines, and learns no record. -/
def Keeps (mesh : RuntimeMesh Node) (world : World Node) : Prop :=
  ∃ acts, Along World.step World.Legal world acts ∧
    mesh.Refines (runFrom World.step world acts) ∧
    ∀ entry, (runFrom World.step world acts).Known entry → world.Known entry

/-- The world follows a step of the mesh by a run: a record is then known if it was before or if the
step is its write, which the writer has logged. -/
def Follows (mesh : RuntimeMesh Node) (act : Act Node) (world : World Node) : Prop :=
  ∃ acts, Along World.step World.Legal world acts ∧
    (mesh.step act).Refines (runFrom World.step world acts) ∧
    (∀ entry, (runFrom World.step world acts).Known entry →
      world.Known entry ∨ ∃ node, mesh.Writes act node entry) ∧
    ∀ node entry, mesh.Writes act node entry →
      entry ∈ (runFrom World.step world acts).log node

theorem Follows.of_keeps {act : Act Node} (keeps : (mesh.step act).Keeps world)
    (silent : ∀ node entry, ¬ mesh.Writes act node entry) : mesh.Follows act world := by
  obtain ⟨acts, along, refines, known⟩ := keeps
  exact ⟨acts, along, refines, fun entry after => Or.inl (known entry after),
    fun node entry writes => absurd writes (silent node entry)⟩

omit [DecidableEq Node] in
theorem nodeId_next (invariant : world.Invariant ids) (node : Node) (operation : Operation) :
    (operation.next (world.managers node)).nodeId = (world.managers node).nodeId :=
  FleeceStateManager.operation_nodeId (invariant.packed node).store operation

/-- A node that exports a frame or none, and sends no other gossip. -/
theorem Refines.speak (refines : mesh.Refines world) (invariant : world.Invariant ids) {node : Node}
    {runtime : FleeceRuntime} (kind : Option GossipExport)
    (store : runtime.stateManager = FleeceRuntime.storeAfter (mesh.nodes node).stateManager
      (kind.map GossipExport.operation))
    (posts : ∀ met : Blob → Prop,
      (∀ data, FleeceRuntime.operationOfReceive data = none → met data) →
      (∀ asked, kind = some asked → met (asked.frame (mesh.nodes node).stateManager)) →
      (mesh.nodes node).Posts met → runtime.Posts met) :
    Keeps { mesh with nodes := Function.update mesh.nodes node runtime } world := by
  cases kind with
  | none =>
    refine ⟨[], trivial, refines.move ?_ ?_ (List.Subset.refl _) (fun _ => List.Subset.refl _) ?_,
      fun entry known => known⟩
    · rw [store, refines.store]
      exact (Function.update_eq_self node world.managers).symm
    · rw [store, refines.store]
      rfl
    · exact posts _ (fun _ isControl => Or.inl isControl) nofun (refines.posts node)
  | some kind =>
    refine ⟨[.send node kind], ⟨trivial, trivial⟩, refines.move ?_ ?_ ?_ ?_ ?_,
      fun entry known => ?_⟩
    · rw [store, refines.store]
      rfl
    · rw [store, refines.store]
      exact nodeId_next invariant node kind.operation
    · exact List.subset_append_left _ _
    · exact log_subset_update world node kind.operation []
    · refine posts _ (fun _ isControl => Or.inl isControl) (fun asked isAsked => ?_)
        ((refines.posts node).mono fun _ exported =>
          exported.mono (List.subset_append_left _ _))
      cases isAsked
      rw [refines.store]
      exact Or.inr (List.mem_append_right _ (List.mem_singleton.mpr rfl))
    · have after : (world.update node kind.operation []).Known entry := known
      exact (World.known_update.mp after).resolve_right List.not_mem_nil

/-- A write of the node's own, or a tick. -/
theorem Refines.keep (refines : mesh.Refines world) (invariant : world.Invariant ids) {node : Node}
    {operation : Operation} (legal : world.Legal (.keep node operation)) {runtime : FleeceRuntime}
    (store : runtime.stateManager = operation.next (mesh.nodes node).stateManager)
    (sent : runtime.comms = (mesh.nodes node).comms)
    (waiting : runtime.pendingTx = (mesh.nodes node).pendingTx) :
    Keeps { mesh with nodes := Function.update mesh.nodes node runtime } world := by
  refine ⟨[.keep node operation], ⟨legal, trivial⟩, refines.move ?_ ?_ (List.Subset.refl _) ?_ ?_,
    fun entry known => ?_⟩
  · rw [store, refines.store]
    rfl
  · rw [store, refines.store]
    exact nodeId_next invariant node operation
  · exact log_subset_update world node operation []
  · exact (refines.posts node).of_same (congrArg _ sent) waiting
  · exact (World.known_update.mp known).resolve_right List.not_mem_nil

omit [DecidableEq Node] in
/-- What a shared write leaves is authored by its node and stamped with the next clock value. -/
theorem written_stamp (invariant : world.Invariant ids) {node : Node} {write : SharedWrite}
    (short : write.name.chars.length < fieldNameMax)
    (room : (world.managers node).hasRoom (.write write.toLocal) = true)
    {entry : UInt32 × GossipRecord} (wrote : entry ∈ (world.managers node).written write) :
    entry.2.originNodeId = (world.managers node).nodeId ∧
      entry.2.timestamp = (world.managers node).localTimestamp + 1 := by
  have keyed (key : UInt32) (record : GossipRecord)
      (held : (world.managers node).view (key, sharedOwnerId) = some record) :
      key = hashName record.name.toCString :=
    invariant.keyed (key, record) ⟨node, (invariant.summary node key).among record held⟩
  unfold FleeceStateManager.written at wrote
  rcases FleeceStateManager.sharedWrite_outcome (invariant.packed node) keyed short room with
    ⟨failed, _⟩ | ⟨record, code, after, _, stamp, origin, _⟩
  · rw [if_neg failed] at wrote
    exact absurd wrote List.not_mem_nil
  · rw [if_pos code, after, Function.update_self] at wrote
    rw [List.mem_singleton.mp wrote]
    exact ⟨origin, stamp⟩

theorem Refines.write (refines : mesh.Refines world) (invariant : world.Invariant ids) {node : Node}
    {change : LocalWrite} (legal : mesh.Legal (.run node (.write change))) :
    mesh.Follows (.run node (.write change)) world := by
  obtain ⟨small, room⟩ := legal
  rw [refines.store] at small room
  cases isShared : change.shared with
  | none =>
    have legalKeep : world.Legal (.keep node (.write change)) :=
      ⟨LocalWrite.isPrivate_of_shared isShared, fun _ => small⟩
    refine .of_keeps (refines.keep invariant legalKeep rfl rfl rfl) fun other entry writes => ?_
    obtain ⟨write, isWrite, _⟩ := writes
    cases isWrite
    cases write <;> cases isShared
  | some write =>
    obtain ⟨short, slot⟩ := room write isShared
    have same := LocalWrite.toLocal_of_shared isShared
    refine ⟨[.write node write], ⟨⟨short, same ▸ slot, small⟩, trivial⟩,
      refines.move ?_ ?_ (List.Subset.refl _) ?_ ?_, fun entry known => ?_,
      fun other entry writes => ?_⟩
    · show _ = Function.update world.managers node (change.exec (mesh.nodes node).stateManager).1
      rw [refines.store, ← same]
      rfl
    · show (change.exec (mesh.nodes node).stateManager).1.nodeId = _
      rw [refines.store]
      exact nodeId_next invariant node (.write change)
    · exact log_subset_update world node _ _
    · exact (refines.posts node).of_same rfl rfl
    · refine (World.known_update.mp known).imp id fun wrote => ⟨node, write, ?_, ?_, ?_⟩
      · rw [same]
      · rwa [refines.store]
      · rw [refines.store]
        exact (written_stamp invariant short (same ▸ slot) wrote).1
    · obtain ⟨again, isWrite, wrote, _⟩ := writes
      obtain ⟨rfl, isAgain⟩ := Act.run.inj isWrite
      have isSame : write = again := by
        rw [FleeceRuntime.Act.write.inj isAgain] at isShared
        cases again <;> exact (Option.some.inj isShared).symm
      rw [refines.store, ← isSame] at wrote
      exact World.mem_log_update.mpr (Or.inr ⟨rfl, wrote⟩)

theorem operationOfTurn_eq (runtime : FleeceRuntime) :
    runtime.operationOfTurn = runtime.exportOfTurn.map GossipExport.operation := by
  unfold FleeceRuntime.operationOfTurn FleeceRuntime.exportOfTurn
  split_ifs <;> rfl

theorem Refines.run (refines : mesh.Refines world) (invariant : world.Invariant ids) {node : Node}
    {act : FleeceRuntime.Act} (legal : mesh.Legal (.run node act)) :
    mesh.Follows (.run node act) world := by
  have quiet {act : FleeceRuntime.Act} (keeps : Keeps { mesh with
      nodes := Function.update mesh.nodes node ((mesh.nodes node).step act) } world)
      (silent : ∀ change, act ≠ .write change) : mesh.Follows (.run node act) world := by
    refine .of_keeps keeps fun other entry writes => ?_
    obtain ⟨write, isWrite, _⟩ := writes
    exact silent _ (Act.run.inj isWrite).2
  cases act with
  | write change => exact refines.write invariant legal
  | receive source data => exact legal.elim
  | gossipFrame data => exact legal.elim
  | controlFrame data => exact legal.elim
  | tick =>
    have legalKeep : world.Legal (.keep node .tick) := ⟨rfl, nofun⟩
    exact quiet (refines.keep invariant legalKeep rfl rfl rfl) nofun
  | turn =>
    refine quiet (refines.speak invariant (mesh.nodes node).exportOfTurn ?_ ?_) nofun
    · rw [← operationOfTurn_eq]
      exact FleeceRuntime.stateManager_step (mesh.nodes node) .turn
    · intro met control exports posts
      exact posts.gossipTurn control exports
  | initializeComms =>
    exact quiet (refines.speak invariant none rfl fun _ _ _ posts => posts.of_same rfl rfl) nofun
  | close =>
    exact quiet (refines.speak invariant none rfl fun _ _ _ posts => posts.of_same rfl rfl) nofun
  | setGossipCadence gossipEvery beaconEvery =>
    refine quiet (refines.speak invariant none ?_ fun _ _ _ posts => ?_) nofun
    · exact FleeceRuntime.stateManager_step (mesh.nodes node) (.setGossipCadence _ _)
    · simp only [FleeceRuntime.step, FleeceRuntime.setGossipCadence]
      split_ifs
      · exact posts
      · exact posts.of_same rfl rfl

/-- A node is handed one more frame, which the world has merged. -/
theorem Refines.hear (refines : mesh.Refines world) {node : Node} {data : Blob}
    (merged : FleeceRuntime.operationOfReceive data = some (.importFrom data) →
      ∀ entry ∈ (world.managers node).merged data, entry ∈ world.log node) :
    Refines { mesh with
      delivered := Function.update mesh.delivered node (mesh.delivered node ++ [data]) } world where
  store := refines.store
  posts := refines.posts
  heard other frame member isGossip := by
    rcases eq_or_ne other node with rfl | different
    · simp only [Function.update_self] at member
      rcases List.mem_append.mp member with before | new
      · exact refines.heard other frame before isGossip
      · rw [List.mem_singleton.mp new] at isGossip ⊢
        exact merged isGossip
    · simp only [Function.update_of_ne different] at member
      exact refines.heard other frame member isGossip

omit [DecidableEq Node] in
/-- What a node merges of a frame that another has sent is known. -/
theorem known_of_merged (invariant : world.Invariant ids) (distinct : Function.Injective ids)
    {node sender : Node} (foreign : node ≠ sender) {frame : Blob}
    (sent : (sender, frame) ∈ world.sent) {entry : UInt32 × GossipRecord}
    (merged : entry ∈ (world.managers node).merged frame) : world.Known entry := by
  have other : (world.managers node).nodeId ≠ ids sender := by
    rw [invariant.identity]
    exact distinct.ne foreign
  unfold FleeceStateManager.merged at merged
  split at merged
  · exact absurd merged List.not_mem_nil
  · rename_i parsed read
    split_ifs at merged with stream
    · obtain ⟨record, member, rfl⟩ := List.mem_map.mp merged
      exact (invariant.carried sender frame sent _ other parsed read stream record
        (List.mem_filter.mp member).1).2
    · exact absurd merged List.not_mem_nil

/-- A value reply does not touch the store. -/
theorem storeAfter_exportOfReceive (manager : FleeceStateManager) (data : Blob) :
    FleeceRuntime.storeAfter manager
      ((FleeceRuntime.exportOfReceive data).map GossipExport.operation) = manager := by
  unfold FleeceRuntime.exportOfReceive FleeceRuntime.exportOfControl
  split_ifs
  · split
    · rfl
    · split_ifs
      · split
        · rfl
        · split_ifs <;> rfl
      · rfl
  · rfl

theorem operationOfReceive_of_ne_none {data : Blob}
    (isGossip : FleeceRuntime.operationOfReceive data ≠ none) :
    FleeceRuntime.operationOfReceive data = some (.importFrom data) := by
  unfold FleeceRuntime.operationOfReceive at isGossip ⊢
  split_ifs at isGossip ⊢
  · exact absurd rfl isGossip
  · rfl

/-- The frame is an export of the world, which delivers it too. -/
theorem Refines.imports (refines : mesh.Refines world) (invariant : world.Invariant ids)
    (distinct : Function.Injective ids) {node sender : Node} (foreign : node ≠ sender)
    {frame : Blob} (sent : (sender, frame) ∈ world.sent)
    (room : (mesh.nodes node).stateManager.hasRoom (.importFrom frame) = true)
    {received : FleeceRuntime} (stored : received.stateManager =
      (Operation.importFrom frame).next (mesh.nodes node).stateManager)
    (posts : received.Posts (Exported world node)) :
    Keeps ⟨Function.update mesh.nodes node received,
      Function.update mesh.delivered node (mesh.delivered node ++ [frame])⟩ world := by
  obtain ⟨number, exported⟩ := List.getElem?_of_mem sent
  rw [refines.store] at room stored
  have moved : World.step world (.deliver node number) = world.update node (.importFrom frame)
      ((world.managers node).merged frame) := by
    simp only [World.step, exported]
  have legal : world.Legal (.deliver node number) := by
    simp only [World.Legal, exported]
    exact ⟨foreign, room⟩
  have identity := nodeId_next invariant node (.importFrom frame)
  refine ⟨[.deliver node number], ⟨legal, trivial⟩, ?_, fun entry known => ?_⟩
  · rw [runFrom_cons, runFrom_nil, moved]
    have follows : Refines { mesh with nodes := Function.update mesh.nodes node received }
        (world.update node (.importFrom frame) ((world.managers node).merged frame)) := by
      refine refines.move ?_ ?_ (List.Subset.refl _) (log_subset_update world node _ _) posts
      · rw [stored]
        rfl
      · rw [stored]
        exact identity
    refine follows.hear fun _ entry merged => World.mem_log_update.mpr (Or.inr ⟨rfl, ?_⟩)
    have same : ((world.update node (.importFrom frame)
        ((world.managers node).merged frame)).managers node).nodeId =
          (world.managers node).nodeId := by
      show (Function.update world.managers node _ node).nodeId = _
      rw [Function.update_self]
      exact identity
    rwa [merged_congr same] at merged
  · rw [runFrom_cons, runFrom_nil, moved] at known
    exact (World.known_update.mp known).elim id (known_of_merged invariant distinct foreign sent)

/-- A frame of gossip asks for no value reply. -/
theorem exportOfReceive_of_gossip {data : Blob}
    (isGossip : FleeceRuntime.operationOfReceive data ≠ none) (kind : GossipExport) :
    FleeceRuntime.exportOfReceive data ≠ some kind := by
  intro asked
  unfold FleeceRuntime.exportOfReceive at asked
  split_ifs at asked with isControl
  exact isGossip (if_pos (Or.inr ⟨isControl.2.1, isControl.2.2.1⟩))

theorem Refines.deliver (refines : mesh.Refines world) (invariant : world.Invariant ids)
    (distinct : Function.Injective ids) {node sender : Node} {source : Destination} {index : Nat}
    (legal : mesh.Legal (.deliver node sender source index)) :
    mesh.Follows (.deliver node sender source index) world := by
  obtain ⟨foreign, room⟩ := legal
  refine .of_keeps ?_ fun _ _ ⟨_, isWrite, _⟩ => nomatch isWrite
  simp only [step]
  cases found : (mesh.nodes sender).comms.sent[index]? with
  | none => exact ⟨[], trivial, refines, fun entry known => known⟩
  | some post =>
    simp only
    have exported := (refines.posts sender).sent post (List.mem_of_getElem? found)
    have stored := FleeceRuntime.stateManager_step (mesh.nodes node) (.receive source post.2)
    have posts (met : Blob → Prop)
        (control : ∀ data, FleeceRuntime.operationOfReceive data = none → met data)
        (exports : ∀ asked, FleeceRuntime.exportOfReceive post.2 = some asked →
          met (asked.frame (mesh.nodes node).stateManager))
        (before : (mesh.nodes node).Posts met) :
        ((mesh.nodes node).step (.receive source post.2)).Posts met :=
      before.gossipReceive control source post.2 exports
    rw [FleeceRuntime.operationOf] at stored
    generalize (mesh.nodes node).step (.receive source post.2) = received at stored posts ⊢
    by_cases control : FleeceRuntime.operationOfReceive post.2 = none
    · have kept : received.stateManager =
          FleeceRuntime.storeAfter (mesh.nodes node).stateManager
            ((FleeceRuntime.exportOfReceive post.2).map GossipExport.operation) := by
        rw [stored, storeAfter_exportOfReceive, control]
        rfl
      obtain ⟨acts, along, follows, known⟩ := refines.speak invariant _ kept posts
      refine ⟨acts, along, follows.hear fun isGossip => ?_, known⟩
      rw [control] at isGossip
      cases isGossip
    · rw [operationOfReceive_of_ne_none control] at stored
      refine refines.imports invariant distinct foreign (exported.resolve_left control)
        (room post found) stored ?_
      exact posts _ (fun _ isControl => Or.inl isControl)
        (fun kind asked => absurd asked (exportOfReceive_of_gossip control kind))
        (refines.posts node)

theorem Refines.step (refines : mesh.Refines world) (invariant : world.Invariant ids)
    (distinct : Function.Injective ids) {act : Act Node} (legal : mesh.Legal act) :
    mesh.Follows act world := by
  cases act with
  | run node act => exact refines.run invariant legal
  | deliver node sender source index => exact refines.deliver invariant distinct legal

omit [DecidableEq Node] in
theorem refines_start (managers : Node → FleeceStateManager) :
    (start managers).Refines (World.start managers) where
  store _ := rfl
  posts _ := ⟨fun _ absent => absurd absent List.not_mem_nil, nofun⟩
  heard _ _ absent := absurd absent List.not_mem_nil

/-- The record was left by a write of the node in the run. -/
def Wrote (start : RuntimeMesh Node) (acts : List (Act Node)) (node : Node)
    (entry : UInt32 × GossipRecord) : Prop :=
  ∃ before act rest, acts = before ++ act :: rest ∧
    (runFrom step start before).Writes act node entry

theorem Wrote.append {start : RuntimeMesh Node} {acts : List (Act Node)} {node : Node}
    {entry : UInt32 × GossipRecord} (wrote : Wrote start acts node entry)
    (more : List (Act Node)) : Wrote start (acts ++ more) node entry := by
  obtain ⟨before, act, rest, rfl, writes⟩ := wrote
  exact ⟨before, act, rest ++ more, by rw [List.append_assoc, List.cons_append], writes⟩

/-- A write of a run with one more step is of the run before, or is the step. -/
theorem wrote_concat {start : RuntimeMesh Node} {acts : List (Act Node)} {act : Act Node}
    {node : Node} {entry : UInt32 × GossipRecord}
    (wrote : Wrote start (acts ++ [act]) node entry) :
    Wrote start acts node entry ∨ (runFrom step start acts).Writes act node entry := by
  obtain ⟨before, last, rest, split, writes⟩ := wrote
  rcases List.eq_nil_or_concat rest with rfl | ⟨front, final, rfl⟩
  · obtain ⟨rfl, same⟩ := List.append_inj' split rfl
    rw [List.cons.inj same |>.1]
    exact Or.inr writes
  · have ends : acts ++ [act] = (before ++ last :: front) ++ [final] := by
      rw [split, List.concat_eq_append, List.append_assoc, List.cons_append]
    obtain ⟨rfl, _⟩ := List.append_inj' ends rfl
    exact Or.inl ⟨before, last, front, rfl, writes⟩

/-- What holds of a world that follows a run of the mesh. -/
structure Followed (start mesh : RuntimeMesh Node) (acts : List (Act Node)) (world : World Node) :
    Prop where
  refines : mesh.Refines world
  /-- Every record that is known was written, -/
  written (entry : UInt32 × GossipRecord) : world.Known entry →
    ∃ author, Wrote start acts author entry
  /-- and is in the log of its author. -/
  logged (node : Node) (entry : UInt32 × GossipRecord) : Wrote start acts node entry →
    entry ∈ world.log node

/-- A legal run of the mesh is a legal run of a world of stores. -/
theorem followed_run (distinct : Function.Injective ids) {managers : Node → FleeceStateManager}
    (created : ∀ node, FleeceStateManager.createWithNodeId (ids node) = some (managers node))
    (acts : List (Act Node)) (legal : Along step Legal (start managers) acts) :
    ∃ followed, Along World.step World.Legal (World.start managers) followed ∧
      Followed (start managers) (runFrom step (start managers) acts) acts
        (runFrom World.step (World.start managers) followed) := by
  induction acts using List.reverseRecOn with
  | nil =>
    refine ⟨[], trivial, refines_start managers, fun entry known => ?_, fun node entry wrote => ?_⟩
    · obtain ⟨_, absent⟩ := known
      exact absurd absent List.not_mem_nil
    · obtain ⟨before, act, rest, split, _⟩ := wrote
      exact absurd split.symm
        (List.append_ne_nil_of_right_ne_nil before (List.cons_ne_nil act rest))
  | append_singleton acts act inductionHypothesis =>
    obtain ⟨before, here⟩ := along_append.mp legal
    obtain ⟨followed, along, holds⟩ := inductionHypothesis before
    have invariant := (World.invariant_start created).run distinct along
    obtain ⟨more, alongMore, refines, known, logged⟩ :=
      holds.refines.step invariant distinct here.1
    refine ⟨followed ++ more, along_append.mpr ⟨along, alongMore⟩, ?_⟩
    rw [runFrom_append, runFrom_append]
    refine ⟨refines, fun entry isKnown => ?_, fun node entry wrote => ?_⟩
    · rcases known entry isKnown with old | ⟨node, writes⟩
      · obtain ⟨author, wrote⟩ := holds.written entry old
        exact ⟨author, wrote.append [act]⟩
      · exact ⟨node, acts, act, [], rfl, writes⟩
    · rcases wrote_concat wrote with old | writes
      · exact log_subset_run _ more node (holds.logged node entry old)
      · exact logged node entry writes

omit [DecidableEq Node] in
theorem Refines.known_of_occurs (refines : mesh.Refines world) (invariant : world.Invariant ids)
    {entry : UInt32 × GossipRecord} (occurs : mesh.Occurs entry) : world.Known entry := by
  refine invariant.known_of_occurs ?_
  rcases occurs with ⟨node, held⟩ |
    ⟨sender, frame, reader, parsed, has, isGossip, foreign, read, stream, carried⟩
  · rw [refines.store] at held
    exact Or.inl ⟨node, held⟩
  · rw [refines.store] at foreign
    have exported := (refines.posts sender).of_hasPost has
    have sent := exported.resolve_left (isGossip ▸ nofun)
    exact Or.inr (Or.inl ⟨sender, frame, reader, parsed, sent, foreign, read, stream, carried⟩)

/-- In every mesh a legal run of nodes with distinct ids reaches, whatever the transport did, a
record in a store or in a frame was left by a write of the node it names as its author; and a
timestamp and an author name one record of one key. -/
theorem records_are_authentic {ids : Node → UInt64} (distinct : Function.Injective ids)
    {managers : Node → FleeceStateManager}
    (created : ∀ node, FleeceStateManager.createWithNodeId (ids node) = some (managers node))
    (acts : List (Act Node)) (legal : Along step Legal (start managers) acts) :
    (∀ entry, (runFrom step (start managers) acts).Occurs entry →
      ∃ author, Wrote (start managers) acts author entry) ∧
    ∀ first second, (runFrom step (start managers) acts).Occurs first →
      (runFrom step (start managers) acts).Occurs second →
      first.2.timestamp = second.2.timestamp → first.2.originNodeId = second.2.originNodeId →
      first = second := by
  obtain ⟨followed, along, holds⟩ := followed_run distinct created acts legal
  have invariant := (World.invariant_start created).run distinct along
  have known {entry : UInt32 × GossipRecord} := @Refines.known_of_occurs _ _ _ _ holds.refines
    invariant entry
  exact ⟨fun entry occurs => holds.written entry (known occurs),
    fun first second occurs occursSecond stamp origin =>
      invariant.unique first second (known occurs) (known occursSecond)
        (version_inj.mpr ⟨stamp, origin⟩)⟩

/-- A record that has come to a second node in a delta. -/
theorem records_are_authentic_two_nodes :
    let goal : CString := ⟨[0x67], by decide⟩
    let ids : Fin 2 → UInt64 := ![7, 9]
    let acts : List (Act (Fin 2)) := [.run 0 .initializeComms,
      .run 0 (.write (.setShared goal ⟨[1], by decide⟩)), .run 0 .turn, .deliver 1 0 .mesh 0]
    let record : GossipRecord := ⟨7, false, .copy goal, 1, ⟨[1], by decide⟩⟩
    let initial := start fun node => FleeceStateManager.blank (ids node)
    ((runFrom step initial acts).nodes 1).stateManager.view (hashName goal, sharedOwnerId) =
        some record ∧
      ∃ author, initial.Wrote acts author (hashName goal, record) := by
  intro goal ids acts record initial
  have created (node : Fin 2) : FleeceStateManager.createWithNodeId (ids node) =
      some (FleeceStateManager.blank (ids node)) := by
    fin_cases node <;> rfl
  have legal : Along step Legal initial acts := by decide +kernel
  have held : ((runFrom step initial acts).nodes 1).stateManager.view
      (hashName goal, sharedOwnerId) = some record := by
    decide +kernel
  have occurs : (runFrom step initial acts).Occurs (hashName goal, record) := Or.inl ⟨1, held⟩
  obtain ⟨authentic, _⟩ := records_are_authentic (show Function.Injective ids by decide) created
    acts legal
  exact ⟨held, authentic _ occurs⟩

end RuntimeMesh

end Fleece
