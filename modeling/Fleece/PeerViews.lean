/-
This file is about the views that `swarm` gives of other nodes in a mesh of runtimes.
What the runtimes send each other are frames of the shared stream and control frames,
so a node never holds a field that another node owns, and a script finds the key of a
peer and nothing behind it.
-/

import Fleece.Mesh
import Fleece.SwarmObject

namespace Fleece

/-! ### Owners -/

namespace FleeceStateManager

variable {manager : FleeceStateManager}

/-- No record is owned by another node. -/
def HoldsOwn (manager : FleeceStateManager) : Prop :=
  ∀ pair, pair.2 ≠ manager.nodeId → pair.2 ≠ sharedOwnerId → manager.view pair = none

/-- An operation on the fields of the node and on shared fields. -/
def IsNear (nodeId : UInt64) (operation : Operation) : Prop :=
  ∀ pair ∈ operation.touched nodeId, pair.2 = nodeId ∨ pair.2 = sharedOwnerId

theorem isNear_write (nodeId : UInt64) (change : LocalWrite) : IsNear nodeId (.write change) := by
  rintro pair rfl
  cases change with
  | set key data => exact Or.inl rfl
  | remove key => exact Or.inl rfl
  | setNamed name data => exact Or.inl rfl
  | removeNamed name => exact Or.inl rfl
  | setShared name data => exact Or.inr rfl
  | removeShared name => exact Or.inr rfl
  | setSharedCas name expected data => exact Or.inr rfl

theorem HoldsOwn.operation (holds : manager.HoldsOwn) (packed : manager.PackedInvariant)
    {operation : Operation} (stays : operation ≠ .compact)
    (near : IsNear manager.nodeId operation) : (operation.next manager).HoldsOwn := by
  intro pair foreign real
  rw [operation_nodeId packed.store] at foreign
  rw [packed.view_next stays fun touched => (near pair touched).elim foreign real]
  exact holds pair foreign real

/-- A node that holds no fields of others lists none. -/
theorem HoldsOwn.listFields (holds : manager.HoldsOwn) (packed : manager.PackedInvariant)
    {owner : UInt64} (foreign : owner ≠ manager.nodeId) (real : owner ≠ sharedOwnerId)
    (count : Nat) : manager.listFields owner count = [] := by
  refine List.eq_nil_iff_forall_not_mem.mpr fun name listed => ?_
  obtain ⟨i, live, _⟩ := exists_of_mem_listFields listed
  obtain ⟨carried, _⟩ := carried_of_isLiveNamed (mem_slots.mpr ⟨i, rfl⟩) live
  have view := carried.view packed.store.distinct
  rw [holds _ foreign real] at view
  cases view

end FleeceStateManager

/-! ### The text of a node -/

theorem isPlain_print (nodeId : UInt64) : JsString.IsPlain (Hexadecimal.print nodeId) := by
  have each : ∀ d < 16,
      String.utf8EncodeChar (Char.ofNat (Hexadecimal.digit d).toNat) = [Hexadecimal.digit d] ∧
        Char.ofNat (Hexadecimal.digit d).toNat ≠ '\ufffd' ∧
        (Char.ofNat (Hexadecimal.digit d).toNat).val < 0x10000 := by decide +kernel
  refine ⟨Hexadecimal.zero_notMem_digits 16 nodeId.toNat,
    (Hexadecimal.print nodeId).map fun byte => Char.ofNat byte.toNat, ?_, fun char member => ?_⟩
  · rw [List.flatMap_map]
    have alone : ∀ byte ∈ Hexadecimal.print nodeId,
        String.utf8EncodeChar (Char.ofNat byte.toNat) = [byte] := by
      intro byte member
      obtain ⟨d, small, rfl⟩ := Hexadecimal.exists_of_mem_digits member
      exact (each d small).1
    rw [List.flatMap_congr alone, List.flatMap_singleton']
  · obtain ⟨byte, held, rfl⟩ := List.mem_map.mp member
    obtain ⟨d, small, rfl⟩ := Hexadecimal.exists_of_mem_digits held
    exact (each d small).2

theorem numberText_print (nodeId : UInt64) :
    numberText (Hexadecimal.print nodeId) = Hexadecimal.print nodeId := by
  obtain ⟨notSpace, notMinus, notPlus, _⟩ :=
    Hexadecimal.digit_facts (nodeId.toNat / 16 ^ 15 % 16) (Nat.mod_lt _ (by decide))
  have shape : Hexadecimal.print nodeId =
      Hexadecimal.digit (nodeId.toNat / 16 ^ 15 % 16) :: Hexadecimal.digits 15 nodeId.toNat := rfl
  have whole : Hexadecimal.skipBase (Hexadecimal.print nodeId) = Hexadecimal.print nodeId :=
    Hexadecimal.skipBase_digits 16 nodeId.toNat
  unfold numberText
  rw [shape] at whole ⊢
  rw [List.dropWhile_cons, notSpace]
  simp only [Bool.false_eq_true, if_false]
  rw [if_neg (not_or.mpr ⟨notMinus, notPlus⟩)]
  exact whole

/-- The key of a node in `swarm` is read as the node. -/
theorem parseNodeId_print {nodeId : UInt64} {text : CString}
    (printed : text.chars = Hexadecimal.print nodeId) : parseNodeId text = some nodeId := by
  have digits : (Hexadecimal.print nodeId).all
      fun char => (Hexadecimal.digitValue char).isSome := by
    refine List.all_eq_true.mpr fun char member => ?_
    obtain ⟨d, small, rfl⟩ := Hexadecimal.exists_of_mem_digits member
    rw [(Hexadecimal.digit_facts d small).2.2.2.2.2]
    rfl
  have filled : Hexadecimal.print nodeId ≠ [] :=
    List.ne_nil_of_length_pos (Hexadecimal.length_print nodeId ▸ by decide)
  unfold parseNodeId
  rw [printed, numberText_print, if_pos ⟨filled, digits⟩, Hexadecimal.strtoull_print]

/-! ### The mesh -/

namespace RuntimeMesh

/-- Another node than its sender reads the frame as one of the shared stream, if at all. -/
def IsSharedFrame (sender : UInt64) (data : Blob) : Prop :=
  FleeceRuntime.operationOfReceive data = none ∨ ∀ reader ≠ sender, ∀ parsed,
    parseFrame reader data = .ok parsed → parsed.ownerNodeId = sharedOwnerId

theorem isSharedFrame_export {manager : FleeceStateManager} (store : manager.StoreInvariant)
    {kind : GossipExport} (shared : kind.owner manager = sharedOwnerId) :
    IsSharedFrame manager.nodeId (kind.frame manager) := by
  refine Or.inr fun reader foreign parsed read => ?_
  rw [(FleeceStateManager.parseFrame_export_cut store kind foreign read).2.1]
  exact shared

theorem owner_exportOfTurn {runtime : FleeceRuntime} {kind : GossipExport}
    (asked : runtime.exportOfTurn = some kind) (manager : FleeceStateManager) :
    kind.owner manager = sharedOwnerId := by
  unfold FleeceRuntime.exportOfTurn at asked
  split_ifs at asked
  · rw [← Option.some.inj asked]
    rfl
  · rw [← Option.some.inj asked]
    rfl

theorem owner_exportOfReceive {data : Blob} {kind : GossipExport}
    (asked : FleeceRuntime.exportOfReceive data = some kind) (manager : FleeceStateManager) :
    kind.owner manager = sharedOwnerId := by
  unfold FleeceRuntime.exportOfReceive FleeceRuntime.exportOfControl at asked
  split_ifs at asked
  split at asked
  · cases asked
  · split_ifs at asked
    split at asked
    · cases asked
    · split_ifs at asked
      rw [← Option.some.inj asked]
      rfl

/-- What is kept at each node of the mesh: its fields are its own or shared, and so are those in
the frames it sends. -/
structure Apart (id : UInt64) (runtime : FleeceRuntime) : Prop where
  identity : runtime.stateManager.nodeId = id
  packed : runtime.stateManager.PackedInvariant
  owners : runtime.stateManager.HoldsOwn
  posts : runtime.Posts (IsSharedFrame id)

variable {id : UInt64} {runtime : FleeceRuntime}

/-- A step on near fields. -/
theorem Apart.of_step (apart : Apart id runtime) {act : FleeceRuntime.Act}
    (near : ∀ operation, runtime.operationOf act = some operation →
      FleeceStateManager.IsNear runtime.stateManager.nodeId operation)
    (posts : (runtime.step act).Posts (IsSharedFrame id)) : Apart id (runtime.step act) := by
  have store := FleeceRuntime.stateManager_step runtime act
  have stays := FleeceRuntime.operationOf_ne_compact runtime act
  cases asked : runtime.operationOf act with
  | none =>
    rw [asked] at store
    refine ⟨?_, ?_, ?_, posts⟩
    · exact (congrArg FleeceStateManager.nodeId store).trans apart.identity
    · rw [store]
      exact apart.packed
    · rw [store]
      exact apart.owners
  | some operation =>
    rw [asked] at store stays
    have moves : operation ≠ .compact := fun same => stays (congrArg some same)
    have node := FleeceStateManager.operation_nodeId apart.packed.store operation
    refine ⟨?_, ?_, ?_, posts⟩
    · exact ((congrArg FleeceStateManager.nodeId store).trans node).trans apart.identity
    · rw [store]
      exact apart.packed.operation moves
    · rw [store]
      exact apart.owners.operation apart.packed moves (near operation asked)

/-- A step of a node that brings in no frame: frames come from the transport. -/
def BringsNoFrame : FleeceRuntime.Act → Prop
  | .receive _ _ => False
  | .gossipFrame _ => False
  | .controlFrame _ => False
  | _ => True

instance (act : FleeceRuntime.Act) : Decidable (BringsNoFrame act) :=
  match act with
  | .receive _ _ => .isFalse fun brings => brings
  | .gossipFrame _ => .isFalse fun brings => brings
  | .controlFrame _ => .isFalse fun brings => brings
  | .write _ => .isTrue trivial
  | .tick => .isTrue trivial
  | .turn => .isTrue trivial
  | .initializeComms => .isTrue trivial
  | .close => .isTrue trivial
  | .setGossipCadence _ _ => .isTrue trivial

theorem Apart.exports (apart : Apart id runtime) {kind : GossipExport}
    (shared : kind.owner runtime.stateManager = sharedOwnerId) :
    IsSharedFrame id (kind.frame runtime.stateManager) := by
  rw [← apart.identity]
  exact isSharedFrame_export apart.packed.store shared

theorem Apart.run (apart : Apart id runtime) {act : FleeceRuntime.Act}
    (own : BringsNoFrame act) : Apart id (runtime.step act) := by
  have silent (same : (runtime.step act).comms.sent = runtime.comms.sent)
      (waiting : (runtime.step act).pendingTx = runtime.pendingTx) :
      (runtime.step act).Posts (IsSharedFrame id) := apart.posts.of_same same waiting
  cases act with
  | receive source data => exact own.elim
  | gossipFrame data => exact own.elim
  | controlFrame data => exact own.elim
  | write change =>
    refine apart.of_step (fun operation asked => ?_) (silent rfl rfl)
    rw [← Option.some.inj asked]
    exact FleeceStateManager.isNear_write _ change
  | tick =>
    refine apart.of_step (fun operation asked => ?_) (silent rfl rfl)
    rw [← Option.some.inj asked]
    exact fun pair touched => touched.elim
  | turn =>
    refine apart.of_step (fun operation asked => ?_) ?_
    · have export' : runtime.exportOfTurn.map GossipExport.operation = some operation := by
        rw [← operationOfTurn_eq]
        exact asked
      obtain ⟨kind, _, rfl⟩ := Option.map_eq_some_iff.mp export'
      intro pair touched
      cases kind <;> exact touched.elim
    · exact apart.posts.gossipTurn (fun data isControl => Or.inl isControl)
        fun kind asked => apart.exports (owner_exportOfTurn asked _)
  | initializeComms => exact apart.of_step nofun (silent rfl rfl)
  | close => exact apart.of_step nofun (silent rfl rfl)
  | setGossipCadence gossipEvery beaconEvery =>
    refine apart.of_step nofun (silent ?_ ?_)
    · simp only [FleeceRuntime.step, FleeceRuntime.setGossipCadence]
      split_ifs <;> rfl
    · simp only [FleeceRuntime.step, FleeceRuntime.setGossipCadence]
      split_ifs <;> rfl

theorem Apart.receive (apart : Apart id runtime) {sender : UInt64} (foreign : id ≠ sender)
    {data : Blob} (shared : IsSharedFrame sender data) (source : Destination) :
    Apart id (runtime.step (.receive source data)) := by
  refine apart.of_step (fun operation asked => ?_) ?_
  · have isGossip : FleeceRuntime.operationOfReceive data = some operation := asked
    have import' := operationOfReceive_of_ne_none
      (ne_of_eq_of_ne isGossip (Option.some_ne_none operation))
    obtain rfl := Option.some.inj (isGossip.symm.trans import')
    have streams := shared.resolve_left (ne_of_eq_of_ne import' (Option.some_ne_none _))
    rintro pair ⟨parsed, read, record, _, rfl⟩
    exact Or.inr (streams _ (apart.identity ▸ foreign) parsed read)
  · exact apart.posts.gossipReceive (fun data isControl => Or.inl isControl) source data
      fun kind asked => apart.exports (owner_exportOfReceive asked _)

/-- The steps of the nodes on their own, and the deliveries of the transport. -/
def Closed {Node : Type} : Act Node → Prop
  | .run _ act => BringsNoFrame act
  | .deliver node sender _ _ => node ≠ sender

instance {Node : Type} [DecidableEq Node] (act : Act Node) : Decidable (Closed act) :=
  match act with
  | .run _ act => inferInstanceAs (Decidable (BringsNoFrame act))
  | .deliver _ _ _ _ => inferInstanceAs (Decidable (_ ≠ _))

section Runs

variable {Node : Type} [DecidableEq Node] {mesh : RuntimeMesh Node} {ids : Node → UInt64}

theorem apart_step (distinct : Function.Injective ids)
    (apart : ∀ node, Apart (ids node) (mesh.nodes node)) {act : Act Node} (closed : Closed act) :
    ∀ node, Apart (ids node) ((mesh.step act).nodes node) := by
  intro other
  cases act with
  | run node act =>
    show Apart (ids other) (Function.update mesh.nodes node _ other)
    rcases eq_or_ne other node with rfl | different
    · rw [Function.update_self]
      exact (apart other).run closed
    · rw [Function.update_of_ne different]
      exact apart other
  | deliver node sender source index =>
    simp only [step]
    cases found : (mesh.nodes sender).comms.sent[index]? with
    | none => exact apart other
    | some post =>
      show Apart (ids other) (Function.update mesh.nodes node _ other)
      rcases eq_or_ne other node with rfl | different
      · rw [Function.update_self]
        exact (apart other).receive (distinct.ne closed)
          ((apart sender).posts.sent post (List.mem_of_getElem? found)) source
      · rw [Function.update_of_ne different]
        exact apart other

theorem apart_create {nodeId : UInt64} {manager : FleeceStateManager}
    (created : FleeceStateManager.createWithNodeId nodeId = some manager) :
    Apart nodeId (.create manager) := by
  refine ⟨FleeceStateManager.node_after created [],
    FleeceStateManager.packedInvariant_create created, fun pair _ _ => ?_, ?_⟩
  · exact congrFun (FleeceStateManager.refines_create created).view.symm pair
  · exact ⟨fun post member => (nomatch member), fun i tx held => (nomatch held)⟩

end Runs

/-! ### What a script finds -/

variable {Node : Type} [DecidableEq Node]

/-- In a mesh of runtimes nothing is to be found behind the key of a peer. -/
theorem peer_views_are_empty {ids : Node → UInt64} (distinct : Function.Injective ids)
    {managers : Node → FleeceStateManager}
    (created : ∀ node, FleeceStateManager.createWithNodeId (ids node) = some (managers node))
    {acts : List (Act Node)} (closed : ∀ act ∈ acts, Closed act) {Value : Type}
    (engine : BindingEngine Value) (node : Node) (peerTtlTicks : UInt64) {id : JsString}
    {view : ProxyView Value}
    (shown : (engine.swarmProxy ((runFrom step (start managers) acts).nodes node).stateManager
      peerTtlTicks).get id = some view) :
    view.ownKeys = [] ∧ ∀ name, view.has name = false ∧ view.get name = engine.undefined := by
  have along : Along step (fun _ act => Closed act) (start managers) acts := .of_forall closed
  have keeps (mesh : RuntimeMesh Node) (act : Act Node)
      (apart : ∀ node, Apart (ids node) (mesh.nodes node)) (allowed : Closed act) :
      ∀ node, Apart (ids node) ((mesh.step act).nodes node) := apart_step distinct apart allowed
  have apart := along.invariant keeps (fun node => apart_create (created node)) node
  have identity := apart.identity
  have packed := apart.packed
  have owners := apart.owners
  generalize ((runFrom step (start managers) acts).nodes node).stateManager = manager
    at identity packed owners shown
  unfold BindingEngine.swarmProxy makeProxyStore at shown
  simp only at shown
  split_ifs at shown with member
  obtain rfl := Option.some.inj shown
  have empty : engine.jsSwarmKeys manager peerTtlTicks id = [] := by
    obtain ⟨peer, listed, rfl⟩ := List.mem_map.mp (List.contains_iff_mem.mp member)
    obtain ⟨heard, seen⟩ := List.mem_filter.mp listed
    have foreign := bne_iff_ne.mp (Bool.and_eq_true_iff.mp seen).1
    have real : peer ≠ sharedOwnerId := by
      obtain ⟨entry, held, rfl⟩ := List.mem_map.mp (List.mem_of_mem_take heard)
      exact bne_iff_ne.mp (Bool.and_eq_true_iff.mp (List.mem_filter.mp held).2).2
    have printed : engine.formatNodeId peer = Hexadecimal.print peer :=
      (engine.newString_eq_iff _ _ (isPlain_print peer)).mpr rfl
    have text : (engine.formatNodeId peer).toCString.chars = Hexadecimal.print peer := by
      rw [printed, JsString.toCString_chars (isPlain_print peer).1]
    unfold BindingEngine.jsSwarmKeys
    rw [parseNodeId_print text]
    simp only
    rw [owners.listFields packed foreign real]
    split_ifs <;> rfl
  unfold BindingEngine.makeNodeView makeProxyStore
  simp only
  rw [empty]
  exact ⟨rfl, fun name => ⟨rfl, rfl⟩⟩

/-- A node sets a field of its own and a shared one. Another node hears it, and finds its key with
nothing behind it. -/
theorem peer_views_are_empty_two_nodes :
    let health : CString := ⟨[0x68, 0x70], by decide⟩
    let goal : CString := ⟨[0x67], by decide⟩
    let ids : Fin 2 → UInt64 := ![7, 9]
    let acts : List (Act (Fin 2)) := [.run 0 .initializeComms,
      .run 0 (.write (.setNamed health ⟨[0x35], by decide⟩)),
      .run 0 (.write (.setShared goal ⟨[0x31], by decide⟩)), .run 0 .turn, .deliver 1 0 .mesh 0]
    let managers (node : Fin 2) := FleeceStateManager.blank (ids node)
    ∃ view, (sampleBindings.swarmProxy
        ((runFrom step (start managers) acts).nodes 1).stateManager 100).get
          (Hexadecimal.print 7) = some view ∧ view.ownKeys = [] := by
  intro health goal ids acts managers
  have created (node : Fin 2) : FleeceStateManager.createWithNodeId (ids node) =
      some (managers node) := by
    fin_cases node <;> rfl
  have member : (sampleBindings.jsSwarmNodes
      ((runFrom step (start managers) acts).nodes 1).stateManager 100).contains
        (Hexadecimal.print 7) = true := by
    decide +kernel
  have shown {manager : FleeceStateManager} {id : JsString}
      (listed : (sampleBindings.jsSwarmNodes manager 100).contains id = true) :
      (sampleBindings.swarmProxy manager 100).get id =
        some (sampleBindings.makeNodeView manager 100 id) := if_pos listed
  have closed : ∀ act ∈ acts, Closed act := by decide
  have empty := peer_views_are_empty (show Function.Injective ids by decide) created closed
    sampleBindings 1 100 (shown member)
  exact ⟨_, shown member, empty.1⟩

end RuntimeMesh

end Fleece
