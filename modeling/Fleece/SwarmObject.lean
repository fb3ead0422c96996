/-
This file models `swarm`, the object through which a script sees the other nodes: its
keys are the nodes that were heard within the time to live, in the order of the peer
table, and behind each key is a view of the fields that the node owns.

A node is heard when it sends a frame. The table has 32 entries and gives none of them
up, so the nodes a script can see are the first 32 that were heard.
-/

import Fleece.Attendance
import Fleece.ScriptObjects
import Fleece.Takeover

namespace Fleece

/-! ### The object -/

/-- The text from the first digit on, if `strtoull` finds one. -/
def numberText (text : List UInt8) : List UInt8 :=
  match text.dropWhile Hexadecimal.isSpace with
  | [] => []
  | sign :: rest =>
    Hexadecimal.skipBase (if sign = 0x2D ∨ sign = 0x2B then rest else sign :: rest)

/-- `parse_node_id`: the number goes to the end of the text. -/
def parseNodeId (text : CString) : Option UInt64 :=
  if numberText text.chars ≠ [] ∧
      (numberText text.chars).all fun char => (Hexadecimal.digitValue char).isSome then
    some (Hexadecimal.strtoull text.chars)
  else none

/-- `js_peer_is_live`. -/
def jsPeerIsLive (manager : FleeceStateManager) (peerTtlTicks nodeId : UInt64) : Bool :=
  manager.ticksSinceSeen nodeId ≤ peerTtlTicks

namespace BindingEngine

variable {Value : Type} (engine : BindingEngine Value)

/-- `format_node_id`, as a string of the script. -/
def formatNodeId (nodeId : UInt64) : JsString :=
  engine.newString
    ⟨Hexadecimal.print nodeId, Hexadecimal.zero_notMem_digits 16 nodeId.toNat⟩

/-- `js_swarm_nodes`. -/
def jsSwarmNodes (manager : FleeceStateManager) (peerTtlTicks : UInt64) : List JsString :=
  ((manager.listHeardPeers jsListMax).filter fun id =>
    id != manager.nodeId && jsPeerIsLive manager peerTtlTicks id).map engine.formatNodeId

/-- `js_swarm_get`: undefined for a peer that is not live. -/
def jsSwarmGet (manager : FleeceStateManager) (peerTtlTicks : UInt64) (id name : JsString) :
    Value :=
  match parseNodeId id.toCString with
  | none => engine.undefined
  | some nodeId =>
    if jsPeerIsLive manager peerTtlTicks nodeId then
      engine.getNamedValue manager nodeId name.toCString
    else engine.undefined

/-- `js_swarm_keys`: no keys for a peer that is not live. -/
def jsSwarmKeys (manager : FleeceStateManager) (peerTtlTicks : UInt64) (id : JsString) :
    List JsString :=
  match parseNodeId id.toCString with
  | none => []
  | some nodeId =>
    if jsPeerIsLive manager peerTtlTicks nodeId then
      engine.namesToJsArray (manager.listFields nodeId jsListMax)
    else []

/-- `makeNodeView`. -/
def makeNodeView (manager : FleeceStateManager) (peerTtlTicks : UInt64) (id : JsString) :
    ProxyView Value :=
  makeProxyStore engine.undefined (engine.jsSwarmKeys manager peerTtlTicks id)
    (engine.jsSwarmGet manager peerTtlTicks id)

/-- The proxy of `swarm`, whose properties are views or `undefined`. -/
def swarmProxy (manager : FleeceStateManager) (peerTtlTicks : UInt64) :
    ProxyView (Option (ProxyView Value)) :=
  makeProxyStore none (engine.jsSwarmNodes manager peerTtlTicks) fun id =>
    some (engine.makeNodeView manager peerTtlTicks id)

end BindingEngine

namespace FleeceStateManager

open Attendance

/-! ### Who is heard -/

/-- The calls of `touch_peer` that a merge into the stream of a node makes. -/
def mergeTouches (manager : FleeceStateManager) (owner : UInt64) (name : CString) (data : Blob)
    (isTombstone : Bool) : List UInt64 :=
  if mergeable name data isTombstone = true ∧ owner ≠ manager.nodeId then [owner] else []

/-- The calls that the records of a frame make. -/
def recordTouches (manager : FleeceStateManager) (owner : UInt64) (records : List GossipRecord) :
    List UInt64 :=
  if owner = sharedOwnerId then []
  else records.flatMap fun record =>
    manager.mergeTouches owner record.name.toCString record.data record.isTombstone

/-- The calls of `touch_peer` that an operation makes. -/
def touches (manager : FleeceStateManager) : Operation → List UInt64
  | .mergeNamed owner name data _ isTombstone => manager.mergeTouches owner name data isTombstone
  | .importFrom frame =>
    match parseFrame manager.nodeId frame with
    | .error _ => []
    | .ok parsed =>
      parsed.senderNodeId :: manager.recordTouches parsed.ownerNodeId parsed.records
  | _ => []

/-- What an operation tells of other nodes and of the time. -/
def signsOf (manager : FleeceStateManager) : Operation → List (Sign UInt64)
  | .tick => [.tick]
  | operation => ((manager.touches operation).filter fun id =>
      id ≠ manager.nodeId ∧ id ≠ sharedOwnerId).map .seen

/-- What a run tells of other nodes and of the time. -/
def signs : FleeceStateManager → List Operation → List (Sign UInt64)
  | _, [] => []
  | manager, operation :: rest => manager.signsOf operation ++ (operation.next manager).signs rest

/-! ### The table -/

/-- The peer table is a table of who is there. -/
structure Sits (manager : FleeceStateManager) (table : List (UInt64 × Nat)) : Prop where
  taken : ∀ (i : Fin maxTrackedPeers) entry, table[i.val]? = some entry →
    manager.peersSeen i = ⟨entry.1, manager.currentTick - UInt64.ofNat entry.2, true⟩
  free : ∀ i : Fin maxTrackedPeers, table.length ≤ i.val →
    (manager.peersSeen i).slotExists = false
  fits : table.length ≤ maxTrackedPeers
  nodup : (table.map Prod.fst).Nodup
  foreign : ∀ entry ∈ table, entry.1 ≠ manager.nodeId ∧ entry.1 ≠ sharedOwnerId

variable {manager next : FleeceStateManager} {table : List (UInt64 × Nat)}

theorem Sits.of_same (sits : manager.Sits table) (peers : next.peersSeen = manager.peersSeen)
    (tick : next.currentTick = manager.currentTick) (node : next.nodeId = manager.nodeId) :
    next.Sits table := by
  refine ⟨?_, ?_, sits.fits, sits.nodup, ?_⟩
  · rw [peers, tick]
    exact sits.taken
  · rw [peers]
    exact sits.free
  · rw [node]
    exact sits.foreign

theorem Sits.label (sits : manager.Sits table) (i : Fin maxTrackedPeers) :
    peerLabel (manager.peersSeen i) = (table[i.val]?).map Prod.fst := by
  cases place : table[i.val]? with
  | none =>
    rw [peerLabel, sits.free i (List.getElem?_eq_none_iff.mp place)]
    rfl
  | some entry =>
    rw [sits.taken i entry place]
    rfl

/-- A node is found at its place in the table. -/
theorem Sits.find (sits : manager.Sits table) {i : Fin maxTrackedPeers} {entry : UInt64 × Nat}
    (place : table[i.val]? = some entry) :
    Slots.find peerLabel manager.peersSeen entry.1 = some i := by
  refine (Slots.find_eq_some_iff ?_).mpr (by rw [sits.label, place]; rfl)
  intro j k wanted first second
  rw [sits.label, ← List.getElem?_map] at first second
  exact Fin.ext ((List.getElem?_inj (List.getElem?_eq_some_iff.mp first).1 sits.nodup).mp
    (first.trans second.symm))

theorem Sits.find_none (sits : manager.Sits table) {id : UInt64}
    (absent : id ∉ table.map Prod.fst) : Slots.find peerLabel manager.peersSeen id = none := by
  refine Slots.find_eq_none_iff.mpr fun i found => absent ?_
  rw [sits.label, ← List.getElem?_map] at found
  exact List.mem_of_getElem? found

theorem Sits.tick (sits : manager.Sits table) : manager.tick.Sits (wait table) := by
  refine ⟨fun i entry place => ?_, fun i beyond => ?_, ?_, ?_, fun entry member => ?_⟩
  · rw [wait, List.getElem?_map] at place
    obtain ⟨old, held, rfl⟩ := Option.map_eq_some_iff.mp place
    have seat := sits.taken i old held
    show manager.peersSeen i = ⟨old.1, manager.currentTick + 1 - UInt64.ofNat (old.2 + 1), true⟩
    rw [seat, UInt64.ofNat_add]
    congr 1
    grind
  · rw [wait, List.length_map] at beyond
    exact sits.free i beyond
  · rw [wait, List.length_map]
    exact sits.fits
  · rw [wait, List.map_map]
    exact sits.nodup
  · obtain ⟨old, held, rfl⟩ := List.mem_map.mp member
    exact sits.foreign old held

/-- The entry of a node that is in the table is renewed. -/
theorem Sits.renew (sits : manager.Sits table) {i : Fin maxTrackedPeers} {entry : UInt64 × Nat}
    (place : table[i.val]? = some entry) :
    ({ manager with
        peersSeen := Function.update manager.peersSeen i (manager.touchedPeer entry.1) } :
      FleeceStateManager).Sits (see maxTrackedPeers entry.1 table) := by
  have known : entry.1 ∈ table.map Prod.fst :=
    List.mem_map_of_mem (f := Prod.fst) (List.mem_of_getElem? place)
  have names := see_names maxTrackedPeers known
  have shape : see maxTrackedPeers entry.1 table =
      table.map fun other => if entry.1 = other.1 then (entry.1, 0) else other := if_pos known
  refine ⟨fun j other held => ?_, fun j beyond => ?_, ?_, ?_, fun other held => ?_⟩
  · rw [shape, List.getElem?_map] at held
    obtain ⟨old, before, rfl⟩ := Option.map_eq_some_iff.mp held
    show Function.update manager.peersSeen i _ j = ⟨_, manager.currentTick - _, true⟩
    by_cases same : entry.1 = old.1
    · have found := sits.find before
      rw [← same, sits.find place] at found
      obtain rfl := Option.some.inj found
      rw [if_pos same, Function.update_self, touchedPeer]
      congr 1
      exact (UInt64.sub_zero manager.currentTick).symm
    · have elsewhere : j ≠ i := by
        rintro rfl
        exact same (congrArg Prod.fst (Option.some.inj (place.symm.trans before)))
      rw [if_neg same, Function.update_of_ne elsewhere]
      exact sits.taken j old before
  · rw [shape, List.length_map] at beyond
    have elsewhere : j ≠ i := by
      rintro rfl
      exact absurd (List.getElem?_eq_some_iff.mp place).1 (Nat.not_lt.mpr beyond)
    show (Function.update manager.peersSeen i _ j).slotExists = false
    rw [Function.update_of_ne elsewhere]
    exact sits.free j beyond
  · rw [shape, List.length_map]
    exact sits.fits
  · rw [names]
    exact sits.nodup
  · have named := List.mem_map_of_mem (f := Prod.fst) held
    rw [names] at named
    obtain ⟨old, before, same⟩ := List.mem_map.mp named
    rw [← same]
    exact sits.foreign old before

/-- A newcomer takes the first free place. -/
theorem Sits.welcome (sits : manager.Sits table) {id : UInt64} (foreign : id ≠ manager.nodeId)
    (real : id ≠ sharedOwnerId) (absent : id ∉ table.map Prod.fst)
    (room : table.length < maxTrackedPeers) :
    ({ manager with
        peersSeen := Function.update manager.peersSeen ⟨table.length, room⟩
          (manager.touchedPeer id) } : FleeceStateManager).Sits (table ++ [(id, 0)]) := by
  refine ⟨fun j entry held => ?_, fun j beyond => ?_, ?_, ?_, fun entry held => ?_⟩
  · show Function.update manager.peersSeen _ _ j = ⟨_, manager.currentTick - _, true⟩
    by_cases within : j.val < table.length
    · rw [List.getElem?_append_left within] at held
      have elsewhere : j ≠ ⟨table.length, room⟩ := fun same =>
        absurd (congrArg Fin.val same) within.ne
      rw [Function.update_of_ne elsewhere]
      exact sits.taken j entry held
    · rw [List.getElem?_append_right (Nat.not_lt.mp within), List.getElem?_singleton] at held
      split_ifs at held with first
      obtain rfl := Option.some.inj held
      have here : j = ⟨table.length, room⟩ :=
        Fin.ext (Nat.le_antisymm (Nat.sub_eq_zero_iff_le.mp first) (Nat.not_lt.mp within))
      rw [here, Function.update_self, touchedPeer]
      congr 1
      exact (UInt64.sub_zero manager.currentTick).symm
  · rw [List.length_append, List.length_singleton] at beyond
    have elsewhere : j ≠ ⟨table.length, room⟩ := fun same =>
      absurd (congrArg Fin.val same) (Nat.lt_of_succ_le beyond).ne'
    show (Function.update manager.peersSeen _ _ j).slotExists = false
    rw [Function.update_of_ne elsewhere]
    exact sits.free j (Nat.le_of_succ_le beyond)
  · rw [List.length_append]
    exact room
  · rw [List.map_append, List.map_singleton, ← List.concat_eq_append]
    exact (List.nodup_concat _ _).mpr ⟨absent, sits.nodup⟩
  · rcases List.mem_append.mp held with before | new
    · exact sits.foreign entry before
    · rw [List.mem_singleton.mp new]
      exact ⟨foreign, real⟩

theorem Sits.firstFree (sits : manager.Sits table) :
    (Fin.find? fun i => !(manager.peersSeen i).slotExists) =
      if room : table.length < maxTrackedPeers then some ⟨table.length, room⟩ else none := by
  have taken (i : Fin maxTrackedPeers) (within : i.val < table.length) :
      (!(manager.peersSeen i).slotExists) = false := by
    rw [sits.taken i _ (List.getElem?_eq_getElem within)]
    rfl
  split_ifs with room
  · refine Fin.find?_eq_some_iff.mpr ⟨?_, fun j before => taken j before⟩
    rw [sits.free ⟨table.length, room⟩ le_rfl]
    rfl
  · exact Fin.find?_eq_none_iff.mpr fun i => taken i (i.isLt.trans_le (Nat.not_lt.mp room))

theorem Sits.touchPeer (sits : manager.Sits table) {id : UInt64} (foreign : id ≠ manager.nodeId)
    (real : id ≠ sharedOwnerId) :
    (manager.touchPeer id).Sits (see maxTrackedPeers id table) := by
  by_cases known : id ∈ table.map Prod.fst
  · obtain ⟨entry, member, rfl⟩ := List.mem_map.mp known
    obtain ⟨place, inside⟩ := List.getElem?_of_mem member
    have bound : place < maxTrackedPeers :=
      (List.getElem?_eq_some_iff.mp inside).1.trans_le sits.fits
    have seat : table[(⟨place, bound⟩ : Fin maxTrackedPeers).val]? = some entry := inside
    have found := sits.find seat
    rcases touchPeer_cases foreign real with ⟨i, changed, own | ⟨absent, _⟩⟩ | ⟨_, absent⟩
    · obtain rfl := Option.some.inj (found.symm.trans own)
      rw [changed]
      exact sits.renew seat
    · rw [peer, Slots.lookup, found] at absent
      cases absent
    · rw [peer, Slots.lookup, found] at absent
      cases absent
  · unfold FleeceStateManager.touchPeer
    rw [if_neg foreign, if_neg real, find_peer, sits.find_none known, sits.firstFree, see,
      if_neg known]
    by_cases room : table.length < maxTrackedPeers
    · rw [dif_pos room, if_pos room]
      exact sits.welcome foreign real known room
    · rw [dif_neg room, if_neg room]
      exact sits

/-! ### One operation -/

theorem Sits.of_sameNode (sits : manager.Sits table) (same : manager.SameNode next) :
    next.Sits table := sits.of_same same.peersSeen same.currentTick same.nodeId

theorem MergeOutcome.sameNode {base : FleeceStateManager} {pair : UInt32 × UInt64}
    {record : GossipRecord} {outranks : GossipRecord → Prop} {result : FleeceStateManager × Int}
    (outcome : MergeOutcome base pair record outranks result) : base.SameNode result.1 := by
  cases outcome with
  | kept old found stays => exact .refl base
  | noSlot absent full => exact .refl base
  | stored next f storedAt rest =>
    rw [rest]
    exact ⟨rfl, rfl, rfl⟩

theorem exec_sameNode (manager : FleeceStateManager) (change : LocalWrite) :
    manager.SameNode (change.exec manager).1 := by
  have outcome := exec_outcome manager change
  generalize change.request manager.nodeId manager.localTimestamp manager.view = request at outcome
  generalize change.exec manager = result at outcome ⊢
  cases outcome with
  | refused code denied => exact .refl manager
  | noSlot next pair record asked absent full fields count node peers tick =>
    exact ⟨node, peers, tick⟩
  | wrote next f asked stored node peers tick => exact ⟨node, peers, tick⟩

theorem mergeShared_sameNode (manager : FleeceStateManager) (origin : UInt64) (name : CString)
    (data : Blob) (timestamp : UInt64) (isTombstone : Bool) :
    manager.SameNode (manager.mergeShared origin name data timestamp isTombstone).1 := by
  by_cases accepted : mergeable name data isTombstone = true
  · have outcome := mergeShared_outcome manager origin name data timestamp isTombstone accepted
    have raised : manager.SameNode (manager.raiseClock timestamp) := ⟨rfl, rfl, rfl⟩
    exact raised.trans outcome.sameNode
  · unfold mergeShared
    rw [Bool.eq_false_of_not_eq_true accepted]
    exact .refl manager

/-- The table after the signs of some touches. -/
def marked (manager : FleeceStateManager) (table : List (UInt64 × Nat)) (ids : List UInt64) :
    List (UInt64 × Nat) :=
  ((ids.filter fun id => id ≠ manager.nodeId ∧ id ≠ sharedOwnerId).map .seen).foldl
    (mark maxTrackedPeers) table

theorem marked_append (manager : FleeceStateManager) (table : List (UInt64 × Nat))
    (first second : List UInt64) :
    manager.marked table (first ++ second) =
      manager.marked (manager.marked table first) second := by
  rw [marked, List.filter_append, List.map_append, List.foldl_append]
  rfl

theorem marked_congr (node : next.nodeId = manager.nodeId) (table : List (UInt64 × Nat))
    (ids : List UInt64) : next.marked table ids = manager.marked table ids := by
  unfold marked
  rw [node]

theorem Sits.touched (sits : manager.Sits table) (id : UInt64) :
    (manager.touchPeer id).Sits (manager.marked table [id]) := by
  unfold marked
  by_cases peer : id ≠ manager.nodeId ∧ id ≠ sharedOwnerId
  · rw [List.filter_singleton, decide_eq_true peer]
    exact sits.touchPeer peer.1 peer.2
  · rw [List.filter_singleton, decide_eq_false peer]
    have same : manager.touchPeer id = manager := by
      unfold FleeceStateManager.touchPeer
      by_cases own : id = manager.nodeId
      · rw [if_pos own]
      · have shared : id = sharedOwnerId := by
          by_contra real
          exact peer ⟨own, real⟩
        rw [if_neg own, if_pos shared]
    rw [same]
    exact sits

theorem Sits.mergeNamed (sits : manager.Sits table) (owner : UInt64) (name : CString)
    (data : Blob) (timestamp : UInt64) (isTombstone : Bool) :
    (manager.mergeNamed owner name data timestamp isTombstone).1.Sits
      (manager.marked table (manager.mergeTouches owner name data isTombstone)) := by
  unfold mergeTouches
  by_cases accepted : mergeable name data isTombstone = true
  · by_cases foreign : owner = manager.nodeId
    · rw [if_neg fun both => both.2 foreign]
      unfold FleeceStateManager.mergeNamed
      rw [accepted, if_pos foreign]
      exact sits
    · rw [if_pos ⟨accepted, foreign⟩]
      have outcome :=
        mergeNamed_outcome manager owner name data timestamp isTombstone accepted foreign
      have raised : (manager.touchPeer owner).SameNode
          ((manager.touchPeer owner).raiseClock timestamp) := ⟨rfl, rfl, rfl⟩
      exact (sits.touched owner).of_sameNode (raised.trans outcome.sameNode)
  · rw [if_neg fun both => accepted both.1]
    unfold FleeceStateManager.mergeNamed
    rw [Bool.eq_false_of_not_eq_true accepted]
    exact sits

theorem recordTouches_congr (node : next.nodeId = manager.nodeId) (owner : UInt64)
    (records : List GossipRecord) :
    next.recordTouches owner records = manager.recordTouches owner records := by
  unfold recordTouches mergeTouches
  rw [node]

theorem recordTouches_cons (manager : FleeceStateManager) (owner : UInt64) (record : GossipRecord)
    (rest : List GossipRecord) :
    manager.recordTouches owner (record :: rest) =
      manager.recordTouches owner [record] ++ manager.recordTouches owner rest := by
  unfold recordTouches
  split_ifs
  · rfl
  · rw [List.flatMap_cons, List.flatMap_singleton]

theorem Sits.mergeRecord (sits : manager.Sits table) (owner : UInt64) (record : GossipRecord) :
    (manager.mergeRecord owner record).Sits
      (manager.marked table (manager.recordTouches owner [record])) := by
  unfold FleeceStateManager.mergeRecord recordTouches
  split_ifs with shared
  · exact sits.of_sameNode (mergeShared_sameNode manager _ _ _ _ _)
  · rw [List.flatMap_singleton]
    exact sits.mergeNamed owner record.name.toCString record.data record.timestamp
      record.isTombstone

theorem Sits.mergeRecords (sits : manager.Sits table) (real : manager.nodeId ≠ sharedOwnerId)
    (owner : UInt64) (records : List GossipRecord) :
    (manager.mergeRecords owner records).Sits
      (manager.marked table (manager.recordTouches owner records)) := by
  induction records generalizing manager table with
  | nil =>
    have none : manager.recordTouches owner [] = [] := by
      unfold recordTouches
      split_ifs <;> rfl
    rw [none]
    exact sits
  | cons record rest inductionHypothesis =>
    have node := nodeId_of_steps (mergeRecord_steps real owner record)
    have first := inductionHypothesis (sits.mergeRecord owner record) (node ▸ real)
    rw [marked_congr node, recordTouches_congr node] at first
    rw [recordTouches_cons, marked_append]
    exact first

/-- An operation marks in the table what it tells. -/
theorem Sits.operation (sits : manager.Sits table) (real : manager.nodeId ≠ sharedOwnerId)
    (operation : Operation) :
    (operation.next manager).Sits
      ((manager.signsOf operation).foldl (mark maxTrackedPeers) table) := by
  cases operation with
  | write change => exact sits.of_sameNode (exec_sameNode manager change)
  | query asked => exact sits
  | mergeNamed owner name data timestamp isTombstone =>
    exact sits.mergeNamed owner name data timestamp isTombstone
  | mergeShared origin name data timestamp isTombstone =>
    exact sits.of_sameNode (mergeShared_sameNode manager origin name data timestamp isTombstone)
  | importFrom frame =>
    show (manager.importFrom frame).manager.Sits
      (manager.marked table (manager.touches (.importFrom frame)))
    rw [importFrom_manager, touches]
    cases parseFrame manager.nodeId frame with
    | error halt => exact sits
    | ok parsed =>
      have node : (manager.touchPeer parsed.senderNodeId).nodeId = manager.nodeId :=
        touchPeer_nodeId manager parsed.senderNodeId
      have merged := (sits.touched parsed.senderNodeId).mergeRecords (node ▸ real)
        parsed.ownerNodeId parsed.records
      rw [marked_congr node, recordTouches_congr node, ← marked_append] at merged
      exact merged
  | exportSharedDeltaBounded since capBytes =>
    have rest := (markSteps_rest (exportSharedDeltaBounded_steps manager since capBytes)).1
    show (manager.exportSharedDeltaBounded since capBytes).manager.Sits table
    rw [rest]
    exact sits.of_same rfl rfl rfl
  | tick => exact sits.tick
  | compact => exact sits.of_same rfl rfl rfl

/-- A run leaves in the table who was heard. -/
theorem Sits.after (sits : manager.Sits table) (store : manager.StoreInvariant)
    (operations : List Operation) :
    (manager.after operations).Sits
      ((manager.signs operations).foldl (mark maxTrackedPeers) table) := by
  induction operations generalizing manager table with
  | nil => exact sits
  | cons operation rest inductionHypothesis =>
    rw [signs, List.foldl_append]
    exact inductionHypothesis (sits.operation store.realNode operation)
      (operation_storeInvariant store operation)

theorem sits_create {nodeId : UInt64} {manager : FleeceStateManager}
    (created : createWithNodeId nodeId = some manager) : manager.Sits [] := by
  unfold createWithNodeId at created
  split_ifs at created
  rw [← Option.some.inj created]
  exact ⟨fun i entry place => (nomatch place), fun _ _ => rfl, Nat.zero_le _, List.nodup_nil,
    fun entry member => (nomatch member)⟩

/-! ### What a script sees -/

theorem Sits.ticksSinceSeen (sits : manager.Sits table) {entry : UInt64 × Nat}
    (member : entry ∈ table) : manager.ticksSinceSeen entry.1 = UInt64.ofNat entry.2 := by
  obtain ⟨place, inside⟩ := List.getElem?_of_mem member
  have bound : place < maxTrackedPeers :=
    (List.getElem?_eq_some_iff.mp inside).1.trans_le sits.fits
  have seat : table[(⟨place, bound⟩ : Fin maxTrackedPeers).val]? = some entry := inside
  unfold FleeceStateManager.ticksSinceSeen
  rw [find_peer, sits.find seat]
  simp only
  rw [sits.taken _ entry seat]
  simp only
  grind

/-- The listing is the table. -/
theorem Sits.listHeardPeers (sits : manager.Sits table) :
    manager.listHeardPeers jsListMax = table.map Prod.fst := by
  have front : (List.ofFn manager.peersSeen).take table.length =
      table.map fun entry => ⟨entry.1, manager.currentTick - UInt64.ofNat entry.2, true⟩ := by
    refine List.ext_getElem? fun place => ?_
    by_cases within : place < table.length
    · have bound : place < maxTrackedPeers := within.trans_le sits.fits
      have seat := sits.taken ⟨place, bound⟩ _ (List.getElem?_eq_getElem within)
      rw [List.getElem?_take_of_lt within, List.getElem?_map, List.getElem?_eq_getElem within,
        List.getElem?_ofFn, dif_pos bound, seat]
      rfl
    · rw [List.getElem?_eq_none, List.getElem?_eq_none]
      · rw [List.length_map]
        exact Nat.not_lt.mp within
      · rw [List.length_take]
        exact (Nat.min_le_left _ _).trans (Nat.not_lt.mp within)
  have back : ∀ seat ∈ (List.ofFn manager.peersSeen).drop table.length,
      seat.slotExists = false := by
    intro seat member
    obtain ⟨place, inside⟩ := List.getElem?_of_mem member
    rw [List.getElem?_drop, List.getElem?_ofFn] at inside
    split_ifs at inside with bound
    rw [← Option.some.inj inside]
    exact sits.free _ (Nat.le_add_right _ _)
  have whole : List.ofFn manager.peersSeen =
      (table.map fun entry => ⟨entry.1, manager.currentTick - UInt64.ofNat entry.2, true⟩) ++
        (List.ofFn manager.peersSeen).drop table.length := by
    rw [← front, List.take_append_drop]
  unfold FleeceStateManager.listHeardPeers
  rw [whole, List.filter_append, List.filter_eq_self.mpr, List.filter_eq_nil_iff.mpr,
    List.append_nil, List.map_map, List.take_of_length_le]
  · rfl
  · rw [List.length_map]
    exact sits.fits.trans (by decide)
  · intro seat member shown
    rw [back seat member] at shown
    exact absurd shown Bool.false_ne_true
  · intro seat member
    obtain ⟨entry, held, rfl⟩ := List.mem_map.mp member
    obtain ⟨own, shared⟩ := sits.foreign entry held
    simp only [Bool.true_and, Bool.and_eq_true, bne_iff_ne]
    exact ⟨own, shared⟩

end FleeceStateManager

open Attendance in
/-- A script sees the first 32 nodes that were heard, as far as they were heard within the time to
live, in the order in which they came. -/
theorem swarm_is_who_was_heard {Value : Type} (engine : BindingEngine Value) {nodeId : UInt64}
    {manager : FleeceStateManager}
    (created : FleeceStateManager.createWithNodeId nodeId = some manager)
    (operations : List Operation) (peerTtlTicks : UInt64) :
    let signs := manager.signs operations
    engine.jsSwarmNodes (manager.after operations) peerTtlTicks =
      (((firsts signs).take maxTrackedPeers).filter fun id =>
        UInt64.ofNat (silence signs id) ≤ peerTtlTicks).map engine.formatNodeId := by
  intro signs
  have sits : (manager.after operations).Sits (attend maxTrackedPeers signs) :=
    (FleeceStateManager.sits_create created).after
      (FleeceStateManager.storeInvariant_create created) operations
  rw [attend_eq] at sits
  unfold BindingEngine.jsSwarmNodes
  rw [sits.listHeardPeers, List.map_map]
  have names : (Prod.fst ∘ fun name => (name, silence signs name)) = id := rfl
  rw [names, List.map_id]
  refine congrArg _ (List.filter_congr fun id member => ?_)
  have entry := List.mem_map_of_mem (f := fun name => (name, silence signs name)) member
  have foreign : (id != (manager.after operations).nodeId) = true :=
    bne_iff_ne.mpr (sits.foreign _ entry).1
  rw [foreign, Bool.true_and, jsPeerIsLive, sits.ticksSinceSeen entry]

/-- Node 9 is heard two ticks ago and node 8 one tick ago. A time to live of one tick hides the
first. -/
theorem swarm_is_who_was_heard_two :
    let frame (id : UInt64) := ((FleeceStateManager.blank id).after
      [.write (.setShared ⟨[0x67], by decide⟩ ⟨[0x31], by decide⟩)]).exportShared
    let operations : List Operation := [.importFrom (frame 9), .tick, .importFrom (frame 8), .tick]
    sampleBindings.jsSwarmNodes ((FleeceStateManager.blank 7).after operations) 1 =
      [Hexadecimal.print 8] := by
  intro frame operations
  refine (swarm_is_who_was_heard sampleBindings
    (show FleeceStateManager.createWithNodeId 7 = some (.blank 7) from rfl) operations 1).trans ?_
  decide +kernel

end Fleece
