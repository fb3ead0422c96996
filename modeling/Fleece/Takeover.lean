/-
This file is about claims that the auction takes from other nodes. A call overwrites the
claim of another node with a score above the holder's by more than the margin, or after
the holder has been silent for longer than the time to live. Silence is read off the
peer table, which keeps for each sender the tick of its last frame: it has 32 entries,
and is not told of the authors of the records in a frame.

So a holder whose claim arrives through other nodes only is silent from the start.
-/

import Fleece.ExactScores

namespace Fleece

namespace FleeceStateManager

/-! ### The peer table -/

/-- The node of an entry of the peer table. -/
def peerLabel (peer : PeerSeen) : Option UInt64 :=
  if peer.slotExists then some peer.nodeId else none

/-- The entry of a node in the peer table. -/
def peer (manager : FleeceStateManager) (nodeId : UInt64) : Option PeerSeen :=
  Slots.lookup peerLabel manager.peersSeen nodeId

theorem find_peer (manager : FleeceStateManager) (nodeId : UInt64) :
    (Fin.find? fun i => (manager.peersSeen i).slotExists && (manager.peersSeen i).nodeId == nodeId) =
      Slots.find peerLabel manager.peersSeen nodeId := by
  refine congrArg Fin.find? (funext fun i => ?_)
  unfold peerLabel
  cases (manager.peersSeen i).slotExists with
  | false => rfl
  | true =>
    rw [if_pos rfl, Bool.true_and, Bool.eq_iff_iff, beq_iff_eq, decide_eq_true_iff,
      Option.some_inj]

theorem ticksSinceSeen_of_peer {manager : FleeceStateManager} {nodeId : UInt64} {entry : PeerSeen}
    (known : manager.peer nodeId = some entry) :
    manager.ticksSinceSeen nodeId = manager.currentTick - entry.lastSeenTick := by
  obtain ⟨i, found, rfl⟩ := Option.map_eq_some_iff.mp known
  unfold ticksSinceSeen
  rw [find_peer, found]

theorem peer_of_same {manager next : FleeceStateManager}
    (peers : next.peersSeen = manager.peersSeen) : next.peer = manager.peer := by
  funext nodeId
  rw [peer, peer, peers]

/-- The entry that a touch leaves. -/
def touchedPeer (manager : FleeceStateManager) (nodeId : UInt64) : PeerSeen :=
  ⟨nodeId, manager.currentTick, true⟩

/-- A touch of another node writes its entry, or finds the table full. -/
theorem touchPeer_cases {manager : FleeceStateManager} {nodeId : UInt64}
    (foreign : nodeId ≠ manager.nodeId) (real : nodeId ≠ sharedOwnerId) :
    (∃ i, manager.touchPeer nodeId = { manager with
        peersSeen := Function.update manager.peersSeen i (manager.touchedPeer nodeId) } ∧
      (Slots.find peerLabel manager.peersSeen nodeId = some i ∨
        manager.peer nodeId = none ∧ peerLabel (manager.peersSeen i) = none)) ∨
      manager.touchPeer nodeId = manager ∧ manager.peer nodeId = none := by
  unfold touchPeer
  rw [if_neg foreign, if_neg real, find_peer]
  cases found : Slots.find peerLabel manager.peersSeen nodeId with
  | some i =>
    have labelled := Slots.label_of_find found
    unfold peerLabel at labelled
    split_ifs at labelled with present
    refine Or.inl ⟨i, ?_, Or.inl rfl⟩
    rw [touchedPeer, ← Option.some.inj labelled, ← present]
  | none =>
    have absent : manager.peer nodeId = none := by
      rw [peer, Slots.lookup, found, Option.map_none]
    cases free : Fin.find? fun i => !(manager.peersSeen i).slotExists with
    | none => exact Or.inr ⟨rfl, absent⟩
    | some i =>
      have vacant := (Bool.not_eq_true' _).mp (Fin.eq_true_of_find?_eq_some free)
      refine Or.inl ⟨i, rfl, Or.inr ⟨absent, ?_⟩⟩
      rw [peerLabel, vacant, if_neg Bool.false_ne_true]

/-- A touch of a node leaves the entries of the others alone. -/
theorem peer_touchPeer_of_ne (manager : FleeceStateManager) {nodeId other : UInt64}
    (different : other ≠ nodeId) : (manager.touchPeer other).peer nodeId = manager.peer nodeId := by
  by_cases foreign : other = manager.nodeId
  · rw [touchPeer, if_pos foreign]
  by_cases real : other = sharedOwnerId
  · rw [touchPeer, if_neg foreign, if_pos real]
  rcases touchPeer_cases foreign real with ⟨i, changed, place⟩ | ⟨same, _⟩
  · rw [changed]
    refine Slots.lookup_update_of_ne i ?_ ?_
    · rcases place with found | ⟨_, free⟩
      · rw [Slots.label_of_find found]
        exact fun same => different (Option.some.inj same)
      · rw [free]
        exact (Option.some_ne_none nodeId).symm
    · exact fun same => different (Option.some.inj same)
  · rw [same]

/-- After a touch the entry of the node is from this tick, unless the table was full without it. -/
theorem peer_touchPeer_self {manager : FleeceStateManager} {nodeId : UInt64}
    (foreign : nodeId ≠ manager.nodeId) (real : nodeId ≠ sharedOwnerId) :
    (manager.touchPeer nodeId).peer nodeId = some (manager.touchedPeer nodeId) ∨
      (manager.touchPeer nodeId).peer nodeId = none ∧ manager.peer nodeId = none := by
  rcases touchPeer_cases foreign real with ⟨i, changed, found | ⟨absent, _⟩⟩ | ⟨same, absent⟩
  · rw [changed]
    exact Or.inl (Slots.lookup_update_found found rfl)
  · rw [changed]
    exact Or.inl (Slots.lookup_update_absent absent rfl)
  · rw [same]
    exact Or.inr ⟨absent, absent⟩

/-! ### Listening -/

/-- What happens to the peer table within a tick: an entry stays, or becomes one of this tick. -/
structure Listens (manager next : FleeceStateManager) : Prop where
  tick : next.currentTick = manager.currentTick
  peers : ∀ nodeId, next.peer nodeId = manager.peer nodeId ∨
    next.peer nodeId = some (manager.touchedPeer nodeId)

theorem Listens.of_same {manager next : FleeceStateManager}
    (peers : next.peersSeen = manager.peersSeen) (tick : next.currentTick = manager.currentTick) :
    Listens manager next :=
  ⟨tick, fun nodeId => Or.inl (congrFun (peer_of_same peers) nodeId)⟩

theorem Listens.refl (manager : FleeceStateManager) : Listens manager manager := .of_same rfl rfl

theorem Listens.trans {first second third : FleeceStateManager} (left : Listens first second)
    (right : Listens second third) : Listens first third := by
  refine ⟨right.tick.trans left.tick, fun nodeId => ?_⟩
  rcases right.peers nodeId with same | touched
  · rw [same]
    exact left.peers nodeId
  · rw [touched, touchedPeer, left.tick]
    exact Or.inr rfl

theorem touchPeer_listens (manager : FleeceStateManager) (nodeId : UInt64) :
    Listens manager (manager.touchPeer nodeId) := by
  refine ⟨by rw [touchPeer_rest], fun other => ?_⟩
  rcases eq_or_ne nodeId other with rfl | different
  · by_cases foreign : nodeId = manager.nodeId
    · rw [touchPeer, if_pos foreign]
      exact Or.inl rfl
    by_cases real : nodeId = sharedOwnerId
    · rw [touchPeer, if_neg foreign, if_pos real]
      exact Or.inl rfl
    rcases peer_touchPeer_self foreign real with touched | ⟨still, absent⟩
    · exact Or.inr touched
    · exact Or.inl (still.trans absent.symm)
  · exact Or.inl (peer_touchPeer_of_ne manager different)

theorem MergeOutcome.listens {base : FleeceStateManager} {pair : UInt32 × UInt64}
    {record : GossipRecord} {outranks : GossipRecord → Prop} {result : FleeceStateManager × Int}
    (outcome : MergeOutcome base pair record outranks result) : Listens base result.1 := by
  cases outcome with
  | kept old found stays => exact .refl base
  | noSlot absent full => exact .refl base
  | stored next f storedAt rest =>
    rw [rest]
    exact .of_same rfl rfl

theorem mergeShared_listens (manager : FleeceStateManager) (origin : UInt64) (name : CString)
    (data : Blob) (timestamp : UInt64) (isTombstone : Bool) :
    Listens manager (manager.mergeShared origin name data timestamp isTombstone).1 := by
  by_cases accepted : mergeable name data isTombstone = true
  · have outcome := mergeShared_outcome manager origin name data timestamp isTombstone accepted
    exact (Listens.of_same rfl rfl : Listens manager (manager.raiseClock timestamp)).trans
      outcome.listens
  · unfold mergeShared
    rw [Bool.eq_false_of_not_eq_true accepted]
    exact .refl manager

/-- A merge into the stream of a node leaves the store as it was, or touches the node. -/
theorem mergeNamed_listens (manager : FleeceStateManager) (owner : UInt64) (name : CString)
    (data : Blob) (timestamp : UInt64) (isTombstone : Bool) :
    (manager.mergeNamed owner name data timestamp isTombstone).1 = manager ∨
      owner ≠ manager.nodeId ∧ Listens (manager.touchPeer owner)
        (manager.mergeNamed owner name data timestamp isTombstone).1 := by
  by_cases accepted : mergeable name data isTombstone = true
  · by_cases foreign : owner = manager.nodeId
    · unfold mergeNamed
      rw [accepted, if_pos foreign]
      exact Or.inl rfl
    · have outcome :=
        mergeNamed_outcome manager owner name data timestamp isTombstone accepted foreign
      exact Or.inr ⟨foreign, (Listens.of_same rfl rfl : Listens (manager.touchPeer owner)
        ((manager.touchPeer owner).raiseClock timestamp)).trans outcome.listens⟩
  · unfold mergeNamed
    rw [Bool.eq_false_of_not_eq_true accepted]
    exact Or.inl rfl

theorem mergeRecord_listens (manager : FleeceStateManager) (owner : UInt64)
    (record : GossipRecord) : Listens manager (manager.mergeRecord owner record) := by
  unfold mergeRecord
  split_ifs
  · exact mergeShared_listens manager _ _ _ _ _
  · rcases mergeNamed_listens manager owner record.name.toCString record.data record.timestamp
      record.isTombstone with same | ⟨_, listens⟩
    · rw [same]
      exact .refl manager
    · exact (touchPeer_listens manager owner).trans listens

theorem mergeRecords_listens (manager : FleeceStateManager) (owner : UInt64)
    (records : List GossipRecord) : Listens manager (manager.mergeRecords owner records) := by
  induction records generalizing manager with
  | nil => exact .refl manager
  | cons record rest inductionHypothesis =>
    exact (mergeRecord_listens manager owner record).trans (inductionHypothesis _)

theorem importFrom_listens (manager : FleeceStateManager) (frame : Blob) :
    Listens manager (manager.importFrom frame).manager := by
  rw [importFrom_manager]
  cases parseFrame manager.nodeId frame with
  | error halt => exact .refl manager
  | ok parsed => exact (touchPeer_listens manager _).trans (mergeRecords_listens _ _ _)

theorem exec_listens (manager : FleeceStateManager) (change : LocalWrite) :
    Listens manager (change.exec manager).1 := by
  have outcome := exec_outcome manager change
  generalize change.request manager.nodeId manager.localTimestamp manager.view = request at outcome
  generalize change.exec manager = result at outcome ⊢
  cases outcome with
  | refused code denied => exact .refl manager
  | noSlot next pair record asked absent full fields count node peers tick =>
    exact .of_same peers tick
  | wrote next f asked stored node peers tick => exact .of_same peers tick

/-- Every operation but the tick itself. -/
theorem operation_listens (manager : FleeceStateManager) {operation : Operation}
    (within : operation ≠ .tick) : Listens manager (operation.next manager) := by
  cases operation with
  | write change => exact exec_listens manager change
  | query asked => exact .refl manager
  | mergeNamed owner name data timestamp isTombstone =>
    rcases mergeNamed_listens manager owner name data timestamp isTombstone with same | ⟨_, listens⟩
    · show Listens manager (manager.mergeNamed owner name data timestamp isTombstone).1
      rw [same]
      exact .refl manager
    · exact (touchPeer_listens manager owner).trans listens
  | mergeShared origin name data timestamp isTombstone =>
    exact mergeShared_listens manager origin name data timestamp isTombstone
  | importFrom frame => exact importFrom_listens manager frame
  | exportSharedDeltaBounded since capBytes =>
    have rest := (markSteps_rest (exportSharedDeltaBounded_steps manager since capBytes)).1
    show Listens manager (manager.exportSharedDeltaBounded since capBytes).manager
    rw [rest]
    exact .of_same rfl rfl
  | tick => exact absurd rfl within
  | compact => exact .of_same rfl rfl

/-! ### Hearing a node -/

/-- The table has an entry of a node that is at most this many ticks old. -/
def HeardWithin (manager : FleeceStateManager) (nodeId : UInt64) (ticks : Nat) : Prop :=
  ∃ entry, manager.peer nodeId = some entry ∧
    (manager.currentTick - entry.lastSeenTick).toNat ≤ ticks

theorem HeardWithin.listens {manager next : FleeceStateManager} {nodeId : UInt64} {ticks : Nat}
    (heard : manager.HeardWithin nodeId ticks) (listens : Listens manager next) :
    next.HeardWithin nodeId ticks := by
  obtain ⟨entry, known, recent⟩ := heard
  rcases listens.peers nodeId with same | touched
  · exact ⟨entry, same.trans known, by rwa [listens.tick]⟩
  · refine ⟨manager.touchedPeer nodeId, touched, ?_⟩
    rw [listens.tick, touchedPeer, UInt64.sub_self]
    exact Nat.zero_le ticks

theorem HeardWithin.tick {manager : FleeceStateManager} {nodeId : UInt64} {ticks : Nat}
    (heard : manager.HeardWithin nodeId ticks) : manager.tick.HeardWithin nodeId (ticks + 1) := by
  obtain ⟨entry, known, recent⟩ := heard
  refine ⟨entry, known, ?_⟩
  have step : manager.tick.currentTick - entry.lastSeenTick =
      manager.currentTick - entry.lastSeenTick + 1 := by
    show manager.currentTick + 1 - entry.lastSeenTick = _
    grind
  rw [step, UInt64.toNat_add]
  exact (Nat.mod_le _ _).trans (Nat.add_le_add_right recent 1)

/-- A node that was heard within the time to live is not silent. -/
theorem HeardWithin.ticksSinceSeen_le {manager : FleeceStateManager} {nodeId : UInt64} {ticks : Nat}
    (heard : manager.HeardWithin nodeId ticks) : (manager.ticksSinceSeen nodeId).toNat ≤ ticks := by
  obtain ⟨entry, known, recent⟩ := heard
  rwa [ticksSinceSeen_of_peer known]

/-- If a node has an entry, it is from this tick. -/
def Recent (manager : FleeceStateManager) (nodeId : UInt64) : Prop :=
  manager.peer nodeId = none ∨ manager.peer nodeId = some (manager.touchedPeer nodeId)

theorem recent_touchPeer {manager : FleeceStateManager} {nodeId : UInt64}
    (foreign : nodeId ≠ manager.nodeId) (real : nodeId ≠ sharedOwnerId) :
    (manager.touchPeer nodeId).Recent nodeId := by
  rcases peer_touchPeer_self foreign real with touched | ⟨absent, _⟩
  · rw [Recent, touchedPeer, (touchPeer_listens manager nodeId).tick]
    exact Or.inr touched
  · exact Or.inl absent

theorem Recent.listens {manager next : FleeceStateManager} {nodeId : UInt64}
    (recent : manager.Recent nodeId) (listens : Listens manager next) : next.Recent nodeId := by
  rw [Recent, touchedPeer, listens.tick]
  rcases listens.peers nodeId with same | touched
  · rw [same]
    exact recent
  · exact Or.inr touched

/-- An import hears a node: the frame was sent by it and read as far as its digest, or put a record
into the stream of the node; and the table has an entry for it. -/
def Hears (manager : FleeceStateManager) (frame : Blob) (nodeId : UInt64) : Prop :=
  ((manager.importFrom frame).manager.peer nodeId).isSome = true ∧
    ((∃ parsed, parseFrame manager.nodeId frame = .ok parsed ∧ parsed.senderNodeId = nodeId) ∨
      ∃ key, (manager.importFrom frame).manager.view (key, nodeId) ≠ manager.view (key, nodeId))

theorem MergeOutcome.view_of_ne {base : FleeceStateManager} {pair : UInt32 × UInt64}
    {record : GossipRecord} {outranks : GossipRecord → Prop} {result : FleeceStateManager × Int}
    (outcome : MergeOutcome base pair record outranks result) (store : base.StoreInvariant)
    {nodeId : UInt64} (foreign : nodeId ≠ base.nodeId) (other : pair.2 ≠ nodeId) (key : UInt32) :
    result.1.view (key, nodeId) = base.view (key, nodeId) := by
  cases outcome with
  | kept old found stays => rfl
  | noSlot absent full => rfl
  | stored next f storedAt rest label held newer =>
    rw [view_stored_foreign storedAt store foreign, label, Function.update_of_ne]
    exact fun same => other (congrArg Prod.snd same).symm

/-- A merged record leaves the stream of a node alone, or the node has been touched. -/
theorem mergeRecord_hears {manager : FleeceStateManager} (store : manager.StoreInvariant)
    (owner : UInt64) {nodeId : UInt64} (foreign : nodeId ≠ manager.nodeId)
    (real : nodeId ≠ sharedOwnerId) (record : GossipRecord) :
    (manager.mergeRecord owner record).Recent nodeId ∨
      ∀ key, (manager.mergeRecord owner record).view (key, nodeId) = manager.view (key, nodeId) := by
  unfold mergeRecord
  split_ifs with shared
  · refine Or.inr fun key => ?_
    by_cases accepted : mergeable record.name.toCString record.data record.isTombstone = true
    · have raised := ((raiseClock_quiet manager record.timestamp).keeps store).1
      exact (mergeShared_outcome manager record.originNodeId record.name.toCString record.data
        record.timestamp record.isTombstone accepted).view_of_ne raised foreign real.symm key
    · unfold mergeShared
      rw [Bool.eq_false_of_not_eq_true accepted]
      rfl
  · rcases mergeNamed_listens manager owner record.name.toCString record.data record.timestamp
      record.isTombstone with same | ⟨other, listens⟩
    · rw [same]
      exact Or.inr fun key => rfl
    · rcases eq_or_ne owner nodeId with rfl | different
      · exact Or.inl ((recent_touchPeer foreign real).listens listens)
      · refine Or.inr fun key => ?_
        by_cases accepted : mergeable record.name.toCString record.data record.isTombstone = true
        · have touched := ((touchPeer_quiet manager owner).keeps store).1
          have raised := ((raiseClock_quiet _ record.timestamp).keeps touched).1
          have kept := (mergeNamed_outcome manager owner record.name.toCString record.data
            record.timestamp record.isTombstone accepted other).view_of_ne raised
              (show nodeId ≠ (manager.touchPeer owner).nodeId by rwa [touchPeer_nodeId]) different key
          rw [kept]
          exact congrFun (view_of_same (touchPeer_fields manager owner)) _
        · unfold mergeNamed
          rw [Bool.eq_false_of_not_eq_true accepted]
          rfl

theorem mergeRecords_hears {manager : FleeceStateManager} (store : manager.StoreInvariant)
    (owner : UInt64) {nodeId : UInt64} (foreign : nodeId ≠ manager.nodeId)
    (real : nodeId ≠ sharedOwnerId) (records : List GossipRecord) :
    (manager.mergeRecords owner records).Recent nodeId ∨
      ∀ key, (manager.mergeRecords owner records).view (key, nodeId) =
        manager.view (key, nodeId) := by
  induction records generalizing manager with
  | nil => exact Or.inr fun key => rfl
  | cons record rest inductionHypothesis =>
    have node := nodeId_of_steps (mergeRecord_steps store.realNode owner record)
    have listens := mergeRecords_listens (manager.mergeRecord owner record) owner rest
    rcases mergeRecord_hears store owner foreign real record with recent | same
    · exact Or.inl (recent.listens listens)
    · refine (inductionHypothesis (mergeRecord_storeInvariant store owner record)
        (node ▸ foreign)).imp_right fun kept key => ?_
      exact (kept key).trans (same key)

/-- A node that an import hears was seen at this tick. -/
theorem Hears.heardWithin {manager : FleeceStateManager} (store : manager.StoreInvariant)
    {frame : Blob} {nodeId : UInt64} (foreign : nodeId ≠ manager.nodeId)
    (real : nodeId ≠ sharedOwnerId) (hears : manager.Hears frame nodeId) :
    (manager.importFrom frame).manager.HeardWithin nodeId 0 := by
  obtain ⟨known, source⟩ := hears
  have recent : (manager.importFrom frame).manager.Recent nodeId := by
    cases read : parseFrame manager.nodeId frame with
    | error halt =>
      have refused : (manager.importFrom frame).manager = manager := by
        rw [importFrom_manager, read]
      rcases source with ⟨parsed, accepted, _⟩ | ⟨key, changed⟩
      · rw [read] at accepted
        cases accepted
      · rw [refused] at changed
        exact absurd rfl changed
    | ok parsed =>
      have imported : (manager.importFrom frame).manager =
          (manager.touchPeer parsed.senderNodeId).mergeRecords parsed.ownerNodeId parsed.records := by
        rw [importFrom_manager, read]
      rw [imported]
      rcases source with ⟨other, same, sender⟩ | ⟨key, changed⟩
      · obtain rfl := Except.ok.inj (read.symm.trans same)
        rw [← sender] at foreign real ⊢
        exact (recent_touchPeer foreign real).listens (mergeRecords_listens _ _ _)
      · have touched := ((touchPeer_quiet manager parsed.senderNodeId).keeps store).1
        have other : nodeId ≠ (manager.touchPeer parsed.senderNodeId).nodeId := by
          rw [touchPeer_nodeId]
          exact foreign
        have merged := mergeRecords_hears touched parsed.ownerNodeId other real parsed.records
        rw [view_of_same (touchPeer_fields manager parsed.senderNodeId)] at merged
        rw [imported] at changed
        rcases merged with recent | kept
        · exact recent
        · rw [kept key] at changed
          exact absurd rfl changed
  rcases recent with absent | touched
  · rw [absent] at known
    cases known
  · refine ⟨_, touched, ?_⟩
    rw [touchedPeer, UInt64.sub_self]
    exact le_rfl

/-! ### A call that takes a claim -/

section Calls

variable {Score : Type} [LT Score] [DecidableLT Score] [BEq Score] [Neg Score] [Zero Score]
  [OfScientific Score] [Add Score] {host : ScriptHost Score} {manager : FleeceStateManager}
  {auction : Auction Score}

theorem claimBestGoal_listens (host : ScriptHost Score) (store : manager.StoreInvariant)
    (auction : Auction Score) (currentKey : CString) :
    (manager.claimBestGoal host auction currentKey).1.StoreInvariant ∧
      (manager.claimBestGoal host auction currentKey).1.nodeId = manager.nodeId ∧
      Listens manager (manager.claimBestGoal host auction currentKey).1 := by
  cases scorer : auction.scoreGoal with
  | none =>
    rw [claimBestGoal_of_none scorer]
    exact ⟨store, rfl, .refl manager⟩
  | some calls =>
    obtain ⟨kept, same, _⟩ := claimBestGoal_settled host store scorer currentKey
    exact ⟨kept, same.nodeId, .of_same same.peersSeen same.currentTick⟩

/-- A call that changes the claim of another node puts its own in its place, with a score for which
the goal was eligible. -/
theorem eligible_of_changed (store : manager.StoreInvariant) {currentKey key : CString}
    {holder : UInt64} {holderScore : Score}
    (read : (manager.readClaim host key).1 = some (holder, holderScore))
    (other : holder ≠ manager.nodeId)
    (changed : (manager.claimBestGoal host auction currentKey).1.liveShared (claimKey key) ≠
      manager.liveShared (claimKey key)) :
    ∃ record claimed score,
      (manager.claimBestGoal host auction currentKey).1.liveShared (claimKey key) = some record ∧
        IsNewClaim host manager claimed score record ∧
        manager.isEligible auction (some (holder, holderScore)) score = true := by
  cases scorer : auction.scoreGoal with
  | none =>
    rw [claimBestGoal_of_none scorer] at changed
    exact absurd rfl changed
  | some calls =>
    obtain ⟨_, _, settled⟩ := claimBestGoal_settled host store scorer currentKey
    generalize held : manager.heldGoal host calls (passedKey currentKey) = goal at settled
    generalize manager.claimBestGoal host auction currentKey = result at settled changed ⊢
    -- the slot of a held claim names this node
    have notHeld {own : CString} {score : Score} (holds : goal = some (own, score)) :
        claimKey key ≠ claimKey own := by
      intro same
      rw [holds] at held
      obtain ⟨claimed, owned⟩ := (heldGoal_eq_some_iff.mp held).owned
      rw [← readClaim_congr same, read] at owned
      exact other (Prod.mk.inj (Option.some.inj owned)).1
    obtain ⟨next, code, key'⟩ := result
    cases settled with
    | kept next live => exact absurd (congrFun live _) changed
    | reasserted next own score record holds claim live =>
      rw [live, Function.update_of_ne (notHeld holds)] at changed
      exact absurd rfl changed
    | switched next bid record isBid better claim live =>
      have unreleased : next.liveShared (claimKey key) =
          Function.update manager.liveShared (claimKey bid.key.toCString) (some record)
            (claimKey key) := by
        rw [live]
        cases goal with
        | none => rfl
        | some goal => rw [vacate, Function.update_of_ne (notHeld rfl)]
      have here : claimKey key = claimKey bid.key.toCString := by
        by_contra elsewhere
        rw [unreleased, Function.update_of_ne elsewhere] at changed
        exact changed rfl
      have eligible := isBid.eligible
      rw [← readClaim_congr here, read] at eligible
      refine ⟨record, bid.key.toCString, bid.score, ?_, claim, eligible⟩
      rw [unreleased, here, Function.update_self]

omit [BEq Score] [Neg Score] [Zero Score] [OfScientific Score] in
/-- A goal of another node is eligible if its claim is outbid or its holder silent. -/
theorem isEligible_foreign {holder : UInt64} {holderScore score : Score}
    (other : holder ≠ manager.nodeId)
    (eligible : manager.isEligible auction (some (holder, holderScore)) score = true) :
    holderScore + auction.contestMargin < score ∨
      auction.peerTtlTicks < manager.ticksSinceSeen holder := by
  unfold isEligible at eligible
  simp only [if_neg other] at eligible
  split_ifs at eligible with silent
  · exact Or.inr silent
  · exact Or.inl (of_decide_eq_true eligible)

end Calls

end FleeceStateManager

/-! ### A node in the mesh -/

namespace Mesh

/-- An operation on the store, imports and ticks among them, or a call of the auction. -/
inductive Event (Score : Type) where
  | operation (operation : Operation)
  | claim (auction : Auction Score) (currentKey : CString)

/-- The ticks among the events. -/
def ticks {Score : Type} (events : List (Event Score)) : Nat :=
  events.countP fun event => match event with
    | .operation .tick => true
    | _ => false

theorem ticks_cons {Score : Type} (event : Event Score) (rest : List (Event Score)) :
    ticks (event :: rest) = ticks [event] + ticks rest := by
  rw [ticks, ticks, ticks, ← List.countP_append, List.singleton_append]

section Runs

variable {Score : Type} [LT Score] [DecidableLT Score] [BEq Score] [Neg Score] [Zero Score]
  [OfScientific Score] [Add Score]

/-- What an event does to the store: an operation, or a call for the best goal. -/
def step (host : ScriptHost Score) (manager : FleeceStateManager) :
    Event Score → FleeceStateManager
  | .operation operation => operation.next manager
  | .claim auction currentKey => (manager.claimBestGoal host auction currentKey).1

/-- No import of the run heard the holder within the last ticks, as many as the time to live. -/
def Silent (host : ScriptHost Score) (manager : FleeceStateManager) (events : List (Event Score))
    (timeToLive : UInt64) (holder : UInt64) : Prop :=
  ∀ before frame after, events = before ++ .operation (.importFrom frame) :: after →
    (runFrom (step host) manager before).Hears frame holder → timeToLive.toNat < ticks after

variable {host : ScriptHost Score} {manager : FleeceStateManager}

theorem step_keeps (host : ScriptHost Score) (store : manager.StoreInvariant) (event : Event Score) :
    (step host manager event).StoreInvariant ∧ (step host manager event).nodeId = manager.nodeId := by
  cases event with
  | operation operation =>
    exact ⟨FleeceStateManager.operation_storeInvariant store operation,
      FleeceStateManager.operation_nodeId store operation⟩
  | claim auction currentKey =>
    obtain ⟨kept, node, _⟩ :=
      FleeceStateManager.claimBestGoal_listens host store auction currentKey
    exact ⟨kept, node⟩

theorem run_keeps (host : ScriptHost Score) (store : manager.StoreInvariant)
    (events : List (Event Score)) :
    (runFrom (step host) manager events).StoreInvariant ∧
      (runFrom (step host) manager events).nodeId = manager.nodeId := by
  induction events generalizing manager with
  | nil => exact ⟨store, rfl⟩
  | cons event rest inductionHypothesis =>
    obtain ⟨kept, node⟩ := step_keeps host store event
    obtain ⟨last, same⟩ := inductionHypothesis kept
    exact ⟨last, same.trans node⟩

theorem heardWithin_step (store : manager.StoreInvariant) {nodeId : UInt64} {before : Nat}
    (heard : manager.HeardWithin nodeId before) (event : Event Score) :
    (step host manager event).HeardWithin nodeId (before + ticks [event]) := by
  cases event with
  | operation operation =>
    by_cases advances : operation = .tick
    · rw [advances]
      exact heard.tick
    · have still : ticks [(Event.operation operation : Event Score)] = 0 := by
        cases operation with
        | tick => exact absurd rfl advances
        | _ => rfl
      rw [still]
      exact heard.listens (FleeceStateManager.operation_listens manager advances)
  | claim auction currentKey =>
    obtain ⟨_, _, listens⟩ :=
      FleeceStateManager.claimBestGoal_listens host store auction currentKey
    exact heard.listens listens

/-- What was heard some ticks ago was heard that many ticks earlier at the end of a run. -/
theorem heardWithin_run (host : ScriptHost Score) (store : manager.StoreInvariant)
    {nodeId : UInt64} {before : Nat} (heard : manager.HeardWithin nodeId before)
    (events : List (Event Score)) :
    (runFrom (step host) manager events).HeardWithin nodeId (before + ticks events) := by
  induction events generalizing manager before with
  | nil => exact heard
  | cons event rest inductionHypothesis =>
    rw [ticks_cons, ← Nat.add_assoc]
    exact inductionHypothesis (step_keeps host store event).1 (heardWithin_step store heard event)

/-- A call of the auction overwrites the claim of another node only with a score above the holder's
by more than the margin, or if no import heard the holder within the time to live. -/
theorem takeover_of_silent_or_outbid {nodeId : UInt64} {manager : FleeceStateManager}
    (created : FleeceStateManager.createWithNodeId nodeId = some manager)
    (events : List (Event Score)) (auction : Auction Score) (currentKey key : CString)
    {holder : UInt64} {holderScore : Score}
    (claimed : ((runFrom (step host) manager events).readClaim host key).1 =
      some (holder, holderScore))
    (other : holder ≠ nodeId) (real : holder ≠ sharedOwnerId)
    (overwritten : (step host (runFrom (step host) manager events)
        (.claim auction currentKey)).liveShared (FleeceStateManager.claimKey key) ≠
      (runFrom (step host) manager events).liveShared (FleeceStateManager.claimKey key)) :
    (∃ record goal score,
      (step host (runFrom (step host) manager events) (.claim auction currentKey)).liveShared
          (FleeceStateManager.claimKey key) = some record ∧
        FleeceStateManager.IsNewClaim host (runFrom (step host) manager events) goal score record ∧
        holderScore + auction.contestMargin < score) ∨
      Silent host manager events auction.peerTtlTicks holder := by
  have start : manager.StoreInvariant ∧ manager.nodeId = nodeId :=
    ⟨FleeceStateManager.storeInvariant_create created, FleeceStateManager.node_after created []⟩
  have node (prior : List (Event Score)) :
      (runFrom (step host) manager prior).nodeId = nodeId :=
    (run_keeps host start.1 prior).2.trans start.2
  have foreign (prior : List (Event Score)) :
      holder ≠ (runFrom (step host) manager prior).nodeId := by
    rw [node]
    exact other
  obtain ⟨record, goal, score, live, isNew, eligible⟩ := FleeceStateManager.eligible_of_changed
    (run_keeps host start.1 events).1 claimed (foreign events) overwritten
  rcases FleeceStateManager.isEligible_foreign (foreign events) eligible with outbid | silent
  · exact Or.inl ⟨record, goal, score, live, isNew, outbid⟩
  · refine Or.inr fun before frame after split hears => ?_
    have heard := hears.heardWithin (run_keeps host start.1 before).1 (foreign before) real
    have kept := FleeceStateManager.importFrom_storeInvariant (run_keeps host start.1 before).1 frame
    have later := (heardWithin_run host kept heard after).ticksSinceSeen_le
    have reached : runFrom (step host) manager events = runFrom (step host)
        ((runFrom (step host) manager before).importFrom frame).manager after := by
      rw [split, runFrom_append, runFrom_cons]
      rfl
    rw [reached] at silent
    rw [Nat.zero_add] at later
    exact (UInt64.lt_iff_toNat_lt.mp silent).trans_le later

end Runs

/-- A node imports a claim from its holder and takes it with a higher score. -/
theorem takeover_outbid :
    let goal : CString := ⟨[0x67, 0x31], by decide⟩
    let auction (score : ℚ) : Auction ℚ :=
      ⟨⟨[0x67], by decide⟩, 1, false, 100, some fun _ _ _ => some score⟩
    let holder := step exactHost ((FleeceStateManager.blank 9).after
      [.write (.setShared goal ⟨[0x31], by decide⟩)]) (.claim (auction 5) ⟨[], by decide⟩)
    let events : List (Event ℚ) := [.operation (.importFrom holder.exportShared)]
    let reached := runFrom (step exactHost) (FleeceStateManager.blank 7) events
    let last := step exactHost reached (.claim (auction 8) ⟨[], by decide⟩)
    (∃ record named score,
      last.liveShared (FleeceStateManager.claimKey goal) = some record ∧
        FleeceStateManager.IsNewClaim exactHost reached named score record ∧ 5 + 1 < score) ∨
      Silent exactHost (FleeceStateManager.blank 7) events 100 9 := by
  intro goal auction holder events reached last
  exact takeover_of_silent_or_outbid
    (show FleeceStateManager.createWithNodeId 7 = some (FleeceStateManager.blank 7) from rfl) events
    (auction 8) ⟨[], by decide⟩ goal (by decide +kernel) (by decide) (by decide) (by decide +kernel)

/-- A claim of node 9 with the score 5 reaches node 7 through node 8. On the same tick node 7 takes
it with the score 3. -/
theorem takeover_of_relayed :
    let goal : CString := ⟨[0x67, 0x31], by decide⟩
    let auction (score : ℚ) : Auction ℚ :=
      ⟨⟨[0x67], by decide⟩, 1, false, 100, some fun _ _ _ => some score⟩
    let holder := step exactHost ((FleeceStateManager.blank 9).after
      [.write (.setShared goal ⟨[0x31], by decide⟩)]) (.claim (auction 5) ⟨[], by decide⟩)
    let relay := runFrom (step exactHost) (FleeceStateManager.blank 8)
      [.operation (.importFrom holder.exportShared)]
    let reached := runFrom (step exactHost) (FleeceStateManager.blank 7)
      [.operation (.importFrom relay.exportShared)]
    let last := step exactHost reached (.claim (auction 3) ⟨[], by decide⟩)
    (reached.readClaim exactHost goal).1 = some (9, 5) ∧
      (last.readClaim exactHost goal).1 = some (7, 3) ∧
      ¬ 5 + (auction 3).contestMargin < 3 ∧
      (FleeceStateManager.blank 7).view (FleeceStateManager.claimKey goal, sharedOwnerId) = none ∧
      (reached.view (FleeceStateManager.claimKey goal, sharedOwnerId)).map
        GossipRecord.originNodeId = some 9 := by
  decide +kernel

end Mesh

end Fleece
