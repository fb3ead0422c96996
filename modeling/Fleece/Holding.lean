/-
This file is about the goals that one node holds. `goal_pool_tick` passes each call of the
auction the key that the call before returned, and between the calls peers and the scripts
change the store. As long as the record of the held goal is there at each tick and is
scored, the node has at most one live claim, the one for the key that the tick returned.

A tick that finds the held goal deleted or not scored forgets it, but leaves its claim in
place, and the next tick may claim another goal beside it.

The past of a pool is not in the source. It keeps the stores that earlier ticks left, and
says which claims of this node a peer can send back.
-/

import Fleece.ExactScores

namespace Fleece

namespace FleeceStateManager

/-! ### Writes on the clock -/

/-- A change of the store by at most this many local writes, none of them at the largest clock
value. -/
structure AdvancesBy (writes : Nat) (manager next : FleeceStateManager) : Prop where
  invariant : next.Invariant
  climbs : Climbs manager next
  clock : next.localTimestamp.toNat ≤ manager.localTimestamp.toNat + writes

theorem AdvancesBy.refl {manager : FleeceStateManager} (invariant : manager.Invariant) :
    AdvancesBy 0 manager manager :=
  ⟨invariant, .refl manager, le_rfl⟩

theorem AdvancesBy.mono {writes more : Nat} {manager next : FleeceStateManager}
    (advances : AdvancesBy writes manager next) (fewer : writes ≤ more) :
    AdvancesBy more manager next :=
  ⟨advances.invariant, advances.climbs, advances.clock.trans (Nat.add_le_add_left fewer _)⟩

theorem AdvancesBy.trans {writes more : Nat} {first second third : FleeceStateManager}
    (left : AdvancesBy writes first second) (right : AdvancesBy more second third) :
    AdvancesBy (writes + more) first third := by
  refine ⟨right.invariant, .trans _ _ _ left.climbs right.climbs, right.clock.trans ?_⟩
  rw [← Nat.add_assoc]
  exact Nat.add_le_add_right left.clock more

theorem exec_advances {manager : FleeceStateManager} (invariant : manager.Invariant)
    (small : manager.localTimestamp.toNat + 1 < 2 ^ 64) (change : LocalWrite) :
    AdvancesBy 1 manager (change.exec manager).1 := by
  have noWrap : manager.NoWrap (.write change) := by
    rintro - largest
    rw [largest] at small
    exact absurd small (by decide)
  obtain ⟨next, climbs⟩ := invariant.keeps noWrap
  refine ⟨next, climbs, ?_⟩
  have step : (manager.localTimestamp + 1).toNat = manager.localTimestamp.toNat + 1 := by
    rw [UInt64.toNat_add]
    exact Nat.mod_eq_of_lt small
  have outcome := exec_outcome manager change
  generalize change.request manager.nodeId manager.localTimestamp manager.view = request at outcome
  generalize change.exec manager = result at outcome ⊢
  cases outcome with
  | refused code denied => exact Nat.le_succ _
  | noSlot last pair record asked absent full fields count node peers tick clock =>
    exact (congrArg UInt64.toNat clock).trans step |>.le
  | wrote last f asked stored node peers tick clock =>
    exact (congrArg UInt64.toNat clock).trans step |>.le

/-- What a shared slot held is still there, or a later version is. -/
theorem Climbs.view_shared {manager next : FleeceStateManager} (climbs : Climbs manager next)
    (realNode : manager.nodeId ≠ sharedOwnerId) {key : UInt32} {record : GossipRecord}
    (held : manager.view (key, sharedOwnerId) = some record) :
    ∃ later, next.view (key, sharedOwnerId) = some later ∧
      (later = record ∨ record.version < later.version) := by
  obtain ⟨f, found, rfl⟩ := Option.map_eq_some_iff.mp held
  obtain ⟨g, now, move⟩ := climbs.2 key sharedOwnerId f realNode.symm found
  exact ⟨g.record, Option.map_eq_some_iff.mpr ⟨g, now, rfl⟩, move.imp_left record_of_unmarked⟩

theorem view_of_liveShared {manager : FleeceStateManager} {key : UInt32} {record : GossipRecord}
    (live : manager.liveShared key = some record) :
    manager.view (key, sharedOwnerId) = some record := by
  rw [liveShared, liveView] at live
  exact (Option.filter_eq_some_iff.mp live).1

section Calls

variable {Score : Type} {host : ScriptHost Score} {manager : FleeceStateManager}

theorem casClaim_advances (host : ScriptHost Score) (invariant : manager.Invariant)
    (small : manager.localTimestamp.toNat + 1 < 2 ^ 64) (key : CString) (selfId : UInt64)
    (score : Score) (expected : Option Blob) :
    AdvancesBy 1 manager (manager.casClaim host key selfId score expected).1 := by
  unfold casClaim
  split_ifs with fits
  · exact exec_advances invariant small (.setSharedCas (claimName key)
      (expected.filter fun raw => decide (0 < raw.size)) ⟨claimText host selfId score, _⟩)
  · exact (AdvancesBy.refl invariant).mono (Nat.zero_le 1)

theorem releaseHeld_advances (invariant : manager.Invariant)
    (small : manager.localTimestamp.toNat + 1 < 2 ^ 64) (held : Option (CString × Score)) :
    AdvancesBy 1 manager (manager.releaseHeld held) := by
  cases held with
  | none => exact (AdvancesBy.refl invariant).mono (Nat.zero_le 1)
  | some goal => exact exec_advances invariant small (.removeShared (claimName goal.1))

theorem reassert_advances (host : ScriptHost Score) (invariant : manager.Invariant)
    (small : manager.localTimestamp.toNat + 1 < 2 ^ 64) (allowReassert : Bool)
    (held : Option (CString × Score)) :
    AdvancesBy 1 manager (manager.reassert host allowReassert held) := by
  have still : AdvancesBy 1 manager manager := (AdvancesBy.refl invariant).mono (Nat.zero_le 1)
  cases held with
  | none => exact still
  | some goal =>
    unfold reassert
    simp only
    split_ifs
    · split
      · exact still
      · exact casClaim_advances host invariant small _ _ _ _
    · exact still

variable [LT Score] [DecidableLT Score] [BEq Score] [Neg Score] [Zero Score] [OfScientific Score]
  [Add Score]

/-- A call of the auction makes at most two local writes. -/
theorem claimBestGoal_advances (host : ScriptHost Score) (invariant : manager.Invariant)
    (small : manager.localTimestamp.toNat + 2 < 2 ^ 64) (auction : Auction Score)
    (currentKey : CString) :
    AdvancesBy 2 manager (manager.claimBestGoal host auction currentKey).1 := by
  have once : manager.localTimestamp.toNat + 1 < 2 ^ 64 := Nat.lt_of_succ_lt small
  cases scorer : auction.scoreGoal with
  | none =>
    rw [claimBestGoal_of_none scorer]
    exact (AdvancesBy.refl invariant).mono (Nat.zero_le 2)
  | some calls =>
    unfold claimBestGoal
    rw [scorer]
    simp only
    generalize manager.heldGoal host calls (passedKey currentKey) = held
    unfold settle
    cases switchTo auction held (manager.bestBid host auction calls (passedKey currentKey)) with
    | none =>
      have again := reassert_advances host invariant once auction.allowReassert held
      exact again.mono (by decide)
    | some bid =>
      have claimed := casClaim_advances host invariant once bid.key.toCString
        manager.nodeId bid.score bid.expected
      simp only
      split_ifs
      · refine claimed.trans (releaseHeld_advances claimed.invariant ?_ held)
        exact Nat.lt_of_le_of_lt (Nat.add_le_add_right claimed.clock 1) small
      · exact claimed.mono (by decide)

end Calls

end FleeceStateManager

/-! ### A goal pool -/

/-- A node with a goal pool: its store and the key that its last tick returned. -/
structure GoalPool where
  manager : FleeceStateManager
  current : FieldName
  past : List FleeceStateManager

namespace GoalPool

/-- A tick of the goal pool, or another operation on the store. -/
inductive Event (Score : Type) where
  | tick (auction : Auction Score)
  | other (operation : Operation)

variable {Score : Type} [LT Score] [DecidableLT Score] [BEq Score] [Neg Score] [Zero Score]
  [OfScientific Score] [Add Score]

/-- `goal_pool_tick`, whose result the next tick reads back. -/
def step (host : ScriptHost Score) (pool : GoalPool) : Event Score → GoalPool
  | .tick auction =>
    let result := pool.manager.claimBestGoal host auction pool.current.toCString
    ⟨result.1, result.2.2, result.1 :: pool.past⟩
  | .other operation => { pool with manager := operation.next pool.manager }

end GoalPool

/-- A record is a claim, and its owner is this node. -/
def IsClaimOf {Score : Type} (host : ScriptHost Score) (nodeId : UInt64) (record : GossipRecord) :
    Prop :=
  claimPrefix <+: record.name.chars ∧ ∃ score, parseClaim host record.data = some (nodeId, score)

namespace GoalPool

section Conditions

variable {Score : Type} [LT Score] [DecidableLT Score] [BEq Score] [Neg Score] [Zero Score]
  [OfScientific Score]

/-- The keys whose claims a tick reads: the one that is passed, and those that the scan looks at. -/
def Reads (pool : GoalPool) (auction : Auction Score) (key : FieldName) : Prop :=
  key = pool.current ∧ key.chars ≠ [] ∨
    key ∈ pool.manager.listFields sharedOwnerId jsListMax ∧
      FleeceStateManager.isConsidered auction.poolPrefix
        (FleeceStateManager.passedKey pool.current.toCString) key = true

/-- What the callers and the peers promise: goal keys of at most 57 bytes, and no claim of this node
that its own ticks did not make. -/
def Promised (host : ScriptHost Score) (pool : GoalPool) : Event Score → Prop
  | .tick auction => ∀ key, pool.Reads auction key → key.chars.length ≤ 57
  | .other operation => ∀ key record, (operation.next pool.manager).liveShared key = some record →
      IsClaimOf host pool.manager.nodeId record →
      ∃ earlier ∈ pool.past, earlier.liveShared key = some record

/-- The held goal is there and is scored: where the claim of the key that is passed names this node,
`scoreGoal` is defined, the record of the key is live, and its score is a number. -/
def KeepsScoring (host : ScriptHost Score) (pool : GoalPool) (auction : Auction Score) : Prop :=
  ∀ claimed, pool.current.chars ≠ [] →
    (pool.manager.readClaim host pool.current.toCString).1 = some (pool.manager.nodeId, claimed) →
    ∃ calls data score, auction.scoreGoal = some calls ∧
      pool.manager.getNamed sharedOwnerId pool.current.toCString = some data ∧
      jsScoreGoal calls 0 pool.current.toCString data = some score

/-- What is found under the hash of the name of a claim has that name. -/
def Apart (pool : GoalPool) (auction : Auction Score) : Prop :=
  ∀ key, pool.Reads auction key → ∀ record,
    pool.manager.liveShared (FleeceStateManager.claimKey key.toCString) = some record →
    record.name.toCString = claimName key.toCString

/-- A step at which no claim is forgotten: the held goal is still scored, no two names share a hash,
and the clock does not wrap. -/
def Careful (host : ScriptHost Score) (pool : GoalPool) : Event Score → Prop
  | .tick auction => pool.KeepsScoring host auction ∧ pool.Apart auction ∧
      pool.manager.localTimestamp.toNat + 2 < 2 ^ 64
  | .other operation => pool.manager.NoWrap operation

end Conditions

/-- At most one live claim names this node, and where a key was returned it is the claim for it. -/
structure HoldsOne {Score : Type} (host : ScriptHost Score) (pool : GoalPool) : Prop where
  single : {key | ∃ record, pool.manager.liveShared key = some record ∧
    IsClaimOf host pool.manager.nodeId record}.Subsingleton
  returned : pool.current.chars ≠ [] → ∃ record,
    pool.manager.liveShared (FleeceStateManager.claimKey pool.current.toCString) = some record ∧
      record.name.toCString = claimName pool.current.toCString ∧
      IsClaimOf host pool.manager.nodeId record

/-! ### The invariant of a pool -/

section Runs

variable {Score : Type} {host : ScriptHost Score} {pool : GoalPool}

/-- What every step keeps: the only claim of this node is the one for the current key, and every
claim that a tick left is still there or was replaced by a later version. -/
structure Invariant (host : ScriptHost Score) (pool : GoalPool) : Prop where
  manager : pool.manager.Invariant
  mine : ∀ key record, pool.manager.liveShared key = some record →
    IsClaimOf host pool.manager.nodeId record →
    pool.current.chars ≠ [] ∧ key = FleeceStateManager.claimKey pool.current.toCString
  older : ∀ earlier ∈ pool.past, ∀ key record, earlier.liveShared key = some record →
    ∃ later, pool.manager.view (key, sharedOwnerId) = some later ∧
      (later = record ∨ record.version < later.version)

/-- What the past holds stays behind the store. -/
theorem Invariant.older_of_climbs (invariant : pool.Invariant host) {next : FleeceStateManager}
    (climbs : FleeceStateManager.Climbs pool.manager next) {earlier : FleeceStateManager}
    (member : earlier ∈ pool.past) {key : UInt32} {record : GossipRecord}
    (live : earlier.liveShared key = some record) :
    ∃ later, next.view (key, sharedOwnerId) = some later ∧
      (later = record ∨ record.version < later.version) := by
  obtain ⟨held, found, behind⟩ := invariant.older earlier member key record live
  obtain ⟨later, now, move⟩ := climbs.view_shared invariant.manager.store.realNode found
  refine ⟨later, now, ?_⟩
  rcases behind with rfl | lower
  · exact move
  · rcases move with rfl | higher
    · exact Or.inr lower
    · exact Or.inr (lower.trans higher)

theorem passedKey_current (nonempty : pool.current.chars ≠ []) :
    FleeceStateManager.passedKey pool.current.toCString = some pool.current.toCString := by
  unfold FleeceStateManager.passedKey
  rw [if_neg (mt List.isEmpty_iff.mp nonempty)]

theorem current_of_passed {key : CString}
    (passed : FleeceStateManager.passedKey pool.current.toCString = some key) :
    key = pool.current.toCString ∧ pool.current.chars ≠ [] := by
  unfold FleeceStateManager.passedKey at passed
  split_ifs at passed with empty
  exact ⟨(Option.some.inj passed).symm, mt List.isEmpty_iff.mpr empty⟩

variable [LT Score] [DecidableLT Score] [BEq Score] [Neg Score] [Zero Score] [OfScientific Score]
  {auction : Auction Score}

/-- A claim of this node is held. -/
theorem Invariant.held_of_claim (invariant : pool.Invariant host)
    (scoring : pool.KeepsScoring host auction) {key : UInt32} {record : GossipRecord}
    (live : pool.manager.liveShared key = some record)
    (claim : IsClaimOf host pool.manager.nodeId record) :
    ∃ calls score, auction.scoreGoal = some calls ∧
      pool.manager.heldGoal host calls (FleeceStateManager.passedKey pool.current.toCString) =
        some (pool.current.toCString, score) := by
  obtain ⟨nonempty, rfl⟩ := invariant.mine key record live claim
  obtain ⟨_, claimed, parsed⟩ := claim
  have read : (pool.manager.readClaim host pool.current.toCString).1 =
      some (pool.manager.nodeId, claimed) := by
    rw [FleeceStateManager.readClaim_of_some live]
    exact parsed
  obtain ⟨calls, data, score, scorer, found, scored⟩ := scoring claimed nonempty read
  refine ⟨calls, score, scorer, FleeceStateManager.heldGoal_eq_some_iff.mpr ?_⟩
  exact ⟨passedKey_current nonempty, ⟨claimed, read⟩, data, found, scored⟩

/-- The claim of the held key has its name. -/
theorem claim_of_held (apart : pool.Apart auction) {calls : ScoreCalls Score} {key : CString}
    {score : Score} (held : FleeceStateManager.IsHeld host calls pool.manager
      (FleeceStateManager.passedKey pool.current.toCString) key score) :
    ∃ record, pool.manager.liveShared (FleeceStateManager.claimKey pool.current.toCString) =
        some record ∧
      record.name.toCString = claimName pool.current.toCString ∧
      IsClaimOf host pool.manager.nodeId record := by
  obtain ⟨rfl, nonempty⟩ := current_of_passed held.passed
  obtain ⟨claimed, read⟩ := held.owned
  obtain ⟨record, live, parsed⟩ := FleeceStateManager.exists_of_readClaim read
  have name := apart pool.current (Or.inl ⟨rfl, nonempty⟩) record live
  refine ⟨record, live, name, ?_, claimed, parsed⟩
  rw [name]
  exact claimPrefix_claimName _

/-- A new claim names this node and has the name of its key. -/
theorem isClaimOf_of_isNewClaim (readsBack : host.ReadsBack) {manager : FleeceStateManager}
    {calls : ScoreCalls Score} {index : Nat} {key : CString} {data : Blob} {score : Score}
    {record : GossipRecord} (short : key.chars.length ≤ 57)
    (scored : jsScoreGoal calls index key data = some score)
    (claim : FleeceStateManager.IsNewClaim host manager key score record) :
    record.name.toCString = claimName key ∧ IsClaimOf host manager.nodeId record := by
  refine ⟨?_, ?_, score, parseClaim_of_readsBack readsBack scored claim.text⟩
  · rw [claim.name, CString.copy_of_isShort (claimName_isShort short)]
  · rw [claim.name]
    exact claimPrefix_copy key

variable [Add Score]

/-- What is left of the claims of this node when a call ends: the one for the key it returns. -/
def OneClaim (host : ScriptHost Score) (nodeId : UInt64) (next : FleeceStateManager)
    (key : FieldName) : Prop :=
  (∀ slot record, next.liveShared slot = some record → IsClaimOf host nodeId record →
      key.chars ≠ [] ∧ slot = FleeceStateManager.claimKey key.toCString) ∧
    (key.chars ≠ [] → ∃ record,
      next.liveShared (FleeceStateManager.claimKey key.toCString) = some record ∧
        record.name.toCString = claimName key.toCString ∧ IsClaimOf host nodeId record)

/-- One slot for the claim that is held and the new one would have both their names. -/
theorem claimKey_ne_of_isBid (apart : pool.Apart auction) {calls : ScoreCalls Score}
    {key : CString} {score : Score} (held : FleeceStateManager.IsHeld host calls pool.manager
      (FleeceStateManager.passedKey pool.current.toCString) key score) {bid : Bid Score}
    (isBid : FleeceStateManager.IsBid host auction calls pool.manager
      (FleeceStateManager.passedKey pool.current.toCString) bid) :
    FleeceStateManager.claimKey bid.key.toCString ≠
      FleeceStateManager.claimKey pool.current.toCString := by
  intro shared
  obtain ⟨_, nonempty⟩ := current_of_passed held.passed
  obtain ⟨record, found, name, _⟩ := claim_of_held apart held
  have nameOfBid := apart bid.key (Or.inr ⟨isBid.listed, isBid.considered⟩) record
    (shared ▸ found)
  have equal := claimName_injective pool.current.lengthLt.le bid.key.lengthLt.le
    (name.symm.trans nameOfBid)
  have considered := (Bool.and_eq_true_iff.mp isBid.considered).2
  rw [passedKey_current nonempty, equal] at considered
  exact bne_iff_ne.mp considered rfl

theorem Invariant.oneClaim (invariant : pool.Invariant host) (readsBack : host.ReadsBack)
    (promised : pool.Promised host (.tick auction)) (scoring : pool.KeepsScoring host auction)
    (apart : pool.Apart auction) {calls : ScoreCalls Score}
    (scorer : auction.scoreGoal = some calls) {next : FleeceStateManager} {key : FieldName}
    (settled : FleeceStateManager.Settled host auction calls pool.manager
      (FleeceStateManager.passedKey pool.current.toCString)
      (pool.manager.heldGoal host calls (FleeceStateManager.passedKey pool.current.toCString))
      (next, key)) :
    OneClaim host pool.manager.nodeId next key := by
  generalize held : pool.manager.heldGoal host calls
    (FleeceStateManager.passedKey pool.current.toCString) = goal at settled
  have claimsHeld {slot : UInt32} {record : GossipRecord}
      (live : pool.manager.liveShared slot = some record)
      (claim : IsClaimOf host pool.manager.nodeId record) :
      ∃ score, goal = some (pool.current.toCString, score) := by
    obtain ⟨others, score, same, holds⟩ := invariant.held_of_claim scoring live claim
    obtain rfl := Option.some.inj (scorer.symm.trans same)
    exact ⟨score, held.symm.trans holds⟩
  cases settled with
  | kept next live =>
    refine ⟨fun slot record found claim => ?_, fun nonempty => ?_⟩
    · rw [live] at found
      obtain ⟨score, rfl⟩ := claimsHeld found claim
      rw [FleeceStateManager.heldKey, FieldName.copy_toCString]
      exact invariant.mine slot record found claim
    · cases goal with
      | none => exact absurd rfl nonempty
      | some goal =>
        have isHeld := FleeceStateManager.heldGoal_eq_some_iff.mp held
        obtain ⟨same, _⟩ := current_of_passed isHeld.passed
        rw [FleeceStateManager.heldKey, same, FieldName.copy_toCString, live]
        exact claim_of_held apart isHeld
  | reasserted next key score record holds claim live =>
    rw [holds] at held
    have isHeld := FleeceStateManager.heldGoal_eq_some_iff.mp held
    obtain ⟨rfl, nonempty⟩ := current_of_passed isHeld.passed
    obtain ⟨data, _, scored⟩ := isHeld.scored
    have short := promised pool.current (Or.inl ⟨rfl, nonempty⟩)
    rw [FieldName.copy_toCString]
    refine ⟨fun slot other found claimed => ⟨nonempty, ?_⟩, fun _ => ⟨record, ?_, ?_⟩⟩
    · by_contra elsewhere
      rw [live, Function.update_of_ne elsewhere] at found
      exact elsewhere (invariant.mine slot other found claimed).2
    · rw [live, Function.update_self]
    · exact isClaimOf_of_isNewClaim readsBack short scored claim
  | switched next bid record isBid better claim live =>
    have reads : pool.Reads auction bid.key := Or.inr ⟨isBid.listed, isBid.considered⟩
    obtain ⟨index, data, _, scored⟩ := isBid.scored
    obtain ⟨nonempty, _⟩ :=
      FleeceStateManager.exists_of_listed invariant.manager.store.distinct isBid.listed
    refine ⟨fun slot other found claimed => ⟨nonempty, ?_⟩, fun _ => ⟨record, ?_, ?_⟩⟩
    · by_contra elsewhere
      rw [live] at found
      cases goal with
      | none =>
        rw [FleeceStateManager.vacate, Function.update_of_ne elsewhere] at found
        obtain ⟨score, absurdity⟩ := claimsHeld found claimed
        cases absurdity
      | some goal =>
        have isHeld := FleeceStateManager.heldGoal_eq_some_iff.mp held
        obtain ⟨same, _⟩ := current_of_passed isHeld.passed
        rw [FleeceStateManager.vacate, same] at found
        by_cases here : slot = FleeceStateManager.claimKey pool.current.toCString
        · rw [here, Function.update_self] at found
          cases found
        · rw [Function.update_of_ne here, Function.update_of_ne elsewhere] at found
          exact here (invariant.mine slot other found claimed).2
    · rw [live]
      cases goal with
      | none => rw [FleeceStateManager.vacate, Function.update_self]
      | some goal =>
        have isHeld := FleeceStateManager.heldGoal_eq_some_iff.mp held
        obtain ⟨same, _⟩ := current_of_passed isHeld.passed
        rw [FleeceStateManager.vacate, same,
          Function.update_of_ne (claimKey_ne_of_isBid apart isHeld isBid), Function.update_self]
    · exact isClaimOf_of_isNewClaim readsBack (promised bid.key reads) scored claim

/-- A tick ends with one claim at most, the one for the key it returns. -/
theorem Invariant.tick (invariant : pool.Invariant host) (readsBack : host.ReadsBack)
    (promised : pool.Promised host (.tick auction)) (careful : pool.Careful host (.tick auction)) :
    (pool.step host (.tick auction)).Invariant host ∧
      OneClaim host (pool.step host (.tick auction)).manager.nodeId
        (pool.step host (.tick auction)).manager (pool.step host (.tick auction)).current := by
  obtain ⟨scoring, apart, clock⟩ := careful
  have store := invariant.manager.store
  have advances := FleeceStateManager.claimBestGoal_advances host invariant.manager clock
    auction pool.current.toCString
  have node : (pool.manager.claimBestGoal host auction pool.current.toCString).1.nodeId =
      pool.manager.nodeId := advances.climbs.1
  have one : OneClaim host pool.manager.nodeId
      (pool.manager.claimBestGoal host auction pool.current.toCString).1
      (pool.manager.claimBestGoal host auction pool.current.toCString).2.2 := by
    cases scorer : auction.scoreGoal with
    | none =>
      rw [FleeceStateManager.claimBestGoal_of_none scorer]
      refine ⟨fun slot record found claim => ?_, fun nonempty => absurd rfl nonempty⟩
      obtain ⟨calls, score, same, _⟩ := invariant.held_of_claim scoring found claim
      rw [scorer] at same
      cases same
    | some calls =>
      obtain ⟨_, _, settled⟩ := FleeceStateManager.claimBestGoal_settled host store scorer
        pool.current.toCString
      exact invariant.oneClaim readsBack promised scoring apart scorer settled
  rw [← node] at one
  refine ⟨⟨advances.invariant, one.1, ?_⟩, one⟩
  · intro earlier member slot record live
    rcases List.mem_cons.mp member with rfl | before
    · exact ⟨record, FleeceStateManager.view_of_liveShared live, Or.inl rfl⟩
    · exact invariant.older_of_climbs advances.climbs before live

/-- An operation between two ticks brings in no claim of this node: one that a peer sends back is
older than what its slot holds. -/
theorem Invariant.other (invariant : pool.Invariant host) {operation : Operation}
    (promised : pool.Promised host (.other operation)) (noWrap : pool.manager.NoWrap operation) :
    (pool.step host (.other operation)).Invariant host := by
  obtain ⟨next, climbs⟩ := invariant.manager.keeps noWrap
  refine ⟨next, fun key record live claim => ?_, fun earlier member key record live =>
    invariant.older_of_climbs climbs member live⟩
  replace claim : IsClaimOf host pool.manager.nodeId record := by
    rw [← climbs.1]
    exact claim
  obtain ⟨earlier, member, before⟩ := promised key record live claim
  obtain ⟨held, found, behind⟩ := invariant.older earlier member key record before
  obtain ⟨later, now, move⟩ := climbs.view_shared invariant.manager.store.realNode found
  have same : later = record :=
    Option.some.inj (now.symm.trans (FleeceStateManager.view_of_liveShared live))
  rcases behind with rfl | lower
  · refine invariant.mine key held ?_ claim
    rw [FleeceStateManager.liveShared, FleeceStateManager.liveView, found]
    rw [FleeceStateManager.liveShared, FleeceStateManager.liveView] at live
    exact Option.filter_eq_some_iff.mpr ⟨rfl, (Option.filter_eq_some_iff.mp live).2⟩
  · rcases move with unchanged | higher
    · rw [← unchanged, same] at lower
      exact absurd lower (lt_irrefl _)
    · rw [same] at higher
      exact absurd (lower.trans higher) (lt_irrefl _)

theorem Invariant.step (invariant : pool.Invariant host) (readsBack : host.ReadsBack)
    {event : Event Score} (promised : pool.Promised host event) (careful : pool.Careful host event) :
    (pool.step host event).Invariant host := by
  cases event with
  | tick auction => exact (invariant.tick readsBack promised careful).1
  | other operation => exact invariant.other promised careful

/-- After every tick of a run in which no tick finds the goal it holds deleted or not scored, no two
names share a hash and no clock wraps, at most one live claim names the node, and where the tick
returned a key it is the claim for that key. -/
theorem one_claim_per_node (readsBack : host.ReadsBack) {nodeId : UInt64}
    {manager : FleeceStateManager}
    (created : FleeceStateManager.createWithNodeId nodeId = some manager) (before : List Operation)
    (noWrap : Along Operation.next FleeceStateManager.NoWrap manager before)
    (unclaimed : ∀ key record, (manager.after before).liveShared key = some record →
      ¬ IsClaimOf host nodeId record)
    (current : FieldName) (events : List (Event Score)) (auction : Auction Score)
    (legal : Along (step host) (fun pool event => pool.Promised host event ∧ pool.Careful host event)
      ⟨manager.after before, current, []⟩ (events ++ [.tick auction])) :
    (runFrom (step host) ⟨manager.after before, current, []⟩ (events ++ [.tick auction])).HoldsOne
      host := by
  have start : Invariant host ⟨manager.after before, current, []⟩ := by
    refine ⟨(FleeceStateManager.invariant_create created).after noWrap, ?_, ?_⟩
    · intro key record live claim
      rw [show GoalPool.manager _ = manager.after before from rfl,
        FleeceStateManager.node_after created] at claim
      exact absurd claim (unclaimed key record live)
    · exact fun earlier member => absurd member List.not_mem_nil
  obtain ⟨legalRun, ⟨promised, careful⟩, _⟩ := along_append.mp legal
  have reached := legalRun.invariant
    (fun _ _ holds allowed => holds.step readsBack allowed.1 allowed.2) start
  rw [runFrom_append, runFrom_cons, runFrom_nil]
  generalize runFrom (step host) ⟨manager.after before, current, []⟩ events = pool at *
  obtain ⟨last, one⟩ := reached.tick readsBack promised careful
  refine ⟨fun slot first other second => ?_, fun nonempty => ?_⟩
  · obtain ⟨record, live, claim⟩ := first
    obtain ⟨otherRecord, otherLive, otherClaim⟩ := second
    exact (last.mine slot record live claim).2.trans
      (last.mine other otherRecord otherLive otherClaim).2.symm
  · obtain ⟨record, live, name, claim⟩ := one.2 nonempty
    exact ⟨record, live, name, claim⟩

end Runs

/-- No claim is in a store whose names all start otherwise. -/
theorem not_isClaimOf_of_names {host : ScriptHost ℚ} {nodeId : UInt64}
    {manager : FleeceStateManager}
    (names : ∀ i, claimPrefix.isPrefixOf (manager.fields i).name.chars = false) (key : UInt32)
    (record : GossipRecord) (live : manager.liveShared key = some record) :
    ¬ IsClaimOf host nodeId record := by
  rintro ⟨start, _⟩
  obtain ⟨_, i, rfl, _⟩ := FleeceStateManager.exists_of_liveShared live
  exact Bool.false_ne_true ((names i).symm.trans (List.isPrefixOf_iff_prefix.mpr start))

section Names

variable {host : ScriptHost ℚ} {pool : GoalPool} {auction : Auction ℚ}

/-- The key that is passed and all that are listed. -/
def namesAround (pool : GoalPool) : List FieldName :=
  pool.current :: pool.manager.listFields sharedOwnerId jsListMax

theorem Reads.mem_namesAround {key : FieldName} (read : pool.Reads auction key) :
    key ∈ pool.namesAround := by
  rcases read with ⟨rfl, _⟩ | ⟨listed, _⟩
  · exact List.mem_cons_self
  · exact List.mem_cons_of_mem _ listed

theorem promised_of_names
    (short : pool.namesAround.all (fun name => decide (name.chars.length ≤ 57)) = true) :
    pool.Promised host (.tick auction) := fun key read =>
  of_decide_eq_true (List.all_eq_true.mp short key read.mem_namesAround)

theorem apart_of_names
    (named : pool.namesAround.all (fun name =>
      (pool.manager.liveShared (FleeceStateManager.claimKey name.toCString)).all fun record =>
        decide (record.name.toCString = claimName name.toCString)) = true) :
    pool.Apart auction := by
  intro key read record live
  have held := List.all_eq_true.mp named key read.mem_namesAround
  rw [live] at held
  exact of_decide_eq_true held

end Names

/-- Two ticks over a pool of two goals: the first claims the one that scores more, and the second,
where the other one has become worth more than the margin, switches to it. -/
theorem one_claim_per_node_switch :
    let first : FieldName := ⟨⟨[0x67, 0x31], by decide⟩, by decide⟩
    let second : FieldName := ⟨⟨[0x67, 0x32], by decide⟩, by decide⟩
    let before := [Operation.write (.setShared first.toCString ⟨[0x31], by decide⟩),
      .write (.setShared second.toCString ⟨[0x31], by decide⟩)]
    let auction (score : ℚ) : Auction ℚ := ⟨⟨[0x67], by decide⟩, 1, false, 100,
      some fun _ key _ => if key = first.toCString then some 5 else some score⟩
    let pool : GoalPool := ⟨(FleeceStateManager.blank 7).after before, .empty, []⟩
    let next := pool.step exactHost (.tick (auction 3))
    let last := runFrom (step exactHost) pool [.tick (auction 3), .tick (auction 8)]
    next.current = first ∧ last.current = second ∧ last.HoldsOne exactHost ∧
      last.manager.liveShared (FleeceStateManager.claimKey first.toCString) = none := by
  intro first second before auction pool next last
  have current : next.current = first := by decide +kernel
  have claims : pool.Promised exactHost (.tick (auction 3)) ∧
      pool.Careful exactHost (.tick (auction 3)) :=
    ⟨promised_of_names (by decide +kernel), fun _ nonempty => absurd rfl nonempty,
      apart_of_names (by decide +kernel), by decide +kernel⟩
  have switches : next.Promised exactHost (.tick (auction 8)) ∧
      next.Careful exactHost (.tick (auction 8)) := by
    refine ⟨promised_of_names (by decide +kernel), fun _ _ _ => ?_,
      apart_of_names (by decide +kernel), by decide +kernel⟩
    refine ⟨_, ⟨[0x31], by decide⟩, 5, rfl, ?_, ?_⟩
    · rw [current]
      decide +kernel
    · rw [current]
      decide +kernel
  have one := one_claim_per_node exactHost_readsBack
    (show FleeceStateManager.createWithNodeId 7 = some (FleeceStateManager.blank 7) from rfl) before
    (by decide +kernel) (not_isClaimOf_of_names (by decide +kernel)) .empty [.tick (auction 3)]
    (auction 8) ⟨claims, switches, trivial⟩
  exact ⟨current, by decide +kernel, one, by decide +kernel⟩

/-- A node claims a goal, and in the next tick `scoreGoal` throws for it: the node forgets the goal,
claims another one and is left with two claims. -/
theorem one_claim_per_node_forgotten :
    let goal : FieldName := ⟨⟨[0x67, 0x31], by decide⟩, by decide⟩
    let other : FieldName := ⟨⟨[0x67, 0x32], by decide⟩, by decide⟩
    let before := [Operation.write (.setShared goal.toCString ⟨[0x31], by decide⟩),
      .write (.setShared other.toCString ⟨[0x31], by decide⟩)]
    let auction : Auction ℚ :=
      ⟨⟨[0x67], by decide⟩, 0, false, 100, some fun index _ _ => if index = 0 then none else some 5⟩
    let pool : GoalPool := ⟨(FleeceStateManager.blank 7).after before, .empty, []⟩
    (∀ key record, pool.manager.liveShared key = some record → ¬ IsClaimOf exactHost 7 record) ∧
      Along (step exactHost) (Promised exactHost) pool [.tick auction, .tick auction] ∧
      ¬ (runFrom (step exactHost) pool [.tick auction, .tick auction]).HoldsOne exactHost := by
  intro goal other before auction pool
  refine ⟨not_isClaimOf_of_names (by decide +kernel), ⟨promised_of_names (by decide +kernel),
    promised_of_names (by decide +kernel), trivial⟩, fun holds => ?_⟩
  let last := runFrom (step exactHost) pool [.tick auction, .tick auction]
  have claims (key : CString) (shown : (last.manager.liveShared (FleeceStateManager.claimKey key)).map
      (fun record => (claimPrefix.isPrefixOf record.name.chars, parseClaim exactHost record.data)) =
        some (true, some (last.manager.nodeId, 5))) :
      ∃ record, last.manager.liveShared (FleeceStateManager.claimKey key) = some record ∧
        IsClaimOf exactHost last.manager.nodeId record := by
    obtain ⟨record, live, same⟩ := Option.map_eq_some_iff.mp shown
    obtain ⟨start, parsed⟩ := Prod.mk.inj same
    exact ⟨record, live, List.isPrefixOf_iff_prefix.mp start, 5, parsed⟩
  have same := holds.single (claims goal.toCString (by decide +kernel))
    (claims other.toCString (by decide +kernel))
  exact absurd same (by decide +kernel)

end GoalPool

end Fleece
