/-
This file is about what the auction does to the live shared fields of a store. Every
part of it is a local write: a claim is put under the hash of its name, a release
leaves a tombstone there, and nothing else changes. A call ends in one of three ways:
it leaves the fields as they are, it writes the held claim again, or it claims the
best bid and gives up the claim it held.
-/

import Fleece.Auction

namespace Fleece

/-! ### The names and the texts of claims -/

theorem chars_claimName {key : CString} (fits : key.chars.length ≤ fieldNameMax) :
    (claimName key).chars = claimPrefix ++ key.chars := by
  refine List.take_of_length_le ?_
  rw [List.length_append]
  exact Nat.add_le_add_left fits 6 |>.trans (by decide)

theorem claimName_injective {key other : CString} (fits : key.chars.length ≤ fieldNameMax)
    (fitsOther : other.chars.length ≤ fieldNameMax) (same : claimName key = claimName other) :
    key = other := by
  have chars := congrArg CString.chars same
  rw [chars_claimName fits, chars_claimName fitsOther] at chars
  obtain ⟨keyChars, noNul⟩ := key
  obtain rfl : keyChars = other.chars := List.append_cancel_left chars
  rfl

/-- The name of a claim is kept whole for keys of at most 57 bytes. -/
theorem claimName_isShort {key : CString} (short : key.chars.length ≤ 57) :
    (claimName key).isShort = true := by
  refine decide_eq_true ?_
  rw [chars_claimName (short.trans (by decide)), List.length_append]
  exact Nat.lt_of_le_of_lt (Nat.add_le_add_left short 6) (by decide)

theorem claimPrefix_take {count : Nat} (long : claimPrefix.length ≤ count) (rest : List UInt8) :
    claimPrefix <+: (claimPrefix ++ rest).take count := by
  rw [List.take_append, List.take_of_length_le long]
  exact List.prefix_append _ _

theorem claimPrefix_claimName (key : CString) : claimPrefix <+: (claimName key).chars :=
  claimPrefix_take (by decide) key.chars

/-- What a slot keeps of the name of a claim starts like one. -/
theorem claimPrefix_copy (key : CString) :
    claimPrefix <+: (FieldName.copy (claimName key)).chars := by
  show claimPrefix <+: ((claimPrefix ++ key.chars).take (fieldNameMax + 7)).take (fieldNameMax - 1)
  rw [List.take_take]
  exact claimPrefix_take (by decide) key.chars

section Texts

variable {Score : Type} [LT Score] [DecidableLT Score] [BEq Score] [Neg Score] [Zero Score]
  [OfScientific Score] {host : ScriptHost Score}

/-- A claim is read back as it was written, with every score that a call can come to. -/
def ScriptHost.ReadsBack (host : ScriptHost Score) : Prop :=
  ∀ owner raw score, acceptScore raw = some score →
    host.parseClaim (claimText host owner score) =
      some (some (Hexadecimal.print owner), some score)

theorem parseClaim_of_readsBack (readsBack : host.ReadsBack) {owner : UInt64}
    {calls : ScoreCalls Score} {index : Nat} {key : CString} {data claim : Blob} {score : Score}
    (scored : jsScoreGoal calls index key data = some score)
    (text : claim.bytes = claimText host owner score) :
    parseClaim host claim = some (owner, score) := by
  obtain ⟨raw, _, accepted⟩ := Option.bind_eq_some_iff.mp scored
  unfold parseClaim
  rw [text, readsBack owner raw score accepted]
  simp only
  rw [Hexadecimal.strtoull_print]

end Texts

/-! ### Live shared fields -/

namespace FleeceStateManager

/-- The live shared records by their keys. -/
def liveShared (manager : FleeceStateManager) (key : UInt32) : Option GossipRecord :=
  manager.liveView (key, sharedOwnerId)

theorem getNamed_shared (manager : FleeceStateManager) (name : CString) :
    manager.getNamed sharedOwnerId name =
      (manager.liveShared (hashName name)).map GossipRecord.data :=
  getNamed_eq manager sharedOwnerId name

theorem liveShared_of_fields {manager next : FleeceStateManager}
    (fields : next.fields = manager.fields) : next.liveShared = manager.liveShared := by
  funext key
  rw [liveShared, liveShared, liveView, liveView, view_of_same fields]

/-- A live shared record is in a slot of its key. -/
theorem exists_of_liveShared {manager : FleeceStateManager} {key : UInt32} {record : GossipRecord}
    (live : manager.liveShared key = some record) :
    record.isTombstone = false ∧ ∃ i, (manager.fields i).record = record ∧
      (manager.fields i).slotExists = true ∧ (manager.fields i).key = key ∧
      (manager.fields i).nodeId = sharedOwnerId := by
  rw [liveShared, liveView] at live
  obtain ⟨held, alive⟩ := Option.filter_eq_some_iff.mp live
  obtain ⟨f, found, rfl⟩ : ∃ f, manager.lookup key sharedOwnerId = some f ∧ f.record = record :=
    Option.map_eq_some_iff.mp held
  obtain ⟨i, rfl, slot⟩ := exists_of_lookup found
  exact ⟨Bool.not_eq_true' _ |>.mp alive, i, rfl, slot⟩

/-- A name that is listed is that of a live record, and not empty. -/
theorem exists_of_listed {manager : FleeceStateManager} (distinct : manager.DistinctSlots)
    {name : FieldName} {count : Nat} (listed : name ∈ manager.listFields sharedOwnerId count) :
    name.chars ≠ [] ∧ ∃ key record, manager.liveShared key = some record ∧ record.name = name := by
  obtain ⟨f, member, rfl⟩ := List.mem_map.mp (List.mem_of_mem_take listed)
  obtain ⟨slot, shown⟩ := List.mem_filter.mp member
  obtain ⟨carried, alive⟩ := carried_of_isLiveNamed slot shown
  refine ⟨GossipRecord.isNamed_iff.mp (show f.record.isNamed = true from carried.2.2.2), f.key,
    f.record, ?_, rfl⟩
  rw [liveShared, liveView, carried.view distinct]
  exact Option.filter_eq_some_iff.mpr ⟨rfl, by rw [FieldEntry.record, alive]; rfl⟩

/-- What a write does besides changing fields: nothing to the node and to what it knows of its
peers. -/
structure SameNode (manager next : FleeceStateManager) : Prop where
  nodeId : next.nodeId = manager.nodeId
  peersSeen : next.peersSeen = manager.peersSeen
  currentTick : next.currentTick = manager.currentTick

theorem SameNode.refl (manager : FleeceStateManager) : manager.SameNode manager := ⟨rfl, rfl, rfl⟩

theorem SameNode.trans {first second third : FleeceStateManager} (left : first.SameNode second)
    (right : second.SameNode third) : first.SameNode third :=
  ⟨right.nodeId.trans left.nodeId, right.peersSeen.trans left.peersSeen,
    right.currentTick.trans left.currentTick⟩

/-- What a local write of a shared field does to the live shared fields: nothing where it fails, and
else it puts the record it asks for, which may be a tombstone, under its key. -/
inductive SharedEffect (manager : FleeceStateManager) (change : LocalWrite) :
    FleeceStateManager × Int → Prop
  | failed (next : FleeceStateManager) (code : Int) (failure : code ≠ 0)
      (live : next.liveShared = manager.liveShared) : SharedEffect manager change (next, code)
  | put (next : FleeceStateManager) (key : UInt32) (record : GossipRecord)
      (asked : change.request manager.nodeId manager.localTimestamp manager.view =
        .ok ((key, sharedOwnerId), record))
      (found : next.view (key, sharedOwnerId) = some record)
      (live : next.liveShared = Function.update manager.liveShared key
        (if record.isTombstone then none else some record)) :
      SharedEffect manager change (next, 0)

theorem exec_shared {manager : FleeceStateManager} (store : manager.StoreInvariant)
    {change : LocalWrite} (shared : (change.target manager.nodeId).2 = sharedOwnerId) :
    (change.exec manager).1.StoreInvariant ∧ manager.SameNode (change.exec manager).1 ∧
      SharedEffect manager change (change.exec manager) := by
  refine ⟨(write_effect store change).storeInvariant store, ?_⟩
  have outcome := exec_outcome manager change
  generalize asked : change.request manager.nodeId manager.localTimestamp manager.view =
    request at outcome
  generalize change.exec manager = result at outcome ⊢
  cases outcome with
  | refused code denied =>
    refine ⟨.refl manager, .failed manager code ?_ rfl⟩
    rcases LocalWrite.code_of_refused (asked.trans denied) with rfl | rfl
    · decide
    · decide
  | noSlot next pair record accepted absent full fields count node peers tick =>
    exact ⟨⟨node, peers, tick⟩, .failed next (-1) (by decide) (liveShared_of_fields fields)⟩
  | wrote next f accepted stored node peers tick =>
    have target := LocalWrite.target_of_request (asked.trans accepted)
    have owner : f.nodeId = sharedOwnerId := by
      rw [← shared, ← target]
    have view (key : UInt32) : next.view (key, sharedOwnerId) =
        Function.update manager.view (f.key, f.nodeId) (some f.record) (key, sharedOwnerId) :=
      view_stored_foreign stored store store.realNode.symm
    rw [owner] at view accepted
    refine ⟨⟨node, peers, tick⟩, .put next f.key f.record (asked.trans accepted) ?_ ?_⟩
    · rw [view, Function.update_self]
    · funext key
      rw [liveShared, liveView, view]
      rcases eq_or_ne key f.key with rfl | other
      · rw [Function.update_self, Function.update_self, Option.filter_some]
        cases f.record.isTombstone <;> rfl
      · rw [Function.update_of_ne other, Function.update_of_ne fun same => other (Prod.mk.inj same).1]
        rfl

/-! ### Claims in the store -/

section Claims

variable {Score : Type} {host : ScriptHost Score} {manager : FleeceStateManager}

/-- The key under which a claim is stored. -/
def claimKey (key : CString) : UInt32 := hashName (claimName key)

theorem getNamed_claim (manager : FleeceStateManager) (key : CString) :
    manager.getNamed sharedOwnerId (claimName key) =
      (manager.liveShared (claimKey key)).map GossipRecord.data :=
  getNamed_shared manager (claimName key)

theorem readClaim_of_none {key : CString} (absent : manager.liveShared (claimKey key) = none) :
    manager.readClaim host key = (none, none) := by
  unfold readClaim
  rw [getNamed_claim, absent]
  rfl

theorem readClaim_of_some {key : CString} {record : GossipRecord}
    (live : manager.liveShared (claimKey key) = some record) :
    manager.readClaim host key = (parseClaim host record.data, some record.data) := by
  unfold readClaim
  rw [getNamed_claim, live]
  rfl

/-- Keys whose claims share a slot have the same claim. -/
theorem readClaim_congr {key other : CString} (same : claimKey key = claimKey other) :
    manager.readClaim host key = manager.readClaim host other := by
  cases live : manager.liveShared (claimKey other) with
  | none => rw [readClaim_of_none live, readClaim_of_none (same ▸ live)]
  | some record => rw [readClaim_of_some live, readClaim_of_some (same ▸ live)]

/-- A claim that was read is parsed from a live record. -/
theorem exists_of_readClaim {key : CString} {owner : UInt64} {score : Score}
    (read : (manager.readClaim host key).1 = some (owner, score)) :
    ∃ record, manager.liveShared (claimKey key) = some record ∧
      parseClaim host record.data = some (owner, score) := by
  cases live : manager.liveShared (claimKey key) with
  | none =>
    rw [readClaim_of_none live] at read
    cases read
  | some record =>
    rw [readClaim_of_some live] at read
    exact ⟨record, rfl, read⟩

/-- The record of a new claim. -/
structure IsNewClaim (host : ScriptHost Score) (manager : FleeceStateManager) (key : CString)
    (score : Score) (record : GossipRecord) : Prop where
  alive : record.isTombstone = false
  name : record.name = .copy (claimName key)
  text : record.data.bytes = claimText host manager.nodeId score
  author : record.originNodeId = manager.nodeId
  timestamp : record.timestamp = manager.localTimestamp + 1

/-- What `cas_claim` does to the live shared fields. -/
inductive CasEffect (host : ScriptHost Score) (manager : FleeceStateManager) (key : CString)
    (score : Score) : FleeceStateManager × Int → Prop
  | failed (next : FleeceStateManager) (code : Int) (failure : code ≠ 0)
      (live : next.liveShared = manager.liveShared) : CasEffect host manager key score (next, code)
  | claimed (next : FleeceStateManager) (record : GossipRecord)
      (claim : IsNewClaim host manager key score record)
      (found : next.view (claimKey key, sharedOwnerId) = some record)
      (live : next.liveShared = Function.update manager.liveShared (claimKey key) (some record)) :
      CasEffect host manager key score (next, 0)

theorem casClaim_effect (host : ScriptHost Score) (store : manager.StoreInvariant) (key : CString)
    (score : Score) (expected : Option Blob) :
    let result := manager.casClaim host key manager.nodeId score expected
    result.1.StoreInvariant ∧ manager.SameNode result.1 ∧
      CasEffect host manager key score result := by
  intro result
  by_cases fits : (claimText host manager.nodeId score).length < 96
  · have shape : result = LocalWrite.exec manager (.setSharedCas (claimName key)
        (expected.filter fun raw => decide (0 < raw.size))
        ⟨claimText host manager.nodeId score, fits.trans (by decide)⟩) := dif_pos fits
    obtain ⟨kept, same, effect⟩ := exec_shared store (show (LocalWrite.target manager.nodeId
      (.setSharedCas (claimName key) (expected.filter fun raw => decide (0 < raw.size))
        ⟨claimText host manager.nodeId score, fits.trans (by decide)⟩)).2 = sharedOwnerId from rfl)
    rw [shape]
    refine ⟨kept, same, ?_⟩
    generalize LocalWrite.exec manager _ = executed at effect
    cases effect with
    | failed next code failure live => exact .failed next code failure live
    | put next stored record asked found live =>
      simp only [LocalWrite.request, LocalWrite.request.put] at asked
      split_ifs at asked
      obtain ⟨pair, rfl⟩ := Prod.mk.inj (Except.ok.inj asked)
      obtain ⟨rfl, -⟩ := Prod.mk.inj pair
      exact .claimed next _ ⟨rfl, rfl, rfl, rfl, rfl⟩ found live
  · have shape : result = (manager, -1) := dif_neg fits
    rw [shape]
    exact ⟨store, .refl manager, .failed manager (-1) (by decide) rfl⟩

/-- A release leaves no live record under the key. -/
theorem removeShared_effect (store : manager.StoreInvariant) (name : CString) :
    (manager.removeShared name).1.StoreInvariant ∧
      manager.SameNode (manager.removeShared name).1 ∧
      (manager.removeShared name).1.liveShared =
        Function.update manager.liveShared (hashName name) none := by
  have shape : manager.removeShared name = LocalWrite.exec manager (.removeShared name) := rfl
  obtain ⟨kept, same, effect⟩ := exec_shared store
    (show (LocalWrite.target manager.nodeId (.removeShared name)).2 = sharedOwnerId from rfl)
  rcases Option.eq_none_or_eq_some (manager.findFieldOwned (hashName name) sharedOwnerId) with
    found | ⟨i, found⟩
  · have absent : manager.liveShared (hashName name) = none := findFieldOwned_eq_none_iff.mp found
    have refused : manager.removeShared name = (manager, -1) := by
      unfold removeShared
      rw [found]
    rw [refused, ← absent, Function.update_eq_self]
    exact ⟨store, SameNode.refl manager, rfl⟩
  · have success : (manager.removeShared name).2 = 0 := by
      unfold removeShared
      rw [found]
    rw [shape] at success ⊢
    refine ⟨kept, same, ?_⟩
    generalize LocalWrite.exec manager (.removeShared name) = executed at effect success
    cases effect with
    | failed next code failure live => exact absurd success failure
    | put next stored record asked inView live =>
      simp only [LocalWrite.request, LocalWrite.request.bury] at asked
      split at asked
      · cases asked
      · obtain ⟨pair, rfl⟩ := Prod.mk.inj (Except.ok.inj asked)
        obtain ⟨rfl, -⟩ := Prod.mk.inj pair
        exact live

/-- The live shared fields after the release of the held claim. -/
def vacate (held : Option (CString × Score)) (live : UInt32 → Option GossipRecord) :
    UInt32 → Option GossipRecord :=
  match held with
  | none => live
  | some (key, _) => Function.update live (claimKey key) none

/-- What is live after a release was live before. -/
theorem live_of_vacate {held : Option (CString × Score)} {live : UInt32 → Option GossipRecord}
    {key : UInt32} {record : GossipRecord} (left : vacate held live key = some record) :
    live key = some record := by
  cases held with
  | none => exact left
  | some goal =>
    simp only [vacate, Function.update_apply] at left
    split_ifs at left
    exact left

theorem releaseHeld_effect (store : manager.StoreInvariant) (held : Option (CString × Score)) :
    (manager.releaseHeld held).StoreInvariant ∧ manager.SameNode (manager.releaseHeld held) ∧
      (manager.releaseHeld held).liveShared = vacate held manager.liveShared := by
  cases held with
  | none => exact ⟨store, .refl manager, rfl⟩
  | some goal => exact removeShared_effect store (claimName goal.1)

end Claims

/-! ### How a call ends -/

section Calls

variable {Score : Type} [LT Score] [DecidableLT Score]

theorem betterBid_eq_some {best bid : Option (Bid Score)} {chosen : Bid Score}
    (better : betterBid best bid = some chosen) : best = some chosen ∨ bid = some chosen := by
  unfold betterBid at better
  split at better
  · exact Or.inl better
  · exact Or.inr better
  · split_ifs at better
    · exact Or.inr better
    · exact Or.inl better

/-- The best of a list of bids is one of them. -/
theorem exists_of_betterBid {Listed : Type} {bidOf : Listed → Option (Bid Score)}
    {names : List Listed} {first : Option (Bid Score)} {bid : Bid Score}
    (best : names.foldl (fun best listed => betterBid best (bidOf listed)) first = some bid) :
    first = some bid ∨ ∃ listed ∈ names, bidOf listed = some bid := by
  induction names generalizing first with
  | nil => exact Or.inl best
  | cons listed rest inductionHypothesis =>
    rcases inductionHypothesis best with step | ⟨later, member, made⟩
    · exact (betterBid_eq_some step).imp_right fun made => ⟨listed, List.mem_cons_self, made⟩
    · exact Or.inr ⟨later, List.mem_cons_of_mem _ member, made⟩

variable [BEq Score] [Neg Score] [Zero Score] [OfScientific Score] {host : ScriptHost Score}
  {auction : Auction Score} {calls : ScoreCalls Score} {manager : FleeceStateManager}

/-- A key with a score is held: its claim names this node, and its record is live and scored. -/
structure IsHeld (host : ScriptHost Score) (calls : ScoreCalls Score)
    (manager : FleeceStateManager) (current : Option CString) (key : CString) (score : Score) :
    Prop where
  passed : current = some key
  owned : ∃ claimed, (manager.readClaim host key).1 = some (manager.nodeId, claimed)
  scored : ∃ data, manager.getNamed sharedOwnerId key = some data ∧
    jsScoreGoal calls 0 key data = some score

theorem heldGoal_eq_some_iff {current : Option CString} {key : CString} {score : Score} :
    manager.heldGoal host calls current = some (key, score) ↔
      IsHeld host calls manager current key score := by
  constructor
  · intro held
    unfold heldGoal at held
    cases current with
    | none => cases held
    | some passed =>
      simp only at held
      cases read : (manager.readClaim host passed).1 with
      | none =>
        rw [read] at held
        cases held
      | some claim =>
        rw [read] at held
        simp only at held
        split_ifs at held with own
        obtain ⟨data, found, scored⟩ := Option.bind_eq_some_iff.mp held
        obtain ⟨score, isScore, same⟩ := Option.map_eq_some_iff.mp scored
        obtain ⟨rfl, rfl⟩ := Prod.mk.inj same
        refine ⟨rfl, ⟨claim.2, ?_⟩, data, found, isScore⟩
        rw [read, ← own]
  · rintro ⟨rfl, ⟨claimed, read⟩, data, found, scored⟩
    unfold heldGoal
    simp only [read, if_true, found, Option.bind_some, scored, Option.map_some]

variable [Add Score]

/-- What a bid of the scan is. -/
structure IsBid (host : ScriptHost Score) (auction : Auction Score) (calls : ScoreCalls Score)
    (manager : FleeceStateManager) (current : Option CString) (bid : Bid Score) : Prop where
  listed : bid.key ∈ manager.listFields sharedOwnerId jsListMax
  considered : isConsidered auction.poolPrefix current bid.key = true
  scored : ∃ index data, manager.getNamed sharedOwnerId bid.key.toCString = some data ∧
    jsScoreGoal calls index bid.key.toCString data = some bid.score
  eligible : manager.isEligible auction (manager.readClaim host bid.key.toCString).1 bid.score = true

theorem isBid_of_bidOn {current : Option CString} {index : Nat} {key : FieldName} {bid : Bid Score}
    (listed : key ∈ manager.listFields sharedOwnerId jsListMax)
    (made : manager.bidOn host auction calls current index key = some bid) :
    IsBid host auction calls manager current bid := by
  unfold bidOn at made
  split_ifs at made with considered
  obtain ⟨data, found, scored⟩ := Option.bind_eq_some_iff.mp made
  obtain ⟨score, isScore, judged⟩ := Option.bind_eq_some_iff.mp scored
  simp only at judged
  split_ifs at judged with eligible
  rw [← Option.some.inj judged]
  exact ⟨listed, considered, ⟨index, data, found, isScore⟩, eligible⟩

theorem isBid_of_bestBid {current : Option CString} {bid : Bid Score}
    (best : manager.bestBid host auction calls current = some bid) :
    IsBid host auction calls manager current bid := by
  rcases exists_of_betterBid best with absent | ⟨listed, member, made⟩
  · cases absent
  · refine isBid_of_bidOn ?_ made
    obtain ⟨_, _, same⟩ := List.mem_zipIdx member
    rw [same]
    exact List.getElem_mem _

/-- The three ways in which a call ends. -/
inductive Settled (host : ScriptHost Score) (auction : Auction Score) (calls : ScoreCalls Score)
    (manager : FleeceStateManager) (current : Option CString) (held : Option (CString × Score)) :
    FleeceStateManager × FieldName → Prop
  | kept (next : FleeceStateManager) (live : next.liveShared = manager.liveShared) :
      Settled host auction calls manager current held (next, heldKey held)
  | reasserted (next : FleeceStateManager) (key : CString) (score : Score) (record : GossipRecord)
      (holds : held = some (key, score)) (claim : IsNewClaim host manager key score record)
      (live : next.liveShared = Function.update manager.liveShared (claimKey key) (some record)) :
      Settled host auction calls manager current held (next, .copy key)
  | switched (next : FleeceStateManager) (bid : Bid Score) (record : GossipRecord)
      (isBid : IsBid host auction calls manager current bid)
      (better : ∀ key score, held = some (key, score) → score + auction.contestMargin < bid.score)
      (claim : IsNewClaim host manager bid.key.toCString bid.score record)
      (live : next.liveShared = vacate held
        (Function.update manager.liveShared (claimKey bid.key.toCString) (some record))) :
      Settled host auction calls manager current held (next, bid.key)

omit [BEq Score] [Neg Score] [Zero Score] [OfScientific Score] in
theorem switchTo_eq_some {held : Option (CString × Score)} {best : Option (Bid Score)}
    {bid : Bid Score} (switches : switchTo auction held best = some bid) :
    best = some bid ∧
      ∀ key score, held = some (key, score) → score + auction.contestMargin < bid.score := by
  obtain ⟨isBest, better⟩ := Option.filter_eq_some_iff.mp switches
  refine ⟨isBest, fun key score holds => ?_⟩
  rw [holds] at better
  exact of_decide_eq_true better

theorem settle_settled (host : ScriptHost Score) (store : manager.StoreInvariant)
    (current : Option CString) (held : Option (CString × Score)) :
    let result := manager.settle host auction held (manager.bestBid host auction calls current)
    result.1.StoreInvariant ∧ manager.SameNode result.1 ∧
      Settled host auction calls manager current held result := by
  intro result
  cases switches : switchTo auction held (manager.bestBid host auction calls current) with
  | none =>
    have shape : result = (manager.reassert host auction.allowReassert held, heldKey held) := by
      simp only [result, settle, switches]
    rw [shape]
    cases held with
    | none => exact ⟨store, .refl manager, .kept manager rfl⟩
    | some goal =>
      obtain ⟨key, score⟩ := goal
      unfold reassert
      simp only
      split_ifs
      · cases manager.getNamed sharedOwnerId (claimName key) with
        | none => exact ⟨store, .refl manager, .kept manager rfl⟩
        | some raw =>
          obtain ⟨kept, same, effect⟩ := casClaim_effect host store key score (some raw)
          refine ⟨kept, same, ?_⟩
          show Settled host auction calls manager current (some (key, score))
            ((manager.casClaim host key manager.nodeId score (some raw)).1, .copy key)
          generalize manager.casClaim host key manager.nodeId score (some raw) = claimed at effect
          cases effect with
          | failed next code failure live => exact .kept next live
          | claimed next record claim found live =>
            exact .reasserted next key score record rfl claim live
      · exact ⟨store, .refl manager, .kept manager rfl⟩
  | some bid =>
    obtain ⟨isBest, better⟩ := switchTo_eq_some switches
    obtain ⟨kept, same, effect⟩ :=
      casClaim_effect host store bid.key.toCString bid.score bid.expected
    have shape : result =
        let claimed := manager.casClaim host bid.key.toCString manager.nodeId bid.score bid.expected
        if claimed.2 = 0 then (claimed.1.releaseHeld held, bid.key)
          else (claimed.1, heldKey held) := by
      simp only [result, settle, switches]
    rw [shape]
    generalize manager.casClaim host bid.key.toCString manager.nodeId bid.score bid.expected =
      claimed at kept same effect
    cases effect with
    | failed next code failure live =>
      simp only [if_neg failure]
      exact ⟨kept, same, .kept next live⟩
    | claimed next record claim found live =>
      simp only [if_true]
      obtain ⟨released, sameLast, vacated⟩ := releaseHeld_effect kept held
      refine ⟨released, same.trans sameLast, ?_⟩
      rw [live] at vacated
      exact .switched _ bid record (isBid_of_bestBid isBest) better claim vacated

theorem claimBestGoal_of_some (scorer : auction.scoreGoal = some calls) (currentKey : CString) :
    manager.claimBestGoal host auction currentKey =
      let settled := manager.settle host auction
        (manager.heldGoal host calls (passedKey currentKey))
        (manager.bestBid host auction calls (passedKey currentKey))
      (settled.1, 0, settled.2) := by
  unfold claimBestGoal
  rw [scorer]

theorem claimBestGoal_settled (host : ScriptHost Score) (store : manager.StoreInvariant)
    (scorer : auction.scoreGoal = some calls) (currentKey : CString) :
    let result := manager.claimBestGoal host auction currentKey
    result.1.StoreInvariant ∧ manager.SameNode result.1 ∧
      Settled host auction calls manager (passedKey currentKey)
        (manager.heldGoal host calls (passedKey currentKey)) (result.1, result.2.2) := by
  rw [claimBestGoal_of_some scorer]
  simp only
  exact settle_settled host store _ _

theorem claimBestGoal_of_none (scorer : auction.scoreGoal = none) (currentKey : CString) :
    manager.claimBestGoal host auction currentKey = (manager, -1, .empty) := by
  unfold claimBestGoal
  rw [scorer]

end Calls

end FleeceStateManager

end Fleece
