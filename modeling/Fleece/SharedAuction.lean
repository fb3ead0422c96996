/-
This file is about nodes that take turns in the auction of one shared claim store. Every
node has the same score for a goal in every call, all nodes are live, and nobody adds or
removes a goal. A call then either leaves the owners and scores of the claims as they
are, or moves its node to a goal with a higher score: the node takes a claim that was
free or scored lower, and gives up the lower one that it held.

A switch may evict a node that bids elsewhere and evicts another one in turn. It ends
all the same: the claims move in the sense of `Fleece.Potential`.
-/

import Fleece.ExactScores
import Fleece.Potential
import Fleece.Takeover

namespace Fleece

open FleeceStateManager

/-! ### Runs of the auction -/

theorem passedKey_eq_some_iff {current : FieldName} {key : CString} :
    passedKey current.toCString = some key ↔ current.chars ≠ [] ∧ key = current.toCString := by
  unfold passedKey
  split_ifs with empty
  · exact iff_of_false nofun fun both => both.1 (List.isEmpty_iff.mp empty)
  · exact ⟨fun same => ⟨mt List.isEmpty_iff.mpr empty, (Option.some.inj same).symm⟩,
      fun both => congrArg some both.2.symm⟩

section Runs

variable {Node : Type} [DecidableEq Node] (host : ScriptHost ℚ)

/-- The calls of a run: which node makes them, with which arguments, and the store it finds. -/
structure Calls (Node : Type) where
  caller : ℕ → Node
  auction : ℕ → Auction ℚ
  store : ℕ → FleeceStateManager

namespace Calls

/-- The key that the last call of a node has returned. -/
def current (calls : Calls Node) : ℕ → Node → FieldName
  | 0, _ => .empty
  | i + 1, node =>
    if node = calls.caller i then
      ((calls.store i).claimBestGoal host (calls.auction i)
        (calls.current i node).toCString).2.2
    else calls.current i node

/-- What a call makes of the store it finds. -/
def left (calls : Calls Node) (i : ℕ) : FleeceStateManager :=
  ((calls.store i).claimBestGoal host (calls.auction i)
    (calls.current host i (calls.caller i)).toCString).1

/-- The nodes take turns: each call finds a store of its node, in a state that some run leads to,
with the live shared records that the call before has left. Scores are static, all nodes are live,
and at the start every listed goal is among the goals and none is claimed. -/
structure TakeTurns (calls : Calls Node) (ids : Node → UInt64) (goals : Finset FieldName)
    (score : Node → CString → ℚ) (poolPrefix : CString) : Prop where
  distinct : Function.Injective ids
  reached : ∀ i, ∃ start events, createWithNodeId (ids (calls.caller i)) = some start ∧
    calls.store i = runFrom (Mesh.step host) start events
  shared : ∀ i, (calls.store (i + 1)).liveShared = (calls.left host i).liveShared
  pool : ∀ i, (calls.auction i).poolPrefix = poolPrefix
  margin : ∀ i, 0 ≤ (calls.auction i).contestMargin
  scorer : ∀ i, ∃ scores, (calls.auction i).scoreGoal = some scores ∧
    ∀ index, ∀ key ∈ goals, ∀ data,
      scores index key.toCString data = some (score (calls.caller i) key.toCString)
  live : ∀ i node, node ≠ calls.caller i →
    (calls.store i).ticksSinceSeen (ids node) ≤ (calls.auction i).peerTtlTicks
  listed : ∀ key record, (calls.store 0).liveShared key = some record →
    isConsidered poolPrefix none record.name = true → record.name ∈ goals
  apart : ∀ goal ∈ goals, ∀ other ∈ goals,
    claimKey goal.toCString = claimKey other.toCString → goal = other
  clear : ∀ goal ∈ goals, ∀ other ∈ goals, hashName goal.toCString ≠ claimKey other.toCString
  unclaimed : ∀ goal ∈ goals, (calls.store 0).liveShared (claimKey goal.toCString) = none

/-! ### What holds before every call -/

/-- The score that a node stores for a goal: `js_score_goal` on the result of its script. -/
def value (score : Node → CString → ℚ) (node : Node) (goal : CString) : ℚ :=
  (acceptScore (score node goal)).getD 0

/-- Before the call with this number, every claim on a goal is that of a node which was given the
goal by its last call, with its score, and the goals that are held have live records. -/
structure Invariant (calls : Calls Node) (ids : Node → UInt64) (goals : Finset FieldName)
    (score : Node → CString → ℚ) (poolPrefix : CString) (i : ℕ) : Prop where
  listed : ∀ key record, (calls.store i).liveShared key = some record →
    isConsidered poolPrefix none record.name = true → record.name ∈ goals
  claims : ∀ goal ∈ goals, ∀ record,
    (calls.store i).liveShared (claimKey goal.toCString) = some record →
    ∃ node, calls.current host i node = goal ∧ goal ≠ .empty ∧
      parseClaim host record.data = some (ids node, value score node goal.toCString)
  held : ∀ node, calls.current host i node ≠ .empty → calls.current host i node ∈ goals ∧
    (calls.current host i node).chars ≠ [] ∧
    ∃ record, (calls.store i).liveShared (hashName (calls.current host i node).toCString) =
      some record

/-- The content of a claim: its owner and its score. -/
def content (manager : FleeceStateManager) (key : UInt32) : Option (UInt64 × ℚ) :=
  (manager.liveShared key).bind fun record => parseClaim host record.data

theorem readClaim_eq_content (manager : FleeceStateManager) (key : CString) :
    (manager.readClaim host key).1 = content host manager (claimKey key) := by
  unfold content
  cases live : manager.liveShared (claimKey key) with
  | none => rw [readClaim_of_none live]; rfl
  | some record => rw [readClaim_of_some live]; rfl

theorem current_succ (calls : Calls Node) (i : ℕ) :
    calls.current host (i + 1) = Function.update (calls.current host i) (calls.caller i)
      ((calls.store i).claimBestGoal host (calls.auction i)
        (calls.current host i (calls.caller i)).toCString).2.2 := by
  funext node
  rw [current, Function.update_apply]
  split_ifs with same
  · rw [same]
  · rfl

variable {host} {calls : Calls Node} {ids : Node → UInt64} {goals : Finset FieldName}
  {score : Node → CString → ℚ} {poolPrefix : CString}

omit [DecidableEq Node] in
theorem acceptScore_value (node : Node) (goal : CString) :
    acceptScore (score node goal) = some (value score node goal) := by
  unfold value acceptScore
  rw [if_neg (by simp)]
  split_ifs <;> rfl

/-- The scores of the goals that are claimed. -/
def claimed (host : ScriptHost ℚ) (calls : Calls Node) (goals : Finset FieldName) (i : ℕ)
    (goal : goals) : Option ℚ :=
  (content host (calls.store i) (claimKey goal.val.toCString)).map Prod.snd

/-- All scores that a claim can have. -/
def values [Fintype Node] (score : Node → CString → ℚ) (goals : Finset FieldName) : Finset ℚ :=
  (Finset.univ ×ˢ goals).image fun pair => value score pair.1 pair.2.toCString

namespace TakeTurns

variable (turns : calls.TakeTurns host ids goals score poolPrefix)
include turns

theorem storeInvariant (i : ℕ) :
    (calls.store i).StoreInvariant ∧ (calls.store i).nodeId = ids (calls.caller i) := by
  obtain ⟨start, events, created, reached⟩ := turns.reached i
  obtain ⟨kept, same⟩ := Mesh.run_keeps host (storeInvariant_create created) events
  rw [reached]
  exact ⟨kept, same.trans (node_after created [])⟩

theorem invariant_start : calls.Invariant host ids goals score poolPrefix 0 where
  listed := turns.listed
  claims goal member record live := by
    rw [turns.unclaimed goal member] at live
    cases live
  held node real := absurd rfl real

/-! ### One call -/

variable {scores : ScoreCalls ℚ} {i : ℕ}
  (static : ∀ index, ∀ key ∈ goals, ∀ data,
    scores index key.toCString data = some (score (calls.caller i) key.toCString))
  (invariant : calls.Invariant host ids goals score poolPrefix i)

omit [DecidableEq Node] turns in
include static in
theorem jsScoreGoal_static (index : ℕ) {goal : FieldName} (member : goal ∈ goals) (data : Blob) :
    jsScoreGoal scores index goal.toCString data =
      some (value score (calls.caller i) goal.toCString) := by
  rw [jsScoreGoal, static index goal member data, Option.bind_some, acceptScore_value]

include static in
/-- A new claim of the caller reads as its claim. -/
theorem parseClaim_of_isNew (readsBack : host.ReadsBack) {goal : FieldName} (member : goal ∈ goals)
    {record : GossipRecord}
    (isNew : IsNewClaim host (calls.store i) goal.toCString
      (value score (calls.caller i) goal.toCString) record) :
    parseClaim host record.data =
      some (ids (calls.caller i), value score (calls.caller i) goal.toCString) := by
  rw [← (turns.storeInvariant i).2]
  exact parseClaim_of_readsBack readsBack (jsScoreGoal_static static 0 member .empty) isNew.text

include static invariant

/-- A claim of the caller is on the goal that it holds. -/
theorem heldGoal_of_claim {goal : FieldName} (member : goal ∈ goals) {record : GossipRecord}
    (live : (calls.store i).liveShared (claimKey goal.toCString) = some record)
    (own : calls.current host i (calls.caller i) = goal) (real : goal ≠ .empty) {claimScore : ℚ}
    (parsed : parseClaim host record.data = some (ids (calls.caller i), claimScore)) :
    (calls.store i).heldGoal host scores
        (passedKey (calls.current host i (calls.caller i)).toCString) =
      some (goal.toCString, value score (calls.caller i) goal.toCString) := by
  subst own
  obtain ⟨_, named, standing, found⟩ := invariant.held _ real
  refine heldGoal_eq_some_iff.mpr ⟨passedKey_eq_some_iff.mpr ⟨named, rfl⟩, ⟨claimScore, ?_⟩,
    standing.data, ?_, jsScoreGoal_static static _ member _⟩
  · rw [readClaim_of_some live, (turns.storeInvariant i).2]
    exact parsed
  · rw [getNamed_shared, found]
    rfl

/-- What the caller holds is the goal of its last call, with the claim that it made. -/
theorem of_heldGoal {key : CString} {claimScore : ℚ}
    (held : (calls.store i).heldGoal host scores
      (passedKey (calls.current host i (calls.caller i)).toCString) = some (key, claimScore)) :
    ∃ goal ∈ goals, calls.current host i (calls.caller i) = goal ∧ goal.chars ≠ [] ∧
      key = goal.toCString ∧ claimScore = value score (calls.caller i) goal.toCString ∧
      content host (calls.store i) (claimKey goal.toCString) =
        some (ids (calls.caller i), value score (calls.caller i) goal.toCString) := by
  obtain ⟨passed, ⟨stored, read⟩, data, _, scored⟩ := heldGoal_eq_some_iff.mp held
  obtain ⟨nonempty, rfl⟩ := passedKey_eq_some_iff.mp passed
  have current : calls.current host i (calls.caller i) ≠ .empty := fun none =>
    nonempty (none ▸ rfl)
  obtain ⟨member, _, _⟩ := invariant.held _ current
  rw [jsScoreGoal_static static _ member] at scored
  refine ⟨_, member, rfl, nonempty, rfl, (Option.some.inj scored).symm, ?_⟩
  rw [(turns.storeInvariant i).2, readClaim_eq_content] at read
  obtain ⟨record, live, parsed⟩ := Option.bind_eq_some_iff.mp read
  obtain ⟨node, _, _, claim⟩ := invariant.claims _ member record live
  rw [claim] at parsed
  obtain ⟨same, rfl⟩ := Prod.mk.inj (Option.some.inj parsed)
  rw [read, turns.distinct same]

/-- The key that is given back while nothing new is claimed is the one that was passed, if it is
held. -/
theorem heldKey_eq {key : CString} {claimScore : ℚ}
    (held : (calls.store i).heldGoal host scores
      (passedKey (calls.current host i (calls.caller i)).toCString) = some (key, claimScore)) :
    heldKey (some (key, claimScore)) = calls.current host i (calls.caller i) := by
  obtain ⟨goal, _, rfl, _, rfl, _, _⟩ := turns.of_heldGoal static invariant held
  exact FieldName.copy_toCString _

/-- A call that leaves the contents of the claims as they are keeps the invariant. -/
theorem invariant_of_same (same : ∀ key, content host (calls.store (i + 1)) key =
      content host (calls.store i) key)
    (stays : ∀ key, (calls.store (i + 1)).liveShared key = none ↔
      (calls.store i).liveShared key = none)
    (names : ∀ key record, (calls.store (i + 1)).liveShared key = some record →
      (calls.store i).liveShared key = some record ∨ claimPrefix <+: record.name.chars)
    (returned : calls.current host (i + 1) = Function.update (calls.current host i)
      (calls.caller i) (heldKey ((calls.store i).heldGoal host scores
        (passedKey (calls.current host i (calls.caller i)).toCString)))) :
    calls.Invariant host ids goals score poolPrefix (i + 1) where
  listed key record live considered := by
    rcases names key record live with before | named
    · exact invariant.listed key record before considered
    · unfold isConsidered at considered
      rw [List.isPrefixOf_iff_prefix.mpr named] at considered
      simp at considered
  claims goal member record live := by
    obtain ⟨old, before⟩ := Option.ne_none_iff_exists'.mp fun none =>
      Option.some_ne_none record (live.symm.trans ((stays _).mpr none))
    obtain ⟨node, owner, real, parsed⟩ := invariant.claims goal member old before
    have sameHere := same (claimKey goal.toCString)
    rw [content, content, live, before, Option.bind_some, Option.bind_some, parsed] at sameHere
    refine ⟨node, ?_, real, sameHere⟩
    rw [returned]
    rcases eq_or_ne node (calls.caller i) with rfl | other
    · have held := turns.heldGoal_of_claim static invariant member before owner real parsed
      rw [Function.update_self, held, turns.heldKey_eq static invariant held, owner]
    · rw [Function.update_of_ne other, owner]
  held node real := by
    have stillCurrent : calls.current host (i + 1) node = calls.current host i node := by
      rw [returned] at real ⊢
      rcases eq_or_ne node (calls.caller i) with rfl | other
      · rw [Function.update_self] at real ⊢
        cases held : (calls.store i).heldGoal host scores
            (passedKey (calls.current host i (calls.caller i)).toCString) with
        | none =>
          rw [held] at real
          exact absurd rfl real
        | some goal => exact turns.heldKey_eq static invariant held
      · rw [Function.update_of_ne other]
    rw [stillCurrent] at real ⊢
    obtain ⟨member, named, record, found⟩ := invariant.held node real
    refine ⟨member, named, Option.ne_none_iff_exists'.mp fun none => ?_⟩
    exact Option.some_ne_none record (found.symm.trans ((stays _).mp none))

/-- So does a call that writes the claim of its caller again. -/
theorem invariant_of_reasserted (readsBack : host.ReadsBack) {goal : FieldName}
    (member : goal ∈ goals) {record : GossipRecord}
    (isNew : IsNewClaim host (calls.store i) goal.toCString
      (value score (calls.caller i) goal.toCString) record)
    (before : content host (calls.store i) (claimKey goal.toCString) =
      some (ids (calls.caller i), value score (calls.caller i) goal.toCString))
    (live : (calls.store (i + 1)).liveShared =
      Function.update (calls.store i).liveShared (claimKey goal.toCString) (some record))
    (returned : calls.current host (i + 1) = Function.update (calls.current host i)
      (calls.caller i) (heldKey ((calls.store i).heldGoal host scores
        (passedKey (calls.current host i (calls.caller i)).toCString)))) :
    calls.Invariant host ids goals score poolPrefix (i + 1) ∧
      ∀ key, content host (calls.store (i + 1)) key = content host (calls.store i) key := by
  have same (key : UInt32) : content host (calls.store (i + 1)) key =
      content host (calls.store i) key := by
    rw [content, live, Function.update_apply]
    split_ifs with here
    · rw [here, before, Option.bind_some, turns.parseClaim_of_isNew static readsBack member isNew]
    · rfl
  refine ⟨turns.invariant_of_same static invariant same (fun key => ?_)
    (fun key written found => ?_) returned, same⟩
  · rw [live, Function.update_apply]
    split_ifs with here
    · rw [here]
      refine ⟨nofun, fun none => ?_⟩
      rw [content, none] at before
      cases before
    · rfl
  · rw [live, Function.update_apply] at found
    split_ifs at found
    · cases found
      rw [isNew.name]
      exact Or.inr (claimPrefix_copy _)
    · exact Or.inl found

/-- How the claims come out of a call: none has changed, or the caller has moved. -/
def Comes [Fintype Node] (host : ScriptHost ℚ) (calls : Calls Node) (goals : Finset FieldName)
    (score : Node → CString → ℚ) (i : ℕ) : Prop :=
  (∀ key, content host (calls.store (i + 1)) key = content host (calls.store i) key) ∨
    ∃ left place claim, Potential.Moves (values score goals) (claimed host calls goals i)
      (claimed host calls goals (i + 1)) left place claim

omit turns static in
/-- What the contents of the claims say of the scores. -/
theorem exists_of_claimed {goal : goals} {claim : ℚ}
    (stored : claimed host calls goals i goal = some claim) :
    ∃ node, calls.current host i node = goal.val ∧ claim = value score node goal.val.toCString ∧
      content host (calls.store i) (claimKey goal.val.toCString) = some (ids node, claim) := by
  obtain ⟨pair, found, rfl⟩ := Option.map_eq_some_iff.mp stored
  obtain ⟨record, live, parsed⟩ := Option.bind_eq_some_iff.mp found
  obtain ⟨node, owner, _, same⟩ := invariant.claims goal.val goal.property record live
  rw [same] at parsed
  cases parsed
  refine ⟨node, owner, rfl, ?_⟩
  rw [content, live, Option.bind_some, same]

omit [DecidableEq Node] turns static invariant in
theorem value_mem [Fintype Node] (node : Node) (goal : goals) :
    value score node goal.val.toCString ∈ values score goals :=
  Finset.mem_image.mpr ⟨(node, goal.val),
    Finset.mem_product.mpr ⟨Finset.mem_univ _, goal.property⟩, rfl⟩

/-- A bid is for a goal that the caller does not hold, with its score for it, and above the claim on
the goal if there is one. -/
theorem of_isBid {bid : Bid ℚ}
    (isBid : IsBid host (calls.auction i) scores (calls.store i)
      (passedKey (calls.current host i (calls.caller i)).toCString) bid) :
    bid.key.chars ≠ [] ∧ calls.current host i (calls.caller i) ≠ bid.key ∧
      (∃ record, (calls.store i).liveShared (hashName bid.key.toCString) = some record) ∧
      ∃ member : bid.key ∈ goals,
        bid.score = value score (calls.caller i) bid.key.toCString ∧
        ∀ old, claimed host calls goals i ⟨bid.key, member⟩ = some old → old < bid.score := by
  obtain ⟨store, node⟩ := turns.storeInvariant i
  obtain ⟨named, key, shown, live, sameName⟩ := exists_of_listed store.distinct isBid.listed
  have considered := isBid.considered
  rw [turns.pool i] at considered
  have member : bid.key ∈ goals := by
    rw [← sameName]
    refine invariant.listed key shown live ?_
    rw [sameName]
    unfold isConsidered at considered ⊢
    rw [Bool.and_eq_true] at considered ⊢
    exact ⟨considered.1, rfl⟩
  have notHeld : calls.current host i (calls.caller i) ≠ bid.key := by
    intro held
    unfold isConsidered at considered
    rw [held, passedKey_eq_some_iff.mpr ⟨named, rfl⟩] at considered
    simp at considered
  obtain ⟨index, data, found, scored⟩ := isBid.scored
  rw [jsScoreGoal_static static _ member] at scored
  rw [getNamed_shared] at found
  obtain ⟨record, standing, _⟩ := Option.map_eq_some_iff.mp found
  refine ⟨named, notHeld, ⟨record, standing⟩, member, (Option.some.inj scored).symm, ?_⟩
  intro old stored
  obtain ⟨holder, holds, _, claim⟩ := exists_of_claimed invariant stored
  have other : holder ≠ calls.caller i := fun same => notHeld (same ▸ holds)
  have eligible := isBid.eligible
  rw [readClaim_eq_content, claim] at eligible
  have foreign : ids holder ≠ (calls.store i).nodeId := by
    rw [node]
    exact fun same => other (turns.distinct same)
  rcases isEligible_foreign foreign eligible with outbid | silent
  · exact (le_add_of_nonneg_right (turns.margin i)).trans_lt outbid
  · exact absurd (turns.live i holder other) (UInt64.not_le.mpr silent)

/-- What a switch to the goal does to the claims: the goal gets the record, the goal that is left
loses its own, and it is the one that the caller held, with a lower score. -/
structure Switches (host : ScriptHost ℚ) (calls : Calls Node) (ids : Node → UInt64)
    (goals : Finset FieldName) (score : Node → CString → ℚ) (i : ℕ) (left : Option goals)
    (goal : goals) (record : GossipRecord) : Prop where
  claims : ∀ other : goals, (calls.store (i + 1)).liveShared (claimKey other.val.toCString) =
    if other = goal then some record else if left = some other then none
    else (calls.store i).liveShared (claimKey other.val.toCString)
  rest : ∀ key, (∀ other ∈ goals, key ≠ claimKey other.toCString) →
    (calls.store (i + 1)).liveShared key = (calls.store i).liveShared key
  kept : ∀ key other, (calls.store (i + 1)).liveShared key = some other →
    (calls.store i).liveShared key = some other ∨ other = record
  lower : ∀ other, left = some other →
    claimed host calls goals i other = some (value score (calls.caller i) other.val.toCString) ∧
      value score (calls.caller i) other.val.toCString <
        value score (calls.caller i) goal.val.toCString
  own : ∀ (other : goals) held claim, calls.current host i (calls.caller i) = other.val →
    other.val ≠ .empty →
    (calls.store i).liveShared (claimKey other.val.toCString) = some held →
    parseClaim host held.data = some (ids (calls.caller i), claim) → left = some other

theorem exists_switches {bid : Bid ℚ} {record : GossipRecord} (goal : goals)
    (same : goal.val = bid.key) (notHeld : calls.current host i (calls.caller i) ≠ bid.key)
    (scored : bid.score = value score (calls.caller i) bid.key.toCString)
    (better : ∀ key claim, (calls.store i).heldGoal host scores
      (passedKey (calls.current host i (calls.caller i)).toCString) = some (key, claim) →
      claim + (calls.auction i).contestMargin < bid.score)
    (live : (calls.store (i + 1)).liveShared = vacate ((calls.store i).heldGoal host scores
        (passedKey (calls.current host i (calls.caller i)).toCString))
      (Function.update (calls.store i).liveShared (claimKey bid.key.toCString) (some record))) :
    ∃ left, Switches host calls ids goals score i left goal record := by
  have apart (first second : goals)
      (hashed : claimKey first.val.toCString = claimKey second.val.toCString) : first = second :=
    Subtype.ext (turns.apart _ first.property _ second.property hashed)
  rw [← same] at live notHeld scored
  cases held : (calls.store i).heldGoal host scores
      (passedKey (calls.current host i (calls.caller i)).toCString) with
  | none =>
    rw [held, vacate] at live
    refine ⟨none, fun other => ?_, fun key clear => ?_, fun key other found => ?_,
      fun other isLeft => absurd isLeft (Option.some_ne_none other).symm, ?_⟩
    · rw [live, Function.update_apply]
      simp only [reduceCtorEq, if_false]
      exact if_congr ⟨fun hashed => apart _ _ hashed, fun isGoal => by rw [isGoal]⟩ rfl rfl
    · rw [live, Function.update_of_ne (clear _ goal.property)]
    · rw [live, Function.update_apply] at found
      split_ifs at found
      · exact Or.inr (Option.some.inj found).symm
      · exact Or.inl found
    · intro other stored claim owner real found parsed
      have heldHere := turns.heldGoal_of_claim static invariant other.property found owner real
        parsed
      rw [held] at heldHere
      cases heldHere
  | some pair =>
    obtain ⟨key, claim⟩ := pair
    obtain ⟨mine, member, owner, _, rfl, rfl, before⟩ := turns.of_heldGoal static invariant held
    have lower := better _ _ held
    rw [held, vacate] at live
    refine ⟨some ⟨mine, member⟩, fun other => ?_, fun key clear => ?_, fun key other found => ?_,
      fun other isLeft => ?_, ?_⟩
    · have moves : goal ≠ ⟨mine, member⟩ := fun isMine =>
        notHeld (owner.trans (congrArg Subtype.val isMine).symm)
      rw [live]
      split_ifs with isGoal isLeft
      · subst isGoal
        rw [Function.update_of_ne fun hashed => moves (apart _ _ hashed), Function.update_self]
      · cases isLeft
        rw [Function.update_self]
      · rw [Function.update_of_ne fun hashed => isLeft (congrArg some (apart _ _ hashed).symm),
          Function.update_of_ne fun hashed => isGoal (apart _ _ hashed)]
    · rw [live, Function.update_of_ne (clear _ member),
        Function.update_of_ne (clear _ goal.property)]
    · rw [live, Function.update_apply, Function.update_apply] at found
      split_ifs at found
      · exact Or.inr (Option.some.inj found).symm
      · exact Or.inl found
    · cases isLeft
      refine ⟨?_, ?_⟩
      · rw [claimed, before]
        rfl
      · rw [← scored]
        exact (le_add_of_nonneg_right (turns.margin i)).trans_lt lower
    · intro other stored claim owned real found parsed
      exact congrArg some (Subtype.ext (owner.symm.trans owned))

omit static in
/-- A switch keeps the invariant. -/
theorem invariant_of_switches {left : Option goals} {goal : goals} {record : GossipRecord}
    (switches : Switches host calls ids goals score i left goal record)
    (named : goal.val.chars ≠ [])
    (standing : ∃ shown, (calls.store i).liveShared (hashName goal.val.toCString) = some shown)
    (isClaim : claimPrefix <+: record.name.chars)
    (parsed : parseClaim host record.data =
      some (ids (calls.caller i), value score (calls.caller i) goal.val.toCString))
    (returned : calls.current host (i + 1) =
      Function.update (calls.current host i) (calls.caller i) goal.val) :
    calls.Invariant host ids goals score poolPrefix (i + 1) where
  listed key other live considered := by
    rcases switches.kept key other live with before | rfl
    · exact invariant.listed key other before considered
    · unfold isConsidered at considered
      rw [List.isPrefixOf_iff_prefix.mpr isClaim] at considered
      simp at considered
  claims other member stored live := by
    rw [switches.claims ⟨other, member⟩] at live
    split_ifs at live with isGoal isLeft
    · cases live
      cases isGoal
      refine ⟨calls.caller i, ?_, fun empty => named (congrArg (·.chars) empty), parsed⟩
      rw [returned, Function.update_self]
    · obtain ⟨node, owner, real, claim⟩ := invariant.claims other member stored live
      have another : node ≠ calls.caller i := by
        rintro rfl
        exact isLeft (switches.own ⟨other, member⟩ stored _ owner real live claim)
      refine ⟨node, ?_, real, claim⟩
      rw [returned, Function.update_of_ne another, owner]
  held node real := by
    rw [returned] at real ⊢
    have stands {other : FieldName} (member : other ∈ goals) :
        (calls.store (i + 1)).liveShared (hashName other.toCString) =
          (calls.store i).liveShared (hashName other.toCString) :=
      switches.rest _ (turns.clear other member)
    rcases eq_or_ne node (calls.caller i) with rfl | another
    · rw [Function.update_self, stands goal.property]
      exact ⟨goal.property, named, standing⟩
    · rw [Function.update_of_ne another] at real ⊢
      obtain ⟨member, nonempty, found⟩ := invariant.held node real
      exact ⟨member, nonempty, (stands member).symm ▸ found⟩

omit turns static in
/-- A switch is a move. -/
theorem moves_of_switches [Fintype Node] {left : Option goals} {goal : goals}
    {record : GossipRecord} (switches : Switches host calls ids goals score i left goal record)
    (parsed : parseClaim host record.data =
      some (ids (calls.caller i), value score (calls.caller i) goal.val.toCString))
    (above : ∀ old, claimed host calls goals i goal = some old →
      old < value score (calls.caller i) goal.val.toCString) :
    Potential.Moves (values score goals) (claimed host calls goals i)
      (claimed host calls goals (i + 1)) left goal
      (value score (calls.caller i) goal.val.toCString) where
  moved := by
    funext other
    rw [claimed, content, switches.claims other]
    split_ifs
    · rw [Option.bind_some, parsed]
      rfl
    · rfl
    · rfl
  taken old stored := by
    obtain ⟨node, _, rfl, _⟩ := exists_of_claimed invariant stored
    exact ⟨value_mem node goal, above _ stored⟩
  given old stored := by
    obtain ⟨other, isLeft, claim⟩ := Option.bind_eq_some_iff.mp stored
    obtain ⟨before, lower⟩ := switches.lower other isLeft
    rw [before] at claim
    cases claim
    exact ⟨value_mem _ other, lower⟩

theorem step [Fintype Node] (readsBack : host.ReadsBack)
    (scorer : (calls.auction i).scoreGoal = some scores) :
    calls.Invariant host ids goals score poolPrefix (i + 1) ∧ Comes host calls goals score i := by
  obtain ⟨-, -, settled⟩ := claimBestGoal_settled host (turns.storeInvariant i).1 scorer
    (calls.current host i (calls.caller i)).toCString
  have shared := turns.shared i
  have given := current_succ host calls i
  unfold left at shared
  generalize (calls.store i).claimBestGoal host (calls.auction i)
    (calls.current host i (calls.caller i)).toCString = result at settled shared given
  obtain ⟨next, code, returned⟩ := result
  simp only at settled shared given
  generalize heldEq : (calls.store i).heldGoal host scores
    (passedKey (calls.current host i (calls.caller i)).toCString) = held at settled
  generalize outcome : (next, returned) = pair at settled
  cases settled with
  | kept next unchanged =>
    cases outcome
    have live : (calls.store (i + 1)).liveShared = (calls.store i).liveShared :=
      shared.trans unchanged
    have same (key : UInt32) : content host (calls.store (i + 1)) key =
        content host (calls.store i) key := by
      rw [content, content, live]
    refine ⟨turns.invariant_of_same static invariant same (fun key => by rw [live])
      (fun key record found => Or.inl (live ▸ found)) (heldEq ▸ given), Or.inl same⟩
  | reasserted next key claim record holds isNew changed =>
    cases outcome
    obtain ⟨goal, member, owner, named, rfl, rfl, before⟩ :=
      turns.of_heldGoal static invariant (heldEq.trans holds)
    obtain ⟨next, same⟩ := turns.invariant_of_reasserted static invariant readsBack member isNew
      before (shared.trans changed) (by rw [heldEq, holds]; exact given)
    exact ⟨next, Or.inl same⟩
  | switched next bid record isBid better isNew changed =>
    cases outcome
    obtain ⟨named, notHeld, standing, member, scored, above⟩ :=
      turns.of_isBid static invariant isBid
    subst heldEq
    obtain ⟨left, switches⟩ := turns.exists_switches static invariant
      ⟨bid.key, member⟩ rfl notHeld scored better (shared.trans changed)
    have parsed := turns.parseClaim_of_isNew static readsBack member (scored ▸ isNew)
    have isClaim : claimPrefix <+: record.name.chars := by
      rw [isNew.name]
      exact claimPrefix_copy _
    exact ⟨turns.invariant_of_switches invariant switches named standing isClaim parsed given,
      Or.inr ⟨left, _, _, moves_of_switches invariant switches parsed
        fun old stored => scored ▸ above old stored⟩⟩

end TakeTurns

/-! ### Runs come to rest -/

variable [Fintype Node] (turns : calls.TakeTurns host ids goals score poolPrefix)
include turns

theorem TakeTurns.invariant (readsBack : host.ReadsBack) (i : ℕ) :
    calls.Invariant host ids goals score poolPrefix i := by
  induction i with
  | zero => exact turns.invariant_start
  | succ i inductionHypothesis =>
    obtain ⟨scores, scorer, static⟩ := turns.scorer i
    exact (turns.step static inductionHypothesis readsBack scorer).1

theorem TakeTurns.comes (readsBack : host.ReadsBack) (i : ℕ) : Comes host calls goals score i := by
  obtain ⟨scores, scorer, static⟩ := turns.scorer i
  exact (turns.step static (turns.invariant readsBack i) readsBack scorer).2

/-- In every run only finitely many calls change the owner and the score of any claim, and so the
claims come to rest. -/
theorem auction_terminates (readsBack : host.ReadsBack) :
    {i | ∃ key, ((calls.store (i + 1)).readClaim host key).1 ≠
      ((calls.store i).readClaim host key).1}.Finite ∧
      ∃ stable, ∀ i, stable ≤ i → ∀ key,
        ((calls.store i).readClaim host key).1 = ((calls.store stable).readClaim host key).1 := by
  let contents (i : ℕ) (key : CString) := ((calls.store i).readClaim host key).1
  let weight (i : ℕ) :=
    Potential.potential Finset.univ (values score goals) (claimed host calls goals i)
  have changed (i : ℕ) (moved : contents (i + 1) ≠ contents i) : weight i < weight (i + 1) := by
    rcases turns.comes readsBack i with same | ⟨left, place, claim, moves⟩
    · refine absurd (funext fun key => ?_) moved
      simp only [contents]
      rw [readClaim_eq_content, readClaim_eq_content, same]
    · exact Potential.potential_lt moves (Finset.mem_univ _)
  have rises (i : ℕ) : weight i ≤ weight (i + 1) := by
    rcases turns.comes readsBack i with same | ⟨left, place, claim, moves⟩
    · have kept : claimed host calls goals (i + 1) = claimed host calls goals i :=
        funext fun goal => by rw [claimed, claimed, same]
      exact le_of_eq (congrArg (Potential.potential _ _) kept.symm)
    · exact (Potential.potential_lt moves (Finset.mem_univ _)).le
  have finite : {i | contents (i + 1) ≠ contents i}.Finite :=
    (Potential.finite_climbs rises fun i => Potential.potential_le _ _ _).subset changed
  refine ⟨finite.subset fun i ⟨key, moved⟩ same => moved (congrFun same key), ?_⟩
  obtain ⟨stable, rest⟩ := Potential.eventually_constant finite
  exact ⟨stable, fun i late key => congrFun (rest i late) key⟩

end Calls

end Runs

/-! ### Two nodes in turn -/

instance : DecidableEq FleeceStateManager := fun first second =>
  decidable_of_iff ((∀ i, first.fields i = second.fields i) ∧
    first.fieldCount = second.fieldCount ∧ first.localTimestamp = second.localTimestamp ∧
    first.nodeId = second.nodeId ∧ first.currentTick = second.currentTick ∧
    first.lastWriteTick = second.lastWriteTick ∧ ∀ i, first.peersSeen i = second.peersSeen i) (by
      cases first
      cases second
      simp only [FleeceStateManager.mk.injEq, funext_iff])

/-- The stores of two nodes, and the keys that their last calls have returned. -/
structure Duel where
  store : Bool → FleeceStateManager
  key : Bool → FieldName

instance : DecidableEq Duel := fun first second =>
  decidable_of_iff ((∀ node, first.store node = second.store node) ∧
    ∀ node, first.key node = second.key node) (by
      cases first
      cases second
      simp only [Duel.mk.injEq, funext_iff])

namespace Duel

/-- The node `false` has received the shared fields of the other one. -/
def start (first second : FleeceStateManager) : Duel where
  store node := bif node then second else (first.importFrom second.exportShared).manager
  key _ := .empty

variable (host : ScriptHost ℚ) (auction : Bool → Auction ℚ)

/-- The call that a node makes next. -/
def result (duel : Duel) (node : Bool) : FleeceStateManager × Int × FieldName :=
  (duel.store node).claimBestGoal host (auction node) (duel.key node).toCString

/-- A node calls, and the other one receives its shared fields. -/
def call (duel : Duel) (node : Bool) : Duel where
  store other :=
    if other = node then (duel.result host auction node).1
    else ((duel.store other).importFrom (duel.result host auction node).1.exportShared).manager
  key other := if other = node then (duel.result host auction node).2.2 else duel.key other

/-- The node `false` begins. -/
def caller (i : ℕ) : Bool := decide (i % 2 = 1)

/-- The duel before a call with a number. -/
def before (duel : Duel) : ℕ → Duel
  | 0 => duel
  | i + 1 => (duel.before i).call host auction (caller i)

/-- The calls of the duel. -/
def calls (duel : Duel) : Calls Bool where
  caller := caller
  auction i := auction (caller i)
  store i := (duel.before host auction i).store (caller i)

/-- The stores have the same live shared records. -/
def Synced (duel : Duel) : Prop := (duel.store false).liveShared = (duel.store true).liveShared

/-- Neither node changes anything any more. -/
def AtRest (duel : Duel) : Prop := ∀ node, duel.call host auction node = duel

variable {host auction} {duel : Duel}

theorem store_call_self (node : Bool) :
    (duel.call host auction node).store node = (duel.result host auction node).1 := if_pos rfl

theorem store_call_of_ne {node other : Bool} (apart : other ≠ node) :
    (duel.call host auction node).store other =
      ((duel.store other).importFrom (duel.result host auction node).1.exportShared).manager :=
  if_neg apart

theorem key_call_self (node : Bool) :
    (duel.call host auction node).key node = (duel.result host auction node).2.2 := if_pos rfl

theorem key_call_of_ne {node other : Bool} (apart : other ≠ node) :
    (duel.call host auction node).key other = duel.key other := if_neg apart

theorem caller_succ (i : ℕ) : caller (i + 1) = !caller i := by
  unfold caller
  rcases Nat.mod_two_eq_zero_or_one i with even | odd
  · rw [Nat.succ_mod_two_eq_one_iff.mpr even, even]
    rfl
  · rw [Nat.succ_mod_two_eq_zero_iff.mpr odd, odd]
    rfl

theorem before_of_rest {k : ℕ} (rest : (duel.before host auction k).AtRest host auction) (i : ℕ) :
    duel.before host auction (k + i) = duel.before host auction k := by
  induction i with
  | zero => rfl
  | succ i inductionHypothesis =>
    rw [← Nat.add_assoc, before, inductionHypothesis]
    exact rest _

/-- What holds before the calls up to the one after the duel came to rest holds before all. -/
theorem forall_of_rest {holds : Duel → Bool → Prop} {k : ℕ}
    (rest : (duel.before host auction k).AtRest host auction)
    (early : ∀ i ≤ k + 1, holds (duel.before host auction i) (caller i)) (i : ℕ) :
    holds (duel.before host auction i) (caller i) := by
  rcases Nat.lt_or_ge i k with soon | late
  · exact early i (by omega)
  · obtain ⟨j, rfl⟩ := Nat.exists_eq_add_of_le late
    have first := early k (Nat.le_succ k)
    have second := early (k + 1) le_rfl
    rw [before_of_rest rest 1, caller_succ] at second
    rw [before_of_rest rest j]
    rcases Bool.eq_or_eq_not (caller (k + j)) (caller k) with same | other
    · rw [same]
      exact first
    · rw [other]
      exact second

theorem current_calls (fresh : duel.key = fun _ => .empty) (i : ℕ) (node : Bool) :
    (duel.calls host auction).current host i node = (duel.before host auction i).key node := by
  induction i with
  | zero => exact (congrFun fresh node).symm
  | succ i inductionHypothesis =>
    rw [Calls.current, inductionHypothesis]
    by_cases calling : node = caller i
    · subst calling
      exact (if_pos rfl).trans (key_call_self (caller i)).symm
    · exact (if_neg calling).trans (key_call_of_ne calling).symm

/-- A call leaves what its node has before the next. -/
theorem left_calls (fresh : duel.key = fun _ => .empty) (i : ℕ) :
    (duel.calls host auction).left host i =
      (duel.before host auction (i + 1)).store (caller i) := by
  rw [Calls.left, current_calls fresh]
  exact (store_call_self (caller i)).symm

theorem exists_start (host : ScriptHost ℚ) (first created : FleeceStateManager)
    (operations : List Operation) (node : Bool) :
    ∃ events, (start first (created.after operations)).store node =
      runFrom (Mesh.step host) (bif node then created else first) events := by
  cases node with
  | false =>
    exact ⟨[.operation (.importFrom (created.after operations).exportShared)],
      (next_importFrom first _).symm⟩
  | true =>
    refine ⟨operations.map .operation, ?_⟩
    rw [runFrom, List.foldl_map]
    rfl

theorem reached {created : Bool → FleeceStateManager}
    (start : ∀ node, ∃ events, duel.store node = runFrom (Mesh.step host) (created node) events)
    (i : ℕ) (node : Bool) : ∃ events, (duel.before host auction i).store node =
      runFrom (Mesh.step host) (created node) events := by
  induction i with
  | zero => exact start node
  | succ i inductionHypothesis =>
    obtain ⟨events, ends⟩ := inductionHypothesis
    by_cases calling : node = caller i
    · subst calling
      refine ⟨events ++ [.claim (auction (caller i))
        ((duel.before host auction i).key (caller i)).toCString], ?_⟩
      rw [runFrom_append, ← ends, before, store_call_self]
      rfl
    · refine ⟨events ++ [.operation (.importFrom
        ((duel.before host auction i).result host auction (caller i)).1.exportShared)], ?_⟩
      rw [runFrom_append, ← ends, before, store_call_of_ne calling]
      exact (next_importFrom _ _).symm

/-- A duel that comes to rest in step is a run of the auction. -/
theorem takeTurns {ids : Bool → UInt64} {created : Bool → FleeceStateManager}
    {goals : Finset FieldName} {score : Bool → CString → ℚ} {poolPrefix : CString} {k : ℕ}
    (distinct : Function.Injective ids)
    (made : ∀ node, createWithNodeId (ids node) = some (created node))
    (start : ∀ node, ∃ events, duel.store node = runFrom (Mesh.step host) (created node) events)
    (fresh : duel.key = fun _ => .empty)
    (rest : (duel.before host auction k).AtRest host auction)
    (synced : ∀ i < k, (duel.before host auction (i + 1)).Synced)
    (pool : ∀ node, (auction node).poolPrefix = poolPrefix)
    (margin : ∀ node, 0 ≤ (auction node).contestMargin)
    (scorer : ∀ node, ∃ scores, (auction node).scoreGoal = some scores ∧
      ∀ index, ∀ key ∈ goals, ∀ data,
        scores index key.toCString data = some (score node key.toCString))
    (live : ∀ i ≤ k + 1, ((duel.before host auction i).store (caller i)).ticksSinceSeen
      (ids !caller i) ≤ (auction (caller i)).peerTtlTicks)
    (listed : ∀ key record, (duel.store false).liveShared key = some record →
      isConsidered poolPrefix none record.name = true → record.name ∈ goals)
    (apart : ∀ goal ∈ goals, ∀ other ∈ goals,
      claimKey goal.toCString = claimKey other.toCString → goal = other)
    (clear : ∀ goal ∈ goals, ∀ other ∈ goals, hashName goal.toCString ≠ claimKey other.toCString)
    (unclaimed : ∀ goal ∈ goals, (duel.store false).liveShared (claimKey goal.toCString) = none)
    (later : 0 < k) : (duel.calls host auction).TakeTurns host ids goals score poolPrefix where
  distinct := distinct
  reached i := by
    obtain ⟨events, ends⟩ := reached start i (caller i)
    exact ⟨created (caller i), events, made (caller i), ends⟩
  shared i := by
    have same : (duel.before host auction (i + 1)).Synced := by
      rcases Nat.lt_or_ge i k with soon | late
      · exact synced i soon
      · obtain ⟨j, rfl⟩ := Nat.exists_eq_add_of_le late
        rw [Nat.add_assoc, before_of_rest rest]
        obtain ⟨last, rfl⟩ := Nat.exists_eq_add_of_lt later
        exact synced _ (by omega)
    rw [left_calls fresh]
    show ((duel.before host auction (i + 1)).store (caller (i + 1))).liveShared = _
    rw [caller_succ]
    cases caller i
    · exact same.symm
    · exact same
  pool i := pool (caller i)
  margin i := margin (caller i)
  scorer i := scorer (caller i)
  live i node other := by
    have calling : node = !caller i := Bool.eq_not.mpr other
    rw [calling]
    exact @forall_of_rest host auction duel (fun reached node =>
      (reached.store node).ticksSinceSeen (ids !node) ≤ (auction node).peerTtlTicks) k rest live i
  listed := listed
  apart := apart
  clear := clear
  unclaimed := unclaimed

end Duel

/-- Records that are found alike by the keys of their slots are found alike by every key. -/
theorem liveShared_eq_of_slots {first second : FleeceStateManager}
    (firstSlots : ∀ i, (first.fields i).slotExists = true →
      second.liveShared (first.fields i).key = first.liveShared (first.fields i).key)
    (secondSlots : ∀ i, (second.fields i).slotExists = true →
      second.liveShared (second.fields i).key = first.liveShared (second.fields i).key) :
    first.liveShared = second.liveShared := by
  funext key
  refine Option.ext fun record => ⟨fun live => ?_, fun live => ?_⟩
  · obtain ⟨_, i, _, present, rfl, _⟩ := exists_of_liveShared live
    rw [firstSlots i present, live]
  · obtain ⟨_, i, _, present, rfl, _⟩ := exists_of_liveShared live
    rw [← secondSlots i present, live]

theorem listed_of_slots {manager : FleeceStateManager} {goals : Finset FieldName}
    (slots : ∀ i, (manager.fields i).slotExists = true → (manager.fields i).name ∈ goals)
    (key : UInt32) (record : GossipRecord) (live : manager.liveShared key = some record) :
    record.name ∈ goals := by
  obtain ⟨_, i, rfl, present, _⟩ := exists_of_liveShared live
  exact slots i present

/-- Node 7 scores the goals with 5 and 3, and node 9 with 8 and 1. Node 7 claims the first goal,
node 9 evicts it, and node 7 moves to the second one. -/
theorem auction_terminates_two_nodes :
    let first : FieldName := ⟨⟨[0x67, 0x31], by decide⟩, by decide⟩
    let second : FieldName := ⟨⟨[0x67, 0x32], by decide⟩, by decide⟩
    let score (node : Bool) (key : CString) : ℚ :=
      if key = first.toCString then (if node then 8 else 5) else if node then 1 else 3
    let auction (node : Bool) : Auction ℚ :=
      ⟨⟨[0x67], by decide⟩, 1, false, 100, some fun _ key _ => some (score node key)⟩
    let goals := [Operation.write (.setShared first.toCString ⟨[0x31], by decide⟩),
      .write (.setShared second.toCString ⟨[0x31], by decide⟩)]
    let duel : Duel := .start (blank 7) ((blank 9).after goals)
    let calls := duel.calls exactHost auction
    let claim (i : ℕ) (goal : FieldName) := ((calls.store i).readClaim exactHost goal.toCString).1
    claim 1 first = some (7, 5) ∧ claim 2 first = some (9, 8) ∧ claim 3 second = some (7, 3) ∧
      {i | ∃ key, ((calls.store (i + 1)).readClaim exactHost key).1 ≠
        ((calls.store i).readClaim exactHost key).1}.Finite ∧
      ∃ stable, ∀ i, stable ≤ i → ∀ key, ((calls.store i).readClaim exactHost key).1 =
        ((calls.store stable).readClaim exactHost key).1 := by
  intro first second score auction goals duel calls claim
  have rest : (duel.before exactHost auction 3).AtRest exactHost auction := by
    unfold Duel.AtRest
    decide +kernel
  have synced : ∀ i < 3, (duel.before exactHost auction (i + 1)).Synced := by
    intro i early
    refine liveShared_eq_of_slots ?_ ?_ <;> revert i <;> decide +kernel
  have slots : ∀ i : Fin fieldCapacity, ((duel.store false).fields i).slotExists = true →
      ((duel.store false).fields i).name ∈ ({first, second} : Finset FieldName) := by
    decide +kernel
  have turns : calls.TakeTurns exactHost (fun node => if node then 9 else 7) {first, second} score
      ⟨[0x67], by decide⟩ := by
    refine Duel.takeTurns (by decide) (fun node => ?_)
      (Duel.exists_start exactHost (blank 7) (blank 9) goals) rfl rest synced (fun _ => rfl)
      (fun _ => zero_le_one) (fun node => ⟨_, rfl, fun _ _ _ _ => rfl⟩) (by decide +kernel)
      (fun key record live _ => listed_of_slots slots key record live) (by decide +kernel)
      (by decide +kernel) (by decide +kernel) (by decide)
    cases node <;> rfl
  exact ⟨by decide +kernel, by decide +kernel, by decide +kernel,
    Calls.auction_terminates turns exactHost_readsBack⟩

end Fleece
