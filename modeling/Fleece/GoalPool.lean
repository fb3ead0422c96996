/-
This file models the goal pool of a brain: `goal_pool_tick` of `fleece_goap_js.c`, which
reads the key it holds out of a field of its own, bids for the pool, publishes what it
got in that field and hands it to the action library, and the configuration of the pool.

Between two ticks anything else may happen to the store. The events of a run are those
of one thing that is held and given up: a claim comes only when nothing is held, and a
loss, a completion or a release names what is held. As long as the field is left alone
the key that a tick logs is the one that the next tick bids with.
-/

import Fleece.ActionLibrary
import Fleece.Claims
import Fleece.ExactScores
import Fleece.Untouched

namespace Fleece

/-- `FLEECE_GOAL_POOL_REASSERT_EVERY_TICKS`. -/
abbrev goalPoolReassertEveryTicks : UInt32 := 30

/-- The byte `"`. -/
abbrev quoteByte : UInt8 := 0x22

/-- `snprintf(json_val, FLEECE_FIELD_NAME_MAX + 4, "\"%s\"", claimed)`, which always fits. -/
def quotedKey (key : FieldName) : Blob where
  bytes := quoteByte :: key.chars ++ [quoteByte]
  sizeLt := by
    have short : key.chars.length < 64 := key.lengthLt
    rw [List.length_append, List.length_cons, List.length_singleton]
    omega

/-- The quotes around a text of at least two bytes, if it starts and ends with one, are taken
off. -/
def stripQuotes (bytes : List UInt8) : List UInt8 :=
  if bytes.length ≥ 2 ∧ bytes.head? = some quoteByte ∧ bytes.getLast? = some quoteByte then
    bytes.tail.dropLast
  else bytes

/-- The string in a `char out[FLEECE_FIELD_NAME_MAX]` that some bytes are copied to. -/
def copiedKey (bytes : List UInt8) : FieldName where
  chars := (bytes.take (fieldNameMax - 1)).takeWhile fun byte => byte != 0
  noNul member := by
    have kept := List.mem_takeWhile_imp member
    exact absurd rfl (bne_iff_ne.mp kept)
  lengthLt := by
    refine Nat.lt_of_le_of_lt (List.takeWhile_sublist _).length_le ?_
    rw [List.length_take]
    exact Nat.lt_of_le_of_lt (Nat.min_le_left _ _) (by decide)

/-- `goal_pool_read_current`. -/
def FleeceStateManager.goalPoolReadCurrent (manager : FleeceStateManager) (field : FieldName) :
    FieldName :=
  match manager.getNamed manager.nodeId field.toCString with
  | none => .empty
  | some data => copiedKey (stripQuotes data.bytes)

/-- The fields of a brain that are about its goal pool. -/
structure BrainGoalPool (Score : Type) where
  goalPrefix : FieldName
  keyField : FieldName
  contestMargin : Score
  lastLogged : FieldName

/-- `fleece_goap_brain_set_goal_pool`: without a prefix or a field the pool is off, and the rest
stays. -/
def BrainGoalPool.setGoalPool {Score : Type} (pool : BrainGoalPool Score)
    (goalPrefix currentKeyField : Option CString) (contestMargin : Score) : BrainGoalPool Score :=
  match goalPrefix, currentKeyField with
  | some goalPrefix, some field =>
    if goalPrefix.chars = [] ∨ field.chars = [] then { pool with goalPrefix := .empty }
    else
      { pool with
        goalPrefix := .copy goalPrefix, keyField := .copy field, contestMargin := contestMargin }
  | _, _ => { pool with goalPrefix := .empty }

/-- What the script and the embedding come to in one tick: the time to live of a peer, the global
`scoreGoal`, the action library and the calls of its functions. -/
structure PoolScripts (Score Value : Type) where
  peerTtlTicks : UInt64
  scoreGoal : Option (ScoreCalls Score)
  library : ActionLibrary Value
  script : LibraryScript Value

section Tick

variable {Score Value Cost : Type} [Add Score] [LT Score] [DecidableLT Score] [BEq Score]
  [Neg Score] [Zero Score] [OfScientific Score] (host : ScriptHost Score)
  (engine : ScriptEngine Value Cost)

namespace BrainGoalPool

/-- The bid of a tick, for the key that is read from the field. -/
def claimed (pool : BrainGoalPool Score) (tickCount : UInt32) (scripts : PoolScripts Score Value)
    (manager : FleeceStateManager) : FleeceStateManager × FieldName :=
  let result := manager.claimBestGoal host
    { poolPrefix := pool.goalPrefix.toCString
      contestMargin := pool.contestMargin
      allowReassert := tickCount % goalPoolReassertEveryTicks == 0
      peerTtlTicks := scripts.peerTtlTicks
      scoreGoal := scripts.scoreGoal }
    (manager.goalPoolReadCurrent pool.keyField).toCString
  (result.1, result.2.2)

/-- The key under the field, and what the action library starts from. -/
def libraryTick (pool : BrainGoalPool Score) (tickCount : UInt32)
    (scripts : PoolScripts Score Value) (manager : FleeceStateManager) : LibraryTick Value :=
  let claimed := pool.claimed host tickCount scripts manager
  { manager := (claimed.1.setNamed pool.keyField.toCString (quotedKey claimed.2)).1
    library := scripts.library
    keyField := pool.keyField
    lastLogged := pool.lastLogged
    tickCount := tickCount
    script := scripts.script
    current := claimed.2 }

/-- `goal_pool_tick`. -/
def goalPoolTick (pool : BrainGoalPool Score) (tickCount : UInt32)
    (scripts : PoolScripts Score Value) (manager : FleeceStateManager) : LibraryTicked :=
  if pool.goalPrefix.chars = [] then ⟨manager, pool.lastLogged, []⟩
  else (pool.libraryTick host tickCount scripts manager).run engine

end BrainGoalPool

/-! ### Runs -/

/-- The store, the pool of the brain and its tick count, and the events so far. -/
structure PoolState (Score : Type) where
  manager : FleeceStateManager
  pool : BrainGoalPool Score
  tickCount : UInt32
  events : List (FleeceGoalPoolTransitionKind × FieldName)

/-- A tick of the brain, anything that happens to the store between two ticks, and a change of the
configuration. -/
inductive PoolAct (Score Value : Type) where
  | tick (scripts : PoolScripts Score Value)
  | store (operation : Operation)
  | setGoalPool (goalPrefix currentKeyField : Option CString) (contestMargin : Score)

namespace PoolState

/-- What an act does: a tick of the pool, an operation on the store, or a new configuration. -/
def step (state : PoolState Score) : PoolAct Score Value → PoolState Score
  | .tick scripts =>
    let ticked := state.pool.goalPoolTick host engine (state.tickCount + 1) scripts state.manager
    { manager := ticked.manager
      pool := { state.pool with lastLogged := ticked.lastLogged }
      tickCount := state.tickCount + 1
      events := state.events ++ ticked.events }
  | .store operation => { state with manager := operation.next state.manager }
  | .setGoalPool goalPrefix field margin =>
    { state with pool := state.pool.setGoalPool goalPrefix field margin }

/-- The pool of a brain that `fleece_goap_brain_create` has zeroed, over some store. -/
def start (manager : FleeceStateManager) : PoolState Score :=
  ⟨manager, ⟨.empty, .empty, 0, .empty⟩, 0, []⟩

end PoolState

end Tick

/-! ### What the events say -/

/-- What an event makes of the key that is held, if it can happen there: a claim needs free hands,
and every other event gives up the key it names. -/
def followEvent (held : FieldName) :
    FleeceGoalPoolTransitionKind × FieldName → Option FieldName
  | (.claim, key) => if held.chars = [] ∧ key.chars ≠ [] then some key else none
  | (_, key) => if key = held ∧ key.chars ≠ [] then some .empty else none

/-- The key that is held after some events. -/
def replayEvents (held : FieldName) (events : List (FleeceGoalPoolTransitionKind × FieldName)) :
    Option FieldName :=
  events.foldlM followEvent held

theorem replayEvents_append (held : FieldName)
    (events more : List (FleeceGoalPoolTransitionKind × FieldName)) :
    replayEvents held (events ++ more) =
      (replayEvents held events).bind fun next => replayEvents next more :=
  List.foldlM_append

theorem FieldName.eq_empty {key : FieldName} (blank : key.chars = []) : key = .empty := by
  obtain ⟨⟨chars, _⟩, _⟩ := key
  obtain rfl : chars = [] := blank
  rfl

theorem replayEvents_singleton (held : FieldName)
    (event : FleeceGoalPoolTransitionKind × FieldName) :
    replayEvents held [event] = followEvent held event :=
  Option.bind_fun_some (followEvent held event)

theorem replayEvents_claim {held key : FieldName} (free : held.chars = [])
    (named : key.chars ≠ []) :
    replayEvents held [(.claim, key)] = some key :=
  (replayEvents_singleton held _).trans (if_pos ⟨free, named⟩)

/-- An event that gives a key up. -/
theorem replayEvents_release {kind : FleeceGoalPoolTransitionKind} {key : FieldName}
    (gives : kind ≠ .claim) (named : key.chars ≠ []) :
    replayEvents key [(kind, key)] = some .empty := by
  rw [replayEvents_singleton]
  cases kind with
  | claim => exact absurd rfl gives
  | lost => exact if_pos ⟨rfl, named⟩
  | blocked => exact if_pos ⟨rfl, named⟩
  | done => exact if_pos ⟨rfl, named⟩

namespace LibraryTick

variable {Value Cost : Type} (engine : ScriptEngine Value Cost) (tick : LibraryTick Value)

/-- The transition events take the brain from the key it logged last to the key it holds. -/
theorem replay_transitions : replayEvents tick.lastLogged tick.transitions = some tick.current := by
  unfold transitions
  split_ifs with same noLoss noClaim noClaim
  · rw [same]
    rfl
  · exact absurd ((FieldName.eq_empty noClaim).trans (FieldName.eq_empty noLoss).symm) same
  · exact replayEvents_claim noLoss noClaim
  · have lost : FleeceGoalPoolTransitionKind.lost ≠ .claim := nofun
    rw [List.append_nil, replayEvents_release lost noLoss, FieldName.eq_empty noClaim]
  · have lost : FleeceGoalPoolTransitionKind.lost ≠ .claim := nofun
    rw [replayEvents_append, replayEvents_release lost noLoss]
    exact replayEvents_claim rfl noClaim

/-- What is dispatched but nothing is for a key. -/
theorem dispatch_cases : (∃ manager, tick.dispatch engine = .nothing manager) ∨
    tick.current.chars ≠ [] := by
  by_cases idle : tick.current.chars = [] ∨ tick.library.preFns = []
  · exact Or.inl ⟨tick.manager, if_pos idle⟩
  · exact Or.inr (not_or.mp idle).1

/-- The events of a tick take the brain from the key it logged before to the one it logs now. -/
theorem replay_run :
    replayEvents tick.lastLogged (tick.run engine).events = some (tick.run engine).lastLogged := by
  have moved := tick.replay_transitions
  have release {kind : FleeceGoalPoolTransitionKind} (gives : kind ≠ .claim)
      (named : tick.current.chars ≠ []) :
      replayEvents tick.lastLogged (tick.transitions ++ [(kind, tick.current)]) = some .empty := by
    rw [replayEvents_append, moved]
    exact replayEvents_release gives named
  have named := tick.dispatch_cases engine
  unfold run
  cases found : tick.dispatch engine with
  | nothing manager => exact moved
  | exec idx bb state => exact moved
  | done manager =>
    rw [found] at named
    exact release nofun (named.resolve_left nofun)
  | blocked orig sim manager =>
    rw [found] at named
    exact release nofun (named.resolve_left nofun)

end LibraryTick

/-! ### What leaves the field of the held key alone -/

namespace FleeceStateManager

variable {pair : UInt32 × UInt64} {manager : FleeceStateManager}

/-- A shared write leaves the fields of the node itself alone. -/
theorem Untouched.sharedWrite (packed : manager.PackedInvariant) (own : pair.2 = manager.nodeId)
    {change : LocalWrite} (shared : (change.target manager.nodeId).2 = sharedOwnerId) :
    manager.Untouched pair (change.exec manager).1 := by
  have elsewhere : pair ≠ change.target manager.nodeId := by
    rintro rfl
    exact packed.store.realNode (own.symm.trans shared)
  have leaves : LeavesAlone manager.nodeId pair (.write change) := ⟨nofun, elsewhere⟩
  exact Untouched.operation packed leaves

section Auction

variable {Score : Type} [Add Score] [LT Score] [DecidableLT Score] [BEq Score] [Neg Score]
  [Zero Score] [OfScientific Score] (host : ScriptHost Score)

omit [Add Score] [LT Score] [DecidableLT Score] [BEq Score] [Neg Score] [Zero Score]
  [OfScientific Score] in
theorem casClaim_untouched (packed : manager.PackedInvariant) (own : pair.2 = manager.nodeId)
    (key : CString) (score : Score) (expected : Option Blob) :
    manager.Untouched pair (manager.casClaim host key manager.nodeId score expected).1 := by
  unfold casClaim
  split_ifs with fits
  · exact Untouched.sharedWrite packed own (show (LocalWrite.target manager.nodeId
      (.setSharedCas (claimName key) (expected.filter fun raw => decide (0 < raw.size))
        ⟨claimText host manager.nodeId score, fits.trans (by decide)⟩)).2 = sharedOwnerId from rfl)
  · exact .refl packed

theorem removeShared_untouched (packed : manager.PackedInvariant) (own : pair.2 = manager.nodeId)
    (name : CString) : manager.Untouched pair (manager.removeShared name).1 := by
  have shape : manager.removeShared name = LocalWrite.exec manager (.removeShared name) := rfl
  rw [shape]
  exact Untouched.sharedWrite packed own rfl

omit [Add Score] [LT Score] [DecidableLT Score] [BEq Score] [Neg Score] [Zero Score]
  [OfScientific Score] in
theorem releaseHeld_untouched (packed : manager.PackedInvariant) (own : pair.2 = manager.nodeId)
    (held : Option (CString × Score)) : manager.Untouched pair (manager.releaseHeld held) := by
  unfold releaseHeld
  cases held with
  | none => exact .refl packed
  | some goal => exact removeShared_untouched packed own (claimName goal.1)

/-- The auction writes claims and nothing else. -/
theorem claimBestGoal_untouched (packed : manager.PackedInvariant) (own : pair.2 = manager.nodeId)
    (auction : Auction Score) (currentKey : CString) :
    manager.Untouched pair (manager.claimBestGoal host auction currentKey).1 := by
  unfold claimBestGoal
  cases auction.scoreGoal with
  | none => exact .refl packed
  | some calls =>
    simp only
    generalize manager.heldGoal host calls (passedKey currentKey) = held
    unfold settle
    split
    · rename_i bid _
      have claimed := casClaim_untouched host packed own bid.key.toCString bid.score bid.expected
      simp only
      split_ifs
      · exact claimed.trans
          (releaseHeld_untouched claimed.packed (own.trans claimed.node.symm) held)
      · exact claimed
    · unfold reassert
      cases held with
      | none => exact .refl packed
      | some goal =>
        simp only
        split_ifs
        · split
          · exact .refl packed
          · exact casClaim_untouched host packed own _ _ _
        · exact .refl packed

end Auction

theorem goalPoolSpawnPrerequisite_untouched (packed : manager.PackedInvariant)
    (own : pair.2 = manager.nodeId) (selfId : UInt64) (orig sim : FleeceGoapBlackboard) :
    manager.Untouched pair (manager.goalPoolSpawnPrerequisite selfId orig sim) := by
  unfold goalPoolSpawnPrerequisite
  split_ifs with long known failed fits
  · exact .refl packed
  · exact .refl packed
  · exact .refl packed
  · have shape (name : CString) (data : Blob) :
        manager.setShared name data = LocalWrite.exec manager (.setShared name data) := rfl
    rw [shape]
    exact Untouched.sharedWrite packed own rfl
  · exact .refl packed

/-- A value that is stored under a name of the node is read there, and a further write of that name
finds its slot. -/
theorem setNamed_publishes (packed : manager.PackedInvariant) {name : CString} {data : Blob}
    (nonempty : data.size ≠ 0) {next : FleeceStateManager} {code : Int}
    (written : manager.setNamed name data = (next, code))
    (accepted : code = 0 ∨ name.chars ≠ [] ∧ manager.view (hashName name, manager.nodeId) ≠ none) :
    next.PackedInvariant ∧ next.nodeId = manager.nodeId ∧
      next.getNamed next.nodeId name = some data ∧ name.chars ≠ [] ∧
        next.view (hashName name, next.nodeId) ≠ none := by
  have stays : Operation.write (.setNamed name data) ≠ .compact := nofun
  have kept : (LocalWrite.exec manager (.setNamed name data)).1.PackedInvariant :=
    packed.operation stays
  have outcome := exec_outcome manager (.setNamed name data)
  have shape : LocalWrite.exec manager (.setNamed name data) = manager.setNamed name data := rfl
  have small : (data.size == 0) = false := beq_eq_false_iff_ne.mpr nonempty
  rw [shape, written] at kept outcome
  simp only [LocalWrite.request, LocalWrite.request.put, small, Bool.or_false] at outcome
  cases outcome with
  | refused code denied =>
    split_ifs at denied with blank
    rcases accepted with success | ⟨named, _⟩
    · exact absurd ((Except.error.inj denied).trans success) (by decide)
    · exact absurd (List.isEmpty_iff.mp blank) named
  | noSlot next pair record asked absent full fields count node peers tick clock =>
    split_ifs at asked
    obtain ⟨rfl, -⟩ := Prod.mk.inj (Except.ok.inj asked)
    rcases accepted with success | ⟨_, held⟩
    · exact absurd success (by decide)
    · exact absurd absent held
  | wrote next f asked stored node peers tick clock =>
    split_ifs at asked with named
    obtain ⟨label, record⟩ := Prod.mk.inj (Except.ok.inj asked)
    have view := congrFun (view_stored stored packed) (hashName name, manager.nodeId)
    rw [← label, Function.update_self, ← record] at view
    refine ⟨kept, node, ?_, fun blank => named (List.isEmpty_iff.mpr blank), ?_⟩
    · rw [getNamed_eq, node, liveView, view]
      rfl
    · rw [node, view]
      exact Option.some_ne_none _

end FleeceStateManager

/-! ### The calls of a tick -/

/-- The functions of a script leave the record of a pair alone. -/
structure LibraryScript.LeavesAlone {Value : Type} (script : LibraryScript Value) (nodeId : UInt64)
    (pair : UInt32 × UInt64) : Prop where
  call : ∀ calls fn bbjs, ∀ operation ∈ (script.call calls fn bbjs).2,
    FleeceStateManager.LeavesAlone nodeId pair operation
  callExec : ∀ calls fn bbjs tick, ∀ operation ∈ (script.callExec calls fn bbjs tick).2,
    FleeceStateManager.LeavesAlone nodeId pair operation

namespace LibraryScript

variable {Value Cost : Type} {script : LibraryScript Value} (engine : ScriptEngine Value Cost)
  {origin : FleeceStateManager} {pair : UInt32 × UInt64}
  (leaves : script.LeavesAlone origin.nodeId pair) {state : ScriptState}
  (reached : origin.Untouched pair state.manager)

include leaves reached

theorem callFn_untouched (fn bbjs : Value) :
    origin.Untouched pair (script.callFn fn bbjs state).2.manager := by
  refine reached.trans (FleeceStateManager.Untouched.after reached.packed ?_)
  rw [reached.node]
  exact leaves.call state.calls fn bbjs

theorem jsCallGoalSatisfied_untouched (bb : FleeceGoapBlackboard) :
    origin.Untouched pair (script.jsCallGoalSatisfied engine bb state).2.manager := by
  unfold jsCallGoalSatisfied
  simp only
  split_ifs
  · exact callFn_untouched leaves reached _ _
  · exact reached

theorem actionCallBool_untouched (fn : Value) (bb : FleeceGoapBlackboard) :
    origin.Untouched pair (script.actionCallBool engine fn bb state).2.manager := by
  unfold actionCallBool
  split_ifs
  · exact reached
  · exact callFn_untouched leaves reached _ _

theorem findApplicable_untouched (bb : FleeceGoapBlackboard) (i : Nat) (fns : List Value) :
    origin.Untouched pair (script.findApplicable engine bb i fns state).2.manager := by
  induction fns generalizing i state with
  | nil => exact reached
  | cons fn rest inductionHypothesis =>
    have called := actionCallBool_untouched engine leaves reached fn bb
    rw [findApplicable]
    split_ifs
    · exact called
    · exact inductionHypothesis called (i + 1)

theorem actionCallEff_untouched (fn : Value) (bb : FleeceGoapBlackboard) :
    origin.Untouched pair (script.actionCallEff engine fn bb state).2.manager := by
  have called := callFn_untouched leaves reached fn (engine.goapBbToJs bb)
  unfold actionCallEff
  split_ifs
  · exact reached
  · simp only
    split
    · exact called
    · exact called

theorem findProvider_untouched (preFns : List Value) (bb : FleeceGoapBlackboard) (haveRtOrig : Bool)
    (fns : List Value) :
    origin.Untouched pair
      (script.findProvider engine preFns bb haveRtOrig fns state).2.manager := by
  induction fns generalizing state with
  | nil => exact reached
  | cons fn rest inductionHypothesis =>
    have simulated := actionCallEff_untouched engine leaves reached fn bb
    rw [findProvider]
    simp only
    generalize script.actionCallEff engine fn bb state = effect at simulated ⊢
    obtain ⟨found, next⟩ := effect
    cases found with
    | none => exact inductionHypothesis simulated
    | some sim =>
      have satisfied := jsCallGoalSatisfied_untouched engine leaves simulated sim
      have applicable := findApplicable_untouched engine leaves satisfied sim 0 preFns
      simp only
      split_ifs
      · exact satisfied
      · exact inductionHypothesis satisfied
      · exact applicable
      · exact inductionHypothesis applicable

end LibraryScript

/-- The store when a tick knows what to do. -/
def Dispatch.manager : Dispatch → FleeceStateManager
  | .nothing manager => manager
  | .done manager => manager
  | .exec _ _ state => state.manager
  | .blocked _ _ manager => manager

namespace LibraryTick

variable {Value Cost : Type} (engine : ScriptEngine Value Cost) {tick : LibraryTick Value}
  {pair : UInt32 × UInt64}

theorem dispatch_untouched (leaves : tick.script.LeavesAlone tick.manager.nodeId pair)
    (packed : tick.manager.PackedInvariant) :
    tick.manager.Untouched pair (tick.dispatch engine).manager := by
  have reached : tick.manager.Untouched pair (ScriptState.mk 0 tick.manager).manager := .refl packed
  unfold dispatch
  split_ifs
  · exact reached
  · simp only
    split_ifs
    · exact reached
    · exact LibraryScript.jsCallGoalSatisfied_untouched engine leaves reached _
    · have satisfied := LibraryScript.jsCallGoalSatisfied_untouched engine leaves reached
        (tick.manager.bbFromState .empty).1
      have applicable := LibraryScript.findApplicable_untouched engine leaves satisfied
        (tick.manager.bbFromState .empty).1 0 tick.library.preFns
      split
      · exact applicable
      · have provider := LibraryScript.findProvider_untouched engine leaves applicable
          tick.library.preFns (tick.manager.bbFromState .empty).1
          (engine.actionCallIdentity (tick.manager.bbFromState .empty).1).isSome tick.library.effFns
        split
        · exact provider
        · exact provider

end LibraryTick

/-! ### The field and the events -/

/-- What is published is read back. -/
theorem copiedKey_quotedKey (key : FieldName) :
    copiedKey (stripQuotes (quotedKey key).bytes) = key := by
  have stripped : stripQuotes (quotedKey key).bytes = key.chars := by
    have shape : (quotedKey key).bytes = quoteByte :: (key.chars ++ [quoteByte]) := rfl
    have quoted : (quotedKey key).bytes.length ≥ 2 ∧ (quotedKey key).bytes.head? = some quoteByte ∧
        (quotedKey key).bytes.getLast? = some quoteByte := by
      refine ⟨?_, rfl, ?_⟩
      · rw [shape, List.length_cons, List.length_append, List.length_singleton]
        omega
      · rw [shape, ← List.cons_append, List.getLast?_concat]
    rw [stripQuotes, if_pos quoted, shape, List.tail_cons, List.dropLast_concat]
  have short : key.chars.length ≤ fieldNameMax - 1 := Nat.le_sub_one_of_lt key.lengthLt
  have whole : (copiedKey key.chars).chars = key.chars := by
    show (key.chars.take (fieldNameMax - 1)).takeWhile (fun byte => byte != 0) = key.chars
    rw [List.take_of_length_le short, List.takeWhile_eq_self_iff]
    intro byte member
    exact bne_iff_ne.mpr fun zero => key.noNul (zero ▸ member)
  rw [stripped]
  obtain ⟨⟨chars, noNul⟩, short⟩ := key
  generalize copiedKey chars = copied at whole
  obtain ⟨⟨others, _⟩, _⟩ := copied
  obtain rfl : others = chars := whole
  rfl

theorem goalPoolReadCurrent_congr {manager next : FleeceStateManager} {field : FieldName}
    (same : next.getNamed next.nodeId field.toCString =
      manager.getNamed manager.nodeId field.toCString) :
    next.goalPoolReadCurrent field = manager.goalPoolReadCurrent field := by
  unfold FleeceStateManager.goalPoolReadCurrent
  rw [same]

theorem goalPoolReadCurrent_of_getNamed {manager : FleeceStateManager} {field : FieldName}
    {data : Blob} (stored : manager.getNamed manager.nodeId field.toCString = some data) :
    manager.goalPoolReadCurrent field = copiedKey (stripQuotes data.bytes) := by
  unfold FleeceStateManager.goalPoolReadCurrent
  rw [stored]

namespace FleeceStateManager

variable {manager : FleeceStateManager}

theorem PackedInvariant.commitFields (packed : manager.PackedInvariant)
    (fields : List FleeceGoapField) : (manager.commitFields fields).1.PackedInvariant := by
  induction fields generalizing manager with
  | nil => exact packed
  | cons field rest inductionHypothesis =>
    have first := packed.commitField field
    rw [commitFields_cons]
    generalize manager.commitField field = result at first ⊢
    split_ifs
    · exact first
    · exact inductionHypothesis first

/-- The field of the held key has a slot and a name. -/
structure Publishes (manager : FleeceStateManager) (field : FieldName) : Prop where
  packed : manager.PackedInvariant
  named : field.chars ≠ []
  held : manager.view (hashName field.toCString, manager.nodeId) ≠ none

theorem Publishes.of_untouched {next : FleeceStateManager} {field : FieldName}
    (publishes : manager.Publishes field)
    (kept : manager.Untouched (hashName field.toCString, manager.nodeId) next) :
    next.Publishes field := by
  refine ⟨kept.packed, publishes.named, ?_⟩
  rw [kept.node, kept.view]
  exact publishes.held

end FleeceStateManager

namespace LibraryTick

variable {Value Cost : Type} {engine : ScriptEngine Value Cost} {tick : LibraryTick Value}

/-- The field of the held key, as a pair of the store. -/
def place (tick : LibraryTick Value) : UInt32 × UInt64 :=
  (hashName tick.keyField.toCString, tick.manager.nodeId)

/-- A cleared field is read as no key. -/
theorem clearKeyField_reads {manager : FleeceStateManager}
    (publishes : manager.Publishes tick.keyField) :
    (tick.clearKeyField manager).PackedInvariant ∧
      (tick.clearKeyField manager).nodeId = manager.nodeId ∧
        (tick.clearKeyField manager).goalPoolReadCurrent tick.keyField = .empty := by
  have filled : Blob.size ⟨[0x22, 0x22], by decide⟩ ≠ 0 := by decide
  obtain ⟨packed, node, stored, _⟩ := FleeceStateManager.setNamed_publishes publishes.packed
    filled Prod.mk.eta.symm (Or.inr ⟨publishes.named, publishes.held⟩)
  refine ⟨packed, node, (goalPoolReadCurrent_of_getNamed stored).trans ?_⟩
  rfl

/-- What the body of an action and the commit of its object leave alone. -/
def ExecLeavesField (engine : ScriptEngine Value Cost) (tick : LibraryTick Value) : Prop :=
  ∀ idx bb state, tick.dispatch engine = .exec idx bb state →
    (tick.runExec engine idx bb state).getNamed tick.manager.nodeId tick.keyField.toCString =
      state.manager.getNamed tick.manager.nodeId tick.keyField.toCString

/-- Actions without bodies leave the field alone. -/
theorem execLeavesField_of_noBody
    (noBody : ∀ fn ∈ tick.library.execFns, engine.isUndefined fn = true) :
    tick.ExecLeavesField engine := by
  intro idx bb state _
  have none : (tick.library.execFns[idx]?).filter (fun fn => !engine.isUndefined fn) = none := by
    refine Option.filter_eq_none_iff.mpr fun fn found => ?_
    rw [noBody fn (List.mem_of_getElem? found)]
    exact Bool.false_ne_true
  unfold runExec
  rw [none]

theorem runExec_packed (leaves : tick.script.LeavesAlone tick.manager.nodeId tick.place)
    {idx : Nat} {bb : FleeceGoapBlackboard} {state : ScriptState}
    (reached : tick.manager.Untouched tick.place state.manager) :
    (tick.runExec engine idx bb state).PackedInvariant ∧
      (tick.runExec engine idx bb state).nodeId = tick.manager.nodeId := by
  unfold runExec
  split
  · exact ⟨reached.packed, reached.node⟩
  · rename_i fn _
    have called : tick.manager.Untouched tick.place (state.manager.after
        (tick.script.callExec state.calls fn (engine.goapBbToJs bb)
          (toInt32 tick.tickCount)).2) := by
      refine reached.trans (FleeceStateManager.Untouched.after reached.packed ?_)
      rw [reached.node]
      exact leaves.callExec _ _ _ _
    simp only
    split
    · exact ⟨called.packed, called.node⟩
    · generalize engine.goapJsToBb _ .empty = read
      split_ifs
      · exact ⟨called.packed.commitFields _,
          (FleeceStateManager.node_commitFields _ _).trans called.node⟩
      · exact ⟨called.packed, called.node⟩

/-- After a tick that found its key published, the field names the key that the tick logged. -/
theorem run_reads (publishes : tick.manager.Publishes tick.keyField)
    (stored : tick.manager.getNamed tick.manager.nodeId tick.keyField.toCString =
      some (quotedKey tick.current))
    (leaves : tick.script.LeavesAlone tick.manager.nodeId tick.place)
    (exec : tick.ExecLeavesField engine) :
    (tick.run engine).manager.PackedInvariant ∧
      (tick.run engine).manager.nodeId = tick.manager.nodeId ∧
        (tick.run engine).manager.goalPoolReadCurrent tick.keyField =
          (tick.run engine).lastLogged := by
  have reached := dispatch_untouched engine leaves publishes.packed
  have cleared {manager : FleeceStateManager}
      (kept : tick.manager.Untouched tick.place manager) :=
    tick.clearKeyField_reads (publishes.of_untouched kept)
  unfold run
  cases found : tick.dispatch engine with
  | nothing manager =>
    rw [found] at reached
    simp only [Dispatch.manager] at reached
    refine ⟨reached.packed, reached.node, ?_⟩
    simp only
    rw [goalPoolReadCurrent_of_getNamed (reached.getNamed_own.trans stored), copiedKey_quotedKey]
  | done manager =>
    rw [found] at reached
    have first := reached.trans (FleeceStateManager.removeShared_untouched reached.packed
      reached.node.symm tick.current.toCString)
    have second := first.trans (FleeceStateManager.removeShared_untouched first.packed
      first.node.symm (claimName tick.current.toCString))
    obtain ⟨packed, node, reads⟩ := cleared second
    exact ⟨packed, node.trans second.node, reads⟩
  | exec idx bb state =>
    rw [found] at reached
    simp only [Dispatch.manager] at reached
    obtain ⟨packed, node⟩ := @runExec_packed _ _ engine tick leaves idx bb state reached
    have kept := exec idx bb state found
    have before := reached.getNamed_own.trans stored
    rw [reached.node, ← node] at before
    rw [← node] at kept
    refine ⟨packed, node, ?_⟩
    simp only
    rw [goalPoolReadCurrent_of_getNamed (kept.trans before), copiedKey_quotedKey]
  | blocked orig sim manager =>
    rw [found] at reached
    have first := reached.trans (FleeceStateManager.goalPoolSpawnPrerequisite_untouched
      reached.packed reached.node.symm tick.manager.nodeId orig sim)
    have second := first.trans (FleeceStateManager.removeShared_untouched first.packed
      first.node.symm (claimName tick.current.toCString))
    obtain ⟨packed, node, reads⟩ := cleared second
    exact ⟨packed, node.trans second.node, reads⟩

end LibraryTick

namespace PoolState

variable {Score Value Cost : Type} [Add Score] [LT Score] [DecidableLT Score] [BEq Score]
  [Neg Score] [Zero Score] [OfScientific Score] {host : ScriptHost Score}
  {engine : ScriptEngine Value Cost}

/-- The events of a step take the brain from the key it logged before to the one it logs now. -/
theorem replay_step (host : ScriptHost Score) (engine : ScriptEngine Value Cost)
    (state : PoolState Score) (act : PoolAct Score Value) :
    ∃ more, (state.step host engine act).events = state.events ++ more ∧
      replayEvents state.pool.lastLogged more =
        some (state.step host engine act).pool.lastLogged := by
  cases act with
  | tick scripts =>
    refine ⟨_, rfl, ?_⟩
    show replayEvents state.pool.lastLogged
        (state.pool.goalPoolTick host engine (state.tickCount + 1) scripts state.manager).events =
      some (state.pool.goalPoolTick host engine (state.tickCount + 1) scripts
        state.manager).lastLogged
    unfold BrainGoalPool.goalPoolTick
    split_ifs
    · rfl
    · exact LibraryTick.replay_run engine
        (state.pool.libraryTick host (state.tickCount + 1) scripts state.manager)
  | store operation => exact ⟨[], (List.append_nil _).symm, rfl⟩
  | setGoalPool goalPrefix field margin =>
    refine ⟨[], (List.append_nil _).symm, ?_⟩
    unfold step BrainGoalPool.setGoalPool
    simp only
    split
    · split_ifs <;> rfl
    · rfl

/-- The events of a brain are those of one thing that is held and given up. In every run a claim
comes when nothing is held, a loss, a completion or a release names the key that was claimed last
and not given up since, and the key that the brain logs is the one that is held then. -/
theorem events_follow_one_key (manager : FleeceStateManager) (acts : List (PoolAct Score Value)) :
    replayEvents .empty (runFrom (step host engine) (start manager) acts).events =
      some (runFrom (step host engine) (start manager) acts).pool.lastLogged := by
  have along : Along (step host engine) (fun _ _ => True) (start manager) acts :=
    Along.of_forall fun _ _ => trivial
  have keeps (state : PoolState Score) (act : PoolAct Score Value)
      (follows : replayEvents .empty state.events = some state.pool.lastLogged) (_ : True) :
      replayEvents .empty (state.step host engine act).events =
        some (state.step host engine act).pool.lastLogged := by
    obtain ⟨more, appended, replayed⟩ := replay_step host engine state act
    rw [appended, replayEvents_append, follows]
    exact replayed
  exact along.invariant keeps rfl

/-- A step that leaves the field of the held key alone: a tick publishes its key, its scripts write
nothing there, no more does what happens between two ticks, and a field that is configured
names the key that the brain logs. -/
def Undisturbed (host : ScriptHost Score) (engine : ScriptEngine Value Cost)
    (state : PoolState Score) : PoolAct Score Value → Prop
  | .tick scripts =>
    state.pool.goalPrefix.chars ≠ [] →
      let claimed := state.pool.claimed host (state.tickCount + 1) scripts state.manager
      let tick := state.pool.libraryTick host (state.tickCount + 1) scripts state.manager
      (claimed.1.setNamed state.pool.keyField.toCString (quotedKey claimed.2)).2 = 0 ∧
        scripts.script.LeavesAlone tick.manager.nodeId tick.place ∧ tick.ExecLeavesField engine
  | .store operation =>
    FleeceStateManager.LeavesAlone state.manager.nodeId
      (hashName state.pool.keyField.toCString, state.manager.nodeId) operation
  | .setGoalPool goalPrefix field margin =>
    state.manager.goalPoolReadCurrent (state.pool.setGoalPool goalPrefix field margin).keyField =
      state.pool.lastLogged

/-- The field names the key that the brain logs. -/
structure Agrees (state : PoolState Score) : Prop where
  packed : state.manager.PackedInvariant
  reads : state.manager.goalPoolReadCurrent state.pool.keyField = state.pool.lastLogged

theorem agrees_of_ticked {state : PoolState Score} {scripts : PoolScripts Score Value}
    {ticked : LibraryTicked}
    (ran : state.pool.goalPoolTick host engine (state.tickCount + 1) scripts state.manager = ticked)
    (packed : ticked.manager.PackedInvariant)
    (reads : ticked.manager.goalPoolReadCurrent state.pool.keyField = ticked.lastLogged) :
    (state.step host engine (.tick scripts)).Agrees := by
  subst ran
  exact ⟨packed, reads⟩

theorem Agrees.step {state : PoolState Score} (agrees : state.Agrees) {act : PoolAct Score Value}
    (undisturbed : state.Undisturbed host engine act) : (state.step host engine act).Agrees := by
  cases act with
  | tick scripts =>
    by_cases off : state.pool.goalPrefix.chars = []
    · exact agrees_of_ticked (if_pos off) agrees.packed agrees.reads
    · obtain ⟨accepted, leaves, exec⟩ := undisturbed off
      have bid : state.manager.Untouched
          (hashName state.pool.keyField.toCString, state.manager.nodeId)
          (state.pool.claimed host (state.tickCount + 1) scripts state.manager).1 :=
        FleeceStateManager.claimBestGoal_untouched host agrees.packed rfl _ _
      have filled : (quotedKey
          (state.pool.claimed host (state.tickCount + 1) scripts state.manager).2).size ≠ 0 := nofun
      obtain ⟨packed, node, stored, named, held⟩ := FleeceStateManager.setNamed_publishes
        bid.packed filled Prod.mk.eta.symm (Or.inl accepted)
      obtain ⟨kept, _, reads⟩ := @LibraryTick.run_reads _ _ engine
        (state.pool.libraryTick host (state.tickCount + 1) scripts state.manager)
        ⟨packed, named, held⟩ stored leaves exec
      exact agrees_of_ticked (if_neg off) kept reads
  | store operation =>
    have kept := FleeceStateManager.Untouched.operation agrees.packed undisturbed
    exact ⟨kept.packed, (goalPoolReadCurrent_congr kept.getNamed_own).trans agrees.reads⟩
  | setGoalPool goalPrefix field margin =>
    refine ⟨agrees.packed, Eq.trans undisturbed ?_⟩
    unfold PoolState.step BrainGoalPool.setGoalPool
    simp only
    split
    · split_ifs <;> rfl
    · rfl

/-- As long as nothing but the brain writes the field of the held key and it finds a slot, that
field tells the scripts, and the bid of the next tick, which key the brain logs. -/
theorem field_names_logged_key {nodeId : UInt64} {manager : FleeceStateManager}
    (created : FleeceStateManager.createWithNodeId nodeId = some manager)
    {acts : List (PoolAct Score Value)}
    (undisturbed : Along (step host engine) (Undisturbed host engine) (start manager) acts) :
    let reached := runFrom (step host engine) (start manager) acts
    reached.manager.goalPoolReadCurrent reached.pool.keyField = reached.pool.lastLogged := by
  have keeps (state : PoolState Score) (act : PoolAct Score Value) (agrees : state.Agrees)
      (leaves : state.Undisturbed host engine act) : (state.step host engine act).Agrees :=
    agrees.step leaves
  refine (undisturbed.invariant keeps ⟨?_, ?_⟩).reads
  · exact FleeceStateManager.packedInvariant_create created
  · have absent : manager.getNamed manager.nodeId FieldName.empty.toCString = none := by
      rw [FleeceStateManager.getNamed_eq, FleeceStateManager.liveView,
        ← (FleeceStateManager.refines_create created).view]
      rfl
    show manager.goalPoolReadCurrent .empty = .empty
    unfold FleeceStateManager.goalPoolReadCurrent
    rw [absent]

end PoolState

/-- The scripts of a node that scores every goal with 5 and has one action, which never applies. -/
def samplePoolScripts (goalSatisfied : SampleValue) : PoolScripts ℚ SampleValue where
  peerTtlTicks := 100
  scoreGoal := some fun _ _ _ => some 5
  library := ⟨[.answer false], [.undefined], [.undefined]⟩
  script := .ofEngine sampleEngine goalSatisfied

theorem samplePoolScripts_leaveAlone (goalSatisfied : SampleValue) (nodeId : UInt64)
    (pair : UInt32 × UInt64) :
    (samplePoolScripts goalSatisfied).script.LeavesAlone nodeId pair :=
  ⟨fun _ _ _ _ => nofun, fun _ _ _ _ _ => nofun⟩

/-- A node claims the goal `g1` and completes it. -/
theorem field_names_logged_key_completed :
    let acts : List (PoolAct ℚ SampleValue) :=
      [.setGoalPool (some ⟨[0x67], by decide⟩) (some ⟨[0x6B], by decide⟩) 1,
        .store (.write (.setShared ⟨[0x67, 0x31], by decide⟩ ⟨[0x31], by decide⟩)),
        .tick (samplePoolScripts .undefined), .tick (samplePoolScripts (.answer true))]
    let reached := runFrom (PoolState.step exactHost sampleEngine) (.start (.blank 7)) acts
    reached.events.map Prod.fst = [.claim, .done] ∧
      reached.manager.goalPoolReadCurrent reached.pool.keyField = reached.pool.lastLogged := by
  intro acts reached
  have created : FleeceStateManager.createWithNodeId 7 = some (.blank 7) := rfl
  have noBody (state : PoolState ℚ) (goalSatisfied : SampleValue) :
      LibraryTick.ExecLeavesField sampleEngine (state.pool.libraryTick exactHost
        (state.tickCount + 1) (samplePoolScripts goalSatisfied) state.manager) :=
    LibraryTick.execLeavesField_of_noBody (List.forall_mem_singleton.mpr rfl)
  refine ⟨by decide +kernel, PoolState.field_names_logged_key created ?_⟩
  refine ⟨?_, ⟨nofun, ?_⟩, fun _ => ⟨?_, ?_, noBody _ _⟩, fun _ => ⟨?_, ?_, noBody _ _⟩, trivial⟩
  · show FleeceStateManager.goalPoolReadCurrent _ _ = _
    decide +kernel
  · intro touched
    exact absurd (congrArg Prod.snd (Set.mem_singleton_iff.mp touched)) (by decide +kernel)
  · decide +kernel
  · exact samplePoolScripts_leaveAlone _ _ _
  · decide +kernel
  · exact samplePoolScripts_leaveAlone _ _ _

end Fleece
