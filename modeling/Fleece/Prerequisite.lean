/-
This file is about the goals that a brain gives up because it is blocked. The claim is
given up whenever a provider was found, whatever became of the prerequisite. Its name
has 32 bits of the node's id; nothing is written where a live record is under the hash
of the name, or where no slot is left; the claim is removed after it, and takes the
record along if both have one hash; and a diff that is no JSON text makes a record that
is none either.
-/

import Fleece.ActionLibrary
import Fleece.Claims

namespace Fleece

open Json (HasMember Lists Object Plain Spaced Utf8)

/-! ### The text of a prerequisite -/

/-- `"params"`. -/
def paramsName : List UInt8 := [0x70, 0x61, 0x72, 0x61, 0x6D, 0x73]

/-- `"required_agents"`. -/
def agentsName : List UInt8 :=
  [0x72, 0x65, 0x71, 0x75, 0x69, 0x72, 0x65, 0x64, 0x5F, 0x61, 0x67, 0x65, 0x6E, 0x74, 0x73]

/-- The text is an object with the diff for its `params` and with a list `required_agents` that
names the node by its full id. -/
def ReadsAs (text diff : List UInt8) (selfId : UInt64) : Prop :=
  Utf8 text ∧ ∃ members, Object text members ∧ HasMember members paramsName diff ∧
    ∃ agents, HasMember members agentsName agents ∧ Lists agents (Hexadecimal.print selfId)

/-- The list of the agents that may claim the goal, with the node alone in it. -/
def prerequisiteAgents (selfId : UInt64) : List UInt8 :=
  0x5B :: 0x22 :: (Hexadecimal.print selfId ++ [0x22, 0x5D])

/-- The members of the goal record that is written for a prerequisite. -/
def prerequisiteMembers (diff : List UInt8) (selfId : UInt64) :
    List (List UInt8 × List UInt8) :=
  [(paramsName, diff),
    ([0x6B, 0x69, 0x6E, 0x64], [0x22, 0x70, 0x72, 0x65, 0x72, 0x65, 0x71, 0x22]),
    ([0x70, 0x72, 0x69, 0x6F, 0x72, 0x69, 0x74, 0x79], [0x31, 0x30, 0x30]),
    (agentsName, prerequisiteAgents selfId),
    ([0x69, 0x6E, 0x74, 0x65, 0x72, 0x72, 0x75, 0x70, 0x74], [0x74, 0x72, 0x75, 0x65])]

theorem prerequisiteText_eq (diff : List UInt8) (selfId : UInt64) :
    prerequisiteText diff selfId = Json.writeObject (prerequisiteMembers diff selfId) := by
  simp only [prerequisiteText, Json.writeObject, prerequisiteMembers, Json.writeItems, Json.item,
    paramsName, agentsName, prerequisiteAgents, List.cons_append, List.append_assoc,
    List.nil_append]

theorem prerequisiteText_injective {diff other : List UInt8} {selfId : UInt64}
    (same : prerequisiteText diff selfId = prerequisiteText other selfId) : diff = other := by
  unfold prerequisiteText at same
  exact List.append_cancel_left (List.append_cancel_right (List.append_cancel_right
    (List.append_cancel_right same)))

theorem plain_print (selfId : UInt64) : Plain (Hexadecimal.print selfId) := by
  intro byte member
  obtain ⟨d, small, rfl⟩ := Hexadecimal.exists_of_mem_digits member
  have each : ∀ d < 16, 0x20 ≤ Hexadecimal.digit d ∧ Hexadecimal.digit d ≠ 0x22 ∧
      Hexadecimal.digit d ≠ 0x5C := by decide
  exact each d small

theorem lists_prerequisiteAgents (selfId : UInt64) :
    Lists (prerequisiteAgents selfId) (Hexadecimal.print selfId) := by
  have decodes := (plain_print selfId).decodes
  have string := Spaced.of_text (.string decodes.chars)
  refine ⟨[], 0x22 :: (Hexadecimal.print selfId ++ [0x22]), [], _, ?_, rfl, rfl, .last string, [],
    Hexadecimal.print selfId, [], List.mem_singleton.mpr rfl, rfl, rfl, decodes⟩
  simp only [prerequisiteAgents, List.nil_append, List.cons_append, List.append_assoc]

theorem spaced_prerequisiteAgents (selfId : UInt64) : Spaced (prerequisiteAgents selfId) := by
  have string := Json.Derives.string (plain_print selfId).decodes.chars
  have array := Spaced.of_text (.array (@Json.Derives.last _ [] _ [] rfl string rfl))
  simpa only [prerequisiteAgents, List.nil_append, List.append_nil, List.cons_append,
    List.append_assoc] using array

theorem plain_prerequisiteMembers (diff : List UInt8) (selfId : UInt64) :
    ∀ member ∈ prerequisiteMembers diff selfId, Plain member.1 := by
  unfold prerequisiteMembers
  simp only [List.forall_mem_cons]
  exact ⟨by decide, by decide, by decide, by decide, by decide, nofun⟩

theorem spaced_hundred : Spaced [0x31, 0x30, 0x30] := by
  refine .of_text (.number (@Json.Number.mk [] [0x31, 0x30, 0x30] [] [] (by decide)
    (.inr ⟨0x31, [0x30, 0x30], rfl, ?_⟩) (.inl rfl) (.inl rfl)))
  decide

theorem spaced_prerequisiteMembers {diff : List UInt8} (spaced : Spaced diff) (selfId : UInt64) :
    ∀ member ∈ prerequisiteMembers diff selfId, Spaced member.2 := by
  have kind : Plain [0x70, 0x72, 0x65, 0x72, 0x65, 0x71] := by decide
  unfold prerequisiteMembers
  simp only [List.forall_mem_cons]
  refine ⟨spaced, .of_text (.string kind.decodes.chars), spaced_hundred,
    spaced_prerequisiteAgents selfId, .of_text (.word ?_), nofun⟩
  decide

theorem utf8_prerequisiteText (diff : List UInt8) (selfId : UInt64) :
    Utf8 (prerequisiteText diff selfId) ↔ Utf8 diff := by
  have digits : (Hexadecimal.print selfId).all fun byte => byte < 0x80 := by
    refine List.all_eq_true.mpr fun byte member => decide_eq_true_eq.mpr ?_
    obtain ⟨d, small, rfl⟩ := Hexadecimal.exists_of_mem_digits member
    have each : ∀ d < 16, Hexadecimal.digit d < 0x80 := by decide
    exact each d small
  unfold prerequisiteText
  constructor
  · intro whole
    simp only [List.append_assoc, List.cons_append, List.nil_append] at whole
    have colon : (0x3A : UInt8) < 0x80 := by decide
    have comma : (0x2C : UInt8) < 0x80 := by decide
    exact ((@Utf8.around [0x7B, 0x22, 0x70, 0x61, 0x72, 0x61, 0x6D, 0x73, 0x22] _ _ colon
      whole).2.around comma).1
  · intro inner
    refine (((Utf8.of_ascii ?_).append inner).append (.of_ascii ?_)).append (.of_ascii digits)
      |>.append (.of_ascii ?_)
    · decide
    · decide
    · decide

/-- A prerequisite reads as what it is written for just when the diff is a JSON text in UTF-8. -/
theorem readsAs_iff (diff : List UInt8) (selfId : UInt64) :
    ReadsAs (prerequisiteText diff selfId) diff selfId ↔ Spaced diff ∧ Utf8 diff := by
  constructor
  · rintro ⟨utf8, members, object, params, _⟩
    exact ⟨params.spaced object, (utf8_prerequisiteText diff selfId).mp utf8⟩
  · rintro ⟨spaced, utf8⟩
    have plain := plain_prerequisiteMembers diff selfId
    refine ⟨(utf8_prerequisiteText diff selfId).mpr utf8, prerequisiteMembers diff selfId, ?_, ?_,
      prerequisiteAgents selfId, ?_, lists_prerequisiteAgents selfId⟩
    · rw [prerequisiteText_eq]
      exact Json.object_writeObject plain (spaced_prerequisiteMembers spaced selfId)
    · refine @Json.hasMember_of_plain [] _ paramsName diff (by decide)
        (fun member later => plain member (List.mem_cons_of_mem _ later)) ?_
      simp only [List.forall_mem_cons]
      exact ⟨by decide, by decide, by decide, by decide, nofun⟩
    · refine @Json.hasMember_of_plain ((prerequisiteMembers diff selfId).take 3)
        ((prerequisiteMembers diff selfId).drop 4) agentsName (prerequisiteAgents selfId) (by decide)
        (fun member later => plain member (List.mem_of_mem_drop later)) ?_
      exact List.forall_mem_singleton.mpr (by decide)

/-! ### What a blocked tick does to the store -/

namespace FleeceStateManager

variable {manager : FleeceStateManager}

/-- A field of the node's own leaves the shared ones alone. -/
theorem setNamed_effect (store : manager.StoreInvariant) (name : CString) (data : Blob) :
    (manager.setNamed name data).1.liveShared = manager.liveShared := by
  have shape : manager.setNamed name data = LocalWrite.exec manager (.setNamed name data) := rfl
  have outcome := exec_outcome manager (.setNamed name data)
  rw [shape]
  generalize asked : (LocalWrite.setNamed name data).request manager.nodeId manager.localTimestamp
    manager.view = request at outcome
  generalize LocalWrite.exec manager (.setNamed name data) = result at outcome ⊢
  cases outcome with
  | refused => rfl
  | noSlot next pair record accepted absent full fields => exact liveShared_of_fields fields
  | wrote next f accepted stored =>
    have target := LocalWrite.target_of_request (asked.trans accepted)
    have owner : f.nodeId = manager.nodeId := congrArg Prod.snd target
    funext key
    rw [liveShared, liveShared, liveView, liveView,
      view_stored_foreign stored store store.realNode.symm, Function.update_of_ne]
    intro same
    exact store.realNode (owner.symm.trans (Prod.mk.inj same).2.symm)

/-- There is a slot for a record under the hash of the name. -/
def HasSlotFor (manager : FleeceStateManager) (name : CString) : Prop :=
  manager.findSlotOwned (hashName name) sharedOwnerId ≠ none ∨ manager.fieldCount < fieldCapacity

/-- No live record is under the hash of the name, and there is a slot for one. -/
def IsVacant (manager : FleeceStateManager) (name : CString) : Prop :=
  manager.liveShared (hashName name) = none ∧ manager.HasSlotFor name

/-- The record of a prerequisite that was written. -/
structure IsPrerequisiteFor (selfId : UInt64) (diff : List UInt8) (record : GossipRecord) :
    Prop where
  name : record.name = .copy (prerequisiteKey selfId)
  text : record.data.bytes = prerequisiteText diff selfId

theorem length_prerequisiteText_lt (orig sim : FleeceGoapBlackboard) (selfId : UInt64) :
    (prerequisiteText (diffText orig sim) selfId).length < 384 := by
  obtain ⟨built, room⟩ := @buildSelfDiffJson_eq 256 orig sim (by decide)
  have short : (diffText orig sim).length ≤ 256 := by
    refine (List.takeWhile_sublist _).length_le.trans ?_
    rw [built, List.length_append]
    exact room
  simp only [prerequisiteText, List.length_append, List.length_cons, List.length_nil,
    Hexadecimal.length_print]
  omega

theorem length_prerequisiteKey (selfId : UInt64) : (prerequisiteKey selfId).chars.length = 17 := by
  rw [prerequisiteKey, List.length_append, Hexadecimal.length_digits]
  rfl

theorem setShared_code_iff {name : CString} {data : Blob} (named : name.chars ≠ [])
    (filled : data.size ≠ 0) :
    (manager.setShared name data).2 = 0 ↔ manager.HasSlotFor name := by
  have passes : ¬ (name.chars.isEmpty || data.size == 0) = true := by
    rw [Bool.or_eq_true, List.isEmpty_iff, beq_iff_eq]
    exact not_or.mpr ⟨named, filled⟩
  have lookup : manager.noteWrite.advanceClock.findSlotOwned (hashName name) sharedOwnerId =
      manager.findSlotOwned (hashName name) sharedOwnerId := rfl
  unfold setShared HasSlotFor
  rw [if_neg passes]
  unfold upsertField
  rw [lookup]
  cases manager.findSlotOwned (hashName name) sharedOwnerId with
  | some i => exact iff_of_true rfl (.inl nofun)
  | none =>
    rw [or_iff_right fun absent => absent rfl]
    dsimp only
    split_ifs with room
    · exact iff_of_true rfl room
    · exact iff_of_false (show (-1 : Int) ≠ 0 by decide) room

/-- A shared field is written exactly if there is a slot for it. -/
theorem setShared_effect (store : manager.StoreInvariant) {name : CString} {data : Blob}
    (named : name.chars ≠ []) (filled : data.size ≠ 0) :
    (manager.setShared name data).1.StoreInvariant ∧
      ((manager.HasSlotFor name ∧ ∃ record : GossipRecord,
          record.name = .copy name ∧ record.data = data ∧
          (manager.setShared name data).1.liveShared =
            Function.update manager.liveShared (hashName name) (some record)) ∨
        ¬ manager.HasSlotFor name ∧
          (manager.setShared name data).1.liveShared = manager.liveShared) := by
  have code := @setShared_code_iff manager name data named filled
  have shape : LocalWrite.exec manager (.setShared name data) = manager.setShared name data := rfl
  obtain ⟨kept, _, effect⟩ := exec_shared store
    (show (LocalWrite.target manager.nodeId (.setShared name data)).2 = sharedOwnerId from rfl)
  rw [shape] at kept effect
  refine ⟨kept, ?_⟩
  generalize manager.setShared name data = result at code effect
  cases effect with
  | failed next failure nonzero same => exact .inr ⟨fun slot => nonzero (code.mpr slot), same⟩
  | put next stored record asked found put =>
    simp only [LocalWrite.request, LocalWrite.request.put] at asked
    split_ifs at asked
    obtain ⟨pair, rfl⟩ := Prod.mk.inj (Except.ok.inj asked)
    obtain ⟨rfl, -⟩ := Prod.mk.inj pair
    exact .inl ⟨code.mp rfl, _, rfl, rfl, put⟩

/-- The spawn does nothing but write its record, where no live record has its name. -/
theorem goalPoolSpawnPrerequisite_eq (manager : FleeceStateManager) (selfId : UInt64)
    (orig sim : FleeceGoapBlackboard) :
    ∃ data : Blob, data.bytes = prerequisiteText (diffText orig sim) selfId ∧
      manager.goalPoolSpawnPrerequisite selfId orig sim =
        if manager.existsNamed sharedOwnerId (prerequisiteKey selfId) then manager
        else (manager.setShared (prerequisiteKey selfId) data).1 := by
  have fits := length_prerequisiteText_lt orig sim selfId
  have short : ¬ fieldNameMax ≤ (prerequisiteKey selfId).chars.length := by
    rw [length_prerequisiteKey]
    decide
  have code : ¬ (buildSelfDiffJson orig sim 256).1 ≠ 0 := by
    rw [(@buildSelfDiffJson_eq 256 orig sim (by decide)).1]
    exact fun nonzero => nonzero rfl
  refine ⟨⟨_, fits.trans (by decide)⟩, rfl, ?_⟩
  unfold goalPoolSpawnPrerequisite
  rw [if_neg short, if_neg code, dif_pos fits]

/-- The spawn writes its record exactly if its name is vacant. -/
theorem spawn_effect (store : manager.StoreInvariant) (selfId : UInt64)
    (orig sim : FleeceGoapBlackboard) :
    let spawned := manager.goalPoolSpawnPrerequisite selfId orig sim
    spawned.StoreInvariant ∧
      ((manager.IsVacant (prerequisiteKey selfId) ∧
          ∃ record, IsPrerequisiteFor selfId (diffText orig sim) record ∧
            spawned.liveShared = Function.update manager.liveShared
              (hashName (prerequisiteKey selfId)) (some record)) ∨
        ¬ manager.IsVacant (prerequisiteKey selfId) ∧
          spawned.liveShared = manager.liveShared) := by
  intro spawned
  obtain ⟨data, text, spawns⟩ := goalPoolSpawnPrerequisite_eq manager selfId orig sim
  have shape : spawned = _ := spawns
  have isLive : manager.existsNamed sharedOwnerId (prerequisiteKey selfId) =
      (manager.liveShared (hashName (prerequisiteKey selfId))).isSome := existsNamed_eq manager _ _
  unfold IsVacant
  cases live : manager.liveShared (hashName (prerequisiteKey selfId)) with
  | some record =>
    rw [isLive, live] at shape
    rw [shape, if_pos (show (some record).isSome = true from rfl)]
    exact ⟨store, .inr ⟨nofun, rfl⟩⟩
  | none =>
    have filled : data.size ≠ 0 := by
      rw [Blob.size, text]
      exact Nat.succ_ne_zero _
    rw [isLive, live] at shape
    rw [shape, if_neg (show ¬ Option.isSome none = true from Bool.false_ne_true), and_iff_right rfl]
    obtain ⟨kept, written⟩ := @setShared_effect manager store (prerequisiteKey selfId) data
      (List.cons_ne_nil _ _) filled
    refine ⟨kept, written.imp_left ?_⟩
    rintro ⟨slot, record, name, held, put⟩
    exact ⟨slot, record, ⟨name, (congrArg Blob.bytes held).trans text⟩, put⟩

end FleeceStateManager

/-! ### Blocked ticks -/

/-- A live shared record is a prerequisite of a node for one of some diffs: it has the name of one,
it is the text that is written for the diff, and it reads as that. -/
def IsPrerequisite (selfId : UInt64) (diffs : List (List UInt8)) (record : GossipRecord) : Prop :=
  goalPrePrefix <+: record.name.chars ∧ ∃ diff ∈ diffs,
    record.data.bytes = prerequisiteText diff selfId ∧ ReadsAs record.data.bytes diff selfId

namespace LibraryTick

variable {Value Cost : Type} (engine : ScriptEngine Value Cost)

/-- The diff of the provider that a tick finds. -/
def providerDiff (tick : LibraryTick Value) : Option (List UInt8) :=
  match tick.dispatch engine with
  | .blocked orig sim _ => some (diffText orig sim)
  | _ => none

/-- The diffs of the providers that a node found, on the ticks of all nodes so far. -/
def diffsOf (nodeId : UInt64) (ticks : List (LibraryTick Value)) : List (List UInt8) :=
  (ticks.filter fun tick => tick.manager.nodeId == nodeId).filterMap (providerDiff engine)

/-- After a tick that reports the goal blocked, the store has a live prerequisite of the node, for
the provider found on it or on an earlier one of the node. -/
def LeavesPrerequisite (earlier : List (LibraryTick Value)) (tick : LibraryTick Value) : Prop :=
  (.blocked, tick.current) ∈ (tick.run engine).events →
    ∃ key record, (tick.run engine).manager.liveShared key = some record ∧
      IsPrerequisite tick.manager.nodeId (diffsOf engine tick.manager.nodeId (earlier ++ [tick]))
        record

/-- Where a provider is found, either the name of the prerequisite is vacant in the store, as the
script leaves it, and has another hash than that of the claim, and the diff is a JSON text; or a
prerequisite of the node is live already, under another hash than that of the claim. -/
def MayGiveUp (earlier : List (LibraryTick Value)) (tick : LibraryTick Value) : Prop :=
  ∀ orig sim manager, tick.dispatch engine = .blocked orig sim manager →
    (manager.IsVacant (prerequisiteKey tick.manager.nodeId) ∧
        hashName (prerequisiteKey tick.manager.nodeId) ≠
          FleeceStateManager.claimKey tick.current.toCString ∧
        Spaced (diffText orig sim) ∧ Utf8 (diffText orig sim)) ∨
      ∃ key record, key ≠ FleeceStateManager.claimKey tick.current.toCString ∧
        manager.liveShared key = some record ∧
        IsPrerequisite tick.manager.nodeId
          (diffsOf engine tick.manager.nodeId (earlier ++ [tick])) record

/-! ### When the claim may be given up -/

variable {engine} {script : LibraryScript Value} {state : ScriptState}

section Calls

variable (engine) (script) (store : state.manager.StoreInvariant)
include store

theorem callFn_store (fn bbjs : Value) :
    (script.callFn fn bbjs state).2.manager.StoreInvariant := store.after _

theorem jsCallGoalSatisfied_store (bb : FleeceGoapBlackboard) :
    (script.jsCallGoalSatisfied engine bb state).2.manager.StoreInvariant := by
  unfold LibraryScript.jsCallGoalSatisfied
  dsimp only
  split_ifs
  · exact callFn_store script store _ _
  · exact store

theorem actionCallBool_store (fn : Value) (bb : FleeceGoapBlackboard) :
    (script.actionCallBool engine fn bb state).2.manager.StoreInvariant := by
  unfold LibraryScript.actionCallBool
  split_ifs
  · exact store
  · exact callFn_store script store _ _

theorem findApplicable_store (bb : FleeceGoapBlackboard) (i : Nat) (fns : List Value) :
    (script.findApplicable engine bb i fns state).2.manager.StoreInvariant := by
  induction fns generalizing i state with
  | nil => exact store
  | cons fn rest inductionHypothesis =>
    have called := actionCallBool_store engine script store fn bb
    unfold LibraryScript.findApplicable
    dsimp only
    split_ifs
    · exact called
    · exact inductionHypothesis called (i + 1)

theorem actionCallEff_store (fn : Value) (bb : FleeceGoapBlackboard) :
    (script.actionCallEff engine fn bb state).2.manager.StoreInvariant := by
  have called := callFn_store script store fn (engine.goapBbToJs bb)
  unfold LibraryScript.actionCallEff
  split_ifs
  · exact store
  · dsimp only
    cases (script.callFn fn (engine.goapBbToJs bb) state).1 with
    | none => exact called
    | some result => exact called

theorem findProvider_store (preFns : List Value) (bb : FleeceGoapBlackboard) (haveRtOrig : Bool)
    (fns : List Value) :
    (script.findProvider engine preFns bb haveRtOrig fns state).2.manager.StoreInvariant := by
  induction fns generalizing state with
  | nil => exact store
  | cons fn rest inductionHypothesis =>
    have simulated := actionCallEff_store engine script store fn bb
    unfold LibraryScript.findProvider
    dsimp only
    cases (script.actionCallEff engine fn bb state).1 with
    | none => exact inductionHypothesis simulated
    | some sim =>
      have satisfied := jsCallGoalSatisfied_store engine script simulated sim
      have applicable := findApplicable_store engine script satisfied sim 0 preFns
      dsimp only
      split_ifs
      · exact satisfied
      · exact inductionHypothesis satisfied
      · exact applicable
      · exact inductionHypothesis applicable

end Calls

variable {tick : LibraryTick Value} {orig sim : FleeceGoapBlackboard} {manager : FleeceStateManager}

theorem dispatch_store (store : tick.manager.StoreInvariant)
    (blocked : tick.dispatch engine = .blocked orig sim manager) : manager.StoreInvariant := by
  unfold dispatch at blocked
  split_ifs at blocked
  dsimp only at blocked
  have satisfied := @jsCallGoalSatisfied_store Value Cost engine tick.script ⟨0, tick.manager⟩ store
    (tick.manager.bbFromState .empty).1
  have applicable := findApplicable_store engine tick.script satisfied
    (tick.manager.bbFromState .empty).1 0 tick.library.preFns
  split_ifs at blocked
  split at blocked
  · cases blocked
  · split at blocked
    · cases blocked
      exact findProvider_store engine tick.script applicable _ _ _ _
    · cases blocked

theorem blocked_notMem_transitions (tick : LibraryTick Value) (key : FieldName) :
    (.blocked, key) ∉ tick.transitions := by
  unfold transitions
  split_ifs <;> simp

/-- A tick reports the goal blocked exactly if it finds a provider. -/
theorem blocked_mem_events_iff : (.blocked, tick.current) ∈ (tick.run engine).events ↔
    ∃ orig sim manager, tick.dispatch engine = .blocked orig sim manager := by
  have none := blocked_notMem_transitions tick tick.current
  unfold run
  cases tick.dispatch engine with
  | nothing manager => exact iff_of_false none nofun
  | done manager =>
    refine iff_of_false (fun member => ?_) nofun
    rcases List.mem_append.mp member with early | late
    · exact none early
    · cases (Prod.mk.inj (List.mem_singleton.mp late)).1
  | exec idx bb state => exact iff_of_false none nofun
  | blocked orig sim manager =>
    exact iff_of_true (List.mem_append_right _ List.mem_cons_self) ⟨orig, sim, manager, rfl⟩

/-- The live shared records after a blocked tick: those that the spawn leaves, without the claim. -/
theorem run_blocked_live (store : tick.manager.StoreInvariant)
    (blocked : tick.dispatch engine = .blocked orig sim manager) :
    (tick.run engine).manager.liveShared = Function.update
      (manager.goalPoolSpawnPrerequisite tick.manager.nodeId orig sim).liveShared
      (FleeceStateManager.claimKey tick.current.toCString) none := by
  obtain ⟨spawned, _⟩ := FleeceStateManager.spawn_effect (dispatch_store store blocked)
    tick.manager.nodeId orig sim
  obtain ⟨released, _, live⟩ :=
    FleeceStateManager.removeShared_effect spawned (claimName tick.current.toCString)
  have cleared := FleeceStateManager.setNamed_effect released tick.keyField.toCString
    ⟨[0x22, 0x22], by decide⟩
  unfold run
  rw [blocked]
  exact cleared.trans live

theorem isPrerequisite_of_written {selfId : UInt64} {diff : List UInt8}
    {diffs : List (List UInt8)} {record : GossipRecord}
    (written : FleeceStateManager.IsPrerequisiteFor selfId diff record) (found : diff ∈ diffs) :
    IsPrerequisite selfId diffs record ↔ Spaced diff ∧ Utf8 diff := by
  obtain ⟨name, text⟩ := written
  constructor
  · rintro ⟨_, other, _, otherText, reads⟩
    rw [otherText, readsAs_iff] at reads
    rw [text] at otherText
    rwa [prerequisiteText_injective otherText]
  · intro spaced
    refine ⟨?_, diff, found, text, ?_⟩
    · have kept : (FieldName.copy (prerequisiteKey selfId)).chars =
          (prerequisiteKey selfId).chars := by
        refine List.take_of_length_le ?_
        rw [FleeceStateManager.length_prerequisiteKey]
        decide
      rw [name, kept]
      exact List.prefix_append _ _
    · rw [text, readsAs_iff]
      exact spaced

theorem providerDiff_mem (earlier : List (LibraryTick Value))
    (blocked : tick.dispatch engine = .blocked orig sim manager) :
    diffText orig sim ∈ diffsOf engine tick.manager.nodeId (earlier ++ [tick]) := by
  refine List.mem_filterMap.mpr ⟨tick, List.mem_filter.mpr ⟨?_, beq_self_eq_true _⟩, ?_⟩
  · exact List.mem_append_right earlier List.mem_cons_self
  · unfold providerDiff
    rw [blocked]

/-- For every engine, every tick on a valid store and every ticks before it, of whatever nodes, and
whatever their calls come to: if the tick reports its goal blocked, the store has a live prerequisite
of the node for a provider that it found; exactly if the prerequisite can be written or is there. -/
theorem leavesPrerequisite_iff (engine : ScriptEngine Value Cost)
    (earlier : List (LibraryTick Value)) (tick : LibraryTick Value)
    (store : tick.manager.StoreInvariant) :
    LeavesPrerequisite engine earlier tick ↔ MayGiveUp engine earlier tick := by
  unfold LeavesPrerequisite MayGiveUp
  rw [blocked_mem_events_iff]
  constructor
  · intro leaves orig sim manager blocked
    obtain ⟨key, record, live, isPrerequisite⟩ := leaves ⟨orig, sim, manager, blocked⟩
    rw [run_blocked_live store blocked, Function.update_apply] at live
    split_ifs at live with claim
    rcases (FleeceStateManager.spawn_effect (dispatch_store store blocked) tick.manager.nodeId orig
      sim).2 with ⟨vacant, written, isWritten, put⟩ | ⟨_, same⟩
    · rw [put, Function.update_apply] at live
      split_ifs at live with here
      · obtain rfl := Option.some.inj live
        refine .inl ⟨vacant, fun clash => claim (here.trans clash), ?_⟩
        exact (isPrerequisite_of_written isWritten (providerDiff_mem earlier blocked)).mp
          isPrerequisite
      · exact .inr ⟨key, record, claim, live, isPrerequisite⟩
    · rw [same] at live
      exact .inr ⟨key, record, claim, live, isPrerequisite⟩
  · rintro may ⟨orig, sim, manager, blocked⟩
    rw [run_blocked_live store blocked]
    have effect := (FleeceStateManager.spawn_effect (dispatch_store store blocked)
      tick.manager.nodeId orig sim).2
    rcases may orig sim manager blocked with ⟨vacant, apart, spaced⟩ |
      ⟨key, record, apart, live, isPrerequisite⟩
    · rcases effect with ⟨_, written, isWritten, put⟩ | ⟨occupied, _⟩
      · refine ⟨hashName (prerequisiteKey tick.manager.nodeId), written, ?_, ?_⟩
        · rw [Function.update_of_ne apart, put, Function.update_self]
        · exact (isPrerequisite_of_written isWritten (providerDiff_mem earlier blocked)).mpr spaced
      · exact absurd vacant occupied
    · refine ⟨key, record, ?_, isPrerequisite⟩
      rw [Function.update_of_ne apart]
      rcases effect with ⟨vacant, written, _, put⟩ | ⟨_, same⟩
      · rw [put, Function.update_of_ne, live]
        rintro rfl
        rw [vacant.1] at live
        cases live
      · rw [same, live]

end LibraryTick

/-! ### A small library -/

theorem noNul_up : (0 : UInt8) ∉ [0x75, 0x70] := by decide

theorem sizeLt_digit : [0x31].length < 2 ^ 32 := by decide

/-- The goal is never satisfied, and the action applies after its own effect, which sets `up` to 1,
and not before. -/
def sampleScript : LibraryScript SampleValue where
  goalSatisfied := fun _ => .undefined
  call := fun calls _ _ =>
    (match calls with
      | 0 => some (.bool false)
      | 1 => some (.object [(⟨[0x75, 0x70], noNul_up⟩, .text ⟨[0x31], sizeLt_digit⟩)] [])
      | _ => some (.bool true), [])
  callExec := fun _ _ _ _ => (none, [])

/-- A name of one letter. -/
def letterName (letter : UInt8) (nonzero : letter ≠ 0) : FieldName where
  chars := [letter]
  noNul member := nonzero (List.mem_singleton.mp member).symm
  lengthLt := Nat.one_lt_succ_succ 62

/-- A node holds the goal `g`. -/
def sampleTick (manager : FleeceStateManager) : LibraryTick SampleValue where
  manager := manager
  library := ⟨[.identity], [.identity], [.undefined]⟩
  keyField := letterName 0x6B nofun
  lastLogged := .empty
  tickCount := 0
  script := sampleScript
  current := letterName 0x67 nofun

/-- On an empty store the goal is given up and the prerequisite is there. -/
theorem leavesPrerequisite_blank :
    ((sampleTick (.blank 7)).run sampleEngine).events =
        [(.claim, (sampleTick (.blank 7)).current), (.blocked, (sampleTick (.blank 7)).current)] ∧
      (sampleTick (.blank 7)).LeavesPrerequisite sampleEngine [] := by
  have created : FleeceStateManager.createWithNodeId 7 = some (.blank 7) := rfl
  refine ⟨by decide +kernel, ?_⟩
  refine (LibraryTick.leavesPrerequisite_iff sampleEngine [] (sampleTick (.blank 7))
    (FleeceStateManager.storeInvariant_create created)).mpr fun orig sim manager blocked => .inl ?_
  have known : ∃ orig sim, (sampleTick (.blank 7)).dispatch sampleEngine =
      .blocked orig sim (.blank 7) ∧
        diffText orig sim = [0x7B, 0x22, 0x75, 0x70, 0x22, 0x3A, 0x31, 0x7D] :=
    ⟨_, _, rfl, by decide +kernel⟩
  obtain ⟨orig', sim', isBlocked, diff⟩ := known
  rw [isBlocked] at blocked
  cases blocked
  refine ⟨⟨by decide +kernel, .inr (by decide)⟩, by decide +kernel, ?_⟩
  rw [diff]
  have plain : ∀ member ∈ [(([0x75, 0x70] : List UInt8), ([0x31] : List UInt8))],
      Plain member.1 := List.forall_mem_singleton.mpr (by decide)
  refine ⟨.of_text (Json.object_writeObject plain
    (List.forall_mem_singleton.mpr spaced_one.1)).text, .of_ascii ?_⟩
  decide

/-- The prerequisite of another node, whose id has the same low 32 bits. -/
def foreignPrerequisite : Blob :=
  ⟨prerequisiteText [0x7B, 0x22, 0x75, 0x70, 0x22, 0x3A, 0x31, 0x7D] 0x200000001, by decide +kernel⟩

/-- The store of a node that has heard of it. -/
def occupied : FleeceStateManager :=
  (FleeceStateManager.blank 0x100000001).after
    [.mergeShared 0x200000001 (prerequisiteKey 0x200000001) foreignPrerequisite 5 false]

/-- The node 0x100000001 gives its goal up and has no prerequisite, as the node 0x200000001 has one
under the same name. -/
theorem givesUp_under_namesake :
    occupied.StoreInvariant ∧
      ((sampleTick occupied).run sampleEngine).events =
        [(.claim, (sampleTick occupied).current), (.blocked, (sampleTick occupied).current)] ∧
      ¬ (sampleTick occupied).LeavesPrerequisite sampleEngine [] := by
  have created : FleeceStateManager.createWithNodeId 0x100000001 = some (.blank 0x100000001) := rfl
  have events : ((sampleTick occupied).run sampleEngine).events =
      [(.claim, (sampleTick occupied).current), (.blocked, (sampleTick occupied).current)] := by
    decide +kernel
  have only : ∀ i, (((sampleTick occupied).run sampleEngine).manager.fields i).slotExists = true →
      (((sampleTick occupied).run sampleEngine).manager.fields i).nodeId = sharedOwnerId →
      (((sampleTick occupied).run sampleEngine).manager.fields i).isTombstone = false →
      (((sampleTick occupied).run sampleEngine).manager.fields i).data = foreignPrerequisite := by
    decide +kernel
  refine ⟨FleeceStateManager.storeInvariant_after created _, events, fun leaves => ?_⟩
  obtain ⟨key, record, live, _, diff, _, text, _⟩ := leaves (by rw [events]; simp)
  generalize ((sampleTick occupied).run sampleEngine).manager = left at only live
  obtain ⟨alive, i, rfl, held, _, shared⟩ := FleeceStateManager.exists_of_liveShared live
  have foreign : (left.fields i).data.bytes = foreignPrerequisite.bytes :=
    congrArg Blob.bytes (only i held shared alive)
  have same := foreign.symm.trans text
  unfold foreignPrerequisite prerequisiteText at same
  have prints := (List.append_inj' (List.append_cancel_right same) (by simp)).2
  exact absurd prints (by decide +kernel)

end Fleece
