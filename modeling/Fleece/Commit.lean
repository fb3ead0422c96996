/-
This file models `fleece_goap_js_bb_commit`, which writes a blackboard back to the
store: the fields in their order, those of the self namespace as fields of the local
node and those of the world as shared ones. A field whose bytes are what the store
gives under its name is passed over; the first write that the store refuses ends the
commit.

What a field reads afterwards is a matter of the blackboard alone and of the slots
that are left (`Fleece/Ledger.lean`): the snapshot the blackboard came from does not
enter. So a value that was written to the store since then is overwritten with the
value it had before, and a field that is missing in the blackboard stays.
-/

import Fleece.Compaction
import Fleece.Ledger
import Fleece.Snapshot

namespace Fleece

namespace FleeceStateManager

/-- The key and the owner of the slot of a place. -/
def pairOf (manager : FleeceStateManager) (place : Place) : UInt32 × UInt64 :=
  (hashName place.1, manager.ownerOf place.2)

/-- The value that the store gives at a place. -/
def read (manager : FleeceStateManager) (place : Place) : Option Blob :=
  manager.getNamed (manager.ownerOf place.2) place.1

/-- One turn of the loop of `bb_commit`. -/
def commitField (manager : FleeceStateManager) (field : FleeceGoapField) :
    FleeceStateManager × Int :=
  if manager.read field.place = some field.data then (manager, 0)
  else if field.isShared then manager.setShared field.name.toCString field.data
  else manager.setNamed field.name.toCString field.data

/-- The loop of `fleece_goap_js_bb_commit`, which ends at the first field that is refused. -/
def commitFields (manager : FleeceStateManager) :
    List FleeceGoapField → FleeceStateManager × Int
  | [] => (manager, 0)
  | field :: rest =>
    let result := manager.commitField field
    if result.2 ≠ 0 then (result.1, -1) else result.1.commitFields rest

/-- `fleece_goap_js_bb_commit`. -/
def bbCommit (manager : FleeceStateManager) (bb : FleeceGoapBlackboard) :
    FleeceStateManager × Int :=
  manager.commitFields bb.fields

theorem commitFields_nil (manager : FleeceStateManager) :
    manager.commitFields [] = (manager, 0) := rfl

theorem commitFields_cons (manager : FleeceStateManager) (field : FleeceGoapField)
    (rest : List FleeceGoapField) : manager.commitFields (field :: rest) =
      if (manager.commitField field).2 ≠ 0 then ((manager.commitField field).1, -1)
      else (manager.commitField field).1.commitFields rest := rfl

/-! ### One field -/

/-- What the commit of one field does: nothing, if the store gives its bytes; or it stores them
under the next clock value with the local node as the author; or it finds no name or no slot. -/
inductive CommitEffect (manager : FleeceStateManager) (field : FleeceGoapField) :
    FleeceStateManager × Int → Prop
  | unchanged (same : manager.read field.place = some field.data) :
      CommitEffect manager field (manager, 0)
  | written (next : FleeceStateManager) (f : FieldEntry)
      (differs : manager.read field.place ≠ some field.data)
      (nonempty : field.name.chars ≠ []) (stored : manager.Stored next f)
      (label : (f.key, f.nodeId) = manager.pairOf field.place)
      (record : f.record = .upserted manager.nodeId field.name field.data
        (manager.localTimestamp + 1) false)
      (rest : next = { manager with
        fields := next.fields
        fieldCount := next.fieldCount
        localTimestamp := manager.localTimestamp + 1
        lastWriteTick := if field.isShared then manager.currentTick else manager.lastWriteTick }) :
      CommitEffect manager field (next, 0)
  | unnamed (differs : manager.read field.place ≠ some field.data)
      (unnamed : field.name.chars = []) : CommitEffect manager field (manager, -1)
  | noSlot (differs : manager.read field.place ≠ some field.data)
      (absent : manager.view (manager.pairOf field.place) = none)
      (full : fieldCapacity ≤ manager.fieldCount) :
      CommitEffect manager field ({ manager with
        localTimestamp := manager.localTimestamp + 1
        lastWriteTick := if field.isShared then manager.currentTick
          else manager.lastWriteTick }, -1)

theorem commitField_effect (manager : FleeceStateManager) (field : FleeceGoapField) :
    CommitEffect manager field (manager.commitField field) := by
  -- both setters, on a manager whose clock and ticks have moved
  have put (base : FleeceStateManager) (owner : UInt64)
      (differs : manager.read field.place ≠ some field.data) (nonempty : field.name.chars ≠ [])
      (isOwner : owner = manager.ownerOf field.isShared)
      (moved : base = { manager with
        localTimestamp := manager.localTimestamp + 1
        lastWriteTick := if field.isShared then manager.currentTick
          else manager.lastWriteTick }) :
      CommitEffect manager field (base.upsertField (hashName field.name.toCString) owner
        manager.nodeId (some field.name.toCString) field.data (manager.localTimestamp + 1)
        false) := by
    subst isOwner moved
    rcases upsertField_cases _ (hashName field.name.toCString)
        (manager.ownerOf field.isShared) manager.nodeId (some field.name.toCString) field.data
        (manager.localTimestamp + 1) false with
      ⟨result, absent, full⟩ | ⟨f, next, result, stored, rest, key, owned, record⟩
    · rw [result]
      exact .noSlot differs (view_eq_none_iff.mpr absent) full
    · rw [result]
      refine .written next f differs nonempty (stored.of_same rfl rfl rfl rfl)
        (Prod.ext key owned) (record.trans ?_) rest
      exact congrArg (GossipRecord.upserted manager.nodeId · field.data
        (manager.localTimestamp + 1) false) (FieldName.copy_toCString field.name)
  have refusal : (field.name.chars.isEmpty || field.data.size == 0) = true →
      field.name.chars = [] := by
    intro refused
    rcases Bool.or_eq_true_iff.mp refused with unnamed | empty
    · exact List.isEmpty_iff.mp unnamed
    · exact absurd (beq_iff_eq.mp empty) field.filled
  have acceptance : ¬ (field.name.chars.isEmpty || field.data.size == 0) = true →
      field.name.chars ≠ [] := by
    rintro accepted unnamed
    rw [unnamed] at accepted
    exact accepted rfl
  unfold commitField
  split_ifs with same shared
  · exact .unchanged same
  · unfold setShared
    split_ifs with refused
    · exact .unnamed same (refusal refused)
    · refine put _ _ same (acceptance refused) ?_ ?_
      · rw [ownerOf, if_pos shared]
      · rw [if_pos shared]
        rfl
  · unfold setNamed
    split_ifs with refused
    · exact .unnamed same (refusal refused)
    · refine put _ _ same (acceptance refused) ?_ ?_
      · rw [ownerOf, if_neg shared]
      · rw [if_neg shared]
        rfl

/-! ### A whole commit -/

/-- A blackboard that mirrors the store is committed without a write. -/
theorem Mirrors.commitFields {manager : FleeceStateManager} {fields : List FleeceGoapField}
    (mirrors : ∀ field ∈ fields, manager.read field.place = some field.data) :
    manager.commitFields fields = (manager, 0) := by
  induction fields with
  | nil => rfl
  | cons field rest inductionHypothesis =>
    have same : manager.commitField field = (manager, 0) :=
      if_pos (mirrors field List.mem_cons_self)
    rw [commitFields_cons, same]
    exact inductionHypothesis fun other member => mirrors other (List.mem_cons_of_mem _ member)

/-- The live values by pair, the pairs with a slot, and the number of slots in use. -/
def ledger (manager : FleeceStateManager) : Ledger (UInt32 × UInt64) Blob where
  value := fun pair => (manager.liveView pair).map GossipRecord.data
  hasSlot := fun pair => (manager.view pair).isSome
  used := manager.fieldCount

/-- What a commit asks for with a field. -/
def entryOf (manager : FleeceStateManager) (field : FleeceGoapField) :
    LedgerEntry (UInt32 × UInt64) Blob where
  key := manager.pairOf field.place
  value := field.data
  isValid := !field.name.chars.isEmpty

theorem ledger_value (manager : FleeceStateManager) (pair : UInt32 × UInt64) :
    manager.ledger.value pair = (manager.liveView pair).map GossipRecord.data := by
  simp only [ledger]

theorem ledger_hasSlot (manager : FleeceStateManager) (pair : UInt32 × UInt64) :
    manager.ledger.hasSlot pair = (manager.view pair).isSome := by
  simp only [ledger]

theorem read_eq (manager : FleeceStateManager) (place : Place) :
    manager.read place = manager.ledger.value (manager.pairOf place) := by
  rw [read, getNamed_eq, ledger_value, pairOf]

theorem ledger_of_fields {manager next : FleeceStateManager} (fields : next.fields = manager.fields)
    (count : next.fieldCount = manager.fieldCount) : next.ledger = manager.ledger := by
  unfold ledger liveView
  rw [view_of_same fields, count]

theorem fieldCount_stored {manager next : FleeceStateManager} {f : FieldEntry}
    (stored : manager.Stored next f) : next.fieldCount =
      if (manager.view (f.key, f.nodeId)).isSome then manager.fieldCount
      else manager.fieldCount + 1 := by
  cases stored with
  | inPlace i found fields count present marked =>
    rw [view_of_findSlotOwned found, count]
    rfl
  | appended absent room fields count present marked =>
    rw [view_eq_none_iff.mpr absent, count]
    rfl

/-- A field that is stored is put in the ledger. -/
theorem ledger_written {manager next : FleeceStateManager} (packed : manager.PackedInvariant)
    {field : FleeceGoapField} {f : FieldEntry} (stored : manager.Stored next f)
    (label : (f.key, f.nodeId) = manager.pairOf field.place)
    (record : f.record = .upserted manager.nodeId field.name field.data
      (manager.localTimestamp + 1) false) :
    next.ledger = manager.ledger.put (manager.entryOf field) := by
  have view := view_stored stored packed
  have count := fieldCount_stored stored
  rw [label] at view count
  have live : next.liveView =
      Function.update manager.liveView (manager.pairOf field.place) (some f.record) := by
    funext pair
    unfold liveView
    rw [view, Function.update_apply, Function.update_apply]
    split_ifs
    · rw [record]
      rfl
    · rfl
  refine Ledger.ext (funext fun pair => ?_) (funext fun pair => ?_) ?_
  · rw [Ledger.value_put, entryOf, ledger_value, ledger_value, live]
    rcases eq_or_ne (manager.pairOf field.place) pair with rfl | other
    · rw [Function.update_self, if_pos rfl, record]
      rfl
    · rw [Function.update_of_ne other.symm, if_neg other]
  · rw [Ledger.hasSlot_put, entryOf, ledger_hasSlot, ledger_hasSlot, view]
    rcases eq_or_ne (manager.pairOf field.place) pair with rfl | other
    · rw [Function.update_self, if_pos rfl, Option.isSome_some]
    · rw [Function.update_of_ne other.symm, if_neg other]
  · rw [Ledger.used_put, entryOf, ledger_hasSlot]
    exact count

theorem holds_entryOf_iff {manager : FleeceStateManager} {field : FleeceGoapField} :
    manager.ledger.holds (manager.entryOf field) ↔
      manager.read field.place = some field.data := by
  rw [read_eq, Ledger.holds, entryOf]

theorem accepts_entryOf_iff {manager : FleeceStateManager} {field : FleeceGoapField} :
    manager.ledger.accepts fieldCapacity (manager.entryOf field) = true ↔
      field.name.chars ≠ [] ∧ (manager.view (manager.pairOf field.place) = none →
        manager.fieldCount < fieldCapacity) := by
  rw [Ledger.accepts, entryOf, ledger_hasSlot, Bool.and_eq_true_iff, Bool.not_eq_true',
    List.isEmpty_eq_false_iff, Bool.or_eq_true_iff, decide_eq_true_iff]
  refine and_congr_right fun _ => ?_
  cases manager.view (manager.pairOf field.place) with
  | none => simp [ledger]
  | some record => simp

/-- The commit of a field, read off the ledger. -/
inductive LedgerEffect (manager : FleeceStateManager) (field : FleeceGoapField) :
    FleeceStateManager × Int → Prop
  | held (holds : manager.ledger.holds (manager.entryOf field)) :
      LedgerEffect manager field (manager, 0)
  | put (next : FleeceStateManager) (differs : ¬ manager.ledger.holds (manager.entryOf field))
      (accepted : manager.ledger.accepts fieldCapacity (manager.entryOf field) = true)
      (ledger : next.ledger = manager.ledger.put (manager.entryOf field)) :
      LedgerEffect manager field (next, 0)
  | refused (next : FleeceStateManager) (differs : ¬ manager.ledger.holds (manager.entryOf field))
      (denied : ¬ manager.ledger.accepts fieldCapacity (manager.entryOf field) = true)
      (ledger : next.ledger = manager.ledger) : LedgerEffect manager field (next, -1)

theorem commitField_ledger {manager : FleeceStateManager} (packed : manager.PackedInvariant)
    (field : FleeceGoapField) : LedgerEffect manager field (manager.commitField field) := by
  have effect := manager.commitField_effect field
  generalize manager.commitField field = result at effect ⊢
  cases effect with
  | unchanged same => exact .held (holds_entryOf_iff.mpr same)
  | written next f differs nonempty stored label record rest =>
    refine .put next (differs ∘ holds_entryOf_iff.mp) (accepts_entryOf_iff.mpr ⟨nonempty, ?_⟩)
      (ledger_written packed stored label record)
    intro absent
    rw [← label] at absent
    cases stored with
    | inPlace i found fields count present marked =>
      rw [view_of_findSlotOwned found] at absent
      cases absent
    | appended missing room fields count present marked => exact room
  | unnamed differs unnamed =>
    exact .refused manager (differs ∘ holds_entryOf_iff.mp)
      (fun accepted => (accepts_entryOf_iff.mp accepted).1 unnamed) rfl
  | noSlot differs absent full =>
    exact .refused _ (differs ∘ holds_entryOf_iff.mp)
      (fun accepted => absurd ((accepts_entryOf_iff.mp accepted).2 absent) (not_lt.mpr full))
      (ledger_of_fields rfl rfl)

/-- The commit of a field is a local write with its name, or nothing. -/
theorem commitField_next (manager : FleeceStateManager) (field : FleeceGoapField) :
    (manager.commitField field).1 = manager ∨ ∃ change : LocalWrite,
      change.name = some field.name.toCString ∧
        (manager.commitField field).1 = (Operation.write change).next manager := by
  unfold commitField
  split_ifs
  · exact Or.inl rfl
  · exact Or.inr ⟨.setShared field.name.toCString field.data, rfl, rfl⟩
  · exact Or.inr ⟨.setNamed field.name.toCString field.data, rfl, rfl⟩

/-- What local writes with short names keep, a commit keeps. -/
theorem commitFields_invariant {Invariant : FleeceStateManager → Prop}
    (keeps : ∀ manager (change : LocalWrite), change.name.all CString.isShort = true →
      Invariant manager → Invariant ((Operation.write change).next manager))
    {manager : FleeceStateManager} (start : Invariant manager) (fields : List FleeceGoapField) :
    Invariant (manager.commitFields fields).1 := by
  induction fields generalizing manager with
  | nil => exact start
  | cons field rest inductionHypothesis =>
    have kept : Invariant (manager.commitField field).1 := by
      rcases manager.commitField_next field with same | ⟨change, name, next⟩
      · rw [same]
        exact start
      · rw [next]
        refine keeps manager change ?_ start
        rw [name]
        exact FieldName.isShort field.name
    rw [commitFields_cons]
    generalize manager.commitField field = result at kept ⊢
    split_ifs
    · exact kept
    · exact inductionHypothesis kept

theorem PackedInvariant.commitField {manager : FleeceStateManager}
    (packed : manager.PackedInvariant) (field : FleeceGoapField) :
    (manager.commitField field).1.PackedInvariant := by
  rcases manager.commitField_next field with same | ⟨change, _, next⟩
  · rw [same]
    exact packed
  · rw [next]
    exact packed.operation nofun

theorem node_commitField (manager : FleeceStateManager) (field : FleeceGoapField) :
    (manager.commitField field).1.nodeId = manager.nodeId := by
  have effect := manager.commitField_effect field
  generalize manager.commitField field = result at effect ⊢
  cases effect with
  | unchanged same => rfl
  | written next f differs nonempty stored label record rest => rw [rest]
  | unnamed differs unnamed => rfl
  | noSlot differs absent full => rfl

/-- A commit brings the ledger up to date. -/
theorem commitFields_ledger {manager : FleeceStateManager} (packed : manager.PackedInvariant)
    (fields : List FleeceGoapField) : (manager.commitFields fields).1.ledger =
      manager.ledger.commit fieldCapacity (fields.map manager.entryOf) := by
  induction fields generalizing manager with
  | nil => rfl
  | cons field rest inductionHypothesis =>
    have effect := commitField_ledger packed field
    have packedNext := packed.commitField field
    have node := manager.node_commitField field
    rw [commitFields_cons, List.map_cons, Ledger.commit]
    generalize manager.commitField field = result at effect packedNext node ⊢
    have same : result.1.entryOf = manager.entryOf := by
      funext field
      simp only [entryOf, pairOf, ownerOf, node]
    cases effect with
    | held holds =>
      rw [if_neg (not_not.mpr rfl), if_pos holds]
      exact inductionHypothesis packed
    | put next differs accepted ledger =>
      rw [if_neg (not_not.mpr rfl), if_neg differs, if_pos accepted, ← ledger,
        inductionHypothesis packedNext]
      exact congrArg (fun entry => next.ledger.commit fieldCapacity (rest.map entry)) same
    | refused next differs denied ledger =>
      rw [if_pos (show (-1 : Int) ≠ 0 by decide), if_neg differs, if_neg denied]
      exact ledger

theorem node_commitFields (manager : FleeceStateManager) (fields : List FleeceGoapField) :
    (manager.commitFields fields).1.nodeId = manager.nodeId := by
  induction fields generalizing manager with
  | nil => rfl
  | cons field rest inductionHypothesis =>
    have node := manager.node_commitField field
    rw [commitFields_cons]
    generalize manager.commitField field = result at node ⊢
    split_ifs
    · exact node
    · exact (inductionHypothesis result.1).trans node

/-! ### Updates between the snapshot and the commit -/

/-- The value that a commit carries to a place: that of the last field it comes to with the hash of
the name in the namespace. -/
def carried (manager : FleeceStateManager) (bb : FleeceGoapBlackboard) (place : Place) :
    Option Blob :=
  Ledger.last (manager.ledger.reached fieldCapacity (bb.fields.map manager.entryOf))
    (manager.pairOf place)

theorem read_bbCommit_eq_iff {manager : FleeceStateManager} (packed : manager.PackedInvariant)
    (bb : FleeceGoapBlackboard) (place : Place) :
    (manager.bbCommit bb).1.read place = manager.read place ↔
      ∀ data, manager.carried bb place = some data → manager.read place = some data := by
  have pair : (manager.bbCommit bb).1.pairOf place = manager.pairOf place := by
    rw [pairOf, pairOf, ownerOf, ownerOf, bbCommit, node_commitFields]
  rw [read_eq, read_eq, pair, bbCommit, commitFields_ledger packed]
  exact Ledger.value_commit_eq_iff _ _ _

/-- A field that the commit carries to a place has its hash and its namespace. -/
theorem exists_of_carried {manager : FleeceStateManager} {bb : FleeceGoapBlackboard} {place : Place}
    {data : Blob} (carries : manager.carried bb place = some data) :
    ∃ field ∈ bb.fields, manager.pairOf field.place = manager.pairOf place ∧ field.data = data := by
  obtain ⟨entry, member, key, value⟩ := Ledger.exists_of_last carries
  obtain ⟨field, isField, rfl⟩ :=
    List.mem_map.mp ((Ledger.reached_prefix _ _).subset member)
  exact ⟨field, isField, key, value⟩

/-- After a snapshot, any operations, and a commit of any result, the fields on which the result
does not differ from the snapshot hold what they held right before the commit if and only if for
each of them the value that the commit carries to it, if any, is that value. -/
theorem commit_keeps_others_iff {nodeId : UInt64} {manager : FleeceStateManager}
    (created : createWithNodeId nodeId = some manager) (before between : List Operation)
    (tidy : Along Operation.next Tidy manager (before ++ between))
    (result : FleeceGoapBlackboard) :
    (∀ place, result.space place = (manager.after before).snapshot.space place →
      ((manager.after (before ++ between)).bbCommit result).1.read place =
        (manager.after (before ++ between)).read place) ↔
    ∀ place, result.space place = (manager.after before).snapshot.space place →
      ∀ data, (manager.after (before ++ between)).carried result place = some data →
        (manager.after (before ++ between)).read place = some data :=
  forall₂_congr fun place _ =>
    read_bbCommit_eq_iff (packedInvariant_after_tidy created tidy) result place

theorem commit_keeps_others_written :
    let value (byte : UInt8) : Blob := ⟨[byte], by rw [List.length_singleton]; decide⟩
    let goal : CString := ⟨[0x67], by decide⟩
    let home : CString := ⟨[0x68], by decide⟩
    let live := (blank 7).after
      ([.write (.setShared goal (value 1))] ++ [.write (.setNamed home (value 2))])
    let result := ((blank 7).after [.write (.setShared goal (value 1))]).snapshot
    ∀ place, (live.bbCommit result).1.read place = live.read place := by
  intro value goal home live result place
  refine (commit_keeps_others_iff (show createWithNodeId 7 = some (blank 7) from rfl) _ _ ?_
    result).mpr (fun other _ data carries => ?_) place rfl
  · exact ⟨nofun, nofun, trivial⟩
  · obtain ⟨field, member, pair, rfl⟩ := exists_of_carried carries
    have mirrors : ∀ field ∈ result.fields, live.read field.place = some field.data := by
      decide +kernel
    have held := mirrors field member
    rw [read_eq] at held ⊢
    rw [← held]
    exact congrArg live.ledger.value pair.symm

/-- The shared field `g` is 1 in the snapshot and is set to 2 in the live store; the body only sets
`h`. The commit sets `g` back to 1. -/
theorem commit_loses_update :
    let value (byte : UInt8) : Blob := ⟨[byte], by rw [List.length_singleton]; decide⟩
    let goal : CString := ⟨[0x67], by decide⟩
    let home : CString := ⟨[0x68], by decide⟩
    let taken := ((blank 7).after [.write (.setShared goal (value 1))]).snapshot
    let live := (blank 7).after
      ([.write (.setShared goal (value 1))] ++ [.write (.setShared goal (value 2))])
    let result := (taken.set home (value 3) false).1
    (∀ place, place ≠ (home, false) → result.space place = taken.space place) ∧
      live.read (goal, true) = some (value 2) ∧
      (live.bbCommit result).2 = 0 ∧
      (live.bbCommit result).1.read (goal, true) = some (value 1) := by
  intro value goal home taken live result
  refine ⟨fun place other => ?_, ?_, ?_, ?_⟩
  · refine (FleeceGoapBlackboard.space_set
      (show FleeceGoapBlackboard.accepts home (value 3) = true from rfl) place).trans ?_
    rw [if_neg other]
    split_ifs with same
    · obtain ⟨name, isShared⟩ := place
      obtain rfl : name = home := same
      cases isShared with
      | false => exact absurd rfl other
      | true => decide +kernel
    · rfl
  · decide +kernel
  · decide +kernel
  · decide +kernel

/-! ### A commit that stores every field -/

section Whole

variable {manager : FleeceStateManager}

/-- No two of the fields go to one slot, each has a name, and the slots suffice. -/
structure Storable (manager : FleeceStateManager) (fields : List FleeceGoapField) : Prop where
  named : ∀ field ∈ fields, field.name.chars ≠ []
  apart : (fields.map fun field => manager.pairOf field.place).Nodup
  room : manager.fieldCount +
    (fields.filter fun field => (manager.view (manager.pairOf field.place)).isNone).length ≤
      fieldCapacity

/-- The record under the pair of a field after its commit: the one that was there, if it gave the
field's bytes, and else a new one. -/
structure StoredAs (manager next : FleeceStateManager) (field : FleeceGoapField) : Prop where
  kept : manager.read field.place = some field.data →
    next.view (manager.pairOf field.place) = manager.view (manager.pairOf field.place)
  written : manager.read field.place ≠ some field.data → ∃ timestamp,
    next.view (manager.pairOf field.place) =
      some (.upserted manager.nodeId field.name field.data timestamp false)

/-- The commit of a field with a name and a slot. -/
structure StoresField (manager : FleeceStateManager) (field : FleeceGoapField)
    (result : FleeceStateManager × Int) : Prop where
  code : result.2 = 0
  node : result.1.nodeId = manager.nodeId
  others : ∀ pair, manager.pairOf field.place ≠ pair → result.1.view pair = manager.view pair
  stored : manager.StoredAs result.1 field
  count : result.1.fieldCount = manager.fieldCount +
    if (manager.view (manager.pairOf field.place)).isNone then 1 else 0

theorem isSome_view_of_read {place : Place} {data : Blob}
    (found : manager.read place = some data) :
    ∃ record, manager.liveView (manager.pairOf place) = some record ∧ record.data = data ∧
      manager.view (manager.pairOf place) = some record := by
  rw [read_eq, ledger_value] at found
  obtain ⟨record, live, data⟩ := Option.map_eq_some_iff.mp found
  exact ⟨record, live, data, (Option.filter_eq_some_iff.mp live).1⟩

theorem commitField_stores (packed : manager.PackedInvariant) {field : FleeceGoapField}
    (named : field.name.chars ≠ [])
    (room : manager.view (manager.pairOf field.place) = none →
      manager.fieldCount < fieldCapacity) :
    manager.StoresField field (manager.commitField field) := by
  have effect := manager.commitField_effect field
  generalize manager.commitField field = result at effect ⊢
  cases effect with
  | unchanged same =>
    obtain ⟨record, _, _, held⟩ := isSome_view_of_read same
    refine ⟨rfl, rfl, fun _ _ => rfl, ?_, ?_⟩
    · exact ⟨fun _ => rfl, absurd same⟩
    · rw [held]
      rfl
  | written next f differs nonempty stored label record rest =>
    have view := view_stored stored packed
    have count := fieldCount_stored stored
    rw [label] at view count
    refine ⟨rfl, by rw [rest], fun pair other => ?_, ?_, ?_⟩
    · rw [view, Function.update_of_ne other.symm]
    · refine ⟨fun same => absurd same differs, fun _ => ⟨manager.localTimestamp + 1, ?_⟩⟩
      rw [view, Function.update_self, record]
    · rw [count]
      cases manager.view (manager.pairOf field.place) with
      | none => rfl
      | some record => rfl
  | unnamed differs unnamed => exact absurd unnamed named
  | noSlot differs absent full => exact absurd (room absent) (not_lt.mpr full)

/-- What a field is stored as does not depend on what is stored under other pairs. -/
theorem StoredAs.of_view {next last : FleeceStateManager} {field : FleeceGoapField}
    (stored : next.StoredAs last field) (node : next.nodeId = manager.nodeId)
    (same : next.view (manager.pairOf field.place) = manager.view (manager.pairOf field.place)) :
    manager.StoredAs last field := by
  have pair : next.pairOf field.place = manager.pairOf field.place := by
    rw [pairOf, pairOf, ownerOf, ownerOf, node]
  have read : next.read field.place = manager.read field.place := by
    rw [read_eq, read_eq, ledger_value, ledger_value, pair, liveView, liveView, same]
  obtain ⟨kept, written⟩ := stored
  rw [read, pair] at kept written
  rw [node] at written
  exact ⟨fun holds => (kept holds).trans same, written⟩

theorem Storable.head {field : FleeceGoapField} {rest : List FleeceGoapField}
    (storable : manager.Storable (field :: rest)) :
    field.name.chars ≠ [] ∧ (manager.view (manager.pairOf field.place) = none →
      manager.fieldCount < fieldCapacity) := by
  refine ⟨storable.named field List.mem_cons_self, fun absent => ?_⟩
  have room := storable.room
  rw [List.filter_cons, absent, Option.isNone_none, if_pos rfl, List.length_cons] at room
  omega

theorem Storable.tail {field : FleeceGoapField} {rest : List FleeceGoapField}
    (storable : manager.Storable (field :: rest)) {result : FleeceStateManager × Int}
    (stores : manager.StoresField field result) : result.1.Storable rest := by
  obtain ⟨named, apart, room⟩ := storable
  rw [List.map_cons, List.nodup_cons] at apart
  have pair : result.1.pairOf = manager.pairOf := by
    funext place
    rw [pairOf, pairOf, ownerOf, ownerOf, stores.node]
  refine ⟨fun other member => named other (List.mem_cons_of_mem _ member), ?_, ?_⟩
  · rw [pair]
    exact apart.2
  · have same : (rest.filter fun other => (result.1.view (result.1.pairOf other.place)).isNone) =
        rest.filter fun other => (manager.view (manager.pairOf other.place)).isNone := by
      refine List.filter_congr fun other member => ?_
      rw [pair, stores.others _ fun clash => apart.1 (clash ▸ List.mem_map_of_mem member)]
    rw [same, stores.count]
    rw [List.filter_cons] at room
    split_ifs at room ⊢
    · rw [List.length_cons] at room
      omega
    · omega

/-- Every field is stored, and the other pairs are left alone. -/
theorem commitFields_view (packed : manager.PackedInvariant) {fields : List FleeceGoapField}
    (storable : manager.Storable fields) :
    (∀ pair, (∀ field ∈ fields, manager.pairOf field.place ≠ pair) →
      (manager.commitFields fields).1.view pair = manager.view pair) ∧
      ∀ field ∈ fields, manager.StoredAs (manager.commitFields fields).1 field := by
  induction fields generalizing manager with
  | nil =>
    refine ⟨fun pair _ => ?_, nofun⟩
    rw [commitFields_nil]
  | cons field rest inductionHypothesis =>
    obtain ⟨named, room⟩ := storable.head
    have stores := commitField_stores packed named room
    have packedNext := packed.commitField field
    have apart := (List.nodup_cons.mp storable.apart).1
    rw [commitFields_cons]
    generalize manager.commitField field = result at stores packedNext ⊢
    rw [if_neg (not_not.mpr stores.code)]
    obtain ⟨others, stored⟩ := inductionHypothesis packedNext (storable.tail stores)
    have pair : result.1.pairOf = manager.pairOf := by
      funext place
      rw [pairOf, pairOf, ownerOf, ownerOf, stores.node]
    rw [pair] at others
    refine ⟨fun wanted absent => ?_, fun other member => ?_⟩
    · rw [others wanted fun other member => absent other (List.mem_cons_of_mem _ member)]
      exact stores.others wanted (absent field List.mem_cons_self)
    · rcases List.mem_cons.mp member with first | later
      · have same := others (manager.pairOf field.place) fun after isAfter clash =>
          apart (List.mem_map.mpr ⟨after, isAfter, clash⟩)
        obtain ⟨kept, written⟩ := stores.stored
        rw [first]
        rw [← same] at kept written
        exact ⟨kept, written⟩
      · refine (stored other later).of_view stores.node (stores.others _ fun clash => ?_)
        exact apart (List.mem_map.mpr ⟨other, later, clash.symm⟩)

end Whole

end FleeceStateManager

end Fleece
