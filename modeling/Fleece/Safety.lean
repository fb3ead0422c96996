/-
This file proves that an import is safe on arbitrary bytes. The reader never leaves
the frame, because every length is checked against the space that is left before it
is used; every record it reads takes at least one byte, so the record loop stops
within the size of the frame whatever count the frame declares; and what the loop
does to the store, wherever it stops, is a sequence of merges, which leaves the
slots of the local node alone and never lowers a version.
-/

import Fleece.History

namespace Fleece

/-! ### Reads stay inside -/

/-- A read from `pos` was refused, or went forward and stayed inside. It did not read outside
the buffer. -/
def SafeRead {Result : Type} (size pos : Nat) (position : Result → Nat) :
    Except Halt Result → Prop
  | .error halt => halt = .rejected
  | .ok result => pos < position result ∧ position result ≤ size

theorem SafeRead.bound {Result : Type} {size pos : Nat} {position : Result → Nat}
    {read : Except Halt Result} (safe : SafeRead size pos position read) {result : Result}
    (found : read = .ok result) : position result ≤ size := by
  rw [found] at safe
  exact safe.2

theorem SafeRead.bind {First Second : Type} {size pos : Nat} {place : First → Nat}
    {position : Second → Nat} {read : Except Halt First} {rest : First → Except Halt Second}
    (safe : SafeRead size pos place read)
    (safeRest : ∀ first, pos < place first → place first ≤ size →
      SafeRead size pos position (rest first)) :
    SafeRead size pos position (read >>= rest) := by
  cases read with
  | error halt => exact safe
  | ok first => exact safeRest first safe.1 safe.2

/-- A check that refuses the frame. -/
theorem SafeRead.guard {Result : Type} {size pos : Nat} {position : Result → Nat} {bad : Prop}
    [Decidable bad] {read : Except Halt Result} (safe : ¬ bad → SafeRead size pos position read) :
    SafeRead size pos position (if bad then .error .rejected else read) := by
  split_ifs with wrong
  · exact rfl
  · exact safe wrong

/-- A read that starts later is safe from earlier on. -/
theorem SafeRead.from {Result : Type} {size pos start : Nat} {position : Result → Nat}
    {read : Except Halt Result} (safe : SafeRead size pos position read) (earlier : start ≤ pos) :
    SafeRead size start position read := by
  cases read with
  | error halt => exact safe
  | ok result => exact ⟨earlier.trans_lt safe.1, safe.2⟩

section Reads

variable {buf : List UInt8} {size : Nat} (whole : size ≤ buf.length) (small : size < 2 ^ 63)
include whole small

theorem readMajor_safe {pos : Nat} (inside : pos ≤ size) (major : UInt8) :
    SafeRead size pos Prod.snd (readMajor buf size pos major) := by
  unfold readMajor
  rcases readHead_cases whole pos (inside.trans_lt small) with refused | ⟨head, read, bound, width⟩
  · rw [refused]
    exact rfl
  · rw [read]
    refine .guard fun _ => ⟨?_, bound⟩
    show pos < head.pos
    omega

omit small in
theorem slice_of_le {pos len : Nat} (inside : pos + len ≤ size) :
    slice buf pos len = .ok ((buf.drop pos).take len) := by
  rw [slice, if_pos (inside.trans whole)]

theorem readBody_safe {pos : Nat} (inside : pos ≤ size) (origin : UInt64) :
    SafeRead size pos Prod.snd (readBody origin buf size pos) := by
  unfold readBody
  refine (readMajor_safe whole small inside 7).bind ?_
  rintro ⟨flag, flagEnd⟩ (flagAfter : pos < flagEnd) (flagIn : flagEnd ≤ size)
  refine .guard fun _ => ((readMajor_safe whole small flagIn 3).from flagAfter.le).bind ?_
  rintro ⟨nameLen, nameStart⟩ (nameAfter : pos < nameStart) -
  refine .guard fun nameBad => ?_
  have nameIn : nameStart + nameLen.toNat ≤ size := boundsOk_iff.mp (by simpa using nameBad)
  rw [slice_of_le whole (show nameStart + min nameLen.toNat (fieldNameMax - 1) ≤ size from
    (Nat.add_le_add_left (min_le_left _ _) _).trans nameIn)]
  have nameEnd : pos ≤ nameStart + nameLen.toNat := nameAfter.le.trans (Nat.le_add_right _ _)
  refine ((readMajor_safe whole small nameIn 0).from nameEnd).bind ?_
  rintro ⟨stamp, stampEnd⟩ (stampAfter : pos < stampEnd) (stampIn : stampEnd ≤ size)
  refine ((readMajor_safe whole small stampIn 2).from stampAfter.le).bind ?_
  rintro ⟨dataLen, dataStart⟩ (dataAfter : pos < dataStart) -
  refine .guard fun dataBad => ?_
  have dataIn : dataStart + dataLen.toNat ≤ size := boundsOk_iff.mp (by simpa using dataBad)
  rw [slice_of_le whole dataIn]
  exact ⟨dataAfter.trans_le (Nat.le_add_right _ _), dataIn⟩

theorem readRecord_safe {pos : Nat} (inside : pos ≤ size) (owner : UInt64) :
    SafeRead size pos Prod.snd (readRecord owner buf size pos) := by
  unfold readRecord
  refine (readMajor_safe whole small inside 4).bind ?_
  rintro ⟨arity, arityEnd⟩ (arityAfter : pos < arityEnd) (arityIn : arityEnd ≤ size)
  have author : SafeRead size pos Prod.snd (readAuthor owner buf size arityEnd) := by
    unfold readAuthor
    split_ifs
    · exact (readMajor_safe whole small arityIn 0).from arityAfter.le
    · exact ⟨arityAfter, arityIn⟩
  exact .guard fun _ => author.bind fun author after authorIn =>
    (readBody_safe whole small authorIn author.1).from after.le

theorem readSender_safe (nodeId : UInt64) :
    SafeRead size 3 Prod.snd (readSender nodeId buf size) := by
  unfold readSender
  refine .guard fun short => ?_
  have inside : 3 ≤ size := not_lt.mp short
  rw [slice_of_le whole (show 0 + 3 ≤ size from inside)]
  refine .guard fun _ => (readMajor_safe whole small inside 4).bind ?_
  rintro ⟨arity, arityEnd⟩ (arityAfter : 3 < arityEnd) (arityIn : arityEnd ≤ size)
  refine .guard fun _ => ((readMajor_safe whole small arityIn 0).from arityAfter.le).bind ?_
  rintro ⟨sender, senderEnd⟩ senderAfter senderIn
  exact .guard fun _ => ⟨senderAfter, senderIn⟩

theorem readStream_safe {pos : Nat} (inside : pos ≤ size) (nodeId : UInt64) :
    SafeRead size pos StreamHeader.pos (readStream nodeId buf size pos) := by
  unfold readStream
  refine (readMajor_safe whole small inside 0).bind ?_
  rintro ⟨owner, ownerEnd⟩ (ownerAfter : pos < ownerEnd) (ownerIn : ownerEnd ≤ size)
  refine .guard fun _ => ((readMajor_safe whole small ownerIn 0).from ownerAfter.le).bind ?_
  rintro ⟨_, hwEnd⟩ (hwAfter : pos < hwEnd) (hwIn : hwEnd ≤ size)
  refine ((readMajor_safe whole small hwIn 0).from hwAfter.le).bind ?_
  rintro ⟨_, digestEnd⟩ digestAfter digestIn
  exact ⟨digestAfter, digestIn⟩

open FleeceStateManager in
/-- The record loop never reads outside, and starts at most one record for each byte that is
left, and the one that fails. -/
theorem importRecords_safe (owner : UInt64) (manager : FleeceStateManager) (count : Nat) {pos : Nat}
    (inside : pos ≤ size) :
    (importRecords owner buf size manager count pos).code ≠ .error .outOfBounds ∧
      (importRecords owner buf size manager count pos).iterations ≤ size - pos + 1 := by
  induction count generalizing manager pos with
  | zero => exact ⟨nofun, Nat.zero_le _⟩
  | succ count inductionHypothesis =>
    have safe := readRecord_safe whole small inside owner
    unfold importRecords
    cases read : readRecord owner buf size pos with
    | error halt =>
      rw [read] at safe
      refine ⟨fun outside => ?_, Nat.le_add_left _ _⟩
      rw [Except.error.inj outside] at safe
      cases safe
    | ok result =>
      rw [read] at safe
      obtain ⟨record, after⟩ := result
      obtain ⟨(forward : pos < after), (bound : after ≤ size)⟩ := safe
      obtain ⟨code, iterations⟩ :=
        inductionHypothesis (record.elim manager (manager.mergeRecord owner)) bound
      refine ⟨code, ?_⟩
      show _ + 1 ≤ _
      omega

end Reads

namespace FleeceStateManager

/-- An import never reads outside its frame, and starts at most as many records as the frame has
bytes. -/
theorem importFrom_safe (manager : FleeceStateManager) (frame : Blob) :
    (manager.importFrom frame).code ≠ .error .outOfBounds ∧
      (manager.importFrom frame).iterations ≤ frame.size := by
  have whole : frame.size ≤ frame.bytes.length := le_refl _
  have small : frame.size < 2 ^ 63 := frame.sizeLt.trans (by decide)
  have refusal {halt : Halt} (rejected : halt = .rejected) (stopped : FleeceStateManager)
      (sender : Option UInt64) :
      (stopped.refused halt sender).code ≠ .error .outOfBounds ∧
        (stopped.refused halt sender).iterations ≤ frame.size := by
    rw [rejected]
    exact ⟨nofun, Nat.zero_le _⟩
  unfold importFrom importImpl
  have senderSafe := readSender_safe whole small manager.nodeId
  cases senderRead : readSender manager.nodeId frame.bytes frame.size with
  | error halt =>
    rw [senderRead] at senderSafe
    exact refusal senderSafe manager none
  | ok sender =>
    rw [senderRead] at senderSafe
    obtain ⟨senderAfter, senderIn⟩ := senderSafe
    have streamSafe := readStream_safe whole small senderIn manager.nodeId
    simp only
    cases streamRead : readStream manager.nodeId frame.bytes frame.size sender.2 with
    | error halt =>
      rw [streamRead] at streamSafe
      exact refusal streamSafe manager sender.1
    | ok stream =>
      rw [streamRead] at streamSafe
      obtain ⟨streamAfter, streamIn⟩ := streamSafe
      have countSafe := readMajor_safe whole small streamIn 4
      simp only
      cases countRead : readMajor frame.bytes frame.size stream.pos 4 with
      | error halt =>
        rw [countRead] at countSafe
        exact refusal countSafe (manager.touchPeer sender.1) sender.1
      | ok count =>
        rw [countRead] at countSafe
        obtain ⟨countAfter, countIn⟩ := countSafe
        obtain ⟨code, iterations⟩ := importRecords_safe whole small stream.ownerNodeId
          (manager.touchPeer sender.1) count.1.toNat countIn
        have enough : frame.size - count.2 + 1 ≤ frame.size := by omega
        simp only [importStream]
        split
        · rename_i halt stopped
          exact ⟨fun outside => code (stopped.trans outside), iterations.trans enough⟩
        · exact ⟨nofun, iterations.trans enough⟩

/-! ### The array without compactions -/

/-- The existing slots are exactly those before `field_count`. -/
def PackedSlots (manager : FleeceStateManager) : Prop :=
  ∀ i, (manager.fields i).slotExists = true ↔ i.val < manager.fieldCount

theorem Stored.packed {manager next : FleeceStateManager} {f : FieldEntry}
    (stored : Stored manager next f) (packed : manager.PackedSlots) : next.PackedSlots := by
  obtain ⟨i, fields, present, _, place⟩ := stored.index
  intro j
  rw [fields]
  rcases eq_or_ne j i with rfl | different
  · rw [Function.update_self]
    refine iff_of_true present ?_
    rcases place with ⟨found, count⟩ | ⟨_, index, count⟩
    · rw [count]
      exact (packed j).mp (label_of_findSlotOwned found).1
    · rw [count, index]
      exact Nat.lt_succ_self _
  · rw [Function.update_of_ne different, packed j]
    rcases place with ⟨_, count⟩ | ⟨_, index, count⟩
    · rw [count]
    · rw [count, Nat.lt_succ_iff_lt_or_eq, or_iff_left]
      exact fun same => different (Fin.ext (same.trans index.symm))

theorem packed_of_same {manager next : FleeceStateManager} (fields : next.fields = manager.fields)
    (count : next.fieldCount = manager.fieldCount) (packed : manager.PackedSlots) :
    next.PackedSlots := by
  intro i
  rw [fields, count, packed i]

theorem mergeSteps_packed {manager next : FleeceStateManager}
    (steps : Relation.ReflTransGen MergeStep manager next) (packed : manager.PackedSlots) :
    next.PackedSlots := by
  induction steps with
  | refl => exact packed
  | tail _ step inductionHypothesis =>
    cases step with
    | quiet fields count => exact packed_of_same fields count inductionHypothesis
    | merge f stored => exact stored.packed inductionHypothesis

theorem markSteps_packed {manager next : FleeceStateManager}
    (steps : Relation.ReflTransGen MarkStep manager next) (packed : manager.PackedSlots) :
    next.PackedSlots := by
  obtain ⟨rest, same⟩ := markSteps_rest steps
  intro i
  rw [read_of_unmarked (same i) FieldEntry.slotExists fun _ => rfl, packed i, rest]

theorem operation_packed {manager : FleeceStateManager} (store : manager.StoreInvariant)
    (packed : manager.PackedSlots) {operation : Operation} (stays : operation ≠ .compact) :
    (operation.next manager).PackedSlots := by
  rcases operation_effect store operation with ⟨change, isWrite, effect⟩ | merges | marks | compact
  · cases effect with
    | unchanged same => rwa [same]
    | noSlot fields count => exact packed_of_same fields count packed
    | wrote f stored => exact stored.packed packed
  · exact mergeSteps_packed merges packed
  · exact markSteps_packed marks packed
  · exact absurd compact stays

/-- The states a run without `compact` reaches. -/
structure PackedInvariant (manager : FleeceStateManager) : Prop where
  store : manager.StoreInvariant
  packed : manager.PackedSlots

theorem packedInvariant_create {nodeId : UInt64} {manager : FleeceStateManager}
    (created : createWithNodeId nodeId = some manager) : manager.PackedInvariant := by
  refine ⟨storeInvariant_create created, fun i => ?_⟩
  unfold createWithNodeId at created
  split_ifs at created
  rw [← Option.some.inj created]
  exact iff_of_false Bool.false_ne_true (Nat.not_lt_zero _)

theorem packedInvariant_after {nodeId : UInt64} {manager : FleeceStateManager}
    (created : createWithNodeId nodeId = some manager) {operations : List Operation}
    (uncompacted : .compact ∉ operations) : (manager.after operations).PackedInvariant := by
  have along : Along Operation.next (fun _ operation => operation ≠ .compact) manager operations :=
    Along.of_forall fun operation member => fun same => uncompacted (same ▸ member)
  exact along.invariant (fun _ _ holds stays => ⟨operation_storeInvariant holds.store _,
    operation_packed holds.store holds.packed stays⟩) (packedInvariant_create created)

/-! ### What an import spares -/

/-- Every slot is still there under its key and owner and under a version that is not lower, the
slots of the local node are the same, and the clock has not gone back. -/
structure Spares (manager next : FleeceStateManager) : Prop where
  node : next.nodeId = manager.nodeId
  kept : ∀ i, (manager.fields i).slotExists = true →
    fieldLabel (next.fields i) = fieldLabel (manager.fields i) ∧
      (manager.fields i).version ≤ (next.fields i).version
  own : ∀ i, fieldLabel (manager.fields i) = some ((manager.fields i).key, manager.nodeId) ∨
      fieldLabel (next.fields i) = some ((next.fields i).key, manager.nodeId) →
    next.fields i = manager.fields i
  clock : manager.localTimestamp ≤ next.localTimestamp

theorem spares_of_same {manager next : FleeceStateManager} (fields : next.fields = manager.fields)
    (node : next.nodeId = manager.nodeId)
    (clock : manager.localTimestamp ≤ next.localTimestamp) : manager.Spares next where
  node := node
  kept := fun i _ => by
    rw [fields]
    exact ⟨rfl, le_refl _⟩
  own := fun i _ => by rw [fields]
  clock := clock

theorem Spares.trans {first second third : FleeceStateManager} (lower : first.Spares second)
    (upper : second.Spares third) : first.Spares third := by
  refine ⟨upper.node.trans lower.node, fun i present => ?_, fun i own => ?_,
    UInt64.le_trans lower.clock upper.clock⟩
  · obtain ⟨label, version⟩ := lower.kept i present
    have presentSecond : (second.fields i).slotExists = true := by
      rw [fieldLabel_of_exists present] at label
      exact (fieldLabel_eq_some_iff.mp label).1
    obtain ⟨labelNext, versionNext⟩ := upper.kept i presentSecond
    exact ⟨labelNext.trans label, version.trans versionNext⟩
  · have upperOwn := upper.own i
    rw [lower.node] at upperOwn
    rcases own with before | after
    · have same := lower.own i (Or.inl before)
      exact (upperOwn (Or.inl (same ▸ before))).trans same
    · have same := upperOwn (Or.inr after)
      exact same.trans (lower.own i (Or.inr (same ▸ after)))

theorem Stored.spares {manager next : FleeceStateManager} {f : FieldEntry}
    (stored : Stored manager next f) (packed : manager.PackedSlots)
    (node : next.nodeId = manager.nodeId) (clock : manager.localTimestamp ≤ next.localTimestamp)
    (foreign : f.nodeId ≠ manager.nodeId)
    (newer : ∀ old, manager.lookup f.key f.nodeId = some old → old.version < f.version) :
    manager.Spares next := by
  obtain ⟨i, fields, present, _, place⟩ := stored.index
  refine ⟨node, fun j existed => ?_, fun j own => ?_, clock⟩
  · rw [fields]
    rcases eq_or_ne j i with rfl | different
    · rw [Function.update_self]
      rcases place with ⟨found, _⟩ | ⟨_, index, _⟩
      · obtain ⟨_, keyEq, ownerEq⟩ := label_of_findSlotOwned found
        rw [fieldLabel_of_exists present, fieldLabel_of_exists existed, keyEq, ownerEq]
        exact ⟨rfl, (newer _ (lookup_of_findSlotOwned found)).le⟩
      · exact absurd ((packed j).mp existed) (by rw [index]; exact lt_irrefl _)
    · rw [Function.update_of_ne different]
      exact ⟨rfl, le_refl _⟩
  · rw [fields] at own ⊢
    rcases eq_or_ne j i with rfl | different
    · rw [Function.update_self] at own ⊢
      rcases own with before | after
      · obtain ⟨existed, _, owner⟩ := fieldLabel_eq_some_iff.mp before
        rcases place with ⟨found, _⟩ | ⟨_, index, _⟩
        · exact absurd ((label_of_findSlotOwned found).2.2.symm.trans owner) foreign
        · exact absurd ((packed j).mp existed) (by rw [index]; exact lt_irrefl _)
      · exact absurd (fieldLabel_eq_some_iff.mp after).2.2 foreign
    · rw [Function.update_of_ne different]

theorem mergeSteps_spare {manager next : FleeceStateManager}
    (steps : Relation.ReflTransGen MergeStep manager next) (packed : manager.PackedSlots) :
    manager.Spares next := by
  induction steps with
  | refl => exact spares_of_same rfl rfl (UInt64.le_refl _)
  | tail before step inductionHypothesis =>
    refine inductionHypothesis.trans ?_
    cases step with
    | quiet fields count node clock => exact spares_of_same fields node clock
    | merge f stored node clock stamp foreign named filled authored newer =>
      refine stored.spares (mergeSteps_packed before packed) node ?_ foreign fun old found =>
        version_lt_iff.mpr (newer old found)
      rw [clock]
      exact UInt64.le_refl _

/-- An import of any bytes, in any state reached without `compact`: it starts at most as many
records as the frame has bytes, never reads outside the frame, and, whatever it returns, leaves
the slots of the local node alone, lowers no version, removes no slot and does not turn the clock
back, within the capacity and with at most one slot for a key and an owner. -/
theorem import_safe {nodeId : UInt64} {manager : FleeceStateManager}
    (created : createWithNodeId nodeId = some manager) (operations : List Operation)
    (uncompacted : .compact ∉ operations) (frame : Blob) :
    ((manager.after operations).importFrom frame).iterations ≤ frame.size ∧
      ((manager.after operations).importFrom frame).code ≠ .error .outOfBounds ∧
      (manager.after operations).Spares ((manager.after operations).importFrom frame).manager ∧
      ((manager.after operations).importFrom frame).manager.fieldCount ≤ fieldCapacity ∧
      ((manager.after operations).importFrom frame).manager.DistinctSlots := by
  obtain ⟨store, packed⟩ := packedInvariant_after created uncompacted
  obtain ⟨inside, iterations⟩ := importFrom_safe (manager.after operations) frame
  have steps := importFrom_steps store.realNode frame
  obtain ⟨storeNext, _⟩ := mergeSteps_keep steps store
  exact ⟨iterations, inside, mergeSteps_spare steps packed, storeNext.countLe, storeNext.distinct⟩

/-- A frame that declares `2^64 - 1` records and ends inside the first is refused after one of
them, in a state with a slot of the local node. -/
theorem import_safe_truncated :
    let frame : Blob := ⟨[0x46, 0x47, 5, 0x85, 2, 0, 0, 0, 0x9b, 0xff, 0xff, 0xff, 0xff, 0xff, 0xff,
      0xff, 0xff, 0x85, 2], by decide⟩
    let before := [Operation.write (.set 1 ⟨[1], by decide⟩)]
    (((blank 7).after before).importFrom frame).code = .error .rejected ∧
      (((blank 7).after before).importFrom frame).iterations ≤ frame.size ∧
      ((blank 7).after before).Spares (((blank 7).after before).importFrom frame).manager := by
  intro frame before
  obtain ⟨iterations, _, spares, _⟩ := import_safe
    (show createWithNodeId 7 = some (blank 7) from rfl) before (by simp [before]) frame
  exact ⟨by decide +kernel, iterations, spares⟩

end FleeceStateManager

end Fleece
