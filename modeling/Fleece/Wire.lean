/-
This file separates what a gossip frame says from what is done with it. A frame is
parsed into its sender, its stream and its records, and an import is the merge of
these records, in order, after the sender has been touched. On the other side the
exporters encode the contents of a frame, and the parser recovers them: all of them
where the size of the frame fits 32 bits, and otherwise those that lie before the
cut.
-/

import Fleece.Effects

namespace Fleece

/-! ### Parsing -/

/-- The records the loop of an import goes through, and the halt if there was one. -/
def parseRecords (ownerNodeId : UInt64) (buf : List UInt8) (size : Nat) :
    Nat → Nat → List GossipRecord × Except Halt Unit
  | 0, _ => ([], .ok ())
  | count + 1, pos =>
    match readRecord ownerNodeId buf size pos with
    | .error halt => ([], .error halt)
    | .ok (record, pos) =>
      let rest := parseRecords ownerNodeId buf size count pos
      (record.toList ++ rest.1, rest.2)

/-- A frame that was not refused before its sender was touched. -/
structure ParsedFrame where
  senderNodeId : UInt64
  ownerNodeId : UInt64
  digest : UInt64
  records : List GossipRecord
  code : Except Halt Unit

/-- The frame as the node `nodeId` reads it. -/
def parseFrame (nodeId : UInt64) (frame : Blob) : Except Halt ParsedFrame := do
  let (sender, pos) ← readSender nodeId frame.bytes frame.size
  let stream ← readStream nodeId frame.bytes frame.size pos
  match readMajor frame.bytes frame.size stream.pos 4 with
  | .error halt => .ok ⟨sender, stream.ownerNodeId, stream.digest, [], .error halt⟩
  | .ok (count, pos) =>
    let parsed := parseRecords stream.ownerNodeId frame.bytes frame.size count.toNat pos
    .ok ⟨sender, stream.ownerNodeId, stream.digest, parsed.1, parsed.2⟩

/-- The reads behind a frame that was not refused. -/
theorem reads_of_parseFrame {nodeId : UInt64} {frame : Blob} {parsed : ParsedFrame}
    (read : parseFrame nodeId frame = .ok parsed) :
    ∃ senderEnd stream, readSender nodeId frame.bytes frame.size =
        .ok (parsed.senderNodeId, senderEnd) ∧
      readStream nodeId frame.bytes frame.size senderEnd = .ok stream ∧
      parsed.ownerNodeId = stream.ownerNodeId ∧
      (parsed.records = [] ∨
        ∃ count pos, readMajor frame.bytes frame.size stream.pos 4 = .ok (count, pos) ∧
          parsed.records =
            (parseRecords stream.ownerNodeId frame.bytes frame.size count.toNat pos).1) := by
  unfold parseFrame at read
  cases sender : readSender nodeId frame.bytes frame.size with
  | error halt =>
    rw [sender] at read
    cases read
  | ok first =>
    simp only [sender, bind, Except.bind] at read
    cases header : readStream nodeId frame.bytes frame.size first.2 with
    | error halt =>
      rw [header] at read
      cases read
    | ok stream =>
      simp only [header] at read
      refine ⟨first.2, stream, ?_⟩
      cases counted : readMajor frame.bytes frame.size stream.pos 4 with
      | error halt =>
        rw [counted] at read
        cases read
        exact ⟨rfl, header, rfl, .inl rfl⟩
      | ok count =>
        rw [counted] at read
        cases read
        exact ⟨rfl, header, rfl, .inr ⟨count.1, count.2, rfl, rfl⟩⟩

namespace FleeceStateManager

/-- The records of a stream merged in order. -/
def mergeRecords (manager : FleeceStateManager) (ownerNodeId : UInt64)
    (records : List GossipRecord) : FleeceStateManager :=
  records.foldl (mergeRecord ownerNodeId) manager

theorem mergeRecords_cons (manager : FleeceStateManager) (owner : UInt64) (record : GossipRecord)
    (rest : List GossipRecord) : manager.mergeRecords owner (record :: rest) =
      (manager.mergeRecord owner record).mergeRecords owner rest := rfl

theorem importRecords_eq (owner : UInt64) (buf : List UInt8) (size count : Nat)
    (manager : FleeceStateManager) (pos : Nat) :
    (importRecords owner buf size manager count pos).manager =
        manager.mergeRecords owner (parseRecords owner buf size count pos).1 ∧
      (importRecords owner buf size manager count pos).code =
        (parseRecords owner buf size count pos).2 := by
  induction count generalizing manager pos with
  | zero => exact ⟨rfl, rfl⟩
  | succ count inductionHypothesis =>
    unfold importRecords parseRecords
    cases readRecord owner buf size pos with
    | error halt => exact ⟨rfl, rfl⟩
    | ok result =>
      obtain ⟨record, after⟩ := result
      obtain ⟨managerEq, codeEq⟩ :=
        inductionHypothesis (record.elim manager (manager.mergeRecord owner)) after
      refine ⟨managerEq.trans ?_, codeEq⟩
      cases record with
      | none => rfl
      | some record => rfl

/-- What an import leaves behind is the merge of what was parsed. -/
theorem importFrom_manager (manager : FleeceStateManager) (frame : Blob) :
    (manager.importFrom frame).manager =
      match parseFrame manager.nodeId frame with
      | .error _ => manager
      | .ok parsed =>
        (manager.touchPeer parsed.senderNodeId).mergeRecords parsed.ownerNodeId parsed.records := by
  unfold importFrom importImpl parseFrame
  cases readSender manager.nodeId frame.bytes frame.size with
  | error halt => rfl
  | ok sender =>
    simp only [bind, Except.bind]
    cases readStream manager.nodeId frame.bytes frame.size sender.2 with
    | error halt => rfl
    | ok stream =>
      simp only
      cases readMajor frame.bytes frame.size stream.pos 4 with
      | error halt => rfl
      | ok count =>
        simp only
        rw [importStream_manager]
        exact (importRecords_eq _ _ _ _ _ _).1

/-- There is a slot for a record under the pair: its own, or a free one. -/
def hasSlot (manager : FleeceStateManager) (pair : UInt32 × UInt64) : Bool :=
  (manager.view pair).isSome || decide (manager.fieldCount < fieldCapacity)

theorem not_full_of_hasSlot {manager : FleeceStateManager} {pair : UInt32 × UInt64}
    (slot : manager.hasSlot pair = true) (absent : manager.view pair = none)
    (full : fieldCapacity ≤ manager.fieldCount) : False := by
  rw [hasSlot, absent, Option.isSome_none, Bool.false_or, decide_eq_true_iff] at slot
  exact absurd slot (not_lt.mpr full)

/-- A merge of the record finds a slot, if it gets as far as to look for one. -/
def hasSlotFor (ownerNodeId : UInt64) (manager : FleeceStateManager) (record : GossipRecord) :
    Bool :=
  !mergeable record.name.toCString record.data record.isTombstone ||
    manager.hasSlot (hashName record.name.toCString, ownerNodeId)

/-- The operation does not run out of slots. -/
def hasRoom (manager : FleeceStateManager) : Operation → Bool
  | .write change =>
    match change.request manager.nodeId manager.localTimestamp manager.view with
    | .error _ => true
    | .ok (pair, _) => manager.hasSlot pair
  | .mergeNamed owner name data _ isTombstone =>
    !mergeable name data isTombstone || owner == manager.nodeId ||
      manager.hasSlot (hashName name, owner)
  | .mergeShared _ name data _ isTombstone =>
    !mergeable name data isTombstone || manager.hasSlot (hashName name, sharedOwnerId)
  | .importFrom frame =>
    match parseFrame manager.nodeId frame with
    | .error _ => true
    | .ok parsed => decide (Along (mergeRecord parsed.ownerNodeId)
        (fun state record => hasSlotFor parsed.ownerNodeId state record = true)
        (manager.touchPeer parsed.senderNodeId) parsed.records)
  | _ => true

/-- What an import returns depends on what was parsed and on the digest it ends with. -/
theorem importFrom_output (manager : FleeceStateManager) (frame : Blob) :
    ((Operation.importFrom frame).exec manager).2 =
      match parseFrame manager.nodeId frame with
      | .error _ => .imported (-1) ((readSender manager.nodeId frame.bytes
          frame.size).toOption.map Prod.fst) none none
      | .ok parsed =>
        let behind := ((manager.touchPeer parsed.senderNodeId).mergeRecords parsed.ownerNodeId
          parsed.records).computeStreamDigest parsed.ownerNodeId != parsed.digest
        match parsed.code with
        | .error _ => .imported (-1) (some parsed.senderNodeId) none none
        | .ok () => .imported 0 (some parsed.senderNodeId)
            (some (!(parsed.ownerNodeId == sharedOwnerId) && behind))
            (some (parsed.ownerNodeId == sharedOwnerId && behind)) := by
  show Output.imported _ _ _ _ = _
  unfold importFrom importImpl parseFrame
  cases readSender manager.nodeId frame.bytes frame.size with
  | error halt => rfl
  | ok sender =>
    simp only [bind, Except.bind]
    cases readStream manager.nodeId frame.bytes frame.size sender.2 with
    | error halt => rfl
    | ok stream =>
      simp only
      cases readMajor frame.bytes frame.size stream.pos 4 with
      | error halt => rfl
      | ok count =>
        simp only
        obtain ⟨managerEq, codeEq⟩ := importRecords_eq stream.ownerNodeId frame.bytes frame.size
          count.1.toNat (manager.touchPeer sender.1) count.2
        unfold importStream
        simp only
        rw [codeEq, managerEq]
        cases (parseRecords stream.ownerNodeId frame.bytes frame.size count.1.toNat count.2).2 <;>
          rfl

/-- An import that was parsed to its end returns 0 with the sender. -/
theorem importFrom_of_parsed {manager : FleeceStateManager} {frame : Blob} {parsed : ParsedFrame}
    (read : parseFrame manager.nodeId frame = .ok parsed) (whole : parsed.code = .ok ()) :
    (manager.importFrame frame).2 = 0 ∧
      (manager.importFrom frame).senderNodeId = some parsed.senderNodeId := by
  have output := importFrom_output manager frame
  rw [read] at output
  simp only [whole] at output
  obtain ⟨code, sender, _⟩ := Output.imported.inj output
  exact ⟨code, sender⟩

end FleeceStateManager

/-! ### Encoding -/

/-- The fields of a record after its author. -/
def GossipRecord.encodeBody (record : GossipRecord) : List UInt8 :=
  writeBool record.isTombstone ++ writeText record.name.chars ++ writeUint record.timestamp ++
    writeBytes record.data.bytes

/-- The author, which is written for the shared stream only. -/
def GossipRecord.encodeAuthor (ownerNodeId : UInt64) (record : GossipRecord) : List UInt8 :=
  if ownerNodeId = sharedOwnerId then writeUint record.originNodeId else []

/-- One record on the wire. -/
def GossipRecord.encode (ownerNodeId : UInt64) (record : GossipRecord) : List UInt8 :=
  writeArrayHeader (if ownerNodeId = sharedOwnerId then 5 else 4) ++
    record.encodeAuthor ownerNodeId ++ record.encodeBody

/-- What a frame says. -/
structure FrameContents where
  senderNodeId : UInt64
  ownerNodeId : UInt64
  hw : UInt64
  digest : UInt64
  records : List GossipRecord

/-- The bytes of a frame with these contents. -/
def FrameContents.encode (contents : FrameContents) : List UInt8 :=
  gossipMagic ++ writeHeader contents.senderNodeId contents.ownerNodeId contents.hw contents.digest
      contents.records.length ++
    contents.records.flatMap (GossipRecord.encode contents.ownerNodeId)

/-- A record that comes out of the wire as it went in: it has a name, a payload unless it is a
tombstone, and outside the shared stream its owner for its author. -/
structure GossipRecord.Sendable (ownerNodeId : UInt64) (record : GossipRecord) : Prop where
  named : record.name.chars ≠ []
  filled : record.Filled
  author : ownerNodeId ≠ sharedOwnerId → record.originNodeId = ownerNodeId

theorem FieldName.ext {first second : FieldName} (chars : first.chars = second.chars) :
    first = second := by
  obtain ⟨⟨firstChars, firstNoNul⟩, firstLength⟩ := first
  obtain ⟨⟨secondChars, secondNoNul⟩, secondLength⟩ := second
  cases chars
  rfl

theorem FieldName.ofWire_chars (name : FieldName) : FieldName.ofWire name.chars = name := by
  have short : name.chars.take (fieldNameMax - 1) = name.chars :=
    List.take_of_length_le (Nat.le_sub_one_of_lt name.lengthLt)
  have whole : name.chars.takeWhile (· ≠ 0) = name.chars := by
    refine List.takeWhile_eq_self_iff.mpr fun char member => ?_
    exact decide_eq_true fun zero => name.noNul (zero ▸ member)
  refine FieldName.ext ?_
  show (name.chars.take (fieldNameMax - 1)).takeWhile (· ≠ 0) = name.chars
  rw [short, whole]

theorem Blob.ext {first second : Blob} (bytes : first.bytes = second.bytes) : first = second := by
  obtain ⟨firstBytes, firstLt⟩ := first
  obtain ⟨secondBytes, secondLt⟩ := second
  cases bytes
  rfl

theorem Blob.ofBuffer_bytes_of_lt {buf : List UInt8} (small : buf.length < 2 ^ 32) :
    (Blob.ofBuffer buf).bytes = buf := by
  show buf.take (buf.length % 2 ^ 32) = buf
  rw [Nat.mod_eq_of_lt small, List.take_length]

theorem Blob.ofWire_bytes (data : Blob) : Blob.ofWire data.bytes = data :=
  Blob.ext (Blob.ofBuffer_bytes_of_lt data.sizeLt)

/-! ### Reading back -/

section ReadBack

variable {buf : List UInt8} {size pos : Nat} (small : size < 2 ^ 63)
include small

theorem readMajor_of_holdsAt (major : UInt8) (value : UInt64) (majorLt : major < 8)
    (held : HoldsAt buf pos (writeHead major value)) (inside : pos + uintSize value ≤ size) :
    readMajor buf size pos major = .ok (value, pos + uintSize value) := by
  unfold readMajor
  rw [readHead_of_holdsAt major value majorLt held inside small]
  simp only [bind, Except.bind, ne_eq, not_true_eq_false, if_false]

omit small in
theorem writeBool_eq (value : Bool) : writeBool value = writeHead 7 (if value then 21 else 20) := by
  cases value <;> decide

omit small in
theorem uintSize_flag (value : Bool) : uintSize (if value then 21 else 20) = 1 := by
  cases value <;> decide

omit small in
theorem toNat_ofNat_length {bytes : List UInt8} (short : bytes.length < 2 ^ 64) :
    (UInt64.ofNat bytes.length).toNat = bytes.length := by
  rw [UInt64.toNat_ofNat', Nat.mod_eq_of_lt short]

/-- A string behind its length: the length is read, lies inside, and the string is there. -/
theorem readCounted_of_holdsAt (major : UInt8) (majorLt : major < 8) {bytes : List UInt8}
    (short : bytes.length < 2 ^ 64)
    (held : HoldsAt buf pos (writeHead major (UInt64.ofNat bytes.length) ++ bytes))
    (inside : pos + (uintSize (UInt64.ofNat bytes.length) + bytes.length) ≤ size)
    (whole : size ≤ buf.length) :
    ∃ after, readMajor buf size pos major = .ok (UInt64.ofNat bytes.length, after) ∧
      boundsOk after (UInt64.ofNat bytes.length) size = true ∧
      slice buf after bytes.length = .ok bytes ∧
      after + bytes.length = pos + (uintSize (UInt64.ofNat bytes.length) + bytes.length) := by
  obtain ⟨headHeld, bytesHeld⟩ := holdsAt_append.mp held
  rw [length_writeHead] at bytesHeld
  refine ⟨_, readMajor_of_holdsAt small major _ majorLt headHeld (by omega), ?_,
    bytesHeld.slice (by omega), Nat.add_assoc _ _ _⟩
  rw [boundsOk_iff, toNat_ofNat_length short]
  omega

omit small in
theorem length_encodeBody (record : GossipRecord) :
    record.encodeBody.length = 1 + textSize record.name.chars.length + uintSize record.timestamp +
      bytesSize record.data.bytes.length := by
  simp only [GossipRecord.encodeBody, List.length_append, length_writeBool, length_writeText,
    length_writeUint, length_writeBytes]

theorem readBody_of_holdsAt {owner : UInt64} {record : GossipRecord}
    (sendable : record.Sendable owner) (held : HoldsAt buf pos record.encodeBody)
    (inside : pos + record.encodeBody.length ≤ size) (whole : size ≤ buf.length) :
    readBody record.originNodeId buf size pos =
      .ok (some record, pos + record.encodeBody.length) := by
  rw [length_encodeBody] at inside ⊢
  have nameShort : record.name.chars.length < 2 ^ 64 := record.name.lengthLt.trans (by decide)
  have dataShort : record.data.bytes.length < 2 ^ 64 := record.data.sizeLt.trans (by decide)
  obtain ⟨front, dataHeld⟩ := holdsAt_append.mp held
  obtain ⟨front, stampHeld⟩ := holdsAt_append.mp front
  obtain ⟨flagHeld, nameHeld⟩ := holdsAt_append.mp front
  rw [writeBool_eq] at flagHeld
  simp only [List.length_append, length_writeBool, length_writeText, length_writeUint]
    at nameHeld stampHeld dataHeld
  simp only [textSize, bytesSize] at inside stampHeld dataHeld ⊢
  have flagRead := readMajor_of_holdsAt small 7 _ (by decide) flagHeld
    (by rw [uintSize_flag]; omega)
  obtain ⟨nameAt, nameRead, nameIn, nameSlice, nameEnd⟩ :=
    readCounted_of_holdsAt small 3 (by decide) nameShort nameHeld (by omega) whole
  have stampRead := readMajor_of_holdsAt small 0 _ (by decide) stampHeld (by omega)
  obtain ⟨dataAt, dataRead, dataIn, dataSlice, dataEnd⟩ :=
    readCounted_of_holdsAt small 2 (by decide) dataShort dataHeld (by omega) whole
  have nameCut : min record.name.chars.length (fieldNameMax - 1) = record.name.chars.length :=
    min_eq_left (Nat.le_sub_one_of_lt record.name.lengthLt)
  unfold readBody
  rw [flagRead, uintSize_flag]
  simp only [bind, Except.bind]
  rw [if_neg (by cases record.isTombstone <;> simp), nameRead]
  simp only [nameIn, Bool.not_true, Bool.false_eq_true, if_false]
  rw [toNat_ofNat_length nameShort, nameCut, nameSlice, nameEnd, Nat.add_assoc, stampRead]
  simp only
  rw [Nat.add_assoc, dataRead]
  simp only [dataIn, Bool.not_true, Bool.false_eq_true, if_false]
  rw [toNat_ofNat_length dataShort, dataSlice, dataEnd, Nat.add_assoc]
  simp only [if_neg sendable.named, FieldName.ofWire_chars, Blob.ofWire_bytes]
  refine congrArg (fun read => Except.ok (some read, _)) ?_
  obtain ⟨origin, isTombstone, name, timestamp, data⟩ := record
  cases isTombstone with
  | true =>
    rw [show data = .empty from sendable.filled.mp rfl]
    rfl
  | false => rfl

theorem readAuthor_of_holdsAt {owner : UInt64} {record : GossipRecord}
    (sendable : record.Sendable owner) (held : HoldsAt buf pos (record.encodeAuthor owner))
    (inside : pos + (record.encodeAuthor owner).length ≤ size) :
    readAuthor owner buf size pos =
      .ok (record.originNodeId, pos + (record.encodeAuthor owner).length) := by
  unfold readAuthor
  unfold GossipRecord.encodeAuthor at held inside ⊢
  split_ifs at held inside ⊢ with isShared
  · rw [length_writeUint] at inside ⊢
    exact readMajor_of_holdsAt small 0 _ (by decide) held inside
  · rw [sendable.author isShared]
    rfl

omit small in
/-- The arity of a record, as it is written and as it is checked. -/
theorem arity_eq (owner : UInt64) :
    UInt64.ofNat (if owner = sharedOwnerId then 5 else 4) =
        (if owner = sharedOwnerId then 5 else 4) ∧
      uintSize (if owner = sharedOwnerId then 5 else 4) = 1 := by
  split_ifs <;> decide

theorem readRecord_of_holdsAt {owner : UInt64} {record : GossipRecord}
    (sendable : record.Sendable owner) (held : HoldsAt buf pos (record.encode owner))
    (inside : pos + (record.encode owner).length ≤ size) (whole : size ≤ buf.length) :
    readRecord owner buf size pos = .ok (some record, pos + (record.encode owner).length) := by
  obtain ⟨arity, width⟩ := arity_eq owner
  unfold GossipRecord.encode writeArrayHeader at held inside ⊢
  rw [arity] at held inside ⊢
  rw [List.length_append, List.length_append, length_writeHead, width] at inside ⊢
  obtain ⟨front, bodyHeld⟩ := holdsAt_append.mp held
  obtain ⟨arityHeld, authorHeld⟩ := holdsAt_append.mp front
  rw [List.length_append, length_writeHead, width] at bodyHeld
  rw [length_writeHead, width] at authorHeld
  unfold readRecord
  rw [readMajor_of_holdsAt small 4 _ (by decide) arityHeld (by rw [width]; omega), width]
  simp only [bind, Except.bind, ne_eq, not_true_eq_false, if_false]
  rw [readAuthor_of_holdsAt small sendable authorHeld (by omega)]
  simp only
  rw [Nat.add_assoc, readBody_of_holdsAt small sendable bodyHeld (by omega) whole, Nat.add_assoc]

theorem parseRecords_of_holdsAt {owner : UInt64} {records : List GossipRecord}
    (sendable : ∀ record ∈ records, record.Sendable owner)
    (held : HoldsAt buf pos (records.flatMap (GossipRecord.encode owner)))
    (inside : pos + (records.flatMap (GossipRecord.encode owner)).length ≤ size)
    (whole : size ≤ buf.length) :
    parseRecords owner buf size records.length pos = (records, .ok ()) := by
  induction records generalizing pos with
  | nil => rfl
  | cons record rest inductionHypothesis =>
    rw [List.flatMap_cons] at held inside
    rw [List.length_append] at inside
    obtain ⟨recordHeld, restHeld⟩ := holdsAt_append.mp held
    rw [List.length_cons, parseRecords, readRecord_of_holdsAt small
      (sendable record List.mem_cons_self) recordHeld (by omega) whole]
    simp only
    rw [inductionHypothesis (fun other member => sendable other (List.mem_cons_of_mem _ member))
      restHeld (by omega)]
    rfl

theorem readSender_of_holdsAt {nodeId sender : UInt64} (foreign : sender ≠ nodeId)
    (real : sender ≠ sharedOwnerId)
    (held : HoldsAt buf 0 (gossipMagic ++ (writeArrayHeader 5 ++ writeUint sender)))
    (inside : 4 + uintSize sender ≤ size) :
    readSender nodeId buf size = .ok (sender, 4 + uintSize sender) := by
  obtain ⟨magicHeld, headHeld⟩ := holdsAt_append.mp held
  obtain ⟨arityHeld, senderHeld⟩ := holdsAt_append.mp headHeld
  have magic : slice buf 0 3 = .ok gossipMagic := magicHeld.slice (Nat.zero_le _)
  have arityRead : readMajor buf size 3 4 = .ok (5, 4) :=
    readMajor_of_holdsAt small 4 5 (by decide) arityHeld
      (le_trans (Nat.le_add_right 4 _) inside)
  have senderRead : readMajor buf size 4 0 = .ok (sender, 4 + uintSize sender) :=
    readMajor_of_holdsAt small 0 _ (by decide) senderHeld inside
  unfold readSender
  rw [if_neg (by omega), magic]
  simp only [bind, Except.bind, ne_eq, not_true_eq_false, if_false, arityRead, senderRead]
  rw [if_neg (not_or.mpr ⟨foreign, real⟩)]

theorem readStream_of_holdsAt {nodeId owner hw digest : UInt64}
    (owned : owner = sharedOwnerId ∨ owner ≠ nodeId)
    (held : HoldsAt buf pos (writeUint owner ++ writeUint hw ++ writeUint digest))
    (inside : pos + (uintSize owner + uintSize hw + uintSize digest) ≤ size) :
    readStream nodeId buf size pos =
      .ok ⟨owner, digest, pos + (uintSize owner + uintSize hw + uintSize digest)⟩ := by
  obtain ⟨front, digestHeld⟩ := holdsAt_append.mp held
  obtain ⟨ownerHeld, hwHeld⟩ := holdsAt_append.mp front
  rw [List.length_append, length_writeUint, length_writeUint] at digestHeld
  rw [length_writeUint] at hwHeld
  unfold readStream
  rw [readMajor_of_holdsAt small 0 _ (by decide) ownerHeld (by omega)]
  simp only [bind, Except.bind]
  rw [if_neg (by rintro ⟨notShared, own⟩; exact owned.elim notShared fun other => other own),
    readMajor_of_holdsAt small 0 _ (by decide) hwHeld (by omega)]
  simp only
  rw [Nat.add_assoc, readMajor_of_holdsAt small 0 _ (by decide) digestHeld (by omega)]
  simp only [Nat.add_assoc]

/-- The header and the records of a frame are read back, where the reader is neither the sender
nor the owner of the stream. -/
theorem parse_of_encode {contents : FrameContents} {nodeId : UInt64}
    (foreign : contents.senderNodeId ≠ nodeId) (real : contents.senderNodeId ≠ sharedOwnerId)
    (owned : contents.ownerNodeId = sharedOwnerId ∨ contents.ownerNodeId ≠ nodeId)
    (sendable : ∀ record ∈ contents.records, record.Sendable contents.ownerNodeId)
    (held : buf = contents.encode) (sized : size = buf.length) :
    ∃ senderEnd streamEnd countEnd,
      readSender nodeId buf size = .ok (contents.senderNodeId, senderEnd) ∧
      readStream nodeId buf size senderEnd =
        .ok ⟨contents.ownerNodeId, contents.digest, streamEnd⟩ ∧
      readMajor buf size streamEnd 4 = .ok (UInt64.ofNat contents.records.length, countEnd) ∧
      parseRecords contents.ownerNodeId buf size contents.records.length countEnd =
        (contents.records, .ok ()) ∧
      HoldsAt buf countEnd (contents.records.flatMap (GossipRecord.encode contents.ownerNodeId)) ∧
      countEnd + (contents.records.flatMap (GossipRecord.encode contents.ownerNodeId)).length =
        size := by
  have shape : contents.encode = (gossipMagic ++
      (writeArrayHeader 5 ++ writeUint contents.senderNodeId)) ++
      ((writeUint contents.ownerNodeId ++ writeUint contents.hw ++ writeUint contents.digest) ++
      (writeArrayHeader contents.records.length ++
        contents.records.flatMap (GossipRecord.encode contents.ownerNodeId))) := by
    simp only [FrameContents.encode, writeHeader, List.append_assoc]
  have all : HoldsAt buf 0 contents.encode := by
    rw [HoldsAt, List.drop_zero, held]
  have total : size = contents.encode.length := by rw [sized, held]
  rw [shape] at all total
  obtain ⟨senderHeld, rest⟩ := holdsAt_append.mp all
  obtain ⟨streamHeld, rest⟩ := holdsAt_append.mp rest
  obtain ⟨countHeld, recordsHeld⟩ := holdsAt_append.mp rest
  simp only [List.length_append, length_writeArrayHeader, length_writeUint, Nat.zero_add,
    show gossipMagic.length = 3 from rfl, show arrayHeaderSize 5 = 1 from rfl,
    ← Nat.add_assoc 3 1 _, show 3 + 1 = 4 from rfl] at streamHeld countHeld recordsHeld total
  have countSize : arrayHeaderSize contents.records.length =
    uintSize (UInt64.ofNat contents.records.length) := rfl
  exact ⟨_, _, _, readSender_of_holdsAt small foreign real senderHeld (by omega),
    readStream_of_holdsAt small owned streamHeld (by omega),
    readMajor_of_holdsAt small 4 _ (by decide) countHeld (by omega),
    parseRecords_of_holdsAt small sendable recordsHeld (by omega) (le_of_eq sized), recordsHeld,
    by omega⟩

end ReadBack

/-! ### A frame that is cut -/

/-- What the first read succeeds with, the second does too. -/
def Extends {Result : Type} (first second : Except Halt Result) : Prop :=
  ∀ result, first = .ok result → second = .ok result

theorem Extends.refl {Result : Type} (read : Except Halt Result) : Extends read read :=
  fun _ => id

theorem Extends.bind {First Second : Type} {read read' : Except Halt First}
    {rest rest' : First → Except Halt Second} (extended : Extends read read')
    (extendedRest : ∀ first, Extends (rest first) (rest' first)) :
    Extends (read >>= rest) (read' >>= rest') := by
  intro result success
  cases found : read with
  | error halt =>
    rw [found] at success
    cases success
  | ok first =>
    rw [found] at success
    rw [extended first found]
    exact extendedRest first result success

theorem Extends.guard {Result : Type} {bad bad' : Prop} [Decidable bad] [Decidable bad']
    {read read' : Except Halt Result} (weaker : bad' → bad) (extended : Extends read read') :
    Extends (if bad then .error .rejected else read) (if bad' then .error .rejected else read') := by
  intro result success
  split_ifs at success with wrong
  rw [if_neg fun bad => wrong (weaker bad)]
  exact extended result success

section Cut

variable {buf buf' : List UInt8} {size size' : Nat} (cut : buf <+: buf') (shorter : size ≤ size')
include cut

theorem slice_cut (pos len : Nat) : Extends (slice buf pos len) (slice buf' pos len) := by
  intro bytes success
  unfold slice at success ⊢
  split_ifs at success with inside
  obtain ⟨rest, rfl⟩ := cut
  rw [if_pos (inside.trans (by rw [List.length_append]; exact Nat.le_add_right _ _))]
  rw [List.drop_append_of_le_length (by omega), List.take_append_of_le_length
    (by rw [List.length_drop]; omega)]
  exact success

include shorter

theorem readMajor_cut (pos : Nat) (major : UInt8) :
    Extends (readMajor buf size pos major) (readMajor buf' size' pos major) :=
  Extends.bind (fun _ => readHead_cut cut shorter pos) fun _ => .refl _

omit cut in
theorem boundsOk_cut {pos : Nat} {len : UInt64} :
    (!boundsOk pos len size') = true → (!boundsOk pos len size) = true := by
  simp only [Bool.not_eq_true', ← Bool.not_eq_true, boundsOk_iff]
  omega

theorem readBody_cut (origin : UInt64) (pos : Nat) :
    Extends (readBody origin buf size pos) (readBody origin buf' size' pos) := by
  unfold readBody
  refine (readMajor_cut cut shorter pos 7).bind fun flag => .guard id ?_
  refine (readMajor_cut cut shorter _ 3).bind fun name => .guard (boundsOk_cut shorter) ?_
  refine (slice_cut cut _ _).bind fun nameBytes => ?_
  refine (readMajor_cut cut shorter _ 0).bind fun stamp => ?_
  refine (readMajor_cut cut shorter _ 2).bind fun data => .guard (boundsOk_cut shorter) ?_
  exact (slice_cut cut _ _).bind fun _ => .refl _

theorem readRecord_cut (owner : UInt64) (pos : Nat) :
    Extends (readRecord owner buf size pos) (readRecord owner buf' size' pos) := by
  unfold readRecord
  refine (readMajor_cut cut shorter pos 4).bind fun arity => .guard id ?_
  refine Extends.bind ?_ fun author => readBody_cut cut shorter author.1 author.2
  unfold readAuthor
  split_ifs
  · exact readMajor_cut cut shorter _ 0
  · exact .refl _

theorem readSender_cut (nodeId : UInt64) :
    Extends (readSender nodeId buf size) (readSender nodeId buf' size') := by
  unfold readSender
  refine .guard (fun short => lt_of_le_of_lt shorter short) ?_
  refine (slice_cut cut 0 3).bind fun magic => .guard id ?_
  refine (readMajor_cut cut shorter 3 4).bind fun arity => .guard id ?_
  exact (readMajor_cut cut shorter _ 0).bind fun _ => .refl _

theorem readStream_cut (nodeId : UInt64) (pos : Nat) :
    Extends (readStream nodeId buf size pos) (readStream nodeId buf' size' pos) := by
  unfold readStream
  refine (readMajor_cut cut shorter pos 0).bind fun owner => .guard id ?_
  refine (readMajor_cut cut shorter _ 0).bind fun hw => ?_
  exact (readMajor_cut cut shorter _ 0).bind fun _ => .refl _

/-- The records before the cut are the first records of the whole frame. -/
theorem parseRecords_cut (owner : UInt64) (count pos : Nat) :
    (parseRecords owner buf size count pos).1 <+: (parseRecords owner buf' size' count pos).1 := by
  induction count generalizing pos with
  | zero => exact List.prefix_refl _
  | succ count inductionHypothesis =>
    have extended := readRecord_cut cut shorter owner pos
    unfold parseRecords
    cases read : readRecord owner buf size pos with
    | error halt => exact List.nil_prefix
    | ok result =>
      rw [extended result read]
      exact (List.prefix_append_right_inj _).mpr (inductionHypothesis result.2)

end Cut

/-- The frame an exporter hands over for some contents. -/
def FrameContents.frame (contents : FrameContents) : Blob := .ofBuffer contents.encode

/-- What another node reads in an exported frame: the sender and the stream of the exporter and
the first of its records, or nothing at all. -/
theorem parseFrame_frame {contents : FrameContents} {nodeId : UInt64} {parsed : ParsedFrame}
    (foreign : contents.senderNodeId ≠ nodeId) (real : contents.senderNodeId ≠ sharedOwnerId)
    (owned : contents.ownerNodeId = sharedOwnerId ∨ contents.ownerNodeId ≠ nodeId)
    (few : contents.records.length < 2 ^ 64)
    (sendable : ∀ record ∈ contents.records, record.Sendable contents.ownerNodeId)
    (bounded : contents.encode.length < 2 ^ 63)
    (read : parseFrame nodeId contents.frame = .ok parsed) :
    parsed.senderNodeId = contents.senderNodeId ∧ parsed.ownerNodeId = contents.ownerNodeId ∧
      parsed.records <+: contents.records := by
  have cut : contents.frame.bytes <+: contents.encode := List.take_prefix _ _
  have shorter : contents.frame.size ≤ contents.encode.length := cut.length_le
  obtain ⟨senderEnd, streamEnd, countEnd, senderRead, streamRead, countRead, recordsRead, _⟩ :=
    parse_of_encode bounded foreign real owned sendable rfl rfl
  obtain ⟨senderCutEnd, stream, senderCut, streamCut, owner, rest⟩ := reads_of_parseFrame read
  rw [readSender_cut cut shorter nodeId _ senderCut] at senderRead
  obtain ⟨sender, rfl⟩ := Prod.mk.inj (Except.ok.inj senderRead)
  rw [readStream_cut cut shorter nodeId _ _ streamCut] at streamRead
  obtain rfl := Except.ok.inj streamRead
  refine ⟨sender, owner, ?_⟩
  rcases rest with none | ⟨count, pos, countCut, records⟩
  · rw [none]
    exact List.nil_prefix
  · rw [readMajor_cut cut shorter _ 4 _ countCut] at countRead
    obtain ⟨rfl, rfl⟩ := Prod.mk.inj (Except.ok.inj countRead)
    rw [records, UInt64.toNat_ofNat', Nat.mod_eq_of_lt few]
    have before := parseRecords_cut cut shorter contents.ownerNodeId contents.records.length pos
    rwa [recordsRead] at before

/-- A frame whose size fits 32 bits is read back whole. -/
theorem parseFrame_frame_of_lt {contents : FrameContents} {nodeId : UInt64}
    (foreign : contents.senderNodeId ≠ nodeId) (real : contents.senderNodeId ≠ sharedOwnerId)
    (owned : contents.ownerNodeId = sharedOwnerId ∨ contents.ownerNodeId ≠ nodeId)
    (few : contents.records.length < 2 ^ 64)
    (sendable : ∀ record ∈ contents.records, record.Sendable contents.ownerNodeId)
    (fits : contents.encode.length < 2 ^ 32) :
    parseFrame nodeId contents.frame = .ok ⟨contents.senderNodeId, contents.ownerNodeId,
      contents.digest, contents.records, .ok ()⟩ := by
  have bytes : contents.frame.bytes = contents.encode := Blob.ofBuffer_bytes_of_lt fits
  have small : contents.frame.size < 2 ^ 63 := contents.frame.sizeLt.trans (by decide)
  obtain ⟨senderEnd, streamEnd, countEnd, senderRead, streamRead, countRead, recordsRead, _⟩ :=
    parse_of_encode small foreign real owned sendable bytes rfl
  unfold parseFrame
  simp only [bind, Except.bind, senderRead, streamRead, countRead]
  rw [UInt64.toNat_ofNat', Nat.mod_eq_of_lt few, recordsRead]

end Fleece
