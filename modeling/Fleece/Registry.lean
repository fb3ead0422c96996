/-
This file says what the state manager is for, without its array: a finite map from
pairs of a key and an owner to records, of at most `FLEECE_FIELD_CAPACITY` pairs,
and a clock. A write or a merge puts one record under one pair; a listing, a digest
or a high-water mark is a function of the records of one owner, whose order is
nothing a caller may rely on. The peer table and the tick counters are no part of
it.

That the slot array refines this map is the subject of `Fleece/Refinement.lean`.
-/

import Fleece.Wire

namespace Fleece

/-- The hash of one record: name, separator, author, timestamp, size and payload. -/
def GossipRecord.digest (record : GossipRecord) : UInt64 :=
  let named := fnv64Mix 0xcbf29ce484222325 record.name.chars
  let separated := fnv64Mix named [0xFF]
  let authored := fnv64MixUint separated record.originNodeId
  let stamped := fnv64MixUint authored record.timestamp
  let sized := fnv64MixUint stamped (UInt64.ofNat record.data.size)
  fnv64Mix sized record.data.bytes

/-- A record that some read reports: all but the tombstones without a name. -/
def GossipRecord.isVisible (record : GossipRecord) : Bool := !record.isTombstone || record.isNamed

/-- What a store is for: a clock, and a record for each key and owner, tombstones included. -/
structure Registry where
  nodeId : UInt64
  clock : UInt64
  records : Finmap fun _ : UInt32 × UInt64 => GossipRecord

namespace Registry

/-- The registry of a node that has neither written nor heard anything. -/
def create (nodeId : UInt64) : Registry := ⟨nodeId, 0, ∅⟩

/-! ### Updates -/

/-- The record under a pair of a key and an owner, live or a tombstone. -/
def view (registry : Registry) (pair : UInt32 × UInt64) : Option GossipRecord :=
  registry.records.lookup pair

/-- The record under a pair, if it is live. -/
def live (registry : Registry) (pair : UInt32 × UInt64) : Option GossipRecord :=
  (registry.view pair).filter fun record => !record.isTombstone

/-- A record is put under its pair, if the pair is there or there is room for it. -/
def put (registry : Registry) (pair : UInt32 × UInt64) (record : GossipRecord) : Registry × Int :=
  if pair ∈ registry.records ∨ registry.records.keys.card < fieldCapacity then
    ({ registry with records := registry.records.insert pair record }, 0)
  else (registry, -1)

/-- A local write puts the record it asks for, under the next clock value. -/
def write (registry : Registry) (change : LocalWrite) : Registry × Int :=
  match change.request registry.nodeId registry.clock registry.view with
  | .error code => (registry, code)
  | .ok (pair, record) => { registry with clock := registry.clock + 1 : Registry }.put pair record

/-- The clock is moved up to a timestamp. -/
def raiseClock (registry : Registry) (timestamp : UInt64) : Registry :=
  { registry with clock := if registry.clock > timestamp then registry.clock else timestamp }

/-- A peer's record is put unless the one under its pair stays. -/
def merge (registry : Registry) (pair : UInt32 × UInt64) (record : GossipRecord)
    (outranks : GossipRecord → Prop) [DecidablePred outranks] : Registry × Int :=
  match registry.view pair with
  | none => (registry.raiseClock record.timestamp).put pair record
  | some old =>
    if outranks old then (registry.raiseClock record.timestamp).put pair record
    else (registry.raiseClock record.timestamp, 0)

/-- The merge of a record of a peer's own stream. -/
def mergeNamed (registry : Registry) (ownerNodeId : UInt64) (name : CString) (data : Blob)
    (remoteTimestamp : UInt64) (isTombstone : Bool) : Registry × Int :=
  if !FleeceStateManager.mergeable name data isTombstone then (registry, -1)
  else if ownerNodeId = registry.nodeId then (registry, -1)
  else registry.merge (hashName name, ownerNodeId)
    (.upserted ownerNodeId (.copy name) data remoteTimestamp isTombstone)
    fun old => old.timestamp < remoteTimestamp

/-- The merge of a record of the shared stream. -/
def mergeShared (registry : Registry) (originNodeId : UInt64) (name : CString) (data : Blob)
    (remoteTimestamp : UInt64) (isTombstone : Bool) : Registry × Int :=
  if !FleeceStateManager.mergeable name data isTombstone then (registry, -1)
  else registry.merge (hashName name, sharedOwnerId)
    (.upserted originNodeId (.copy name) data remoteTimestamp isTombstone)
    (GossipRecord.Outranks (.upserted originNodeId (.copy name) data remoteTimestamp isTombstone))

/-- A record of a stream merged under its owner. -/
def mergeRecord (ownerNodeId : UInt64) (registry : Registry) (record : GossipRecord) : Registry :=
  if ownerNodeId = sharedOwnerId then
    (registry.mergeShared record.originNodeId record.name.toCString record.data record.timestamp
      record.isTombstone).1
  else
    (registry.mergeNamed ownerNodeId record.name.toCString record.data record.timestamp
      record.isTombstone).1

/-- The tombstones without a name are dropped. -/
def compact (registry : Registry) : Registry :=
  { registry with
    records := ⟨registry.records.entries.filter fun entry => entry.2.isVisible,
      Multiset.nodup_keys.mp (Multiset.nodup_of_le (Multiset.map_le_map (Multiset.filter_le _ _))
        registry.records.nodupKeys.nodup_keys)⟩ }

/-! ### Reads -/

/-- The records of one owner, each with its key. -/
def stream (registry : Registry) (ownerNodeId : UInt64) : Multiset (UInt32 × GossipRecord) :=
  (registry.records.entries.filter fun entry => entry.1.2 = ownerNodeId).map fun entry =>
    (entry.1.1, entry.2)

/-- The records of one owner that have a name. -/
def named (registry : Registry) (ownerNodeId : UInt64) : Multiset (UInt32 × GossipRecord) :=
  (registry.stream ownerNodeId).filter fun entry => entry.2.isNamed

/-- Those of them that are live. -/
def liveNamed (registry : Registry) (ownerNodeId : UInt64) : Multiset (UInt32 × GossipRecord) :=
  (registry.named ownerNodeId).filter fun entry => !entry.2.isTombstone

/-- Those of them that are newer than a watermark. -/
def newer (registry : Registry) (ownerNodeId sinceTimestamp : UInt64) :
    Multiset (UInt32 × GossipRecord) :=
  (registry.named ownerNodeId).filter fun entry => sinceTimestamp < entry.2.timestamp

/-- The owners of live records. -/
def nodes (registry : Registry) : Finset UInt64 :=
  ((registry.records.entries.filter fun entry =>
    !entry.2.isTombstone && entry.1.2 != sharedOwnerId).map fun entry => entry.1.2).toFinset

/-- The digest of a stream, over its live records. -/
def digest (registry : Registry) (ownerNodeId : UInt64) : UInt64 :=
  ((registry.liveNamed ownerNodeId).map fun entry => entry.2.digest).sum

/-- The greatest timestamp of some records, or zero. -/
def highWater (records : Multiset (UInt32 × GossipRecord)) : UInt64 :=
  .ofNat (records.map fun entry => entry.2.timestamp.toNat).sup

/-- The merge of a frame, with what the import returns. -/
def importFrom (registry : Registry) (frame : Blob) : Registry × Output :=
  match parseFrame registry.nodeId frame with
  | .error _ =>
    (registry, .imported (-1) ((readSender registry.nodeId frame.bytes frame.size).toOption.map
      Prod.fst) none none)
  | .ok parsed =>
    let merged := parsed.records.foldl (mergeRecord parsed.ownerNodeId) registry
    let behind := merged.digest parsed.ownerNodeId != parsed.digest
    let isSharedStream := parsed.ownerNodeId == sharedOwnerId
    (merged, match parsed.code with
      | .error _ => .imported (-1) (some parsed.senderNodeId) none none
      | .ok () => .imported 0 (some parsed.senderNodeId) (some (!isSharedStream && behind))
          (some (isSharedStream && behind)))

/-- The map after an operation. -/
def next (registry : Registry) : Operation → Registry
  | .write change => (registry.write change).1
  | .mergeNamed owner name data timestamp isTombstone =>
    (registry.mergeNamed owner name data timestamp isTombstone).1
  | .mergeShared origin name data timestamp isTombstone =>
    (registry.mergeShared origin name data timestamp isTombstone).1
  | .importFrom frame => (registry.importFrom frame).1
  | .compact => registry.compact
  | .query _ => registry
  | .exportSharedDeltaBounded _ _ => registry
  | .tick => registry

/-! ### Answers -/

/-- A frame of one stream that carries some of its records, in some order. -/
def Frames (registry : Registry) (ownerNodeId hw : UInt64)
    (records : Multiset (UInt32 × GossipRecord)) (frame : Blob) : Prop :=
  ∃ contents : FrameContents, frame = contents.frame ∧
    contents.senderNodeId = registry.nodeId ∧ contents.ownerNodeId = ownerNodeId ∧
    contents.hw = hw ∧ contents.digest = registry.digest ownerNodeId ∧
    (contents.records : Multiset GossipRecord) = records.map Prod.snd

/-- A full or delta export: all records of an owner since a watermark. -/
def Exports (registry : Registry) (ownerNodeId sinceTimestamp : UInt64) (answer : Output) : Prop :=
  ∃ frame, answer = .frame frame ∧ registry.Frames ownerNodeId
    (highWater (registry.named ownerNodeId)) (registry.newer ownerNodeId sinceTimestamp) frame

/-- What a query may return. Listings are free in their order, and in their choice where the
caller leaves no room for all; the peer table and the tick counters are not described. -/
def Answers (registry : Registry) : Query → Output → Prop
  | .get key, answer =>
    answer = .value ((registry.live (key, registry.nodeId)).map GossipRecord.data)
  | .existsField key, answer => answer = .flag (registry.live (key, registry.nodeId)).isSome
  | .getVersion key, answer =>
    answer = .version ((registry.live (key, registry.nodeId)).map fun record =>
      ⟨record.timestamp, registry.nodeId, record.data.size⟩)
  | .getNamed owner name, answer =>
    answer = .value ((registry.live (hashName name, owner)).map GossipRecord.data)
  | .existsNamed owner name, answer => answer = .flag (registry.live (hashName name, owner)).isSome
  | .getMetaNamed owner name, answer =>
    answer = (registry.live (hashName name, owner)).elim (.metadata (-1) 0 0) fun record =>
      .metadata 0 record.timestamp record.originNodeId
  | .sharedAtLeast keyHash timestamp, answer =>
    answer = .code ((registry.view (keyHash, sharedOwnerId)).elim 0 fun record =>
      if record.timestamp ≥ timestamp then 1 else 0)
  | .listNodes maxNodes, answer =>
    ∃ nodes, answer = .nodes nodes ∧ nodes.Nodup ∧ nodes.toFinset ⊆ registry.nodes ∧
      nodes.length = min maxNodes registry.nodes.card
  | .listFields owner maxNames, answer =>
    ∃ names : List FieldName, answer = .names names ∧
      (names : Multiset FieldName) ≤ (registry.liveNamed owner).map (fun entry => entry.2.name) ∧
      names.length = min maxNames (Multiset.card (registry.liveNamed owner))
  | .streamDigest owner, answer => answer = .word (registry.digest owner)
  | .selfHw, answer => answer = .word (highWater (registry.stream registry.nodeId))
  | .sharedHw, answer => answer = .word (highWater (registry.stream sharedOwnerId))
  | .peerSelfHw peerId, answer =>
    answer = .word (if peerId = sharedOwnerId then 0 else highWater (registry.stream peerId))
  | .countNewShared since, answer =>
    answer = .count (Multiset.card (registry.newer sharedOwnerId since))
  | .exportFrame, answer => registry.Exports registry.nodeId 0 answer
  | .exportDelta since, answer => registry.Exports registry.nodeId since answer
  | .exportShared, answer => registry.Exports sharedOwnerId 0 answer
  | .exportSharedDelta since, answer => registry.Exports sharedOwnerId since answer
  | .exportSharedIndex, answer =>
    ∃ pairs : List (UInt32 × UInt64), answer = .frame (indexFrame registry.nodeId pairs) ∧
      (pairs : Multiset (UInt32 × UInt64)) =
        (registry.liveNamed sharedOwnerId).map fun entry => (entry.1, entry.2.timestamp)
  | .exportSharedByHash hashes, answer =>
    ∃ records ≤ (registry.liveNamed sharedOwnerId).filter (fun entry => entry.1 ∈ hashes),
      ∃ frame, answer = .frame frame ∧ registry.Frames sharedOwnerId
        (highWater (registry.liveNamed sharedOwnerId)) records frame
  | .listHeardPeers _, _ => True
  | .ticksSinceSeen _, _ => True
  | .ticksSinceLastWrite, _ => True
where
  /-- The index frame of some pairs of a key hash and a timestamp. -/
  indexFrame (nodeId : UInt64) (pairs : List (UInt32 × UInt64)) : Blob :=
    .ofBuffer (controlMagic ++ writeArrayHeader 3 ++ writeUint 1 ++ writeUint nodeId ++
      writeArrayHeader pairs.length ++ pairs.flatMap fun pair =>
        writeArrayHeader 2 ++ writeUint pair.1.toUInt64 ++ writeUint pair.2)

/-- What an operation may return. -/
def Returns (registry : Registry) : Operation → Output → Prop
  | .write change, output => output = .code (registry.write change).2
  | .query asked, output => registry.Answers asked output
  | .mergeNamed owner name data timestamp isTombstone, output =>
    output = .code (registry.mergeNamed owner name data timestamp isTombstone).2
  | .mergeShared origin name data timestamp isTombstone, output =>
    output = .code (registry.mergeShared origin name data timestamp isTombstone).2
  | .importFrom frame, output => output = (registry.importFrom frame).2
  | .exportSharedDeltaBounded since _, output =>
    ∃ records ≤ registry.newer sharedOwnerId since, ∃ frame includedMaxTs,
      output = .bounded frame includedMaxTs ∧ registry.Frames sharedOwnerId
        (highWater (registry.stream sharedOwnerId)) records frame
  | .tick, output => output = .nothing
  | .compact, output => output = .nothing

/-! ### What the reads depend on -/

/-- The named records of an owner are among the visible ones. -/
theorem named_eq (registry : Registry) (owner : UInt64) :
    registry.named owner = (((registry.records.entries.filter fun entry =>
      entry.2.isVisible).filter fun entry => entry.1.2 = owner ∧ entry.2.isNamed).map fun entry =>
        (entry.1.1, entry.2)) := by
  unfold named stream
  rw [Multiset.filter_map, Multiset.filter_filter, Multiset.filter_filter]
  refine congrArg (Multiset.map _) (Multiset.filter_congr fun entry _ => ?_)
  constructor
  · rintro ⟨isNamed, owned⟩
    refine ⟨⟨owned, isNamed⟩, ?_⟩
    rw [GossipRecord.isVisible, show entry.2.isNamed = true from isNamed, Bool.or_true]
  · rintro ⟨⟨owned, isNamed⟩, _⟩
    exact ⟨isNamed, owned⟩

/-- Maps that agree on visible records have the same named records. -/
theorem named_congr {first second : Registry} (same : ∀ pair,
      (first.view pair).filter GossipRecord.isVisible =
        (second.view pair).filter GossipRecord.isVisible) (owner : UInt64) :
    first.named owner = second.named owner := by
  have mem (registry : Registry) (entry : Sigma fun _ : UInt32 × UInt64 => GossipRecord) :
      entry ∈ registry.records.entries.filter (fun entry => entry.2.isVisible) ↔
        (registry.view entry.1).filter GossipRecord.isVisible = some entry.2 := by
    rw [Multiset.mem_filter, Option.filter_eq_some_iff, view, Finmap.lookup_eq_some_iff]
  have visible : first.records.entries.filter (fun entry => entry.2.isVisible) =
      second.records.entries.filter fun entry => entry.2.isVisible := by
    refine (Multiset.Nodup.ext (first.records.nodup_entries.filter _)
      (second.records.nodup_entries.filter _)).mpr fun entry => ?_
    rw [mem, mem, same]
  rw [named_eq, named_eq, visible]

theorem mem_stream {registry : Registry} {owner : UInt64} {entry : UInt32 × GossipRecord} :
    entry ∈ registry.stream owner ↔ registry.view (entry.1, owner) = some entry.2 := by
  unfold stream view
  rw [Multiset.mem_map, Finmap.lookup_eq_some_iff]
  constructor
  · rintro ⟨⟨⟨key, other⟩, record⟩, member, rfl⟩
    obtain ⟨held, rfl⟩ := Multiset.mem_filter.mp member
    exact held
  · intro held
    exact ⟨_, Multiset.mem_filter.mpr ⟨held, rfl⟩, rfl⟩

theorem nodup_stream (registry : Registry) (owner : UInt64) : (registry.stream owner).Nodup := by
  refine (registry.records.nodup_entries.filter _).map_on fun first member second other same => ?_
  obtain ⟨⟨key, firstOwner⟩, record⟩ := first
  obtain ⟨⟨otherKey, secondOwner⟩, otherRecord⟩ := second
  obtain ⟨rfl, rfl⟩ := Prod.mk.inj same
  rw [show firstOwner = owner from (Multiset.mem_filter.mp member).2,
    show secondOwner = owner from (Multiset.mem_filter.mp other).2]

/-- Maps that agree on the live records of an owner have the same live entries of it. -/
theorem liveNamed_congr {first second : Registry} {owner : UInt64}
    (same : ∀ key, first.live (key, owner) = second.live (key, owner)) :
    first.liveNamed owner = second.liveNamed owner := by
  have mem (registry : Registry) (entry : UInt32 × GossipRecord) :
      entry ∈ registry.liveNamed owner ↔
        registry.live (entry.1, owner) = some entry.2 ∧ entry.2.isNamed = true := by
    unfold liveNamed named live
    rw [Multiset.mem_filter, Multiset.mem_filter, mem_stream, Option.filter_eq_some_iff,
      and_right_comm]
  have nodup (registry : Registry) : (registry.liveNamed owner).Nodup :=
    ((registry.nodup_stream owner).filter _).filter _
  refine ((nodup first).ext (nodup second)).mpr fun entry => ?_
  rw [mem, mem, same]

/-! ### What an operation leaves alone -/

theorem view_put_of_ne {registry : Registry} {pair other : UInt32 × UInt64} (record : GossipRecord)
    (different : other ≠ pair) : (registry.put pair record).1.view other = registry.view other := by
  unfold put
  split_ifs
  · exact Finmap.lookup_insert_of_ne _ different
  · rfl

theorem view_merge_of_ne {registry : Registry} {pair other : UInt32 × UInt64}
    (record : GossipRecord) (outranks : GossipRecord → Prop) [DecidablePred outranks]
    (different : other ≠ pair) :
    (registry.merge pair record outranks).1.view other = registry.view other := by
  unfold merge
  split
  · exact view_put_of_ne record different
  · split_ifs
    · exact view_put_of_ne record different
    · rfl

theorem view_mergeNamed_of_ne {registry : Registry} {owner : UInt64} {name : CString}
    {other : UInt32 × UInt64} (data : Blob) (timestamp : UInt64) (isTombstone : Bool)
    (different : other ≠ (hashName name, owner)) :
    (registry.mergeNamed owner name data timestamp isTombstone).1.view other =
      registry.view other := by
  unfold mergeNamed
  split_ifs
  · rfl
  · rfl
  · exact view_merge_of_ne _ _ different

theorem view_mergeShared_of_ne {registry : Registry} {name : CString} {other : UInt32 × UInt64}
    (origin : UInt64) (data : Blob) (timestamp : UInt64) (isTombstone : Bool)
    (different : other ≠ (hashName name, sharedOwnerId)) :
    (registry.mergeShared origin name data timestamp isTombstone).1.view other =
      registry.view other := by
  unfold mergeShared
  split_ifs
  · rfl
  · exact view_merge_of_ne _ _ different

theorem view_foldl_mergeRecord {registry : Registry} {owner : UInt64} {records : List GossipRecord}
    {other : UInt32 × UInt64}
    (different : ∀ record ∈ records, other ≠ (hashName record.name.toCString, owner)) :
    (records.foldl (mergeRecord owner) registry).view other = registry.view other := by
  induction records generalizing registry with
  | nil => rfl
  | cons record rest inductionHypothesis =>
    rw [List.foldl_cons, inductionHypothesis fun later member =>
      different later (List.mem_cons_of_mem _ member)]
    have here := different record List.mem_cons_self
    unfold mergeRecord
    split_ifs with isShared
    · subst isShared
      exact view_mergeShared_of_ne _ _ _ _ here
    · exact view_mergeNamed_of_ne _ _ _ here

end Registry

/-- The pairs an operation of a node is about. -/
def Operation.touched (nodeId : UInt64) : Operation → Set (UInt32 × UInt64)
  | .write change => {change.target nodeId}
  | .mergeNamed owner name _ _ _ => {(hashName name, owner)}
  | .mergeShared _ name _ _ _ => {(hashName name, sharedOwnerId)}
  | .importFrom frame =>
    {pair | ∃ parsed, parseFrame nodeId frame = .ok parsed ∧
      ∃ record ∈ parsed.records, pair = (hashName record.name.toCString, parsed.ownerNodeId)}
  | _ => ∅

/-- An operation on some pairs leaves the record of every other pair as it is. -/
theorem Registry.view_next_of_untouched {registry : Registry} {operation : Operation}
    {other : UInt32 × UInt64} (stays : operation ≠ .compact)
    (untouched : other ∉ operation.touched registry.nodeId) :
    (registry.next operation).view other = registry.view other := by
  cases operation with
  | write change =>
    show (registry.write change).1.view other = registry.view other
    unfold write
    cases asked : change.request registry.nodeId registry.clock registry.view with
    | error code => rfl
    | ok wanted =>
      refine Eq.trans (view_put_of_ne wanted.2 ?_) rfl
      rw [LocalWrite.target_of_request asked]
      exact untouched
  | query asked => rfl
  | mergeNamed owner name data timestamp isTombstone =>
    exact view_mergeNamed_of_ne data timestamp isTombstone untouched
  | mergeShared origin name data timestamp isTombstone =>
    exact view_mergeShared_of_ne origin data timestamp isTombstone untouched
  | importFrom frame =>
    show (registry.importFrom frame).1.view other = registry.view other
    unfold importFrom
    cases read : parseFrame registry.nodeId frame with
    | error halt => rfl
    | ok parsed =>
      refine view_foldl_mergeRecord fun record member same => untouched ?_
      exact ⟨parsed, read, record, member, same⟩
  | exportSharedDeltaBounded since capBytes => rfl
  | tick => rfl
  | compact => exact absurd rfl stays

end Fleece
