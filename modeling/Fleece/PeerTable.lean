/-
This file models the peers of the Reticulum module: the `PeerTable` of
`fleece_reticulum.cpp` and the sends that go through it.

The table keeps the eight identities that were heard of last, each with at most one link
for each of its two destinations. A broadcast is a send to every identity of the table:
one packet, or a resource over a link where the payload is too large for a packet.
What the mesh library answers is a parameter of each call: the free memory, the status
of a link, the hash of a new one, and whether a constructor throws. The log is left out;
in its place is a list of what the library was handed.
-/

import Fleece.PacketCeiling
import Fleece.Recency
import Fleece.StateManager

namespace Fleece

/-! ### The data model -/

/-- `kMaxPeers`. -/
abbrev kMaxPeers : Nat := 8

/-- An identity of the mesh library, known by its hash. -/
abbrev PeerIdentity : Type := List UInt8

/-- The destination of an identity that is addressed: `"fleece"` or `"control"`. -/
inductive Aspect where
  | fleece
  | control
  deriving DecidableEq

/-- A link of the mesh library, by its hash and by what it was opened to. -/
structure RnsLink where
  hash : List UInt8
  identity : PeerIdentity
  aspect : Aspect
  deriving DecidableEq

/-- `RNS::Type::Link::status`. -/
inductive LinkStatus where
  | pending
  | handshake
  | active
  | stale
  | closed
  deriving DecidableEq

/-- An entry of the arrays of the table. -/
structure PeerSlot where
  /-- Nothing is `RNS::Type::NONE`. -/
  identity : Option PeerIdentity
  lastSeenTick : UInt32
  /-- `links_` where `has_link_` is set. -/
  links : Aspect → Option RnsLink

/-- `PeerTable`: the entries, of which the first `count` are in use. -/
structure PeerTable where
  slots : Fin kMaxPeers → PeerSlot
  count : Nat

/-- What the mesh library answers during a call. -/
structure RnsAnswers where
  /-- `heap_pool_free`. -/
  poolFree : UInt64
  /-- `heap_pool_size`. -/
  poolSize : UInt64
  status : RnsLink → LinkStatus
  /-- `teardown` calls `onLinkClosed` before it returns. -/
  reportsTeardown : RnsLink → Bool
  /-- The hash of the link that is opened to a destination, or nothing where that throws. -/
  openLink : PeerIdentity → Aspect → Option (List UInt8)
  /-- The resource is started, or that throws. -/
  startResource : RnsLink → Bool
  /-- The packet is sent, or that throws. -/
  sendPacket : PeerIdentity → Aspect → Bool

/-- Under a tenth of the memory pool is free. -/
def RnsAnswers.isShort (answers : RnsAnswers) : Bool :=
  decide (0 < answers.poolSize) && decide (answers.poolFree * 2 < answers.poolSize) &&
    decide (answers.poolFree * 10 < answers.poolSize)

/-! ### The table -/

namespace PeerTable

/-- The table before any announce. -/
def empty : PeerTable := ⟨fun _ => ⟨none, 0, fun _ => none⟩, 0⟩

/-- One entry is overwritten. -/
def setSlot (table : PeerTable) (i : Fin kMaxPeers) (slot : PeerSlot) : PeerTable :=
  { table with slots := Function.update table.slots i slot }

/-- `PeerTable::link_for`. -/
def linkFor (table : PeerTable) (i : Fin kMaxPeers) (aspect : Aspect) : Option RnsLink :=
  (table.slots i).links aspect

/-- The link of an entry and an aspect is set, or dropped. -/
def putLink (table : PeerTable) (i : Fin kMaxPeers) (aspect : Aspect) (link : Option RnsLink) :
    PeerTable :=
  table.setSlot i
    { table.slots i with links := Function.update (table.slots i).links aspect link }

/-- `PeerTable::set_link`. -/
def setLink (table : PeerTable) (i : Fin kMaxPeers) (aspect : Aspect) (link : RnsLink) :
    PeerTable :=
  table.putLink i aspect (some link)

/-- `i < count_`. -/
def inUse (table : PeerTable) (i : Fin kMaxPeers) : Bool := decide (i.val < table.count)

/-- The entries in use with their aspects, in the order of the scan. -/
def linkPlaces (table : PeerTable) : List (Fin kMaxPeers × Aspect) :=
  ((List.finRange kMaxPeers).filter table.inUse).flatMap fun i => [(i, .fleece), (i, .control)]

/-- `PeerTable::note_link_closed`: the first place with a link of this hash is emptied. -/
def noteLinkClosed (table : PeerTable) (linkHash : List UInt8) : PeerTable :=
  match table.linkPlaces.find? fun place =>
      (table.linkFor place.1 place.2).any fun link => link.hash == linkHash with
  | none => table
  | some place => table.putLink place.1 place.2 none

/-- One turn of the loop of `teardown_links`. -/
def teardownLink (answers : RnsAnswers) (slot : Fin kMaxPeers) (table : PeerTable)
    (aspect : Aspect) : PeerTable :=
  match table.linkFor slot aspect with
  | none => table
  | some link =>
    let isUp := answers.status link == .handshake || answers.status link == .active
    let torn :=
      if isUp && answers.reportsTeardown link then table.noteLinkClosed link.hash else table
    torn.putLink slot aspect none

/-- `PeerTable::teardown_links`, over both aspects of an entry. -/
def teardownLinks (answers : RnsAnswers) (table : PeerTable) (slot : Fin kMaxPeers) : PeerTable :=
  [Aspect.fleece, .control].foldl (teardownLink answers slot) table

/-- An identity takes over an entry. -/
def occupy (table : PeerTable) (i : Fin kMaxPeers) (identity : PeerIdentity) (nowTick : UInt32) :
    PeerTable :=
  table.setSlot i { table.slots i with identity := some identity, lastSeenTick := nowTick }

/-- `PeerTable::add`: a known identity is stamped, a new one takes a free entry or the oldest. -/
def add (answers : RnsAnswers) (table : PeerTable) (identity : PeerIdentity) (nowTick : UInt32) :
    PeerTable :=
  match Fin.find? fun i => table.inUse i && (table.slots i).identity == some identity with
  | some i => table.setSlot i { table.slots i with lastSeenTick := nowTick }
  | none =>
    if room : table.count < kMaxPeers then
      { table.occupy ⟨table.count, room⟩ identity nowTick with count := table.count + 1 }
    else
      let oldest := Recency.oldest (fun slot => slot.lastSeenTick.toNat) table.slots
      (table.teardownLinks answers oldest).occupy oldest identity nowTick

end PeerTable

/-! ### Sending -/

/-- How a payload was handed to the mesh library for a peer. -/
inductive Handing where
  | packet (sent : Bool)
  | resource (link : RnsLink)
  /-- A link is being set up, and the payload is dropped. -/
  | linkPending
  deriving DecidableEq

/-- A payload that was handed to the mesh library for a peer. -/
structure Delivery where
  identity : PeerIdentity
  aspect : Aspect
  payload : Blob
  handing : Handing
  deriving DecidableEq

/-- The globals of `fleece_reticulum.cpp` that a send meets, and what was handed over so far. -/
structure ReticulumSender where
  peers : PeerTable
  pollTickCount : UInt32
  sendAttempts : UInt32
  sendOk : UInt32
  sendFail : UInt32
  resourceStarted : UInt32
  resourceLinkPending : UInt32
  deliveries : List Delivery

/-- The node id of an identity: the first eight bytes of its hash, little endian. -/
def PeerIdentity.nodeId (identity : PeerIdentity) : Option UInt64 :=
  if identity.length < 8 then none
  else some ((identity.take 8).foldr (fun byte word => word * 256 + byte.toUInt64) 0)

namespace ReticulumSender

/-- The module before the first announce. -/
def start : ReticulumSender := ⟨.empty, 0, 0, 0, 0, 0, 0, []⟩

/-- What a send to one peer comes to. -/
def hand (sender : ReticulumSender) (delivery : Delivery) : ReticulumSender :=
  let counted : ReticulumSender :=
    match delivery.handing with
    | .packet true => { sender with sendOk := sender.sendOk + 1 }
    | .packet false => { sender with sendFail := sender.sendFail + 1 }
    | .resource _ => { sender with resourceStarted := sender.resourceStarted + 1 }
    | .linkPending => { sender with resourceLinkPending := sender.resourceLinkPending + 1 }
  { counted with deliveries := sender.deliveries ++ [delivery] }

variable (constants : ReticulumConstants) (radioMtu : UInt32)

/-- `payload.size() > single_packet_payload_ceiling()`. -/
def isOversized (payload : Blob) : Bool :=
  decide (constants.singlePacketPayloadCeiling radioMtu < UInt64.ofNat payload.size)

variable (answers : RnsAnswers)

/-- `sendViaResource`; nothing where it throws. -/
def sendViaResource (sender : ReticulumSender) (i : Fin kMaxPeers) (aspect : Aspect)
    (identity : PeerIdentity) (payload : Blob) : Option ReticulumSender :=
  let alive := (sender.peers.linkFor i aspect).filter fun link =>
    answers.status link != .closed && answers.status link != .stale
  match alive with
  | none =>
    (answers.openLink identity aspect).map fun hash =>
      { sender with peers := sender.peers.setLink i aspect ⟨hash, identity, aspect⟩ }.hand
        ⟨identity, aspect, payload, .linkPending⟩
  | some link =>
    if answers.status link = .pending ∨ answers.status link = .handshake then
      some (sender.hand ⟨identity, aspect, payload, .linkPending⟩)
    else if answers.startResource link then
      some (sender.hand ⟨identity, aspect, payload, .resource link⟩)
    else none

/-- The loop of `sendToAllPeers`. A packet that throws is counted; a resource that throws ends
the loop, as only the caller catches it. -/
def fanOut (aspect : Aspect) (payload : Blob) :
    List (Fin kMaxPeers) → ReticulumSender → ReticulumSender
  | [], sender => sender
  | i :: rest, sender =>
    match (sender.peers.slots i).identity with
    | none => fanOut aspect payload rest sender
    | some identity =>
      if isOversized constants radioMtu payload then
        match sender.sendViaResource answers i aspect identity payload with
        | none => sender
        | some next => fanOut aspect payload rest next
      else
        fanOut aspect payload rest
          (sender.hand ⟨identity, aspect, payload, .packet (answers.sendPacket identity aspect)⟩)

/-- `sendToAllPeers`, which does nothing where memory is short. -/
def sendToAllPeers (sender : ReticulumSender) (aspect : Aspect) (payload : Blob) :
    ReticulumSender :=
  if answers.isShort then
    if aspect = .fleece then { sender with sendFail := sender.sendFail + 1 } else sender
  else
    fanOut constants radioMtu answers aspect payload
      ((List.finRange kMaxPeers).filter sender.peers.inUse)
      { sender with sendAttempts := sender.sendAttempts + 1 }

/-- `fleece_reticulum_send_to_node`: the first peer with the node id is tried. -/
def sendToNode (sender : ReticulumSender) (nodeId : UInt64) (payload : Blob) :
    ReticulumSender × Bool :=
  match ((List.finRange kMaxPeers).filter sender.peers.inUse).findSome? fun i =>
      (sender.peers.slots i).identity.filter fun identity => identity.nodeId == some nodeId with
  | none => (sender, false)
  | some identity =>
    if answers.sendPacket identity .fleece then
      (sender.hand ⟨identity, .fleece, payload, .packet true⟩, true)
    else (sender, false)

end ReticulumSender

/-! ### Well-formed tables -/

/-- The tick of an entry, as a number. -/
def PeerSlot.seenAt (slot : PeerSlot) : Nat := slot.lastSeenTick.toNat

namespace PeerTable

/-- The entries in use are the first ones, no identity has two, and a link leads to the identity of
its entry. -/
structure WellFormed (table : PeerTable) : Prop where
  countLe : table.count ≤ kMaxPeers
  occupied : ∀ i, (table.slots i).identity ≠ none ↔ i.val < table.count
  distinct : Slots.Distinct PeerSlot.identity table.slots
  addressed : ∀ i aspect link, table.linkFor i aspect = some link →
    (table.slots i).identity = some link.identity ∧ link.aspect = aspect

theorem wellFormed_empty : empty.WellFormed where
  countLe := Nat.zero_le _
  occupied _ := ⟨fun held => absurd rfl held, nofun⟩
  distinct _ _ _ := nofun
  addressed _ _ _ := nofun

variable {table next : PeerTable}

/-- The same entries, with the same links or fewer. -/
structure DropsLinks (table next : PeerTable) : Prop where
  count : next.count = table.count
  identity : ∀ i, (next.slots i).identity = (table.slots i).identity
  lastSeenTick : ∀ i, (next.slots i).lastSeenTick = (table.slots i).lastSeenTick
  links : ∀ i aspect, next.linkFor i aspect = none ∨
    next.linkFor i aspect = table.linkFor i aspect

theorem DropsLinks.refl (table : PeerTable) : table.DropsLinks table :=
  ⟨rfl, fun _ => rfl, fun _ => rfl, fun _ _ => Or.inr rfl⟩

theorem DropsLinks.trans {last : PeerTable} (left : table.DropsLinks next)
    (right : next.DropsLinks last) : table.DropsLinks last := by
  refine ⟨right.count.trans left.count, fun i => (right.identity i).trans (left.identity i),
    fun i => (right.lastSeenTick i).trans (left.lastSeenTick i), fun i aspect => ?_⟩
  rcases right.links i aspect with dropped | kept
  · exact Or.inl dropped
  · rw [kept]
    exact left.links i aspect

/-- The same entries with the same links or fewer are as well-formed, whatever their ticks. -/
theorem WellFormed.congr (formed : table.WellFormed) (count : next.count = table.count)
    (identity : ∀ i, (next.slots i).identity = (table.slots i).identity)
    (links : ∀ i aspect, next.linkFor i aspect = none ∨
      next.linkFor i aspect = table.linkFor i aspect) : next.WellFormed where
  countLe := count ▸ formed.countLe
  occupied i := by
    rw [identity, count]
    exact formed.occupied i
  distinct i j wanted first second := by
    rw [identity] at first second
    exact formed.distinct i j wanted first second
  addressed i aspect link found := by
    rw [identity]
    rcases links i aspect with dropped | kept
    · exact absurd (dropped.symm.trans found) nofun
    · exact formed.addressed i aspect link (kept.symm.trans found)

theorem linkFor_putLink (table : PeerTable) (i j : Fin kMaxPeers) (aspect other : Aspect)
    (link : Option RnsLink) : (table.putLink i aspect link).linkFor j other =
      if j = i ∧ other = aspect then link else table.linkFor j other := by
  unfold putLink linkFor setSlot
  simp only
  by_cases same : j = i
  · subst same
    rw [Function.update_self]
    dsimp only
    by_cases sameAspect : other = aspect
    · rw [sameAspect, Function.update_self, if_pos ⟨rfl, rfl⟩]
    · rw [Function.update_of_ne sameAspect, if_neg fun both => sameAspect both.2]
  · rw [Function.update_of_ne same, if_neg fun both => same both.1]

@[simp] theorem identity_putLink (table : PeerTable) (i j : Fin kMaxPeers) (aspect : Aspect)
    (link : Option RnsLink) :
    ((table.putLink i aspect link).slots j).identity = (table.slots j).identity := by
  unfold putLink setSlot
  simp only [Function.update_apply]
  split_ifs with same
  · rw [same]
  · rfl

@[simp] theorem lastSeenTick_putLink (table : PeerTable) (i j : Fin kMaxPeers) (aspect : Aspect)
    (link : Option RnsLink) :
    ((table.putLink i aspect link).slots j).lastSeenTick = (table.slots j).lastSeenTick := by
  unfold putLink setSlot
  simp only [Function.update_apply]
  split_ifs with same
  · rw [same]
  · rfl

theorem dropsLinks_putLink_none (table : PeerTable) (i : Fin kMaxPeers) (aspect : Aspect) :
    table.DropsLinks (table.putLink i aspect none) := by
  refine ⟨rfl, fun j => identity_putLink table i j aspect none,
    fun j => lastSeenTick_putLink table i j aspect none, fun j other => ?_⟩
  rw [linkFor_putLink]
  split_ifs
  · exact Or.inl rfl
  · exact Or.inr rfl

theorem dropsLinks_noteLinkClosed (table : PeerTable) (linkHash : List UInt8) :
    table.DropsLinks (table.noteLinkClosed linkHash) := by
  unfold noteLinkClosed
  split
  · exact .refl table
  · exact dropsLinks_putLink_none table _ _

theorem dropsLinks_teardownLink (answers : RnsAnswers) (table : PeerTable) (slot : Fin kMaxPeers)
    (aspect : Aspect) : table.DropsLinks (teardownLink answers slot table aspect) ∧
      (teardownLink answers slot table aspect).linkFor slot aspect = none := by
  unfold teardownLink
  cases found : table.linkFor slot aspect with
  | none => exact ⟨.refl table, found⟩
  | some link =>
    simp only
    refine ⟨DropsLinks.trans ?_ (dropsLinks_putLink_none _ slot aspect), ?_⟩
    · split_ifs
      · exact dropsLinks_noteLinkClosed table link.hash
      · exact .refl table
    · rw [linkFor_putLink, if_pos ⟨rfl, rfl⟩]

/-- After a teardown the entry has no link. -/
theorem dropsLinks_teardownLinks (answers : RnsAnswers) (table : PeerTable)
    (slot : Fin kMaxPeers) : table.DropsLinks (table.teardownLinks answers slot) ∧
      ∀ aspect, (table.teardownLinks answers slot).linkFor slot aspect = none := by
  obtain ⟨first, noGossip⟩ := dropsLinks_teardownLink answers table slot .fleece
  obtain ⟨second, noControl⟩ :=
    dropsLinks_teardownLink answers (teardownLink answers slot table .fleece) slot .control
  refine ⟨first.trans second, fun aspect => ?_⟩
  cases aspect with
  | fleece =>
    rcases second.links slot .fleece with dropped | kept
    · exact dropped
    · exact kept.trans noGossip
  | control => exact noControl

/-- What an announce does: the entry of the identity is refreshed, a free one is taken, or the one
that was heard of least recently, without its links. -/
inductive Adds (table : PeerTable) (identity : PeerIdentity) (nowTick : UInt32) :
    PeerTable → Prop
  | refreshed (i : Fin kMaxPeers) (known : (table.slots i).identity = some identity) :
      Adds table identity nowTick
        (table.setSlot i { table.slots i with lastSeenTick := nowTick })
  | appended (room : table.count < kMaxPeers)
      (absent : ∀ i, (table.slots i).identity ≠ some identity) :
      Adds table identity nowTick
        { table.occupy ⟨table.count, room⟩ identity nowTick with count := table.count + 1 }
  | evicted (torn : PeerTable) (oldest : Fin kMaxPeers) (full : kMaxPeers ≤ table.count)
      (absent : ∀ i, (table.slots i).identity ≠ some identity)
      (earliest : ∀ i, (table.slots oldest).seenAt ≤ (table.slots i).seenAt)
      (drops : table.DropsLinks torn) (bare : ∀ aspect, torn.linkFor oldest aspect = none) :
      Adds table identity nowTick (torn.occupy oldest identity nowTick)

theorem add_adds (formed : table.WellFormed) (answers : RnsAnswers) (identity : PeerIdentity)
    (nowTick : UInt32) : table.Adds identity nowTick (table.add answers identity nowTick) := by
  unfold add
  cases found : Fin.find? fun i =>
      table.inUse i && (table.slots i).identity == some identity with
  | some i =>
    have matched := Fin.eq_true_of_find?_eq_some found
    exact .refreshed i (beq_iff_eq.mp (Bool.and_eq_true_iff.mp matched).2)
  | none =>
    have absent (i : Fin kMaxPeers) : (table.slots i).identity ≠ some identity := by
      intro known
      have used : i.val < table.count := (formed.occupied i).mp (known ▸ Option.some_ne_none _)
      have missed := Fin.find?_eq_none_iff.mp found i
      rw [known, inUse, decide_eq_true used, Bool.true_and, beq_self_eq_true] at missed
      cases missed
    simp only
    split_ifs with room
    · exact .appended room absent
    · have torn := dropsLinks_teardownLinks answers table
        (Recency.oldest (fun slot => slot.lastSeenTick.toNat) table.slots)
      exact .evicted _ _ (not_lt.mp room) absent
        (@Recency.oldest_le _ _ _ 7 PeerSlot.seenAt table.slots) torn.1 torn.2

end PeerTable

end Fleece
