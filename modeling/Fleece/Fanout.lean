/-
This file is about the sends of the Reticulum module over its runs: announces, polls,
closed links and sends in any order, with any answers of the mesh library.

The table forgets an identity only for eight others that were heard of later, so a
broadcast goes out to every identity that was heard of since some time, as long as these
are at most eight. A link is only used for the identity and the destination it was opened
to, also after its entry went to another identity. The counters of the log line count
what was handed over.
-/

import Fleece.PeerTable
import Fleece.Runs

namespace Fleece

namespace PeerTable

variable {table next : PeerTable} {identity : PeerIdentity} {nowTick : UInt32}

/-! ### An announce -/

theorem setSlot_slots (table : PeerTable) (i : Fin kMaxPeers) (slot : PeerSlot) :
    (table.setSlot i slot).slots = Function.update table.slots i slot := rfl

/-- An identity without an entry takes over one that has no links. -/
theorem WellFormed.occupy (formed : table.WellFormed) {i : Fin kMaxPeers} {count : Nat}
    (absent : ∀ j, (table.slots j).identity ≠ some identity)
    (bare : ∀ aspect, table.linkFor i aspect = none) (countLe : count ≤ kMaxPeers)
    (occupied : ∀ j : Fin kMaxPeers, j = i ∨ j.val < table.count ↔ j.val < count) :
    { table.occupy i identity nowTick with count := count }.WellFormed where
  countLe := countLe
  occupied j := by
    rw [← occupied j, ← formed.occupied j]
    show (Function.update table.slots i _ j).identity ≠ none ↔ _
    rcases eq_or_ne j i with rfl | other
    · rw [Function.update_self]
      exact ⟨fun _ => Or.inl rfl, fun _ => Option.some_ne_none _⟩
    · rw [Function.update_of_ne other]
      exact ⟨Or.inr, fun held => held.resolve_left other⟩
  distinct := by
    refine Slots.distinct_update formed.distinct i fun j wanted new old => ?_
    exact absurd (old.trans new.symm) (absent j)
  addressed j aspect link found := by
    rcases eq_or_ne j i with rfl | other
    · have same : linkFor { table.occupy j identity nowTick with count := count } j aspect =
          table.linkFor j aspect := by
        show (Function.update table.slots j _ j).links aspect = _
        rw [Function.update_self]
        rfl
      rw [same, bare] at found
      cases found
    · have same : Function.update table.slots i
          { table.slots i with identity := some identity, lastSeenTick := nowTick } j =
            table.slots j := Function.update_of_ne other _ _
      have held := formed.addressed j aspect link
      unfold linkFor at held
      rw [← same] at held
      exact held found

theorem Adds.wellFormed (adds : table.Adds identity nowTick next) (formed : table.WellFormed) :
    next.WellFormed := by
  cases adds with
  | refreshed i known =>
    have same (j : Fin kMaxPeers) :
        ((table.setSlot i { table.slots i with lastSeenTick := nowTick }).slots j).identity =
            (table.slots j).identity ∧
          ((table.setSlot i { table.slots i with lastSeenTick := nowTick }).slots j).links =
            (table.slots j).links := by
      rw [setSlot_slots, Function.update_apply]
      split_ifs with mine
      · rw [mine]
        exact ⟨rfl, rfl⟩
      · exact ⟨rfl, rfl⟩
    exact formed.congr rfl (fun j => (same j).1) fun j aspect =>
      Or.inr (congrFun (same j).2 aspect)
  | appended room absent =>
    refine formed.occupy absent (fun aspect => ?_) room fun j => ?_
    · by_contra held
      obtain ⟨link, found⟩ := Option.ne_none_iff_exists'.mp held
      have known := (formed.addressed _ aspect link found).1
      have inside := (formed.occupied ⟨table.count, room⟩).mp (known ▸ Option.some_ne_none _)
      exact absurd inside (lt_irrefl _)
    · rw [Fin.ext_iff]
      exact (Nat.lt_succ_iff_lt_or_eq.trans or_comm).symm
  | evicted torn oldest full absent earliest drops bare =>
    have whole : torn.count = kMaxPeers :=
      drops.count.trans (le_antisymm formed.countLe full)
    have tornFormed := formed.congr drops.count drops.identity drops.links
    refine tornFormed.occupy (fun j known => absent j ((drops.identity j).symm.trans known)) bare
      tornFormed.countLe fun j => ?_
    rw [whole]
    exact ⟨fun _ => j.isLt, Or.inr⟩

/-- The table holds the identities it held and the one that announced itself. -/
theorem Adds.held (adds : table.Adds identity nowTick next) {i : Fin kMaxPeers}
    {other : PeerIdentity} (held : (next.slots i).identity = some other) :
    other = identity ∨ ∃ j, (table.slots j).identity = some other := by
  -- the entry that was written, and any other one
  have written {table : PeerTable} {j : Fin kMaxPeers} {slot : PeerSlot}
      (now : (Function.update table.slots j slot i).identity = some other) :
      slot.identity = some other ∨ (table.slots i).identity = some other := by
    rcases eq_or_ne i j with rfl | apart
    · rw [Function.update_self] at now
      exact Or.inl now
    · rw [Function.update_of_ne apart] at now
      exact Or.inr now
  cases adds with
  | refreshed j known =>
    rcases written held with same | before
    · exact Or.inr ⟨j, same⟩
    · exact Or.inr ⟨i, before⟩
  | appended room absent =>
    rcases written held with same | before
    · exact Or.inl (Option.some.inj same).symm
    · exact Or.inr ⟨i, before⟩
  | evicted torn oldest full absent earliest drops bare =>
    rcases written held with same | before
    · exact Or.inl (Option.some.inj same).symm
    · exact Or.inr ⟨i, (drops.identity i).symm.trans before⟩

/-- What the table remembers of the announces. -/
def Remembers (table : PeerTable) (heard : PeerIdentity → Option Nat) : Prop :=
  Recency.Remembers PeerSlot.identity PeerSlot.seenAt table.slots heard

theorem Adds.remembers (adds : table.Adds identity nowTick next) (formed : table.WellFormed)
    {heard : PeerIdentity → Option Nat} (remembers : table.Remembers heard)
    (now : ∀ other at', heard other = some at' → at' ≤ nowTick.toNat) :
    next.Remembers (Function.update heard identity (some nowTick.toNat)) := by
  cases adds with
  | refreshed i known =>
    exact @Recency.Remembers.see _ _ _ _ _ _ _ _ _ _ remembers
      { table.slots i with lastSeenTick := nowTick } identity known i (.own known) now
  | appended room absent =>
    refine @Recency.Remembers.see _ _ _ _ _ _ _ _ _ _ remembers
      { table.slots ⟨table.count, room⟩ with
        identity := some identity, lastSeenTick := nowTick } identity rfl ⟨table.count, room⟩
      (.free absent ?_) now
    by_contra held
    exact absurd ((formed.occupied ⟨table.count, room⟩).mp held) (lt_irrefl _)
  | evicted torn oldest full absent earliest drops bare =>
    have kept : torn.Remembers heard := Recency.Remembers.congr remembers drops.identity
      fun i => congrArg UInt32.toNat (drops.lastSeenTick i)
    refine @Recency.Remembers.see _ _ _ _ _ _ _ _ _ _ kept
      { torn.slots oldest with
        identity := some identity, lastSeenTick := nowTick } identity rfl oldest
      (.least ?_ ?_ ?_) now
    · intro j known
      exact absent j ((drops.identity j).symm.trans known)
    · intro j
      rw [drops.identity]
      exact (formed.occupied j).mpr (j.isLt.trans_le full)
    · intro j
      unfold PeerSlot.seenAt
      rw [drops.lastSeenTick, drops.lastSeenTick]
      exact earliest j

end PeerTable

/-! ### A fan-out -/

/-- The identities of some entries, in order. -/
def PeerTable.identitiesAt (table : PeerTable) : List (Fin kMaxPeers) → List PeerIdentity
  | [] => []
  | i :: rest => (table.slots i).identity.toList ++ table.identitiesAt rest

theorem PeerTable.identitiesAt_congr {table next : PeerTable}
    (same : ∀ i, (next.slots i).identity = (table.slots i).identity)
    (indices : List (Fin kMaxPeers)) : next.identitiesAt indices = table.identitiesAt indices := by
  induction indices with
  | nil => rfl
  | cons i rest inductionHypothesis =>
    rw [identitiesAt, identitiesAt, same, inductionHypothesis]

/-- Nothing that a send over a link needs throws. -/
def RnsAnswers.Allocates (answers : RnsAnswers) : Prop :=
  (∀ identity aspect, answers.openLink identity aspect ≠ none) ∧
    ∀ link, answers.startResource link = true

theorem PeerTable.WellFormed.putLink {table : PeerTable} (formed : table.WellFormed)
    {i : Fin kMaxPeers} {aspect : Aspect} {link : RnsLink}
    (known : (table.slots i).identity = some link.identity) (same : link.aspect = aspect) :
    (table.putLink i aspect (some link)).WellFormed where
  countLe := formed.countLe
  occupied j := by
    rw [identity_putLink]
    exact formed.occupied j
  distinct j k wanted first second := by
    rw [identity_putLink] at first second
    exact formed.distinct j k wanted first second
  addressed j other held found := by
    rw [linkFor_putLink] at found
    rw [identity_putLink]
    split_ifs at found with mine
    · obtain ⟨rfl, rfl⟩ := mine
      obtain rfl := Option.some.inj found
      exact ⟨known, same⟩
    · exact formed.addressed j other held found

/-- A resource goes over a link to the identity and the destination it is for. -/
def Delivery.IsAddressed (delivery : Delivery) : Prop :=
  ∀ link, delivery.handing = .resource link →
    link.identity = delivery.identity ∧ link.aspect = delivery.aspect

namespace ReticulumSender

/-- What a send changes: it hands something over and may set links, while the identities of the
table stay. -/
structure Hands (sender next : ReticulumSender) (added : List Delivery) : Prop where
  formed : next.peers.WellFormed
  deliveries : next.deliveries = sender.deliveries ++ added
  addressed : ∀ delivery ∈ added, delivery.IsAddressed
  pollTickCount : next.pollTickCount = sender.pollTickCount
  identity : ∀ i, (next.peers.slots i).identity = (sender.peers.slots i).identity
  lastSeenTick : ∀ i, (next.peers.slots i).lastSeenTick = (sender.peers.slots i).lastSeenTick

variable {sender next : ReticulumSender}

theorem Hands.refl (formed : sender.peers.WellFormed) : sender.Hands sender [] :=
  ⟨formed, (List.append_nil _).symm, nofun, rfl, fun _ => rfl, fun _ => rfl⟩

theorem Hands.trans {last : ReticulumSender} {first second : List Delivery}
    (left : sender.Hands next first) (right : next.Hands last second) :
    sender.Hands last (first ++ second) := by
  refine ⟨right.formed, ?_, ?_, right.pollTickCount.trans left.pollTickCount,
    fun i => (right.identity i).trans (left.identity i),
    fun i => (right.lastSeenTick i).trans (left.lastSeenTick i)⟩
  · rw [right.deliveries, left.deliveries, List.append_assoc]
  · exact List.forall_mem_append.mpr ⟨left.addressed, right.addressed⟩

@[simp] theorem hand_peers (sender : ReticulumSender) (delivery : Delivery) :
    (sender.hand delivery).peers = sender.peers := by
  unfold hand
  split <;> rfl

@[simp] theorem hand_pollTickCount (sender : ReticulumSender) (delivery : Delivery) :
    (sender.hand delivery).pollTickCount = sender.pollTickCount := by
  unfold hand
  split <;> rfl

theorem hands_hand (formed : sender.peers.WellFormed) {delivery : Delivery}
    (addressed : delivery.IsAddressed) : sender.Hands (sender.hand delivery) [delivery] := by
  refine ⟨?_, rfl, List.forall_mem_singleton.mpr addressed, hand_pollTickCount sender delivery,
    fun i => ?_, fun i => ?_⟩
  · rw [hand_peers]
    exact formed
  · rw [hand_peers]
  · rw [hand_peers]

variable (constants : ReticulumConstants) (radioMtu : UInt32) (answers : RnsAnswers)
  {aspect : Aspect} {payload : Blob}

/-- A send over a link hands one thing over for the peer, unless it throws. -/
theorem sendViaResource_hands (formed : sender.peers.WellFormed) {i : Fin kMaxPeers}
    {identity : PeerIdentity} (known : (sender.peers.slots i).identity = some identity)
    (sent : sender.sendViaResource answers i aspect identity payload = some next) :
    ∃ handing, sender.Hands next [⟨identity, aspect, payload, handing⟩] := by
  unfold sendViaResource at sent
  simp only at sent
  split at sent
  · obtain ⟨hash, _, rfl⟩ := Option.map_eq_some_iff.mp sent
    have opened : (sender.peers.setLink i aspect ⟨hash, identity, aspect⟩).WellFormed :=
      formed.putLink known rfl
    have pending : Delivery.IsAddressed ⟨identity, aspect, payload, .linkPending⟩ := nofun
    have handed := @hands_hand
      { sender with peers := sender.peers.setLink i aspect ⟨hash, identity, aspect⟩ }
      opened _ pending
    exact ⟨_, handed.formed, handed.deliveries, handed.addressed, handed.pollTickCount,
      fun j => (handed.identity j).trans (PeerTable.identity_putLink _ _ _ _ _),
      fun j => (handed.lastSeenTick j).trans (PeerTable.lastSeenTick_putLink _ _ _ _ _)⟩
  · rename_i link alive
    have cached := (Option.filter_eq_some_iff.mp alive).1
    obtain ⟨owner, destination⟩ := formed.addressed i aspect link cached
    split_ifs at sent
    · obtain rfl := Option.some.inj sent
      exact ⟨_, hands_hand formed nofun⟩
    · obtain rfl := Option.some.inj sent
      refine ⟨_, hands_hand formed fun other same => ?_⟩
      obtain rfl := Handing.resource.inj same
      exact ⟨Option.some.inj (owner.symm.trans known), destination⟩

theorem sendViaResource_of_allocates (allocates : answers.Allocates) (i : Fin kMaxPeers)
    (identity : PeerIdentity) :
    sender.sendViaResource answers i aspect identity payload ≠ none := by
  unfold sendViaResource
  simp only
  split
  · rw [ne_eq, Option.map_eq_none_iff]
    exact allocates.1 identity aspect
  · rw [if_pos (allocates.2 _)]
    split_ifs
    · exact Option.some_ne_none _
    · exact Option.some_ne_none _

/-- What a loop hands over for some identities: each is tried once, in order, and all of them are
unless something throws. -/
structure FansOut (sender next : ReticulumSender) (aspect : Aspect) (payload : Blob)
    (identities : List PeerIdentity) (added : List Delivery) : Prop where
  hands : sender.Hands next added
  about : ∀ delivery ∈ added, delivery.aspect = aspect ∧ delivery.payload = payload
  order : added.map Delivery.identity <+: identities
  complete : isOversized constants radioMtu payload = false ∨ answers.Allocates →
    added.map Delivery.identity = identities

variable {constants radioMtu answers}

theorem FansOut.cons {last : ReticulumSender} {identity : PeerIdentity}
    {identities : List PeerIdentity} {handing : Handing} {added : List Delivery}
    (first : sender.Hands next [⟨identity, aspect, payload, handing⟩])
    (rest : FansOut constants radioMtu answers next last aspect payload identities added) :
    FansOut constants radioMtu answers sender last aspect payload (identity :: identities)
      (⟨identity, aspect, payload, handing⟩ :: added) where
  hands := first.trans rest.hands
  about := List.forall_mem_cons.mpr ⟨⟨rfl, rfl⟩, rest.about⟩
  order := (List.prefix_cons_inj identity).mpr rest.order
  complete := fun calm => congrArg (identity :: ·) (rest.complete calm)

theorem fanOut_fansOut (formed : sender.peers.WellFormed) (indices : List (Fin kMaxPeers)) :
    ∃ added, FansOut constants radioMtu answers sender
      (fanOut constants radioMtu answers aspect payload indices sender) aspect payload
      (sender.peers.identitiesAt indices) added := by
  induction indices generalizing sender with
  | nil => exact ⟨[], .refl formed, nofun, List.prefix_rfl, fun _ => rfl⟩
  | cons i rest inductionHypothesis =>
    have continues {next : ReticulumSender} {identity : PeerIdentity} {handing : Handing}
        (first : sender.Hands next [⟨identity, aspect, payload, handing⟩]) :
        ∃ added, FansOut constants radioMtu answers sender
          (fanOut constants radioMtu answers aspect payload rest next) aspect payload
          (identity :: sender.peers.identitiesAt rest) added := by
      obtain ⟨added, later⟩ := inductionHypothesis first.formed
      rw [PeerTable.identitiesAt_congr first.identity] at later
      exact ⟨_, later.cons first⟩
    rw [fanOut, PeerTable.identitiesAt]
    cases known : (sender.peers.slots i).identity with
    | none => exact inductionHypothesis formed
    | some identity =>
      simp only
      by_cases large : isOversized constants radioMtu payload = true
      · rw [if_pos large]
        cases sent : sender.sendViaResource answers i aspect identity payload with
        | none =>
          refine ⟨[], .refl formed, nofun, List.nil_prefix, fun complete => ?_⟩
          rcases complete with small | allocates
          · exact absurd (large.symm.trans small) nofun
          · exact absurd sent (sendViaResource_of_allocates answers allocates i identity)
        | some next =>
          obtain ⟨handing, first⟩ := sendViaResource_hands answers formed known sent
          exact continues first
      · rw [if_neg large]
        exact continues (hands_hand formed nofun)

end ReticulumSender

namespace PeerTable

variable {table : PeerTable}

/-! ### Who is in the table -/

theorem mem_identitiesAt {identity : PeerIdentity} {indices : List (Fin kMaxPeers)} :
    identity ∈ table.identitiesAt indices ↔
      ∃ i ∈ indices, (table.slots i).identity = some identity := by
  induction indices with
  | nil => exact ⟨nofun, fun ⟨_, member, _⟩ => absurd member List.not_mem_nil⟩
  | cons i rest inductionHypothesis =>
    rw [identitiesAt, List.mem_append, inductionHypothesis, Option.mem_toList]
    simp only [List.mem_cons, exists_eq_or_imp]

theorem WellFormed.nodup_identitiesAt (formed : table.WellFormed)
    {indices : List (Fin kMaxPeers)} (nodup : indices.Nodup) :
    (table.identitiesAt indices).Nodup := by
  induction indices with
  | nil => exact List.nodup_nil
  | cons i rest inductionHypothesis =>
    obtain ⟨fresh, later⟩ := List.nodup_cons.mp nodup
    rw [identitiesAt]
    cases known : (table.slots i).identity with
    | none => exact inductionHypothesis later
    | some identity =>
      refine List.nodup_cons.mpr ⟨fun again => ?_, inductionHypothesis later⟩
      obtain ⟨j, member, same⟩ := mem_identitiesAt.mp again
      exact fresh (formed.distinct i j identity known same ▸ member)

/-- The identities a broadcast goes to. -/
def identities (table : PeerTable) : List PeerIdentity :=
  table.identitiesAt ((List.finRange kMaxPeers).filter table.inUse)

theorem WellFormed.count_identities (formed : table.WellFormed) {i : Fin kMaxPeers}
    {identity : PeerIdentity} (known : (table.slots i).identity = some identity) :
    table.identities.count identity = 1 := by
  refine List.count_eq_one_of_mem
    (formed.nodup_identitiesAt ((List.nodup_finRange kMaxPeers).filter _)) ?_
  refine mem_identitiesAt.mpr ⟨i, List.mem_filter.mpr ⟨List.mem_finRange i, ?_⟩, known⟩
  exact decide_eq_true ((formed.occupied i).mp (known ▸ Option.some_ne_none _))

end PeerTable

/-! ### Runs -/

/-- What happens to the module: an announce is heard, the tick count of `poll` goes up, a link is
closed, or something is sent. -/
inductive SenderAct where
  | announce (identity : PeerIdentity) (answers : RnsAnswers)
  | poll
  | linkClosed (linkHash : List UInt8)
  | sendToAll (aspect : Aspect) (payload : Blob) (answers : RnsAnswers)
  | sendToNode (nodeId : UInt64) (payload : Blob) (answers : RnsAnswers)

namespace ReticulumSender

variable (constants : ReticulumConstants) (radioMtu : UInt32)

/-- What one act does to the module. -/
def step (sender : ReticulumSender) : SenderAct → ReticulumSender
  | .announce identity answers =>
    { sender with peers := sender.peers.add answers identity sender.pollTickCount }
  | .poll => { sender with pollTickCount := sender.pollTickCount + 1 }
  | .linkClosed linkHash => { sender with peers := sender.peers.noteLinkClosed linkHash }
  | .sendToAll aspect payload answers =>
    sender.sendToAllPeers constants radioMtu answers aspect payload
  | .sendToNode nodeId payload answers => (sender.sendToNode answers nodeId payload).1

variable {constants radioMtu} {sender : ReticulumSender} {answers : RnsAnswers} {aspect : Aspect}
  {payload : Blob}

/-- A send to all peers either hands nothing over, for want of memory, or is a loop over the
table. -/
theorem sendToAllPeers_fansOut (formed : sender.peers.WellFormed) :
    (answers.isShort = true ∧
        sender.Hands (sender.sendToAllPeers constants radioMtu answers aspect payload) []) ∨
      answers.isShort = false ∧ ∃ added, FansOut constants radioMtu answers sender
        (sender.sendToAllPeers constants radioMtu answers aspect payload) aspect payload
        sender.peers.identities added := by
  unfold sendToAllPeers
  cases answers.isShort with
  | true =>
    refine Or.inl ⟨rfl, ?_⟩
    rw [if_pos rfl]
    split_ifs
    · exact ⟨formed, (List.append_nil _).symm, nofun, rfl, fun _ => rfl, fun _ => rfl⟩
    · exact .refl formed
  | false =>
    rw [if_neg Bool.false_ne_true]
    obtain ⟨added, out⟩ := @fanOut_fansOut
      { sender with sendAttempts := sender.sendAttempts + 1 } constants radioMtu answers aspect
      payload formed ((List.finRange kMaxPeers).filter sender.peers.inUse)
    refine Or.inr ⟨rfl, added, ⟨out.hands.formed, out.hands.deliveries, out.hands.addressed,
      out.hands.pollTickCount, out.hands.identity, out.hands.lastSeenTick⟩, out.about, out.order,
      out.complete⟩

theorem sendToAllPeers_hands (formed : sender.peers.WellFormed) :
    ∃ added, sender.Hands (sender.sendToAllPeers constants radioMtu answers aspect payload) added ∧
      ∀ delivery ∈ added, delivery.identity ∈ sender.peers.identities := by
  rcases @sendToAllPeers_fansOut constants radioMtu sender answers aspect payload formed with
    ⟨_, hands⟩ | ⟨_, added, out⟩
  · exact ⟨[], hands, nofun⟩
  · exact ⟨added, out.hands, fun delivery member =>
      out.order.subset (List.mem_map_of_mem member)⟩

/-- A send to one node goes to a peer that has its id, and tells whether it did. -/
theorem sendToNode_hands (formed : sender.peers.WellFormed) (nodeId : UInt64) :
    ∃ added, sender.Hands (sender.sendToNode answers nodeId payload).1 added ∧
      ∀ delivery ∈ added, delivery.identity ∈ sender.peers.identities := by
  unfold sendToNode
  split
  · exact ⟨[], .refl formed, nofun⟩
  · rename_i identity found
    obtain ⟨i, member, matched⟩ := List.exists_of_findSome?_eq_some found
    have known := (Option.filter_eq_some_iff.mp matched).1
    split_ifs
    · have packet : Delivery.IsAddressed ⟨identity, .fleece, payload, .packet true⟩ := nofun
      refine ⟨_, hands_hand formed packet, List.forall_mem_singleton.mpr ?_⟩
      exact PeerTable.mem_identitiesAt.mpr ⟨i, member, known⟩
    · exact ⟨[], .refl formed, nofun⟩

/-! ### Addresses -/

/-- The table is well-formed, and it holds and addresses only identities of a kind, each over its
own links. -/
structure Addresses (sender : ReticulumSender) (known : PeerIdentity → Prop) : Prop where
  formed : sender.peers.WellFormed
  held : ∀ i identity, (sender.peers.slots i).identity = some identity → known identity
  deliveries : ∀ delivery ∈ sender.deliveries, known delivery.identity ∧ delivery.IsAddressed

theorem Addresses.hands {known : PeerIdentity → Prop} (addresses : sender.Addresses known)
    {next : ReticulumSender} {added : List Delivery} (hands : sender.Hands next added)
    (inTable : ∀ delivery ∈ added, delivery.identity ∈ sender.peers.identities) :
    next.Addresses known := by
  refine ⟨hands.formed, fun i identity held => ?_, ?_⟩
  · rw [hands.identity] at held
    exact addresses.held i identity held
  · rw [hands.deliveries]
    refine List.forall_mem_append.mpr ⟨addresses.deliveries, fun delivery member => ?_⟩
    obtain ⟨i, _, held⟩ := PeerTable.mem_identitiesAt.mp (inTable delivery member)
    exact ⟨addresses.held i _ held, hands.addressed delivery member⟩

theorem Addresses.step {known : PeerIdentity → Prop} (addresses : sender.Addresses known)
    {act : SenderAct}
    (announced : ∀ identity answers, act = .announce identity answers → known identity) :
    (sender.step constants radioMtu act).Addresses known := by
  cases act with
  | announce identity answers =>
    have adds := PeerTable.add_adds addresses.formed answers identity sender.pollTickCount
    refine ⟨adds.wellFormed addresses.formed, fun i other held => ?_, addresses.deliveries⟩
    rcases adds.held held with rfl | ⟨j, before⟩
    · exact announced other answers rfl
    · exact addresses.held j other before
  | poll => exact ⟨addresses.formed, addresses.held, addresses.deliveries⟩
  | linkClosed linkHash =>
    have drops := sender.peers.dropsLinks_noteLinkClosed linkHash
    refine ⟨addresses.formed.congr drops.count drops.identity drops.links,
      fun i identity held => ?_, addresses.deliveries⟩
    exact addresses.held i identity ((drops.identity i).symm.trans held)
  | sendToAll aspect payload answers =>
    obtain ⟨added, hands, inTable⟩ := @sendToAllPeers_hands constants radioMtu sender answers aspect
      payload addresses.formed
    exact addresses.hands hands inTable
  | sendToNode nodeId payload answers =>
    obtain ⟨added, hands, inTable⟩ :=
      @sendToNode_hands sender answers payload addresses.formed nodeId
    exact addresses.hands hands inTable

/-- In every run the table is well-formed, and everything that was handed over was for an identity
that had announced itself. A resource went over a link that was opened to that identity and to the
destination it is for, also where the entry has had other identities since. -/
theorem deliveries_reach_their_peers (constants : ReticulumConstants) (radioMtu : UInt32)
    (acts : List SenderAct) :
    let reached := runFrom (step constants radioMtu) start acts
    reached.peers.WellFormed ∧ ∀ delivery ∈ reached.deliveries,
      (∃ answers, .announce delivery.identity answers ∈ acts) ∧ delivery.IsAddressed := by
  have along : Along (step constants radioMtu) (fun _ act => act ∈ acts) start acts := by
    exact Along.of_forall fun act member => member
  have keeps (sender : ReticulumSender) (act : SenderAct)
      (addresses : sender.Addresses fun identity => ∃ answers, .announce identity answers ∈ acts)
      (member : act ∈ acts) : (sender.step constants radioMtu act).Addresses
        fun identity => ∃ answers, .announce identity answers ∈ acts :=
    addresses.step fun identity answers announced => ⟨answers, announced ▸ member⟩
  have reached := along.invariant keeps
    ⟨PeerTable.wellFormed_empty, fun _ _ => nofun, nofun⟩
  exact ⟨reached.formed, reached.deliveries⟩

/-! ### Who is remembered -/

/-- The number of polls so far, and for each identity the number before its last announce. -/
def heardStep (heard : Nat × (PeerIdentity → Option Nat)) :
    SenderAct → Nat × (PeerIdentity → Option Nat)
  | .announce identity _ => (heard.1, Function.update heard.2 identity (some heard.1))
  | .poll => (heard.1 + 1, heard.2)
  | _ => heard

/-- The polls of a run, and for each identity the number before its last announce. -/
def heard (acts : List SenderAct) : Nat × (PeerIdentity → Option Nat) :=
  runFrom heardStep (0, fun _ => none) acts

theorem polls_le (heard : Nat × (PeerIdentity → Option Nat)) (acts : List SenderAct) :
    heard.1 ≤ (runFrom heardStep heard acts).1 := by
  induction acts generalizing heard with
  | nil => exact le_rfl
  | cons act rest inductionHypothesis =>
    refine le_trans ?_ (inductionHypothesis (heardStep heard act))
    cases act with
    | poll => exact Nat.le_succ _
    | _ => exact le_rfl

/-- The table remembers what was heard, as long as the tick count has not wrapped. -/
structure Recalls (sender : ReticulumSender) (heard : Nat × (PeerIdentity → Option Nat)) :
    Prop where
  formed : sender.peers.WellFormed
  tick : sender.pollTickCount.toNat = heard.1
  past : ∀ identity at', heard.2 identity = some at' → at' ≤ heard.1
  remembers : sender.peers.Remembers heard.2

theorem Recalls.hands {heard : Nat × (PeerIdentity → Option Nat)} (recalls : sender.Recalls heard)
    {next : ReticulumSender} {added : List Delivery} (hands : sender.Hands next added) :
    next.Recalls heard where
  formed := hands.formed
  tick := by
    rw [hands.pollTickCount]
    exact recalls.tick
  past := recalls.past
  remembers := Recency.Remembers.congr recalls.remembers hands.identity
    fun i => congrArg UInt32.toNat (hands.lastSeenTick i)

theorem Recalls.step {heard : Nat × (PeerIdentity → Option Nat)} (recalls : sender.Recalls heard)
    {act : SenderAct} (short : (heardStep heard act).1 < 2 ^ 32) :
    (sender.step constants radioMtu act).Recalls (heardStep heard act) := by
  cases act with
  | announce identity answers =>
    have adds := PeerTable.add_adds recalls.formed answers identity sender.pollTickCount
    have remembers := adds.remembers recalls.formed recalls.remembers fun other at' was =>
      (recalls.past other at' was).trans_eq recalls.tick.symm
    rw [recalls.tick] at remembers
    refine ⟨adds.wellFormed recalls.formed, recalls.tick, fun other at' was => ?_, remembers⟩
    simp only [heardStep, Function.update_apply] at was ⊢
    split_ifs at was
    · exact (Option.some.inj was).ge
    · exact recalls.past other at' was
  | poll =>
    refine ⟨recalls.formed, ?_, fun other at' was => ?_, recalls.remembers⟩
    · show (sender.pollTickCount + 1).toNat = heard.1 + 1
      rw [UInt32.toNat_add, recalls.tick]
      exact Nat.mod_eq_of_lt short
    · exact (recalls.past other at' was).trans (Nat.le_succ _)
  | linkClosed linkHash =>
    have drops := sender.peers.dropsLinks_noteLinkClosed linkHash
    exact ⟨recalls.formed.congr drops.count drops.identity drops.links, recalls.tick, recalls.past,
      Recency.Remembers.congr recalls.remembers drops.identity
        fun i => congrArg UInt32.toNat (drops.lastSeenTick i)⟩
  | sendToAll aspect payload answers =>
    obtain ⟨added, hands, _⟩ := @sendToAllPeers_hands constants radioMtu sender answers aspect
      payload recalls.formed
    exact recalls.hands hands
  | sendToNode nodeId payload answers =>
    obtain ⟨added, hands, _⟩ := @sendToNode_hands sender answers payload recalls.formed nodeId
    exact recalls.hands hands

theorem Recalls.run {heard : Nat × (PeerIdentity → Option Nat)} (recalls : sender.Recalls heard)
    {acts : List SenderAct} (short : (runFrom heardStep heard acts).1 < 2 ^ 32) :
    (runFrom (ReticulumSender.step constants radioMtu) sender acts).Recalls
      (runFrom heardStep heard acts) := by
  induction acts generalizing sender heard with
  | nil => exact recalls
  | cons act rest inductionHypothesis =>
    have now := (polls_le (heardStep heard act) rest).trans_lt short
    exact inductionHypothesis (recalls.step now) short

theorem recalls_start : start.Recalls (0, fun _ => none) where
  formed := PeerTable.wellFormed_empty
  tick := rfl
  past _ _ := nofun
  remembers := ⟨fun _ _ _ => nofun, fun _ _ => nofun, fun _ _ => nofun⟩

/-- No live peer is forgotten. As long as the tick count has not wrapped, if at most eight
identities were heard of since some poll, then each of them is in the peer table, and every
broadcast for which there is memory tries it exactly once, unless a send over a link throws. -/
theorem recent_peers_are_reached {constants : ReticulumConstants} {radioMtu : UInt32}
    {acts : List SenderAct} (short : (heard acts).1 < 2 ^ 32) {since : Nat}
    {recent : Finset PeerIdentity} (few : recent.card ≤ kMaxPeers)
    (covers : ∀ identity at', (heard acts).2 identity = some at' → since ≤ at' →
      identity ∈ recent)
    {identity : PeerIdentity} {at' : Nat} (was : (heard acts).2 identity = some at')
    (late : since ≤ at') :
    let reached := runFrom (step constants radioMtu) start acts
    identity ∈ reached.peers.identities ∧
      ∀ (aspect : Aspect) (payload : Blob) (answers : RnsAnswers), answers.isShort = false →
        isOversized constants radioMtu payload = false ∨ answers.Allocates →
        ∃ added, (reached.sendToAllPeers constants radioMtu answers aspect payload).deliveries =
            reached.deliveries ++ added ∧
          (∀ delivery ∈ added, delivery.aspect = aspect ∧ delivery.payload = payload) ∧
          (added.map Delivery.identity).count identity = 1 := by
  intro reached
  have recalls : reached.Recalls (heard acts) := recalls_start.run short
  obtain ⟨i, known⟩ := Recency.Remembers.recent recalls.remembers few covers was late
  have once := recalls.formed.count_identities known
  refine ⟨List.count_pos_iff.mp (once ▸ Nat.one_pos), fun aspect payload answers memory calm => ?_⟩
  rcases @sendToAllPeers_fansOut constants radioMtu reached answers aspect payload
      recalls.formed with
    ⟨shed, _⟩ | ⟨_, added, out⟩
  · exact absurd (shed.symm.trans memory) nofun
  · refine ⟨added, out.hands.deliveries, out.about, ?_⟩
    rw [out.complete calm]
    exact once

/-- A library that is never short of anything. -/
def calmAnswers : RnsAnswers where
  poolFree := 100
  poolSize := 100
  status := fun _ => .active
  reportsTeardown := fun _ => true
  openLink := fun identity _ => some identity
  startResource := fun _ => true
  sendPacket := fun _ _ => true

/-- Nine identities announce themselves, with a poll after each. -/
def nineAnnounces : List SenderAct :=
  (List.range 9).flatMap fun n => [.announce [UInt8.ofNat n] calmAnswers, .poll]

/-- The identities but the first. -/
def lastEight : Finset PeerIdentity :=
  ((List.range 8).map fun n => [UInt8.ofNat (n + 1)]).toFinset

theorem mem_lastEight {identity : PeerIdentity} {at' : Nat}
    (was : (heard nineAnnounces).2 identity = some at') (late : 1 ≤ at') :
    identity ∈ lastEight := by
  simp only [heard, nineAnnounces, List.range, List.range.loop, List.flatMap_cons,
    List.flatMap_nil, List.cons_append, List.nil_append, runFrom_cons, runFrom_nil, heardStep,
    Function.update_apply] at was
  split_ifs at was <;> first
    | exact absurd (Option.some.inj was ▸ late) (by decide)
    | (subst identity; decide)

/-- Of nine peers the first is forgotten, and the second is sent to. -/
theorem recent_peers_are_reached_nine :
    let reached := runFrom (step reticulumExample 500) start nineAnnounces
    [0] ∉ reached.peers.identities ∧ [1] ∈ reached.peers.identities ∧
      ∃ added, (reached.sendToAllPeers reticulumExample 500 calmAnswers .fleece .empty).deliveries =
          reached.deliveries ++ added ∧
        (∀ delivery ∈ added, delivery.aspect = .fleece ∧ delivery.payload = .empty) ∧
        (added.map Delivery.identity).count [1] = 1 := by
  intro reached
  obtain ⟨known, sends⟩ := @recent_peers_are_reached reticulumExample 500
    nineAnnounces (by decide) 1 lastEight (show lastEight.card ≤ kMaxPeers by decide)
    (fun _ _ => mem_lastEight) [1] 1 (by decide) le_rfl
  exact ⟨by decide +kernel, known,
    sends .fleece .empty calmAnswers (by decide) (Or.inl (by decide +kernel))⟩

end ReticulumSender

end Fleece
