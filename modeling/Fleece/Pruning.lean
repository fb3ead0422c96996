/-
This file says when `visited_add` refuses a key that is not in the table, so that a
new state is pruned as if it had been seen. The search is run twice: with the
table, where every call is written down, and with a list of keys that never runs
full. The two agree up to the first refusal of a new key, and this refusal comes if
and only if the keys of the second search do not go into the table one after
another. A table of fewer than 2^31 slots has a way to every slot for every key, and
takes as many keys as it has slots. The slots are computed in 32 bits from the node
budget, but the keys are not bounded by it: one node has a key for each action.
-/

import Fleece.HostSearch
import Fleece.Optimality

namespace Fleece

variable {Cost Host : Type}

namespace VisitedSet

/-! ### Keys put in one after another -/

/-- There is room for each of the keys when it comes. -/
def Room : VisitedSet → List (List UInt8) → Prop
  | _, [] => True
  | set, key :: rest => (set.add key).2 = true ∧ Room (set.add key).1 rest

instance decidableRoom : (set : VisitedSet) → (keys : List (List UInt8)) → Decidable (set.Room keys)
  | _, [] => isTrue trivial
  | set, key :: rest => @instDecidableAnd _ _ _ (decidableRoom (set.add key).1 rest)

/-- The table with the keys put into it. -/
def addAll (set : VisitedSet) (keys : List (List UInt8)) : VisitedSet :=
  keys.foldl (fun set key => (set.add key).1) set

theorem room_append {set : VisitedSet} {keys more : List (List UInt8)} :
    set.Room (keys ++ more) ↔ set.Room keys ∧ (set.addAll keys).Room more := by
  induction keys generalizing set with
  | nil => exact (and_iff_right trivial).symm
  | cons key rest inductionHypothesis =>
    rw [List.cons_append, Room, Room, inductionHypothesis, and_assoc]
    rfl

/-- A table that has taken every key holds these keys and those it held before. -/
theorem addAll_spec {set : VisitedSet} {keys : List (List UInt8)} (valid : set.Valid)
    (room : set.Room keys) :
    (set.addAll keys).Valid ∧ (set.addAll keys).cap = set.cap ∧
      ∀ key, (set.addAll keys).Holds key ↔ key ∈ keys ∨ set.Holds key := by
  induction keys generalizing set with
  | nil => exact ⟨valid, rfl, fun key => (or_iff_right List.not_mem_nil).symm⟩
  | cons key rest inductionHypothesis =>
    have adds := add_adds valid key
    obtain ⟨added, later⟩ := room
    rw [show set.addAll (key :: rest) = (set.add key).1.addAll rest from rfl]
    generalize set.add key = result at adds added later ⊢
    cases adds with
    | refused => cases added
    | added next absent validNext grows holds =>
      obtain ⟨validLast, cap, held⟩ := inductionHypothesis validNext later
      refine ⟨validLast, cap.trans grows.cap, fun other => (held other).trans ?_⟩
      rw [holds, List.mem_cons, ← or_assoc, or_comm (a := other ∈ rest)]

/-- A table of fewer than 2^31 slots takes different keys as long as it has slots. -/
theorem room_iff_of_small {set : VisitedSet} (valid : set.Valid) (small : set.cap < 2 ^ 31)
    (pos : 0 < set.cap) {keys : List (List UInt8)} (distinct : keys.Nodup)
    (empty : ∀ key, ¬ set.Holds key) : set.Room keys ↔ keys.length ≤ set.cap := by
  constructor
  · intro room
    obtain ⟨validAll, cap, held⟩ := addAll_spec valid room
    have few := validAll.card_le (cap.symm ▸ pos) fun key member =>
      (held key).mpr (.inl (List.mem_toFinset.mp member))
    rwa [List.toFinset_card_of_nodup distinct, cap] at few
  · intro few
    induction keys using List.reverseRecOn with
    | nil => trivial
    | append_singleton before key inductionHypothesis =>
      rw [List.length_append, List.length_singleton] at few
      rw [← List.concat_eq_append, List.nodup_concat] at distinct
      obtain ⟨absent, distinctBefore⟩ := distinct
      have room := inductionHypothesis distinctBefore (by omega)
      obtain ⟨validAll, cap, held⟩ := addAll_spec valid room
      refine room_append.mpr ⟨room, ?_, trivial⟩
      have adds := add_adds validAll key
      generalize (set.addAll before).add key = result at adds ⊢
      cases adds with
      | added => rfl
      | refused known =>
        exfalso
        rcases known with stored | full
        · exact ((held key).mp stored).elim absent (empty key)
        · obtain ⟨others, count, stored⟩ :=
            FleeceGoap.exists_keys_of_full validAll (cap.symm ▸ small) full
          have inside : others ⊆ before.toFinset := fun other member =>
            List.mem_toFinset.mpr (((held other).mp (stored other member)).resolve_right
              (empty other))
          have most := Finset.card_le_card inside
          rw [List.toFinset_card_of_nodup distinctBefore, count, cap] at most
          omega

/-! ### The two searches -/

/-- The table with the calls of `visited_add` so far: the table before, and the key. -/
structure Logged where
  table : VisitedSet
  calls : List (VisitedSet × List UInt8)

/-- `visited_add`, with the call noted. -/
def Logged.add (log : Logged) (key : List UInt8) : Logged × Bool :=
  (⟨(log.table.add key).1, log.calls ++ [(log.table, key)]⟩, (log.table.add key).2)

/-- `visited_add` has returned `false` only for a key that was in the table. -/
def Logged.NeverFull (log : Logged) : Prop :=
  ∀ call ∈ log.calls, (call.1.add call.2).2 = false → call.1.Holds call.2

/-- A list of keys that never runs full. -/
def listAdd (keys : List (List UInt8)) (key : List UInt8) : List (List UInt8) × Bool :=
  if key ∈ keys then (keys, false) else (keys ++ [key], true)

/-- The table holds the keys of the list, and no call has failed. -/
structure Tracks (start : VisitedSet) (log : Logged) (keys : List (List UInt8)) : Prop where
  table : log.table = start.addAll keys
  room : start.Room keys
  distinct : keys.Nodup
  neverFull : log.NeverFull

theorem Logged.neverFull_add {log : Logged} {key : List UInt8} :
    (log.add key).1.NeverFull ↔
      log.NeverFull ∧ ((log.table.add key).2 = false → log.table.Holds key) := by
  unfold NeverFull
  simp only [Logged.add, List.forall_mem_append, List.forall_mem_singleton]

/-- The table and the list go on to agree, or the table refuses a new key. -/
theorem agree_tracks {start : VisitedSet} (valid : start.Valid)
    (empty : ∀ key, ¬ start.Holds key) :
    FleeceGoap.Agree Logged.add listAdd (Tracks start) (fun log => ¬ log.NeverFull)
      (fun keys => ¬ (keys.Nodup ∧ start.Room keys)) where
  step log keys key tracks := by
    obtain ⟨validAll, _, held⟩ := addAll_spec valid tracks.room
    have holds : ∀ other, log.table.Holds other ↔ other ∈ keys := fun other => by
      rw [tracks.table, held, or_iff_left (empty other)]
    have adds := add_adds (tracks.table ▸ validAll) key
    by_cases member : key ∈ keys
    · -- the key is there, and both sets say so
      have refused : log.table.add key = (log.table, false) := by
        generalize log.table.add key = result at adds ⊢
        cases adds with
        | refused => rfl
        | added _ absent => exact absurd ((holds key).mpr member) absent
      refine .inl ⟨?_, ?_⟩
      · rw [Logged.add, listAdd, if_pos member, refused]
      · rw [listAdd, if_pos member]
        refine ⟨?_, tracks.room, tracks.distinct, ?_⟩
        · rw [Logged.add, refused]
          exact tracks.table
        · exact Logged.neverFull_add.mpr ⟨tracks.neverFull, fun _ => (holds key).mpr member⟩
    · rw [listAdd, if_neg member]
      have distinct : (keys ++ [key]).Nodup := by
        rw [← List.concat_eq_append]
        exact .concat member tracks.distinct
      cases taken : (log.table.add key).2 with
      | true =>
        refine .inl ⟨taken, ?_, ?_, distinct, ?_⟩
        · rw [Logged.add, tracks.table, addAll, addAll, List.foldl_append]
          rfl
        · exact room_append.mpr ⟨tracks.room, tracks.table ▸ taken, trivial⟩
        · refine Logged.neverFull_add.mpr ⟨tracks.neverFull, fun refused => ?_⟩
          rw [taken] at refused
          cases refused
      | false =>
        refine .inr ⟨fun fine => ?_, fun ⟨_, room⟩ => ?_⟩
        · exact member ((holds key).mp ((Logged.neverFull_add.mp fine).2 taken))
        · have put := (room_append.mp room).2.1
          rw [← tracks.table, taken] at put
          cases put
  lost log key lost fine := lost (Logged.neverFull_add.mp fine).1
  lostOther keys key lost := by
    unfold listAdd
    split_ifs
    · exact lost
    · rintro ⟨distinct, room⟩
      exact lost ⟨(List.nodup_append.mp distinct).1, (room_append.mp room).1⟩

theorem not_holds_init (maxNodes : UInt32) (key : List UInt8) : ¬ (init maxNodes).Holds key :=
  fun ⟨_, held⟩ => Option.some_ne_none _ held.symm

end VisitedSet

namespace FleeceGoap

variable [Ring Cost] [LinearOrder Cost] (goap : FleeceGoap) (eval : HostEval Cost Host)
  (targets : List Nat) (bb : FleeceGoapBlackboard) (host : Host)

/-- The search with the table, and its calls of `visited_add`. -/
def loggedSearch : SearchEnd × HostSearch Cost Host VisitedSet.Logged :=
  goap.hostSearch eval VisitedSet.Logged.add targets ⟨VisitedSet.init goap.maxNodes, []⟩ bb host

/-- The keys that the search comes to, in the order in which it comes to them, where no new key
is refused. -/
def keysCome : List (List UInt8) :=
  (goap.hostSearch eval VisitedSet.listAdd targets [] bb host).2.seen

/-- The calls are written down and nothing else changes. -/
theorem loggedSearch_table :
    let search :=
      goap.hostSearch eval VisitedSet.add targets (VisitedSet.init goap.maxNodes) bb host
    (goap.loggedSearch eval targets bb host).2.nodes = search.2.nodes ∧
      (goap.loggedSearch eval targets bb host).2.heap = search.2.heap ∧
      (goap.loggedSearch eval targets bb host).2.host = search.2.host ∧
      (goap.loggedSearch eval targets bb host).2.seen.table = search.2.seen := by
  have agree : Agree VisitedSet.Logged.add VisitedSet.add
      (fun log table => VisitedSet.Logged.table log = table) (fun _ => False) fun _ => False :=
    ⟨fun log table key same => .inl (same ▸ ⟨rfl, rfl⟩), fun _ _ => id, fun _ _ => id⟩
  exact (hostSearch_together agree rfl bb host).resolve_right fun lost => lost.1

theorem nodup_keysCome : (goap.keysCome eval targets bb host).Nodup := by
  refine hostSearch_keeps (fun keys key distinct => ?_) List.nodup_nil bb host
  unfold VisitedSet.listAdd
  split_ifs with member
  · exact distinct
  · rw [← List.concat_eq_append]
    exact .concat member distinct

/-! ### How many keys come -/

/-- Every node that has left the open list has brought one key for each action at most. -/
def Sparse (search : HostSearch Cost Host (List (List UInt8))) : Prop :=
  ∃ expanded, search.nodes.length = search.heap.length + expanded ∧
    expanded ≤ goap.maxNodes.toNat ∧ search.seen.length ≤ 1 + expanded * goap.actions.length

omit [Ring Cost] in
theorem length_heapPush (heap : List (HeapEntry Cost)) (idx : Nat) (f : Cost) :
    (heapPush heap idx f).length = heap.length + 1 :=
  (Heap.push_perm heap _).length_eq

theorem length_listAdd (keys : List (List UInt8)) (key : List UInt8) :
    (VisitedSet.listAdd keys key).1.length ≤ keys.length + 1 := by
  unfold VisitedSet.listAdd
  split_ifs
  · exact Nat.le_succ _
  · rw [List.length_append, List.length_singleton]

/-- An action brings one key at most, and as many nodes as entries of the open list. -/
theorem hostTryAction_counts (nodeIdx : Nat)
    (search : HostSearch Cost Host (List (List UInt8))) (a : Nat) :
    let next := goap.hostTryAction eval VisitedSet.listAdd targets nodeIdx search a
    next.nodes.length + search.heap.length = search.nodes.length + next.heap.length ∧
      next.seen.length ≤ search.seen.length + 1 := by
  unfold hostTryAction
  split
  next => exact ⟨rfl, Nat.le_succ _⟩
  next node held =>
    simp only
    split_ifs
    · refine ⟨?_, ?_⟩
      · unfold hostTake
        simp only
        split_ifs
        · rfl
        · rfl
        · simp only [List.length_append, List.length_singleton, length_heapPush]
          omega
      · rw [seen_hostTake]
        exact length_listAdd _ _
    · exact ⟨rfl, Nat.le_succ _⟩
    · exact ⟨rfl, Nat.le_succ _⟩

theorem hostExpand_counts (search : HostSearch Cost Host (List (List UInt8))) (nodeIdx : Nat) :
    let next := goap.hostExpand eval VisitedSet.listAdd targets search nodeIdx
    next.nodes.length + search.heap.length = search.nodes.length + next.heap.length ∧
      next.seen.length ≤ search.seen.length + goap.actions.length := by
  have along (actions : List Nat) (search : HostSearch Cost Host (List (List UInt8))) :
      let next := actions.foldl (goap.hostTryAction eval VisitedSet.listAdd targets nodeIdx) search
      next.nodes.length + search.heap.length = search.nodes.length + next.heap.length ∧
        next.seen.length ≤ search.seen.length + actions.length := by
    induction actions generalizing search with
    | nil => exact ⟨rfl, le_refl _⟩
    | cons a rest inductionHypothesis =>
      obtain ⟨nodes, keys⟩ := goap.hostTryAction_counts eval targets nodeIdx search a
      obtain ⟨later, more⟩ := inductionHypothesis
        (goap.hostTryAction eval VisitedSet.listAdd targets nodeIdx search a)
      rw [List.foldl_cons, List.length_cons]
      exact ⟨by omega, by omega⟩
  have counts := along (List.range goap.actions.length) search
  rwa [List.length_range] at counts

variable {goap eval targets} in
theorem Sparse.loop {left iters : Nat} {search : HostSearch Cost Host (List (List UInt8))}
    (sparse : goap.Sparse search) :
    goap.Sparse (goap.hostSearchLoop eval VisitedSet.listAdd targets left iters search).2 := by
  induction left generalizing iters search with
  | zero => exact sparse
  | succ left inductionHypothesis =>
    unfold hostSearchLoop
    split_ifs with room
    · split
      next => exact sparse
      next entry heap popped =>
        obtain ⟨expanded, nodes, few, keys⟩ := sparse
        have shorter : search.heap.length = heap.length + 1 := (Heap.pop_perm popped).length_eq
        obtain ⟨same, more⟩ := goap.hostExpand_counts eval targets
          { search with
            heap := heap
            host := (eval.metAt targets search.nodes entry.idx search.host).2 } entry.idx
        simp only at same more ⊢
        split_ifs
        · refine ⟨expanded + 1, ?_, by omega, ?_⟩
          · show search.nodes.length = heap.length + (expanded + 1)
            omega
          · show search.seen.length ≤ _
            rw [Nat.succ_mul]
            omega
        · refine inductionHypothesis ⟨expanded + 1, by omega, by omega, ?_⟩
          rw [Nat.succ_mul]
          omega
    · exact sparse

/-- The keys are one for each node and action of the budget at most, and one for the root. -/
theorem length_keysCome_le :
    (goap.keysCome eval targets bb host).length ≤
      1 + goap.maxNodes.toNat * goap.actions.length := by
  have start : goap.Sparse (hostSearchStart eval VisitedSet.listAdd targets [] bb host) := by
    refine ⟨0, ?_, Nat.zero_le _, ?_⟩
    · exact (length_heapPush [] 0 _).symm
    · rw [Nat.zero_mul]
      exact length_listAdd [] bb.makeStateKey
  obtain ⟨expanded, _, few, keys⟩ := start.loop
  exact keys.trans (Nat.add_le_add_left (Nat.mul_le_mul_right _ few) 1)

theorem neverFull_iff_room : (goap.loggedSearch eval targets bb host).2.seen.NeverFull ↔
    (VisitedSet.init goap.maxNodes).Room (goap.keysCome eval targets bb host) := by
  have start : VisitedSet.Tracks (VisitedSet.init goap.maxNodes)
      ⟨VisitedSet.init goap.maxNodes, []⟩ [] := ⟨rfl, trivial, List.nodup_nil, fun _ => nofun⟩
  have agree := VisitedSet.agree_tracks (VisitedSet.valid_init goap.maxNodes)
    (VisitedSet.not_holds_init goap.maxNodes)
  have together : Together (VisitedSet.Tracks (VisitedSet.init goap.maxNodes))
      (fun log => ¬ log.NeverFull)
      (fun keys => ¬ (keys.Nodup ∧ (VisitedSet.init goap.maxNodes).Room keys))
      (goap.loggedSearch eval targets bb host).2
      (goap.hostSearch eval VisitedSet.listAdd targets [] bb host).2 :=
    hostSearch_together agree start bb host
  rcases together with ⟨_, _, _, tracks⟩ | ⟨failed, tooMany⟩
  · exact iff_of_true tracks.neverFull tracks.room
  · exact iff_of_false failed fun room =>
      tooMany ⟨goap.nodup_keysCome eval targets bb host, room⟩

/-- `visited_add` refuses no new key if and only if the keys that come go into the table one after
another. Up to 2^31 slots, that is to say that they are no more than the slots. Below 2^30 nodes,
two actions never bring too many. -/
theorem visited_never_full_iff :
    ((goap.loggedSearch eval targets bb host).2.seen.NeverFull ↔
      (VisitedSet.init goap.maxNodes).Room (goap.keysCome eval targets bb host)) ∧
    ((VisitedSet.init goap.maxNodes).cap < 2 ^ 31 →
      ((goap.loggedSearch eval targets bb host).2.seen.NeverFull ↔
        (goap.keysCome eval targets bb host).length ≤ (VisitedSet.init goap.maxNodes).cap)) ∧
    (goap.maxNodes.toNat < 2 ^ 30 → goap.actions.length ≤ 2 →
      (goap.loggedSearch eval targets bb host).2.seen.NeverFull) := by
  have exactly := goap.neverFull_iff_room eval targets bb host
  have numbered (small : (VisitedSet.init goap.maxNodes).cap < 2 ^ 31) :=
    exactly.trans (VisitedSet.room_iff_of_small (VisitedSet.valid_init goap.maxNodes) small
      (cap_pos goap.maxNodes) (goap.nodup_keysCome eval targets bb host)
      (VisitedSet.not_holds_init goap.maxNodes))
  refine ⟨exactly, numbered, fun small two => ?_⟩
  have cap : (VisitedSet.init goap.maxNodes).cap = goap.maxNodes.toNat * 2 + 1 :=
    toNat_cap_of_small (small.trans (by decide))
  have keys := goap.length_keysCome_le eval targets bb host
  have product : goap.maxNodes.toNat * goap.actions.length ≤ goap.maxNodes.toNat * 2 :=
    Nat.mul_le_mul_left _ two
  exact (numbered (by omega)).mpr (by omega)

/-- With a budget of one node, three roads from 1 lead to three new states and two slots are left;
with one of 2^31 nodes the slots wrap to one, and the first road leads to a state that is
refused. -/
theorem visited_full :
    let roads : List Road := [⟨0x31, 0x32, 1⟩, ⟨0x31, 0x33, 1⟩, ⟨0x31, 0x34, 1⟩]
    ¬ ({ roadGoap roads 8 with maxNodes := 1 }.loggedSearch (roadEval roads 0x35).stateless [0]
        (atPlace 0x31) ()).2.seen.NeverFull ∧
      ¬ ({ roadGoap roads 8 with maxNodes := 0x80000000 }.loggedSearch
        (roadEval roads 0x35).stateless [0] (atPlace 0x31) ()).2.seen.NeverFull := by
  intro roads
  rw [neverFull_iff_room, neverFull_iff_room]
  decide +kernel

end FleeceGoap

end Fleece
