/-
This file says what the search of the planner keeps, round after round. Every node
is reached by the route its parents spell, at its own cost and depth; every key that
is closed belongs to a node or to a state that was cut at the depth cap; and every
node that has left the open list was expanded, so that each of its successors is
closed by now, or found the table of closed keys full.

One call of `visited_add` and one action tried at a node are described once, by what
they can do. The invariant follows from these descriptions, first over the actions
of one node and then over the rounds of the loop.
-/

import Fleece.Planner

namespace Fleece

/-! ### The visited set -/

namespace VisitedSet

/-- The key is in the table. -/
def Holds (set : VisitedSet) (key : List UInt8) : Prop := Probing.Stored set.slots (entryFor key)

/-- No slot is free on the way of a key through the table. -/
def Full (set : VisitedSet) (key : List UInt8) : Prop :=
  Probing.Blocked (path set.cap (entryFor key)) set.cap set.slots

/-- Each key can be found on its path, and is stored with its own hash. -/
structure Valid (set : VisitedSet) : Prop where
  placed : Probing.Placed (path set.cap) set.cap set.slots
  hashed : ∀ slot entry, set.slots slot = some entry → entry = entryFor entry.key

/-- A later state of the same table. -/
structure Grows (set next : VisitedSet) : Prop where
  cap : next.cap = set.cap
  holds : ∀ key, set.Holds key → next.Holds key
  full : ∀ key, set.Full key → next.Full key

/-- What `visited_add` does with a key. -/
inductive Adds (set : VisitedSet) (key : List UInt8) : VisitedSet × Bool → Prop
  | refused (known : set.Holds key ∨ set.Full key) : Adds set key (set, false)
  | added (next : VisitedSet) (absent : ¬ set.Holds key) (valid : next.Valid)
      (grows : set.Grows next) (holds : ∀ other, next.Holds other ↔ other = key ∨ set.Holds other) :
      Adds set key (next, true)

theorem entryFor_inj {key other : List UInt8} : entryFor key = entryFor other ↔ key = other :=
  ⟨congrArg VisitedEntry.key, congrArg entryFor⟩

theorem Grows.refl (set : VisitedSet) : set.Grows set := ⟨rfl, fun _ => id, fun _ => id⟩

theorem Grows.trans {set next last : VisitedSet} (first : set.Grows next) (second : next.Grows last) :
    set.Grows last where
  cap := second.cap.trans first.cap
  holds key held := second.holds key (first.holds key held)
  full key full := second.full key (first.full key full)

theorem valid_init (maxNodes : UInt32) : (init maxNodes).Valid :=
  ⟨Probing.placed_empty, fun _ _ => nofun⟩

theorem add_adds {set : VisitedSet} (valid : set.Valid) (key : List UInt8) :
    set.Adds key (set.add key) := by
  have added := Probing.add_added valid.placed (entryFor key)
  have placed := added.placed valid.placed
  unfold add
  generalize Probing.add (path set.cap) set.cap set.slots (entryFor key) = result at added placed ⊢
  cases added with
  | present stored => exact .refused (.inl stored)
  | refused absent blocked => exact .refused (.inr blocked)
  | inserted absent probe inside free blocked =>
    have holds (other : List UInt8) : Probing.Stored (Function.update set.slots
        (path set.cap (entryFor key) probe) (some (entryFor key))) (entryFor other) ↔
        other = key ∨ set.Holds other := by
      rw [Probing.stored_update free, entryFor_inj]
      rfl
    refine .added _ absent ⟨placed, fun slot entry held => ?_⟩
      ⟨rfl, fun other held => (holds other).mpr (.inr held), fun other full => full.update _⟩ holds
    simp only at held
    by_cases here : slot = path set.cap (entryFor key) probe
    · rw [here, Function.update_self] at held
      rw [← Option.some.inj held]
      rfl
    · rw [Function.update_of_ne here] at held
      exact valid.hashed slot entry held

/-- A table holds at most as many keys as it has slots. -/
theorem Valid.card_le {set : VisitedSet} (valid : set.Valid) (pos : 0 < set.cap)
    {keys : Finset (List UInt8)} (held : ∀ key ∈ keys, set.Holds key) : keys.card ≤ set.cap := by
  choose slot isSlot using held
  have fits : ∀ key (member : key ∈ keys), slot key member < set.cap := by
    intro key member
    obtain ⟨probe, _, same, _⟩ := valid.placed.onPath _ _ (isSlot key member)
    rw [← same]
    exact Nat.mod_lt _ pos
  calc keys.card = keys.attach.card := Finset.card_attach.symm
    _ ≤ (Finset.range set.cap).card := by
      refine Finset.card_le_card_of_injOn (fun key => slot key.1 key.2)
        (fun key _ => Finset.mem_range.mpr (fits key.1 key.2)) fun first _ second _ same => ?_
      have sameEntry := (isSlot first.1 first.2).symm.trans
        ((congrArg set.slots same).trans (isSlot second.1 second.2))
      exact Subtype.ext (entryFor_inj.mp (Option.some.inj sameEntry))
    _ = set.cap := Finset.card_range _

end VisitedSet

variable {Cost : Type}

theorem mem_heapPush [LinearOrder Cost] {heap : List (HeapEntry Cost)} {idx : Nat} {f : Cost}
    {entry : HeapEntry Cost} : entry ∈ heapPush heap idx f ↔ entry = ⟨f, idx⟩ ∨ entry ∈ heap := by
  rw [heapPush, (Heap.push_perm heap _).mem_iff, List.mem_cons]

/-! ### Parents -/

/-- The actions that the parents of a node spell, from the root on. -/
inductive Chain (nodes : List (SearchNode Cost)) : Nat → List Nat → Prop
  | root {i : Nat} {node : SearchNode Cost} (held : nodes[i]? = some node)
      (top : node.parent = none) (bare : node.actionIdx = none) : Chain nodes i []
  | step {i p a : Nat} {node : SearchNode Cost} {route : List Nat} (held : nodes[i]? = some node)
      (above : node.parent = some p) (earlier : p < i) (taken : node.actionIdx = some a)
      (before : Chain nodes p route) : Chain nodes i (route ++ [a])

theorem Chain.append {nodes : List (SearchNode Cost)} {i : Nat} {route : List Nat}
    (chain : Chain nodes i route) (more : List (SearchNode Cost)) :
    Chain (nodes ++ more) i route := by
  have kept {j : Nat} {node : SearchNode Cost} (held : nodes[j]? = some node) :
      (nodes ++ more)[j]? = some node := by
    rw [List.getElem?_append_left (List.getElem?_eq_some_iff.mp held).1, held]
  induction chain with
  | root held top bare => exact .root (kept held) top bare
  | step held above earlier taken _ inductionHypothesis =>
    exact .step (kept held) above earlier taken inductionHypothesis

theorem walk_none (nodes : List (SearchNode Cost)) (steps : Nat) : walk nodes steps none = [] := by
  cases steps <;> rfl

/-- The walk collects the actions last first, and the root's entry at the end. -/
theorem Chain.walk_eq {nodes : List (SearchNode Cost)} {i : Nat} {route : List Nat}
    (chain : Chain nodes i route) {steps : Nat} (enough : i < steps) :
    walk nodes steps (some i) = (route.map some).reverse ++ [none] := by
  induction chain generalizing steps with
  | @root i node held top bare =>
    obtain ⟨steps, rfl⟩ := Nat.exists_eq_succ_of_ne_zero (Nat.ne_zero_of_lt enough)
    simp only [walk, held, top, bare, walk_none]
    rfl
  | @step i p a node route held above earlier taken before inductionHypothesis =>
    obtain ⟨steps, rfl⟩ := Nat.exists_eq_succ_of_ne_zero (Nat.ne_zero_of_lt enough)
    simp only [walk, held, above, taken, inductionHypothesis (show p < steps by omega),
      List.map_append, List.reverse_append]
    rfl

/-! ### The invariant -/

/-- A later state of the same search: nodes stay where they are, and every new one is opened. -/
structure Search.Grows (search next : Search Cost) : Prop where
  nodes : search.nodes <+: next.nodes
  visited : search.visited.Grows next.visited
  heap : ∀ entry ∈ search.heap, entry ∈ next.heap
  opened : ∀ i, search.nodes.length ≤ i → i < next.nodes.length →
    ∃ entry ∈ next.heap, entry.idx = i

/-- The node has left the open list. -/
def Search.Popped (search : Search Cost) (i : Nat) : Prop := ∀ entry ∈ search.heap, entry.idx ≠ i

/-- The key of the state is closed, or there was no room to close it. -/
def Search.Closed (search : Search Cost) (bb : FleeceGoapBlackboard) : Prop :=
  search.visited.Holds bb.makeStateKey ∨ search.visited.Full bb.makeStateKey

theorem Search.Grows.refl (search : Search Cost) : search.Grows search where
  nodes := List.prefix_rfl
  visited := .refl _
  heap _ := id
  opened _ outside inside := absurd inside (Nat.not_lt.mpr outside)

theorem Search.Grows.trans {search next last : Search Cost} (first : search.Grows next)
    (second : next.Grows last) : search.Grows last where
  nodes := first.nodes.trans second.nodes
  visited := first.visited.trans second.visited
  heap entry member := second.heap entry (first.heap entry member)
  opened i outside inside := by
    rcases lt_or_ge i next.nodes.length with early | late
    · obtain ⟨entry, member, same⟩ := first.opened i outside early
      exact ⟨entry, second.heap entry member, same⟩
    · exact second.opened i late inside

theorem Search.Grows.closed {search next : Search Cost} (grows : search.Grows next)
    {bb : FleeceGoapBlackboard} (closed : search.Closed bb) : next.Closed bb :=
  closed.imp (grows.visited.holds _) (grows.visited.full _)

theorem Search.Grows.getElem {search next : Search Cost} (grows : search.Grows next) {i : Nat}
    {node : SearchNode Cost} (held : search.nodes[i]? = some node) : next.nodes[i]? = some node := by
  obtain ⟨more, whole⟩ := grows.nodes
  rw [← whole, List.getElem?_append_left (List.getElem?_eq_some_iff.mp held).1, held]

namespace FleeceGoap

variable [Ring Cost] [LinearOrder Cost] (goap : FleeceGoap) (eval : FleeceGoapEval Cost)
  (targets : List Nat) (start : FleeceGoapBlackboard)

/-- The planning problem of a call of `fleece_goap_plan`. -/
def problem : Routes.Problem FleeceGoapBlackboard Nat Cost where
  start := start
  next := goap.successor eval
  cost := goap.actionCostFor eval
  Goal := fun bb => goalsMet eval targets bb = true

/-- A route that closes no key twice leads to the state. -/
abbrev Explores (route : List Nat) (keys : List (List UInt8)) (bb : FleeceGoapBlackboard)
    (cost : Cost) : Prop :=
  Routes.Explores (goap.problem eval targets start) FleeceGoapBlackboard.makeStateKey route keys bb
    cost

/-- A node with the route its parents spell and the keys that are closed along it. -/
structure NodeAt (search : Search Cost) (i : Nat) (node : SearchNode Cost) (route : List Nat)
    (keys : List (List UInt8)) : Prop where
  chain : Chain search.nodes i route
  explores : goap.Explores eval targets start route keys node.bb node.g
  depth : route.length = node.depth
  capped : node.depth ≤ goap.maxPlanDepth.toNat
  rank : node.f = node.g + countUnsatisfied eval targets node.bb
  closed : ∀ key ∈ keys, search.visited.Holds key

/-- A closed key is that of a node, or of a state one action past the depth cap. -/
def Accounted (search : Search Cost) (key : List UInt8) : Prop :=
  ∃ route keys bb cost, goap.Explores eval targets start route keys bb cost ∧
    bb.makeStateKey = key ∧
    (((∃ node ∈ search.nodes, node.bb = bb ∧ node.g = cost) ∧
        route.length ≤ goap.maxPlanDepth.toNat) ∨
      route.length = goap.maxPlanDepth.toNat + 1)

/-- Every node was come to by a route that the search could take, and its key is in the table. -/
structure SearchInvariant (search : Search Cost) : Prop where
  visited : search.visited.Valid
  cap : search.visited.cap = (goap.maxNodes * 2 + 1).toNat
  root : ∃ node, search.nodes[0]? = some node ∧ node.bb = start ∧ node.g = 0
  nodes : ∀ i node, search.nodes[i]? = some node →
    ∃ route keys, goap.NodeAt eval targets start search i node route keys
  distinct : (search.nodes.map fun node => node.bb.makeStateKey).Nodup
  accounted : ∀ key, search.visited.Holds key → goap.Accounted eval targets start search key
  opened : ∀ entry ∈ search.heap, ∃ node, search.nodes[entry.idx]? = some node ∧ entry.f = node.f
  ordered : Heap.Ordered HeapEntry.f search.heap

variable {goap eval targets start} {search next : Search Cost} {node : SearchNode Cost}
  {nodeIdx a : Nat}

theorem NodeAt.grows {i : Nat} {route : List Nat} {keys : List (List UInt8)}
    (nodeAt : goap.NodeAt eval targets start search i node route keys) (grows : search.Grows next) :
    goap.NodeAt eval targets start next i node route keys where
  chain := by
    obtain ⟨more, whole⟩ := grows.nodes
    rw [← whole]
    exact nodeAt.chain.append more
  explores := nodeAt.explores
  depth := nodeAt.depth
  capped := nodeAt.capped
  rank := nodeAt.rank
  closed key member := grows.visited.holds key (nodeAt.closed key member)

theorem Accounted.grows {key : List UInt8}
    (accounted : goap.Accounted eval targets start search key) (grows : search.Grows next) :
    goap.Accounted eval targets start next key := by
  obtain ⟨route, keys, bb, cost, explores, same, kept | cut⟩ := accounted
  · obtain ⟨⟨node, member, equal⟩, short⟩ := kept
    exact ⟨route, keys, bb, cost, explores, same,
      .inl ⟨⟨node, grows.nodes.subset member, equal⟩, short⟩⟩
  · exact ⟨route, keys, bb, cost, explores, same, .inr cut⟩

/-! ### One action -/

variable (goap eval targets) in
/-- What trying an action at a node can do. -/
inductive Tried (search : Search Cost) (nodeIdx : Nat) (node : SearchNode Cost) (a : Nat) :
    Search Cost → Prop
  | idle (absent : goap.successor eval a node.bb = none) : Tried search nodeIdx node a search
  | refused {dst : FleeceGoapBlackboard} (generated : goap.successor eval a node.bb = some dst)
      (closed : search.Closed dst) : Tried search nodeIdx node a search
  | cut {dst : FleeceGoapBlackboard} {visited : VisitedSet}
      (generated : goap.successor eval a node.bb = some dst)
      (adds : search.visited.Adds dst.makeStateKey (visited, true))
      (deep : goap.maxPlanDepth.toNat < node.depth + 1) :
      Tried search nodeIdx node a { search with visited := visited }
  | kept {dst : FleeceGoapBlackboard} {visited : VisitedSet}
      (generated : goap.successor eval a node.bb = some dst)
      (adds : search.visited.Adds dst.makeStateKey (visited, true))
      (shallow : node.depth + 1 ≤ goap.maxPlanDepth.toNat) :
      Tried search nodeIdx node a
        { nodes := search.nodes ++ [goap.nextNode eval targets nodeIdx node a dst]
          heap := heapPush search.heap search.nodes.length
            (goap.nextNode eval targets nodeIdx node a dst).f
          visited := visited }

theorem tryAction_tried (valid : search.visited.Valid) (held : search.nodes[nodeIdx]? = some node)
    (a : Nat) :
    goap.Tried eval targets search nodeIdx node a (goap.tryAction eval targets nodeIdx search a) := by
  simp only [tryAction, held]
  split
  next absent => exact .idle absent
  next dst generated =>
    have adds := VisitedSet.add_adds valid dst.makeStateKey
    generalize search.visited.add dst.makeStateKey = added at adds ⊢
    cases adds with
    | refused known => exact .refused generated known
    | added visited absent validNext grows holds =>
      rw [if_neg (nofun : ¬ (visited, true).2 = false)]
      split_ifs with deep
      · exact .cut generated (.added visited absent validNext grows holds) deep
      · exact .kept generated (.added visited absent validNext grows holds) (Nat.not_lt.mp deep)

theorem Tried.grows (tried : goap.Tried eval targets search nodeIdx node a next) :
    search.Grows next := by
  cases tried with
  | idle => exact .refl _
  | refused => exact .refl _
  | cut _ adds _ =>
    cases adds with
    | added _ _ _ grows _ =>
      exact ⟨List.prefix_rfl, grows, fun _ => id,
        fun _ outside inside => absurd inside (Nat.not_lt.mpr outside)⟩
  | kept _ adds _ =>
    cases adds with
    | added _ _ _ grows _ =>
      refine ⟨List.prefix_append _ _, grows, fun entry member => mem_heapPush.mpr (.inr member),
        fun i outside inside => ⟨_, mem_heapPush.mpr (.inl rfl), ?_⟩⟩
      rw [List.length_append, List.length_singleton] at inside
      show search.nodes.length = i
      omega

/-- Whatever the action leads to is closed afterwards. -/
theorem Tried.closed (tried : goap.Tried eval targets search nodeIdx node a next)
    {dst : FleeceGoapBlackboard} (generated : goap.successor eval a node.bb = some dst) :
    next.Closed dst := by
  have same {other : FleeceGoapBlackboard} (isOther : goap.successor eval a node.bb = some other) :
      dst = other := Option.some.inj (generated.symm.trans isOther)
  cases tried with
  | idle absent =>
    rw [absent] at generated
    cases generated
  | refused isOther closed => exact same isOther ▸ closed
  | cut isOther adds _ =>
    cases adds with
    | added _ _ _ _ holds => exact .inl ((holds _).mpr (.inl (congrArg _ (same isOther))))
  | kept isOther adds _ =>
    cases adds with
    | added _ _ _ _ holds => exact .inl ((holds _).mpr (.inl (congrArg _ (same isOther))))

/-- The state that an action leads to is explored by one more action. -/
theorem NodeAt.explores_next {i : Nat} {route : List Nat} {keys : List (List UInt8)}
    (nodeAt : goap.NodeAt eval targets start search i node route keys)
    (notGoal : goalsMet eval targets node.bb = false) {dst : FleeceGoapBlackboard}
    (generated : goap.successor eval a node.bb = some dst)
    (absent : ¬ search.visited.Holds dst.makeStateKey) :
    goap.Explores eval targets start (route ++ [a]) (dst.makeStateKey :: keys) dst
      (node.g + goap.actionCostFor eval a node.bb) :=
  .step nodeAt.explores (ne_true_of_eq_false notGoal) generated
    fun closed => absent (nodeAt.closed _ closed)

section OneAction

variable (invariant : goap.SearchInvariant eval targets start search)
  (held : search.nodes[nodeIdx]? = some node) (notGoal : goalsMet eval targets node.bb = false)
  {dst : FleeceGoapBlackboard} {visited : VisitedSet}
  (generated : goap.successor eval a node.bb = some dst)
  (absent : ¬ search.visited.Holds dst.makeStateKey) (valid : visited.Valid)
  (holds : ∀ other, visited.Holds other ↔ other = dst.makeStateKey ∨ search.visited.Holds other)

include invariant held notGoal generated absent valid holds

/-- A state past the depth cap is closed, and nothing else changes. -/
theorem SearchInvariant.cut (grows : search.Grows { search with visited := visited })
    (deep : goap.maxPlanDepth.toNat < node.depth + 1) :
    goap.SearchInvariant eval targets start { search with visited := visited } where
  visited := valid
  cap := grows.visited.cap.trans invariant.cap
  root := invariant.root
  nodes i other isHeld := by
    obtain ⟨route, keys, otherAt⟩ := invariant.nodes i other isHeld
    exact ⟨route, keys, otherAt.grows grows⟩
  distinct := invariant.distinct
  accounted key isHeld := by
    rcases (holds key).mp isHeld with rfl | earlier
    · obtain ⟨route, keys, nodeAt⟩ := invariant.nodes nodeIdx node held
      refine ⟨_, _, _, _, nodeAt.explores_next notGoal generated absent, rfl, .inr ?_⟩
      have routeLength := nodeAt.depth
      have capped := nodeAt.capped
      rw [List.length_append, List.length_singleton]
      omega
    · exact (invariant.accounted key earlier).grows grows
  opened := invariant.opened
  ordered := invariant.ordered

/-- A state within the depth cap is closed and becomes an open node. -/
theorem SearchInvariant.keep
    (isNext : next = ⟨search.nodes ++ [goap.nextNode eval targets nodeIdx node a dst],
      heapPush search.heap search.nodes.length (goap.nextNode eval targets nodeIdx node a dst).f,
      visited⟩) (grows : search.Grows next)
    (shallow : node.depth + 1 ≤ goap.maxPlanDepth.toNat) :
    goap.SearchInvariant eval targets start next := by
  obtain ⟨route, keys, nodeAt⟩ := invariant.nodes nodeIdx node held
  have explores := nodeAt.explores_next notGoal generated absent
  have longer : (route ++ [a]).length = node.depth + 1 := by
    rw [List.length_append, List.length_singleton, nodeAt.depth]
  have isNew : next.nodes[search.nodes.length]? =
      some (goap.nextNode eval targets nodeIdx node a dst) := by
    rw [isNext]
    exact List.getElem?_concat_length
  have isClosed : next.visited = visited := by rw [isNext]
  obtain ⟨root, rootHeld, rootStart⟩ := invariant.root
  constructor
  · rwa [isClosed]
  · exact grows.visited.cap.trans invariant.cap
  · exact ⟨root, grows.getElem rootHeld, rootStart⟩
  · intro i other isHeld
    rcases Nat.lt_or_ge i search.nodes.length with early | late
    · have isOld : search.nodes[i]? = some other := by
        rw [isNext] at isHeld
        rwa [List.getElem?_append_left early] at isHeld
      obtain ⟨routeOther, keysOther, otherAt⟩ := invariant.nodes i other isOld
      exact ⟨routeOther, keysOther, otherAt.grows grows⟩
    · have isLast : i = search.nodes.length := by
        have inside := (List.getElem?_eq_some_iff.mp isHeld).1
        rw [isNext, List.length_append, List.length_singleton] at inside
        omega
      rw [isLast, isNew] at isHeld
      obtain rfl := Option.some.inj isHeld
      have earlier := (List.getElem?_eq_some_iff.mp held).1
      refine ⟨route ++ [a], dst.makeStateKey :: keys, ?_, explores, longer, shallow, rfl, ?_⟩
      · rw [isLast]
        exact .step isNew rfl earlier rfl (nodeAt.grows grows).chain
      · intro key member
        rw [isClosed, holds]
        exact (List.mem_cons.mp member).imp id (nodeAt.closed key)
  · rw [isNext, List.map_append, List.nodup_append]
    refine ⟨invariant.distinct, List.nodup_singleton _, fun key member other single same => ?_⟩
    obtain ⟨holder, isHolder, rfl⟩ := List.mem_map.mp member
    obtain ⟨i, isHeld⟩ := List.mem_iff_getElem?.mp isHolder
    obtain ⟨_, keysHolder, holderAt⟩ := invariant.nodes i holder isHeld
    have sameKey : holder.bb.makeStateKey = dst.makeStateKey :=
      same.trans (List.mem_singleton.mp single)
    exact absent (sameKey ▸ holderAt.closed _ holderAt.explores.label_mem)
  · intro key isHeld
    rw [isClosed] at isHeld
    rcases (holds key).mp isHeld with rfl | earlier
    · exact ⟨_, _, _, _, explores, rfl, .inl ⟨⟨_, List.mem_of_getElem? isNew, rfl, rfl⟩,
        longer.trans_le shallow⟩⟩
    · exact (invariant.accounted key earlier).grows grows
  · intro entry member
    rw [isNext] at member
    rcases mem_heapPush.mp member with rfl | earlier
    · exact ⟨_, isNew, rfl⟩
    · obtain ⟨other, isOther, same⟩ := invariant.opened entry earlier
      exact ⟨other, grows.getElem isOther, same⟩
  · rw [isNext]
    exact Heap.push_ordered invariant.ordered _

end OneAction

theorem Tried.keeps (tried : goap.Tried eval targets search nodeIdx node a next)
    (invariant : goap.SearchInvariant eval targets start search)
    (held : search.nodes[nodeIdx]? = some node)
    (notGoal : goalsMet eval targets node.bb = false) :
    goap.SearchInvariant eval targets start next := by
  have grows := tried.grows
  cases tried with
  | idle => exact invariant
  | refused => exact invariant
  | cut generated adds deep =>
    cases adds with
    | added _ absent valid _ holds =>
      exact invariant.cut held notGoal generated absent valid holds grows deep
  | kept generated adds shallow =>
    cases adds with
    | added _ absent valid _ holds =>
      exact invariant.keep held notGoal generated absent valid holds rfl grows shallow

/-! ### One node -/

theorem expand_keeps (invariant : goap.SearchInvariant eval targets start search)
    (held : search.nodes[nodeIdx]? = some node) (notGoal : goalsMet eval targets node.bb = false) :
    goap.SearchInvariant eval targets start (goap.expand eval targets search nodeIdx) ∧
      search.Grows (goap.expand eval targets search nodeIdx) ∧
      ∀ a dst, goap.successor eval a node.bb = some dst →
        (goap.expand eval targets search nodeIdx).Closed dst := by
  have along (actions : List Nat) {search : Search Cost}
      (invariant : goap.SearchInvariant eval targets start search)
      (held : search.nodes[nodeIdx]? = some node) :
      goap.SearchInvariant eval targets start
          (actions.foldl (goap.tryAction eval targets nodeIdx) search) ∧
        search.Grows (actions.foldl (goap.tryAction eval targets nodeIdx) search) ∧
        ∀ a ∈ actions, ∀ dst, goap.successor eval a node.bb = some dst →
          (actions.foldl (goap.tryAction eval targets nodeIdx) search).Closed dst := by
    induction actions generalizing search with
    | nil => exact ⟨invariant, .refl _, fun _ => nofun⟩
    | cons action rest inductionHypothesis =>
      have tried : goap.Tried eval targets search nodeIdx node action _ :=
        tryAction_tried invariant.visited held action
      obtain ⟨kept, grows, closed⟩ := inductionHypothesis (tried.keeps invariant held notGoal)
        (tried.grows.getElem held)
      refine ⟨kept, tried.grows.trans grows, fun a member dst generated => ?_⟩
      rcases List.mem_cons.mp member with rfl | later
      · exact grows.closed (tried.closed generated)
      · exact closed a later dst generated
  obtain ⟨kept, grows, closed⟩ := along (List.range goap.actions.length) invariant held
  refine ⟨kept, grows, fun a dst generated => closed a (List.mem_range.mpr ?_) dst generated⟩
  by_contra outside
  rw [successor, if_neg outside] at generated
  cases generated

/-! ### The loop -/

variable (goap eval targets start)

/-- The search has gone on from the node: it does not meet the goals, and whatever its actions
lead to is closed. -/
structure WentOn (search : Search Cost) (node : SearchNode Cost) : Prop where
  notGoal : goalsMet eval targets node.bb = false
  closed : ∀ a dst, goap.successor eval a node.bb = some dst → search.Closed dst

/-- The search went on from every node that was popped, to all that its actions lead to. -/
structure LoopInvariant (search : Search Cost) : Prop
    extends goap.SearchInvariant eval targets start search where
  wentOn : ∀ i node, search.nodes[i]? = some node → search.Popped i →
    goap.WentOn eval targets search node

/-- How the loop ends. -/
inductive Ended : SearchEnd × Search Cost → Prop
  | spent {search : Search Cost} : Ended (.spent, search)
  | emptied {search : Search Cost} (invariant : goap.LoopInvariant eval targets start search)
      (empty : search.heap = []) : Ended (.emptied, search)
  | found {search : Search Cost} {node : SearchNode Cost} {nodeIdx iters : Nat}
      (invariant : goap.SearchInvariant eval targets start search)
      (held : search.nodes[nodeIdx]? = some node) (goal : goalsMet eval targets node.bb = true)
      (least : ∀ entry ∈ search.heap, node.f ≤ entry.f)
      (wentOn : ∀ i other, search.nodes[i]? = some other → search.Popped i →
        i = nodeIdx ∨ goap.WentOn eval targets search other)
      (inTime : iters ≤ goap.maxIters.toNat) : Ended (.found nodeIdx iters, search)

variable {goap eval targets start}

omit [Ring Cost] [LinearOrder Cost] in
theorem WentOn.grows (wentOn : goap.WentOn eval targets search node) (grows : search.Grows next) :
    goap.WentOn eval targets next node :=
  ⟨wentOn.notGoal, fun a dst generated => grows.closed (wentOn.closed a dst generated)⟩

section Pop

variable {entry : HeapEntry Cost} {heap : List (HeapEntry Cost)}
  (popped : heapPop search.heap = some (entry, heap))
include popped

omit [Ring Cost] in
theorem mem_of_heapPop {other : HeapEntry Cost} :
    other ∈ search.heap ↔ other = entry ∨ other ∈ heap := by
  rw [(Heap.pop_perm popped).mem_iff, List.mem_cons]

theorem SearchInvariant.pop (invariant : goap.SearchInvariant eval targets start search) :
    goap.SearchInvariant eval targets start { search with heap := heap } :=
  { invariant with
    nodes := fun i other isHeld => by
      obtain ⟨route, keys, chain, explores, depth, capped, rank, closed⟩ :=
        invariant.nodes i other isHeld
      exact ⟨route, keys, chain, explores, depth, capped, rank, closed⟩
    opened := fun other member => invariant.opened other ((mem_of_heapPop popped).mpr (.inr member))
    ordered := Heap.pop_ordered invariant.ordered popped }

/-- A node that is popped now, or was popped before. -/
theorem LoopInvariant.pop (invariant : goap.LoopInvariant eval targets start search) {i : Nat}
    (held : search.nodes[i]? = some node)
    (isPopped : ({ search with heap := heap } : Search Cost).Popped i) :
    i = entry.idx ∨ goap.WentOn eval targets { search with heap := heap } node := by
  by_cases now : i = entry.idx
  · exact .inl now
  · have before : search.Popped i := by
      intro other member
      rcases (mem_of_heapPop popped).mp member with rfl | stays
      · exact fun same => now same.symm
      · exact isPopped other stays
    obtain ⟨notGoal, closed⟩ := invariant.wentOn i node held before
    exact .inr ⟨notGoal, closed⟩

/-- A round of the loop that does not find the goals. -/
theorem LoopInvariant.round (invariant : goap.LoopInvariant eval targets start search)
    (held : search.nodes[entry.idx]? = some node)
    (notGoal : goalsMet eval targets node.bb = false) :
    goap.LoopInvariant eval targets start
      (goap.expand eval targets { search with heap := heap } entry.idx) := by
  obtain ⟨kept, grows, closed⟩ := expand_keeps (invariant.toSearchInvariant.pop popped) held notGoal
  refine { kept with wentOn := fun i other isHeld isPopped => ?_ }
  have early : i < search.nodes.length := by
    by_contra late
    obtain ⟨opened, member, same⟩ := grows.opened i (Nat.not_lt.mp late)
      (List.getElem?_eq_some_iff.mp isHeld).1
    exact isPopped opened member same
  have isOld : search.nodes[i]? = some other := by
    have kept := grows.getElem (List.getElem?_eq_getElem early)
    exact (List.getElem?_eq_getElem early).trans (kept.symm.trans isHeld)
  rcases invariant.pop popped isOld fun opened member => isPopped opened (grows.heap opened member)
    with rfl | wentOn
  · obtain rfl := Option.some.inj (held.symm.trans isOld)
    exact ⟨notGoal, closed⟩
  · exact wentOn.grows grows

end Pop

theorem searchLoop_ended {left iters : Nat}
    (invariant : goap.LoopInvariant eval targets start search)
    (total : iters + left ≤ goap.maxIters.toNat) :
    goap.Ended eval targets start (goap.searchLoop eval targets left iters search) := by
  induction left generalizing iters search with
  | zero => exact .spent
  | succ left inductionHypothesis =>
    unfold searchLoop
    split_ifs with room
    · split
      next nothing => exact .emptied invariant (Heap.pop_eq_none_iff.mp nothing)
      next entry heap popped =>
        obtain ⟨node, held, rank⟩ := invariant.opened entry
          ((mem_of_heapPop popped).mpr (.inl rfl))
        rw [held, Option.any_some]
        cases goal : goalsMet eval targets node.bb with
        | true =>
          refine .found (invariant.toSearchInvariant.pop popped) held goal (fun other member => ?_)
            (fun i other isHeld isPopped => invariant.pop popped isHeld isPopped) (by omega)
          rw [← rank]
          exact Heap.pop_least invariant.ordered popped member
        | false => exact inductionHypothesis (invariant.round popped held goal) (by omega)
    · exact .spent


theorem cap_pos (maxNodes : UInt32) : 0 < (maxNodes * 2 + 1).toNat := by
  rw [UInt32.toNat_add, UInt32.toNat_mul]
  show 0 < (maxNodes.toNat * 2 % 2 ^ 32 + 1) % 2 ^ 32
  omega

theorem toNat_cap_of_small {maxNodes : UInt32} (small : maxNodes.toNat < 2 ^ 31) :
    (maxNodes * 2 + 1).toNat = maxNodes.toNat * 2 + 1 := by
  rw [UInt32.toNat_add, UInt32.toNat_mul]
  show (maxNodes.toNat * 2 % 2 ^ 32 + 1) % 2 ^ 32 = _
  omega

theorem loopInvariant_start (goap : FleeceGoap) (eval : FleeceGoapEval Cost) (targets : List Nat)
    (start : FleeceGoapBlackboard) :
    goap.LoopInvariant eval targets start (goap.searchStart eval targets start) := by
  have adds := VisitedSet.add_adds (VisitedSet.valid_init goap.maxNodes) start.makeStateKey
  unfold searchStart
  generalize (VisitedSet.init goap.maxNodes).add start.makeStateKey = added at adds ⊢
  cases adds with
  | refused known =>
    rcases known with ⟨slot, held⟩ | full
    · cases held
    · exact absurd rfl (full 0 (cap_pos goap.maxNodes))
  | added visited absent valid grows holds =>
    have closed : visited.Holds start.makeStateKey := (holds _).mpr (.inl rfl)
    have explores : goap.Explores eval targets start [] [start.makeStateKey] start 0 := .start
    refine ⟨⟨valid, grows.cap, ⟨_, rfl, rfl, rfl⟩, fun i node held => ?_, List.nodup_singleton _,
      fun key held => ?_, fun entry member => ?_, ?_⟩, fun i node held popped => ?_⟩
    · obtain rfl : i = 0 := Nat.lt_one_iff.mp (List.getElem?_eq_some_iff.mp held).1
      obtain rfl := Option.some.inj held
      refine ⟨[], _, .root rfl rfl rfl, explores, rfl, Nat.zero_le _, (zero_add _).symm, ?_⟩
      intro key member
      exact List.mem_singleton.mp member ▸ closed
    · rcases (holds key).mp held with rfl | ⟨slot, impossible⟩
      · exact ⟨[], _, start, 0, explores, rfl, .inl ⟨⟨_, List.mem_singleton_self _, rfl, rfl⟩,
          Nat.zero_le _⟩⟩
      · cases impossible
    · rcases mem_heapPush.mp member with rfl | impossible
      · exact ⟨_, rfl, rfl⟩
      · cases impossible
    · exact Heap.push_ordered Heap.ordered_nil _
    · obtain rfl : i = 0 := Nat.lt_one_iff.mp (List.getElem?_eq_some_iff.mp held).1
      exact absurd rfl (popped _ (mem_heapPush.mpr (.inl rfl)))

theorem search_ended (goap : FleeceGoap) (eval : FleeceGoapEval Cost) (targets : List Nat)
    (start : FleeceGoapBlackboard) :
    goap.Ended eval targets start (goap.search eval targets start) :=
  searchLoop_ended (loopInvariant_start goap eval targets start) (Nat.zero_add _).le

/-- The nodes are fewer than `UINT32_MAX`, so that their number does not wrap and no index is
taken for the missing one. -/
theorem SearchInvariant.length_lt (invariant : goap.SearchInvariant eval targets start search) :
    search.nodes.length < 2 ^ 32 := by
  have held : ∀ key ∈ (search.nodes.map fun node => node.bb.makeStateKey).toFinset,
      search.visited.Holds key := by
    intro key member
    obtain ⟨node, isNode, rfl⟩ := List.mem_map.mp (List.mem_toFinset.mp member)
    obtain ⟨i, isHeld⟩ := List.mem_iff_getElem?.mp isNode
    obtain ⟨_, keys, nodeAt⟩ := invariant.nodes i node isHeld
    exact nodeAt.closed _ nodeAt.explores.label_mem
  have pos : 0 < search.visited.cap := invariant.cap ▸ cap_pos goap.maxNodes
  have few := invariant.visited.card_le pos held
  rw [List.toFinset_card_of_nodup invariant.distinct, List.length_map, invariant.cap] at few
  exact few.trans_lt (UInt32.toNat_lt _)

end FleeceGoap

end Fleece
