/-
This file settles when the search finds a plan that exists, and when it finds a
cheapest one. The search closes a state by its key as soon as it comes to it, so a
later and better way to the same state is not taken. A state is dropped when the
search comes to it and holds no node for it in the end: it was first come to past
the depth cap, or its key was closed by another state, or the table was full. It is
overcharged when the search came to it first by a dearer way.

The search misses a plan exactly when every plan has a state that was dropped, and
it misses the cheapest exactly when every cheapest plan has a state that was dropped
or overcharged. Whether that happens depends on the order in which nodes leave the
heap; a condition on the problem alone that excludes it is that no other way leads
to a state of the plan past the depth cap, or at a higher cost.
-/

import Fleece.Soundness

namespace Fleece

open Routes

variable {Cost : Type}

/-! ### Nodes along a route -/

theorem Chain.unique {nodes : List (SearchNode Cost)} {i : Nat} {route other : List Nat}
    (chain : Chain nodes i route) (again : Chain nodes i other) : other = route := by
  have same := (again.walk_eq (Nat.lt_succ_self i)).symm.trans (chain.walk_eq (Nat.lt_succ_self i))
  have sameRev := List.reverse_injective (List.append_cancel_right same)
  exact List.map_injective_iff.mpr (Option.some_injective _) sameRev

/-- A part of the route to a node leads to a node. -/
theorem Chain.part {nodes : List (SearchNode Cost)} {i : Nat} {route part : List Nat}
    (chain : Chain nodes i route) (isPart : part <+: route) :
    ∃ j node, nodes[j]? = some node ∧ Chain nodes j part := by
  induction chain with
  | @root i node held top bare =>
    rw [List.prefix_nil.mp isPart]
    exact ⟨i, node, held, .root held top bare⟩
  | @step i p a node route held above earlier taken before inductionHypothesis =>
    rcases List.prefix_concat_iff.mp isPart with rfl | shorter
    · exact ⟨i, node, held, .step held above earlier taken before⟩
    · exact inductionHypothesis shorter

namespace FleeceGoap

variable [Ring Cost] [LinearOrder Cost]

variable (goap : FleeceGoap) (eval : FleeceGoapEval Cost) (targets : List Nat)
  (start : FleeceGoapBlackboard)

/-! ### States that are lost -/

/-- A plan of at most `max_plan_depth` actions. -/
abbrev Solves (route : List Nat) (bb : FleeceGoapBlackboard) (cost : Cost) : Prop :=
  Routes.Solves (goap.problem eval targets start) goap.maxPlanDepth.toNat route bb cost

/-- An action leads to the state from a node that the search has gone on from. -/
def CameTo (search : Search Cost) (bb : FleeceGoapBlackboard) : Prop :=
  ∃ i node a, search.nodes[i]? = some node ∧ search.Popped i ∧
    goalsMet eval targets node.bb = false ∧ goap.successor eval a node.bb = some bb

/-- The search came to the state and has no node for it. -/
def Drops (search : Search Cost) (bb : FleeceGoapBlackboard) : Prop :=
  goap.CameTo eval targets search bb ∧ ∀ node ∈ search.nodes, node.bb ≠ bb

/-- The search came to the state and has no node for it at this cost or less. -/
def Overcharges (search : Search Cost) (bb : FleeceGoapBlackboard) (cost : Cost) : Prop :=
  goap.CameTo eval targets search bb ∧ ∀ node ∈ search.nodes, node.bb = bb → cost < node.g

/-- Every route of the search to the key of the state ends in that state, within the depth
cap. -/
def ComesInTime (bb : FleeceGoapBlackboard) : Prop :=
  ∀ route keys other cost, goap.Explores eval targets start route keys other cost →
    route.length ≤ goap.maxPlanDepth.toNat + 1 → other.makeStateKey = bb.makeStateKey →
    other = bb ∧ route.length ≤ goap.maxPlanDepth.toNat

/-- No route of the search to the key of the state costs more. -/
def ComesCheaply (bb : FleeceGoapBlackboard) (price : Cost) : Prop :=
  ∀ route keys other cost, goap.Explores eval targets start route keys other cost →
    route.length ≤ goap.maxPlanDepth.toNat → other.makeStateKey = bb.makeStateKey → cost ≤ price

/-- The table of visited keys has a slot for each key that a route of the search closes, and is
small enough for its indices not to wrap. -/
def HasRoom : Prop :=
  goap.maxNodes.toNat < 2 ^ 30 ∧ ∀ closed : Finset (List UInt8),
    (∀ key ∈ closed, ∃ route keys bb cost, goap.Explores eval targets start route keys bb cost ∧
      route.length ≤ goap.maxPlanDepth.toNat + 1 ∧ bb.makeStateKey = key) →
    closed.card ≤ goap.maxNodes.toNat * 2 + 1

/-- The search has ended in time: every node that left the heap and does not meet the goals was
gone on from. -/
structure Settled (search : Search Cost) : Prop
    extends goap.SearchInvariant eval targets start search where
  wentOn : ∀ i node, search.nodes[i]? = some node → search.Popped i →
    goalsMet eval targets node.bb = false → goap.WentOn eval targets search node

variable {goap eval targets start} {search : Search Cost} {bb : FleeceGoapBlackboard}

theorem settled_of_unspent (unspent : (goap.search eval targets start).1 ≠ .spent) :
    goap.Settled eval targets start (goap.search eval targets start).2 := by
  have how := search_ended goap eval targets start
  generalize goap.search eval targets start = result at how unspent
  cases how with
  | spent => exact absurd rfl unspent
  | emptied invariant _ =>
    exact { invariant with wentOn := fun i node held popped _ => invariant.wentOn i node held popped }
  | @found search node nodeIdx _ invariant held goal _ wentOn _ =>
    refine { invariant with wentOn := fun i other isHeld popped notGoal => ?_ }
    rcases wentOn i other isHeld popped with rfl | went
    · rw [held] at isHeld
      rw [← Option.some.inj isHeld, goal] at notGoal
      cases notGoal
    · exact went

/-- Along the route to a node, every state has a node at its cost. -/
theorem NodeAt.part {i : Nat} {node : SearchNode Cost} {route part : List Nat}
    {keys : List (List UInt8)} {here : FleeceGoapBlackboard} {price : Cost}
    (nodeAt : goap.NodeAt eval targets start search i node route keys)
    (invariant : goap.SearchInvariant eval targets start search) (isPart : part <+: route)
    (met : Reaches (goap.problem eval targets start) part here price) :
    ∃ other ∈ search.nodes, other.bb = here ∧ other.g = price := by
  obtain ⟨j, other, held, chain⟩ := nodeAt.chain.part isPart
  obtain ⟨spelled, keysOther, otherAt⟩ := invariant.nodes j other held
  obtain rfl := chain.unique otherAt.chain
  exact ⟨other, List.mem_of_getElem? held, met.unique otherAt.explores.reaches⟩

/-! ### Room in the table -/

/-- In a small table the way of a key goes through every slot. -/
theorem exists_probe {cap slot : Nat} (small : cap < 2 ^ 31) (inside : slot < cap)
    (entry : VisitedEntry) : ∃ probe < cap, VisitedSet.path cap entry probe = slot := by
  have first : entry.hash.toNat % cap < cap := Nat.mod_lt _ (Nat.zero_lt_of_lt inside)
  unfold VisitedSet.path
  generalize entry.hash.toNat % cap = home at first
  rcases Nat.lt_or_ge slot home with before | after
  · refine ⟨slot + cap - home, by omega, ?_⟩
    rw [show home + (slot + cap - home) = slot + cap by omega,
      Nat.mod_eq_of_lt (show slot + cap < 2 ^ 32 by omega), Nat.add_mod_right,
      Nat.mod_eq_of_lt inside]
  · refine ⟨slot - home, by omega, ?_⟩
    rw [Nat.add_sub_cancel' after, Nat.mod_eq_of_lt (show slot < 2 ^ 32 by omega),
      Nat.mod_eq_of_lt inside]

/-- A small table that has no room for a key holds as many keys as it has slots. -/
theorem exists_keys_of_full {set : VisitedSet} (valid : set.Valid) (small : set.cap < 2 ^ 31)
    {key : List UInt8} (full : set.Full key) :
    ∃ keys : Finset (List UInt8), keys.card = set.cap ∧ ∀ other ∈ keys, set.Holds other := by
  have used : ∀ slot ∈ Finset.range set.cap, set.slots slot ≠ none := by
    intro slot member
    obtain ⟨probe, inside, rfl⟩ := exists_probe small (Finset.mem_range.mp member)
      (VisitedSet.entryFor key)
    exact full probe inside
  obtain ⟨entries, count, stored⟩ := valid.placed.exists_keys used
  refine ⟨entries.image VisitedEntry.key, ?_, fun other member => ?_⟩
  · rw [Finset.card_image_of_injOn, count, Finset.card_range]
    intro first isFirst second isSecond same
    obtain ⟨firstSlot, atFirst⟩ := stored first isFirst
    obtain ⟨secondSlot, atSecond⟩ := stored second isSecond
    rw [valid.hashed firstSlot first atFirst, valid.hashed secondSlot second atSecond, same]
  · obtain ⟨entry, isEntry, rfl⟩ := Finset.mem_image.mp member
    obtain ⟨slot, held⟩ := stored entry isEntry
    exact ⟨slot, by rw [held, ← valid.hashed slot entry held]⟩

/-- With room in the table, every state the search came to is closed. -/
theorem Settled.holds (settled : goap.Settled eval targets start search)
    (room : goap.HasRoom eval targets start) (came : goap.CameTo eval targets search bb) :
    search.visited.Holds bb.makeStateKey := by
  obtain ⟨i, node, a, held, popped, notGoal, generated⟩ := came
  rcases (settled.wentOn i node held popped notGoal).closed a bb generated with closed | full
  · exact closed
  · by_contra absent
    have cap : search.visited.cap = goap.maxNodes.toNat * 2 + 1 :=
      settled.cap.trans (toNat_cap_of_small (room.1.trans (by decide)))
    obtain ⟨keys, count, stored⟩ := exists_keys_of_full settled.visited
      (by have small := room.1; omega) full
    have fresh : bb.makeStateKey ∉ keys := fun member => absent (stored _ member)
    have more := room.2 (insert bb.makeStateKey keys) fun key member => ?_
    · rw [Finset.card_insert_of_notMem fresh, count, cap] at more
      omega
    · rcases Finset.mem_insert.mp member with rfl | isKey
      · obtain ⟨route, keysNode, nodeAt⟩ := settled.nodes i node held
        refine ⟨_, _, _, _, nodeAt.explores_next notGoal generated absent, ?_, rfl⟩
        have length := nodeAt.depth
        have capped := nodeAt.capped
        rw [List.length_append, List.length_singleton]
        omega
      · obtain ⟨route, keysOther, other, cost, explores, same, ⟨_, short⟩ | long⟩ :=
          settled.accounted key (stored key isKey)
        · exact ⟨route, keysOther, other, cost, explores, short.trans (Nat.le_succ _), same⟩
        · exact ⟨route, keysOther, other, cost, explores, long.le, same⟩

/-- A state that is always come to in time has a node. -/
theorem Settled.exists_node (settled : goap.Settled eval targets start search)
    (room : goap.HasRoom eval targets start) (inTime : goap.ComesInTime eval targets start bb)
    (came : goap.CameTo eval targets search bb) :
    ∃ node ∈ search.nodes, node.bb = bb ∧ ∃ route keys,
      goap.Explores eval targets start route keys bb node.g ∧
        route.length ≤ goap.maxPlanDepth.toNat := by
  obtain ⟨route, keys, other, cost, explores, same, kept⟩ :=
    settled.accounted _ (settled.holds room came)
  have length : route.length ≤ goap.maxPlanDepth.toNat + 1 := by
    rcases kept with ⟨_, short⟩ | long
    · exact short.trans (Nat.le_succ _)
    · exact long.le
  obtain ⟨rfl, short⟩ := inTime route keys other cost explores length same
  rcases kept with ⟨⟨node, member, held, rfl⟩, _⟩ | long
  · exact ⟨node, member, held, route, keys, explores, short⟩
  · omega

theorem Settled.not_drops (settled : goap.Settled eval targets start search)
    (room : goap.HasRoom eval targets start) (inTime : goap.ComesInTime eval targets start bb) :
    ¬ goap.Drops eval targets search bb := by
  rintro ⟨came, dropped⟩
  obtain ⟨node, member, held, _⟩ := settled.exists_node room inTime came
  exact dropped node member held

theorem Settled.not_overcharges (settled : goap.Settled eval targets start search)
    (room : goap.HasRoom eval targets start) (inTime : goap.ComesInTime eval targets start bb)
    {price : Cost} (cheaply : goap.ComesCheaply eval targets start bb price) :
    ¬ goap.Overcharges eval targets search bb price := by
  rintro ⟨came, dearer⟩
  obtain ⟨node, member, held, route, keys, explores, short⟩ := settled.exists_node room inTime came
  exact absurd (cheaply route keys bb node.g explores short rfl)
    (not_le.mpr (dearer node member held))

/-! ### On the map -/

theorem one_le_roadCost {roads : List Road} (costly : ∀ road ∈ roads, 1 ≤ road.cost)
    (maxPlanDepth : UInt32) (goal : UInt8) (a : Nat) (bb : FleeceGoapBlackboard) :
    1 ≤ (roadGoap roads maxPlanDepth).actionCostFor (roadEval roads goal) a bb := by
  unfold actionCostFor
  split_ifs
  · exact le_rfl
  · simp only [roadEval]
    cases isRoad : roads[a]? with
    | none => exact le_rfl
    | some road =>
      have enough := costly road (List.mem_of_getElem? isRoad)
      simp only
      split_ifs
      · exact enough
      · exact le_rfl

section Graded

variable {roads : List Road} {maxPlanDepth : UInt32} {goal place : UInt8} {level : UInt8 → Nat}
  {height : UInt8 → Int}

/-- Every road goes one level up, and costs what it climbs. -/
structure Graded (roads : List Road) (level : UInt8 → Nat) (height : UInt8 → Int) : Prop where
  level : ∀ road ∈ roads, level road.target = level road.origin + 1
  height : ∀ road ∈ roads, height road.target = height road.origin + road.cost
  costly : ∀ road ∈ roads, 1 ≤ road.cost

/-- The start and the targets of the roads. -/
def placesFrom (roads : List Road) (place : UInt8) : List UInt8 := place :: roads.map Road.target

theorem makeStateKey_atPlace (place : UInt8) :
    (atPlace place).makeStateKey = [0x73, 0x3A, 0x61, 0x74, 0x1F, place] := rfl

/-- An action that can be taken at a place is a road from there. -/
theorem successor_atPlace (costly : ∀ road ∈ roads, 1 ≤ road.cost) {a : Nat}
    {next : FleeceGoapBlackboard}
    (taken : (roadGoap roads maxPlanDepth).successor (roadEval roads goal) a (atPlace place) =
      some next) :
    ∃ road ∈ roads, road.origin = place ∧ next = atPlace road.target ∧
      (roadGoap roads maxPlanDepth).actionCostFor (roadEval roads goal) a (atPlace place) =
        road.cost := by
  unfold successor at taken
  split_ifs at taken with inside applies done
  have isOrigin := of_decide_eq_true applies.2
  simp only [roadEval] at taken done isOrigin
  cases isRoad : roads[a]? with
  | none =>
    rw [isRoad] at done
    cases done
  | some road =>
    rw [isRoad] at taken isOrigin
    have member := List.mem_of_getElem? isRoad
    refine ⟨road, member, ?_, (Option.some.inj taken).symm, ?_⟩
    · exact (List.singleton_inj.mp (Option.some.inj isOrigin)).symm
    · have notNegative : ¬ road.cost < 0 := not_lt.mpr (zero_le_one.trans (costly road member))
      simp [actionCostFor, roadEval, roadGoap, isRoad, notNegative]

variable (graded : Graded roads level height)
include graded

/-- A route over graded roads leads to a place, as many levels up as it has roads, and costs what it
climbs. -/
theorem reaches_graded {route : List Nat} {bb : FleeceGoapBlackboard} {cost : Int}
    (reaches : Reaches ((roadGoap roads maxPlanDepth).problem (roadEval roads goal) [0]
      (atPlace place)) route bb cost) :
    ∃ here ∈ placesFrom roads place, bb = atPlace here ∧
      level here = level place + route.length ∧ height here = height place + cost := by
  induction reaches with
  | start =>
    exact ⟨place, List.mem_cons_self, rfl, (Nat.add_zero _).symm, (add_zero _).symm⟩
  | @step route state next cost a before taken inductionHypothesis =>
    obtain ⟨here, _, rfl, up, climbed⟩ := inductionHypothesis
    obtain ⟨road, member, rfl, leads, paid⟩ := successor_atPlace graded.costly taken
    refine ⟨road.target, List.mem_cons_of_mem _ (List.mem_map_of_mem member), leads, ?_, ?_⟩
    · rw [graded.level road member, up, List.length_append, List.length_singleton, Nat.add_assoc]
    · rw [graded.height road member, climbed, add_assoc]
      exact congrArg _ (congrArg _ paid.symm)

theorem hasRoom_graded (few : roads.length ≤ 1024) :
    (roadGoap roads maxPlanDepth).HasRoom (roadEval roads goal) [0] (atPlace place) := by
  refine ⟨(by decide : (512 : UInt32).toNat < 2 ^ 30), fun closed reached => ?_⟩
  have within : closed ⊆
      ((placesFrom roads place).map fun here => (atPlace here).makeStateKey).toFinset := by
    intro key member
    obtain ⟨route, keys, bb, cost, explores, _, rfl⟩ := reached key member
    obtain ⟨here, known, rfl, _⟩ := reaches_graded graded explores.reaches
    exact List.mem_toFinset.mpr (List.mem_map_of_mem known)
  calc closed.card
      ≤ ((placesFrom roads place).map fun here => (atPlace here).makeStateKey).length :=
        (Finset.card_le_card within).trans (List.toFinset_card_le _)
    _ = roads.length + 1 := by rw [List.length_map, placesFrom, List.length_cons, List.length_map]
    _ ≤ 1025 := Nat.succ_le_succ few

/-- All ways to a place are of one length and of one cost. -/
theorem comes_graded (capped : ∀ here ∈ placesFrom roads place, level here ≤ maxPlanDepth.toNat)
    {part : List Nat} {here : FleeceGoapBlackboard} {price : Int}
    (met : Reaches ((roadGoap roads maxPlanDepth).problem (roadEval roads goal) [0]
      (atPlace place)) part here price) :
    (roadGoap roads maxPlanDepth).ComesInTime (roadEval roads goal) [0] (atPlace place) here ∧
      (roadGoap roads maxPlanDepth).ComesCheaply (roadEval roads goal) [0] (atPlace place) here
        price := by
  obtain ⟨stop, _, rfl, _, climbed⟩ := reaches_graded graded met
  constructor
  · intro route keys other cost explores _ same
    obtain ⟨again, known, rfl, up, _⟩ := reaches_graded graded explores.reaches
    obtain rfl : again = stop := by simpa [makeStateKey_atPlace] using same
    have short := capped again known
    refine ⟨rfl, ?_⟩
    show route.length ≤ maxPlanDepth.toNat
    omega
  · intro route keys other cost explores _ same
    obtain ⟨again, _, rfl, _, climbedAgain⟩ := reaches_graded graded explores.reaches
    obtain rfl : again = stop := by simpa [makeStateKey_atPlace] using same
    omega

end Graded

/-- From 1 two ways lead to 4, one over 2 and one over 3, and from there one to 5. -/
def twoWays : List Road :=
  [⟨0x31, 0x32, 1⟩, ⟨0x31, 0x33, 2⟩, ⟨0x32, 0x34, 2⟩, ⟨0x33, 0x34, 1⟩, ⟨0x34, 0x35, 1⟩]

theorem graded_twoWays : Graded twoWays
    (fun place => if place ≤ 0x31 then 0 else if place ≤ 0x33 then 1 else place.toNat - 0x32)
    fun place => place.toNat - 0x31 := by
  constructor <;> decide

theorem comes_twoWays {part : List Nat} {here : FleeceGoapBlackboard} {price : Int}
    (met : Reaches ((roadGoap twoWays 8).problem (roadEval twoWays 0x35) [0] (atPlace 0x31)) part
      here price) :
    (roadGoap twoWays 8).ComesInTime (roadEval twoWays 0x35) [0] (atPlace 0x31) here ∧
      (roadGoap twoWays 8).ComesCheaply (roadEval twoWays 0x35) [0] (atPlace 0x31) here price :=
  comes_graded graded_twoWays (by decide +kernel) met

/-- The way over 3. -/
theorem solves_twoWays : (roadGoap twoWays 8).Solves (roadEval twoWays 0x35) [0] (atPlace 0x31)
    [1, 3, 4] (atPlace 0x35) 4 := by
  have first : Reaches ((roadGoap twoWays 8).problem (roadEval twoWays 0x35) [0] (atPlace 0x31))
      ([] ++ [1]) (atPlace 0x33) _ := .step .start (by decide +kernel)
  have second : Reaches ((roadGoap twoWays 8).problem (roadEval twoWays 0x35) [0] (atPlace 0x31))
      ([1] ++ [3]) (atPlace 0x34) _ := .step first (by decide +kernel)
  have third : Reaches ((roadGoap twoWays 8).problem (roadEval twoWays 0x35) [0] (atPlace 0x31))
      ([1, 3] ++ [4]) (atPlace 0x35) _ := .step second (by decide +kernel)
  exact ⟨third, (by decide +kernel : goalsMet _ _ _ = true), by decide⟩

/-! ### Completeness -/

/-- A search that has emptied its heap dropped a state of every plan. -/
theorem LoopInvariant.drops (invariant : goap.LoopInvariant eval targets start search)
    (empty : search.heap = []) {route : List Nat} {cost : Cost}
    (solves : goap.Solves eval targets start route bb cost) :
    ∃ part here price, part <+: route ∧
      Reaches (goap.problem eval targets start) part here price ∧
      goap.Drops eval targets search here := by
  have popped (i : Nat) : search.Popped i := by
    intro entry member
    rw [empty] at member
    cases member
  by_contra none
  have frontier := solves.reaches.frontier (fun here _ => ∃ node ∈ search.nodes, node.bb = here)
    (fun _ _ => False) ?_ ?_
  · rcases frontier with ⟨node, member, held⟩ | ⟨_, _, _, _, _, waiting⟩
    · obtain ⟨i, isNode⟩ := List.mem_iff_getElem?.mp member
      have notGoal := (invariant.wentOn i node isNode (popped i)).notGoal
      rw [held] at notGoal
      exact absurd solves.goal (ne_true_of_eq_false notGoal)
    · exact waiting
  · obtain ⟨root, isRoot, held, _⟩ := invariant.root
    exact .inl ⟨root, List.mem_of_getElem? isRoot, held⟩
  · rintro before action here next price isPart met ⟨node, member, rfl⟩ taken
    obtain ⟨i, isNode⟩ := List.mem_iff_getElem?.mp member
    have notGoal := (invariant.wentOn i node isNode (popped i)).notGoal
    have came : goap.CameTo eval targets search next :=
      ⟨i, node, action, isNode, popped i, notGoal, taken⟩
    by_contra lost
    refine none ⟨_, next, _, isPart, met.step taken, came, fun other isOther same => ?_⟩
    exact lost (.inl ⟨other, isOther, same⟩)

/-- Where the goals resolve and no budget is spent, no plan is returned exactly when the heap
became empty. -/
theorem plan_eq_none_iff {goalIds : List CString}
    (resolved : goap.resolveTargets goalIds = some targets)
    (unspent : (goap.search eval targets start).1 ≠ .spent) :
    goap.plan start goalIds eval = none ↔ (goap.search eval targets start).1 = .emptied := by
  have how := search_ended goap eval targets start
  unfold plan
  rw [resolved, Option.bind_some]
  simp only [start.clone_eq, if_true]
  generalize goap.search eval targets start = result at how unspent ⊢
  cases how with
  | spent => exact absurd rfl unspent
  | emptied => exact ⟨fun _ => rfl, fun _ => rfl⟩
  | found _ held =>
    simp only [planTo, held, Option.map_some, reduceCtorEq]

/-- What the search found is a plan, and every state along it has a node at its cost. -/
theorem exists_solves_of_found {nodeIdx iters : Nat}
    (found : (goap.search eval targets start).1 = .found nodeIdx iters) :
    ∃ route bb cost, goap.Solves eval targets start route bb cost ∧
      ∀ part here price, part <+: route →
        Reaches (goap.problem eval targets start) part here price →
        ∃ node ∈ (goap.search eval targets start).2.nodes, node.bb = here ∧ node.g = price := by
  have how := search_ended goap eval targets start
  generalize goap.search eval targets start = result at how found
  cases how with
  | spent => cases found
  | emptied => cases found
  | @found search node _ _ invariant held goal =>
    obtain ⟨route, keys, nodeAt⟩ := invariant.nodes _ node held
    refine ⟨route, node.bb, node.g, ⟨nodeAt.explores.reaches, goal, ?_⟩,
      fun part here price isPart met => nodeAt.part invariant isPart met⟩
    rw [nodeAt.depth]
    exact nodeAt.capped

/-- No plan is returned although the goals resolve and no budget is spent: then there is none
within the depth cap, exactly when some plan there, if there is any, has no state that the search
dropped. It has none where no other way leads to one of its states too late. -/
theorem complete_iff {goalIds : List CString}
    (resolved : goap.resolveTargets goalIds = some targets)
    (unspent : (goap.search eval targets start).1 ≠ .spent) :
    ((goap.plan start goalIds eval = none →
        ∀ route bb cost, ¬ goap.Solves eval targets start route bb cost) ↔
      ((∃ route bb cost, goap.Solves eval targets start route bb cost) →
        ∃ route bb cost, goap.Solves eval targets start route bb cost ∧
          ∀ part here price, part <+: route →
            Reaches (goap.problem eval targets start) part here price →
            ¬ goap.Drops eval targets (goap.search eval targets start).2 here)) ∧
    (goap.HasRoom eval targets start → ∀ route bb cost,
      goap.Solves eval targets start route bb cost →
      (∀ part here price, part <+: route →
        Reaches (goap.problem eval targets start) part here price →
        goap.ComesInTime eval targets start here) →
      goap.plan start goalIds eval ≠ none) := by
  have dropped (none : goap.plan start goalIds eval = none) {route : List Nat}
      {bb : FleeceGoapBlackboard} {cost : Cost}
      (solves : goap.Solves eval targets start route bb cost) :
      ∃ part here price, part <+: route ∧
        Reaches (goap.problem eval targets start) part here price ∧
        goap.Drops eval targets (goap.search eval targets start).2 here := by
    have how := search_ended goap eval targets start
    have emptied := (plan_eq_none_iff resolved unspent).mp none
    generalize goap.search eval targets start = result at how emptied ⊢
    cases how with
    | spent => cases emptied
    | emptied invariant empty => exact invariant.drops empty solves
    | found => cases emptied
  refine ⟨⟨fun complete ⟨route, bb, cost, solves⟩ => ?_, fun kept none route bb cost solves => ?_⟩,
    fun room route bb cost solves inTime none => ?_⟩
  · cases ended : (goap.search eval targets start).1 with
    | spent => exact absurd ended unspent
    | emptied =>
      exact absurd solves (complete ((plan_eq_none_iff resolved unspent).mpr ended) route bb cost)
    | found nodeIdx iters =>
      obtain ⟨found, state, price, isPlan, held⟩ := exists_solves_of_found ended
      refine ⟨found, state, price, isPlan, fun part here paid isPart met isDropped => ?_⟩
      obtain ⟨node, member, same, _⟩ := held part here paid isPart met
      exact isDropped.2 node member same
  · obtain ⟨plan, state, price, isPlan, notDropped⟩ := kept ⟨route, bb, cost, solves⟩
    obtain ⟨part, here, paid, isPart, met, isDropped⟩ := dropped none isPlan
    exact notDropped part here paid isPart met isDropped
  · obtain ⟨part, here, paid, isPart, met, isDropped⟩ := dropped none solves
    exact (settled_of_unspent unspent).not_drops room (inTime part here paid isPart met) isDropped

/-- With two ways to one place a plan is returned, though the search closes that place on the first
and refuses it on the second, and some plan has no state that was dropped. -/
theorem complete_iff_two_ways :
    let goap := roadGoap twoWays 8
    let eval := roadEval twoWays 0x35
    let start := atPlace 0x31
    goap.plan start [] eval ≠ none ∧
      ∃ route bb cost, goap.Solves eval [0] start route bb cost ∧
        ∀ part here price, part <+: route → Reaches (goap.problem eval [0] start) part here price →
          ¬ goap.Drops eval [0] (goap.search eval [0] start).2 here := by
  intro goap eval start
  have resolved : goap.resolveTargets [] = some [0] := by decide
  have unspent : (goap.search eval [0] start).1 ≠ .spent := by decide +kernel
  obtain ⟨exactly, enough⟩ := complete_iff resolved unspent
  have returned : goap.plan start [] eval ≠ none :=
    enough (hasRoom_graded graded_twoWays (by decide)) _ _ _ solves_twoWays
      fun _ _ _ _ met => (comes_twoWays met).1
  exact ⟨returned, exactly.mp (fun none => absurd none returned) ⟨_, _, _, solves_twoWays⟩⟩

/-- From 1 the search first goes over 2 and 3, where the third road to 5 is one too many for two
actions. It closes 5 and does not take the dearer way over 4, which has two. -/
theorem plan_missed :
    let roads : List Road := [⟨0x31, 0x32, 1⟩, ⟨0x32, 0x33, 1⟩, ⟨0x33, 0x35, 1⟩, ⟨0x31, 0x34, 5⟩,
      ⟨0x34, 0x35, 1⟩]
    let goap := roadGoap roads 2
    let eval := roadEval roads 0x35
    let start := atPlace 0x31
    goap.resolveTargets [] = some [0] ∧ goap.plan start [] eval = none ∧
      (goap.search eval [0] start).1 = .emptied ∧
      (∀ a bb, 0 ≤ goap.actionCostFor eval a bb) ∧
      ∃ cost, goap.Solves eval [0] start [3, 4] (atPlace 0x35) cost := by
  intro roads goap eval start
  have first : Reaches (goap.problem eval [0] start) ([] ++ [3]) (atPlace 0x34) _ :=
    .step .start (by decide +kernel)
  have reaches : Reaches (goap.problem eval [0] start) ([3] ++ [4]) (atPlace 0x35) _ :=
    .step first (by decide +kernel)
  exact ⟨by decide, by decide +kernel, by decide +kernel,
    fun a bb => zero_le_one.trans (one_le_roadCost (by decide) 2 0x35 a bb),
    _, reaches, (by decide +kernel : goalsMet _ _ _ = true), by decide⟩

/-! ### Optimality -/

omit [Ring Cost] [LinearOrder Cost] in
theorem countUnsatisfied_le (single : targets.length ≤ 1) :
    countUnsatisfied eval targets bb ≤ 1 := List.countP_le_length.trans single

section Found

variable [IsStrictOrderedRing Cost] {nodeIdx : Nat} {node : SearchNode Cost}
  (invariant : goap.SearchInvariant eval targets start search)
  (held : search.nodes[nodeIdx]? = some node) (goal : goalsMet eval targets node.bb = true)
  (least : ∀ entry ∈ search.heap, node.f ≤ entry.f)
  (wentOn : ∀ i other, search.nodes[i]? = some other → search.Popped i →
    i = nodeIdx ∨ goap.WentOn eval targets search other)

include invariant held least wentOn

omit [IsStrictOrderedRing Cost] in
/-- A node was gone on from, or ranks no earlier than the one that was found. -/
theorem wentOn_or_late {i : Nat} {other : SearchNode Cost}
    (isOther : search.nodes[i]? = some other) :
    (search.Popped i ∧ goap.WentOn eval targets search other) ∨ node.f ≤ other.f := by
  by_cases popped : search.Popped i
  · rcases wentOn i other isOther popped with rfl | went
    · rw [Option.some.inj (held.symm.trans isOther)]
      exact .inr le_rfl
    · exact .inl ⟨popped, went⟩
  · unfold Search.Popped at popped
    push Not at popped
    obtain ⟨entry, member, rfl⟩ := popped
    obtain ⟨opened, isOpened, rank⟩ := invariant.opened entry member
    rw [Option.some.inj (isOther.symm.trans isOpened), ← rank]
    exact .inr (least entry member)

include goal

/-- The node that was found costs no more than a plan none of whose states was overcharged. -/
theorem found_le (single : targets.length ≤ 1) (costly : ∀ a bb, 1 ≤ goap.actionCostFor eval a bb)
    {route : List Nat} {cost : Cost} (solves : goap.Solves eval targets start route bb cost)
    (fair : ∀ part here price, part <+: route →
      Reaches (goap.problem eval targets start) part here price →
      ¬ goap.Overcharges eval targets search here price) : node.g ≤ cost := by
  have rank : node.f = node.g := by
    obtain ⟨_, _, nodeAt⟩ := invariant.nodes nodeIdx node held
    rw [nodeAt.rank, countUnsatisfied_of_goalsMet goal, Nat.cast_zero, add_zero]
  have frontier := solves.reaches.frontier
    (fun here price => ∃ (i : Nat) (other : SearchNode Cost), search.nodes[i]? = some other ∧
      other.bb = here ∧ other.g ≤ price ∧ search.Popped i ∧ goap.WentOn eval targets search other)
    (fun here price => ∃ (i : Nat) (other : SearchNode Cost), search.nodes[i]? = some other ∧
      other.bb = here ∧ other.g ≤ price ∧ node.f ≤ other.f) ?_ ?_
  · rcases frontier with ⟨i, other, _, rfl, _, _, went⟩ | ⟨part, here, price, isPart, met, waiting⟩
    · exact absurd solves.goal (ne_true_of_eq_false went.notGoal)
    · obtain ⟨i, other, isOther, rfl, cheap, late⟩ := waiting
      obtain ⟨_, _, otherAt⟩ := invariant.nodes i other isOther
      rw [rank, otherAt.rank] at late
      rcases solves.reaches.cost_le costly isPart met with ⟨_, same, rfl⟩ | less
      · rw [same, countUnsatisfied_of_goalsMet solves.goal, Nat.cast_zero, add_zero] at late
        exact late.trans cheap
      · have few : (countUnsatisfied eval targets other.bb : Cost) ≤ 1 := by
          exact_mod_cast countUnsatisfied_le single
        calc node.g ≤ other.g + countUnsatisfied eval targets other.bb := late
          _ ≤ price + 1 := add_le_add cheap few
          _ ≤ cost := less
  · obtain ⟨root, isRoot, atStart, free⟩ := invariant.root
    rcases wentOn_or_late invariant held least wentOn isRoot with ⟨popped, went⟩ | late
    · exact .inl ⟨0, root, isRoot, atStart, free.le, popped, went⟩
    · exact .inr ⟨0, root, isRoot, atStart, free.le, late⟩
  · rintro before action here next price isPart met ⟨i, other, isOther, rfl, cheap, popped, went⟩
      taken
    have came : goap.CameTo eval targets search next :=
      ⟨i, other, action, isOther, popped, went.notGoal, taken⟩
    have notDearer := fair _ next _ isPart (met.step taken)
    unfold Overcharges at notDearer
    push Not at notDearer
    obtain ⟨kept, member, same, paid⟩ := notDearer came
    obtain ⟨j, isKept⟩ := List.mem_iff_getElem?.mp member
    rcases wentOn_or_late invariant held least wentOn isKept with ⟨poppedKept, wentKept⟩ | late
    · exact .inl ⟨j, kept, isKept, same, paid, poppedKept, wentKept⟩
    · exact .inr ⟨j, kept, isKept, same, paid, late⟩

end Found

/-- A returned plan for one goal, where every action costs at least one, is a cheapest plan within
the depth cap exactly when some cheapest plan has no state that the search dropped or overcharged.
It has none where no other way leads to one of its states too late or at a higher cost. -/
theorem optimal_iff [IsStrictOrderedRing Cost] {goalIds : List CString} {target : Nat}
    {plan : FleeceGoapPlan Cost} (resolved : goap.resolveTargets goalIds = some [target])
    (costly : ∀ a bb, 1 ≤ goap.actionCostFor eval a bb)
    (returned : goap.plan start goalIds eval = some plan) :
    ((∀ route bb cost, goap.Solves eval [target] start route bb cost → plan.totalCost ≤ cost) ↔
      ∃ route bb cost, goap.Solves eval [target] start route bb cost ∧
        (∀ other state price, goap.Solves eval [target] start other state price → cost ≤ price) ∧
        ∀ part here price, part <+: route →
          Reaches (goap.problem eval [target] start) part here price →
          ¬ goap.Overcharges eval [target] (goap.search eval [target] start).2 here price) ∧
    (goap.HasRoom eval [target] start → ∀ route bb cost,
      goap.Solves eval [target] start route bb cost →
      (∀ part here price, part <+: route →
        Reaches (goap.problem eval [target] start) part here price →
        goap.ComesInTime eval [target] start here ∧
          goap.ComesCheaply eval [target] start here price) →
      plan.totalCost ≤ cost) := by
  obtain ⟨targets, nodeIdx, iters, search, resolvedTo, ended, spelled⟩ := search_of_plan returned
  obtain rfl := Option.some.inj (resolved.symm.trans resolvedTo)
  have settled : goap.Settled eval [target] start search := by
    have isSettled : goap.Settled eval [target] start (goap.search eval [target] start).2 :=
      settled_of_unspent (by rw [ended]; exact nofun)
    rwa [ended] at isSettled
  have how := search_ended goap eval [target] start
  rw [ended] at how
  cases how with
  | @found _ node _ _ invariant held goal least wentOn inTime =>
    obtain ⟨found, keys, nodeAt, _, _, paid, _⟩ := planTo_spec invariant held spelled
    have atMost {route : List Nat} {bb : FleeceGoapBlackboard} {cost : Cost}
        (solves : goap.Solves eval [target] start route bb cost)
        (fair : ∀ part here price, part <+: route →
          Reaches (goap.problem eval [target] start) part here price →
          ¬ goap.Overcharges eval [target] search here price) : plan.totalCost ≤ cost := by
      rw [paid]
      exact found_le invariant held goal least wentOn le_rfl costly solves fair
    refine ⟨⟨fun cheapest => ?_, fun ⟨route, bb, cost, solves, isLeast, fair⟩ other state price
      isOther => ?_⟩, fun room route bb cost solves safe => ?_⟩
    · refine ⟨found, node.bb, node.g, ⟨nodeAt.explores.reaches, goal, ?_⟩, ?_, ?_⟩
      · rw [nodeAt.depth]
        exact nodeAt.capped
      · rw [← paid]
        exact cheapest
      · intro part here price isPart met
        rw [ended]
        rintro ⟨_, dearer⟩
        obtain ⟨other, member, same, cost⟩ := nodeAt.part invariant isPart met
        exact absurd (dearer other member same) (not_lt.mpr cost.le)
    · rw [ended] at fair
      exact (atMost solves fair).trans (isLeast other state price isOther)
    · refine atMost solves fun part here price isPart met => ?_
      obtain ⟨timely, cheaply⟩ := safe part here price isPart met
      exact settled.not_overcharges room timely cheaply

/-- With two ways to one place, of one cost, the plan costs no more than either. -/
theorem optimal_iff_two_ways :
    let goap := roadGoap twoWays 8
    let eval := roadEval twoWays 0x35
    let start := atPlace 0x31
    ∃ plan, goap.plan start [] eval = some plan ∧ plan.totalCost = 4 ∧
      (∀ route bb cost, goap.Solves eval [0] start route bb cost → plan.totalCost ≤ cost) ∧
      ∃ route bb cost, goap.Solves eval [0] start route bb cost ∧
        (∀ other state price, goap.Solves eval [0] start other state price → cost ≤ price) ∧
        ∀ part here price, part <+: route → Reaches (goap.problem eval [0] start) part here price →
          ¬ goap.Overcharges eval [0] (goap.search eval [0] start).2 here price := by
  intro goap eval start
  have resolved : goap.resolveTargets [] = some [0] := by decide
  have paid : (goap.plan start [] eval).map FleeceGoapPlan.totalCost = some 4 := by decide +kernel
  obtain ⟨plan, returned, cost⟩ := Option.map_eq_some_iff.mp paid
  obtain ⟨exactly, enough⟩ := optimal_iff resolved
    (one_le_roadCost graded_twoWays.costly 8 0x35) returned
  have cheapest : ∀ route bb cost, goap.Solves eval [0] start route bb cost →
      plan.totalCost ≤ cost := fun route bb price solves =>
    enough (hasRoom_graded graded_twoWays (by decide)) route bb price solves
      fun _ _ _ _ met => comes_twoWays met
  exact ⟨plan, returned, cost, cheapest, exactly.mp cheapest⟩

/-- From 1 the search comes to 2 by the dear road, and then by the cheap way over 3, which it does
not take. -/
theorem plan_too_dear :
    let roads : List Road := [⟨0x31, 0x32, 5⟩, ⟨0x31, 0x33, 1⟩, ⟨0x33, 0x32, 1⟩, ⟨0x32, 0x35, 1⟩]
    let goap := roadGoap roads 8
    let eval := roadEval roads 0x35
    let start := atPlace 0x31
    goap.resolveTargets [] = some [0] ∧ (∀ a bb, 1 ≤ goap.actionCostFor eval a bb) ∧
      (∃ plan, goap.plan start [] eval = some plan ∧ plan.totalCost = 6) ∧
      goap.Solves eval [0] start [1, 2, 3] (atPlace 0x35) 3 := by
  intro roads goap eval start
  have first : Reaches (goap.problem eval [0] start) ([] ++ [1]) (atPlace 0x33) _ :=
    .step .start (by decide +kernel)
  have second : Reaches (goap.problem eval [0] start) ([1] ++ [2]) (atPlace 0x32) _ :=
    .step first (by decide +kernel)
  have third : Reaches (goap.problem eval [0] start) ([1, 2] ++ [3]) (atPlace 0x35) _ :=
    .step second (by decide +kernel)
  have paid : (goap.plan start [] eval).map FleeceGoapPlan.totalCost = some 6 := by decide +kernel
  exact ⟨by decide, one_le_roadCost (by decide) 8 0x35, Option.map_eq_some_iff.mp paid, third,
    (by decide +kernel : goalsMet _ _ _ = true), by decide⟩

end FleeceGoap

end Fleece
