/-
This file is about the order in which goals are picked. Over scores in a linear order the
goals that may be picked are ranked by score, and goals of one score by their place in
the tables; `fleece_goap_select_goal` returns the first of that ranking.
`fleece_goap_rank_goals` fills its array with the goals it meets first and sorts
only then, so its result begins the ranking exactly when no goal that found no room
scores higher than one that did.
-/

import Fleece.GoalRanking

namespace Fleece.GoapTables

variable {Score : Type} [Zero Score] [One Score] [Add Score] [Sub Score] [Mul Score] [Div Score]
  [BEq Score] [LinearOrder Score] {Cost : Type} (tables : GoapTables) (reader : ScoreReader Score)
  (eval : FleeceGoapEval Cost) (bb : FleeceGoapBlackboard) (threshold : Score)

/-! ### The ranking -/

/-- The goals that may be picked, in the order of the tables. -/
def eligible : List Nat :=
  (List.range tables.goals.length).filter (tables.isRanked reader eval bb threshold)

/-- A goal is picked before another. -/
def Precedes (first second : Nat) : Prop :=
  tables.goalUtility reader second bb < tables.goalUtility reader first bb ∨
    tables.goalUtility reader second bb = tables.goalUtility reader first bb ∧ first < second

/-- The best goals, as many as there is room for, the best one first. -/
structure TopGoals (cap : Nat) (ranked : List Nat) : Prop where
  length : ranked.length = min cap (tables.eligible reader eval bb threshold).length
  distinct : ranked.Nodup
  eligible : ∀ goal ∈ ranked, goal ∈ tables.eligible reader eval bb threshold
  highest : ∀ goal ∈ ranked, ∀ other ∈ tables.eligible reader eval bb threshold, other ∉ ranked →
    tables.goalUtility reader other bb ≤ tables.goalUtility reader goal bb
  ordered : ranked.Pairwise (tables.Precedes reader bb)
  selected : ∀ goal, ranked.head? = some goal → tables.selectGoal reader eval bb threshold = some goal

variable {tables reader eval bb threshold}

theorem mem_eligible {goal : Nat} : goal ∈ tables.eligible reader eval bb threshold ↔
    goal < tables.goals.length ∧ isUnsatisfied eval bb goal = true ∧
      threshold < tables.goalUtility reader goal bb := by
  rw [eligible, List.mem_filter, List.mem_range, isRanked, Bool.and_eq_true, Bool.not_eq_true',
    decide_eq_false_iff_not, not_le]

theorem eligible_increasing :
    (tables.eligible reader eval bb threshold).Pairwise fun first second => first < second :=
  List.pairwise_lt_range.filter _

/-! ### The selected goal -/

variable (tables reader eval bb threshold) in
/-- What the loop of `fleece_goap_select_goal` holds after the goals in front of `count`. -/
structure BestSoFar (count : Nat) (best : Option Nat × Score) : Prop where
  above : threshold ≤ best.2
  bound : ∀ goal < count, isUnsatisfied eval bb goal = true →
    tables.goalUtility reader goal bb ≤ best.2
  unset : best.1 = none → best.2 = threshold
  set : ∀ goal, best.1 = some goal → goal < count ∧ isUnsatisfied eval bb goal = true ∧
    threshold < tables.goalUtility reader goal bb ∧ best.2 = tables.goalUtility reader goal bb ∧
    ∀ other < goal, isUnsatisfied eval bb other = true → tables.goalUtility reader other bb < best.2

theorem BestSoFar.selectTurn {count : Nat} {best : Option Nat × Score}
    (held : tables.BestSoFar reader eval bb threshold count best) :
    tables.BestSoFar reader eval bb threshold (count + 1)
      (tables.selectTurn reader eval bb best count) := by
  unfold GoapTables.selectTurn
  split_ifs with better
  · obtain ⟨unsatisfied, higher⟩ := better
    have raised : threshold < tables.goalUtility reader count bb := lt_of_le_of_lt held.above higher
    refine ⟨raised.le, fun goal below open_ => ?_, nofun, fun goal same => ?_⟩
    · rcases Nat.lt_succ_iff_lt_or_eq.mp below with earlier | rfl
      · exact (held.bound goal earlier open_).trans higher.le
      · exact le_rfl
    · obtain rfl := Option.some.inj same
      exact ⟨Nat.lt_succ_self _, unsatisfied, raised, rfl, fun other earlier open_ =>
        lt_of_le_of_lt (held.bound other earlier open_) higher⟩
  · refine ⟨held.above, fun goal below open_ => ?_, held.unset, fun goal same => ?_⟩
    · rcases Nat.lt_succ_iff_lt_or_eq.mp below with earlier | rfl
      · exact held.bound goal earlier open_
      · exact not_lt.mp fun higher => better ⟨open_, higher⟩
    · obtain ⟨below, rest⟩ := held.set goal same
      exact ⟨Nat.lt_succ_of_lt below, rest⟩

theorem bestSoFar_range (count : Nat) : tables.BestSoFar reader eval bb threshold count
    ((List.range count).foldl (tables.selectTurn reader eval bb) (none, threshold)) := by
  induction count with
  | zero =>
    exact ⟨le_rfl, fun goal below => absurd below (Nat.not_lt_zero goal), fun _ => rfl, nofun⟩
  | succ count inductionHypothesis =>
    rw [List.range_succ, List.foldl_append, List.foldl_cons, List.foldl_nil]
    exact inductionHypothesis.selectTurn

/-- The goal that precedes every other eligible one is selected. -/
theorem selectGoal_of_first {goal : Nat} (isEligible : goal ∈ tables.eligible reader eval bb threshold)
    (first : ∀ other ∈ tables.eligible reader eval bb threshold, other ≠ goal →
      tables.Precedes reader bb goal other) :
    tables.selectGoal reader eval bb threshold = some goal := by
  obtain ⟨inside, unsatisfied, above⟩ := mem_eligible.mp isEligible
  have best := @bestSoFar_range Score _ _ _ _ _ _ _ _ Cost tables reader eval bb threshold
    tables.goals.length
  have bound := best.bound goal inside unsatisfied
  unfold selectGoal
  cases chosen : ((List.range tables.goals.length).foldl (tables.selectTurn reader eval bb)
    (none, threshold)).1 with
  | none =>
    rw [best.unset chosen] at bound
    exact absurd above (not_lt.mpr bound)
  | some other =>
    obtain ⟨otherInside, otherOpen, otherAbove, score, earlier⟩ := best.set other chosen
    by_contra different
    rcases first other (mem_eligible.mpr ⟨otherInside, otherOpen, otherAbove⟩)
      (fun same => different (congrArg some same)) with lower | ⟨same, before⟩
    · exact absurd (bound.trans score.le) (not_le.mpr lower)
    · exact absurd (same.symm.trans score.symm) (earlier goal before unsatisfied).ne

/-! ### The ranked goals -/

variable {cap : Nat}

theorem rankGoals_perm : (tables.rankGoals reader eval bb threshold cap).Perm
    ((tables.eligible reader eval bb threshold).take cap) :=
  InsertionSort.sort_perm _

/-- A goal that found no room comes after those that did. -/
theorem lt_of_take_of_drop {kept dropped : Nat}
    (isKept : kept ∈ (tables.eligible reader eval bb threshold).take cap)
    (isDropped : dropped ∈ (tables.eligible reader eval bb threshold).drop cap) : kept < dropped := by
  have increasing := @eligible_increasing Score _ _ _ _ _ _ _ _ Cost tables reader eval bb threshold
  rw [← List.take_append_drop cap (tables.eligible reader eval bb threshold)] at increasing
  exact (List.pairwise_append.mp increasing).2.2 kept isKept dropped isDropped

theorem rankGoals_ordered :
    (tables.rankGoals reader eval bb threshold cap).Pairwise (tables.Precedes reader bb) := by
  have increasing := @eligible_increasing Score _ _ _ _ _ _ _ _ Cost tables reader eval bb threshold
  have stable := @InsertionSort.sort_stable Nat
    (fun first second =>
      decide (tables.goalUtility reader first bb < tables.goalUtility reader second bb)) _ _
    (increasing.sublist (List.take_sublist cap _))
  have sorted : InsertionSort.Sorted
      (fun first second =>
        decide (tables.goalUtility reader first bb < tables.goalUtility reader second bb))
      (tables.rankGoals reader eval bb threshold cap) := by
    refine @InsertionSort.sort_sorted _ _ (fun _ => True) ?_ ?_ _ fun _ _ => trivial
    · intro first second behind
      exact decide_eq_false (not_lt.mpr (of_decide_eq_true behind).le)
    · intro first second third _ left right
      exact decide_eq_false (not_lt.mpr ((not_lt.mp (of_decide_eq_false right)).trans
        (not_lt.mp (of_decide_eq_false left))))
  refine (stable.and sorted).imp fun both => ?_
  obtain ⟨earlier | moved, notBehind⟩ := both
  · rcases (not_lt.mp (of_decide_eq_false notBehind)).lt_or_eq with lower | same
    · exact .inl lower
    · exact .inr ⟨same, earlier⟩
  · exact .inl (of_decide_eq_true moved)

theorem mem_rankGoals_iff {goal : Nat} : goal ∈ tables.rankGoals reader eval bb threshold cap ↔
    goal ∈ (tables.eligible reader eval bb threshold).take cap :=
  rankGoals_perm.mem_iff

theorem eligible_of_ranked {goal : Nat}
    (ranked : goal ∈ tables.rankGoals reader eval bb threshold cap) :
    goal ∈ tables.eligible reader eval bb threshold :=
  List.mem_of_mem_take (mem_rankGoals_iff.mp ranked)

theorem dropped_of_unranked {goal : Nat}
    (isEligible : goal ∈ tables.eligible reader eval bb threshold)
    (unranked : goal ∉ tables.rankGoals reader eval bb threshold cap) :
    goal ∈ (tables.eligible reader eval bb threshold).drop cap := by
  rw [← List.take_append_drop cap (tables.eligible reader eval bb threshold),
    List.mem_append] at isEligible
  exact isEligible.resolve_left fun taken => unranked (mem_rankGoals_iff.mpr taken)

section Below

variable (below : ∀ kept ∈ (tables.eligible reader eval bb threshold).take cap,
  ∀ dropped ∈ (tables.eligible reader eval bb threshold).drop cap,
    tables.goalUtility reader dropped bb ≤ tables.goalUtility reader kept bb)
include below

/-- The first goal of the result precedes every other eligible one. -/
theorem precedes_of_head {goal other : Nat}
    (head : (tables.rankGoals reader eval bb threshold cap).head? = some goal)
    (isEligible : other ∈ tables.eligible reader eval bb threshold) (different : other ≠ goal) :
    tables.Precedes reader bb goal other := by
  have ranked : goal ∈ tables.rankGoals reader eval bb threshold cap := List.mem_of_mem_head? head
  by_cases alsoRanked : other ∈ tables.rankGoals reader eval bb threshold cap
  · have ordered := @rankGoals_ordered Score _ _ _ _ _ _ _ _ Cost tables reader eval bb threshold cap
    obtain ⟨rest, shape⟩ := List.head?_eq_some_iff.mp head
    rw [shape] at ordered alsoRanked
    exact (List.pairwise_cons.mp ordered).1 other
      ((List.mem_cons.mp alsoRanked).resolve_left different)
  · have dropped := dropped_of_unranked isEligible alsoRanked
    have kept := mem_rankGoals_iff.mp ranked
    rcases (below goal kept other dropped).lt_or_eq with lower | same
    · exact .inl lower
    · exact .inr ⟨same, lt_of_take_of_drop kept dropped⟩

theorem topGoals_of_below :
    tables.TopGoals reader eval bb threshold cap
      (tables.rankGoals reader eval bb threshold cap) where
  length := by rw [rankGoals_perm.length_eq, List.length_take]
  distinct := rankGoals_perm.nodup_iff.mpr
    ((eligible_increasing.imp fun less => less.ne).sublist (List.take_sublist cap _))
  eligible _ ranked := eligible_of_ranked ranked
  highest goal ranked other isEligible unranked :=
    below goal (mem_rankGoals_iff.mp ranked) other (dropped_of_unranked isEligible unranked)
  ordered := rankGoals_ordered
  selected _ head := selectGoal_of_first (eligible_of_ranked (List.mem_of_mem_head? head))
    fun _ isEligible different => precedes_of_head below head isEligible different

end Below

/-- With room for every goal, as the brain ranks them, the result is the top of the ranking. -/
theorem topGoals_of_room (room : tables.goals.length ≤ cap) :
    tables.TopGoals reader eval bb threshold cap
      (tables.rankGoals reader eval bb threshold cap) := by
  refine topGoals_of_below fun _ _ dropped isDropped => ?_
  have few : (tables.eligible reader eval bb threshold).length ≤ cap :=
    (List.length_filter_le _ _).trans (List.length_range.trans_le room)
  rw [List.drop_of_length_le few] at isDropped
  exact absurd isDropped List.not_mem_nil

/-- The result is the top of the ranking exactly if no goal without room scores higher than one
with room. -/
theorem topGoals_iff (tables : GoapTables) (reader : ScoreReader Score)
    (eval : FleeceGoapEval Cost) (bb : FleeceGoapBlackboard) (threshold : Score) (cap : Nat) :
    tables.TopGoals reader eval bb threshold cap (tables.rankGoals reader eval bb threshold cap) ↔
      ∀ kept ∈ (tables.eligible reader eval bb threshold).take cap,
        ∀ dropped ∈ (tables.eligible reader eval bb threshold).drop cap,
          tables.goalUtility reader dropped bb ≤ tables.goalUtility reader kept bb := by
  refine ⟨fun top kept isKept dropped isDropped => ?_, topGoals_of_below⟩
  refine top.highest kept (mem_rankGoals_iff.mpr isKept) dropped (List.mem_of_mem_drop isDropped) ?_
  exact fun ranked => lt_irrefl _ (lt_of_take_of_drop (mem_rankGoals_iff.mp ranked) isDropped)

/-- Two goals, the second with twice the priority of the first, and room for one. -/
theorem rankGoals_keeps_lower :
    let first : FleeceGoapGoalDef :=
      ⟨some ⟨[0x61], by decide⟩, none, none, ⟨0x3FF0000000000000⟩, none⟩
    let second : FleeceGoapGoalDef :=
      ⟨some ⟨[0x62], by decide⟩, none, none, ⟨0x4000000000000000⟩, none⟩
    let eval : FleeceGoapEval Int := ⟨fun _ _ => (-1, false), fun _ bb => (-1, bb),
      fun _ _ => (0, false), none⟩
    ∃ tables, GoapTables.empty.registerAll [.addGoal first, .addGoal second] = some tables ∧
      tables.rankGoals wholeReader eval .empty 0 1 = [0] ∧
      tables.selectGoal wholeReader eval .empty 0 = some 1 ∧
      ¬ tables.TopGoals wholeReader eval .empty 0 1
        (tables.rankGoals wholeReader eval .empty 0 1) := by
  intro first second eval
  refine ⟨_, rfl, by decide +kernel, by decide +kernel, fun top => ?_⟩
  have head := top.selected 0 (by decide +kernel)
  exact absurd head (by decide +kernel)

end Fleece.GoapTables
