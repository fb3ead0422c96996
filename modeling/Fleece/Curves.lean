/-
This file is about the utility curves over exact numbers: what `fleece_goap_add_utility`
makes of the points it is given, and what `curve_score` makes of them. The score is
computed once more with the return statement that gives it, so that a statement that
is never reached can be told from one that gives the same value.

Past the first point and not past the last the search for a segment finds the first one
that reaches the value. It starts in front of the value, so it is never a vertical one.
-/

import Fleece.GoalRanking

namespace Fleece

/-! ### Between two values -/

section Field

variable {K : Type} [Field K] [LinearOrder K] [IsStrictOrderedRing K] {low high first second k : K}

/-- A part of the way from one value to another. -/
theorem le_partway (lowFirst : low ≤ first) (lowSecond : low ≤ second) (nonneg : 0 ≤ k)
    (atMost : k ≤ 1) : low ≤ first + (second - first) * k := by
  have mixed : first + (second - first) * k = (1 - k) * first + k * second := by ring
  have split : low = (1 - k) * low + k * low := by ring
  rw [mixed, split]
  exact add_le_add (mul_le_mul_of_nonneg_left lowFirst (sub_nonneg.mpr atMost))
    (mul_le_mul_of_nonneg_left lowSecond nonneg)

theorem partway_le (firstHigh : first ≤ high) (secondHigh : second ≤ high) (nonneg : 0 ≤ k)
    (atMost : k ≤ 1) : first + (second - first) * k ≤ high := by
  have mixed : first + (second - first) * k = (1 - k) * first + k * second := by ring
  have split : high = (1 - k) * high + k * high := by ring
  rw [mixed, split]
  exact add_le_add (mul_le_mul_of_nonneg_left firstHigh (sub_nonneg.mpr atMost))
    (mul_le_mul_of_nonneg_left secondHigh nonneg)

end Field

/-! ### The points and the return statements -/

/-- The insertion sort of `fleece_goap_add_utility`, for points of any scores. -/
def sortCurve {Score : Type} [LT Score] [DecidableLT Score] (points : List (CurvePoint Score)) :
    List (CurvePoint Score) :=
  InsertionSort.sort (fun first second => decide (second.x < first.x)) points

section Returns

variable {Score : Type} [Zero Score] [One Score] [Add Score] [Sub Score] [Mul Score] [Div Score]
  [BEq Score] [LE Score] [DecidableLE Score]

/-- The return statements of `curve_score`. -/
inductive CurveReturn (Score : Type) where
  | noPoints
  | first (p : CurvePoint Score)
  | last (p : CurvePoint Score)
  | segment (a b : CurvePoint Score)
  | fellThrough

/-- The loop over the segments: the first one that contains the value. -/
def segmentReturn : List (CurvePoint Score) → Score → CurveReturn Score
  | a :: b :: rest, v => if v ≥ a.x ∧ v ≤ b.x then .segment a b else segmentReturn (b :: rest) v
  | _, _ => .fellThrough

/-- The return statement that `curve_score` reaches. -/
def curveReturn (points : List (CurvePoint Score)) (v : Score) : CurveReturn Score :=
  match points.head?, points.getLast? with
  | some first, some last =>
    if v ≤ first.x then .first first else if v ≥ last.x then .last last else segmentReturn points v
  | _, _ => .noPoints

/-- What a segment divides by. -/
def divisor (a b : CurvePoint Score) : Score := if b.x - a.x != 0 then b.x - a.x else 1

/-- The value that a return statement returns. -/
def CurveReturn.score (v : Score) : CurveReturn Score → Score
  | .noPoints => 0
  | .first p => p.y
  | .last p => p.y
  | .segment a b => a.y + (b.y - a.y) * ((v - a.x) / divisor a b)
  | .fellThrough => 0

theorem segmentScore_eq (points : List (CurvePoint Score)) (v : Score) :
    segmentScore points v = (segmentReturn points v).score v := by
  fun_induction segmentReturn points v with
  | case1 a b rest v inside =>
    rw [segmentScore, if_pos inside]
    rfl
  | case2 a b rest v outside inductionHypothesis =>
    rw [segmentScore, if_neg outside, inductionHypothesis]
  | case3 points v short =>
    unfold segmentScore
    split
    · exact absurd rfl (short _ _ _)
    · rfl

/-- The score is that of the return statement. -/
theorem curveScore_eq (points : List (CurvePoint Score)) (v : Score) :
    curveScore points v = (curveReturn points v).score v := by
  unfold curveScore curveReturn
  cases points.head? with
  | none => rfl
  | some first =>
    cases points.getLast? with
    | none => rfl
    | some last =>
      simp only
      split_ifs
      · rfl
      · rfl
      · exact segmentScore_eq points v

end Returns

/-! ### The search for a segment -/

/-- The search stops at the first segment that reaches the value. -/
theorem exists_segment {first last : CurvePoint ℚ} {points : List (CurvePoint ℚ)} {v : ℚ}
    (head : points.head? = some first) (behind : points.getLast? = some last) (above : first.x < v)
    (below : v ≤ last.x) :
    ∃ a b, segmentReturn points v = .segment a b ∧ [a, b] <:+: points ∧ a.x < v ∧ v ≤ b.x := by
  induction points generalizing first with
  | nil => cases head
  | cons a rest inductionHypothesis =>
    obtain rfl := Option.some.inj head
    cases rest with
    | nil =>
      obtain rfl := Option.some.inj behind
      exact absurd above (not_lt.mpr below)
    | cons b others =>
      by_cases reached : v ≤ b.x
      · refine ⟨a, b, if_pos ⟨above.le, reached⟩, ⟨[], others, rfl⟩, above, reached⟩
      · obtain ⟨c, d, found, inside, low, high⟩ :=
          inductionHypothesis rfl (List.getLast?_cons_cons ▸ behind) (not_le.mp reached)
        refine ⟨c, d, ?_, inside.trans (List.suffix_cons a _).isInfix, low, high⟩
        rw [segmentReturn, if_neg fun both => reached both.2, found]

/-- Where a value lies, and the return statement that is reached there. -/
theorem curveReturn_cases {first last : CurvePoint ℚ} {points : List (CurvePoint ℚ)}
    (head : points.head? = some first) (behind : points.getLast? = some last) (v : ℚ) :
    v ≤ first.x ∧ curveReturn points v = .first first ∨
      first.x < v ∧ last.x ≤ v ∧ curveReturn points v = .last last ∨
      first.x < v ∧ v < last.x ∧ ∃ a b, curveReturn points v = .segment a b ∧
        [a, b] <:+: points ∧ a.x < v ∧ v ≤ b.x := by
  unfold curveReturn
  rw [head, behind]
  simp only
  rcases le_or_gt v first.x with low | above
  · exact .inl ⟨low, if_pos low⟩
  · rw [if_neg (not_le.mpr above)]
    rcases le_or_gt last.x v with high | below
    · exact .inr (.inl ⟨above, high, if_pos high⟩)
    · rw [if_neg (not_le.mpr below)]
      exact .inr (.inr ⟨above, below, exists_segment head behind above below.le⟩)

/-! ### The curve -/

/-- What becomes of the points of a curve, and the score at every value. -/
structure CurveExact (points sorted : List (CurvePoint ℚ)) : Prop where
  perm : sorted.Perm points
  ascending : sorted.Pairwise fun first second => first.x ≤ second.x
  low : ∀ first v, sorted.head? = some first → v ≤ first.x → curveScore sorted v = first.y
  high : ∀ first last v, sorted.head? = some first → sorted.getLast? = some last → first.x < v →
    last.x ≤ v → curveScore sorted v = last.y
  between : ∀ first last v, sorted.head? = some first → sorted.getLast? = some last →
    first.x < v → v < last.x → ∃ a b, [a, b] <:+: sorted ∧ a.x ≤ v ∧ v ≤ b.x ∧
      curveScore sorted v = a.y + (b.y - a.y) * ((v - a.x) / (b.x - a.x))
  range : ∀ v, ∃ lowest ∈ points, ∃ highest ∈ points,
    (∀ p ∈ points, lowest.y ≤ p.y ∧ p.y ≤ highest.y) ∧
      lowest.y ≤ curveScore sorted v ∧ curveScore sorted v ≤ highest.y
  divides : ∀ v a b, curveReturn sorted v = .segment a b → divisor a b = b.x - a.x ∧ b.x - a.x ≠ 0
  reached : ∀ v, curveReturn sorted v ≠ .noPoints ∧ curveReturn sorted v ≠ .fellThrough

theorem sortCurve_perm (points : List (CurvePoint ℚ)) : (sortCurve points).Perm points :=
  InsertionSort.sort_perm points

theorem sortCurve_ascending (points : List (CurvePoint ℚ)) :
    (sortCurve points).Pairwise fun first second => first.x ≤ second.x := by
  have sorted : InsertionSort.Sorted (fun first second : CurvePoint ℚ => decide (second.x < first.x))
      (sortCurve points) := by
    refine @InsertionSort.sort_sorted _ _ (fun _ => True) ?_ ?_ _ fun _ _ => trivial
    · intro first second behind
      exact decide_eq_false (not_lt.mpr (of_decide_eq_true behind).le)
    · intro first second third _ left right
      exact decide_eq_false (not_lt.mpr ((not_lt.mp (of_decide_eq_false left)).trans
        (not_lt.mp (of_decide_eq_false right))))
  exact sorted.imp fun notAfter => not_lt.mp (of_decide_eq_false notAfter)

theorem divisor_of_lt {a b : CurvePoint ℚ} (apart : a.x < b.x) : divisor a b = b.x - a.x := by
  have nonzero : (b.x - a.x != 0) = true := bne_iff_ne.mpr (sub_ne_zero.mpr apart.ne')
  rw [divisor, if_pos nonzero]

/-- The lowest and the highest point. -/
theorem exists_extremes {points : List (CurvePoint ℚ)} (given : points ≠ []) :
    ∃ lowest ∈ points, ∃ highest ∈ points,
      ∀ p ∈ points, lowest.y ≤ p.y ∧ p.y ≤ highest.y := by
  obtain ⟨lowest, isLowest⟩ := Option.ne_none_iff_exists'.mp
    (mt List.argmin_eq_none.mp given : points.argmin CurvePoint.y ≠ none)
  obtain ⟨highest, isHighest⟩ := Option.ne_none_iff_exists'.mp
    (mt List.argmax_eq_none.mp given : points.argmax CurvePoint.y ≠ none)
  exact ⟨lowest, List.argmin_mem isLowest, highest, List.argmax_mem isHighest, fun p member =>
    ⟨List.le_of_mem_argmin member isLowest, List.le_of_mem_argmax member isHighest⟩⟩

section Sorted

variable {points : List (CurvePoint ℚ)} (given : points ≠ [])
include given

theorem exists_ends : ∃ first last, (sortCurve points).head? = some first ∧
    (sortCurve points).getLast? = some last := by
  have occupied : sortCurve points ≠ [] := fun none =>
    given (List.nil_perm.mp (none ▸ sortCurve_perm points))
  exact ⟨_, _, List.head?_eq_some_head occupied, List.getLast?_eq_some_getLast occupied⟩

/-- The score lies between the lowest and the highest point. -/
theorem score_between (v : ℚ) : ∃ lowest ∈ points, ∃ highest ∈ points,
    (∀ p ∈ points, lowest.y ≤ p.y ∧ p.y ≤ highest.y) ∧
      lowest.y ≤ curveScore (sortCurve points) v ∧ curveScore (sortCurve points) v ≤ highest.y := by
  obtain ⟨lowest, isLowest, highest, isHighest, extreme⟩ := exists_extremes given
  obtain ⟨first, last, head, behind⟩ := exists_ends given
  have held (p : CurvePoint ℚ) (member : p ∈ sortCurve points) :
      lowest.y ≤ p.y ∧ p.y ≤ highest.y := extreme p ((sortCurve_perm points).mem_iff.mp member)
  refine ⟨lowest, isLowest, highest, isHighest, extreme, ?_⟩
  rw [curveScore_eq]
  rcases curveReturn_cases head behind v with
    ⟨_, reached⟩ | ⟨_, _, reached⟩ | ⟨_, _, a, b, reached, inside, low, high⟩
  · rw [reached]
    exact held first (List.mem_of_mem_head? head)
  · rw [reached]
    exact held last (List.mem_of_mem_getLast? behind)
  · obtain ⟨lowA, highA⟩ := held a (inside.subset List.mem_cons_self)
    obtain ⟨lowB, highB⟩ := held b (inside.subset (List.mem_cons_of_mem a List.mem_cons_self))
    have width : 0 < b.x - a.x := sub_pos.mpr (lt_of_lt_of_le low high)
    have nonneg : 0 ≤ (v - a.x) / (b.x - a.x) := div_nonneg (sub_nonneg.mpr low.le) width.le
    have atMost : (v - a.x) / (b.x - a.x) ≤ 1 :=
      (div_le_one width).mpr (sub_le_sub_right high a.x)
    rw [reached, CurveReturn.score, divisor_of_lt (lt_of_lt_of_le low high)]
    exact ⟨le_partway lowA lowB nonneg atMost, partway_le highA highB nonneg atMost⟩

end Sorted

/-- Of the points of a curve, in any order and with any of them above each other, a sorted
rearrangement is made, and the score at a value is taken from its first point, its last point
or the segment that reaches the value. -/
theorem curveExact_sortCurve {points : List (CurvePoint ℚ)} (given : points ≠ []) :
    CurveExact points (sortCurve points) := by
  obtain ⟨first, last, head, behind⟩ := exists_ends given
  have cases := curveReturn_cases head behind
  constructor
  · exact sortCurve_perm _
  · exact sortCurve_ascending _
  · intro p v isFirst low
    obtain rfl := Option.some.inj (head.symm.trans isFirst)
    rcases cases v with ⟨_, reached⟩ | ⟨above, _⟩ | ⟨above, _⟩
    · rw [curveScore_eq, reached, CurveReturn.score]
    · exact absurd low (not_le.mpr above)
    · exact absurd low (not_le.mpr above)
  · intro p q v isFirst isLast above high
    obtain rfl := Option.some.inj (head.symm.trans isFirst)
    obtain rfl := Option.some.inj (behind.symm.trans isLast)
    rcases cases v with ⟨low, _⟩ | ⟨_, _, reached⟩ | ⟨_, below, _⟩
    · exact absurd low (not_le.mpr above)
    · rw [curveScore_eq, reached, CurveReturn.score]
    · exact absurd high (not_le.mpr below)
  · intro p q v isFirst isLast above below
    obtain rfl := Option.some.inj (head.symm.trans isFirst)
    obtain rfl := Option.some.inj (behind.symm.trans isLast)
    rcases cases v with ⟨low, _⟩ | ⟨_, high, _⟩ | ⟨_, _, a, b, reached, inside, low, reaches⟩
    · exact absurd low (not_le.mpr above)
    · exact absurd high (not_le.mpr below)
    · refine ⟨a, b, inside, low.le, reaches, ?_⟩
      rw [curveScore_eq, reached, CurveReturn.score, divisor_of_lt (lt_of_lt_of_le low reaches)]
  · exact score_between given
  · intro v a b returned
    rcases cases v with ⟨_, reached⟩ | ⟨_, _, reached⟩ | ⟨_, _, c, d, reached, _, low, reaches⟩
    · rw [reached] at returned
      cases returned
    · rw [reached] at returned
      cases returned
    · rw [reached] at returned
      obtain ⟨rfl, rfl⟩ := CurveReturn.segment.inj returned
      have apart := lt_of_lt_of_le low reaches
      exact ⟨divisor_of_lt apart, sub_ne_zero.mpr apart.ne'⟩
  · intro v
    rcases cases v with ⟨_, reached⟩ | ⟨_, _, reached⟩ | ⟨_, _, c, d, reached, _⟩
    all_goals
      rw [reached]
      exact ⟨nofun, nofun⟩

/-! ### The curves of the tables -/

namespace Binary64

/-- The value of a finite number. -/
def value (v : Binary64) : ℚ := (if v.isNegative then -(v.scaled : ℤ) else v.scaled : ℤ) / 2 ^ 1074

theorem scaled_lt_of_lt {v w : Binary64} (less : v.magnitude < w.magnitude) :
    v.scaled < w.scaled := by
  have fractionV := v.fraction_lt
  have fractionW := w.fraction_lt
  rw [magnitude_eq, magnitude_eq] at less
  unfold scaled
  split_ifs with lowestV lowestW lowestW
  · rw [lowestV, lowestW] at less
    omega
  · exact lt_of_lt_of_le (by omega : v.fraction < 2 ^ 52 + w.fraction)
      (Nat.le_mul_of_pos_right _ (by positivity))
  · omega
  · rcases Nat.lt_or_eq_of_le (by omega : v.exponent ≤ w.exponent) with lower | same
    · obtain ⟨gap, equal⟩ := Nat.exists_eq_add_of_lt lower
      have wider : w.exponent - 1 = v.exponent - 1 + 1 + gap := by omega
      have powers : 0 < 2 ^ (v.exponent - 1) := by positivity
      calc (2 ^ 52 + v.fraction) * 2 ^ (v.exponent - 1)
          < 2 ^ 53 * 2 ^ (v.exponent - 1) := Nat.mul_lt_mul_of_pos_right (by omega) powers
        _ = 2 ^ 52 * 2 ^ (v.exponent - 1 + 1) := by ring
        _ ≤ (2 ^ 52 + w.fraction) * 2 ^ (w.exponent - 1) :=
          Nat.mul_le_mul (Nat.le_add_right _ _) (Nat.pow_le_pow_right (by decide) (by omega))
    · rw [same] at less ⊢
      exact Nat.mul_lt_mul_of_pos_right (by omega) (by positivity)

theorem scaled_lt_iff {v w : Binary64} : v.scaled < w.scaled ↔ v.magnitude < w.magnitude := by
  refine ⟨fun less => ?_, scaled_lt_of_lt⟩
  by_contra above
  rcases Nat.lt_or_eq_of_le (not_lt.mp above) with more | same
  · exact absurd (scaled_lt_of_lt more) (not_lt.mpr less.le)
  · exact absurd (scaled_congr same) less.ne'

theorem scaled_eq_zero_iff {v : Binary64} : v.scaled = 0 ↔ v.magnitude = 0 := by
  refine ⟨magnitude_of_scaled_zero, fun nothing => ?_⟩
  exact (scaled_congr (nothing.trans rfl : v.magnitude = zero.magnitude)).trans rfl

theorem isNan_of_isFinite {v : Binary64} (finite : v.isFinite = true) : v.isNan = false :=
  decide_eq_false (not_lt.mpr (of_decide_eq_true finite).le)

/-- Finite numbers are compared by their values. -/
theorem lt_iff_value {v w : Binary64} (finiteV : v.isFinite = true) (finiteW : w.isFinite = true) :
    v.lt w = true ↔ v.value < w.value := by
  have less := @scaled_lt_iff v w
  have more := @scaled_lt_iff w v
  have zeroV := @scaled_eq_zero_iff v
  have zeroW := @scaled_eq_zero_iff w
  unfold value
  rw [lt, isNan_of_isFinite finiteV, isNan_of_isFinite finiteW, Bool.not_false, Bool.true_and,
    Bool.true_and, decide_eq_true_iff, div_lt_div_iff_of_pos_right (by positivity), Int.cast_lt, order,
    order]
  split_ifs <;> omega

end Binary64

/-- The exact values of some points. -/
def exactPoints (points : List PlanPoint) : List (CurvePoint ℚ) :=
  points.map fun p => ⟨p.x.value, p.y.value⟩

/-- A new utility holds the curve of the points that were given, sorted by their values. -/
theorem curve_of_newUtility {given : FleeceGoapUtilityDef} {u : PlanUtility CString}
    (made : newUtility given = some u) (finite : ∀ p ∈ given.points, p.x.isFinite = true)
    {reader : ScoreReader ℚ} (exact : reader.number = Binary64.value) :
    u.curve reader = sortCurve (exactPoints given.points) := by
  simp only [newUtility, Option.bind_eq_bind, Option.bind_eq_some_iff, Option.some.injEq] at made
  obtain ⟨_, _, _, _, _, _, rfl⟩ := made
  simp only [PlanUtility.curve, exact]
  refine (InsertionSort.sort_map fun first firstMember second secondMember => ?_).symm
  rw [Bool.eq_iff_iff, decide_eq_true_iff, PlanPoint.standsAfter,
    Binary64.lt_iff_value (finite second secondMember) (finite first firstMember)]

/-- Every curve with a point is exact, and so is the curve of a new utility whose points are finite
and have these values. -/
theorem curve_interpolates (point : CurvePoint ℚ) (others : List (CurvePoint ℚ)) :
    CurveExact (point :: others) (sortCurve (point :: others)) ∧
      ∀ (given : FleeceGoapUtilityDef) (u : PlanUtility CString) (reader : ScoreReader ℚ),
        newUtility given = some u → (∀ p ∈ given.points, p.x.isFinite = true) →
        reader.number = Binary64.value → exactPoints given.points = point :: others →
        CurveExact (point :: others) (u.curve reader) := by
  have exact := curveExact_sortCurve (List.cons_ne_nil point others)
  refine ⟨exact, fun given u reader made finite reads values => ?_⟩
  rw [curve_of_newUtility made finite reads, values]
  exact exact

/-- Two points above each other: at their place the score is that of the first, and not that of the
last, though the value is also at the largest x. -/
theorem vertical_curve_first :
    sortCurve [(⟨0, 1⟩ : CurvePoint ℚ), ⟨0, 2⟩] = [⟨0, 1⟩, ⟨0, 2⟩] ∧
      curveScore [(⟨0, 1⟩ : CurvePoint ℚ), ⟨0, 2⟩] 0 = 1 ∧
      ¬ ∀ (points : List (CurvePoint ℚ)) (last : CurvePoint ℚ) (v : ℚ),
        (sortCurve points).getLast? = some last → last.x ≤ v →
          curveScore (sortCurve points) v = last.y := by
  have sorted : sortCurve [(⟨0, 1⟩ : CurvePoint ℚ), ⟨0, 2⟩] = [⟨0, 1⟩, ⟨0, 2⟩] :=
    InsertionSort.sort_of_sorted (List.pairwise_pair.mpr (decide_eq_false (lt_irrefl 0)))
  have score : curveScore [(⟨0, 1⟩ : CurvePoint ℚ), ⟨0, 2⟩] 0 = 1 := by decide +kernel
  refine ⟨sorted, score, fun all => ?_⟩
  have last := all [⟨0, 1⟩, ⟨0, 2⟩] ⟨0, 2⟩ 0 (by rw [sorted]; rfl) le_rfl
  rw [sorted, score] at last
  exact absurd last (by decide)

end Fleece
