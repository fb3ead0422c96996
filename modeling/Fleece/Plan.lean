/-
This file models the tables of a `FleeceGoap` and the calls that fill them: the
actions, goals, utility curves and missions of a plan, as `fleece_goap_add_*` of
`fleece_planner.c` registers them. A plan is one shape over its texts, since the
definitions a caller passes hold pointers that may be NULL, the tables hold the
contents of arrays, and the editor holds strings.

Tables carry the bounds of the arrays they are kept in, so no text in them is longer
than its array. Allocation is taken to succeed; a call that does not return is
`none`, which is the case where the doubling in `ensure_cap` wraps at 2^32, and the
case of more curve points than the sort's signed index can count.
-/

import Fleece.Binary64
import Fleece.InsertionSort
import Fleece.StateManager

namespace Fleece

/-! ### Plans -/

/-- `GoapAction`, with the arrays of preconditions and effects as lists. -/
structure PlanAction (Text : Type) where
  id : Text
  name : Text
  cost : Text
  dest : Text
  dur : Binary64
  exec : Text
  pre : List Text
  eff : List Text
  deriving DecidableEq

/-- `GoapGoal`: its satisfaction source, its base priority and the id of its curve. -/
structure PlanGoal (Text : Type) where
  id : Text
  name : Text
  expr : Text
  priority : Binary64
  curveId : Text
  deriving DecidableEq

/-- `FleeceGoapPoint`. -/
structure PlanPoint where
  x : Binary64
  y : Binary64
  deriving DecidableEq

/-- `GoapUtility`: a curve over one field of the world, by its points. -/
structure PlanUtility (Text : Type) where
  id : Text
  name : Text
  dim : Text
  xMin : Binary64
  xMax : Binary64
  points : List PlanPoint
  deriving DecidableEq

/-- `GoapMission`. -/
structure PlanMission (Text : Type) where
  id : Text
  name : Text
  goalIds : List Text
  note : Text
  deriving DecidableEq

/-- What a plan blob carries: the name of the `FleeceGoap` and its four tables. -/
structure Plan (Text : Type) where
  name : Text
  actions : List (PlanAction Text)
  goals : List (PlanGoal Text)
  utilities : List (PlanUtility Text)
  missions : List (PlanMission Text)
  deriving DecidableEq

variable {Text Other : Type} (text : Text → Other) (number : Binary64 → Binary64)

/-- The action with another form of its texts and its numbers. -/
def PlanAction.map (a : PlanAction Text) : PlanAction Other where
  id := text a.id
  name := text a.name
  cost := text a.cost
  dest := text a.dest
  dur := number a.dur
  exec := text a.exec
  pre := a.pre.map text
  eff := a.eff.map text

/-- The goal with another form of its texts and its numbers. -/
def PlanGoal.map (g : PlanGoal Text) : PlanGoal Other where
  id := text g.id
  name := text g.name
  expr := text g.expr
  priority := number g.priority
  curveId := text g.curveId

/-- The point with another form of its numbers. -/
def PlanPoint.map (p : PlanPoint) : PlanPoint := ⟨number p.x, number p.y⟩

theorem map_points_id (points : List PlanPoint) : points.map (PlanPoint.map id) = points :=
  List.map_id points

/-- The curve with another form of its texts and its numbers, in each of its points too. -/
def PlanUtility.map (u : PlanUtility Text) : PlanUtility Other where
  id := text u.id
  name := text u.name
  dim := text u.dim
  xMin := number u.xMin
  xMax := number u.xMax
  points := u.points.map (PlanPoint.map number)

/-- The mission with another form of its texts. -/
def PlanMission.map (m : PlanMission Text) : PlanMission Other where
  id := text m.id
  name := text m.name
  goalIds := m.goalIds.map text
  note := text m.note

/-- The plan with another form of its texts and its numbers. -/
def Plan.map (plan : Plan Text) : Plan Other where
  name := text plan.name
  actions := plan.actions.map (PlanAction.map text number)
  goals := plan.goals.map (PlanGoal.map text number)
  utilities := plan.utilities.map (PlanUtility.map text number)
  missions := plan.missions.map (PlanMission.map text)

/-- The texts of a plan and its numbers meet a condition each. -/
structure PlanAction.Every (text : Text → Prop) (number : Binary64 → Prop) (a : PlanAction Text) :
    Prop where
  id : text a.id
  name : text a.name
  cost : text a.cost
  dest : text a.dest
  dur : number a.dur
  exec : text a.exec
  pre : ∀ t ∈ a.pre, text t
  eff : ∀ t ∈ a.eff, text t

/-- Every text of the goal meets one condition, and its priority another. -/
structure PlanGoal.Every (text : Text → Prop) (number : Binary64 → Prop) (g : PlanGoal Text) :
    Prop where
  id : text g.id
  name : text g.name
  expr : text g.expr
  priority : number g.priority
  curveId : text g.curveId

/-- Both coordinates of the point meet a condition. -/
structure PlanPoint.Every (number : Binary64 → Prop) (p : PlanPoint) : Prop where
  x : number p.x
  y : number p.y

/-- Every text of the curve meets one condition, its range and its points another. -/
structure PlanUtility.Every (text : Text → Prop) (number : Binary64 → Prop) (u : PlanUtility Text) :
    Prop where
  id : text u.id
  name : text u.name
  dim : text u.dim
  xMin : number u.xMin
  xMax : number u.xMax
  points : ∀ p ∈ u.points, p.Every number

/-- Every text of the mission meets a condition, the ids of its goals included. -/
structure PlanMission.Every (text : Text → Prop) (m : PlanMission Text) : Prop where
  id : text m.id
  name : text m.name
  goalIds : ∀ t ∈ m.goalIds, text t
  note : text m.note

/-- Every text of the plan meets one condition and every number of it another. -/
structure Plan.Every (text : Text → Prop) (number : Binary64 → Prop) (plan : Plan Text) : Prop where
  name : text plan.name
  actions : ∀ a ∈ plan.actions, a.Every text number
  goals : ∀ g ∈ plan.goals, g.Every text number
  utilities : ∀ u ∈ plan.utilities, u.Every text number
  missions : ∀ m ∈ plan.missions, m.Every text

/-- Weaker conditions on the texts and the numbers. -/
theorem Plan.Every.mono {isText isText' : Text → Prop} {isNumber isNumber' : Binary64 → Prop}
    {plan : Plan Text} (every : plan.Every isText isNumber) (texts : ∀ t, isText t → isText' t)
    (numbers : ∀ v, isNumber v → isNumber' v) : plan.Every isText' isNumber' where
  name := texts _ every.name
  actions a member := by
    obtain ⟨id, name, cost, dest, dur, exec, pre, eff⟩ := every.actions a member
    exact ⟨texts _ id, texts _ name, texts _ cost, texts _ dest, numbers _ dur, texts _ exec,
      fun t held => texts _ (pre t held), fun t held => texts _ (eff t held)⟩
  goals g member := by
    obtain ⟨id, name, expr, priority, curveId⟩ := every.goals g member
    exact ⟨texts _ id, texts _ name, texts _ expr, numbers _ priority, texts _ curveId⟩
  utilities u member := by
    obtain ⟨id, name, dim, xMin, xMax, points⟩ := every.utilities u member
    exact ⟨texts _ id, texts _ name, texts _ dim, numbers _ xMin, numbers _ xMax,
      fun p held => ⟨numbers _ (points p held).x, numbers _ (points p held).y⟩⟩
  missions m member := by
    obtain ⟨id, name, goalIds, note⟩ := every.missions m member
    exact ⟨texts _ id, texts _ name, fun t held => texts _ (goalIds t held), texts _ note⟩

/-- Two conditions on the texts and two on the numbers. -/
theorem Plan.Every.and {isText isText' : Text → Prop} {isNumber isNumber' : Binary64 → Prop}
    {plan : Plan Text} (first : plan.Every isText isNumber) (second : plan.Every isText' isNumber') :
    plan.Every (fun t => isText t ∧ isText' t) (fun v => isNumber v ∧ isNumber' v) where
  name := ⟨first.name, second.name⟩
  actions a member := by
    obtain ⟨id, name, cost, dest, dur, exec, pre, eff⟩ := first.actions a member
    obtain ⟨id', name', cost', dest', dur', exec', pre', eff'⟩ := second.actions a member
    exact ⟨⟨id, id'⟩, ⟨name, name'⟩, ⟨cost, cost'⟩, ⟨dest, dest'⟩, ⟨dur, dur'⟩, ⟨exec, exec'⟩,
      fun t held => ⟨pre t held, pre' t held⟩, fun t held => ⟨eff t held, eff' t held⟩⟩
  goals g member := by
    obtain ⟨id, name, expr, priority, curveId⟩ := first.goals g member
    obtain ⟨id', name', expr', priority', curveId'⟩ := second.goals g member
    exact ⟨⟨id, id'⟩, ⟨name, name'⟩, ⟨expr, expr'⟩, ⟨priority, priority'⟩, ⟨curveId, curveId'⟩⟩
  utilities u member := by
    obtain ⟨id, name, dim, xMin, xMax, points⟩ := first.utilities u member
    obtain ⟨id', name', dim', xMin', xMax', points'⟩ := second.utilities u member
    exact ⟨⟨id, id'⟩, ⟨name, name'⟩, ⟨dim, dim'⟩, ⟨xMin, xMin'⟩, ⟨xMax, xMax'⟩, fun p held =>
      ⟨⟨(points p held).x, (points' p held).x⟩, ⟨(points p held).y, (points' p held).y⟩⟩⟩
  missions m member := by
    obtain ⟨id, name, goalIds, note⟩ := first.missions m member
    obtain ⟨id', name', goalIds', note'⟩ := second.missions m member
    exact ⟨⟨id, id'⟩, ⟨name, name'⟩, fun t held => ⟨goalIds t held, goalIds' t held⟩, ⟨note, note'⟩⟩

/-- A form of a form of a plan. -/
theorem Plan.map_map {First Second Third : Type} (first : First → Second) (second : Second → Third)
    (number other : Binary64 → Binary64) (plan : Plan First) :
    (plan.map first number).map second other = plan.map (second ∘ first) (other ∘ number) := by
  have actions : PlanAction.map second other ∘ PlanAction.map first number =
      PlanAction.map (second ∘ first) (other ∘ number) := by
    funext a
    simp only [Function.comp_apply, PlanAction.map, List.map_map]
  have goals : PlanGoal.map second other ∘ PlanGoal.map first number =
      PlanGoal.map (second ∘ first) (other ∘ number) := rfl
  have points : PlanPoint.map other ∘ PlanPoint.map number = PlanPoint.map (other ∘ number) := rfl
  have utilities : PlanUtility.map second other ∘ PlanUtility.map first number =
      PlanUtility.map (second ∘ first) (other ∘ number) := by
    funext u
    simp only [Function.comp_apply, PlanUtility.map, List.map_map, points]
  have missions : PlanMission.map second ∘ PlanMission.map first =
      PlanMission.map (second ∘ first) := by
    funext m
    simp only [Function.comp_apply, PlanMission.map, List.map_map]
  simp only [Plan.map, List.map_map, actions, goals, utilities, missions, Function.comp_apply]

section Congr

variable {text other : Text → Other} {number otherNumber : Binary64 → Binary64}
  {isText : Text → Prop} {isNumber : Binary64 → Prop}
  (texts : ∀ t, isText t → text t = other t)
  (numbers : ∀ v, isNumber v → number v = otherNumber v)
include texts

theorem map_texts_congr {list : List Text} (every : ∀ t ∈ list, isText t) :
    list.map text = list.map other :=
  List.map_congr_left fun t member => texts t (every t member)

theorem PlanMission.map_congr {m : PlanMission Text} (every : m.Every isText) :
    m.map text = m.map other := by
  rw [PlanMission.map, PlanMission.map, texts _ every.id, texts _ every.name,
    map_texts_congr texts every.goalIds, texts _ every.note]

include numbers

theorem PlanAction.map_congr {a : PlanAction Text} (every : a.Every isText isNumber) :
    a.map text number = a.map other otherNumber := by
  rw [PlanAction.map, PlanAction.map, texts _ every.id, texts _ every.name, texts _ every.cost,
    texts _ every.dest, numbers _ every.dur, texts _ every.exec, map_texts_congr texts every.pre,
    map_texts_congr texts every.eff]

theorem PlanGoal.map_congr {g : PlanGoal Text} (every : g.Every isText isNumber) :
    g.map text number = g.map other otherNumber := by
  rw [PlanGoal.map, PlanGoal.map, texts _ every.id, texts _ every.name, texts _ every.expr,
    numbers _ every.priority, texts _ every.curveId]

theorem PlanUtility.map_congr {u : PlanUtility Text} (every : u.Every isText isNumber) :
    u.map text number = u.map other otherNumber := by
  have points : u.points.map (PlanPoint.map number) = u.points.map (PlanPoint.map otherNumber) := by
    refine List.map_congr_left fun p member => ?_
    rw [PlanPoint.map, PlanPoint.map, numbers _ (every.points p member).x,
      numbers _ (every.points p member).y]
  rw [PlanUtility.map, PlanUtility.map, texts _ every.id, texts _ every.name, texts _ every.dim,
    numbers _ every.xMin, numbers _ every.xMax, points]

/-- Two forms of a plan are the same when they agree on its texts and its numbers. -/
theorem Plan.map_congr {plan : Plan Text} (every : plan.Every isText isNumber) :
    plan.map text number = plan.map other otherNumber := by
  rw [Plan.map, Plan.map, texts _ every.name,
    List.map_congr_left fun a member => PlanAction.map_congr texts numbers (every.actions a member),
    List.map_congr_left fun g member => PlanGoal.map_congr texts numbers (every.goals g member),
    List.map_congr_left fun u member =>
      PlanUtility.map_congr texts numbers (every.utilities u member),
    List.map_congr_left fun m member => PlanMission.map_congr texts (every.missions m member)]

end Congr

/-- Two forms of a plan that are the same agree on its texts and its numbers. -/
theorem Plan.every_of_map_eq {text other : Text → Other} {number otherNumber : Binary64 → Binary64}
    {plan : Plan Text} (same : plan.map text number = plan.map other otherNumber) :
    plan.Every (fun t => text t = other t) (fun v => number v = otherNumber v) := by
  simp only [Plan.map, Plan.mk.injEq, List.map_inj_left] at same
  obtain ⟨name, actions, goals, utilities, missions⟩ := same
  constructor
  case name => exact name
  case actions =>
    intro a member
    have fields := actions a member
    simp only [PlanAction.map, PlanAction.mk.injEq, List.map_inj_left] at fields
    obtain ⟨id, name, cost, dest, dur, exec, pre, eff⟩ := fields
    exact ⟨id, name, cost, dest, dur, exec, pre, eff⟩
  case goals =>
    intro g member
    have fields := goals g member
    simp only [PlanGoal.map, PlanGoal.mk.injEq] at fields
    obtain ⟨id, name, expr, priority, curveId⟩ := fields
    exact ⟨id, name, expr, priority, curveId⟩
  case utilities =>
    intro u member
    have fields := utilities u member
    simp only [PlanUtility.map, PlanUtility.mk.injEq, List.map_inj_left, PlanPoint.map,
      PlanPoint.mk.injEq] at fields
    obtain ⟨id, name, dim, xMin, xMax, points⟩ := fields
    exact ⟨id, name, dim, xMin, xMax, fun p held => ⟨(points p held).1, (points p held).2⟩⟩
  case missions =>
    intro m member
    have fields := missions m member
    simp only [PlanMission.map, PlanMission.mk.injEq, List.map_inj_left] at fields
    obtain ⟨id, name, goalIds, note⟩ := fields
    exact ⟨id, name, goalIds, note⟩

/-- A condition on the numbers of a plan does not depend on the form of its texts. -/
theorem Plan.every_map_iff {text : Text → Other} {isNumber : Binary64 → Prop} {plan : Plan Text} :
    (plan.map text id).Every (fun _ => True) isNumber ↔ plan.Every (fun _ => True) isNumber := by
  constructor
  · intro every
    have actions := List.forall_mem_map.mp every.actions
    have goals := List.forall_mem_map.mp every.goals
    have utilities := List.forall_mem_map.mp every.utilities
    constructor
    case name => exact trivial
    case actions =>
      exact fun a member => ⟨trivial, trivial, trivial, trivial, (actions a member).dur, trivial,
        fun _ _ => trivial, fun _ _ => trivial⟩
    case goals =>
      exact fun g member => ⟨trivial, trivial, trivial, (goals g member).priority, trivial⟩
    case utilities =>
      intro u member
      have points := (utilities u member).points
      rw [PlanUtility.map, map_points_id] at points
      exact ⟨trivial, trivial, trivial, (utilities u member).xMin, (utilities u member).xMax, points⟩
    case missions => exact fun _ _ => ⟨trivial, trivial, fun _ _ => trivial, trivial⟩
  · intro every
    constructor
    case name => exact trivial
    case actions =>
      refine List.forall_mem_map.mpr fun a member => ?_
      exact ⟨trivial, trivial, trivial, trivial, (every.actions a member).dur, trivial,
        fun _ _ => trivial, fun _ _ => trivial⟩
    case goals =>
      refine List.forall_mem_map.mpr fun g member => ?_
      exact ⟨trivial, trivial, trivial, (every.goals g member).priority, trivial⟩
    case utilities =>
      refine List.forall_mem_map.mpr fun u member => ?_
      have points := (every.utilities u member).points
      rw [← map_points_id u.points] at points
      exact ⟨trivial, trivial, trivial, (every.utilities u member).xMin,
        (every.utilities u member).xMax, points⟩
    case missions =>
      refine List.forall_mem_map.mpr fun m member => ?_
      exact ⟨trivial, trivial, fun _ _ => trivial, trivial⟩

/-- All numbers of a plan are finite. -/
def Plan.IsFinite (plan : Plan Text) : Prop :=
  plan.Every (fun _ => True) fun v => v.isFinite = true

/-! ### Tables -/

/-- `FLEECE_GOAP_NAME_MAX`, the same as that of a field name. -/
abbrev goapNameMax : Nat := fieldNameMax

/-- `FLEECE_GOAP_SOURCE_MAX`, the array that holds the source of a script function. -/
abbrev goapSourceMax : Nat := 2048

/-- `FLEECE_GOAP_NOTE_MAX`. -/
abbrev goapNoteMax : Nat := 128

/-- The most elements `ensure_cap` makes room for. -/
abbrev goapTableMax : Nat := 2 ^ 31

namespace CString

theorem noNul_nil : (0 : UInt8) ∉ ([] : List UInt8) := List.not_mem_nil

/-- The empty string. -/
def empty : CString := ⟨[], noNul_nil⟩

/-- The text is kept in an array of this many bytes. -/
def FitsIn (size : Nat) (text : CString) : Prop := text.chars.length < size

instance (size : Nat) (text : CString) : Decidable (text.FitsIn size) :=
  inferInstanceAs (Decidable (text.chars.length < size))

end CString

/-- `points[j].x > points[i].x`, the test of the sort. -/
def PlanPoint.standsAfter (first second : PlanPoint) : Bool := second.x.lt first.x

/-- The insertion sort of `fleece_goap_add_utility`. -/
def sortPoints (points : List PlanPoint) : List PlanPoint :=
  InsertionSort.sort PlanPoint.standsAfter points

/-- Ascending by x. -/
def SortedByX (points : List PlanPoint) : Prop := InsertionSort.Sorted PlanPoint.standsAfter points

/-- What the arrays and counters of a `GoapAction` can hold. -/
structure PlanAction.Fits (a : PlanAction CString) : Prop where
  id : a.id.FitsIn goapNameMax
  name : a.name.FitsIn goapNameMax
  cost : a.cost.FitsIn goapSourceMax
  exec : a.exec.FitsIn goapSourceMax
  dest : a.dest.FitsIn goapNameMax
  preCount : a.pre.length < 2 ^ 32
  effCount : a.eff.length < 2 ^ 32

/-- What the arrays of a `GoapGoal` can hold. -/
structure PlanGoal.Fits (g : PlanGoal CString) : Prop where
  id : g.id.FitsIn goapNameMax
  name : g.name.FitsIn goapNameMax
  expr : g.expr.FitsIn goapSourceMax
  curveId : g.curveId.FitsIn goapNameMax

/-- The points are sorted where their places are numbers. -/
structure PlanUtility.Fits (u : PlanUtility CString) : Prop where
  id : u.id.FitsIn goapNameMax
  name : u.name.FitsIn goapNameMax
  dim : u.dim.FitsIn goapNameMax
  pointCount : u.points.length ≤ 2 ^ 31
  sorted : (∀ p ∈ u.points, p.x.isNan = false) → SortedByX u.points

/-- What the arrays and the goal counter of a `GoapMission` can hold. -/
structure PlanMission.Fits (m : PlanMission CString) : Prop where
  id : m.id.FitsIn goapNameMax
  name : m.name.FitsIn goapNameMax
  note : m.note.FitsIn goapNoteMax
  goalCount : m.goalIds.length < 2 ^ 32

/-- What a `FleeceGoap` can hold: rows that fit, in tables that `ensure_cap` made room for. -/
structure Plan.Fits (plan : Plan CString) : Prop where
  name : plan.name.FitsIn goapNameMax
  actionCount : plan.actions.length ≤ goapTableMax
  actions : ∀ a ∈ plan.actions, a.Fits
  goalCount : plan.goals.length ≤ goapTableMax
  goals : ∀ g ∈ plan.goals, g.Fits
  utilityCount : plan.utilities.length ≤ goapTableMax
  utilities : ∀ u ∈ plan.utilities, u.Fits
  missionCount : plan.missions.length ≤ goapTableMax
  missions : ∀ m ∈ plan.missions, m.Fits

/-- The name and the four tables of a `FleeceGoap`. -/
structure GoapTables extends Plan CString where
  fits : toPlan.Fits

/-- The tables that `fleece_goap_create` and `fleece_goap_reset` leave. -/
def GoapTables.empty : GoapTables where
  name := .empty
  actions := []
  goals := []
  utilities := []
  missions := []
  fits := by
    constructor
    all_goals first | decide | exact fun _ member => absurd member List.not_mem_nil

/-! ### Definitions of the caller -/

/-- A definition as it is passed: a text that is NULL is `none`, and an array that is NULL has no
elements. -/
structure FleeceGoapActionDef extends PlanAction (Option CString) where
  preCount : pre.length < 2 ^ 32
  effCount : eff.length < 2 ^ 32

/-- `FleeceGoapGoalDef`, with its texts as pointers that may be NULL. -/
abbrev FleeceGoapGoalDef := PlanGoal (Option CString)

/-- `FleeceGoapUtilityDef`, whose number of points is a `uint32_t`. -/
structure FleeceGoapUtilityDef extends PlanUtility (Option CString) where
  pointCount : points.length < 2 ^ 32

/-- `FleeceGoapMissionDef`, whose number of goal ids is a `uint32_t`. -/
structure FleeceGoapMissionDef extends PlanMission (Option CString) where
  goalCount : goalIds.length < 2 ^ 32

theorem FleeceGoapActionDef.ext {first second : FleeceGoapActionDef}
    (same : first.toPlanAction = second.toPlanAction) : first = second := by
  cases first
  cases second
  cases same
  rfl

theorem FleeceGoapUtilityDef.ext {first second : FleeceGoapUtilityDef}
    (same : first.toPlanUtility = second.toPlanUtility) : first = second := by
  cases first
  cases second
  cases same
  rfl

theorem FleeceGoapMissionDef.ext {first second : FleeceGoapMissionDef}
    (same : first.toPlanMission = second.toPlanMission) : first = second := by
  cases first
  cases second
  cases same
  rfl

/-- `copy_str` into an array of this size, where it returns 0. -/
def copyStr (size : Nat) (src : Option CString) : Option CString :=
  if (src.getD .empty).FitsIn size then some (src.getD .empty) else none

/-- `dup_str`: a copy of any length, the empty string of NULL. -/
def dupStr (src : Option CString) : CString := src.getD .empty

theorem fitsIn_of_copyStr {size : Nat} {src : Option CString} {dst : CString}
    (copied : copyStr size src = some dst) : dst.FitsIn size := by
  unfold copyStr at copied
  split_ifs at copied with fits
  rwa [← Option.some.inj copied]

/-! ### Registration -/

/-- The row that `fleece_goap_add_action` fills in, where every text fits its array. -/
def newAction (given : FleeceGoapActionDef) : Option (PlanAction CString) := do
  let id ← copyStr goapNameMax given.id
  let name ← copyStr goapNameMax given.name
  let cost ← copyStr goapSourceMax given.cost
  let exec ← copyStr goapSourceMax given.exec
  let dest ← copyStr goapNameMax given.dest
  some {
    id := id
    name := name
    cost := cost
    dest := dest
    dur := given.dur
    exec := exec
    pre := given.pre.map dupStr
    eff := given.eff.map dupStr }

/-- The row that `fleece_goap_add_goal` fills in, where every text fits its array. -/
def newGoal (given : FleeceGoapGoalDef) : Option (PlanGoal CString) := do
  let id ← copyStr goapNameMax given.id
  let name ← copyStr goapNameMax given.name
  let expr ← copyStr goapSourceMax given.expr
  let curveId ← copyStr goapNameMax given.curveId
  some ⟨id, name, expr, given.priority, curveId⟩

/-- The row that `fleece_goap_add_utility` fills in, with its points sorted by x. -/
def newUtility (given : FleeceGoapUtilityDef) : Option (PlanUtility CString) := do
  let id ← copyStr goapNameMax given.id
  let name ← copyStr goapNameMax given.name
  let dim ← copyStr goapNameMax given.dim
  some ⟨id, name, dim, given.xMin, given.xMax, sortPoints given.points⟩

/-- The row that `fleece_goap_add_mission` fills in. -/
def newMission (given : FleeceGoapMissionDef) : Option (PlanMission CString) := do
  let id ← copyStr goapNameMax given.id
  let name ← copyStr goapNameMax given.name
  let note ← copyStr goapNoteMax given.note
  some ⟨id, name, given.goalIds.map dupStr, note⟩

theorem dupStr_of_copyStr {size : Nat} {src : Option CString} {dst : CString}
    (copied : copyStr size src = some dst) : dst = dupStr src := by
  unfold copyStr at copied
  split_ifs at copied
  exact (Option.some.inj copied).symm

theorem eq_of_newAction {given : FleeceGoapActionDef} {a : PlanAction CString}
    (made : newAction given = some a) : a = given.toPlanAction.map dupStr id := by
  simp only [newAction, Option.bind_eq_bind, Option.bind_eq_some_iff, Option.some.injEq] at made
  obtain ⟨_, id, _, name, _, cost, _, exec, _, dest, rfl⟩ := made
  rw [dupStr_of_copyStr id, dupStr_of_copyStr name, dupStr_of_copyStr cost,
    dupStr_of_copyStr exec, dupStr_of_copyStr dest]
  rfl

theorem eq_of_newGoal {given : FleeceGoapGoalDef} {g : PlanGoal CString}
    (made : newGoal given = some g) : g = given.map dupStr id := by
  simp only [newGoal, Option.bind_eq_bind, Option.bind_eq_some_iff, Option.some.injEq] at made
  obtain ⟨_, id, _, name, _, expr, _, curveId, rfl⟩ := made
  rw [dupStr_of_copyStr id, dupStr_of_copyStr name, dupStr_of_copyStr expr,
    dupStr_of_copyStr curveId]
  rfl

/-- The curve with its points sorted. -/
def PlanUtility.sorted (u : PlanUtility Text) : PlanUtility Text :=
  { u with points := sortPoints u.points }

/-- The plan with the points of its curves sorted. -/
def Plan.sorted (plan : Plan Text) : Plan Text :=
  { plan with utilities := plan.utilities.map PlanUtility.sorted }

theorem eq_of_newUtility {given : FleeceGoapUtilityDef} {u : PlanUtility CString}
    (made : newUtility given = some u) : u = (given.toPlanUtility.map dupStr id).sorted := by
  simp only [newUtility, Option.bind_eq_bind, Option.bind_eq_some_iff, Option.some.injEq] at made
  obtain ⟨_, id, _, name, _, dim, rfl⟩ := made
  rw [dupStr_of_copyStr id, dupStr_of_copyStr name, dupStr_of_copyStr dim, PlanUtility.sorted,
    PlanUtility.map, map_points_id]
  rfl

theorem eq_of_newMission {given : FleeceGoapMissionDef} {m : PlanMission CString}
    (made : newMission given = some m) : m = given.toPlanMission.map dupStr := by
  simp only [newMission, Option.bind_eq_bind, Option.bind_eq_some_iff, Option.some.injEq] at made
  obtain ⟨_, id, _, name, _, note, rfl⟩ := made
  rw [dupStr_of_copyStr id, dupStr_of_copyStr name, dupStr_of_copyStr note]
  rfl

theorem standsAfter_oneWay (first second : PlanPoint)
    (after : first.standsAfter second = true) : second.standsAfter first = false := by
  unfold PlanPoint.standsAfter Binary64.lt at *
  rw [Bool.and_eq_true, decide_eq_true_iff] at after
  rw [decide_eq_false (by omega), Bool.and_false]

theorem standsAfter_notAfter (first second third : PlanPoint) (number : second.x.isNan = false)
    (left : first.standsAfter second = false) (right : second.standsAfter third = false) :
    first.standsAfter third = false := by
  unfold PlanPoint.standsAfter Binary64.lt at *
  rw [number] at left right
  cases firstNan : first.x.isNan
  · cases thirdNan : third.x.isNan
    · rw [firstNan] at left
      rw [thirdNan] at right
      have leftLe := of_decide_eq_false left
      have rightLe := of_decide_eq_false right
      exact decide_eq_false (by omega)
    · rfl
  · rw [Bool.not_true, Bool.and_false]
    rfl

theorem sortPoints_sorted {points : List PlanPoint} (numbers : ∀ p ∈ points, p.x.isNan = false) :
    SortedByX (sortPoints points) :=
  InsertionSort.sort_sorted standsAfter_oneWay standsAfter_notAfter numbers

theorem fits_of_newAction {given : FleeceGoapActionDef} {a : PlanAction CString}
    (made : newAction given = some a) : a.Fits := by
  simp only [newAction, Option.bind_eq_bind, Option.bind_eq_some_iff, Option.some.injEq] at made
  obtain ⟨_, id, _, name, _, cost, _, exec, _, dest, rfl⟩ := made
  exact ⟨fitsIn_of_copyStr id, fitsIn_of_copyStr name, fitsIn_of_copyStr cost,
    fitsIn_of_copyStr exec, fitsIn_of_copyStr dest, by simpa using given.preCount,
    by simpa using given.effCount⟩

theorem fits_of_newGoal {given : FleeceGoapGoalDef} {g : PlanGoal CString}
    (made : newGoal given = some g) : g.Fits := by
  simp only [newGoal, Option.bind_eq_bind, Option.bind_eq_some_iff, Option.some.injEq] at made
  obtain ⟨_, id, _, name, _, expr, _, curveId, rfl⟩ := made
  exact ⟨fitsIn_of_copyStr id, fitsIn_of_copyStr name, fitsIn_of_copyStr expr,
    fitsIn_of_copyStr curveId⟩

theorem fits_of_newUtility {given : FleeceGoapUtilityDef} {u : PlanUtility CString}
    (few : given.points.length ≤ 2 ^ 31) (made : newUtility given = some u) : u.Fits := by
  simp only [newUtility, Option.bind_eq_bind, Option.bind_eq_some_iff, Option.some.injEq] at made
  obtain ⟨_, id, _, name, _, dim, rfl⟩ := made
  refine ⟨fitsIn_of_copyStr id, fitsIn_of_copyStr name, fitsIn_of_copyStr dim,
    (InsertionSort.length_sort _).trans_le few, fun numbers => sortPoints_sorted ?_⟩
  exact fun p member => numbers p (InsertionSort.mem_sort.mpr member)

theorem fits_of_newMission {given : FleeceGoapMissionDef} {m : PlanMission CString}
    (made : newMission given = some m) : m.Fits := by
  simp only [newMission, Option.bind_eq_bind, Option.bind_eq_some_iff, Option.some.injEq] at made
  obtain ⟨_, id, _, name, _, note, rfl⟩ := made
  exact ⟨fitsIn_of_copyStr id, fitsIn_of_copyStr name, fitsIn_of_copyStr note,
    by simpa using given.goalCount⟩

namespace GoapTables

variable (tables : GoapTables)

/-- `fleece_goap_set_name`: a name that does not fit leaves the empty one. -/
def setName (name : Option CString) : GoapTables × Int :=
  match copied : copyStr goapNameMax name with
  | some text => ({ tables with
      name := text
      fits := { tables.fits with name := fitsIn_of_copyStr copied } }, 0)
  | none => ({ tables with
      name := .empty
      fits := { tables.fits with name := (by decide : (0 : Nat) < goapNameMax) } }, -1)

/-- The tables with one more action that fits its arrays. -/
def appendAction (a : PlanAction CString) (aFits : a.Fits)
    (room : tables.actions.length < goapTableMax) : GoapTables where
  toPlan := { tables.toPlan with actions := tables.actions ++ [a] }
  fits := { tables.fits with
    actionCount := by
      rw [List.length_append]
      exact room
    actions := List.forall_mem_append.mpr
      ⟨tables.fits.actions, List.forall_mem_singleton.mpr aFits⟩ }

/-- The tables with one more goal that fits its arrays. -/
def appendGoal (g : PlanGoal CString) (gFits : g.Fits)
    (room : tables.goals.length < goapTableMax) : GoapTables where
  toPlan := { tables.toPlan with goals := tables.goals ++ [g] }
  fits := { tables.fits with
    goalCount := by
      rw [List.length_append]
      exact room
    goals := List.forall_mem_append.mpr
      ⟨tables.fits.goals, List.forall_mem_singleton.mpr gFits⟩ }

/-- The tables with one more curve that fits its arrays. -/
def appendUtility (u : PlanUtility CString) (uFits : u.Fits)
    (room : tables.utilities.length < goapTableMax) : GoapTables where
  toPlan := { tables.toPlan with utilities := tables.utilities ++ [u] }
  fits := { tables.fits with
    utilityCount := by
      rw [List.length_append]
      exact room
    utilities := List.forall_mem_append.mpr
      ⟨tables.fits.utilities, List.forall_mem_singleton.mpr uFits⟩ }

/-- The tables with one more mission that fits its arrays. -/
def appendMission (m : PlanMission CString) (mFits : m.Fits)
    (room : tables.missions.length < goapTableMax) : GoapTables where
  toPlan := { tables.toPlan with missions := tables.missions ++ [m] }
  fits := { tables.fits with
    missionCount := by
      rw [List.length_append]
      exact room
    missions := List.forall_mem_append.mpr
      ⟨tables.fits.missions, List.forall_mem_singleton.mpr mFits⟩ }

/-- `fleece_goap_add_action`. -/
def addAction (given : FleeceGoapActionDef) : Option (GoapTables × Int) :=
  if given.id = none then some (tables, -1)
  else if room : tables.actions.length < goapTableMax then
    match made : newAction given with
    | some a => some (tables.appendAction a (fits_of_newAction made) room, 0)
    | none => some (tables, -1)
  else none

/-- `fleece_goap_add_goal`. -/
def addGoal (given : FleeceGoapGoalDef) : Option (GoapTables × Int) :=
  if given.id = none then some (tables, -1)
  else if room : tables.goals.length < goapTableMax then
    match made : newGoal given with
    | some g => some (tables.appendGoal g (fits_of_newGoal made) room, 0)
    | none => some (tables, -1)
  else none

/-- `fleece_goap_add_utility`. The strings are copied before the points are sorted. -/
def addUtility (given : FleeceGoapUtilityDef) : Option (GoapTables × Int) :=
  if given.id = none then some (tables, -1)
  else if room : tables.utilities.length < goapTableMax then
    match made : newUtility given with
    | some u =>
      if few : given.points.length ≤ 2 ^ 31 then
        some (tables.appendUtility u (fits_of_newUtility few made) room, 0)
      else none
    | none => some (tables, -1)
  else none

/-- `fleece_goap_add_mission`. -/
def addMission (given : FleeceGoapMissionDef) : Option (GoapTables × Int) :=
  if given.id = none then some (tables, -1)
  else if room : tables.missions.length < goapTableMax then
    match made : newMission given with
    | some m => some (tables.appendMission m (fits_of_newMission made) room, 0)
    | none => some (tables, -1)
  else none

theorem addAction_of_new {given : FleeceGoapActionDef} {a : PlanAction CString}
    (named : given.id ≠ none) (made : newAction given = some a)
    (room : tables.actions.length < goapTableMax) :
    ∃ next, tables.addAction given = some (next, 0) ∧
      next.toPlan = { tables.toPlan with actions := tables.actions ++ [a] } := by
  unfold addAction
  rw [if_neg named, dif_pos room]
  split
  next found =>
    rw [made] at found
    cases found
    exact ⟨_, rfl, rfl⟩
  next failed =>
    rw [made] at failed
    cases failed

theorem addGoal_of_new {given : FleeceGoapGoalDef} {g : PlanGoal CString}
    (named : given.id ≠ none) (made : newGoal given = some g)
    (room : tables.goals.length < goapTableMax) :
    ∃ next, tables.addGoal given = some (next, 0) ∧
      next.toPlan = { tables.toPlan with goals := tables.goals ++ [g] } := by
  unfold addGoal
  rw [if_neg named, dif_pos room]
  split
  next found =>
    rw [made] at found
    cases found
    exact ⟨_, rfl, rfl⟩
  next failed =>
    rw [made] at failed
    cases failed

theorem addUtility_of_new {given : FleeceGoapUtilityDef} {u : PlanUtility CString}
    (named : given.id ≠ none) (made : newUtility given = some u) (few : given.points.length ≤ 2 ^ 31)
    (room : tables.utilities.length < goapTableMax) :
    ∃ next, tables.addUtility given = some (next, 0) ∧
      next.toPlan = { tables.toPlan with utilities := tables.utilities ++ [u] } := by
  unfold addUtility
  rw [if_neg named, dif_pos room]
  split
  next found =>
    rw [made] at found
    cases found
    rw [dif_pos few]
    exact ⟨_, rfl, rfl⟩
  next failed =>
    rw [made] at failed
    cases failed

theorem addMission_of_new {given : FleeceGoapMissionDef} {m : PlanMission CString}
    (named : given.id ≠ none) (made : newMission given = some m)
    (room : tables.missions.length < goapTableMax) :
    ∃ next, tables.addMission given = some (next, 0) ∧
      next.toPlan = { tables.toPlan with missions := tables.missions ++ [m] } := by
  unfold addMission
  rw [if_neg named, dif_pos room]
  split
  next found =>
    rw [made] at found
    cases found
    exact ⟨_, rfl, rfl⟩
  next failed =>
    rw [made] at failed
    cases failed

theorem of_setName {name : Option CString} {next : GoapTables}
    (named : tables.setName name = (next, 0)) :
    next.toPlan = { tables.toPlan with name := dupStr name } := by
  unfold setName at named
  split at named
  next text copied =>
    cases named
    rw [← dupStr_of_copyStr copied]
  next => cases named

theorem of_addAction {given : FleeceGoapActionDef} {next : GoapTables}
    (added : tables.addAction given = some (next, 0)) :
    ∃ a, newAction given = some a ∧
      next.toPlan = { tables.toPlan with actions := tables.actions ++ [a] } := by
  unfold addAction at added
  split_ifs at added with anonymous room
  · cases added
  · split at added
    next found =>
      cases added
      exact ⟨_, found, rfl⟩
    next => cases added

theorem of_addGoal {given : FleeceGoapGoalDef} {next : GoapTables}
    (added : tables.addGoal given = some (next, 0)) :
    ∃ g, newGoal given = some g ∧
      next.toPlan = { tables.toPlan with goals := tables.goals ++ [g] } := by
  unfold addGoal at added
  split_ifs at added with anonymous room
  · cases added
  · split at added
    next found =>
      cases added
      exact ⟨_, found, rfl⟩
    next => cases added

theorem of_addUtility {given : FleeceGoapUtilityDef} {next : GoapTables}
    (added : tables.addUtility given = some (next, 0)) :
    ∃ u, newUtility given = some u ∧
      next.toPlan = { tables.toPlan with utilities := tables.utilities ++ [u] } := by
  unfold addUtility at added
  split_ifs at added with anonymous room few
  · cases added
  · split at added
    next found =>
      cases added
      exact ⟨_, found, rfl⟩
    next => cases added
  · split at added <;> cases added

theorem of_addMission {given : FleeceGoapMissionDef} {next : GoapTables}
    (added : tables.addMission given = some (next, 0)) :
    ∃ m, newMission given = some m ∧
      next.toPlan = { tables.toPlan with missions := tables.missions ++ [m] } := by
  unfold addMission at added
  split_ifs at added with anonymous room
  · cases added
  · split at added
    next found =>
      cases added
      exact ⟨_, found, rfl⟩
    next => cases added

end GoapTables

/-- The calls that fill the tables. -/
inductive Registration where
  | setName (name : Option CString)
  | addAction (given : FleeceGoapActionDef)
  | addGoal (given : FleeceGoapGoalDef)
  | addUtility (given : FleeceGoapUtilityDef)
  | addMission (given : FleeceGoapMissionDef)

/-- The tables after a registration, and the code that it returned. -/
def GoapTables.register (tables : GoapTables) : Registration → Option (GoapTables × Int)
  | .setName name => some (tables.setName name)
  | .addAction given => tables.addAction given
  | .addGoal given => tables.addGoal given
  | .addUtility given => tables.addUtility given
  | .addMission given => tables.addMission given

/-- The tables that a sequence of calls leaves when all of them return 0. -/
def GoapTables.registerAll (tables : GoapTables) : List Registration → Option GoapTables
  | [] => some tables
  | call :: rest => do
    let (next, code) ← tables.register call
    if code = 0 then next.registerAll rest else none

/-! ### Records of one table -/

/-- One table of a plan: how many records it has, and the plan with more of them. -/
structure PlanTable (Record : Type) where
  count : Plan CString → Nat
  extend : Plan CString → List Record → Plan CString
  extend_nil : ∀ plan, extend plan [] = plan
  extend_cons : ∀ plan record rest, extend (extend plan [record]) rest = extend plan (record :: rest)
  count_extend : ∀ plan record, count (extend plan [record]) = count plan + 1

namespace PlanTable

variable {Record : Type}

/-- The table of actions, filled from records that are read one by one. -/
def actions (form : Record → PlanAction CString) : PlanTable Record where
  count plan := plan.actions.length
  extend plan records := { plan with actions := plan.actions ++ records.map form }
  extend_nil plan := by rw [List.map_nil, List.append_nil]
  extend_cons plan record rest := by
    rw [List.append_assoc, List.map_singleton, List.singleton_append, List.map_cons]
  count_extend plan record := by rw [List.length_append, List.map_singleton, List.length_singleton]

/-- The table of goals, filled from records that are read one by one. -/
def goals (form : Record → PlanGoal CString) : PlanTable Record where
  count plan := plan.goals.length
  extend plan records := { plan with goals := plan.goals ++ records.map form }
  extend_nil plan := by rw [List.map_nil, List.append_nil]
  extend_cons plan record rest := by
    rw [List.append_assoc, List.map_singleton, List.singleton_append, List.map_cons]
  count_extend plan record := by rw [List.length_append, List.map_singleton, List.length_singleton]

/-- The table of curves, filled from records that are read one by one. -/
def utilities (form : Record → PlanUtility CString) : PlanTable Record where
  count plan := plan.utilities.length
  extend plan records := { plan with utilities := plan.utilities ++ records.map form }
  extend_nil plan := by rw [List.map_nil, List.append_nil]
  extend_cons plan record rest := by
    rw [List.append_assoc, List.map_singleton, List.singleton_append, List.map_cons]
  count_extend plan record := by rw [List.length_append, List.map_singleton, List.length_singleton]

/-- The table of missions, filled from records that are read one by one. -/
def missions (form : Record → PlanMission CString) : PlanTable Record where
  count plan := plan.missions.length
  extend plan records := { plan with missions := plan.missions ++ records.map form }
  extend_nil plan := by rw [List.map_nil, List.append_nil]
  extend_cons plan record rest := by
    rw [List.append_assoc, List.map_singleton, List.singleton_append, List.map_cons]
  count_extend plan record := by rw [List.length_append, List.map_singleton, List.length_singleton]

end PlanTable

namespace GoapTables

theorem registerAll_append (tables : GoapTables) (first second : List Registration) :
    tables.registerAll (first ++ second) =
      (tables.registerAll first).bind fun next => next.registerAll second := by
  induction first generalizing tables with
  | nil => rfl
  | cons call rest inductionHypothesis =>
    simp only [List.cons_append, registerAll, Option.bind_eq_bind, Option.bind_assoc]
    congr 1
    funext result
    split_ifs
    · exact inductionHypothesis result.1
    · rfl

/-- The records of one table, registered one after the other. -/
theorem registerAll_extends {Record : Type} (table : PlanTable Record)
    {call : Record → Registration} {records : List Record}
    (step : ∀ record ∈ records, ∀ tables next : GoapTables,
      tables.register (call record) = some (next, 0) →
        next.toPlan = table.extend tables.toPlan [record])
    {tables next : GoapTables} (registered : tables.registerAll (records.map call) = some next) :
    next.toPlan = table.extend tables.toPlan records := by
  induction records generalizing tables with
  | nil =>
    rw [table.extend_nil]
    exact congrArg toPlan (Option.some.inj registered).symm
  | cons record rest inductionHypothesis =>
    simp only [List.map_cons, registerAll, Option.bind_eq_bind, Option.bind_eq_some_iff] at registered
    obtain ⟨⟨middle, code⟩, called, registered⟩ := registered
    simp only at registered
    split_ifs at registered with success
    subst success
    rw [inductionHypothesis (fun other member => step other (List.mem_cons_of_mem _ member))
      registered, step record List.mem_cons_self tables middle called, table.extend_cons]

end GoapTables

end Fleece
