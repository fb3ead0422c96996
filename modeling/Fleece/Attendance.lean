/-
This file is about a table of who is there. Whoever is seen takes a place and keeps it
for good; where all places are taken a newcomer is turned away. Beside each name stands
for how many ticks it has not been seen.

So the names in the table are the first ones that were seen, as many as there are
places, in the order in which they came.
-/

import Mathlib

namespace Fleece.Attendance

variable {Name : Type} [DecidableEq Name]

/-- Somebody is seen, or time passes. -/
inductive Sign (Name : Type) where
  | seen (name : Name)
  | tick

/-! ### What was seen -/

/-- The names that were seen, in the order in which they were first seen. -/
def firsts (signs : List (Sign Name)) : List Name :=
  signs.foldl (fun names sign => match sign with
    | .seen name => if name ∈ names then names else names ++ [name]
    | .tick => names) []

/-- The ticks since a name was last seen. -/
def silence (signs : List (Sign Name)) (name : Name) : Nat :=
  signs.foldl (fun ticks sign => match sign with
    | .seen other => if other = name then 0 else ticks
    | .tick => ticks + 1) 0

theorem firsts_seen (signs : List (Sign Name)) (name : Name) :
    firsts (signs ++ [.seen name]) =
      if name ∈ firsts signs then firsts signs else firsts signs ++ [name] := by
  unfold firsts
  rw [List.foldl_append]
  rfl

theorem firsts_tick (signs : List (Sign Name)) : firsts (signs ++ [.tick]) = firsts signs := by
  unfold firsts
  rw [List.foldl_append]
  rfl

theorem silence_seen (signs : List (Sign Name)) (name other : Name) :
    silence (signs ++ [.seen name]) other = if name = other then 0 else silence signs other := by
  unfold silence
  rw [List.foldl_append]
  rfl

theorem silence_tick (signs : List (Sign Name)) (name : Name) :
    silence (signs ++ [.tick]) name = silence signs name + 1 := by
  unfold silence
  rw [List.foldl_append]
  rfl

/-! ### The table -/

/-- A name is seen by a table with so many places. -/
def see (size : Nat) (name : Name) (table : List (Name × Nat)) : List (Name × Nat) :=
  if name ∈ table.map Prod.fst then
    table.map fun entry => if name = entry.1 then (name, 0) else entry
  else if table.length < size then table ++ [(name, 0)]
  else table

/-- A tick goes by for all names of the table. -/
def wait (table : List (Name × Nat)) : List (Name × Nat) :=
  table.map fun entry => (entry.1, entry.2 + 1)

/-- The table after one sign. -/
def mark (size : Nat) (table : List (Name × Nat)) : Sign Name → List (Name × Nat)
  | .seen name => see size name table
  | .tick => wait table

/-- The table after some signs. -/
def attend (size : Nat) (signs : List (Sign Name)) : List (Name × Nat) :=
  signs.foldl (mark size) []

/-- To be seen again moves nobody. -/
theorem see_names (size : Nat) {name : Name} {table : List (Name × Nat)}
    (known : name ∈ table.map Prod.fst) :
    (see size name table).map Prod.fst = table.map Prod.fst := by
  rw [see, if_pos known, List.map_map]
  refine List.map_congr_left fun entry _ => ?_
  rw [Function.comp_apply]
  split_ifs with same
  · exact same
  · rfl

theorem attend_seen (size : Nat) (signs : List (Sign Name)) (name : Name) :
    attend size (signs ++ [.seen name]) = see size name (attend size signs) := by
  unfold attend
  rw [List.foldl_append]
  rfl

theorem attend_tick (size : Nat) (signs : List (Sign Name)) :
    attend size (signs ++ [.tick]) = wait (attend size signs) := by
  unfold attend
  rw [List.foldl_append]
  rfl

/-- The table holds the first names that were seen. -/
theorem attend_eq (size : Nat) (signs : List (Sign Name)) :
    attend size signs =
      ((firsts signs).take size).map fun name => (name, silence signs name) := by
  induction signs using List.reverseRecOn with
  | nil => rw [firsts, List.foldl_nil, List.take_nil]; rfl
  | append_singleton signs sign inductionHypothesis =>
    cases sign with
    | tick =>
      rw [attend_tick, inductionHypothesis, wait, List.map_map, firsts_tick]
      refine List.map_congr_left fun name _ => ?_
      rw [Function.comp_apply, silence_tick]
    | seen name =>
      have names : (((firsts signs).take size).map fun name => (name, silence signs name)).map
          Prod.fst = (firsts signs).take size := by
        rw [List.map_map]
        exact List.map_id _
      have others (known : List Name) (absent : name ∉ known) :
          known.map (fun other => (other, silence (signs ++ [.seen name]) other)) =
            known.map fun other => (other, silence signs other) := by
        refine List.map_congr_left fun other member => ?_
        have different : name ≠ other := by
          rintro rfl
          exact absent member
        rw [silence_seen, if_neg different]
      rw [attend_seen, inductionHypothesis, see, names]
      by_cases seated : name ∈ (firsts signs).take size
      · rw [if_pos seated, firsts_seen, if_pos (List.mem_of_mem_take seated), List.map_map]
        refine List.map_congr_left fun other _ => ?_
        rw [Function.comp_apply, silence_seen]
        split_ifs with same
        · rw [same]
        · rfl
      · rw [if_neg seated, List.length_map]
        by_cases room : ((firsts signs).take size).length < size
        · have whole : (firsts signs).take size = firsts signs := by
            refine List.take_of_length_le ?_
            rw [List.length_take] at room
            omega
          have short : (firsts signs ++ [name]).length ≤ size := by
            rw [whole] at room
            rw [List.length_append]
            exact room
          rw [whole] at seated
          rw [if_pos room, firsts_seen, if_neg seated, List.take_of_length_le short, whole,
            List.map_append, others _ seated, List.map_singleton, silence_seen, if_pos rfl]
        · have long : size ≤ (firsts signs).length := by
            rw [List.length_take] at room
            omega
          have same : (firsts (signs ++ [.seen name])).take size = (firsts signs).take size := by
            rw [firsts_seen]
            split_ifs
            · rfl
            · exact List.take_append_of_le_length long
          rw [if_neg room, same, others _ seated]

end Fleece.Attendance
