/-
This file is about a memory with a bounded number of slots that is brought up to date
from a list of entries. An entry that says what the memory holds is passed over; any
other is put under its key, and the first one that the memory refuses ends the run.

What a key reads afterwards is decided by the entries that were come to: it is the
value of the last of them with that key, and what the key read before if there is none.
-/

import Mathlib.Logic.Function.Basic
import Mathlib.Data.List.Basic

namespace Fleece

/-- A value for a key; an entry that is not valid is refused. -/
structure LedgerEntry (Key Value : Type) where
  key : Key
  value : Value
  isValid : Bool

/-- The values of a memory, the keys that have a slot in it, and the number of slots in use. A key
may have a slot and no value. -/
@[ext]
structure Ledger (Key Value : Type) where
  value : Key → Option Value
  hasSlot : Key → Bool
  used : Nat

namespace Ledger

variable {Key Value : Type} [DecidableEq Key] [DecidableEq Value] (capacity : Nat)

/-- The entry is valid, and its key has a slot or a slot is free. -/
def accepts (ledger : Ledger Key Value) (entry : LedgerEntry Key Value) : Bool :=
  entry.isValid && (ledger.hasSlot entry.key || decide (ledger.used < capacity))

/-- The value is stored under the key, which takes a slot if it has none. -/
def put (ledger : Ledger Key Value) (entry : LedgerEntry Key Value) : Ledger Key Value where
  value := Function.update ledger.value entry.key (some entry.value)
  hasSlot := Function.update ledger.hasSlot entry.key true
  used := if ledger.hasSlot entry.key then ledger.used else ledger.used + 1

omit [DecidableEq Value] in
theorem hasSlot_put (ledger : Ledger Key Value) (entry : LedgerEntry Key Value) (key : Key) :
    (ledger.put entry).hasSlot key = if entry.key = key then true else ledger.hasSlot key := by
  show Function.update ledger.hasSlot entry.key true key = _
  rw [Function.update_apply]
  exact if_congr eq_comm rfl rfl

omit [DecidableEq Value] in
theorem used_put (ledger : Ledger Key Value) (entry : LedgerEntry Key Value) :
    (ledger.put entry).used = if ledger.hasSlot entry.key then ledger.used else ledger.used + 1 :=
  rfl

omit [DecidableEq Value] in
theorem value_put (ledger : Ledger Key Value) (entry : LedgerEntry Key Value) (key : Key) :
    (ledger.put entry).value key =
      if entry.key = key then some entry.value else ledger.value key := by
  show Function.update ledger.value entry.key (some entry.value) key = _
  rw [Function.update_apply]
  exact if_congr eq_comm rfl rfl

/-- The memory says what the entry says. -/
def holds (ledger : Ledger Key Value) (entry : LedgerEntry Key Value) : Prop :=
  ledger.value entry.key = some entry.value

instance (ledger : Ledger Key Value) (entry : LedgerEntry Key Value) :
    Decidable (ledger.holds entry) :=
  inferInstanceAs (Decidable (_ = _))

/-- The entries are stored in turn, up to the first that is refused. What the ledger holds already
is passed over. -/
def commit (ledger : Ledger Key Value) : List (LedgerEntry Key Value) → Ledger Key Value
  | [] => ledger
  | entry :: rest =>
    if ledger.holds entry then ledger.commit rest
    else if ledger.accepts capacity entry then (ledger.put entry).commit rest
    else ledger

/-- The entries before the first that is refused. -/
def reached (ledger : Ledger Key Value) :
    List (LedgerEntry Key Value) → List (LedgerEntry Key Value)
  | [] => []
  | entry :: rest =>
    if ledger.holds entry then entry :: ledger.reached rest
    else if ledger.accepts capacity entry then entry :: (ledger.put entry).reached rest
    else []

omit [DecidableEq Value] in
/-- The value of the last entry with a key. -/
def last (entries : List (LedgerEntry Key Value)) (key : Key) : Option Value :=
  (entries.reverse.find? fun entry => decide (entry.key = key)).map LedgerEntry.value

omit [DecidableEq Value] in
theorem last_cons (entry : LedgerEntry Key Value) (rest : List (LedgerEntry Key Value))
    (key : Key) : last (entry :: rest) key =
      (last rest key).or (if entry.key = key then some entry.value else none) := by
  unfold last
  rw [List.reverse_cons, List.find?_append, List.find?_singleton]
  cases rest.reverse.find? fun entry => decide (entry.key = key) with
  | some found => rfl
  | none => by_cases same : entry.key = key <;> simp [same]

omit [DecidableEq Value] in
theorem exists_of_last {entries : List (LedgerEntry Key Value)} {key : Key} {value : Value}
    (isLast : last entries key = some value) :
    ∃ entry ∈ entries, entry.key = key ∧ entry.value = value := by
  obtain ⟨entry, found, rfl⟩ := Option.map_eq_some_iff.mp isLast
  have same := List.find?_some found
  exact ⟨entry, List.mem_reverse.mp (List.mem_of_find?_eq_some found), of_decide_eq_true same, rfl⟩

variable {capacity}

theorem reached_prefix (ledger : Ledger Key Value) (entries : List (LedgerEntry Key Value)) :
    ledger.reached capacity entries <+: entries := by
  induction entries generalizing ledger with
  | nil => exact List.prefix_refl _
  | cons entry rest inductionHypothesis =>
    unfold reached
    split_ifs
    · exact List.cons_prefix_cons.mpr ⟨rfl, inductionHypothesis ledger⟩
    · exact List.cons_prefix_cons.mpr ⟨rfl, inductionHypothesis (ledger.put entry)⟩
    · exact List.nil_prefix

/-- The last entry that was come to with a key decides what the key reads. -/
theorem value_commit (ledger : Ledger Key Value) (entries : List (LedgerEntry Key Value))
    (key : Key) : (ledger.commit capacity entries).value key =
      (last (ledger.reached capacity entries) key).or (ledger.value key) := by
  induction entries generalizing ledger with
  | nil => rfl
  | cons entry rest inductionHypothesis =>
    unfold commit reached
    split_ifs with same accepted
    · rw [inductionHypothesis, last_cons, Option.or_assoc]
      by_cases own : entry.key = key
      · have held : ledger.value key = some entry.value := own ▸ same
        rw [if_pos own, held, Option.some_or]
      · rw [if_neg own, Option.none_or]
    · rw [inductionHypothesis, last_cons, Option.or_assoc, value_put]
      by_cases own : entry.key = key
      · rw [if_pos own, if_pos own, Option.some_or]
      · rw [if_neg own, if_neg own, Option.none_or]
    · rfl

/-- A key reads what it read before exactly if the last entry come to with it says so. -/
theorem value_commit_eq_iff (ledger : Ledger Key Value) (entries : List (LedgerEntry Key Value))
    (key : Key) : (ledger.commit capacity entries).value key = ledger.value key ↔
      ∀ value, last (ledger.reached capacity entries) key = some value →
        ledger.value key = some value := by
  rw [value_commit]
  cases last (ledger.reached capacity entries) key with
  | none => exact iff_of_true rfl nofun
  | some found =>
    rw [Option.some_or]
    exact ⟨fun same value isLast => same ▸ isLast, fun reads => (reads found rfl).symm⟩

end Ledger

end Fleece
