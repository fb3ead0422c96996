/-
This file is about a set of keys kept in an array with open addressing. Every key
has a path of slots; an insertion follows the path of its key up to a limit, stops
at the key or at the first free slot, and gives up at the limit. Nothing is ever
removed, so a key that is stored is met before any free slot of its path, whatever
the paths are.
-/

import Mathlib

namespace Fleece.Probing

variable {Slot Key : Type}

/-- The key is in some slot. -/
def Stored (slots : Slot → Option Key) (key : Key) : Prop := ∃ slot, slots slot = some key

/-- The slots on a path are all in use, up to the limit. -/
def Blocked (path : Nat → Slot) (limit : Nat) (slots : Slot → Option Key) : Prop :=
  ∀ probe < limit, slots (path probe) ≠ none

/-- Every key is in one slot, which its path meets before any free slot. -/
structure Placed (path : Key → Nat → Slot) (limit : Nat) (slots : Slot → Option Key) : Prop where
  unique : ∀ first second key, slots first = some key → slots second = some key → first = second
  onPath : ∀ slot key, slots slot = some key → ∃ probe < limit, path key probe = slot ∧
    Blocked (path key) probe slots

variable {path : Key → Nat → Slot} {limit : Nat} {slots : Slot → Option Key} {key : Key}

theorem placed_empty : Placed path limit (fun _ : Slot => (none : Option Key)) :=
  ⟨fun _ _ _ => nofun, fun _ _ => nofun⟩

/-- A stored key is met before any free slot. -/
theorem Placed.met (placed : Placed path limit slots) (stored : Stored slots key) {probe : Nat}
    (used : ∀ earlier < probe, slots (path key earlier) ≠ some key)
    (free : probe < limit → slots (path key probe) = none) : False := by
  obtain ⟨slot, held⟩ := stored
  obtain ⟨place, inside, rfl, blocked⟩ := placed.onPath slot key held
  rcases lt_trichotomy place probe with earlier | rfl | later
  · exact used place earlier held
  · rw [free inside] at held
    cases held
  · exact blocked probe later (free (later.trans inside))

/-- An array in use on a set of slots stores as many keys. -/
theorem Placed.exists_keys (placed : Placed path limit slots) {full : Finset Slot}
    (used : ∀ slot ∈ full, slots slot ≠ none) :
    ∃ keys : Finset Key, keys.card = full.card ∧ ∀ key ∈ keys, Stored slots key := by
  classical
  choose held isHeld using fun slot : full => Option.ne_none_iff_exists'.mp (used slot.1 slot.2)
  refine ⟨full.attach.image held, ?_, fun key member => ?_⟩
  · rw [Finset.card_image_of_injective, Finset.card_attach]
    intro first second same
    exact Subtype.ext (placed.unique _ _ _ (isHeld first) (same ▸ isHeld second))
  · obtain ⟨slot, _, rfl⟩ := Finset.mem_image.mp member
    exact ⟨slot.1, isHeld slot⟩

variable [DecidableEq Slot]

theorem Blocked.update {single : Nat → Slot} (blocked : Blocked single limit slots) (slot : Slot) :
    Blocked single limit (Function.update slots slot (some key)) := by
  intro probe inside
  by_cases here : single probe = slot
  · rw [here, Function.update_self]
    exact nofun
  · rw [Function.update_of_ne here]
    exact blocked probe inside

theorem stored_update {slot : Slot} (free : slots slot = none) {other : Key} :
    Stored (Function.update slots slot (some key)) other ↔ other = key ∨ Stored slots other := by
  constructor
  · rintro ⟨place, held⟩
    by_cases here : place = slot
    · rw [here, Function.update_self] at held
      exact .inl (Option.some.inj held).symm
    · rw [Function.update_of_ne here] at held
      exact .inr ⟨place, held⟩
  · rintro (rfl | ⟨place, held⟩)
    · exact ⟨slot, Function.update_self _ _ _⟩
    · have here : place ≠ slot := by
        rintro rfl
        rw [free] at held
        cases held
      exact ⟨place, by rwa [Function.update_of_ne here]⟩

/-! ### Insertion -/

/-- What an insertion does: the key is there, or there is no room for it, or it is put into a
free slot. -/
inductive Added (path : Key → Nat → Slot) (limit : Nat) (slots : Slot → Option Key) (key : Key) :
    (Slot → Option Key) × Bool → Prop
  | present (stored : Stored slots key) : Added path limit slots key (slots, false)
  | refused (absent : ¬ Stored slots key) (blocked : Blocked (path key) limit slots) :
      Added path limit slots key (slots, false)
  | inserted (absent : ¬ Stored slots key) (probe : Nat) (inside : probe < limit)
      (free : slots (path key probe) = none) (blocked : Blocked (path key) probe slots) :
      Added path limit slots key (Function.update slots (path key probe) (some key), true)

theorem Added.placed {result : (Slot → Option Key) × Bool} (added : Added path limit slots key result)
    (placed : Placed path limit slots) : Placed path limit result.1 := by
  cases added with
  | present => exact placed
  | refused => exact placed
  | inserted absent probe inside free blocked =>
    show Placed path limit (Function.update slots (path key probe) (some key))
    constructor
    · intro first second other atFirst atSecond
      by_cases firstHere : first = path key probe <;> by_cases secondHere : second = path key probe
      · rw [firstHere, secondHere]
      · rw [firstHere, Function.update_self] at atFirst
        rw [Function.update_of_ne secondHere, ← Option.some.inj atFirst] at atSecond
        exact absurd ⟨_, atSecond⟩ absent
      · rw [secondHere, Function.update_self] at atSecond
        rw [Function.update_of_ne firstHere, ← Option.some.inj atSecond] at atFirst
        exact absurd ⟨_, atFirst⟩ absent
      · rw [Function.update_of_ne firstHere] at atFirst
        rw [Function.update_of_ne secondHere] at atSecond
        exact placed.unique first second other atFirst atSecond
    · intro slot other held
      by_cases here : slot = path key probe
      · rw [here, Function.update_self] at held
        obtain rfl := Option.some.inj held
        exact ⟨probe, inside, here.symm, blocked.update _⟩
      · rw [Function.update_of_ne here] at held
        obtain ⟨place, below, same, before⟩ := placed.onPath slot other held
        exact ⟨place, below, same, before.update _⟩

variable [DecidableEq Key]

/-- Follow a path from `probe` on: the array afterwards, and whether the key was put there. -/
def addFrom (path : Nat → Slot) (slots : Slot → Option Key) (key : Key) (probe : Nat) :
    Nat → (Slot → Option Key) × Bool
  | 0 => (slots, false)
  | remaining + 1 =>
    match slots (path probe) with
    | none => (Function.update slots (path probe) (some key), true)
    | some held => if held = key then (slots, false) else addFrom path slots key (probe + 1) remaining

/-- The key is looked for along its path and put where the path first meets a free slot. -/
def add (path : Key → Nat → Slot) (limit : Nat) (slots : Slot → Option Key) (key : Key) :
    (Slot → Option Key) × Bool :=
  addFrom (path key) slots key 0 limit

/-- A key that is not put anywhere leaves the array as it is. -/
theorem addFrom_refused {single : Nat → Slot} {probe remaining : Nat}
    (refused : (addFrom single slots key probe remaining).2 = false) :
    (addFrom single slots key probe remaining).1 = slots := by
  induction remaining generalizing probe with
  | zero => rfl
  | succ remaining inductionHypothesis =>
    unfold addFrom at refused ⊢
    split at refused
    next free => cases refused
    next held used =>
      split_ifs at refused ⊢ with same
      · rfl
      · exact inductionHypothesis refused

theorem addFrom_added (placed : Placed path limit slots) {probe remaining : Nat}
    (total : probe + remaining = limit)
    (passed : ∀ earlier < probe, slots (path key earlier) ≠ none ∧
      slots (path key earlier) ≠ some key) :
    Added path limit slots key (addFrom (path key) slots key probe remaining) := by
  induction remaining generalizing probe with
  | zero =>
    have absent : ¬ Stored slots key := fun stored =>
      placed.met stored (fun earlier below => (passed earlier below).2) fun below => by omega
    exact .refused absent fun earlier below => (passed earlier (by omega)).1
  | succ remaining inductionHypothesis =>
    unfold addFrom
    split
    next free =>
      have absent : ¬ Stored slots key := fun stored =>
        placed.met stored (fun earlier below => (passed earlier below).2) fun _ => free
      exact .inserted absent probe (by omega) free fun earlier below => (passed earlier below).1
    next held used =>
      split_ifs with same
      · exact .present ⟨_, same ▸ used⟩
      · refine inductionHypothesis (by omega) fun earlier below => ?_
        rcases Nat.lt_succ_iff_lt_or_eq.mp below with before | rfl
        · exact passed earlier before
        · rw [used]
          exact ⟨nofun, fun equal => same (Option.some.inj equal)⟩

theorem add_added (placed : Placed path limit slots) (key : Key) :
    Added path limit slots key (add path limit slots key) :=
  addFrom_added placed (Nat.zero_add limit) fun _ => nofun

end Fleece.Probing
