/-
This file is about a register that keeps the greatest of the records it is offered,
in a linear order of their versions. Whatever the order of the offers, and however
often a record is offered again, the register holds a greatest among the records it
has seen; and where no two of them share a version, it holds the greatest, so that
two registers that have seen the same records hold the same one.
-/

import Mathlib

namespace Fleece.Register

variable {Record Version : Type} [LinearOrder Version] (version : Record → Version)

/-- The register after a record was offered: only a strictly greater version replaces. -/
def offer (held : Option Record) (record : Record) : Option Record :=
  match held with
  | none => some record
  | some old => if version old < version record then some record else some old

/-- The register after records were offered one after another. -/
def offerAll (held : Option Record) (records : List Record) : Option Record :=
  records.foldl (offer version) held

/-- The register holds a greatest among the records seen, and nothing if none was. -/
structure Holds (seen : Set Record) (held : Option Record) : Prop where
  among : ∀ record, held = some record → record ∈ seen
  greatest : ∀ record ∈ seen, ∃ best, held = some best ∧ version record ≤ version best

variable {version} {seen : Set Record} {held : Option Record}

theorem holds_empty : Holds version ∅ none :=
  ⟨fun _ => nofun, fun _ member => absurd member (Set.notMem_empty _)⟩

theorem holds_self (held : Option Record) : Holds version {record | held = some record} held :=
  ⟨fun _ => id, fun record same => ⟨record, same, le_refl _⟩⟩

theorem offer_of_lt {record old : Record} (older : version old < version record) :
    offer version (some old) record = some record := if_pos older

theorem offer_of_le {record old : Record} (later : version record ≤ version old) :
    offer version (some old) record = some old := if_neg (not_lt.mpr later)

theorem offerAll_nil : offerAll version held [] = held := rfl

theorem offerAll_cons (record : Record) (rest : List Record) :
    offerAll version held (record :: rest) = offerAll version (offer version held record) rest := rfl

theorem offer_ne_none (held : Option Record) (record : Record) :
    offer version held record ≠ none := by
  cases held with
  | none => exact Option.some_ne_none record
  | some old =>
    rcases lt_or_ge (version old) (version record) with older | later
    · rw [offer_of_lt older]
      exact Option.some_ne_none record
    · rw [offer_of_le later]
      exact Option.some_ne_none old

theorem Holds.offer (holds : Holds version seen held) (record : Record) :
    Holds version (insert record seen) (offer version held record) := by
  cases held with
  | none =>
    refine ⟨fun best same => ?_, fun other member => ⟨record, rfl, ?_⟩⟩
    · exact Or.inl (Option.some.inj same).symm
    · rcases member with rfl | before
      · exact le_refl _
      · obtain ⟨_, absent, _⟩ := holds.greatest other before
        cases absent
  | some old =>
    have inSeen := holds.among old rfl
    have below (other : Record) (before : other ∈ seen) : version other ≤ version old := by
      obtain ⟨best, same, le⟩ := holds.greatest other before
      rwa [Option.some.inj same]
    rcases lt_or_ge (version old) (version record) with older | later
    · rw [offer_of_lt older]
      refine ⟨fun best same => Or.inl (Option.some.inj same).symm, fun other member => ?_⟩
      refine ⟨record, rfl, ?_⟩
      rcases member with rfl | before
      · exact le_refl _
      · exact (below other before).trans older.le
    · rw [offer_of_le later]
      refine ⟨fun best same => Or.inr (Option.some.inj same ▸ inSeen), fun other member => ?_⟩
      refine ⟨old, rfl, ?_⟩
      rcases member with rfl | before
      · exact later
      · exact below other before

theorem Holds.offerAll (holds : Holds version seen held) (records : List Record) :
    Holds version (seen ∪ {record | record ∈ records}) (offerAll version held records) := by
  induction records generalizing seen held with
  | nil =>
    rw [show {record : Record | record ∈ []} = ∅ from Set.eq_empty_of_forall_notMem fun _ =>
      List.not_mem_nil, Set.union_empty]
    exact holds
  | cons record rest inductionHypothesis =>
    have split : seen ∪ {other | other ∈ record :: rest} =
        insert record seen ∪ {other | other ∈ rest} := by
      ext other
      simp only [Set.mem_union, Set.mem_ofPred_eq, List.mem_cons, Set.mem_insert_iff]
      rw [or_left_comm, or_assoc]
    rw [split]
    exact inductionHypothesis (holds.offer record)

/-- A record offered is held at the end if all others are of smaller versions. -/
theorem offerAll_of_latest {records : List Record} {record : Record} (member : record ∈ records)
    (latest : ∀ rival, held = some rival ∨ rival ≠ record ∧ rival ∈ records →
      version rival < version record) : offerAll version held records = some record := by
  have start : Holds version {rival | held = some rival} held := holds_self held
  have holds := start.offerAll records
  obtain ⟨best, found, reached⟩ := holds.greatest record (Or.inr member)
  by_cases same : best = record
  · rw [found, same]
  · refine absurd (latest best ?_) (not_lt.mpr reached)
    exact (holds.among best found).imp_right fun offered => ⟨same, offered⟩

/-- What was held is still held at the end, or what is held is of a greater version. -/
theorem offerAll_replaces {records : List Record} {old new : Record}
    (found : offerAll version (some old) records = some new) :
    new = old ∨ version old < version new := by
  induction records generalizing old with
  | nil => exact Or.inl (Option.some.inj found).symm
  | cons record rest inductionHypothesis =>
    rw [offerAll_cons] at found
    rcases lt_or_ge (version old) (version record) with older | later
    · rw [offer_of_lt older] at found
      rcases inductionHypothesis found with rfl | greater
      · exact Or.inr older
      · exact Or.inr (older.trans greater)
    · rw [offer_of_le later] at found
      exact inductionHypothesis found

/-- Where no two records seen share a version, what is held depends on what was seen alone. -/
theorem Holds.unique {other : Option Record} (injective : Set.InjOn version seen)
    (first : Holds version seen held) (second : Holds version seen other) : held = other := by
  cases held with
  | none =>
    cases other with
    | none => rfl
    | some best =>
      obtain ⟨_, absent, _⟩ := first.greatest best (second.among best rfl)
      cases absent
  | some best =>
    obtain ⟨rival, same, below⟩ := second.greatest best (first.among best rfl)
    have rivalSeen := second.among rival same
    obtain ⟨_, mine, above⟩ := first.greatest rival rivalSeen
    rw [← Option.some.inj mine] at above
    rw [same, injective (first.among best rfl) rivalSeen (le_antisymm below above)]

/-- A register that has seen a greatest of all records holds it. -/
theorem Holds.of_greatest {all : Set Record} (holds : Holds version seen held) (among : seen ⊆ all)
    (injective : Set.InjOn version all) {best : Record} (greatest : ∀ record ∈ all,
      version record ≤ version best) (member : best ∈ seen) : held = some best := by
  obtain ⟨rival, same, above⟩ := holds.greatest best member
  have rivalSeen := among (holds.among rival same)
  rw [same, injective rivalSeen (among member) (le_antisymm (greatest rival rivalSeen) above)]

/-- Registers agree once every record has an author among them that has told all of them of the
record, if it still holds it. -/
theorem agree_of_told {Owner : Type} {seen : Owner → Set Record} {held : Owner → Option Record}
    (holds : ∀ owner, Holds version (seen owner) (held owner)) {all : Set Record}
    (finite : all.Finite) (among : ∀ owner, seen owner ⊆ all) (injective : Set.InjOn version all)
    (told : ∀ record ∈ all, ∃ author, record ∈ seen author ∧
      (held author = some record → ∀ owner, record ∈ seen owner)) (owner other : Owner) :
    held owner = held other := by
  rcases all.eq_empty_or_nonempty with empty | inhabited
  · have nothing (owner : Owner) : held owner = none :=
      Option.eq_none_iff_forall_ne_some.mpr fun record same =>
        Set.notMem_empty record (empty ▸ among owner ((holds owner).among record same))
    rw [nothing, nothing]
  · obtain ⟨best, member, greatest⟩ := Set.exists_max_image all version finite inhabited
    obtain ⟨author, here, spread⟩ := told best member
    have everywhere := spread ((holds author).of_greatest (among author) injective greatest here)
    have holdsBest (owner : Owner) : held owner = some best :=
      (holds owner).of_greatest (among owner) injective greatest (everywhere owner)
    rw [holdsBest, holdsBest]

end Fleece.Register
