/-
This file is about a cache of values that are computed from sources. An entry stands
under a key together with the source it was computed from. A fetch whose source is
another one computes the value anew in the place of the old; a fetch of a new key
takes the next place in turn, whatever is there.

As long as every entry holds the value of its own source, a fetch gives the value of
the source it is given, and the cache is not seen from outside.
-/

import Mathlib

namespace Fleece

/-- A compiled value, with the key and the source it was compiled for. -/
structure CacheEntry (Key Source Value : Type) where
  key : Key
  source : Source
  value : Value

/-- The places of a cache, and the one that is taken next. -/
structure SourceCache (Key Source Value : Type) where
  entries : List (Option (CacheEntry Key Source Value))
  next : Nat

namespace SourceCache

variable {Key Source Value : Type} [DecidableEq Key] [DecidableEq Source]

/-- A cache without entries. -/
def blank (cap : Nat) : SourceCache Key Source Value := ⟨List.replicate cap none, 0⟩

/-- The first place whose entry has the key. -/
def find (cache : SourceCache Key Source Value) (key : Key) : Option Nat :=
  cache.entries.findIdx? fun entry => entry.any fun held => decide (held.key = key)

/-- The value of a source under a key, and the cache afterwards. -/
def fetch (compute : Source → Value) (cache : SourceCache Key Source Value) (key : Key)
    (source : Source) : Value × SourceCache Key Source Value :=
  let entry : CacheEntry Key Source Value := ⟨key, source, compute source⟩
  match cache.find key with
  | some i =>
    match (cache.entries[i]?).join.filter fun held => decide (held.source = source) with
    | some held => (held.value, cache)
    | none => (entry.value, { cache with entries := cache.entries.set i (some entry) })
  | none =>
    (entry.value,
      { entries := cache.entries.set cache.next (some entry)
        next := (cache.next + 1) % cache.entries.length })

/-- Every entry has the value of its source, and the next place is one of the cache's. -/
structure Valid (compute : Source → Value) (cache : SourceCache Key Source Value) : Prop where
  computed : ∀ entry, some entry ∈ cache.entries → entry.value = compute entry.source
  inside : cache.next < cache.entries.length

variable {compute : Source → Value} {cache : SourceCache Key Source Value}

omit [DecidableEq Key] [DecidableEq Source] in
theorem Valid.computed_set (valid : cache.Valid compute) (i : Nat) (key : Key) (source : Source)
    (entry : CacheEntry Key Source Value)
    (member : some entry ∈ cache.entries.set i (some ⟨key, source, compute source⟩)) :
    entry.value = compute entry.source := by
  rcases List.mem_or_eq_of_mem_set member with held | new
  · exact valid.computed entry held
  · rw [Option.some.inj new]

/-- A fetch gives the value of the source. -/
theorem Valid.fetch_value (valid : cache.Valid compute) (key : Key) (source : Source) :
    (cache.fetch compute key source).1 = compute source := by
  unfold fetch
  split
  · split
    next held found =>
      obtain ⟨here, same⟩ := Option.filter_eq_some_iff.mp found
      have member := List.mem_of_getElem? (Option.join_eq_some_iff.mp here)
      rw [valid.computed held member, of_decide_eq_true same]
    next => rfl
  · rfl

theorem Valid.fetch (valid : cache.Valid compute) (key : Key) (source : Source) :
    (cache.fetch compute key source).2.Valid compute := by
  unfold SourceCache.fetch
  split
  · split
    · exact valid
    · refine ⟨valid.computed_set _ key source, ?_⟩
      rw [List.length_set]
      exact valid.inside
  · refine ⟨valid.computed_set _ key source, ?_⟩
    rw [List.length_set]
    exact Nat.mod_lt _ ((Nat.zero_le _).trans_lt valid.inside)

end SourceCache

end Fleece
