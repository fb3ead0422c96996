/-
This file says which byte strings are well-formed data items of CBOR (RFC 8949): heads
of any width, byte and text strings, arrays, maps, tags, simple values and floats, and
the indefinite lengths that a break ends. It is about form alone, so a text need not be
valid UTF-8 and a map may repeat a key.

A read keeps count of the items it still owes. A head pays one and owes the items it
announces, so the rules for arrays, maps and tags are one rule. A read has one outcome
at most, and bytes behind the part that was read do not disturb it; hence no
well-formed item is the beginning of another.
-/

import Mathlib

namespace Fleece.DataItem

/-! ### Heads -/

/-- The head of an item of definite length. -/
structure Head where
  major : UInt8
  info : UInt8
  argument : Nat

/-- The number that some bytes spell, the most significant one first. -/
def bigEndianValue (bytes : List UInt8) : Nat :=
  bytes.foldl (fun value byte => value * 256 + byte.toNat) 0

/-- The bytes of the argument that follow the initial byte. The additional informations 28 to 30 are
reserved and 31 has no argument. -/
def argumentWidth (info : UInt8) : Option Nat :=
  if info < 24 then some 0
  else if info = 24 then some 1
  else if info = 25 then some 2
  else if info = 26 then some 4
  else if info = 27 then some 8
  else none

/-- A head of definite length and what is behind it. -/
def takeHead : List UInt8 → Option (Head × List UInt8)
  | [] => none
  | initial :: rest =>
    let info := initial &&& 0x1F
    match argumentWidth info with
    | none => none
    | some width =>
      if width ≤ rest.length then
        let argument := if width = 0 then info.toNat else bigEndianValue (rest.take width)
        some (⟨initial >>> 5, info, argument⟩, rest.drop width)
      else none

/-- The bytes and the items that belong to a head. A simple value below 32 has no two-byte form. -/
def Head.content (head : Head) : Option (Nat × Nat) :=
  if head.major < 2 then some (0, 0)
  else if head.major < 4 then some (head.argument, 0)
  else if head.major = 4 then some (0, head.argument)
  else if head.major = 5 then some (0, 2 * head.argument)
  else if head.major = 6 then some (0, 1)
  else if head.info = 24 ∧ head.argument < 32 then none
  else some (0, 0)

/-! ### Items -/

/-- What a read goes on to: a number of items, the entries of an array or a map up to the break, or
the chunks of a string of a major type up to the break. -/
inductive Mode where
  | items (count : Nat)
  | untilBreak (isMap : Bool)
  | chunks (major : UInt8)

/-- The items that one entry has: a key and a value in a map, one item in an array. -/
def entrySize (isMap : Bool) : Nat := if isMap then 2 else 1

/-- The first byte of a string of indefinite length. -/
def stringStart (isText : Bool) : UInt8 := if isText then 0x7F else 0x5F

/-- The first byte of an array or a map of indefinite length. -/
def containerStart (isMap : Bool) : UInt8 := if isMap then 0xBF else 0x9F

/-- The bytes begin with what the mode asks for, and the rest is behind it. -/
inductive Reads : Mode → List UInt8 → List UInt8 → Prop
  | nothing (bytes : List UInt8) : Reads (.items 0) bytes bytes
  | definite {bytes rest last : List UInt8} {head : Head} {count payload children : Nat}
      (taken : takeHead bytes = some (head, rest))
      (content : head.content = some (payload, children)) (inside : payload ≤ rest.length)
      (further : Reads (.items (children + count)) (rest.drop payload) last) :
      Reads (.items (count + 1)) bytes last
  | string {rest middle last : List UInt8} {count : Nat} (isText : Bool)
      (parts : Reads (.chunks (if isText then 3 else 2)) rest middle)
      (further : Reads (.items count) middle last) :
      Reads (.items (count + 1)) (stringStart isText :: rest) last
  | container {rest middle last : List UInt8} {count : Nat} (isMap : Bool)
      (entries : Reads (.untilBreak isMap) rest middle)
      (further : Reads (.items count) middle last) :
      Reads (.items (count + 1)) (containerStart isMap :: rest) last
  | stop {isMap : Bool} (rest : List UInt8) : Reads (.untilBreak isMap) (0xFF :: rest) rest
  | entry {bytes middle last : List UInt8} {isMap : Bool}
      (first : Reads (.items (entrySize isMap)) bytes middle)
      (further : Reads (.untilBreak isMap) middle last) : Reads (.untilBreak isMap) bytes last
  | stopChunks {major : UInt8} (rest : List UInt8) : Reads (.chunks major) (0xFF :: rest) rest
  | chunk {bytes rest last : List UInt8} {head : Head} (taken : takeHead bytes = some (head, rest))
      (inside : head.argument ≤ rest.length)
      (further : Reads (.chunks head.major) (rest.drop head.argument) last) :
      Reads (.chunks head.major) bytes last

/-- The bytes are one well-formed data item and nothing more. -/
def WellFormed (bytes : List UInt8) : Prop := Reads (.items 1) bytes []

/-! ### One outcome -/

theorem takeHead_stringStart (isText : Bool) (rest : List UInt8) :
    takeHead (stringStart isText :: rest) = none := by
  cases isText <;> rfl

theorem takeHead_containerStart (isMap : Bool) (rest : List UInt8) :
    takeHead (containerStart isMap :: rest) = none := by
  cases isMap <;> rfl

theorem takeHead_break (rest : List UInt8) : takeHead (0xFF :: rest) = none := rfl

/-- The three ways to read an item. -/
theorem Reads.items_cases {count : Nat} {bytes last : List UInt8}
    (reads : Reads (.items (count + 1)) bytes last) :
    (∃ head rest payload children, takeHead bytes = some (head, rest) ∧
        head.content = some (payload, children) ∧
        Reads (.items (children + count)) (rest.drop payload) last) ∨
      (∃ isText rest middle, bytes = stringStart isText :: rest ∧
        Reads (.chunks (if isText then 3 else 2)) rest middle ∧ Reads (.items count) middle last) ∨
      (∃ isMap rest middle, bytes = containerStart isMap :: rest ∧
        Reads (.untilBreak isMap) rest middle ∧ Reads (.items count) middle last) := by
  cases reads with
  | definite taken content inside further => exact .inl ⟨_, _, _, _, taken, content, further⟩
  | string isText parts further => exact .inr (.inl ⟨isText, _, _, rfl, parts, further⟩)
  | container isMap entries further => exact .inr (.inr ⟨isMap, _, _, rfl, entries, further⟩)

/-- No item begins with the break. -/
theorem not_reads_break {count : Nat} {rest last : List UInt8} :
    ¬ Reads (.items (count + 1)) (0xFF :: rest) last := by
  intro reads
  rcases reads.items_cases with ⟨_, _, _, _, taken, _⟩ | ⟨isText, _, _, same, _⟩ |
    ⟨isMap, _, _, same, _⟩
  · rw [takeHead_break] at taken
    cases taken
  · cases isText <;> cases same
  · cases isMap <;> cases same

theorem Reads.untilBreak_cases {isMap : Bool} {bytes last : List UInt8}
    (reads : Reads (.untilBreak isMap) bytes last) :
    bytes = 0xFF :: last ∨ ∃ middle, Reads (.items (entrySize isMap)) bytes middle ∧
      Reads (.untilBreak isMap) middle last := by
  cases reads with
  | stop rest => exact .inl rfl
  | entry first further => exact .inr ⟨_, first, further⟩

theorem Reads.chunks_cases {major : UInt8} {bytes last : List UInt8}
    (reads : Reads (.chunks major) bytes last) :
    bytes = 0xFF :: last ∨ ∃ head rest, takeHead bytes = some (head, rest) ∧
      Reads (.chunks major) (rest.drop head.argument) last := by
  cases reads with
  | stopChunks rest => exact .inl rfl
  | chunk taken inside further => exact .inr ⟨_, _, taken, further⟩

theorem exists_entrySize (isMap : Bool) : ∃ count, entrySize isMap = count + 1 := by
  cases isMap
  · exact ⟨0, rfl⟩
  · exact ⟨1, rfl⟩

/-- A read has one outcome at most. -/
theorem Reads.unique {mode : Mode} {bytes first second : List UInt8}
    (left : Reads mode bytes first) (right : Reads mode bytes second) : first = second := by
  induction left generalizing second with
  | nothing bytes =>
    cases right
    rfl
  | definite taken content inside further inductionHypothesis =>
    rcases right.items_cases with ⟨_, _, _, _, takenToo, contentToo, furtherToo⟩ |
      ⟨isText, _, _, rfl, _⟩ | ⟨isMap, _, _, rfl, _⟩
    · rw [taken] at takenToo
      cases takenToo
      rw [content] at contentToo
      cases contentToo
      exact inductionHypothesis furtherToo
    · rw [takeHead_stringStart] at taken
      cases taken
    · rw [takeHead_containerStart] at taken
      cases taken
  | string isText parts further partsHypothesis furtherHypothesis =>
    rcases right.items_cases with ⟨_, _, _, _, taken, _⟩ | ⟨other, _, _, same, partsToo, furtherToo⟩ |
      ⟨other, _, _, same, _⟩
    · rw [takeHead_stringStart] at taken
      cases taken
    · obtain ⟨start, rfl⟩ := List.cons_eq_cons.mp same
      have kind : isText = other := by cases isText <;> cases other <;> first | rfl | cases start
      subst kind
      cases partsHypothesis partsToo
      exact furtherHypothesis furtherToo
    · cases isText <;> cases other <;> cases same
  | container isMap entries further entriesHypothesis furtherHypothesis =>
    rcases right.items_cases with ⟨_, _, _, _, taken, _⟩ | ⟨other, _, _, same, _⟩ |
      ⟨other, _, _, same, entriesToo, furtherToo⟩
    · rw [takeHead_containerStart] at taken
      cases taken
    · cases isMap <;> cases other <;> cases same
    · obtain ⟨start, rfl⟩ := List.cons_eq_cons.mp same
      have kind : isMap = other := by cases isMap <;> cases other <;> first | rfl | cases start
      subst kind
      cases entriesHypothesis entriesToo
      exact furtherHypothesis furtherToo
  | @stop isMap rest =>
    rcases right.untilBreak_cases with same | ⟨_, item, _⟩
    · exact (List.cons_eq_cons.mp same).2
    · obtain ⟨count, size⟩ := exists_entrySize isMap
      rw [size] at item
      exact absurd item not_reads_break
  | @entry _ _ _ isMap item further itemHypothesis furtherHypothesis =>
    rcases right.untilBreak_cases with rfl | ⟨_, itemToo, furtherToo⟩
    · obtain ⟨count, size⟩ := exists_entrySize isMap
      rw [size] at item
      exact absurd item not_reads_break
    · cases itemHypothesis itemToo
      exact furtherHypothesis furtherToo
  | stopChunks rest =>
    rcases right.chunks_cases with same | ⟨_, _, taken, _⟩
    · exact (List.cons_eq_cons.mp same).2
    · rw [takeHead_break] at taken
      cases taken
  | chunk taken inside further inductionHypothesis =>
    rcases right.chunks_cases with rfl | ⟨_, _, takenToo, furtherToo⟩
    · rw [takeHead_break] at taken
      cases taken
    · rw [taken] at takenToo
      cases takenToo
      exact inductionHypothesis furtherToo

/-! ### Bytes behind an item -/

theorem takeHead_append {bytes rest : List UInt8} {head : Head} (more : List UInt8)
    (taken : takeHead bytes = some (head, rest)) :
    takeHead (bytes ++ more) = some (head, rest ++ more) := by
  cases bytes with
  | nil => cases taken
  | cons initial tail =>
    rw [takeHead] at taken
    rw [List.cons_append, takeHead]
    cases width : argumentWidth (initial &&& 0x1F) with
    | none =>
      simp only [width, reduceCtorEq] at taken
    | some width' =>
      simp only [width] at taken ⊢
      by_cases inside : width' ≤ tail.length
      · have longer : width' ≤ (tail ++ more).length := by
          rw [List.length_append]
          omega
        rw [if_pos inside] at taken
        obtain ⟨rfl, rfl⟩ := Prod.mk.inj (Option.some.inj taken)
        rw [if_pos longer, List.take_append_of_le_length inside,
          List.drop_append_of_le_length inside]
      · rw [if_neg inside] at taken
        cases taken

/-- Bytes behind the part that was read are left over. -/
theorem Reads.append {mode : Mode} {bytes last : List UInt8} (reads : Reads mode bytes last)
    (more : List UInt8) : Reads mode (bytes ++ more) (last ++ more) := by
  induction reads with
  | nothing bytes => exact .nothing _
  | definite taken content inside further inductionHypothesis =>
    rw [← List.drop_append_of_le_length inside] at inductionHypothesis
    refine .definite (takeHead_append more taken) content ?_ inductionHypothesis
    rw [List.length_append]
    omega
  | string isText parts further partsHypothesis furtherHypothesis =>
    exact .string isText partsHypothesis furtherHypothesis
  | container isMap entries further entriesHypothesis furtherHypothesis =>
    exact .container isMap entriesHypothesis furtherHypothesis
  | stop rest => exact .stop _
  | entry first further firstHypothesis furtherHypothesis =>
    exact .entry firstHypothesis furtherHypothesis
  | stopChunks rest => exact .stopChunks _
  | chunk taken inside further inductionHypothesis =>
    rw [← List.drop_append_of_le_length inside] at inductionHypothesis
    refine .chunk (takeHead_append more taken) ?_ inductionHypothesis
    rw [List.length_append]
    omega

/-- No well-formed item is the beginning of another. -/
theorem WellFormed.append_eq_nil {bytes more : List UInt8} (first : WellFormed bytes)
    (whole : WellFormed (bytes ++ more)) : more = [] := (first.append more).unique whole

/-! ### Items one after the other -/

/-- The bytes take a read that owes `before` items to one that owes `after`, whatever else it
owes. -/
def Consumes (bytes : List UInt8) (before after : Nat) : Prop :=
  ∀ count rest last, Reads (.items (after + count)) rest last →
    Reads (.items (before + count)) (bytes ++ rest) last

namespace Consumes

variable {first second bytes : List UInt8} {before middle after : Nat}

theorem append (left : Consumes first before middle) (right : Consumes second middle after) :
    Consumes (first ++ second) before after := by
  intro count rest last further
  rw [List.append_assoc]
  exact left count _ last (right count rest last further)

/-- What a read owes besides stays owed. -/
theorem frame (consumes : Consumes bytes before after) (besides : Nat) :
    Consumes bytes (before + besides) (after + besides) := by
  intro count rest last further
  rw [Nat.add_assoc] at further ⊢
  exact consumes (besides + count) rest last further

/-- One more item of those that are owed. -/
theorem item (left : Consumes first before (after + 1)) (right : Consumes second 1 0) :
    Consumes (first ++ second) before after := by
  have one := right.frame after
  rw [Nat.add_comm, Nat.zero_add] at one
  exact left.append one

theorem nil : Consumes [] after after := fun _ _ _ further => further

/-- A head of definite length and the bytes that belong to it. -/
theorem head {head : Head} {children : Nat} {payload : List UInt8}
    (taken : ∀ rest, takeHead (first ++ rest) = some (head, rest))
    (content : head.content = some (payload.length, children)) :
    Consumes (first ++ payload) 1 children := by
  intro count rest last further
  rw [Nat.add_comm 1, List.append_assoc]
  refine .definite (taken _) content ?_ ?_
  · rw [List.length_append]
    omega
  · rwa [List.drop_left]

/-- Items that all change what is owed alike. -/
theorem flatMap {Element : Type} {encode : Element → List UInt8} (elements : List Element)
    (each : ∀ element ∈ elements, Consumes (encode element) (after + 1) after) :
    Consumes (elements.flatMap encode) (after + elements.length) after := by
  induction elements with
  | nil => exact nil
  | cons element rest inductionHypothesis =>
    rw [List.flatMap_cons, List.length_cons]
    have first := (each element List.mem_cons_self).frame rest.length
    rw [Nat.add_right_comm] at first
    exact first.append
      (inductionHypothesis fun other member => each other (List.mem_cons_of_mem _ member))

/-- Items that leave as much owed as before. -/
theorem flatMap_same {Element : Type} {encode : Element → List UInt8} (elements : List Element)
    (each : ∀ element ∈ elements, Consumes (encode element) after after) :
    Consumes (elements.flatMap encode) after after := by
  induction elements with
  | nil => exact nil
  | cons element rest inductionHypothesis =>
    rw [List.flatMap_cons]
    exact (each element List.mem_cons_self).append
      (inductionHypothesis fun other member => each other (List.mem_cons_of_mem _ member))

theorem wellFormed (consumes : Consumes bytes 1 0) : WellFormed bytes := by
  have reads := consumes 0 [] [] (.nothing [])
  rwa [List.append_nil] at reads

end Consumes

end Fleece.DataItem
