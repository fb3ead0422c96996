/-
This file is about JSON objects by their members. A member is what stands between the
quotes of its name, as written, with everything from its colon to the next comma or
the closing bracket. A name that is written with escapes is longer than the name it
stands for, so an object that is no longer than its names and values themselves is
written without escapes and without whitespace.
-/

import Fleece.Hexadecimal
import Fleece.JsonText

namespace Fleece.Json

/-! ### UTF-8 -/

/-- The bytes are those of a sequence of Unicode scalar values. -/
def Utf8 (bytes : List UInt8) : Prop :=
  ∃ chars : List Char, bytes = chars.flatMap String.utf8EncodeChar

theorem Utf8.append {first second : List UInt8} (left : Utf8 first) (right : Utf8 second) :
    Utf8 (first ++ second) := by
  obtain ⟨chars, rfl⟩ := left
  obtain ⟨others, rfl⟩ := right
  exact ⟨chars ++ others, List.flatMap_append.symm⟩

theorem Utf8.ascii {byte : UInt8} (ascii : byte < 0x80) : Utf8 [byte] := by
  have each : ∀ byte : UInt8, byte < 0x80 →
      String.utf8EncodeChar (Char.ofNat byte.toNat) = [byte] := by decide +kernel
  exact ⟨[Char.ofNat byte.toNat], by rw [List.flatMap_singleton, each byte ascii]⟩

theorem Utf8.of_ascii {bytes : List UInt8} (ascii : bytes.all fun byte => byte < 0x80) :
    Utf8 bytes := by
  induction bytes with
  | nil => exact ⟨[], rfl⟩
  | cons byte rest inductionHypothesis =>
    rw [List.all_cons, Bool.and_eq_true, decide_eq_true_eq] at ascii
    exact (Utf8.ascii ascii.1).append (inductionHypothesis ascii.2)

/-- A byte below 0x80 is a character of its own. -/
theorem encodeChar_of_ascii {char : Char} {byte : UInt8}
    (member : byte ∈ String.utf8EncodeChar char) (ascii : byte < 0x80) :
    String.utf8EncodeChar char = [byte] := by
  have high : ∀ mark ∈ [0x80, 0xC0, 0xE0, 0xF0], ∀ low : UInt8, ¬ low ||| mark < 0x80 := by
    decide +kernel
  rcases char.utf8Size_eq with one | two | three | four
  · rw [String.utf8EncodeChar_eq_singleton one] at member ⊢
    rw [List.mem_singleton.mp member]
  · rw [String.utf8EncodeChar_eq_cons_cons two] at member
    rcases List.mem_pair.mp member with rfl | rfl
    · exact absurd ascii (high _ (by decide) _)
    · exact absurd ascii (high _ (by decide) _)
  · rw [String.utf8EncodeChar_eq_cons_cons_cons three] at member
    rcases List.mem_cons.mp member with rfl | member
    · exact absurd ascii (high _ (by decide) _)
    rcases List.mem_pair.mp member with rfl | rfl
    · exact absurd ascii (high _ (by decide) _)
    · exact absurd ascii (high _ (by decide) _)
  · rw [String.utf8EncodeChar_eq_cons_cons_cons_cons four] at member
    rcases List.mem_cons.mp member with rfl | member
    · exact absurd ascii (high _ (by decide) _)
    rcases List.mem_cons.mp member with rfl | member
    · exact absurd ascii (high _ (by decide) _)
    rcases List.mem_pair.mp member with rfl | rfl
    · exact absurd ascii (high _ (by decide) _)
    · exact absurd ascii (high _ (by decide) _)

/-- Bytes around one below 0x80 are UTF-8 on either side of it. -/
theorem Utf8.around {first second : List UInt8} {byte : UInt8} (ascii : byte < 0x80)
    (whole : Utf8 (first ++ byte :: second)) : Utf8 first ∧ Utf8 second := by
  obtain ⟨chars, whole⟩ := whole
  induction chars generalizing first with
  | nil => cases first <;> cases whole
  | cons char rest inductionHypothesis =>
    rw [List.flatMap_cons] at whole
    rcases List.append_eq_append_iff.mp whole with ⟨gap, front, back⟩ | ⟨gap, front, back⟩
    · cases gap with
      | nil =>
        -- the character ends where the byte begins
        rw [List.append_nil] at front
        have right := (@inductionHypothesis [] back).2
        exact ⟨⟨[char], by rw [← front, List.flatMap_singleton]⟩, right⟩
      | cons other tail =>
        obtain ⟨rfl, rest⟩ := List.cons.inj back
        have member : byte ∈ String.utf8EncodeChar char := by
          rw [front]
          exact List.mem_append_right _ List.mem_cons_self
        have single := encodeChar_of_ascii member ascii
        rw [front, List.append_eq_singleton_iff] at single
        rcases single with ⟨rfl, same⟩ | ⟨_, same⟩
        · cases (List.cons.inj same).2
          exact ⟨⟨[], rfl⟩, _, rest⟩
        · cases same
    · obtain ⟨⟨others, isOthers⟩, right⟩ := inductionHypothesis back.symm
      exact ⟨⟨char :: others, by rw [List.flatMap_cons, front, isOthers]⟩, right⟩

/-! ### Names -/

/-- What a byte after a backslash stands for. -/
def escapes : List (UInt8 × UInt8) :=
  [(0x22, 0x22), (0x5C, 0x5C), (0x2F, 0x2F), (0x62, 0x08), (0x66, 0x0C), (0x6E, 0x0A),
    (0x72, 0x0D), (0x74, 0x09)]

/-- The name that the characters between two quotes stand for. Half of a pair of surrogates stands
for no name. -/
inductive Decodes : List UInt8 → List UInt8 → Prop
  | done : Decodes [] []
  | plain {byte : UInt8} {rest name : List UInt8} (printable : 0x20 ≤ byte) (noQuote : byte ≠ 0x22)
      (noBackslash : byte ≠ 0x5C) (tail : Decodes rest name) :
      Decodes (byte :: rest) (byte :: name)
  | escape {mark byte : UInt8} {rest name : List UInt8} (known : (mark, byte) ∈ escapes)
      (tail : Decodes rest name) : Decodes (0x5C :: mark :: rest) (byte :: name)
  | unicode {digits rest name : List UInt8} {char : Char} (four : digits.length = 4)
      (hex : digits.all isHexDigit) (value : Hexadecimal.readDigits 0 digits = char.toNat)
      (tail : Decodes rest name) :
      Decodes (0x5C :: 0x75 :: (digits ++ rest)) (String.utf8EncodeChar char ++ name)
  | surrogates {high low rest name : List UInt8} {char : Char} (four : high.length = 4)
      (fourLow : low.length = 4) (hex : high.all isHexDigit) (hexLow : low.all isHexDigit)
      (isHigh : 0xD800 ≤ Hexadecimal.readDigits 0 high ∧ Hexadecimal.readDigits 0 high < 0xDC00)
      (isLow : 0xDC00 ≤ Hexadecimal.readDigits 0 low ∧ Hexadecimal.readDigits 0 low < 0xE000)
      (value : (Hexadecimal.readDigits 0 high - 0xD800) * 0x400 +
        (Hexadecimal.readDigits 0 low - 0xDC00) + 0x10000 = char.toNat)
      (tail : Decodes rest name) :
      Decodes (0x5C :: 0x75 :: (high ++ 0x5C :: 0x75 :: (low ++ rest)))
        (String.utf8EncodeChar char ++ name)

/-- A name that stands for itself between two quotes. -/
def Plain (name : List UInt8) : Prop := ∀ byte ∈ name, 0x20 ≤ byte ∧ byte ≠ 0x22 ∧ byte ≠ 0x5C

instance (name : List UInt8) : Decidable (Plain name) := List.decidableBAll _ name

theorem Plain.decodes {name : List UInt8} (plain : Plain name) : Decodes name name := by
  induction name with
  | nil => exact .done
  | cons byte rest inductionHypothesis =>
    obtain ⟨printable, noQuote, noBackslash⟩ := plain byte List.mem_cons_self
    exact .plain printable noQuote noBackslash
      (inductionHypothesis fun other member => plain other (List.mem_cons_of_mem byte member))

/-- What needs no escape stands for itself alone. -/
theorem Plain.eq_of_decodes {chars name : List UInt8} (plain : Plain chars)
    (decodes : Decodes chars name) : name = chars := by
  induction decodes with
  | done => rfl
  | @plain byte rest name _ _ _ _ inductionHypothesis =>
    rw [inductionHypothesis fun other member => plain other (List.mem_cons_of_mem byte member)]
  | escape => exact absurd rfl (plain 0x5C List.mem_cons_self).2.2
  | unicode => exact absurd rfl (plain 0x5C List.mem_cons_self).2.2
  | surrogates => exact absurd rfl (plain 0x5C List.mem_cons_self).2.2

theorem Decodes.chars {chars name : List UInt8} (decodes : Decodes chars name) : Chars chars := by
  induction decodes with
  | done => exact .done
  | plain printable noQuote noBackslash _ inductionHypothesis =>
    exact .plain printable noQuote noBackslash inductionHypothesis
  | escape known _ inductionHypothesis =>
    have marks : escapes.all fun pair =>
        pair.1 ∈ [0x22, 0x5C, 0x2F, 0x62, 0x66, 0x6E, 0x72, 0x74] := by decide
    exact .escape (of_decide_eq_true (List.all_eq_true.mp marks _ known)) inductionHypothesis
  | unicode four hex _ _ inductionHypothesis => exact .unicode four hex inductionHypothesis
  | surrogates four fourLow hex hexLow _ _ _ _ inductionHypothesis =>
    exact .unicode four hex (.unicode fourLow hexLow inductionHypothesis)

/-- A name is no longer than what is written for it, and as long only if it stands for itself. -/
theorem Decodes.length_le {chars name : List UInt8} (decodes : Decodes chars name) :
    name.length ≤ chars.length ∧ (chars.length ≤ name.length → Plain name) := by
  induction decodes with
  | done => exact ⟨le_rfl, fun _ => nofun⟩
  | plain printable noQuote noBackslash _ inductionHypothesis =>
    obtain ⟨shorter, plain⟩ := inductionHypothesis
    refine ⟨Nat.succ_le_succ shorter, fun long byte member => ?_⟩
    rcases List.mem_cons.mp member with rfl | later
    · exact ⟨printable, noQuote, noBackslash⟩
    · exact plain (Nat.le_of_succ_le_succ long) byte later
  | escape _ _ inductionHypothesis =>
    obtain ⟨shorter, _⟩ := inductionHypothesis
    simp only [List.length_cons]
    exact ⟨by omega, fun long => by omega⟩
  | @unicode digits rest name char four _ _ _ inductionHypothesis =>
    obtain ⟨shorter, _⟩ := inductionHypothesis
    have size := char.utf8Size_le_four
    simp only [List.length_cons, List.length_append, String.length_utf8EncodeChar, four]
    exact ⟨by omega, fun long => by omega⟩
  | @surrogates high low rest name char four fourLow _ _ _ _ _ _ inductionHypothesis =>
    obtain ⟨shorter, _⟩ := inductionHypothesis
    have size := char.utf8Size_le_four
    simp only [List.length_cons, List.length_append, String.length_utf8EncodeChar, four, fourLow]
    exact ⟨by omega, fun long => by omega⟩

/-! ### Members -/

/-- A JSON text with whitespace around it. -/
def Spaced (bytes : List UInt8) : Prop :=
  ∃ before text after, bytes = before ++ text ++ after ∧ before.all isGap ∧ Text text ∧
    after.all isGap

theorem Spaced.of_text {text : List UInt8} (isText : Text text) : Spaced text :=
  ⟨[], text, [], (List.append_nil _).symm, rfl, isText, rfl⟩

/-- The members of an object, from the first quote or whitespace to the last value: the characters
of each name and what stands behind its colon. -/
inductive Members : List UInt8 → List (List UInt8 × List UInt8) → Prop
  | last {before chars after value : List UInt8} (isBefore : before.all isGap)
      (isChars : Chars chars) (isAfter : after.all isGap) (isValue : Spaced value) :
      Members (before ++ 0x22 :: (chars ++ 0x22 :: (after ++ 0x3A :: value))) [(chars, value)]
  | more {before chars after value rest : List UInt8} {members : List (List UInt8 × List UInt8)}
      (isBefore : before.all isGap) (isChars : Chars chars) (isAfter : after.all isGap)
      (isValue : Spaced value) (later : Members rest members) :
      Members (before ++ 0x22 :: (chars ++ 0x22 :: (after ++ 0x3A :: (value ++ 0x2C :: rest))))
        ((chars, value) :: members)

/-- An object and its members. -/
inductive Object : List UInt8 → List (List UInt8 × List UInt8) → Prop
  | empty {gap : List UInt8} (blank : gap.all isGap) : Object (0x7B :: (gap ++ [0x7D])) []
  | filled {items : List UInt8} {members : List (List UInt8 × List UInt8)}
      (each : Members items members) : Object (0x7B :: (items ++ [0x7D])) members

/-- The value of a name: that of its last member. -/
def HasMember (members : List (List UInt8 × List UInt8)) (name value : List UInt8) : Prop :=
  ∃ before chars after, members = before ++ (chars, value) :: after ∧ Decodes chars name ∧
    ∀ member ∈ after, ¬ Decodes member.1 name

/-- The values of an array, from the first byte to the last. -/
inductive Elements : List UInt8 → List (List UInt8) → Prop
  | last {value : List UInt8} (isValue : Spaced value) : Elements value [value]
  | more {value rest : List UInt8} {values : List (List UInt8)} (isValue : Spaced value)
      (later : Elements rest values) : Elements (value ++ 0x2C :: rest) (value :: values)

/-- An array one of whose elements is the string with a name. -/
def Lists (text name : List UInt8) : Prop :=
  ∃ before items after values, text = before ++ 0x5B :: (items ++ 0x5D :: after) ∧
    before.all isGap ∧ after.all isGap ∧ Elements items values ∧
    ∃ front chars back, front ++ 0x22 :: (chars ++ 0x22 :: back) ∈ values ∧ front.all isGap ∧
      back.all isGap ∧ Decodes chars name

theorem Object.spaced {bytes : List UInt8} {members : List (List UInt8 × List UInt8)}
    (object : Object bytes members) : ∀ member ∈ members, Spaced member.2 := by
  cases object with
  | empty => exact nofun
  | filled each =>
    induction each with
    | last _ _ _ isValue => exact List.forall_mem_singleton.mpr isValue
    | more _ _ _ isValue _ inductionHypothesis =>
      exact List.forall_mem_cons.mpr ⟨isValue, inductionHypothesis⟩

theorem HasMember.spaced {bytes name value : List UInt8} {members : List (List UInt8 × List UInt8)}
    (has : HasMember members name value) (object : Object bytes members) : Spaced value := by
  obtain ⟨before, chars, after, rfl, _⟩ := has
  exact object.spaced _ (List.mem_append_right before List.mem_cons_self)

/-- Among names that stand for themselves, the last member of a name has its value. -/
theorem hasMember_of_plain {before after : List (List UInt8 × List UInt8)} {name value : List UInt8}
    (plain : Plain name) (plainAfter : ∀ member ∈ after, Plain member.1)
    (differ : ∀ member ∈ after, name ≠ member.1) :
    HasMember (before ++ (name, value) :: after) name value := by
  refine ⟨before, name, after, rfl, plain.decodes, fun member isMember decodes => ?_⟩
  exact differ member isMember ((plainAfter member isMember).eq_of_decodes decodes)

theorem Members.derives {items : List UInt8} {members : List (List UInt8 × List UInt8)}
    (each : Members items members) : Derives (.items .member) items := by
  induction each with
  | @last before chars after value isBefore isChars isAfter isValue =>
    obtain ⟨front, text, back, rfl, isFront, isText, isBack⟩ := isValue
    have derives := Derives.last isBefore (.member isChars isAfter isFront isText) isBack
    simpa only [List.append_assoc, List.cons_append, List.nil_append] using derives
  | @more before chars after value rest members isBefore isChars isAfter isValue _
      inductionHypothesis =>
    obtain ⟨front, text, back, rfl, isFront, isText, isBack⟩ := isValue
    have derives := Derives.more isBefore (.member isChars isAfter isFront isText) isBack
      inductionHypothesis
    simpa only [List.append_assoc, List.cons_append, List.nil_append] using derives

/-- An object is a JSON text. -/
theorem Object.text {bytes : List UInt8} {members : List (List UInt8 × List UInt8)}
    (object : Object bytes members) : Text bytes := by
  cases object with
  | empty blank => exact .emptyObject blank
  | filled each => exact .object each.derives

/-! ### Writing an object -/

/-- A name and a value behind one another, as they are. -/
def item (member : List UInt8 × List UInt8) : List UInt8 :=
  0x22 :: (member.1 ++ 0x22 :: 0x3A :: member.2)

/-- The members with a comma between any two. -/
def writeItems : List (List UInt8 × List UInt8) → List UInt8
  | [] => []
  | [member] => item member
  | member :: next :: rest => item member ++ 0x2C :: writeItems (next :: rest)

/-- The text of an object with these members, without white space. -/
def writeObject (members : List (List UInt8 × List UInt8)) : List UInt8 :=
  0x7B :: (writeItems members ++ [0x7D])

/-- A member as it stands in an object, and what it stands for. -/
def Denotes (written member : List UInt8 × List UInt8) : Prop :=
  Decodes written.1 member.1 ∧ written.2 = member.2

theorem length_item (member : List UInt8 × List UInt8) :
    (item member).length = member.1.length + member.2.length + 3 := by
  simp only [item, List.length_cons, List.length_append]
  omega

theorem writeItems_cons {member : List UInt8 × List UInt8}
    {rest : List (List UInt8 × List UInt8)} (more : rest ≠ []) :
    writeItems (member :: rest) = item member ++ 0x2C :: writeItems rest := by
  cases rest with
  | nil => exact absurd rfl more
  | cons => rfl

theorem writeItems_concat (members : List (List UInt8 × List UInt8))
    (member : List UInt8 × List UInt8) :
    writeItems (members ++ [member]) =
      writeItems members ++ (if members = [] then [] else [0x2C]) ++ item member := by
  induction members with
  | nil => rfl
  | cons head rest inductionHypothesis =>
    rw [List.cons_append, writeItems_cons (List.append_ne_nil_of_right_ne_nil _
      (List.cons_ne_nil member [])), inductionHypothesis, if_neg (List.cons_ne_nil head rest)]
    by_cases last : rest = []
    · subst last
      rw [if_pos rfl]
      simp only [writeItems, List.nil_append, List.append_assoc, List.cons_append]
    · rw [if_neg last, writeItems_cons last]
      simp only [List.append_assoc, List.cons_append]

theorem length_writeObject (members : List (List UInt8 × List UInt8)) :
    (writeObject members).length = (writeItems members).length + 2 := by
  rw [writeObject, List.length_cons, List.length_append, List.length_singleton]

theorem length_writeObject_concat (members : List (List UInt8 × List UInt8))
    (member : List UInt8 × List UInt8) :
    (writeObject (members ++ [member])).length =
      (writeObject members).length + (if members = [] then 0 else 1) +
        (member.1.length + member.2.length + 3) := by
  rw [length_writeObject, length_writeObject, writeItems_concat, List.length_append,
    List.length_append, length_item]
  split_ifs
  · rw [List.length_nil]
    omega
  · rw [List.length_singleton]
    omega

section Written

variable {items : List UInt8} {written members : List (List UInt8 × List UInt8)}

theorem Members.ne_nil (each : Members items written) : written ≠ [] := by
  cases each <;> exact List.cons_ne_nil _ _

/-- An object that stands for members is no shorter than they are written, and as short only if all
names stand for themselves. -/
theorem Members.length_le (each : Members items written)
    (denote : List.Forall₂ Denotes written members) :
    (writeItems members).length ≤ items.length ∧
      (items.length ≤ (writeItems members).length → ∀ member ∈ members, Plain member.1) := by
  induction each generalizing members with
  | @last before chars after value =>
    cases denote with
    | @cons _ member _ _ here none =>
      cases none
      obtain ⟨decodes, same⟩ := here
      obtain ⟨shorter, plain⟩ := decodes.length_le
      have values : value.length = member.2.length := congrArg List.length same
      dsimp only at shorter plain
      simp only [writeItems, length_item, List.length_append, List.length_cons]
      refine ⟨by omega, fun long other isOther => ?_⟩
      rw [List.mem_singleton.mp isOther]
      exact plain (by omega)
  | @more before chars after value rest later _ _ _ _ tail inductionHypothesis =>
    cases denote with
    | @cons _ member _ members here others =>
      obtain ⟨decodes, same⟩ := here
      obtain ⟨shorter, plain⟩ := decodes.length_le
      obtain ⟨shorterRest, plainRest⟩ := inductionHypothesis others
      have values : value.length = member.2.length := congrArg List.length same
      have more : members ≠ [] := fun empty => tail.ne_nil (by
        rw [empty] at others
        cases others
        rfl)
      dsimp only at shorter plain
      simp only [writeItems_cons more, length_item, List.length_append, List.length_cons]
      refine ⟨by omega, fun long other isOther => ?_⟩
      rcases List.mem_cons.mp isOther with rfl | isLater
      · exact plain (by omega)
      · exact plainRest (by omega) other isLater

theorem members_writeItems (plain : ∀ member ∈ members, Plain member.1)
    (values : ∀ member ∈ members, Spaced member.2) (some : members ≠ []) :
    Members (writeItems members) members := by
  induction members with
  | nil => exact absurd rfl some
  | cons member rest inductionHypothesis =>
    have chars := (plain member List.mem_cons_self).decodes.chars
    have value := values member List.mem_cons_self
    by_cases last : rest = []
    · subst last
      exact @Members.last [] member.1 [] member.2 rfl chars rfl value
    · rw [writeItems_cons last]
      have later := inductionHypothesis
        (fun other isOther => plain other (List.mem_cons_of_mem member isOther))
        (fun other isOther => values other (List.mem_cons_of_mem member isOther)) last
      have each := @Members.more [] member.1 [] member.2 _ rest rfl chars rfl value later
      simpa only [item, List.nil_append, List.cons_append, List.append_assoc] using each

theorem utf8_writeItems (values : ∀ member ∈ members, Utf8 member.2) :
    Utf8 (writeItems members) ↔ ∀ member ∈ members, Utf8 member.1 := by
  have quote : (0x22 : UInt8) < 0x80 := by decide
  have ofItem (member : List UInt8 × List UInt8) (value : Utf8 member.2) :
      Utf8 (item member) ↔ Utf8 member.1 := by
    constructor
    · intro whole
      exact ((@Utf8.around [] _ _ quote whole).2.around quote).1
    · intro name
      exact (Utf8.ascii quote).append
        (name.append ((Utf8.ascii quote).append ((Utf8.ascii (by decide)).append value)))
  induction members with
  | nil => exact iff_of_true ⟨[], rfl⟩ nofun
  | cons member rest inductionHypothesis =>
    have comma : (0x2C : UInt8) < 0x80 := by decide
    have here := ofItem member (values member List.mem_cons_self)
    have later : Utf8 (writeItems rest) ↔ ∀ member ∈ rest, Utf8 member.1 :=
      inductionHypothesis fun other isOther => values other (List.mem_cons_of_mem member isOther)
    rw [List.forall_mem_cons, ← here, ← later]
    by_cases last : rest = []
    · subst last
      exact (and_iff_left ⟨[], rfl⟩).symm
    · rw [writeItems_cons last]
      exact ⟨fun whole => whole.around comma,
        fun both => both.1.append ((Utf8.ascii comma).append both.2)⟩

/-- With names that stand for themselves, what is written is an object with the members. -/
theorem object_writeObject (plain : ∀ member ∈ members, Plain member.1)
    (values : ∀ member ∈ members, Spaced member.2) : Object (writeObject members) members := by
  by_cases empty : members = []
  · subst empty
    exact @Object.empty [] rfl
  · exact .filled (members_writeItems plain values empty)

/-- What is written is an object that stands for the members exactly if each name stands for itself
and is UTF-8. -/
theorem writeObject_denotes_iff (values : ∀ member ∈ members, Spaced member.2 ∧ Utf8 member.2) :
    (Utf8 (writeObject members) ∧
        ∃ written, Object (writeObject members) written ∧ List.Forall₂ Denotes written members) ↔
      ∀ member ∈ members, Plain member.1 ∧ Utf8 member.1 := by
  have bracket : (0x7B : UInt8) < 0x80 := by decide
  have closing : (0x7D : UInt8) < 0x80 := by decide
  have ofItems : Utf8 (writeObject members) ↔ ∀ member ∈ members, Utf8 member.1 := by
    rw [← utf8_writeItems fun member isMember => (values member isMember).2]
    constructor
    · intro whole
      exact ((@Utf8.around [] _ _ bracket whole).2.around closing).1
    · intro inner
      exact (Utf8.ascii bracket).append (inner.append (Utf8.ascii closing))
  rw [ofItems]
  constructor
  · rintro ⟨names, written, object, denote⟩ member isMember
    refine ⟨?_, names member isMember⟩
    generalize whole : writeObject members = text at object
    cases object with
    | empty =>
      cases denote
      cases isMember
    | @filled items written each =>
      obtain ⟨_, same⟩ := List.cons.inj whole
      obtain rfl := (List.append_inj' same rfl).1
      exact (each.length_le denote).2 le_rfl member isMember
  · intro plain
    refine ⟨fun member isMember => (plain member isMember).2, members, ?_,
      List.forall₂_same.mpr fun member isMember => ⟨(plain member isMember).1.decodes, rfl⟩⟩
    exact object_writeObject (fun member isMember => (plain member isMember).1)
      fun member isMember => (values member isMember).1

end Written

end Fleece.Json
