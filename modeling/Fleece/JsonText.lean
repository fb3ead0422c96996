/-
This file is about JSON texts as sequences of bytes, without the whitespace around
them. A text never goes on after its end: a string ends at its quote and an array
or object at its bracket, whatever follows, and so do the three words. Only a number
may be the beginning of another text, and the next byte is then one of a number.

The bytes of a string from 0x80 on are not looked at.
-/

import Mathlib

namespace Fleece.Json

/-! ### The grammar -/

/-- A decimal digit. -/
def isDigit (byte : UInt8) : Bool := decide (0x30 ≤ byte) && decide (byte ≤ 0x39)

/-- A hexadecimal digit of either case. -/
def isHexDigit (byte : UInt8) : Bool :=
  isDigit byte || (decide (0x41 ≤ byte) && decide (byte ≤ 0x46)) ||
    (decide (0x61 ≤ byte) && decide (byte ≤ 0x66))

/-- Space, tab, line feed and carriage return. -/
def isGap (byte : UInt8) : Bool := byte ∈ [0x20, 0x09, 0x0A, 0x0D]

/-- A sign, a whole part without leading zeros, a fraction and an exponent. -/
inductive Number : List UInt8 → Prop
  | mk {sign whole fraction exponent : List UInt8} (isSign : sign ∈ [[], [0x2D]])
      (isWhole : whole = [0x30] ∨
        ∃ first rest, whole = first :: rest ∧ isDigit first ∧ first ≠ 0x30 ∧ rest.all isDigit)
      (isFraction : fraction = [] ∨
        ∃ digits, fraction = 0x2E :: digits ∧ digits ≠ [] ∧ digits.all isDigit)
      (isExponent : exponent = [] ∨
        ∃ mark sign digits, exponent = mark :: (sign ++ digits) ∧ mark ∈ [0x45, 0x65] ∧
          sign ∈ [[], [0x2B], [0x2D]] ∧ digits ≠ [] ∧ digits.all isDigit) :
      Number (sign ++ whole ++ fraction ++ exponent)

/-- What stands between the quotes of a string. -/
inductive Chars : List UInt8 → Prop
  | done : Chars []
  | plain {byte : UInt8} {rest : List UInt8} (printable : 0x20 ≤ byte) (noQuote : byte ≠ 0x22)
      (noBackslash : byte ≠ 0x5C) (tail : Chars rest) : Chars (byte :: rest)
  | escape {byte : UInt8} {rest : List UInt8}
      (known : byte ∈ [0x22, 0x5C, 0x2F, 0x62, 0x66, 0x6E, 0x72, 0x74]) (tail : Chars rest) :
      Chars (0x5C :: byte :: rest)
  | unicode {digits rest : List UInt8} (four : digits.length = 4) (hex : digits.all isHexDigit)
      (tail : Chars rest) : Chars (0x5C :: 0x75 :: (digits ++ rest))

/-- A value, a member of an object, or a list of one or the other with its commas. -/
inductive Symbol where
  | value
  | member
  | items (single : Symbol)

/-- `true`, `false` and `null`. -/
def words : List (List UInt8) :=
  [[0x74, 0x72, 0x75, 0x65], [0x66, 0x61, 0x6C, 0x73, 0x65], [0x6E, 0x75, 0x6C, 0x6C]]

/-- The texts that a symbol stands for, with white space between the tokens inside. -/
inductive Derives : Symbol → List UInt8 → Prop
  | word {text : List UInt8} (isWord : text ∈ words) : Derives .value text
  | number {text : List UInt8} (isNumber : Number text) : Derives .value text
  | string {chars : List UInt8} (isChars : Chars chars) :
      Derives .value (0x22 :: (chars ++ [0x22]))
  | emptyArray {gap : List UInt8} (isGap : gap.all isGap) :
      Derives .value (0x5B :: (gap ++ [0x5D]))
  | array {items : List UInt8} (each : Derives (.items .value) items) :
      Derives .value (0x5B :: (items ++ [0x5D]))
  | emptyObject {gap : List UInt8} (isGap : gap.all isGap) :
      Derives .value (0x7B :: (gap ++ [0x7D]))
  | object {items : List UInt8} (each : Derives (.items .member) items) :
      Derives .value (0x7B :: (items ++ [0x7D]))
  | member {chars before after value : List UInt8} (isChars : Chars chars)
      (isBefore : before.all isGap) (isAfter : after.all isGap) (isValue : Derives .value value) :
      Derives .member (0x22 :: (chars ++ [0x22]) ++ before ++ [0x3A] ++ after ++ value)
  | last {single : Symbol} {before item after : List UInt8} (isBefore : before.all isGap)
      (isItem : Derives single item) (isAfter : after.all isGap) :
      Derives (.items single) (before ++ item ++ after)
  | more {single : Symbol} {before item after rest : List UInt8} (isBefore : before.all isGap)
      (isItem : Derives single item) (isAfter : after.all isGap)
      (later : Derives (.items single) rest) :
      Derives (.items single) (before ++ item ++ after ++ [0x2C] ++ rest)

/-- A JSON text without whitespace around it. -/
abbrev Text (bytes : List UInt8) : Prop := Derives .value bytes

/-! ### Scanning -/

/-- Outside of a string, inside of one, or after a backslash. -/
inductive Mode where
  | plain
  | quoted
  | escaped
  deriving DecidableEq

/-- The brackets that are open, and where a byte stands towards strings. -/
structure Scan where
  depth : Nat
  mode : Mode
  deriving DecidableEq

/-- How a byte moves the scan on: brackets count outside of strings only. -/
def step : Scan → UInt8 → Scan
  | ⟨depth, .plain⟩, byte =>
    if byte = 0x22 then ⟨depth, .quoted⟩
    else if byte = 0x5B ∨ byte = 0x7B then ⟨depth + 1, .plain⟩
    else if byte = 0x5D ∨ byte = 0x7D then ⟨depth - 1, .plain⟩
    else ⟨depth, .plain⟩
  | ⟨depth, .quoted⟩, byte =>
    if byte = 0x22 then ⟨depth, .plain⟩
    else if byte = 0x5C then ⟨depth, .escaped⟩
    else ⟨depth, .quoted⟩
  | ⟨depth, .escaped⟩, _ => ⟨depth, .quoted⟩

/-- The state after some bytes. -/
def scan (state : Scan) (bytes : List UInt8) : Scan := bytes.foldl step state

/-- The property holds before the first byte and after each of them. -/
def Throughout (Property : Scan → Prop) : Scan → List UInt8 → Prop
  | state, [] => Property state
  | state, byte :: rest => Property state ∧ Throughout Property (step state byte) rest

theorem throughout_append {Property : Scan → Prop} {state : Scan} {first second : List UInt8} :
    Throughout Property state (first ++ second) ↔
      Throughout Property state first ∧ Throughout Property (scan state first) second := by
  induction first generalizing state with
  | nil =>
    refine ⟨fun holds => ⟨?_, holds⟩, fun both => both.2⟩
    cases second with
    | nil => exact holds
    | cons => exact holds.1
  | cons byte rest inductionHypothesis =>
    rw [List.cons_append, Throughout, Throughout, inductionHypothesis, and_assoc]
    rfl

theorem Throughout.imp {Property Other : Scan → Prop} (imp : ∀ state, Property state → Other state)
    {state : Scan} {bytes : List UInt8} (holds : Throughout Property state bytes) :
    Throughout Other state bytes := by
  induction bytes generalizing state with
  | nil => exact imp state holds
  | cons byte rest inductionHypothesis => exact ⟨imp state holds.1, inductionHypothesis holds.2⟩

theorem Throughout.last {Property : Scan → Prop} {state : Scan} {bytes : List UInt8}
    (holds : Throughout Property state bytes) : Property (scan state bytes) := by
  induction bytes generalizing state with
  | nil => exact holds
  | cons byte rest inductionHypothesis => exact inductionHypothesis holds.2

/-- The bytes close whatever they open, and no more than that. -/
structure Balanced (bytes : List UInt8) : Prop where
  back : ∀ depth, scan ⟨depth, .plain⟩ bytes = ⟨depth, .plain⟩
  above : ∀ depth, Throughout (fun state => depth ≤ state.depth) ⟨depth, .plain⟩ bytes

theorem Balanced.nil : Balanced [] := ⟨fun _ => rfl, fun _ => le_refl _⟩

theorem Balanced.append {first second : List UInt8} (left : Balanced first)
    (right : Balanced second) : Balanced (first ++ second) where
  back depth := by
    rw [scan, List.foldl_append]
    exact (congrArg (scan · second) (left.back depth)).trans (right.back depth)
  above depth := throughout_append.mpr ⟨left.above depth, by
    rw [left.back depth]
    exact right.above depth⟩

/-- Neither a quote nor a bracket. -/
def isNeutral (byte : UInt8) : Bool := byte ∉ [0x22, 0x5B, 0x7B, 0x5D, 0x7D]

theorem step_neutral {byte : UInt8} (neutral : isNeutral byte) (depth : Nat) :
    step ⟨depth, .plain⟩ byte = ⟨depth, .plain⟩ := by
  have different := of_decide_eq_true neutral
  simp only [List.mem_cons, List.not_mem_nil, or_false, not_or] at different
  obtain ⟨quote, square, curly, squareEnd, curlyEnd⟩ := different
  rw [step, if_neg quote, if_neg (not_or.mpr ⟨square, curly⟩),
    if_neg (not_or.mpr ⟨squareEnd, curlyEnd⟩)]

theorem Balanced.of_neutral {bytes : List UInt8} (neutral : bytes.all isNeutral) :
    Balanced bytes := by
  induction bytes with
  | nil => exact .nil
  | cons byte rest inductionHypothesis =>
    rw [List.all_cons, Bool.and_eq_true] at neutral
    obtain ⟨back, above⟩ := inductionHypothesis neutral.2
    refine ⟨fun depth => ?_, fun depth => ⟨le_refl _, ?_⟩⟩
    · rw [scan, List.foldl_cons, step_neutral neutral.1]
      exact back depth
    · rw [step_neutral neutral.1]
      exact above depth

/-! ### Numbers and words -/

/-- A byte of a number after its first. -/
def isNumberByte (byte : UInt8) : Bool := isDigit byte || byte ∈ [0x2B, 0x2D, 0x2E, 0x45, 0x65]

theorem neutral_of_isNumberByte : ∀ byte : UInt8, isNumberByte byte → isNeutral byte := by
  decide +kernel

theorem neutral_of_isGap : ∀ byte : UInt8, isGap byte → isNeutral byte := by decide +kernel

theorem all_imp {first second : UInt8 → Bool} (imp : ∀ byte, first byte → second byte)
    {bytes : List UInt8} (all : bytes.all first) : bytes.all second :=
  List.all_eq_true.mpr fun byte member => imp byte (List.all_eq_true.mp all byte member)

theorem numberByte_of_isDigit {bytes : List UInt8} (digits : bytes.all isDigit) :
    bytes.all isNumberByte :=
  all_imp (fun byte digit => by rw [isNumberByte, digit, Bool.true_or]) digits

theorem Number.all {text : List UInt8} (number : Number text) : text.all isNumberByte := by
  cases number with
  | @mk sign whole fraction exponent isSign isWhole isFraction isExponent =>
    have signed : ∀ sign ∈ [[], [0x2B], [0x2D]], List.all sign isNumberByte := by decide
    have left : sign.all isNumberByte := signed sign (List.mem_cons.mpr
      ((List.mem_cons.mp isSign).imp id (List.mem_cons_of_mem _)))
    have middle : whole.all isNumberByte := by
      rcases isWhole with rfl | ⟨first, rest, rfl, digit, _, digits⟩
      · decide
      · exact numberByte_of_isDigit (by rw [List.all_cons, digit, digits]; rfl)
    have point : fraction.all isNumberByte := by
      rcases isFraction with rfl | ⟨digits, rfl, _, isDigits⟩
      · rfl
      · rw [List.all_cons, numberByte_of_isDigit isDigits]
        decide
    have power : exponent.all isNumberByte := by
      rcases isExponent with rfl | ⟨mark, sign, digits, rfl, isMark, isSign, _, isDigits⟩
      · rfl
      · have marked : ∀ mark ∈ [0x45, 0x65], isNumberByte mark := by decide +kernel
        rw [List.all_cons, List.all_append, marked mark isMark, signed sign isSign,
          numberByte_of_isDigit isDigits]
        rfl
    rw [List.all_append, List.all_append, List.all_append, left, middle, point, power]
    rfl

/-- A number begins with a digit or a minus sign. -/
theorem Number.head {text : List UInt8} (number : Number text) :
    ∃ first rest, text = first :: rest ∧ (isDigit first || first = 0x2D) := by
  cases number with
  | @mk sign whole fraction exponent isSign isWhole =>
    have start : ∃ first rest, whole = first :: rest ∧ isDigit first := by
      rcases isWhole with rfl | ⟨first, rest, rfl, digit, _⟩
      · exact ⟨0x30, [], rfl, by decide⟩
      · exact ⟨first, rest, rfl, digit⟩
    obtain ⟨first, rest, rfl, digit⟩ := start
    rcases List.mem_cons.mp isSign with rfl | minus
    · exact ⟨first, rest ++ fraction ++ exponent, by simp, by rw [digit, Bool.true_or]⟩
    · rw [List.mem_singleton.mp minus]
      exact ⟨0x2D, first :: rest ++ fraction ++ exponent, by simp, by decide⟩

/-! ### Strings -/

/-- Between the quotes, outside of no string. -/
theorem quoted_plain (depth : Nat) {byte : UInt8} (noQuote : byte ≠ 0x22)
    (noBackslash : byte ≠ 0x5C) : step ⟨depth, .quoted⟩ byte = ⟨depth, .quoted⟩ := by
  rw [step, if_neg noQuote, if_neg noBackslash]

theorem quoted_hex (depth : Nat) {digits : List UInt8} (hex : digits.all isHexDigit) :
    scan ⟨depth, .quoted⟩ digits = ⟨depth, .quoted⟩ ∧
      Throughout (fun state => state.depth = depth ∧ state.mode ≠ .plain)
        ⟨depth, .quoted⟩ digits := by
  have plain : ∀ byte : UInt8, isHexDigit byte → byte ≠ 0x22 ∧ byte ≠ 0x5C := by decide +kernel
  induction digits with
  | nil => exact ⟨rfl, rfl, nofun⟩
  | cons byte rest inductionHypothesis =>
    rw [List.all_cons, Bool.and_eq_true] at hex
    obtain ⟨back, inside⟩ := inductionHypothesis hex.2
    have stays := quoted_plain depth (plain byte hex.1).1 (plain byte hex.1).2
    refine ⟨?_, ⟨rfl, nofun⟩, ?_⟩
    · rw [scan, List.foldl_cons, stays]
      exact back
    · rw [stays]
      exact inside

/-- What stands between the quotes does not end the string. -/
theorem Chars.quoted {chars : List UInt8} (isChars : Chars chars) (depth : Nat) :
    scan ⟨depth, .quoted⟩ chars = ⟨depth, .quoted⟩ ∧
      Throughout (fun state => state.depth = depth ∧ state.mode ≠ .plain) ⟨depth, .quoted⟩ chars := by
  induction isChars with
  | done => exact ⟨rfl, rfl, nofun⟩
  | plain printable noQuote noBackslash tail inductionHypothesis =>
    obtain ⟨back, inside⟩ := inductionHypothesis
    have stays := quoted_plain depth noQuote noBackslash
    refine ⟨?_, ⟨rfl, nofun⟩, ?_⟩
    · rw [scan, List.foldl_cons, stays]
      exact back
    · rw [stays]
      exact inside
  | escape known tail inductionHypothesis =>
    exact ⟨inductionHypothesis.1, ⟨rfl, nofun⟩, ⟨rfl, nofun⟩, inductionHypothesis.2⟩
  | @unicode digits rest four hex tail inductionHypothesis =>
    obtain ⟨back, inside⟩ := quoted_hex depth hex
    refine ⟨?_, ⟨rfl, nofun⟩, ⟨rfl, nofun⟩, ?_⟩
    · show scan ⟨depth, .quoted⟩ (digits ++ rest) = _
      rw [scan, List.foldl_append]
      exact (congrArg (scan · rest) back).trans inductionHypothesis.1
    · show Throughout _ ⟨depth, .quoted⟩ (digits ++ rest)
      refine throughout_append.mpr ⟨inside, ?_⟩
      rw [back]
      exact inductionHypothesis.2

/-! ### Enclosed texts -/

/-- Inside of a string or a bracket. -/
def Open (state : Scan) : Prop := 0 < state.depth ∨ state.mode ≠ .plain

/-- The text ends where what its first byte opens is closed. -/
structure Enclosed (bytes : List UInt8) : Prop where
  back : scan ⟨0, .plain⟩ bytes = ⟨0, .plain⟩
  inside : ∃ first body last, bytes = first :: (body ++ [last]) ∧ first ∈ [0x22, 0x5B, 0x7B] ∧
    Throughout Open (step ⟨0, .plain⟩ first) body

theorem Chars.balanced {chars : List UInt8} (isChars : Chars chars) :
    Balanced (0x22 :: (chars ++ [0x22])) where
  back depth := by
    show scan ⟨depth, .quoted⟩ (chars ++ [0x22]) = _
    rw [scan, List.foldl_append]
    exact congrArg (scan · [0x22]) (isChars.quoted depth).1
  above depth := by
    refine ⟨le_refl _, throughout_append.mpr ⟨?_, ?_⟩⟩
    · exact (isChars.quoted depth).2.imp fun state held => held.1.ge
    · show Throughout _ (scan ⟨depth, .quoted⟩ chars) _
      rw [(isChars.quoted depth).1]
      exact ⟨le_refl _, le_refl _⟩

theorem Chars.enclosed {chars : List UInt8} (isChars : Chars chars) :
    Enclosed (0x22 :: (chars ++ [0x22])) :=
  ⟨isChars.balanced.back 0, 0x22, chars, 0x22, rfl, by decide,
    (isChars.quoted 0).2.imp fun _ held => .inr held.2⟩

section Brackets

variable {opening closing : UInt8} {body : List UInt8} (balanced : Balanced body)
  (opens : opening ∈ [0x5B, 0x7B]) (closes : closing ∈ [0x5D, 0x7D])
include balanced opens closes

omit balanced closes in
theorem step_opening (depth : Nat) : step ⟨depth, .plain⟩ opening = ⟨depth + 1, .plain⟩ := by
  rcases List.mem_cons.mp opens with rfl | later
  · rfl
  · rw [List.mem_singleton.mp later]
    rfl

omit balanced opens in
theorem step_closing (depth : Nat) : step ⟨depth + 1, .plain⟩ closing = ⟨depth, .plain⟩ := by
  rcases List.mem_cons.mp closes with rfl | later
  · rfl
  · rw [List.mem_singleton.mp later]
    rfl

theorem balanced_brackets : Balanced (opening :: (body ++ [closing])) where
  back depth := by
    rw [scan, List.foldl_cons, step_opening opens, List.foldl_append]
    refine (congrArg (scan · [closing]) (balanced.back (depth + 1))).trans ?_
    exact step_closing closes depth
  above depth := by
    refine ⟨le_refl _, ?_⟩
    rw [step_opening opens]
    refine throughout_append.mpr ⟨?_, ?_⟩
    · exact (balanced.above (depth + 1)).imp fun _ deep => Nat.le_of_succ_le deep
    · rw [balanced.back]
      refine ⟨Nat.le_succ depth, ?_⟩
      show depth ≤ (step ⟨depth + 1, .plain⟩ closing).depth
      rw [step_closing closes]

theorem enclosed_brackets : Enclosed (opening :: (body ++ [closing])) := by
  refine ⟨(balanced_brackets balanced opens closes).back 0, opening, body, closing, rfl,
    List.mem_cons_of_mem _ opens, ?_⟩
  rw [step_opening opens]
  exact (balanced.above 1).imp fun _ deep => .inl deep

end Brackets

theorem Balanced.of_gap {gap : List UInt8} (blank : gap.all isGap) : Balanced gap :=
  .of_neutral (all_imp neutral_of_isGap blank)

theorem Derives.balanced {symbol : Symbol} {bytes : List UInt8} (derives : Derives symbol bytes) :
    Balanced bytes := by
  induction derives with
  | word isWord =>
    have neutral : ∀ word ∈ words, word.all isNeutral := by decide
    exact .of_neutral (neutral _ isWord)
  | number isNumber => exact .of_neutral (all_imp neutral_of_isNumberByte isNumber.all)
  | string isChars => exact isChars.balanced
  | emptyArray blank => exact balanced_brackets (.of_gap blank) (by decide) (by decide)
  | array _ inductionHypothesis =>
    exact balanced_brackets inductionHypothesis (by decide) (by decide)
  | emptyObject blank => exact balanced_brackets (.of_gap blank) (by decide) (by decide)
  | object _ inductionHypothesis =>
    exact balanced_brackets inductionHypothesis (by decide) (by decide)
  | member isChars isBefore isAfter _ inductionHypothesis =>
    exact (((isChars.balanced.append (.of_gap isBefore)).append (.of_neutral (by decide))).append
      (.of_gap isAfter)).append inductionHypothesis
  | last isBefore _ isAfter inductionHypothesis =>
    exact ((Balanced.of_gap isBefore).append inductionHypothesis).append (.of_gap isAfter)
  | more isBefore _ isAfter _ inductionHypothesis later =>
    exact ((((Balanced.of_gap isBefore).append inductionHypothesis).append
      (.of_gap isAfter)).append (.of_neutral (by decide))).append later

/-! ### Where a text ends -/

/-- A text that is closed at its end does not go on. -/
theorem Enclosed.ends {bytes rest : List UInt8} {byte : UInt8} (short : Enclosed bytes)
    (long : Enclosed (bytes ++ byte :: rest)) : False := by
  obtain ⟨back, first, body, last, rfl, _, _⟩ := short
  obtain ⟨_, first', body', last', same, _, inside⟩ := long
  obtain rfl : first = first' := (List.cons.inj same).1
  obtain ⟨front, back', whole⟩ : ∃ front final, byte :: rest = front ++ [final] :=
    ⟨_, _, (List.dropLast_append_getLast (List.cons_ne_nil byte rest)).symm⟩
  rw [whole, ← List.append_assoc] at same
  obtain ⟨_, same⟩ := List.cons.inj same
  obtain rfl := (List.append_inj' same rfl).1
  have isOpen := (throughout_append.mp inside).1.last
  rw [show scan (step ⟨0, .plain⟩ first) (body ++ [last]) = ⟨0, .plain⟩ from back] at isOpen
  exact isOpen.elim (Nat.lt_irrefl 0) fun mode => mode rfl

/-- What a text starts as. -/
inductive Kind where
  | word
  | number
  | enclosed
  deriving DecidableEq

/-- The first byte tells what a text is. -/
def kindOf (first : UInt8) : Kind :=
  if first ∈ [0x22, 0x5B, 0x7B] then .enclosed
  else if isDigit first || first = 0x2D then .number
  else .word

theorem Enclosed.kind {bytes : List UInt8} (enclosed : Enclosed bytes) :
    ∃ first rest, bytes = first :: rest ∧ kindOf first = .enclosed := by
  obtain ⟨_, first, body, last, rfl, opens, _⟩ := enclosed
  exact ⟨first, body ++ [last], rfl, if_pos opens⟩

theorem Number.kind {bytes : List UInt8} (number : Number bytes) :
    ∃ first rest, bytes = first :: rest ∧ kindOf first = .number := by
  obtain ⟨first, rest, rfl, starts⟩ := number.head
  have kinds : ∀ byte : UInt8, (isDigit byte || byte = 0x2D) → kindOf byte = .number := by
    decide +kernel
  exact ⟨first, rest, rfl, kinds first starts⟩

theorem kind_of_word {bytes : List UInt8} (isWord : bytes ∈ words) :
    ∃ first rest, bytes = first :: rest ∧ kindOf first = .word := by
  have starts : ∀ word ∈ words, word.head? = some (word.headD 0) ∧
      kindOf (word.headD 0) = .word := by decide
  obtain ⟨head, kind⟩ := starts bytes isWord
  obtain ⟨rest, whole⟩ := List.head?_eq_some_iff.mp head
  exact ⟨_, rest, whole, kind⟩

/-- What a text is, with the kind that its first byte tells. -/
theorem Text.cases {bytes : List UInt8} (text : Text bytes) :
    ∃ first rest, bytes = first :: rest ∧
      ((kindOf first = .word ∧ bytes ∈ words) ∨ (kindOf first = .number ∧ Number bytes) ∨
        (kindOf first = .enclosed ∧ Enclosed bytes)) := by
  have enclosed {bytes : List UInt8} (held : Enclosed bytes) : ∃ first rest, bytes = first :: rest ∧
      ((kindOf first = .word ∧ bytes ∈ words) ∨ (kindOf first = .number ∧ Number bytes) ∨
        (kindOf first = .enclosed ∧ Enclosed bytes)) := by
    obtain ⟨first, rest, whole, kind⟩ := held.kind
    exact ⟨first, rest, whole, .inr (.inr ⟨kind, held⟩)⟩
  cases text with
  | word isWord =>
    obtain ⟨first, rest, whole, kind⟩ := kind_of_word isWord
    exact ⟨first, rest, whole, .inl ⟨kind, isWord⟩⟩
  | number isNumber =>
    obtain ⟨first, rest, whole, kind⟩ := isNumber.kind
    exact ⟨first, rest, whole, .inr (.inl ⟨kind, isNumber⟩)⟩
  | string isChars => exact enclosed isChars.enclosed
  | emptyArray blank => exact enclosed (enclosed_brackets (.of_gap blank) (by decide) (by decide))
  | array each => exact enclosed (enclosed_brackets each.balanced (by decide) (by decide))
  | emptyObject blank => exact enclosed (enclosed_brackets (.of_gap blank) (by decide) (by decide))
  | object each => exact enclosed (enclosed_brackets each.balanced (by decide) (by decide))

/-- Only a number goes on after its end, and with a byte of a number. -/
theorem Text.next {bytes rest : List UInt8} {byte : UInt8} (short : Text bytes)
    (long : Text (bytes ++ byte :: rest)) : isNumberByte byte := by
  obtain ⟨first, tail, rfl, what⟩ := short.cases
  obtain ⟨first', tail', same, whatLong⟩ := long.cases
  obtain rfl : first = first' := (List.cons.inj same).1
  rcases what with ⟨kind, isWord⟩ | ⟨kind, _⟩ | ⟨kind, enclosed⟩ <;>
    rcases whatLong with ⟨kindLong, isWordLong⟩ | ⟨kindLong, number⟩ | ⟨kindLong, enclosedLong⟩ <;>
    rw [kind] at kindLong <;> cases kindLong
  · -- no word begins with another
    have separate : ∀ word ∈ words, ∀ other ∈ words, word <+: other → word = other := by decide
    have equal := separate _ isWord _ isWordLong (List.prefix_append _ _)
    have length := congrArg List.length equal
    rw [List.length_append, List.length_cons, List.length_cons] at length
    omega
  · have bytes := number.all
    rw [List.all_append, Bool.and_eq_true] at bytes
    have after := bytes.2
    rw [List.all_cons, Bool.and_eq_true] at after
    exact after.1
  · exact (enclosed.ends enclosedLong).elim

/-- Two texts that are followed by something else than a byte of a number are read apart from it in
one way. -/
theorem Text.split {first second left right : List UInt8} (isText : Text first)
    (isOther : Text second) (same : first ++ left = second ++ right)
    (ends : ∀ byte ∈ left.head?, isNumberByte byte = false)
    (endsOther : ∀ byte ∈ right.head?, isNumberByte byte = false) :
    first = second ∧ left = right := by
  rcases List.append_eq_append_iff.mp same with ⟨gap, longer, rest⟩ | ⟨gap, longer, rest⟩
  · cases gap with
    | nil => exact ⟨by rw [longer, List.append_nil], by rw [rest, List.nil_append]⟩
    | cons byte tail =>
      have goesOn := isText.next (longer ▸ isOther)
      rw [ends byte (by rw [rest]; rfl)] at goesOn
      cases goesOn
  · cases gap with
    | nil => exact ⟨by rw [longer, List.append_nil], by rw [rest, List.nil_append]⟩
    | cons byte tail =>
      have goesOn := isOther.next (longer ▸ isText)
      rw [endsOther byte (by rw [rest]; rfl)] at goesOn
      cases goesOn

end Fleece.Json
