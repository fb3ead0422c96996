/-
This file models the plan editor's side of a plan blob: the codec `cbor.js` and the
functions `serialize` and `parse` of `plan.js`.

A string of the editor is a list of characters, as it is well-formed. The numbers that
count are whole ones and are kept as such; the numbers of a plan are 64-bit floats. The
writer's list `out` is the list of bytes it becomes, and an array of the language holds
fewer than 2^32 elements, so that the `push` after the last of them throws. The reader
is a function of what is left from its position on. A position that is no longer a
number is `none`: it comes of an argument that the end of the buffer cuts off, which
the loop of the reader turns into NaN.
-/

import Fleece.Plan
import Fleece.PlanBlob

namespace Fleece

namespace Editor

/-! ### Models -/

/-- The limits of the language on the lengths of arrays. -/
structure ArraysFit (plan : Plan (List Char)) : Prop where
  actions : plan.actions.length < 2 ^ 32
  pre : ∀ a ∈ plan.actions, a.pre.length < 2 ^ 32
  eff : ∀ a ∈ plan.actions, a.eff.length < 2 ^ 32
  goals : plan.goals.length < 2 ^ 32
  utilities : plan.utilities.length < 2 ^ 32
  points : ∀ u ∈ plan.utilities, u.points.length < 2 ^ 32
  missions : plan.missions.length < 2 ^ 32
  goalIds : ∀ m ∈ plan.missions, m.goalIds.length < 2 ^ 32

/-- A model of the editor. Its arrays and its strings are values of the language, whose strings have
fewer than 2^53 elements. -/
structure Model extends Plan (List Char) where
  arrays : ArraysFit toPlan
  strings : toPlan.Every (fun s => s.length < 2 ^ 53) fun _ => True

/-! ### Strings -/

/-- `new TextEncoder().encode(s)`. -/
def textEncode (s : List Char) : List UInt8 := s.flatMap String.utf8EncodeChar

/-- How many bytes a sequence that is not well-formed takes up: the lead byte and what could follow
it. -/
def malformedSize : List UInt8 → Nat
  | [] => 0
  | lead :: rest =>
    let needed := if 0xC2 ≤ lead ∧ lead ≤ 0xDF then 1
      else if 0xE0 ≤ lead ∧ lead ≤ 0xEF then 2
      else if 0xF0 ≤ lead ∧ lead ≤ 0xF4 then 3
      else 0
    let lower := if lead = 0xE0 then 0xA0 else if lead = 0xF0 then 0x90 else 0x80
    let upper := if lead = 0xED then 0x9F else if lead = 0xF4 then 0x8F else 0xBF
    match rest.take needed with
    | [] => 1
    | first :: others =>
      if lower ≤ first ∧ first ≤ upper then
        2 + (others.takeWhile fun byte => decide (0x80 ≤ byte ∧ byte ≤ 0xBF)).length
      else 1

/-- The characters of a byte string; what is not well-formed is read as U+FFFD. -/
def decodeChars : Nat → List UInt8 → List Char
  | 0, _ => []
  | left + 1, bytes =>
    if bytes = [] then []
    else
      match bytes.toByteArray.utf8DecodeChar? 0 with
      | some c => c :: decodeChars left (bytes.drop c.utf8Size)
      | none => '\uFFFD' :: decodeChars left (bytes.drop (malformedSize bytes))

/-- `new TextDecoder().decode(bytes)`, which leaves out a byte order mark at the start. -/
def textDecode (bytes : List UInt8) : List Char :=
  match decodeChars bytes.length bytes with
  | [] => []
  | c :: rest => if c = '\uFEFF' then rest else c :: rest

/-! ### Writing -/

/-- The conversion of a whole number to a 32-bit integer. -/
def toInt32 (n : Nat) : Int :=
  if n % 2 ^ 32 < 2 ^ 31 then (n % 2 ^ 32 : Nat) else (n % 2 ^ 32 : Nat) - 2 ^ 32

/-- `x & 0xFF` of a 32-bit integer. -/
def lowByte (x : Int) : UInt8 := UInt8.ofNat (x % 256).toNat

/-- `numIsUint`. -/
def numIsUint (v : Binary64) : Bool := v.isInteger && v.ge .zero && v.lt .two64

/-- `+v || 0` of a number. -/
def orZero (v : Binary64) : Binary64 := if v.isNan ∨ v.magnitude = 0 then .zero else v

namespace Writer

/-- `head`. Division by a power of 256 is exact and `& 0xFF` drops what is behind the point. -/
def head (major v : Nat) : List UInt8 :=
  let mt := major <<< 5
  if v < 24 then [UInt8.ofNat (mt ||| v)]
  else if v ≤ 0xFF then [UInt8.ofNat (mt ||| 24), UInt8.ofNat v]
  else if v ≤ 0xFFFF then
    [UInt8.ofNat (mt ||| 25), lowByte (toInt32 v >>> (8 : Nat)), lowByte (toInt32 v)]
  else if v ≤ 0xFFFFFFFF then
    UInt8.ofNat (mt ||| 26) :: [3, 2, 1, 0].map fun i : Nat => lowByte (toInt32 v >>> (8 * i))
  else
    UInt8.ofNat (mt ||| 27) ::
      [7, 6, 5, 4, 3, 2, 1, 0].map fun i : Nat => lowByte (toInt32 (v / 256 ^ i))

/-- `Writer.uint`, of major type 0. -/
def uint (v : Nat) : List UInt8 := head 0 v

/-- `Writer.arrayHeader`, of major type 4. -/
def arrayHeader (count : Nat) : List UInt8 := head 4 count

/-- `Writer.text`: the head counts the bytes of the encoding. -/
def text (s : List Char) : List UInt8 := head 3 (textEncode s).length ++ textEncode s

/-- `Writer.num`: an unsigned integer where the number is one, else a binary64. -/
def num (v : Binary64) : List UInt8 :=
  if numIsUint v then uint v.trunc else 0xFB :: bigEndian 8 v.bits

end Writer

open Writer in
/-- The bytes that `serialize` pushes. -/
def pushed (m : Plan (List Char)) : List UInt8 :=
  planMagic ++
    arrayHeader 5 ++ text m.name ++
    (arrayHeader m.actions.length ++ m.actions.flatMap fun a =>
      arrayHeader 8 ++ text a.id ++ text a.name ++ text a.cost ++ text a.dest ++
        num (orZero a.dur) ++ text a.exec ++
        (arrayHeader a.pre.length ++ a.pre.flatMap text) ++
        (arrayHeader a.eff.length ++ a.eff.flatMap text)) ++
    (arrayHeader m.goals.length ++ m.goals.flatMap fun g =>
      arrayHeader 5 ++ text g.id ++ text g.name ++ text g.expr ++ num (orZero g.priority) ++
        text g.curveId) ++
    (arrayHeader m.utilities.length ++ m.utilities.flatMap fun u =>
      arrayHeader 7 ++ text u.id ++ text u.name ++ text u.dim ++ num (orZero u.xMin) ++
        num (orZero u.xMax) ++
        (arrayHeader u.points.length ++ u.points.flatMap fun p =>
          arrayHeader 2 ++ num (orZero p.x) ++ num (orZero p.y))) ++
    (arrayHeader m.missions.length ++ m.missions.flatMap fun ms =>
      arrayHeader 4 ++ text ms.id ++ text ms.name ++
        (arrayHeader ms.goalIds.length ++ ms.goalIds.flatMap text) ++ text ms.note)

/-- `serialize`. It throws where its list of bytes grows past the limit of the language. -/
def serialize (m : Model) : Option (List UInt8) :=
  if (pushed m.toPlan).length < 2 ^ 32 then some (pushed m.toPlan) else none

/-! ### Reading -/

/-- What is left of the buffer from the position of a reader on. -/
abbrev Left : Type := Option (List UInt8)

/-- What `readHead` returns; a value that is not a number is `none`. -/
structure ReaderHead where
  major : UInt8
  value : Option Nat

/-- The number nearest to a whole one. -/
def rounded (n : Nat) : Nat := (Binary64.ofNat n).trunc

/-- A number as the reader returns it, with `none` for NaN. -/
def toNumber (value : Option Nat) : Binary64 := value.elim ⟨0x7FF8000000000000⟩ Binary64.ofNat

namespace Reader

/-- `readInt` and `readInt8`: `v = v * 256 + this.buf[this.pos++]`. -/
def readInt : Nat → List UInt8 → Option Nat → Option Nat × List UInt8
  | 0, left, v => (v, left)
  | count + 1, [], _ => readInt count [] none
  | count + 1, byte :: left, v => readInt count left (v.map fun v => rounded (v * 256 + byte.toNat))

/-- The head whose argument takes so many bytes. -/
def readWide (major : UInt8) (count : Nat) (left : List UInt8) : ReaderHead × Left :=
  let result := readInt count left (some 0)
  (⟨major, result.1⟩, some result.2)

/-- `readHead`. From a position that is not a number it reads the byte `undefined`, whose bits are
those of zero. -/
def readHead : Left → Except String (ReaderHead × Left)
  | none => .ok (⟨0, some 0⟩, none)
  | some [] => .error "CBOR: unexpected end of input"
  | some (byte :: left) =>
    let major := byte >>> 5
    let ai := byte &&& 0x1F
    if ai < 24 then .ok (⟨major, some ai.toNat⟩, some left)
    else if ai = 24 then .ok (readWide major 1 left)
    else if ai = 25 then .ok (readWide major 2 left)
    else if ai = 26 then .ok (readWide major 4 left)
    else if ai = 27 then .ok (readWide major 8 left)
    else .error ("CBOR: unsupported additional info " ++ toString ai.toNat)

/-- `text`. A length that is NaN passes the check, yields no bytes and spoils the position. -/
def text (left : Left) : Except String (List Char × Left) := do
  let (head, left) ← readHead left
  if head.major ≠ 3 then .error "CBOR: expected text string"
  else
    match left, head.value with
    | some left, some len =>
      if left.length < len then .error "CBOR: string out of bounds"
      else .ok (textDecode (left.take len), some (left.drop len))
    | _, _ => .ok ([], none)

/-- `Reader.arrayHeader`. -/
def arrayHeader (left : Left) : Except String (Option Nat × Left) := do
  let (head, left) ← readHead left
  if head.major ≠ 4 then .error "CBOR: expected array" else .ok (head.value, left)

/-- `num`. For a float64 `readHead` has read the eight bytes behind the head, and `value` is that
number; the branch that is to read them asks for the additional information 27 in its place. -/
def num (left : Left) : Except String (Binary64 × Left) := do
  let (head, left) ← readHead left
  if head.major = 0 then .ok (toNumber head.value, left)
  else if head.major = 7 ∧ head.value = some 27 then
    match left with
    | some left =>
      if left.length < 8 then .error "Offset is outside the bounds of the DataView"
      else .ok (⟨(left.take 8).foldl shiftIn 0⟩, some (left.drop 8))
    | none => .ok (toNumber none, none)
  else .error "CBOR: expected number"

/-- `for (let i = 0; i < n; i++)`, which does not run when `n` is NaN. -/
def repeated {Element : Type} (read : Left → Except String (Element × Left)) :
    Nat → Left → Except String (List Element × Left)
  | 0, left => .ok ([], left)
  | count + 1, left => do
    let (element, left) ← read left
    let (rest, left) ← repeated read count left
    .ok (element :: rest, left)

/-- An array of elements that one reader reads. -/
def array {Element : Type} (read : Left → Except String (Element × Left)) (left : Left) :
    Except String (List Element × Left) := do
  let (count, left) ← arrayHeader left
  repeated read (count.getD 0) left

/-- `Reader.done`: the position is the length of the buffer. -/
def done (left : Left) : Bool := left == some []

end Reader

open Reader in
/-- The record of an action as `parse` reads it. -/
def parseAction (left : Left) : Except String (PlanAction (List Char) × Left) := do
  let (size, left) ← arrayHeader left
  if size ≠ some 8 then .error "bad action record"
  else
    let (id, left) ← text left
    let (name, left) ← text left
    let (cost, left) ← text left
    let (dest, left) ← text left
    let (dur, left) ← num left
    let (exec, left) ← text left
    let (pre, left) ← array text left
    let (eff, left) ← array text left
    .ok (⟨id, name, cost, dest, dur, exec, pre, eff⟩, left)

open Reader in
/-- The record of a goal as `parse` reads it. -/
def parseGoal (left : Left) : Except String (PlanGoal (List Char) × Left) := do
  let (size, left) ← arrayHeader left
  if size ≠ some 5 then .error "bad goal record"
  else
    let (id, left) ← text left
    let (name, left) ← text left
    let (expr, left) ← text left
    let (priority, left) ← num left
    let (curveId, left) ← text left
    .ok (⟨id, name, expr, priority, curveId⟩, left)

open Reader in
/-- A point of a curve as `parse` reads it. -/
def parsePoint (left : Left) : Except String (PlanPoint × Left) := do
  let (size, left) ← arrayHeader left
  if size ≠ some 2 then .error "bad utility point"
  else
    let (x, left) ← num left
    let (y, left) ← num left
    .ok (⟨x, y⟩, left)

open Reader in
/-- The record of a curve as `parse` reads it, behind a header of seven. -/
def parseUtility (left : Left) : Except String (PlanUtility (List Char) × Left) := do
  let (size, left) ← arrayHeader left
  if size ≠ some 7 then .error "bad utility record"
  else
    let (id, left) ← text left
    let (name, left) ← text left
    let (dim, left) ← text left
    let (xMin, left) ← num left
    let (xMax, left) ← num left
    let (points, left) ← array parsePoint left
    .ok (⟨id, name, dim, xMin, xMax, points⟩, left)

open Reader in
/-- The record of a mission as `parse` reads it. -/
def parseMission (left : Left) : Except String (PlanMission (List Char) × Left) := do
  let (size, left) ← arrayHeader left
  if size ≠ some 4 then .error "bad mission record"
  else
    let (id, left) ← text left
    let (name, left) ← text left
    let (goalIds, left) ← array text left
    let (note, left) ← text left
    .ok (⟨id, name, goalIds, note⟩, left)

open Reader in
/-- The body of a blob, up to the check that it ends there. -/
def parseBody (left : Left) : Except String (Plan (List Char) × Left) := do
  let (top, left) ← arrayHeader left
  if top ≠ some 5 then .error "bad body structure"
  else
    let (name, left) ← text left
    let (actions, left) ← array parseAction left
    let (goals, left) ← array parseGoal left
    let (utilities, left) ← array parseUtility left
    let (missions, left) ← array parseMission left
    .ok (⟨name, actions, goals, utilities, missions⟩, left)

/-- `parse`: the prefix, the body, and nothing after it. -/
def parse : List UInt8 → Except String (Plan (List Char))
  | first :: second :: version :: body =>
    if first ≠ 0x46 ∨ second ≠ 0x50 then .error "bad magic - not a fleece plan blob"
    else if version ≠ 2 then .error ("unsupported plan version " ++ toString version.toNat)
    else do
      let (m, left) ← parseBody (some body)
      if Reader.done left then .ok m else .error "trailing bytes after body"
  | _ => .error "blob too short"

end Editor

end Fleece
