/-
This file models `fleece_goap_serialize` and `fleece_goap_deserialize`, which turn the
tables of a plan into a blob and back: a prefix of three bytes and the array
`[name, actions, goals, utilities, missions]`.

The writer hands the length of a text over as `(uint32_t)strlen`, so that of a longer
text only the first bytes are written. The reader fills the tables as it goes and
leaves what it has registered when it stops. Where it goes on to read after a string
that was refused, with the same outcome, the model stops at once.

A read of the decoder reports a write past an array it allocated as it reports a read
outside the buffer: the size of the point array is a product that may wrap.
-/

import Fleece.Import
import Fleece.Plan

namespace Fleece

/-! ### Encoding -/

/-- The bytes that `write_text` hands over. -/
def CString.written (text : CString) : List UInt8 := text.chars.take (text.chars.length % 2 ^ 32)

/-- `FLEECE_PLAN_MAGIC0`, `FLEECE_PLAN_MAGIC1` and `FLEECE_PLAN_VERSION`. -/
def planMagic : List UInt8 := [0x46, 0x50, 2]

/-- An array of texts: the preconditions, the effects or the goal ids of a row. -/
def writeTexts (texts : List (List UInt8)) : List UInt8 :=
  writeArrayHeader texts.length ++ texts.flatMap writeText

/-- The record of an action, an array of eight items. -/
def PlanAction.encode (a : PlanAction (List UInt8)) : List UInt8 :=
  writeArrayHeader 8 ++ writeText a.id ++ writeText a.name ++ writeText a.cost ++
    writeText a.dest ++ writeNum a.dur ++ writeText a.exec ++ writeTexts a.pre ++ writeTexts a.eff

/-- The record of a goal, an array of five items. -/
def PlanGoal.encode (g : PlanGoal (List UInt8)) : List UInt8 :=
  writeArrayHeader 5 ++ writeText g.id ++ writeText g.name ++ writeText g.expr ++
    writeNum g.priority ++ writeText g.curveId

/-- A point of a curve, an array of two numbers. -/
def PlanPoint.encode (p : PlanPoint) : List UInt8 :=
  writeArrayHeader 2 ++ writeNum p.x ++ writeNum p.y

/-- The header declares seven items; six follow. -/
def PlanUtility.encode (u : PlanUtility (List UInt8)) : List UInt8 :=
  writeArrayHeader 7 ++ writeText u.id ++ writeText u.name ++ writeText u.dim ++
    writeNum u.xMin ++ writeNum u.xMax ++
    (writeArrayHeader u.points.length ++ u.points.flatMap PlanPoint.encode)

/-- The record of a mission, an array of four items. -/
def PlanMission.encode (m : PlanMission (List UInt8)) : List UInt8 :=
  writeArrayHeader 4 ++ writeText m.id ++ writeText m.name ++ writeTexts m.goalIds ++
    writeText m.note

/-- The bytes of `serialize_body` for the texts it hands over. -/
def Plan.encode (plan : Plan (List UInt8)) : List UInt8 :=
  writeArrayHeader 5 ++ writeText plan.name ++
    (writeArrayHeader plan.actions.length ++ plan.actions.flatMap PlanAction.encode) ++
    (writeArrayHeader plan.goals.length ++ plan.goals.flatMap PlanGoal.encode) ++
    (writeArrayHeader plan.utilities.length ++ plan.utilities.flatMap PlanUtility.encode) ++
    (writeArrayHeader plan.missions.length ++ plan.missions.flatMap PlanMission.encode)

namespace GoapTables

/-- `serialize_body`: the encoding of the tables, whose texts are the bytes before the
terminator. -/
def serializeBody (tables : GoapTables) : List UInt8 :=
  (tables.toPlan.map CString.written id).encode

/-- What `fleece_goap_serialize` writes into its buffer. -/
def written (tables : GoapTables) : List UInt8 := planMagic ++ tables.serializeBody

/-- `fleece_goap_serialize`: the buffer with the size `(uint32_t)pos`. -/
def serialize (tables : GoapTables) : Blob := .ofBuffer tables.written

end GoapTables

/-! ### Sizing -/

/-- `text_size`. -/
def CString.size (text : CString) : Nat := textSize (text.chars.length % 2 ^ 32)

/-- The bytes that an array of texts takes. -/
def textsSize (texts : List CString) : Nat :=
  arrayHeaderSize texts.length + (texts.map CString.size).sum

/-- The bytes that the record of an action takes. -/
def PlanAction.size (a : PlanAction CString) : Nat :=
  arrayHeaderSize 8 + (a.id.size + a.name.size + a.cost.size + a.dest.size) + numSize a.dur +
    a.exec.size + textsSize a.pre + textsSize a.eff

/-- The bytes that the record of a goal takes. -/
def PlanGoal.size (g : PlanGoal CString) : Nat :=
  arrayHeaderSize 5 + (g.id.size + g.name.size + g.expr.size) + numSize g.priority + g.curveId.size

/-- The bytes that a point of a curve takes. -/
def PlanPoint.size (p : PlanPoint) : Nat := arrayHeaderSize 2 + (numSize p.x + numSize p.y)

/-- The bytes that are counted for a curve; an array header of seven takes what one of six does. -/
def PlanUtility.size (u : PlanUtility CString) : Nat :=
  arrayHeaderSize 7 + (u.id.size + u.name.size + u.dim.size) + (numSize u.xMin + numSize u.xMax) +
    (arrayHeaderSize u.points.length + (u.points.map PlanPoint.size).sum)

/-- The bytes that the record of a mission takes. -/
def PlanMission.size (m : PlanMission CString) : Nat :=
  arrayHeaderSize 4 + (m.id.size + m.name.size) + textsSize m.goalIds + m.note.size

/-- `serialize_body_size`. -/
def GoapTables.serializeBodySize (tables : GoapTables) : Nat :=
  arrayHeaderSize 5 + tables.name.size +
    (arrayHeaderSize tables.actions.length + (tables.actions.map PlanAction.size).sum) +
    (arrayHeaderSize tables.goals.length + (tables.goals.map PlanGoal.size).sum) +
    (arrayHeaderSize tables.utilities.length + (tables.utilities.map PlanUtility.size).sum) +
    (arrayHeaderSize tables.missions.length + (tables.missions.map PlanMission.size).sum)

/-! ### Decoding -/

/-- The C string in a buffer that was filled from the wire ends at the first NUL. -/
def CString.ofWire (bytes : List UInt8) : CString where
  chars := bytes.takeWhile (· ≠ 0)
  noNul := fun member => by
    have nonzero := List.mem_takeWhile_imp member
    simp at nonzero

section Readers

variable (buf : List UInt8) (size : Nat)

/-- `read_text` into the name of the tables. -/
def readText (pos : Nat) : Except Halt (FieldName × Nat) := do
  let (len, pos) ← readMajor buf size pos 3
  if !boundsOk pos len size then .error .rejected
  else
    let bytes ← slice buf pos (min len.toNat (goapNameMax - 1))
    .ok (.ofWire bytes, pos + len.toNat)

/-- `read_text_dyn`: a text of any length that lies in the blob. -/
def readTextDyn (pos : Nat) : Except Halt (CString × Nat) := do
  let (len, pos) ← readMajor buf size pos 3
  if !boundsOk pos len size then .error .rejected
  else
    let bytes ← slice buf pos len.toNat
    .ok (.ofWire bytes, pos + len.toNat)

/-- A loop that reads the elements of an array one by one; the reader is told the index. -/
def readEach {Element : Type} (read : Nat → Nat → Except Halt (Element × Nat)) :
    Nat → Nat → Nat → Except Halt (List Element × Nat)
  | 0, _, pos => .ok ([], pos)
  | left + 1, index, pos => do
    let (element, pos) ← read index pos
    let (rest, pos) ← readEach read left (index + 1) pos
    .ok (element :: rest, pos)

/-- An array of strings. The allocation is refused when its size does not fit 64 bits. -/
def readTexts (pos : Nat) : Except Halt (List CString × Nat) := do
  let (count, pos) ← readMajor buf size pos 4
  if 2 ^ 64 ≤ count.toNat * 8 then .error .rejected
  else readEach (fun _ pos => readTextDyn buf size pos) count.toNat 0 pos

/-- A point, written to its place in an array of `slots` elements as soon as `x` is read. -/
def readPoint (slots index pos : Nat) : Except Halt (PlanPoint × Nat) := do
  let (arity, pos) ← readMajor buf size pos 4
  if arity ≠ 2 then .error .rejected
  else
    let (x, pos) ← readNum buf size pos
    if slots ≤ index then .error .outOfBounds
    else
      let (y, pos) ← readNum buf size pos
      .ok (⟨x, y⟩, pos)

/-- The points of a curve. The size of the allocation wraps at 64 bits. -/
def readPoints (pos : Nat) : Except Halt (List PlanPoint × Nat) := do
  let (count, pos) ← readMajor buf size pos 4
  readEach (readPoint buf size (count.toNat * 16 % 2 ^ 64 / 16)) count.toNat 0 pos

/-- The elements that a 32-bit count leaves. -/
def counted {Element : Type} (elements : List Element) : List Element :=
  elements.take (elements.length % 2 ^ 32)

theorem length_counted_lt {Element : Type} (elements : List Element) :
    (counted elements).length < 2 ^ 32 := by
  rw [counted, List.length_take]
  exact (min_le_left _ _).trans_lt (Nat.mod_lt _ (by decide))

/-- The record of an action as `fleece_goap_deserialize` reads it, item by item. -/
def readAction (pos : Nat) : Except Halt (FleeceGoapActionDef × Nat) := do
  let (arity, pos) ← readMajor buf size pos 4
  if arity ≠ 8 then .error .rejected
  else
    let (id, pos) ← readTextDyn buf size pos
    let (name, pos) ← readTextDyn buf size pos
    let (cost, pos) ← readTextDyn buf size pos
    let (dest, pos) ← readTextDyn buf size pos
    let (dur, pos) ← readNum buf size pos
    let (exec, pos) ← readTextDyn buf size pos
    let (pre, pos) ← readTexts buf size pos
    let (eff, pos) ← readTexts buf size pos
    .ok ({
      id := some id
      name := some name
      cost := some cost
      dest := some dest
      dur := dur
      exec := some exec
      pre := counted (pre.map some)
      eff := counted (eff.map some)
      preCount := length_counted_lt _
      effCount := length_counted_lt _ }, pos)

/-- The record of a goal as `fleece_goap_deserialize` reads it. -/
def readGoal (pos : Nat) : Except Halt (FleeceGoapGoalDef × Nat) := do
  let (arity, pos) ← readMajor buf size pos 4
  if arity ≠ 5 then .error .rejected
  else
    let (id, pos) ← readTextDyn buf size pos
    let (name, pos) ← readTextDyn buf size pos
    let (expr, pos) ← readTextDyn buf size pos
    let (priority, pos) ← readNum buf size pos
    let (curveId, pos) ← readTextDyn buf size pos
    .ok (⟨some id, some name, some expr, priority, some curveId⟩, pos)

/-- The record of a curve, which is read as six items behind a header of seven. -/
def readUtility (pos : Nat) : Except Halt (FleeceGoapUtilityDef × Nat) := do
  let (arity, pos) ← readMajor buf size pos 4
  if arity ≠ 7 then .error .rejected
  else
    let (id, pos) ← readTextDyn buf size pos
    let (name, pos) ← readTextDyn buf size pos
    let (dim, pos) ← readTextDyn buf size pos
    let (xMin, pos) ← readNum buf size pos
    let (xMax, pos) ← readNum buf size pos
    let (points, pos) ← readPoints buf size pos
    .ok ({
      id := some id
      name := some name
      dim := some dim
      xMin := xMin
      xMax := xMax
      points := counted points
      pointCount := length_counted_lt _ }, pos)

/-- The record of a mission as `fleece_goap_deserialize` reads it. -/
def readMission (pos : Nat) : Except Halt (FleeceGoapMissionDef × Nat) := do
  let (arity, pos) ← readMajor buf size pos 4
  if arity ≠ 4 then .error .rejected
  else
    let (id, pos) ← readTextDyn buf size pos
    let (name, pos) ← readTextDyn buf size pos
    let (goalIds, pos) ← readTexts buf size pos
    let (note, pos) ← readTextDyn buf size pos
    .ok ({
      id := some id
      name := some name
      goalIds := counted (goalIds.map some)
      note := some note
      goalCount := length_counted_lt _ }, pos)

end Readers

namespace GoapTables

/-- How far a parse has come: the tables, with the position it goes on from or the halt. A call
that does not return is `none`. -/
abbrev Parse : Type := Option (GoapTables × Except Halt Nat)

/-- The next part of the body is read where the one before it ended; a halt keeps the tables. -/
def Parse.andThen (first : Parse) (next : GoapTables → Nat → Parse) : Parse :=
  match first with
  | none => none
  | some (tables, .error halt) => some (tables, .error halt)
  | some (tables, .ok pos) => next tables pos

/-- The loop over the records of one table: read a definition, register it. -/
def readRecords {Def : Type} (read : Nat → Except Halt (Def × Nat))
    (add : GoapTables → Def → Option (GoapTables × Int)) : Nat → GoapTables → Nat → Parse
  | 0, tables, pos => some (tables, .ok pos)
  | left + 1, tables, pos =>
    match read pos with
    | .error halt => some (tables, .error halt)
    | .ok (given, pos) =>
      match add tables given with
      | none => none
      | some (next, code) =>
        if code = 0 then readRecords read add left next pos else some (next, .error .rejected)

/-- The header of a table and its records. -/
def readTable {Def : Type} (buf : List UInt8) (size : Nat) (read : Nat → Except Halt (Def × Nat))
    (add : GoapTables → Def → Option (GoapTables × Int)) (tables : GoapTables) (pos : Nat) : Parse :=
  match readMajor buf size pos 4 with
  | .error halt => some (tables, .error halt)
  | .ok (count, pos) => readRecords read add count.toNat tables pos

/-- The tables with the name that was read. -/
def named (name : FieldName) : GoapTables where
  toPlan := { empty.toPlan with name := name.toCString }
  fits := { empty.fits with name := name.lengthLt }

/-- What follows the header of the body, on tables that were reset. -/
def readTables (buf : List UInt8) (size pos : Nat) : Parse :=
  match readText buf size pos with
  | .error halt => some (empty, .error halt)
  | .ok (name, pos) =>
    Parse.andThen (readTable buf size (readAction buf size) addAction (named name) pos)
      fun tables pos => Parse.andThen (readTable buf size (readGoal buf size) addGoal tables pos)
      fun tables pos =>
        Parse.andThen (readTable buf size (readUtility buf size) addUtility tables pos)
      fun tables pos => readTable buf size (readMission buf size) addMission tables pos

/-- The prefix and the header of the body, before the tables are reset. -/
def readPrefix (buf : List UInt8) (size : Nat) : Except Halt Nat :=
  if size < 3 then .error .rejected
  else do
    let magic ← slice buf 0 3
    if magic ≠ planMagic then .error .rejected
    else
      let (arity, pos) ← readMajor buf size 3 4
      if arity ≠ 5 then .error .rejected else .ok pos

/-- `fleece_goap_deserialize`: the tables it leaves, and whether it returns 0. -/
def deserialize (tables : GoapTables) (blob : Blob) : Option (GoapTables × Except Halt Unit) :=
  match readPrefix blob.bytes blob.size with
  | .error halt => some (tables, .error halt)
  | .ok pos =>
    (readTables blob.bytes blob.size pos).map fun result =>
      (result.1, result.2.map fun _ => ())

end GoapTables

end Fleece
