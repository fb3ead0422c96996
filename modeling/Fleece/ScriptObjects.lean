/-
This file models the objects through which a script reads and writes the store:
`self`, whose properties are the fields of the local node, `world`, whose properties are
the shared fields, and `worldCompareAndSet`. A script sees them through proxies; the
functions behind the traps turn a value into JSON text and back.

A name goes to the store as the bytes up to its first NUL, is found there by its hash,
and is listed as its first 63 bytes. A property whose name no other name in use shares
its place with is a variable of the script: it is what was last set, and it is gone
after a delete, whichever trap it is read by.
-/

import Fleece.Auction
import Fleece.Snapshot
import Fleece.StateKeys
import Fleece.Untouched

namespace Fleece

/-! ### The engine -/

/-- A string of a script, by the bytes that `JS_ToCString` gives of it. -/
abbrev JsString := List UInt8

/-- What is left of a string where it is read up to its first NUL. -/
def JsString.toCString (name : JsString) : CString where
  chars := name.takeWhile fun byte => byte != 0
  noNul member := by
    have kept := List.mem_takeWhile_imp member
    exact absurd rfl (bne_iff_ne.mp kept)

/-- Scalar values of the basic plane, without NUL and without the replacement character. -/
def JsString.IsPlain (name : JsString) : Prop :=
  0 ∉ name ∧ ∃ chars : List Char, name = chars.flatMap String.utf8EncodeChar ∧
    ∀ char ∈ chars, char ≠ '\ufffd' ∧ char.val < 0x10000

/-- The result of `JS_JSONStringify` without memory errors. -/
inductive Stringified where
  | exception
  | undefined
  | text (json : Blob)

/-- What the bindings use of QuickJS. `JS_NewString` puts a replacement character for what is not
UTF-8, so a plain string comes of its own bytes only. -/
structure BindingEngine (Value : Type) where
  undefined : Value
  isUndefined : Value → Bool
  string : JsString → Value
  parseJson : Blob → Option Value
  stringify : Value → Stringified
  size_of_text : ∀ value json, stringify value = .text json → json.size ≠ 0
  newString : CString → JsString
  newString_eq_iff : ∀ (text : CString) (name : JsString), name.IsPlain →
    (newString text = name ↔ text.chars = name)

/-! ### Proxies -/

/-- What a handler answers for a string key, in one state of the store. `describe` is the value of
the property descriptor, which is enumerable and configurable. -/
structure ProxyView (Answer : Type) where
  get : JsString → Answer
  has : JsString → Bool
  ownKeys : List JsString
  describe : JsString → Option Answer

/-- The reading traps of `makeProxyStore`. -/
def makeProxyStore {Answer : Type} (undefined : Answer) (keys : List JsString)
    (getFn : JsString → Answer) : ProxyView Answer where
  get p := if keys.contains p then getFn p else undefined
  has p := keys.contains p
  ownKeys := keys
  describe p := if keys.contains p then some (getFn p) else none

/-! ### The functions behind the traps -/

/-- The objects of a script whose properties are fields of the store. -/
inductive ScriptObject where
  | self
  | world
  deriving DecidableEq

/-- The `TypeError`s of the setters and of `worldCompareAndSet`. -/
inductive BindingError where
  | notSerializable (object : ScriptObject) (name : CString)
  | storeFull (object : ScriptObject) (name : CString)
  | expectedNotSerializable
  | newNotSerializable
  | compareAndSetFailed
  deriving DecidableEq

/-- What a call throws: a `TypeError` of its own, or the exception of a conversion. -/
inductive Thrown where
  | typeError (error : BindingError)
  | conversion
  deriving DecidableEq

namespace ScriptObject

/-- The name of the object in the texts of errors. -/
def label : ScriptObject → String
  | self => "self"
  | world => "world"

/-- The owner of the fields behind the properties. -/
def owner (manager : FleeceStateManager) : ScriptObject → UInt64
  | self => manager.nodeId
  | world => sharedOwnerId

/-- The write of a property. -/
def setter (name : CString) (json : Blob) : ScriptObject → LocalWrite
  | self => .setNamed name json
  | world => .setShared name json

/-- The delete of a property. -/
def deleter (name : CString) : ScriptObject → LocalWrite
  | self => .removeNamed name
  | world => .removeShared name

/-- The pair of the store behind a property. -/
def place (manager : FleeceStateManager) (name : JsString) (object : ScriptObject) :
    UInt32 × UInt64 :=
  (hashName name.toCString, object.owner manager)

end ScriptObject

/-- The format strings with their arguments. -/
def BindingError.message : BindingError → List UInt8
  | notSerializable object name =>
    (object.label ++ ".").toUTF8.toList ++ name.chars ++
      ": value is not JSON-serializable".toUTF8.toList
  | storeFull object name =>
    (object.label ++ ".").toUTF8.toList ++ name.chars ++ ": state store is full".toUTF8.toList
  | expectedNotSerializable =>
    "worldCompareAndSet: expected value is not JSON-serializable".toUTF8.toList
  | newNotSerializable => "worldCompareAndSet: new value is not JSON-serializable".toUTF8.toList
  | compareAndSetFailed =>
    "worldCompareAndSet: failed (bad arguments or state store full)".toUTF8.toList

namespace BindingEngine

variable {Value : Type} (engine : BindingEngine Value)

/-- `get_named_value`: what is not JSON reads as `undefined`. -/
def getNamedValue (manager : FleeceStateManager) (ownerNodeId : UInt64) (name : CString) : Value :=
  match manager.getNamed ownerNodeId name with
  | none => engine.undefined
  | some data => (engine.parseJson data).getD engine.undefined

/-- `names_to_js_array`. -/
def namesToJsArray (names : List FieldName) : List JsString :=
  names.map fun name => engine.newString name.toCString

/-- The body of both getters. -/
def getField (object : ScriptObject) (manager : FleeceStateManager) (name : JsString) : Value :=
  engine.getNamedValue manager (object.owner manager) name.toCString

/-- `js_self_get`. -/
def jsSelfGet := engine.getField .self

/-- `js_world_get`. -/
def jsWorldGet := engine.getField .world

/-- The body of both setters. -/
def setField (object : ScriptObject) (manager : FleeceStateManager) (name : JsString)
    (value : Value) : FleeceStateManager × Except Thrown Value :=
  match engine.stringify value with
  | .exception => (manager, .error .conversion)
  | .undefined => (manager, .error (.typeError (.notSerializable object name.toCString)))
  | .text json =>
    let written := (object.setter name.toCString json).exec manager
    if written.2 ≠ 0 then
      (written.1, .error (.typeError (.storeFull object name.toCString)))
    else (written.1, .ok engine.undefined)

/-- `js_self_set`. -/
def jsSelfSet := engine.setField .self

/-- `js_world_set`. -/
def jsWorldSet := engine.setField .world

/-- The body of both deleters, which do not look at the return code. -/
def deleteField (object : ScriptObject) (manager : FleeceStateManager) (name : JsString) :
    FleeceStateManager × Value :=
  (((object.deleter name.toCString).exec manager).1, engine.undefined)

/-- `js_self_delete`. -/
def jsSelfDelete := engine.deleteField .self

/-- `js_world_delete`. -/
def jsWorldDelete := engine.deleteField .world

/-- The body of both listings. -/
def listKeys (object : ScriptObject) (manager : FleeceStateManager) : List JsString :=
  engine.namesToJsArray (manager.listFields (object.owner manager) jsListMax)

/-- `js_self_keys`. -/
def jsSelfKeys := engine.listKeys .self

/-- `js_world_keys`. -/
def jsWorldKeys := engine.listKeys .world

/-- `js_self_id`. -/
def jsSelfId (manager : FleeceStateManager) : Value :=
  engine.string (Hexadecimal.print manager.nodeId)

/-- The value to compare with, as text; `undefined` asks for a field that is not there. -/
def expectedText (expected : Value) : Except Thrown (Option Blob) :=
  if engine.isUndefined expected then .ok none
  else
    match engine.stringify expected with
    | .exception => .error .conversion
    | .undefined => .error (.typeError .expectedNotSerializable)
    | .text json => .ok (some json)

/-- `js_world_compare_and_set`. -/
def jsWorldCompareAndSet (manager : FleeceStateManager) (name : JsString) (expected value : Value) :
    FleeceStateManager × Except Thrown Bool :=
  match engine.expectedText expected with
  | .error thrown => (manager, .error thrown)
  | .ok expected =>
    match engine.stringify value with
    | .exception => (manager, .error .conversion)
    | .undefined => (manager, .error (.typeError .newNotSerializable))
    | .text json =>
      let result := manager.setSharedCas name.toCString expected json
      if result.2 < 0 then (result.1, .error (.typeError .compareAndSetFailed))
      else (result.1, .ok (result.2 == 0))

/-! ### The two objects -/

/-- `'id'`. -/
def idName : JsString := [0x69, 0x64]

/-- The reading traps of `self`, written out in the prelude. -/
def selfProxy (manager : FleeceStateManager) : ProxyView Value where
  get p := if p = idName then engine.jsSelfId manager else engine.jsSelfGet manager p
  has p := decide (p = idName) || (engine.jsSelfKeys manager).contains p
  ownKeys := engine.jsSelfKeys manager
  describe p :=
    if (engine.jsSelfKeys manager).contains p then some (engine.jsSelfGet manager p) else none

/-- The proxy `world` of the prelude. -/
def worldProxy (manager : FleeceStateManager) : ProxyView Value :=
  makeProxyStore engine.undefined (engine.jsWorldKeys manager) (engine.jsWorldGet manager)

/-- The proxy of an object. -/
def proxy (manager : FleeceStateManager) : ScriptObject → ProxyView Value
  | .self => engine.selfProxy manager
  | .world => engine.worldProxy manager

end BindingEngine

/-! ### Runs -/

/-- An assignment, a `delete`, a compare-and-set, or anything else that happens to the store. -/
inductive ScriptAct (Value : Type) where
  | set (object : ScriptObject) (name : JsString) (value : Value)
  | delete (object : ScriptObject) (name : JsString)
  | compareAndSet (name : JsString) (expected value : Value)
  | store (operation : Operation)

/-- The store, and the properties as the calls that went through have left them, as JSON texts. -/
structure ScriptRun where
  manager : FleeceStateManager
  properties : ScriptObject → JsString → Option Blob

namespace ScriptRun

/-- A run before its first act: no property was assigned. -/
def start (manager : FleeceStateManager) : ScriptRun := ⟨manager, fun _ _ => none⟩

variable {Value : Type}

/-- A property after a call that went through. -/
def assign (run : ScriptRun) (manager : FleeceStateManager) (object : ScriptObject)
    (name : JsString) (json : Option Blob) : ScriptRun where
  manager := manager
  properties :=
    Function.update run.properties object (Function.update (run.properties object) name json)

/-- The text of a value that has one. -/
def textOf (engine : BindingEngine Value) (value : Value) : Option Blob :=
  match engine.stringify value with
  | .text json => some json
  | _ => none

/-- What an act does to the store, and to what the properties should be. -/
def step (engine : BindingEngine Value) (run : ScriptRun) : ScriptAct Value → ScriptRun
  | .set object name value =>
    match engine.setField object run.manager name value with
    | (manager, .ok _) => run.assign manager object name (textOf engine value)
    | (manager, .error _) => { run with manager := manager }
  | .delete object name =>
    run.assign (engine.deleteField object run.manager name).1 object name none
  | .compareAndSet name expected value =>
    match engine.jsWorldCompareAndSet run.manager name expected value with
    | (manager, .ok true) => run.assign manager .world name (textOf engine value)
    | (manager, _) => { run with manager := manager }
  | .store operation => { run with manager := operation.next run.manager }

/-- A call is about the property, or it is about another place of the store. Its name is stored
whole. -/
def Avoids (run : ScriptRun) (object : ScriptObject) (name : JsString) (other : ScriptObject)
    (key : JsString) : Prop :=
  key.toCString.isShort = true ∧
    ((other, key) = (object, name) ∨ other.place run.manager key ≠ object.place run.manager name)

/-- What may happen while a script uses a property: calls of the script, and operations that leave
its place alone. For a property of `self` these are all frames that arrive. -/
def Spares (object : ScriptObject) (name : JsString) (run : ScriptRun) : ScriptAct Value → Prop
  | .set other key _ => run.Avoids object name other key
  | .delete other key => run.Avoids object name other key
  | .compareAndSet key _ _ => run.Avoids object name .world key
  | .store operation => operation.isShort = true ∧
    ((object = .self ∧ ∃ frame, operation = .importFrom frame) ∨
      FleeceStateManager.LeavesAlone run.manager.nodeId (object.place run.manager name) operation)

/-- The property is what is live at its place, under its own name. -/
structure Follows (run : ScriptRun) (object : ScriptObject) (name : JsString) : Prop where
  packed : run.manager.PackedInvariant
  keyed : run.manager.Keyed
  held : (run.manager.liveView (object.place run.manager name)).map GossipRecord.data =
    run.properties object name
  named : ∀ record, run.manager.liveView (object.place run.manager name) = some record →
    record.name.toCString = name.toCString

end ScriptRun

/-! ### What a write does to the map -/

namespace FleeceStateManager

/-- What a local write does to the map of records: nothing where it is refused or finds no slot, and
else it puts the record it asks for, which may be a tombstone, under its pair. -/
inductive ViewEffect (manager : FleeceStateManager) (change : LocalWrite) :
    FleeceStateManager × Int → Prop
  | refused (next : FleeceStateManager) (code : Int) (failure : code ≠ 0)
      (denied : change.request manager.nodeId manager.localTimestamp manager.view = .error code)
      (view : next.view = manager.view) : ViewEffect manager change (next, code)
  | noSlot (next : FleeceStateManager) (record : GossipRecord)
      (asked : change.request manager.nodeId manager.localTimestamp manager.view =
        .ok (change.target manager.nodeId, record))
      (absent : manager.view (change.target manager.nodeId) = none)
      (view : next.view = manager.view) : ViewEffect manager change (next, -1)
  | put (next : FleeceStateManager) (record : GossipRecord)
      (asked : change.request manager.nodeId manager.localTimestamp manager.view =
        .ok (change.target manager.nodeId, record))
      (view : next.view =
        Function.update manager.view (change.target manager.nodeId) (some record)) :
      ViewEffect manager change (next, 0)

theorem exec_view {manager : FleeceStateManager} (packed : manager.PackedInvariant)
    (change : LocalWrite) :
    (change.exec manager).1.PackedInvariant ∧ (change.exec manager).1.nodeId = manager.nodeId ∧
      ViewEffect manager change (change.exec manager) := by
  have stays : Operation.write change ≠ .compact := nofun
  have kept : (change.exec manager).1.PackedInvariant := packed.operation stays
  have outcome := exec_outcome manager change
  generalize asked : change.request manager.nodeId manager.localTimestamp manager.view =
    request at outcome
  generalize change.exec manager = result at outcome kept ⊢
  cases outcome with
  | refused code denied =>
    have failure : code ≠ 0 := by
      rcases LocalWrite.code_of_refused (asked.trans denied) with rfl | rfl
      · decide
      · decide
    exact ⟨kept, rfl, .refused manager code failure (asked.trans denied) rfl⟩
  | noSlot next pair record accepted absent full fields count node peers tick clock =>
    have target := LocalWrite.target_of_request (asked.trans accepted)
    rw [target] at absent accepted
    exact ⟨kept, node, .noSlot next record (asked.trans accepted) absent (view_of_same fields)⟩
  | wrote next f accepted stored node peers tick clock =>
    have target := LocalWrite.target_of_request (asked.trans accepted)
    have view := view_stored stored packed
    rw [target] at accepted view
    exact ⟨kept, node, .put next f.record (asked.trans accepted) view⟩

/-- No frame reaches the fields of the node itself. -/
theorem leavesAlone_importFrom {nodeId : UInt64} (real : nodeId ≠ sharedOwnerId)
    (key : UInt32) (frame : Blob) : LeavesAlone nodeId (key, nodeId) (.importFrom frame) := by
  refine ⟨nofun, ?_⟩
  rintro ⟨parsed, read, record, _, same⟩
  exact owner_of_parseFrame real read (Prod.mk.inj same).2.symm

end FleeceStateManager

theorem JsString.toCString_chars {name : JsString} (noNul : 0 ∉ name) :
    name.toCString.chars = name := by
  refine List.takeWhile_eq_self_iff.mpr fun byte member => bne_iff_ne.mpr ?_
  rintro rfl
  exact noNul member

/-! ### The requests behind the traps -/

namespace ScriptObject

variable {manager : FleeceStateManager} {name : JsString} {object : ScriptObject}

theorem place_congr {next : FleeceStateManager} (node : next.nodeId = manager.nodeId)
    (name : JsString) (object : ScriptObject) :
    object.place next name = object.place manager name := by
  unfold place
  cases object with
  | self => rw [owner, owner, node]
  | world => rfl

theorem target_setter (json : Blob) :
    (object.setter name.toCString json).target manager.nodeId = object.place manager name := by
  cases object <;> rfl

theorem target_deleter :
    (object.deleter name.toCString).target manager.nodeId = object.place manager name := by
  cases object <;> rfl

theorem request_setter (filled : name.toCString.chars ≠ []) {json : Blob}
    (nonempty : json.size ≠ 0) :
    (object.setter name.toCString json).request manager.nodeId manager.localTimestamp manager.view =
      .ok (object.place manager name, .upserted manager.nodeId (.copy name.toCString) json
        (manager.localTimestamp + 1) false) := by
  have accepted : (name.toCString.chars.isEmpty || json.size == 0) = false := by
    rw [Bool.or_eq_false_iff]
    exact ⟨List.isEmpty_eq_false_iff.mpr filled, beq_eq_false_iff_ne.mpr nonempty⟩
  cases object with
  | self =>
    simp only [setter, LocalWrite.request, LocalWrite.request.put, accepted]
    rfl
  | world =>
    simp only [setter, LocalWrite.request, LocalWrite.request.put, accepted]
    rfl

/-- A delete buries what is live, and is refused where nothing is. -/
theorem request_deleter :
    (manager.liveView (object.place manager name) = none ∧
        (object.deleter name.toCString).request manager.nodeId manager.localTimestamp manager.view =
          .error (-1)) ∨
      manager.view (object.place manager name) ≠ none ∧
        ∃ record, record.isTombstone = true ∧
          (object.deleter name.toCString).request manager.nodeId manager.localTimestamp
              manager.view = .ok (object.place manager name, record) := by
  cases live : manager.liveView (object.place manager name) with
  | none =>
    refine Or.inl ⟨rfl, ?_⟩
    cases object with
    | self =>
      simp only [deleter, LocalWrite.request, LocalWrite.request.bury]
      rw [show LocalWrite.request.live manager.view (hashName name.toCString, manager.nodeId) = none
        from live]
    | world =>
      simp only [deleter, LocalWrite.request, LocalWrite.request.bury]
      rw [show LocalWrite.request.live manager.view (hashName name.toCString, sharedOwnerId) = none
        from live]
  | some old =>
    refine Or.inr ⟨?_, ?_⟩
    · rw [(Option.filter_eq_some_iff.mp live).1]
      exact Option.some_ne_none _
    cases object with
    | self =>
      refine ⟨old.buried (manager.localTimestamp + 1), rfl, ?_⟩
      simp only [deleter, LocalWrite.request, LocalWrite.request.bury]
      rw [show LocalWrite.request.live manager.view (hashName name.toCString, manager.nodeId) =
        some old from live]
      rfl
    | world =>
      refine ⟨{ old.buried (manager.localTimestamp + 1) with originNodeId := manager.nodeId },
        rfl, ?_⟩
      simp only [deleter, LocalWrite.request, LocalWrite.request.bury]
      rw [show LocalWrite.request.live manager.view (hashName name.toCString, sharedOwnerId) =
        some old from live]
      rfl

end ScriptObject

/-! ### One call -/

namespace ScriptRun

variable {Value : Type} {engine : BindingEngine Value} {run : ScriptRun} {object : ScriptObject}
  {name : JsString}

theorem assign_self (next : FleeceStateManager) (json : Option Blob) :
    (run.assign next object name json).properties object name = json := by
  show Function.update run.properties object _ object name = json
  rw [Function.update_self, Function.update_self]

theorem assign_other {other : ScriptObject} {key : JsString}
    (apart : (other, key) ≠ (object, name)) (next : FleeceStateManager) (json : Option Blob) :
    (run.assign next other key json).properties object name = run.properties object name := by
  show Function.update run.properties other _ object name = _
  rcases eq_or_ne object other with rfl | different
  · have keys : name ≠ key := fun same => apart (by rw [same])
    rw [Function.update_self, Function.update_of_ne keys]
  · rw [Function.update_of_ne different]

/-- The record at the place of a property stays, and so does the property. -/
theorem Follows.keep (follows : run.Follows object name) {next : ScriptRun}
    (packed : next.manager.PackedInvariant) (keyed : next.manager.Keyed)
    (node : next.manager.nodeId = run.manager.nodeId)
    (view : next.manager.view (object.place run.manager name) =
      run.manager.view (object.place run.manager name))
    (same : next.properties object name = run.properties object name) :
    next.Follows object name := by
  have live : next.manager.liveView (object.place next.manager name) =
      run.manager.liveView (object.place run.manager name) := by
    rw [ScriptObject.place_congr node, FleeceStateManager.liveView, view]
    rfl
  refine ⟨packed, keyed, ?_, fun record found => ?_⟩
  · rw [live, same]
    exact follows.held
  · rw [live] at found
    exact follows.named record found

/-- What was put at the place of a property is what the property is set to. -/
theorem Follows.put {next : FleeceStateManager} (packed : next.PackedInvariant)
    (keyed : next.Keyed) (node : next.nodeId = run.manager.nodeId)
    (short : name.toCString.isShort = true) {json : Blob} (timestamp : UInt64)
    (view : next.view (object.place run.manager name) =
      some (.upserted run.manager.nodeId (.copy name.toCString) json timestamp false)) :
    (run.assign next object name (some json)).Follows object name := by
  have live : next.liveView (object.place next name) =
      some (.upserted run.manager.nodeId (.copy name.toCString) json timestamp false) := by
    rw [ScriptObject.place_congr node, FleeceStateManager.liveView, view]
    rfl
  refine ⟨packed, keyed, ?_, fun record found => ?_⟩
  · rw [assign_self]
    show (next.liveView (object.place next name)).map _ = _
    rw [live]
    rfl
  · have record : some _ = some record := live.symm.trans found
    rw [← Option.some.inj record]
    exact CString.copy_of_isShort short

/-- Where nothing is live at its place, the property is gone. -/
theorem Follows.gone {next : FleeceStateManager} (packed : next.PackedInvariant)
    (keyed : next.Keyed) (node : next.nodeId = run.manager.nodeId)
    (dead : next.liveView (object.place run.manager name) = none) :
    (run.assign next object name none).Follows object name := by
  have live : next.liveView (object.place next name) = none := by
    rw [ScriptObject.place_congr node]
    exact dead
  refine ⟨packed, keyed, ?_, fun record found => ?_⟩
  · rw [assign_self]
    show (next.liveView (object.place next name)).map _ = _
    rw [live]
    rfl
  · exact absurd (live.symm.trans found) (Option.some_ne_none record).symm

theorem step_set (object : ScriptObject) (name : JsString) (value : Value) :
    run.step engine (.set object name value) =
      match engine.stringify value with
      | .text json =>
        if ((object.setter name.toCString json).exec run.manager).2 ≠ 0 then
          { run with manager := ((object.setter name.toCString json).exec run.manager).1 }
        else
          run.assign ((object.setter name.toCString json).exec run.manager).1 object name
            (some json)
      | _ => run := by
  simp only [step, BindingEngine.setField, textOf]
  cases engine.stringify value with
  | exception => rfl
  | undefined => rfl
  | text json => simp only; split_ifs <;> rfl

theorem step_compareAndSet (name : JsString) (expected value : Value) :
    run.step engine (.compareAndSet name expected value) =
      match engine.expectedText expected, engine.stringify value with
      | .ok wanted, .text json =>
        if (run.manager.setSharedCas name.toCString wanted json).2 = 0 then
          run.assign (run.manager.setSharedCas name.toCString wanted json).1 .world name (some json)
        else { run with manager := (run.manager.setSharedCas name.toCString wanted json).1 }
      | _, _ => run := by
  simp only [step, BindingEngine.jsWorldCompareAndSet, textOf]
  cases engine.expectedText expected with
  | error thrown => rfl
  | ok wanted =>
    cases engine.stringify value with
    | exception => rfl
    | undefined => rfl
    | text json =>
      simp only
      generalize run.manager.setSharedCas name.toCString wanted json = result
      obtain ⟨next, code⟩ := result
      by_cases done : code = 0
      · subst done
        rfl
      · have other : (code == 0) = false := beq_eq_false_iff_ne.mpr done
        rw [if_neg done, other]
        split_ifs <;> rfl

theorem Follows.step_set (follows : run.Follows object name) {other : ScriptObject} {key : JsString}
    (avoids : run.Avoids object name other key) (filled : name.toCString.chars ≠ [])
    (value : Value) : (run.step engine (.set other key value)).Follows object name := by
  rw [ScriptRun.step_set]
  cases written : engine.stringify value with
  | exception => exact follows
  | undefined => exact follows
  | text json =>
    have keyed : ((other.setter key.toCString json).exec run.manager).1.Keyed :=
      follows.keyed.write (by cases other <;> exact avoids.1)
    obtain ⟨packed, node, effect⟩ :=
      FleeceStateManager.exec_view follows.packed (other.setter key.toCString json)
    simp only
    generalize (other.setter key.toCString json).exec run.manager = result
      at keyed packed node effect ⊢
    cases effect with
    | refused next code failure denied view =>
      rw [if_pos failure]
      exact follows.keep packed keyed node (congrFun view _) rfl
    | noSlot next record asked absent view =>
      rw [if_pos (show (-1 : Int) ≠ 0 by decide)]
      exact follows.keep packed keyed node (congrFun view _) rfl
    | put next record asked view =>
      rw [if_neg (show ¬ (0 : Int) ≠ 0 by decide)]
      rw [ScriptObject.target_setter] at view asked
      by_cases same : (other, key) = (object, name)
      · obtain ⟨rfl, rfl⟩ := Prod.mk.inj same
        rw [ScriptObject.request_setter filled (engine.size_of_text value json written)] at asked
        obtain ⟨-, rfl⟩ := Prod.mk.inj (Except.ok.inj asked)
        refine Follows.put packed keyed node avoids.1 (run.manager.localTimestamp + 1) ?_
        rw [show (next, (0 : Int)).1 = next from rfl, view, Function.update_self]
      · refine follows.keep packed keyed node ?_ (assign_other same next _)
        rw [show (run.assign next other key (some json)).manager = next from rfl, view,
          Function.update_of_ne (avoids.2.resolve_left same).symm]

theorem Follows.step_delete (follows : run.Follows object name) {other : ScriptObject}
    {key : JsString} (avoids : run.Avoids object name other key) :
    (run.step engine (.delete other key)).Follows object name := by
  show (run.assign ((other.deleter key.toCString).exec run.manager).1 other key none).Follows _ _
  have keyed : ((other.deleter key.toCString).exec run.manager).1.Keyed :=
    follows.keyed.write (by cases other <;> exact avoids.1)
  obtain ⟨packed, node, effect⟩ :=
    FleeceStateManager.exec_view follows.packed (other.deleter key.toCString)
  generalize (other.deleter key.toCString).exec run.manager = result at keyed packed node effect
  by_cases same : (other, key) = (object, name)
  · obtain ⟨rfl, rfl⟩ := Prod.mk.inj same
    refine Follows.gone packed keyed node ?_
    have request := @ScriptObject.request_deleter run.manager key other
    cases effect with
    | refused next code failure denied view =>
      rcases request with ⟨dead, _⟩ | ⟨_, record, _, asked⟩
      · show next.liveView _ = none
        rw [FleeceStateManager.liveView, view]
        exact dead
      · rw [asked] at denied
        cases denied
    | noSlot next record asked absent view =>
      rcases request with ⟨dead, _⟩ | ⟨held, _⟩
      · show next.liveView _ = none
        rw [FleeceStateManager.liveView, view]
        exact dead
      · rw [ScriptObject.target_deleter] at absent
        exact absurd absent held
    | put next record asked view =>
      rcases request with ⟨_, denied⟩ | ⟨_, buried, dead, accepted⟩
      · rw [denied] at asked
        cases asked
      · rw [accepted] at asked
        obtain ⟨-, rfl⟩ := Prod.mk.inj (Except.ok.inj asked)
        rw [ScriptObject.target_deleter] at view
        show next.liveView _ = none
        rw [FleeceStateManager.liveView, view, Function.update_self, Option.filter_some, dead]
        rfl
  · refine follows.keep packed keyed node ?_ (assign_other same _ _)
    have apart := avoids.2.resolve_left same
    cases effect with
    | refused next code failure denied view => exact congrFun view _
    | noSlot next record asked absent view => exact congrFun view _
    | put next record asked view =>
      rw [ScriptObject.target_deleter] at view
      show next.view _ = _
      rw [view, Function.update_of_ne apart.symm]

theorem Follows.step_compareAndSet (follows : run.Follows object name) {key : JsString}
    (avoids : run.Avoids object name .world key) (expected value : Value) :
    (run.step engine (.compareAndSet key expected value)).Follows object name := by
  rw [ScriptRun.step_compareAndSet]
  cases engine.expectedText expected with
  | error thrown => exact follows
  | ok wanted =>
    cases engine.stringify value with
    | exception => exact follows
    | undefined => exact follows
    | text json =>
      have keyed : ((LocalWrite.setSharedCas key.toCString wanted json).exec run.manager).1.Keyed :=
        follows.keyed.write avoids.1
      obtain ⟨packed, node, effect⟩ := FleeceStateManager.exec_view follows.packed
        (.setSharedCas key.toCString wanted json)
      simp only
      have shape : run.manager.setSharedCas key.toCString wanted json =
        (LocalWrite.setSharedCas key.toCString wanted json).exec run.manager := rfl
      rw [shape]
      generalize (LocalWrite.setSharedCas key.toCString wanted json).exec run.manager = result
        at keyed packed node effect ⊢
      cases effect with
      | refused next code failure denied view =>
        rw [if_neg failure]
        exact follows.keep packed keyed node (congrFun view _) rfl
      | noSlot next record asked absent view =>
        rw [if_neg (show (-1 : Int) ≠ 0 by decide)]
        exact follows.keep packed keyed node (congrFun view _) rfl
      | put next record asked view =>
        rw [if_pos rfl]
        by_cases same : (.world, key) = (object, name)
        · obtain ⟨rfl, rfl⟩ := Prod.mk.inj same
          simp only [LocalWrite.request, LocalWrite.request.put, Bool.false_eq_true, if_false]
            at asked
          split_ifs at asked
          obtain ⟨-, rfl⟩ := Prod.mk.inj (Except.ok.inj asked)
          refine Follows.put packed keyed node avoids.1 (run.manager.localTimestamp + 1) ?_
          rw [show (next, (0 : Int)).1 = next from rfl, view]
          exact Function.update_self _ _ _
        · refine follows.keep packed keyed node ?_ (assign_other same next _)
          rw [show (run.assign next .world key (some json)).manager = next from rfl, view]
          exact Function.update_of_ne (avoids.2.resolve_left same).symm _ _

theorem Follows.step (follows : run.Follows object name) (filled : name.toCString.chars ≠ [])
    (act : ScriptAct Value) (spares : run.Spares object name act) :
    (run.step engine act).Follows object name := by
  cases act with
  | set other key value => exact follows.step_set spares filled value
  | delete other key => exact follows.step_delete spares
  | compareAndSet key expected value => exact follows.step_compareAndSet spares expected value
  | store operation =>
    have leaves : FleeceStateManager.LeavesAlone run.manager.nodeId (object.place run.manager name)
        operation := by
      rcases spares.2 with ⟨rfl, frame, rfl⟩ | leaves
      · exact FleeceStateManager.leavesAlone_importFrom follows.packed.store.realNode _ frame
      · exact leaves
    have kept := FleeceStateManager.Untouched.operation follows.packed leaves
    exact follows.keep kept.packed (follows.keyed.operation spares.1) kept.node kept.view rfl

/-! ### What a script learns -/

/-- What a script learns of a property, and what its calls can do: a property that is there can be
overwritten, and a compare-and-set finds what the property is. -/
structure Shows (engine : BindingEngine Value) (run : ScriptRun) (object : ScriptObject)
    (name : JsString) : Prop where
  get : (engine.proxy run.manager object).get name =
    if object = .self ∧ name = BindingEngine.idName then engine.jsSelfId run.manager
    else (run.properties object name).elim engine.undefined fun json =>
      (engine.parseJson json).getD engine.undefined
  has : (engine.proxy run.manager object).has name = true ↔
    (object = .self ∧ name = BindingEngine.idName) ∨ run.properties object name ≠ none
  ownKeys : name ∈ (engine.proxy run.manager object).ownKeys ↔ run.properties object name ≠ none
  describe : (engine.proxy run.manager object).describe name =
    (run.properties object name).map fun json => (engine.parseJson json).getD engine.undefined
  overwrite : run.properties object name ≠ none → ∀ value json,
    engine.stringify value = .text json →
      (engine.setField object run.manager name value).2 = .ok engine.undefined
  differs : object = .world → ∀ expected value wanted json,
    engine.expectedText expected = .ok wanted → engine.stringify value = .text json →
      ((engine.jsWorldCompareAndSet run.manager name expected value).2 = .ok false ↔
        run.properties object name ≠ wanted)
  agrees : object = .world → ∀ expected value wanted json,
    engine.expectedText expected = .ok (some wanted) → engine.stringify value = .text json →
      run.properties object name = some wanted →
        (engine.jsWorldCompareAndSet run.manager name expected value).2 = .ok true

theorem Follows.getField (follows : run.Follows object name) :
    engine.getField object run.manager name =
      (run.properties object name).elim engine.undefined fun json =>
        (engine.parseJson json).getD engine.undefined := by
  unfold BindingEngine.getField BindingEngine.getNamedValue
  rw [FleeceStateManager.getNamed_eq, ← follows.held, ScriptObject.place]
  cases run.manager.liveView (hashName name.toCString, object.owner run.manager) <;> rfl

/-- A property is listed exactly if it is there: its record is listed under its name, and a record
that is listed under its name is at its place. -/
theorem Follows.mem_listKeys (follows : run.Follows object name) (plain : name.IsPlain)
    (filled : name ≠ []) :
    name ∈ engine.listKeys object run.manager ↔ run.properties object name ≠ none := by
  have whole := name.toCString_chars plain.1
  have lists : run.manager.ListsAll (object.owner run.manager) jsListMax :=
    (List.length_filter_le _ _).trans List.length_ofFn.le
  have distinct := follows.packed.store.distinct
  rw [BindingEngine.listKeys, BindingEngine.namesToJsArray, List.mem_map, ← follows.held]
  constructor
  · rintro ⟨listed, member, shown⟩
    obtain ⟨i, live, rfl⟩ := (FleeceStateManager.mem_listFields_of_listsAll lists).mp member
    have same : (run.manager.fields i).name.toCString = name.toCString :=
      FleeceGoapBlackboard.eq_of_chars
        (((engine.newString_eq_iff _ name plain).mp shown).trans whole.symm)
    obtain ⟨carried, alive⟩ :=
      FleeceStateManager.carried_of_isLiveNamed (FleeceStateManager.mem_slots.mpr ⟨i, rfl⟩) live
    have key := follows.keyed i carried.2.1 carried.2.2.2
    have view := carried.view distinct
    rw [key, same] at view
    rw [ScriptObject.place, FleeceStateManager.liveView, view, Option.filter_some,
      show (run.manager.fields i).record.isTombstone = false from alive]
    exact Option.some_ne_none _
  · intro held
    obtain ⟨record, live⟩ : ∃ record,
        run.manager.liveView (object.place run.manager name) = some record := by
      cases live : run.manager.liveView (object.place run.manager name) with
      | none =>
        rw [live] at held
        exact absurd rfl held
      | some record => exact ⟨record, rfl⟩
    have named := follows.named record live
    obtain ⟨view, alive⟩ := Option.filter_eq_some_iff.mp live
    obtain ⟨f, found, rfl⟩ : ∃ f,
        run.manager.lookup (object.place run.manager name).1 (object.place run.manager name).2 =
          some f ∧ f.record = record := Option.map_eq_some_iff.mp view
    obtain ⟨i, rfl, present, key, owned⟩ := FleeceStateManager.exists_of_lookup found
    have chars : (run.manager.fields i).name.chars = name :=
      (congrArg CString.chars named).trans whole
    refine ⟨(run.manager.fields i).name, (FleeceStateManager.mem_listFields_of_listsAll lists).mpr
      ⟨i, ?_, rfl⟩, (engine.newString_eq_iff _ name plain).mpr chars⟩
    have isNamed : (run.manager.fields i).record.isNamed = true := by
      refine GossipRecord.isNamed_iff.mpr ?_
      rw [show (run.manager.fields i).record.name.chars = name from chars]
      exact filled
    have dead : (run.manager.fields i).isTombstone = false := (Bool.not_eq_true' _).mp alive
    unfold FleeceStateManager.isLiveNamed
    rw [present, dead, owned, show (run.manager.fields i).isNamed = true from isNamed,
      Bool.and_true]
    exact beq_self_eq_true _

theorem Follows.contains_listKeys (follows : run.Follows object name) (plain : name.IsPlain)
    (filled : name ≠ []) :
    (engine.listKeys object run.manager).contains name = (run.properties object name).isSome := by
  rw [Bool.eq_iff_iff, List.contains_iff_mem, follows.mem_listKeys plain filled,
    Option.isSome_iff_ne_none]

theorem Follows.view_of_held (follows : run.Follows object name)
    (held : run.properties object name ≠ none) :
    run.manager.view (object.place run.manager name) ≠ none := by
  rw [← follows.held] at held
  intro absent
  rw [FleeceStateManager.liveView, absent] at held
  exact held rfl

theorem Follows.setField_ok (follows : run.Follows object name) (filled : name.toCString.chars ≠ [])
    (held : run.properties object name ≠ none) {value : Value} {json : Blob}
    (written : engine.stringify value = .text json) :
    (engine.setField object run.manager name value).2 = .ok engine.undefined := by
  obtain ⟨packed, node, effect⟩ :=
    FleeceStateManager.exec_view follows.packed (object.setter name.toCString json)
  have request := @ScriptObject.request_setter run.manager name object filled json
    (engine.size_of_text value json written)
  unfold BindingEngine.setField
  rw [written]
  simp only
  generalize (object.setter name.toCString json).exec run.manager = result at effect ⊢
  cases effect with
  | refused next code failure denied view =>
    rw [request] at denied
    cases denied
  | noSlot next record asked absent view =>
    rw [ScriptObject.target_setter] at absent
    exact absurd absent (follows.view_of_held held)
  | put next record asked view => rfl

/-- A compare-and-set of a shared property is refused if it finds something else. -/
theorem Follows.request_compareAndSet {run : ScriptRun} {name : JsString}
    (follows : run.Follows .world name) (filled : name.toCString.chars ≠ []) (wanted : Option Blob)
    {json : Blob} (nonempty : json.size ≠ 0) :
    (run.properties .world name ≠ wanted ∧
        (LocalWrite.setSharedCas name.toCString wanted json).request run.manager.nodeId
          run.manager.localTimestamp run.manager.view = .error 1) ∨
      run.properties .world name = wanted ∧
        ∃ record, (LocalWrite.setSharedCas name.toCString wanted json).request run.manager.nodeId
          run.manager.localTimestamp run.manager.view =
            .ok ((hashName name.toCString, sharedOwnerId), record) := by
  have accepted : (name.toCString.chars.isEmpty || json.size == 0) = false := by
    rw [Bool.or_eq_false_iff]
    exact ⟨List.isEmpty_eq_false_iff.mpr filled, beq_eq_false_iff_ne.mpr nonempty⟩
  have live : (LocalWrite.request.live run.manager.view
      (hashName name.toCString, sharedOwnerId)).map GossipRecord.data =
        run.properties .world name := follows.held
  simp only [LocalWrite.request, accepted, Bool.false_eq_true, if_false, live]
  by_cases same : run.properties .world name = wanted
  · rw [if_pos same]
    exact Or.inr ⟨same, _, rfl⟩
  · rw [if_neg same]
    exact Or.inl ⟨same, rfl⟩

theorem Follows.compareAndSet_answers {run : ScriptRun} {name : JsString}
    (follows : run.Follows .world name) (filled : name.toCString.chars ≠ [])
    {expected value : Value} {wanted : Option Blob} {json : Blob}
    (looked : engine.expectedText expected = .ok wanted)
    (written : engine.stringify value = .text json) :
    ((engine.jsWorldCompareAndSet run.manager name expected value).2 = .ok false ↔
        run.properties .world name ≠ wanted) ∧
      (wanted ≠ none → run.properties .world name = wanted →
        (engine.jsWorldCompareAndSet run.manager name expected value).2 = .ok true) := by
  obtain ⟨packed, node, effect⟩ := FleeceStateManager.exec_view follows.packed
    (.setSharedCas name.toCString wanted json)
  have request := follows.request_compareAndSet filled wanted
    (engine.size_of_text value json written)
  have shape : run.manager.setSharedCas name.toCString wanted json =
    (LocalWrite.setSharedCas name.toCString wanted json).exec run.manager := rfl
  unfold BindingEngine.jsWorldCompareAndSet
  rw [looked, written]
  simp only
  rw [shape]
  generalize (LocalWrite.setSharedCas name.toCString wanted json).exec run.manager = result
    at effect ⊢
  cases effect with
  | refused next code failure denied view =>
    rcases request with ⟨other, refused⟩ | ⟨_, record, accepted⟩
    · obtain rfl : (1 : Int) = code := Except.error.inj (refused.symm.trans denied)
      exact ⟨iff_of_true rfl other, fun _ same => absurd same other⟩
    · rw [accepted] at denied
      cases denied
  | noSlot next record asked absent view =>
    rcases request with ⟨_, refused⟩ | ⟨same, _⟩
    · rw [refused] at asked
      cases asked
    · refine ⟨iff_of_false nofun (not_not_intro same), fun present _ => ?_⟩
      rw [← same] at present
      exact absurd absent (follows.view_of_held present)
  | put next record asked view =>
    rcases request with ⟨_, refused⟩ | ⟨same, _⟩
    · rw [refused] at asked
      cases asked
    · exact ⟨iff_of_false nofun (not_not_intro same), fun _ _ => rfl⟩

theorem Follows.shows (follows : run.Follows object name) (plain : name.IsPlain)
    (filled : name ≠ []) : Shows engine run object name := by
  have whole := JsString.toCString_chars plain.1
  have nonempty : name.toCString.chars ≠ [] := by
    rw [whole]
    exact filled
  have keys : (engine.listKeys object run.manager).contains name =
    (run.properties object name).isSome := follows.contains_listKeys plain filled
  have read : engine.getField object run.manager name = _ := follows.getField
  constructor
  case get =>
    cases object with
    | self =>
      show (if name = BindingEngine.idName then _ else engine.getField .self run.manager name) = _
      rw [read]
      simp only [true_and]
    | world =>
      show (if (engine.listKeys .world run.manager).contains name then
        engine.getField .world run.manager name else engine.undefined) = _
      rw [if_neg (fun both : ScriptObject.world = .self ∧ _ => nomatch both.1), read, keys]
      cases run.properties .world name <;> rfl
  case has =>
    cases object with
    | self =>
      show (decide (name = BindingEngine.idName) ||
        (engine.listKeys .self run.manager).contains name) = true ↔ _
      rw [keys, Bool.or_eq_true, decide_eq_true_eq, Option.isSome_iff_ne_none]
      simp only [true_and]
    | world =>
      show (engine.listKeys .world run.manager).contains name = true ↔ _
      rw [keys, Option.isSome_iff_ne_none]
      exact (or_iff_right fun both : ScriptObject.world = .self ∧ _ => nomatch both.1).symm
  case ownKeys =>
    have same : (engine.proxy run.manager object).ownKeys = engine.listKeys object run.manager := by
      cases object <;> rfl
    rw [same]
    exact follows.mem_listKeys plain filled
  case describe =>
    have same : (engine.proxy run.manager object).describe name =
        if (engine.listKeys object run.manager).contains name then
          some (engine.getField object run.manager name) else none := by
      cases object <;> rfl
    rw [same, keys, read]
    cases run.properties object name <;> rfl
  case overwrite => exact fun held value json written => follows.setField_ok nonempty held written
  case differs =>
    rintro rfl expected value wanted json looked written
    exact (follows.compareAndSet_answers nonempty looked written).1
  case agrees =>
    rintro rfl expected value wanted json looked written same
    exact (follows.compareAndSet_answers nonempty looked written).2 (Option.some_ne_none _) same

/-- In a run that touches the place of a property only through the property itself, the property is
for the script what its calls made of it. -/
theorem properties_are_shown {nodeId : UInt64} {manager : FleeceStateManager}
    (created : FleeceStateManager.createWithNodeId nodeId = some manager)
    (engine : BindingEngine Value) {object : ScriptObject} {name : JsString} (plain : name.IsPlain)
    (filled : name ≠ []) {acts : List (ScriptAct Value)}
    (spares : Along (step engine) (Spares object name) (start manager) acts) :
    Shows engine (runFrom (step engine) (start manager) acts) object name := by
  have whole := JsString.toCString_chars plain.1
  have nonempty : name.toCString.chars ≠ [] := by
    rw [whole]
    exact filled
  have first : (start manager).Follows object name := by
    have blank : manager.liveView (object.place manager name) = none := by
      have empty : manager.view (object.place manager name) = none :=
        congrFun (FleeceStateManager.refines_create created).view.symm _
      rw [FleeceStateManager.liveView, empty]
      rfl
    refine ⟨FleeceStateManager.packedInvariant_create created,
      FleeceStateManager.keyed_create created, ?_, fun record found => ?_⟩
    · show (manager.liveView (object.place manager name)).map _ = none
      rw [blank]
      rfl
    · exact absurd (blank.symm.trans found) (Option.some_ne_none record).symm
  have keeps (run : ScriptRun) (act : ScriptAct Value) (follows : run.Follows object name)
      (spared : run.Spares object name act) : (run.step engine act).Follows object name :=
    follows.step nonempty act spared
  exact (spares.invariant keeps first).shows plain filled

end ScriptRun

/-- Values are JSON texts, and `undefined` is none. -/
def sampleBindings : BindingEngine (List UInt8) where
  undefined := []
  isUndefined := List.isEmpty
  string name := 0x22 :: name ++ [0x22]
  parseJson json := some json.bytes
  stringify value :=
    if fits : value ≠ [] ∧ value.length < 2 ^ 32 then .text ⟨value, fits.2⟩ else .undefined
  size_of_text value json written := by
    split_ifs at written with fits
    obtain rfl := Stringified.text.inj written
    exact fun empty => fits.1 (List.length_eq_zero_iff.mp empty)
  newString := CString.chars
  newString_eq_iff _ _ _ := Iff.rfl

/-- A field of the node is set twice. Between the two a frame brings a shared field of the same
name, and the script sets that field and deletes another one of its own. -/
theorem properties_are_shown_twice_set :
    let name : JsString := [0x68, 0x70]
    let frame := ((FleeceStateManager.blank 9).after
      [.write (.setShared name.toCString ⟨[0x31], by decide⟩)]).exportShared
    let acts : List (ScriptAct (List UInt8)) := [.set .self name [0x35], .store (.importFrom frame),
      .set .world name [0x37], .delete .self [0x6D, 0x70], .set .self name [0x36]]
    let run := runFrom (ScriptRun.step sampleBindings) (ScriptRun.start (.blank 7)) acts
    ScriptRun.Shows sampleBindings run .self name ∧
      run.properties .self name = some ⟨[0x36], by decide⟩ := by
  intro name frame acts run
  have plain : name.IsPlain :=
    ⟨by decide, ['h', 'p'], by decide +kernel, fun char member => by
      rcases List.mem_pair.mp member with rfl | rfl <;> decide⟩
  refine ⟨ScriptRun.properties_are_shown
    (show FleeceStateManager.createWithNodeId 7 = some (.blank 7) from rfl) sampleBindings plain
    (by decide) ⟨⟨rfl, Or.inl rfl⟩, ⟨rfl, Or.inl ⟨rfl, frame, rfl⟩⟩, ⟨rfl, Or.inr ?_⟩,
      ⟨rfl, Or.inr ?_⟩, ⟨rfl, Or.inl rfl⟩, trivial⟩, ?_⟩
  · decide +kernel
  · decide +kernel
  · decide +kernel

end Fleece
