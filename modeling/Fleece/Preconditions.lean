/-
This file is about the preconditions that are script sources: those of an action in
the tables, through `js_action_pre`, and those of the action library of a brain,
which `fleece_goap_brain_set_action_library` compiles once and
`action_library_find_applicable` calls.

Both take the value `undefined` for a precondition that was left out. A source that
does not compile ends up as the same value, and so does one that is evaluated to it;
such a source is passed over and does not make its action inapplicable.
-/

import Fleece.JsEval

namespace Fleece

/-- A definition of the action library; a source that is NULL is `none`. -/
structure FleeceActionDef where
  pre : Option CString
  eff : Option CString
  exec : Option CString

/-- The action library of a brain, compiled. -/
structure ActionLibrary (Value : Type) where
  preFns : List Value
  effFns : List Value
  execFns : List Value

namespace ScriptEngine

variable {Value Cost : Type} (engine : ScriptEngine Value Cost)

/-! ### The action library -/

/-- `fleece_goap_brain_set_action_library`. Without definitions the library is empty. -/
def setActionLibrary (defs : List FleeceActionDef) : ActionLibrary Value × Int :=
  ({ preFns := defs.map fun given => engine.jsFn (dupStr given.pre)
     effFns := defs.map fun given => engine.jsFn (dupStr given.eff)
     execFns := defs.map fun given => engine.jsFn (dupStr given.exec) }, 0)

/-- `action_call_bool`, of a script that does not touch the store. -/
def actionCallBool (fn : Value) (bb : FleeceGoapBlackboard) : Bool :=
  if engine.isUndefined fn then true else engine.answersTrue fn (engine.goapBbToJs bb)

/-- `action_library_find_applicable`. -/
def findApplicable (library : ActionLibrary Value) (bb : FleeceGoapBlackboard) : Option Nat :=
  library.preFns.findIdx? fun fn => engine.actionCallBool fn bb

/-! ### What becomes of a source -/

/-- The source compiles to a function, and the function returns a true value. -/
def Accepts (src : CString) (bb : FleeceGoapBlackboard) : Prop :=
  ∃ fn result, engine.compileGoapFn src = some fn ∧ engine.isFunction fn = true ∧
    engine.call fn (engine.goapBbToJs bb) = some result ∧ engine.toBool result = true

/-- There is a source, but it does not compile or its value is `undefined`. -/
def Ignored (src : CString) : Prop :=
  src.chars ≠ [] ∧ engine.isUndefined (engine.compiled src) = true

instance (src : CString) : Decidable (engine.Ignored src) := inferInstanceAs (Decidable (_ ∧ _))

variable {engine} {src : CString} {bb : FleeceGoapBlackboard}

theorem ignored_of_not_compiled (nonempty : src.chars ≠ [])
    (threw : engine.compileGoapFn src = none) : engine.Ignored src := by
  refine ⟨nonempty, ?_⟩
  rw [compiled, threw, Option.getD_none]
  exact engine.isUndefined_undefined

theorem not_ignored_of_accepts (accepts : engine.Accepts src bb) : ¬ engine.Ignored src := by
  obtain ⟨fn, _, compiled, isFunction, _⟩ := accepts
  rintro ⟨_, undefined⟩
  rw [ScriptEngine.compiled, compiled, Option.getD_some, not_isUndefined_of_isFunction isFunction]
    at undefined
  cases undefined

/-- What is passed: no source, an ignored one, or one that accepts. -/
theorem passes_iff : engine.passes (engine.goapBbToJs bb) src = true ↔
    src.chars = [] ∨ engine.Ignored src ∨ engine.Accepts src bb := by
  by_cases empty : src.chars = []
  · refine iff_of_true ?_ (Or.inl empty)
    rw [passes, jsFn, if_pos empty, engine.isUndefined_undefined, Bool.true_or]
  · rw [passes, jsFn, if_neg empty, or_iff_right empty, Bool.or_eq_true_iff]
    constructor
    · rintro (undefined | answered)
      · exact Or.inl ⟨empty, undefined⟩
      · by_cases undefined : engine.isUndefined (engine.compiled src) = true
        · exact Or.inl ⟨empty, undefined⟩
        · obtain ⟨result, called, holds⟩ := (Option.any_eq_true _ _).mp answered
          cases made : engine.compileGoapFn src with
          | none => exact absurd (ignored_of_not_compiled empty made).2 undefined
          | some fn =>
            rw [compiled, made, Option.getD_some] at called
            refine Or.inr ⟨fn, result, made, ?_, called, holds⟩
            cases isFunction : engine.isFunction fn with
            | true => rfl
            | false =>
              rw [engine.call_of_not_isFunction fn _ isFunction] at called
              cases called
    · rintro (⟨_, undefined⟩ | ⟨fn, result, compiled, _, called, holds⟩)
      · exact Or.inl undefined
      · refine Or.inr ?_
        rw [answersTrue, ScriptEngine.compiled, compiled, Option.getD_some, called]
        exact holds

theorem actionCallBool_eq (src : CString) (bb : FleeceGoapBlackboard) :
    engine.actionCallBool (engine.jsFn src) bb = engine.passes (engine.goapBbToJs bb) src := by
  unfold actionCallBool passes
  split_ifs with undefined
  · rw [undefined, Bool.true_or]
  · rw [(Bool.not_eq_true _).mp undefined, Bool.false_or]

/-! ### Failing closed -/

variable (engine)

/-- An action that is reported applicable has no source that does not accept. -/
def ActionFailsClosed (tables : GoapTables) (je : FleeceGoapJsEval Value) (actionIdx : Nat)
    (bb : FleeceGoapBlackboard) : Prop :=
  (engine.jsActionPre tables je actionIdx bb).1 = (0, true) →
    ∀ src ∈ preSources tables actionIdx, src.chars ≠ [] → engine.Accepts src bb

/-- An action of the library that is selected has no precondition that does not accept. -/
def LibraryFailsClosed (defs : List FleeceActionDef) (bb : FleeceGoapBlackboard) : Prop :=
  ∀ i given src, engine.findApplicable (engine.setActionLibrary defs).1 bb = some i →
    defs[i]? = some given → given.pre = some src → src.chars ≠ [] → engine.Accepts src bb

/-- A source of the library throws when it is compiled. -/
def Uncompiled (defs : List FleeceActionDef) : Prop :=
  ∃ given ∈ defs, ∃ src, (given.pre = some src ∨ given.eff = some src ∨ given.exec = some src) ∧
    src.chars ≠ [] ∧ engine.compileGoapFn src = none

variable {engine}

theorem actionFailsClosed_iff {je : FleeceGoapJsEval Value} (valid : je.Valid engine.compiled)
    (tables : GoapTables) (actionIdx : Nat) (bb : FleeceGoapBlackboard) :
    engine.ActionFailsClosed tables je actionIdx bb ↔
      (∀ src ∈ preSources tables actionIdx, ¬ engine.Ignored src) ∨
        ∃ src ∈ preSources tables actionIdx,
          src.chars ≠ [] ∧ ¬ engine.Ignored src ∧ ¬ engine.Accepts src bb := by
  have reported : (engine.jsActionPre tables je actionIdx bb).1 = (0, true) ↔
      ∀ src ∈ preSources tables actionIdx, engine.passes (engine.goapBbToJs bb) src = true := by
    rw [jsActionPre, (preLoop_eq valid _ _ _ _).1, Prod.mk.injEq, eq_self, true_and,
      List.all_eq_true]
  unfold ActionFailsClosed
  rw [reported]
  simp only [passes_iff]
  constructor
  · intro closed
    by_contra open'
    push Not at open'
    obtain ⟨⟨src, member, ignored⟩, others⟩ := open'
    refine not_ignored_of_accepts (closed (fun other isOther => ?_) src member ignored.1) ignored
    by_cases empty : other.chars = []
    · exact Or.inl empty
    · by_cases skipped : engine.Ignored other
      · exact Or.inr (Or.inl skipped)
      · exact Or.inr (Or.inr (others other isOther empty skipped))
  · rintro (sound | ⟨src, member, nonempty, called, refused⟩) passed
    · intro src member nonempty
      exact ((passed src member).resolve_left nonempty).resolve_left (sound src member)
    · exact absurd (((passed src member).resolve_left nonempty).resolve_left called) refused

theorem libraryFailsClosed_iff (defs : List FleeceActionDef) (bb : FleeceGoapBlackboard) :
    engine.LibraryFailsClosed defs bb ↔ ∀ before bad after src, defs = before ++ bad :: after →
      bad.pre = some src → engine.Ignored src → ∃ other ∈ before,
        (dupStr other.pre).chars = [] ∨ engine.Ignored (dupStr other.pre) ∨
          engine.Accepts (dupStr other.pre) bb := by
  have selected (i : Nat) : engine.findApplicable (engine.setActionLibrary defs).1 bb = some i ↔
      ∃ inside : i < defs.length,
        engine.passes (engine.goapBbToJs bb) (dupStr defs[i].pre) = true ∧
        ∀ j (before : j < i),
          ¬ engine.passes (engine.goapBbToJs bb) (dupStr defs[j].pre) = true := by
    unfold findApplicable setActionLibrary
    simp only [List.findIdx?_map, List.findIdx?_eq_some_iff_getElem, Function.comp_apply,
      actionCallBool_eq]
  simp only [← passes_iff]
  constructor
  · rintro closed before bad after src rfl isPre ignored
    by_contra none
    push Not at none
    have passed : engine.passes (engine.goapBbToJs bb) (dupStr bad.pre) = true := by
      rw [isPre]
      exact passes_iff.mpr (Or.inr (Or.inl ignored))
    have here : (before ++ bad :: after)[before.length]? = some bad := by
      rw [List.getElem?_append_right le_rfl, Nat.sub_self, List.getElem?_cons_zero]
    refine not_ignored_of_accepts (closed before.length bad src ((selected _).mpr ?_) here isPre
      ignored.1) ignored
    obtain ⟨inside, same⟩ := List.getElem?_eq_some_iff.mp here
    refine ⟨inside, by rw [same]; exact passed, fun j earlier => ?_⟩
    rw [List.getElem_append_left earlier]
    exact none _ (List.getElem_mem earlier)
  · intro covered i given src found here isPre nonempty
    obtain ⟨inside, passed, first⟩ := (selected i).mp found
    obtain rfl : defs[i] = given := (List.getElem?_eq_some_iff.mp here).2
    rw [isPre] at passed
    refine ((passes_iff.mp passed).resolve_left nonempty).resolve_left fun ignored => ?_
    obtain ⟨other, member, passedOther⟩ := covered (defs.take i) defs[i] (defs.drop (i + 1)) src
      (by rw [List.getElem_cons_drop, List.take_append_drop]) isPre ignored
    obtain ⟨j, earlier, rfl⟩ := List.mem_take_iff_getElem.mp member
    exact first j (lt_of_lt_of_le earlier (min_le_left _ _)) passedOther

/-- For every engine, tables, cache that holds the values of its sources, action and blackboard:
`js_action_pre` reports the action applicable only if all its sources accept, exactly if none is
ignored or one is called and does not accept. For every action library: the action selected accepts,
exactly if each one whose precondition is ignored stands behind one that is passed; and a source that
does not compile is reported exactly if there is none. -/
theorem preconditions_fail_closed_iff (engine : ScriptEngine Value Cost) (tables : GoapTables)
    (je : { je : FleeceGoapJsEval Value // je.Valid engine.compiled }) (actionIdx : Nat)
    (bb : FleeceGoapBlackboard) (defs : List FleeceActionDef) :
    (engine.ActionFailsClosed tables je actionIdx bb ↔
      (∀ src ∈ preSources tables actionIdx, ¬ engine.Ignored src) ∨
        ∃ src ∈ preSources tables actionIdx,
          src.chars ≠ [] ∧ ¬ engine.Ignored src ∧ ¬ engine.Accepts src bb) ∧
    (engine.LibraryFailsClosed defs bb ↔ ∀ before bad after src, defs = before ++ bad :: after →
      bad.pre = some src → engine.Ignored src → ∃ other ∈ before,
        (dupStr other.pre).chars = [] ∨ engine.Ignored (dupStr other.pre) ∨
          engine.Accepts (dupStr other.pre) bb) ∧
    ((engine.Uncompiled defs → (engine.setActionLibrary defs).2 = -1) ↔
      ¬ engine.Uncompiled defs) := by
  refine ⟨actionFailsClosed_iff je.2 tables actionIdx bb, libraryFailsClosed_iff defs bb, ?_⟩
  constructor
  · intro reports uncompiled
    exact absurd (reports uncompiled) (show (0 : Int) ≠ -1 by decide)
  · exact fun compiled uncompiled => absurd uncompiled compiled

/-- The precondition `(` does not compile. `js_action_pre` reports its action applicable; the library
takes it, returns 0 and selects it. -/
theorem uncompiled_precondition_passes :
    let typo : CString := ⟨[0x28], by decide⟩
    let given : FleeceGoapActionDef :=
      ⟨⟨some ⟨[0x61], by decide⟩, none, none, none, .zero, none, [some typo], []⟩, by decide,
        by decide⟩
    let defs : List FleeceActionDef := [⟨some typo, none, none⟩]
    sampleEngine.compileGoapFn typo = none ∧
      (∃ tables, GoapTables.empty.addAction given = some (tables, 0) ∧
        preSources tables 0 = [typo] ∧
        (sampleEngine.jsActionPre tables (.blank 3) 0 .empty).1 = (0, true)) ∧
      (sampleEngine.setActionLibrary defs).2 = 0 ∧
      sampleEngine.findApplicable (sampleEngine.setActionLibrary defs).1 .empty = some 0 ∧
      ¬ sampleEngine.Accepts typo .empty := by
  intro typo given defs
  refine ⟨rfl, ⟨_, rfl, rfl, rfl⟩, rfl, rfl, ?_⟩
  rintro ⟨fn, _, compiled, _⟩
  cases compiled

end ScriptEngine

end Fleece
