/-
This file models `fleece_platform.c`, the registry of native functions that scripts
call by name: 32 slots, each with a name of at most 31 bytes. A lookup compares the
name it is given with the stored ones; a registration stores the first 31 bytes of its
name. The registry is compared with a finite map from names to functions, which a call
that reports success updates. A longer name is what tells the two apart: it is stored
cut short and never found again.

A function is what it does with its arguments and its user data. A pointer argument
is taken to be non-NULL, but for the function and the user data of a registration.
-/

import Fleece.StateManager
import Fleece.Runs

namespace Fleece

/-! ### The registry -/

/-- `FLEECE_PLATFORM_MAX_FUNCTIONS`. -/
abbrev platformMaxFunctions : Nat := 32

/-- `FLEECE_PLATFORM_FUNCTION_NAME_MAX`. -/
abbrev platformFunctionNameMax : Nat := 32

/-- `FleecePlatformFunction`: the return code and `*result_json`, from the arguments and the user
data. -/
def FleecePlatformFunction (Data : Type) : Type := Blob → Option Data → Int × Option Blob

/-- The contents of a `char name[FLEECE_PLATFORM_FUNCTION_NAME_MAX]` up to its terminator. -/
structure PlatformName extends CString where
  lengthLt : chars.length < platformFunctionNameMax
  deriving DecidableEq

/-- `strncpy(dst, name, FLEECE_PLATFORM_FUNCTION_NAME_MAX - 1)` and the terminator after it. -/
def PlatformName.copy (name : CString) : PlatformName where
  chars := name.chars.take (platformFunctionNameMax - 1)
  noNul := fun member => name.noNul (List.mem_of_mem_take member)
  lengthLt := by
    rw [List.length_take]
    exact lt_of_le_of_lt (min_le_left _ _) (by decide)

variable {Data : Type}

/-- `PlatformSlot`: a name, its function and the pointer it is called with. -/
structure PlatformSlot (Data : Type) where
  name : PlatformName
  fn : Option (FleecePlatformFunction Data)
  userData : Option Data
  slotExists : Bool

/-- A slot as `calloc` leaves it. -/
def PlatformSlot.zero : PlatformSlot Data where
  name := ⟨FieldName.empty.toCString, Nat.zero_lt_succ 31⟩
  fn := none
  userData := none
  slotExists := false

/-- The name under which a slot is found. -/
def PlatformSlot.label (slot : PlatformSlot Data) : Option CString :=
  if slot.slotExists then some slot.name.toCString else none

/-- `struct FleecePlatform`. -/
structure FleecePlatform (Data : Type) where
  functions : Fin platformMaxFunctions → PlatformSlot Data

namespace FleecePlatform

/-- `fleece_platform_create`. -/
def create : FleecePlatform Data := ⟨fun _ => .zero⟩

/-- `find_slot`: the first existing slot with the name. -/
def findSlot (platform : FleecePlatform Data) (name : CString) :
    Option (Fin platformMaxFunctions) :=
  Slots.find PlatformSlot.label platform.functions name

/-- The first slot that is not in use. -/
def freeSlot (platform : FleecePlatform Data) : Option (Fin platformMaxFunctions) :=
  Fin.find? fun i => !(platform.functions i).slotExists

/-- One slot is overwritten. -/
def setSlot (platform : FleecePlatform Data) (i : Fin platformMaxFunctions)
    (slot : PlatformSlot Data) : FleecePlatform Data :=
  ⟨Function.update platform.functions i slot⟩

/-- `fleece_platform_register`. -/
def register (platform : FleecePlatform Data) (name : CString)
    (fn : Option (FleecePlatformFunction Data)) (userData : Option Data) :
    FleecePlatform Data × Int :=
  if name.chars = [] ∨ fn.isNone then (platform, -1)
  else
    match (platform.findSlot name).or platform.freeSlot with
    | none => (platform, -1)
    | some idx => (platform.setSlot idx ⟨.copy name, fn, userData, true⟩, 0)

/-- `fleece_platform_unregister`: the name stays in the slot. -/
def unregister (platform : FleecePlatform Data) (name : CString) : FleecePlatform Data × Int :=
  match platform.findSlot name with
  | none => (platform, -1)
  | some idx => (platform.setSlot idx ⟨(platform.functions idx).name, none, none, false⟩, 0)

/-- `fleece_platform_has_function`. -/
def hasFunction (platform : FleecePlatform Data) (name : CString) : Bool :=
  (platform.findSlot name).isSome

/-- The names that `fleece_platform_list_functions` writes. -/
def listFunctions (platform : FleecePlatform Data) (maxNames : Nat) : List CString :=
  (((List.ofFn platform.functions).filter PlatformSlot.slotExists).take maxNames).map fun slot =>
    (PlatformName.copy slot.name.toCString).toCString

/-- `fleece_platform_call`; nothing is a call through a NULL pointer. -/
def call (platform : FleecePlatform Data) (name : CString) (args : Blob) :
    Option (Int × Option Blob) :=
  match platform.findSlot name with
  | none => some (-1, none)
  | some idx =>
    (platform.functions idx).fn.map fun fn => fn args (platform.functions idx).userData

end FleecePlatform

/-! ### Sequences of calls -/

/-- A call that changes the registry. -/
inductive PlatformCall (Data : Type) where
  | register (name : CString) (fn : Option (FleecePlatformFunction Data)) (userData : Option Data)
  | unregister (name : CString)

/-- What is registered under a name. -/
abbrev Registered (Data : Type) : Type := FleecePlatformFunction Data × Option Data

/-- The registry with the map of what was registered by the calls that reported success. -/
structure PlatformRun (Data : Type) where
  platform : FleecePlatform Data
  map : Finmap fun _ : CString => Registered Data

namespace PlatformRun

/-- The registry before the first call, beside the empty map. -/
def start : PlatformRun Data := ⟨.create, ∅⟩

/-- What a call does to the registry, and to the map from names to functions. -/
def step (run : PlatformRun Data) : PlatformCall Data → PlatformRun Data
  | .register name fn userData =>
    let answer := run.platform.register name fn userData
    { platform := answer.1
      map := match fn with
        | some function =>
          if answer.2 = 0 then run.map.insert name (function, userData) else run.map
        | none => run.map }
  | .unregister name =>
    let answer := run.platform.unregister name
    { platform := answer.1
      map := if answer.2 = 0 then run.map.erase name else run.map }

/-- The registry is the map: what is found, called and listed is what the map holds, and a name
that is there is replaced in its slot. -/
structure IsMap (run : PlatformRun Data) : Prop where
  found : ∀ name, run.platform.hasFunction name = (run.map.lookup name).isSome
  called : ∀ name args, run.platform.call name args =
    match run.map.lookup name with
    | none => some (-1, none)
    | some (function, userData) => some (function args userData)
  listed : ∀ maxNames, (run.platform.listFunctions maxNames).Nodup ∧
    (run.platform.listFunctions maxNames).length = min maxNames run.map.keys.card ∧
    ∀ name ∈ run.platform.listFunctions maxNames, name ∈ run.map
  few : run.map.keys.card ≤ platformMaxFunctions
  replaced : ∀ name function userData, name ∈ run.map →
    ∃ idx, run.platform.findSlot name = some idx ∧
      run.platform.register name (some function) userData =
        (run.platform.setSlot idx ⟨.copy name, some function, userData, true⟩, 0) ∧
      (run.step (.register name (some function) userData)).map.keys.card = run.map.keys.card

/-- The call keeps to names that fit a slot: a registration that stores its name has one of at most
31 bytes. -/
def Fits (run : PlatformRun Data) : PlatformCall Data → Prop
  | .register name fn _ =>
    name.chars.length < platformFunctionNameMax ∨ fn = none ∨ run.platform.freeSlot = none
  | .unregister _ => True

end PlatformRun

/-! ### Slots and labels -/

/-- A name that fits is stored whole. -/
theorem PlatformName.copy_of_short {name : CString}
    (short : name.chars.length < platformFunctionNameMax) :
    (PlatformName.copy name).toCString = name := by
  have whole : name.chars.take (platformFunctionNameMax - 1) = name.chars :=
    List.take_of_length_le (Nat.le_pred_of_lt short)
  cases name
  simp only [PlatformName.copy, CString.mk.injEq]
  exact whole

theorem PlatformName.copy_toCString (name : PlatformName) :
    (PlatformName.copy name.toCString).toCString = name.toCString :=
  copy_of_short name.lengthLt

theorem PlatformSlot.label_eq_some_iff {slot : PlatformSlot Data} {name : CString} :
    slot.label = some name ↔ slot.slotExists = true ∧ slot.name.toCString = name := by
  unfold label
  split_ifs with used
  · rw [Option.some_inj]
    exact ⟨fun same => ⟨used, same⟩, fun both => both.2⟩
  · exact ⟨nofun, fun both => absurd both.1 used⟩

theorem PlatformSlot.label_eq_none_iff {slot : PlatformSlot Data} :
    slot.label = none ↔ slot.slotExists = false := by
  unfold label
  split_ifs with used
  · exact ⟨nofun, fun free => absurd (used.symm.trans free) Bool.noConfusion⟩
  · exact ⟨fun _ => Bool.eq_false_of_not_eq_true used, fun _ => rfl⟩

/-- A stored name is shorter than its buffer. -/
theorem PlatformSlot.length_of_label {slot : PlatformSlot Data} {name : CString}
    (labelled : slot.label = some name) : name.chars.length < platformFunctionNameMax := by
  obtain ⟨_, rfl⟩ := label_eq_some_iff.mp labelled
  exact slot.name.lengthLt

/-- What a slot holds for a caller. -/
def PlatformSlot.registered (slot : PlatformSlot Data) : Option (Registered Data) :=
  slot.fn.map fun fn => (fn, slot.userData)

namespace PlatformRun

/-! ### The invariant -/

/-- The slots have distinct names, each with a function to call, and they stand for the map. -/
structure Invariant (run : PlatformRun Data) : Prop where
  distinct : Slots.Distinct PlatformSlot.label run.platform.functions
  callable : ∀ i, (run.platform.functions i).slotExists = true →
    (run.platform.functions i).fn.isSome
  named : ∀ i, (run.platform.functions i).slotExists = true →
    (run.platform.functions i).name.chars ≠ []
  stands : ∀ name, run.map.lookup name =
    (Slots.lookup PlatformSlot.label run.platform.functions name).bind PlatformSlot.registered

theorem invariant_start : (start : PlatformRun Data).Invariant where
  distinct _ _ _ labelled := nomatch labelled
  callable _ used := nomatch used
  named _ used := nomatch used
  stands name := by
    have missing : Slots.lookup PlatformSlot.label (start : PlatformRun Data).platform.functions name
        = none := Slots.lookup_eq_none_iff.mpr fun _ => Option.some_ne_none _ ∘ Eq.symm
    rw [missing]
    exact Finmap.lookup_empty name

section Reading

variable {run : PlatformRun Data} (invariant : run.Invariant)
include invariant

/-- The slot under a name holds what the map holds. -/
theorem Invariant.slot {name : CString} {idx : Fin platformMaxFunctions}
    (found : run.platform.findSlot name = some idx) :
    ∃ function, (run.platform.functions idx).fn = some function ∧
      run.map.lookup name = some (function, (run.platform.functions idx).userData) := by
  obtain ⟨used, _⟩ := PlatformSlot.label_eq_some_iff.mp (Slots.label_of_find found)
  obtain ⟨function, held⟩ := Option.isSome_iff_exists.mp (invariant.callable idx used)
  have lookup : Slots.lookup PlatformSlot.label run.platform.functions name =
      some (run.platform.functions idx) := congrArg (Option.map run.platform.functions) found
  refine ⟨function, held, ?_⟩
  rw [invariant.stands, lookup, Option.bind_some, PlatformSlot.registered, held, Option.map_some]

theorem Invariant.absent {name : CString} (missing : run.platform.findSlot name = none) :
    run.map.lookup name = none := by
  have lookup : Slots.lookup PlatformSlot.label run.platform.functions name = none :=
    congrArg (Option.map run.platform.functions) missing
  rw [invariant.stands, lookup, Option.bind_none]

theorem Invariant.mem_iff {name : CString} :
    name ∈ run.map ↔ ∃ i, (run.platform.functions i).label = some name := by
  rw [Finmap.mem_iff]
  constructor
  · rintro ⟨registered, held⟩
    cases found : run.platform.findSlot name with
    | none =>
      rw [invariant.absent found] at held
      cases held
    | some idx => exact ⟨idx, Slots.label_of_find found⟩
  · rintro ⟨i, labelled⟩
    obtain ⟨_, _, held⟩ := invariant.slot ((Slots.find_eq_some_iff invariant.distinct).mpr labelled)
    exact ⟨_, held⟩

/-- The names in use, in the order of their slots. -/
theorem Invariant.names : ((List.ofFn run.platform.functions).filterMap PlatformSlot.label).Nodup ∧
    ∀ name, name ∈ (List.ofFn run.platform.functions).filterMap PlatformSlot.label ↔
      name ∈ run.map := by
  constructor
  · rw [List.ofFn_eq_map, List.filterMap_map]
    exact (List.nodup_finRange _).filterMap fun i j name first second =>
      invariant.distinct i j name first second
  · intro name
    rw [invariant.mem_iff, List.mem_filterMap]
    simp only [List.mem_ofFn, exists_exists_eq_and]

theorem Invariant.length_names :
    ((List.ofFn run.platform.functions).filterMap PlatformSlot.label).length =
      run.map.keys.card := by
  obtain ⟨nodup, mem⟩ := invariant.names
  rw [← List.toFinset_card_of_nodup nodup]
  refine congrArg Finset.card (Finset.ext fun name => ?_)
  rw [List.mem_toFinset, mem, Finmap.mem_keys]

end Reading

theorem listFunctions_eq (platform : FleecePlatform Data) (maxNames : Nat) :
    platform.listFunctions maxNames =
      ((List.ofFn platform.functions).filterMap PlatformSlot.label).take maxNames := by
  rw [FleecePlatform.listFunctions, List.map_take]
  refine congrArg (List.take maxNames) ?_
  induction List.ofFn platform.functions with
  | nil => rfl
  | cons slot rest inductionHypothesis =>
    rw [List.filter_cons, List.filterMap_cons]
    unfold PlatformSlot.label
    split_ifs with used
    · rw [List.map_cons, inductionHypothesis, PlatformName.copy_toCString]
      rfl
    · exact inductionHypothesis

/-- A registration goes to the slot of its name, or to the first free one. -/
theorem register_of_slot {platform : FleecePlatform Data} {name : CString}
    {idx : Fin platformMaxFunctions} {function : FleecePlatformFunction Data}
    {userData : Option Data}
    (place : platform.findSlot name = some idx ∨
      platform.findSlot name = none ∧ platform.freeSlot = some idx)
    (given : name.chars ≠ []) :
    platform.register name (some function) userData =
      (platform.setSlot idx ⟨.copy name, some function, userData, true⟩, 0) := by
  have accepted : ¬ (name.chars = [] ∨ (some function).isNone = true) := by
    rintro (empty | null)
    · exact given empty
    · cases null
  have chosen : (platform.findSlot name).or platform.freeSlot = some idx := by
    rcases place with found | ⟨missing, free⟩
    · rw [found, Option.some_or]
    · rw [missing, free, Option.none_or]
  unfold FleecePlatform.register
  simp only [if_neg accepted, chosen]

/-- A name that is there is found again and replaced where it is. -/
theorem Invariant.replace {run : PlatformRun Data} (invariant : run.Invariant) {name : CString}
    (function : FleecePlatformFunction Data) (userData : Option Data) (there : name ∈ run.map) :
    ∃ idx, run.platform.findSlot name = some idx ∧
      run.platform.register name (some function) userData =
        (run.platform.setSlot idx ⟨.copy name, some function, userData, true⟩, 0) := by
  obtain ⟨idx, labelled⟩ := invariant.mem_iff.mp there
  have found : run.platform.findSlot name = some idx :=
    (Slots.find_eq_some_iff invariant.distinct).mpr labelled
  obtain ⟨used, same⟩ := PlatformSlot.label_eq_some_iff.mp labelled
  exact ⟨idx, found, register_of_slot (.inl found) (same ▸ invariant.named idx used)⟩

theorem Invariant.call_eq {run : PlatformRun Data} (invariant : run.Invariant) (name : CString)
    (args : Blob) : run.platform.call name args =
      match run.map.lookup name with
      | none => some (-1, none)
      | some (function, userData) => some (function args userData) := by
  unfold FleecePlatform.call
  cases found : run.platform.findSlot name with
  | none => simp only [invariant.absent found]
  | some idx =>
    obtain ⟨function, fn, held⟩ := invariant.slot found
    simp only [held, fn, Option.map_some]

theorem step_register {run : PlatformRun Data} {name : CString}
    {function : FleecePlatformFunction Data} {userData : Option Data}
    {platform : FleecePlatform Data}
    (registered : run.platform.register name (some function) userData = (platform, 0)) :
    run.step (.register name (some function) userData) =
      ⟨platform, run.map.insert name (function, userData)⟩ := by
  simp only [step, registered, if_true]

theorem keys_insert_of_mem {map : Finmap fun _ : CString => Registered Data} {name : CString}
    (there : name ∈ map) (registered : Registered Data) :
    (map.insert name registered).keys = map.keys := by
  refine Finset.ext fun other => ?_
  rw [Finmap.mem_keys, Finmap.mem_keys, Finmap.mem_insert]
  exact ⟨fun either => either.elim (fun same => same ▸ there) id, .inr⟩

theorem Invariant.isMap {run : PlatformRun Data} (invariant : run.Invariant) : run.IsMap where
  found name := by
    rw [FleecePlatform.hasFunction]
    cases found : run.platform.findSlot name with
    | none => rw [invariant.absent found]; rfl
    | some idx =>
      obtain ⟨_, _, held⟩ := invariant.slot found
      rw [held]
      rfl
  called := invariant.call_eq
  listed maxNames := by
    obtain ⟨nodup, mem⟩ := invariant.names
    rw [listFunctions_eq]
    exact ⟨nodup.sublist (List.take_sublist _ _), by rw [List.length_take, invariant.length_names],
      fun name member => (mem name).mp (List.mem_of_mem_take member)⟩
  few := by
    rw [← invariant.length_names]
    exact (List.length_filterMap_le _ _).trans (List.length_ofFn).le
  replaced name function userData there := by
    obtain ⟨idx, found, replaced⟩ := invariant.replace function userData there
    refine ⟨idx, found, replaced, ?_⟩
    rw [step_register replaced]
    exact congrArg Finset.card (keys_insert_of_mem there _)

/-! ### What a call does -/

/-- A function is stored under a name that fits, in the slot of the name or in a free one when no
slot has it. -/
theorem Invariant.put {run : PlatformRun Data} (invariant : run.Invariant) {name : CString}
    (short : name.chars.length < platformFunctionNameMax) (given : name.chars ≠ [])
    {idx : Fin platformMaxFunctions} (function : FleecePlatformFunction Data)
    (userData : Option Data)
    (place : (run.platform.functions idx).label = some name ∨
      (run.platform.functions idx).label = none ∧ run.platform.findSlot name = none) :
    Invariant ⟨run.platform.setSlot idx ⟨.copy name, some function, userData, true⟩,
      run.map.insert name (function, userData)⟩ := by
  have whole := PlatformName.copy_of_short short
  have label : (⟨.copy name, some function, userData, true⟩ : PlatformSlot Data).label =
      some name := congrArg some whole
  have own : ∀ j wanted, (⟨.copy name, some function, userData, true⟩ : PlatformSlot Data).label =
      some wanted → (run.platform.functions j).label = some wanted → j = idx := by
    intro j wanted new old
    obtain rfl := Option.some.inj (label.symm.trans new)
    rcases place with here | ⟨-, absent⟩
    · exact invariant.distinct j idx name old here
    · exact absurd old (Slots.find_eq_none_iff.mp absent j)
  have distinct := Slots.distinct_update invariant.distinct idx own
  constructor
  · exact distinct
  · intro i used
    rcases eq_or_ne i idx with rfl | other
    · simp only [FleecePlatform.setSlot, Function.update_self, Option.isSome_some]
    · simp only [FleecePlatform.setSlot, Function.update_of_ne other] at used ⊢
      exact invariant.callable i used
  · intro i used
    rcases eq_or_ne i idx with rfl | other
    · simp only [FleecePlatform.setSlot, Function.update_self, whole]
      exact given
    · simp only [FleecePlatform.setSlot, Function.update_of_ne other] at used ⊢
      exact invariant.named i used
  · intro wanted
    simp only [FleecePlatform.setSlot]
    rcases eq_or_ne wanted name with rfl | other
    · rw [Finmap.lookup_insert, Slots.lookup_update_self distinct label]
      rfl
    · have oldOther : (run.platform.functions idx).label ≠ some wanted := by
        rcases place with here | ⟨free, -⟩
        · rw [here]
          exact fun same => other (Option.some.inj same).symm
        · rw [free]
          exact nofun
      rw [Finmap.lookup_insert_of_ne _ other, invariant.stands, Slots.lookup_update_of_ne idx oldOther
        (fun same => other (Option.some.inj (label.symm.trans same)).symm)]

/-- The slot of a name is given up. -/
theorem Invariant.erase {run : PlatformRun Data} (invariant : run.Invariant) {name : CString}
    {idx : Fin platformMaxFunctions} (found : run.platform.findSlot name = some idx) :
    Invariant ⟨run.platform.setSlot idx ⟨(run.platform.functions idx).name, none, none, false⟩,
      run.map.erase name⟩ := by
  have here := Slots.label_of_find found
  have distinct : Slots.Distinct PlatformSlot.label (Function.update run.platform.functions idx
      ⟨(run.platform.functions idx).name, none, none, false⟩) :=
    Slots.distinct_update invariant.distinct idx fun _ _ => nofun
  constructor
  · exact distinct
  · intro i used
    rcases eq_or_ne i idx with rfl | other
    · simp only [FleecePlatform.setSlot, Function.update_self, Bool.false_eq_true] at used
    · simp only [FleecePlatform.setSlot, Function.update_of_ne other] at used ⊢
      exact invariant.callable i used
  · intro i used
    rcases eq_or_ne i idx with rfl | other
    · simp only [FleecePlatform.setSlot, Function.update_self, Bool.false_eq_true] at used
    · simp only [FleecePlatform.setSlot, Function.update_of_ne other] at used ⊢
      exact invariant.named i used
  · intro wanted
    simp only [FleecePlatform.setSlot]
    rcases eq_or_ne wanted name with rfl | other
    · have gone : Slots.lookup PlatformSlot.label (Function.update run.platform.functions idx
          ⟨(run.platform.functions idx).name, none, none, false⟩) wanted = none := by
        refine Slots.lookup_eq_none_iff.mpr fun i => ?_
        rcases eq_or_ne i idx with rfl | elsewhere
        · rw [Function.update_self]
          exact nofun
        · rw [Function.update_of_ne elsewhere]
          exact fun labelled => elsewhere (invariant.distinct i idx wanted labelled here)
      rw [Finmap.lookup_erase, gone, Option.bind_none]
    · rw [Finmap.lookup_erase_ne other, invariant.stands, Slots.lookup_update_of_ne idx
        (fun same => other (Option.some.inj (here.symm.trans same)).symm)
        (Option.some_ne_none wanted ∘ Eq.symm)]

theorem label_of_freeSlot {platform : FleecePlatform Data} {idx : Fin platformMaxFunctions}
    (free : platform.freeSlot = some idx) : (platform.functions idx).label = none := by
  have unused := Fin.eq_true_of_find?_eq_some free
  rw [Bool.not_eq_true'] at unused
  exact PlatformSlot.label_eq_none_iff.mpr unused

/-- A call that keeps to names that fit keeps the invariant. -/
theorem Invariant.step {run : PlatformRun Data} (invariant : run.Invariant)
    (call : PlatformCall Data) (fits : run.Fits call) : (run.step call).Invariant := by
  cases call with
  | register name fn userData =>
    cases fn with
    | none =>
      have refused : run.platform.register name none userData = (run.platform, -1) :=
        if_pos (.inr rfl)
      simp only [PlatformRun.step, refused]
      exact invariant
    | some function =>
      by_cases empty : name.chars = []
      · have refused : run.platform.register name (some function) userData = (run.platform, -1) :=
          if_pos (.inl empty)
        simp only [PlatformRun.step, refused]
        exact invariant
      · cases found : run.platform.findSlot name with
        | some idx =>
          have here := Slots.label_of_find found
          rw [step_register (register_of_slot (.inl found) empty)]
          exact invariant.put (PlatformSlot.length_of_label here) empty function userData (.inl here)
        | none =>
          cases free : run.platform.freeSlot with
          | some idx =>
            have short : name.chars.length < platformFunctionNameMax := by
              rcases fits with short | null | full
              · exact short
              · cases null
              · rw [free] at full
                cases full
            rw [step_register (register_of_slot (.inr ⟨found, free⟩) empty)]
            exact invariant.put short empty function userData (.inr ⟨label_of_freeSlot free, found⟩)
          | none =>
            have refused : run.platform.register name (some function) userData =
                (run.platform, -1) := by
              unfold FleecePlatform.register
              simp only [found, free, Option.none_or, ite_self]
            simp only [PlatformRun.step, refused]
            exact invariant
  | unregister name =>
    cases found : run.platform.findSlot name with
    | none =>
      have refused : run.platform.unregister name = (run.platform, -1) := by
        unfold FleecePlatform.unregister
        simp only [found]
      simp only [PlatformRun.step, refused]
      exact invariant
    | some idx =>
      have erased : run.platform.unregister name =
          (run.platform.setSlot idx ⟨(run.platform.functions idx).name, none, none, false⟩, 0) := by
        unfold FleecePlatform.unregister
        simp only [found]
      simp only [PlatformRun.step, erased, if_true]
      exact invariant.erase found

/-- A registration whose name is stored cut short is not found under its name. -/
theorem not_isMap_of_not_fits {run : PlatformRun Data} {call : PlatformCall Data}
    (unfit : ¬ run.Fits call) : ¬ (run.step call).IsMap := by
  cases call with
  | unregister name => exact absurd trivial unfit
  | register name fn userData =>
    obtain ⟨long, given, free⟩ := not_or.mp unfit |>.imp_right not_or.mp
    obtain ⟨function, rfl⟩ := Option.ne_none_iff_exists'.mp given
    obtain ⟨idx, isFree⟩ := Option.ne_none_iff_exists'.mp free
    have nowhere (platform : FleecePlatform Data) : platform.findSlot name = none :=
      Slots.find_eq_none_iff.mpr fun i labelled => long (PlatformSlot.length_of_label labelled)
    have nonempty : name.chars ≠ [] := fun empty => long (empty ▸ by decide)
    intro isMap
    have found := isMap.found name
    rw [step_register (register_of_slot (.inr ⟨nowhere _, isFree⟩) nonempty),
      FleecePlatform.hasFunction, nowhere, Finmap.lookup_insert] at found
    cases found

theorem isMap_step_iff {run : PlatformRun Data} (invariant : run.Invariant)
    (call : PlatformCall Data) : (run.step call).IsMap ↔ run.Fits call :=
  ⟨fun isMap => by_contra fun unfit => not_isMap_of_not_fits unfit isMap,
    fun fits => (invariant.step call fits).isMap⟩

/-- In every state of a run the registry is the map of what was registered, if and only if every
registration that is stored has a name of at most 31 bytes. -/
theorem platform_isMap_iff (calls : List (PlatformCall Data)) :
    ((start : PlatformRun Data).IsMap ∧
        Along step (fun run call => (run.step call).IsMap) start calls) ↔
      Along step Fits (start : PlatformRun Data) calls := by
  rw [and_iff_right (show (start : PlatformRun Data).IsMap from invariant_start.isMap)]
  refine along_iff
    (fun run call invariant => isMap_step_iff invariant call)
    (fun run call invariant isMap =>
      invariant.step call ((isMap_step_iff invariant call).mp isMap)) invariant_start

end PlatformRun

/-! ### A name of 32 bytes -/

theorem noNul_longName : (0 : UInt8) ∉ List.replicate 32 (97 : UInt8) := by decide

/-- A name one byte too long for its array. -/
def longName : CString := ⟨List.replicate 32 97, noNul_longName⟩

/-- A function that does nothing. -/
def noop : FleecePlatformFunction Unit := fun _ _ => (0, none)

/-- The registry after the name was registered once. -/
def registeredLong : FleecePlatform Unit := (FleecePlatform.create.register longName (some noop) none).1

/-- A name of 32 bytes is registered with success and not found, and registering it again takes
another slot and lists the first 31 bytes twice. -/
theorem register_longName :
    (FleecePlatform.create.register longName (some noop) none).2 = 0 ∧
      registeredLong.hasFunction longName = false ∧
      registeredLong.call longName .empty = some (-1, none) ∧
      (registeredLong.register longName (some noop) none).1.listFunctions 32 =
        List.replicate 2 (PlatformName.copy longName).toCString ∧
      ¬ ∀ calls : List (PlatformCall Unit), (PlatformRun.start : PlatformRun Unit).IsMap ∧
        Along PlatformRun.step (fun run call => (run.step call).IsMap) PlatformRun.start calls := by
  refine ⟨by decide +kernel, by decide +kernel, by decide +kernel, by decide +kernel, fun all => ?_⟩
  have isMap := (all [.register longName (some noop) none]).2.1
  refine PlatformRun.not_isMap_of_not_fits (fun fits => ?_) isMap
  rcases fits with short | null | full
  · exact absurd short (by decide)
  · cases null
  · exact absurd full (by decide +kernel)

end Fleece
