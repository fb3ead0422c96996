/-
This file is about how often a brain looks for a plan in vain. A goal without a plan
is left alone until its deadline, so over a run of ticks it costs one search for each
stretch of that length, whatever happens to the world and to the tables in between.
-/

import Fleece.BrainRuns

namespace Fleece

variable {Value Cost World : Type}

namespace FleeceGoapBrain

/-- The tick from which on the goal is tried again. -/
def deadline (brain : FleeceGoapBrain Cost) (goal : Nat) : Nat :=
  ((brain.goalCooldownUntil[goal]?).map UInt32.toNat).getD 0

/-- What a brain knows of the time. -/
structure SameTimes (brain next : FleeceGoapBrain Cost) : Prop where
  tickCount : next.tickCount = brain.tickCount
  cooldown : next.goalCooldownTicks = brain.goalCooldownTicks
  untils : next.goalCooldownUntil = brain.goalCooldownUntil

theorem SameTimes.refl (brain : FleeceGoapBrain Cost) : brain.SameTimes brain := ⟨rfl, rfl, rfl⟩

theorem execute_sameTimes (host : BrainHost Value Cost World) (tables : GoapTables)
    (brain : FleeceGoapBrain Cost) (world : World) :
    brain.SameTimes (brain.execute host tables world).brain := by
  unfold execute
  split
  · exact .refl brain
  · simp only
    split_ifs
    · exact ⟨rfl, rfl, rfl⟩
    · exact ⟨rfl, rfl, rfl⟩
    · unfold execBody
      split
      · exact ⟨rfl, rfl, rfl⟩
      · simp only
        split_ifs <;> exact ⟨rfl, rfl, rfl⟩

/-- The deadline of a goal after a step: it was left alone, or a search for it failed, which was
due. -/
inductive Throttles (brain next : FleeceGoapBrain Cost) (goal failures : Nat) : Prop
  | spared (none : failures = 0) (same : next.deadline goal = brain.deadline goal)
  | failed (once : failures = 1) (due : brain.deadline goal ≤ brain.tickCount.toNat)
      (put : next.deadline goal = brain.tickCount.toNat + brain.goalCooldownTicks.toNat)

theorem Throttles.of_sameTimes {brain ran next : FleeceGoapBrain Cost} {goal failures : Nat}
    (throttles : ran.Throttles next goal failures) (same : brain.SameTimes ran) :
    brain.Throttles next goal failures := by
  have deadlines : ran.deadline goal = brain.deadline goal := by
    rw [deadline, same.untils]
    rfl
  cases throttles with
  | spared none kept => exact .spared none (kept.trans deadlines)
  | failed once due put =>
    rw [deadlines, same.tickCount] at due
    rw [same.tickCount, same.cooldown] at put
    exact .failed once due put

/-- The brain with the number of the tick that begins. -/
def counted (brain : FleeceGoapBrain Cost) : FleeceGoapBrain Cost :=
  { brain with tickCount := brain.tickCount + 1 }

theorem counted_tickCount {brain : FleeceGoapBrain Cost}
    (noWrap : brain.tickCount.toNat + 1 < 2 ^ 32) :
    brain.counted.tickCount.toNat = brain.tickCount.toNat + 1 := by
  have one : (1 : UInt32).toNat = 1 := rfl
  rw [counted, UInt32.toNat_add, one]
  exact Nat.mod_eq_of_lt noWrap

section Search

variable {brain next : FleeceGoapBrain Cost} {goal : Nat}

theorem deadline_coolDown_self (on : 0 < brain.goalCooldownTicks)
    (inside : ¬ brain.IsPastEnd goal)
    (noWrap : brain.tickCount.toNat + brain.goalCooldownTicks.toNat < 2 ^ 32) :
    (brain.coolDown goal).deadline goal =
      brain.tickCount.toNat + brain.goalCooldownTicks.toNat := by
  have held : goal < brain.goalCooldownUntil.length := not_le.mp fun past => inside ⟨on, past⟩
  rw [coolDown, if_pos on, deadline]
  simp only [List.getElem?_set_self held, Option.map_some, Option.getD_some, UInt32.toNat_add]
  exact Nat.mod_eq_of_lt noWrap

theorem deadline_coolDown_of_ne {other : Nat} (differs : other ≠ goal) :
    (brain.coolDown goal).deadline other = brain.deadline other := by
  obtain ⟨untils, cooled, _, same⟩ := coolDown_eq brain goal
  rw [cooled, deadline, deadline]
  simp only [same other differs]

/-- Before its deadline a goal is cooling. -/
theorem deadline_le_of_not_cooling (on : 0 < brain.goalCooldownTicks)
    (warm : ¬ brain.isCooling goal = true) : brain.deadline goal ≤ brain.tickCount.toNat := by
  unfold deadline
  cases held : brain.goalCooldownUntil[goal]? with
  | none => exact Nat.zero_le _
  | some until' =>
    rw [isCooling, held, decide_eq_true on, Bool.true_and, Option.any_some,
      decide_eq_true_eq, UInt32.lt_iff_toNat_lt] at warm
    exact not_lt.mp warm

theorem coolDown_times (brain : FleeceGoapBrain Cost) (goal : Nat) :
    (brain.coolDown goal).tickCount = brain.tickCount ∧
      (brain.coolDown goal).goalCooldownTicks = brain.goalCooldownTicks := by
  obtain ⟨untils, cooled, _, _⟩ := coolDown_eq brain goal
  rw [cooled]
  exact ⟨rfl, rfl⟩

variable [Ring Cost] [LinearOrder Cost] (goap : GoapObject) (eval : FleeceGoapEval Cost)
  (bb : FleeceGoapBlackboard)

/-- The goals for which the loop of a replanning looks for a plan in vain: it goes the way of
`tryGoals` and collects those that are put off. -/
def failedSearches (brain : FleeceGoapBrain Cost) : List Nat → List Nat
  | [] => []
  | goal :: rest =>
    if brain.IsPastEnd goal then []
    else if brain.isCooling goal then brain.failedSearches rest
    else
      match planFor goap eval bb goal with
      | some _ => []
      | none => goal :: (brain.coolDown goal).failedSearches rest

variable {goap eval bb}

/-- The loop puts off each goal that it finds no plan for, and comes to it once. -/
theorem tryGoals_throttles {goals : List Nat} {event : BrainEvent}
    (on : 0 < brain.goalCooldownTicks)
    (noWrap : brain.tickCount.toNat + brain.goalCooldownTicks.toNat < 2 ^ 32)
    (tried : brain.tryGoals goap eval bb goals = .ok (next, event)) :
    next.tickCount = brain.tickCount ∧ next.goalCooldownTicks = brain.goalCooldownTicks ∧
      ∀ goal, brain.Throttles next goal ((failedSearches goap eval bb brain goals).count goal) := by
  induction goals generalizing brain with
  | nil =>
    cases tried
    exact ⟨rfl, rfl, fun _ => .spared rfl rfl⟩
  | cons first rest inductionHypothesis =>
    rw [tryGoals] at tried
    rw [failedSearches]
    by_cases outside : brain.IsPastEnd first
    · rw [if_pos outside] at tried
      cases tried
    rw [if_neg outside] at tried ⊢
    by_cases cooling : brain.isCooling first = true
    · rw [if_pos cooling] at tried ⊢
      exact inductionHypothesis on noWrap tried
    rw [if_neg cooling] at tried ⊢
    cases hasPlan : planFor goap eval bb first with
    | some planned =>
      simp only [hasPlan] at tried ⊢
      cases tried
      exact ⟨rfl, rfl, fun _ => .spared rfl rfl⟩
    | none =>
      simp only [hasPlan] at tried ⊢
      obtain ⟨tick, cooldown⟩ := coolDown_times brain first
      rw [← cooldown] at on noWrap
      rw [← tick] at noWrap
      obtain ⟨laterTick, laterCooldown, later⟩ := inductionHypothesis on noWrap tried
      rw [cooldown] at on noWrap
      rw [tick] at noWrap
      refine ⟨laterTick.trans tick, laterCooldown.trans cooldown, fun goal => ?_⟩
      have put := deadline_coolDown_self on outside noWrap
      have due := deadline_le_of_not_cooling on cooling
      have positive : 0 < brain.goalCooldownTicks.toNat := UInt32.lt_iff_toNat_lt.mp on
      rcases eq_or_ne goal first with rfl | differs
      · -- the goal was just put off, so the rest of the loop passes it over
        rw [List.count_cons_self]
        cases later goal with
        | spared none same => exact .failed (by rw [none]) due (same.trans put)
        | failed once again _ =>
          rw [put, tick] at again
          omega
      · have kept : (brain.coolDown first).deadline goal = brain.deadline goal :=
          deadline_coolDown_of_ne differs
        rw [List.count_cons_of_ne differs.symm]
        cases later goal with
        | spared none same => exact .spared none (same.trans kept)
        | failed once again later =>
          rw [kept, tick] at again
          rw [tick, cooldown] at later
          exact .failed once again later

end Search

section Tick

variable [Ring Cost] [LinearOrder Cost] {Score : Type} [Zero Score] [One Score] [Add Score]
  [Sub Score] [Mul Score] [Div Score] [BEq Score] [LT Score] [DecidableLT Score] [LE Score]
  [DecidableLE Score] (host : BrainHost Value Cost World) (goap : GoapObject)
  (reader : ScoreReader Score)

/-- The goals for which the replanning of a tick looks for a plan in vain. -/
def tickSearches (brain : FleeceGoapBrain Cost) (world : World) : List Nat :=
  match brain.replanInput host goap.toGoapTables world with
  | none => []
  | some (ran, after, bb) =>
    failedSearches goap (host.eval goap.toGoapTables after) bb ran.cleared
      (rankedGoals goap reader (host.eval goap.toGoapTables after) bb)

/-- A tick counts itself, and throttles the searches of its replanning. -/
theorem tick_throttles {brain next : FleeceGoapBrain Cost} {world : World} {code : Int}
    {event : Option BrainEvent} (on : 0 < brain.goalCooldownTicks)
    (noWrap : brain.counted.tickCount.toNat + brain.goalCooldownTicks.toNat < 2 ^ 32)
    (ticked : (brain.tick host goap reader world).result = .ok (next, code, event)) :
    next.tickCount = brain.counted.tickCount ∧
      next.goalCooldownTicks = brain.goalCooldownTicks ∧
      ∀ goal, brain.counted.Throttles next goal
        ((brain.tickSearches host goap reader world).count goal) := by
  let executed := execute host goap.toGoapTables { brain with tickCount := brain.tickCount + 1 }
    (host.goalPoolTick (brain.tickCount + 1) world)
  have times : brain.counted.SameTimes executed.brain :=
    execute_sameTimes host goap.toGoapTables brain.counted _
  have left {after : FleeceGoapBrain Cost} (same : brain.counted.SameTimes after) :
      after.tickCount = brain.counted.tickCount ∧
        after.goalCooldownTicks = brain.goalCooldownTicks ∧
        ∀ goal, brain.counted.Throttles after goal (([] : List Nat).count goal) :=
    ⟨same.tickCount, same.cooldown, fun goal => .spared rfl (by rw [deadline, same.untils]; rfl)⟩
  cases outcome : executed.outcome with
  | error failed =>
    simp only [tick, executed, outcome] at ticked
    simp only [tickSearches, replanInput, executed, outcome]
    cases ticked
    exact left times
  | ok ended =>
    cases fresh : host.freshBb (brain.tickCount + 1) executed.world with
    | mk given after =>
      cases given with
      | none =>
        simp only [tick, executed, outcome, fresh] at ticked
        simp only [tickSearches, replanInput, executed, outcome, fresh]
        cases ticked
        exact left times
      | some bb =>
        simp only [tick, executed, outcome, fresh] at ticked
        simp only [tickSearches, replanInput, executed, outcome, fresh]
        cases replanned : executed.brain.brainReplan goap reader
            (host.eval goap.toGoapTables after) bb with
        | error past =>
          rw [replanned] at ticked
          cases ticked
        | ok replan =>
          obtain ⟨result, shown⟩ := replan
          rw [replanned] at ticked
          cases ticked
          have cleared : brain.counted.SameTimes executed.brain.cleared :=
            ⟨times.tickCount, times.cooldown, times.untils⟩
          have onRan : 0 < executed.brain.cleared.goalCooldownTicks := by
            rw [cleared.cooldown]
            exact on
          have noWrapRan : executed.brain.cleared.tickCount.toNat +
              executed.brain.cleared.goalCooldownTicks.toNat < 2 ^ 32 := by
            rw [cleared.tickCount, cleared.cooldown]
            exact noWrap
          obtain ⟨tickCount, cooldown, throttles⟩ := tryGoals_throttles onRan noWrapRan replanned
          refine ⟨tickCount.trans cleared.tickCount, cooldown.trans cleared.cooldown, ?_⟩
          intro goal
          exact (throttles goal).of_sameTimes cleared

end Tick

end FleeceGoapBrain

/-! ### Runs -/

namespace BrainSystem

variable [Ring Cost] [LinearOrder Cost] {Score : Type} [Zero Score] [One Score] [Add Score]
  [Sub Score] [Mul Score] [Div Score] [BEq Score] [LT Score] [DecidableLT Score] [LE Score]
  [DecidableLE Score] (host : BrainHost Value Cost World) (reader : ScoreReader Score)

/-- How often the rounds of a run look for a plan for the goal in vain. -/
def searchesInVain (goal : Nat) : BrainSystem Cost World → List (List (BrainCall World)) → Nat
  | _, [] => 0
  | system, calls :: rest =>
    let before := system.callAll calls
    (before.brain.tickSearches host before.goap reader before.world).count goal +
      searchesInVain goal (system.round host reader calls) rest

/-- The calls leave the cooldown alone, and the tick after them comes only to goals that the brain
keeps a deadline for. -/
structure Steady (system : BrainSystem Cost World) (calls : List (BrainCall World)) : Prop where
  cooldown : ∀ ticks, .setGoalCooldownTicks ticks ∉ calls
  inside : ∀ goal, ((system.callAll calls).brain.tick host (system.callAll calls).goap reader
    (system.callAll calls).world).result ≠ .error goal

variable {host reader} {system : BrainSystem Cost World} {calls : List (BrainCall World)}

omit [Ring Cost] [LinearOrder Cost] in
theorem callAll_sameTimes (system : BrainSystem Cost World)
    (quiet : ∀ ticks, .setGoalCooldownTicks ticks ∉ calls) :
    system.brain.SameTimes (system.callAll calls).brain := by
  induction calls generalizing system with
  | nil => exact .refl _
  | cons first rest inductionHypothesis =>
    have later := inductionHypothesis (system.call first) fun ticks member =>
      quiet ticks (List.mem_cons_of_mem first member)
    have same : system.brain.SameTimes (system.call first).brain := by
      cases first with
      | setGoalCooldownTicks ticks => exact absurd List.mem_cons_self (quiet ticks)
      | setMaxActionTicks maxTicks => exact ⟨rfl, rfl, rfl⟩
      | _ =>
        unfold call setTables
        simp only
        try split_ifs
        all_goals exact .refl _
    exact ⟨later.tickCount.trans same.tickCount, later.cooldown.trans same.cooldown,
      later.untils.trans same.untils⟩

theorem round_throttles (steady : system.Steady host reader calls)
    (on : 0 < system.brain.goalCooldownTicks)
    (noWrap : system.brain.tickCount.toNat + 1 + system.brain.goalCooldownTicks.toNat < 2 ^ 32) :
    (system.round host reader calls).brain.tickCount.toNat = system.brain.tickCount.toNat + 1 ∧
      (system.round host reader calls).brain.goalCooldownTicks = system.brain.goalCooldownTicks ∧
      ∀ goal, system.brain.counted.Throttles (system.round host reader calls).brain goal
        (((system.callAll calls).brain.tickSearches host (system.callAll calls).goap reader
          (system.callAll calls).world).count goal) := by
  have same := system.callAll_sameTimes steady.cooldown
  have inside := steady.inside
  unfold round BrainSystem.tick
  generalize system.callAll calls = before at same inside ⊢
  have counts : before.brain.counted.tickCount.toNat = system.brain.tickCount.toNat + 1 := by
    rw [← FleeceGoapBrain.counted_tickCount (by omega), FleeceGoapBrain.counted,
      FleeceGoapBrain.counted, same.tickCount]
  have onBefore : 0 < before.brain.goalCooldownTicks := by
    rw [same.cooldown]
    exact on
  have noWrapBefore : before.brain.counted.tickCount.toNat +
      before.brain.goalCooldownTicks.toNat < 2 ^ 32 := by
    rw [counts, same.cooldown]
    exact noWrap
  have times : system.brain.counted.SameTimes before.brain.counted :=
    ⟨congrArg (· + 1) same.tickCount, same.cooldown, same.untils⟩
  simp only
  cases result : (before.brain.tick host before.goap reader before.world).result with
  | error past => exact absurd result (inside past)
  | ok next =>
    obtain ⟨next, code, event⟩ := next
    obtain ⟨tickCount, cooldown, throttles⟩ :=
      FleeceGoapBrain.tick_throttles host before.goap reader onBefore noWrapBefore result
    refine ⟨?_, cooldown.trans same.cooldown, fun goal => (throttles goal).of_sameTimes times⟩
    show next.tickCount.toNat = _
    rw [tickCount, counts]

/-- After some searches in vain the goal waits for a deadline that lies no further than one cooldown
ahead; each search takes one cooldown of the time up to the deadline. -/
structure Spaced (brain : FleeceGoapBrain Cost) (goal searches : Nat) : Prop where
  spaced : searches = 0 ∨ searches * brain.goalCooldownTicks.toNat < brain.deadline goal
  near : brain.deadline goal ≤ brain.tickCount.toNat + brain.goalCooldownTicks.toNat

omit [Ring Cost] [LinearOrder Cost] in
theorem Spaced.step {brain next : FleeceGoapBrain Cost} {goal searches more : Nat}
    (spaced : Spaced brain goal searches) (throttles : brain.counted.Throttles next goal more)
    (tickCount : next.tickCount.toNat = brain.tickCount.toNat + 1)
    (counts : brain.counted.tickCount.toNat = brain.tickCount.toNat + 1)
    (cooldown : next.goalCooldownTicks = brain.goalCooldownTicks) :
    Spaced next goal (searches + more) := by
  obtain ⟨earlier, near⟩ := spaced
  have kept : brain.counted.deadline goal = brain.deadline goal := rfl
  have length : brain.counted.goalCooldownTicks = brain.goalCooldownTicks := rfl
  cases throttles with
  | spared none same =>
    rw [none, Nat.add_zero]
    refine ⟨?_, ?_⟩
    · rw [same, kept, cooldown]
      exact earlier
    · rw [same, kept, cooldown, tickCount]
      omega
  | failed once due put =>
    rw [kept, counts] at due
    rw [counts, length] at put
    rw [once]
    refine ⟨Or.inr ?_, ?_⟩
    · rw [put, cooldown, Nat.add_mul, Nat.one_mul]
      rcases earlier with rfl | earlier
      · omega
      · omega
    · rw [put, cooldown, tickCount]

/-- A run of steady rounds counts them, and spaces the searches for a goal. -/
theorem spaced_run {rounds : List (List (BrainCall World))} {goal searches : Nat}
    (steady : Along (round host reader) (Steady host reader) system rounds)
    (on : 0 < system.brain.goalCooldownTicks)
    (noWrap : system.brain.tickCount.toNat + rounds.length +
      system.brain.goalCooldownTicks.toNat < 2 ^ 32)
    (spaced : Spaced system.brain goal searches) :
    let last := runFrom (round host reader) system rounds
    last.brain.tickCount.toNat = system.brain.tickCount.toNat + rounds.length ∧
      last.brain.goalCooldownTicks = system.brain.goalCooldownTicks ∧
      Spaced last.brain goal (searches + system.searchesInVain host reader goal rounds) := by
  induction rounds generalizing system searches with
  | nil => exact ⟨rfl, rfl, spaced⟩
  | cons calls rest inductionHypothesis =>
    obtain ⟨first, later⟩ := steady
    rw [List.length_cons] at noWrap
    have counts : system.brain.counted.tickCount.toNat = system.brain.tickCount.toNat + 1 :=
      FleeceGoapBrain.counted_tickCount (by omega)
    obtain ⟨tickCount, cooldown, throttles⟩ := round_throttles first on (by omega)
    have stepped := spaced.step (throttles goal) tickCount counts cooldown
    have onNext : 0 < (system.round host reader calls).brain.goalCooldownTicks := by
      rw [cooldown]
      exact on
    have noWrapNext : (system.round host reader calls).brain.tickCount.toNat + rest.length +
        (system.round host reader calls).brain.goalCooldownTicks.toNat < 2 ^ 32 := by
      rw [tickCount, cooldown]
      omega
    obtain ⟨count, length, run⟩ := inductionHypothesis later onNext noWrapNext stepped
    rw [runFrom_cons, searchesInVain, ← Nat.add_assoc, List.length_cons]
    refine ⟨?_, length.trans cooldown, run⟩
    rw [count, tickCount]
    omega

omit [Ring Cost] [LinearOrder Cost] in
/-- A brain that was created just now has put no goal off. -/
theorem spaced_start (goap : GoapObject) (world : World) (ticks : UInt32) (goal : Nat) :
    Spaced ((start goap world : BrainSystem Cost World).call (.setGoalCooldownTicks ticks)).brain
      goal 0 := by
  have none : ((start goap world : BrainSystem Cost World).call
      (.setGoalCooldownTicks ticks)).brain.deadline goal = 0 := by
    show (((List.replicate goap.goals.length (0 : UInt32))[goal]?).map UInt32.toNat).getD 0 = 0
    rw [List.getElem?_replicate]
    split_ifs <;> rfl
  refine ⟨.inl rfl, ?_⟩
  rw [none]
  exact Nat.zero_le _

/-- For every host, goap, world, cooldown of at least one tick that is set on a brain when it is
created, run of rounds of calls and a tick each in which the calls leave the cooldown alone and the
ticks come only to goals that the brain keeps a deadline for, and goal: the searches for a plan for
the goal that find none are spaced by the cooldown, so that there are at most as many as there are
stretches of that length in the run, the last one begun included; and the goal is never put off
beyond the next stretch. -/
theorem failed_searches_are_spaced (host : BrainHost Value Cost World) (reader : ScoreReader Score)
    (goap : GoapObject) (world : World) {ticks : UInt32} (on : 0 < ticks)
    {rounds : List (List (BrainCall World))}
    (noWrap : rounds.length + ticks.toNat < 2 ^ 32)
    (steady : Along (round host reader) (Steady host reader)
      ((start goap world).call (.setGoalCooldownTicks ticks)) rounds) (goal : Nat) :
    let system : BrainSystem Cost World :=
      (start goap world).call (.setGoalCooldownTicks ticks)
    system.searchesInVain host reader goal rounds * ticks.toNat < rounds.length + ticks.toNat ∧
      (runFrom (round host reader) system rounds).brain.deadline goal ≤
        rounds.length + ticks.toNat := by
  intro system
  have started : system.brain.tickCount.toNat = 0 := rfl
  have set : system.brain.goalCooldownTicks = ticks := rfl
  have onSystem : 0 < system.brain.goalCooldownTicks := on
  have noWrapSystem : system.brain.tickCount.toNat + rounds.length +
      system.brain.goalCooldownTicks.toNat < 2 ^ 32 := by
    rw [started, set, Nat.zero_add]
    exact noWrap
  obtain ⟨count, length, ⟨spaced, near⟩⟩ :=
    spaced_run steady onSystem noWrapSystem (spaced_start goap world ticks goal)
  rw [count, started, length, set, Nat.zero_add] at near
  rw [Nat.zero_add, length, set] at spaced
  refine ⟨?_, near⟩
  have positive : 0 < ticks.toNat := UInt32.lt_iff_toNat_lt.mp on
  rcases spaced with none | within
  · rw [none, Nat.zero_mul]
    omega
  · exact within.trans_le near

/-- A goal that no action reaches, on a brain with a cooldown of three ticks: seven ticks look for a
plan for it three times, once for each stretch of three ticks that they begin. -/
theorem failed_searches_are_spaced_unreachable :
    let goal : FleeceGoapGoalDef :=
      ⟨some ⟨[0x67], by decide⟩, none, none, ⟨0x3FF0000000000000⟩, none⟩
    ∃ tables, GoapTables.empty.registerAll [.addGoal goal] = some tables ∧
      let system : BrainSystem Int (FleeceStateManager × Unit) :=
        (start ⟨tables, 2048, 512, 8⟩ (.blank 1, ())).call (.setGoalCooldownTicks 3)
      let rounds := List.replicate 7 []
      system.searchesInVain sampleHost wholeReader 0 rounds = 3 ∧
        system.searchesInVain sampleHost wholeReader 0 rounds * 3 < 7 + 3 ∧
        (runFrom (round sampleHost wholeReader) system rounds).brain.deadline 0 ≤ 7 + 3 := by
  intro goal
  let tables := (GoapTables.empty.registerAll [.addGoal goal]).getD .empty
  refine ⟨tables, rfl, ?_⟩
  intro system rounds
  have three : system.searchesInVain sampleHost wholeReader 0 rounds = 3 := by decide +kernel
  have quiet : Along (round sampleHost wholeReader) (fun state calls => calls.isEmpty = true ∧
      (state.brain.tick sampleHost state.goap wholeReader state.world).result.toOption.isSome)
      system rounds := by
    decide +kernel
  have steady : Along (round sampleHost wholeReader) (Steady sampleHost wholeReader) system
      rounds := by
    refine quiet.mono fun state calls ⟨empty, ticked⟩ => ?_
    cases List.isEmpty_iff.mp empty
    refine ⟨fun _ => List.not_mem_nil, fun past failed => ?_⟩
    rw [show state.callAll [] = state from rfl] at failed
    rw [failed] at ticked
    cases ticked
  exact ⟨three, failed_searches_are_spaced sampleHost wholeReader ⟨tables, 2048, 512, 8⟩
    (.blank 1, ()) (by decide) (by decide) steady 0⟩

end BrainSystem

end Fleece
