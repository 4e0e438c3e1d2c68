import Snowside.Interaction.Program

/-! One process that repeats a program against a world it shares with others.

The world answers the call the process waits on, changes by itself between two
answers, and may lose the process: a restart drops the rest of the program.
-/

set_option autoImplicit false

namespace Interaction

/-- The world of a process: how it answers a call under a given fate of that
call, and what else can happen in it. `none` is an answer or an event that the
world does not admit. -/
structure System {Call : Type} (World Fate Event : Type) (Reply : Call → Type) where
  perform : (request : Call) → Fate → World → Option (Reply request × World)
  happen : Event → World → Option World
  /-- What the process runs, again and again. -/
  turn : Program Reply Unit

structure State {Call : Type} (World : Type) (Reply : Call → Type) where
  world : World
  running : Program Reply Unit

inductive Action (Fate Event : Type) where
  | answer : Fate → Action Fate Event
  | event : Event → Action Fate Event
  | again
  | restart

variable {Call World Fate Event : Type} {Reply : Call → Type}

namespace State

/-- The call the process waits on. -/
def waiting (state : State World Reply) : Option Call := state.running.head

end State

namespace System

variable (system : System World Fate Event Reply)

def start (world : World) : State World Reply := ⟨world, system.turn⟩

def step (state : State World Reply) : Action Fate Event → Option (State World Reply)
  | .answer fate =>
      match state.running with
      | .done _ => none
      | .ask request next =>
          (system.perform request fate state.world).map fun answer => ⟨answer.2, next answer.1⟩
  | .event event => (system.happen event state.world).map fun world => ⟨world, state.running⟩
  | .again =>
      match state.running with
      | .done _ => some (system.start state.world)
      | .ask _ _ => none
  | .restart => some (system.start state.world)

/-- A run by the list of its actions, as long as each passes the check. -/
def runWhile (check : State World Reply → Action Fate Event → Bool) (state : State World Reply) :
    List (Action Fate Event) → Option (State World Reply)
  | [] => some state
  | action :: rest =>
      if check state action then (system.step state action).bind fun next => runWhile check next rest else none

def run (state : State World Reply) (actions : List (Action Fate Event)) : Option (State World Reply) :=
  system.runWhile (fun _ _ => true) state actions

/-- Answers alone take the program in the world to the call. -/
def Issues (program : Program Reply Unit) (world : World) (request : Call) : Prop :=
  ∃ fates : List Fate, ∃ state, system.run ⟨world, program⟩ (fates.map .answer) = some state ∧
    state.waiting = some request

@[simp] theorem not_issues_done (world : World) (request : Call) : ¬ system.Issues (.done ()) world request := by
  rintro ⟨fates, state, ran, waits⟩
  cases fates with
  | nil => cases ran; cases waits
  | cons fate rest => cases ran

theorem issues_ask {call request : Call} {next : Reply call → Program Reply Unit} {world : World} :
    system.Issues (.ask call next) world request ↔ call = request ∨ ∃ fate reply after,
      system.perform call fate world = some (reply, after) ∧ system.Issues (next reply) after request := by
  constructor
  · rintro ⟨fates, state, ran, waits⟩
    cases fates with
    | nil =>
      cases ran
      exact .inl (Option.some.inj waits)
    | cons fate rest =>
      obtain ⟨middle, stepped, ran⟩ := Option.bind_eq_some_iff.mp ran
      obtain ⟨⟨reply, after⟩, performed, rfl⟩ := Option.map_eq_some_iff.mp stepped
      exact .inr ⟨fate, reply, after, performed, rest, state, ran, waits⟩
  · rintro (rfl | ⟨fate, reply, after, performed, fates, state, ran, waits⟩)
    · exact ⟨[], _, rfl, rfl⟩
    · refine ⟨fate :: fates, state, ?_, waits⟩
      simp only [run, runWhile, step, List.map_cons, performed, Option.map_some, Option.bind_some, if_true]
      exact ran

end System

/-- A condition on the steps of a run, read off the world before the step. -/
structure Condition (Call World Fate Event : Type) where
  answer : World → Call → Fate → Prop
  event : World → Event → Prop
  restart : World → Option Call → Prop

namespace Condition

def free : Condition Call World Fate Event :=
  ⟨fun _ _ _ => True, fun _ _ => True, fun _ _ => True⟩

/-- The condition met by the given step. -/
def Meets (condition : Condition Call World Fate Event) (state : State World Reply) :
    Action Fate Event → Prop
  | .answer fate => ∀ request, state.waiting = some request → condition.answer state.world request fate
  | .event event => condition.event state.world event
  | .again => True
  | .restart => condition.restart state.world state.waiting

theorem free_meets (state : State World Reply) (action : Action Fate Event) :
    (free : Condition Call World Fate Event).Meets state action := by
  cases action <;> simp [Meets, free]

/-- Every step that meets the first condition meets the second. -/
structure Implies (first second : Condition Call World Fate Event) : Prop where
  answer : ∀ world request fate, first.answer world request fate → second.answer world request fate
  event : ∀ world event, first.event world event → second.event world event
  restart : ∀ world waiting, first.restart world waiting → second.restart world waiting

theorem Implies.refl (condition : Condition Call World Fate Event) : condition.Implies condition :=
  ⟨fun _ _ _ met => met, fun _ _ met => met, fun _ _ met => met⟩

theorem Implies.meets {first second : Condition Call World Fate Event} (implies : first.Implies second)
    {state : State World Reply} {action : Action Fate Event} (met : first.Meets state action) :
    second.Meets state action := by
  cases action with
  | answer fate => exact fun request waits => implies.answer _ _ _ (met request waits)
  | event event => exact implies.event _ _ met
  | again => trivial
  | restart => exact implies.restart _ _ met

end Condition

/-- The states of the runs whose steps all meet the condition. -/
inductive Reach (system : System World Fate Event Reply) (condition : Condition Call World Fate Event)
    (initial : State World Reply) : State World Reply → Prop where
  | start : Reach system condition initial initial
  | step {state next : State World Reply} {action : Action Fate Event} :
      Reach system condition initial state → condition.Meets state action →
      system.step state action = some next → Reach system condition initial next

variable {system : System World Fate Event Reply} {initial state next : State World Reply}

theorem Reach.mono {first second : Condition Call World Fate Event} (implies : first.Implies second)
    (reach : Reach system first initial state) : Reach system second initial state := by
  induction reach with
  | start => exact .start
  | step _ met stepped ih => exact ih.step (implies.meets met) stepped

theorem Reach.of_runWhile {condition : Condition Call World Fate Event}
    {check : State World Reply → Action Fate Event → Bool} {actions : List (Action Fate Event)}
    (sound : ∀ state action, check state action → condition.Meets state action)
    (ran : system.runWhile check initial actions = some state) : Reach system condition initial state := by
  -- The induction is on the actions, from any state in the middle.
  suffices extend : ∀ actions middle, Reach system condition initial middle →
      system.runWhile check middle actions = some state → Reach system condition initial state from
    extend actions initial .start ran
  intro actions
  induction actions with
  | nil =>
    intro middle reach ran
    cases ran
    exact reach
  | cons action rest ih =>
    intro middle reach ran
    rw [System.runWhile] at ran
    split at ran
    · next checked =>
      obtain ⟨after, stepped, ran⟩ := Option.bind_eq_some_iff.mp ran
      exact ih after (reach.step (sound middle action checked) stepped) ran
    · cases ran

theorem Reach.of_run {actions : List (Action Fate Event)} (ran : system.run initial actions = some state) :
    Reach system .free initial state :=
  .of_runWhile (fun state action _ => Condition.free_meets state action) ran

/-- A step either answers the waiting call, or is an event, or starts a turn. -/
theorem System.step_cases {action : Action Fate Event} (stepped : system.step state action = some next) :
    (∃ fate request rest reply, action = .answer fate ∧ state.running = .ask request rest ∧
      system.perform request fate state.world = some (reply, next.world) ∧ next.running = rest reply) ∨
    (∃ event, action = .event event ∧ system.happen event state.world = some next.world ∧
      next.running = state.running) ∨
    (next.world = state.world ∧ next.running = system.turn ∧
      ((action = .again ∧ state.waiting = none) ∨ action = .restart)) := by
  obtain ⟨world, running⟩ := state
  cases action with
  | answer fate =>
    cases running with
    | done value => cases stepped
    | ask request rest =>
      simp only [System.step, Option.map_eq_some_iff] at stepped
      obtain ⟨⟨reply, after⟩, performed, rfl⟩ := stepped
      exact .inl ⟨fate, request, rest, reply, rfl, rfl, performed, rfl⟩
  | event event =>
    simp only [System.step, Option.map_eq_some_iff] at stepped
    obtain ⟨after, happened, rfl⟩ := stepped
    exact .inr (.inl ⟨event, rfl, happened, rfl⟩)
  | again =>
    cases running with
    | done value =>
      cases stepped
      exact .inr (.inr ⟨rfl, rfl, .inl ⟨rfl, rfl⟩⟩)
    | ask request rest => cases stepped
  | restart =>
    cases stepped
    exact .inr (.inr ⟨rfl, rfl, .inr rfl⟩)

end Interaction
