import Mathlib.Tactic.Common

/-! Runs of a system under a condition on each of its steps. -/

set_option autoImplicit false

namespace Runs

variable {State Action : Type}

/-- A system by its steps: what each action may do in a state. -/
structure System (State Action : Type) where
  initial : State → Prop
  step : State → Action → State → Prop

/-- The states of the runs all of whose steps meet the condition. -/
inductive Reach (system : System State Action) (condition : State → Action → Prop) : State → Prop where
  | start {state : State} : system.initial state → Reach system condition state
  | next {state after : State} {action : Action} : Reach system condition state → condition state action →
      system.step state action after → Reach system condition after

variable {system : System State Action} {condition : State → Action → Prop}

/-- What holds at the start and is kept by every step holds in every run. -/
theorem Reach.invariant (holds : State → Prop) (starts : ∀ state, system.initial state → holds state)
    (keeps : ∀ state action after, holds state → condition state action → system.step state action after → holds after)
    {state : State} (reach : Reach system condition state) : holds state := by
  induction reach with
  | start initial => exact starts _ initial
  | next _ met stepped ih => exact keeps _ _ _ ih met stepped

/-- A run under a condition is one under a weaker condition. -/
theorem Reach.mono {weaker : State → Action → Prop} (weaken : ∀ state action, condition state action → weaker state action)
    {state : State} (reach : Reach system condition state) : Reach system weaker state := by
  induction reach with
  | start initial => exact .start initial
  | next _ met stepped ih => exact .next ih (weaken _ _ met) stepped

/-! ## Runs that are computed -/

/-- The state after a list of actions, each of them allowed where it is taken. -/
def run (step : State → Action → Option State) (allowed : State → Action → Bool) : List Action → State → Option State
  | [], state => some state
  | action :: rest, state => if allowed state action then (step state action).bind (run step allowed rest) else none

/-- A computed run is a run. -/
theorem Reach.ofRun {step : State → Action → Option State} {allowed : State → Action → Bool} {actions : List Action}
    {state after : State} (steps : ∀ state action after, step state action = some after → system.step state action after)
    (met : ∀ state action, allowed state action = true → condition state action) (reach : Reach system condition state)
    (ran : run step allowed actions state = some after) : Reach system condition after := by
  induction actions generalizing state with
  | nil =>
    cases ran
    exact reach
  | cons action rest ih =>
    unfold run at ran
    split at ran
    · rename_i fits
      obtain ⟨between, stepped, onwards⟩ := Option.bind_eq_some_iff.mp ran
      exact ih (.next reach (met state action fits) (steps _ _ _ stepped)) onwards
    · cases ran

/-! ## Lists of changes -/

variable {Change : Type}

/-- The condition holds before each of the changes and after the last. -/
def Along (apply : State → Change → State) (holds : State → Prop) : List Change → State → Prop
  | [], state => holds state
  | change :: rest, state => holds state ∧ Along apply holds rest (apply state change)

namespace Along

variable {apply : State → Change → State} {holds : State → Prop} {state : State}

theorem here {changes : List Change} (along : Along apply holds changes state) : holds state := by
  cases changes with
  | nil => exact along
  | cons change rest => exact along.1

theorem append {first second : List Change} (along : Along apply holds first state)
    (further : Along apply holds second (first.foldl apply state)) : Along apply holds (first ++ second) state := by
  induction first generalizing state with
  | nil => exact further
  | cons change rest ih => exact ⟨along.1, ih along.2 further⟩

theorem last {changes : List Change} (along : Along apply holds changes state) : holds (changes.foldl apply state) := by
  induction changes generalizing state with
  | nil => exact along
  | cons change rest ih => exact ih along.2

theorem mono {weaker : State → Prop} {changes : List Change} (along : Along apply holds changes state)
    (weaken : ∀ state, holds state → weaker state) : Along apply weaker changes state := by
  induction changes generalizing state with
  | nil => exact weaken state along
  | cons change rest ih => exact ⟨weaken state along.1, ih along.2⟩

end Along

end Runs
