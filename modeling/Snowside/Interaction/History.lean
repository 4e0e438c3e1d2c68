import Mathlib.Data.List.Basic
import Snowside.Interaction.Machine

/-! What a run shows of one item, step after step. -/

set_option autoImplicit false

namespace Interaction

variable {Call World Fate Event Value : Type} {Reply : Call → Type}

/-- The worlds that a run passes, the last one first. -/
inductive Passes (system : System World Fate Event Reply) (condition : Condition Call World Fate Event)
    (initial : State World Reply) : List World → State World Reply → Prop where
  | start : Passes system condition initial [initial.world] initial
  | step {worlds : List World} {state next : State World Reply} {action : Action Fate Event} :
      Passes system condition initial worlds state → condition.Meets state action →
      system.step state action = some next → Passes system condition initial (next.world :: worlds) next

variable {system : System World Fate Event Reply} {condition : Condition Call World Fate Event}
  {initial state : State World Reply} {worlds : List World}

theorem Passes.reach (passes : Passes system condition initial worlds state) : Reach system condition initial state := by
  induction passes with
  | start => exact .start
  | step _ met stepped ih => exact ih.step met stepped

theorem Reach.passes (reach : Reach system condition initial state) :
    ∃ worlds, Passes system condition initial worlds state := by
  induction reach with
  | start => exact ⟨_, .start⟩
  | step _ met stepped ih =>
    obtain ⟨worlds, passes⟩ := ih
    exact ⟨_, passes.step met stepped⟩

/-- What holds between each world and the next holds between any and a later one. -/
theorem Passes.later {related : World → World → Prop} (refl : ∀ world, related world world)
    (trans : ∀ first second third, related first second → related second third → related first third)
    (steps : ∀ state next action, Reach system condition initial state → system.step state action = some next →
      related state.world next.world)
    (passes : Passes system condition initial worlds state) : ∀ world ∈ worlds, related world state.world := by
  induction passes with
  | start =>
    intro world member
    rw [List.mem_singleton.mp member]
    exact refl _
  | step passes met stepped ih =>
    intro world member
    rcases List.mem_cons.mp member with rfl | earlier
    · exact refl _
    · exact trans _ _ _ (ih world earlier) (steps _ _ _ passes.reach stepped)

/-! ## Records -/

variable {path : Value → List Value}

/-- The values on the way to a value, or none. -/
def wayTo (path : Value → List Value) (current : Option Value) : List Value := current.elim [] path

/-- The observed value stays, or goes one on its path. -/
def Follows (path : Value → List Value) (before after : Option Value) : Prop :=
  after = before ∨ ∃ value, after = some value ∧ path value = wayTo path before ++ [value]

theorem wayTo_getLast? (ends : ∀ value, (path value).getLast? = some value) (current : Option Value) :
    (wayTo path current).getLast? = current := by
  cases current with
  | none => rfl
  | some value => exact ends value

variable [DecidableEq Value]

/-- The values that are observed in the worlds, the last one first, without repetitions. -/
def recorded (observe : World → Option Value) : List World → List Value
  | [] => []
  | world :: earlier =>
      match observe world with
      | none => recorded observe earlier
      | some value =>
          if (recorded observe earlier).getLast? = some value then recorded observe earlier
          else recorded observe earlier ++ [value]

variable {observe : World → Option Value}

theorem recorded_none {world : World} (unseen : observe world = none) :
    recorded observe (world :: worlds) = recorded observe worlds := by
  rw [recorded, unseen]

theorem recorded_some {world : World} {value : Value} (seen : observe world = some value) :
    recorded observe (world :: worlds) = if (recorded observe worlds).getLast? = some value then recorded observe worlds
      else recorded observe worlds ++ [value] := by
  rw [recorded, seen]

/-- A value that only goes on along its path has been observed along its path. -/
theorem Passes.recorded_eq (ends : ∀ value, (path value).getLast? = some value) (unseen : observe initial.world = none)
    (steps : ∀ state next action, Reach system condition initial state → system.step state action = some next →
      Follows path (observe state.world) (observe next.world))
    (passes : Passes system condition initial worlds state) :
    recorded observe worlds = wayTo path (observe state.world) := by
  induction passes with
  | start => rw [recorded_none unseen, unseen]; rfl
  | step passes met stepped ih =>
    rename_i worlds state next action
    rcases steps state next action passes.reach stepped with same | ⟨value, seen, goesOn⟩
    · -- Nothing new is recorded while the value stays.
      rw [same, ← ih]
      cases current : observe state.world with
      | none => exact recorded_none (same.trans current)
      | some value =>
        rw [recorded_some (same.trans current), ih, wayTo_getLast? ends, if_pos current]
    · -- A value that goes on is longer on its way, so it is new.
      have new : (wayTo path (observe state.world)).getLast? ≠ some value := by
        rw [wayTo_getLast? ends]
        intro same
        rw [same] at goesOn
        simpa [wayTo] using congrArg List.length goesOn
      rw [recorded_some seen, ih, if_neg new, seen]
      exact goesOn.symm

end Interaction
