import Snowside.Interaction.Machine

/-! Proof outlines: an assertion at every call, kept by whatever else happens.

`Outline` reads a program as its own proof tree. At each call some assertion
must hold, survive the events of the world, and imply the invariant; each
admitted answer must lead to an outline of the rest.
-/

set_option autoImplicit false

namespace Interaction

variable {Call World Fate Event : Type} {Reply : Call → Type} {α β : Type}

section
variable (system : System World Fate Event Reply) (condition : Condition Call World Fate Event)

/-- An assertion that no admitted event falsifies. -/
def Stable (assertion : World → Prop) : Prop :=
  ∀ world event after, assertion world → condition.event world event →
    system.happen event world = some after → assertion after

def Outline (invariant : World → Option Call → Prop) :
    Program Reply α → (α → World → Prop) → World → Prop
  | .done value, post, world => post value world
  | .ask request next, post, world =>
      ∃ assertion : World → Prop, assertion world ∧ Stable system condition assertion ∧
        (∀ world, assertion world → invariant world (some request)) ∧
        ∀ world fate reply after, assertion world → condition.answer world request fate →
          system.perform request fate world = some (reply, after) →
          Outline invariant (next reply) post after

end

variable {system : System World Fate Event Reply} {condition : Condition Call World Fate Event}
  {invariant : World → Option Call → Prop}

theorem Outline.mono {program : Program Reply α} {first second : α → World → Prop} {world : World}
    (weaken : ∀ value world, first value world → second value world)
    (outline : Outline system condition invariant program first world) :
    Outline system condition invariant program second world := by
  induction program generalizing world with
  | done value => exact weaken _ _ outline
  | ask request next ih =>
    obtain ⟨assertion, holds, stable, implies, answers⟩ := outline
    exact ⟨assertion, holds, stable, implies, fun world fate reply after holds allowed performed =>
      ih reply (answers world fate reply after holds allowed performed)⟩

theorem Outline.bind {program : Program Reply α} {rest : α → Program Reply β}
    {post : β → World → Prop} {world : World}
    (outline : Outline system condition invariant program
      (fun value => Outline system condition invariant (rest value) post) world) :
    Outline system condition invariant (program >>= rest) post world := by
  induction program generalizing world with
  | done value => exact outline
  | ask request next ih =>
    obtain ⟨assertion, holds, stable, implies, answers⟩ := outline
    exact ⟨assertion, holds, stable, implies, fun world fate reply after holds allowed performed =>
      ih reply (answers world fate reply after holds allowed performed)⟩

/-- A loop over a list keeps an assertion about the items still to come. -/
theorem Outline.forEach {Item : Type} {body : Item → Program Reply Unit}
    (loop : List Item → World → Prop)
    (each : ∀ item rest world, loop (item :: rest) world →
      Outline system condition invariant (body item) (fun _ => loop rest) world)
    (items : List Item) {world : World} (enter : loop items world) :
    Outline system condition invariant (Program.forEach body items) (fun _ => loop []) world := by
  induction items generalizing world with
  | nil => exact enter
  | cons item rest ih =>
    exact Outline.bind ((each item rest world enter).mono fun _ _ left => ih left)

/-- An outline of every turn from an idle assertion makes the invariant hold
throughout the runs that meet the condition. -/
theorem Outline.reach {idle : World → Prop} (stable : Stable system condition idle)
    (quiet : ∀ world, idle world → invariant world none)
    (turn : ∀ world, idle world →
      Outline system condition invariant system.turn (fun _ => idle) world)
    (restart : ∀ world waiting, invariant world waiting → condition.restart world waiting → idle world)
    {world : World} (initial : idle world) {state : State World Reply}
    (reach : Reach system condition (system.start world) state) :
    invariant state.world state.waiting ∧
      Outline system condition invariant state.running (fun _ => idle) state.world := by
  -- An outline gives the invariant at the call that the program waits for.
  have holds : ∀ {program : Program Reply Unit} {world : World},
      Outline system condition invariant program (fun _ => idle) world → invariant world program.head := by
    intro program world outline
    cases program with
    | done value => exact quiet world outline
    | ask request next =>
      obtain ⟨assertion, holds, -, implies, -⟩ := outline
      exact implies world holds
  induction reach with
  | start => exact ⟨holds (turn world initial), turn world initial⟩
  | @step before next action _ met stepped ih =>
    obtain ⟨kept, outline⟩ := ih
    obtain ⟨fate, request, rest, reply, rfl, running, performed, same⟩ |
      ⟨event, rfl, happened, same⟩ | ⟨sameWorld, same, started⟩ := System.step_cases stepped
    · rw [running] at outline
      obtain ⟨assertion, held, -, -, answers⟩ := outline
      have allowed := met request (by rw [State.waiting, running]; rfl)
      have after := answers _ _ _ _ held allowed performed
      rw [← same] at after
      exact ⟨holds after, after⟩
    · -- Events may come while a call waits: its assertion is stable under them.
      have after : Outline system condition invariant next.running (fun _ => idle) next.world := by
        rw [same]
        cases shape : before.running with
        | done value =>
          rw [shape] at outline
          exact stable _ _ _ outline met happened
        | ask request rest =>
          rw [shape] at outline
          obtain ⟨assertion, held, steady, implies, answers⟩ := outline
          exact ⟨assertion, steady _ _ _ held met happened, steady, implies, answers⟩
      exact ⟨holds after, after⟩
    · -- A turn starts after the last one, or after a restart in the middle of it.
      have resting : idle next.world := by
        rw [sameWorld]
        obtain ⟨rfl, finished⟩ | rfl := started
        · cases shape : before.running with
          | done value => rw [shape] at outline; exact outline
          | ask request rest => rw [State.waiting, shape] at finished; cases finished
        · exact restart _ _ kept met
      have after := turn _ resting
      rw [← same] at after
      exact ⟨holds after, after⟩

end Interaction
