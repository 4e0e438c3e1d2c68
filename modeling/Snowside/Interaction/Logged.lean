import Mathlib.Data.List.Infix
import Snowside.Interaction.Machine

/-! Runs with a record of the answered calls.

The record changes nothing in a run, so a condition may speak of what the process
was told before, and a program may be read by what it asks after which answers.
-/

set_option autoImplicit false

namespace Interaction

variable {Call World Fate Event : Type} {Reply : Call → Type} {α β : Type}

/-- A call with the world that answered it. -/
structure Exchange {Call : Type} (World Fate : Type) (Reply : Call → Type) where
  world : World
  call : Call
  fate : Fate
  reply : Reply call

/-- The answered calls, the last one first. -/
abbrev Log {Call : Type} (World Fate : Type) (Reply : Call → Type) := List (Exchange World Fate Reply)

/-- The system that keeps the log beside its world. -/
def System.logged (system : System World Fate Event Reply) : System (World × Log World Fate Reply) Fate Event Reply where
  perform call fate held := (system.perform call fate held.1).map fun answer =>
    (answer.1, answer.2, ⟨held.1, call, fate, answer.1⟩ :: held.2)
  happen event held := (system.happen event held.1).map fun world => (world, held.2)
  turn := system.turn

def State.unlogged (state : State (World × Log World Fate Reply) Reply) : State World Reply :=
  ⟨state.world.1, state.running⟩

variable {system : System World Fate Event Reply} {condition : Condition Call (World × Log World Fate Reply) Fate Event}
  {initial state next : State (World × Log World Fate Reply) Reply} {action : Action Fate Event}

variable (system) in
/-- The log keeps the steps of the system, and enables as many. -/
theorem System.logged_step (state : State (World × Log World Fate Reply) Reply) (action : Action Fate Event) :
    (system.logged.step state action).map State.unlogged = system.step state.unlogged action := by
  obtain ⟨⟨world, log⟩, running⟩ := state
  cases action with
  | answer fate =>
    cases running with
    | done value => rfl
    | ask request rest =>
      simp only [System.step, System.logged, State.unlogged, Option.map_map]
      rfl
  | event event =>
    simp only [System.step, System.logged, State.unlogged, Option.map_map]
    rfl
  | again => cases running <;> rfl
  | restart => rfl

/-- A step adds the answered call to the log, or leaves the log and the program, or
starts a turn. -/
theorem System.logged_cases (stepped : system.logged.step state action = some next) :
    (∃ fate request rest reply after, action = .answer fate ∧ state.running = .ask request rest ∧
      system.perform request fate state.world.1 = some (reply, after) ∧
      next = ⟨(after, ⟨state.world.1, request, fate, reply⟩ :: state.world.2), rest reply⟩) ∨
    (next.world.2 = state.world.2 ∧ (next.running = state.running ∨ next.running = system.turn)) := by
  obtain ⟨held, program⟩ := next
  obtain ⟨fate, request, rest, reply, rfl, running, performed, continued⟩ | ⟨event, -, happened, continued⟩ |
    ⟨same, started, -⟩ := System.step_cases stepped
  · obtain ⟨⟨answer, after⟩, carried, same⟩ := Option.map_eq_some_iff.mp performed
    obtain ⟨rfl, rfl⟩ := Prod.mk.inj same
    obtain rfl := continued
    exact .inl ⟨fate, request, rest, answer, after, rfl, running, carried, rfl⟩
  · obtain ⟨world, -, rfl⟩ := Option.map_eq_some_iff.mp happened
    exact .inr ⟨rfl, .inl continued⟩
  · exact .inr ⟨congrArg Prod.snd same, .inr started⟩

theorem Reach.unlogged (reach : Reach system.logged condition initial state) :
    Reach system .free initial.unlogged state.unlogged := by
  induction reach with
  | start => exact .start
  | step _ _ stepped ih =>
    have kept := (system.logged_step _ _).symm.trans (congrArg (Option.map State.unlogged) stepped)
    exact ih.step (Condition.free_meets _ _) kept

/-- Every run has its log. -/
theorem Reach.logged {start reached : State World Reply} (reach : Reach system .free start reached) :
    ∃ log, Reach system.logged .free ⟨(start.world, []), start.running⟩ ⟨(reached.world, log), reached.running⟩ := by
  induction reach with
  | start => exact ⟨[], .start⟩
  | step _ _ stepped ih =>
    obtain ⟨log, reach⟩ := ih
    rename_i before after action _ _
    have same := (system.logged_step ⟨(before.world, log), before.running⟩ action).trans stepped
    obtain ⟨⟨⟨world, longer⟩, running⟩, carried, rfl⟩ := Option.map_eq_some_iff.mp same
    exact ⟨longer, reach.step (Condition.free_meets _ action) carried⟩

/-- Where a logged call was answered. -/
structure Reach.Answered (system : System World Fate Event Reply)
    (condition : Condition Call (World × Log World Fate Reply) Fate Event)
    (initial : State (World × Log World Fate Reply) Reply) (exchange : Exchange World Fate Reply)
    (earlier : Log World Fate Reply) : Prop where
  reach : ∃ state, Reach system.logged condition initial state ∧ state.world = (exchange.world, earlier) ∧
    state.waiting = some exchange.call ∧ condition.answer (exchange.world, earlier) exchange.call exchange.fate
  performed : ∃ after, system.perform exchange.call exchange.fate exchange.world = some (exchange.reply, after)

theorem Reach.answered (reach : Reach system.logged condition initial state) (new : initial.world.2 = [])
    {exchange : Exchange World Fate Reply} {earlier : Log World Fate Reply} (part : exchange :: earlier <:+ state.world.2) :
    Reach.Answered system condition initial exchange earlier := by
  induction reach with
  | start =>
    rw [new] at part
    exact absurd (List.suffix_nil.mp part) (List.cons_ne_nil _ _)
  | @step before _ _ reach met stepped ih =>
    obtain ⟨fate, request, rest, reply, after, rfl, running, performed, rfl⟩ | ⟨same, -⟩ := System.logged_cases stepped
    · -- The logged call is the last one, or was logged before.
      rcases List.suffix_cons_iff.mp part with last | before
      · obtain ⟨rfl, rfl⟩ := List.cons.inj last
        have waits : before.waiting = some request := by rw [State.waiting, running]; rfl
        exact ⟨⟨before, reach, rfl, waits, met request waits⟩, after, performed⟩
      · exact ih before
    · rw [same] at part
      exact ih part

/-- What holds between each world and the next holds between a logged one and the present. -/
theorem Reach.since {related : World → World → Prop}
    (trans : ∀ first second third, related first second → related second third → related first third)
    (steps : ∀ state next action, Reach system.logged condition initial state →
      system.logged.step state action = some next → related state.world.1 next.world.1)
    (reach : Reach system.logged condition initial state) (new : initial.world.2 = []) :
    ∀ exchange ∈ state.world.2, related exchange.world state.world.1 := by
  induction reach with
  | start =>
    intro exchange member
    rw [new] at member
    cases member
  | step reach _ stepped ih =>
    intro exchange member
    have onward := steps _ _ _ reach stepped
    obtain ⟨fate, request, rest, reply, after, rfl, running, performed, rfl⟩ | ⟨same, -⟩ := System.logged_cases stepped
    · rcases List.mem_cons.mp member with rfl | before
      · exact onward
      · exact trans _ _ _ (ih exchange before) onward
    · rw [same] at member
      exact trans _ _ _ (ih exchange member) onward

/-- What no event brings into the world was brought there by a logged call. -/
theorem Reach.origin {Item : Type} (present : World → Item → Prop) (source : Exchange World Fate Reply → Item → Prop)
    (nothing : ∀ item, ¬ present initial.world.1 item)
    (events : ∀ state event world item, Reach system.logged condition initial state →
      system.happen event state.world.1 = some world → present world item → present state.world.1 item)
    (answers : ∀ world request fate reply after item, system.perform request fate world = some (reply, after) →
      present after item → present world item ∨ source ⟨world, request, fate, reply⟩ item)
    (reach : Reach system.logged condition initial state) (item : Item) (held : present state.world.1 item) :
    ∃ exchange earlier, exchange :: earlier <:+ state.world.2 ∧ source exchange item := by
  induction reach with
  | start => exact absurd held (nothing item)
  | step reach _ stepped ih =>
    obtain ⟨fate, request, rest, reply, -, -, performed, -⟩ | ⟨event, -, happened, -⟩ | ⟨same, -⟩ :=
      System.step_cases stepped
    · obtain ⟨⟨answer, after⟩, carried, same⟩ := Option.map_eq_some_iff.mp performed
      rw [← (Prod.mk.inj same).2] at held ⊢
      -- The answered call brought the item, or an earlier one did.
      rcases answers _ _ _ _ _ item carried held with before | new
      · obtain ⟨exchange, earlier, part, brought⟩ := ih before
        exact ⟨exchange, earlier, part.trans (List.suffix_cons _ _), brought⟩
      · exact ⟨_, _, List.suffix_refl _, new⟩
    · obtain ⟨world, arrived, same⟩ := Option.map_eq_some_iff.mp happened
      rw [← same] at held ⊢
      exact ih (events _ event world item reach arrived held)
    · rw [same] at held ⊢
      exact ih held

/-! ## What a program asks after which answers -/

/-- Whatever answers the system can give, the program makes the calls that the
property allows after them. -/
def Program.Asks (system : System World Fate Event Reply) (property : Log World Fate Reply → Call → Prop) :
    Program Reply α → (α → Log World Fate Reply → Prop) → Log World Fate Reply → Prop
  | .done value, post, log => post value log
  | .ask request next, post, log =>
      property log request ∧ ∀ world fate reply after, system.perform request fate world = some (reply, after) →
        Asks system property (next reply) post (⟨world, request, fate, reply⟩ :: log)

namespace Program.Asks

variable {property : Log World Fate Reply → Call → Prop} {log : Log World Fate Reply}

theorem ask {request : Call} {rest : Reply request → Program Reply α} {post : α → Log World Fate Reply → Prop}
    (allowed : property log request)
    (answers : ∀ world fate reply after, system.perform request fate world = some (reply, after) →
      Asks system property (rest reply) post (⟨world, request, fate, reply⟩ :: log)) :
    Asks system property (.ask request rest) post log :=
  ⟨allowed, answers⟩

theorem mono {program : Program Reply α} {first second : α → Log World Fate Reply → Prop}
    (weaken : ∀ value log, first value log → second value log) (asks : Asks system property program first log) :
    Asks system property program second log := by
  induction program generalizing log with
  | done value => exact weaken _ _ asks
  | ask request next ih =>
    exact ⟨asks.1, fun world fate reply after performed => ih reply (asks.2 world fate reply after performed)⟩

theorem bind {program : Program Reply α} {rest : α → Program Reply β} {post : β → Log World Fate Reply → Prop}
    (asks : Asks system property program (fun value => Asks system property (rest value) post) log) :
    Asks system property (program >>= rest) post log := by
  induction program generalizing log with
  | done value => exact asks
  | ask request next ih =>
    exact ⟨asks.1, fun world fate reply after performed => ih reply (asks.2 world fate reply after performed)⟩

theorem forEach {Item : Type} {body : Item → Program Reply Unit} {items : List Item}
    {loop : Log World Fate Reply → Prop}
    (each : ∀ item ∈ items, ∀ log, loop log → Asks system property (body item) (fun _ => loop) log) (enter : loop log) :
    Asks system property (Program.forEach body items) (fun _ => loop) log := by
  induction items generalizing log with
  | nil => exact enter
  | cons item rest ih =>
    exact bind ((each item List.mem_cons_self log enter).mono fun _ _ left =>
      ih (fun other member => each other (List.mem_cons_of_mem item member)) left)

/-- A turn that asks so after any log asks so throughout the runs. -/
theorem reach (turn : ∀ log, Asks system property system.turn (fun _ _ => True) log) {world : World}
    (reach : Reach system.logged condition (system.logged.start (world, [])) state) :
    Asks system property state.running (fun _ _ => True) state.world.2 := by
  induction reach with
  | start => exact turn _
  | step _ _ stepped ih =>
    obtain ⟨fate, request, rest, reply, after, rfl, running, performed, rfl⟩ | ⟨same, continued | started⟩ :=
      System.logged_cases stepped
    · rw [running] at ih
      exact ih.2 _ fate reply after performed
    · rw [same, continued]
      exact ih
    · rw [started]
      exact turn _

theorem waiting (asks : Asks system property state.running (fun _ _ => True) state.world.2) {request : Call}
    (waits : state.waiting = some request) : property state.world.2 request := by
  obtain ⟨held, running⟩ := state
  cases running with
  | done value => cases waits
  | ask call rest =>
    cases waits
    exact asks.1

end Program.Asks

end Interaction
