import Snowside.Bridge.Deposits
import Snowside.Bridge.Withdrawals
import Snowside.Interaction.History
import Snowside.Interaction.Keyed

/-! The life of the rows: which statuses they pass, and which columns go with them. -/

set_option autoImplicit false

namespace Snowside

open Interaction

/-! ## Rows -/

/-- A row as it is posted. -/
structure Deposit.Posted (row : Deposit) : Prop where
  status : row.status = .pending
  ecashAddress : row.ecashAddress = none
  derivationIndex : row.derivationIndex = none
  amountSats : row.amountSats = none
  mintTxHash : row.mintTxHash = none
  confirmedAt : row.confirmedAt = none
  mintedAt : row.mintedAt = none

/-- The columns that are set are those of the status. -/
structure Deposit.Aligned (row : Deposit) : Prop where
  amountSats : row.amountSats.isSome ↔ row.status = .confirmed ∨ row.status = .minted
  confirmedAt : row.confirmedAt.isSome ↔ row.status = .confirmed ∨ row.status = .minted
  mintTxHash : row.mintTxHash.isSome ↔ row.status = .minted
  mintedAt : row.mintedAt.isSome ↔ row.status = .minted
  derivationIndex : row.derivationIndex.isSome ↔ row.ecashAddress.isSome

/-- The federation writes to the row. -/
def Deposit.Moves (config : Config) (row later : Deposit) : Prop :=
  ∃ world now patch, DepositStep config .all world row patch ∧ later = patch.apply now row

def Withdrawal.Moves (config : Config) (row later : Withdrawal) : Prop :=
  row.status = .pending ∧ ∃ world now patch, WithdrawalStep config .all world row patch ∧ later = patch.apply now row

/-- The statuses up to a status. -/
def DepositStatus.path : DepositStatus → List DepositStatus
  | pending => [pending]
  | confirmed => [pending, confirmed]
  | minted => [pending, confirmed, minted]

def WithdrawalStatus.path : WithdrawalStatus → List WithdrawalStatus
  | pending => [pending]
  | completed => [pending, completed]
  | failed => [pending, failed]

theorem DepositStatus.wayTo_prefix (current : Option DepositStatus) :
    wayTo path current <+: [.pending, .confirmed, .minted] := by
  cases current with
  | none => exact List.nil_prefix
  | some status => cases status <;> decide

theorem WithdrawalStatus.wayTo_prefix (current : Option WithdrawalStatus) :
    wayTo path current <+: [.pending, .completed] ∨ wayTo path current <+: [.pending, .failed] := by
  cases current with
  | none => exact .inl List.nil_prefix
  | some status => cases status <;> decide

section

variable {config : Config} {row later : Deposit}

theorem Deposit.Posted.aligned (posted : row.Posted) : row.Aligned := by
  obtain ⟨status, ecashAddress, derivationIndex, amountSats, mintTxHash, confirmedAt, mintedAt⟩ := posted
  constructor <;> simp [*]

theorem Deposit.Moves.aligned (moves : row.Moves config later) (aligned : row.Aligned) : later.Aligned := by
  obtain ⟨world, now, patch, step, rfl⟩ := moves
  obtain ⟨amountSats, confirmedAt, mintTxHash, mintedAt, derivationIndex⟩ := aligned
  cases step with
  | assign wallet index pending =>
    constructor <;> simp_all [Api.DepositPatch.apply]
  | confirm result pending address =>
    constructor <;> simp_all [Api.DepositPatch.apply, confirmedPatch]
  | mint amount tx confirmed =>
    constructor <;> simp_all [Api.DepositPatch.apply, mintedPatch]

theorem Deposit.Moves.becomes (moves : row.Moves config later) : row.Becomes later := by
  obtain ⟨world, now, patch, step, rfl⟩ := moves
  exact step.becomes now

theorem Deposit.Moves.status (moves : row.Moves config later) :
    later.status = row.status ∨ later.status.path = row.status.path ++ [later.status] := by
  obtain ⟨world, now, patch, step, rfl⟩ := moves
  cases step with
  | assign => exact .inl rfl
  | confirm result pending =>
    rw [pending]
    exact .inr rfl
  | mint amount tx confirmed =>
    rw [confirmed]
    exact .inr rfl

theorem Withdrawal.Moves.status {row later : Withdrawal} (moves : row.Moves config later) :
    later.status.path = row.status.path ++ [later.status] := by
  obtain ⟨pending, world, now, patch, step, rfl⟩ := moves
  rw [pending]
  cases step <;> rfl

end

/-! ## Tables -/

/-- The tables of two worlds, the second one step later. -/
structure TablesStep (config : Config) (before after : World) : Prop where
  deposits : Keyed.Step Deposit.id Deposit.Posted (Deposit.Moves config) before.deposits after.deposits
  withdrawals : Keyed.Step Withdrawal.id (·.status = .pending) (Withdrawal.Moves config) before.withdrawals after.withdrawals

theorem TablesStep.same {config : Config} {before after : World} (deposits : after.deposits = before.deposits)
    (withdrawals : after.withdrawals = before.withdrawals) : TablesStep config before after where
  deposits := deposits ▸ .same
  withdrawals := withdrawals ▸ .same

theorem TablesStep.of_happen {config : Config} {before after : World} {event : Event}
    (happened : World.happen config event before = some after) : TablesStep config before after := by
  cases event with
  | postDeposit id network snowsideAddress =>
    obtain ⟨deposits, created, rfl⟩ := Option.map_eq_some_iff.mp happened
    obtain ⟨taken, -, rfl⟩ := Api.createDeposit_eq created
    exact ⟨.insert _ taken ⟨rfl, rfl, rfl, rfl, rfl, rfl, rfl⟩, .same⟩
  | postWithdrawal id body =>
    obtain ⟨withdrawals, created, rfl⟩ := Option.map_eq_some_iff.mp happened
    obtain ⟨taken, row, rfl, rfl, pending, -⟩ := Api.createWithdrawal_eq created
    exact ⟨.same, .insert _ taken pending⟩
  | mineTx network hash success =>
    obtain ⟨chain, -, rfl⟩ := Option.map_eq_some_iff.mp happened
    exact .same rfl rfl
  | _ =>
    cases happened
    exact .same rfl rfl

theorem TablesStep.of_effect {config : Config} {before after : World} {call : Call} {fate : Fate}
    (guard : Guard config .all before call) (effect : Effect config before call fate after) :
    TablesStep config before after := by
  cases effect with
  | patchDeposit id patch _ carried =>
    obtain ⟨row, member, rfl, step⟩ := guard
    exact ⟨.update row _ member (fun _ => rfl) ⟨before, _, patch, step, rfl⟩, .same⟩
  | patchWithdrawal id patch _ carried =>
    obtain ⟨row, member, rfl, pending, step⟩ := guard
    exact ⟨.same, .update row _ member (fun _ => rfl) ⟨pending, before, _, patch, step, rfl⟩⟩
  | _ => exact .same rfl rfl

/-! ## Runs -/

section

variable {config : Config} {clock : Nat} {tips : Network → Nat} {worlds : List World} {state next : State World Reply}

/-- Whatever the answers, events and restarts, a step keeps, posts or moves one row. -/
theorem tables_step {action : Action Fate Event}
    (reach : Reach (federation config) .free ((federation config).start (World.initial clock tips)) state)
    (stepped : (federation config).step state action = some next) : TablesStep config state.world next.world := by
  obtain ⟨books, guarded⟩ := reach_invariant (reach.mono (Excuse.all_permits config .free))
  obtain ⟨fate, call, rest, reply, -, running, performed, -⟩ | ⟨event, -, happened, -⟩ | ⟨same, -⟩ :=
    System.step_cases stepped
  · have waits : state.waiting = some call := by rw [State.waiting, running]; rfl
    exact .of_effect (guarded call waits) (perform_effect performed)
  · exact .of_happen happened
  · rw [same]
    exact .same rfl rfl

theorem reach_depositIds
    (reach : Reach (federation config) .free ((federation config).start (World.initial clock tips)) state) :
    (state.world.deposits.map Deposit.id).Nodup :=
  (reach_invariant (reach.mono (Excuse.all_permits config .free))).1.depositIds

theorem reach_withdrawalIds
    (reach : Reach (federation config) .free ((federation config).start (World.initial clock tips)) state) :
    (state.world.withdrawals.map Withdrawal.id).Nodup :=
  (reach_invariant (reach.mono (Excuse.all_permits config .free))).1.withdrawalIds

/-- The status of a deposit row, if it was posted. -/
def depositStatus (id : Nat) (world : World) : Option DepositStatus :=
  (Keyed.lookup Deposit.id world.deposits id).map Deposit.status

def withdrawalStatus (id : Nat) (world : World) : Option WithdrawalStatus :=
  (Keyed.lookup Withdrawal.id world.withdrawals id).map Withdrawal.status

theorem TablesStep.depositStatus {before after : World} (step : TablesStep config before after)
    (distinct : (before.deposits.map Deposit.id).Nodup) (id : Nat) :
    Follows DepositStatus.path (depositStatus id before) (depositStatus id after) := by
  unfold Snowside.depositStatus
  -- The row of the id stays, is posted, or moves.
  rcases step.deposits.lookup_cases distinct id with same | ⟨none, row, posted, fresh⟩ | ⟨row, later, held, moved, moves⟩
  · exact .inl (congrArg _ same)
  · rw [none, posted]
    exact .inr ⟨_, rfl, by rw [fresh.status]; rfl⟩
  · rw [held, moved]
    exact moves.status.imp (congrArg some) fun goesOn => ⟨_, rfl, goesOn⟩

theorem TablesStep.withdrawalStatus {before after : World} (step : TablesStep config before after)
    (distinct : (before.withdrawals.map Withdrawal.id).Nodup) (id : Nat) :
    Follows WithdrawalStatus.path (withdrawalStatus id before) (withdrawalStatus id after) := by
  unfold Snowside.withdrawalStatus
  rcases step.withdrawals.lookup_cases distinct id with same | ⟨none, row, posted, pending⟩ |
    ⟨row, later, held, moved, moves⟩
  · exact .inl (congrArg _ same)
  · rw [none, posted]
    exact .inr ⟨_, rfl, by rw [pending]; rfl⟩
  · rw [held, moved]
    exact .inr ⟨_, rfl, moves.status⟩

theorem deposits_aligned
    (reach : Reach (federation config) .free ((federation config).start (World.initial clock tips)) state) :
    ∀ row ∈ state.world.deposits, row.Aligned := by
  induction reach with
  | start => exact fun row member => absurd member List.not_mem_nil
  | step reach _ stepped ih =>
    exact (tables_step reach stepped).deposits.forall_rows (fun _ posted => posted.aligned)
      (fun _ _ moves aligned => moves.aligned aligned) (reach_depositIds reach) ih

/-- A row of a world is there in the world, with what never changes. -/
def DepositsBecome (before after : World) : Prop := ∀ row ∈ before.deposits, ∃ later ∈ after.deposits, row.Becomes later

theorem DepositsBecome.refl (world : World) : DepositsBecome world world := fun row member => ⟨row, member, .refl row⟩

theorem DepositsBecome.trans (first second third : World) (before : DepositsBecome first second)
    (after : DepositsBecome second third) : DepositsBecome first third := by
  intro row member
  obtain ⟨middle, known, becomes⟩ := before row member
  obtain ⟨later, present, moved⟩ := after middle known
  exact ⟨later, present, becomes.trans moved⟩

/-- Over any run, the rows pass their statuses in order, have the columns that go
with their status, and keep their address and index. -/
theorem rows_lifeCycle
    (passes : Passes (federation config) .free ((federation config).start (World.initial clock tips)) worlds state) :
    (∀ id, recorded (depositStatus id) worlds <+: [.pending, .confirmed, .minted]) ∧
      (∀ id, recorded (withdrawalStatus id) worlds <+: [.pending, .completed] ∨
        recorded (withdrawalStatus id) worlds <+: [.pending, .failed]) ∧
      (∀ row ∈ state.world.deposits, row.Aligned) ∧ (state.world.deposits.map Deposit.id).Nodup ∧
      ∀ earlier ∈ worlds, DepositsBecome earlier state.world := by
  refine ⟨fun id => ?_, fun id => ?_, deposits_aligned passes.reach, reach_depositIds passes.reach, ?_⟩
  · rw [passes.recorded_eq (fun status => by cases status <;> rfl) rfl fun _ _ _ reach stepped =>
      (tables_step reach stepped).depositStatus (reach_depositIds reach) id]
    exact DepositStatus.wayTo_prefix _
  · rw [passes.recorded_eq (fun status => by cases status <;> rfl) rfl fun _ _ _ reach stepped =>
      (tables_step reach stepped).withdrawalStatus (reach_withdrawalIds reach) id]
    exact WithdrawalStatus.wayTo_prefix _
  · exact passes.later DepositsBecome.refl DepositsBecome.trans fun _ _ _ reach stepped =>
      (tables_step reach stepped).deposits.exists_later Deposit.Becomes.refl (fun _ _ moves => moves.becomes)
        (reach_depositIds reach)

end

/-- A deposit that is minted. -/
theorem rows_lifeCycle_sample : ∃ worlds state,
    (federation sampleConfig).run sampleStart (sentMint ++ answers 2) = some state ∧
      recorded (depositStatus 1) worlds <+: [.pending, .confirmed, .minted] ∧
      depositStatus 1 state.world = some .minted := by
  have seen : ((federation sampleConfig).run sampleStart (sentMint ++ answers 2)).map (fun state =>
      depositStatus 1 state.world) = some (some .minted) := by decide +kernel
  obtain ⟨state, ran, minted⟩ := Option.map_eq_some_iff.mp seen
  obtain ⟨worlds, passes⟩ := (Reach.of_run ran).passes
  exact ⟨worlds, state, ran, (rows_lifeCycle passes).1 1, minted⟩

end Snowside
