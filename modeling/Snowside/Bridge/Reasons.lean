import Snowside.Federation.Loop
import Snowside.Interaction.Logged
import Snowside.Mainchain.Accounts

/-! What the process asks after which answers: the results that rows are confirmed
and minted with come from the calls just before. -/

set_option autoImplicit false

namespace Snowside

open Interaction

abbrev BridgeLog := Log World Fate Reply

/-- The row was in the table when a call was answered. -/
def KnownRow (row : Deposit) (log : BridgeLog) : Prop := ∃ exchange ∈ log, row ∈ exchange.world.deposits

theorem KnownRow.mono {row : Deposit} {log longer : BridgeLog} (known : KnownRow row log) (part : log <:+ longer) :
    KnownRow row longer := by
  obtain ⟨exchange, member, listed⟩ := known
  exact ⟨exchange, part.subset member, listed⟩

/-- A reading of the tip and a listing of the outputs at the row's address come to the result. -/
structure Counted (config : Config) (row : Deposit) (result : Received) (listing reading : Exchange World Fate Reply) :
    Prop where
  tip : reading.call = .tipHeight row.network
  utxos : ∃ address, row.ecashAddress = some address ∧ listing.call = .utxos row.network (cleanAddress address) ∧
    result.counted = confirmedOutputs config row.network (reading.world.l1 row.network).tip
      ((listing.world.l1 row.network).utxos (cleanAddress address))
  amount : result.amount = total result.counted

/-- The result was counted by the last two calls. -/
structure Found (config : Config) (row : Deposit) (result : Received) (log : BridgeLog) : Prop where
  known : KnownRow row log
  counted : ∃ listing reading earlier, log = listing :: reading :: earlier ∧ Counted config row result listing reading

/-- A row is confirmed with the result of the last two calls, and minted with it too
or with the one before that call. -/
def Reasoned (config : Config) (log : BridgeLog) : Call → Prop
  | .patchDeposit id patch => patch.status = some .confirmed →
      ∃ row result, row.id = id ∧ patch = confirmedPatch result ∧ Found config row result log
  | .sendTransaction _ _ note => ∃ row result, note = ⟨row.id, result.amount, result.counted⟩ ∧
      (Found config row result log ∨ Found config row result log.tail)
  | _ => True

section

variable {config : Config} {start log : BridgeLog}

abbrev Reasons (config : Config) {α : Type} (program : Fed α) (post : α → BridgeLog → Prop) (log : BridgeLog) : Prop :=
  program.Asks (federation config) (Reasoned config) post log

/-- What was behind the log is behind it with one exchange more. -/
theorem grown (exchange : Exchange World Fate Reply) (behind : start <:+ log) : start <:+ exchange :: log :=
  behind.trans (List.suffix_cons _ _)

theorem check_reasons {row : Deposit} {address : Text} (assigned : row.ecashAddress = some address) (known : KnownRow row log) :
    Reasons config (checkAddressForDeposits config row.network address)
      (fun found later => log <:+ later ∧ ∀ result, found = some result → Found config row result later) log := by
  simp only [checkAddressForDeposits, getTipHeight, Program.call_bind, Program.ask_bind, Program.pure_eq,
    Program.done_bind]
  refine .ask trivial fun world fate height after answered => ?_
  obtain ⟨-, read⟩ := World.read_eq answered
  split
  · exact ⟨List.suffix_cons _ _, fun _ found => by cases found⟩
  next unread =>
  split
  · exact ⟨List.suffix_cons _ _, fun _ found => by cases found⟩
  refine .ask trivial fun world' fate' utxos after' answered' => ?_
  obtain ⟨-, listed⟩ := World.read_eq answered'
  have behind := grown ⟨world', .utxos row.network (cleanAddress address), fate', utxos⟩
    (List.suffix_cons ⟨world, .tipHeight row.network, fate, height⟩ log)
  split
  · exact ⟨behind, fun _ found => by cases found⟩
  next first rest shape =>
  refine ⟨behind, fun result found => ?_⟩
  cases found
  -- A failed call would have left nothing to count.
  have tip : height.getD 0 = (world.l1 row.network).tip := by
    obtain rfl | rfl := read
    · rfl
    · exact absurd rfl unread
  have outputs : utxos.getD [] = (world'.l1 row.network).utxos (cleanAddress address) := by
    obtain rfl | rfl := listed
    · rfl
    · cases shape
  rw [tip, outputs] at shape
  exact ⟨known.mono behind, _, _, log, rfl, rfl, ⟨address, assigned, rfl, shape.symm⟩, rfl⟩

theorem mint_reasons {row : Deposit} {result : Received} (behind : start <:+ log)
    (found : Found config row result log ∨ Found config row result log.tail) :
    Reasons config (mintDeposit config row result) (fun _ later => start <:+ later) log := by
  rw [mintDeposit]
  refine .bind ?_
  rw [mintEcx]
  split
  · exact behind
  simp only [Program.call_bind, Program.pure_eq]
  refine .ask ⟨row, result, rfl, found⟩ fun _ _ sent _ _ => ?_
  cases sent with
  | none => exact grown _ behind
  | some hash =>
    refine .ask trivial fun _ _ status _ _ => ?_
    split
    · exact .ask (fun confirms => by cases confirms) fun _ _ _ _ _ => grown _ (grown _ (grown _ behind))
    · exact grown _ (grown _ behind)

theorem handleDeposit_reasons {row : Deposit} (behind : start <:+ log) (known : KnownRow row log) :
    Reasons config (handleDeposit config row) (fun _ later => start <:+ later) log := by
  rw [handleDeposit]
  split
  · next blank =>
    rw [assignDepositAddress, blank]
    refine .ask trivial fun _ _ now _ _ => ?_
    split
    · exact grown _ behind
    · exact .ask (fun confirms => by cases confirms) fun _ _ _ _ _ => grown _ (grown _ behind)
  · rw [processDeposit]
    split
    · exact behind
    next address assigned =>
    split
    · exact behind
    refine .bind ((check_reasons assigned known).mono ?_)
    rintro (_ | result) later ⟨part, found⟩
    · exact behind.trans part
    have found := found result rfl
    have behind := behind.trans part
    dsimp only
    split
    · -- The mint follows the count at once, or the answer to the confirmation.
      refine .ask (fun _ => ⟨row, result, rfl, rfl, found⟩) fun _ _ reply _ _ => ?_
      cases reply with
      | none => exact grown _ behind
      | some _ => exact mint_reasons (grown _ behind) (.inr found)
    · exact mint_reasons behind (.inl found)

theorem processPendingDeposits_reasons : Reasons config (processPendingDeposits config) (fun _ _ => True) log := by
  rw [processPendingDeposits]
  refine .ask trivial fun world fate rows after answered => ?_
  obtain ⟨-, listed⟩ := World.read_eq answered
  refine (Program.Asks.forEach (fun row member later behind => handleDeposit_reasons behind (KnownRow.mono ?_ behind))
    (List.suffix_refl _)).mono fun _ _ _ => trivial
  refine ⟨_, List.mem_cons_self, ?_⟩
  obtain rfl | rfl := listed
  · have same := List.perm_insertionSort (fun first second : Deposit => first.createdAt ≤ second.createdAt)
      (world.deposits.filter fun row => row.status = .pending ∨ row.status = .confirmed)
    exact List.mem_of_mem_filter (same.mem_iff.mp member)
  · cases member

/-! The other half of a turn confirms and mints nothing. -/

theorem collectUtxos_reasons {α : Type} {network : Network} {deposits : List Api.FundedDeposit}
    {rest : List Candidate → Fed α} (others : ∀ items log, Reasons config (rest items) (fun _ _ => True) log) :
    Reasons config (collectUtxos network deposits >>= rest) (fun _ _ => True) log := by
  induction deposits generalizing log rest with
  | nil => exact others _ _
  | cons deposit deposits ih =>
    rw [collectUtxos]
    split
    · exact ih others
    · simp only [fetchUtxos, Program.bind_bind, Program.call_bind, Program.ask_bind, Program.pure_eq, Program.done_bind]
      exact .ask trivial fun _ _ _ _ _ => ih fun _ _ => others _ _

theorem handleWithdrawal_reasons (now : Nat) (row : Withdrawal) :
    Reasons config (handleWithdrawal config now row) (fun _ _ => True) log := by
  rw [handleWithdrawal]
  split
  · exact .ask trivial fun _ _ _ _ _ => trivial
  rw [processWithdrawal]
  split
  · trivial
  split
  swap
  · trivial
  rw [verifyBurnTx]
  split
  · trivial
  simp only [fetchFundedDeposits, Program.call_bind, Program.ask_bind, Program.pure_eq, Program.done_bind]
  -- The burn, the funded deposits, the clock and the outputs are read, one after the other.
  refine .ask trivial fun _ _ tx _ _ => ?_
  split
  · trivial
  refine .ask trivial fun _ _ funded _ _ => ?_
  split
  · trivial
  refine .ask trivial fun _ _ now _ _ => ?_
  split
  · trivial
  rw [buildSignAndBroadcastWithdrawal]
  split
  · trivial
  split
  · trivial
  rw [Program.bind_bind]
  refine collectUtxos_reasons fun items log => ?_
  dsimp only
  split
  · trivial
  split
  · trivial
  refine .ask trivial fun _ _ sent _ _ => ?_
  cases sent with
  | none => trivial
  | some txid => exact .ask trivial fun _ _ _ _ _ => trivial

theorem poll_reasons : Reasons config (poll config) (fun _ _ => True) log := by
  rw [poll, checkIn]
  refine .bind ?_
  simp only [Program.call_bind, Program.pure_eq]
  refine .ask trivial fun _ _ _ _ _ => .bind (processPendingDeposits_reasons.mono fun _ _ _ => ?_)
  rw [processPendingWithdrawals]
  simp only [Program.call_bind]
  refine .ask trivial fun _ _ withdrawals _ _ => ?_
  cases withdrawals with
  | none => trivial
  | some rows =>
    refine .ask trivial fun _ _ now _ _ => ?_
    exact .forEach (fun row _ log _ => handleWithdrawal_reasons now row) trivial

end

end Snowside
