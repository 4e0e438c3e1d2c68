import Snowside.Bridge.Guards

/-! What a payout proves about the burn that its row names. -/

set_option autoImplicit false

namespace Snowside

open Interaction

/-- The transaction that the row names succeeded, and burned at least so many
satoshis of the row's own address. -/
def BurnMatches (world : World) (row : Withdrawal) (sats : Nat) : Prop :=
  ∃ tx ∈ row.burnTxHash.bind (world.l2 row.network).getTransaction, tx.status = .success ∧
    spelledAddress row.snowsideAddress = some tx.sender ∧ tx.recipient = burnAddress ∧ sats * satsToEcx ≤ tx.value

instance (world : World) (row : Withdrawal) (sats : Nat) : Decidable (BurnMatches world row sats) :=
  inferInstanceAs (Decidable (∃ _ ∈ _, _))

/-- The candidates of the network's funded deposits, when every request is answered. -/
def Ledger.candidates (ledger : Ledger) (network : Network) : List Api.FundedDeposit → List Candidate
  | [] => []
  | deposit :: rest =>
      if deposit.network ≠ network then ledger.candidates network rest
      else (ledger.utxos (cleanAddress deposit.ecashAddress)).map
        (fun utxo => ⟨utxo.point, utxo.value, deposit⟩) ++ ledger.candidates network rest

/-- All that `processWithdrawal` checks. -/
structure Payable (config : Config) (world : World) (row : Withdrawal) : Prop extends Redeemable config world row where
  pending : row.status = .pending
  minter : config.minter.isSome
  wallet : config.wallet.isSome
  covered : ∀ target, targetSats config row = some target → target.toNat + feeSats ≤
    (((world.l1 row.network).candidates row.network (Api.fundedDeposits world.deposits)).map
      Candidate.value).sum
  address : (config.decodeAddress row.network (cleanAddress row.ecashAddress)).isSome

section
variable {config : Config} {world : World} {network : Network} {request : Call}

/-! ## Collecting outputs -/

/-- Whatever fails, no more than the candidates is collected. -/
theorem issues_collect {rest : List Candidate → Fed Unit} {deposits : List Api.FundedDeposit}
    (issued : (federation config).Issues (collectUtxos network deposits >>= rest) world request) :
    (∃ address, request = .utxos network address) ∨ ∃ items, items.Sublist ((world.l1 network).candidates network deposits) ∧
      (federation config).Issues (rest items) world request := by
  induction deposits generalizing rest with
  | nil => exact .inr ⟨[], List.Sublist.refl _, issued⟩
  | cons deposit others ih =>
    rw [collectUtxos] at issued
    rw [Ledger.candidates]
    split at issued
    · next elsewhere =>
      rw [if_pos elsewhere]
      exact ih issued
    · next here =>
      rw [if_neg here]
      simp only [fetchUtxos, Program.call_bind, Program.ask_bind, Program.pure_eq, Program.done_bind,
        Program.bind_bind] at issued
      obtain rfl | ⟨fate, utxos, after, answered, later⟩ := (System.issues_ask _).mp issued
      · exact .inl ⟨_, rfl⟩
      obtain ⟨same, found⟩ := World.read_eq answered
      rw [same] at later
      refine (ih later).imp_right ?_
      rintro ⟨items, inside, collected⟩
      -- A failed request counts as an empty list of outputs.
      refine ⟨_, List.Sublist.append ?_ inside, collected⟩
      obtain rfl | rfl := found
      · exact List.Sublist.refl _
      · exact List.nil_sublist _

/-- With every request answered, all candidates are collected. -/
theorem issues_of_collect {rest : List Candidate → Fed Unit} {deposits : List Api.FundedDeposit}
    (issued : (federation config).Issues (rest ((world.l1 network).candidates network deposits)) world request) :
    (federation config).Issues (collectUtxos network deposits >>= rest) world request := by
  induction deposits generalizing rest with
  | nil => exact issued
  | cons deposit others ih =>
    rw [Ledger.candidates] at issued
    rw [collectUtxos]
    split at issued
    · next elsewhere =>
      rw [if_pos elsewhere]
      exact ih issued
    · next here =>
      rw [if_neg here]
      simp only [fetchUtxos, Program.call_bind, Program.ask_bind, Program.pure_eq, Program.done_bind,
        Program.bind_bind]
      exact (System.issues_ask _).mpr (.inr ⟨.ok, _, world, rfl, ih issued⟩)

/-! ## Payouts issued -/

/-- What the builder broadcasts passed its checks and pays the amount of the row. -/
theorem issues_build {row paid : Withdrawal} {deposits : List Api.FundedDeposit} {wallet : HDWallet}
    {changeAddress : Text} {rest : Option Nat → Fed Unit} {tx : PayoutTx}
    (issued : (federation config).Issues (buildSignAndBroadcastWithdrawal config row.network row deposits wallet
      changeAddress >>= rest) world (.broadcast network tx paid)) :
    (targetSats config row = some (tx.target : Int) ∧ dustLimit ≤ tx.target ∧
      tx.target + feeSats ≤ (((world.l1 row.network).candidates row.network deposits).map Candidate.value).sum ∧
      (config.decodeAddress row.network (cleanAddress row.ecashAddress)).isSome) ∨
    ∃ answer after, (federation config).Issues (rest answer) after (.broadcast network tx paid) := by
  rw [buildSignAndBroadcastWithdrawal] at issued
  split at issued
  · exact .inr ⟨none, world, issued⟩
  next amount priced =>
  split at issued
  · exact .inr ⟨none, world, issued⟩
  next large =>
  rw [Program.bind_bind] at issued
  -- Collecting only reads.
  obtain ⟨address, other⟩ | ⟨items, inside, issued⟩ := issues_collect issued
  · cases other
  dsimp only at issued
  split at issued
  · exact .inr ⟨none, world, issued⟩
  next selected =>
  split at issued
  · exact .inr ⟨none, world, issued⟩
  next address decoded =>
  obtain same | ⟨fate, answer, after, -, issued⟩ := (System.issues_ask (federation config)).mp issued
  swap
  · exact .inr ⟨answer, after, issued⟩
  cases same
  -- What was collected covers the amount, so all candidates do.
  have covered := (selectUtxos_ne_nil_iff (Nat.add_pos_right _ (by decide : 0 < feeSats))).mp selected
  have values := (inside.map Candidate.value).sum_le_sum fun _ _ => Nat.zero_le _
  refine .inl ⟨priced.trans (congrArg some ?_), ?_, covered.trans values, by rw [decoded]; rfl⟩
  · change amount = (amount.toNat : Int)
    omega
  · change dustLimit ≤ amount.toNat
    omega

/-- Whatever is broadcast for a row, the row was payable and its amount is paid. -/
theorem broadcast_issued {row paid : Withdrawal} {tx : PayoutTx}
    (issued : (federation config).Issues (processWithdrawal config row) world (.broadcast network tx paid)) :
    Payable config world row ∧ targetSats config row = some (tx.target : Int) := by
  rw [processWithdrawal] at issued
  split at issued
  · exact absurd issued (System.not_issues_done _ _ _)
  next pending =>
  split at issued
  swap
  · exact absurd issued (System.not_issues_done _ _ _)
  next burnTxHash sender named minter =>
  rw [verifyBurnTx] at issued
  split at issued
  · exact absurd issued (System.not_issues_done _ _ _)
  next rpcUrl =>
  simp only [fetchFundedDeposits, Program.call_bind, Program.ask_bind, Program.pure_eq, Program.done_bind] at issued
  -- The burn is looked up: without an answer the row is skipped.
  obtain other | ⟨fate, tx', after, verified, issued⟩ := (System.issues_ask _).mp issued
  · cases other
  cases tx' with
  | none => exact absurd issued (System.not_issues_done _ _ _)
  | some tx' =>
  obtain ⟨same, found⟩ : after = world ∧ (world.l2 row.network).getTransaction burnTxHash = some tx' := by
    cases fate with
    | ok =>
      obtain ⟨found, same⟩ := Prod.mk.inj (Option.some.inj verified)
      exact ⟨same.symm, found⟩
    | _ => cases verified
  rw [same] at issued
  simp only [Option.isSome_some, Bool.true_eq_false, if_false] at issued
  -- The funded deposits are listed; none of them, no payout.
  obtain other | ⟨fate, funded, after, answered, issued⟩ := (System.issues_ask _).mp issued
  · cases other
  obtain ⟨same, rfl | rfl⟩ := World.read_eq answered
  swap
  · exact absurd issued (System.not_issues_done _ _ _)
  rw [same, Option.getD_some] at issued
  by_cases empty : Api.fundedDeposits world.deposits = []
  · rw [if_pos empty] at issued
    exact absurd issued (System.not_issues_done _ _ _)
  rw [if_neg empty] at issued
  -- The change address takes its index from the clock.
  obtain other | ⟨fate, now, after, read, issued⟩ := (System.issues_ask _).mp issued
  · cases other
  split at issued
  · exact absurd issued (System.not_issues_done _ _ _)
  next wallet wallets =>
  -- After the builder only the mark is written.
  obtain ⟨priced, large, covered, decoded⟩ | ⟨answer, later, issued⟩ := issues_build issued
  · have ledgers : after.l1 = world.l1 := by
      cases fate <;> cases read
      rfl
    rw [ledgers] at covered
    refine ⟨⟨⟨by simpa using rpcUrl, ⟨burnTxHash, named, by rw [found]; rfl⟩, ⟨tx.target, priced, by omega⟩⟩,
      not_not.mp pending, by rw [minter]; rfl, by rw [wallets]; rfl, fun target same => ?_, decoded⟩, priced⟩
    obtain rfl := Option.some.inj (priced.symm.trans same)
    exact covered
  · cases answer with
    | none => exact absurd issued (System.not_issues_done _ _ _)
    | some txid =>
      obtain other | ⟨fate, reply, after, -, issued⟩ := (System.issues_ask _).mp issued
      · cases other
      · exact absurd issued (System.not_issues_done _ _ _)

/-- With every call answered, a payable row is paid. -/
theorem Payable.broadcast {row : Withdrawal} (payable : Payable config world row) : ∃ tx : PayoutTx,
    (federation config).Issues (processWithdrawal config row) world (.broadcast row.network tx row) := by
  obtain ⟨burnTxHash, named, known⟩ := payable.burned
  obtain ⟨tx, found⟩ := Option.isSome_iff_exists.mp known
  obtain ⟨sender, minter⟩ := Option.isSome_iff_exists.mp payable.minter
  obtain ⟨wallet, wallets⟩ := Option.isSome_iff_exists.mp payable.wallet
  obtain ⟨target, priced, large⟩ := payable.amount
  obtain ⟨address, decoded⟩ := Option.isSome_iff_exists.mp payable.address
  have covered := payable.covered target priced
  -- Without funded deposits there would be no candidates.
  have funded : Api.fundedDeposits world.deposits ≠ [] := by
    intro empty
    rw [empty] at covered
    exact absurd covered (by simp [Ledger.candidates, feeSats])
  let items := (world.l1 row.network).candidates row.network (Api.fundedDeposits world.deposits)
  have selected : selectUtxos items target.toNat feeSats ≠ [] :=
    (selectUtxos_ne_nil_iff (Nat.add_pos_right _ (by decide : 0 < feeSats))).mpr covered
  refine ⟨buildTx wallet row.network (selectUtxos items target.toNat feeSats) target.toNat address
    (cleanAddress (wallet.deriveDepositAddress row.network (clockIndex world.clock))), ?_⟩
  simp only [processWithdrawal, payable.pending, named, minter, verifyBurnTx, payable.rpcUrl, fetchFundedDeposits,
    wallets, ne_eq, not_true_eq_false, Bool.true_eq_false, if_false, Program.call_bind, Program.ask_bind,
    Program.pure_eq, Program.done_bind]
  refine (System.issues_ask _).mpr (.inr ⟨.ok, some tx, world, ?_, ?_⟩)
  · exact congrArg (fun answer => some (answer, world)) found
  simp only [Option.isSome_some, Bool.true_eq_false, if_false]
  refine (System.issues_ask _).mpr (.inr ⟨.ok, some (Api.fundedDeposits world.deposits), world, rfl, ?_⟩)
  rw [Option.getD_some, if_neg funded]
  refine (System.issues_ask _).mpr (.inr ⟨.ok, world.clock, _, rfl, ?_⟩)
  simp only [buildSignAndBroadcastWithdrawal, priced, not_lt.mpr large, if_false, Program.bind_bind]
  refine issues_of_collect ?_
  change (federation config).Issues ((if selectUtxos items target.toNat feeSats = [] then _ else _) >>= _) _ _
  rw [if_neg selected, decoded]
  exact (System.issues_ask (federation config)).mpr (.inl rfl)

end

/-- For every row and every world, what is paid is matched by the burn exactly
when the row is not payable or its amount is. -/
theorem payouts_match_burns_iff (config : Config) (world : World) (row : Withdrawal) :
    (∀ network tx paid, (federation config).Issues (processWithdrawal config row) world
      (.broadcast network tx paid) → BurnMatches world row tx.target) ↔
    (Payable config world row → ∀ target, targetSats config row = some target →
      BurnMatches world row target.toNat) := by
  constructor
  · intro matched payable target priced
    obtain ⟨tx, issued⟩ := payable.broadcast
    obtain rfl := Option.some.inj (priced.symm.trans (broadcast_issued issued).2)
    exact matched _ tx row issued
  · intro matched network tx paid issued
    obtain ⟨payable, priced⟩ := broadcast_issued issued
    exact matched payable tx.target priced

/-- Somebody calls a contract without any value, and a withdrawal names the call,
which still waits. -/
def plainCall : List (Action Fate Event) :=
  sentMint ++ answers 2 ++ [.event (.transact .signet 0x2222222222222222222222222222222222222222 5 0 []),
    .event (.postWithdrawal 9 sampleWithdrawal)]

/-- The row is paid 10000 satoshis. -/
theorem plain_call_is_paid : ∃ state row tx,
    (federation sampleConfig).run sampleStart plainCall = some state ∧ row ∈ state.world.withdrawals ∧
      (federation sampleConfig).Issues (processWithdrawal sampleConfig row) state.world
        (.broadcast row.network tx row) ∧
      ((state.world.l1 row.network).broadcast row tx).isSome ∧ tx.target = 10000 ∧
      ¬ BurnMatches state.world row tx.target := by
  have seen : ((federation sampleConfig).run sampleStart plainCall).any (fun state =>
      state.world.withdrawals.any fun row =>
        ((federation sampleConfig).run ⟨state.world, processWithdrawal sampleConfig row⟩ (answers 4)).any fun later =>
          (later.waiting.bind Call.payout).any fun payout => payout.1 = row.network ∧ payout.2.2 = row ∧
            ((state.world.l1 row.network).broadcast row payout.2.1).isSome ∧ payout.2.1.target = 10000 ∧
            ¬ BurnMatches state.world row payout.2.1.target) = true := by
    decide +kernel
  obtain ⟨state, ran, seen⟩ := (Option.any_eq_true _ _).mp seen
  obtain ⟨row, member, seen⟩ := List.any_eq_true.mp seen
  obtain ⟨later, answered, seen⟩ := (Option.any_eq_true _ _).mp seen
  obtain ⟨⟨network, tx, paid⟩, broadcasts, seen⟩ := (Option.any_eq_true _ _).mp seen
  obtain ⟨call, waits, named⟩ := Option.bind_eq_some_iff.mp broadcasts
  rw [Call.payout_eq named] at waits
  have pays := of_decide_eq_true seen
  dsimp only at pays
  obtain ⟨rfl, rfl, rest⟩ := pays
  exact ⟨state, paid, tx, ran, member, ⟨List.replicate 4 .ok, later, answered, waits⟩, rest⟩

end Snowside
