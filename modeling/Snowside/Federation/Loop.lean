import Snowside.Federation.Withdraw

/-! The poll loop of the federation. A thrown error ends the turn of its row, as
the loop catches and logs it; logging itself is left out. -/

set_option autoImplicit false

namespace Snowside

open Interaction

/-! ## Deposits -/

/-- Zero on any failure. -/
def getTipHeight (network : Network) : Fed Nat := do
  let height ← Program.call (Call.tipHeight network)
  return height.getD 0

/-- What `checkAddressForDeposits` found. The code keeps the total and the first
hash; `counted` are the outputs behind them. -/
structure Received where
  amount : Nat
  txHash : Nat
  counted : List Output

/-- The outputs with enough confirmations at the given tip. -/
def confirmedOutputs (config : Config) (network : Network) (tip : Nat) (utxos : List Output) : List Output :=
  utxos.filter fun utxo =>
    utxo.height.any fun height => height + config.minConfirmations network ≤ tip + 1

def checkAddressForDeposits (config : Config) (network : Network) (address : Text) :
    Fed (Option Received) := do
  let tip ← getTipHeight network
  if tip = 0 then return none
  -- Before the fork, outputs on the mainnet are of the shared chain.
  else if network = .mainnet ∧ tip < config.forkHeight then return none
  else
    let utxos ← Program.call (Call.utxos network (cleanAddress address))
    match confirmedOutputs config network tip (utxos.getD []) with
    | [] => return none
    | first :: rest =>
        return some {
          amount := ((first :: rest).map Output.value).sum
          txHash := first.point.txid
          counted := first :: rest }

/-- The hash of the mint, once its receipt says success. -/
def mintEcx (config : Config) (network : Network) (toAddress : Text) (note : MintNote) : Fed (Option Nat) :=
  if config.rpcUrl network = false ∨ config.minter = none then return none
  else do
    let data := encodeMintCall config.lowerCase toAddress (note.sats * satsToEcx)
    let sent ← Program.call (Call.sendTransaction network data note)
    match sent with
    | none => return none
    | some txHash =>
        let status ← Program.call (Call.waitForTransactionReceipt network txHash note.deposit)
        match status with
        | some .success => return some txHash
        | _ => return none

def assignDepositAddress (config : Config) (deposit : Deposit) : Fed Unit :=
  if deposit.ecashAddress.isSome then return ()
  else do
    let now ← Program.call (Call.now (.deposit deposit.network))
    match config.wallet with
    | none => return ()
    | some wallet =>
        let _ ← Program.call (Call.patchDeposit deposit.id {
          ecashAddress := some (wallet.deriveDepositAddress deposit.network (clockIndex now))
          derivationIndex := some (clockIndex now) })
        return ()

def mintedPatch (amount mintTxHash : Nat) : Api.DepositPatch where
  status := some .minted
  amountEcx := some (nearestDouble (amount * satsToEcx))
  mintTxHash := some mintTxHash

def confirmedPatch (result : Received) : Api.DepositPatch where
  status := some .confirmed
  amountSats := some result.amount
  ecashTxHash := some result.txHash

/-- The part of `processDeposit` after the row is confirmed. -/
def mintDeposit (config : Config) (deposit : Deposit) (result : Received) : Fed Unit := do
  let mintTxHash ← mintEcx config deposit.network deposit.snowsideAddress
    ⟨deposit.id, result.amount, result.counted⟩
  match mintTxHash with
  | none => return ()
  | some mintTxHash =>
      let _ ← Program.call (Call.patchDeposit deposit.id (mintedPatch result.amount mintTxHash))
      return ()

def processDeposit (config : Config) (deposit : Deposit) : Fed Unit :=
  match deposit.ecashAddress with
  | none => return ()
  | some ecashAddress =>
      if deposit.status = .minted then return ()
      else do
        let result ← checkAddressForDeposits config deposit.network ecashAddress
        match result with
        | none => return ()
        | some result =>
            if deposit.status = .pending then
              let patched ← Program.call (Call.patchDeposit deposit.id (confirmedPatch result))
              match patched with
              | none => return ()
              | some _ => mintDeposit config deposit result
            else mintDeposit config deposit result

/-! ## Withdrawals -/

def verifyBurnTx (config : Config) (network : Network) (burnTxHash : Text) : Fed Bool :=
  if config.rpcUrl network = false then return false
  else do
    let tx ← Program.call (Call.getTransaction network burnTxHash)
    return tx.isSome

def fetchFundedDeposits : Fed (List Api.FundedDeposit) := do
  let deposits ← Program.call Call.fundedDeposits
  return deposits.getD []

def completedPatch (config : Config) (withdrawal : Withdrawal) (l1TxHash : Nat) : Api.WithdrawalPatch where
  status := some .completed
  ecashTxHash := some l1TxHash
  amountSats := (targetSats config withdrawal).map Int.toNat

def processWithdrawal (config : Config) (withdrawal : Withdrawal) : Fed Unit :=
  if withdrawal.status ≠ .pending then return ()
  else
    match withdrawal.burnTxHash, config.minter with
    | some burnTxHash, some _ => do
        let verified ← verifyBurnTx config withdrawal.network burnTxHash
        if verified = false then return ()
        else
          let fundedDeposits ← fetchFundedDeposits
          if fundedDeposits = [] then return ()
          else
            let now ← Program.call (Call.now (.change withdrawal.network))
            match config.wallet with
            | none => return ()
            | some wallet =>
                let l1TxHash ← buildSignAndBroadcastWithdrawal config withdrawal.network withdrawal
                  fundedDeposits wallet (wallet.deriveDepositAddress withdrawal.network (clockIndex now))
                match l1TxHash with
                | none => return ()
                | some l1TxHash =>
                    let _ ← Program.call (Call.patchWithdrawal withdrawal.id
                      (completedPatch config withdrawal l1TxHash))
                    return ()
    | _, _ => return ()

/-! ## The loop -/

def checkIn : Fed Unit := do
  let _ ← Program.call Call.checkin
  return ()

def handleDeposit (config : Config) (deposit : Deposit) : Fed Unit :=
  if deposit.ecashAddress = none then assignDepositAddress config deposit
  else processDeposit config deposit

def processPendingDeposits (config : Config) : Fed Unit := do
  let deposits ← Program.call Call.pendingDeposits
  Program.forEach (handleDeposit config) (deposits.getD [])

/-- `WITHDRAWAL_TIMEOUT_MS`. -/
def withdrawalTimeoutMs : Nat := 15 * 60 * 1000

/-- The test of the timeout branch. -/
def TimedOut (now : Nat) (withdrawal : Withdrawal) : Prop :=
  0 < withdrawal.createdAt ∧ withdrawalTimeoutMs < now - withdrawal.createdAt

instance (now : Nat) (withdrawal : Withdrawal) : Decidable (TimedOut now withdrawal) :=
  inferInstanceAs (Decidable (_ ∧ _))

def failedPatch (now : Nat) : Api.WithdrawalPatch where
  status := some .failed
  completedAt := some now

def handleWithdrawal (config : Config) (now : Nat) (withdrawal : Withdrawal) : Fed Unit :=
  if TimedOut now withdrawal then do
    let _ ← Program.call (Call.patchWithdrawal withdrawal.id (failedPatch now))
    return ()
  else processWithdrawal config withdrawal

def processPendingWithdrawals (config : Config) : Fed Unit := do
  let withdrawals ← Program.call Call.pendingWithdrawals
  match withdrawals with
  | none => return ()
  | some withdrawals =>
      let now ← Program.call (Call.now .age)
      Program.forEach (handleWithdrawal config now) withdrawals

/-- One turn of the loop in `main`. -/
def poll (config : Config) : Fed Unit := do
  checkIn
  processPendingDeposits config
  processPendingWithdrawals config

/-- The federation process in its world. -/
def federation (config : Config) : System World Fate Event Reply where
  perform := World.perform config
  happen := World.happen config
  turn := poll config

/-- A configuration that runs: the wallet spells out its keys, and every other
third-party part is the plainest of its kind. -/
def sampleConfig : Config where
  lowerCase := .basic
  wallet := some .transparent
  minter := some 7
  rpcUrl _ := true
  minConfirmations _ := 1
  forkHeight := 0
  readBack := id
  decimalSats _ := none
  decodeAddress _ address := some address

/-- Its process, at the start of the first turn. -/
def sampleStart : State World Reply :=
  (federation sampleConfig).start (World.initial 1000000 fun _ => 1)

/-- So many calls answered in a row. -/
def answers (count : Nat) : List (Action Fate Event) := List.replicate count (.answer .ok)

/-- No call fails and the process is never restarted. -/
def undisturbed (_ : State World Reply) : Action Fate Event → Bool
  | .answer .ok | .event _ | .again => true
  | _ => false

theorem meets_of_undisturbed {condition : Condition Call World Fate Event} {state : State World Reply}
    {action : Action Fate Event} (calm : undisturbed state action)
    (answers : ∀ call, state.waiting = some call → condition.answer state.world call .ok)
    (events : ∀ event, condition.event state.world event) : condition.Meets state action := by
  cases action with
  | answer fate =>
    cases fate with
    | ok => exact answers
    | _ => cases calm
  | event event => exact events event
  | again => trivial
  | restart => cases calm

def sampleRecipient : Text := "0x1111111111111111111111111111111111111111".toList

/-- The address that the sample derives in its first second. -/
def sampleAddress : Text := HDWallet.transparent.deriveDepositAddress .signet 1000

/-- A deposit gets its address in one turn and its coins before the next. -/
def fundedDeposit : List (Action Fate Event) :=
  [.event (.postDeposit 1 .signet sampleRecipient)] ++ answers 6 ++
    [.again, .event (.receive .signet sampleAddress 100000), .event (.mineBlock .signet [⟨0, 0⟩])]

/-- The next turn confirms the row and sends the mint, which succeeds. -/
def sentMint : List (Action Fate Event) := fundedDeposit ++ answers 6 ++ [.event (.mineTx .signet 0 true)]

/-- The hash of the second transaction of a chain. -/
def sampleBurn : Text := "0x".toList ++ List.replicate 63 '0' ++ ['1']

def sampleWithdrawal : Api.WithdrawBody where
  snowsideAddress := sampleRecipient
  ecashAddress := "somewhere".toList
  amountEcx := "100000000000000".toList
  network := .signet
  burnTxHash := some sampleBurn

/-- The mint is marked, and its recipient burns a tenth of the coins and asks for
them on L1. -/
def burnedCoins : List (Action Fate Event) :=
  sentMint ++ answers 2 ++ [.event (.transact .signet 0x1111111111111111111111111111111111111111 burnAddress (10 ^ 14) []),
    .event (.mineTx .signet 1 true), .event (.postWithdrawal 9 sampleWithdrawal), .event (.tick 1000)]

end Snowside
