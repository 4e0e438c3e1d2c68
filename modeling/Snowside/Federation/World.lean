import Snowside.Federation.Wallet
import Snowside.Interaction.Machine
import Snowside.Sidechain

/-! The world of the federation process: the API's tables, both chains and the
clock, the calls it makes into them, and what happens there without it. -/

set_option autoImplicit false

namespace Snowside

open Interaction

/-- The environment of the process and the third-party functions it uses. -/
structure Config where
  lowerCase : LowerCase
  /-- From `HD_MNEMONIC`, if set. -/
  wallet : Option HDWallet
  /-- The account of `MINTER_PRIVATE_KEY`, if set. -/
  minter : Option Nat
  /-- Whether the network's RPC URL is set. -/
  rpcUrl : Network → Bool
  minConfirmations : Network → Nat
  forkHeight : Nat
  /-- The text of an amount after the INTEGER column: SQLite's numeric affinity,
  then JavaScript's printing of the number. -/
  readBack : Text → Text
  /-- `Math.floor(parseFloat(text) * 100_000_000)`, if a finite number. -/
  decimalSats : Text → Option Int
  /-- The canonical address of the output script that an address text stands for. -/
  decodeAddress : Network → Text → Option Text

structure World where
  clock : Nat
  lastCheckin : Option Nat
  deposits : List Deposit
  withdrawals : List Withdrawal
  l1 : Network → Ledger
  l2 : Network → Chain
  /-- The indices that change addresses were derived at. No code keeps them. -/
  changes : List (Network × Nat)

namespace World

def initial (clock : Nat) (tips : Network → Nat) : World :=
  ⟨clock, none, [], [], fun network => .initial (tips network), fun _ => ⟨[]⟩, []⟩

def setL1 (world : World) (network : Network) (ledger : Ledger) : World :=
  { world with l1 := Function.update world.l1 network ledger }

def setL2 (world : World) (network : Network) (chain : Chain) : World :=
  { world with l2 := Function.update world.l2 network chain }

section
variable (world : World) (network : Network) (ledger : Ledger) (chain : Chain)

@[simp] theorem setL1_l1 : (world.setL1 network ledger).l1 = Function.update world.l1 network ledger := rfl

@[simp] theorem setL2_l2 : (world.setL2 network chain).l2 = Function.update world.l2 network chain := rfl

end

end World

/-- What a reading of the clock is for: the index of a deposit address, the index
of a change address, or the age of withdrawals. -/
inductive Reading where
  | deposit (network : Network)
  | change (network : Network)
  | age
  deriving DecidableEq, Repr

/-- `Math.floor(Date.now() / 1000) % 1000000`. -/
def clockIndex (now : Nat) : Nat := now / 1000 % indexLimit

/-- The calls of the federation, each one await or one look at the clock. -/
inductive Call where
  | checkin
  | pendingDeposits
  | patchDeposit (id : Nat) (patch : Api.DepositPatch)
  | fundedDeposits
  | pendingWithdrawals
  | patchWithdrawal (id : Nat) (patch : Api.WithdrawalPatch)
  | now (reading : Reading)
  | tipHeight (network : Network)
  | utxos (network : Network) (address : Text)
  | broadcast (network : Network) (tx : PayoutTx) (withdrawal : Withdrawal)
  | sendTransaction (network : Network) (data : Text) (note : MintNote)
  | waitForTransactionReceipt (network : Network) (hash deposit : Nat)
  | getTransaction (network : Network) (hash : Text)

/-- The network, the transaction and the row of a payout. -/
def Call.payout : Call → Option (Network × PayoutTx × Withdrawal)
  | .broadcast network tx withdrawal => some (network, tx, withdrawal)
  | _ => none

theorem Call.payout_eq {call : Call} {network : Network} {tx : PayoutTx} {withdrawal : Withdrawal}
    (named : call.payout = some (network, tx, withdrawal)) : call = .broadcast network tx withdrawal := by
  cases call with
  | broadcast => cases named; rfl
  | _ => cases named

/-- Replies; `none` is a thrown error or an answer that is not ok. -/
def Reply : Call → Type
  | .checkin => Option Unit
  | .pendingDeposits => Option (List Deposit)
  | .patchDeposit _ _ => Option Unit
  | .fundedDeposits => Option (List Api.FundedDeposit)
  | .pendingWithdrawals => Option (List Withdrawal)
  | .patchWithdrawal _ _ => Option Unit
  | .now _ => Nat
  | .tipHeight _ => Option Nat
  | .utxos _ _ => Option (List Output)
  | .broadcast _ _ _ => Option Nat
  | .sendTransaction _ _ _ => Option Nat
  | .waitForTransactionReceipt _ _ _ => Option TxStatus
  | .getTransaction _ _ => Option Tx

/-- The fate of a call: carried out and answered, carried out with the answer
lost on the way, or not carried out. -/
inductive Fate where
  | ok
  | lost
  | refused
  deriving DecidableEq, Repr

inductive Event where
  | tick (milliseconds : Nat)
  | postDeposit (id : Nat) (network : Network) (snowsideAddress : Text)
  | postWithdrawal (id : Nat) (body : Api.WithdrawBody)
  | receive (network : Network) (address : Text) (value : Nat)
  | mineBlock (network : Network) (points : List OutPoint)
  | transact (network : Network) (sender recipient value : Nat) (input : Text)
  | mineTx (network : Network) (hash : Nat) (success : Bool)

namespace World

variable (config : Config)

def happen : Event → World → Option World
  | .tick milliseconds, world => some { world with clock := world.clock + milliseconds }
  | .postDeposit id network snowsideAddress, world =>
      (Api.createDeposit id world.clock network snowsideAddress world.deposits).toOption.map
        fun deposits => { world with deposits }
  | .postWithdrawal id body, world =>
      (Api.createWithdrawal config.readBack id world.clock body world.withdrawals).toOption.map
        fun withdrawals => { world with withdrawals }
  | .receive network address value, world =>
      some (world.setL1 network ((world.l1 network).receive address value))
  | .mineBlock network points, world => some (world.setL1 network ((world.l1 network).mineBlock points))
  | .transact network sender recipient value input, world =>
      some (world.setL2 network ((world.l2 network).submit { hash := 0, sender, recipient, value, input }))
  | .mineTx network hash success, world =>
      ((world.l2 network).mine hash success).map fun chain => world.setL2 network chain

/-- A call that only reads answers or fails. -/
def read {α : Type} (answer : α) (world : World) : Fate → Option (Option α × World)
  | .ok => some (some answer, world)
  | .lost => some (none, world)
  | .refused => some (none, world)

/-- A call that changes the world: its effect, and then its answer or none. An
effect the service does not admit leaves only the refusal. -/
def write {α : Type} (effect : Option (α × World)) (world : World) : Fate → Option (Option α × World)
  | .ok => effect.map fun done => (some done.1, done.2)
  | .lost => effect.map fun done => (none, done.2)
  | .refused => some (none, world)

theorem read_eq {α : Type} {answer : α} {world : World} {fate : Fate} {reply : Option α}
    {after : World}
    (answered : read answer world fate = some (reply, after)) :
    after = world ∧ (reply = some answer ∨ reply = none) := by
  cases fate <;> cases answered <;> simp

/-- A write is carried out, with or without an answer, or refused. -/
theorem write_eq {α : Type} {effect : Option (α × World)} {world : World} {fate : Fate} {reply : Option α}
    {after : World}
    (answered : write effect world fate = some (reply, after)) :
    (∃ done, effect = some done ∧ after = done.2 ∧
      ((fate = .ok ∧ reply = some done.1) ∨ (fate = .lost ∧ reply = none))) ∨
    (fate = .refused ∧ after = world ∧ reply = none) := by
  cases fate with
  | ok =>
    obtain ⟨done, present, same⟩ := Option.map_eq_some_iff.mp answered
    cases same
    exact .inl ⟨done, present, rfl, .inl ⟨rfl, rfl⟩⟩
  | lost =>
    obtain ⟨done, present, same⟩ := Option.map_eq_some_iff.mp answered
    cases same
    exact .inl ⟨done, present, rfl, .inr ⟨rfl, rfl⟩⟩
  | refused =>
    cases answered
    exact .inr ⟨rfl, rfl, rfl⟩

def sendTransaction (network : Network) (data : Text) (note : MintNote) (world : World) :
    Option (Nat × World) :=
  match config.minter, callBytes data with
  | some sender, some _ =>
      let chain := world.l2 network
      some (chain.txs.length, world.setL2 network (chain.submit
        { hash := 0, sender, recipient := nativeMinter, value := 0, input := data, mint := some note }))
  | _, _ => none

/-- The receipt of a transaction that is no longer waiting. -/
def receipt (network : Network) (hash : Nat) (world : World) : Option TxStatus :=
  ((world.l2 network).find hash).bind fun tx => if tx.status = .pending then none else some tx.status

def perform : (call : Call) → Fate → World → Option (Reply call × World)
  | .checkin, fate, world => write (some ((), { world with lastCheckin := some world.clock })) world fate
  | .pendingDeposits, fate, world => read (Api.pendingDeposits world.deposits) world fate
  | .patchDeposit id patch, fate, world =>
      write ((Api.patchDeposit id world.clock patch world.deposits).toOption.map
        fun deposits => ((), { world with deposits })) world fate
  | .fundedDeposits, fate, world => read (Api.fundedDeposits world.deposits) world fate
  | .pendingWithdrawals, fate, world => read (Api.pendingWithdrawals world.withdrawals) world fate
  | .patchWithdrawal id patch, fate, world =>
      write ((Api.patchWithdrawal id world.clock patch world.withdrawals).toOption.map
        fun withdrawals => ((), { world with withdrawals })) world fate
  | .now (.change network), .ok, world =>
      some (world.clock, { world with changes := world.changes ++ [(network, clockIndex world.clock)] })
  | .now _, .ok, world => some (world.clock, world)
  | .now _, _, _ => none
  | .tipHeight network, fate, world => read (world.l1 network).tip world fate
  | .utxos network address, fate, world => read ((world.l1 network).utxos address) world fate
  | .broadcast network tx withdrawal, fate, world =>
      write (((world.l1 network).broadcast withdrawal tx).map
        fun ledger => ((world.l1 network).nextTxid, world.setL1 network ledger)) world fate
  | .sendTransaction network data note, fate, world =>
      write (sendTransaction config network data note world) world fate
  -- The wait has no answer while the transaction is pending.
  | .waitForTransactionReceipt network hash _, .ok, world =>
      (receipt network hash world).map fun status => (some status, world)
  | .waitForTransactionReceipt _ _ _, _, world => some (none, world)
  | .getTransaction network hash, .ok, world => some ((world.l2 network).getTransaction hash, world)
  | .getTransaction _ _, _, world => some (none, world)

end World

end Snowside
