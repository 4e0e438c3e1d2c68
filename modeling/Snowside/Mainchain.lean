import Snowside.Api.Tables

/-! The L1 side as the federation meets it through Esplora: unspent outputs,
confirmations, and the transactions it broadcasts.

Addresses stand for the scripts they encode, in their canonical spelling. Only
the federation spends from its own addresses, and blocks are never undone. All
coins together are fewer than 2^53 satoshis, so JavaScript adds them exactly.
-/

set_option autoImplicit false

namespace Snowside

structure OutPoint where
  txid : Nat
  vout : Nat
  deriving DecidableEq, Repr

/-- What made an output: somebody else's transaction, or one of the two outputs
of a withdrawal. No code reads this. -/
inductive Origin where
  | received
  | payment
  | change
  deriving DecidableEq, Repr

structure Output where
  point : OutPoint
  address : Text
  value : Nat
  /-- The block height, once in a block. -/
  height : Option Nat
  origin : Origin
  deriving DecidableEq, Repr

/-- An input of a withdrawal: the address is that of the signing key, and the
signature commits to the value. -/
structure Input where
  point : OutPoint
  address : Text
  value : Nat
  deriving DecidableEq, Repr

structure PayoutTx where
  inputs : List Input
  address : Text
  target : Nat
  change : Option (Text × Nat)
  deriving DecidableEq, Repr

namespace PayoutTx

def inputTotal (tx : PayoutTx) : Nat := (tx.inputs.map Input.value).sum

def changeValue (tx : PayoutTx) : Nat := (tx.change.map Prod.snd).getD 0

/-- The miner's fee, what the outputs leave of the inputs. -/
def fee (tx : PayoutTx) : Nat := tx.inputTotal - (tx.target + tx.changeValue)

def outputs (tx : PayoutTx) (txid : Nat) : List Output :=
  { point := ⟨txid, 0⟩, address := tx.address, value := tx.target, height := none, origin := .payment } ::
    (tx.change.map fun change =>
      { point := ⟨txid, 1⟩, address := change.1, value := change.2, height := none, origin := .change }).toList

def spends (tx : PayoutTx) (output : Output) : Prop := output.point ∈ tx.inputs.map Input.point

instance (tx : PayoutTx) (output : Output) : Decidable (tx.spends output) :=
  inferInstanceAs (Decidable (_ ∈ _))

end PayoutTx

/-- A withdrawal transaction that the network accepted, with the row it pays. -/
structure Payout where
  withdrawal : Withdrawal
  txid : Nat
  tx : PayoutTx
  deriving DecidableEq, Repr

/-- One L1 network. `spent` and `payouts` are its history. -/
structure Ledger where
  tip : Nat
  nextTxid : Nat
  unspent : List Output
  spent : List Output
  payouts : List Payout
  deriving DecidableEq, Repr

namespace Ledger

def initial (tip : Nat) : Ledger := ⟨tip, 0, [], [], []⟩

/-- Esplora's `/address/{address}/utxo`, mempool included. -/
def utxos (ledger : Ledger) (address : Text) : List Output :=
  ledger.unspent.filter fun output => output.address = address

/-- Somebody pays an address. -/
def receive (ledger : Ledger) (address : Text) (value : Nat) : Ledger :=
  { ledger with
    nextTxid := ledger.nextTxid + 1
    unspent := ledger.unspent ++
      [{ point := ⟨ledger.nextTxid, 0⟩, address, value, height := none, origin := .received }] }

def confirmOutput (points : List OutPoint) (height : Nat) (output : Output) : Output :=
  if output.height = none ∧ output.point ∈ points then { output with height := some height } else output

/-- A new block with some of the waiting outputs. -/
def mineBlock (ledger : Ledger) (points : List OutPoint) : Ledger :=
  { ledger with
    tip := ledger.tip + 1
    unspent := ledger.unspent.map (confirmOutput points (ledger.tip + 1)) }

/-- What a node checks of a withdrawal: distinct unspent inputs of the signing
keys and the values signed for, covering the outputs. -/
def Accepts (ledger : Ledger) (tx : PayoutTx) : Prop :=
  (tx.inputs.map Input.point).Nodup ∧
    (∀ input ∈ tx.inputs, ∃ output ∈ ledger.unspent,
      output.point = input.point ∧ output.address = input.address ∧ output.value = input.value) ∧
    tx.target + tx.changeValue ≤ tx.inputTotal

instance (ledger : Ledger) (tx : PayoutTx) : Decidable (ledger.Accepts tx) :=
  inferInstanceAs (Decidable (_ ∧ _ ∧ _))

def broadcast (ledger : Ledger) (withdrawal : Withdrawal) (tx : PayoutTx) : Option Ledger :=
  if ledger.Accepts tx then
    some { ledger with
      nextTxid := ledger.nextTxid + 1
      unspent := ledger.unspent.filter (fun output => ¬ tx.spends output) ++ tx.outputs ledger.nextTxid
      spent := ledger.spent ++ ledger.unspent.filter fun output => tx.spends output
      payouts := ledger.payouts ++ [⟨withdrawal, ledger.nextTxid, tx⟩] }
  else none

end Ledger

end Snowside
