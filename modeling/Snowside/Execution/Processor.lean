import Snowside.Execution.Transition

/-! The processor of blocks, and the validation of the state that it comes to. -/

set_option autoImplicit false

namespace Snowside.Execution

open Checked Stateful
open Evm (Address Bytes)
open Precompile (Hash)
open Interpreter (setTxContext intermediateRoot)

structure Block (T : Type) where
  header : Header
  transactions : List T

/-- What the node runs blocks on. -/
structure Chain (T ReaderError TipError : Type) where
  encoding : Encoding T
  config : Config
  getHeader : Hash → Int → Option Header
  reader : Evm.ChainHeaderReader ReaderError
  effectiveGasTip : T → Int → Except TipError Int
  engine : Evm.DummyEngine

inductive ProcessError (TxError ReaderError TipError : Type) where
  | upgrades (cause : Upgrades.ActivationError)
  | transaction (index : Nat) (hash : Hash) (cause : TxError)
  | finalize (cause : Evm.FinalizeError ReaderError TipError)

inductive ValidationError where
  | invalidGasUsed (remote computed : UInt64)
  | invalidBloom (remote computed : Bytes)
  | invalidReceiptRoot (remote computed : Hash)
  | invalidMerkleRoot (remote computed : Hash)
  deriving DecidableEq, Repr

def Block.toEvm {T : Type} (block : Block T) : Evm.Block T := ⟨block.header.toHeader, block.transactions⟩

/-- What the engine reads of a receipt. -/
def Receipt.toEvm (receipt : Receipt) : Evm.Receipt := ⟨receipt.gasUsed⟩

namespace Chain

variable {S T TxError ReaderError TipError : Type} [Interpreter S TxError] [Transaction T TxError]
  (chain : Chain T ReaderError TipError)

/-- The context of a finished header. -/
def context (header : Header) : BlockContext := newEVMBlockContext chain.encoding chain.getHeader header none

def applyUpgrades (parent header : Header) : Action Upgrades.ActivationError S Unit :=
  Upgrades.applyUpgrades chain.config.isEIP158 chain.config.upgrades (some parent.time) ⟨header.number, header.time⟩

def storeBeaconRoot (header : Header) (db : S) : S :=
  header.parentBeaconRoot.elim db fun beaconRoot => processBeaconBlockRoot beaconRoot (chain.context header) db

/-- Before the transactions. -/
def prepareToProcess (parent header : Header) : Action Upgrades.ActivationError S Unit := do
  chain.applyUpgrades parent header
  modify (chain.storeBeaconRoot header)

/-- Of a header and its hash, from an index on. -/
def processTransactions (header : Header) (blockHash : Hash) (context : BlockContext) :
    Nat → List T → Action (ProcessError TxError ReaderError TipError) (Progress S) (List Receipt)
  | _, [] => return []
  | index, tx :: rest => do
      let failed := ProcessError.transaction index (Transaction.hash tx)
      let message ← check ((Transaction.toMessage header.number header.time header.baseFee tx).mapError failed)
      modify fun progress => { progress with db := setTxContext (Transaction.hash tx) index progress.db }
      let receipt ← wrap failed (applyTransaction chain.encoding chain.config message header.number blockHash tx context)
      let receipts ← processTransactions header blockHash context (index + 1) rest
      return receipt :: receipts

/-- The receipts and logs of a block, with the gas that it used and the state that it led to. -/
def process (block : Block T) (parent : Header) :
    Action (ProcessError TxError ReaderError TipError) (Progress S) (List Receipt × List Log) := do
  let header := block.header
  zoom Progress.db (fun db progress => { progress with db }) (wrap .upgrades (chain.prepareToProcess parent header))
  let receipts ← chain.processTransactions header (chain.encoding.headerHash header) (chain.context header) 0 block.transactions
  check ((chain.engine.finalize chain.config.upgrades.networkUpgrades chain.reader chain.effectiveGasTip block.toEvm
    parent.toHeader (receipts.map Receipt.toEvm)).mapError .finalize)
  return (receipts, receipts.flatMap Receipt.logs)

/-- The root of a state after a block. -/
def rootOf (header : Header) (db : S) : Hash := (intermediateRoot (chain.config.isEIP158 header.number) db).1

def validateState (block : Block T) (db : S) (receipts : List Receipt) (usedGas : UInt64) : Except ValidationError Unit := do
  let header := block.header
  refuse (header.gasUsed ≠ usedGas) (.invalidGasUsed header.gasUsed usedGas)
  let rbloom := chain.encoding.createBloom (receipts.flatMap Receipt.bloomed)
  refuse (rbloom ≠ header.bloom) (.invalidBloom header.bloom rbloom)
  let receiptSha := chain.encoding.deriveReceiptSha (receipts.map Receipt.consensus)
  refuse (receiptSha ≠ header.receiptHash) (.invalidReceiptRoot header.receiptHash receiptSha)
  let root := chain.rootOf header db
  refuse (header.root ≠ root) (.invalidMerkleRoot header.root root)

end Chain

/-- Before its transactions, on a state. -/
def Block.start {S T : Type} (block : Block T) (db : S) : Progress S := ⟨block.header.gasLimit, db, 0⟩

end Snowside.Execution
