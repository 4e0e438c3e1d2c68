import Snowside.Execution.Processor

/-! The worker that builds blocks: it executes transactions as it chooses them. -/

set_option autoImplicit false

namespace Snowside.Execution

open Checked Stateful
open Evm (Address Bytes)
open Interpreter (setTxContext snapshot revertToSnapshot intermediateRoot)
open Precompile (Hash)
open Upgrades (PredicateContext WarpLibrary)

/-- The transactions that the pool offers, each once. -/
structure Pending (T : Type) {TxError : Type} [Transaction T TxError] where
  transactions : List T
  distinct : (transactions.map Transaction.hash).Nodup

/-- A block under construction. The gas used is that of its header. -/
structure Environment (S T : Type) where
  state : S
  gasPool : UInt64
  header : Header
  txs : List T := []
  receipts : List Receipt := []
  tcount : Nat := 0
  blobs : Nat := 0
  predicateResults : BlockResults := ∅

inductive WorkError (TxError ReaderError : Type) where
  | reader (cause : ReaderError)
  | fault (cause : Evm.Fault)
  | upgrades (cause : Upgrades.ActivationError)
  | predicates (cause : PredicateCheckError TxError)
  | marshalPredicateResults
  | execution (cause : TxError)
  | maxDataBlobs
  /-- Panic: a blob transaction without blobs, or a header without blob gas. -/
  | panicked

def maxBlobGasPerBlock : Nat := 6 * blobTxBlobGasPerBlob

/-- A block with what the worker obtained while building it. -/
structure Sealed (S T : Type) where
  block : Block T
  receipts : List Receipt
  state : S

structure Worker (ValidatorSet : Type) where
  library : WarpLibrary ValidatorSet
  acp226 : Evm.Acp226
  coinbase : Address
  hasBlock : Hash → Int → Bool

namespace Environment

variable {S T : Type}

/-- What transactions work on. -/
def progress (env : Environment S T) : Progress S := ⟨env.gasPool, env.state, env.header.gasUsed⟩

def advance (progress : Progress S) (env : Environment S T) : Environment S T :=
  { env with
    gasPool := progress.gasPool
    state := progress.db
    header := { env.header with gasUsed := progress.usedGas } }

end Environment

section

variable {S T TxError ReaderError TipError ValidatorSet : Type} [Interpreter S TxError] [Transaction T TxError]
  (chain : Chain T ReaderError TipError)

namespace Chain

/-- Before the transactions, as the worker has it. -/
def prepareToBuild (parent header : Header) : Action Upgrades.ActivationError S Unit := do
  modify (chain.storeBeaconRoot header)
  chain.applyUpgrades parent header

/-- `ApplyTransaction`, to a header under construction. -/
def applyTransaction (context : BlockContext) (header : Header) (tx : T) : Action TxError (Progress S) Receipt := do
  let message ← check (Transaction.toMessage header.number header.time header.baseFee tx)
  Execution.applyTransaction chain.encoding chain.config message header.number (chain.encoding.headerHash header) tx context

end Chain

namespace Worker

variable (worker : Worker ValidatorSet) (predicateContext : Option (PredicateContext ValidatorSet))

/-- Always the zero hash. -/
def beaconRoot : Hash := 0

def rules (header : Header) : Rules ValidatorSet := .construct worker.library chain.config.upgrades header.time

/-- The context of a transaction: from Durango on with the results of its predicates and of those before it. -/
def txContext (tx : T) : Action (WorkError TxError ReaderError) (Environment S T) BlockContext := do
  let env ← get
  let header := env.header
  if (worker.rules chain header).isDurango then
    let results ← check ((checkTxPredicates (worker.rules chain header) header.number header.time predicateContext tx).mapError
      .predicates)
    let predicateResults := env.predicateResults.set (Transaction.hash tx) results
    modify fun env => { env with predicateResults }
    let predicateResultsBytes ← check (need .marshalPredicateResults (chain.encoding.codec.bytes predicateResults))
    return newEVMBlockContextWithPredicateResults chain.encoding chain.getHeader header (some header.coinbase)
      predicateResultsBytes
  else return newEVMBlockContext chain.encoding chain.getHeader header (some header.coinbase)

/-- A transaction that fails is reverted, with the results of its predicates. -/
def execute (context : BlockContext) (tx : T) : Action (WorkError TxError ReaderError) (Environment S T) Receipt :=
  ExceptT.mk fun env =>
    match perform (chain.applyTransaction context env.header tx) env.progress with
    | (.ok receipt, progress) => (.ok receipt, env.advance progress)
    | (.error cause, progress) =>
        (.error (.execution cause),
          { env with
            state := revertToSnapshot (snapshot env.state) progress.db
            predicateResults := env.predicateResults.set (Transaction.hash tx) ∅ })

def applyTransaction (tx : T) : Action (WorkError TxError ReaderError) (Environment S T) Receipt := do
  let context ← worker.txContext chain predicateContext tx
  execute chain context tx

def commitBlobTransaction (tx : T) : Action (WorkError TxError ReaderError) (Environment S T) Unit := do
  let blobs ← check (need .panicked (Transaction.blobTxSidecar tx))
  let env ← get
  check (refuse (maxBlobGasPerBlock < (env.blobs + blobs) * blobTxBlobGasPerBlob) .maxDataBlobs)
  let receipt ← worker.applyTransaction chain predicateContext tx
  let env ← get
  let blobGasUsed ← check (need .panicked env.header.blobGasUsed)
  set { env with
    txs := env.txs ++ [Transaction.withoutBlobTxSidecar tx]
    receipts := env.receipts ++ [receipt]
    blobs := env.blobs + blobs
    header := { env.header with blobGasUsed := some (blobGasUsed + receipt.blobGasUsed) } }

def commitTransaction (tx : T) : Action (WorkError TxError ReaderError) (Environment S T) Unit :=
  if Transaction.type tx = blobTxType then worker.commitBlobTransaction chain predicateContext tx
  else do
    let receipt ← worker.applyTransaction chain predicateContext tx
    modify fun env => { env with txs := env.txs ++ [tx], receipts := env.receipts ++ [receipt] }

/-- Which transactions are tried is the choice of the pool: those that fail are left out. -/
def commitTransactions : List T → Environment S T → Except (WorkError TxError ReaderError) (Environment S T)
  | [], env => .ok env
  | tx :: rest, env =>
      let prepared := { env with state := setTxContext (Transaction.hash tx) env.tcount env.state }
      match perform (worker.commitTransaction chain predicateContext tx) prepared with
      | (.ok _, after) => commitTransactions rest { after with tcount := after.tcount + 1 }
      | (.error .panicked, _) => .error .panicked
      | (.error _, after) => commitTransactions rest after

/-- A new header with the fields of Cancun, after `Prepare`. -/
def completeHeader (parent : Header) (header : Evm.Header) : Except Evm.Fault Header := do
  let base : Header := { header with parentHash := chain.encoding.headerHash parent, difficulty := 1 }
  if chain.config.isCancun header.number header.time then
    let excessBlobGas ←
      if chain.config.isCancun parent.number parent.time then do
        let excess ← need .nilPointer parent.excessBlobGas
        let used ← need .nilPointer parent.blobGasUsed
        pure (chain.encoding.calcExcessBlobGas excess used)
      else pure (chain.encoding.calcExcessBlobGas 0 0)
    return { base with blobGasUsed := some 0, excessBlobGas := some excessBlobGas, parentBeaconRoot := some beaconRoot }
  else return base

/-- On the state of the parent. -/
def createCurrentEnvironment (feeConfig : Evm.FeeConfig) (parent header : Header) (db : S) :
    Except Evm.Fault (Environment S T) := do
  -- `GasCapacity`.
  let capacity ← Evm.gasLimit chain.config.upgrades.networkUpgrades feeConfig parent.toHeader header.timeMS
  return { state := db, gasPool := capacity, header := header }

/-- The work on a new header: the transactions follow the beacon root and the upgrades. -/
def fill (parent : Header) (db : S) (pending : Pending T) (header : Evm.Header) :
    Except (WorkError TxError ReaderError) (Environment S T) := do
  let feeConfig ← (chain.reader.getFeeConfigAt parent.toHeader).mapError .reader
  let header ← (completeHeader chain parent header).mapError .fault
  let env ← (createCurrentEnvironment chain feeConfig parent header db).mapError .fault
  let prepared := perform (chain.prepareToBuild parent header) env.state
  prepared.1.mapError .upgrades
  worker.commitTransactions chain predicateContext pending.transactions { env with state := prepared.2 }

/-- What the header and the engine take of the work. -/
def work (env : Environment S T) : Except (WorkError TxError ReaderError) (Evm.Work T) := do
  let predicateResults ←
    if (worker.rules chain env.header).isDurango then
      need .marshalPredicateResults (chain.encoding.codec.bytes env.predicateResults)
    else pure []
  return { gasUsed := env.header.gasUsed, txs := env.txs, receipts := env.receipts.map Receipt.toEvm, predicateResults }

/-- The worker as the rules of headers see it. -/
def onHeaders (parent : Header) (db : S) (pending : Pending T) : Evm.Worker T (WorkError TxError ReaderError) where
  engine := chain.engine
  acp226 := worker.acp226
  coinbase := worker.coinbase
  fill header := do
    let env ← worker.fill chain predicateContext parent db pending header
    worker.work chain env
  hasBlock _ := false

/-- The receipts in their block. -/
def handleResult (block : Block T) (receipts : List Receipt) : List Receipt :=
  receipts.mapIdx fun index receipt =>
    { receipt.inBlock (chain.encoding.headerHash block.header) with
      blockNumber := block.header.number
      transactionIndex := index }

def commit (parent : Header) (db : S) (pending : Pending T) (env : Environment S T) :
    Except (Evm.WorkerError ReaderError TipError (WorkError TxError ReaderError)) (Sealed S T) := do
  let work ← (worker.work chain env).mapError .work
  let assembled ← (worker.onHeaders chain predicateContext parent db pending).commit chain.config.upgrades.networkUpgrades
    chain.reader chain.effectiveGasTip env.header.toHeader parent.toHeader work
  let header : Header :=
    { env.header with
      toHeader := assembled.header
      root := chain.rootOf env.header env.state
      txHash := chain.encoding.deriveTxSha env.txs
      receiptHash := chain.encoding.deriveReceiptSha (env.receipts.map Receipt.consensus)
      bloom := chain.encoding.createBloom (env.receipts.flatMap Receipt.bloomed) }
  let block : Block T := ⟨header, env.txs⟩
  refuse (worker.hasBlock (chain.encoding.headerHash header) header.number) .duplicateBlock
  return ⟨block, handleResult chain block env.receipts, env.state⟩

def commitNewWork (parent : Header) (now : Evm.Clock) (db : S) (pending : Pending T) :
    Except (Evm.WorkerError ReaderError TipError (WorkError TxError ReaderError)) (Sealed S T) := do
  let header ← (worker.onHeaders chain predicateContext parent db pending).newHeader chain.config.upgrades.networkUpgrades
    chain.reader parent.toHeader now
  let env ← (worker.fill chain predicateContext parent db pending header).mapError .work
  worker.commit chain predicateContext parent db pending env

end Worker

end

end Snowside.Execution
