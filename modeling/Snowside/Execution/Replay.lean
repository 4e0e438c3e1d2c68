import Snowside.Execution.Processor

/-! What a run of transactions depends on: neither the hash of the block nor what the header
holds apart from its environment and its verdicts.
-/

set_option autoImplicit false

namespace Snowside.Execution

open Checked Stateful
open Precompile (Hash)
open Interpreter (applyMessage revertToSnapshot setTxContext snapshot txIndex)

/-- Headers that transactions cannot tell apart. -/
structure Header.SameBlock (first second : Header) : Prop where
  number : second.number = first.number
  time : second.time = first.time
  parentHash : second.parentHash = first.parentHash
  coinbase : second.coinbase = first.coinbase
  difficulty : second.difficulty = first.difficulty
  baseFee : second.baseFee = first.baseFee
  excessBlobGas : second.excessBlobGas = first.excessBlobGas
  gasLimit : second.gasLimit = first.gasLimit
  parentBeaconRoot : second.parentBeaconRoot = first.parentBeaconRoot

theorem Header.SameBlock.refl (header : Header) : header.SameBlock header := ⟨rfl, rfl, rfl, rfl, rfl, rfl, rfl, rfl, rfl⟩

/-- Their contexts have one environment. -/
theorem toBlockEnv_of_sameBlock {T ReaderError TipError : Type} {chain : Chain T ReaderError TipError} {first second : Header}
    (same : first.SameBlock second) : (chain.context second).toBlockEnv = (chain.context first).toBlockEnv := by
  rw [Chain.context, Chain.context, toBlockEnv_newEVMBlockContext, toBlockEnv_newEVMBlockContext]
  exact toBlockEnv_newBlockContext same.number same.parentHash same.coinbase same.time same.difficulty same.baseFee
    same.excessBlobGas same.gasLimit [] []

/-- States from which the next transaction starts alike. -/
def Alike {S TxError : Type} [Interpreter S TxError] (first second : S) : Prop :=
  ∀ hash index, setTxContext hash index first = setTxContext hash index second

section

variable {S T TxError : Type} [Interpreter S TxError] [Transaction T TxError] {encoding : Encoding T} {config : Config}

omit [Transaction T TxError] in
/-- The message with the verdicts of the current transaction. -/
theorem perform_applyMessageIn (context : BlockContext) (message : Message) (progress : Progress S) :
    perform (applyMessageIn encoding context message) progress =
      let applied := applyMessage context.toBlockEnv
        ((context.predicateResults encoding.codec).map fun results => results.get (Interpreter.txHash progress.db)) message
        progress.gasPool progress.db
      (applied.1, { progress with gasPool := applied.2.1, db := applied.2.2 }) := rfl

/-- Contexts with one environment and one verdict. -/
theorem applyTransaction_congr {context other : BlockContext} {progress : Progress S} (message : Message) (blockNumber : Int)
    (blockHash : Hash) (tx : T) (env : context.toBlockEnv = other.toBlockEnv)
    (verdicts : (context.predicateResults encoding.codec).map (fun results => results.get (Interpreter.txHash progress.db)) =
      (other.predicateResults encoding.codec).map fun results => results.get (Interpreter.txHash progress.db)) :
    perform (applyTransaction encoding config message blockNumber blockHash tx context) progress =
      perform (applyTransaction encoding config message blockNumber blockHash tx other) progress := by
  have first : perform (applyMessageIn encoding context message) progress =
      perform (applyMessageIn encoding other message) progress := by
    rw [perform_applyMessageIn, perform_applyMessageIn, env, verdicts]
  have fee : context.blobBaseFee = other.blobBaseFee := congrArg BlockEnv.blobBaseFee env
  unfold applyTransaction
  simp only [fee]
  rcases ended : perform (applyMessageIn encoding other message) progress with ⟨result, after⟩
  rw [ended] at first
  cases result with
  | error error => rw [perform_bind_error first, perform_bind_error ended]
  | ok value => rw [perform_bind_ok first, perform_bind_ok ended]

/-- The hash of the block is written to the receipt only. -/
theorem applyTransaction_inBlock (message : Message) (blockNumber : Int) (blockHash other : Hash) (tx : T)
    (context : BlockContext) (progress : Progress S) :
    perform (applyTransaction encoding config message blockNumber blockHash tx context) progress =
      ((perform (applyTransaction encoding config message blockNumber other tx context) progress).1.map (·.inBlock blockHash),
        (perform (applyTransaction encoding config message blockNumber other tx context) progress).2) := by
  unfold applyTransaction
  rcases ended : perform (applyMessageIn encoding context message) progress with ⟨result, after⟩
  cases result with
  | error error =>
    rw [perform_bind_error ended, perform_bind_error ended]
    rfl
  | ok result =>
    rw [perform_bind_ok ended, perform_bind_ok ended]
    rcases settled : perform (settle config blockNumber) after with ⟨root, final⟩
    cases root with
    | error error =>
      rw [perform_bind_error settled, perform_bind_error settled]
      rfl
    | ok root =>
      rw [perform_bind_ok settled, perform_bind_ok settled, perform_modify_bind, perform_modify_bind]
      refine Prod.ext ?_ rfl
      refine congrArg Except.ok ?_
      simp [Receipt.inBlock, getLogs, Function.comp_def]

/-- A transaction without its blobs is executed as with them. -/
theorem applyTransaction_withoutBlobTxSidecar [LawfulTransaction T] (message : Message) (blockNumber : Int) (blockHash : Hash)
    (tx : T) (context : BlockContext) :
    (applyTransaction encoding config message blockNumber blockHash (Transaction.withoutBlobTxSidecar tx) context :
      Action TxError (Progress S) Receipt) = applyTransaction encoding config message blockNumber blockHash tx context := by
  unfold applyTransaction
  simp only [LawfulTransaction.hash_withoutBlobTxSidecar, LawfulTransaction.type_withoutBlobTxSidecar,
    LawfulTransaction.nonce_withoutBlobTxSidecar, LawfulTransaction.blobHashes_withoutBlobTxSidecar]

/-- The receipt names the place of its transaction. -/
theorem applyTransaction_placed [LawfulInterpreter S] {message : Message} {blockNumber : Int} {blockHash : Hash} {tx : T}
    {context : BlockContext} {progress after : Progress S} {receipt : Receipt}
    (applied : perform (applyTransaction encoding config message blockNumber blockHash tx context) progress = (.ok receipt, after)) :
    receipt.transactionIndex = txIndex progress.db ∧ receipt.blockNumber = blockNumber := by
  obtain ⟨result, middle, executed, applied⟩ := perform_bind_eq_ok.mp applied
  obtain ⟨root, settled, settles, applied⟩ := perform_bind_eq_ok.mp applied
  rw [perform_modify_bind] at applied
  cases applied
  refine ⟨?_, rfl⟩
  have kept : txIndex settled.db = txIndex middle.db := by
    unfold settle perform at settles
    by_cases byzantium : config.isByzantium blockNumber
    · cases (Prod.mk.inj ((if_pos byzantium).symm.trans settles)).2
      exact LawfulInterpreter.txIndex_finalise _
    · cases (Prod.mk.inj ((if_neg byzantium).symm.trans settles)).2
      exact LawfulInterpreter.txIndex_intermediateRoot _ _
  rw [perform_applyMessageIn] at executed
  cases (Prod.mk.inj executed).2
  exact kept.trans (LawfulInterpreter.txIndex_applyMessage _ _ _ _ _)

/-- A transaction that fails can be reverted. -/
theorem applyTransaction_reverts [LawfulInterpreter S] {message : Message} {blockNumber : Int} {blockHash : Hash} {tx : T}
    {context : BlockContext} {progress after : Progress S} {error : TxError}
    (failed : perform (applyTransaction encoding config message blockNumber blockHash tx context) progress = (.error error, after)) :
    revertToSnapshot (snapshot progress.db) after.db = progress.db := by
  unfold applyTransaction at failed
  rcases ended : perform (applyMessageIn encoding context message) progress with ⟨result, middle⟩
  cases result with
  | error error =>
    rw [perform_bind_error ended] at failed
    cases failed
    rw [perform_applyMessageIn] at ended
    obtain ⟨refused, rfl⟩ := Prod.mk.inj ended
    exact LawfulInterpreter.reverts _ _ _ _ _ _ refused
  | ok result =>
    rw [perform_bind_ok ended] at failed
    have settles : ∃ root settled, perform (settle config blockNumber : Action TxError (Progress S) (Option Hash)) middle =
        (.ok root, settled) := by
      unfold settle perform
      by_cases byzantium : config.isByzantium blockNumber
      · exact ⟨_, _, if_pos byzantium⟩
      · exact ⟨_, _, if_neg byzantium⟩
    obtain ⟨root, settled, settles⟩ := settles
    rw [perform_bind_ok settles] at failed
    cases failed

end

/-! ## One transaction after another -/

section

variable {S T TxError ReaderError TipError : Type} [Interpreter S TxError] [Transaction T TxError]
  {chain : Chain T ReaderError TipError} {header : Header} {blockHash : Hash} {context : BlockContext}

theorem processTransactions_cons {index : Nat} {tx : T} {rest : List T} {progress final : Progress S} {receipts : List Receipt} :
    perform (chain.processTransactions header blockHash context index (tx :: rest)) progress = (.ok receipts, final) ↔
      ∃ message receipt middle others, Transaction.toMessage header.number header.time header.baseFee tx = .ok message ∧
        perform (applyTransaction chain.encoding chain.config message header.number blockHash tx context)
          { progress with db := setTxContext (Transaction.hash tx) index progress.db } = (.ok receipt, middle) ∧
        perform (chain.processTransactions header blockHash context (index + 1) rest) middle = (.ok others, final) ∧
        receipts = receipt :: others := by
  rw [Chain.processTransactions]
  constructor
  · intro processed
    obtain ⟨message, _, checked, processed⟩ := perform_bind_eq_ok.mp processed
    obtain ⟨translated, rfl⟩ := Prod.mk.inj checked
    rw [perform_modify_bind] at processed
    obtain ⟨receipt, middle, applied, processed⟩ := perform_bind_eq_ok.mp processed
    obtain ⟨others, _, rest, ended⟩ := perform_bind_eq_ok.mp processed
    obtain ⟨applies, rfl⟩ := Prod.mk.inj applied
    cases ended
    exact ⟨message, receipt, _, others, mapError_eq_ok.mp translated, Prod.ext (mapError_eq_ok.mp applies) rfl, rest, rfl⟩
  · rintro ⟨message, receipt, middle, others, translated, applied, processed, rfl⟩
    refine perform_bind_eq_ok.mpr ⟨message, progress, Prod.ext (mapError_eq_ok.mpr translated) rfl, ?_⟩
    rw [perform_modify_bind]
    refine perform_bind_eq_ok.mpr ⟨receipt, middle, ?_, perform_bind_eq_ok.mpr ⟨others, final, processed, rfl⟩⟩
    rw [perform_wrap, applied]
    rfl

/-- One more transaction at the end. -/
theorem processTransactions_append {index : Nat} {txs : List T} {tx : T} {progress middle final : Progress S}
    {receipts : List Receipt} {receipt : Receipt} {message : Message}
    (earlier : perform (chain.processTransactions header blockHash context index txs) progress = (.ok receipts, middle))
    (translated : Transaction.toMessage header.number header.time header.baseFee tx = .ok message)
    (applied : perform (applyTransaction chain.encoding chain.config message header.number blockHash tx context)
      { middle with db := setTxContext (Transaction.hash tx) (index + txs.length) middle.db } = (.ok receipt, final)) :
    perform (chain.processTransactions header blockHash context index (txs ++ [tx])) progress =
      (.ok (receipts ++ [receipt]), final) := by
  induction txs generalizing index progress receipts with
  | nil =>
    cases earlier
    exact processTransactions_cons.mpr ⟨message, receipt, final, [], translated, applied, rfl, rfl⟩
  | cons first rest ih =>
    obtain ⟨message', receipt', next, others, translated', applied', processed, rfl⟩ := processTransactions_cons.mp earlier
    rw [List.length_cons, ← Nat.add_assoc, Nat.add_right_comm] at applied
    exact processTransactions_cons.mpr ⟨message', receipt', next, _, translated', applied', ih processed applied, rfl⟩

end

end Snowside.Execution
