import Snowside.Execution.Attempts
import Snowside.Upgrades.Applied
import Snowside.Upgrades.Replacement

/-! When the processor comes to what the worker came to while it built a block. -/

set_option autoImplicit false

namespace Snowside.Execution

open Checked Stateful
open Evm (Address Bytes)
open Interpreter (setTxContext intermediateRoot)
open Precompile (Hash)
open Upgrades (PredicateContext)

/-! ## Preparation -/

section

variable {S T TxError ReaderError TipError : Type} [Interpreter S TxError] {chain : Chain T ReaderError TipError}
  {parent header other : Header} {db : S}

theorem applyUpgrades_of_sameBlock (same : header.SameBlock other) :
    (chain.applyUpgrades parent other : Action Upgrades.ActivationError S Unit) = chain.applyUpgrades parent header := by
  rw [Chain.applyUpgrades, Chain.applyUpgrades, same.number, same.time]

theorem storeBeaconRoot_of_sameBlock (same : header.SameBlock other) :
    chain.storeBeaconRoot other = (chain.storeBeaconRoot header : S → S) := by
  funext db
  simp only [Chain.storeBeaconRoot, processBeaconBlockRoot, same.parentBeaconRoot, toBlockEnv_of_sameBlock same]

theorem prepareToBuild_of_sameBlock (same : header.SameBlock other) :
    (chain.prepareToBuild parent other : Action Upgrades.ActivationError S Unit) = chain.prepareToBuild parent header := by
  rw [Chain.prepareToBuild, Chain.prepareToBuild, applyUpgrades_of_sameBlock same, storeBeaconRoot_of_sameBlock same]

/-- Without a beacon root the order does not matter. -/
theorem prepare_noBeaconRoot {prepared : S} (none : header.parentBeaconRoot = none)
    (built : perform (chain.prepareToBuild parent header) db = (.ok (), prepared)) :
    perform (chain.prepareToProcess parent header) db = (.ok (), prepared) := by
  have keeps (state : S) : chain.storeBeaconRoot header state = state := by
    rw [Chain.storeBeaconRoot, none]
    rfl
  unfold Chain.prepareToBuild at built
  rw [perform_modify_bind, keeps] at built
  unfold Chain.prepareToProcess
  rw [perform_bind_ok built, perform_modify, keeps]

/-- Nor does it without upgrades. -/
theorem prepare_noUpgrades {prepared : S}
    (none : Upgrades.blockEvents chain.config.upgrades (some parent.time) ⟨header.number, header.time⟩ = [])
    (built : perform (chain.prepareToBuild parent header) db = (.ok (), prepared)) :
    perform (chain.prepareToProcess parent header) db = (.ok (), prepared) := by
  have nothing : (chain.applyUpgrades parent header : Action Upgrades.ActivationError S Unit) = pure () := by
    rw [Chain.applyUpgrades, Upgrades.applyUpgrades_eq_events, none]
    rfl
  unfold Chain.prepareToBuild at built
  rw [nothing, perform_modify_bind, perform_pure] at built
  unfold Chain.prepareToProcess
  rw [nothing, perform_bind_ok (perform_pure () db), perform_modify, (Prod.mk.inj built).2]

end

/-! ## Agreement -/

section

variable {S T TxError ReaderError TipError ValidatorSet : Type} [Interpreter S TxError] [Transaction T TxError]
  (chain : Chain T ReaderError TipError) (parent : Header) (db : S)

/-- The receipts, the gas and the root that the transactions of a block lead to. -/
def Chain.outcome (block : Block T) (prepared : S) : Option (List Receipt × UInt64 × Hash) :=
  match perform (chain.processTransactions block.header (chain.encoding.headerHash block.header) (chain.context block.header) 0
    block.transactions) (block.start prepared) with
  | (.ok receipts, progress) => some (receipts, progress.usedGas, chain.rootOf block.header progress.db)
  | (.error _, _) => none

/-- On the parent's state, the processor comes to the receipts, the logs, the gas and the root
of the worker, and the state is valid. -/
def Sealed.Agrees (built : Sealed S T) : Prop :=
  ∃ progress, perform (chain.process built.block parent) (built.block.start db) =
      (.ok (built.receipts, built.receipts.flatMap Receipt.logs), progress) ∧
    progress.usedGas = built.block.header.gasUsed ∧
    chain.rootOf built.block.header progress.db = built.block.header.root ∧
    chain.validateState built.block progress.db built.receipts progress.usedGas = .ok ()

/-- The call for the beacon root and the upgrades, in either order, lead to the same outcome. -/
def SameOutcome (block : Block T) : Prop :=
  ∃ first second, perform (chain.prepareToProcess parent block.header) db = (.ok (), first) ∧
    perform (chain.prepareToBuild parent block.header) db = (.ok (), second) ∧
    chain.outcome block first = chain.outcome block second

/-- No call for a beacon root, or no upgrade, or the same outcome in either order. -/
def OrderFree (block : Block T) : Prop :=
  block.header.parentBeaconRoot = none ∨
    Upgrades.blockEvents chain.config.upgrades (some parent.time) ⟨block.header.number, block.header.time⟩ = [] ∨
    SameOutcome chain parent db block

variable {chain parent db}

theorem orderFree_iff {block : Block T} {prepared : S}
    (built : perform (chain.prepareToBuild parent block.header) db = (.ok (), prepared)) :
    OrderFree chain parent db block ↔ SameOutcome chain parent db block := by
  constructor
  · rintro (none | none | same)
    · exact ⟨prepared, prepared, prepare_noBeaconRoot none built, built, rfl⟩
    · exact ⟨prepared, prepared, prepare_noUpgrades none built, built, rfl⟩
    · exact same
  · exact fun same => .inr (.inr same)

/-! ## The finished block -/

section

variable {worker : Worker ValidatorSet} {predicateContext : Option (PredicateContext ValidatorSet)} {now : Evm.Clock}
  {pending : Pending T} {built : Sealed S T}

/-- What a sealed block comes from. -/
structure Assembled (chain : Chain T ReaderError TipError) (worker : Worker ValidatorSet) (parent : Header) (now : Evm.Clock)
    (db : S) (initial : Header) (gasPool : UInt64) (prepared : S) (env : Environment S T) (work : Evm.Work T)
    (built : Sealed S T) : Prop where
  prepares : perform (chain.prepareToBuild parent initial) db = (.ok (), prepared)
  replayed : Replayed chain worker initial ⟨gasPool, prepared, 0⟩ env
  gasPool : gasPool = initial.gasLimit
  works : worker.work chain env = (.ok work : Except (WorkError TxError ReaderError) (Evm.Work T))
  same : initial.SameBlock built.block.header
  gasUsed : built.block.header.gasUsed = env.header.gasUsed
  transactions : built.block.transactions = env.txs
  root : built.block.header.root = chain.rootOf env.header env.state
  receiptHash : built.block.header.receiptHash = chain.encoding.deriveReceiptSha (env.receipts.map Receipt.consensus)
  bloom : built.block.header.bloom = chain.encoding.createBloom (env.receipts.flatMap Receipt.bloomed)
  receipts : built.receipts = Worker.handleResult chain built.block env.receipts
  finalizes : chain.engine.finalize chain.config.upgrades.networkUpgrades chain.reader chain.effectiveGasTip built.block.toEvm
    parent.toHeader (env.receipts.map Receipt.toEvm) = .ok ()
  extra : ∃ windowBytes, Evm.extraPrefix chain.config.upgrades.networkUpgrades parent.toHeader built.block.header.toHeader =
    .ok windowBytes ∧ built.block.header.extra = windowBytes ++ work.predicateResults

omit [Transaction T TxError] in
/-- The gas limit of a new header is the capacity at its time. -/
theorem newHeader_starts {parentHeader header : Evm.Header} {evmWorker : Evm.Worker T (WorkError TxError ReaderError)}
    (made : evmWorker.newHeader chain.config.upgrades.networkUpgrades chain.reader parentHeader now =
      (.ok header : Except (Evm.WorkerError ReaderError TipError (WorkError TxError ReaderError)) Evm.Header)) :
    header.extra = [] ∧ header.gasUsed = 0 ∧ ∃ feeConfig, chain.reader.getFeeConfigAt parentHeader = .ok feeConfig ∧
      Evm.gasLimit chain.config.upgrades.networkUpgrades feeConfig parentHeader header.timeMS = .ok header.gasLimit := by
  simp only [Evm.Worker.newHeader, bind_eq_ok, mapError_eq_ok, refuse_eq_ok, pure_eq, Except.ok.injEq] at made
  obtain ⟨feeConfig, configured, limit, limited, _, _, _, _, _, _, rfl⟩ := made
  refine ⟨rfl, rfl, feeConfig, configured, ?_⟩
  have second : ∀ timeMilliseconds, timeMilliseconds = (if chain.config.upgrades.networkUpgrades.isGranite
      (Evm.getNextTimestamp parentHeader now).unix then some (Evm.getNextTimestamp parentHeader now).unixMilli else none) →
      timeMilliseconds.getD ((Evm.getNextTimestamp parentHeader now).unix * 1000) / 1000 =
        (Evm.getNextTimestamp parentHeader now).unixMilli / 1000 := by
    rintro _ rfl
    split
    · rfl
    · exact Evm.getNextTimestamp_second parentHeader now
  rw [← limited, Evm.gasLimit, Evm.gasLimit, Evm.Header.timeMS, second _ rfl]

theorem completeHeader_keeps {header : Evm.Header} {initial : Header}
    (completed : Worker.completeHeader chain parent header = .ok initial) : initial.toHeader = header := by
  unfold Worker.completeHeader at completed
  by_cases cancun : chain.config.isCancun header.number header.time
  · rw [if_pos cancun] at completed
    by_cases before : chain.config.isCancun parent.number parent.time
    · simp only [if_pos before, bind_eq_ok, pure_eq] at completed
      obtain ⟨_, _, _, _, _, ⟨⟩, ⟨⟩⟩ := completed
      rfl
    · simp only [if_neg before, bind_eq_ok, pure_eq] at completed
      obtain ⟨_, ⟨⟩, ⟨⟩⟩ := completed
      rfl
  · rw [if_neg cancun] at completed
    cases completed
    rfl

omit [Interpreter S TxError] [Transaction T TxError] in
/-- From Durango on the work has the results of predicates, as they are encoded. -/
theorem work_eq_ok {env : Environment S T} {work : Evm.Work T} :
    worker.work chain env = (.ok work : Except (WorkError TxError ReaderError) (Evm.Work T)) ↔
      (if (worker.rules chain env.header).isDurango then chain.encoding.codec.bytes env.predicateResults = some work.predicateResults
        else work.predicateResults = []) ∧
      work.gasUsed = env.header.gasUsed ∧ work.txs = env.txs ∧ work.receipts = env.receipts.map Receipt.toEvm := by
  obtain ⟨gasUsed, txs, receipts, predicateResults⟩ := work
  unfold Worker.work
  by_cases durango : (worker.rules chain env.header).isDurango
  · simp only [if_pos durango, bind_eq_ok, need_eq_ok, pure_eq, Except.ok.injEq, Evm.Work.mk.injEq]
    constructor
    · rintro ⟨_, encoded, rfl, rfl, rfl, rfl⟩
      exact ⟨encoded, rfl, rfl, rfl⟩
    · rintro ⟨encoded, rfl, rfl, rfl⟩
      exact ⟨_, encoded, rfl, rfl, rfl, rfl⟩
  · simp only [if_neg durango, bind_eq_ok, pure_eq, Except.ok.injEq, Evm.Work.mk.injEq]
    constructor
    · rintro ⟨_, rfl, rfl, rfl, rfl, rfl⟩
      exact ⟨rfl, rfl, rfl, rfl⟩
    · rintro ⟨rfl, rfl, rfl, rfl⟩
      exact ⟨_, rfl, rfl, rfl, rfl, rfl⟩

variable [LawfulInterpreter S] [LawfulTransaction T]

theorem commitNewWork_assembled (lawful : chain.encoding.codec.Lawful)
    (committed : worker.commitNewWork chain predicateContext parent now db pending = .ok built) :
    ∃ initial gasPool prepared env work, Assembled chain worker parent now db initial gasPool prepared env work built := by
  simp only [Worker.commitNewWork, bind_eq_ok, mapError_eq_ok] at committed
  obtain ⟨header, made, env, filled, committed⟩ := committed
  obtain ⟨extra, unused, feeConfig, configured, limited⟩ := newHeader_starts made
  simp only [Worker.fill, Worker.createCurrentEnvironment, bind_eq_ok, mapError_eq_ok, pure_eq, Except.ok.injEq] at filled
  obtain ⟨sameConfig, again, initial, completed, _, ⟨gasPool, capacity, rfl⟩, ⟨⟩, prepares, attempted⟩ := filled
  obtain rfl : feeConfig = sameConfig := Except.ok.inj (configured.symm.trans again)
  have kept := completeHeader_keeps completed
  have empty : Replayed chain worker initial ⟨gasPool, (perform (chain.prepareToBuild parent initial) db).2, initial.gasUsed⟩
      ({ state := _, gasPool, header := initial } : Environment S T) := .empty (by rw [kept, extra])
  have replayed := empty.commitTransactions lawful pending.distinct attempted
  rw [show initial.gasUsed = 0 by rw [kept, unused]] at replayed
  simp only [Worker.commit, bind_eq_ok, mapError_eq_ok, refuse_eq_ok, pure_eq, Except.ok.injEq] at committed
  obtain ⟨work, works, assembled, assembles, _, -, rfl⟩ := committed
  simp only [Evm.Worker.commit, Evm.DummyEngine.finalizeAndAssemble, bind_eq_ok, mapError_eq_ok, refuse_eq_ok, pure_eq,
    Except.ok.injEq] at assembles
  obtain ⟨_, ⟨again, configured', cost, priced, _, paid, windowBytes, windowed, excess, -, rfl⟩, _, -, rfl⟩ := assembles
  obtain rfl : feeConfig = again := Except.ok.inj (configured.symm.trans configured')
  obtain ⟨encoded, used, included, given⟩ := work_eq_ok.mp works
  have same := replayed.same
  refine ⟨initial, gasPool, _, env, work, {
    prepares := Prod.ext prepares rfl
    replayed := replayed
    gasPool := ?_
    works := works
    same := ⟨same.number, same.time, same.parentHash, same.coinbase, same.difficulty, same.baseFee, same.excessBlobGas,
      same.gasLimit, same.parentBeaconRoot⟩
    gasUsed := used
    transactions := rfl
    root := rfl
    receiptHash := rfl
    bloom := rfl
    receipts := rfl
    finalizes := ?_
    extra := ⟨windowBytes, windowed, ?_⟩ }⟩
  · rw [kept] at capacity
    rw [kept]
    exact Except.ok.inj (capacity.symm.trans limited)
  · simp only [Evm.DummyEngine.finalize, bind_eq_ok, mapError_eq_ok, refuse_eq_ok, not_not]
    refine ⟨feeConfig, configured, cost, priced, (), rfl, ?_⟩
    rw [← given, ← included]
    exact paid
  · change windowBytes ++ _ = _
    refine congrArg (windowBytes ++ ·) ?_
    rw [replayed.extra]
    by_cases durango : (worker.rules chain env.header).isDurango
    · exact if_pos durango
    · rw [if_neg durango] at encoded
      rw [encoded]
      exact if_neg durango

namespace Assembled

variable {initial : Header} {gasPool : UInt64} {prepared : S} {env : Environment S T} {work : Evm.Work T}
  (assembled : Assembled chain worker parent now db initial gasPool prepared env work built)

include assembled

omit [LawfulInterpreter S] [LawfulTransaction T] in
/-- The header carries the verdicts of the worker. -/
theorem verdicts (lawful : chain.encoding.codec.Lawful)
    (ordered : chain.config.upgrades.networkUpgrades.checkConfigForkOrder = .ok ()) :
    Verdicts chain.encoding.codec (chain.context built.block.header) env := by
  obtain ⟨windowBytes, windowed, extra⟩ := assembled.extra
  obtain ⟨encoded, -⟩ := work_eq_ok.mp assembled.works
  have time : built.block.header.time = env.header.time := assembled.same.time.trans assembled.replayed.same.time.symm
  by_cases durango : (worker.rules chain env.header).isDurango
  · rw [if_pos durango] at encoded
    have active : chain.config.upgrades.networkUpgrades.isSubnetEVM built.block.header.time := by
      rw [time]
      exact Evm.NetworkUpgrades.isSubnetEVM_of_isDurango ordered durango
    have carried : predicateBytesFromExtra built.block.header.extra = work.predicateResults := by
      rw [extra, predicateBytesFromExtra_append ((Evm.length_extraPrefix windowed).trans (if_pos active))]
    obtain ⟨parsed, read, same⟩ : ∃ parsed, (chain.context built.block.header).predicateResults chain.encoding.codec = some parsed ∧
        parsed.get = env.predicateResults.get := predicateResults_newEVMBlockContext lawful encoded carried
    exact ⟨parsed, read, fun tx _ => congrFun same (Transaction.hash tx)⟩
  · rw [if_neg durango] at encoded
    have absent : predicateBytesFromExtra built.block.header.extra = [] := by
      rw [extra, encoded, List.append_nil]
      refine List.drop_eq_nil_of_le ?_
      rw [Evm.length_extraPrefix windowed]
      split
      · exact Nat.le_refl _
      · exact Nat.zero_le _
    have early : (worker.rules chain initial).isDurango = false := by
      rw [Worker.rules, ← assembled.replayed.same.time]
      exact Bool.eq_false_iff.mpr durango
    refine ⟨∅, predicateResults_newEVMBlockContext_none absent, fun tx _ => ?_⟩
    rw [assembled.replayed.quiet early]
    rfl

omit [LawfulInterpreter S] [LawfulTransaction T] in
/-- The receipts are placed already: only the hash of the block is new. -/
theorem receipts_eq :
    built.receipts = env.receipts.map (·.inBlock (chain.encoding.headerHash built.block.header)) := by
  rw [assembled.receipts, Worker.handleResult]
  refine List.ext_getElem? fun index => ?_
  rw [List.getElem?_mapIdx, List.getElem?_map]
  cases found : env.receipts[index]? with
  | none => rfl
  | some receipt =>
    obtain ⟨placed, numbered⟩ := assembled.replayed.placed index receipt found
    rw [Option.map_some, Option.map_some, ← placed, assembled.same.number, ← numbered]
    rfl

omit [LawfulTransaction T] in
/-- From the state of the worker the transactions lead where they led the worker. -/
theorem outcome (lawful : chain.encoding.codec.Lawful)
    (ordered : chain.config.upgrades.networkUpgrades.checkConfigForkOrder = .ok ()) :
    chain.outcome built.block prepared = some (built.receipts, built.block.header.gasUsed, built.block.header.root) := by
  obtain ⟨after, processed, alike⟩ := assembled.replayed.replays built.block.header (chain.encoding.headerHash built.block.header)
    (chain.context built.block.header) assembled.same (toBlockEnv_of_sameBlock assembled.same) (assembled.verdicts lawful ordered)
  have start : built.block.start prepared = ⟨gasPool, prepared, 0⟩ := by
    rw [Block.start, assembled.same.gasLimit, assembled.gasPool]
  have root : chain.rootOf built.block.header after = built.block.header.root := by
    rw [assembled.root, Chain.rootOf, Chain.rootOf, assembled.same.number, ← assembled.replayed.same.number,
      ← LawfulInterpreter.root_setTxContext after 0 0, alike, LawfulInterpreter.root_setTxContext]
  rw [Chain.outcome, start, assembled.transactions, processed, assembled.receipts_eq, assembled.gasUsed]
  exact congrArg (fun root => some (_, _, root)) root

omit [LawfulInterpreter S] [LawfulTransaction T] in
/-- The state of the worker's outcome is valid. -/
theorem valid {after : S} (root : chain.rootOf built.block.header after = built.block.header.root) :
    chain.validateState built.block after built.receipts built.block.header.gasUsed = .ok () := by
  have consensus : built.receipts.map Receipt.consensus = env.receipts.map Receipt.consensus := by
    rw [assembled.receipts_eq, List.map_map]
    exact List.map_congr_left fun receipt _ => receipt.consensus_inBlock _
  have bloomed : built.receipts.flatMap Receipt.bloomed = env.receipts.flatMap Receipt.bloomed := by
    rw [assembled.receipts_eq, List.flatMap_map]
    exact List.flatMap_congr fun receipt _ => receipt.bloomed_inBlock _
  simp only [Chain.validateState, bind_eq_ok, refuse_eq_ok, not_not]
  exact ⟨(), trivial, (), by rw [bloomed, assembled.bloom], (), by rw [consensus, assembled.receiptHash], root.symm⟩

end Assembled

end

/-! ## The processor -/

theorem process_eq_ok {block : Block T} {receipts : List Receipt} {logs : List Log} {progress : Progress S} :
    perform (chain.process block parent) (block.start db) = (.ok (receipts, logs), progress) ↔
      ∃ prepared, perform (chain.prepareToProcess parent block.header) db = (.ok (), prepared) ∧
        perform (chain.processTransactions block.header (chain.encoding.headerHash block.header) (chain.context block.header) 0
          block.transactions) (block.start prepared) = (.ok receipts, progress) ∧
        chain.engine.finalize chain.config.upgrades.networkUpgrades chain.reader chain.effectiveGasTip block.toEvm parent.toHeader
          (receipts.map Receipt.toEvm) = .ok () ∧
        logs = receipts.flatMap Receipt.logs := by
  unfold Chain.process
  simp only [perform_bind_eq_ok, perform_zoom, perform_wrap, perform_check, perform_pure, Prod.mk.injEq, mapError_eq_ok,
    Except.ok.injEq]
  constructor
  · rintro ⟨_, _, ⟨prepares, rfl⟩, others, after, processed, _, _, ⟨finalizes, rfl⟩, ⟨rfl, rfl⟩, rfl⟩
    exact ⟨_, Prod.ext prepares rfl, processed, finalizes, rfl⟩
  · rintro ⟨prepared, prepares, processed, finalizes, rfl⟩
    refine ⟨(), _, ⟨congrArg Prod.fst prepares, rfl⟩, receipts, progress, ?_, (), _, ⟨finalizes, rfl⟩, ⟨rfl, rfl⟩, rfl⟩
    rw [show (block.start db).db = db from rfl, prepares]
    exact processed

theorem outcome_eq_some {block : Block T} {prepared : S} {receipts : List Receipt} {usedGas : UInt64} {root : Hash} :
    chain.outcome block prepared = some (receipts, usedGas, root) ↔
      ∃ progress, perform (chain.processTransactions block.header (chain.encoding.headerHash block.header)
        (chain.context block.header) 0 block.transactions) (block.start prepared) = (.ok receipts, progress) ∧
        progress.usedGas = usedGas ∧ chain.rootOf block.header progress.db = root := by
  unfold Chain.outcome
  split
  · next others progress processed =>
    rw [processed]
    simp only [Option.some.injEq, Prod.mk.injEq, Except.ok.injEq]
    constructor
    · rintro ⟨rfl, rfl, rfl⟩
      exact ⟨progress, ⟨rfl, rfl⟩, rfl, rfl⟩
    · rintro ⟨_, ⟨rfl, rfl⟩, rfl, rfl⟩
      exact ⟨rfl, rfl, rfl⟩
  · next failed =>
    rw [failed]
    simp

end

/-- Transfers, each under a hash of its own. -/
structure Transfer where
  hash : Hash
  nonce : UInt64
  sender : Address
  recipient : Address
  value : BitVec 256
  gasPrice : Nat

inductive TransferError where
  | gasLimitReached
  | insufficientFunds
  deriving DecidableEq, Repr

instance : Transaction Transfer TransferError where
  hash := Transfer.hash
  type _ := 2
  nonce := Transfer.nonce
  gas _ := 21000
  accessList _ := []
  blobHashes _ := []
  blobTxSidecar _ := none
  withoutBlobTxSidecar := id
  intrinsicGas _ _ _ := .ok 21000
  toMessage _ _ _ tx := .ok {
    recipient := some tx.recipient
    sender := tx.sender
    nonce := tx.nonce
    value := tx.value.toNat
    gasLimit := 21000
    gasPrice := tx.gasPrice
    gasFeeCap := tx.gasPrice
    gasTipCap := tx.gasPrice
    data := []
    accessList := []
    blobGasFeeCap := none
    blobHashes := [] }

instance : LawfulTransaction Transfer where
  accessList_of_hash _ _ _ := rfl
  hash_withoutBlobTxSidecar _ := rfl
  type_withoutBlobTxSidecar _ := rfl
  nonce_withoutBlobTxSidecar _ := rfl
  blobHashes_withoutBlobTxSidecar _ := rfl
  toMessage_withoutBlobTxSidecar _ _ _ _ := rfl
  accessList_toMessage _ _ _ tx message translated := by
    cases translated
    rfl

/-- A ledger, with the transaction that works on it. -/
structure Machine where
  ledger : State.Ledger := {}
  txHash : Hash := 0
  txIndex : Nat := 0

namespace Machine

def on (change : State.Ledger → State.Ledger) (machine : Machine) : Machine :=
  { machine with ledger := change machine.ledger }

/-- A transfer with its fee. -/
def transfer (coinbase recipient : Address) (message : Message) (ledger : State.Ledger) : State.Ledger :=
  let sender := ledger.get message.sender
  let fee : BitVec 256 := .ofInt 256 (message.gasPrice * 21000)
  let paid := ledger.put message.sender
    { sender with nonce := sender.nonce + 1, balance := sender.balance - .ofInt 256 message.value - fee }
  (paid.credit recipient (.ofInt 256 message.value)).credit coinbase fee

def apply (env : BlockEnv) (message : Message) (gas : UInt64) (machine : Machine) :
    Except TransferError ExecutionResult × UInt64 × Machine :=
  if gas < message.gasLimit then (.error .gasLimitReached, gas, machine)
  else if (machine.ledger.get message.sender).balance.toNat < message.value + message.gasPrice * 21000 then
    (.error .insufficientFunds, gas, machine)
  else (.ok ⟨21000, false⟩, gas - 21000, machine.on (transfer env.coinbase (message.recipient.getD 0) message))

/-- `PUSH1 1, PUSH1 0, SSTORE`. -/
def storesOne : Bytes := [0x60, 1, 0x60, 0, 0x55]

/-- Of the code of accounts, this one is executed. -/
def call (address : Address) (machine : Machine) : Machine :=
  if (machine.ledger.get address).code = storesOne then machine.on (·.putState address 0 1) else machine

/-- A root of what the samples touch. -/
def root (ledger : State.Ledger) : Hash :=
  (ledger.get 5).balance + 2 * (ledger.get 6).balance + 4 * (ledger.get 7).balance +
    8 * .ofNat 256 (ledger.get beaconRootsStorageAddress).code.length + 128 * (ledger.get beaconRootsStorageAddress).storage 0

instance : Interpreter Machine TransferError where
  exist machine := State.StateDB.exist machine.ledger
  account machine := State.StateDB.account machine.ledger
  hasSelfDestructed machine := State.StateDB.hasSelfDestructed machine.ledger
  createAccount address := on (State.StateDB.createAccount address)
  setNonce address nonce := on (State.StateDB.setNonce address nonce)
  setCode address code := on (State.StateDB.setCode address code)
  setState address key value := on (State.StateDB.setState address key value)
  addBalance address amount := on (State.StateDB.addBalance address amount)
  selfDestruct address := on (State.StateDB.selfDestruct address)
  finalise := on State.StateDB.finalise
  setTxContext hash index machine := { machine with txHash := hash, txIndex := index }
  txHash := txHash
  txIndex := txIndex
  logs _ _ := []
  snapshot _ := 0
  revertToSnapshot _ machine := machine
  addAddressToAccessList _ machine := machine
  intermediateRoot _ machine := (root machine.ledger.settle, machine.on State.Ledger.settle)
  applyMessage env _ := apply env
  call _ _ address _ _ _ := call address

instance : LawfulInterpreter Machine where
  setTxContext_twice _ _ _ _ _ := rfl
  txHash_setTxContext _ _ _ := rfl
  txIndex_setTxContext _ _ _ := rfl
  txIndex_finalise _ := rfl
  txIndex_intermediateRoot _ _ := rfl
  root_setTxContext _ _ _ _ := rfl
  txIndex_applyMessage env _ message gas machine := by
    change (apply env message gas machine).2.2.txIndex = machine.txIndex
    unfold apply
    split
    · rfl
    · split <;> rfl
  reverts_unchanged _ := rfl
  reverts env _ message gas machine error failed := by
    change (apply env message gas machine).2.2 = machine
    replace failed : (apply env message gas machine).1 = .error error := failed
    unfold apply at failed ⊢
    by_cases full : gas < message.gasLimit
    · rw [if_pos full]
    · rw [if_neg full] at failed ⊢
      by_cases poor : (machine.ledger.get message.sender).balance.toNat < message.value + message.gasPrice * 21000
      · rw [if_pos poor]
      · rw [if_neg poor] at failed
        cases failed

end Machine

/-- Without any verdict. -/
def sampleCodec : Codec where
  bytes results := if results.entries.isEmpty then some [0, 0, 0, 0, 0, 0] else none
  parseBlockResults encoded := if encoded = [0, 0, 0, 0, 0, 0] then some ∅ else none

theorem sampleCodec_lawful : sampleCodec.Lawful where
  inverts results encoded written := by
    by_cases silent : results.entries.isEmpty
    · cases (if_pos silent).symm.trans written
      refine ⟨∅, rfl, ?_⟩
      funext hash address
      have missing : results.lookup hash = none := by simp [AList.lookup, List.isEmpty_iff.mp silent]
      simp [BlockResults.get, missing]
    · cases (if_neg silent).symm.trans written
  versioned results := by
    simp only [sampleCodec]
    split
    · decide
    · decide

def sampleEncoding : Encoding Transfer where
  codec := sampleCodec
  headerHash header := .ofInt 256 header.number + header.root
  createAddress sender _ := sender
  createBloom _ := List.replicate 256 0
  deriveTxSha txs := txs.foldl (fun sum tx => sum + tx.hash) 0
  deriveReceiptSha receipts := receipts.foldl (fun sum receipt => sum + .ofNat 256 receipt.cumulativeGasUsed.toNat) 0
  calcBlobFee _ := 1
  calcExcessBlobGas excess used := if excess + used < 3 * 131072 then 0 else excess + used - 3 * 131072

def sampleNode (stateUpgrades : List Upgrades.StateUpgrade) : Chain Transfer Unit Unit where
  encoding := sampleEncoding
  config := {
    upgrades := { Upgrades.sampleChain with precompileUpgrades := [], stateUpgrades }
    isByzantium _ := true
    isEIP158 _ := true
    isCancun _ _ := true }
  getHeader _ _ := none
  reader := Evm.sampleChain
  effectiveGasTip tx baseFee := .ok (tx.gasPrice - baseFee)
  engine := { desiredDelayExcess := some 0 }

def sampleBuilder : Worker Bool where
  library := Upgrades.sampleLibrary
  acp226 := Evm.sampleAcp226
  coinbase := 7
  hasBlock _ _ := false

def sampleParent : Header :=
  { Evm.sampleGenesis with gasLimit := 8000000, minDelayExcess := some 7970124, blobGasUsed := some 0, excessBlobGas := some 0 }

def samplePending : Pending Transfer where
  transactions := [⟨11, 0, 5, 6, 40, 25000000000⟩]
  distinct := by decide

/-- One account that can pay. -/
def sampleState : Machine := { ledger := State.Ledger.put {} 5 { balance := 1000000000000000000 } }

/-- Code for the account of beacon roots, at the time of the block. -/
def beaconUpgrade : Upgrades.StateUpgrade :=
  ⟨some 103, some (AList.singleton beaconRootsStorageAddress { code := some Machine.storesOne })⟩

/-- An amount for another account. -/
def plainUpgrade : Upgrades.StateUpgrade := ⟨some 103, some (AList.singleton 6 { balanceChange := some 1000 })⟩

/-- What the worker seals on the state, with one upgrade. -/
def sealed (upgrade : Upgrades.StateUpgrade) :
    Except (Evm.WorkerError Unit Unit (WorkError TransferError Unit)) (Sealed Machine Transfer) :=
  sampleBuilder.commitNewWork (sampleNode [upgrade]) none sampleParent Evm.sampleClock sampleState samplePending

theorem eq_ok_get {Error α : Type} {result : Except Error α} (succeeds : result.toOption.isSome) :
    result = .ok (result.toOption.get succeeds) := by
  cases result with
  | error cause => cases succeeds
  | ok value => rfl

def plainSealed : Sealed Machine Transfer := (sealed plainUpgrade).toOption.get (by decide +kernel)

def beaconSealed : Sealed Machine Transfer := (sealed beaconUpgrade).toOption.get (by decide +kernel)

end Snowside.Execution
