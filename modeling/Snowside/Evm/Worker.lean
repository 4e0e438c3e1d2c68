import Snowside.Evm.DelayExcess
import Snowside.Evm.Engine

/-! The worker that builds a block, and what its engine says of the block. -/

set_option autoImplicit false

namespace Snowside.Evm

open Checked

/-! ## Time -/

/-- A time as the worker reads it. -/
structure Time where
  unix : UInt64
  unixMilli : UInt64
  deriving DecidableEq, Repr

/-- A reading of the clock; later times have no number of milliseconds. -/
structure Clock where
  milliseconds : Nat
  representable : milliseconds < 2 ^ 63

def Clock.time (now : Clock) : Time where
  unix := .ofNat (now.milliseconds / 1000)
  unixMilli := .ofNat now.milliseconds

/-- `time.Unix`. -/
def Time.ofUnix (seconds : UInt64) : Time where
  unix := seconds
  unixMilli := seconds * 1000

def getNextTimestamp (parent : Header) (now : Clock) : Time :=
  if parent.time < now.time.unix ∨ parent.timeMilliseconds.isSome then now.time
  -- A block may have the time of its parent.
  else .ofUnix parent.time

/-! ## Blocks -/

structure Block (Transaction : Type) where
  header : Header
  transactions : List Transaction
  deriving DecidableEq, Repr

inductive FinalizeError (ReaderError TipError : Type) where
  | reader (cause : ReaderError)
  | fault (cause : Fault)
  | invalidBlockGasCost (found expected : Option Int)
  | blockFee (cause : BlockFeeError TipError)
  | delayExcess (cause : DelayExcessError)
  deriving DecidableEq, Repr

section

variable {ReaderError Transaction TipError : Type} (config : NetworkUpgrades) (chain : ChainHeaderReader ReaderError)
  (effectiveGasTip : Transaction → Int → Except TipError Int) (engine : DummyEngine)

namespace DummyEngine

/-- The fee that a block must have paid, from SubnetEVM on. -/
def verifyFee (time : UInt64) (baseFee blockGasCost : Option Int) (txs : List Transaction) (receipts : List Receipt) :
    Except (FinalizeError ReaderError TipError) Unit :=
  if config.isSubnetEVM time ∧ engine.consensusMode.modeSkipBlockFee = false then
    (verifyBlockFee effectiveGasTip baseFee blockGasCost txs receipts none).mapError .blockFee
  else .ok ()

def finalize (block : Block Transaction) (parent : Header) (receipts : List Receipt) :
    Except (FinalizeError ReaderError TipError) Unit := do
  let feeConfig ← (chain.getFeeConfigAt parent).mapError .reader
  let expectedBlockGasCost ← (blockGasCost config feeConfig parent block.header.time).mapError .fault
  refuse (block.header.blockGasCost ≠ expectedBlockGasCost)
    (.invalidBlockGasCost block.header.blockGasCost expectedBlockGasCost)
  verifyFee config effectiveGasTip engine block.header.time block.header.baseFee block.header.blockGasCost
    block.transactions receipts

def finalizeAndAssemble (acp226 : Acp226) (header parent : Header) (txs : List Transaction) (receipts : List Receipt) :
    Except (FinalizeError ReaderError TipError) (Block Transaction) := do
  let feeConfig ← (chain.getFeeConfigAt parent).mapError .reader
  let cost ← (blockGasCost config feeConfig parent header.time).mapError .fault
  verifyFee config effectiveGasTip engine header.time header.baseFee cost txs receipts
  let windowBytes ← (extraPrefix config parent header).mapError .fault
  let excess ← (minDelayExcess acp226 config parent header.time engine.desiredDelayExcess).mapError .delayExcess
  return { header := { header with blockGasCost := cost, extra := windowBytes ++ header.extra, minDelayExcess := excess },
           transactions := txs }

end DummyEngine

/-! ## Work -/

/-- What filling a block comes to: its transactions with their receipts, and the
bytes of the predicate results. -/
structure Work (Transaction : Type) where
  gasUsed : UInt64
  txs : List Transaction
  receipts : List Receipt
  predicateResults : Bytes
  deriving DecidableEq, Repr

inductive WorkerError (ReaderError TipError WorkError : Type) where
  | reader (cause : ReaderError)
  | fault (cause : Fault)
  | noEtherbase
  | work (cause : WorkError)
  | finalize (cause : FinalizeError ReaderError TipError)
  | duplicateBlock
  deriving DecidableEq, Repr

structure Worker (Transaction WorkError : Type) where
  engine : DummyEngine
  acp226 : Acp226
  coinbase : Address
  /-- Applies upgrades and pending transactions to a header under construction. -/
  fill : Header → Except WorkError (Work Transaction)
  hasBlock : Block Transaction → Bool

namespace Worker

variable {WorkError : Type} (worker : Worker Transaction WorkError)

/-- The header before any transaction. -/
def newHeader (parent : Header) (now : Clock) : Except (WorkerError ReaderError TipError WorkError) Header := do
  let tstart := getNextTimestamp parent now
  let timestamp := tstart.unix
  let timestampMS := tstart.unixMilli
  let feeConfig ← (chain.getFeeConfigAt parent).mapError .reader
  let limit ← (gasLimit config feeConfig parent timestampMS).mapError .fault
  let fee ← (baseFee config feeConfig parent timestampMS).mapError .fault
  refuse (worker.coinbase = 0) .noEtherbase
  let configured ← (chain.getCoinbaseAt parent).mapError .reader
  return {
    number := parent.number + 1
    time := timestamp
    timeMilliseconds := if config.isGranite timestamp then some timestampMS else none
    gasLimit := limit
    baseFee := fee
    coinbase :=
      if configured.isAllowFeeRecipients = false ∧ worker.coinbase ≠ configured.address then configured.address
      else worker.coinbase }

/-- `commit`, of the header with its work. -/
def commit (header parent : Header) (work : Work Transaction) :
    Except (WorkerError ReaderError TipError WorkError) (Block Transaction) := do
  let extra := if config.isDurango header.time then header.extra ++ work.predicateResults else header.extra
  let block ← (worker.engine.finalizeAndAssemble config chain effectiveGasTip worker.acp226
    { header with gasUsed := work.gasUsed, extra } parent work.txs work.receipts).mapError .finalize
  refuse (worker.hasBlock block) .duplicateBlock
  return block

/-- The block with the receipts of its transactions. -/
def commitNewWork (parent : Header) (now : Clock) :
    Except (WorkerError ReaderError TipError WorkError) (Block Transaction × List Receipt) := do
  let header ← worker.newHeader config chain parent now
  let work ← (worker.fill header).mapError .work
  let block ← worker.commit config chain effectiveGasTip header parent work
  return (block, work.receipts)

end Worker

end

/-! ## Time in seconds and in milliseconds -/

theorem toNat_mul_thousand (seconds : UInt64) : (seconds * 1000).toNat = seconds.toNat * 1000 % 2 ^ 64 :=
  UInt64.toNat_mul _ _

theorem toNat_div_thousand (milliseconds : UInt64) : (milliseconds / 1000).toNat = milliseconds.toNat / 1000 :=
  UInt64.toNat_div _ _

/-- Seconds and milliseconds lead to the same second. -/
theorem getNextTimestamp_second (parent : Header) (now : Clock) :
    (getNextTimestamp parent now).unix * 1000 / 1000 = (getNextTimestamp parent now).unixMilli / 1000 := by
  unfold getNextTimestamp
  split
  · have := now.representable
    rw [← UInt64.toNat_inj, toNat_div_thousand, toNat_mul_thousand, toNat_div_thousand]
    simp only [Clock.time, UInt64.toNat_ofNat']
    omega
  · rfl

/-- That second is not after the time of the block. -/
theorem getNextTimestamp_le (parent : Header) (now : Clock) :
    (getNextTimestamp parent now).unixMilli / 1000 ≤ (getNextTimestamp parent now).unix := by
  rw [← getNextTimestamp_second, UInt64.le_iff_toNat_le, toNat_div_thousand, toNat_mul_thousand]
  omega

/-! ## What the worker builds -/

/-- The limits that the copied gas limit of a parent must meet before SubnetEVM. -/
def ProtocolParams.Allows (params : ProtocolParams) (gasLimit : UInt64) : Prop :=
  params.minGasLimit ≤ gasLimit ∧ gasLimit ≤ params.maxGasLimit ∧ 0 < gasLimit / params.gasLimitBoundDivisor

theorem verifyGasLimitBounds_copy {params : ProtocolParams} {parent header : Header}
    (copied : header.gasLimit = parent.gasLimit) :
    verifyGasLimitBounds params parent header = .ok () ↔ params.Allows parent.gasLimit := by
  have none : Safemath.absDiff parent.gasLimit parent.gasLimit = 0 := by simp [Safemath.absDiff]
  simp only [verifyGasLimitBounds, bind_eq_ok, refuse_eq_ok, copied, none, ProtocolParams.Allows, not_or, UInt64.not_lt,
    UInt64.not_le]
  constructor
  · rintro ⟨_, ⟨low, high⟩, room⟩
    exact ⟨low, high, room⟩
  · rintro ⟨low, high, room⟩
    exact ⟨(), ⟨low, high⟩, room⟩

section

variable {ReaderError Transaction TipError WorkError : Type} {params : ProtocolParams} {config : NetworkUpgrades}
  {chain : ChainHeaderReader ReaderError} {effectiveGasTip : Transaction → Int → Except TipError Int}
  {worker : Worker Transaction WorkError} {parent : Header} {now : Clock} {block : Block Transaction}
  {receipts : List Receipt}

/-- What the fields of a built header come from. -/
structure Built (config : NetworkUpgrades) (chain : ChainHeaderReader ReaderError)
    (effectiveGasTip : Transaction → Int → Except TipError Int) (worker : Worker Transaction WorkError)
    (parent : Header) (now : Clock) (feeConfig : FeeConfig) (configured : ConfiguredCoinbase)
    (block : Block Transaction) (receipts : List Receipt) : Prop where
  feeConfigAt : chain.getFeeConfigAt parent = .ok feeConfig
  coinbaseAt : chain.getCoinbaseAt parent = .ok configured
  number : block.header.number = parent.number + 1
  time : block.header.time = (getNextTimestamp parent now).unix
  timeMilliseconds : block.header.timeMilliseconds =
    if config.isGranite block.header.time then some (getNextTimestamp parent now).unixMilli else none
  gasLimit : gasLimit config feeConfig parent (getNextTimestamp parent now).unixMilli = .ok block.header.gasLimit
  baseFee : baseFee config feeConfig parent (getNextTimestamp parent now).unixMilli = .ok block.header.baseFee
  coinbase : configured.isAllowFeeRecipients = false → block.header.coinbase = configured.address
  blockGasCost : blockGasCost config feeConfig parent block.header.time = .ok block.header.blockGasCost
  paid : worker.engine.verifyFee config effectiveGasTip block.header.time block.header.baseFee
    block.header.blockGasCost block.transactions receipts = (.ok () : Except (FinalizeError ReaderError TipError) Unit)
  extra : ∃ windowBytes predicateResults, extraPrefix config parent block.header = .ok windowBytes ∧
    block.header.extra = windowBytes ++ predicateResults ∧
    (config.isDurango block.header.time = false → predicateResults = [])
  minDelayExcess : minDelayExcess worker.acp226 config parent block.header.time worker.engine.desiredDelayExcess =
    .ok block.header.minDelayExcess

theorem commitNewWork_built (built : worker.commitNewWork config chain effectiveGasTip parent now = .ok (block, receipts)) :
    ∃ feeConfig configured, Built config chain effectiveGasTip worker parent now feeConfig configured block receipts := by
  simp only [Worker.commitNewWork, Worker.newHeader, Worker.commit, DummyEngine.finalizeAndAssemble, bind_eq_ok,
    mapError_eq_ok, refuse_eq_ok, pure_eq, Except.ok.injEq, Prod.mk.injEq] at built
  obtain ⟨header, ⟨feeConfig, configuredFees, limit, limited, fee, charged, _, -, configured, configuredCoinbase, rfl⟩, work,
    -, _, ⟨_, ⟨sameConfig, again, cost, priced, _, paid, windowBytes, windowed, excess, delayed, rfl⟩, _, -, rfl⟩, rfl,
    rfl⟩ := built
  -- The configuration is read twice, at the same parent.
  obtain rfl : feeConfig = sameConfig := Except.ok.inj (configuredFees.symm.trans again)
  refine ⟨feeConfig, configured, {
    feeConfigAt := configuredFees
    coinbaseAt := configuredCoinbase
    number := rfl
    time := rfl
    timeMilliseconds := rfl
    gasLimit := limited
    baseFee := charged
    coinbase := ?_
    blockGasCost := priced
    paid := paid
    extra := ⟨windowBytes, _, windowed, rfl, ?_⟩
    minDelayExcess := delayed }⟩
  · intro required
    simp only [required, true_and]
    split
    · rfl
    · next same => exact not_not.mp same
  · intro early
    simp only at early
    rw [if_neg (by rw [early]; decide)]

theorem Built.timeMS {feeConfig : FeeConfig} {configured : ConfiguredCoinbase}
    (built : Built config chain effectiveGasTip worker parent now feeConfig configured block receipts) :
    block.header.timeMS / 1000 = (getNextTimestamp parent now).unixMilli / 1000 := by
  rw [Header.timeMS, built.timeMilliseconds]
  split
  · rfl
  · rw [Option.getD_none, built.time, getNextTimestamp_second]

/-- A block with SubnetEVM at its time has it in milliseconds too, or it would have no base fee to pay. -/
theorem Built.active {feeConfig : FeeConfig} {configured : ConfiguredCoinbase}
    (built : Built config chain effectiveGasTip worker parent now feeConfig configured block receipts)
    (production : worker.engine.consensusMode = {}) (active : config.isSubnetEVM block.header.time) :
    config.isSubnetEVM ((getNextTimestamp parent now).unixMilli / 1000) := by
  by_contra early
  have charged := built.baseFee
  have paid := built.paid
  unfold Evm.baseFee at charged
  rw [if_neg early] at charged
  unfold DummyEngine.verifyFee at paid
  rw [if_pos ⟨active, by rw [production]⟩, ← Except.ok.inj charged] at paid
  cases paid

namespace Built

variable {feeConfig : FeeConfig} {configured : ConfiguredCoinbase}
  (built : Built config chain effectiveGasTip worker parent now feeConfig configured block receipts)

include built

theorem finalize : worker.engine.finalize config chain effectiveGasTip block parent receipts = .ok () := by
  simp only [DummyEngine.finalize, bind_eq_ok, mapError_eq_ok, refuse_eq_ok, not_not]
  exact ⟨feeConfig, built.feeConfigAt, _, built.blockGasCost, (), rfl, built.paid⟩

theorem verifyExtra (ordered : config.checkConfigForkOrder = .ok ()) :
    Evm.verifyExtra config block.header.time block.header.extra = .ok () := by
  obtain ⟨windowBytes, predicateResults, windowed, same, early⟩ := built.extra
  have width := length_extraPrefix windowed
  unfold Evm.verifyExtra
  rw [same, List.length_append, width]
  by_cases active : config.isSubnetEVM block.header.time
  · rw [if_pos active]
    split
    · exact refuse_eq_ok.mpr (by omega)
    · -- Between SubnetEVM and Durango the extra data is the window and nothing else.
      next durango =>
      rw [early (Bool.eq_false_iff.mpr durango), List.length_nil]
      exact refuse_eq_ok.mpr (by omega)
  · have durango : ¬ config.isDurango block.header.time := fun durango =>
      active (NetworkUpgrades.isSubnetEVM_of_isDurango ordered durango)
    rw [if_neg durango, if_neg active, if_neg active, early (Bool.eq_false_iff.mpr durango)]
    rfl

theorem verifyExtraPrefix : Evm.verifyExtraPrefix config parent block.header = .ok () := by
  obtain ⟨windowBytes, predicateResults, windowed, same, -⟩ := built.extra
  unfold Evm.verifyExtraPrefix
  unfold extraPrefix at windowed
  split
  · rfl
  · next active =>
    rw [if_pos (Bool.not_eq_false _ ▸ active)] at windowed
    cases found : feeWindow config parent block.header.time with
    | error fault =>
      rw [found] at windowed
      cases windowed
    | ok window =>
      rw [found] at windowed
      simp only [same, ← Except.ok.inj windowed]
      exact if_pos (List.isPrefixOf_iff_prefix.mpr (List.prefix_append _ _))

theorem verifyGasLimit (production : worker.engine.consensusMode = {}) :
    Evm.verifyGasLimit params config feeConfig parent block.header = .ok () ↔
      config.isSubnetEVM block.header.time ∨ params.Allows parent.gasLimit := by
  have limited := built.gasLimit
  unfold Evm.gasLimit at limited
  unfold Evm.verifyGasLimit
  by_cases active : config.isSubnetEVM block.header.time
  · rw [if_pos (built.active production active)] at limited
    refine iff_of_true ?_ (.inl active)
    cases configuredLimit : feeConfig.gasLimit with
    | none =>
      rw [configuredLimit] at limited
      cases limited
    | some limit =>
      rw [configuredLimit] at limited
      rw [if_pos active, need_some, ok_bind, refuse_eq_ok, not_not]
      exact (Except.ok.inj limited).symm
  · -- The second of the milliseconds is not later than the time of the block.
    have early : ¬ config.isSubnetEVM ((getNextTimestamp parent now).unixMilli / 1000) := fun early =>
      active (built.time ▸ isTimestampForked_mono (getNextTimestamp_le parent now) early)
    rw [if_neg early] at limited
    rw [if_neg active, verifyGasLimitBounds_copy (Except.ok.inj limited).symm]
    simp [active]

theorem verifyCoinbase : worker.engine.verifyCoinbase chain block.header parent = .ok () := by
  unfold DummyEngine.verifyCoinbase
  split
  · rfl
  · simp only [bind_eq_ok, mapError_eq_ok, refuse_eq_ok, not_and, not_not]
    exact ⟨configured, built.coinbaseAt, fun required => (built.coinbase required).symm⟩

theorem verifyHeaderGasFields (production : worker.engine.consensusMode = {}) :
    Evm.verifyHeaderGasFields params config chain block.header parent = .ok () ↔
      config.isSubnetEVM block.header.time ∨ params.Allows parent.gasLimit := by
  have charged : Evm.baseFee config feeConfig parent block.header.timeMS = .ok block.header.baseFee := by
    rw [← built.baseFee]
    unfold Evm.baseFee
    rw [built.timeMS]
  rw [verifyHeaderGasFields_eq_ok, ← built.verifyGasLimit production]
  constructor
  · rintro ⟨other, same, limited, -⟩
    obtain rfl : feeConfig = other := Except.ok.inj (built.feeConfigAt.symm.trans same)
    exact limited
  · intro limited
    exact ⟨feeConfig, built.feeConfigAt, limited, built.verifyExtraPrefix, charged, built.blockGasCost⟩

theorem verifyHeader (ordered : config.checkConfigForkOrder = .ok ()) (production : worker.engine.consensusMode = {}) :
    worker.engine.verifyHeader params config chain block.header parent false = .ok () ↔
      config.isSubnetEVM block.header.time ∨ params.Allows parent.gasLimit := by
  have next : block.header.number - parent.number = 1 := by
    rw [built.number]
    ring
  rw [← built.verifyHeaderGasFields production]
  simp only [DummyEngine.verifyHeader, bind_eq_ok, mapError_eq_ok, refuse_eq_ok, built.verifyExtra ordered,
    built.verifyCoinbase, next]
  simp [Unique.exists_iff]

end Built

end

/-- A built block passes `Finalize` and `VerifyMinDelayExcess`. It passes
`verifyHeader` exactly when SubnetEVM is active at its time, or the gas limit
that it copies from its parent is one of those before SubnetEVM. -/
theorem commitNewWork_verified {ReaderError Transaction TipError WorkError : Type} (params : ProtocolParams)
    {config : NetworkUpgrades} {chain : ChainHeaderReader ReaderError}
    {effectiveGasTip : Transaction → Int → Except TipError Int} {worker : Worker Transaction WorkError}
    {parent : Header} {now : Clock} {block : Block Transaction} {receipts : List Receipt} {step : Nat}
    (bounded : worker.acp226.Bounded step) (ordered : config.checkConfigForkOrder = .ok ())
    (production : worker.engine.consensusMode = {})
    (committed : worker.commitNewWork config chain effectiveGasTip parent now = .ok (block, receipts)) :
    worker.engine.finalize config chain effectiveGasTip block parent receipts = .ok () ∧
    verifyMinDelayExcess worker.acp226 config parent block.header = .ok () ∧
    (worker.engine.verifyHeader params config chain block.header parent false = .ok () ↔
      config.isSubnetEVM block.header.time ∨ params.Allows parent.gasLimit) := by
  obtain ⟨feeConfig, configured, built⟩ := commitNewWork_built committed
  exact ⟨built.finalize, verifyMinDelayExcess_of_computed bounded built.minDelayExcess,
    built.verifyHeader ordered production⟩

/-! ## Samples -/

/-- Updates of 200 at most. -/
def sampleAcp226 : Acp226 where
  initialDelayExcess := 7970124
  updateDelayExcess excess desired :=
    if (Safemath.absDiff excess desired).toNat ≤ 200 then desired
    else if excess < desired then excess + 200
    else excess - 200

theorem sampleAcp226_bounded : sampleAcp226.Bounded 200 where
  moves excess desired := by
    simp only [sampleAcp226]
    split
    · assumption
    · next far =>
      have apart := Safemath.absDiff_toNat excess desired
      have least := desired.toNat_lt
      have step_size : UInt64.toNat 200 = 200 := rfl
      split
      · next below =>
        have below := UInt64.lt_iff_toNat_lt.mp below
        rw [abs_of_neg (by omega)] at apart
        have moved : (excess + 200).toNat = excess.toNat + 200 := by
          rw [UInt64.toNat_add, step_size, Nat.mod_eq_of_lt (by omega)]
        have step := Safemath.absDiff_toNat excess (excess + 200)
        rw [moved, abs_of_neg (by omega)] at step
        omega
      · next above =>
        have above := UInt64.le_iff_toNat_le.mp (UInt64.not_lt.mp above)
        rw [abs_of_nonneg (by omega)] at apart
        have moved : (excess - 200).toNat = excess.toNat - 200 :=
          UInt64.toNat_sub_of_le _ _ (UInt64.le_iff_toNat_le.mpr (by omega))
        have step := Safemath.absDiff_toNat excess (excess - 200)
        rw [moved, abs_of_nonneg (by omega)] at step
        omega
  reaches excess desired close := if_pos close

def sampleChain : ChainHeaderReader Unit where
  getFeeConfigAt _ := .ok sampleFees.toConfig
  getCoinbaseAt _ := .ok ⟨7, false⟩

/-- A transaction is the tip it pays, and the only one pays one wei. -/
def sampleWorker : Worker Int Unit where
  engine := { desiredDelayExcess := some 0 }
  acp226 := sampleAcp226
  coinbase := 1
  fill _ := .ok { gasUsed := 21000, txs := [1], receipts := [⟨21000⟩], predicateResults := [0, 0] }
  hasBlock _ := false

def sampleTip (tip _baseFee : Int) : Except Unit Int := .ok tip

def sampleClock : Clock := ⟨103500, by decide⟩

def sampleBlock : Block Int where
  header := {
    number := 1
    time := 103
    gasLimit := 8000000
    gasUsed := 21000
    extra := Window.empty.bytes ++ [0, 0]
    baseFee := some 25000000000
    coinbase := 7
    blockGasCost := some 0 }
  transactions := [1]

theorem commitNewWork_verified_sample :
    sampleWorker.commitNewWork sampleUpgrades sampleChain sampleTip sampleGenesis sampleClock =
      (.ok (sampleBlock, [⟨21000⟩]) : Except (WorkerError Unit Unit Unit) _) ∧
    sampleWorker.engine.verifyHeader sampleParams sampleUpgrades sampleChain sampleBlock.header sampleGenesis false =
      .ok () := by
  have committed : sampleWorker.commitNewWork sampleUpgrades sampleChain sampleTip sampleGenesis sampleClock =
      (.ok (sampleBlock, [⟨21000⟩]) : Except (WorkerError Unit Unit Unit) _) := by decide
  obtain ⟨-, -, verified⟩ := commitNewWork_verified sampleParams sampleAcp226_bounded (by decide) rfl committed
  exact ⟨committed, verified.mpr (.inl (by decide))⟩

/-- A parent with less than the least gas limit, which a block before SubnetEVM copies. -/
def lowParent : Header where
  number := 0
  time := 100
  gasLimit := 4999

def lowBlock : Block Int where
  header := { number := 1, time := 103, gasLimit := 4999, gasUsed := 21000, coinbase := 7 }
  transactions := [1]

/-- Without SubnetEVM the worker builds a block that its engine rejects: the gas
limit of the parent, or extra data of Durango alone. -/
theorem lowBlock_rejected :
    (sampleWorker.commitNewWork {} sampleChain sampleTip lowParent sampleClock =
      (.ok (lowBlock, [⟨21000⟩]) : Except (WorkerError Unit Unit Unit) _) ∧
    sampleWorker.engine.verifyHeader sampleParams {} sampleChain lowBlock.header lowParent false =
      .error (.gasLimit (.outOfRange 4999 5000 0x7fffffffffffffff))) ∧
    ∃ block, sampleWorker.commitNewWork { durangoTimestamp := some 0 } sampleChain sampleTip lowParent sampleClock =
      (.ok (block, [⟨21000⟩]) : Except (WorkerError Unit Unit Unit) _) ∧
    sampleWorker.engine.verifyHeader sampleParams { durangoTimestamp := some 0 } sampleChain block.header lowParent
      false = .error (.extraLength (.invalidExtraLength 80 2)) := by
  exact ⟨⟨by decide, by decide⟩, { lowBlock with header := { lowBlock.header with extra := [0, 0] } }, by decide,
    by decide⟩

end Snowside.Evm
