import Mathlib.Data.Nat.Size
import Snowside.Evm.Time
import Snowside.Header.Serializable
import Snowside.Upgrades.ForkOrder

/-! The checks of a block by itself, and which of the headers that they accept can be decoded again. -/

set_option autoImplicit false

namespace Snowside.CustomTypes

open Checked
open Evm (Bytes NetworkUpgrades verifyTime verifyMinDelayExcess windowSize)
open ForkOrder (AvalancheRules checkConfigForkOrder getAvalancheRules)
open Precompile (Hash)

/-! ## The checks -/

inductive ExtraError where
  | tooShort (expected found : Nat)
  | otherThan (expected found : Nat)
  | tooLong (expected found : Nat)
  deriving DecidableEq, Repr

def maximumExtraDataSize : Nat := 64

def verifyExtra (rules : AvalancheRules) (extra : Bytes) : Except ExtraError Unit :=
  if rules.isDurango then refuse (extra.length < windowSize) (.tooShort windowSize extra.length)
  else if rules.isSubnetEVM then refuse (extra.length ≠ windowSize) (.otherThan windowSize extra.length)
  else refuse (maximumExtraDataSize < extra.length) (.tooLong maximumExtraDataSize extra.length)

inductive SyntacticError where
  | invalidBlock
  | invalidBlockNumber (number : Int)
  | invalidDifficulty (difficulty : Int)
  | invalidNonce (nonce : BitVec 64)
  | invalidMixDigest (mixDigest : Hash)
  | extra (cause : ExtraError)
  | nilBaseFeeSubnetEVM
  | tooLargeBaseFee (bitLen : Nat)
  | emptyBlock
  | invalidTxsHash (found calculated : Hash)
  | invalidUncleHash (found calculated : Hash)
  | unclesUnsupported
  | nilBlockGasCostSubnetEVM
  | tooLargeBlockGasCost (blockGasCost : Int)
  | missingParentBeaconRoot
  | parentBeaconRootNonEmpty (found : Hash)
  | blobGasUsedNilInCancun
  | blobsNotEnabled (used : UInt64)
  | invalidExcessBlobGas (found : Option UInt64)
  | invalidParentBeaconRootBeforeCancun (found : Hash)
  | invalidExcessBlobGasBeforeCancun (found : UInt64)
  | invalidBlobGasUsedBeforeCancun (found : UInt64)
  | extension
  /-- Panic: a nil pointer is read. -/
  | nilPointer
  deriving DecidableEq, Repr

structure Block (T : Type) where
  header : Header
  transactions : List T
  uncles : List Header

/-- What the checks of a block take from its VM. -/
structure Vm (T : Type) where
  genesisHash : Hash
  networkUpgrades : NetworkUpgrades
  isCancun : Int → UInt64 → Bool
  /-- Of a header. -/
  hash : Header → Hash
  deriveSha : List T → Hash
  calcUncleHash : List Header → Hash
  /-- Checks of an extension, if there is one. -/
  extension : Option (AvalancheRules → Block T → Bool)

def bigIntIsUint64 (number : Int) : Prop := 0 ≤ number ∧ number < 2 ^ 64

instance (number : Int) : Decidable (bigIntIsUint64 number) := inferInstanceAs (Decidable (_ ∧ _))

/-- Of the absolute value. -/
def bitLen (number : Int) : Nat := number.natAbs.size

def verifyBaseFee (header : Header) : Except SyntacticError Unit := do
  let baseFee ← need .nilBaseFeeSubnetEVM header.eth.baseFee
  refuse (256 < bitLen baseFee) (.tooLargeBaseFee (bitLen baseFee))

def verifyBlockGasCost (header : Header) : Except SyntacticError Unit := do
  let blockGasCost ← need .nilBlockGasCostSubnetEVM header.extras.blockGasCost
  refuse (¬ bigIntIsUint64 blockGasCost) (.tooLargeBlockGasCost blockGasCost)

def verifyCancun (header : Header) : Except SyntacticError Unit := do
  let parentBeaconRoot ← need .missingParentBeaconRoot header.eth.parentBeaconRoot
  refuse (parentBeaconRoot ≠ 0) (.parentBeaconRootNonEmpty parentBeaconRoot)
  let blobGasUsed ← need .blobGasUsedNilInCancun header.eth.blobGasUsed
  refuse (blobGasUsed ≠ 0) (.blobsNotEnabled blobGasUsed)
  let excessBlobGas ← need (.invalidExcessBlobGas none) header.eth.excessBlobGas
  refuse (excessBlobGas ≠ 0) (.invalidExcessBlobGas excessBlobGas)

def verifyBeforeCancun (header : Header) : Except SyntacticError Unit := do
  header.eth.parentBeaconRoot.elim (.ok ()) fun found => .error (.invalidParentBeaconRootBeforeCancun found)
  header.eth.excessBlobGas.elim (.ok ()) fun found => .error (.invalidExcessBlobGasBeforeCancun found)
  header.eth.blobGasUsed.elim (.ok ()) fun found => .error (.invalidBlobGasUsedBeforeCancun found)

/-- A check under a rule. -/
def verifyIf (rule : Bool) (verify : Except SyntacticError Unit) : Except SyntacticError Unit := if rule then verify else .ok ()

def verifyBlobs (cancun : Bool) (header : Header) : Except SyntacticError Unit :=
  if cancun then verifyCancun header else verifyBeforeCancun header

section

variable {T : Type} (vm : Vm T)

/-- Of a block that is not nil and not the genesis. -/
def verifyBlock (block : Block T) : Except SyntacticError Unit := do
  let ethHeader := block.header.eth
  let rules := getAvalancheRules vm.networkUpgrades ethHeader.time
  let number ← need .nilPointer ethHeader.number
  refuse (¬ bigIntIsUint64 number) (.invalidBlockNumber number)
  let difficulty ← need .nilPointer ethHeader.difficulty
  refuse (¬ bigIntIsUint64 difficulty ∨ difficulty ≠ 1) (.invalidDifficulty difficulty)
  refuse (ethHeader.nonce ≠ 0) (.invalidNonce ethHeader.nonce)
  refuse (ethHeader.mixDigest ≠ 0) (.invalidMixDigest ethHeader.mixDigest)
  (verifyExtra rules ethHeader.extra).mapError .extra
  verifyIf rules.isSubnetEVM (verifyBaseFee block.header)
  refuse (block.transactions = []) .emptyBlock
  let txsHash := vm.deriveSha block.transactions
  refuse (txsHash ≠ ethHeader.txHash) (.invalidTxsHash ethHeader.txHash txsHash)
  let uncleHash := vm.calcUncleHash block.uncles
  refuse (uncleHash ≠ ethHeader.uncleHash) (.invalidUncleHash ethHeader.uncleHash uncleHash)
  refuse (block.uncles ≠ []) .unclesUnsupported
  verifyIf rules.isSubnetEVM (verifyBlockGasCost block.header)
  verifyBlobs (vm.isCancun number ethHeader.time) block.header
  refuse (vm.extension.any fun verify => !verify rules block) .extension

/-- The genesis is accepted already. -/
def syntacticVerify : Option (Block T) → Except SyntacticError Unit
  | none => .error .invalidBlock
  | some block => if vm.hash block.header = vm.genesisHash then .ok () else verifyBlock vm block

end

/-! ## What is accepted -/

/-- The header as the rules of headers see it. -/
def Header.toEvm (header : Header) : Evm.Header where
  number := header.eth.number.getD 0
  time := header.eth.time
  gasLimit := header.eth.gasLimit
  gasUsed := header.eth.gasUsed
  extra := header.eth.extra
  baseFee := header.eth.baseFee
  coinbase := header.eth.coinbase
  blockGasCost := header.extras.blockGasCost
  timeMilliseconds := header.extras.timeMilliseconds
  minDelayExcess := header.extras.minDelayExcess

/-- The forks are in the order of the check, and Cancun is active with Granite. -/
structure Vm.InOrder {T : Type} (vm : Vm T) : Prop where
  upgrades : checkConfigForkOrder vm.networkUpgrades = .ok ()
  cancun : ∀ number time, vm.networkUpgrades.isGranite time → vm.isCancun number time

/-- A block on its parent passes the checks of its header. -/
structure Accepted {T : Type} (vm : Vm T) (acp226 : Evm.Acp226) (delay : UInt64 → UInt64) (now : Int64) (parent : Header)
    (block : Block T) : Prop where
  syntactic : syntacticVerify vm (some block) = .ok ()
  time : verifyTime delay vm.networkUpgrades parent.toEvm block.header.toEvm now = .ok ()
  minDelayExcess : verifyMinDelayExcess acp226 vm.networkUpgrades parent.toEvm block.header.toEvm = .ok ()

section

variable {T : Type} {vm : Vm T} {acp226 : Evm.Acp226} {delay : UInt64 → UInt64} {now : Int64} {parent : Header} {block : Block T}

theorem elim_error_eq_ok {α Error : Type} {field : Option α} {error : α → Error} :
    field.elim (Except.ok ()) (fun found => .error (error found)) = .ok () ↔ field = none := by
  cases field <;> simp

theorem verifyIf_eq_ok {rule : Bool} {verify : Except SyntacticError Unit} :
    verifyIf rule verify = .ok () ↔ (rule → verify = .ok ()) := by
  cases rule <;> simp [verifyIf]

/-- The fields of blobs are there exactly in Cancun. -/
theorem verifyBlobs_ok {cancun : Bool} {header : Header} (passes : verifyBlobs cancun header = .ok ()) :
    header.eth.blobGasUsed.isSome = cancun ∧ header.eth.excessBlobGas.isSome = cancun ∧
      header.eth.parentBeaconRoot.isSome = cancun := by
  cases cancun with
  | true =>
    obtain ⟨_, root, passes⟩ := bind_eq_ok.mp (show verifyCancun header = .ok () from passes)
    obtain ⟨_, -, passes⟩ := bind_eq_ok.mp passes
    obtain ⟨_, used, passes⟩ := bind_eq_ok.mp passes
    obtain ⟨_, -, passes⟩ := bind_eq_ok.mp passes
    obtain ⟨_, excess, -⟩ := bind_eq_ok.mp passes
    rw [need_eq_ok.mp root, need_eq_ok.mp used, need_eq_ok.mp excess]
    exact ⟨rfl, rfl, rfl⟩
  | false =>
    obtain ⟨_, root, passes⟩ := bind_eq_ok.mp (show verifyBeforeCancun header = .ok () from passes)
    obtain ⟨_, excess, used⟩ := bind_eq_ok.mp passes
    rw [elim_error_eq_ok.mp root, elim_error_eq_ok.mp excess, elim_error_eq_ok.mp used]
    exact ⟨rfl, rfl, rfl⟩

/-- What the checks of a block tell of the fields of its header that may be nil. -/
structure Vetted (vm : Vm T) (header : Header) (number : Int) : Prop where
  numbered : header.eth.number = some number ∧ 0 ≤ number
  difficulty : header.eth.difficulty = some 1
  baseFee : vm.networkUpgrades.isSubnetEVM header.eth.time → header.eth.baseFee.isSome
  blockGasCost : vm.networkUpgrades.isSubnetEVM header.eth.time →
    ∃ blockGasCost, header.extras.blockGasCost = some blockGasCost ∧ 0 ≤ blockGasCost
  blobGasUsed : header.eth.blobGasUsed.isSome = vm.isCancun number header.eth.time
  excessBlobGas : header.eth.excessBlobGas.isSome = vm.isCancun number header.eth.time
  parentBeaconRoot : header.eth.parentBeaconRoot.isSome = vm.isCancun number header.eth.time

theorem vetted_of_verifyBlock (passes : verifyBlock vm block = .ok ()) : ∃ number, Vetted vm block.header number := by
  unfold verifyBlock at passes
  obtain ⟨number, found, passes⟩ := bind_eq_ok.mp passes
  obtain ⟨_, small, passes⟩ := bind_eq_ok.mp passes
  obtain ⟨difficulty, difficult, passes⟩ := bind_eq_ok.mp passes
  obtain ⟨_, one, passes⟩ := bind_eq_ok.mp passes
  obtain ⟨_, -, passes⟩ := bind_eq_ok.mp passes
  obtain ⟨_, -, passes⟩ := bind_eq_ok.mp passes
  obtain ⟨_, -, passes⟩ := bind_eq_ok.mp passes
  obtain ⟨_, fees, passes⟩ := bind_eq_ok.mp passes
  obtain ⟨_, -, passes⟩ := bind_eq_ok.mp passes
  obtain ⟨_, -, passes⟩ := bind_eq_ok.mp passes
  obtain ⟨_, -, passes⟩ := bind_eq_ok.mp passes
  obtain ⟨_, -, passes⟩ := bind_eq_ok.mp passes
  obtain ⟨_, costs, passes⟩ := bind_eq_ok.mp passes
  obtain ⟨_, blobs, -⟩ := bind_eq_ok.mp passes
  have small := not_not.mp (refuse_eq_ok.mp small)
  have one := refuse_eq_ok.mp one
  rw [not_or, not_not, not_not] at one
  obtain ⟨used, excess, root⟩ := verifyBlobs_ok blobs
  refine ⟨number, ⟨need_eq_ok.mp found, small.1⟩, ?_, fun active => ?_, fun active => ?_, used, excess, root⟩
  · rw [need_eq_ok.mp difficult, one.2]
  · obtain ⟨baseFee, there, -⟩ := bind_eq_ok.mp (verifyIf_eq_ok.mp fees active)
    rw [need_eq_ok.mp there]
    rfl
  · obtain ⟨blockGasCost, there, fits⟩ := bind_eq_ok.mp (verifyIf_eq_ok.mp costs active)
    exact ⟨blockGasCost, need_eq_ok.mp there, (not_not.mp (refuse_eq_ok.mp fits)).1⟩

/-- The fields of Granite are there exactly in Granite. -/
theorem Accepted.granite (accepted : Accepted vm acp226 delay now parent block) :
    block.header.extras.timeMilliseconds.isSome = vm.networkUpgrades.isGranite block.header.eth.time ∧
      block.header.extras.minDelayExcess.isSome = vm.networkUpgrades.isGranite block.header.eth.time := by
  obtain ⟨-, -, time⟩ := Evm.verifyTime_eq_ok.mp accepted.time
  have excess := accepted.minDelayExcess
  unfold verifyMinDelayExcess at excess
  cases granite : vm.networkUpgrades.isGranite block.header.eth.time with
  | true =>
    rw [if_pos (show vm.networkUpgrades.isGranite block.header.toEvm.time = true from granite)] at time excess
    obtain ⟨_, milliseconds, -⟩ := Evm.verifyTimeMilliseconds_eq_ok.mp time
    obtain ⟨_, there, -⟩ := bind_eq_ok.mp excess
    exact ⟨Option.isSome_iff_exists.mpr ⟨_, milliseconds⟩, Option.isSome_iff_exists.mpr ⟨_, need_eq_ok.mp there⟩⟩
  | false =>
    have early : ¬ vm.networkUpgrades.isGranite block.header.toEvm.time = true := by
      rw [Bool.not_eq_true]
      exact granite
    rw [if_neg early] at time excess
    exact ⟨Option.isSome_eq_false_iff.mpr (Option.isNone_iff_eq_none.mpr time), Bool.not_eq_true _ ▸ refuse_eq_ok.mp excess⟩

/-- With Granite the upgrades before it are active. -/
theorem Vm.InOrder.subnetEVM (inOrder : vm.InOrder) {time : UInt64} (granite : vm.networkUpgrades.isGranite time) :
    vm.networkUpgrades.isSubnetEVM time := ((ForkOrder.rules_inOrder inOrder.upgrades time).granite granite).1

/-- What must hold of an accepted header besides: numbers that can be encoded, and before SubnetEVM, where
neither the base fee nor the block gas cost is checked, none of them missing before a field that is there. -/
structure Decodable (vm : Vm T) (header : Header) : Prop where
  withdrawalsHash : header.eth.withdrawalsHash = none
  baseFee : ∀ baseFee, header.eth.baseFee = some baseFee → 0 ≤ baseFee
  blockGasCost : ∀ blockGasCost, header.extras.blockGasCost = some blockGasCost → 0 ≤ blockGasCost
  early : vm.networkUpgrades.isSubnetEVM header.eth.time = false →
    (header.extras.blockGasCost.isSome → header.eth.baseFee.isSome) ∧
      ∀ number, header.eth.number = some number → vm.isCancun number header.eth.time →
        header.eth.baseFee.isSome ∧ header.extras.blockGasCost.isSome

theorem leading_optionals (obj : HeaderSerializable) : Rlp.Leading obj.optionals ↔
    (obj.blockGasCost.isSome ∨ obj.blobGasUsed.isSome ∨ obj.excessBlobGas.isSome ∨ obj.parentBeaconRoot.isSome ∨
      obj.timeMilliseconds.isSome ∨ obj.minDelayExcess.isSome → obj.baseFee.isSome) ∧
    (obj.blobGasUsed.isSome ∨ obj.excessBlobGas.isSome ∨ obj.parentBeaconRoot.isSome ∨ obj.timeMilliseconds.isSome ∨
      obj.minDelayExcess.isSome → obj.blockGasCost.isSome) ∧
    (obj.excessBlobGas.isSome ∨ obj.parentBeaconRoot.isSome ∨ obj.timeMilliseconds.isSome ∨ obj.minDelayExcess.isSome →
      obj.blobGasUsed.isSome) ∧
    (obj.parentBeaconRoot.isSome ∨ obj.timeMilliseconds.isSome ∨ obj.minDelayExcess.isSome → obj.excessBlobGas.isSome) ∧
    (obj.timeMilliseconds.isSome ∨ obj.minDelayExcess.isSome → obj.parentBeaconRoot.isSome) ∧
    (obj.minDelayExcess.isSome → obj.timeMilliseconds.isSome) := by
  have missing {α : Type} (field : Option α) (rest : Bool) (encode : α → Bytes) :
      (field.map encode = none → rest = false) ↔ (rest = true → field.isSome) := by
    cases field <;> cases rest <;> simp
  simp only [HeaderSerializable.optionals, Rlp.Leading, missing, List.any_cons, List.any_nil, Bool.or_false, Option.isSome_map,
    Bool.or_eq_true, and_true, implies_true]

/-- The fields of an accepted header lead in their order, but for those that are not checked before SubnetEVM. -/
theorem Accepted.leading_iff (inOrder : vm.InOrder) (accepted : Accepted vm acp226 delay now parent block) {number : Int}
    (vetted : Vetted vm block.header number) : Rlp.Leading block.header.serializable.optionals ↔
      (vm.networkUpgrades.isSubnetEVM block.header.eth.time = false →
        (block.header.extras.blockGasCost.isSome → block.header.eth.baseFee.isSome) ∧
          (vm.isCancun number block.header.eth.time → block.header.eth.baseFee.isSome ∧ block.header.extras.blockGasCost.isSome)) := by
  obtain ⟨milliseconds, excess⟩ := accepted.granite
  have cancun := inOrder.cancun number block.header.eth.time
  have subnetEVM := @Vm.InOrder.subnetEVM T vm inOrder block.header.eth.time
  have baseFee := vetted.baseFee
  have blockGasCost : vm.networkUpgrades.isSubnetEVM block.header.eth.time → block.header.extras.blockGasCost.isSome := by
    intro active
    obtain ⟨cost, there, -⟩ := vetted.blockGasCost active
    rw [there]
    rfl
  rw [leading_optionals]
  change (block.header.extras.blockGasCost.isSome ∨ block.header.eth.blobGasUsed.isSome ∨ block.header.eth.excessBlobGas.isSome ∨
      block.header.eth.parentBeaconRoot.isSome ∨ block.header.extras.timeMilliseconds.isSome ∨
      block.header.extras.minDelayExcess.isSome → block.header.eth.baseFee.isSome) ∧
    (block.header.eth.blobGasUsed.isSome ∨ block.header.eth.excessBlobGas.isSome ∨ block.header.eth.parentBeaconRoot.isSome ∨
      block.header.extras.timeMilliseconds.isSome ∨ block.header.extras.minDelayExcess.isSome →
      block.header.extras.blockGasCost.isSome) ∧
    (block.header.eth.excessBlobGas.isSome ∨ block.header.eth.parentBeaconRoot.isSome ∨
      block.header.extras.timeMilliseconds.isSome ∨ block.header.extras.minDelayExcess.isSome →
      block.header.eth.blobGasUsed.isSome) ∧
    (block.header.eth.parentBeaconRoot.isSome ∨ block.header.extras.timeMilliseconds.isSome ∨
      block.header.extras.minDelayExcess.isSome → block.header.eth.excessBlobGas.isSome) ∧
    (block.header.extras.timeMilliseconds.isSome ∨ block.header.extras.minDelayExcess.isSome →
      block.header.eth.parentBeaconRoot.isSome) ∧
    (block.header.extras.minDelayExcess.isSome → block.header.extras.timeMilliseconds.isSome) ↔ _
  rw [milliseconds, excess, vetted.blobGasUsed, vetted.excessBlobGas, vetted.parentBeaconRoot]
  -- What is left is about when the three forks are active, and whether the two fees are there.
  generalize vm.networkUpgrades.isSubnetEVM block.header.eth.time = active at *
  generalize vm.networkUpgrades.isGranite block.header.eth.time = granite at *
  generalize vm.isCancun number block.header.eth.time = blobs at *
  cases active with
  | true =>
    have first := baseFee rfl
    have second := blockGasCost rfl
    cases granite with
    | true => simp [first, second, cancun rfl]
    | false => simp [first, second]
  | false =>
    cases granite with
    | true => cases subnetEVM rfl
    | false =>
      cases blobs with
      | true => simp +contextual
      | false => simp

/-- The encoding is a slice of bytes. -/
def Fits (rlp : Package) (header : Header) : Prop := ∀ encoded, header.encodeRLP rlp = .ok encoded → encoded.length < 2 ^ 64

variable {rlp : Package}

theorem Accepted.survives_iff (lawful : rlp.Lawful) (inOrder : vm.InOrder) (accepted : Accepted vm acp226 delay now parent block)
    (later : vm.hash block.header ≠ vm.genesisHash) (fits : Fits rlp block.header) :
    block.header.Survives rlp ↔ Decodable vm block.header := by
  obtain ⟨number, vetted⟩ := vetted_of_verifyBlock ((if_neg later).symm.trans accepted.syntactic)
  have numbered : block.header.eth.difficulty.isSome ∧ block.header.eth.number.isSome := by
    rw [vetted.difficulty, vetted.numbered.1]
    exact ⟨rfl, rfl⟩
  rw [Header.survives_iff lawful numbered fits, accepted.leading_iff inOrder vetted]
  constructor
  · rintro ⟨nonneg, early, none⟩
    refine ⟨none, nonneg.baseFee, nonneg.blockGasCost, fun inactive => ⟨(early inactive).1, fun other found => ?_⟩⟩
    obtain rfl := Option.some.inj (vetted.numbered.1.symm.trans found)
    exact (early inactive).2
  · intro decodable
    refine ⟨⟨fun difficulty found => ?_, fun other found => ?_, decodable.baseFee, decodable.blockGasCost⟩, fun inactive => ?_,
      decodable.withdrawalsHash⟩
    · obtain rfl := Option.some.inj (vetted.difficulty.symm.trans found)
      decide
    · obtain rfl := Option.some.inj (vetted.numbered.1.symm.trans found)
      exact vetted.numbered.2
    · exact ⟨(decodable.early inactive).1, (decodable.early inactive).2 number vetted.numbered.1⟩

/-- An accepted header other than the genesis is decoded from its encoding exactly if it is decodable, and
two such headers with one encoding are equal. -/
theorem acceptedHeader_lossless (lawful : rlp.Lawful) (inOrder : vm.InOrder) (accepted : Accepted vm acp226 delay now parent block)
    (later : vm.hash block.header ≠ vm.genesisHash) (fits : Fits rlp block.header) :
    (block.header.Survives rlp ↔ Decodable vm block.header) ∧
    ∀ (now' : Int64) (parent' : Header) (block' : Block T), Accepted vm acp226 delay now' parent' block' →
      vm.hash block'.header ≠ vm.genesisHash → Fits rlp block'.header → Decodable vm block.header → Decodable vm block'.header →
      block.header.encodeRLP rlp = block'.header.encodeRLP rlp → block.header = block'.header := by
  refine ⟨accepted.survives_iff lawful inOrder later fits, fun now' parent' block' accepted' later' fits' first second same => ?_⟩
  have survives := (accepted.survives_iff lawful inOrder later fits).mpr first
  exact survives.injective ((accepted'.survives_iff lawful inOrder later' fits').mpr second) same

end

/-! ## Samples -/

def format : Package := ⟨Rlp.string, Rlp.list, Rlp.elements⟩

theorem format_lawful : format.Lawful where
  elements_list _ fits := Rlp.elements_list fits
  emptyString := rfl

/-- Every upgrade is active. -/
def sampleVm : Vm Unit where
  genesisHash := 0
  networkUpgrades := ⟨some 0, some 0, some 0, none, some 0, none⟩
  isCancun _ _ := true
  hash _ := 1
  deriveSha _ := 5
  calcUncleHash _ := 6
  extension := none

theorem sampleVm_inOrder : sampleVm.InOrder where
  upgrades := by decide
  cancun _ _ _ := rfl

def sampleParent : Header where
  eth := { time := 10 }
  extras := { timeMilliseconds := some 10000, minDelayExcess := some 7 }

/-- A block after ten seconds. -/
def sampleBlock (withdrawalsHash : Option Hash) : Block Unit where
  header := {
    eth := {
      uncleHash := 6
      txHash := 5
      difficulty := some 1
      number := some 1
      time := 20
      extra := List.replicate windowSize 0
      baseFee := some 25
      withdrawalsHash
      blobGasUsed := some 0
      excessBlobGas := some 0
      parentBeaconRoot := some 0 }
    extras := { blockGasCost := some 0, timeMilliseconds := some 20300, minDelayExcess := some 7 } }
  transactions := [()]
  uncles := []

theorem sampleBlock_accepted (withdrawalsHash : Option Hash) :
    Accepted sampleVm ⟨7, fun _ desired => desired⟩ (fun _ => 100) 20000 sampleParent (sampleBlock withdrawalsHash) where
  syntactic := rfl
  time := show verifyTime (fun _ => 100) sampleVm.networkUpgrades sampleParent.toEvm (sampleBlock none).header.toEvm 20000 = .ok () by
    decide +kernel
  minDelayExcess := rfl

/-- A hash of withdrawals is accepted, and is not in the encoding. -/
theorem withdrawalsHash_lost : ¬ ∀ (rlp : Package) (vm : Vm Unit) (acp226 : Evm.Acp226) (delay : UInt64 → UInt64) (now : Int64)
    (parent : Header) (block : Block Unit), rlp.Lawful → vm.InOrder → Accepted vm acp226 delay now parent block →
    block.header.Survives rlp := by
  intro claimed
  obtain ⟨encoded, -, decoded⟩ := claimed format sampleVm _ _ _ _ _ format_lawful sampleVm_inOrder (sampleBlock_accepted (some 17))
  obtain ⟨temp, -, same⟩ := Option.bind_eq_some_iff.mp decoded
  cases (Header.eq_update_iff.mp (Option.some.inj same)).2

theorem sampleBlock_fits : Fits format (sampleBlock none).header := by
  have short : ((sampleBlock none).header.encodeRLP format).toOption.all fun encoded => encoded.length < 1000 := by decide +kernel
  intro encoded success
  rw [success] at short
  exact Nat.lt_trans (of_decide_eq_true short) (by decide)

/-- Without it the header is decoded again. -/
theorem acceptedHeader_lossless_sample : (sampleBlock none).header.Survives format := by
  refine (acceptedHeader_lossless format_lawful sampleVm_inOrder (sampleBlock_accepted none) (by decide) sampleBlock_fits).1.mpr ?_
  refine ⟨rfl, fun baseFee found => ?_, fun blockGasCost found => ?_, fun impossible => (by cases impossible)⟩
  · cases found
    decide
  · cases found
    decide

end Snowside.CustomTypes
