import Mathlib.Algebra.BigOperators.Group.Finset.Basic
import Mathlib.Algebra.Order.BigOperators.Group.Finset
import Mathlib.Data.Fintype.Basic
import Snowside.Partial.Checked
import Snowside.Partial.Stateful

/-! The fees of a transaction: gas is bought up front, what is left is given back, and the
coinbase is paid.
-/

set_option autoImplicit false

namespace Snowside.Fees

open Checked (need refuse)
open Stateful (Action Ends perform check)

abbrev UInt256 := BitVec 256

/-! ## The state -/

variable {Address Hash Rest : Type}

/-- Accounts, the refund counter, and the rest of the state. -/
structure StateDB (Address Hash Rest : Type) where
  balance : Address → UInt256
  nonce : Address → UInt64
  codeHash : Address → Hash
  refund : UInt64
  rest : Rest

/-- The sum of all balances. -/
def StateDB.total [Fintype Address] (state : StateDB Address Hash Rest) : Nat := ∑ address, (state.balance address).toNat

/-- A 256-bit operation of the transition with its operands, kept to say that none wraps. -/
inductive Operation (Address : Type) where
  | convert (value : Nat)
  | product (first second : UInt256)
  | debit (address : Address) (balance amount : UInt256)
  | credit (address : Address) (balance amount : UInt256)
deriving DecidableEq

/-- The result fits into 256 bits. -/
def Operation.Exact : Operation Address → Prop
  | .convert value => value < 2 ^ 256
  | .product first second => first.toNat * second.toNat < 2 ^ 256
  | .debit _ balance amount => amount.toNat ≤ balance.toNat
  | .credit _ balance amount => balance.toNat + amount.toNat < 2 ^ 256

/-- A transition with the block's gas pool, and the operations so far. -/
structure StateTransition (Address Hash Rest : Type) where
  gp : UInt64
  gasRemaining : UInt64 := 0
  initialGas : UInt64 := 0
  state : StateDB Address Hash Rest
  operations : List (Operation Address) := []

/-! ## Messages -/

structure AccessTuple (Address Hash : Type) where
  address : Address
  storageKeys : List Hash

/-- The integers of a signed transaction have no sign. -/
structure Transaction (Address Hash : Type) where
  nonce : UInt64
  gas : UInt64
  gasFeeCap : Nat
  gasTipCap : Nat
  recipient : Option Address
  value : Nat
  data : List UInt8
  accessList : Option (List (AccessTuple Address Hash))
  blobHashes : Option (List Hash)
  blobGasFeeCap : Option Nat

/-- The price of a transaction without a base fee is its fee cap, for each of its types. -/
def Transaction.gasPrice (tx : Transaction Address Hash) : Nat := tx.gasFeeCap

structure Message (Address Hash : Type) where
  recipient : Option Address
  sender : Address
  nonce : UInt64
  value : Nat
  gasLimit : UInt64
  gasPrice : Nat
  gasFeeCap : Option Nat
  gasTipCap : Nat
  data : List UInt8
  accessList : Option (List (AccessTuple Address Hash))
  blobGasFeeCap : Option Nat
  blobHashes : Option (List Hash)
  skipAccountChecks : Bool

def transactionToMessage (tx : Transaction Address Hash) (sender : Address) (baseFee : Option Nat) : Message Address Hash where
  recipient := tx.recipient
  sender := sender
  nonce := tx.nonce
  value := tx.value
  gasLimit := tx.gas
  gasPrice := match baseFee with
    | some baseFee => min (tx.gasTipCap + baseFee) tx.gasFeeCap
    | none => tx.gasPrice
  gasFeeCap := some tx.gasFeeCap
  gasTipCap := tx.gasTipCap
  data := tx.data
  accessList := tx.accessList
  blobGasFeeCap := tx.blobGasFeeCap
  blobHashes := tx.blobHashes
  skipAccountChecks := false

/-- A message whose price is at most its fee cap, with the account checks on. -/
structure Message.Signed (msg : Message Address Hash) : Prop where
  checked : msg.skipAccountChecks = false
  priced : ∃ gasFeeCap, msg.gasFeeCap = some gasFeeCap ∧ msg.gasPrice ≤ gasFeeCap

theorem transactionToMessage_signed (tx : Transaction Address Hash) (sender : Address) (baseFee : Option Nat) :
    (transactionToMessage tx sender baseFee).Signed where
  checked := rfl
  priced := by
    refine ⟨tx.gasFeeCap, rfl, ?_⟩
    cases baseFee with
    | some baseFee => exact Nat.min_le_right _ _
    | none => exact Nat.le_refl _

/-! ## Intrinsic gas -/

structure Rules (Address Hash : Type) where
  isHomestead : Bool
  isIstanbul : Bool
  isDurango : Bool
  isSubnetEVM : Bool
  predicatersExist : Bool
  /-- `PredicateGas` of the contract at an address that verifies predicates. -/
  predicaters : Address → Option (List Hash → Except String UInt64)

inductive GasError where
  | gasUintOverflow
  | predicateGas (cause : String)
deriving DecidableEq

def maxUInt64 : UInt64 := 0xffffffffffffffff

def txGas : UInt64 := 21000
def txGasContractCreation : UInt64 := 53000
def txDataNonZeroGasFrontier : UInt64 := 68
def txDataNonZeroGasEIP2028 : UInt64 := 16
def txDataZeroGas : UInt64 := 4
def initCodeWordGas : UInt64 := 2
def txAccessListAddressGas : UInt64 := 2400
def txAccessListStorageKeyGas : UInt64 := 1900
def maxInitCodeSize : Nat := 49152
def blobTxBlobGasPerBlob : Nat := 131072

/-- `SafeAdd`, with its overflow as an error. -/
def safeAdd (first second : UInt64) : Except GasError UInt64 := do
  refuse (first + second < first) .gasUintOverflow
  return first + second

def accessTupleGas (rules : Rules Address Hash) (tuple : AccessTuple Address Hash) : Except GasError UInt64 :=
  match rules.predicaters tuple.address with
  | none => .ok (txAccessListAddressGas + .ofNat tuple.storageKeys.length * txAccessListStorageKeyGas)
  | some predicateGas => (predicateGas tuple.storageKeys).mapError .predicateGas

def accessListGas (rules : Rules Address Hash) (accessList : List (AccessTuple Address Hash)) : Except GasError UInt64 :=
  if rules.predicatersExist then
    accessList.foldlM (fun gas tuple => do safeAdd gas (← accessTupleGas rules tuple)) 0
  else
    .ok (.ofNat accessList.length * txAccessListAddressGas +
      .ofNat (accessList.flatMap (·.storageKeys)).length * txAccessListStorageKeyGas)

/-- The ceiled number of words that init code takes. -/
def toWordSize (size : UInt64) : UInt64 := if maxUInt64 - 31 < size then maxUInt64 / 32 + 1 else (size + 31) / 32

/-- So many units at a price are added unless they overflow. -/
def addUnits (gas price units : UInt64) : Except GasError UInt64 := do
  refuse ((maxUInt64 - gas) / price < units) .gasUintOverflow
  return gas + units * price

def dataGas (rules : Rules Address Hash) (data : List UInt8) (isContractCreation : Bool) (gas : UInt64) : Except GasError UInt64 := do
  let nz : UInt64 := .ofNat (data.countP (· ≠ 0))
  let gas ← addUnits gas (if rules.isIstanbul then txDataNonZeroGasEIP2028 else txDataNonZeroGasFrontier) nz
  let gas ← addUnits gas txDataZeroGas (.ofNat data.length - nz)
  if isContractCreation && rules.isDurango then addUnits gas initCodeWordGas (toWordSize (.ofNat data.length)) else .ok gas

def intrinsicGas (rules : Rules Address Hash) (data : List UInt8) (accessList : Option (List (AccessTuple Address Hash)))
    (isContractCreation : Bool) : Except GasError UInt64 := do
  let gas := if isContractCreation && rules.isHomestead then txGasContractCreation else txGas
  let gas ← if data.length > 0 then dataGas rules data isContractCreation gas else .ok gas
  match accessList with
  | none => return gas
  | some accessList => safeAdd gas (← accessListGas rules accessList)

/-! ## The EVM -/

/-- What `Call` and `Create` end with, and whether they have marked the execution as invalid. -/
structure CallResult (Address Hash Rest : Type) where
  ret : List UInt8
  leftOverGas : UInt64
  vmerr : Option String
  executionInvalidated : Option String
  state : StateDB Address Hash Rest

/-- The EVM with its context: the chain at a block, and its operations on the state. -/
structure Evm (Address Hash Rest : Type) where
  isLondon : Bool
  isCancun : Bool
  rules : Rules Address Hash
  noBaseFee : Bool
  baseFee : Option Nat
  blobBaseFee : Option Nat
  coinbase : Address
  emptyHash : Hash
  emptyCodeHash : Hash
  isValidVersionedHash : Hash → Bool
  txAllowListEnabled : Bool
  isEnabled : StateDB Address Hash Rest → Address → Bool
  prepare : Message Address Hash → Rest → Rest
  call : StateDB Address Hash Rest → Address → Address → List UInt8 → UInt64 → UInt256 → CallResult Address Hash Rest
  create : StateDB Address Hash Rest → Address → List UInt8 → UInt64 → UInt256 → CallResult Address Hash Rest

/-- Calls and creations move value between accounts, and return at most their gas. -/
structure Evm.Conserves [Fintype Address] (evm : Evm Address Hash Rest) : Prop where
  call_total : ∀ state caller callee data gas value, state.total < 2 ^ 256 →
    (evm.call state caller callee data gas value).state.total = state.total
  call_gas : ∀ state caller callee data gas value, (evm.call state caller callee data gas value).leftOverGas ≤ gas
  create_total : ∀ state caller data gas value, state.total < 2 ^ 256 →
    (evm.create state caller data gas value).state.total = state.total
  create_gas : ∀ state caller data gas value, (evm.create state caller data gas value).leftOverGas ≤ gas

/-! ## The transition -/

inductive TransitionError (Address Hash : Type) where
  | nonceTooHigh (address : Address) (tx state : UInt64)
  | nonceTooLow (address : Address) (tx state : UInt64)
  | nonceMax (address : Address) (nonce : UInt64)
  | senderNoEOA (address : Address) (codehash : Hash)
  | senderAddressNotAllowListed (address : Address)
  | feeCapVeryHigh (address : Address) (bitLength : Nat)
  | tipVeryHigh (address : Address) (bitLength : Nat)
  | tipAboveFeeCap (address : Address) (gasTipCap gasFeeCap : Nat)
  | feeCapTooLow (address : Address) (gasFeeCap baseFee : Nat)
  | blobTxCreate
  | missingBlobHashes
  | invalidHashVersion (index : Nat)
  | blobFeeCapTooLow (address : Address) (blobGasFeeCap blobBaseFee : Nat)
  | requiredBalanceExceeds256Bits (address : Address)
  | insufficientFunds (address : Address) (have_ want : UInt256)
  | gasLimitReached
  | intrinsicGasOf (cause : GasError)
  | intrinsicGas (have_ want : UInt64)
  | insufficientFundsForTransfer (address : Address)
  | maxInitCodeSizeExceeded (codeSize limit : Nat)
  | gasUintOverflow
  | executionInvalidated (cause : String)
  /-- A nil pointer, an overflow in `MustFromBig` or a gas pool above 64 bits. -/
  | runtimePanic

/-- `BitLen`. -/
def bitLen (value : Nat) : Nat := if value = 0 then 0 else value.log2 + 1

/-- `FromBig`, with its overflow as an error. -/
def fromBig {Error : Type} (error : Error) (value : Nat) : Except Error UInt256 := do
  refuse (2 ^ 256 ≤ value) error
  return .ofNat 256 value

def blobGasUsed (msg : Message Address Hash) : UInt64 := .ofNat ((msg.blobHashes.getD []).length * blobTxBlobGasPerBlob)

def gasUsed (st : StateTransition Address Hash Rest) : UInt64 := st.initialGas - st.gasRemaining

def canTransfer (state : StateDB Address Hash Rest) (address : Address) (amount : UInt256) : Prop := amount ≤ state.balance address

instance (state : StateDB Address Hash Rest) (address : Address) (amount : UInt256) : Decidable (canTransfer state address amount) :=
  inferInstanceAs (Decidable (amount ≤ state.balance address))

section

variable [DecidableEq Address]

def StateDB.setBalance (state : StateDB Address Hash Rest) (address : Address) (balance : UInt256) : StateDB Address Hash Rest :=
  { state with balance := Function.update state.balance address balance }

@[simp] theorem StateDB.setBalance_self (state : StateDB Address Hash Rest) (address : Address) (balance : UInt256) :
    (state.setBalance address balance).balance address = balance :=
  Function.update_self ..

def StateDB.setNonce (state : StateDB Address Hash Rest) (address : Address) (nonce : UInt64) : StateDB Address Hash Rest :=
  { state with nonce := Function.update state.nonce address nonce }

omit [DecidableEq Address] in
/-- One balance is at most their sum. -/
theorem StateDB.balance_le_total [Fintype Address] (state : StateDB Address Hash Rest) (address : Address) :
    (state.balance address).toNat ≤ state.total :=
  Finset.single_le_sum (f := fun address => (state.balance address).toNat) (fun _ _ => Nat.zero_le _) (Finset.mem_univ address)

theorem StateDB.total_setBalance [Fintype Address] (state : StateDB Address Hash Rest) (address : Address) (balance : UInt256) :
    (state.setBalance address balance).total + (state.balance address).toNat = state.total + balance.toNat := by
  have others : ∑ other ∈ Finset.univ.erase address, ((state.setBalance address balance).balance other).toNat =
      ∑ other ∈ Finset.univ.erase address, (state.balance other).toNat := by
    refine Finset.sum_congr rfl fun other member => ?_
    exact congrArg BitVec.toNat (Function.update_of_ne (Finset.ne_of_mem_erase member) ..)
  have before := Finset.add_sum_erase Finset.univ (fun other => (state.balance other).toNat) (Finset.mem_univ address)
  have new := Finset.add_sum_erase Finset.univ (fun other => ((state.setBalance address balance).balance other).toNat)
    (Finset.mem_univ address)
  rw [StateDB.setBalance_self] at new
  unfold StateDB.total
  omega

/-! ### 256-bit operations -/

variable {Error : Type}

def note (operation : Operation Address) (st : StateTransition Address Hash Rest) : StateTransition Address Hash Rest :=
  { st with operations := st.operations ++ [operation] }

/-- `FromBig`, with its overflow ignored. -/
def convert (value : Nat) : Action Error (StateTransition Address Hash Rest) UInt256 := do
  modify (note (.convert value))
  return .ofNat 256 value

def mul (first second : UInt256) : Action Error (StateTransition Address Hash Rest) UInt256 := do
  modify (note (.product first second))
  return first * second

def debited (address : Address) (amount : UInt256) (st : StateTransition Address Hash Rest) : StateTransition Address Hash Rest :=
  { note (.debit address (st.state.balance address) amount) st with
    state := st.state.setBalance address (st.state.balance address - amount) }

def credited (address : Address) (amount : UInt256) (st : StateTransition Address Hash Rest) : StateTransition Address Hash Rest :=
  { note (.credit address (st.state.balance address) amount) st with
    state := st.state.setBalance address (st.state.balance address + amount) }

def subBalance (address : Address) (amount : UInt256) : Action Error (StateTransition Address Hash Rest) PUnit :=
  modify (debited address amount)

def addBalance (address : Address) (amount : UInt256) : Action Error (StateTransition Address Hash Rest) PUnit :=
  modify (credited address amount)

/-! ### Checks -/

variable [DecidableEq Hash] (evm : Evm Address Hash Rest) (msg : Message Address Hash)

def checkAccount (state : StateDB Address Hash Rest) : Except (TransitionError Address Hash) Unit :=
  if msg.skipAccountChecks then .ok () else do
    let stNonce := state.nonce msg.sender
    refuse (stNonce < msg.nonce) (.nonceTooHigh msg.sender msg.nonce stNonce)
    refuse (msg.nonce < stNonce) (.nonceTooLow msg.sender msg.nonce stNonce)
    refuse (stNonce + 1 < stNonce) (.nonceMax msg.sender stNonce)
    let codeHash := state.codeHash msg.sender
    refuse (codeHash ≠ evm.emptyHash ∧ codeHash ≠ evm.emptyCodeHash) (.senderNoEOA msg.sender codeHash)
    refuse (evm.txAllowListEnabled ∧ ¬ evm.isEnabled state msg.sender) (.senderAddressNotAllowListed msg.sender)

def checkFeeCap : Except (TransitionError Address Hash) Unit :=
  if evm.isLondon then do
    let gasFeeCap ← need .runtimePanic msg.gasFeeCap
    -- eth_call may ask for no fees at all.
    if evm.noBaseFee ∧ bitLen gasFeeCap = 0 ∧ bitLen msg.gasTipCap = 0 then .ok () else
      refuse (256 < bitLen gasFeeCap) (.feeCapVeryHigh msg.sender (bitLen gasFeeCap))
      refuse (256 < bitLen msg.gasTipCap) (.tipVeryHigh msg.sender (bitLen msg.gasTipCap))
      refuse (gasFeeCap < msg.gasTipCap) (.tipAboveFeeCap msg.sender msg.gasTipCap gasFeeCap)
      let baseFee ← need .runtimePanic evm.baseFee
      refuse (gasFeeCap < baseFee) (.feeCapTooLow msg.sender gasFeeCap baseFee)
  else .ok ()

/-- The versions of the hashes, from an index on. -/
def checkVersions : Nat → List Hash → Except (TransitionError Address Hash) Unit
  | _, [] => .ok ()
  | index, hash :: rest => do
    refuse (¬ evm.isValidVersionedHash hash) (.invalidHashVersion index)
    checkVersions (index + 1) rest

def checkBlobHashes : Except (TransitionError Address Hash) Unit :=
  match msg.blobHashes with
  | none => .ok ()
  | some blobHashes => do
    refuse (msg.recipient = none) .blobTxCreate
    refuse (blobHashes.length = 0) .missingBlobHashes
    checkVersions evm 0 blobHashes

def checkBlobFee : Except (TransitionError Address Hash) Unit :=
  if evm.isCancun ∧ 0 < blobGasUsed msg then do
    let blobGasFeeCap ← need .runtimePanic msg.blobGasFeeCap
    if evm.noBaseFee ∧ bitLen blobGasFeeCap = 0 then .ok () else
      let blobBaseFee ← need .runtimePanic evm.blobBaseFee
      refuse (blobGasFeeCap < blobBaseFee) (.blobFeeCapTooLow msg.sender blobGasFeeCap blobBaseFee)
  else .ok ()

/-! ### Gas -/

def subGas (amount : UInt64) : Action (TransitionError Address Hash) (StateTransition Address Hash Rest) PUnit := do
  let st ← get
  check (refuse (st.gp < amount) .gasLimitReached)
  modify fun st => { st with gp := st.gp - amount }

def addGas (amount : UInt64) : Action (TransitionError Address Hash) (StateTransition Address Hash Rest) PUnit := do
  let st ← get
  check (refuse (maxUInt64 - amount < st.gp) .runtimePanic)
  modify fun st => { st with gp := st.gp + amount }

/-- What the blobs may cost, and what they do cost. -/
def blobCosts : Except (TransitionError Address Hash) (Nat × Nat) :=
  if evm.isCancun ∧ 0 < blobGasUsed msg then do
    let blobGasFeeCap ← need .runtimePanic msg.blobGasFeeCap
    let blobBaseFee ← need .runtimePanic evm.blobBaseFee
    return ((blobGasUsed msg).toNat * blobGasFeeCap, (blobGasUsed msg).toNat * blobBaseFee)
  else .ok (0, 0)

/-- The balance that the sender needs, without its blobs. -/
def balanceCheck : Nat :=
  match msg.gasFeeCap with
  | some gasFeeCap => msg.gasLimit.toNat * gasFeeCap + msg.value
  | none => msg.gasLimit.toNat * msg.gasPrice

/-- What the sender pays up front: all of the gas, and the blobs. -/
def mgval (blobFee : Nat) : Nat := msg.gasLimit.toNat * msg.gasPrice + blobFee

def buyGas : Action (TransitionError Address Hash) (StateTransition Address Hash Rest) PUnit := do
  -- The balance is checked at the fee caps, the debit is at the price and the blob base fee.
  let (blobBalanceCheck, blobFee) ← check (blobCosts evm msg)
  let want ← check (fromBig (.requiredBalanceExceeds256Bits msg.sender) (balanceCheck msg + blobBalanceCheck))
  let have_ := (← get).state.balance msg.sender
  check (refuse (have_ < want) (.insufficientFunds msg.sender have_ want))
  subGas msg.gasLimit
  modify fun st => { st with gasRemaining := st.gasRemaining + msg.gasLimit, initialGas := msg.gasLimit }
  subBalance msg.sender (← convert (mgval msg blobFee))

def preCheck : Action (TransitionError Address Hash) (StateTransition Address Hash Rest) PUnit := do
  check (checkAccount evm msg (← get).state)
  check (checkFeeCap evm msg)
  check (checkBlobHashes evm msg)
  check (checkBlobFee evm msg)
  buyGas evm msg

/-- The refund counter's part, capped to half of the gas used; none on a subnet. -/
def refundOf (st : StateTransition Address Hash Rest) : UInt64 :=
  if evm.rules.isSubnetEVM then 0 else if st.state.refund < gasUsed st / 2 then st.state.refund else gasUsed st / 2

def refundGas : Action (TransitionError Address Hash) (StateTransition Address Hash Rest) UInt64 := do
  let refund := refundOf evm (← get)
  modify fun st => { st with gasRemaining := st.gasRemaining + refund }
  let gasRemaining := (← get).gasRemaining
  let price ← check (fromBig .runtimePanic msg.gasPrice)
  let remaining ← mul (.ofNat 256 gasRemaining.toNat) price
  addBalance msg.sender remaining
  addGas gasRemaining
  return refund

/-! ### TransitionDb -/

structure ExecutionResult where
  usedGas : UInt64
  refundedGas : UInt64
  err : Option String
  returnData : List UInt8

def useGas : Action (TransitionError Address Hash) (StateTransition Address Hash Rest) PUnit := do
  let gas ← check ((intrinsicGas evm.rules msg.data msg.accessList msg.recipient.isNone).mapError .intrinsicGasOf)
  let gasRemaining := (← get).gasRemaining
  check (refuse (gasRemaining < gas) (.intrinsicGas gasRemaining gas))
  modify fun st => { st with gasRemaining := st.gasRemaining - gas }

/-- The call or the creation of the message. -/
def run (value : UInt256) (st : StateTransition Address Hash Rest) : CallResult Address Hash Rest :=
  match msg.recipient with
  | none => evm.create st.state msg.sender msg.data st.gasRemaining value
  | some recipient =>
    evm.call (st.state.setNonce msg.sender (st.state.nonce msg.sender + 1)) msg.sender recipient msg.data st.gasRemaining value

def payCoinbase (price : UInt256) : Action (TransitionError Address Hash) (StateTransition Address Hash Rest) PUnit := do
  let fee ← mul (.ofNat 256 (gasUsed (← get)).toNat) price
  addBalance evm.coinbase fee

/-- An execution that was marked as invalid is reverted. -/
def checkInvalidated (snap : StateDB Address Hash Rest) :
    Option String → Action (TransitionError Address Hash) (StateTransition Address Hash Rest) PUnit
  | none => pure ()
  | some cause => do
    modify fun st => { st with state := snap }
    throw (.executionInvalidated cause)

def transitionDb : Action (TransitionError Address Hash) (StateTransition Address Hash Rest) ExecutionResult := do
  preCheck evm msg
  useGas evm msg
  let value ← check (fromBig (.insufficientFundsForTransfer msg.sender) msg.value)
  check (refuse (value ≠ 0 ∧ ¬ canTransfer (← get).state msg.sender value) (.insufficientFundsForTransfer msg.sender))
  check (refuse (evm.rules.isDurango ∧ msg.recipient = none ∧ maxInitCodeSize < msg.data.length)
    (.maxInitCodeSizeExceeded msg.data.length maxInitCodeSize))
  modify fun st => { st with state := { st.state with rest := evm.prepare msg st.state.rest } }
  -- The snapshot, should the execution turn out to be invalid.
  let st ← get
  let called := run evm msg value st
  modify fun st => { st with state := called.state, gasRemaining := called.leftOverGas }
  let price ← check (fromBig .gasUintOverflow msg.gasPrice)
  let gasRefund ← refundGas evm msg
  payCoinbase evm price
  checkInvalidated st.state called.executionInvalidated
  return ⟨gasUsed (← get), gasRefund, called.vmerr, called.ret⟩

/-! ### What the steps do -/

variable {evm msg} {st after : StateTransition Address Hash Rest}

omit [DecidableEq Hash] in
theorem fromBig_eq_ok {Error : Type} {error : Error} {value : Nat} {result : UInt256} (converted : fromBig error value = .ok result) :
    value < 2 ^ 256 ∧ result = .ofNat 256 value := by
  unfold fromBig at converted
  simp only [Checked.bind_eq_ok, Checked.refuse_eq_ok, Checked.pure_eq, Except.ok.injEq] at converted
  obtain ⟨_, small, rfl⟩ := converted
  exact ⟨Nat.lt_of_not_le small, rfl⟩

omit [DecidableEq Address] [DecidableEq Hash] in
theorem subGas_eq_ok {amount : UInt64} {done : PUnit}
    (ended : perform (subGas amount : Action (TransitionError Address Hash) _ _) st = (.ok done, after)) :
    amount ≤ st.gp ∧ after = { st with gp := st.gp - amount } := by
  unfold subGas at ended
  simp only [Stateful.perform_get_bind, Stateful.perform_check_bind_eq_ok, Checked.refuse_eq_ok, Stateful.perform_modify,
    Prod.mk.injEq] at ended
  obtain ⟨_, enough, -, rfl⟩ := ended
  exact ⟨UInt64.not_lt.mp enough, rfl⟩

omit [DecidableEq Address] [DecidableEq Hash] in
theorem addGas_eq_ok {amount : UInt64} {done : PUnit}
    (ended : perform (addGas amount : Action (TransitionError Address Hash) _ _) st = (.ok done, after)) :
    st.gp ≤ maxUInt64 - amount ∧ after = { st with gp := st.gp + amount } := by
  unfold addGas at ended
  simp only [Stateful.perform_get_bind, Stateful.perform_check_bind_eq_ok, Checked.refuse_eq_ok, Stateful.perform_modify,
    Prod.mk.injEq] at ended
  obtain ⟨_, room, -, rfl⟩ := ended
  exact ⟨UInt64.not_lt.mp room, rfl⟩

omit [DecidableEq Hash] in
theorem buyGas_eq_ok {done : PUnit} (ended : perform (buyGas evm msg) st = (.ok done, after)) :
    ∃ costs, blobCosts evm msg = .ok costs ∧ balanceCheck msg + costs.1 ≤ (st.state.balance msg.sender).toNat ∧
      msg.gasLimit ≤ st.gp ∧
      after = debited msg.sender (.ofNat 256 (mgval msg costs.2)) (note (.convert (mgval msg costs.2))
        { st with gp := st.gp - msg.gasLimit, gasRemaining := st.gasRemaining + msg.gasLimit, initialGas := msg.gasLimit }) := by
  unfold buyGas at ended
  rw [Stateful.perform_check_bind_eq_ok] at ended
  obtain ⟨⟨blobBalanceCheck, blobFee⟩, costs, ended⟩ := ended
  dsimp only at ended
  simp only [Stateful.perform_get_bind, Stateful.perform_check_bind_eq_ok, Checked.refuse_eq_ok] at ended
  obtain ⟨want, converted, _, enough, ended⟩ := ended
  obtain ⟨small, rfl⟩ := fromBig_eq_ok converted
  rw [Stateful.perform_bind_eq_ok] at ended
  obtain ⟨_, pooled, taken, ended⟩ := ended
  obtain ⟨gas, rfl⟩ := subGas_eq_ok taken
  refine ⟨_, costs, ?_, gas, (congrArg Prod.snd ended).symm⟩
  rw [BitVec.not_lt, BitVec.le_def, BitVec.toNat_ofNat, Nat.mod_eq_of_lt small] at enough
  exact enough

omit [DecidableEq Address] [DecidableEq Hash] in
theorem useGas_eq_ok {done : PUnit} (ended : perform (useGas evm msg) st = (.ok done, after)) :
    ∃ gas, intrinsicGas evm.rules msg.data msg.accessList msg.recipient.isNone = .ok gas ∧ gas ≤ st.gasRemaining ∧
      after = { st with gasRemaining := st.gasRemaining - gas } := by
  unfold useGas at ended
  simp only [Stateful.perform_get_bind, Stateful.perform_check_bind_eq_ok, Checked.refuse_eq_ok, Checked.mapError_eq_ok,
    Stateful.perform_modify, Prod.mk.injEq] at ended
  obtain ⟨gas, intrinsic, _, enough, -, rfl⟩ := ended
  exact ⟨gas, intrinsic, UInt64.not_lt.mp enough, rfl⟩

/-- The price of so much gas, as the code computes it. -/
def cost (gas : UInt64) (price : Nat) : UInt256 := .ofNat 256 gas.toNat * .ofNat 256 price

/-- Money for gas goes to an account. -/
def paid (address : Address) (gas : UInt64) (price : Nat) (st : StateTransition Address Hash Rest) :
    StateTransition Address Hash Rest :=
  credited address (cost gas price) (note (.product (.ofNat 256 gas.toNat) (.ofNat 256 price)) st)

omit [DecidableEq Hash] in
theorem refundGas_eq_ok {refund : UInt64} (ended : perform (refundGas evm msg) st = (.ok refund, after)) :
    refund = refundOf evm st ∧ st.gp ≤ maxUInt64 - (st.gasRemaining + refund) ∧
      after = { paid msg.sender (st.gasRemaining + refund) msg.gasPrice { st with gasRemaining := st.gasRemaining + refund } with
        gp := st.gp + (st.gasRemaining + refund) } := by
  unfold refundGas at ended
  simp only [Stateful.perform_get_bind, Stateful.perform_modify_bind, Stateful.perform_check_bind_eq_ok] at ended
  obtain ⟨price, converted, ended⟩ := ended
  obtain ⟨-, rfl⟩ := fromBig_eq_ok converted
  simp only [mul, addBalance, bind_assoc, Stateful.perform_modify_bind, pure_bind, Stateful.perform_bind_eq_ok, Stateful.perform_pure,
    Prod.mk.injEq, Except.ok.injEq] at ended
  obtain ⟨_, _, added, rfl, rfl⟩ := ended
  obtain ⟨room, rfl⟩ := addGas_eq_ok added
  exact ⟨rfl, room, rfl⟩

/-- The state that the message runs from. -/
def prepared (evm : Evm Address Hash Rest) (msg : Message Address Hash) (st : StateTransition Address Hash Rest) :
    StateTransition Address Hash Rest :=
  { st with state := { st.state with rest := evm.prepare msg st.state.rest } }

omit [DecidableEq Address] [DecidableEq Hash] in
theorem checkInvalidated_eq_ok {snap : StateDB Address Hash Rest} {invalidated : Option String} {done : PUnit}
    (ended : perform (checkInvalidated snap invalidated) st = (.ok done, after)) : after = st := by
  cases invalidated with
  | none => exact (congrArg Prod.snd ended).symm
  | some cause => cases congrArg Prod.fst ended

/-- The state that the execution of the message leaves. -/
def halted (evm : Evm Address Hash Rest) (msg : Message Address Hash) (st : StateTransition Address Hash Rest)
    (called : CallResult Address Hash Rest) : StateTransition Address Hash Rest :=
  { prepared evm msg st with state := called.state, gasRemaining := called.leftOverGas }

theorem transitionDb_eq_ok {result : ExecutionResult} (ended : perform (transitionDb evm msg) st = (.ok result, after)) :
    ∃ bought used value called refunded, perform (preCheck evm msg) st = (.ok ⟨⟩, bought) ∧
      perform (useGas evm msg) bought = (.ok ⟨⟩, used) ∧ called = run evm msg value (prepared evm msg used) ∧
      perform (refundGas evm msg) (halted evm msg used called) = (.ok result.refundedGas, refunded) ∧
      msg.gasPrice < 2 ^ 256 ∧ after = paid evm.coinbase (gasUsed refunded) msg.gasPrice refunded ∧
      result.usedGas = gasUsed after := by
  unfold transitionDb at ended
  rw [Stateful.perform_bind_eq_ok] at ended
  obtain ⟨_, bought, checked, ended⟩ := ended
  rw [Stateful.perform_bind_eq_ok] at ended
  obtain ⟨_, used, taken, ended⟩ := ended
  simp only [Stateful.perform_get_bind, Stateful.perform_modify_bind, Stateful.perform_check_bind_eq_ok] at ended
  obtain ⟨value, -, _, -, _, -, price, converted, ended⟩ := ended
  obtain ⟨small, rfl⟩ := fromBig_eq_ok converted
  rw [Stateful.perform_bind_eq_ok] at ended
  obtain ⟨gasRefund, refunded, given, ended⟩ := ended
  simp only [payCoinbase, mul, addBalance, bind_assoc, Stateful.perform_get_bind, Stateful.perform_modify_bind, pure_bind] at ended
  rw [Stateful.perform_bind_eq_ok] at ended
  obtain ⟨_, final, valid, ended⟩ := ended
  obtain rfl := checkInvalidated_eq_ok valid
  simp only [Stateful.perform_get_bind, Stateful.perform_pure, Prod.mk.injEq, Except.ok.injEq] at ended
  obtain ⟨rfl, rfl⟩ := ended
  exact ⟨bought, used, value, _, refunded, checked, taken, rfl, given, small, rfl, rfl⟩

/-! ## Fees are conserved -/

def newStateTransition (gp : UInt64) (state : StateDB Address Hash Rest) : StateTransition Address Hash Rest :=
  { gp := gp, state := state }

/-- What the blobs of a message cost. -/
def blobFee (evm : Evm Address Hash Rest) (msg : Message Address Hash) : Nat :=
  if evm.isCancun ∧ 0 < blobGasUsed msg then (blobGasUsed msg).toNat * evm.blobBaseFee.getD 0 else 0

section

variable [Fintype Address]

/-- So much is debited and not yet credited, and no operation has wrapped. -/
structure Due (before due : Nat) (st : StateTransition Address Hash Rest) : Prop where
  total : st.state.total + due = before
  exact : ∀ operation ∈ st.operations, operation.Exact

omit [DecidableEq Hash] in
theorem Due.pay {before due : Nat} (owed : Due before due st) (small : before < 2 ^ 256) (gas : UInt64) {price : Nat}
    (priced : price < 2 ^ 256) (within : gas.toNat * price ≤ due) (address : Address) :
    Due before (due - gas.toNat * price) (paid address gas price st) ∧ cost gas price = .ofNat 256 (gas.toNat * price) ∧
      ((paid address gas price st).state.balance address).toNat = (st.state.balance address).toNat + gas.toNat * price := by
  -- A balance is at most the sum, and the sum has room for what is due.
  have total := owed.total
  have held := st.state.balance_le_total address
  have gas_small : gas.toNat < 2 ^ 256 := Nat.lt_trans gas.toNat_lt (by decide)
  have product : cost gas price = .ofNat 256 (gas.toNat * price) := (BitVec.ofNat_mul ..).symm
  have amount : (cost gas price).toNat = gas.toNat * price := by
    rw [product, BitVec.toNat_ofNat, Nat.mod_eq_of_lt (by omega)]
  have new : (st.state.balance address + cost gas price).toNat = (st.state.balance address).toNat + gas.toNat * price := by
    rw [BitVec.toNat_add, amount, Nat.mod_eq_of_lt (by omega)]
  have sums := st.state.total_setBalance address (st.state.balance address + cost gas price)
  have here : (paid address gas price st).state.balance address = st.state.balance address + cost gas price :=
    st.state.setBalance_self address _
  refine ⟨⟨?_, ?_⟩, product, (congrArg BitVec.toNat here).trans new⟩
  · show (st.state.setBalance address (st.state.balance address + cost gas price)).total + _ = _
    omega
  · intro operation member
    rw [paid, credited, note, note] at member
    dsimp only at member
    rw [List.mem_append, List.mem_append, List.mem_singleton, List.mem_singleton] at member
    rcases member with (member | rfl) | rfl
    · exact owed.exact operation member
    · show (BitVec.ofNat 256 gas.toNat).toNat * (BitVec.ofNat 256 price).toNat < 2 ^ 256
      rw [BitVec.toNat_ofNat, BitVec.toNat_ofNat, Nat.mod_eq_of_lt gas_small, Nat.mod_eq_of_lt priced]
      omega
    · show (st.state.balance address).toNat + (cost gas price).toNat < 2 ^ 256
      omega

omit [DecidableEq Address] [DecidableEq Hash] [Fintype Address] in
/-- With the base fee active, the blobs cost at most what the balance is checked for. -/
theorem blobCosts_le (active : evm.noBaseFee = false) (checked : checkBlobFee evm msg = .ok ()) {costs : Nat × Nat}
    (priced : blobCosts evm msg = .ok costs) : costs.2 = blobFee evm msg ∧ costs.2 ≤ costs.1 := by
  unfold blobCosts at priced
  unfold checkBlobFee at checked
  unfold blobFee
  by_cases charged : evm.isCancun ∧ 0 < blobGasUsed msg
  · rw [if_pos charged] at priced checked ⊢
    simp only [Checked.bind_eq_ok, Checked.need_eq_ok, Checked.pure_eq, Except.ok.injEq] at priced checked
    obtain ⟨blobGasFeeCap, cap, blobBaseFee, fee, rfl⟩ := priced
    obtain ⟨_, same, checked⟩ := checked
    obtain rfl := Option.some.inj (cap.symm.trans same)
    rw [if_neg (by simp [active]), Checked.bind_eq_ok] at checked
    obtain ⟨_, found, enough⟩ := checked
    rw [Checked.need_eq_ok, fee, Option.some.injEq] at found
    rw [Checked.refuse_eq_ok, ← found, Nat.not_lt] at enough
    rw [fee]
    exact ⟨rfl, Nat.mul_le_mul_left _ enough⟩
  · rw [if_neg charged] at priced ⊢
    cases priced
    exact ⟨rfl, Nat.le_refl 0⟩

/-- The gas is bought with money that the sender has. -/
theorem preCheck_due (active : evm.noBaseFee = false) (signed : msg.Signed) {pool : UInt64} {before : StateDB Address Hash Rest}
    (small : before.total < 2 ^ 256) {done : PUnit}
    (ended : perform (preCheck evm msg) (newStateTransition pool before) = (.ok done, after)) :
    Due before.total (mgval msg (blobFee evm msg)) after ∧ msg.gasLimit ≤ pool ∧ after.gp = pool - msg.gasLimit ∧
      after.gasRemaining = msg.gasLimit ∧ after.initialGas = msg.gasLimit ∧
      after.operations = [.convert (mgval msg (blobFee evm msg)),
        .debit msg.sender (before.balance msg.sender) (.ofNat 256 (mgval msg (blobFee evm msg)))] := by
  unfold preCheck at ended
  simp only [Stateful.perform_get_bind, Stateful.perform_check_bind_eq_ok] at ended
  obtain ⟨_, -, _, -, _, -, _, checked, ended⟩ := ended
  obtain ⟨costs, priced, funded, gas, rfl⟩ := buyGas_eq_ok ended
  obtain ⟨fee, within⟩ := blobCosts_le active checked priced
  obtain ⟨gasFeeCap, capped, cheap⟩ := signed.priced
  -- What was checked is at least what is paid: the caps are at least the prices.
  have needed : mgval msg (blobFee evm msg) ≤ (before.balance msg.sender).toNat := by
    have gas_cost := Nat.mul_le_mul_left msg.gasLimit.toNat cheap
    have check : balanceCheck msg = msg.gasLimit.toNat * gasFeeCap + msg.value := by rw [balanceCheck, capped]
    rw [check] at funded
    rw [mgval, ← fee]
    have held : (before.balance msg.sender).toNat = ((newStateTransition pool before).state.balance msg.sender).toNat := rfl
    omega
  rw [fee]
  have fits : mgval msg (blobFee evm msg) < 2 ^ 256 := Nat.lt_of_le_of_lt (Nat.le_trans needed (before.balance_le_total _)) small
  have amount : (BitVec.ofNat 256 (mgval msg (blobFee evm msg))).toNat = mgval msg (blobFee evm msg) := by
    rw [BitVec.toNat_ofNat, Nat.mod_eq_of_lt fits]
  refine ⟨⟨?_, ?_⟩, gas, rfl, UInt64.zero_add _, rfl, rfl⟩
  · have sums := before.total_setBalance msg.sender (before.balance msg.sender - .ofNat 256 (mgval msg (blobFee evm msg)))
    rw [BitVec.toNat_sub_of_le (by rw [BitVec.le_def, amount]; exact needed), amount] at sums
    show (before.setBalance msg.sender (before.balance msg.sender - .ofNat 256 (mgval msg (blobFee evm msg)))).total + _ = _
    omega
  · show ∀ operation ∈ [Operation.convert _, .debit msg.sender (before.balance msg.sender) (.ofNat 256 _)], operation.Exact
    intro operation member
    rw [List.mem_cons, List.mem_singleton] at member
    rcases member with rfl | rfl
    · exact fits
    · exact amount.trans_le needed

omit [DecidableEq Hash] in
/-- The message runs with the sum of all balances kept. -/
theorem run_conserves (conserves : evm.Conserves) (value : UInt256) (small : st.state.total < 2 ^ 256) :
    (run evm msg value st).state.total = st.state.total ∧ (run evm msg value st).leftOverGas ≤ st.gasRemaining := by
  unfold run
  cases msg.recipient with
  | none => exact ⟨conserves.create_total _ _ _ _ _ small, conserves.create_gas ..⟩
  | some recipient => exact ⟨conserves.call_total _ _ _ _ _ _ small, conserves.call_gas ..⟩

omit [DecidableEq Address] [DecidableEq Hash] [Fintype Address] in
/-- The refund is at most the gas used. -/
theorem refundOf_le (st : StateTransition Address Hash Rest) : (refundOf evm st).toNat ≤ (gasUsed st).toNat := by
  have half : (gasUsed st / 2).toNat ≤ (gasUsed st).toNat := by
    rw [UInt64.toNat_div]
    exact Nat.div_le_self ..
  unfold refundOf
  split
  · exact Nat.zero_le _
  · split
    · rename_i less
      exact Nat.le_trans (Nat.le_of_lt (UInt64.lt_iff_toNat_lt.mp less)) half
    · exact half

omit [DecidableEq Address] [DecidableEq Hash] [Fintype Address] in
/-- What is given back is at most what was bought. -/
theorem gas_given_back (evm : Evm Address Hash Rest) (within : st.gasRemaining ≤ st.initialGas) :
    (st.gasRemaining + refundOf evm st).toNat = st.gasRemaining.toNat + (refundOf evm st).toNat ∧
      st.gasRemaining.toNat + (refundOf evm st).toNat ≤ st.initialGas.toNat := by
  have refund : (refundOf evm st).toNat ≤ (gasUsed st).toNat := refundOf_le st
  have used : (gasUsed st).toNat = st.initialGas.toNat - st.gasRemaining.toNat := UInt64.toNat_sub_of_le _ _ within
  rw [UInt64.le_iff_toNat_le] at within
  have limit := st.initialGas.toNat_lt
  refine ⟨?_, by omega⟩
  rw [UInt64.toNat_add, Nat.mod_eq_of_lt (by omega)]

omit [DecidableEq Hash] in
/-- The sender and the coinbase share the price of the gas. -/
theorem Due.settled {before fee : Nat} {back : UInt64} (owed : Due before (mgval msg fee) st) (pool : UInt64)
    (small : before < 2 ^ 256) (priced : msg.gasPrice < 2 ^ 256) (initial : st.initialGas = msg.gasLimit)
    (within : back ≤ msg.gasLimit) (coinbase : Address) :
    let refunded := { paid msg.sender back msg.gasPrice { st with gasRemaining := back } with gp := pool }
    let final := paid coinbase (gasUsed refunded) msg.gasPrice refunded
    Due before fee final ∧ (gasUsed final).toNat + back.toNat = msg.gasLimit.toNat ∧
      (final.state.balance coinbase).toNat = (refunded.state.balance coinbase).toNat + (gasUsed final).toNat * msg.gasPrice ∧
      ∃ one other : UInt256, final.operations = st.operations ++
        [.product (.ofNat 256 back.toNat) (.ofNat 256 msg.gasPrice),
          .credit msg.sender one (.ofNat 256 (back.toNat * msg.gasPrice)),
          .product (.ofNat 256 (gasUsed final).toNat) (.ofNat 256 msg.gasPrice),
          .credit coinbase other (.ofNat 256 ((gasUsed final).toNat * msg.gasPrice))] ∧
        other = refunded.state.balance coinbase := by
  intro refunded final
  have used : (gasUsed final).toNat = msg.gasLimit.toNat - back.toNat := by
    show (st.initialGas - back).toNat = _
    rw [initial]
    exact UInt64.toNat_sub_of_le _ _ within
  have limit := UInt64.le_iff_toNat_le.mp within
  -- The gas that is used and the gas that is given back are all of it.
  have shares : back.toNat * msg.gasPrice + (gasUsed final).toNat * msg.gasPrice = msg.gasLimit.toNat * msg.gasPrice := by
    rw [← Nat.add_mul, used, Nat.add_sub_cancel' limit]
  have due : mgval msg fee = msg.gasLimit.toNat * msg.gasPrice + fee := rfl
  have resumed : Due before (mgval msg fee) { st with gasRemaining := back } := ⟨owed.total, owed.exact⟩
  obtain ⟨given, one_cost, -⟩ := resumed.pay small back priced (by omega) msg.sender
  have pooled : Due before (mgval msg fee - back.toNat * msg.gasPrice) refunded := ⟨given.total, given.exact⟩
  have same : gasUsed refunded = gasUsed final := rfl
  obtain ⟨ended, other_cost, balance⟩ := pooled.pay small (gasUsed refunded) priced (by rw [same]; omega) coinbase
  have rest : mgval msg fee - back.toNat * msg.gasPrice - (gasUsed refunded).toNat * msg.gasPrice = fee := by
    rw [same]
    omega
  rw [rest] at ended
  refine ⟨ended, by omega, balance, st.state.balance msg.sender, _, ?_, rfl⟩
  rw [← one_cost, ← same, ← other_cost]
  simp only [final, refunded, paid, credited, note, List.append_assoc, List.cons_append, List.nil_append]

omit [DecidableEq Hash] in
/-- The execution keeps what is due, and the gas that it leaves is from what the intrinsic gas has left. -/
theorem Due.halted {before due : Nat} (owed : Due before due st) (conserves : evm.Conserves) (small : before < 2 ^ 256) {gas : UInt64}
    (affordable : gas ≤ st.gasRemaining) (msg : Message Address Hash) (value : UInt256) :
    let used := { st with gasRemaining := st.gasRemaining - gas }
    let halted := halted evm msg used (run evm msg value (prepared evm msg used))
    Due before due halted ∧ halted.gasRemaining.toNat + gas.toNat ≤ st.gasRemaining.toNat := by
  intro used halted
  obtain ⟨kept, left_le⟩ := run_conserves conserves value
    (show (prepared evm msg used).state.total < 2 ^ 256 from Nat.lt_of_le_of_lt (Nat.le.intro owed.total) small)
  have left : halted.gasRemaining.toNat ≤ (st.gasRemaining - gas).toNat := left_le
  have rest : (st.gasRemaining - gas).toNat = st.gasRemaining.toNat - gas.toNat := UInt64.toNat_sub_of_le _ _ affordable
  have paid_for := UInt64.le_iff_toNat_le.mp affordable
  exact ⟨⟨(congrArg (· + due) kept).trans owed.total, owed.exact⟩, by omega⟩

/-- What holds of a transition with a result. -/
structure Conserved (evm : Evm Address Hash Rest) (msg : Message Address Hash) (pool : UInt64) (before : StateDB Address Hash Rest)
    (result : ExecutionResult) (final : StateTransition Address Hash Rest) : Prop where
  fell : final.state.total + blobFee evm msg = before.total
  credited : ∃ bought refunded balance back, final.operations =
    [.convert (mgval msg (blobFee evm msg)), .debit msg.sender bought (.ofNat 256 (mgval msg (blobFee evm msg))),
      .product (.ofNat 256 back) (.ofNat 256 msg.gasPrice), .credit msg.sender refunded (.ofNat 256 (back * msg.gasPrice)),
      .product (.ofNat 256 result.usedGas.toNat) (.ofNat 256 msg.gasPrice),
      .credit evm.coinbase balance (.ofNat 256 (result.usedGas.toNat * msg.gasPrice))] ∧
    (final.state.balance evm.coinbase).toNat = balance.toNat + result.usedGas.toNat * msg.gasPrice
  pooled : ∃ back, msg.gasLimit.toNat ≤ pool.toNat ∧ final.gp.toNat = pool.toNat - msg.gasLimit.toNat + back ∧
    result.usedGas.toNat + back = msg.gasLimit.toNat
  intrinsic : ∃ gas, intrinsicGas evm.rules msg.data msg.accessList msg.recipient.isNone = .ok gas ∧
    gas.toNat ≤ result.usedGas.toNat + result.refundedGas.toNat
  exact : ∀ operation ∈ final.operations, operation.Exact

/-- Only the blob fee leaves the accounts. -/
theorem fees_conserved (conserves : evm.Conserves) (active : evm.noBaseFee = false) (signed : msg.Signed) (pool : UInt64)
    (before : StateDB Address Hash Rest) (small : before.total < 2 ^ 256) (result : ExecutionResult)
    (final : StateTransition Address Hash Rest)
    (ended : perform (transitionDb evm msg) (newStateTransition pool before) = (.ok result, final)) :
    Conserved evm msg pool before result final := by
  obtain ⟨bought, used, value, called, refunded, checked, taken, rfl, given, priced, rfl, spent⟩ := transitionDb_eq_ok ended
  obtain ⟨owed, enough, bought_pool, bought_gas, bought_initial, bought_operations⟩ := preCheck_due active signed small checked
  obtain ⟨gas, intrinsic, affordable, rfl⟩ := useGas_eq_ok taken
  obtain ⟨refund, -, rfl⟩ := refundGas_eq_ok given
  obtain ⟨stopped_due, stopped_gas⟩ := owed.halted conserves small affordable msg value
  generalize halting : halted evm msg _ _ = stopped at *
  have stopped_initial : stopped.initialGas = msg.gasLimit := halting ▸ bought_initial
  have stopped_operations : stopped.operations = bought.operations := halting ▸ rfl
  have stopped_pool : stopped.gp = pool - msg.gasLimit := halting ▸ bought_pool
  rw [bought_gas] at stopped_gas
  have within : stopped.gasRemaining ≤ stopped.initialGas := by
    rw [stopped_initial, UInt64.le_iff_toNat_le]
    omega
  obtain ⟨sum, back_le⟩ := gas_given_back evm within
  rw [← refund] at sum back_le
  have back_within : stopped.gasRemaining + result.refundedGas ≤ msg.gasLimit := by
    rw [UInt64.le_iff_toNat_le, sum, ← stopped_initial]
    exact back_le
  obtain ⟨fell, gas_split, balance, one, other, operations, other_eq⟩ :=
    stopped_due.settled (stopped.gp + (stopped.gasRemaining + result.refundedGas)) small priced stopped_initial back_within
      evm.coinbase
  rw [← spent] at gas_split balance operations
  refine ⟨fell.total, ?_, ?_, ⟨gas, intrinsic, ?_⟩, fell.exact⟩
  · refine ⟨before.balance msg.sender, one, other, (stopped.gasRemaining + result.refundedGas).toNat, ?_, ?_⟩
    · rw [operations, stopped_operations, bought_operations]
      rfl
    · rw [other_eq]
      exact balance
  · refine ⟨(stopped.gasRemaining + result.refundedGas).toNat, UInt64.le_iff_toNat_le.mp enough, ?_, gas_split⟩
    have bought_toNat : stopped.gp.toNat = pool.toNat - msg.gasLimit.toNat := by
      rw [stopped_pool]
      exact UInt64.toNat_sub_of_le _ _ enough
    have pool_lt := pool.toNat_lt
    have limit := UInt64.le_iff_toNat_le.mp enough
    show (stopped.gp + (stopped.gasRemaining + result.refundedGas)).toNat = _
    rw [UInt64.toNat_add, bought_toNat, Nat.mod_eq_of_lt (by omega)]
  · omega

end

end

/-! ## A sample -/

def sampleRules : Rules Bool Unit := ⟨true, true, true, true, false, fun _ => none⟩

/-- Of two accounts one is the coinbase; a call without value to an account without code does nothing. -/
def sampleEvm : Evm Bool Unit Unit where
  isLondon := true
  isCancun := true
  rules := sampleRules
  noBaseFee := false
  baseFee := some 5
  blobBaseFee := some 1
  coinbase := true
  emptyHash := ()
  emptyCodeHash := ()
  isValidVersionedHash _ := true
  txAllowListEnabled := false
  isEnabled _ _ := false
  prepare _ rest := rest
  call state _ _ _ gas _ := ⟨[], gas, none, none, state⟩
  create state _ _ gas _ := ⟨[], gas, none, none, state⟩

theorem sampleEvm_conserves : sampleEvm.Conserves where
  call_total _ _ _ _ _ _ _ := rfl
  call_gas _ _ _ _ gas _ := UInt64.le_refl gas
  create_total _ _ _ _ _ _ := rfl
  create_gas _ _ _ gas _ := UInt64.le_refl gas

def sampleTransaction : Transaction Bool Unit := ⟨0, 30000, 10, 2, some true, 0, [], none, some [()], some 3⟩

def sampleState : StateDB Bool Unit Unit := ⟨fun address => if address then 0 else 1000000, fun _ => 0, fun _ => (), 0, ()⟩

/-- A transaction with one blob, at a price of two above the base fee. -/
theorem fees_conserved_sample : ∃ result final,
    perform (transitionDb sampleEvm (transactionToMessage sampleTransaction false (some 5))) (newStateTransition 50000 sampleState) =
      (.ok result, final) ∧
    Conserved sampleEvm (transactionToMessage sampleTransaction false (some 5)) 50000 sampleState result final := by
  have ended : perform (transitionDb sampleEvm (transactionToMessage sampleTransaction false (some 5)))
      (newStateTransition 50000 sampleState) = (.ok ⟨21000, 0, none, []⟩, _) := rfl
  exact ⟨_, _, ended, fees_conserved sampleEvm_conserves rfl (transactionToMessage_signed ..) 50000 sampleState (by decide) _ _ ended⟩

end Snowside.Fees
