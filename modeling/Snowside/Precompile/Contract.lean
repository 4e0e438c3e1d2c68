import Snowside.Evm.FeeConfig
import Snowside.Partial.Stateful
import Snowside.Precompile.Words

/-! Stateful precompiles: the state they work on, the gas they deduct, and the
call that selects one of their functions.
-/

set_option autoImplicit false

namespace Snowside.Precompile

open Evm (Address Bytes FeeConfigError)
open Checked Stateful

/-! ## State -/

structure Log where
  address : Address
  topics : List Hash
  data : Bytes
  blockNumber : UInt64
  deriving DecidableEq, Repr

/-- The state of accounts. Storage that was never set is zero. -/
structure StateDB where
  storage : Address → Hash → Hash
  balance : Address → BitVec 256
  exist : Address → Bool
  logs : List Log

namespace StateDB

variable (db : StateDB)

def getState (address : Address) (key : Hash) : Hash := db.storage address key

def setState (address : Address) (key value : Hash) : StateDB :=
  { db with
    storage := Function.update db.storage address (Function.update (db.storage address) key value)
    exist := Function.update db.exist address true }

def createAccount (address : Address) : StateDB := { db with exist := Function.update db.exist address true }

def addBalance (address : Address) (amount : BitVec 256) : StateDB :=
  { db with
    balance := Function.update db.balance address (db.balance address + amount)
    exist := Function.update db.exist address true }

def addLog (log : Log) : StateDB := { db with logs := db.logs ++ [log] }

@[simp] theorem getState_setState_same (address : Address) (key value : Hash) :
    (db.setState address key value).getState address key = value := by
  simp [getState, setState]

theorem getState_setState_key (address other : Address) {key different : Hash} (apart : different ≠ key) (value : Hash) :
    (db.setState address key value).getState other different = db.getState other different := by
  by_cases same : other = address
  · subst same
    simp [getState, setState, Function.update_of_ne apart]
  · simp [getState, setState, Function.update_of_ne same]

theorem getState_setState_address {address other : Address} (apart : other ≠ address) (key different value : Hash) :
    (db.setState address key value).getState other different = db.getState other different := by
  simp [getState, setState, Function.update_of_ne apart]

end StateDB

/-! ## Calls -/

structure Rules where
  isDurangoActivated : Bool
  isGraniteActivated : Bool
  deriving DecidableEq, Repr

/-- What a precompile reads apart from the state of accounts. -/
structure AccessibleState where
  rules : Rules
  blockNumber : Option Int
  chainID : Hash
  networkID : UInt32
  getPredicate : Address → Nat → Option (List Hash)
  /-- The indexes of predicates that failed verification. -/
  predicateResults : Address → Nat → Bool

inductive PrecompileError where
  | outOfGas
  | writeProtection
  | missingSelector (length : Nat)
  | invalidFunctionSelector (selector : Bytes)
  | invalidNonActivatedFunctionSelector (selector : Bytes)
  | abi (cause : AbiError)
  | invalidLen (length : Nat)
  | unpackInput (cause : AbiError)
  | invalidRole
  | cannotModifyAllowList (caller : Address) (fromRole toRole : Hash)
  | cannotMint (caller : Address)
  | cannotChangeFee (caller : Address)
  | cannotAllowFeeRecipients (caller : Address)
  | cannotDisableRewards (caller : Address)
  | cannotSetRewardAddress (caller : Address)
  | emptyRewardAddress
  | feeConfig (cause : FeeConfigError)
  | nilBlockNumber
  | invalidIndexInput (cause : AbiError)
  | indexTooLarge
  | invalidPredicateBytes
  | invalidWarpMsg
  | invalidAddressedPayload
  | invalidBlockHashPayload
  | invalidSendInput (cause : AbiError)
  | unmadeMessage
  /-- Panic: a nil pointer is read. -/
  | nilPointer
  deriving DecidableEq, Repr

/-- The gas left and the state while a precompile runs. -/
structure Machine where
  gas : UInt64
  db : StateDB

abbrev Execution (α : Type) : Type := Action PrecompileError Machine α

/-- The gas that remains, and the error. -/
def deductGas (suppliedGas requiredGas : UInt64) : UInt64 × Except PrecompileError Unit :=
  if suppliedGas < requiredGas then (0, .error .outOfGas) else (suppliedGas - requiredGas, .ok ())

def charge (requiredGas : UInt64) : Execution Unit :=
  ExceptT.mk fun machine =>
    let deducted := deductGas machine.gas requiredGas
    (deducted.2, { machine with gas := deducted.1 })

/-- The end of a call whose gas is too large a number. -/
def outOfGas {α : Type} : Execution α := ExceptT.mk fun machine => (.error .outOfGas, { machine with gas := 0 })

def state : Execution StateDB := ExceptT.mk fun machine => (.ok machine.db, machine)

/-- An operation on the state of accounts. -/
def onState (action : Action PrecompileError StateDB Unit) : Execution Unit :=
  zoom Machine.db (fun db machine => { machine with db }) action

/-! ## Gas costs -/

def writeGasCostPerSlot : UInt64 := 20000

def readGasCostPerSlot : UInt64 := 5000

/-- Per log, per topic and per byte of its data. -/
def logGas : UInt64 := 375

def logTopicGas : UInt64 := 375

def logDataGas : UInt64 := 8

/-! ## Events -/

/-- The topics and the data of a log. -/
abbrev Event : Type := List Hash × Bytes

/-- A log of a precompile at the current block. -/
def emit (accessibleState : AccessibleState) (address : Address) (event : Event) : Execution Unit := do
  let number ← check (need .nilPointer accessibleState.blockNumber)
  onState (modify (·.addLog { address, topics := event.1, data := event.2, blockNumber := .ofNat number.natAbs }))

/-- Setters announce what they change from Durango on. -/
def announce (accessibleState : AccessibleState) (gasCost : UInt64) (address : Address) (pack : StateDB → Event) :
    Execution Unit :=
  if accessibleState.rules.isDurangoActivated then do
    charge gasCost
    let db ← state
    emit accessibleState address (pack db)
  else return ()

/-! ## Functions and their selection -/

/-- A function of a precompile, on its caller, its input and whether it may write. -/
abbrev RunStatefulPrecompileFunc : Type := AccessibleState → Address → Bytes → Bool → Execution Bytes

structure StatefulPrecompileFunction where
  selector : Bytes
  execute : RunStatefulPrecompileFunc
  /-- The function is there only where this holds. -/
  activation : AccessibleState → Bool := fun _ => true

structure StatefulPrecompile where
  fallback : Option RunStatefulPrecompileFunc := none
  functions : List StatefulPrecompileFunction

def selectorLen : Nat := 4

namespace StatefulPrecompile

/-- The function that an input selects. -/
def select (contract : StatefulPrecompile) (accessibleState : AccessibleState) (input : Bytes) :
    Except PrecompileError StatefulPrecompileFunction := do
  refuse (input.length < selectorLen) (.missingSelector input.length)
  let selector := input.take selectorLen
  let function ← need (.invalidFunctionSelector selector) (contract.functions.find? (·.selector = selector))
  refuse (function.activation accessibleState = false) (.invalidNonActivatedFunctionSelector selector)
  return function

def run (contract : StatefulPrecompile) : RunStatefulPrecompileFunc := fun accessibleState caller input readOnly =>
  match input, contract.fallback with
  | [], some fallback => fallback accessibleState caller [] readOnly
  | input, _ => do
      let function ← check (contract.select accessibleState input)
      function.execute accessibleState caller (input.drop selectorLen) readOnly

theorem mem_of_select {contract : StatefulPrecompile} {accessibleState : AccessibleState} {input : Bytes}
    {function : StatefulPrecompileFunction} (chosen : contract.select accessibleState input = .ok function) :
    function ∈ contract.functions := by
  unfold select at chosen
  obtain ⟨_, -, chosen⟩ := bind_eq_ok.mp chosen
  obtain ⟨found, needed, chosen⟩ := bind_eq_ok.mp chosen
  obtain ⟨_, -, returned⟩ := bind_eq_ok.mp chosen
  cases returned
  exact List.mem_of_find?_eq_some (need_eq_ok.mp needed)

end StatefulPrecompile

/-- Functions that only read: they take their gas and answer. -/
def reader (gasCost : UInt64) (read : StateDB → Except PrecompileError Bytes) : Execution Bytes := do
  charge gasCost
  let db ← state
  check (read db)

/-! ## How executions end -/

section

variable {α : Type} {before : Machine} {post : Except PrecompileError α → Machine → Prop}

theorem deductGas_cases (suppliedGas requiredGas : UInt64) :
    deductGas suppliedGas requiredGas = (0, .error .outOfGas) ∨
      ∃ gas ≤ suppliedGas, deductGas suppliedGas requiredGas = (gas, .ok ()) := by
  by_cases less : suppliedGas < requiredGas
  · exact .inl (if_pos less)
  · exact .inr ⟨suppliedGas - requiredGas, UInt64.sub_le (UInt64.not_lt.mp less), if_neg less⟩

/-- Either the gas is deducted, or none is left. -/
theorem ends_charge {requiredGas : UInt64} {next : Unit → Execution α}
    (short : post (.error .outOfGas) { before with gas := 0 })
    (paid : ∀ gas ≤ before.gas, Ends { before with gas } (next ()) post) :
    Ends before (charge requiredGas >>= next) post := by
  have charged : perform (charge requiredGas) before = ((deductGas before.gas requiredGas).2,
      { before with gas := (deductGas before.gas requiredGas).1 }) := rfl
  rcases deductGas_cases before.gas requiredGas with deducted | ⟨gas, less, deducted⟩
  · rw [deducted] at charged
    rw [Ends, perform_bind_error charged]
    exact short
  · rw [deducted] at charged
    rw [Ends, perform_bind_ok charged]
    exact paid gas less

theorem ends_state {next : StateDB → Execution α} (go : Ends before (next before.db) post) :
    Ends before (state >>= next) post := go

theorem ends_emit {accessibleState : AccessibleState} {address : Address} {event : Event} {next : Unit → Execution α}
    (refused : ∀ error, post (.error error) before)
    (emitted : ∀ logs, Ends { before with db := { before.db with logs } } (next ()) post) :
    Ends before (emit accessibleState address event >>= next) post := by
  simp only [emit, bind_assoc]
  exact .check_bind (fun error _ => refused error) fun _ _ => emitted _

/-- An announcement adds a log at most. -/
theorem ends_announce {accessibleState : AccessibleState} {gasCost : UInt64} {address : Address} {pack : StateDB → Event}
    {next : Unit → Execution α} (refused : ∀ error, ∀ gas ≤ before.gas, post (.error error) { before with gas })
    (announced : ∀ gas ≤ before.gas, ∀ logs, Ends { gas, db := { before.db with logs } } (next ()) post) :
    Ends before (announce accessibleState gasCost address pack >>= next) post := by
  unfold announce
  by_cases durango : accessibleState.rules.isDurangoActivated
  · rw [if_pos durango]
    simp only [bind_assoc]
    refine ends_charge (refused _ 0 UInt64.zero_le) fun gas less => ends_state ?_
    exact ends_emit (fun error => refused error gas less) (announced gas less)
  · rw [if_neg durango]
    exact announced before.gas UInt64.le_rfl before.db.logs

/-- A call runs one of the functions on the rest of its input, or changes nothing. -/
theorem ends_run {contract : StatefulPrecompile} (direct : contract.fallback = none) {accessibleState : AccessibleState}
    {caller : Address} {input : Bytes} {readOnly : Bool} {post : Except PrecompileError Bytes → Machine → Prop}
    (refused : ∀ error, post (.error error) before)
    (runs : ∀ function ∈ contract.functions,
      Ends before (function.execute accessibleState caller (input.drop selectorLen) readOnly) post) :
    Ends before (contract.run accessibleState caller input readOnly) post := by
  have selects : contract.run accessibleState caller input readOnly = (do
      let function ← check (contract.select accessibleState input)
      function.execute accessibleState caller (input.drop selectorLen) readOnly) := by
    cases input <;> simp only [StatefulPrecompile.run, direct]
  rw [selects]
  refine .check_bind (fun error _ => refused error) fun function chosen => ?_
  exact runs function (StatefulPrecompile.mem_of_select chosen)

/-- A reader changes gas only. -/
theorem ends_reader {gasCost : UInt64} {read : StateDB → Except PrecompileError Bytes}
    {post : Except PrecompileError Bytes → Machine → Prop}
    (reads : ∀ result, ∀ gas ≤ before.gas, post result { before with gas }) :
    Ends before (reader gasCost read) post :=
  ends_charge (reads _ 0 UInt64.zero_le) fun gas less => reads _ gas less

end

end Snowside.Precompile
