import Snowside.Evm.Window

/-! Headers and fork times, as far as the fee rules read them.

Pointers that may be nil are options. What a function leaves by an error or by a
panic is a fault.
-/

set_option autoImplicit false

namespace Snowside.Evm

abbrev Address := BitVec 160

/-- Fork times; `none` is no fork. -/
structure NetworkUpgrades where
  subnetEVMTimestamp : Option UInt64 := none
  durangoTimestamp : Option UInt64 := none
  etnaTimestamp : Option UInt64 := none
  fortunaTimestamp : Option UInt64 := none
  graniteTimestamp : Option UInt64 := none
  heliconTimestamp : Option UInt64 := none
  deriving DecidableEq, Repr

def isTimestampForked (fork : Option UInt64) (head : UInt64) : Bool :=
  match fork with
  | none => false
  | some start => start ≤ head

namespace NetworkUpgrades

variable (config : NetworkUpgrades) (time : UInt64)

def isSubnetEVM : Bool := isTimestampForked config.subnetEVMTimestamp time

def isDurango : Bool := isTimestampForked config.durangoTimestamp time

def isGranite : Bool := isTimestampForked config.graniteTimestamp time

end NetworkUpgrades

/-- A fork that is active stays active. -/
theorem isTimestampForked_mono {fork : Option UInt64} {head later : UInt64} (forward : head ≤ later)
    (active : isTimestampForked fork head) : isTimestampForked fork later := by
  cases fork with
  | none => exact active
  | some start => exact decide_eq_true (UInt64.le_trans (of_decide_eq_true active) forward)

/-! ## The order of forks -/

structure Fork where
  name : String
  timestamp : Option UInt64
  /-- The next fork may be set where this one is not. -/
  isOptional : Bool := false
  deriving DecidableEq, Repr

inductive ForkOrderError where
  | notEnabled (last next : Fork)
  | outOfOrder (last next : Fork)
  deriving DecidableEq, Repr

/-- Forks by time, each no earlier than the last one that counts. -/
def checkForks : Option Fork → List Fork → Except ForkOrderError Unit
  | _, [] => .ok ()
  | none, cur :: forks => checkForks (if !cur.isOptional || cur.timestamp.isSome then some cur else none) forks
  | some last, cur :: forks =>
      let next := if !cur.isOptional || cur.timestamp.isSome then cur else last
      match last.timestamp, cur.timestamp with
      | none, some _ => .error (.notEnabled last cur)
      | some before, some start => if start < before then .error (.outOfOrder last cur) else checkForks (some next) forks
      | _, none => checkForks (some next) forks

namespace NetworkUpgrades

def forkOrder (config : NetworkUpgrades) : List Fork :=
  [⟨"subnetEVMTimestamp", config.subnetEVMTimestamp, false⟩, ⟨"durangoTimestamp", config.durangoTimestamp, false⟩,
    ⟨"etnaTimestamp", config.etnaTimestamp, false⟩, ⟨"fortunaTimestamp", config.fortunaTimestamp, true⟩,
    ⟨"graniteTimestamp", config.graniteTimestamp, false⟩, ⟨"heliconTimestamp", config.heliconTimestamp, false⟩]

def checkConfigForkOrder (config : NetworkUpgrades) : Except ForkOrderError Unit := checkForks none config.forkOrder

/-- SubnetEVM comes first. -/
theorem isSubnetEVM_of_isDurango {config : NetworkUpgrades} {time : UInt64} (ordered : config.checkConfigForkOrder = .ok ())
    (durango : config.isDurango time) : config.isSubnetEVM time := by
  unfold checkConfigForkOrder forkOrder at ordered
  unfold isDurango at durango
  unfold isSubnetEVM
  cases later : config.durangoTimestamp with
  | none =>
    rw [later] at durango
    cases durango
  | some start =>
    rw [later] at durango ordered
    cases earlier : config.subnetEVMTimestamp with
    | none =>
      rw [earlier] at ordered
      cases ordered
    | some before =>
      rw [earlier] at ordered
      have inOrder : before ≤ start := by
        refine UInt64.not_lt.mp fun less => ?_
        simp [checkForks, less] at ordered
      exact decide_eq_true (UInt64.le_trans inOrder (of_decide_eq_true durango))

end NetworkUpgrades

/-- A header with the fields of its extras. -/
structure Header where
  number : Int
  time : UInt64
  gasLimit : UInt64 := 0
  gasUsed : UInt64 := 0
  extra : Bytes := []
  baseFee : Option Int := none
  coinbase : Address := 0
  blockGasCost : Option Int := none
  timeMilliseconds : Option UInt64 := none
  minDelayExcess : Option UInt64 := none
  deriving DecidableEq, Repr

/-- `HeaderTimeMilliseconds`. -/
def Header.timeMS (header : Header) : UInt64 := header.timeMilliseconds.getD (header.time * 1000)

inductive Fault where
  | windowTooShort (cause : WindowError)
  | invalidTimestamp (timestamp parentTime : UInt64)
  /-- Panic: a nil pointer is read. -/
  | nilPointer
  /-- Panic: a division of big integers by zero. -/
  | divisionByZero
  deriving DecidableEq, Repr

/-! ## Chains of headers -/

/-- The header that the next one is built on. -/
def tip (genesis : Header) (headers : List Header) : Header := headers.headD genesis

/-- Headers above a genesis, newest first, each accepted on the one before it. -/
inductive Above (accepts : Header → Header → Prop) (genesis : Header) : List Header → Prop where
  | start : Above accepts genesis []
  | extend {headers : List Header} {header : Header} : Above accepts genesis headers →
      accepts (tip genesis headers) header → Above accepts genesis (header :: headers)

variable {accepts : Header → Header → Prop} {genesis : Header} {headers : List Header}

theorem Above.mono {first second : Header → Header → Prop} (weaken : ∀ parent header, first parent header → second parent header)
    (above : Above first genesis headers) : Above second genesis headers := by
  induction above with
  | start => exact .start
  | extend _ accepted ih => exact ih.extend (weaken _ _ accepted)

/-- One header follows another: the next number, and no earlier. -/
structure Follows (parent header : Header) : Prop where
  number : header.number = parent.number + 1
  time : parent.time ≤ header.time

theorem Above.number (above : Above Follows genesis headers) :
    (tip genesis headers).number = genesis.number + headers.length := by
  induction above with
  | start => simp [tip]
  | @extend headers header _ follows ih =>
    rw [show tip genesis (header :: headers) = header from rfl, follows.number, ih, List.length_cons]
    push_cast
    omega

theorem Above.genesis_time_le (above : Above Follows genesis headers) : genesis.time ≤ (tip genesis headers).time := by
  induction above with
  | start => exact UInt64.le_refl _
  | extend _ follows ih => exact UInt64.le_trans ih follows.time

theorem Above.time_le (above : Above Follows genesis headers) :
    ∀ header ∈ headers, header.time ≤ (tip genesis headers).time := by
  induction above with
  | start => exact fun _ member => absurd member List.not_mem_nil
  | @extend headers header _ follows ih =>
    intro other member
    obtain rfl | member := List.mem_cons.mp member
    · exact UInt64.le_refl _
    · exact UInt64.le_trans (ih other member) follows.time

end Snowside.Evm
