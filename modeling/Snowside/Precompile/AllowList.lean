import Snowside.Precompile.Contract

/-! Allow lists: the roles of addresses in the storage of a precompile, and the
functions that read and change them.
-/

set_option autoImplicit false

namespace Snowside.Precompile

open Evm (Address Bytes)
open Checked Stateful

/-! ## Roles -/

structure Role where
  hash : Hash
  deriving DecidableEq, Repr

namespace Role

def noRole : Role := ⟨bigToHash 0⟩

def enabledRole : Role := ⟨bigToHash 1⟩

def adminRole : Role := ⟨bigToHash 2⟩

def managerRole : Role := ⟨bigToHash 3⟩

/-- One of the four. -/
def Known (role : Role) : Prop := role ∈ [noRole, enabledRole, adminRole, managerRole]

instance (role : Role) : Decidable role.Known := inferInstanceAs (Decidable (role ∈ _))

/-- A role that a manager may take and give. -/
def Ordinary (role : Role) : Prop := role = enabledRole ∨ role = noRole

instance (role : Role) : Decidable role.Ordinary := inferInstanceAs (Decidable (_ ∨ _))

def isEnabled (role : Role) : Bool := role = adminRole ∨ role = enabledRole ∨ role = managerRole

def canModify (role fromRole target : Role) : Bool :=
  if role = adminRole then true
  else if role = managerRole then fromRole.Ordinary ∧ target.Ordinary
  else false

def getSetterFunctionName (role : Role) : Except PrecompileError String :=
  if role = adminRole then .ok "setAdmin"
  else if role = managerRole then .ok "setManager"
  else if role = enabledRole then .ok "setEnabled"
  else if role = noRole then .ok "setNone"
  else .error .invalidRole

theorem isEnabled_of_canModify {role fromRole target : Role} (allowed : role.canModify fromRole target) :
    role.isEnabled := by
  unfold canModify at allowed
  unfold isEnabled
  split at allowed <;> simp_all

theorem ordinary_of_canModify {role fromRole target : Role} (allowed : role.canModify fromRole target)
    (lower : role ≠ adminRole) : role = managerRole ∧ fromRole.Ordinary ∧ target.Ordinary := by
  simp only [canModify, if_neg lower] at allowed
  split at allowed
  · next manager => exact ⟨manager, of_decide_eq_true allowed⟩
  · cases allowed

/-- The roles with a setter are the four. -/
theorem getSetterFunctionName_eq_ok {role : Role} {name : String} (found : role.getSetterFunctionName = .ok name) :
    role.Known := by
  unfold getSetterFunctionName at found
  unfold Known
  split at found
  · simp_all
  split at found
  · simp_all
  split at found
  · simp_all
  split at found
  · simp_all
  cases found

end Role

/-! ## Storage -/

def getAllowListStatus (db : StateDB) (precompileAddr address : Address) : Role :=
  ⟨db.getState precompileAddr (addressToHash address)⟩

def setAllowListRole (precompileAddr address : Address) (role : Role) (db : StateDB) : StateDB :=
  db.setState precompileAddr (addressToHash address) role.hash

/-- Setting a role leaves the roles of the other addresses. -/
theorem getAllowListStatus_setAllowListRole (db : StateDB) (precompileAddr modifyAddress address : Address) (role : Role) :
    getAllowListStatus (setAllowListRole precompileAddr modifyAddress role db) precompileAddr address =
      if address = modifyAddress then role else getAllowListStatus db precompileAddr address := by
  unfold getAllowListStatus setAllowListRole
  by_cases same : address = modifyAddress
  · rw [if_pos same, same, StateDB.getState_setState_same]
  · rw [if_neg same, StateDB.getState_setState_key _ _ _ (addressToHash_injective.ne same)]

/-! ## Functions -/

def modifyAllowListGasCost : UInt64 := writeGasCostPerSlot

def readAllowListGasCost : UInt64 := readGasCostPerSlot

def allowListInputLen : Nat := hashLength

def allowListEventGasCost : UInt64 := logGas + logTopicGas * 4 + logDataGas * .ofNat hashLength

/-- An address, of which the length is fixed before Durango. -/
def unpackAllowListAddress (input : Bytes) (useStrictMode : Bool) : Except PrecompileError Address := do
  refuse (useStrictMode ∧ input.length ≠ allowListInputLen) (.invalidLen input.length)
  let word ← (unpackWord input useStrictMode).mapError .abi
  return word.address

def unpackModifyAllowListInput (input : Bytes) (role : Role) (useStrictMode : Bool) : Except PrecompileError Address := do
  refuse (useStrictMode ∧ input.length ≠ allowListInputLen) (.invalidLen input.length)
  let _ ← role.getSetterFunctionName
  let word ← (unpackWord input useStrictMode).mapError .abi
  return word.address

theorem known_of_unpacked {input : Bytes} {role : Role} {useStrictMode : Bool} {address : Address}
    (unpacked : unpackModifyAllowListInput input role useStrictMode = .ok address) : role.Known := by
  obtain ⟨_, -, unpacked⟩ := bind_eq_ok.mp unpacked
  obtain ⟨_, found, -⟩ := bind_eq_ok.mp unpacked
  exact Role.getSetterFunctionName_eq_ok found

section

variable (precompileAddr : Address)

def roleSetID : Hash := 0xcdb7ea01f00a414d78757bdb0f6391664ba3fedf987eed280927c1e7d695be3e

def packRoleSetEvent (role : Role) (account caller : Address) (oldRole : Role) : Event :=
  ([roleSetID, role.hash, addressToHash account, addressToHash caller], packWords [oldRole.hash])

def createAllowListRoleSetter (role : Role) : RunStatefulPrecompileFunc := fun accessibleState caller input readOnly => do
  charge modifyAllowListGasCost
  let modifyAddress ← check (unpackModifyAllowListInput input role (!accessibleState.rules.isDurangoActivated))
  check (refuse readOnly .writeProtection)
  let db ← state
  let callerStatus := getAllowListStatus db precompileAddr caller
  let modifyStatus := getAllowListStatus db precompileAddr modifyAddress
  check (refuse (callerStatus.canModify modifyStatus role = false)
    (.cannotModifyAllowList caller modifyStatus.hash role.hash))
  announce accessibleState allowListEventGasCost precompileAddr fun _ =>
    packRoleSetEvent role modifyAddress caller modifyStatus
  onState (modify (setAllowListRole precompileAddr modifyAddress role))
  return []

def createReadAllowList : RunStatefulPrecompileFunc := fun accessibleState _ input _ =>
  reader readAllowListGasCost fun db => do
    let readAddress ← unpackAllowListAddress input (!accessibleState.rules.isDurangoActivated)
    return packWords [(getAllowListStatus db precompileAddr readAddress).hash]

/-- The functions by the selectors of their signatures. -/
def createAllowListFunctions : List StatefulPrecompileFunction := [
  { selector := [0xeb, 0x54, 0xda, 0xe1], execute := createReadAllowList precompileAddr },
  { selector := [0x70, 0x4b, 0x6c, 0x02], execute := createAllowListRoleSetter precompileAddr .adminRole },
  { selector := [0x0a, 0xaf, 0x70, 0x43], execute := createAllowListRoleSetter precompileAddr .enabledRole },
  { selector := [0xd0, 0xeb, 0xdb, 0xe7], execute := createAllowListRoleSetter precompileAddr .managerRole
    activation := (·.rules.isDurangoActivated) },
  { selector := [0x8c, 0x6b, 0xfb, 0x3b], execute := createAllowListRoleSetter precompileAddr .noRole }]

def createAllowListPrecompile : StatefulPrecompile where
  functions := createAllowListFunctions precompileAddr

/-- The precompiles that are an allow list only: who deploys, and who sends transactions. -/
def deployerAllowList : Address := 0x0200000000000000000000000000000000000000

def txAllowList : Address := 0x0200000000000000000000000000000000000002

/-! ## What a call may do -/

variable {precompileAddr} {accessibleState : AccessibleState} {caller : Address} {input : Bytes}
  {readOnly : Bool} {before : Machine} {post : Except PrecompileError Bytes → Machine → Prop}

/-- A role setter is refused, or gives a role that its caller may give. -/
theorem ends_roleSetter {role : Role} (refused : ∀ error, ∀ gas ≤ before.gas, post (.error error) { before with gas })
    (modifies : ∀ modifyAddress, readOnly = false → role.Known →
      (getAllowListStatus before.db precompileAddr caller).canModify
        (getAllowListStatus before.db precompileAddr modifyAddress) role →
      ∀ gas ≤ before.gas, ∀ logs,
        post (.ok []) ⟨gas, setAllowListRole precompileAddr modifyAddress role { before.db with logs }⟩) :
    Ends before (createAllowListRoleSetter precompileAddr role accessibleState caller input readOnly) post := by
  refine ends_charge (refused _ 0 UInt64.zero_le) fun gas less => ?_
  refine .check_bind (fun error _ => refused error gas less) fun modifyAddress unpacked => ?_
  refine .check_bind (fun error _ => refused error gas less) fun _ writable => ?_
  refine ends_state (.check_bind (fun error _ => refused error gas less) fun _ permitted => ?_)
  refine ends_announce (fun error gas' less' => refused error gas' (UInt64.le_trans less' less)) fun gas' less' logs => ?_
  exact modifies modifyAddress (Bool.eq_false_iff.mpr (refuse_eq_ok.mp writable)) (known_of_unpacked unpacked)
    (Bool.eq_true_of_not_eq_false (refuse_eq_ok.mp permitted)) gas' (UInt64.le_trans less' less) logs

/-- The functions of an allow list set one of the four roles or change gas only. -/
theorem ends_allowListFunction {function : StatefulPrecompileFunction}
    (member : function ∈ createAllowListFunctions precompileAddr)
    (refused : ∀ result, ∀ gas ≤ before.gas, post result { before with gas })
    (modifies : ∀ modifyAddress role, readOnly = false → role.Known →
      (getAllowListStatus before.db precompileAddr caller).canModify
        (getAllowListStatus before.db precompileAddr modifyAddress) role →
      ∀ gas ≤ before.gas, ∀ logs,
        post (.ok []) ⟨gas, setAllowListRole precompileAddr modifyAddress role { before.db with logs }⟩) :
    Ends before (function.execute accessibleState caller input readOnly) post := by
  have sets (role : Role) : Ends before
      (createAllowListRoleSetter precompileAddr role accessibleState caller input readOnly) post :=
    ends_roleSetter (fun error => refused (.error error)) fun modifyAddress => modifies modifyAddress role
  simp only [createAllowListFunctions, List.mem_cons, List.not_mem_nil, or_false] at member
  rcases member with rfl | rfl | rfl | rfl | rfl
  · exact ends_reader refused
  · exact sets _
  · exact sets _
  · exact sets _
  · exact sets _

end

end Snowside.Precompile
