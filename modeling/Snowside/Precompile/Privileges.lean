import Snowside.Precompile.AllowList

/-! Runs of calls to the functions of an allow list: who becomes an admin, a
manager or enabled, and by whom.
-/

set_option autoImplicit false

namespace Snowside.Precompile

open Evm (Address Bytes)
open Stateful

/-- A call of a precompile. -/
structure Call where
  accessibleState : AccessibleState
  caller : Address
  input : Bytes
  suppliedGas : UInt64
  readOnly : Bool

namespace StatefulPrecompile

/-- The state of accounts after a call. -/
def afterCall (contract : StatefulPrecompile) (db : StateDB) (call : Call) : StateDB :=
  (perform (contract.run call.accessibleState call.caller call.input call.readOnly) ⟨call.suppliedGas, db⟩).2.db

def afterCalls (contract : StatefulPrecompile) (db : StateDB) (calls : List Call) : StateDB :=
  calls.foldl contract.afterCall db

@[simp] theorem afterCalls_append (contract : StatefulPrecompile) (db : StateDB) (calls : List Call) (call : Call) :
    contract.afterCalls db (calls ++ [call]) = contract.afterCall (contract.afterCalls db calls) call := by
  simp [afterCalls]

/-- What holds at the start and is kept by each call holds after any calls. -/
theorem afterCalls_induction {contract : StatefulPrecompile} {db : StateDB} {holds : StateDB → Prop} (start : holds db)
    (step : ∀ db call, holds db → holds (contract.afterCall db call)) (calls : List Call) :
    holds (contract.afterCalls db calls) := by
  induction calls using List.reverseRecOn with
  | nil => exact start
  | append_singleton calls call ih =>
    rw [afterCalls_append]
    exact step _ call ih

end StatefulPrecompile

section

variable (precompileAddr : Address)

def admins (db : StateDB) : Set Address := { address | getAllowListStatus db precompileAddr address = .adminRole }

def managers (db : StateDB) : Set Address := { address | getAllowListStatus db precompileAddr address = .managerRole }

/-- Every stored role is one of the four. -/
def RolesKnown (db : StateDB) : Prop := ∀ address, (getAllowListStatus db precompileAddr address).Known

/-- A step of a caller that takes no more than its role allows. -/
structure PrivilegedStep (caller : Address) (before after : StateDB) : Prop where
  adminsChange : admins precompileAddr after ≠ admins precompileAddr before → caller ∈ admins precompileAddr before
  managersChange : managers precompileAddr after ≠ managers precompileAddr before → caller ∈ admins precompileAddr before
  managerStep : caller ∈ managers precompileAddr before → ∀ address,
    getAllowListStatus after precompileAddr address ≠ getAllowListStatus before precompileAddr address →
    (getAllowListStatus before precompileAddr address).Ordinary ∧ (getAllowListStatus after precompileAddr address).Ordinary
  otherStep : caller ∉ admins precompileAddr before → caller ∉ managers precompileAddr before → after = before

/-- The caller gives a role that it may give. -/
structure Grants (caller modifyAddress : Address) (role : Role) (before after : StateDB) : Prop where
  known : role.Known
  allowed : (getAllowListStatus before precompileAddr caller).canModify
    (getAllowListStatus before precompileAddr modifyAddress) role
  status : ∀ address, getAllowListStatus after precompileAddr address =
    if address = modifyAddress then role else getAllowListStatus before precompileAddr address

end

section

variable {precompileAddr caller modifyAddress : Address} {role : Role} {before after : StateDB}

theorem PrivilegedStep.refl : PrivilegedStep precompileAddr caller before before where
  adminsChange changed := absurd rfl changed
  managersChange changed := absurd rfl changed
  managerStep _ _ changed := absurd rfl changed
  otherStep _ _ := rfl

/-- A role that no ordinary role is taken from or given to keeps its addresses. -/
theorem Grants.holders (grants : Grants precompileAddr caller modifyAddress role before after) {special : Role}
    (high : ¬ special.Ordinary) (fromOrdinary : (getAllowListStatus before precompileAddr modifyAddress).Ordinary)
    (toOrdinary : role.Ordinary) : { address | getAllowListStatus after precompileAddr address = special } =
      { address | getAllowListStatus before precompileAddr address = special } := by
  ext address
  simp only [Set.mem_ofPred_eq, grants.status]
  split
  · next same =>
    subst same
    constructor
    · rintro rfl
      exact absurd toOrdinary high
    · intro same
      exact absurd (same ▸ fromOrdinary) high
  · rfl

theorem Grants.privileged (grants : Grants precompileAddr caller modifyAddress role before after) :
    PrivilegedStep precompileAddr caller before after := by
  have lower (noAdmin : caller ∉ admins precompileAddr before) := Role.ordinary_of_canModify grants.allowed noAdmin
  refine ⟨fun changed => ?_, fun changed => ?_, fun manager address changed => ?_, fun noAdmin noManager => ?_⟩
  · by_contra noAdmin
    exact changed (grants.holders (by decide) (lower noAdmin).2.1 (lower noAdmin).2.2)
  · by_contra noAdmin
    exact changed (grants.holders (by decide) (lower noAdmin).2.1 (lower noAdmin).2.2)
  · have noAdmin : caller ∉ admins precompileAddr before := fun admin => absurd (admin.symm.trans manager) (by decide)
    rw [grants.status] at changed ⊢
    split
    · next same => exact same ▸ (lower noAdmin).2
    · next other => exact absurd (if_neg other) changed
  · exact absurd (lower noAdmin).1 noManager

theorem Grants.rolesKnown (grants : Grants precompileAddr caller modifyAddress role before after)
    (known : RolesKnown precompileAddr before) : RolesKnown precompileAddr after := by
  intro address
  rw [grants.status]
  split
  · exact grants.known
  · exact known address

end

section

variable (precompileAddr : Address)

/-- A call of an allow list changes nothing, or grants a role. -/
theorem afterCall_cases (db : StateDB) (call : Call) :
    (createAllowListPrecompile precompileAddr).afterCall db call = db ∨
      ∃ modifyAddress role, Grants precompileAddr call.caller modifyAddress role db
        ((createAllowListPrecompile precompileAddr).afterCall db call) := by
  have ends : Ends ⟨call.suppliedGas, db⟩ ((createAllowListPrecompile precompileAddr).run call.accessibleState
      call.caller call.input call.readOnly) fun _ after => after.db = db ∨
        ∃ modifyAddress role, Grants precompileAddr call.caller modifyAddress role db after.db :=
    ends_run rfl (fun _ => .inl rfl) fun function member =>
      ends_allowListFunction member (fun _ _ _ => .inl rfl) fun modifyAddress role _ known allowed _ _ _ =>
        .inr ⟨modifyAddress, role, known, allowed, fun address =>
          getAllowListStatus_setAllowListRole _ precompileAddr modifyAddress address role⟩
  exact ends

theorem afterCall_privileged (db : StateDB) (call : Call) : PrivilegedStep precompileAddr call.caller db
    ((createAllowListPrecompile precompileAddr).afterCall db call) := by
  rcases afterCall_cases precompileAddr db call with same | ⟨modifyAddress, role, grants⟩
  · rw [same]
    exact .refl
  · exact grants.privileged

theorem afterCall_rolesKnown {db : StateDB} (call : Call) (known : RolesKnown precompileAddr db) :
    RolesKnown precompileAddr ((createAllowListPrecompile precompileAddr).afterCall db call) := by
  rcases afterCall_cases precompileAddr db call with same | ⟨modifyAddress, role, grants⟩
  · rwa [same]
  · exact grants.rolesKnown known

/-- Without an admin there is nobody to make one. -/
theorem afterCall_noAdmins {db : StateDB} (call : Call) (none : admins precompileAddr db = ∅) :
    admins precompileAddr ((createAllowListPrecompile precompileAddr).afterCall db call) = ∅ := by
  by_contra some
  have caller := (afterCall_privileged precompileAddr db call).adminsChange fun same => some (same.trans none)
  rw [none] at caller
  exact caller

/-- Whatever the calls to an allow list, no caller takes more than its role allows. -/
theorem allowList_privileged {db : StateDB} (known : RolesKnown precompileAddr db) (calls : List Call) (call : Call) :
    PrivilegedStep precompileAddr call.caller
        ((createAllowListPrecompile precompileAddr).afterCalls db calls)
        ((createAllowListPrecompile precompileAddr).afterCalls db (calls ++ [call])) ∧
      RolesKnown precompileAddr ((createAllowListPrecompile precompileAddr).afterCalls db calls) ∧
      (admins precompileAddr db = ∅ →
        admins precompileAddr ((createAllowListPrecompile precompileAddr).afterCalls db calls) = ∅) := by
  rw [StatefulPrecompile.afterCalls_append]
  refine ⟨afterCall_privileged _ _ call, ?_, fun none => ?_⟩
  · exact StatefulPrecompile.afterCalls_induction known (fun _ call => afterCall_rolesKnown _ call) calls
  · have step : ∀ db call, admins precompileAddr db = ∅ →
        admins precompileAddr ((createAllowListPrecompile precompileAddr).afterCall db call) = ∅ := fun _ call =>
      afterCall_noAdmins _ call
    exact StatefulPrecompile.afterCalls_induction none step calls

end

/-! ## A sample run -/

/-- The state in which one address is an admin. -/
def sampleDB : StateDB :=
  setAllowListRole deployerAllowList 5 .adminRole
    { storage := fun _ _ => 0, balance := fun _ => 0, exist := fun _ => false, logs := [] }

theorem sampleDB_known : RolesKnown deployerAllowList sampleDB := by
  intro address
  unfold sampleDB
  rw [getAllowListStatus_setAllowListRole]
  split
  · decide
  · exact (by decide : Role.noRole.Known)

def sampleState : AccessibleState where
  rules := { isDurangoActivated := true, isGraniteActivated := false }
  blockNumber := some 7
  chainID := 0
  networkID := 1
  getPredicate _ _ := none
  predicateResults _ _ := false

/-- A call that gives an address a role by its selector. -/
def sampleCall (caller modifyAddress : Address) (selector : Bytes) : Call where
  accessibleState := sampleState
  caller := caller
  input := selector ++ (addressToHash modifyAddress).bytes
  suppliedGas := 30000
  readOnly := false

/-- The admin makes a manager. -/
def makesManager : Call := sampleCall 5 6 [0xd0, 0xeb, 0xdb, 0xe7]

/-- The manager enables an address. -/
def enables : Call := sampleCall 6 7 [0x0a, 0xaf, 0x70, 0x43]

def sampleAllowList : StatefulPrecompile := createAllowListPrecompile deployerAllowList

theorem allowList_privileged_sample :
    PrivilegedStep deployerAllowList 6 (sampleAllowList.afterCalls sampleDB [makesManager])
        (sampleAllowList.afterCalls sampleDB [makesManager, enables]) ∧
      RolesKnown deployerAllowList (sampleAllowList.afterCalls sampleDB [makesManager]) ∧
      getAllowListStatus (sampleAllowList.afterCalls sampleDB [makesManager, enables]) deployerAllowList 7 = .enabledRole := by
  obtain ⟨step, known, -⟩ := allowList_privileged deployerAllowList sampleDB_known [makesManager] enables
  exact ⟨step, known, by decide⟩

end Snowside.Precompile
