import Snowside.Precompile.FeeManager
import Snowside.Precompile.RewardManager

/-! Settings in one storage: the roles of addresses, the fee configuration and the
reward address lie at keys that differ.
-/

set_option autoImplicit false

namespace Snowside.Precompile

open Evm (Address FeeConfig)
open FeeManager (FeeConfigField feeConfigLastChangedAtKey getStoredFeeConfig getFeeConfigLastChangedAt storeFeeConfig)
open RewardManager (rewardAddressStorageKey getStoredRewardAddress storeRewardAddress enableAllowFeeRecipients
  disableFeeRewards)
open Stateful

/-! ## Keys -/

/-- A key at which no address has its role. -/
def ApartFromRoles (key : Hash) : Prop := ∀ address, key ≠ addressToHash address

theorem FeeManager.FeeConfigField.key_apart (field : FeeConfigField) : ApartFromRoles field.key :=
  hashOf_ne_addressToHash (by cases field <;> decide) (by decide)

theorem FeeManager.feeConfigLastChangedAtKey_apart : ApartFromRoles feeConfigLastChangedAtKey :=
  hashOf_ne_addressToHash (by decide) (by decide)

theorem RewardManager.rewardAddressStorageKey_apart : ApartFromRoles rewardAddressStorageKey :=
  hashOf_ne_addressToHash (by decide) (by decide)

theorem FeeManager.FeeConfigField.key_injective : Function.Injective FeeConfigField.key := by
  intro first second same
  cases first <;> cases second <;> first | rfl | (revert same; decide)

/-- Of writes at keys that differ each is found. -/
theorem StateDB.getState_foldl_setState {Item : Type} {key : Item → Hash} (distinct : Function.Injective key) (value : Item → Hash)
    (address : Address) {items : List Item} (db : StateDB) {item : Item} (member : item ∈ items) :
    (items.foldl (fun db item => db.setState address (key item) (value item)) db).getState address (key item) = value item := by
  have keeps (rest : List Item) (db : StateDB) (held : db.getState address (key item) = value item) :
      (rest.foldl (fun db item => db.setState address (key item) (value item)) db).getState address (key item) =
        value item := by
    induction rest generalizing db with
    | nil => exact held
    | cons other rest ih =>
      refine ih _ ?_
      by_cases same : item = other
      · rw [← same, StateDB.getState_setState_same]
      · rw [StateDB.getState_setState_key _ _ _ (distinct.ne same), held]
  induction items generalizing db with
  | nil => exact (List.not_mem_nil member).elim
  | cons other rest ih =>
    rcases List.mem_cons.mp member with rfl | member
    · exact keeps rest _ (StateDB.getState_setState_same ..)
    · exact ih _ member

/-! ## Frames -/

/-- Every role is the same. -/
def KeepsRoles (before after : StateDB) : Prop := ∀ precompileAddr address,
  getAllowListStatus after precompileAddr address = getAllowListStatus before precompileAddr address

/-- Every role but that of one address at one precompile is the same. -/
def KeepsOtherRoles (precompileAddr modifyAddress : Address) (before after : StateDB) : Prop :=
  ∀ otherAddr address, otherAddr ≠ precompileAddr ∨ address ≠ modifyAddress →
    getAllowListStatus after otherAddr address = getAllowListStatus before otherAddr address

/-- What is stored besides roles is the same. -/
structure KeepsSettings (before after : StateDB) : Prop where
  feeConfig : getStoredFeeConfig after = getStoredFeeConfig before
  lastChangedAt : getFeeConfigLastChangedAt after = getFeeConfigLastChangedAt before
  rewardAddress : getStoredRewardAddress after = getStoredRewardAddress before

theorem KeepsRoles.refl (db : StateDB) : KeepsRoles db db := fun _ _ => rfl

theorem KeepsRoles.trans (first second third : StateDB) (before : KeepsRoles first second) (after : KeepsRoles second third) :
    KeepsRoles first third := fun precompileAddr address =>
  (after precompileAddr address).trans (before precompileAddr address)

theorem keepsRoles_setState {key : Hash} (apart : ApartFromRoles key) (db : StateDB) (address : Address) (value : Hash) :
    KeepsRoles db (db.setState address key value) := fun _ other =>
  congrArg Role.mk (db.getState_setState_key _ _ (apart other).symm _)

theorem getState_setAllowListRole {key : Hash} (apart : ApartFromRoles key) (db : StateDB)
    (precompileAddr modifyAddress address : Address) (role : Role) :
    (setAllowListRole precompileAddr modifyAddress role db).getState address key = db.getState address key :=
  db.getState_setState_key _ _ (apart modifyAddress) _

theorem setAllowListRole_keepsSettings (db : StateDB) (precompileAddr modifyAddress : Address) (role : Role) :
    KeepsSettings db (setAllowListRole precompileAddr modifyAddress role db) where
  feeConfig := by
    unfold getStoredFeeConfig
    simp only [getState_setAllowListRole (FeeConfigField.key_apart _)]
  lastChangedAt := by
    unfold getFeeConfigLastChangedAt
    rw [getState_setAllowListRole FeeManager.feeConfigLastChangedAtKey_apart]
  rewardAddress := by
    unfold getStoredRewardAddress
    rw [getState_setAllowListRole RewardManager.rewardAddressStorageKey_apart]

theorem setAllowListRole_keepsOtherRoles (db : StateDB) (precompileAddr modifyAddress : Address) (role : Role) :
    KeepsOtherRoles precompileAddr modifyAddress db (setAllowListRole precompileAddr modifyAddress role db) := by
  rintro otherAddr address (elsewhere | other)
  · exact congrArg Role.mk (db.getState_setState_address elsewhere _ _ _)
  · exact congrArg Role.mk (db.getState_setState_key _ _ (addressToHash_injective.ne other) _)

/-- However far the configuration is stored, every role is kept. -/
theorem storeFeeConfig_keepsRoles (feeConfig : FeeConfig) (blockNumber : Option Int) :
    Moves KeepsRoles (storeFeeConfig feeConfig blockNumber) := by
  have sets {key : Hash} (apart : ApartFromRoles key) (value : Hash) :
      Moves KeepsRoles (modify (·.setState FeeManager.contractAddress key value) : Action PrecompileError StateDB Unit) :=
    .modify fun db => keepsRoles_setState apart db _ value
  refine .bind KeepsRoles.trans (.check KeepsRoles.refl _) fun _ => ?_
  refine .bind KeepsRoles.trans (.check KeepsRoles.refl _) fun fees => ?_
  refine .bind KeepsRoles.trans (.forM KeepsRoles.refl KeepsRoles.trans fun field _ => sets field.key_apart _) fun _ => ?_
  refine .bind KeepsRoles.trans (.check KeepsRoles.refl _) fun number => ?_
  exact sets FeeManager.feeConfigLastChangedAtKey_apart _

/-- Whatever the addresses are, setting a role keeps the other settings, and
storing them keeps every role. -/
theorem settings_apart (db : StateDB) (precompileAddr modifyAddress val : Address) (role : Role) (feeConfig : FeeConfig)
    (blockNumber : Option Int) :
    (∀ field, ApartFromRoles (FeeConfigField.key field)) ∧ ApartFromRoles feeConfigLastChangedAtKey ∧
      ApartFromRoles rewardAddressStorageKey ∧
      KeepsSettings db (setAllowListRole precompileAddr modifyAddress role db) ∧
      KeepsOtherRoles precompileAddr modifyAddress db (setAllowListRole precompileAddr modifyAddress role db) ∧
      KeepsRoles db (perform (storeFeeConfig feeConfig blockNumber) db).2 ∧
      KeepsRoles db (storeRewardAddress val db) ∧ KeepsRoles db (enableAllowFeeRecipients db) ∧
      KeepsRoles db (disableFeeRewards db) :=
  ⟨FeeConfigField.key_apart, FeeManager.feeConfigLastChangedAtKey_apart, RewardManager.rewardAddressStorageKey_apart,
    setAllowListRole_keepsSettings db _ _ role, setAllowListRole_keepsOtherRoles db _ _ role,
    storeFeeConfig_keepsRoles feeConfig blockNumber db,
    keepsRoles_setState RewardManager.rewardAddressStorageKey_apart db _ _,
    keepsRoles_setState RewardManager.rewardAddressStorageKey_apart db _ _,
    keepsRoles_setState RewardManager.rewardAddressStorageKey_apart db _ _⟩

end Snowside.Precompile
