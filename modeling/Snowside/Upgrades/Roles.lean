import Mathlib.Data.List.Nodup
import Snowside.Upgrades.Configure

/-! The roles of an allow list when its precompile is activated. -/

set_option autoImplicit false

namespace Snowside.Upgrades

open Evm (Address NetworkUpgrades)
open Precompile (Role getAllowListStatus)
open Checked Stateful

/-! ## The check of the lists -/

/-- No address is listed twice. -/
structure AllowListConfig.Separate (config : AllowListConfig) : Prop where
  enabled : config.enabledAddresses.Nodup
  admins : config.adminAddresses.Nodup
  managers : config.managerAddresses.Nodup
  admins_enabled : config.adminAddresses.Disjoint config.enabledAddresses
  managers_admins : config.managerAddresses.Disjoint config.adminAddresses
  managers_enabled : config.managerAddresses.Disjoint config.enabledAddresses

namespace AddressMap

/-- A role that can be listed. -/
def Listed (role : Role) : Prop := role = .enabledRole ∨ role = .adminRole ∨ role = .managerRole

/-- The map with a role for every address of a list. -/
def assign (addressMap : AddressMap) (role : Role) (addresses : List Address) : AddressMap :=
  fun address => if address ∈ addresses then some role else addressMap address

variable {conflict : Role → Address → Option ConfigError} {role : Role} {addressMap after : AddressMap} {addresses : List Address}

theorem assign_listed (listed : ∀ address other, addressMap address = some other → Listed other) (known : Listed role)
    (addresses : List Address) : ∀ address other, assign addressMap role addresses address = some other → Listed other := by
  intro address other found
  unfold assign at found
  split at found
  · cases found
    exact known
  · exact listed address other found

/-- The first of new addresses is claimed, and the others stay new. -/
theorem claim_new {address : Address} (there : addressMap address = none) :
    claim conflict role addressMap address = .ok (Function.update addressMap address (some role)) := by
  unfold claim
  rw [there, Option.bind_none]

theorem assign_cons (addressMap : AddressMap) (role : Role) (address : Address) (rest : List Address) :
    assign (Function.update addressMap address (some role)) role rest = assign addressMap role (address :: rest) := by
  funext next
  by_cases same : next = address
  · simp [assign, same]
  · simp [assign, same]

/-- New addresses that differ are all taken up. -/
theorem foldlM_claim_of_new (distinct : addresses.Nodup) (new : ∀ address ∈ addresses, addressMap address = none) :
    addresses.foldlM (claim conflict role) addressMap = .ok (assign addressMap role addresses) := by
  induction addresses generalizing addressMap with
  | nil => exact congrArg Except.ok (funext fun address => (if_neg List.not_mem_nil).symm)
  | cons address rest ih =>
    obtain ⟨fresh, distinct⟩ := List.nodup_cons.mp distinct
    obtain ⟨there, others⟩ := List.forall_mem_cons.mp new
    rw [List.foldlM_cons, claim_new there, ok_bind, ih distinct, assign_cons]
    intro next member
    have other : next ≠ address := fun same => fresh (same ▸ member)
    rw [Function.update_of_ne other]
    exact others next member

/-- What is taken up is new and differs, as every listed role is in conflict. -/
theorem new_of_foldlM_claim (claimed : addresses.foldlM (claim conflict role) addressMap = .ok after) (known : Listed role)
    (listed : ∀ address other, addressMap address = some other → Listed other)
    (refuses : ∀ other address, Listed other → conflict other address ≠ none) :
    addresses.Nodup ∧ (∀ address ∈ addresses, addressMap address = none) ∧ after = assign addressMap role addresses := by
  induction addresses generalizing addressMap with
  | nil =>
    refine ⟨List.nodup_nil, fun _ member => absurd member List.not_mem_nil, ?_⟩
    exact (Except.ok.inj claimed).symm.trans (funext fun address => (if_neg List.not_mem_nil).symm)
  | cons address rest ih =>
    rw [List.foldlM_cons] at claimed
    cases there : addressMap address with
    | some other =>
      obtain ⟨error, refused⟩ := Option.ne_none_iff_exists'.mp (refuses other address (listed address other there))
      have failed : claim conflict role addressMap address = .error error := by
        unfold claim
        rw [there, Option.bind_some, refused]
      rw [failed] at claimed
      cases claimed
    | none =>
      rw [claim_new there, ok_bind] at claimed
      have updated : ∀ next other, Function.update addressMap address (some role) next = some other → Listed other := by
        intro next other found
        by_cases same : next = address
        · rw [same, Function.update_self] at found
          cases found
          exact known
        · rw [Function.update_of_ne same] at found
          exact listed next other found
      obtain ⟨distinct, new, assigned⟩ := ih claimed updated
      have apart : address ∉ rest := by
        intro again
        have taken := new address again
        rw [Function.update_self] at taken
        cases taken
      refine ⟨List.nodup_cons.mpr ⟨apart, distinct⟩, List.forall_mem_cons.mpr ⟨there, fun next member => ?_⟩,
        assigned.trans (assign_cons ..)⟩
      have unseen := new next member
      have other : next ≠ address := fun same => apart (same ▸ member)
      rwa [Function.update_of_ne other] at unseen

theorem assign_eq_none {address : Address} :
    assign addressMap role addresses address = none ↔ address ∉ addresses ∧ addressMap address = none := by
  unfold assign
  split
  · next member => simp [member]
  · next absent => simp [absent]

end AddressMap

open AddressMap in
/-- The check accepts lists that are free of duplicates and disjoint, with managers from Durango on. -/
theorem AllowListConfig.verify_eq_ok {networkUpgrades : NetworkUpgrades} {upgrade : Upgrade} {config : AllowListConfig} :
    config.verify networkUpgrades upgrade = .ok () ↔ config.Separate ∧
      (config.managerAddresses ≠ [] → ∀ timestamp, upgrade.blockTimestamp = some timestamp → networkUpgrades.isDurango timestamp) := by
  have early : (config.managerAddresses ≠ [] ∧ upgrade.blockTimestamp.any fun timestamp => !networkUpgrades.isDurango timestamp) ↔
      ¬ (config.managerAddresses ≠ [] →
        ∀ timestamp, upgrade.blockTimestamp = some timestamp → networkUpgrades.isDurango timestamp) := by
    cases upgrade.blockTimestamp <;> simp
  have unseen_listed : ∀ (address : Address) (other : Role), (none : Option Role) = some other → AddressMap.Listed other :=
    fun _ _ impossible => (by cases impossible)
  unfold AllowListConfig.verify
  -- Each loop claims its addresses on the map that the loops before it have left.
  constructor
  · intro verified
    obtain ⟨seen, enabledLoop, verified⟩ := bind_eq_ok.mp verified
    obtain ⟨enabled, -, rfl⟩ := new_of_foldlM_claim enabledLoop (.inl rfl) unseen_listed fun _ _ _ => Option.some_ne_none _
    have enabled_listed := assign_listed unseen_listed (.inl rfl) config.enabledAddresses
    obtain ⟨seen, adminLoop, verified⟩ := bind_eq_ok.mp verified
    obtain ⟨admins, admins_new, rfl⟩ := new_of_foldlM_claim adminLoop (.inr (.inl rfl)) enabled_listed
      fun _ _ _ => by split <;> exact Option.some_ne_none _
    have admins_listed := assign_listed enabled_listed (.inr (.inl rfl)) config.adminAddresses
    obtain ⟨_, durango, verified⟩ := bind_eq_ok.mp verified
    obtain ⟨_, managerLoop, -⟩ := bind_eq_ok.mp verified
    obtain ⟨managers, managers_new, -⟩ := new_of_foldlM_claim managerLoop (.inr (.inr rfl)) admins_listed
      fun _ _ known => by rcases known with rfl | rfl | rfl <;> split_ifs <;> simp_all
    refine ⟨⟨enabled, admins, managers, fun address member => (assign_eq_none.mp (admins_new address member)).1,
      fun address member => (assign_eq_none.mp (managers_new address member)).1,
      fun address member => (assign_eq_none.mp (assign_eq_none.mp (managers_new address member)).2).1⟩, ?_⟩
    exact not_not.mp fun late => refuse_eq_ok.mp durango (early.mpr late)
  · rintro ⟨separate, durango⟩
    have passes : refuse (config.managerAddresses ≠ [] ∧ upgrade.blockTimestamp.any fun timestamp =>
        !networkUpgrades.isDurango timestamp) ConfigError.cannotAddManagersBeforeDurango = .ok () :=
      refuse_eq_ok.mpr fun late => early.mp late durango
    rw [foldlM_claim_of_new separate.enabled fun _ _ => rfl, ok_bind,
      foldlM_claim_of_new separate.admins fun address member => assign_eq_none.mpr ⟨separate.admins_enabled member, rfl⟩, ok_bind,
      passes, ok_bind,
      foldlM_claim_of_new separate.managers fun address member => assign_eq_none.mpr ⟨separate.managers_admins member,
        assign_eq_none.mpr ⟨separate.managers_enabled member, rfl⟩⟩]
    rfl

/-! ## What is installed -/

/-- The role of every address of a list. -/
def install (precompileAddr : Address) (role : Role) (addresses : List Address) (db : Precompile.StateDB) : Precompile.StateDB :=
  addresses.foldl (fun db address => setAllowListRole precompileAddr address role db) db

variable {precompileAddr address other : Address} {role : Role} {addresses : List Address} {db : Precompile.StateDB}

theorem perform_configure (config : AllowListConfig) (precompileAddr : Address) (db : Precompile.StateDB) :
    perform (config.configure precompileAddr) db = (.ok (), install precompileAddr .managerRole config.managerAddresses
      (install precompileAddr .adminRole config.adminAddresses
        (install precompileAddr .enabledRole config.enabledAddresses db))) := by
  unfold AllowListConfig.configure
  rw [perform_bind_ok (perform_forM_modify _ _ _), perform_bind_ok (perform_forM_modify _ _ _), perform_forM_modify]
  rfl

theorem getAllowListStatus_install : getAllowListStatus (install precompileAddr role addresses db) precompileAddr address =
    if address ∈ addresses then role else getAllowListStatus db precompileAddr address := by
  induction addresses generalizing db with
  | nil => exact (if_neg List.not_mem_nil).symm
  | cons first rest ih =>
    have step := Precompile.getAllowListStatus_setAllowListRole db precompileAddr first address role
    show getAllowListStatus (install precompileAddr role rest (setAllowListRole precompileAddr first role db)) _ _ = _
    rw [ih, setAllowListRole_eq, step]
    by_cases member : address ∈ rest
    · rw [if_pos member, if_pos (List.mem_cons_of_mem first member)]
    · simp [member]

theorem setAllowListRole_comm (precompileAddr address other : Address) (role : Role) (db : Precompile.StateDB) :
    setAllowListRole precompileAddr address role (setAllowListRole precompileAddr other role db) =
      setAllowListRole precompileAddr other role (setAllowListRole precompileAddr address role db) := by
  by_cases same : address = other
  · rw [same]
  · have apart := Precompile.addressToHash_injective.ne same
    simp only [setAllowListRole, ContractStateDB.setState, Precompile.StateDB.setState, Function.update_self, Function.update_idem]
    rw [Function.update_comm apart]

/-- The order of a list does not matter. -/
theorem install_perm {reordered : List Address} (same : reordered.Perm addresses) (db : Precompile.StateDB) :
    install precompileAddr role reordered db = install precompileAddr role addresses db :=
  same.foldl_eq' (fun first _ second _ db => setAllowListRole_comm precompileAddr second first role db) db

/-- The same lists, each in some order. -/
structure AllowListConfig.Reordered (config other : AllowListConfig) : Prop where
  admins : other.adminAddresses.Perm config.adminAddresses
  managers : other.managerAddresses.Perm config.managerAddresses
  enabled : other.enabledAddresses.Perm config.enabledAddresses

theorem AllowListConfig.Reordered.separate {config other : AllowListConfig} (reordered : config.Reordered other)
    (separate : config.Separate) : other.Separate where
  enabled := reordered.enabled.nodup_iff.mpr separate.enabled
  admins := reordered.admins.nodup_iff.mpr separate.admins
  managers := reordered.managers.nodup_iff.mpr separate.managers
  admins_enabled _ member listed :=
    separate.admins_enabled (reordered.admins.mem_iff.mp member) (reordered.enabled.mem_iff.mp listed)
  managers_admins _ member listed :=
    separate.managers_admins (reordered.managers.mem_iff.mp member) (reordered.admins.mem_iff.mp listed)
  managers_enabled _ member listed :=
    separate.managers_enabled (reordered.managers.mem_iff.mp member) (reordered.enabled.mem_iff.mp listed)

/-- After the activation every listed address has its role, and the others keep theirs. -/
structure Installed (precompileAddr : Address) (config : AllowListConfig) (before after : Precompile.StateDB) : Prop where
  admins : ∀ address ∈ config.adminAddresses, getAllowListStatus after precompileAddr address = .adminRole
  managers : ∀ address ∈ config.managerAddresses, getAllowListStatus after precompileAddr address = .managerRole
  enabled : ∀ address ∈ config.enabledAddresses, getAllowListStatus after precompileAddr address = .enabledRole
  others : ∀ address, address ∉ config.adminAddresses → address ∉ config.managerAddresses → address ∉ config.enabledAddresses →
    getAllowListStatus after precompileAddr address = getAllowListStatus before precompileAddr address

/-- Verified lists are installed as they are, in whatever order they are written. -/
theorem allowList_installed (networkUpgrades : NetworkUpgrades) (upgrade : Upgrade) (config : AllowListConfig) :
    (config.verify networkUpgrades upgrade = .ok () ↔ config.Separate ∧
      (config.managerAddresses ≠ [] → ∀ timestamp, upgrade.blockTimestamp = some timestamp → networkUpgrades.isDurango timestamp)) ∧
    (config.verify networkUpgrades upgrade = .ok () → ∀ (precompileAddr : Address) (db : Precompile.StateDB), ∃ after,
      perform (config.configure precompileAddr) db = (.ok (), after) ∧ Installed precompileAddr config db after ∧
        ∀ other : AllowListConfig, config.Reordered other →
          other.verify networkUpgrades upgrade = .ok () ∧ perform (other.configure precompileAddr) db = (.ok (), after)) := by
  refine ⟨AllowListConfig.verify_eq_ok, fun verified precompileAddr db => ?_⟩
  obtain ⟨separate, durango⟩ := AllowListConfig.verify_eq_ok.mp verified
  refine ⟨_, perform_configure config precompileAddr db, ⟨?_, ?_, ?_, ?_⟩, fun other reordered => ⟨?_, ?_⟩⟩
  · intro address admin
    have manager : address ∉ config.managerAddresses := fun member => separate.managers_admins member admin
    rw [getAllowListStatus_install, if_neg manager, getAllowListStatus_install, if_pos admin]
  · intro address manager
    rw [getAllowListStatus_install, if_pos manager]
  · intro address enabled
    have manager : address ∉ config.managerAddresses := fun member => separate.managers_enabled member enabled
    have admin : address ∉ config.adminAddresses := fun member => separate.admins_enabled member enabled
    rw [getAllowListStatus_install, if_neg manager, getAllowListStatus_install, if_neg admin, getAllowListStatus_install,
      if_pos enabled]
  · intro address admin manager enabled
    rw [getAllowListStatus_install, if_neg manager, getAllowListStatus_install, if_neg admin, getAllowListStatus_install,
      if_neg enabled]
  · refine AllowListConfig.verify_eq_ok.mpr ⟨reordered.separate separate, fun listed => durango fun none => listed ?_⟩
    exact List.perm_nil.mp (none ▸ reordered.managers)
  · rw [perform_configure, install_perm reordered.enabled, install_perm reordered.admins, install_perm reordered.managers]

end Snowside.Upgrades
