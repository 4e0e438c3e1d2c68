import Snowside.Upgrades.Activation

/-! What a change of state does to the accounts that it lists, over the integers. -/

set_option autoImplicit false

namespace Snowside.Upgrades

open Evm (Address Bytes)
open Precompile (Hash)
open State (Account StateDB LawfulStateDB Edits)
open Maps (Map)

/-! ## One account -/

/-- The account after its upgrade. -/
def StateUpgradeAccount.applied (upgrade : StateUpgradeAccount) (isEIP158 : Bool) (account : Account) : Account where
  nonce := if upgrade.code.getD [] ≠ [] ∧ isEIP158 ∧ account.nonce = 0 then 1 else account.nonce
  balance := upgrade.balanceChange.elim account.balance fun change => account.balance + .ofInt 256 change
  code := if upgrade.code.getD [] = [] then account.code else upgrade.code.getD []
  storage key := (upgrade.storage.bind fun storage => storage.lookup key).getD (account.storage key)

section

variable {S : Type} [StateDB S] {address : Address} {first second : Account → Account} {before between after db : S}

theorem edits_same (address : Address) (db : S) : Edits address id db db where
  account := (Function.update_eq_self address _).symm
  hasSelfDestructed := rfl

/-- Only the change of the account that is there counts. -/
theorem edits_congr (edits : Edits address first before after)
    (same : first (StateDB.account before address) = second (StateDB.account before address)) : Edits address second before after where
  account := by rw [edits.account, same]
  hasSelfDestructed := edits.hasSelfDestructed

/-- Two changes of one account are one. -/
theorem edits_trans (one : Edits address first before between) (other : Edits address second between after) :
    Edits address (fun account => second (first account)) before after where
  account := by rw [other.account, one.account, Function.update_self, Function.update_idem]
  hasSelfDestructed := other.hasSelfDestructed.trans one.hasSelfDestructed

variable [LawfulStateDB S]

theorem edits_setStates (address : Address) {entries : List (Sigma fun _ : Hash => Hash)} (distinct : entries.NodupKeys) (db : S) :
    Edits address (fun account => { account with storage := fun key => (entries.dlookup key).getD (account.storage key) }) db
      (entries.foldl (fun db entry => StateDB.setState address entry.1 entry.2 db) db) := by
  induction entries generalizing db with
  | nil => exact edits_same address db
  | cons entry rest ih =>
    obtain ⟨absent, distinct⟩ := List.nodupKeys_cons.mp distinct
    refine edits_congr (edits_trans (LawfulStateDB.setState db address entry.1 entry.2) (ih distinct _)) ?_
    simp only [Account.mk.injEq, true_and]
    funext key
    by_cases same : key = entry.1
    · rw [same, List.dlookup_eq_none.mpr absent, List.dlookup_cons_eq rest entry.1 entry.2, Option.getD_none, Option.getD_some,
        Function.update_self]
    · rw [List.dlookup_cons_ne rest entry same, Function.update_of_ne same]

theorem edits_create (address : Address) (db : S) :
    Edits address id db (if StateDB.exist db address then db else StateDB.createAccount address db) := by
  by_cases exist : StateDB.exist db address
  · rw [if_pos exist]
    exact edits_same address db
  · rw [if_neg exist]
    exact LawfulStateDB.createAccount db address (Bool.eq_false_iff.mpr exist)

theorem edits_pay (address : Address) (balanceChange : Option Int) (db : S) :
    Edits address (fun account => { account with
        balance := balanceChange.elim account.balance fun change => account.balance + .ofInt 256 change }) db
      (balanceChange.elim db fun change => StateDB.addBalance address (.ofInt 256 change) db) := by
  cases balanceChange with
  | none => exact edits_same address db
  | some change => exact LawfulStateDB.addBalance db address _

/-- Code is set with a nonce of one, if there was none. -/
theorem edits_deploy (address : Address) (code : Bytes) (isEIP158 : Bool) (db : S) :
    Edits address (fun account => { account with
        nonce := if code ≠ [] ∧ isEIP158 ∧ account.nonce = 0 then 1 else account.nonce
        code := if code = [] then account.code else code }) db
      (if code = [] then db else
        StateDB.setCode address code
          (if isEIP158 ∧ (StateDB.account db address).nonce = 0 then StateDB.setNonce address 1 db else db)) := by
  by_cases none : code = []
  · rw [if_pos none]
    exact edits_congr (edits_same address db) (by simp [none])
  rw [if_neg none]
  by_cases fresh : isEIP158 ∧ (StateDB.account db address).nonce = 0
  · rw [if_pos fresh]
    refine edits_congr (edits_trans (LawfulStateDB.setNonce db address 1) (LawfulStateDB.setCode _ address code)) ?_
    simp [none, fresh]
  · rw [if_neg fresh]
    refine edits_congr (LawfulStateDB.setCode db address code) ?_
    rw [if_neg none, if_neg fun marked => fresh marked.2]

theorem edits_upgradeAccount (address : Address) (upgrade : StateUpgradeAccount) (isEIP158 : Bool) (db : S) :
    Edits address (upgrade.applied isEIP158) db (upgradeAccount address upgrade isEIP158 db) := by
  have distinct : (upgrade.storage.elim [] AList.entries).NodupKeys := by
    cases upgrade.storage with
    | none => exact List.nodupKeys_nil
    | some storage => exact storage.nodupKeys
  have paid := edits_trans (edits_create address db) (edits_pay address upgrade.balanceChange _)
  have deployed := edits_trans paid (edits_deploy address (upgrade.code.getD []) isEIP158 _)
  refine edits_congr (edits_trans deployed (edits_setStates address distinct _)) ?_
  unfold StateUpgradeAccount.applied
  cases upgrade.storage <;> rfl

/-! ## All accounts -/

variable (isEIP158 : Bool)

/-- Each listed account is upgraded once, and no other. -/
theorem account_upgradeAccounts {entries : List (Sigma fun _ : Address => StateUpgradeAccount)} (distinct : entries.NodupKeys) (db : S)
    (address : Address) :
    StateDB.account (entries.foldl (fun db entry => upgradeAccount entry.1 entry.2 isEIP158 db) db) address =
      (entries.dlookup address).elim (StateDB.account db address) fun upgrade => upgrade.applied isEIP158 (StateDB.account db address) := by
  induction entries generalizing db with
  | nil => rfl
  | cons entry rest ih =>
    obtain ⟨absent, distinct⟩ := List.nodupKeys_cons.mp distinct
    have edits := edits_upgradeAccount entry.1 entry.2 isEIP158 db
    rw [List.foldl_cons, ih distinct]
    by_cases same : address = entry.1
    · rw [same, List.dlookup_eq_none.mpr absent, List.dlookup_cons_eq rest entry.1 entry.2, edits.account_same]
      rfl
    · rw [List.dlookup_cons_ne rest entry same, edits.account_other same]

end

/-! ## Exact upgrades -/

/-- The listed accounts of an upgrade. -/
def StateUpgrade.listed (upgrade : StateUpgrade) (address : Address) : Option StateUpgradeAccount :=
  upgrade.stateUpgradeAccounts.bind fun accounts => accounts.lookup address

/-- The upgrade does to every account what it says of it, in any order of the accounts. -/
structure StateUpgrade.Exact {S : Type} [StateDB S] (isEIP158 : Int → Bool) (upgrade : StateUpgrade) (blockContext : BlockContext)
    (before : S) : Prop where
  balance : ∀ address account, upgrade.listed address = some account →
    ((StateDB.account (configureStateUpgrade isEIP158 upgrade blockContext before) address).balance.toNat : Int) =
      (StateDB.account before address).balance.toNat + account.balanceChange.getD 0
  code : ∀ address account, upgrade.listed address = some account → account.code.getD [] ≠ [] →
    (StateDB.account (configureStateUpgrade isEIP158 upgrade blockContext before) address).code = account.code.getD [] ∧
      (StateDB.account (configureStateUpgrade isEIP158 upgrade blockContext before) address).nonce =
        if isEIP158 blockContext.number ∧ (StateDB.account before address).nonce = 0 then 1 else (StateDB.account before address).nonce
  no_code : ∀ address account, upgrade.listed address = some account → account.code.getD [] = [] →
    (StateDB.account (configureStateUpgrade isEIP158 upgrade blockContext before) address).code = (StateDB.account before address).code ∧
      (StateDB.account (configureStateUpgrade isEIP158 upgrade blockContext before) address).nonce =
        (StateDB.account before address).nonce
  storage : ∀ address account key, upgrade.listed address = some account →
    (StateDB.account (configureStateUpgrade isEIP158 upgrade blockContext before) address).storage key =
      (account.storage.bind fun storage => storage.lookup key).getD ((StateDB.account before address).storage key)
  others : ∀ address, upgrade.listed address = none →
    StateDB.account (configureStateUpgrade isEIP158 upgrade blockContext before) address = StateDB.account before address
  order : ∀ accounts reordered : Map Address StateUpgradeAccount, upgrade.stateUpgradeAccounts = some accounts →
    reordered.entries.Perm accounts.entries →
    StateDB.account (configureStateUpgrade isEIP158 { upgrade with stateUpgradeAccounts := some reordered } blockContext before) =
      StateDB.account (configureStateUpgrade isEIP158 upgrade blockContext before)

section

variable {S : Type} [StateDB S] [LawfulStateDB S] (isEIP158 : Int → Bool) (upgrade : StateUpgrade) (blockContext : BlockContext)
  (before : S)

theorem account_configureStateUpgrade (address : Address) :
    StateDB.account (configureStateUpgrade isEIP158 upgrade blockContext before) address =
      (upgrade.listed address).elim (StateDB.account before address) fun account =>
        account.applied (isEIP158 blockContext.number) (StateDB.account before address) := by
  unfold configureStateUpgrade StateUpgrade.listed
  cases upgrade.stateUpgradeAccounts with
  | none => rfl
  | some accounts => exact account_upgradeAccounts _ accounts.nodupKeys before address

/-- A sum of 256 bits is exact if it is in range. -/
theorem toNat_add_ofInt (balance : BitVec 256) (change : Int) :
    ((balance + .ofInt 256 change).toNat : Int) = balance.toNat + change ↔
      0 ≤ balance.toNat + change ∧ balance.toNat + change < 2 ^ 256 := by
  have sum : ((balance + .ofInt 256 change).toNat : Int) = (balance.toNat + change) % 2 ^ 256 := by
    rw [BitVec.toNat_add, BitVec.toNat_ofInt]
    omega
  rw [sum]
  omega

/-- A change of state is exact if and only if no balance leaves the range of 256 bits. -/
theorem configureStateUpgrade_exact_iff : upgrade.Exact isEIP158 blockContext before ↔
    ∀ address account change, upgrade.listed address = some account → account.balanceChange = some change →
      0 ≤ (StateDB.account before address).balance.toNat + change ∧
        (StateDB.account before address).balance.toNat + change < 2 ^ 256 := by
  have after := account_configureStateUpgrade isEIP158 upgrade blockContext before
  constructor
  · intro exact_upgrade address account change listed changes
    have balance := exact_upgrade.balance address account listed
    rw [after, listed] at balance
    simp only [Option.elim_some, StateUpgradeAccount.applied, changes, Option.getD_some] at balance
    exact (toNat_add_ofInt _ _).mp balance
  · intro fits
    refine ⟨fun address account listed => ?_, fun address account listed some_code => ?_, fun address account listed no_code => ?_,
      fun address account key listed => ?_, fun address unlisted => ?_, fun accounts reordered found same => ?_⟩
    · rw [after, listed]
      cases changes : account.balanceChange with
      | none => simp [StateUpgradeAccount.applied, changes]
      | some change =>
        have exact_sum := (toNat_add_ofInt _ _).mpr (fits address account change listed changes)
        simpa [StateUpgradeAccount.applied, changes] using exact_sum
    · rw [after, listed]
      simp [StateUpgradeAccount.applied, some_code]
    · rw [after, listed]
      simp [StateUpgradeAccount.applied, no_code]
    · rw [after, listed]
      rfl
    · rw [after, unlisted]
      rfl
    · funext address
      rw [after, account_configureStateUpgrade]
      have sameLookup : reordered.lookup address = accounts.lookup address := List.perm_dlookup address reordered.nodupKeys same
      simp only [StateUpgrade.listed, found, Option.bind_some, sameLookup]

end

/-! ## Samples -/

/-- Ten are taken from an account. -/
def withdrawal : StateUpgrade where
  blockTimestamp := some 10
  stateUpgradeAccounts := some (AList.singleton 1 { balanceChange := some (-10) })

/-- One account with a balance. -/
def fundedLedger (balance : BitVec 256) : State.Ledger where
  objects address := if address = 1 then some { balance } else none

/-- From an account of five, what is taken wraps. -/
theorem withdrawal_wraps : ¬ ∀ (upgrades : List StateUpgrade) (upgrade : StateUpgrade) (isEIP158 : Int → Bool)
    (blockContext : BlockContext) (before : State.Ledger), verifyStateUpgradesFrom none 0 upgrades = .ok () → upgrade ∈ upgrades →
    upgrade.Exact isEIP158 blockContext before := by
  intro claimed
  have verified : verifyStateUpgradesFrom none 0 [withdrawal] = .ok () := by decide +kernel
  have exact_upgrade := claimed [withdrawal] withdrawal (fun _ => true) ⟨1, 10⟩ (fundedLedger 5) verified (List.mem_singleton_self _)
  have balance := exact_upgrade.balance 1 { balanceChange := some (-10) } rfl
  exact absurd balance (by decide +kernel)

/-- Of no hypothesis but the laws of the state. -/
theorem configureStateUpgrade_exact_sample : withdrawal.Exact (fun _ => true) ⟨1, 10⟩ (fundedLedger 50) := by
  refine (configureStateUpgrade_exact_iff (fun _ => true) withdrawal ⟨1, 10⟩ (fundedLedger 50)).mpr ?_
  intro address account change listed changes
  have first : address = 1 := by
    by_contra other
    have absent : withdrawal.listed address = none := List.dlookup_cons_ne [] (⟨1, _⟩ : Sigma fun _ : Address => StateUpgradeAccount) other
    rw [absent] at listed
    cases listed
  subst first
  obtain rfl : { balanceChange := some (-10) } = account := Option.some.inj listed
  obtain rfl : -10 = change := Option.some.inj changes
  decide +kernel

end Snowside.Upgrades
