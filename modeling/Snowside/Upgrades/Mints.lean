import Snowside.Precompile.NativeCoin
import Snowside.Precompile.Privileges
import Snowside.Upgrades.Applied
import Snowside.Upgrades.Compatible
import Snowside.Upgrades.StateChanges

/-! What the native minter adds to balances, over the integers: by a call, and when it
is configured.
-/

set_option autoImplicit false

namespace Snowside.Upgrades

open Evm (Address Bytes NetworkUpgrades)
open Precompile (AccessibleState Machine Hash PrecompileError getAllowListStatus onState)
open Precompile.NativeCoin (mintNativeCoin mintNativeCoinSetter unpackMintNativeCoinInput mint)
open Checked Stateful
open Maps (Map)

/-! ## Balances that grow -/

/-- Every balance grows by an amount of its own, as an integer. -/
def Pays (amounts : Address → Int) (before after : Precompile.StateDB) : Prop :=
  ∀ address, ((after.balance address).toNat : Int) = (before.balance address).toNat + amounts address

/-- No sum leaves the range of 256 bits. -/
def Fits (amounts : Address → Int) (before : Precompile.StateDB) : Prop :=
  ∀ address, 0 ≤ (before.balance address).toNat + amounts address ∧ (before.balance address).toNat + amounts address < 2 ^ 256

/-- One address is paid. -/
def paidTo (recipient : Address) (amount : Int) : Address → Int := Function.update 0 recipient amount

/-- What the entries of a map pay. -/
def listedAmounts (initialMint : Map Address (Option Int)) (address : Address) : Int := ((initialMint.lookup address).join).getD 0

variable {amounts : Address → Int} {before after : Precompile.StateDB}

/-- Balances that are added up in 256 bits grow as integers if and only if the sums fit. -/
theorem pays_iff (added : ∀ address, after.balance address = before.balance address + .ofInt 256 (amounts address)) :
    Pays amounts before after ↔ Fits amounts before := by
  refine forall_congr' fun address => ?_
  rw [added]
  exact toNat_add_ofInt (before.balance address) (amounts address)

theorem fits_paidTo (recipient : Address) (amount : Nat) :
    Fits (paidTo recipient amount) before ↔ (before.balance recipient).toNat + amount < 2 ^ 256 := by
  constructor
  · intro fits
    have fits := fits recipient
    rw [paidTo, Function.update_self] at fits
    exact mod_cast fits.2
  · intro small address
    have inRange := (before.balance address).isLt
    by_cases same : address = recipient
    · subst same
      rw [paidTo, Function.update_self]
      omega
    · rw [paidTo, Function.update_of_ne same, Pi.zero_apply]
      omega

theorem fits_listedAmounts {initialMint : Map Address (Option Int)}
    (nonnegative : ∀ address amount, initialMint.lookup address = some (some amount) → 0 ≤ amount) :
    Fits (listedAmounts initialMint) before ↔ ∀ address amount, initialMint.lookup address = some (some amount) →
      (before.balance address).toNat + amount < 2 ^ 256 := by
  constructor
  · intro fits address amount listed
    have fits := (fits address).2
    rwa [listedAmounts, listed] at fits
  · intro small address
    have inRange := (before.balance address).isLt
    rcases listed : initialMint.lookup address with _ | _ | amount
    · rw [listedAmounts, listed]
      simp only [Option.join_none, Option.getD_none]
      omega
    · rw [listedAmounts, listed]
      simp only [Option.join_some, Option.getD_none]
      omega
    · rw [listedAmounts, listed]
      have positive := nonnegative address amount listed
      have small := small address amount listed
      simp only [Option.join_some, Option.getD_some]
      omega

/-! ## A call -/

theorem balance_mint (recipient : Address) (amount : Hash) (db : Precompile.StateDB) (address : Address) :
    (mint recipient amount db).balance address = db.balance address + .ofInt 256 (paidTo recipient amount.toNat address) := by
  have created : (if db.exist recipient then db else db.createAccount recipient).balance = db.balance := by
    split <;> rfl
  unfold mint paidTo Precompile.StateDB.addBalance
  simp only [created]
  by_cases same : address = recipient
  · subst same
    rw [Function.update_self, Function.update_self, BitVec.ofInt_natCast, BitVec.ofNat_toNat, BitVec.setWidth_eq]
  · rw [Function.update_of_ne same, Function.update_of_ne same]
    exact (BitVec.add_zero _).symm

section

variable {accessibleState : AccessibleState} {caller : Address} {input : Bytes} {readOnly : Bool} {start : Machine}

/-- A call fails and leaves the balances, or it mints what it has unpacked. -/
theorem ends_mintNativeCoin : Ends start (mintNativeCoin accessibleState caller input readOnly) fun result final =>
    (∀ error, result = .error error → final.db.balance = start.db.balance) ∧
    ∀ output, result = .ok output → ∃ argument,
      unpackMintNativeCoinInput input (!accessibleState.rules.isDurangoActivated) = .ok argument ∧
      ∀ address, final.db.balance address =
        start.db.balance address + .ofInt 256 (paidTo argument.addr argument.amount.toNat address) := by
  refine Precompile.Setter.ends_stores (fun error gas _ => ⟨fun _ _ => rfl, fun _ refused => nomatch refused⟩) ?_
  intro _ _ argument unpacked gas _ logs
  have stored : Ends ⟨gas, { start.db with logs }⟩ (onState (mintNativeCoinSetter.store accessibleState argument))
      fun result final => result = .ok () ∧ final.db = mint argument.addr argument.amount { start.db with logs } := ⟨rfl, rfl⟩
  refine stored.bind (fun _ _ failed => nomatch failed.1) fun _ final minted => ?_
  refine Ends.pure ⟨fun _ refused => (nomatch refused), fun _ _ => ⟨argument, unpacked, fun address => ?_⟩⟩
  rw [minted.2]
  exact balance_mint argument.addr argument.amount { start.db with logs } address

end

/-! ## Configuring -/

/-- Roles are storage. -/
theorem balance_configureAllowList (precompileAddr : Address) (config : AllowListConfig) (db : Precompile.StateDB) :
    (perform (config.configure precompileAddr) db).2.balance = db.balance := by
  have sets (role : Precompile.Role) (addresses : List Address) (db : Precompile.StateDB) :
      (addresses.foldl (fun db address => setAllowListRole precompileAddr address role db) db).balance = db.balance := by
    induction addresses generalizing db with
    | nil => rfl
    | cons address rest ih => exact ih _
  unfold AllowListConfig.configure
  rw [perform_bind_ok (perform_forM_modify _ _ _), perform_bind_ok (perform_forM_modify _ _ _), perform_forM_modify]
  rw [sets, sets, sets]

/-- Each entry adds to one balance. -/
theorem balance_configureMint {entries : List (Sigma fun _ : Address => Option Int)} (distinct : entries.NodupKeys)
    (db : Precompile.StateDB) (address : Address) :
    (entries.foldl (fun db entry => entry.2.elim db fun amount => ContractStateDB.addBalance entry.1 (.ofInt 256 amount) db)
      db).balance address = db.balance address + .ofInt 256 (((entries.dlookup address).join).getD 0) := by
  induction entries generalizing db with
  | nil => exact (BitVec.add_zero _).symm
  | cons entry rest ih =>
    obtain ⟨absent, distinct⟩ := List.nodupKeys_cons.mp distinct
    rw [List.foldl_cons, ih distinct]
    by_cases same : address = entry.1
    · rw [same, List.dlookup_eq_none.mpr absent, List.dlookup_cons_eq rest entry.1 entry.2]
      cases entry.2 with
      | none => exact (BitVec.add_zero _).trans (BitVec.add_zero _).symm
      | some amount =>
        change Function.update db.balance entry.1 (db.balance entry.1 + .ofInt 256 amount) entry.1 + 0 = _
        rw [Function.update_self]
        exact BitVec.add_zero _
    · rw [List.dlookup_cons_ne rest entry same]
      cases entry.2 with
      | none => rfl
      | some amount =>
        change Function.update db.balance entry.1 _ address + _ = _
        rw [Function.update_of_ne same]

/-- Verified amounts are positive. -/
theorem positive_of_verified {initialMint : Map Address (Option Int)} (verified : verifyInitialMint initialMint = .ok ())
    (address : Address) (amount : Int) (listed : initialMint.lookup address = some (some amount)) : 0 < amount := by
  have member := List.of_mem_dlookup (show some amount ∈ initialMint.entries.dlookup address from listed)
  have checked := (forM_eq_ok).mp verified _ member
  obtain ⟨found, needed, checked⟩ := bind_eq_ok.mp checked
  obtain rfl : amount = found := Option.some.inj (need_eq_ok.mp needed)
  have large := refuse_eq_ok.mp checked
  omega

theorem perform_configure_nativeMinter (chain : ChainConfig) (allowList : AllowListConfig) (upgrade : Upgrade)
    (initialMint : Map Address (Option Int)) (blockContext : BlockContext) (db : Precompile.StateDB) :
    ∃ final, perform (Module.nativeMinter.configure chain (.nativeMinter allowList upgrade initialMint) blockContext) db =
        (.ok (), final) ∧
      ∀ address, final.balance address = db.balance address + .ofInt 256 (listedAmounts initialMint address) := by
  have minted := @perform_forM_modify ConfigureError _ _ initialMint.entries
    (fun entry db => entry.2.elim db fun amount => ContractStateDB.addBalance entry.1 (.ofInt 256 amount) db) db
  refine ⟨_, (perform_bind_ok minted).trans (Prod.ext (configure_allowList_ok _ allowList _) rfl), fun address => ?_⟩
  rw [balance_configureAllowList]
  exact balance_configureMint initialMint.nodupKeys db address

/-! ## Exact mints -/

/-- Calls and configurations pay what they say exactly where the sums fit. -/
theorem mints_exact_iff (accessibleState : AccessibleState) (caller : Address) (input : Bytes) (readOnly : Bool) (start : Machine)
    (networkUpgrades : NetworkUpgrades) (chain : ChainConfig) (allowList : AllowListConfig) (upgrade : Upgrade)
    (initialMint : Map Address (Option Int)) (blockContext : BlockContext) (before : Precompile.StateDB) :
    (∀ error final, perform (mintNativeCoin accessibleState caller input readOnly) start = (.error error, final) →
      final.db.balance = start.db.balance) ∧
    (∀ output final, perform (mintNativeCoin accessibleState caller input readOnly) start = (.ok output, final) →
      ∃ argument, unpackMintNativeCoinInput input (!accessibleState.rules.isDurangoActivated) = .ok argument ∧
        (∀ address ≠ argument.addr, final.db.balance address = start.db.balance address) ∧
        (Pays (paidTo argument.addr argument.amount.toNat) start.db final.db ↔
          (start.db.balance argument.addr).toNat + argument.amount.toNat < 2 ^ 256)) ∧
    ((Config.nativeMinter allowList upgrade initialMint).verify networkUpgrades = .ok () →
      ∃ after, perform (Module.nativeMinter.configure chain (.nativeMinter allowList upgrade initialMint) blockContext) before =
          (.ok (), after) ∧
        (∀ address ∉ initialMint, after.balance address = before.balance address) ∧
        (Pays (listedAmounts initialMint) before after ↔ ∀ address amount, initialMint.lookup address = some (some amount) →
          (before.balance address).toNat + amount < 2 ^ 256)) := by
  refine ⟨fun error final failed => ?_, fun output final returned => ?_, fun verified => ?_⟩
  · have ends : Ends start (mintNativeCoin accessibleState caller input readOnly) _ := ends_mintNativeCoin
    exact (ends.of_perform failed).1 error rfl
  · have ends : Ends start (mintNativeCoin accessibleState caller input readOnly) _ := ends_mintNativeCoin
    obtain ⟨argument, unpacked, added⟩ := (ends.of_perform returned).2 output rfl
    refine ⟨argument, unpacked, fun address other => ?_, (pays_iff added).trans (fits_paidTo argument.addr argument.amount.toNat)⟩
    rw [added, paidTo, Function.update_of_ne other]
    exact BitVec.add_zero _
  · obtain ⟨_, initialMints, -⟩ := bind_eq_ok.mp verified
    obtain ⟨after, configured, added⟩ := perform_configure_nativeMinter chain allowList upgrade initialMint blockContext before
    refine ⟨after, configured, fun address unlisted => ?_, (pays_iff added).trans ?_⟩
    · rw [added, listedAmounts, AList.lookup_eq_none.mpr unlisted]
      exact BitVec.add_zero _
    · exact fits_listedAmounts fun address amount listed => (positive_of_verified initialMints address amount listed).le

/-- Address 5 may mint, and address 1 has a balance. -/
def minterMachine (balance : BitVec 256) : Machine where
  gas := 100000
  db := { Precompile.setAllowListRole Precompile.NativeCoin.contractAddress 5 .enabledRole Precompile.sampleDB with
    balance := fun address => if address = 1 then balance else 0 }

/-- Mints so much to address 1. -/
def mintInput (amount : Hash) : Bytes := Precompile.packWords [1, amount]

/-- A mint of one to the largest balance leaves none. -/
theorem mint_wraps : ¬ ∀ (accessibleState : AccessibleState) (caller : Address) (input : Bytes) (readOnly : Bool)
    (start final : Machine) (output : Bytes),
    perform (mintNativeCoin accessibleState caller input readOnly) start = (.ok output, final) →
    ∃ argument, unpackMintNativeCoinInput input (!accessibleState.rules.isDurangoActivated) = .ok argument ∧
      Pays (paidTo argument.addr argument.amount.toNat) start.db final.db := by
  intro claimed
  have minted : (perform (mintNativeCoin Precompile.sampleState 5 (mintInput 1) false) (minterMachine (.allOnes 256))).1 = .ok [] := by
    decide +kernel
  obtain ⟨argument, unpacked, pays⟩ := claimed Precompile.sampleState 5 (mintInput 1) false (minterMachine (.allOnes 256)) _ []
    (Prod.ext minted rfl)
  have read : unpackMintNativeCoinInput (mintInput 1) false = .ok ⟨1, 1⟩ := by decide +kernel
  obtain rfl : ⟨1, 1⟩ = argument := Except.ok.inj (read.symm.trans unpacked)
  exact absurd (pays 1) (by decide +kernel)

/-- Four to address 2. -/
def sampleMint : Map Address (Option Int) := AList.singleton 2 (some 4)

/-- A mint of seven by a call, and one of four by a configuration. -/
theorem mints_exact_sample : Pays (paidTo 1 7) (minterMachine 3).db
      (perform (mintNativeCoin Precompile.sampleState 5 (mintInput 7) false) (minterMachine 3)).2.db ∧
    Pays (listedAmounts sampleMint) (minterMachine 3).db
      (perform (Module.nativeMinter.configure sampleChain (.nativeMinter {} ⟨some 0, false⟩ sampleMint) ⟨0, 0⟩) (minterMachine 3).db).2 := by
  obtain ⟨-, called, configured⟩ := mints_exact_iff Precompile.sampleState 5 (mintInput 7) false (minterMachine 3)
    sampleChain.networkUpgrades sampleChain {} ⟨some 0, false⟩ sampleMint ⟨0, 0⟩ (minterMachine 3).db
  constructor
  · have minted : (perform (mintNativeCoin Precompile.sampleState 5 (mintInput 7) false) (minterMachine 3)).1 = .ok [] := by
      decide +kernel
    obtain ⟨argument, unpacked, -, exact_iff⟩ := called [] _ (Prod.ext minted rfl)
    have read : unpackMintNativeCoinInput (mintInput 7) false = .ok ⟨1, 7⟩ := by decide +kernel
    obtain rfl : ⟨1, 7⟩ = argument := Except.ok.inj (read.symm.trans unpacked)
    exact exact_iff.mpr (by decide +kernel)
  · obtain ⟨after, ran, -, exact_iff⟩ := configured (by decide +kernel)
    rw [ran]
    refine exact_iff.mpr fun address amount listed => ?_
    have entry : (⟨address, some amount⟩ : Sigma fun _ => Option Int) ∈ sampleMint.entries := AList.mem_lookup_iff.mp listed
    obtain ⟨rfl, same⟩ := Sigma.mk.inj (List.mem_singleton.mp entry)
    obtain rfl := Option.some.inj (eq_of_heq same)
    decide +kernel

end Snowside.Upgrades
