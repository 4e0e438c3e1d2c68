import Snowside.Precompile.Words

/-! The state database: what the node asks of it, what it relies on, and a ledger
of accounts that answers so.
-/

set_option autoImplicit false

namespace Snowside.State

open Evm (Address Bytes)
open Precompile (Hash)

structure Account where
  nonce : UInt64 := 0
  balance : BitVec 256 := 0
  code : Bytes := []
  storage : Hash → Hash := fun _ => 0

/-- Storage does not count. -/
def Account.empty (account : Account) : Bool := account.nonce = 0 ∧ account.balance = 0 ∧ account.code = []

/-- The operations, with the getters of an account taken together. `finalise` deletes
empty accounts. -/
class StateDB (S : Type) where
  exist : S → Address → Bool
  account : S → Address → Account
  hasSelfDestructed : S → Address → Bool
  createAccount : Address → S → S
  setNonce : Address → UInt64 → S → S
  setCode : Address → Bytes → S → S
  setState : Address → Hash → Hash → S → S
  addBalance : Address → BitVec 256 → S → S
  selfDestruct : Address → S → S
  finalise : S → S

open StateDB

/-- The operation changes one account only, and destructs none. -/
structure Edits {S : Type} [StateDB S] (address : Address) (change : Account → Account) (before after : S) : Prop where
  account : account after = Function.update (account before) address (change (account before address))
  hasSelfDestructed : hasSelfDestructed after = hasSelfDestructed before

/-- What is relied on. -/
class LawfulStateDB (S : Type) [StateDB S] : Prop where
  account_absent : ∀ (db : S) address, exist db address = false → account db address = {}
  createAccount : ∀ (db : S) address, exist db address = false → Edits address id db (createAccount address db)
  setNonce : ∀ (db : S) address nonce, Edits address (fun account => { account with nonce }) db (setNonce address nonce db)
  setCode : ∀ (db : S) address code, Edits address (fun account => { account with code }) db (setCode address code db)
  setState : ∀ (db : S) address key value,
    Edits address (fun account => { account with storage := Function.update account.storage key value }) db
      (setState address key value db)
  addBalance : ∀ (db : S) address amount,
    Edits address (fun account => { account with balance := account.balance + amount }) db (addBalance address amount db)
  account_selfDestruct : ∀ (db : S) address, account (selfDestruct address db) =
    Function.update (account db) address { account db address with balance := 0 }
  hasSelfDestructed_selfDestruct : ∀ (db : S) address, hasSelfDestructed (selfDestruct address db) =
    Function.update (hasSelfDestructed db) address (exist db address || hasSelfDestructed db address)
  account_finalise_destructed : ∀ (db : S) address, hasSelfDestructed db address → account (finalise db) address = {}
  account_finalise : ∀ (db : S) address, hasSelfDestructed db address = false → (account db address).empty = false →
    account (finalise db) address = account db address
  account_finalise_empty : ∀ (db : S) address, hasSelfDestructed db address = false → (account db address).empty →
    account (finalise db) address = account db address ∨ account (finalise db) address = {}
  hasSelfDestructed_finalise : ∀ (db : S) address, hasSelfDestructed (finalise db) address = false

section

variable {S : Type} [StateDB S] {address other : Address} {change : Account → Account} {before after : S}

theorem Edits.account_same (edits : Edits address change before after) :
    StateDB.account after address = change (StateDB.account before address) := by
  rw [edits.account, Function.update_self]

theorem Edits.account_other (edits : Edits address change before after) (apart : other ≠ address) :
    StateDB.account after other = StateDB.account before other := by
  rw [edits.account, Function.update_of_ne apart]

end

/-! ## A ledger -/

/-- The accounts that exist, those touched since the state was last finalised, and those
self-destructed since then. -/
structure Ledger where
  objects : Address → Option Account := fun _ => none
  dirty : Address → Bool := fun _ => false
  destructed : Address → Bool := fun _ => false

namespace Ledger

variable (ledger : Ledger)

def get (address : Address) : Account := (ledger.objects address).getD {}

def put (address : Address) (account : Account) : Ledger :=
  { ledger with
    objects := Function.update ledger.objects address (some account)
    dirty := Function.update ledger.dirty address true }

/-- Writing what is there does not touch the account. -/
def putState (address : Address) (key value : Hash) : Ledger :=
  let account := ledger.get address
  if (ledger.objects address).isSome ∧ account.storage key = value then ledger
  else ledger.put address { account with storage := Function.update account.storage key value }

/-- Adding nothing touches empty accounts only. -/
def credit (address : Address) (amount : BitVec 256) : Ledger :=
  let account := ledger.get address
  if amount = 0 ∧ account.empty = false then ledger
  else ledger.put address { account with balance := account.balance + amount }

def destruct (address : Address) : Ledger :=
  match ledger.objects address with
  | none => ledger
  | some account =>
      { ledger.put address { account with balance := 0 } with
        destructed := Function.update ledger.destructed address true }

def settle : Ledger where
  objects address :=
    if ledger.destructed address ∨ (ledger.dirty address ∧ (ledger.get address).empty) then none
    else ledger.objects address

instance : StateDB Ledger where
  exist ledger address := (ledger.objects address).isSome
  account := get
  hasSelfDestructed := destructed
  createAccount address ledger := ledger.put address (ledger.get address)
  setNonce address nonce ledger := ledger.put address { ledger.get address with nonce }
  setCode address code ledger := ledger.put address { ledger.get address with code }
  setState address key value ledger := ledger.putState address key value
  addBalance address amount ledger := ledger.credit address amount
  selfDestruct address ledger := ledger.destruct address
  finalise := settle

theorem get_put (address : Address) (account : Account) :
    (ledger.put address account).get = Function.update ledger.get address account := by
  funext other
  by_cases same : other = address
  · subst same
    simp [get, put]
  · simp [get, put, Function.update_of_ne same]

theorem edits_put (address : Address) (change : Account → Account) :
    Edits address change ledger (ledger.put address (change (ledger.get address))) where
  account := ledger.get_put address _
  hasSelfDestructed := rfl

theorem edits_refl {address : Address} {change : Account → Account} (same : change (ledger.get address) = ledger.get address) :
    Edits address change ledger ledger where
  account := by
    change ledger.get = _
    exact (Function.update_eq_self_iff.mpr same).symm
  hasSelfDestructed := rfl

theorem get_destruct (address : Address) :
    (ledger.destruct address).get = Function.update ledger.get address { ledger.get address with balance := 0 } := by
  unfold destruct
  cases found : ledger.objects address with
  | none =>
    refine (Function.update_eq_self_iff.mpr ?_).symm
    simp only [get, found, Option.getD_none]
  | some account =>
    have : ledger.get address = account := by simp only [get, found, Option.getD_some]
    rw [this]
    exact ledger.get_put address _

theorem get_settle_destructed {address : Address} (gone : ledger.destructed address) : ledger.settle.get address = {} := by
  simp only [get, settle, gone, true_or, if_true, Option.getD_none]

theorem get_settle {address : Address} (present : ledger.destructed address = false)
    (kept : ledger.dirty address = false ∨ (ledger.get address).empty = false) :
    ledger.settle.get address = ledger.get address := by
  have : ¬ (ledger.destructed address ∨ (ledger.dirty address ∧ (ledger.get address).empty)) := by
    rw [present]
    rcases kept with clean | kept
    · simp only [clean, Bool.false_eq_true, false_and, or_false, not_false_eq_true]
    · simp only [kept, Bool.false_eq_true, and_false, or_false, not_false_eq_true]
  have : ledger.settle.objects address = ledger.objects address := if_neg this
  rw [get, get, this]

theorem get_settle_empty {address : Address} (present : ledger.destructed address = false)
    (blank : (ledger.get address).empty) :
    ledger.settle.get address = ledger.get address ∨ ledger.settle.get address = {} := by
  cases touched : ledger.dirty address with
  | false => exact .inl (ledger.get_settle present (.inl touched))
  | true =>
    have : (ledger.settle.objects address) = none := by simp only [settle, touched, blank, and_self, or_true, if_true]
    exact .inr (by rw [get, this, Option.getD_none])

instance : LawfulStateDB Ledger where
  account_absent ledger address absent := by
    change ledger.get address = {}
    rw [get, Option.isSome_eq_false_iff.mp absent |> Option.isNone_iff_eq_none.mp, Option.getD_none]
  createAccount ledger address _ := ledger.edits_put address id
  setNonce ledger address _ := ledger.edits_put address _
  setCode ledger address _ := ledger.edits_put address _
  setState ledger address key value := by
    change Edits address _ ledger (ledger.putState address key value)
    dsimp only [putState]
    split
    · next same =>
      refine ledger.edits_refl ?_
      rw [← same.2, Function.update_eq_self]
    · exact ledger.edits_put address fun account => { account with storage := Function.update account.storage key value }
  addBalance ledger address amount := by
    change Edits address _ ledger (ledger.credit address amount)
    dsimp only [credit]
    split
    · next same =>
      refine ledger.edits_refl ?_
      simp only [same.1, BitVec.ofNat_eq_ofNat, BitVec.add_zero]
    · exact ledger.edits_put address fun account => { account with balance := account.balance + amount }
  account_selfDestruct ledger address := ledger.get_destruct address
  hasSelfDestructed_selfDestruct ledger address := by
    change (ledger.destruct address).destructed = _
    unfold destruct
    cases found : ledger.objects address with
    | none =>
      refine (Function.update_eq_self_iff.mpr ?_).symm
      simp only [StateDB.exist, found, Option.isSome_none, Bool.false_or]
      rfl
    | some account =>
      simp only [StateDB.exist, found, Option.isSome_some, Bool.true_or]
      rfl
  account_finalise_destructed ledger _ gone := ledger.get_settle_destructed gone
  account_finalise ledger _ present kept := ledger.get_settle present (.inr kept)
  account_finalise_empty ledger _ present blank := ledger.get_settle_empty present blank
  hasSelfDestructed_finalise _ _ := rfl

end Ledger

end Snowside.State
