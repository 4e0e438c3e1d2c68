import Mathlib.Data.List.Sort
import Snowside.Federation.World

/-! Withdrawal transactions: the amount of a row, largest-first selection of
unspent outputs, and the transaction that is signed and broadcast. -/

set_option autoImplicit false

namespace Snowside

open Interaction

abbrev Fed := Program Reply

/-! ## Amounts -/

/-- White space as JavaScript trims it. -/
def isSpace (char : Char) : Bool :=
  char.toNat ∈ [9, 10, 11, 12, 13, 32, 0xA0, 0x1680, 0x2028, 0x2029, 0x202F, 0x205F, 0x3000, 0xFEFF] ∨
    (0x2000 ≤ char.toNat ∧ char.toNat ≤ 0x200A)

def trim (text : Text) : Text := ((text.dropWhile isSpace).reverse.dropWhile isSpace).reverse

/-- Digits below the radix, at least one of them. -/
def readNumeral (radix : Nat) (text : Text) : Option Int :=
  if text = [] then none
  else (Text.hexValues text).bind fun digits =>
    if ∀ digit ∈ digits, digit < radix then some (Numeral.value radix digits) else none

/-- `BigInt(text)`; `none` is its SyntaxError. -/
def bigInt (text : Text) : Option Int :=
  match trim text with
  | [] => some 0
  | '0' :: 'x' :: digits => readNumeral 16 digits
  | '0' :: 'X' :: digits => readNumeral 16 digits
  | '0' :: 'o' :: digits => readNumeral 8 digits
  | '0' :: 'O' :: digits => readNumeral 8 digits
  | '0' :: 'b' :: digits => readNumeral 2 digits
  | '0' :: 'B' :: digits => readNumeral 2 digits
  | '-' :: digits => (readNumeral 10 digits).map (- ·)
  | '+' :: digits => readNumeral 10 digits
  | digits => readNumeral 10 digits

/-- `Number` of an integer: the nearest double, ties to even. -/
def nearestDouble (number : Nat) : Nat :=
  if number < 2 ^ 53 then number
  else
    let unit := 2 ^ (number.log2 - 52)
    let low := number / unit
    let rest := number % unit
    if unit < 2 * rest ∨ (unit = 2 * rest ∧ low % 2 = 1) then (low + 1) * unit else low * unit

/-- Satoshis of an amount; `none` is NaN or an infinity. -/
def ecxToSats (config : Config) (amountEcx : Option Text) : Option Int :=
  match amountEcx with
  | none => some 0
  | some text =>
      if '.' ∈ text then config.decimalSats text
      else
        match bigInt text with
        | none => some 0
        | some ecx =>
            let sats := ecx.tdiv satsToEcx
            some (sats.sign * nearestDouble sats.natAbs)

/-- `withdrawal.amount_sats || ecxToSats(withdrawal.amount_ecx, ...)`. -/
def targetSats (config : Config) (withdrawal : Withdrawal) : Option Int :=
  match withdrawal.amountSats with
  | some (sats + 1) => some (sats + 1 : Nat)
  | _ => ecxToSats config withdrawal.amountEcx

/-! ## Selection -/

def cleanAddress (address : Text) : Text :=
  Text.removeFirst "bitcoincash:".toList (Text.removeFirst "ecash:".toList address)

/-- A derived address has no mark to remove. -/
@[simp] theorem cleanAddress_derived (wallet : HDWallet) (network : Network) (index : Nat) :
    cleanAddress (wallet.deriveDepositAddress network index) = wallet.deriveDepositAddress network index := by
  have absent := wallet.colon_not_mem_deriveDepositAddress network index
  rw [cleanAddress, Text.removeFirst_absent (show ':' ∈ "ecash:".toList by decide) absent,
    Text.removeFirst_absent (show ':' ∈ "bitcoincash:".toList by decide) absent]

def feeSats : Nat := 1000

def dustLimit : Nat := 546

/-- An unspent output and the deposit whose key spends it. -/
structure Candidate where
  point : OutPoint
  value : Nat
  deposit : Api.FundedDeposit
  deriving DecidableEq, Repr

/-- The loop of `selectUtxos` over the sorted items. -/
def takeUntil (target : Nat) : Nat → List Candidate → List Candidate × Nat
  | total, [] => ([], total)
  | total, item :: rest =>
      if target ≤ total + item.value then ([item], total + item.value)
      else
        let (selected, final) := takeUntil target (total + item.value) rest
        (item :: selected, final)

def selectUtxos (utxos : List Candidate) (targetSats feeSats : Nat) : List Candidate :=
  let sorted := utxos.insertionSort fun first second => second.value ≤ first.value
  let (selected, total) := takeUntil (targetSats + feeSats) 0 sorted
  if total < targetSats + feeSats then [] else selected

theorem takeUntil_subset (target total : Nat) (items : List Candidate) :
    (takeUntil target total items).1 ⊆ items := by
  induction items generalizing total with
  | nil => exact List.Subset.refl _
  | cons item rest ih =>
    rw [takeUntil]
    split
    · exact List.cons_subset_cons item (List.nil_subset rest)
    · exact List.cons_subset_cons item (ih _)

theorem selectUtxos_subset (utxos : List Candidate) (targetSats feeSats : Nat) :
    selectUtxos utxos targetSats feeSats ⊆ utxos := by
  rw [selectUtxos]
  dsimp only
  split
  · exact List.nil_subset utxos
  · intro item member
    exact (List.perm_insertionSort _ utxos).subset (takeUntil_subset _ _ _ member)

theorem takeUntil_total (target total : Nat) (items : List Candidate) :
    target ≤ (takeUntil target total items).2 ↔ target ≤ total + (items.map Candidate.value).sum := by
  induction items generalizing total with
  | nil => rfl
  | cons item rest ih =>
    rw [takeUntil, List.map_cons, List.sum_cons, ← Nat.add_assoc]
    split
    · next reached => exact iff_of_true reached (Nat.le_add_right_of_le reached)
    · exact ih _

theorem takeUntil_ne_nil (target total : Nat) {items : List Candidate} (some : items ≠ []) :
    (takeUntil target total items).1 ≠ [] := by
  cases items with
  | nil => exact absurd rfl some
  | cons item rest =>
    rw [takeUntil]
    split <;> exact List.cons_ne_nil _ _

/-- A selection is made exactly when the outputs cover target and fee. -/
theorem selectUtxos_ne_nil_iff {utxos : List Candidate} {targetSats feeSats : Nat} (positive : 0 < targetSats + feeSats) :
    selectUtxos utxos targetSats feeSats ≠ [] ↔ targetSats + feeSats ≤ (utxos.map Candidate.value).sum := by
  have same := List.perm_insertionSort (fun first second : Candidate => second.value ≤ first.value) utxos
  rw [selectUtxos, ← (same.map Candidate.value).sum_eq]
  set sorted := utxos.insertionSort fun first second => second.value ≤ first.value
  have covers := takeUntil_total (targetSats + feeSats) 0 sorted
  rw [Nat.zero_add] at covers
  dsimp only
  split
  · next short => exact iff_of_false (fun none => none rfl) (covers.not.mp (by omega))
  · next enough =>
    have covered := covers.mp (by omega)
    refine iff_of_true (takeUntil_ne_nil _ _ fun empty => ?_) covered
    rw [empty] at covered
    exact absurd covered (Nat.not_le.mpr positive)

/-! ## Building and broadcasting -/

def fetchUtxos (network : Network) (address : Text) : Fed (List Output) := do
  let utxos ← Program.call (Call.utxos network (cleanAddress address))
  return utxos.getD []

/-- The candidates of the network's funded deposits, in the order of the list. -/
def collectUtxos (network : Network) : List Api.FundedDeposit → Fed (List Candidate)
  | [] => return []
  | deposit :: rest =>
      if deposit.network ≠ network then collectUtxos network rest
      else do
        let utxos ← fetchUtxos network deposit.ecashAddress
        let others ← collectUtxos network rest
        return utxos.map (fun utxo => ⟨utxo.point, utxo.value, deposit⟩) ++ others

def toInput (wallet : HDWallet) (network : Network) (item : Candidate) : Input :=
  ⟨item.point, wallet.deriveDepositAddress network item.deposit.derivationIndex, item.value⟩

/-- The transaction for a selection: what the inputs leave above target and fee
comes back as change, unless it is dust. -/
def buildTx (wallet : HDWallet) (network : Network) (selected : List Candidate) (target : Nat)
    (address changeAddress : Text) : PayoutTx :=
  let changeSats := (selected.map Candidate.value).sum - target - feeSats
  { inputs := selected.map (toInput wallet network)
    address
    target
    change := if dustLimit < changeSats then some (changeAddress, changeSats) else none }

/-- The hash of the L1 transaction, `none` on any failure. -/
def buildSignAndBroadcastWithdrawal (config : Config) (network : Network) (withdrawal : Withdrawal)
    (fundedDeposits : List Api.FundedDeposit) (wallet : HDWallet) (changeAddress : Text) :
    Fed (Option Nat) :=
  match targetSats config withdrawal with
  -- BigInt(NaN) throws and infinities are never funded.
  | none => return none
  | some amount =>
      if amount < dustLimit then return none
      else do
        let allUtxos ← collectUtxos network fundedDeposits
        let selected := selectUtxos allUtxos amount.toNat feeSats
        if selected = [] then return none
        else
          match config.decodeAddress network (cleanAddress withdrawal.ecashAddress) with
          | none => return none
          | some address =>
              Program.call (Call.broadcast network
                (buildTx wallet network selected amount.toNat address (cleanAddress changeAddress)) withdrawal)

end Snowside
