import Mathlib.Data.List.Sort
import Snowside.Text

/-! The bridge API: its two tables, the requests of users and of the federation.

Only columns and bodies that some request reads or writes are kept. Row ids are
the random UUIDs as numbers; a second row with a taken id fails the insert.
-/

set_option autoImplicit false

namespace Snowside

inductive Network where
  | mainnet
  | testnet
  | signet
  deriving DecidableEq, Repr

inductive DepositStatus where
  | pending
  | confirmed
  | minted
  deriving DecidableEq, Repr

inductive WithdrawalStatus where
  | pending
  | completed
  | failed
  deriving DecidableEq, Repr

structure Deposit where
  id : Nat
  network : Network
  snowsideAddress : Text
  ecashAddress : Option Text := none
  derivationIndex : Option Nat := none
  amountSats : Option Nat := none
  amountEcx : Option Nat := none
  ecashTxHash : Option Nat := none
  mintTxHash : Option Nat := none
  status : DepositStatus := .pending
  createdAt : Nat
  confirmedAt : Option Nat := none
  mintedAt : Option Nat := none
  deriving DecidableEq, Repr

/-- A withdrawal row. `amountEcx` is what JavaScript prints for the value that
the INTEGER column gives back for the submitted text. -/
structure Withdrawal where
  id : Nat
  network : Network
  snowsideAddress : Text
  ecashAddress : Text
  amountEcx : Option Text := none
  amountSats : Option Nat := none
  burnTxHash : Option Text := none
  ecashTxHash : Option Nat := none
  status : WithdrawalStatus := .pending
  createdAt : Nat
  completedAt : Option Nat := none
  deriving DecidableEq, Repr

inductive ApiError where
  | missingFields
  | noValidFields
  | duplicateId
  deriving DecidableEq, Repr

namespace Api

/-! ## Requests of users -/

/-- `POST /v1/bridge/deposit`. -/
def createDeposit (id now : Nat) (network : Network) (snowsideAddress : Text) (deposits : List Deposit) :
    Except ApiError (List Deposit) :=
  if snowsideAddress = [] then .error .missingFields
  else if id ∈ deposits.map Deposit.id then .error .duplicateId
  else .ok (deposits ++ [{ id, network, snowsideAddress, createdAt := now }])

/-- The body of `POST /v1/bridge/withdraw`. -/
structure WithdrawBody where
  snowsideAddress : Text
  ecashAddress : Text
  amountEcx : Text
  network : Network
  burnTxHash : Option Text

/-- `POST /v1/bridge/withdraw`. The column conversion of the amount is SQLite's. -/
def createWithdrawal (readBack : Text → Text) (id now : Nat) (body : WithdrawBody)
    (withdrawals : List Withdrawal) : Except ApiError (List Withdrawal) :=
  if body.snowsideAddress = [] ∨ body.ecashAddress = [] ∨ body.amountEcx = [] then .error .missingFields
  else if id ∈ withdrawals.map Withdrawal.id then .error .duplicateId
  else .ok (withdrawals ++ [{
    id
    network := body.network
    snowsideAddress := body.snowsideAddress
    ecashAddress := body.ecashAddress
    amountEcx := some (readBack body.amountEcx)
    -- An empty hash is stored as NULL.
    burnTxHash := body.burnTxHash.filter (· ≠ [])
    createdAt := now }])

section
variable {id now : Nat} {network : Network} {snowsideAddress : Text} {readBack : Text → Text}
  {body : WithdrawBody}

theorem createDeposit_eq {deposits after : List Deposit}
    (created : (createDeposit id now network snowsideAddress deposits).toOption = some after) :
    id ∉ deposits.map Deposit.id ∧ snowsideAddress ≠ [] ∧
      after = deposits ++ [{ id, network, snowsideAddress, createdAt := now }] := by
  unfold createDeposit at created
  split_ifs at created with empty taken
  · cases created
  · cases created
  · exact ⟨taken, empty, (Option.some.inj created).symm⟩

theorem createWithdrawal_eq {withdrawals after : List Withdrawal}
    (created : (createWithdrawal readBack id now body withdrawals).toOption = some after) :
    id ∉ withdrawals.map Withdrawal.id ∧ ∃ row : Withdrawal, after = withdrawals ++ [row] ∧ row.id = id ∧
      row.status = .pending ∧ row.amountSats = none := by
  unfold createWithdrawal at created
  split_ifs at created with empty taken
  · cases created
  · cases created
  · exact ⟨taken, _, (Option.some.inj created).symm, rfl, rfl, rfl⟩

end

/-! ## Requests of the federation -/

/-- `GET /v1/fed/deposits/pending`. -/
def pendingDeposits (deposits : List Deposit) : List Deposit :=
  (deposits.filter fun row => row.status = .pending ∨ row.status = .confirmed).insertionSort
    fun first second => first.createdAt ≤ second.createdAt

/-- The body of `PATCH /v1/fed/deposit/{id}`. -/
structure DepositPatch where
  ecashAddress : Option Text := none
  derivationIndex : Option Nat := none
  amountSats : Option Nat := none
  amountEcx : Option Nat := none
  ecashTxHash : Option Nat := none
  mintTxHash : Option Nat := none
  status : Option DepositStatus := none
  deriving DecidableEq, Repr

/-- The SET list of the update: given columns, and the two times that follow the status. -/
def DepositPatch.apply (patch : DepositPatch) (now : Nat) (row : Deposit) : Deposit :=
  { row with
    ecashAddress := patch.ecashAddress.or row.ecashAddress
    derivationIndex := patch.derivationIndex.or row.derivationIndex
    amountSats := patch.amountSats.or row.amountSats
    amountEcx := patch.amountEcx.or row.amountEcx
    ecashTxHash := patch.ecashTxHash.or row.ecashTxHash
    mintTxHash := patch.mintTxHash.or row.mintTxHash
    status := patch.status.getD row.status
    confirmedAt := if patch.status = some .confirmed then some now else row.confirmedAt
    mintedAt := if patch.status = some .minted then some now else row.mintedAt }

/-- `PATCH /v1/fed/deposit/{id}`. -/
def patchDeposit (id now : Nat) (patch : DepositPatch) (deposits : List Deposit) :
    Except ApiError (List Deposit) :=
  if patch = {} then .error .noValidFields
  else .ok (deposits.map fun row => if row.id = id then patch.apply now row else row)

/-- A row of `GET /v1/fed/deposits/funded`: the query returns none of these NULL. -/
structure FundedDeposit where
  id : Nat
  network : Network
  ecashAddress : Text
  derivationIndex : Nat
  amountSats : Nat
  deriving DecidableEq, Repr

def fundedRow (row : Deposit) : Option FundedDeposit :=
  match row.ecashAddress, row.derivationIndex, row.amountSats with
  | some ecashAddress, some derivationIndex, some amountSats =>
      some { id := row.id, network := row.network, ecashAddress, derivationIndex, amountSats }
  | _, _, _ => none

/-- `GET /v1/fed/deposits/funded`. -/
def fundedDeposits (deposits : List Deposit) : List FundedDeposit :=
  (deposits.insertionSort fun first second => first.createdAt ≤ second.createdAt).filterMap fundedRow

/-- `GET /v1/fed/withdrawals/pending`. -/
def pendingWithdrawals (withdrawals : List Withdrawal) : List Withdrawal :=
  (withdrawals.filter fun row => row.status = .pending).insertionSort
    fun first second => first.createdAt ≤ second.createdAt

/-- The body of `PATCH /v1/fed/withdraw/{id}`; the schema drops `completedAt`. -/
structure WithdrawalPatch where
  amountSats : Option Nat := none
  ecashTxHash : Option Nat := none
  status : Option WithdrawalStatus := none
  completedAt : Option Nat := none
  deriving DecidableEq, Repr

def WithdrawalPatch.apply (patch : WithdrawalPatch) (now : Nat) (row : Withdrawal) : Withdrawal :=
  { row with
    amountSats := patch.amountSats.or row.amountSats
    ecashTxHash := patch.ecashTxHash.or row.ecashTxHash
    status := patch.status.getD row.status
    completedAt := if patch.status = some .completed then some now else row.completedAt }

/-- `PATCH /v1/fed/withdraw/{id}`. -/
def patchWithdrawal (id now : Nat) (patch : WithdrawalPatch) (withdrawals : List Withdrawal) :
    Except ApiError (List Withdrawal) :=
  if patch.amountSats = none ∧ patch.ecashTxHash = none ∧ patch.status = none then .error .noValidFields
  else .ok (withdrawals.map fun row => if row.id = id then patch.apply now row else row)

theorem patchDeposit_eq {id now : Nat} {patch : DepositPatch} {deposits after : List Deposit}
    (patched : (patchDeposit id now patch deposits).toOption = some after) :
    after = deposits.map fun row => if row.id = id then patch.apply now row else row := by
  unfold patchDeposit at patched
  split at patched
  · cases patched
  · exact (Option.some.inj patched).symm

theorem patchWithdrawal_eq {id now : Nat} {patch : WithdrawalPatch} {withdrawals after : List Withdrawal}
    (patched : (patchWithdrawal id now patch withdrawals).toOption = some after) :
    after = withdrawals.map fun row => if row.id = id then patch.apply now row else row := by
  unfold patchWithdrawal at patched
  split at patched
  · cases patched
  · exact (Option.some.inj patched).symm

/-- An update by a unique key changes one row. -/
theorem mem_update {Row : Type} {key : Row → Nat} {rows : List Row} (distinct : (rows.map key).Nodup)
    {row : Row} (member : row ∈ rows) (edit : Row → Row) (later : Row) :
    later ∈ rows.map (fun other => if key other = key row then edit other else other) ↔
      later = edit row ∨ (later ∈ rows ∧ key later ≠ key row) := by
  rw [List.mem_map]
  constructor
  · rintro ⟨other, known, rfl⟩
    split
    · next same => exact .inl (by rw [List.inj_on_of_nodup_map distinct known member same])
    · next other => exact .inr ⟨known, other⟩
  · rintro (rfl | ⟨known, other⟩)
    · exact ⟨row, member, if_pos rfl⟩
    · exact ⟨later, known, if_neg other⟩

theorem map_key_update {Row : Type} (key : Row → Nat) (edit : Row → Row) (rows : List Row) (id : Nat)
    (kept : ∀ row, key (edit row) = key row) :
    (rows.map fun other => if key other = id then edit other else other).map key = rows.map key := by
  rw [List.map_map]
  refine List.map_congr_left fun row _ => ?_
  rw [Function.comp_apply]
  split
  · exact kept row
  · rfl

end Api

end Snowside
