import Snowside.Federation.Loop
import Snowside.Interaction.Once
import Snowside.Mainchain.Accounts

/-! What holds between the tables, the chains and the process: the stages of the
rows, the origin of every mint and payout, and how many of them a row has.

A run may be excused from parts of it, by deposit, withdrawal or index.
-/

set_option autoImplicit false

namespace Snowside

open Interaction

/-! ## Rows and their history -/

/-- What never changes in a deposit row, and what changes once. -/
structure Deposit.Becomes (before after : Deposit) : Prop where
  id : after.id = before.id
  network : after.network = before.network
  snowsideAddress : after.snowsideAddress = before.snowsideAddress
  ecashAddress : before.ecashAddress.isSome → after.ecashAddress = before.ecashAddress
  derivationIndex : before.derivationIndex.isSome → after.derivationIndex = before.derivationIndex
  amountSats : before.amountSats.isSome → after.amountSats.isSome
  confirmed : before.status ≠ .pending → after.status ≠ .pending
  minted : before.status = .minted → after.status = .minted

theorem Deposit.Becomes.refl (row : Deposit) : row.Becomes row :=
  ⟨rfl, rfl, rfl, fun _ => rfl, fun _ => rfl, fun held => held, fun held => held, fun held => held⟩

theorem Deposit.Becomes.trans {first second third : Deposit} (left : first.Becomes second)
    (right : second.Becomes third) : first.Becomes third where
  id := right.id.trans left.id
  network := right.network.trans left.network
  snowsideAddress := right.snowsideAddress.trans left.snowsideAddress
  ecashAddress held := (right.ecashAddress (by rwa [left.ecashAddress held])).trans (left.ecashAddress held)
  derivationIndex held :=
    (right.derivationIndex (by rwa [left.derivationIndex held])).trans (left.derivationIndex held)
  amountSats held := right.amountSats (left.amountSats held)
  confirmed settled := right.confirmed (left.confirmed settled)
  minted done := right.minted (left.minted done)

structure Withdrawal.Becomes (before after : Withdrawal) : Prop where
  id : after.id = before.id
  network : after.network = before.network
  ecashAddress : after.ecashAddress = before.ecashAddress
  amountEcx : after.amountEcx = before.amountEcx
  burnTxHash : after.burnTxHash = before.burnTxHash
  status : before.status ≠ .pending → after.status = before.status

theorem Withdrawal.Becomes.refl (row : Withdrawal) : row.Becomes row :=
  ⟨rfl, rfl, rfl, rfl, rfl, fun _ => rfl⟩

theorem Withdrawal.Becomes.trans {first second third : Withdrawal} (left : first.Becomes second)
    (right : second.Becomes third) : first.Becomes third where
  id := right.id.trans left.id
  network := right.network.trans left.network
  ecashAddress := right.ecashAddress.trans left.ecashAddress
  amountEcx := right.amountEcx.trans left.amountEcx
  burnTxHash := right.burnTxHash.trans left.burnTxHash
  status settled := (right.status (by rwa [left.status settled])).trans (left.status settled)

/-- The columns of a deposit row before and after its address is assigned. -/
inductive Deposit.Staged (config : Config) (row : Deposit) : Prop where
  | blank : row.status = .pending → row.ecashAddress = none → row.derivationIndex = none →
      row.amountSats = none → Staged config row
  | assigned (wallet : HDWallet) (index : Nat) : config.wallet = some wallet → index < indexLimit →
      row.ecashAddress = some (wallet.deriveDepositAddress row.network index) →
      row.derivationIndex = some index → (row.amountSats = none ↔ row.status = .pending) → Staged config row

/-! ## Mints and payouts -/

/-- The call data and the note of a mint are those of the row, counted from
confirmed outputs at its address. -/
structure Mint (config : Config) (network : Network) (ledger : Ledger) (data : Text) (note : MintNote)
    (row : Deposit) : Prop where
  id : row.id = note.deposit
  network : row.network = network
  data : data = encodeMintCall config.lowerCase row.snowsideAddress (note.sats * satsToEcx)
  sats : note.sats = total note.counted
  distinct : (note.counted.map Output.point).Nodup
  counted : ∀ output ∈ note.counted,
    output ∈ ledger.history ∧ output.height ≠ none ∧ row.ecashAddress = some output.address

theorem Mint.later {config : Config} {network : Network} {ledger after : Ledger} {data : Text}
    {note : MintNote} {row later : Deposit} (mint : Mint config network ledger data note row)
    (becomes : row.Becomes later)
    (kept : ∀ output ∈ ledger.history, output.height ≠ none → output ∈ after.history) :
    Mint config network after data note later where
  id := becomes.id.trans mint.id
  network := becomes.network.trans mint.network
  data := by rw [becomes.snowsideAddress]; exact mint.data
  sats := mint.sats
  distinct := mint.distinct
  counted output member := by
    obtain ⟨known, confirmed, address⟩ := mint.counted output member
    exact ⟨kept output known confirmed, confirmed,
      (becomes.ecashAddress (by rw [address]; rfl)).trans address⟩

/-- A withdrawal transaction takes its inputs from addresses of funded rows, and
its change goes to a derived address. -/
structure Drawn (config : Config) (deposits : List Deposit) (network : Network) (withdrawal : Withdrawal)
    (tx : PayoutTx) : Prop where
  home : withdrawal.network = network
  inputs : ∀ input ∈ tx.inputs, ∃ row ∈ deposits, row.network = network ∧
    row.ecashAddress = some input.address ∧ row.amountSats.isSome
  change : ∀ change, tx.change = some change → ∃ wallet index, config.wallet = some wallet ∧
    index < indexLimit ∧ change.1 = wallet.deriveDepositAddress network index

theorem Drawn.later {config : Config} {deposits after : List Deposit} {network : Network}
    {withdrawal : Withdrawal} {tx : PayoutTx} (drawn : Drawn config deposits network withdrawal tx)
    (rows : ∀ row ∈ deposits, ∃ later ∈ after, row.Becomes later) :
    Drawn config after network withdrawal tx where
  home := drawn.home
  inputs input member := by
    obtain ⟨row, known, network, address, funded⟩ := drawn.inputs input member
    obtain ⟨later, present, becomes⟩ := rows row known
    exact ⟨later, present, becomes.network.trans network,
      (becomes.ecashAddress (by rw [address]; rfl)).trans address, becomes.amountSats funded⟩
  change := drawn.change

namespace World

variable (world : World)

/-- A mint for the deposit that was not reverted, by its network and hash. -/
def MintMade (mint : Network × Nat) (deposit : Nat) : Prop :=
  ∃ tx ∈ (world.l2 mint.1).txs, tx.hash = mint.2 ∧ tx.status ≠ .reverted ∧ tx.MintFor deposit

def Unminted (deposit : Nat) : Prop := ∃ row ∈ world.deposits, row.id = deposit ∧ row.status ≠ .minted

/-- A payout for the withdrawal, by its network and hash. -/
def PayoutMade (payout : Network × Nat) (withdrawal : Nat) : Prop :=
  ∃ made ∈ (world.l1 payout.1).payouts, made.txid = payout.2 ∧ made.withdrawal.id = withdrawal

def Unpaid (withdrawal : Nat) : Prop :=
  ∃ row ∈ world.withdrawals, row.id = withdrawal ∧ row.status ≠ .completed

end World

/-! ## The invariant -/

/-- What a run is excused from keeping. -/
structure Excuse where
  mint : Nat → Prop
  payout : Nat → Prop
  /-- A deposit may take the index of another. -/
  index : Network → Nat → Prop
  /-- A deposit and a change address may have the same index. -/
  change : Network → Nat → Prop
  late : Nat → Prop

/-- What the process is at: between a transfer and its mark in the table, or not. -/
inductive Phase where
  | idle
  | minting (deposit : Nat)
  | paying (withdrawal : Nat)
  deriving DecidableEq

namespace Phase

def deposit : Phase → Option Nat
  | .minting deposit => some deposit
  | _ => none

def withdrawal : Phase → Option Nat
  | .paying withdrawal => some withdrawal
  | _ => none

end Phase

/-- Rows of a network hold different indices, none of which a change address has. -/
structure Apart (excuse : Excuse) (deposits : List Deposit) (changes : List (Network × Nat)) : Prop where
  rows : ∀ first ∈ deposits, ∀ second ∈ deposits, first.network = second.network → ∀ index,
    first.derivationIndex = some index → second.derivationIndex = some index →
    first = second ∨ excuse.index first.network index
  changes : ∀ row ∈ deposits, ∀ index, row.derivationIndex = some index →
    (row.network, index) ∈ changes → excuse.change row.network index

structure Books (config : Config) (excuse : Excuse) (phase : Phase) (world : World) : Prop where
  depositIds : (world.deposits.map Deposit.id).Nodup
  staged : ∀ row ∈ world.deposits, row.Staged config
  apart : Apart excuse world.deposits world.changes
  drawn : ∀ change ∈ world.changes, change.2 < indexLimit
  mints : ∀ network, ∀ tx ∈ (world.l2 network).txs, ∀ note, tx.mint = some note →
    ∃ row ∈ world.deposits, row.status ≠ .pending ∧
      Mint config network (world.l1 network) tx.input note row
  minted : ∀ row ∈ world.deposits, row.status = .minted →
    ∃ tx ∈ (world.l2 row.network).txs, tx.status = .success ∧ tx.MintFor row.id
  mintOnce : Once excuse.mint world.MintMade world.Unminted phase.deposit
  withdrawalIds : (world.withdrawals.map Withdrawal.id).Nodup
  unpriced : ∀ row ∈ world.withdrawals, row.status = .pending → row.amountSats = none
  payouts : ∀ network, ∀ payout ∈ (world.l1 network).payouts,
    Drawn config world.deposits network payout.withdrawal payout.tx ∧
      ∃ row ∈ world.withdrawals, payout.withdrawal.Becomes row
  payOnce : Once excuse.payout world.PayoutMade world.Unpaid phase.withdrawal
  ledgers : ∀ network, (world.l1 network).WellFormed
  chains : ∀ network, (world.l2 network).Numbered

namespace Books

variable {config : Config} {excuse : Excuse} {phase : Phase} {world : World}

theorem initial (clock : Nat) (tips : Network → Nat) :
    Books config excuse .idle (World.initial clock tips) where
  depositIds := List.nodup_nil
  staged _ member := absurd member List.not_mem_nil
  apart := ⟨fun _ member => absurd member List.not_mem_nil, fun _ member => absurd member List.not_mem_nil⟩
  drawn _ member := absurd member List.not_mem_nil
  mints _ _ member := absurd member List.not_mem_nil
  minted _ member := absurd member List.not_mem_nil
  mintOnce := .empty fun _ _ ⟨_, member, _⟩ => absurd member List.not_mem_nil
  withdrawalIds := List.nodup_nil
  unpriced _ member := absurd member List.not_mem_nil
  payouts _ _ member := absurd member List.not_mem_nil
  payOnce := .empty fun _ _ ⟨_, member, _⟩ => absurd member List.not_mem_nil
  ledgers network := Ledger.initial_wellFormed (tips network)
  chains _ := rfl

/-- Only one row has a given id. -/
theorem deposit_eq (books : Books config excuse phase world) {first second : Deposit}
    (left : first ∈ world.deposits) (right : second ∈ world.deposits) (same : first.id = second.id) :
    first = second :=
  List.inj_on_of_nodup_map books.depositIds left right same

theorem withdrawal_eq (books : Books config excuse phase world) {first second : Withdrawal}
    (left : first ∈ world.withdrawals) (right : second ∈ world.withdrawals) (same : first.id = second.id) :
    first = second :=
  List.inj_on_of_nodup_map books.withdrawalIds left right same

/-! ## One component at a time -/

theorem withDeposits (books : Books config excuse phase world) {deposits : List Deposit} {next : Phase}
    (ids : (deposits.map Deposit.id).Nodup) (staged : ∀ row ∈ deposits, row.Staged config)
    (apart : Apart excuse deposits world.changes)
    (rows : ∀ row ∈ world.deposits, ∃ later ∈ deposits, row.Becomes later)
    (minted : ∀ row ∈ deposits, row.status = .minted →
      ∃ tx ∈ (world.l2 row.network).txs, tx.status = .success ∧ tx.MintFor row.id)
    (mintOnce : Once excuse.mint world.MintMade
      (fun deposit => ∃ row ∈ deposits, row.id = deposit ∧ row.status ≠ .minted) next.deposit)
    (paying : next.withdrawal = phase.withdrawal) :
    Books config excuse next { world with deposits } where
  depositIds := ids
  staged := staged
  apart := apart
  drawn := books.drawn
  mints network tx member note noted := by
    obtain ⟨row, known, confirmed, mint⟩ := books.mints network tx member note noted
    obtain ⟨later, present, becomes⟩ := rows row known
    exact ⟨later, present, becomes.confirmed confirmed, mint.later becomes fun _ member _ => member⟩
  minted := minted
  mintOnce := mintOnce
  withdrawalIds := books.withdrawalIds
  unpriced := books.unpriced
  payouts network payout member :=
    ⟨(books.payouts network payout member).1.later rows, (books.payouts network payout member).2⟩
  payOnce := by rw [paying]; exact books.payOnce
  ledgers := books.ledgers
  chains := books.chains

theorem withWithdrawals (books : Books config excuse phase world) {withdrawals : List Withdrawal}
    {next : Phase} (ids : (withdrawals.map Withdrawal.id).Nodup)
    (unpriced : ∀ row ∈ withdrawals, row.status = .pending → row.amountSats = none)
    (rows : ∀ row ∈ world.withdrawals, ∃ later ∈ withdrawals, row.Becomes later)
    (payOnce : Once excuse.payout world.PayoutMade
      (fun withdrawal => ∃ row ∈ withdrawals, row.id = withdrawal ∧ row.status ≠ .completed) next.withdrawal)
    (minting : next.deposit = phase.deposit) :
    Books config excuse next { world with withdrawals } where
  depositIds := books.depositIds
  staged := books.staged
  apart := books.apart
  drawn := books.drawn
  mints := books.mints
  minted := books.minted
  mintOnce := by rw [minting]; exact books.mintOnce
  withdrawalIds := ids
  unpriced := unpriced
  payouts network payout member := by
    obtain ⟨drawn, row, known, becomes⟩ := books.payouts network payout member
    obtain ⟨later, present, moved⟩ := rows row known
    exact ⟨drawn, later, present, becomes.trans moved⟩
  payOnce := payOnce
  ledgers := books.ledgers
  chains := books.chains

theorem withL1 (books : Books config excuse phase world) {network : Network} {ledger : Ledger} {next : Phase}
    (formed : ledger.WellFormed)
    (kept : ∀ output ∈ (world.l1 network).history, output.height ≠ none → output ∈ ledger.history)
    (payouts : ∀ payout ∈ ledger.payouts, Drawn config world.deposits network payout.withdrawal payout.tx ∧
      ∃ row ∈ world.withdrawals, payout.withdrawal.Becomes row)
    (payOnce : Once excuse.payout (world.setL1 network ledger).PayoutMade world.Unpaid next.withdrawal)
    (minting : next.deposit = phase.deposit) :
    Books config excuse next (world.setL1 network ledger) where
  depositIds := books.depositIds
  staged := books.staged
  apart := books.apart
  drawn := books.drawn
  mints := by
    have kept := (Function.forall_update_iff world.l1 fun other ledger =>
      ∀ output ∈ (world.l1 other).history, output.height ≠ none → output ∈ ledger.history).mpr
        ⟨kept, fun _ _ _ member _ => member⟩
    intro other tx member note noted
    obtain ⟨row, known, confirmed, mint⟩ := books.mints other tx member note noted
    exact ⟨row, known, confirmed, mint.later (.refl row) (kept other)⟩
  minted := books.minted
  mintOnce := by rw [minting]; exact books.mintOnce
  withdrawalIds := books.withdrawalIds
  unpriced := books.unpriced
  payouts := (Function.forall_update_iff world.l1 fun other ledger => ∀ payout ∈ ledger.payouts,
    Drawn config world.deposits other payout.withdrawal payout.tx ∧
      ∃ row ∈ world.withdrawals, payout.withdrawal.Becomes row).mpr ⟨payouts, fun other _ => books.payouts other⟩
  payOnce := payOnce
  ledgers := (Function.forall_update_iff world.l1 fun _ ledger => ledger.WellFormed).mpr
    ⟨formed, fun other _ => books.ledgers other⟩
  chains := books.chains

theorem withL2 (books : Books config excuse phase world) {network : Network} {chain : Chain} {next : Phase}
    (numbered : chain.Numbered) (grows : (world.l2 network).Grows chain)
    (mints : ∀ tx ∈ chain.txs, ∀ note, tx.mint = some note → ∃ row ∈ world.deposits, row.status ≠ .pending ∧
      Mint config network (world.l1 network) tx.input note row)
    (mintOnce : Once excuse.mint (world.setL2 network chain).MintMade world.Unminted next.deposit)
    (paying : next.withdrawal = phase.withdrawal) :
    Books config excuse next (world.setL2 network chain) where
  depositIds := books.depositIds
  staged := books.staged
  apart := books.apart
  drawn := books.drawn
  mints := (Function.forall_update_iff world.l2 fun other chain => ∀ tx ∈ chain.txs, ∀ note,
    tx.mint = some note → ∃ row ∈ world.deposits, row.status ≠ .pending ∧
      Mint config other (world.l1 other) tx.input note row).mpr ⟨mints, fun other _ => books.mints other⟩
  minted := by
    have grows := (Function.forall_update_iff world.l2 fun other chain => (world.l2 other).Grows chain).mpr
      ⟨grows, fun _ _ => .refl _⟩
    intro row member minted
    obtain ⟨tx, known, success, mintFor⟩ := books.minted row member minted
    obtain ⟨later, present, becomes⟩ := grows row.network tx known
    refine ⟨later, present, ?_, becomes.mintFor.mpr mintFor⟩
    rw [becomes.status (by rw [success]; decide), success]
  mintOnce := mintOnce
  withdrawalIds := books.withdrawalIds
  unpriced := books.unpriced
  payouts := books.payouts
  payOnce := by rw [paying]; exact books.payOnce
  ledgers := books.ledgers
  chains := (Function.forall_update_iff world.l2 fun _ chain => chain.Numbered).mpr
    ⟨numbered, fun other _ => books.chains other⟩

theorem withClock (books : Books config excuse phase world) (clock : Nat) (lastCheckin : Option Nat) :
    Books config excuse phase { world with clock, lastCheckin } :=
  { books with }

theorem withChange (books : Books config excuse phase world) {network : Network} {index : Nat}
    (small : index < indexLimit) (free : ∀ row ∈ world.deposits, row.network = network → row.derivationIndex = some index →
      excuse.change network index) :
    Books config excuse phase { world with changes := world.changes ++ [(network, index)] } :=
  { books with
    apart := {
      rows := books.apart.rows
      changes := fun row member held holds drawn => by
        obtain drawn | drawn := List.mem_append.mp drawn
        · exact books.apart.changes row member held holds drawn
        · simp only [List.mem_singleton, Prod.mk.injEq] at drawn
          obtain ⟨same, rfl⟩ := drawn
          rw [same]
          exact free row member same holds }
    drawn := fun change drawn => by
      obtain drawn | drawn := List.mem_append.mp drawn
      · exact books.drawn change drawn
      · rw [List.mem_singleton.mp drawn]
        exact small }

end Books

end Snowside
