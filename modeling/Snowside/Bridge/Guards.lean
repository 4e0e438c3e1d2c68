import Snowside.Bridge.Books

/-! What the process knows at each call it waits on, and the steps that keep the
books: the invariant of the runs that an excuse permits. -/

set_option autoImplicit false

namespace Snowside

open Interaction

namespace World

/-- A row of the network holds the index. -/
def Held (world : World) (network : Network) (index : Nat) : Prop :=
  ∃ row ∈ world.deposits, row.network = network ∧ row.derivationIndex = some index

instance (world : World) (network : Network) (index : Nat) : Decidable (world.Held network index) :=
  inferInstanceAs (Decidable (∃ row ∈ world.deposits, _ ∧ _))

end World

/-- A deposit may take the index, unless that is excused. -/
structure FreeIndex (excuse : Excuse) (world : World) (network : Network) (index : Nat) : Prop where
  rows : world.Held network index → excuse.index network index
  changes : (network, index) ∈ world.changes → excuse.change network index

/-- `verifyBurnTx` returns true and the amount is not dust. -/
structure Redeemable (config : Config) (world : World) (row : Withdrawal) : Prop where
  rpcUrl : config.rpcUrl row.network = true
  burned : ∃ hash, row.burnTxHash = some hash ∧ ((world.l2 row.network).getTransaction hash).isSome
  amount : ∃ target, targetSats config row = some target ∧ (dustLimit : Int) ≤ target

instance (config : Config) (world : World) (row : Withdrawal) : Decidable (Redeemable config world row) :=
  decidable_of_iff (config.rpcUrl row.network = true ∧
      (row.burnTxHash.any fun hash => ((world.l2 row.network).getTransaction hash).isSome) = true ∧
      ((targetSats config row).any fun target => decide ((dustLimit : Int) ≤ target)) = true)
    ⟨fun ⟨rpcUrl, burned, amount⟩ => ⟨rpcUrl, (Option.any_eq_true _ _).mp burned, by
        obtain ⟨target, priced, large⟩ := (Option.any_eq_true _ _).mp amount
        exact ⟨target, priced, of_decide_eq_true large⟩⟩,
      fun ⟨rpcUrl, burned, target, priced, large⟩ => ⟨rpcUrl, (Option.any_eq_true _ _).mpr burned,
        (Option.any_eq_true _ _).mpr ⟨target, priced, decide_eq_true large⟩⟩⟩

/-- No payout was ever broadcast for the withdrawal. -/
def World.NeverPaid (world : World) (withdrawal : Nat) : Prop :=
  ∀ payout, ¬ world.PayoutMade payout withdrawal

/-- The row that is about to be written off should be paid. -/
def WrittenOff (config : Config) (world : World) (row : Withdrawal) : Prop :=
  Redeemable config world row ∧ world.NeverPaid row.id

/-! ## Steps that keep the books -/

def phaseOf : Option Call → Phase
  | some (.waitForTransactionReceipt _ _ deposit) => .minting deposit
  | some (.patchDeposit id patch) => if patch.status = some .minted then .minting id else .idle
  | some (.patchWithdrawal id patch) => if patch.status = some .completed then .paying id else .idle
  | _ => .idle

/-- The answers, events and restarts that lose nothing, and what is excused. -/
def Excuse.permits (config : Config) (excuse : Excuse) : Condition Call World Fate Event where
  answer world
    | .sendTransaction _ _ note, fate => fate = .lost → excuse.mint note.deposit
    | .waitForTransactionReceipt _ _ deposit, fate => fate ≠ .ok → excuse.mint deposit
    | .patchDeposit id patch, fate => fate = .refused → patch.status = some .minted → excuse.mint id
    | .broadcast _ _ withdrawal, fate => fate = .lost → excuse.payout withdrawal.id
    | .patchWithdrawal id patch, fate => fate = .refused → patch.status = some .completed → excuse.payout id
    | .now (.deposit network), _ => FreeIndex excuse world network (clockIndex world.clock)
    | .now (.change network), _ =>
        world.Held network (clockIndex world.clock) → excuse.change network (clockIndex world.clock)
    | .now .age, _ => ∀ row ∈ world.withdrawals, row.status = .pending → TimedOut world.clock row →
        WrittenOff config world row → excuse.late row.id
    | _, _ => True
  event world
    | .transact network _ _ _ _ => ∀ row ∈ world.withdrawals, row.status = .pending →
        row.network = network → TimedOut world.clock row →
        row.burnTxHash.bind txHash = some (world.l2 network).txs.length → excuse.late row.id
    | _ => True
  restart _ waiting :=
    (∀ deposit, phaseOf waiting = .minting deposit → excuse.mint deposit) ∧
      ∀ withdrawal, phaseOf waiting = .paying withdrawal → excuse.payout withdrawal

/-! ## Conditions that permit -/

/-- The steps that leave no mint of the deposit unmarked: its transaction is
answered, its receipt comes, its mark is written, and no restart comes between. -/
def mintSettles (deposit : Nat) : Condition Call World Fate Event where
  answer _
    | .sendTransaction _ _ note, fate => note.deposit = deposit → fate ≠ .lost
    | .waitForTransactionReceipt _ _ minted, fate => minted = deposit → fate = .ok
    | .patchDeposit id patch, fate => id = deposit → patch.status = some .minted → fate ≠ .refused
    | _, _ => True
  event _ _ := True
  restart _ waiting := phaseOf waiting ≠ .minting deposit

theorem mintSettles_ok (deposit : Nat) (world : World) (call : Call) :
    (mintSettles deposit).answer world call .ok := by
  cases call <;> simp [mintSettles]

/-- The steps that leave no payout of the withdrawal unmarked: its broadcast is
answered, its mark is written, and no restart comes between. -/
def payoutSettles (withdrawal : Nat) : Condition Call World Fate Event where
  answer _
    | .broadcast _ _ paid, fate => paid.id = withdrawal → fate ≠ .lost
    | .patchWithdrawal id patch, fate => id = withdrawal → patch.status = some .completed → fate ≠ .refused
    | _, _ => True
  event _ _ := True
  restart _ waiting := phaseOf waiting ≠ .paying withdrawal

theorem payoutSettles_ok (withdrawal : Nat) (world : World) (call : Call) :
    (payoutSettles withdrawal).answer world call .ok := by
  cases call <;> simp [payoutSettles]

/-- Every index drawn for a deposit is not held by a row. -/
def rowsFresh : Condition Call World Fate Event where
  answer world
    | .now (.deposit network), _ => ¬ world.Held network (clockIndex world.clock)
    | _, _ => True
  event _ _ := True
  restart _ _ := True

/-- Every index drawn for a deposit is neither held by a row nor drawn for change,
and every index drawn for change is not held by a row. -/
def indicesFresh : Condition Call World Fate Event where
  answer world
    | .now (.deposit network), _ =>
        ¬ world.Held network (clockIndex world.clock) ∧ (network, clockIndex world.clock) ∉ world.changes
    | .now (.change network), _ => ¬ world.Held network (clockIndex world.clock)
    | _, _ => True
  event _ _ := True
  restart _ _ := True

/-- The burn transaction of a row. -/
def burnOf (row : Withdrawal) : Option Nat := row.burnTxHash.bind txHash

/-- No pending row that should be paid is past the time limit when ages are read,
and no burn arrives when the pending row that names it is. -/
def expiresInTime (config : Config) : Condition Call World Fate Event where
  answer world
    | .now .age, _ => ∀ row ∈ world.withdrawals, row.status = .pending → TimedOut world.clock row →
        ¬ WrittenOff config world row
    | _, _ => True
  event world
    | .transact network _ _ _ _ => ∀ row ∈ world.withdrawals, row.status = .pending → row.network = network →
        TimedOut world.clock row → burnOf row ≠ some (world.l2 network).txs.length
    | _ => True
  restart _ _ := True

namespace Excuse

/-- Nothing is kept account of. -/
def all : Excuse := ⟨fun _ => True, fun _ => True, fun _ _ => True, fun _ _ => True, fun _ => True⟩

/-- A condition is permitted if it loses nothing that is not excused. -/
theorem permits_of {config : Config} {excuse : Excuse} {condition : Condition Call World Fate Event}
    (mints : ∀ deposit, ¬ excuse.mint deposit → condition.Implies (mintSettles deposit))
    (payouts : ∀ withdrawal, ¬ excuse.payout withdrawal → condition.Implies (payoutSettles withdrawal))
    (rows : (∀ network index, excuse.index network index) ∨ condition.Implies rowsFresh)
    (changes : (∀ network index, excuse.change network index) ∨ condition.Implies indicesFresh)
    (expiry : (∀ withdrawal, excuse.late withdrawal) ∨ condition.Implies (expiresInTime config)) :
    condition.Implies (excuse.permits config) where
  answer world call fate met := by
    cases call with
    | sendTransaction network data note =>
      intro lost
      by_contra kept
      exact (mints note.deposit kept).answer _ _ _ met rfl lost
    | waitForTransactionReceipt network hash deposit =>
      intro failed
      by_contra kept
      exact failed ((mints deposit kept).answer _ _ _ met rfl)
    | patchDeposit id patch =>
      intro refused marks
      by_contra kept
      exact (mints id kept).answer _ _ _ met rfl marks refused
    | broadcast network tx withdrawal =>
      intro lost
      by_contra kept
      exact (payouts withdrawal.id kept).answer _ _ _ met rfl lost
    | patchWithdrawal id patch =>
      intro refused marks
      by_contra kept
      exact (payouts id kept).answer _ _ _ met rfl marks refused
    | now reading =>
      cases reading with
      | deposit network =>
        -- The index may be one of another deposit, or one of a change address.
        refine ⟨fun taken => ?_, fun taken => ?_⟩
        · obtain excused | fresh := rows
          · exact excused _ _
          · exact (fresh.answer _ _ _ met taken).elim
        · obtain excused | fresh := changes
          · exact excused _ _
          · exact ((fresh.answer _ _ _ met).2 taken).elim
      | change network =>
        intro taken
        obtain excused | fresh := changes
        · exact excused _ _
        · exact (fresh.answer _ _ _ met taken).elim
      | age =>
        intro row member pending timedOut unpaid
        obtain excused | expires := expiry
        · exact excused _
        · exact (expires.answer _ _ _ met row member pending timedOut unpaid).elim
    | _ => trivial
  event world event met := by
    cases event with
    | transact network sender recipient value input =>
      intro row member pending same timedOut burn
      obtain excused | expires := expiry
      · exact excused _
      · exact (expires.event _ _ met row member pending same timedOut burn).elim
    | _ => trivial
  restart world waiting met := by
    -- A restart loses the settlement it interrupts.
    refine ⟨fun deposit minting => ?_, fun withdrawal paying => ?_⟩
    · by_contra kept
      exact (mints deposit kept).restart _ _ met minting
    · by_contra kept
      exact (payouts withdrawal kept).restart _ _ met paying

/-- With nothing to account for, every condition is permitted. -/
theorem all_permits (config : Config) (condition : Condition Call World Fate Event) :
    condition.Implies (all.permits config) :=
  permits_of (fun _ kept => absurd trivial kept) (fun _ kept => absurd trivial kept)
    (.inl fun _ _ => trivial) (.inl fun _ _ => trivial) (.inl fun _ => trivial)

end Excuse

/-! ## What is known at a call -/

/-- What the process writes to a deposit row. -/
inductive DepositStep (config : Config) (excuse : Excuse) (world : World) (row : Deposit) :
    Api.DepositPatch → Prop where
  | assign (wallet : HDWallet) (index : Nat) : row.status = .pending → row.ecashAddress = none →
      row.derivationIndex = none → row.amountSats = none → config.wallet = some wallet → index < indexLimit →
      FreeIndex excuse world row.network index →
      DepositStep config excuse world row
        { ecashAddress := some (wallet.deriveDepositAddress row.network index), derivationIndex := some index }
  | confirm (result : Received) : row.status = .pending → row.ecashAddress.isSome →
      DepositStep config excuse world row (confirmedPatch result)
  | mint (amount : Nat) (tx : Tx) : row.status = .confirmed → tx ∈ (world.l2 row.network).txs →
      tx.status = .success → tx.MintFor row.id →
      DepositStep config excuse world row (mintedPatch amount tx.hash)

inductive WithdrawalStep (config : Config) (excuse : Excuse) (world : World) (row : Withdrawal) :
    Api.WithdrawalPatch → Prop where
  | fail (now : Nat) : now ≤ world.clock → TimedOut now row →
      (WrittenOff config world row → excuse.late row.id) →
      WithdrawalStep config excuse world row (failedPatch now)
  | complete (txid : Nat) : world.PayoutMade (row.network, txid) row.id →
      WithdrawalStep config excuse world row (completedPatch config row txid)

def Guard (config : Config) (excuse : Excuse) (world : World) : Call → Prop
  | .patchDeposit id patch => ∃ row ∈ world.deposits, row.id = id ∧ DepositStep config excuse world row patch
  | .patchWithdrawal id patch => ∃ row ∈ world.withdrawals, row.id = id ∧ row.status = .pending ∧
      WithdrawalStep config excuse world row patch
  | .sendTransaction network data note => ∃ row ∈ world.deposits, row.status = .confirmed ∧
      Mint config network (world.l1 network) data note row ∧
      ∀ output ∈ note.counted, output ∈ (world.l1 network).unspent
  | .waitForTransactionReceipt network hash deposit => ∀ mint, ¬ excuse.mint deposit →
      world.MintMade mint deposit → mint = (network, hash)
  | .broadcast network tx withdrawal => withdrawal ∈ world.withdrawals ∧ withdrawal.status = .pending ∧
      Drawn config world.deposits network withdrawal tx
  | _ => True

/-- The invariant at a call, or between two turns. -/
def Invariant (config : Config) (excuse : Excuse) (world : World) (waiting : Option Call) : Prop :=
  Books config excuse (phaseOf waiting) world ∧ ∀ call, waiting = some call → Guard config excuse world call

/-! ## Events -/

/-- What events leave alone, and how they add to the rest. -/
structure World.Grows (before after : World) : Prop where
  clock : before.clock ≤ after.clock
  deposits : before.deposits ⊆ after.deposits
  blank : ∀ row ∈ after.deposits, row ∈ before.deposits ∨ row.derivationIndex = none
  withdrawals : before.withdrawals ⊆ after.withdrawals
  changes : after.changes = before.changes
  ledgers : ∀ network, (before.l1 network).Grows (after.l1 network)
  txs : ∀ network, (before.l2 network).Grows (after.l2 network)
  mints : ∀ network, ∀ tx ∈ (after.l2 network).txs,
    (∃ old ∈ (before.l2 network).txs, old.Becomes tx) ∨ tx.mint = none

namespace World.Grows

variable {before after : World}

theorem refl (world : World) : world.Grows world where
  clock := le_rfl
  deposits _ member := member
  blank _ member := .inl member
  withdrawals _ member := member
  changes := rfl
  ledgers _ := .refl _
  txs _ := .refl _
  mints _ tx member := .inl ⟨tx, member, .refl tx⟩

theorem setL1 (world : World) {network : Network} {ledger : Ledger}
    (grows : (world.l1 network).Grows ledger) : world.Grows (world.setL1 network ledger) := by
  refine { refl world with ledgers := ?_ }
  exact (Function.forall_update_iff world.l1 fun other ledger => (world.l1 other).Grows ledger).mpr
    ⟨grows, fun _ _ => .refl _⟩

theorem setL2 (world : World) {network : Network} {chain : Chain} (grows : (world.l2 network).Grows chain)
    (mints : ∀ tx ∈ chain.txs, (∃ old ∈ (world.l2 network).txs, old.Becomes tx) ∨ tx.mint = none) :
    world.Grows (world.setL2 network chain) := by
  refine { refl world with txs := ?_, mints := ?_ }
  · exact (Function.forall_update_iff world.l2 fun other chain => (world.l2 other).Grows chain).mpr
      ⟨grows, fun _ _ => .refl _⟩
  · exact (Function.forall_update_iff world.l2 fun other chain => ∀ tx ∈ chain.txs,
      (∃ old ∈ (world.l2 other).txs, old.Becomes tx) ∨ tx.mint = none).mpr
        ⟨mints, fun _ _ tx member => .inl ⟨tx, member, .refl tx⟩⟩

theorem unspent (grows : before.Grows after) (network : Network) {output : Output}
    (member : output ∈ (before.l1 network).unspent) (confirmed : output.height ≠ none) :
    output ∈ (after.l1 network).unspent := by
  obtain ⟨later, present, becomes⟩ := (grows.ledgers network).unspent output member
  exact becomes.confirmed confirmed ▸ present

theorem history (grows : before.Grows after) (network : Network) {output : Output}
    (member : output ∈ (before.l1 network).history) (confirmed : output.height ≠ none) :
    output ∈ (after.l1 network).history := by
  obtain ⟨later, present, becomes⟩ := (grows.ledgers network).history output member
  exact becomes.confirmed confirmed ▸ present

theorem mintMade (grows : before.Grows after) {mint : Network × Nat} {deposit : Nat}
    (made : after.MintMade mint deposit) : before.MintMade mint deposit := by
  obtain ⟨tx, member, hash, live, mintFor⟩ := made
  obtain ⟨old, known, becomes⟩ | nothing := grows.mints mint.1 tx member
  · refine ⟨old, known, becomes.hash.symm.trans hash, fun reverted => live ?_, becomes.mintFor.mp mintFor⟩
    -- What has settled keeps its result.
    rw [becomes.status (by rw [reverted]; decide), reverted]
  · obtain ⟨note, noted, -⟩ := mintFor
    rw [nothing] at noted
    cases noted

theorem payoutMade (grows : before.Grows after) {payout : Network × Nat} {withdrawal : Nat} :
    after.PayoutMade payout withdrawal ↔ before.PayoutMade payout withdrawal := by
  rw [World.PayoutMade, World.PayoutMade, (grows.ledgers payout.1).payouts]

theorem held (grows : before.Grows after) {network : Network} {index : Nat}
    (holds : after.Held network index) : before.Held network index := by
  obtain ⟨row, member, same, holds⟩ := holds
  obtain member | blank := grows.blank row member
  · exact ⟨row, member, same, holds⟩
  · rw [blank] at holds
    cases holds

end World.Grows

end Snowside
