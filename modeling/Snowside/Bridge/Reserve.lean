import Snowside.Bridge.Addresses
import Snowside.Bridge.Payouts

/-! What the withdrawals take from the reserve: how far the spendable coins fall,
and whose coins they are. -/

set_option autoImplicit false

namespace Snowside

open Interaction

/-! ## Spendable coins -/

namespace World

variable (world : World) (network : Network)

/-- The address of a row of `GET /v1/fed/deposits/funded` for the network. -/
def Funded (address : Text) : Prop :=
  ∃ deposit ∈ Api.fundedDeposits world.deposits, deposit.network = network ∧ deposit.ecashAddress = address

instance : DecidablePred (world.Funded network) := fun _ => inferInstanceAs (Decidable (∃ _ ∈ _, _ ∧ _))

def spendable : Nat := (world.l1 network).held (world.Funded network)

/-- What funded addresses were paid, the federation's own change aside. -/
def receivedAtFunded : Nat := (world.l1 network).received (world.Funded network)

end World

/-- Change of a withdrawal that no funded address gets. -/
def PayoutTx.strayChange (tx : PayoutTx) (own : Text → Prop) [DecidablePred own] : Nat :=
  match tx.change with
  | some (address, value) => if own address then 0 else value
  | none => 0

/-- The payment of a withdrawal, where it comes back to a funded address. -/
def PayoutTx.returned (tx : PayoutTx) (own : Text → Prop) [DecidablePred own] : Nat :=
  if own tx.address then tx.target else 0

theorem PayoutTx.total_own (tx : PayoutTx) (txid : Nat) (own : Text → Prop) [DecidablePred own] :
    total ((tx.outputs txid).filter fun output => own output.address) + tx.strayChange own =
      tx.returned own + tx.changeValue := by
  cases shape : tx.change with
  | none =>
    by_cases payment : own tx.address <;>
      simp [outputs, strayChange, returned, changeValue, shape, payment]
  | some change =>
    by_cases payment : own tx.address <;> by_cases back : own change.1 <;>
      simp [outputs, strayChange, returned, changeValue, shape, payment, back]

section
variable {config : Config} {excuse : Excuse} {phase : Phase} {world : World} {network : Network}

theorem Books.funded_of_row (books : Books config excuse phase world) {row : Deposit}
    (member : row ∈ world.deposits) (home : row.network = network) {address : Text}
    (assigned : row.ecashAddress = some address) (funded : row.amountSats.isSome) :
    world.Funded network address := by
  obtain ⟨wallet, index, -, -, held, -⟩ := books.index_of_address member assigned
  obtain ⟨sats, amount⟩ := Option.isSome_iff_exists.mp funded
  refine ⟨⟨row.id, row.network, address, index, sats⟩, List.mem_filterMap.mpr ⟨row, ?_, ?_⟩, home, rfl⟩
  · exact (List.perm_insertionSort _ world.deposits).mem_iff.mpr member
  · rw [Api.fundedRow, assigned, held, amount]

/-- Withdrawals draw on funded addresses alone. -/
theorem Drawn.funded (books : Books config excuse phase world) {withdrawal : Withdrawal} {tx : PayoutTx}
    (drawn : Drawn config world.deposits network withdrawal tx) :
    ∀ input ∈ tx.inputs, world.Funded network input.address := by
  intro input taken
  obtain ⟨row, member, home, assigned, funded⟩ := drawn.inputs input taken
  exact books.funded_of_row member home assigned funded

/-- A broadcast lowers the spendable coins by payment and fee, and by the change
that strays, less a payment that comes back. -/
theorem Books.broadcast_spendable (books : Books config excuse phase world) {withdrawal : Withdrawal}
    {tx : PayoutTx} {ledger : Ledger} (drawn : Drawn config world.deposits network withdrawal tx)
    (accepted : (world.l1 network).broadcast withdrawal tx = some ledger) :
    (world.setL1 network ledger).spendable network + (tx.target + tx.fee) + tx.strayChange (world.Funded network) =
      world.spendable network + tx.returned (world.Funded network) := by
  have moved := (books.ledgers network).broadcast_held (drawn.funded books) accepted
  have outputs := tx.total_own (world.l1 network).nextTxid (world.Funded network)
  have covered := (Ledger.broadcast_eq accepted).1.2.2
  have after : (world.setL1 network ledger).spendable network = ledger.held (world.Funded network) := by
    rw [World.spendable, World.setL1_l1, Function.update_self]
    rfl
  rw [after, World.spendable, PayoutTx.fee]
  omega

theorem Books.spendable_accounts (books : Books config excuse phase world) (network : Network) :
    world.spendable network + (world.l1 network).paidOut + (world.l1 network).strayChange (world.Funded network) =
      world.receivedAtFunded network :=
  (books.ledgers network).accounts _ fun payout paid => (books.payouts network payout paid).1.funded books

end

/-- In every reachable state, the spendable coins of a network are what its funded
addresses received, less payments and fees, exactly when no change is elsewhere;
and a payout lowers them by its payment and fee exactly when the change that
strays is as much as the payment that comes back. -/
theorem spendable_falls_by_payment_and_fee {config : Config} {clock : Nat} {tips : Network → Nat}
    {state : State World Reply} (reach : Reach (federation config) .free
      ((federation config).start (World.initial clock tips)) state) (network : Network) :
    (state.world.spendable network + (state.world.l1 network).paidOut = state.world.receivedAtFunded network ↔
      ∀ output ∈ (state.world.l1 network).history, output.origin = .change → 0 < output.value →
        state.world.Funded network output.address) ∧
    ∀ action next payout, (federation config).step state action = some next →
      (next.world.l1 network).payouts = (state.world.l1 network).payouts ++ [payout] →
      (next.world.spendable network + (payout.tx.target + payout.tx.fee) = state.world.spendable network ↔
        payout.tx.strayChange (state.world.Funded network) = payout.tx.returned (state.world.Funded network)) := by
  obtain ⟨books, guards⟩ := reach_invariant (reach.mono (Excuse.all_permits config _))
  constructor
  · have accounts := books.spendable_accounts network
    -- The difference in the accounts is the change at other addresses.
    have none : (state.world.l1 network).strayChange (state.world.Funded network) = 0 ↔
        ∀ output ∈ (state.world.l1 network).history, output.origin = .change → 0 < output.value →
          state.world.Funded network output.address := by
      simp only [Ledger.strayChange, total, List.sum_eq_zero_iff, List.mem_map, List.mem_filter,
        decide_eq_true_eq, forall_exists_index, and_imp]
      constructor
      · intro zero output member change positive
        by_contra stray
        exact positive.ne' (zero _ output member change stray rfl)
      · rintro funded _ output member change stray rfl
        by_contra positive
        exact stray (funded output member change (Nat.pos_of_ne_zero positive))
    rw [← none]
    omega
  · intro action next payout stepped added
    have grew : (next.world.l1 network).payouts ≠ (state.world.l1 network).payouts := by
      rw [added]
      exact fun same => List.cons_ne_nil payout [] (List.append_right_eq_self.mp same)
    obtain same | ⟨fate, other, tx, withdrawal, ledger, -, -, waits, accepted, same⟩ := step_payouts books stepped
    · exact absurd (same network).payouts grew
    -- The payout was broadcast on this network.
    obtain rfl : network = other := by
      by_contra different
      rw [same, World.setL1_l1, Function.update_of_ne different] at grew
      exact grew rfl
    obtain ⟨-, -, drawn⟩ := guards _ waits
    have moved := books.broadcast_spendable drawn accepted
    obtain ⟨-, paid⟩ := Ledger.broadcast_eq accepted
    rw [same, World.setL1_l1, Function.update_self, paid] at added
    obtain rfl : payout.tx = tx :=
      congrArg Payout.tx (List.singleton_inj.mp (List.append_cancel_left added)).symm
    rw [same]
    omega

/-- The withdrawal is about to be broadcast. -/
def readyToPay : List (Action Fate Event) := burnedCoins ++ answers 6

theorem spendable_falls_by_payment_and_fee_sample : ∃ state,
    (federation sampleConfig).run sampleStart readyToPay = some state ∧ state.world.spendable .signet = 100000 ∧
      (state.world.spendable .signet + (state.world.l1 .signet).paidOut = state.world.receivedAtFunded .signet ↔
        ∀ output ∈ (state.world.l1 .signet).history, output.origin = .change → 0 < output.value →
          state.world.Funded .signet output.address) := by
  have seen : ((federation sampleConfig).run sampleStart readyToPay).any (fun state =>
      state.world.spendable .signet = 100000) = true := by
    decide +kernel
  obtain ⟨state, ran, seen⟩ := (Option.any_eq_true _ _).mp seen
  exact ⟨state, ran, of_decide_eq_true seen, (spendable_falls_by_payment_and_fee (.of_run ran) .signet).1⟩

/-- Of 100000 spendable satoshis, a payment of 10000 with its fee of 1000 leaves
none: the change is where no row knows it. -/
theorem change_is_stranded : ∃ state next,
    (federation sampleConfig).run sampleStart readyToPay = some state ∧
      (federation sampleConfig).step state (.answer .ok) = some next ∧
      (next.world.l1 .signet).payouts.map (fun payout => (payout.tx.target, payout.tx.fee)) = [(10000, 1000)] ∧
      state.world.spendable .signet = 100000 ∧ next.world.spendable .signet = 0 ∧
      next.world.receivedAtFunded .signet = 100000 := by
  have seen : ((federation sampleConfig).run sampleStart readyToPay).any (fun state =>
      ((federation sampleConfig).step state (.answer .ok)).any fun next =>
        (next.world.l1 .signet).payouts.map (fun payout => (payout.tx.target, payout.tx.fee)) = [(10000, 1000)] ∧
        state.world.spendable .signet = 100000 ∧ next.world.spendable .signet = 0 ∧
        next.world.receivedAtFunded .signet = 100000) = true := by
    decide +kernel
  obtain ⟨state, ran, seen⟩ := (Option.any_eq_true _ _).mp seen
  obtain ⟨next, stepped, seen⟩ := (Option.any_eq_true _ _).mp seen
  exact ⟨state, next, ran, stepped, of_decide_eq_true seen⟩

/-! ## Coins of unminted deposits -/

/-- The outputs that `checkAddressForDeposits` would find for the row now. -/
def World.mintable (config : Config) (world : World) (row : Deposit) : List Output :=
  match row.ecashAddress with
  | none => []
  | some address =>
      let ledger := world.l1 row.network
      if ledger.tip = 0 ∨ (row.network = .mainnet ∧ ledger.tip < config.forkHeight) then []
      else confirmedOutputs config row.network ledger.tip (ledger.utxos (cleanAddress address))

/-- Rows stay and go further, and unminted ones keep the unspent outputs of their addresses. -/
structure World.SparesUnminted (before after : World) : Prop where
  tips : ∀ network, (before.l1 network).tip ≤ (after.l1 network).tip
  rows : ∀ row ∈ before.deposits, ∃ later ∈ after.deposits, row.Becomes later ∧
    (later.status ≠ .minted → ∀ output ∈ (before.l1 row.network).unspent,
      row.ecashAddress = some output.address →
        ∃ kept ∈ (after.l1 row.network).unspent, output.Becomes kept)

namespace World.SparesUnminted

variable {first second third : World}

theorem of_grows (ledgers : ∀ network, (first.l1 network).Grows (second.l1 network))
    (rows : ∀ row ∈ first.deposits, ∃ later ∈ second.deposits, row.Becomes later) :
    first.SparesUnminted second where
  tips network := (ledgers network).tip
  rows row member := by
    obtain ⟨later, present, becomes⟩ := rows row member
    exact ⟨later, present, becomes, fun _ output unspent _ => (ledgers row.network).unspent output unspent⟩

theorem refl (world : World) : world.SparesUnminted world :=
  of_grows (fun _ => .refl _) fun row member => ⟨row, member, .refl row⟩

theorem trans (left : first.SparesUnminted second) (right : second.SparesUnminted third) :
    first.SparesUnminted third where
  tips network := (left.tips network).trans (right.tips network)
  rows row member := by
    obtain ⟨middle, present, moved, spared⟩ := left.rows row member
    obtain ⟨later, present, becomes, spared'⟩ := right.rows middle present
    refine ⟨later, present, moved.trans becomes, fun unminted output unspent address => ?_⟩
    obtain ⟨between, unspent, grown⟩ :=
      spared (fun minted => unminted (becomes.minted minted)) output unspent address
    have address' : middle.ecashAddress = some between.address := by
      rw [moved.ecashAddress (by rw [address]; rfl), address, grown.address]
    rw [← moved.network] at unspent ⊢
    obtain ⟨kept, unspent, grown'⟩ := spared' unminted between unspent address'
    exact ⟨kept, unspent, grown.trans grown'⟩

end World.SparesUnminted

/-- Withdrawals are broadcast only while every funded address of their network
belongs to minted rows alone. -/
def fundsMinted : Condition Call World Fate Event where
  answer world
    | .broadcast network _ _, fate => fate ≠ .refused → ∀ row ∈ world.deposits, row.network = network →
        ∀ address, row.ecashAddress = some address → world.Funded network address → row.status = .minted
    | _, _ => True
  event _ _ := True
  restart _ _ := True

section
variable {config : Config} {excuse : Excuse} {state next : State World Reply} {action : Action Fate Event}

/-- A step only takes rows further. -/
theorem step_deposits (invariant : Invariant config excuse state.world state.waiting)
    (stepped : (federation config).step state action = some next) :
    ∀ row ∈ state.world.deposits, ∃ later ∈ next.world.deposits, row.Becomes later := by
  obtain ⟨books, guards⟩ := invariant
  obtain ⟨fate, call, -, waits, effect⟩ | ⟨-, grows⟩ := step_effect books stepped
  · generalize next.world = after at effect ⊢
    cases effect with
    | patchDeposit id patch _ carried =>
      obtain ⟨row, member, rfl, step⟩ := guards _ waits
      have split {later : Deposit} :=
        Api.mem_update books.depositIds member (patch.apply state.world.clock) later
      intro other known
      by_cases same : other.id = row.id
      · rw [books.deposit_eq known member same]
        exact ⟨_, split.mpr (.inl rfl), step.becomes _⟩
      · exact ⟨other, split.mpr (.inr ⟨known, same⟩), .refl other⟩
    | _ => exact fun row member => ⟨row, member, .refl row⟩
  · exact fun row member => ⟨row, grows.deposits member, .refl row⟩

theorem step_sparesUnminted (invariant : Invariant config excuse state.world state.waiting)
    (met : fundsMinted.Meets state action) (stepped : (federation config).step state action = some next) :
    state.world.SparesUnminted next.world := by
  have rows := step_deposits invariant stepped
  obtain ⟨books, guards⟩ := invariant
  obtain grows | ⟨fate, network, tx, withdrawal, ledger, rfl, carried, waits, accepted, same⟩ :=
    step_payouts books stepped
  · exact .of_grows grows rows
  obtain ⟨-, -, drawn⟩ := guards _ waits
  have minted := met _ waits carried
  obtain ⟨accepts, paid⟩ := Ledger.broadcast_eq accepted
  have blocks : ledger.tip = (state.world.l1 network).tip := by rw [paid]
  refine ⟨fun other => ?_, fun row member => ?_⟩
  · rw [same, World.setL1_l1]
    by_cases here : other = network
    · subst here
      rw [Function.update_self, blocks]
    · rw [Function.update_of_ne here]
  · rw [same]
    refine ⟨row, member, .refl row, fun unminted output unspent address => ⟨output, ?_, .refl output⟩⟩
    rw [World.setL1_l1]
    by_cases here : row.network = network
    · rw [here] at unspent ⊢
      rw [Function.update_self, paid]
      refine List.mem_append_left _ (List.mem_filter.mpr ⟨unspent, decide_eq_true fun spends => ?_⟩)
      -- A spent output is at a funded address, whose rows are minted.
      have entry := (accepts.spent_perm (books.ledgers network).unspent_nodup).mem_iff.mp
        (List.mem_map_of_mem (List.mem_filter.mpr ⟨unspent, decide_eq_true spends⟩))
      obtain ⟨input, taken, equal⟩ := List.mem_map.mp entry
      simp only [Prod.mk.injEq] at equal
      have funded := drawn.funded books input taken
      rw [equal.2.1] at funded
      exact unminted (minted row member here output.address address funded)
    · rw [Function.update_of_ne here]
      exact unspent

end

/-- What was mintable stays so while the outputs are kept. -/
theorem World.SparesUnminted.mintable_subset {before after : World} {config : Config} {row later : Deposit}
    (tips : ∀ network, (before.l1 network).tip ≤ (after.l1 network).tip) (becomes : row.Becomes later)
    (kept : ∀ output ∈ (before.l1 row.network).unspent, row.ecashAddress = some output.address →
      ∃ kept ∈ (after.l1 row.network).unspent, output.Becomes kept)
    (clean : ∀ address, row.ecashAddress = some address → cleanAddress address = address) :
    before.mintable config row ⊆ after.mintable config later := by
  intro output member
  cases assigned : row.ecashAddress with
  | none =>
    rw [mintable, assigned] at member
    cases member
  | some address =>
    rw [mintable, assigned] at member
    rw [mintable, becomes.ecashAddress (by rw [assigned]; rfl), assigned, becomes.network]
    have higher := tips row.network
    dsimp only at member ⊢
    split at member
    · cases member
    · next judged =>
      rw [if_neg]
      swap
      · rintro (none | ⟨home, early⟩)
        · exact judged (.inl (by omega))
        · exact judged (.inr ⟨home, by omega⟩)
      obtain ⟨listed, deep⟩ := List.mem_filter.mp member
      obtain ⟨unspent, same⟩ := List.mem_filter.mp listed
      obtain ⟨later, present, grown⟩ := kept output unspent
        (by rw [assigned, of_decide_eq_true same, clean address assigned])
      -- A confirmed output does not change any more.
      obtain rfl := grown.confirmed fun waiting => by simp [waiting] at deep
      refine List.mem_filter.mpr ⟨List.mem_filter.mpr ⟨present, same⟩, ?_⟩
      obtain ⟨height, found, enough⟩ := (Option.any_eq_true _ _).mp deep
      refine (Option.any_eq_true _ _).mpr ⟨height, found, ?_⟩
      have enough := of_decide_eq_true enough
      exact decide_eq_true (by omega)

/-- In every run that pays withdrawals only while all funded rows are minted, an
unminted row keeps the unspent outputs of its address and what of them it could
be minted for. -/
theorem unminted_coins_kept {config : Config} {clock : Nat} {tips : Network → Nat}
    {state next : State World Reply} (reach : Reach (federation config) fundsMinted
      ((federation config).start (World.initial clock tips)) state)
    (onwards : Reach (federation config) fundsMinted state next) :
    ∀ row ∈ state.world.deposits, ∀ later ∈ next.world.deposits, later.id = row.id → later.status ≠ .minted →
      (∀ output ∈ (state.world.l1 row.network).unspent, row.ecashAddress = some output.address →
        ∃ kept ∈ (next.world.l1 row.network).unspent, output.Becomes kept) ∧
      state.world.mintable config row ⊆ next.world.mintable config later := by
  have free := Excuse.all_permits config fundsMinted
  have spares : state.world.SparesUnminted next.world ∧ Reach (federation config) fundsMinted
      ((federation config).start (World.initial clock tips)) next := by
    induction onwards with
    | start => exact ⟨.refl _, reach⟩
    | step _ met stepped ih =>
      have invariant := reach_invariant (ih.2.mono free)
      exact ⟨ih.1.trans (step_sparesUnminted invariant met stepped), ih.2.step met stepped⟩
  intro row member later present same unminted
  have books := (reach_invariant (reach.mono free)).1
  have books' := (reach_invariant (spares.2.mono free)).1
  obtain ⟨other, present', becomes, kept⟩ := spares.1.rows row member
  obtain rfl := books'.deposit_eq present' present (becomes.id.trans same.symm)
  refine ⟨kept unminted, World.SparesUnminted.mintable_subset spares.1.tips becomes (kept unminted) ?_⟩
  intro address assigned
  obtain ⟨wallet, index, -, -, -, rfl⟩ := books.index_of_address member assigned
  exact cleanAddress_derived wallet _ _

/-- The check of funded rows at a broadcast. -/
def paysFromMinted (state : State World Reply) (_ : Action Fate Event) : Bool :=
  match state.waiting with
  | some (.broadcast network _ _) => decide (∀ row ∈ state.world.deposits, row.network = network →
      ∀ address ∈ row.ecashAddress, state.world.Funded network address → row.status = .minted)
  | _ => true

theorem fundsMinted_of_paysFromMinted (state : State World Reply) (action : Action Fate Event)
    (passed : paysFromMinted state action) : fundsMinted.Meets state action := by
  cases action with
  | answer fate =>
    intro call waits
    simp only [paysFromMinted, waits] at passed
    cases call with
    | broadcast network tx withdrawal =>
      exact fun _ row member home address assigned =>
        of_decide_eq_true passed row member home address (by rw [assigned]; rfl)
    | _ => trivial
  | _ => trivial

/-- Of two deposits one is minted and one received coins since; a withdrawal
waits. -/
def mintedAndFunded : List (Action Fate Event) :=
  secondsApart ++ answers 2 ++
    [.again, .event (.receive .signet (HDWallet.transparent.deriveDepositAddress .signet 1001) 50000),
      .event (.transact .signet 0x1111111111111111111111111111111111111111 burnAddress (10 ^ 14) []),
      .event (.mineTx .signet 1 true), .event (.postWithdrawal 9 sampleWithdrawal)] ++ answers 4 ++
    [.event (.mineBlock .signet [⟨1, 0⟩])]

theorem unminted_coins_kept_sample : ∃ state next,
    (federation sampleConfig).runWhile paysFromMinted sampleStart mintedAndFunded = some state ∧
      (federation sampleConfig).runWhile paysFromMinted state (answers 7) = some next ∧
      (next.world.l1 .signet).payouts.length = 1 ∧
      ∃ row ∈ state.world.deposits, ∃ later ∈ next.world.deposits, later.id = row.id ∧ later.status ≠ .minted ∧
        total (state.world.mintable sampleConfig row) = 50000 ∧
        state.world.mintable sampleConfig row ⊆ next.world.mintable sampleConfig later := by
  have seen : ((federation sampleConfig).runWhile paysFromMinted sampleStart mintedAndFunded).any (fun state =>
      ((federation sampleConfig).runWhile paysFromMinted state (answers 7)).any fun next =>
        (next.world.l1 .signet).payouts.length = 1 ∧
        ∃ row ∈ state.world.deposits, ∃ later ∈ next.world.deposits, later.id = row.id ∧ later.status ≠ .minted ∧
          total (state.world.mintable sampleConfig row) = 50000) = true := by
    decide +kernel
  obtain ⟨state, ran, seen⟩ := (Option.any_eq_true _ _).mp seen
  obtain ⟨next, ran', seen⟩ := (Option.any_eq_true _ _).mp seen
  obtain ⟨paid, row, member, later, present, same, unminted, amount⟩ := of_decide_eq_true seen
  exact ⟨state, next, ran, ran', paid, row, member, later, present, same, unminted, amount,
    (unminted_coins_kept (.of_runWhile fundsMinted_of_paysFromMinted ran)
      (.of_runWhile fundsMinted_of_paysFromMinted ran') row member later present same unminted).2⟩

/-- The mint of a confirmed deposit reverts, and a withdrawal is served in the same turn. -/
def revertedMint : List (Action Fate Event) :=
  fundedDeposit ++ answers 6 ++ [.event (.mineTx .signet 0 false)] ++ answers 1 ++
    [.event (.transact .signet 0x1111111111111111111111111111111111111111 burnAddress (10 ^ 14) []),
      .event (.mineTx .signet 1 true), .event (.postWithdrawal 9 sampleWithdrawal)] ++ answers 6

/-- The withdrawal takes the coins of the deposit, which can no longer be minted. -/
theorem withdrawal_eats_unminted_deposit : ∃ state next,
    (federation sampleConfig).run sampleStart revertedMint = some state ∧
      (federation sampleConfig).step state (.answer .ok) = some next ∧
      (next.world.l1 .signet).payouts.length = 1 ∧
      ∃ row ∈ state.world.deposits, row ∈ next.world.deposits ∧ row.status = .confirmed ∧
        total (state.world.mintable sampleConfig row) = 100000 ∧
        next.world.mintable sampleConfig row = [] ∧
        ∃ output ∈ (next.world.l1 .signet).spent, row.ecashAddress = some output.address := by
  have seen : ((federation sampleConfig).run sampleStart revertedMint).any (fun state =>
      ((federation sampleConfig).step state (.answer .ok)).any fun next =>
        (next.world.l1 .signet).payouts.length = 1 ∧
        ∃ row ∈ state.world.deposits, row ∈ next.world.deposits ∧ row.status = .confirmed ∧
          total (state.world.mintable sampleConfig row) = 100000 ∧
          next.world.mintable sampleConfig row = [] ∧
          ∃ output ∈ (next.world.l1 .signet).spent, row.ecashAddress = some output.address) = true := by
    decide +kernel
  obtain ⟨state, ran, seen⟩ := (Option.any_eq_true _ _).mp seen
  obtain ⟨next, stepped, seen⟩ := (Option.any_eq_true _ _).mp seen
  exact ⟨state, next, ran, stepped, of_decide_eq_true seen⟩

end Snowside
