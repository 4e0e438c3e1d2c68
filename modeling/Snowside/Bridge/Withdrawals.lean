import Snowside.Bridge.Deposits

/-! The outline of the withdrawal half of a turn. -/

set_option autoImplicit false

namespace Snowside

open Interaction

variable {config : Config} {excuse : Excuse} {world : World} {now : Nat}

/-! ## What stays true of the rows to come -/

/-- Withdrawal rows still to be handled: pending as they were read, and none of
those past the time limit should be paid. -/
structure Due (config : Config) (excuse : Excuse) (now : Nat) (rows : List Withdrawal) (world : World) : Prop where
  listed : Listed Withdrawal.id rows world.withdrawals
  pending : ∀ row ∈ rows, row.status = .pending
  clock : now ≤ world.clock
  late : ∀ row ∈ rows, TimedOut now row → WrittenOff config world row → excuse.late row.id

theorem TimedOut.later {row : Withdrawal} {later : Nat} (timedOut : TimedOut now row) (grows : now ≤ later) :
    TimedOut later row :=
  ⟨timedOut.1, lt_of_lt_of_le timedOut.2 (Nat.sub_le_sub_right grows _)⟩

namespace Due

theorem tail {row : Withdrawal} {rest : List Withdrawal} (due : Due config excuse now (row :: rest) world) :
    Due config excuse now rest world :=
  ⟨due.listed.tail, fun other member => due.pending other (List.mem_cons_of_mem _ member), due.clock,
    fun other member => due.late other (List.mem_cons_of_mem _ member)⟩

theorem kept (rows : List Withdrawal) : Kept config excuse (Due config excuse now rows) := by
  rintro before event after allowed happened grows due
  refine ⟨due.listed.mono grows.withdrawals, due.pending, due.clock.trans grows.clock, ?_⟩
  rintro row member timedOut ⟨⟨rpcUrl, ⟨hash, named, burned⟩, amount⟩, unpaid⟩
  have neverPaid : before.NeverPaid row.id := fun payout made => unpaid payout (grows.payoutMade.mpr made)
  obtain known | ⟨sender, recipient, value, input, rfl, new⟩ := happen_getTransaction happened burned
  · exact due.late row member timedOut ⟨⟨rpcUrl, ⟨hash, named, known⟩, amount⟩, neverPaid⟩
  · exact allowed row (due.listed.known member) (due.pending row member) rfl (timedOut.later due.clock)
      (by rw [named]; exact new)

/-- The process's own steps in the loop leave the rows to come as they are. -/
theorem step {rows : List Withdrawal} {after : World} (due : Due config excuse now rows world)
    (listed : Listed Withdrawal.id rows after.withdrawals) (clock : after.clock = world.clock)
    (l2 : after.l2 = world.l2)
    (payouts : ∀ payout withdrawal, world.PayoutMade payout withdrawal → after.PayoutMade payout withdrawal) :
    Due config excuse now rows after where
  listed := listed
  pending := due.pending
  clock := by rw [clock]; exact due.clock
  late row member timedOut := by
    rintro ⟨⟨rpcUrl, burned, amount⟩, unpaid⟩
    rw [l2] at burned
    exact due.late row member timedOut ⟨⟨rpcUrl, burned, amount⟩,
      fun payout made => unpaid payout (payouts _ _ made)⟩

end Due

/-- Each listed deposit of the network is a funded row whose key spends its outputs. -/
def Funds (wallet : HDWallet) (network : Network) (deposits : List Api.FundedDeposit) (world : World) : Prop :=
  ∀ deposit ∈ deposits, deposit.network = network → ∃ row ∈ world.deposits, row.network = network ∧
    row.ecashAddress = some (wallet.deriveDepositAddress network deposit.derivationIndex) ∧ row.amountSats.isSome

theorem Funds.kept (wallet : HDWallet) (network : Network) (deposits : List Api.FundedDeposit) :
    Kept config excuse (Funds wallet network deposits) := by
  refine .of_grows fun before after grows funds deposit member same => ?_
  obtain ⟨row, known, rest⟩ := funds deposit member same
  exact ⟨row, grows.deposits known, rest⟩

theorem mem_fundedDeposits {deposits : List Deposit} {deposit : Api.FundedDeposit}
    (member : deposit ∈ Api.fundedDeposits deposits) : ∃ row ∈ deposits, Api.fundedRow row = some deposit := by
  obtain ⟨row, known, same⟩ := List.mem_filterMap.mp member
  exact ⟨row, (List.perm_insertionSort _ deposits).mem_iff.mp known, same⟩

theorem fundedRow_eq {row : Deposit} {deposit : Api.FundedDeposit} (same : Api.fundedRow row = some deposit) :
    deposit.network = row.network ∧ row.ecashAddress = some deposit.ecashAddress ∧
      row.derivationIndex = some deposit.derivationIndex ∧ row.amountSats = some deposit.amountSats := by
  unfold Api.fundedRow at same
  split at same
  · next address index amount assigned holds funded =>
    cases same
    exact ⟨rfl, assigned, holds, funded⟩
  · cases same

theorem fundedDeposits_funds {phase : Phase} {wallet : HDWallet} (books : Books config excuse phase world)
    (wallets : config.wallet = some wallet) (network : Network) :
    Funds wallet network (Api.fundedDeposits world.deposits) world := by
  intro deposit member same
  obtain ⟨row, known, funded⟩ := mem_fundedDeposits member
  obtain ⟨home, address, holds, amount⟩ := fundedRow_eq funded
  rw [home] at same
  refine ⟨row, known, same, ?_, by rw [amount]; rfl⟩
  cases books.staged row known with
  | blank _ blank => rw [blank] at address; cases address
  | assigned wallet' index wallets' _ derived holds' =>
    obtain rfl := Option.some.inj (wallets.symm.trans wallets')
    obtain rfl := Option.some.inj (holds.symm.trans holds')
    rw [derived, same]

/-! ## Building and broadcasting -/

theorem collect_keeps {facts : World → Prop} (kept : Kept config excuse facts) (network : Network)
    (deposits : List Api.FundedDeposit) (books : Books config excuse .idle world) (holds : facts world) :
    Keeps config excuse (collectUtxos network deposits)
      (fun items world => Books config excuse .idle world ∧ facts world ∧
        ∀ item ∈ items, item.deposit ∈ deposits ∧ item.deposit.network = network) world := by
  induction deposits generalizing world with
  | nil => exact ⟨books, holds, fun _ member => absurd member List.not_mem_nil⟩
  | cons deposit rest ih =>
    have wider {items : List Candidate}
        (inside : ∀ item ∈ items, item.deposit ∈ rest ∧ item.deposit.network = network) :
        ∀ item ∈ items, item.deposit ∈ deposit :: rest ∧ item.deposit.network = network :=
      fun item member => ⟨List.mem_cons_of_mem _ (inside item member).1, (inside item member).2⟩
    rw [collectUtxos]
    split
    · exact (ih books holds).mono fun _ _ ⟨books, holds, inside⟩ => ⟨books, holds, wider inside⟩
    · next same =>
      simp only [fetchUtxos, Program.call_bind, Program.ask_bind, Program.pure_eq, Program.done_bind]
      refine Keeps.ask facts books rfl holds kept (fun _ _ _ => trivial) ?_
      rintro world fate utxos after books holds - - answered
      obtain ⟨rfl, -⟩ := World.read_eq answered
      refine Outline.bind ((ih books holds).mono ?_)
      rintro others world ⟨books, holds, inside⟩
      refine ⟨books, holds, fun item member => ?_⟩
      obtain member | member := List.mem_append.mp member
      · obtain ⟨utxo, -, rfl⟩ := List.mem_map.mp member
        exact ⟨List.mem_cons_self, not_ne_iff.mp same⟩
      · exact wider inside item member

/-- What the withdrawal builder leaves: a hash stands for a payout of the row. -/
def AfterPayout (config : Config) (excuse : Excuse) (now : Nat) (row : Withdrawal) (rest : List Withdrawal) :
    Option Nat → World → Prop
  | none, world => Books config excuse .idle world ∧ Due config excuse now (row :: rest) world
  | some txid, world => Books config excuse (.paying row.id) world ∧
      Due config excuse now (row :: rest) world ∧ world.PayoutMade (row.network, txid) row.id

theorem build_keeps {row : Withdrawal} {rest : List Withdrawal} {wallet : HDWallet} {index : Nat}
    {deposits : List Api.FundedDeposit} (books : Books config excuse .idle world)
    (due : Due config excuse now (row :: rest) world) (wallets : config.wallet = some wallet)
    (funds : Funds wallet row.network deposits world) (small : index < indexLimit) :
    Keeps config excuse (buildSignAndBroadcastWithdrawal config row.network row deposits wallet
      (wallet.deriveDepositAddress row.network index)) (AfterPayout config excuse now row rest) world := by
  rw [buildSignAndBroadcastWithdrawal]
  split
  · exact ⟨books, due⟩
  next amount priced =>
  split
  · exact ⟨books, due⟩
  refine Outline.bind ((collect_keeps ((Due.kept (row :: rest)).and (Funds.kept wallet row.network deposits))
    row.network deposits books ⟨due, funds⟩).mono ?_)
  rintro items world ⟨books, ⟨due, funds⟩, inside⟩
  dsimp only
  split
  · exact ⟨books, due⟩
  split
  · exact ⟨books, due⟩
  next address decoded =>
  -- All inputs are the wallet's own, and so is the address of the change.
  refine Keeps.ask (fun world => Due config excuse now (row :: rest) world ∧
    Funds wallet row.network deposits world) books rfl ⟨due, funds⟩
    ((Due.kept _).and (Funds.kept _ _ _)) ?_ ?_
  · rintro world - ⟨due, funds⟩
    refine ⟨due.listed.head, due.pending row List.mem_cons_self, rfl, ?_, ?_⟩
    · intro input taken
      obtain ⟨item, selected, rfl⟩ := List.mem_map.mp taken
      obtain ⟨listed, same⟩ := inside item (selectUtxos_subset _ _ _ selected)
      exact funds item.deposit listed same
    · intro change given
      refine ⟨wallet, index, wallets, small, ?_⟩
      simp only [buildTx, cleanAddress_derived] at given
      split at given
      · rw [← Option.some.inj given]
      · cases given
  · rintro world fate reply after books ⟨due, -⟩ guard allowed answered
    obtain ⟨change, left⟩ := books.broadcast_answer guard allowed answered
    have due : Due config excuse now (row :: rest) after := by
      obtain rfl | ⟨ledger, accepted, rfl⟩ := change
      · exact due
      · -- A broadcast adds a payout and takes none away.
        refine due.step due.listed rfl rfl fun payout withdrawal made => ?_
        obtain ⟨-, paid⟩ := Ledger.broadcast_eq accepted
        obtain ⟨old, known, rest⟩ := made
        refine ⟨old, ?_, rest⟩
        by_cases same : payout.1 = row.network
        · rw [World.setL1_l1, same, Function.update_self, paid]
          exact List.mem_append_left _ (same ▸ known)
        · rw [World.setL1_l1, Function.update_of_ne same]
          exact known
    obtain ⟨rfl, books⟩ | ⟨txid, rfl, books, made⟩ := left
    · exact ⟨books, due⟩
    · exact ⟨books, due, made⟩

/-! ## One row and all rows -/

theorem processWithdrawal_keeps {row : Withdrawal} {rest : List Withdrawal}
    (books : Books config excuse .idle world) (due : Due config excuse now (row :: rest) world) :
    Keeps config excuse (processWithdrawal config row)
      (fun _ world => Books config excuse .idle world ∧ Due config excuse now rest world) world := by
  rw [processWithdrawal]
  split
  · exact ⟨books, due.tail⟩
  split
  swap
  · exact ⟨books, due.tail⟩
  next burnTxHash sender named minter =>
  rw [verifyBurnTx]
  split
  · simp only [Program.pure_eq, Program.done_bind, if_true]
    exact ⟨books, due.tail⟩
  simp only [fetchFundedDeposits, Program.call_bind, Program.ask_bind, Program.pure_eq, Program.done_bind]
  -- The burn and the funded deposits are only read.
  refine Keeps.ask (Due config excuse now (row :: rest)) books rfl due (Due.kept _) (fun _ _ _ => trivial) ?_
  rintro world fate tx after books due - - answered
  obtain rfl : after = world := by
    cases fate <;> cases answered <;> rfl
  split
  · exact ⟨books, due.tail⟩
  refine Keeps.ask (Due config excuse now (row :: rest)) books rfl due (Due.kept _) (fun _ _ _ => trivial) ?_
  rintro world fate funded after books due - - answered
  obtain ⟨rfl, found⟩ := World.read_eq answered
  split
  · exact ⟨books, due.tail⟩
  have funds : ∀ wallet, config.wallet = some wallet → Funds wallet row.network (funded.getD []) after := by
    intro wallet wallets
    obtain rfl | rfl := found
    · exact fundedDeposits_funds books wallets row.network
    · exact fun _ member => absurd member List.not_mem_nil
  refine Keeps.ask (fun world => Due config excuse now (row :: rest) world ∧
      ∀ wallet, config.wallet = some wallet → Funds wallet row.network (funded.getD []) world) books rfl ⟨due, funds⟩
    ((Due.kept _).and fun before event after allowed happened grows funds wallet wallets =>
      Funds.kept wallet _ _ before event after allowed happened grows (funds wallet wallets))
    (fun _ _ _ => trivial) ?_
  rintro world fate time after books ⟨due, funds⟩ - allowed answered
  obtain ⟨rfl, rfl⟩ : time = world.clock ∧ after = { world with
      changes := world.changes ++ [(row.network, clockIndex world.clock)] } := by
    cases fate <;> cases answered
    exact ⟨rfl, rfl⟩
  -- The time of day becomes the index of the change address.
  have books := books.withChange (Nat.mod_lt _ (by decide)) fun other member same holds => allowed ⟨other, member, same, holds⟩
  have due : Due config excuse now (row :: rest) { world with
      changes := world.changes ++ [(row.network, clockIndex world.clock)] } :=
    due.step due.listed rfl rfl fun _ _ made => made
  split
  · exact ⟨books, due.tail⟩
  next wallet wallets =>
  refine Outline.bind ((build_keeps books due wallets (funds wallet wallets) (Nat.mod_lt _ (by decide))).mono ?_)
  -- Without a hash the row stays pending.
  rintro (_ | txid) world left
  · exact ⟨left.1, left.2.tail⟩
  obtain ⟨books, due, made⟩ := left
  refine Keeps.ask (fun world => Due config excuse now (row :: rest) world ∧
    world.PayoutMade (row.network, txid) row.id) books rfl ⟨due, made⟩
    ((Due.kept _).and (.of_grows fun _ _ grows made => grows.payoutMade.mpr made)) ?_ ?_
  · rintro world - ⟨due, made⟩
    exact ⟨row, due.listed.head, rfl, due.pending row List.mem_cons_self, .complete txid made⟩
  · rintro world fate reply after books ⟨due, -⟩ guard allowed answered
    obtain ⟨idle, rfl | rfl⟩ := books.patchWithdrawal_answer rfl guard allowed answered
    · exact ⟨idle, due.tail⟩
    · exact ⟨idle, due.tail.step (due.listed.tail.update due.listed.apart _) rfl rfl fun _ _ made => made⟩

theorem handleWithdrawal_keeps {row : Withdrawal} {rest : List Withdrawal}
    (books : Books config excuse .idle world) (due : Due config excuse now (row :: rest) world) :
    Keeps config excuse (handleWithdrawal config now row)
      (fun _ world => Books config excuse .idle world ∧ Due config excuse now rest world) world := by
  rw [handleWithdrawal]
  split
  · -- A row past the limit is failed, which the condition wants unpaid.
    next timedOut =>
    simp only [Program.call_bind, Program.pure_eq]
    refine Keeps.ask (Due config excuse now (row :: rest)) books rfl due (Due.kept _) ?_ ?_
    · rintro world - due
      exact ⟨row, due.listed.head, rfl, due.pending row List.mem_cons_self,
        .fail now due.clock timedOut (due.late row List.mem_cons_self timedOut)⟩
    · rintro world fate reply after books due guard allowed answered
      obtain ⟨idle, rfl | rfl⟩ := books.patchWithdrawal_answer rfl guard allowed answered
      · exact ⟨idle, due.tail⟩
      · exact ⟨idle, due.tail.step (due.listed.tail.update due.listed.apart _) rfl rfl fun _ _ made => made⟩
  · exact processWithdrawal_keeps books due

/-- The withdrawal half of a turn. -/
theorem processPendingWithdrawals_keeps (books : Books config excuse .idle world) :
    Keeps config excuse (processPendingWithdrawals config) (fun _ => Books config excuse .idle) world := by
  rw [processPendingWithdrawals]
  simp only [Program.call_bind, Program.pure_eq]
  refine Keeps.ask (fun _ => True) books rfl trivial .trivially (fun _ _ _ => trivial) ?_
  rintro world fate rows after books - - - answered
  obtain ⟨rfl, rfl | rfl⟩ := World.read_eq answered
  swap
  · exact books
  have listed : Listed Withdrawal.id (Api.pendingWithdrawals after.withdrawals) after.withdrawals :=
    .of_sorted books.withdrawalIds _ _
  have pending : ∀ row ∈ Api.pendingWithdrawals after.withdrawals, row.status = .pending := by
    intro row member
    have chosen := (List.perm_insertionSort _ _).mem_iff.mp member
    exact of_decide_eq_true (List.mem_filter.mp chosen).2
  refine Keeps.ask (fun world => Listed Withdrawal.id (Api.pendingWithdrawals after.withdrawals) world.withdrawals)
    books rfl listed (.of_grows fun _ _ grows listed => listed.mono grows.withdrawals) (fun _ _ _ => trivial) ?_
  rintro world fate now later books listed - allowed answered
  obtain ⟨rfl, rfl⟩ : now = world.clock ∧ later = world := by
    cases fate <;> cases answered
    exact ⟨rfl, rfl⟩
  -- What is late is decided by this one reading of the clock.
  have due : Due config excuse later.clock (Api.pendingWithdrawals after.withdrawals) later :=
    ⟨listed, pending, le_rfl, fun row member timedOut =>
      allowed row (listed.known member) (pending row member) timedOut⟩
  exact (Outline.forEach (fun rest world => Books config excuse .idle world ∧ Due config excuse later.clock rest world)
    (fun row rest world start => handleWithdrawal_keeps start.1 start.2) _ ⟨books, due⟩).mono fun _ _ left => left.1

/-! ## A turn -/

theorem poll_keeps (books : Books config excuse .idle world) :
    Keeps config excuse (poll config) (fun _ => Books config excuse .idle) world := by
  rw [poll, checkIn]
  refine Outline.bind ?_
  simp only [Program.call_bind, Program.pure_eq]
  refine Keeps.ask (fun _ => True) books rfl trivial .trivially (fun _ _ _ => trivial) ?_
  rintro world fate reply after books - - - answered
  have books : Books config excuse .idle after := by
    obtain ⟨done, present, rfl, -⟩ | ⟨-, rfl, -⟩ := World.write_eq answered
    · cases present
      exact books.withClock _ _
    · exact books
  exact Outline.bind ((processPendingDeposits_keeps books).mono fun _ _ books =>
    processPendingWithdrawals_keeps books)

/-- The invariant holds in every state of every permitted run. -/
theorem reach_invariant {clock : Nat} {tips : Network → Nat} {state : State World Reply}
    (reach : Reach (federation config) (excuse.permits config)
      ((federation config).start (World.initial clock tips)) state) :
    Invariant config excuse state.world state.waiting := by
  have stable : Stable (federation config) (excuse.permits config) (Books config excuse .idle) :=
    fun before event after books _ happened => (books.happen happened).1
  refine (Outline.reach stable ?_ ?_ ?_ (.initial clock tips) reach).1
  · exact fun world books => ⟨books, fun call waits => absurd waits.symm (Option.some_ne_none call)⟩
  · exact fun world books => poll_keeps books
  · exact fun world waiting invariant allowed => invariant.1.restart allowed

end Snowside
