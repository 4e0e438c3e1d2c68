import Snowside.Bridge.Guards

/-! What users, both chains and the clock do keeps the books, and what the
process knows at a call stays true. -/

set_option autoImplicit false

namespace Snowside

open Interaction

variable {config : Config} {excuse : Excuse} {phase : Phase} {world after : World}

theorem nodup_map_concat {Row : Type} {key : Row → Nat} {rows : List Row} {row : Row}
    (distinct : (rows.map key).Nodup) (new : key row ∉ rows.map key) : ((rows ++ [row]).map key).Nodup := by
  rw [List.map_append, List.nodup_append]
  refine ⟨distinct, List.nodup_singleton _, ?_⟩
  rintro _ old _ added rfl
  rw [List.map_singleton, List.mem_singleton] at added
  exact new (added ▸ old)

namespace Books

theorem addDeposit (books : Books config excuse phase world) {row : Deposit}
    (new : row.id ∉ world.deposits.map Deposit.id) (pending : row.status = .pending)
    (address : row.ecashAddress = none) (index : row.derivationIndex = none) (amount : row.amountSats = none) :
    Books config excuse phase { world with deposits := world.deposits ++ [row] } := by
  have split {other : Deposit} (member : other ∈ world.deposits ++ [row]) : other ∈ world.deposits ∨ other = row :=
    (List.mem_append.mp member).imp_right List.mem_singleton.mp
  refine books.withDeposits (nodup_map_concat books.depositIds new) ?_ ⟨?_, ?_⟩ ?_ ?_ ?_ rfl
  · intro other member
    obtain member | rfl := split member
    · exact books.staged other member
    · exact .blank pending address index amount
  · intro first left second right same held holds holds'
    obtain left | rfl := split left
    · obtain right | rfl := split right
      · exact books.apart.rows first left second right same held holds holds'
      · rw [index] at holds'; cases holds'
    · rw [index] at holds; cases holds
  · intro other member held holds drawn
    obtain member | rfl := split member
    · exact books.apart.changes other member held holds drawn
    · rw [index] at holds; cases holds
  · exact fun other member => ⟨other, List.mem_append_left _ member, .refl other⟩
  · intro other member minted
    obtain member | rfl := split member
    · exact books.minted other member minted
    · rw [pending] at minted; cases minted
  · refine books.mintOnce.frame (fun _ _ made => made) ?_
    rintro _ ⟨other, member, rfl, unminted⟩
    obtain member | rfl := split member
    · exact .inl ⟨other, member, rfl, unminted⟩
    · -- A mint for the new id would be of an older row.
      refine .inr fun mint made => ?_
      obtain ⟨tx, known, -, -, note, noted, same⟩ := made
      obtain ⟨old, present, -, origin⟩ := books.mints mint.1 tx known note noted
      exact new (List.mem_map.mpr ⟨old, present, origin.id.trans same⟩)

theorem addWithdrawal (books : Books config excuse phase world) {row : Withdrawal}
    (new : row.id ∉ world.withdrawals.map Withdrawal.id) (amount : row.amountSats = none) :
    Books config excuse phase { world with withdrawals := world.withdrawals ++ [row] } := by
  have split {other : Withdrawal} (member : other ∈ world.withdrawals ++ [row]) :
      other ∈ world.withdrawals ∨ other = row :=
    (List.mem_append.mp member).imp_right List.mem_singleton.mp
  refine books.withWithdrawals (nodup_map_concat books.withdrawalIds new) ?_ ?_ ?_ rfl
  · intro other member waits
    obtain member | rfl := split member
    · exact books.unpriced other member waits
    · exact amount
  · exact fun other member => ⟨other, List.mem_append_left _ member, .refl other⟩
  · refine books.payOnce.frame (fun _ _ made => made) ?_
    rintro _ ⟨other, member, rfl, unpaid⟩
    obtain member | rfl := split member
    · exact .inl ⟨other, member, rfl, unpaid⟩
    · -- Payouts name rows of the table, so none was made for the new one.
      refine .inr fun payout made => ?_
      obtain ⟨paid, known, -, same⟩ := made
      obtain ⟨-, old, present, becomes⟩ := books.payouts payout.1 paid known
      exact new (List.mem_map.mpr ⟨old, present, becomes.id.trans same⟩)

/-- A ledger that only gained outputs or confirmations. -/
theorem withOutputs (books : Books config excuse phase world) {network : Network} {ledger : Ledger}
    (formed : ledger.WellFormed) (grows : world.Grows (world.setL1 network ledger)) :
    Books config excuse phase (world.setL1 network ledger) := by
  -- At its own network, the changed world has the new ledger.
  have same (field : Network → Ledger → Prop) (holds : ∀ other, field other ((world.setL1 network ledger).l1 other)) :
      field network ledger := by
    simpa [World.setL1] using holds network
  refine books.withL1 formed ?_ ?_ ?_ rfl
  · exact same (fun other ledger => ∀ output ∈ (world.l1 other).history, output.height ≠ none →
      output ∈ ledger.history) fun other output member => grows.history other member
  · rw [(same (fun other ledger => (world.l1 other).Grows ledger) grows.ledgers).payouts]
    exact books.payouts network
  · exact books.payOnce.frame (fun _ _ made => grows.payoutMade.mp made) fun _ unpaid => .inl unpaid

/-- A chain that only gained transactions of others or results. -/
theorem withTxs (books : Books config excuse phase world) {network : Network} {chain : Chain}
    (numbered : chain.Numbered) (grows : world.Grows (world.setL2 network chain)) :
    Books config excuse phase (world.setL2 network chain) := by
  -- At its own network, the changed world has the new chain.
  have same (field : Network → Chain → Prop) (holds : ∀ other, field other ((world.setL2 network chain).l2 other)) :
      field network chain := by
    simpa [World.setL2] using holds network
  refine books.withL2 numbered (same (fun other chain => (world.l2 other).Grows chain) grows.txs) ?_ ?_ rfl
  · intro tx member note noted
    obtain ⟨old, known, becomes⟩ | nothing := same (fun other chain => ∀ tx ∈ chain.txs,
      (∃ old ∈ (world.l2 other).txs, old.Becomes tx) ∨ tx.mint = none) grows.mints tx member
    · rw [becomes.input]
      exact books.mints network old known note (becomes.mint.symm.trans noted)
    · rw [nothing] at noted
      cases noted
  · exact books.mintOnce.frame (fun _ _ made => grows.mintMade made) fun _ unminted => .inl unminted

end Books

/-- Every event keeps the books and only adds to the world. -/
theorem Books.happen (books : Books config excuse phase world) {event : Event}
    (happened : World.happen config event world = some after) :
    Books config excuse phase after ∧ world.Grows after := by
  cases event with
  | tick milliseconds =>
    cases happened
    exact ⟨books.withClock _ _, { World.Grows.refl world with clock := Nat.le_add_right _ _ }⟩
  | postDeposit id network snowsideAddress =>
    obtain ⟨deposits, created, rfl⟩ := Option.map_eq_some_iff.mp happened
    obtain ⟨new, -, rfl⟩ := Api.createDeposit_eq created
    refine ⟨books.addDeposit new rfl rfl rfl rfl, { World.Grows.refl world with
      deposits := List.subset_append_left _ _
      blank := fun row member => ?_ }⟩
    -- A new row has no index yet.
    exact (List.mem_append.mp member).imp_right fun added => by rw [List.mem_singleton.mp added]
  | postWithdrawal id body =>
    obtain ⟨withdrawals, created, rfl⟩ := Option.map_eq_some_iff.mp happened
    obtain ⟨new, row, rfl, rfl, -, amount⟩ := Api.createWithdrawal_eq created
    exact ⟨books.addWithdrawal new amount,
      { World.Grows.refl world with withdrawals := List.subset_append_left _ _ }⟩
  | receive network address value =>
    cases happened
    have grows : world.Grows (world.setL1 network ((world.l1 network).receive address value)) :=
      .setL1 world (Ledger.receive_grows _ _ _)
    exact ⟨books.withOutputs (Ledger.receive_wellFormed (books.ledgers network) _ _) grows, grows⟩
  | mineBlock network points =>
    cases happened
    have grows : world.Grows (world.setL1 network ((world.l1 network).mineBlock points)) :=
      .setL1 world (Ledger.mineBlock_grows _ _)
    exact ⟨books.withOutputs (Ledger.mineBlock_wellFormed (books.ledgers network) _) grows, grows⟩
  | transact network sender recipient value input =>
    cases happened
    have grows : world.Grows (world.setL2 network ((world.l2 network).submit
        { hash := 0, sender, recipient, value, input })) := by
      refine .setL2 world (Chain.submit_grows _ _) fun tx member => ?_
      exact (List.mem_append.mp member).imp (fun old => ⟨tx, old, .refl tx⟩)
        fun added => by rw [List.mem_singleton.mp added]
    exact ⟨books.withTxs (Chain.submit_numbered (books.chains network) _) grows, grows⟩
  | mineTx network hash success =>
    obtain ⟨chain, mined, rfl⟩ := Option.map_eq_some_iff.mp happened
    have grows : world.Grows (world.setL2 network chain) := by
      refine .setL2 world (Chain.mine_grows (books.chains network) mined) fun tx member => ?_
      obtain ⟨old, known, rfl⟩ := (Chain.mine_mem mined).mp member
      exact .inl ⟨old, known, Chain.mine_becomes (books.chains network) mined known⟩
    exact ⟨books.withTxs (Chain.mine_numbered (books.chains network) mined) grows, grows⟩

/-! ## Burns that become known -/

theorem Chain.getTransaction_submit {chain : Chain} {tx : Tx} {hash : Text}
    (found : ((chain.submit tx).getTransaction hash).isSome) :
    (chain.getTransaction hash).isSome ∨ txHash hash = some chain.txs.length := by
  obtain ⟨tx', found⟩ := Option.isSome_iff_exists.mp found
  obtain ⟨number, spelled, found⟩ := Option.bind_eq_some_iff.mp found
  rw [Chain.find, Chain.submit_txs, List.find?_append, Option.or_eq_some_iff] at found
  obtain old | ⟨-, new⟩ := found
  · refine .inl (Option.isSome_iff_exists.mpr ⟨tx', ?_⟩)
    rw [Chain.getTransaction, spelled]
    exact old
  · -- The search stops at the new transaction, which has the next number.
    have same := List.find?_some new
    obtain rfl := List.mem_singleton.mp (List.mem_of_find?_eq_some new)
    rw [spelled]
    exact .inr (congrArg some (of_decide_eq_true same).symm)

theorem Chain.getTransaction_mine {chain after : Chain} {number : Nat} {success : Bool} {hash : Text}
    (mined : chain.mine number success = some after) (found : (after.getTransaction hash).isSome) :
    (chain.getTransaction hash).isSome := by
  obtain ⟨later, found⟩ := Option.isSome_iff_exists.mp found
  obtain ⟨target, spelled, found⟩ := Option.bind_eq_some_iff.mp found
  obtain ⟨member, named⟩ := Chain.find_mem found
  obtain ⟨tx, known, rfl⟩ := (Chain.mine_mem mined).mp member
  -- Settling keeps the hash.
  have same : (tx.settle number success).hash = tx.hash := by
    unfold Tx.settle
    split <;> rfl
  rw [Chain.getTransaction, spelled]
  exact List.find?_isSome.mpr ⟨tx, known, decide_eq_true (same.symm.trans named)⟩

/-- Only a transaction that arrives makes a hash known. -/
theorem happen_getTransaction {event : Event} (happened : World.happen config event world = some after)
    {network : Network} {hash : Text} (found : ((after.l2 network).getTransaction hash).isSome) :
    ((world.l2 network).getTransaction hash).isSome ∨ ∃ sender recipient value input,
      event = .transact network sender recipient value input ∧
        txHash hash = some (world.l2 network).txs.length := by
  cases event with
  | tick => cases happened; exact .inl found
  | postDeposit =>
    obtain ⟨deposits, -, rfl⟩ := Option.map_eq_some_iff.mp happened
    exact .inl found
  | postWithdrawal =>
    obtain ⟨withdrawals, -, rfl⟩ := Option.map_eq_some_iff.mp happened
    exact .inl found
  | receive => cases happened; exact .inl found
  | mineBlock => cases happened; exact .inl found
  | transact target sender recipient value input =>
    cases happened
    by_cases same : network = target
    · subst same
      rw [World.setL2_l2, Function.update_self] at found
      exact (Chain.getTransaction_submit found).imp_right fun new => ⟨sender, recipient, value, input, rfl, new⟩
    · rw [World.setL2_l2, Function.update_of_ne same] at found
      exact .inl found
  | mineTx target number success =>
    obtain ⟨chain, mined, rfl⟩ := Option.map_eq_some_iff.mp happened
    by_cases same : network = target
    · subst same
      rw [World.setL2_l2, Function.update_self] at found
      exact .inl (Chain.getTransaction_mine mined found)
    · rw [World.setL2_l2, Function.update_of_ne same] at found
      exact .inl found

end Snowside
