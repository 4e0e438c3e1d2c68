import Snowside.Bridge.Events

/-! What the calls of the process do keeps the books. -/

set_option autoImplicit false

namespace Snowside

open Interaction

variable {config : Config} {excuse : Excuse} {world : World}

/-! ## Writes to the tables -/

/-- A step only takes a row further. -/
theorem DepositStep.becomes {row : Deposit} {patch : Api.DepositPatch} (now : Nat)
    (step : DepositStep config excuse world row patch) : row.Becomes (patch.apply now row) := by
  cases step with
  | assign wallet index pending address holds amount =>
    exact ⟨rfl, rfl, rfl, fun held => by simp [address] at held, fun held => by simp [holds] at held,
      fun held => held, fun held => held, fun held => held⟩
  | confirm result pending address =>
    exact ⟨rfl, rfl, rfl, fun _ => rfl, fun _ => rfl, fun _ => rfl, fun _ => by simp [Api.DepositPatch.apply,
      confirmedPatch], fun minted => by simp [pending] at minted⟩
  | mint amount tx confirmed =>
    exact ⟨rfl, rfl, rfl, fun _ => rfl, fun _ => rfl, fun held => held,
      fun _ => by simp [Api.DepositPatch.apply, mintedPatch], fun minted => by simp [confirmed] at minted⟩

theorem DepositStep.staged {row : Deposit} {patch : Api.DepositPatch} (now : Nat)
    (step : DepositStep config excuse world row patch) (staged : row.Staged config) :
    (patch.apply now row).Staged config := by
  cases step with
  | assign wallet index pending address holds amount wallets small =>
    exact .assigned wallet index wallets small rfl rfl (by simp [Api.DepositPatch.apply, pending, amount])
  | confirm result pending address =>
    cases staged with
    | blank _ blank => simp [blank] at address
    | assigned wallet index wallets small derived holds =>
      exact .assigned wallet index wallets small derived holds (by simp [Api.DepositPatch.apply, confirmedPatch])
  | mint amount tx confirmed =>
    cases staged with
    | blank pending => rw [confirmed] at pending; cases pending
    | assigned wallet index wallets small derived holds stage =>
      refine .assigned wallet index wallets small derived holds ?_
      rw [confirmed] at stage
      simpa [Api.DepositPatch.apply, mintedPatch] using stage

/-- A row keeps its index or takes the drawn one. -/
theorem DepositStep.index {row : Deposit} {patch : Api.DepositPatch} (now : Nat) {index : Nat}
    (step : DepositStep config excuse world row patch)
    (holds : (patch.apply now row).derivationIndex = some index) : row.derivationIndex = some index ∨
      FreeIndex excuse world row.network index := by
  cases step with
  | assign wallet drawn pending address blank amount wallets small free =>
    cases holds
    exact .inr free
  | confirm => exact .inl holds
  | mint => exact .inl holds

/-- A row is marked as minted after its mint only. -/
theorem DepositStep.minted {row : Deposit} {patch : Api.DepositPatch} (now : Nat)
    (step : DepositStep config excuse world row patch) (minted : (patch.apply now row).status = .minted) :
    ∃ tx ∈ (world.l2 row.network).txs, tx.status = .success ∧ tx.MintFor row.id := by
  cases step with
  | assign wallet index pending =>
    rw [show (Api.DepositPatch.apply _ now row).status = row.status from rfl, pending] at minted
    cases minted
  | confirm => cases minted
  | mint amount tx confirmed known success mintFor => exact ⟨tx, known, success, mintFor⟩

theorem Books.patchDeposit {row : Deposit} {patch : Api.DepositPatch} (now : Nat) {phase : Phase}
    (books : Books config excuse phase world) (member : row ∈ world.deposits)
    (step : DepositStep config excuse world row patch)
    (here : phase = phaseOf (some (.patchDeposit row.id patch))) :
    Books config excuse .idle { world with
      deposits := world.deposits.map fun other => if other.id = row.id then patch.apply now other else other } := by
  have split {later : Deposit} := Api.mem_update books.depositIds member (patch.apply now) later
  have becomes := step.becomes now
  have apart {other : Deposit} {index : Nat} (known : other ∈ world.deposits) (different : other.id ≠ row.id)
      (same : other.network = row.network) (holds : other.derivationIndex = some index)
      (holds' : (patch.apply now row).derivationIndex = some index) : excuse.index row.network index := by
    obtain holds' | free := step.index now holds'
    · obtain rfl | excused := books.apart.rows row member other known same.symm index holds' holds
      · exact absurd rfl different
      · exact excused
    · exact free.rows ⟨other, known, same, holds⟩
  refine books.withDeposits ?_ ?_ ⟨?_, ?_⟩ ?_ ?_ ?_ ?_
  · rw [Api.map_key_update Deposit.id (patch.apply now) _ _ fun _ => rfl]
    exact books.depositIds
  · intro later present
    obtain rfl | ⟨known, -⟩ := split.mp present
    · exact step.staged now (books.staged row member)
    · exact books.staged later known
  · intro first left second right same index holds holds'
    obtain rfl | ⟨left, different⟩ := split.mp left
    · obtain rfl | ⟨right, different⟩ := split.mp right
      · exact .inl rfl
      · exact .inr (apart right different same.symm holds' holds)
    · obtain rfl | ⟨right, -⟩ := split.mp right
      · exact .inr (same ▸ apart left different same holds holds')
      · exact books.apart.rows first left second right same index holds holds'
  · intro later present index holds drawn
    obtain rfl | ⟨known, -⟩ := split.mp present
    · obtain holds | free := step.index now holds
      · exact books.apart.changes row member index holds drawn
      · exact free.changes drawn
    · exact books.apart.changes later known index holds drawn
  · intro other known
    by_cases same : other.id = row.id
    · rw [books.deposit_eq known member same]
      exact ⟨_, split.mpr (.inl rfl), becomes⟩
    · exact ⟨other, split.mpr (.inr ⟨known, same⟩), .refl other⟩
  · intro later present minted
    obtain rfl | ⟨known, -⟩ := split.mp present
    · have mint := step.minted now minted
      exact mint
    · exact books.minted later known minted
  · have kept : Once excuse.mint world.MintMade (fun deposit => ∃ later ∈ world.deposits.map fun other =>
        if other.id = row.id then patch.apply now other else other,
        later.id = deposit ∧ later.status ≠ .minted) phase.deposit := by
      refine books.mintOnce.frame (fun _ _ made => made) ?_
      rintro _ ⟨later, present, rfl, unminted⟩
      obtain rfl | ⟨known, -⟩ := split.mp present
      · exact .inl ⟨row, member, rfl, fun minted => unminted (becomes.minted minted)⟩
      · exact .inl ⟨later, known, rfl, unminted⟩
    rw [here, phaseOf] at kept
    split at kept
    · next marks =>
      refine kept.settle (.inr (.inl ?_))
      rintro ⟨later, present, same, unminted⟩
      obtain rfl | ⟨-, different⟩ := split.mp present
      · exact unminted (by rw [Api.DepositPatch.apply, marks]; rfl)
      · exact different same
    · exact kept
  · rw [here, phaseOf]
    split <;> rfl

theorem WithdrawalStep.settled {row : Withdrawal} {patch : Api.WithdrawalPatch} (now : Nat)
    (step : WithdrawalStep config excuse world row patch) : (patch.apply now row).status ≠ .pending := by
  cases step <;> simp [Api.WithdrawalPatch.apply, failedPatch, completedPatch]

theorem Books.patchWithdrawal {row : Withdrawal} {patch : Api.WithdrawalPatch} (now : Nat) {phase : Phase}
    (books : Books config excuse phase world) (member : row ∈ world.withdrawals) (waits : row.status = .pending)
    (step : WithdrawalStep config excuse world row patch)
    (here : phase = phaseOf (some (.patchWithdrawal row.id patch))) :
    Books config excuse .idle { world with
      withdrawals := world.withdrawals.map fun other =>
        if other.id = row.id then patch.apply now other else other } := by
  have split {later : Withdrawal} := Api.mem_update books.withdrawalIds member (patch.apply now) later
  refine books.withWithdrawals ?_ ?_ ?_ ?_ ?_
  · rw [Api.map_key_update Withdrawal.id (patch.apply now) _ _ fun _ => rfl]
    exact books.withdrawalIds
  · intro later present pending
    obtain rfl | ⟨known, -⟩ := split.mp present
    · exact absurd pending (step.settled now)
    · exact books.unpriced later known pending
  · intro other known
    by_cases same : other.id = row.id
    · rw [books.withdrawal_eq known member same]
      exact ⟨_, split.mpr (.inl rfl), rfl, rfl, rfl, rfl, rfl, fun settled => absurd waits settled⟩
    · exact ⟨other, split.mpr (.inr ⟨known, same⟩), .refl other⟩
  · have kept : Once excuse.payout world.PayoutMade (fun withdrawal => ∃ later ∈ world.withdrawals.map fun other =>
        if other.id = row.id then patch.apply now other else other,
        later.id = withdrawal ∧ later.status ≠ .completed) phase.withdrawal := by
      refine books.payOnce.frame (fun _ _ made => made) ?_
      rintro _ ⟨later, present, rfl, unpaid⟩
      obtain rfl | ⟨known, -⟩ := split.mp present
      · exact .inl ⟨row, member, rfl, by rw [waits]; decide⟩
      · exact .inl ⟨later, known, rfl, unpaid⟩
    rw [here, phaseOf] at kept
    split at kept
    · next marks =>
      -- A completed row is not unpaid any more, so its payout is settled.
      refine kept.settle (.inr (.inl ?_))
      rintro ⟨later, present, same, unpaid⟩
      obtain rfl | ⟨-, different⟩ := split.mp present
      · exact unpaid (by rw [Api.WithdrawalPatch.apply, marks]; rfl)
      · exact different same
    · exact kept
  · rw [here, phaseOf]
    split <;> rfl

/-! ## Transfers -/

theorem sendTransaction_eq {network : Network} {data : Text} {note : MintNote} {sent : Nat × World}
    (done : World.sendTransaction config network data note world = some sent) : ∃ sender,
    config.minter = some sender ∧ (callBytes data).isSome ∧ sent = ((world.l2 network).txs.length,
      world.setL2 network ((world.l2 network).submit
        { hash := 0, sender, recipient := nativeMinter, value := 0, input := data, mint := some note })) := by
  unfold World.sendTransaction at done
  split at done
  · next sender bytes minter spelled =>
    exact ⟨sender, minter, by rw [spelled]; rfl, (Option.some.inj done).symm⟩
  · cases done

/-- The mint call of a confirmed row leaves the process minting it, and this is
its only mint. -/
theorem Books.sendTransaction {network : Network} {data : Text} {note : MintNote} {hash : Nat} {after : World}
    (books : Books config excuse .idle world) (guard : Guard config excuse world (.sendTransaction network data note))
    (done : World.sendTransaction config network data note world = some (hash, after)) :
    Books config excuse (.minting note.deposit) after ∧
      Guard config excuse after (.waitForTransactionReceipt network hash note.deposit) := by
  obtain ⟨row, member, confirmed, mint, -⟩ := guard
  obtain ⟨sender, -, -, same⟩ := sendTransaction_eq done
  obtain ⟨rfl, rfl⟩ := Prod.mk.inj same
  set tx : Tx := { hash := 0, sender, recipient := nativeMinter, value := 0, input := data, mint := some note }
  have waits : world.Unminted note.deposit := ⟨row, member, mint.id, by rw [confirmed]; decide⟩
  -- Every mint afterwards is an old one or the one that is sent.
  have made (other : Network × Nat) (deposit : Nat)
      (left : (world.setL2 network ((world.l2 network).submit tx)).MintMade other deposit) :
      world.MintMade other deposit ∨
        (other = (network, (world.l2 network).txs.length) ∧ deposit = note.deposit) := by
    obtain ⟨found, member, hash, live, mintFor⟩ := left
    by_cases same : other.1 = network
    · rw [World.setL2_l2, same, Function.update_self, Chain.submit_txs] at member
      obtain old | new := List.mem_append.mp member
      · exact .inl ⟨found, same ▸ old, hash, live, mintFor⟩
      · rw [List.mem_singleton] at new
        subst new
        obtain ⟨noted, same', rfl⟩ := mintFor
        cases same'
        exact .inr ⟨Prod.ext same hash.symm, rfl⟩
    · rw [World.setL2_l2, Function.update_of_ne same] at member
      exact .inl ⟨found, member, hash, live, mintFor⟩
  refine ⟨books.withL2 (Chain.submit_numbered (books.chains network) tx) (Chain.submit_grows _ tx) ?_
    (books.mintOnce.make waits _ made) rfl, fun other excused left => ?_⟩
  · intro found member noted same
    obtain old | new := List.mem_append.mp member
    · exact books.mints network found old noted same
    · rw [List.mem_singleton] at new
      subst new
      cases same
      exact ⟨row, ‹_›, by rw [confirmed]; decide, mint⟩
  · exact books.mintOnce.make_only waits (fun made' => (made other _ made').imp_right And.left) excused left

/-- The payout of a pending row leaves the process paying it. -/
theorem Books.broadcast {network : Network} {tx : PayoutTx} {withdrawal : Withdrawal} {ledger : Ledger}
    (books : Books config excuse .idle world) (guard : Guard config excuse world (.broadcast network tx withdrawal))
    (accepted : (world.l1 network).broadcast withdrawal tx = some ledger) :
    Books config excuse (.paying withdrawal.id) (world.setL1 network ledger) ∧
      (world.setL1 network ledger).PayoutMade (network, (world.l1 network).nextTxid) withdrawal.id := by
  obtain ⟨member, waits, drawn⟩ := guard
  have formed := Ledger.broadcast_wellFormed (books.ledgers network) accepted
  have grown := Ledger.broadcast_history accepted
  have paid : ledger.payouts = (world.l1 network).payouts ++ [⟨withdrawal, (world.l1 network).nextTxid, tx⟩] := by
    obtain ⟨-, rfl⟩ := Ledger.broadcast_eq accepted
    rfl
  have due : world.Unpaid withdrawal.id := ⟨withdrawal, member, rfl, by rw [waits]; decide⟩
  refine ⟨books.withL1 formed ?_ ?_ (books.payOnce.make due (network, (world.l1 network).nextTxid) ?_) rfl,
    ⟨withdrawal, (world.l1 network).nextTxid, tx⟩, ?_, rfl, rfl⟩
  · exact fun output known _ => grown.mem_iff.mpr (List.mem_append_left _ known)
  · intro payout made
    rw [paid] at made
    obtain old | new := List.mem_append.mp made
    · exact books.payouts network payout old
    · rw [List.mem_singleton.mp new]
      exact ⟨drawn, withdrawal, member, .refl withdrawal⟩
  · intro other served left
    -- Every payout afterwards is an old one or the one that is broadcast.
    obtain ⟨made, known, txid, same⟩ := left
    by_cases here : other.1 = network
    · rw [World.setL1_l1, here, Function.update_self, paid] at known
      obtain old | new := List.mem_append.mp known
      · exact .inl ⟨made, here ▸ old, txid, same⟩
      · rw [List.mem_singleton] at new
        subst new
        exact .inr ⟨Prod.ext here txid.symm, same.symm⟩
    · rw [World.setL1_l1, Function.update_of_ne here] at known
      exact .inl ⟨made, known, txid, same⟩
  · rw [World.setL1_l1, Function.update_self, paid]
    exact List.mem_append_right _ (List.mem_singleton_self _)

/-! ## Leaving a settlement -/

theorem Books.leaveMint {deposit : Nat} (books : Books config excuse (.minting deposit) world)
    (done : excuse.mint deposit ∨ ∀ mint, ¬ world.MintMade mint deposit) : Books config excuse .idle world :=
  { books with mintOnce := books.mintOnce.settle (done.imp_right .inr) }

theorem Books.leavePayout {withdrawal : Nat} (books : Books config excuse (.paying withdrawal) world)
    (excused : excuse.payout withdrawal) : Books config excuse .idle world :=
  { books with payOnce := books.payOnce.settle (.inl excused) }

/-- A permitted restart finds the books idle. -/
theorem Books.restart {waiting : Option Call} (books : Books config excuse (phaseOf waiting) world)
    (allowed : (excuse.permits config).restart world waiting) : Books config excuse .idle world := by
  cases phase : phaseOf waiting with
  | idle => rwa [phase] at books
  | minting deposit =>
    rw [phase] at books
    exact books.leaveMint (.inl (allowed.1 deposit phase))
  | paying withdrawal =>
    rw [phase] at books
    exact books.leavePayout (allowed.2 withdrawal phase)

/-! ## Answers -/

section
variable {phase : Phase} {fate : Fate} {after : World}

theorem Books.patchDeposit_answer {id : Nat} {patch : Api.DepositPatch} {reply : Option Unit}
    (books : Books config excuse phase world) (here : phaseOf (some (.patchDeposit id patch)) = phase)
    (guard : Guard config excuse world (.patchDeposit id patch))
    (allowed : (excuse.permits config).answer world (.patchDeposit id patch) fate)
    (answered : World.perform config (.patchDeposit id patch) fate world = some (reply, after)) :
    Books config excuse .idle after ∧ ((after = world ∧ reply = none) ∨
      after = { world with deposits := world.deposits.map fun other =>
        if other.id = id then patch.apply world.clock other else other }) := by
  obtain ⟨done, present, same, -⟩ | ⟨refused, rfl, nothing⟩ := World.write_eq answered
  · obtain ⟨deposits, patched, rfl⟩ := Option.map_eq_some_iff.mp present
    rw [Api.patchDeposit_eq patched] at same
    obtain ⟨row, member, rfl, step⟩ := guard
    subst same
    exact ⟨books.patchDeposit world.clock member step here.symm, .inr rfl⟩
  · -- A refused mark leaves its mint behind, where the condition allows that.
    refine ⟨?_, .inl ⟨rfl, nothing⟩⟩
    rw [← here, phaseOf] at books
    split at books
    · next marks => exact books.leaveMint (.inl (allowed refused marks))
    · exact books

theorem Books.patchWithdrawal_answer {id : Nat} {patch : Api.WithdrawalPatch} {reply : Option Unit}
    (books : Books config excuse phase world) (here : phaseOf (some (.patchWithdrawal id patch)) = phase)
    (guard : Guard config excuse world (.patchWithdrawal id patch))
    (allowed : (excuse.permits config).answer world (.patchWithdrawal id patch) fate)
    (answered : World.perform config (.patchWithdrawal id patch) fate world = some (reply, after)) :
    Books config excuse .idle after ∧ (after = world ∨
      after = { world with withdrawals := world.withdrawals.map fun other =>
        if other.id = id then patch.apply world.clock other else other }) := by
  obtain ⟨done, present, same, -⟩ | ⟨refused, rfl, nothing⟩ := World.write_eq answered
  · obtain ⟨withdrawals, patched, rfl⟩ := Option.map_eq_some_iff.mp present
    rw [Api.patchWithdrawal_eq patched] at same
    obtain ⟨row, member, rfl, waits, step⟩ := guard
    subst same
    exact ⟨books.patchWithdrawal world.clock member waits step here.symm, .inr rfl⟩
  · -- A refused mark leaves its payout behind, where the condition allows that.
    refine ⟨?_, .inl rfl⟩
    rw [← here, phaseOf] at books
    split at books
    · next marks => exact books.leavePayout (allowed refused marks)
    · exact books

theorem Books.sendTransaction_answer {network : Network} {data : Text} {note : MintNote} {reply : Option Nat}
    (books : Books config excuse .idle world) (guard : Guard config excuse world (.sendTransaction network data note))
    (allowed : (excuse.permits config).answer world (.sendTransaction network data note) fate)
    (answered : World.perform config (.sendTransaction network data note) fate world = some (reply, after)) :
    after.deposits = world.deposits ∧ ((reply = none ∧ Books config excuse .idle after) ∨
      ∃ hash, reply = some hash ∧ Books config excuse (.minting note.deposit) after ∧
        Guard config excuse after (.waitForTransactionReceipt network hash note.deposit) ∧
        ∃ tx ∈ (after.l2 network).txs, tx.hash = hash ∧ tx.MintFor note.deposit) := by
  obtain ⟨⟨hash, later⟩, present, rfl, found⟩ | ⟨-, rfl, nothing⟩ := World.write_eq answered
  · have sent := books.sendTransaction guard present
    obtain ⟨sender, -, -, same⟩ := sendTransaction_eq present
    obtain ⟨rfl, rfl⟩ := Prod.mk.inj same
    refine ⟨rfl, ?_⟩
    obtain ⟨-, found⟩ | ⟨lost, nothing⟩ := found
    · refine .inr ⟨_, found, sent.1, sent.2, ⟨(world.l2 network).txs.length, sender, nativeMinter, 0, data, .pending,
        some note⟩, ?_, rfl, note, rfl, rfl⟩
      rw [World.setL2_l2, Function.update_self, Chain.submit_txs]
      exact List.mem_append_right _ (List.mem_singleton_self _)
    · -- The mint was sent, but its hash is lost.
      exact .inl ⟨nothing, sent.1.leaveMint (.inl (allowed lost))⟩
  · exact ⟨rfl, .inl ⟨nothing, books⟩⟩

theorem Books.broadcast_answer {network : Network} {tx : PayoutTx} {withdrawal : Withdrawal} {reply : Option Nat}
    (books : Books config excuse .idle world) (guard : Guard config excuse world (.broadcast network tx withdrawal))
    (allowed : (excuse.permits config).answer world (.broadcast network tx withdrawal) fate)
    (answered : World.perform config (.broadcast network tx withdrawal) fate world = some (reply, after)) :
    (after = world ∨ ∃ ledger, (world.l1 network).broadcast withdrawal tx = some ledger ∧
        after = world.setL1 network ledger) ∧
      ((reply = none ∧ Books config excuse .idle after) ∨ ∃ txid, reply = some txid ∧
        Books config excuse (.paying withdrawal.id) after ∧ after.PayoutMade (network, txid) withdrawal.id) := by
  obtain ⟨done, present, rfl, found⟩ | ⟨-, rfl, nothing⟩ := World.write_eq answered
  · obtain ⟨ledger, accepted, rfl⟩ := Option.map_eq_some_iff.mp present
    obtain ⟨paying, made⟩ := books.broadcast guard accepted
    refine ⟨.inr ⟨ledger, accepted, rfl⟩, ?_⟩
    obtain ⟨-, found⟩ | ⟨lost, nothing⟩ := found
    · exact .inr ⟨_, found, paying, made⟩
    · -- The payout was made, but its id is lost.
      exact .inl ⟨nothing, paying.leavePayout (allowed lost)⟩
  · exact ⟨.inl rfl, .inl ⟨nothing, books⟩⟩

/-- A receipt says what the transaction came to; without one the mint is excused. -/
theorem Books.receipt_answer {network : Network} {hash deposit : Nat} {reply : Option TxStatus}
    (books : Books config excuse (.minting deposit) world)
    (guard : Guard config excuse world (.waitForTransactionReceipt network hash deposit))
    (allowed : (excuse.permits config).answer world (.waitForTransactionReceipt network hash deposit) fate)
    (answered : World.perform config (.waitForTransactionReceipt network hash deposit) fate world =
      some (reply, after)) :
    after = world ∧ ((reply ≠ some .success ∧ Books config excuse .idle world) ∨
      (reply = some .success ∧ ∃ tx ∈ (world.l2 network).txs, tx.hash = hash ∧ tx.status = .success)) := by
  cases fate with
  | lost =>
    cases answered
    exact ⟨rfl, .inl ⟨nofun, books.leaveMint (.inl (allowed (by decide)))⟩⟩
  | refused =>
    cases answered
    exact ⟨rfl, .inl ⟨nofun, books.leaveMint (.inl (allowed (by decide)))⟩⟩
  | ok =>
    obtain ⟨status, present, same⟩ := Option.map_eq_some_iff.mp answered
    obtain ⟨rfl, rfl⟩ := Prod.mk.inj same
    refine ⟨rfl, ?_⟩
    obtain ⟨tx, found, settled⟩ := Option.bind_eq_some_iff.mp present
    obtain ⟨member, rfl⟩ := Chain.find_mem found
    split at settled
    · cases settled
    · next waits =>
      cases settled
      cases outcome : tx.status with
      | pending => exact absurd outcome waits
      | success => exact .inr ⟨rfl, tx, member, rfl, outcome⟩
      | reverted =>
        refine .inl ⟨nofun, ?_⟩
        by_cases excused : excuse.mint deposit
        · exact books.leaveMint (.inl excused)
        · -- The only mint of the deposit is the reverted one.
          refine books.leaveMint (.inr fun mint made => ?_)
          obtain rfl := guard mint excused made
          obtain ⟨other, known, same, live, -⟩ := made
          exact live ((books.chains network).eq_of_hash known member same ▸ outcome)

end

/-! ## What an answer may change -/

/-- The worlds that a call may leave: as it was, or with its effect. -/
inductive Effect (config : Config) (world : World) : Call → Fate → World → Prop where
  | nothing (call : Call) (fate : Fate) : Effect config world call fate world
  | checkin (fate : Fate) : Effect config world .checkin fate { world with lastCheckin := some world.clock }
  | change (network : Network) : Effect config world (.now (.change network)) .ok
      { world with changes := world.changes ++ [(network, clockIndex world.clock)] }
  | patchDeposit (id : Nat) (patch : Api.DepositPatch) (fate : Fate) : fate ≠ .refused →
      Effect config world (.patchDeposit id patch) fate { world with
        deposits := world.deposits.map fun other =>
          if other.id = id then patch.apply world.clock other else other }
  | patchWithdrawal (id : Nat) (patch : Api.WithdrawalPatch) (fate : Fate) : fate ≠ .refused →
      Effect config world (.patchWithdrawal id patch) fate { world with
        withdrawals := world.withdrawals.map fun other =>
          if other.id = id then patch.apply world.clock other else other }
  | sendTransaction (network : Network) (data : Text) (note : MintNote) (sender : Nat) (fate : Fate) :
      fate ≠ .refused → config.minter = some sender → (callBytes data).isSome →
      Effect config world (.sendTransaction network data note) fate
        (world.setL2 network ((world.l2 network).submit
          { hash := 0, sender, recipient := nativeMinter, value := 0, input := data, mint := some note }))
  | broadcast (network : Network) (tx : PayoutTx) (withdrawal : Withdrawal) (ledger : Ledger) (fate : Fate) :
      fate ≠ .refused → (world.l1 network).broadcast withdrawal tx = some ledger →
      Effect config world (.broadcast network tx withdrawal) fate (world.setL1 network ledger)

theorem perform_effect {call : Call} {fate : Fate} {reply : Reply call} {after : World}
    (answered : World.perform config call fate world = some (reply, after)) :
    Effect config world call fate after := by
  have carried {α : Type} {done : α × World} {reply : Option α}
      (found : (fate = .ok ∧ reply = some done.1) ∨ (fate = .lost ∧ reply = none)) : fate ≠ .refused := by
    rintro rfl
    obtain ⟨same, -⟩ | ⟨same, -⟩ := found <;> cases same
  cases call with
  | checkin =>
    obtain ⟨done, present, rfl, -⟩ | ⟨-, rfl, -⟩ := World.write_eq answered
    · cases present
      exact .checkin fate
    · exact .nothing _ _
  | patchDeposit id patch =>
    obtain ⟨done, present, same, found⟩ | ⟨-, rfl, -⟩ := World.write_eq answered
    · obtain ⟨deposits, patched, rfl⟩ := Option.map_eq_some_iff.mp present
      rw [Api.patchDeposit_eq patched] at same
      subst same
      exact .patchDeposit id patch fate (carried found)
    · exact .nothing _ _
  | patchWithdrawal id patch =>
    obtain ⟨done, present, same, found⟩ | ⟨-, rfl, -⟩ := World.write_eq answered
    · obtain ⟨withdrawals, patched, rfl⟩ := Option.map_eq_some_iff.mp present
      rw [Api.patchWithdrawal_eq patched] at same
      subst same
      exact .patchWithdrawal id patch fate (carried found)
    · exact .nothing _ _
  | sendTransaction network data note =>
    obtain ⟨done, present, rfl, found⟩ | ⟨-, rfl, -⟩ := World.write_eq answered
    · obtain ⟨sender, minter, spelled, rfl⟩ := sendTransaction_eq present
      exact .sendTransaction network data note sender fate (carried found) minter spelled
    · exact .nothing _ _
  | broadcast network tx withdrawal =>
    obtain ⟨done, present, rfl, found⟩ | ⟨-, rfl, -⟩ := World.write_eq answered
    · obtain ⟨ledger, accepted, rfl⟩ := Option.map_eq_some_iff.mp present
      exact .broadcast network tx withdrawal ledger fate (carried found) accepted
    · exact .nothing _ _
  | now reading =>
    cases fate <;> cases reading <;> cases answered
    · exact .nothing _ _
    · exact .change _
    · exact .nothing _ _
  | waitForTransactionReceipt network hash deposit =>
    cases fate with
    | ok =>
      obtain ⟨status, -, same⟩ := Option.map_eq_some_iff.mp answered
      cases same
      exact .nothing _ _
    | _ => cases answered; exact .nothing _ _
  | getTransaction network hash => cases fate <;> cases answered <;> exact .nothing _ _
  | _ =>
    obtain ⟨rfl, -⟩ := World.read_eq answered
    exact .nothing _ _

/-- A mint of the federation was there before the call, or is sent by it. -/
theorem Effect.mint {call : Call} {fate : Fate} {after : World} (effect : Effect config world call fate after)
    {network : Network} {tx : Tx} {note : MintNote} (member : tx ∈ (after.l2 network).txs) (noted : tx.mint = some note) :
    tx ∈ (world.l2 network).txs ∨ (call = .sendTransaction network tx.input note ∧ fate ≠ .refused ∧
      (world.l2 network).txs.length = tx.hash ∧ (callBytes tx.input).isSome) := by
  cases effect with
  | sendTransaction home data sent sender _ carried minter spelled =>
    by_cases here : network = home
    · subst here
      rw [World.setL2_l2, Function.update_self, Chain.submit_txs] at member
      obtain old | new := List.mem_append.mp member
      · exact .inl old
      · rw [List.mem_singleton] at new
        subst new
        obtain rfl : sent = note := Option.some.inj noted
        exact .inr ⟨rfl, carried, rfl, spelled⟩
    · rw [World.setL2_l2, Function.update_of_ne here] at member
      exact .inl member
  | _ => exact .inl member

/-- A step has the effect of the answered call, or keeps the books and adds to the
world as events do. -/
theorem step_effect {state next : State World Reply} {action : Action Fate Event} {phase : Phase}
    (books : Books config excuse phase state.world) (stepped : (federation config).step state action = some next) :
    (∃ fate call, action = .answer fate ∧ state.waiting = some call ∧
      Effect config state.world call fate next.world) ∨
    (Books config excuse phase next.world ∧ state.world.Grows next.world) := by
  obtain ⟨fate, call, rest, reply, rfl, running, performed, -⟩ | ⟨event, rfl, happened, -⟩ | ⟨same, -⟩ :=
    System.step_cases stepped
  · exact .inl ⟨fate, call, rfl, by rw [State.waiting, running]; rfl, perform_effect performed⟩
  · exact .inr (books.happen happened)
  · rw [same]
    exact .inr ⟨books, .refl _⟩

end Snowside
