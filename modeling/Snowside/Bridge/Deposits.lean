import Snowside.Bridge.Turns

/-! The outline of the deposit half of a turn. -/

set_option autoImplicit false

namespace Snowside

open Interaction

variable {config : Config} {excuse : Excuse} {world : World}

/-- Deposit rows still to be handled. -/
abbrev ToDo (rows : List Deposit) (world : World) : Prop := Listed Deposit.id rows world.deposits

theorem ToDo.kept (rows : List Deposit) : Kept config excuse (ToDo rows) :=
  .of_grows fun _ _ grows listed => listed.mono grows.deposits

/-! ## Assigning an address -/

theorem assign_keeps {row : Deposit} {rest : List Deposit} (books : Books config excuse .idle world)
    (listed : ToDo (row :: rest) world) (blank : row.ecashAddress = none) :
    Keeps config excuse (assignDepositAddress config row)
      (fun _ world => Books config excuse .idle world ∧ ToDo rest world) world := by
  rw [assignDepositAddress, blank]
  refine Keeps.ask (ToDo (row :: rest)) books rfl listed (ToDo.kept _) (fun _ _ _ => trivial) ?_
  rintro world fate now after books listed - allowed read
  obtain ⟨rfl, stamp⟩ : after = world ∧ now = world.clock := by
    cases fate <;> cases read
    exact ⟨rfl, rfl⟩
  split
  · exact ⟨books, listed.tail⟩
  · next wallet wallets =>
    have free : FreeIndex excuse after row.network (clockIndex now) := by
      rw [stamp]
      exact allowed
    refine Keeps.ask (fun world => ToDo (row :: rest) world ∧
        FreeIndex excuse world row.network (clockIndex now)) books rfl ⟨listed, free⟩ ?_ ?_ ?_
    · refine .of_grows fun before after grows holds => ?_
      refine ⟨holds.1.mono grows.deposits, fun taken => holds.2.rows (grows.held taken), fun taken => ?_⟩
      exact holds.2.changes (by rwa [grows.changes] at taken)
    · rintro world books ⟨listed, free⟩
      have member := listed.head
      cases books.staged row member with
      | blank pending _ index amount =>
        exact ⟨row, member, rfl, .assign wallet (clockIndex now) pending blank index amount wallets
          (Nat.mod_lt _ (by decide)) free⟩
      | assigned _ _ _ _ address => rw [blank] at address; cases address
    · rintro world fate reply after books ⟨listed, -⟩ guard allowed answered
      obtain ⟨idle, ⟨rfl, -⟩ | rfl⟩ := books.patchDeposit_answer rfl guard allowed answered
      · exact ⟨idle, listed.tail⟩
      · exact ⟨idle, listed.tail.update listed.apart _⟩

/-! ## Looking for payments -/

/-- Unspent confirmed outputs at the row's address, as they were counted. -/
structure Seen (row : Deposit) (result : Received) (world : World) : Prop where
  distinct : (result.counted.map Output.point).Nodup
  amount : result.amount = total result.counted
  counted : ∀ output ∈ result.counted, output ∈ (world.l1 row.network).unspent ∧ output.height ≠ none ∧
    row.ecashAddress = some output.address

theorem Seen.kept (row : Deposit) (result : Received) : Kept config excuse (Seen row result) :=
  .of_grows fun _ _ grows seen => ⟨seen.distinct, seen.amount, fun output member => by
    obtain ⟨unspent, confirmed, address⟩ := seen.counted output member
    exact ⟨grows.unspent _ unspent confirmed, confirmed, address⟩⟩

theorem check_keeps {row : Deposit} {rest : List Deposit} {address : Text}
    (books : Books config excuse .idle world) (listed : ToDo (row :: rest) world)
    (assigned : row.ecashAddress = some address) :
    Keeps config excuse (checkAddressForDeposits config row.network address)
      (fun found world => Books config excuse .idle world ∧ ToDo (row :: rest) world ∧
        ∀ result, found = some result → Seen row result world) world := by
  have clean : cleanAddress address = address := by
    cases books.staged row (listed.head) with
    | blank _ blank => rw [blank] at assigned; cases assigned
    | assigned wallet index _ _ derived =>
      rw [derived] at assigned
      cases assigned
      exact cleanAddress_derived wallet _ _
  simp only [checkAddressForDeposits, getTipHeight, Program.call_bind, Program.ask_bind, Program.pure_eq,
    Program.done_bind]
  -- The height of the tip is read first, then the outputs of the address.
  refine Keeps.ask (ToDo (row :: rest)) books rfl listed (ToDo.kept _) (fun _ _ _ => trivial) ?_
  rintro world fate height after books listed - - answered
  obtain ⟨rfl, -⟩ := World.read_eq answered
  split
  · exact ⟨books, listed, fun _ found => by cases found⟩
  split
  · exact ⟨books, listed, fun _ found => by cases found⟩
  refine Keeps.ask (ToDo (row :: rest)) books rfl listed (ToDo.kept _) (fun _ _ _ => trivial) ?_
  rintro world fate utxos after books listed - - answered
  obtain ⟨rfl, found⟩ := World.read_eq answered
  have seen : ∀ output ∈ confirmedOutputs config row.network (height.getD 0) (utxos.getD []),
      output ∈ (after.l1 row.network).unspent ∧ output.height ≠ none ∧ row.ecashAddress = some output.address := by
    intro output member
    obtain ⟨member, confirmed⟩ := List.mem_filter.mp member
    obtain rfl | rfl := found
    · obtain ⟨unspent, same⟩ := List.mem_filter.mp member
      refine ⟨unspent, fun waiting => by simp [waiting] at confirmed, ?_⟩
      rw [assigned, of_decide_eq_true same, clean]
    · cases member
  have distinct : ((confirmedOutputs config row.network (height.getD 0) (utxos.getD [])).map Output.point).Nodup := by
    obtain rfl | rfl := found
    · exact (books.ledgers row.network).unspent_nodup.sublist
        ((List.filter_sublist.trans List.filter_sublist).map Output.point)
    · exact List.nodup_nil
  split
  · exact ⟨books, listed, fun _ found => by cases found⟩
  · next first others shape =>
    rw [shape] at seen distinct
    refine ⟨books, listed, fun result same => ?_⟩
    cases same
    exact ⟨distinct, rfl, seen⟩

/-! ## Minting -/

/-- The row has become a confirmed one. -/
def Ready (row : Deposit) (world : World) : Prop :=
  ∃ later ∈ world.deposits, row.Becomes later ∧ later.status = .confirmed

theorem Ready.kept (row : Deposit) : Kept config excuse (Ready row) :=
  .of_grows fun _ _ grows ⟨later, member, ready⟩ => ⟨later, grows.deposits member, ready⟩

/-- A mint of the deposit with the given hash. -/
def Sent (network : Network) (hash deposit : Nat) (world : World) : Prop :=
  ∃ tx ∈ (world.l2 network).txs, tx.hash = hash ∧ tx.MintFor deposit

theorem Sent.kept (network : Network) (hash deposit : Nat) : Kept config excuse (Sent network hash deposit) := by
  refine .of_grows ?_
  rintro before after grows ⟨tx, member, same, mintFor⟩
  obtain ⟨later, present, becomes⟩ := grows.txs network tx member
  exact ⟨later, present, becomes.hash.trans same, becomes.mintFor.mpr mintFor⟩

theorem Guard.receipt_kept (network : Network) (hash deposit : Nat) :
    Kept config excuse fun world => Guard config excuse world (.waitForTransactionReceipt network hash deposit) :=
  .of_grows fun _ _ grows guard mint excused made => guard mint excused (grows.mintMade made)

/-- A mint of the deposit that succeeded. -/
def Succeeded (network : Network) (hash deposit : Nat) (world : World) : Prop :=
  ∃ tx ∈ (world.l2 network).txs, tx.hash = hash ∧ tx.status = .success ∧ tx.MintFor deposit

theorem Succeeded.kept (network : Network) (hash deposit : Nat) : Kept config excuse (Succeeded network hash deposit) := by
  refine .of_grows ?_
  rintro before after grows ⟨tx, member, same, success, mintFor⟩
  obtain ⟨later, present, becomes⟩ := grows.txs network tx member
  exact ⟨later, present, becomes.hash.trans same,
    (becomes.status (by rw [success]; decide)).trans success, becomes.mintFor.mpr mintFor⟩

/-- What `mintEcx` leaves: a hash stands for a successful mint of the row, and
without one no mint of it is left open. -/
def AfterMint (config : Config) (excuse : Excuse) (row : Deposit) (rest : List Deposit) :
    Option Nat → World → Prop
  | none, world => Books config excuse .idle world ∧ ToDo rest world
  | some hash, world => Books config excuse (.minting row.id) world ∧ ToDo rest world ∧ Ready row world ∧
      Succeeded row.network hash row.id world

theorem mintEcx_keeps {row : Deposit} {rest : List Deposit} {result : Received}
    (books : Books config excuse .idle world) (listed : ToDo rest world)
    (ready : Ready row world) (seen : Seen row result world) :
    Keeps config excuse
      (mintEcx config row.network row.snowsideAddress ⟨row.id, result.amount, result.counted⟩)
      (AfterMint config excuse row rest) world := by
  rw [mintEcx]
  split
  · exact ⟨books, listed⟩
  simp only [Program.call_bind, Program.pure_eq]
  -- The outputs that the mint counts are still unspent when it is sent.
  refine Keeps.ask (fun world => ToDo rest world ∧ Ready row world ∧ Seen row result world) books rfl
    ⟨listed, ready, seen⟩ ((ToDo.kept _).and ((Ready.kept _).and (Seen.kept _ _))) ?_ ?_
  · rintro world - ⟨-, ⟨later, member, becomes, confirmed⟩, seen⟩
    refine ⟨later, member, confirmed, ⟨becomes.id, becomes.network, ?_, seen.amount, seen.distinct, ?_⟩, ?_⟩
    · rw [becomes.snowsideAddress]
    · intro output counted
      obtain ⟨unspent, height, address⟩ := seen.counted output counted
      exact ⟨List.mem_append_left _ unspent, height,
        (becomes.ecashAddress (by rw [address]; rfl)).trans address⟩
    · exact fun output counted => (seen.counted output counted).1
  rintro world fate sent after books ⟨listed, ⟨later, member, ready⟩, -⟩ guard allowed answered
  obtain ⟨same, ⟨rfl, books⟩ | ⟨hash, rfl, books, only, made⟩⟩ :=
    books.sendTransaction_answer guard allowed answered
  · exact ⟨books, listed.ids, same ▸ listed.known⟩
  -- While the receipt is waited for, the mint stays the only one of its row.
  refine Keeps.ask (fun world => (ToDo rest world ∧ Ready row world ∧ Sent row.network hash row.id world) ∧
      Guard config excuse world (.waitForTransactionReceipt row.network hash row.id)) books rfl
    ⟨⟨⟨listed.ids, same ▸ listed.known⟩, ⟨later, same ▸ member, ready⟩, made⟩, only⟩
    (((ToDo.kept _).and ((Ready.kept _).and (Sent.kept _ _ _))).and (Guard.receipt_kept _ _ _))
    (fun _ _ holds => holds.2) ?_
  rintro world fate status after books ⟨⟨listed, ready, tx, known, rfl, mintFor⟩, -⟩ guard allowed answered
  obtain ⟨rfl, ⟨unsuccessful, idle⟩ | ⟨rfl, tx', known', same, success⟩⟩ :=
    books.receipt_answer guard allowed answered
  · split
    · exact absurd rfl unsuccessful
    · exact ⟨idle, listed⟩
  · -- Hashes are unique, so the receipt is that of the mint.
    have same := (books.chains row.network).eq_of_hash known' known same
    subst same
    exact ⟨books, listed, ready, tx', known, rfl, success, mintFor⟩

theorem mint_keeps {row : Deposit} {rest : List Deposit} {result : Received}
    (books : Books config excuse .idle world) (listed : ToDo rest world) (apart : row.id ∉ rest.map Deposit.id)
    (ready : Ready row world) (seen : Seen row result world) :
    Keeps config excuse (mintDeposit config row result)
      (fun _ world => Books config excuse .idle world ∧ ToDo rest world) world := by
  rw [mintDeposit]
  refine Outline.bind ((mintEcx_keeps books listed ready seen).mono ?_)
  -- Without a hash the row keeps its status.
  rintro (_ | hash) world left
  · exact left
  obtain ⟨books, listed, ready, succeeded⟩ := left
  refine Keeps.ask (fun world => ToDo rest world ∧ Ready row world ∧ Succeeded row.network hash row.id world)
    books rfl ⟨listed, ready, succeeded⟩
    ((ToDo.kept _).and ((Ready.kept _).and (Succeeded.kept _ _ _))) ?_ ?_
  · rintro world - ⟨-, ⟨later, member, becomes, confirmed⟩, tx, known, rfl, success, mintFor⟩
    refine ⟨later, member, becomes.id, .mint _ tx confirmed ?_ success ?_⟩
    · rw [becomes.network]
      exact known
    · rw [becomes.id]
      exact mintFor
  · rintro world fate reply after books ⟨listed, -⟩ guard allowed answered
    obtain ⟨idle, ⟨rfl, -⟩ | rfl⟩ := books.patchDeposit_answer rfl guard allowed answered
    · exact ⟨idle, listed⟩
    · exact ⟨idle, listed.update apart _⟩

theorem process_keeps {row : Deposit} {rest : List Deposit} (books : Books config excuse .idle world)
    (listed : ToDo (row :: rest) world) :
    Keeps config excuse (processDeposit config row)
      (fun _ world => Books config excuse .idle world ∧ ToDo rest world) world := by
  rw [processDeposit]
  split
  · exact ⟨books, listed.tail⟩
  next address assigned =>
  split
  · exact ⟨books, listed.tail⟩
  next unminted =>
  refine Outline.bind ((check_keeps books listed assigned).mono ?_)
  rintro (_ | result) world ⟨books, listed, found⟩
  · exact ⟨books, listed.tail⟩
  have seen := found result rfl
  simp only
  split
  · -- A pending row is confirmed first; its mint follows if the answer came.
    next pending =>
    refine Keeps.ask (fun world => ToDo (row :: rest) world ∧ Seen row result world) books rfl ⟨listed, seen⟩
      ((ToDo.kept _).and (Seen.kept _ _)) ?_ ?_
    · rintro world - ⟨listed, -⟩
      exact ⟨row, listed.head, rfl, .confirm result pending (by rw [assigned]; rfl)⟩
    · rintro world fate reply after books ⟨listed, seen⟩ guard allowed answered
      have member := listed.head
      have step : DepositStep config excuse world row (confirmedPatch result) :=
        .confirm result pending (by rw [assigned]; rfl)
      obtain ⟨idle, ⟨rfl, rfl⟩ | rfl⟩ := books.patchDeposit_answer rfl guard allowed answered
      · exact ⟨idle, listed.tail⟩
      · have others := listed.tail.update listed.apart ((confirmedPatch result).apply world.clock)
        cases reply with
        | none => exact ⟨idle, others⟩
        | some _ =>
          exact mint_keeps idle others listed.apart
            ⟨_, (Api.mem_update books.depositIds member _ _).mpr (.inl rfl), step.becomes world.clock, rfl⟩
            ⟨seen.distinct, seen.amount, seen.counted⟩
  · -- A row that is neither pending nor minted is confirmed.
    next settled =>
    have confirmed : row.status = .confirmed := by
      cases stage : row.status with
      | pending => exact absurd stage settled
      | confirmed => rfl
      | minted => exact absurd stage unminted
    exact mint_keeps books listed.tail listed.apart
      ⟨row, listed.head, .refl row, confirmed⟩ seen

/-- The deposit half of a turn. -/
theorem processPendingDeposits_keeps (books : Books config excuse .idle world) :
    Keeps config excuse (processPendingDeposits config) (fun _ => Books config excuse .idle) world := by
  rw [processPendingDeposits]
  simp only [Program.call_bind]
  refine Keeps.ask (fun _ => True) books rfl trivial (.trivially) (fun _ _ _ => trivial) ?_
  rintro world fate rows after books - - - answered
  obtain ⟨rfl, found⟩ := World.read_eq answered
  have listed : ToDo (rows.getD []) after := by
    obtain rfl | rfl := found
    · exact .of_sorted books.depositIds _ _
    · exact ⟨List.nodup_nil, fun _ member => absurd member List.not_mem_nil⟩
  -- The invariant of the loop is that the rows to come still stand in the table.
  refine (Outline.forEach (fun rest world => Books config excuse .idle world ∧ ToDo rest world)
    ?_ _ ⟨books, listed⟩).mono fun _ _ left => left.1
  rintro row rest world ⟨books, listed⟩
  rw [handleDeposit]
  split
  · next blank => exact assign_keeps books listed blank
  · exact process_keeps books listed

end Snowside
