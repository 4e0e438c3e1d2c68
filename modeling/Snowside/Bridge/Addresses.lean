import Snowside.Bridge.Minting

/-! Which row an address belongs to. -/

set_option autoImplicit false

namespace Snowside

open Interaction

/-- Each index of a network goes to one deposit and to no change address. -/
structure SinglePurpose (config : Config) (world : World) : Prop where
  indices : ∀ first ∈ world.deposits, ∀ second ∈ world.deposits, first.network = second.network →
    ∀ index, first.derivationIndex = some index → second.derivationIndex = some index → first = second
  addresses : ∀ first ∈ world.deposits, ∀ second ∈ world.deposits, first.network = second.network →
    ∀ address, first.ecashAddress = some address → second.ecashAddress = some address → first = second
  changes : ∀ wallet, config.wallet = some wallet → ∀ change ∈ world.changes, ∀ row ∈ world.deposits,
    row.network = change.1 → row.ecashAddress ≠ some (wallet.deriveDepositAddress change.1 change.2)
  counted : ∀ network, ∀ first ∈ (world.l2 network).txs, ∀ second ∈ (world.l2 network).txs, ∀ left right,
    first.mint = some left → second.mint = some right → ∀ output ∈ left.counted, ∀ other ∈ right.counted,
    output.point = other.point → left.deposit = right.deposit

namespace Excuse

/-- Only the indices are kept account of. -/
def allButIndices : Excuse := ⟨fun _ => True, fun _ => True, fun _ _ => False, fun _ _ => False, fun _ => True⟩

theorem indicesFresh_rows : indicesFresh.Implies rowsFresh where
  answer world call fate fresh := by
    cases call with
    | now reading =>
      cases reading with
      | deposit network => exact fresh.1
      | _ => trivial
    | _ => trivial
  event _ _ _ := trivial
  restart _ _ _ := trivial

theorem indicesFresh_permits (config : Config) : indicesFresh.Implies (allButIndices.permits config) :=
  permits_of (fun _ kept => absurd trivial kept) (fun _ kept => absurd trivial kept) (.inr indicesFresh_rows)
    (.inr (.refl _)) (.inl fun _ => trivial)

end Excuse

section
variable {config : Config} {excuse : Excuse} {phase : Phase} {world : World}

/-- The index behind an address. -/
theorem Books.index_of_address (books : Books config excuse phase world) {row : Deposit}
    (member : row ∈ world.deposits) {address : Text} (assigned : row.ecashAddress = some address) :
    ∃ wallet index, config.wallet = some wallet ∧ index < indexLimit ∧ row.derivationIndex = some index ∧
      address = wallet.deriveDepositAddress row.network index := by
  cases books.staged row member with
  | blank _ blank => rw [blank] at assigned; cases assigned
  | assigned wallet index wallets small derived holds =>
    exact ⟨wallet, index, wallets, small, holds, Option.some.inj (assigned.symm.trans derived)⟩

/-- Rows that share an address share its index. -/
theorem Books.row_of_address (books : Books config excuse phase world)
    (kept : ∀ network index, ¬ excuse.index network index) {first second : Deposit}
    (left : first ∈ world.deposits) (right : second ∈ world.deposits) (same : first.network = second.network)
    {address : Text} (holds : first.ecashAddress = some address) (holds' : second.ecashAddress = some address) :
    first = second := by
  obtain ⟨wallet, index, wallets, small, held, rfl⟩ := books.index_of_address left holds
  obtain ⟨wallet', index', wallets', small', held', derived⟩ := books.index_of_address right holds'
  obtain rfl := Option.some.inj (wallets.symm.trans wallets')
  rw [same] at derived
  obtain rfl := wallet.deriveDepositAddress_injective small small' derived
  exact (books.apart.rows first left second right same index held held').resolve_right (kept _ _)

theorem Books.singlePurpose (books : Books config excuse phase world)
    (kept : ∀ network index, ¬ excuse.index network index)
    (apart : ∀ network index, ¬ excuse.change network index) : SinglePurpose config world where
  indices first left second right same index held held' :=
    (books.apart.rows first left second right same index held held').resolve_right (kept _ _)
  addresses first left second right same address holds holds' :=
    books.row_of_address kept left right same holds holds'
  changes wallet wallets change drawn row member same holds := by
    obtain ⟨wallet', index, wallets', small, held, derived⟩ := books.index_of_address member holds
    obtain rfl := Option.some.inj (wallets.symm.trans wallets')
    rw [same] at derived
    have equal := wallet.deriveDepositAddress_injective (books.drawn change drawn) small derived
    refine apart row.network index (books.apart.changes row member index held ?_)
    rw [same, ← equal]
    exact drawn
  counted network first known second known' left right noted noted' output counted other counted' same := by
    obtain ⟨row, member, -, mint⟩ := books.mints network first known left noted
    obtain ⟨row', member', -, mint'⟩ := books.mints network second known' right noted'
    obtain ⟨history, -, address⟩ := mint.counted output counted
    obtain ⟨history', -, address'⟩ := mint'.counted other counted'
    -- Two mints that count one output are of the row at its address.
    obtain rfl := (books.ledgers network).eq_of_point history history' same
    obtain rfl := books.row_of_address kept member member' (mint.network.trans mint'.network.symm) address address'
    exact mint.id.symm.trans mint'.id

end

/-- In every run that draws fresh indices, addresses are single-purpose. -/
theorem addresses_single_purpose {config : Config} {clock : Nat} {tips : Network → Nat}
    {state : State World Reply} (reach : Reach (federation config) indicesFresh
      ((federation config).start (World.initial clock tips)) state) :
    SinglePurpose config state.world :=
  (reach_invariant (reach.mono (Excuse.indicesFresh_permits config))).1.singlePurpose (fun _ _ none => none)
    fun _ _ none => none

/-- The check of fresh indices at a clock reading. -/
def drawsFresh (state : State World Reply) : Action Fate Event → Bool
  | .answer _ =>
      match state.waiting with
      | some (.now (.deposit network)) => decide (¬ state.world.Held network (clockIndex state.world.clock) ∧
          (network, clockIndex state.world.clock) ∉ state.world.changes)
      | some (.now (.change network)) => decide (¬ state.world.Held network (clockIndex state.world.clock))
      | _ => true
  | _ => true

theorem indicesFresh_of_drawsFresh (state : State World Reply) (action : Action Fate Event)
    (passed : drawsFresh state action) : indicesFresh.Meets state action := by
  cases action with
  | answer fate =>
    intro call waits
    simp only [drawsFresh, waits] at passed
    cases call with
    | now reading =>
      cases reading with
      | age => trivial
      | _ => simpa [indicesFresh] using passed
    | _ => trivial
  | _ => trivial

/-- Two deposits of different seconds. -/
def secondsApart : List (Action Fate Event) :=
  fundedDeposit ++ [.event (.tick 1000), .event (.postDeposit 2 .signet sampleRecipient)] ++ answers 6 ++
    [.event (.mineTx .signet 0 true)] ++ answers 4

theorem addresses_single_purpose_sample : ∃ state,
    (federation sampleConfig).runWhile drawsFresh sampleStart secondsApart = some state ∧
      (state.world.deposits.map Deposit.derivationIndex = [some 1000, some 1001] ∧
        SinglePurpose sampleConfig state.world) := by
  have seen : ((federation sampleConfig).runWhile drawsFresh sampleStart secondsApart).map (fun state =>
      state.world.deposits.map Deposit.derivationIndex) = some [some 1000, some 1001] := by
    decide +kernel
  obtain ⟨state, ran, seen⟩ := Option.map_eq_some_iff.mp seen
  exact ⟨state, ran, seen, addresses_single_purpose (.of_runWhile indicesFresh_of_drawsFresh ran)⟩

/-- Two deposits that get their addresses in the same second are both minted
from the one output paid to the one address. -/
def sameSecond : List (Action Fate Event) :=
  [.event (.postDeposit 1 .signet sampleRecipient), .event (.postDeposit 2 .signet sampleRecipient)] ++
    answers 8 ++ [.again, .event (.receive .signet sampleAddress 100000), .event (.mineBlock .signet [⟨0, 0⟩])] ++
    answers 6 ++ [.event (.mineTx .signet 0 true)] ++ answers 6 ++ [.event (.mineTx .signet 1 true)] ++ answers 2

theorem same_second_shares_address : ∃ state,
    (federation sampleConfig).run sampleStart sameSecond = some state ∧
      state.world.deposits.map (fun row => (row.id, row.network, row.derivationIndex)) =
        [(1, .signet, some 1000), (2, .signet, some 1000)] ∧
      (state.world.l2 .signet).txs.map (fun tx => (tx.status, tx.mint.map fun note => note.counted.map Output.point)) =
        [(.success, some [⟨0, 0⟩]), (.success, some [⟨0, 0⟩])] ∧
      ¬ SinglePurpose sampleConfig state.world := by
  have seen : ((federation sampleConfig).run sampleStart sameSecond).any (fun state =>
      state.world.deposits.map (fun row => (row.id, row.network, row.derivationIndex)) =
        [(1, .signet, some 1000), (2, .signet, some 1000)] ∧
      (state.world.l2 .signet).txs.map (fun tx => (tx.status, tx.mint.map fun note => note.counted.map Output.point)) =
        [(.success, some [⟨0, 0⟩]), (.success, some [⟨0, 0⟩])]) = true := by
    decide +kernel
  obtain ⟨state, ran, seen⟩ := (Option.any_eq_true _ _).mp seen
  obtain ⟨rows, mints⟩ := of_decide_eq_true seen
  refine ⟨state, ran, rows, mints, fun single => ?_⟩
  obtain ⟨first, left, same⟩ := List.mem_map.mp (show (1, Network.signet, some 1000) ∈ _ by rw [rows]; simp)
  obtain ⟨second, right, same'⟩ := List.mem_map.mp (show (2, Network.signet, some 1000) ∈ _ by rw [rows]; simp)
  simp only [Prod.mk.injEq] at same same'
  have equal := single.indices first left second right (same.2.1.trans same'.2.1.symm) 1000 same.2.2 same'.2.2
  have ids := congrArg Deposit.id equal
  rw [same.1, same'.1] at ids
  exact absurd ids (by decide)

end Snowside
