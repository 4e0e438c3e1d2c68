import Snowside.Bridge.Reserve
import Snowside.Bridge.Verification

/-! The coins of L2 against the coins that back them on L1. -/

set_option autoImplicit false

namespace Snowside

open Interaction

/-! ## Backing and supply -/

/-- An address whose key the federation derives. -/
def FederationKey (config : Config) (network : Network) (address : Text) : Prop :=
  ∃ wallet ∈ config.wallet, ∃ index < indexLimit, address = wallet.deriveDepositAddress network index

instance (config : Config) (network : Network) : DecidablePred (FederationKey config network) :=
  fun _ => inferInstanceAs (Decidable (∃ _ ∈ _, ∃ _, _ ∧ _))

namespace World

variable (config : Config) (world : World) (network : Network)

/-- Unspent satoshis of the federation's keys. -/
def backing : Nat := (world.l1 network).held (FederationKey config network)

def mintedWei : Nat := ((world.l2 network).txs.map Tx.mintedWei).sum

def burnedWei : Nat := ((world.l2 network).txs.map Tx.burnedWei).sum

/-- Supply does not exceed backing. -/
def Pegged : Prop := world.mintedWei network ≤ world.backing config network * satsToEcx + world.burnedWei network

/-- An output that some mint counted. -/
def Counted (output : Output) : Prop :=
  ∃ tx ∈ (world.l2 network).txs, ∃ note ∈ tx.mint, output.point ∈ note.counted.map Output.point

/-- A payment to the address of a minted row that no mint counted. -/
def Spare (output : Output) : Prop :=
  output.origin ≠ .change ∧ ¬ world.Counted network output ∧
    ∃ row ∈ world.deposits, row.network = network ∧ row.status = .minted ∧ row.ecashAddress = some output.address

instance : DecidablePred (world.Counted network) := fun _ => inferInstanceAs (Decidable (∃ _ ∈ _, ∃ _ ∈ _, _))

instance : DecidablePred (world.Spare network) := fun _ => inferInstanceAs (Decidable (_ ∧ _ ∧ ∃ _ ∈ _, _))

def spareOutputs : List Output := (world.l1 network).history.filter fun output => world.Spare network output

end World

/-- The miner's fees of all withdrawals. -/
def Ledger.feesPaid (ledger : Ledger) : Nat := (ledger.payouts.map fun payout => payout.tx.fee).sum

/-- The outputs that a successful mint stands for. -/
def Tx.backedBy (tx : Tx) : List Output :=
  if tx.status = .success then (tx.mint.map MintNote.counted).getD [] else []

/-! ## What keeps the peg -/

/-- What is known of all transfers of a run that keeps the peg. -/
structure Peg (world : World) : Prop where
  payments : ∀ network, ∀ tx ∈ (world.l2 network).txs, ∀ note, tx.mint = some note →
    ∀ output ∈ note.counted, output.origin ≠ .change
  worth : ∀ network, ∀ tx ∈ (world.l2 network).txs, ∀ note, tx.mint = some note →
    ∀ call, mintOf tx.input = some call → call.2 ≤ note.sats * satsToEcx
  burned : ∀ network, ∀ payout ∈ (world.l1 network).payouts, ∃ tx ∈ (world.l2 network).txs,
    burnOf payout.withdrawal = some tx.hash ∧ payout.tx.target * satsToEcx ≤ tx.burnedWei
  redeemed : RedeemedOnce world
  fees : ∀ network, (world.l1 network).feesPaid ≤ total (world.spareOutputs network)

section
variable {config : Config} {excuse : Excuse} {phase : Phase} {world : World}

theorem Books.federationKey (books : Books config excuse phase world) {row : Deposit}
    (member : row ∈ world.deposits) {address : Text} (assigned : row.ecashAddress = some address) :
    FederationKey config row.network address := by
  obtain ⟨wallet, index, wallets, small, -, derived⟩ := books.index_of_address member assigned
  exact ⟨wallet, wallets, index, small, derived⟩

theorem Tx.mem_backedBy {tx : Tx} {output : Output} (member : output ∈ tx.backedBy) :
    tx.status = .success ∧ ∃ note, tx.mint = some note ∧ output ∈ note.counted := by
  rw [backedBy] at member
  split at member
  · next success =>
    cases noted : tx.mint with
    | none => rw [noted] at member; cases member
    | some note =>
      rw [noted] at member
      exact ⟨success, note, rfl, member⟩
  · cases member

/-- A mint brings no more into being than the outputs behind it. -/
theorem Books.mintedWei_le_backedBy (books : Books config excuse phase world) (peg : Peg world) {network : Network}
    {tx : Tx} (member : tx ∈ (world.l2 network).txs) : tx.mintedWei ≤ total tx.backedBy * satsToEcx := by
  rw [Tx.mintedWei]
  split
  · next minted =>
    obtain ⟨note, noted⟩ := Option.isSome_iff_exists.mp minted.2
    obtain ⟨row, -, -, mint⟩ := books.mints network tx member note noted
    rw [Tx.backedBy, if_pos minted.1, noted, Option.map_some, Option.getD_some, ← mint.sats]
    cases decoded : mintOf tx.input with
    | none => exact Nat.zero_le _
    | some call => exact peg.worth network tx member note noted call decoded
  · exact Nat.zero_le _

theorem total_flatMap {Item : Type} (outputs : Item → List Output) (items : List Item) :
    total (items.flatMap outputs) = (items.map fun item => total (outputs item)).sum := by
  induction items with
  | nil => rfl
  | cons item rest ih => rw [List.flatMap_cons, total_append, ih, List.map_cons, List.sum_cons]

/-- Successful mints stand for different outputs. -/
theorem Books.backedBy_nodup (books : Books config excuse phase world)
    (once : ∀ deposit, ¬ excuse.mint deposit) (apart : ∀ network index, ¬ excuse.index network index)
    (network : Network) : ((world.l2 network).txs.flatMap Tx.backedBy).Nodup := by
  refine List.nodup_flatMap.mpr ⟨fun tx member => ?_, (books.chains network).nodup.pairwise_of_forall_ne ?_⟩
  · rw [Tx.backedBy]
    split
    · cases noted : tx.mint with
      | none => exact List.nodup_nil
      | some note =>
        obtain ⟨row, -, -, mint⟩ := books.mints network tx member note noted
        exact .of_map Output.point mint.distinct
    · exact List.nodup_nil
  · intro first left second right different output counted counted'
    -- Two mints that count one output are of one row, and a row has one mint.
    obtain ⟨success, note, noted, counted⟩ := Tx.mem_backedBy counted
    obtain ⟨success', note', noted', counted'⟩ := Tx.mem_backedBy counted'
    obtain ⟨row, member, -, mint⟩ := books.mints network first left note noted
    obtain ⟨row', member', -, mint'⟩ := books.mints network second right note' noted'
    obtain rfl := books.row_of_address apart member member' (mint.network.trans mint'.network.symm)
      (mint.counted output counted).2.2 (mint'.counted output counted').2.2
    have same := books.mintOnce.unique row.id (network, first.hash) (network, second.hash) (once row.id)
      ⟨first, left, rfl, by rw [success]; decide, note, noted, mint.id.symm⟩
      ⟨second, right, rfl, by rw [success']; decide, note', noted', mint'.id.symm⟩
    exact different ((books.chains network).eq_of_hash left right (congrArg Prod.snd same))

/-- Minted coins and spare ones are different coins that were paid to the federation. -/
theorem Books.backed_and_spare (books : Books config excuse phase world) (peg : Peg world)
    (once : ∀ deposit, ¬ excuse.mint deposit) (apart : ∀ network index, ¬ excuse.index network index)
    (network : Network) :
    total ((world.l2 network).txs.flatMap Tx.backedBy) + total (world.spareOutputs network) ≤
      (world.l1 network).received (FederationKey config network) := by
  rw [← total_append]
  refine total_le_of_subset ?_ ?_
  · refine List.nodup_append.mpr ⟨books.backedBy_nodup once apart network, ?_, ?_⟩
    · exact (List.Nodup.of_map Output.point (books.ledgers network).points).filter _
    · -- A spare output is counted by no mint.
      rintro output backed _ spare rfl
      obtain ⟨tx, member, counted⟩ := List.mem_flatMap.mp backed
      obtain ⟨-, note, noted, counted⟩ := Tx.mem_backedBy counted
      obtain ⟨-, uncounted, -⟩ := of_decide_eq_true (List.mem_filter.mp spare).2
      exact uncounted ⟨tx, member, note, noted, List.mem_map_of_mem counted⟩
  · intro output member
    obtain backed | spare := List.mem_append.mp member
    · obtain ⟨tx, member, counted⟩ := List.mem_flatMap.mp backed
      obtain ⟨-, note, noted, counted⟩ := Tx.mem_backedBy counted
      obtain ⟨row, known, -, mint⟩ := books.mints network tx member note noted
      obtain ⟨history, -, address⟩ := mint.counted output counted
      exact List.mem_filter.mpr ⟨history, decide_eq_true
        ⟨peg.payments network tx member note noted output counted, mint.network ▸ books.federationKey known address⟩⟩
    · obtain ⟨history, spare⟩ := List.mem_filter.mp spare
      obtain ⟨payment, -, row, known, home, -, address⟩ := of_decide_eq_true spare
      exact List.mem_filter.mpr ⟨history, decide_eq_true
        ⟨payment, home ▸ books.federationKey known address⟩⟩

/-- Payouts of different burns are worth at most all burns. -/
theorem Books.targets_le_burned (books : Books config excuse phase world) (peg : Peg world) (network : Network) :
    ((world.l1 network).payouts.map fun payout => payout.tx.target * satsToEcx).sum ≤ world.burnedWei network := by
  have inhabited : Nonempty Tx := ⟨⟨0, 0, 0, 0, [], .pending, none⟩⟩
  -- Each payout has its own burn.
  choose! burn known named covers using peg.burned network
  have distinct : ((world.l1 network).payouts.map burn).Nodup := by
    refine List.Nodup.map_on (fun first left second right same => ?_) (books.ledgers network).distinct.of_map
    exact peg.redeemed network first left second right _ (named first left) (same ▸ named second right)
  have burns := sum_map_le_of_subset Tx.burnedWei distinct fun tx member => by
    obtain ⟨payout, paid, rfl⟩ := List.mem_map.mp member
    exact known payout paid
  rw [List.map_map] at burns
  exact (List.sum_le_sum covers).trans burns

/-- The books of a run that keeps the peg show supply within backing. -/
theorem Books.pegged (books : Books config excuse phase world) (peg : Peg world)
    (once : ∀ deposit, ¬ excuse.mint deposit) (apart : ∀ network index, ¬ excuse.index network index)
    (network : Network) : world.Pegged config network := by
  have drawn := fun payout paid => (books.payouts network payout paid).1
  have accounts := (books.ledgers network).accounts (FederationKey config network)
    fun payout paid input taken => by
      obtain ⟨row, member, home, address, -⟩ := (drawn payout paid).inputs input taken
      exact home ▸ books.federationKey member address
  -- All change goes to addresses of the wallet.
  have ours : (world.l1 network).strayChange (FederationKey config network) = 0 := by
    refine (congrArg total (List.filter_eq_nil_iff.mpr fun output member stray => ?_)).trans total_nil
    obtain ⟨change, stray⟩ := of_decide_eq_true stray
    obtain ⟨payout, paid, given⟩ := (books.ledgers network).changeOf output member change
    obtain ⟨wallet, index, wallets, small, derived⟩ := (drawn payout paid).change _ given
    exact stray ⟨wallet, wallets, index, small, derived⟩
  have paidOut : (world.l1 network).paidOut =
      ((world.l1 network).payouts.map fun payout => payout.tx.target).sum + (world.l1 network).feesPaid :=
    List.sum_map_add
  have minted : world.mintedWei network ≤ total ((world.l2 network).txs.flatMap Tx.backedBy) * satsToEcx := by
    rw [total_flatMap, ← List.sum_map_mul_right]
    exact List.sum_le_sum fun tx member => books.mintedWei_le_backedBy peg member
  have spare := books.backed_and_spare peg once apart network
  have burned := books.targets_le_burned peg network
  have fees := peg.fees network
  rw [List.sum_map_mul_right] at burned
  have backed : total ((world.l2 network).txs.flatMap Tx.backedBy) ≤
      (world.l1 network).held (FederationKey config network) +
        ((world.l1 network).payouts.map fun payout => payout.tx.target).sum := by omega
  calc world.mintedWei network
      ≤ total ((world.l2 network).txs.flatMap Tx.backedBy) * satsToEcx := minted
    _ ≤ ((world.l1 network).held (FederationKey config network) +
          ((world.l1 network).payouts.map fun payout => payout.tx.target).sum) * satsToEcx :=
        Nat.mul_le_mul_right _ backed
    _ ≤ world.backing config network * satsToEcx + world.burnedWei network := by
        rw [Nat.add_mul]
        exact Nat.add_le_add_left burned _

end

/-! ## Steps that keep the peg -/

/-- No call fails and no restart loses a transfer; deposits draw fresh indices;
mints count payments only, for addresses of at most 64 digits; withdrawals name
their own burns; and spare coins cover all fees. -/
def pegKeeps (config : Config) : Condition Call World Fate Event where
  answer world call fate := fate = .ok ∧
    match call with
    | .now (.deposit network) => ¬ world.Held network (clockIndex world.clock)
    | .sendTransaction _ _ note => (∀ output ∈ note.counted, output.origin ≠ .change) ∧
        ∀ row ∈ world.deposits, row.id = note.deposit →
          (addressDigits config.lowerCase row.snowsideAddress).length ≤ 64
    | .broadcast network tx withdrawal => BurnMatches world withdrawal tx.target ∧
        (∀ row ∈ world.withdrawals, row.network = network → row.status = .completed →
          burnOf row ≠ burnOf withdrawal) ∧
        (world.l1 network).feesPaid + tx.fee ≤ total (world.spareOutputs network)
    | _ => True
  event _ _ := True
  restart _ waiting := phaseOf waiting = .idle

namespace Excuse

/-- Transfers and the indices of deposits are kept account of. -/
def allButTransfers : Excuse := ⟨fun _ => False, fun _ => False, fun _ _ => False, fun _ _ => True, fun _ => True⟩

theorem pegKeeps_permits (config : Config) : (pegKeeps config).Implies (allButTransfers.permits config) := by
  refine permits_of (fun deposit _ => ?_) (fun withdrawal _ => ?_) (.inr ?_) (.inl fun _ _ => trivial)
    (.inl fun _ => trivial)
  · refine ⟨fun world call fate met => ?_, fun _ _ _ => trivial, fun world waiting met => ?_⟩
    · rw [met.1]
      exact mintSettles_ok deposit world call
    · intro minting
      cases (show phaseOf waiting = .idle from met).symm.trans minting
  · refine ⟨fun world call fate met => ?_, fun _ _ _ => trivial, fun world waiting met => ?_⟩
    · rw [met.1]
      exact payoutSettles_ok withdrawal world call
    · intro paying
      cases (show phaseOf waiting = .idle from met).symm.trans paying
  · refine ⟨fun world call fate met => ?_, fun _ _ _ => trivial, fun _ _ _ => trivial⟩
    cases call with
    | now reading =>
      cases reading with
      | deposit network => exact met.2
      | _ => trivial
    | _ => trivial

end Excuse

theorem pegKeeps_redeems (config : Config) : (pegKeeps config).Implies redeemsOnce where
  answer world call fate met := by
    obtain ⟨rfl, met⟩ := met
    cases call with
    | broadcast network tx withdrawal =>
      refine ⟨by decide, fun _ row member home completed hash burn burn' => ?_⟩
      exact met.2.1 row member home completed (burn'.trans burn.symm)
    | patchWithdrawal => exact fun _ => by decide
    | _ => trivial
  event _ _ _ := trivial
  restart world waiting met withdrawal paying := by
    cases (show phaseOf waiting = .idle from met).symm.trans paying

section
variable {config : Config} {excuse : Excuse} {state next : State World Reply} {action : Action Fate Event}

/-- Every mint of a chain was there before the step, or is sent in it. -/
theorem step_mints (invariant : Invariant config excuse state.world state.waiting)
    (stepped : (federation config).step state action = some next) {network : Network} {tx : Tx} {note : MintNote}
    (member : tx ∈ (next.world.l2 network).txs) (noted : tx.mint = some note) :
    (∃ old ∈ (state.world.l2 network).txs, old.mint = some note ∧ old.input = tx.input) ∨
    ∃ fate data, action = .answer fate ∧ state.waiting = some (.sendTransaction network data note) ∧
      tx.input = data := by
  obtain ⟨fate, call, rfl, waits, effect⟩ | ⟨-, grows⟩ := step_effect invariant.1 stepped
  · obtain old | ⟨rfl, -⟩ := effect.mint member noted
    · exact .inl ⟨tx, old, noted, rfl⟩
    · exact .inr ⟨fate, tx.input, rfl, waits, rfl⟩
  · obtain ⟨old, known, becomes⟩ | nothing := grows.mints network tx member
    · exact .inl ⟨old, known, becomes.mint.symm.trans noted, becomes.input.symm⟩
    · rw [nothing] at noted
      cases noted

theorem step_chains (invariant : Invariant config excuse state.world state.waiting)
    (stepped : (federation config).step state action = some next) (network : Network) :
    (state.world.l2 network).Grows (next.world.l2 network) := by
  obtain ⟨fate, call, -, -, effect⟩ | ⟨-, grows⟩ := step_effect invariant.1 stepped
  · generalize next.world = after at effect ⊢
    cases effect with
    | sendTransaction home data sent sender _ carried minter spelled =>
      by_cases here : network = home
      · subst here
        rw [World.setL2_l2, Function.update_self]
        exact Chain.submit_grows _ _
      · rw [World.setL2_l2, Function.update_of_ne here]
        exact .refl _
    | _ => exact .refl _
  · exact grows.txs network

/-- Outputs stay, up to their heights. -/
theorem step_history (invariant : Invariant config excuse state.world state.waiting)
    (stepped : (federation config).step state action = some next) (network : Network) :
    ∀ output ∈ (state.world.l1 network).history, ∃ later ∈ (next.world.l1 network).history,
      output.Becomes later := by
  obtain grows | ⟨fate, home, tx, withdrawal, ledger, -, -, -, accepted, same⟩ := step_payouts invariant.1 stepped
  · exact (grows network).history
  · intro output member
    rw [same, World.setL1_l1]
    by_cases here : network = home
    · subst here
      rw [Function.update_self]
      exact ⟨output, (Ledger.broadcast_history accepted).mem_iff.mpr (List.mem_append_left _ member), .refl output⟩
    · rw [Function.update_of_ne here]
      exact ⟨output, member, .refl output⟩

/-- Spare coins stay spare: a mint counts the coins of an unminted row, whose
address no other row has. -/
theorem step_spare (invariant : Invariant config excuse state.world state.waiting)
    (apart : ∀ network index, ¬ excuse.index network index)
    (stepped : (federation config).step state action = some next) (network : Network) :
    total (state.world.spareOutputs network) ≤ total (next.world.spareOutputs network) := by
  have distinct := (invariant.1.ledgers network).points.sublist
    (List.filter_sublist.map Output.point : (state.world.spareOutputs network).map Output.point |>.Sublist _)
  refine total_le_of_becomes distinct fun output member => ?_
  obtain ⟨history, spare⟩ := List.mem_filter.mp member
  obtain ⟨payment, uncounted, row, known, home, minted, address⟩ := of_decide_eq_true spare
  obtain ⟨later, present, becomes⟩ := step_history invariant stepped network output history
  obtain ⟨row', known', moved⟩ := step_deposits invariant stepped row known
  refine ⟨later, List.mem_filter.mpr ⟨present, decide_eq_true ⟨becomes.origin ▸ payment, ?_, row', known',
    moved.network.trans home, moved.minted minted, ?_⟩⟩, becomes⟩
  · rintro ⟨tx, listed, note, noted, counted⟩
    rw [becomes.point] at counted
    obtain ⟨old, listed, noted', -⟩ | ⟨fate, data, -, waits, -⟩ := step_mints invariant stepped listed noted
    · exact uncounted ⟨old, listed, note, noted', counted⟩
    · -- A new mint is of a confirmed row, and the address is that of a minted one.
      obtain ⟨other, member', confirmed, mint, unspent⟩ := invariant.2 _ waits
      obtain ⟨taken, sent, same⟩ := List.mem_map.mp counted
      obtain rfl := (invariant.1.ledgers network).eq_of_point
        (List.mem_append_left _ (unspent taken sent)) history same
      obtain rfl := invariant.1.row_of_address apart known member' (home.trans mint.network.symm) address
        (mint.counted taken sent).2.2
      rw [minted] at confirmed
      cases confirmed
  · rw [moved.ecashAddress (by rw [address]; rfl), address, becomes.address]

theorem Tx.Becomes.burnedWei_le {before after : Tx} (becomes : before.Becomes after) :
    before.burnedWei ≤ after.burnedWei := by
  rw [Tx.burnedWei]
  split
  · next burned =>
    have status := becomes.status (by rw [burned.1]; decide)
    rw [Tx.burnedWei, if_pos ⟨status.trans burned.1, becomes.recipient.trans burned.2⟩, becomes.value]
  · exact Nat.zero_le _

/-- A genuine burn is among those of its chain. -/
theorem BurnMatches.burned {world : World} {row : Withdrawal} {sats : Nat} (matched : BurnMatches world row sats) :
    ∃ tx ∈ (world.l2 row.network).txs, burnOf row = some tx.hash ∧ sats * satsToEcx ≤ tx.burnedWei := by
  obtain ⟨tx, named, success, -, burned, covers⟩ := matched
  obtain ⟨text, given, found⟩ := Option.bind_eq_some_iff.mp named
  obtain ⟨hash, spelled, found⟩ := Option.bind_eq_some_iff.mp found
  obtain ⟨member, rfl⟩ := Chain.find_mem found
  refine ⟨tx, member, ?_, ?_⟩
  · rw [burnOf, given]
    exact spelled
  · rw [Tx.burnedWei, if_pos ⟨success, burned⟩]
    exact covers

theorem step_peg (invariant : Invariant config excuse state.world state.waiting)
    (kept : ∀ withdrawal, ¬ excuse.payout withdrawal) (apart : ∀ network index, ¬ excuse.index network index)
    (met : (pegKeeps config).Meets state action) (stepped : (federation config).step state action = some next)
    (peg : Peg state.world) : Peg next.world where
  payments network tx member note noted := by
    obtain ⟨old, known, noted, -⟩ | ⟨fate, data, rfl, waits, -⟩ := step_mints invariant stepped member noted
    · exact peg.payments network old known note noted
    · exact (met _ waits).2.1
  worth network tx member note noted call decoded := by
    obtain ⟨old, known, noted, same⟩ | ⟨fate, data, rfl, waits, same⟩ := step_mints invariant stepped member noted
    · exact peg.worth network old known note noted call (same ▸ decoded)
    · obtain ⟨row, present, -, mint, -⟩ := invariant.2 _ waits
      rw [same, mint.data] at decoded
      exact mintOf_encodeMintCall_le _ _ _ ((met _ waits).2.2 row present mint.id) decoded
  burned network payout paid := by
    -- A burn stays on its chain.
    have later {tx : Tx} (member : tx ∈ (state.world.l2 network).txs)
        (named : burnOf payout.withdrawal = some tx.hash) (covers : payout.tx.target * satsToEcx ≤ tx.burnedWei) :
        ∃ tx ∈ (next.world.l2 network).txs, burnOf payout.withdrawal = some tx.hash ∧
          payout.tx.target * satsToEcx ≤ tx.burnedWei := by
      obtain ⟨after, present, becomes⟩ := step_chains invariant stepped network tx member
      exact ⟨after, present, named.trans (congrArg some becomes.hash.symm), covers.trans becomes.burnedWei_le⟩
    obtain grows | ⟨fate, home, tx, withdrawal, ledger, rfl, -, waits, accepted, same⟩ :=
      step_payouts invariant.1 stepped
    · rw [(grows network).payouts] at paid
      obtain ⟨tx, member, named, covers⟩ := peg.burned network payout paid
      exact later member named covers
    · obtain ⟨-, new⟩ := Ledger.broadcast_eq accepted
      rw [same, World.setL1_l1] at paid
      by_cases here : network = home
      · subst here
        rw [Function.update_self, new] at paid
        obtain old | added := List.mem_append.mp paid
        · obtain ⟨tx, member, named, covers⟩ := peg.burned network payout old
          exact later member named covers
        · obtain rfl := List.mem_singleton.mp added
          obtain ⟨-, -, drawn⟩ := invariant.2 _ waits
          obtain ⟨burn, member, named, covers⟩ := (met _ waits).2.1.burned
          exact later (drawn.home ▸ member) named covers
      · rw [Function.update_of_ne here] at paid
        obtain ⟨tx, member, named, covers⟩ := peg.burned network payout paid
        exact later member named covers
  redeemed := step_redeemedOnce invariant kept ((pegKeeps_redeems config).meets met) stepped peg.redeemed
  fees network := by
    have spare := step_spare invariant apart stepped network
    obtain grows | ⟨fate, home, tx, withdrawal, ledger, rfl, -, waits, accepted, same⟩ :=
      step_payouts invariant.1 stepped
    · rw [Ledger.feesPaid, (grows network).payouts]
      exact (peg.fees network).trans spare
    · refine le_trans ?_ spare
      obtain ⟨-, new⟩ := Ledger.broadcast_eq accepted
      rw [same, World.setL1_l1]
      by_cases here : network = home
      · subst here
        rw [Function.update_self, new, Ledger.feesPaid, List.map_append, List.sum_append, List.map_singleton,
          List.sum_singleton]
        exact (met _ waits).2.2.2
      · rw [Function.update_of_ne here]
        exact peg.fees network

end

/-- In every run that keeps the peg, the supply of every network stays within its
backing. -/
theorem supply_within_backing {config : Config} {clock : Nat} {tips : Network → Nat}
    {state : State World Reply} (reach : Reach (federation config) (pegKeeps config)
      ((federation config).start (World.initial clock tips)) state) (network : Network) :
    state.world.Pegged config network := by
  have permits := Excuse.pegKeeps_permits config
  suffices peg : Peg state.world from
    (reach_invariant (reach.mono permits)).1.pegged peg (fun _ excused => excused) (fun _ _ excused => excused) network
  induction reach with
  | start =>
    exact ⟨fun _ _ member => absurd member List.not_mem_nil, fun _ _ member => absurd member List.not_mem_nil,
      fun _ _ member => absurd member List.not_mem_nil, fun _ _ member => absurd member List.not_mem_nil,
      fun _ => Nat.zero_le _⟩
  | step reach met stepped ih =>
    exact step_peg (reach_invariant (reach.mono permits)) (fun _ excused => excused) (fun _ _ excused => excused)
      met stepped ih

/-- The check of transfers in a run without failures. -/
def keepsPeg (state : State World Reply) (action : Action Fate Event) : Bool :=
  undisturbed state action &&
    match state.waiting with
    | some (.now (.deposit network)) => decide (¬ state.world.Held network (clockIndex state.world.clock))
    | some (.sendTransaction _ _ note) => decide ((∀ output ∈ note.counted, output.origin ≠ .change) ∧
        ∀ row ∈ state.world.deposits, row.id = note.deposit →
          (addressDigits sampleConfig.lowerCase row.snowsideAddress).length ≤ 64)
    | some (.broadcast network tx withdrawal) => decide (BurnMatches state.world withdrawal tx.target ∧
        (∀ row ∈ state.world.withdrawals, row.network = network → row.status = .completed →
          burnOf row ≠ burnOf withdrawal) ∧
        (state.world.l1 network).feesPaid + tx.fee ≤ total (state.world.spareOutputs network))
    | _ => true

theorem pegKeeps_of_keepsPeg (state : State World Reply) (action : Action Fate Event)
    (passed : keepsPeg state action) : (pegKeeps sampleConfig).Meets state action := by
  obtain ⟨calm, kept⟩ := Bool.and_eq_true_iff.mp passed
  refine meets_of_undisturbed calm (fun call waits => ⟨rfl, ?_⟩) fun _ => trivial
  rw [waits] at kept
  cases call with
  | now reading =>
    cases reading with
    | deposit network => exact of_decide_eq_true kept
    | _ => trivial
  | sendTransaction => exact of_decide_eq_true kept
  | broadcast => exact of_decide_eq_true kept
  | _ => trivial

/-- The minted deposit gets 5000 satoshis more before the withdrawal is paid. -/
def overpaidDeposit : List (Action Fate Event) :=
  burnedCoins ++ [.event (.receive .signet sampleAddress 5000)] ++ answers 8

theorem supply_within_backing_sample : ∃ state,
    (federation sampleConfig).runWhile keepsPeg sampleStart overpaidDeposit = some state ∧
      (state.world.l1 .signet).payouts.map (fun payout => payout.tx.fee) = [1000] ∧
      state.world.Pegged sampleConfig .signet := by
  have seen : ((federation sampleConfig).runWhile keepsPeg sampleStart overpaidDeposit).any (fun state =>
      (state.world.l1 .signet).payouts.map (fun payout => payout.tx.fee) = [1000]) = true := by
    decide +kernel
  obtain ⟨state, ran, seen⟩ := (Option.any_eq_true _ _).mp seen
  exact ⟨state, ran, of_decide_eq_true seen, supply_within_backing (.of_runWhile pegKeeps_of_keepsPeg ran) .signet⟩

/-- One deposit of 100000 satoshis, one burn of 10000 of them and its payout, with
no call failing: the fee leaves 89000 to back 90000. -/
theorem fee_breaks_peg : ∃ state,
    (federation sampleConfig).runWhile undisturbed sampleStart (burnedCoins ++ answers 8) = some state ∧
      state.world.deposits.length = 1 ∧
      (∃ payout, (state.world.l1 .signet).payouts = [payout] ∧ payout.tx.target = 10000 ∧
        BurnMatches state.world payout.withdrawal payout.tx.target) ∧
      state.world.backing sampleConfig .signet = 89000 ∧
      state.world.mintedWei .signet = 100000 * satsToEcx ∧ state.world.burnedWei .signet = 10000 * satsToEcx ∧
      ¬ state.world.Pegged sampleConfig .signet := by
  have seen : ((federation sampleConfig).runWhile undisturbed sampleStart (burnedCoins ++ answers 8)).any (fun state =>
      state.world.deposits.length = 1 ∧
      ((state.world.l1 .signet).payouts.length = 1 ∧
        ∀ payout ∈ (state.world.l1 .signet).payouts, payout.tx.target = 10000 ∧
          BurnMatches state.world payout.withdrawal payout.tx.target) ∧
      (state.world.l1 .signet).unspent.map (fun output => (output.address, output.value)) =
        [("somewhere".toList, 10000), (HDWallet.transparent.deriveDepositAddress .signet 1001, 89000)] ∧
      state.world.mintedWei .signet = 100000 * satsToEcx ∧
      state.world.burnedWei .signet = 10000 * satsToEcx) = true := by
    decide +kernel
  obtain ⟨state, ran, seen⟩ := (Option.any_eq_true _ _).mp seen
  obtain ⟨deposits, ⟨one, paid⟩, unspent, minted, burned⟩ := of_decide_eq_true seen
  obtain ⟨payout, same⟩ := List.length_eq_one_iff.mp one
  have change : FederationKey sampleConfig .signet (HDWallet.transparent.deriveDepositAddress .signet 1001) :=
    ⟨_, rfl, 1001, by decide, rfl⟩
  have payee : ¬ FederationKey sampleConfig .signet "somewhere".toList := by
    rintro ⟨wallet, wallets, index, -, derived⟩
    obtain rfl := Option.some.inj (show some HDWallet.transparent = some wallet from wallets)
    have first : (HDWallet.transparent.deriveDepositAddress .signet index).head? = some 't' := rfl
    rw [← derived] at first
    exact absurd first (by decide)
  have held (own : Text → Prop) [DecidablePred own] (other : ¬ own "somewhere".toList)
      (ours : own (HDWallet.transparent.deriveDepositAddress .signet 1001)) :
      (state.world.l1 .signet).held own = 89000 := by
    simp only [Ledger.held_eq, unspent, List.filter_cons, List.filter_nil, other, ours, decide_true, decide_false,
      if_true, Bool.false_eq_true, if_false]
    rfl
  have backing : state.world.backing sampleConfig .signet = 89000 := held _ payee change
  refine ⟨state, ran, deposits, ⟨payout, same, paid payout (by rw [same]; simp)⟩, backing, minted, burned, ?_⟩
  rw [World.Pegged, backing, minted, burned]
  decide

end Snowside
