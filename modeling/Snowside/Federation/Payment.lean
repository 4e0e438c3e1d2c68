import Snowside.Federation.Loop
import Snowside.Federation.Selection

/-! The transaction of a withdrawal as it is signed: its lock time, its inputs and its outputs. -/

set_option autoImplicit false

namespace Snowside

open Interaction

/-! ## Transactions -/

structure TxInput where
  point : OutPoint
  /-- The address of the witness script. -/
  address : Text
  amount : Nat
  sequence : Nat
  deriving DecidableEq, Repr

structure TxOutput where
  address : Text
  amount : Nat
  deriving DecidableEq, Repr

structure L1Transaction where
  lockTime : Nat
  inputs : List TxInput := []
  outputs : List TxOutput := []
  deriving DecidableEq, Repr

namespace L1Transaction

def addInput (input : TxInput) (tx : L1Transaction) : L1Transaction := { tx with inputs := tx.inputs ++ [input] }

def addOutputAddress (address : Text) (amount : Nat) (tx : L1Transaction) : L1Transaction :=
  { tx with outputs := tx.outputs ++ [⟨address, amount⟩] }

def totalIn (tx : L1Transaction) : Nat := (tx.inputs.map TxInput.amount).sum

def totalOut (tx : L1Transaction) : Nat := (tx.outputs.map TxOutput.amount).sum

end L1Transaction

/-- `REPLAY_LOCKTIME`: another network's value is not final. -/
def replayLocktime : Network → Nat
  | .mainnet => 499999998
  | .testnet => 499999999
  | .signet => 0

/-- A sequence below this one keeps the lock time in force. -/
def finalSequence : Nat := 0xffffffff

def toTxInput (wallet : HDWallet) (network : Network) (item : Candidate) : TxInput where
  point := item.point
  address := wallet.deriveDepositAddress network item.deposit.derivationIndex
  amount := item.value
  sequence := 0xfffffffd

/-- The transaction before it is signed. -/
def buildTransaction (wallet : HDWallet) (network : Network) (selected : List Candidate) (targetSats : Nat)
    (address changeAddress : Text) : L1Transaction :=
  let totalInput := (selected.map Candidate.value).sum
  let changeSats := totalInput - targetSats - feeSats
  let tx : L1Transaction := { lockTime := replayLocktime network }
  let funded : L1Transaction := selected.foldl (fun tx item => tx.addInput (toTxInput wallet network item)) tx
  let paid := funded.addOutputAddress address targetSats
  if dustLimit < changeSats then paid.addOutputAddress changeAddress changeSats else paid

/-- What the federation hands to the network, as a transaction of that network. -/
def PayoutTx.onNetwork (network : Network) (tx : PayoutTx) : L1Transaction where
  lockTime := replayLocktime network
  inputs := tx.inputs.map fun input => ⟨input.point, input.address, input.value, 0xfffffffd⟩
  outputs := ⟨tx.address, tx.target⟩ :: (tx.change.map fun change => ⟨change.1, change.2⟩).toList

theorem foldl_addInput (inputs : Candidate → TxInput) (items : List Candidate) (tx : L1Transaction) :
    items.foldl (fun tx item => tx.addInput (inputs item)) tx = { tx with inputs := tx.inputs ++ items.map inputs } := by
  induction items generalizing tx with
  | nil => simp
  | cons item rest ih => rw [List.foldl_cons, ih, L1Transaction.addInput, List.map_cons, List.append_assoc]; rfl

theorem buildTransaction_eq (wallet : HDWallet) (network : Network) (selected : List Candidate) (targetSats : Nat)
    (address changeAddress : Text) : buildTransaction wallet network selected targetSats address changeAddress = {
      lockTime := replayLocktime network
      inputs := selected.map (toTxInput wallet network)
      outputs := ⟨address, targetSats⟩ ::
        if dustLimit < worth selected - targetSats - feeSats then [⟨changeAddress, worth selected - targetSats - feeSats⟩] else [] } := by
  dsimp only [buildTransaction]
  rw [foldl_addInput]
  by_cases dust : dustLimit < worth selected - targetSats - feeSats
  · rw [if_pos dust]
    exact if_pos dust
  · rw [if_neg dust]
    exact if_neg dust

/-- What is broadcast is what is built. -/
theorem onNetwork_buildTx (wallet : HDWallet) (network : Network) (selected : List Candidate) (targetSats : Nat)
    (address changeAddress : Text) : (buildTx wallet network selected targetSats address changeAddress).onNetwork network =
      buildTransaction wallet network selected targetSats address changeAddress := by
  rw [buildTransaction_eq]
  unfold buildTx PayoutTx.onNetwork
  rw [List.map_map]
  by_cases dust : dustLimit < worth selected - targetSats - feeSats
  · rw [if_pos dust]
    simp only [show dustLimit < (selected.map Candidate.value).sum - targetSats - feeSats from dust, if_true]
    rfl
  · rw [if_neg dust]
    simp only [show ¬ dustLimit < (selected.map Candidate.value).sum - targetSats - feeSats from dust, if_false]
    rfl

/-! ## What the rows are worth -/

/-- What the answers of the server list for the rows of a network, whose requests are counted
from a number on. -/
def listed (network : Network) (answers : Nat → ∀ call, Reply call) : List Api.FundedDeposit → Nat → List Candidate
  | [], _ => []
  | deposit :: rest, count =>
      if deposit.network ≠ network then listed network answers rest count
      else
        let utxos : Option (List Output) := answers count (.utxos network (cleanAddress deposit.ecashAddress))
        (utxos.getD []).map (fun utxo => ⟨utxo.point, utxo.value, deposit⟩) ++ listed network answers rest (count + 1)

section

variable {network : Network} {answers : Nat → ∀ call, Reply call} {deposits : List Api.FundedDeposit}

theorem mem_listed {count : Nat} {item : Candidate} (member : item ∈ listed network answers deposits count) :
    item.deposit ∈ deposits ∧ item.deposit.network = network := by
  induction deposits generalizing count with
  | nil => cases member
  | cons deposit rest ih =>
    rw [listed] at member
    by_cases elsewhere : deposit.network ≠ network
    · rw [if_pos elsewhere] at member
      exact (ih member).imp_left (List.mem_cons_of_mem _)
    · rw [if_neg elsewhere] at member
      obtain here | later := List.mem_append.mp member
      · obtain ⟨utxo, -, rfl⟩ := List.mem_map.mp here
        exact ⟨List.mem_cons_self .., not_not.mp elsewhere⟩
      · exact (ih later).imp_left (List.mem_cons_of_mem _)

/-- Collecting asks for outputs only, and goes on with what was listed. -/
theorem calls_collectUtxos {α : Type} (rest : List Candidate → Fed α) (count : Nat) : ∃ asked later,
    (collectUtxos network deposits >>= rest).calls answers count =
      asked ++ (rest (listed network answers deposits count)).calls answers later ∧
    ∀ call ∈ asked, ∃ address, call = .utxos network address := by
  induction deposits generalizing rest count with
  | nil => exact ⟨[], count, rfl, fun _ member => absurd member List.not_mem_nil⟩
  | cons deposit others ih =>
    rw [collectUtxos, listed]
    by_cases elsewhere : deposit.network ≠ network
    · rw [if_pos elsewhere, if_pos elsewhere]
      exact ih rest count
    · rw [if_neg elsewhere, if_neg elsewhere]
      simp only [fetchUtxos, Program.call_bind, Program.ask_bind, Program.pure_eq, Program.done_bind, Program.bind_bind,
        Program.calls_ask]
      obtain ⟨asked, later, calls, only⟩ := ih (fun others => rest (_ ++ others)) (count + 1)
      rw [calls]
      refine ⟨_ :: asked, later, rfl, fun call member => ?_⟩
      obtain rfl | member := List.mem_cons.mp member
      · exact ⟨_, rfl⟩
      · exact only call member

end

/-! ## Well-formed transactions -/

/-- What a withdrawal's transaction should be, for the outputs that were listed. -/
structure L1Transaction.WellFormed (tx : L1Transaction) (wallet : HDWallet) (network : Network)
    (deposits : List Api.FundedDeposit) (utxos : List Candidate) (targetSats : Nat) (address changeAddress : Text) : Prop where
  distinct : (tx.inputs.map TxInput.point).Nodup
  funded : ∀ input ∈ tx.inputs, ∃ item ∈ utxos, input = toTxInput wallet network item ∧ item.deposit ∈ deposits ∧
    item.deposit.network = network
  lockTime : tx.lockTime = replayLocktime network
  sequences : ∀ input ∈ tx.inputs, input.sequence < finalSequence
  paid : tx.outputs.head? = some ⟨address, targetSats⟩
  change : tx.outputs.tail.length ≤ 1 ∧ ∀ output ∈ tx.outputs.tail, output.address = changeAddress ∧ 546 < output.amount
  fee : tx.totalOut + 1000 ≤ tx.totalIn ∧ tx.totalIn ≤ tx.totalOut + 1546

/-- Where an output is listed again, those before it by value already reach target and fee. -/
def RepeatedOnlyBeyond (utxos : List Candidate) (target : Nat) : Prop :=
  ∀ earlier item later, byValue utxos = earlier ++ item :: later → item.point ∈ earlier.map Candidate.point → target ≤ worth earlier

/-- A list repeats nothing if no item repeats one before it. -/
theorem nodup_map_iff {Item Key : Type} (key : Item → Key) (items : List Item) : (items.map key).Nodup ↔
    ∀ earlier item later, items = earlier ++ item :: later → key item ∉ earlier.map key := by
  constructor
  · rintro distinct earlier item later rfl repeated
    rw [List.map_append, List.map_cons] at distinct
    exact List.disjoint_of_nodup_append distinct repeated (List.mem_cons_self ..)
  · intro fresh
    induction items using List.reverseRecOn with
    | nil => exact List.nodup_nil
    | append_singleton items item ih =>
      rw [List.map_append, List.map_singleton]
      refine List.nodup_append'.mpr ⟨ih fun earlier other later same => ?_, List.nodup_singleton _, ?_⟩
      · exact fresh earlier other (later ++ [item]) (by rw [same, List.append_assoc, List.cons_append])
      · rw [List.disjoint_singleton]
        exact fresh items item [] rfl

theorem worth_mono {first second : List Candidate} (within : first.IsPrefix second) : worth first ≤ worth second :=
  (within.sublist.map Candidate.value).sum_le_sum fun _ _ => Nat.zero_le _

/-- Of the outputs that are selected none is repeated exactly when repetitions lie beyond. -/
theorem selectUtxos_nodup_iff {utxos : List Candidate} {targetSats feeSats : Nat} (positive : 0 < targetSats + feeSats)
    (some : selectUtxos utxos targetSats feeSats ≠ []) :
    ((selectUtxos utxos targetSats feeSats).map Candidate.point).Nodup ↔ RepeatedOnlyBeyond utxos (targetSats + feeSats) := by
  obtain ⟨last, selected, inside, reached, below⟩ := selectUtxos_prefix positive ((selectUtxos_ne_nil_iff positive).mp some)
  rw [selected, nodup_map_iff]
  constructor
  · intro fresh earlier item later same repeated
    by_contra short
    -- A prefix that stays below the target ends before the last selected output.
    have before : earlier.length ≤ last := by
      by_contra long
      have within : ((byValue utxos).take (last + 1)).IsPrefix earlier := by
        rw [same, List.take_append_of_le_length (by omega)]
        exact List.take_prefix _ _
      exact short (reached.trans (worth_mono within))
    refine fresh earlier item (later.take (last - earlier.length)) ?_ repeated
    rw [same, List.take_append, List.take_of_length_le (by omega)]
    rw [show last + 1 - earlier.length = (last - earlier.length) + 1 by omega, List.take_succ_cons]
  · intro beyond earlier item later same repeated
    have covered := beyond earlier item (later ++ (byValue utxos).drop (last + 1))
      (by rw [← List.cons_append, ← List.append_assoc, ← same, List.take_append_drop]) repeated
    have within : earlier.IsPrefix ((byValue utxos).take last) := by
      have short : earlier.length ≤ last := by
        have := congrArg List.length same
        rw [List.length_append, List.length_cons, List.length_take] at this
        omega
      have front : earlier.IsPrefix ((byValue utxos).take (last + 1)) := by
        rw [same]
        exact List.prefix_append _ _
      have shorter : earlier = (byValue utxos).take earlier.length := by
        have := List.prefix_iff_eq_take.mp (front.trans (List.take_prefix _ _))
        exact this
      rw [shorter]
      exact List.take_prefix_take_left short
    have := worth_mono within
    omega

/-- A transaction for a selection has all but distinct inputs. -/
theorem buildTransaction_wellFormed_iff {wallet : HDWallet} {network : Network} {deposits : List Api.FundedDeposit}
    {utxos : List Candidate} {targetSats : Nat} {address changeAddress : Text}
    (own : ∀ item ∈ utxos, item.deposit ∈ deposits ∧ item.deposit.network = network)
    (selected : selectUtxos utxos targetSats feeSats ≠ []) :
    (buildTransaction wallet network (selectUtxos utxos targetSats feeSats) targetSats address changeAddress).WellFormed wallet
        network deposits utxos targetSats address changeAddress ↔
      RepeatedOnlyBeyond utxos (targetSats + feeSats) := by
  have positive : 0 < targetSats + feeSats := Nat.add_pos_right _ (by decide)
  have covered : targetSats + feeSats ≤ worth (selectUtxos utxos targetSats feeSats) := by
    obtain ⟨last, same, -, reached, -⟩ := selectUtxos_prefix positive ((selectUtxos_ne_nil_iff positive).mp selected)
    exact same ▸ reached
  rw [← selectUtxos_nodup_iff positive selected]
  have within := selectUtxos_subset utxos targetSats feeSats
  set items := selectUtxos utxos targetSats feeSats
  rw [buildTransaction_eq]
  have points : (items.map (toTxInput wallet network)).map TxInput.point = items.map Candidate.point := by
    rw [List.map_map]
    rfl
  have amounts : ((items.map (toTxInput wallet network)).map TxInput.amount).sum = worth items := by
    rw [List.map_map]
    rfl
  have fees : feeSats = 1000 := rfl
  have dust : dustLimit = 546 := rfl
  refine ⟨fun formed => points ▸ formed.distinct, fun distinct => {
    distinct := points ▸ distinct
    funded := ?_
    lockTime := rfl
    sequences := ?_
    paid := rfl
    change := ?_
    fee := ?_ }⟩
  · intro input member
    obtain ⟨item, chosen, rfl⟩ := List.mem_map.mp member
    exact ⟨item, within chosen, rfl, own item (within chosen)⟩
  · intro input member
    obtain ⟨item, -, rfl⟩ := List.mem_map.mp member
    exact (by decide : 0xfffffffd < finalSequence)
  · rw [List.tail_cons]
    split
    · next large =>
      refine ⟨Nat.le_refl _, fun output member => ?_⟩
      obtain rfl := List.mem_singleton.mp member
      exact ⟨rfl, large⟩
    · exact ⟨Nat.zero_le _, fun output member => absurd member List.not_mem_nil⟩
  · rw [L1Transaction.totalIn, amounts, L1Transaction.totalOut, List.map_cons, List.sum_cons]
    split
    · simp only [List.map_cons, List.map_nil, List.sum_cons, List.sum_nil]
      omega
    · simp only [List.map_nil, List.sum_nil]
      omega

theorem RepeatedOnlyBeyond.of_nodup {utxos : List Candidate} (target : Nat) (distinct : (utxos.map Candidate.point).Nodup) :
    RepeatedOnlyBeyond utxos target := by
  have distinct : ((byValue utxos).map Candidate.point).Nodup := ((byValue_perm utxos).map Candidate.point).nodup_iff.mpr distinct
  exact fun earlier item later same repeated => absurd repeated ((nodup_map_iff _ _).mp distinct earlier item later same)

/-- The transaction that is handed to broadcast is well formed exactly when no output that
is listed twice is needed twice. -/
theorem broadcast_wellFormed_iff (config : Config) (network : Network) (withdrawal : Withdrawal)
    (deposits : List Api.FundedDeposit) (wallet : HDWallet) (changeAddress : Text) (answers : Nat → ∀ call, Reply call)
    {target : Network} {tx : PayoutTx} {paid : Withdrawal}
    (sent : Call.broadcast target tx paid ∈
      (buildSignAndBroadcastWithdrawal config network withdrawal deposits wallet changeAddress).calls answers 0) :
    ∃ address, ∃ targetSats : Nat, config.decodeAddress network (cleanAddress withdrawal.ecashAddress) = some address ∧
      Snowside.targetSats config withdrawal = some (targetSats : Int) ∧
      ((tx.onNetwork target).WellFormed wallet network deposits (listed network answers deposits 0) targetSats address
        (cleanAddress changeAddress) ↔ RepeatedOnlyBeyond (listed network answers deposits 0) (targetSats + feeSats)) := by
  rw [buildSignAndBroadcastWithdrawal] at sent
  cases priced : Snowside.targetSats config withdrawal with
  | none =>
    rw [priced] at sent
    cases sent
  | some amount =>
    rw [priced] at sent
    dsimp only at sent
    by_cases small : amount < (dustLimit : Int)
    · rw [if_pos small] at sent
      cases sent
    rw [if_neg small] at sent
    have exact : ((amount.toNat : Nat) : Int) = amount := by omega
    obtain ⟨asked, later, calls, only⟩ := calls_collectUtxos _ 0
    rw [calls] at sent
    set utxos := listed network answers deposits 0
    obtain elsewhere | sent := List.mem_append.mp sent
    · obtain ⟨address, other⟩ := only _ elsewhere
      cases other
    by_cases selected : selectUtxos utxos amount.toNat feeSats = []
    · rw [if_pos selected] at sent
      cases sent
    rw [if_neg selected] at sent
    cases decoded : config.decodeAddress network (cleanAddress withdrawal.ecashAddress) with
    | none =>
      rw [decoded] at sent
      cases sent
    | some address =>
      rw [decoded] at sent
      obtain same | last := List.mem_cons.mp sent
      · cases same
        refine ⟨address, amount.toNat, rfl, by rw [exact], ?_⟩
        rw [onNetwork_buildTx]
        exact buildTransaction_wellFormed_iff (fun item member => mem_listed member) selected
      · cases last

/-! ## Samples -/

/-- A funded row at an index of its own. -/
def fundedAt (id index : Nat) : Api.FundedDeposit :=
  ⟨id, .signet, HDWallet.transparent.deriveDepositAddress .signet index, index, 1800⟩

/-- The server lists one output for every address, and takes every transaction. -/
def sampleAnswers (point : Nat → Text → OutPoint) (count : Nat) : ∀ call, Reply call
  | .utxos _ address => some [⟨point count address, address, 1800, some 1, .received⟩]
  | .broadcast _ _ _ => some 9
  | .checkin => none
  | .pendingDeposits => none
  | .patchDeposit _ _ => none
  | .fundedDeposits => none
  | .pendingWithdrawals => none
  | .patchWithdrawal _ _ => none
  | .now _ => Nat.zero
  | .tipHeight _ => none
  | .sendTransaction _ _ _ => none
  | .waitForTransactionReceipt _ _ _ => none
  | .getTransaction _ _ => none

def payableRow : Withdrawal where
  id := 1
  network := .signet
  snowsideAddress := []
  ecashAddress := ['b']
  amountSats := some 2000
  createdAt := 0

/-- The transactions that are handed to broadcast for two rows. -/
def broadcasts (point : Nat → Text → OutPoint) (first second : Api.FundedDeposit) : List PayoutTx :=
  ((buildSignAndBroadcastWithdrawal sampleConfig .signet payableRow [first, second] .transparent ['c']).calls
    (sampleAnswers point) 0).filterMap fun call => call.payout.map fun payout => payout.2.1

/-- Two rows with an address and an output each. -/
theorem broadcast_wellFormed_iff_sample : ∃ tx : PayoutTx,
    (tx.onNetwork .signet).WellFormed .transparent .signet [fundedAt 1 10, fundedAt 2 11]
      (listed .signet (sampleAnswers fun count _ => ⟨5, count⟩) [fundedAt 1 10, fundedAt 2 11] 0) 2000 ['b'] ['c'] := by
  have sent : Call.broadcast .signet (buildTx .transparent .signet (selectUtxos
      (listed .signet (sampleAnswers fun count _ => ⟨5, count⟩) [fundedAt 1 10, fundedAt 2 11] 0) 2000 feeSats) 2000 ['b'] ['c'])
      payableRow ∈ (buildSignAndBroadcastWithdrawal sampleConfig .signet payableRow [fundedAt 1 10, fundedAt 2 11]
        .transparent ['c']).calls (sampleAnswers fun count _ => ⟨5, count⟩) 0 :=
    List.mem_of_getElem? (show _[2]? = some _ from rfl)
  obtain ⟨address, targetSats, decoded, priced, formed⟩ := broadcast_wellFormed_iff sampleConfig .signet payableRow
    [fundedAt 1 10, fundedAt 2 11] .transparent ['c'] (sampleAnswers fun count _ => ⟨5, count⟩) sent
  obtain rfl : 2000 = targetSats := by
    have priced : some (2000 : Int) = some (targetSats : Int) := priced
    have := Option.some.inj priced
    omega
  cases decoded
  exact ⟨_, formed.mpr (.of_nodup _ (by decide))⟩

/-- Two rows share an address, and its only output becomes both inputs. -/
theorem shared_address_spent_twice :
    (broadcasts (fun _ _ => ⟨5, 0⟩) (fundedAt 1 10) (fundedAt 2 10)).map (fun tx =>
      (tx.onNetwork .signet).inputs.map TxInput.point) = [[⟨5, 0⟩, ⟨5, 0⟩]] ∧
    ∀ tx ∈ broadcasts (fun _ _ => ⟨5, 0⟩) (fundedAt 1 10) (fundedAt 2 10), ∀ wallet deposits utxos address changeAddress,
      ¬ (tx.onNetwork .signet).WellFormed wallet .signet deposits utxos 2000 address changeAddress := by
  have points : (broadcasts (fun _ _ => ⟨5, 0⟩) (fundedAt 1 10) (fundedAt 2 10)).map (fun tx =>
      (tx.onNetwork .signet).inputs.map TxInput.point) = [[⟨5, 0⟩, ⟨5, 0⟩]] := by decide +kernel
  refine ⟨points, fun tx member wallet deposits utxos address changeAddress formed => ?_⟩
  have distinct := formed.distinct
  have same : (tx.onNetwork .signet).inputs.map TxInput.point ∈ (broadcasts (fun _ _ => ⟨5, 0⟩) (fundedAt 1 10)
      (fundedAt 2 10)).map fun tx => (tx.onNetwork .signet).inputs.map TxInput.point := List.mem_map_of_mem member
  rw [points] at same
  rw [List.mem_singleton.mp same] at distinct
  exact absurd distinct (by decide)

end Snowside
