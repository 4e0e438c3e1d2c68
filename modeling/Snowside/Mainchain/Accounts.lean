import Mathlib.Algebra.BigOperators.Group.List.Basic
import Mathlib.Algebra.Order.BigOperators.Group.List
import Mathlib.Tactic.Abel
import Snowside.Mainchain

/-! What holds of every ledger that grew by its own steps, and the account of
the coins at a set of addresses that only the withdrawals spend from. -/

set_option autoImplicit false

namespace Snowside

def total (outputs : List Output) : Nat := (outputs.map Output.value).sum

@[simp] theorem total_nil : total [] = 0 := rfl

@[simp] theorem total_cons (output : Output) (rest : List Output) :
    total (output :: rest) = output.value + total rest := by
  rw [total, List.map_cons, List.sum_cons]; rfl

@[simp] theorem total_append (first rest : List Output) : total (first ++ rest) = total first + total rest := by
  rw [total, List.map_append, List.sum_append]; rfl

theorem total_perm {first second : List Output} (same : first.Perm second) : total first = total second :=
  (same.map Output.value).sum_eq

theorem total_filter_add (member : Output → Prop) [DecidablePred member] (outputs : List Output) :
    total (outputs.filter fun output => member output) +
      total (outputs.filter fun output => ¬ member output) = total outputs :=
  List.sum_map_filter_add_sum_map_filter_not member Output.value outputs

/-- Distinct items of a list are worth at most the list. -/
theorem sum_map_le_of_subset {Item : Type} (worth : Item → Nat) {part whole : List Item} (distinct : part.Nodup)
    (inside : part ⊆ whole) : (part.map worth).sum ≤ (whole.map worth).sum := by
  obtain ⟨middle, same, within⟩ := distinct.subperm inside
  rw [← (same.map worth).sum_eq]
  exact (within.map worth).sum_le_sum fun _ _ => Nat.zero_le _

theorem total_le_of_subset {part whole : List Output} (distinct : part.Nodup) (inside : part ⊆ whole) :
    total part ≤ total whole :=
  sum_map_le_of_subset Output.value distinct inside

/-- Only the height changes, and only once. -/
structure Output.Becomes (before after : Output) : Prop where
  point : after.point = before.point
  address : after.address = before.address
  value : after.value = before.value
  origin : after.origin = before.origin
  confirmed : before.height ≠ none → after = before

theorem Output.Becomes.refl (output : Output) : output.Becomes output :=
  ⟨rfl, rfl, rfl, rfl, fun _ => rfl⟩

theorem Output.Becomes.trans {first second third : Output} (left : first.Becomes second)
    (right : second.Becomes third) : first.Becomes third where
  point := right.point.trans left.point
  address := right.address.trans left.address
  value := right.value.trans left.value
  origin := right.origin.trans left.origin
  confirmed settled := by
    obtain rfl := left.confirmed settled
    exact right.confirmed settled

/-- Distinct outputs that stay, up to their heights, are worth at most the later ones. -/
theorem total_le_of_becomes {before after : List Output} (distinct : (before.map Output.point).Nodup)
    (stay : ∀ output ∈ before, ∃ later ∈ after, output.Becomes later) : total before ≤ total after := by
  let entry (output : Output) : OutPoint × Nat := (output.point, output.value)
  have values (outputs : List Output) : total outputs = ((outputs.map entry).map Prod.snd).sum := by
    rw [List.map_map]
    rfl
  rw [values, values]
  refine sum_map_le_of_subset Prod.snd (.of_map Prod.fst ?_) ?_
  · rw [List.map_map]
    exact distinct
  · intro _ member
    obtain ⟨output, known, rfl⟩ := List.mem_map.mp member
    obtain ⟨later, present, becomes⟩ := stay output known
    exact List.mem_map.mpr ⟨later, present, Prod.ext becomes.point becomes.value⟩

namespace Ledger

/-- Every output there ever was. -/
def history (ledger : Ledger) : List Output := ledger.unspent ++ ledger.spent

structure WellFormed (ledger : Ledger) : Prop where
  points : (ledger.history.map Output.point).Nodup
  outputTxids : ∀ output ∈ ledger.history, output.point.txid < ledger.nextTxid
  payoutTxids : ∀ payout ∈ ledger.payouts, payout.txid < ledger.nextTxid
  distinct : (ledger.payouts.map Payout.txid).Nodup
  covered : ∀ payout ∈ ledger.payouts, payout.tx.target + payout.tx.changeValue ≤ payout.tx.inputTotal
  spentBy : ∀ output ∈ ledger.spent, ∃ payout ∈ ledger.payouts, ∃ input ∈ payout.tx.inputs,
    input.point = output.point ∧ input.address = output.address
  spentTotal : total ledger.spent = (ledger.payouts.map fun payout => payout.tx.inputTotal).sum
  changeTotal : total (ledger.history.filter fun output => output.origin = .change) =
    (ledger.payouts.map fun payout => payout.tx.changeValue).sum
  changeOf : ∀ output ∈ ledger.history, output.origin = .change →
    ∃ payout ∈ ledger.payouts, payout.tx.change = some (output.address, output.value)

variable {ledger after : Ledger}

theorem WellFormed.eq_of_point (formed : ledger.WellFormed) {first second : Output}
    (left : first ∈ ledger.history) (right : second ∈ ledger.history) (same : first.point = second.point) :
    first = second :=
  List.inj_on_of_nodup_map formed.points left right same

theorem initial_wellFormed (tip : Nat) : (initial tip).WellFormed where
  points := List.nodup_nil
  outputTxids _ member := absurd member List.not_mem_nil
  payoutTxids _ member := absurd member List.not_mem_nil
  distinct := List.nodup_nil
  covered _ member := absurd member List.not_mem_nil
  spentBy _ member := absurd member List.not_mem_nil
  spentTotal := rfl
  changeTotal := rfl
  changeOf _ member := absurd member List.not_mem_nil

/-! ## What stays -/

/-- Blocks are added and unspent outputs stay, up to the height of what waits. -/
structure Grows (ledger after : Ledger) : Prop where
  tip : ledger.tip ≤ after.tip
  unspent : ∀ output ∈ ledger.unspent, ∃ later ∈ after.unspent, output.Becomes later
  spent : after.spent = ledger.spent
  payouts : after.payouts = ledger.payouts

theorem Grows.refl (ledger : Ledger) : ledger.Grows ledger :=
  ⟨le_rfl, fun output member => ⟨output, member, .refl output⟩, rfl, rfl⟩

theorem Grows.history (grows : ledger.Grows after) :
    ∀ output ∈ ledger.history, ∃ later ∈ after.history, output.Becomes later := by
  intro output member
  obtain unspent | spent := List.mem_append.mp member
  · obtain ⟨later, present, becomes⟩ := grows.unspent output unspent
    exact ⟨later, List.mem_append_left _ present, becomes⟩
  · exact ⟨output, List.mem_append_right _ (by rw [grows.spent]; exact spent), .refl output⟩

/-! ## Payments received -/

theorem receive_grows (ledger : Ledger) (address : Text) (value : Nat) :
    ledger.Grows (ledger.receive address value) :=
  ⟨le_rfl, fun output member => ⟨output, List.mem_append_left _ member, .refl output⟩, rfl, rfl⟩

theorem receive_history (address : Text) (value : Nat) :
    (ledger.receive address value).history.Perm (ledger.history ++
      [{ point := ⟨ledger.nextTxid, 0⟩, address, value, height := none, origin := .received }]) := by
  simp only [history, receive, List.append_assoc]
  exact List.perm_append_comm.append_left _

theorem receive_wellFormed (formed : ledger.WellFormed) (address : Text) (value : Nat) :
    (ledger.receive address value).WellFormed := by
  have grown := ledger.receive_history address value
  refine { formed with points := ?_, outputTxids := ?_, payoutTxids := ?_, changeTotal := ?_, changeOf := ?_ }
  · rw [(grown.map _).nodup_iff, List.map_append, List.nodup_append]
    refine ⟨formed.points, List.nodup_singleton _, ?_⟩
    -- The new output has the next transaction id, which no older one has.
    rintro _ old _ new rfl
    obtain ⟨output, member, same⟩ := List.mem_map.mp old
    have bound := formed.outputTxids output member
    simp only [List.map_cons, List.map_nil, List.mem_singleton] at new
    rw [same, new] at bound
    exact lt_irrefl _ bound
  · intro output member
    rw [grown.mem_iff, List.mem_append, List.mem_singleton] at member
    obtain member | rfl := member
    · exact Nat.lt_succ_of_lt (formed.outputTxids output member)
    · exact Nat.lt_succ_self _
  · exact fun payout member => Nat.lt_succ_of_lt (formed.payoutTxids payout member)
  · rw [total_perm (grown.filter _), List.filter_append, total_append, formed.changeTotal]
    simp [receive]
  · intro output member change
    rw [grown.mem_iff, List.mem_append, List.mem_singleton] at member
    obtain member | rfl := member
    · exact formed.changeOf output member change
    · cases change

/-! ## Blocks -/

@[simp] theorem confirmOutput_point (points : List OutPoint) (height : Nat) (output : Output) :
    (confirmOutput points height output).point = output.point := by
  unfold confirmOutput; split <;> rfl

@[simp] theorem confirmOutput_address (points : List OutPoint) (height : Nat) (output : Output) :
    (confirmOutput points height output).address = output.address := by
  unfold confirmOutput; split <;> rfl

@[simp] theorem confirmOutput_value (points : List OutPoint) (height : Nat) (output : Output) :
    (confirmOutput points height output).value = output.value := by
  unfold confirmOutput; split <;> rfl

@[simp] theorem confirmOutput_origin (points : List OutPoint) (height : Nat) (output : Output) :
    (confirmOutput points height output).origin = output.origin := by
  unfold confirmOutput; split <;> rfl

theorem confirmOutput_confirmed {output : Output} (confirmed : output.height ≠ none)
    (points : List OutPoint) (height : Nat) : confirmOutput points height output = output :=
  if_neg fun waiting => confirmed waiting.1

theorem mineBlock_grows (ledger : Ledger) (points : List OutPoint) : ledger.Grows (ledger.mineBlock points) where
  tip := Nat.le_succ _
  unspent _ member := ⟨_, List.mem_map_of_mem member, confirmOutput_point _ _ _, confirmOutput_address _ _ _,
    confirmOutput_value _ _ _, confirmOutput_origin _ _ _, fun confirmed => confirmOutput_confirmed confirmed _ _⟩
  spent := rfl
  payouts := rfl

/-- A block changes heights only, so totals by anything else stay. -/
theorem total_filter_confirm (member : Output → Prop) [DecidablePred member] (points : List OutPoint)
    (height : Nat) (same : ∀ output, member (confirmOutput points height output) ↔ member output)
    (outputs : List Output) :
    total ((outputs.map (confirmOutput points height)).filter fun output => member output) =
      total (outputs.filter fun output => member output) := by
  rw [List.filter_map, total, total, List.map_map]
  simp only [Function.comp_def, confirmOutput_value, same]

theorem mineBlock_wellFormed (formed : ledger.WellFormed) (points : List OutPoint) :
    (ledger.mineBlock points).WellFormed := by
  refine { formed with points := ?_, outputTxids := ?_, changeTotal := ?_, changeOf := ?_ }
  · have same : (ledger.mineBlock points).history.map Output.point = ledger.history.map Output.point := by
      simp [history, mineBlock, List.map_map, Function.comp_def]
    rw [same]
    exact formed.points
  · intro output member
    rcases List.mem_append.mp member with member | member
    · obtain ⟨before, old, rfl⟩ := List.mem_map.mp member
      rw [confirmOutput_point]
      exact formed.outputTxids before (List.mem_append_left _ old)
    · exact formed.outputTxids output (List.mem_append_right _ member)
  · refine Eq.trans ?_ formed.changeTotal
    simp only [history, mineBlock, List.filter_append, total_append]
    rw [total_filter_confirm (fun output => output.origin = .change) _ _ (by simp)]
  · intro output member change
    rcases List.mem_append.mp member with member | member
    · obtain ⟨before, old, rfl⟩ := List.mem_map.mp member
      rw [confirmOutput_origin] at change
      rw [confirmOutput_address, confirmOutput_value]
      exact formed.changeOf before (List.mem_append_left _ old) change
    · exact formed.changeOf output (List.mem_append_right _ member) change

/-! ## Withdrawals -/

theorem broadcast_eq {withdrawal : Withdrawal} {tx : PayoutTx}
    (accepted : ledger.broadcast withdrawal tx = some after) :
    ledger.Accepts tx ∧ after = { ledger with
      nextTxid := ledger.nextTxid + 1
      unspent := ledger.unspent.filter (fun output => ¬ tx.spends output) ++ tx.outputs ledger.nextTxid
      spent := ledger.spent ++ ledger.unspent.filter fun output => tx.spends output
      payouts := ledger.payouts ++ [⟨withdrawal, ledger.nextTxid, tx⟩] } := by
  unfold broadcast at accepted
  split at accepted
  · next accepts => exact ⟨accepts, (Option.some.inj accepted).symm⟩
  · cases accepted

theorem broadcast_history {withdrawal : Withdrawal} {tx : PayoutTx}
    (accepted : ledger.broadcast withdrawal tx = some after) :
    after.history.Perm (ledger.history ++ tx.outputs ledger.nextTxid) := by
  obtain ⟨-, rfl⟩ := broadcast_eq accepted
  have split := List.filter_append_perm (fun output => decide (tx.spends output)) ledger.unspent
  simp only [history, decide_not] at split ⊢
  set gone := ledger.unspent.filter fun output => decide (tx.spends output)
  set kept := ledger.unspent.filter fun output => !decide (tx.spends output)
  -- Spending moves outputs from one list to the other.
  have moved : (kept ++ tx.outputs ledger.nextTxid ++ (ledger.spent ++ gone)).Perm
      (gone ++ kept ++ (ledger.spent ++ tx.outputs ledger.nextTxid)) := by
    simp only [← Multiset.coe_eq_coe, ← Multiset.coe_add]
    abel
  rw [List.append_assoc ledger.unspent]
  exact moved.trans (split.append_right _)

theorem mem_outputs {tx : PayoutTx} {txid : Nat} {output : Output} (member : output ∈ tx.outputs txid) :
    output.point.txid = txid := by
  simp only [PayoutTx.outputs, List.mem_cons, Option.mem_toList, Option.map_eq_some_iff] at member
  obtain rfl | ⟨change, -, rfl⟩ := member <;> rfl

theorem outputs_nodup (tx : PayoutTx) (txid : Nat) : ((tx.outputs txid).map Output.point).Nodup := by
  cases shape : tx.change <;> simp [PayoutTx.outputs, shape]

/-- The outputs that a withdrawal takes are its inputs. -/
theorem Accepts.spent_perm {tx : PayoutTx} (accepts : ledger.Accepts tx)
    (distinct : (ledger.unspent.map Output.point).Nodup) :
    ((ledger.unspent.filter fun output => tx.spends output).map
        fun output => (output.point, output.address, output.value)).Perm
      (tx.inputs.map fun input => (input.point, input.address, input.value)) := by
  obtain ⟨nodup, known, -⟩ := accepts
  refine (List.perm_ext_iff_of_nodup ?_ ?_).mpr ?_
  · have gone := distinct.sublist (List.filter_sublist.map Output.point :
      List.Sublist ((ledger.unspent.filter fun output => tx.spends output).map Output.point) _)
    exact List.Nodup.of_map Prod.fst (by simpa [List.map_map, Function.comp_def] using gone)
  · exact List.Nodup.of_map Prod.fst (by simpa [List.map_map, Function.comp_def] using nodup)
  · intro entry
    simp only [List.mem_map, List.mem_filter, decide_eq_true_eq]
    constructor
    · rintro ⟨output, ⟨unspent, spends⟩, rfl⟩
      obtain ⟨input, member, same⟩ := List.mem_map.mp spends
      obtain ⟨other, known, point, address, value⟩ := known input member
      -- Points are distinct, so the output is the one that the input names.
      have only := List.inj_on_of_nodup_map distinct known unspent (point.trans same)
      subst only
      exact ⟨input, member, by rw [point, address, value]⟩
    · rintro ⟨input, member, rfl⟩
      obtain ⟨output, unspent, point, address, value⟩ := known input member
      exact ⟨output, ⟨unspent, List.mem_map.mpr ⟨input, member, point.symm⟩⟩, by rw [point, address, value]⟩

theorem Accepts.spent_total {tx : PayoutTx} (accepts : ledger.Accepts tx)
    (distinct : (ledger.unspent.map Output.point).Nodup) :
    total (ledger.unspent.filter fun output => tx.spends output) = tx.inputTotal := by
  have same := ((accepts.spent_perm distinct).map fun entry => entry.2.2).sum_eq
  simpa [List.map_map, Function.comp_def, total, PayoutTx.inputTotal] using same

theorem WellFormed.unspent_nodup (formed : ledger.WellFormed) : (ledger.unspent.map Output.point).Nodup := by
  have points := formed.points
  rw [history, List.map_append] at points
  exact points.of_append_left

theorem total_changes (tx : PayoutTx) (txid : Nat) :
    total ((tx.outputs txid).filter fun output => output.origin = .change) = tx.changeValue := by
  cases shape : tx.change <;> simp [PayoutTx.outputs, PayoutTx.changeValue, shape]

theorem broadcast_wellFormed (formed : ledger.WellFormed) {withdrawal : Withdrawal} {tx : PayoutTx}
    (accepted : ledger.broadcast withdrawal tx = some after) : after.WellFormed := by
  have grown := broadcast_history accepted
  obtain ⟨accepts, rfl⟩ := broadcast_eq accepted
  have gone := accepts.spent_perm formed.unspent_nodup
  refine {
    points := ?_, outputTxids := ?_, payoutTxids := ?_, distinct := ?_, covered := ?_
    spentBy := ?_, spentTotal := ?_, changeTotal := ?_, changeOf := ?_ }
  · rw [(grown.map _).nodup_iff, List.map_append, List.nodup_append]
    refine ⟨formed.points, outputs_nodup tx _, ?_⟩
    rintro _ old _ new rfl
    obtain ⟨output, member, same⟩ := List.mem_map.mp old
    obtain ⟨made, member', same'⟩ := List.mem_map.mp new
    have bound := formed.outputTxids output member
    rw [same, ← same', mem_outputs member'] at bound
    exact lt_irrefl _ bound
  · intro output member
    rw [grown.mem_iff, List.mem_append] at member
    obtain member | member := member
    · exact Nat.lt_succ_of_lt (formed.outputTxids output member)
    · rw [mem_outputs member]
      exact Nat.lt_succ_self _
  · intro payout member
    obtain member | member := List.mem_append.mp member
    · exact Nat.lt_succ_of_lt (formed.payoutTxids payout member)
    · rw [List.mem_singleton.mp member]
      exact Nat.lt_succ_self _
  · rw [List.map_append, List.nodup_append]
    refine ⟨formed.distinct, List.nodup_singleton _, ?_⟩
    -- The payout has the next transaction id.
    rintro _ old _ new rfl
    obtain ⟨payout, member, same⟩ := List.mem_map.mp old
    have bound := formed.payoutTxids payout member
    rw [same, List.mem_singleton.mp new] at bound
    exact lt_irrefl _ bound
  · intro payout member
    obtain member | member := List.mem_append.mp member
    · exact formed.covered payout member
    · rw [List.mem_singleton.mp member]
      exact accepts.2.2
  · intro output member
    obtain member | member := List.mem_append.mp member
    · obtain ⟨payout, old, paid⟩ := formed.spentBy output member
      exact ⟨payout, List.mem_append_left _ old, paid⟩
    · -- What was taken is an input of the new payout.
      have entry := gone.mem_iff.mp (List.mem_map_of_mem member)
      obtain ⟨input, taken, same⟩ := List.mem_map.mp entry
      simp only [Prod.mk.injEq] at same
      exact ⟨_, List.mem_append_right _ (List.mem_singleton_self _), input, taken, same.1, same.2.1⟩
  · rw [total_append, formed.spentTotal, accepts.spent_total formed.unspent_nodup]
    simp
  · rw [total_perm (grown.filter _), List.filter_append, total_append, formed.changeTotal, total_changes]
    simp
  · intro output member change
    rw [grown.mem_iff, List.mem_append] at member
    obtain member | member := member
    · obtain ⟨payout, paid, given⟩ := formed.changeOf output member change
      exact ⟨payout, List.mem_append_left _ paid, given⟩
    · simp only [PayoutTx.outputs, List.mem_cons, Option.mem_toList, Option.map_eq_some_iff] at member
      obtain rfl | ⟨given, shape, rfl⟩ := member
      · cases change
      · exact ⟨_, List.mem_append_right _ (List.mem_singleton_self _), shape⟩

/-! ## The account of a set of addresses -/

section
variable (own : Text → Prop) [DecidablePred own] (ledger : Ledger)

/-- What the addresses hold. -/
def held : Nat := total (ledger.unspent.filter fun output => own output.address)

/-- What the addresses were paid, change aside. -/
def received : Nat := total (ledger.history.filter fun output => output.origin ≠ .change ∧ own output.address)

/-- Change that went elsewhere. -/
def strayChange : Nat := total (ledger.history.filter fun output => output.origin = .change ∧ ¬ own output.address)

/-- Payments of withdrawals and their miner's fees. -/
def paidOut : Nat := (ledger.payouts.map fun payout => payout.tx.target + payout.tx.fee).sum

end

theorem held_eq (own : Text → Prop) [DecidablePred own] (ledger : Ledger) : ledger.held own =
    (((ledger.unspent.map fun output => (output.address, output.value)).filter fun entry => own entry.1).map
      Prod.snd).sum := by
  rw [held, total, List.filter_map, List.map_map]
  rfl

theorem total_filter_filter (first second : Output → Prop) [DecidablePred first] [DecidablePred second]
    (outputs : List Output) :
    total (outputs.filter fun output => first output) =
      total (outputs.filter fun output => first output ∧ second output) +
        total (outputs.filter fun output => first output ∧ ¬ second output) := by
  rw [← total_filter_add second (outputs.filter fun output => first output)]
  simp only [List.filter_filter, Bool.decide_and, Bool.and_comm]

theorem WellFormed.inputTotal (formed : ledger.WellFormed) :
    (ledger.payouts.map fun payout => payout.tx.inputTotal).sum =
      ledger.paidOut + (ledger.payouts.map fun payout => payout.tx.changeValue).sum := by
  rw [paidOut, ← List.sum_map_add]
  congr 1
  refine List.map_congr_left fun payout member => ?_
  have covered := formed.covered payout member
  rw [PayoutTx.fee]
  omega

/-- If the withdrawals spend from these addresses only, they hold what they were
paid, less payments, fees and the change that went elsewhere. -/
theorem WellFormed.accounts (formed : ledger.WellFormed) (own : Text → Prop) [DecidablePred own]
    (ours : ∀ payout ∈ ledger.payouts, ∀ input ∈ payout.tx.inputs, own input.address) :
    ledger.held own + ledger.paidOut + ledger.strayChange own = ledger.received own := by
  have spentOurs : ledger.spent.filter (fun output => own output.address) = ledger.spent := by
    refine List.filter_eq_self.mpr fun output member => ?_
    obtain ⟨payout, paid, input, taken, -, same⟩ := formed.spentBy output member
    simpa [← same] using ours payout paid input taken
  have whole : total (ledger.history.filter fun output => own output.address) =
      ledger.held own + total ledger.spent := by
    rw [history, List.filter_append, total_append, spentOurs, held]
  -- The outputs are split in two ways, by origin and by owner of change.
  have byOrigin := total_filter_filter (fun output => own output.address)
    (fun output => output.origin = .change) ledger.history
  have byOwner := total_filter_filter (fun output => output.origin = .change)
    (fun output => own output.address) ledger.history
  have swap : total (ledger.history.filter fun output => own output.address ∧ output.origin = .change) =
      total (ledger.history.filter fun output => output.origin = .change ∧ own output.address) := by
    simp only [and_comm]
  have rest : total (ledger.history.filter fun output => own output.address ∧ ¬ output.origin = .change) =
      ledger.received own := by
    simp only [received, ne_eq, and_comm]
  have inputs := formed.inputTotal
  have spent := formed.spentTotal
  have change := formed.changeTotal
  rw [strayChange]
  omega

/-- A withdrawal from these addresses takes its inputs from them and may pay some back. -/
theorem WellFormed.broadcast_held (formed : ledger.WellFormed) {own : Text → Prop} [DecidablePred own]
    {withdrawal : Withdrawal} {tx : PayoutTx} (ours : ∀ input ∈ tx.inputs, own input.address)
    (accepted : ledger.broadcast withdrawal tx = some after) :
    after.held own + tx.inputTotal = ledger.held own +
      total ((tx.outputs ledger.nextTxid).filter fun output => own output.address) := by
  obtain ⟨accepts, rfl⟩ := broadcast_eq accepted
  have taken : ledger.unspent.filter (fun output => own output.address ∧ tx.spends output) =
      ledger.unspent.filter fun output => tx.spends output := by
    refine List.filter_congr fun output member => ?_
    -- Only outputs of these addresses are taken.
    suffices tx.spends output → own output.address by simpa
    intro spends
    have entry := (accepts.spent_perm formed.unspent_nodup).mem_iff.mp
      (List.mem_map_of_mem (List.mem_filter.mpr ⟨member, decide_eq_true spends⟩))
    obtain ⟨input, listed, same⟩ := List.mem_map.mp entry
    simp only [Prod.mk.injEq] at same
    exact same.2.1 ▸ ours input listed
  have split := total_filter_filter (fun output => own output.address) (fun output => tx.spends output)
    ledger.unspent
  have spent := accepts.spent_total formed.unspent_nodup
  have kept : (ledger.unspent.filter fun output => ¬ tx.spends output).filter (fun output => own output.address) =
      ledger.unspent.filter fun output => own output.address ∧ ¬ tx.spends output := by
    simp only [List.filter_filter, Bool.decide_and]
  rw [taken, spent] at split
  simp only [held, List.filter_append, total_append, kept]
  omega

end Ledger

end Snowside
