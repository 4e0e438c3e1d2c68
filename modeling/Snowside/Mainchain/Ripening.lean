import Snowside.Mainchain.Accounts

/-! Outputs with enough confirmations, and what a later ledger keeps of them. -/

set_option autoImplicit false

namespace Snowside

namespace Ledger

section
variable (ledger : Ledger) (depth : Nat) (address : Option Text)

/-- The outputs at the address that have so many confirmations. -/
def ripe (outputs : List Output) : List Output :=
  outputs.filter fun output => address = some output.address ∧
    output.height.any fun height => height + depth ≤ ledger.tip + 1

/-- What these are worth, the spent ones included. -/
def matured : Nat := total (ledger.ripe depth address ledger.history)

/-- What of it is spent. -/
def maturedSpent : Nat := total (ledger.ripe depth address ledger.spent)

end

/-- The first ledger has become the second: blocks are added, confirmed outputs
stay as they are, and spent ones stay spent. -/
structure Precedes (ledger after : Ledger) : Prop where
  tip : ledger.tip ≤ after.tip
  confirmed : ∀ output ∈ ledger.history, output.height ≠ none → output ∈ after.history
  spent : ledger.spent ⊆ after.spent

variable {ledger after first second third reading listing last : Ledger} {depth : Nat} {address : Option Text} {output : Output}

theorem Precedes.refl (ledger : Ledger) : ledger.Precedes ledger :=
  ⟨le_rfl, fun _ known _ => known, List.Subset.refl _⟩

theorem Precedes.trans (left : first.Precedes second) (right : second.Precedes third) : first.Precedes third where
  tip := left.tip.trans right.tip
  confirmed output known settled := right.confirmed output (left.confirmed output known settled) settled
  spent := List.Subset.trans left.spent right.spent

theorem Grows.precedes (grows : ledger.Grows after) : ledger.Precedes after where
  tip := grows.tip
  confirmed output known settled := by
    obtain ⟨later, present, becomes⟩ := grows.history output known
    exact becomes.confirmed settled ▸ present
  spent := by rw [grows.spent]; exact List.Subset.refl _

theorem broadcast_precedes {withdrawal : Withdrawal} {tx : PayoutTx}
    (accepted : ledger.broadcast withdrawal tx = some after) : ledger.Precedes after where
  tip := by
    obtain ⟨-, rfl⟩ := broadcast_eq accepted
    exact le_rfl
  confirmed output known _ := (broadcast_history accepted).mem_iff.mpr (List.mem_append_left _ known)
  spent := by
    obtain ⟨-, rfl⟩ := broadcast_eq accepted
    exact List.subset_append_left _ _

/-- An output that is unspent later was unspent before. -/
theorem Precedes.unspent (precedes : ledger.Precedes after) (formed : after.WellFormed) (known : output ∈ ledger.history)
    (later : output ∈ after.unspent) : output ∈ ledger.unspent := by
  rcases List.mem_append.mp known with unspent | spent
  · exact unspent
  · have points := formed.points
    rw [history, List.map_append, List.nodup_append] at points
    exact absurd rfl (points.2.2 _ (List.mem_map_of_mem later) _ (List.mem_map_of_mem (precedes.spent spent)))

/-! ## Ripe outputs -/

theorem mem_ripe {outputs : List Output} : output ∈ ledger.ripe depth address outputs ↔ output ∈ outputs ∧
    address = some output.address ∧ ∃ height, output.height = some height ∧ height + depth ≤ ledger.tip + 1 := by
  simp [ripe, Option.any_eq_true]

theorem ripe_nodup (formed : ledger.WellFormed) : (ledger.ripe depth address ledger.history).Nodup :=
  .filter _ (.of_map Output.point formed.points)

theorem Precedes.ripe_subset (precedes : ledger.Precedes after) :
    ledger.ripe depth address ledger.history ⊆ after.ripe depth address after.history := by
  intro output member
  obtain ⟨known, here, height, confirmed, deep⟩ := mem_ripe.mp member
  have higher := precedes.tip
  exact mem_ripe.mpr ⟨precedes.confirmed output known (by rw [confirmed]; exact Option.some_ne_none _), here, height,
    confirmed, by omega⟩

/-- The unspent outputs of a listing with enough confirmations at an earlier
reading of the tip. If since a first ledger no more has matured and nothing of it
is spent, they are worth what has matured. -/
theorem total_listed (before : first.Precedes reading) (between : reading.Precedes listing) (behind : listing.Precedes last)
    (firstFormed : first.WellFormed) (listingFormed : listing.WellFormed) (lastFormed : last.WellFormed)
    (same : last.matured depth address = first.matured depth address) (unspent : last.maturedSpent depth address = 0) :
    total (reading.ripe depth address listing.unspent) = last.matured depth address := by
  have distinct : (reading.ripe depth address listing.unspent).Nodup :=
    .filter _ (.of_map Output.point listingFormed.unspent_nodup)
  apply Nat.le_antisymm
  · -- What was listed and deep enough then is deep enough now.
    refine total_le_of_subset distinct fun output member => ?_
    obtain ⟨listed, here, height, confirmed, deep⟩ := mem_ripe.mp member
    have higher := between.tip.trans behind.tip
    exact mem_ripe.mpr ⟨behind.confirmed output (List.mem_append_left _ listed)
      (by rw [confirmed]; exact Option.some_ne_none _), here, height, confirmed, by omega⟩
  · -- What had matured at first is unspent or, being spent, worth nothing.
    rw [same, matured, ← total_filter_add (fun output => output ∈ last.unspent)]
    have gone : total ((first.ripe depth address first.history).filter fun output => ¬ output ∈ last.unspent) ≤
        last.maturedSpent depth address := by
      refine total_le_of_subset ((ripe_nodup firstFormed).filter _) fun output member => ?_
      obtain ⟨member, taken⟩ := List.mem_filter.mp member
      obtain ⟨known, ripened⟩ := mem_ripe.mp (((before.trans between).trans behind).ripe_subset member)
      exact mem_ripe.mpr ⟨(List.mem_append.mp known).resolve_left (of_decide_eq_true taken), ripened⟩
    have kept : total ((first.ripe depth address first.history).filter fun output => output ∈ last.unspent) ≤
        total (reading.ripe depth address listing.unspent) := by
      refine total_le_of_subset ((ripe_nodup firstFormed).filter _) fun output member => ?_
      obtain ⟨member, left⟩ := List.mem_filter.mp member
      obtain ⟨known, here, height, confirmed, deep⟩ := mem_ripe.mp (before.ripe_subset member)
      exact mem_ripe.mpr ⟨behind.unspent lastFormed (between.confirmed output known
        (by rw [confirmed]; exact Option.some_ne_none _)) (of_decide_eq_true left), here, height, confirmed, deep⟩
    omega

end Ledger

end Snowside
