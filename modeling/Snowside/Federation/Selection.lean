import Snowside.Federation.Withdraw
import Snowside.Numeral.Largest

/-! The selection of unspent outputs: it fails only for lack of funds, and no smaller one suffices. -/

set_option autoImplicit false

namespace Snowside

/-- What outputs are worth. -/
def worth (utxos : List Candidate) : Nat := (utxos.map Candidate.value).sum

theorem worth_perm {first second : List Candidate} (same : first.Perm second) : worth first = worth second :=
  (same.map Candidate.value).sum_eq

/-- The items by value, as the loop visits them. -/
def byValue (utxos : List Candidate) : List Candidate := utxos.insertionSort fun first second => second.value ≤ first.value

theorem byValue_perm (utxos : List Candidate) : (byValue utxos).Perm utxos := List.perm_insertionSort _ utxos

theorem byValue_descending (utxos : List Candidate) :
    ((byValue utxos).map Candidate.value).Pairwise fun first second => second ≤ first := by
  rw [List.pairwise_map]
  exact List.pairwise_insertionSort _ utxos

/-- The loop takes a prefix: all items, or as many as reach the target and no fewer. -/
theorem takeUntil_prefix (target total : Nat) (items : List Candidate) : ∃ count,
    (takeUntil target total items).1 = items.take count ∧
    (takeUntil target total items).2 = total + worth (items.take count) ∧
    (total < target → target ≤ (takeUntil target total items).2 →
      ∃ earlier, count = earlier + 1 ∧ earlier < items.length ∧ total + worth (items.take earlier) < target) := by
  induction items generalizing total with
  | nil => exact ⟨0, rfl, rfl, fun below reached => absurd reached (Nat.not_le.mpr below)⟩
  | cons item rest ih =>
    rw [takeUntil]
    by_cases reached : target ≤ total + item.value
    · rw [if_pos reached]
      refine ⟨1, by simp, by simp [worth], fun below _ => ⟨0, rfl, Nat.succ_pos _, by simpa [worth] using below⟩⟩
    · rw [if_neg reached]
      obtain ⟨count, taken, sum, least⟩ := ih (total + item.value)
      refine ⟨count + 1, ?_, ?_, fun _ final => ?_⟩
      · rw [List.take_succ_cons, ← taken]
      · rw [List.take_succ_cons, worth, List.map_cons, List.sum_cons, ← Nat.add_assoc]
        exact sum
      · obtain ⟨earlier, rfl, inside, below⟩ := least (Nat.not_le.mp reached) final
        refine ⟨earlier + 1, rfl, Nat.succ_lt_succ inside, ?_⟩
        rw [List.take_succ_cons, worth, List.map_cons, List.sum_cons, ← Nat.add_assoc]
        exact below

section

variable {utxos : List Candidate} {targetSats feeSats : Nat}

/-- A selection is a prefix of the items by value, whose last item the target needs. -/
theorem selectUtxos_prefix (positive : 0 < targetSats + feeSats) (covered : targetSats + feeSats ≤ worth utxos) : ∃ earlier,
    selectUtxos utxos targetSats feeSats = (byValue utxos).take (earlier + 1) ∧ earlier < utxos.length ∧
    targetSats + feeSats ≤ worth ((byValue utxos).take (earlier + 1)) ∧
    worth ((byValue utxos).take earlier) < targetSats + feeSats := by
  obtain ⟨count, taken, sum, least⟩ := takeUntil_prefix (targetSats + feeSats) 0 (byValue utxos)
  have reached : targetSats + feeSats ≤ (takeUntil (targetSats + feeSats) 0 (byValue utxos)).2 := by
    refine (takeUntil_total _ 0 _).mpr ?_
    rw [Nat.zero_add]
    exact covered.trans_eq (worth_perm (byValue_perm utxos)).symm
  obtain ⟨earlier, rfl, inside, below⟩ := least positive reached
  rw [Nat.zero_add] at sum below
  refine ⟨earlier, ?_, (byValue_perm utxos).length_eq ▸ inside, sum ▸ reached, below⟩
  rw [← taken]
  exact if_neg (Nat.not_lt.mpr reached)

end

/-- Nothing is selected exactly when the outputs are worth less than target and fee. What is
selected otherwise reaches them, does not without its last output, and has the fewest outputs. -/
theorem selectUtxos_least (utxos : List Candidate) {targetSats feeSats : Nat} (positive : 0 < targetSats + feeSats) :
    (selectUtxos utxos targetSats feeSats = [] ↔ worth utxos < targetSats + feeSats) ∧
    (targetSats + feeSats ≤ worth utxos →
      (selectUtxos utxos targetSats feeSats : Multiset Candidate) ≤ (utxos : Multiset Candidate) ∧
      targetSats + feeSats ≤ worth (selectUtxos utxos targetSats feeSats) ∧
      worth (selectUtxos utxos targetSats feeSats).dropLast < targetSats + feeSats ∧
      ∀ other : List Candidate, (other : Multiset Candidate) ≤ (utxos : Multiset Candidate) → targetSats + feeSats ≤ worth other →
        (selectUtxos utxos targetSats feeSats).length ≤ other.length) := by
  refine ⟨?_, fun covered => ?_⟩
  · rw [← not_iff_not, Nat.not_lt]
    exact selectUtxos_ne_nil_iff positive
  · obtain ⟨earlier, selected, inside, reached, below⟩ := selectUtxos_prefix positive covered
    have length : ((byValue utxos).take (earlier + 1)).length = earlier + 1 := by
      rw [List.length_take, (byValue_perm utxos).length_eq]
      omega
    rw [selected]
    refine ⟨?_, reached, ?_, fun other sub enough => ?_⟩
    · exact (List.take_sublist _ _).subperm.trans (byValue_perm utxos).subperm
    · rw [List.dropLast_eq_take, length, List.take_take, Nat.add_sub_cancel, Nat.min_eq_left (Nat.le_succ _)]
      exact below
    · rw [length]
      obtain ⟨ordered, same, sub⟩ := (Multiset.coe_le.mp sub).trans (byValue_perm utxos).symm.subperm
      have sub : (other.map Candidate.value).Subperm ((byValue utxos).map Candidate.value) :=
        ⟨ordered.map Candidate.value, same.map _, sub.map _⟩
      have below : (((byValue utxos).map Candidate.value).take earlier).sum < targetSats + feeSats := by
        rw [← List.map_take]
        exact below
      have longer := Largest.length_lt (byValue_descending utxos) sub below enough
      rw [List.length_map] at longer
      exact longer

/-- Four outputs, of which two are as large. -/
def sampleOutputs : List Candidate :=
  [0, 700, 400, 700].mapIdx fun index value => ⟨⟨7, index⟩, value, ⟨1, .signet, [], 0, 1800⟩⟩

theorem selectUtxos_least_sample : selectUtxos sampleOutputs 100 1000 ≠ [] ∧
    ∀ other : List Candidate, (other : Multiset Candidate) ≤ (sampleOutputs : Multiset Candidate) → 1100 ≤ worth other →
      (selectUtxos sampleOutputs 100 1000).length ≤ other.length := by
  obtain ⟨empty, least⟩ := selectUtxos_least sampleOutputs (show 0 < 100 + 1000 by decide)
  exact ⟨empty.not.mpr (by decide), (least (by decide)).2.2.2⟩

end Snowside
