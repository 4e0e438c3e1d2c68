import Snowside.TxPool.PoolSafety

/-! A remote transaction is refused as underpriced only if no remote transaction of the pool is cheaper. -/

set_option autoImplicit false

namespace Snowside.TxPool

open Precompile (Hash)
open Runs (Reach)

variable {ok : Transaction → Prop} {baseFee : Option Nat} {all : Lookup} {priced : PricedList} {tx other head : Transaction}
  {heap : List Transaction}

theorem priceCmp_lt_iff (baseFee : Option Nat) (a b : Transaction) : priceCmp baseFee a b = .lt ↔
    let tip := fun tx => baseFee.elim 0 fun baseFee => effectiveGasTip baseFee tx
    tip a < tip b ∨ tip a = tip b ∧ (a.gasFeeCap < b.gasFeeCap ∨ a.gasFeeCap = b.gasFeeCap ∧ a.gasTipCap < b.gasTipCap) := by
  have tips : (baseFee.elim Ordering.eq fun baseFee => compare (effectiveGasTip baseFee a) (effectiveGasTip baseFee b)) =
      compare (baseFee.elim 0 fun baseFee => effectiveGasTip baseFee a) (baseFee.elim 0 fun baseFee => effectiveGasTip baseFee b) := by
    cases baseFee <;> rfl
  simp only [priceCmp, tips, Ordering.then_eq_lt, compare_lt_iff_lt, compare_eq_iff_eq, Ordering.then_eq_eq]
  omega

theorem priceCmp_ne_lt (bound : priceLess baseFee other head = false) (worse : priceCmp baseFee head tx ≠ .lt) :
    priceCmp baseFee other tx ≠ .lt := by
  intro cheaper
  have bound : priceCmp baseFee other head ≠ .lt := fun less => by simp [priceLess, less] at bound
  rw [ne_eq, priceCmp_lt_iff] at bound worse
  rw [priceCmp_lt_iff] at cheaper
  dsimp only at bound worse cheaper
  omega

/-- A heap without stale heads begins with a remote transaction of the pool, the cheapest of the heap. -/
theorem dropStale_head {less : Transaction → Transaction → Bool} (weak : Heap.Weak less) (all : Lookup)
    (ordered : Heap.Ordered less heap) (first : (PricedList.dropStale less all heap).2[0]? = some head) :
    all.getRemote head.hash ≠ none ∧ ∀ other ∈ (PricedList.dropStale less all heap).2, less other head = false := by
  fun_induction PricedList.dropStale less all heap with
  | case1 heap top rest popped stale count heap' dropped ih =>
    rw [dropped] at ih
    exact ih (ordered.of_pop weak popped) first
  | case2 heap top rest popped fresh =>
    obtain ⟨rest', popped', -⟩ := ordered.pop weak first
    obtain rfl : top = head := congrArg Prod.fst (Option.some.inj (popped.symm.trans popped'))
    exact ⟨fresh, fun other member => ordered.first weak first member⟩
  | case3 heap popped =>
    obtain ⟨rest', popped', -⟩ := ordered.pop weak first
    simp [popped] at popped'

/-- The remote transactions of a heap, against a new transaction. -/
theorem worse_spec {terms : Terms} (sane : Sane terms all priced) (identified : Pool.Identified terms.ok)
    (good : ∀ other ∈ heap, terms.ok other) (ordered : Heap.Ordered (priceLess baseFee) heap)
    (fresh : ∀ head, heap[0]? = some head → all.getRemote head.hash ≠ none) (tx : Transaction) :
    (PricedList.worse baseFee heap tx = true → ∀ other ∈ heap, priceCmp baseFee other tx ≠ .lt) ∧
      (heap ≠ [] → ∃ hash other, all.remotes.lookup hash = some other ∧ other ∈ heap ∧
        (PricedList.worse baseFee heap tx = false → priceCmp baseFee other tx = .lt)) := by
  cases heap with
  | nil => exact ⟨fun worse => (by cases worse), fun nonempty => absurd rfl nonempty⟩
  | cons head rest =>
    refine ⟨fun worse other member => ?_, fun _ => ?_⟩
    · have least := ordered.first (priceLess_weak baseFee) (x := head) rfl member
      exact priceCmp_ne_lt least (by simpa [PricedList.worse] using worse)
    · obtain ⟨known, found⟩ := Option.ne_none_iff_exists'.mp (fresh head rfl)
      have same : known = head := identified known head (sane.known _ known (.inr found)) (good head List.mem_cons_self)
        (sane.keyed _ known found)
      exact ⟨head.hash, head, same ▸ found, List.mem_cons_self, fun better => by simpa [PricedList.worse] using better⟩

/-- The answer of `Underpriced`, from the heaps without their stale heads. -/
theorem underpriced_fst (all : Lookup) (priced : PricedList) (tx : Transaction) :
    let urgent := (PricedList.dropStale (priceLess priced.baseFee) all priced.urgent).2
    let floating := (PricedList.dropStale (priceLess none) all priced.floating).2
    (priced.underpriced all tx).1 = ((PricedList.worse priced.baseFee urgent tx || urgent.isEmpty) &&
      (PricedList.worse none floating tx || floating.isEmpty) && (! urgent.isEmpty || ! floating.isEmpty)) := by
  unfold PricedList.underpriced
  dsimp only
  split
  · rename_i first
    split
    · rename_i second
      rw [first, second]
      rfl
    · rename_i second
      rw [first, Bool.eq_false_of_not_eq_true second]
      rfl
  · rename_i first
    rw [Bool.eq_false_of_not_eq_true first]
    rfl

/-- A transaction is underpriced if no remote transaction is cheaper by the order that its heap goes by, and is not if
one is, or if there is none. -/
theorem Sane.underpriced_spec {guest : Option Evm.Address} (sane : Sane ⟨ok, guest, []⟩ all priced) (identified : Pool.Identified ok)
    (tx : Transaction) :
    ((priced.underpriced all tx).1 = true → (∃ hash other, all.remotes.lookup hash = some other) ∧
      ∀ hash other, all.remotes.lookup hash = some other → priceCmp priced.baseFee other tx ≠ .lt ∨ priceCmp none other tx ≠ .lt) ∧
    ((priced.underpriced all tx).1 = false → (∃ hash other, all.remotes.lookup hash = some other) →
      ∃ hash other, all.remotes.lookup hash = some other ∧
        (priceCmp priced.baseFee other tx = .lt ∨ priceCmp none other tx = .lt)) := by
  obtain ⟨gone, perm, stale, ordered⟩ := dropStale_sheds (priceLess_weak priced.baseFee) all sane.urgentOrdered
  have sane₁ := sane.shedUrgent perm stale ordered
  obtain ⟨gone', perm', stale', ordered'⟩ := dropStale_sheds (priceLess_weak none) all sane₁.floatingOrdered
  have sane₂ := sane₁.shedFloating perm' stale' ordered'
  obtain ⟨urgentWorse, urgentHead⟩ := worse_spec sane₂ identified sane₂.urgent ordered
    (fun head first => (dropStale_head (priceLess_weak priced.baseFee) all sane.urgentOrdered first).1) tx
  obtain ⟨floatingWorse, floatingHead⟩ := worse_spec sane₂ identified sane₂.floating ordered'
    (fun head first => (dropStale_head (priceLess_weak none) all sane₁.floatingOrdered first).1) tx
  have covered (hash : Hash) (other : Transaction) (found : all.remotes.lookup hash = some other) :=
    (sane₂.covered hash other found).imp_right fun rest => rest.resolve_right List.not_mem_nil
  rw [underpriced_fst]
  dsimp only at covered urgentWorse urgentHead floatingWorse floatingHead ⊢
  generalize (PricedList.dropStale (priceLess priced.baseFee) all priced.urgent).2 = urgent at *
  generalize (PricedList.dropStale (priceLess none) all priced.floating).2 = floating at *
  constructor
  · intro under
    simp only [Bool.and_eq_true, Bool.or_eq_true, Bool.not_eq_true', List.isEmpty_iff, List.isEmpty_eq_false_iff] at under
    obtain ⟨⟨first, second⟩, some_⟩ := under
    refine ⟨?_, fun hash other found => ?_⟩
    · rcases some_ with some_ | some_
      · obtain ⟨hash, other, found, -⟩ := urgentHead some_
        exact ⟨hash, other, found⟩
      · obtain ⟨hash, other, found, -⟩ := floatingHead some_
        exact ⟨hash, other, found⟩
    · rcases covered hash other found with inside | inside
      · exact .inl (urgentWorse (first.resolve_right (List.ne_nil_of_mem inside)) other inside)
      · exact .inr (floatingWorse (second.resolve_right (List.ne_nil_of_mem inside)) other inside)
  · rintro better ⟨hash, other, found⟩
    simp only [Bool.and_eq_false_iff, Bool.or_eq_false_iff, Bool.not_eq_false', List.isEmpty_iff, List.isEmpty_eq_false_iff] at better
    rcases better with (⟨cheaper, some_⟩ | ⟨cheaper, some_⟩) | ⟨none, nothing⟩
    · obtain ⟨hash, head, found, -, less⟩ := urgentHead some_
      exact ⟨hash, head, found, .inl (less cheaper)⟩
    · obtain ⟨hash, head, found, -, less⟩ := floatingHead some_
      exact ⟨hash, head, found, .inr (less cheaper)⟩
    · rcases covered hash other found with inside | inside
      · exact absurd none (List.ne_nil_of_mem inside)
      · exact absurd nothing (List.ne_nil_of_mem inside)

namespace Pool

end Pool

end Snowside.TxPool
