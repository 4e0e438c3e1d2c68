import Snowside.TxPool.Catalogue

/-! The heaps of the prices: they are ordered, and have every remote transaction of the lookup. -/

set_option autoImplicit false

namespace Snowside.TxPool

open Evm (Address)
open Maps (Map lookup_insert_eq lookup_erase_eq mem_keys_iff)
open Precompile (Hash)

theorem priceLess_iff (baseFee : Option Nat) (a b : Transaction) : priceLess baseFee a b = true ↔
    let tip := fun tx => baseFee.elim 0 fun baseFee => effectiveGasTip baseFee tx
    tip a < tip b ∨ tip a = tip b ∧ (a.gasFeeCap < b.gasFeeCap ∨ a.gasFeeCap = b.gasFeeCap ∧
      (a.gasTipCap < b.gasTipCap ∨ a.gasTipCap = b.gasTipCap ∧ b.nonce < a.nonce)) := by
  have tips : (baseFee.elim Ordering.eq fun baseFee => compare (effectiveGasTip baseFee a) (effectiveGasTip baseFee b)) =
      compare (baseFee.elim 0 fun baseFee => effectiveGasTip baseFee a) (baseFee.elim 0 fun baseFee => effectiveGasTip baseFee b) := by
    cases baseFee <;> rfl
  simp only [priceLess, priceCmp, tips]
  generalize (baseFee.elim 0 fun baseFee => effectiveGasTip baseFee a) = first
  generalize (baseFee.elim 0 fun baseFee => effectiveGasTip baseFee b) = second
  rcases lt_trichotomy first second with less | same | more
  · simp [compare_lt_iff_lt.mpr less, less]
  · subst same
    rcases lt_trichotomy a.gasFeeCap b.gasFeeCap with less | same | more
    · simp [compare_lt_iff_lt.mpr less, less]
    · rcases lt_trichotomy a.gasTipCap b.gasTipCap with less | same' | more
      · simp [same, compare_lt_iff_lt.mpr less, less]
      · simp [same, same']
      · simp [same, compare_gt_iff_gt.mpr more, more.not_gt, more.ne']
    · simp [compare_gt_iff_gt.mpr more, more.not_gt, more.ne']
  · simp [compare_gt_iff_gt.mpr more, more.not_gt, more.ne']

theorem priceLess_weak (baseFee : Option Nat) : Heap.Weak (priceLess baseFee) where
  asymm x y less := by
    rw [← Bool.not_eq_true, priceLess_iff]
    rw [priceLess_iff] at less
    dsimp only at less ⊢
    omega
  trans x y z first second := by
    rw [← Bool.not_eq_true, priceLess_iff] at *
    dsimp only at *
    omega

/-- What holds during a part of a step: what all transactions of the pool meet, the account of the
transaction that is about to be added, and transactions that have left the heaps before the lookup. -/
structure Terms where
  ok : Transaction → Prop
  guest : Option Address
  absent : List Transaction

/-- The heaps of the prices beside the lookup. -/
structure Sane (terms : Terms) (all : Lookup) (priced : PricedList) : Prop where
  known : ∀ hash tx, all.locals.lookup hash = some tx ∨ all.remotes.lookup hash = some tx → terms.ok tx
  keyed : ∀ hash tx, all.remotes.lookup hash = some tx → tx.hash = hash
  urgent : ∀ tx ∈ priced.urgent, terms.ok tx
  floating : ∀ tx ∈ priced.floating, terms.ok tx
  covered : ∀ hash tx, all.remotes.lookup hash = some tx →
    tx ∈ priced.urgent ∨ tx ∈ priced.floating ∨ tx ∈ terms.absent
  urgentOrdered : Heap.Ordered (priceLess priced.baseFee) priced.urgent
  floatingOrdered : Heap.Ordered (priceLess none) priced.floating

namespace Sane

variable {terms : Terms} {ok : Transaction → Prop} {guest : Option Address} {absent : List Transaction} {all : Lookup}
  {priced : PricedList} {tx : Transaction}

theorem empty (terms : Terms) : Sane terms newLookup newPricedList where
  known _ _ found := by rcases found with found | found <;> cases found
  keyed _ _ found := by cases found
  urgent _ member := by cases member
  floating _ member := by cases member
  covered _ _ found := by cases found
  urgentOrdered _ _ _ inside := absurd inside (Nat.not_lt_zero _)
  floatingOrdered _ _ _ inside := absurd inside (Nat.not_lt_zero _)

theorem lookup_remove (all : Lookup) (hash other : Hash) :
    ((all.remove hash).locals.lookup other = none ∨ (all.remove hash).locals.lookup other = all.locals.lookup other) ∧
      ((all.remove hash).remotes.lookup other = none ∨
        (all.remove hash).remotes.lookup other = all.remotes.lookup other ∧ (other = hash → all.get hash = none)) := by
  unfold Lookup.remove
  cases found : all.get hash with
  | none => exact ⟨.inr rfl, .inr ⟨rfl, fun _ => rfl⟩⟩
  | some tx =>
    simp only [lookup_erase_eq]
    by_cases same : other = hash
    · simp [same]
    · simp [same]

theorem remove (sane : Sane terms all priced) (hash : Hash) : Sane terms (all.remove hash) priced := by
  have before (other : Hash) (tx : Transaction) (found : (all.remove hash).remotes.lookup other = some tx) :
      all.remotes.lookup other = some tx := by
    rcases (lookup_remove all hash other).2 with gone | ⟨same, -⟩
    · rw [gone] at found
      cases found
    · exact same.symm.trans found
  refine ⟨fun other tx found => ?_, fun other tx found => sane.keyed other tx (before other tx found), sane.urgent,
    sane.floating, fun other tx found => sane.covered other tx (before other tx found), sane.urgentOrdered, sane.floatingOrdered⟩
  rcases found with found | found
  · rcases (lookup_remove all hash other).1 with gone | same
    · rw [gone] at found
      cases found
    · exact sane.known other tx (.inl (same.symm.trans found))
  · exact sane.known other tx (.inr (before other tx found))

/-- A transaction that has left the heaps leaves the lookup. -/
theorem removeAbsent (sane : Sane ⟨ok, guest, tx :: absent⟩ all priced) : Sane ⟨ok, guest, absent⟩ (all.remove tx.hash) priced := by
  have removed := sane.remove tx.hash
  refine ⟨removed.known, removed.keyed, removed.urgent, removed.floating, fun other tx' found => ?_,
    removed.urgentOrdered, removed.floatingOrdered⟩
  rcases removed.covered other tx' found with inside | inside | inside
  · exact .inl inside
  · exact .inr (.inl inside)
  · rcases List.mem_cons.mp inside with rfl | later
    · have same := removed.keyed other tx' found
      rcases (lookup_remove all tx'.hash other).2 with gone | ⟨kept, missing⟩
      · rw [gone] at found
        cases found
      · rw [Lookup.get, Option.or_eq_none_iff] at missing
        have nothing := (missing same.symm).2
        rw [same, ← kept, found] at nothing
        cases nothing
    · exact .inr (.inr later)

theorem put (sane : Sane ⟨ok, guest, tx :: absent⟩ all priced) (good : ok tx) :
    Sane ⟨ok, guest, absent⟩ all (priced.put tx false) := by
  have perm := Heap.push_perm (priceLess priced.baseFee) priced.urgent tx
  refine ⟨sane.known, sane.keyed, fun other member => ?_, sane.floating, fun other tx' found => ?_,
    sane.urgentOrdered.push (priceLess_weak _) tx, sane.floatingOrdered⟩
  · rcases List.mem_cons.mp (perm.mem_iff.mp member) with rfl | inside
    · exact good
    · exact sane.urgent other inside
  · rcases sane.covered other tx' found with inside | inside | inside
    · exact .inl (perm.mem_iff.mpr (List.mem_cons_of_mem _ inside))
    · exact .inr (.inl inside)
    · rcases List.mem_cons.mp inside with rfl | later
      · exact .inl (perm.mem_iff.mpr List.mem_cons_self)
      · exact .inr (.inr later)

/-- Dropped transactions are put back. -/
theorem putBack {drop : List Transaction} (sane : Sane ⟨ok, guest, drop ++ absent⟩ all priced) (good : ∀ tx ∈ drop, ok tx) :
    Sane ⟨ok, guest, absent⟩ all { priced with urgent := drop.foldl (Heap.push (priceLess priced.baseFee)) priced.urgent } := by
  induction drop generalizing priced with
  | nil => exact sane
  | cons tx rest ih =>
    exact ih (sane.put (good tx List.mem_cons_self)) fun other member => good other (List.mem_cons_of_mem _ member)

theorem foldl_put (drop : List Transaction) (priced : PricedList) :
    drop.foldl (fun priced tx => priced.put tx false) priced =
      { priced with urgent := drop.foldl (Heap.push (priceLess priced.baseFee)) priced.urgent } := by
  induction drop generalizing priced with
  | nil => rfl
  | cons tx rest ih => exact ih (priced.put tx false)

theorem add (sane : Sane terms all priced) (good : terms.ok tx) (isLocal : Bool) :
    Sane terms (all.add tx isLocal) (priced.put tx isLocal) := by
  cases isLocal with
  | true =>
    refine ⟨fun other tx' found => ?_, sane.keyed, sane.urgent, sane.floating, sane.covered, sane.urgentOrdered,
      sane.floatingOrdered⟩
    rcases found with found | found
    · change (all.locals.insert tx.hash tx).lookup other = some tx' at found
      rw [lookup_insert_eq] at found
      split at found
      · cases found
        exact good
      · exact sane.known other tx' (.inl found)
    · exact sane.known other tx' (.inr found)
  | false =>
    have added (other : Hash) (tx' : Transaction) (found : (all.add tx false).remotes.lookup other = some tx') :
        tx' = tx ∧ other = tx.hash ∨ all.remotes.lookup other = some tx' := by
      change (all.remotes.insert tx.hash tx).lookup other = some tx' at found
      rw [lookup_insert_eq] at found
      split at found
      · rename_i same
        cases found
        exact .inl ⟨rfl, same⟩
      · exact .inr found
    have perm := Heap.push_perm (priceLess priced.baseFee) priced.urgent tx
    refine ⟨fun other tx' found => ?_, fun other tx' found => ?_, fun other member => ?_, sane.floating,
      fun other tx' found => ?_, sane.urgentOrdered.push (priceLess_weak _) tx, sane.floatingOrdered⟩
    · rcases found with found | found
      · exact sane.known other tx' (.inl found)
      · rcases added other tx' found with ⟨rfl, -⟩ | before
        · exact good
        · exact sane.known other tx' (.inr before)
    · rcases added other tx' found with ⟨rfl, rfl⟩ | before
      · rfl
      · exact sane.keyed other tx' before
    · rcases List.mem_cons.mp (perm.mem_iff.mp member) with rfl | inside
      · exact good
      · exact sane.urgent other inside
    · rcases added other tx' found with ⟨rfl, -⟩ | before
      · exact .inl (perm.mem_iff.mpr List.mem_cons_self)
      · rcases sane.covered other tx' before with inside | inside
        · exact .inl (perm.mem_iff.mpr (List.mem_cons_of_mem _ inside))
        · exact .inr inside

/-! ## Reheaping -/

theorem popMany_perm (less : Transaction → Transaction → Bool) (count : Nat) (heap : List Transaction) :
    heap.Perm ((PricedList.popMany less count heap).1 ++ (PricedList.popMany less count heap).2) := by
  induction count generalizing heap with
  | zero => exact .refl _
  | succ count ih =>
    unfold PricedList.popMany
    split
    · rename_i tx rest popped
      exact (Heap.pop_perm popped).trans (List.Perm.cons tx (ih rest))
    · exact .refl _

theorem popMany_ordered {less : Transaction → Transaction → Bool} (weak : Heap.Weak less) (count : Nat) {heap : List Transaction}
    (ordered : Heap.Ordered less heap) : Heap.Ordered less (PricedList.popMany less count heap).2 := by
  induction count generalizing heap with
  | zero => exact ordered
  | succ count ih =>
    unfold PricedList.popMany
    split
    · rename_i tx rest popped
      exact ih (ordered.of_pop weak popped)
    · exact ordered

theorem mem_rangeRemotes (ranges : Ranges) : tx ∈ all.rangeRemotes ranges ↔ ∃ hash, all.remotes.lookup hash = some tx := by
  simp only [Lookup.rangeRemotes, List.mem_filterMap, (ranges.hashes_perm _).mem_iff]
  constructor
  · rintro ⟨hash, -, found⟩
    exact ⟨hash, found⟩
  · rintro ⟨hash, found⟩
    exact ⟨hash, mem_keys_iff.mpr ⟨tx, found⟩, found⟩

theorem mem_reheap (ranges : Ranges) (all : Lookup) (priced : PricedList) :
    tx ∈ (priced.reheap ranges all).urgent ∨ tx ∈ (priced.reheap ranges all).floating ↔
      ∃ hash, all.remotes.lookup hash = some tx := by
  rw [← mem_rangeRemotes ranges]
  have first := Heap.init_perm (priceLess priced.baseFee) (all.rangeRemotes ranges)
  have second := popMany_perm (priceLess priced.baseFee)
    ((Heap.init (priceLess priced.baseFee) (all.rangeRemotes ranges)).length / 5)
    (Heap.init (priceLess priced.baseFee) (all.rangeRemotes ranges))
  unfold PricedList.reheap
  dsimp only
  rw [(Heap.init_perm _ _).mem_iff, ← first.mem_iff, second.mem_iff, List.mem_append]
  exact or_comm

theorem of_reheap (known : ∀ hash tx, all.locals.lookup hash = some tx ∨ all.remotes.lookup hash = some tx → terms.ok tx)
    (keyed : ∀ hash tx, all.remotes.lookup hash = some tx → tx.hash = hash) (ranges : Ranges) (priced : PricedList) :
    Sane terms all (priced.reheap ranges all) where
  known := known
  keyed := keyed
  urgent tx member := by
    obtain ⟨hash, found⟩ := (mem_reheap ranges all priced).mp (.inl member)
    exact known hash tx (.inr found)
  floating tx member := by
    obtain ⟨hash, found⟩ := (mem_reheap ranges all priced).mp (.inr member)
    exact known hash tx (.inr found)
  covered hash tx found := by
    rcases (mem_reheap ranges all priced).mpr ⟨hash, found⟩ with inside | inside
    · exact .inl inside
    · exact .inr (.inl inside)
  urgentOrdered := popMany_ordered (priceLess_weak _) _ (Heap.ordered_init (priceLess_weak _) _)
  floatingOrdered := Heap.ordered_init (priceLess_weak _) _

theorem reheap (sane : Sane terms all priced) (ranges : Ranges) : Sane terms all (priced.reheap ranges all) :=
  of_reheap sane.known sane.keyed ranges priced

theorem setBaseFee (sane : Sane terms all priced) (ranges : Ranges) (baseFee : Option Nat) :
    Sane terms all (priced.setBaseFee ranges all baseFee) :=
  of_reheap sane.known sane.keyed ranges _

theorem removed (sane : Sane terms all priced) (ranges : Ranges) (count : Int) :
    Sane terms all (priced.removed ranges all count) := by
  have counted : Sane terms all { priced with stales := priced.stales + count } :=
    ⟨sane.known, sane.keyed, sane.urgent, sane.floating, sane.covered, sane.urgentOrdered, sane.floatingOrdered⟩
  unfold PricedList.removed
  dsimp only
  split
  · exact counted
  · exact counted.reheap ranges

theorem remoteToLocals (sane : Sane terms all priced) (ranges : Ranges) (isLocal : Transaction → Bool) :
    Sane terms (all.remoteToLocals ranges isLocal).2 priced := by
  unfold Lookup.remoteToLocals
  generalize (ranges.hashes all.remotes.keys).filter _ = hashes
  generalize (0 : Nat) = count
  induction hashes generalizing count all with
  | nil => exact sane
  | cons hash rest ih =>
    rw [List.foldl_cons]
    dsimp only
    cases found : all.remotes.lookup hash with
    | none => exact ih sane count
    | some tx =>
      refine ih ?_ (count + 1)
      have before (other : Hash) (tx' : Transaction) (there : (all.remotes.erase hash).lookup other = some tx') :
          all.remotes.lookup other = some tx' := by
        rw [lookup_erase_eq] at there
        split at there
        · cases there
        · exact there
      refine ⟨fun other tx' there => ?_, fun other tx' there => sane.keyed other tx' (before other tx' there), sane.urgent,
        sane.floating, fun other tx' there => sane.covered other tx' (before other tx' there), sane.urgentOrdered,
        sane.floatingOrdered⟩
      rcases there with there | there
      · rw [lookup_insert_eq] at there
        split at there
        · cases there
          exact sane.known hash _ (.inr found)
        · exact sane.known other tx' (.inl there)
      · exact sane.known other tx' (.inr (before other tx' there))

/-! ## Popping -/

/-- A stale head is none of the remote transactions. -/
theorem not_stale (sane : Sane terms all priced) {hash : Hash} {head : Transaction} (found : all.remotes.lookup hash = some tx)
    (stale : all.getRemote head.hash = none) : tx ≠ head := by
  rintro rfl
  have same := sane.keyed hash tx found
  rw [Lookup.getRemote, same, found] at stale
  cases stale

/-- The stales are only counted. -/
theorem setStales (sane : Sane terms all priced) (stales : Int) : Sane terms all { priced with stales } :=
  ⟨sane.known, sane.keyed, sane.urgent, sane.floating, sane.covered, sane.urgentOrdered, sane.floatingOrdered⟩

/-- Stale transactions leave the urgent heap. -/
theorem shedUrgent (sane : Sane terms all priced) {gone rest : List Transaction} (perm : priced.urgent.Perm (gone ++ rest))
    (stale : ∀ tx ∈ gone, all.getRemote tx.hash = none) (ordered : Heap.Ordered (priceLess priced.baseFee) rest) :
    Sane terms all { priced with urgent := rest } := by
  refine ⟨sane.known, sane.keyed, fun tx member => sane.urgent tx (perm.mem_iff.mpr (List.mem_append_right _ member)),
    sane.floating, fun hash tx found => ?_, ordered, sane.floatingOrdered⟩
  refine (sane.covered hash tx found).imp_left fun inside => ?_
  exact (List.mem_append.mp (perm.mem_iff.mp inside)).resolve_left fun left => sane.not_stale found (stale tx left) rfl

theorem shedFloating (sane : Sane terms all priced) {gone rest : List Transaction} (perm : priced.floating.Perm (gone ++ rest))
    (stale : ∀ tx ∈ gone, all.getRemote tx.hash = none) (ordered : Heap.Ordered (priceLess none) rest) :
    Sane terms all { priced with floating := rest } := by
  refine ⟨sane.known, sane.keyed, sane.urgent,
    fun tx member => sane.floating tx (perm.mem_iff.mpr (List.mem_append_right _ member)), fun hash tx found => ?_,
    sane.urgentOrdered, ordered⟩
  refine (sane.covered hash tx found).imp_right fun rest => rest.imp_left fun inside => ?_
  exact (List.mem_append.mp (perm.mem_iff.mp inside)).resolve_left fun left => sane.not_stale found (stale tx left) rfl

/-- The heads that are dropped are stale. -/
theorem dropStale_sheds {less : Transaction → Transaction → Bool} (weak : Heap.Weak less) (all : Lookup) {heap : List Transaction}
    (ordered : Heap.Ordered less heap) : ∃ gone, heap.Perm (gone ++ (PricedList.dropStale less all heap).2) ∧
      (∀ tx ∈ gone, all.getRemote tx.hash = none) ∧ Heap.Ordered less (PricedList.dropStale less all heap).2 := by
  fun_induction PricedList.dropStale less all heap with
  | case1 heap head rest popped stale count heap' dropped ih =>
    obtain ⟨gone, perm, stales, left⟩ := ih (ordered.of_pop weak popped)
    rw [dropped] at perm left
    refine ⟨head :: gone, (Heap.pop_perm popped).trans (List.Perm.cons head perm), fun tx member => ?_, left⟩
    rcases List.mem_cons.mp member with rfl | later
    · exact stale
    · exact stales tx later
  | case2 heap head rest popped fresh => exact ⟨[], .refl _, by simp, ordered⟩
  | case3 heap popped => exact ⟨[], .refl _, by simp, ordered⟩

theorem underpriced (sane : Sane terms all priced) (tx : Transaction) : Sane terms all (priced.underpriced all tx).2 := by
  obtain ⟨gone, perm, stale, ordered⟩ := dropStale_sheds (priceLess_weak priced.baseFee) all sane.urgentOrdered
  have first := (sane.shedUrgent perm stale ordered).setStales
    (priced.stales - (PricedList.dropStale (priceLess priced.baseFee) all priced.urgent).1)
  obtain ⟨gone', perm', stale', ordered'⟩ := dropStale_sheds (priceLess_weak none) all first.floatingOrdered
  have second := (first.shedFloating perm' stale' ordered').setStales
    (priced.stales - (PricedList.dropStale (priceLess priced.baseFee) all priced.urgent).1 -
      (PricedList.dropStale (priceLess none) all priced.floating).1)
  unfold PricedList.underpriced
  dsimp only
  split
  · split
    · exact second
    · exact second
  · exact first

/-! ## Discarding -/

theorem mono {guest' : Option Address} {absent' : List Transaction} (sane : Sane ⟨ok, guest, absent⟩ all priced)
    (more : absent ⊆ absent') : Sane ⟨ok, guest', absent'⟩ all priced :=
  ⟨sane.known, sane.keyed, sane.urgent, sane.floating,
    fun hash tx found => (sane.covered hash tx found).imp_right fun rest => rest.imp_right fun inside => more inside,
    sane.urgentOrdered, sane.floatingOrdered⟩

/-- What a discard drops has left the heaps, but not the lookup. -/
theorem discardLoop (slots : Int) (sane : Sane ⟨ok, guest, absent⟩ all priced) :
    Sane ⟨ok, guest, (PricedList.discardLoop all slots priced).2.1 ++ absent⟩ all (PricedList.discardLoop all slots priced).2.2 ∧
      ∀ tx ∈ (PricedList.discardLoop all slots priced).2.1, ok tx := by
  fun_induction PricedList.discardLoop all slots priced generalizing absent with
  | case1 slots priced missing urgent tx rest popped stale ih =>
    have perm : priced.urgent.Perm ([tx] ++ rest) := Heap.pop_perm popped
    have shed := sane.shedUrgent perm (by simpa using stale) (sane.urgentOrdered.of_pop (priceLess_weak _) popped)
    exact ih (shed.setStales _)
  | case2 slots priced missing urgent tx rest popped fresh ih =>
    have perm := Heap.pop_perm popped
    have perm' := Heap.push_perm (priceLess none) priced.floating tx
    refine ih ⟨sane.known, sane.keyed, fun other member => sane.urgent other (perm.mem_iff.mpr (List.mem_cons_of_mem _ member)),
      fun other member => ?_, fun hash other found => ?_, sane.urgentOrdered.of_pop (priceLess_weak _) popped,
      sane.floatingOrdered.push (priceLess_weak _) tx⟩
    · rcases List.mem_cons.mp (perm'.mem_iff.mp member) with rfl | inside
      · exact sane.urgent other (perm.mem_iff.mpr List.mem_cons_self)
      · exact sane.floating other inside
    · rcases sane.covered hash other found with inside | inside | inside
      · rcases List.mem_cons.mp (perm.mem_iff.mp inside) with rfl | left
        · exact .inr (.inl (perm'.mem_iff.mpr List.mem_cons_self))
        · exact .inl left
      · exact .inr (.inl (perm'.mem_iff.mpr (List.mem_cons_of_mem _ inside)))
      · exact .inr (.inr inside)
  | case3 slots priced missing urgent popped => exact ⟨sane, by simp⟩
  | case4 slots priced missing floating tx rest popped stale ih =>
    have perm : priced.floating.Perm ([tx] ++ rest) := Heap.pop_perm popped
    have shed := sane.shedFloating perm (by simpa using stale) (sane.floatingOrdered.of_pop (priceLess_weak _) popped)
    exact ih (shed.setStales _)
  | case5 slots priced missing floating tx rest popped fresh slots' drop priced' looped ih =>
    have perm := Heap.pop_perm popped
    have left : Sane ⟨ok, guest, tx :: absent⟩ all { priced with floating := rest } := by
      refine ⟨sane.known, sane.keyed, sane.urgent,
        fun other member => sane.floating other (perm.mem_iff.mpr (List.mem_cons_of_mem _ member)), fun hash other found => ?_,
        sane.urgentOrdered, sane.floatingOrdered.of_pop (priceLess_weak _) popped⟩
      rcases sane.covered hash other found with inside | inside | inside
      · exact .inl inside
      · rcases List.mem_cons.mp (perm.mem_iff.mp inside) with rfl | left
        · exact .inr (.inr List.mem_cons_self)
        · exact .inr (.inl left)
      · exact .inr (.inr (List.mem_cons_of_mem _ inside))
    obtain ⟨sane', good⟩ := ih left
    rw [looped] at sane' good
    refine ⟨sane'.mono fun other member => ?_, fun other member => ?_⟩
    · simp only [List.mem_append, List.mem_cons] at member ⊢
      tauto
    · rcases List.mem_cons.mp member with rfl | later
      · exact sane.floating other (perm.mem_iff.mpr List.mem_cons_self)
      · exact good other later
  | case6 slots priced missing floating popped => exact ⟨sane, by simp⟩
  | case7 slots priced enough => exact ⟨sane, by simp⟩

theorem discard (sane : Sane ⟨ok, guest, []⟩ all priced) (slots : Int) (force : Bool) :
    Sane ⟨ok, guest, (priced.discard all slots force).1⟩ all (priced.discard all slots force).2.2 ∧
      (∀ tx ∈ (priced.discard all slots force).1, ok tx) ∧
      ((priced.discard all slots force).2.1 = false → (priced.discard all slots force).1 = []) := by
  obtain ⟨dropped, good⟩ := sane.discardLoop slots
  unfold PricedList.discard
  generalize PricedList.discardLoop all slots priced = outcome at dropped good ⊢
  obtain ⟨missing, drop, left⟩ := outcome
  dsimp only at dropped good ⊢
  split
  · exact ⟨dropped.putBack good, by simp⟩
  · rw [List.append_nil] at dropped
    exact ⟨dropped, good, by simp⟩

end Sane

end Snowside.TxPool
