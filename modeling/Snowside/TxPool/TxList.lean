import Mathlib.Algebra.BigOperators.Group.List.Basic
import Snowside.TxPool.SortedMap

/-! The list of an account's transactions, pending (strict) or queued: a sorted map with bounds on
the costs and the gas of its transactions and the sum of their costs.
-/

set_option autoImplicit false

namespace Snowside.TxPool

open Sorted (Increasing)

structure TxList where
  strict : Bool
  txs : SortedMap
  costcap : Nat
  gascap : Nat
  totalcost : Nat

def newList (strict : Bool) : TxList := { strict, txs := .new, costcap := 0, gascap := 0, totalcost := 0 }

/-- The bids of a replacement: each above the old one, and by the price bump. -/
def outbids (priceBump : Nat) (old tx : Transaction) : Bool :=
  let thresholdFeeCap := (100 + priceBump) * old.gasFeeCap / 100
  let thresholdTip := (100 + priceBump) * old.gasTipCap / 100
  ! (tx.gasFeeCap ≤ old.gasFeeCap || tx.gasTipCap ≤ old.gasTipCap) &&
    ! (tx.gasFeeCap < thresholdFeeCap || tx.gasTipCap < thresholdTip)

namespace TxList

def contains (l : TxList) (nonce : Nat) : Bool := (l.txs.get nonce).isSome

/-- A cost above 256 bits or above the total is a panic. -/
def subTotalCost (txs : List Transaction) (l : TxList) : Option TxList :=
  txs.foldlM (fun l tx =>
    if 2 ^ 256 ≤ tx.cost ∨ l.totalcost < tx.cost then none else some { l with totalcost := l.totalcost - tx.cost }) l

/-- What is left of `Add` when no older transaction is better. -/
def insert (l : TxList) (tx : Transaction) (old : Option Transaction) : Bool × Option Transaction × TxList :=
  if 2 ^ 256 ≤ tx.cost then (false, none, l)
  else (true, old, { l with
    totalcost := (l.totalcost + tx.cost) % 2 ^ 256
    txs := l.txs.put tx
    costcap := if l.costcap < tx.cost then tx.cost else l.costcap
    gascap := if l.gascap < tx.gas then tx.gas else l.gascap })

/-- Whether it was accepted, and the transaction that it replaced. -/
def add (l : TxList) (tx : Transaction) (priceBump : Nat) : Option (Bool × Option Transaction × TxList) :=
  match l.txs.get tx.nonce with
  | none => some (l.insert tx none)
  | some old =>
      if outbids priceBump old tx then do
        let l ← l.subTotalCost [old]
        return l.insert tx (some old)
      else some (false, none, l)

def forward (l : TxList) (threshold : Nat) : Option (List Transaction × TxList) := do
  let (removed, txs) ← l.txs.forward threshold
  let l ← { l with txs }.subTotalCost removed
  return (removed, l)

/-- A transaction above the limits. -/
def exceeds (costLimit gasLimit : Nat) (tx : Transaction) : Bool := gasLimit < tx.gas || costLimit < tx.cost

def lowestNonce (txs : List Transaction) : Nat :=
  txs.foldl (fun lowest tx => if tx.nonce < lowest then tx.nonce else lowest) (2 ^ 64 - 1)

def filter (ranges : Ranges) (l : TxList) (costLimit gasLimit : Nat) :
    Option (List Transaction × List Transaction × TxList) :=
  if l.costcap ≤ costLimit ∧ l.gascap ≤ gasLimit then some ([], [], l)
  else
    let (removed, txs) := l.txs.filter ranges (exceeds costLimit gasLimit)
    let l := { l with costcap := costLimit, gascap := gasLimit, txs }
    if removed.isEmpty then some ([], [], l)
    else
      let lowest := lowestNonce removed
      let (invalids, txs) := if l.strict then l.txs.filterItems ranges (lowest < ·.nonce) else ([], l.txs)
      do
        let l ← { l with txs }.subTotalCost removed
        let l ← l.subTotalCost invalids
        return (removed, invalids, { l with txs := l.txs.reheap ranges })

def cap (l : TxList) (threshold : Int) : Option (List Transaction × TxList) := do
  let (drops, txs) ← l.txs.cap threshold
  let l ← { l with txs }.subTotalCost drops
  return (drops, l)

/-- Whether it was found, and what became invalid with it. -/
def remove (ranges : Ranges) (l : TxList) (tx : Transaction) : Option (Bool × List Transaction × TxList) :=
  let (removed, txs) := l.txs.remove tx.nonce
  if ! removed then some (false, [], l)
  else do
    let l ← { l with txs }.subTotalCost [tx]
    if l.strict then
      let (invalids, txs) := l.txs.filter ranges (tx.nonce < ·.nonce)
      let l ← { l with txs }.subTotalCost invalids
      return (true, invalids, l)
    else return (true, [], l)

def ready (l : TxList) (start : Nat) : Option (List Transaction × TxList) := do
  let (ready, txs) ← l.txs.ready start
  let l ← { l with txs }.subTotalCost ready
  return (ready, l)

def len (l : TxList) : Nat := l.txs.len

def isEmpty (l : TxList) : Bool := l.len = 0

def flatten (l : TxList) : List Transaction × TxList :=
  let (txs, map) := l.txs.flatten
  (txs, { l with txs := map })

def lastElement (l : TxList) : Option (Transaction × TxList) :=
  l.txs.lastElement.map fun (tx, map) => (tx, { l with txs := map })

end TxList

/-! ## What it stands for -/

namespace TxList

variable {l : TxList} {tx : Transaction}

/-- So many costs below the bound fit into 256 bits: there are 2^64 nonces. -/
def costBound : Nat := 2 ^ 192

def costs (txs : List Transaction) : Nat := (txs.map Transaction.cost).sum

def contents (l : TxList) : List Transaction := l.txs.contents

structure Sound (l : TxList) : Prop where
  txs : l.txs.Sound
  bounded : ∀ tx ∈ l.contents, tx.cost ≤ l.costcap ∧ tx.gas ≤ l.gascap
  cheap : ∀ tx ∈ l.contents, tx.cost < costBound
  total : l.totalcost = costs l.contents

theorem sound_newList (strict : Bool) : (newList strict).Sound where
  txs := SortedMap.sound_new
  bounded _ member := by simp [contents, newList, SortedMap.contents_new] at member
  cheap _ member := by simp [contents, newList, SortedMap.contents_new] at member
  total := by simp [contents, newList, SortedMap.contents_new, costs]

@[simp] theorem contents_newList (strict : Bool) : (newList strict).contents = [] := SortedMap.contents_new

/-! ### Sums of costs -/

@[simp] theorem costs_nil : costs [] = 0 := rfl

@[simp] theorem costs_cons (tx : Transaction) (txs : List Transaction) : costs (tx :: txs) = tx.cost + costs txs := by
  simp [costs]

@[simp] theorem costs_append (first second : List Transaction) : costs (first ++ second) = costs first + costs second := by
  simp [costs]

theorem costs_perm {first second : List Transaction} (perm : first.Perm second) : costs first = costs second :=
  (perm.map _).sum_eq

/-- An account has as many nonces as 64 bits have values. -/
theorem length_le {txs : List Transaction} (increasing : Increasing Transaction.nonce txs) : txs.length ≤ 2 ^ 64 := by
  have inside : txs.map Transaction.nonce ⊆ List.range (2 ^ 64) := fun nonce member => by
    obtain ⟨tx, -, rfl⟩ := List.mem_map.mp member
    exact List.mem_range.mpr tx.nonce_lt
  have long := (increasing.nodup_keys.subperm inside).length_le
  rwa [List.length_map, List.length_range] at long

theorem costs_lt {txs : List Transaction} (increasing : Increasing Transaction.nonce txs)
    (cheap : ∀ tx ∈ txs, tx.cost < costBound) : costs txs < 2 ^ 256 := by
  have most : costs txs ≤ txs.length * (costBound - 1) := by
    have each := List.sum_le_card_nsmul (txs.map Transaction.cost) (costBound - 1) fun cost member => by
      obtain ⟨tx, inside, rfl⟩ := List.mem_map.mp member
      exact Nat.le_sub_one_of_lt (cheap tx inside)
    simpa [costs] using each
  have few := Nat.mul_le_mul_right (costBound - 1) (length_le increasing)
  have fits : 2 ^ 64 * (costBound - 1) < 2 ^ 256 := by decide
  omega

theorem subTotalCost_eq {txs : List Transaction} (cheap : ∀ tx ∈ txs, tx.cost < costBound) {rest : Nat}
    (total : l.totalcost = costs txs + rest) : l.subTotalCost txs = some { l with totalcost := rest } := by
  induction txs generalizing l with
  | nil =>
    rw [costs_nil, Nat.zero_add] at total
    simp [subTotalCost, ← total]
  | cons tx later ih =>
    rw [costs_cons] at total
    have small : tx.cost < 2 ^ 256 := (cheap tx List.mem_cons_self).trans (by decide)
    have passed : ¬ (2 ^ 256 ≤ tx.cost ∨ l.totalcost < tx.cost) := by omega
    have step : l.subTotalCost (tx :: later) = { l with totalcost := l.totalcost - tx.cost }.subTotalCost later := by
      rw [subTotalCost, List.foldlM_cons, if_neg passed]
      rfl
    rw [step]
    exact ih (fun other member => cheap other (List.mem_cons_of_mem _ member)) (by simp only; omega)

/-! ### Changes -/

/-- The costs of those that leave are subtracted. -/
theorem subTotalCost_leave {before gone left : List Transaction} (total : l.totalcost = costs before)
    (cheap : ∀ tx ∈ before, tx.cost < costBound) (split : before.Perm (gone ++ left)) :
    l.subTotalCost gone = some { l with totalcost := costs left } := by
  refine subTotalCost_eq (fun tx member => cheap tx (split.mem_iff.mpr (List.mem_append_left _ member))) ?_
  rw [total, costs_perm split, costs_append]

/-- Some of the transactions stay. -/
theorem Sound.stay (sound : l.Sound) {txs : SortedMap} (kept : txs.Sound) (inside : txs.contents ⊆ l.contents) :
    Sound { l with txs, totalcost := costs txs.contents } where
  txs := kept
  bounded tx member := sound.bounded tx (inside member)
  cheap tx member := sound.cheap tx (inside member)
  total := rfl

theorem Sound.increasing (sound : l.Sound) : Increasing Transaction.nonce l.contents := sound.txs.increasing

theorem Sound.get_iff (sound : l.Sound) {nonce : Nat} : l.txs.get nonce = some tx ↔ tx ∈ l.contents ∧ tx.nonce = nonce :=
  sound.txs.get_iff

/-- What one step does to a list: some transactions leave it, the others stay. -/
structure Leaves (l : TxList) (gone : List Transaction) (left : List Transaction) (l' : TxList) : Prop where
  sound : l'.Sound
  strict : l'.strict = l.strict
  contents : l'.contents = left
  split : l.contents.Perm (gone ++ left)

theorem Sound.leaves (sound : l.Sound) {txs : SortedMap} {gone : List Transaction} (kept : txs.Sound)
    (split : l.contents.Perm (gone ++ txs.contents)) :
    ∃ l', { l with txs }.subTotalCost gone = some l' ∧ Leaves l gone txs.contents l' :=
  ⟨_, subTotalCost_leave sound.total sound.cheap split,
    sound.stay kept fun _ member => split.mem_iff.mpr (List.mem_append_right _ member), rfl, rfl, split⟩

theorem Sound.forward (sound : l.Sound) (threshold : Nat) :
    ∃ l', l.forward threshold = some (l.contents.takeWhile (·.nonce < threshold), l') ∧
      Leaves l (l.contents.takeWhile (·.nonce < threshold)) (l.contents.dropWhile (·.nonce < threshold)) l' := by
  obtain ⟨txs, forwarded, kept, left⟩ : ∃ txs,
      l.txs.forward threshold = some (l.contents.takeWhile (·.nonce < threshold), txs) ∧ txs.Sound ∧ txs.contents = l.contents.dropWhile (·.nonce < threshold) := sound.txs.forward threshold
  have split : l.contents.Perm (l.contents.takeWhile (·.nonce < threshold) ++ txs.contents) := by
    rw [left]
    exact .of_eq List.takeWhile_append_dropWhile.symm
  obtain ⟨l', subtracted, leaves⟩ := sound.leaves kept split
  rw [left] at leaves
  refine ⟨l', ?_, leaves⟩
  rw [TxList.forward, forwarded]
  simp only [Option.bind_eq_bind, Option.bind_some]
  rw [subtracted]
  rfl

theorem Sound.cap (sound : l.Sound) (threshold : Nat) :
    ∃ l', l.cap threshold = some ((l.contents.drop threshold).reverse, l') ∧
      Leaves l (l.contents.drop threshold).reverse (l.contents.take threshold) l' := by
  obtain ⟨txs, capped, kept, left⟩ : ∃ txs,
      l.txs.cap threshold = some ((l.contents.drop threshold).reverse, txs) ∧ txs.Sound ∧ txs.contents = l.contents.take threshold := sound.txs.cap threshold
  have split : l.contents.Perm ((l.contents.drop threshold).reverse ++ txs.contents) := by
    rw [left]
    exact (List.Perm.of_eq (List.take_append_drop threshold _).symm).trans
      (List.perm_append_comm.trans ((List.reverse_perm _).symm.append_right _))
  obtain ⟨l', subtracted, leaves⟩ := sound.leaves kept split
  rw [left] at leaves
  refine ⟨l', ?_, leaves⟩
  rw [TxList.cap, capped]
  simp only [Option.bind_eq_bind, Option.bind_some]
  rw [subtracted]
  rfl

theorem Sound.ready (sound : l.Sound) (start : Nat) :
    ∃ l', l.ready start = some (Sorted.readies Transaction.nonce start l.contents, l') ∧
      Leaves l (Sorted.readies Transaction.nonce start l.contents)
        (l.contents.drop (Sorted.readies Transaction.nonce start l.contents).length) l' := by
  obtain ⟨txs, popped, kept, split⟩ : ∃ txs,
      l.txs.ready start = some (Sorted.readies Transaction.nonce start l.contents, txs) ∧ txs.Sound ∧ l.contents = Sorted.readies Transaction.nonce start l.contents ++ txs.contents := sound.txs.ready start
  obtain ⟨l', subtracted, leaves⟩ := sound.leaves kept (.of_eq split)
  have left : txs.contents = l.contents.drop (Sorted.readies Transaction.nonce start l.contents).length := by
    have dropped : (Sorted.readies Transaction.nonce start l.contents ++ txs.contents).drop
        (Sorted.readies Transaction.nonce start l.contents).length = txs.contents := List.drop_left
    rw [← split] at dropped
    exact dropped.symm
  rw [left] at leaves
  refine ⟨l', ?_, leaves⟩
  rw [TxList.ready, popped]
  simp only [Option.bind_eq_bind, Option.bind_some]
  rw [subtracted]
  rfl

theorem Sound.remove_absent (sound : l.Sound) (ranges : Ranges) (absent : ∀ other ∈ l.contents, other.nonce ≠ tx.nonce) :
    l.remove ranges tx = some (false, [], l) := by
  have missed : (l.txs.remove tx.nonce).1 = false := by
    rw [(sound.txs.remove tx.nonce).1]
    simpa [TxList.contents] using absent
  simp [TxList.remove, missed]

/-- No other transaction of a list has the same nonce. -/
theorem Sound.split_at (sound : l.Sound) (member : tx ∈ l.contents) :
    l.contents.Perm ([tx] ++ l.contents.filter (·.nonce ≠ tx.nonce)) := by
  have alone : l.contents.filter (fun other => ! decide (other.nonce ≠ tx.nonce)) = [tx] := by
    refine (sound.increasing.filter _).ext (List.pairwise_singleton _ _) fun other => ?_
    simp only [List.mem_filter, ne_eq, decide_not, Bool.not_not, decide_eq_true_eq, List.mem_singleton]
    constructor
    · exact fun ⟨inside, same⟩ => sound.increasing.unique inside member same
    · rintro rfl
      exact ⟨member, rfl⟩
  rw [← alone]
  exact (List.filter_append_perm (fun other => decide (other.nonce ≠ tx.nonce)) l.contents).symm.trans List.perm_append_comm

/-- A transaction leaves, and with it those after it if the list is strict. -/
theorem Sound.remove (sound : l.Sound) (ranges : Ranges) (member : tx ∈ l.contents) :
    ∃ invalids l', l.remove ranges tx = some (true, invalids, l') ∧
      invalids.Perm (if l.strict then l.contents.filter (tx.nonce < ·.nonce) else []) ∧ Leaves l (tx :: invalids)
      (if l.strict then l.contents.takeWhile (·.nonce < tx.nonce) else l.contents.filter (·.nonce ≠ tx.nonce)) l' := by
  obtain ⟨found, kept, left⟩ := sound.txs.remove tx.nonce
  have found : (l.txs.remove tx.nonce).1 = true := by
    rw [found]
    exact List.any_eq_true.mpr ⟨tx, member, by simp⟩
  have left : (l.txs.remove tx.nonce).2.contents = l.contents.filter (·.nonce ≠ tx.nonce) := left
  have split : l.contents.Perm ([tx] ++ (l.txs.remove tx.nonce).2.contents) := by
    rw [left]
    exact sound.split_at member
  obtain ⟨between, subtracted, first⟩ := sound.leaves kept split
  have held : between.txs.contents = l.contents.filter (·.nonce ≠ tx.nonce) := first.contents.trans left
  unfold TxList.remove
  simp only [found, Bool.not_true, Bool.false_eq_true, if_false, Option.bind_eq_bind, subtracted, Option.bind_some]
  by_cases strict : l.strict
  · obtain ⟨invalid, filtered, rest⟩ := first.sound.txs.filter ranges (tx.nonce < ·.nonce)
    have before : (between.txs.filter ranges (tx.nonce < ·.nonce)).2.contents = l.contents.takeWhile (·.nonce < tx.nonce) := by
      rw [rest, held, List.filter_filter, sound.increasing.takeWhile_below]
      refine List.filter_congr fun other _ => ?_
      by_cases below : other.nonce < tx.nonce <;> grind
    have apart : between.contents.Perm ((between.txs.filter ranges (tx.nonce < ·.nonce)).1 ++
        (between.txs.filter ranges (tx.nonce < ·.nonce)).2.contents) := by
      rw [rest]
      exact (List.filter_append_perm _ _).symm.trans (invalid.symm.append_right _)
    obtain ⟨l', subtracted', second⟩ := first.sound.leaves filtered apart
    refine ⟨(between.txs.filter ranges (tx.nonce < ·.nonce)).1, l', ?_, ?_,
      second.sound, second.strict.trans first.strict, ?_, ?_⟩
    · rw [if_pos (first.strict.trans strict), subtracted']
      rfl
    · rw [if_pos strict]
      refine invalid.trans (.of_eq ?_)
      rw [show between.txs.contents = _ from held, List.filter_filter]
      refine List.filter_congr fun other _ => ?_
      by_cases above : tx.nonce < other.nonce <;> simp [above, Nat.ne_of_gt]
    · rw [if_pos strict, second.contents, before]
    · rw [if_pos strict, ← before]
      refine first.split.trans ?_
      rw [← first.contents]
      exact apart.cons tx
  · refine ⟨[], between, ?_, by rw [if_neg strict], first.sound, first.strict, ?_, ?_⟩
    · rw [if_neg (first.strict ▸ strict)]
      rfl
    · rw [if_neg strict]
      exact held
    · rw [if_neg strict, ← left]
      exact split

/-! ### Filtering -/

theorem lowest_bounds (txs : List Transaction) (start : Nat) :
    let lowest := txs.foldl (fun lowest tx => if tx.nonce < lowest then tx.nonce else lowest) start
    lowest ≤ start ∧ (∀ tx ∈ txs, lowest ≤ tx.nonce) ∧ (lowest = start ∨ ∃ tx ∈ txs, tx.nonce = lowest) := by
  induction txs generalizing start with
  | nil => simp
  | cons tx rest ih =>
    obtain ⟨under, below, attained⟩ := ih (if tx.nonce < start then tx.nonce else start)
    have smaller : (if tx.nonce < start then tx.nonce else start) ≤ start ∧
        (if tx.nonce < start then tx.nonce else start) ≤ tx.nonce := by split <;> omega
    simp only [List.foldl_cons, List.mem_cons, forall_eq_or_imp, exists_eq_or_imp]
    refine ⟨under.trans smaller.1, ⟨under.trans smaller.2, below⟩, ?_⟩
    rcases attained with same | found
    · rw [same]
      split
      · exact .inr (.inl rfl)
      · exact .inl rfl
    · exact .inr (.inr found)

/-- Of some transactions, the one with the lowest nonce. -/
theorem exists_lowest {txs : List Transaction} (some_ : txs ≠ []) :
    ∃ tx ∈ txs, lowestNonce txs = tx.nonce ∧
      ∀ other ∈ txs, tx.nonce ≤ other.nonce := by
  obtain ⟨under, below, attained⟩ := lowest_bounds txs (2 ^ 64 - 1)
  rcases attained with last | ⟨tx, member, same⟩
  · obtain ⟨tx, member⟩ := List.exists_mem_of_ne_nil txs some_
    have least := below tx member
    have most := tx.nonce_lt
    have equal : lowestNonce txs = tx.nonce := by
      rw [lowestNonce, last]
      rw [last] at least
      omega
    exact ⟨tx, member, equal, fun other inside => equal ▸ below other inside⟩
  · exact ⟨tx, member, same.symm, fun other inside => same ▸ below other inside⟩

/-- What a filter leaves: a strict list ends at the first transaction above the limits. -/
def fitting (strict : Bool) (costLimit gasLimit : Nat) (txs : List Transaction) : List Transaction :=
  if strict then txs.takeWhile (! exceeds costLimit gasLimit ·) else txs.filter (! exceeds costLimit gasLimit ·)

theorem fitting_self {strict : Bool} {costLimit gasLimit : Nat} {txs : List Transaction}
    (fit : ∀ tx ∈ txs, exceeds costLimit gasLimit tx = false) : fitting strict costLimit gasLimit txs = txs := by
  unfold fitting
  split
  · exact List.takeWhile_eq_self_iff.mpr (by simpa using fit)
  · exact List.filter_eq_self.mpr (by simpa using fit)

theorem Leaves.refl (sound : l.Sound) : Leaves l [] l.contents l := ⟨sound, rfl, rfl, .refl _⟩

variable {costLimit gasLimit : Nat}

theorem within_of_fits (fits : exceeds costLimit gasLimit tx = false) : tx.cost ≤ costLimit ∧ tx.gas ≤ gasLimit := by
  simp only [exceeds, Bool.or_eq_false_iff, decide_eq_false_iff_not] at fits
  omega

/-- With its caps set to limits that all of its transactions meet. -/
theorem capped {txs : SortedMap} (sound : txs.Sound) (cheap : ∀ tx ∈ txs.contents, tx.cost < costBound)
    (fit : ∀ tx ∈ txs.contents, exceeds costLimit gasLimit tx = false) :
    Sound { strict := l.strict, txs, costcap := costLimit, gascap := gasLimit, totalcost := costs txs.contents } where
  txs := sound
  bounded tx member := within_of_fits (fit tx member)
  cheap := cheap
  total := rfl

/-- The end of a filter that removes something. -/
theorem Sound.filtered (sound : l.Sound) (ranges : Ranges) {removed invalids : List Transaction} {txs : SortedMap}
    (keyed : SortedMap.Keyed txs.items) (split : l.contents.Perm (removed ++ (invalids ++ txs.contents)))
    (fit : ∀ tx ∈ txs.contents, exceeds costLimit gasLimit tx = false) :
    ∃ l', (do
        let l ← { l with costcap := costLimit, gascap := gasLimit, txs }.subTotalCost removed
        let l ← l.subTotalCost invalids
        return (removed, invalids, { l with txs := l.txs.reheap ranges }) : Option (List Transaction × List Transaction × TxList)) =
      some (removed, invalids, l') ∧ Leaves l (removed ++ invalids) txs.contents l' := by
  have cheap : ∀ tx ∈ invalids ++ txs.contents, tx.cost < costBound := fun tx member =>
    sound.cheap tx (split.mem_iff.mpr (List.mem_append_right _ member))
  have first := subTotalCost_leave (l := { l with costcap := costLimit, gascap := gasLimit, txs }) sound.total sound.cheap split
  have apart : (invalids ++ txs.contents).Perm (invalids ++ txs.contents) := .refl _
  have second := subTotalCost_leave
    (l := { l with costcap := costLimit, gascap := gasLimit, txs, totalcost := costs (invalids ++ txs.contents) }) rfl cheap apart
  refine ⟨⟨l.strict, txs.reheap ranges, costLimit, gasLimit, costs txs.contents⟩, ?_, ?_, rfl, rfl,
    by rw [List.append_assoc]; exact split⟩
  · rw [first, Option.bind_eq_bind, Option.bind_some, second]
    rfl
  · have kept : (txs.reheap ranges).Sound := SortedMap.Sound.reheap keyed ranges
    exact capped (l := l) kept (fun tx member => cheap tx (List.mem_append_right _ member)) fit

theorem Sound.filter (sound : l.Sound) (ranges : Ranges) (costLimit gasLimit : Nat) :
    ∃ removed invalids l', l.filter ranges costLimit gasLimit = some (removed, invalids, l') ∧
      removed.Perm (l.contents.filter (exceeds costLimit gasLimit)) ∧
      Leaves l (removed ++ invalids) (fitting l.strict costLimit gasLimit l.contents) l' := by
  obtain ⟨out, kept, left⟩ := sound.txs.filter ranges (exceeds costLimit gasLimit)
  have out : (l.txs.filter ranges (exceeds costLimit gasLimit)).1.Perm (l.contents.filter (exceeds costLimit gasLimit)) := out
  have left : (l.txs.filter ranges (exceeds costLimit gasLimit)).2.contents =
      l.contents.filter (! exceeds costLimit gasLimit ·) := left
  generalize shape : l.txs.filter ranges (exceeds costLimit gasLimit) = outcome at out kept left
  obtain ⟨removed, txs⟩ := outcome
  dsimp only at out kept left
  have nothing (fit : ∀ tx ∈ l.contents, exceeds costLimit gasLimit tx = false) :
      [].Perm (l.contents.filter (exceeds costLimit gasLimit)) := by
    rw [List.filter_eq_nil_iff.mpr (by simpa using fit)]
  unfold TxList.filter
  split
  · rename_i below
    have fit : ∀ tx ∈ l.contents, exceeds costLimit gasLimit tx = false := fun tx member => by
      have := sound.bounded tx member
      simp only [exceeds, Bool.or_eq_false_iff, decide_eq_false_iff_not]
      omega
    exact ⟨[], [], l, rfl, nothing fit, by rw [fitting_self fit]; exact .refl sound⟩
  · simp only [shape]
    split
    · rename_i empty
      have empty : removed = [] := List.isEmpty_iff.mp empty
      subst empty
      have fit : ∀ tx ∈ l.contents, exceeds costLimit gasLimit tx = false := by
        simpa using List.filter_eq_nil_iff.mp (List.nil_perm.mp out)
      have same : txs.contents = l.contents := left.trans (List.filter_eq_self.mpr (by simpa using fit))
      refine ⟨[], [], _, rfl, nothing fit, ?_, rfl, ?_, ?_⟩
      · rw [sound.total, ← same]
        exact capped (l := l) kept (by rw [same]; exact sound.cheap) (by rw [same]; exact fit)
      · rw [fitting_self fit]
        exact same
      · rw [fitting_self fit]
        exact .refl _
    · rename_i nonempty
      have some_ : removed ≠ [] := fun empty => nonempty (List.isEmpty_iff.mpr empty)
      obtain ⟨first, among, lowest, earliest⟩ := exists_lowest some_
      obtain ⟨member, failing⟩ := List.mem_filter.mp (out.mem_iff.mp among)
      rw [lowest]
      have fit : ∀ tx ∈ txs.contents, exceeds costLimit gasLimit tx = false := fun tx inside => by
        rw [left] at inside
        simpa using (List.mem_filter.mp inside).2
      have split : l.contents.Perm (removed ++ txs.contents) := by
        rw [left]
        exact (List.filter_append_perm _ _).symm.trans (out.symm.append_right _)
      by_cases strict : l.strict
      · have invalid := SortedMap.filterItems_removed kept.keyed ranges (first.nonce < ·.nonce)
        obtain ⟨keyed, rest⟩ := SortedMap.filterItems_left kept.keyed ranges (first.nonce < ·.nonce)
        have before : (txs.filterItems ranges (first.nonce < ·.nonce)).2.contents =
            l.contents.takeWhile (! exceeds costLimit gasLimit ·) := by
          rw [rest, left, List.filter_filter, sound.increasing.takeWhile_eq member (by simpa using failing)
            fun other inside above => earliest other (out.mem_iff.mpr (List.mem_filter.mpr ⟨inside, by simpa using above⟩))]
          refine List.filter_congr fun other inside => ?_
          cases above : exceeds costLimit gasLimit other with
          | true =>
            have := earliest other (out.mem_iff.mpr (List.mem_filter.mpr ⟨inside, above⟩))
            simp only [Bool.not_true, Bool.and_false]
            exact (decide_eq_false (by omega)).symm
          | false =>
            have apart : other.nonce ≠ first.nonce := fun same => by
              rw [sound.increasing.unique inside member same, failing] at above
              cases above
            by_cases below : other.nonce < first.nonce <;> grind
        have apart : l.contents.Perm (removed ++ ((txs.filterItems ranges (first.nonce < ·.nonce)).1 ++
            (txs.filterItems ranges (first.nonce < ·.nonce)).2.contents)) := by
          refine split.trans (List.Perm.append_left _ ?_)
          rw [rest]
          exact (List.filter_append_perm _ _).symm.trans (invalid.symm.append_right _)
        have fit' : ∀ tx ∈ (txs.filterItems ranges (first.nonce < ·.nonce)).2.contents,
            exceeds costLimit gasLimit tx = false := fun tx inside => by
          rw [rest] at inside
          exact fit tx (List.mem_of_mem_filter inside)
        obtain ⟨l', ended, leaves⟩ := sound.filtered ranges keyed apart fit'
        refine ⟨removed, (txs.filterItems ranges (first.nonce < ·.nonce)).1, l', ?_, out, ?_⟩
        · simp only [if_pos strict]
          exact ended
        · rw [before] at leaves
          rw [fitting, if_pos strict]
          exact leaves
      · have apart : l.contents.Perm (removed ++ ([] ++ txs.contents)) := split
        obtain ⟨l', ended, leaves⟩ := sound.filtered ranges kept.keyed apart fit
        refine ⟨removed, [], l', ?_, out, ?_⟩
        · simp only [if_neg strict]
          exact ended
        · rw [left] at leaves
          rw [fitting, if_neg strict]
          exact leaves

/-! ### Adding -/

/-- The transaction takes the place of its nonce, whose cost is not counted before. -/
theorem Sound.insert (sound : l.Sound) (cheap : tx.cost < costBound) (old : Option Transaction) :
    ∃ l', { l with totalcost := costs (l.contents.filter (·.nonce ≠ tx.nonce)) }.insert tx old = (true, old, l') ∧
      l'.Sound ∧ l'.strict = l.strict ∧ l'.contents = Sorted.put Transaction.nonce tx l.contents := by
  obtain ⟨kept, put⟩ := sound.txs.put tx
  have put : (l.txs.put tx).contents = Sorted.put Transaction.nonce tx l.contents := put
  have fits : ¬ 2 ^ 256 ≤ tx.cost := Nat.not_le.mpr (cheap.trans (by decide))
  have sum : costs (Sorted.put Transaction.nonce tx l.contents) = costs (tx :: l.contents.filter (·.nonce ≠ tx.nonce)) :=
    costs_perm (Sorted.put_perm tx l.contents)
  rw [costs_cons] at sum
  have cheap' : ∀ other ∈ Sorted.put Transaction.nonce tx l.contents, other.cost < costBound := fun other member => by
    rcases Sorted.mem_put.mp member with rfl | ⟨inside, -⟩
    · exact cheap
    · exact sound.cheap other inside
  have small := costs_lt (sound.increasing.put tx) cheap'
  rw [TxList.insert, if_neg fits]
  refine ⟨_, rfl, ⟨kept, ?_, ?_, ?_⟩, rfl, put⟩
  · intro other member
    change other ∈ (l.txs.put tx).contents at member
    rw [put] at member
    simp only
    rcases Sorted.mem_put.mp member with rfl | ⟨inside, -⟩
    · constructor <;> split <;> omega
    · have := sound.bounded other inside
      constructor <;> split <;> omega
  · intro other member
    change other ∈ (l.txs.put tx).contents at member
    rw [put] at member
    exact cheap' other member
  · show (costs (l.contents.filter (·.nonce ≠ tx.nonce)) + tx.cost) % 2 ^ 256 = costs (l.txs.put tx).contents
    rw [put, Nat.mod_eq_of_lt] <;> omega

theorem Sound.add (sound : l.Sound) (cheap : tx.cost < costBound) {priceBump : Nat}
    (better : ∀ old ∈ l.contents, old.nonce = tx.nonce → outbids priceBump old tx = true) :
    ∃ l', l.add tx priceBump = some (true, l.txs.get tx.nonce, l') ∧ l'.Sound ∧ l'.strict = l.strict ∧
      l'.contents = Sorted.put Transaction.nonce tx l.contents := by
  unfold TxList.add
  cases known : l.txs.get tx.nonce with
  | none =>
    have absent : l.contents.filter (·.nonce ≠ tx.nonce) = l.contents := List.filter_eq_self.mpr fun other member => by
      have apart : other.nonce ≠ tx.nonce := fun same => by
        rw [sound.get_iff.mpr ⟨member, same⟩] at known
        cases known
      simpa using apart
    obtain ⟨l', inserted, rest⟩ := sound.insert cheap none
    rw [absent, ← sound.total] at inserted
    exact ⟨l', congrArg some inserted, rest⟩
  | some old =>
    obtain ⟨member, same⟩ := sound.get_iff.mp known
    have split := sound.split_at member
    rw [same] at split
    obtain ⟨l', inserted, rest⟩ := sound.insert cheap (some old)
    refine ⟨l', ?_, rest⟩
    simp only [better old member same, if_true]
    rw [subTotalCost_leave sound.total sound.cheap split]
    exact congrArg some inserted

theorem Sound.add_refused (sound : l.Sound) {old : Transaction} {priceBump : Nat} (member : old ∈ l.contents)
    (same : old.nonce = tx.nonce) (worse : outbids priceBump old tx = false) :
    l.add tx priceBump = some (false, none, l) := by
  simp [TxList.add, sound.get_iff.mpr ⟨member, same⟩, worse]

theorem Sound.flatten (sound : l.Sound) : l.flatten.1 = l.contents ∧ l.flatten.2.Sound ∧
    l.flatten.2.strict = l.strict ∧ l.flatten.2.contents = l.contents := by
  obtain ⟨same, kept, left⟩ := sound.txs.flatten
  have left : l.flatten.2.contents = l.contents := left
  refine ⟨same, ⟨kept, ?_, ?_, ?_⟩, rfl, left⟩
  · rw [left]
    exact sound.bounded
  · rw [left]
    exact sound.cheap
  · rw [left]
    exact sound.total

end TxList

end Snowside.TxPool
