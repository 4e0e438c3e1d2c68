import Snowside.TxPool.Limits

/-! Queued transactions leave: those of inactive accounts, and those with too low a tip. -/

set_option autoImplicit false

namespace Snowside.TxPool

open Evm (Address)
open Precompile (Hash)
open TxList (costBound Leaves)
open Sorted (Increasing)

namespace Pool

variable {terms : Terms} {ok : Transaction → Prop} {addr : Address} {pool pool' : Pool} {tx : Transaction}
  {list list' : TxList} (moment : Moment)

def queued (pool : Pool) (addr : Address) : List Transaction := contentsOf (pool.queue.lookup addr)

/-! ## Queued transactions that leave the pool -/

/-- A queue that has been brought in order. -/
theorem Books.touchQueue (books : Books terms pool) (found : pool.queue.lookup addr = some list) :
    Books terms (pool.setQueue addr list.flatten.2) ∧ Turned terms.ok pool (pool.setQueue addr list.flatten.2) ∧
      Beside addr pool (pool.setQueue addr list.flatten.2) ∧ (pool.setQueue addr list.flatten.2).queued addr = pool.queued addr := by
  have opened : Open terms addr [] pool := books.opened (books.reserved (hasLists_of_queue found))
  have tidy := books.tidy addr
  obtain ⟨sound, -⟩ := opened.filed.queueSound list found
  obtain ⟨-, sound', strict, contents⟩ := sound.flatten
  have leaves : Leaves list [] list.contents list.flatten.2 := ⟨sound', strict, contents, .refl _⟩
  have moves := leaveQueue opened.toShelves found leaves
  have now : (pool.setQueue addr list.flatten.2).queue.lookup addr = some list.flatten.2 := by simp [setQueue]
  refine ⟨(opened.moves moves).close ⟨tidy.pending, fun other member => ?_⟩ (hasLists_of_queue now),
    .of_beside moves.beside .refl, moves.beside, ?_⟩
  · cases now.symm.trans member
    rw [contents]
    exact tidy.queue list found
  · simp [queued, now, found, contentsOf, contents]

/-- Queued transactions of an account are removed, and nothing else changes. -/
theorem removeTxs_queued (books : Books terms pool) (alone : terms.guest = none) (outofbound : Bool) {txs : List Transaction}
    (once : txs.Nodup) (inside : txs ⊆ pool.queued addr) :
    ∃ pool', pool.removeTxs moment outofbound true txs = some pool' ∧ Books terms pool' ∧ Turned terms.ok pool pool' ∧
      Beside addr pool pool' ∧ pool'.view addr = pool.view addr ∧ (pool'.queued addr ++ txs).Perm (pool.queued addr) := by
  obtain ⟨ok, guest, absent⟩ := terms
  obtain rfl : guest = none := alone
  induction txs generalizing pool with
  | nil => exact ⟨pool, rfl, books, .refl pool, .refl pool, rfl, .of_eq (List.append_nil _)⟩
  | cons tx rest ih =>
    obtain ⟨fresh, once⟩ := List.nodup_cons.mp once
    have member : tx ∈ pool.queued addr := inside List.mem_cons_self
    have listed : tx ∈ pool.stock addr := List.mem_append_right _ member
    obtain rfl : tx.from_ = addr := (books.filed addr).of_mem (List.mem_append_left _ listed)
    have known : pool.all.get tx.hash = some tx := books.catalogue.get_iff.mpr ⟨rfl, .inl listed⟩
    obtain ⟨count, between, removed, books₁, turned₁, -, removes⟩ :=
      removeTx_books moment books tx.hash outofbound true (books.sane.remove tx.hash) (by simp)
    obtain ⟨beside₁, perm, stays⟩ := removes tx known
    have view₁ := stays member
    have pending : contentsOf (between.pending.lookup tx.from_) = contentsOf (pool.pending.lookup tx.from_) :=
      congrArg View.pending view₁
    have left : (between.queued tx.from_ ++ [tx]).Perm (pool.queued tx.from_) := by
      rw [stock, stock, pending, List.append_assoc] at perm
      exact (List.perm_append_left_iff _).mp perm
    obtain ⟨pool', ran, books', turned', beside', view', perm'⟩ := ih once (fun other later => by
      have there := left.mem_iff.mpr (inside (List.mem_cons_of_mem _ later))
      refine (List.mem_append.mp there).resolve_right fun same => fresh ?_
      rw [← List.mem_singleton.mp same]
      exact later) books₁
    refine ⟨pool', ?_, books', turned₁.trans turned', beside₁.trans beside', view'.trans view₁, ?_⟩
    · rw [removeTxs, List.foldlM_cons, removed]
      exact ran
    · grind

theorem increasing_queued (books : Books terms pool) (addr : Address) : Increasing Transaction.nonce (pool.queued addr) := by
  unfold queued
  cases found : pool.queue.lookup addr with
  | none => exact List.Pairwise.nil
  | some list => exact ((books.filed addr).queueSound list found).1.increasing

/-! ## Steps that remove transactions -/

theorem setGasTip_keeps (books : Books terms pool) (alone : terms.guest = none) (tip : Nat) :
    Keeps terms pool (pool.setGasTip moment tip) := by
  have same : Same pool { pool with gasTip := tip } := ⟨rfl, rfl, rfl, rfl, rfl, rfl, rfl, rfl, rfl, fun _ => rfl⟩
  have books₁ : Books terms { pool with gasTip := tip } := same.books books books.catalogue books.sane
  unfold setGasTip
  dsimp only
  split
  · exact ⟨_, rfl, books₁, same.turned⟩
  · obtain ⟨between, removed, books₂, turned₂⟩ :=
      removeTxs_keeps moment books₁ alone false (pool.all.remotesBelowTip moment.ranges tip)
    have same₃ : Same between (between.pricedRemoved moment (pool.all.remotesBelowTip moment.ranges tip).length) :=
      ⟨rfl, rfl, rfl, rfl, rfl, rfl, rfl, rfl, rfl, fun _ => rfl⟩
    refine ⟨_, ?_, same₃.books books₂ books₂.catalogue (books₂.sane.removed _ _), same.turned.trans (turned₂.trans same₃.turned)⟩
    rw [removed]
    rfl

theorem evictAccount_books (books : Books terms pool) (alone : terms.guest = none) (found : pool.queue.lookup addr = some list) :
    ∃ pool', pool.evictAccount moment addr = some pool' ∧ Books terms pool' ∧ Turned terms.ok pool pool' ∧ Beside addr pool pool' := by
  unfold evictAccount
  split
  · exact ⟨pool, rfl, books, .refl pool, .refl pool⟩
  · split
    · obtain ⟨books₁, turned₁, beside₁, same⟩ := books.touchQueue found
      have flat : list.flatten.1 = pool.queued addr := by
        rw [((books.filed addr).queueSound list found).1.flatten.1]
        simp [queued, found, contentsOf]
      obtain ⟨pool', removed, books', turned', beside', -, -⟩ :=
        removeTxs_queued moment books₁ alone true (increasing_queued books addr).nodup (by rw [same]; exact List.Subset.refl _)
      refine ⟨pool', ?_, books', turned₁.trans turned', beside₁.trans beside'⟩
      simp only [found, flat, Option.bind_eq_bind, Option.bind_some]
      exact removed
    · exact ⟨pool, rfl, books, .refl pool, .refl pool⟩

theorem evict_keeps (books : Books terms pool) (alone : terms.guest = none) : Keeps terms pool (pool.evict moment) := by
  have perm := moment.ranges.addresses_perm pool.queue.keys
  have once : (moment.ranges.addresses pool.queue.keys).Nodup := (perm.nodup_iff).mpr pool.queue.nodupKeys
  have there : ∀ addr ∈ moment.ranges.addresses pool.queue.keys, ∃ list, pool.queue.lookup addr = some list := fun addr member =>
    Maps.mem_keys_iff.mp (perm.mem_iff.mp member)
  clear perm
  unfold evict
  generalize moment.ranges.addresses pool.queue.keys = accounts at once there
  induction accounts generalizing pool with
  | nil => exact ⟨pool, rfl, books, .refl pool⟩
  | cons addr rest ih =>
    obtain ⟨fresh, once⟩ := List.nodup_cons.mp once
    obtain ⟨list, found⟩ := there addr List.mem_cons_self
    obtain ⟨between, evicted, books₁, turned₁, beside₁⟩ := evictAccount_books moment books alone found
    obtain ⟨pool', ran, books', turned'⟩ := ih books₁ once fun other later => by
      rw [beside₁.queue other fun same => fresh (same ▸ later)]
      exact there other (List.mem_cons_of_mem _ later)
    refine ⟨pool', ?_, books', turned₁.trans turned'⟩
    rw [List.foldlM_cons, evicted]
    exact ran

/-! ## The limit of the queue -/

/-- How many transactions an account keeps when so many leave, from the first of the accounts on. -/
def spare (size : Address → Nat) : List Address → Nat → Address → Nat
  | [], _, addr => size addr
  | first :: rest, drop, addr => if addr = first then size first - drop else spare size rest (drop - size first) addr

section Spare

variable {size size' : Address → Nat} {addresses : List Address} {drop : Nat}

theorem spare_congr (same : size addr = size' addr) (others : ∀ other ∈ addresses, size other = size' other) :
    spare size addresses drop addr = spare size' addresses drop addr := by
  induction addresses generalizing drop with
  | nil => exact same
  | cons first rest ih =>
    rw [spare, spare, others first List.mem_cons_self, ih fun other later => others other (List.mem_cons_of_mem _ later)]

theorem spare_zero : spare size addresses 0 addr = size addr := by
  induction addresses with
  | nil => rfl
  | cons first rest ih =>
    rw [spare, Nat.zero_sub, ih]
    split
    · rename_i same
      rw [same, Nat.sub_zero]
    · rfl

theorem spare_other (other : addr ∉ addresses) : spare size addresses drop addr = size addr := by
  induction addresses generalizing drop with
  | nil => rfl
  | cons first rest ih =>
    obtain ⟨apart, later⟩ := not_or.mp fun inside => other (List.mem_cons.mpr inside)
    rw [spare, if_neg apart, ih later]

/-- As many leave as shall, if there are as many. -/
theorem sum_spare (once : addresses.Nodup) :
    (addresses.map (spare size addresses drop)).sum = (addresses.map size).sum - drop := by
  induction addresses generalizing drop with
  | nil => simp
  | cons first rest ih =>
    obtain ⟨fresh, once⟩ := List.nodup_cons.mp once
    have apart {addr : Address} (later : addr ∈ rest) : addr ≠ first := fun same => fresh (same ▸ later)
    have tail : rest.map (spare size (first :: rest) drop) = rest.map (spare size rest (drop - size first)) :=
      List.map_congr_left fun addr later => if_neg (apart later)
    rw [List.map_cons, List.sum_cons, tail, ih once, List.map_cons, List.sum_cons, spare, if_pos rfl]
    omega

end Spare

theorem queueLen_eq (books : Books terms pool) (found : pool.queue.lookup addr = some list) :
    list.len = (pool.queued addr).length := by
  rw [TxList.len, ((books.filed addr).queueSound list found).1.txs.len_eq]
  simp [queued, found, contentsOf, TxList.contents]

theorem dropQueued_spares (books : Books terms pool) (alone : terms.guest = none) {addresses : List Address} (once : addresses.Nodup)
    (there : ∀ addr ∈ addresses, ∃ list, pool.queue.lookup addr = some list) (drop : Nat) :
    ∃ pool', pool.dropQueued moment addresses drop = some pool' ∧ Books terms pool' ∧ Turned terms.ok pool pool' ∧
      pool'.locals = pool.locals ∧ ∀ addr, pool'.view addr = pool.view addr ∧
        pool'.queued addr = (pool.queued addr).take (spare (fun addr => (pool.queued addr).length) addresses drop addr) := by
  induction addresses generalizing pool drop with
  | nil => exact ⟨pool, rfl, books, .refl pool, rfl, fun addr => ⟨rfl, by simp [spare]⟩⟩
  | cons first rest ih =>
    rw [dropQueued]
    split
    · rename_i nothing
      subst nothing
      exact ⟨pool, rfl, books, .refl pool, rfl, fun addr => ⟨rfl, by simp [spare_zero]⟩⟩
    · obtain ⟨fresh, once⟩ := List.nodup_cons.mp once
      obtain ⟨list, found⟩ := there first List.mem_cons_self
      obtain ⟨books₁, turned₁, beside₁, same⟩ := books.touchQueue found
      obtain ⟨flat, -⟩ := ((books.filed first).queueSound list found).1.flatten
      have flat : list.flatten.1 = pool.queued first := flat.trans (by simp [queued, found, contentsOf])
      have length : list.flatten.2.len = (pool.queued first).length := by
        have found₁ : (pool.setQueue first list.flatten.2).queue.lookup first = some list.flatten.2 := by simp [setQueue]
        rw [queueLen_eq books₁ found₁, same]
      have view₁ : (pool.setQueue first list.flatten.2).view first = pool.view first := rfl
      have nodup := (increasing_queued books first).nodup
      simp only [found, Option.bind_eq_bind, Option.bind_some, length, flat]
      split
      · -- All of them leave.
        rename_i all
        obtain ⟨between, removed, books₂, turned₂, beside₂, view₂, perm⟩ :=
          removeTxs_queued moment books₁ alone true nodup (by rw [same]; exact List.Subset.refl _)
        have none : between.queued first = [] := by
          have lengths := perm.length_eq
          rw [same, List.length_append] at lengths
          exact List.length_eq_zero_iff.mp (by omega)
        have beside := beside₁.trans beside₂
        have queue (other : Address) (apart : other ≠ first) : between.queued other = pool.queued other :=
          congrArg contentsOf (beside.queue other apart)
        have apart {other : Address} (later : other ∈ rest) : other ≠ first := fun same => fresh (same ▸ later)
        obtain ⟨pool', ran, books', turned', locals', left⟩ := ih books₂ once (fun other later => by
          rw [beside.queue other (apart later)]
          exact there other (List.mem_cons_of_mem _ later)) (drop - (pool.queued first).length)
        refine ⟨pool', by rw [removed]; exact ran, books', turned₁.trans (turned₂.trans turned'), locals'.trans beside.locals,
          fun addr => ?_⟩
        obtain ⟨view', kept⟩ := left addr
        rw [view', kept, spare]
        split
        · rename_i here
          subst here
          refine ⟨view₂.trans view₁, ?_⟩
          rw [none, List.take_nil, Nat.sub_eq_zero_of_le all, List.take_zero]
        · rename_i elsewhere
          refine ⟨beside.view elsewhere, ?_⟩
          rw [queue addr elsewhere]
          exact congrArg (List.take · _) (spare_congr (congrArg List.length (queue addr elsewhere)) fun other later =>
            congrArg List.length (queue other (apart later)))
      · -- The last of them leave, and those of the other accounts stay.
        rename_i more
        have split_ := List.take_append_drop ((pool.queued first).length - drop) (pool.queued first)
        have once_ : ((pool.queued first).reverse.take drop).Nodup :=
          (List.nodup_reverse.mpr nodup).sublist (List.take_sublist _ _)
        obtain ⟨pool', removed, books₂, turned₂, beside₂, view₂, perm⟩ := removeTxs_queued moment books₁ alone true once_ (by
            rw [same]
            exact fun other member => List.mem_reverse.mp (List.mem_of_mem_take member))
        have rest_ : (pool.queued first).reverse.take drop = ((pool.queued first).drop ((pool.queued first).length - drop)).reverse :=
          List.take_reverse
        have kept : pool'.queued first = (pool.queued first).take ((pool.queued first).length - drop) := by
          rw [same, rest_] at perm
          have left : (pool'.queued first).Perm ((pool.queued first).take ((pool.queued first).length - drop)) := by
            refine (List.perm_append_right_iff ((pool.queued first).drop ((pool.queued first).length - drop)).reverse).mp
              (perm.trans ?_)
            conv_lhs => rw [← split_]
            exact (List.perm_append_left_iff _).mpr (List.reverse_perm _).symm
          exact (increasing_queued books₂ first).ext ((increasing_queued books first).sublist (List.take_sublist _ _))
            fun tx => left.mem_iff
        have beside := beside₁.trans beside₂
        refine ⟨pool', removed, books₂, turned₁.trans turned₂, beside.locals, fun addr => ?_⟩
        rw [spare]
        split
        · rename_i here
          subst here
          exact ⟨view₂.trans view₁, kept⟩
        · rename_i elsewhere
          refine ⟨beside.view elsewhere, ?_⟩
          rw [Nat.sub_eq_zero_of_le (Nat.le_of_not_le more), spare_zero, List.take_length]
          exact congrArg contentsOf (beside.queue addr elsewhere)

/-- The remote accounts with queued transactions, each once, those inactive for longest first. -/
theorem inactive_spec (pool : Pool) : (pool.inactive moment).Nodup ∧
    (pool.inactive moment).Pairwise (fun first second => pool.beat first ≤ pool.beat second) ∧
    (pool.queue.keys).Perm (pool.inactive moment ++ pool.queue.keys.filter pool.isLocal) := by
  have keys := moment.ranges.addresses_perm pool.queue.keys
  have perm := List.mergeSort_perm
    ((moment.ranges.addresses pool.queue.keys).filter fun addr => ! pool.isLocal addr) fun first second =>
    decide (pool.beat first ≤ pool.beat second)
  refine ⟨?_, ?_, ?_⟩
  · exact (perm.nodup_iff).mpr (((keys.nodup_iff).mpr pool.queue.nodupKeys).filter _)
  · have sorted : (pool.inactive moment).Pairwise fun first second => decide (pool.beat first ≤ pool.beat second) = true :=
      List.pairwise_mergeSort (fun first second third => by simpa using Int.le_trans)
        (fun first second => by simpa using Int.le_total (pool.beat first) (pool.beat second)) _
    exact sorted.imp fun below => by simpa using below
  · have split := List.filter_append_perm (fun addr => ! pool.isLocal addr) pool.queue.keys
    simp only [Bool.not_not] at split
    exact split.symm.trans (((perm.trans (keys.filter _)).append_right _).symm)

theorem mem_inactive : addr ∈ pool.inactive moment ↔ addr ∈ pool.queue.keys ∧ pool.isLocal addr = false := by
  rw [inactive, List.mem_mergeSort, List.mem_filter, (moment.ranges.addresses_perm _).mem_iff, Bool.not_eq_true']

def queueLength (pool : Pool) : Nat := ((Maps.values pool.queue).map TxList.len).sum

/-- The queued transactions of local accounts. -/
def queuedLocally (pool : Pool) : Nat := ((pool.queue.keys.filter pool.isLocal).map fun addr => (pool.queued addr).length).sum

theorem queueLength_eq (books : Books terms pool) (keys : List Address) (once : keys.Nodup)
    (inside : ∀ addr, (pool.queue.lookup addr).isSome → addr ∈ keys) :
    pool.queueLength = (keys.map fun addr => (pool.queued addr).length).sum := by
  rw [queueLength, Maps.sum_values TxList.len once inside]
  refine congrArg List.sum (List.map_congr_left fun addr _ => ?_)
  cases found : pool.queue.lookup addr with
  | none => simp [queued, found, contentsOf]
  | some list => exact queueLen_eq books found

theorem mem_queueKeys (books : Books terms pool) : addr ∈ pool.queue.keys ↔ pool.queued addr ≠ [] := by
  rw [Maps.mem_keys_iff]
  unfold queued
  constructor
  · rintro ⟨list, found⟩
    rw [found]
    exact ((books.tidy addr).queue list found).1
  · intro some_
    refine Option.ne_none_iff_exists'.mp fun missing => some_ ?_
    rw [missing]
    rfl

theorem spare_le {size : Address → Nat} (addresses : List Address) (drop : Nat) : spare size addresses drop addr ≤ size addr := by
  induction addresses generalizing drop with
  | nil => exact le_rfl
  | cons first rest ih =>
    rw [spare]
    split
    · rename_i same
      rw [same]
      exact Nat.sub_le _ _
    · exact ih _

theorem dropQueued_none (addresses : List Address) (pool : Pool) : pool.dropQueued moment addresses 0 = some pool := by
  cases addresses <;> rfl

/-- A queue that is too long is cut to its limit, or down to the queued transactions of local accounts. -/
theorem truncateQueue_spares (books : Books terms pool) (alone : terms.guest = none) :
    ∃ pool', pool.truncateQueue moment = some pool' ∧ Books terms pool' ∧ Turned terms.ok pool pool' ∧
      pool'.locals = pool.locals ∧ (∀ addr, pool'.view addr = pool.view addr ∧ pool'.queued addr = (pool.queued addr).take
        (spare (fun addr => (pool.queued addr).length) (pool.inactive moment) (pool.queueLength - pool.config.globalQueue) addr)) ∧
      pool'.queueLength = min pool.queueLength (max pool.config.globalQueue pool.queuedLocally) ∧
      pool'.queuedLocally = pool.queuedLocally := by
  obtain ⟨once, -, split⟩ := inactive_spec moment pool
  have there : ∀ addr ∈ pool.inactive moment, ∃ list, pool.queue.lookup addr = some list := fun addr member =>
    Maps.mem_keys_iff.mp (split.mem_iff.mpr (List.mem_append_left _ member))
  obtain ⟨pool', dropped, books', turned, locals_, left⟩ :=
    dropQueued_spares moment books alone once there (pool.queueLength - pool.config.globalQueue)
  have total := queueLength_eq books pool.queue.keys pool.queue.nodupKeys fun _ => AList.lookup_isSome.mp
  have total' := queueLength_eq books' pool.queue.keys pool.queue.nodupKeys fun addr found => by
    have nonempty := (mem_queueKeys books').mp (AList.lookup_isSome.mp found)
    rw [(left addr).2] at nonempty
    exact (mem_queueKeys books).mpr fun empty => nonempty (by rw [empty, List.take_nil])
  have kept : (pool.queue.keys.map fun addr => (pool'.queued addr).length) = pool.queue.keys.map
      (spare (fun addr => (pool.queued addr).length) (pool.inactive moment) (pool.queueLength - pool.config.globalQueue)) :=
    List.map_congr_left fun addr _ => by rw [(left addr).2, List.length_take_of_le (spare_le _ _)]
  have stay : ((pool.queue.keys.filter pool.isLocal).map
      (spare (fun addr => (pool.queued addr).length) (pool.inactive moment) (pool.queueLength - pool.config.globalQueue))).sum =
      pool.queuedLocally := by
    refine congrArg List.sum (List.map_congr_left fun addr member => spare_other fun inside => ?_)
    have nodup := (split.nodup_iff).mp pool.queue.nodupKeys
    exact (List.nodup_append.mp nodup).2.2 addr inside addr member rfl
  rw [kept, (split.map _).sum_eq, List.map_append, List.sum_append, sum_spare once, stay] at total'
  rw [(split.map _).sum_eq, List.map_append, List.sum_append] at total
  have locals : ((pool.queue.keys.filter pool.isLocal).map fun addr => (pool.queued addr).length).sum = pool.queuedLocally := rfl
  have length : pool'.queueLength = min pool.queueLength (max pool.config.globalQueue pool.queuedLocally) := by omega
  have same : pool'.queuedLocally = pool.queuedLocally := by
    have keep (addr : Address) (own : pool.isLocal addr = true) : pool'.queued addr = pool.queued addr := by
      have other : addr ∉ pool.inactive moment := fun inside => by
        have nodup := (split.nodup_iff).mp pool.queue.nodupKeys
        have key := (split.mem_iff).mpr (List.mem_append_left _ inside)
        exact (List.nodup_append.mp nodup).2.2 addr inside addr (List.mem_filter.mpr ⟨key, own⟩) rfl
      rw [(left addr).2, spare_other other, List.take_length]
    have isLocal : pool'.isLocal = pool.isLocal := by
      unfold Pool.isLocal
      rw [locals_]
    have keys : (pool'.queue.keys.filter pool'.isLocal).Perm (pool.queue.keys.filter pool.isLocal) := by
      have nodup (pool : Pool) : (pool.queue.keys.filter pool.isLocal).Nodup := List.Nodup.filter _ pool.queue.nodupKeys
      refine (List.perm_ext_iff_of_nodup (nodup pool') (nodup pool)).mpr fun addr => ?_
      rw [List.mem_filter, List.mem_filter, mem_queueKeys books', mem_queueKeys books, isLocal]
      exact and_congr_left fun own => by rw [keep addr own]
    rw [queuedLocally, queuedLocally, (keys.map _).sum_eq]
    exact congrArg List.sum (List.map_congr_left fun addr member => congrArg List.length (keep addr (List.mem_filter.mp member).2))
  refine ⟨pool', ?_, books', turned, locals_, left, length, same⟩
  by_cases few : pool.queueLength ≤ pool.config.globalQueue
  · rw [Nat.sub_eq_zero_of_le few, dropQueued_none] at dropped
    rw [← dropped]
    exact if_pos few
  · rw [← dropped]
    exact if_neg few

end Pool

end Snowside.TxPool
