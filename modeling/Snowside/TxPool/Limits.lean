import Snowside.TxPool.Admission

/-! The limits of the pool. Too many pending transactions bring the accounts with the most of them down to one
level; of too many queued ones those of the accounts that were inactive for longest go first.
-/

set_option autoImplicit false

namespace Snowside.TxPool

open Evm (Address)
open Maps (Map lookup_insert_eq lookup_erase_eq)
open Precompile (Hash)
open TxList (costBound Leaves)

namespace Pool

variable {terms : Terms} {ok : Transaction → Prop} {addr : Address} {pool pool' : Pool} {tx : Transaction}
  {list list' : TxList} (moment : Moment)

/-! ## The last transaction of an account -/

theorem view_pending (found : pool.pending.lookup addr = some list) : (pool.view addr).pending = list.contents := by
  simp [view, found, contentsOf]

theorem capOne_books (books : Books terms pool) (long : 2 ≤ (pool.view addr).pending.length) :
    ∃ pool', pool.capOne moment addr = some pool' ∧ Books terms pool' ∧ Beside addr pool pool' ∧ Turned terms.ok pool pool' ∧
      (pool'.view addr).pending = (pool.view addr).pending.dropLast := by
  cases found : pool.pending.lookup addr with
  | none => simp [view, found, contentsOf] at long
  | some list =>
    have opened : Open terms addr [] pool := books.opened (books.reserved (hasLists_of_pending found))
    obtain ⟨sound, -⟩ := opened.filed.pendingSound list found
    rw [view_pending found] at long ⊢
    obtain ⟨front, last, split⟩ : ∃ front last, list.contents = front ++ [last] :=
      ⟨_, _, (List.dropLast_concat_getLast (List.ne_nil_of_length_pos (by omega))).symm⟩
    have length : list.len = front.length + 1 := by
      rw [TxList.len, sound.txs.len_eq]
      exact (congrArg List.length split).trans (by simp)
    have capacity : (list.len : Int) - 1 = front.length := by omega
    obtain ⟨list', capped, leaves⟩ := sound.cap front.length
    simp only [split, List.drop_left, List.take_left, List.reverse_singleton] at capped leaves
    have drops := opened.dropPending found leaves
    generalize shape : (pool.setPending addr list').forget [last] = pool₁ at drops
    have beside₂ : Beside addr pool₁ (pool₁.setNonces (pool₁.pendingNonces.setIfLower addr last.nonce)) :=
      .setNonces Noncer.setIfLower_fallback fun other apart => by rw [Noncer.next_setIfLower, if_neg apart]
    have opened₂ := (drops.opened.setNonces beside₂).pricedRemoved moment 1
    have beside := (drops.beside.trans beside₂).trans (.pricedRemoved _ moment 1)
    have found₂ : ((pool₁.setNonces (pool₁.pendingNonces.setIfLower addr last.nonce)).pricedRemoved moment 1).pending.lookup addr =
        some list' := drops.found
    have view₂ : ((pool₁.setNonces (pool₁.pendingNonces.setIfLower addr last.nonce)).pricedRemoved moment 1).view addr =
        ⟨front, min (pool.view addr).next last.nonce⟩ := by
      have next : (pool₁.pendingNonces.setIfLower addr last.nonce).next addr = min (pool.view addr).next last.nonce := by
        rw [Noncer.next_setIfLower, if_pos rfl, ← shape]
        rfl
      rw [view, found₂, ← next]
      exact congrArg (View.mk · _) leaves.contents
    refine ⟨_, ?_, opened₂.close ⟨fun other member => ?_, drops.waiting (books.tidy addr).queue⟩ (hasLists_of_pending found₂),
      beside, .of_beside beside ?_, ?_⟩
    · rw [capOne, found]
      simp only [Option.bind_eq_bind, Option.bind_some, capacity, capped, shape]
      rfl
    · cases found₂.symm.trans member
      rw [leaves.contents]
      exact List.ne_nil_of_length_pos (by rw [split, List.length_append, List.length_singleton] at long; omega)
    · -- The nonces in front are below the last one.
      have below : (pool.view addr).pending.takeWhile (·.nonce < last.nonce) = front := by
        have increasing := sound.increasing
        rw [split] at increasing
        rw [view_pending found, split, increasing.takeWhile_below, List.filter_append]
        have before : ∀ other ∈ front, other.nonce < last.nonce := fun other member =>
          (List.pairwise_append.mp increasing).2.2 other member last (List.mem_singleton_self last)
        simpa using before
      rw [view₂, ← below]
      refine .single (.cut ?_)
      rw [view_pending found, split]
      exact List.mem_append_right _ (List.mem_singleton_self last)
    · rw [view₂, split, List.dropLast_concat]

/-- Each of some accounts loses its last pending transaction. -/
theorem capAll_books (books : Books terms pool) {accounts : List Address} (once : accounts.Nodup)
    (long : ∀ addr ∈ accounts, 2 ≤ (pool.view addr).pending.length) :
    ∃ pool', accounts.foldlM (fun pool addr => pool.capOne moment addr) pool = some pool' ∧ Books terms pool' ∧
      Turned terms.ok pool pool' ∧ pool'.locals = pool.locals ∧ ∀ addr, (pool'.view addr).pending =
        if addr ∈ accounts then (pool.view addr).pending.dropLast else (pool.view addr).pending := by
  induction accounts generalizing pool with
  | nil => exact ⟨pool, rfl, books, .refl pool, rfl, fun addr => by simp⟩
  | cons first rest ih =>
    obtain ⟨fresh, once⟩ := List.nodup_cons.mp once
    obtain ⟨between, capped, books₁, beside₁, turned₁, view₁⟩ := capOne_books moment books (long first List.mem_cons_self)
    have apart {addr : Address} (member : addr ∈ rest) : addr ≠ first := fun same => fresh (same ▸ member)
    obtain ⟨pool', ran, books', turned', locals', views⟩ := ih books₁ once fun addr member => by
      rw [beside₁.view (apart member)]
      exact long addr (List.mem_cons_of_mem _ member)
    refine ⟨pool', ?_, books', turned₁.trans turned', locals'.trans beside₁.locals, fun addr => ?_⟩
    · rw [List.foldlM_cons, capped]
      exact ran
    · rw [views addr]
      by_cases same : addr = first
      · subst same
        simp [fresh, view₁]
      · simp [same, beside₁.view same]

/-! ## The level -/

def size (pool : Pool) (addr : Address) : Nat := (pool.view addr).pending.length

/-- The pending transactions of an account at a level: of a remote one no more than that. -/
def cutTo (pool : Pool) (level : Nat) (addr : Address) : List Transaction :=
  if pool.isLocal addr then (pool.view addr).pending else (pool.view addr).pending.take level

/-- How many transactions are pending at a level. -/
def load (pool : Pool) (level : Nat) : Nat := (pool.pending.keys.map fun addr => (pool.cutTo level addr).length).sum

/-- All remote accounts are at a level or below. -/
def Within (pool : Pool) (level : Nat) : Prop := ∀ addr, pool.isLocal addr = false → pool.size addr ≤ level

theorem cutTo_of_within {level : Nat} (within : pool.Within level) (addr : Address) :
    pool.cutTo level addr = (pool.view addr).pending := by
  unfold cutTo
  split
  · rfl
  · rename_i remote
    exact List.take_of_length_le (within addr (by simpa using remote))

theorem length_cutTo (pool : Pool) (level : Nat) (addr : Address) :
    (pool.cutTo level addr).length = if pool.isLocal addr then pool.size addr else min level (pool.size addr) := by
  unfold cutTo
  split
  · rfl
  · exact List.length_take

/-- One level higher there is one transaction more for every remote account above the level. -/
theorem load_succ (pool : Pool) (level : Nat) :
    pool.load (level + 1) =
      pool.load level + (pool.pending.keys.filter fun addr => ! pool.isLocal addr && decide (level < pool.size addr)).length := by
  unfold load
  induction pool.pending.keys with
  | nil => rfl
  | cons addr rest ih =>
    rw [List.map_cons, List.sum_cons, ih, List.map_cons, List.sum_cons, length_cutTo, length_cutTo, List.filter_cons]
    cases pool.isLocal addr with
    | true => simp [Nat.add_assoc]
    | false =>
      by_cases above : level < pool.size addr
      · simp only [above, Bool.not_false, Bool.true_and, decide_true, if_true, List.length_cons, Bool.false_eq_true, if_false]
        omega
      · simp only [above, Bool.not_false, Bool.true_and, decide_false, Bool.false_eq_true, if_false]
        omega

theorem pendingLen_eq (books : Books terms pool) (addr : Address) : pool.pendingLen addr = pool.size addr := by
  rw [pendingLen, size, view]
  cases found : pool.pending.lookup addr with
  | none => rfl
  | some list => exact ((books.filed addr).pendingSound list found).1.txs.len_eq

/-- How many transactions are pending. -/
def pendingLength (pool : Pool) : Nat := ((Maps.values pool.pending).map TxList.len).sum

theorem pendingLength_eq (books : Books terms pool) (keys : List Address) (once : keys.Nodup)
    (inside : ∀ addr, 0 < pool.size addr → addr ∈ keys) : pool.pendingLength = (keys.map pool.size).sum := by
  rw [pendingLength, Maps.sum_values TxList.len once fun addr found => ?_]
  · exact congrArg List.sum (List.map_congr_left fun addr _ => pendingLen_eq books addr)
  · obtain ⟨list, found⟩ := Option.isSome_iff_exists.mp found
    refine inside addr (List.length_pos_of_ne_nil ?_)
    rw [view_pending found]
    exact (books.tidy addr).pending list found

theorem mem_keys_of_size (some_ : 0 < pool.size addr) : addr ∈ pool.pending.keys := by
  by_contra absent
  have missing : pool.pending.lookup addr = none := AList.lookup_eq_none.mpr absent
  simp [size, view, missing, contentsOf] at some_

theorem load_of_within (books : Books terms pool) {level : Nat} (within : pool.Within level) :
    pool.pendingLength = pool.load level := by
  rw [pendingLength_eq books pool.pending.keys pool.pending.nodupKeys fun _ => mem_keys_of_size, load]
  refine congrArg List.sum (List.map_congr_left fun addr _ => ?_)
  rw [cutTo_of_within within]
  rfl

/-- An account with pending transactions has a list of them. -/
theorem exists_pending (books : Books terms pool) (addr : Address) (some_ : 0 < pool.size addr) :
    ∃ list, pool.pending.lookup addr = some list ∧ list.len = pool.size addr := by
  have length := pendingLen_eq books addr
  cases found : pool.pending.lookup addr with
  | none => simp [size, view, found, contentsOf] at some_
  | some list => exact ⟨list, rfl, by rw [← length, pendingLen, found]; rfl⟩

/-- A pool is what another one is at a level. -/
structure Levelled (terms : Terms) (origin : Pool) (level : Nat) (pool : Pool) : Prop where
  books : Books terms pool
  turned : Turned terms.ok origin pool
  locals : pool.locals = origin.locals
  views : ∀ addr, (pool.view addr).pending = origin.cutTo level addr

variable {origin : Pool} {offenders : List Address} {level threshold : Nat}

theorem Levelled.size (levelled : Levelled terms origin level pool) (remote : origin.isLocal addr = false)
    (above : level ≤ origin.size addr) : pool.size addr = level := by
  rw [Pool.size, levelled.views, length_cutTo, remote]
  simpa using above

/-- The offenders are the remote accounts above a threshold. -/
structure Offending (origin : Pool) (threshold level : Nat) (offenders : List Address) : Prop where
  once : offenders.Nodup
  remote : ∀ addr ∈ offenders, origin.isLocal addr = false
  above : ∀ addr ∈ offenders, level ≤ origin.size addr
  others : ∀ addr, origin.isLocal addr = false → addr ∉ offenders → origin.size addr ≤ threshold

/-- In one round each offender loses one transaction. -/
theorem Levelled.round (levelled : Levelled terms origin (level + 1) pool)
    (offending : Offending origin threshold (level + 1) offenders)
    (higher : threshold ≤ level) (positive : 0 < level) :
    ∃ pool', offenders.foldlM (fun pool addr => pool.capOne moment addr) pool = some pool' ∧ Levelled terms origin level pool' ∧
      origin.load (level + 1) = origin.load level + offenders.length := by
  have sizes (addr : Address) (member : addr ∈ offenders) : pool.size addr = level + 1 :=
    levelled.size (offending.remote addr member) (offending.above addr member)
  obtain ⟨pool', capped, books', turned', locals', views⟩ := capAll_books moment levelled.books offending.once fun addr member => by
    have := sizes addr member
    change 2 ≤ pool.size addr
    omega
  refine ⟨pool', capped, ⟨books', levelled.turned.trans turned', locals'.trans levelled.locals, fun addr => ?_⟩, ?_⟩
  · rw [views, levelled.views]
    unfold cutTo
    split
    · rename_i offender
      have remote := offending.remote addr offender
      have above := offending.above addr offender
      have above : level + 1 ≤ (origin.view addr).pending.length := above
      rw [remote]
      simp only [Bool.false_eq_true, if_false]
      rw [List.dropLast_eq_take, List.length_take_of_le above, Nat.add_sub_cancel, List.take_take, Nat.min_eq_left (Nat.le_succ level)]
    · rename_i other
      split
      · rfl
      · rename_i remote
        have small : (origin.view addr).pending.length ≤ threshold := offending.others addr (by simpa using remote) other
        rw [List.take_of_length_le (by omega), List.take_of_length_le (by omega)]
  · rw [load_succ]
    refine congrArg _ (List.Perm.length_eq ?_)
    have keys := origin.pending.nodupKeys
    refine (List.perm_ext_iff_of_nodup (List.Nodup.filter _ keys) offending.once).mpr fun addr => ?_
    rw [List.mem_filter, Bool.and_eq_true, Bool.not_eq_true', decide_eq_true_iff]
    constructor
    · rintro ⟨-, remote, large⟩
      by_contra other
      have := offending.others addr remote other
      omega
    · intro member
      have above := offending.above addr member
      exact ⟨mem_keys_of_size (by omega), offending.remote addr member, above⟩

/-- The level cuts nobody, or is the highest one with few enough pending transactions. -/
def Tight (pool : Pool) (level : Nat) : Prop := pool.Within level ∨ pool.config.globalSlots < pool.load (level + 1)

/-- The level that the rounds of the offenders end at. -/
structure Ends (origin : Pool) (threshold level level' : Nat) : Prop where
  low : threshold ≤ level'
  high : level' ≤ level
  tight : origin.Tight level'
  stops : origin.load level' ≤ origin.config.globalSlots ∨ level' = threshold

theorem equalize_levels (rounds : Nat) {last : Address} (levelled : Levelled terms origin level pool)
    (offending : Offending origin threshold level offenders) (member : last ∈ offenders)
    (low : origin.config.accountSlots ≤ threshold) (higher : threshold ≤ level) (enough : level ≤ threshold + rounds)
    (tight : origin.Tight level) :
    ∃ level' pool', pool.equalize moment threshold last offenders rounds (origin.load level) = some (origin.load level', pool') ∧
      Levelled terms origin level' pool' ∧ Ends origin threshold level level' := by
  have positive := origin.config.accountSlots_pos
  induction rounds generalizing level pool with
  | zero => exact ⟨level, pool, rfl, levelled, higher, le_rfl, tight, .inr (by omega)⟩
  | succ rounds ih =>
    have size := levelled.size (offending.remote last member) (offending.above last member)
    obtain ⟨list, found, length⟩ := exists_pending levelled.books last (by omega)
    simp only [equalize, found, Option.bind_eq_bind, Option.bind_some, length, size, levelled.turned.config]
    split
    · rename_i more
      obtain ⟨next, rfl⟩ : ∃ next, level = next + 1 := ⟨level - 1, by omega⟩
      obtain ⟨between, ran, levelled', total⟩ := levelled.round moment offending (by omega) (by omega)
      have left : origin.load (next + 1) - offenders.length = origin.load next := by omega
      obtain ⟨level', pool', ended, levelled'', ends⟩ := ih levelled'
        { offending with above := fun addr inside => (Nat.le_succ next).trans (offending.above addr inside) }
        (by omega) (by omega) (.inr more.1)
      refine ⟨level', pool', ?_, levelled'', { ends with high := ends.high.trans (Nat.le_succ next) }⟩
      rw [ran, Option.bind_some, left]
      exact ended
    · rename_i enough
      exact ⟨level, pool, rfl, levelled, higher, le_rfl, tight, by omega⟩

/-- The remote accounts above the slots of an account, those with the most transactions first. -/
structure Ranked (origin : Pool) (spammers : List Address) : Prop where
  once : spammers.Nodup
  sorted : spammers.Pairwise fun first second => origin.size second ≤ origin.size first
  mem_iff : ∀ addr, addr ∈ spammers ↔ origin.isLocal addr = false ∧ origin.config.accountSlots < origin.size addr

theorem spammers_ranked (books : Books terms pool) : pool.Ranked (pool.spammers moment) := by
  have perm := (List.mergeSort_perm ((moment.ranges.addresses pool.pending.keys).filter fun addr =>
    ! pool.isLocal addr && decide (pool.config.accountSlots < pool.pendingLen addr)) fun first second =>
      decide (pool.pendingLen second ≤ pool.pendingLen first))
  have keys := moment.ranges.addresses_perm pool.pending.keys
  refine ⟨?_, ?_, fun addr => ?_⟩
  · exact (perm.nodup_iff).mpr (List.Nodup.filter _ ((keys.nodup_iff).mpr pool.pending.nodupKeys))
  · have sorted : (pool.spammers moment).Pairwise fun first second => decide (pool.pendingLen second ≤ pool.pendingLen first) = true :=
      List.pairwise_mergeSort (fun first second third => by simpa using fun one two => Nat.le_trans two one)
        (fun first second => by simpa using Nat.le_total (pool.pendingLen second) (pool.pendingLen first)) _
    exact sorted.imp fun below => by simpa [pendingLen_eq books] using below
  · rw [spammers, perm.mem_iff, List.mem_filter, keys.mem_iff, Bool.and_eq_true, Bool.not_eq_true', decide_eq_true_iff,
      pendingLen_eq books]
    refine ⟨And.right, fun spams => ⟨?_, spams⟩⟩
    obtain ⟨list, found, -⟩ := exists_pending books addr (by omega)
    exact Maps.mem_keys_iff.mpr ⟨list, found⟩

theorem Levelled.exists_pending (levelled : Levelled terms origin level pool) (remote : origin.isLocal addr = false)
    (positive : 0 < level) (some_ : 0 < origin.size addr) :
    ∃ list, pool.pending.lookup addr = some list ∧ list.len = min level (origin.size addr) := by
  have size : pool.size addr = min level (origin.size addr) := by
    rw [Pool.size, levelled.views, length_cutTo, remote]
    rfl
  obtain ⟨list, found, length⟩ := Pool.exists_pending levelled.books addr (by omega)
  exact ⟨list, found, length.trans size⟩

/-- Spammers become offenders while too many transactions are pending, and the offenders have one level. -/
theorem penalize_levels {spammers : List Address} (ranked : origin.Ranked (offenders ++ spammers))
    (levelled : Levelled terms origin level pool)
    (above : origin.config.globalSlots < origin.load level → ∀ addr ∈ offenders, level ≤ origin.size addr)
    (below : ∀ addr ∈ spammers, origin.size addr ≤ level) (first : offenders = [] → ∀ addr ∈ spammers.head?, level ≤ origin.size addr)
    (low : origin.config.accountSlots ≤ level) (tight : origin.Tight level) :
    ∃ offenders' level' pool',
      pool.penalize moment spammers offenders (origin.load level) = some (offenders', origin.load level', pool') ∧
      Levelled terms origin level' pool' ∧ origin.config.accountSlots ≤ level' ∧ origin.Tight level' ∧
      offenders' ⊆ offenders ++ spammers ∧ (origin.load level' ≤ origin.config.globalSlots ∨
        offenders' = offenders ++ spammers ∧ ∀ addr ∈ offenders', level' ≤ origin.size addr) := by
  have positive := origin.config.accountSlots_pos
  induction spammers generalizing offenders level pool with
  | nil =>
    refine ⟨offenders, level, pool, rfl, levelled, low, tight, List.subset_append_left _ _, ?_⟩
    by_cases more : origin.config.globalSlots < origin.load level
    · exact .inr ⟨(List.append_nil _).symm, above more⟩
    · exact .inl (by omega)
  | cons offender rest ih =>
    rw [penalize, levelled.turned.config]
    split
    · rename_i fewer
      exact ⟨offenders, level, pool, rfl, levelled, low, tight, List.subset_append_left _ _, .inl fewer⟩
    · rename_i more
      have above := above (by omega)
      obtain ⟨remote, large⟩ := (ranked.mem_iff offender).mp (List.mem_append_right _ List.mem_cons_self)
      have under := below offender List.mem_cons_self
      have moved : (offenders ++ [offender]) ++ rest = offenders ++ offender :: rest := List.append_assoc _ _ _
      have sorted := List.pairwise_cons.mp (List.pairwise_append.mp ranked.sorted).2.1
      obtain ⟨list, found, length⟩ := levelled.exists_pending remote (by omega) (by omega)
      simp only [found, Option.bind_eq_bind, Option.bind_some]
      cases ends : offenders.getLast? with
      | none =>
        obtain rfl := List.getLast?_eq_none_iff.mp ends
        have first_ : origin.Ranked ([offender] ++ rest) := ranked
        obtain ⟨offenders', level', pool', ended, levelled', low', tight', part, stops⟩ := ih first_ levelled
          (fun _ addr member => List.mem_singleton.mp member ▸ first rfl offender rfl)
          (fun addr member => below addr (List.mem_cons_of_mem _ member)) (fun empty => absurd empty (List.cons_ne_nil _ _)) low tight
        exact ⟨offenders', level', pool', ended, levelled', low', tight', part, stops⟩
      | some last =>
        have member : last ∈ offenders := List.mem_of_getLast? ends
        have inside (addr : Address) (member : addr ∈ offenders) := (ranked.mem_iff addr).mp (List.mem_append_left _ member)
        have offending : Offending origin (origin.size offender) level offenders := by
          refine ⟨(List.nodup_append.mp ranked.once).1, fun addr member => (inside addr member).1, above, fun addr remote' other => ?_⟩
          by_cases listed : addr ∈ offender :: rest
          · rcases List.mem_cons.mp listed with rfl | later
            · exact le_rfl
            · exact sorted.1 addr later
          · have small : ¬ (origin.isLocal addr = false ∧ origin.config.accountSlots < origin.size addr) := fun spams =>
              (List.mem_append.mp ((ranked.mem_iff addr).mpr spams)).elim other listed
            have : ¬ origin.config.accountSlots < origin.size addr := fun many => small ⟨remote', many⟩
            omega
        obtain ⟨previous, found', length'⟩ := levelled.exists_pending (inside last member).1 (by omega)
          (by have := (inside last member).2; omega)
        have reaches := above last member
        have threshold : list.len = origin.size offender := by omega
        have rounds : previous.len = level := by omega
        obtain ⟨between, pool₁, equalized, levelled₁, limits⟩ := equalize_levels moment level levelled offending member
          large.le under (by omega) tight
        have ranked' : origin.Ranked ((offenders ++ [offender]) ++ rest) := moved ▸ ranked
        obtain ⟨offenders', level', pool', ended, levelled', low', tight', part, stops⟩ :=
          ih ranked' levelled₁ (fun more' addr listed => by
            have stop := limits.stops.resolve_left (by omega)
            rcases List.mem_append.mp listed with before | last
            · exact limits.high.trans (above addr before)
            · rw [List.mem_singleton.mp last]
              exact stop.le)
          (fun addr later => (sorted.1 addr later).trans limits.low) (fun empty => by simp at empty)
            (large.le.trans limits.low) limits.tight
        rw [moved] at part stops
        refine ⟨offenders', level', pool', ?_, levelled', low', tight', part, stops⟩
        simp only [found', Option.bind_some, threshold, rounds, equalized]
        exact ended

theorem equalize_idle {pending : Nat} (few : pending ≤ pool.config.globalSlots) (found : pool.pending.lookup addr = some list)
    (threshold rounds : Nat) : pool.equalize moment threshold addr offenders rounds pending = some (pending, pool) := by
  cases rounds with
  | zero => rfl
  | succ rounds =>
    simp only [equalize, found, Option.bind_eq_bind, Option.bind_some]
    exact if_neg fun more => absurd few (by omega)

/-- The pending transactions come down to the highest level with few enough of them, though not below the
slots of an account. -/
theorem truncatePending_levels (books : Books terms pool) :
    ∃ pool' level, pool.truncatePending moment = some pool' ∧ Levelled terms pool level pool' ∧ pool.config.accountSlots ≤ level ∧
      pool.Tight level ∧ (pool.load level ≤ pool.config.globalSlots ∨ level = pool.config.accountSlots) := by
  have positive := pool.config.accountSlots_pos
  have ranked := spammers_ranked moment books
  generalize shape : pool.spammers moment = spammers at ranked
  -- The first level is that of the first spammer.
  obtain ⟨level, low, within, below, first⟩ : ∃ level, pool.config.accountSlots ≤ level ∧ pool.Within level ∧
      (∀ addr ∈ spammers, pool.size addr ≤ level) ∧ ∀ addr ∈ spammers.head?, level ≤ pool.size addr := by
    have small {addr : Address} (remote : pool.isLocal addr = false) (other : addr ∉ spammers) :
        pool.size addr ≤ pool.config.accountSlots := by
      by_contra many
      exact other ((ranked.mem_iff addr).mpr ⟨remote, by omega⟩)
    cases spammers with
    | nil =>
      exact ⟨pool.config.accountSlots, le_rfl, fun addr remote => small remote (by simp), by simp, by simp⟩
    | cons head rest =>
      have sorted := (List.pairwise_cons.mp ranked.sorted).1
      have large := ((ranked.mem_iff head).mp List.mem_cons_self).2
      have highest : ∀ addr ∈ head :: rest, pool.size addr ≤ pool.size head := fun addr member => by
        rcases List.mem_cons.mp member with rfl | later
        · exact le_rfl
        · exact sorted addr later
      refine ⟨pool.size head, large.le, fun addr remote => ?_, highest, by simp⟩
      by_cases listed : addr ∈ head :: rest
      · exact highest addr listed
      · exact (small remote listed).trans large.le
  have levelled : Levelled terms pool level pool := ⟨books, .refl pool, rfl, fun addr => (cutTo_of_within within addr).symm⟩
  have total : ((Maps.values pool.pending).map TxList.len).sum = pool.load level := load_of_within books within
  rw [truncatePending, total, shape]
  dsimp only
  split
  · rename_i few
    exact ⟨pool, level, rfl, levelled, low, .inl within, .inl few⟩
  · have ranked_ : pool.Ranked ([] ++ spammers) := ranked
    obtain ⟨offenders, level', pool₁, penalized, levelled₁, low₁, tight₁, part, stops⟩ :=
      penalize_levels moment ranked_ levelled (by simp) below (fun _ => first) low (.inl within)
    rw [List.nil_append] at part stops
    simp only [penalized, Option.bind_eq_bind, Option.bind_some]
    cases ends : offenders.getLast? with
    | none =>
      obtain rfl := List.getLast?_eq_none_iff.mp ends
      rcases stops with few | ⟨none, -⟩
      · exact ⟨pool₁, level', rfl, levelled₁, low₁, tight₁, .inl few⟩
      · -- Nobody is above the slots of an account.
        have small : pool.Within pool.config.accountSlots := fun addr remote => by
          by_contra many
          have spams := (ranked.mem_iff addr).mpr ⟨remote, by omega⟩
          rw [← none] at spams
          cases spams
        refine ⟨pool₁, pool.config.accountSlots, rfl, ⟨levelled₁.books, levelled₁.turned, levelled₁.locals, fun addr => ?_⟩,
          le_rfl, .inl small, .inr rfl⟩
        rw [levelled₁.views, cutTo_of_within small, cutTo_of_within fun addr remote => (small addr remote).trans low₁]
    | some last =>
      have member := List.mem_of_getLast? ends
      obtain ⟨remote, large⟩ := (ranked.mem_iff last).mp (part member)
      obtain ⟨list, found, length⟩ := levelled₁.exists_pending remote (by omega) (by omega)
      simp only [found, Option.bind_some]
      rcases stops with few | ⟨rfl, above⟩
      · rw [equalize_idle moment (by rw [levelled₁.turned.config]; exact few) found]
        exact ⟨pool₁, level', rfl, levelled₁, low₁, tight₁, .inl few⟩
      · have offending : Offending pool pool.config.accountSlots level' offenders := by
          refine ⟨ranked.once, fun addr inside => ((ranked.mem_iff addr).mp inside).1, above, fun addr remote' other => ?_⟩
          by_contra many
          exact other ((ranked.mem_iff addr).mpr ⟨remote', by omega⟩)
        have reaches := above last member
        obtain ⟨level'', pool₂, equalized, levelled₂, limits⟩ := equalize_levels moment list.len levelled₁ offending member
          le_rfl low₁ (by omega) tight₁
        rw [levelled₁.turned.config, equalized]
        exact ⟨pool₂, level'', rfl, levelled₂, limits.low, limits.tight, limits.stops⟩

end Pool

end Snowside.TxPool
