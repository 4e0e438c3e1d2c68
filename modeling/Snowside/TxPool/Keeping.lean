import Snowside.TxPool.Books

/-! Each part of a step of the pool ends, with the books kept and the pending transactions of every account
changed by turns.
-/

set_option autoImplicit false

namespace Snowside.TxPool

open Evm (Address)
open Maps (Map lookup_insert_eq lookup_erase_eq)
open Precompile (Hash)
open TxList (costBound Leaves)

namespace Pool

variable {terms : Terms} {ok : Transaction → Prop} {addr : Address} {loose : List Transaction} {pool pool' : Pool}
  {tx : Transaction} {list list' : TxList} (moment : Moment)

/-- The pending transactions of every account have changed by turns only. -/
structure Turned (ok : Transaction → Prop) (pool pool' : Pool) : Prop where
  config : pool'.config = pool.config
  self : pool'.self = pool.self
  head : pool'.head = pool.head
  state : pool'.state = pool.state
  turns : ∀ addr, Turns ok (pool.state.nonce addr) (pool.state.balance addr) (pool.view addr) (pool'.view addr)

namespace Turned

theorem refl (pool : Pool) : Turned ok pool pool := ⟨rfl, rfl, rfl, rfl, fun _ => .refl⟩

theorem trans {between : Pool} (first : Turned ok pool between) (second : Turned ok between pool') : Turned ok pool pool' where
  config := second.config.trans first.config
  self := second.self.trans first.self
  head := second.head.trans first.head
  state := second.state.trans first.state
  turns addr := by
    have onwards := second.turns addr
    rw [first.state] at onwards
    exact (first.turns addr).trans onwards

theorem of_beside (beside : Beside addr pool pool')
    (turns : Turns ok (pool.state.nonce addr) (pool.state.balance addr) (pool.view addr) (pool'.view addr)) :
    Turned ok pool pool' where
  config := beside.config
  self := beside.self
  head := beside.head
  state := beside.state
  turns other := by
    by_cases same : other = addr
    · rw [same]
      exact turns
    · rw [beside.view same]

end Turned

/-! ## Opening and closing -/

theorem Books.reserved (books : Books terms pool) (lists : pool.hasLists addr = true) :
    pool.reservations.lookup addr = some pool.self := (books.tidy addr).reserved.mpr (.inl lists)

theorem Books.opened (books : Books terms pool)
    (reserved : pool.reservations.lookup addr = some pool.self) : Open terms addr [] pool where
  filed := books.filed addr
  others other _ := ⟨books.filed other, books.tidy other⟩
  sane := books.sane
  fallback := books.fallback
  reserved := reserved
  catalogue := books.catalogue

theorem Open.close (opened : Open terms addr [] pool) (full : Full addr pool)
    (lists : pool.hasLists addr = true) : Books terms pool where
  filed other := by
    by_cases same : other = addr
    · rw [same]
      exact opened.filed
    · exact (opened.others other same).1
  tidy other := by
    by_cases same : other = addr
    · rw [same]
      exact ⟨full, by simp [opened.reserved, lists]⟩
    · exact (opened.others other same).2
  catalogue := opened.catalogue
  sane := opened.sane
  fallback := opened.fallback

theorem release_eq (pool : Pool) (addr : Address) : pool.release addr =
    if pool.reservations.lookup addr = some pool.self then { pool with reservations := pool.reservations.erase addr } else pool := by
  unfold Pool.release reserver
  cases pool.reservations.lookup addr with
  | none => rfl
  | some owner =>
    by_cases own : owner = pool.self
    · simp [own]
    · simp [own]

theorem Beside.release (pool : Pool) : Beside addr pool (pool.release addr) := by
  rw [release_eq]
  split
  · exact { Beside.refl pool with reservations := fun other apart => by simp [apart] }
  · exact .refl pool

theorem hasLists_eq_false : pool.hasLists addr = false ↔ pool.pending.lookup addr = none ∧ pool.queue.lookup addr = none := by
  simp [hasLists]

theorem Tidy.invited {guest guest' : Option Address} (tidy : Tidy guest addr pool) (same : guest = some addr ↔ guest' = some addr) :
    Tidy guest' addr pool :=
  ⟨tidy.toFull, by rw [← same]; exact tidy.reserved⟩

/-- An account without lists is released, and is no guest any more. -/
theorem Open.release {guest : Option Address} (opened : Open terms addr [] pool) (lists : pool.hasLists addr = false)
    (left : guest ≠ some addr) (same : ∀ other, other ≠ addr → (terms.guest = some other ↔ guest = some other)) :
    Books { terms with guest } (pool.release addr) := by
  have beside : Beside addr pool (pool.release addr) := .release pool
  rw [release_eq, if_pos opened.reserved] at beside ⊢
  obtain ⟨pending, queue⟩ := hasLists_eq_false.mp lists
  have sane := opened.sane
  refine ⟨fun other => ?_, fun other => ?_, opened.catalogue, ⟨sane.known, sane.keyed, sane.urgent, sane.floating,
    sane.covered, sane.urgentOrdered, sane.floatingOrdered⟩, opened.fallback⟩
  · by_cases here : other = addr
    · rw [here]
      exact opened.filed
    · exact (opened.others other here).1
  · by_cases here : other = addr
    · subst here
      refine ⟨⟨fun list found => ?_, fun list found => ?_⟩, ?_⟩
      · exact absurd (pending.symm.trans found) (by simp)
      · exact absurd (queue.symm.trans found) (by simp)
      · refine ⟨fun reserved => absurd reserved (by simp), fun listed => ?_⟩
        rcases listed with listed | invited
        · exact absurd (lists.symm.trans listed) (by simp)
        · exact absurd invited left
    · exact beside.tidy here ((opened.others other here).2.invited (same other here))

theorem Open.releaseEmpty (opened : Open terms addr [] pool) (full : Full addr pool) (apart : terms.guest ≠ some addr) :
    Books terms (pool.releaseEmpty addr) := by
  unfold Pool.releaseEmpty
  split
  · rename_i lists
    exact opened.close full lists
  · rename_i lists
    exact opened.release (by simpa using lists) apart fun _ _ => .rfl

theorem isEmpty_iff (sound : list.Sound) : list.isEmpty = true ↔ list.contents = [] := by
  have length : list.len = list.contents.length := sound.txs.len_eq
  rw [TxList.isEmpty, decide_eq_true_eq, length, List.length_eq_zero_iff]

theorem Open.erasePending (opened : Open terms addr loose pool) (empty : contentsOf (pool.pending.lookup addr) = []) :
    Moves terms addr loose loose pool { pool with pending := pool.pending.erase addr } := by
  refine .of_perm opened.toShelves ?_ (fun list found => ?_) opened.filed.queueSound ?_ rfl rfl rfl
  · exact { Beside.refl pool with pending := fun other apart => by simp [apart] }
  · exact absurd found (by simp)
  · change ((contentsOf ((pool.pending.erase addr).lookup addr) ++ _) ++ loose).Perm ((_ ++ _) ++ loose)
    rw [AList.lookup_erase, empty]
    exact .refl _

theorem Open.eraseQueue (opened : Open terms addr loose pool) (empty : contentsOf (pool.queue.lookup addr) = []) :
    Moves terms addr loose loose pool { pool with queue := pool.queue.erase addr, beats := pool.beats.erase addr } := by
  refine .of_perm opened.toShelves ?_ opened.filed.pendingSound (fun list found => ?_) ?_ rfl rfl rfl
  · exact { Beside.refl pool with
      queue := fun other apart => by simp [apart]
      beats := fun other apart => by simp [apart] }
  · exact absurd found (by simp)
  · change ((_ ++ contentsOf ((pool.queue.erase addr).lookup addr)) ++ loose).Perm ((_ ++ _) ++ loose)
    rw [AList.lookup_erase, empty]
    exact .refl _

theorem Open.settleQueue (opened : Open terms addr [] pool) (found : pool.queue.lookup addr = some list)
    (filled : ∀ list ∈ pool.pending.lookup addr, list.contents ≠ []) (beating : (pool.beats.lookup addr).isSome)
    (apart : terms.guest ≠ some addr) :
    Books terms (pool.settleQueue addr list) ∧ Beside addr pool (pool.settleQueue addr list) ∧
      (pool.settleQueue addr list).view addr = pool.view addr := by
  have empty_iff := isEmpty_iff (opened.filed.queueSound list found).1
  unfold Pool.settleQueue
  split
  · rename_i empty
    have moves := opened.eraseQueue (by simp [found, contentsOf, empty_iff.mp empty])
    have opened' := opened.moves moves
    have gone : (pool.queue.erase addr).lookup addr = none := AList.lookup_erase _ _
    dsimp only
    split
    · rename_i nothing
      have books := opened'.release (by simp [hasLists, Option.isNone_iff_eq_none.mp nothing]) apart fun _ _ => .rfl
      refine ⟨books, moves.beside.trans (.release _), ?_⟩
      rw [release_eq]
      split <;> rfl
    · rename_i something
      refine ⟨opened'.close ⟨filled, fun list there => ?_⟩ ?_, moves.beside, rfl⟩
      · exact absurd (gone.symm.trans there) (by simp)
      · rw [Bool.not_eq_true, Option.isNone_eq_false_iff] at something
        simp [hasLists, something]
  · rename_i nonempty
    refine ⟨opened.close ⟨filled, fun other there => ?_⟩ ?_, .refl pool, rfl⟩
    · cases found.symm.trans there
      exact ⟨fun empty => nonempty (empty_iff.mpr empty), beating⟩
    · simp [hasLists, found]

theorem Open.settlePending (opened : Open terms addr [] pool) (found : pool.pending.lookup addr = some list)
    (waiting : Waiting addr pool) (apart : terms.guest ≠ some addr) :
    Books terms (pool.settlePending addr list) ∧ Beside addr pool (pool.settlePending addr list) ∧
      contentsOf ((pool.settlePending addr list).pending.lookup addr) = list.contents := by
  have empty_iff := isEmpty_iff (opened.filed.pendingSound list found).1
  unfold Pool.settlePending
  split
  · rename_i empty
    have moves := opened.erasePending (by simp [found, contentsOf, empty_iff.mp empty])
    have opened' := opened.moves moves
    have gone : (pool.pending.erase addr).lookup addr = none := AList.lookup_erase _ _
    dsimp only
    split
    · rename_i nothing
      have books := opened'.release (by simp [hasLists, Option.isNone_iff_eq_none.mp nothing]) apart fun _ _ => .rfl
      refine ⟨books, moves.beside.trans (.release _), ?_⟩
      rw [release_eq]
      split <;> simp [contentsOf, empty_iff.mp empty]
    · rename_i something
      refine ⟨opened'.close ⟨fun list there => ?_, waiting⟩ ?_, moves.beside, by simp [contentsOf, empty_iff.mp empty]⟩
      · exact absurd (gone.symm.trans there) (by simp)
      · rw [Bool.not_eq_true, Option.isNone_eq_false_iff] at something
        simp [hasLists, something]
  · rename_i nonempty
    refine ⟨opened.close ⟨fun other there => ?_, waiting⟩ ?_, .refl pool, by simp [found, contentsOf]⟩
    · cases found.symm.trans there
      exact fun empty => nonempty (empty_iff.mpr empty)
    · simp [hasLists, found]

/-! ## Promotion -/

theorem Beside.setNonces {nonces : Noncer} (fallback : nonces.fallback = pool.pendingNonces.fallback)
    (next : ∀ other, other ≠ addr → nonces.next other = pool.pendingNonces.next other) :
    Beside addr pool (pool.setNonces nonces) :=
  { Beside.refl pool with fallback := fallback, next := next }

theorem Open.setNonces (opened : Open terms addr loose pool) {nonces : Noncer}
    (beside : Beside addr pool (pool.setNonces nonces)) : Open terms addr loose (pool.setNonces nonces) :=
  ⟨opened.move beside opened.filed opened.sane rfl, opened.catalogue⟩

/-- What does not fit leaves a list that is not strict, and nothing with it. -/
theorem filter_loose (sound : list.Sound) (loose_ : list.strict = false) (ranges : Ranges) (costLimit gasLimit : Nat) :
    ∃ drops list', list.filter ranges costLimit gasLimit = some (drops, [], list') ∧
      Leaves list drops (list.contents.filter (! TxList.exceeds costLimit gasLimit ·)) list' := by
  obtain ⟨drops, invalids, list', filtered, perm, leaves⟩ := sound.filter ranges costLimit gasLimit
  have left : TxList.fitting list.strict costLimit gasLimit list.contents =
      list.contents.filter (! TxList.exceeds costLimit gasLimit ·) := by
    rw [loose_]
    rfl
  rw [left] at leaves
  have nothing : invalids = [] := by
    have all := List.filter_append_perm (TxList.exceeds costLimit gasLimit) list.contents
    have counts := leaves.split.length_eq
    have counts' := all.length_eq
    have counts'' := perm.length_eq
    simp only [List.length_append] at counts counts'
    exact List.length_eq_zero_iff.mp (by omega)
  subst nothing
  rw [List.append_nil] at leaves
  exact ⟨drops, list', filtered, leaves⟩

/-- Transactions leave the queue of an account and the pool. -/
structure QueueDrops (terms : Terms) (addr : Address) (list' : TxList) (pool pool' : Pool) : Prop where
  opened : Open terms addr [] pool'
  beside : Beside addr pool pool'
  found : pool'.queue.lookup addr = some list'
  pending : pool'.pending = pool.pending
  view : pool'.view addr = pool.view addr
  beats : pool'.beats = pool.beats

theorem Open.dropQueue (opened : Open terms addr [] pool) (found : pool.queue.lookup addr = some list)
    {gone left : List Transaction} (leaves : Leaves list gone left list') :
    QueueDrops terms addr list' pool ((pool.setQueue addr list').forget gone) := by
  have moves := leaveQueue opened.toShelves found leaves
  exact ⟨(opened.moves moves).forget, moves.beside.trans (.forget _ gone), by simp [Pool.forget, setQueue], rfl, rfl, rfl⟩

/-- Transactions leave the pending ones of an account and the pool. -/
structure PendingDrops (terms : Terms) (addr : Address) (list' : TxList) (pool pool' : Pool) : Prop where
  opened : Open terms addr [] pool'
  beside : Beside addr pool pool'
  found : pool'.pending.lookup addr = some list'
  waiting : Waiting addr pool → Waiting addr pool'

theorem Open.dropPending (opened : Open terms addr [] pool) (found : pool.pending.lookup addr = some list)
    {gone left : List Transaction} (leaves : Leaves list gone left list') :
    PendingDrops terms addr list' pool ((pool.setPending addr list').forget gone) := by
  have moves := leavePending opened.toShelves found leaves
  exact ⟨(opened.moves moves).forget, moves.beside.trans (.forget _ gone), by simp [Pool.forget, setPending], id⟩

theorem hasLists_of_queue (found : pool.queue.lookup addr = some list) : pool.hasLists addr = true := by simp [hasLists, found]

theorem hasLists_of_pending (found : pool.pending.lookup addr = some list) : pool.hasLists addr = true := by
  simp [hasLists, found]

theorem capQueue_leaves (sound : list.Sound) (pool : Pool) (addr : Address) :
    ∃ caps left list', pool.capQueue addr list = some (caps, list') ∧ Leaves list caps left list' := by
  unfold capQueue
  split
  · exact ⟨[], list.contents, list, rfl, .refl sound⟩
  · obtain ⟨list', capped, leaves⟩ := sound.cap pool.config.accountQueue
    exact ⟨_, _, list', capped, leaves⟩

/-- The readies of the queue are promoted. -/
theorem Open.promoteReadies (opened : Open terms addr [] pool) (found : pool.queue.lookup addr = some list)
    (reached : ∀ tx ∈ list.contents, pool.state.nonce addr ≤ tx.nonce)
    (paid : ∀ tx ∈ list.contents, tx.cost ≤ pool.state.balance addr) :
    ∃ readies list' pool', list.ready (pool.pendingNonces.next addr) = some (readies, list') ∧ list'.Sound ∧
      (pool.setQueue addr list').promoteTxs moment addr readies = some pool' ∧ Open terms addr [] pool' ∧
      Beside addr pool pool' ∧ pool'.queue.lookup addr = some list' ∧ Raises addr (pool.setQueue addr list') pool' ∧
      Turns terms.ok (pool.state.nonce addr) (pool.state.balance addr) (pool.view addr) (pool'.view addr) := by
  obtain ⟨sound, -⟩ := opened.filed.queueSound list found
  obtain ⟨list', readied, leaves⟩ := sound.ready (pool.pendingNonces.next addr)
  have moves := leaveQueue opened.toShelves found leaves
  obtain ⟨first, consecutive, starts⟩ :=
    Sorted.readies_consecutive Transaction.nonce (pool.pendingNonces.next addr) list.contents
  have inside : ∀ tx ∈ Sorted.readies Transaction.nonce (pool.pendingNonces.next addr) list.contents, tx ∈ list.contents :=
    fun tx member => leaves.split.mem_iff.mpr (List.mem_append_left _ member)
  have bounds : Sorted.readies Transaction.nonce (pool.pendingNonces.next addr) list.contents ≠ [] →
      (pool.setQueue addr list').state.nonce addr ≤ first ∧ first ≤ ((pool.setQueue addr list').view addr).next :=
    fun nonempty => by
      obtain ⟨low, tx, member, same⟩ := starts nonempty
      exact ⟨same ▸ reached tx member, low⟩
  obtain ⟨pool', promoted, moves', raises, turns⟩ :=
    promote_run moment moves.shelves consecutive bounds fun tx member => paid tx (inside tx member)
  refine ⟨_, list', pool', readied, leaves.sound, promoted, (opened.moves moves).moves moves',
    moves.beside.trans moves'.beside, ?_, raises, turns⟩
  rw [raises.queue]
  simp [setQueue]

theorem promoteAccount_keeps (books : Books terms pool) (alone : terms.guest = none) (addr : Address) :
    ∃ pool', pool.promoteAccount moment addr = some pool' ∧ Books terms pool' ∧ Turned terms.ok pool pool' := by
  cases found : pool.queue.lookup addr with
  | none => exact ⟨pool, by rw [promoteAccount, found], books, .refl pool⟩
  | some list =>
    have opened : Open terms addr [] pool := books.opened (books.reserved (hasLists_of_queue found))
    have tidy := books.tidy addr
    obtain ⟨sound, loose_⟩ := opened.filed.queueSound list found
    -- What is too old or too costly is dropped.
    obtain ⟨list₁, forwarded, leaves₁⟩ := sound.forward (pool.state.nonce addr)
    have drops₁ := opened.dropQueue found leaves₁
    generalize list.contents.takeWhile _ = forwards at forwarded drops₁ leaves₁
    generalize shape₁ : (pool.setQueue addr list₁).forget forwards = pool₁ at drops₁
    obtain ⟨dropped, list₂, filtered, leaves₂⟩ :=
      filter_loose leaves₁.sound (leaves₁.strict.trans loose_) moment.ranges (pool₁.state.balance addr) pool₁.head.gasLimit
    have drops₂ := drops₁.opened.dropQueue drops₁.found leaves₂
    generalize shape₂ : (pool₁.setQueue addr list₂).forget dropped = pool₂ at drops₂
    -- The nonce after the pending transactions is read.
    have beside₃ : Beside addr pool₂ (pool₂.setNonces (pool₂.pendingNonces.load addr)) :=
      .setNonces Noncer.load_fallback fun _ _ => Noncer.next_load
    have opened₃ := drops₂.opened.setNonces beside₃
    have beside := (drops₁.beside.trans drops₂.beside).trans beside₃
    have left : ∀ tx ∈ list₂.contents, pool.state.nonce addr ≤ tx.nonce ∧ tx.cost ≤ pool₁.state.balance addr := by
      intro tx member
      rw [leaves₂.contents, leaves₁.contents, sound.increasing.dropWhile_below] at member
      obtain ⟨inside, fits⟩ := List.mem_filter.mp member
      exact ⟨by simpa using (List.mem_filter.mp inside).2, (TxList.within_of_fits (by simpa using fits)).1⟩
    obtain ⟨readies, list₃, pool₄, readied, sound₃, promoted, opened₄, beside₄, found₄, raises, turns⟩ :=
      opened₃.promoteReadies moment drops₂.found (fun tx member => by rw [beside.state]; exact (left tx member).1)
        (fun tx member => by rw [beside.state, ← drops₁.beside.state]; exact (left tx member).2)
    -- The queue is capped and perhaps given up.
    obtain ⟨caps, kept, list₅, capped, leaves₅⟩ := capQueue_leaves sound₃ pool₄ addr
    have drops₅ := opened₄.dropQueue found₄ leaves₅
    generalize shape₅ : (pool₄.setQueue addr list₅).forget caps = pool₅ at drops₅
    have opened₆ := drops₅.opened.pricedRemoved moment (forwards.length + dropped.length + caps.length)
    have filled : ∀ list ∈ pool₅.pending.lookup addr, list.contents ≠ [] := by
      rw [drops₅.pending]
      refine raises.filled ?_
      change ∀ list ∈ pool₂.pending.lookup addr, list.contents ≠ []
      rw [drops₂.pending, drops₁.pending]
      exact tidy.pending
    have beating : (pool₅.beats.lookup addr).isSome := by
      rw [drops₅.beats]
      refine raises.beating ?_
      change (pool₂.beats.lookup addr).isSome
      rw [drops₂.beats, drops₁.beats]
      exact (tidy.queue list found).2
    obtain ⟨books', beside₆, view₆⟩ := opened₆.settleQueue drops₅.found filled beating (by simp [alone])
    refine ⟨_, ?_, books', .of_beside (((beside.trans beside₄).trans drops₅.beside).trans
      ((Beside.pricedRemoved _ _ _).trans beside₆)) ?_⟩
    · rw [promoteAccount, found]
      simp only [Option.bind_eq_bind, Option.bind_some, forwarded, shape₁, filtered, shape₂, Noncer.get_eq]
      have readied : list₂.ready (pool₂.pendingNonces.next addr) = some (readies, list₃) := by
        have next : (pool₂.pendingNonces.load addr).next addr = pool₂.pendingNonces.next addr := Noncer.next_load
        rw [← next]
        exact readied
      simp only [readied, promoted, capped, shape₅, Option.bind_some]
      rfl
    · have view : (pool₂.setNonces (pool₂.pendingNonces.load addr)).view addr = pool.view addr := by
        rw [← drops₁.view, ← drops₂.view]
        exact congrArg (View.mk _) Noncer.next_load
      rw [beside.state, view] at turns
      have view₆' : (pool₅.pricedRemoved moment (forwards.length + dropped.length + caps.length)).view addr = pool₄.view addr :=
        drops₅.view
      rw [view₆, view₆']
      exact turns

/-! ## Demotion -/

theorem contains_iff (sound : list.Sound) (nonce : Nat) :
    list.contains nonce = true ↔ ∃ tx ∈ list.contents, tx.nonce = nonce := by
  rw [TxList.contains, Option.isSome_iff_exists]
  exact exists_congr fun tx => sound.get_iff

/-- A list that starts elsewhere leaves as a whole. -/
theorem capGapped_leaves (sound : list.Sound) (nonce : Nat) :
    ∃ gapped list', capGapped nonce list = some (gapped, list') ∧
      Leaves list gapped (if list.contents.any (·.nonce = nonce) then list.contents else []) list' := by
  have starts : list.contents.any (·.nonce = nonce) = list.contains nonce := by
    rw [Bool.eq_iff_iff, contains_iff sound]
    simp
  have empty_iff := isEmpty_iff sound
  rw [starts]
  unfold capGapped
  split
  · rename_i gap
    rw [Bool.and_eq_true, Bool.not_eq_true', Bool.not_eq_true'] at gap
    obtain ⟨list', capped, leaves⟩ := sound.cap 0
    rw [gap.2]
    exact ⟨_, list', capped, leaves⟩
  · rename_i whole
    rw [Bool.and_eq_true, Bool.not_eq_true', Bool.not_eq_true', not_and_or, Bool.not_eq_false, Bool.not_eq_false] at whole
    refine ⟨[], list, rfl, ?_⟩
    rcases whole with empty | contains
    · have nothing := empty_iff.mp empty
      simpa [nothing] using Leaves.refl sound
    · rw [contains]
      exact .refl sound

/-- What fits the state at the head. -/
def fits (pool : Pool) (addr : Address) (tx : Transaction) : Bool :=
  ! TxList.exceeds (pool.state.balance addr) pool.head.gasLimit tx

theorem Open.requeue {gone : List Transaction} (opened : Open terms addr gone pool) :
    ∃ pool', pool.requeue moment gone = some pool' ∧ Open terms addr [] pool' ∧ Beside addr pool pool' ∧ Fills addr pool pool' := by
  have shelves : Shelves terms addr (gone ++ []) pool := by
    rw [List.append_nil]
    exact opened.toShelves
  obtain ⟨pool', requeued, moves, fills⟩ := requeue_loose moment shelves
  rw [List.append_nil] at moves
  exact ⟨pool', requeued, opened.moves moves, moves.beside, fills⟩

theorem demoteAccount_settles (books : Books terms pool) (alone : terms.guest = none) (addr : Address) :
    ∃ pool', pool.demoteAccount moment addr = some pool' ∧ Books terms pool' ∧ Beside addr pool pool' ∧
      contentsOf (pool'.pending.lookup addr) =
        View.settled (pool.state.nonce addr) (pool.fits addr) (contentsOf (pool.pending.lookup addr)) := by
  cases found : pool.pending.lookup addr with
  | none => exact ⟨pool, by rw [demoteAccount, found], books, .refl pool, by rw [found]; rfl⟩
  | some list =>
    have opened : Open terms addr [] pool := books.opened (books.reserved (hasLists_of_pending found))
    have waiting := (books.tidy addr).queue
    obtain ⟨sound, strict⟩ := opened.filed.pendingSound list found
    -- What is too old is dropped.
    obtain ⟨list₁, forwarded, leaves₁⟩ := sound.forward (pool.state.nonce addr)
    have drops₁ := opened.dropPending found leaves₁
    generalize list.contents.takeWhile _ = olds at forwarded drops₁ leaves₁
    generalize shape₁ : (pool.setPending addr list₁).forget olds = pool₁ at drops₁
    -- What is too costly is dropped, and what comes after goes back to the queue.
    obtain ⟨dropped, invalids, list₂, filtered, -, leaves₂⟩ :=
      leaves₁.sound.filter moment.ranges (pool₁.state.balance addr) pool₁.head.gasLimit
    have moves₂ := leavePending drops₁.opened.toShelves drops₁.found leaves₂
    have opened₂ : Open terms addr invalids ((pool₁.setPending addr list₂).forget dropped) := by
      have opened₂ : Open terms addr (dropped ++ invalids) (pool₁.setPending addr list₂) := by
        have opened₂ := drops₁.opened.moves moves₂
        rw [List.append_nil] at opened₂
        exact opened₂
      exact opened₂.forget
    have beside₂ : Beside addr pool₁ ((pool₁.setPending addr list₂).forget dropped) :=
      moves₂.beside.trans (.forget _ dropped)
    have found₂ : ((pool₁.setPending addr list₂).forget dropped).pending.lookup addr = some list₂ := by
      simp [Pool.forget, setPending]
    have waiting₂ : Waiting addr ((pool₁.setPending addr list₂).forget dropped) := drops₁.waiting waiting
    generalize shape₂ : (pool₁.setPending addr list₂).forget dropped = pool₂ at opened₂ beside₂ found₂ waiting₂
    obtain ⟨pool₃, requeued₃, opened₃, beside₃, fills₃⟩ := opened₂.requeue moment
    -- A gap in front sends the rest back as well.
    obtain ⟨gapped, list₄, capped, leaves₄⟩ := capGapped_leaves leaves₂.sound (pool.state.nonce addr)
    have moves₄ := leavePending opened₃.toShelves (by rw [fills₃.pending]; exact found₂) leaves₄
    rw [List.append_nil] at moves₄
    have opened₄ := opened₃.moves moves₄
    obtain ⟨pool₅, requeued₅, opened₅, beside₅, fills₅⟩ := opened₄.requeue moment
    have found₅ : pool₅.pending.lookup addr = some list₄ := by
      rw [fills₅.pending]
      simp [setPending]
    obtain ⟨books', beside₆, contents₆⟩ :=
      opened₅.settlePending found₅ (fills₅.waiting (fills₃.waiting waiting₂)) (by simp [alone])
    have before := drops₁.beside.trans beside₂
    refine ⟨_, ?_, books', ((before.trans beside₃).trans moves₄.beside).trans (beside₅.trans beside₆), ?_⟩
    · rw [demoteAccount, found]
      simp only [Option.bind_eq_bind, Option.bind_some, forwarded, shape₁, filtered, shape₂, requeued₃, capped, requeued₅]
      rfl
    · have strict₁ : TxList.fitting list₁.strict (pool₁.state.balance addr) pool₁.head.gasLimit list₁.contents =
          list₁.contents.takeWhile (pool.fits addr) := by
        rw [leaves₁.strict, strict, drops₁.beside.state, drops₁.beside.head]
        rfl
      rw [contents₆, leaves₄.contents, leaves₂.contents, strict₁, leaves₁.contents]
      rfl

/-! ## Removal -/

theorem lookup_shelve (lists : Map Address TxList) (list : TxList) {other : Address} :
    (shelve lists addr list).lookup other =
      if other = addr then if list.isEmpty then none else some list else lists.lookup other := by
  unfold shelve
  split
  · rw [lookup_erase_eq]
  · rw [lookup_insert_eq]

theorem contentsOf_shelved (sound : list.Sound) : contentsOf (if list.isEmpty then none else some list) = list.contents := by
  split
  · rename_i empty
    rw [(isEmpty_iff sound).mp empty]
    rfl
  · rfl

theorem removeQueued_moves (shelves : Shelves terms addr [] pool) (full : Full addr pool)
    (queued : tx ∈ contentsOf (pool.queue.lookup addr)) :
    ∃ pool', pool.removeQueued moment addr tx = some pool' ∧ Moves terms addr [] [tx] pool pool' ∧ Full addr pool' ∧
      pool'.view addr = pool.view addr := by
  cases found : pool.queue.lookup addr with
  | none => simp [found, contentsOf] at queued
  | some future =>
    simp only [found, contentsOf, Option.map_some, Option.getD_some] at queued
    obtain ⟨sound, loose_⟩ := shelves.filed.queueSound future found
    obtain ⟨invalids, future', removed, nothing, leaves⟩ := sound.remove moment.ranges queued
    rw [if_neg (by simp [loose_])] at nothing leaves
    obtain rfl := nothing.eq_nil
    have now : (shelve pool.queue addr future').lookup addr = if future'.isEmpty then none else some future' := by
      rw [lookup_shelve, if_pos rfl]
    have moves : Moves terms addr [] [tx] pool { pool with
        queue := shelve pool.queue addr future'
        beats := if future'.isEmpty then pool.beats.erase addr else pool.beats } := by
      refine .of_perm shelves ?_ shelves.filed.pendingSound ?_ ?_ rfl rfl rfl
      · exact { Beside.refl pool with
          queue := fun other apart => by rw [lookup_shelve, if_neg apart]
          beats := fun other apart => by
            dsimp only
            split
            · rw [lookup_erase_eq, if_neg apart]
            · rfl }
      · intro other member
        rw [now] at member
        split at member
        · cases member
        · cases member
          exact ⟨leaves.sound, leaves.strict.trans loose_⟩
      · have split := leaves.split
        simp only [stock, now, contentsOf_shelved leaves.sound, leaves.contents, found]
        change ((contentsOf (pool.pending.lookup addr) ++ _) ++ [tx]).Perm
          ((contentsOf (pool.pending.lookup addr) ++ future.contents) ++ [])
        grind
    refine ⟨_, by rw [removeQueued, found]; simp only [removed, Option.bind_eq_bind, Option.bind_some]; rfl, moves,
      ⟨full.pending, fun other member => ?_⟩, rfl⟩
    dsimp only at member ⊢
    rw [now] at member
    split at member
    · cases member
    · rename_i nonempty
      cases member
      rw [if_neg nonempty]
      exact ⟨fun empty => nonempty ((isEmpty_iff leaves.sound).mpr empty), (full.queue future found).2⟩

/-- A transaction leaves its list, and those after it go back to the queue. -/
theorem unlist_moves (shelves : Shelves terms addr [] pool) (full : Full addr pool) (listed : tx ∈ pool.stock addr) :
    ∃ count pool', pool.unlist moment addr tx = some (count, pool') ∧ Moves terms addr [] [tx] pool pool' ∧
      Full addr pool' ∧ Turns terms.ok (pool.state.nonce addr) (pool.state.balance addr) (pool.view addr) (pool'.view addr) ∧
      (tx ∈ contentsOf (pool.queue.lookup addr) → pool'.view addr = pool.view addr) := by
  have elsewhere (absent : tx ∉ contentsOf (pool.pending.lookup addr)) : tx ∈ contentsOf (pool.queue.lookup addr) :=
    (List.mem_append.mp listed).resolve_left absent
  cases found : pool.pending.lookup addr with
  | none =>
    obtain ⟨pool', removed, moves, full', view⟩ :=
      removeQueued_moves moment shelves full (elsewhere (by simp [found, contentsOf]))
    exact ⟨0, pool', by rw [unlist, found]; simp only [removed]; rfl, moves, full', by rw [view], fun _ => view⟩
  | some list =>
    have contents : contentsOf (pool.pending.lookup addr) = list.contents := by simp [found, contentsOf]
    obtain ⟨sound, strict⟩ := shelves.filed.pendingSound list found
    -- No nonce is both pending and queued.
    have apart {other : Transaction} (inside : other ∈ list.contents) (queued : tx ∈ contentsOf (pool.queue.lookup addr)) :
        other.nonce ≠ tx.nonce := fun same => by
      have apart := shelves.filed.apart
      rw [List.append_nil, List.map_append, List.nodup_append] at apart
      exact apart.2.2 other.nonce (List.mem_map.mpr ⟨other, by rw [contents]; exact inside, rfl⟩) tx.nonce
        (List.mem_map.mpr ⟨tx, queued, rfl⟩) same
    by_cases member : tx ∈ list.contents
    · obtain ⟨invalids, list', removed, -, leaves⟩ := sound.remove moment.ranges member
      rw [if_pos strict] at leaves
      have now : (pool.shelvePending addr list').pending.lookup addr = if list'.isEmpty then none else some list' := by
        rw [shelvePending, lookup_shelve, if_pos rfl]
      have moves : Moves terms addr [] (invalids ++ [tx]) pool (pool.shelvePending addr list') := by
        refine .of_perm shelves ?_ ?_ shelves.filed.queueSound ?_ rfl rfl rfl
        · exact { Beside.refl pool with pending := fun other apart => by rw [shelvePending, lookup_shelve, if_neg apart] }
        · intro other there
          rw [now] at there
          split at there
          · cases there
          · cases there
            exact ⟨leaves.sound, leaves.strict.trans strict⟩
        · have split := leaves.split
          simp only [stock, now, contentsOf_shelved leaves.sound, leaves.contents, found]
          change ((_ ++ contentsOf (pool.queue.lookup addr)) ++ (invalids ++ [tx])).Perm
            ((list.contents ++ contentsOf (pool.queue.lookup addr)) ++ [])
          grind
      have full₁ : Full addr (pool.shelvePending addr list') := by
        refine ⟨fun other there => ?_, full.queue⟩
        rw [now] at there
        split at there
        · cases there
        · rename_i nonempty
          cases there
          exact fun empty => nonempty ((isEmpty_iff leaves.sound).mpr empty)
      obtain ⟨pool₂, requeued, moves₂, fills⟩ := requeue_loose moment moves.shelves
      have beside₃ : Beside addr pool₂ (pool₂.setNonces (pool₂.pendingNonces.setIfLower addr tx.nonce)) :=
        .setNonces Noncer.setIfLower_fallback fun other apart => by rw [Noncer.next_setIfLower, if_neg apart]
      have moves₃ : Moves terms addr [tx] [tx] pool₂ (pool₂.setNonces (pool₂.pendingNonces.setIfLower addr tx.nonce)) :=
        ⟨beside₃, moves₂.shelves.move beside₃ moves₂.shelves.filed moves₂.shelves.sane rfl, .refl _, rfl, rfl, rfl⟩
      refine ⟨1 + invalids.length, _, ?_, (moves.trans moves₂).trans moves₃, ⟨?_, fills.waiting full₁.queue⟩, ?_,
        fun queued => absurd rfl (apart member queued)⟩
      · rw [unlist, found]
        simp only [removed, requeued, Option.bind_eq_bind, Option.bind_some, if_true]
        rfl
      · change ∀ list ∈ pool₂.pending.lookup addr, list.contents ≠ []
        rw [fills.pending]
        exact full₁.pending
      · have view : (pool₂.setNonces (pool₂.pendingNonces.setIfLower addr tx.nonce)).view addr =
            ⟨(pool.view addr).pending.takeWhile (·.nonce < tx.nonce), min (pool.view addr).next tx.nonce⟩ := by
          have next : (pool₂.pendingNonces.setIfLower addr tx.nonce).next addr = min (pool.view addr).next tx.nonce := by
            rw [Noncer.next_setIfLower, if_pos rfl, fills.nonces]
            rfl
          change View.mk (contentsOf (pool₂.pending.lookup addr)) ((pool₂.pendingNonces.setIfLower addr tx.nonce).next addr) = _
          rw [fills.pending, next, now, contentsOf_shelved leaves.sound, leaves.contents, ← contents]
          rfl
        rw [view]
        exact .single (.cut (by rw [← contents] at member; exact member))
    · have queued := elsewhere (by rw [contents]; exact member)
      obtain ⟨pool', removed, moves, full', view⟩ := removeQueued_moves moment shelves full queued
      refine ⟨0, pool', ?_, moves, full', by rw [view], fun _ => view⟩
      rw [unlist, found]
      simp only [sound.remove_absent moment.ranges fun other inside => apart inside queued, removed, Option.bind_eq_bind,
        Option.bind_some]
      rfl

theorem get_remove {all : Lookup} {hash other : Hash} (missing : all.get other = none) : (all.remove hash).get other = none := by
  rw [Lookup.get, Option.or_eq_none_iff] at missing ⊢
  obtain ⟨locals, remotes⟩ := Sane.lookup_remove all hash other
  exact ⟨locals.elim id fun same => same.trans missing.1, remotes.elim id fun same => same.1.trans missing.2⟩

/-- The open account is closed, or it is that of the guest. -/
theorem Open.closeRemoved (opened : Open terms addr [] pool) (full : Full addr pool) (unreserve : Bool)
    (tie : unreserve = true ↔ terms.guest ≠ some addr) :
    Books terms (if unreserve then pool.releaseEmpty addr else pool) ∧
      Beside addr pool (if unreserve then pool.releaseEmpty addr else pool) ∧
      (if unreserve then pool.releaseEmpty addr else pool).view addr = pool.view addr ∧
      (if unreserve then pool.releaseEmpty addr else pool).all = pool.all ∧
      (if unreserve then pool.releaseEmpty addr else pool).stock addr = pool.stock addr := by
  cases unreserve with
  | true =>
    refine ⟨opened.releaseEmpty full (tie.mp rfl), ?_⟩
    simp only [if_true, Pool.releaseEmpty]
    split
    · exact ⟨.refl _, rfl, rfl, rfl⟩
    · refine ⟨.release _, ?_⟩
      rw [release_eq]
      split <;> exact ⟨rfl, rfl, rfl⟩
  | false =>
    have invited : terms.guest = some addr := by
      by_contra apart
      exact absurd (tie.mpr apart) Bool.false_ne_true
    refine ⟨⟨fun other => ?_, fun other => ?_, opened.catalogue, opened.sane, opened.fallback⟩, .refl _, rfl, rfl, rfl⟩
    · by_cases same : other = addr
      · rw [same]
        exact opened.filed
      · exact (opened.others other same).1
    · by_cases same : other = addr
      · rw [same]
        exact ⟨full, by simp [opened.reserved, invited]⟩
      · exact (opened.others other same).2

/-- What the removal of a transaction does to the account of it. -/
structure Removes (tx : Transaction) (pool pool' : Pool) : Prop where
  beside : Beside tx.from_ pool pool'
  perm : (pool'.stock tx.from_ ++ [tx]).Perm (pool.stock tx.from_)
  queued : tx ∈ contentsOf (pool.queue.lookup tx.from_) → pool'.view tx.from_ = pool.view tx.from_

theorem removeTx_books {guest : Option Address} {absent absent' : List Transaction} (books : Books ⟨ok, guest, absent⟩ pool)
    (hash : Hash) (outofbound unreserve : Bool) (sane : Sane ⟨ok, guest, absent'⟩ (pool.all.remove hash) pool.priced)
    (tie : ∀ tx, pool.all.get hash = some tx → (unreserve = true ↔ guest ≠ some tx.from_)) :
    ∃ count pool', pool.removeTx moment hash outofbound unreserve = some (count, pool') ∧ Books ⟨ok, guest, absent'⟩ pool' ∧
      Turned ok pool pool' ∧ (∀ other, pool.all.get other = none → pool'.all.get other = none) ∧
      ∀ tx, pool.all.get hash = some tx → Removes tx pool pool' := by
  cases found : pool.all.get hash with
  | none =>
    rw [Lookup.remove, found] at sane
    exact ⟨0, pool, by rw [removeTx, found], ⟨books.filed, books.tidy, books.catalogue, sane, books.fallback⟩, .refl pool,
      fun _ => id, fun tx there => by cases there⟩
  | some tx =>
    obtain ⟨rfl, held⟩ := books.catalogue.get_iff.mp found
    have listed : tx ∈ pool.stock tx.from_ := by simpa [Held] using held
    have lists : pool.hasLists tx.from_ = true := by
      by_contra nothing
      obtain ⟨pending, queue⟩ := hasLists_eq_false.mp (by simpa using nothing)
      simp [stock, pending, queue, contentsOf] at listed
    have opened : Open ⟨ok, guest, absent⟩ tx.from_ [] pool := books.opened (books.reserved lists)
    have full := (books.tidy tx.from_).toFull
    -- The lookup forgets it first.
    have before : ∃ pool₁, (if outofbound then (pool.forget [tx]).pricedRemoved moment 1 else pool.forget [tx]) = pool₁ ∧
        Beside tx.from_ pool pool₁ ∧ Sane ⟨ok, guest, absent⟩ pool₁.all pool₁.priced ∧
        Sane ⟨ok, guest, absent'⟩ pool₁.all pool₁.priced ∧ pool₁.pending = pool.pending ∧ pool₁.queue = pool.queue ∧
        pool₁.beats = pool.beats ∧ pool₁.reservations = pool.reservations ∧ pool₁.all = pool.all.remove tx.hash ∧
        pool₁.pendingNonces = pool.pendingNonces := by
      have removed := opened.sane.remove tx.hash
      refine ⟨_, rfl, ?_⟩
      split
      · exact ⟨(Beside.forget pool [tx]).trans (.pricedRemoved _ moment 1), removed.removed _ _, sane.removed _ _,
          rfl, rfl, rfl, rfl, rfl, rfl⟩
      · exact ⟨.forget pool [tx], removed, sane, rfl, rfl, rfl, rfl, rfl, rfl⟩
    obtain ⟨pool₁, shape, beside, sane₁, sane₁', pending, queue, beats, reservations, all, nonces⟩ := before
    have shelves₁ : Shelves ⟨ok, guest, absent'⟩ tx.from_ [] pool₁ :=
      (opened.move beside (by rw [pending, queue]; exact opened.filed) sane₁ (by rw [reservations])).swap sane₁'
    have full₁ : Full tx.from_ pool₁ := by
      refine ⟨by rw [pending]; exact full.pending, ?_⟩
      rw [Waiting, queue, beats]
      exact full.queue
    have stock₁ : pool₁.stock tx.from_ = pool.stock tx.from_ := by rw [stock, stock, pending, queue]
    obtain ⟨count, pool₂, unlisted, moves, full₂, turns, stays⟩ :=
      unlist_moves moment shelves₁ full₁ (by rw [stock₁]; exact listed)
    have view₁ : pool₁.view tx.from_ = pool.view tx.from_ := by rw [view, view, pending, nonces]
    rw [beside.state, view₁] at turns
    have opened₂ : Open ⟨ok, guest, absent'⟩ tx.from_ [] pool₂ := by
      refine ⟨moves.shelves.move (.refl pool₂) moves.shelves.filed.drop.1 moves.shelves.sane rfl, ?_⟩
      rw [moves.all, all]
      refine (opened.catalogue.remove held).congr fun other => ?_
      have held₁ : pool.Held [] other ↔ pool₁.Held [] other := by rw [Held, Held, stock, stock, pending, queue]
      rw [held₁, moves.held shelves₁, moves.shelves.held_drop]
    obtain ⟨books', beside', view', all', stock'⟩ := opened₂.closeRemoved full₂ unreserve (tie tx found)
    have whole := (beside.trans moves.beside).trans beside'
    refine ⟨count, _, ?_, books', .of_beside whole ?_, fun other missing => ?_, fun tx' there => ?_⟩
    · rw [removeTx, found]
      simp only [shape, unlisted, Option.bind_eq_bind, Option.bind_some]
      rfl
    · rw [view']
      exact turns
    · rw [all', moves.all, all]
      exact get_remove missing
    · cases there
      refine ⟨whole, ?_, fun queued => ?_⟩
      · rw [stock', ← stock₁]
        exact moves.perm.trans (.of_eq (List.append_nil _))
      · rw [view', stays (by rw [queue]; exact queued), view₁]

/-- Part of a step ends with the books kept and the pending transactions changed by turns. -/
def Keeps (terms : Terms) (pool : Pool) (result : Option Pool) : Prop :=
  ∃ pool', result = some pool' ∧ Books terms pool' ∧ Turned terms.ok pool pool'

theorem Keeps.bind {part : Pool → Option Pool} {result : Option Pool} (first : Keeps terms pool result)
    (second : ∀ between, Books terms between → Turned terms.ok pool between → Keeps terms between (part between)) :
    Keeps terms pool (result.bind part) := by
  obtain ⟨between, rfl, books, turned⟩ := first
  obtain ⟨pool', ended, books', turned'⟩ := second between books turned
  exact ⟨pool', ended, books', turned.trans turned'⟩

theorem Keeps.foldlM {α : Type} {part : Pool → α → Option Pool} (each : ∀ pool x, Books terms pool → Keeps terms pool (part pool x))
    (books : Books terms pool) (l : List α) : Keeps terms pool (l.foldlM part pool) := by
  induction l generalizing pool with
  | nil => exact ⟨pool, rfl, books, .refl pool⟩
  | cons x rest ih =>
    rw [List.foldlM_cons]
    exact (each pool x books).bind fun between books' _ => ih books'

theorem removeTxs_keeps (books : Books terms pool) (alone : terms.guest = none) (outofbound : Bool) (txs : List Transaction) :
    Keeps terms pool (pool.removeTxs moment outofbound true txs) := by
  refine Keeps.foldlM (fun pool tx books => ?_) books txs
  obtain ⟨ok, guest, absent⟩ := terms
  obtain rfl : guest = none := alone
  obtain ⟨count, pool', removed, books', turned, -, -⟩ :=
    removeTx_books moment books tx.hash outofbound true (books.sane.remove tx.hash) (by simp)
  exact ⟨pool', by rw [removed]; rfl, books', turned⟩

theorem promoteExecutables_keeps (books : Books terms pool) (alone : terms.guest = none) (accounts : List Address) :
    Keeps terms pool (pool.promoteExecutables moment accounts) :=
  Keeps.foldlM (fun _ addr books => promoteAccount_keeps moment books alone addr) books accounts

end Pool

end Snowside.TxPool
