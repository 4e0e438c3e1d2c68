import Snowside.TxPool.Keeping

/-! A transaction is added: room is made for it, and it enters a list and the lookup. -/

set_option autoImplicit false

namespace Snowside.TxPool

open Evm (Address)
open Maps (Map lookup_insert_eq lookup_erase_eq)
open Precompile (Hash)
open TxList (costBound Leaves)

namespace Pool

variable {terms : Terms} {ok : Transaction → Prop} {addr : Address} {pool pool' : Pool} {tx : Transaction}
  {list list' : TxList} (moment : Moment)

/-! ## Changes beside the lists -/

/-- Nothing of the lists and the lookup changes. -/
structure Same (pool pool' : Pool) : Prop where
  config : pool'.config = pool.config
  self : pool'.self = pool.self
  head : pool'.head = pool.head
  state : pool'.state = pool.state
  pending : pool'.pending = pool.pending
  queue : pool'.queue = pool.queue
  beats : pool'.beats = pool.beats
  reservations : pool'.reservations = pool.reservations
  fallback : pool'.pendingNonces.fallback = pool.pendingNonces.fallback
  next : ∀ addr, pool'.pendingNonces.next addr = pool.pendingNonces.next addr

namespace Same

theorem setPriced (pool : Pool) (priced : PricedList) : Same pool { pool with priced } :=
  ⟨rfl, rfl, rfl, rfl, rfl, rfl, rfl, rfl, rfl, fun _ => rfl⟩

theorem trans {between : Pool} (first : Same pool between) (second : Same between pool') : Same pool pool' :=
  ⟨second.config.trans first.config, second.self.trans first.self, second.head.trans first.head,
    second.state.trans first.state, second.pending.trans first.pending, second.queue.trans first.queue,
    second.beats.trans first.beats, second.reservations.trans first.reservations, second.fallback.trans first.fallback,
    fun addr => (second.next addr).trans (first.next addr)⟩

theorem held (same : Same pool pool') (tx : Transaction) : pool'.Held [] tx ↔ pool.Held [] tx := by
  rw [Held, Held, stock, stock, same.pending, same.queue]

theorem turned (same : Same pool pool') : Turned ok pool pool' :=
  ⟨same.config, same.self, same.head, same.state, fun addr => by rw [view, view, same.pending, same.next]⟩

theorem books {guest : Option Address} {absent absent' : List Transaction} (same : Same pool pool')
    (books : Books ⟨ok, guest, absent⟩ pool)
    (catalogue : Catalogue pool'.all (pool.Held [])) (sane : Sane ⟨ok, guest, absent'⟩ pool'.all pool'.priced) :
    Books ⟨ok, guest, absent'⟩ pool' where
  filed addr := by rw [same.pending, same.queue]; exact books.filed addr
  tidy addr := by
    have tidy := books.tidy addr
    refine ⟨⟨?_, ?_⟩, ?_⟩
    · rw [same.pending]
      exact tidy.pending
    · rw [Waiting, same.queue, same.beats]
      exact tidy.queue
    · rw [same.reservations, same.self, hasLists, same.pending, same.queue]
      exact tidy.reserved
  catalogue := catalogue.congr fun tx => (same.held tx).symm
  sane := sane
  fallback := by rw [same.fallback, same.state]; exact books.fallback

end Same

theorem isGapped_same (pool : Pool) (addr : Address) (tx : Transaction) :
    Same pool (pool.isGapped addr tx).2 ∧ (pool.isGapped addr tx).2.all = pool.all ∧
      (pool.isGapped addr tx).2.priced = pool.priced := by
  have same : Same pool (pool.setNonces (pool.pendingNonces.load addr)) :=
    ⟨rfl, rfl, rfl, rfl, rfl, rfl, rfl, rfl, Noncer.load_fallback, fun _ => Noncer.next_load⟩
  unfold isGapped
  rw [Noncer.get_eq]
  dsimp only
  split
  · exact ⟨same, rfl, rfl⟩
  · split
    · exact ⟨same, rfl, rfl⟩
    · exact ⟨same, rfl, rfl⟩

/-! ## Making room -/

/-- No two transactions of the pool have the same hash. -/
def Identified (ok : Transaction → Prop) : Prop := ∀ first second, ok first → ok second → first.hash = second.hash → first = second

theorem dropAll_books (identified : Identified ok) {drop : List Transaction} (books : Books ⟨ok, some addr, drop⟩ pool)
    (good : ∀ tx ∈ drop, ok tx) :
    ∃ pool', drop.foldlM (fun pool dropped => do
        let (count, pool) ← pool.removeTx moment dropped.hash false (dropped.from_ ≠ addr)
        return { pool with changesSinceReorg := pool.changesSinceReorg + count }) pool = some pool' ∧
      Books ⟨ok, some addr, []⟩ pool' ∧ Turned ok pool pool' ∧ ∀ other, pool.all.get other = none → pool'.all.get other = none := by
  induction drop generalizing pool with
  | nil => exact ⟨pool, rfl, books, .refl pool, fun _ => id⟩
  | cons dropped rest ih =>
    have tie : ∀ tx, pool.all.get dropped.hash = some tx →
        (decide (dropped.from_ ≠ addr) = true ↔ some addr ≠ some tx.from_) := fun tx found => by
      have known := Option.or_eq_some_iff.mp found
      have here := books.sane.known dropped.hash tx (known.imp id And.right)
      have same := identified tx dropped here (good dropped List.mem_cons_self) (books.catalogue.get_iff.mp found).1
      rw [same, decide_eq_true_iff]
      exact ⟨fun apart equal => apart (Option.some.inj equal).symm, fun apart equal => apart (congrArg some equal.symm)⟩
    obtain ⟨count, between, removed, books', turned, fewer, -⟩ :=
      removeTx_books moment books dropped.hash false (dropped.from_ ≠ addr) books.sane.removeAbsent tie
    have counted : Same between { between with changesSinceReorg := between.changesSinceReorg + count } :=
      ⟨rfl, rfl, rfl, rfl, rfl, rfl, rfl, rfl, rfl, fun _ => rfl⟩
    obtain ⟨pool', ran, books'', turned', fewer'⟩ :=
      ih (counted.books books' books'.catalogue books'.sane) fun tx member => good tx (List.mem_cons_of_mem _ member)
    refine ⟨pool', ?_, books'', turned.trans (counted.turned.trans turned'), fun other missing => fewer' other (fewer other missing)⟩
    rw [List.foldlM_cons, removed]
    exact ran

theorem makeRoom_books (identified : Identified ok) (books : Books ⟨ok, some addr, []⟩ pool) (tx : Transaction) (isLocal : Bool) :
    ∃ room pool', pool.makeRoom moment addr tx isLocal = some (room, pool') ∧ Books ⟨ok, some addr, []⟩ pool' ∧ Turned ok pool pool' ∧
      (∀ other, pool.all.get other = none → pool'.all.get other = none) ∧
      (room ≠ .ok () → pool'.pending = pool.pending ∧ pool'.queue = pool.queue) := by
  unfold makeRoom
  dsimp only
  split
  · exact ⟨_, _, rfl, books, .refl pool, fun _ => id, fun _ => ⟨rfl, rfl⟩⟩
  · have first : Sane ⟨ok, some addr, []⟩ pool.all
        (if isLocal then (false, pool.priced) else pool.priced.underpriced pool.all tx).2 := by
      split
      · exact books.sane
      · exact books.sane.underpriced tx
    generalize (if isLocal then (false, pool.priced) else pool.priced.underpriced pool.all tx) = outcome at first ⊢
    obtain ⟨underpriced, priced⟩ := outcome
    dsimp only at first ⊢
    have same := Same.setPriced pool priced
    have books₁ : Books ⟨ok, some addr, []⟩ { pool with priced } := same.books books books.catalogue first
    split
    · exact ⟨_, _, rfl, books₁, same.turned, fun _ => id, fun _ => ⟨rfl, rfl⟩⟩
    · split
      · exact ⟨_, _, rfl, books₁, same.turned, fun _ => id, fun _ => ⟨rfl, rfl⟩⟩
      · obtain ⟨dropped, good, failed⟩ :=
          first.discard (pool.all.slots - (pool.config.globalSlots + pool.config.globalQueue : Nat) + numSlots tx) isLocal
        generalize priced.discard pool.all _ isLocal = outcome at dropped good failed ⊢
        obtain ⟨drop, success, priced₂⟩ := outcome
        dsimp only at dropped good failed ⊢
        have same₂ := Same.setPriced pool priced₂
        have books₂ : Books ⟨ok, some addr, drop⟩ { pool with priced := priced₂ } := same₂.books books books.catalogue dropped
        split
        · rename_i overflow
          obtain rfl := failed (by simpa using And.right (by simpa using overflow))
          exact ⟨_, _, rfl, books₂, same₂.turned, fun _ => id, fun _ => ⟨rfl, rfl⟩⟩
        · have gap : ∀ outcome, (if isLocal then (false, { pool with priced := priced₂ })
                else isGapped { pool with priced := priced₂ } addr tx) = outcome →
              Same { pool with priced := priced₂ } outcome.2 ∧ outcome.2.all = pool.all ∧ outcome.2.priced = priced₂ := by
            rintro _ rfl
            split
            · exact ⟨.setPriced _ priced₂, rfl, rfl⟩
            · exact isGapped_same _ addr tx
          generalize shape : (if isLocal then (false, { pool with priced := priced₂ })
            else isGapped { pool with priced := priced₂ } addr tx) = outcome
          obtain ⟨same₃, all₃, priced₃⟩ := gap outcome shape
          obtain ⟨gapped, pool₃⟩ := outcome
          dsimp only at same₃ all₃ priced₃ ⊢
          have both := same₂.trans same₃
          have catalogue₃ : Catalogue pool₃.all (pool.Held []) := by
            rw [all₃]
            exact books.catalogue
          split
          · have sane : Sane ⟨ok, some addr, []⟩ pool₃.all (drop.foldl (fun priced tx => priced.put tx false) pool₃.priced) := by
              rw [Sane.foldl_put, all₃, priced₃]
              exact Sane.putBack (by rw [List.append_nil]; exact dropped) good
            have same₄ := both.trans (.setPriced pool₃ (drop.foldl (fun priced tx => priced.put tx false) pool₃.priced))
            exact ⟨_, _, rfl, same₄.books books catalogue₃ sane, same₄.turned,
              fun other missing => all₃ ▸ missing, fun _ => ⟨both.pending, both.queue⟩⟩
          · have books₃ : Books ⟨ok, some addr, drop⟩ pool₃ := both.books books catalogue₃ (by rw [all₃, priced₃]; exact dropped)
            obtain ⟨pool', ran, books', turned, fewer⟩ := dropAll_books moment identified books₃ good
            rw [ran]
            refine ⟨.ok (), pool', rfl, books', both.turned.trans turned, fun other missing => fewer other ?_,
              fun refused => absurd rfl refused⟩
            rw [all₃]
            exact missing

/-! ## Entering a list -/

/-- A list refuses a transaction for a better one with its nonce, or takes it in place of that. -/
theorem add_cases (sound : list.Sound) (cheap : tx.cost < costBound) (priceBump : Nat) :
    (list.add tx priceBump = some (false, none, list) ∧ list.contents ≠ []) ∨
      ∃ old list' rest, list.add tx priceBump = some (true, old, list') ∧ list'.Sound ∧ list'.strict = list.strict ∧
        list'.contents = Sorted.put Transaction.nonce tx list.contents ∧ list.contents.Perm (old.toList ++ rest) ∧
        list'.contents.Perm (tx :: rest) ∧ (∀ other ∈ rest, other.nonce ≠ tx.nonce) ∧ old = list.txs.get tx.nonce := by
  cases known : list.txs.get tx.nonce with
  | none =>
    have new : ∀ other ∈ list.contents, other.nonce ≠ tx.nonce := fun other member same => by
      rw [sound.get_iff.mpr ⟨member, same⟩] at known
      cases known
    obtain ⟨list', added, sound', strict, contents, perm⟩ := add_new sound cheap new priceBump
    exact .inr ⟨none, list', list.contents, added, sound', strict, contents, .refl _, perm, new, rfl⟩
  | some old =>
    obtain ⟨member, same⟩ := sound.get_iff.mp known
    cases better : outbids priceBump old tx with
    | false => exact .inl ⟨sound.add_refused member same better, List.ne_nil_of_mem member⟩
    | true =>
      have only : ∀ other ∈ list.contents, other.nonce = tx.nonce → outbids priceBump other tx = true :=
        fun other inside equal => by
          rw [sound.increasing.unique inside member (equal.trans same.symm)]
          exact better
      obtain ⟨list', added, sound', strict, contents⟩ := sound.add cheap only
      have perm : (Sorted.put Transaction.nonce tx list.contents).Perm (tx :: list.contents.filter (·.nonce ≠ tx.nonce)) :=
        Sorted.put_perm tx list.contents
      have split := sound.split_at member
      rw [same] at split
      refine .inr ⟨some old, list', _, by rw [added, known], sound', strict, contents, split, contents ▸ perm, ?_, rfl⟩
      intro other inside
      simpa using (List.mem_filter.mp inside).2

/-- A transaction enters the lists of an account and the lookup, perhaps for another. -/
theorem Open.exchange (opened : Open terms addr [] pool) (fresh : pool.all.get tx.hash = none) (sent : tx.sender = some addr)
    (cheap : tx.cost < costBound) (good : terms.ok tx) (beside : Beside addr pool pool')
    (pendingSound : ∀ list ∈ pool'.pending.lookup addr, list.Sound ∧ list.strict = true)
    (queueSound : ∀ list ∈ pool'.queue.lookup addr, list.Sound ∧ list.strict = false)
    {old : Option Transaction} {rest : List Transaction} (before : (pool.stock addr).Perm (old.toList ++ rest))
    (after : (pool'.stock addr).Perm (tx :: rest)) (new : ∀ other ∈ rest, other.nonce ≠ tx.nonce) {isLocal : Bool}
    (all : pool'.all = (old.toList.foldl (fun all tx => all.remove tx.hash) pool.all).add tx isLocal)
    (sane : Sane terms pool'.all pool'.priced) (reservations : pool'.reservations = pool.reservations) :
    Open terms addr [] pool' := by
  have filed := opened.filed
  have part : ∀ other ∈ rest, other ∈ pool.stock addr := fun other inside =>
    before.mem_iff.mpr (List.mem_append_right _ inside)
  have filed' : Filed terms.ok addr [] (pool'.pending.lookup addr) (pool'.queue.lookup addr) := by
    refine ⟨pendingSound, queueSound, ?_, fun other member => ?_⟩
    · rw [List.append_nil]
      have apart := filed.apart
      rw [List.append_nil] at apart
      have apart' := ((before.map Transaction.nonce).nodup_iff).mp apart
      rw [List.map_append, List.nodup_append] at apart'
      refine ((after.map Transaction.nonce).nodup_iff).mpr ?_
      rw [List.map_cons, List.nodup_cons]
      refine ⟨fun member => ?_, apart'.2.1⟩
      obtain ⟨other, inside, same⟩ := List.mem_map.mp member
      exact new other inside same
    · rw [List.append_nil] at member
      rcases List.mem_cons.mp (after.mem_iff.mp member) with rfl | inside
      · exact ⟨sent, cheap, good⟩
      · exact filed.sent other (List.mem_append_left _ (part other inside))
  refine ⟨opened.move beside filed' sane (by rw [reservations]), ?_⟩
  rw [all]
  have own : tx.from_ = addr := from_eq sent
  have removed : Catalogue (old.toList.foldl (fun all tx => all.remove tx.hash) pool.all)
      (fun other => pool.Held [] other ∧ some other ≠ old) := by
    cases old with
    | none => exact opened.catalogue.congr fun other => by simp
    | some old =>
      have member : old ∈ pool.stock addr := before.mem_iff.mpr (List.mem_append_left _ (by simp))
      have held : pool.Held [] old := by
        rw [Held, filed.of_mem (List.mem_append_left _ member)]
        exact .inl member
      exact (opened.catalogue.remove held).congr fun other => by simp
  have fresh' : (old.toList.foldl (fun all tx => all.remove tx.hash) pool.all).get tx.hash = none := by
    cases old with
    | none => exact fresh
    | some old => exact get_remove fresh
  refine (removed.add fresh' isLocal).congr fun other => ?_
  have apart := filed.apart
  rw [List.append_nil] at apart
  have apart' := List.Nodup.of_map _ (((before.map Transaction.nonce).nodup_iff).mp apart)
  by_cases here : other.from_ = addr
  · have before' := before.mem_iff (a := other)
    have after' := after.mem_iff (a := other)
    rw [Held, Held, here]
    simp only [List.not_mem_nil, or_false]
    rw [before', after', List.mem_append, List.mem_cons, Option.mem_toList]
    constructor
    · rintro (⟨gone | inside, differs⟩ | rfl)
      · exact absurd gone.symm differs
      · exact .inr inside
      · exact .inl rfl
    · rintro (rfl | inside)
      · exact .inr rfl
      · refine .inl ⟨.inr inside, fun same => ?_⟩
        have twice := (List.nodup_append.mp apart').2.2 other (Option.mem_toList.mpr same.symm) other inside
        exact twice rfl
  · have differs : other ≠ tx := fun same => here (same ▸ own)
    have kept : some other ≠ old := fun same => by
      have member : other ∈ pool.stock addr := before.mem_iff.mpr (List.mem_append_left _ (by simp [← same]))
      exact here (filed.of_mem (List.mem_append_left _ member))
    rw [Held, Held, beside.stock here]
    simp [differs, kept]

/-- An account with lists may be that of the guest or not. -/
theorem Books.invite {guest guest' : Option Address} {absent : List Transaction} (books : Books ⟨ok, guest, absent⟩ pool)
    (lists : pool.hasLists addr = true) (before : guest = none ∨ guest = some addr) (after : guest' = none ∨ guest' = some addr) :
    Books ⟨ok, guest', absent⟩ pool where
  filed := books.filed
  tidy other := by
    refine ⟨(books.tidy other).toFull, ?_⟩
    rw [(books.tidy other).reserved]
    by_cases same : other = addr
    · subst same
      simp [lists]
    · have differs : (some addr : Option Address) ≠ some other := fun equal => same (Option.some.inj equal).symm
      rcases before with rfl | rfl <;> rcases after with rfl | rfl <;> simp [differs]
  catalogue := books.catalogue
  sane := books.sane.mono (List.Subset.refl _)
  fallback := books.fallback

/-- What `replacesOld` leaves of the lookup and the heaps. -/
theorem replacesOld_spec (pool : Pool) (old : Option Transaction) (sane : Sane terms pool.all pool.priced) :
    Same pool (pool.replacesOld moment old) ∧ (pool.replacesOld moment old).locals = pool.locals ∧
      (pool.replacesOld moment old).all = old.toList.foldl (fun all tx => all.remove tx.hash) pool.all ∧
      Sane terms (pool.replacesOld moment old).all (pool.replacesOld moment old).priced := by
  cases old with
  | none => exact ⟨.setPriced pool pool.priced, rfl, rfl, sane⟩
  | some old =>
    refine ⟨⟨rfl, rfl, rfl, rfl, rfl, rfl, rfl, rfl, rfl, fun _ => rfl⟩, rfl, rfl, ?_⟩
    exact (sane.remove old.hash).removed _ _

theorem Beside.of_same (same : Same pool pool') (locals : pool'.locals = pool.locals) : Beside addr pool pool' where
  config := same.config
  self := same.self
  head := same.head
  state := same.state
  locals := locals
  fallback := same.fallback
  pending _ _ := by rw [same.pending]
  queue _ _ := by rw [same.queue]
  beats _ _ := by rw [same.beats]
  reservations _ _ := by rw [same.reservations]
  next other _ := same.next other

/-- A heartbeat of the account. -/
theorem Beside.setBeats (pool : Pool) (now : Int) : Beside addr pool { pool with beats := pool.beats.insert addr now } :=
  { Beside.refl pool with beats := fun other apart => by simp [apart] }

theorem Open.setBeats {loose : List Transaction} (opened : Open terms addr loose pool) (now : Int) :
    Open terms addr loose { pool with beats := pool.beats.insert addr now } :=
  ⟨opened.move (.setBeats pool now) opened.filed opened.sane rfl, opened.catalogue⟩

theorem enqueueNew_books (books : Books terms pool) (guest : terms.guest = some addr) (fresh : pool.all.get tx.hash = none)
    (sent : tx.sender = some addr) (cheap : tx.cost < costBound) (good : terms.ok tx) (isLocal : Bool)
    (apart : ∀ other ∈ contentsOf (pool.pending.lookup addr), other.nonce ≠ tx.nonce) :
    ∃ replaced pool', pool.enqueueTx moment tx isLocal true = some (replaced, pool') ∧ Books terms pool' ∧
      Turned terms.ok pool pool' ∧ pool'.hasLists addr = true ∧ (replaced.isOk = false → pool.hasLists addr = true) := by
  obtain rfl : tx.from_ = addr := from_eq sent
  have tidy := books.tidy tx.from_
  have opened : Open terms tx.from_ [] pool := books.opened (tidy.reserved.mpr (.inr guest))
  obtain ⟨sound, loose_⟩ := sound_getD opened.filed.queueSound
  have contents := contentsOf_getD (pool.queue.lookup tx.from_) false
  rcases add_cases sound cheap pool.config.priceBump with ⟨refused, nonempty⟩ |
    ⟨old, list', rest, added, sound', strict, put, split, perm, new, -⟩
  · cases found : pool.queue.lookup tx.from_ with
    | none =>
      rw [contents, found] at nonempty
      exact absurd rfl nonempty
    | some list =>
      rw [found, Option.getD_some] at refused
      have moves := leaveQueue opened.toShelves found (.refl (opened.filed.queueSound list found).1)
      have now : (pool.setQueue tx.from_ list).queue.lookup tx.from_ = some list := by simp [setQueue]
      refine ⟨.error .replaceUnderpriced, pool.setQueue tx.from_ list, ?_, ?_, .of_beside moves.beside .refl,
        by simp [hasLists, now], fun _ => hasLists_of_queue found⟩
      · rw [enqueueTx, found, Option.getD_some, refused]
        rfl
      · refine (opened.moves moves).close ⟨tidy.pending, fun other member => ?_⟩ (by simp [hasLists, now])
        cases now.symm.trans member
        exact tidy.queue list found
  · rw [contents] at split
    have now : (pool.setQueue tx.from_ list').queue.lookup tx.from_ = some list' := by simp [setQueue]
    obtain ⟨same, locals, all, sane⟩ := replacesOld_spec moment (pool.setQueue tx.from_ list') old opened.sane
    generalize shape : (pool.setQueue tx.from_ list').replacesOld moment old = pool₁ at same locals all sane
    have known : Same pool₁ (pool₁.know tx isLocal) := ⟨rfl, rfl, rfl, rfl, rfl, rfl, rfl, rfl, rfl, fun _ => rfl⟩
    have queue₁ : (pool₁.know tx isLocal).queue.lookup tx.from_ = some list' := by
      rw [known.queue, same.queue]
      exact now
    have pending₁ : (pool₁.know tx isLocal).pending = pool.pending := known.pending.trans same.pending
    have beside : Beside tx.from_ pool (pool₁.know tx isLocal) :=
      (Beside.setQueue pool list').trans (.of_same (same.trans known) locals)
    have before : (pool.stock tx.from_).Perm (old.toList ++ (contentsOf (pool.pending.lookup tx.from_) ++ rest)) := by
      rw [stock]
      grind
    have after : ((pool₁.know tx isLocal).stock tx.from_).Perm (tx :: (contentsOf (pool.pending.lookup tx.from_) ++ rest)) := by
      rw [stock, pending₁, queue₁]
      change (contentsOf (pool.pending.lookup tx.from_) ++ list'.contents).Perm _
      grind
    have opened' : Open terms tx.from_ [] (pool₁.know tx isLocal) := by
      refine opened.exchange fresh sent cheap good beside ?_ ?_ before after ?_ (congrArg (Lookup.add · tx isLocal) all)
        (sane.add good isLocal) same.reservations
      · rw [pending₁]
        exact opened.filed.pendingSound
      · intro other member
        cases queue₁.symm.trans member
        exact ⟨sound', strict.trans loose_⟩
      · intro other member
        rcases List.mem_append.mp member with pending | inside
        · exact apart other pending
        · exact new other inside
    have nonempty : list'.contents ≠ [] := fun empty => by
      rw [empty] at perm
      exact absurd perm.symm.eq_nil (List.cons_ne_nil _ _)
    have evaluated : pool.enqueueTx moment tx isLocal true = some (.ok old.isSome,
        if (pool₁.know tx isLocal).beats.lookup tx.from_ = none then
          { pool₁.know tx isLocal with beats := (pool₁.know tx isLocal).beats.insert tx.from_ (moment.now tx.from_) }
        else pool₁.know tx isLocal) := by
      rw [enqueueTx]
      simp only [added, Option.bind_eq_bind, Option.bind_some, Bool.not_true, Bool.false_eq_true, if_false, if_true, shape]
      rfl
    have view : (pool₁.know tx isLocal).view tx.from_ = pool.view tx.from_ := by
      rw [Pool.view, Pool.view, pending₁, known.next, same.next]
      rfl
    have lists : (pool₁.know tx isLocal).hasLists tx.from_ = true := by simp [hasLists, queue₁]
    have filled : ∀ list ∈ (pool₁.know tx isLocal).pending.lookup tx.from_, list.contents ≠ [] := by
      rw [pending₁]
      exact tidy.pending
    refine ⟨_, _, evaluated, ?_⟩
    split
    · refine ⟨(opened'.setBeats (moment.now tx.from_)).close ⟨filled, fun other member => ?_⟩ lists,
        .of_beside (beside.trans (.setBeats _ _)) ?_, lists, fun refused => by cases refused⟩
      · cases queue₁.symm.trans member
        exact ⟨nonempty, by simp⟩
      · change Turns terms.ok _ _ _ ((pool₁.know tx isLocal).view tx.from_)
        rw [view]
    · rename_i beating
      refine ⟨opened'.close ⟨filled, fun other member => ?_⟩ lists, .of_beside beside (by rw [view]), lists,
        fun refused => by cases refused⟩
      cases queue₁.symm.trans member
      exact ⟨nonempty, Option.isSome_iff_ne_none.mpr beating⟩

/-- A transaction in place of a pending one, by a turn. -/
theorem replacePending_books (books : Books terms pool) (found : pool.pending.lookup addr = some list)
    (contains : list.contains tx.nonce = true) (fresh : pool.all.get tx.hash = none) (sent : tx.sender = some addr)
    (cheap : tx.cost < costBound) (good : terms.ok tx) (paid : tx.cost ≤ pool.state.balance addr) (isLocal : Bool) :
    ∃ replaced pool', pool.replacePending moment list tx isLocal = some (replaced, pool') ∧ Books terms pool' ∧
      Turned terms.ok pool pool' ∧ pool'.hasLists addr = true := by
  obtain rfl : tx.from_ = addr := from_eq sent
  have tidy := books.tidy tx.from_
  have opened : Open terms tx.from_ [] pool := books.opened (books.reserved (hasLists_of_pending found))
  obtain ⟨sound, strict⟩ := opened.filed.pendingSound list found
  have contents : contentsOf (pool.pending.lookup tx.from_) = list.contents := by simp [found, contentsOf]
  rcases add_cases sound cheap pool.config.priceBump with
    ⟨refused, -⟩ | ⟨old, list', rest, added, sound', strict', put, split, perm, new, replaced⟩
  · have moves := leavePending opened.toShelves found (.refl sound)
    have now : (pool.setPending tx.from_ list).pending.lookup tx.from_ = some list := by simp [setPending]
    refine ⟨.error .replaceUnderpriced, pool.setPending tx.from_ list, ?_, ?_, .of_beside moves.beside ?_, by simp [hasLists, now]⟩
    · rw [replacePending, refused]
      rfl
    · refine (opened.moves moves).close ⟨fun other member => ?_, tidy.queue⟩ (by simp [hasLists, now])
      cases now.symm.trans member
      exact tidy.pending list found
    · have view : (pool.setPending tx.from_ list).view tx.from_ = pool.view tx.from_ := by
        rw [Pool.view, now, ← found]
        rfl
      rw [view]
  · have now : (pool.setPending tx.from_ list').pending.lookup tx.from_ = some list' := by simp [setPending]
    obtain ⟨same, locals, all, sane⟩ := replacesOld_spec moment (pool.setPending tx.from_ list') old opened.sane
    generalize shape : (pool.setPending tx.from_ list').replacesOld moment old = pool₁ at same locals all sane
    have known : Same pool₁ (pool₁.know tx isLocal) := ⟨rfl, rfl, rfl, rfl, rfl, rfl, rfl, rfl, rfl, fun _ => rfl⟩
    have pending₁ : (pool₁.know tx isLocal).pending.lookup tx.from_ = some list' := by
      rw [known.pending, same.pending]
      exact now
    have queue₁ : (pool₁.know tx isLocal).queue = pool.queue := known.queue.trans same.queue
    have beats₁ : (pool₁.know tx isLocal).beats = pool.beats := known.beats.trans same.beats
    have beside : Beside tx.from_ pool (pool₁.know tx isLocal) :=
      (Beside.setPending pool list').trans (.of_same (same.trans known) locals)
    have before : (pool.stock tx.from_).Perm (old.toList ++ (rest ++ contentsOf (pool.queue.lookup tx.from_))) := by
      rw [stock, contents]
      grind
    have after : ((pool₁.know tx isLocal).stock tx.from_).Perm (tx :: (rest ++ contentsOf (pool.queue.lookup tx.from_))) := by
      rw [stock, pending₁, queue₁]
      change (list'.contents ++ contentsOf (pool.queue.lookup tx.from_)).Perm _
      grind
    -- The queue does not have the nonce of a pending transaction.
    obtain ⟨pending, member, nonce⟩ := (contains_iff sound tx.nonce).mp contains
    have opened' : Open terms tx.from_ [] (pool₁.know tx isLocal) := by
      refine opened.exchange fresh sent cheap good beside ?_ ?_ before after ?_ (congrArg (Lookup.add · tx isLocal) all)
        (sane.add good isLocal) same.reservations
      · intro other member
        cases pending₁.symm.trans member
        exact ⟨sound', strict'.trans strict⟩
      · rw [queue₁]
        exact opened.filed.queueSound
      · intro other member'
        rcases List.mem_append.mp member' with inside | queued
        · exact new other inside
        · intro equal
          have apart := opened.filed.apart
          rw [List.append_nil, contents, List.map_append, List.nodup_append] at apart
          exact apart.2.2 pending.nonce (List.mem_map.mpr ⟨pending, member, rfl⟩) other.nonce
            (List.mem_map.mpr ⟨other, queued, rfl⟩) (nonce.trans equal.symm)
    have lists : (pool₁.know tx isLocal).hasLists tx.from_ = true := by simp [hasLists, pending₁]
    refine ⟨.ok old.isSome,
      { pool₁.know tx isLocal with beats := (pool₁.know tx isLocal).beats.insert tx.from_ (moment.now tx.from_) }, ?_,
      (opened'.setBeats (moment.now tx.from_)).close ⟨fun other member => ?_, fun other member => ?_⟩ lists, .of_beside (beside.trans (.setBeats _ _)) ?_, lists⟩
    · rw [replacePending, added]
      simp only [Option.bind_eq_bind, Option.bind_some, Bool.not_true, Bool.false_eq_true, if_false, shape]
      rfl
    · cases pending₁.symm.trans member
      intro empty
      rw [empty] at perm
      exact absurd perm.symm.eq_nil (List.cons_ne_nil _ _)
    · refine ⟨(tidy.queue other ?_).1, by simp⟩
      rw [← queue₁]
      exact member
    · have view : (pool₁.know tx isLocal).view tx.from_ =
          ⟨Sorted.put Transaction.nonce tx (pool.view tx.from_).pending, (pool.view tx.from_).next⟩ := by
        rw [Pool.view, pending₁, known.next, same.next, Pool.view, contents, ← put]
        rfl
      change Turns terms.ok _ _ _ ((pool₁.know tx isLocal).view tx.from_)
      rw [view]
      have there : pending ∈ (pool.view tx.from_).pending := by
        rw [Pool.view, contents]
        exact member
      exact .single (.replace there nonce paid)

/-- The local accounts change, and the sides of the lookup with them. -/
theorem makeLocal_books (books : Books terms pool) (addr : Address) :
    Books terms (pool.makeLocal moment addr) ∧ Turned terms.ok pool (pool.makeLocal moment addr) ∧
      ∀ other, (pool.makeLocal moment addr).hasLists other = pool.hasLists other := by
  unfold makeLocal
  dsimp only
  have catalogue := books.catalogue.remoteToLocals moment.ranges (isLocalTx { pool with locals := addr :: pool.locals })
  have sane := books.sane.remoteToLocals moment.ranges (isLocalTx { pool with locals := addr :: pool.locals })
  generalize pool.all.remoteToLocals moment.ranges _ = migration at catalogue sane ⊢
  obtain ⟨migrated, all⟩ := migration
  have same : Same pool (Pool.pricedRemoved moment { pool with locals := addr :: pool.locals, all } migrated) :=
    ⟨rfl, rfl, rfl, rfl, rfl, rfl, rfl, rfl, rfl, fun _ => rfl⟩
  exact ⟨same.books books catalogue (sane.removed _ _), same.turned, fun _ => rfl⟩

/-! ## What validation promises -/

theorem guarded_ok {refused : Prop} [Decidable refused] {error : PoolError} {rest : Except PoolError Unit} :
    (if refused then (throw error >>= fun _ : PUnit => rest) else rest) = .ok () ↔ ¬ refused ∧ rest = .ok () := by
  split
  · rename_i bad
    exact ⟨fun passed => (by cases passed), fun passed => absurd bad passed.1⟩
  · rename_i fine
    exact ⟨fun passed => ⟨fine, passed⟩, And.right⟩

/-- A transaction that passes is signed, not older than the state, and its sender can pay for it. -/
theorem validateTx_ok {chain : ChainView} (passed : pool.validateTx chain tx = .ok ()) :
    ∃ addr, tx.sender = some addr ∧ pool.state.nonce addr ≤ tx.nonce ∧ tx.cost ≤ pool.state.balance addr := by
  unfold validateTx at passed
  cases sent : tx.sender with
  | none => simp [sent] at passed
  | some addr =>
    refine ⟨addr, rfl, ?_⟩
    rw [sent] at passed
    obtain ⟨-, passed⟩ := guarded_ok.mp passed
    obtain ⟨reached, passed⟩ := guarded_ok.mp passed
    obtain ⟨paid, -⟩ := guarded_ok.mp passed
    omega

/-! ## Adding -/

theorem Books.hasLists_iff (books : Books terms pool) : pool.hasLists addr = true ↔ pool.stock addr ≠ [] := by
  have full := (books.tidy addr).toFull
  rw [ne_eq, stock, List.append_eq_nil_iff]
  cases pending : pool.pending.lookup addr with
  | some list => simp [hasLists, pending, contentsOf, full.pending list pending]
  | none =>
    cases queue : pool.queue.lookup addr with
    | some list => simp [hasLists, queue, contentsOf, (full.queue list queue).1]
    | none => simp [hasLists, pending, queue, contentsOf]

/-- An account has lists only with transactions that were there before. -/
theorem Books.hasLists_fewer {terms' : Terms} (books : Books terms pool) (books' : Books terms' pool') (same : terms.ok = terms'.ok)
    (identified : Identified terms.ok) (fewer : ∀ hash, pool.all.get hash = none → pool'.all.get hash = none)
    (lists : pool.hasLists addr = false) : pool'.hasLists addr = false := by
  by_contra some_
  obtain ⟨tx, member⟩ := List.exists_mem_of_ne_nil _ (books'.hasLists_iff.mp (by simpa using some_))
  have sent' := (books'.filed addr).sent tx (List.mem_append_left _ member)
  have own : tx.from_ = addr := from_eq sent'.1
  have known : pool'.all.get tx.hash = some tx := books'.catalogue.get_iff.mpr ⟨rfl, .inl (own ▸ member)⟩
  cases before : pool.all.get tx.hash with
  | none => simp [fewer tx.hash before] at known
  | some first =>
    obtain ⟨hash, held⟩ := books.catalogue.get_iff.mp before
    have there : first ∈ pool.stock first.from_ := by simpa [Held] using held
    have good := ((books.filed first.from_).sent first (List.mem_append_left _ there)).2.2
    obtain rfl := identified first tx good (same ▸ sent'.2.2) hash
    rw [own] at there
    exact absurd (books.hasLists_iff.mpr (List.ne_nil_of_mem there)) (by simp [lists])

theorem addReserved_books (identified : Identified ok) (books : Books ⟨ok, some addr, []⟩ pool) (fresh : pool.all.get tx.hash = none)
    (sent : tx.sender = some addr) (cheap : tx.cost < costBound) (good : ok tx) (paid : tx.cost ≤ pool.state.balance addr)
    (local_ isLocal : Bool) :
    ∃ replaced pool', pool.addReserved moment tx local_ isLocal = some (replaced, pool') ∧ Books ⟨ok, some addr, []⟩ pool' ∧
      Turned ok pool pool' ∧ pool'.hasLists addr = (pool.hasLists addr || replaced.isOk) := by
  obtain rfl : tx.from_ = addr := from_eq sent
  obtain ⟨room, between, made, books₁, turned₁, fewer, refused⟩ := makeRoom_books moment identified books tx isLocal
  unfold addReserved
  simp only [made, Option.bind_eq_bind, Option.bind_some]
  cases room with
  | error error =>
    obtain ⟨pending, queue⟩ := refused (by simp)
    exact ⟨.error error, between, rfl, books₁, turned₁, by simp [hasLists, pending, queue, Except.isOk, Except.toBool]⟩
  | ok done =>
    have paid₁ : tx.cost ≤ between.state.balance tx.from_ := by
      rw [turned₁.state]
      exact paid
    have before (lists : between.hasLists tx.from_ = true) : pool.hasLists tx.from_ = true := by
      by_contra none
      have absent : pool.hasLists tx.from_ = false := by simpa using none
      have gone := books.hasLists_fewer books₁ rfl identified fewer absent
      simp [gone] at lists
    cases pending : (between.pending.lookup tx.from_).filter (·.contains tx.nonce) with
    | some list =>
      obtain ⟨found, contains⟩ := Option.filter_eq_some_iff.mp pending
      obtain ⟨replaced, pool', added, books₂, turned₂, lists⟩ :=
        replacePending_books moment books₁ found contains (fewer _ fresh) sent cheap good paid₁ isLocal
      exact ⟨replaced, pool', added, books₂, turned₁.trans turned₂, by simp [lists, before (hasLists_of_pending found)]⟩
    | none =>
      have apart : ∀ other ∈ contentsOf (between.pending.lookup tx.from_), other.nonce ≠ tx.nonce := by
        cases found : between.pending.lookup tx.from_ with
        | none => exact fun other member => absurd member (by simp [contentsOf])
        | some list =>
          intro other member same
          rw [found, Option.filter_eq_none_iff] at pending
          have contains := (contains_iff ((books₁.filed tx.from_).pendingSound list found).1 tx.nonce).mpr ⟨other, member, same⟩
          exact absurd contains (pending list rfl)
      obtain ⟨replaced, pool', added, books₂, turned₂, lists, cause⟩ :=
        enqueueNew_books moment books₁ rfl (fewer _ fresh) sent cheap good isLocal apart
      simp only [added, Option.bind_some]
      cases replaced with
      | error error => exact ⟨.error error, pool', rfl, books₂, turned₁.trans turned₂, by simp [lists, before (cause rfl)]⟩
      | ok replaced =>
        obtain ⟨books₃, turned₃, lists₃⟩ := makeLocal_books moment books₂ tx.from_
        refine ⟨.ok replaced, _, rfl, ?_⟩
        have listed : (pool.hasLists tx.from_ || Except.isOk (Except.ok replaced : Except PoolError Bool)) = true := by
          simp [Except.isOk, Except.toBool]
        rw [listed]
        split
        · exact ⟨books₃, (turned₁.trans turned₂).trans turned₃, (lists₃ tx.from_).trans lists⟩
        · exact ⟨books₂, turned₁.trans turned₂, lists⟩

/-- A new account is reserved, unless it is another subpool's. -/
theorem reserve_books (books : Books ⟨ok, none, []⟩ pool) (lists : pool.hasLists addr = false) :
    (∃ error, pool.reserve addr = .error error) ∨
      ∃ pool', pool.reserve addr = .ok pool' ∧ Books ⟨ok, some addr, []⟩ pool' ∧ Turned ok pool pool' ∧ pool'.all = pool.all ∧
        pool'.hasLists addr = false := by
  have tidy := books.tidy addr
  unfold reserve reserver
  cases owned : pool.reservations.lookup addr with
  | some owner =>
    left
    have other : owner ≠ pool.self := fun same => by
      have := tidy.reserved.mp (owned.trans (congrArg some same))
      simp [lists] at this
    exact ⟨.alreadyReserved, by simp [other, Except.map]⟩
  | none =>
    have beside : Beside addr pool { pool with reservations := pool.reservations.insert addr pool.self } :=
      { Beside.refl pool with reservations := fun other apart => by simp [apart] }
    refine .inr ⟨_, rfl, ⟨books.filed, fun other => ?_, books.catalogue, books.sane.mono (List.Subset.refl _), books.fallback⟩,
      .of_beside beside .refl, rfl, lists⟩
    by_cases same : other = addr
    · subst same
      exact ⟨⟨tidy.pending, tidy.queue⟩, by simp⟩
    · exact beside.tidy same ((books.tidy other).invited (by simp [Ne.symm same]))

theorem add_books (identified : Identified ok) (books : Books ⟨ok, none, []⟩ pool)
    (bounded : ∀ addr, pool.state.balance addr < costBound)
    (good : ok tx) (chain : ChainView) (local_ : Bool) :
    ∃ replaced pool', pool.add moment chain tx local_ = some (replaced, pool') ∧ Books ⟨ok, none, []⟩ pool' ∧
      Turned ok pool pool' := by
  unfold add
  split
  · exact ⟨_, pool, rfl, books, .refl pool⟩
  · rename_i fresh
    rw [Bool.not_eq_true, Option.isSome_eq_false_iff, Option.isNone_iff_eq_none] at fresh
    dsimp only
    cases passed : pool.validateTx chain tx with
    | error error => exact ⟨_, pool, rfl, books, .refl pool⟩
    | ok done =>
      obtain ⟨addr, sent, -, paid⟩ := validateTx_ok passed
      obtain rfl : tx.from_ = addr := from_eq sent
      have cheap : tx.cost < costBound := paid.trans_lt (bounded _)
      dsimp only
      split
      · rename_i lists
        obtain ⟨replaced, pool', added, books', turned, lists'⟩ := addReserved_books moment identified
          (books.invite lists (.inl rfl) (.inr rfl)) fresh sent cheap good paid local_ (local_ || pool.isLocalTx tx)
        exact ⟨replaced, pool', added, books'.invite (by rw [lists', lists]; rfl) (.inr rfl) (.inl rfl), turned⟩
      · rename_i lists
        rw [Bool.not_eq_true] at lists
        rcases reserve_books books lists with ⟨error, refused⟩ | ⟨pool₁, reserved, books₁, turned₁, all₁, lists₁⟩
        · exact ⟨.error error, pool, by rw [refused], books, .refl pool⟩
        · obtain ⟨replaced, pool₂, added, books₂, turned₂, lists₂⟩ := addReserved_books moment identified books₁
            (by rw [all₁]; exact fresh) sent cheap good (by rw [turned₁.state]; exact paid) local_ (local_ || pool.isLocalTx tx)
          rw [reserved]
          simp only [added, Option.bind_eq_bind, Option.bind_some]
          cases replaced with
          | ok replaced =>
            exact ⟨.ok replaced, pool₂, rfl,
              books₂.invite (by rw [lists₂]; simp [Except.isOk, Except.toBool]) (.inr rfl) (.inl rfl), turned₁.trans turned₂⟩
          | error error =>
            have opened := books₂.opened ((books₂.tidy tx.from_).reserved.mpr (.inr rfl))
            have released : Books ⟨ok, none, []⟩ (pool₂.release tx.from_) :=
              opened.release (by rw [lists₂, lists₁]; rfl) (by simp) fun other apart => by simp [Ne.symm apart]
            refine ⟨.error error, _, rfl, released, (turned₁.trans turned₂).trans (.of_beside (.release pool₂) ?_)⟩
            rw [release_eq]
            split <;> exact .refl

theorem addTxsLocked_keeps (identified : Identified ok) (books : Books ⟨ok, none, []⟩ pool)
    (bounded : ∀ addr, pool.state.balance addr < costBound) {txs : List Transaction} (good : ∀ tx ∈ txs, ok tx) (chain : ChainView)
    (local_ : Bool) : Keeps ⟨ok, none, []⟩ pool ((pool.addTxsLocked moment chain local_ txs).map Prod.snd) := by
  induction txs generalizing pool with
  | nil => exact ⟨pool, rfl, books, .refl pool⟩
  | cons tx rest ih =>
    obtain ⟨replaced, between, added, books₁, turned₁⟩ :=
      add_books moment identified books bounded (good tx List.mem_cons_self) chain local_
    obtain ⟨pool', ran, books', turned'⟩ := ih books₁ (by rw [turned₁.state]; exact bounded)
      fun other member => good other (List.mem_cons_of_mem _ member)
    refine ⟨pool', ?_, books', turned₁.trans turned'⟩
    obtain ⟨⟨others, last⟩, rest_, rfl⟩ := Option.map_eq_some_iff.mp ran
    rw [addTxsLocked]
    simp only [added, rest_, Option.bind_eq_bind, Option.bind_some]
    rfl

end Pool

end Snowside.TxPool
