import Snowside.Blockchain.Canonical

/-! What the database upholds between any two batches, so that a crash there can be repaired. -/

set_option autoImplicit false

namespace Snowside.Blockchain

open Ancestry (IsParent Ancestor Path)
open BlockChain (Moved)
open Runs (Along)
open Stateful (Ends perform)

variable {Block Hash : Type} [ChainBlock Block Hash]

/-- From the origin on: the decided blocks are stored, the index leads to the last accepted
block and has no gap, and the head comes from that block. -/
structure Database.Upholds (origin last decided : Block) (db : Database Block Hash) : Prop where
  kept : ∀ block, Ancestor origin block → Ancestor block decided → db.Stored block
  filled : ∃ top, number last ≤ top ∧ db.canonical.Filled (number origin) top
  follows : db.Follows origin last
  head : ∃ head, db.headBlockHash = hash head ∧ Ancestor last head ∧
    (∀ block, Ancestor origin block → Ancestor block head → db.Stored block) ∧
    -- The head is the last accepted block only after what was above it is gone.
    (head = last → db.canonical.Filled (number origin) (number last))

/-- The promise holds before each of the batches and after the last. -/
abbrev Safe [DecidableEq Hash] (upholds : Database Block Hash → Prop) : List (Write Block) → Database Block Hash → Prop :=
  Along Database.apply upholds

theorem Database.Upholds.of_aligned {origin last decided head : Block} {db : Database Block Hash}
    (named : db.headBlockHash = hash head) (above : Ancestor last head)
    (filled : db.canonical.Filled (number origin) (number head)) (follows : db.Follows origin head)
    (stored : ∀ block, Ancestor origin block → Ancestor block head → db.Stored block)
    (kept : ∀ block, Ancestor origin block → Ancestor block decided → db.Stored block) : db.Upholds origin last decided where
  kept := kept
  filled := ⟨number head, number_le above, filled⟩
  follows := follows.ancestor above
  head := ⟨head, named, above, stored, fun same => by rwa [same] at filled⟩

/-- What the chain upholds between two calls. -/
theorem Invariant.upholds {origin decided : Block} {state : State Block Hash} (invariant : Invariant origin state)
    (kept : ∀ block, Ancestor origin block → Ancestor block decided → state.chain.db.Stored block) :
    state.chain.db.Upholds origin state.chain.lastAccepted decided :=
  .of_aligned invariant.named invariant.last invariant.filled invariant.follows (fun _ => invariant.stored_above) kept

variable [DecidableEq Hash]

namespace Database.Upholds

variable {origin last decided : Block} {db : Database Block Hash}

theorem block (upholds : db.Upholds origin last decided) (block : Block) :
    (db.apply (.block block)).Upholds origin last decided := by
  obtain ⟨head, named, above, stored, exact_at⟩ := upholds.head
  exact
    { kept := fun other based below => (upholds.kept other based below).block block
      filled := upholds.filled
      follows := upholds.follows
      head := ⟨head, named, above, fun other based below => (stored other based below).block block, exact_at⟩ }

/-- The block that goes conflicts with an accepted one. -/
theorem deleteBlock (upholds : db.Upholds origin last decided) (final : Ancestor last decided) {accepted block : Block}
    (above : Ancestor accepted last) (conflict : ¬ Ancestor accepted block ∧ ¬ Ancestor block accepted) :
    (db.apply (.deleteBlock block)).Upholds origin last decided := by
  have other_side : ∀ {other tip : Block}, Ancestor last tip → Ancestor other tip → other ≠ block := by
    intro other tip under below same
    subst same
    rcases (above.trans under).comparable below with holds | holds
    · exact conflict.1 holds
    · exact conflict.2 holds
  obtain ⟨head, named, under, stored, exact_at⟩ := upholds.head
  exact
    { kept := fun other based below => (upholds.kept other based below).deleteBlock (other_side final below)
      filled := upholds.filled
      follows := upholds.follows
      head := ⟨head, named, under, fun other based below => (stored other based below).deleteBlock (other_side under below), exact_at⟩ }

/-- A head over the last accepted block, next to what the index has. -/
theorem headBlock (upholds : db.Upholds origin last decided) {block : Block} (under : Ancestor last block)
    (proper : number last < number block) {top : Nat} (filled : db.canonical.Filled (number origin) top)
    (low : number last ≤ top) (near : number block ≤ top + 1)
    (stored : ∀ other, Ancestor origin other → Ancestor other block → db.Stored other) :
    (db.apply (.headBlock block)).Upholds origin last decided where
  kept := upholds.kept
  filled := ⟨max top (number block), by omega, filled.write near (hash block)⟩
  follows := upholds.follows.headBlock_above proper
  head := ⟨block, rfl, under, stored, fun same => by rw [same] at proper; omega⟩

theorem deleteUselessIndexes (upholds : db.Upholds origin last decided) (based : Ancestor origin last) {height : Nat}
    (high : number last ≤ height) : (db.apply (.deleteCanonicalHashes (db.uselessIndexes height))).Upholds origin last decided := by
  have base := number_le based
  obtain ⟨top, low, filled⟩ := upholds.filled
  obtain ⟨head, named, under, stored, exact_at⟩ := upholds.head
  have cut := filled.delete_assigned (by omega) (show number origin ≤ height by omega)
  exact
    { kept := upholds.kept
      filled := ⟨min top height, by omega, cut⟩
      follows := upholds.follows.deleteCanonicalHashes fun other member => by
        have := ((mem_uselessIndexes filled (by omega) (show number origin ≤ height by omega)).mp member).1
        omega
      head := by
        refine ⟨head, named, under, stored, fun same => ?_⟩
        -- Nothing was above the head, and nothing is taken away.
        have before := exact_at same
        have after := before.delete_assigned base (show number origin ≤ height by omega)
        rw [Nat.min_eq_left high] at after
        exact after }

end Database.Upholds

/-! ## A reorganisation -/

section

variable {origin last decided : Block} {db : Database Block Hash}

theorem Safe.heads {start tip : Block} {blocks : List Block} (path : Path start blocks tip)
    (upholds : db.Upholds origin last decided) (under : Ancestor last start) {top : Nat}
    (filled : db.canonical.Filled (number origin) top) (inside : number start ≤ top)
    (stored : ∀ block, Ancestor origin block → Ancestor block tip → db.Stored block) :
    Safe (Database.Upholds origin last decided) (blocks.map .headBlock) db := by
  induction blocks generalizing db start top with
  | nil => exact upholds
  | cons next rest ih =>
    obtain ⟨step, path⟩ := path
    have low := number_le under
    have up := number_child step
    have written : (db.apply (.headBlock next)).canonical.Filled (number origin) (max top (number next)) :=
      filled.write (by omega) (hash next)
    refine ⟨upholds, ih path ?_ (under.child step) written (by omega) stored⟩
    exact upholds.headBlock (under.child step) (by omega) filled (by omega) (by omega)
      fun block based above => stored block based (above.trans path.ancestor)

/-- The batches of a reorganisation over the last accepted block. -/
theorem Safe.switch {common tip : Block} {path : List Block} (upholds : db.Upholds origin last decided)
    (rooted : Ancestor origin last) (under : Ancestor last common) (way : Path common path tip)
    (follows : db.Follows origin common) {top : Nat} (filled : db.canonical.Filled (number origin) top)
    (inside : number common ≤ top) (stored : ∀ block, Ancestor origin block → Ancestor block tip → db.Stored block) :
    let written := db.applyAll (path.dropLast.map .headBlock)
    let deleted := written.apply (.deleteCanonicalHashes (written.uselessIndexes (number tip)))
    Safe (Database.Upholds origin last decided)
      (path.dropLast.map .headBlock ++
        [.deleteCanonicalHashes (written.uselessIndexes (number tip)), .headBlock tip]) db ∧
    (deleted.apply (.headBlock tip)).canonical.Filled (number origin) (number tip) ∧
    (deleted.apply (.headBlock tip)).Follows origin tip := by
  intro written deleted
  obtain ⟨full, leads⟩ := follows.switch (rooted.trans under) way filled inside
  have heads : Safe (Database.Upholds origin last decided) (path.dropLast.map .headBlock) db := by
    rcases way.exists_last with ⟨rfl, _⟩ | ⟨front, parent, rfl, begun, step⟩
    · exact upholds
    · rw [List.dropLast_concat]
      exact Safe.heads begun upholds under filled inside fun block based above => stored block based (above.child step)
  have kept : ∀ block, db.Stored block → (deleted.apply (.headBlock tip)).Stored block := by
    intro block present
    show written.blocks (hash block) = some block
    rw [show written.blocks = db.blocks from Database.applyAll_headBlock_blocks db _]
    exact present
  have begun := heads.last
  have tip_above := under.trans way.ancestor
  have removed := begun.deleteUselessIndexes rooted (number_le tip_above)
  refine ⟨heads.append ⟨begun, removed, ?_⟩, full, leads⟩
  exact .of_aligned rfl tip_above full leads (fun block based above => kept block (stored block based above))
    fun block based below => kept block (upholds.kept block based below)

end

/-! ## A call of consensus -/

section

variable {origin decided : Block} {state : State Block Hash}

/-- The batches from one chain to another are safe. -/
structure Wrote (upholds : Database Block Hash → Prop) (before after : BlockChain Block Hash) (writes : List (Write Block)) : Prop where
  written : after.written = before.written ++ writes
  db : after.db = before.db.applyAll writes
  safe : Safe upholds writes before.db

theorem Moved.wrote (invariant : Invariant origin state) (first : IsOrigin origin)
    (kept : ∀ block, Ancestor origin block → Ancestor block decided → state.chain.db.Stored block)
    {block : Block} (member : block ∈ state.inserted) {after : BlockChain Block Hash} (moved : Moved state.chain block after) :
    ∃ writes, Wrote (Database.Upholds origin state.chain.lastAccepted decided) state.chain after writes := by
  have upholds := invariant.upholds kept
  have settled := invariant.moved first member moved
  have stored : ∀ other, Ancestor origin other → Ancestor other block → state.chain.db.Stored other := by
    intro other based above
    have present := settled.stored_above based (show Ancestor other after.currentBlock by rwa [moved.currentBlock])
    rwa [Database.Stored, show ({ state with chain := after } : State Block Hash).chain.db.blocks = _ from moved.blocks] at present
  have above := moved.above invariant.last fun named => invariant.closed.isParent first invariant.head member named.symm
  cases moved with
  | stays same => exact ⟨[], (List.append_nil _).symm, rfl, upholds⟩
  | grows parent =>
    have step := invariant.closed.isParent first invariant.head member parent.symm
    have next := number_child step
    have low := number_le invariant.last
    exact ⟨[.headBlock block], rfl, rfl, upholds,
      upholds.headBlock above (by omega) invariant.filled low (by omega) stored⟩
  | @switches common path ancestor way high =>
    have under := invariant.last.of_level_le ancestor high
    obtain ⟨safe, _⟩ := Safe.switch upholds invariant.based under way (invariant.follows.ancestor ancestor) invariant.filled
      (number_le ancestor) stored
    refine ⟨_, ?_, ?_, safe⟩
    · show ((state.chain.writeHeadBlocks path.dropLast).written ++ [_]) ++ [_] = _
      rw [BlockChain.writeHeadBlocks_written, BlockChain.writeHeadBlocks_db]
      simp only [List.append_assoc, List.cons_append, List.nil_append]
    · rw [Database.applyAll_append, ← BlockChain.writeHeadBlocks_db]
      rfl

/-- A crash between two batches of a call leaves what a restart needs. -/
theorem State.make_wrote (invariant : Invariant origin state) (first : IsOrigin origin)
    (final : Ancestor state.chain.lastAccepted decided)
    (kept : ∀ block, Ancestor origin block → Ancestor block decided → state.chain.db.Stored block)
    {call : Call Block} (legal : state.Legal call) :
    ∃ writes, Wrote (Database.Upholds origin state.chain.lastAccepted decided) state.chain (state.make call).2.chain writes := by
  have upholds := invariant.upholds kept
  have still : ∃ writes, Wrote (Database.Upholds origin state.chain.lastAccepted decided) state.chain state.chain writes :=
    ⟨[], (List.append_nil _).symm, rfl, upholds⟩
  have stores (block : Block) : Wrote (Database.Upholds origin state.chain.lastAccepted decided) state.chain
      (state.chain.write (.block block)) [.block block] := ⟨rfl, rfl, upholds, upholds.block block⟩
  rcases made : state.make call with ⟨result, after⟩
  cases State.make_cases made with
  | refused => exact still
  | stored => exact ⟨_, stores _⟩
  | aside => exact ⟨_, stores _⟩
  | @grown _ block _ next named =>
    have inserted := invariant.insert legal.1 ⟨legal.2, next⟩
    have kept_on : ∀ other, Ancestor origin other → Ancestor other decided →
        (state.chain.write (.block block)).db.Stored other := fun other based below => (kept other based below).block block
    obtain ⟨writes, more⟩ := Moved.wrote inserted first kept_on (List.mem_cons_self ..) (.grows named)
    refine ⟨.block block :: writes, ?_, more.db, upholds, more.safe⟩
    exact more.written.trans (List.append_assoc ..)
  | preferred moves => exact Moved.wrote invariant first kept legal.1 moves
  | accepted _ how =>
    rcases how with ⟨rfl, _⟩ | moves
    · exact ⟨[], (List.append_nil _).symm, rfl, upholds⟩
    · obtain ⟨writes, wrote⟩ := Moved.wrote invariant first kept legal.1 moves
      exact ⟨writes, wrote.written, wrote.db, wrote.safe⟩
  | @rejected block =>
    obtain ⟨_, accepted, inside, conflict⟩ := legal
    exact ⟨[.deleteBlock block], rfl, rfl, upholds, upholds.deleteBlock final (invariant.accepted accepted inside) conflict⟩

/-- Only an insertion whose verification succeeds makes a block an inserted one. -/
theorem State.make_inserted {call : Call Block} {block : Block} (member : block ∈ (state.make call).2.inserted) :
    block ∈ state.inserted ∨
      ∃ parent commit, call = .insert parent block (.ok ()) commit ∧ number block = number parent + 1 := by
  rcases made : state.make call with ⟨result, after⟩
  rw [made] at member
  have inserted {parent other : Block} {commit : Except String Unit} (next : number other = number parent + 1)
      (member : block ∈ other :: state.inserted) : block ∈ state.inserted ∨ ∃ parent' commit',
        Call.insert parent other (.ok ()) commit = .insert parent' block (.ok ()) commit' ∧ number block = number parent' + 1 := by
    rcases List.mem_cons.mp member with rfl | member
    · exact .inr ⟨parent, commit, rfl, next⟩
    · exact .inl member
  cases State.make_cases made with
  | aside next => exact inserted next member
  | grown next => exact inserted next member
  | refused => exact .inl member
  | stored => exact .inl member
  | preferred => exact .inl member
  | accepted => exact .inl member
  | rejected => exact .inl member

/-- Only an acceptance moves the last accepted block. -/
theorem State.make_lastAccepted (state : State Block Hash) (call : Call Block) :
    (∃ block, call = .accept block ∧ (state.make call).1 = .ok () ∧ (state.make call).2.chain.lastAccepted = block) ∨
      (∀ block, call = .accept block → (state.make call).1 ≠ .ok ()) ∧
        (state.make call).2.chain.lastAccepted = state.chain.lastAccepted := by
  rcases made : state.make call with ⟨result, after⟩
  cases State.make_cases made with
  | @accepted block => exact .inl ⟨block, rfl, rfl, rfl⟩
  | refused => exact .inr ⟨fun _ _ impossible => (by cases impossible), rfl⟩
  | stored => exact .inr ⟨fun _ impossible => (by cases impossible), rfl⟩
  | aside => exact .inr ⟨fun _ impossible => (by cases impossible), rfl⟩
  | grown => exact .inr ⟨fun _ impossible => (by cases impossible), rfl⟩
  | preferred moves => exact .inr ⟨fun _ impossible => (by cases impossible), moves.lastAccepted⟩
  | rejected => exact .inr ⟨fun _ impossible => (by cases impossible), rfl⟩

end

end Snowside.Blockchain
