import Mathlib.Algebra.Group.Nat.Defs
import Snowside.Blockchain.Fork
import Snowside.Partial.Stateful

/-! The chain with its head, and the calls of consensus that move the head. -/

set_option autoImplicit false

namespace Snowside.Blockchain

open Ancestry (IsParent Ancestor Path)
open Checked (refuse refuse_eq_ok)
open Stateful (Action Ends perform check wrap)

structure BlockChain (Block Hash : Type) [ChainBlock Block Hash] where
  db : Database Block Hash
  /-- The batches written so far, in order. -/
  written : List (Write Block)
  currentBlock : Block
  lastAccepted : Block

variable {Block Hash : Type} [ChainBlock Block Hash] [DecidableEq Hash]

namespace BlockChain

def write (batch : Write Block) (chain : BlockChain Block Hash) : BlockChain Block Hash :=
  { chain with db := chain.db.apply batch, written := chain.written ++ [batch] }

def writeHeadBlock (block : Block) (chain : BlockChain Block Hash) : BlockChain Block Hash :=
  { chain.write (.headBlock block) with currentBlock := block }

def deleteUselessIndexes (height : Nat) (chain : BlockChain Block Hash) : BlockChain Block Hash :=
  chain.write (.deleteCanonicalHashes (chain.db.uselessIndexes height))

end BlockChain

open BlockChain (writeHeadBlock deleteUselessIndexes)

def reorg (oldHead newHead : Block) : Action (Error Hash) (BlockChain Block Hash) Unit := do
  let chain ← get
  let (newChain, commonBlock) ← check (chain.db.findCommonBlock oldHead newHead)
  -- An accepted block would leave the canonical chain.
  check (refuse (number commonBlock < number chain.lastAccepted)
    (.orphansFinalized (number chain.lastAccepted) (number commonBlock)))
  -- The new chain without its head, from the bottom up.
  newChain.tail.reverse.forM fun block => modify (writeHeadBlock block)
  modify (deleteUselessIndexes (number newHead))

def writeKnownBlock (block : Block) : Action (Error Hash) (BlockChain Block Hash) Unit := do
  let current := (← get).currentBlock
  if parentHash block ≠ hash current then
    reorg current block
  modify (writeHeadBlock block)

def setPreference (block : Block) : Action (Error Hash) (BlockChain Block Hash) Unit := do
  let current := (← get).currentBlock
  if hash current = hash block then
    return ()
  wrap .writeKnownBlock (writeKnownBlock block)

def accept (block : Block) : Action (Error Hash) (BlockChain Block Hash) Unit := do
  let chain ← get
  check (refuse (hash chain.lastAccepted ≠ parentHash block)
    (.unexpectedParent (hash chain.lastAccepted) (number chain.lastAccepted) (parentHash block)
      ((number block + 2 ^ 64 - 1) % 2 ^ 64)))
  if chain.db.getCanonicalHash (number block) ≠ some (hash block) then
    wrap (.notPreferred (number block) (hash block)) (setPreference block)
  modify fun chain => { chain with lastAccepted := block }

/-- The trie of the block and the database may refuse. -/
def reject (block : Block) (trie batch : Except String Unit) : Action (Error Hash) (BlockChain Block Hash) Unit := do
  check (trie.mapError .rejectTrie)
  check (batch.mapError .deleteBlock)
  modify (BlockChain.write (.deleteBlock block))

/-- The parent's header is the one under the block's parent hash: it may outlive the parent
itself. The verification and execution come before the block is stored, the commit of its state after. -/
def insertBlock (parent block : Block) (verification commit : Except String Unit) :
    Action (Error Hash) (BlockChain Block Hash) Unit := do
  check (refuse (number block ≠ number parent + 1) .unknownAncestor)
  check (verification.mapError .invalidBlock)
  modify (BlockChain.write (.block block))
  check (commit.mapError .invalidBlock)
  let current := (← get).currentBlock
  if parentHash block = hash current then
    modify (writeHeadBlock block)

/-! ## Where the calls end -/

namespace BlockChain

/-- The blocks as heads, one after another. -/
def writeHeadBlocks (blocks : List Block) (chain : BlockChain Block Hash) : BlockChain Block Hash :=
  blocks.foldl (fun chain block => writeHeadBlock block chain) chain

variable (blocks : List Block) (chain : BlockChain Block Hash)

@[simp] theorem writeHeadBlocks_db : (chain.writeHeadBlocks blocks).db = chain.db.applyAll (blocks.map .headBlock) := by
  induction blocks generalizing chain with
  | nil => rfl
  | cons block rest ih => exact ih (chain.writeHeadBlock block)

@[simp] theorem writeHeadBlocks_lastAccepted : (chain.writeHeadBlocks blocks).lastAccepted = chain.lastAccepted := by
  induction blocks generalizing chain with
  | nil => rfl
  | cons block rest ih => exact ih (chain.writeHeadBlock block)

@[simp] theorem writeHeadBlocks_written :
    (chain.writeHeadBlocks blocks).written = chain.written ++ blocks.map .headBlock := by
  induction blocks generalizing chain with
  | nil => exact (List.append_nil _).symm
  | cons block rest ih => exact (ih (chain.writeHeadBlock block)).trans (List.append_assoc ..)

/-- The ways in which the head comes to a block. -/
inductive Moved (chain : BlockChain Block Hash) (block : Block) : BlockChain Block Hash → Prop where
  | stays : chain.currentBlock = block → Moved chain block chain
  | grows : parentHash block = hash chain.currentBlock → Moved chain block (chain.writeHeadBlock block)
  | switches {common : Block} {path : List Block} : Ancestor common chain.currentBlock → Path common path block →
      number chain.lastAccepted ≤ number common →
      Moved chain block (((chain.writeHeadBlocks path.dropLast).deleteUselessIndexes (number block)).writeHeadBlock block)

end BlockChain

open BlockChain (Moved)

theorem reorg_ends (chain : BlockChain Block Hash) (block : Block) :
    Ends chain (reorg chain.currentBlock block) fun result after =>
      match result with
      | .error _ => after = chain
      | .ok _ => ∃ common path, Ancestor common chain.currentBlock ∧ Path common path block ∧
          number chain.lastAccepted ≤ number common ∧
          after = (chain.writeHeadBlocks path.dropLast).deleteUselessIndexes (number block) := by
  unfold reorg
  refine Ends.get_bind (Ends.check_bind (fun _ _ => rfl) fun found walked => ?_)
  obtain ⟨newChain, common⟩ := found
  obtain ⟨above, path⟩ := Database.findCommonBlock_eq_ok walked
  refine Ends.check_bind (fun _ _ => rfl) fun _ kept => ?_
  have reversed : newChain.tail.reverse = newChain.reverse.dropLast := by
    cases newChain with
    | nil => rfl
    | cons block rest => rw [List.reverse_cons, List.dropLast_concat, List.tail_cons]
  unfold Ends
  rw [Stateful.perform_bind_ok (Stateful.perform_forM_modify newChain.tail.reverse writeHeadBlock chain)]
  refine ⟨common, newChain.reverse, above, path, Nat.le_of_not_lt (refuse_eq_ok.mp kept), ?_⟩
  rw [← reversed]
  rfl

/-- An error comes before the first write. -/
theorem setPreference_ends (chain : BlockChain Block Hash) (block : Block) :
    Ends chain (setPreference block) fun result after =>
      match result with
      | .error _ => after = chain
      | .ok _ => Moved chain block after := by
  unfold setPreference
  refine Ends.get_bind ?_
  dsimp only
  split
  · next same => exact .stays (hash_injective same)
  refine Ends.wrap (Ends.get_bind ?_)
  dsimp only
  split
  · refine Ends.bind (reorg_ends chain block) (fun _ _ same => same) fun _ after moved => ?_
    obtain ⟨common, path, above, way, kept, rfl⟩ := moved
    exact .switches above way kept
  · next same => exact .grows (not_not.mp same)

theorem accept_ends (chain : BlockChain Block Hash) (block : Block) :
    Ends chain (accept block) fun result after =>
      match result with
      | .error _ => after = chain
      | .ok _ => hash chain.lastAccepted = parentHash block ∧ ∃ moved : BlockChain Block Hash,
          (moved = chain ∧ chain.db.getCanonicalHash (number block) = some (hash block) ∨ Moved chain block moved) ∧
          after = { moved with lastAccepted := block } := by
  unfold accept
  refine Ends.get_bind (Ends.check_bind (fun _ _ => rfl) fun _ follows => ?_)
  replace follows := not_not.mp (refuse_eq_ok.mp follows)
  dsimp only
  split
  · have preferred : Ends chain (wrap (Error.notPreferred (number block) (hash block)) (setPreference block)) fun result after =>
        match result with
        | .error _ => after = chain
        | .ok _ => Moved chain block after := by
      refine Ends.wrap ((setPreference_ends chain block).mono fun result after holds => ?_)
      cases result with
      | error cause => exact holds
      | ok _ => exact holds
    refine Ends.bind preferred (fun _ _ same => same) fun _ after moved => ?_
    exact ⟨follows, after, .inr moved, rfl⟩
  · next known => exact ⟨follows, chain, .inl ⟨rfl, not_not.mp known⟩, rfl⟩

/-- The preference moves to every block over the last accepted one. -/
theorem setPreference_succeeds {chain : BlockChain Block Hash} {block : Block}
    (above : Ancestor chain.lastAccepted chain.currentBlock) (preferred : Ancestor chain.lastAccepted block)
    (oldStored : ∀ middle, Ancestor chain.lastAccepted middle → Ancestor middle chain.currentBlock → chain.db.Stored middle)
    (newStored : ∀ middle, Ancestor chain.lastAccepted middle → Ancestor middle block → middle ≠ block → chain.db.Stored middle) :
    Ends chain (setPreference block) fun result _ => result = .ok () := by
  obtain ⟨newChain, common, walked, kept⟩ := Database.findCommonBlock_of_stored above preferred oldStored newStored
  have reorganized : Ends chain (reorg chain.currentBlock block) fun result _ => result = .ok () := by
    unfold reorg
    refine Ends.get_bind ?_
    rw [walked, Stateful.check_ok_bind]
    refine Ends.check_bind (fun _ refused => ?_) fun _ _ => ?_
    · exact absurd (Checked.refuse_eq_error.mp refused).1 (Nat.not_lt.mpr (number_le kept))
    · unfold Ends
      rw [Stateful.perform_bind_ok (Stateful.perform_forM_modify newChain.tail.reverse writeHeadBlock chain)]
      rfl
  unfold setPreference
  refine Ends.get_bind ?_
  dsimp only
  split
  · rfl
  refine Ends.wrap (Ends.get_bind ?_)
  dsimp only
  split
  · refine Ends.bind reorganized (fun _ _ impossible => (nomatch impossible)) fun _ _ _ => rfl
  · rfl

/-! ## What a move keeps -/

namespace BlockChain.Moved

variable {chain after : BlockChain Block Hash} {block : Block}

theorem lastAccepted (moved : Moved chain block after) : after.lastAccepted = chain.lastAccepted := by
  cases moved with
  | stays same => rfl
  | grows parent => rfl
  | switches above path kept => exact writeHeadBlocks_lastAccepted _ chain

theorem currentBlock (moved : Moved chain block after) : after.currentBlock = block := by
  cases moved with
  | stays same => exact same
  | grows parent => rfl
  | switches above path kept => rfl

theorem named (moved : Moved chain block after) (named : chain.db.headBlockHash = hash chain.currentBlock) :
    after.db.headBlockHash = hash block := by
  cases moved with
  | stays same => rwa [← same]
  | grows parent => rfl
  | switches above path kept => rfl

theorem blocks (moved : Moved chain block after) : after.db.blocks = chain.db.blocks := by
  cases moved with
  | stays same => rfl
  | grows parent => rfl
  | @switches common path above way kept =>
    show (chain.writeHeadBlocks path.dropLast).db.blocks = chain.db.blocks
    rw [writeHeadBlocks_db]
    exact Database.applyAll_headBlock_blocks chain.db _

/-- A head over the last accepted block moves to such a head. -/
theorem above (moved : Moved chain block after) (last : Ancestor chain.lastAccepted chain.currentBlock)
    (step : parentHash block = hash chain.currentBlock → IsParent chain.currentBlock block) :
    Ancestor chain.lastAccepted block := by
  cases moved with
  | stays same => rwa [← same]
  | grows parent => exact last.child (step parent)
  | switches above path kept => exact (last.of_level_le above kept).trans path.ancestor

/-- An index that is exactly that of the head stays so. -/
theorem aligned {base : Block} (moved : Moved chain block after) (based : Ancestor base chain.lastAccepted)
    (last : Ancestor chain.lastAccepted chain.currentBlock)
    (filled : chain.db.canonical.Filled (number base) (number chain.currentBlock)) (follows : chain.db.Follows base chain.currentBlock)
    (step : parentHash block = hash chain.currentBlock → IsParent chain.currentBlock block) :
    after.db.canonical.Filled (number base) (number block) ∧ after.db.Follows base block := by
  cases moved with
  | stays same =>
    rw [← same]
    exact ⟨filled, follows⟩
  | grows parent =>
    have next := number_child (step parent)
    have written := filled.write (show number block ≤ _ by omega) (hash block)
    rw [Nat.max_eq_right (by omega)] at written
    exact ⟨written, follows.headBlock (step parent)⟩
  | @switches common path above way kept =>
    have switched := (follows.ancestor above).switch (based.trans (last.of_level_le above kept)) way filled (number_le above)
    rw [← writeHeadBlocks_db] at switched
    exact switched

end BlockChain.Moved

end Snowside.Blockchain
