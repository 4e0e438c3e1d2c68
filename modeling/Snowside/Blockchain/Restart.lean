import Snowside.Blockchain.Durable

/-! What a node keeps on disk, and how a restart rebuilds the chain from it. -/

set_option autoImplicit false

namespace Snowside.Blockchain

open Ancestry (IsParent Ancestor Path)
open Checked (need refuse)
open Stateful (Action perform check)

/-- What the state and the indices read of a block. -/
class StateBlock (Block : Type) (Root Transaction : outParam Type) where
  root : Block → Root
  transactions : Block → List Transaction
  /-- Whether the block is processed and validated on the state of its parent. -/
  valid : Block → Block → Bool

export StateBlock (root transactions valid)

variable {Block Hash Root Transaction : Type} [ChainBlock Block Hash] [StateBlock Block Root Transaction]

structure Disk (Block : Type) {Hash Root Transaction : Type} [ChainBlock Block Hash] [StateBlock Block Root Transaction] where
  chain : Database Block Hash
  /-- The stored id, or that of the genesis block if none is stored. -/
  lastAcceptedHash : Hash
  acceptorTip : Option Hash
  /-- The number of the block of a transaction. -/
  lookups : Transaction → Option Nat
  hasState : Root → Bool

/-- One batch to the disk. -/
inductive DiskWrite (Block Root : Type) where
  | chain : Write Block → DiskWrite Block Root
  | lastAccepted : Block → DiskWrite Block Root
  /-- The lookups of the transactions of a block, and the block as acceptor tip. -/
  | acceptedIndices : Block → DiskWrite Block Root
  | state : Root → DiskWrite Block Root

inductive RestartError (Hash : Type) where
  | headMissing (key : Hash)
  | lastAcceptedMissing
  | setPreference (cause : Error Hash)
  | acceptorTipMissing (key : Hash)
  | genesisStateMissing
  | missingBlock (parent : Hash) (number : Nat)
  | stateUnavailable (reexec : Nat)
  | retrieveBlock (number : Nat)
  | reprocessBlock (key : Hash) (number : Nat)
  | headStateMissing (number : Nat) (key : Hash)

def RestartError.text {Hash : Type} (hex : Hash → String) : RestartError Hash → String
  | .headMissing key => "could not load head block " ++ hex key
  | .lastAcceptedMissing => "could not load last accepted block"
  | .setPreference cause => "failed to set preference to last accepted block while loading last state: " ++ cause.text hex
  | .acceptorTipMissing key => "failed to get block for acceptor tip " ++ hex key
  | .genesisStateMissing => "genesis state is missing"
  | .missingBlock parent number => "missing block " ++ hex parent ++ ":" ++ toString number
  | .stateUnavailable reexec => "required historical state unavailable (reexec=" ++ toString reexec ++ ")"
  | .retrieveBlock number => "failed to retrieve block " ++ toString number ++ " while re-generating state"
  | .reprocessBlock key number => "failed to re-process block (" ++ hex key ++ ": " ++ toString number ++ ")"
  | .headStateMissing number key => "head state missing " ++ toString number ++ ":" ++ hex key

namespace Disk

variable (disk : Disk Block)

/-- The block to search next, if this one has no state. -/
def stepDown (current : Block) : Except (RestartError Hash) Block :=
  if number current = 0 then .error .genesisStateMissing
  else need (.missingBlock (parentHash current) (number current - 1)) (disk.chain.getParent current)

/-- The first block with a state on the way down, after at most so many steps. -/
def findState (reexec : Nat) : Nat → Block → Except (RestartError Hash) Block
  | 0, current =>
      if disk.hasState (root current) then .ok current
      else do
        let _ ← disk.stepDown current
        .error (.stateUnavailable reexec)
  | steps + 1, current =>
      if disk.hasState (root current) then .ok current
      else do
        let parent ← disk.stepDown current
        findState reexec steps parent

/-- The search begins at the acceptor tip, if there is one. -/
def searchStart (current : Block) : Except (RestartError Hash) Block :=
  match disk.acceptorTip with
  | none => .ok current
  | some tip => need (.acceptorTipMissing tip) (disk.chain.blocks tip)

end Disk

variable [DecidableEq Hash] [DecidableEq Root] [DecidableEq Transaction]

namespace Disk

def apply (disk : Disk Block) : DiskWrite Block Root → Disk Block
  | .chain batch => { disk with chain := disk.chain.apply batch }
  | .lastAccepted block => { disk with lastAcceptedHash := hash block }
  | .acceptedIndices block =>
      { disk with
        acceptorTip := some (hash block)
        lookups := fun transaction =>
          if transaction ∈ transactions block then some (number block) else disk.lookups transaction }
  | .state key => { disk with hasState := Function.update disk.hasState key true }

def applyAll (disk : Disk Block) (writes : List (DiskWrite Block Root)) : Disk Block := writes.foldl apply disk

theorem applyAll_append (disk : Disk Block) (first second : List (DiskWrite Block Root)) :
    disk.applyAll (first ++ second) = (disk.applyAll first).applyAll second := List.foldl_append

end Disk

/-- The disk during a restart, and the batches written so far. -/
structure Boot (Block : Type) {Hash Root Transaction : Type} [ChainBlock Block Hash] [StateBlock Block Root Transaction] where
  disk : Disk Block
  written : List (DiskWrite Block Root)

def Boot.write (batch : DiskWrite Block Root) (boot : Boot Block) : Boot Block :=
  ⟨boot.disk.apply batch, boot.written ++ [batch]⟩

/-- The last accepted block becomes the head. -/
def loadPreference (headBlock lastAccepted : Block) : Action (RestartError Hash) (Boot Block) Unit := do
  let disk := (← get).disk
  let made := perform (setPreference lastAccepted) ⟨disk.chain, [], headBlock, lastAccepted⟩
  made.2.written.forM fun batch => modify (Boot.write (.chain batch))
  check (made.1.mapError .setPreference)

/-- Processes the blocks after this one again. The indices are written from the acceptor tip on. -/
def regenerate (acceptorTip : Option Hash) : Nat → Block → Bool → Action (RestartError Hash) (Boot Block) Block
  | 0, current, _ => pure current
  | steps + 1, parent, writeIndices => do
      let disk := (← get).disk
      let next := number parent + 1
      let current ← check (need (.retrieveBlock next) (disk.chain.getBlockByNumber next))
      let writeIndices := writeIndices || acceptorTip == some (hash parent)
      check (refuse (¬ valid parent current) (.reprocessBlock (hash current) (number current)))
      if writeIndices then
        modify (Boot.write (.acceptedIndices current))
      regenerate acceptorTip steps current writeIndices

def reprocessState (current : Block) (reexec : Nat) : Action (RestartError Hash) (Boot Block) Unit := do
  let disk := (← get).disk
  let acceptorTipUpToDate := disk.acceptorTip == none || disk.acceptorTip == some (hash current)
  if disk.hasState (root current) && acceptorTipUpToDate then
    return ()
  let start ← check (disk.searchStart current)
  let found ← check (disk.findState reexec reexec start)
  let last ← regenerate disk.acceptorTip (number current - number found) found false
  -- Only the state of the last block is committed, and only if a block was processed.
  if number found < number current then
    modify (Boot.write (.state (root last)))

/-- The restart. It ends with the last accepted block as head. -/
def newBlockChain (commitInterval : Nat) : Action (RestartError Hash) (Boot Block) Block := do
  let disk := (← get).disk
  let headBlock ← check (need (.headMissing disk.chain.headBlockHash) (disk.chain.blocks disk.chain.headBlockHash))
  let lastAccepted ← check (need .lastAcceptedMissing (disk.chain.blocks disk.lastAcceptedHash))
  loadPreference headBlock lastAccepted
  reprocessState lastAccepted (2 * commitInterval)
  let boot ← get
  check (refuse (¬ boot.disk.hasState (root lastAccepted)) (.headStateMissing (number lastAccepted) (hash lastAccepted)))
  return lastAccepted

end Snowside.Blockchain
