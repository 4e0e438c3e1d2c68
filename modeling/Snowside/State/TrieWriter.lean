import Mathlib.Data.List.Count
import Snowside.Chain.Runs
import Snowside.Precompile.Words
import Snowside.State.BoundedBuffer

/-! The trie writer of a node that prunes: the references to the roots of its blocks. -/

set_option autoImplicit false

namespace Snowside.State

open Precompile (Hash)
open Runs Stateful

/-! ## The trie database -/

/-- The operations, with an Update that takes a reference to its root. -/
class TrieDB (S : Type) (TrieError Size : outParam Type) where
  update : Hash → S → S
  dereference : Hash → Action TrieError S Unit
  commit : Hash → Bool → Action TrieError S Unit
  size : S → Size × Size × Size
  cap : Size → Action TrieError S Unit
  /-- Of a root in memory. -/
  references : S → Hash → Nat
  onDisk : S → Hash → Prop

open TrieDB

section

variable {S TrieError Size : Type} [TrieDB S TrieError Size]

/-- Between the states so many references to each root in memory are lost at most. -/
def Loses (lost : Hash → Nat) (before after : S) : Prop :=
  ∀ root, onDisk after root ∨ ¬ onDisk before root ∧ references before root ≤ references after root + lost root

end

/-- What is relied on. -/
class LawfulTrieDB (S : Type) {TrieError Size : Type} [TrieDB S TrieError Size] : Prop where
  update : ∀ (db : S) root, Loses 0 db (TrieDB.update root db)
  references_update : ∀ (db : S) root, onDisk (TrieDB.update root db) root ∨
    references (TrieDB.update root db) root = references db root + 1
  dereference : ∀ (db : S) root after, perform (TrieDB.dereference root) db = (.ok (), after) → Loses ([root].count ·) db after
  dereference_error : ∀ (db : S) root error after, perform (TrieDB.dereference root) db = (.error error, after) → Loses 0 db after
  commit : ∀ (db : S) root report, Loses 0 db (perform (TrieDB.commit root report) db).2
  cap : ∀ (db : S) limit, Loses 0 db (perform (TrieDB.cap limit) db).2

/-- A trie database, with a list of the roots that were dereferenced. -/
instance {S TrieError Size : Type} [TrieDB S TrieError Size] : TrieDB (S × List Hash) TrieError Size where
  update root both := (update root both.1, both.2)
  dereference := BoundedBuffer.recorded dereference
  commit root report := zoom Prod.fst (fun db both => (db, both.2)) (commit root report)
  size both := size both.1
  cap limit := zoom Prod.fst (fun db both => (db, both.2)) (cap limit)
  references both := references both.1
  onDisk both := onDisk both.1

/-! ## The writer -/

structure Block where
  hash : Hash
  number : UInt64
  root : Hash
  deriving DecidableEq, Repr

/-- Of the sizes of the cache, in megabytes. -/
structure CacheConfig where
  trieDirtyLimit : Nat
  trieDirtyCommitTarget : Nat
  commitInterval : UInt64
  stateHistory : Nat
  deriving DecidableEq, Repr

inductive TrieWriterError (TrieError Size : Type) where
  | dereference (cause : TrieError)
  | capFailed (block : Hash) (target : Option Size) (cause : TrieError)
  | commitFailed (block : Hash) (cause : TrieError)
  /-- Panic: a remainder by zero. -/
  | divideByZero

/-- cappedMemoryTrieWriter. -/
structure TrieWriter (S Size : Type) where
  db : S
  memoryCap : Size
  targetCommitSize : Size
  flushStepSize : Size
  imageCap : Size
  commitInterval : UInt64
  tipBuffer : BoundedBuffer Hash

def flushWindow : UInt64 := 768

section

variable {S TrieError Size : Type} [TrieDB S TrieError Size] [LE Size] [DecidableLE Size] [Add Size] [Sub Size] [Mul Size] [Div Size]
  [NatCast Size]

def idealBatchSize : Size := (100 * 1024 : Nat)

namespace TrieWriter

def new (db : S) (config : CacheConfig) : TrieWriter S Size :=
  let memoryCap : Size := (config.trieDirtyLimit : Size) * (1024 : Nat) * (1024 : Nat)
  let targetCommitSize : Size := (config.trieDirtyCommitTarget : Size) * (1024 : Nat) * (1024 : Nat)
  { db
    memoryCap
    targetCommitSize
    imageCap := (4 * 1024 * 1024 : Nat)
    commitInterval := config.commitInterval
    tipBuffer := .new config.stateHistory
    flushStepSize := (memoryCap - targetCommitSize) / (flushWindow.toNat : Size) }

def onDB (action : Action TrieError S Unit) : Action TrieError (TrieWriter S Size) Unit :=
  zoom TrieWriter.db (fun db cm => { cm with db }) action

def insertTrie (block : Block) : Action (TrieWriterError TrieError Size) (TrieWriter S Size) Unit := do
  let cm ← get
  let (_, nodes, imgs) := size cm.db
  if nodes ≤ cm.memoryCap ∧ imgs ≤ cm.imageCap then return ()
  wrap (.capFailed block.hash none) (onDB (cap (cm.memoryCap - idealBatchSize)))

/-- The tip buffer dereferences the root that it gives up. -/
def insertTip (root : Hash) : Action TrieError (TrieWriter S Size) Unit :=
  zoom (fun cm => (cm.tipBuffer, cm.db)) (fun both cm => { cm with tipBuffer := both.1, db := both.2 })
    (BoundedBuffer.insert dereference root)

/-- What AcceptTrie writes to disk. -/
def flush (block : Block) : Action (TrieWriterError TrieError Size) (TrieWriter S Size) Unit := do
  let cm ← get
  if cm.commitInterval = 0 then throw .divideByZero
  let modCommitInterval := block.number % cm.commitInterval
  if modCommitInterval = 0 then wrap (.commitFailed block.hash) (onDB (commit block.root true))
  else
    let distanceFromCommit := cm.commitInterval - modCommitInterval
    if flushWindow < distanceFromCommit then return ()
    let targetMemory := cm.targetCommitSize + cm.flushStepSize * (distanceFromCommit.toNat : Size)
    let (_, nodes, _) := size cm.db
    if nodes ≤ targetMemory then return ()
    let targetCap := targetMemory - idealBatchSize
    wrap (.capFailed block.hash (some targetCap)) (onDB (cap targetCap))

def acceptTrie (block : Block) : Action (TrieWriterError TrieError Size) (TrieWriter S Size) Unit := do
  wrap .dereference (insertTip block.root)
  flush block

/-- The error of Dereference is dropped. -/
def rejectTrie (block : Block) (cm : TrieWriter S Size) : TrieWriter S Size :=
  (perform (onDB (dereference block.root)) cm).2

/-- The last root is committed. -/
def shutdown : Action TrieError (TrieWriter S Size) Unit := do
  let cm ← get
  match cm.tipBuffer.last with
  | none => return ()
  | some last => onDB (commit last true)

end TrieWriter

/-! ## Blocks that are inserted, accepted and rejected -/

/-- The writer, with the blocks that went through it. -/
structure TrieNode (S Size : Type) where
  cm : TrieWriter S Size
  undecided : List Block
  accepted : List Block
  rejected : List Block

inductive TrieStep where
  | insertBlock (block : Block)
  | accept (block : Block)
  | reject (block : Block)
  deriving DecidableEq, Repr

namespace TrieNode

/-- The state of a block is committed, with a reference to its root. -/
def insertBlock (block : Block) (node : TrieNode S Size) : TrieNode S Size :=
  match perform (TrieWriter.insertTrie block) { node.cm with db := update block.root node.cm.db } with
  | (.ok _, cm) => { node with cm, undecided := block :: node.undecided }
  | (.error _, cm) => { node with cm }

/-- A block counts as accepted once its root is in the tip buffer. -/
def accept (block : Block) (node : TrieNode S Size) : TrieNode S Size :=
  match perform (TrieWriter.acceptTrie block) node.cm with
  | (.error (.dereference _), cm) => { node with cm }
  | (_, cm) => { node with cm, undecided := node.undecided.erase block, accepted := node.accepted ++ [block] }

def reject (block : Block) (node : TrieNode S Size) : TrieNode S Size :=
  { node with cm := node.cm.rejectTrie block, undecided := node.undecided.erase block, rejected := block :: node.rejected }

/-- Undecided blocks only are accepted or rejected. -/
def step (node : TrieNode S Size) : TrieStep → Option (TrieNode S Size)
  | .insertBlock block => some (node.insertBlock block)
  | .accept block => if block ∈ node.undecided then some (node.accept block) else none
  | .reject block => if block ∈ node.undecided then some (node.reject block) else none

def start (db : S) (config : CacheConfig) : TrieNode S Size where
  cm := .new db config
  undecided := []
  accepted := []
  rejected := []

end TrieNode

/-- A node on any trie database. -/
def trieSystem (S Size : Type) {TrieError : Type} [TrieDB S TrieError Size] [LE Size] [DecidableLE Size] [Add Size] [Sub Size]
    [Mul Size] [Div Size] [NatCast Size] (config : CacheConfig) : System (TrieNode (S × List Hash) Size) TrieStep where
  initial node := ∃ db : S, node = .start (db, []) config
  step node action after := node.step action = some after

end

end Snowside.State
