import Mathlib.Data.List.Perm.Basic
import Mathlib.Logic.Function.Basic
import Snowside.Chain.Runs

/-! The tries of a state sync: their segments on the channel of the workers, the producer of the storage tries and the
callbacks of the tries that finish. -/

set_option autoImplicit false

namespace Snowside.StateSync

open Runs

/-- The root of a storage trie. -/
abbrev Root := Nat

def numStorageTrieSegments : Nat := 4
def numMainTrieSegments : Nat := 8
def defaultNumWorkers : Nat := 8

/-- What createSegments is doing, in the worker of the only segment. -/
inductive Splitting where
  | not
  | creating
  | sending
  deriving DecidableEq, Repr

/-- How far segmentFinished is once all segments are done. -/
inductive Stage where
  | syncing
  | hashed
  | written
  | finished
  deriving DecidableEq, Repr

/-- A trieToSync, with its segments counted by where they are. -/
structure Trie where
  segments : Nat
  /-- Made by createSegments, not yet on the channel. -/
  unsent : Nat
  queued : Nat
  running : Nat
  segmentsDone : Nat
  splitting : Splitting
  stage : Stage
  deriving DecidableEq, Repr

/-- NewTrieToSync: a segment for every marker, and one more. -/
def newTrieToSync (markers : Nat) : Trie := ⟨markers + 1, 0, 0, 0, 0, .not, .syncing⟩

/-- The worker that splits the trie, when there is one, is not at the end of its segment. -/
def Trie.splitters (trie : Trie) : Nat := if trie.splitting = .not then 0 else 1

/-- The storage trie producer. -/
inductive Producer where
  | waiting
  | fetching
  /-- The slot taken, the trie not yet in progress. -/
  | acquired (root : Root) (more : Bool)
  | tracked (root : Root) (more : Bool)
  /-- So many segments still to be put on the channel. -/
  | sending (root : Root) (left : Nat) (more : Bool)
  | returned
  deriving DecidableEq, Repr

/-- The main trie, by what onMainTrieFinished has done. -/
inductive MainTrie where
  | syncing
  | finishing
  | removing
  | finished
  deriving DecidableEq, Repr

/-- What is on disk: the markers of the segments, by trie, and the storage tries whose root is there. -/
structure Disk where
  markers : Option Root → Nat
  rootOnDisk : Root → Bool

/-- A state sync; the main trie goes by no root. -/
structure Sync where
  disk : Disk
  tries : Option Root → Trie
  trieQueue : List Root
  producer : Producer
  mainTrie : MainTrie
  mainTrieDone : Bool
  storageTriesDone : Bool
  /-- How often the channel of segments was closed. -/
  segmentsClosed : Nat
  sentOnClosed : Bool
  /-- triesInProgress: the main trie, and the storage tries. -/
  mainInProgress : Bool
  triesInProgress : List Root
  triesInProgressSem : Nat
  /-- The tries taken from the queue, and those of them not yet reported finished. -/
  taken : List Root
  unreported : List Root
  /-- The calls of onStorageTrieFinished, by what they do next. -/
  releasing : List Root
  clearing : List Root
  removing : List Root
  /-- The counts of tries in progress that the calls have seen and not yet checked. -/
  checking : List Nat
  reports : Root → Nat
  failed : Bool

/-- NewStateSyncer and Start on what is on disk; the main trie's segments are on the channel. -/
def newStateSyncer (disk : Disk) (trieQueue : List Root) : Sync where
  disk := disk
  tries key := match key with
    | none => { newTrieToSync (disk.markers none) with queued := disk.markers none + 1 }
    | some _ => ⟨0, 0, 0, 0, 0, .not, .syncing⟩
  trieQueue := trieQueue
  producer := .waiting
  mainTrie := .syncing
  mainTrieDone := false
  storageTriesDone := false
  segmentsClosed := 0
  sentOnClosed := false
  mainInProgress := true
  triesInProgress := []
  triesInProgressSem := 0
  taken := []
  unreported := []
  releasing := []
  clearing := []
  removing := []
  checking := []
  reports _ := 0
  failed := false

namespace Sync

def setTrie (sync : Sync) (key : Option Root) (trie : Trie) : Sync :=
  { sync with tries := Function.update sync.tries key trie }

/-- A segment goes on the channel. -/
def send (sync : Sync) (key : Option Root) (trie : Trie) : Sync :=
  { sync.setTrie key { trie with queued := trie.queued + 1 } with
    sentOnClosed := sync.sentOnClosed || decide (0 < sync.segmentsClosed) }

/-- A call of onStorageTrieFinished begins. -/
def onStorageTrieFinished (sync : Sync) (root : Root) : Sync :=
  { sync with
    unreported := sync.unreported.erase root
    releasing := root :: sync.releasing
    reports := Function.update sync.reports root (sync.reports root + 1) }

/-- OnFinish of the task of a trie. -/
def onFinish (sync : Sync) : Option Root → Sync
  | none => { sync with mainTrie := .finishing }
  | some root => sync.onStorageTrieFinished root

def maxSegments : Option Root → Nat
  | none => numMainTrieSegments
  | some _ => numStorageTrieSegments

end Sync

inductive Action where
  /-- A worker takes a segment and asks OnStart whether to skip it. -/
  | start (key : Option Root) (skip : Bool)
  | split (key : Option Root)
  | addSegment (key : Option Root)
  | sendSegments (key : Option Root)
  | sendSegment (key : Option Root)
  | endSplit (key : Option Root)
  | finishSegment (key : Option Root)
  | writeRoot (key : Option Root)
  | clearSegments (key : Option Root)
  | closeMainTrieDone
  | removeMainTrie
  | wake
  | fetch
  | addTrie
  | startSyncing
  | queueSegment
  | endSyncing
  | release (root : Root)
  | storageTrieDone (root : Root)
  | removeTrie (root : Root)
  | check (count : Nat)
  /-- The process dies and a new sync starts on the disk as it is. -/
  | crash (trieQueue : List Root)
  deriving DecidableEq, Repr

open Sync in
/-- One step of a worker, the producer or a callback. -/
def step (sync : Sync) : Action → Option Sync
  | .start key skip =>
    let trie := sync.tries key
    if 0 < trie.queued then
      let taken := { trie with queued := trie.queued - 1 }
      if skip then
        match key with
        | none => none
        | some root =>
          if sync.disk.rootOnDisk root then some ((sync.setTrie key taken).onStorageTrieFinished root) else none
      else some (sync.setTrie key { taken with running := trie.running + 1 })
    else none
  | .split key =>
    let trie := sync.tries key
    if trie.segments = 1 ∧ 0 < trie.running ∧ trie.splitting = .not then
      some (sync.setTrie key { trie with splitting := .creating })
    else none
  | .addSegment key =>
    let trie := sync.tries key
    if trie.splitting = .creating ∧ trie.segments < maxSegments key then
      some { sync.setTrie key { trie with segments := trie.segments + 1, unsent := trie.unsent + 1 } with
        disk := { sync.disk with markers := Function.update sync.disk.markers key (sync.disk.markers key + 1) } }
    else none
  | .sendSegments key =>
    let trie := sync.tries key
    if trie.splitting = .creating then some (sync.setTrie key { trie with splitting := .sending }) else none
  | .sendSegment key =>
    let trie := sync.tries key
    if trie.splitting = .sending ∧ 0 < trie.unsent then some (sync.send key { trie with unsent := trie.unsent - 1 })
    else none
  | .endSplit key =>
    let trie := sync.tries key
    if trie.splitting = .sending ∧ trie.unsent = 0 then some (sync.setTrie key { trie with splitting := .not }) else none
  | .finishSegment key =>
    let trie := sync.tries key
    if trie.splitters < trie.running then
      some (sync.setTrie key { trie with
        running := trie.running - 1
        segmentsDone := trie.segmentsDone + 1
        stage := if trie.segmentsDone + 1 = trie.segments then .hashed else trie.stage })
    else none
  | .writeRoot key =>
    let trie := sync.tries key
    if trie.stage = .hashed then
      let written := sync.setTrie key { trie with stage := .written }
      match key with
      | none => some written
      | some root =>
        some { written with disk := { sync.disk with rootOnDisk := Function.update sync.disk.rootOnDisk root true } }
    else none
  | .clearSegments key =>
    let trie := sync.tries key
    if trie.stage = .written then
      some ({ sync.setTrie key { trie with stage := .finished } with
        disk := { sync.disk with markers := Function.update sync.disk.markers key 0 } }.onFinish key)
    else none
  | .closeMainTrieDone =>
    if sync.mainTrie = .finishing then some { sync with mainTrieDone := true, mainTrie := .removing } else none
  | .removeMainTrie =>
    if sync.mainTrie = .removing then some { sync with mainInProgress := false, mainTrie := .finished } else none
  | .wake => if sync.producer = .waiting ∧ sync.mainTrieDone then some { sync with producer := .fetching } else none
  | .fetch =>
    if sync.producer = .fetching then
      match sync.trieQueue with
      | [] => some { sync with segmentsClosed := sync.segmentsClosed + 1, producer := .returned }
      | root :: rest =>
        if sync.triesInProgressSem < defaultNumWorkers then
          some { sync with
            trieQueue := rest
            triesInProgressSem := sync.triesInProgressSem + 1
            taken := root :: sync.taken
            unreported := root :: sync.unreported
            producer := .acquired root !rest.isEmpty }
        else none
    else none
  | .addTrie =>
    match sync.producer with
    | .acquired root more =>
      some { sync.setTrie (some root) (newTrieToSync (sync.disk.markers (some root))) with
        triesInProgress := root :: sync.triesInProgress.erase root
        producer := .tracked root more }
    | _ => none
  | .startSyncing =>
    match sync.producer with
    | .tracked root more =>
      some { sync with
        storageTriesDone := sync.storageTriesDone || !more
        producer := .sending root (sync.tries (some root)).segments more }
    | _ => none
  | .queueSegment =>
    match sync.producer with
    | .sending root (left + 1) more =>
      some { sync.send (some root) (sync.tries (some root)) with producer := .sending root left more }
    | _ => none
  | .endSyncing =>
    match sync.producer with
    | .sending _ 0 more => some { sync with producer := if more then .fetching else .returned }
    | _ => none
  | .release root =>
    if root ∈ sync.releasing ∧ 0 < sync.triesInProgressSem then
      some { sync with
        triesInProgressSem := sync.triesInProgressSem - 1
        releasing := sync.releasing.erase root
        clearing := root :: sync.clearing }
    else none
  | .storageTrieDone root =>
    if root ∈ sync.clearing then
      some { sync with clearing := sync.clearing.erase root, removing := root :: sync.removing }
    else none
  | .removeTrie root =>
    if root ∈ sync.removing then
      let left := { sync with removing := sync.removing.erase root }
      if root ∈ sync.triesInProgress then
        let others := sync.triesInProgress.erase root
        some { left with
          triesInProgress := others
          checking := ((if sync.mainInProgress then 1 else 0) + others.length) :: sync.checking }
      else some { left with failed := true }
    else none
  | .check count =>
    if count ∈ sync.checking then
      some { sync with
        checking := sync.checking.erase count
        segmentsClosed := if count = 0 ∧ sync.storageTriesDone then sync.segmentsClosed + 1 else sync.segmentsClosed }
    else none
  | .crash trieQueue => if trieQueue.Nodup then some (newStateSyncer sync.disk trieQueue) else none

/-- From a disk without markers. -/
def system : System Sync Action where
  initial sync := ∃ rootOnDisk trieQueue, trieQueue.Nodup ∧ sync = newStateSyncer ⟨fun _ => 0, rootOnDisk⟩ trieQueue
  step sync action after := step sync action = some after

end Snowside.StateSync
